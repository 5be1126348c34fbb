import ShapeCompiler.Proofs.Branches

/-!
# Bodies written piece by piece

Blocks of a body are written in any order: whoever writes moves between blocks, those that have an
exit among them, and returns to places that were noted.

* `Draft.Operation`: what can be done to a draft, with what it writes (`item?`) and the type and
  name of the value it makes (`note?`);
* `Draft.Transcript`: a draft and all that was written and answered on the way to it;
* `Draft.Holds`: what is in the blocks of a draft is what was written, each item in the block in
  which the draft stood, in order;
* `Draft.Transcript.closed_blocks_stay`: for every sequence of operations that moves to blocks that
  are there.
-/

namespace ShapeCompiler.Code

/-! ## Items -/

/-- What is written to a block: an instruction, or its exit. -/
inductive Draft.Item where
  | inst (i : Inst)
  | exit (e : Exit)

open Draft

/-- The items of a block. Its exit comes last. -/
def Block.items (k : Block) : List Item := k.insts.toList.map .inst ++ k.exit.toList.map .exit

def Block.add (k : Block) : Item → Block
  | .inst i => { k with insts := k.insts.push i }
  | .exit e => { k with exit := some e }

theorem Block.items_add {k : Block} (isOpen : k.exit = none) (x : Item) :
    (k.add x).items = k.items ++ [x] := by
  cases x <;> simp [items, add, isOpen]

namespace Draft

/-- The value that an item defines. -/
def Item.defined? : Item → Option ValueId
  | inst i => i.defined?
  | exit _ => none

def Item.write : Item → Writing Unit
  | inst i => emit i
  | exit e => close e

theorem defined_items (k : Block) :
    k.items.filterMap Item.defined? = k.insts.toList.filterMap Inst.defined? := by
  simp only [Block.items, List.filterMap_append, List.filterMap_map]
  cases k.exit <;> simp [Item.defined?, Function.comp_def]

/-! ## Operations -/

/-- What can be done to a draft. -/
inductive Operation where
  | block (name : String)
  | moveTo (b : BlockId)
  | place
  | restore (b : Option BlockId)
  | const (value : Const) (name : String)
  | plain (value : Const)
  | alloc (ty : TyId) (name : String)
  | load (ty : TyId) (ptr : ValueId) (name : String)
  | store (value ptr : ValueId)
  | fieldAddr (ty : TyId) (ptr : ValueId) (index : Nat) (name : String)
  | elemAddr (elem : TyId) (ptr index : ValueId) (name : String)
  | binary (op : BinaryOp) (lhs rhs : ValueId) (name : String)
  | compare (pred : Predicate) (lhs rhs : ValueId) (name : String)
  | not (value : ValueId) (name : String)
  | fneg (value : ValueId) (name : String)
  | bitcast (value : ValueId) (ty : TyId) (name : String)
  | call (func : FuncId) (ty : TyId) (args : List ValueId) (name : String)
  | callIndirect (sig ty : TyId) (callee : ValueId) (args : List ValueId) (name : String)
  | br (target : BlockId)
  | condBr (cond : ValueId) (thenBlock elseBlock : BlockId)
  | switch (value : ValueId) (default : BlockId) (cases : List (Int64 × BlockId))
  | ret (value : Option ValueId)
  | unreachable

inductive Answer where
  | nothing
  | value (v : ValueId)
  | block (b : BlockId)
  | place (b : Option BlockId)

def Answer.value? : Answer → Option ValueId
  | value v => some v
  | nothing | block _ | place _ => none

/-- A call without a result answers nothing. -/
def Answer.ofResult (v : Option ValueId) : Answer := v.elim nothing value

def Answer.done (_ : Unit) : Answer := nothing

/-- The step of writing. -/
def Operation.perform : Operation → Writing Answer
  | block name => .block <$> Draft.block name
  | moveTo b => .done <$> Draft.moveTo b
  | place => .place <$> Draft.place
  | restore b => .done <$> Draft.restore b
  | const value name => .value <$> Draft.const value name
  | plain value => .value <$> Draft.plain value
  | alloc ty name => .value <$> Draft.alloc ty name
  | load ty ptr name => .value <$> Draft.load ty ptr name
  | store value ptr => .done <$> Draft.store value ptr
  | fieldAddr ty ptr index name => .value <$> Draft.fieldAddr ty ptr index name
  | elemAddr elem ptr index name => .value <$> Draft.elemAddr elem ptr index name
  | binary op lhs rhs name => .value <$> Draft.binary op lhs rhs name
  | compare pred lhs rhs name => .value <$> Draft.compare pred lhs rhs name
  | not value name => .value <$> Draft.not value name
  | fneg value name => .value <$> Draft.fneg value name
  | bitcast value ty name => .value <$> Draft.bitcast value ty name
  | call func ty args name => .ofResult <$> Draft.call func ty args name
  | callIndirect sig ty callee args name => .ofResult <$> Draft.callIndirect sig ty callee args name
  | br target => .done <$> Draft.br target
  | condBr cond thenBlock elseBlock => .done <$> Draft.condBr cond thenBlock elseBlock
  | switch value default cases => .done <$> Draft.switch value default cases
  | ret value => .done <$> Draft.ret value
  | unreachable => .done <$> Draft.unreachable

/-- The item that an operation writes; `dst` is the value that it makes, if it makes one. -/
def Operation.item? (dst : ValueId) : Operation → Option Item
  | block _ | moveTo _ | place | restore _ => none
  | const value _ | plain value => some (.inst (.const dst value))
  | alloc ty _ => some (.inst (.alloc dst ty))
  | load ty ptr _ => some (.inst (.load dst ty ptr))
  | store value ptr => some (.inst (.store value ptr))
  | fieldAddr ty ptr index _ => some (.inst (.fieldAddr dst ty ptr index))
  | elemAddr elem ptr index _ => some (.inst (.elemAddr dst elem ptr index))
  | binary op lhs rhs _ => some (.inst (.binary dst op lhs rhs))
  | compare pred lhs rhs _ => some (.inst (.compare dst pred lhs rhs))
  | not value _ => some (.inst (.not dst value))
  | fneg value _ => some (.inst (.fneg dst value))
  | bitcast value ty _ => some (.inst (.bitcast dst value ty))
  | call func ty args _ => some (.inst (.call (if ty = .void then none else some dst) func args))
  | callIndirect sig ty callee args _ =>
    some (.inst (.callIndirect (if ty = .void then none else some dst) sig callee args))
  | br target => some (.exit (.br target))
  | condBr cond thenBlock elseBlock => some (.exit (.condBr cond thenBlock elseBlock))
  | switch value default cases => some (.exit (.switch value default cases))
  | ret value => some (.exit (.ret value))
  | unreachable => some (.exit .unreachable)

/-- The type and the name of the value that an operation makes. -/
def Operation.note? (d : Draft) : Operation → Option ValueNote
  | const value name => some ⟨value.ty, name⟩
  | plain value => some ⟨value.ty, value.label⟩
  | alloc _ name | fieldAddr _ _ _ name | elemAddr _ _ _ name => some ⟨.ptr, name⟩
  | load ty _ name | bitcast _ ty name => some ⟨ty, name⟩
  | binary op lhs _ name => some ⟨resultType (d.valueType lhs) op, name⟩
  | compare _ _ _ name | not _ name => some ⟨.i1, name⟩
  | fneg _ name => some ⟨.f64, name⟩
  | call _ ty _ name | callIndirect _ ty _ _ name => if ty = .void then none else some ⟨ty, name⟩
  | block _ | moveTo _ | place | restore _ | store _ _ | br _ | condBr _ _ _ | switch _ _ _ | ret _
  | unreachable => none

/-- The draft with one more value, or as it is. -/
def noting (d : Draft) (note : Option ValueNote) : Draft :=
  note.elim d fun n => { d with values := d.values.push n }

/-- A call makes a value where it has a result. -/
theorem callBy_run (d : Draft) (ty : TyId) (name : String) (inst : Option ValueId → Inst) :
    let dst : Option ValueId := if ty = .void then none else some ⟨d.values.size⟩
    let note : Option ValueNote := if ty = .void then none else some ⟨ty, name⟩
    (callBy ty name inst).run d = (dst, ((emit (inst dst)).run (d.noting note)).2) := by
  unfold callBy
  by_cases isVoid : ty = .void
  · simp only [isVoid, if_true]
    rfl
  · simp only [isVoid, if_false]
    rfl

/-- An operation that writes records the value that it makes, writes, and answers this value. -/
theorem perform_of_item {op : Operation} {d : Draft} {x : Item}
    (item : op.item? ⟨d.values.size⟩ = some x) :
    op.perform.run d = (.ofResult ((op.note? d).map fun _ => ⟨d.values.size⟩),
      (x.write.run (d.noting (op.note? d))).2) := by
  cases op with
  | block | moveTo | place | restore => cases item
  | call func ty args name =>
    cases item
    have ran := callBy_run d ty name (.call · func args)
    simp only [Operation.perform, Draft.call, StateT.run_map, ran, Operation.note?]
    split <;> rfl
  | callIndirect sig ty callee args name =>
    cases item
    have ran := callBy_run d ty name (.callIndirect · sig callee args)
    simp only [Operation.perform, Draft.callIndirect, StateT.run_map, ran, Operation.note?]
    split <;> rfl
  | _ =>
    cases item
    rfl

/-- The other operations leave values and what is written alone. -/
theorem perform_of_no_item {op : Operation} {dst : ValueId}
    (none : op.item? dst = none) (d : Draft) :
    op.note? d = Option.none ∧ (op.perform.run d).1.value? = Option.none ∧
      (op.perform.run d).2.values = d.values := by
  cases op with
  | block | moveTo | place | restore => exact ⟨rfl, rfl, rfl⟩
  | _ => cases none

/-! ## What is in the blocks -/

variable {d : Draft} {b : BlockId} {items : List Item}

/-- The blocks hold what was written: each item is in one block, behind those written to this block
before, and there is nothing else. -/
structure Holds (d : Draft) (items : List Item) : Prop where
  inside : ∀ b, d.current = some b → b.raw < d.blocks.size
  placed : ∃ log : List (BlockId × Item), log.map Prod.snd = items ∧
    (∀ e ∈ log, e.1.raw < d.blocks.size) ∧
    ∀ (b : BlockId) (k : Block), d.blocks[b.raw]? = some k →
      k.items = (log.filter fun e => e.1 = b).map Prod.snd
  whole : (d.blocks.toList.flatMap Block.items).Perm items

theorem holds_start (func : FuncId) (params : List TyId) : (start func params).Holds [] := by
  refine ⟨fun b here => ?_, ⟨[], rfl, by simp, fun b k there => ?_⟩, .refl _⟩
  · cases here
    exact Nat.zero_lt_one
  · obtain ⟨inside, rfl⟩ := Array.getElem?_eq_some_iff.mp there
    obtain isEntry : b.raw = 0 := Nat.lt_one_iff.mp inside
    simp [start, isEntry, Block.items]

theorem Holds.standing (h : d.Holds items) {current : Option BlockId}
    (inside : ∀ b, current = some b → b.raw < d.blocks.size) :
    ({ d with current } : Draft).Holds items :=
  ⟨inside, h.placed, h.whole⟩

theorem Holds.noting (h : d.Holds items) (note : Option ValueNote) :
    (d.noting note).Holds items := by
  cases note <;> exact ⟨h.inside, h.placed, h.whole⟩

/-- A block that is added is empty. -/
theorem Holds.withBlock (h : d.Holds items) (name : String) : (d.withBlock name).Holds items := by
  have size : (d.withBlock name).blocks.size = d.blocks.size + 1 := by simp [Draft.withBlock]
  obtain ⟨log, isLog, within, filled⟩ := h.placed
  refine ⟨fun b here => ?_, ⟨log, isLog, fun e logged => ?_, fun b k there => ?_⟩, ?_⟩
  · rw [size]
    exact Nat.lt_succ_of_lt (h.inside b here)
  · rw [size]
    exact Nat.lt_succ_of_lt (within e logged)
  · rcases of_getElem?_push there with ⟨isNew, rfl⟩ | there
    · have none : log.filter (fun e => e.1 = b) = [] :=
          List.filter_eq_nil_iff.mpr fun e logged => by
        have below := within e logged
        rintro same
        obtain rfl : e.1 = b := by simpa using same
        omega
      simp [none, Block.items]
    · exact filled b k there
  · simpa [Draft.withBlock, Block.items] using h.whole

theorem perm_add {blocks : List Block} {i : Nat} {k : Block} (there : blocks[i]? = some k)
    (free : k.exit = none) (x : Item) :
    ((blocks.modify i (·.add x)).flatMap Block.items).Perm (blocks.flatMap Block.items ++ [x]) := by
  obtain ⟨inside, isBlock⟩ := List.getElem?_eq_some_iff.mp there
  obtain ⟨before, k', behind, rfl, rfl, modified⟩ := List.exists_of_modify (·.add x) inside
  obtain rfl : k' = k := by simpa using isBlock
  rw [modified]
  simp only [List.flatMap_append, List.flatMap_cons, Block.items_add free, List.append_assoc]
  have last : ([x] ++ behind.flatMap Block.items).Perm (behind.flatMap Block.items ++ [x]) :=
    List.perm_append_comm
  exact (last.append_left _).append_left _

/-- An item that goes to the open block is the last one there. -/
theorem Holds.add (h : d.Holds items) (isOpen : d.Open b) (x : Item) :
    ({ d with blocks := d.blocks.modify b.raw (·.add x) } : Draft).Holds (items ++ [x]) := by
  obtain ⟨k, there, free⟩ := isOpen.block
  obtain ⟨log, isLog, within, filled⟩ := h.placed
  have bound := (Array.getElem?_eq_some_iff.mp there).1
  refine ⟨fun b here => ?_, ⟨log ++ [(b, x)], by simp [isLog], ?_, fun b' k' there' => ?_⟩, ?_⟩
  · simpa using h.inside b here
  · intro e logged
    rcases List.mem_append.mp logged with old | new
    · simpa using within e old
    · obtain rfl := List.mem_singleton.mp new
      simpa using bound
  · rw [List.filter_append, List.map_append]
    by_cases same : b = b'
    · subst same
      simp only [Array.getElem?_modify, if_true, there, Option.map_some,
        Option.some.injEq] at there'
      subst there'
      rw [Block.items_add free, filled b k there]
      simp
    · have kept : (d.blocks.modify b.raw (·.add x))[b'.raw]? = d.blocks[b'.raw]? :=
        getElem?_modify_ne same
      rw [filled b' k' (kept.symm.trans there')]
      simp [same]
  · rw [Array.toList_modify]
    exact (perm_add (by simpa using there) free x).trans (h.whole.append_right [x])

theorem Holds.openBlock (h : d.Holds items) :
    (openBlock.run d).2.Open (openBlock.run d).1 ∧ (openBlock.run d).2.Holds items := by
  unfold Draft.openBlock
  simp only [StateT.run_bind, StateT.run_get, pure_bind]
  split
  · rename_i b here isOpen
    have there : d.blocks[b.raw]? = some _ := Array.getElem?_eq_getElem (h.inside b here)
    refine ⟨⟨here, _, there, ?_⟩, h⟩
    simpa [Draft.isClosed, here, there] using isOpen
  · have waits : (d.withBlock "dead").Waits ⟨d.blocks.size⟩ := waits_new h.inside "dead"
    exact ⟨waits.opens, (h.withBlock "dead").standing fun b here => Option.some.inj here ▸ waits.lt⟩

theorem write_run (x : Item) (d : Draft) : (x.write.run d).2 =
    { (openBlock.run d).2 with
      blocks := (openBlock.run d).2.blocks.modify (openBlock.run d).1.raw (·.add x) } := by
  cases x <;> rfl

theorem Holds.write (h : d.Holds items) (x : Item) : (x.write.run d).2.Holds (items ++ [x]) := by
  rw [write_run]
  exact h.openBlock.2.add h.openBlock.1 x

theorem Item.write_grows (x : Item) : Writing.Grows x.write := by
  cases x with
  | inst i => exact .emit i
  | exit e => exact .close e

theorem extends_noting (d : Draft) (note : Option ValueNote) : d.Extends (d.noting note) := by
  cases note with
  | none => exact .refl d
  | some n =>
    have more := Draft.Extends.of_values d #[n] d.current
    rwa [← Array.push_eq_append] at more

/-! ## One operation -/

/-- The block that was answered, as a new one or as the place where the draft stood. -/
def Answer.block? : Answer → Option BlockId
  | block b => some b
  | place b => b
  | nothing | value _ => none

/-- The block that an operation moves to. -/
def Operation.target? : Operation → Option BlockId
  | moveTo b => some b
  | restore b => b
  | _ => none

/-- The operation moves only to a block that is there. -/
def Operation.Within (d : Draft) (op : Operation) : Prop := ∀ b ∈ op.target?, b.raw < d.blocks.size

instance (d : Draft) (op : Operation) : Decidable (op.Within d) :=
  inferInstanceAs (Decidable (∀ b ∈ op.target?, b.raw < d.blocks.size))

/-- Whatever is done, blocks that have an exit stay as they are. -/
theorem extends_perform (op : Operation) (d : Draft) : d.Extends (op.perform.run d).2 := by
  cases item : op.item? ⟨d.values.size⟩ with
  | some x =>
    rw [perform_of_item item]
    exact (extends_noting d _).trans (x.write_grows.extend _)
  | none =>
    cases op with
    | block name => exact extends_withBlock d name
    | moveTo b => exact extends_moved d b
    | place => exact .refl d
    | restore b => exact ⟨⟨#[], Array.append_empty.symm⟩, fun _ k there => ⟨k, there, .refl k⟩⟩
    | _ => cases item

theorem Holds.perform (h : d.Holds items) {op : Operation} (within : op.Within d) :
    (op.perform.run d).2.Holds (items ++ (op.item? ⟨d.values.size⟩).toList) := by
  cases item : op.item? ⟨d.values.size⟩ with
  | some x =>
    rw [perform_of_item item]
    exact (h.noting _).write x
  | none =>
    rw [Option.toList_none, List.append_nil]
    cases op with
    | block name => exact h.withBlock name
    | moveTo b => exact h.standing within
    | place => exact h
    | restore b => exact h.standing within
    | _ => cases item

/-- The value that is answered is the next one. -/
theorem value?_perform (op : Operation) (d : Draft) :
    (op.perform.run d).1.value? = (op.note? d).map fun _ => ⟨d.values.size⟩ := by
  cases item : op.item? ⟨d.values.size⟩ with
  | some x =>
    rw [perform_of_item item]
    cases op.note? d <;> rfl
  | none =>
    obtain ⟨noNote, noValue, _⟩ := perform_of_no_item item d
    simp [noNote, noValue]

/-- The value that is answered is defined by what is written. -/
theorem defined?_item (op : Operation) (d : Draft) (dst : ValueId) :
    (op.item? dst).bind Item.defined? = (op.note? d).map fun _ => dst := by
  cases op with
  | call func ty args name =>
    simp only [Operation.item?, Operation.note?]
    split <;> rfl
  | callIndirect sig ty callee args name =>
    simp only [Operation.item?, Operation.note?]
    split <;> rfl
  | _ => rfl

theorem values_openBlock (d : Draft) : (openBlock.run d).2.values = d.values := by
  unfold Draft.openBlock
  simp only [StateT.run_bind, StateT.run_get, pure_bind]
  split <;> rfl

theorem values_perform (op : Operation) (d : Draft) :
    (op.perform.run d).2.values.toList = d.values.toList ++ (op.note? d).toList := by
  cases item : op.item? ⟨d.values.size⟩ with
  | some x =>
    rw [perform_of_item item, write_run]
    cases note : op.note? d <;> simp [values_openBlock, noting]
  | none =>
    obtain ⟨noNote, _, same⟩ := perform_of_no_item item d
    simp [noNote, same]

theorem Holds.answered (h : d.Holds items) {op : Operation}
    (answer : (op.perform.run d).1.block? = some b) : b.raw < (op.perform.run d).2.blocks.size := by
  cases item : op.item? ⟨d.values.size⟩ with
  | some x =>
    rw [perform_of_item item] at answer
    cases note : op.note? d <;> rw [note] at answer <;> cases answer
  | none =>
    cases op with
    | block name =>
      cases answer
      change d.blocks.size < (d.withBlock name).blocks.size
      simp [Draft.withBlock]
    | moveTo b => cases answer
    | place => exact h.inside b answer
    | restore b => cases answer
    | _ => cases item

/-! ## Transcripts -/

/-- A draft, and all that was written to it, noted of its values and answered. -/
structure Transcript where
  draft : Draft
  items : List Item := []
  notes : List ValueNote := []
  answers : List Answer := []

/-- What is noted of parameters. -/
def paramNotes (params : List TyId) : List ValueNote :=
  params.zipIdx.map fun (ty, i) => ⟨ty, s!"arg{i}"⟩

namespace Transcript

def start (func : FuncId) (params : List TyId) : Transcript := { draft := Draft.start func params }

def next (t : Transcript) (op : Operation) : Transcript where
  draft := (op.perform.run t.draft).2
  items := t.items ++ (op.item? ⟨t.draft.values.size⟩).toList
  notes := t.notes ++ (op.note? t.draft).toList
  answers := t.answers ++ [(op.perform.run t.draft).1]

def after (t : Transcript) (ops : List Operation) : Transcript := ops.foldl next t

/-- The values that were answered. -/
def given (t : Transcript) : List ValueId := t.answers.filterMap Answer.value?

/-- The operations, done one after the other, move only to blocks that are there. -/
def Within (t : Transcript) : List Operation → Prop
  | [] => True
  | op :: rest => op.Within t.draft ∧ (t.next op).Within rest

instance decidableWithin (t : Transcript) : (ops : List Operation) → Decidable (t.Within ops)
  | [] => .isTrue trivial
  | op :: rest =>
    have := decidableWithin (t.next op) rest
    inferInstanceAs (Decidable (op.Within t.draft ∧ (t.next op).Within rest))

/-- What holds of a draft and its transcript, for a body with these parameters. -/
structure Sound (params : List TyId) (t : Transcript) : Prop where
  holds : t.draft.Holds t.items
  noted : t.draft.values.toList = paramNotes params ++ t.notes
  given : t.given = (List.range t.notes.length).map fun i => ⟨params.length + i⟩
  defined : t.items.filterMap Item.defined? = t.given
  answered : ∀ a ∈ t.answers, ∀ b, a.block? = some b → b.raw < t.draft.blocks.size

variable {params : List TyId} {t : Transcript}

theorem sound_start (func : FuncId) (params : List TyId) : (start func params).Sound params where
  holds := holds_start func params
  noted := by simp [start, Draft.start, paramNotes]
  given := rfl
  defined := rfl
  answered := by simp [start]

theorem Sound.size (h : t.Sound params) : t.draft.values.size = params.length + t.notes.length := by
  have length := congrArg List.length h.noted
  simpa [paramNotes] using length

theorem filterMap_toList {α β : Type} (f : α → Option β) (x : Option α) :
    x.toList.filterMap f = (x.bind f).toList := by
  cases x with
  | none => rfl
  | some a => cases value : f a <;> simp [value]

theorem given_next (t : Transcript) (op : Operation) : (t.next op).given =
    t.given ++ ((op.note? t.draft).map fun _ => ⟨t.draft.values.size⟩).toList := by
  rw [given, next, List.filterMap_append, ← value?_perform]
  exact congrArg _ (filterMap_toList Answer.value? (some _))

theorem Sound.next (h : t.Sound params) {op : Operation} (within : op.Within t.draft) :
    (t.next op).Sound params where
  holds := h.holds.perform within
  noted := by
    rw [Transcript.next, values_perform, h.noted, List.append_assoc]
  given := by
    rw [given_next, h.given, h.size]
    cases note : op.note? t.draft <;> simp [Transcript.next, note, List.range_succ]
  defined := by
    rw [given_next, ← h.defined, ← defined?_item op, Transcript.next, List.filterMap_append,
      filterMap_toList]
  answered a inside b answer := by
    rcases List.mem_append.mp inside with old | new
    · exact Nat.lt_of_lt_of_le (h.answered a old b answer)
        (extends_perform op t.draft).blocks_size_le
    · obtain rfl := List.mem_singleton.mp new
      exact h.holds.answered answer

theorem Sound.after (h : t.Sound params) {ops : List Operation} (within : t.Within ops) :
    (t.after ops).Sound params := by
  induction ops generalizing t with
  | nil => exact h
  | cons op rest ih => exact ih (h.next within.1) within.2

theorem extends_after (t : Transcript) (ops : List Operation) :
    t.draft.Extends (t.after ops).draft := by
  induction ops generalizing t with
  | nil => exact .refl _
  | cons op rest ih => exact (extends_perform op t.draft).trans (ih (t.next op))

/-- The values that the instructions of a draft define are those that were answered. -/
theorem Sound.perm_defined (h : t.Sound params) :
    (t.draft.finish.insts.filterMap Inst.defined?).Perm t.given := by
  have alike : t.draft.finish.insts.filterMap Inst.defined? =
      (t.draft.blocks.toList.flatMap Block.items).filterMap Item.defined? := by
    simp only [Body.insts, finish, List.filterMap_flatMap, defined_items]
  rw [alike, ← h.defined]
  exact h.holds.whole.filterMap _

theorem Sound.nodup_given (h : t.Sound params) : t.given.Nodup := by
  rw [h.given]
  refine List.nodup_range.map fun i j same => ?_
  simpa using same

/-- Each value that was answered is defined by one instruction, and no instruction defines
another. -/
theorem Sound.countP_defined (h : t.Sound params) (v : ValueId) :
    t.draft.finish.insts.countP (fun i => i.defined? = some v) = if v ∈ t.given then 1 else 0 := by
  rw [← h.nodup_given.count, ← h.perm_defined.count_eq v, List.count, List.countP_filterMap]
  refine List.countP_congr fun i _ => ?_
  cases i.defined? <;> simp

/-- A body is written by operations that move only to blocks that are there. A block that has an
exit stays as it is, whatever is done then. Each item that was written is in one block, in the order
of writing, and a block holds nothing else. The values that were answered are no parameters and
differ from one another; each of them is defined by one instruction, and no instruction defines
another. Types and names are recorded of the parameters and of these values, which are numbered in
order. A block that was answered, as a new one or as the place of the draft, may be moved to at any
later time. -/
theorem closed_blocks_stay (func : FuncId) (params : List TyId) (first rest : List Operation)
    (within : (start func params).Within first) :
    let now := (start func params).after first
    (∀ (b : Nat) (k : Block), now.draft.blocks[b]? = some k → k.exit.isSome →
      (now.after rest).draft.blocks[b]? = some k) ∧
    (∃ log : List (BlockId × Item), log.map Prod.snd = now.items ∧
      (∀ e ∈ log, e.1.raw < now.draft.blocks.size) ∧
      ∀ (b : BlockId) (k : Block), now.draft.blocks[b.raw]? = some k →
        k.items = (log.filter fun e => e.1 = b).map Prod.snd) ∧
    (now.given.Nodup ∧ ∀ v ∈ now.given, params.length ≤ v.raw) ∧
    (∀ v, now.draft.finish.insts.countP (fun i => i.defined? = some v) =
      if v ∈ now.given then 1 else 0) ∧
    (now.draft.values.toList = paramNotes params ++ now.notes ∧
      now.given = (List.range now.notes.length).map fun i => ⟨params.length + i⟩) ∧
    ∀ a ∈ now.answers, ∀ b, a.block? = some b → b.raw < (now.after rest).draft.blocks.size := by
  intro now
  have sound : now.Sound params := (sound_start func params).after within
  have later : now.draft.Extends (now.after rest).draft := extends_after now rest
  refine ⟨fun b k there left => ?_, sound.holds.placed, ⟨sound.nodup_given, fun v inside => ?_⟩,
    sound.countP_defined, ⟨sound.noted, sound.given⟩, fun a inside b answer => ?_⟩
  · obtain ⟨k', there', more⟩ := later.blocks b k there
    rw [there', more.left left]
  · rw [sound.given] at inside
    obtain ⟨i, _, rfl⟩ := List.mem_map.mp inside
    exact Nat.le_add_right _ _
  · exact Nat.lt_of_lt_of_le (sound.answered a inside b answer) later.blocks_size_le

/-- The entry block is left, and then a truth value is made, another block is written and left, and
the first value is negated. -/
def leavingTwice : List Operation :=
  [.ret none, .plain (.bool true), .place, .block "other", .moveTo ⟨2⟩, .unreachable,
    .restore (some ⟨1⟩), .not ⟨1⟩ "no"]

theorem closed_blocks_stay_leavingTwice :
    (start ⟨0⟩ [.ptr]).Within leavingTwice ∧
    (((start ⟨0⟩ [.ptr]).after leavingTwice).after [.moveTo ⟨0⟩, .store ⟨0⟩ ⟨0⟩]).draft.blocks[0]? =
      some ⟨"entry", #[], some (.ret none)⟩ := by
  have within : (start ⟨0⟩ [.ptr]).Within leavingTwice := by decide
  refine ⟨within, ?_⟩
  exact (closed_blocks_stay ⟨0⟩ [.ptr] leavingTwice [.moveTo ⟨0⟩, .store ⟨0⟩ ⟨0⟩] within).1 0 _
    rfl rfl

end Transcript

end Draft

end ShapeCompiler.Code
