import ShapeCompiler.Proofs.Callees
import ShapeCompiler.Proofs.Comparisons
import ShapeCompiler.Proofs.Instances
import ShapeCompiler.Proofs.Layouts
import ShapeCompiler.Proofs.ParentMembers

/-!
# Start values of properties

A start value that is a literal is put into a box of its own, and the box into the field of the
property.

* `Initialized`: fields of an instance got start values, one after the other;
* `Program.startsOf`: the start values of the properties of a class;
* `Emit.runInitializers_does`: what the code does that stores the start values of a class.
-/

namespace ShapeCompiler

open Source Code Work Machine

/-! ## Fields that got start values -/

theorem ClassLayout.field?_inj {layout : ClassLayout} {n n' : Name} {k : Nat} {i i' : Info}
    (here : layout.field? n = some (k, i)) (here' : layout.field? n' = some (k, i')) : n = n' := by
  obtain ⟨j, prop, first, at_, rfl, _⟩ := field?_eq_some_iff.mp here
  obtain ⟨j', prop', first', at', same, _⟩ := field?_eq_some_iff.mp here'
  obtain rfl : j = j' := by omega
  cases at_.symm.trans at'
  obtain ⟨inside, isName, _⟩ := List.findIdx?_eq_some_iff_getElem.mp first
  obtain ⟨_, isName', _⟩ := List.findIdx?_eq_some_iff_getElem.mp first'
  exact (of_decide_eq_true isName).symm.trans (of_decide_eq_true isName')

/-- The fields of the instance in the allocation `o` got start values in this order: each value is
in a box of its own, and the field of a name holds the box of the last value for this name. -/
structure Initialized (layout : ClassLayout) (o : Nat) (starts : List (Name × Value)) (m : Memory)
    (items : List Value) (m' : Memory) (items' : List Value) : Prop where
  keeps : m.Keeps [o] m'
  boxes : m'.boxes = m.boxes ++ starts.map (·.2)
  object : m'.heap[o]? = some (.agg items')
  length : items'.length = items.length
  started : ∀ n i info v, layout.field? n = some (i, info) → starts.reverse.lookup n = some v →
    ∃ b, items'[i]? = some (address b) ∧ m'.heap[b]? = some v ∧ b ≠ o
  others : ∀ n i info, layout.field? n = some (i, info) → starts.reverse.lookup n = none →
    items'[i]? = items[i]?

namespace Initialized

variable {layout : ClassLayout} {o : Nat} {starts starts' : List (Name × Value)} {m m' m'' : Memory}
  {items items' items'' : List Value}

theorem of_arranges (arranges : m.Arranges [] m') (object : m.heap[o]? = some (.agg items)) :
    Initialized layout o [] m items m' items where
  keeps := arranges.weaken (by simp) |>.toKeeps
  boxes := by simp [arranges.boxes]
  object := arranges.heap _ _ List.not_mem_nil object
  length := rfl
  started := nofun
  others := fun _ _ _ _ _ => rfl

theorem trans (h : Initialized layout o starts m items m' items')
    (h' : Initialized layout o starts' m' items' m'' items'') :
    Initialized layout o (starts ++ starts') m items m'' items'' where
  keeps := h.keeps.trans h'.keeps
  boxes := by rw [h'.boxes, h.boxes, List.map_append, List.append_assoc]
  object := h'.object
  length := h'.length.trans h.length
  started n i info v field last := by
    rw [List.reverse_append, List.lookup_append] at last
    cases later : starts'.reverse.lookup n with
    | some v' =>
      rw [later] at last
      cases last
      exact h'.started n i info _ field later
    | none =>
      rw [later] at last
      obtain ⟨b, item, cell, apart⟩ := h.started n i info v field last
      refine ⟨b, (h'.others n i info field later).trans item, ?_, apart⟩
      exact h'.keeps.heap b v (by simpa using apart) cell
  others n i info field none := by
    rw [List.reverse_append, List.lookup_append, Option.or_eq_none_iff] at none
    exact (h'.others n i info field none.1).trans (h.others n i info field none.2)

/-- One value is put into a new box, and the box into the field. -/
theorem single {n : Name} {i : Nat} {info : Info} {v : Value} (scalar : v.isAggregate = false)
    (object : m.heap[o]? = some (.agg items)) (field : layout.field? n = some (i, info))
    (inside : i < items.length) : Initialized layout o [(n, v)] m items
      ((m.push v).put o (.agg (items.set i (address m.heap.size))))
      (items.set i (address m.heap.size)) := by
  have old := Memory.lt_of_heap object
  have object' : (m.push v).heap[o]? = some (.agg items) := Memory.heap_push_lt v object
  refine ⟨((Memory.keeps_push m v).weaken (by simp)).trans (Memory.keeps_put _ _ _), ?_,
    Memory.heap_put (by simp; omega) _, by simp, ?_, ?_⟩
  · rw [Memory.boxes_put object', Memory.boxes_push m scalar]
    rfl
  · intro n' i' info' v' field' last
    obtain ⟨rfl, rfl⟩ : n' = n ∧ v = v' := by
      rw [List.reverse_singleton, List.lookup_cons, List.lookup_nil] at last
      split at last
      · rename_i same
        exact ⟨by simpa using same, Option.some.inj last⟩
      · cases last
    cases field.symm.trans field'
    refine ⟨m.heap.size, by simp [inside], ?_, by omega⟩
    rw [Memory.heap_put_ne _ (by omega), Memory.heap_push]
  · intro n' i' info' field' none
    have apart : i ≠ i' := by
      rintro rfl
      obtain rfl := ClassLayout.field?_inj field field'
      simp at none
    rw [List.getElem?_set_ne apart]

end Initialized

/-! ## Literals -/

namespace Source.Program

/-- What a literal is, and its value. -/
def literal? (p : Program) (e : ExprId) : Option (Info × Value) :=
  match (p.expr e).kind with
  | .number x => some (.number, .float x)
  | .text n => some (.text, .text (p.text n))
  | .bool b => some (.boolean, .bool b)
  | _ => none

/-- What is known of values of the type, if they are numbers, texts or truth values. -/
def scalarInfo? (p : Program) (ty : TypeId) : Option Info :=
  match p.types.get ty with
  | .number => some .number
  | .text => some .text
  | .boolean => some .boolean
  | _ => none

theorem scalar_of_literal {p : Program} {e : ExprId} {i : Info} {v : Value}
    (literal : p.literal? e = some (i, v)) : i.Scalar v := by
  unfold literal? at literal
  split at literal <;> cases literal
  · exact .number _
  · exact .text _
  · exact .boolean _

end Source.Program

theorem Info.Scalar.not_aggregate {i : Info} {v : Value} (h : i.Scalar v) :
    v.isAggregate = false := by
  cases h <;> rfl

/-- The start value of a property: one of the instances, or one of the class itself. -/
def Source.Decl.start? (static : Bool) (d : Decl) : Option ExprId :=
  match d.kind with
  | .property q => if d.flags.static = static then q.init else none
  | _ => none

theorem startValue?_eq (d : Decl) : Emit.startValue? d = d.start? false := by
  unfold Emit.startValue? Decl.start?
  cases d.kind <;> cases d.flags.static <;> rfl

theorem staticStart?_eq (d : Decl) : Emit.staticStart? d = d.start? true := by
  unfold Emit.staticStart? Decl.start?
  cases d.kind <;> cases d.flags.static <;> rfl

namespace Source.Program

/-- The literals with which the properties among some members start, in order. -/
def startsAmong (p : Program) (static : Bool) (members : List (DeclId × Decl)) :
    List (Name × Value) :=
  members.filterMap fun m =>
    (m.2.start? static).bind fun e => (p.literal? e).map fun v => (m.2.name, v.2)

/-- The literals with which the properties of a class start, in order. -/
def startsOf (p : Program) (static : Bool) (cls : DeclId) : List (Name × Value) :=
  p.startsAmong static ((p.members cls).toOption.getD [])

theorem startsAmong_append (p : Program) (static : Bool) (members members' : List (DeclId × Decl)) :
    p.startsAmong static (members ++ members') =
      p.startsAmong static members ++ p.startsAmong static members' := List.filterMap_append

theorem startsAmong_some {p : Program} {static : Bool} {m : DeclId} {d : Decl}
    {e : ExprId} {i : Info}
    {v : Value} (start : d.start? static = some e) (literal : p.literal? e = some (i, v)) :
    p.startsAmong static [(m, d)] = [(d.name, v)] := by
  simp [startsAmong, start, literal]

theorem startsAmong_none {p : Program} {static : Bool} {m : DeclId} {d : Decl}
    (start : d.start? static = none) : p.startsAmong static [(m, d)] = [] := by
  simp [startsAmong, start]

theorem classDecl_of_members {p : Program} {cls : DeclId} {ms : List (DeclId × Decl)}
    (isMembers : p.members cls = .ok ms) :
    ∃ c, p.classDecl cls = .ok c ∧ c.members = ms.map (·.1) ∧ ∀ m d,
    (m, d) ∈ ms → p.decl m = .ok d := by
  obtain ⟨c, isClass, found⟩ := exists_of_bind_ok isMembers
  clear isMembers
  refine ⟨c, isClass, ?_, fun m d inside => ?_⟩
  · generalize c.members = ids at found
    induction ids generalizing ms with
    | nil =>
      cases found
      rfl
    | cons m ids ih =>
      rw [List.mapM_cons] at found
      obtain ⟨first, isFirst, found⟩ := exists_of_bind_ok found
      obtain ⟨others, areOthers, found⟩ := exists_of_bind_ok found
      cases found
      obtain ⟨d, _, made⟩ := exists_of_bind_ok isFirst
      cases made
      rw [List.map_cons, ← ih areOthers]
  · obtain ⟨m', _, made⟩ := exists_of_mapM_ok found inside
    obtain ⟨d', isDecl, made⟩ := exists_of_bind_ok made
    cases made
    exact isDecl

end Source.Program

/-- The property starts with the value, and the layout has it for what the value is. -/
structure ClassLayout.Takes (p : Program) (layout : ClassLayout) (size : Nat) (d : Decl)
    (start : ExprId)
    (v : Value) : Prop where
  literal : ∃ i, p.literal? start = some (i, v)
  fits : ∀ k i, layout.field? d.name = some (k, i) → k < size ∧ p.literal? start = some (i, v)

/-! ## Code -/

theorem forM_map {m : Type → Type} [Monad m] {α β : Type} (f : α → β) (as : List α)
    (k : β → m PUnit) :
    (as.map f).forM k = as.forM fun a => k (f a) := by
  induction as with
  | nil => rfl
  | cons a as ih => exact congrArg (k (f a) >>= ·) (funext fun _ => ih)

namespace Emit

variable {s : Setup} {x : Stage} {α : Type}

theorem Achieves.does {m : Emit α} {Q : α → Stage → Prop} (h : Achieves s x m Q) :
    Does s x m Q := by
  obtain ⟨a, x', ran, goes, here⟩ := h
  intro a' f w ran'
  cases ran.symm.trans ran'
  exact ⟨x', rfl, rfl, goes, here⟩

/-- A failure stays one when it gets a place. -/
theorem Does.locate {span : Span} {m : Emit α} {Q : α → Stage → Prop} (h : Does s x m Q) :
    Does s x (Emit.locate span m) Q :=
  fun _ _ _ ran => h _ _ _ (of_locate_ok ran)

/-- A part that finds something and changes nothing, and the rest. -/
theorem Does.find_bind {β : Type} {c : Compile β} {k : β → Emit α} {b : β} {Q : α → Stage → Prop}
    (known : c s x.work = .ok b x.work) (h : Does s x (k b) Q) : Does s x (liftM c >>= k) Q := by
  refine .lift_bind (Q := fun b' w => b' = b ∧ w = x.work) ?_ ?_
  · unfold Compile.Ends
    rw [known]
    exact ⟨.refl _, rfl, rfl⟩
  · rintro _ _ _ ⟨rfl, rfl⟩
    exact h

theorem Does.asks_bind {β : Type} {question : Program → Except ProgramError α} {k : α → Emit β}
    {Q : β → Stage → Prop} (h : ∀ a, question s.program = .ok a → Does s x (k a) Q) :
    Does s x (liftM (Compile.asks question) >>= k) Q := by
  refine .bind (Q := fun a x' => question s.program = .ok a ∧ x' = x) (.read ?_) ?_
  · intro a f w ran
    obtain ⟨rfl, rfl, answer⟩ := of_asks_ok ran
    exact ⟨rfl, rfl, answer, rfl⟩
  · rintro a _ _ ⟨answer, rfl⟩
    exact h a answer

theorem Does.never {c : Cause} {Q : α → Stage → Prop} :
    Does s x (liftM (Compile.fail c : Compile α)) Q := by
  intro a f w ran
  cases ran

/-- A literal is the scalar by itself. -/
theorem literal_does (depth : Nat) {e : ExprId} {i : Info} {v : Value}
    (literal : s.program.literal? e = some (i, v)) :
    Does s x ((Lowering.ofDepth depth).expr e) fun op x' => x'.work = x.work ∧
      x'.memory = x.memory ∧ ∃ a, op = .raw a i ∧ x'.Knows a v := by
  cases depth with
  | zero => exact .never
  | succ depth =>
    change Does s x (locate (s.program.expr e).span
      (exprKind (.ofDepth depth) (s.program.expr e).kind)) _
    refine .locate ?_
    unfold Program.literal? at literal
    split at literal <;> rename_i isKind <;> cases literal <;> rw [isKind]
    · exact .write_bind (.const _ _) fun a p _ known => .pure ⟨rfl, known.2.1, a, rfl, known.1⟩
    · refine .find_bind (c := Compile.text _) rfl ?_
      exact .write_bind (.const _ _) fun a p _ known => .pure ⟨rfl, known.2.1, a, rfl, known.1⟩
    · exact .write_bind (.const _ _) fun a p _ known => .pure ⟨rfl, known.2.1, a, rfl, known.1⟩

/-- A literal in the form of its type is in a new box. -/
theorem literal_boxed (depth : Nat) {e : ExprId} {i : Info} {v : Value} (moment : Moment s x.work)
    (literal : s.program.literal? e = some (i, v)) :
    Does s x (do (Lowering.ofDepth depth).coerced (← (Lowering.ofDepth depth).expr e) i) fun a x' =>
      x'.work = x.work ∧ x'.Knows a (address x.memory.heap.size) ∧ x'.memory = x.memory.push v := by
  refine .bind (literal_does depth literal) ?_
  rintro _ x₁ goes ⟨work, memory, a, rfl, known⟩
  cases depth with
  | zero =>
    intro a f w ran
    cases ran
  | succ depth =>
    have same : (Lowering.ofDepth (depth + 1)).coerced (.raw a i) i = boxed (.raw a i) := by
      have self : (Lowering.ofDepth (depth + 1)).coerce (.raw a i) i = pure (.raw a i) :=
        coerce_self (.ofDepth depth) (.raw a i)
      rw [Lowering.coerced, self, pure_bind]
    rw [same]
    refine (boxed_raw (work ▸ moment) (Program.scalar_of_literal literal) known).does.mono ?_
    rintro b x₂ _ ⟨work₂, isNew, memory₂⟩
    rw [memory] at isNew memory₂
    exact ⟨work₂.trans work, isNew, memory₂⟩

section

variable {layout : ClassLayout} {this : ValueId} {o : Nat} {items : List Value} {start : ExprId}
  {v : Value} {d : Decl} {members : List (DeclId × Decl)}

/-- One property gets its start value. -/
theorem initializeProperty_does (depth : Nat) (owner : DeclId) (moment : Moment s x.work)
    (isThis : x.Knows this (address o)) (object : x.memory.heap[o]? = some (.agg items))
    (takes : layout.Takes s.program items.length d start v) :
    Does s x (initializeProperty (.ofDepth depth) owner layout this d start) fun _ x' =>
      x'.work = x.work ∧ ∃ items',
        Initialized layout o [(d.name, v)] x.memory items x'.memory items' := by
  unfold initializeProperty
  split
  · intro a f w ran
    cases ran
  · rename_i k i field
    obtain ⟨inside, literal⟩ := takes.fits k i field
    rw [← bind_assoc]
    refine .bind (literal_boxed depth moment literal) ?_
    rintro value x₁ goes₁ ⟨work₁, isBox, memory₁⟩
    have object₁ : x₁.memory.heap[o]? = some (.agg items) := memory₁ ▸ Memory.heap_push_lt v object
    refine (storeField_does layout.record (goes₁.knows isThis).value object₁ inside).mono ?_
    rintro _ x₂ _ ⟨work₂, u, memory₂, isValue⟩
    obtain rfl : u = address x.memory.heap.size := (isValue isBox.inside).trans isBox.value
    rw [memory₂, memory₁]
    exact ⟨work₂.trans work₁, _, .single (Program.scalar_of_literal literal).not_aggregate
      object field inside⟩

/-- Stores the start values of the properties among some members. -/
def initializeAll (l : Lowering) (owner : DeclId) (layout : ClassLayout) (this : ValueId)
    (members : List DeclId) : Emit Unit :=
  members.forM fun m => do
    let d ← Compile.asks (·.decl m)
    match startValue? d with
    | some start => initializeProperty l owner layout this d start
    | none => return

theorem initializeAll_walks {l : Lowering} (hl : l.Walks s) (owner : DeclId) (layout : ClassLayout)
    (this : ValueId) (members : List DeclId) :
    Walks s (initializeAll l owner layout this members) := by
  refine .forM (fun m => .bind (.asks _) fun d => ?_) _
  split
  · exact initializeProperty_walks hl _ _ _ _ _
  · exact .pure _

/-- The properties of a class get their start values in order. -/
theorem initializeAll_does (depth : Nat) (owner : DeclId) (moment : Moment s x.work)
    (areMembers : ∀ m d, (m, d) ∈ members → s.program.decl m = .ok d)
    (isThis : x.Knows this (address o)) (object : x.memory.heap[o]? = some (.agg items))
    (takes : ∀ m d e, (m, d) ∈ members → d.start? false = some e →
      ∃ v, layout.Takes s.program items.length d e v) :
    Does s x (initializeAll (.ofDepth depth) owner layout this (members.map (·.1))) fun _ x' =>
      x'.work = x.work ∧ ∃ items', Initialized layout o
      (s.program.startsAmong false members) x.memory
        items x'.memory items' := by
  rw [initializeAll, forM_map]
  refine .forM (fun done x' => x'.work = x.work ∧ ∃ items', Initialized layout o
    (s.program.startsAmong false done) x.memory items x'.memory items') _ ?_ ?_
  · exact ⟨rfl, items, .of_arranges (.refl _ _) object⟩
  · rintro done ⟨m, d⟩ rest parts x₁ goes₁ ⟨work₁, items₁, before⟩
    have listed : (m, d) ∈ members := by simp [parts]
    refine .asks_bind fun d' isDecl => ?_
    cases isDecl.symm.trans (areMembers m d listed)
    rw [startValue?_eq, Program.startsAmong_append]
    cases isStart : d.start? false with
    | none =>
      rw [Program.startsAmong_none isStart, List.append_nil]
      exact .pure ⟨work₁, items₁, before⟩
    | some e =>
      obtain ⟨v, fits⟩ := takes m d e listed isStart
      obtain ⟨i, literal⟩ := fits.literal
      rw [Program.startsAmong_some isStart literal]
      rw [← before.length] at fits
      refine (initializeProperty_does depth owner (work₁ ▸ moment)
        (goes₁.knows isThis) before.object
        fits).mono ?_
      rintro _ x₂ _ ⟨work₂, items₂, next⟩
      exact ⟨work₂.trans work₁, items₂, before.trans next⟩

/-- The start values of a class are stored in the instance that the body is called on. -/
theorem runInitializers_does {depth : Nat} {owner cls : DeclId} {f : Frame} {w : Work}
    (moment : Moment s x.work) (grounded : x.frame.Grounded x.work)
    (areMembers : s.program.members owner = .ok members)
    (isReceiver : x.frame.receiver = some (.boxed this (.instanceOf cls)))
    (isClass : x.frame.receiverClass = some cls) (isThis : x.Knows this (address o))
    (object : x.memory.heap[o]? = some (.agg items))
    (ran : runInitializers (.ofDepth depth) owner x.frame s x.work = .ok ((), f) w)
    (laidOut : ∀ layout', w.layouts.get? cls = some layout' → layout' = layout)
    (takes : ∀ m d e, (m, d) ∈ members → d.start? false = some e →
      ∃ v, layout.Takes s.program items.length d e v) :
    ∃ x' : Stage, x'.frame = f ∧ x'.work = w ∧ x.Goes s x' ∧ ∃ items', Initialized layout o
      (s.program.startsAmong false members) x.memory items x'.memory items' := by
  obtain ⟨c, isOwner, parts, declared⟩ := Program.classDecl_of_members areMembers
  obtain ⟨_, _, _, ran₁, ran⟩ := of_bind_ok ran
  cases ran₁
  obtain ⟨_, _, _, asked, ran⟩ := of_bind_ok ran
  obtain ⟨rfl, rfl, isOwner'⟩ := of_asks_ok asked
  cases isOwner.symm.trans isOwner'
  rw [parts] at ran
  dsimp only at ran
  split at ran
  · obtain ⟨_, _, _, ran₁, ran⟩ := of_bind_ok ran
    obtain ⟨rfl, rfl, known⟩ := of_receiver_ok ran₁
    cases isReceiver.symm.trans known
    rw [boxed_of_boxed rfl, pure_bind] at ran
    obtain ⟨_, _, _, got, ran⟩ := of_bind_ok ran
    cases got
    rw [isClass] at ran
    obtain ⟨layout', _, w₁, lifted, ran⟩ := of_bind_ok ran
    obtain ⟨rfl, found⟩ := of_lift_ok lifted
    obtain ⟨there₁, known, _⟩ := (Compile.layoutOf_ends moment cls).of_ok found
    have moment₁ := moment.later there₁.later
    change initializeAll (.ofDepth depth) owner layout' this (members.map (·.1))
      x.frame s w₁ = _ at ran
    obtain ⟨there₂, _⟩ := ((initializeAll_walks (Lowering.ofDepth_walks depth) owner layout' this
      (members.map (·.1))).ends moment₁ (grounded.later there₁.later)).of_ok ran
    obtain rfl := laidOut layout' (there₂.layouts _ _ known)
    obtain ⟨x', isFrame, isWork, goes, -, made⟩ := initializeAll_does (x := x.later w₁) depth owner
      moment₁ declared isThis object takes _ _ _ ran
    have step : x.Goes s (x.later w₁) := ⟨there₁, rfl, .refl _⟩
    exact ⟨x', isFrame, isWork, step.trans goes, made⟩
  · rename_i none
    cases ran
    refine ⟨x, rfl, rfl, .refl x, items, ?_⟩
    have nothing : s.program.startsAmong false members = [] := by
      refine List.filterMap_eq_nil_iff.mpr fun ⟨m, d⟩ listed => ?_
      simp only [List.any_eq_true, not_exists, not_and] at none
      have isNone := none m (List.mem_map.mpr ⟨_, listed, rfl⟩)
      rw [declared m d listed] at isNone
      change ¬ (startValue? d).isSome = true at isNone
      rw [startValue?_eq, Option.not_isSome_iff_eq_none] at isNone
      simp only [isNone, Option.bind_none]
    rw [nothing]
    exact .of_arranges (.refl _ _) object

end

end Emit

end ShapeCompiler
