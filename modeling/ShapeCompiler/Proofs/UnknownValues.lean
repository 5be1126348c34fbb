import ShapeCompiler.Proofs.Branches
import ShapeCompiler.Proofs.Extents

/-!
# Unions and values of which nothing is known

* `UnionShape.Missing`, `UnionShape.InSlot`: what the value of a union is when it runs;
* `UnionShape.Offers`: the member that a union shows to those who know nothing of it;
* `Emit.unionFromAny_attains`: a pointer becomes a union that holds it in every slot, null becomes
  one that is missing;
* `Emit.unionToAny_attains`: what a union offers comes out;
* `unknown_roundTrip`: both ways there and back lose nothing.
-/

namespace ShapeCompiler

open Source Code Work Machine

/-! ## Values of unions -/

namespace UnionShape

variable {u : UnionShape} {mem mem' : Memory} {v q : Value} {i : Nat}

/-- The record of an optional union, with its marker and its value. -/
def Marked (mem : Memory) (v : Value) (present : Bool) (val : Value) : Prop :=
  ∃ k items, v = address k ∧ mem.heap[k]? = some (.agg items) ∧ items[0]? = some (.bool present) ∧
    items[1]? = some val

/-- The union is a null pointer, or its record is marked as absent. -/
def Missing (u : UnionShape) (mem : Memory) (v : Value) : Prop :=
  v = .null ∨ u.optional = true ∧ ∃ val, Marked mem v false val

/-- What null is as a union: a record that is marked as absent, or null. -/
def Nothing (u : UnionShape) (mem : Memory) (v : Value) : Prop :=
  if u.optional then Marked mem v false .null else v = .null

/-- The union is a record that holds a value in a slot, and is not marked as absent. -/
def InSlot (u : UnionShape) (mem : Memory) (v : Value) (i : Nat) (q : Value) : Prop :=
  ∃ k items, v = address k ∧ mem.heap[k]? = some (.agg items) ∧
    (u.optional = true → items[0]? = some (.bool true)) ∧ items[u.fieldOfSlot i]? = some q

/-- The union is a record that holds a value in this one slot; the others are empty. -/
def OnlyInSlot (u : UnionShape) (mem : Memory) (v : Value) (i : Nat) (q : Value) : Prop :=
  ∃ k items, v = address k ∧ mem.heap[k]? = some (.agg items) ∧
    (u.optional = true → items[0]? = some (.bool true)) ∧
    ∀ j < u.slots.length, items[u.fieldOfSlot j]? = some (if j = i then q else .null)

/-- What is read from a union by those who know nothing of it: the value if there is one, else the
first slot that is filled. -/
inductive Offers (u : UnionShape) (mem : Memory) : Value → Value → Prop
  | missing {v : Value} (missing : u.Missing mem v) : Offers u mem v .null
  | present {v q : Value} (optional : u.optional = true) (marked : Marked mem v true q) :
    Offers u mem v q
  | first {k i : Nat} {items : List Value} {q : Value} (general : u.optional = false)
    (cell : mem.heap[k]? = some (.agg items)) (inside : i < u.slots.length)
    (before : ∀ j < i, items[j]? = some .null) (item : items[i]? = some q) (isSome : q ≠ .null)
    (isAddress : q.address?.isSome) : Offers u mem (address k) q

theorem fieldOfSlot_general (general : u.optional = false) (i : Nat) : u.fieldOfSlot i = i := by
  simp [fieldOfSlot, general]

theorem fieldOfSlot_optional (optional : u.optional = true) : u.fieldOfSlot 0 = 1 := by
  simp [fieldOfSlot, optional]

theorem Marked.isAddress {present : Bool} (h : Marked mem v present q) : v.address?.isSome := by
  obtain ⟨k, _, rfl, _⟩ := h
  rfl

theorem Marked.keeps {present : Bool} (h : Marked mem v present q) (keeps : mem.Keeps [] mem') :
    Marked mem' v present q := by
  obtain ⟨k, items, rfl, cell, marked⟩ := h
  exact ⟨k, items, rfl, keeps.heap k _ (by simp) cell, marked⟩

theorem Nothing.missing (h : u.Nothing mem v) : u.Missing mem v := by
  unfold Nothing at h
  split at h
  · exact .inr ⟨‹_›, _, h⟩
  · exact .inl h

theorem InSlot.marked (h : u.InSlot mem v 0 q) (optional : u.optional = true) :
    Marked mem v true q := by
  obtain ⟨k, items, rfl, cell, present, item⟩ := h
  rw [fieldOfSlot_optional optional] at item
  exact ⟨k, items, rfl, cell, present optional, item⟩

theorem Missing.not_inSlot (h : u.Missing mem v) : ¬ u.InSlot mem v i q := by
  rintro ⟨k, items, rfl, cell, present, _⟩
  rcases h with never | ⟨optional, _, k', items', same, cell', absent, _⟩
  · cases never
  · cases same
    cases cell.symm.trans cell'
    cases absent.symm.trans (present optional)

/-- What else is done in memory does not change what a union offers. -/
theorem Offers.keeps (h : u.Offers mem v q) (keeps : mem.Keeps [] mem') : u.Offers mem' v q := by
  cases h with
  | missing missing =>
    refine .missing (missing.imp_right ?_)
    rintro ⟨optional, val, marked⟩
    exact ⟨optional, val, marked.keeps keeps⟩
  | present optional marked => exact .present optional (marked.keeps keeps)
  | first general cell inside before item isSome isAddress =>
    exact .first general (keeps.heap _ _ (by simp) cell) inside before item isSome isAddress

theorem Offers.isAddress (h : u.Offers mem v q) : v.address?.isSome := by
  cases h with
  | missing missing =>
    rcases missing with rfl | ⟨_, _, marked⟩
    · rfl
    · exact marked.isAddress
  | present _ marked => exact marked.isAddress
  | first => rfl

/-- A value in the first slot is offered. -/
theorem InSlot.offers (h : u.InSlot mem v 0 q) (some : u.slots ≠ []) (isSome : q ≠ .null)
    (isAddress : q.address?.isSome) : u.Offers mem v q := by
  cases optional : u.optional with
  | true => exact .present optional (h.marked optional)
  | false =>
    obtain ⟨k, items, rfl, cell, _, item⟩ := h
    rw [fieldOfSlot_general optional] at item
    exact .first optional cell (List.length_pos_iff.mpr some) (by simp) item isSome isAddress

/-- A value that is alone is offered. -/
theorem OnlyInSlot.offers (h : u.OnlyInSlot mem v i q) (inside : i < u.slots.length)
    (one : u.optional = true → u.slots.length = 1) (isSome : q ≠ .null)
    (isAddress : q.address?.isSome) :
    u.Offers mem v q := by
  obtain ⟨k, items, rfl, cell, present, alone⟩ := h
  cases optional : u.optional with
  | true =>
    obtain rfl : i = 0 := by
      have := one optional
      omega
    have item := alone 0 inside
    rw [fieldOfSlot_optional optional, if_pos rfl] at item
    exact .present optional ⟨k, items, rfl, cell, present optional, item⟩
  | false =>
    have items (j : Nat) (lt : j < u.slots.length) :
        items[j]? = some (if j = i then q else .null) := by
      simpa [fieldOfSlot_general optional] using alone j lt
    refine .first optional cell inside (fun j before => ?_) (by simpa using items i inside)
      isSome isAddress
    simpa [Nat.ne_of_lt before] using items j (before.trans inside)

end UnionShape

/-! ## Single instructions -/

namespace Emit

variable {s : Setup} {x : Stage}

theorem Achieves.define {ty : TyId} {name : String} {inst : ValueId → Inst}
    {Q : ValueId → Point → Prop}
    (does : Writing.Does x.Admits x.point (Draft.defineBy ty name inst) Q) :
    Achieves s x (liftM (Draft.defineBy ty name inst)) fun a x' =>
      Q a x'.point ∧ x'.work = x.work ∧ x'.Filled := by
  refine (Does.write does.filled ?_).achieves (.write _)
  rintro a p _ ⟨here, filled⟩
  exact ⟨here, rfl, filled⟩

theorem alloc_achieves {ty : TyId} {zero : Value} (name : String)
    (isZero : ∀ types, x.Admits types → zeroValue types ty = zero) :
    Achieves s x (liftM (Draft.alloc ty name)) fun a x' => x'.Knows a (address x.memory.heap.size) ∧
      x'.memory = x.memory.push zero ∧ x'.work = x.work ∧ x'.Filled := by
  refine (Achieves.define (.alloc name isZero)).mono ?_
  rintro a x' _ ⟨⟨known, memory, _⟩, work, filled⟩
  exact ⟨known, memory, work, filled⟩

theorem null_achieves : Achieves s x (liftM Draft.null) fun a x' =>
    x'.Knows a .null ∧ x'.memory = x.memory ∧ x'.work = x.work := by
  refine (Achieves.define (.const .null _)).mono ?_
  rintro a x' _ ⟨⟨known, memory, _⟩, work, _⟩
  exact ⟨known, memory, work⟩

theorem compare_achieves {lhs rhs : ValueId} {v v' : Value} {pred : Predicate} {answer : Bool}
    (name : String) (isLhs : x.Knows lhs v) (isRhs : x.Knows rhs v')
    (compared : compareValues pred v v' = .ok answer) :
    Achieves s x (liftM (Draft.compare pred lhs rhs name)) fun a x' =>
      x'.Knows a (.bool answer) ∧ x'.memory = x.memory ∧ x'.work = x.work ∧ x'.Filled := by
  have compared : compareValues pred (x.point.values lhs) (x.point.values rhs) = .ok answer := by
    rw [isLhs.value, isRhs.value, compared]
  refine (Achieves.define (.compare name compared)).mono ?_
  rintro a x' _ ⟨⟨known, memory, _⟩, work, filled⟩
  exact ⟨known, memory, work, filled⟩

theorem load_achieves {ptr : ValueId} {q v : Value} (ty : TyId) (name : String)
    (isPtr : x.Knows ptr q)
    (loaded : x.memory.load q = .ok v) :
    Achieves s x (liftM (Draft.load ty ptr name)) fun a x' =>
      x'.Knows a v ∧ x'.memory = x.memory ∧ x'.work = x.work ∧ x'.Filled := by
  have loaded : x.point.memory.load (x.point.values ptr) = .ok v := by
    rw [isPtr.value]
    exact loaded
  refine (Achieves.define (.load ty name loaded)).mono ?_
  rintro a x' _ ⟨⟨known, memory, _⟩, work, filled⟩
  exact ⟨known, memory, work, filled⟩

theorem fieldAddr_achieves {ptr : ValueId} {q : Pointer} (ty : TyId) (i : Nat) (name : String)
    (isPtr : x.Knows ptr (.ptr q)) :
    Achieves s x (liftM (Draft.fieldAddr ty ptr i name)) fun a x' =>
      x'.Knows a (.ptr (q.child i)) ∧ x'.memory = x.memory ∧ x'.work = x.work := by
  refine (Achieves.define (.fieldAddr ty i name isPtr.value)).mono ?_
  rintro a x' _ ⟨⟨known, memory, _⟩, work, _⟩
  exact ⟨known, memory, work⟩

theorem store_achieves {value ptr : ValueId} {q v : Value} {mem : Memory} (isPtr : x.Knows ptr q)
    (isValue : x.Knows value v) (stored : x.memory.store q v = .ok mem) :
    Achieves s x (liftM (Draft.store value ptr)) fun _ x' =>
    x'.memory = mem ∧ x'.work = x.work := by
  have stored : x.point.memory.store (x.point.values ptr) (x.point.values value) = .ok mem := by
    rw [isPtr.value, isValue.value]
    exact stored
  refine (Does.write (.store stored) ?_).achieves (.write _)
  rintro _ p _ ⟨_, memory, _⟩
  exact ⟨memory, rfl⟩

/-- An element at a position beyond those that a word can count is the last one that it can. -/
theorem elemAddr_achieves {array : ValueId} {k : Nat} (i : Nat) (name : String)
    (isArray : x.Knows array (address k)) :
    Achieves s x (elemAddr array i name) fun a x' =>
      x'.Knows a (element k (min i 0x7FFFFFFF)) ∧ x'.memory = x.memory ∧ x'.work = x.work := by
  have isIndex := elementIndex_capped i
  refine .bind (Achieves.define (.const (.int .i32 (Int64.ofNat (min i 0x7FFFFFFF))) _)) ?_
  rintro index x₁ goes₁ ⟨⟨isWord, memory₁, _⟩, work₁, _⟩
  have isArray₁ := goes₁.knows isArray
  refine (Achieves.define (.elemAddr .ptr name isArray₁.value isWord.value isIndex)).mono ?_
  rintro a x₂ _ ⟨⟨known, memory₂, _⟩, work₂, _⟩
  exact ⟨known, memory₂.trans memory₁, work₂.trans work₁⟩

/-! ## Into a union -/

section Into

variable {u : UnionShape} {shape : ShapeId} {p out : ValueId} {q : Value} {o : Nat}

/-- The union that is null, if it has a marker. -/
def absentFirst (u : UnionShape) (out : ValueId) : Emit PUnit :=
  if u.optional then do
    let absent ← Draft.alloc u.record "union.absent"
    Draft.store absent out
  else pure ⟨⟩

/-- The pointer in every slot of a new union. -/
def inEverySlot (u : UnionShape) (p : ValueId) : Emit ValueId :=
  if u.optional then presentUnion u.record p
  else do
    let r ← Draft.alloc u.record "union"
    (List.range u.slots.length).forM fun slot => do
      Draft.store p (← elemAddr r (u.fieldOfSlot slot) "union.slot")
    return r

/-- The union is made, unless the pointer is null. -/
def unlessNull (u : UnionShape) (p out isNull : ValueId) (fill done : BlockId) : Emit PUnit := do
  Draft.condBr isNull done fill
  Draft.moveTo fill
  let r ← inEverySlot u p
  Draft.store r out
  Draft.br done

theorem unionFromAny_eq (whole : u.hasPropertySlots = false) :
    unionFromAny (.boxed p .any) u shape = (do
      let out ← Draft.alloc .ptr "union.any"
      let null ← Draft.null
      let isNull ← Draft.compare .eq p null "any.null"
      let fill ← Draft.block "union.fill"
      let done ← Draft.block "union.done"
      absentFirst u out
      let r ← (do
        unlessNull u p out isNull fill done
        Draft.moveTo done
        Draft.load .ptr out "union")
      return .boxed r (.union shape) : Emit Operand) := by
  have isPtr : boxed (.boxed p .any) = pure p := boxed_of_boxed rfl
  cases optional : u.optional <;>
    simp [unionFromAny, isPtr, whole, optional, absentFirst, inEverySlot, unlessNull, bind_assoc]

theorem absentFirst_achieves {members : List Info} (moment : Moment s x.work) {p : Program}
    (has : x.HasUnion p shape u members)
    (isOut : x.Knows out (address o)) (room : x.memory.heap[o]? = some .null) :
    Achieves s x (absentFirst u out) fun _ x' => x'.work = x.work ∧ x.memory.Keeps [o] x'.memory ∧
      ∃ v, x'.memory.heap[o]? = some v ∧ v ≠ .undef ∧ u.Nothing x'.memory v := by
  unfold absentFirst UnionShape.Nothing
  cases optional : u.optional with
  | true =>
    rw [if_pos rfl]
    refine .bind (alloc_achieves "union.absent" (has.zero_optional moment optional)) ?_
    rintro absent x₁ goes₁ ⟨isAbsent, memory₁, work₁, _⟩
    have room₁ : x₁.memory.heap[o]? = some .null := by
      rw [memory₁]
      exact Memory.heap_push_lt _ room
    have cell₁ : x₁.memory.heap[x.memory.heap.size]? = some (.agg [.bool false, .null]) := by
      rw [memory₁]
      exact Memory.heap_push _ _
    have inside := Memory.lt_of_heap room₁
    refine (store_achieves (goes₁.knows isOut) isAbsent (Memory.store_cell inside _)).mono ?_
    rintro _ x₂ _ ⟨memory₂, work₂⟩
    rw [memory₂]
    refine ⟨work₂.trans work₁, ?_, _, Memory.heap_put inside _, by simp, ?_⟩
    · refine Memory.Keeps.trans ?_ (Memory.keeps_put _ _ _)
      rw [memory₁]
      exact (Memory.keeps_push _ _).weaken (by simp)
    · have apart : x.memory.heap.size ≠ o := (Nat.ne_of_lt (Memory.lt_of_heap room)).symm
      rw [if_pos rfl]
      exact ⟨_, _, rfl, (Memory.heap_put_ne _ apart).trans cell₁, rfl, rfl⟩
  | false =>
    rw [if_neg (by simp)]
    exact .pure ⟨rfl, .refl _ _, .null, room, by simp, by simp⟩

/-- A new record whose slots hold a value, as far as a word can count them. -/
def Everywhere (x : Stage) (u : UnionShape) (q : Value) (r : ValueId) (x' : Stage) : Prop :=
  x'.work = x.work ∧ x.memory.Keeps [] x'.memory ∧
    ∃ k, x.memory.heap.size ≤ k ∧ x'.Knows r (address k) ∧
      ∀ i < u.slots.length, i < 0x80000000 → u.InSlot x'.memory (address k) i q

theorem inEverySlot_achieves {members : List Info} (moment : Moment s x.work) {pr : Program}
    (has : x.HasUnion pr shape u members)
    (isPtr : x.Knows p q) : Achieves s x (inEverySlot u p) (Everywhere x u q) := by
  unfold inEverySlot
  cases optional : u.optional with
  | true =>
    have one := has.one_slot optional
    have isZero := has.zero_optional moment optional
    rw [if_pos rfl]
    refine ((presentUnion_makes isZero isPtr).achieves (.presentUnion _ _)).mono ?_
    rintro r x' _ ⟨work, keeps, k, new, isRecord, cell⟩
    refine ⟨work, keeps, k, new, isRecord, fun i inside _ => ⟨k, _, rfl, cell, fun _ => rfl, ?_⟩⟩
    obtain rfl : i = 0 := by omega
    rw [UnionShape.fieldOfSlot_optional optional]
    rfl
  | false =>
    rw [if_neg (by simp)]
    refine .bind (alloc_achieves "union" (has.zero_general moment optional)) ?_
    rintro r x₁ goes₁ ⟨isRecord, memory₁, work₁, _⟩
    -- the slots dealt with hold the pointer
    refine .bind (.forM (fun done x' => x'.work = x.work ∧
      x.memory.Keeps [x.memory.heap.size] x'.memory ∧
      ∃ items, x'.memory.heap[x.memory.heap.size]? = some (.agg items) ∧ items.length =
        u.slots.length ∧
        ∀ i ∈ done, items[min i 0x7FFFFFFF]? = some q) (List.range u.slots.length)
      ⟨work₁, ?_, List.replicate u.slots.length .null, ?_, List.length_replicate, by simp⟩ ?_) ?_
    · rw [memory₁]
      exact (Memory.keeps_push _ _).weaken (by simp)
    · rw [memory₁]
      exact Memory.heap_push _ _
    · rintro done i rest isRange x' goes' ⟨work, keeps, items, cell, length, before⟩
      have inside : i < u.slots.length := List.mem_range.mp (by simp [isRange])
      rw [UnionShape.fieldOfSlot_general optional]
      refine .bind (elemAddr_achieves i "union.slot" (goes'.knows isRecord)) ?_
      rintro a x₂ goes₂ ⟨isElement, memory₂, work₂⟩
      have isPtr₂ := goes₂.knows (goes'.knows (goes₁.knows isPtr))
      have stored := Memory.store_heap (memory₂ ▸ cell) (i := min i 0x7FFFFFFF) (by omega) q
      refine (store_achieves isElement isPtr₂ stored).mono ?_
      rintro _ x₃ _ ⟨memory₃, work₃⟩
      rw [memory₃, memory₂]
      refine ⟨work₃.trans (work₂.trans work), keeps.trans (Memory.keeps_put _ _ _), _,
        Memory.heap_put (Memory.lt_of_heap cell) _, by simpa using length, fun j listed => ?_⟩
      rw [List.getElem?_set]
      split
      · rw [if_pos (by omega)]
      · rename_i apart
        rcases List.mem_append.mp listed with earlier | now
        · exact before j earlier
        · exact absurd (by rw [List.mem_singleton.mp now]) apart
    · rintro _ x' goes' ⟨work, keeps, items, cell, length, all⟩
      refine .pure ⟨work, keeps.of_new (by simp), _, Nat.le_refl _, goes'.knows isRecord,
        fun i inside small => ?_⟩
      refine ⟨_, items, rfl, cell, by simp [optional], ?_⟩
      have item := all i (List.mem_range.mpr inside)
      rwa [show min i 0x7FFFFFFF = i by omega, ← UnionShape.fieldOfSlot_general optional i] at item

theorem Spares.elemAddr (blocks : List BlockId) (array : ValueId) (i : Nat) (name : String) :
    Spares blocks (elemAddr array i name) := .bind (.defineBy _ _ _) fun _ _ => .defineBy _ _ _

theorem Spares.inEverySlot (blocks : List BlockId) (u : UnionShape) (p : ValueId) :
    Spares blocks (inEverySlot u p) := by
  unfold Emit.inEverySlot
  split
  · exact .bind (.defineBy _ _ _) fun _ _ => .bind (.defineBy _ _ _) fun _ _ =>
      .bind (.defineBy _ _ _) fun _ _ => .bind (.store _ _) fun _ _ =>
        .bind (.storeField _ _ _ _) fun _ _ => .pure trivial
  · exact .bind (.defineBy _ _ _) fun _ _ =>
      .bind (.forM (fun _ => .bind (.elemAddr _ _ _ _) fun _ _ => .store _ _) _)
        fun _ _ => .pure trivial

theorem compare_null (isAddress : q.address?.isSome) :
    compareValues .eq q .null = .ok q.isNull := by
  cases q <;> first | rfl | cases isAddress

/-- What a pointer becomes as a union: null is missing, and anything else is in the slots, as far as
a word can count them. -/
structure Stands (u : UnionShape) (q : Value) (mem : Memory) (v : Value) : Prop where
  missing : q = .null → u.Nothing mem v
  held : q ≠ .null → ∀ i < u.slots.length, i < 0x80000000 → u.InSlot mem v i q

/-- Nothing but a cell has changed, and there the pointer is as a union. -/
def StandsIn (x : Stage) (u : UnionShape) (q : Value) (o : Nat) (w : Work) (mem : Memory) : Prop :=
  w = x.work ∧ x.memory.Keeps [o] mem ∧ ∃ v, mem.heap[o]? = some v ∧ v ≠ .undef ∧ Stands u q mem v

theorem unlessNull_heads {members : List Info} {test : ValueId} {fill done : BlockId}
    (moment : Moment s x.work) {pr : Program} (has : x.HasUnion pr shape u members)
    (isPtr : x.Knows p q)
    (isTest : x.Knows test (.bool q.isNull)) (isOut : x.Knows out (address o)) (filled : x.Filled)
    (fills : x.Waits fill) (ends : x.Waits done) (apart : fill ≠ done)
    (room : ∃ v, x.memory.heap[o]? = some v ∧ v ≠ .undef ∧ u.Nothing x.memory v) :
    Heads s x done (unlessNull u p out test fill done) (StandsIn x u q o) := by
  obtain ⟨v, cell, written, nothing⟩ := room
  cases null : q.isNull with
  | true =>
    have isNull : q = .null := by
      cases q <;> first | rfl | cases null
    have taken : (Exit.condBr test done fill).LeadsTo x.values done := .taken (null ▸ isTest.value)
    refine .exit taken ends ?_ ⟨rfl, .refl _ _, v, cell, written, fun _ => nothing, absurd isNull⟩
    exact .bind (.moveTo (by simpa using apart)) fun _ _ => .bind (.inEverySlot _ _ _) fun _ _ =>
      .bind (.store _ _) fun _ _ => .close _
  | false =>
    have isSome : q ≠ .null := by
      rintro rfl
      cases null
    have passed : (Exit.condBr test done fill).LeadsTo x.values fill :=
      .passed (null ▸ isTest.value)
    refine .enter passed filled fills ends apart.symm ?_
    rintro x₁ ⟨work₁, memory₁, knows, ends₁⟩
    have moment₁ : Moment s x₁.work := work₁ ▸ moment
    have has₁ : x₁.HasUnion pr shape u members := ⟨work₁ ▸ has.known, has.asked⟩
    refine .goes (inEverySlot_achieves moment₁ has₁ (knows _ _ isPtr)) ?_
    rintro r x₂ goes₂ ⟨work₂, keeps₂, k, new, isRecord, slots⟩
    rw [memory₁] at keeps₂ new
    have isOut₂ := goes₂.knows (knows _ _ isOut)
    have inside := Memory.lt_of_heap (keeps₂.heap o v (by simp) cell)
    refine .goes (store_achieves isOut₂ isRecord (Memory.store_cell inside _)) ?_
    rintro _ x₃ goes₃ ⟨memory₃, work₃⟩
    refine .leave (.br done) (goes₃.waits (goes₂.waits ends₁)) ?_
    rw [memory₃]
    refine ⟨work₃.trans (work₂.trans work₁), ?_, address k, Memory.heap_put inside _, by simp,
      fun isNull => absurd isNull isSome, fun _ i lt small => ?_⟩
    · exact (keeps₂.weaken (by simp)).trans (Memory.keeps_put _ _ _)
    · obtain ⟨_, items, same, record, present, item⟩ := slots i lt small
      cases same
      -- the record is another cell than the one that was written to
      have apart : k ≠ o := (Nat.ne_of_lt (Nat.lt_of_lt_of_le (Memory.lt_of_heap cell) new)).symm
      exact ⟨k, items, rfl, (Memory.heap_put_ne _ apart).trans record, present, item⟩

/-- Two values at least are written for every slot that a pointer goes to. -/
theorem unionFromAny_adds (whole : u.hasPropertySlots = false) (general : u.optional = false) :
    Adds (u.slots.length * 2) (unionFromAny (.boxed p .any) u shape) := by
  have each (r : ValueId) (slot : Nat) : Adds 2 (do
      Draft.store p (← Emit.elemAddr r (u.fieldOfSlot slot) "union.slot")) :=
    .bind (n := 2) (k := 0) (.bind (n := 1) (k := 1) (.defineBy _ _ _) fun _ => .defineBy _ _ _)
        fun _ =>
      .of_grows (.write (.emit _))
  have slots : Adds (u.slots.length * 2) (Emit.inEverySlot u p) := by
    unfold Emit.inEverySlot
    rw [if_neg (by simp [general])]
    have all (r : ValueId) := Adds.forM (each r) (List.range u.slots.length)
    simp only [List.length_range] at all
    exact (Adds.bind (.of_grows (.write (.defineBy _ _ _))) fun r =>
      Adds.bind (all r) fun _ => .of_grows (.pure r)).mono (by omega)
  have chosen (out test : ValueId) (fill done : BlockId) :
      Adds (u.slots.length * 2) (unlessNull u p out test fill done) :=
    (Adds.bind (n := 0) (.of_grows (.write (.close _))) fun _ =>
      Adds.bind (n := 0) (.of_grows (.write (.moveTo _))) fun _ => Adds.bind slots fun r =>
        Adds.bind (n := 0) (k := 0) (.of_grows (.write (.emit _))) fun _ =>
          .of_grows (.write (.close _))).mono (by omega)
  have absent (out : ValueId) : Grows (absentFirst u out) := by
    unfold absentFirst
    rw [if_neg (by simp [general])]
    exact .pure _
  rw [unionFromAny_eq whole]
  refine (Adds.bind (n := 0) (.of_grows (.write (.defineBy _ _ _))) fun out =>
    Adds.bind (n := 0) (.of_grows (.write (.defineBy _ _ _))) fun null =>
    Adds.bind (n := 0) (.of_grows (.write (.defineBy _ _ _))) fun test =>
    Adds.bind (n := 0) (.of_grows (.write (.block _))) fun fill =>
    Adds.bind (n := 0) (.of_grows (.write (.block _))) fun done =>
    Adds.bind (n := 0) (.of_grows (absent out)) fun _ =>
    Adds.bind (k := 0) (Adds.bind (k := 0) (chosen out test fill done) fun _ =>
      .of_grows (.bind (.write (.moveTo _)) fun _ => .write (.defineBy _ _ _))) fun r =>
    .of_grows (.pure _)).mono (by omega)

/-- A pointer of which nothing is known becomes a union: null is missing, and anything else is in
every slot. -/
theorem unionFromAny_attains {members : List Info} (moment : Moment s x.work) {pr : Program}
    (has : x.HasUnion pr shape u members)
    (whole : u.hasPropertySlots = false) (isPtr : x.Knows p q) (isAddress : q.address?.isSome) :
    Attains s x (unionFromAny (.boxed p .any) u shape) fun a x' =>
      ∃ r v, a = .boxed r (.union shape) ∧ x'.Knows r v ∧ Stands u q x'.memory v ∧
      x'.work = x.work ∧
        x.memory.Keeps [] x'.memory := by
  rw [unionFromAny_eq whole]
  refine .goes (alloc_achieves "union.any" fun types admitted =>
    zeroValue_ptr (moment.get_ptr admitted)) ?_
  rintro out x₁ goes₁ ⟨isOut, memory₁, work₁, filled₁⟩
  refine .goes null_achieves ?_
  rintro null x₂ goes₂ ⟨isNull, memory₂, work₂⟩
  refine .goes (compare_achieves "any.null" (goes₂.knows (goes₁.knows isPtr)) isNull
    (compare_null isAddress)) ?_
  rintro test x₃ goes₃ ⟨isTest, memory₃, work₃, filled₃⟩
  refine .block "union.fill" fun fill x₄ opens₄ => ?_
  refine .block "union.done" fun done x₅ opens₅ => ?_
  obtain ⟨apart, fills₅⟩ := opens₅.others fill opens₄.waits
  have work₅ : x₅.work = x.work := by
    rw [opens₅.work, opens₄.work, work₃, work₂, work₁]
  have memory₅ : x₅.memory = x.memory.push .null := by
    rw [opens₅.memory, opens₄.memory, memory₃, memory₂, memory₁]
  have before : x.Leads s x₅ :=
    (((goes₁.trans goes₂).trans goes₃).leads.trans opens₄.leads).trans opens₅.leads
  have since : x₁.Leads s x₅ := ((goes₂.trans goes₃).leads.trans opens₄.leads).trans opens₅.leads
  have isTest₅ := opens₅.leads.knows (opens₄.leads.knows isTest)
  have moment₅ : Moment s x₅.work := work₅ ▸ moment
  have has₅ : x₅.HasUnion pr shape u members := ⟨work₅ ▸ has.known, has.asked⟩
  have room₅ : x₅.memory.heap[x.memory.heap.size]? = some .null := by
    rw [memory₅]
    exact Memory.heap_push _ _
  refine .goes (absentFirst_achieves moment₅ has₅ (since.knows isOut) room₅) ?_
  rintro _ x₆ goes₆ ⟨work₆, keeps₆, room₆⟩
  have work₆ := work₆.trans work₅
  have moment₆ : Moment s x₆.work := work₆ ▸ moment
  have has₆ : x₆.HasUnion pr shape u members := ⟨work₆ ▸ has.known, has.asked⟩
  have isOut₆ := goes₆.knows (since.knows isOut)
  have filled₆ := goes₆.filled (opens₅.filled (opens₄.filled filled₃))
  have kept₆ : x.memory.Keeps [x.memory.heap.size] x₆.memory := by
    refine Memory.Keeps.trans ?_ keeps₆
    rw [memory₅]
    exact (Memory.keeps_push _ _).weaken (by simp)
  refine .bind (Heads.join (R := fun v w mem => w = x.work ∧ x.memory.Keeps [] mem ∧
    Stands u q mem v)
    (unlessNull_heads moment₆ has₆ (goes₆.knows (before.knows isPtr)) (goes₆.knows isTest₅)
      isOut₆ filled₆ (goes₆.waits fills₅) (goes₆.waits opens₅.waits) apart.symm room₆) isOut₆ ?_
        .ptr
    "union") ?_
  · rintro w mem ⟨isWork, keeps, v, cell, written, stands⟩
    exact ⟨v, Memory.load_cell cell written, isWork.trans work₆,
      (kept₆.trans keeps).of_new (by simp), stands⟩
  · rintro r x₇ _ ⟨v, isRecord, work₇, keeps, stands⟩
    exact .pure ⟨r, v, rfl, isRecord, stands, work₇, keeps⟩

end Into

/-! ## Out of a union -/

section OutOf

variable {u : UnionShape} {shape : ShapeId} {ptr out null : ValueId} {q v val : Value} {k o i : Nat}
  {items : List Value} {done : BlockId}

/-- The value of an optional union, if there is one. -/
def takePresent (u : UnionShape) (ptr out : ValueId) (done : BlockId) : Emit PUnit := do
  let marker ← Draft.fieldAddr u.record ptr 0 "present.p"
  let present ← Draft.load .i1 marker "present"
  let take ← Draft.block "member.take"
  Draft.condBr present take done
  Draft.moveTo take
  let value ← loadField u.record ptr 1 "value"
  Draft.store value out

/-- The member of a union that is not null. -/
def takeMember (u : UnionShape) (ptr null out : ValueId) (done : BlockId) : Emit PUnit :=
  if u.optional then takePresent u ptr out done else takeFilled u ptr null out done u.slots.zipIdx

/-- The member of a union, unless it is null. -/
def takeUnlessNull (u : UnionShape) (ptr null out test : ValueId) (read done : BlockId) :
    Emit PUnit := do
  Draft.condBr test done read
  Draft.moveTo read
  takeMember u ptr null out done
  Draft.br done

theorem unionToAny_eq {w : Work} {f : Frame} (known : w.registry.union? shape = some u)
    (whole : u.hasPropertySlots = false) :
    unionToAny (.boxed ptr (.union shape)) shape f s w = (do
      let out ← Draft.alloc .ptr "member"
      let null ← Draft.null
      let done ← Draft.block "member.done"
      let read ← Draft.block "member.read"
      let test ← Draft.compare .eq ptr null "union.null"
      let value ← (do
        takeUnlessNull u ptr null out test read done
        Draft.moveTo done
        Draft.load .ptr out "member")
      return .boxed value .any : Emit Operand) f s w := by
  have isPtr : boxed (.boxed ptr (.union shape)) = pure ptr := boxed_of_boxed rfl
  rw [unionToAny, unionShape_bind_apply _ known]
  refine congrFun (congrFun (congrFun ?_ f) s) w
  cases optional : u.optional <;>
    simp [isPtr, whole, optional, takeUnlessNull, takeMember, takePresent, bind_assoc]

theorem Spares.takePresent (u : UnionShape) (ptr out : ValueId) (done : BlockId) :
    Spares [done] (takePresent u ptr out done) :=
  .bind (.defineBy _ _ _) fun _ _ => .bind (.defineBy _ _ _) fun _ _ =>
    .bind (.block _) fun _ apart => .bind (.close _) fun _ _ => .bind (.moveTo apart) fun _ _ =>
      .bind (.loadField _ _ _ _) fun _ _ => .store _ _

theorem Spares.takeFilled (u : UnionShape) (ptr null out : ValueId) (done : BlockId)
    (slots : List (UnionSlot × Nat)) : Spares [done] (takeFilled u ptr null out done slots) := by
  induction slots with
  | nil => exact .pure trivial
  | cons slot rest ih =>
    exact .bind (.loadField _ _ _ _) fun _ _ => .bind (.defineBy _ _ _) fun _ _ =>
      .bind (.block _) fun _ take => .bind (.block _) fun _ next => .bind (.close _) fun _ _ =>
        .bind (.moveTo take) fun _ _ => .bind (.store _ _) fun _ _ => .bind (.close _) fun _ _ =>
          .bind (.moveTo next) fun _ _ => ih

theorem Spares.takeMember (u : UnionShape) (ptr null out : ValueId) (done : BlockId) :
    Spares [done] (takeMember u ptr null out done) := by
  unfold Emit.takeMember
  split
  · exact .takePresent u ptr out done
  · exact .takeFilled u ptr null out done _

theorem compare_filled (isAddress : q.address?.isSome) :
    compareValues .ne q .null = .ok !q.isNull := by
  cases q <;> first | rfl | cases isAddress

/-- A slot was read and compared with null, and there are blocks for both answers. -/
structure SlotRead (x : Stage) (q : Value) (value test : ValueId) (take next done : BlockId)
    (x' : Stage) : Prop where
  work : x'.work = x.work
  memory : x'.memory = x.memory
  knows : ∀ v val, x.Knows v val → x'.Knows v val
  isValue : x'.Knows value q
  isTest : x'.Knows test (.bool !q.isNull)
  filled : x'.Filled
  takes : x'.Waits take
  further : x'.Waits next
  ends : x'.Waits done
  apart : take ≠ done ∧ next ≠ done ∧ next ≠ take

theorem readSlot_heads {slot : UnionSlot} {rest :
    ValueId → ValueId → BlockId → BlockId → Emit PUnit}
    {Q : Work → Memory → Prop} (isPtr : x.Knows ptr (address k)) (isNull : x.Knows null .null)
    (cell : x.memory.heap[k]? = some (.agg items)) (item : items[u.fieldOfSlot i]? = some q)
    (isAddress : q.address?.isSome) (ends : x.Waits done)
    (further : ∀ value test take next x', SlotRead x q value test take next done x' →
      Heads s x' done (rest value test take next) Q) :
    Heads s x done (do
      let value ← loadField u.record ptr (u.fieldOfSlot i) slot.label
      let test ← Draft.compare .ne value null "filled"
      let take ← Draft.block "member.take"
      let next ← Draft.block "member.next"
      rest value test take next) Q := by
  have written : q ≠ .undef := by
    rintro rfl
    cases isAddress
  refine .goes (loadField_achieves u.record slot.label isPtr cell item written) ?_
  rintro value x₁ goes₁ ⟨isValue, memory₁, work₁⟩
  refine .goes (compare_achieves "filled" isValue (goes₁.knows isNull)
    (compare_filled isAddress)) ?_
  rintro test x₂ goes₂ ⟨isTest, memory₂, work₂, filled₂⟩
  refine .block "member.take" fun take x₃ opens₃ => ?_
  refine .block "member.next" fun next x₄ opens₄ => ?_
  have ends₂ : x₂.Waits done := goes₂.waits (goes₁.waits ends)
  obtain ⟨apart₃, ends₃⟩ := opens₃.others done ends₂
  obtain ⟨apart₄, ends₄⟩ := opens₄.others done ends₃
  obtain ⟨apart, takes₄⟩ := opens₄.others take opens₃.waits
  have since : x₂.Leads s x₄ := opens₃.leads.trans opens₄.leads
  exact further value test take next x₄ {
    work := by rw [opens₄.work, opens₃.work, work₂, work₁]
    memory := by rw [opens₄.memory, opens₃.memory, memory₂, memory₁]
    knows := fun v val known => since.knows (goes₂.knows (goes₁.knows known))
    isValue := since.knows (goes₂.knows isValue)
    isTest := since.knows isTest
    filled := opens₄.filled (opens₃.filled filled₂)
    takes := takes₄
    further := opens₄.waits
    ends := ends₄
    apart := ⟨apart₃, apart₄, apart⟩ }

/-- The slots are passed until one is filled. By induction on those before it. -/
theorem takeFilled_heads {before after : List (UnionSlot × Nat)} {slot : UnionSlot}
    (isPtr : x.Knows ptr (address k)) (isNull : x.Knows null .null)
    (isOut : x.Knows out (address o))
    (cell : x.memory.heap[k]? = some (.agg items)) (room : o < x.memory.heap.size)
    (empty : ∀ pair ∈ before, items[u.fieldOfSlot pair.2]? = some .null)
    (item : items[u.fieldOfSlot i]? = some q) (isSome : q.isNull = false)
    (isAddress : q.address?.isSome)
    (ends : x.Waits done) :
    Heads s x done (do takeFilled u ptr null out done (before ++ (slot, i) :: after); Draft.br done)
      fun w mem => w = x.work ∧ mem = x.memory.put o q := by
  induction before generalizing x with
  | nil =>
    simp only [List.nil_append, takeFilled, bind_assoc]
    refine readSlot_heads isPtr isNull cell item isAddress ends ?_
    intro value test take next x₁ read
    have isTrue : x₁.values test = .bool true := by
      have isTest : x₁.values test = .bool !q.isNull := read.isTest.value
      rw [isTest, isSome]
      rfl
    have taken : (Exit.condBr test take next).LeadsTo x₁.values take := .taken isTrue
    refine .enter taken read.filled read.takes read.ends read.apart.1.symm ?_
    rintro x₂ ⟨work₂, memory₂, knows₂, ends₂⟩
    have memory₂ := memory₂.trans read.memory
    have stored := Memory.store_cell (m := x₂.memory) (memory₂ ▸ room) q
    refine .goes (store_achieves (knows₂ _ _ (read.knows _ _ isOut))
      (knows₂ _ _ read.isValue) stored) ?_
    rintro _ x₃ goes₃ ⟨memory₃, work₃⟩
    refine .exit (.br done) (goes₃.waits ends₂) ?_
      ⟨by rw [work₃, work₂, read.work], by rw [memory₃, memory₂]⟩
    exact .bind (.moveTo (by simpa using read.apart.2.1)) fun _ _ =>
      .bind (.takeFilled _ _ _ _ _ _) fun _ _ => .close _
  | cons pair before ih =>
    obtain ⟨other, j⟩ := pair
    simp only [List.cons_append, takeFilled, bind_assoc]
    refine readSlot_heads isPtr isNull cell (empty (other, j) (by simp)) rfl ends ?_
    intro value test take next x₁ read
    have passed : (Exit.condBr test take next).LeadsTo x₁.values next := .passed read.isTest.value
    -- the block for a slot that is filled is written beside
    have beside : Spares [next, done] (do
        Draft.moveTo take
        Draft.store value out
        Draft.br done : Emit PUnit) :=
      .bind (.moveTo (by simp [read.apart.1, read.apart.2.2.symm])) fun _ _ =>
        .bind (.store _ _) fun _ _ => .close _
    have turns := Heads.turn (s := s) (m := do
        takeFilled u ptr null out done (before ++ (slot, i) :: after)
        Draft.br done) (Q := fun w mem => w = x.work ∧ mem = x.memory.put o q) passed read.filled
      read.further read.ends read.apart.2.1.symm beside ?_
    · simp only [bind_assoc] at turns
      exact turns
    · rintro x₂ ⟨work₂, memory₂, knows₂, ends₂⟩
      have work₂ := work₂.trans read.work
      have memory₂ := memory₂.trans read.memory
      have knows (v : ValueId) (val : Value) (known : x.Knows v val) : x₂.Knows v val :=
        knows₂ v val (read.knows v val known)
      rw [← work₂, ← memory₂]
      exact ih (knows _ _ isPtr) (knows _ _ isNull) (knows _ _ isOut) (memory₂ ▸ cell)
        (memory₂ ▸ room)
        (fun pair inside => empty pair (by simp [inside])) ends₂

theorem isNull_eq_false (isSome : q ≠ .null) : q.isNull = false := by
  cases q <;> first | rfl | exact absurd rfl isSome

/-- The value of an optional union comes to a cell that held null, if there is one. -/
theorem takePresent_heads {marker : Bool} (isPtr : x.Knows ptr v) (isOut : x.Knows out (address o))
    (room : x.memory.heap[o]? = some .null) (marked : UnionShape.Marked x.memory v marker val)
    (shown : marker = true ∧ val = q ∨ marker = false ∧ q = .null) (written : q ≠ .undef)
    (ends : x.Waits done) :
    Heads s x done (do takePresent u ptr out done; Draft.br done)
      fun w mem => w = x.work ∧ mem = x.memory.put o q := by
  obtain ⟨k, items, rfl, cell, isMarker, item⟩ := marked
  simp only [takePresent, bind_assoc]
  refine .goes (fieldAddr_achieves u.record 0 "present.p" isPtr) ?_
  rintro address x₁ goes₁ ⟨isAddress, memory₁, work₁⟩
  have loaded : x₁.memory.load (element k 0) = .ok (.bool marker) := by
    rw [memory₁]
    exact Memory.load_heap cell isMarker (by simp)
  refine .goes (load_achieves .i1 "present" isAddress loaded) ?_
  rintro present x₂ goes₂ ⟨isPresent, memory₂, work₂, filled₂⟩
  refine .block "member.take" fun take x₃ opens₃ => ?_
  obtain ⟨apart, ends₃⟩ := opens₃.others done (goes₂.waits (goes₁.waits ends))
  have work₃ : x₃.work = x.work := by rw [opens₃.work, work₂, work₁]
  have memory₃ : x₃.memory = x.memory := by rw [opens₃.memory, memory₂, memory₁]
  have isPresent₃ := opens₃.leads.knows isPresent
  rcases shown with ⟨rfl, same⟩ | ⟨rfl, rfl⟩
  · subst same
    have taken : (Exit.condBr present take done).LeadsTo x₃.values take := .taken isPresent₃.value
    refine .enter taken (opens₃.filled filled₂) opens₃.waits ends₃ apart.symm ?_
    rintro x₄ ⟨work₄, memory₄, knows₄, ends₄⟩
    have memory₄ := memory₄.trans memory₃
    have knows (v : ValueId) (val : Value) (known : x.Knows v val) : x₄.Knows v val :=
      knows₄ v val (opens₃.leads.knows (goes₂.knows (goes₁.knows known)))
    refine .goes (loadField_achieves u.record "value" (knows _ _ isPtr) (memory₄ ▸ cell)
      item written) ?_
    rintro value x₅ goes₅ ⟨isValue, memory₅, work₅⟩
    have memory₅ := memory₅.trans memory₄
    have stored := Memory.store_cell (m := x₅.memory) (memory₅ ▸ Memory.lt_of_heap room) val
    refine .goes (store_achieves (goes₅.knows (knows _ _ isOut)) isValue stored) ?_
    rintro _ x₆ goes₆ ⟨memory₆, work₆⟩
    refine .leave (.br done) (goes₆.waits (goes₅.waits ends₄)) ⟨?_, ?_⟩
    · rw [work₆, work₅, work₄, work₃]
    · rw [memory₆, memory₅]
  · have passed : (Exit.condBr present take done).LeadsTo x₃.values done := .passed isPresent₃.value
    refine .exit passed ends₃ ?_ ⟨work₃, by rw [memory₃, Memory.put_same room]⟩
    exact .bind (.moveTo (by simpa using apart)) fun _ _ => .bind (.loadField _ _ _ _) fun _ _ =>
      .bind (.store _ _) fun _ _ => .close _

/-- What is read from a union that is not null comes to a cell that held null. -/
theorem takeMember_heads (isPtr : x.Knows ptr v) (isNull : x.Knows null .null)
    (isOut : x.Knows out (address o)) (room : x.memory.heap[o]? = some .null) (ends : x.Waits done)
    (offers : u.Offers x.memory v q) (isSome : v ≠ .null) (written : q ≠ .undef) :
    Heads s x done (do takeMember u ptr null out done; Draft.br done)
      fun w mem => w = x.work ∧ mem = x.memory.put o q := by
  unfold takeMember
  cases offers with
  | missing missing =>
    obtain ⟨optional, _, marked⟩ := missing.resolve_left isSome
    rw [if_pos optional]
    exact takePresent_heads isPtr isOut room marked (.inr ⟨rfl, rfl⟩) written ends
  | present optional marked =>
    rw [if_pos optional]
    exact takePresent_heads isPtr isOut room marked (.inl ⟨rfl, rfl⟩) written ends
  | @first k i items _ general cell inside before item isSome isAddress =>
    have parts : u.slots.zipIdx = u.slots.zipIdx.take i ++
        (u.slots[i], i) :: u.slots.zipIdx.drop (i + 1) := by
      have inside : i < u.slots.zipIdx.length := by simpa using inside
      have there : u.slots.zipIdx[i] = (u.slots[i], i) := by simp
      rw [← there, ← List.drop_eq_getElem_cons, List.take_append_drop]
    have earlier (pair : UnionSlot × Nat) (listed : pair ∈ u.slots.zipIdx.take i) :
        items[u.fieldOfSlot pair.2]? = some .null := by
      obtain ⟨j, there, rfl⟩ := List.mem_take_iff_getElem.mp listed
      rw [UnionShape.fieldOfSlot_general general]
      simpa using before j (by omega)
    rw [if_neg (by simp [general]), parts]
    refine takeFilled_heads isPtr isNull isOut cell (Memory.lt_of_heap room) earlier ?_
      (isNull_eq_false isSome) isAddress ends
    rwa [UnionShape.fieldOfSlot_general general]

/-- What is read from a union comes to a cell that held null. -/
theorem takeUnlessNull_heads {test : ValueId} {read : BlockId} (isPtr : x.Knows ptr v)
    (isNull : x.Knows null .null) (isTest : x.Knows test (.bool v.isNull))
    (isOut : x.Knows out (address o))
    (room : x.memory.heap[o]? = some .null) (filled : x.Filled) (reads : x.Waits read)
    (ends : x.Waits done) (apart : read ≠ done) (offers : u.Offers x.memory v q)
    (written : q ≠ .undef) :
    Heads s x done (takeUnlessNull u ptr null out test read done) fun w mem =>
      w = x.work ∧ mem = x.memory.put o q := by
  by_cases isSome : v = .null
  · subst isSome
    have isNothing : q = .null := by
      cases offers with
      | missing => rfl
      | present _ marked =>
        obtain ⟨_, _, never, _⟩ := marked
        cases never
    have taken : (Exit.condBr test done read).LeadsTo x.values done := .taken isTest.value
    refine .exit taken ends ?_ ⟨rfl, by rw [isNothing, Memory.put_same room]⟩
    exact .bind (.moveTo (by simpa using apart)) fun _ _ =>
      .bind (.takeMember _ _ _ _ _) fun _ _ => .close _
  · have passed : (Exit.condBr test done read).LeadsTo x.values read :=
      .passed (isNull_eq_false isSome ▸ isTest.value)
    refine .enter passed filled reads ends apart.symm ?_
    rintro x₁ ⟨work₁, memory₁, knows₁, ends₁⟩
    rw [← work₁, ← memory₁]
    exact takeMember_heads (knows₁ _ _ isPtr) (knows₁ _ _ isNull) (knows₁ _ _ isOut)
      (memory₁ ▸ room) ends₁
      (memory₁ ▸ offers) isSome written

/-- What a union offers comes out of it as a value of which nothing is known. -/
theorem unionToAny_attains (moment : Moment s x.work)
    (known : x.work.registry.union? shape = some u)
    (whole : u.hasPropertySlots = false) (isPtr : x.Knows ptr v) (offers : u.Offers x.memory v q)
    (written : q ≠ .undef) :
    Attains s x (unionToAny (.boxed ptr (.union shape)) shape) fun a x' =>
      ∃ value, a = .boxed value .any ∧ x'.Knows value q ∧ x'.work = x.work ∧
        x.memory.Keeps [] x'.memory := by
  apply Attains.of_eq (unionToAny_eq known whole)
  refine .goes (alloc_achieves "member" fun types admitted =>
    zeroValue_ptr (moment.get_ptr admitted)) ?_
  rintro out x₁ goes₁ ⟨isOut, memory₁, work₁, _⟩
  refine .goes null_achieves ?_
  rintro null x₂ goes₂ ⟨isNull, memory₂, work₂⟩
  refine .block "member.done" fun done x₃ opens₃ => ?_
  refine .block "member.read" fun read x₄ opens₄ => ?_
  obtain ⟨apart, ends₄⟩ := opens₄.others done opens₃.waits
  have since : x₂.Leads s x₄ := opens₃.leads.trans opens₄.leads
  have isPtr₄ := since.knows (goes₂.knows (goes₁.knows isPtr))
  have isNull₄ := since.knows isNull
  refine .goes (compare_achieves "union.null" isPtr₄ isNull₄ (compare_null offers.isAddress)) ?_
  rintro test x₅ goes₅ ⟨isTest, memory₅, work₅, filled₅⟩
  have memory₅ : x₅.memory = x.memory.push .null := by
    rw [memory₅, opens₄.memory, opens₃.memory, memory₂, memory₁]
  have work₅ : x₅.work = x.work := by
    rw [work₅, opens₄.work, opens₃.work, work₂, work₁]
  have isOut₅ := goes₅.knows (since.knows (goes₂.knows isOut))
  have room₅ : x₅.memory.heap[x.memory.heap.size]? = some .null := by
    rw [memory₅]
    exact Memory.heap_push _ _
  have offers₅ : u.Offers x₅.memory v q := by
    rw [memory₅]
    exact offers.keeps (Memory.keeps_push _ _)
  refine .bind (Heads.join (R := fun val w mem => val = q ∧ w = x.work ∧ x.memory.Keeps [] mem)
    (takeUnlessNull_heads (goes₅.knows isPtr₄) (goes₅.knows isNull₄) isTest isOut₅ room₅ filled₅
      (goes₅.waits opens₄.waits) (goes₅.waits ends₄) apart offers₅ written) isOut₅ ?_
        .ptr "member") ?_
  · rintro w mem ⟨isWork, rfl⟩
    refine ⟨q, Memory.load_cell (Memory.heap_put (Memory.lt_of_heap room₅) _) written, rfl,
      isWork.trans work₅, ?_⟩
    rw [memory₅, Memory.put_push]
    exact Memory.keeps_push _ _
  · rintro value x₆ _ ⟨val, isValue, rfl, work₆, keeps⟩
    exact .pure ⟨value, rfl, isValue, work₆, keeps⟩

end OutOf

/-! ## There and back -/

theorem coerce_fromAny {l : Lowering} {w : Work} {f : Frame} {u : UnionShape} {shape : ShapeId}
    {p : ValueId} (known : w.registry.union? shape = some u) :
    coerce l (.boxed p .any) (.union shape) f s w = unionFromAny (.boxed p .any) u shape f s w := by
  change unionInit l (.boxed p .any) shape f s w = _
  rw [unionInit, unionShape_bind_apply _ known]
  rfl

theorem coerce_toAny (l : Lowering) (ptr : ValueId) (shape : ShapeId) :
    coerce l (.boxed ptr (.union shape)) .any = unionToAny (.boxed ptr (.union shape)) shape := rfl

/-- A pointer goes to a union and comes back as a value of which nothing is known. -/
def throughUnion (l : Lowering) (v : ValueId) (shape : ShapeId) : Emit Operand := do
  let inside ← coerce l (.boxed v .any) (.union shape)
  coerce l inside .any

/-- A union goes to a value of which nothing is known and comes back as a union. -/
def throughAny (l : Lowering) (v : ValueId) (shape : ShapeId) : Emit Operand := do
  let outside ← coerce l (.boxed v (.union shape)) .any
  coerce l outside (.union shape)

section ThereAndBack

variable {u : UnionShape} {shape : ShapeId} {v : ValueId} {q val : Value} {p : Program}
  {members : List Info}

theorem throughUnion_attains (l : Lowering) (moment : Moment s x.work)
    (has : x.HasUnion p shape u members)
    (whole : u.hasPropertySlots = false) (some : u.slots ≠ []) (isValue : x.Knows v q)
    (isAddress : q.address?.isSome) :
    Attains s x (throughUnion l v shape) fun back x' => back.form = .boxed ∧ back.info = .any ∧
      x'.Knows back.value q ∧ x.memory.Keeps [] x'.memory := by
  have written : q ≠ .undef := by
    rintro rfl
    cases isAddress
  refine .bind (.of_eq (coerce_fromAny has.known)
    (unionFromAny_attains moment has whole isValue isAddress)) ?_
  rintro _ x₁ _ ⟨r, val, rfl, isRecord, stands, work₁, keeps₁⟩
  have offers : u.Offers x₁.memory val q := by
    by_cases isNull : q = .null
    · exact isNull ▸ .missing (stands.missing isNull).missing
    · have first := stands.held isNull 0 (List.length_pos_iff.mpr some) (by simp)
      exact first.offers some isNull isAddress
  have moment₁ : Moment s x₁.work := work₁ ▸ moment
  have known₁ : x₁.work.registry.union? shape = .some u := work₁ ▸ has.known
  rw [coerce_toAny]
  refine (unionToAny_attains moment₁ known₁ whole isRecord offers written).mono ?_
  rintro _ x₂ _ ⟨back, rfl, isBack, _, keeps₂⟩
  exact ⟨rfl, rfl, isBack, keeps₁.trans keeps₂⟩

theorem throughAny_attains (l : Lowering) (moment : Moment s x.work)
    (has : x.HasUnion p shape u members)
    (whole : u.hasPropertySlots = false) (isValue : x.Knows v val)
    (offers : u.Offers x.memory val q)
    (isAddress : q.address?.isSome) :
    Attains s x (throughAny l v shape) fun back x' =>
    back.form = .boxed ∧ back.info = .union shape ∧
      x.memory.Keeps [] x'.memory ∧ ∃ val', x'.Knows back.value val' ∧
        (x'.size ≤ 0x100000000 → u.optional = false → u.slots.length ≤ 0x80000000) ∧
        Stands u q x'.memory val' := by
  have written : q ≠ .undef := by
    rintro rfl
    cases isAddress
  refine .bind (unionToAny_attains moment has.known whole isValue offers written) ?_
  rintro _ x₁ _ ⟨outside, rfl, isOutside, work₁, keeps₁⟩
  have moment₁ : Moment s x₁.work := work₁ ▸ moment
  have has₁ : x₁.HasUnion p shape u members := ⟨work₁ ▸ has.known, has.asked⟩
  apply Attains.of_eq (coerce_fromAny has₁.known)
  obtain ⟨_, x₂, ran, leads, r, val', rfl, isRecord, stands, _, keeps₂⟩ :=
    unionFromAny_attains moment₁ has₁ whole isOutside isAddress
  refine ⟨_, x₂, ran, leads, rfl, rfl, keeps₁.trans keeps₂, val', isRecord,
    fun numbered general => ?_, stands⟩
  have added := (unionFromAny_adds whole general).add ran
  change _ ≤ x₂.size at added
  omega

end ThereAndBack

end Emit

/-- Between unions without slots for properties and values of which nothing is known, nothing is
lost. A pointer that goes to a union and comes back is the same, null or not. The value of a union
that goes to a value of which nothing is known and comes back is missing if it was; else what was
alone in a slot is in this slot again. -/
theorem unknown_roundTrip (p : Program) (r : Resolver) (c : Config) (depth : Nat) {x : Stage}
    {shape : ShapeId} {u : UnionShape} {members : List Info} (moment : Moment (.of p r c) x.work)
    (has : x.HasUnion p shape u members)
    (whole : u.hasPropertySlots = false) (some : u.slots ≠ []) :
    (∀ v q, x.Knows v q → q.address?.isSome →
      Emit.Attains (.of p r c) x (Emit.throughUnion (.ofDepth depth) v shape) fun back x' =>
        back.form = .boxed ∧ back.info = .any ∧ x'.Knows back.value q ∧
        x.memory.Keeps [] x'.memory) ∧
    (∀ v val, x.Knows v val → u.Missing x.memory val →
      Emit.Attains (.of p r c) x (Emit.throughAny (.ofDepth depth) v shape) fun back x' =>
        back.form = .boxed ∧ back.info = .union shape ∧ x.memory.Keeps [] x'.memory ∧
          ∃ again, x'.Knows back.value again ∧ u.Missing x'.memory again) ∧
    ∀ v val i q, x.Knows v val → i < u.slots.length → q ≠ .null → q.address?.isSome →
      u.OnlyInSlot x.memory val i q →
      Emit.Attains (.of p r c) x (Emit.throughAny (.ofDepth depth) v shape) fun back x' =>
        back.form = .boxed ∧ back.info = .union shape ∧ x.memory.Keeps [] x'.memory ∧
          ∃ again, x'.Knows back.value again ∧ ¬ u.Missing x'.memory again ∧
            (x'.size ≤ 0x100000000 → u.InSlot x'.memory again i q) := by
  refine ⟨fun v q isValue isAddress => ?_, fun v val isValue missing => ?_,
    fun v val i q isValue inside isSome isAddress only => ?_⟩
  · exact Emit.throughUnion_attains _ moment has whole some isValue isAddress
  · refine (Emit.throughAny_attains _ moment has whole isValue (.missing missing) rfl).mono ?_
    rintro back x' _ ⟨isBoxed, isUnion, keeps, again, isAgain, _, stands⟩
    exact ⟨isBoxed, isUnion, keeps, again, isAgain, (stands.missing rfl).missing⟩
  · have offers := only.offers inside has.one_slot isSome isAddress
    refine (Emit.throughAny_attains _ moment has whole isValue offers isAddress).mono ?_
    rintro back x' _ ⟨isBoxed, isUnion, keeps, again, isAgain, counted, stands⟩
    refine ⟨isBoxed, isUnion, keeps, again, isAgain, fun missing => ?_, fun numbered => ?_⟩
    · exact missing.not_inSlot (stands.held isSome 0 (by omega) (by simp))
    · refine stands.held isSome i inside ?_
      cases optional : u.optional with
      | true =>
        have := has.one_slot optional
        omega
      | false =>
        have := counted numbered optional
        omega

/-- A truth value or a text: a truth value. -/
def flagAtZero : Memory := { heap := #[.agg [address 1, .null], .bool true] }

/-- The address of the record goes to the union and comes back, and the truth value in it goes out
and comes back to its slot. -/
theorem unknown_roundTrip_widened : ∃ u, widenedWork.registry.union? ⟨1⟩ = some u ∧
    Emit.Attains (.of widened .ambient {}) (givenAddress widenedWork 0 flagAtZero)
      (Emit.throughUnion (.ofDepth 20) ⟨0⟩ ⟨1⟩) (fun back x' => x'.Knows back.value (address 0)) ∧
    Emit.Attains (.of widened .ambient {}) (givenAddress widenedWork 0 flagAtZero)
      (Emit.throughAny (.ofDepth 20) ⟨0⟩ ⟨1⟩) fun back x' =>
        ∃ again, x'.Knows back.value again ∧ ¬ u.Missing x'.memory again ∧
          (x'.size ≤ 0x100000000 → u.InSlot x'.memory again 0 (address 1)) := by
  have made : (widenedWork.registry.union? ⟨1⟩).map (fun u => decide
      (u = Compile.unionOf widened widenedWork.registry [.boolean, .text] true u.record ∧
        u.hasPropertySlots = false ∧
      u.slots.length = 2 ∧ u.optional = false)) = some true := by
    decide +kernel
  obtain ⟨u, known, isMade⟩ := Option.map_eq_some_iff.mp made
  obtain ⟨asked, whole, two, general⟩ := of_decide_eq_true isMade
  have isValue : (givenAddress widenedWork 0 flagAtZero).Knows ⟨0⟩ (address 0) :=
    ⟨Nat.zero_lt_one, rfl⟩
  have only : u.OnlyInSlot flagAtZero (address 0) 0 (address 1) := by
    refine ⟨0, _, rfl, rfl, by simp [general], fun j inside => ?_⟩
    rw [UnionShape.fieldOfSlot_general general]
    obtain rfl | rfl : j = 0 ∨ j = 1 := by omega
    · rfl
    · rfl
  obtain ⟨through, _, back⟩ := unknown_roundTrip widened .ambient {} 20
    (x := givenAddress widenedWork 0 flagAtZero) (compile_moment 20 widened .ambient {})
    ⟨known, _, _, asked⟩ whole (by simp [← List.length_pos_iff, two])
  refine ⟨u, known, (through ⟨0⟩ (address 0) isValue rfl).mono fun back x' _ here => here.2.2.1, ?_⟩
  refine (back ⟨0⟩ (address 0) 0 (address 1) isValue (by omega) (by simp) rfl only).mono ?_
  rintro back x' _ ⟨_, _, _, again⟩
  exact again

end ShapeCompiler
