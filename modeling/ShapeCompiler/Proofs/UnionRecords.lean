import ShapeCompiler.Proofs.Dispatch
import ShapeCompiler.Proofs.Shapes

/-!
# The records of unions

* `unionOf_slot`: a member that a union holds as a whole has a slot of its own;
* `Emit.coerce_into`, `Emit.coerce_outOf`: what is written for such a member;
* `Emit.unionWith_makes`, `Emit.presentUnion_makes`: a new record with some slots filled, or with a
  value that is present.
-/

namespace ShapeCompiler

open Source Code Work Machine

/-! ## Slots -/

/-- What a union may hold as one of its members. -/
def Info.isMember : Info → Bool
  | .void | .null | .any | .union _ => false
  | _ => true

theorem Info.isMember_of_key {a b : Info} (same : a.key = b.key) (h : a.isMember) : b.isMember := by
  cases a <;> cases b <;> simp_all [Info.key, Info.isMember]

/-- A union holds the member as it is, not by its properties. -/
def HeldWhole (optional : Bool) (m : Info) : Prop := optional = true ∨ ∀ s, m ≠ .object s

section Slots

variable {p : Program} {r : Registry} {optional : Bool} {m : Info}

theorem memberSlots_of_whole (whole : HeldWhole optional m) :
    memberSlots p r optional m = [⟨m.key, m.describe p r, m, none⟩] := by
  cases optional with
  | true => rfl
  | false =>
    cases m with
    | object s =>
      rcases whole with never | apart
      · cases never
      · exact absurd rfl (apart s)
    | _ => rfl

/-- The key of a slot is that of what it holds. -/
theorem memberSlots_key {slot : UnionSlot} (h : slot ∈ memberSlots p r optional m) :
    slot.key = slot.info.key := by
  unfold memberSlots at h
  split at h
  · obtain ⟨_, _, rfl⟩ := List.mem_map.mp h
    rfl
  · rw [List.mem_singleton.mp h]

theorem mem_addSlots {seen slots : List UnionSlot} {slot : UnionSlot}
    (h : slot ∈ addSlots seen slots) : slot ∈ seen ∨ slot ∈ slots := by
  induction slots generalizing seen with
  | nil => exact .inl h
  | cons first rest ih =>
    rcases ih h with there | later
    · split at there
      · exact .inl there
      · rcases List.mem_append.mp there with old | new
        · exact .inl old
        · exact .inr (List.mem_singleton.mp new ▸ List.mem_cons_self)
    · exact .inr (List.mem_cons_of_mem _ later)

theorem addSlots_seen {seen slots : List UnionSlot} {slot : UnionSlot} (h : slot ∈ seen) :
    slot ∈ addSlots seen slots := by
  induction slots generalizing seen with
  | nil => exact h
  | cons first rest ih =>
    apply ih
    split
    · exact h
    · exact List.mem_append_left _ h

/-- What is asked for is there, or something that holds the same. -/
theorem addSlots_same {seen slots : List UnionSlot} {slot : UnionSlot} (h : slot ∈ slots) :
    ∃ kept ∈ addSlots seen slots, slot = kept ∨ slot.same kept := by
  induction slots generalizing seen with
  | nil => cases h
  | cons first rest ih =>
    rcases List.mem_cons.mp h with rfl | later
    · simp only [addSlots]
      split
      · rename_i there
        obtain ⟨kept, inside, same⟩ := List.any_eq_true.mp there
        exact ⟨kept, addSlots_seen inside, .inr same⟩
      · exact ⟨slot, addSlots_seen (by simp), .inl rfl⟩
    · exact ih later

end Slots

/-- The slots of a union are those that its members ask for. -/
theorem mem_members_slots {p : Program} {made : Registry} {members : List Info} {nullable : Bool}
    {record : TyId} {u : UnionShape} (asked : u = Compile.unionOf p made members nullable record)
    {slot : UnionSlot} (listed : slot ∈ u.slots) :
    ∃ m ∈ members, slot ∈ memberSlots p made u.optional m := by
  have isSlots : u.slots = addSlots [] (members.flatMap (memberSlots p made u.optional)) := by
    rw [asked]
    rfl
  rw [isSlots] at listed
  exact List.mem_flatMap.mp ((mem_addSlots listed).resolve_left (by simp))

/-- A member that a union holds as a whole has a slot. -/
theorem unionOf_slot {p : Program} {r : Registry} {members : List Info} {nullable : Bool}
    {record : TyId} {u : UnionShape} (asked : u = Compile.unionOf p r members nullable record)
    {m : Info}
    (member : m ∈ members) (whole : HeldWhole u.optional m) :
    ∃ i slot, u.slotForKey m.key = some i ∧ u.slots[i]? = some slot ∧ slot.info.key = m.key := by
  have isSlots : u.slots = addSlots [] (members.flatMap (memberSlots p r u.optional)) := by
    rw [asked]
    rfl
  have wanted : (⟨m.key, m.describe p r, m, none⟩ : UnionSlot) ∈
      members.flatMap (memberSlots p r u.optional) := by
    refine List.mem_flatMap.mpr ⟨m, member, ?_⟩
    rw [memberSlots_of_whole whole]
    exact List.mem_singleton.mpr rfl
  obtain ⟨kept, inside, alike⟩ : ∃ kept ∈ addSlots [] _, _ := addSlots_same wanted
  rw [← isSlots] at inside
  have holds : kept.prop.isNone && decide (kept.key = m.key) := by
    rcases alike with rfl | same
    · simp
    · cases isProp : kept.prop with
      | none => simpa [UnionSlot.same, isProp, eq_comm] using same
      | some n => simp [UnionSlot.same, isProp] at same
  cases found : u.slotForKey m.key with
  | none =>
    have none := List.findIdx?_eq_none_iff.mp found kept inside
    rw [holds] at none
    cases none
  | some i =>
    obtain ⟨there, isKey, _⟩ := List.findIdx?_eq_some_iff_getElem.mp found
    refine ⟨i, u.slots[i], rfl, List.getElem?_eq_getElem there, ?_⟩
    have own : u.slots[i].key = u.slots[i].info.key := by
      obtain ⟨_, _, isSlot⟩ := mem_members_slots asked (List.getElem_mem there)
      exact memberSlots_key isSlot
    rw [← own]
    simp only [Bool.and_eq_true, decide_eq_true_eq] at isKey
    exact isKey.2

/-- An optional union has one member. -/
theorem unionOf_only {p : Program} {r : Registry} {members : List Info} {nullable : Bool}
    {record : TyId} {u : UnionShape} (asked : u = Compile.unionOf p r members nullable record)
    {m : Info}
    (member : m ∈ members) (optional : u.optional = true) : members = [m] := by
  rw [asked] at optional
  simp only [Compile.unionOf, Bool.and_eq_true, decide_eq_true_eq] at optional
  obtain ⟨only, rfl⟩ := List.length_eq_one_iff.mp optional.2
  rw [List.mem_singleton.mp member]

/-- An optional union has one slot, for its one member. -/
theorem unionOf_optional {p : Program} {r : Registry} {members : List Info} {nullable : Bool}
    {record : TyId} {u : UnionShape} (asked : u = Compile.unionOf p r members nullable record)
    {m : Info}
    (member : m ∈ members) (optional : u.optional = true) :
    u.memberInfo = m ∧ u.hasMember m = true ∧ u.slots.length = 1 := by
  have one := unionOf_only asked member optional
  subst one
  have isSlots : u.slots = addSlots [] (memberSlots p r u.optional m) := by
    rw [asked]
    simp [Compile.unionOf]
  have isMembers : u.members = [m] := by
    rw [asked]
    rfl
  rw [memberSlots_of_whole (.inl optional)] at isSlots
  refine ⟨?_, ?_, ?_⟩
  · rw [UnionShape.memberInfo, isSlots]
    rfl
  · simp [UnionShape.hasMember, isMembers]
  · rw [isSlots]
    rfl

/-! ## What is written -/

namespace Emit

variable {s : Setup} {w : Work} {f : Frame} {l : Lowering} {v : Operand} {shape : ShapeId}
  {u : UnionShape} {m : Info} {α : Type}

theorem unionShape_apply (known : w.registry.union? shape = some u) :
    Compile.unionShape shape s w = .ok u w := by
  rw [Compile.unionShape, Compile.registry_bind_apply, known]
  rfl

theorem unionShape_bind_apply (k : UnionShape → Emit α) (known : w.registry.union? shape = some u) :
    (liftM (Compile.unionShape shape) >>= k : Emit α) f s w = k u f s w := by
  rw [lift_bind_apply, Compile.bind_apply, unionShape_apply known]

theorem boxed_of_boxed (isBoxed : v.form = .boxed) : boxed v = pure v.value := by
  simp [boxed, isBoxed]

/-- The value has the form already, or is a closure. -/
theorem coerce_same {i : Info} (same : i.key = m.key) :
    ∃ info, info.key = m.key ∧ ∀ value, coerce l (.boxed value i) m = pure (.boxed value info) := by
  rcases Info.eq_or_closure same with isSame | isClosure
  · subst isSame
    exact ⟨i, rfl, fun value => by simp [coerce, Operand.boxed]⟩
  · cases i with
    | closure known =>
      cases m with
      | closure wanted =>
        by_cases equal : known = wanted
        · subst equal
          exact ⟨.closure known, rfl, fun value => by simp [coerce, Operand.boxed]⟩
        · refine ⟨.closure { known with sig := known.sig <|> wanted.sig }, rfl, fun value => ?_⟩
          simp [coerce, coercePlain, Operand.boxed, equal, Info.isNullish]
      | _ => cases same
    | _ => cases isClosure

/-- A member goes to a new union. -/
theorem coerce_into (isMember : v.info.isMember) (known : w.registry.union? shape = some u) :
    coerce l v (.union shape) f s w =
      (if u.optional then initOptional l v u shape else initMember l v u shape) f s w := by
  obtain ⟨value, info, form⟩ := v
  have goes : unionInit l ⟨value, info, form⟩ shape f s w =
      (if u.optional then initOptional l ⟨value, info, form⟩ u shape
        else initMember l ⟨value, info, form⟩ u shape) f s w := by
    rw [unionInit, unionShape_bind_apply _ known]
    cases info with
    | void | null | any | union => cases isMember
    | _ => rfl
  rw [← goes]
  cases info with
  | void | null | any | union => cases isMember
  | _ => rfl

theorem unionExtract_eq {ptr : ValueId} (isMember : m.isMember)
    (known : w.registry.union? shape = some u) :
    unionExtract l (.boxed ptr (.union shape)) shape m f s w =
      (if u.optional then extractOptional l u ptr m else extractMember l u ptr m) f s w := by
  rw [unionExtract, unionShape_bind_apply _ known]
  cases m with
  | void | null | any | union => cases isMember
  | _ => rfl

/-- A member comes out of its slot. -/
theorem coerce_outOf {ptr : ValueId} (isMember : m.isMember)
    (known : w.registry.union? shape = some u) :
    coerce l (.boxed ptr (.union shape)) m f s w =
      (if u.optional then extractOptional l u ptr m else extractMember l u ptr m) f s w := by
  rw [← unionExtract_eq isMember known]
  cases m with
  | void | null | any | union => cases isMember
  | _ => rfl

theorem extractOptional_eq (isMember : u.hasMember m = true) (same : u.memberInfo.key = m.key)
    (ptr : ValueId) (depth : Nat) : ∃ info, info.key = m.key ∧
      extractOptional (.ofDepth (depth + 1)) u ptr m = do
        return .boxed (← loadField u.record ptr 1 "value") info := by
  obtain ⟨info, isKey, isSame⟩ := coerce_same (l := .ofDepth depth) same
  refine ⟨info, isKey, ?_⟩
  have coerced (value : ValueId) : (Lowering.ofDepth (depth + 1)).coerce
      (.boxed value u.memberInfo) m = pure (.boxed value info) := isSame value
  simp [extractOptional, isMember, coerced]

theorem extractMember_eq {i : Nat} {slot : UnionSlot} (found : u.slotForKey m.key = some i)
    (isSlot : u.slots[i]? = some slot) (same : slot.info.key = m.key)
    (ptr : ValueId) (depth : Nat) :
    ∃ info, info.key = m.key ∧ extractMember (.ofDepth (depth + 1)) u ptr m = do
      return .boxed (← loadField u.record ptr (u.fieldOfSlot i) slot.label) info := by
  obtain ⟨info, isKey, isSame⟩ := coerce_same (l := .ofDepth depth) same
  refine ⟨info, isKey, ?_⟩
  have coerced (value : ValueId) : (Lowering.ofDepth (depth + 1)).coerce
      (.boxed value slot.info) m = pure (.boxed value info) := isSame value
  unfold extractMember
  simp [found, UnionShape.slotInfo, isSlot, coerced]

/-! ## What it does -/

/-- The address of a new record, where all that was in memory stays as it was. -/
structure Making (x : Stage) (ptr : ValueId) (record : Value) (x' : Stage) : Prop where
  work : x'.work = x.work
  keeps : x.memory.Keeps [] x'.memory
  made : ∃ k, x.memory.heap.size ≤ k ∧ x'.Knows ptr (address k) ∧ x'.memory.heap[k]? = some record

/-- Null pointers, with some slots filled one after the other. -/
def filled (u : UnionShape) (values : Valuation) (n : Nat) (moves : List (Nat × ValueId)) :
    List Value :=
  moves.foldl (fun items move => items.set (u.fieldOfSlot move.1) (values move.2))
    (List.replicate n .null)

theorem length_filled (values : Valuation) (n : Nat) (moves : List (Nat × ValueId)) :
    (filled u values n moves).length = n := by
  suffices general : ∀ items : List Value, (moves.foldl (fun items move =>
      items.set (u.fieldOfSlot move.1) (values move.2)) items).length = items.length by
    simpa [filled] using general (List.replicate n .null)
  induction moves with
  | nil => simp
  | cons move rest ih =>
    intro items
    rw [List.foldl_cons, ih, List.length_set]

theorem unionWith_makes (shape : ShapeId) {x : Stage} {n : Nat} {moves : List (Nat × ValueId)}
    (isZero : ∀ types, x.Admits types → zeroValue types u.record = .agg (List.replicate n .null))
    (known : ∀ move ∈ moves, move.2.raw < x.size)
    (inside : ∀ move ∈ moves, u.fieldOfSlot move.1 < n) :
    Does s x (unionWith u shape moves) fun r x' =>
      ∃ ptr, r = .boxed ptr (.union shape) ∧ Making x ptr
      (.agg (filled u x.values n moves)) x' := by
  refine .write_bind (.alloc "union" isZero) ?_
  rintro ptr q goes ⟨isPtr, memory, size⟩
  have cell : q.memory.heap[x.memory.heap.size]? = some (.agg (List.replicate n .null)) := by
    rw [memory]
    exact Memory.heap_push _ _
  have fresh : x.memory.Keeps [x.memory.heap.size] q.memory := by
    rw [memory]
    exact (Memory.keeps_push _ _).weaken (by simp)
  refine .bind (.forM (x := x.moved q) (fun done x' => x'.work = x.work ∧
    x.memory.Keeps [x.memory.heap.size] x'.memory ∧
    x'.memory.heap[x.memory.heap.size]? = some (.agg (filled u x.values n done))) moves
    ⟨rfl, fresh, cell⟩ ?_) ?_
  · rintro done move rest isMoves x' goes' ⟨work, keeps, cell⟩
    have listed : move ∈ moves := by simp [isMoves]
    refine (storeField_does u.record (goes'.knows isPtr).value cell
      (by simpa [length_filled] using inside move listed)).mono ?_
    rintro _ x'' _ ⟨work', v, memory', isValue⟩
    have isKnown : x.Knows move.2 (x.values move.2) := ⟨known move listed, rfl⟩
    have isKnown' := goes'.knows (x := x.moved q) (goes.knows isKnown)
    obtain rfl : v = x.values move.2 := (isValue isKnown'.inside).trans isKnown'.value
    refine ⟨work'.trans work, ?_, ?_⟩
    · rw [memory']
      exact keeps.trans (Memory.keeps_put _ _ _)
    · have isFilled : filled u x.values n (done ++ [move]) =
          (filled u x.values n done).set (u.fieldOfSlot move.1) (x.values move.2) := by
        simp [filled]
      rw [memory', isFilled]
      exact Memory.heap_put (Memory.lt_of_heap cell) _
  · rintro _ x' goes' ⟨work, keeps, cell⟩
    exact .pure ⟨ptr, rfl, work, keeps.of_new (by simp), _, Nat.le_refl _, goes'.knows isPtr, cell⟩

theorem presentUnion_makes {x : Stage} {record : TyId} {value : ValueId} {val : Value}
    (isZero : ∀ types, x.Admits types → zeroValue types record = .agg [.bool false, .null])
    (known : x.Knows value val) :
    Does s x (presentUnion record value) fun ptr x' =>
    Making x ptr (.agg [.bool true, val]) x' := by
  refine .write_bind (.alloc "union" isZero) ?_
  rintro ptr q₁ goes₁ ⟨isPtr, memory₁, -⟩
  refine .write_bind (x := x.moved q₁) (.const (.bool true) _) ?_
  rintro present q₂ goes₂ ⟨isPresent, memory₂, -⟩
  have isPtr₂ := goes₂.knows isPtr
  refine .write_bind (x := (x.moved q₁).moved q₂) (.fieldAddr record 0 "present.p" isPtr₂.value) ?_
  rintro marker q₃ goes₃ ⟨isMarker, memory₃, -⟩
  have isMemory : q₃.memory = x.memory.push (.agg [.bool false, .null]) :=
    memory₃.trans (memory₂.trans memory₁)
  have cell : q₃.memory.heap[x.memory.heap.size]? = some (.agg [.bool false, .null]) := by
    rw [isMemory]
    exact Memory.heap_push _ _
  have stored : q₃.memory.store (q₃.values marker) (q₃.values present) =
      .ok (q₃.memory.put x.memory.heap.size (.agg [.bool true, .null])) := by
    rw [isMarker.value, (goes₃.knows isPresent).value]
    exact Memory.store_heap cell (by simp) _
  refine .write_bind (x := ((x.moved q₁).moved q₂).moved q₃) (.store stored) ?_
  rintro _ q₄ goes₄ ⟨_, memory₄, -⟩
  have isPtr₄ := goes₄.knows (goes₃.knows isPtr₂)
  have known₄ := goes₄.knows (goes₃.knows (goes₂.knows (goes₁.knows known)))
  have cell₄ : q₄.memory.heap[x.memory.heap.size]? = some (.agg [.bool true, .null]) := by
    rw [memory₄]
    exact Memory.heap_put (Memory.lt_of_heap cell) _
  refine .bind (storeField_does record (x := (((x.moved q₁).moved q₂).moved q₃).moved q₄)
    isPtr₄.value cell₄ (by simp)) ?_
  rintro _ x' goes' ⟨work, v, memory', isValue⟩
  obtain rfl : v = val := (isValue known₄.inside).trans known₄.value
  refine .pure ⟨work, ?_, _, Nat.le_refl _, goes'.knows isPtr₄, ?_⟩
  · have kept : x.memory.Keeps [x.memory.heap.size] x'.memory := by
      rw [memory']
      refine Memory.Keeps.trans ?_ (Memory.keeps_put _ _ _)
      change x.memory.Keeps _ q₄.memory
      rw [memory₄]
      refine Memory.Keeps.trans ?_ (Memory.keeps_put _ _ _)
      rw [isMemory]
      exact (Memory.keeps_push _ _).weaken (by simp)
    exact kept.of_new (by simp)
  · rw [memory']
    exact Memory.heap_put (Memory.lt_of_heap cell₄) _

theorem Writes.presentUnion (record : TyId) (value : ValueId) :
    Writes (presentUnion record value) :=
  .bind (.write _) fun _ => .bind (.write _) fun _ => .bind (.write _) fun _ =>
    .bind (.write _) fun _ => .bind (.storeField _ _ _ _) fun _ => .pure _

end Emit

/-! ## The record of a union -/

theorem zeroValue_marked {types : TypeTable} {id : TyId} (isPtr : types.get .ptr = .ptr)
    (isBool : types.get .i1 = .i1) (fields : types.fields? id = some [.i1, .ptr]) :
    zeroValue types id = .agg [.bool false, .null] := by
  have some := lt_size_of_get_ptr isPtr
  have null := zeroValueAt_ptr isPtr some
  have no : zeroValueAt types types.size .i1 = .bool false := by
    obtain ⟨n, isSize⟩ := Nat.exists_eq_add_of_lt some
    rw [isSize]
    simp [zeroValueAt, isBool]
  unfold TypeTable.fields? at fields
  unfold zeroValue zeroValueAt
  split at fields
  · rename_i name known
    simp [known, fields, no, null]
  · rename_i known
    cases fields
    simp [known, no, null]
  · cases fields

/-- A body that is given an object, at an address. -/
def givenAddress (w : Work) (k : Nat) (mem : Memory) : Stage where
  work := w
  frame := givenObject
  values := fun _ => address k
  memory := mem
  place := ⟨0⟩
  isOpen := ⟨rfl, _, rfl, rfl⟩

end ShapeCompiler
