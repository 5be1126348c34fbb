import Mathlib.Data.List.Induction
import ShapeCompiler.Proofs.UnionRecords

/-!
# Values that go from one union to another

* `UnionShape.Holds`, `Stage.Holds`: the record of a union that holds one of its members;
* `destination_eq`: only the slot of a member goes to the slot of this member in another union;
* `Emit.carrySlot_achieves`, `Emit.carry_achieves`: what is carried over, slot by slot;
* `Emit.coerce_between_achieves`: the other union holds the value afterwards, whatever the two
  layouts are;
* `union_conversion`: it is not null then, and gives the same pointer.

Nothing is held by a union that is null or whose value is absent, and neither is carried over
(`absence_lost`).
-/

namespace ShapeCompiler

open Source Code Work Machine

/-! ## Slots -/

/-- A union that is registered, with the slots that its members ask for. -/
structure Stage.HasUnion (x : Stage) (p : Program) (shape : ShapeId) (u : UnionShape)
    (members : List Info) : Prop where
  known : x.work.registry.union? shape = some u
  asked : ∃ made nullable, u = Compile.unionOf p made members nullable u.record

/-- A union that is registered has the slots that its members ask for. -/
theorem Work.Moment.hasUnion {s : Setup} {x : Stage} (moment : Moment s x.work) {shape : ShapeId}
    {u : UnionShape} (known : x.work.registry.union? shape = some u) :
    ∃ members, x.HasUnion s.program shape u members := by
  obtain ⟨made, members, nullable, asked⟩ := moment.union_asked known
  exact ⟨members, known, made, nullable, asked⟩

theorem Stage.Admits.of_work {x x' : Stage} {types : TypeTable} (h : x'.Admits types)
    (work : x'.work = x.work) : x.Admits types := by
  rwa [Stage.Admits, work] at h

/-- An optional union has one slot. -/
theorem Stage.HasUnion.one_slot {x : Stage} {p : Program} {shape : ShapeId} {u : UnionShape}
    {members : List Info} (has : x.HasUnion p shape u members) (optional : u.optional = true) :
    u.slots.length = 1 := by
  obtain ⟨made, nullable, asked⟩ := has.asked
  have several : members.length = 1 := by
    rw [asked] at optional
    simp only [Compile.unionOf, Bool.and_eq_true, decide_eq_true_eq] at optional
    exact optional.2
  obtain ⟨m, rfl⟩ := List.length_eq_one_iff.mp several
  exact (unionOf_optional asked (List.mem_singleton.mpr rfl) optional).2.2

/-- A new optional union is marked as absent. -/
theorem Stage.HasUnion.zero_optional {s : Setup} {x : Stage} {p : Program} {shape : ShapeId}
    {u : UnionShape} {members : List Info} (has : x.HasUnion p shape u members)
    (moment : Moment s x.work)
    (optional : u.optional = true) (types : TypeTable) (admitted : x.Admits types) :
    zeroValue types u.record = .agg [.bool false, .null] := by
  have one := has.one_slot optional
  apply zeroValue_marked (moment.get_ptr admitted)
  · exact moment.get_of_start admitted rfl (by simp) (by simp)
  · simpa [UnionShape.fields, optional, one] using
      TypeTable.fields?_of_grows admitted (moment.union_laid has.known)

/-- The slots of a new general union are empty. -/
theorem Stage.HasUnion.zero_general {s : Setup} {x : Stage} {p : Program} {shape : ShapeId}
    {u : UnionShape} {members : List Info} (has : x.HasUnion p shape u members)
    (moment : Moment s x.work)
    (general : u.optional = false) (types : TypeTable) (admitted : x.Admits types) :
    zeroValue types u.record = .agg (List.replicate u.slots.length .null) := by
  apply zeroValue_record (moment.get_ptr admitted)
  simpa [UnionShape.fields, general] using
    TypeTable.fields?_of_grows admitted (moment.union_laid has.known)

/-- The record of a union that holds a member: its one value is present, or all other slots are
empty. -/
def UnionShape.Holds (u : UnionShape) (m : Info) (q record : Value) : Prop :=
  if u.optional then record = .agg [.bool true, q]
  else ∃ slot, u.slotForKey m.key = some slot ∧
    record = .agg ((List.replicate u.slots.length .null).set slot q)

/-- The value of the body is the address of the record of a union that holds a member. -/
def Stage.Holds (x : Stage) (u : UnionShape) (m : Info) (ptr : ValueId) (q : Value) : Prop :=
  ∃ k record, x.Knows ptr (address k) ∧ x.memory.heap[k]? = some record ∧ u.Holds m q record

theorem Stage.Holds.later {s : Setup} {x x' : Stage} {u : UnionShape} {m : Info} {ptr : ValueId}
    {q : Value} (h : x.Holds u m ptr q) (goes : x.Goes s x') (memory : x'.memory = x.memory) :
    x'.Holds u m ptr q := by
  obtain ⟨k, record, isPtr, cell, holds⟩ := h
  exact ⟨k, record, goes.knows isPtr, memory ▸ cell, holds⟩

section Slots

variable {u : UnionShape} {p : Program} {made : Registry} {members : List Info} {nullable : Bool}
  {m : Info}

theorem slotForKey_spec {key : ShapeKey} {i : Nat} (found : u.slotForKey key = some i) :
    ∃ slot, u.slots[i]? = some slot ∧ slot.prop = none ∧ slot.key = key := by
  obtain ⟨there, isKey, _⟩ := List.findIdx?_eq_some_iff_getElem.mp found
  simp only [Bool.and_eq_true, decide_eq_true_eq, Option.isNone_iff_eq_none] at isKey
  exact ⟨u.slots[i], List.getElem?_eq_getElem there, isKey.1, isKey.2⟩

/-- No slot holds the same as one before it. -/
theorem addSlots_distinct {seen slots : List UnionSlot}
    (distinct : seen.Pairwise fun a b => b.same a = false) :
    (addSlots seen slots).Pairwise fun a b => b.same a = false := by
  induction slots generalizing seen with
  | nil => exact distinct
  | cons slot rest ih =>
    apply ih
    split
    · exact distinct
    · rename_i new
      refine List.pairwise_append.mpr ⟨distinct, by simp, fun a before b isSlot => ?_⟩
      rw [List.mem_singleton.mp isSlot]
      have := List.any_eq_false.mp (Bool.not_eq_true _ ▸ new) a before
      simpa using this

/-- The slot of a member is the only one with its key. -/
theorem slotForKey_unique (asked : u = Compile.unionOf p made members nullable u.record)
    {key : ShapeKey} {i j : Nat} {slot : UnionSlot} (found : u.slotForKey key = some i)
    (isSlot : u.slots[j]? = some slot) (whole : slot.prop = none) (isKey : slot.key = key) :
    j = i := by
  have distinct : u.slots.Pairwise fun a b => b.same a = false := by
    rw [asked]
    exact addSlots_distinct .nil
  obtain ⟨slot', isSlot', whole', isKey'⟩ := slotForKey_spec found
  obtain ⟨inside, rfl⟩ := List.getElem?_eq_some_iff.mp isSlot
  obtain ⟨inside', rfl⟩ := List.getElem?_eq_some_iff.mp isSlot'
  have apart := List.pairwise_iff_getElem.mp distinct
  rcases Nat.lt_trichotomy i j with before | same | after
  · have := apart i j inside' inside before
    simp [UnionSlot.same, whole, whole', isKey, isKey'] at this
  · exact same.symm
  · have := apart j i inside inside' after
    simp [UnionSlot.same, whole, whole', isKey, isKey'] at this

/-- The slot that is listed for a property is one of that property. -/
theorem propSlots_spec {slots : List UnionSlot} {n : Name} {i : Nat}
    (found : Table.find? n (propSlots slots) = some i) :
    ∃ slot, slots[i]? = some slot ∧ slot.prop = some n := by
  suffices general : ∀ (pairs : List (UnionSlot × Nat)) (props : List (Name × Nat)),
      (∀ pair ∈ pairs, slots[pair.2]? = some pair.1) →
      (∀ n i, Table.find? n props = some i → ∃ slot, slots[i]? = some slot ∧ slot.prop = some n) →
      ∀ n i, Table.find? n (pairs.foldl (fun props pair =>
        pair.1.prop.elim props (Table.put · pair.2 props)) props) = some i →
        ∃ slot, slots[i]? = some slot ∧ slot.prop = some n by
    refine general slots.zipIdx [] (fun pair inside => ?_) (by simp [Table.find?]) n i found
    exact List.mem_zipIdx_iff_getElem?.mp inside
  intro pairs
  induction pairs with
  | nil => exact fun props _ listed => listed
  | cons pair rest ih =>
    intro props isSlot listed
    refine ih _ (fun pair inside => isSlot pair (by simp [inside])) fun n i found => ?_
    dsimp only at found
    cases isProp : pair.1.prop with
    | none =>
      rw [isProp] at found
      exact listed n i found
    | some n' =>
      rw [isProp, Option.elim_some, Table.find?_put] at found
      split at found
      · rename_i same
        cases found
        exact ⟨pair.1, isSlot pair (by simp), by rw [isProp, same]⟩
      · exact listed n i found

theorem slotForProp_spec (asked : u = Compile.unionOf p made members nullable u.record) {n : Name}
    {i : Nat} (found : u.slotForProp n = some i) :
    ∃ slot, u.slots[i]? = some slot ∧ slot.prop = some n := by
  have isProps : u.props = propSlots u.slots := by
    rw [asked]
    rfl
  rw [UnionShape.slotForProp, isProps] at found
  exact propSlots_spec found

/-- A slot without a property has the key of its member. -/
theorem memberSlots_whole {optional : Bool} {slot : UnionSlot}
    (h : slot ∈ memberSlots p made optional m) (whole : slot.prop = none) : slot.key = m.key := by
  unfold memberSlots at h
  split at h
  · obtain ⟨_, _, rfl⟩ := List.mem_map.mp h
    cases whole
  · rw [List.mem_singleton.mp h]

/-- No union is a member of a union. -/
theorem slotForKey_union (asked : u = Compile.unionOf p made members nullable u.record)
    (plain : ∀ m ∈ members, m.isMember) (shape : ShapeId) : u.slotForKey (.union shape) = none := by
  cases found : u.slotForKey (.union shape) with
  | none => rfl
  | some i =>
    obtain ⟨slot, isSlot, whole, isKey⟩ := slotForKey_spec found
    obtain ⟨m, member, isSlot⟩ := mem_members_slots asked (List.mem_of_getElem? isSlot)
    have same : m.key = (Info.union shape).key := (memberSlots_whole isSlot whole).symm.trans isKey
    cases Info.isMember_of_key same (plain m member)

/-- Where the value of a slot goes in another union. -/
def UnionShape.destination? (u : UnionShape) (slot : UnionSlot) : Option Nat :=
  slot.prop.elim (u.slotForKey slot.key) u.slotForProp

theorem destination_lt (asked : u = Compile.unionOf p made members nullable u.record)
    {slot : UnionSlot} {d : Nat} (goes : u.destination? slot = some d) : d < u.slots.length := by
  unfold UnionShape.destination? at goes
  cases isProp : slot.prop with
  | none =>
    rw [isProp] at goes
    obtain ⟨_, isSlot, _⟩ := slotForKey_spec goes
    exact (List.getElem?_eq_some_iff.mp isSlot).1
  | some n =>
    rw [isProp] at goes
    obtain ⟨_, isSlot, _⟩ := slotForProp_spec asked goes
    exact (List.getElem?_eq_some_iff.mp isSlot).1

/-- Only the slot of a member goes to the slot of this member. -/
theorem destination_eq {u' : UnionShape} {made' : Registry} {members' : List Info}
    {nullable' : Bool}
    (asked : u = Compile.unionOf p made members nullable u.record)
    (asked' : u' = Compile.unionOf p made' members' nullable' u'.record) {key : ShapeKey}
    {i j d d' : Nat} {slot : UnionSlot} (found : u.slotForKey key = some i)
    (found' : u'.slotForKey key = some d) (isSlot : u.slots[j]? = some slot)
    (goes : u'.destination? slot = some d') : d' = d ↔ j = i := by
  constructor
  · rintro rfl
    obtain ⟨dest, isDest, whole, isKey⟩ := slotForKey_spec found'
    unfold UnionShape.destination? at goes
    cases isProp : slot.prop with
    | none =>
      rw [isProp] at goes
      obtain ⟨dest', isDest', _, isKey'⟩ := slotForKey_spec goes
      cases isDest.symm.trans isDest'
      exact slotForKey_unique asked found isSlot isProp (isKey'.symm.trans isKey)
    | some n =>
      rw [isProp] at goes
      obtain ⟨dest', isDest', isProp'⟩ := slotForProp_spec asked' goes
      cases isDest.symm.trans isDest'
      cases whole.symm.trans isProp'
  · rintro rfl
    obtain ⟨slot', isSlot', whole, isKey⟩ := slotForKey_spec found
    cases isSlot.symm.trans isSlot'
    unfold UnionShape.destination? at goes
    rw [whole, isKey] at goes
    exact Option.some.inj (goes.symm.trans found')

/-- What the fields of the record are. -/
theorem UnionShape.Holds.items (asked : u = Compile.unionOf p made members nullable u.record)
    (member : m ∈ members) (whole : HeldWhole u.optional m) {q record : Value}
    (h : u.Holds m q record) : ∃ items slot, record = .agg items ∧ u.slotForKey m.key = some slot ∧
      ∀ i < u.slots.length, items[u.fieldOfSlot i]? = some (if i = slot then q else .null) := by
  obtain ⟨slot, _, found, isSlot, _⟩ := unionOf_slot asked member whole
  have inside := (List.getElem?_eq_some_iff.mp isSlot).1
  unfold UnionShape.Holds at h
  cases optional : u.optional with
  | true =>
    obtain ⟨_, _, one⟩ := unionOf_optional asked member optional
    rw [optional, if_pos rfl] at h
    refine ⟨_, slot, h, found, fun i lt => ?_⟩
    obtain rfl : i = slot := by omega
    obtain rfl : i = 0 := by omega
    simp [UnionShape.fieldOfSlot, optional]
  | false =>
    rw [optional, if_neg (by simp)] at h
    obtain ⟨slot', found', isRecord⟩ := h
    cases found.symm.trans found'
    refine ⟨_, slot, isRecord, found, fun i lt => ?_⟩
    simp only [UnionShape.fieldOfSlot, optional, Bool.false_eq_true, if_false, List.getElem?_set,
      List.length_replicate, List.getElem?_replicate, lt, if_true]
    grind

end Slots

/-! ## Steps -/

namespace Emit

theorem Achieves.mono {α : Type} {s : Setup} {x : Stage} {m : Emit α} {Q R : α → Stage → Prop}
    (h : Achieves s x m Q) (weaker : ∀ a x', x.Goes s x' → Q a x' → R a x') : Achieves s x m R := by
  obtain ⟨a, x', ran, goes, here⟩ := h
  exact ⟨a, x', ran, goes, weaker a x' goes here⟩

theorem Writes.forM {α : Type} {k : α → Emit PUnit} (each : ∀ a, Writes (k a)) (as : List α) :
    Writes (as.forM k) := by
  induction as with
  | nil => exact .pure _
  | cons a rest ih => exact .bind (each a) fun _ => ih

/-- Steps for the members of a list that give something for some of them, with an invariant of the
members dealt with and what was given. -/
theorem Achieves.filterMapM {α β : Type} {s : Setup} {x : Stage} {k : α → Emit (Option β)}
    (I : List α → List β → Stage → Prop) (as : List α) (start : I [] [] x)
    (step : ∀ done a rest given, as = done ++ a :: rest → ∀ x', x.Goes s x' → I done given x' →
      Achieves s x' (k a) fun b => I (done ++ [a]) (given ++ b.toList)) :
    Achieves s x (as.filterMapM k) fun given => I as given := by
  suffices general : ∀ rest done given, as = done ++ rest → ∀ x', x.Goes s x' → I done given x' →
      Achieves s x' (rest.filterMapM k) fun more => I as (given ++ more) from
    general as [] [] rfl x (.refl x) start
  intro rest
  induction rest with
  | nil =>
    intro done given parts x' _ here
    rw [List.append_nil] at parts
    subst parts
    exact .pure (by simpa using here)
  | cons a rest ih =>
    intro done given parts x' goes here
    rw [List.filterMapM_cons]
    refine .bind (step done a rest given parts x' goes here) fun b x'' goes' here' => ?_
    have later := ih (done ++ [a]) (given ++ b.toList) (by simp [parts]) x''
      (goes.trans goes') here'
    cases b with
    | none => simpa using later
    | some b =>
      refine .bind later fun more x₃ goes₃ here₃ => .pure ?_
      simpa using here₃

theorem loadField_achieves {s : Setup} {x : Stage} {ptr : ValueId} {k i : Nat} {items : List Value}
    {v : Value} (record : TyId) (name : String) (isPtr : x.Knows ptr (address k))
    (cell : x.memory.heap[k]? = some (.agg items)) (item : items[i]? = some v)
    (written : v ≠ .undef) :
    Achieves s x (loadField record ptr i name) fun a x' =>
      x'.Knows a v ∧ x'.memory = x.memory ∧ x'.work = x.work :=
  (loadField_does record name isPtr.value cell item written).achieves (.loadField _ _ _ _)

/-- A union, new or not, that holds the member, where all that was in memory stays as it was. -/
structure Converted (x : Stage) (shape : ShapeId) (u : UnionShape) (m : Info) (q : Value)
    (inside : Operand) (x' : Stage) : Prop where
  work : x'.work = x.work
  keeps : x.memory.Keeps [] x'.memory
  held : ∃ ptr, inside = .boxed ptr (.union shape) ∧ x'.Holds u m ptr q

theorem Making.converted {x x₁ x' : Stage} {u : UnionShape} {m : Info} {ptr : ValueId}
    {q record : Value}
    (h : Making x₁ ptr record x') (work : x₁.work = x.work) (memory : x₁.memory = x.memory)
    (shape : ShapeId) (holds : u.Holds m q record) :
    Converted x shape u m q (.boxed ptr (.union shape)) x' := by
  obtain ⟨k, -, isPtr, cell⟩ := h.made
  exact ⟨h.work.trans work, memory ▸ h.keeps, ptr, rfl, k, record, isPtr, cell, holds⟩

/-! ## Slot by slot -/

section Carry

variable {s : Setup} {x : Stage} {p : Program} {u u' : UnionShape} {m : Info} {ptr : ValueId}
  {q : Value}

/-- If one move brings the value and the others bring null pointers, the value is alone. -/
theorem filled_one {values : Valuation} {n dest : Nat} {moves : List (Nat × ValueId)}
    (general : u.optional = false)
    (carried : ∀ move ∈ moves, values move.2 = if move.1 = dest then q else .null)
    (there : ∃ move ∈ moves, move.1 = dest) :
    filled u values n moves = (List.replicate n .null).set dest q := by
  suffices result : filled u values n moves =
      if ∃ move ∈ moves, move.1 = dest then (List.replicate n .null).set dest q
      else List.replicate n .null by
    rw [result, if_pos there]
  clear there
  induction moves using List.reverseRecOn with
  | nil => simp [filled]
  | append_singleton moves move ih =>
    have isFilled : filled u values n (moves ++ [move]) =
        (filled u values n moves).set move.1 (values move.2) := by
      simp [filled, UnionShape.fieldOfSlot, general]
    have before := ih fun move inside => carried move (by simp [inside])
    rw [isFilled, before, carried move (by simp)]
    by_cases isDest : move.1 = dest
    · have now : ∃ move' ∈ moves ++ [move], move'.1 = dest := ⟨move, by simp, isDest⟩
      rw [if_pos isDest, if_pos now, isDest]
      split
      · exact List.set_set ..
      · rfl
    · have blank : (List.replicate n Value.null).set move.1 .null = List.replicate n .null := by
        ext1 i
        simp only [List.getElem?_set, List.getElem?_replicate, List.length_replicate]
        grind
      have same : (∃ move' ∈ moves ++ [move], move'.1 = dest) ↔ ∃ move' ∈ moves,
          move'.1 = dest := by
        simp [or_and_right, exists_or, isDest]
      rw [if_neg isDest, if_congr same rfl rfl]
      split
      · rw [List.set_comm _ _ (Ne.symm isDest), blank]
      · exact blank

/-- One slot of the union is carried over. -/
def carrySlot (u u' : UnionShape) (ptr : ValueId) (pair : UnionSlot × Nat) :
    Emit (Option (Nat × ValueId)) :=
  match u'.destination? pair.1 with
  | some dest => do return some (dest, ← loadField u.record ptr (u.fieldOfSlot pair.2) pair.1.label)
  | none => return none

theorem initFromUnion_eq {w : Work} {f : Frame} {source target : ShapeId}
    (known : w.registry.union? source = some u) :
    initFromUnion (.boxed ptr (.union source)) u' target source f s w = (do
      let moves ← u.slots.zipIdx.filterMapM (carrySlot u u' ptr)
      if moves.isEmpty then Compile.mismatch (.union target) (.union source)
      else unionWith u' target moves : Emit Operand) f s w := by
  rw [initFromUnion, unionShape_bind_apply _ known]
  rfl

/-- Some slots are read, and the value of one of them, or null pointers, are known where they go. -/
structure Carried (x : Stage) (u' : UnionShape) (own : UnionSlot × Nat) (dest : Nat) (q : Value)
    (done : List (UnionSlot × Nat)) (moves : List (Nat × ValueId)) (x' : Stage) : Prop where
  work : x'.work = x.work
  memory : x'.memory = x.memory
  there : own ∈ done → ∃ move ∈ moves, move.1 = dest
  carried : ∀ move ∈ moves, move.1 < u'.slots.length ∧
    x'.Knows move.2 (if move.1 = dest then q else .null)

section Slots

variable {made made' : Registry} {members members' : List Info} {nullable nullable' : Bool}
  {k slot dest : Nat} {items : List Value}

/-- One more slot is read, and its value goes to the slot of the member exactly if it is the value
of the member. -/
theorem carrySlot_achieves (asked : u = Compile.unionOf p made members nullable u.record)
    (asked' : u' = Compile.unionOf p made' members' nullable' u'.record)
    (isPtr : x.Knows ptr (address k)) (cell : x.memory.heap[k]? = some (.agg items))
    (found : u.slotForKey m.key = some slot) (found' : u'.slotForKey m.key = some dest)
    (held : ∀ i < u.slots.length, items[u.fieldOfSlot i]? = some (if i = slot then q else .null))
    (written : q ≠ .undef) {own other : UnionSlot} {i : Nat}
    (goesOwn : u'.destination? own = some dest)
    (isSlot : u.slots[i]? = some other) {done : List (UnionSlot × Nat)}
    {moves : List (Nat × ValueId)}
    {x' : Stage} (goes : x.Goes s x') (h : Carried x u' (own, slot) dest q done moves x') :
    Achieves s x' (carrySlot u u' ptr (other, i)) fun move =>
      Carried x u' (own, slot) dest q (done ++ [(other, i)]) (moves ++ move.toList) := by
  unfold carrySlot
  cases moved : u'.destination? other with
  | none =>
    refine .pure ⟨h.work, h.memory, fun inside => ?_, by simpa using h.carried⟩
    rcases List.mem_append.mp inside with before | same
    · simpa using h.there before
    · cases List.mem_singleton.mp same
      cases moved.symm.trans goesOwn
  | some d =>
    have sameSlot := destination_eq asked asked' found found' isSlot moved
    have item := held i (List.getElem?_eq_some_iff.mp isSlot).1
    have isWritten : (if i = slot then q else Value.null) ≠ .undef := by
      split
      · exact written
      · simp
    refine .bind (loadField_achieves u.record other.label (goes.knows isPtr) (h.memory ▸ cell) item
      isWritten) ?_
    rintro loaded x'' goes' ⟨isLoaded, memory, work⟩
    refine .pure ⟨work.trans h.work, memory.trans h.memory, fun inside => ?_, fun move inside => ?_⟩
    · rcases List.mem_append.mp inside with before | same
      · obtain ⟨move, listed, isDest⟩ := h.there before
        exact ⟨move, by simp [listed], isDest⟩
      · cases List.mem_singleton.mp same
        exact ⟨(d, loaded), by simp, sameSlot.mpr rfl⟩
    · rcases List.mem_append.mp inside with before | now
      · exact ⟨(h.carried move before).1, goes'.knows (h.carried move before).2⟩
      · obtain rfl : move = (d, loaded) := by simpa using now
        refine ⟨destination_lt asked' moved, ?_⟩
        simpa [sameSlot] using isLoaded

/-- All slots that both unions have are read. The value of the member is among them, and goes to its
slot; whatever goes elsewhere is null. -/
theorem carry_achieves (asked : u = Compile.unionOf p made members nullable u.record)
    (asked' : u' = Compile.unionOf p made' members' nullable' u'.record)
    (isPtr : x.Knows ptr (address k)) (cell : x.memory.heap[k]? = some (.agg items))
    (found : u.slotForKey m.key = some slot) (found' : u'.slotForKey m.key = some dest)
    (held : ∀ i < u.slots.length, items[u.fieldOfSlot i]? = some (if i = slot then q else .null))
    (written : q ≠ .undef) :
    Achieves s x (u.slots.zipIdx.filterMapM (carrySlot u u' ptr)) fun moves x' =>
      ∃ own, own ∈ u.slots.zipIdx ∧ Carried x u' own dest q u.slots.zipIdx moves x' := by
  obtain ⟨own, isOwn, whole, isKey⟩ := slotForKey_spec found
  have goesOwn : u'.destination? own = some dest := by
    simpa [UnionShape.destination?, whole, isKey] using found'
  have listed : (own, slot) ∈ u.slots.zipIdx := List.mem_zipIdx_iff_getElem?.mpr isOwn
  refine (Achieves.filterMapM (Carried x u' (own, slot) dest q) u.slots.zipIdx
    ⟨rfl, rfl, by simp, by simp⟩ ?_).mono fun _ _ _ carried => ⟨_, listed, carried⟩
  rintro done ⟨other, i⟩ rest moves isSlots x' goes here
  have isSlot : (other, i) ∈ u.slots.zipIdx := by simp [isSlots]
  exact carrySlot_achieves asked asked' isPtr cell found found' held written goesOwn
    (List.mem_zipIdx_iff_getElem?.mp isSlot) goes here

end Slots

/-- A general union is made anew from the slots of another union. -/
theorem initFromUnion_achieves {source target : ShapeId} {members members' : List Info} {m' : Info}
    (moment : Moment s x.work) (hasSource : x.HasUnion p source u members)
    (hasTarget : x.HasUnion p target u' members')
    (general : u'.optional = false)
    (member : m ∈ members) (whole : HeldWhole u.optional m) (member' : m' ∈ members')
    (whole' : HeldWhole u'.optional m') (same : m.key = m'.key) (holds : x.Holds u m ptr q)
    (written : q ≠ .undef) :
    Achieves s x (initFromUnion (.boxed ptr (.union source)) u' target source)
      (Converted x target u' m' q) := by
  obtain ⟨k, record, isPtr, cell, holds⟩ := holds
  obtain ⟨made, nullable, asked⟩ := hasSource.asked
  obtain ⟨made', nullable', asked'⟩ := hasTarget.asked
  obtain ⟨items, slot, rfl, found, held⟩ := holds.items asked member whole
  obtain ⟨dest, _, found', isDest, _⟩ := unionOf_slot asked' member' whole'
  apply Achieves.of_eq (initFromUnion_eq hasSource.known)
  refine .bind (carry_achieves asked asked' isPtr cell found (same ▸ found') held written) ?_
  rintro moves x₁ goes ⟨own, listed, work, memory, there, carried⟩
  have there := there listed
  have any : moves.isEmpty = false := by
    obtain ⟨move, listed, _⟩ := there
    cases moves with
    | nil => cases listed
    | cons => rfl
  rw [any, if_neg (by simp)]
  have isZero (types : TypeTable) (admitted : x₁.Admits types) :=
    hasTarget.zero_general moment general types (admitted.of_work work)
  have writes : Writes (unionWith u' target moves) :=
    .bind (.write _) fun _ => .bind (.forM (fun _ => .storeField _ _ _ _) _) fun _ => .pure _
  have inside (move : Nat × ValueId) (listed : move ∈ moves) :
      u'.fieldOfSlot move.1 < u'.slots.length := by
    simpa [UnionShape.fieldOfSlot, general] using (carried move listed).1
  refine ((unionWith_makes target isZero (fun move listed => (carried move listed).2.inside)
    inside).achieves writes).mono ?_
  rintro _ x₂ goes₂ ⟨ptr', rfl, makes⟩
  refine makes.converted work memory target ?_
  have alone : filled u' x₁.values u'.slots.length moves =
      (List.replicate u'.slots.length .null).set dest q :=
    filled_one general (fun move listed => (carried move listed).2.value) there
  rw [UnionShape.Holds, general, if_neg (by simp), alone]
  exact ⟨dest, found', rfl⟩

end Carry

/-! ## The member of a union -/

/-- An instance of the one class is one of the other. -/
def Derives (p : Program) (m m' : Info) : Prop :=
  ∃ c d chain, m = .instanceOf c ∧ m' = .instanceOf d ∧ p.classChain c = .ok chain ∧ d ∈ chain

section Extract

variable {s : Setup} {x : Stage} {u : UnionShape} {m m' : Info} {ptr : ValueId} {q : Value}
  {w : Work} {f : Frame} {α : Type}

theorem asks_bind_apply {question : Program → Except ProgramError α} {β : Type} {a : α}
    (answer : question s.program = .ok a) (k : α → Emit β) :
    (liftM (Compile.asks question) >>= k : Emit β) f s w = k a f s w := by
  rw [lift_bind_apply, Compile.bind_apply, Compile.asks_apply, answer]

/-- An instance as one of a class above: the same pointer. -/
theorem coerce_derived {l : Lowering} (derives : Derives s.program m m') (other : m.key ≠ m'.key)
    (value : ValueId) :
    coerce l (.boxed value m) m' f s w = (pure (.boxed value m') : Emit Operand) f s w := by
  obtain ⟨c, d, chain, rfl, rfl, isChain, above⟩ := derives
  have apart : c ≠ d := fun same => other (by rw [same])
  have goes : coerce l (.boxed value (.instanceOf c)) (.instanceOf d) f s w =
      coerceInstance (.boxed value (.instanceOf c)) c d f s w := by
    simp [coerce, coercePlain, Operand.boxed, Info.isNullish, apart]
  rw [goes, coerceInstance, asks_bind_apply isChain]
  simp [above, Operand.boxed]

theorem extractOptional_derived {l : Lowering} (derives : Derives s.program u.memberInfo m')
    (absent : u.hasMember m' = false) :
    extractOptional l u ptr m' f s w = (do
      let value ← loadField u.record ptr 1 "value"
      l.coerce (.boxed value u.memberInfo) m' : Emit Operand) f s w := by
  obtain ⟨c, d, chain, isMember, rfl, isChain, above⟩ := derives
  have widens : widensTo (.instanceOf c) (.instanceOf d) s w = .ok true w := by
    rw [widensTo, Compile.bind_apply, Compile.asks_apply, isChain]
    simp only [above, decide_true]
    rfl
  rw [extractOptional, absent, isMember, if_neg (by simp), lift_bind_apply,
    Compile.bind_apply, widens]
  rfl

/-- A union holds a member, and gives it as the other one: as it is, or, if it has one member only,
as an instance of a class above. -/
def Gives (p : Program) (u : UnionShape) (m m' : Info) : Prop :=
  m.key = m'.key ∨ u.optional = true ∧ Derives p m m'

/-- What a union holds can be taken out. -/
theorem extract_achieves {members : List Info} {shape : ShapeId} (depth : Nat)
    (has : x.HasUnion s.program shape u members) (member : m ∈ members)
    (whole : HeldWhole u.optional m)
    (gives : Gives s.program u m m') (holds : x.Holds u m ptr q) (written : q ≠ .undef) :
    Achieves s x (if u.optional then extractOptional (.ofDepth (depth + 1)) u ptr m'
      else extractMember (.ofDepth (depth + 1)) u ptr m') fun back x' =>
        back.form = .boxed ∧ back.info.key = m'.key ∧ x'.Knows back.value q ∧
          x'.memory = x.memory ∧ x'.work = x.work := by
  obtain ⟨k, record, isPtr, cell, holds⟩ := holds
  obtain ⟨made, nullable, asked⟩ := has.asked
  have read {items : List Value} {field : Nat} {name : String} {info : Info}
      (isRecord : record = .agg items) (item : items[field]? = some q) (isKey : info.key = m'.key) :
      Achieves s x (do return .boxed (← loadField u.record ptr field name) info : Emit Operand)
        fun back x' => back.form = .boxed ∧ back.info.key = m'.key ∧ x'.Knows back.value q ∧
          x'.memory = x.memory ∧ x'.work = x.work := by
    refine .bind (loadField_achieves u.record name isPtr (isRecord ▸ cell) item written) ?_
    rintro loaded x' _ ⟨isLoaded, memory, work⟩
    exact .pure ⟨rfl, isKey, isLoaded, memory, work⟩
  cases optional : u.optional with
  | true =>
    obtain ⟨isOnly, isThere, _⟩ := unionOf_optional asked member optional
    have isMembers : u.members = [m] := by
      rw [asked, unionOf_only asked member optional]
      rfl
    rw [if_pos rfl]
    have isRecord : record = .agg [.bool true, q] := by
      simpa [UnionShape.Holds, optional] using holds
    by_cases same : m.key = m'.key
    · have isMember : u.hasMember m' = true := by
        simpa [UnionShape.hasMember, same] using isThere
      obtain ⟨info, isKey, written⟩ := extractOptional_eq isMember (by rw [isOnly, same]) ptr depth
      rw [written]
      exact read isRecord rfl isKey
    · obtain ⟨_, derives⟩ := gives.resolve_left same
      have noMember : u.hasMember m' = false := by
        simp [UnionShape.hasMember, isMembers, same]
      apply Achieves.of_eq (extractOptional_derived (isOnly.symm ▸ derives) noMember)
      refine .bind (loadField_achieves u.record "value" isPtr (isRecord ▸ cell) rfl written) ?_
      rintro loaded x' _ ⟨isLoaded, memory, work⟩
      rw [isOnly]
      apply Achieves.of_eq (coerce_derived (l := .ofDepth depth) derives same loaded)
      exact .pure ⟨rfl, rfl, isLoaded, memory, work⟩
  | false =>
    have same := gives.resolve_right (by simp [optional])
    obtain ⟨slot, held, found, isSlot, isHeld⟩ := unionOf_slot asked member whole
    obtain ⟨info, isKey, written⟩ := extractMember_eq (same ▸ found) isSlot
      (isHeld.trans same) ptr depth
    rw [if_neg (by simp), written]
    have inside := (List.getElem?_eq_some_iff.mp isSlot).1
    obtain ⟨items, slot', isRecord, found', items⟩ := holds.items asked member whole
    cases found.symm.trans found'
    exact read isRecord (by simpa using items slot inside) isKey

end Extract

/-! ## Another union -/

section Between

variable {s : Setup} {x : Stage} {w : Work} {f : Frame} {u u' : UnionShape}
  {source target : ShapeId}
  {members members' : List Info} {m m' : Info} {ptr : ValueId} {q : Value}

/-- A union that is there goes to a new one. -/
theorem coerce_between {l : Lowering} (apart : source ≠ target)
    (known : w.registry.union? target = some u') :
    coerce l (.boxed ptr (.union source)) (.union target) f s w =
      (if u'.optional then initOptional l (.boxed ptr (.union source)) u' target
        else initMember l (.boxed ptr (.union source)) u' target) f s w := by
  have goes : coerce l (.boxed ptr (.union source)) (.union target) =
      unionInit l (.boxed ptr (.union source)) target := by
    simp [coerce, Operand.boxed, apart]
  rw [goes, unionInit, unionShape_bind_apply _ known]
  simp [Operand.boxed, apart, Info.isNullish]

/-- An optional union is made anew from what another union gives. -/
theorem initOptional_achieves (depth : Nat) (moment : Moment s x.work)
    (hasSource : x.HasUnion s.program source u members)
    (hasTarget : x.HasUnion s.program target u' members')
    (optional : u'.optional = true)
    (member : m ∈ members) (whole : HeldWhole u.optional m) (member' : m' ∈ members')
    (isMember : m'.isMember) (gives : Gives s.program u m m') (holds : x.Holds u m ptr q)
    (written : q ≠ .undef) :
    Achieves s x (initOptional (.ofDepth (depth + 2)) (.boxed ptr (.union source)) u' target)
      (Converted x target u' m' q) := by
  obtain ⟨made', nullable', asked'⟩ := hasTarget.asked
  obtain ⟨isOnly, _, _⟩ := unionOf_optional asked' member' optional
  have extracts : Achieves s x (unionExtract (.ofDepth (depth + 1))
    (.boxed ptr (.union source)) source
      u'.memberInfo) fun inner x' => inner.form = .boxed ∧ inner.info.key = m'.key ∧
        x'.Knows inner.value q ∧ x'.memory = x.memory ∧ x'.work = x.work := by
    rw [isOnly]
    apply Achieves.of_eq (unionExtract_eq isMember hasSource.known)
    exact extract_achieves depth hasSource member whole gives holds written
  refine Achieves.bind (m := unionExtract (.ofDepth (depth + 1)) (.boxed ptr (.union source)) source
    u'.memberInfo) extracts ?_
  rintro inner x₁ goes ⟨isBoxed, _, isInner, memory, work⟩
  have isZero (types : TypeTable) (admitted : x₁.Admits types) :=
    hasTarget.zero_optional moment optional types (admitted.of_work work)
  simp only [boxed_of_boxed isBoxed, pure_bind]
  refine .bind ((presentUnion_makes isZero isInner).achieves (.presentUnion _ _)) ?_
  rintro ptr' x₂ _ makes
  refine .pure (makes.converted work memory target ?_)
  rw [UnionShape.Holds, optional, if_pos rfl]

/-- A member of a union serves as one of another: it is the same, or, where both unions are
optional, an instance of a class below. -/
def Serves (p : Program) (u u' : UnionShape) (m m' : Info) : Prop :=
  m.key = m'.key ∨ u.optional = true ∧ u'.optional = true ∧ Derives p m m'

/-- What a union holds, the other one holds after the conversion. -/
theorem coerce_between_achieves (depth : Nat) (moment : Moment s x.work)
    (hasSource : x.HasUnion s.program source u members)
    (hasTarget : x.HasUnion s.program target u' members')
    (plain : ∀ m ∈ members', m.isMember)
    (member : m ∈ members) (whole : HeldWhole u.optional m) (member' : m' ∈ members')
    (whole' : HeldWhole u'.optional m') (serves : Serves s.program u u' m m')
    (holds : x.Holds u m ptr q) (written : q ≠ .undef) :
    Achieves s x (coerce (.ofDepth (depth + 2)) (.boxed ptr (.union source)) (.union target))
      (Converted x target u' m' q) := by
  by_cases apart : source = target
  · subst apart
    have same := hasSource.known.symm.trans hasTarget.known
    cases same
    have stays : coerce (.ofDepth (depth + 2)) (.boxed ptr (.union source)) (.union source) =
        pure (.boxed ptr (.union source)) := by
      simp [coerce, Operand.boxed]
    rw [stays]
    obtain ⟨k, record, isPtr, cell, holds⟩ := holds
    refine .pure ⟨rfl, .refl _ _, ptr, rfl, k, record, isPtr, cell, ?_⟩
    rcases serves with same | ⟨optional, _⟩
    · simpa [UnionShape.Holds, same] using holds
    · simpa [UnionShape.Holds, optional] using holds
  · apply Achieves.of_eq (coerce_between apart hasTarget.known)
    cases optional : u'.optional with
    | true =>
      rw [if_pos rfl]
      have gives : Gives s.program u m m' := serves.imp_right fun h => ⟨h.1, h.2.2⟩
      exact initOptional_achieves depth moment hasSource hasTarget optional member whole member'
        (plain m' member') gives holds written
    | false =>
      have same := serves.resolve_right (by simp [optional])
      obtain ⟨made', nullable', asked'⟩ := hasTarget.asked
      have noSlot := slotForKey_union asked' plain source
      have carries : initMember (.ofDepth (depth + 2)) (.boxed ptr (.union source)) u' target =
          initFromUnion (.boxed ptr (.union source)) u' target source := by
        unfold initMember
        simp only [Operand.boxed, Info.key, noSlot]
      rw [if_neg (by simp), carries]
      exact initFromUnion_achieves moment hasSource hasTarget optional member whole member' whole'
        same holds written

end Between

/-! ## Comparison with null -/

section Null

variable {s : Setup} {x : Stage} {w : Work} {f : Frame} {u : UnionShape} {shape : ShapeId}
  {ptr n : ValueId}

theorem bind_congr_apply {α β : Type} {m m' : Emit α} {k : α → Emit β} (same : m f s w = m' f s w) :
    (m >>= k) f s w = (m' >>= k) f s w := by
  change (m f >>= fun result => k result.1 result.2) s w =
    (m' f >>= fun result => k result.1 result.2) s w
  rw [Compile.bind_apply, Compile.bind_apply, same]

theorem optionalShape_apply (known : w.registry.union? shape = some u) :
    optionalShape? (.union shape) s w = .ok (if u.optional then some shape else none) w := by
  rw [optionalShape?, Compile.bind_apply, unionShape_apply known]
  rfl

/-- A union is compared with null by its marker if it has one, and by its address otherwise. -/
theorem equal_null (known : w.registry.union? shape = some u) :
    equal (.boxed ptr (.union shape)) (.boxed n .null) f s w = (if u.optional then do
        let marker ← Draft.fieldAddr u.record ptr 0 "present.p"
        let present ← Draft.load .i1 marker "present"
        Draft.not present "absent"
      else Draft.compare .eq ptr n "eq" : Emit ValueId) f s w := by
  have meets : meetsNull (.boxed ptr (.union shape)) (.boxed n .null) f s w =
      .ok (u.optional, f) w := by
    change (liftM (optionalShape? (.union shape)) >>= fun found => pure found.isSome : Emit Bool)
      f s w = _
    rw [lift_bind_apply, Compile.bind_apply, optionalShape_apply known]
    cases u.optional <;> rfl
  have left : comparedWithNull? (.boxed ptr (.union shape)) (.boxed n .null) f s w =
      .ok (if u.optional then some (.boxed ptr (.union shape)) else none, f) w := by
    rw [comparedWithNull?, bind_of_ok meets]
    cases u.optional <;> rfl
  rw [equal, bind_of_ok left]
  cases optional : u.optional with
  | true =>
    have shaped : optionalShape? (Operand.boxed ptr (.union shape)).info s w = .ok (some shape) w :=
      (optionalShape_apply known).trans (by rw [optional, if_pos rfl])
    have present : isPresent (.boxed ptr (.union shape)) shape f s w = (do
        let marker ← Draft.fieldAddr u.record ptr 0 "present.p"
        Draft.load .i1 marker "present" : Emit ValueId) f s w := by
      rw [isPresent, unionShape_bind_apply _ known, if_pos optional]
      rfl
    change isAbsent (.boxed ptr (.union shape)) f s w = _
    rw [isAbsent, lift_bind_apply, Compile.bind_apply, shaped]
    exact bind_congr_apply present
  | false => rfl

/-- A union that holds something is not null. -/
theorem equal_null_achieves {m : Info} {q : Value} (known : x.work.registry.union? shape = some u)
    (holds : x.Holds u m ptr q) (isNull : x.Knows n .null) :
    Achieves s x (equal (.boxed ptr (.union shape)) (.boxed n .null)) fun answer x' =>
      x'.Knows answer (.bool false) ∧ x'.memory = x.memory ∧ x'.work = x.work := by
  obtain ⟨k, record, isPtr, cell, holds⟩ := holds
  apply Achieves.of_eq (equal_null known)
  cases optional : u.optional with
  | true =>
    have isRecord : record = .agg [.bool true, q] := by
      simpa [UnionShape.Holds, optional] using holds
    rw [if_pos rfl]
    refine Does.achieves (.write_bind (.fieldAddr u.record 0 "present.p" isPtr.value) ?_)
      (.bind (.write _) fun _ => .bind (.write _) fun _ => .write _)
    rintro marker p₁ _ ⟨isMarker, memory₁, -⟩
    have loaded : p₁.memory.load (p₁.values marker) = .ok (.bool true) := by
      rw [isMarker.value, memory₁]
      exact Memory.load_heap (isRecord ▸ cell) rfl (by simp)
    refine .write_bind (x := x.moved p₁) (.load .i1 "present" loaded) ?_
    rintro present p₂ _ ⟨isPresent, memory₂, -⟩
    refine .write (x := (x.moved p₁).moved p₂) (.not "absent" isPresent.value) ?_
    rintro answer p₃ _ ⟨isAnswer, memory₃, -⟩
    exact ⟨isAnswer, memory₃.trans (memory₂.trans memory₁), rfl⟩
  | false =>
    have compared : compareValues .eq (x.values ptr) (x.values n) = .ok false := by
      have isAddress : x.values ptr = address k := isPtr.value
      have isNull : x.values n = .null := isNull.value
      rw [isAddress, isNull]
      rfl
    rw [if_neg (by simp)]
    refine Does.achieves (.write (.compare "eq" compared) ?_) (.write _)
    rintro answer p₁ _ ⟨isAnswer, memory, -⟩
    exact ⟨isAnswer, memory, rfl⟩

end Null

end Emit

/-- A value that a union holds goes to another union that has its member: the conversion compiles
and runs, the new union is not null, and the member that it gives is the same pointer. -/
theorem union_conversion (p : Program) (r : Resolver) (c : Config) (depth : Nat) {x : Stage}
    {source target : ShapeId} {u u' : UnionShape} {members members' : List Info} {m m' : Info}
    {ptr : ValueId} {q : Value} (moment : Moment (.of p r c) x.work)
    (hasSource : x.HasUnion p source u members) (hasTarget : x.HasUnion p target u' members')
    (plain : ∀ m ∈ members', m.isMember)
    (member : m ∈ members) (whole : HeldWhole u.optional m) (member' : m' ∈ members')
    (whole' : HeldWhole u'.optional m') (serves : Emit.Serves p u u' m m')
    (holds : x.Holds u m ptr q) (written : q ≠ .undef) :
    Emit.Achieves (.of p r c) x (do
      let inside ← Emit.coerce (.ofDepth (depth + 2)) (.boxed ptr (.union source)) (.union target)
      let none ← Emit.nullValue .null
      let isNull ← Emit.equal inside none
      let back ← Emit.coerce (.ofDepth (depth + 2)) inside m'
      return (isNull, back)) fun result x' =>
        x'.Knows result.1 (.bool false) ∧ result.2.form = .boxed ∧ result.2.info.key = m'.key ∧
          x'.Knows result.2.value q ∧ x.memory.Keeps [] x'.memory := by
  refine .bind (Emit.coerce_between_achieves depth moment hasSource hasTarget plain member whole
    member' whole' serves holds written) ?_
  rintro _ x₁ _ ⟨work₁, keeps, ptr', rfl, holds₁⟩
  have nullWrites : Emit.Writes (Emit.nullValue .null) := .bind (.write _) fun _ => .pure _
  have nullDoes : Emit.Does (.of p r c) x₁ (Emit.nullValue .null) fun none x' =>
      ∃ n, none = .boxed n .null ∧ x'.Knows n .null ∧ x'.memory = x₁.memory ∧
          x'.work = x₁.work := by
    refine .write_bind (.const .null _) ?_
    rintro n p₂ _ ⟨isNull, memory, -⟩
    exact .pure ⟨n, rfl, isNull, memory, rfl⟩
  refine .bind (nullDoes.achieves nullWrites) ?_
  rintro _ x₂ goes₂ ⟨n, rfl, isNull, memory₂, work₂⟩
  have work₂' := work₂.trans work₁
  have holds₂ := holds₁.later goes₂ memory₂
  refine .bind (Emit.equal_null_achieves (work₂' ▸ hasTarget.known) holds₂ isNull) ?_
  rintro answer x₃ goes₃ ⟨isAnswer, memory₃, work₃⟩
  have work₃' := work₃.trans work₂'
  have hasTarget₃ : x₃.HasUnion p target u' members' := ⟨work₃' ▸ hasTarget.known, hasTarget.asked⟩
  refine .bind (Emit.Achieves.of_eq (Emit.coerce_outOf (plain m' member') hasTarget₃.known)
    (Emit.extract_achieves (depth + 1) hasTarget₃ member' whole' (.inl rfl)
      (holds₂.later goes₃ memory₃) written)) ?_
  rintro back x₄ goes₄ ⟨isBoxed, isKey, isBack, memory₄, _⟩
  refine .pure ⟨goes₄.knows isAnswer, isBoxed, isKey, isBack, ?_⟩
  rw [memory₄, memory₃, memory₂]
  exact keeps

/-- A truth value or null goes to a variable that may also be a text. -/
@[irreducible] def widened : Program := (Id.run <| StateT.run (do
  let flag ← Construction.unionType [.boolean, .null]
  let wider ← Construction.unionType [.boolean, .text, .null]
  let (a, _) ← Construction.bind "a" (some flag) (some (← Construction.expr .null))
  let (b, _) ← Construction.bind "b" (some wider) (some (← Construction.ident "a"))
  Construction.pushEntry a
  Construction.pushEntry b : Building Unit) {}).2.program

/-- The state once the program is compiled. -/
def widenedWork : Work :=
  Compile.endOf (Compile.entry (.ofDepth 20)) (.of widened .ambient {}) .start

/-- The address of a truth value, in a union that is present. -/
def presentAtZero : Memory := { heap := #[.agg [.bool true, address 1], .bool true] }

/-- A truth value that is there comes out of the wider union. -/
theorem union_conversion_widened :
    Emit.Achieves (.of widened .ambient {}) (givenAddress widenedWork 0 presentAtZero) (do
      let inside ← Emit.coerce (.ofDepth 20) (.boxed ⟨0⟩ (.union ⟨0⟩)) (.union ⟨1⟩)
      let none ← Emit.nullValue .null
      let isNull ← Emit.equal inside none
      let back ← Emit.coerce (.ofDepth 20) inside .boolean
      return (isNull, back)) fun result x' =>
        x'.Knows result.1 (.bool false) ∧ x'.Knows result.2.value (address 1) := by
  have source : (widenedWork.registry.union? ⟨0⟩).map (fun u => decide (u.optional = true ∧
      u = Compile.unionOf widened widenedWork.registry [.boolean] true u.record)) = some true := by
    decide +kernel
  have target : (widenedWork.registry.union? ⟨1⟩).map (fun u => decide
      (u = Compile.unionOf widened widenedWork.registry [.boolean, .text] true u.record)) =
          some true := by
    decide +kernel
  obtain ⟨u, known, isMade⟩ := Option.map_eq_some_iff.mp source
  obtain ⟨optional, asked⟩ := of_decide_eq_true isMade
  obtain ⟨u', known', isMade'⟩ := Option.map_eq_some_iff.mp target
  have holds : (givenAddress widenedWork 0 presentAtZero).Holds u .boolean ⟨0⟩ (address 1) := by
    refine ⟨0, .agg [.bool true, address 1], ⟨Nat.zero_lt_one, rfl⟩, rfl, ?_⟩
    rw [UnionShape.Holds, if_pos optional]
  have same : Emit.Serves widened u u' .boolean .boolean := .inl rfl
  obtain ⟨result, x', ran, goes, isNull, _, _, isBack, _⟩ := union_conversion widened .ambient {} 18
    (compile_moment 20 widened .ambient {}) ⟨known, _, _, asked⟩
      ⟨known', _, _, of_decide_eq_true isMade'⟩
    (by simp [Info.isMember]) (by simp) (.inr (by simp)) (by simp) (.inr (by simp))
      same holds (by simp)
  exact ⟨result, x', ran, goes, isNull, isBack⟩

/-- A union that is absent. -/
def absentAtZero : State where
  memory := { heap := #[.agg [.bool false, .null]] }
  fuel := 100

/-- Whether the code that was written, with an absent union given, computes that the one was null
and that the other is not. -/
def losesNull (written : EStateM.Result Failure Work ((ValueId × ValueId) × Frame)) : Bool :=
  match written with
  | .error _ _ => false
  | .ok ((before, after), f) w' =>
    match f.draft.blocks[0]? with
    | none => false
    | some k =>
      match execInsts w'.code.types (fun _ _ => throw .nestingLimit)
        ((Array.replicate f.draft.values.size .undef).setIfInBounds 0 (address 0)) k.insts.toList
        absentAtZero with
      | .error _ _ => false
      | .ok r _ => match r.read before, r.read after with
        | .bool true, .bool false => true
        | _, _ => false

/-- A union that is absent is not null in the other union. -/
theorem absence_lost : ∃ before after f w' k r st,
    (do
      let none ← Emit.nullValue .null
      let before ← Emit.equal (.boxed ⟨0⟩ (.union ⟨0⟩)) none
      let inside ← Emit.coerce (.ofDepth 20) (.boxed ⟨0⟩ (.union ⟨0⟩)) (.union ⟨1⟩)
      let after ← Emit.equal inside none
      return (before, after) : Emit (ValueId × ValueId)) givenObject
        (.of widened .ambient {}) widenedWork = .ok ((before, after), f) w' ∧
    f.draft.blocks[0]? = some k ∧
    execInsts w'.code.types (fun _ _ => throw .nestingLimit)
      ((Array.replicate f.draft.values.size .undef).setIfInBounds 0 (address 0)) k.insts.toList
      absentAtZero = .ok r st ∧
    r.read before = .bool true ∧ r.read after = .bool false := by
  have runs : losesNull ((do
      let none ← Emit.nullValue .null
      let before ← Emit.equal (.boxed ⟨0⟩ (.union ⟨0⟩)) none
      let inside ← Emit.coerce (.ofDepth 20) (.boxed ⟨0⟩ (.union ⟨0⟩)) (.union ⟨1⟩)
      let after ← Emit.equal inside none
      return (before, after) : Emit (ValueId × ValueId)) givenObject
        (.of widened .ambient {}) widenedWork) = true := by
    decide +kernel
  unfold losesNull at runs
  split at runs
  · cases runs
  · rename_i before after f w' written
    split at runs
    · cases runs
    · rename_i k isBlock
      split at runs
      · cases runs
      · rename_i r st ran
        split at runs
        · rename_i wasNull isNull
          exact ⟨before, after, f, w', k, r, st, written, isBlock, ran, wasNull, isNull⟩
        · cases runs

end ShapeCompiler
