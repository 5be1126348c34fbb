import Mathlib.Data.List.Basic
import ShapeCompiler.Machine.Run
import ShapeCompiler.Proofs.Steps

/-!
# Memory

* `Memory.load_heap`, `Memory.store_heap` and their kin: reading and writing one element;
* `Memory.Keeps`: all but some allocations stay as they are;
* `Memory.boxes`: what is in memory other than records and arrays; `Memory.Arranges` keeps it too;
* `zeroValue_record`, `zeroValue_array`: what a new record and a new array hold.
-/

namespace ShapeCompiler

open Source Code Work

namespace Machine

/-- The address of an element of an allocation. -/
abbrev element (k i : Nat) : Value := .ptr ((Region.heap k).root.child i)

/-- The address of an allocation. -/
abbrev address (k : Nat) : Value := .ptr (Region.heap k).root

namespace Memory

variable {m m' m'' : Memory} {k i : Nat} {items : List Value} {v : Value}

/-! ## One element -/

theorem load_read {p : Pointer} (read : m.read p = .ok v) (written : v ≠ .undef) :
    m.load (.ptr p) = .ok v := by
  simp only [load, Value.asPointer, Bind.bind, Except.bind, read]
  cases v <;> first | exact absurd rfl written | rfl

theorem load_heap (cell : m.heap[k]? = some (.agg items)) (item : items[i]? = some v)
    (written : v ≠ .undef) : m.load (element k i) = .ok v := by
  refine load_read ?_ written
  simp [read, root, Region.root, Pointer.child, cell, Value.follow, item, Bind.bind, Except.bind]

theorem load_global {g : GlobalId} {c : Cell} (cell : m.globals[g.raw]? = some c)
    (isAgg : c.value = .agg items) (item : items[i]? = some v) (written : v ≠ .undef) :
    m.load (.ptr ((Region.global g).root.child i)) = .ok v := by
  refine load_read ?_ written
  simp [read, root, Region.root, Pointer.child, cell, isAgg, Value.follow, item, Bind.bind,
    Except.bind]

theorem load_cell (cell : m.heap[k]? = some v) (written : v ≠ .undef) :
    m.load (address k) = .ok v := by
  refine load_read ?_ written
  simp [read, root, Region.root, cell, Value.follow, Bind.bind, Except.bind]

/-- The memory with another value in an allocation. -/
def put (m : Memory) (k : Nat) (v : Value) : Memory :=
  { m with heap := m.heap.setIfInBounds k v }

theorem store_heap (cell : m.heap[k]? = some (.agg items)) (inside : i < items.length) (v : Value) :
    m.store (element k i) v = .ok (m.put k (.agg (items.set i v))) := by
  have item : items[i]? = some items[i] := List.getElem?_eq_getElem inside
  simp [store, write, written, guardWrite, root, Value.asPointer, Region.root, Pointer.child, cell,
    Value.replace, item, Except.map, setRoot, put, Bind.bind, Except.bind, pure, Except.pure]

theorem store_cell (inside : k < m.heap.size) (v : Value) :
    m.store (address k) v = .ok (m.put k v) := by
  have cell : m.heap[k]? = some m.heap[k] := Array.getElem?_eq_getElem inside
  simp [store, write, written, guardWrite, root, Value.asPointer, Region.root, cell,
    Value.replace, setRoot, put, Bind.bind, Except.bind, pure, Except.pure]

@[simp] theorem globals_put (m : Memory) (k : Nat) (v : Value) : (m.put k v).globals = m.globals :=
  rfl

@[simp] theorem size_put (m : Memory) (k : Nat) (v : Value) :
    (m.put k v).heap.size = m.heap.size := by
  simp [put]

theorem heap_put (inside : k < m.heap.size) (v : Value) : (m.put k v).heap[k]? = some v := by
  simp [put, Array.getElem?_setIfInBounds_self_of_lt inside]

theorem heap_put_ne {j : Nat} (v : Value) (apart : j ≠ k) : (m.put k v).heap[j]? = m.heap[j]? := by
  simp [put, Array.getElem?_setIfInBounds_ne apart.symm]

theorem put_put (m : Memory) (k : Nat) (u v : Value) : (m.put k u).put k v = m.put k v := by
  simp [put]

theorem put_same (cell : m.heap[k]? = some v) : m.put k v = m := by
  obtain ⟨inside, isValue⟩ := Array.getElem?_eq_some_iff.mp cell
  have same : m.heap.setIfInBounds k v = m.heap := by
    subst isValue
    simp [Array.setIfInBounds, inside]
  simp [put, same]

theorem lt_of_heap (cell : m.heap[k]? = some v) : k < m.heap.size :=
  (Array.getElem?_eq_some_iff.mp cell).1

/-- The memory with a new allocation. -/
def push (m : Memory) (v : Value) : Memory := { m with heap := m.heap.push v }

@[simp] theorem globals_push (m : Memory) (v : Value) : (m.push v).globals = m.globals := rfl

@[simp] theorem size_push (m : Memory) (v : Value) : (m.push v).heap.size = m.heap.size + 1 := by
  simp [push]

@[simp] theorem heap_push (m : Memory) (v : Value) : (m.push v).heap[m.heap.size]? = some v := by
  simp [push]

theorem heap_push_lt (v : Value) (cell : m.heap[k]? = some v') : (m.push v).heap[k]? = some v' :=
  getElem?_push_of_some cell

theorem put_push (m : Memory) (u v : Value) : (m.push u).put m.heap.size v = m.push v := by
  have same : (m.heap.push u).setIfInBounds m.heap.size v = m.heap.push v := by
    apply Array.ext_getElem?
    intro i
    rw [Array.getElem?_setIfInBounds, Array.getElem?_push, Array.getElem?_push]
    by_cases last : i = m.heap.size
    · simp [last]
    · simp [last, Ne.symm last]
  simp [put, push, same]

/-! ## What stays -/

/-- Globals stay, and so do allocations but for those that are named. -/
structure Keeps (but : List Nat) (m m' : Memory) : Prop where
  globals : m'.globals = m.globals
  size : m.heap.size ≤ m'.heap.size
  heap : ∀ j v, j ∉ but → m.heap[j]? = some v → m'.heap[j]? = some v

theorem Keeps.refl (but : List Nat) (m : Memory) : m.Keeps but m :=
  ⟨rfl, Nat.le_refl _, fun _ _ _ h => h⟩

theorem Keeps.trans {but : List Nat} (h : m.Keeps but m') (h' : m'.Keeps but m'') :
    m.Keeps but m'' :=
  ⟨h'.globals.trans h.globals, Nat.le_trans h.size h'.size,
    fun j v apart cell => h'.heap j v apart (h.heap j v apart cell)⟩

theorem Keeps.weaken {but but' : List Nat} (h : m.Keeps but m') (more : but ⊆ but') :
    m.Keeps but' m' :=
  ⟨h.globals, h.size, fun j v apart => h.heap j v fun inside => apart (more inside)⟩

/-- What changes is new. -/
theorem Keeps.of_new {but : List Nat} (h : m.Keeps but m') (new : ∀ j ∈ but, m.heap.size ≤ j) :
    m.Keeps [] m' := by
  refine ⟨h.globals, h.size, fun j v _ cell => h.heap j v (fun inside => ?_) cell⟩
  have := new j inside
  have := lt_of_heap cell
  omega

theorem keeps_put (m : Memory) (k : Nat) (v : Value) : m.Keeps [k] (m.put k v) := by
  refine ⟨rfl, by simp, fun j u apart cell => ?_⟩
  rw [heap_put_ne v (by simpa using apart)]
  exact cell

theorem keeps_push (m : Memory) (v : Value) : m.Keeps [] (m.push v) :=
  ⟨rfl, by simp, fun _ _ _ cell => heap_push_lt v cell⟩

end Memory

/-! ## Boxes -/

/-- A record or an array. -/
def Value.isAggregate : Value → Bool
  | .agg _ => true
  | _ => false

@[simp] theorem Value.isAggregate_agg (items : List Value) :
    (Value.agg items).isAggregate = true := rfl

theorem filter_set {α : Type} {p : α → Bool} {as : List α} {k : Nat} {a b : α}
    (here : as[k]? = some a)
    (notOld : p a = false) (notNew : p b = false) : (as.set k b).filter p = as.filter p := by
  induction as generalizing k with
  | nil => rfl
  | cons c cs ih =>
    cases k with
    | zero =>
      obtain rfl : c = a := by simpa using here
      simp [notOld, notNew]
    | succ k =>
      have rest := ih (k := k) (by simpa using here)
      simp only [List.set_cons_succ, List.filter_cons, rest]

namespace Memory

variable {m m' m'' : Memory} {k : Nat} {items : List Value} {v : Value} {but : List Nat}

/-- What the allocations hold that are no records or arrays, in the order in which they were
made. -/
def boxes (m : Memory) : List Value := m.heap.toList.filter (!·.isAggregate)

theorem boxes_of_heap {values : List Value} (heap : m.heap.toList = values)
    (scalar : ∀ v ∈ values, v.isAggregate = false) : m.boxes = values := by
  rw [boxes, heap, List.filter_eq_self]
  intro v inside
  rw [scalar v inside]
  rfl

theorem boxes_push_agg (m : Memory) (items : List Value) :
    (m.push (.agg items)).boxes = m.boxes := by
  simp [boxes, push]

theorem boxes_push (m : Memory) (scalar : v.isAggregate = false) :
    (m.push v).boxes = m.boxes ++ [v] := by
  simp [boxes, push, scalar]

theorem boxes_put (cell : m.heap[k]? = some (.agg items)) (items' : List Value) :
    (m.put k (.agg items')).boxes = m.boxes := by
  simp only [boxes, put, Array.toList_setIfInBounds]
  exact filter_set (by simpa using cell) rfl rfl

/-- Globals and boxes stay, and so do allocations but for those that are named. -/
structure Arranges (but : List Nat) (m m' : Memory) : Prop extends m.Keeps but m' where
  boxes : m'.boxes = m.boxes

theorem Arranges.refl (but : List Nat) (m : Memory) : m.Arranges but m := ⟨.refl _ _, rfl⟩

theorem Arranges.trans (h : m.Arranges but m') (h' : m'.Arranges but m'') : m.Arranges but m'' :=
  ⟨h.toKeeps.trans h'.toKeeps, h'.boxes.trans h.boxes⟩

theorem Arranges.weaken {but' : List Nat} (h : m.Arranges but m') (more : but ⊆ but') :
    m.Arranges but' m' := ⟨h.toKeeps.weaken more, h.boxes⟩

theorem arranges_push (m : Memory) (items : List Value) : m.Arranges [] (m.push (.agg items)) :=
  ⟨keeps_push _ _, boxes_push_agg _ _⟩

theorem arranges_put (cell : m.heap[k]? = some (.agg items)) (items' : List Value) :
    m.Arranges [k] (m.put k (.agg items')) := ⟨keeps_put _ _ _, boxes_put cell _⟩

end Memory

/-! ## Globals -/

namespace Memory

variable {mem mem' : Memory} {code : Module} {g : GlobalId} {c : Cell}

/-- The memory has all globals of the module, and those that are read-only as they are in the
module. -/
def Upholds (mem : Memory) (code : Module) : Prop :=
  ∀ (i : Nat) (c : Cell), (ofModule code).globals[i]? = some c →
    ∃ v, mem.globals[i]? = some { c with value := v } ∧ (c.readonly → v = c.value)

theorem upholds_ofModule (code : Module) : (ofModule code).Upholds code :=
  fun _ c known => ⟨c.value, known, fun _ => rfl⟩

theorem Upholds.keeps {but : List Nat} (h : mem.Upholds code) (keeps : mem.Keeps but mem') :
    mem'.Upholds code := by
  intro i c known
  rw [keeps.globals]
  exact h i c known

theorem store_global (known : mem.globals[g.raw]? = some c)
    (writable : c.readonly = false) (v : Value) :
    mem.store (.ptr (Region.global g).root) v = .ok (mem.setRoot v (.global g)) := by
  simp [store, write, written, guardWrite, root, Value.asPointer, Region.root, known, writable,
    Value.replace, Bind.bind, Except.bind, pure, Except.pure]

theorem Upholds.stored (h : mem.Upholds code) (known : (ofModule code).globals[g.raw]? = some c)
    (writable : c.readonly = false) (v : Value) : (mem.setRoot v (.global g)).Upholds code := by
  intro i c' known'
  obtain ⟨u, here, same⟩ := h i c' known'
  by_cases isOne : g.raw = i
  · subst isOne
    cases known.symm.trans known'
    exact ⟨v, by simp [setRoot, Array.getElem?_modify, here], by simp [writable]⟩
  · exact ⟨u, by simpa [setRoot, Array.getElem?_modify, isOne] using here, same⟩

@[simp] theorem heap_setRoot_global (mem : Memory) (v : Value) :
    (mem.setRoot v (.global g)).heap = mem.heap := rfl

end Memory

/-! ## New allocations -/

theorem lt_size_of_get_ptr {types : TypeTable} (isPtr : types.get .ptr = .ptr) :
    0 < types.size := by
  apply Nat.pos_of_ne_zero
  intro none
  have : types.types = #[] := Array.eq_empty_of_size_eq_zero none
  simp [TypeTable.get, this] at isPtr

theorem zeroValueAt_ptr {types : TypeTable} {depth : Nat} (isPtr : types.get .ptr = .ptr)
    (deep : 0 < depth) : zeroValueAt types depth .ptr = .null := by
  obtain ⟨n, rfl⟩ := Nat.exists_eq_add_of_lt deep
  simp [zeroValueAt, isPtr]

theorem zeroValue_record {types : TypeTable} {id : TyId} {n : Nat} (isPtr : types.get .ptr = .ptr)
    (fields : types.fields? id = some (List.replicate n .ptr)) :
    zeroValue types id = .agg (List.replicate n .null) := by
  have item := zeroValueAt_ptr isPtr (lt_size_of_get_ptr isPtr)
  unfold TypeTable.fields? at fields
  unfold zeroValue zeroValueAt
  split at fields
  · rename_i name known
    simp [known, fields, item]
  · rename_i known
    cases fields
    simp [known, item]
  · cases fields

theorem zeroValue_array {types : TypeTable} {id : TyId} {n : Nat} (isPtr : types.get .ptr = .ptr)
    (isArray : types.get id = .array .ptr n) :
    zeroValue types id = .agg (List.replicate n .null) := by
  have item := zeroValueAt_ptr isPtr (lt_size_of_get_ptr isPtr)
  simp [zeroValue, zeroValueAt, isArray, item]

theorem zeroValue_ptr {types : TypeTable} (isPtr : types.get .ptr = .ptr) :
    zeroValue types .ptr = .null :=
  zeroValueAt_ptr isPtr (by simp)

/-- A position is the element of that number, as far as it fits a word. -/
theorem elementIndex_capped (i : Nat) :
    elementIndex (Int64.ofNat (min i 0x7FFFFFFF)) = .ok (min i 0x7FFFFFFF) := by
  have value : (Int64.ofNat (min i 0x7FFFFFFF)).toInt = (min i 0x7FFFFFFF : Nat) :=
    Int64.toInt_ofNat_of_lt (by omega)
  simp only [elementIndex, value]
  rw [if_pos (by omega), Int.toNat_natCast]

theorem elementIndex_word {i : Nat} (fits : i < 0x80000000) :
    elementIndex (Int64.ofNat (min i 0x7FFFFFFF)) = .ok i := by
  rw [elementIndex_capped, Nat.min_eq_left (by omega)]

end Machine

namespace Work

variable {s : Setup} {w : Work}

/-- The types that are there from the start stay. -/
theorem Moment.get_of_start (h : Moment s w) {types : TypeTable} (more : w.code.types.Grows types)
    {id : TyId} {ty : Ty} (known : Work.start.code.types.get id = ty) (notVoid : ty ≠ .void)
    (whole : ∀ name, ty ≠ .named name none) : types.get id = ty :=
  TypeTable.get_of_grows (h.extends.code.types.trans more) known notVoid whole

theorem Moment.get_ptr (h : Moment s w) {types : TypeTable} (more : w.code.types.Grows types) :
    types.get .ptr = .ptr :=
  h.get_of_start more rfl (by simp) (by simp)

/-- A new closure has two empty fields. -/
theorem Moment.zeroValue_closure (h : Moment s w) {types : TypeTable}
    (more : w.code.types.Grows types) :
    Machine.zeroValue types startModule.1.closure = .agg [.null, .null] := by
  have fields : Work.start.code.types.fields? startModule.1.closure =
      some (List.replicate 2 .ptr) := by decide
  exact Machine.zeroValue_record (h.get_ptr more)
    (TypeTable.fields?_of_grows (h.extends.code.types.trans more) fields)

end Work

end ShapeCompiler
