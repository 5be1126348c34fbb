import ShapeCompiler.Proofs.Callees
import ShapeCompiler.Proofs.Comparisons
import ShapeCompiler.Proofs.LoadStore
import ShapeCompiler.Proofs.Meanings
import ShapeCompiler.Proofs.Resumption

/-!
# Variables in memory

A variable is a cell or a global with the address of a box in it, and the box holds a scalar. Boxes
never change, so several variables may share one; an assignment puts another address into the
variable.

* `Home`, `Layout`: where variables are kept, and `Scope.Describes`: that names refer to these
  places;
* `Memory.Variable`: a variable that holds a scalar;
* `Memory.Saves`: scalars stay in memory;
* `Point.Represents`: memory holds the values of variables; the rules follow what may happen to it.

Operators have cells of their own for truth values, which do change. No variable may share such a
cell, so these are listed as hidden.
-/

namespace ShapeCompiler

open Source Code Work Machine

/-! ## Scalars -/

namespace Source.Scalar

/-- The scalar at run time. -/
def value : Scalar → Value
  | .number x => .float x
  | .text s => .text s
  | .boolean b => .bool b

theorem scalar_value (v : Scalar) : v.prim.info.Scalar v.value := by cases v <;> constructor

theorem isTrue_value (v : Scalar) : v.value.isTrue = v.truthy := by cases v <;> rfl

theorem same_value (a b : Scalar) : a.value.same b.value =
    a.same b := by cases a <;> cases b <;> rfl

theorem value_ne_address (v : Scalar) (k : Nat) : v.value ≠ address k := by cases v <;> simp [value]

end Source.Scalar

/-! ## Places -/

/-- Where a variable is kept: in a cell of its own, or in a global. -/
inductive Home where
  | cell (ptr : ValueId)
  | global (id : GlobalId)

namespace Home

variable {ρ ρ' : Valuation} {size size' : Nat} {h : Home}

/-- What a name means whose variable is kept there. -/
def binding (τ : Prim) : Home → Binding
  | .cell ptr => .cell ptr τ.info
  | .global id => .global id τ.info

/-- The address of the cell or of the global. -/
def address (ρ : Valuation) : Home → Value
  | .cell ptr => ρ ptr
  | .global id => .ptr (Region.global id).root

/-- The address of the cell is a value of the body. -/
def Inside (size : Nat) : Home → Prop
  | .cell ptr => ptr.raw < size
  | .global _ => True

/-- In the cell's place there is the address of a cell. -/
def Fits (ρ : Valuation) : Home → Prop
  | .cell ptr => ∃ k, ρ ptr = ShapeCompiler.Machine.address k
  | .global _ => True

theorem Inside.mono (inside : h.Inside size) (le : size ≤ size') : h.Inside size' := by
  cases h with
  | cell ptr => exact Nat.lt_of_lt_of_le inside le
  | global id => trivial

/-- The global is one of the first ones. -/
def Below (n : Nat) : Home → Prop
  | .cell _ => True
  | .global id => id.raw < n

theorem Below.mono {m n : Nat} (below : h.Below m) (le : m ≤ n) : h.Below n := by
  cases h with
  | cell ptr => trivial
  | global id => exact Nat.lt_of_lt_of_le below le

/-- No place is that of a global behind the first ones. -/
theorem Below.address_ne {n : Nat} (below : h.Below n) (fits : h.Fits ρ) :
    h.address ρ ≠ .ptr (Region.global ⟨n⟩).root := by
  cases h with
  | cell ptr =>
    obtain ⟨k, isAddress⟩ := fits
    intro same
    cases isAddress.symm.trans same
  | global id =>
    intro same
    cases same
    exact Nat.lt_irrefl _ below

theorem address_eq (inside : h.Inside size) (kept : ∀ v, v.raw < size → ρ' v = ρ v) :
    h.address ρ' = h.address ρ := by
  cases h with
  | cell ptr => exact kept ptr inside
  | global id => rfl

theorem Fits.kept (fits : h.Fits ρ) (inside : h.Inside size)
    (kept : ∀ v, v.raw < size → ρ' v = ρ v) :
    h.Fits ρ' := by
  cases h with
  | cell ptr =>
    obtain ⟨k, isAddress⟩ := fits
    exact ⟨k, (kept ptr inside).trans isAddress⟩
  | global id => trivial

end Home

/-- The variables in view, the innermost first, with the places where they are kept. -/
abbrev Layout := List (Name × Home × Prim)

def Layout.typing (Δ : Layout) : Typing := Δ.map fun e => (e.1, e.2.2)

theorem Layout.find?_typing (n : Name) (Δ : Layout) :
    Table.find? n Δ.typing = (Table.find? n Δ).map (·.2) :=
  Table.find?_map n (fun x : Home × Prim => x.2) Δ

/-- Names refer to the places of the variables, and those that no variable hides to the functions
that the program declares. -/
structure Scope.Describes (p : Program) (Δ : Layout) (scope : Scope) : Prop where
  names : ∀ n h τ, Table.find? n Δ = some (h, τ) → scope.lookup n = some (h.binding τ)
  functions : ∀ d decl, d ∈ p.ambients → p.decl d = .ok decl → Table.find? decl.name Δ = none →
    scope.lookup decl.name = some (.function d)

/-- A new variable. -/
theorem Scope.Describes.bind {p : Program} {Δ : Layout} {scope scope' : Scope} {n : Name}
    {h : Home} {τ : Prim}
    (describes : scope.Describes p Δ) (bound :
    scope'.bindings = scope.bindings.insert n (h.binding τ)) :
    scope'.Describes p ((n, h, τ) :: Δ) := by
  have lookup (m : Name) : scope'.lookup m = if n =
      m then some (h.binding τ) else scope.lookup m := by
    rw [Scope.lookup, bound, Table.get?_insert]
    rfl
  refine ⟨fun m h' τ' found => ?_, fun d decl declared isDecl free => ?_⟩
  · rw [lookup]
    change (if n = m then some (h, τ) else Table.find? m Δ) = some (h', τ') at found
    split at found
    · rename_i same
      cases found
      rw [if_pos same]
    · rename_i other
      rw [if_neg other]
      exact describes.names m h' τ' found
  · rw [lookup]
    change (if n = decl.name then some (h, τ) else Table.find? decl.name Δ) = none at free
    split at free
    · cases free
    · rename_i other
      rw [if_neg other]
      exact describes.functions d decl declared isDecl free

/-! ## Memory -/

namespace Machine.Memory

variable {m m' m'' : Memory} {hidden hidden' but but' : List Nat} {r : Region}
  {j k : Nat} {v u : Scalar}
  {a : Value}

theorem guardWrite_setRoot (m : Memory) (x : Value) (r r' : Region) :
    (m.setRoot x r).guardWrite r' = m.guardWrite r' := by
  cases r with
  | heap k => rfl
  | global id =>
    cases r' with
    | heap k => rfl
    | global id' =>
      simp only [guardWrite, setRoot, Array.getElem?_modify]
      by_cases same : id.raw = id'.raw
      · simp only [same, if_true]
        cases m.globals[id'.raw]? <;> rfl
      · simp only [same, if_false]

/-- The region is a global, or a cell with the address of a box. -/
def Slot (m : Memory) : Region → Prop
  | .heap k => ∃ j, m.heap[k]? = some (address j)
  | .global _ => True

theorem Slot.of_held (held : m.root r = .ok (address j)) : m.Slot r := by
  cases r with
  | heap k =>
    rw [root] at held
    split at held
    · rename_i there
      cases held
      exact ⟨j, there⟩
    · cases held
  | global id => trivial

/-- Where a scalar is, it is not changed by storing into a slot. -/
theorem heap_setRoot (slot : m.Slot r) (x : Value) (there : m.heap[k]? = some v.value) :
    (m.setRoot x r).heap[k]? = some v.value := by
  cases r with
  | global id => exact there
  | heap i =>
    have apart : i ≠ k := by
      rintro rfl
      obtain ⟨j, held⟩ := slot
      rw [there] at held
      exact v.value_ne_address j (Option.some.inj held)
    simpa [setRoot, Array.getElem?_setIfInBounds_ne apart] using there

/-- At the address there is a variable that holds the scalar: the address of a box, which is not
hidden, and another address may take its place. -/
inductive Variable (m : Memory) (hidden : List Nat) : Value → Scalar → Prop
  | mk {r : Region} {j : Nat} {v : Scalar} (held : m.root r = .ok (address j))
    (free : m.guardWrite r = .ok ())
    (box : m.heap[j]? = some v.value) (apart : j ∉ hidden) : Variable m hidden (.ptr r.root) v

namespace Variable

theorem load (h : m.Variable hidden a v) :
    ∃ j, m.load a = .ok (address j) ∧ m.heap[j]? = some v.value ∧ j ∉ hidden := by
  cases h with
  | @mk r j _ held free box apart =>
    refine ⟨j, load_read ?_ (by simp), box, apart⟩
    simp [read, Region.root, held, Value.follow, Bind.bind, Except.bind]

theorem keeps (h : m.Variable hidden a v) (keeps : m.Keeps [] m') : m'.Variable hidden a v := by
  cases h with
  | @mk r j _ held free box apart =>
    refine .mk ?_ ?_ (keeps.heap j _ (by simp) box) apart
    · cases r with
      | heap k =>
        simp only [root] at held ⊢
        cases there : m.heap[k]? with
        | none => simp [there] at held
        | some x =>
          rw [keeps.heap k x (by simp) there]
          simpa [there] using held
      | global id => simpa [root, keeps.globals] using held
    · cases r with
      | heap k => rfl
      | global id => simpa [guardWrite, keeps.globals] using free

/-- A cell that is hidden gets another truth value. -/
theorem put (h : m.Variable hidden a v) {b : Bool} (flag : m.heap[k]? = some (.bool b))
    (isHidden : k ∈ hidden)
    (x : Value) : (m.put k x).Variable hidden a v := by
  cases h with
  | @mk r j _ held free box apart =>
    refine .mk ?_ free ?_ apart
    · cases r with
      | heap i =>
        have other : i ≠ k := by
          rintro rfl
          rw [root, flag] at held
          cases held
        simpa [root, heap_put_ne _ other] using held
      | global id => exact held
    · rwa [heap_put_ne _ (by rintro rfl; exact apart isHidden)]

/-- Another variable gets another value. -/
theorem setRoot (h : m.Variable hidden a v) (slot : m.Slot r) (x : Value)
    (apart : a ≠ .ptr r.root) : (m.setRoot x r).Variable hidden a v := by
  cases h with
  | @mk r' j' _ held' free box notHidden =>
    have other : r' ≠ r := fun same => apart (by rw [same])
    refine .mk ?_ ?_ (heap_setRoot slot x box) notHidden
    · rw [root_setRoot_ne m x other, held']
    · rw [guardWrite_setRoot, free]

/-- The variable gets another value. -/
theorem stored (h : m.Variable hidden a v) (box : m.heap[j]? = some u.value) (apart : j ∉ hidden) :
    ∃ r i, a = .ptr r.root ∧ m.root r = .ok (address i) ∧ m.guardWrite r = .ok () ∧
      m.store a (address j) = .ok (m.setRoot (address j) r) ∧
      (m.setRoot (address j) r).Variable hidden a u := by
  cases h with
  | @mk r i _ held free _ _ =>
    refine ⟨r, i, rfl, held, free, ?_, .mk (root_setRoot held _) ?_
      (heap_setRoot (.of_held held) _ box) apart⟩
    · simp [store, Value.asPointer, write, written, Region.root, free, held,
        Value.replace, Bind.bind,
        Except.bind, Pure.pure, Except.pure]
    · rw [guardWrite_setRoot, free]

theorem hide (h : m.Variable hidden a v) (new : m.heap.size ≤ k) :
    m.Variable (k :: hidden) a v := by
  cases h with
  | @mk r j _ held free box apart =>
    refine .mk held free box ?_
    have := lt_of_heap box
    simp only [List.mem_cons, not_or]
    exact ⟨by omega, apart⟩

theorem unhide (h : m.Variable hidden a v) (fewer : hidden' ⊆ hidden) : m.Variable hidden' a v := by
  cases h with
  | mk held free box apart => exact .mk held free box fun inside => apart (fewer inside)

end Variable

/-- Scalars stay in memory, but for those in some allocations, and the globals of a module stay what
they are. -/
structure Saves (but : List Nat) (m m' : Memory) : Prop where
  size : m.heap.size ≤ m'.heap.size
  scalars : ∀ k (v : Scalar), k ∉ but → m.heap[k]? = some v.value → m'.heap[k]? = some v.value
  upholds : ∀ code, m.Upholds code → m'.Upholds code

namespace Saves

theorem refl (but : List Nat) (m : Memory) : m.Saves but m :=
    ⟨Nat.le_refl _, fun _ _ _ h => h, fun _ h => h⟩

theorem trans (h : m.Saves but m') (h' : m'.Saves but m'') : m.Saves but m'' :=
  ⟨Nat.le_trans h.size h'.size, fun k v apart cell =>
    h'.scalars k v apart (h.scalars k v apart cell),
    fun code upholds => h'.upholds code (h.upholds code upholds)⟩

theorem weaken (h : m.Saves but m') (more : but ⊆ but') : m.Saves but' m' :=
  ⟨h.size, fun k v apart => h.scalars k v fun inside => apart (more inside), h.upholds⟩

/-- What changes is new. -/
theorem of_new (h : m.Saves but m') (new : ∀ k ∈ but, m.heap.size ≤ k) : m.Saves [] m' := by
  refine ⟨h.size, fun k v _ cell => h.scalars k v (fun inside => ?_) cell, h.upholds⟩
  have := new k inside
  have := lt_of_heap cell
  omega

theorem of_keeps (h : m.Keeps but m') : m.Saves but m' :=
  ⟨h.size, fun k v apart => h.heap k v.value apart, fun _ upholds => upholds.keeps h⟩

/-- A variable gets another value. -/
theorem setRoot (slot : m.Slot r) (free : m.guardWrite r = .ok ()) (x : Value) :
    m.Saves [] (m.setRoot x r) := by
  refine ⟨?_, fun k v _ => heap_setRoot slot x, fun code upholds i c known => ?_⟩
  · cases r with
    | heap i => simp [Memory.setRoot]
    | global id => exact Nat.le_refl _
  · obtain ⟨u, here, same⟩ := upholds i c known
    cases r with
    | heap k => exact ⟨u, here, same⟩
    | global id =>
      by_cases isOne : id.raw = i
      · have writable : c.readonly = false := by
          rw [guardWrite, isOne, here] at free
          cases isReadonly : c.readonly with
          | false => rfl
          | true => simp [isReadonly] at free
        refine ⟨x, ?_, by simp [writable]⟩
        simp [Memory.setRoot, Array.getElem?_modify, isOne, here]
      · exact ⟨u, by simpa [Memory.setRoot, Array.getElem?_modify, isOne] using here, same⟩

end Saves

end Machine.Memory

/-! ## Variables at a point -/

namespace Point

variable {p p' : Point} {hidden hidden' : List Nat} {Δ : Layout} {vars : Variables}
  {n : Name} {h : Home}
  {τ : Prim} {v : Scalar}

/-- The place holds the value of the variable. -/
structure Stores (p : Point) (hidden : List Nat) (e : Name × Home × Prim) (u : Name × Scalar) :
    Prop where
  name : u.1 = e.1
  prim : u.2.prim = e.2.2
  inside : e.2.1.Inside p.size
  fits : e.2.1.Fits p.values
  holds : p.memory.Variable hidden (e.2.1.address p.values) u.2

/-- Memory holds the values of the variables, each in a place of its own, and in the hidden cells
truth values. -/
structure Represents (p : Point) (hidden : List Nat) (Δ : Layout) (vars : Variables) : Prop where
  each : List.Forall₂ (p.Stores hidden) Δ vars
  apart : (Δ.map fun e => e.2.1.address p.values).Nodup
  flags : ∀ k ∈ hidden, ∃ b, p.memory.heap[k]? = some (.bool b)

/-- Values of the body stay what they are. -/
structure Retains (p p' : Point) : Prop where
  size_le : p.size ≤ p'.size
  kept : ∀ v, v.raw < p.size → p'.values v = p.values v

theorem Retains.trans {p'' : Point} (h : p.Retains p') (h' : p'.Retains p'') : p.Retains p'' :=
  ⟨Nat.le_trans h.size_le h'.size_le, fun v inside => by
    rw [h'.kept v (Nat.lt_of_lt_of_le inside h.size_le), h.kept v inside]⟩

theorem Advances.retains {W : World} {units : Nat} {log : List Entry}
    (h : p.Advances W units log p') :
    p.Retains p' := ⟨h.size_le, h.kept⟩

/-- Where the address stays and the variable does, the place does. -/
theorem Stores.retains {e : Name × Home × Prim} {u : Name × Scalar} (h : p.Stores hidden e u)
    (retains : p.Retains p')
    (keeps : ∀ a, a = e.2.1.address p.values → p.memory.Variable hidden a u.2 →
      p'.memory.Variable hidden' a u.2) : p'.Stores hidden' e u := by
  refine ⟨h.name, h.prim, h.inside.mono retains.size_le, h.fits.kept h.inside retains.kept, ?_⟩
  rw [Home.address_eq h.inside retains.kept]
  exact keeps _ rfl h.holds

namespace Represents

theorem typing (h : p.Represents hidden Δ vars) : Variables.typing vars = Layout.typing Δ := by
  have each := h.each
  clear h
  induction each with
  | nil => rfl
  | @cons e u Δ vars stores _ ih =>
    change (u.1, u.2.prim) :: Variables.typing vars = (e.1, e.2.2) :: Layout.typing Δ
    rw [ih, stores.name, stores.prim]

theorem addresses (h : p.Represents hidden Δ vars) (retains : p.Retains p') :
    (Δ.map fun e => e.2.1.address p'.values) = Δ.map fun e => e.2.1.address p.values := by
  have each := h.each
  clear h
  induction each with
  | nil => rfl
  | cons stores _ ih =>
    rw [List.map_cons, List.map_cons, ih, Home.address_eq stores.inside retains.kept]

/-- What leaves the variables alone. -/
theorem mono (h : p.Represents hidden Δ vars) (retains : p.Retains p')
    (keeps : ∀ e ∈ Δ, ∀ u, p.memory.Variable hidden (e.2.1.address p.values) u →
      p'.memory.Variable hidden' (e.2.1.address p.values) u)
    (flags : ∀ k ∈ hidden', ∃ b, p'.memory.heap[k]? = some (.bool b)) :
    p'.Represents hidden' Δ vars := by
  refine ⟨?_, h.addresses retains ▸ h.apart, flags⟩
  have each : List.Forall₂ (fun e u => e ∈ Δ ∧ p.Stores hidden e u) Δ vars :=
    (List.forall₂_and_left _ _).mpr ⟨fun _ inside => inside, h.each⟩
  exact each.imp fun e u ⟨inside, stores⟩ => stores.retains retains fun a isAddress there => by
    subst isAddress
    exact keeps e inside u.2 there

theorem keeps (h : p.Represents hidden Δ vars) (retains : p.Retains p')
    (keeps : p.memory.Keeps [] p'.memory) : p'.Represents hidden Δ vars := by
  refine h.mono retains (fun _ _ u there => there.keeps keeps) fun k inside => ?_
  obtain ⟨b, flag⟩ := h.flags k inside
  exact ⟨b, keeps.heap k _ (by simp) flag⟩

/-- A new cell is hidden. -/
theorem hide (h : p.Represents hidden Δ vars) (retains : p.Retains p') {b : Bool}
    (memory : p'.memory = p.memory.push (.bool b)) :
    p'.Represents (p.memory.heap.size :: hidden) Δ vars := by
  refine h.mono retains (fun _ _ u there => ?_) fun k inside => ?_
  · rw [memory]
    exact (there.hide (Nat.le_refl _)).keeps (Memory.keeps_push _ _)
  · rw [memory]
    rcases List.mem_cons.mp inside with rfl | inside
    · exact ⟨b, Memory.heap_push _ _⟩
    · obtain ⟨b', flag⟩ := h.flags k inside
      exact ⟨b', Memory.heap_push_lt _ flag⟩

/-- A hidden cell gets another truth value. -/
theorem put (h : p.Represents hidden Δ vars) (retains : p.Retains p') {k : Nat}
    (isHidden : k ∈ hidden)
    {b : Bool} (memory : p'.memory = p.memory.put k (.bool b)) : p'.Represents hidden Δ vars := by
  obtain ⟨old, flag⟩ := h.flags k isHidden
  refine h.mono retains (fun _ _ u there => memory ▸ there.put flag isHidden _) fun i inside => ?_
  rw [memory]
  by_cases same : i = k
  · exact ⟨b, same ▸ Memory.heap_put (Memory.lt_of_heap flag) _⟩
  · rw [Memory.heap_put_ne _ same]
    exact h.flags i inside

theorem unhide (h : p.Represents hidden Δ vars) (fewer : hidden' ⊆ hidden) :
    p.Represents hidden' Δ vars :=
  h.mono ⟨Nat.le_refl _, fun _ _ => rfl⟩ (fun _ _ _ there => there.unhide fewer)
    fun k inside => h.flags k (fewer inside)

/-- A variable in view has a value, and a place that holds it. -/
theorem lookup (h : p.Represents hidden Δ vars) {home : Home}
    (found : Table.find? n Δ = some (home, τ)) :
    ∃ v, Table.find? n vars = some v ∧ v.prim = τ ∧ home.Inside p.size ∧
      p.memory.Variable hidden (home.address p.values) v := by
  have each := h.each
  clear h
  induction each with
  | nil => cases found
  | @cons e u Δ vars stores _ ih =>
    change (if e.1 = n then some e.2 else Table.find? n Δ) = some (home, τ) at found
    change ∃ v, (if u.1 = n then some u.2 else Table.find? n vars) = some v ∧ _
    rw [stores.name]
    split at found
    · rename_i isName
      obtain ⟨m, home', τ'⟩ := e
      cases found
      exact ⟨u.2, if_pos isName, stores.prim, stores.inside, stores.holds⟩
    · rename_i other
      rw [if_neg other]
      exact ih found

theorem prim (h : p.Represents hidden Δ vars) (found : Table.find? n vars = some v)
    (known : Table.find? n (Layout.typing Δ) = some τ) : v.prim = τ := by
  rw [← h.typing, Variables.find?_typing, found] at known
  exact Option.some.inj known

/-- A variable that has a value is kept somewhere. -/
theorem home (h : p.Represents hidden Δ vars) (found : Table.find? n vars = some v) :
    ∃ home, Table.find? n Δ = some (home, v.prim) ∧ home.Inside p.size ∧
      p.memory.Variable hidden (home.address p.values) v := by
  have typed : Table.find? n (Layout.typing Δ) = some v.prim := by
    rw [← h.typing, Variables.find?_typing, found]
    rfl
  rw [Layout.find?_typing] at typed
  obtain ⟨⟨home, τ⟩, there, rfl⟩ := Option.map_eq_some_iff.mp typed
  obtain ⟨u, isValue, _, inside, holds⟩ := h.lookup there
  cases found.symm.trans isValue
  exact ⟨home, there, inside, holds⟩

/-- A variable gets another value of its type, and the others keep theirs. -/
theorem assign (h : p.Represents hidden Δ vars) (retains : p.Retains p') {home : Home}
    (found : Table.find? n Δ = some (home, v.prim))
    (new : p'.memory.Variable hidden (home.address p.values) v)
    (others : ∀ a u, a ≠ home.address p.values → p.memory.Variable hidden a u →
    p'.memory.Variable hidden a u)
    (flags : ∀ k ∈ hidden, p'.memory.heap[k]? = p.memory.heap[k]?) :
    p'.Represents hidden Δ (Table.put n v vars) := by
  refine ⟨?_, h.addresses retains ▸ h.apart, fun k inside => flags k inside ▸ h.flags k inside⟩
  obtain ⟨each, apart, -⟩ := h
  induction each with
  | nil => cases found
  | @cons e u Δ vars stores tail ih =>
    obtain ⟨notThere, apart⟩ := List.nodup_cons.mp apart
    change (if e.1 = n then some e.2 else Table.find? n Δ) = some (home, v.prim) at found
    change List.Forall₂ (p'.Stores hidden) (e :: Δ)
      (if u.1 = n then (n, v) :: vars else u :: Table.put n v vars)
    rw [stores.name]
    split at found
    · rename_i isName
      rw [if_pos isName]
      obtain ⟨m, home', τ'⟩ := e
      cases found
      refine .cons ⟨isName.symm, rfl, stores.inside.mono retains.size_le,
        stores.fits.kept stores.inside retains.kept, ?_⟩ ?_
      · change p'.memory.Variable hidden (home.address p'.values) v
        rw [Home.address_eq stores.inside retains.kept]
        exact new
      · -- the places of the other variables are apart from this one
        have elsewhere : List.Forall₂ (fun e u => e.2.1.address p.values ≠ home.address p.values ∧
            p.Stores hidden e u) Δ vars := by
          refine List.forall₂_and_left _ _ |>.mpr ⟨fun e inside same => notThere ?_, tail⟩
          exact List.mem_map.mpr ⟨e, inside, same⟩
        exact elsewhere.imp fun e u placed => placed.2.retains retains fun a isAddress there =>
          others a u.2 (isAddress ▸ placed.1) there
    · rename_i other
      rw [if_neg other]
      refine .cons (stores.retains retains fun a isAddress there => others a u.2 ?_ there)
        (ih found apart)
      rintro rfl
      have inside : (n, home, v.prim) ∈ Δ := Table.mem_of_find?_eq_some found
      exact notThere (List.mem_map.mpr ⟨_, inside, isAddress⟩)

/-- One more variable. -/
theorem bind (h : p.Represents hidden Δ vars) {home : Home} (inside : home.Inside p.size)
    (fits : home.Fits p.values) (holds : p.memory.Variable hidden (home.address p.values) v)
    (new : ∀ e ∈ Δ, e.2.1.address p.values ≠ home.address p.values) :
    p.Represents hidden ((n, home, v.prim) :: Δ) ((n, v) :: vars) := by
  refine ⟨.cons ⟨rfl, rfl, inside, fits, holds⟩ h.each,
    List.nodup_cons.mpr ⟨fun there => ?_, h.apart⟩, h.flags⟩
  obtain ⟨e, listed, same⟩ := List.mem_map.mp there
  exact new e listed same

/-- What holds of each place that holds a value. -/
theorem forall_mem {P : Name × Home × Prim → Prop} (h : p.Represents hidden Δ vars)
    (of : ∀ e u, p.Stores hidden e u → P e) : ∀ e ∈ Δ, P e := by
  have each := h.each
  clear h
  induction each with
  | nil => exact List.forall_mem_nil _
  | cons stores _ ih => exact List.forall_mem_cons.mpr ⟨of _ _ stores, ih⟩

theorem inside (h : p.Represents hidden Δ vars) : ∀ e ∈ Δ, e.2.1.Inside p.size :=
  h.forall_mem fun _ _ stores => stores.inside

/-- Another point with the same values and memory, where the cells are still values of the body. -/
theorem moved (h : p.Represents hidden Δ vars) (values : p'.values = p.values)
    (memory : p'.memory = p.memory)
    (inside : ∀ e ∈ Δ, e.2.1.Inside p'.size) : p'.Represents hidden Δ vars := by
  refine ⟨?_, values ▸ h.apart, memory ▸ h.flags⟩
  have each : List.Forall₂ (fun e u => e ∈ Δ ∧ p.Stores hidden e u) Δ vars :=
    (List.forall₂_and_left _ _).mpr ⟨fun _ here => here, h.each⟩
  refine each.imp fun e u ⟨here, stores⟩ => ⟨stores.name, stores.prim, inside e here, values ▸
    stores.fits, ?_⟩
  rw [values, memory]
  exact stores.holds

/-- No variable is kept where memory ends. -/
theorem address_ne_new (h : p.Represents hidden Δ vars) :
    ∀ e ∈ Δ, e.2.1.address p.values ≠ address p.memory.heap.size := by
  refine h.forall_mem fun e u stores same => ?_
  have holds := stores.holds
  rw [same] at holds
  obtain ⟨j, loaded, -⟩ := holds.load
  simp [Memory.load, Value.asPointer, Memory.read, Memory.root, Region.root, address, Bind.bind,
    Except.bind] at loaded

/-- No variable is kept in a global behind the first ones. -/
theorem address_ne_global (h : p.Represents hidden Δ vars) {n : Nat}
    (below : ∀ e ∈ Δ, e.2.1.Below n) :
    ∀ e ∈ Δ, e.2.1.address p.values ≠ .ptr (Region.global ⟨n⟩).root := by
  intro e here
  have fits : ∀ e ∈ Δ, e.2.1.Fits p.values := h.forall_mem fun _ _ stores => stores.fits
  exact (below e here).address_ne (fits e here)

/-- The variables of a block are left behind. -/
theorem leave {inner Δ : Layout} {vars before : Variables}
    (h : p.Represents hidden (inner ++ Δ) vars)
    (length : before.length = Δ.length) : p.Represents hidden Δ (vars.leave before) := by
  have all : vars.length = inner.length + Δ.length := by simpa using h.each.length_eq.symm
  have here : vars.length - before.length = inner.length := by omega
  refine ⟨?_, ?_, h.flags⟩
  · have dropped := List.forall₂_drop inner.length h.each
    rwa [List.drop_left, ← here] at dropped
  · have apart := h.apart
    rw [List.map_append] at apart
    exact (List.nodup_append.mp apart).2.1

end Represents

end Point

end ShapeCompiler
