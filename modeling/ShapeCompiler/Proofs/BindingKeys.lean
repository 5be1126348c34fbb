import ShapeCompiler.Proofs.Specializations

/-!
# The key of bindings is canonical

Bindings are layered, and a layer is a table without an order of its own. The key lists what all
layers together bind.

* `Bindings.Lists`: a list sorted by name that has the slot of each bound parameter and nothing
  else;
* `Bindings.Lists.unique`: there is one such list;
* `Bindings.Visited`: the entries of layers from the inside out, those of one layer in any order;
* `Bindings.chainKey_canonical`: the key is this list. So it is decided by what the parameters stand
  for, and it comes out the same whatever the order in which the entries of a layer are met.
-/

namespace ShapeCompiler

open Source Code

theorem Table.put_new {α β : Type} [DecidableEq α] {k : α} {entries : List (α × β)}
    (new : find? k entries = none) (v : β) : put k v entries = entries ++ [(k, v)] := by
  induction entries with
  | nil => rfl
  | cons e rest ih =>
    obtain ⟨a, b⟩ := e
    by_cases isKey : a = k
    · simp [find?, isKey] at new
    · simp only [find?, isKey, if_false] at new
      simp [put, isKey, ih new]

namespace Bindings

variable {b : Bindings} {layers : List (Table Name Info)} {visited : List (Name × Info)}
  {key key' : List (Name × ShapeKey)}

/-! ## Chains -/

/-- Bindings that come from none by opening layers and binding parameters. -/
inductive Made : Bindings → Prop
  | root : Made root
  | child {b : Bindings} : Made b → Made b.child
  | childFor {b : Bindings} (label : String) : Made b → Made (b.childFor label)
  | bind {b b' : Bindings} (param : Name) (info : Info) (text : String) :
      Made b → b.bind param info text = .ok b' → Made b'

/-- A layer binds each of its parameters once. -/
def BindsOnce (layer : Table Name Info) : Prop := (layer.entries.map Prod.fst).Nodup

theorem bindsOnce_empty : BindsOnce ∅ := List.nodup_nil

theorem BindsOnce.insert {layer : Table Name Info} (once : BindsOnce layer) {param : Name}
    (new : layer.contains param = false) (info : Info) : BindsOnce (layer.insert param info) := by
  have absent : Table.find? param layer.entries = none := by
    simpa [Table.contains, Table.get?] using new
  have unlisted : param ∉ layer.entries.map Prod.fst := by
    rw [← Table.find?_isSome_iff, absent]
    simp
  rw [BindsOnce, Table.insert, Table.put_new absent, List.map_append]
  refine List.nodup_append.mpr ⟨once, by simp, fun n inside n' last => ?_⟩
  obtain rfl : n' = param := by simpa using last
  rintro rfl
  exact unlisted inside

/-- Binding a parameter a second time in a layer is refused, so every layer binds it once. -/
theorem Made.bindsOnce (made : b.Made) : ∀ layer ∈ b.layers, BindsOnce layer := by
  induction made with
  | root => simpa [layers, Bindings.root] using bindsOnce_empty
  | child _ ih => exact List.forall_mem_cons.mpr ⟨bindsOnce_empty, ih⟩
  | childFor _ _ ih => exact List.forall_mem_cons.mpr ⟨bindsOnce_empty, ih⟩
  | bind param info _ _ bound ih =>
    rw [Bindings.bind] at bound
    split at bound
    · cases bound
    · rename_i new
      cases bound
      obtain ⟨own, outer⟩ := List.forall_mem_cons.mp ih
      exact List.forall_mem_cons.mpr ⟨own.insert (by simpa using new) info, outer⟩

/-! ## Sorted lists of what is bound -/

/-- The list is sorted by name and has exactly the slots that are found for the names. -/
structure Lists (find : Name → Option ShapeKey) (key : List (Name × ShapeKey)) : Prop where
  sorted : key.Pairwise fun e e' => e.1.raw < e'.1.raw
  mem_iff : ∀ n k, (n, k) ∈ key ↔ find n = some k

theorem Lists.unique {find : Name → Option ShapeKey} (h : Lists find key) (h' : Lists find key') :
    key = key' := by
  have nodup {keys : List (Name × ShapeKey)} (sorted :
    keys.Pairwise fun e e' => e.1.raw < e'.1.raw) :
      keys.Nodup := by
    refine sorted.imp fun less => ?_
    rintro rfl
    exact Nat.lt_irrefl _ less
  have perm : key.Perm key' := (List.perm_ext_iff_of_nodup (nodup h.sorted) (nodup h'.sorted)).mpr
    fun (n, k) => (h.mem_iff n k).trans (h'.mem_iff n k).symm
  exact perm.eq_of_pairwise (fun _ _ _ _ less less' => absurd less (Nat.lt_asymm less')) h.sorted
    h'.sorted

/-- Whatever the order in which the entries are collected, sorting them gives the list. -/
theorem lists_of_perm {entries : List (Name × ShapeKey)} (perm : key.Perm (addMissing [] entries))
    (sorted : key.Pairwise fun e e' => e.1.raw ≤ e'.1.raw) :
    Lists (fun n => Table.find? n entries) key := by
  have distinct : ((addMissing [] entries).map Prod.fst).Nodup := addMissing_nodup (by simp) entries
  have apart : (key.map Prod.fst).Nodup := (perm.map Prod.fst).nodup_iff.mpr distinct
  refine ⟨?_, fun n k => ?_⟩
  · refine (sorted.and (List.pairwise_map.mp apart)).imp ?_
    rintro ⟨⟨n⟩, k⟩ ⟨⟨n'⟩, k'⟩ ⟨le, ne⟩
    exact Nat.lt_of_le_of_ne le fun same => ne (congrArg Name.mk same)
  · rw [perm.mem_iff, ← Table.find?_eq_some_iff distinct, find?_addMissing]
    rfl

theorem lists_chainKey (b : Bindings) : Lists (fun n => (b.lookup n).map Info.key) b.chainKey := by
  have sorted : b.chainKey.Pairwise fun e e' => e.1.raw ≤ e'.1.raw := by
    have total : ∀ a b : Name × ShapeKey, (decide (a.1.raw ≤ b.1.raw) || decide
        (b.1.raw ≤ a.1.raw)) = true :=
      fun a b => by simpa using Nat.le_total a.1.raw b.1.raw
    have trans : ∀ a b c : Name × ShapeKey, decide (a.1.raw ≤ b.1.raw) = true →
        decide (b.1.raw ≤ c.1.raw) = true → decide (a.1.raw ≤ c.1.raw) = true := by
      intro a b c le le'
      simp only [decide_eq_true_eq] at le le' ⊢
      exact Nat.le_trans le le'
    exact (List.pairwise_mergeSort trans total (addMissing [] (b.layers.flatMap layerKeys))).imp
      of_decide_eq_true
  have listed := lists_of_perm (List.mergeSort_perm _ _) sorted
  simp only [find?_layers] at listed
  exact listed

/-! ## Layers in any order -/

/-- The entries of layers, from the inside out, those of one layer in any order. -/
inductive Visited : List (Table Name Info) → List (Name × Info) → Prop
  | nil : Visited [] []
  | layer {t : Table Name Info} {rest : List (Table Name Info)}
    {order visited : List (Name × Info)} :
      order.Perm t.entries → Visited rest visited → Visited (t :: rest) (order ++ visited)

/-- By induction on the layers: what is met first for a parameter is what it stands for. -/
theorem Visited.find? (h : Visited layers visited) (once : ∀ layer ∈ layers, BindsOnce layer)
    (n : Name) : Table.find? n visited = layers.findSome? (·.get? n) := by
  induction h with
  | nil => rfl
  | @layer t rest order visited perm _ ih =>
    obtain ⟨own, outer⟩ := List.forall_mem_cons.mp once
    have here : Table.find? n order = t.get? n := (Table.find?_perm perm.symm own).symm
    rw [Table.find?_append, here, ih outer, List.findSome?_cons]
    cases t.get? n <;> rfl

theorem Made.lists_of_visited (made : b.Made) (h : Visited b.layers visited)
    (perm : key.Perm (addMissing [] (visited.map fun e => (e.1, e.2.key))))
    (sorted : key.Pairwise fun e e' => e.1.raw ≤ e'.1.raw) :
    Lists (fun n => (b.lookup n).map Info.key) key := by
  have listed := lists_of_perm perm sorted
  simp only [Table.find?_map, h.find? made.bindsOnce] at listed
  exact listed

/-- The key of bindings is strictly sorted by name and has a name with a slot exactly if the name
stands for something of this slot. So two keys are equal exactly if every name stands for nothing
in both bindings or for things of one slot, in whatever layers it is bound. And for bindings that
were made layer by layer the key does not depend on the order in which the entries of a layer are
met, nor on the order in which they are collected before they are sorted. -/
theorem chainKey_canonical (b b' : Bindings) :
    b.chainKey.Pairwise (fun e e' => e.1.raw < e'.1.raw) ∧
    (∀ n k, (n, k) ∈ b.chainKey ↔ ∃ info, b.lookup n = some info ∧ info.key = k) ∧
    (b.chainKey = b'.chainKey ↔ ∀ n, (b.lookup n).map Info.key = (b'.lookup n).map Info.key) ∧
    (b.Made → ∀ visited, Visited b.layers visited → ∀ key : List (Name × ShapeKey),
      key.Perm (addMissing [] (visited.map fun e => (e.1, e.2.key))) →
      key.Pairwise (fun e e' => e.1.raw ≤ e'.1.raw) → key = b.chainKey) := by
  have listed := lists_chainKey b
  have listed' := lists_chainKey b'
  refine ⟨listed.sorted, fun n k => ?_, ⟨fun same n => ?_, fun alike => ?_⟩, ?_⟩
  · rw [listed.mem_iff, Option.map_eq_some_iff]
  · apply Option.ext
    intro k
    rw [← listed.mem_iff, ← listed'.mem_iff, same]
  · rw [funext alike] at listed
    exact listed.unique listed'
  · intro made visited visits key perm sorted
    exact (made.lists_of_visited visits perm sorted).unique listed

/-- Two parameters around, and one of them again inside. -/
def shadowing : Bindings where
  label := "map"
  own := ⟨[(⟨2⟩, .text)]⟩
  outer := [⟨[(⟨1⟩, .number), (⟨2⟩, .number)]⟩]

theorem made_shadowing : shadowing.Made :=
  .bind ⟨2⟩ .text "U"
    (.childFor "map" (.bind ⟨2⟩ .number "U" (.bind ⟨1⟩ .number "T" .root rfl) rfl)) rfl

theorem chainKey_canonical_shadowing :
    shadowing.Made ∧
    Visited shadowing.layers [(⟨2⟩, .text), (⟨2⟩, .number), (⟨1⟩, .number)] ∧
    [(⟨1⟩, .number), (⟨2⟩, .text)] = shadowing.chainKey := by
  have visits : Visited shadowing.layers [(⟨2⟩, .text), (⟨2⟩, .number), (⟨1⟩, .number)] :=
    .layer (.refl _) (.layer (.swap ..) .nil)
  refine ⟨made_shadowing, visits, ?_⟩
  exact (chainKey_canonical shadowing .root).2.2.2 made_shadowing _ visits _ (.swap ..) (by simp)

end Bindings

end ShapeCompiler
