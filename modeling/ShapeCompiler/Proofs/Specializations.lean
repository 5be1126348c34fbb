import ShapeCompiler.Proofs.Shapes

/-!
# What the key of a body tells

A body is compiled once per key. The key lists what type parameters stand for, by layers and without
those that are hidden.

* `Bindings.find?_addMissing`, `Bindings.find?_layers`: what is found in such a list;
* `Bindings.find?_chainKey`: the key tells for every type parameter the slot of what it stands for.
-/

namespace ShapeCompiler

open Source Code

/-! ## Lists of entries -/

namespace Table

variable {α β γ : Type} [DecidableEq α]

theorem find?_append (k : α) (entries entries' : List (α × β)) :
    find? k (entries ++ entries') = (find? k entries).or (find? k entries') := by
  induction entries with
  | nil => simp [find?]
  | cons e rest ih =>
    simp only [List.cons_append, find?]
    split
    · simp
    · exact ih

theorem find?_map (k : α) (f : β → γ) (entries : List (α × β)) :
    find? k (entries.map fun e => (e.1, f e.2)) = (find? k entries).map f := by
  induction entries with
  | nil => rfl
  | cons e rest ih =>
    simp only [List.map_cons, find?]
    split
    · rfl
    · exact ih

/-- With each key at most once, an entry is found exactly if it is there. -/
theorem find?_eq_some_iff {k : α} {v : β} {entries : List (α × β)}
    (distinct : (entries.map Prod.fst).Nodup) : find? k entries = some v ↔ (k, v) ∈ entries := by
  induction entries with
  | nil => simp [find?]
  | cons e rest ih =>
    obtain ⟨a, b⟩ := e
    obtain ⟨new, distinct⟩ := List.nodup_cons.mp distinct
    by_cases isKey : a = k
    · subst isKey
      have absent : (a, v) ∉ rest := fun inside => new (List.mem_map.mpr ⟨_, inside, rfl⟩)
      simp [find?, absent, eq_comm]
    · have apart : (k, v) ≠ (a, b) := by
        rintro ⟨⟩
        exact isKey rfl
      simp [find?, isKey, ih distinct, apart]

theorem find?_perm {k : α} {entries entries' : List (α × β)} (perm : entries.Perm entries')
    (distinct : (entries.map Prod.fst).Nodup) : find? k entries = find? k entries' := by
  have distinct' : (entries'.map Prod.fst).Nodup := (perm.map Prod.fst).nodup_iff.mp distinct
  apply Option.ext
  intro v
  rw [find?_eq_some_iff distinct, find?_eq_some_iff distinct']
  exact perm.mem_iff

theorem find?_isSome_iff {k : α} {entries : List (α × β)} :
    (find? k entries).isSome ↔ k ∈ entries.map Prod.fst := by
  induction entries with
  | nil => simp [find?]
  | cons e rest ih =>
    by_cases isKey : e.1 = k
    · simp [find?, isKey]
    · simp [find?, isKey, ih, Ne.symm isKey]

end Table

/-! ## Bindings -/

namespace Bindings

/-- Entries whose names are there already add nothing. -/
theorem find?_addMissing (n : Name) (seen entries : List (Name × ShapeKey)) :
    Table.find? n (addMissing seen entries) = (Table.find? n seen).or (Table.find? n entries) := by
  induction entries generalizing seen with
  | nil => simp [addMissing, Table.find?]
  | cons e rest ih =>
    obtain ⟨n', k⟩ := e
    simp only [addMissing, ih]
    by_cases isName : n' = n
    · subst isName
      cases there : Table.find? n' seen with
      | some k' => simp [there]
      | none => simp [Table.find?_append, there, Table.find?]
    · by_cases there : (Table.find? n' seen).isSome
      · simp [there, Table.find?, isName]
      · simp [there, Table.find?_append, Table.find?, isName]

theorem addMissing_nodup {seen : List (Name × ShapeKey)} (distinct : (seen.map Prod.fst).Nodup)
    (entries : List (Name × ShapeKey)) : ((addMissing seen entries).map Prod.fst).Nodup := by
  induction entries generalizing seen with
  | nil => exact distinct
  | cons e rest ih =>
    obtain ⟨n, k⟩ := e
    apply ih
    split
    · exact distinct
    · rename_i new
      rw [Table.find?_isSome_iff] at new
      simp only [List.map_append, List.map_cons, List.map_nil]
      refine List.nodup_append.mpr ⟨distinct, by simp, ?_⟩
      intro a inside b isLast same
      rw [List.mem_singleton.mp isLast] at same
      exact new (same ▸ inside)

theorem find?_layers (n : Name) (layers : List (Table Name Info)) :
    Table.find? n (layers.flatMap layerKeys) =
      (layers.findSome? (·.get? n)).map Info.key := by
  induction layers with
  | nil => rfl
  | cons layer rest ih =>
    have own : Table.find? n (layerKeys layer) = (layer.get? n).map Info.key :=
      Table.find?_map n Info.key layer.entries
    rw [List.flatMap_cons, Table.find?_append, own, ih, List.findSome?_cons]
    cases layer.get? n <;> rfl

/-- The key of bindings tells the slot of what each parameter stands for. -/
theorem find?_chainKey (b : Bindings) (n : Name) :
    Table.find? n b.chainKey = (b.lookup n).map Info.key := by
  have distinct : ((addMissing [] (b.layers.flatMap layerKeys)).map Prod.fst).Nodup :=
    addMissing_nodup (by simp) _
  have sorted := (List.mergeSort_perm (addMissing [] (b.layers.flatMap layerKeys))
    (fun a b => decide (a.1.raw ≤ b.1.raw))).symm
  rw [chainKey, sortByName, ← Table.find?_perm sorted distinct, find?_addMissing, find?_layers]
  rfl

end Bindings

end ShapeCompiler
