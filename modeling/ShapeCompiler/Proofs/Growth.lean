import Mathlib.Data.List.Nodup
import Mathlib.Data.List.Perm.Subperm
import ShapeCompiler.Table
import ShapeCompiler.Code.Module

/-!
# What only grows

* `exists_of_bind_ok`: an answer in two steps;
* `Table.get?_insert`: an entry changes no other entry;
* `findIdx?_named_of_getElem?`: with distinct names, each thing is found by its name;
* `Chosen`: the base, or the base with the least positive suffix that is not taken, so a new name
  (`uniqueName_not_mem`);
* `TypeTable.Grows`: types keep their ids, and only a record without a body changes, by getting
  one; so the fields of a record are fixed once they are known (`fields?_of_grows`).
-/

namespace ShapeCompiler

/-! ## Answers -/

/-- Where an answer comes from two questions, both have answers. -/
theorem exists_of_bind_ok {ε α β : Type} {x : Except ε α} {f : α → Except ε β} {b : β}
    (h : x >>= f = .ok b) : ∃ a, x = .ok a ∧ f a = .ok b := by
  cases x with
  | error e => cases h
  | ok a => exact ⟨a, rfl, h⟩

theorem toOption_eq_some_iff {ε α : Type} {x : Except ε α} {a : α} :
    x.toOption = some a ↔ x = .ok a := by
  cases x <;> simp [Except.toOption]

/-! ## Tables -/

namespace Table

variable {α β : Type} [DecidableEq α]

theorem find?_put (k k' : α) (v : β) (entries : List (α × β)) :
    find? k' (put k v entries) = if k = k' then some v else find? k' entries := by
  induction entries with
  | nil => simp [put, find?]
  | cons e rest ih =>
    obtain ⟨a, b⟩ := e
    by_cases h : a = k
    · subst a
      by_cases hk : k = k' <;> simp [put, find?, hk]
    · by_cases hk : a = k'
      · subst a
        simp [put, find?, h, Ne.symm h]
      · simp [put, find?, h, hk, ih]

theorem get?_insert (t : Table α β) (k k' : α) (v : β) :
    (t.insert k v).get? k' = if k = k' then some v else t.get? k' :=
  find?_put k k' v t.entries

@[simp] theorem get?_insert_self (t : Table α β) (k : α) (v : β) :
    (t.insert k v).get? k = some v := by
  simp [get?_insert]

theorem get?_insert_ne (t : Table α β) {k k' : α} (v : β) (h : k ≠ k') :
    (t.insert k v).get? k' = t.get? k' := by
  simp [get?_insert, h]

theorem find?_filter_ne (k k' : α) (entries : List (α × β)) :
    find? k' (entries.filter fun e => e.1 ≠ k) = if k = k' then none else find? k' entries := by
  induction entries with
  | nil => simp [find?]
  | cons e rest ih =>
    obtain ⟨a, b⟩ := e
    by_cases isKey : a = k
    · subst isKey
      simp only [List.filter_cons, ne_eq, not_true, decide_false, Bool.false_eq_true,
        if_false, find?]
      by_cases same : a = k'
      · simpa [same] using ih
      · simpa [same] using ih
    · simp only [List.filter_cons, ne_eq, isKey, not_false_eq_true, decide_true, if_true, find?]
      by_cases same : a = k'
      · simp [same, show k ≠ k' from fun h => isKey (same.trans h.symm)]
      · simpa [same] using ih

theorem get?_erase (t : Table α β) (k k' : α) :
    (t.erase k).get? k' = if k = k' then none else t.get? k' := find?_filter_ne k k' t.entries

theorem mem_entries_of_get? {t : Table α β} {k : α} {v : β} (found : t.get? k = some v) :
    (k, v) ∈ t.entries := by
  obtain ⟨entries⟩ := t
  induction entries with
  | nil => cases found
  | cons entry rest ih =>
    obtain ⟨a, b⟩ := entry
    simp only [get?, find?] at found ih
    split at found
    · rename_i same
      cases found
      exact same ▸ List.mem_cons_self
    · exact List.mem_cons_of_mem _ (ih found)

theorem mem_of_get? {t : Table α β} {k : α} {v : β} (found : t.get? k = some v) :
    v ∈ t.entries.map Prod.snd := List.mem_map_of_mem (mem_entries_of_get? found)

/-- Whether something holds of all entries is decided entry by entry. -/
instance decidableForall {P : α → β → Prop} [∀ a b, Decidable (P a b)] (t : Table α β) :
    Decidable (∀ a b, t.get? a = some b → P a b) :=
  decidable_of_iff (∀ e ∈ t.entries, ∀ b ∈ t.get? e.1, P e.1 b)
    ⟨fun each a b found => each (a, b) (mem_entries_of_get? found) b found,
      fun all e _ b found => all e.1 b found⟩

@[simp] theorem get?_empty (k : α) : (∅ : Table α β).get? k = none := rfl

/-- What holds of all entries and of a new one holds of all entries after the insertion. -/
theorem forall_insert {P : α → β → Prop} {t : Table α β} {k : α} {v : β}
    (old : ∀ a b, t.get? a = some b → P a b) (new : P k v) :
    ∀ a b, (t.insert k v).get? a = some b → P a b := by
  intro a b h
  rw [get?_insert] at h
  split at h
  · rename_i same
    cases h
    exact same ▸ new
  · exact old a b h

end Table

/-! ## Positions -/

section

variable {α : Type} {xs : Array α} {i : Nat} {x y : α}

/-- Whoever deals with the members of a list one after the other, in the company of their positions,
meets each at the position of as many as were dealt with. -/
theorem of_zipIdx_append {as : List α} {a : α} {done rest : List (α × Nat)}
    (parts : as.zipIdx = done ++ (a, i) :: rest) : as[i]? = some a ∧ i = done.length := by
  have here : as.zipIdx[done.length]? = some (a, i) := by simp [parts]
  obtain ⟨b, isHere, isPair⟩ := Option.map_eq_some_iff.mp (List.getElem?_zipIdx ▸ here)
  obtain ⟨rfl, rfl⟩ : b = a ∧ done.length = i := by simpa using isPair
  exact ⟨isHere, rfl⟩

theorem getElem?_push_of_some (here : xs[i]? = some x) : (xs.push y)[i]? = some x := by
  have inside := (Array.getElem?_eq_some_iff.mp here).1
  rw [Array.getElem?_push, if_neg (Nat.ne_of_lt inside), here]

theorem of_getElem?_push (here : (xs.push x)[i]? = some y) :
    i = xs.size ∧ y = x ∨ xs[i]? = some y := by
  rw [Array.getElem?_push] at here
  split at here
  · exact .inl ⟨‹_›, (Option.some.inj here).symm⟩
  · exact .inr here

end

section Named

variable {α : Type} {name : α → String} {xs : Array α} {n : String}

theorem exists_of_findIdx?_named {i : Nat} (found : xs.toList.findIdx? (name · = n) = some i) :
    ∃ x, xs[i]? = some x ∧ name x = n := by
  obtain ⟨inside, isName, _⟩ := List.findIdx?_eq_some_iff_getElem.mp found
  exact ⟨_, Array.getElem?_eq_getElem (by simpa using inside), by simpa using isName⟩

theorem findIdx?_named_eq_none_iff :
    xs.toList.findIdx? (name · = n) = none ↔ n ∉ xs.toList.map name := by
  simp [List.findIdx?_eq_none_iff]

/-- With distinct names, each thing is found by its name. -/
theorem findIdx?_named_of_getElem? (distinct : (xs.toList.map name).Nodup) {i : Nat} {x : α}
    (here : xs[i]? = some x) : xs.toList.findIdx? (name · = name x) = some i := by
  cases found : xs.toList.findIdx? (name · = name x) with
  | none =>
    have listed : x ∈ xs.toList := by simpa using Array.mem_of_getElem? here
    exact absurd (List.mem_map.mpr ⟨x, listed, rfl⟩) (findIdx?_named_eq_none_iff.mp found)
  | some j =>
    obtain ⟨y, there, same⟩ := exists_of_findIdx?_named found
    have name_at {k : Nat} {z : α} (at_k : xs[k]? = some z) :
        (xs.toList.map name)[k]? = some (name z) := by simp [at_k]
    have inside := (List.getElem?_eq_some_iff.mp (name_at there)).1
    have alike := (name_at there).trans ((congrArg some same).trans (name_at here).symm)
    rw [(List.getElem?_inj inside distinct).mp alike]

/-- Behind a new name, all other names are found where they were. -/
theorem findIdx?_named_push {x : α} (new : name x ∉ xs.toList.map name) (n : String) :
    (xs.push x).toList.findIdx? (name · = n) =
      if n = name x then some xs.size else xs.toList.findIdx? (name · = n) := by
  rw [Array.toList_push, List.findIdx?_append, List.findIdx?_singleton]
  by_cases isName : n = name x
  · subst isName
    simp [findIdx?_named_eq_none_iff.mpr new]
  · simp [isName, Ne.symm isName]

theorem nodup_named_push (distinct : (xs.toList.map name).Nodup) {x : α}
    (new : name x ∉ xs.toList.map name) : ((xs.push x).toList.map name).Nodup := by
  rw [Array.toList_push, List.map_append]
  refine List.nodup_append.mpr ⟨distinct, by simp, fun a inside b last => ?_⟩
  obtain rfl : b = name x := by simpa using last
  rintro rfl
  exact new inside

end Named

/-! ## Names -/

namespace Code

theorem suffixed_injective (base : String) {m n : Nat} (h : suffixed base m = suffixed base n) :
    m = n := by
  have digits : (m + 1).repr = (n + 1).repr := (String.append_right_inj _).mp h
  have := congrArg (fun text => Nat.ofDigitChars 10 text.toList 0) digits
  simp only [Nat.toList_repr, Nat.ofDigitChars_ten_toDigits] at this
  omega

theorem exists_suffixed_not_mem (names : List String) (base : String) :
    ∃ c ∈ (List.range (names.length + 1)).map (suffixed base), c ∉ names := by
  apply Classical.byContradiction
  intro taken
  have within : (List.range (names.length + 1)).map (suffixed base) ⊆ names :=
    fun c hc => Classical.byContradiction fun h => taken ⟨c, hc, h⟩
  have distinct : ((List.range (names.length + 1)).map (suffixed base)).Nodup :=
    List.Nodup.map (fun _ _ => suffixed_injective base) List.nodup_range
  have fewer := (List.subperm_of_subset distinct within).length_le
  simp only [List.length_map, List.length_range] at fewer
  omega

/-- The base if it is not taken, else the base with the least suffix with which it is not. This is
what trying one suffix after the other ends with, after no more than one try for each name and one
more. -/
inductive Chosen (names : List String) (base : String) : String → Prop
  | base : base ∉ names → Chosen names base base
  | suffix {n : Nat} : base ∈ names → n ≤ names.length → suffixed base n ∉ names →
      (∀ i < n, suffixed base i ∈ names) → Chosen names base (suffixed base n)

theorem Chosen.free {names : List String} {base chosen : String} (h : Chosen names base chosen) :
    chosen ∉ names := by
  cases h <;> assumption

theorem chosen_uniqueName (names : List String) (base : String) :
    Chosen names base (uniqueName names base) := by
  unfold uniqueName
  split
  · rename_i taken
    obtain ⟨c, tried, free⟩ := exists_suffixed_not_mem names base
    cases found : ((List.range (names.length + 1)).map (suffixed base)).find? (· ∉ names) with
    | none => exact absurd free (by simpa using List.find?_eq_none.mp found c tried)
    | some name =>
      obtain ⟨isFree, n, bound, isName, before⟩ := List.find?_eq_some_iff_getElem.mp found
      simp only [List.length_map, List.length_range] at bound
      simp only [List.getElem_map, List.getElem_range] at isName before
      subst isName
      refine .suffix taken (Nat.le_of_lt_succ bound) (by simpa using isFree) fun i less => ?_
      simpa using before i less
  · exact .base ‹_›

theorem head?_uniqueName {base : String} {c : Char} (first : base.toList.head? = some c)
    (names : List String) : (uniqueName names base).toList.head? = some c := by
  have chosen := chosen_uniqueName names base
  generalize uniqueName names base = name at chosen ⊢
  cases chosen with
  | base => exact first
  | @suffix n =>
    change ((base ++ "." ++ toString (n + 1)).toList).head? = some c
    simp [first]

theorem uniqueName_not_mem (names : List String) (base : String) :
    uniqueName names base ∉ names :=
  (chosen_uniqueName names base).free

namespace Module

variable {m : Module} {name : String}

theorem functionByName_eq_none_iff :
    m.functionByName name = none ↔ name ∉ m.functionNames := by
  rw [functionByName, Option.map_eq_none_iff]
  exact findIdx?_named_eq_none_iff

theorem globalByName_eq_none_iff :
    m.globalByName name = none ↔ name ∉ m.globalNames := by
  rw [globalByName, Option.map_eq_none_iff]
  exact findIdx?_named_eq_none_iff

theorem functionByName_spec {f : FuncId} (found : m.functionByName name = some f) :
    ∃ fn, m.function? f = some fn ∧ fn.name = name := by
  obtain ⟨i, first, rfl⟩ := Option.map_eq_some_iff.mp found
  exact exists_of_findIdx?_named first

theorem globalByName_spec {g : GlobalId} (found : m.globalByName name = some g) :
    ∃ x, m.global? g = some x ∧ x.name = name := by
  obtain ⟨i, first, rfl⟩ := Option.map_eq_some_iff.mp found
  exact exists_of_findIdx?_named first

end Module

/-! ## Types -/

/-- The name of a record that has one. -/
def Ty.name? : Ty → Option String
  | .named name _ => some name
  | _ => none

namespace TypeTable

/-- Every type keeps its id and stays what it is, except that a record without a body may get
one. -/
def Grows (a b : TypeTable) : Prop :=
  ∀ (i : Nat) (ty : Ty), a.types[i]? = some ty →
    b.types[i]? = some ty ∨
      ∃ name body, ty = .named name none ∧ b.types[i]? = some (.named name (some body))

theorem Grows.refl (a : TypeTable) : a.Grows a := fun _ _ h => .inl h

theorem Grows.trans {a b c : TypeTable} (h : a.Grows b) (h' : b.Grows c) : a.Grows c := by
  intro i ty hi
  rcases h i ty hi with same | ⟨name, body, rfl, filled⟩
  · exact h' i ty same
  · rcases h' i _ filled with same | ⟨_, _, impossible, _⟩
    · exact .inr ⟨name, body, rfl, same⟩
    · cases impossible

theorem grows_push (t : TypeTable) (ty : Ty) : t.Grows (t.push ty).2 := by
  intro i x hi
  exact .inl (getElem?_push_of_some hi)

theorem grows_intern (t : TypeTable) (ty : Ty) : t.Grows (t.intern ty).2 := by
  unfold intern
  split
  · exact .refl t
  · exact grows_push t ty

theorem grows_named (t : TypeTable) (name : String) : t.Grows (t.named name).2 := by
  unfold named
  split
  · exact .refl t
  · exact grows_push t _

theorem grows_setBody (t : TypeTable) (id : TyId) (body : List TyId) :
    t.Grows (t.setBody id body).2 := by
  unfold setBody
  split
  · rename_i name found
    intro i ty hi
    by_cases same : id.raw = i
    · subst same
      rw [found] at hi
      cases hi
      exact .inr ⟨name, body, rfl, by simp [(Array.getElem?_eq_some_iff.mp found).1]⟩
    · exact .inl (by simpa [Array.getElem?_setIfInBounds, same] using hi)
  · exact .refl t
  · exact .refl t

theorem isNamed_iff {name : String} {ty : Ty} : isNamed name ty = true ↔ name ∈ ty.name? := by
  cases ty <;> simp [isNamed, Ty.name?]

/-- A record has this name. -/
def HasNamed (t : TypeTable) (name : String) : Prop := ∃ ty ∈ t.types.toList, isNamed name ty = true

theorem lookupNamed_eq_none_iff {t : TypeTable} {name : String} :
    t.lookupNamed name = none ↔ ¬ t.HasNamed name := by
  simp [lookupNamed, HasNamed, List.findIdx?_eq_none_iff]

theorem HasNamed.of_push {t : TypeTable} {ty : Ty} {name : String}
    (h : (t.push ty).2.HasNamed name) :
    t.HasNamed name ∨ isNamed name ty = true := by
  obtain ⟨there, inside, isName⟩ := h
  simp only [push, Array.toList_push, List.mem_append, List.mem_singleton] at inside
  rcases inside with old | rfl
  · exact .inl ⟨there, old, isName⟩
  · exact .inr isName

theorem HasNamed.of_intern {t : TypeTable} {ty : Ty} {name : String}
    (nameless : ∀ name, isNamed name ty = false) (h : (t.intern ty).2.HasNamed name) :
    t.HasNamed name := by
  unfold intern at h
  split at h
  · exact h
  · exact h.of_push.resolve_right (by simp [nameless])

theorem HasNamed.of_named {t : TypeTable} {name name' : String}
    (h : (t.named name).2.HasNamed name') :
    t.HasNamed name' ∨ name = name' := by
  unfold named at h
  split at h
  · exact .inl h
  · exact h.of_push.imp_right of_decide_eq_true

theorem HasNamed.of_setBody {t : TypeTable} {id : TyId} {body : List TyId} {name : String}
    (h : (t.setBody id body).2.HasNamed name) : t.HasNamed name := by
  unfold setBody at h
  split at h
  · rename_i name' found
    obtain ⟨ty, inside, isName⟩ := h
    rw [Array.toList_setIfInBounds] at inside
    rcases List.mem_or_eq_of_mem_set inside with old | rfl
    · exact ⟨ty, old, isName⟩
    · exact ⟨.named name' none, Array.mem_toList_iff.mpr (Array.mem_of_getElem? found), isName⟩
  · exact h
  · exact h

/-- The record of a name, with these fields unless it has others. -/
def record (t : TypeTable) (name : String) (fields : List TyId) : TyId × TypeTable :=
  ((t.named name).1, ((t.named name).2.setBody (t.named name).1 fields).2)

theorem HasNamed.of_record {t : TypeTable} {name name' : String} {fields : List TyId}
    (h : (t.record name fields).2.HasNamed name') : t.HasNamed name' ∨ name = name' :=
  HasNamed.of_named (HasNamed.of_setBody h)

theorem grows_record (t : TypeTable) (name : String) (fields : List TyId) :
    t.Grows (t.record name fields).2 :=
  (t.grows_named name).trans (grows_setBody _ _ _)

/-- The fields of a record never change. -/
theorem fields?_of_grows {a b : TypeTable} (h : a.Grows b) {id : TyId} {fields : List TyId}
    (known : a.fields? id = some fields) : b.fields? id = some fields := by
  cases found : a.types[id.raw]? with
  | none => simp [fields?, get, Array.getD_eq_getD_getElem?, found] at known
  | some ty =>
    rcases h id.raw ty found with same | ⟨name, body, rfl, _⟩
    · simpa [fields?, get, Array.getD_eq_getD_getElem?, found, same] using known
    · simp [fields?, get, Array.getD_eq_getD_getElem?, found] at known

/-- A type that is no record without a body stays what it is. -/
theorem get_of_grows {a b : TypeTable} (h : a.Grows b) {id : TyId} {ty : Ty}
    (known : a.get id = ty) (notVoid : ty ≠ .void) (whole : ∀ name, ty ≠ .named name none) :
    b.get id = ty := by
  cases found : a.types[id.raw]? with
  | none =>
    simp only [get, Array.getD_eq_getD_getElem?, found, Option.getD_none] at known
    exact absurd known.symm notVoid
  | some there =>
    simp only [get, Array.getD_eq_getD_getElem?, found, Option.getD_some] at known
    subst known
    rcases h id.raw there found with same | ⟨name, body, rfl, _⟩
    · simp [get, Array.getD_eq_getD_getElem?, same]
    · exact absurd rfl (whole name)

theorem get_intern (t : TypeTable) (ty : Ty) : (t.intern ty).2.get (t.intern ty).1 = ty := by
  unfold intern
  split
  · rename_i i found
    obtain ⟨inside, same, _⟩ := List.findIdx?_eq_some_iff_getElem.mp found
    have there : t.types[i]? = some ty := by
      simpa [Array.getElem?_eq_some_iff] using ⟨inside, by simpa using same⟩
    simp [get, Array.getD_eq_getD_getElem?, there]
  · simp [push, get, size, Array.getD_eq_getD_getElem?]

/-- A record under a new name gets the body it is given. -/
theorem fields?_record {t : TypeTable} {name : String} (body : List TyId)
    (fresh : t.lookupNamed name = none) :
    (t.record name body).2.fields? (t.record name body).1 = some body := by
  have added : t.named name = (⟨t.size⟩, ⟨t.types.push (.named name none)⟩) := by
    simp [named, fresh, push]
  simp [record, added, setBody, fields?, get, size, Array.getD_eq_getD_getElem?]

end TypeTable

end Code

end ShapeCompiler
