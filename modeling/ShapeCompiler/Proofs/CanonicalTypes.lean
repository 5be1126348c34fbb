import Mathlib.Data.List.Nodup
import ShapeCompiler.Source.Types

/-!
# Canonical types

What holds of the types of a store that was built with the constructors alone.

* `TypeStore.Form`, `TypeStore.make`: the constructors as data;
* `TypeStore.Builds`: some constructor after the other, each applied to types that are there;
* `TypeStore.Canonical`: no type is stored twice, and unions and intersections are flat;
* `canonical_types`: a store that was built from the fresh one is so, its ids keep their types, and
  how types are grouped before they are united makes no difference.

Flattening takes one level away, which is enough because the types that are there are flat. Unions
and intersections are treated alike as a `Joint`; they differ in whether repetitions are dropped.
-/

namespace ShapeCompiler.Source.TypeStore

variable {ts T : TypeStore} {t u : TypeId} {ms xs ys zs : List TypeId} {e : TypeExpr}

/-! ## Each once -/

theorem addNew_append (seen l l' : List TypeId) :
    addNew seen (l ++ l') = addNew (addNew seen l) l' := by
  induction l generalizing seen with
  | nil => rfl
  | cons t rest ih => exact ih _

theorem mem_addNew {seen l : List TypeId} : t ∈ addNew seen l ↔ t ∈ seen ∨ t ∈ l := by
  induction l generalizing seen with
  | nil => simp [addNew]
  | cons a rest ih =>
    rw [addNew, ih]
    by_cases known : a ∈ seen
    · rw [if_pos known]
      constructor
      · rintro (inside | inside)
        · exact .inl inside
        · exact .inr (List.mem_cons_of_mem _ inside)
      · rintro (inside | inside)
        · exact .inl inside
        · rcases List.mem_cons.mp inside with rfl | inside
          · exact .inl known
          · exact .inr inside
    · rw [if_neg known, List.mem_append, List.mem_singleton, List.mem_cons, or_assoc]

theorem nodup_addNew {seen : List TypeId} (h : seen.Nodup) (l : List TypeId) :
    (addNew seen l).Nodup := by
  induction l generalizing seen with
  | nil => exact h
  | cons t rest ih =>
    rw [addNew]
    by_cases known : t ∈ seen
    · rw [if_pos known]
      exact ih h
    · rw [if_neg known, ← List.concat_eq_append]
      exact ih (h.concat known)

/-- It makes no difference whether what is added has repetitions. -/
theorem addNew_addNew (seen acc l : List TypeId) :
    addNew seen (addNew acc l) = addNew (addNew seen acc) l := by
  induction l generalizing acc with
  | nil => rfl
  | cons t rest ih =>
    simp only [addNew, ih]
    by_cases known : t ∈ acc
    · rw [if_pos known, if_pos (mem_addNew.mpr (.inr known))]
    · rw [if_neg known, addNew_append]
      rfl

/-! ## Types in a store -/

/-- The id is that of a type of the store. -/
def Has (ts : TypeStore) (t : TypeId) : Prop := t.raw < ts.size

instance : Decidable (ts.Has t) := inferInstanceAs (Decidable (t.raw < ts.size))

/-- Types were added at the end. -/
def Extends (ts T : TypeStore) : Prop := ts.types.toList <+: T.types.toList

theorem Extends.refl (ts : TypeStore) : ts.Extends ts := List.prefix_refl _

theorem Extends.trans {ts' : TypeStore} (h : ts.Extends ts') (h' : ts'.Extends T) : ts.Extends T :=
  List.IsPrefix.trans h h'

theorem get_eq (ts : TypeStore) (t : TypeId) : ts.get t = ts.types[t.raw]?.getD .any := by
  rw [get, Array.getD_eq_getD_getElem?]

theorem has_of_getElem? (h : ts.types[t.raw]? = some e) : ts.Has t :=
  (Array.getElem?_eq_some_iff.mp h).1

theorem getElem?_of_has (h : ts.Has t) : ts.types[t.raw]? = some (ts.get t) := by
  rw [get_eq, Array.getElem?_eq_getElem h]
  rfl

theorem Extends.getElem? (h : ts.Extends T) (there : ts.Has t) :
    T.types[t.raw]? = some (ts.get t) := by
  obtain ⟨added, same⟩ := h
  rw [← getElem?_of_has there, ← Array.getElem?_toList, ← Array.getElem?_toList, ← same]
  exact List.getElem?_append_left (by simpa [Has, size] using there)

theorem Extends.has (h : ts.Extends T) (there : ts.Has t) : T.Has t :=
    has_of_getElem? (h.getElem? there)

theorem Extends.get (h : ts.Extends T) (there : ts.Has t) : T.get t = ts.get t := by
  rw [get_eq, h.getElem? there]
  rfl

theorem get_of_not_has (h : ¬ ts.Has t) : ts.get t = .any := by
  rw [get_eq, Array.getElem?_eq_none (Nat.le_of_not_lt h)]
  rfl

/-! ## Storing a type -/

theorem intern_of_mem (h : e ∈ ts.types.toList) :
    ∃ t, ts.intern e = (t, ts) ∧ ts.Has t ∧ ts.get t = e := by
  unfold intern
  cases found : ts.types.toList.findIdx? (· = e) with
  | none =>
    have absent := List.findIdx?_eq_none_iff.mp found e h
    simp at absent
  | some i =>
    obtain ⟨inside, isOne, -⟩ := List.findIdx?_eq_some_iff_getElem.mp found
    have here : ts.types[i]? = some e := by
      rw [← Array.getElem?_toList, List.getElem?_eq_getElem inside, of_decide_eq_true isOne]
    exact ⟨⟨i⟩, rfl, has_of_getElem? here, by rw [get_eq, here]; rfl⟩

theorem intern_of_not_mem (h : e ∉ ts.types.toList) :
    ts.intern e = (⟨ts.size⟩, ⟨ts.types.push e⟩) := by
  unfold intern
  have absent : ts.types.toList.findIdx? (· = e) = none :=
    List.findIdx?_eq_none_iff.mpr fun e' inside => by
      simpa using fun same : e' = e => h (same ▸ inside)
  rw [absent]

theorem extends_intern (ts : TypeStore) (e : TypeExpr) : ts.Extends (ts.intern e).2 := by
  by_cases known : e ∈ ts.types.toList
  · obtain ⟨t, same, -⟩ := intern_of_mem known
    rw [same]
    exact .refl ts
  · rw [intern_of_not_mem known]
    simp [Extends]

theorem has_intern (ts : TypeStore) (e : TypeExpr) : (ts.intern e).2.Has (ts.intern e).1 := by
  by_cases known : e ∈ ts.types.toList
  · obtain ⟨t, same, there, -⟩ := intern_of_mem known
    rw [same]
    exact there
  · rw [intern_of_not_mem known]
    simp [Has, size]

theorem get_intern (ts : TypeStore) (e : TypeExpr) : (ts.intern e).2.get (ts.intern e).1 = e := by
  by_cases known : e ∈ ts.types.toList
  · obtain ⟨t, same, -, isType⟩ := intern_of_mem known
    rw [same]
    exact isType
  · rw [intern_of_not_mem known]
    simp [get, size]

theorem nodup_intern (h : ts.types.toList.Nodup) (e : TypeExpr) :
    (ts.intern e).2.types.toList.Nodup := by
  by_cases known : e ∈ ts.types.toList
  · obtain ⟨t, same, -⟩ := intern_of_mem known
    rwa [same]
  · rw [intern_of_not_mem known, Array.toList_push, ← List.concat_eq_append]
    exact h.concat known

/-- The types of a store without repetitions are known by their ids. -/
theorem eq_of_get (h : ts.types.toList.Nodup) (hasT : ts.Has t) (hasU : ts.Has u)
    (same : ts.get t = ts.get u) : t = u := by
  have isT := getElem?_of_has hasT
  have isU := getElem?_of_has hasU
  rw [← Array.getElem?_toList] at isT isU
  have raw : t.raw = u.raw :=
    (List.getElem?_inj (by simpa [Has, size] using hasT) h).mp (isT.trans (by rw [same, isU]))
  cases t
  cases u
  cases raw
  rfl

/-- A type that is stored again has the id that it got first, and nothing is added. -/
theorem intern_again (h : T.types.toList.Nodup) (extended : (ts.intern e).2.Extends T) :
    T.intern e = ((ts.intern e).1, T) := by
  have there := extended.has (has_intern ts e)
  have isType : T.get (ts.intern e).1 = e := (extended.get (has_intern ts e)).trans
    (get_intern ts e)
  have known : e ∈ T.types.toList := by
    rw [← isType]
    exact Array.mem_def.mp (Array.mem_of_getElem? (getElem?_of_has there))
  obtain ⟨t, same, there', isType'⟩ := intern_of_mem known
  rw [same, eq_of_get h there' there (isType'.trans isType.symm)]

/-! ## Unions and intersections -/

/-- The types that join others. -/
inductive Joint where
  | union
  | intersection

namespace Joint

def wrap : Joint → List TypeId → TypeExpr
  | union => .union
  | intersection => .intersection

/-- What the type joins, or the type itself. -/
def membersIn (j : Joint) (ts : TypeStore) (t : TypeId) : List TypeId :=
  match j with
  | union => ts.unionMembers t
  | intersection => ts.intersectionMembers t

/-- Without the repetitions that the joined type does not keep. -/
def tidy : Joint → List TypeId → List TypeId
  | union => addNew []
  | intersection => id

/-- There are no repetitions that the joined type does not keep. -/
def Tidy : Joint → List TypeId → Prop
  | union => List.Nodup
  | intersection => fun _ => True

variable {j : Joint}

theorem wrap_inj (h : j.wrap xs = j.wrap ys) : xs = ys := by
  cases j <;> cases h <;> rfl

theorem mem_tidy : t ∈ j.tidy ms ↔ t ∈ ms := by
  cases j with
  | union => simp [tidy, mem_addNew]
  | intersection => rfl

theorem tidy_tidies (j : Joint) (ms : List TypeId) : j.Tidy (j.tidy ms) := by
  cases j with
  | union => exact nodup_addNew .nil ms
  | intersection => trivial

/-- What is between others may be made tidy first. -/
theorem tidy_inner (j : Joint) (xs ys zs : List TypeId) :
    j.tidy (xs ++ j.tidy ys ++ zs) = j.tidy (xs ++ ys ++ zs) := by
  cases j with
  | union => simp only [tidy, addNew_append, addNew_addNew, addNew]
  | intersection => rfl

theorem membersIn_of_wrap (h : ts.get t = j.wrap ms) : j.membersIn ts t = ms := by
  cases j with
  | union => simp [membersIn, unionMembers, show ts.get t = .union ms from h]
  | intersection => simp [membersIn, intersectionMembers, show ts.get t = .intersection ms from h]

theorem membersIn_of_ne (h : ∀ ms, ts.get t ≠ j.wrap ms) : j.membersIn ts t = [t] := by
  cases j with
  | union =>
    simp only [membersIn, unionMembers]
    split
    · rename_i ms isUnion
      exact absurd isUnion (h ms)
    · rfl
  | intersection =>
    simp only [membersIn, intersectionMembers]
    split
    · rename_i ms isOne
      exact absurd isOne (h ms)
    · rfl

end Joint

/-- The type that joins some types. -/
def join (ts : TypeStore) (j : Joint) (members : List TypeId) : TypeId × TypeStore :=
  match j.tidy (members.flatMap (j.membersIn ts)) with
  | [only] => (only, ts)
  | flat => ts.intern (j.wrap flat)

theorem join_union (ts : TypeStore) (ms : List TypeId) : ts.join .union ms = ts.union ms := rfl

theorem join_intersection (ts : TypeStore) (ms : List TypeId) :
    ts.join .intersection ms = ts.intersection ms := rfl

theorem join_congr {j : Joint} (same : j.tidy (xs.flatMap (j.membersIn ts)) =
    j.tidy (ys.flatMap (j.membersIn ts))) : ts.join j xs = ts.join j ys := by
  unfold join
  rw [same]

/-- Either there is one member, or the type that joins the members is stored. -/
theorem join_cases (ts : TypeStore) (j : Joint) (ms : List TypeId) :
    (∃ only, j.tidy (ms.flatMap (j.membersIn ts)) = [only] ∧ ts.join j ms = (only, ts)) ∨
    ((j.tidy (ms.flatMap (j.membersIn ts))).length ≠ 1 ∧
      ts.join j ms = ts.intern (j.wrap (j.tidy (ms.flatMap (j.membersIn ts))))) := by
  unfold join
  split
  · rename_i only isOne
    exact .inl ⟨only, isOne, rfl⟩
  · rename_i several
    exact .inr ⟨fun one => (List.length_eq_one_iff.mp one).elim fun a isOne => several a isOne, rfl⟩

/-! ## Canonical stores -/

/-- A type that is a union or an intersection joins several types that are there, or none. They are
not joined in the same way themselves. -/
def Fits (ts : TypeStore) (e : TypeExpr) : Prop :=
  ∀ j ms, e = Joint.wrap j ms → j.Tidy ms ∧ ms.length ≠ 1 ∧
    ∀ m ∈ ms, ts.Has m ∧ ∀ ms', ts.get m ≠ j.wrap ms'

/-- No type is stored twice, and all fit. -/
structure Canonical (ts : TypeStore) : Prop where
  nodup : ts.types.toList.Nodup
  fits (t : TypeId) : ts.Fits (ts.get t)

theorem Fits.extends (h : ts.Fits e) (more : ts.Extends T) : T.Fits e := by
  intro j ms isJoint
  obtain ⟨tidy, several, members⟩ := h j ms isJoint
  refine ⟨tidy, several, fun m inside => ?_⟩
  obtain ⟨there, flat⟩ := members m inside
  exact ⟨more.has there, fun ms' => by rw [more.get there]; exact flat ms'⟩

theorem fits_any (ts : TypeStore) : ts.Fits .any := by
  intro j ms isJoint
  cases j <;> cases isJoint

theorem canonical_fresh : fresh.Canonical where
  nodup := by decide
  fits t := by
    by_cases there : fresh.Has t
    · intro j ms isJoint
      have isOne := Array.mem_of_getElem? (getElem?_of_has there)
      rw [isJoint] at isOne
      cases j <;> simp [fresh, Joint.wrap] at isOne
    · rw [get_of_not_has there]
      exact fits_any _

theorem Canonical.intern (h : ts.Canonical) (new : ts.Fits e) : (ts.intern e).2.Canonical := by
  refine ⟨nodup_intern h.nodup e, fun t => ?_⟩
  have more := extends_intern ts e
  by_cases known : e ∈ ts.types.toList
  · obtain ⟨t', same, -⟩ := intern_of_mem known
    rw [same]
    exact h.fits t
  by_cases old : ts.Has t
  · rw [more.get old]
    exact (h.fits t).extends more
  · by_cases isNew : t = (ts.intern e).1
    · rw [isNew, get_intern]
      exact new.extends more
    · rw [get_of_not_has]
      · exact fits_any _
      · intro there
        rw [intern_of_not_mem known] at there isNew
        have last : t.raw = ts.size := by
          simp only [Has, size, Array.size_push] at there old ⊢
          omega
        exact isNew (by cases t; cases last; rfl)

/-- What a type joins is there and joined no further. -/
theorem Canonical.of_mem_membersIn (h : ts.Canonical) {j : Joint} (there : ts.Has t)
    (inside : u ∈ j.membersIn ts t) : ts.Has u ∧ ∀ ms, ts.get u ≠ j.wrap ms := by
  by_cases isJoint : ∃ ms, ts.get t = j.wrap ms
  · obtain ⟨ms, isJoint⟩ := isJoint
    rw [Joint.membersIn_of_wrap isJoint] at inside
    exact (h.fits t j ms isJoint).2.2 u inside
  · have single : ∀ ms, ts.get t ≠ j.wrap ms := fun ms isOne => isJoint ⟨ms, isOne⟩
    rw [Joint.membersIn_of_ne single] at inside
    obtain rfl := List.mem_singleton.mp inside
    exact ⟨there, single⟩

theorem Canonical.of_mem_flat (h : ts.Canonical) {j : Joint} (present : ∀ m ∈ ms, ts.Has m)
    (inside : u ∈ j.tidy (ms.flatMap (j.membersIn ts))) :
    ts.Has u ∧ ∀ ms', ts.get u ≠ j.wrap ms' := by
  obtain ⟨m, isMember, inside⟩ := List.mem_flatMap.mp (Joint.mem_tidy.mp inside)
  exact h.of_mem_membersIn (present m isMember) inside

theorem Canonical.join (h : ts.Canonical) (j : Joint) (present : ∀ m ∈ ms, ts.Has m) :
    (ts.join j ms).2.Canonical := by
  rcases join_cases ts j ms with ⟨only, -, same⟩ | ⟨several, same⟩
  · rw [same]
    exact h
  · rw [same]
    refine h.intern fun j' ms' isJoint => ?_
    obtain rfl : j = j' := by cases j <;> cases j' <;> first | rfl | cases isJoint
    obtain rfl := Joint.wrap_inj isJoint
    exact ⟨Joint.tidy_tidies j _, several, fun m inside => h.of_mem_flat present inside⟩

theorem extends_join (ts : TypeStore) (j : Joint) (ms : List TypeId) :
    ts.Extends (ts.join j ms).2 := by
  rcases join_cases ts j ms with ⟨only, -, same⟩ | ⟨-, same⟩
  · rw [same]
    exact .refl ts
  · rw [same]
    exact extends_intern ts _

theorem Canonical.has_join (h : ts.Canonical) (j : Joint) (present : ∀ m ∈ ms, ts.Has m) :
    (ts.join j ms).2.Has (ts.join j ms).1 := by
  rcases join_cases ts j ms with ⟨only, single, same⟩ | ⟨-, same⟩
  · rw [same]
    exact (h.of_mem_flat (j := j) present (by simp [single])).1
  · rw [same]
    exact has_intern ts _

/-- Types that are there have the members that they have had. -/
theorem membersIn_extends (j : Joint) (more : ts.Extends T) (there : ts.Has t) :
    j.membersIn T t = j.membersIn ts t := by
  cases j <;>
    simp only [Joint.membersIn, unionMembers, intersectionMembers, more.get there]

theorem flatMap_membersIn_extends (j : Joint) (more : ts.Extends T) (present : ∀ m ∈ ms, ts.Has m) :
    ms.flatMap (j.membersIn T) = ms.flatMap (j.membersIn ts) :=
  List.flatMap_congr fun m inside => membersIn_extends j more (present m inside)

/-- What a type joins that was made by joining types. -/
theorem Canonical.membersIn_join (h : ts.Canonical) (j : Joint) (present : ∀ m ∈ ms, ts.Has m)
    (more : (ts.join j ms).2.Extends T) :
    j.membersIn T (ts.join j ms).1 = j.tidy (ms.flatMap (j.membersIn ts)) := by
  rw [membersIn_extends j more (h.has_join j present)]
  rcases join_cases ts j ms with ⟨only, single, same⟩ | ⟨-, same⟩
  · rw [same, single]
    exact Joint.membersIn_of_ne (h.of_mem_flat (j := j) present (by simp [single])).2
  · rw [same]
    exact Joint.membersIn_of_wrap (get_intern ts _)

/-- How types are grouped before they are joined makes no difference. -/
theorem Canonical.join_grouped (h : ts.Canonical) (j : Joint) (present : ∀ m ∈ ys, ts.Has m)
    (more : (ts.join j ys).2.Extends T) (xs zs : List TypeId) :
    T.join j (xs ++ [(ts.join j ys).1] ++ zs) = T.join j (xs ++ ys ++ zs) := by
  have ungrouped : ys.flatMap (j.membersIn T) = ys.flatMap (j.membersIn ts) :=
    flatMap_membersIn_extends j ((extends_join ts j ys).trans more) present
  have same : j.tidy ((xs ++ [(ts.join j ys).1] ++ zs).flatMap (j.membersIn T)) =
      j.tidy ((xs ++ ys ++ zs).flatMap (j.membersIn T)) := by
    simp only [List.flatMap_append, List.flatMap_singleton,
      h.membersIn_join j present more, ungrouped]
    exact Joint.tidy_inner j _ _ _
  exact join_congr same

/-- Types that are joined again give the type that they gave first, and nothing is added. -/
theorem Canonical.join_again (later : T.Canonical) (j : Joint) (present : ∀ m ∈ ms, ts.Has m)
    (more : (ts.join j ms).2.Extends T) :
    T.join j ms = ((ts.join j ms).1, T) := by
  have flat : ms.flatMap (j.membersIn T) = ms.flatMap (j.membersIn ts) :=
    flatMap_membersIn_extends j ((extends_join ts j ms).trans more) present
  rcases join_cases ts j ms with ⟨only, single, same⟩ | ⟨several, same⟩
  · rw [same]
    unfold TypeStore.join
    rw [flat, single]
  · rw [same] at more ⊢
    rcases join_cases T j ms with ⟨only', single', -⟩ | ⟨-, same'⟩
    · rw [flat] at single'
      exact absurd (by rw [single']; rfl) several
    · rw [same', flat]
      exact intern_again later.nodup more

/-! ## Optional types -/

/-- One type is left beside `null` and `undefined`, and at least one of these is there. -/
def LeavesOne (flat : List TypeId) (t : TypeId) : Prop :=
  t ∈ flat ∧ ¬ t.isNullish ∧ (∀ m ∈ flat, ¬ m.isNullish → m = t) ∧ ∃ m ∈ flat, m.isNullish

theorem filter_eq_singleton_iff {α : Type} {p : α → Bool} {l : List α} {a : α}
    (distinct : l.Nodup) :
    l.filter p = [a] ↔ a ∈ l ∧ p a ∧ ∀ b ∈ l, p b → b = a := by
  constructor
  · intro isOne
    have only (b : α) : b ∈ l ∧ p b ↔ b = a := by rw [← List.mem_filter, isOne, List.mem_singleton]
    obtain ⟨inside, accepted⟩ := (only a).mpr rfl
    exact ⟨inside, accepted, fun b inside accepted => (only b).mp ⟨inside, accepted⟩⟩
  · rintro ⟨inside, accepted, others⟩
    have kept : a ∈ l.filter p := List.mem_filter.mpr ⟨inside, accepted⟩
    have same (b : α) (there : b ∈ l.filter p) : b = a :=
      others b (List.mem_filter.mp there).1 (List.mem_filter.mp there).2
    have distinct := distinct.filter p
    revert kept same distinct
    cases l.filter p with
    | nil => simp
    | cons b rest =>
      intro _ same distinct
      obtain rfl := same b List.mem_cons_self
      cases rest with
      | nil => rfl
      | cons c _ =>
        obtain rfl := same c (by simp)
        simp at distinct

/-- What is optional is found by what is joined. -/
theorem Canonical.optionalInner_eq_some_iff (h : ts.Canonical) (isUnion : ts.get u = .union ms) :
    ts.optionalInner u = some t ↔ LeavesOne ms t := by
  have distinct : ms.Nodup := (h.fits u .union ms isUnion).1
  unfold optionalInner
  rw [isUnion]
  dsimp only
  constructor
  · intro found
    split at found
    · rename_i only single
      obtain ⟨inside, accepted, others⟩ := (filter_eq_singleton_iff distinct).mp single
      split at found
      · rename_i nullish
        obtain rfl := Option.some.inj found
        exact ⟨inside, by simpa using accepted, fun m there accepted =>
          others m there (by simpa using accepted),
          List.any_eq_true.mp nullish⟩
      · cases found
    · cases found
  · rintro ⟨inside, accepted, others, nullish⟩
    have single : ms.filter (!·.isNullish) = [t] :=
      (filter_eq_singleton_iff distinct).mpr
        ⟨inside, by simpa using accepted, fun m there accepted =>
          others m there (by simpa using accepted)⟩
    rw [single]
    exact if_pos (List.any_eq_true.mpr nullish)

theorem optionalInner_of_ne (h : ∀ ms, ts.get u ≠ .union ms) : ts.optionalInner u = none := by
  unfold optionalInner
  split
  · rename_i ms isUnion
    exact absurd isUnion (h ms)
  · rfl

theorem leavesOne_congr (same : ∀ m, m ∈ xs ↔ m ∈ ys) : LeavesOne xs t ↔ LeavesOne ys t := by
  simp only [LeavesOne, same]

/-- A union is optional exactly if one type is left of its members beside `null` and `undefined`. -/
theorem Canonical.optionalInner_union (h : ts.Canonical) (later : T.Canonical)
    (present : ∀ m ∈ ms, ts.Has m)
    (more : (ts.union ms).2.Extends T) :
    T.optionalInner (ts.union ms).1 = some t ↔ LeavesOne (ms.flatMap ts.unionMembers) t := by
  rw [← join_union] at more ⊢
  have there := h.has_join .union present
  rw [leavesOne_congr fun _ => (Joint.mem_tidy (j := .union)).symm]
  change _ ↔ LeavesOne (Joint.union.tidy (ms.flatMap (Joint.union.membersIn ts))) t
  rcases join_cases ts .union ms with ⟨only, single, same⟩ | ⟨-, same⟩
  · -- one member is not left beside others
    have notUnion := (h.of_mem_flat (j := .union) present (u := only) (by simp [single])).2
    rw [same] at more ⊢ there
    rw [optionalInner_of_ne fun ms' => by rw [more.get there]; exact notUnion ms']
    rw [single]
    simp only [LeavesOne, List.mem_singleton]
    constructor
    · intro none
      cases none
    · rintro ⟨rfl, accepted, -, m, rfl, nullish⟩
      exact absurd nullish accepted
  · refine later.optionalInner_eq_some_iff ?_
    rw [more.get there, same, get_intern]
    rfl

/-! ## Building -/

/-- A type that is built from types that are there. -/
inductive Form where
  | instanceOf (decl : DeclId)
  | interface (decl : DeclId)
  | object (fields : List (Name × TypeId))
  | param (name : Name)
  | function (params : List TypeId) (ret : TypeId) (origin : Option DeclId)
  | union (members : List TypeId)
  | optional (t : TypeId)
  | intersection (members : List TypeId)

/-- The types that it is built from. -/
def Form.parts : Form → List TypeId
  | .object fields => fields.map (·.2)
  | .function params ret _ => params ++ [ret]
  | .union members | .intersection members => members
  | .optional t => [t]
  | _ => []

/-- Builds a type. -/
def make (ts : TypeStore) : Form → TypeId × TypeStore
  | .instanceOf decl => ts.intern (.instanceOf decl)
  | .interface decl => ts.intern (.interface decl)
  | .object fields => ts.intern (.object fields)
  | .param name => ts.intern (.param name)
  | .function params ret origin => ts.intern (.function params ret origin)
  | .union members => ts.union members
  | .optional t => ts.optional t
  | .intersection members => ts.intersection members

/-- The one store comes from the other by building types, each from types that are there by then. -/
inductive Builds (ts : TypeStore) : TypeStore → Prop
  | refl : Builds ts ts
  | make {T : TypeStore} (h : Builds ts T) (f : Form) (present : ∀ t ∈ f.parts, T.Has t) :
    Builds ts (T.make f).2

/-- What is built is one plain type, or joins types. -/
theorem make_cases (f : Form) : (∃ e, (∀ j ms, e ≠ Joint.wrap j ms) ∧
      ∀ T, make T f = T.intern e) ∨
    ∃ j ms, (∀ m ∈ ms, m ∈ f.parts ∨ m = .null) ∧ ∀ T, make T f = T.join j ms := by
  cases f with
  | union members => exact .inr ⟨.union, members, fun m inside => .inl inside, fun _ => rfl⟩
  | intersection members =>
    exact .inr ⟨.intersection, members, fun m inside => .inl inside, fun _ => rfl⟩
  | optional t => exact .inr ⟨.union, [t, .null], by simp [Form.parts], fun _ => rfl⟩
  | _ => exact .inl ⟨_, (by rintro (_ | _) ms same <;> cases same), fun _ => rfl⟩

theorem extends_make (ts : TypeStore) (f : Form) : ts.Extends (ts.make f).2 := by
  rcases make_cases f with ⟨e, -, same⟩ | ⟨j, ms, -, same⟩
  · rw [same]
    exact extends_intern ts e
  · rw [same]
    exact extends_join ts j ms

theorem Builds.extends (h : ts.Builds T) : ts.Extends T := by
  induction h with
  | refl => exact .refl ts
  | make _ f _ ih => exact ih.trans (extends_make _ f)

theorem has_null (h : fresh.Extends ts) : ts.Has .null := h.has (by decide)

/-- Building a type keeps a store canonical. -/
theorem Canonical.make (h : ts.Canonical) (hasNull : ts.Has .null) (f : Form)
    (present : ∀ t ∈ f.parts, ts.Has t) :
    (ts.make f).2.Canonical ∧ (ts.make f).2.Has (ts.make f).1 := by
  rcases make_cases f with ⟨e, plain, same⟩ | ⟨j, ms, among, same⟩
  · rw [same]
    exact ⟨h.intern fun j ms isJoint => absurd isJoint (plain j ms), has_intern ts e⟩
  · rw [same]
    have there : ∀ m ∈ ms, ts.Has m := fun m inside => by
      rcases among m inside with part | rfl
      · exact present m part
      · exact hasNull
    exact ⟨h.join j there, h.has_join j there⟩

/-- Every store that was built is canonical. -/
theorem Builds.canonical (h : fresh.Builds ts) : ts.Canonical := by
  induction h with
  | refl => exact canonical_fresh
  | make built f present ih => exact (ih.make (has_null built.extends) f present).1

theorem Builds.trans {ts' : TypeStore} (h : ts.Builds ts') (h' : ts'.Builds T) : ts.Builds T := by
  induction h' with
  | refl => exact h
  | make _ f present ih => exact ih.make f present

/-- A type that is built again has the id that it got first, and nothing is added. -/
theorem make_again (hasNull : ts.Has .null) (later : T.Canonical) (f : Form)
    (present : ∀ t ∈ f.parts, ts.Has t) (more : (ts.make f).2.Extends T) :
    T.make f = ((ts.make f).1, T) := by
  rcases make_cases f with ⟨e, -, same⟩ | ⟨j, ms, among, same⟩
  · rw [same] at more
    rw [same, same]
    exact intern_again later.nodup more
  · rw [same] at more
    rw [same, same]
    refine later.join_again j (fun m inside => ?_) more
    rcases among m inside with part | rfl
    · exact present m part
    · exact hasNull

/-- Unions are flat and without repetition, intersections are flat, none has a single member, and no
two ids have the same type. -/
structure InForm (ts : TypeStore) : Prop where
  apart : ∀ t u, ts.Has t → ts.Has u → ts.get t = ts.get u → t = u
  unions : ∀ t ms, ts.get t = .union ms → ms.Nodup ∧ ms.length ≠ 1 ∧
    ∀ m ∈ ms, ts.Has m ∧ ∀ ms', ts.get m ≠ .union ms'
  intersections : ∀ t ms, ts.get t = .intersection ms → ms.length ≠ 1 ∧
    ∀ m ∈ ms, ts.Has m ∧ ∀ ms', ts.get m ≠ .intersection ms'

theorem Canonical.inForm (h : ts.Canonical) : ts.InForm where
  apart _ _ := eq_of_get h.nodup
  unions t ms isUnion := h.fits t .union ms isUnion
  intersections t ms isOne := (h.fits t .intersection ms isOne).2

/-- The types of a store that is built from the fresh one are in a canonical form. Ids keep their
types while more is built, and what is built again has the id that it got first. Unions and
intersections do not depend on how their members were grouped by other ones, and a union is optional
exactly if one type is left of its members beside `null` and `undefined`. -/
theorem canonical_types (built : fresh.Builds ts) :
    ts.InForm ∧
    (∀ T, ts.Builds T → ∀ t, ts.Has t → T.Has t ∧ T.get t = ts.get t) ∧
    (∀ f, (∀ t ∈ f.parts, ts.Has t) → (ts.make f).2.Has (ts.make f).1 ∧
      ∀ T, (ts.make f).2.Builds T → T.make f = ((ts.make f).1, T)) ∧
    (∀ xs ys zs, (∀ t ∈ ys, ts.Has t) → ∀ T, (ts.union ys).2.Builds T →
      T.union (xs ++ [(ts.union ys).1] ++ zs) = T.union (xs ++ ys ++ zs)) ∧
    (∀ xs ys zs, (∀ t ∈ ys, ts.Has t) → ∀ T, (ts.intersection ys).2.Builds T →
      T.intersection (xs ++ [(ts.intersection ys).1] ++ zs) = T.intersection (xs ++ ys ++ zs)) ∧
    ∀ ms, (∀ t ∈ ms, ts.Has t) → ∀ T, (ts.union ms).2.Builds T → ∀ t,
      T.optionalInner (ts.union ms).1 = some t ↔ LeavesOne (ms.flatMap ts.unionMembers) t := by
  have canonical := built.canonical
  have hasNull := has_null built.extends
  refine ⟨canonical.inForm, fun T more t there => ⟨more.extends.has there, more.extends.get there⟩,
    fun f present => ⟨(canonical.make hasNull f present).2, fun T more => ?_⟩,
    fun xs ys zs present T more => ?_, fun xs ys zs present T more => ?_,
      fun ms present T more t => ?_⟩
  · exact make_again hasNull ((built.make f present).trans more).canonical f present more.extends
  · simp only [← join_union] at more ⊢
    exact canonical.join_grouped .union present more.extends xs zs
  · simp only [← join_intersection] at more ⊢
    exact canonical.join_grouped .intersection present more.extends xs zs
  · exact canonical.optionalInner_union ((built.make (.union ms) present).trans more).canonical
      present
      more.extends

/-- With the type of texts that may be missing. -/
def optionalText : TypeStore := (fresh.union [.text, .null, .text]).2

/-- The type of texts that may be missing is optional, and can stand for its members in a larger
union, as can that union in another. -/
theorem canonical_types_optionalText :
    fresh.Builds optionalText ∧ optionalText.InForm ∧ optionalText.optionalInner ⟨7⟩ = some .text ∧
    ∃ T, optionalText.Builds T ∧ T.get ⟨8⟩ = .union [.text, .null, .number] ∧
      T.get ⟨7⟩ = optionalText.get ⟨7⟩ ∧
      T.union ([.boolean] ++ [⟨8⟩] ++ [.undefined]) =
        T.union ([.boolean] ++ [⟨7⟩, .number] ++ [.undefined]) := by
  have built : fresh.Builds optionalText :=
    .make .refl (.union [.text, .null, .text]) (by decide)
  have more : optionalText.Builds (optionalText.union [⟨7⟩, .number]).2 :=
    .make .refl (.union [⟨7⟩, .number]) (by decide)
  obtain ⟨-, -, -, -, -, optional⟩ := canonical_types Builds.refl
  obtain ⟨inForm, stable, -, grouped, -, -⟩ := canonical_types built
  refine ⟨built, inForm, ?_, _, more, by decide, (stable _ more ⟨7⟩ (by decide)).2,
    grouped [.boolean] [⟨7⟩, .number] [.undefined] (by decide) _ .refl⟩
  refine (optional [.text, .null, .text] (by decide) _ .refl .text).mpr
    ⟨by decide, by decide, ?_, ?_⟩
  · decide
  · exact ⟨.null, by decide, by decide⟩

end ShapeCompiler.Source.TypeStore
