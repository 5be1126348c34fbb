import ShapeCompiler.Proofs.Conversions

/-!
# What a union keeps of its members

Members are told apart twice: by what is known of them, and by the slots that they ask for.

* `FirstOfEach`: of each kind the first element, in order; `firstOfEach_firsts` computes it;
* `Compile.splitNull_members`, `addSlots_eq`: both times, the first of each kind is kept;
* `UnionShape.slotForProp_iff`: properties lead to their slots and to nothing else;
* `unionInfo_represents`: null, the only member, or a union that represents all members.
-/

namespace ShapeCompiler

open Source Code Work

/-! ## The first of each kind -/

section First

variable {α κ : Type} [DecidableEq κ]

/-- Of each kind the first element, in the order in which the kinds appear. -/
structure FirstOfEach (kind : α → κ) (all kept : List α) : Prop where
  covers : ∀ x ∈ all, ∃ y ∈ kept, kind y = kind x
  first : ∀ y ∈ kept, all.find? (fun x => kind x = kind y) = some y
  ordered : (kept.map kind).Pairwise fun a b => (all.map kind).idxOf a < (all.map kind).idxOf b

/-- Goes through the elements from the end, and takes out what is of the kind of each one. -/
def firsts (kind : α → κ) : List α → List α
  | [] => []
  | x :: rest => x :: (firsts kind rest).filter fun y => kind y ≠ kind x

variable {kind : α → κ} {all kept : List α}

namespace FirstOfEach

theorem mem (h : FirstOfEach kind all kept) {y : α} (inside : y ∈ kept) : y ∈ all :=
  List.mem_of_find?_eq_some (h.first y inside)

theorem apart (h : FirstOfEach kind all kept) : (kept.map kind).Nodup :=
  h.ordered.imp fun before same => absurd (same ▸ before) (Nat.lt_irrefl _)

/-- Elements of their own kind each stay all. -/
theorem mem_iff {all kept : List κ} (h : FirstOfEach id all kept) {x : κ} : x ∈ kept ↔ x ∈ all := by
  refine ⟨h.mem, fun inside => ?_⟩
  obtain ⟨y, there, same⟩ := h.covers x inside
  obtain rfl : y = x := same
  exact there

/-- There is one list of first elements. -/
theorem unique {kept' : List α} (h : FirstOfEach kind all kept) (h' : FirstOfEach kind all kept') :
    kept = kept' := by
  have subset {kept kept' : List α} (h : FirstOfEach kind all kept)
      (h' : FirstOfEach kind all kept') : ∀ y ∈ kept, y ∈ kept' := by
    intro y inside
    obtain ⟨y', inside', same⟩ := h'.covers y (h.mem inside)
    have first' := h'.first y' inside'
    rw [same] at first'
    exact Option.some.inj (first'.symm.trans (h.first y inside)) ▸ inside'
  have perm : kept.Perm kept' := (List.perm_ext_iff_of_nodup h.apart.of_map h'.apart.of_map).mpr
    fun y => ⟨subset h h' y, subset h' h y⟩
  have order := List.pairwise_map.mp h.ordered
  have order' := List.pairwise_map.mp h'.ordered
  exact perm.eq_of_pairwise (fun _ _ _ _ before after => absurd before (Nat.lt_asymm after)) order
    order'

end FirstOfEach

/-- By induction on the elements: the first one comes first, and no later one is of its kind. -/
theorem firstOfEach_firsts (kind : α → κ) (all : List α) :
    FirstOfEach kind all (firsts kind all) := by
  induction all with
  | nil => exact ⟨by simp, by simp [firsts], by simp [firsts]⟩
  | cons x rest ih =>
    refine ⟨fun z inside => ?_, fun y inside => ?_, ?_⟩
    · by_cases same : kind z = kind x
      · exact ⟨x, List.mem_cons_self, same.symm⟩
      · have later : z ∈ rest := (List.mem_cons.mp inside).resolve_left fun h => same (h ▸ rfl)
        obtain ⟨y, there, isKind⟩ := ih.covers z later
        refine ⟨y, List.mem_cons_of_mem _ (List.mem_filter.mpr ⟨there, ?_⟩), isKind⟩
        simpa [isKind] using same
    · rcases List.mem_cons.mp inside with rfl | later
      · simp
      · obtain ⟨there, apart⟩ := List.mem_filter.mp later
        have apart : kind x ≠ kind y := fun same => by simp [same] at apart
        rw [List.find?_cons_of_neg (by simpa using apart)]
        exact ih.first y there
    · have apart : ∀ k ∈ ((firsts kind rest).filter fun y => kind y ≠ kind x).map kind,
          kind x ≠ k := by
        intro k inside same
        obtain ⟨y, there, rfl⟩ := List.mem_map.mp inside
        simp [same] at there
      rw [firsts, List.map_cons, List.map_cons, List.pairwise_cons]
      constructor
      · intro k inside
        rw [List.idxOf_cons_self, List.idxOf_cons_ne _ (apart k inside)]
        exact Nat.succ_pos _
      · have part := (List.filter_sublist (p := fun y => kind y ≠ kind x)
          (l := firsts kind rest)).map kind
        refine (ih.ordered.sublist part).imp_of_mem fun {a b} isFirst isSecond before => ?_
        rw [List.idxOf_cons_ne _ (apart a isFirst), List.idxOf_cons_ne _ (apart b isSecond)]
        exact Nat.succ_lt_succ before

end First

/-! ## Members -/

namespace Compile

/-- The members that stay are the first ones that are not null. -/
theorem splitNull_members (infos : List Info) :
    (splitNull infos).1 = firsts id (infos.filter fun i => !i.isNullish) := by
  induction infos with
  | nil => rfl
  | cons i rest ih =>
    cases nullish : i.isNullish <;> simp [splitNull, nullish, ih, firsts]

theorem splitNull_nullable (infos : List Info) : (splitNull infos).2 = infos.any (·.isNullish) := by
  induction infos with
  | nil => rfl
  | cons i rest ih =>
    cases nullish : i.isNullish <;> simp [splitNull, nullish, ih]

theorem splitNull_firstOfEach (infos : List Info) :
    FirstOfEach id (infos.filter fun i => !i.isNullish) (splitNull infos).1 := by
  rw [splitNull_members]
  exact firstOfEach_firsts id _

end Compile

/-! ## Slots -/

/-- What a slot holds. -/
inductive SlotKind where
  | property (name : Name)
  | wholes (key : ShapeKey)
  deriving DecidableEq

def UnionSlot.kind (slot : UnionSlot) : SlotKind := slot.prop.elim (.wholes slot.key) .property

theorem UnionSlot.same_eq (a b : UnionSlot) : a.same b = decide (a.kind = b.kind) := by
  obtain ⟨key, label, info, prop⟩ := a
  obtain ⟨key', label', info', prop'⟩ := b
  cases prop <;> cases prop' <;> simp [same, kind]

theorem any_same (seen : List UnionSlot) (slot : UnionSlot) :
    seen.any slot.same = decide (slot.kind ∈ seen.map UnionSlot.kind) := by
  rw [Bool.eq_iff_iff, List.any_eq_true, decide_eq_true_eq, List.mem_map]
  simp only [UnionSlot.same_eq, decide_eq_true_eq]
  exact exists_congr fun _ => and_congr_right fun _ => eq_comm

/-- By induction on the slots that are asked for; those that are there already are not added. -/
theorem addSlots_eq (seen slots : List UnionSlot) : addSlots seen slots =
    seen ++ (firsts UnionSlot.kind slots).filter fun slot =>
      slot.kind ∉ seen.map UnionSlot.kind := by
  induction slots generalizing seen with
  | nil => simp [addSlots, firsts]
  | cons slot rest ih =>
    rw [addSlots, ih, any_same, firsts]
    by_cases there : slot.kind ∈ seen.map UnionSlot.kind
    · rw [if_pos (decide_eq_true there), List.filter_cons_of_neg (by simpa using there),
        List.filter_filter]
      congr 1
      apply List.filter_congr
      intro other _
      by_cases alike : other.kind = slot.kind
      · simpa [alike] using there
      · simp [alike]
    · rw [if_neg (by simpa using there), List.filter_cons_of_pos (by simpa using there),
        List.filter_filter, List.append_assoc, List.singleton_append]
      congr 2
      apply List.filter_congr
      intro other _
      simp [List.map_append]

theorem addSlots_firstOfEach (slots : List UnionSlot) :
    FirstOfEach UnionSlot.kind slots (addSlots [] slots) := by
  rw [addSlots_eq]
  simpa using firstOfEach_firsts UnionSlot.kind slots

theorem propSlots_append_singleton (slots : List UnionSlot) (slot : UnionSlot) :
    propSlots (slots ++ [slot]) =
      slot.prop.elim (propSlots slots) (Table.put · slots.length (propSlots slots)) := by
  simp [propSlots, List.zipIdx_append]

/-- Each property that has a slot is listed. -/
theorem propSlots_complete {slots : List UnionSlot} {slot : UnionSlot} {n : Name}
    (inside : slot ∈ slots) (isProp : slot.prop = some n) :
    ∃ i, Table.find? n (propSlots slots) = some i := by
  induction slots using List.reverseRecOn with
  | nil => cases inside
  | append_singleton before last ih =>
    rw [propSlots_append_singleton]
    cases lastProp : last.prop with
    | none =>
      rcases List.mem_append.mp inside with there | isLast
      · exact ih there
      · rw [← List.mem_singleton.mp isLast, isProp] at lastProp
        cases lastProp
    | some n' =>
      rw [Option.elim_some, Table.find?_put]
      split
      · exact ⟨_, rfl⟩
      · rename_i apart
        rcases List.mem_append.mp inside with there | isLast
        · exact ih there
        · rw [← List.mem_singleton.mp isLast, isProp] at lastProp
          exact absurd (Option.some.inj lastProp).symm apart

/-! ## Unions as they are asked for -/

namespace UnionShape

/-- What a union is made of, for members `infos` that are lowered while the shapes `r` are there. -/
structure Represents (p : Program) (r : Registry) (infos : List Info) (u : UnionShape) : Prop where
  members : FirstOfEach id (infos.filter fun i => !i.isNullish) u.members
  isOptional : u.optional = true ↔ u.members.length = 1 ∧ ∃ i ∈ infos, i.isNullish
  /-- The one value of an optional union stands behind the marker. -/
  present : u.optional = true → u.slots.length = 1 ∧ u.fieldOfSlot 0 = 1
  keys : u.optional = false → u.slots.Pairwise fun a b =>
    a.prop = none → b.prop = none → a.key ≠ b.key
  names : u.optional = false → u.slots.Pairwise fun a b => ∀ n, a.prop = some n → b.prop ≠ some n
  properties : u.optional = false → ∀ n i, u.slotForProp n = some i ↔
    ∃ slot, u.slots[i]? = some slot ∧ slot.prop = some n
  /-- The properties that have slots are those of the members that are objects. -/
  flattened : u.optional = false → ∀ n, (u.slotForProp n).isSome ↔
    ∃ s shape, .object s ∈ u.members ∧ r.object? s = some shape ∧ n ∈ shape.props.map (·.1)
  wholes : u.optional = false → ∀ m ∈ u.members, (∀ s, m ≠ .object s) →
    ∃ i slot, u.slotForKey m.key = some i ∧ u.slots[i]? = some slot ∧ slot.prop = none ∧
      slot.key = m.key
  ordered : u.optional = false →
    FirstOfEach UnionSlot.kind (u.members.flatMap (memberSlots p r false)) u.slots

end UnionShape

section Asked

variable {u : UnionShape} {p : Program} {r : Registry} {members : List Info} {nullable : Bool}

theorem slots_firstOfEach (asked : u = Compile.unionOf p r members nullable u.record) :
    FirstOfEach UnionSlot.kind (members.flatMap (memberSlots p r u.optional)) u.slots := by
  rw [asked]
  exact addSlots_firstOfEach _

/-- No two slots hold the same. -/
theorem slots_apart (asked : u = Compile.unionOf p r members nullable u.record) :
    u.slots.Pairwise fun a b => a.kind ≠ b.kind :=
  List.pairwise_map.mp (slots_firstOfEach asked).apart

/-- A property leads to its slot and to nothing else. -/
theorem UnionShape.slotForProp_iff (asked : u = Compile.unionOf p r members nullable u.record)
    {n : Name} {i : Nat} :
    u.slotForProp n = some i ↔ ∃ slot, u.slots[i]? = some slot ∧ slot.prop = some n := by
  refine ⟨slotForProp_spec asked, ?_⟩
  rintro ⟨slot, isSlot, isProp⟩
  have isProps : u.props = propSlots u.slots := by
    rw [asked]
    rfl
  obtain ⟨j, found⟩ := propSlots_complete (List.mem_of_getElem? isSlot) isProp
  rw [← isProps] at found
  obtain ⟨slot', isSlot', isProp'⟩ := slotForProp_spec asked found
  have inside : i < (u.slots.map UnionSlot.kind).length := by
    simpa using (List.getElem?_eq_some_iff.mp isSlot).1
  have same : (u.slots.map UnionSlot.kind)[i]? = (u.slots.map UnionSlot.kind)[j]? := by
    simp [isSlot, isSlot', UnionSlot.kind, isProp, isProp']
  rw [(List.getElem?_inj inside (slots_firstOfEach asked).apart).mp same]
  exact found

/-- The property slots that a member asks for are those of its properties. -/
theorem mem_memberSlots_prop {m : Info} {n : Name} :
    (∃ slot ∈ memberSlots p r false m, slot.prop = some n) ↔
      ∃ s shape, m = .object s ∧ r.object? s = some shape ∧ n ∈ shape.props.map (·.1) := by
  cases m with
  | object s =>
    cases known : r.object? s <;> simp [memberSlots, known]
  | _ => simp [memberSlots]

/-- A slot of a property stands for the first slot of this property that is asked for. -/
theorem slots_prop (asked : u = Compile.unionOf p r members nullable u.record) {n : Name} :
    (∃ slot ∈ u.slots, slot.prop = some n) ↔
      ∃ m ∈ members, ∃ slot ∈ memberSlots p r u.optional m, slot.prop = some n := by
  have slots := slots_firstOfEach asked
  constructor
  · rintro ⟨slot, inside, isProp⟩
    obtain ⟨m, member, wanted⟩ := List.mem_flatMap.mp (slots.mem inside)
    exact ⟨m, member, slot, wanted, isProp⟩
  · rintro ⟨m, member, slot, wanted, isProp⟩
    obtain ⟨kept, inside, same⟩ := slots.covers slot (List.mem_flatMap.mpr ⟨m, member, wanted⟩)
    refine ⟨kept, inside, ?_⟩
    cases isKept : kept.prop with
    | none => simp [UnionSlot.kind, isProp, isKept] at same
    | some n' => simpa [UnionSlot.kind, isProp, isKept] using same

/-- The shape that is made for the members has all that they ask for. -/
theorem unionOf_represents (infos : List Info)
    (asked : u = Compile.unionOf p r (Compile.splitNull infos).1 (infos.any (·.isNullish)) u.record)
    :
    u.Represents p r infos := by
  have isMembers : u.members = (Compile.splitNull infos).1 := by
    rw [asked]
    rfl
  have isOptional : u.optional = true ↔ u.members.length = 1 ∧ ∃ i ∈ infos, i.isNullish := by
    rw [asked]
    simp [Compile.unionOf, and_comm]
  have slots := slots_firstOfEach asked
  have apart := slots_apart asked
  refine ⟨isMembers ▸ Compile.splitNull_firstOfEach infos, isOptional, ?present, ?keys, ?names,
    ?properties, ?flattened, ?wholes, ?ordered⟩
  case present =>
    intro optional
    obtain ⟨m, only⟩ := List.length_eq_one_iff.mp (isOptional.mp optional).1
    have member : m ∈ (Compile.splitNull infos).1 := by simp [← isMembers, only]
    exact ⟨(unionOf_optional asked member optional).2.2, by simp [UnionShape.fieldOfSlot, optional]⟩
  case keys =>
    exact fun _ => apart.imp fun differ whole whole' same => differ (by
      simp [UnionSlot.kind, whole, whole', same])
  case names =>
    exact fun _ => apart.imp fun differ n isProp isProp' => differ (by
      simp [UnionSlot.kind, isProp, isProp'])
  case properties => exact fun _ _ _ => UnionShape.slotForProp_iff asked
  case flattened =>
    intro general n
    have listed : (u.slotForProp n).isSome ↔ ∃ slot ∈ u.slots, slot.prop = some n := by
      simp only [Option.isSome_iff_exists, UnionShape.slotForProp_iff asked,
        List.mem_iff_getElem?]
      constructor
      · rintro ⟨i, slot, isSlot, isProp⟩
        exact ⟨slot, ⟨i, isSlot⟩, isProp⟩
      · rintro ⟨slot, ⟨i, isSlot⟩, isProp⟩
        exact ⟨i, slot, isSlot, isProp⟩
    rw [listed, slots_prop asked, general, ← isMembers]
    simp only [mem_memberSlots_prop]
    constructor
    · rintro ⟨_, member, s, shape, rfl, known, has⟩
      exact ⟨s, shape, member, known, has⟩
    · rintro ⟨s, shape, member, known, has⟩
      exact ⟨_, member, s, shape, rfl, known, has⟩
  case wholes =>
    intro _ m member notObject
    obtain ⟨i, slot, found, isSlot, _⟩ := unionOf_slot asked (isMembers ▸ member) (.inr notObject)
    obtain ⟨slot', isSlot', whole, isKey⟩ := slotForKey_spec found
    cases isSlot.symm.trans isSlot'
    exact ⟨i, slot, found, isSlot, whole, isKey⟩
  case ordered =>
    intro general
    rwa [general, ← isMembers] at slots

end Asked

/-! ## Requests -/

namespace Compile

/-- What is known of a member of a union. -/
def memberInfo (part : PartInfo) (b : Bindings) (t : TypeId) : Compile Info :=
  if t.isNullish then pure .null else part b t

variable {part : PartInfo} {b : Bindings} {members : List TypeId} {s : Setup} {w w₁ : Work}
  {infos : List Info}

/-- What becomes of the members that are lowered. -/
theorem unionInfoBy_apply (lowers : members.mapM (memberInfo part b) s w = .ok infos w₁) :
    unionInfoBy part b members s w = (match splitNull infos with
      | ([], _) => return .null
      | ([only], false) => return only
      | (several, nullable) => return .union (← shapeOfUnion several nullable) : Compile Info) s
      w₁ := by
  exact bind_of_ok lowers

theorem splitNull_of_nullish (nullish : ∀ i ∈ infos, i.isNullish) : (splitNull infos).1 = [] := by
  have none : infos.filter (fun i => !i.isNullish) = [] := by simpa using nullish
  exact (splitNull_members infos).trans (congrArg (firsts id) none)

theorem mem_splitNull {i : Info} :
    i ∈ (splitNull infos).1 ↔ i ∈ infos ∧ i.isNullish = false := by
  rw [(splitNull_firstOfEach infos).mem_iff, List.mem_filter, Bool.not_eq_true']

/-- One member that is met over and over is kept once. -/
theorem splitNull_of_same {only : Info} (inside : only ∈ infos) (isValue : only.isNullish = false)
    (same : ∀ i ∈ infos, i = only) : splitNull infos = ([only], false) := by
  have nodup : (splitNull infos).1.Nodup := by
    simpa using (splitNull_firstOfEach infos).apart
  have alone : ∀ i, i ∈ (splitNull infos).1 ↔ i = only := by
    intro i
    rw [mem_splitNull]
    exact ⟨fun there => same i there.1, by rintro rfl; exact ⟨inside, isValue⟩⟩
  have nullable : (splitNull infos).2 = false := by
    rw [splitNull_nullable, List.any_eq_false]
    intro i there
    simp [same i there, isValue]
  refine Prod.ext ?_ nullable
  exact List.perm_singleton.mp ((List.perm_ext_iff_of_nodup nodup (by simp)).mpr
    (by simpa using alone))

/-- Where members differ and are not all null, a union of them is asked for. -/
theorem unionInfoBy_several (lowers : members.mapM (memberInfo part b) s w = .ok infos w₁)
    (value : ∃ i ∈ infos, i.isNullish = false) (several : ¬∃ only, ∀ i ∈ infos, i = only) :
    unionInfoBy part b members s w =
      (do return Info.union (← shapeOfUnion (splitNull infos).1 (infos.any (·.isNullish)))) s
      w₁ := by
  obtain ⟨i, inside, isValue⟩ := value
  have isMember (i : Info) : i ∈ (splitNull infos).1 ↔ i ∈ infos ∧ i.isNullish = false :=
    mem_splitNull
  have isNullable := splitNull_nullable infos
  rw [unionInfoBy_apply lowers, ← isNullable]
  generalize splitNull infos = parts at isMember isNullable ⊢
  obtain ⟨kept, nullable⟩ := parts
  match kept, nullable with
  | [], _ => exact absurd ((isMember i).mpr ⟨inside, isValue⟩) List.not_mem_nil
  | [only], false =>
    refine absurd ⟨only, fun i inside => ?_⟩ several
    have notNull : i.isNullish = false := by
      simpa using List.any_eq_false.mp isNullable.symm i inside
    exact List.mem_singleton.mp ((isMember i).mpr ⟨inside, notNull⟩)
  | [_], true => rfl
  | _ :: _ :: _, _ => rfl

/-- The shape of a union is asked for with a field for each slot. -/
theorem shapeOfUnion_eq_shapeNamed (kept : List Info) (nullable : Bool) (s : Setup) (w : Work) :
    ∃ fields, (∀ record, (unionOf s.program w.registry kept nullable record).fields = fields) ∧
      shapeOfUnion kept nullable s w =
        shapeNamed (unionName s.program w.registry kept nullable) fields
          (fun record => .union (unionOf s.program w.registry kept nullable record)) s w := by
  simp only [shapeOfUnion, shapeNamed, registry_bind_apply, program_bind_apply]
  exact ⟨_, fun _ => rfl, rfl⟩

end Compile

/-- The union of members that are lowered to `infos`: null if all of them are null; the member
itself if they are all the same; and otherwise a union whose name lists the members that are not
null. If the name is new, so is the union: it represents the members, and if the name of its record
is new, that has a field for each slot. -/
theorem unionInfo_represents (p : Program) (r : Resolver) (c : Config) (part : PartInfo)
    (b : Bindings) (members : List TypeId) {w w₁ : Work} {infos : List Info}
    (lowers : members.mapM (Compile.memberInfo part b) (.of p r c) w = .ok infos w₁) :
    ∃ info w', Compile.unionInfoBy part b members (.of p r c) w = .ok info w' ∧
      ((∀ i ∈ infos, i.isNullish) → info = .null) ∧
      (∀ only ∈ infos, only.isNullish = false → (∀ i ∈ infos, i = only) → info = only) ∧
      ((∃ i ∈ infos, i.isNullish = false) → (¬∃ only, ∀ i ∈ infos, i = only) →
        ∃ shape kept name, info = .union shape ∧
          FirstOfEach id (infos.filter fun i => !i.isNullish) kept ∧
          name = unionName p w₁.registry kept (infos.any (·.isNullish)) ∧
          w'.registry.shapeByName name = some shape ∧
          (w₁.registry.shapeByName name = none → ∃ u, w'.registry.union? shape = some u ∧
            u.name = name ∧ u.members = kept ∧ u.Represents p w₁.registry infos ∧
            (w₁.code.types.lookupNamed name = none →
              w'.code.types.fields? u.record = some u.fields))) := by
  by_cases value : ∃ i ∈ infos, i.isNullish = false
  case neg =>
    have nullish : ∀ i ∈ infos, i.isNullish := by simpa using value
    refine ⟨.null, w₁, ?_, fun _ => rfl, fun only inside isValue => ?_, fun some =>
      absurd some value⟩
    · have none := Compile.splitNull_of_nullish nullish
      rw [Compile.unionInfoBy_apply lowers]
      generalize Compile.splitNull infos = parts at none ⊢
      obtain ⟨_, nullable⟩ := parts
      cases none
      rfl
    · exact absurd ⟨only, inside, isValue⟩ value
  case pos =>
    obtain ⟨i, inside, isValue⟩ := value
    have notNull : ¬∀ i ∈ infos, i.isNullish := fun nullish => by simp [nullish i inside] at isValue
    by_cases same : ∃ only, ∀ i ∈ infos, i = only
    case pos =>
      obtain ⟨only, same⟩ := same
      obtain rfl : i = only := same i inside
      refine ⟨i, w₁, ?_, fun nullish => absurd nullish notNull,
        fun only _ _ same' => same' i inside,
        fun _ several => absurd ⟨i, same⟩ several⟩
      rw [Compile.unionInfoBy_apply lowers, Compile.splitNull_of_same inside isValue same]
      rfl
    case neg =>
      obtain ⟨fields, isFields, isRequest⟩ := Compile.shapeOfUnion_eq_shapeNamed
        (Compile.splitNull infos).1 (infos.any (·.isNullish)) (.of p r c) w₁
      obtain ⟨shape, w', ran, answer⟩ := Compile.shapeOfUnion_spec (.of p r c) w₁
        (Compile.splitNull infos).1 (infos.any (·.isNullish))
      have asks : Compile.unionInfoBy part b members (.of p r c) w = .ok (.union shape) w' := by
        rw [Compile.unionInfoBy_several lowers ⟨i, inside, isValue⟩ same, Compile.bind_apply, ran]
        rfl
      refine ⟨_, w', asks, fun nullish => absurd nullish notNull,
        fun only _ _ isOnly => absurd ⟨only, isOnly⟩ same, fun _ _ => ⟨shape, _, _, rfl,
          Compile.splitNull_firstOfEach infos, rfl, answer.found, fun new => ?_⟩⟩
      rw [isRequest] at ran
      obtain ⟨record, made⟩ := Compile.shapeNamed_made ran (fun _ => rfl) new
      obtain ⟨there, laid⟩ := made w' .same
      refine ⟨_, by rw [Registry.union?, there], rfl, rfl, unionOf_represents infos rfl,
        fun newRecord => ?_⟩
      rw [isFields record]
      exact laid newRecord

/-- Two objects that share a property, one of them met twice, numbers, two functions and null. -/
@[irreducible] def mixedMembers : List TypeId × Construction := Id.run <| StateT.run (do
  let first ← Construction.objectType [("a", .number), ("b", .text)]
  let second ← Construction.objectType [("b", .text), ("c", .number)]
  let arrow ← Construction.functionType [] .number none
  let arrow' ← Construction.functionType [] .text none
  return [first, .number, .null, second, arrow, .number, arrow', first] : Building (List TypeId)) {}

/-- What is compiled once the types are lowered. -/
def mixedMembersWork : Work := Compile.endOf (mixedMembers.1.mapM
    (Compile.memberInfo (Compile.infoAt 5) .root))
  (.of mixedMembers.2.program .ambient {}) .start

/-- The objects give three slots, and both functions go to one. -/
theorem unionInfo_represents_mixed : ∃ infos w' u,
    mixedMembers.1.mapM (Compile.memberInfo (Compile.infoAt 5) .root)
    (.of mixedMembers.2.program .ambient {})
      .start = .ok infos mixedMembersWork ∧
    Compile.unionInfoBy (Compile.infoAt 5) .root mixedMembers.1
    (.of mixedMembers.2.program .ambient {}) .start =
      .ok (.union ⟨2⟩) w' ∧
    w'.registry.union? ⟨2⟩ = some u ∧ u.Represents mixedMembers.2.program
    mixedMembersWork.registry infos ∧
    u.slots.map (·.kind) = [.property ⟨1⟩, .property ⟨2⟩, .wholes .number, .property ⟨3⟩,
      .wholes .closure] := by
  obtain ⟨infos, lowers, isInfos⟩ := Compile.of_gives (show Compile.gives
    (mixedMembers.1.mapM (Compile.memberInfo (Compile.infoAt 5) .root))
      (.of mixedMembers.2.program .ambient {})
    .start (fun infos => decide (infos = [.object ⟨0⟩, .number, .null, .object ⟨1⟩,
      .closure ⟨some ⟨9⟩, none, none⟩, .number, .closure ⟨some ⟨10⟩, none, none⟩, .object ⟨0⟩])) by
      decide +kernel)
  obtain rfl := of_decide_eq_true isInfos
  have new : mixedMembersWork.registry.shapeByName
    (unionName mixedMembers.2.program mixedMembersWork.registry
      [.object ⟨0⟩, .number, .object ⟨1⟩, .closure ⟨some ⟨9⟩, none, none⟩,
        .closure ⟨some ⟨10⟩, none, none⟩] true) = none := by decide +kernel
  obtain ⟨made, isMade, isUnion⟩ := Compile.of_gives (show Compile.gives
    (Compile.unionInfoBy (Compile.infoAt 5) .root mixedMembers.1)
      (.of mixedMembers.2.program .ambient {}) .start
    (fun info => decide (info = .union ⟨2⟩)) by decide +kernel)
  obtain rfl := of_decide_eq_true isUnion
  have slots : ((Compile.endOf (Compile.unionInfoBy (Compile.infoAt 5) .root mixedMembers.1)
      (.of mixedMembers.2.program .ambient {}) .start).registry.union? ⟨2⟩).map
        (fun u => decide (u.slots.map (·.kind) = [.property ⟨1⟩, .property ⟨2⟩, .wholes .number,
          .property ⟨3⟩, .wholes .closure])) = some true := by
    decide +kernel
  obtain ⟨info, w', ran, _, _, several⟩ := unionInfo_represents mixedMembers.2.program .ambient {}
    (Compile.infoAt 5) .root mixedMembers.1 lowers
  cases isMade.symm.trans ran
  obtain ⟨shape, kept, name, isShape, firsts, rfl, _, represents⟩ := several ⟨.number, by simp, rfl⟩
    (by simp)
  cases isShape
  obtain rfl := firsts.unique (firstOfEach_firsts id _)
  obtain ⟨u, known, _, _, represents, _⟩ := represents new
  rw [known] at slots
  exact ⟨_, _, u, lowers, ran, known, represents, of_decide_eq_true (Option.some.inj slots)⟩

end ShapeCompiler
