import ShapeCompiler.Proofs.Hierarchies
import ShapeCompiler.Proofs.ObjectCopies
import ShapeCompiler.Proofs.Unions

/-!
# Values that go through a union

* `Stage.Enters`: a value goes into the slot of a member, which it is or derives from;
* `Emit.coerce_enters_achieves`: the union that is made holds it there;
* `Stage.Spreads`: an object whose properties have slots of their own;
* `Emit.coerce_spreads_achieves`, `Emit.extractObject_achieves`: its properties go to these slots,
  and are put together again;
* `union_roundTrip`: a value of a member that goes into the union and comes back is the same
  pointer, and an object is a new record of the same pointers.

A value of a class below a member has no slot of its own. Where the union also has an object of the
properties of this class, these are taken and the slot of the member stays empty
(`derived_instance_lost`).
-/

namespace ShapeCompiler

open Source Code Work Machine

namespace Emit

variable {s : Setup} {x : Stage} {w : Work} {f : Frame} {l : Lowering} {v : Operand}
  {u : UnionShape}
  {p : Program} {made : Registry} {members : List Info} {nullable : Bool}
    {shape t : ShapeId} {m : Info}
  {props : List (Name × Info)} {offset : Nat} {items : List Value} {q : Value}

/-! ## By properties -/

/-- In a general union no slot is for an object as a whole. -/
theorem slotForKey_object (asked : u = Compile.unionOf p made members nullable u.record)
    (general : u.optional = false) (t : ShapeId) : u.slotForKey (.object t) = none := by
  cases found : u.slotForKey (.object t) with
  | none => rfl
  | some i =>
    obtain ⟨slot, isSlot, whole, isKey⟩ := slotForKey_spec found
    obtain ⟨m, -, isAsked⟩ := mem_members_slots asked (List.mem_of_getElem? isSlot)
    rw [general] at isAsked
    cases m with
    | object t' =>
      obtain ⟨prop, -, rfl⟩ := List.mem_map.mp isAsked
      cases whole
    | _ =>
      obtain rfl := List.mem_singleton.mp isAsked
      cases isKey

/-- What has no slot as it is goes to the slots of its properties, or to that of a class above. -/
theorem initMember_parts (noSlot : u.slotForKey v.info.key = none)
    (notUnion : ∀ source, v.info ≠ .union source) :
    initMember l v u shape = (do
      let moves ← propertyMoves l v u
      if moves.isEmpty then initFromInstance v u shape else unionWith u shape moves) := by
  obtain ⟨value, info, form⟩ := v
  cases info with
  | union source => exact absurd rfl (notUnion source)
  | _ =>
    unfold initMember
    simp only [noSlot]

/-- A property of a value that goes to the slot of its name. -/
def Moved (x : Stage) (u : UnionShape) (props : List (Name × Info)) (offset : Nat)
    (items : List Value) (move : Nat × ValueId) : Prop :=
  ∃ j prop q, props[j]? = some prop ∧ prop.1 ≠ .empty ∧ u.slotForProp prop.1 = some move.1 ∧
    items[j + offset]? = some q ∧ x.Knows move.2 q

/-- The properties that go to slots are those that the union has slots for. -/
structure Moves (x : Stage) (u : UnionShape) (props : List (Name × Info)) (offset : Nat)
    (items : List Value) (moves : List (Nat × ValueId)) : Prop where
  each : ∀ move ∈ moves, Moved x u props offset items move
  all : ∀ prop ∈ props, prop.1 ≠ .empty → ∀ slot, u.slotForProp prop.1 = some slot →
    ∃ move ∈ moves, move.1 = slot

theorem ne_empty_of_mem_numbered {n : Name} {index : Nat} {info : Info}
    (h : (n, index, info) ∈ Compile.numbered props offset) : n ≠ .empty := by
  obtain ⟨⟨⟨m, i⟩, j⟩, -, picked⟩ := List.mem_filterMap.mp h
  dsimp only at picked
  split at picked
  · cases picked
  · cases picked
    assumption

theorem mem_numbered_of {j : Nat} {prop : Name × Info} (isProp : props[j]? = some prop)
    (named : prop.1 ≠ .empty) : (prop.1, j + offset, prop.2) ∈ Compile.numbered props offset :=
  List.mem_filterMap.mpr ⟨(prop, j + offset),
    List.mk_mem_zipIdx_iff_le_and_getElem?_sub.mpr ⟨by omega, by simpa using isProp⟩, if_neg named⟩

/-- Of a list that is related to another, each has one that it is related to. -/
theorem exists_related {α β : Type} {R : α → β → Prop} {as : List α} {bs : List β}
    (all : List.Forall₂ R as bs) : (∀ b ∈ bs, ∃ a ∈ as, R a b) ∧ ∀ a ∈ as, ∃ b ∈ bs, R a b := by
  induction all with
  | nil => simp
  | cons one _ ih =>
    simp only [List.forall_mem_cons, List.exists_mem_cons_iff]
    exact ⟨⟨.inl one, fun b inside => .inr (ih.1 b inside)⟩, .inl one, fun a inside =>
      .inr (ih.2 a inside)⟩

theorem propertyMoves_achieves (depth : Nat) (isObject : x.IsObject v props offset items)
    (alike : ∀ prop ∈ props, prop.1 ≠ .empty → ∀ slot, u.slotForProp prop.1 = some slot →
      prop.2.key = (u.slotInfo slot).key) :
    Achieves s x (propertyMoves (.ofDepth (depth + 1)) v u) fun moves x' =>
      x'.memory = x.memory ∧ x'.work = x.work ∧ Moves x' u props offset items moves := by
  refine .bind (fieldValues_achieves isObject) ?_
  rintro _ x₁ goes₁ ⟨source, rfl, memory, work, reads⟩
  obtain ⟨fromField, toRead⟩ := exists_related reads
  refine (Achieves.filterMapM (fun done moves x' => x'.memory = x.memory ∧ x'.work = x.work ∧
    (∀ move ∈ moves, Moved x' u props offset items move) ∧
    ∀ read ∈ done, ∀ slot, u.slotForProp read.1 = some slot → ∃ move ∈ moves, move.1 = slot)
    source ⟨memory, work, by simp, by simp⟩ ?_).mono ?_
  · rintro done ⟨n, field⟩ rest moves parts x' goes ⟨memory', work', each, all⟩
    obtain ⟨⟨_, index, info⟩, listed, rfl, isBoxed, rfl, q, item, isValue⟩ :=
      fromField (n, field) (by simp [parts])
    obtain ⟨j, isProp, rfl⟩ := Compile.mem_numbered listed
    have named : n ≠ .empty := ne_empty_of_mem_numbered listed
    dsimp only
    cases found : u.slotForProp n with
    | none =>
      refine .pure ⟨memory', work', by simpa using each, fun read inside slot isSlot => ?_⟩
      rcases List.mem_append.mp inside with before | now
      · simpa using all read before slot isSlot
      · obtain rfl := List.mem_singleton.mp now
        cases found.symm.trans isSlot
    | some slot =>
      have same : (Lowering.ofDepth (depth + 1)).coerced field (u.slotInfo slot) =
          pure field.value :=
        coerced_same depth isBoxed (alike _ (List.mem_of_getElem? isProp) named slot found)
      dsimp only
      rw [same, pure_bind]
      refine .pure ⟨memory', work', fun move inside => ?_, fun read inside slot' isSlot => ?_⟩
      · rcases List.mem_append.mp inside with before | now
        · exact each move before
        · obtain rfl : move = (slot, field.value) := by simpa using now
          exact ⟨j, _, q, isProp, named, found, item, goes.knows isValue⟩
      · rcases List.mem_append.mp inside with before | now
        · obtain ⟨move, listed', same⟩ := all read before slot' isSlot
          exact ⟨move, by simp [listed'], same⟩
        · obtain rfl := List.mem_singleton.mp now
          obtain rfl : slot = slot' := Option.some.inj (found.symm.trans isSlot)
          exact ⟨(slot, field.value), by simp, rfl⟩
  · rintro moves x' _ ⟨memory', work', each, all⟩
    refine ⟨memory', work', each, fun prop listed named slot isSlot => ?_⟩
    obtain ⟨j, isProp⟩ := List.mem_iff_getElem?.mp listed
    obtain ⟨read, inside, isName, _⟩ := toRead _ (mem_numbered_of isProp named)
    exact all read inside slot (isName ▸ isSlot)

/-- A slot holds what all moves to it bring. -/
theorem filled_at {values : Valuation} {n slot : Nat} {moves : List (Nat × ValueId)}
    (general : u.optional = false) (inside : slot < n)
    (same : ∀ move ∈ moves, move.1 = slot → values move.2 = q)
    (there : ∃ move ∈ moves, move.1 = slot) :
    (filled u values n moves)[slot]? = some q := by
  induction moves using List.reverseRecOn with
  | nil => simp at there
  | append_singleton moves move ih =>
    have isFilled : filled u values n (moves ++ [move]) =
        (filled u values n moves).set move.1 (values move.2) := by
      simp [filled, UnionShape.fieldOfSlot, general]
    rw [isFilled]
    by_cases isSlot : move.1 = slot
    · rw [isSlot, List.getElem?_set_self (by rwa [length_filled]), same move (by simp) isSlot]
    · rw [List.getElem?_set_ne isSlot]
      refine ih (fun move' inside' => same move' (by simp [inside'])) ?_
      obtain ⟨move', inside', isSlot'⟩ := there
      rcases List.mem_append.mp inside' with before | now
      · exact ⟨move', before, isSlot'⟩
      · obtain rfl := List.mem_singleton.mp now
        exact absurd isSlot' isSlot

/-! ## As a member -/

theorem initMember_eq {slot : Nat} {value : ValueId} {i : Info}
    (found : u.slotForKey i.key = some slot) :
    initMember l (.boxed value i) u shape = unionWith u shape [(slot, value)] := by
  unfold initMember
  simp only [Operand.boxed, found]
  rfl

theorem initOptional_eq {value : ValueId} {i : Info} (isMember : i.isMember)
    (same : i.key = u.memberInfo.key) (depth : Nat) :
    initOptional (.ofDepth (depth + 1)) (.boxed value i) u shape = do
      return .boxed (← presentUnion u.record value) (.union shape) := by
  obtain ⟨info, _, isSame⟩ := coerce_same (l := .ofDepth depth) same
  have coerced : (Lowering.ofDepth (depth + 1)).coerce (.boxed value i) u.memberInfo =
      pure (.boxed value info) := isSame value
  unfold initOptional
  cases i with
  | union => cases isMember
  | _ =>
    simp only [Operand.boxed] at coerced ⊢
    simp only [coerced, pure_bind]
    rfl

/-- The value goes to the slot of a member: it has the form of the member, which the union holds as
a whole; or it is an instance of a class below the only member; or it is an instance of a class
below a member, and the union holds no other class on the way up and none of its properties. -/
inductive Enters (x : Stage) (p : Program) (u : UnionShape) (members : List Info) (m : Info)
    (v : Operand) : Prop
  | whole (held : HeldWhole u.optional m) (same : v.info.key = m.key)
  | only (optional : u.optional = true) (derives : Derives p v.info m)
  | base {c d : DeclId} {chain : List DeclId} {props : List (Name × Info)} {offset : Nat}
    {items : List Value} (general : u.optional = false) (isMember : m = .instanceOf c)
    (isInstance : v.info = .instanceOf d) (isChain : p.classChain d = .ok chain) (above : c ∈ chain)
    (alone : ∀ c' ∈ chain, .instanceOf c' ∈ members → c' = c)
    (isObject : x.IsObject v props offset items)
    (apart : ∀ prop ∈ props, prop.1 ≠ .empty → u.slotForProp prop.1 = none)

theorem Enters.heldWhole (h : Enters x p u members m v) : HeldWhole u.optional m := by
  cases h with
  | whole held => exact held
  | only optional => exact .inl optional
  | base _ isMember => exact .inr (by simp [isMember])

/-- A slot without a property holds a member. -/
theorem info_mem_members (asked : u = Compile.unionOf p made members nullable u.record)
    {slot : UnionSlot} (listed : slot ∈ u.slots) (whole : slot.prop = none) :
    slot.info ∈ members ∧ slot.key = slot.info.key := by
  obtain ⟨m, member, isAsked⟩ := mem_members_slots asked listed
  refine ⟨?_, memberSlots_key isAsked⟩
  unfold memberSlots at isAsked
  split at isAsked
  · obtain ⟨_, _, rfl⟩ := List.mem_map.mp isAsked
    cases whole
  · rwa [List.mem_singleton.mp isAsked]

theorem eq_instanceOf_of_key {i : Info} {c : DeclId} (same : i.key = .instanceOf c) :
    i = .instanceOf c := by
  cases i with
  | instanceOf d =>
    cases same
    rfl
  | _ => cases same

theorem findIdx?_congr {α : Type} {a b : α → Bool} {list : List α} (same : ∀ e ∈ list, a e = b e) :
    list.findIdx? a = list.findIdx? b := by
  induction list with
  | nil => rfl
  | cons e rest ih =>
    rw [List.findIdx?_cons, List.findIdx?_cons, same e List.mem_cons_self,
      ih fun e' inside => same e' (List.mem_cons_of_mem _ inside)]

/-- Of the classes on the way up only one is a member, so the first slot for any of them is its
slot. -/
theorem findIdx?_above (asked : u = Compile.unionOf p made members nullable u.record) {c : DeclId}
    {chain : List DeclId} (above : c ∈ chain)
    (alone : ∀ c' ∈ chain, .instanceOf c' ∈ members → c' = c) :
    u.slots.findIdx? (fun slot => slot.prop.isNone && chain.any (slot.info = .instanceOf ·)) =
      u.slotForKey (.instanceOf c) := by
  apply findIdx?_congr
  intro slot listed
  cases isProp : slot.prop with
  | some n => rfl
  | none =>
    obtain ⟨member, isKey⟩ := info_mem_members asked listed isProp
    have iff : (∃ c' ∈ chain, slot.info = .instanceOf c') ↔ slot.key = .instanceOf c := by
      constructor
      · rintro ⟨c', inside, isInstance⟩
        rw [isKey, isInstance, alone c' inside (isInstance ▸ member)]
        rfl
      · exact fun same => ⟨c, above, eq_instanceOf_of_key (isKey.symm.trans same)⟩
    rw [Bool.eq_iff_iff]
    simpa using iff

/-- The value is put into the slot of the member. -/
theorem unionWith_converts {x₁ : Stage} {value : ValueId} {slot : Nat} (moment : Moment s x.work)
    (has : x.HasUnion p shape u members) (general : u.optional = false)
    (found : u.slotForKey m.key = some slot) (work : x₁.work = x.work)
    (memory : x₁.memory = x.memory)
    (isValue : x₁.Knows value q) :
    Achieves s x₁ (unionWith u shape [(slot, value)]) (Converted x shape u m q) := by
  obtain ⟨_, isSlot, _⟩ := slotForKey_spec found
  have inside : u.fieldOfSlot slot < u.slots.length := by
    simpa [UnionShape.fieldOfSlot, general] using (List.getElem?_eq_some_iff.mp isSlot).1
  have isZero (types : TypeTable) (admitted : x₁.Admits types) :=
    has.zero_general moment general types (admitted.of_work work)
  have there : value.raw < x₁.size := isValue.inside
  have known : ∀ move ∈ [(slot, value)], move.2.raw < x₁.size := by simpa using there
  refine ((unionWith_makes shape isZero known (by simpa using inside)).achieves
    (.bind (.write _) fun _ => .bind (.bind (.storeField _ _ _ _) fun _ => .pure _) fun _ =>
      .pure _)).mono ?_
  rintro _ x₂ _ ⟨ptr, rfl, makes⟩
  refine makes.converted work memory shape ?_
  have isFilled : filled u x₁.values u.slots.length [(slot, value)] =
      (List.replicate u.slots.length .null).set slot q := by
    have same : x₁.values value = q := isValue.value
    simp [filled, UnionShape.fieldOfSlot, general, same]
  rw [UnionShape.Holds, general, if_neg (by simp), isFilled]
  exact ⟨slot, found, rfl⟩

/-- A value that is present is put into an optional union. -/
theorem presentUnion_converts {value : ValueId} (moment : Moment s x.work)
    (has : x.HasUnion p shape u members)
    (optional : u.optional = true) (isValue : x.Knows value q) :
    Achieves s x (do return .boxed (← presentUnion u.record value) (.union shape))
      (Converted x shape u m q) := by
  refine .bind ((presentUnion_makes (has.zero_optional moment optional) isValue).achieves
    (.presentUnion _ _)) ?_
  rintro ptr x₁ _ makes
  refine .pure (makes.converted rfl rfl shape ?_)
  rw [UnionShape.Holds, optional, if_pos rfl]

/-- An instance of a class below the only member is coerced to the member first. -/
theorem initOptional_derived {value : ValueId} {i : Info}
    (derives : Derives s.program i u.memberInfo)
    (other : i.key ≠ u.memberInfo.key) (depth : Nat) :
    initOptional (.ofDepth (depth + 1)) (.boxed value i) u shape f s w =
      (do return .boxed (← presentUnion u.record value) (.union shape) : Emit Operand) f s w := by
  have coerced := coerce_derived (l := .ofDepth depth) (f := f) (w := w) derives other value
  obtain ⟨c, d, chain, rfl, -⟩ := derives
  exact bind_congr_apply coerced

/-- An instance goes to the slot of a class above it. -/
theorem initFromInstance_eq {value : ValueId} {d : DeclId} {chain : List DeclId} {slot : Nat}
    (isChain : s.program.classChain d = .ok chain)
    (first : u.slots.findIdx? (fun slot => slot.prop.isNone && chain.any
    (slot.info = .instanceOf ·)) =
      some slot) :
    initFromInstance (.boxed value (.instanceOf d)) u shape f s w =
      unionWith u shape [(slot, value)] f s w := by
  rw [initFromInstance]
  simp only [Operand.boxed]
  rw [asks_bind_apply isChain, first]

/-- The value goes into the union. -/
theorem coerce_enters_achieves {value : ValueId} {i : Info} (depth : Nat) (moment : Moment s x.work)
    (has : x.HasUnion s.program shape u members)
    (member : m ∈ members)
    (isMember : m.isMember) (enters : Enters x s.program u members m (.boxed value i))
    (isValue : x.Knows value q) :
    Achieves s x (coerce (.ofDepth (depth + 1)) (.boxed value i) (.union shape))
      (Converted x shape u m q) := by
  obtain ⟨made, nullable, asked⟩ := has.asked
  by_cases same : i.key = m.key
  · have isMember' : i.isMember := Info.isMember_of_key same.symm isMember
    refine .of_eq (coerce_into isMember' has.known) ?_
    cases optional : u.optional with
    | true =>
      obtain ⟨isOnly, _, _⟩ := unionOf_optional asked member optional
      rw [if_pos rfl]
      exact initOptional_eq isMember' (by rw [isOnly, same]) depth ▸
        presentUnion_converts moment has optional isValue
    | false =>
      obtain ⟨slot, _, found, _⟩ := unionOf_slot asked member enters.heldWhole
      rw [if_neg (by simp), initMember_eq (same ▸ found)]
      exact unionWith_converts moment has optional found rfl rfl isValue
  · cases enters with
    | whole _ isSame => exact absurd isSame same
    | only optional derives =>
      obtain ⟨isOnly, _, _⟩ := unionOf_optional asked member optional
      have isInstance : i.isMember := by
        obtain ⟨c, d, chain, rfl, -⟩ := derives
        rfl
      refine .of_eq (coerce_into isInstance has.known) ?_
      rw [if_pos optional]
      exact .of_eq (initOptional_derived (isOnly ▸ derives) (isOnly ▸ same) depth)
        (presentUnion_converts moment has optional isValue)
    | @base c d chain props offset items general isClass isInstance isChain above alone
        isObject apart =>
      obtain rfl : i = .instanceOf d := isInstance
      subst isClass
      have own : d ∈ chain := by
        have line := s.program.classChain_endsAs d
        rw [isChain] at line
        exact List.mem_of_head? line.first
      have noSlot : u.slotForKey (.instanceOf d) = none := by
        cases found : u.slotForKey (.instanceOf d) with
        | none => rfl
        | some i =>
          obtain ⟨slot, isSlot, whole, isKey⟩ := slotForKey_spec found
          obtain ⟨listed, ofInfo⟩ := info_mem_members asked (List.mem_of_getElem? isSlot) whole
          have isInstance := eq_instanceOf_of_key (ofInfo.symm.trans isKey)
          exact absurd (by rw [alone d own (isInstance ▸ listed)]) same
      obtain ⟨slot, _, found, _⟩ := unionOf_slot asked member (.inr (by simp))
      refine .of_eq (coerce_into rfl has.known) ?_
      rw [general, if_neg (by simp), initMember_parts noSlot (by simp [Operand.boxed])]
      refine .bind (propertyMoves_achieves depth isObject
        fun prop listed named slot isSlot => ?_) ?_
      · cases (apart prop listed named).symm.trans isSlot
      rintro moves x₁ goes ⟨memory, work, moved⟩
      -- no property has a slot, so nothing moves
      have none : moves = [] := by
        refine List.eq_nil_iff_forall_not_mem.mpr fun move listed => ?_
        obtain ⟨j, prop, q, isProp, named, isSlot, _⟩ := moved.each move listed
        cases (apart prop (List.mem_of_getElem? isProp) named).symm.trans isSlot
      subst none
      refine .of_eq (initFromInstance_eq isChain (findIdx?_above asked above alone ▸ found)) ?_
      exact unionWith_converts moment has general found work memory (goes.knows isValue)

/-! ## Objects -/

/-- The union has a slot for each property of the object, for what is known of the property. -/
def HasSlots (u : UnionShape) (props : List (Name × Info)) : Prop :=
  ∀ prop ∈ props, prop.1 ≠ .empty ∧
    ∃ slot, u.slotForProp prop.1 = some slot ∧ (u.slotInfo slot).key = prop.2.key

/-- The fields of a general union hold the properties of an object, each in the slot of its name. -/
def HoldsProps (u : UnionShape) (props : List (Name × Info)) (items fields : List Value) : Prop :=
  ∀ (j : Nat) (prop : Name × Info) (slot : Nat), props[j]? = some prop →
    u.slotForProp prop.1 = some slot → fields[slot]? = items[j]?

/-- An object in memory whose properties have slots of their own in a general union. -/
structure Spreads (x : Stage) (u : UnionShape) (t : ShapeId) (o : ObjectShape) (ptr : ValueId)
    (items : List Value) : Prop where
  general : u.optional = false
  object : x.work.registry.object? t = some o
  nonempty : o.props ≠ []
  distinct : (o.props.map (·.1)).Nodup
  slots : HasSlots u o.props
  cell : ∃ k, x.Knows ptr (address k) ∧ x.memory.heap[k]? = some (.agg items)
  written : ∀ q ∈ items, q ≠ .undef
  all : items.length = o.props.length

/-- What goes to a slot is the property of its name. -/
theorem Moves.holdsProps {n : Nat} {moves : List (Nat × ValueId)}
    (moved : Moves x u props 0 items moves)
    (asked : u = Compile.unionOf p made members nullable u.record) (general : u.optional = false)
    (distinct : (props.map (·.1)).Nodup) (slots : HasSlots u props)
    (all : items.length = props.length)
    (inSlots : ∀ {name : Name} {slot : Nat}, u.slotForProp name = some slot → slot < n) :
    HoldsProps u props items (filled u x.values n moves) := by
  intro j prop slot isProp isSlot
  have inProps := (List.getElem?_eq_some_iff.mp isProp).1
  have isItem := List.getElem?_eq_getElem (all ▸ inProps : j < items.length)
  rw [isItem]
  have listed := List.mem_of_getElem? isProp
  refine filled_at general (inSlots isSlot) (fun move inside same => ?_)
    (moved.all prop listed (slots prop listed).1 slot isSlot)
  obtain ⟨j', prop', q, isProp', _, isSlot', item, isValue⟩ := moved.each move inside
  obtain ⟨own, isOwn, isName⟩ := slotForProp_spec asked isSlot
  obtain ⟨own', isOwn', isName'⟩ := slotForProp_spec asked (same ▸ isSlot')
  cases isOwn.symm.trans isOwn'
  have sameName : prop'.1 = prop.1 := Option.some.inj (isName'.symm.trans isName)
  have inNames : j < (props.map (·.1)).length := by rwa [List.length_map]
  obtain rfl : j = j' := (List.getElem?_inj inNames distinct).mp
    (by simp [isProp, isProp', sameName])
  exact isValue.value.trans (Option.some.inj (item.symm.trans isItem))

/-- The properties of the object go to their slots. -/
theorem coerce_spreads_achieves {o : ObjectShape} {ptr : ValueId} (depth : Nat)
    (moment : Moment s x.work) (has : x.HasUnion p shape u members)
    (spreads : Spreads x u t o ptr items) :
    Achieves s x (coerce (.ofDepth (depth + 1)) (.boxed ptr (.object t)) (.union shape))
      fun inside x' => ∃ union fields, inside = .boxed union (.union shape) ∧
        HoldsProps u o.props items fields ∧ Making x union (.agg fields) x' := by
  obtain ⟨general, object, nonempty, distinct, slots, ⟨k, isRecord, cell⟩, written, all⟩ := spreads
  obtain ⟨made, nullable, asked⟩ := has.asked
  have isObject : x.IsObject (.boxed ptr (.object t)) o.props 0 items := by
    refine ⟨rfl, .object object, ⟨k, isRecord, cell⟩, fun j inside => ?_⟩
    exact ⟨_, written _ (List.getElem_mem (all ▸ inside)), List.getElem?_eq_getElem (all ▸ inside)⟩
  refine .of_eq (coerce_into rfl has.known) ?_
  rw [general, if_neg (by simp),
    initMember_parts (slotForKey_object asked general t) (by simp [Operand.boxed])]
  refine .bind (propertyMoves_achieves depth isObject fun prop listed _ slot isSlot => ?_) ?_
  · obtain ⟨_, slot', isSlot', same⟩ := slots prop listed
    obtain rfl : slot = slot' := Option.some.inj (isSlot.symm.trans isSlot')
    exact same.symm
  rintro moves x₁ goes ⟨memory, work, moved⟩
  have any : moves.isEmpty = false := by
    obtain ⟨prop, rest, isProps⟩ := List.exists_cons_of_ne_nil nonempty
    obtain ⟨named, slot, isSlot, _⟩ := slots prop (by simp [isProps])
    obtain ⟨move, listed, _⟩ := moved.all prop (by simp [isProps]) named slot isSlot
    cases moves with
    | nil => cases listed
    | cons => rfl
  rw [any, if_neg (by simp)]
  have isZero (types : TypeTable) (admitted : x₁.Admits types) :=
    has.zero_general moment general types (admitted.of_work work)
  have inSlots {n : Name} {slot : Nat} (isSlot : u.slotForProp n = some slot) :
      slot < u.slots.length := by
    obtain ⟨_, isSlot', _⟩ := slotForProp_spec asked isSlot
    exact (List.getElem?_eq_some_iff.mp isSlot').1
  have known₁ (move : Nat × ValueId) (listed : move ∈ moves) : move.2.raw < x₁.size := by
    obtain ⟨_, _, _, _, _, _, _, isValue⟩ := moved.each move listed
    exact isValue.inside
  have inside (move : Nat × ValueId) (listed : move ∈ moves) :
      u.fieldOfSlot move.1 < u.slots.length := by
    obtain ⟨_, _, _, _, _, isSlot, _⟩ := moved.each move listed
    simpa [UnionShape.fieldOfSlot, general] using inSlots isSlot
  have writes : Writes (unionWith u shape moves) :=
    .bind (.write _) fun _ => .bind (.forM (fun _ => .storeField _ _ _ _) _) fun _ => .pure _
  refine ((unionWith_makes shape isZero known₁ inside).achieves writes).mono ?_
  rintro _ x₂ goes₂ ⟨union, rfl, makes⟩
  exact ⟨union, _, rfl, moved.holdsProps asked general distinct slots all inSlots,
    makes.since work (memory ▸ .refl _ _)⟩

/-- The slots of the properties are found. -/
theorem propsWithSlots {props : List (Name × Info)} (slots : HasSlots u props) :
    ∃ entries, (props.mapM fun (n, info) => (u.slotForProp n).map (n, info, ·)) = some entries ∧
      List.Forall₂ (fun prop entry => entry.2.1 = prop.2 ∧ u.slotForProp prop.1 = some entry.2.2)
        props entries := by
  induction props with
  | nil => exact ⟨[], rfl, .nil⟩
  | cons prop rest ih =>
    obtain ⟨-, slot, isSlot, -⟩ := slots prop List.mem_cons_self
    obtain ⟨entries, found, all⟩ := ih fun prop' listed =>
      slots prop' (List.mem_cons_of_mem _ listed)
    exact ⟨(prop.1, prop.2, slot) :: entries, by simp [isSlot, found], .cons ⟨rfl, isSlot⟩ all⟩

/-- An object is put together again from the slots of its properties. -/
theorem extractObject_achieves {k : Nat} {o : ObjectShape} {ptr : ValueId} {fields : List Value}
    (depth : Nat) (moment : Moment s x.work) (general : u.optional = false)
    (has : x.work.registry.object? t = some o)
    (slots : HasSlots u o.props) (isPtr : x.Knows ptr (address k))
    (cell : x.memory.heap[k]? = some (.agg fields)) (all : items.length = o.props.length)
    (holds : HoldsProps u o.props items fields) (written : ∀ q ∈ items, q ≠ .undef) :
    Achieves s x (extractObject (.ofDepth (depth + 1)) u ptr t) fun back x' =>
      ∃ object, back = .boxed object (.object t) ∧ Making x object (.agg items) x' := by
  obtain ⟨entries, found, entriesOf⟩ := propsWithSlots slots
  have count := entriesOf.length_eq
  refine .read (Compile.objectShape_known has) ?_
  simp only [found]
  refine .bind (newRecord_achieves "union.obj" moment (count ▸ moment.object_laid has)) ?_
  rintro object x₁ goes₁ makes
  refine .bind (fill_achieves (all.trans count) makes ?_) fun _ x' _ made =>
    .pure ⟨object, rfl, made⟩
  rintro i ⟨n, info, slot⟩ q isEntry isItem x' goes' made
  have inEntries := (List.getElem?_eq_some_iff.mp isEntry).1
  have isProp := List.getElem?_eq_getElem (count ▸ inEntries : i < o.props.length)
  have related := entriesOf.get (count ▸ inEntries) inEntries
  simp only [List.get_eq_getElem, (List.getElem?_eq_some_iff.mp isEntry).2] at related
  obtain ⟨isInfo, isSlot⟩ := related
  obtain ⟨-, slot', isSlot', same⟩ := slots _ (List.mem_of_getElem? isProp)
  obtain rfl : slot = slot' := Option.some.inj (isSlot.symm.trans isSlot')
  have item : fields[u.fieldOfSlot slot]? = some q := by
    rw [UnionShape.fieldOfSlot, general, if_neg (by simp)]
    exact (holds i _ slot isProp isSlot).trans isItem
  have isWritten := written q (List.mem_of_getElem? isItem)
  refine .read rfl (.bind (loadField_achieves u.record _ ((goes₁.trans goes').knows isPtr)
    (made.keeps.heap _ _ (by simp) cell) item isWritten) ?_)
  rintro value x₂ goes₂ ⟨isValue, memory, work⟩
  have kept : (Lowering.ofDepth (depth + 1)).coerced (.boxed value (u.slotInfo slot))
      info = pure value :=
    coerced_same depth rfl (by rw [isInfo]; exact same)
  rw [kept, pure_bind]
  have room : (items.take i).length < entries.length := by
    rw [List.length_take]
    omega
  have taken : (items.take i).length = i := by
    rw [List.length_take]
    omega
  have next := (made.later goes₂ work memory).next (s := s) o.record room isValue
  rwa [taken] at next

end Emit

/-! ## There and back -/

/-- A value that goes into a union as one of its members can be taken out again as this member, and
is then the same pointer. An object that a general union takes apart comes back as a new record that
has the same pointers in its fields. -/
theorem union_roundTrip (p : Program) (r : Resolver) (c : Config) (depth : Nat) {x : Stage}
    {shape : ShapeId} {u : UnionShape} {members : List Info} (moment : Moment (.of p r c) x.work)
    (has : x.HasUnion p shape u members) :
    (∀ {m i : Info} {value : ValueId} {val : Value}, m ∈ members → m.isMember →
      Emit.Enters x p u members m (.boxed value i) → x.Knows value val → val ≠ .undef →
      Emit.Achieves (.of p r c) x (do
        let inside ← Emit.coerce (.ofDepth (depth + 1)) (.boxed value i) (.union shape)
        Emit.coerce (.ofDepth (depth + 1)) inside m) fun back x' =>
          back.form = .boxed ∧ back.info.key = m.key ∧ x'.Knows back.value val ∧
            x.memory.Keeps [] x'.memory) ∧
    ∀ {t : ShapeId} {o : ObjectShape} {ptr : ValueId} {items : List Value},
      Emit.Spreads x u t o ptr items →
      Emit.Achieves (.of p r c) x (do
        let inside ← Emit.coerce (.ofDepth (depth + 1)) (.boxed ptr (.object t)) (.union shape)
        Emit.coerce (.ofDepth (depth + 1)) inside (.object t)) fun back x' =>
          ∃ object, back = .boxed object (.object t) ∧ Emit.Making x object (.agg items) x' := by
  constructor
  case left =>
    intro m i value val member isMember enters isValue written
    refine .bind (Emit.coerce_enters_achieves depth moment has member isMember enters isValue) ?_
    rintro _ x₁ goes ⟨work, keeps, ptr, rfl, holds⟩
    have has₁ : x₁.HasUnion p shape u members := ⟨work ▸ has.known, has.asked⟩
    refine .of_eq (Emit.coerce_outOf isMember has₁.known) ?_
    refine (Emit.extract_achieves depth has₁ member enters.heldWhole (.inl rfl) holds
      written).mono ?_
    rintro back x₂ _ ⟨isBoxed, isKey, isBack, memory, -⟩
    exact ⟨isBoxed, isKey, isBack, memory ▸ keeps⟩
  case right =>
    intro t o ptr items spreads
    refine .bind (Emit.coerce_spreads_achieves depth moment has spreads) ?_
    rintro _ x₁ goes ⟨union, fields, rfl, holds, makes⟩
    obtain ⟨made, nullable, asked⟩ := has.asked
    obtain ⟨k, _, isPtr, cell⟩ := makes.made
    have object₁ : x₁.work.registry.object? t = some o := makes.work ▸ spreads.object
    have takes (l : Lowering) : Emit.extractMember l u union (.object t) =
        Emit.extractObject l u union t := by
      unfold Emit.extractMember
      simp only [Info.key, Emit.slotForKey_object asked spreads.general t]
    refine .of_eq (Emit.coerce_outOf rfl (makes.work ▸ has.known)) ?_
    rw [spreads.general, if_neg (by simp), takes]
    refine (Emit.extractObject_achieves depth (makes.work ▸ moment) spreads.general
      object₁ spreads.slots
      isPtr cell spreads.all holds spreads.written).mono ?_
    rintro back x₂ _ ⟨object, rfl, again⟩
    exact ⟨object, rfl, again.since makes.work makes.keeps⟩

/-- A class with a property, a class below it, and a union of the class and an object with another
property. -/
@[irreducible] def classOrOther : Program := (Id.run <| StateT.run (do
  let base ← Construction.classDecl "Base" none .none
  discard <| Construction.property base "x" .boolean none
  let derived ← Construction.classDecl "Derived" (some base) .none
  let union ← Construction.unionType
    [← Construction.instanceType base, ← Construction.objectType [("y", .boolean)]]
  let start ← Construction.expr (.convert (← Construction.expr (.construct derived [])) union)
  let (u, _) ← Construction.bind "u" (some union) (some start)
  Construction.pushEntry (← Construction.stmt (.classDecl base))
  Construction.pushEntry (← Construction.stmt (.classDecl derived))
  Construction.pushEntry u : Building Unit) {}).2.program

/-- The state once the program is compiled. -/
def classOrOtherWork : Work :=
  Compile.endOf (Compile.entry (.ofDepth 20)) (.of classOrOther .ambient {}) .start

/-- An object in memory: a record whose one field is the address of a truth value. -/
def objectAtZero : State where
  memory := { heap := #[.agg [address 1], .bool true] }
  fuel := 100

/-- A body that is given the object. -/
def givenOther : Stage := givenAddress classOrOtherWork 0 objectAtZero.memory

/-- An instance of the class below comes back, and an object is put together again. -/
theorem union_roundTrip_classOrOther : ∃ u,
    classOrOtherWork.registry.union? ⟨1⟩ = some u ∧
    Emit.Achieves (.of classOrOther .ambient {}) givenOther (do
      let inside ← Emit.coerce (.ofDepth 20) (.boxed ⟨0⟩ (.instanceOf ⟨2⟩)) (.union ⟨1⟩)
      Emit.coerce (.ofDepth 20) inside (.instanceOf ⟨0⟩)) (fun back x' =>
        back.info = .instanceOf ⟨0⟩ ∧ x'.Knows back.value (address 0)) ∧
    Emit.Achieves (.of classOrOther .ambient {}) givenOther (do
      let inside ← Emit.coerce (.ofDepth 20) (.boxed ⟨0⟩ (.object ⟨0⟩)) (.union ⟨1⟩)
      Emit.coerce (.ofDepth 20) inside (.object ⟨0⟩)) (fun back x' =>
        ∃ k, back.info = .object ⟨0⟩ ∧ x'.Knows back.value (address k) ∧
          x'.memory.heap[k]? = some (.agg [address 1])) := by
  have made : (classOrOtherWork.registry.union? ⟨1⟩).map (fun u => decide
      (u = Compile.unionOf classOrOther classOrOtherWork.registry
        [.instanceOf ⟨0⟩, .object ⟨0⟩] false u.record ∧ u.optional = false ∧
      u.slotForProp ⟨2⟩ = none ∧ u.slotForProp ⟨4⟩ = some 1 ∧ u.slotInfo 1 = .boolean)) =
          some true := by
    decide +kernel
  obtain ⟨u, known, isMade⟩ := Option.map_eq_some_iff.mp made
  obtain ⟨asked, general, apart, isSlot, isBoolean⟩ := of_decide_eq_true isMade
  have object : (classOrOtherWork.registry.object? ⟨0⟩).map (fun o => decide
      (o.props = [(⟨4⟩, .boolean)])) = some true := by
    decide +kernel
  obtain ⟨o, knownObject, isObject⟩ := Option.map_eq_some_iff.mp object
  have isProps := of_decide_eq_true isObject
  have derived : (classOrOtherWork.layouts.get? ⟨2⟩).map (fun layout => decide
      (layout.fields = [(⟨2⟩, .boolean)] ∧ layout.offset = 0)) = some true := by
    decide +kernel
  obtain ⟨layout, knownLayout, isLayout⟩ := Option.map_eq_some_iff.mp derived
  obtain ⟨isFields, isOffset⟩ := of_decide_eq_true isLayout
  have isChain : classOrOther.classChain ⟨2⟩ = .ok [⟨2⟩, ⟨0⟩] := by decide +kernel
  have isValue : givenOther.Knows ⟨0⟩ (address 0) :=
    ⟨Nat.zero_lt_one, rfl⟩
  have isInstance : givenOther.IsObject
      (.boxed ⟨0⟩ (.instanceOf ⟨2⟩)) layout.fields layout.offset [address 1] := by
    refine ⟨rfl, .ofClass knownLayout, ⟨0, isValue, rfl⟩, fun j inside => ?_⟩
    obtain rfl : j = 0 := by simpa [isFields] using inside
    exact ⟨address 1, by simp [address], by rw [isOffset]; rfl⟩
  have enters : Emit.Enters givenOther classOrOther u
      [.instanceOf ⟨0⟩, .object ⟨0⟩] (.instanceOf ⟨0⟩) (.boxed ⟨0⟩ (.instanceOf ⟨2⟩)) :=
    .base general rfl rfl isChain (by simp) (by simp) isInstance
      (by simpa [isFields] using fun _ => apart)
  have spreads : Emit.Spreads givenOther u ⟨0⟩ o ⟨0⟩
      [address 1] :=
    ⟨general, knownObject, by simp [isProps], by simp [isProps],
      by simpa [Emit.HasSlots, isProps, isSlot, isBoolean] using by decide, ⟨0, isValue, rfl⟩,
      by simp [address], by simp [isProps]⟩
  have has : givenOther.HasUnion classOrOther ⟨1⟩ u [.instanceOf ⟨0⟩, .object ⟨0⟩] :=
    ⟨known, _, false, asked⟩
  have both := union_roundTrip classOrOther .ambient {} 19
    (compile_moment 20 classOrOther .ambient {})
    has
  refine ⟨u, known, (both.1 (by simp) rfl enters isValue (by simp [address])).mono ?_,
    (both.2 spreads).mono ?_⟩
  · rintro back x' _ ⟨_, isKey, isBack, _⟩
    exact ⟨Emit.eq_instanceOf_of_key isKey, isBack⟩
  · rintro back x' _ ⟨object, rfl, makes⟩
    obtain ⟨k, _, isPtr, cell⟩ := makes.made
    exact ⟨k, rfl, isPtr, cell⟩

/-- A class with a property, a class below it, and a union of the class and an object with this
property. -/
@[irreducible] def classOrObject : Program := (Id.run <| StateT.run (do
  let base ← Construction.classDecl "Base" none .none
  discard <| Construction.property base "x" .boolean none
  let derived ← Construction.classDecl "Derived" (some base) .none
  let union ← Construction.unionType
    [← Construction.instanceType base, ← Construction.objectType [("x", .boolean)]]
  let start ← Construction.expr (.convert (← Construction.expr (.construct derived [])) union)
  let (u, _) ← Construction.bind "u" (some union) (some start)
  Construction.pushEntry (← Construction.stmt (.classDecl base))
  Construction.pushEntry (← Construction.stmt (.classDecl derived))
  Construction.pushEntry u : Building Unit) {}).2.program

/-- The state once the program is compiled. -/
def classOrObjectWork : Work :=
  Compile.endOf (Compile.entry (.ofDepth 20)) (.of classOrObject .ambient {}) .start

/-- Whether the code that was written, with an object given, computes a null pointer. -/
def givesNull (written : EStateM.Result Failure Work (Operand × Frame)) : Bool :=
  match written with
  | .error _ _ => false
  | .ok (back, f) w' =>
    match f.draft.blocks[0]? with
    | none => false
    | some k =>
      match execInsts w'.code.types (fun _ _ => throw .nestingLimit)
        ((Array.replicate f.draft.values.size .undef).setIfInBounds 0 (address 0)) k.insts.toList
        objectAtZero with
      | .error _ _ => false
      | .ok r _ => match r.read back.value with
        | .null => true
        | _ => false

/-- An instance of the class below does not come back: the union has its property, and nothing is in
the slot of the class. -/
theorem derived_instance_lost : ∃ back f w' k r st,
    (do
      let inside ← Emit.coerce (.ofDepth 20) (.boxed ⟨0⟩ (.instanceOf ⟨2⟩)) (.union ⟨1⟩)
      Emit.coerce (.ofDepth 20) inside (.instanceOf ⟨0⟩) : Emit Operand) givenObject
        (.of classOrObject .ambient {}) classOrObjectWork = .ok (back, f) w' ∧
    f.draft.blocks[0]? = some k ∧
    execInsts w'.code.types (fun _ _ => throw .nestingLimit)
      ((Array.replicate f.draft.values.size .undef).setIfInBounds 0 (address 0)) k.insts.toList
      objectAtZero = .ok r st ∧
    r.read back.value = .null := by
  have runs : givesNull ((do
      let inside ← Emit.coerce (.ofDepth 20) (.boxed ⟨0⟩ (.instanceOf ⟨2⟩)) (.union ⟨1⟩)
      Emit.coerce (.ofDepth 20) inside (.instanceOf ⟨0⟩) : Emit Operand) givenObject
        (.of classOrObject .ambient {}) classOrObjectWork) = true := by
    decide +kernel
  unfold givesNull at runs
  split at runs
  · cases runs
  · rename_i back f w' written
    split at runs
    · cases runs
    · rename_i k isBlock
      split at runs
      · cases runs
      · rename_i r st ran
        split at runs
        · rename_i isNull
          exact ⟨back, f, w', k, r, st, written, isBlock, ran, isNull⟩
        · cases runs

end ShapeCompiler
