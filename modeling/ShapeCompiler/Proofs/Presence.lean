import ShapeCompiler.Proofs.Comparisons
import ShapeCompiler.Proofs.UnknownValues

/-!
# Values that may be missing

An optional union is a record of a marker and a value.

* `Stage.HasOptional`: a union of one member with null beside it;
* `Emit.coerce_nullish_achieves`, `Emit.coerce_member_achieves`, `Emit.coerce_scalar_achieves`,
  `Emit.coerce_unknown_attains`: the ways to make one;
* `Emit.isPresent_achieves`, `Emit.isAbsent_achieves`, `Emit.equal_nullish_achieves`: the marker is
  read;
* `presence_by_marker`: however it is made and looked at, the marker tells whether there is a value.
-/

namespace ShapeCompiler

open Source Code Work Machine

/-- A union of one member with null beside it. If the member is a union, it is another one, and it
is registered too. -/
structure Stage.HasOptional (x : Stage) (p : Program) (shape : ShapeId)
    (u : UnionShape) (m : Info) :
    Prop where
  has : x.HasUnion p shape u [m]
  optional : u.optional = true
  plain : m.isNullish = false
  nested : ∀ inner, m = .union inner → inner ≠ shape ∧ ∃ other,
    x.work.registry.union? inner = some other

namespace Stage.HasOptional

variable {x : Stage} {p : Program} {shape : ShapeId} {u : UnionShape} {m : Info}

theorem memberInfo (h : x.HasOptional p shape u m) : u.memberInfo = m := by
  obtain ⟨made, nullable, asked⟩ := h.has.asked
  exact (unionOf_optional asked (List.mem_singleton.mpr rfl) h.optional).1

theorem apart (h : x.HasOptional p shape u m) : m ≠ .union shape :=
  fun same => (h.nested shape same).1 rfl

/-- The one member is held as a whole. -/
theorem whole (h : x.HasOptional p shape u m) : u.hasPropertySlots = false := by
  obtain ⟨made, nullable, asked⟩ := h.has.asked
  have isSlots : u.slots = [⟨m.key, m.describe p made, m, none⟩] := by
    have listed : u.slots = addSlots [] (memberSlots p made u.optional m) := by
      rw [asked]
      simp [Compile.unionOf]
    rw [listed, memberSlots_of_whole (.inl h.optional)]
    rfl
  have isProps : u.props = propSlots u.slots := by
    rw [asked]
    rfl
  rw [UnionShape.hasPropertySlots, isProps, isSlots]
  rfl

end Stage.HasOptional

namespace Emit

variable {s : Setup} {x : Stage} {p : Program} {shape : ShapeId} {u : UnionShape} {m : Info}
  {l : Lowering} {w : Work} {f : Frame}

/-! ## Making -/

/-- The new record of an optional union, where all that was in memory stays as it was. -/
def Becomes (x : Stage) (shape : ShapeId) (present : Bool) (val : Value)
    (made : Operand) (x' : Stage) :
    Prop :=
  ∃ ptr v, made = .boxed ptr (.union shape) ∧ x'.Knows ptr v ∧
    UnionShape.Marked x'.memory v present val ∧ x.memory.Keeps [] x'.memory

theorem Making.becomes {x₁ x' : Stage} {ptr : ValueId} {present : Bool} {val : Value}
    (h : Making x₁ ptr (.agg [.bool present, val]) x') (keeps : x.memory.Keeps [] x₁.memory)
    (shape : ShapeId) : Becomes x shape present val (.boxed ptr (.union shape)) x' := by
  obtain ⟨k, _, isPtr, cell⟩ := h.made
  exact ⟨ptr, address k, rfl, isPtr, ⟨k, _, rfl, cell, rfl, rfl⟩, keeps.trans h.keeps⟩

/-- Null and nothing become a record that is marked as absent. -/
theorem coerce_nullish_achieves (moment : Moment s x.work) (has : x.HasOptional p shape u m)
    {v : Operand} (nullish : v.info.isNullish = true) :
    Achieves s x (coerce l v (.union shape)) (Becomes x shape false .null) := by
  have goes : coerce l v (.union shape) x.frame s x.work =
      (do return .boxed (← Draft.alloc u.record "union.absent") (.union shape) : Emit Operand)
        x.frame s x.work := by
    obtain ⟨value, info, form⟩ := v
    have made : unionInit l ⟨value, info, form⟩ shape x.frame s x.work = _ :=
      unionShape_bind_apply _ has.has.known
    cases info with
    | null | void =>
      refine made.trans ?_
      simp [Info.isNullish, has.optional]
    | _ => cases nullish
  apply Achieves.of_eq goes
  refine .bind (alloc_achieves "union.absent" (has.has.zero_optional moment has.optional)) ?_
  rintro ptr x₁ _ ⟨isPtr, memory, _, _⟩
  refine .pure ⟨ptr, _, rfl, isPtr, ⟨_, [.bool false, .null], rfl, ?_, rfl, rfl⟩, ?_⟩
  · rw [memory]
    exact Memory.heap_push _ _
  · rw [memory]
    exact Memory.keeps_push _ _

/-- A value of the member goes to a new record as it is. -/
theorem coerce_member (depth : Nat) (has : x.HasOptional p shape u m)
    (notAny : m ≠ .any) {v : Operand}
    (isMember : v.info = m) :
    coerce (.ofDepth (depth + 1)) v (.union shape) x.frame s x.work = (do
      let inside ← boxed v
      return .boxed (← presentUnion u.record inside) (.union shape) : Emit Operand)
      x.frame s x.work := by
  obtain ⟨value, info, form⟩ := v
  subst isMember
  dsimp only at *
  have apart := has.apart
  have plain := has.plain
  have goes : coerce (.ofDepth (depth + 1)) ⟨value, info, form⟩ (.union shape) =
      unionInit (.ofDepth (depth + 1)) ⟨value, info, form⟩ shape := by
    cases info with
    | any => exact absurd rfl notAny
    | union inner => simp [coerce, apart]
    | _ => rfl
  rw [goes, unionInit, unionShape_bind_apply _ has.has.known]
  simp only [apart, plain, notAny, has.optional, if_true, if_false, Bool.false_eq_true]
  rw [initOptional, has.memberInfo]
  have stays (i : Info) : (Lowering.ofDepth (depth + 1)).coerce ⟨value, i, form⟩ i =
      pure ⟨value, i, form⟩ := coerce_self (.ofDepth depth) ⟨value, i, form⟩
  cases info with
  | union inner =>
    obtain ⟨other, known⟩ := (has.nested inner rfl).2
    have stays : (Lowering.ofDepth (depth + 1)).extract ⟨value, .union inner, form⟩
      inner (.union inner)
        x.frame s x.work = (pure ⟨value, .union inner, form⟩ : Emit Operand) x.frame s x.work := by
      change unionExtract (.ofDepth depth) ⟨value, .union inner, form⟩ inner
        (.union inner) x.frame s
        x.work = _
      rw [unionExtract, unionShape_bind_apply _ known]
      simp
    exact (bind_congr_apply stays).trans (by rw [pure_bind])
  | _ => rw [stays, pure_bind]

/-- The pointer of a member becomes a record that is marked as present. -/
theorem coerce_member_achieves (depth : Nat) (moment : Moment s x.work)
    (has : x.HasOptional p shape u m)
    (notAny : m ≠ .any) {value : ValueId} {q : Value} (isValue : x.Knows value q) :
    Achieves s x (coerce (.ofDepth (depth + 1)) (.boxed value m) (.union shape))
      (Becomes x shape true q) := by
  apply Achieves.of_eq (coerce_member depth has notAny rfl)
  have isZero := has.has.zero_optional moment has.optional
  rw [boxed_of_boxed rfl, pure_bind]
  refine .bind ((presentUnion_makes isZero isValue).achieves (.presentUnion _ _)) ?_
  rintro ptr x₁ _ makes
  exact .pure (makes.becomes (.refl _ _) shape)

/-- A scalar goes to a new cell first. -/
theorem coerce_scalar_achieves (depth : Nat) (moment : Moment s x.work)
    (has : x.HasOptional p shape u m)
    {value : ValueId} {val : Value} (scalar : m.Scalar val) (isValue : x.Knows value val) :
    Achieves s x (coerce (.ofDepth (depth + 1)) (.raw value m) (.union shape)) fun made x' =>
      ∃ k, Becomes x shape true (address k) made x' ∧ x'.memory.heap[k]? = some val := by
  have notAny : m ≠ .any := by cases scalar <;> simp
  apply Achieves.of_eq (coerce_member depth has notAny rfl)
  refine .bind (boxed_carries moment scalar (.raw isValue)) ?_
  rintro inside x₁ _ ⟨work₁, keeps₁, k, isCell, cell⟩
  have has₁ : x₁.HasUnion p shape u [m] := ⟨work₁ ▸ has.has.known, has.has.asked⟩
  have moment₁ : Moment s x₁.work := work₁ ▸ moment
  have isZero := has₁.zero_optional moment₁ has.optional
  refine .bind ((presentUnion_makes isZero isCell).achieves (.presentUnion _ _)) ?_
  rintro ptr x₂ _ makes
  exact .pure ⟨k, makes.becomes keeps₁ shape, makes.keeps.heap k _ (by simp) cell⟩

/-- A pointer of which nothing is known becomes a record that is marked as present unless it is
null. -/
theorem coerce_unknown_attains (moment : Moment s x.work) (has : x.HasOptional p shape u m)
    {value : ValueId} {q : Value} (isValue : x.Knows value q) (isAddress : q.address?.isSome) :
    Attains s x (coerce l (.boxed value .any) (.union shape)) fun made x' =>
      Becomes x shape (!q.isNull) q made x' := by
  apply Attains.of_eq (coerce_fromAny has.has.known)
  refine (unionFromAny_attains moment has.has has.whole isValue isAddress).mono ?_
  rintro _ x₁ _ ⟨ptr, v, rfl, isPtr, stands, _, keeps⟩
  refine ⟨ptr, v, rfl, isPtr, ?_, keeps⟩
  by_cases isNull : q = .null
  · have nothing := stands.missing isNull
    rw [UnionShape.Nothing, if_pos has.optional] at nothing
    rw [isNull]
    exact nothing
  · have first : 0 < u.slots.length := by
      rw [has.has.one_slot has.optional]
      exact Nat.zero_lt_one
    rw [isNull_eq_false isNull]
    exact (stands.held isNull 0 first (by simp)).marked has.optional

/-! ## Looking -/

section Looking

variable {ptr : ValueId} {v val : Value} {present : Bool}

/-- The marker is read. -/
theorem isPresent_achieves (has : x.HasOptional p shape u m) (isPtr : x.Knows ptr v)
    (marked : UnionShape.Marked x.memory v present val) :
    Achieves s x (isPresent (.boxed ptr (.union shape)) shape) fun a x' =>
      x'.Knows a (.bool present) ∧ x'.memory = x.memory := by
  obtain ⟨k, items, rfl, cell, marker, _⟩ := marked
  have reads : isPresent (.boxed ptr (.union shape)) shape x.frame s x.work = (do
      let marker ← Draft.fieldAddr u.record ptr 0 "present.p"
      Draft.load .i1 marker "present" : Emit ValueId) x.frame s x.work := by
    rw [isPresent, unionShape_bind_apply _ has.has.known, if_pos has.optional]
    rfl
  apply Achieves.of_eq reads
  refine .bind (fieldAddr_achieves u.record 0 "present.p" isPtr) ?_
  rintro a x₁ _ ⟨isMarker, memory₁, _⟩
  have loaded : x₁.memory.load (element k 0) = .ok (.bool present) := by
    rw [memory₁]
    exact Memory.load_heap cell marker (by simp)
  refine (load_achieves .i1 "present" isMarker loaded).mono ?_
  rintro b x₂ _ ⟨isRead, memory₂, _⟩
  exact ⟨isRead, memory₂.trans memory₁⟩

/-- A value is missing if the marker says so. -/
theorem isAbsent_achieves (has : x.HasOptional p shape u m) (isPtr : x.Knows ptr v)
    (marked : UnionShape.Marked x.memory v present val) :
    Achieves s x (isAbsent (.boxed ptr (.union shape))) fun a x' =>
      x'.Knows a (.bool !present) ∧ x'.memory = x.memory := by
  have asks : isAbsent (.boxed ptr (.union shape)) x.frame s x.work = (do
      Draft.not (← isPresent (.boxed ptr (.union shape)) shape) "absent" : Emit ValueId)
        x.frame s x.work := by
    have shaped : optionalShape? (Operand.boxed ptr (.union shape)).info s x.work =
        .ok (some shape) x.work := (optionalShape_apply has.has.known).trans
          (by rw [has.optional, if_pos rfl])
    rw [isAbsent, lift_bind_apply, Compile.bind_apply, shaped]
  apply Achieves.of_eq asks
  refine .bind (isPresent_achieves has isPtr marked) ?_
  rintro a x₁ _ ⟨isMarker, memory₁⟩
  refine (Achieves.define (.not "absent" isMarker.value)).mono ?_
  rintro b x₂ _ ⟨⟨isRead, memory₂, _⟩, _, _⟩
  exact ⟨isRead, memory₂.trans memory₁⟩

/-- An optional union is looked for on either side of a comparison with null. -/
theorem equal_nullish (has : x.HasOptional p shape u m) (ptr : ValueId) {n : Operand}
    (nullish : n.info.isNullish = true) :
    equal (.boxed ptr (.union shape)) n x.frame s x.work =
        isAbsent (.boxed ptr (.union shape)) x.frame s x.work ∧
      equal n (.boxed ptr (.union shape)) x.frame s x.work =
        isAbsent (.boxed ptr (.union shape)) x.frame s x.work := by
  have meets : meetsNull (.boxed ptr (.union shape)) n x.frame s x.work =
      .ok (true, x.frame) x.work := by
    have shaped : optionalShape? (Operand.boxed ptr (.union shape)).info s x.work =
        .ok (some shape) x.work := (optionalShape_apply has.has.known).trans
          (by rw [has.optional, if_pos rfl])
    rw [meetsNull, if_pos nullish, lift_bind_apply, Compile.bind_apply, shaped]
    rfl
  have other : meetsNull n (.boxed ptr (.union shape)) x.frame s x.work =
    .ok (false, x.frame) x.work := rfl
  constructor
  · have found : comparedWithNull? (.boxed ptr (.union shape)) n x.frame s x.work =
        .ok (some (.boxed ptr (.union shape)), x.frame) x.work := by
      rw [comparedWithNull?, bind_of_ok meets]
      rfl
    rw [equal, bind_of_ok found]
  · have found : comparedWithNull? n (.boxed ptr (.union shape)) x.frame s x.work =
        .ok (some (.boxed ptr (.union shape)), x.frame) x.work := by
      rw [comparedWithNull?, bind_of_ok other, if_neg (by simp), bind_of_ok meets]
      rfl
    rw [equal, bind_of_ok found]

/-- What is compared with null is the marker, whatever the side. -/
theorem strictEq_nullish_achieves (has : x.HasOptional p shape u m) (isPtr : x.Knows ptr v)
    (marked : UnionShape.Marked x.memory v present val) {n : Operand}
    (nullish : n.info.isNullish = true) :
    (Achieves s x (strictBinary .strictEq (.boxed ptr (.union shape)) n) fun answer x' =>
      answer.form = .raw ∧ x'.Knows answer.value (.bool !present) ∧ x'.memory = x.memory) ∧
    Achieves s x (strictBinary .strictEq n (.boxed ptr (.union shape))) fun answer x' =>
      answer.form = .raw ∧ x'.Knows answer.value (.bool !present) ∧ x'.memory = x.memory := by
  obtain ⟨onLeft, onRight⟩ := equal_nullish (s := s) has ptr nullish
  have absent := isAbsent_achieves (s := s) has isPtr marked
  constructor
  · refine .bind (Achieves.of_eq onLeft absent) ?_
    rintro a x₁ _ ⟨isRead, memory⟩
    exact .pure ⟨rfl, isRead, memory⟩
  · refine .bind (Achieves.of_eq onRight absent) ?_
    rintro a x₁ _ ⟨isRead, memory⟩
    exact .pure ⟨rfl, isRead, memory⟩

/-- Those who know nothing of the union see the value, or null. -/
theorem coerce_optional_toAny_attains (moment : Moment s x.work) (has : x.HasOptional p shape u m)
    (isPtr : x.Knows ptr v) (marked : UnionShape.Marked x.memory v present val)
    (written : val ≠ .undef) :
    Attains s x (coerce l (.boxed ptr (.union shape)) .any) fun outside x' =>
      outside.form = .boxed ∧ outside.info = .any ∧
        x'.Knows outside.value (if present then val else .null) ∧ x.memory.Keeps [] x'.memory := by
  have offers : u.Offers x.memory v (if present then val else .null) := by
    cases present with
    | true => exact .present has.optional marked
    | false => exact .missing (.inr ⟨has.optional, _, marked⟩)
  have isWritten : (if present then val else .null) ≠ .undef := by
    split
    · exact written
    · simp
  rw [coerce_toAny]
  refine (unionToAny_attains moment has.has.known has.whole isPtr offers isWritten).mono ?_
  rintro _ x₁ _ ⟨value, rfl, isValue, _, keeps⟩
  exact ⟨rfl, rfl, isValue, keeps⟩

end Looking

end Emit

/-- Optional unions. Null and nothing become a record that is marked as absent; a value of the
member becomes one that is marked as present and holds its pointer, a scalar that of a new cell; a
pointer of which nothing is known becomes one that is marked as present unless it is null. And
whatever the record, the test whether a value is there, the one whether it is missing, a comparison
with null on either side and the way to a value of which nothing is known all tell what the marker
says. -/
theorem presence_by_marker (p : Program) (r : Resolver) (c : Config) (depth : Nat) {x : Stage}
    {shape : ShapeId} {u : UnionShape} {m : Info} (moment : Moment (.of p r c) x.work)
    (has : x.HasOptional p shape u m) (notAny : m ≠ .any) :
    (∀ v : Operand, v.info.isNullish = true →
      Emit.Achieves (.of p r c) x (Emit.coerce (.ofDepth (depth + 1)) v (.union shape))
        (Emit.Becomes x shape false .null)) ∧
    (∀ value q, x.Knows value q →
      Emit.Achieves (.of p r c) x (Emit.coerce (.ofDepth (depth + 1))
      (.boxed value m) (.union shape))
        (Emit.Becomes x shape true q)) ∧
    (∀ value val, m.Scalar val → x.Knows value val →
      Emit.Achieves (.of p r c) x (Emit.coerce (.ofDepth (depth + 1)) (.raw value m) (.union shape))
        fun made x' => ∃ k, Emit.Becomes x shape true (address k) made x' ∧
          x'.memory.heap[k]? = some val) ∧
    (∀ value q, x.Knows value q → q.address?.isSome →
      Emit.Attains (.of p r c) x (Emit.coerce (.ofDepth (depth + 1))
      (.boxed value .any) (.union shape))
        (Emit.Becomes x shape (!q.isNull) q)) ∧
    ∀ ptr v present val, x.Knows ptr v → UnionShape.Marked x.memory v present val → val ≠ .undef →
      Emit.Achieves (.of p r c) x (Emit.isPresent (.boxed ptr (.union shape)) shape) (fun a x' =>
        x'.Knows a (.bool present) ∧ x'.memory = x.memory) ∧
      Emit.Achieves (.of p r c) x (Emit.isAbsent (.boxed ptr (.union shape))) (fun a x' =>
        x'.Knows a (.bool !present) ∧ x'.memory = x.memory) ∧
      (∀ n : Operand, n.info.isNullish = true →
        Emit.Achieves (.of p r c) x (Emit.strictBinary .strictEq (.boxed ptr (.union shape)) n)
          (fun answer x' => answer.form = .raw ∧ x'.Knows answer.value (.bool !present) ∧
            x'.memory = x.memory) ∧
        Emit.Achieves (.of p r c) x (Emit.strictBinary .strictEq n (.boxed ptr (.union shape)))
          fun answer x' => answer.form = .raw ∧ x'.Knows answer.value (.bool !present) ∧
            x'.memory = x.memory) ∧
      Emit.Attains (.of p r c) x (Emit.coerce (.ofDepth (depth + 1))
      (.boxed ptr (.union shape)) .any)
        fun outside x' => outside.form = .boxed ∧ outside.info = .any ∧
          x'.Knows outside.value (if present then val else .null) ∧
          x.memory.Keeps [] x'.memory := by
  refine ⟨fun v nullish => Emit.coerce_nullish_achieves moment has nullish,
    fun value q isValue => Emit.coerce_member_achieves depth moment has notAny isValue,
    fun value val scalar isValue => Emit.coerce_scalar_achieves depth moment has scalar isValue,
    fun value q isValue isAddress => Emit.coerce_unknown_attains moment has isValue isAddress,
    fun ptr v present val isPtr marked written => ⟨?_, ?_, fun n nullish => ?_, ?_⟩⟩
  · exact Emit.isPresent_achieves has isPtr marked
  · exact Emit.isAbsent_achieves has isPtr marked
  · exact Emit.strictEq_nullish_achieves has isPtr marked nullish
  · exact Emit.coerce_optional_toAny_attains moment has isPtr marked written

/-- A truth value that is there is not missing, and its pointer comes out; a pointer that goes in is
there. -/
theorem presence_by_marker_widened :
    Emit.Achieves (.of widened .ambient {}) (givenAddress widenedWork 0 presentAtZero)
      (Emit.isAbsent (.boxed ⟨0⟩ (.union ⟨0⟩))) (fun a x' =>
        x'.Knows a (.bool false) ∧ x'.memory = presentAtZero) ∧
    Emit.Attains (.of widened .ambient {}) (givenAddress widenedWork 0 presentAtZero)
      (Emit.coerce (.ofDepth 20) (.boxed ⟨0⟩ (.union ⟨0⟩)) .any) (fun outside x' =>
        x'.Knows outside.value (address 1)) ∧
    Emit.Attains (.of widened .ambient {}) (givenAddress widenedWork 0 presentAtZero)
      (Emit.coerce (.ofDepth 20) (.boxed ⟨0⟩ .any) (.union ⟨0⟩))
      (Emit.Becomes (givenAddress widenedWork 0 presentAtZero) ⟨0⟩ true (address 0)) := by
  have made : (widenedWork.registry.union? ⟨0⟩).map (fun u => decide (u.optional = true ∧
      u = Compile.unionOf widened widenedWork.registry [.boolean] true u.record)) = some true := by
    decide +kernel
  obtain ⟨u, known, isMade⟩ := Option.map_eq_some_iff.mp made
  obtain ⟨optional, asked⟩ := of_decide_eq_true isMade
  have has : (givenAddress widenedWork 0 presentAtZero).HasOptional widened ⟨0⟩ u .boolean :=
    ⟨⟨known, _, _, asked⟩, optional, rfl, by simp⟩
  have isPtr : (givenAddress widenedWork 0 presentAtZero).Knows ⟨0⟩ (address 0) :=
    ⟨Nat.zero_lt_one, rfl⟩
  obtain ⟨_, _, _, unknown, looking⟩ := presence_by_marker widened .ambient {} 19
    (compile_moment 20 widened .ambient {}) has (by simp)
  obtain ⟨_, absent, _, outside⟩ := looking ⟨0⟩ (address 0) true (address 1) isPtr
    ⟨0, _, rfl, rfl, rfl, rfl⟩ (by simp)
  exact ⟨absent, outside.mono fun _ _ _ here => here.2.2.1, unknown ⟨0⟩ (address 0) isPtr rfl⟩

end ShapeCompiler
