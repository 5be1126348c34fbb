import ShapeCompiler.Proofs.CallSites
import ShapeCompiler.Proofs.Conversions

/-!
# Scalars that are tested and compared

A scalar can be held by itself or in a union that it is a member of.

* `Value.isTrue`, `Value.same`: what a test and a comparison of scalars mean;
* `Stage.Carries`, `Stage.Form`, `Stage.HeldIn`: a scalar of the body, what it can be held in, and
  the scalar held in it;
* `Emit.coerce_form`, `Emit.truthy_held`, `Emit.equal_held`: what is written to hold, test and
  compare;
* `scalars_held_agree`: a scalar that counts as true does so in every form; two scalars by
  themselves are compared by value, and one in a union is the same as no other.

The record of a union is never null, so what counts as false by itself counts as true in a union
(`held_apart`).
-/

namespace ShapeCompiler

open Source Code Work Machine

/-! ## Scalars -/

section Order

theorem float_order_eq (a b : Float) :
    (floatOrder a b).elim (decide (Predicate.eq = .ne)) (Predicate.holds .eq) =
      decide (floatOrder a b = some .eq) := by
  cases floatOrder a b with
  | none => rfl
  | some order => cases order <;> rfl

theorem float_order_ne (a b : Float) :
    (floatOrder a b).elim (decide (Predicate.ne = .ne)) (Predicate.holds .ne) =
      decide (floatOrder a b ≠ some .eq) := by
  cases floatOrder a b with
  | none => rfl
  | some order => cases order <;> rfl

theorem text_order_eq (a b : String) : Predicate.holds .eq (compare a b) = decide (a = b) := by
  by_cases same : a = b
  · subst same
    simp [Predicate.holds]
  · have apart : compare a b ≠ .eq := fun equal => same (Std.LawfulEqOrd.eq_of_compare equal)
    simp [Predicate.holds, apart, same]

theorem text_order_ne (a b : String) : Predicate.holds .ne (compare a b) = decide (a ≠ b) := by
  have opposite : Predicate.holds .ne (compare a b) = !Predicate.holds .eq (compare a b) := rfl
  rw [opposite, text_order_eq]
  simp

end Order

/-- The scalars of a program, as they are at run time. -/
inductive Info.Scalar : Info → Value → Prop
  | number (n : Float) : Scalar .number (.float n)
  | boolean (b : Bool) : Scalar .boolean (.bool b)
  | text (t : String) : Scalar .text (.text t)

namespace Machine.Value

/-- False, zero and the empty text do not count as true. -/
def isTrue : Value → Bool
  | .bool b => b
  | .float n => floatOrder n 0.0 ≠ some .eq
  | .text t => t ≠ ""
  | _ => true

/-- Two scalars of one type are the same. What is not a number is not the same as itself. -/
def same : Value → Value → Bool
  | .float a, .float b => floatOrder a b = some .eq
  | .bool a, .bool b => a = b
  | .text a, .text b => a = b
  | _, _ => false

end Machine.Value

namespace Info.Scalar

variable {i : Info} {a b : Value}

theorem isPrimitive (h : i.Scalar a) : i.isPrimitive = true := by cases h <;> rfl

theorem isMember (h : i.Scalar a) : i.isMember = true := by cases h <;> rfl

theorem not_isNullish (h : i.Scalar a) : i.isNullish = false := by cases h <;> rfl

theorem not_union (h : i.Scalar a) (shape : ShapeId) : i ≠ .union shape := by cases h <;> simp

theorem heldWhole (h : i.Scalar a) (optional : Bool) : HeldWhole optional i := by
  cases h <;> exact .inr (by simp)

theorem written (h : i.Scalar a) : a ≠ .undef := by cases h <;> simp

theorem ne_agg (h : i.Scalar a) (items : List Value) : a ≠ .agg items := by cases h <;> simp

/-- Scalars of one type are compared by value. -/
theorem compare_eq (h : i.Scalar a) (h' : i.Scalar b) : compareValues .eq a b = .ok (a.same b) := by
  cases h with
  | number n =>
    cases h' with
    | number n' => exact congrArg Except.ok (float_order_eq n n')
  | boolean b =>
    cases h' with
    | boolean b' => cases b <;> cases b' <;> rfl
  | text t =>
    cases h' with
    | text t' => exact congrArg Except.ok (text_order_eq t t')

end Info.Scalar

/-- Different addresses are different. -/
theorem Machine.compare_address (k k' : Nat) :
    compareValues .eq (address k) (address k') = .ok (decide (k = k')) := by
  by_cases same : k = k'
  · subst same
    simp [compareValues, Value.address?]
  · simp [compareValues, Value.address?, Region.root, same]

/-! ## What holds a scalar -/

/-- The operand is the scalar: by itself, or in a cell. -/
inductive Stage.Carries (x : Stage) (i : Info) (val : Value) : Operand → Prop
  | raw {v : ValueId} (isValue : x.Knows v val) : Carries x i val (.raw v i)
  | boxed {v : ValueId} {k : Nat} (isPtr : x.Knows v (address k))
    (cell : x.memory.heap[k]? = some val) : Carries x i val (.boxed v i)

/-- The forms that a scalar can take: its own, and the unions that it is a member of. -/
inductive Stage.Form (x : Stage) (p : Program) (i : Info) : Info → Prop
  | own : Form x p i i
  | union {shape : ShapeId} {u : UnionShape} {members : List Info}
    (has : x.HasUnion p shape u members)
    (member : i ∈ members) :
    Form x p i (.union shape)

/-- The operand is the scalar in a form: by itself, or in the record of a union. The record is
marked as present if it has a marker; it was made after the first `since` allocations, and before
there were `upTo`. -/
inductive Stage.HeldIn (x : Stage) (i : Info) (val : Value) (since upTo : Nat) :
    Info → Operand → Prop
  | own {v : Operand} (carries : x.Carries i val v) : HeldIn x i val since upTo i v
  | union {ptr : ValueId} {shape : ShapeId} {u : UnionShape} {k : Nat} {items : List Value}
    (known : x.work.registry.union? shape = some u) (isPtr : x.Knows ptr (address k))
    (cell : x.memory.heap[k]? = some (.agg items)) (made : since ≤ k ∧ k < upTo)
    (present : u.optional = true → items[0]? = some (.bool true)) :
    HeldIn x i val since upTo (.union shape) (.boxed ptr (.union shape))

section Later

variable {s : Setup} {x x' : Stage} {i form : Info} {val : Value} {v : Operand}
  {since upTo : Nat} {p : Program}

theorem Stage.Carries.later (h : x.Carries i val v) (goes : x.Goes s x')
    (keeps : x.memory.Keeps [] x'.memory) : x'.Carries i val v := by
  cases h with
  | raw isValue => exact .raw (goes.knows isValue)
  | boxed isPtr cell => exact .boxed (goes.knows isPtr) (keeps.heap _ _ (by simp) cell)

theorem Stage.Form.of_work (h : x.Form p i form) (work : x'.work = x.work) : x'.Form p i form := by
  cases h with
  | own => exact .own
  | union has member =>
    exact .union ⟨work ▸ has.known, has.asked⟩ member

theorem Stage.HeldIn.later (h : x.HeldIn i val since upTo form v) (goes : x.Goes s x')
    (keeps : x.memory.Keeps [] x'.memory) (work : x'.work = x.work) :
    x'.HeldIn i val since upTo form v := by
  cases h with
  | own carries => exact .own (carries.later goes keeps)
  | union known isPtr cell made present =>
    exact .union (work ▸ known) (goes.knows isPtr) (keeps.heap _ _ (by simp) cell) made present

/-- A scalar in its own form is by itself or in a cell. -/
theorem Stage.HeldIn.carries (h : x.HeldIn i val since upTo i v) (scalar : i.Scalar val) :
    x.Carries i val v := by
  cases h with
  | own carries => exact carries
  | union => cases scalar

theorem Stage.HeldIn.not_isNullish (h : x.HeldIn i val since upTo form v) (scalar : i.Scalar val) :
    v.info.isNullish = false := by
  cases h with
  | own carries => cases carries <;> exact scalar.not_isNullish
  | union => rfl

end Later

namespace Emit

variable {s : Setup} {x : Stage} {i : Info} {val : Value} {v : Operand}
  {since upTo : Nat}

/-! ## By itself and in a cell -/

/-- A scalar by itself. -/
theorem raw_carries (scalar : i.Scalar val) (carries : x.Carries i val v) :
    Achieves s x (raw v) fun a x' =>
      x'.Knows a val ∧ x'.memory = x.memory ∧ x'.work = x.work := by
  cases carries with
  | raw isValue => exact .pure ⟨isValue, rfl, rfl⟩
  | @boxed p k isPtr cell =>
    obtain ⟨ty, isCell⟩ := Option.isSome_iff_exists.mp scalar.isPrimitive
    have loads : raw (.boxed p i) = liftM (Draft.load ty p "unbox") := by
      simp only [raw, Operand.boxed, isCell]
    have loaded : x.memory.load (x.values p) = .ok val := by
      have isAddress : x.values p = address k := isPtr.value
      rw [isAddress]
      exact Memory.load_cell cell scalar.written
    rw [loads]
    refine Does.achieves (.write (.load ty "unbox" loaded) ?_) (.write _)
    rintro a q _ ⟨isValue, memory, -⟩
    exact ⟨isValue, memory, rfl⟩

/-- What a new cell for a scalar holds. -/
theorem zeroValue_scalar (moment : Moment s x.work) (scalar : i.Scalar val) {ty : TyId}
    (isCell : i.cell? = some ty) :
    ∃ zero, ∀ types, x.Admits types → zeroValue types ty = zero := by
  cases scalar with
  | number =>
    cases isCell
    refine ⟨.float 0.0, fun types admitted => ?_⟩
    have isFloat : types.get .f64 = .f64 := moment.get_of_start admitted rfl (by simp) (by simp)
    simp only [zeroValue, zeroValueAt, isFloat]
  | boolean =>
    cases isCell
    refine ⟨.bool false, fun types admitted => ?_⟩
    have isBool : types.get .i1 = .i1 := moment.get_of_start admitted rfl (by simp) (by simp)
    simp only [zeroValue, zeroValueAt, isBool]
  | text =>
    cases isCell
    refine ⟨.text "", fun types admitted => ?_⟩
    have isText : types.get .str = .str := moment.get_of_start admitted rfl (by simp) (by simp)
    simp only [zeroValue, zeroValueAt, isText]

/-- A scalar by itself moves to a new cell. -/
theorem boxed_raw {p : ValueId} (moment : Moment s x.work) (scalar : i.Scalar val)
    (isValue : x.Knows p val) :
    Achieves s x (boxed (.raw p i)) fun a x' => x'.work = x.work ∧
      x'.Knows a (address x.memory.heap.size) ∧ x'.memory = x.memory.push val := by
  obtain ⟨ty, isCell⟩ := Option.isSome_iff_exists.mp scalar.isPrimitive
  obtain ⟨zero, isZero⟩ := zeroValue_scalar moment scalar isCell
  have stores : boxed (.raw p i) = (do
      let cell ← Draft.alloc ty "box"
      Draft.store p cell
      return cell : Emit ValueId) := by
    simp only [boxed, Operand.raw, isCell]
  rw [stores]
  refine Does.achieves (.write_bind (.alloc "box" isZero) ?_)
    (.bind (.write _) fun _ => .bind (.write _) fun _ => .pure _)
  rintro cell q goes ⟨isNew, memory, -⟩
  have stored : q.memory.store (q.values cell) (q.values p) = .ok (x.memory.push val) := by
    rw [isNew.value, (goes.knows isValue).value, memory]
    exact (Memory.store_cell (by simp) val).trans (by rw [Memory.put_push]; rfl)
  refine .write_bind (x := x.moved q) (.store stored) ?_
  rintro _ q' goes' ⟨_, memory', -⟩
  exact .pure ⟨rfl, goes'.knows isNew, memory'⟩

/-- A scalar in a cell. -/
theorem boxed_carries (moment : Moment s x.work) (scalar : i.Scalar val)
    (carries : x.Carries i val v) :
    Achieves s x (boxed v) fun a x' => x'.work = x.work ∧ x.memory.Keeps [] x'.memory ∧
      ∃ k, x'.Knows a (address k) ∧ x'.memory.heap[k]? = some val := by
  cases carries with
  | @boxed p k isPtr cell => exact .pure ⟨rfl, .refl _ _, k, isPtr, cell⟩
  | @raw p isValue =>
    refine (boxed_raw moment scalar isValue).mono ?_
    rintro a x' _ ⟨work, isNew, memory⟩
    rw [memory]
    exact ⟨work, Memory.keeps_push _ _, _, isNew, Memory.heap_push _ _⟩

/-! ## In a union -/

/-- A scalar goes to a new record, with its cell. -/
theorem coerce_union (depth : Nat) {shape : ShapeId} {u : UnionShape} {members : List Info}
    (moment : Moment s x.work) (scalar : i.Scalar val) (carries : x.Carries i val v)
    (has : x.HasUnion s.program shape u members)
    (member : i ∈ members) :
    Achieves s x (coerce (.ofDepth (depth + 1)) v (.union shape)) fun held x' =>
      x'.work = x.work ∧ x.memory.Keeps [] x'.memory ∧
        x'.HeldIn i val x.memory.heap.size x'.memory.heap.size (.union shape) held := by
  obtain ⟨made, nullable, asked⟩ := has.asked
  have isInfo : v.info = i := by cases carries <;> rfl
  have isMember : v.info.isMember := isInfo ▸ scalar.isMember
  apply Achieves.of_eq (coerce_into isMember has.known)
  cases optional : u.optional with
  | true =>
    obtain ⟨isOnly, _, _⟩ := unionOf_optional asked member optional
    have goes : initOptional (.ofDepth (depth + 1)) v u shape = (do
        let cell ← boxed v
        return .boxed (← presentUnion u.record cell) (.union shape)) := by
      have same : (Lowering.ofDepth (depth + 1)).coerce v u.memberInfo = pure v := by
        rw [isOnly, ← isInfo]
        exact coerce_self _ v
      unfold initOptional
      rw [isInfo, same]
      cases scalar <;> rfl
    rw [if_pos rfl, goes]
    refine .bind (boxed_carries moment scalar carries) ?_
    rintro cell x₁ _ ⟨work₁, keeps₁, k, isCell, _⟩
    have isZero (types : TypeTable) (admitted : x₁.Admits types) :=
      has.zero_optional moment optional types (admitted.of_work work₁)
    refine .bind ((presentUnion_makes isZero isCell).achieves (.presentUnion _ _)) ?_
    rintro ptr x₂ _ ⟨work₂, keeps₂, k', new, isPtr, record⟩
    have isWork := work₂.trans work₁
    refine .pure ⟨isWork, keeps₁.trans keeps₂, ?_⟩
    exact .union (isWork ▸ has.known) isPtr record
      ⟨Nat.le_trans keeps₁.size new, Memory.lt_of_heap record⟩ fun _ => rfl
  | false =>
    obtain ⟨slot, _, found, isSlot, _⟩ := unionOf_slot asked member (scalar.heldWhole _)
    have goes : initMember (.ofDepth (depth + 1)) v u shape = (do
        let cell ← boxed v
        unionWith u shape [(slot, cell)]) := by
      unfold initMember
      rw [isInfo, found]
    rw [if_neg (by simp), goes]
    refine .bind (boxed_carries moment scalar carries) ?_
    rintro cell x₁ _ ⟨work₁, keeps₁, k, isCell, _⟩
    have inside : slot < u.slots.length := (List.getElem?_eq_some_iff.mp isSlot).1
    have fits : u.fieldOfSlot slot < u.slots.length := by simpa [UnionShape.fieldOfSlot, optional]
    have isZero (types : TypeTable) (admitted : x₁.Admits types) :=
      has.zero_general moment optional types (admitted.of_work work₁)
    have known : cell.raw < x₁.size := isCell.inside
    have isKnown : ∀ move ∈ [(slot, cell)], move.2.raw < x₁.size := by simpa using known
    obtain ⟨_, x₂, ran, goes, ptr, rfl, work₂, keeps₂, k', new, isPtr, record⟩ :=
      (unionWith_makes (s := s) shape isZero isKnown (by simpa using fits)).achieves
        (.bind (.write _) fun _ => .bind (.bind (.storeField _ _ _ _) fun _ => .pure _)
          fun _ => .pure _)
    have isWork := work₂.trans work₁
    refine ⟨_, x₂, ran, goes, isWork, keeps₁.trans keeps₂, ?_⟩
    exact .union (isWork ▸ has.known) isPtr record
      ⟨Nat.le_trans keeps₁.size new, Memory.lt_of_heap record⟩ (by simp [optional])

/-- A scalar takes any of its forms. -/
theorem coerce_form (depth : Nat) {form : Info} (moment : Moment s x.work) (scalar : i.Scalar val)
    (carries : x.Carries i val v) (isForm : x.Form s.program i form) :
    Achieves s x (coerce (.ofDepth (depth + 1)) v form) fun held x' =>
      x'.work = x.work ∧ x.memory.Keeps [] x'.memory ∧
        x'.HeldIn i val x.memory.heap.size x'.memory.heap.size form held := by
  cases isForm with
  | own =>
    have same : coerce (.ofDepth (depth + 1)) v i = pure v := by
      have isInfo : v.info = i := by cases carries <;> rfl
      rw [← isInfo]
      exact coerce_self _ v
    rw [same]
    exact .pure ⟨rfl, .refl _ _, .own carries⟩
  | union has member => exact coerce_union depth moment scalar carries has member

/-! ## Tested -/

/-- A scalar by itself is tested by its value. -/
theorem truthy_carries (scalar : i.Scalar val) (carries : x.Carries i val v) :
    Achieves s x (truthy v) fun truth x' =>
      x'.Knows truth (.bool val.isTrue) ∧ x'.memory = x.memory ∧ x'.work = x.work := by
  have isInfo : v.info = i := by cases carries <;> rfl
  -- the tests of numbers and texts compare with a constant
  have compared {zero : Const} {name : String} (differ :
      compareValues .ne val (constValue zero) = .ok val.isTrue) :
      Achieves s x (do
        let a ← raw v
        let c ← Draft.const zero name
        Draft.compare .ne a c "truthy") fun truth x' =>
          x'.Knows truth (.bool val.isTrue) ∧ x'.memory = x.memory ∧ x'.work = x.work := by
    refine .bind (raw_carries scalar carries) ?_
    rintro a x₁ _ ⟨isValue, memory₁, work₁⟩
    refine Does.achieves (.write_bind (.const zero name) ?_) (.bind (.write _) fun _ => .write _)
    rintro c q goes ⟨isConst, memory₂, -⟩
    have differ' : compareValues .ne (q.values a) (q.values c) = .ok val.isTrue := by
      rw [(goes.knows isValue).value, isConst.value, differ]
    refine .write (x := x₁.moved q) (.compare "truthy" differ') ?_
    rintro truth q' _ ⟨isTruth, memory₃, -⟩
    exact ⟨isTruth, memory₃.trans (memory₂.trans memory₁), work₁⟩
  unfold truthy
  rw [isInfo]
  cases scalar with
  | boolean b => exact raw_carries (.boolean b) carries
  | number n => exact compared (congrArg Except.ok (float_order_ne n 0.0))
  | text t => exact compared (congrArg Except.ok (text_order_ne t ""))

/-- A union is tested by its marker if it has one, and by its address otherwise. -/
theorem truthy_union {w : Work} {f : Frame} {shape : ShapeId} {u : UnionShape} {ptr : ValueId}
    (known : w.registry.union? shape = some u) :
    truthy (.boxed ptr (.union shape)) f s w = (if u.optional then do
        let marker ← Draft.fieldAddr u.record ptr 0 "present.p"
        Draft.load .i1 marker "present"
      else do
        let null ← Draft.null
        Draft.compare .ne ptr null "truthy" : Emit ValueId) f s w := by
  have shaped : optionalShape? (Operand.boxed ptr (.union shape)).info s w =
      .ok (if u.optional then some shape else none) w := optionalShape_apply known
  have notNull : (Operand.boxed ptr (.union shape)).info.isNullish = false := rfl
  have same : boxed (.boxed ptr (.union shape)) = pure ptr := boxed_of_boxed rfl
  unfold truthy
  simp only [Operand.boxed] at shaped notNull same ⊢
  rw [lift_bind_apply, Compile.bind_apply, shaped]
  cases optional : u.optional with
  | true =>
    simp only [if_true]
    rw [isPresent, unionShape_bind_apply _ known, if_pos optional]
    rfl
  | false => simp [notNull, same]

/-- A scalar counts as true by its value if it is by itself, and always if it is in a union. -/
theorem truthy_held {form : Info} (scalar : i.Scalar val)
    (held : x.HeldIn i val since upTo form v) :
    Achieves s x (truthy v) fun truth x' =>
      (x'.Knows truth (.bool (decide (form ≠ i) || val.isTrue)) ∧ x'.memory = x.memory) ∧
        x'.work = x.work := by
  cases held with
  | own carries => simpa [and_assoc] using truthy_carries scalar carries
  | @union ptr shape u k items known isPtr cell made present =>
    have apart : Info.union shape ≠ i := (scalar.not_union shape).symm
    simp only [apart, ne_eq, not_false_eq_true, decide_true, Bool.true_or]
    apply Achieves.of_eq (truthy_union known)
    cases optional : u.optional with
    | true =>
      rw [if_pos rfl]
      refine Does.achieves (.write_bind (.fieldAddr u.record 0 "present.p" isPtr.value) ?_)
        (.bind (.write _) fun _ => .write _)
      rintro marker p₁ _ ⟨isMarker, memory₁, -⟩
      have loaded : p₁.memory.load (p₁.values marker) = .ok (.bool true) := by
        rw [isMarker.value, memory₁]
        exact Memory.load_heap cell (present optional) (by simp)
      refine .write (x := x.moved p₁) (.load .i1 "present" loaded) ?_
      rintro truth p₂ _ ⟨isTruth, memory₂, -⟩
      exact ⟨⟨isTruth, memory₂.trans memory₁⟩, rfl⟩
    | false =>
      rw [if_neg (by simp)]
      refine Does.achieves (.write_bind (.const .null _) ?_) (.bind (.write _) fun _ => .write _)
      rintro null p₁ goes ⟨isNull, memory₁, -⟩
      have compared : compareValues .ne (p₁.values ptr) (p₁.values null) = .ok true := by
        rw [(goes.knows isPtr).value, isNull.value]
        rfl
      refine .write (x := x.moved p₁) (.compare "truthy" compared) ?_
      rintro truth p₂ _ ⟨isTruth, memory₂, -⟩
      exact ⟨⟨isTruth, memory₂.trans memory₁⟩, rfl⟩

/-! ## Compared -/

/-- Two values that are not null are compared by value if both are scalars of one type, and by
pointer otherwise. -/
theorem equal_eq {v v' : Operand} (some : v.info.isNullish = false)
    (some' : v'.info.isNullish = false) :
    equal v v' = (do
      let scalars := v.info = v'.info && v.info.isPrimitive
      let a ← if scalars then raw v else boxed v
      let b ← if scalars then raw v' else boxed v'
      Draft.compare .eq a b "eq" : Emit ValueId) := by
  have one : meetsNull v v' = pure false := by simp [meetsNull, some']
  have other : meetsNull v' v = pure false := by simp [meetsNull, some]
  simp [equal, comparedWithNull?, one, other]

/-- Two scalars by themselves are compared by value. -/
theorem equal_carries {a b : Value} {v v' : Operand} (scalar : i.Scalar a) (scalar' : i.Scalar b)
    (carries : x.Carries i a v) (carries' : x.Carries i b v') :
    Achieves s x (equal v v') fun same x' => x'.Knows same (.bool (a.same b)) := by
  have isInfo : v.info = i := by cases carries <;> rfl
  have isInfo' : v'.info = i := by cases carries' <;> rfl
  have notNull : i.isNullish = false := scalar.not_isNullish
  rw [equal_eq (isInfo ▸ notNull) (isInfo' ▸ notNull)]
  simp only [isInfo, isInfo', scalar.isPrimitive, decide_true, Bool.and_true, if_true]
  refine .bind (raw_carries scalar carries) ?_
  rintro p x₁ goes₁ ⟨isFirst, memory₁, _⟩
  refine .bind (raw_carries scalar' (carries'.later goes₁ (memory₁ ▸ .refl _ _))) ?_
  rintro q x₂ goes₂ ⟨isSecond, _, _⟩
  have compared : compareValues .eq (x₂.values p) (x₂.values q) = .ok (a.same b) := by
    have first : x₂.values p = a := (goes₂.knows isFirst).value
    have second : x₂.values q = b := isSecond.value
    rw [first, second]
    exact scalar.compare_eq scalar'
  refine Does.achieves (.write (.compare "eq" compared) ?_) (.write _)
  rintro same p _ ⟨isSame, -, -⟩
  exact isSame

/-- A scalar in any form, at an address. -/
theorem boxed_held {form : Info} (moment : Moment s x.work) (scalar : i.Scalar val)
    (held : x.HeldIn i val since upTo form v) :
    Achieves s x (boxed v) fun a x' => (x'.work = x.work ∧ x.memory.Keeps [] x'.memory) ∧
      ∃ k, x'.Knows a (address k) ∧ if form = i then x'.memory.heap[k]? = some val
        else (since ≤ k ∧ k < upTo) ∧ ∃ items, x'.memory.heap[k]? = some (.agg items) := by
  cases held with
  | own carries => simpa [and_assoc] using boxed_carries moment scalar carries
  | @union ptr shape u k items known isPtr cell made present =>
    have apart : Info.union shape ≠ i := (scalar.not_union shape).symm
    refine .pure ⟨⟨rfl, .refl _ _⟩, k, isPtr, ?_⟩
    rw [if_neg apart]
    exact ⟨made, items, cell⟩

/-- Of two scalars, one is in a union: it is the same as no other. -/
theorem equal_apart {form form' : Info} {a b : Value} {v v' : Operand} {mid : Nat}
    (moment : Moment s x.work) (scalar : i.Scalar a) (scalar' : i.Scalar b)
    (held : x.HeldIn i a since mid form v) (held' : x.HeldIn i b mid upTo form' v')
    (apart : form ≠ i ∨ form' ≠ i) :
    Achieves s x (equal v v') fun same x' => x'.Knows same (.bool false) := by
  have notScalars : (decide (v.info = v'.info) && v.info.isPrimitive) = false := by
    have ofUnion (shape : ShapeId) : (Info.union shape).isPrimitive = false := rfl
    cases held with
    | own carries =>
      cases held' with
      | own => simp at apart
      | union => cases carries <;> simp [Operand.boxed, Operand.raw, scalar.not_union]
    | union => simp [Operand.boxed, ofUnion]
  rw [equal_eq (held.not_isNullish scalar) (held'.not_isNullish scalar')]
  simp only [notScalars, Bool.false_eq_true, if_false]
  refine .bind (boxed_held moment scalar held) ?_
  rintro p x₁ goes₁ ⟨⟨work₁, keeps₁⟩, k, isFirst, first⟩
  refine .bind (boxed_held (work₁ ▸ moment) scalar' (held'.later goes₁ keeps₁ work₁)) ?_
  rintro q x₂ goes₂ ⟨⟨_, keeps₂⟩, k', isSecond, second⟩
  have differ : k ≠ k' := by
    rintro rfl
    split at first
    · rename_i isOwn
      rw [if_neg (apart.resolve_left (by simp [isOwn]))] at second
      obtain ⟨_, items, cell⟩ := second
      have := keeps₂.heap _ _ (by simp) first
      rw [cell] at this
      exact scalar.ne_agg items (Option.some.inj this).symm
    · obtain ⟨⟨_, before⟩, items, cell⟩ := first
      split at second
      · have := keeps₂.heap _ _ (by simp) cell
        rw [second] at this
        exact scalar'.ne_agg items (Option.some.inj this)
      · omega
  have compared : compareValues .eq (x₂.values p) (x₂.values q) = .ok false := by
    have isAddress : x₂.values p = address k := (goes₂.knows isFirst).value
    have isAddress' : x₂.values q = address k' := isSecond.value
    rw [isAddress, isAddress', compare_address, decide_eq_false differ]
  refine Does.achieves (.write (.compare "eq" compared) ?_) (.write _)
  rintro same p _ ⟨isSame, -, -⟩
  exact isSame

/-- Scalars are compared by value if both are by themselves; otherwise they are not the same. -/
theorem equal_held {form form' : Info} {a b : Value} {v v' : Operand} {mid : Nat}
    (moment : Moment s x.work) (scalar : i.Scalar a) (scalar' : i.Scalar b)
    (held : x.HeldIn i a since mid form v) (held' : x.HeldIn i b mid upTo form' v') :
    Achieves s x (equal v v') fun same x' =>
      x'.Knows same (.bool (decide (form = i ∧ form' = i) && a.same b)) := by
  by_cases own : form = i ∧ form' = i
  · obtain ⟨rfl, rfl⟩ := own
    simpa using equal_carries scalar scalar' (held.carries scalar) (held'.carries scalar')
  · have apart : form ≠ i ∨ form' ≠ i := by tauto
    simpa [own] using equal_apart moment scalar scalar' held held' apart

end Emit

/-- Two scalars of one type are each put into a form, their own or a union: the conversions, the
test of the first one and the comparison compile and run. In its own form the first counts as true
by its value, and in a union it does if it does so by itself. The two are compared by value if both
have their own form, and otherwise by pointer, and then they are not the same. -/
theorem scalars_held_agree (p : Program) (r : Resolver) (c : Config) (depth : Nat) {x : Stage}
    {i form form' : Info} {a b : Value} {v v' : Operand} (moment : Moment (.of p r c) x.work)
    (scalar : i.Scalar a) (scalar' : i.Scalar b) (carries : x.Carries i a v)
    (carries' : x.Carries i b v') (isForm : x.Form p i form) (isForm' : x.Form p i form') :
    Emit.Achieves (.of p r c) x (do
      let held ← Emit.coerce (.ofDepth (depth + 1)) v form
      let held' ← Emit.coerce (.ofDepth (depth + 1)) v' form'
      let truth ← Emit.truthy held
      let same ← Emit.equal held held'
      return (truth, same)) fun result x' =>
        (form = i ∨ a.isTrue = true → x'.Knows result.1 (.bool a.isTrue)) ∧
          x'.Knows result.2 (.bool (decide (form = i ∧ form' = i) && a.same b)) := by
  refine .bind (Emit.coerce_form depth moment scalar carries isForm) ?_
  rintro held x₁ goes₁ ⟨work₁, keeps₁, isHeld⟩
  have moment₁ : Moment (.of p r c) x₁.work := work₁ ▸ moment
  refine .bind (Emit.coerce_form depth moment₁ scalar' (carries'.later goes₁ keeps₁)
    (isForm'.of_work work₁)) ?_
  rintro held' x₂ goes₂ ⟨work₂, keeps₂, isHeld'⟩
  have moment₂ : Moment (.of p r c) x₂.work := work₂ ▸ moment₁
  refine .bind (Emit.truthy_held scalar (isHeld.later goes₂ keeps₂ work₂)) ?_
  rintro truth x₃ goes₃ ⟨⟨isTruth, memory₃⟩, work₃⟩
  have keeps₃ : x₂.memory.Keeps [] x₃.memory := memory₃ ▸ .refl _ _
  refine .bind (Emit.equal_held (work₃ ▸ moment₂) scalar scalar'
    ((isHeld.later goes₂ keeps₂ work₂).later goes₃ keeps₃ work₃) (isHeld'.later goes₃ keeps₃ work₃))
      ?_
  rintro same x₄ goes₄ isSame
  refine .pure ⟨fun plain => ?_, isSame⟩
  have agree : (decide (form ≠ i) || a.isTrue) = a.isTrue := by
    rcases plain with isOwn | isTrue
    · simp [isOwn]
    · simp [isTrue]
  rw [← agree]
  exact goes₄.knows isTruth

/-- A truth value, in a cell of its own. -/
def truthAtZero (b : Bool) : Memory := { heap := #[.bool b] }

/-- True counts as true in a union with texts, and is not the same as in a union with null alone. -/
theorem scalars_held_agree_widened :
    Emit.Achieves (.of widened .ambient {}) (givenAddress widenedWork 0 (truthAtZero true)) (do
      let held ← Emit.coerce (.ofDepth 20) (.boxed ⟨0⟩ .boolean) (.union ⟨1⟩)
      let held' ← Emit.coerce (.ofDepth 20) (.boxed ⟨0⟩ .boolean) (.union ⟨0⟩)
      let truth ← Emit.truthy held
      let same ← Emit.equal held held'
      return (truth, same)) fun result x' =>
        x'.Knows result.1 (.bool true) ∧ x'.Knows result.2 (.bool false) := by
  have optional : (widenedWork.registry.union? ⟨0⟩).map (fun u => decide
      (u = Compile.unionOf widened widenedWork.registry [.boolean] true u.record)) = some true := by
    decide +kernel
  have general : (widenedWork.registry.union? ⟨1⟩).map (fun u => decide
      (u = Compile.unionOf widened widenedWork.registry [.boolean, .text] true u.record)) =
          some true := by
    decide +kernel
  obtain ⟨u, known, isMade⟩ := Option.map_eq_some_iff.mp optional
  obtain ⟨u', known', isMade'⟩ := Option.map_eq_some_iff.mp general
  have carries : (givenAddress widenedWork 0 (truthAtZero true)).Carries .boolean (.bool true)
      (.boxed ⟨0⟩ .boolean) := .boxed ⟨Nat.zero_lt_one, rfl⟩ rfl
  obtain ⟨result, x', ran, goes, isTruth, isSame⟩ := scalars_held_agree widened .ambient {} 19
    (compile_moment 20 widened .ambient {}) (.boolean true) (.boolean true) carries carries
    (.union ⟨known', _, _, of_decide_eq_true isMade'⟩ (by simp))
    (.union ⟨known, _, _, of_decide_eq_true isMade⟩ (by simp))
  exact ⟨result, x', ran, goes, isTruth (.inr rfl), isSame⟩

/-- Whether the code that was written, with false given, computes the four answers. -/
def answers (wanted : Bool × Bool × Bool × Bool)
    (written : EStateM.Result Failure Work ((ValueId × ValueId × ValueId × ValueId) × Frame)) :
    Bool :=
  match written with
  | .error _ _ => false
  | .ok ((v₁, v₂, v₃, v₄), f) w' =>
    match f.draft.blocks[0]? with
    | none => false
    | some k =>
      match execInsts w'.code.types (fun _ _ => throw .nestingLimit)
        ((Array.replicate f.draft.values.size .undef).setIfInBounds 0 (address 0)) k.insts.toList
        { memory := truthAtZero false, fuel := 100 } with
      | .error _ _ => false
      | .ok r _ => match r.read v₁, r.read v₂, r.read v₃, r.read v₄ with
        | .bool b₁, .bool b₂, .bool b₃, .bool b₄ => (b₁, b₂, b₃, b₄) = wanted
        | _, _, _, _ => false

/-- False is the same as itself and counts as false. In a union with null it is not the same as in
another one, and counts as true. -/
theorem held_apart : ∃ plain same plainTruth truth f w' k r st,
    (do
      let held ← Emit.coerce (.ofDepth 20) (.boxed ⟨0⟩ .boolean) (.union ⟨0⟩)
      let held' ← Emit.coerce (.ofDepth 20) (.boxed ⟨0⟩ .boolean) (.union ⟨0⟩)
      let plain ← Emit.equal (.boxed ⟨0⟩ .boolean) (.boxed ⟨0⟩ .boolean)
      let same ← Emit.equal held held'
      let plainTruth ← Emit.truthy (.boxed ⟨0⟩ .boolean)
      let truth ← Emit.truthy held
      return (plain, same, plainTruth, truth) : Emit (ValueId × ValueId × ValueId × ValueId))
        givenObject (.of widened .ambient {}) widenedWork =
        .ok ((plain, same, plainTruth, truth), f) w' ∧
    f.draft.blocks[0]? = some k ∧
    execInsts w'.code.types (fun _ _ => throw .nestingLimit)
      ((Array.replicate f.draft.values.size .undef).setIfInBounds 0 (address 0)) k.insts.toList
      { memory := truthAtZero false, fuel := 100 } = .ok r st ∧
    r.read plain = .bool true ∧ r.read same = .bool false ∧ r.read plainTruth = .bool false ∧
    r.read truth = .bool true := by
  have runs : answers (true, false, false, true) ((do
      let held ← Emit.coerce (.ofDepth 20) (.boxed ⟨0⟩ .boolean) (.union ⟨0⟩)
      let held' ← Emit.coerce (.ofDepth 20) (.boxed ⟨0⟩ .boolean) (.union ⟨0⟩)
      let plain ← Emit.equal (.boxed ⟨0⟩ .boolean) (.boxed ⟨0⟩ .boolean)
      let same ← Emit.equal held held'
      let plainTruth ← Emit.truthy (.boxed ⟨0⟩ .boolean)
      let truth ← Emit.truthy held
      return (plain, same, plainTruth, truth) : Emit (ValueId × ValueId × ValueId × ValueId))
        givenObject (.of widened .ambient {}) widenedWork) = true := by
    decide +kernel
  unfold answers at runs
  split at runs
  · cases runs
  · rename_i plain same plainTruth truth f w' written
    split at runs
    · cases runs
    · rename_i k isBlock
      split at runs
      · cases runs
      · rename_i r st ran
        split at runs
        · rename_i b₁ b₂ b₃ b₄ isPlain isSame isPlainTruth isTruth
          simp only [Prod.mk.injEq, decide_eq_true_eq] at runs
          obtain ⟨rfl, rfl, rfl, rfl⟩ := runs
          exact ⟨plain, same, plainTruth, truth, f, w', k, r, st, written, isBlock, ran,
            isPlain, isSame,
            isPlainTruth, isTruth⟩
        · cases runs

end ShapeCompiler
