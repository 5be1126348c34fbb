import ShapeCompiler.Proofs.CallSites

/-!
# Coercing twice

What a value is coerced to need not be known as the target: nothing becomes of a value that is not
asked for, and a closure keeps the type and the code that it is known by.

* `Operand.Settled`: a value that has the form of a target already, as far as it ever gets it;
* `Emit.coerce_settled`: such a value is given back, and nothing is done;
* `Emit.coerce_settles`: a coercion gives such a value, if those of its parts do;
* `coercion_idempotent`: so the result of a coercion is its own result, whatever happened meanwhile.
-/

namespace ShapeCompiler

open Source Code

/-- The value has the form of a target, as far as it ever gets it. -/
inductive Operand.Settled : Operand → Info → Prop where
  | known (v : Operand) : Settled v v.info
  | unused (v : Operand) : Settled v .void
  /-- A closure is known by a type if the target has one, by its own or by that. -/
  | closure {value : ValueId} {known wanted : ClosureInfo}
    (signed : (known.sig <|> wanted.sig) = known.sig) :
    Settled (.boxed value (.closure known)) (.closure wanted)
  /-- The code of a generic function is left open until a type asks for it. -/
  | lazy {v : Operand} {d : DeclId} {wanted : ClosureInfo} (isLazy : v.info = .lazy d)
    (unsigned : wanted.sig = none) : Settled v (.closure wanted)

namespace Emit

variable {α β : Type} {P : α → Prop} {R : β → Prop} {v : Operand} {t : Info}

/-- A value that has the form already is given back, and nothing is done. -/
theorem coerce_settled (l : Lowering) (h : v.Settled t) : coerce l v t = pure v := by
  cases h with
  | known => exact coerce_self l v
  | unused =>
    unfold coerce
    split <;> rfl
  | @closure value known wanted signed =>
    unfold coerce
    split
    · rfl
    · simp [coercePlain, Operand.boxed, Info.isNullish, signed]
  | lazy isLazy unsigned =>
    unfold coerce
    simp [isLazy, coercePlain, Info.isNullish, unsigned]

/-! ## What steps give -/

/-- If the step succeeds, what it gives has the property. -/
def Results (m : Emit α) (P : α → Prop) : Prop :=
  ∀ f s w a f' w', m f s w = .ok (a, f') w' → P a

namespace Results

variable {m : Emit α}

theorem pure {a : α} (h : P a) : Results (Pure.pure a) P := by
  intro f s w a' f' w' ran
  cases ran
  exact h

theorem bind {k : α → Emit β} (h : ∀ a, Results (k a) R) : Results (m >>= k) R := by
  intro f s w b f' w' ran
  obtain ⟨a, f₁, w₁, _, ran⟩ := of_bind_ok ran
  exact h a _ _ _ _ _ _ ran

theorem ite {c : Prop} [Decidable c] {m' : Emit α} (h : Results m P) (h' : Results m' P) :
    Results (if c then m else m') P := by
  split
  · exact h
  · exact h'

/-- A failure gives nothing. -/
theorem fail (cause : Cause) : Results (liftM (Compile.fail cause : Compile α) : Emit α) P := by
  intro f s w a f' w' ran
  cases ran

theorem mismatch (expected found : Info) :
    Results (liftM (Compile.mismatch expected found : Compile α) : Emit α) P := by
  intro f s w a f' w' ran
  cases ran

end Results

/-- A pointer that is known as the target has its form. -/
theorem gives_target (value : ValueId) (t : Info) :
    Results (Pure.pure (.boxed value t) : Emit Operand) fun r => r.Settled t :=
  .pure (.known (.boxed value t))

/-! ## The ways to coerce -/

section

variable {l : Lowering} {shape source : ShapeId} {u : UnionShape}

theorem unionFromAny_settles : Results (unionFromAny v u shape) fun r =>
    r.Settled (.union shape) := by
  unfold unionFromAny
  dsimp only
  refine .bind fun p => .ite (.bind fun _ => gives_target _ _) ?_
  iterate 5 refine .bind fun _ => ?_
  split
  · iterate 9 refine .bind fun _ => ?_
    exact gives_target _ _
  · iterate 9 refine .bind fun _ => ?_
    exact gives_target _ _

theorem unionToAny_settles : Results (unionToAny v shape) fun r => r.Settled .any := by
  unfold unionToAny
  dsimp only
  refine .bind fun u => .bind fun ptr => .ite (gives_target _ _) ?_
  iterate 7 refine .bind fun _ => ?_
  split
  · iterate 10 refine .bind fun _ => ?_
    exact gives_target _ _
  · iterate 4 refine .bind fun _ => ?_
    exact gives_target _ _

theorem unionWith_settles (moves : List (Nat × ValueId)) :
    Results (unionWith u shape moves) fun r => r.Settled (.union shape) :=
  .bind fun _ => .bind fun _ => gives_target _ _

theorem initFromInstance_settles :
    Results (initFromInstance v u shape) fun r => r.Settled (.union shape) := by
  unfold initFromInstance
  split
  · refine .bind fun chain => ?_
    split
    · exact unionWith_settles _
    · exact .mismatch _ _
  · exact .mismatch _ _

theorem initMember_settles : Results (initMember l v u shape) fun r =>
    r.Settled (.union shape) := by
  unfold initMember
  split
  · exact .bind fun _ => unionWith_settles _
  · exact .bind fun _ => .bind fun _ => .bind fun _ => .ite (.mismatch _ _) (unionWith_settles _)
  · exact .bind fun _ => .ite initFromInstance_settles (unionWith_settles _)

theorem initOptional_settles : Results (initOptional l v u shape) fun r =>
    r.Settled (.union shape) := by
  unfold initOptional
  dsimp only
  split <;> exact .bind fun _ => .bind fun _ => .bind fun _ => gives_target _ _

theorem unionInit_settles : Results (unionInit l v shape) fun r => r.Settled (.union shape) := by
  refine .bind fun u => ?_
  split
  · rename_i same
    exact .pure (same ▸ .known v)
  · refine .ite (.ite (.bind fun _ => gives_target _ _) (.bind fun _ => gives_target _ _)) ?_
    exact .ite unionFromAny_settles (.ite initOptional_settles initMember_settles)

theorem intersectionInit_settles :
    Results (intersectionInit l v shape) fun r => r.Settled (.intersection shape) := by
  refine .bind fun target => ?_
  split
  · rename_i same
    exact .pure (same ▸ .known v)
  · refine .ite (.bind fun _ => gives_target _ _) ?_
    split
    · refine .bind fun _ => .bind fun _ => ?_
      split
      · exact .mismatch _ _
      · exact .bind fun _ => .bind fun _ => gives_target _ _
    · refine .bind fun fields => ?_
      split
      · unfold initFromFields
        split
        · exact .mismatch _ _
        · exact .bind fun _ => .bind fun _ => gives_target _ _
      · unfold initSingle
        split
        · exact .bind fun _ => .bind fun _ => .bind fun _ => gives_target _ _
        · exact .mismatch _ _

theorem copyIntoObject_settles :
    Results (copyIntoObject l v shape) fun r => r.Settled (.object shape) := by
  refine .bind fun target => .bind fun fields => ?_
  split
  · exact .mismatch _ _
  · exact .bind fun _ => .bind fun _ => gives_target _ _

theorem coerceInstance_settles {c d : DeclId} :
    Results (coerceInstance v c d) fun r => r.Settled (.instanceOf d) := by
  have rest (related : Bool) : Results (if related then
      (pure (.boxed v.value (.instanceOf d)) : Emit Operand)
      else Compile.mismatch (.instanceOf d) v.info) fun r => r.Settled (.instanceOf d) :=
    .ite (gives_target _ _) (.mismatch _ _)
  refine .bind fun chain => ?_
  dsimp only
  split
  · exact .bind rest
  · exact .bind fun _ => .bind rest

/-- A closure that is made for a type is known by it. -/
theorem makeClosure_signed (c : CompiledFunction) (d : DeclId) (env : ValueId)
    (sig : Option TypeId) :
    Results (makeClosure c d env sig) fun closure => closure.known.sig = sig :=
  .bind fun _ => .bind fun _ => .bind fun _ => .bind fun _ => .bind fun _ =>
    .bind fun _ => .pure rfl

/-- A generic function is given the type that asked for its code. -/
theorem specializeLazy_settles {d : DeclId} {sig : TypeId} {wanted : ClosureInfo} :
    Results (specializeLazy l v d sig) fun r => r.Settled (.closure wanted) := by
  have signed (c : CompiledFunction) : Results (closureFromLazy v d c (some sig)) fun closure =>
      closure.known.sig = some sig :=
    .bind fun _ => .bind fun _ => .bind fun _ => makeClosure_signed _ _ _ _
  refine .bind fun infos => .bind fun c => ?_
  intro f s w r f' w' ran
  obtain ⟨closure, _, _, made, ran⟩ := of_bind_ok ran
  cases ran
  exact .closure (by simp [signed _ _ _ _ _ _ _ made])

theorem coercePlain_settles : Results (coercePlain l v t) fun r => r.Settled t := by
  refine .ite (.bind fun _ => gives_target _ _) ?_
  split
  · exact coerceInstance_settles
  · exact copyIntoObject_settles
  · exact copyIntoObject_settles
  · rename_i known wanted isClosure
    exact .pure (.closure (by cases known.sig <;> simp))
  · rename_i d wanted isLazy
    split
    · exact specializeLazy_settles
    · rename_i unsigned
      exact .pure (.lazy isLazy unsigned)
  · exact .mismatch _ _

section

variable (parts : ∀ v t, Results (l.coerce v t) fun r => r.Settled t)

include parts

theorem extractOptional_settles (ptr : ValueId) :
    Results (extractOptional l u ptr t) fun r => r.Settled t := by
  have rest (fits : Bool) : Results (if fits then (do
      let value ← loadField u.record ptr 1 "value"
      l.coerce (.boxed value u.memberInfo) t) else unknownMember u t) fun r => r.Settled t :=
    .ite (.bind fun _ => parts _ _) (.bind fun _ => .fail _)
  unfold extractOptional
  dsimp only
  split
  · exact .bind rest
  · exact .bind rest

theorem extractMember_settles (ptr : ValueId) :
    Results (extractMember l u ptr t) fun r => r.Settled t := by
  unfold extractMember
  split
  · exact .bind fun _ => parts _ _
  · refine .bind fun o => ?_
    split
    · exact .bind fun _ => .fail _
    · exact .bind fun _ => .bind fun _ => gives_target _ _
  · exact .bind fun _ => .fail _

theorem unionExtract_settles (isUnion : v.info = .union shape) :
    Results (unionExtract l v shape t) fun r => r.Settled t := by
  refine .bind fun u => ?_
  split
  · split
    · rename_i same
      exact .pure (same ▸ isUnion ▸ .known v)
    · exact unionInit_settles
  · exact .bind fun ptr => .ite (extractOptional_settles parts ptr)
      (extractMember_settles parts ptr)

theorem intersectionExtract_settles :
    Results (intersectionExtract l v shape t) fun r => r.Settled t := by
  refine .bind fun source => ?_
  dsimp only
  split
  · rename_i isAny
    exact .bind fun _ => isAny ▸ gives_target _ _
  · refine .bind fun wanted => .bind fun name => ?_
    split
    · exact .mismatch _ _
    · refine .bind fun ptr => .ite (.bind fun _ => parts _ _) ?_
      exact .bind fun _ => .bind fun _ => .bind fun _ => gives_target _ _

/-- A coercion gives a value that has the form of the target, as far as it ever gets it. -/
theorem coerce_settles : Results (coerce l v t) fun r => r.Settled t := by
  unfold coerce
  split
  · rename_i same
    exact .pure (same ▸ .known v)
  · split
    · exact .pure (.unused v)
    · exact unionToAny_settles
    · exact .bind fun _ => gives_target _ _
    · exact unionInit_settles
    · exact .bind fun _ => .bind fun _ => gives_target _ _
    · exact unionExtract_settles parts ‹_›
    · exact intersectionInit_settles
    · exact intersectionExtract_settles parts
    · exact coercePlain_settles

end

end

/-- So it is at every level: parts are coerced one level further down. -/
theorem ofDepth_settles (depth : Nat) (v : Operand) (t : Info) :
    Results ((Lowering.ofDepth depth).coerce v t) fun r => r.Settled t := by
  induction depth generalizing v t with
  | zero => exact .fail _
  | succ depth ih => exact coerce_settles ih

end Emit

/-- The result of a coercion is its own result: whenever a coercion succeeds, coercing its result to
the same target gives the same value with the same knowledge and in the same form, and leaves the
body and all else that is compiled as it is. This holds in every later state as well. -/
theorem coercion_idempotent {s : Setup} {w w' : Work} {f f' : Frame} {limit : Nat} {v r : Operand}
    {t : Info} (ran : (Lowering.ofDepth limit).coerce v t f s w = .ok (r, f') w') :
    (Lowering.ofDepth limit).coerce r t f' s w' = .ok (r, f') w' ∧
      ∀ s₁ w₁ f₁, (Lowering.ofDepth limit).coerce r t f₁ s₁ w₁ = .ok (r, f₁) w₁ := by
  have again : (Lowering.ofDepth limit).coerce r t = pure r := by
    cases limit with
    | zero => cases ran
    | succ depth => exact Emit.coerce_settled _ (Emit.ofDepth_settles _ _ _ _ _ _ _ _ _ ran)
  rw [again]
  exact ⟨rfl, fun _ _ _ => rfl⟩

/-- A state with a union of a closure of known code and null. -/
def closureOrNull : Work :=
  { Work.start with registry := { shapes := #[.union
    { name := "union.closure|null", record := ⟨0⟩, optional := true,
      members := [.closure { code := some ⟨1⟩ }],
      slots := [⟨.closure, "closure", .closure { code := some ⟨1⟩ }, none⟩], props := [] }] } }

/-- A closure that comes out of this union is known by the type that it is taken out for, and by its
code as before, so not as the target says. Nothing more becomes of it. -/
theorem coercion_idempotent_closure : ∃ r f',
    (Lowering.ofDepth 2).coerce (.boxed ⟨0⟩ (.union ⟨0⟩)) (.closure { sig := some ⟨7⟩ }) givenObject
      (.of {} .ambient {}) closureOrNull = .ok (r, f') closureOrNull ∧
    r.info = .closure { sig := some ⟨7⟩, code := some ⟨1⟩ } ∧
    (Lowering.ofDepth 2).coerce r (.closure { sig := some ⟨7⟩ }) f'
      (.of {} .ambient {}) closureOrNull =
      .ok (r, f') closureOrNull := by
  obtain ⟨r, f', ran, isInfo⟩ : ∃ r f',
      (Lowering.ofDepth 2).coerce (.boxed ⟨0⟩ (.union ⟨0⟩))
        (.closure { sig := some ⟨7⟩ }) givenObject
        (.of {} .ambient {}) closureOrNull = .ok (r, f') closureOrNull ∧
      r.info = .closure { sig := some ⟨7⟩, code := some ⟨1⟩ } := ⟨_, _, rfl, rfl⟩
  exact ⟨r, f', ran, isInfo, (coercion_idempotent ran).1⟩

end ShapeCompiler
