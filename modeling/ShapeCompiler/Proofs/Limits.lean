import ShapeCompiler.Compile.Unit
import ShapeCompiler.Proofs.Walks

/-!
# The limit decides nothing but whether compilation ends

* `Compile.Below`, `Emit.Below`: a step gives what another one gives, unless that one nests too
  deep;
* `Lowering.Below.next`: steps that are put together from steps of two levels are related so if the
  levels are;
* `Lowering.ofDepth_below`: so each level is below every higher one;
* `compileUnitWithin_below`: a program that compiles or fails within a limit, other than by nesting
  too deep, does the same within every greater limit.
-/

namespace ShapeCompiler

open Source Code

/-! ## Steps that give the same -/

namespace Compile

variable {α β : Type} {s : Setup} {w : Work}

/-- The step succeeds, or fails for another reason than that it nests too deep. -/
def Ended (m : Compile α) (s : Setup) (w : Work) : Prop :=
  ∀ e w', m s w = .error e w' → e.cause ≠ .tooDeep

/-- The second step gives what the first one gives, unless the first one nests too deep. -/
def Below (m m' : Compile α) : Prop := ∀ s w, Ended m s w → m' s w = m s w

namespace Below

variable {m m' : Compile α}

theorem refl (m : Compile α) : Below m m := fun _ _ _ => rfl

theorem fail (m' : Compile α) : Below (fail .tooDeep) m' :=
    fun _ _ ended => absurd rfl (ended _ _ rfl)

theorem bind {f f' : α → Compile β} (first : Below m m') (rest : ∀ a, Below (f a) (f' a)) :
    Below (m >>= f) (m' >>= f') := by
  intro s w ended
  have ended₁ : Ended m s w := by
    intro e w' ran
    refine ended e w' ?_
    rw [bind_apply, ran]
  rw [bind_apply, bind_apply, first s w ended₁]
  cases ran : m s w with
  | ok a w' =>
    refine rest a s w' fun e w'' ran' => ended e w'' ?_
    rw [bind_apply, ran]
    exact ran'
  | error e w' => rfl

/-- What comes after a step. -/
theorem next {f f' : α → Compile β} (rest : ∀ a, Below (f a) (f' a)) :
    Below (m >>= f) (m >>= f') := bind (refl m) rest

theorem tryCatch {handle : Failure → Compile α} (h : Below m m')
    (again : ∀ e s w, e.cause = .tooDeep → ∃ e' w', handle e s w =
    .error e' w' ∧ e'.cause = .tooDeep) :
    Below (MonadExcept.tryCatch m handle) (MonadExcept.tryCatch m' handle) := by
  intro s w ended
  have ended₁ : Ended m s w := by
    intro e w' ran deep
    obtain ⟨e', w'', ran', deep'⟩ := again e s w' deep
    refine ended e' w'' ?_ deep'
    rw [tryCatch_apply, ran]
    exact ran'
  rw [tryCatch_apply, tryCatch_apply, h s w ended₁]

theorem forM {f f' : α → Compile PUnit} (each : ∀ a, Below (f a) (f' a)) (as : List α) :
    Below (as.forM f) (as.forM f') := by
  induction as with
  | nil => exact refl _
  | cons a as ih => exact bind (each a) fun _ => ih

theorem ite {c : Prop} [Decidable c] {n n' : Compile α} (h : Below m m') (h' : Below n n') :
    Below (if c then m else n) (if c then m' else n') := by
  split
  · exact h
  · exact h'

end Below

end Compile

namespace Emit

variable {α β : Type}

/-- The second step gives what the first one gives, unless the first one nests too deep. -/
def Below (m m' : Emit α) : Prop := ∀ f, Compile.Below (m f) (m' f)

namespace Below

variable {m m' : Emit α}

theorem refl (m : Emit α) : Below m m := fun f => .refl (m f)

theorem fail (m' : Emit α) : Below (Compile.fail .tooDeep : Emit α) m' :=
  fun _ _ _ ended => absurd rfl (ended _ _ rfl)

theorem lift {c c' : Compile α} (h : Compile.Below c c') : Below (liftM c : Emit α) (liftM c') :=
  fun _ => .bind h fun _ => .refl _

theorem bind {k k' : α → Emit β} (first : Below m m') (rest : ∀ a, Below (k a) (k' a)) :
    Below (m >>= k) (m' >>= k') := fun f => .bind (first f) fun result => rest result.1 result.2

/-- What comes after a step. -/
theorem next {k k' : α → Emit β} (rest : ∀ a, Below (k a) (k' a)) : Below (m >>= k) (m >>= k') :=
  bind (refl m) rest

theorem lift_bind {c c' : Compile α} {k k' : α → Emit β} (first : Compile.Below c c')
    (rest : ∀ a, Below (k a) (k' a)) :
    Below ((liftM c : Emit α) >>= k) ((liftM c' : Emit α) >>= k') := bind (lift first) rest

theorem discard (h : Below m m') : Below (Functor.discard m : Emit PUnit) (Functor.discard m') := by
  change Below ((fun _ => PUnit.unit) <$> m) ((fun _ => PUnit.unit) <$> m')
  rw [← bind_pure_comp, ← bind_pure_comp]
  exact bind h fun _ => refl _

/-- A place that is attached to a failure does not change why it failed. -/
theorem locate (span : Span) (h : Below m m') : Below (locate span m) (locate span m') := by
  refine fun f => .tryCatch (h f) fun e s w deep => ⟨e.attach span, w, rfl, ?_⟩
  rw [← deep]
  unfold Failure.attach
  split <;> rfl

theorem mapM {k k' : α → Emit β} (each : ∀ a, Below (k a) (k' a)) (as : List α) :
    Below (as.mapM k) (as.mapM k') := by
  induction as with
  | nil => exact refl _
  | cons a as ih =>
    rw [List.mapM_cons, List.mapM_cons]
    exact bind (each a) fun _ => bind ih fun _ => refl _

theorem filterMapM {k k' : α → Emit (Option β)} (each : ∀ a, Below (k a) (k' a)) (as : List α) :
    Below (as.filterMapM k) (as.filterMapM k') := by
  induction as with
  | nil => exact refl _
  | cons a as ih =>
    rw [List.filterMapM_cons, List.filterMapM_cons]
    refine bind (each a) fun found => ?_
    cases found with
    | none => exact ih
    | some b => exact bind ih fun _ => refl _

theorem forM {k k' : α → Emit PUnit} (each : ∀ a, Below (k a) (k' a)) (as : List α) :
    Below (as.forM k) (as.forM k') := by
  induction as with
  | nil => exact refl _
  | cons a as ih => exact bind (each a) fun _ => ih

theorem optionMapM {k k' : α → Emit β} (each : ∀ a, Below (k a) (k' a)) (o : Option α) :
    Below (o.mapM k) (o.mapM k') := by
  cases o with
  | none => exact refl _
  | some a =>
    change Below (some <$> k a) (some <$> k' a)
    rw [← bind_pure_comp, ← bind_pure_comp]
    exact bind (each a) fun _ => refl _

theorem ite {c : Prop} [Decidable c] {n n' : Emit α} (h : Below m m') (h' : Below n n') :
    Below (if c then m else n) (if c then m' else n') := by
  split
  · exact h
  · exact h'

end Below

end Emit

/-- Each step of the second level gives what that of the first one gives, unless that one nests too
deep. -/
structure Lowering.Below (l l' : Lowering) : Prop where
  compile : ∀ spec, Compile.Below (l.compile spec) (l'.compile spec)
  expr : ∀ e, Emit.Below (l.expr e) (l'.expr e)
  block : ∀ stmts, Emit.Below (l.block stmts) (l'.block stmts)
  coerce : ∀ v info, Emit.Below (l.coerce v info) (l'.coerce v info)
  extract : ∀ v shape info, Emit.Below (l.extract v shape info) (l'.extract v shape info)
  readProperty : ∀ v n, Emit.Below (l.readProperty v n) (l'.readProperty v n)
  writeProperty : ∀ v n value, Emit.Below (l.writeProperty v n value) (l'.writeProperty v n value)

namespace Lowering.Below

variable {l l' : Lowering} (h : l.Below l')

include h

theorem body (subject : Subject) (cls : Option DeclId) (args : List Info) :
    Compile.Below (l.body subject cls args) (l'.body subject cls args) := .next fun _ => h.compile _

theorem exprs (es : List ExprId) : Emit.Below (l.exprs es) (l'.exprs es) := .mapM h.expr es

theorem coerced (v : Operand) (info : Info) : Emit.Below (l.coerced v info) (l'.coerced v info) :=
  .bind (h.coerce v info) fun _ => .refl _

theorem argument (arg : Option Operand) (info : Info) :
    Emit.Below (l.argument arg info) (l'.argument arg info) := by
  cases arg with
  | some v => exact h.coerced v info
  | none => exact .next fun _ => h.coerced _ info

end Lowering.Below

namespace Emit

variable {l l' : Lowering} (h : l.Below l')

include h

/-! ## Records, unions and intersections -/

theorem fillFields_below (record : TyId) (ptr : ValueId) (fields : List (Nat × Operand × Info)) :
    Below (fillFields l record ptr fields) (fillFields l' record ptr fields) := by
  induction fields with
  | nil => exact .refl _
  | cons field rest ih => exact .bind (h.coerced _ _) fun _ => .next fun _ => ih

theorem copyIntoObject_below (v : Operand) (target : ShapeId) :
    Below (copyIntoObject l v target) (copyIntoObject l' v target) := by
  refine .next fun shape => .next fun source => ?_
  split
  · exact .refl _
  · exact .next fun obj => .bind (.forM (fun _ => .bind (h.argument _ _) fun _ => .refl _) _)
      fun _ => .refl _

theorem propertyMoves_below (v : Operand) (u : UnionShape) :
    Below (propertyMoves l v u) (propertyMoves l' v u) := by
  refine .next fun fields => .filterMapM (fun (n, field) => ?_) _
  dsimp only
  split
  · exact .bind (h.coerced _ _) fun _ => .refl _
  · exact .refl _

theorem initMember_below (v : Operand) (u : UnionShape) (target : ShapeId) :
    Below (initMember l v u target) (initMember l' v u target) := by
  unfold initMember
  split
  · exact .refl _
  · exact .refl _
  · exact .bind (propertyMoves_below h v u) fun _ => .refl _

theorem initOptional_below (v : Operand) (u : UnionShape) (target : ShapeId) :
    Below (initOptional l v u target) (initOptional l' v u target) := by
  unfold initOptional
  split
  · exact .bind (h.extract _ _ _) fun _ => .refl _
  · exact .bind (h.coerce _ _) fun _ => .refl _

theorem unionInit_below (v : Operand) (target : ShapeId) :
    Below (unionInit l v target) (unionInit l' v target) :=
  .next fun u => .ite (.refl _) (.ite (.refl _) (.ite (.refl _)
    (.ite (initOptional_below h v u target) (initMember_below h v u target))))

theorem extractOptional_below (u : UnionShape) (ptr : ValueId) (target : Info) :
    Below (extractOptional l u ptr target) (extractOptional l' u ptr target) := by
  unfold extractOptional
  dsimp only
  split
  · exact .next fun fits => .ite (.next fun _ => h.coerce _ _) (.refl _)
  · exact .next fun fits => .ite (.next fun _ => h.coerce _ _) (.refl _)

theorem extractObject_below (u : UnionShape) (ptr : ValueId) (shape : ShapeId) :
    Below (extractObject l u ptr shape) (extractObject l' u ptr shape) := by
  refine .next fun o => ?_
  split
  · exact .refl _
  · exact .next fun r => .bind (.forM (fun _ => .next fun _ => .next fun _ =>
      .bind (h.coerced _ _) fun _ => .refl _) _) fun _ => .refl _

theorem extractMember_below (u : UnionShape) (ptr : ValueId) (target : Info) :
    Below (extractMember l u ptr target) (extractMember l' u ptr target) := by
  unfold extractMember
  split
  · exact .next fun _ => h.coerce _ _
  · exact extractObject_below h u ptr _
  · exact .refl _

theorem unionExtract_below (v : Operand) (source : ShapeId) (target : Info) :
    Below (unionExtract l v source target) (unionExtract l' v source target) := by
  refine .next fun u => ?_
  split
  · exact .ite (.refl _) (unionInit_below h v _)
  · exact .next fun ptr => .ite (extractOptional_below h u ptr _) (extractMember_below h u ptr _)

theorem initFromIntersection_below (v : Operand) (shape : IntersectionShape)
    (target source : ShapeId) :
    Below (initFromIntersection l v shape target source)
      (initFromIntersection l' v shape target source) := by
  refine .next fun src => .next fun ptr => ?_
  split
  · exact .refl _
  · exact .next fun r => .bind (.forM (fun _ => .next fun _ =>
      .bind (h.coerced _ _) fun _ => .refl _) _)
      fun _ => .refl _

theorem initFromFields_below (v : Operand) (shape : IntersectionShape) (target : ShapeId)
    (source : List (Name × Operand)) :
    Below (initFromFields l v shape target source) (initFromFields l' v shape target source) := by
  unfold initFromFields
  split
  · exact .refl _
  · exact .next fun r => .bind (fillFields_below h _ _ _) fun _ => .refl _

theorem initSingle_below (v : Operand) (shape : IntersectionShape) (target : ShapeId) :
    Below (initSingle l v shape target) (initSingle l' v shape target) := by
  unfold initSingle
  split
  · exact .bind (h.coerced _ _) fun _ => .refl _
  · exact .refl _

theorem intersectionInit_below (v : Operand) (target : ShapeId) :
    Below (intersectionInit l v target) (intersectionInit l' v target) := by
  refine .next fun shape => .ite (.refl _) (.ite (.refl _) ?_)
  split
  · exact initFromIntersection_below h v shape target _
  · refine .next fun fields => ?_
    cases fields with
    | some source => exact initFromFields_below h v shape target source
    | none => exact initSingle_below h v shape target

theorem intersectionExtract_below (v : Operand) (source : ShapeId) (target : Info) :
    Below (intersectionExtract l v source target) (intersectionExtract l' v source target) := by
  refine .next fun shape => .ite (.refl _) (.next fun wanted => .next fun name => ?_)
  split
  · exact .refl _
  · refine .next fun ptr => .ite (.next fun _ => h.coerce _ _)
      (.next fun record => .next fun r => ?_)
    exact .bind (.forM (fun _ => .next fun _ => .next fun _ =>
      .bind (h.coerced _ _) fun _ => .refl _) _)
      fun _ => .refl _

/-! ## Closures and calls -/

theorem writeArgs_below (e : Environment) (ptr : ValueId) (params : List Info)
    (args : List Operand) :
    Below (writeArgs l e ptr params args) (writeArgs l' e ptr params args) :=
  .forM (fun _ => .bind (h.argument _ _) fun _ => .refl _) _

theorem functionValue_below (d : DeclId) : Below (functionValue l d) (functionValue l' d) := by
  refine .next fun f => .ite (.next fun _ => ?_) ?_
  all_goals exact .ite (.refl _) (.ite (.refl _) (.lift_bind (h.body _ _ _) fun _ => .refl _))

theorem methodClosure_below (m : DeclId) (cls : Option DeclId) (given : ValueId) :
    Below (methodClosure l m cls given) (methodClosure l' m cls given) :=
  .next fun _ => .next fun _ => .ite (.refl _) (.lift_bind (h.body _ _ _) fun _ => .refl _)

theorem boundMethod_below (object : Operand) (cls m : DeclId) :
    Below (boundMethod l object cls m) (boundMethod l' object cls m) :=
  .next fun _ => methodClosure_below h m _ _

theorem staticMethodValue_below (m : DeclId) :
    Below (staticMethodValue l m) (staticMethodValue l' m) :=
    .next fun _ => methodClosure_below h m _ _

theorem closureCall_below (c : ClosureValue) (args : List Operand) :
    Below (closureCall l c args) (closureCall l' c args) :=
  .next fun _ => .next fun _ => .next fun _ => .next fun _ =>
    .bind (writeArgs_below h _ _ _ _) fun _ => .refl _

theorem lazyCall_below (f : Operand) (d : DeclId) (args : List Operand) :
    Below (lazyCall l f d args) (lazyCall l' f d args) :=
  .lift_bind (h.body _ _ _) fun _ => .next fun _ => closureCall_below h _ _

theorem specializeLazy_below (f : Operand) (d : DeclId) (sig : TypeId) :
    Below (specializeLazy l f d sig) (specializeLazy l' f d sig) :=
  .next fun _ => .lift_bind (h.body _ _ _) fun _ => .refl _

theorem callValue_below (f : Operand) (args : List Operand) :
    Below (callValue l f args) (callValue l' f args) := by
  unfold callValue
  split
  · exact .next fun _ => closureCall_below h _ _
  · exact lazyCall_below h _ _ _
  · exact .next fun _ => closureCall_below h _ _
  · exact .refl _

theorem callExternal_below (d : DeclId) (symbol : String) (object : Option Operand)
    (args : List Operand) :
    Below (callExternal l d symbol object args) (callExternal l' d symbol object args) :=
  .next fun _ => .next fun _ => .bind (.mapM (fun _ => .next fun _ =>
    .next fun _ => h.argument _ _) _)
    fun _ => .refl _

theorem callCompiled_below (c : CompiledFunction) (this : Option ValueId) (args : List Operand) :
    Below (callCompiled l c this args) (callCompiled l' c this args) :=
  .next fun _ => .next fun _ => .bind (writeArgs_below h _ _ _ _) fun _ => .refl _

theorem callDecl_below (d : DeclId) (on : Option Receiver) (args : List Operand) :
    Below (callDecl l d on args) (callDecl l' d on args) :=
  .next fun _ => .next fun _ => .ite (callExternal_below h _ _ _ _) (.ite (.refl _)
    (.lift_bind (h.body _ _ _) fun _ => .next fun _ => callCompiled_below h _ _ _))

/-! ## Values in another form -/

theorem coercePlain_below (v : Operand) (target : Info) :
    Below (coercePlain l v target) (coercePlain l' v target) := by
  refine .ite (.refl _) ?_
  split
  · exact .refl _
  · exact copyIntoObject_below h v _
  · exact copyIntoObject_below h v _
  · exact .refl _
  · split
    · exact specializeLazy_below h v _ _
    · exact .refl _
  · exact .refl _

theorem coerce_below (v : Operand) (target : Info) :
    Below (coerce l v target) (coerce l' v target) := by
  unfold coerce
  refine .ite (.refl _) ?_
  split
  · exact .refl _
  · exact .refl _
  · exact .refl _
  · exact unionInit_below h v _
  · exact .refl _
  · exact unionExtract_below h v _ _
  · exact intersectionInit_below h v _
  · exact intersectionExtract_below h v _ _
  · exact coercePlain_below h v _

/-! ## Method tables and instances -/

theorem defineThunk_below (thunk : FuncId) (root m : DeclId) :
    Compile.Below (Compile.defineThunk l thunk root m) (Compile.defineThunk l' thunk root m) :=
  .bind (h.body _ _ _) fun _ => .refl _

theorem emitTable_below (root : DeclId) (array : TyId) (length : Nat)
    (methods : List (Name × DeclId)) :
    Compile.Below (Compile.emitTable l root array length methods)
      (Compile.emitTable l' root array length methods) :=
  .next fun _ => .next fun _ => .next fun _ => .next fun _ => .next fun _ =>
    .bind (.forM (fun _ => .ite (defineThunk_below h _ _ _) (.refl _)) _) fun _ => .refl _

theorem tableOf_below (root : DeclId) :
    Compile.Below (Compile.tableOf l root) (Compile.tableOf l' root) := by
  refine .next fun w => ?_
  split
  · exact .refl _
  · refine .next fun setup => .next fun methods => .next fun c => ?_
    refine .ite (.next fun _ => .next fun _ => .next fun array => ?_) (.next fun array => ?_)
    all_goals
      split
      · exact .refl _
      · exact emitTable_below h _ _ _ _

theorem patchSlot_below (cls : DeclId) (obj copy : ValueId) (n : Name) (m : DeclId)
    (slot closureSlot : Nat) :
    Below (patchSlot l cls obj copy n m slot closureSlot)
      (patchSlot l' cls obj copy n m slot closureSlot) :=
  .lift_bind (h.body _ _ _) fun _ => .refl _

theorem placeTable_below (obj : ValueId) (cls : DeclId) (shared : MethodTable)
    (overrides : List (Name × DeclId × Nat)) :
    Below (placeTable l obj cls shared overrides) (placeTable l' obj cls shared overrides) :=
  .next fun _ => .next fun _ => .ite (.refl _) (.next fun _ => .next fun _ => .next fun _ =>
    .next fun _ => .forM (fun _ => patchSlot_below h _ _ _ _ _ _ _) _)

theorem installTable_below (obj : ValueId) (cls : DeclId) :
    Below (installTable l obj cls) (installTable l' obj cls) := by
  refine .next fun root => ?_
  cases root with
  | none => exact .refl _
  | some root =>
    exact .lift_bind (tableOf_below h root) fun _ => .next fun _ => .next fun _ => .next fun _ =>
      placeTable_below h _ _ _ _

theorem virtualSlot_below (cls m : DeclId) : Below (virtualSlot l cls m)
    (virtualSlot l' cls m) := by
  refine .next fun root => ?_
  cases root with
  | none => exact .refl _
  | some root =>
    exact .next fun _ => .next fun _ => .ite (.lift_bind (tableOf_below h root) fun _ =>
      .refl _) (.refl _)

theorem virtualBody_below (cls m : DeclId) :
    Compile.Below (virtualBody l cls m) (virtualBody l' cls m) :=
  .next fun _ => .ite (.refl _) (.bind (h.body _ _ _) fun _ => .refl _)

theorem virtualCall_below (object : Operand) (cls m : DeclId) (slot : Nat) (args : List Operand) :
    Below (virtualCall l object cls m slot args) (virtualCall l' object cls m slot args) := by
  refine .next fun f => .lift_bind (virtualBody_below h cls m) fun c => .next fun this =>
    .bind (.mapM (fun (d, i) => ?_) _) fun _ => .refl _
  dsimp only
  cases c with
  | some c => exact .next fun _ => h.argument _ _
  | none => exact .next fun _ => .next fun _ => h.argument _ _

theorem runConstructor_below (ctorClass cls : DeclId) (this : ValueId) (args : List Operand) :
    Below (runConstructor l ctorClass cls this args)
    (runConstructor l' ctorClass cls this args) := by
  refine .next fun subject => ?_
  cases subject with
  | none => exact .refl _
  | some subject =>
    refine .next fun external => ?_
    split
    · exact .discard (callExternal_below h _ _ _ _)
    · exact .lift_bind (h.body _ _ _) fun _ => .discard (callCompiled_below h _ _ _)

theorem construct_below (cls : DeclId) (args : List Operand) :
    Below (construct l cls args) (construct l' cls args) := by
  refine .next fun _ => .next fun obj => .ite (.bind (installTable_below h _ _) fun _ => ?_) ?_
  all_goals exact .bind (runConstructor_below h _ _ _ _) fun _ => .refl _

theorem initializeProperty_below (owner : DeclId) (layout : ClassLayout) (this : ValueId) (d : Decl)
    (start : ExprId) : Below (initializeProperty l owner layout this d start)
      (initializeProperty l' owner layout this d start) := by
  unfold initializeProperty
  split
  · exact .refl _
  · exact .bind (h.expr _) fun _ => .bind (h.coerced _ _) fun _ => .refl _

theorem runInitializers_below (owner : DeclId) :
    Below (runInitializers l owner) (runInitializers l' owner) := by
  refine .next fun p => .next fun c => .ite (.next fun _ => .next fun _ =>
      .next fun _ => .next fun _ =>
    .forM (fun m => .next fun d => ?_) _) (.refl _)
  split
  · exact initializeProperty_below h _ _ _ _ _
  · exact .refl _

theorem callBaseConstructor_below (args : List Operand) :
    Below (callBaseConstructor l args) (callBaseConstructor l' args) := by
  refine .next fun f => ?_
  split
  · exact .refl _
  · refine .next fun c => ?_
    split
    · exact .refl _
    · exact .next fun _ => .next fun _ => .next fun _ => .bind (runConstructor_below h _ _ _ _)
        fun _ => .bind (runInitializers_below h _) fun _ => .refl _

theorem implicitConstructor_below (cls : DeclId) :
    Below (implicitConstructor l cls) (implicitConstructor l' cls) :=
  .next fun _ => .ite (runInitializers_below h cls)
    (.next fun _ => .next fun _ => .discard (callBaseConstructor_below h _))

/-! ## Properties -/

theorem readInstance_below (object : Operand) (cls : DeclId) (n : Name) :
    Below (readInstance l object cls n) (readInstance l' object cls n) := by
  refine .next fun chain => .next fun getter => ?_
  split
  · exact callDecl_below h _ _ _
  · refine .next fun field => ?_
    split
    · exact .refl _
    · refine .next fun method => ?_
      split
      · exact boundMethod_below h _ _ _
      · exact .refl _

theorem unwrap_below (v : Operand) (shape : ShapeId) :
    Below (unwrap l v shape) (unwrap l' v shape) :=
  .next fun _ => unionExtract_below h v shape _

theorem readProperty_below (v : Operand) (n : Name) :
    Below (readProperty l v n) (readProperty l' v n) := by
  refine .next fun object => ?_
  split
  · exact readInstance_below h _ _ _
  · exact .refl _
  · refine .next fun shape => ?_
    split
    · exact .bind (unwrap_below h _ _) fun _ => h.readProperty _ _
    · exact .refl _

theorem writeField_below (object : Operand) (n : Name) (value : Operand) :
    Below (writeField l object n value) (writeField l' object n value) := by
  refine .next fun field => ?_
  split
  · exact .refl _
  · exact .bind (h.coerced _ _) fun _ => .refl _

theorem writeProperty_below (v : Operand) (n : Name) (value : Operand) :
    Below (writeProperty l v n value) (writeProperty l' v n value) := by
  refine .next fun object => .next fun setter => ?_
  split
  · exact .next fun _ => .bind (.discard (callDecl_below h _ _ _)) fun _ => .refl _
  · refine .next fun shape => ?_
    split
    · exact .bind (unwrap_below h _ _) fun _ => h.writeProperty _ _ _
    · exact writeField_below h _ _ _

theorem readParent_below (n : Name) : Below (readParent l n) (readParent l' n) := by
  refine .next fun owner => .next fun this => .next fun f => .next fun chain =>
    .next fun getter => ?_
  split
  · exact callDecl_below h _ _ _
  · refine .next fun method => ?_
    split
    · exact boundMethod_below h _ _ _
    · exact h.readProperty _ _

theorem callParentMethod_below (n : Name) (args : List Operand) :
    Below (callParentMethod l n args) (callParentMethod l' n args) := by
  refine .next fun owner => .next fun chain => .next fun method => ?_
  split
  · exact .refl _
  · exact .next fun _ => .next fun _ => callDecl_below h _ _ _

theorem storeStatic_below (g : GlobalId) (info : Info) (value : Operand) :
    Below (storeStatic l g info value) (storeStatic l' g info value) :=
  .bind (h.coerced _ _) fun _ => .refl _

theorem readStatic_below (cls : DeclId) (n : Name) :
    Below (readStatic l cls n) (readStatic l' cls n) := by
  refine .next fun chain => .next fun prop => ?_
  cases prop with
  | some prop => exact .refl _
  | none =>
    refine .next fun method => ?_
    cases method with
    | some m => exact staticMethodValue_below h m
    | none => exact .refl _

theorem writeStatic_below (cls : DeclId) (n : Name) (value : Operand) :
    Below (writeStatic l cls n value) (writeStatic l' cls n value) := by
  refine .next fun chain => .next fun prop => ?_
  cases prop with
  | some prop => exact .next fun _ => storeStatic_below h _ _ _
  | none => exact .refl _

theorem callStatic_below (cls : DeclId) (n : Name) (args : List Operand) :
    Below (callStatic l cls n args) (callStatic l' cls n args) := by
  refine .next fun chain => .next fun method => ?_
  cases method with
  | some m => exact callDecl_below h _ _ _
  | none => exact .bind (readStatic_below h _ _) fun _ => callValue_below h _ _

theorem initializeStatics_below (cls : DeclId) :
    Below (initializeStatics l cls) (initializeStatics l' cls) := by
  refine .next fun c => .forM (fun m => .next fun d => ?_) _
  split
  · exact .next fun _ => .bind (h.expr _) fun _ => .discard (storeStatic_below h _ _ _)
  · exact .refl _

/-! ## Expressions -/

theorem readName_below (n : Name) : Below (readName l n) (readName l' n) := by
  refine .next fun text => .next fun binding => ?_
  split
  · exact .refl _
  · exact .refl _
  · exact functionValue_below h _
  · exact .refl _
  · exact .refl _

theorem assignName_below (n : Name) (v : Operand) : Below (assignName l n v) (assignName l' n v) :=
  .next fun _ => .next fun _ => .bind (h.coerced _ _) fun _ => .refl _

theorem assign_below (target value : ExprId) :
    Below (assign l target value) (assign l' target value) := by
  refine .next fun p => ?_
  split
  · exact .bind (h.expr _) fun _ => assignName_below h _ _
  · refine .next fun cls => ?_
    split
    · exact .bind (h.expr _) fun _ => writeStatic_below h _ _ _
    · exact .bind (h.expr _) fun _ => .next fun _ => .bind (h.expr _) fun _ => h.writeProperty _ _ _
  · exact .refl _

theorem logical_below (isAnd : Bool) (lhs rhs : ExprId) :
    Below (logical l isAnd lhs rhs) (logical l' isAnd lhs rhs) := by
  refine .next fun _ => .bind (h.expr lhs) fun _ => .next fun _ => .next fun _ => .next fun _ =>
    .next fun _ => .ite (.next fun _ => ?_) (.next fun _ => ?_)
  all_goals exact .next fun _ => .bind (h.expr rhs) fun _ => .refl _

theorem binary_below (op : Source.BinaryOp) (lhs rhs : ExprId) :
    Below (binary l op lhs rhs) (binary l' op lhs rhs) := by
  unfold binary
  split
  · exact logical_below h _ _ _
  · exact logical_below h _ _ _
  · exact .bind (h.expr _) fun _ => .bind (h.expr _) fun _ => .refl _

theorem updateTarget_below (operand : ExprId) :
    Below (updateTarget l operand) (updateTarget l' operand) := by
  refine .next fun p => ?_
  split
  · exact .bind (readName_below h _) fun _ => .refl _
  · exact .bind (h.expr _) fun _ => .next fun _ => .bind (h.readProperty _ _) fun _ => .refl _
  · exact .refl _

theorem update_below (increment before : Bool) (operand : ExprId) :
    Below (update l increment before operand) (update l' increment before operand) := by
  refine .bind (updateTarget_below h operand) fun (old, target) => .ite (.refl _) (.next fun _ =>
    .next fun _ => .next fun _ => ?_)
  cases target with
  | name n => exact .bind (.discard (assignName_below h _ _)) fun _ => .refl _
  | property object n => exact .bind (.discard (h.writeProperty _ _ _)) fun _ => .refl _

theorem unary_below (op : UnaryOp) (operand : ExprId) :
    Below (unary l op operand) (unary l' op operand) := by
  cases op with
  | neg => exact .bind (h.expr _) fun _ => .refl _
  | not => exact .bind (h.expr _) fun _ => .refl _
  | _ => exact update_below h _ _ _

theorem callFound_below (this : Operand) (n : Name) (args : List ExprId)
    (found : Option (DeclId × DeclId)) :
    Below (callFound l this n args found) (callFound l' this n args found) := by
  cases found with
  | some found =>
    refine .bind (h.exprs _) fun _ => .bind (virtualSlot_below h _ _) fun slot => ?_
    cases slot with
    | some slot => exact virtualCall_below h _ _ _ _ _
    | none => exact callDecl_below h _ _ _
  | none =>
    exact .bind (h.readProperty _ _) fun _ => .bind (h.exprs _) fun _ => callValue_below h _ _

theorem objectCall_below (object : ExprId) (n : Name) (args : List ExprId) :
    Below (objectCall l object n args) (objectCall l' object n args) := by
  refine .bind (h.expr _) fun _ => .next fun this => ?_
  dsimp only
  split
  · exact .next fun _ => .next fun _ => .next fun _ => callFound_below h _ _ _ _
  · exact .next fun _ => callFound_below h _ _ _ _

theorem memberCall_below (object : ExprId) (n : Name) (args : List ExprId) :
    Below (memberCall l object n args) (memberCall l' object n args) := by
  refine .next fun p => ?_
  split
  · exact .bind (h.exprs _) fun _ => callParentMethod_below h _ _
  · refine .next fun cls => ?_
    split
    · exact .bind (h.exprs _) fun _ => callStatic_below h _ _ _
    · exact objectCall_below h _ _ _

theorem nameCall_below (n : Name) (args : List ExprId) (target : Option DeclId) :
    Below (nameCall l n args target) (nameCall l' n args target) := by
  refine .next fun binding => ?_
  split
  · exact .bind (h.exprs _) fun _ => callDecl_below h _ _ _
  · exact .bind (readName_below h _) fun _ => .bind (h.exprs _) fun _ => callValue_below h _ _
  · exact .bind (readName_below h _) fun _ => .bind (h.exprs _) fun _ => callValue_below h _ _
  · exact .refl _
  · exact .bind (h.exprs _) fun _ => callDecl_below h _ _ _
  · exact .refl _

theorem call_below (callee : ExprId) (args : List ExprId) (target : Option DeclId) :
    Below (call l callee args target) (call l' callee args target) := by
  refine .next fun p => ?_
  split
  · exact .bind (h.exprs _) fun _ => callBaseConstructor_below h _
  · exact memberCall_below h _ _ _
  · exact nameCall_below h _ _ _
  · exact .bind (h.expr _) fun _ => .bind (h.exprs _) fun _ => callValue_below h _ _

theorem property_below (object : ExprId) (n : Name) :
    Below (property l object n) (property l' object n) := by
  refine .next fun p => ?_
  split
  · exact readParent_below h _
  · refine .next fun cls => ?_
    split
    · exact readStatic_below h _ _
    · exact .bind (h.expr _) fun _ => h.readProperty _ _

theorem propertyValues_below (fields : List (Name × ExprId)) (values : List (Name × Operand)) :
    Below (propertyValues l fields values) (propertyValues l' fields values) := by
  induction fields generalizing values with
  | nil => exact .refl _
  | cons field rest ih => exact .bind (h.expr _) fun _ => .next fun _ => ih _

theorem objectLiteral_below (fields : List (Name × ExprId)) :
    Below (objectLiteral l fields) (objectLiteral l' fields) :=
  .bind (propertyValues_below h fields []) fun _ => .refl _

/-- One case per kind of expression. -/
theorem exprKind_below (kind : ExprKind) : Below (exprKind l kind) (exprKind l' kind) := by
  cases kind with
  | ident n => exact readName_below h n
  | property object n => exact property_below h object n
  | call callee args target => exact call_below h callee args target
  | construct cls args => exact .bind (h.exprs _) fun _ => construct_below h _ _
  | function d => exact functionValue_below h d
  | object fields => exact objectLiteral_below h fields
  | assign target value => exact assign_below h target value
  | binary op lhs rhs => exact binary_below h op lhs rhs
  | unary op operand => exact unary_below h op operand
  | convert e ty => exact .bind (h.expr _) fun _ => .next fun _ => h.coerce _ _
  | _ => exact .refl _

theorem expr_below (e : ExprId) : Below (expr l e) (expr l' e) :=
  .next fun _ => .locate _ (exprKind_below h _)

/-! ## Statements -/

theorem bind_below (decl : DeclId) (init : Option ExprId) :
    Below (bind l decl init) (bind l' decl init) := by
  refine .next fun d => ?_
  split
  · refine .next fun _ => .bind ?_ fun _ => .bind (h.coerced _ _) fun _ => .refl _
    cases init with
    | none => exact .refl _
    | some e => exact h.expr e
  · exact .refl _

theorem returnValue_below (v : Option Operand) : Below (returnValue l v) (returnValue l' v) := by
  refine .next fun f => ?_
  split
  · exact .refl _
  · exact .refl _
  · refine .next fun v => .ite (.next fun _ => ?_) ?_
    all_goals exact .bind (h.coerced _ _) fun _ => .refl _

theorem nested_below (stmts : List StmtId) : Below (nested l stmts) (nested l' stmts) :=
  .next fun _ => .next fun _ => .bind (h.block _) fun _ => .refl _

theorem branch_below (cond : ExprId) (thenStmts elseStmts : List StmtId) :
    Below (branch l cond thenStmts elseStmts) (branch l' cond thenStmts elseStmts) :=
  .bind (h.expr _) fun _ => .next fun _ => .next fun _ => .next fun _ =>
      .next fun _ => .next fun _ =>
    .next fun _ => .bind (nested_below h _) fun _ => .next fun _ => .next fun _ =>
      .bind (nested_below h _) fun _ => .refl _

theorem loop_below (cond : ExprId) (body : List StmtId) :
    Below (loop l cond body) (loop l' cond body) :=
  .next fun _ => .next fun _ => .next fun _ => .next fun _ => .next fun _ =>
      .bind (h.expr _) fun _ =>
    .next fun _ => .next fun _ => .next fun _ => .bind (nested_below h _) fun _ => .refl _

/-- One case per kind of statement. -/
theorem stmtKind_below (kind : StmtKind) : Below (stmtKind l kind) (stmtKind l' kind) := by
  cases kind with
  | bind d init => exact bind_below h d init
  | expr e => exact .discard (h.expr e)
  | ret v => exact .bind (.optionMapM h.expr v) fun _ => returnValue_below h _
  | branch cond thenStmts elseStmts => exact branch_below h cond thenStmts elseStmts
  | loop cond body => exact loop_below h cond body
  | block body => exact nested_below h body
  | function d => exact .refl _
  | classDecl d => exact initializeStatics_below h d

theorem stmt_below (id : StmtId) : Below (stmt l id) (stmt l' id) :=
  .next fun _ => .locate _ (stmtKind_below h _)

theorem stmts_below (body : List StmtId) : Below (stmts l body) (stmts l' body) := by
  induction body with
  | nil => exact .refl _
  | cons s rest ih => exact .next fun _ => .ite (.refl _) (.bind (stmt_below h s) fun _ => ih)

theorem block_below (body : List StmtId) : Below (block l body) (block l' body) :=
  .next fun _ => .next fun _ => .bind (stmts_below h body) fun _ => .refl _

/-! ## Bodies -/

theorem runDefault_below (param : DeclId) : Below (runDefault l param) (runDefault l' param) := by
  refine .next fun q => ?_
  split
  · exact .refl _
  · refine .next fun _ => .next fun f => ?_
    split
    · exact .next fun _ => .next fun _ => .next fun _ => .next fun _ =>
          .next fun _ => .next fun _ =>
        .next fun _ => .bind (h.expr _) fun _ => .bind (h.coerced _ _) fun _ => .refl _
    · exact .refl _

theorem startConstructor_below (f : FunctionDecl) :
    Below (startConstructor l f) (startConstructor l' f) := by
  unfold startConstructor
  split
  · exact .next fun _ => .ite (runInitializers_below h _) (.refl _)
  · exact .refl _

theorem functionBody_below (d : DeclId) : Below (functionBody l d) (functionBody l' d) := by
  refine .next fun f => .bind (.forM (runDefault_below h) _) fun _ =>
    .bind (startConstructor_below h f) fun _ => ?_
  split
  · exact h.block _
  · exact .bind (h.expr _) fun _ => returnValue_below h _
  · exact .refl _

theorem wholeBody_below (spec : Specialization) (env : EnvId) (site : Site) :
    Below (wholeBody l spec env site) (wholeBody l' spec env site) := by
  refine .next fun _ => ?_
  cases spec.key.subject with
  | function d =>
    exact .bind (functionBody_below h d) fun _ => .next fun _ =>
      .ite (.refl _) (returnValue_below h _)
  | implicitConstructor c =>
    exact .bind (implicitConstructor_below h c) fun _ => .next fun _ =>
      .ite (.refl _) (returnValue_below h _)

end Emit

namespace Compile

variable {l l' : Lowering} (h : l.Below l')

include h

theorem body_below (spec : Specialization) (func : FuncId) (env : EnvId) (returning : Returning) :
    Below (body l spec func env returning) (body l' spec func env returning) :=
  .next fun _ => .next fun _ => .next fun _ =>
    .bind (Emit.wholeBody_below h _ _ _ _) fun _ => .refl _

theorem function_below (spec : Specialization) : Below (function l spec) (function l' spec) := by
  refine .next fun w => ?_
  split
  · exact .refl _
  · exact .next fun _ => .next fun _ => .next fun _ => .next fun _ => .next fun _ =>
      .bind (body_below h _ _ _ _) fun _ => .refl _

theorem entry_below : Below (entry l) (entry l') :=
  .next fun setup => .next fun _ => .bind
    (Emit.Below.bind (h.block setup.program.entry) (fun _ => .refl _) _) fun _ => .refl _

end Compile

/-! ## Levels -/

namespace Lowering

variable {l l' : Lowering}

theorem refuse_below (l' : Lowering) : refuse.Below l' where
  compile _ := .fail _
  expr _ := .fail _
  block _ := .fail _
  coerce _ _ := .fail _
  extract _ _ _ := .fail _
  readProperty _ _ := .fail _
  writeProperty _ _ _ := .fail _

theorem Below.next (h : l.Below l') : l.next.Below l'.next where
  compile := Compile.function_below h
  expr := Emit.expr_below h
  block := Emit.block_below h
  coerce := Emit.coerce_below h
  extract := Emit.unionExtract_below h
  readProperty := Emit.readProperty_below h
  writeProperty := Emit.writeProperty_below h

/-- By induction on the lower number of levels: the lowest level refuses everything. -/
theorem ofDepth_below {depth depth' : Nat} (le : depth ≤ depth') :
    (ofDepth depth).Below (ofDepth depth') := by
  induction depth generalizing depth' with
  | zero => exact refuse_below _
  | succ depth ih =>
    obtain ⟨more, rfl⟩ : ∃ more, depth' = more + 1 := ⟨depth' - 1, by omega⟩
    rw [ofDepth_succ, ofDepth_succ]
    exact (ih (by omega)).next

end Lowering

/-- What a program compiles to, or why it fails, does not depend on the limit unless the program
nests too deep for it. -/
theorem compileUnitWithin_below {limit limit' : Nat} (le : limit ≤ limit')
    {p : Program} {r : Resolver}
    {c : Config} (ended : ∀ failure, compileUnitWithin limit p r c = .error failure →
      failure.cause ≠ .tooDeep) :
    compileUnitWithin limit' p r c = compileUnitWithin limit p r c := by
  have same : Compile.entry (.ofDepth limit') (.of p r c) .start =
      Compile.entry (.ofDepth limit) (.of p r c) .start := by
    refine Compile.entry_below (Lowering.ofDepth_below le) _ _ fun failure w ran => ended failure ?_
    simp only [compileUnitWithin, ReaderT.run, EStateM.run, ran]
  simp only [compileUnitWithin, ReaderT.run, EStateM.run, same]

end ShapeCompiler
