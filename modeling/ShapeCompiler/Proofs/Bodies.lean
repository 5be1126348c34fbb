import ShapeCompiler.Proofs.Parts

/-!
# The parts of the compiler that write code

Every part walks if the steps that it calls do.

* `Lowering.Walks`: the steps walk;
* `coerce_walks`, `callValue_walks`, `callDecl_walks`: values in another form, and calls.
-/

namespace ShapeCompiler

open Source Code Work

/-- The steps are those of some level, and walk; a compiled body is recorded under its key. -/
structure Lowering.Walks (s : Setup) (l : Lowering) : Prop where
  isLevel : ∃ depth, l = .ofDepth depth
  compile : ∀ spec w, Moment s w → Compile.Ends s w (l.compile spec) fun c w' =>
    w'.functions.get? spec.key = some c
  expr : ∀ e, Emit.Walks s (l.expr e)
  block : ∀ stmts, Emit.Walks s (l.block stmts)
  coerce : ∀ v info, Emit.Walks s (l.coerce v info)
  extract : ∀ v shape info, Emit.Walks s (l.extract v shape info)
  readProperty : ∀ v n, Emit.Walks s (l.readProperty v n)
  writeProperty : ∀ v n value, Emit.Walks s (l.writeProperty v n value)

namespace Emit

open Compile (Ends)

variable {s : Setup} {w : Work} {α β : Type}

/-! ## Frames -/

theorem Walks.draft (step : Writing α) : Walks s (liftM step : Emit α) := .write step

/-- What is written needs no further thought. -/
theorem Walks.draft_bind {step : Writing α} {k : α → Emit β} (rest : ∀ a, Walks s (k a)) :
    Walks s (liftM step >>= k : Emit β) := .bind (.draft step) rest

theorem Walks.fail {cause : Cause} (h : cause.Justified s.program) :
    Walks s (liftM (Compile.fail cause : Compile α) : Emit α) :=
  .lift (Compile.fail_walks h)

/-- What follows the text of a name goes on with it. -/
theorem Walks.text_bind {n : Name} {k : String → Emit α} (h : Walks s (k (s.program.text n))) :
    Walks s (liftM (Compile.text n) >>= k) := ⟨fun moment grounded => h.ends moment grounded⟩

/-- What follows an environment goes on with one that captures what bodies refer to. -/
theorem Walks.env_bind {id : EnvId} {k : Environment → Emit α}
    (h : ∀ e : Environment, e.Refers s.program → Walks s (k e)) :
    Walks s (liftM (Compile.env id) >>= k) := by
  refine ⟨fun moment grounded => ?_⟩
  rw [lift_bind_apply]
  exact Compile.env_bind fun e known => (h e (moment.env_refers id e known)).ends moment grounded

theorem Walks.invalid (what : Invalid) :
    Walks s (liftM (Compile.invalid what : Compile α) : Emit α) :=
  .lift (Compile.invalid_walks what)

theorem Walks.unsupported (what : Unsupported) :
    Walks s (liftM (Compile.unsupported what : Compile α) : Emit α) :=
  .lift (Compile.unsupported_walks what)

theorem Walks.asks (question : Program → Except ProgramError α) :
    Walks s (liftM (Compile.asks question) : Emit α) := .lift (Compile.asks_walks question)

/-- What follows a question goes on with the answer. -/
theorem asks_bind {f : Frame} {question : Program → Except ProgramError α} {k : α → Emit β}
    {Q : β × Frame → Work → Prop}
    (h : ∀ a, question s.program = .ok a → Ends s w (k a f) Q) :
    Ends s w ((liftM (Compile.asks question) >>= k : Emit β) f) Q := by
  rw [lift_bind_apply]
  exact Compile.asks_bind h

theorem of_asks_ok {question : Program → Except ProgramError α} {f f' : Frame} {s : Setup}
    {w w' : Work} {a : α} (ran : (liftM (Compile.asks question) : Emit α) f s w = .ok (a, f') w') :
    f = f' ∧ w = w' ∧ question s.program = .ok a := by
  obtain ⟨isFrame, ran⟩ := of_lift_ok ran
  rw [Compile.asks_apply] at ran
  cases answer : question s.program with
  | ok a' =>
    rw [answer] at ran
    cases ran
    exact ⟨isFrame, rfl, rfl⟩
  | error e =>
    rw [answer] at ran
    cases ran

/-- A failure that has no place yet gets this one. -/
theorem locate_apply (span : Span) (m : Emit α) (f : Frame) (s : Setup) (w : Work) :
    locate span m f s w = match m f s w with
      | .ok result w' => .ok result w'
      | .error e w' => .error (e.attach span) w' := by
  change tryCatch (m f) (fun failure => MonadExcept.throw (failure.attach span)) s w = _
  rw [Compile.tryCatch_apply]
  cases m f s w <;> rfl

/-- What succeeds does so without regard to the place that failures get. -/
theorem of_locate_ok {span : Span} {m : Emit α} {f f' : Frame} {w' : Work} {a : α}
    (ran : locate span m f s w = .ok (a, f') w') : m f s w = .ok (a, f') w' := by
  rw [locate_apply] at ran
  cases ran₁ : m f s w with
  | error e w₁ =>
    rw [ran₁] at ran
    cases ran
  | ok result w₁ =>
    rw [ran₁] at ran
    exact ran

theorem Walks.mismatch (expected found : Info) :
    Walks s (liftM (Compile.mismatch expected found : Compile α) : Emit α) :=
  .lift (Compile.mismatch_walks expected found)

theorem Walks.program : Walks s (liftM Compile.program : Emit Program) :=
  .lift Compile.program_walks

/-- What follows the program goes on with it. -/
theorem Walks.program_bind {k : Program → Emit α} (h : Walks s (k s.program)) :
    Walks s (liftM Compile.program >>= k) := ⟨fun moment grounded => h.ends moment grounded⟩

theorem Walks.text (n : Name) : Walks s (liftM (Compile.text n) : Emit String) :=
  .lift (Compile.text_walks n)

theorem Walks.declName (d : DeclId) : Walks s (liftM (Compile.declName d) : Emit String) :=
  .lift (Compile.declName_walks d)

theorem Walks.infoName (i : Info) : Walks s (liftM (Compile.infoName i) : Emit String) :=
  .lift (Compile.infoName_walks i)

theorem isClosed_walks : Walks s isClosed := .bind .get fun _ => .pure _

/-- The place is that of a part which fails of itself if its failure has no place. -/
theorem locate_walks {span : Span} {step : Emit α} (h : Walks s step)
    (own : ∀ {f w cause w'}, Moment s w → step f s w = .error (.bare cause) w' →
    s.FailsAt cause span) :
    Walks s (locate span step) := by
  refine ⟨fun {w f} moment grounded => ?_⟩
  have ends := h.ends moment grounded
  unfold Ends at ends ⊢
  rw [locate_apply]
  cases ran : step f s w with
  | ok result w' =>
    rw [ran] at ends
    exact ends
  | error e w' =>
    rw [ran] at ends
    obtain ⟨there, justified⟩ := ends
    refine ⟨there, ?_⟩
    unfold Failure.attach
    split
    · rename_i noPlace
      obtain ⟨cause, place⟩ := e
      obtain rfl : place = .dummy := of_decide_eq_true noPlace
      exact ⟨justified.cause, .inr (own moment ran)⟩
    · exact justified

theorem infoOf_walks (t : TypeId) : Walks s (infoOf t) :=
  .bind .get fun _ => .lift (Compile.infoOf_walks _ t)

theorem closedInfoOf_walks (t : TypeId) : Walks s (closedInfoOf t) :=
  .bind .program fun _ => .ite (.pure _) (infoOf_walks t)

theorem lookup_walks (n : Name) : Walks s (lookup n) :=
  .bind .get fun _ => .bind .getWork fun _ => .pure _

theorem boxed_walks (v : Operand) : Walks s (boxed v) := by
  unfold boxed
  split
  · exact .bind (.draft _) fun _ => .bind (.draft _) fun _ => .pure _
  · exact .pure _

theorem toBoxed_walks (v : Operand) : Walks s (toBoxed v) := .bind (boxed_walks v) fun _ => .pure _

theorem raw_walks (v : Operand) : Walks s (raw v) := by
  unfold raw
  split
  · exact .pure _
  · exact .draft _
  · exact .bind (.infoName _) fun _ => .invalid _

theorem nullValue_walks (info : Info) : Walks s (nullValue info) :=
  .bind (.draft _) fun _ => .pure _

theorem newCell_walks (value : ValueId) (name : String) : Walks s (newCell value name) :=
  .bind (.draft _) fun _ => .bind (.draft _) fun _ => .pure _

theorem loadField_walks (record : TyId) (ptr : ValueId) (index : Nat) (name : String) :
    Walks s (loadField record ptr index name) := .bind (.draft _) fun _ => .draft _

theorem storeField_walks (record : TyId) (ptr : ValueId) (index : Nat) (value : ValueId) :
    Walks s (storeField record ptr index value) := .bind (.draft _) fun _ => .draft _

theorem callPtr_walks (func : FuncId) (args : List ValueId) (name : String) :
    Walks s (callPtr func args name) := by
  refine .bind (.draft _) fun result => ?_
  cases result with
  | some v => exact .pure _
  | none => exact .draft _

theorem atTop_walks : Walks s atTop := .bind .get fun _ => .pure _

theorem bindName_walks (n : Name) (b : Binding) : Walks s (bindName n b) := by
  refine .bind (.modify fun _ => ⟨rfl, rfl⟩) fun _ => .bind atTop_walks fun top => .ite ?_ (.pure _)
  exact .lift (c := modify fun w => { w with moduleScope := w.moduleScope.bind n b })
    ⟨fun _ => .modify (.bindName n b) ⟨rfl, rfl, rfl, rfl, rfl⟩ trivial⟩

/-- The environment around what is declared here is that of the frame. -/
theorem recordSite_ends {f : Frame} (grounded : f.Grounded w) (d : DeclId) :
    Ends s w (Compile.recordSite d f.site) fun _ w' => f.Grounded w' := by
  have known : ∀ id, f.site.outer = some id → (w.registry.env? id).isSome := by
    intro id outer
    obtain ⟨current, here, rfl⟩ := Option.map_eq_some_iff.mp outer
    exact grounded current here
  have step : Step s w { w with sites := w.sites.insert d f.site } := .site d f.site known
  exact .modify step ⟨rfl, rfl, rfl, rfl, rfl⟩ (grounded.later step.later)

theorem recordSites_walks (decls : List DeclId) : Walks s (recordSites decls) := by
  refine ⟨fun {w f} moment grounded => ?_⟩
  change Ends s w ((decls.forM fun d => liftM (Compile.recordSite d f.site) : Emit PUnit) f) _
  induction decls generalizing w with
  | nil => exact .pure ⟨grounded, rfl⟩
  | cons d decls ih =>
    refine bind_ends (Q := fun result w' => result.2 = f ∧ f.Grounded w')
      (lift_ends ((recordSite_ends grounded d).mono fun _ _ _ here => ⟨rfl, here⟩)) ?_
    rintro _ _ w' there ⟨rfl, here⟩
    exact ih (moment.later there.later) here

theorem openBlock_walks (decls : List DeclId) : Walks s (openBlock decls) :=
  .bind (recordSites_walks decls) fun _ => .modify fun _ => ⟨rfl, rfl⟩

theorem closeBlock_walks : Walks s closeBlock := .modify fun _ => ⟨rfl, rfl⟩

theorem refreshSites_walks : Walks s refreshSites :=
  .bind .get fun _ => recordSites_walks _

theorem receiver_walks : Walks s receiver := by
  refine .bind .get fun f => ?_
  split
  · exact .pure _
  · exact .fail (.inl rfl)

end Emit

namespace Lowering.Walks

variable {s : Setup} {w : Work} {l : Lowering}

/-- The body asked for is compiled for the class and recorded. -/
theorem body (h : l.Walks s) (moment : Moment s w) (subject : Subject) (cls : Option DeclId)
    (args : List Info) : Compile.Ends s w (l.body subject cls args) fun c w' =>
      ∃ key : FunctionKey, key.subject = subject ∧ key.receiverClass = cls ∧
        w'.functions.get? key = some c := by
  refine (Compile.specialize_ends moment subject cls args).bind fun spec w' there isSpec => ?_
  exact (h.compile spec w' (moment.later there.later)).mono fun c w'' _ recorded =>
    ⟨spec.key, isSpec.1, isSpec.2.1, recorded⟩

theorem body_walks (h : l.Walks s) (subject : Subject) (cls : Option DeclId) (args : List Info) :
    Compile.Walks s (l.body subject cls args) :=
  ⟨fun moment => (h.body moment subject cls args).mono fun _ _ _ _ => trivial⟩

/-- What follows a body goes on once it is recorded. -/
theorem body_bind {α : Type} (h : l.Walks s) {subject : Subject} {cls : Option DeclId}
    {args : List Info} {k : CompiledFunction → Emit α}
    (rest : ∀ {w : Work} {f : Frame} (c : CompiledFunction), Moment s w → f.Grounded w → w.Made c →
      Compile.Ends s w (k c f) fun result w' => f.Onward w' result.2) :
    Emit.Walks s (liftM (l.body subject cls args) >>= k) := by
  refine ⟨fun {w f} moment grounded => ?_⟩
  rw [Emit.lift_bind_apply]
  refine (h.body moment subject cls args).bind fun c w' there recorded => ?_
  obtain ⟨key, -, -, known⟩ := recorded
  exact (rest c (moment.later there.later) (grounded.later there.later) ⟨key, known⟩).mono
    fun _ _ _ onward => ⟨onward.grounded, onward.declared⟩

theorem exprs (h : l.Walks s) (es : List ExprId) : Emit.Walks s (l.exprs es) := .mapM h.expr es

theorem coerced (h : l.Walks s) (v : Operand) (info : Info) : Emit.Walks s (l.coerced v info) :=
  .bind (h.coerce v info) fun _ => Emit.boxed_walks _

theorem argument (h : l.Walks s) (arg : Option Operand) (info : Info) :
    Emit.Walks s (l.argument arg info) := by
  cases arg with
  | some v => exact h.coerced v info
  | none => exact .bind (Emit.nullValue_walks _) fun _ => h.coerced _ info

end Lowering.Walks

namespace Emit

variable {s : Setup} {w : Work} {α : Type} {l : Lowering}

/-! ## Records -/

theorem loadRef_walks (ptr : ValueId) (field : FieldRef) (n : Name) :
    Walks s (loadRef ptr field n) :=
  .bind (.text n) fun _ => .bind (loadField_walks _ _ _ _) fun _ => .pure _

theorem fieldValues_walks (v : Operand) : Walks s (fieldValues v) := by
  refine .bind (.lift (Compile.namedFields_walks _)) fun fields =>
    .bind (.lift (Compile.recordOf_walks _)) fun record => ?_
  split
  · exact .bind (boxed_walks v) fun _ => .bind
      (.mapM (fun (_, _, _) => .bind (loadRef_walks _ _ _) fun _ => .pure _) _) fun _ => .pure _
  · exact .pure _

theorem fillFields_walks (hl : l.Walks s) (record : TyId) (ptr : ValueId)
    (fields : List (Nat × Operand × Info)) : Walks s (fillFields l record ptr fields) := by
  induction fields with
  | nil => exact .pure _
  | cons field rest ih =>
    exact .bind (hl.coerced _ _) fun _ => .bind (storeField_walks _ _ _ _) fun _ => ih

theorem copyIntoObject_walks (hl : l.Walks s) (v : Operand) (target : ShapeId) :
    Walks s (copyIntoObject l v target) := by
  refine .bind (.lift (Compile.objectShape_walks _)) fun shape =>
    .bind (fieldValues_walks v) fun source => ?_
  split
  · exact .mismatch _ _
  · exact .bind (.draft _) fun _ => .bind (.forM (fun ((_, _), _) =>
      .bind (hl.argument _ _) fun _ => storeField_walks _ _ _ _) _) fun _ => .pure _

/-! ## Unions -/

theorem index_walks (i : Nat) : Walks s (index i) := .draft _

theorem elemAddr_walks (array : ValueId) (i : Nat) (name : String) :
    Walks s (elemAddr array i name) := .bind (index_walks i) fun _ => .draft _

theorem unionWith_walks (u : UnionShape) (shape : ShapeId) (moves : List (Nat × ValueId)) :
    Walks s (unionWith u shape moves) :=
  .bind (.draft _) fun _ => .bind (.forM (fun (_, _) => storeField_walks _ _ _ _) _)
    fun _ => .pure _

theorem presentUnion_walks (record : TyId) (value : ValueId) :
    Walks s (presentUnion record value) :=
  .bind (.draft _) fun _ => .bind (.draft _) fun _ => .bind (.draft _) fun _ =>
    .bind (.draft _) fun _ => .bind (storeField_walks _ _ _ _) fun _ => .pure _

theorem unionFromAny_walks (v : Operand) (u : UnionShape) (shape : ShapeId) :
    Walks s (unionFromAny v u shape) := by
  have fillSlots (p r : ValueId) : Walks s ((List.range u.slots.length).forM fun slot => do
      Draft.store p (← elemAddr r (u.fieldOfSlot slot) "union.slot") : Emit PUnit) :=
    .forM (fun _ => .bind (elemAddr_walks _ _ _) fun _ => .draft _) _
  unfold unionFromAny
  dsimp only
  refine .bind (boxed_walks v) fun p => .ite (.draft_bind fun _ => .pure _) ?_
  iterate 5 refine .draft_bind fun _ => ?_
  split
  · iterate 4 refine .draft_bind fun _ => ?_
    refine .bind (presentUnion_walks _ _) fun _ => ?_
    iterate 4 refine .draft_bind fun _ => ?_
    exact .pure _
  · iterate 3 refine .draft_bind fun _ => ?_
    refine .bind (fillSlots _ _) fun _ => .bind (.pure _) fun _ => ?_
    iterate 4 refine .draft_bind fun _ => ?_
    exact .pure _

theorem takeFilled_walks (u : UnionShape) (ptr null out : ValueId) (done : BlockId)
    (slots : List (UnionSlot × Nat)) : Walks s (takeFilled u ptr null out done slots) := by
  induction slots with
  | nil => exact .pure _
  | cons slot rest ih =>
    refine .bind (loadField_walks _ _ _ _) fun _ => ?_
    iterate 8 refine .draft_bind fun _ => ?_
    exact ih

theorem unionToAny_walks (v : Operand) (shape : ShapeId) : Walks s (unionToAny v shape) := by
  unfold unionToAny
  dsimp only
  refine .bind (.lift (Compile.unionShape_walks _)) fun u => .bind (boxed_walks v) fun ptr =>
    .ite (.pure _) ?_
  iterate 7 refine .draft_bind fun _ => ?_
  split
  · iterate 5 refine .draft_bind fun _ => ?_
    refine .bind (loadField_walks _ _ _ _) fun _ => ?_
    iterate 4 refine .draft_bind fun _ => ?_
    exact .pure _
  · refine .bind (takeFilled_walks _ _ _ _ _ _) fun _ => ?_
    iterate 3 refine .draft_bind fun _ => ?_
    exact .pure _

theorem initFromUnion_walks (v : Operand) (u : UnionShape) (target source : ShapeId) :
    Walks s (initFromUnion v u target source) := by
  refine .bind (.lift (Compile.unionShape_walks _)) fun src => .bind (boxed_walks v) fun ptr =>
    .bind (.filterMapM (fun (slot, i) => ?_) _) fun moves => .ite (.mismatch _ _)
      (unionWith_walks _ _ _)
  dsimp only
  split
  · exact .bind (loadField_walks _ _ _ _) fun _ => .pure _
  · exact .pure _

theorem propertyMoves_walks (hl : l.Walks s) (v : Operand) (u : UnionShape) :
    Walks s (propertyMoves l v u) := by
  refine .bind (fieldValues_walks v) fun fields => .filterMapM (fun (n, field) => ?_) _
  dsimp only
  split
  · exact .bind (hl.coerced _ _) fun _ => .pure _
  · exact .pure _

theorem initFromInstance_walks (v : Operand) (u : UnionShape) (target : ShapeId) :
    Walks s (initFromInstance v u target) := by
  unfold initFromInstance
  split
  · refine .bind (.asks _) fun chain => ?_
    split
    · exact unionWith_walks _ _ _
    · exact .mismatch _ _
  · exact .mismatch _ _

theorem initMember_walks (hl : l.Walks s) (v : Operand) (u : UnionShape) (target : ShapeId) :
    Walks s (initMember l v u target) := by
  unfold initMember
  split
  · exact .bind (boxed_walks v) fun _ => unionWith_walks _ _ _
  · exact initFromUnion_walks _ _ _ _
  · exact .bind (propertyMoves_walks hl v u) fun _ =>
      .ite (initFromInstance_walks v u target) (unionWith_walks _ _ _)

theorem initOptional_walks (hl : l.Walks s) (v : Operand) (u : UnionShape) (target : ShapeId) :
    Walks s (initOptional l v u target) := by
  unfold initOptional
  dsimp only
  split
  · exact .bind (hl.extract _ _ _) fun _ => .bind (boxed_walks _) fun _ =>
      .bind (presentUnion_walks _ _) fun _ => .pure _
  · exact .bind (hl.coerce _ _) fun _ => .bind (boxed_walks _) fun _ =>
      .bind (presentUnion_walks _ _) fun _ => .pure _

theorem unionInit_walks (hl : l.Walks s) (v : Operand) (target : ShapeId) :
    Walks s (unionInit l v target) := by
  refine .bind (.lift (Compile.unionShape_walks _)) fun u => .ite (.pure _) (.ite ?_ (.ite ?_
    (.ite (initOptional_walks hl v u target) (initMember_walks hl v u target))))
  · exact .ite (.draft_bind fun _ => .pure _) (nullValue_walks _)
  · exact unionFromAny_walks v u target

theorem widensTo_walks (a b : Info) : Compile.Walks s (widensTo a b) := by
  unfold widensTo
  split
  · exact .bind (Compile.asks_walks _) fun _ => .pure _
  all_goals exact .pure _

theorem unknownMember_walks (u : UnionShape) (target : Info) :
    Walks s (unknownMember u target : Emit α) := .bind (.infoName _) fun _ => .fail trivial

theorem extractOptional_walks (hl : l.Walks s) (u : UnionShape) (ptr : ValueId) (target : Info) :
    Walks s (extractOptional l u ptr target) := by
  have rest (fits : Bool) : Walks s (if fits then (do
      let value ← loadField u.record ptr 1 "value"
      l.coerce (.boxed value u.memberInfo) target) else unknownMember u target) :=
    .ite (.bind (loadField_walks _ _ _ _) fun _ => hl.coerce _ _) (unknownMember_walks u target)
  unfold extractOptional
  dsimp only
  split
  · exact .bind (.pure _) rest
  · exact .bind (.lift (widensTo_walks _ _)) rest

theorem extractObject_walks (hl : l.Walks s) (u : UnionShape) (ptr : ValueId) (shape : ShapeId) :
    Walks s (extractObject l u ptr shape) := by
  refine .bind (.lift (Compile.objectShape_walks _)) fun o => ?_
  split
  · exact unknownMember_walks u _
  · refine .draft_bind fun _ => .bind (.forM (fun ((n, _, _), _) => ?_) _) fun _ => .pure _
    exact .bind (.text n) fun _ => .bind (loadField_walks _ _ _ _) fun _ =>
      .bind (hl.coerced _ _) fun _ => storeField_walks _ _ _ _

theorem extractMember_walks (hl : l.Walks s) (u : UnionShape) (ptr : ValueId) (target : Info) :
    Walks s (extractMember l u ptr target) := by
  unfold extractMember
  split
  · exact .bind (loadField_walks _ _ _ _) fun _ => hl.coerce _ _
  · exact extractObject_walks hl u ptr _
  · exact unknownMember_walks u _

theorem unionExtract_walks (hl : l.Walks s) (v : Operand) (source : ShapeId) (target : Info) :
    Walks s (unionExtract l v source target) := by
  refine .bind (.lift (Compile.unionShape_walks _)) fun u => ?_
  split
  · exact .ite (.pure _) (unionInit_walks hl v _)
  · exact .bind (boxed_walks v) fun _ =>
      .ite (extractOptional_walks hl u _ _) (extractMember_walks hl u _ _)

theorem isPresent_walks (v : Operand) (shape : ShapeId) : Walks s (isPresent v shape) :=
  .bind (.lift (Compile.unionShape_walks _)) fun _ =>
    .ite (.bind (boxed_walks v) fun _ => .draft_bind fun _ => .draft _) (.invalid _)

theorem optionalShape?_walks (i : Info) : Compile.Walks s (optionalShape? i) := by
  cases i with
  | union shape => exact .bind (Compile.unionShape_walks _) fun _ => .pure _
  | _ => exact .pure _

theorem isAbsent_walks (v : Operand) : Walks s (isAbsent v) := by
  refine .bind (.lift (optionalShape?_walks _)) fun shape => ?_
  split
  · exact .bind (isPresent_walks v _) fun _ => .draft _
  · exact .bind (boxed_walks v) fun _ => .draft_bind fun _ => .draft _

/-! ## Intersections -/

theorem initFromIntersection_walks (hl : l.Walks s) (v : Operand) (shape : IntersectionShape)
    (target source : ShapeId) : Walks s (initFromIntersection l v shape target source) := by
  refine .bind (.lift (Compile.intersectionShape_walks _)) fun src =>
    .bind (boxed_walks v) fun _ => ?_
  split
  · exact .mismatch _ _
  · refine .draft_bind fun _ => .bind (.forM (fun (_, _) => ?_) _) fun _ => .pure _
    exact .bind (loadField_walks _ _ _ _) fun _ => .bind (hl.coerced _ _) fun _ =>
      storeField_walks _ _ _ _

theorem initFromFields_walks (hl : l.Walks s) (v : Operand) (shape : IntersectionShape)
    (target : ShapeId) (source : List (Name × Operand)) :
    Walks s (initFromFields l v shape target source) := by
  unfold initFromFields
  split
  · exact .mismatch _ _
  · exact .draft_bind fun _ => .bind (fillFields_walks hl _ _ _) fun _ => .pure _

theorem initSingle_walks (hl : l.Walks s) (v : Operand) (shape : IntersectionShape)
    (target : ShapeId) : Walks s (initSingle l v shape target) := by
  unfold initSingle
  split
  · exact .bind (hl.coerced _ _) fun _ => .draft_bind fun _ =>
      .bind (storeField_walks _ _ _ _) fun _ => .pure _
  · exact .mismatch _ _

theorem intersectionInit_walks (hl : l.Walks s) (v : Operand) (target : ShapeId) :
    Walks s (intersectionInit l v target) := by
  refine .bind (.lift (Compile.intersectionShape_walks _)) fun shape =>
    .ite (.pure _) (.ite (nullValue_walks _) ?_)
  split
  · exact initFromIntersection_walks hl v shape target _
  · refine .bind (fieldValues_walks v) fun source => ?_
    split
    · exact initFromFields_walks hl v shape target _
    · exact initSingle_walks hl v shape target

theorem memberRecord_walks (shape : IntersectionShape) (source target : Info) :
    Walks s (memberRecord shape source target) := by
  unfold memberRecord
  split
  · exact .bind (.lift (Compile.objectShape_walks _)) fun _ => .pure _
  · exact .bind (.lift (Compile.layoutOf_walks _)) fun _ =>
      .ite (.bind (.infoName _) fun _ => .unsupported _) (.pure _)
  · exact .bind (.lift (Compile.intersectionShape_walks _)) fun _ => .pure _
  · exact .mismatch _ _

theorem intersectionExtract_walks (hl : l.Walks s) (v : Operand) (source : ShapeId)
    (target : Info) : Walks s (intersectionExtract l v source target) := by
  refine .bind (.lift (Compile.intersectionShape_walks _)) fun shape =>
    .ite (.bind (boxed_walks v) fun _ => .pure _)
      (.bind (.lift (Compile.memberFields_walks _)) fun wanted => .bind (.infoName _) fun _ => ?_)
  split
  · exact .mismatch _ _
  · refine .bind (boxed_walks v) fun _ => .ite
      (.bind (loadField_walks _ _ _ _) fun _ => hl.coerce _ _)
      (.bind (memberRecord_walks _ _ _) fun _ => .draft_bind fun _ =>
        .bind (.forM (fun ((n, _), _) => ?_) _) fun _ => .pure _)
    exact .bind (.text n) fun _ => .bind (loadField_walks _ _ _ _) fun _ =>
      .bind (hl.coerced _ _) fun _ => storeField_walks _ _ _ _

/-! ## Closures -/

theorem outerSource?_walks (e : Environment) (slot : EnvSlot) (i : Nat) :
    Walks s (outerSource? e slot i) := by
  refine .bind .get fun f => ?_
  split
  · exact .pure _
  · exact .pure _

theorem slotMeaning_walks (slot : EnvSlot) (n : Name) : Walks s (slotMeaning slot n) := by
  unfold slotMeaning
  split
  · exact .bind .get fun _ => .pure _
  · exact lookup_walks n

/-- A name that means nothing here is reported if the slot is not taken over. -/
theorem fillByScope_walks (e : Environment) (ptr : ValueId) (slot : EnvSlot) (i : Nat) {n : Name}
    (refers : slot.origin ≠ .outer → s.program.Refers n) :
    Walks s (fillByScope e ptr slot i n) := by
  refine .bind (slotMeaning_walks slot n) fun found => ?_
  split
  · exact storeField_walks _ _ _ _
  · exact .draft_bind fun _ => storeField_walks _ _ _ _
  · split
    · rename_i isOwn
      exact .text_bind (.fail (.inr ⟨n, rfl, refers isOwn⟩))
    · exact .pure _

theorem fillCapture_walks {e : Environment} (refers : e.Refers s.program) (ptr : ValueId)
    {slot : EnvSlot} (inside : slot ∈ e.slots) (i : Nat) : Walks s (fillCapture e ptr slot i) := by
  unfold fillCapture
  split
  · exact .pure _
  · exact .pure _
  · exact .pure _
  · rename_i n isName notParam notReceiver
    refine .bind (outerSource?_walks e slot i) fun source => ?_
    split
    · exact .bind (.lift (Compile.env_walks _)) fun _ => .bind (.text _) fun _ =>
        .bind (loadField_walks _ _ _ _) fun _ => storeField_walks _ _ _ _
    · refine fillByScope_walks _ _ _ _ fun notOuter => refers slot inside ?_ n isName
      cases origin : slot.origin <;> simp_all

theorem fillCaptures_walks {e : Environment} (refers : e.Refers s.program) (ptr : ValueId) :
    Walks s (fillCaptures e ptr) :=
  .forM_mem _ fun (_, _) inside =>
    fillCapture_walks refers _ (List.fst_mem_of_mem_zipIdx inside) _

theorem fillReceiver_walks (e : Environment) (ptr : ValueId) (given : Option ValueId) :
    Walks s (fillReceiver e ptr given) := by
  unfold fillReceiver
  split
  · exact .pure _
  · dsimp only
    split
    · exact .bind (.pure _) fun _ => storeField_walks _ _ _ _
    · exact .bind receiver_walks fun _ => .bind (boxed_walks _) fun _ => storeField_walks _ _ _ _

theorem writeArgs_walks (hl : l.Walks s) (e : Environment) (ptr : ValueId) (params : List Info)
    (args : List Operand) : Walks s (writeArgs l e ptr params args) :=
  .forM (fun _ => .bind (hl.argument _ _) fun _ => .bind (newCell_walks _ _) fun _ =>
    storeField_walks _ _ _ _) _

/-- A closure is recorded once, whatever is recorded of it. -/
theorem bindClosure_later {code : FuncId} {c : ClosureRecord} {w' : Work} {done : Unit}
    (ran : Compile.register (·.bindClosure code c) s w = .ok done w') : Later s w w' := by
  obtain ⟨r, w₁, here, ran⟩ := Compile.of_bind_ok ran
  cases here
  cases bound : w.registry.closure? code with
  | none =>
    simp only [Registry.bindClosure, bound] at ran
    cases ran
    exact (Step.bindClosure c bound).later
  | some old =>
    by_cases same : old.env = c.env
    · simp only [Registry.bindClosure, bound, same, if_true] at ran
      cases ran
      exact .same
    · simp only [Registry.bindClosure, bound, same, if_false] at ran
      cases ran

/-- A closure of a body that is recorded is recorded as the body is. -/
theorem bindClosure_ends {c : CompiledFunction} (made : w.Made c) (d : DeclId) :
    Compile.Ends s w (Compile.register (·.bindClosure c.func (closureRecord c d)))
    fun _ _ => True := by
  refine .registry_bind ?_
  cases bound : w.registry.closure? c.func with
  | none =>
    obtain ⟨key, known⟩ := made
    simp only [Registry.bindClosure, bound]
    exact ⟨.bindClosure known ⟨rfl, rfl, .inl rfl⟩ bound, trivial⟩
  | some old =>
    by_cases same : old.env = (closureRecord c d).env
    · simp only [Registry.bindClosure, bound, same, if_true]
      exact ⟨.refl w, trivial⟩
    · simp only [Registry.bindClosure, bound, same, if_false]
      exact .throw trivial

theorem makeClosure_ends {c : CompiledFunction} {f : Frame} (moment : Moment s w)
    (grounded : f.Grounded w) (made : w.Made c) (d : DeclId) (env : ValueId) (sig : Option TypeId) :
    Compile.Ends s w (makeClosure c d env sig f) fun result w' => f.Onward w' result.2 := by
  have rest (rt : Runtime) : Walks s (do
      let ptr ← Draft.alloc rt.closure "closure"
      let code ← Draft.funcAddr c.func
      storeField rt.closure ptr 0 code
      storeField rt.closure ptr 1 env
      return ⟨ptr, { sig, code := some c.func, env := some c.env }⟩ : Emit ClosureValue) :=
    .draft_bind fun _ => .draft_bind fun _ => .bind (storeField_walks _ _ _ _) fun _ =>
      .bind (storeField_walks _ _ _ _) fun _ => .pure _
  unfold makeClosure
  rw [lift_bind_apply]
  refine (Compile.runtime_walks.ends moment).bind fun rt w₁ there₁ _ => ?_
  rw [lift_bind_apply]
  refine (bindClosure_ends (there₁.made_stays made) d).bind fun _ w₂ there₂ _ => ?_
  have there := there₁.trans there₂
  exact (rest rt).ends (moment.later there.later) (grounded.later there.later)

theorem captureEnv_walks (env : EnvId) (given : Option ValueId) : Walks s (captureEnv env given) :=
  .env_bind fun _ refers => .draft_bind fun _ =>
    .bind (fillCaptures_walks refers _) fun _ => .bind (fillReceiver_walks _ _ _) fun _ => .pure _

theorem closureOf_ends {c : CompiledFunction} {f : Frame} (moment : Moment s w)
    (grounded : f.Grounded w) (made : w.Made c) (d : DeclId) (given : Option ValueId) :
    Compile.Ends s w (closureOf c d given f) fun result w' => f.Onward w' result.2 := by
  refine bind_ends ((captureEnv_walks c.env given).ends moment grounded)
    fun env f₁ w₁ there onward => ?_
  exact (makeClosure_ends (moment.later there.later) onward.grounded (there.made_stays made) d env
    none).mono fun _ _ _ last => onward.trans last

theorem makeLazy_walks (d : DeclId) : Walks s (makeLazy d) :=
  .bind (.lift (Compile.environmentOf_walks d)) fun _ => .bind (captureEnv_walks _ _) fun _ =>
    .bind (.lift Compile.runtime_walks) fun _ => .draft_bind fun _ =>
      .bind (storeField_walks _ _ _ _) fun _ => .pure _

theorem functionValue_walks (hl : l.Walks s) (d : DeclId) : Walks s (functionValue l d) := by
  have value (f : FunctionDecl) : Walks s (do
      if f.body.isNone then Compile.unsupported (.nativeFunctionValue (← Compile.declName d))
      else if f.isGeneric then makeLazy d
      else return (← closureOf (← l.body (.function d) none []) d none).operand : Emit Operand) :=
    .ite (.bind (.declName d) fun _ => .unsupported _) (.ite (makeLazy_walks d)
      (hl.body_bind fun _ moment grounded made =>
        bind_ends (closureOf_ends moment grounded made d none) fun _ _ _ _ onward => .pure onward))
  refine .bind (.asks _) fun f => ?_
  dsimp only
  split
  · exact .bind (recordSites_walks _) fun _ => value f
  · exact value f

theorem methodClosure_walks (hl : l.Walks s) (m : DeclId) (cls : Option DeclId)
    (given : ValueId) : Walks s (methodClosure l m cls given) :=
  .bind (.lift (Compile.resolve_walks _ _ _)) fun _ => .bind (.asks _) fun _ =>
    .ite (.unsupported _) (hl.body_bind fun _ moment grounded made =>
      bind_ends (closureOf_ends moment grounded made m (some given))
        fun _ _ _ _ onward => .pure onward)

theorem boundMethod_walks (hl : l.Walks s) (object : Operand) (cls m : DeclId) :
    Walks s (boundMethod l object cls m) :=
  .bind (boxed_walks _) fun _ => methodClosure_walks hl _ _ _

theorem staticMethodValue_walks (hl : l.Walks s) (m : DeclId) :
    Walks s (staticMethodValue l m) := .draft_bind fun _ => methodClosure_walks hl _ _ _

theorem sigInfos_walks (sig : TypeId) : Walks s (sigInfos sig) := by
  refine .bind .program fun p => ?_
  split
  · exact .bind (.mapM infoOf_walks _) fun _ => .bind (infoOf_walks _) fun _ => .pure _
  · exact .invalid _

theorem callShape_walks (known : ClosureInfo) (arity : Nat) : Walks s (callShape known arity) := by
  refine .bind (.lift Compile.registry_walks) fun r => ?_
  split
  · exact .pure _
  · exact .bind (.lift (Compile.env_walks _)) fun _ => .bind (sigInfos_walks _) fun _ => .pure _
  · exact .bind (.lift (Compile.env_walks _)) fun _ => .pure _
  · exact .bind (sigInfos_walks _) fun _ =>
      .bind (.lift (Compile.syntheticEnv_walks _)) fun _ => .pure _
  · exact .bind (.lift (Compile.syntheticEnv_walks _)) fun _ => .pure _

theorem closureCall_walks (hl : l.Walks s) (c : ClosureValue) (args : List Operand) :
    Walks s (closureCall l c args) :=
  .bind (callShape_walks _ _) fun _ => .bind (.lift (Compile.env_walks _)) fun _ =>
    .bind (.lift Compile.runtime_walks) fun _ => .bind (loadField_walks _ _ _ _) fun _ =>
      .bind (writeArgs_walks hl _ _ _ _) fun _ => .bind (callPtr_walks _ _ _) fun _ => .pure _

theorem closureFromLazy_ends {c : CompiledFunction} {frame : Frame} (moment : Moment s w)
    (grounded : frame.Grounded w) (made : w.Made c) (f : Operand) (d : DeclId)
    (sig : Option TypeId) :
    Compile.Ends s w (closureFromLazy f d c sig frame) fun result w' =>
    frame.Onward w' result.2 := by
  have loaded : Walks s (do
      let ptr ← boxed f
      loadField (← Compile.runtime).lazy ptr 0 "env" : Emit ValueId) :=
    .bind (boxed_walks _) fun _ => .bind (.lift Compile.runtime_walks) fun _ =>
      loadField_walks _ _ _ _
  have parts : closureFromLazy f d c sig = (do
      let ptr ← boxed f
      loadField (← Compile.runtime).lazy ptr 0 "env" : Emit ValueId) >>=
          (makeClosure c d · sig) := by
    simp only [closureFromLazy, bind_assoc]
  rw [parts]
  refine bind_ends (loaded.ends moment grounded) fun env f₁ w₁ there onward => ?_
  exact (makeClosure_ends (moment.later there.later) onward.grounded (there.made_stays made) d env
    sig).mono fun _ _ _ last => onward.trans last

theorem lazyCall_walks (hl : l.Walks s) (f : Operand) (d : DeclId) (args : List Operand) :
    Walks s (lazyCall l f d args) :=
  hl.body_bind fun _ moment grounded made =>
    bind_ends (closureFromLazy_ends moment grounded made f d none) fun closure _ _ there onward =>
      ((closureCall_walks hl closure args).ends (moment.later there.later) onward.grounded).mono
        fun _ _ _ last => onward.trans last

theorem specializeLazy_walks (hl : l.Walks s) (f : Operand) (d : DeclId) (sig : TypeId) :
    Walks s (specializeLazy l f d sig) :=
  .bind (sigInfos_walks _) fun _ => hl.body_bind fun _ moment grounded made =>
    bind_ends (closureFromLazy_ends moment grounded made f d (some sig)) fun _ _ _ _ onward =>
      .pure onward

theorem callValue_walks (hl : l.Walks s) (f : Operand) (args : List Operand) :
    Walks s (callValue l f args) := by
  unfold callValue
  split
  · exact .bind (boxed_walks _) fun _ => closureCall_walks hl _ _
  · exact lazyCall_walks hl _ _ _
  · exact .bind (boxed_walks _) fun _ => closureCall_walks hl _ _
  · exact .bind (.infoName _) fun _ => .unsupported _

/-! ## Coercions and calls -/

theorem coerceInstance_walks (v : Operand) (cls target : DeclId) :
    Walks s (coerceInstance v cls target) := by
  have rest (related : Bool) : Walks s (if related then
      (pure (.boxed v.value (.instanceOf target)) : Emit Operand)
      else Compile.mismatch (.instanceOf target) v.info) := .ite (.pure _) (.mismatch _ _)
  refine .bind (.asks _) fun chain => ?_
  dsimp only
  split
  · exact .bind (.pure _) rest
  · exact .bind (.asks _) fun _ => .bind (.pure _) rest

theorem coercePlain_walks (hl : l.Walks s) (v : Operand) (target : Info) :
    Walks s (coercePlain l v target) := by
  refine .ite (nullValue_walks _) ?_
  split
  · exact coerceInstance_walks _ _ _
  · exact copyIntoObject_walks hl _ _
  · exact copyIntoObject_walks hl _ _
  · exact .pure _
  · split
    · exact specializeLazy_walks hl _ _ _
    · exact .pure _
  · exact .mismatch _ _

theorem coerce_walks (hl : l.Walks s) (v : Operand) (target : Info) :
    Walks s (coerce l v target) := by
  refine .ite (.pure _) ?_
  split
  · exact .pure _
  · exact unionToAny_walks _ _
  · exact .bind (boxed_walks _) fun _ => .pure _
  · exact unionInit_walks hl _ _
  · exact .bind (boxed_walks _) fun _ => .draft_bind fun _ => .pure _
  · exact unionExtract_walks hl _ _ _
  · exact intersectionInit_walks hl _ _
  · exact intersectionExtract_walks hl _ _ _
  · exact coercePlain_walks hl _ _

theorem externalInfo_walks (f : FunctionDecl) (ty : TypeId) : Walks s (externalInfo f ty) :=
  .ite (.pure _) (closedInfoOf_walks ty)

theorem callExternal_walks (hl : l.Walks s) (d : DeclId) (symbol : String)
    (object : Option Operand) (args : List Operand) :
    Walks s (callExternal l d symbol object args) := by
  refine .bind (.asks _) fun f => .bind (.mapM boxed_walks _) fun first =>
    .bind (.mapM (fun (_, _) => .bind (.asks _) fun _ => .bind (externalInfo_walks _ _) fun _ =>
      hl.argument _ _) _) fun rest => .bind (.lift (Compile.externalFunction_walks _ _)) fun _ =>
        .bind (callPtr_walks _ _ _) fun _ => .bind ?_ fun _ => .pure _
  cases f.ret with
  | none => exact .pure _
  | some ty => exact externalInfo_walks f ty

theorem callCompiled_walks (hl : l.Walks s) (c : CompiledFunction) (this : Option ValueId)
    (args : List Operand) : Walks s (callCompiled l c this args) :=
  .env_bind fun _ refers => .draft_bind fun _ =>
    .bind (writeArgs_walks hl _ _ _ _) fun _ => .bind (fillCaptures_walks refers _) fun _ =>
      .bind (fillReceiver_walks _ _ _) fun _ => .bind (callPtr_walks _ _ _) fun _ => .pure _

theorem receiverValue_walks (d : DeclId) (on : Option Receiver) :
    Walks s (receiverValue d on) := by
  cases on with
  | some r => exact .bind (boxed_walks _) fun _ => .pure _
  | none => exact .bind (.asks _) fun _ => .ite (.draft_bind fun _ => .pure _) (.pure _)

theorem callDecl_walks (hl : l.Walks s) (d : DeclId) (on : Option Receiver)
    (args : List Operand) : Walks s (callDecl l d on args) :=
  .bind (.asks _) fun _ => .bind (.lift (Compile.resolve_walks _ _ _)) fun _ =>
    .ite (callExternal_walks hl _ _ _ _) (.ite (.invalid _)
      (.bind (.lift (hl.body_walks _ _ _)) fun _ => .bind (receiverValue_walks _ _) fun _ =>
        callCompiled_walks hl _ _ _))

end Emit

end ShapeCompiler
