import ShapeCompiler.Proofs.Parts

/-!
# Parts that give no function a body

* `Work.Still`: between two states the functions stay as they are, and what declarations can see;
* `Compile.Quiet`: a part that succeeds leaves them alone;
* `Work.Calm`, `Compile.Mild`: functions may be declared, but none gets a body.

Most parts of the compiler that work without a frame are quiet. Those that are not declare
functions, compile a body or write one down: `Compile.externalFunction`, `Compile.declareCompiled`,
`Compile.function`, `Compile.tableOf`, `Compile.trampoline` and `Compile.entry`.
-/

namespace ShapeCompiler

open Source Code Work

/-- The functions are the same, what declarations can see, and the environments. -/
structure Work.Still (w w' : Work) : Prop where
  scope : w'.moduleScope = w.moduleScope
  sites : w'.sites = w.sites
  made : w'.functions = w.functions
  functions : w'.code.functions = w.code.functions
  compiled : w'.compiled = w.compiled
  envs : w'.registry.envs = w.registry.envs

theorem Work.Still.refl (w : Work) : Still w w := ⟨rfl, rfl, rfl, rfl, rfl, rfl⟩

theorem Work.Still.trans {w w' w'' : Work} (h : Still w w') (h' : Still w' w'') : Still w w'' where
  scope := h'.scope.trans h.scope
  sites := h'.sites.trans h.sites
  made := h'.made.trans h.made
  functions := h'.functions.trans h.functions
  compiled := h'.compiled.trans h.compiled
  envs := h'.envs.trans h.envs

/-- The same but for the registry, in which environments may be laid out. -/
inductive Work.Beside (w : Work) : Work → Prop
  | mk {w₁ : Work} (registry : Registry) (still : Still w w₁) : Beside w { w₁ with registry }

/-- A function that has a body had it before, and what declarations can see is the same. -/
structure Work.Calm (w w' : Work) : Prop where
  scope : w'.moduleScope = w.moduleScope
  sites : w'.sites = w.sites
  made : w'.functions = w.functions
  bodies : ∀ f fn body, w'.code.function? f = some fn → fn.body = some body →
    w.code.function? f = some fn

namespace Work.Calm

variable {w w' w'' : Work}

theorem of_still (h : Still w w') : Calm w w' where
  scope := h.scope
  sites := h.sites
  made := h.made
  bodies := fun f fn _ known _ => by simpa [Module.function?, h.functions] using known

theorem trans (h : Calm w w') (h' : Calm w' w'') : Calm w w'' where
  scope := h'.scope.trans h.scope
  sites := h'.sites.trans h.sites
  made := h'.made.trans h.made
  bodies := fun f fn body known has => h.bodies f fn body (h'.bodies f fn body known has) has

/-- A function that is new has no body. -/
theorem declare (w : Work) (name : String) (params : List TyId) (ret : TyId) :
    Calm w { w with code := (w.code.declare name params ret).2 } := by
  refine ⟨rfl, rfl, rfl, fun f fn body known has => ?_⟩
  simp only [Module.declare] at known
  split at known
  · exact known
  · rcases of_getElem?_push known with ⟨_, rfl⟩ | known
    · cases has
    · exact known

/-- The registry does not matter. -/
theorem of_beside (h : Beside w w') : Calm w w' := by
  cases h with
  | mk registry still => exact ⟨still.scope, still.sites, still.made, (of_still still).bodies⟩

end Work.Calm

namespace Compile

variable {α β : Type}

/-- Where the part succeeds, it left the functions and the names at the top alone. -/
structure Quiet (m : Compile α) : Prop where
  still : ∀ {s : Setup} {w w' : Work} {a : α}, m s w = .ok a w' → Still w w'

/-- Where the part succeeds, no function got a body, and no environment was laid out. -/
structure Mild (m : Compile α) : Prop where
  ends : ∀ {s : Setup} {w w' : Work} {a : α}, m s w = .ok a w' →
    Calm w w' ∧ w'.registry.envs = w.registry.envs

namespace Quiet

variable {m : Compile α}

theorem pure (a : α) : Quiet (Pure.pure a : Compile α) := by
  refine ⟨fun ran => ?_⟩
  cases ran
  exact .refl _

theorem throw (e : Failure) : Quiet (MonadExcept.throw e : Compile α) := by
  refine ⟨fun ran => ?_⟩
  cases ran

theorem get : Quiet (MonadState.get : Compile Work) := by
  refine ⟨fun ran => ?_⟩
  cases ran
  exact .refl _

theorem read : Quiet (MonadReader.read : Compile Setup) := by
  refine ⟨fun ran => ?_⟩
  cases ran
  exact .refl _

theorem bind {f : α → Compile β} (first : Quiet m) (rest : ∀ a, Quiet (f a)) :
    Quiet (m >>= f) := by
  refine ⟨fun {s w w' b} ran => ?_⟩
  rw [bind_apply] at ran
  cases ran₁ : m s w with
  | error e w₁ => simp [ran₁] at ran
  | ok a w₁ =>
    rw [ran₁] at ran
    exact (first.still ran₁).trans ((rest a).still ran)

/-- A failure that is passed on is none to speak of. -/
theorem tryCatch {handle : Failure → Compile α} (first : Quiet m)
    (again : ∀ e s w a w', handle e s w ≠ .ok a w') : Quiet (MonadExcept.tryCatch m handle) := by
  refine ⟨fun {s w w' a} ran => ?_⟩
  rw [tryCatch_apply] at ran
  cases ran₁ : m s w with
  | error e w₁ =>
    rw [ran₁] at ran
    exact absurd ran (again e s w₁ a w')
  | ok a w₁ =>
    rw [ran₁] at ran
    cases ran
    exact first.still ran₁

theorem mapM {f : α → Compile β} (each : ∀ a, Quiet (f a)) (as : List α) : Quiet (as.mapM f) := by
  induction as with
  | nil => exact pure _
  | cons a as ih =>
    rw [List.mapM_cons]
    exact bind (each a) fun _ => bind ih fun _ => pure _

theorem ite {c : Prop} [Decidable c] {m' : Compile α} (h : Quiet m) (h' : Quiet m') :
    Quiet (if c then m else m') := by
  split
  · exact h
  · exact h'

theorem optionMapM {f : α → Compile β} (each : ∀ a, Quiet (f a)) (o : Option α) :
    Quiet (o.mapM f) := by
  cases o with
  | none => exact pure _
  | some a => exact bind (each a) fun _ => pure _

theorem modifyGet {f : Work → α × Work} (still : ∀ w, Still w (f w).2) :
    Quiet (modifyGet f : Compile α) := by
  refine ⟨fun {s w w' a} ran => ?_⟩
  cases ran
  exact still w

theorem modify {f : Work → Work} (still : ∀ w, Still w (f w)) :
    Quiet (modify f : Compile PUnit) := by
  refine ⟨fun {s w w' a} ran => ?_⟩
  cases ran
  exact still w

theorem calm {s : Setup} {w w' : Work} {a : α} (h : Quiet m) (ran : m s w = .ok a w') : Calm w w' :=
  .of_still (h.still ran)

theorem mild (h : Quiet m) : Mild m := ⟨fun ran => ⟨h.calm ran, (h.still ran).envs⟩⟩

end Quiet

namespace Mild

variable {m : Compile α}

theorem calm {s : Setup} {w w' : Work} {a : α} (h : Mild m) (ran : m s w = .ok a w') : Calm w w' :=
  (h.ends ran).1

theorem envs {s : Setup} {w w' : Work} {a : α} (h : Mild m) (ran : m s w = .ok a w') :
    w'.registry.envs = w.registry.envs := (h.ends ran).2

theorem bind {f : α → Compile β} (first : Mild m) (rest : ∀ a, Mild (f a)) : Mild (m >>= f) := by
  refine ⟨fun ran => ?_⟩
  obtain ⟨a, w₁, ran₁, ran₂⟩ := of_bind_ok ran
  exact ⟨(first.calm ran₁).trans ((rest a).calm ran₂), ((rest a).envs ran₂).trans (first.envs ran₁)⟩

theorem mapM {f : α → Compile β} (each : ∀ a, Mild (f a)) (as : List α) : Mild (as.mapM f) := by
  induction as with
  | nil => exact (Quiet.pure _).mild
  | cons a as ih =>
    rw [List.mapM_cons]
    exact bind (each a) fun _ => bind ih fun _ => (Quiet.pure _).mild

theorem modifyGet {f : Work → α × Work}
    (calm : ∀ w, Calm w (f w).2 ∧ (f w).2.registry.envs = w.registry.envs) :
    Mild (modifyGet f : Compile α) := by
  refine ⟨fun {s w w' a} ran => ?_⟩
  cases ran
  exact calm w

end Mild

/-! ## Questions -/

theorem fail_quiet (cause : Cause) : Quiet (fail cause : Compile α) := .throw _

theorem invalid_quiet (what : Invalid) : Quiet (invalid what : Compile α) := .throw _

theorem program_quiet : Quiet program := .bind .read fun _ => .pure _

theorem runtime_quiet : Quiet runtime := .bind .read fun _ => .pure _

theorem registry_quiet : Quiet registry := .bind .get fun _ => .pure _

theorem ask_quiet (answer : Except ProgramError α) : Quiet (ask answer) := by
  cases answer with
  | ok a => exact .pure a
  | error e => exact invalid_quiet _

theorem asks_quiet (question : Program → Except ProgramError α) : Quiet (asks question) :=
  .bind program_quiet fun _ => ask_quiet _

theorem resolve_quiet (d : DeclId) (args : List Info) (receiver : Option Info) :
    Quiet (resolve d args receiver) := .bind .read fun _ => .pure _

theorem text_quiet (n : Name) : Quiet (text n) := .bind program_quiet fun _ => .pure _

theorem declName_quiet (d : DeclId) : Quiet (declName d) := .bind program_quiet fun _ => .pure _

theorem infoName_quiet (i : Info) : Quiet (infoName i) :=
  .bind program_quiet fun _ => .bind registry_quiet fun _ => .pure _

theorem env_quiet (id : EnvId) : Quiet (env id) := by
  refine .bind registry_quiet fun r => ?_
  split
  · exact .pure _
  · exact invalid_quiet _

theorem objectShape_quiet (id : ShapeId) : Quiet (objectShape id) := by
  refine .bind registry_quiet fun r => ?_
  split
  · exact .pure _
  · exact invalid_quiet _

theorem unionShape_quiet (id : ShapeId) : Quiet (unionShape id) := by
  refine .bind registry_quiet fun r => ?_
  split
  · exact .pure _
  · exact invalid_quiet _

theorem intersectionShape_quiet (id : ShapeId) : Quiet (intersectionShape id) := by
  refine .bind registry_quiet fun r => ?_
  split
  · exact .pure _
  · exact invalid_quiet _

theorem siteOf_quiet (d : DeclId) : Quiet (siteOf d) := by
  refine .bind .get fun w => .bind program_quiet fun p => ?_
  split
  · exact .pure _
  · exact invalid_quiet _

/-! ## Types, records and shapes -/

theorem types_quiet (f : TypeTable → α × TypeTable) : Quiet (types f) :=
  .modifyGet fun _ => ⟨rfl, rfl, rfl, rfl, rfl, rfl⟩

theorem pointerRecord_quiet (name : String) (fields : List TyId) :
    Quiet (pointerRecord name fields) := types_quiet _

theorem freshRecord_quiet (base : String) (size : Nat) : Quiet (freshRecord base size) :=
  .bind (.bind .get fun _ => .pure _) fun _ => .bind (pointerRecord_quiet _ _) fun _ => .pure _

theorem registerShape_quiet (shape : Shape) : Quiet (registerShape shape) := by
  refine .modifyGet fun w => ⟨rfl, rfl, rfl, rfl, rfl, ?_⟩
  change (w.registry.register shape).2.envs = w.registry.envs
  unfold Registry.register
  split <;> rfl

theorem shapeOfObject_quiet (props : List (Name × Info)) : Quiet (shapeOfObject props) := by
  refine .bind registry_quiet fun r => .bind program_quiet fun p => ?_
  dsimp only
  split
  · exact .pure _
  · exact .bind (pointerRecord_quiet _ _) fun _ => registerShape_quiet _

theorem shapeOfUnion_quiet (members : List Info) (nullable : Bool) :
    Quiet (shapeOfUnion members nullable) := by
  refine .bind registry_quiet fun r => .bind program_quiet fun p => ?_
  dsimp only
  split
  · exact .pure _
  · exact .bind (pointerRecord_quiet _ _) fun _ => registerShape_quiet _

theorem shapeOfIntersection_quiet (segments : List Segment) (fields : List (Name × Info)) :
    Quiet (shapeOfIntersection segments fields) := by
  refine .bind registry_quiet fun r => ?_
  split
  · exact .pure _
  · exact .bind (pointerRecord_quiet _ _) fun _ => registerShape_quiet _

/-! ## What types become -/

theorem setInProgress_quiet (d : DeclId) (on : Bool) : Quiet (setInProgress d on) :=
  .modify fun _ => ⟨rfl, rfl, rfl, rfl, rfl, rfl⟩

section Infos

variable {part : PartInfo} (hp : ∀ b t, Quiet (part b t))

include hp

theorem objectInfoBy_quiet (b : Bindings) (fields : List (Name × TypeId)) :
    Quiet (objectInfoBy part b fields) :=
  .bind (.mapM (fun (_, t) => .bind (hp b t) fun _ => .pure _) _) fun _ =>
    .bind (shapeOfObject_quiet _) fun _ => .pure _

theorem interfaceInfoBy_quiet (b : Bindings) (d : DeclId) : Quiet (interfaceInfoBy part b d) := by
  refine .bind .get fun w => ?_
  split
  · exact .pure _
  · refine .bind (setInProgress_quiet d true) fun _ => .bind (.tryCatch ?_ ?_) fun _ => ?_
    · exact .bind (asks_quiet _) fun _ => objectInfoBy_quiet hp b _
    · intro e s w a w' ran
      cases ran
    · exact .bind (setInProgress_quiet d false) fun _ => .pure _

theorem unionInfoBy_quiet (b : Bindings) (members : List TypeId) :
    Quiet (unionInfoBy part b members) := by
  refine .bind (.mapM (fun t => .ite (.pure _) (hp b t)) _) fun infos => ?_
  split
  · exact .pure _
  · exact .pure _
  · exact .bind (shapeOfUnion_quiet _ _) fun _ => .pure _

theorem layoutBy_quiet (cls : DeclId) : Quiet (layoutBy part cls) := by
  refine .bind .get fun w => ?_
  split
  · exact .pure _
  · refine .bind (asks_quiet _) fun chain => .bind ?_ fun hasTable =>
      .bind (asks_quiet _) fun ids => .bind (.mapM (fun d => ?_) ids) fun props =>
        .bind (declName_quiet cls) fun name => .bind (freshRecord_quiet _ _) fun record =>
          .bind (.modify fun _ => ⟨rfl, rfl, rfl, rfl, rfl, rfl⟩) fun _ => .pure _
    · exact .bind (.mapM (fun _ => .bind (asks_quiet _) fun _ => .pure _) _) fun _ => .pure _
    · refine .bind (.bind (asks_quiet _) fun _ => .bind program_quiet fun _ => ?_) fun _ =>
        .bind (asks_quiet _) fun _ => .pure _
      exact .ite (.pure _) (hp _ _)

theorem memberFieldsBy_quiet (i : Info) : Quiet (memberFieldsBy part i) := by
  cases i with
  | object shape => exact .bind (objectShape_quiet _) fun _ => .pure _
  | intersection shape => exact .bind (intersectionShape_quiet _) fun _ => .pure _
  | instanceOf c => exact .bind (layoutBy_quiet hp c) fun _ => .pure _
  | _ => exact .pure _

theorem segmentsBy_quiet (b : Bindings) (start : Nat) (members : List TypeId) :
    Quiet (segmentsBy part b start members) := by
  induction members generalizing start with
  | nil => exact .pure _
  | cons t rest ih =>
    exact .bind (hp b t) fun _ => .bind (memberFieldsBy_quiet hp _) fun _ =>
      .bind program_quiet fun _ => .bind (ih _) fun _ => .pure _

theorem intersectionInfoBy_quiet (b : Bindings) (members : List TypeId) :
    Quiet (intersectionInfoBy part b members) :=
  .bind (segmentsBy_quiet hp b 0 members) fun _ =>
    .bind (shapeOfIntersection_quiet _ _) fun _ => .pure _

end Infos

theorem infoAt_quiet (depth : Nat) (b : Bindings) (t : TypeId) : Quiet (infoAt depth b t) := by
  induction depth generalizing b t with
  | zero => exact fail_quiet _
  | succ depth ih =>
    refine .bind program_quiet fun p => ?_
    split
    case h_9 => exact interfaceInfoBy_quiet ih b _
    case h_10 => exact objectInfoBy_quiet ih b _
    case h_11 => exact unionInfoBy_quiet ih b _
    case h_12 => exact intersectionInfoBy_quiet ih b _
    case h_14 =>
      split
      · exact .pure _
      · exact fail_quiet _
    all_goals exact .pure _

theorem infoOf_quiet (b : Bindings) (t : TypeId) : Quiet (infoOf b t) :=
  .bind program_quiet fun _ => infoAt_quiet _ b t

theorem openInfoOf_quiet (t : TypeId) : Quiet (openInfoOf t) :=
  .bind program_quiet fun _ => .ite (.pure _) (infoOf_quiet _ t)

theorem layoutOf_quiet (cls : DeclId) : Quiet (layoutOf cls) := layoutBy_quiet infoOf_quiet cls

theorem memberFields_quiet (i : Info) : Quiet (memberFields i) :=
  memberFieldsBy_quiet infoOf_quiet i

theorem namedFields_quiet (i : Info) : Quiet (namedFields i) := by
  cases i with
  | object shape => exact .bind (objectShape_quiet _) fun _ => .pure _
  | intersection shape => exact .bind (intersectionShape_quiet _) fun _ => .pure _
  | instanceOf c => exact .bind (layoutOf_quiet c) fun _ => .pure _
  | _ => exact .pure _

theorem recordOf_quiet (i : Info) : Quiet (recordOf i) := by
  cases i with
  | object shape => exact .bind registry_quiet fun _ => .pure _
  | union shape => exact .bind registry_quiet fun _ => .pure _
  | intersection shape => exact .bind registry_quiet fun _ => .pure _
  | instanceOf c => exact .bind (layoutOf_quiet c) fun _ => .pure _
  | _ => exact .pure _

theorem fieldRef_quiet (i : Info) (n : Name) : Quiet (fieldRef i n) := by
  unfold fieldRef
  split
  · exact .bind (unionShape_quiet _) fun _ => .pure _
  · refine .bind (recordOf_quiet _) fun record => ?_
    cases record with
    | none => exact .pure _
    | some record => exact .bind (namedFields_quiet _) fun _ => .pure _

/-! ## Functions and globals -/

theorem declare_mild (name : String) (params : List TyId) (ret : TyId) :
    Mild (code (·.declare name params ret)) := .modifyGet fun w => ⟨.declare w name params ret, rfl⟩

theorem declareCompiled_mild (name : String) (arity : Nat) : Mild (declareCompiled name arity) :=
  .bind (.modifyGet fun w => ⟨.declare w _ _ _, rfl⟩) fun _ =>
    .bind (.modifyGet fun _ => ⟨⟨rfl, rfl, rfl, fun _ _ _ known _ => known⟩, rfl⟩) fun _ =>
      (Quiet.pure _).mild

theorem externalFunction_mild (name : String) (arity : Nat) :
    Mild (externalFunction name arity) := by
  refine .bind Quiet.get.mild fun w => ?_
  split
  · exact .bind Quiet.get.mild fun _ => (Quiet.ite (invalid_quiet _) (.pure _)).mild
  · exact declare_mild _ _ _

theorem addGlobal_quiet (name : String) (ty : TyId) (readonly : Bool) (init : Initial) :
    Quiet (code (·.addGlobal name ty readonly init)) :=
    .modifyGet fun _ => ⟨rfl, rfl, rfl, rfl, rfl, rfl⟩

theorem declareGlobal_quiet (name : String) (ty : TyId) (readonly : Bool) :
    Quiet (code (·.declareGlobal name ty readonly)) := by
  refine .modifyGet fun w => ⟨rfl, rfl, rfl, ?_, rfl, rfl⟩
  simp only [Module.declareGlobal]
  split <;> rfl

theorem staticGlobal_quiet (prop : DeclId) : Quiet (staticGlobal prop) := by
  refine .bind .get fun w => ?_
  split
  · exact .pure _
  · exact .bind (asks_quiet _) fun _ => .bind (declName_quiet _) fun _ =>
      .bind (declName_quiet _) fun _ => .bind (addGlobal_quiet _ _ _ _) fun _ =>
        .bind (.modify fun _ => ⟨rfl, rfl, rfl, rfl, rfl, rfl⟩) fun _ => .pure _

/-! ## Which body a call needs -/

theorem formals_quiet (subject : Subject) : Quiet (formals subject) := by
  cases subject with
  | function d => exact .bind (asks_quiet _) fun _ => .pure _
  | implicitConstructor c => exact .bind (asks_quiet _) fun _ => .pure _

theorem paramInfos_quiet (b : Bindings) (params : List DeclId) (args : List Info) :
    Quiet (paramInfos b params args) := by
  induction params generalizing args with
  | nil => exact .pure _
  | cons d rest ih =>
    exact .bind (asks_quiet _) fun _ => .bind (infoOf_quiet b _) fun _ => .bind (ih _) fun _ =>
      .pure _

theorem specialize_quiet (subject : Subject) (cls : Option DeclId) (args : List Info) :
    Quiet (specialize subject cls args) := by
  refine .bind program_quiet fun p => .bind (siteOf_quiet _) fun site =>
    .bind (formals_quiet subject) fun formals => .bind (ask_quiet _) fun bindings => ?_
  split
  · exact fail_quiet _
  · exact .bind (paramInfos_quiet _ _ _) fun _ => .pure _

/-! ## Environments -/

theorem envs_bindClosure {r r' : Registry} {code : FuncId} {c : ClosureRecord}
    (bound : r.bindClosure code c = .ok r') : r'.envs = r.envs := by
  unfold Registry.bindClosure at bound
  split at bound
  · cases bound
    rfl
  · split at bound
    · cases bound
      rfl
    · cases bound

theorem bindClosure_quiet (code : FuncId) (c : ClosureRecord) :
    Quiet (register (·.bindClosure code c)) := by
  refine ⟨fun {s w w' a} ran => ?_⟩
  have here : registry s w = .ok w.registry w := rfl
  simp only [register, bind_apply, here] at ran
  cases bound : w.registry.bindClosure code c with
  | error e =>
    simp only [bound] at ran
    cases ran
  | ok r =>
    simp only [bound] at ran
    cases ran
    exact ⟨rfl, rfl, rfl, rfl, rfl, envs_bindClosure bound⟩

theorem envPlan_quiet (owner : DeclId) : Quiet (envPlan owner) := by
  refine .bind (asks_quiet _) fun d => ?_
  split
  · exact .bind (asks_quiet _) fun _ => .pure _
  · exact .pure _
  · exact .bind (declName_quiet _) fun _ => invalid_quiet _

theorem capturesOf_quiet (owner : DeclId) (site : Site) (plan : EnvPlan) :
    Quiet (capturesOf owner site plan) := by
  refine .bind (asks_quiet _) fun free => .bind program_quiet fun p => .bind .get fun w => ?_
  dsimp only
  split
  · exact .pure _
  · exact fail_quiet _

theorem paramSlot_quiet (d : DeclId) : Quiet (paramSlot d) :=
  .bind (asks_quiet _) fun _ => .bind (openInfoOf_quiet _) fun _ =>
    .bind (asks_quiet _) fun _ => .pure _

/-- A declaration that gets an environment gets it once; else nothing happens. -/
theorem of_bindDeclEnv_ok {s : Setup} {w w' : Work} {owner : DeclId} {id : EnvId} {a : Unit}
    (ran : register (·.bindDeclEnv owner id) s w = .ok a w') :
    ∃ declEnvs, w' = { w with registry := { w.registry with declEnvs } } := by
  have here : registry s w = .ok w.registry w := rfl
  simp only [register, bind_apply, here] at ran
  unfold Registry.bindDeclEnv at ran
  cases bound : w.registry.declEnv? owner with
  | none =>
    simp only [bound] at ran
    cases ran
    exact ⟨_, rfl⟩
  | some old =>
    simp only [bound] at ran
    by_cases same : old = id
    · rw [if_pos same] at ran
      cases ran
      exact ⟨_, rfl⟩
    · rw [if_neg same] at ran
      cases ran

/-- What a declaration can see was recorded. -/
theorem of_siteOf_ok {s : Setup} {w w' : Work} {d : DeclId} {site : Site}
    (ran : siteOf d s w = .ok site w') : w' = w ∧ w.siteOf s.program d = .ok site := by
  have here : (get : Compile Work) s w = .ok w w := rfl
  have asked : program s w = .ok s.program w := rfl
  simp only [siteOf, bind_apply, here, asked] at ran
  cases found : w.siteOf s.program d with
  | error e =>
    rw [found] at ran
    cases ran
  | ok site' =>
    rw [found] at ran
    cases ran
    exact ⟨rfl, rfl⟩

theorem of_envPlan_ok {s : Setup} {w w' : Work} {owner : DeclId} {plan : EnvPlan}
    (ran : envPlan owner s w = .ok plan w') : w' = w ∧ EnvPlan.For s.program owner plan := by
  obtain ⟨d, w₁, ran₁, ran⟩ := of_bind_ok ran
  obtain ⟨rfl, known⟩ := of_asks_ok ran₁
  cases kind : d.kind with
  | classDecl c =>
    simp only [kind] at ran
    obtain ⟨params, w₂, ran₂, ran⟩ := of_bind_ok ran
    obtain ⟨rfl, forwarded⟩ := of_asks_ok ran₂
    cases ran
    exact ⟨rfl, .constructor forwarded⟩
  | function f =>
    simp only [kind] at ran
    cases ran
    refine ⟨rfl, .function ?_⟩
    simp [Program.function, known, kind, Bind.bind, Except.bind, Pure.pure, Except.pure]
  | _ =>
    simp only [kind] at ran
    cases ran

theorem of_capturesOf_ok {s : Setup} {w w' : Work} {owner : DeclId} {site : Site} {plan : EnvPlan}
    {found : Gathered} (ran : capturesOf owner site plan s w = .ok found w') :
    w' = w ∧ ∃ free, s.program.freeNames plan.subject = .ok free ∧
      Survey.gather ⟨s.program, w, site, free⟩ owner (plan.receiverClass site) = .ok found := by
  obtain ⟨free, w₁, ran₁, ran⟩ := of_bind_ok ran
  obtain ⟨rfl, known⟩ := of_asks_ok ran₁
  obtain ⟨p, w₂, isProgram, ran⟩ := of_bind_ok ran
  cases isProgram
  obtain ⟨w₀, w₂, isWork, ran⟩ := of_bind_ok ran
  cases isWork
  cases gathered : Survey.gather ⟨s.program, w, site, free⟩ owner (plan.receiverClass site) with
  | ok found' =>
    simp only [gathered] at ran
    cases ran
    exact ⟨rfl, free, known, gathered⟩
  | error cause =>
    simp only [gathered] at ran
    cases ran

/-- The environment of a declaration, with what it is laid out from. -/
theorem of_layOut_ok {s : Setup} {w w' : Work} {owner : DeclId} {id : EnvId}
    (ran : layOut owner s w = .ok id w') :
    ∃ site plan found params w₁ w₂ e declEnvs, w.siteOf s.program owner = .ok site ∧
      EnvPlan.For s.program owner plan ∧ capturesOf owner site plan s w = .ok found w ∧
      plan.params.mapM paramSlot s w = .ok params w₁ ∧ Still w₁ w₂ ∧ w₂.registry = w₁.registry ∧
      e.slots = (addOuter (plan.ownSlots site params found) (site.around w₁.registry)).1 ∧
      w' = { w₂ with registry := { (w₂.registry.addEnv e).2 with declEnvs := declEnvs } } := by
  obtain ⟨site, w₁, ran₁, rest₁⟩ := of_bind_ok ran
  obtain ⟨rfl, isSite⟩ := of_siteOf_ok ran₁
  obtain ⟨plan, w₂, ran₂, rest₂⟩ := of_bind_ok rest₁
  obtain ⟨rfl, planned⟩ := of_envPlan_ok ran₂
  obtain ⟨found, w₃, ran₃, rest₃⟩ := of_bind_ok rest₂
  obtain ⟨rfl, -⟩ := of_capturesOf_ok ran₃
  obtain ⟨params, w₄, ran₄, rest₄⟩ := of_bind_ok rest₃
  obtain ⟨registry, w₅, ran₅, rest₅⟩ := of_bind_ok rest₄
  cases ran₅
  obtain ⟨program, w₅, ran₅, rest₆⟩ := of_bind_ok rest₅
  cases ran₅
  obtain ⟨record, w₅, ran₅, rest₇⟩ := of_bind_ok rest₆
  obtain ⟨env, w₆, ran₆, rest₈⟩ := of_bind_ok rest₇
  cases ran₆
  obtain ⟨_, w₇, ran₇, rest₉⟩ := of_bind_ok rest₈
  obtain ⟨declEnvs, rfl⟩ := of_bindDeclEnv_ok ran₇
  cases rest₉
  have fresh := ((freshRecord_ends (c := 'e') (by simp) (by decide) (by decide) _).of_ok ran₅).2.1
  exact ⟨site, plan, found, params, w₄, w₅, _, declEnvs, isSite, planned, ran₃, ran₄,
    (freshRecord_quiet _ _).still ran₅, fresh, rfl, rfl⟩

theorem environmentOf_beside {s : Setup} {w w' : Work} {owner : DeclId} {id : EnvId}
    (ran : environmentOf owner s w = .ok id w') : Beside w w' := by
  obtain ⟨r, w₁, ran₁, ran⟩ := of_bind_ok ran
  cases ran₁
  cases known : w.registry.declEnv? owner with
  | some id' =>
    simp only [known] at ran
    cases ran
    exact .mk _ (.refl w)
  | none =>
    simp only [known] at ran
    obtain ⟨_, plan, _, _, w₁, w₂, _, _, _, _, _, ran₁, still, _, _, rfl⟩ := of_layOut_ok ran
    exact .mk _ (((Quiet.mapM paramSlot_quiet _).still ran₁).trans still)

theorem syntheticEnv_beside {s : Setup} {w w' : Work} {params : Nat} {id : EnvId}
    (ran : syntheticEnv params s w = .ok id w') : Beside w w' := by
  obtain ⟨_, w₁, ran₁, ran⟩ := of_bind_ok ran
  cases ran₁
  cases known : w.syntheticEnvs.get? params with
  | some id' =>
    simp only [known] at ran
    cases ran
    exact .mk _ (.refl w)
  | none =>
    simp only [known] at ran
    obtain ⟨record, w₁, ran₁, ran⟩ := of_bind_ok ran
    obtain ⟨env, w₂, ran₂, ran⟩ := of_bind_ok ran
    cases ran₂
    cases ran
    have still := (types_quiet _).still ran₁
    have aside : Still w { w₁ with
        syntheticEnvs := w₁.syntheticEnvs.insert params
          (w₁.registry.addEnv (.synthesized params record)).1 } :=
      ⟨still.scope, still.sites, still.made, still.functions, still.compiled, still.envs⟩
    exact .mk _ aside

/-! ## Bodies -/

theorem returning_quiet (subject : Subject) (b : Bindings) : Quiet (returning subject b) := by
  cases subject with
  | implicitConstructor cls => exact .pure _
  | function d =>
    refine .bind (asks_quiet _) fun f => ?_
    split
    · exact .pure _
    · exact .pure _
    · exact .bind (.optionMapM (infoOf_quiet b) _) fun _ => .pure _

theorem ownerOf_quiet (subject : Subject) : Quiet (ownerOf subject) := by
  cases subject with
  | function d => exact .bind (asks_quiet _) fun _ => .pure _
  | implicitConstructor cls => exact .pure _

theorem memberOwnerOf_quiet (subject : Subject) (site : Site) :
    Quiet (memberOwnerOf subject site) := by
  cases subject with
  | function d => exact .bind (asks_quiet _) fun _ => .pure _
  | implicitConstructor cls => exact .pure _

theorem symbolOf_quiet (key : FunctionKey) : Quiet (symbolOf key) := by
  refine .bind program_quiet fun p => .bind (ownerOf_quiet _) fun owner => ?_
  split
  · exact .ite (.pure _) (.bind (declName_quiet _) fun _ => .pure _)
  · exact .pure _

/-! ## Tables -/

theorem tableEntry_mild (root : DeclId) (n : Name) (m : DeclId) : Mild (tableEntry root n m) := by
  refine .bind (asks_quiet _).mild fun f => .bind (resolve_quiet _ _ _).mild fun resolution => ?_
  split
  · exact .bind (externalFunction_mild _ _) fun _ => (Quiet.pure _).mild
  · exact .bind (declName_quiet _).mild fun _ => .bind (text_quiet _).mild fun _ =>
      .bind (declareCompiled_mild _ _) fun _ => (Quiet.pure _).mild

theorem addTable_quiet (t : MethodTable) : Quiet (addTable t) :=
    .modify fun _ => ⟨rfl, rfl, rfl, rfl, rfl, rfl⟩

theorem checkOverride_quiet (t : MethodTable) (cls m : DeclId) : Quiet (checkOverride t cls m) := by
  refine .bind (asks_quiet _) fun d => ?_
  split
  · exact .bind (.mapM (fun _ => text_quiet _) _) fun _ => .bind (declName_quiet _) fun _ =>
      .bind (text_quiet _) fun _ => fail_quiet _
  · exact .pure _

end Compile

/-! ## Questions about members -/

namespace Emit

open Compile

theorem widensTo_quiet (a b : Info) : Quiet (widensTo a b) := by
  unfold widensTo
  split
  · exact .bind (asks_quiet _) fun _ => .pure _
  all_goals exact .pure _

theorem optionalShape?_quiet (i : Info) : Quiet (optionalShape? i) := by
  unfold optionalShape?
  split
  · exact .bind (unionShape_quiet _) fun _ => .pure _
  · exact .pure _

theorem findMember_quiet (chain : List DeclId) (n : Name) (kind : FunctionKind) :
    Quiet (findMember chain n kind) := asks_quiet _

theorem setter?_quiet (info : Info) (n : Name) : Quiet (setter? info n) := by
  unfold setter?
  split
  · exact .bind (asks_quiet _) fun _ => .bind (findMember_quiet _ _ _) fun _ => .pure _
  · exact .pure _

theorem findStatic_quiet (n : Name) (chain : List DeclId) : Quiet (findStatic n chain) := by
  induction chain with
  | nil => exact .pure _
  | cons c rest ih =>
    refine .bind (asks_quiet _) fun found => ?_
    cases found with
    | some prop => exact .pure _
    | none => exact ih

theorem findStaticMethod_quiet (n : Name) (chain : List DeclId) :
    Quiet (findStaticMethod n chain) :=
  .bind program_quiet fun _ => .bind (findMember_quiet _ _ _) fun _ => .pure _

theorem constructorSubject_quiet (cls : DeclId) : Quiet (constructorSubject cls) := by
  refine .bind (asks_quiet _) fun ctor => ?_
  cases ctor with
  | some ctor => exact .pure _
  | none => exact .bind (asks_quiet _) fun _ => .ite (.pure _) (.pure _)

theorem externalConstructor?_quiet (subject : Subject) (cls : DeclId) (args : List Operand) :
    Quiet (externalConstructor? subject cls args) := by
  cases subject with
  | function ctor => exact .bind (resolve_quiet _ _ _) fun _ => .pure _
  | implicitConstructor cls => exact .pure _

end Emit

end ShapeCompiler
