import ShapeCompiler.Proofs.Steps

/-!
# Where a compilation goes

* `Failure.Justified`: what holds of every failure, of its cause and of its place;
* `Compile.Ends`: from a state, a part of the compiler goes on by steps that leave the functions
  alone that were there, and what it gives has a property;
* `Compile.Walks` and `Emit.Walks`: it does so from every moment, whatever it gives.

The rules follow the ways in which parts are put together.
-/

namespace ShapeCompiler

open Source Code Work

/-- Functions that were there are unchanged. -/
def Code.Module.Keeps (m m' : Module) : Prop :=
  ∀ f fn, m.function? f = some fn → m'.function? f = some fn

/-- What a property of a class was found to hold at some moment, while the interfaces `busy` were
being lowered. -/
structure PropertyFound (s : Setup) (w : Work) (busy : List DeclId) (prop : Name × DeclId × Info) :
    Prop where
  name : ∃ d, s.program.decl prop.2.1 = .ok d ∧ prop.1 = d.name
  info : ∃ depth w₀ w₁, Moment s w₀ ∧ w₀.interfacesInProgress = busy ∧
    Compile.propertyInfoBy (Compile.infoAt depth) prop.2.1 s w₀ = .ok prop.2.2 w₁ ∧ Later s w₁ w

/-- The layout was made while the interfaces `busy` were being lowered. -/
def ClassLayout.MadeAmid (s : Setup) (w : Work) (busy : List DeclId) (layout : ClassLayout) :
    Prop :=
  ∀ prop ∈ layout.props, PropertyFound s w busy prop

/-- What is known of a result before the body is compiled: what is declared of it, or that there is
none. -/
def Returning.declared? : Returning → Option Info
  | .entry | .discard => some .void
  | .value declared _ => declared

theorem Returning.info_of_declared {r : Returning} {i : Info} (h : r.declared? = some i)
    (fallback : Info) : r.info fallback = i := by
  cases r with
  | value declared inferred =>
    obtain rfl : declared = some i := h
    rfl
  | _ =>
    cases h
    rfl

/-- Where the result of a body is declared, this is what is recorded of it. -/
def ResultFound (s : Setup) (w : Work) (busy : List DeclId) (key : FunctionKey)
    (c : CompiledFunction) : Prop :=
  ∃ b ret w₀ w₁, Moment s w₀ ∧ w₀.interfacesInProgress = busy ∧
    Compile.returning key.subject b s w₀ = .ok ret w₁ ∧ Later s w₁ w ∧
    ∀ i, ret.declared? = some i → c.ret = i

/-- What the body gives is only known once it is compiled. -/
def Source.Program.ResultOpen (p : Program) (subject : Subject) : Prop :=
  ∃ d f, subject = .function d ∧ p.function d = .ok f ∧ f.ret = none ∧ f.kind ≠ .constructor ∧
    f.kind ≠ .setter

/-- What is recorded of a closure is what is recorded of its body; but the result may have been
taken for anything as long as it was not known. -/
structure ClosureRecord.Of (s : Setup) (rec : ClosureRecord) (key : FunctionKey)
    (c : CompiledFunction) : Prop where
  env : rec.env = c.env
  params : rec.params = c.params
  ret : rec.ret = c.ret ∨ rec.ret = .any ∧ s.program.ResultOpen key.subject

/-- Each recorded body has a function of its own, and what is recorded of closures is what is
recorded of their bodies. -/
structure Work.Registered (s : Setup) (w : Work) : Prop where
  declared : ∀ key c, w.functions.get? key = some c → (w.code.function? c.func).isSome
  apart : ∀ key key' c c', w.functions.get? key = some c → w.functions.get? key' = some c' →
    c'.func = c.func → key' = key
  closures : ∀ f rec, w.registry.closure? f = some rec →
    ∃ key c, w.functions.get? key = some c ∧ c.func = f ∧ rec.Of s key c

theorem Work.start_registered (s : Setup) : Work.start.Registered s where
  declared _ _ := by rintro ⟨⟩
  apart _ _ _ _ := by rintro ⟨⟩
  closures _ _ := by rintro ⟨⟩

namespace Work.Registered

variable {s : Setup} {w w' : Work}

/-- The bodies and the closures that are recorded stay. -/
theorem of_same (h : w.Registered s) (keeps : w.code.Keeps w'.code)
    (functions : w'.functions = w.functions) (closures : w'.registry.closures = w.registry.closures)
    :
    w'.Registered s where
  declared key c known := by
    obtain ⟨fn, there⟩ := Option.isSome_iff_exists.mp (h.declared key c (functions ▸ known))
    simp [keeps _ _ there]
  apart := functions ▸ h.apart
  closures f rec known := by
    rw [Registry.closure?, closures] at known
    rw [functions]
    exact h.closures f rec known

/-- A body of a new key is recorded, with a function of its own. -/
theorem insert_new {key : FunctionKey} {c : CompiledFunction} (h : w.Registered s)
    (absent : w.functions.get? key = none) (declared : (w.code.function? c.func).isSome)
    (new : ∀ key' c', w.functions.get? key' = some c' → c'.func ≠ c.func) :
    ({ w with functions := w.functions.insert key c } : Work).Registered s := by
  have get (k : FunctionKey) : (w.functions.insert key c).get? k =
      if k = key then some c else w.functions.get? k := by
    by_cases same : k = key
    · subst same
      simp [Table.get?_insert_self]
    · simp [same, Table.get?_insert_ne _ _ (Ne.symm same)]
  refine ⟨Table.forall_insert h.declared declared, ?_, ?_⟩
  · intro key₁ key₂ c₁ c₂ known₁ known₂ same
    rw [get] at known₁ known₂
    split at known₁
    · split at known₂
      · simp_all
      · cases known₁
        exact absurd same (new _ _ known₂)
    · split at known₂
      · cases known₂
        exact absurd same.symm (new _ _ known₁)
      · exact h.apart _ _ _ _ known₁ known₂ same
  · intro f rec known
    obtain ⟨key', c', there, isFunc, agrees⟩ := h.closures f rec known
    have apart : key ≠ key' := by
      rintro rfl
      rw [absent] at there
      cases there
    exact ⟨key', c', by rwa [Table.get?_insert_ne _ _ apart], isFunc, agrees⟩

/-- A body is recorded once more, with its result. -/
theorem insert_again {key : FunctionKey} {c c₀ : CompiledFunction} (h : w.Registered s)
    (known : w.functions.get? key = some c₀) (func : c.func = c₀.func) (env : c.env = c₀.env)
    (params : c.params = c₀.params)
    (ret : c.ret = c₀.ret ∨ c₀.ret = .any ∧ s.program.ResultOpen key.subject) :
    ({ w with functions := w.functions.insert key c } : Work).Registered s := by
  have before {k : FunctionKey} {c' : CompiledFunction}
      (there : (w.functions.insert key c).get? k = some c') :
      ∃ c₁, w.functions.get? k = some c₁ ∧ c₁.func = c'.func := by
    by_cases same : key = k
    · subst same
      rw [Table.get?_insert_self] at there
      cases there
      exact ⟨c₀, known, func.symm⟩
    · rw [Table.get?_insert_ne _ _ same] at there
      exact ⟨c', there, rfl⟩
  refine ⟨?_, ?_, ?_⟩
  · intro k c' there
    obtain ⟨c₁, there₁, same⟩ := before there
    exact same ▸ h.declared k c₁ there₁
  · intro k k' c₁ c₂ there₁ there₂ same
    obtain ⟨d₁, before₁, same₁⟩ := before there₁
    obtain ⟨d₂, before₂, same₂⟩ := before there₂
    exact h.apart _ _ _ _ before₁ before₂ (same₂.trans (same.trans same₁.symm))
  · intro f rec bound
    obtain ⟨k, c', there, isFunc, agrees⟩ := h.closures f rec bound
    by_cases same : key = k
    · subst same
      obtain rfl : c₀ = c' := Option.some.inj (known.symm.trans there)
      refine ⟨key, c, Table.get?_insert_self _ _ _, func.trans isFunc, agrees.env.trans env.symm,
        agrees.params.trans params.symm, ?_⟩
      rcases agrees.ret with isRet | taken
      · rcases ret with same | opened
        · exact .inl (isRet.trans same.symm)
        · exact .inr ⟨isRet.trans opened.1, opened.2⟩
      · exact .inr taken
    · exact ⟨k, c', by rwa [Table.get?_insert_ne _ _ same], isFunc, agrees⟩

/-- A function gets a body. -/
theorem define (h : w.Registered s) (f : FuncId) (body : Code.Body) :
    ({ w with code := w.code.define f body } : Work).Registered s := by
  refine ⟨fun key c known => ?_, h.apart, h.closures⟩
  obtain ⟨fn, there⟩ := Option.isSome_iff_exists.mp (h.declared key c known)
  simp only [Module.function?] at there
  simp only [Module.define, Module.function?, Array.getElem?_modify, there]
  split <;> rfl

/-- A closure of a recorded body is recorded. -/
theorem bindClosure {key : FunctionKey} {c : CompiledFunction} {rec : ClosureRecord}
    (h : w.Registered s) (known : w.functions.get? key = some c) (agrees : rec.Of s key c) :
    ({ w with registry := { w.registry with
        closures := w.registry.closures.insert c.func rec } } : Work).Registered s :=
  ⟨h.declared, h.apart, Table.forall_insert h.closures ⟨key, c, known, rfl, agrees⟩⟩

end Work.Registered

theorem PropertyFound.later {s : Setup} {w w' : Work} {busy : List DeclId}
    {prop : Name × DeclId × Info} (h : PropertyFound s w busy prop) (later : Later s w w') :
    PropertyFound s w' busy prop := by
  obtain ⟨name, depth, w₀, w₁, moment, isBusy, ran, before⟩ := h
  exact ⟨name, depth, w₀, w₁, moment, isBusy, ran, before.trans later⟩

theorem ClassLayout.MadeAmid.later {s : Setup} {w w' : Work} {busy : List DeclId}
    {layout : ClassLayout} (h : layout.MadeAmid s w busy) (later : Later s w w') :
    layout.MadeAmid s w' busy := fun prop inside => (h prop inside).later later

theorem ResultFound.later {s : Setup} {w w' : Work} {busy : List DeclId} {key : FunctionKey}
    {c : CompiledFunction} (h : ResultFound s w busy key c) (later : Later s w w') :
    ResultFound s w' busy key c := by
  obtain ⟨b, ret, w₀, w₁, moment, isBusy, ran, before, declared⟩ := h
  exact ⟨b, ret, w₀, w₁, moment, isBusy, ran, before.trans later, declared⟩

/-- The second state comes from the first by steps that change no function, no layout and no
recorded body that was there, and no interface is left half lowered. Of what came since, layouts
hold what their properties were found to hold, bodies give what is declared, and closures are
recorded as their bodies are. -/
structure Work.Reaches (s : Setup) (w w' : Work) : Prop where
  later : Later s w w'
  keeps : w.code.Keeps w'.code
  interfaces : w'.interfacesInProgress = w.interfacesInProgress
  layouts : ∀ cls layout, w.layouts.get? cls = some layout → w'.layouts.get? cls = some layout
  made : ∀ cls layout, w'.layouts.get? cls = some layout →
    w.layouts.get? cls = some layout ∨ ∃ busy, layout.MadeAmid s w' busy
  results : ∀ key c, w'.functions.get? key = some c →
    w.functions.get? key = some c ∨ ResultFound s w' w.interfacesInProgress key c
  functions : ∀ key c, w.functions.get? key = some c → w'.functions.get? key = some c
  registered : w.Registered s → w'.Registered s

/-- The bodies and the tables that are recorded. -/
def Work.recorded (w : Work) : Table FunctionKey CompiledFunction × Table DeclId MethodTable :=
  (w.functions, w.tables)

/-- A step beside functions, layouts, bodies and closures, and outside of interfaces. -/
structure Work.Aside (w w' : Work) : Prop where
  functions : w'.code.functions = w.code.functions
  interfaces : w'.interfacesInProgress = w.interfacesInProgress
  layouts : w'.layouts = w.layouts
  bodies : w'.functions = w.functions
  closures : w'.registry.closures = w.registry.closures

/-- The body is recorded. -/
def Work.Made (w : Work) (c : CompiledFunction) : Prop := ∃ key, w.functions.get? key = some c

namespace Work.Reaches

variable {s : Setup} {w w' w'' : Work}

theorem refl (w : Work) : Reaches s w w :=
  ⟨.same, fun _ _ h => h, rfl, fun _ _ h => h, fun _ _ h => .inl h, fun _ _ h => .inl h,
    fun _ _ h => h, id⟩

theorem trans (h : Reaches s w w') (h' : Reaches s w' w'') : Reaches s w w'' where
  later := h.later.trans h'.later
  keeps f fn known := h'.keeps f fn (h.keeps f fn known)
  interfaces := h'.interfaces.trans h.interfaces
  layouts cls layout known := h'.layouts cls layout (h.layouts cls layout known)
  made cls layout known := by
    rcases h'.made cls layout known with old | new
    · exact (h.made cls layout old).imp_right (Exists.imp fun _ made => made.later h'.later)
    · exact .inr new
  results key c known := by
    rcases h'.results key c known with old | new
    · exact (h.results key c old).imp_right fun found => found.later h'.later
    · exact .inr (h.interfaces ▸ new)
  functions key c known := h'.functions key c (h.functions key c known)
  registered start := h'.registered (h.registered start)

/-- What is recorded of a body stays. -/
theorem made_stays {c : CompiledFunction} (h : Reaches s w w') (made : w.Made c) : w'.Made c := by
  obtain ⟨key, known⟩ := made
  exact ⟨key, h.functions key c known⟩

/-- What is not there was not there before. -/
theorem not_there {f : FuncId} (h : Reaches s w w') (new : w'.code.function? f = none) :
    w.code.function? f = none := by
  cases known : w.code.function? f with
  | none => rfl
  | some fn => simp [h.keeps f fn known] at new

/-- A change of the module that keeps its functions. -/
theorem of_code {code : Module} (later : Later s w { w with code }) (keeps : w.code.Keeps code) :
    Reaches s w { w with code } :=
  ⟨later, keeps, rfl, fun _ _ h => h, fun _ _ h => .inl h, fun _ _ h => .inl h, fun _ _ h => h,
    fun start => start.of_same keeps rfl rfl⟩

/-- A step beside what is kept. -/
theorem of_step (h : Step s w w') (aside : w.Aside w') : Reaches s w w' where
  later := h.later
  keeps f fn known := by simpa [Module.function?, aside.functions] using known
  interfaces := aside.interfaces
  layouts cls layout known := by rwa [aside.layouts]
  made cls layout known := .inl (aside.layouts ▸ known)
  results key c known := .inl (aside.bodies ▸ known)
  functions key c known := by rwa [aside.bodies]
  registered start := start.of_same (fun f fn known => by
    simpa [Module.function?, aside.functions] using known) aside.bodies aside.closures

/-- A closure of a recorded body is recorded. -/
theorem bindClosure {key : FunctionKey} {c : CompiledFunction} {rec : ClosureRecord}
    (known : w.functions.get? key = some c) (agrees : rec.Of s key c)
    (new : w.registry.closure? c.func = none) :
    Reaches s w { w with registry :=
      { w.registry with closures := w.registry.closures.insert c.func rec } } :=
  ⟨(Step.bindClosure rec new).later, fun _ _ h => h, rfl, fun _ _ h => h, fun _ _ h => .inl h,
    fun _ _ h => .inl h, fun _ _ h => h, fun start => start.bindClosure known agrees⟩

/-- An interface is marked, and after parts that record no body the mark is taken away. -/
theorem unmark {d : DeclId} (outside : d ∉ w.interfacesInProgress)
    (h : Reaches s { w with interfacesInProgress := d :: w.interfacesInProgress } w')
    (bodies : w'.functions = w.functions) :
    Reaches s w { w' with interfacesInProgress := w'.interfacesInProgress.filter (· ≠ d) } := by
  have last : Later s w'
      { w' with interfacesInProgress := w'.interfacesInProgress.filter (· ≠ d) } :=
    (Step.inProgress _).later
  refine ⟨((Step.inProgress _).later.trans h.later).trans last, h.keeps, ?_, h.layouts, ?_, ?_,
    h.functions, fun start => ?_⟩
  · rw [h.interfaces, List.filter_cons_of_neg (by simp)]
    exact List.filter_eq_self.mpr fun x inside =>
      decide_eq_true (ne_of_mem_of_not_mem inside outside)
  · intro cls layout known
    exact (h.made cls layout known).imp_right (Exists.imp fun _ made => made.later last)
  · intro key c known
    exact .inl (bodies ▸ known)
  · have marked : ({ w with interfacesInProgress := d :: w.interfacesInProgress } :
        Work).Registered s :=
      start.of_same (fun _ _ there => there) rfl rfl
    exact (h.registered marked).of_same (fun _ _ there => there) rfl rfl

/-- A body that was not there at the start is recorded with the result that is declared. -/
theorem function {key : FunctionKey} {c : CompiledFunction} (h : Reaches s w w')
    (new : w.functions.get? key = none)
    (env : w'.registry.declEnv? key.subject.decl = some c.env) (params : c.params = key.params)
    (func : ∀ c₀, w'.functions.get? key = some c₀ → c₀.func = c.func)
    (found : ResultFound s w' w.interfacesInProgress key c)
    (registered : w.Registered s →
      ({ w' with functions := w'.functions.insert key c } : Work).Registered s) :
    Reaches s w { w' with functions := w'.functions.insert key c } := by
  have last : Later s w' { w' with functions := w'.functions.insert key c } :=
    (Step.function env params func).later
  refine ⟨h.later.trans last, h.keeps, h.interfaces, h.layouts, ?_, ?_, ?_, registered⟩
  · intro cls layout known
    exact (h.made cls layout known).imp_right (Exists.imp fun _ made => made.later last)
  · refine Table.forall_insert (fun key' c' known => ?_) (.inr (found.later last))
    exact (h.results key' c' known).imp_right fun found => found.later last
  · intro key' c' known
    have apart : key ≠ key' := by
      rintro rfl
      simp [new] at known
    simpa [Table.get?_insert_ne _ _ apart] using h.functions key' c' known

/-- A layout that was not there at the start is recorded. -/
theorem layout {cls : DeclId} {layout : ClassLayout} {busy : List DeclId} (h : Reaches s w w')
    (new : w.layouts.get? cls = none) (arranged : Arranged s w' cls layout)
    (isMade : layout.MadeAmid s w' busy) :
    Reaches s w { w' with layouts := w'.layouts.insert cls layout } := by
  have last : Later s w' { w' with layouts := w'.layouts.insert cls layout } :=
    (Step.layout arranged).later
  refine ⟨h.later.trans last, h.keeps, h.interfaces, ?_, ?_, ?_, h.functions, fun start =>
    (h.registered start).of_same (fun _ _ there => there) rfl rfl⟩
  · intro cls' layout' known
    have apart : cls ≠ cls' := by
      rintro rfl
      simp [new] at known
    simpa [Table.get?_insert_ne _ _ apart] using h.layouts cls' layout' known
  · refine Table.forall_insert (fun cls' layout' known => ?_) (.inr ⟨busy, isMade.later last⟩)
    exact (h.made cls' layout' known).imp_right (Exists.imp fun _ made => made.later last)
  · intro key c known
    exact (h.results key c known).imp_right fun found => found.later last

end Work.Reaches

/-! ## Failures -/

/-- At some moment an expression or a statement of the program fails of itself, for this reason and
in this place: nothing inside it has given the failure a place before. -/
inductive Setup.FailsAt (s : Setup) (cause : Cause) : Span → Prop
  | expr (id : ExprId) {depth : Nat} {f : Frame} {w w' : Work} (moment : Moment s w)
    (fails : Emit.exprKind (.ofDepth depth) (s.program.expr id).kind f s w =
    .error (.bare cause) w') :
    FailsAt s cause (s.program.expr id).span
  | stmt (id : StmtId) {depth : Nat} {f : Frame} {w w' : Work} (moment : Moment s w)
    (fails : Emit.stmtKind (.ofDepth depth) (s.program.stmt id).kind f s w =
    .error (.bare cause) w') :
    FailsAt s cause (s.program.stmt id).span

/-- A failure has a justified cause, and if it has a place, then what is there fails of itself. -/
structure Failure.Justified (s : Setup) (e : Failure) : Prop where
  cause : e.cause.Justified s.program
  place : e.span.isDummy ∨ s.FailsAt e.cause e.span

theorem Failure.Justified.bare {s : Setup} {cause : Cause} (h : cause.Justified s.program) :
    (Failure.bare cause).Justified s := ⟨h, .inl rfl⟩

/-! ## Parts without a frame -/

namespace Compile

variable {s : Setup} {w : Work} {α β : Type}

theorem bind_apply (m : Compile α) (f : α → Compile β) (s : Setup) (w : Work) :
    (m >>= f) s w = match m s w with
      | .ok a w' => f a s w'
      | .error e w' => .error e w' := by
  change EStateM.bind (m s) (fun a => f a s) w = _
  cases ran : m s w <;> simp [EStateM.bind, ran]

theorem bind_of_ok {m : Compile α} {f : α → Compile β} {a : α} {w' : Work}
    (ran : m s w = .ok a w') : (m >>= f) s w = f a s w' := by
  rw [bind_apply, ran]

/-- A part in two that succeeds. -/
theorem of_bind_ok {m : Compile α} {f : α → Compile β} {b : β} {w' : Work}
    (ran : (m >>= f) s w = .ok b w') : ∃ a w₁, m s w = .ok a w₁ ∧ f a s w₁ = .ok b w' := by
  rw [bind_apply] at ran
  cases ran₁ : m s w with
  | error e w₁ => simp [ran₁] at ran
  | ok a w₁ =>
    rw [ran₁] at ran
    exact ⟨a, w₁, rfl, ran⟩

theorem tryCatch_apply (m : Compile α) (handle : Failure → Compile α) (s : Setup) (w : Work) :
    tryCatch m handle s w = match m s w with
      | .ok a w' => .ok a w'
      | .error e w' => handle e s w' := by
  change EStateM.tryCatch (m s) (fun e => handle e s) w = _
  cases ran : m s w with
  | ok a w' => simp [EStateM.tryCatch, ran]
  | error e w' =>
    simp only [EStateM.tryCatch, ran]
    rfl

theorem env_apply (id : EnvId) (s : Setup) (w : Work) :
    env id s w = match w.registry.env? id with
      | some e => .ok e w
      | none => .error (.bare (.invalid (.unknownEnvironment id))) w := by
  have here : registry s w = .ok w.registry w := rfl
  simp only [env, bind_apply, here]
  cases w.registry.env? id <;> rfl

/-- The part goes on by steps, and what it gives has the property; if it fails, it does so with
reason. -/
def Ends (s : Setup) (w : Work) (m : Compile α) (Q : α → Work → Prop) : Prop :=
  match m s w with
  | .ok a w' => Reaches s w w' ∧ Q a w'
  | .error e w' => Reaches s w w' ∧ e.Justified s

namespace Ends

variable {m : Compile α} {Q R : α → Work → Prop}

theorem of_ok {a : α} {w' : Work} (h : Ends s w m Q) (ran : m s w = .ok a w') :
    Reaches s w w' ∧ Q a w' := by
  simpa [Ends, ran] using h

theorem of_error {e : Failure} {w' : Work} (h : Ends s w m Q) (ran : m s w = .error e w') :
    Reaches s w w' ∧ e.Justified s := by
  simpa [Ends, ran] using h

theorem pure {a : α} (h : Q a w) : Ends s w (pure a) Q := ⟨.refl w, h⟩

theorem throw {cause : Cause} (h : cause.Justified s.program) :
    Ends s w (throw (.bare cause) : Compile α) Q :=
  ⟨.refl w, .bare h⟩

theorem mono (h : Ends s w m Q) (weaker : ∀ a w', Reaches s w w' → Q a w' → R a w') :
    Ends s w m R := by
  unfold Ends at h ⊢
  split at h
  · exact ⟨h.1, weaker _ _ h.1 h.2⟩
  · exact h

/-- What it gives is what the part gives from this state. -/
theorem ran (h : Ends s w m Q) : Ends s w m fun a w' => m s w = .ok a w' ∧ Q a w' := by
  unfold Ends at h ⊢
  split at h
  · rename_i a w' result
    exact ⟨h.1, result, h.2⟩
  · exact h

theorem bind {f : α → Compile β} {R : β → Work → Prop}
    (first : Ends s w m Q)
    (rest : ∀ a w', Reaches s w w' → Q a w' → Ends s w' (f a) R) : Ends s w (m >>= f) R := by
  unfold Ends at first ⊢
  rw [bind_apply]
  cases ran : m s w with
  | error e w' => simpa [ran] using first
  | ok a w' =>
    simp only [ran] at first ⊢
    have last := rest a w' first.1 first.2
    cases done : f a s w' with
    | ok b w'' => exact ⟨first.1.trans (last.of_ok done).1, (last.of_ok done).2⟩
    | error e w'' => exact ⟨first.1.trans (last.of_error done).1, (last.of_error done).2⟩

theorem get_bind {f : Work → Compile α} (h : Ends s w (f w) Q) :
    Ends s w (get >>= f) Q := h

theorem read_bind {f : Setup → Compile α} (h : Ends s w (f s) Q) :
    Ends s w (read >>= f) Q := h

theorem program_bind {f : Program → Compile α} (h : Ends s w (f s.program) Q) :
    Ends s w (program >>= f) Q := h

theorem registry_bind {f : Registry → Compile α} (h : Ends s w (f w.registry) Q) :
    Ends s w (registry >>= f) Q := h

theorem modify {f : Work → Work} {Q : PUnit → Work → Prop} (step : Step s w (f w))
    (aside : w.Aside (f w)) (h : Q ⟨⟩ (f w)) :
    Ends s w (modify f : Compile PUnit) Q :=
  ⟨.of_step step aside, h⟩

theorem modify_bind {f : Work → Work} {k : PUnit → Compile α} (step : Step s w (f w))
    (aside : w.Aside (f w)) (h : Ends s (f w) (k ⟨⟩) Q) :
    Ends s w ((MonadState.modifyGet fun w => (⟨⟩, f w) : Compile PUnit) >>= k) Q :=
  (modify (Q := fun _ w' => w' = f w) step aside rfl).bind fun _ _ _ rest => by
    subst rest
    exact h

theorem modifyGet {f : Work → α × Work} (step : Step s w (f w).2)
    (aside : w.Aside (f w).2) (h : Q (f w).1 (f w).2) :
    Ends s w (modifyGet f : Compile α) Q :=
  ⟨.of_step step aside, h⟩

end Ends

/-- The part goes on by steps from `w`, and all steps since `base` leave the functions alone that
were there then. -/
def Since (s : Setup) (base w : Work) (m : Compile α) (Q : α → Work → Prop) : Prop :=
  match m s w with
  | .ok a w' => Reaches s base w' ∧ Q a w'
  | .error e w' => Reaches s base w' ∧ e.Justified s

theorem Ends.since {base : Work} {m : Compile α} {Q : α → Work → Prop}
    (there : Reaches s base w) (h : Ends s w m Q) : Since s base w m Q := by
  cases ran : m s w with
  | ok a w' =>
    simp only [Since, ran]
    exact ⟨there.trans (h.of_ok ran).1, (h.of_ok ran).2⟩
  | error e w' =>
    simp only [Since, ran]
    exact ⟨there.trans (h.of_error ran).1, (h.of_error ran).2⟩

namespace Since

variable {base : Work} {m : Compile α} {Q : α → Work → Prop}

theorem ends (h : Since s w w m Q) : Ends s w m Q := h

theorem mono {R : α → Work → Prop} (h : Since s base w m Q)
    (weaker : ∀ a w', Reaches s base w' → Q a w' → R a w') : Since s base w m R := by
  unfold Since at h ⊢
  split at h
  · exact ⟨h.1, weaker _ _ h.1 h.2⟩
  · exact h

theorem bind {f : α → Compile β} {R : β → Work → Prop} (first : Since s base w m Q)
    (rest : ∀ a w', Reaches s base w' → Q a w' → Since s base w' (f a) R) :
    Since s base w (m >>= f) R := by
  unfold Since at first ⊢
  rw [bind_apply]
  cases ran : m s w with
  | error e w' => simpa [ran] using first
  | ok a w' =>
    simp only [ran] at first ⊢
    exact rest a w' first.1 first.2

/-- Goes on after a part that leaves all functions alone. -/
theorem after {f : α → Compile β} {R : β → Work → Prop} (first : Ends s w m Q)
    (there : Reaches s base w)
    (rest : ∀ a w', Reaches s w w' → Q a w' → Since s base w' (f a) R) :
    Since s base w (m >>= f) R :=
  ((first.mono (R := fun a w' => Reaches s w w' ∧ Q a w') fun _ _ since here =>
    ⟨since, here⟩).since there).bind fun a w' _ here => rest a w' here.1 here.2

theorem env_bind {id : EnvId} {f : Environment → Compile α} (there : Reaches s base w)
    (h : ∀ e, w.registry.env? id = some e → Since s base w (f e) Q) :
    Since s base w (env id >>= f) Q := by
  unfold Since
  rw [bind_apply, env_apply]
  cases known : w.registry.env? id with
  | some e => exact h e known
  | none => exact ⟨there, .bare trivial⟩

/-- A function that was not there at the base gets its body. -/
theorem define {f : FuncId} {fn : Function} (body : Code.Body) {Q : PUnit → Work → Prop}
    (there : Reaches s base w) (new : base.code.function? f = none)
    (known : w.code.function? f = some fn) (absent : fn.body = none)
    (h : ∀ w', Later s w w' → w'.registry = w.registry ∧ w'.functions = w.functions →
      w'.code.function? f = some { fn with body := some body } →
      (∀ f' fn', f' ≠ f → w.code.function? f' = some fn' → w'.code.function? f' = some fn') →
      Q ⟨⟩ w') : Since s base w (Compile.define f body) Q := by
  have step : Step s w { w with code := w.code.define f body } := by
    refine .define f body (.inl fun other here => ?_)
    rw [known] at here
    cases here
    exact absent
  have others (f' : FuncId) (fn' : Function) (apart : f' ≠ f)
      (there' : w.code.function? f' = some fn') :
      (w.code.define f body).function? f' = some fn' := by
    have rawApart : f.raw ≠ f'.raw := by
      intro same
      exact apart (by cases f; cases f'; simpa using same.symm)
    simpa [Module.define, Module.function?, Array.getElem?_modify, rawApart] using there'
  have defined : (w.code.define f body).function? f = some { fn with body := some body } := by
    simp only [Module.function?] at known
    simp [Module.define, Module.function?, Array.getElem?_modify, known]
  refine ⟨⟨there.later.trans step.later, ?_, there.interfaces, there.layouts, ?_, ?_,
    there.functions, fun start => (there.registered start).define f body⟩,
    h _ step.later ⟨rfl, rfl⟩ defined others⟩
  · intro f' fn' old
    refine others f' fn' ?_ (there.keeps f' fn' old)
    rintro rfl
    simp [new] at old
  · intro cls layout known
    exact (there.made cls layout known).imp_right (Exists.imp fun _ made => made.later step.later)
  · intro key c known
    exact (there.results key c known).imp_right fun found => found.later step.later

theorem define_bind {f : FuncId} {fn : Function} {body : Code.Body} {k : PUnit → Compile α}
    (there : Reaches s base w) (new : base.code.function? f = none)
    (known : w.code.function? f = some fn) (absent : fn.body = none)
    (rest : ∀ w', Reaches s base w' → Later s w w' → w'.functions = w.functions →
      w'.code.function? f = some { fn with body := some body } → Since s base w' (k ⟨⟩) Q) :
    Since s base w (Compile.define f body >>= k) Q :=
  (define (Q := fun _ w' => Later s w w' ∧ w'.functions = w.functions ∧
    w'.code.function? f = some { fn with body := some body })
    body there new known absent fun _ later same defined _ => ⟨later, same.2, defined⟩).bind
    fun _ w' there' here => rest w' there' here.1 here.2.1 here.2.2

end Since

/-- From every moment the part goes on by steps. -/
structure Walks (s : Setup) (m : Compile α) : Prop where
  ends : ∀ {w}, Moment s w → Ends s w m fun _ _ => True

namespace Walks

variable {m : Compile α}

theorem pure (a : α) : Walks s (Pure.pure a) :=
  ⟨fun _ => Ends.pure trivial⟩

theorem throw {cause : Cause} (h : cause.Justified s.program) :
    Walks s (MonadExcept.throw (.bare cause) : Compile α) := ⟨fun _ => .throw h⟩

theorem get : Walks s (MonadState.get : Compile Work) := 
  ⟨fun {w} _ => ⟨.refl w, trivial⟩⟩

theorem read : Walks s (MonadReader.read : Compile Setup) := 
  ⟨fun {w} _ => ⟨.refl w, trivial⟩⟩

theorem bind {f : α → Compile β} (first : Walks s m) (rest : ∀ a, Walks s (f a)) :
    Walks s (m >>= f) :=
  ⟨fun moment => (first.ends moment).bind fun a _ there _ =>
    (rest a).ends (moment.later there.later)⟩

theorem mapM {f : α → Compile β} (each : ∀ a, Walks s (f a)) (as : List α) :
    Walks s (as.mapM f) := by
  induction as with
  | nil => exact pure _
  | cons a as ih =>
    rw [List.mapM_cons]
    exact bind (each a) fun _ => bind ih fun _ => pure _

theorem ite {c : Prop} [Decidable c] {m' : Compile α} (h : Walks s m) (h' : Walks s m') :
    Walks s (if c then m else m') := by
  split
  · exact h
  · exact h'

theorem optionMapM {f : α → Compile β} (each : ∀ a, Walks s (f a)) (o : Option α) :
    Walks s (o.mapM f) := by
  cases o with
  | none => exact pure _
  | some a => exact bind (each a) fun _ => pure _

end Walks

/-- What holds of each part and what it gives, and stays, holds of all. -/
theorem Ends.mapM_since {f : α → Compile β} {P : α → β → Work → Prop} {as : List α}
    (each : ∀ a ∈ as, ∀ w', Reaches s w w' → Ends s w' (f a) (P a))
    (stays : ∀ a b w₁ w₂, P a b w₁ → Reaches s w₁ w₂ → P a b w₂) :
    Ends s w (as.mapM f) fun bs w' => List.Forall₂ (P · · w') as bs := by
  induction as generalizing w with
  | nil => exact .pure .nil
  | cons a as ih =>
    rw [List.mapM_cons]
    refine (each a List.mem_cons_self w (.refl w)).bind fun b w' there one => ?_
    refine (ih fun a inside w₂ since =>
      each a (List.mem_cons_of_mem _ inside) w₂ (there.trans since)).bind
        fun bs w'' there' all => ?_
    exact .pure (.cons (stays a b w' w'' one there') all)

/-- What holds of each part and what it gives, whatever the state, holds of all. -/
theorem Ends.mapM {f : α → Compile β} {P : α → β → Prop}
    (each : ∀ a w, Moment s w → Ends s w (f a) fun b _ => P a b) (moment : Moment s w)
    (as : List α) : Ends s w (as.mapM f) fun bs _ => List.Forall₂ P as bs :=
  mapM_since (fun a _ w' there => each a w' (moment.later there.later)) fun _ _ _ _ here _ => here

end Compile

/-! ## Parts with a frame -/

/-- The environment that the body is called with is known. -/
def Frame.Grounded (f : Frame) (w : Work) : Prop :=
  ∀ current, f.env = some current → (w.registry.env? current.id).isSome

theorem Frame.Grounded.later {s : Setup} {w w' : Work} {f : Frame} (h : f.Grounded w)
    (later : Later s w w') : f.Grounded w' := fun current here => later.env_isSome (h current here)

/-- A frame with the same environment is as good. -/
theorem Frame.Grounded.of_env {w : Work} {f f' : Frame} (h : f.Grounded w)
    (same : f'.env = f.env) : f'.Grounded w := by
  intro current here
  exact h current (same ▸ here)

/-- The frame that a part ends with: its environment is known, and the same is declared of the
result. -/
structure Frame.Onward (f : Frame) (w : Work) (f' : Frame) : Prop where
  grounded : f'.Grounded w
  declared : f'.returning.declared? = f.returning.declared?

theorem Frame.Onward.later {s : Setup} {f f' : Frame} {w w' : Work} (h : f.Onward w f')
    (later : Later s w w') : f.Onward w' f' := ⟨h.grounded.later later, h.declared⟩

theorem Frame.Onward.trans {f f' f'' : Frame} {w w' : Work} (h : f.Onward w f')
    (h' : f'.Onward w' f'') : f.Onward w' f'' :=
  ⟨h'.grounded, h'.declared.trans h.declared⟩

namespace Emit

variable {s : Setup} {w : Work} {f : Frame} {α β : Type}

theorem lift_bind_apply (c : Compile α) (k : α → Emit β) (f : Frame) :
    (liftM c >>= k : Emit β) f = c >>= fun a => k a f := by
  change ((c >>= fun a => pure (a, f)) >>= fun result => k result.1 result.2) = _
  rw [bind_assoc]
  simp only [pure_bind]

theorem bind_of_ok {m : Emit α} {k : α → Emit β} {a : α} {f' : Frame} {s : Setup} {w' : Work}
    (ran : m f s w = .ok (a, f') w') : (m >>= k) f s w = k a f' s w' := by
  change (m f >>= fun result => k result.1 result.2) s w = _
  rw [Compile.bind_of_ok ran]

/-- A step in two that succeeds. -/
theorem of_bind_ok {m : Emit α} {k : α → Emit β} {f f' : Frame} {s : Setup} {w w' : Work} {b : β}
    (ran : (m >>= k) f s w = .ok (b, f') w') :
    ∃ a f₁ w₁, m f s w = .ok (a, f₁) w₁ ∧ k a f₁ s w₁ = .ok (b, f') w' := by
  change (m f >>= fun result => k result.1 result.2) s w = _ at ran
  rw [Compile.bind_apply] at ran
  cases ran₁ : m f s w with
  | error e w₁ => simp [ran₁] at ran
  | ok result w₁ =>
    rw [ran₁] at ran
    exact ⟨result.1, result.2, w₁, rfl, ran⟩

theorem of_lift_ok {c : Compile α} {f f' : Frame} {s : Setup} {w w' : Work} {a : α}
    (ran : (liftM c : Emit α) f s w = .ok (a, f') w') : f = f' ∧ c s w = .ok a w' := by
  change (c >>= fun a => Pure.pure (a, f)) s w = _ at ran
  rw [Compile.bind_apply] at ran
  cases ran₁ : c s w with
  | error e w₁ => simp [ran₁] at ran
  | ok a₁ w₁ =>
    rw [ran₁] at ran
    cases ran
    exact ⟨rfl, rfl⟩

/-- The step leaves the frame alone. -/
def Still (m : Emit α) : Prop :=
  ∀ (f f' : Frame) (s : Setup) (w w' : Work) (a : α), m f s w = .ok (a, f') w' → f = f'

namespace Still

theorem pure (a : α) : Still (Pure.pure a : Emit α) := by
  intro f f' s w w' b ran
  cases ran
  rfl

theorem lift (c : Compile α) : Still (liftM c : Emit α) := fun _ _ _ _ _ _ ran => (of_lift_ok ran).1

theorem bind {m : Emit α} {k : α → Emit β} (first : Still m) (rest : ∀ a, Still (k a)) :
    Still (m >>= k) := by
  intro f f' s w w' b ran
  obtain ⟨a, f₁, w₁, ran₁, ran₂⟩ := of_bind_ok ran
  obtain rfl := first _ _ _ _ _ _ ran₁
  exact rest a _ _ _ _ _ _ ran₂

theorem mapM {k : α → Emit β} (each : ∀ a, Still (k a)) (as : List α) : Still (as.mapM k) := by
  induction as with
  | nil => exact .pure []
  | cons a as ih =>
    rw [List.mapM_cons]
    exact .bind (each a) fun _ => .bind ih fun _ => .pure _

theorem forM {k : α → Emit PUnit} (each : ∀ a, Still (k a)) (as : List α) : Still (as.forM k) := by
  induction as with
  | nil => exact .pure _
  | cons a as ih => exact .bind (each a) fun _ => ih

end Still

theorem lift_ends {c : Compile α} {Q : α × Frame → Work → Prop}
    (h : Compile.Ends s w c fun a w' => Q (a, f) w') :
    Compile.Ends s w ((liftM c : Emit α) f) Q :=
  h.bind fun _ _ _ here => .pure here

theorem bind_ends {m : Emit α} {k : α → Emit β} {Q : α × Frame → Work → Prop}
    {R : β × Frame → Work → Prop} (first : Compile.Ends s w (m f) Q)
    (rest : ∀ a f' w', Reaches s w w' → Q (a, f') w' → Compile.Ends s w' (k a f') R) :
    Compile.Ends s w ((m >>= k) f) R :=
  first.bind fun result w' there here => rest result.1 result.2 w' there here

/-- From every moment and every frame whose environment is known the part goes on by steps; the
environment of the frame stays known, and so does what is declared of the result. -/
structure Walks (s : Setup) (m : Emit α) : Prop where
  ends : ∀ {w} {f : Frame}, Moment s w → f.Grounded w →
    Compile.Ends s w (m f) fun result w' => f.Onward w' result.2

namespace Walks

variable {m : Emit α}

theorem pure (a : α) : Walks s (Pure.pure a : Emit α) := ⟨fun _ grounded => .pure ⟨grounded, rfl⟩⟩

theorem lift {c : Compile α} (h : Compile.Walks s c) : Walks s (liftM c : Emit α) :=
  ⟨fun moment grounded =>
    lift_ends ((h.ends moment).mono fun _ _ there _ => ⟨grounded.later there.later, rfl⟩)⟩

theorem bind {k : α → Emit β} (first : Walks s m) (rest : ∀ a, Walks s (k a)) :
    Walks s (m >>= k) :=
  ⟨fun moment grounded => bind_ends (first.ends moment grounded) fun a _ _ there onward =>
    ((rest a).ends (moment.later there.later) onward.grounded).mono fun _ _ _ last =>
      onward.trans last⟩

theorem write (step : Writing α) : Walks s (Emit.write step) :=
  ⟨fun _ grounded => .pure ⟨grounded, rfl⟩⟩

theorem get : Walks s (MonadState.get : Emit Frame) := ⟨fun _ grounded => .pure ⟨grounded, rfl⟩⟩

/-- What goes on from the frame. -/
theorem get_bind {k : Frame → Emit α}
    (h : ∀ {w} (f : Frame), Moment s w → f.Grounded w →
      Compile.Ends s w (k f f) fun result w' => f.Onward w' result.2) :
    Walks s (MonadState.get >>= k : Emit α) := ⟨fun {_ f} moment grounded => h f moment grounded⟩

theorem getWork : Walks s (getThe Work : Emit Work) :=
  ⟨fun {w _} _ grounded => ⟨.refl w, grounded, rfl⟩⟩

theorem discard (h : Walks s m) : Walks s (Functor.discard m : Emit PUnit) := by
  change Walks s ((fun _ => PUnit.unit) <$> m)
  rw [← bind_pure_comp]
  exact bind h fun _ => pure _

/-- A change of the frame that leaves its environment and its result alone. -/
theorem modify {g : Frame → Frame}
    (same : ∀ f, (g f).env = f.env ∧ (g f).returning = f.returning) :
    Walks s (modifyThe Frame g : Emit PUnit) :=
  ⟨fun {_ f} _ grounded => .pure ⟨grounded.of_env (same f).1,
    congrArg Returning.declared? (same f).2⟩⟩

theorem ite {c : Prop} [Decidable c] {m' : Emit α} (h : Walks s m) (h' : Walks s m') :
    Walks s (if c then m else m') := by
  split
  · exact h
  · exact h'

theorem mapM {k : α → Emit β} (each : ∀ a, Walks s (k a)) (as : List α) :
    Walks s (as.mapM k) := by
  induction as with
  | nil => exact pure _
  | cons a as ih =>
    rw [List.mapM_cons]
    exact bind (each a) fun _ => bind ih fun _ => pure _

theorem forM_mem {k : α → Emit PUnit} (as : List α) (each : ∀ a ∈ as, Walks s (k a)) :
    Walks s (as.forM k) := by
  induction as with
  | nil => exact pure _
  | cons a as ih =>
    exact bind (each a (by simp)) fun _ => ih fun b inside => each b (by simp [inside])

theorem forM {k : α → Emit PUnit} (each : ∀ a, Walks s (k a)) (as : List α) :
    Walks s (as.forM k) := forM_mem as fun a _ => each a

theorem optionMapM {k : α → Emit β} (each : ∀ a, Walks s (k a)) (o : Option α) :
    Walks s (o.mapM k) := by
  cases o with
  | none => exact pure _
  | some a => exact bind (each a) fun _ => pure _

theorem filterMapM {k : α → Emit (Option β)} (each : ∀ a, Walks s (k a)) (as : List α) :
    Walks s (as.filterMapM k) := by
  induction as with
  | nil => exact pure _
  | cons a as ih =>
    rw [List.filterMapM_cons]
    refine bind (each a) fun found => ?_
    cases found with
    | none => exact ih
    | some b => exact bind ih fun _ => pure _

end Walks

end Emit

end ShapeCompiler
