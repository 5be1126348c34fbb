import ShapeCompiler.Proofs.ParentMembers
import ShapeCompiler.Proofs.Specializations

/-!
# Bodies that are used again

A request whose key is recorded is answered with the body that was compiled before.

* `Work.Sound.captured_settled`: a captured variable that is declared with a type is taken for the
  same in every body and at every time;
* `cached_body_agrees`: requests of one key agree on the subject, the class they are made on, what
  parameters are taken to be, what such variables hold and, up to the code of closures, what type
  parameters stand for.

The key does not tell what other captured variables hold (`captured_info_changes`).
-/

namespace ShapeCompiler

open Source Code Work

/-! ## What is seen of variables -/

/-- The variable is taken for this where it can be reached, or by a name that means it. -/
inductive Scope.Shows (scope : Scope) (v : DeclId) (i : Info) : Prop
  | reachable {ptr : ValueId} (here : scope.variableOf v = some (.cell ptr i))
  | named {n : Name} {ptr : ValueId} (here : scope.lookup n = some (.cell ptr i))
    (isDecl : scope.declarationOf n = some v)

section Seen

variable {s : Setup} {w w' : Work}

theorem Scope.Typed.held {scope : Scope} (h : scope.Typed s w) {v : DeclId} {i : Info}
    (shows : scope.Shows v i) : i.HeldBy s w v := by
  cases shows with
  | reachable here => exact h.reachable v _ i here
  | named here isDecl => exact h.named _ v _ i here isDecl

theorem Work.Typed.seen (h : w.Typed s) {d : DeclId} {site : Site}
    (isSite : w.siteOf s.program d = .ok site) : site.scope.Typed s w := by
  obtain ⟨d', recorded⟩ := siteOf_recorded isSite
  exact h.sites d' site recorded

/-- What a body takes a captured variable for is what its environment says, wherever the declaration
stands and whatever was compiled since. -/
theorem Work.Sound.captured_settled (sound : w.Sound s) (sound' : w'.Sound s) (later : Later s w w')
    {d : DeclId} {site : Site} (isSite : w.siteOf s.program d = .ok site) {id : EnvId}
    {e : Environment}
    (known : w'.registry.env? id = some e) {slot : EnvSlot} (inside : slot ∈ e.slots) {v : DeclId}
    {t : TypeId} (isVar : slot.var = some v) (fixes : s.program.Fixes v t) (n : Name) :
    Emit.capturedInfo site slot n = slot.info := by
  have ready : Emit.Ready s w' e [] site :=
    ⟨.nil e, sound'.typed.envs id e known, (sound.typed.seen isSite).later later⟩
  exact (ready.captured inside n isVar).unique (ready.slots slot inside v isVar) fixes

end Seen

/-! ## Requests -/

/-- A request that finds its key is answered with what was compiled before, and nothing changes. -/
theorem Compile.function_cached (l : Lowering) {spec : Specialization} {s : Setup} {w : Work}
    {done : CompiledFunction} (cached : w.functions.get? spec.key = some done) :
    Compile.function l spec s w = .ok done w := by
  rw [Compile.function, bind_apply, show (get : Compile Work) s w = .ok w w from rfl]
  simp only [cached]
  rfl

/-- A request that is answered with a body compiled before agrees with every other request of this
key: it is for the same subject and class, takes the parameters to be the same, reaches the
environment of the declaration, and type parameters stand for the same, up to the code of closures.
A variable that is declared with a type that tells what it holds is the same for both as well:
whatever the declaration saw of it before, it sees now, and a body takes a captured one for what the
environment says. -/
theorem cached_body_agrees (p : Program) (r : Resolver) (c : Config) (l : Lowering)
    {w w₁ w₂ w₃ : Work} {subject subject' : Subject} {cls cls' : Option DeclId}
    {args args' : List Info} {spec spec' : Specialization} {done : CompiledFunction}
    (moment : Moment (.of p r c) w) (sound : w₂.Sound (.of p r c))
    (asked : Compile.specialize subject cls args (.of p r c) w = .ok spec w₁)
    (asked' : Compile.specialize subject' cls' args' (.of p r c) w₂ = .ok spec' w₃)
    (same : spec'.key = spec.key) (cached : w₃.functions.get? spec'.key = some done) :
    Compile.function l spec' (.of p r c) w₃ = .ok done w₃ ∧
    subject' = subject ∧ cls' = cls ∧ spec'.key.params = spec.key.params ∧
    done.params = spec'.key.params ∧ w₃.registry.declEnv? subject'.decl = some done.env ∧
    (∀ n, (spec'.bindings.lookup n).map Info.key = (spec.bindings.lookup n).map Info.key ∧
      ∀ info info', spec.bindings.lookup n = some info → spec'.bindings.lookup n = some info' →
        info' = info ∨ info'.key = .closure) ∧
    ∀ w₀ site site' v t, w₀.Sound (.of p r c) → Later (.of p r c) w₀ w₃ →
      w₀.siteOf p subject.decl = .ok site → w₃.siteOf p subject'.decl = .ok site' → p.Fixes v t →
        (∀ i i', site.scope.Shows v i → site'.scope.Shows v i' → i' = i) ∧
        ∀ e slot n, w₃.registry.env? done.env = some e → slot ∈ e.slots → slot.var = some v →
          Emit.capturedInfo site slot n = slot.info ∧
          Emit.capturedInfo site' slot n = slot.info := by
  have moment' := sound.moment
  obtain ⟨_, isSubject, isClass, isKey⟩ := (Compile.specialize_ends moment subject cls args).of_ok
    asked
  obtain ⟨there, isSubject', isClass', isKey'⟩ :=
    (Compile.specialize_ends moment' subject' cls' args').of_ok asked'
  obtain ⟨env, params⟩ := (moment'.later there.later).function_made _ _ cached
  have alike (n : Name) :
      (spec'.bindings.lookup n).map Info.key = (spec.bindings.lookup n).map Info.key := by
    rw [← Bindings.find?_chainKey, ← Bindings.find?_chainKey, ← isKey, ← isKey', same]
  have sound₃ : w₃.Sound (.of p r c) :=
    (Compile.Sound.of_quiet ⟨fun moment => (Compile.specialize_ends moment subject' cls' args').mono
      fun _ _ _ _ => trivial⟩ (Compile.specialize_quiet subject' cls' args')).goes sound asked' |>.2
  refine ⟨Compile.function_cached l cached, ?_, ?_, by rw [same], params, ?_,
    fun n => ⟨alike n, ?_⟩,
    fun w₀ site site' v t sound₀ later isSite isSite' fixes => ⟨fun i i' shown shown' => ?_, ?_⟩⟩
  · rw [← isSubject, ← isSubject', same]
  · rw [← isClass, ← isClass', same]
  · rw [← isSubject']
    exact env
  · intro info info' known known'
    have keys := alike n
    rw [known, known'] at keys
    exact Info.eq_or_closure (Option.some.inj keys)
  · exact ((sound₃.typed.seen isSite').held shown').unique
      (((sound₀.typed.seen isSite).held shown).later later) fixes
  · intro e slot n known inside isVar
    exact ⟨sound₀.captured_settled sound₃ later isSite known inside isVar fixes n,
      sound₃.captured_settled sound₃ .same isSite' known inside isVar fixes n⟩

/-- A function around another that reads its variables, one of which is declared as a text, and two
calls with different arguments. -/
@[irreducible] def capturedTwice : Program := (Id.run <| StateT.run (do
  let x ← Construction.param "x" .any
  let y ← Construction.param "y" .text
  let inner ← Construction.function "inner" [] [] none
    [← Construction.stmt (.expr (← Construction.ident "x")),
      ← Construction.stmt (.ret (some (← Construction.ident "y")))]
  let call ← Construction.expr (.call (← Construction.ident "inner") [] (some inner))
  let outer ← Construction.function "outer" [] [x, y] none
    [← Construction.stmt (.function inner), ← Construction.stmt (.expr call)]
  let callOuter (arg : ExprId) := do
    Construction.stmt (.expr (← Construction.expr
      (.call (← Construction.ident "outer") [arg, ← Construction.text "t"] (some outer))))
  Construction.pushEntry (← Construction.stmt (.function outer))
  Construction.pushEntry (← callOuter (← Construction.expr (.bool true)))
  Construction.pushEntry (← callOuter (← Construction.text "s")) : Building Unit) {}).2.program

/-- The state once the first call is compiled. -/
def calledOnce : Work :=
  Compile.endOf ((Lowering.ofDepth 20).block (capturedTwice.entry.take 2) topFrame)
    (.of capturedTwice .ambient {}) (.opened {})

/-- The state once the second call is compiled. -/
def calledTwice : Work :=
  Compile.endOf ((Lowering.ofDepth 20).block (capturedTwice.entry.drop 2) topFrame)
    (.of capturedTwice .ambient {}) calledOnce

/-- The key of the function inside. -/
def innerKey : FunctionKey := ⟨.function ⟨2⟩, none, [], []⟩

theorem calledOnce_sound : calledOnce.Sound (.of capturedTwice .ambient {}) := by
  obtain ⟨_, ran, _⟩ := Compile.of_gives (show Compile.gives
    ((Lowering.ofDepth 20).block (capturedTwice.entry.take 2) topFrame)
      (.of capturedTwice .ambient {})
    (.opened {}) (fun _ => true) by decide +kernel)
  exact (Compile.opened_sound capturedTwice .ambient {}).after_top ran

theorem calledTwice_sound : calledTwice.Sound (.of capturedTwice .ambient {}) := by
  obtain ⟨_, ran, _⟩ := Compile.of_gives (show Compile.gives
    ((Lowering.ofDepth 20).block (capturedTwice.entry.drop 2) topFrame)
      (.of capturedTwice .ambient {})
    calledOnce (fun _ => true) by decide +kernel)
  exact calledOnce_sound.after_top ran

theorem calledTwice_later : Later (.of capturedTwice .ambient {}) calledOnce calledTwice :=
  calledOnce_sound.moment.later_top 20 _

/-- The key of the function inside has one body throughout. -/
theorem innerKey_cached : ∃ done, calledOnce.functions.get? innerKey = some done ∧
    calledTwice.functions.get? innerKey = some done := by
  have same : calledOnce.functions.get? innerKey = calledTwice.functions.get? innerKey := by
    decide +kernel
  have cached : (calledTwice.functions.get? innerKey).isSome := by decide +kernel
  obtain ⟨done, known⟩ := Option.isSome_iff_exists.mp cached
  exact ⟨done, same.trans known, known⟩

/-- Whether two requests are made with one key, there is a body for it the second time, and the
environment of the declaration has a slot for the variable. -/
def answeredAlike (p : Program) (d v : DeclId)
    (asked asked' : EStateM.Result Failure Work Specialization) :
    Bool :=
  match asked, asked' with
  | .ok spec _, .ok spec' w => decide (spec'.key = spec.key ∧ (w.functions.get? spec'.key).isSome ∧
      (w.siteOf p d).toOption.isSome ∧
      ((w.registry.declEnv? d).bind w.registry.env?).any fun e => e.slots.any (·.var = some v))
  | _, _ => false

theorem capturedTwice_fixes : capturedTwice.Fixes ⟨1⟩ .text := by
  have isParam : ((capturedTwice.param ⟨1⟩).toOption.map (·.ty)) = some .text := by decide +kernel
  obtain ⟨q, known, isText⟩ := Option.map_eq_some_iff.mp isParam
  have plain : plainInfo? capturedTwice .text = some .text := by decide +kernel
  exact .param (toOption_eq_some_iff.mp known) isText (.of_plain plain (by decide +kernel))
    (.plain plain (by simp) (by simp))

/-- After either call the function inside is asked for with one key, and the second time it is
there. The text that it captures is one both times. -/
theorem cached_body_agrees_capturedTwice : ∃ spec spec' w₁ w₂ done site site' e slot,
    Compile.specialize (.function ⟨2⟩) none [] (.of capturedTwice .ambient {})
    calledOnce = .ok spec w₁ ∧
    Compile.specialize (.function ⟨2⟩) none [] (.of capturedTwice .ambient {}) calledTwice =
      .ok spec' w₂ ∧
    Compile.function (.ofDepth 20) spec' (.of capturedTwice .ambient {}) w₂ = .ok done w₂ ∧
    done.params = spec'.key.params ∧ calledOnce.siteOf capturedTwice ⟨2⟩ = .ok site ∧
    w₂.siteOf capturedTwice ⟨2⟩ = .ok site' ∧ w₂.registry.env? done.env = some e ∧ slot ∈ e.slots ∧
    slot.var = some ⟨1⟩ ∧ ∀ n, Emit.capturedInfo site slot n = slot.info ∧
      Emit.capturedInfo site' slot n = slot.info := by
  have asks : answeredAlike capturedTwice ⟨2⟩ ⟨1⟩
      (Compile.specialize (.function ⟨2⟩) none [] (.of capturedTwice .ambient {}) calledOnce)
      (Compile.specialize (.function ⟨2⟩) none [] (.of capturedTwice .ambient {}) calledTwice) =
      true := by
    decide +kernel
  have stands : (calledOnce.siteOf capturedTwice ⟨2⟩).toOption.isSome := by decide +kernel
  obtain ⟨site, isSite⟩ := Option.isSome_iff_exists.mp stands
  unfold answeredAlike at asks
  split at asks
  · rename_i spec w₁ spec' w₂ asked asked'
    obtain ⟨same, cached, stands', has⟩ := of_decide_eq_true asks
    obtain ⟨done, known⟩ := Option.isSome_iff_exists.mp cached
    obtain ⟨site', isSite'⟩ := Option.isSome_iff_exists.mp stands'
    obtain ⟨e, isEnv, has⟩ := (Option.any_eq_true _ _).mp has
    obtain ⟨slot, inside, isVar⟩ := List.any_eq_true.mp has
    obtain ⟨id, isOwn, isEnv⟩ := Option.bind_eq_some_iff.mp isEnv
    obtain ⟨answered, _, _, _, params, env, _, settled⟩ :=
      cached_body_agrees capturedTwice .ambient {}
      (.ofDepth 20) calledOnce_sound.moment calledTwice_sound asked asked' same known
    obtain rfl := Option.some.inj (isOwn.symm.trans env)
    have later : Later (.of capturedTwice .ambient {}) calledOnce w₂ := calledTwice_later.trans
      ((Compile.specialize_ends calledTwice_sound.moment (.function ⟨2⟩) none []).of_ok
        asked').1.later
    obtain ⟨-, same⟩ := settled calledOnce site site' ⟨1⟩ .text calledOnce_sound later
      (toOption_eq_some_iff.mp isSite) (toOption_eq_some_iff.mp isSite') capturedTwice_fixes
    exact ⟨spec, spec', w₁, w₂, done, site, site', e, slot, asked, asked', answered, params,
      toOption_eq_some_iff.mp isSite, toOption_eq_some_iff.mp isSite', isEnv, inside,
      of_decide_eq_true isVar, fun n => same e slot n isEnv inside (of_decide_eq_true isVar)⟩
  · cases asks

/-- The variable that the function inside captures is a truth value when its body is compiled and a
text when this body is used again. -/
theorem captured_info_changes : ∃ w w' key done site site' n ptr ptr',
    Moment (.of capturedTwice .ambient {}) w ∧ Later (.of capturedTwice .ambient {}) w w' ∧
    key.subject = .function ⟨2⟩ ∧ w.functions.get? key = some done ∧
    w'.functions.get? key = some done ∧
    (∀ e ∈ w'.functions.entries, e.1.subject = .function ⟨2⟩ → e.1 = key) ∧
    w.sites.get? ⟨2⟩ = some site ∧ site.scope.lookup n = some (.cell ptr .boolean) ∧
    w'.sites.get? ⟨2⟩ = some site' ∧ site'.scope.lookup n = some (.cell ptr' .text) := by
  have before : (calledOnce.sites.get? ⟨2⟩).bind (·.scope.lookup ⟨1⟩) =
      some (.cell ⟨2⟩ .boolean) := by
    decide +kernel
  have after : (calledTwice.sites.get? ⟨2⟩).bind (·.scope.lookup ⟨1⟩) = some (.cell ⟨2⟩ .text) := by
    decide +kernel
  have only : ∀ e ∈ calledTwice.functions.entries,
      e.1.subject = .function ⟨2⟩ → e.1 = innerKey := by
    decide +kernel
  obtain ⟨site, isSite, truth⟩ := Option.bind_eq_some_iff.mp before
  obtain ⟨site', isSite', text⟩ := Option.bind_eq_some_iff.mp after
  obtain ⟨done, first, second⟩ := innerKey_cached
  exact ⟨calledOnce, calledTwice, innerKey, done, site, site', ⟨1⟩, ⟨2⟩,
    ⟨2⟩, calledOnce_sound.moment,
    calledTwice_later, rfl, first, second, only, isSite, truth, isSite', text⟩

end ShapeCompiler
