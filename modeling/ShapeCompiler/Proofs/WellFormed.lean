import ShapeCompiler.Proofs.Running
import ShapeCompiler.Proofs.Statements

/-!
# Compiled modules are well formed

* `Frame.Begun`: what a body has bound before its first statement;
* `function_sound`: a body that is compiled is well formed over the parameter of its function;
* `ofDepth_sound`: so the steps of every level are sound;
* `compiled_wellFormed`: every body of a compiled module is well formed.
-/

namespace ShapeCompiler

open Source Code Work

theorem Frame.Flowed.becomes {s : Setup} {w w' : Work} {f f' : Frame} {g g' : Sketch}
    (h : Flowed s w f g w' f' g')
    (isOpen : f'.draft.isClosed = false) : f.draft.Becomes g f'.draft g' := by
  rcases h.ends with closed | ⟨here, keeps, _⟩
  · simp [isOpen] at closed
  · exact ⟨h.grown, h.pending, h.fits, here, keeps⟩

/-- The body went on to its first statement: it may see more. -/
structure Frame.Begun (s : Setup) (w : Work) (f : Frame) (g : Sketch) (w' : Work) (f' : Frame)
    (g' : Sketch) : Prop where
  stands : f'.Stands s w' g'
  becomes : f.draft.Becomes g f'.draft g'
  sameBody : f.SameBody f'
  proceeds : Proceeds s w w'
  calls : f.CallsMore s w' f'

theorem Frame.Begun.trans {s : Setup} {w w' w'' : Work} {f f' f'' : Frame} {g g' g'' : Sketch}
    (h : Begun s w f g w' f' g') (h' : Begun s w' f' g' w'' f'' g'') :
    Begun s w f g w'' f'' g'' where
  stands := h'.stands
  becomes := h.becomes.trans h'.becomes
  sameBody := h.sameBody.trans h'.sameBody
  proceeds := h.proceeds.trans h'.proceeds
  calls := h.calls.trans h'.proceeds.course h'.calls

namespace Emit

open ShapeCompiler.Frame

variable {s : Setup} {w w' : Work} {f f' : Frame} {g : Sketch} {l : Lowering} {U : ValueId → Prop}

/-! ## The beginning of a body -/

theorem bindCell_begun (n : Name) (var : Option DeclId) (visible : Bool)
    {cell : ValueId} {info : Info}
    {a : Unit} (base : f.Stands s w g) (has : f.draft.Has g cell)
    (held : ∀ v, var = some v → info.HeldBy s w v)
    (ran : bindCell n var visible cell info f s w = .ok (a, f') w') : Begun s w f g w' f' g := by
  have becomes : f.draft.Becomes g f.draft g := .refl base.fits base.isOpen
  cases ran
  cases var with
  | none =>
    cases visible with
    | false => exact ⟨base, becomes, .refl f, .refl w, .refl f⟩
    | true =>
      refine ⟨base.reframe rfl rfl (base.declares.bind (by rintro d ⟨⟩)) (base.typed.bind n _)
        fun v isUsed => ?_, becomes, ⟨rfl, rfl, rfl, rfl⟩, .refl w, .refl f⟩
      rcases Uses.bind isUsed with ⟨_, ⟨⟩⟩ | old
      · exact has
      · exact base.holds v old
  | some d =>
    have isHeld := held d rfl
    cases visible with
    | false =>
      refine ⟨base.reframe rfl rfl base.declares (base.typed.bindHidden isHeld) fun v isUsed => ?_,
        becomes, ⟨rfl, rfl, rfl, rfl⟩, .refl w, .refl f⟩
      rcases Uses.bindHidden isUsed with rfl | old
      · exact has
      · exact base.holds v old
    | true =>
      refine ⟨base.reframe rfl rfl base.declares.bindDeclared (base.typed.bindDeclared isHeld)
        fun v isUsed => ?_, becomes, ⟨rfl, rfl, rfl, rfl⟩, .refl w, .refl f⟩
      rcases Uses.bindDeclared isUsed with rfl | old
      · exact has
      · exact base.holds v old

/-- What a body of the environment binds is what its variables are declared with. -/
structure Ready (s : Setup) (w : Work) (e : Environment) (params : List Info) (site : Site) :
    Prop where
  takes : e.Takes s w params
  slots : ∀ slot ∈ e.slots, slot.Typed s w
  seen : site.scope.Typed s w

variable {e : Environment} {params : List Info} {site : Site}

theorem Ready.later (h : Ready s w e params site) (later : Later s w w') :
    Ready s w' e params site where
  takes k slot i here isParam there v isVar :=
    (h.takes k slot i here isParam there v isVar).later later
  slots slot inside v isVar := (h.slots slot inside v isVar).later later
  seen := h.seen.later later

theorem Ready.captured (h : Ready s w e params site) {slot : EnvSlot}
    (inside : slot ∈ e.slots) (n : Name)
    {v : DeclId} (isVar : slot.var = some v) : (capturedInfo site slot n).HeldBy s w v := by
  simp only [capturedInfo, isVar, Option.elim_some]
  split
  · rename_i here
    exact h.seen.reachable v _ _ here
  · exact h.slots slot inside v isVar

/-- One slot of the environment is bound. -/
theorem bindSlot_begun {slot : EnvSlot} {i : Nat} {a : Unit} (base : f.Stands s w g)
    (has : f.draft.Has g (Draft.param 0)) (ready : Ready s w e params site)
    (here : e.slots[i]? = some slot)
    (ran : bindSlot e params site slot i f s w = .ok (a, f') w') :
    ∃ g', Begun s w f g w' f' g' := by
  have uses : ∀ v, v = Draft.param 0 → f.draft.Has g v := by
    rintro v rfl
    exact has
  cases isName : slot.name with
  | receiver =>
    simp only [bindSlot, isName] at ran
    obtain ⟨this, f₁, w₁, ran₁, ran⟩ := of_bind_ok ran
    obtain ⟨g₁, goes, given⟩ := (loadField_sound (U := (· = Draft.param 0)) _ _ _ rfl).goes base
      uses ran₁
    obtain ⟨_, f₂, w₂, ran₂, ran⟩ := of_bind_ok ran
    cases ran₂
    cases ran
    have stands := goes.stands base
    refine ⟨g₁, stands.reframe rfl rfl stands.declares stands.typed fun v isUsed =>
      ?_, goes.becomes,
      goes.sameBody.trans ⟨rfl, rfl, rfl, rfl⟩, goes.proceeds, goes.calls⟩
    cases isUsed with
    | name here => exact stands.holds v (.name here)
    | reachable here => exact stands.holds v (.reachable here)
    | receiver here =>
      cases here
      exact given _ (by simp [Operand.boxed])
    | env here => exact stands.holds _ (.env here)
  | named n =>
    simp only [bindSlot, isName] at ran
    obtain ⟨text, f₁, w₁, ran₁, ran⟩ := of_bind_ok ran
    obtain ⟨g₁, goes₁, _⟩ := (Sound.text n).goes base uses ran₁
    have stands₁ := goes₁.stands base
    obtain ⟨cell, f₂, w₂, ran₂, ran⟩ := of_bind_ok ran
    obtain ⟨g₂, goes₂, given⟩ := (loadField_sound (U := (· = Draft.param 0)) _ _ _ rfl).goes stands₁
      (fun v used => goes₁.becomes.keeps v (uses v used)) ran₂
    have goes := goes₁.trans goes₂
    have ready₂ := ready.later goes.later
    have inside := List.mem_of_getElem? here
    have bound {var : Option DeclId} {visible : Bool} {info : Info}
        (held : ∀ v, var = some v → info.HeldBy s w₂ v)
        (ran : bindCell n var visible cell info f₂ s w₂ = .ok (a, f') w') :
            ∃ g', Begun s w f g w' f' g' :=
      have first : Begun s w f g w₂ f₂ g₂ :=
        ⟨goes₂.stands stands₁, goes.becomes, goes.sameBody, goes.proceeds, goes.calls⟩
      ⟨g₂, first.trans (bindCell_begun n var visible (goes₂.stands stands₁)
        (given _ (by simp)) held ran)⟩
    cases origin : slot.origin with
    | param =>
      simp only [origin] at ran
      refine bound (fun v isVar => ?_) ran
      cases given : params[i]? with
      | none => exact ready₂.slots slot inside v isVar
      | some info => exact ready₂.takes i slot info here origin given v isVar
    | capture =>
      simp only [origin] at ran
      exact bound (fun v isVar => ready₂.captured inside n isVar) ran
    | outer =>
      simp only [origin] at ran
      exact bound (fun v isVar => ready₂.captured inside n isVar) ran
    | receiver =>
      simp only [origin] at ran
      exact bound (fun v isVar => ready₂.slots slot inside v isVar) ran

/-- The slots are bound one after the other. -/
theorem bindSlots_begun (slots : List (EnvSlot × Nat)) {a : Unit} (base : f.Stands s w g)
    (has : f.draft.Has g (Draft.param 0)) (ready : Ready s w e params site)
    (own : ∀ entry ∈ slots, e.slots[entry.2]? = some entry.1)
    (ran : (slots.forM fun (slot, i) => bindSlot e params site slot i) f s w = .ok (a, f') w') :
    ∃ g', Begun s w f g w' f' g' := by
  induction slots generalizing f w g with
  | nil =>
    cases ran
    exact ⟨g, base, .refl base.fits base.isOpen, .refl _, .refl _, .refl _⟩
  | cons entry rest ih =>
    obtain ⟨slot, i⟩ := entry
    obtain ⟨_, f₁, w₁, ran₁, ran⟩ := of_bind_ok ran
    obtain ⟨g₁, begun⟩ := bindSlot_begun base has ready (own _ List.mem_cons_self) ran₁
    obtain ⟨g₂, begun'⟩ := ih begun.stands (begun.becomes.keeps _ has)
      (ready.later begun.proceeds.later)
      (fun entry inside => own entry (List.mem_cons_of_mem _ inside)) ran
    exact ⟨g₂, begun.trans begun'⟩

/-- The body starts with the environment as its parameter. -/
theorem prologue_begun (env : EnvId) {a : Unit} (base : f.Stands s w g)
    (has : f.draft.Has g (Draft.param 0))
    (takes : ∀ e, w.registry.env? env = some e → e.Takes s w params) (seen : site.scope.Typed s w)
    (ran : prologue env params site f s w = .ok (a, f') w') : ∃ g', Begun s w f g w' f' g' := by
  obtain ⟨e, f₁, w₁, ran₁, ran⟩ := of_bind_ok ran
  obtain ⟨rfl, made⟩ := of_lift_ok ran₁
  obtain ⟨known, rfl⟩ := Compile.of_env_ok made
  obtain ⟨_, f₂, w₂, ran₂, ran⟩ := of_bind_ok ran
  cases ran₂
  have started : Frame.Stands s w { f with env := some ⟨env, Draft.param 0⟩ } g := by
    refine ⟨base.sound, ?_, base.declares, base.typed, base.fits, base.isOpen, fun v isUsed => ?_⟩
    · rintro _ ⟨⟩
      simp [known]
    · cases isUsed with
      | name here => exact base.holds v (.name here)
      | reachable here => exact base.holds v (.reachable here)
      | receiver here => exact base.holds _ (.receiver here)
      | env here =>
        cases here
        exact has
  have ready : Ready s w e params site := ⟨takes e known, base.sound.typed.envs env e known, seen⟩
  obtain ⟨g', begun⟩ := bindSlots_begun e.slots.zipIdx started has ready
    (fun entry inside => List.mem_zipIdx_iff_getElem?.mp inside) ran
  obtain ⟨bindings, receiverClass, memberOwner, isEntry⟩ := begun.sameBody
  exact ⟨g', begun.stands, begun.becomes, ⟨bindings, receiverClass, memberOwner, isEntry⟩,
    begun.proceeds, begun.calls⟩

/-! ## Whole bodies -/

theorem runDefault_sound (hl : l.Sound s) (param : DeclId) :
    Sound s U (runDefault l param) fun _ => [] := by
  apply (Sound.asks _).andThen
  intro q
  split
  · exact .pure (by simp)
  · rename_i start _
    apply (Sound.asks _).andThen
    intro d
    apply Sound.get_bind
    intro f
    split
    · rename_i cell info here
      apply (Sound.text _).andThen
      intro text
      apply (Sound.write (.load _ _ (.inl (.name here)))).bind
      intro current
      apply (isAbsent_sound (by simp [Operand.boxed])).bind
      intro absent
      have aside : Sound s
          (fun v => v ∈ [absent] ∨ v ∈ [current] ∨ f.Uses v ∨ U v) (do
            let value ← l.coerced (← l.expr start) info
            Draft.store value cell : Emit Unit) fun _ => [] := by
        apply (hl.expr _).bind
        intro v
        apply (hl.coerced _ (by simp)).bind
        intro value
        exact .write (.store (by simp) (by simp [Frame.Uses.name here]))
      have whole := Sound.detour "default" "param.ok" (fun way done => .condBr absent way done)
        (.pure (by simp) : Sound s _ (Pure.pure ⟨⟩) fun _ => []) (by simp [Exit.operands])
        (by simp [Exit.targets]) aside
        (.pure (by simp) : Sound s _ (Pure.pure PUnit.unit : Emit PUnit) fun _ => [])
      simp only [bind_assoc, pure_bind] at whole
      exact whole
    · exact .pure (by simp)

theorem startConstructor_sound (hl : l.Sound s) (f : FunctionDecl) :
    Sound s U (startConstructor l f) fun _ => [] := by
  unfold startConstructor
  split
  · apply (Sound.asks _).andThen
    intro c
    exact .ite (runInitializers_sound hl _) (.pure (by simp))
  · exact .pure (by simp)

theorem functionBody_flows (hl : l.Sound s) (d : DeclId) : Flows s U (functionBody l d) := by
  apply (Sound.asks _).bind_flows
  intro f
  apply (Sound.forM _ fun q _ => runDefault_sound hl q).bind_flows
  intro _
  apply (startConstructor_sound hl f).bind_flows
  intro _
  split
  · exact hl.block _
  · apply (hl.expr _).bind_flows
    intro v
    exact (returnValue_leaves hl (by rintro x ⟨⟩; simp)).any
  · exact (Sound.declName _).bind_flows fun _ => .fail _

/-- Statements, and what ends the body unless they do. -/
theorem Flows.ended {m last : Emit Unit} (h : Flows s U m) (ends : Leaves s U last) :
    Leaves s U (do m; unless ← isClosed do last) := by
  refine ⟨fun {w w' f f' g a} stands uses ran => ?_⟩
  obtain ⟨_, f₁, w₁, ran₁, ran⟩ := of_bind_ok ran
  obtain ⟨g₁, flowed, _⟩ := h.flows stands uses ran₁
  obtain ⟨_, f₂, w₂, ran₂, ran⟩ := of_bind_ok ran
  cases ran₂
  cases closed : f₁.draft.isClosed with
  | true =>
    simp only [closed, if_true] at ran
    cases ran
    exact ⟨g₁, flowed, closed⟩
  | false =>
    simp only [closed, Bool.false_eq_true, if_false] at ran
    obtain ⟨g₂, flowed', isClosed⟩ := ends.flows (flowed.stands stands.grounded closed)
      (fun v used => flowed.keeps closed (uses v used)) ran
    exact ⟨g₂, flowed.trans closed flowed', isClosed⟩

/-- A body that is compiled from its beginning to its last return is well formed, and what it calls
takes its arguments. -/
theorem wholeBody_wellFormed (hl : l.Sound s) (spec : Specialization) (env : EnvId) (site : Site)
    {a : Unit} (base : f.Stands s w g) (has : f.draft.Has g (Draft.param 0))
    (takes : ∀ e, w.registry.env? env = some e → e.Takes s w spec.key.params)
    (seen : site.scope.Typed s w) (nothing : ∀ b, ¬ g.pending b)
    (ran : wholeBody l spec env site f s w = .ok (a, f') w') :
    Proceeds s w w' ∧ w'.Sound s ∧ f'.draft.finish.WellFormed g.params ∧ f.CallsMore s w' f' := by
  obtain ⟨_, f₁, w₁, ran₁, ran⟩ := of_bind_ok ran
  obtain ⟨g₁, stands, becomes, _, proceeds, calls⟩ := prologue_begun env base has takes seen ran₁
  have last : Leaves s (fun _ => False) (returnValue l none) := returnValue_leaves hl (by simp)
  obtain ⟨g₂, flowed, closed⟩ : ∃ g₂, Frame.Flowed s w₁ f₁ g₁ w' f' g₂ ∧
      f'.draft.isClosed = true := by
    cases subject : spec.key.subject with
    | function d =>
      simp only [subject] at ran
      exact ((functionBody_flows hl _).ended last).flows stands (by simp) ran
    | implicitConstructor cls =>
      simp only [subject] at ran
      exact ((implicitConstructor_sound hl _).stays.any.ended last).flows stands (by simp) ran
  refine ⟨proceeds.trans flowed.proceeds, flowed.sound, ?_,
    calls.trans flowed.proceeds.course flowed.calls⟩
  have params : g₂.params = g.params := flowed.grown.params.trans becomes.grown.params
  rw [← params]
  refine flowed.fits.wellFormed ?_ closed
  rw [flowed.pending, becomes.pending]
  exact nothing

end Emit

/-! ## Bodies of functions -/

/-- What is laid over a scope without cells has none if it is made of declarations. -/
theorem lookup_overlays {top base : Scope} {n : Name} {ptr : ValueId} {info : Info}
    (entries : List (Name × Binding)) (declarations : ∀ e ∈ entries, e.2.isDeclaration = true)
    (here : (entries.foldl (fun s (n, b) => Scope.overlay top s n b) base).lookup n =
      some (.cell ptr info)) : base.lookup n = some (.cell ptr info) := by
  induction entries generalizing base with
  | nil => exact here
  | cons entry rest ih =>
    obtain ⟨n', b⟩ := entry
    have isDecl := declarations (n', b) List.mem_cons_self
    have under := ih (fun e inside => declarations e (List.mem_cons_of_mem _ inside)) here
    rcases Frame.get?_insert_cases under with isCell | old
    · rw [isCell] at isDecl
      cases isDecl
    · exact old

theorem reachable_overlays {top base : Scope} (entries : List (Name × Binding)) :
    (entries.foldl (fun s (n, b) => Scope.overlay top s n b) base).reachable = base.reachable := by
  induction entries generalizing base with
  | nil => rfl
  | cons entry rest ih => exact ih

/-- A body sees no cell of the bodies around it. -/
theorem lookup_declarationView {scope base : Scope} {n : Name} {ptr : ValueId} {info : Info}
    (here : (scope.declarationView.onTopOf base).lookup n = some (.cell ptr info)) :
    base.lookup n = some (.cell ptr info) := by
  refine lookup_overlays _ (fun e inside => ?_) here
  exact (List.mem_filter.mp inside).2

theorem variableOf_declarationView {scope base : Scope} (d : DeclId) :
    (scope.declarationView.onTopOf base).variableOf d = base.variableOf d := by
  change Table.get? _ d = _
  rw [Scope.variableOf]
  congr 1
  exact reachable_overlays _

/-- A frame that refers to nothing, in the first block of its body. -/
theorem Frame.Stands.start {s : Setup} {w : Work} {f : Frame} (func : FuncId) (params : List TyId)
    (sound : w.Sound s) (draft : f.draft = Draft.start func params) (env : f.env = none)
    (declares : f.scope.Declares s.program) (typed : f.scope.Typed s w) (uses : ∀ v, ¬ f.Uses v) :
    f.Stands s w ⟨params.length, fun _ v => v.raw < params.length, fun _ => False⟩ := by
  refine ⟨sound, ?_, declares, typed, ?_, ?_, fun v isUsed => absurd isUsed (uses v)⟩
  · intro current here
    simp [env] at here
  · rw [draft]
    exact .start func params
  · rw [draft]
    exact Draft.isOpen_start func params

/-- The frame of a body that begins refers to nothing. -/
theorem Work.Sound.not_uses {s : Setup} {w : Work} (sound : w.Sound s) {f : Frame} {scope : Scope}
    (seen : f.scope = scope.declarationView.onTopOf w.moduleScope) (receiver : f.receiver = none)
    (env : f.env = none) (v : ValueId) : ¬ f.Uses v := by
  intro isUsed
  cases isUsed with
  | name here => exact sound.names _ _ _ (lookup_declarationView (seen ▸ here))
  | reachable here =>
    rw [seen, variableOf_declarationView] at here
    exact sound.reachable _ _ _ here
  | receiver here =>
    rw [receiver] at here
    cases here
  | env here =>
    rw [env] at here
    cases here

namespace Compile

variable {s : Setup} {w w' : Work} {l : Lowering}

theorem body_wellFormed (hl : l.Sound s) (sound : w.Sound s) (spec : Specialization) (func : FuncId)
    (env : EnvId) (returning : Returning) {result : Code.Body × Returning} (typed : spec.Typed s w)
    (bound : w.registry.declEnv? spec.key.subject.decl = some env)
    (ran : body l spec func env returning s w = .ok result w') :
    Proceeds s w w' ∧ w'.Sound s ∧ result.1.WellFormed 1 ∧
      ∀ callee n, result.1.Calls callee n → w'.Accepts s callee n := by
  obtain ⟨site, w₁, ran₁, ran'⟩ := of_bind_ok ran
  obtain ⟨rfl, isSite⟩ := of_siteOf_ok ran₁
  obtain ⟨d', recorded⟩ := siteOf_recorded isSite
  have seen := sound.typed.sites d' site recorded
  obtain ⟨e, known, owned⟩ := sound.moment.declEnv_owner _ _ bound
  obtain ⟨_, w₂, ran₂, ran⟩ := of_bind_ok ran'
  cases ran₂
  obtain ⟨owner, w₂, ran₂, ran⟩ := of_bind_ok ran
  obtain ⟨proceeds₂, sound₂⟩ :=
    (Sound.of_quiet (memberOwnerOf_walks _ _) (memberOwnerOf_quiet _ _)).goes sound ran₂
  obtain ⟨⟨_, frame⟩, w₃, ran₃, ran⟩ := of_bind_ok ran
  cases ran
  have known₂ := proceeds₂.later.extends.registry.env _ _ known
  have takes (e' : Environment) (isEnv : w₂.registry.env? env = some e') :
      e'.Takes s w₂ spec.key.params := by
    obtain rfl := Option.some.inj (known₂.symm.trans isEnv)
    exact (typed.later proceeds₂.later).takes sound₂.moment known₂ owned
  obtain ⟨proceeds₃, sound₃, formed, calls⟩ := Emit.wholeBody_wellFormed hl spec env site
    (.start func [.ptr] sound₂ rfl rfl
      (.onTopOf (sound.sites d' site recorded) sound.declares)
      ((Scope.Typed.onTopOf site.scope sound.typed.top).later proceeds₂.later)
      fun v => sound.not_uses rfl rfl rfl v)
    ⟨⟨0⟩, ⟨rfl, _, rfl, rfl⟩, .inl Nat.zero_lt_one⟩ takes (seen.later proceeds₂.later)
    (fun _ waits => waits) ran₃
  exact ⟨proceeds₂.trans proceeds₃, sound₃, formed, fun callee n call =>
    (calls callee n call).resolve_left (Draft.not_calls_start _ _ callee n)⟩

/-- Once its body is compiled, a function gets it, and that is recorded. -/
theorem finished_of_body (hl : l.Sound s) (sound : w.Sound s)
    {spec : Specialization} {func : FuncId}
    {env : EnvId} {returning returned : Returning} {params : List Info} {ret : Info} {name : String}
    {w₂ w₃ : Work} {result : Code.Body × Returning}
    (declared : w.code.function? func = some ⟨name, [.ptr], .ptr, none⟩)
    (bound : w.registry.declEnv? spec.key.subject.decl = some env)
    (recorded : w.functions.get? spec.key = some ⟨func, env, params, ret⟩)
    (returns : Compile.returning spec.key.subject spec.bindings s w₂ = .ok returning w₃)
    (ran : body l spec func env returning s w = .ok result w') :
    let final : Work := { w' with
      code := w'.code.define func result.1
      functions := w'.functions.insert spec.key
        ⟨func, env, spec.key.params, returned.info .void⟩ }
    Later s w' final ∧ w'.Retains final ∧ Finished s final spec.key func := by
  intro final
  obtain ⟨depth, rfl⟩ := hl.level
  have there := ((body_ends hl.walks sound.moment spec func env returning).of_ok ran).1
  have absent := there.keeps _ _ declared
  have defined : Later s w' { w' with code := w'.code.define func result.1 } :=
    (Step.define _ _ (.inl fun fn known => Option.some.inj (absent.symm.trans known) ▸ rfl)).later
  have bound' : w'.registry.declEnv? spec.key.subject.decl = some env :=
    there.later.extends.registry.declEnv _ _ bound
  have again : ∀ c, w'.functions.get? spec.key = some c → c.func = func := by
    intro c known
    cases (there.functions _ _ recorded).symm.trans known
    rfl
  have last : Later s { w' with code := w'.code.define func result.1 } final :=
    (Step.function (w := { w' with code := w'.code.define func result.1 })
      (c := ⟨func, env, spec.key.params, returned.info .void⟩) bound' rfl again).later
  have kept : w'.Retains final :=
    (Retains.of_same rfl fun _ _ known => known).insert rfl rfl fun c known => (again c known).symm
  exact ⟨defined.trans last, kept, rfl, sound, declared, bound, returns, ran, absent, last, kept⟩

theorem function_sound (hl : l.Sound s) (spec : Specialization) {c : CompiledFunction}
    (sound : w.Sound s) (typed : spec.Typed s w) (ran : function l spec s w = .ok c w') :
    Proceeds s w w' ∧ w'.Sound s := by
  have later := ((function_ends hl.walks sound.moment spec).of_ok ran).1.later
  obtain ⟨_, w₁, ran₁, ran⟩ := of_bind_ok ran
  cases ran₁
  cases known : w.functions.get? spec.key with
  | some done =>
    simp only [known] at ran
    cases ran
    exact ⟨.refl _, sound⟩
  | none =>
    simp only [known] at ran
    obtain ⟨env, w₁, ran₁, ran⟩ := of_bind_ok ran
    obtain ⟨_, bound⟩ := (environmentOf_ends sound.moment _).of_ok ran₁
    obtain ⟨proceeds₁, sound₁⟩ := (Sound.environmentOf _).goes sound ran₁
    have calm₁ := Calm.of_beside (environmentOf_beside ran₁)
    obtain ⟨symbol, w₂, ran₂, ran⟩ := of_bind_ok ran
    have calm₂ := (symbolOf_quiet _).calm ran₂
    obtain ⟨proceeds₂, sound₂⟩ := (Sound.of_quiet (symbolOf_walks _) (symbolOf_quiet _)).goes sound₁
      ran₂
    obtain ⟨func, w₃, ran₃, ran⟩ := of_bind_ok ran
    obtain ⟨_, _, _, name, declared⟩ := (declareCompiled_ends (s := s) (w := w₂) _ _).of_ok ran₃
    obtain ⟨proceeds₃, sound₃⟩ := (Sound.of_mild (declareCompiled_walks _ _)
      (declareCompiled_mild _ _) fun ran => (declareCompiled_course ran).1).goes sound₂ ran₃
    have isOwn := (declareCompiled_course (s := s) ran₃).2
    have calm₃ := (declareCompiled_mild _ _).calm ran₃
    obtain ⟨returning, w₄, ran₄, ran⟩ := of_bind_ok ran
    have calm₄ := (returning_quiet _ _).calm ran₄
    have declared₄ := ((returning_walks _ _).ends sound₃.moment).of_ok ran₄ |>.1.keeps _ _ declared
    have same₄ : w₄.functions = w.functions :=
      calm₄.made.trans (calm₃.made.trans (calm₂.made.trans calm₁.made))
    obtain ⟨proceeds₄, sound₄⟩ := (Sound.of_quiet (returning_walks _ _) (returning_quiet _ _)).goes
      sound₃ ran₄
    obtain ⟨_, w₅, ran₅, ran⟩ := of_bind_ok ran
    have bound₄ :=
      ((proceeds₂.trans proceeds₃).trans proceeds₄).later.extends.registry.declEnv _ _ bound
    have accepts₄ : w₄.Accepts s func 1 :=
      .own (proceeds₄.course.compiled_stays isOwn) declared₄
    cases ran₅
    have later₅ : Later s w₄ { w₄ with
        functions := w₄.functions.insert spec.key
          ⟨func, env, spec.key.params, returning.info .any⟩ } :=
      (Step.function bound₄ rfl fun c₀ known₀ => by
        rw [same₄, known] at known₀
        cases known₀).later
    have sound₅ := sound₄.aside (sound₄.moment.later later₅) rfl rfl
      (Table.forall_insert sound₄.made accepts₄) sound₄.names sound₄.reachable sound₄.declares
      sound₄.sites (sound₄.typed.of_same rfl rfl rfl rfl)
    have typed₅ :=
      typed.later ((((proceeds₁.trans proceeds₂).trans proceeds₃).trans proceeds₄).later.trans
        later₅)
    have course₅ : Course s w₄ { w₄ with
        functions := w₄.functions.insert spec.key
          ⟨func, env, spec.key.params, returning.info .any⟩ } := Turn.course (.aside rfl rfl)
    obtain ⟨⟨code, returned⟩, w₆, ran₆, ran⟩ := of_bind_ok ran
    obtain ⟨proceeds₆, sound₆, formed, calls⟩ :=
      body_wellFormed hl sound₅ spec func env returning typed₅ bound₄ ran₆
    have there := ((body_ends hl.walks sound₅.moment spec func env returning).of_ok ran₆).1.keeps
      _ _
      declared₄
    have since₃ := (proceeds₄.course.trans course₅).trans proceeds₆.course
    have isOwn₆ := since₃.compiled_stays isOwn
    have course := ((proceeds₁.trans proceeds₂).trans proceeds₃).course.trans since₃
    obtain ⟨_, w₇, ran₇, ran⟩ := of_bind_ok ran
    have course₇ := define_course (s := s) isOwn₆ ran₇
    cases ran₇
    obtain ⟨_, w₈, ran₈, ran⟩ := of_bind_ok ran
    cases ran₈
    cases ran
    obtain ⟨last, kept, finished⟩ := finished_of_body hl sound₅ declared₄
      bound₄ (Table.get?_insert_self _ _ _) ran₄ ran₆
    have opened : w.Retains { w₄ with
        functions := w₄.functions.insert spec.key
            ⟨func, env, spec.key.params, returning.info .any⟩ } :=
      (((proceeds₁.trans proceeds₂).trans proceeds₃).trans proceeds₄).keeps.insert rfl rfl
        fun c₀ known₀ => by cases known.symm.trans known₀
    refine ⟨⟨later, (course.trans course₇).trans (Turn.course (.aside rfl rfl)),
      (opened.trans proceeds₆.keeps).trans kept, ?_⟩,
        sound₆.define isOwn₆ (sound.moment.later later)
        (Table.forall_insert sound₆.made (.own isOwn₆ there)) (fun fn isFunction => ?_) calls⟩
    · refine Table.forall_insert (fun key c recorded => ?_) (.inr finished)
      rcases proceeds₆.finishes key c recorded with ⟨c₅, there₅, same₅⟩ | before
      · by_cases isKey : spec.key = key
        · subst isKey
          cases (Table.get?_insert_self _ _ _).symm.trans there₅
          exact .inr (same₅ ▸ finished)
        · rw [Table.get?_insert_ne _ _ isKey, same₄] at there₅
          exact .inl ⟨c₅, there₅, same₅⟩
      · exact .inr (before.later last kept)
    · obtain rfl : _ = fn := Option.some.inj (there.symm.trans isFunction)
      rw [List.length_replicate]
      exact formed

end Compile

/-! ## All levels -/

namespace Lowering

variable {s : Setup} {l : Lowering}

theorem refuse_sound : refuse.Sound s where
  walks := refuse_walks
  level := ⟨0, rfl⟩
  compile := by rintro spec w w' c sound typed ⟨⟩
  expr _ _ := .fail _
  block _ _ := .fail _
  coerce _ _ _ _ := .fail _
  extract _ _ _ _ _ := .fail _
  readProperty _ _ _ _ := .fail _
  writeProperty _ _ _ _ _ _ := .fail _

theorem next_sound (hl : l.Sound s) : l.next.Sound s where
  walks := next_walks hl.walks
  level := hl.level.imp' (· + 1) fun depth isLevel => by rw [isLevel, ofDepth_succ]
  compile spec _ _ _ sound typed ran := Compile.function_sound hl spec sound typed ran
  expr e _ := Emit.expr_sound hl e
  block stmts _ := Emit.block_flows hl stmts
  coerce _ info _ used := Emit.coerce_sound hl info used
  extract _ shape info _ used := Emit.unionExtract_sound hl shape info used
  readProperty _ n _ used := Emit.readProperty_sound hl n used
  writeProperty _ n _ _ used used' := Emit.writeProperty_sound hl n used used'

/-- By induction on the number of levels. -/
theorem ofDepth_sound (depth : Nat) : (ofDepth depth).Sound s := by
  induction depth with
  | zero => exact refuse_sound
  | succ depth ih =>
    rw [ofDepth_succ]
    exact next_sound ih

end Lowering

/-! ## Whole programs -/

/-- At the start the call of closures has its body. -/
theorem functions_start : startModule.2.functions = #[⟨closureCallName, [.ptr], .ptr,
    some (closureCallBody startModule.1.closure startModule.1.bodySig startModule.1.call)⟩] := rfl

namespace Compile

variable {l : Lowering}

/-- The function of the statements at the top. It is new and has no parameters, unless it goes by
the name of the call of closures. -/
theorem declareEntry_later (p : Program) (r : Resolver) (c : Config) :
    Later (.of p r c) .start (.opened c) ∧
    ∃ fn, (Work.opened c).code.function?
        (startModule.2.declare c.entryName [] .void).1 = some fn ∧ fn.name = c.entryName ∧
      (c.entryName ≠ closureCallName → fn.params = []) := by
  cases found : startModule.2.functionByName c.entryName with
  | some f =>
    obtain ⟨isName, rfl⟩ := eq_of_functionByName_start found
    have same : startModule.2.declare c.entryName [] .void =
        (startModule.1.call, startModule.2) := by
      simp [Module.declare, found]
    rw [Work.opened, same]
    exact ⟨.same, _, rfl, isName.symm, fun apart => absurd isName apart⟩
  | none =>
    refine ⟨(Step.declare (s := .of p r c) (w := .start) c.entryName [] .void found).later,
      ⟨c.entryName, [], .void, none⟩, ?_, rfl, fun _ => rfl⟩
    simp [Work.opened, declare_new [] .void found, Module.function?]

/-- When the statements at the top begin, there are the call of closures and their own function. -/
theorem function?_opened {c : Config} {f : FuncId} {fn : Function}
    (known : (Work.opened c).code.function? f = some fn) :
    fn.name ∈ [closureCallName, c.entryName] ∧ (∀ body, fn.body = some body →
      fn.params = [.ptr] ∧ body =
        closureCallBody startModule.1.closure startModule.1.bodySig startModule.1.call) := by
  have first {fn : Function} (known : startModule.2.function? f = some fn) :
      fn.name ∈ [closureCallName, c.entryName] ∧ (∀ body, fn.body = some body →
        fn.params = [.ptr] ∧ body =
          closureCallBody startModule.1.closure startModule.1.bodySig startModule.1.call) := by
    have inside : fn ∈ startModule.2.functions := Array.mem_of_getElem? known
    rw [functions_start, Array.mem_singleton] at inside
    subst inside
    refine ⟨List.mem_cons_self, ?_⟩
    rintro body ⟨⟩
    exact ⟨rfl, rfl⟩
  cases found : startModule.2.functionByName c.entryName with
  | some f' =>
    have same : (Work.opened c).code = startModule.2 := by simp [Work.opened, Module.declare, found]
    exact first (same ▸ known)
  | none =>
    rw [Work.opened, function?_declare found] at known
    split at known
    · cases known
      exact ⟨by simp, by rintro body ⟨⟩⟩
    · exact first known

theorem opened_sorted (p : Program) (r : Resolver) (c : Config) :
    (Work.opened c).Sorted (.of p r c) where
  kinds := fun _ _ known => .inr (.inl (function?_opened known).1)
  inside := by simp [Work.opened, Work.start]

theorem opened_sound (p : Program) (r : Resolver) (c : Config) :
    (Work.opened c).Sound (.of p r c) where
  moment := (declareEntry_later p r c).1
  sorted := opened_sorted p r c
  bodies := by
    intro f fn body known has
    obtain ⟨params, rfl⟩ := (function?_opened known).2 body has
    rw [params]
    exact (closureCallBody_spec _ _ _).1
  calls := by
    intro f fn body known has f' n call
    obtain ⟨_, rfl⟩ := (function?_opened known).2 body has
    exact absurd call ((closureCallBody_spec _ _ _).2 f' n)
  made := by rintro key c ⟨⟩
  names := by rintro n ptr info ⟨⟩
  reachable := by rintro d ptr info ⟨⟩
  declares := .empty
  sites := by rintro d site ⟨⟩
  typed := Typed.start.of_same rfl rfl rfl rfl

/-- The frame with which the statements at the top begin. -/
def entryFrame (c : Config) : Frame where
  draft := Draft.start (startModule.2.declare c.entryName [] .void).1 []
  scope := .empty
  bindings := .root
  returning := .entry
  isEntry := true

theorem entryFrame_not_uses (c : Config) (v : ValueId) : ¬ (entryFrame c).Uses v := by
  rintro (⟨⟨⟩⟩ | ⟨⟨⟩⟩ | ⟨⟨⟩⟩ | ⟨⟨⟩⟩)

/-- The function of the statements at the top is declared, and gets their code in the end. -/
theorem of_entry_ok {p : Program} {r : Resolver} {c : Config} {func : FuncId} {w' : Work}
    (ran : entry l (.of p r c) .start = .ok func w') :
    func = (startModule.2.declare c.entryName [] .void).1 ∧
    ∃ (w : Work) (frame : Frame), (do
        l.block p.entry
        unless ← Emit.isClosed do Draft.ret none : Emit Unit) (entryFrame c)
        (.of p r c) (.opened c) =
          .ok ((), frame) w ∧
      w' = { w with code := w.code.define func frame.draft.finish } := by
  obtain ⟨_, w₁, ran₁, ran⟩ := of_bind_ok ran
  cases ran₁
  obtain ⟨entry, w₁, ran₁, ran⟩ := of_bind_ok ran
  obtain ⟨rfl, rfl⟩ : entry = (startModule.2.declare c.entryName [] .void).1 ∧ w₁ = .opened c := by
    cases ran₁
    exact ⟨rfl, rfl⟩
  obtain ⟨⟨_, frame⟩, w₂, ran₂, ran⟩ := of_bind_ok ran
  cases ran
  exact ⟨rfl, w₂, frame, ran₂, rfl⟩

/-- The statements at the top are written from a frame that refers to nothing, and leave their last
block. -/
theorem entry_flowed {p : Program} {r : Resolver} {c : Config} (hl : l.Sound (.of p r c))
    {func : FuncId} {w' : Work} (ran : entry l (.of p r c) .start = .ok func w') :
    func = (startModule.2.declare c.entryName [] .void).1 ∧
    ∃ (w : Work) (frame : Frame) (g : Sketch), Frame.Flowed (.of p r c) (.opened c) (entryFrame c)
        ⟨0, fun _ v => v.raw < 0, fun _ => False⟩ w frame g ∧
      frame.draft.isClosed = true ∧ w'.code = w.code.define func frame.draft.finish := by
  obtain ⟨rfl, w, frame, wrote, rfl⟩ := of_entry_ok ran
  have whole : Emit.Leaves (.of p r c) (fun _ => False) (do
      l.block p.entry
      unless ← Emit.isClosed do Draft.ret none : Emit Unit) :=
    (hl.block _).ended (Emit.ret_leaves (by simp))
  obtain ⟨g, flowed, closed⟩ := whole.flows
    (.start _ _ (opened_sound p r c) rfl rfl .empty .empty (entryFrame_not_uses c)) (by simp) wrote
  exact ⟨rfl, w, frame, g, flowed, closed, rfl⟩

/-- The statements at the top are compiled over no parameters; all other bodies are well formed. -/
theorem entry_wellFormed {p : Program} {r : Resolver} {c : Config} (hl : l.Sound (.of p r c))
    {func : FuncId} {w' : Work} (ran : entry l (.of p r c) .start = .ok func w') :
    ∃ (m : Module) (body : Code.Body), m.WellFormed ∧ body.WellFormed 0 ∧
      w'.code = m.define func body ∧ ∃ fn, m.function? func = some fn ∧
        (c.entryName ≠ closureCallName → fn.params = []) := by
  obtain ⟨rfl, w, frame, g, flowed, closed, isCode⟩ := entry_flowed hl ran
  have formed := flowed.fits.wellFormed (by simp [flowed.pending]) closed
  rw [flowed.grown.params] at formed
  refine ⟨w.code, frame.draft.finish, flowed.sound.bodies, formed, isCode, ?_⟩
  obtain ⟨fn, known, _, params⟩ := (declareEntry_later p r c).2
  obtain ⟨body, kept, _⟩ := flowed.later.extends.code.function _ _ known
  exact ⟨_, kept, params⟩

end Compile

theorem Work.Sound.after_top {s : Setup} {w w' : Work} (sound : w.Sound s) {limit : Nat}
    {stmts : List StmtId} {result : Unit × Frame}
    (ran : (Lowering.ofDepth limit).block stmts topFrame s w = .ok result w') : w'.Sound s := by
  have nothing : ∀ v, ¬ topFrame.Uses v := by rintro v (⟨⟨⟩⟩ | ⟨⟨⟩⟩ | ⟨⟨⟩⟩ | ⟨⟨⟩⟩)
  obtain ⟨_, flowed, _⟩ := ((Lowering.ofDepth_sound limit).block _).flows (U := fun _ => False)
    (.start _ _ sound rfl rfl .empty .empty nothing) (by simp) ran
  exact flowed.sound

/-- Every body of a compiled module is well formed over the parameters of its function, except
that the statements at the top are well formed over none if they go by the name of the call of
closures. Hence no body gets out of its blocks or reads what was not computed, in whatever way it
is called. -/
theorem compiled_wellFormed (limit : Nat) (p : Program) (r : Resolver)
    (c : Config) {u : CompiledUnit}
    (compiled : compileUnitWithin limit p r c = .ok u) :
    (∀ f fn body, u.code.function? f = some fn → fn.body = some body →
      ¬ (f = u.entry ∧ c.entryName = closureCallName) →
        body.WellFormed fn.params.length ∧ body.Runs fn.params.length) ∧
    (∃ fn body, u.code.function? u.entry = some fn ∧ fn.body = some body ∧
      body.WellFormed 0 ∧ body.Runs 0) ∧
    ∀ hosts : Array Machine.Host, (∀ host ∈ hosts, ∀ args, (host.act args).Within) →
      ∀ levels callee args, Machine.Run.Within
      (Machine.invoke ⟨u.code, hosts⟩ levels callee args) := by
  unfold compileUnitWithin at compiled
  split at compiled
  · rename_i entry work ran
    cases compiled
    obtain ⟨m, code, others, formed, isCode, old, known, params⟩ :=
      Compile.entry_wellFormed (Lowering.ofDepth_sound limit) ran
    have defined : work.code.function? entry = some { old with body := some code } := by
      rw [isCode]
      exact function?_define known
    have bodies : ∀ f fn body, work.code.function? f = some fn → fn.body = some body →
        (f = entry ∧ body = code ∧ fn.params = old.params) ∨ body.WellFormed fn.params.length := by
      intro f fn body found has
      rw [isCode] at found
      rcases of_define found has with ⟨rfl, rfl, old', known', same⟩ | ⟨_, stays⟩
      · obtain rfl : old = old' := Option.some.inj (known.symm.trans known')
        exact .inl ⟨rfl, rfl, same⟩
      · exact .inr (others f fn body stays has)
    refine ⟨fun f fn body found has apart => ?_, ⟨_, code, defined, rfl, formed, formed.runs⟩, ?_⟩
    · rcases bodies f fn body found has with ⟨isEntry, rfl, same⟩ | formed'
      · have none : fn.params = [] := same.trans (params fun isCall => apart ⟨isEntry, isCall⟩)
        rw [none]
        exact ⟨formed, formed.runs⟩
      · exact ⟨formed', formed'.runs⟩
    · intro hosts within
      refine Machine.Run.Within.invoke (fun f fn body found has => ?_) within
      rcases bodies f fn body found has with ⟨_, rfl, _⟩ | formed'
      · exact ⟨_, formed⟩
      · exact ⟨_, formed'⟩
  · cases compiled

/-- A variable, and a loop that ends once it is set. -/
@[irreducible] def turnOnce : Program := (Id.run <| StateT.run (do
  let (going, _) ← Construction.bind "going" none (some (← Construction.expr (.bool true)))
  let stop ← Construction.expr
    (.assign (← Construction.ident "going") (← Construction.expr (.bool false)))
  let body ← Construction.stmt (.expr stop)
  let loop ← Construction.stmt (.loop (← Construction.ident "going") [body])
  Construction.pushEntry going
  Construction.pushEntry loop : Building Unit) {}).2.program

/-- The loop has a block for its condition, one for its body and one that follows. -/
theorem compiled_wellFormed_turnOnce : ∃ u fn body, compileUnit turnOnce .ambient {} = .ok u ∧
    u.code.function? u.entry = some fn ∧ fn.body = some body ∧ body.blocks.size = 4 ∧
    body.WellFormed fn.params.length ∧ body.Runs fn.params.length := by
  have compiles : (match compileUnit turnOnce .ambient {} with
    | .ok u => decide (((u.code.function? u.entry).bind (·.body)).map (·.blocks.size) = some 4)
    | .error _ => false) = true := by
    decide +kernel
  generalize compiled : compileUnit turnOnce .ambient {} = result at compiles
  cases result with
  | error failure => cases compiles
  | ok u =>
    obtain ⟨body, isBody, size⟩ := Option.map_eq_some_iff.mp (of_decide_eq_true compiles)
    obtain ⟨fn, known, has⟩ := Option.bind_eq_some_iff.mp isBody
    obtain ⟨formed, _⟩ := compiled_wellFormed nestingLimit turnOnce .ambient {} compiled
    have apart : ({} : Config).entryName ≠ closureCallName := by decide
    exact ⟨u, fn, body, rfl, known, has, size,
      formed _ fn body known has fun isCall => apart isCall.2⟩

/-- A single number. -/
@[irreducible] def singleNumber : Program := (Id.run <| StateT.run (do
  Construction.pushEntry (← Construction.stmt (.expr (← Construction.expr (.number 1))))
  : Building Unit) {}).2.program

/-- If the statements at the top go by the name of the call of closures, which takes a parameter, an
instruction defines the value of this parameter once more. -/
theorem entry_defines_parameter : ∃ u fn body,
    compileUnit singleNumber .ambient { entryName := closureCallName } = .ok u ∧
    u.code.function? u.entry = some fn ∧ fn.body = some body ∧ fn.params.length = 1 ∧
    DefinesAt body.blocks 0 0 ⟨0⟩ ∧ ¬ body.WellFormed fn.params.length := by
  have compiles : (match compileUnit singleNumber .ambient { entryName := closureCallName } with
    | .ok u => decide ((u.code.function? u.entry).bind (fun fn => fn.body.bind fun body =>
        (body.blocks[0]?).bind fun k => (k.insts[0]?).map fun inst =>
          (fn.params.length, inst.defined?)) = some (1, some ⟨0⟩))
    | .error _ => false) = true := by
    decide +kernel
  generalize compiled : compileUnit singleNumber .ambient { entryName := closureCallName } = result
    at compiles
  cases result with
  | error failure => cases compiles
  | ok u =>
    obtain ⟨fn, known, seen⟩ := Option.bind_eq_some_iff.mp (of_decide_eq_true compiles)
    obtain ⟨body, has, seen⟩ := Option.bind_eq_some_iff.mp seen
    obtain ⟨k, here, seen⟩ := Option.bind_eq_some_iff.mp seen
    obtain ⟨inst, first, seen⟩ := Option.map_eq_some_iff.mp seen
    obtain ⟨one, zero⟩ := Prod.mk.inj seen
    have defines : DefinesAt body.blocks 0 0 ⟨0⟩ := ⟨k, inst, here, first, zero⟩
    refine ⟨u, fn, body, rfl, known, has, one, defines, ?_⟩
    intro formed
    obtain ⟨notParam, _⟩ := formed.range 0 0 ⟨0⟩ defines
    rw [one] at notParam
    exact absurd notParam (by decide)

end ShapeCompiler
