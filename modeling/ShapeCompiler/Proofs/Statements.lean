import ShapeCompiler.Proofs.Expressions

/-!
# Statements are sound

* `newVariable_stays`, `hoist_stays`: names are bound to values that are there;
* `branch_flows`, `loop_flows`: every block that is opened is left, and leads to blocks of the body;
* `stmtKind_flows`, `block_flows`: statements of every kind, and blocks of them.
-/

namespace ShapeCompiler

open Source Code Work

/-! ## Frames that differ in what a body does not refer to -/

namespace Frame

variable {s : Setup} {w w' w'' : Work} {f f₀ f' f'' : Frame} {g g' g'' : Sketch}

theorem Stands.reframe (h : f.Stands s w g) (draft : f'.draft = f.draft) (env : f'.env = f.env)
    (declares : f'.scope.Declares s.program) (typed : f'.scope.Typed s w)
    (uses : ∀ v, f'.Uses v → f.draft.Has g v) : f'.Stands s w g := by
  refine ⟨h.sound, h.grounded.of_env env, declares, typed, ?_, ?_, ?_⟩
  · rw [draft]
    exact h.fits
  · rw [draft]
    exact h.isOpen
  · intro v isUsed
    rw [draft]
    exact uses v isUsed

theorem Flowed.start (h : Flowed s w f g w' f' g') (sameBody : f₀.SameBody f)
    (draft : f.draft = f₀.draft) (receiver : f.receiver = f₀.receiver) (env : f.env = f₀.env) :
    Flowed s w f₀ g w' f' g' :=
  ⟨h.proceeds, h.sound, sameBody.trans h.sameBody, h.receiver.trans receiver, h.env.trans env,
    h.declares, h.typed, draft ▸ h.grown, fun callee n calls =>
      draft ▸ h.calls callee n calls, h.pending,
    h.fits, draft ▸ h.ends⟩

theorem Flowed.reframe (h : Flowed s w f g w' f' g') (sameBody : f'.SameBody f'')
    (draft : f''.draft = f'.draft) (receiver : f''.receiver = f'.receiver) (env : f''.env = f'.env)
    (declares : f''.scope.Declares s.program) (typed : f''.scope.Typed s w')
    (uses : f'.draft.isClosed = false → ∀ v, f''.Uses v → f'.draft.Has g' v) :
    Flowed s w f g w' f'' g' := by
  refine ⟨h.proceeds, h.sound, h.sameBody.trans sameBody, receiver.trans h.receiver,
    env.trans h.env, declares, typed, draft ▸ h.grown,
    fun callee n calls => h.calls callee n (by rwa [draft] at calls), h.pending, draft ▸ h.fits, ?_⟩
  rw [draft]
  rcases h.ends with closed | ⟨here, keeps, _⟩
  · exact .inl closed
  · exact .inr ⟨here, keeps, uses here.isClosed⟩

/-- The block is left. -/
theorem Stands.left (h : f.Stands s w g) {e : Exit} (uses : ∀ v ∈ e.operands, f.draft.Has g v)
    (leads : ∀ t ∈ e.targets, t.raw < f.draft.blocks.size ∧ ∀ v, g.given t v → f.draft.Has g v) :
    Flowed s w f g w (f.wrote (Draft.close e)) g := by
  have paused := h.close uses leads
  obtain ⟨b, here⟩ := h.isOpen
  refine ⟨.refl w, h.sound, ⟨rfl, rfl, rfl, rfl⟩, rfl, rfl, h.declares, h.typed,
    ⟨rfl, fun _ _ => rfl, ?_⟩,
    fun callee n calls => ?_, rfl, paused.fits, .inl paused.closed⟩
  · simp [wrote, here.close]
  · rw [wrote, here.close] at calls
    exact .inl (CallsIn.of_exit calls)

/-! ## Names -/

/-- What is found after a change was put there or was there before. -/
theorem get?_insert_cases {κ ν : Type} [DecidableEq κ] {t : Table κ ν} {key key' : κ} {x y : ν}
    (here : (t.insert key x).get? key' = some y) : x = y ∨ t.get? key' = some y := by
  by_cases same : key = key'
  · subst same
    rw [Table.get?_insert_self] at here
    exact .inl (Option.some.inj here)
  · rw [Table.get?_insert_ne t x same] at here
    exact .inr here

theorem Uses.bind {scope : Scope} {n : Name} {b : Binding} {v : ValueId}
    (h : Uses { f with scope := scope.bind n b } v) :
    (∃ info, b = .cell v info) ∨ Uses { f with scope } v := by
  cases h with
  | name here => exact (get?_insert_cases here).imp (⟨_, ·⟩) .name
  | reachable here => exact .inr (.reachable here)
  | receiver here => exact .inr (.receiver here)
  | env here => exact .inr (.env here)

theorem Uses.bindHidden {scope : Scope} {d : DeclId} {cell v : ValueId} {info : Info}
    (h : Uses { f with scope := scope.bindHidden d cell info } v) :
    v = cell ∨ Uses { f with scope } v := by
  cases h with
  | name here => exact .inr (.name here)
  | reachable here =>
    refine (get?_insert_cases here).imp (fun same => ?_) .reachable
    cases same
    rfl
  | receiver here => exact .inr (.receiver here)
  | env here => exact .inr (.env here)

theorem Uses.bindDeclared {scope : Scope} {n : Name} {d : DeclId} {cell v : ValueId} {info : Info}
    (h : Uses { f with scope := scope.bindDeclared n d cell info } v) :
    v = cell ∨ Uses { f with scope } v := by
  cases h with
  | name here =>
    refine (get?_insert_cases here).imp (fun same => ?_) .name
    cases same
    rfl
  | reachable here =>
    refine (get?_insert_cases here).imp (fun same => ?_) .reachable
    cases same
    rfl
  | receiver here => exact .inr (.receiver here)
  | env here => exact .inr (.env here)

/-! ## Statements within a region -/

variable {opened todo : List BlockId}

/-- The region goes on with statements that bind no name for what follows. -/
theorem Active.flow (h : Active False s w f g w' f' g' opened todo)
    (flowed : Flowed s w' f' g' w'' f'' g'') (scope : f''.scope = f'.scope) :
    Region False s w f g w'' f'' g'' opened todo := by
  refine ⟨h.proceeds.trans flowed.proceeds, flowed.sound, h.sameBody.trans flowed.sameBody,
    scope.trans h.scope, flowed.receiver.trans h.receiver, flowed.env.trans h.env, False.elim,
    h.grown.trans flowed.grown, h.calls.trans flowed.proceeds.course flowed.calls, flowed.fits, ?_,
    ?_, ?_, h.known, h.nodup⟩
  · intro b
    rw [flowed.pending]
    exact h.pending b
  · intro b inside v
    rw [flowed.grown.given b (h.fresh b inside).2]
    exact h.given b inside v
  · intro b inside
    exact ⟨(h.fresh b inside).1, Nat.lt_of_lt_of_le (h.fresh b inside).2 flowed.grown.blocks⟩

end Frame

namespace Emit

open ShapeCompiler.Frame

variable {s : Setup} {w w' : Work} {f f' : Frame} {g : Sketch} {α : Type} {l : Lowering}
  {U : ValueId → Prop}

/-- The names of statements in a block of their own are gone after them. -/
theorem nested_flowed (hl : l.Sound s) (stmts : List StmtId) {a : Unit} (base : f.Stands s w g)
    (ran : nested l stmts f s w = .ok (a, f') w') :
    ∃ g', Flowed s w f g w' f' g' ∧ f'.scope = f.scope := by
  obtain ⟨_, f₁, w₁, ran₁, ran⟩ := of_bind_ok ran
  cases ran₁
  obtain ⟨_, f₂, w₂, ran₂, ran⟩ := of_bind_ok ran
  cases ran₂
  obtain ⟨_, f₃, w₃, ran₃, ran⟩ := of_bind_ok ran
  cases ran
  have deeper : Frame.Stands s w { f with depth := f.depth + 1 } g :=
    base.reframe rfl rfl base.declares base.typed fun v isUsed =>
      base.holds v (isUsed.of_same rfl rfl rfl)
  obtain ⟨g', flowed, _⟩ := (hl.block stmts (U := fun _ => False)).flows deeper (by simp) ran₃
  have here : Flowed s w f g w' f₃ g' := flowed.start ⟨rfl, rfl, rfl, rfl⟩ rfl rfl rfl
  refine ⟨g', here.reframe ⟨rfl, rfl, rfl, rfl⟩ rfl rfl rfl base.declares
    (base.typed.later flowed.later) ?_, rfl⟩
  intro isOpen v isUsed
  exact flowed.keeps isOpen (base.holds v (isUsed.of_same rfl flowed.receiver flowed.env))

theorem nested_flows (hl : l.Sound s) (stmts : List StmtId) : Flows s U (nested l stmts) := by
  refine ⟨fun stands _ ran => ?_⟩
  obtain ⟨g', flowed, _⟩ := nested_flowed hl stmts stands ran
  exact ⟨g', flowed, trivial⟩

/-- Statements in a block of the region; unless they leave it, they lead to another. -/
theorem Active.nested {w₀ wEnd : Work} {f₀ fEnd : Frame} {g₀ : Sketch} {opened todo : List BlockId}
    {next : Emit α} {r : α} (hl : l.Sound s) (stmts : List StmtId) (target : BlockId)
    (h : Active False s w₀ f₀ g₀ w f g opened todo) (base : f₀.Stands s w₀ g₀)
    (inside : target ∈ opened)
    (ran : (do Emit.nested l stmts; brUnlessClosed target; next : Emit α) f s w =
    .ok (r, fEnd) wEnd) :
    ∃ w' f' g', Paused False s w₀ f₀ g₀ w' f' g' opened todo ∧
      next f' s w' = .ok (r, fEnd) wEnd := by
  obtain ⟨_, f₁, w₁, ran₁, ran⟩ := of_bind_ok ran
  obtain ⟨g₁, flowed, scope⟩ := nested_flowed hl stmts (h.stands base) ran₁
  have region := h.flow flowed scope
  obtain ⟨_, f₂, w₂, ran₂, ran₃⟩ := of_bind_ok ran
  obtain ⟨_, f₃, w₃, ran₄, ran₅⟩ := of_bind_ok ran₂
  cases ran₄
  rcases flowed.ends with closed | ⟨isOpen, keeps, _⟩
  · simp only [closed, if_true] at ran₅
    cases ran₅
    exact ⟨w₁, f₁, g₁, ⟨region, closed⟩, ran₃⟩
  · simp only [isOpen.isClosed, Bool.false_eq_true, if_false] at ran₅
    have active : Active False s w₀ f₀ g₀ w₁ f₁ g₁ opened todo :=
      ⟨region, isOpen, fun v has => keeps v (h.keeps v has)⟩
    cases ran₅
    obtain ⟨f', paused, ran'⟩ := active.exit base (.br target) (by simp [Exit.operands])
      (by simp [Exit.targets, inside]) (k := fun _ => next) ran₃
    exact ⟨w₁, f', g₁, paused, ran'⟩

/-- The last block of a region is entered. -/
theorem Paused.finish {w₀ : Work} {f₀ : Frame} {g₀ : Sketch} {opened : List BlockId} {b : BlockId}
    {a : Unit} (h : Paused False s w₀ f₀ g₀ w f g opened [b]) (base : f₀.Stands s w₀ g₀)
    (ran : (liftM (Draft.moveTo b) : Emit Unit) f s w = .ok (a, f') w') :
    ∃ g', Flowed s w₀ f₀ g₀ w' f' g' := by
  rw [← bind_pure (liftM (Draft.moveTo b) : Emit Unit)] at ran
  obtain ⟨f₁, active, ran⟩ := h.enter base (.refl _) ran
  cases ran
  exact ⟨_, active.flowed base⟩

theorem branch_flows (hl : l.Sound s) (cond : ExprId) (thenStmts elseStmts : List StmtId) :
    Flows s U (branch l cond thenStmts elseStmts) := by
  apply (hl.expr cond).bind_flows
  intro v
  apply (truthy_sound (by simp)).bind_flows
  intro c
  refine ⟨fun {w w' f f' g a} base uses ran => ?_⟩
  have start : Active False s w f g w f g [] [] := .start base
  obtain ⟨thenBlock, f₁, g₁, h₁, _, ran⟩ := start.block _ ran
  obtain ⟨elseBlock, f₂, g₂, h₂, _, ran⟩ := h₁.block _ ran
  obtain ⟨done, f₃, g₃, h₃, _, ran⟩ := h₂.block _ ran
  obtain ⟨f₄, h₄, ran⟩ := h₃.exit base (.condBr c thenBlock elseBlock)
    (by simpa [Exit.operands] using h₃.keeps c (uses c (by simp))) (by simp [Exit.targets]) ran
  have order : [done, elseBlock, thenBlock].Perm [thenBlock, elseBlock, done] :=
    List.reverse_perm [thenBlock, elseBlock, done]
  obtain ⟨f₅, h₅, ran⟩ := h₄.enter base order ran
  obtain ⟨w₆, f₆, g₆, h₆, ran⟩ := Active.nested hl thenStmts done h₅ base (by simp) ran
  obtain ⟨f₇, h₇, ran⟩ := h₆.enter base (.refl _) ran
  obtain ⟨w₈, f₈, g₈, h₈, ran⟩ := Active.nested hl elseStmts done h₇ base (by simp) ran
  obtain ⟨g', flowed⟩ := Paused.finish h₈ base ran
  exact ⟨g', flowed, trivial⟩

theorem loop_flows (hl : l.Sound s) (cond : ExprId) (body : List StmtId) :
    Flows s U (loop l cond body) := by
  refine ⟨fun {w w' f f' g a} base uses ran => ?_⟩
  have start : Active False s w f g w f g [] [] := .start base
  obtain ⟨condBlock, f₁, g₁, h₁, _, ran⟩ := start.block _ ran
  obtain ⟨bodyBlock, f₂, g₂, h₂, _, ran⟩ := h₁.block _ ran
  obtain ⟨done, f₃, g₃, h₃, _, ran⟩ := h₂.block _ ran
  obtain ⟨f₄, h₄, ran⟩ := h₃.exit base (.br condBlock) (by simp [Exit.operands])
    (by simp [Exit.targets]) ran
  have order : [done, bodyBlock, condBlock].Perm [condBlock, bodyBlock, done] :=
    List.reverse_perm [condBlock, bodyBlock, done]
  obtain ⟨f₅, h₅, ran⟩ := h₄.enter base order ran
  obtain ⟨v, f₆, w₆, g₆, h₆, has₆, _, ran⟩ := h₅.part base (hl.expr cond (U := fun _ => False))
    (by simp) ran
  obtain ⟨c, f₇, w₇, g₇, h₇, has₇, _, ran⟩ := h₆.part base
    (truthy_sound (U := (· = v.value)) rfl) (by rintro _ rfl; exact has₆ _ (by simp)) ran
  obtain ⟨f₈, h₈, ran⟩ := h₇.exit base (.condBr c bodyBlock done)
    (by simpa [Exit.operands] using has₇ c (by simp)) (by simp [Exit.targets]) ran
  obtain ⟨f₉, h₉, ran⟩ := h₈.enter base (.refl _) ran
  obtain ⟨w₁₀, f₁₀, g₁₀, h₁₀, ran⟩ := Active.nested hl body condBlock h₉ base (by simp) ran
  obtain ⟨g', flowed⟩ := Paused.finish h₁₀ base ran
  exact ⟨g', flowed, trivial⟩

/-! ## Names -/

/-- A binding that means the same in every body refers to no value. -/
theorem bindName_stays (n : Name) {b : Binding} (isDecl : b.isDeclaration = true)
    (named : ∀ d, b = .function d → s.program.Named d) : Stays s U (bindName n b) := by
  have noCell : ∀ ptr info, b ≠ .cell ptr info := by
    rintro ptr info rfl
    cases isDecl
  have inside : Stays s U (modify fun f : Frame => { f with scope := f.scope.bind n b } :
      Emit PUnit) := by
    refine .modify (fun _ => ⟨rfl, rfl, rfl, rfl⟩) (fun _ => rfl) (fun _ => rfl) (fun _ => rfl)
      (fun _ declares => declares.bind named) (fun _ _ typed => typed.bind n b) fun f v isUsed => ?_
    rcases isUsed.bind with ⟨info, isCell⟩ | old
    · exact absurd isCell (noCell v info)
    · exact .inl old
  apply inside.bind
  intro _
  apply Flows.get_bind
  intro f
  refine .ite ?_ (.pure _)
  refine ⟨fun {w w' f f' g a} stands used ran => ?_⟩
  cases ran
  have step : Step s w { w with moduleScope := w.moduleScope.bind n b } := .bindName n b
  have course : Course s w { w with moduleScope := w.moduleScope.bind n b } :=
    Turn.course (.aside rfl rfl)
  have sound : Work.Sound s { w with moduleScope := w.moduleScope.bind n b } := by
    refine stands.sound.aside (stands.sound.moment.later step.later) rfl rfl stands.sound.made ?_
      stands.sound.reachable (stands.sound.declares.bind named) stands.sound.sites
      (stands.sound.typed.bindTop n b)
    intro n' ptr info here
    rcases Frame.get?_insert_cases here with isCell | old
    · exact noCell ptr info isCell
    · exact stands.sound.names n' ptr info old
  have goes : Goes s w f g _ f g :=
    ⟨.of_same step.later course rfl fun _ _ known => known, sound, rfl,
      .refl stands.fits stands.isOpen, .refl f⟩
  exact ⟨g, goes.flowed stands, stands.isOpen.isClosed⟩

/-! ## Variables -/

theorem newVariable_flowed {decl : DeclId} {n : Name} {info : Info} {value : ValueId} {a : Unit}
    (base : f.Stands s w g) (has : f.draft.Has g value) (held : info.HeldBy s w decl)
    (ran : newVariable decl n info value f s w = .ok (a, f') w') :
    ∃ g', Flowed s w f g w' f' g' ∧ f'.draft.isClosed = false := by
  obtain ⟨text, f₁, w₁, ran₁, ran⟩ := of_bind_ok ran
  obtain ⟨g₁, goes₁, _⟩ := (Sound.text n (U := fun _ => False)).goes base (by simp) ran₁
  have has₁ := goes₁.becomes.keeps value has
  have stands₁ := goes₁.stands base
  have flowed₁ := goes₁.flowed base
  have isOpen₁ := goes₁.becomes.isOpen.isClosed
  obtain ⟨_, f₂, w₂, ran₂, ran⟩ := of_bind_ok ran
  cases ran₂
  split at ran
  · have top : Stays s (· = value) (do
        let g ← Compile.code (·.addGlobal ("global." ++ text) .ptr false .zero)
        let addr ← Draft.globalAddr g
        Draft.store value addr
        bindName n (.global g info) : Emit Unit) := by
      apply Sound.bind_flows (.quiet ⟨fun _ => Compile.addGlobal_ends fun _ _ _ _ _ _ => trivial⟩
        (Compile.addGlobal_quiet _ _ _ _))
      intro global
      apply (Sound.write (.plain _)).bind_flows
      intro addr
      apply (Sound.write (.store (by simp) (by simp))).bind_flows
      exact fun _ => bindName_stays n rfl (by rintro d ⟨⟩)
    obtain ⟨g₂, flowed, isOpen⟩ := top.flows stands₁ (by rintro v rfl; exact has₁) ran
    exact ⟨g₂, flowed₁.trans isOpen₁ flowed, isOpen⟩
  · obtain ⟨cell, f₂, w₂, ran₂, ran⟩ := of_bind_ok ran
    cases ran
    obtain ⟨g₂, goes₂, given⟩ :=
      (newCell_sound text (U := (· = value)) rfl).goes stands₁ (by rintro v rfl; exact has₁) ran₂
    have stands₂ := goes₂.stands stands₁
    have held₂ := held.later (goes₁.later.trans goes₂.later)
    refine ⟨g₂, (flowed₁.trans isOpen₁ (goes₂.flowed stands₁)).reframe
      ⟨rfl, rfl, rfl, rfl⟩ rfl rfl rfl
      stands₂.declares.bindDeclared (stands₂.typed.bindDeclared held₂) (fun _ v isUsed => ?_),
      stands₂.isOpen.isClosed⟩
    rcases isUsed.bindDeclared with rfl | old
    · exact given _ (by simp)
    · exact stands₂.holds v old

/-- A variable that is declared with a type is taken for what the type is lowered to. -/
theorem variableInfo_held {decl : DeclId} {d : Decl} {ty : Option TypeId} {declared : Option Info}
    (base : f.Stands s w g) (known : s.program.decl decl = .ok d) (kind : d.kind = .binding ty)
    (ran : ty.mapM infoOf f s w = .ok (declared, f') w') (start : Info) :
    (variableInfo declared start).HeldBy s w' decl := by
  intro t fixes
  obtain rfl := fixes.of_binding known kind
  change (infoOf t >>= fun i => pure (some i) : Emit (Option Info)) f s w = _ at ran
  obtain ⟨i, f₁, w₁, ran₁, ran⟩ := of_bind_ok ran
  cases ran
  obtain ⟨_, f₂, w₂, ran₂, ran⟩ := of_bind_ok ran₁
  cases ran₂
  obtain ⟨-, made⟩ := of_lift_ok ran
  have read := ((Compile.infoOf_closed base.sound.moment f.bindings t).of_ok made).2
    fixes.concrete.closed
  rw [base.sound.typed.idle] at read
  have isKnown (c : ClosureInfo) (isClosure : i = .closure c) : c.sig.isSome :=
    Reading.closure_sig (isClosure ▸ read.reading _ (List.prefix_refl _)) fixes.concrete
  exact ⟨f.bindings, (variableInfo_eq isKnown start).symm ▸ read⟩

theorem bind_stays (hl : l.Sound s) (decl : DeclId) (init : Option ExprId) :
    Stays s U (Emit.bind l decl init) := by
  refine ⟨fun {w w' f f' g a} stands uses ran => ?_⟩
  obtain ⟨d, f₁, w₁, ran₁, ran⟩ := of_bind_ok ran
  obtain ⟨rfl, rfl, known⟩ := of_asks_ok ran₁
  cases kind : d.kind with
  | binding ty =>
    simp only [kind] at ran
    have start : Sound s U (init.elim (nullValue .null) l.expr) fun v => [v.value] := by
      cases init with
      | none => exact nullValue_sound _
      | some e => exact hl.expr e
    obtain ⟨declared, f₁, w₁, ran₁, ran⟩ := of_bind_ok ran
    obtain ⟨g₁, goes₁, _⟩ := (Sound.optionMapM (fun _ => []) ty fun t _ => infoOf_sound t).goes
      stands uses ran₁
    have stands₁ := goes₁.stands stands
    obtain ⟨v, f₂, w₂, ran₂, ran⟩ := of_bind_ok ran
    obtain ⟨g₂, goes₂, given₂⟩ := start.goes stands₁
      (fun x used => goes₁.becomes.keeps x (uses x used)) ran₂
    have stands₂ := goes₂.stands stands₁
    obtain ⟨value, f₃, w₃, ran₃, ran⟩ := of_bind_ok ran
    obtain ⟨g₃, goes₃, given₃⟩ := (hl.coerced _ (U := (· = v.value)) rfl).goes stands₂
      (by rintro x rfl; exact given₂ _ (by simp)) ran₃
    have stands₃ := goes₃.stands stands₂
    have held := (variableInfo_held stands known kind ran₁ v.info).later
      (goes₂.later.trans goes₃.later)
    obtain ⟨_, f₄, w₄, ran₄, ran⟩ := of_bind_ok ran
    obtain ⟨g₄, flowed₄, isOpen₄⟩ := newVariable_flowed stands₃ (given₃ _ (by simp)) held ran₄
    have stands₄ := flowed₄.stands stands₃.grounded isOpen₄
    obtain ⟨g₅, goes₅, _⟩ := (refreshSites_sound (U := fun _ => False)).goes stands₄ (by simp) ran
    have before := ((goes₁.trans goes₂).trans goes₃).flowed stands
    exact ⟨g₅, (before.trans stands₃.isOpen.isClosed flowed₄).trans isOpen₄ (goes₅.flowed stands₄),
      goes₅.becomes.isOpen.isClosed⟩
  | _ =>
    simp only [kind] at ran
    obtain ⟨_, _, _, _, never⟩ := of_bind_ok ran
    cases never

/-! ## Returns -/

theorem ret_leaves {result : Option ValueId} (h : ∀ v ∈ result.toList, U v) :
    Leaves s U (liftM (Draft.ret result) : Emit Unit) := by
  refine ⟨fun {w w' f f' g a} stands uses ran => ?_⟩
  cases ran
  have returns : ∀ v ∈ (Exit.ret result).operands, f.draft.Has g v :=
    fun v used => uses v (h v used)
  have targets : (Exit.ret result).targets = [] := rfl
  exact ⟨g, stands.left returns (by simp [targets]),
    (stands.close returns (by simp [targets])).closed⟩

theorem returnValue_leaves (hl : l.Sound s) {v : Option Operand}
    (h : ∀ x, v = some x → U x.value) : Leaves s U (returnValue l v) := by
  apply Flows.get_bind
  intro f
  split
  · exact ret_leaves (by simp)
  · apply (Sound.write (.plain _)).bind_flows
    exact fun null => ret_leaves (by simp)
  · have start : Sound s (fun v => f.Uses v ∨ U v) (v.elim (nullValue .void) pure)
        fun v => [v.value] := by
      cases v with
      | none => exact nullValue_sound _
      | some x => exact .pure (by simp [h x rfl])
    apply start.bind_flows
    intro x
    have last (target : Info) : Leaves s (fun v => v ∈ [x.value] ∨ f.Uses v ∨ U v) (do
        let p ← l.coerced x target
        Draft.ret (some p) : Emit Unit) :=
      (hl.coerced _ (by simp)).bind_flows fun _ => ret_leaves (by simp)
    dsimp only
    split
    · refine Flows.bind ?_ fun _ => last _
      exact .modify (fun _ => ⟨rfl, rfl, rfl, rfl⟩) (fun _ => rfl) (fun _ => rfl) (fun _ => rfl)
        (fun _ declares => declares) (fun _ _ typed => typed) fun f v isUsed =>
          .inl (isUsed.of_same rfl rfl rfl)
    · exact last _

/-! ## All statements -/

/-- One case per kind of statement. -/
theorem stmtKind_flows (hl : l.Sound s) (kind : StmtKind) : Flows s U (stmtKind l kind) := by
  cases kind with
  | bind decl init => exact (bind_stays hl _ _).any
  | expr e => exact (hl.expr e).discard.stays.any
  | ret v =>
    apply (Sound.optionMapM _ v fun e _ => hl.expr e).bind_flows
    intro result
    exact (returnValue_leaves hl fun x isResult => .inl (by simp [isResult])).any
  | branch cond thenStmts elseStmts => exact branch_flows hl _ _ _
  | loop cond body => exact loop_flows hl _ _
  | block body => exact nested_flows hl _
  | function d => exact (Flows.pure _).any
  | classDecl d => exact (initializeStatics_sound hl d).stays.any

theorem stmt_flows (hl : l.Sound s) (id : StmtId) : Flows s U (stmt l id) :=
  Sound.program.bind_flows fun _ => (stmtKind_flows hl _).locate

/-- What follows a statement that leaves the block is not compiled. -/
theorem stmts_of_closed (ids : List StmtId) (closed : f.draft.isClosed = true) :
    stmts l ids f s w = .ok (⟨⟩, f) w := by
  cases ids with
  | nil => rfl
  | cons id rest =>
    change (if f.draft.isClosed then pure ⟨⟩ else stmt l id >>= fun _ => stmts l rest : Emit Unit)
      f s w = _
    simp only [closed, if_true]
    rfl

theorem stmts_flows (hl : l.Sound s) (ids : List StmtId) : Flows s U (stmts l ids) := by
  induction ids with
  | nil => exact (Flows.pure _).any
  | cons id rest ih =>
    refine ⟨fun {w w' f f' g a} stands uses ran => ?_⟩
    obtain ⟨_, f₁, w₁, ran₁, ran⟩ := of_bind_ok ran
    cases ran₁
    simp only [stands.isOpen.isClosed, Bool.false_eq_true, if_false] at ran
    obtain ⟨_, f₁, w₁, ran₁, ran⟩ := of_bind_ok ran
    obtain ⟨g₁, flowed, _⟩ := (stmt_flows hl id (U := U)).flows stands uses ran₁
    cases closed : f₁.draft.isClosed with
    | true =>
      rw [stmts_of_closed rest closed] at ran
      cases ran
      exact ⟨g₁, flowed, trivial⟩
    | false =>
      obtain ⟨g₂, flowed', _⟩ := ih.flows (flowed.stands stands.grounded closed)
        (fun v used => flowed.keeps closed (uses v used)) ran
      exact ⟨g₂, flowed.trans closed flowed', trivial⟩

theorem Stays.filterMapM {α β : Type} {f : α → Emit (Option β)} (h : ∀ a, Stays s U (f a))
    (as : List α) : Stays s U (as.filterMapM f) := by
  induction as with
  | nil => exact .pure _
  | cons a rest ih =>
    rw [List.filterMapM_cons]
    apply (h a).bind
    intro found
    cases found with
    | none => exact ih
    | some b => exact Flows.bind ih fun _ => .pure _

/-- A function that is bound is one that a statement declares. -/
theorem hoist_stays (body : List StmtId) : Stays s U (hoist body) := by
  have bound (d : DeclId) {b : Binding} (isDecl : b.isDeclaration = true)
      (named : ∀ d, b = .function d → s.program.Named d) : Stays s U (do
      bindName (← Compile.asks (·.decl d)).name b
      return some d : Emit (Option DeclId)) := by
    apply (Sound.asks _).bind_flows
    intro decl
    apply ((bindName_stays _ isDecl named).mono fun _ used => .inr used).bind
    exact fun _ => .pure _
  apply Stays.filterMapM
  intro id
  apply Flows.program
  split
  · rename_i d declares
    refine bound d rfl ?_
    rintro _ ⟨⟩
    exact .declared declares
  · exact bound _ rfl (by rintro d ⟨⟩)
  · exact .pure _

theorem openBlock_stays (decls : List DeclId) : Stays s U (openBlock decls) :=
  (recordSites_sound _).stays.bind fun _ => .modify (fun _ => ⟨rfl, rfl, rfl, rfl⟩) (fun _ => rfl)
    (fun _ => rfl) (fun _ => rfl) (fun _ declares => declares) (fun _ _ typed => typed)
    fun _ _ isUsed => .inl (isUsed.of_same rfl rfl rfl)

/-- A block of statements. -/
theorem block_flows (hl : l.Sound s) (body : List StmtId) : Flows s U (block l body) := by
  apply (hoist_stays body).bind
  intro decls
  apply (openBlock_stays decls).bind
  intro _
  refine ⟨fun {w w' f f' g a} stands uses ran => ?_⟩
  obtain ⟨_, f₁, w₁, ran₁, ran⟩ := of_bind_ok ran
  cases ran
  obtain ⟨g', flowed, _⟩ := (stmts_flows hl body (U := U)).flows stands uses ran₁
  refine ⟨g', flowed.reframe ⟨rfl, rfl, rfl, rfl⟩ rfl rfl rfl flowed.declares flowed.typed
    fun isOpen v isUsed => ?_, trivial⟩
  exact (flowed.stands stands.grounded isOpen).holds v (isUsed.of_same rfl rfl rfl)

end Emit

end ShapeCompiler
