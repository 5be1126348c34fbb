import ShapeCompiler.Proofs.NewVariables

/-!
# The code of statements

What the compiler writes for statements does what they mean: `Setting.Adds`, by induction on the
statements that a first-order program may have.
-/

namespace ShapeCompiler

open Source Code Work Machine
open Source.Program (AmbientCall)

variable {S : Setting} {x y : Stage} {f f' f₀ f₁ g : Frame} {w w' w₀ w₁ : Work} {Δ : Layout}
  {vars : Variables}
  {level depth : Nat}

/-- What is executed, compiled. -/
def Source.Program.Part.emit (l : Lowering) : Program.Part → Emit Unit
  | .stmt kind => Emit.stmtKind l kind
  | .stmts ids => Emit.stmts l ids

/-- What the statement or the statements do. -/
def Setting.Means (S : Setting) (part : Program.Part) (vars : Variables) (calls : List AmbientCall)
    (vars' : Variables) : Prop := S.setup.program.Executes vars part calls vars'

namespace Setting

/-! ## Branches -/

theorem Scene.moved (h : S.Scene level Δ f w) (d : Draft) (b : BlockId) :
    S.Scene level Δ (f.moved d b) w :=
  h.draft _

/-- A run leaves its block for some code, and the end of that code for another block. -/
theorem Segment.through {E : Variables → List AmbientCall → Variables → Prop} {d d' : Draft}
    {t b p : BlockId}
    {e : Exit} (segment : S.Segment Δ Δ E (g.moved d t) w f w') (visits : x.Visits S f₁ w₁ Δ vars)
    (leads : e.LeadsTo x.values t) (before : (f₁.draft.closed x.place e).Extends d)
    (waits : d.Waits t)
    (isOpen : f.draft.Open p) (behind : (f.draft.closed p (.br b)).Extends d') (waits' : d'.Waits b)
    (g' : Frame) (w'' : Work) : x.Comes S (g'.moved d' b) w'' Δ (E vars) := by
  obtain ⟨y, visitsY, -, enters⟩ := visits.enters leads before waits g w
  have grown : f.draft.Extends (g'.moved d' b).draft :=
    ((isOpen.extends_closed _).trans behind).trans (d'.extends_moved b)
  refine ((segment.comes y vars visitsY).leave grown fun z vars' visitsZ => ?_).after enters ?_
  · obtain rfl := visitsZ.place isOpen
    obtain ⟨z', visits', -, leaves⟩ := visitsZ.enters (.br b) behind waits' g' w''
    exact ⟨z', 0, visits', leaves⟩
  · rw [visitsY.frame]
    exact segment.grown.trans grown

/-- The test is compiled, then one block and the other, and control comes together behind them. -/
theorem branch_keeps {cond : ExprId} {yes no : List StmtId} {τ : Prim}
    (ofType : S.setup.program.HasType (Layout.typing Δ) (S.setup.program.expr cond).kind τ)
    (taken : S.Keeps level Δ (Emit.nested (.ofDepth depth) yes) (S.Means (.stmt (.block yes))))
    (passed : S.Keeps level Δ (Emit.nested (.ofDepth depth) no) (S.Means (.stmt (.block no)))) :
    S.Keeps level Δ (Emit.branch (.ofDepth depth) cond yes no)
    (S.Means (.stmt (.branch cond yes no))) := by
  rintro f₀ w₀ f w scene ⟨x, vars, visits⟩ ran later
  have walks (body : List StmtId) := Emit.nested_walks
    (Lowering.ofDepth_walks (s := S.setup) depth) body
  obtain ⟨c, f₁, test, scene₁, ran₁⟩ := of_test_ok scene visits ofType ran
  obtain ⟨v, vars₁, gives⟩ := visits.evaluates ofType
  obtain ⟨x₁, _, _, visits₁, -, -⟩ := test.comes x vars v vars₁ visits gives
  have isOpen₁ := visits₁.isOpen
  obtain ⟨t, u, b, d, exits, ran₂⟩ := Emit.of_blocks_ok (e :=
    fun t u _ => .condBr c t u) isOpen₁ ran₁
  obtain ⟨apart, apart'⟩ : (t ≠ u ∧ t ≠ b) ∧ u ≠ b := by simpa using exits.nodup
  obtain ⟨waitsT, waitsU, waitsB⟩ : d.Waits t ∧ d.Waits u ∧ d.Waits b := by simpa using exits.waits
  have grown₁ : f₁.draft.Extends d := (isOpen₁.extends_closed _).trans exits.grown
  -- the first block
  have visits₂ := visits₁.placed (f₁.moved d t) waitsT.opens (grown₁.trans (d.extends_moved t)) w₀
  obtain ⟨f₂, w₂, p₂, segment₂, scene₂, isOpen₂, ran₃⟩ := taken.of_exit_ok (scene₁.moved d t)
    ⟨_, _, visits₂⟩ (walks yes) (.draft_bind fun _ => .bind (walks no) fun _ =>
      .bind (Emit.brUnlessClosed_walks _) fun _ => .draft _) ran₂ later
  let d₂ := f₂.draft.closed p₂ (.br b)
  have waitsU₂ : d₂.Waits u := (segment₂.waits u (waitsU.moved apart.1.symm)).closed isOpen₂ _
  have waitsB₂ : d₂.Waits b := (segment₂.waits b (waitsB.moved apart.2.symm)).closed isOpen₂ _
  have grown₂ : d.Extends d₂ := ((d.extends_moved t).trans segment₂.grown).trans
    (isOpen₂.extends_closed _)
  -- the second block
  have visits₄ := visits₁.placed (f₂.moved d₂ u) waitsU₂.opens
    ((grown₁.trans grown₂).trans (d₂.extends_moved u)) w₂
  obtain ⟨f₄, w₄, p₄, segment₄, scene₄, isOpen₄, ran₅⟩ := passed.of_exit_ok (scene₂.moved d₂ u)
    ⟨_, _, visits₄⟩ (walks no) (.draft _) ran₃ later
  let d₄ := f₄.draft.closed p₄ (.br b)
  have waitsB₄ : d₄.Waits b := (segment₄.waits b (waitsB₂.moved apart'.symm)).closed isOpen₄ _
  have grown₄ : d₂.Extends d₄ := ((d₂.extends_moved u).trans segment₄.grown).trans
    (isOpen₄.extends_closed _)
  cases ran₅
  have grown : f₁.draft.Extends (d₄.moved b) :=
    ((grown₁.trans grown₂).trans grown₄).trans (d₄.extends_moved b)
  refine ⟨scene₄.moved d₄ b, test.grown.trans grown, fun c waits => ?_, fun x vars visits => ?_,
    fun x vars visits => ?_⟩
  · obtain ⟨isOther, waits₁⟩ := exits.others c (test.waits c waits)
    obtain ⟨otherT, otherU, otherB⟩ : c ≠ t ∧ c ≠ u ∧ c ≠ b := by simpa using isOther
    have waits₂ := (segment₂.waits c (waits₁.moved otherT)).closed isOpen₂ (.br b)
    exact ((segment₄.waits c (waits₂.moved otherU)).closed isOpen₄ (.br b)).moved otherB
  · obtain ⟨v, vars₁, gives⟩ := visits.evaluates ofType
    obtain ⟨z, _, _, visitsZ, -, advances⟩ := test.comes x vars v vars₁ visits gives
    exact ⟨_, vars₁, visitsZ.placed (f₄.moved d₄ b) waitsB₄.opens grown w,
      advances.retains.trans (visitsZ.retains_placed waitsB₄.opens grown w)⟩
  · obtain ⟨v, vars₁, gives⟩ := visits.evaluates ofType
    refine (Stage.Comes.of_cases ⟨(v, vars₁), gives⟩ ?_).congr fun _ _ =>
      Program.executes_branch.symm
    rintro ⟨v, vars₁⟩ gives
    obtain ⟨z, _, _, visitsZ, known, advances⟩ := test.comes x vars v vars₁ visits gives
    refine Stage.Comes.after ?_ advances (visitsZ.frame ▸ grown)
    have before := exits.grown
    rw [← visitsZ.place isOpen₁] at before
    cases isTrue : v.truthy with
    | true =>
      rw [isTrue] at known
      simp only [if_true]
      exact segment₂.through visitsZ (.taken known) before waitsT isOpen₂ grown₄ waitsB₄ f₄ w
    | false =>
      rw [isTrue] at known
      simp only [Bool.false_eq_true, if_false]
      exact segment₄.through visitsZ (.passed known) (before.trans grown₂) waitsU₂ isOpen₄
        (.refl _) waitsB₄ f₄ w

/-! ## Loops -/

section Loop

/- The test stands at the beginning of the block `t`. Where it gives true control goes to the block
`u` with the body, and from there back. -/

variable {d : Draft} {t u b p₁ p₂ : BlockId} {c : ValueId} {cond : ExprId}
  {body : List StmtId} {f₂ : Frame}
  {w₂ : Work} (test : S.Test Δ cond c (g.moved d t) w₀ f₁) (isOpen₁ : f₁.draft.Open p₁)
  (waitsU : (f₁.draft.closed p₁ (.condBr c u b)).Waits u)
  (segment : S.Segment Δ Δ (S.Means (.stmt (.block body)))
    (f₁.moved (f₁.draft.closed p₁ (.condBr c u b)) u) w₀ f₂ w₂) (isOpen₂ : f₂.draft.Open p₂)

include test isOpen₁ waitsU segment isOpen₂

/-- Where the test gives true and the body comes to no end, the run has never fuel enough. -/
theorem turn_starves {v : Scalar} {vars₁ : Variables} {fin : Draft}
    (grown : (f₂.draft.closed p₂ (.br t)).Extends fin) (visits : x.Visits S (g.moved d t) w₀ Δ vars)
    (gives : S.setup.program.Evaluates vars (S.setup.program.expr cond).kind v vars₁)
    (isTrue : v.truthy = true)
    (never : ¬∃ calls vars₂, S.Means (.stmt (.block body)) vars₁ calls vars₂) :
    x.point.Starves S.world fin := by
  obtain ⟨x₁, _, _, visits₁, known, tested⟩ := test.comes x vars v vars₁ visits gives
  rw [isTrue] at known
  obtain rfl := visits₁.place isOpen₁
  obtain ⟨y, visitsY, -, enters⟩ := visits₁.enters (.taken known) (.refl _) waitsU f₁ w₀
  have grown' : f₂.draft.Extends fin := (isOpen₂.extends_closed _).trans grown
  have isNext : y.frame.draft.Extends fin := visitsY.frame ▸ segment.grown.trans grown'
  exact (tested.trans enters).starves isNext (((segment.comes y vars₁ visitsY).stuck never).mono
    grown')

variable (waitsT : d.Waits t)

include waitsT

/-- Where the test gives true and the body comes to its end, the run is back before the test, and
has spent fuel. -/
theorem turn_reaches {v : Scalar} {vars₁ vars₂ : Variables} {calls : List AmbientCall} {fin : Draft}
    (grown : (f₂.draft.closed p₂ (.br t)).Extends fin) (visits : x.Visits S (g.moved d t) w₀ Δ vars)
    (gives : S.setup.program.Evaluates vars (S.setup.program.expr cond).kind v vars₁)
    (isTrue : v.truthy = true)
    (inner : S.Means (.stmt (.block body)) vars₁ calls vars₂) :
    ∃ (z : Stage) (units : Nat), 0 < units ∧
      z.Visits S (g.moved d t) w₀ Δ vars₂ ∧
      x.point.Reaches S.world fin units (AmbientCall.entries S.report calls) z.point ∧
      x.point.Retains z.point := by
  obtain ⟨x₁, units, some, visits₁, known, tested⟩ := test.comes x vars v vars₁ visits gives
  rw [isTrue] at known
  obtain rfl := visits₁.place isOpen₁
  obtain ⟨y, visitsY, -, enters⟩ := visits₁.enters (.taken known) (.refl _) waitsU f₁ w₀
  obtain ⟨y', more, visitsY', advances⟩ := (segment.comes y vars₁ visitsY).ends calls vars₂ inner
  obtain rfl := visitsY'.place isOpen₂
  obtain ⟨z, visitsZ, values, back⟩ := visitsY'.exits (.br t) grown waitsT visits.inside g w₀
  have there := (tested.trans enters).trans advances
  have grown' : y'.frame.draft.Extends fin := by
    rw [visitsY'.frame]
    exact (visitsY'.isOpen.extends_closed _).trans grown
  have size : x.frame.draft.values.size = z.frame.draft.values.size := by rw [visits.frame,
    visitsZ.frame]
  refine ⟨z, units + 0 + more + 0, by omega, visitsZ, ?_, Nat.le_of_eq size, fun v inside => ?_⟩
  · simpa using (there.reaches.mono grown').trans back
  · exact (congrFun values v).trans (there.kept v inside)

/-- From before the test of a loop the run goes on as the loop says. -/
theorem loop_comes {τ : Prim} (waitsB : (f₂.draft.closed p₂ (.br t)).Waits b)
    (ofType : S.setup.program.HasType (Layout.typing Δ) (S.setup.program.expr cond).kind τ)
    (visits : x.Visits S (g.moved d t) w₀ Δ vars) :
    x.Comes S (f₂.moved (f₂.draft.closed p₂ (.br t)) b) w₂ Δ
    (S.Means (.stmt (.loop cond body)) vars) := by
  have grown : (f₂.draft.closed p₂ (.br t)).Extends ((f₂.draft.closed p₂ (.br t)).moved b) :=
    Draft.extends_moved _ _
  have before : (f₁.draft.closed p₁ (.condBr c u b)).Extends (f₂.draft.closed p₂ (.br t)) :=
    ((Draft.extends_moved _ _).trans segment.grown).trans (isOpen₂.extends_closed _)
  refine ⟨fun calls vars' done => ?_, fun never => ?_⟩
  -- by induction on the turns
  · generalize isLoop : Program.Part.stmt (.loop cond body) = part at done
    change S.setup.program.Executes vars part calls vars' at done
    induction done generalizing x with
    | done | next | function | bind | expr | call | branch | block => cases isLoop
    | @stop vars vars' _ _ v gives isFalse =>
      cases isLoop
      obtain ⟨y, units, -, visitsY, known, tested⟩ := test.comes x vars v vars' visits gives
      rw [isFalse] at known
      obtain rfl := visitsY.place isOpen₁
      obtain ⟨z, visitsZ, -, leaves⟩ := visitsY.enters (.passed known) before waitsB f₂ w₂
      exact ⟨z, units + 0, visitsZ, tested.trans leaves⟩
    | @turn vars vars₁ vars₂ vars₃ _ _ v c₁ c₂ gives isTrue inner _ _ ih =>
      cases isLoop
      obtain ⟨y, units, _, visitsY, reaches, retains⟩ :=
        turn_reaches test isOpen₁ waitsU segment isOpen₂ waitsT
        grown visits gives isTrue (.block inner)
      obtain ⟨z, more, visitsZ, advances⟩ := ih visitsY rfl
      refine ⟨z, units + more, visitsZ, ?_⟩
      rw [AmbientCall.entries, List.flatMap_append]
      have sameDraft : y.frame.draft = x.frame.draft := by rw [visitsY.frame, visits.frame]
      have sameEnd : z.point.draft = (f₂.draft.closed p₂ (.br t)).moved b :=
        congrArg (·.draft) visitsZ.frame
      exact advances.turn sameDraft retains (sameEnd.symm ▸ reaches)
  -- each turn spends fuel
  · refine Point.starves_of_turns (P := fun q => ∃ (x : Stage) (vars : Variables), x.point = q ∧
      x.Visits S (g.moved d t) w₀ Δ vars ∧ ¬∃ calls vars',
        S.Means (.stmt (.loop cond body)) vars calls vars')
      ?_ ⟨x, vars, rfl, visits, never⟩
    rintro _ ⟨x, vars, rfl, visits, never⟩
    obtain ⟨v, vars₁, gives⟩ := visits.evaluates ofType
    cases isTrue : v.truthy with
    | false => exact absurd ⟨_, _, .stop gives isTrue⟩ never
    | true =>
      by_cases inner : ∃ calls vars₂, S.Means (.stmt (.block body)) vars₁ calls vars₂
      · obtain ⟨calls, vars₂, inner⟩ := inner
        obtain ⟨y, units, some, visitsY, reaches, -⟩ :=
          turn_reaches test isOpen₁ waitsU segment isOpen₂ waitsT
          grown visits gives isTrue inner
        refine .inr ⟨units, _, y.point, some, reaches, y, vars₂, rfl, visitsY, ?_⟩
        rintro ⟨calls', vars', again⟩
        obtain ⟨inside, executed, rfl⟩ := Program.executes_block.mp inner
        exact never ⟨_, _, .turn gives isTrue executed again⟩
      · exact .inl (turn_starves test isOpen₁ waitsU segment isOpen₂ grown visits
          gives isTrue inner)

end Loop

/-- The test is compiled, then the body, and from its end control goes back to the test. -/
theorem loop_keeps {cond : ExprId} {body : List StmtId} {τ : Prim}
    (ofType : S.setup.program.HasType (Layout.typing Δ) (S.setup.program.expr cond).kind τ)
    (inner : S.Keeps level Δ (Emit.nested (.ofDepth depth) body) (S.Means (.stmt (.block body)))) :
    S.Keeps level Δ (Emit.loop (.ofDepth depth) cond body) (S.Means (.stmt (.loop cond body))) := by
  rintro f₀ w₀ f w scene ⟨x, vars, visits⟩ ran later
  have isOpen₀ := visits.isOpen
  obtain ⟨t, u, b, d, exits, ran₁⟩ := Emit.of_blocks_ok (e := fun t _ _ => .br t) isOpen₀ ran
  obtain ⟨⟨apartU, apartB⟩, apart⟩ : (t ≠ u ∧ t ≠ b) ∧ u ≠ b := by simpa using exits.nodup
  obtain ⟨waitsT, waitsU, waitsB⟩ : d.Waits t ∧ d.Waits u ∧ d.Waits b := by simpa using exits.waits
  have grown₁ : f₀.draft.Extends (d.moved t) :=
    ((isOpen₀.extends_closed _).trans exits.grown).trans (d.extends_moved t)
  -- the test
  have visits₁ := visits.placed (f₀.moved d t) waitsT.opens grown₁ w₀
  obtain ⟨c, f₁, test, scene₁, ran₂⟩ := of_test_ok (scene.moved d t) visits₁ ofType ran₁
  obtain ⟨v, vars₁, gives⟩ := visits₁.evaluates ofType
  obtain ⟨x₁, _, _, visits₂, -, -⟩ := test.comes _ vars v vars₁ visits₁ gives
  have isOpen₁ := visits₂.isOpen
  rw [Draft.condBr, Emit.close_bind isOpen₁] at ran₂
  let d₁ := f₁.draft.closed x₁.place (.condBr c u b)
  have waitsU₁ : d₁.Waits u := (test.waits u (waitsU.moved apartU.symm)).closed isOpen₁ _
  have waitsB₁ : d₁.Waits b := (test.waits b (waitsB.moved apartB.symm)).closed isOpen₁ _
  have grown₂ : f₁.draft.Extends (d₁.moved u) :=
    (isOpen₁.extends_closed _).trans (d₁.extends_moved u)
  -- the body
  have visits₃ := visits₂.placed (f₁.moved d₁ u) waitsU₁.opens grown₂ w₀
  obtain ⟨f₂, w₂, p₂, segment, scene₂, isOpen₂, ran₃⟩ :=
    inner.of_exit_ok (scene₁.moved d₁ u) ⟨_, _, visits₃⟩
    (Emit.nested_walks (Lowering.ofDepth_walks depth) body) (.draft _) ran₂ later
  let d₂ := f₂.draft.closed p₂ (.br t)
  have waitsB₂ : d₂.Waits b := (segment.waits b (waitsB₁.moved apart.symm)).closed isOpen₂ _
  cases ran₃
  have grown : f₀.draft.Extends (d₂.moved b) := ((((grown₁.trans test.grown).trans grown₂).trans
    segment.grown).trans (isOpen₂.extends_closed _)).trans (d₂.extends_moved b)
  refine ⟨scene₂.moved d₂ b, grown, fun a waits => ?_, fun x vars visits => ?_,
    fun x vars visits => ?_⟩
  · obtain ⟨isOther, waits₁⟩ := exits.others a waits
    obtain ⟨otherT, otherU, otherB⟩ : a ≠ t ∧ a ≠ u ∧ a ≠ b := by simpa using isOther
    have waits₂ := (test.waits a (waits₁.moved otherT)).closed isOpen₁ (.condBr c u b)
    exact ((segment.waits a (waits₂.moved otherU)).closed isOpen₂ (.br t)).moved otherB
  · exact ⟨_, vars, visits.placed (f₂.moved d₂ b) waitsB₂.opens grown w,
      visits.retains_placed waitsB₂.opens grown w⟩
  · have before := exits.grown
    rw [← visits.place isOpen₀] at before
    obtain ⟨y, visitsY, -, enters⟩ := visits.enters (.br t) before waitsT f₀ w₀
    refine (loop_comes test isOpen₁ waitsU₁ segment isOpen₂ waitsT waitsB₂ ofType visitsY).after
      enters ?_
    rw [visitsY.frame]
    exact (test.grown.trans grown₂).trans
      ((segment.grown.trans (isOpen₂.extends_closed _)).trans (d₂.extends_moved b))

end Setting

/-! ## Blocks -/

/-- Functions are declared at the top only. -/
theorem Source.Program.Admits.declares_nothing {p : Program} {Γ Γ' : Typing} {kind : StmtKind}
    (h : p.Admits false Γ (.stmt kind) Γ') (d : DeclId) :
    kind ≠ .function d ∧ kind ≠ .classDecl d := by
  cases h <;> exact ⟨nofun, nofun⟩

namespace Emit

variable {s : Setup} {l : Lowering}

/-- In an inner block nothing is declared before it begins. -/
theorem of_hoist_ok {ids : List StmtId} {Γ Γ' : Typing} {decls : List DeclId}
    {f f' : Frame} {w w' : Work}
    (h : s.program.Admits false Γ (.stmts ids) Γ') (ran : hoist ids f s w = .ok (decls, f') w') :
    decls = [] ∧ f' = f ∧ w' = w := by
  induction ids generalizing Γ f w with
  | nil =>
    cases ran
    exact ⟨rfl, rfl, rfl⟩
  | cons id rest ih =>
    cases h with | next first others => ?_
    have nothing := first.declares_nothing
    rw [hoist, List.filterMapM_cons] at ran
    obtain ⟨found, f₁, w₁, looked, hoisted⟩ := of_bind_ok ran
    obtain ⟨_, _, _, asked, looked⟩ := of_bind_ok looked
    cases asked
    generalize (s.program.stmt id).kind = kind at looked nothing
    cases kind with
    | function d => exact absurd rfl (nothing d).1
    | classDecl d => exact absurd rfl (nothing d).2
    | _ =>
      cases looked
      exact ih others hoisted

/-- The statements of an inner block are compiled with one more block around, and what the block
binds is forgotten. -/
theorem of_nested_ok {body : List StmtId} {Γ Γ' : Typing} {f f' : Frame} {w w' : Work} {depth : Nat}
    (h : s.program.Admits false Γ (.stmts body) Γ')
    (ran : nested (.ofDepth depth) body f s w = .ok ((), f') w') : ∃ depth' f₁,
      stmts (.ofDepth depth') body { f with depth := f.depth + 1, hoisted := [] :: f.hoisted } s w =
      .ok ((), f₁) w' ∧
      f' = { f₁ with depth := f₁.depth - 1, scope := f.scope, hoisted := f₁.hoisted.tail } := by
  obtain ⟨_, _, _, asked, ran₁⟩ := of_bind_ok ran
  cases asked
  obtain ⟨_, _, _, deeper, ran₂⟩ := of_bind_ok ran₁
  cases deeper
  obtain ⟨_, f₁, w₁, inner, last⟩ := of_bind_ok ran₂
  cases last
  cases depth with
  | zero => cases inner
  | succ depth =>
    obtain ⟨decls, _, _, hoisted, ran₃⟩ := of_bind_ok inner
    obtain ⟨rfl, rfl, rfl⟩ := of_hoist_ok h hoisted
    obtain ⟨_, _, _, opened, ran₄⟩ := of_bind_ok ran₃
    cases opened
    obtain ⟨_, f₂, w₂, ran₅, closed⟩ := of_bind_ok ran₄
    cases closed
    exact ⟨depth, f₂, ran₅, rfl⟩

end Emit

namespace Setting

theorem nested_keeps {body : List StmtId} {Γ : Typing}
    (admits : S.setup.program.Admits false (Layout.typing Δ) (.stmts body) Γ)
    (inner : ∀ depth, S.Adds (level + 1) Δ Γ (Emit.stmts (.ofDepth depth) body)
    (S.Means (.stmts body))) :
    S.Keeps level Δ (Emit.nested (.ofDepth depth) body) (S.Means (.stmt (.block body))) := by
  rintro f₀ w₀ f w scene ⟨x, vars, visits⟩ ran later
  obtain ⟨depth', f₂, ran', rfl⟩ := Emit.of_nested_ok admits ran
  let f₁ : Frame := { f₀ with depth := f₀.depth + 1, hoisted := [] :: f₀.hoisted }
  have scene₁ : S.Scene (level + 1) Δ f₁ w₀ := { scene with depth := congrArg (· + 1) scene.depth }
  have visits₁ := visits.placed f₁ visits.isOpen (.refl _) w₀
  obtain ⟨new, typed, scene₂, segment⟩ := inner depth' f₁ w₀ f₂ w scene₁ ⟨_, _, visits₁⟩ ran' later
  have segment' : S.Segment Δ Δ _ f₀ w₀
      { f₂ with depth := f₂.depth - 1, scope := f₀.scope, hoisted := f₂.hoisted.tail } w :=
        segment.nested rfl rfl
  refine ⟨?_, segment'.congr fun _ _ _ => Program.executes_block.symm⟩
  exact {
    moment := scene₂.moment
    later := scene₂.later
    grounded := scene₂.grounded
    plain := scene₂.plain
    describes := scene.describes
    isEntry := scene₂.isEntry
    depth := by rw [scene₂.depth]; rfl
    below := fun e here => scene₂.below e (List.mem_append_right _ here) }

end Setting

/-! ## Simple statements -/

theorem Work.Later.globals_le {s : Setup} (h : Later s w w') :
    w.code.globals.size ≤ w'.code.globals.size := by
  by_contra fewer
  have inside : w'.code.globals.size < w.code.globals.size := by omega
  have known : w.code.global? ⟨w'.code.globals.size⟩ = some w.code.globals[w'.code.globals.size] :=
    Array.getElem?_eq_getElem inside
  have there := h.extends.code.global _ _ known
  simp [Code.Module.global?] at there

namespace Setting

/-- The compiler has gone on with the body, where all else stayed. -/
theorem Scene.follows (h : S.Scene level Δ f₀ w₀) (visits : x.Visits S f₀ w₀ Δ vars)
    (follows : x.Follows S.world y) : S.Scene level Δ y.frame w₀ := by
  refine h.of_draft ?_
  rw [← visits.frame]
  exact follows.frame

theorem function_keeps (d : DeclId) : S.Keeps level Δ (Emit.stmtKind (.ofDepth depth) (.function d))
    (S.Means (.stmt (.function d))) := by
  intro f₀ w₀ f w scene _ ran _
  cases ran
  exact ⟨scene, (Segment.refl _ _).congr fun _ _ _ => Program.executes_function.symm⟩

theorem expr_keeps {e : ExprId} {τ : Prim}
    (ofType : S.setup.program.HasType (Layout.typing Δ) (S.setup.program.expr e).kind τ) :
    S.Keeps level Δ (Emit.stmtKind (.ofDepth depth) (.expr e)) (S.Means (.stmt (.expr e))) := by
  rintro f₀ w₀ f w scene ⟨x, vars, visits⟩ ran _
  obtain ⟨a, ran'⟩ := Emit.of_discard_ok ran
  have each (x : Stage) (vars v vars') (visits : x.Visits S f₀ w₀ Δ vars)
      (gives : S.setup.program.Evaluates vars (S.setup.program.expr e).kind v vars') :
      ∃ z : Stage, z.Visits S f w Δ vars' ∧ x.Follows S.world z := by
    have ready := scene.ready visits
    obtain ⟨rfl, rfl, represents, upholds⟩ := visits
    obtain ⟨z, isFrame, isWork, follows, computes⟩ :=
      (Emit.exprKind_means ofType).at_level ready represents gives depth a f w ran'
    exact ⟨z, ⟨isFrame, isWork, computes.represents, computes.saves.upholds _ upholds⟩, follows⟩
  obtain ⟨v, vars', gives⟩ := visits.evaluates ofType
  obtain ⟨z, visitsZ, follows⟩ := each x vars v vars' visits gives
  obtain rfl : w = w₀ := visitsZ.work.symm.trans (follows.work.trans visits.work)
  refine ⟨visitsZ.frame ▸ scene.follows visits follows, .of_total ⟨x, vars, visits⟩ ?_ ?_⟩
  · intro x vars visits
    obtain ⟨v, vars', gives⟩ := visits.evaluates ofType
    exact ⟨[], vars', .expr gives⟩
  · intro x vars calls vars' visits done
    obtain ⟨v, gives, rfl⟩ := (Program.executes_expr ofType).mp done
    obtain ⟨z, visitsZ, follows⟩ := each x vars v vars' visits gives
    exact ⟨z, visitsZ, follows.reports⟩

/-- The call reaches the function that the module has for it. -/
theorem call_keeps {e callee : ExprId} {args : List ExprId} {target : Option DeclId}
    {d : DeclId} {decl : Decl}
    {τs : List Prim} (isCall : (S.setup.program.expr e).kind = .call callee args target)
    (isName : (S.setup.program.expr callee).kind = .ident decl.name)
    (free : Table.find? decl.name (Layout.typing Δ) = none)
    (declared : d ∈ S.setup.program.ambients)
    (isDecl : S.setup.program.decl d = .ok decl) (ambient : S.setup.program.Ambient d τs)
    (ofTypes : List.Forall₂
      (fun a τ => S.setup.program.HasType (Layout.typing Δ) (S.setup.program.expr a).kind τ) args
      τs) :
    S.Keeps level Δ (Emit.stmtKind (.ofDepth depth) (.expr e)) (S.Means (.stmt (.expr e))) := by
  rintro f₀ w₀ f w scene ⟨x, vars, visits⟩ ran later
  have walks := Emit.stmtKind_walks (Lowering.ofDepth_walks (s := S.setup) depth) (.expr e)
  obtain ⟨moment, grounded, later₀⟩ := scene.between walks ran
  obtain ⟨a, ran₁⟩ := Emit.of_discard_ok ran
  obtain ⟨depth', ran₂⟩ := Emit.of_level_ok ran₁
  rw [isCall] at ran₂
  have unbound : Table.find? decl.name Δ = none := by
    rw [Layout.find?_typing] at free
    exact Option.map_eq_none_iff.mp free
  have total (x : Stage) (vars) (visits : x.Visits S f₀ w₀ Δ vars) :
      ∃ vs vars', S.setup.program.EvaluatesAll vars args vs vars' :=
    Program.EvaluatesAll.exists ofTypes visits.represents.typing
  have each (x : Stage) (vars vs vars') (visits : x.Visits S f₀ w₀ Δ vars)
      (given : S.setup.program.EvaluatesAll vars args vs vars') :
      f = { f₀ with draft := f.draft } ∧ w.Plain S.setup ∧ ∃ z : Stage, z.Visits S f w Δ vars' ∧
        x.Reports S.world (S.report d vs) z := by
    have ready := scene.ready visits
    obtain ⟨rfl, rfl, represents, upholds⟩ := visits
    obtain ⟨isFrame, plain, func, fn, known, named, reaches⟩ :=
      Emit.ambientCall_reports (S.report d)
      S.resolver ready represents scene.plain isName unbound declared isDecl ambient
        ofTypes given ran₂
    obtain ⟨body, there, -⟩ := later.extends.code.function func fn known
    obtain ⟨z, isFrame', isWork, reports, represents', saves⟩ :=
      reaches (S.serves d τs func _ declared ambient there named)
    exact ⟨isFrame, plain, z, ⟨isFrame', isWork, represents', saves.upholds _ upholds⟩, reports⟩
  obtain ⟨vs, vars', given⟩ := total x vars visits
  obtain ⟨isFrame, plain, -⟩ := each x vars vs vars' visits given
  have means (x : Stage) (vars calls vars') (visits : x.Visits S f₀ w₀ Δ vars) :
      S.Means (.stmt (.expr e)) vars calls vars' ↔ ∃ vs,
        S.setup.program.EvaluatesAll vars args vs vars' ∧
        calls = [⟨d, vs⟩] := by
    refine Program.executes_call S.distinct isCall isName ?_ declared isDecl
    rw [← visits.represents.typing, Variables.find?_typing] at free
    exact Option.map_eq_none_iff.mp free
  refine ⟨?_, .of_total ⟨x, vars, visits⟩ ?_ ?_⟩
  · have scene' := scene.of_draft isFrame
    exact { scene' with
      moment := moment
      later := later
      grounded := grounded
      plain := plain
      below := fun e here => (scene.below e here).mono later₀.globals_le }
  · intro x vars visits
    obtain ⟨vs, vars', given⟩ := total x vars visits
    exact ⟨_, vars', (means x vars _ vars' visits).mpr ⟨vs, given, rfl⟩⟩
  · intro x vars calls vars' visits done
    obtain ⟨vs, given, rfl⟩ := (means x vars calls vars' visits).mp done
    obtain ⟨-, -, z, visitsZ, reports⟩ := each x vars vs vars' visits given
    exact ⟨z, visitsZ, by simpa [AmbientCall.entries] using reports⟩

end Setting

/-! ## Declarations of variables -/

namespace Emit

variable {s : Setup}

theorem recordSites_code {ds : List DeclId} (ran : recordSites ds f s w = .ok ((), f') w') :
    f' = f ∧ w'.code = w.code := by
  obtain ⟨site, f₁, w₁, asked, ran₁⟩ := of_bind_ok ran
  cases asked
  clear ran
  induction ds generalizing w with
  | nil =>
    cases ran₁
    exact ⟨rfl, rfl⟩
  | cons d ds ih =>
    obtain ⟨_, _, _, recorded, others⟩ := of_bind_ok ran₁
    cases recorded
    obtain ⟨isFrame, isCode⟩ := ih others
    exact ⟨isFrame, isCode⟩

theorem of_refreshSites_ok (ran : refreshSites f s w = .ok ((), f') w') :
    f' = f ∧ w'.code = w.code := by
  obtain ⟨_, _, _, asked, ran₁⟩ := of_bind_ok ran
  cases asked
  exact recordSites_code ran₁

theorem of_infoOf_ok {t : TypeId} {τ : Prim} {info : Info} (isType : s.program.types.get t = τ.type)
    (ran : infoOf t f s w = .ok (info, f') w') : info = τ.info ∧ f' = f ∧ w' = w := by
  obtain ⟨_, _, _, asked, ran₁⟩ := of_bind_ok ran
  cases asked
  obtain ⟨rfl, known⟩ := of_lift_ok ran₁
  rw [Compile.infoOf_apply] at known
  obtain ⟨rfl, rfl⟩ := Compile.infoAt_scalar (Program.scalarInfo?_type isType) known
  exact ⟨rfl, rfl, rfl⟩

/-- A variable has the type of its first value, which may be declared. -/
theorem of_declared_ok {ty : Option TypeId} {τ : Prim} {declared : Option Info}
    (annotated : ∀ t, ty = some t → s.program.types.get t = τ.type)
    (ran : ty.mapM infoOf f s w = .ok (declared, f') w') :
    variableInfo declared τ.info = τ.info ∧ f' = f ∧ w' = w := by
  cases ty with
  | none =>
    cases ran
    exact ⟨by cases τ <;> rfl, rfl, rfl⟩
  | some t =>
    change (some <$> infoOf t) f s w = _ at ran
    rw [← bind_pure_comp] at ran
    obtain ⟨info, _, _, known, last⟩ := of_bind_ok ran
    cases last
    obtain ⟨rfl, rfl, rfl⟩ := of_infoOf_ok (annotated t rfl) known
    exact ⟨by cases τ <;> rfl, rfl, rfl⟩

/-- A variable is declared: its first value is computed and put into a box. -/
theorem of_declaration_ok {l : Lowering} {d : DeclId} {e : ExprId} {decl : Decl}
    {ty : Option TypeId} {τ : Prim}
    (isDecl : s.program.decl d = .ok decl) (isBinding : decl.kind = .binding ty)
    (annotated : ∀ t, ty = some t → s.program.types.get t = τ.type)
    (ran : bind l d (some e) f s w = .ok ((), f') w') : ∃ declared a f₁ w₁ p f₂ w₂,
      variableInfo declared τ.info = τ.info ∧ l.expr e f s w = .ok (a, f₁) w₁ ∧
      l.coerced a (variableInfo declared a.info) f₁ s w₁ = .ok (p, f₂) w₂ ∧
      (do newVariable d decl.name (variableInfo declared a.info) p; refreshSites) f₂ s w₂ =
      .ok ((), f') w' := by
  obtain ⟨_, _, _, asked, ran₁⟩ := of_bind_ok ran
  obtain ⟨rfl, rfl, isDecl'⟩ := of_asks_ok asked
  cases isDecl.symm.trans isDecl'
  rw [isBinding] at ran₁
  obtain ⟨declared, _, _, looked, ran₂⟩ := of_bind_ok ran₁
  obtain ⟨isInfo, rfl, rfl⟩ := of_declared_ok annotated looked
  obtain ⟨a, f₁, w₁, computed, ran₃⟩ := of_bind_ok ran₂
  obtain ⟨p, f₂, w₂, coerced, ran₄⟩ := of_bind_ok ran₃
  exact ⟨declared, a, f₁, w₁, p, f₂, w₂, isInfo, computed, coerced, ran₄⟩

end Emit

namespace Setting

theorem bind_adds {d : DeclId} {e : ExprId} {decl : Decl} {ty : Option TypeId} {τ : Prim}
    (isDecl : S.setup.program.decl d = .ok decl) (isBinding : decl.kind = .binding ty)
    (annotated : ∀ t, ty = some t → S.setup.program.types.get t = τ.type)
    (start : S.setup.program.HasType (Layout.typing Δ) (S.setup.program.expr e).kind τ) :
    S.Adds level Δ ((decl.name, τ) :: Layout.typing Δ)
    (Emit.stmtKind (.ofDepth depth) (.bind d (some e)))
      (S.Means (.stmt (.bind d (some e)))) := by
  rintro f₀ w₀ f w scene ⟨x, vars, visits⟩ ran later
  have walks := Emit.stmtKind_walks (Lowering.ofDepth_walks (s := S.setup) depth) (.bind d (some e))
  obtain ⟨moment, grounded, later₀⟩ := scene.between walks ran
  obtain ⟨declared, a, f₁, w₁, p, f₂, w₂, isInfo, computed, coerced, rest⟩ :=
    Emit.of_declaration_ok isDecl isBinding annotated ran
  have each (x : Stage) (vars v vars') (visits : x.Visits S f₀ w₀ Δ vars)
      (gives : S.setup.program.Evaluates vars (S.setup.program.expr e).kind v vars') :
      a.info = τ.info ∧ v.prim = τ ∧ ∃ z : Stage, z.Visits S f₂ w₂ Δ vars' ∧ x.Follows S.world z ∧
        Emit.Boxes [] v p z := by
    have ready := scene.ready visits
    obtain ⟨rfl, rfl, represents, upholds⟩ := visits
    obtain ⟨y, rfl, rfl, follows, computes⟩ :=
      (Emit.exprKind_means start).at_level ready represents gives depth a f₁ w₁ computed
    have info := computes.denotes.info
    rw [info, isInfo] at coerced
    obtain ⟨z, isFrame, isWork, follows', boxes, keeps⟩ :=
      Emit.coerced_takes depth (ready.follows follows)
      computes.represents computes.denotes p f₂ w₂ coerced
    refine ⟨info, computes.denotes.prim, z, ⟨isFrame, isWork, ?_, ?_⟩,
      follows.trans follows', boxes⟩
    · exact follows'.represents computes.represents keeps
    · exact (computes.saves.upholds _ upholds).keeps keeps
  obtain ⟨v, vars', gives⟩ := visits.evaluates start
  obtain ⟨info, -, z, visitsZ, follows, j, isBox, -⟩ := each x vars v vars' visits gives
  rw [info, isInfo] at rest
  have scene₂ : S.Scene level Δ f₂ w₂ := by
    obtain rfl : w₂ = w₀ := visitsZ.work.symm.trans (follows.work.trans visits.work)
    exact visitsZ.frame ▸ scene.follows visits follows
  obtain ⟨f₃, w₃, bound, later₃, refreshed⟩ := between_ok scene₂ (Emit.newVariable_walks _ _ _ _)
    Emit.refreshSites_walks rest later
  obtain ⟨rfl, isCode⟩ := Emit.of_refreshSites_ok refreshed
  obtain ⟨home, binds, makes⟩ := Emit.newVariable_binds scene₂
    ⟨z, vars', visitsZ, _, isBox⟩ bound later₃
  refine ⟨[(decl.name, home, τ)], rfl, ?_, ?_⟩
  · exact {
      moment := moment
      later := later
      grounded := grounded
      plain := scene₂.plain.of_functions (isCode ▸ binds.functions)
      describes := scene₂.describes.bind binds.bindings
      isEntry := by rw [binds.frame]; exact scene₂.isEntry
      depth := by rw [binds.frame]; exact scene₂.depth
      below := by
        refine List.forall_mem_cons.mpr ⟨isCode ▸ binds.below, fun e here => ?_⟩
        exact (scene.below e here).mono later₀.globals_le }
  · refine .of_total ⟨x, vars, visits⟩ ?_ ?_
    · intro x vars visits
      obtain ⟨v, vars', gives⟩ := visits.evaluates start
      exact ⟨[], _, .bind isDecl gives⟩
    · intro x vars calls vars' visits done
      obtain ⟨v, vars₁, gives, rfl, rfl⟩ := (Program.executes_bind isDecl).mp done
      obtain ⟨-, isPrim, z, visitsZ, follows, boxes⟩ := each x vars v vars₁ visits gives
      obtain ⟨z', visits', reports⟩ := makes z vars₁ v visitsZ boxes isPrim
      have there := follows.reports.trans reports
      exact ⟨z'.later w, ⟨visits'.frame, rfl, visits'.represents, visits'.upholds⟩,
        there.waits, there.point⟩

/-! ## All statements -/

/-- Statements one after the other. -/
theorem next_adds {id : StmtId} {rest : List StmtId} {Γ₁ Γ₂ : Typing}
    (first : S.Adds level Δ Γ₁ (Emit.stmtKind (.ofDepth depth) (S.setup.program.stmt id).kind)
      (S.Means (.stmt (S.setup.program.stmt id).kind)))
    (others : ∀ Δ', Layout.typing Δ' = Γ₁ →
      S.Adds level Δ' Γ₂ (Emit.stmts (.ofDepth depth) rest) (S.Means (.stmts rest))) :
    S.Adds level Δ Γ₂ (Emit.stmts (.ofDepth depth) (id :: rest))
    (S.Means (.stmts (id :: rest))) := by
  rintro f₀ w₀ f w scene ⟨x, vars, visits⟩ ran later
  have hl := Lowering.ofDepth_walks (s := S.setup) depth
  obtain ⟨_, _, _, asked, ran₁⟩ := Emit.of_bind_ok ran
  cases asked
  rw [visits.isOpen.isClosed] at ran₁
  obtain ⟨f₁, w₁, ran₂, later₁, ran₃⟩ := between_ok scene (Emit.stmt_walks hl id)
    (Emit.stmts_walks hl rest)
    ran₁ later
  obtain ⟨_, _, _, asked, ran₄⟩ := Emit.of_bind_ok ran₂
  cases asked
  obtain ⟨inner, typed, scene₁, segment⟩ :=
    first f₀ w₀ f₁ w₁ scene ⟨x, vars, visits⟩ (Emit.of_locate_ok ran₄) later₁
  obtain ⟨y, vars₁, visits₁, -⟩ := segment.possible x vars visits
  obtain ⟨inner', typed', scene₂, segment'⟩ :=
    others _ typed f₁ w₁ f w scene₁ ⟨y, vars₁, visits₁⟩ ran₃ later
  rw [← List.append_assoc] at typed' scene₂ segment'
  exact ⟨inner' ++ inner, typed', scene₂, (segment.trans segment').congr fun _ _ _ =>
    Program.executes_next.symm⟩

/-- What may be executed is compiled to what it means, by induction on its form. -/
theorem admitted_adds {part : Program.Part} {top : Bool} {Γ Γ' : Typing}
    (admits : S.setup.program.Admits top Γ part Γ') :
    ∀ {level depth : Nat} {Δ : Layout}, top = decide (level = 0) → Layout.typing Δ = Γ →
      S.Adds level Δ Γ' (part.emit (.ofDepth depth)) (S.Means part) := by
  have inside {level depth : Nat} {Δ : Layout} {body : List StmtId} {Γ : Typing}
      (admits : S.setup.program.Admits false (Layout.typing Δ) (.stmts body) Γ)
      (ih : ∀ {level depth : Nat} {Δ' : Layout}, false = decide (level = 0) →
        Layout.typing Δ' = Layout.typing Δ →
        S.Adds level Δ' Γ (Emit.stmts (.ofDepth depth) body) (S.Means (.stmts body))) :
      S.Keeps level Δ (Emit.nested (.ofDepth depth) body) (S.Means (.stmt (.block body))) :=
    nested_keeps admits fun _ => ih (by simp) rfl
  induction admits with
  | done =>
    rintro level depth Δ - rfl f₀ w₀ f w scene - ran -
    cases ran
    exact ⟨[], rfl, scene, (Segment.refl _ _).congr fun _ _ _ => Program.executes_done.symm⟩
  | next _ _ first others =>
    intro level depth Δ isTop typed
    exact next_adds (first isTop typed) fun Δ' typed' => others isTop typed'
  | @function _ d =>
    rintro level depth Δ - rfl
    have keeps : S.Keeps level Δ (Emit.stmtKind (.ofDepth depth) (.function d)) _ :=
      function_keeps d
    exact keeps.adds
  | bind isDecl isBinding annotated start =>
    rintro level depth Δ - rfl
    exact bind_adds isDecl isBinding annotated start
  | expr ofType =>
    rintro level depth Δ - rfl
    exact (expr_keeps ofType).adds
  | call isCall isName free declared isDecl ambient ofTypes =>
    rintro level depth Δ - rfl
    exact (call_keeps isCall isName free declared isDecl ambient ofTypes).adds
  | branch ofType taken passed ih ih' =>
    rintro level depth Δ - rfl
    exact (branch_keeps ofType (inside taken ih) (inside passed ih')).adds
  | loop ofType inner ih =>
    rintro level depth Δ - rfl
    exact (loop_keeps ofType (inside inner ih)).adds
  | block inner ih =>
    rintro level depth Δ - rfl
    exact (inside inner ih).adds

end Setting

end ShapeCompiler
