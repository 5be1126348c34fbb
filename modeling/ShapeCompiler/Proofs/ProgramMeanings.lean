import ShapeCompiler.Proofs.Evaluators
import ShapeCompiler.Proofs.NewInstances
import ShapeCompiler.Proofs.StatementMeanings

/-!
# Compilation preserves meaning

A first-order program that is compiled does what it means when it is run: it makes the calls of its
meaning, in their order, and comes to its end or runs out of fuel.

* `Emit.of_hoist_ambients`: before the statements at the top begin, the names of the functions from
  outside are bound;
* `Machine.Image.Supplies`: hosts that log what they are called with;
* `Setting.Segment.runs`: a body that is nothing but the code for a meaning;
* `compilation_preserves_meaning`: the run of the module.
-/

namespace ShapeCompiler

open Source Code Work Machine
open Source.Program (AmbientCall)

/-! ## Declarations of functions -/

namespace Source.Program

variable {p : Program} {Γ Γ' : Typing} {kind : StmtKind}

/-- There are no classes. -/
theorem Admits.not_classDecl {top : Bool} (h : p.Admits top Γ (.stmt kind) Γ') (d : DeclId) :
    kind ≠ .classDecl d := by
  cases h <;> exact nofun

theorem functionsOf_cons (id : StmtId) (rest : List StmtId) :
    p.functionsOf (id :: rest) = match (p.stmt id).kind with
      | .function d => d :: p.functionsOf rest
      | _ => p.functionsOf rest := by
  rw [functionsOf, List.filterMap_cons]
  cases (p.stmt id).kind <;> rfl

end Source.Program

namespace Emit

variable {s : Setup}

/-- The names of the functions that some statements declare are bound, and nothing else is done. -/
theorem of_hoist_ambients {ids : List StmtId} {Γ Γ' : Typing} {decls : List DeclId}
    {f f' : Frame} {w w' : Work}
    (h : s.program.Admits true Γ (.stmts ids) Γ')
    (distinct : ((s.program.functionsOf ids).map s.program.declName).Nodup)
    (ran : hoist ids f s w = .ok (decls, f') w') :
    f' = { f with scope := f'.scope } ∧ w'.code = w.code ∧
      (∀ d decl, d ∈ s.program.functionsOf ids → s.program.decl d = .ok decl →
        f'.scope.lookup decl.name = some (.function d)) ∧
      ∀ n, s.program.text n ∉ (s.program.functionsOf ids).map s.program.declName →
        f'.scope.lookup n = f.scope.lookup n := by
  induction ids generalizing Γ f w decls with
  | nil =>
    cases ran
    exact ⟨rfl, rfl, fun d decl declared => absurd declared List.not_mem_nil, fun _ _ => rfl⟩
  | cons id rest ih =>
    cases h with | next first others => ?_
    have notClass := first.not_classDecl
    rw [hoist, List.filterMapM_cons] at ran
    obtain ⟨found, f₁, w₁, looked, hoisted⟩ := of_bind_ok ran
    obtain ⟨_, _, _, asked, looked⟩ := of_bind_ok looked
    cases asked
    rw [Program.functionsOf_cons] at distinct ⊢
    generalize (s.program.stmt id).kind = kind at looked notClass distinct
    cases kind with
    | function d =>
      obtain ⟨decl, _, _, asked, bound⟩ := of_bind_ok looked
      obtain ⟨rfl, rfl, isDecl⟩ := of_asks_ok asked
      obtain ⟨_, f₂, w₂, bound, last⟩ := of_bind_ok bound
      obtain ⟨isFrame, isCode⟩ := of_bindName_ok bound
      cases last
      obtain ⟨_, f₃, w₃, ran₁, last⟩ := of_bind_ok hoisted
      cases last
      obtain ⟨isNew, distinct⟩ := List.nodup_cons.mp distinct
      obtain ⟨isFrame', isCode', functions, stays⟩ := ih others distinct ran₁
      rw [Program.declName_of_decl isDecl] at isNew
      have lookup (n : Name) : f₁.scope.lookup n =
          if decl.name = n then some (.function d) else f.scope.lookup n := by
        rw [isFrame]
        exact Table.get?_insert f.scope.bindings decl.name n (.function d)
      refine ⟨?_, isCode'.trans isCode, fun d' decl' declared isDecl' => ?_, fun n apart => ?_⟩
      · rw [isFrame', isFrame]
      · rcases List.mem_cons.mp declared with rfl | declared
        · cases isDecl.symm.trans isDecl'
          rw [stays _ isNew, lookup, if_pos rfl]
        · exact functions d' decl' declared isDecl'
      · rw [List.map_cons, List.mem_cons, not_or, Program.declName_of_decl isDecl] at apart
        rw [stays n apart.2, lookup, if_neg fun same => apart.1 (congrArg _ same.symm)]
    | classDecl d => exact absurd rfl (notClass d)
    | _ =>
      cases looked
      exact ih others distinct hoisted

end Emit

/-! ## Hosts -/

/-- Called with the addresses of scalars of these types, the host logs what goes with them and
leaves what there is in memory. -/
def Machine.Host.Reports (host : Host) (τs : List Prim) (report : List Scalar → List Entry) :
    Prop :=
  ∀ (mem : Memory) (args : List Value) (vs : List Scalar), vs.map Scalar.prim = τs →
    List.Forall₂ (fun a v => mem.load a = .ok (Scalar.value v)) args vs →
    ∃ val mem', mem.Keeps [] mem' ∧ ∀ (im : Image) (invoke : Invoke) (st : State), st.memory = mem →
      (host.act args).perform im invoke st =
        .ok val { st with memory := mem', log := st.log ++ (report vs).toArray }

/-- For each function from outside that the program declares there is a host that logs what goes
with its arguments. -/
def Machine.Image.Supplies (im : Image) (p : Program) (report : DeclId → List Scalar → List Entry) :
    Prop :=
  ∀ d ∈ p.ambients, ∀ τs, p.Ambient d τs → ∃ (id : HostId) (host : Host),
    im.hostNamed (p.declName d) = some id ∧ im.hosts[id.raw]? = some host ∧
      host.Reports τs (report d)

/-- What a host logs that logs its arguments with pointers followed. -/
def Source.Program.views (p : Program) (d : DeclId) (vs : List Scalar) : List Entry :=
  [.values (p.declName d) (vs.map fun v => .target (.value v.value))]

namespace Machine

/-- A scalar in a box is shown behind a pointer. -/
theorem View.ofValue_boxes {mem : Memory} {args : List Value} {vs : List Scalar} (depth : Nat)
    (loads : List.Forall₂ (fun a v => mem.load a = .ok (Scalar.value v)) args vs) :
    args.map (View.ofValue mem (depth + 1)) = vs.map fun v => .target (.value v.value) := by
  induction loads with
  | nil => rfl
  | @cons a v _ _ there _ ih =>
    rw [List.map_cons, List.map_cons, ih]
    cases a with
    | ptr q =>
      have shown : View.ofValue mem depth v.value = .value v.value := by
        cases depth <;> cases v <;> rfl
      have followed : View.ofValue mem (depth + 1) (.ptr q) = .target (.value v.value) := by
        rw [View.ofValue, View.ofValueBy, there, ← shown]
      rw [followed]
    | _ => cases there

/-- A host that logs its arguments with pointers followed logs scalars as they are. -/
theorem Host.logValues_reports (name : String) (depth : Nat) (τs : List Prim) :
    Host.Reports ⟨name, (Behaviour.logValues (depth + 1)).act name⟩ τs
      fun vs => [.values name (vs.map fun v => .target (.value v.value))] := by
  intro mem args vs _ loads
  refine ⟨.null, mem, .refl _ _, ?_⟩
  rintro im invoke st rfl
  change EStateM.Result.ok Value.null { st with
    log := st.log.push (.values name (args.map (View.ofValue st.memory (depth + 1)))) } = _
  rw [View.ofValue_boxes depth loads]
  rfl

/-- Where a host has a name, one of that name is found. -/
theorem Image.exists_hostNamed {im : Image} {host : Host} (inside : host ∈ im.hosts) : ∃ id host',
    im.hostNamed host.name = some id ∧ im.hosts[id.raw]? = some host' ∧ host' ∈ im.hosts ∧
    host'.name = host.name := by
  obtain ⟨i, here⟩ := Array.getElem?_of_mem inside
  have isSome : ((List.range im.hosts.size).reverse.find? fun i =>
      (im.hosts[i]?).any (·.name = host.name)).isSome := by
    rw [List.find?_isSome]
    refine ⟨i, List.mem_reverse.mpr (List.mem_range.mpr (Array.getElem?_eq_some_iff.mp here).1), ?_⟩
    simp [here]
  obtain ⟨j, found⟩ := Option.isSome_iff_exists.mp isSome
  have isNamed := List.find?_some found
  obtain ⟨host', there, same⟩ := (Option.any_eq_true _ _).mp isNamed
  exact ⟨⟨j⟩, host', congrArg (Option.map HostId.mk) found, there, Array.mem_of_getElem? there,
    of_decide_eq_true same⟩

/-- The ready-made host of a name that logs its arguments with pointers followed. -/
def Host.valueLogger (name : String) : Host := ⟨name, (Behaviour.logValues 1).act name⟩

/-- Such hosts serve any program, if there is one for each function. -/
theorem Image.supplies_of_valueLoggers {im : Image} {p : Program}
    (each : ∀ host ∈ im.hosts, host = .valueLogger host.name)
    (listed : ∀ d ∈ p.ambients, ∃ host ∈ im.hosts, host.name = p.declName d) :
    im.Supplies p p.views := by
  intro d declared τs _
  obtain ⟨host, inside, isNamed⟩ := listed d declared
  obtain ⟨id, host', named, isHost, inside', same⟩ := im.exists_hostNamed inside
  rw [isNamed] at named same
  refine ⟨id, host', named, isHost, ?_⟩
  rw [each host' inside', same]
  exact Host.logValues_reports (p.declName d) 0 τs

/-- A function without a body reaches the host of its name. -/
theorem invoke_native {im : Image} {func : FuncId} {fn : Code.Function}
    {args : List Value} {id : HostId}
    {host : Host} (levels : Nat) (known : im.code.function? func = some fn)
    (arity : args.length = fn.params.length) (absent : fn.body = none)
    (named : im.hostNamed fn.name = some id)
    (isHost : im.hosts[id.raw]? = some host) :
    invoke im (levels + 2) (.function func) args =
    (host.act args).perform im (invoke im levels) := by
  simp only [invoke, known, arity, ne_eq, not_true_eq_false, if_false, absent, named, isHost]

end Machine

/-! ## The run of a body -/

namespace Machine

theorem ranOut_nested {run : Run Value} {st : State}
    (out : RanOut (run { st with depth := st.depth + 1 })) :
    RanOut (nested run st) := by
  obtain ⟨st', isOut⟩ := out
  exact ⟨{ st' with depth := st'.depth - 1 }, by rw [Run.Metered.nested_apply, isOut]⟩

/-- One more call is under way meanwhile. -/
theorem Run.Costs.nested {run : Run Value} {st st' : State} {units : Nat} {v : Value}
    (h : run.Costs { st with depth := st.depth + 1 } units
    (pure v) { st' with depth := st'.depth + 1 }) :
    (nested run).Costs st units (pure v) st' := by
  refine ⟨fun n => ?_, fun n lt => ranOut_nested (h.short n lt)⟩
  have ends : run { st.withFuel (units + n) with depth := st.depth + 1 } =
      .ok v { st'.withFuel n with depth := st'.depth + 1 } := h.enough n
  rw [Run.Metered.nested_apply, show (st.withFuel (units + n)).depth = st.depth from rfl, ends]
  rfl

theorem size_startValues (body : Code.Body) (args : List Value) :
    (startValues body args).size = body.values.size := by
  simp only [startValues, List.size_toArray, List.length_append, List.length_take,
    List.length_replicate]
  omega

/-- All that a body does is done from its first block. -/
theorem execBody_eq_resume (W : World) (body : Code.Body) (args : List Value) :
    execBody W.types W.invoke body args = resume W.types W.invoke body ⟨0⟩ 0
    (startValues body args) := by
  rw [← walkFrom_eq_resume W.keeps]
  rfl

end Machine

/-- Where the block returns nothing, the run ends. -/
theorem Point.resume_ret (W : World) (p : Point) (r : Registers) :
    p.resume W.types W.invoke (p.draft.closed p.place (.ret none)) r = pure .undef := by
  obtain ⟨k, there, _⟩ := p.isOpen.block
  have isLeft := Draft.closed_extends (.ret none) there (.refl _)
  rw [Point.resume, Draft.written_eq there, resume_here isLeft]
  simp only [List.drop_length, ← Array.length_toList]
  rfl

variable {S : Setting} {Δ : Layout} {E : Variables → List AmbientCall → Variables → Prop}
  {f₀ f : Frame}
  {w₀ w : Work} {func : FuncId}

/-- A run at the beginning of a body, where nothing is written yet. -/
theorem Setting.exists_visits (w₀ : Work) (start : f₀.draft = Draft.start func [])
    (values : Valuation) :
    ∃ x : Stage, x.Visits S f₀ w₀ [] [] ∧ x.values = values ∧ x.memory = .ofModule S.fin.code ∧
    x.place = ⟨0⟩ := by
  have isOpen : f₀.draft.Open ⟨0⟩ := start ▸ (startPoint func [] (.ofModule S.fin.code)).isOpen
  refine ⟨⟨w₀, f₀, values, .ofModule S.fin.code, ⟨0⟩, isOpen⟩, ⟨rfl, rfl, ?_, ?_⟩, rfl, rfl, rfl⟩
  · exact ⟨.nil, List.nodup_nil, List.forall_mem_nil _⟩
  · exact Memory.upholds_ofModule S.fin.code

/-- A body that is nothing but the code for a meaning does what is meant. -/
theorem Setting.Segment.runs {b : BlockId} {body : Code.Body} (h : S.Segment [] Δ E f₀ w₀ f w)
    (start : f₀.draft = Draft.start func []) (isOpen : f.draft.Open b)
    (isBody : body = (f.draft.closed b (.ret none)).finish) (args : List Value) (st : State)
    (memory : st.memory = .ofModule S.fin.code) :
    (∀ calls vars, E [] calls vars → ∃ units mem,
      (execBody S.world.types S.world.invoke body args).Costs st units (pure .undef)
        { st with memory := mem, log := st.log ++ (AmbientCall.entries S.report calls).toArray }) ∧
    ((¬∃ calls vars, E [] calls vars) → ∀ n,
      RanOut (execBody S.world.types S.world.invoke body args (st.withFuel n))) := by
  subst isBody
  let d := f.draft.closed b (.ret none)
  let r := startValues d.finish args
  obtain ⟨x, visits, values, memory', place⟩ := S.exists_visits w₀ start r.read
  have here : x.point.At r st := ⟨values.symm, memory.trans memory'.symm⟩
  have grown : f.draft.Extends d := isOpen.extends_closed _
  have room : d.values.size ≤ r.size := Nat.le_of_eq (size_startValues d.finish args).symm
  have begins : execBody S.world.types S.world.invoke d.finish args =
      x.point.resume S.world.types S.world.invoke d r := by
    have nothing : x.point.draft.written x.place = 0 := by
      change x.frame.draft.written x.place = 0
      rw [visits.frame, start, place]
      rfl
    change _ = resume _ _ _ x.place (x.point.draft.written x.place) r
    rw [execBody_eq_resume, nothing, place]
  obtain ⟨ends, stuck⟩ := h.comes x [] visits
  rw [begins]
  refine ⟨fun calls vars done => ?_, fun never => stuck never d grown r st here room⟩
  obtain ⟨z, units, visits', advances⟩ := ends calls vars done
  have sameDraft : z.point.draft = f.draft := congrArg Frame.draft visits'.frame
  obtain ⟨r', -, -, costs⟩ := advances.reaches d (sameDraft ▸ grown) r st here room
  obtain rfl := visits'.place isOpen
  have returns : z.point.resume S.world.types S.world.invoke d r' = pure .undef := by
    have atEnd := z.point.resume_ret S.world r'
    rw [sameDraft] at atEnd
    exact atEnd
  rw [returns] at costs
  exact ⟨units, z.memory, costs⟩

/-! ## The statements at the top -/

namespace Compile

variable {p : Program} {c : Config} {limit : Nat} {fin : Work}

/-- The code of the statements at the top is defined last, and nothing else changes then. -/
theorem of_entry_defined {r : Resolver} (ran :
    entry (.ofDepth limit) (.of p r c) .start = .ok func fin) :
    ∃ w frame fn, (do
        (Lowering.ofDepth limit).block p.entry
        unless ← Emit.isClosed do Draft.ret none : Emit Unit) (entryFrame c)
        (.of p r c) (.opened c) =
          .ok ((), frame) w ∧
      func = (startModule.2.declare c.entryName [] .void).1 ∧ fin.code =
      w.code.define func frame.draft.finish ∧
      w.code.function? func = some fn ∧ fn.name = c.entryName ∧
      (c.entryName ≠ closureCallName → fn.params = []) ∧ Later (.of p r c) w fin := by
  obtain ⟨rfl, w, frame, wrote, rfl⟩ := of_entry_ok ran
  have there := (((whole_walks (Lowering.ofDepth_walks limit)).ends (opened_sound p r c).moment
    (by rintro _ ⟨⟩)).of_ok wrote).1
  obtain ⟨fn, known, isName, noParams⟩ := (declareEntry_later p r c).2
  obtain ⟨body, known', -⟩ := there.later.extends.code.function _ _ known
  refine ⟨w, frame, _, wrote, rfl, rfl, known', isName, noParams, (Step.define _ _ ?_).later⟩
  by_cases loose : c.entryName = closureCallName
  · refine .inr ⟨loose, ?_⟩
    rw [loose]
    rfl
  · have absent := there.keeps _ _ (function?_entry loose)
    exact .inl fun fn known => Option.some.inj (absent.symm.trans known) ▸ rfl

/-- Once the functions are bound, the statements at the top begin without variables. -/
theorem entry_begins {f₁ f₂ : Frame} {w₁ w₂ : Work} {decls : List DeclId}
    (isSetup : S.setup = .of p .ambient c)
    (firstOrder : p.FirstOrder c.entryName)
    (hoisted : Emit.hoist p.entry (entryFrame c) (.of p .ambient c) (.opened c) =
    .ok (decls, f₁) w₁)
    (opens : Emit.openBlock decls f₁ (.of p .ambient c) w₁ = .ok ((), f₂) w₂) :
    f₂.draft = Draft.start (startModule.2.declare c.entryName [] .void).1 [] ∧
      Moment (.of p .ambient c) w₂ ∧ f₂.Grounded w₂ ∧
      (Later (.of p .ambient c) w₂ S.fin → S.Scene 0 [] f₂ w₂) := by
  obtain ⟨Γ, admitted⟩ := firstOrder.admitted
  have moment : Moment (.of p .ambient c) (.opened c) := (opened_sound p .ambient c).moment
  obtain ⟨there₁, onward₁⟩ := ((Emit.hoist_walks p.entry).ends moment (by rintro _ ⟨⟩)).of_ok
    hoisted
  have moment₁ := moment.later there₁.later
  obtain ⟨there₂, onward₂⟩ := ((Emit.openBlock_walks decls).ends moment₁ onward₁.grounded).of_ok
    opens
  have moment₂ := moment₁.later there₂.later
  obtain ⟨isFrame, isCode, functions, -⟩ := Emit.of_hoist_ambients admitted
    firstOrder.distinct hoisted
  have grounded := onward₂.grounded
  obtain ⟨_, _, _, recorded, last⟩ := Emit.of_bind_ok opens
  cases last
  obtain ⟨rfl, isCode'⟩ := Emit.recordSites_code recorded
  refine ⟨?_, moment₂, grounded, fun later => ?_⟩
  · rw [isFrame]
    rfl
  · exact {
      moment := isSetup ▸ moment₂
      later := isSetup ▸ later
      grounded := grounded
      plain := fun f fn known => by
        rw [isCode'.trans isCode] at known
        exact .inl (isSetup ▸ (function?_opened known).1)
      describes := ⟨nofun, fun d decl declared isDecl _ => by
        rw [isSetup] at declared isDecl
        exact functions d decl declared isDecl⟩
      isEntry := by rw [isFrame]; rfl
      depth := by rw [isFrame]; rfl
      below := nofun }

/-- What is written for the statements at the top is the code for what they mean, and it returns
nothing. -/
theorem of_entry_wrote {frame : Frame} (isSetup : S.setup = .of p .ambient c)
    (firstOrder : p.FirstOrder c.entryName)
    (wrote : (do
      (Lowering.ofDepth limit).block p.entry
      unless ← Emit.isClosed do Draft.ret none : Emit Unit) (entryFrame c)
      (.of p .ambient c) (.opened c) =
        .ok ((), frame) w)
    (later : Later (.of p .ambient c) w S.fin) : ∃ f₀ w₀ f Δ b,
      f₀.draft = Draft.start (startModule.2.declare c.entryName [] .void).1 [] ∧ S.Scene 0 Δ f w ∧
      S.Segment [] Δ (S.Means (.stmts p.entry)) f₀ w₀ f w ∧ f.draft.Open b ∧
      frame.draft = f.draft.closed b (.ret none) := by
  obtain ⟨_, fin, world, report, resolver, types, distinct, serves⟩ := S
  cases isSetup
  let S : Setting := ⟨.of p .ambient c, fin, world, report, resolver, types, distinct, serves⟩
  have hl (depth : Nat) := Lowering.ofDepth_walks (s := .of p .ambient c) depth
  obtain ⟨Γ, admitted⟩ := firstOrder.admitted
  obtain ⟨_, f₃, w₃, block, returns⟩ := Emit.of_bind_ok wrote
  obtain ⟨rfl, leaves⟩ := of_ret_ok returns
  cases limit with
  | zero => cases block
  | succ depth =>
    obtain ⟨decls, f₁, w₁, hoisted, block⟩ := Emit.of_bind_ok block
    obtain ⟨_, f₂, w₂, opens, block⟩ := Emit.of_bind_ok block
    obtain ⟨_, f₄, w₄, wrote, closes⟩ := Emit.of_bind_ok block
    cases closes
    obtain ⟨start, moment, grounded, begins⟩ := entry_begins (S := S) rfl firstOrder hoisted opens
    obtain ⟨there, -⟩ := ((Emit.stmts_walks (hl depth) p.entry).ends moment grounded).of_ok wrote
    obtain ⟨x, visits, -⟩ := S.exists_visits w₂ start fun _ => .undef
    obtain ⟨Δ, -, scene, segment⟩ := Setting.admitted_adds (S := S) admitted rfl rfl f₂ w₂ f₄ _
      (begins (there.later.trans later)) ⟨x, [], visits⟩ wrote later
    obtain ⟨z, _, visits', -⟩ := segment.possible x [] visits
    have isOpen := visits'.isOpen
    refine ⟨f₂, w₂, f₄, _, z.place, start, scene, segment, isOpen, ?_⟩
    rw [leaves isOpen.isClosed]
    exact isOpen.close_eq (.ret none)

/-- The module has a function for the statements at the top, which is the code for what they mean,
and otherwise only what is outside. -/
theorem of_entry_means (isSetup : S.setup = .of p .ambient c)
    (firstOrder : p.FirstOrder c.entryName)
    (ran : entry (.ofDepth limit) (.of p .ambient c) .start = .ok func S.fin) :
    S.fin.Plain (.of p .ambient c) ∧ ∃ f₀ w₀ f w Δ b fn, f₀.draft = Draft.start func [] ∧
      S.Segment [] Δ (S.Means (.stmts p.entry)) f₀ w₀ f w ∧ f.draft.Open b ∧
      S.fin.code.function? func = some fn ∧ (c.entryName ≠ closureCallName → fn.params = []) ∧
      fn.body = some (f.draft.closed b (.ret none)).finish := by
  obtain ⟨w, frame, fn, wrote, rfl, isCode, known, isName, noParams, later⟩ := of_entry_defined ran
  obtain ⟨f₀, w₀, f, Δ, b, start, scene, segment, isOpen, closed⟩ :=
    of_entry_wrote isSetup firstOrder wrote later
  have plain : w.Plain (.of p .ambient c) := isSetup ▸ scene.plain
  refine ⟨fun f' fn' known' => ?_, f₀, w₀, f, w, Δ, b,
    { fn with body := some frame.draft.finish }, start,
    segment, isOpen, ?_, noParams, congrArg (some ·.finish) closed⟩
  · rw [isCode] at known'
    by_cases same : (startModule.2.declare c.entryName [] .void).1 = f'
    · rw [← same, function?_define known] at known'
      cases known'
      exact .inl (List.mem_cons_of_mem _ (List.mem_singleton.mpr isName))
    · rw [function?_define_ne _ same] at known'
      exact plain f' fn' known'
  · rw [isCode]
    exact function?_define known

/-- What the module has beside is told from a world in which nothing is logged. -/
theorem entry_plain (firstOrder : p.FirstOrder c.entryName)
    (ran : entry (.ofDepth limit) (.of p .ambient c) .start = .ok func fin) :
    fin.Plain (.of p .ambient c) := by
  let S : Setting := {
    setup := .of p .ambient c
    fin := fin
    world := ⟨fin.code.types, fun _ _ => pure .null, fun _ _ => .pure _⟩
    report := fun _ _ => []
    resolver := rfl
    types := rfl
    distinct := firstOrder.distinct
    serves := fun _ _ _ _ _ _ _ _ mem _ _ _ _ =>
      ⟨.null, mem, .refl _ _, by rintro st rfl; simp; rfl⟩ }
  exact (of_entry_means (S := S) rfl firstOrder ran).1

end Compile

/-! ## Whole programs -/

/-- Of the functions that are outside each is as the program declares it. -/
theorem Work.Plain.native {p : Program} {c : Config} {w : Work} {d : DeclId}
    {τs : List Prim} {f : FuncId}
    {fn : Code.Function} (plain : w.Plain (.of p .ambient c))
    (firstOrder : p.FirstOrder c.entryName)
    (declared : d ∈ p.ambients) (ambient : p.Ambient d τs) (known : w.code.function? f = some fn)
    (isNamed : fn.name = p.declName d) : fn = p.native d τs.length := by
  rcases plain f fn known with isOwn | ⟨d', τs', declared', ambient', rfl⟩
  · obtain ⟨notEntry, notCall⟩ := firstOrder.apart d declared
    rw [isNamed] at isOwn
    simp [notCall, Setup.of, notEntry] at isOwn
  · cases List.inj_on_of_nodup_map firstOrder.distinct declared' declared isNamed
    obtain ⟨g, _, isFunction, -, -, -, typed⟩ := ambient.signature
    obtain ⟨g', _, isFunction', -, -, -, typed'⟩ := ambient'.signature
    cases isFunction.symm.trans isFunction'
    change p.native d τs'.length = _
    rw [← typed.length_eq, ← typed'.length_eq]

/-- The world of the calls of a machine. -/
def Machine.Image.world (im : Image) (levels : Nat) : World where
  types := im.code.types
  invoke := invoke im levels
  keeps := Run.Keeping.invoke im levels

theorem Machine.Image.Supplies.serves {im : Image} {p : Program}
    {report : DeclId → List Scalar → List Entry}
    {d : DeclId} {τs : List Prim} {func : FuncId} (supplies : im.Supplies p report) (levels : Nat)
    (declared : d ∈ p.ambients) (ambient : p.Ambient d τs)
    (known : im.code.function? func = some (p.native d τs.length)) :
    (im.world (levels + 2)).Serves func τs (report d) := by
  intro mem args vs typed loads
  obtain ⟨id, host, named, isHost, reports⟩ := supplies d declared τs ambient
  obtain ⟨val, mem', keeps, answers⟩ := reports mem args vs typed loads
  refine ⟨val, mem', keeps, fun st memory => ?_⟩
  have arity : args.length = (p.native d τs.length).params.length := by
    rw [loads.length_eq, ← typed]
    simp [Program.native]
  rw [← answers im (invoke im levels) st memory, ←
    invoke_native levels known arity rfl named isHost]
  rfl

/-- The machine in which a compiled program starts, with hosts around it. -/
def CompiledUnit.machine (u : CompiledUnit) (hosts : Array Host) : Machine where
  image := ⟨u.code, hosts⟩
  state := (Machine.ofModule u.code).state

namespace Machine

/-- A call ends, and has logged so much, if it has fuel enough, and else it runs out. -/
def Logs (m : Machine) (f : FuncId) (args : List Value) (log : List Entry) : Prop :=
  ∃ units mem, ∀ fuel, (units ≤ fuel → (m.setFuel fuel).callFunction f args = (.ok .undef, { m with
      state := { m.state with memory := mem, fuel := fuel - units, log :=
        m.state.log ++ log.toArray } })) ∧
    (fuel < units → ((m.setFuel fuel).callFunction f args).1 = .error .outOfFuel)

/-- However much fuel there is, a call runs out of it. -/
def GoesOn (m : Machine) (f : FuncId) (args : List Value) : Prop :=
  ∀ fuel, ((m.setFuel fuel).callFunction f args).1 = .error .outOfFuel

variable {m : Machine} {f : FuncId} {args : List Value} {run : Run Value}

theorem callFunction_ranOut {fuel : Nat}
    (same : invoke m.image maxNesting (.function f) args (m.state.withFuel fuel) =
    run (m.state.withFuel fuel))
    (out : RanOut (run (m.state.withFuel fuel))) :
    ((m.setFuel fuel).callFunction f args).1 = .error .outOfFuel := by
  obtain ⟨st, isOut⟩ := out
  have ran : invoke (m.setFuel fuel).image maxNesting (.function f) args (m.setFuel fuel).state =
      .error .outOfFuel st :=
    same.trans isOut
  rw [callFunction, step, ran]

theorem Logs.of_costs {units : Nat} {mem : Memory} {log : List Entry}
    (same : ∀ n, invoke m.image maxNesting (.function f) args (m.state.withFuel n) =
    run (m.state.withFuel n))
    (costs : run.Costs m.state units (pure .undef)
      { m.state with memory := mem, log := m.state.log ++ log.toArray }) : m.Logs f args log := by
  refine ⟨units, mem, fun fuel => ⟨fun enough => ?_, fun short => ?_⟩⟩
  · obtain ⟨n, rfl⟩ : ∃ n, fuel = units + n := ⟨fuel - units, by omega⟩
    have ran : invoke (m.setFuel (units + n)).image maxNesting (.function f) args
        (m.setFuel (units + n)).state = _ :=
      (same (units + n)).trans (costs.enough n)
    rw [callFunction, step, ran, Nat.add_sub_cancel_left]
    rfl
  · exact callFunction_ranOut (same fuel) (costs.short fuel short)

end Machine

/-- A first-order program that is compiled does what it means. If it comes to an end, then the call
of the entry logs the calls of functions from outside in their order and returns nothing, whenever
there is fuel enough. If it comes to none, the call runs out of any fuel. No call of the entry traps
otherwise. -/
theorem compilation_preserves_meaning (limit : Nat) (p : Program) (c : Config) (hosts : Array Host)
    (report : DeclId → List Scalar → List Entry) {u : CompiledUnit}
    (firstOrder : p.FirstOrder c.entryName)
    (compiled : compileUnitWithin limit p .ambient c = .ok u)
    (supplies : Image.Supplies ⟨u.code, hosts⟩ p report) :
    ∃ fn, u.code.function? u.entry = some fn ∧ (c.entryName ≠ closureCallName → fn.params = []) ∧
      ∀ args : List Value, args.length = fn.params.length →
        (∀ calls, p.Runs calls → (u.machine hosts).Logs u.entry args
        (AmbientCall.entries report calls)) ∧
        ((¬∃ calls, p.Runs calls) → (u.machine hosts).GoesOn u.entry args) := by
  obtain ⟨fin, ran, isCode, -⟩ := of_compileUnitWithin compiled
  rw [isCode] at supplies ⊢
  have plain := Compile.entry_plain firstOrder ran
  let im : Image := ⟨fin.code, hosts⟩
  let S : Setting := {
    setup := .of p .ambient c
    fin := fin
    world := im.world 999
    report := report
    resolver := rfl
    types := rfl
    distinct := firstOrder.distinct
    serves := fun d τs func fn declared ambient known isNamed =>
      supplies.serves 997 declared ambient (plain.native firstOrder declared ambient known
        isNamed ▸ known) }
  obtain ⟨-, f₀, w₀, f, w, Δ, b, fn, start, segment, isOpen, known, noParams, isBody⟩ :=
    Compile.of_entry_means (S := S) rfl firstOrder ran
  refine ⟨fn, known, noParams, fun args arity => ?_⟩
  let m : Machine := ⟨im, (Machine.ofModule fin.code).state⟩
  have isMachine : u.machine hosts = m := by rw [CompiledUnit.machine, isCode]
  rw [isMachine]
  -- Within the call of the entry, one call is under way.
  obtain ⟨ends, stuck⟩ := segment.runs start isOpen rfl args { m.state with depth := 1 } rfl
  have same (n : Nat) : invoke im maxNesting (.function u.entry) args (m.state.withFuel n) =
      nested (execBody im.code.types (invoke im 999) (f.draft.closed b (.ret none)).finish args)
        (m.state.withFuel n) := invoke_function 999 known arity isBody (by decide : 0 < maxDepth)
  refine ⟨?_, fun never fuel => ?_⟩
  · rintro calls ⟨vars, done⟩
    obtain ⟨units, mem, costs⟩ := ends calls vars done
    have costs' : (nested (execBody im.code.types (invoke im 999)
      (f.draft.closed b (.ret none)).finish args)).Costs
        m.state units (pure .undef) { m.state with
          memory := mem, log := m.state.log ++ (AmbientCall.entries report calls).toArray } :=
            Run.Costs.nested costs
    exact .of_costs same costs'
  · refine callFunction_ranOut (m := m) (same fuel) (ranOut_nested ?_)
    refine stuck ?_ fuel
    rintro ⟨calls, vars, done⟩
    exact never ⟨calls, vars, done⟩

/-- A loop that goes round once. Inside, a variable is hidden by one of another type, and then it is
changed in one operand and read in the other. -/
@[irreducible] def hiddenFlag : Program := (Id.run <| StateT.run (do
  let flagged ← Construction.ambientFunction "show" [← Construction.param "flag" .boolean] .void
  let spoken ← Construction.ambientFunction "say" [← Construction.param "word" .text] .void
  let (on, _) ← Construction.bind "on" (some .boolean) (some (← Construction.expr (.bool true)))
  let (word, _) ← Construction.bindConst "on" none (← Construction.text "inner")
  let said ← Construction.expr (.call (← Construction.ident "say") [← Construction.ident "on"] none)
  let inner ← Construction.stmt (.block [word, ← Construction.stmt (.expr said)])
  let off ← Construction.expr (.assign (← Construction.ident "on")
    (← Construction.expr (.bool false)))
  let after ← Construction.expr (.unary .not (← Construction.ident "on"))
  let either ← Construction.expr (.binary .or off after)
  let shown ← Construction.expr (.call (← Construction.ident "show") [either] none)
  let loop ← Construction.stmt
    (.loop (← Construction.ident "on") [inner, ← Construction.stmt (.expr shown)])
  let same ← Construction.expr
    (.binary .strictEq (← Construction.ident "on") (← Construction.expr (.bool true)))
  let last ← Construction.expr (.call (← Construction.ident "show") [same] none)
  Construction.pushEntry (← Construction.stmt (.function flagged))
  Construction.pushEntry (← Construction.stmt (.function spoken))
  Construction.pushEntry on
  Construction.pushEntry loop
  Construction.pushEntry (← Construction.stmt (.expr last)) : Building Unit) {}).2.program

/-- The program says the word of the inner variable, and shows true and then false. -/
theorem compilation_preserves_meaning_hiddenFlag :
    ∃ u, compileUnitWithin 20 hiddenFlag .ambient {} = .ok u ∧
    hiddenFlag.Runs [⟨⟨3⟩, [.text "inner"]⟩, ⟨⟨1⟩, [.boolean true]⟩, ⟨⟨1⟩, [.boolean false]⟩] ∧
    (u.machine #[.valueLogger "show", .valueLogger "say"]).Logs
      u.entry [] [.values "say" [.target (.value (.text "inner"))],
      .values "show" [.target (.value (.bool true))],
        .values "show" [.target (.value (.bool false))]] := by
  have isFirstOrder : hiddenFlag.isFirstOrder 12 "main" = true := by decide +kernel
  have computed : hiddenFlag.calls? 12 [] (.stmts hiddenFlag.entry) = some
      ([⟨⟨3⟩, [.text "inner"]⟩, ⟨⟨1⟩, [.boolean true]⟩, ⟨⟨1⟩, [.boolean false]⟩],
          [(⟨5⟩, .boolean false)]) := by
    cbv
  have runs : hiddenFlag.Runs [⟨⟨3⟩, [.text "inner"]⟩, ⟨⟨1⟩, [.boolean true]⟩,
      ⟨⟨1⟩, [.boolean false]⟩] :=
    ⟨_, Program.executes_of_calls? computed⟩
  have isShow : hiddenFlag.declName ⟨1⟩ = "show" := by decide +kernel
  have isSay : hiddenFlag.declName ⟨3⟩ = "say" := by decide +kernel
  have ambients : hiddenFlag.ambients = [⟨1⟩, ⟨3⟩] := by decide +kernel
  have compiles : (compileUnitWithin 20 hiddenFlag .ambient {}).toOption.isSome =
    true := by decide +kernel
  obtain ⟨u, compiled⟩ := Option.isSome_iff_exists.mp compiles
  have compiled := toOption_eq_some_iff.mp compiled
  have supplies : Image.Supplies ⟨u.code, #[.valueLogger "show", .valueLogger "say"]⟩ hiddenFlag
      hiddenFlag.views := by
    refine Image.supplies_of_valueLoggers ?_ ?_
    · simp [Host.valueLogger]
    · simp [ambients, isShow, isSay, Host.valueLogger]
  obtain ⟨fn, -, noParams, logs⟩ := compilation_preserves_meaning 20 hiddenFlag {} _ _
    (Program.firstOrder_of_isFirstOrder isFirstOrder) compiled supplies
  have logged := (logs [] (by rw [noParams (by decide)]; rfl)).1 _ runs
  refine ⟨u, compiled, runs, ?_⟩
  simpa [AmbientCall.entries, Program.views, isShow, isSay, Scalar.value] using logged

end ShapeCompiler
