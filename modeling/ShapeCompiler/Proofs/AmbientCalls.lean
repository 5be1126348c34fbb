import ShapeCompiler.Proofs.ExpressionMeanings
import ShapeCompiler.Proofs.PlainClasses

/-!
# Calls of functions from outside

A call of a function that the program declares to be outside computes its arguments one after the
other, puts them into boxes, and hands over their addresses.

* `Source.Program.native`: the function of the module for such a declaration, and `Work.Plain`: that
  the compiler asked for nothing else;
* `World.Serves`: what such a function does when it is called;
* `Stage.Reports`: from the one stage to the other entries are logged;
* `Emit.ambientCall_reports`: the call.
-/

namespace ShapeCompiler

open Source Code Work Machine

/-! ## The functions -/

namespace Source.Program

variable {p : Program} {d : DeclId} {τs : List Prim}

/-- The function of the module for a declaration from outside. -/
def native (p : Program) (d : DeclId) (arity : Nat) : Code.Function :=
  ⟨p.declName d, List.replicate arity .ptr, .ptr, none⟩

theorem scalarInfo?_type {t : TypeId} {τ : Prim} (isType : p.types.get t = τ.type) :
    p.scalarInfo? t = some τ.info := by
  unfold scalarInfo?
  rw [isType]
  cases τ <;> rfl

/-- Functions that have no owner go by their own names. -/
theorem Ambient.resolve (h : p.Ambient d τs) (args : List Info) :
    Resolver.ambient.resolve p d args none = ⟨true, p.declName d⟩ := by
  obtain ⟨f, _, isFunction, free, _⟩ := h.signature
  have named : p.qualifiedName d = p.declName d := by
    unfold qualifiedName
    obtain ⟨decl, isDecl, isKind⟩ := exists_of_bind_ok isFunction
    obtain ⟨_, _, _, kind⟩ := decl
    rw [isDecl]
    cases kind with
    | function g =>
      cases isKind
      simp only [free]
    | _ => cases isKind
  change Resolution.mk (Resolver.isAmbient p d) (p.qualifiedName d) = _
  rw [h.isAmbient, named]

end Source.Program

namespace Work

variable {s : Setup} {w w' : Work} {d : DeclId} {τs : List Prim} {func : FuncId}

/-- Apart from those of the compiler's own, the functions of the module are those that the program
declares to be outside. -/
def Plain (s : Setup) (w : Work) : Prop :=
  ∀ f fn, w.code.function? f = some fn → fn.name ∈ [closureCallName, s.config.entryName] ∨
    ∃ d τs, d ∈ s.program.ambients ∧ s.program.Ambient d τs ∧ fn = s.program.native d τs.length

theorem Plain.of_functions (h : w.Plain s) (same : w'.code.functions = w.code.functions) :
    w'.Plain s := by
  intro f fn known
  rw [Module.function?, same] at known
  exact h f fn known

/-- The function that is asked for has the name, and the others stay what they are. -/
theorem externalFunction_plain (plain : w.Plain s) (declared : d ∈ s.program.ambients)
    (ambient : s.program.Ambient d τs)
    (ran : Compile.externalFunction (s.program.declName d) τs.length s w = .ok func w') :
    w'.Plain s ∧ ∃ fn, w'.code.function? func = some fn ∧ fn.name = s.program.declName d := by
  rcases Compile.of_externalFunction_ok ran with ⟨found, -, rfl⟩ | ⟨new, rfl, rfl⟩
  · exact ⟨plain, Module.functionByName_spec found⟩
  · refine ⟨fun f fn known => ?_, s.program.native d τs.length, ?_, rfl⟩
    · rw [function?_declare new] at known
      split at known
      · cases known
        exact .inr ⟨d, τs, declared, ambient, rfl⟩
      · exact plain f fn known
    · rw [function?_declare new, if_pos (by rw [Compile.declare_new _ _ new])]
      rfl

end Work

/-- Calls of the function log what goes with the scalars in the boxes, and leave what there is in
memory. -/
def Machine.World.Serves (W : World) (func : FuncId) (τs : List Prim)
    (report : List Scalar → List Entry) : Prop :=
  ∀ (mem : Memory) (args : List Value) (vs : List Scalar), vs.map Scalar.prim = τs →
    List.Forall₂ (fun a v => mem.load a = .ok (Scalar.value v)) args vs →
    ∃ val mem', mem.Keeps [] mem' ∧ ∀ st, st.memory = mem → W.invoke (.function func) args st =
      .ok val { st with memory := mem', log := st.log ++ (report vs).toArray }

/-! ## Running -/

theorem Machine.execInsts_single (types : TypeTable) (invoke : Invoke) (r : Registers) (inst : Inst)
    (st : State) (n : Nat) : execInsts types invoke r [inst] (st.withFuel (1 + n)) =
      execInst types invoke r inst (st.withFuel n) := by
  have used : (useFuel : Run Unit) (st.withFuel (1 + n)) = .ok () (st.withFuel n) := by
    rw [Nat.add_comm]
    rfl
  have rest (r' : Registers) : execInsts types invoke r' [] = pure r' := rfl
  change (useFuel >>= fun _ => execInst types invoke r inst >>= fun r' =>
    execInsts types invoke r' []) _ = _
  rw [bind_of_ok used]
  simp only [rest, bind_pure]

theorem Machine.execInsts_starved (types : TypeTable) (invoke : Invoke)
    (r : Registers) (inst : Inst)
    (rest : List Inst) (st : State) : RanOut (execInsts types invoke r (inst :: rest)
    (st.withFuel 0)) :=
  ⟨_, rfl⟩

/-- A function is called, which takes no fuel itself. -/
theorem Point.advances_call {W : World} (p : Point) {func : FuncId}
    {args : List ValueId} {v : Value}
    {mem' : Memory} {log : List Entry} (name : String)
    (answers : ∀ st, st.memory = p.memory → W.invoke (.function func) (args.map p.values) st =
      .ok v { st with memory := mem', log := st.log ++ log.toArray }) :
    ∃ p' : Point, p'.draft = ((Draft.call func .ptr args name).run p.draft).2 ∧
      p.Advances W 1 log p' ∧
      p'.memory = mem' := by
  have appends := Draft.callBy_appends p.isOpen name (.call · func args)
  have sized : ((Draft.call func .ptr args name).run p.draft).2.values.size = p.size + 1 := by
    obtain ⟨values, isValues⟩ := appends.values
    have noted : ({ p.draft with values := p.draft.values.push ⟨.ptr, name⟩ } :
        Draft).Open p.place :=
      ⟨p.isOpen.here, p.isOpen.block⟩
    have written := congrArg (·.values.size) (noted.emit (.call (some ⟨p.size⟩) func args))
    exact written.trans (Array.size_push _)
  refine ⟨⟨_, Function.update p.values ⟨p.size⟩ v, mem', p.place, p.isOpen.appends appends⟩, rfl,
    ⟨appends.extends p.isOpen, fun u old => ?_, .of_code rfl appends fun r st here room => ?_⟩, rfl⟩
  · exact Function.update_of_ne (by rintro rfl; exact absurd old (Nat.lt_irrefl _)) _ _
  · have inside : p.size < r.size := by
      change ((Draft.call func .ptr args name).run p.draft).2.values.size ≤ r.size at room
      omega
    refine ⟨r.write ⟨p.size⟩ v, ?_, r.size_write _ _, fun n => ?_, fun n lt => ?_⟩
    · rw [r.read_write (v := ⟨p.size⟩) v inside, here.values]
    · rw [execInsts_single]
      refine (callsAt_call W.types p ⟨p.size⟩ func args W.invoke r
        (st.withFuel n) here.values).trans ?_
      rw [bind_of_ok (answers (st.withFuel n) here.memory)]
      rfl
    · obtain rfl : n = 0 := by omega
      exact execInsts_starved W.types W.invoke r _ _ st

namespace Stage

/-- A run that is at the first stage comes to the second one and logs so much on the way, and blocks
that wait go on waiting. -/
structure Reports (W : World) (x : Stage) (log : List Entry) (x' : Stage) : Prop where
  waits : ∀ b, x.Waits b → x'.Waits b
  point : ∃ units, x.point.Advances W units log x'.point

variable {W : World} {x x' x'' : Stage} {log log' : List Entry}

theorem Follows.reports (h : x.Follows W x') : x.Reports W [] x' := ⟨h.waits, h.point⟩

namespace Reports

theorem trans (h : x.Reports W log x') (h' : x'.Reports W log' x'') :
    x.Reports W (log ++ log') x'' := by
  obtain ⟨_, advances⟩ := h.point
  obtain ⟨_, advances'⟩ := h'.point
  exact ⟨fun b waits => h'.waits b (h.waits b waits), _, advances.trans advances'⟩

theorem retains (h : x.Reports W log x') : x.point.Retains x'.point :=
  h.point.elim fun _ advances => advances.retains

theorem grown (h : x.Reports W log x') : x.frame.draft.Extends x'.frame.draft :=
  h.point.elim fun _ advances => advances.grown

end Reports

end Stage

/-! ## Arguments -/

namespace Emit

section Arguments

variable {W : World} {s : Setup} {x : Stage} {Δ : Layout} {hidden : List Nat}
  {vars vars' : Variables}
  {τ : Prim} {v : Scalar} {a : Operand}

/-- Some expressions are computed one after the other, and none disturbs what was computed
before. -/
theorem exprs_takes {es : List ExprId} {τs : List Prim} {vs : List Scalar} (depth : Nat)
    (ofTypes : List.Forall₂ (fun e τ => s.program.HasType (Layout.typing Δ)
    (s.program.expr e).kind τ) es τs)
    (ready : x.Ready s W Δ) (represents : x.point.Represents hidden Δ vars)
    (given : s.program.EvaluatesAll vars es vs vars') :
    Takes s W x ((Lowering.ofDepth depth).exprs es) fun ops x' => vs.map Scalar.prim = τs ∧
      List.Forall₂ (fun a v => x'.Denotes hidden v.prim v a) ops vs ∧
      x'.point.Represents hidden Δ vars' ∧ x.memory.Saves [] x'.memory := by
  induction ofTypes generalizing x vars vs with
  | nil =>
    cases given
    exact .pure ⟨rfl, .nil, represents, .refl _ _⟩
  | @cons e τ es τs ofType _ ih =>
    cases given with | cons first others => ?_
    rw [Lowering.exprs, List.mapM_cons]
    refine .bind ((exprKind_means ofType).at_level ready represents first depth) ?_
    rintro a x₁ follows₁ computes
    refine .bind (ih (ready.follows follows₁) computes.represents others) ?_
    rintro ops x₂ follows₂ ⟨rfl, denote, represents₂, saves⟩
    obtain rfl := computes.denotes.prim
    exact .pure ⟨rfl, .cons (computes.denotes.later follows₂ saves) denote, represents₂,
      computes.saves.trans saves⟩

/-- A function that is generic takes anything, and any other one what it declares. -/
theorem externalInfo_takes {t : TypeId} (f : FunctionDecl)
    (isType : s.program.types.get t = τ.type) :
    Takes s W x (externalInfo f t) fun i x' => (i = .any ∨ i = τ.info) ∧ x' = x := by
  unfold externalInfo
  split
  · exact .pure ⟨.inl rfl, rfl⟩
  · intro i f' w' ran
    obtain ⟨rfl, rfl, rfl⟩ := of_closedInfoOf_ok (Program.scalarInfo?_type isType) ran
    exact ⟨x, rfl, rfl, .refl x, .inr rfl, rfl⟩

/-- A scalar is handed over in a box. -/
theorem argument_takes {i : Info} (depth : Nat) (ready : x.Ready s W Δ)
    (represents : x.point.Represents hidden Δ vars) (denotes : x.Denotes hidden τ v a)
    (wanted : i = .any ∨ i = τ.info) : Takes s W x ((Lowering.ofDepth depth).argument (some a) i)
      fun p x' => Boxes hidden v p x' ∧ x.memory.Keeps [] x'.memory := by
  rcases wanted with rfl | rfl
  · cases depth with
    | zero => exact .fails rfl
    | succ depth =>
      have isAny : coerce (.ofDepth depth) a .any = (do return .boxed (← boxed a) .any) := by
        unfold coerce
        rw [denotes.info]
        cases τ <;> rfl
      have same : (Lowering.ofDepth (depth + 1)).argument (some a) .any = (do
          let p ← boxed a
          boxed (.boxed p .any)) := by
        change (coerce (.ofDepth depth) a .any >>= boxed : Emit ValueId) = _
        rw [isAny]
        simp only [bind_assoc, pure_bind]
      rw [same]
      exact .bind (boxed_takes ready represents denotes) fun p x' _ here => .pure here
  · exact coerced_takes depth ready represents denotes

theorem Boxes.later {p : ValueId} {x' : Stage} (h : Boxes hidden v p x) (follows : x.Follows W x')
    (keeps : x.memory.Keeps [] x'.memory) : Boxes hidden v p x' := by
  obtain ⟨j, isPtr, box, apart⟩ := h
  exact ⟨j, follows.knows isPtr, keeps.heap j _ (by simp) box, apart⟩

theorem argumentAt_takes {q : DeclId} {param : ParamDecl} (depth : Nat) (decl : FunctionDecl)
    (isParam : s.program.param q = .ok param) (isType : s.program.types.get param.ty = τ.type)
    (ready : x.Ready s W Δ) (represents : x.point.Represents hidden Δ vars)
    (denotes : x.Denotes hidden τ v a) :
    Takes s W x (do
      (Lowering.ofDepth depth).argument (some a)
        (← externalInfo decl (← Compile.asks (·.param q)).ty))
      fun p x' => Boxes hidden v p x' ∧ x.memory.Keeps [] x'.memory := by
  have asks : Takes s W x (liftM (Compile.asks (·.param q))) fun q' x' => q' = param ∧ x' = x := by
    intro q' f w ran
    obtain ⟨rfl, rfl, isParam'⟩ := of_asks_ok ran
    cases isParam.symm.trans isParam'
    exact ⟨x, rfl, rfl, .refl x, rfl, rfl⟩
  refine .bind asks ?_
  rintro _ _ - ⟨rfl, rfl⟩
  refine .bind (externalInfo_takes decl isType) ?_
  rintro i _ - ⟨wanted, rfl⟩
  exact argument_takes depth ready represents denotes wanted

/-- All arguments are put into boxes. -/
theorem arguments_takes {ops : List Operand} {vs : List Scalar} {params : List DeclId}
    {τs : List Prim}
    (depth : Nat) (decl : FunctionDecl) (done : List Operand)
    (typed : List.Forall₂ (fun q τ => ∃ param, s.program.param q = .ok param ∧
      s.program.types.get param.ty = Prim.type τ) params τs)
    (prims : vs.map Scalar.prim = τs) (ready : x.Ready s W Δ)
    (represents : x.point.Represents hidden Δ vars)
    (denote : List.Forall₂ (fun a v => x.Denotes hidden v.prim v a) ops vs) :
    Takes s W x ((params.zipIdx done.length).mapM fun (q, i) => do
      (Lowering.ofDepth depth).argument (done ++ ops)[i]?
        (← externalInfo decl (← Compile.asks (·.param q)).ty))
      fun values x' => List.Forall₂ (fun v p => Boxes hidden v p x') vs values ∧
        x.memory.Keeps [] x'.memory := by
  subst prims
  induction ops generalizing x params vs done with
  | nil =>
    cases denote
    cases typed
    exact .pure ⟨.nil, .refl _ _⟩
  | cons a ops ih =>
    cases denote with | @cons _ v _ vs denotes others => ?_
    cases typed with | @cons q _ params _ isParam typed => ?_
    obtain ⟨param, isParam, isType⟩ := isParam
    have here : (done ++ a :: ops)[done.length]? = some a := by simp
    rw [List.zipIdx_cons, List.mapM_cons]
    dsimp only
    rw [here]
    refine .bind (argumentAt_takes depth decl isParam isType ready represents denotes) ?_
    rintro p x₁ follows₁ ⟨box, keeps₁⟩
    have later := others.imp fun a v denotes => denotes.later follows₁ (.of_keeps keeps₁)
    have rest := ih (done ++ [a]) (ready.follows follows₁)
      (follows₁.represents represents keeps₁) later typed
    rw [List.append_assoc, List.length_append] at rest
    refine .bind rest ?_
    rintro values x₂ follows₂ ⟨boxes, keeps₂⟩
    exact .pure ⟨.cons (box.later follows₂ keeps₂) boxes, keeps₁.trans keeps₂⟩

/-- No object goes before the arguments. -/
theorem externalValues_takes {ops : List Operand} {vs : List Scalar} {τs : List Prim} (depth : Nat)
    (decl : FunctionDecl)
    (typed : List.Forall₂ (fun q τ => ∃ param, s.program.param q = .ok param ∧
      s.program.types.get param.ty = Prim.type τ) decl.params τs)
    (prims : vs.map Scalar.prim = τs) (ready : x.Ready s W Δ)
    (represents : x.point.Represents hidden Δ vars)
    (denote : List.Forall₂ (fun a v => x.Denotes hidden v.prim v a) ops vs) :
    Takes s W x (externalValues (.ofDepth depth) decl none ops)
      fun values x' => List.Forall₂ (fun v p => Boxes hidden v p x') vs values ∧
        x.memory.Keeps [] x'.memory := by
  refine .bind (Q := fun first x' => first = [] ∧ x' = x) (.pure ⟨rfl, rfl⟩) ?_
  rintro _ _ - ⟨rfl, rfl⟩
  exact .bind (arguments_takes depth decl [] typed prims ready represents denote)
    fun _ _ _ here => .pure here

end Arguments

/-! ## The call -/

section Call

variable {W : World} {s : Setup} {x : Stage} {Δ : Layout} {hidden : List Nat}
  {vars vars' : Variables}
  {f : Frame} {w : Work} {op : Operand} {callee : ExprId} {args : List ExprId}
    {target : Option DeclId}
  {d : DeclId} {decl : Decl} {τs : List Prim} {vs : List Scalar} {report : List Scalar → List Entry}

/-- Where nothing is given, there is nothing to find out about it. -/
theorem of_externalInfo_void {fn : FunctionDecl} {t : TypeId} {i : Info} {f' : Frame} {w' : Work}
    (isVoid : s.program.types.get t = .void) (ran : externalInfo fn t f s w = .ok (i, f') w') :
    f' = f ∧ w' = w := by
  unfold externalInfo at ran
  split at ran
  · cases ran
    exact ⟨rfl, rfl⟩
  · obtain ⟨_, _, _, asked, ran⟩ := of_bind_ok ran
    cases asked
    rw [show s.program.types.mentionsParam t = false by
      simp [TypeStore.mentionsParam, TypeStore.mentionsParamAt, isVoid]] at ran
    obtain ⟨_, _, _, got, ran⟩ := of_bind_ok ran
    cases got
    obtain ⟨rfl, known⟩ := of_lift_ok ran
    rw [Compile.infoOf_apply] at known
    cases deep : Compile.typeDepth s.program with
    | zero => rw [deep] at known; cases known
    | succ depth =>
      rw [deep] at known
      obtain ⟨_, _, asked, known⟩ := Compile.of_bind_ok known
      cases asked
      rw [isVoid] at known
      cases known
      exact ⟨rfl, rfl⟩

/-- The call is written, and nothing else. -/
theorem of_nativeCall_ok {fn : FunctionDecl} {func : FuncId} {values : List ValueId} {ret : TypeId}
    {w' : Work} {f' : Frame} (returns : fn.ret = some ret)
    (isVoid : s.program.types.get ret = .void)
    (ran : nativeCall fn func values f s w = .ok (op, f') w') :
    f' = f.wrote (Draft.call func .ptr values "native") ∧ w' = w := by
  obtain ⟨result, f₁, w₁, called, ran⟩ := of_bind_ok ran
  replace called := of_write_ok called
  rw [show ((Draft.call func .ptr values "native").run f.draft).1 =
    some ⟨f.draft.values.size⟩ from rfl]
    at called
  cases called
  obtain ⟨i, _, _, told, ran⟩ := of_bind_ok ran
  cases ran
  rw [returns] at told
  exact of_externalInfo_void isVoid told

/-- The function is called with the addresses of boxes. -/
theorem nativeCall_reports {func : FuncId} {values : List ValueId}
    (serves : W.Serves func τs report) (prims : vs.map Scalar.prim = τs)
    (boxes : List.Forall₂ (fun v p => Boxes hidden v p x) vs values) :
    ∃ x' : Stage, x'.frame = x.frame.wrote (Draft.call func .ptr values "native") ∧
    x'.work = x.work ∧
      x.Reports W (report vs) x' ∧ x.memory.Keeps [] x'.memory := by
  have loads : List.Forall₂ (fun a v => x.memory.load a = .ok (Scalar.value v))
      (values.map x.values) vs := by
    rw [List.forall₂_map_left_iff]
    refine (boxes.imp fun v p box => ?_).flip
    obtain ⟨j, isPtr, box, -⟩ := box
    change x.memory.load (x.point.values p) = _
    rw [isPtr.value]
    exact Memory.load_cell box v.scalar_value.written
  obtain ⟨val, mem', keeps, answers⟩ := serves _ _ _ prims loads
  obtain ⟨p, draft, advances, memory⟩ := x.point.advances_call "native" answers
  refine ⟨x.moved p, ?_, rfl, ⟨fun b waits => ?_, 1, advances⟩, ?_⟩
  · change ({ x.frame with draft := p.draft } : Frame) = _
    rw [draft]
    rfl
  · change p.draft.Waits b
    rw [draft]
    exact waits.appends x.isOpen (Draft.callBy_appends x.isOpen "native" (.call · func values))
  · change x.memory.Keeps [] p.memory
    rw [memory]
    exact keeps

/-- A name that no variable hides reaches the declaration. -/
theorem of_ambientCall_ok {depth : Nat} (resolver : s.resolver = .ambient) (ready : x.Ready s W Δ)
    (isName : (s.program.expr callee).kind = .ident decl.name)
    (free : Table.find? decl.name Δ = none)
    (declared : d ∈ s.program.ambients) (isDecl : s.program.decl d = .ok decl)
    (ambient : s.program.Ambient d τs)
    (ran : exprKind (.ofDepth depth) (.call callee args target) x.frame s x.work = .ok (op, f) w) :
    ((Lowering.ofDepth depth).exprs args >>= callExternal (.ofDepth depth) d
    (s.program.declName d) none)
      x.frame s x.work = .ok (op, f) w := by
  obtain ⟨_, _, _, asked, ran⟩ := of_bind_ok ran
  cases asked
  rw [isName] at ran
  have known : lookup decl.name x.frame s x.work = .ok (some (.function d), x.frame) x.work := by
    change EStateM.Result.ok ((x.frame.scope.lookup decl.name <|>
      x.work.moduleScope.lookup decl.name),
      x.frame) x.work = _
    rw [ready.describes.functions d decl declared isDecl free]
    rfl
  obtain ⟨_, _, _, found, ran⟩ := of_bind_ok ran
  cases known.symm.trans found
  obtain ⟨ops, _, _, computed, ran⟩ := of_bind_ok ran
  rw [bind_of_ok computed]
  obtain ⟨_, _, _, asked, ran⟩ := of_bind_ok ran
  obtain ⟨rfl, rfl, -⟩ := of_asks_ok asked
  obtain ⟨_, _, _, resolved, ran⟩ := of_bind_ok ran
  obtain ⟨rfl, resolved⟩ := of_lift_ok resolved
  cases resolved
  have isNative : s.resolver.resolve s.program d (ops.map Operand.info) none =
      ⟨true, s.program.declName d⟩ := by
    rw [resolver, ambient.resolve]
  simp only [Option.map_none, isNative, if_true] at ran
  exact ran

/-- The call computes its arguments, hands them over, and logs what goes with them. -/
theorem ambientCall_reports {depth : Nat} (report : List Scalar → List Entry)
    (resolver : s.resolver = .ambient)
    (ready : x.Ready s W Δ) (represents : x.point.Represents hidden Δ vars)
    (plain : x.work.Plain s) (isName : (s.program.expr callee).kind = .ident decl.name)
    (free : Table.find? decl.name Δ = none) (declared : d ∈ s.program.ambients)
    (isDecl : s.program.decl d = .ok decl) (ambient : s.program.Ambient d τs)
    (ofTypes : List.Forall₂ (fun a τ => s.program.HasType (Layout.typing Δ)
    (s.program.expr a).kind τ) args τs)
    (given : s.program.EvaluatesAll vars args vs vars')
    (ran : exprKind (.ofDepth depth) (.call callee args target) x.frame s x.work = .ok (op, f) w) :
    f = { x.frame with draft := f.draft } ∧ w.Plain s ∧ ∃ func fn, w.code.function? func = some fn ∧
      fn.name = s.program.declName d ∧ (W.Serves func τs report → ∃ x' : Stage,
        x'.frame = f ∧ x'.work = w ∧ x.Reports W (report vs) x' ∧
          x'.point.Represents hidden Δ vars' ∧
        x.memory.Saves [] x'.memory) := by
  obtain ⟨fn, ret, isFunction, -, returns, isVoid, typed⟩ := ambient.signature
  -- the arguments
  obtain ⟨ops, _, _, computed, called⟩ :=
    of_bind_ok (of_ambientCall_ok resolver ready isName free declared isDecl ambient ran)
  obtain ⟨x₁, rfl, rfl, follows₁, prims, denote, represents₁, saves₁⟩ :=
    exprs_takes depth ofTypes ready represents given ops _ _ computed
  rw [callExternal_eq] at called
  obtain ⟨_, _, _, asked, called⟩ := of_bind_ok called
  obtain ⟨rfl, rfl, isFunction'⟩ := of_asks_ok asked
  cases isFunction.symm.trans isFunction'
  obtain ⟨values, _, _, passed, called⟩ := of_bind_ok called
  have count := length_externalValues passed
  obtain ⟨x₂, rfl, rfl, follows₂, boxes, keeps₂⟩ := externalValues_takes depth fn typed prims
    (ready.follows follows₁) represents₁ denote values _ _ passed
  -- the function
  obtain ⟨func, _, w₃, lifted, called⟩ := of_bind_ok called
  obtain ⟨rfl, obtained⟩ := of_lift_ok lifted
  have arity : values.length = τs.length := by simpa [typed.length_eq] using count
  rw [arity] at obtained
  have isWork : x₂.work = x.work := follows₂.work.trans follows₁.work
  obtain ⟨plain', g, known, isNamed⟩ := externalFunction_plain (isWork ▸ plain) declared
    ambient obtained
  obtain ⟨rfl, rfl⟩ := of_nativeCall_ok returns isVoid called
  refine ⟨?_, plain', func, g, known, isNamed, fun serves => ?_⟩
  · rw [(follows₁.trans follows₂).frame]
    rfl
  obtain ⟨x₃, frame, work, reports, keeps₃⟩ :=
    nativeCall_reports (x := x₂.later w) serves prims boxes
  have represents₂ := follows₂.represents represents₁ keeps₂
  have reports : x₂.Reports W (report vs) x₃ := ⟨reports.waits, reports.point⟩
  refine ⟨x₃, frame, work, (follows₁.trans follows₂).reports.trans reports, ?_, ?_⟩
  · exact represents₂.keeps reports.retains keeps₃
  · exact saves₁.trans (.of_keeps (keeps₂.trans keeps₃))

end Call

end Emit

end ShapeCompiler
