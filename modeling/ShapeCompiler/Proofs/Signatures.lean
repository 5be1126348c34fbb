import ShapeCompiler.Proofs.Instances
import ShapeCompiler.Proofs.Readings

/-!
# What methods take and give

A body that is asked for without arguments is compiled for the declared types.

* `AskedSince.params_read`, `AskedSince.result_read`: what its parameters and its result are known
  to be is what their types are read as;
* `AskedSince.params_agree`, `AskedSince.results_agree`: so two such bodies agree where their
  declarations do, whichever methods and classes they are for and whenever they were asked for.
-/

namespace ShapeCompiler

open Source Code Work

namespace Source.Program

variable {p : Program} {m : DeclId} {i : Nat} {t : TypeId}

/-- A parameter of a function, by its number, is declared with the type. -/
def ParamType (p : Program) (m : DeclId) (i : Nat) (t : TypeId) : Prop :=
  ∃ f d q, p.function m = .ok f ∧ f.params[i]? = some d ∧ p.param d = .ok q ∧ q.ty = t

/-- The result of a function is declared with the type. -/
def ResultType (p : Program) (m : DeclId) (t : TypeId) : Prop :=
  ∃ f, p.function m = .ok f ∧ (f.kind ≠ .constructor ∧ f.kind ≠ .setter) ∧ f.ret = some t

/-- Looks for the declared type of a parameter. -/
def paramType? (p : Program) (m : DeclId) (i : Nat) : Option TypeId :=
  (p.function m).toOption.bind fun f => f.params[i]?.bind fun d => (p.param d).toOption.map (·.ty)

theorem paramType?_eq_some_iff : p.paramType? m i = some t ↔ p.ParamType m i t := by
  simp only [paramType?, ParamType, Option.bind_eq_some_iff, Option.map_eq_some_iff,
    toOption_eq_some_iff, exists_and_left]

instance : Decidable (p.ParamType m i t) := decidable_of_iff _ paramType?_eq_some_iff

/-- Looks for the declared type of a function's result. -/
def resultType? (p : Program) (m : DeclId) : Option TypeId :=
  (p.function m).toOption.bind fun f => if f.kind ≠ .constructor ∧
    f.kind ≠ .setter then f.ret else none

theorem resultType?_eq_some_iff : p.resultType? m = some t ↔ p.ResultType m t := by
  simp [resultType?, ResultType, Option.bind_eq_some_iff, toOption_eq_some_iff]

/-- Where the result is declared, it is known before the body is compiled. -/
theorem ResultType.not_open (h : p.ResultType m t) : ¬ p.ResultOpen (.function m) := by
  rintro ⟨d, f, isSubject, isFunction, isOpen, -⟩
  obtain ⟨f', isFunction', -, isRet⟩ := h
  cases isSubject
  cases isFunction.symm.trans isFunction'
  cases isOpen.symm.trans isRet

instance : Decidable (p.ResultType m t) := decidable_of_iff _ resultType?_eq_some_iff

/-- Nothing stands in a type that is neither an object, an interface nor a union. -/
theorem closed_of_plain (object : ∀ fields, p.types.get t ≠ .object fields)
    (interface : ∀ d, p.types.get t ≠ .interface d)
    (union : ∀ members, p.types.get t ≠ .union members)
    (param : ∀ n, p.types.get t ≠ .param n) : p.Closed t := by
  intro u n within
  cases within with
  | self => exact param n
  | object isObject => exact absurd isObject (object _)
  | interface isInterface => exact absurd isInterface (interface _)
  | union isUnion => exact absurd isUnion (union _)

end Source.Program

namespace Compile

variable {s : Setup} {w w' : Work}

/-- The parameter is known to be what its type is read as. -/
def ParamRead (s : Setup) (w : Work) (b : Bindings) (busy : List DeclId) (d : DeclId) (i : Info) :
    Prop :=
  ∀ q, s.program.param d = .ok q → s.program.Closed q.ty → ReadAs s w b busy q.ty i

theorem paramInfos_reads (moment : Moment s w) (b : Bindings) (params : List DeclId) :
    Ends s w (paramInfos b params []) fun infos w' =>
      List.Forall₂ (ParamRead s w' b w.interfacesInProgress) params infos := by
  induction params generalizing w with
  | nil => exact .pure .nil
  | cons d rest ih =>
    refine asks_bind fun q isParam => (infoOf_closed moment b q.ty).bind fun i w₁ there₁ read => ?_
    refine (ih (moment.later there₁.later)).bind fun infos w₂ there₂ all => .pure (.cons ?_ ?_)
    · intro q' isParam' closed
      cases isParam.symm.trans isParam'
      exact (read closed).later there₂.later
    · rwa [there₁.interfaces] at all

/-- Without arguments a body is compiled for the declared types. -/
theorem specialize_reads (moment : Moment s w) {m : DeclId} {f : FunctionDecl}
    (isFunction : s.program.function m = .ok f) (cls : Option DeclId) :
    Ends s w (specialize (.function m) cls []) fun spec w' =>
      ∃ b, List.Forall₂ (ParamRead s w' b w.interfacesInProgress) f.params spec.key.params := by
  refine .program_bind (((siteOf_walks _).ends moment).bind fun site w₁ there₁ _ => ?_)
  have moment₁ := moment.later there₁.later
  simp only [formals, bind_assoc, pure_bind]
  refine asks_bind fun f' isFunction' => ?_
  cases isFunction.symm.trans isFunction'
  refine ((ask_walks _).ends moment₁).bind fun bindings w₂ there₂ _ => ?_
  split
  · exact .throw trivial
  · refine (paramInfos_reads (moment₁.later there₂.later) bindings f.params).bind ?_
    intro infos w₃ _ all
    rw [there₂.interfaces, there₁.interfaces] at all
    exact .pure ⟨bindings, all⟩

/-- The declared result of a function is read. -/
theorem of_returning_declared (moment : Moment s w) {m : DeclId} {b : Bindings} {t : TypeId}
    {ret : Returning} (isResult : s.program.ResultType m t) (closed : s.program.Closed t)
    (ran : returning (.function m) b s w = .ok ret w') :
    ∃ i, ret.declared? = some i ∧ ReadAs s w' b w.interfacesInProgress t i := by
  obtain ⟨f, isFunction, apart, isRet⟩ := isResult
  obtain ⟨f', w₁, asked, ran⟩ := of_bind_ok ran
  rw [asks_apply, isFunction] at asked
  cases asked
  rw [isRet] at ran
  generalize f.kind = kind at ran apart
  split at ran
  · exact absurd rfl apart.1
  · exact absurd rfl apart.2
  obtain ⟨declared, w₂, lowered, ran⟩ := of_bind_ok ran
  cases ran
  change (infoOf b t >>= fun i => pure (some i)) s w = _ at lowered
  obtain ⟨i, w₃, lowered, isSome⟩ := of_bind_ok lowered
  cases isSome
  exact ⟨i, rfl, ((infoOf_closed moment b t).of_ok lowered).2 closed⟩

end Compile

/-- What is declared of the result of a body is read: at the start no interface is being lowered. -/
theorem Work.Reaches.result_read {s : Setup} {w : Work} {key : FunctionKey} {m : DeclId}
    {c : CompiledFunction} {t : TypeId} (h : Reaches s .start w)
    (known : w.functions.get? key = some c)
    (isSubject : key.subject = .function m) (isResult : s.program.ResultType m t)
    (closed : s.program.Closed t) : ∃ b, ReadAs s w b [] t c.ret := by
  rcases h.results key c known with old | ⟨b, ret, w₀, w₁, moment, isBusy, returned,
    later, declared⟩
  · cases old
  · rw [isSubject] at returned
    obtain ⟨i, isDeclared, read⟩ := Compile.of_returning_declared moment isResult closed returned
    rw [declared i isDeclared]
    rw [isBusy] at read
    exact ⟨b, read.later later⟩

namespace AskedSince

variable {s : Setup} {base w : Work} {cls : Option DeclId} {m : DeclId} {c : CompiledFunction}

/-- At the start no interface is being lowered. -/
theorem params_read (h : AskedSince s .start w cls m c) {f : FunctionDecl}
    (isFunction : s.program.function m = .ok f) :
    ∃ b, List.Forall₂ (Compile.ParamRead s w b []) f.params c.params := by
  obtain ⟨l, w₀, w₁, hl, moment, there, ran, before⟩ := h
  obtain ⟨spec, w₂, specialized, compiled⟩ := Compile.of_bind_ok ran
  obtain ⟨there₂, b, all⟩ := (Compile.specialize_reads moment isFunction cls).of_ok specialized
  have moment₂ := moment.later there₂.later
  obtain ⟨there₁, recorded⟩ := (hl.compile spec w₂ moment₂).of_ok compiled
  rw [((moment₂.later there₁.later).function_made spec.key c recorded).2]
  rw [there.interfaces] at all
  exact ⟨b, all.imp fun d i read q isParam closed =>
    (read q isParam closed).later (there₁.later.trans before)⟩

theorem param_read (h : AskedSince s .start w cls m c) {i : Nat} {t : TypeId}
    (isParam : s.program.ParamType m i t) (closed : s.program.Closed t) :
    ∃ b info, c.params[i]? = some info ∧ ReadAs s w b [] t info := by
  obtain ⟨f, d, q, isFunction, here, isParam, rfl⟩ := isParam
  obtain ⟨b, all⟩ := h.params_read isFunction
  have inside := (List.getElem?_eq_some_iff.mp here).1
  rw [all.length_eq] at inside
  have there := List.getElem?_eq_getElem inside
  exact ⟨b, _, there, Compile.of_forall₂ all here there q isParam closed⟩

/-- It stays recorded, but for the result. -/
theorem recorded (h : AskedSince s base w cls m c) :
    ∃ key ret, key.subject = .function m ∧ w.functions.get? key = some { c with ret } := by
  obtain ⟨l, w₀, w₁, hl, moment, there, ran, before⟩ := h
  obtain ⟨there₁, key, isSubject, -, known⟩ := (hl.body moment (.function m) cls []).of_ok ran
  obtain ⟨ret, known'⟩ := before.function (moment.later there₁.later) known
  exact ⟨key, ret, isSubject, known'⟩

theorem result_read (h : AskedSince s .start w cls m c) {t : TypeId}
    (isResult : s.program.ResultType m t) (closed : s.program.Closed t) :
    ∃ b, ReadAs s w b [] t c.ret := by
  obtain ⟨l, w₀, w₁, hl, moment, there, ran, before⟩ := h
  obtain ⟨there₁, key, isSubject, -, known⟩ := (hl.body moment (.function m) cls []).of_ok ran
  obtain ⟨b, read⟩ := (there.trans there₁).result_read known isSubject isResult closed
  exact ⟨b, read.later before⟩

/-- So much is recorded of the closures of the body. -/
theorem closure_read (begun : Reaches s .start w) (h : AskedSince s .start w cls m c)
    {record : ClosureRecord} (bound : w.registry.closure? c.func = some record) :
    record.env = c.env ∧ record.params = c.params ∧ ∀ t, s.program.ResultType m t →
      s.program.Closed t → ∃ b, ReadAs s w b [] t record.ret := by
  have registered := begun.registered (start_registered s)
  obtain ⟨key, ret, isSubject, known⟩ := h.recorded
  obtain ⟨key', c', known', isFunc, env, params, result⟩ := registered.closures _ _ bound
  obtain rfl := registered.apart _ _ _ _ known known' isFunc
  cases known.symm.trans known'
  refine ⟨env, params, fun t isResult closed => ?_⟩
  rcases result with same | opened
  · rw [same]
    exact begun.result_read known isSubject isResult closed
  · exact absurd opened.2 (isSubject ▸ isResult.not_open)

variable {cls' : Option DeclId} {m' : DeclId} {c' : CompiledFunction}

/-- Parameters that are declared with the same type are known to be the same. -/
theorem params_agree (h : AskedSince s .start w cls m c) (h' : AskedSince s .start w cls' m' c')
    {i : Nat} {t : TypeId} (isParam : s.program.ParamType m i t)
    (isParam' : s.program.ParamType m' i t) (closed : s.program.Closed t) :
    c.params[i]? = c'.params[i]? := by
  obtain ⟨b, info, here, read⟩ := h.param_read isParam closed
  obtain ⟨b', info', here', read'⟩ := h'.param_read isParam' closed
  rw [here, here', read.unique read' (.of_closed closed)]

/-- Results that are declared with the same type are known to be the same. -/
theorem results_agree (h : AskedSince s .start w cls m c) (h' : AskedSince s .start w cls' m' c')
    {t : TypeId} (isResult : s.program.ResultType m t) (isResult' : s.program.ResultType m' t)
    (closed : s.program.Closed t) : c.ret = c'.ret := by
  obtain ⟨b, read⟩ := h.result_read isResult closed
  obtain ⟨b', read'⟩ := h'.result_read isResult' closed
  exact read.unique read' (.of_closed closed)

end AskedSince

end ShapeCompiler
