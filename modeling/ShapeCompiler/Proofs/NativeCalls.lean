import ShapeCompiler.Proofs.Dispatch
import ShapeCompiler.Proofs.Signatures
import ShapeCompiler.Proofs.WellFormed

/-!
# Calls of what is supplied from outside

The functions that get a body here and those that are supplied from outside share one table of
names, in which they are looked up while bodies are compiled.

* `Work.During`: a state that the functions of a program pass while it is compiled;
* `Obtained`: a function that a call or an entry of a table obtains from outside in such a state;
* `compiled_calls`: what the bodies of the finished module call;
* `native_calls_reach_native`: a function obtained under a name that is not one of the compiler's
  own has no body in the finished module, and if the name is asked for with one number of arguments,
  each call passes as many as the function declares;
* `native_call_reaches_entry`: under the name of the statements at the top these are called instead.
-/

namespace ShapeCompiler

open Source Code Work

/-- Changes of the functions lead from the state in which the statements at the top begin to this
one, and from it to the finished module. -/
structure Work.During (s : Setup) (u : CompiledUnit) (w : Work) : Prop where
  begun : Course s (.opened s.config) w
  finishes : ∃ w' body, Course s w w' ∧ u.code = w'.code.define u.entry body

/-- While the program is compiled, a call or an entry of a table obtains the function from outside
under the symbol, for so many arguments. -/
inductive Obtained (s : Setup) (u : CompiledUnit) : String → Nat → FuncId → Prop
  | call {l : Lowering} {d : DeclId} {decl : FunctionDecl} {symbol : String}
    {object : Option Operand} {args : List Operand} {values : List ValueId} {f f' : Frame}
    {w₀ w w' : Work} {func : FuncId} (supplied : s.Supplies d object.isSome symbol)
    (isFunction : s.program.function d = .ok decl)
    (passed : Emit.externalValues l decl object args f s w₀ = .ok (values, f') w)
    (before : w.During s u) (after : w'.During s u)
    (ran : Compile.externalFunction symbol values.length s w = .ok func w') :
    Obtained s u symbol values.length func
  | entry {root m : DeclId} {n : Name} {decl : FunctionDecl} {symbol : String} {w w' : Work}
    {func : FuncId} (member : s.program.Called m true)
    (isFunction : s.program.function m = .ok decl)
    (resolved : s.resolver.resolve s.program m [] (some (.instanceOf root)) = ⟨true, symbol⟩)
    (before : w.During s u) (after : w'.During s u)
    (ran : Compile.tableEntry root n m s w = .ok (func, false) w') :
    Obtained s u symbol (decl.params.length + 1) func

variable {s : Setup} {u : CompiledUnit} {w w' w₁ : Work} {f : FuncId} {fn : Function}

/-- Apart from the last body, the functions are those of the finished module. -/
theorem Work.During.of_functions (body : Code.Body) (begun : Course s (.opened s.config) w)
    (same : u.code.functions = (w.code.define u.entry body).functions) : w.During s u := by
  refine ⟨begun, { w with code := { u.code with functions := w.code.functions } }, body,
    Turn.course (.aside rfl rfl), ?_⟩
  change u.code = { u.code with functions := (w.code.define u.entry body).functions }
  rw [← same]

theorem Work.During.between (h : w.During s u) (h' : w'.During s u) (first : Course s w w₁)
    (second : Course s w₁ w') : w₁.During s u := by
  obtain ⟨w₂, body, last, isCode⟩ := h'.finishes
  exact ⟨h.begun.trans first, w₂, body, second.trans last, isCode⟩

/-! ## The finished module -/

/-- The state in which the last body was written, and what the bodies of the module call. -/
theorem compiled_calls {limit : Nat} {p : Program} {r : Resolver} {c : Config}
    (compiled : compileUnitWithin limit p r c = .ok u) :
    (∃ fn, (Work.opened c).code.function? u.entry = some fn ∧ fn.name = c.entryName) ∧
    ∃ w body, Course (.of p r c) (.opened c) w ∧ u.code = w.code.define u.entry body ∧
      ∀ f fn body, u.code.function? f = some fn → fn.body = some body →
        ∀ callee n, body.Calls callee n → w.Accepts (.of p r c) callee n := by
  unfold compileUnitWithin at compiled
  split at compiled
  · rename_i entry work ran
    cases compiled
    obtain ⟨rfl, w, frame, g, flowed, _, isCode⟩ :=
      Compile.entry_flowed (Lowering.ofDepth_sound limit) ran
    obtain ⟨_, fn, known, isName, _⟩ := Compile.declareEntry_later p r c
    refine ⟨⟨fn, known, isName⟩, w, _, flowed.proceeds.course, isCode, ?_⟩
    intro f fn body found has callee n calls
    simp only at found
    rw [isCode] at found
    rcases of_define found has with ⟨_, rfl, _⟩ | ⟨_, stays⟩
    · exact (flowed.calls callee n calls).resolve_left (Draft.not_calls_start _ _ callee n)
    · exact flowed.sound.calls f fn body stays has callee n calls
  · cases compiled

/-- A function has the name and the parameters in the finished module that it begins with. -/
theorem Work.During.begins (h : w.During s u) {first : Function}
    (known : (Work.opened s.config).code.function? f = some first)
    (here : w.code.function? f = some fn) :
    fn.name = first.name := by
  obtain ⟨body, known'⟩ := h.begun.function_stays known
  cases here.symm.trans known'
  rfl

theorem closureCall_opened (p : Program) (r : Resolver) (c : Config) : ∃ fn,
    (Work.opened c).code.function? startModule.1.call = some fn ∧ fn.name = closureCallName := by
  have first : Work.start.code.function? startModule.1.call = some ⟨closureCallName, [.ptr], .ptr,
      some (closureCallBody startModule.1.closure startModule.1.bodySig startModule.1.call)⟩ := rfl
  obtain ⟨body, known, _⟩ :=
    (Compile.declareEntry_later p r c).1.extends.code.function _ _ first
  exact ⟨_, known, rfl⟩

/-- What is not compiled here is in the finished module as it is declared. -/
theorem Work.During.native_stays (h : w.During s u) (known : w.code.function? f = some fn)
    (notOwn : f ∉ w.compiled) (apart : f ≠ u.entry) : u.code.function? f = some fn := by
  obtain ⟨w', body, course, isCode⟩ := h.finishes
  rw [isCode, function?_define_ne body apart.symm]
  exact (course.native_stays known notOwn).1

theorem opened_during {limit : Nat} {p : Program} {r : Resolver} {c : Config}
    (compiled : compileUnitWithin limit p r c = .ok u) : (Work.opened c).During (.of p r c) u := by
  obtain ⟨_, w, body, course, isCode, _⟩ := compiled_calls compiled
  exact ⟨.refl _, w, body, course, isCode⟩

/-- What is obtained under a name that is not one of the compiler's own is not compiled here, and
takes what the name is asked for with. -/
theorem Obtained.native {symbol : String} {arity : Nat} (h : Obtained s u symbol arity f)
    (apart : symbol ∉ [closureCallName, s.config.entryName])
    (sorted : (Work.opened s.config).Sorted s) :
    ∃ (w : Work) (fn : Function), w.During s u ∧ w.code.function? f = some fn ∧ f ∉ w.compiled ∧
      fn.name = symbol ∧ Native s fn := by
  cases h with
  | @call _ _ _ _ _ _ _ _ _ _ _ w' _ supplied isFunction passed before after ran =>
    have asked := Setup.Asks.call supplied isFunction
    rw [← Emit.length_externalValues passed] at asked
    obtain ⟨fn, known, notOwn, named, native⟩ :=
      Compile.externalFunction_native (before.begun.sorted sorted) asked apart ran
    exact ⟨w', fn, after, known, notOwn, named, native⟩
  | @entry _ _ _ decl _ _ w' _ member isFunction resolved before after ran =>
    obtain ⟨decl', isFunction', native | ⟨_, isOwn⟩⟩ := Compile.of_tableEntry_ok ran
    · obtain ⟨symbol', resolved', obtained, _⟩ := native
      cases isFunction.symm.trans isFunction'
      cases resolved.symm.trans resolved'
      have asked := Compile.asks_of_entry member isFunction resolved
      obtain ⟨fn, known, notOwn, named, native⟩ :=
        Compile.externalFunction_native (before.begun.sorted sorted) asked apart obtained
      exact ⟨w', fn, after, known, notOwn, named, native⟩
    · cases isOwn

/-- A function that is obtained from outside while a program is compiled, under a name that is not
one of the compiler's own, has no body in the finished module. If the name is asked for with one
number of arguments only, the function declares so many parameters, and every direct call in the
module passes as many. -/
theorem native_calls_reach_native {limit : Nat} {p : Program} {r : Resolver} {c : Config}
    (compiled : compileUnitWithin limit p r c = .ok u) :
    (Work.opened c).During (.of p r c) u ∧
    ∀ symbol arity func, Obtained (.of p r c) u symbol arity func →
      symbol ∉ [closureCallName, c.entryName] →
      ∃ fn, u.code.function? func = some fn ∧ fn.name = symbol ∧ fn.body = none ∧
        ((∀ n, (Setup.of p r c).Asks symbol n → n = arity) → fn.params.length = arity ∧
          ∀ caller fn' body n, u.code.function? caller = some fn' → fn'.body = some body →
            body.Calls func n → n = fn.params.length) := by
  obtain ⟨⟨top, isTop, topName⟩, w₀, code, _, isCode, calls⟩ := compiled_calls compiled
  refine ⟨opened_during compiled, fun symbol arity func obtained apart => ?_⟩
  obtain ⟨w, fn, during, known, notOwn, named, native⟩ :=
    obtained.native apart (Compile.opened_sorted p r c)
  have notTop : func ≠ u.entry := by
    rintro rfl
    exact apart (by simp [← named, during.begins isTop known, topName])
  have finished := during.native_stays known notOwn notTop
  refine ⟨fn, finished, named, native.absent, fun agree => ?_⟩
  have params : fn.params.length = arity := agree _ (named ▸ native.asked)
  refine ⟨params, fun caller fn' body n isCaller has call => ?_⟩
  have here : w₀.code.function? func = some fn := by
    rwa [isCode, function?_define_ne code notTop.symm] at finished
  cases calls caller fn' body isCaller has func n call with
  | closures =>
    obtain ⟨call, isCall, callName⟩ := closureCall_opened p r c
    exact absurd (by simp [← named, during.begins isCall known, callName]) apart
  | own isOwn known' =>
    cases here.symm.trans known'
    rfl
  | native notOwn' known' asked =>
    cases here.symm.trans known'
    exact (agree n (named ▸ asked)).trans params.symm

/-- A function that is supplied from outside, with a parameter of any type, and a call of it. -/
@[irreducible] def nativeSink : Program := (Id.run <| StateT.run (do
  let v ← Construction.param "v" .any
  let sink ← Construction.ambientFunction "sink" [v] .void
  Construction.pushEntry (← Construction.stmt (.function sink))
  let call ← Construction.expr
    (.call (← Construction.ident "sink") [← Construction.expr (.bool true)] none)
  Construction.pushEntry (← Construction.stmt (.expr call)) : Building Unit) {}).2.program

theorem nativeSink_function {d : DeclId} {f : FunctionDecl}
    (isFunction : nativeSink.function d = .ok f) :
    d = ⟨1⟩ ∧ f.params.length = 1 ∧ f.kind.isMember = false := by
  have isLast : (nativeSink.function ⟨1⟩).toOption.map
      (fun f => (f.params.length, f.kind.isMember)) = some (1, false) := by decide +kernel
  have size : nativeSink.decls.size = 2 := by decide +kernel
  obtain ⟨raw⟩ := d
  rcases raw with _ | _ | raw
  · have isParam : (nativeSink.function ⟨0⟩).toOption.isNone = true := by decide +kernel
    rw [isFunction] at isParam
    cases isParam
  · rw [isFunction] at isLast
    obtain ⟨count, notMember⟩ := Prod.mk.inj (Option.some.inj isLast)
    exact ⟨rfl, count, notMember⟩
  · have none : nativeSink.decls[raw + 2]? = none := Array.getElem?_eq_none (by omega)
    simp only [Program.function, Program.decl, none] at isFunction
    cases isFunction

/-- The name is asked for with one argument. -/
theorem nativeSink_asks {n : Nat} (asked : (Setup.of nativeSink .ambient {}).Asks "sink" n) :
    n = 1 := by
  cases asked with
  | call supplied isFunction =>
    obtain ⟨rfl, count, notMember⟩ := nativeSink_function isFunction
    cases supplied.called with
    | onObject isFunction' isMember =>
      obtain ⟨_, _, notMember'⟩ := nativeSink_function isFunction'
      rw [notMember'] at isMember
      cases isMember
    | byName named => simp [count]
    | ofClass isDecl isStatic => simp [count]

/-- What the module begins with: the call of closures, and the statements at the top. -/
def callFunction : Function := ⟨closureCallName, [.ptr], .ptr,
  some (closureCallBody startModule.1.closure startModule.1.bodySig startModule.1.call)⟩

def mainFunction : Function := ⟨"main", [], .void, none⟩

theorem functions_opened : (Work.opened {}).code.functions = #[callFunction, mainFunction] := rfl

/-- As long as there are two functions, these are the ones the module began with. -/
theorem functions_of_course (course : Course s (.opened {}) w) (two : w.code.functions.size = 2) :
    w.code.functions = #[callFunction, mainFunction] := by
  apply Array.ext
  · simp [two]
  · intro i inside inside'
    have known : (Work.opened {}).code.function? ⟨i⟩ = some #[callFunction, mainFunction][i] := by
      simp [Module.function?, functions_opened]
    have stays := (course.native_stays known List.not_mem_nil).1
    rw [Module.function?, Array.getElem?_eq_getElem inside] at stays
    exact Option.some.inj stays

theorem externalFunction_new {name : String} (arity : Nat)
    (new : w.code.functionByName name = none) :
    Compile.externalFunction name arity s w =
      .ok (w.code.declare name (List.replicate arity .ptr) .ptr).1
        { w with code := (w.code.declare name (List.replicate arity .ptr) .ptr).2 } := by
  have here : (get : Compile Work) s w = .ok w w := rfl
  simp only [Compile.externalFunction, Compile.bind_apply, here, new]
  rfl

/-- The functions in the end. -/
theorem nativeSink_functions : ∃ u body, compileUnitWithin 20 nativeSink .ambient {} = .ok u ∧
    u.entry = ⟨1⟩ ∧ u.code.functions = #[callFunction, { mainFunction with body := some body },
      ⟨"sink", [.ptr], .ptr, none⟩] := by
  have compiles : (match compileUnitWithin 20 nativeSink .ambient {} with
    | .ok u => decide (u.entry = ⟨1⟩ ∧ u.code.functions.toList.map
        (fun fn => (fn.name, fn.params, fn.ret, fn.body.isSome)) =
          [(closureCallName, [.ptr], .ptr, true), ("main", [], .void, true),
            ("sink", [.ptr], .ptr, false)])
    | .error _ => false) = true := by
    decide +kernel
  generalize compiled : compileUnitWithin 20 nativeSink .ambient {} = result at compiles
  cases result with
  | error failure => cases compiles
  | ok u =>
    obtain ⟨isEntry, shapes⟩ := of_decide_eq_true compiles
    obtain ⟨call, rest, isList, _, shapes⟩ := List.map_eq_cons_iff.mp shapes
    obtain ⟨⟨mainName, mainParams, mainRet, mainBody⟩, rest, rfl, isMain, shapes⟩ :=
      List.map_eq_cons_iff.mp shapes
    obtain ⟨⟨sinkName, sinkParams, sinkRet, sinkBody⟩, rest, rfl, isSink, shapes⟩ :=
      List.map_eq_cons_iff.mp shapes
    obtain rfl := List.map_eq_nil_iff.mp shapes
    have functions : u.code.functions = #[call, _, _] := Array.ext' isList
    have isCall : (Work.opened {}).code.function? ⟨0⟩ = some callFunction := rfl
    have stays := (opened_during compiled).native_stays isCall
      List.not_mem_nil (by simp [isEntry])
    rw [Module.function?, functions] at stays
    obtain rfl : call = callFunction := by simpa using stays
    simp only [Prod.mk.injEq, Option.isSome_iff_exists, Option.isSome_eq_false_iff,
      Option.isNone_iff_eq_none] at isMain isSink
    obtain ⟨rfl, rfl, rfl, body, rfl⟩ := isMain
    obtain ⟨rfl, rfl, rfl, rfl⟩ := isSink
    exact ⟨u, body, rfl, isEntry, functions⟩

/-- The argument as the call passes it. -/
theorem nativeSink_passes : ∃ decl f' w, nativeSink.function ⟨1⟩ = .ok decl ∧
    Emit.externalValues (.ofDepth 20) decl none [.boxed ⟨0⟩ .any] givenObject
      (.of nativeSink .ambient {}) (.opened {}) = .ok ([⟨0⟩], f') w ∧
    Course (.of nativeSink .ambient {}) (.opened {}) w ∧
    w.code.functions = #[callFunction, mainFunction] := by
  obtain ⟨⟨values, count⟩, ran, test⟩ := Compile.of_gives (show Compile.gives (do
      let decl ← Compile.asks (·.function ⟨1⟩)
      let (values, _) ← Emit.externalValues (.ofDepth 20) decl none [.boxed ⟨0⟩ .any] givenObject
      return (values, (← get).code.functions.size)) (.of nativeSink .ambient {}) (.opened {})
    (fun r => decide (r = ([⟨0⟩], 2))) by decide +kernel)
  cases of_decide_eq_true test
  obtain ⟨decl, _, ran₁, ran⟩ := Compile.of_bind_ok ran
  obtain ⟨rfl, isFunction⟩ := Compile.of_asks_ok ran₁
  obtain ⟨⟨values, f'⟩, w, passed, ran⟩ := Compile.of_bind_ok ran
  injection ran with gave
  obtain ⟨rfl, two⟩ := Prod.mk.inj gave
  have nothing : ∀ v, ¬ givenObject.Uses v := by rintro v (⟨⟨⟩⟩ | ⟨⟨⟩⟩ | ⟨⟨⟩⟩ | ⟨⟨⟩⟩)
  have stands : givenObject.Stands (.of nativeSink .ambient {}) (.opened {}) _ :=
    .start ⟨0⟩ [.ptr] (Compile.opened_sound _ _ _) rfl rfl .empty .empty nothing
  obtain ⟨_, goes, _⟩ := (Emit.externalValues_sound (U := fun v => v = ⟨0⟩)
    (Lowering.ofDepth_sound 20) decl (by simp) (by simp [Operand.boxed])).goes stands
    (by rintro v rfl; exact ⟨⟨0⟩, ⟨rfl, _, rfl, rfl⟩, .inl Nat.zero_lt_one⟩) passed
  have before := goes.proceeds.course
  exact ⟨decl, f', w, isFunction, passed, before, functions_of_course before two⟩

/-- A statement declares the function, and the resolver realizes it from outside. -/
theorem supplies_of_declared {p : Program} {r : Resolver} {c : Config} (st : StmtId) {d : DeclId}
    {symbol : String} (declares : (match (p.stmt st).kind with
      | .function d' => decide (d' = d)
      | _ => false) = true)
    (resolved : r.resolve p d [] none = ⟨true, symbol⟩) :
    (Setup.of p r c).Supplies d false symbol := by
  refine ⟨.byName ?_, [], none, rfl, resolved⟩
  split at declares
  · rename_i isDecl
    exact .declared (of_decide_eq_true declares ▸ isDecl)
  · cases declares

theorem nativeSink_supplied : (Setup.of nativeSink .ambient {}).Supplies ⟨1⟩ false "sink" :=
  supplies_of_declared ⟨0⟩ (by decide +kernel) (by decide +kernel)

/-- The call obtains the third function of the module, which has no body and takes the argument. -/
theorem native_calls_reach_native_sink : ∃ u fn,
    compileUnitWithin 20 nativeSink .ambient {} = .ok u ∧
    Obtained (.of nativeSink .ambient {}) u "sink" 1 ⟨2⟩ ∧
    "sink" ∉ [closureCallName, ({} : Config).entryName] ∧
    (∀ n, (Setup.of nativeSink .ambient {}).Asks "sink" n → n = 1) ∧
    u.code.function? ⟨2⟩ = some fn ∧ fn.body = none ∧ fn.params.length = 1 := by
  obtain ⟨u, body, compiled, isEntry, functions⟩ := nativeSink_functions
  obtain ⟨decl, f', w, isFunction, passed, before, known⟩ := nativeSink_passes
  have new : w.code.functionByName "sink" = none := by
    rw [Module.functionByName, known]
    rfl
  have asked : (Setup.of nativeSink .ambient {}).Asks "sink" 1 := by
    simpa [(nativeSink_function isFunction).2.1] using
      Setup.Asks.call nativeSink_supplied isFunction
  have declares := Turn.course (.native (s := .of nativeSink .ambient {}) asked new)
  have isSink : w.code.declare "sink" [.ptr] .ptr = (⟨2⟩, { w.code with
      functions := #[callFunction, mainFunction, ⟨"sink", [.ptr], .ptr, none⟩] }) := by
    rw [Compile.declare_new _ _ new, known]
    rfl
  have ran := externalFunction_new (s := .of nativeSink .ambient {}) 1 new
  rw [List.replicate_one, isSink] at ran declares
  have after := Work.During.of_functions (u := u) body (before.trans declares)
    (by rw [functions, isEntry]; rfl)
  have obtained : Obtained (.of nativeSink .ambient {}) u "sink" 1 ⟨2⟩ :=
    .call nativeSink_supplied isFunction passed
      ((opened_during compiled).between after before declares) after ran
  have apart : "sink" ∉ [closureCallName, ({} : Config).entryName] := by decide
  obtain ⟨_, reaches⟩ := native_calls_reach_native compiled
  obtain ⟨fn, finished, named, absent, takes⟩ := reaches "sink" 1 ⟨2⟩ obtained apart
  exact ⟨u, fn, compiled, obtained, apart, fun n => nativeSink_asks, finished, absent,
    (takes fun n => nativeSink_asks).1⟩

/-- A function that is supplied from outside under the name of the statements at the top, and a call
of it. -/
@[irreducible] def nativeMain : Program := (Id.run <| StateT.run (do
  let main ← Construction.ambientFunction "main" [] .void
  Construction.pushEntry (← Construction.stmt (.function main))
  let call ← Construction.expr (.call (← Construction.ident "main") [] none)
  Construction.pushEntry (← Construction.stmt (.expr call)) : Building Unit) {}).2.program

theorem nativeMain_supplied : (Setup.of nativeMain .ambient {}).Supplies ⟨0⟩ false "main" :=
  supplies_of_declared ⟨0⟩ (by decide +kernel) (by decide +kernel)

/-- What such a call obtains has a body: it is the function of the statements at the top. -/
theorem native_call_reaches_entry : ∃ u fn, compileUnitWithin 20 nativeMain .ambient {} = .ok u ∧
    Obtained (.of nativeMain .ambient {}) u "main" 0 u.entry ∧
    u.code.function? u.entry = some fn ∧ fn.body.isSome := by
  have compiles : (match compileUnitWithin 20 nativeMain .ambient {} with
    | .ok u => decide (u.entry = ⟨1⟩ ∧ (u.code.function? u.entry).map (·.body.isSome) = some true)
    | .error _ => false) = true := by
    decide +kernel
  have noParams : (nativeMain.function ⟨0⟩).toOption.map (·.params) = some [] := by decide +kernel
  generalize compiled : compileUnitWithin 20 nativeMain .ambient {} = result at compiles
  cases result with
  | error failure => cases compiles
  | ok u =>
    obtain ⟨isEntry, isDefined⟩ := of_decide_eq_true compiles
    obtain ⟨fn, known, has⟩ := Option.map_eq_some_iff.mp isDefined
    obtain ⟨decl, isFunction, isNil⟩ := Option.map_eq_some_iff.mp noParams
    have during := opened_during compiled
    have passed : Emit.externalValues (.ofDepth 20) decl none [] givenObject
        (.of nativeMain .ambient {}) (.opened {}) = .ok ([], givenObject) (.opened {}) := by
      rw [Emit.externalValues, isNil]
      rfl
    have ran : Compile.externalFunction "main" 0 (.of nativeMain .ambient {}) (.opened {}) =
        .ok u.entry (.opened {}) := by
      rw [isEntry]
      rfl
    exact ⟨u, fn, rfl, .call nativeMain_supplied (toOption_eq_some_iff.mp isFunction) passed during
      during ran, known, has⟩

end ShapeCompiler
