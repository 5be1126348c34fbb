import Mathlib.Logic.Relation
import ShapeCompiler.Proofs.Callees
import ShapeCompiler.Proofs.Quiet

/-!
# Functions that get a body here, and functions supplied from outside

Both share the names of a module, and the module grows while bodies are compiled.

* `Setup.Supplies`, `Setup.Asks`: what the resolver supplies under a name, and how many arguments it
  is called with;
* `Work.Turn`: one change of the functions; `Work.Course`: any number of changes;
* `Work.Course.native_stays`: a function that is not compiled here stays as it is declared;
* `Work.Accepts`: a function can be called with so many arguments;
* `Work.Sorted`: every function is compiled here, or goes by a name of the compiler's own, or is
  declared as it is asked for;
* `externalFunction_native`: hence what is obtained from outside has no body and takes what it is
  asked for with.
-/

namespace ShapeCompiler

open Source Code

/-- In some call, on an object or on none, the resolver realizes the declaration by what is supplied
under the symbol. -/
structure Setup.Supplies (s : Setup) (d : DeclId) (onObject : Bool) (symbol : String) : Prop where
  called : s.program.Called d onObject
  resolved : ∃ args receiver, receiver.isSome = onObject ∧
    s.resolver.resolve s.program d args receiver = ⟨true, symbol⟩

/-- What is supplied under the symbol is called with so many arguments, the object among them. -/
inductive Setup.Asks (s : Setup) (symbol : String) : Nat → Prop where
  | call {d : DeclId} {f : FunctionDecl} {onObject : Bool} (supplied : s.Supplies d onObject symbol)
    (isFunction : s.program.function d = .ok f) : Asks s symbol (onObject.toNat + f.params.length)

namespace Work

/-- One change of the functions, with what the compiler knows when it makes it. -/
inductive Turn (s : Setup) (w : Work) : Work → Prop where
  | aside {w' : Work} (functions : w'.code.functions = w.code.functions)
    (compiled : w'.compiled = w.compiled) : Turn s w w'
  | native {symbol : String} {arity : Nat} (asked : s.Asks symbol arity)
    (new : w.code.functionByName symbol = none) :
    Turn s w { w with code := (w.code.declare symbol (List.replicate arity .ptr) .ptr).2 }
  | own (name : String) (arity : Nat) (new : w.code.functionByName name = none) :
    Turn s w { w with
      code := (w.code.declare name (List.replicate arity .ptr) .ptr).2
      compiled := (w.code.declare name (List.replicate arity .ptr) .ptr).1 :: w.compiled }
  | define {f : FuncId} (body : Code.Body) (isOwn : f ∈ w.compiled) :
    Turn s w { w with code := w.code.define f body }

/-- The second state comes from the first by changes of the functions. -/
def Course (s : Setup) : Work → Work → Prop := Relation.ReflTransGen (Turn s)

variable {s : Setup} {w w' w'' : Work} {f : FuncId} {fn : Function}

theorem Course.refl (w : Work) : Course s w w := Relation.ReflTransGen.refl

theorem Course.trans (h : Course s w w') (h' : Course s w' w'') : Course s w w'' :=
  Relation.ReflTransGen.trans h h'

theorem Turn.course (h : Turn s w w') : Course s w w' := .single h

theorem Still.course (h : Still w w') : Course s w w' := Turn.course (.aside h.functions h.compiled)

theorem Beside.course (h : Beside w w') : Course s w w' := by
  cases h with
  | mk registry still => exact Turn.course (.aside still.functions still.compiled)

/-! ## What stays -/

theorem function?_declare {m : Module} {name : String} {params : List TyId} {ret : TyId}
    (new : m.functionByName name = none) (f : FuncId) : (m.declare name params ret).2.function? f =
      if f.raw = m.functions.size then some ⟨name, params, ret, none⟩ else m.function? f := by
  simp [Compile.declare_new params ret new, Module.function?, Array.getElem?_push]

theorem raw_lt_of_function? {m : Module} (known : m.function? f = some fn) :
    f.raw < m.functions.size := (Array.getElem?_eq_some_iff.mp known).1

theorem function?_define {m : Module} {body : Code.Body} (known : m.function? f = some fn) :
    (m.define f body).function? f = some { fn with body := some body } := by
  simp only [Module.function?] at known
  simp [Module.define, Module.function?, Array.getElem?_modify, known]

/-- What is known of a function that is not defined. -/
theorem function?_define_ne {m : Module} {f' : FuncId} (body : Code.Body) (apart : f' ≠ f) :
    (m.define f' body).function? f = m.function? f := by
  have rawApart : f'.raw ≠ f.raw := fun same => apart (by cases f; cases f'; simpa using same)
  simp [Module.define, Module.function?, Array.getElem?_modify, rawApart]

theorem Turn.compiled_stays (h : Turn s w w') (isOwn : f ∈ w.compiled) : f ∈ w'.compiled := by
  cases h with
  | aside functions compiled => exact compiled ▸ isOwn
  | native asked new => exact isOwn
  | own name arity new => exact List.mem_cons_of_mem _ isOwn
  | define body other => exact isOwn

theorem Course.compiled_stays (h : Course s w w') (isOwn : f ∈ w.compiled) : f ∈ w'.compiled := by
  induction h with
  | refl => exact isOwn
  | tail _ last ih => exact last.compiled_stays ih

/-- Only functions that are new are going to be compiled. -/
theorem Turn.native_stays (h : Turn s w w') (known : w.code.function? f = some fn)
    (notOwn : f ∉ w.compiled) : w'.code.function? f = some fn ∧ f ∉ w'.compiled := by
  have there := raw_lt_of_function? known
  cases h with
  | aside functions compiled =>
    rw [Module.function?, functions]
    exact ⟨known, compiled ▸ notOwn⟩
  | native asked new =>
    rw [function?_declare new, if_neg (by omega)]
    exact ⟨known, notOwn⟩
  | own name arity new =>
    rw [function?_declare new, if_neg (by omega)]
    refine ⟨known, ?_⟩
    rw [Compile.declare_new _ _ new, List.mem_cons]
    rintro (rfl | isOwn)
    · simp at there
    · exact notOwn isOwn
  | define body isOwn =>
    rw [function?_define_ne body (ne_of_mem_of_not_mem isOwn notOwn)]
    exact ⟨known, notOwn⟩

/-- A function that is not compiled here stays as it is declared. -/
theorem Course.native_stays (h : Course s w w') (known : w.code.function? f = some fn)
    (notOwn : f ∉ w.compiled) : w'.code.function? f = some fn ∧ f ∉ w'.compiled := by
  induction h with
  | refl => exact ⟨known, notOwn⟩
  | tail _ last ih => exact last.native_stays ih.1 ih.2

/-- A function keeps its name and its parameters. -/
theorem Turn.function_stays (h : Turn s w w') (known : w.code.function? f = some fn) :
    ∃ body, w'.code.function? f = some { fn with body } := by
  have there := raw_lt_of_function? known
  cases h with
  | aside functions compiled =>
    rw [Module.function?, functions]
    exact ⟨fn.body, known⟩
  | native asked new =>
    rw [function?_declare new, if_neg (by omega)]
    exact ⟨fn.body, known⟩
  | own name arity new =>
    rw [function?_declare new, if_neg (by omega)]
    exact ⟨fn.body, known⟩
  | @define f' body isOwn =>
    by_cases same : f' = f
    · subst same
      exact ⟨some body, function?_define known⟩
    · rw [function?_define_ne body same]
      exact ⟨fn.body, known⟩

theorem Course.function_stays (h : Course s w w') (known : w.code.function? f = some fn) :
    ∃ body, w'.code.function? f = some { fn with body } := by
  induction h with
  | refl => exact ⟨fn.body, known⟩
  | tail _ last ih =>
    obtain ⟨_, known'⟩ := ih
    obtain ⟨body, known''⟩ := last.function_stays known'
    exact ⟨body, known''⟩

/-! ## What can be called -/

/-- The function can be called with so many arguments: it is the call of closures, or one that is
compiled here, or one that is asked for with as many. -/
inductive Accepts (s : Setup) (w : Work) : FuncId → Nat → Prop where
  | closures : Accepts s w s.runtime.call 1
  | own {f : FuncId} {fn : Function} (isOwn : f ∈ w.compiled)
    (known : w.code.function? f = some fn) : Accepts s w f fn.params.length
  | native {f : FuncId} {fn : Function} {n : Nat} (notOwn : f ∉ w.compiled)
    (known : w.code.function? f = some fn) (asked : s.Asks fn.name n) : Accepts s w f n

theorem Course.accepts {n : Nat} (h : Course s w w') (accepts : Accepts s w f n) :
    Accepts s w' f n := by
  cases accepts with
  | closures => exact .closures
  | own isOwn known =>
    obtain ⟨body, known'⟩ := h.function_stays known
    have own := Accepts.own (s := s) (h.compiled_stays isOwn) known'
    exact own
  | native notOwn known asked =>
    obtain ⟨known', notOwn'⟩ := h.native_stays known notOwn
    exact .native notOwn' known' asked

/-! ## What functions there are -/

/-- The state in which the statements at the top are begun: their function is declared. -/
def opened (c : Config) : Work :=
  { Work.start with code := (startModule.2.declare c.entryName [] .void).2 }

/-- The function is supplied from outside and takes what it is called with. -/
structure Native (s : Setup) (fn : Function) : Prop where
  absent : fn.body = none
  asked : s.Asks fn.name fn.params.length

/-- Every function is compiled here, or goes by a name of the compiler's own, or is supplied from
outside. -/
structure Sorted (s : Setup) (w : Work) : Prop where
  kinds : ∀ f fn, w.code.function? f = some fn →
    f ∈ w.compiled ∨ fn.name ∈ [closureCallName, s.config.entryName] ∨ Native s fn
  inside : ∀ f ∈ w.compiled, f.raw < w.code.functions.size

theorem Turn.sorted (h : Turn s w w') (sorted : w.Sorted s) : w'.Sorted s := by
  cases h with
  | aside functions compiled =>
    refine ⟨?_, ?_⟩
    · simpa only [Module.function?, functions, compiled] using sorted.kinds
    · simpa only [functions, compiled] using sorted.inside
  | native asked new =>
    refine ⟨fun f fn known => ?_, fun f isOwn => ?_⟩
    · rw [function?_declare new] at known
      split at known
      · cases known
        exact .inr (.inr ⟨rfl, by simpa using asked⟩)
      · exact sorted.kinds f fn known
    · have := sorted.inside f isOwn
      simp only [Compile.declare_new _ _ new, Array.size_push]
      omega
  | own name arity new =>
    have isNew : (w.code.declare name (List.replicate arity .ptr) .ptr).1 =
        ⟨w.code.functions.size⟩ := by rw [Compile.declare_new _ _ new]
    refine ⟨fun f fn known => ?_, fun f isOwn => ?_⟩
    · rw [function?_declare new] at known
      split at known
      · rename_i here
        refine .inl (List.mem_cons.mpr (.inl ?_))
        rw [isNew, ← here]
      · exact (sorted.kinds f fn known).imp_left (List.mem_cons_of_mem _)
    · simp only [Compile.declare_new _ _ new, Array.size_push]
      rcases List.mem_cons.mp isOwn with rfl | old
      · rw [isNew]
        exact Nat.lt_succ_self _
      · have := sorted.inside f old
        omega
  | @define f' body isOwn =>
    refine ⟨fun f fn known => ?_, fun f inside => ?_⟩
    · by_cases same : f' = f
      · exact .inl (same ▸ isOwn)
      · rw [function?_define_ne body same] at known
        exact sorted.kinds f fn known
    · simpa [Module.define] using sorted.inside f inside

theorem Course.sorted (h : Course s w w') (sorted : w.Sorted s) : w'.Sorted s := by
  induction h with
  | refl => exact sorted
  | tail _ last ih => exact last.sorted ih

end Work

/-! ## Parts that declare functions -/

namespace Compile

open Work

variable {s : Setup} {w w' : Work} {f : FuncId} {name : String} {arity : Nat}

theorem declareCompiled_course (ran : declareCompiled name arity s w = .ok f w') :
    Course s w w' ∧ f ∈ w'.compiled := by
  have new := Module.functionByName_eq_none_iff.mpr (uniqueName_not_mem w.code.functionNames name)
  cases ran
  exact ⟨Turn.course (.own (uniqueName w.code.functionNames name) arity new), List.mem_cons_self⟩

theorem define_course {body : Code.Body} {a : Unit} (isOwn : f ∈ w.compiled)
    (ran : define f body s w = .ok a w') : Course s w w' := by
  cases ran
  exact Turn.course (.define body isOwn)

/-- A function of the name that is there and not compiled, or a new one. -/
theorem of_externalFunction_ok (ran : externalFunction name arity s w = .ok f w') :
    (w.code.functionByName name = some f ∧ f ∉ w.compiled ∧ w' = w) ∨
    (w.code.functionByName name = none ∧
      f = (w.code.declare name (List.replicate arity .ptr) .ptr).1 ∧
      w' = { w with code := (w.code.declare name (List.replicate arity .ptr) .ptr).2 }) := by
  obtain ⟨_, w₁, ran₁, ran⟩ := of_bind_ok ran
  cases ran₁
  cases found : w.code.functionByName name with
  | some f' =>
    simp only [found] at ran
    obtain ⟨_, w₁, ran₁, ran⟩ := of_bind_ok ran
    cases ran₁
    split at ran
    · cases ran
    · rename_i notOwn
      cases ran
      exact .inl ⟨rfl, notOwn, rfl⟩
  | none =>
    simp only [found] at ran
    cases ran
    exact .inr ⟨rfl, rfl, rfl⟩

theorem externalFunction_course (asked : s.Asks name arity)
    (ran : externalFunction name arity s w = .ok f w') : Course s w w' := by
  rcases of_externalFunction_ok ran with ⟨_, _, rfl⟩ | ⟨new, _, rfl⟩
  · exact .refl _
  · exact Turn.course (.native asked new)

/-- What is declared anew is known and not compiled here. -/
theorem declared_apart (sorted : w.Sorted s) (new : w.code.functionByName name = none)
    (arity : Nat) :
    (w.code.declare name (List.replicate arity .ptr) .ptr).2.function?
        (w.code.declare name (List.replicate arity .ptr) .ptr).1 =
      some ⟨name, List.replicate arity .ptr, .ptr, none⟩ ∧
    (w.code.declare name (List.replicate arity .ptr) .ptr).1 ∉ w.compiled := by
  have isNew : (w.code.declare name (List.replicate arity .ptr) .ptr).1 =
      ⟨w.code.functions.size⟩ := by rw [declare_new _ _ new]
  constructor
  · rw [function?_declare new, if_pos (by rw [isNew])]
  · intro isOwn
    have := sorted.inside _ isOwn
    rw [isNew] at this
    exact Nat.lt_irrefl _ this

theorem externalFunction_accepts (sorted : w.Sorted s) (asked : s.Asks name arity)
    (ran : externalFunction name arity s w = .ok f w') : w'.Accepts s f arity := by
  rcases of_externalFunction_ok ran with ⟨found, notOwn, rfl⟩ | ⟨new, rfl, rfl⟩
  · obtain ⟨fn, known, rfl⟩ := Module.functionByName_spec found
    exact .native notOwn known asked
  · obtain ⟨known, notOwn⟩ := declared_apart sorted new arity
    exact .native notOwn known asked

/-- What is obtained from outside under a name that is not one of the compiler's own has no body and
takes what it is called with. -/
theorem externalFunction_native (sorted : w.Sorted s) (asked : s.Asks name arity)
    (apart : name ∉ [closureCallName, s.config.entryName])
    (ran : externalFunction name arity s w = .ok f w') :
    ∃ fn, w'.code.function? f = some fn ∧ f ∉ w'.compiled ∧ fn.name = name ∧ Native s fn := by
  rcases of_externalFunction_ok ran with ⟨found, notOwn, rfl⟩ | ⟨new, rfl, rfl⟩
  · obtain ⟨fn, known, rfl⟩ := Module.functionByName_spec found
    rcases sorted.kinds f fn known with isOwn | isReserved | native
    · exact absurd isOwn notOwn
    · exact absurd isReserved apart
    · exact ⟨fn, known, notOwn, rfl, native⟩
  · obtain ⟨known, notOwn⟩ := declared_apart sorted new arity
    exact ⟨_, known, notOwn, rfl, rfl, by simpa using asked⟩

/-- An entry of a table is what the resolver supplies for the method, or is compiled here. -/
theorem of_tableEntry_ok {root : DeclId} {n : Name} {m : DeclId} {entry : FuncId × Bool}
    (ran : tableEntry root n m s w = .ok entry w') : ∃ decl, s.program.function m = .ok decl ∧
    ((∃ symbol, s.resolver.resolve s.program m [] (some (.instanceOf root)) = ⟨true, symbol⟩ ∧
        externalFunction symbol (decl.params.length + 1) s w = .ok entry.1 w' ∧ entry.2 = false) ∨
      (∃ symbol, declareCompiled symbol (decl.params.length + 1) s w = .ok entry.1 w') ∧
        entry.2 = true) := by
  obtain ⟨decl, w₁, ran₁, ran⟩ := of_bind_ok ran
  obtain ⟨rfl, isFunction⟩ := of_asks_ok ran₁
  obtain ⟨resolution, w₁, ran₁, ran⟩ := of_bind_ok ran
  cases ran₁
  refine ⟨decl, isFunction, ?_⟩
  split at ran
  · rename_i external
    obtain ⟨f, w₁, ran₁, ran⟩ := of_bind_ok ran
    cases ran
    exact .inl ⟨_, by rw [← external], ran₁, rfl⟩
  · obtain ⟨_, w₁, ran₁, ran⟩ := of_bind_ok ran
    cases ran₁
    obtain ⟨_, w₁, ran₁, ran⟩ := of_bind_ok ran
    cases ran₁
    obtain ⟨f, w₁, ran₁, ran⟩ := of_bind_ok ran
    cases ran
    exact .inr ⟨⟨_, ran₁⟩, rfl⟩

/-- What a table asks for goes to the object and takes the parameters of the method. -/
theorem asks_of_entry {root m : DeclId} {decl : FunctionDecl} {symbol : String}
    (member : s.program.Called m true) (isFunction : s.program.function m = .ok decl)
    (resolved : s.resolver.resolve s.program m [] (some (.instanceOf root)) = ⟨true, symbol⟩) :
    s.Asks symbol (decl.params.length + 1) := by
  rw [Nat.add_comm]
  have supplied : s.Supplies m true symbol := ⟨member, [], some (.instanceOf root), rfl, resolved⟩
  exact .call supplied isFunction

/-- An entry of a table that needs a body is compiled here. -/
theorem tableEntry_course {root : DeclId} {n : Name} {m : DeclId} {entry : FuncId × Bool}
    (member : s.program.Called m true)
    (ran : tableEntry root n m s w = .ok entry w') :
    Course s w w' ∧ (entry.2 = true → entry.1 ∈ w'.compiled) := by
  obtain ⟨decl, isFunction, native | own⟩ := of_tableEntry_ok ran
  · obtain ⟨symbol, resolved, obtained, isNative⟩ := native
    have asked := asks_of_entry member isFunction resolved
    exact ⟨externalFunction_course asked obtained, by simp [isNative]⟩
  · obtain ⟨⟨symbol, declared⟩, _⟩ := own
    obtain ⟨course, isOwn⟩ := declareCompiled_course declared
    exact ⟨course, fun _ => isOwn⟩

end Compile

end ShapeCompiler
