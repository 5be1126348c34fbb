import ShapeCompiler.Proofs.Growth

/-!
# Symbols of a module

Functions and globals are asked for by name, in any order, some of them under a name that is taken
already, and functions get their bodies in between.

* `Module.Request.perform`: a request to a module; `Module.after`: the module after requests;
* `Module.Becomes`: symbols stay, but for the body of a function, and names stay distinct;
* `Module.Request.Answered`: what a request is answered with, and what it changes;
* `Module.symbols_stay`: all of this for every sequence of requests to a fresh module.
-/

namespace ShapeCompiler.Code.Module

/-! ## Requests -/

/-- What is asked of a module about its symbols. -/
inductive Request where
  | declare (name : String) (params : List TyId) (ret : TyId)
  | declareUnique (name : String) (params : List TyId) (ret : TyId)
  | define (f : FuncId) (body : Body)
  | addGlobal (name : String) (ty : TyId) (readonly : Bool) (init : Initial)
  | declareGlobal (name : String) (ty : TyId) (readonly : Bool)

inductive Symbol where
  | function (f : FuncId)
  | global (g : GlobalId)
  deriving DecidableEq

def Symbol.raw : Symbol → Nat
  | function f => f.raw
  | global g => g.raw

/-- The answer to a request, and the module after it. -/
def Request.perform (m : Module) : Request → Option Symbol × Module
  | declare name params ret => (m.declare name params ret).map (some ∘ .function) id
  | declareUnique name params ret => (m.declareUnique name params ret).map (some ∘ .function) id
  | define f body => (none, m.define f body)
  | addGlobal name ty readonly init => (m.addGlobal name ty readonly init).map (some ∘ .global) id
  | declareGlobal name ty readonly => (m.declareGlobal name ty readonly).map (some ∘ .global) id

/-- The module after requests, one after the other. -/
def after (m : Module) (requests : List Request) : Module :=
  requests.foldl (fun m q => (q.perform m).2) m

/-- The symbols that requests are answered with, one after the other. -/
def answers (m : Module) : List Request → List Symbol
  | [] => []
  | q :: rest => (q.perform m).1.toList ++ answers (q.perform m).2 rest

/-- The request is for a symbol of its own. -/
def Request.Unique : Request → Prop
  | declareUnique .. | addGlobal .. => True
  | declare .. | define .. | declareGlobal .. => False

def Has (m : Module) : Symbol → Prop
  | .function f => (m.function? f).isSome
  | .global g => (m.global? g).isSome

/-! ## What a request does -/

/-- Names lead to one function and to one global. -/
structure Distinct (m : Module) : Prop where
  functions : m.functionNames.Nodup
  globals : m.globalNames.Nodup

/-- The second module has the symbols of the first. Only bodies of functions may differ. -/
structure Becomes (m m' : Module) : Prop where
  functions : ∀ f fn, m.function? f = some fn → ∃ body, m'.function? f = some { fn with body }
  globals : ∀ g x, m.global? g = some x → m'.global? g = some x
  distinct : m.Distinct → m'.Distinct

theorem Becomes.refl (m : Module) : m.Becomes m := ⟨fun _ fn h => ⟨fn.body, h⟩, fun _ _ h => h, id⟩

theorem Becomes.trans {m m' m'' : Module} (h : m.Becomes m') (h' : m'.Becomes m'') :
    m.Becomes m'' where
  functions f fn known := by
    obtain ⟨body, known'⟩ := h.functions f fn known
    exact h'.functions f { fn with body } known'
  globals g x known := h'.globals g x (h.globals g x known)
  distinct d := h'.distinct (h.distinct d)

theorem Becomes.has {m m' : Module} (h : m.Becomes m') {x : Symbol} (has : m.Has x) : m'.Has x := by
  cases x with
  | function f =>
    obtain ⟨fn, known⟩ := Option.isSome_iff_exists.mp has
    obtain ⟨body, known'⟩ := h.functions f fn known
    exact Option.isSome_of_eq_some known'
  | global g =>
    obtain ⟨x, known⟩ := Option.isSome_iff_exists.mp has
    exact Option.isSome_of_eq_some (h.globals g x known)

/-- The function is new, and looking up a name differs for its own name only. -/
structure NewFunction (m m' : Module) (f : FuncId) (fn : Function) : Prop where
  absent : m.function? f = none
  here : m'.function? f = some fn
  byName : ∀ n, m'.functionByName n = if n = fn.name then some f else m.functionByName n

/-- The global is new, and looking up a name differs for its own name only. -/
structure NewGlobal (m m' : Module) (g : GlobalId) (x : Global) : Prop where
  absent : m.global? g = none
  here : m'.global? g = some x
  byName : ∀ n, m'.globalByName n = if n = x.name then some g else m.globalByName n

/-- The answer to a request and what becomes of the module. A name that may be taken gives the
symbol that has it and changes nothing. Otherwise the symbol is new, and is what was asked for. -/
def Request.Answered (m : Module) (answer : Option Symbol) (m' : Module) : Request → Prop
  | declare name params ret =>
    (∃ f, m.functionByName name = some f ∧ answer = some (.function f) ∧ m' = m) ∨
    (name ∉ m.functionNames ∧
      ∃ f, answer = some (.function f) ∧ m.NewFunction m' f ⟨name, params, ret, none⟩)
  | declareUnique base params ret => ∃ f name, Chosen m.functionNames base name ∧
      answer = some (.function f) ∧ m.NewFunction m' f ⟨name, params, ret, none⟩
  | define f body => answer = none ∧ (∀ name, m'.functionByName name = m.functionByName name) ∧
      ∀ fn, m.function? f = some fn → m'.function? f = some { fn with body := some body }
  | addGlobal base ty readonly init => ∃ g name, Chosen m.globalNames base name ∧
      answer = some (.global g) ∧ m.NewGlobal m' g ⟨name, ty, readonly, some init⟩
  | declareGlobal name ty readonly =>
    (∃ g, m.globalByName name = some g ∧ answer = some (.global g) ∧ m' = m) ∨
    (name ∉ m.globalNames ∧
      ∃ g, answer = some (.global g) ∧ m.NewGlobal m' g ⟨name, ty, readonly, none⟩)

variable {m m' : Module}

theorem Distinct.functionByName (h : m.Distinct) {f : FuncId} {fn : Function}
    (known : m.function? f = some fn) : m.functionByName fn.name = some f := by
  rw [Module.functionByName, findIdx?_named_of_getElem? h.functions known]
  rfl

theorem Distinct.globalByName (h : m.Distinct) {g : GlobalId} {x : Global}
    (known : m.global? g = some x) : m.globalByName x.name = some g := by
  rw [Module.globalByName, findIdx?_named_of_getElem? h.globals known]
  rfl

theorem has_of_functionByName {name : String} {f : FuncId}
    (found : m.functionByName name = some f) :
    m.Has (.function f) := by
  obtain ⟨fn, known, _⟩ := functionByName_spec found
  exact Option.isSome_of_eq_some known

theorem has_of_globalByName {name : String} {g : GlobalId} (found : m.globalByName name = some g) :
    m.Has (.global g) := by
  obtain ⟨x, known, _⟩ := globalByName_spec found
  exact Option.isSome_of_eq_some known

/-- A function of a new name is added behind the others. -/
theorem declare_adds {name : String} (params : List TyId) (ret : TyId)
    (new : name ∉ m.functionNames) :
    m.Becomes (m.declare name params ret).2 ∧
    m.NewFunction (m.declare name params ret).2 (m.declare name params ret).1
      ⟨name, params, ret, none⟩ := by
  have pushed : m.declare name params ret =
      (⟨m.functions.size⟩, { m with functions := m.functions.push ⟨name, params, ret, none⟩ }) := by
    simp [declare, functionByName_eq_none_iff.mpr new]
  rw [pushed]
  refine ⟨⟨fun f fn known => ⟨fn.body, getElem?_push_of_some known⟩, fun _ _ known => known,
    fun h => ⟨nodup_named_push h.functions new, h.globals⟩⟩, ?_, ?_, fun n => ?_⟩
  · simp [function?]
  · simp [function?]
  · simp only [functionByName]
    rw [findIdx?_named_push new]
    split <;> rfl

theorem pushGlobal_adds {x : Global} (new : x.name ∉ m.globalNames) :
    m.Becomes (m.pushGlobal x).2 ∧ m.NewGlobal (m.pushGlobal x).2 (m.pushGlobal x).1 x := by
  refine ⟨⟨fun f fn known => ⟨fn.body, known⟩, fun _ _ known => getElem?_push_of_some known,
    fun h => ⟨h.functions, nodup_named_push h.globals new⟩⟩, ?_, ?_, fun n => ?_⟩
  · simp [global?, pushGlobal]
  · simp [global?, pushGlobal]
  · simp only [globalByName, pushGlobal]
    rw [findIdx?_named_push new]
    split <;> rfl

/-- With its body a function has the name it had. -/
theorem functionNames_define (m : Module) (f : FuncId) (body : Body) :
    (m.define f body).functionNames = m.functionNames := by
  apply List.ext_getElem?
  intro i
  simp only [functionNames, define, List.getElem?_map, Array.getElem?_toList, Array.getElem?_modify]
  split
  · cases m.functions[i]? <;> rfl
  · rfl

theorem functionByName_congr (names : m'.functionNames = m.functionNames) (name : String) :
    m'.functionByName name = m.functionByName name := by
  have search (m : Module) : m.functionByName name =
      (m.functionNames.findIdx? (· = name)).map FuncId.mk := by
    simp only [functionByName, functionNames, List.findIdx?_map]
    rfl
  rw [search, search, names]

theorem becomes_define (m : Module) (f : FuncId) (body : Body) : m.Becomes (m.define f body) := by
  refine ⟨fun f' fn known => ?_, fun _ _ known => known, fun h => ⟨?_, h.globals⟩⟩
  · simp only [function?] at known
    by_cases same : f.raw = f'.raw
    · exact ⟨some body, by simp [function?, define, Array.getElem?_modify, same, known]⟩
    · exact ⟨fn.body, by simp [function?, define, Array.getElem?_modify, same, known]⟩
  · rw [functionNames_define]
    exact h.functions

theorem Request.perform_spec (m : Module) (q : Request) :
    m.Becomes (q.perform m).2 ∧ q.Answered m (q.perform m).1 (q.perform m).2 := by
  cases q with
  | declare name params ret =>
    cases found : m.functionByName name with
    | some f =>
      have performed : (declare name params ret).perform m = (some (.function f), m) := by
        simp [perform, Module.declare, found]
      rw [performed]
      exact ⟨.refl m, .inl ⟨f, found, rfl, rfl⟩⟩
    | none =>
      have new := functionByName_eq_none_iff.mp found
      obtain ⟨becomes, added⟩ := declare_adds params ret new
      exact ⟨becomes, .inr ⟨new, _, rfl, added⟩⟩
  | declareUnique base params ret =>
    have chosen := chosen_uniqueName m.functionNames base
    obtain ⟨becomes, added⟩ := declare_adds params ret chosen.free
    exact ⟨becomes, _, _, chosen, rfl, added⟩
  | define f body =>
    refine ⟨becomes_define m f body, rfl, functionByName_congr (functionNames_define m f body),
      fun fn known => ?_⟩
    simp only [function?] at known
    simp [perform, Module.define, function?, Array.getElem?_modify, known]
  | addGlobal base ty readonly init =>
    have chosen := chosen_uniqueName m.globalNames base
    obtain ⟨becomes, added⟩ := pushGlobal_adds (x := ⟨_, ty, readonly, some init⟩) chosen.free
    exact ⟨becomes, _, _, chosen, rfl, added⟩
  | declareGlobal name ty readonly =>
    cases found : m.globalByName name with
    | some g =>
      have performed : (declareGlobal name ty readonly).perform m = (some (.global g), m) := by
        simp [perform, Module.declareGlobal, found]
      rw [performed]
      exact ⟨.refl m, .inl ⟨g, found, rfl, rfl⟩⟩
    | none =>
      have new := globalByName_eq_none_iff.mp found
      have performed : (declareGlobal name ty readonly).perform m =
          (m.pushGlobal ⟨name, ty, readonly, none⟩).map (some ∘ .global) id := by
        simp [perform, Module.declareGlobal, found]
      obtain ⟨becomes, added⟩ := pushGlobal_adds (x := ⟨name, ty, readonly, none⟩) new
      rw [performed]
      exact ⟨becomes, .inr ⟨new, _, rfl, added⟩⟩

theorem NewFunction.has {f : FuncId} {fn : Function} (h : m.NewFunction m' f fn) :
    m'.Has (.function f) ∧ ¬ m.Has (.function f) := by
  simp [Has, h.absent, h.here]

theorem NewGlobal.has {g : GlobalId} {x : Global} (h : m.NewGlobal m' g x) :
    m'.Has (.global g) ∧ ¬ m.Has (.global g) := by
  simp [Has, h.absent, h.here]

/-- The module has the symbol that a request is answered with. -/
theorem Request.Answered.has {q : Request} {x : Symbol} (h : q.Answered m (some x) m') :
    m'.Has x := by
  cases q with
  | declare name params ret =>
    rcases h with ⟨f, found, answer, rfl⟩ | ⟨_, f, answer, added⟩ <;> cases answer
    · exact has_of_functionByName found
    · exact added.has.1
  | declareUnique base params ret =>
    obtain ⟨f, name, _, answer, added⟩ := h
    cases answer
    exact added.has.1
  | define f body => cases h.1
  | addGlobal base ty readonly init =>
    obtain ⟨g, name, _, answer, added⟩ := h
    cases answer
    exact added.has.1
  | declareGlobal name ty readonly =>
    rcases h with ⟨g, found, answer, rfl⟩ | ⟨_, g, answer, added⟩ <;> cases answer
    · exact has_of_globalByName found
    · exact added.has.1

/-- A request for a symbol of its own is answered with one that was not there. -/
theorem Request.Answered.new {q : Request} {answer : Option Symbol} (h : q.Answered m answer m')
    (unique : q.Unique) : ∃ x, answer = some x ∧ ¬ m.Has x := by
  cases q with
  | declareUnique base params ret =>
    obtain ⟨f, name, _, isAnswer, added⟩ := h
    exact ⟨.function f, isAnswer, added.has.2⟩
  | addGlobal base ty readonly init =>
    obtain ⟨g, name, _, isAnswer, added⟩ := h
    exact ⟨.global g, isAnswer, added.has.2⟩
  | declare | define | declareGlobal => exact unique.elim

/-! ## All requests -/

theorem after_becomes (m : Module) (requests : List Request) : m.Becomes (after m requests) := by
  induction requests generalizing m with
  | nil => exact .refl m
  | cons q rest ih => exact (q.perform_spec m).1.trans (ih (q.perform m).2)

/-- By induction on the requests: what is there once stays. -/
theorem has_of_mem_answers (m : Module) (requests : List Request) :
    ∀ x ∈ answers m requests, (after m requests).Has x := by
  induction requests generalizing m with
  | nil => simp [answers]
  | cons q rest ih =>
    obtain ⟨-, answered⟩ := q.perform_spec m
    intro x inside
    rcases List.mem_append.mp inside with first | later
    · rw [Option.mem_toList.mp first] at answered
      exact (after_becomes (q.perform m).2 rest).has answered.has
    · exact ih (q.perform m).2 x later

/-- The number of symbols of a module. -/
def count (m : Module) : Nat := m.functions.size + m.globals.size

theorem raw_lt_count {x : Symbol} (has : m.Has x) : x.raw < m.count := by
  cases x with
  | function f =>
    have inside : f.raw < m.functions.size := by simpa [Has, function?] using has
    exact Nat.lt_add_right _ inside
  | global g =>
    have inside : g.raw < m.globals.size := by simpa [Has, global?] using has
    exact Nat.lt_add_left _ inside

theorem count_declare (m : Module) (name : String) (params : List TyId) (ret : TyId) :
    (m.declare name params ret).2.count ≤ m.count + 1 := by
  unfold declare
  split
  · exact Nat.le_succ _
  · simp [count, Nat.add_right_comm]

theorem count_pushGlobal (m : Module) (x : Global) : (m.pushGlobal x).2.count = m.count + 1 := by
  simp [pushGlobal, count, Nat.add_assoc]

/-- A request adds one symbol at most. -/
theorem count_perform (m : Module) (q : Request) : (q.perform m).2.count ≤ m.count + 1 := by
  cases q with
  | declare name params ret => exact count_declare m name params ret
  | declareUnique base params ret => exact count_declare m _ params ret
  | define f body => simp [Request.perform, define, count]
  | addGlobal base ty readonly init => exact Nat.le_of_eq (count_pushGlobal m _)
  | declareGlobal name ty readonly =>
    change (m.declareGlobal name ty readonly).2.count ≤ _
    unfold declareGlobal
    split
    · exact Nat.le_succ _
    · exact Nat.le_of_eq (count_pushGlobal m _)

theorem count_after (m : Module) (requests : List Request) :
    (after m requests).count ≤ m.count + requests.length := by
  induction requests generalizing m with
  | nil => exact Nat.le_refl _
  | cons q rest ih =>
    have one := count_perform m q
    have others := ih (q.perform m).2
    simp only [after, List.foldl_cons, List.length_cons] at others ⊢
    omega

/-- Requests made one after the other to a fresh module. Names are distinct, and each symbol is
found by its name. What is there after the first of the requests is there after all of them,
unchanged but for the body of a function. Symbols are numbered below the number of requests. A
request for a symbol of its own is always answered, and with one that no earlier request was
answered with. -/
theorem symbols_stay (name : String) (first rest : List Request) :
    let now := after { name } first
    now.Distinct ∧
    (∀ f fn, now.function? f = some fn → now.functionByName fn.name = some f ∧
      ∃ body, (after now rest).function? f = some { fn with body }) ∧
    (∀ g x, now.global? g = some x → now.globalByName x.name = some g ∧
      (after now rest).global? g = some x) ∧
    (∀ x ∈ answers { name } first, now.Has x ∧ x.raw < first.length) ∧
    ∀ q : Request, q.Answered now (q.perform now).1 (q.perform now).2 ∧
      (q.Unique → ∃ x, (q.perform now).1 = some x ∧ x ∉ answers { name } first) := by
  intro now
  have distinct : now.Distinct :=
    (after_becomes { name } first).distinct ⟨List.nodup_nil, List.nodup_nil⟩
  have later := after_becomes now rest
  have known := has_of_mem_answers { name } first
  refine ⟨distinct, fun f fn there => ⟨distinct.functionByName there, later.functions f fn there⟩,
    fun g x there => ⟨distinct.globalByName there, later.globals g x there⟩,
    fun x inside => ⟨known x inside, ?_⟩, fun q => ?_⟩
  · have few := count_after { name } first
    have below := raw_lt_count (known x inside)
    simp only [count, Array.size_empty, Nat.zero_add] at few below
    exact Nat.lt_of_lt_of_le below few
  · have answered := (q.perform_spec now).2
    refine ⟨answered, fun unique => ?_⟩
    obtain ⟨x, isAnswer, new⟩ := answered.new unique
    exact ⟨x, isAnswer, fun inside => new (known x inside)⟩

end ShapeCompiler.Code.Module
