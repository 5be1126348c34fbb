import Mathlib.Data.Set.Function
import ShapeCompiler.Proofs.Moments

/-!
# What was registered stays

Shapes, environments and the environments of declarations and closures are registered while a
program is compiled, in any order, some of them again and some against what was registered before.

* `Registry.Request.perform`: a request to the registry, as a step of compilation;
* `Registry.after`: the state after requests, granted or refused;
* `Registry.Filed`: the ids of shapes have no gaps and correspond to the names asked for;
* `Registry.Keeps`: what the one registry holds, the other holds unchanged;
* `Registry.records_stay`: all of this for every sequence of requests to an empty registry.
-/

namespace ShapeCompiler.Registry

open Source Code

/-! ## Requests -/

inductive Request where
  | shape (shape : Shape)
  | env (e : Environment)
  | bindDecl (d : DeclId) (env : EnvId)
  | bindClosure (code : FuncId) (c : ClosureRecord)

/-- What a request gives that is granted. -/
inductive Receipt where
  | shape (id : ShapeId)
  | env (id : EnvId)
  | bound

/-- The step of compilation that makes a request. -/
def Request.perform : Request → Compile Receipt
  | .shape new => return .shape (← Compile.registerShape new)
  | .env new => return .env (← Compile.addEnv new)
  | .bindDecl d id => do
    Compile.register (·.bindDeclEnv d id)
    return .bound
  | .bindClosure code c => do
    Compile.register (·.bindClosure code c)
    return .bound

/-- The request would give a declaration, or some code, another environment than it has. -/
def Request.Conflicts (r : Registry) : Request → Prop
  | .bindDecl d id => ∃ old, r.declEnv? d = some old ∧ old ≠ id
  | .bindClosure code c => ∃ old, r.closure? code = some old ∧ old.env ≠ c.env
  | .shape _ | .env _ => False

/-- The registry holds what was asked for. -/
def Request.Granted (r : Registry) : Request → Receipt → Prop
  | .shape new, .shape id => r.shapeByName new.name = some id
  | .env new, .env id => r.env? id = some new
  | .bindDecl d id, .bound => r.declEnv? d = some id
  | .bindClosure code c, .bound => ∃ kept, r.closure? code = some kept ∧ kept.env = c.env
  | _, _ => False

/-- The state after requests, one after the other. -/
def after (s : Setup) (w : Work) (requests : List Request) : Work :=
  requests.foldl (fun w q => q.perform.endOf s w) w

theorem after_append (s : Setup) (w : Work) (first rest : List Request) :
    after s w (first ++ rest) = after s (after s w first) rest :=
  List.foldl_append

/-- The names of the shapes asked for. -/
def namesIn (requests : List Request) : Set String :=
  {name | ∃ shape, .shape shape ∈ requests ∧ shape.name = name}

/-! ## Shapes and their names -/

/-- The ids of shapes are the numbers below their count, and each name asked for is that of one. -/
structure Filed (r : Registry) (names : Set String) : Prop where
  dense : ∀ id, (r.shape? id).isSome ↔ id.raw < r.shapeCount
  bijective : Set.BijOn r.shapeName {id | id.raw < r.shapeCount} names
  byName : ∀ name id, r.shapeByName name = some id ↔ id.raw < r.shapeCount ∧ r.shapeName id = name

/-- What the one registry holds, the other one holds unchanged. -/
structure Keeps (r r' : Registry) : Prop where
  shape : ∀ id shape, r.shape? id = some shape → r'.shape? id = some shape
  named : ∀ name id, r.shapeByName name = some id → r'.shapeByName name = some id
  records : r.Extends r'

theorem Keeps.refl (r : Registry) : r.Keeps r := ⟨fun _ _ h => h, fun _ _ h => h, .refl r⟩

theorem Keeps.trans {r r' r'' : Registry} (h : r.Keeps r') (h' : r'.Keeps r'') : r.Keeps r'' where
  shape id shape known := h'.shape id shape (h.shape id shape known)
  named name id known := h'.named name id (h.named name id known)
  records := h.records.trans h'.records

variable {r : Registry}

theorem shape?_isSome_iff (id : ShapeId) : (r.shape? id).isSome ↔ id.raw < r.shapeCount := by
  simp [shape?, shapeCount]

theorem shapeName_of_shape? {id : ShapeId} {shape : Shape} (known : r.shape? id = some shape) :
    r.shapeName id = shape.name := by
  simp [shapeName, known]

/-- A name is looked up where it was filed first. -/
theorem shapeByName_spec {name : String} {id : ShapeId} (found : r.shapeByName name = some id) :
    id.raw < r.shapeCount ∧ r.shapeName id = name := by
  obtain ⟨i, first, rfl⟩ := Option.map_eq_some_iff.mp found
  obtain ⟨shape, here, isName⟩ := exists_of_findIdx?_named first
  exact ⟨(Array.getElem?_eq_some_iff.mp here).1, (shapeName_of_shape? here).trans isName⟩

theorem shapeByName_eq_none {name : String} (missing : r.shapeByName name = none) {id : ShapeId}
    (inside : id.raw < r.shapeCount) : r.shapeName id ≠ name := by
  obtain ⟨shape, known⟩ := Option.isSome_iff_exists.mp ((shape?_isSome_iff id).mpr inside)
  have absent : name ∉ r.shapes.toList.map (·.name) :=
    findIdx?_named_eq_none_iff.mp (Option.map_eq_none_iff.mp missing)
  have listed : shape ∈ r.shapes.toList := by
    simpa using Array.mem_of_getElem? known
  rw [shapeName_of_shape? known]
  rintro rfl
  exact absent (List.mem_map.mpr ⟨shape, listed, rfl⟩)

theorem filed_empty : ({} : Registry).Filed ∅ where
  dense := shape?_isSome_iff
  bijective := by
    have none : {id : ShapeId | id.raw < ({} : Registry).shapeCount} = ∅ := by simp [shapeCount]
    rw [none]
    exact Set.bijOn_empty _
  byName name id := by simp [shapeByName, shapeCount]

/-- The names are told apart by their ids once they are found by them. -/
theorem Filed.of_bijOn {names : Set String}
    (bijective : Set.BijOn r.shapeName {id | id.raw < r.shapeCount} names) : r.Filed names where
  dense := shape?_isSome_iff
  bijective := bijective
  byName name id := by
    refine ⟨shapeByName_spec, fun ⟨inside, isName⟩ => ?_⟩
    cases found : r.shapeByName name with
    | none => exact absurd isName (shapeByName_eq_none found inside)
    | some other =>
      obtain ⟨inside', isName'⟩ := shapeByName_spec found
      rw [bijective.injOn inside' inside (isName'.trans isName.symm)]

section

variable {names : Set String} {shape : Shape}

theorem register_known {id : ShapeId} (known : r.shapeByName shape.name = some id) :
    r.register shape = (id, r) := by
  simp [register, known]

theorem register_unnamed (new : r.shapeByName shape.name = none) :
    r.register shape = (⟨r.shapeCount⟩, { r with shapes := r.shapes.push shape }) := by
  simp [register, new, shapeCount]

theorem shape?_push (id : ShapeId) : ({ r with shapes := r.shapes.push shape } : Registry).shape?
    id =
    if id.raw = r.shapeCount then some shape else r.shape? id := by
  simp only [shape?, Array.getElem?_push]
  rfl

theorem keeps_register (shape : Shape) : r.Keeps (r.register shape).2 := by
  cases known : r.shapeByName shape.name with
  | some id => rw [register_known known]; exact .refl r
  | none =>
    have records := Registry.Extends.register (r := r) shape
    rw [register_unnamed known] at records ⊢
    refine ⟨fun id old here => getElem?_push_of_some here, fun name id found => ?_, records⟩
    · simp only [shapeByName, Option.map_eq_some_iff, Array.toList_push] at found ⊢
      obtain ⟨i, found, rfl⟩ := found
      exact ⟨i, by rw [List.findIdx?_append, found]; rfl, rfl⟩

/-- Registering a shape files its name. -/
theorem Filed.register (filed : r.Filed names) :
    (r.register shape).2.Filed (insert shape.name names) := by
  cases known : r.shapeByName shape.name with
  | some id =>
    obtain ⟨inside, isName⟩ := shapeByName_spec known
    have there : shape.name ∈ names := isName ▸ filed.bijective.mapsTo inside
    rw [register_known known, Set.insert_eq_of_mem there]
    exact filed
  | none =>
    rw [register_unnamed known]
    have absent : shape.name ∉ names := fun there => by
      obtain ⟨id, inside, isName⟩ := filed.bijective.surjOn there
      exact shapeByName_eq_none known inside isName
    set r' : Registry := { r with shapes := r.shapes.push shape } with isPushed
    have own : r'.shapeName ⟨r.shapeCount⟩ = shape.name :=
      shapeName_of_shape? (by rw [isPushed, shape?_push, if_pos rfl])
    have others : Set.EqOn r.shapeName r'.shapeName {id | id.raw < r.shapeCount} :=
        fun id inside => by
      have apart : id.raw ≠ r.shapeCount := Nat.ne_of_lt inside
      rw [isPushed, shapeName, shapeName, shape?_push, if_neg apart]
    have ids : {id : ShapeId | id.raw < r'.shapeCount} =
        insert ⟨r.shapeCount⟩ {id | id.raw < r.shapeCount} := by
      ext ⟨i⟩
      change i < r'.shapeCount ↔ ShapeId.mk i = ⟨r.shapeCount⟩ ∨ i < r.shapeCount
      simp only [isPushed, shapeCount, Array.size_push, ShapeId.mk.injEq]
      omega
    refine .of_bijOn ?_
    rw [ids, ← own]
    exact (filed.bijective.congr others).insert (own ▸ absent)

end

/-! ## One request -/

section

variable {s : Setup} {w : Work} {change : Registry → Except RegistryError Registry}

theorem register_of_ok (h : change w.registry = .ok r) :
    (do Compile.register change; return .bound : Compile Receipt) s w =
      .ok .bound { w with registry := r } := by
  have here : Compile.registry s w = .ok w.registry w := rfl
  simp only [Compile.bind_apply, Compile.register, here, h]
  rfl

theorem register_of_error {e : RegistryError} (h : change w.registry = .error e) :
    (do Compile.register change; return .bound : Compile Receipt) s w =
      .error (.bare (.invalid (.registry e))) w := by
  have here : Compile.registry s w = .ok w.registry w := rfl
  simp only [Compile.bind_apply, Compile.register, here, h]
  rfl

end

theorem shapeByName_register (shape : Shape) :
    (r.register shape).2.shapeByName shape.name = some (r.register shape).1 := by
  cases known : r.shapeByName shape.name with
  | some id => rwa [register_known known]
  | none =>
    have absent := Option.map_eq_none_iff.mp known
    rw [register_unnamed known]
    simp [shapeByName, shapeCount, List.findIdx?_append, absent]

theorem env?_addEnv (e : Environment) : (r.addEnv e).2.env? (r.addEnv e).1 = some e := by
  simp [addEnv, env?]

theorem keeps_addEnv (e : Environment) : r.Keeps (r.addEnv e).2 :=
  ⟨fun _ _ h => h, fun _ _ h => h, .addEnv e⟩

theorem keeps_insertDecl {d : DeclId} (id : EnvId) (new : r.declEnv? d = none) :
    r.Keeps { r with declEnvs := r.declEnvs.insert d id } :=
  ⟨fun _ _ h => h, fun _ _ h => h, .insertDecl id new⟩

theorem keeps_insertClosure {code : FuncId} (c : ClosureRecord) (new : r.closure? code = none) :
    r.Keeps { r with closures := r.closures.insert code c } :=
  ⟨fun _ _ h => h, fun _ _ h => h, .insertClosure c new⟩

theorem namesIn_shape (shape : Shape) : namesIn [.shape shape] = {shape.name} := by
  ext name
  simp [namesIn, eq_comm]

theorem namesIn_other {q : Request} (other : ∀ shape, q ≠ .shape shape) : namesIn [q] = ∅ := by
  ext name
  simp only [namesIn, List.mem_singleton]
  exact ⟨fun ⟨shape, isShape, _⟩ => other shape isShape.symm, nofun⟩

theorem namesIn_cons (q : Request) (rest : List Request) :
    namesIn (q :: rest) = namesIn [q] ∪ namesIn rest := by
  ext name
  simp only [namesIn, List.mem_cons, List.not_mem_nil, or_false]
  constructor
  · rintro ⟨shape, here | there, isName⟩
    · exact .inl ⟨shape, here, isName⟩
    · exact .inr ⟨shape, there, isName⟩
  · rintro (⟨shape, here, isName⟩ | ⟨shape, there, isName⟩)
    · exact ⟨shape, .inl here, isName⟩
    · exact ⟨shape, .inr there, isName⟩

/-- A request besides those for shapes files no name. -/
theorem Filed.besides {q : Request} {names : Set String} (other : ∀ shape, q ≠ .shape shape)
    (filed : r.Filed names) : r.Filed (names ∪ namesIn [q]) := by
  rwa [namesIn_other other, Set.union_empty]

theorem perform_shape (s : Setup) (w : Work) (shape : Shape) : (Request.shape shape).perform s w =
    .ok (.shape (w.registry.register shape).1)
      { w with registry := (w.registry.register shape).2 } :=
  rfl

/-- The request is granted: the registry holds what was asked for and all it held before. -/
structure Request.Served (s : Setup) (w : Work) (q : Request) (receipt : Receipt) (r : Registry) :
    Prop where
  ran : q.perform s w = .ok receipt { w with registry := r }
  granted : q.Granted r receipt
  keeps : w.registry.Keeps r
  files : ∀ {names}, w.registry.Filed names → r.Filed (names ∪ namesIn [q])

/-- A request is refused if it conflicts with the registry, and then changes nothing; else it is
served. -/
theorem Request.perform_spec (s : Setup) (w : Work) (q : Request) :
    (q.Conflicts w.registry ∧ ∃ e, q.perform s w = .error e w) ∨
    (¬ q.Conflicts w.registry ∧ ∃ receipt r, q.Served s w receipt r) := by
  cases q with
  | shape new =>
    refine .inr ⟨id, .shape _, _, rfl, shapeByName_register new, keeps_register new,
      fun filed => ?_⟩
    rw [namesIn_shape, Set.union_singleton]
    exact filed.register
  | env new =>
    exact .inr ⟨id, .env _, _, rfl, env?_addEnv new, keeps_addEnv new,
      fun filed => .besides (by simp) (.of_bijOn filed.bijective)⟩
  | bindDecl d id =>
    cases known : w.registry.declEnv? d with
    | none =>
      have grants : w.registry.bindDeclEnv d id =
          .ok { w.registry with declEnvs := w.registry.declEnvs.insert d id } := by
        simp [bindDeclEnv, known]
      exact .inr ⟨by simp [Conflicts, known], .bound, _, register_of_ok grants,
        Table.get?_insert_self .., keeps_insertDecl id known,
        fun filed => .besides (by simp) (.of_bijOn filed.bijective)⟩
    | some old =>
      by_cases same : old = id
      · have grants : w.registry.bindDeclEnv d id = .ok w.registry := by
          simp [bindDeclEnv, known, same]
        exact .inr ⟨by simp [Conflicts, known, same], .bound, _, register_of_ok grants,
          same ▸ known, .refl _, fun filed => .besides (by simp) filed⟩
      · have refuses : w.registry.bindDeclEnv d id = .error (.declConflict d) := by
          simp [bindDeclEnv, known, same]
        exact .inl ⟨⟨old, known, same⟩, _, register_of_error refuses⟩
  | bindClosure code c =>
    cases known : w.registry.closure? code with
    | none =>
      have grants : w.registry.bindClosure code c =
          .ok { w.registry with closures := w.registry.closures.insert code c } := by
        simp [Registry.bindClosure, known]
      exact .inr ⟨by simp [Conflicts, known], .bound, _, register_of_ok grants,
        ⟨c, Table.get?_insert_self .., rfl⟩, keeps_insertClosure c known,
        fun filed => .besides (by simp) (.of_bijOn filed.bijective)⟩
    | some old =>
      by_cases same : old.env = c.env
      · have grants : w.registry.bindClosure code c = .ok w.registry := by
          simp [Registry.bindClosure, known, same]
        exact .inr ⟨by simp [Conflicts, known, same], .bound, _, register_of_ok grants,
          ⟨old, known, same⟩, .refl _, fun filed => .besides (by simp) filed⟩
      · have refuses : w.registry.bindClosure code c = .error (.closureConflict code) := by
          simp [Registry.bindClosure, known, same]
        exact .inl ⟨⟨old, known, same⟩, _, register_of_error refuses⟩

/-! ## All requests -/

variable {s : Setup} {w : Work}

/-- One request keeps what is there and files the name it asks for. -/
theorem request_keeps (s : Setup) (w : Work) (q : Request) :
    w.registry.Keeps (q.perform.endOf s w).registry ∧
    ∀ {names}, w.registry.Filed names → (q.perform.endOf s w).registry.Filed
    (names ∪ namesIn [q]) := by
  rcases q.perform_spec s w with ⟨conflicts, e, ran⟩ | ⟨-, receipt, r, served⟩
  · have stays : q.perform.endOf s w = w := by simp [Compile.endOf, ran]
    have unnamed : namesIn [q] = ∅ := namesIn_other fun shape isShape => by
      subst isShape
      exact conflicts
    rw [stays]
    exact ⟨.refl _, fun filed => by rwa [unnamed, Set.union_empty]⟩
  · have ends : q.perform.endOf s w = { w with registry := r } := by
      simp [Compile.endOf, served.ran]
    rw [ends]
    exact ⟨served.keeps, served.files⟩

theorem after_keeps (s : Setup) (w : Work) (requests : List Request) :
    w.registry.Keeps (after s w requests).registry ∧
    ∀ {names}, w.registry.Filed names → (after s w requests).registry.Filed
    (names ∪ namesIn requests) := by
  induction requests generalizing w with
  | nil =>
    have unnamed : namesIn [] = ∅ := by simp [namesIn]
    refine ⟨.refl _, fun filed => ?_⟩
    rwa [unnamed, Set.union_empty]
  | cons q rest ih =>
    obtain ⟨keeps, files⟩ := request_keeps s w q
    obtain ⟨keeps', files'⟩ := ih (q.perform.endOf s w)
    refine ⟨keeps.trans keeps', fun filed => ?_⟩
    rw [namesIn_cons, ← Set.union_assoc]
    exact files' (files filed)

/-- A name that has an id keeps it, and asking for it again gives that id and changes nothing. -/
theorem register_again {id : ShapeId} {shape : Shape}
    (known : w.registry.shapeByName shape.name = some id) :
    (Request.shape shape).perform s w = .ok (.shape id) w := by
  rw [perform_shape, register_known known]

/-- Requests made one after the other to an empty registry, some refused and some repeated. The ids
of shapes are dense and correspond to the names asked for. What is registered after the first of the
requests is there unchanged after all of them. A name that is registered again gives the first id
and changes nothing. A request is refused exactly if a declaration or some code has another
environment already, and then nothing changes; else the registry holds what was asked for. -/
theorem records_stay (s : Setup) (w : Work) (first rest : List Request) :
    let now := after s { w with registry := {} } first
    now.registry.Filed (namesIn first) ∧
    now.registry.Keeps (after s { w with registry := {} } (first ++ rest)).registry ∧
    (∀ shape id next, (Request.shape shape).perform s now = .ok (.shape id) next →
      ∀ again, again.name = shape.name →
        (Request.shape again).perform s (after s next rest) = .ok (.shape id) (after s next rest)) ∧
    ∀ q : Request, ((∃ e next, q.perform s now = .error e next) ↔ q.Conflicts now.registry) ∧
      (∀ e next, q.perform s now = .error e next → next = now) ∧
      ∀ receipt next, q.perform s now = .ok receipt next → q.Granted next.registry receipt := by
  intro now
  refine ⟨?_, ?_, ?_, fun q => ?_⟩
  · have filed := (after_keeps s { w with registry := {} } first).2 filed_empty
    rwa [Set.empty_union] at filed
  · rw [after_append]
    exact (after_keeps s now rest).1
  · intro shape id next ran again sameName
    cases (perform_shape s now shape).symm.trans ran
    have first := shapeByName_register (r := now.registry) shape
    exact register_again (sameName ▸ (after_keeps s _ rest).1.named _ _ first)
  · rcases q.perform_spec s now with ⟨conflicts, e, ran⟩ | ⟨fits, receipt, r, served⟩
    · simp [ran, conflicts]
    · refine ⟨?_, ?_, ?_⟩
      · simp [served.ran, fits]
      · simp [served.ran]
      · intro receipt' next ran
        cases served.ran.symm.trans ran
        exact served.granted

end ShapeCompiler.Registry
