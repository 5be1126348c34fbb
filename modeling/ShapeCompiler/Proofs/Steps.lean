import ShapeCompiler.Compile.Unit
import ShapeCompiler.Proofs.Captures
import ShapeCompiler.Proofs.Growth

/-!
# How the state of a compilation changes

* `Work.Step`: one change of the state, with what the compiler knows when it makes it;
* `Work.Later`: any number of changes;
* `Work.Moment`: a state that is later than the start.

What is laid out is described by relations of its own: `LaidOut` for environments, `Arranged` for
the records of classes, `MethodTable.Fits` for tables, `Replacing` for what stands in the slot of an
overridden method.
-/

namespace ShapeCompiler

open Source Code

/-! ## What is laid out -/

/-- What the environment of a declaration is laid out for: a function, or a class whose constructor
is not written out. -/
inductive EnvPlan.For (p : Program) (owner : DeclId) : EnvPlan → Prop where
  | function {f : FunctionDecl} (isFunction : p.function owner = .ok f) :
    For p owner ⟨.function owner, f.params, if f.kind.isMember then f.owner else none⟩
  | constructor {params : List DeclId} (forwarded : p.forwardedParams owner = .ok params) :
    For p owner ⟨.implicitConstructor owner, params, some owner⟩

/-- The slot is that of a parameter. -/
structure EnvSlot.OfParam (p : Program) (d : DeclId) (slot : EnvSlot) : Prop where
  origin : slot.origin = .param
  var : slot.var = some d
  name : ∃ decl, p.decl d = .ok decl ∧ slot.name = .named decl.name

/-- The slots of the environment around a site, with their numbers. -/
def Site.around (site : Site) (r : Registry) : List (Nat × EnvSlot) :=
  (site.outer.bind r.env?).elim [] Environment.indexedSlots

/-- The environments that declarations get in a state. -/
inductive LaidOut (s : Setup) (w : Work) : Environment → Prop where
  | mk {owner : DeclId} {plan : EnvPlan} {site : Site} {survey : Survey} {found : Gathered}
    {params slots : List EnvSlot} {remap : List (Nat × Nat)} (name : String) (record : TyId)
    (planned : EnvPlan.For s.program owner plan)
    (free : s.program.freeNames plan.subject = .ok survey.free)
    (gathered : survey.gather owner (plan.receiverClass site) = .ok found)
    (formals : List.Forall₂ (EnvSlot.OfParam s.program) plan.params params)
    (outer : ∀ id, site.outer = some id → (w.registry.env? id).isSome)
    (merged : addOuter (plan.ownSlots site params found) (site.around w.registry) = (slots, remap))
    (fields : w.code.types.fields? record = some (List.replicate slots.length .ptr))
    (refers : ∀ c ∈ found.captures, s.program.Refers c.name) :
    LaidOut s w { owner := some owner, name, record, slots, paramCount := plan.params.length,
                  outer := site.outer, remap }

/-- The record of a class's instances: one pointer per property, behind one to the method table if
some class of the chain asks for one. -/
structure Arranged (s : Setup) (w : Work) (cls : DeclId) (layout : ClassLayout) : Prop where
  table : ∃ chain, s.program.classChain cls = .ok chain ∧
    (layout.hasTable ↔ ∃ c ∈ chain, ∃ d, s.program.decl c = .ok d ∧ d.flags.table)
  props : s.program.instanceProperties cls = .ok (layout.props.map (·.2.1))
  fields : w.code.types.fields? layout.record =
    some (List.replicate (layout.props.length + layout.offset) .ptr)

/-- The table has the form that the program and the configuration ask for. -/
structure MethodTable.Fits (s : Setup) (t : MethodTable) : Prop where
  header : t.header = s.config.tableHeader
  methods : s.program.namedVirtuals t.root = .ok t.methods
  length : ∃ c, s.program.classDecl t.root = .ok c ∧
    t.length = c.tableSize.getD (t.header + t.methods.length)
  enough : t.header + t.methods.length ≤ t.length
  external : t.external = (s.resolver.tableSymbol s.program t.root).isSome

/-- The global of a table holds a function for each method. -/
structure MethodTable.Holds (w : Work) (t : MethodTable) (functions : List FuncId) : Prop where
  count : functions.length = t.methods.length
  global : ∃ name, w.code.global? t.global =
    some ⟨name, t.array, true, some (Compile.tableInitial t.header t.length functions)⟩

/-- The global of a table that is not supplied from outside holds its functions. -/
structure MethodTable.Emitted (w : Work) (t : MethodTable) : Prop where
  array : w.code.types.get t.array = .array .ptr t.length
  functions : ∃ functions, t.Holds w functions

/-- Where the global of a table is: among those of the module, or, if the table is supplied from
outside, under the name it is supplied under. -/
structure MethodTable.Made (s : Setup) (w : Work) (t : MethodTable) : Prop where
  own : t.external = false → t.Emitted w
  supplied : ∀ symbol, s.resolver.tableSymbol s.program t.root = some symbol →
    ∃ g, w.code.global? t.global = some g ∧ g.name = symbol

/-- The methods of a class that take the place of those in the table of its root. -/
structure Overriding (s : Setup) (cls : DeclId) (t : MethodTable)
    (overrides : List (Name × DeclId × Nat)) : Prop where
  root : s.program.tableRoot cls = .ok (some t.root)
  fits : t.Fits s
  listed : ∃ chain, s.program.classChain cls = .ok chain ∧
    t.overriding s.program (chain.takeWhile (· ≠ t.root)) = .ok overrides

/-- The function stands for a method of a class that is called through a table: it calls the closure
behind the entries of the object's own table. -/
inductive Replacing (s : Setup) (w : Work) (cls : DeclId) (n : Name) (func : FuncId) : Prop where
  | mk {t : MethodTable} {overrides : List (Name × DeclId × Nat)} {m : DeclId} {slot k : Nat}
    {env : EnvId} {e : Environment} {layout : ClassLayout} {name : String}
    (overriding : Overriding s cls t overrides) (here : overrides[k]? = some (n, m, slot))
    (bound : w.registry.declEnv? m = some env) (known : w.registry.env? env = some e)
    (defined : w.code.function? func = some ⟨name, List.replicate (e.paramCount + 1) .ptr, .ptr,
      some (writeBody func (e.paramCount + 1) (trampolineSteps s.runtime layout e
        (Int64.ofNat (min (t.length + k) 0x7FFFFFFF))))⟩)

/-! ## Shapes that are asked for -/

/-- The shape of a union as it is asked for. -/
def Compile.unionOf (p : Program) (r : Registry) (members : List Info) (nullable : Bool)
    (record : TyId) :
    UnionShape :=
  let optional := nullable && members.length = 1
  let slots := addSlots [] (members.flatMap (memberSlots p r optional))
  ⟨unionName p r members nullable, record, optional, members, slots, propSlots slots⟩

/-- The fields of the record of a union. -/
def UnionShape.fields (u : UnionShape) : List TyId :=
  (if u.optional then [.i1] else []) ++ List.replicate u.slots.length .ptr

/-- What shapes are asked for: the name, the fields of the record, and what it becomes with that. -/
inductive Shape.Asked (p : Program) (r : Registry) :
    String → List TyId → (TyId → Shape) → Prop where
  | object (props : List (Name × Info)) :
    Asked p r (objectName p r props) (List.replicate props.length .ptr)
      fun record => .object ⟨objectName p r props, record, props⟩
  | union (members : List Info) (nullable : Bool) :
    Asked p r (unionName p r members nullable) (Compile.unionOf p r members nullable .void).fields
      fun record => .union (Compile.unionOf p r members nullable record)
  | intersection (segments : List Segment) (fields : List (Name × Info)) :
    Asked p r (intersectionName segments) (List.replicate fields.length .ptr)
      fun record => .intersection ⟨intersectionName segments, record, fields, segments⟩

theorem Shape.Asked.name_eq {p : Program} {r : Registry} {name : String} {fields : List TyId}
    {make : TyId → Shape} (h : Asked p r name fields make) (record : TyId) :
    (make record).name = name := by
  cases h <;> rfl

/-- The name begins as those of objects and unions do, and as no other name of a record does but
that of an intersection. -/
def NamesShape (name : String) : Prop := name.toList.head? = some 'o' ∨ name.toList.head? = some 'u'

instance (name : String) : Decidable (NamesShape name) := inferInstanceAs (Decidable (_ ∨ _))

/-! ## Steps -/

namespace Work

/-- One change of the state. -/
inductive Step (s : Setup) (w : Work) : Work → Prop where
  | types {t : TypeTable} (grown : w.code.types.Grows t)
    (aside : ∀ name, t.HasNamed name → w.code.types.HasNamed name ∨ ¬ NamesShape name) :
    Step s w { w with code := { w.code with types := t } }
  | declare (name : String) (params : List TyId) (ret : TyId)
    (new : w.code.functionByName name = none) :
    Step s w { w with code := (w.code.declare name params ret).2 }
  | compiled (f : FuncId) : Step s w { w with compiled := f :: w.compiled }
  /-- A function gets a body once; only the statements at the top may replace what was there. -/
  | define (f : FuncId) (body : Code.Body)
    (once : (∀ fn, w.code.function? f = some fn → fn.body = none) ∨
      s.config.entryName = closureCallName ∧ f = s.runtime.call) :
    Step s w { w with code := w.code.define f body }
  | global (g : Global) : Step s w { w with code := (w.code.pushGlobal g).2 }
  /-- A shape of a new name comes with its record. -/
  | shape {name : String} {fields : List TyId} {make : TyId → Shape}
    (asked : Shape.Asked s.program w.registry name fields make)
    (new : w.registry.shapeByName name = none) :
    Step s w { w with
      code := { w.code with types := (w.code.types.record name fields).2 }
      registry := (w.registry.register (make (w.code.types.record name fields).1)).2 }
  | environment {e : Environment} (laid : LaidOut s w e) :
    Step s w { w with registry := (w.registry.addEnv e).2 }
  | synthesized (params : Nat) (record : TyId) :
    Step s w { w with registry := (w.registry.addEnv (.synthesized params record)).2 }
  | bindDecl {d : DeclId} {env : EnvId} {e : Environment} (known : w.registry.env? env = some e)
    (owned : e.owner = some d) (new : w.registry.declEnv? d = none) :
    Step s w { w with registry :=
      { w.registry with declEnvs := w.registry.declEnvs.insert d env } }
  | bindClosure {code : FuncId} (c : ClosureRecord) (new : w.registry.closure? code = none) :
    Step s w { w with registry :=
      { w.registry with closures := w.registry.closures.insert code c } }
  | bindName (n : Name) (b : Binding) :
    Step s w { w with moduleScope := w.moduleScope.bind n b }
  | site (d : DeclId) (site : Site)
    (known : ∀ id, site.outer = some id → (w.registry.env? id).isSome) :
    Step s w { w with sites := w.sites.insert d site }
  /-- A body stays in its function. -/
  | function {key : FunctionKey} {c : CompiledFunction}
    (env : w.registry.declEnv? key.subject.decl = some c.env) (params : c.params = key.params)
    (func : ∀ c₀, w.functions.get? key = some c₀ → c₀.func = c.func) :
    Step s w { w with functions := w.functions.insert key c }
  | layout {cls : DeclId} {layout : ClassLayout} (made : Arranged s w cls layout) :
    Step s w { w with layouts := w.layouts.insert cls layout }
  /-- A class gets one table. -/
  | table {t : MethodTable} (fits : t.Fits s) (made : t.Made s w)
    (new : w.tables.get? t.root = none) :
    Step s w { w with tables := w.tables.insert t.root t }
  | static (prop : DeclId) (g : GlobalId) : Step s w { w with statics := w.statics.insert prop g }
  | override {cls : DeclId} {n : Name} {func : FuncId} (made : Replacing s w cls n func) :
    Step s w { w with overrides := w.overrides.insert (cls, n) func }
  | synthetic {env : EnvId} {e : Environment} (known : w.registry.env? env = some e) :
    Step s w { w with syntheticEnvs := w.syntheticEnvs.insert e.paramCount env }
  | inProgress (interfaces : List DeclId) :
    Step s w { w with interfacesInProgress := interfaces }

/-- The second state comes from the first by steps. -/
inductive Later (s : Setup) (w : Work) : Work → Prop where
  | same : Later s w w
  | step {w' w'' : Work} : Later s w w' → Step s w' w'' → Later s w w''

/-- A state of a compilation from the start. -/
def Moment (s : Setup) (w : Work) : Prop := Later s .start w

variable {s : Setup} {w w' w'' : Work}

theorem Later.trans (h : Later s w w') (h' : Later s w' w'') : Later s w w'' := by
  induction h' with
  | same => exact h
  | step _ last ih => exact .step ih last

theorem Step.later (h : Step s w w') : Later s w w' := .step .same h

theorem Moment.later (h : Moment s w) (h' : Later s w w') : Moment s w' := Later.trans h h'

end Work

/-! ## What stays -/

/-- Only the call of closures may get another body, and only if the statements at the top go by its
name. -/
def Setup.Loose (s : Setup) (f : FuncId) : Prop :=
  s.config.entryName = closureCallName ∧ f = s.runtime.call

/-- Types, functions and globals keep their ids; bodies stay, but for those of `loose` functions. -/
structure Code.Module.Extends (loose : FuncId → Prop) (m m' : Module) : Prop where
  types : m.types.Grows m'.types
  function : ∀ f fn, m.function? f = some fn → ∃ body, m'.function? f = some { fn with body } ∧
    (fn.body.isSome → loose f ∨ body = fn.body)
  global : ∀ g x, m.global? g = some x → m'.global? g = some x

namespace Code.Module.Extends

variable {loose : FuncId → Prop} {m m' m'' : Module}

theorem refl (m : Module) : m.Extends loose m :=
  ⟨.refl _, fun _ fn h => ⟨fn.body, h, fun _ => .inr rfl⟩, fun _ _ h => h⟩

theorem trans (h : m.Extends loose m') (h' : m'.Extends loose m'') : m.Extends loose m'' := by
  refine ⟨h.types.trans h'.types, ?_, fun g x known => h'.global g x (h.global g x known)⟩
  intro f fn known
  obtain ⟨body, there, kept⟩ := h.function f fn known
  obtain ⟨body', there', kept'⟩ := h'.function f _ there
  refine ⟨body', there', fun has => ?_⟩
  rcases kept has with free | rfl
  · exact .inl free
  · exact kept' has

theorem of_types {t : TypeTable} (grown : m.types.Grows t) :
    m.Extends loose { m with types := t } :=
  ⟨grown, (refl m).function, fun _ _ h => h⟩

theorem declare {name : String} (params : List TyId) (ret : TyId)
    (new : m.functionByName name = none) : m.Extends loose (m.declare name params ret).2 := by
  refine ⟨?_, ?_, ?_⟩
  · simpa [Module.declare, new] using TypeTable.Grows.refl m.types
  · intro f fn known
    refine ⟨fn.body, ?_, fun _ => .inr rfl⟩
    simp only [Module.declare, new]
    exact getElem?_push_of_some known
  · intro g x known
    simpa [Module.declare, new, Module.global?] using known

theorem define {f : FuncId} (body : Code.Body)
    (once : (∀ fn, m.function? f = some fn → fn.body = none) ∨ loose f) :
    m.Extends loose (m.define f body) := by
  refine ⟨.refl _, ?_, fun _ _ h => h⟩
  intro f' fn known
  by_cases same : f = f'
  · subst same
    have there : (m.define f body).function? f = some { fn with body := some body } := by
      simp only [Module.function?] at known
      simp [Module.define, Module.function?, Array.getElem?_modify, known]
    refine ⟨some body, there, fun has => ?_⟩
    rcases once with absent | free
    · simp [absent fn known] at has
    · exact .inl free
  · have apart : f.raw ≠ f'.raw := fun h => same (by cases f; cases f'; simpa using h)
    exact ⟨fn.body, by simpa [Module.define, Module.function?, Array.getElem?_modify, apart]
      using known, fun _ => .inr rfl⟩

theorem pushGlobal (g : Global) : m.Extends loose (m.pushGlobal g).2 :=
  ⟨.refl _, (refl m).function, fun _ _ known => getElem?_push_of_some known⟩

end Code.Module.Extends

/-- Environments and what is associated with declarations and code stay. -/
structure Registry.Extends (r r' : Registry) : Prop where
  env : ∀ id e, r.env? id = some e → r'.env? id = some e
  declEnv : ∀ d id, r.declEnv? d = some id → r'.declEnv? d = some id
  closure : ∀ f c, r.closure? f = some c → r'.closure? f = some c

namespace Registry.Extends

variable {r r' r'' : Registry}

theorem refl (r : Registry) : r.Extends r := ⟨fun _ _ h => h, fun _ _ h => h, fun _ _ h => h⟩

theorem trans (h : r.Extends r') (h' : r'.Extends r'') : r.Extends r'' :=
  ⟨fun id e known => h'.env id e (h.env id e known),
    fun d id known => h'.declEnv d id (h.declEnv d id known),
    fun f c known => h'.closure f c (h.closure f c known)⟩

theorem register (shape : Shape) : r.Extends (r.register shape).2 := by
  unfold Registry.register
  split
  · exact refl r
  · exact ⟨fun _ _ h => h, fun _ _ h => h, fun _ _ h => h⟩

theorem addEnv (e : Environment) : r.Extends (r.addEnv e).2 :=
  ⟨fun _ _ known => getElem?_push_of_some known, fun _ _ h => h, fun _ _ h => h⟩

/-- The last environment is the new one, the others were there. -/
theorem of_env?_addEnv {e e' : Environment} {id : EnvId}
    (known : (r.addEnv e).2.env? id = some e') : e' = e ∨ r.env? id = some e' :=
  (of_getElem?_push known).imp_left And.right

theorem insertDecl {d : DeclId} (env : EnvId) (new : r.declEnv? d = none) :
    r.Extends { r with declEnvs := r.declEnvs.insert d env } := by
  refine ⟨fun _ _ h => h, ?_, fun _ _ h => h⟩
  intro d' id known
  have apart : d ≠ d' := by
    rintro rfl
    simp [new] at known
  simpa [Registry.declEnv?, Table.get?_insert_ne _ _ apart] using known

theorem insertClosure {f : FuncId} (c : ClosureRecord) (new : r.closure? f = none) :
    r.Extends { r with closures := r.closures.insert f c } := by
  refine ⟨fun _ _ h => h, fun _ _ h => h, ?_⟩
  intro f' c' known
  have apart : f ≠ f' := by
    rintro rfl
    simp [new] at known
  simpa [Registry.closure?, Table.get?_insert_ne _ _ apart] using known

end Registry.Extends

/-! ## What environments capture -/

/-- What is taken over from around is marked as such. -/
theorem origin_of_addOuter {around : List (Nat × EnvSlot)} {slots : List EnvSlot} {slot : EnvSlot}
    (inside : slot ∈ (addOuter slots around).1) : slot ∈ slots ∨ slot.origin = .outer := by
  induction around generalizing slots with
  | nil => exact .inl inside
  | cons entry rest ih =>
    unfold addOuter at inside
    split at inside
    · exact ih inside
    · rcases ih inside with own | taken
      · rcases List.mem_append.mp own with old | new
        · exact .inl old
        · rw [List.mem_singleton] at new
          exact .inr (congrArg EnvSlot.origin new)
      · exact .inr taken

/-- What is related to something has what everything so related has. -/
theorem forall_mem_of_forall₂ {α β : Type} {R : α → β → Prop} {P : β → Prop}
    {as : List α} {bs : List β}
    (all : List.Forall₂ R as bs) (each : ∀ a b, R a b → P b) : ∀ b ∈ bs, P b := by
  induction all with
  | nil => simp
  | cons one _ ih => exact List.forall_mem_cons.mpr ⟨each _ _ one, ih⟩

/-- An environment that is laid out captures names that some body refers to: the other slots are
those of parameters, of the receiver, and what is taken over. -/
theorem LaidOut.refers {s : Setup} {w : Work} {e : Environment} (h : LaidOut s w e) :
    e.Refers s.program := by
  cases h with
  | @mk owner plan site survey found params slots remap name record planned free gathered formals
      outer merged fields refers =>
    intro slot inside isCapture n isName
    have inside : slot ∈ (addOuter (plan.ownSlots site params found)
        (site.around w.registry)).1 := by
      rw [merged]
      exact inside
    have own := (origin_of_addOuter inside).resolve_right (by simp [isCapture])
    simp only [EnvPlan.ownSlots, List.mem_append] at own
    rcases own with (isParam | isCaptured) | isReceiver
    · have isFormal : slot.origin = .param :=
        forall_mem_of_forall₂ formals (fun _ _ formal => formal.origin) slot isParam
      rw [isFormal] at isCapture
      cases isCapture
    · obtain ⟨c, member, rfl⟩ := List.mem_map.mp isCaptured
      cases isName
      exact refers c member
    · unfold EnvPlan.receiverSlots at isReceiver
      split at isReceiver
      · rw [List.mem_singleton.mp isReceiver] at isCapture
        cases isCapture
      · cases isReceiver

namespace Work

variable {s : Setup} {w w' : Work}

/-- What was there stays. -/
structure Extends (s : Setup) (w w' : Work) : Prop where
  code : w.code.Extends s.Loose w'.code
  registry : w.registry.Extends w'.registry

theorem Extends.refl (w : Work) : Extends s w w := ⟨.refl _, .refl _⟩

theorem Step.extends (h : Step s w w') : Extends s w w' := by
  cases h with
  | types grown => exact ⟨.of_types grown, .refl _⟩
  | declare name params ret new => exact ⟨.declare params ret new, .refl _⟩
  | define f body once => exact ⟨.define body once, .refl _⟩
  | global g => exact ⟨.pushGlobal g, .refl _⟩
  | shape => exact ⟨.of_types (TypeTable.grows_record _ _ _), .register _⟩
  | environment laid => exact ⟨.refl _, .addEnv _⟩
  | synthesized params record => exact ⟨.refl _, .addEnv _⟩
  | bindDecl known owned new => exact ⟨.refl _, .insertDecl _ new⟩
  | bindClosure c new => exact ⟨.refl _, .insertClosure c new⟩
  | _ => exact ⟨.refl _, .refl _⟩

theorem Later.extends (h : Later s w w') : Extends s w w' := by
  induction h with
  | same => exact .refl w
  | step _ last ih =>
    exact ⟨ih.code.trans last.extends.code, ih.registry.trans last.extends.registry⟩

theorem Later.env_isSome (h : Later s w w') {id : EnvId} (known : (w.registry.env? id).isSome) :
    (w'.registry.env? id).isSome := by
  obtain ⟨e, there⟩ := Option.isSome_iff_exists.mp known
  exact Option.isSome_iff_exists.mpr ⟨e, h.extends.registry.env _ _ there⟩

theorem Later.fields? (h : Later s w w') {id : TyId} {fields : List TyId}
    (known : w.code.types.fields? id = some fields) : w'.code.types.fields? id = some fields :=
  TypeTable.fields?_of_grows h.extends.code.types known

theorem Later.holds (h : Later s w w') {t : MethodTable} {functions : List FuncId}
    (holds : t.Holds w functions) : t.Holds w' functions := by
  obtain ⟨name, known⟩ := holds.global
  exact ⟨holds.count, name, h.extends.code.global _ _ known⟩

theorem Later.emitted (h : Later s w w') {t : MethodTable} (made : t.Emitted w) :
    t.Emitted w' := by
  obtain ⟨functions, holds⟩ := made.functions
  exact ⟨TypeTable.get_of_grows h.extends.code.types made.array (by simp) (by simp),
    functions, h.holds holds⟩

theorem Later.made (h : Later s w w') {t : MethodTable} (made : t.Made s w) : t.Made s w' := by
  refine ⟨fun own => h.emitted (made.own own), fun symbol isSymbol => ?_⟩
  obtain ⟨g, known, isName⟩ := made.supplied symbol isSymbol
  exact ⟨g, h.extends.code.global _ _ known, isName⟩

/-- An environment for calls of unknown code has a slot for each parameter. -/
theorem Moment.synthetic_count (h : Moment s w) : ∀ params env,
    w.syntheticEnvs.get? params = some env →
    ∃ e, w.registry.env? env = some e ∧ e.paramCount = params := by
  induction h with
  | same =>
    intro params env known
    cases known
  | @step w w' _ last ih =>
    have old : ∀ params env, w.syntheticEnvs.get? params = some env →
        ∃ e, w'.registry.env? env = some e ∧ e.paramCount = params := by
      intro params env known
      obtain ⟨e, here, count⟩ := ih params env known
      exact ⟨e, last.extends.registry.env _ _ here, count⟩
    cases last with
    | synthetic here => exact Table.forall_insert old ⟨_, here, rfl⟩
    | _ => exact old

/-- The tables that are recorded have the form that is asked for. -/
theorem Moment.table_made (h : Moment s w) : ∀ root t, w.tables.get? root = some t →
    t.root = root ∧ t.Fits s ∧ t.Made s w := by
  induction h with
  | same =>
    intro root t known
    cases known
  | @step w w' _ last ih =>
    have old : ∀ root t, w.tables.get? root = some t →
        t.root = root ∧ t.Fits s ∧ t.Made s w' := by
      intro root t known
      obtain ⟨isRoot, fits, made⟩ := ih root t known
      exact ⟨isRoot, fits, last.later.made made⟩
    cases last with
    | table fits made new =>
      exact Table.forall_insert old ⟨rfl, fits, (Step.table fits made new).later.made made⟩
    | _ => exact old

/-- A table stays. -/
theorem Later.table (h : Later s w w') {root : DeclId} {t : MethodTable}
    (known : w.tables.get? root = some t) : w'.tables.get? root = some t := by
  induction h with
  | same => exact known
  | @step w₁ w₂ _ last ih =>
    cases last with
    | @table t' _ _ new =>
      have apart : t'.root ≠ root := by
        rintro rfl
        simp [new] at ih
      simpa [Table.get?_insert_ne _ _ apart] using ih
    | _ => exact ih

/-- A compiled body has the environment of its declaration. -/
theorem Moment.function_made (h : Moment s w) : ∀ key c, w.functions.get? key = some c →
    w.registry.declEnv? key.subject.decl = some c.env ∧ c.params = key.params := by
  induction h with
  | same =>
    intro key c known
    cases known
  | @step w w' _ last ih =>
    have old : ∀ key c, w.functions.get? key = some c →
        w'.registry.declEnv? key.subject.decl = some c.env ∧ c.params = key.params :=
      fun key c known => ⟨last.extends.registry.declEnv _ _ (ih key c known).1, (ih key c known).2⟩
    cases last with
    | function env params => exact Table.forall_insert old ⟨env, params⟩
    | _ => exact old

/-- What is recorded of a body stays, but for the result. -/
theorem Later.function (moment : Moment s w) (h : Later s w w') {key : FunctionKey}
    {c : CompiledFunction} (known : w.functions.get? key = some c) :
    ∃ ret, w'.functions.get? key = some { c with ret } := by
  induction h with
  | same => exact ⟨c.ret, known⟩
  | @step w₁ w₂ before last ih =>
    obtain ⟨ret, there⟩ := ih
    cases last with
    | @function key' c' env params func =>
      by_cases same : key' = key
      · subst same
        obtain ⟨declared, asked⟩ := (moment.later before).function_made _ _ there
        have isEnv := Option.some.inj (declared.symm.trans env)
        have again : c' = { c with ret := c'.ret } := by
          cases c'
          simp_all
        exact ⟨c'.ret, again ▸ Table.get?_insert_self _ _ _⟩
      · exact ⟨ret, by simpa [Table.get?_insert_ne _ _ same] using there⟩
    | _ => exact ⟨ret, there⟩

/-- The environments around recorded sites are known. -/
theorem Moment.outer_known (h : Moment s w) : ∀ d site, w.sites.get? d = some site →
    ∀ id, site.outer = some id → (w.registry.env? id).isSome := by
  induction h with
  | same =>
    intro d site known
    cases known
  | @step w w' _ last ih =>
    have old : ∀ d site, w.sites.get? d = some site →
        ∀ id, site.outer = some id → (w'.registry.env? id).isSome :=
      fun d site known id outer => last.later.env_isSome (ih d site known id outer)
    cases last with
    | site d site known => exact Table.forall_insert old known
    | _ => exact old

/-- What holds of an environment when it is made, among those that are there, and stays, holds at
every moment of all environments. -/
theorem Moment.forall_env {P : Work → Environment → Prop}
    (laid : ∀ w e, LaidOut s w e → (∀ id e', w.registry.env? id = some e' → P w e') → P w e)
    (synthesized : ∀ w params record, P w (.synthesized params record))
    (stays : ∀ w w' e, Step s w w' → P w e → P w' e) (h : Moment s w) :
    ∀ id e, w.registry.env? id = some e → P w e := by
  induction h with
  | same =>
    intro id e known
    simp [Registry.env?, start] at known
  | @step w w' _ last ih =>
    have old : ∀ id e, w.registry.env? id = some e → P w' e :=
      fun id e known => stays w w' e last (ih id e known)
    cases last with
    | @environment new here =>
      intro id e known
      rcases Registry.Extends.of_env?_addEnv known with rfl | there
      · exact stays w _ e (.environment here) (laid w e here ih)
      · exact old id e there
    | synthesized params record =>
      intro id e known
      rcases Registry.Extends.of_env?_addEnv known with rfl | there
      · exact synthesized _ params record
      · exact old id e there
    | shape =>
      intro id e known
      refine old id e ?_
      unfold Registry.register at known
      split at known
      · exact known
      · exact known
    | _ => exact old

/-- Environments capture names that some body refers to. -/
theorem Moment.env_refers (h : Moment s w) : ∀ id e, w.registry.env? id = some e →
    e.Refers s.program :=
  h.forall_env (P := fun _ e => e.Refers s.program) (fun _ _ laid _ => laid.refers)
    (fun _ _ _ => by rintro slot ⟨⟩) fun _ _ _ _ refers => refers

end Work

end ShapeCompiler
