import ShapeCompiler.Code.Draft
import ShapeCompiler.Compile.Failure
import ShapeCompiler.Compile.Scope
import ShapeCompiler.Shape.Resolver
import ShapeCompiler.Source.FreeNames

/-!
The state of a compilation.

- `Setup` is what stays the same: the program, the resolver, the configuration.
- `Work` is what grows: the module, the registry, and what was compiled so far.
- `Compile` is the monad of both; a failure keeps the work done.
-/

namespace ShapeCompiler

open Source Code

structure Config where
  /-- Slots at the start of every method table that belong to the table's own bookkeeping. -/
  tableHeader : Nat := 4
  /-- The function that holds the statements at the top. -/
  entryName : String := "main"
  /-- Whether the finished module is to be shown. -/
  dump : Bool := false
  deriving DecidableEq, Repr

/-- What every compiled module has: the records of closures and the function that calls one. -/
structure Runtime where
  /-- A closure: code and environment. -/
  closure : TyId
  /-- A generic function as a value: environment only. -/
  lazy : TyId
  /-- The type of compiled bodies. -/
  bodySig : TyId
  /-- Calls the closure in its argument. -/
  call : FuncId
  deriving DecidableEq, Repr

structure Setup where
  program : Program
  resolver : Resolver
  config : Config
  runtime : Runtime

/-- What a declaration can see. -/
structure Site where
  scope : Scope
  /-- The environment of the function around it. -/
  outer : Option EnvId
  /-- The class whose instance members are called on there. -/
  receiverClass : Option DeclId
  bindings : Bindings

/-- The record of a class's instances. -/
structure ClassLayout where
  record : TyId
  /-- The first field points at the method table. -/
  hasTable : Bool
  /-- Properties of the whole chain, those of the base first. -/
  props : List (Name × DeclId × Info)
  deriving DecidableEq, Repr

namespace ClassLayout

def offset (l : ClassLayout) : Nat := if l.hasTable then 1 else 0

def fields (l : ClassLayout) : List (Name × Info) := l.props.map fun (n, _, i) => (n, i)

/-- The record field of a property and what it holds. -/
def field? (l : ClassLayout) (name : Name) : Option (Nat × Info) := do
  let i ← l.props.findIdx? (·.1 = name)
  let (_, _, info) ← l.props[i]?
  return (i + l.offset, info)

end ClassLayout

/-- The method table of a class. -/
structure MethodTable where
  root : DeclId
  global : GlobalId
  array : TyId
  length : Nat
  /-- Slots before the first method. -/
  header : Nat
  /-- Virtual methods in the order of their slots. -/
  methods : List (Name × DeclId)
  external : Bool
  deriving DecidableEq, Repr

/-- The slot of a virtual method. -/
def MethodTable.slotOf (t : MethodTable) (name : Name) : Option Nat :=
  (t.methods.findIdx? (·.1 = name)).map (· + t.header)

/-- What tells compiled bodies of one declaration apart. -/
structure FunctionKey where
  subject : Subject
  receiverClass : Option DeclId
  params : List Info
  bindings : List (Name × ShapeKey)
  deriving DecidableEq, Repr

structure CompiledFunction where
  func : FuncId
  env : EnvId
  params : List Info
  ret : Info
  deriving DecidableEq, Repr

structure Work where
  code : Module
  registry : Registry := {}
  /-- Names at the top of the program, as far as they were met. -/
  moduleScope : Scope := {}
  sites : Table DeclId Site := {}
  functions : Table FunctionKey CompiledFunction := {}
  /-- Functions that get a body here. -/
  compiled : List FuncId := []
  layouts : Table DeclId ClassLayout := {}
  tables : Table DeclId MethodTable := {}
  statics : Table DeclId GlobalId := {}
  /-- What calls an overriding method of a class, per method name. -/
  overrides : Table (DeclId × Name) FuncId := {}
  /-- Environments for calls of unknown code, per number of arguments. -/
  syntheticEnvs : Table Nat EnvId := {}
  /-- Interfaces being lowered; one that meets itself reads as `any`. -/
  interfacesInProgress : List DeclId := []

abbrev Compile := ReaderT Setup (EStateM Failure Work)

/-! ## The start -/

/-- Loads code and environment of the closure in the argument and calls the code. -/
def closureCallBody (closure bodySig : TyId) (call : FuncId) : Code.Body :=
  let write : Writing Unit := do
    let codeAddr ← Draft.fieldAddr closure (Draft.param 0) 0 "code.p"
    let code ← Draft.load .ptr codeAddr "code"
    let envAddr ← Draft.fieldAddr closure (Draft.param 0) 1 "env.p"
    let env ← Draft.load .ptr envAddr "env"
    let result ← Draft.callIndirect bodySig .ptr code [env] "r"
    Draft.ret result
  (write.run (Draft.start call [.ptr])).2.finish

/-- The module before anything of the program is compiled. -/
def startModule : Runtime × Module :=
  let m : Module := { name := "tsn" }
  let (closure, types) := m.types.named "closure"
  let (_, types) := types.setBody closure [.ptr, .ptr]
  let (lazy, types) := types.named "lazy_closure"
  let (_, types) := types.setBody lazy [.ptr]
  let (bodySig, types) := types.func [.ptr] .ptr
  let (call, m) := { m with types }.declare closureCallName [.ptr] .ptr
  (⟨closure, lazy, bodySig, call⟩, m.define call (closureCallBody closure bodySig call))

def Setup.of (program : Program) (resolver : Resolver) (config : Config) : Setup where
  program
  resolver
  config
  runtime := startModule.1

def Work.start : Work := { code := startModule.2 }

/-! ## Questions -/

/-- What is known of a value, in words. -/
def Info.describe (p : Program) (r : Registry) : Info → String
  | .void => "void"
  | .number => "number"
  | .boolean => "boolean"
  | .text => "string"
  | .null => "null"
  | .any => "any"
  | .object s | .union s | .intersection s => r.shapeName s
  | .instanceOf d => p.declName d
  | .closure known => known.sig.elim "closure" p.typeName
  | .lazy d =>
    let name := p.declName d
    if name.isEmpty then "generic arrow" else s!"generic {name}"

/-- The site of a declaration. Members of a class have that of the class. -/
def Work.siteOf (p : Program) (w : Work) (d : DeclId) : Except Invalid Site :=
  match w.sites.get? d with
  | some site => .ok site
  | none =>
    match p.decl d with
    | .error e => .error (.program e)
    | .ok decl =>
      let owner := match decl.kind with
        | .function f => f.owner
        | .property q => some q.owner
        | _ => none
      match owner.bind w.sites.get? with
      | some site => .ok site
      | none => .error (.notInScope (p.declName d))

/-! ## Steps -/

namespace Compile

def program : Compile Program := return (← read).program

def fail {α : Type} (cause : Cause) : Compile α := throw (.bare cause)

def invalid {α : Type} (what : Invalid) : Compile α := fail (.invalid what)

def unsupported {α : Type} (what : Unsupported) : Compile α := fail (.unsupported what)

/-- The answer to a question about the program. -/
def ask {α : Type} : Except ProgramError α → Compile α
  | .ok a => pure a
  | .error e => invalid (.program e)

/-- The answer to a question about the program, asked of the program itself. -/
def asks {α : Type} (question : Program → Except ProgramError α) : Compile α := do
  ask (question (← program))

def runtime : Compile Runtime := return (← read).runtime

/-- How a declaration is realized, given the arguments of a call and the object it is made on. -/
def resolve (d : DeclId) (args : List Info) (receiver : Option Info) : Compile Resolution := do
  let setup ← read
  return setup.resolver.resolve setup.program d args receiver

/-- The text of a name. -/
def text (n : Name) : Compile String := return (← program).text n

def declName (d : DeclId) : Compile String := return (← program).declName d

/-- Changes the module's types. -/
def types {α : Type} (f : TypeTable → α × TypeTable) : Compile α :=
  modifyGet fun w =>
    let (a, types) := f w.code.types
    (a, { w with code := { w.code with types } })

/-- Changes the module. -/
def code {α : Type} (f : Module → α × Module) : Compile α :=
  modifyGet fun w =>
    let (a, code) := f w.code
    (a, { w with code })

def registry : Compile Registry := return (← get).registry

def registerShape (s : Shape) : Compile ShapeId :=
  modifyGet fun w =>
    let (id, registry) := w.registry.register s
    (id, { w with registry })

/-- Changes the registry in a way that it may refuse. -/
def register (f : Registry → Except RegistryError Registry) : Compile Unit := do
  match f (← registry) with
  | .ok registry => modify fun w => { w with registry }
  | .error e => invalid (.registry e)

/-- A named record of pointers. -/
def pointerRecord (name : String) (fields : List TyId) : Compile TyId :=
  types fun t =>
    let (record, t) := t.named name
    (record, (t.setBody record fields).2)

/-- A name that no record has: the base, or the base with a numeric suffix. -/
def uniqueRecordName (base : String) : Compile String := do
  let names := (← get).code.types.types.toList.filterMap fun
    | .named n _ => some n
    | _ => none
  return uniqueName names base

/-- A new record of pointers under a name of its own. -/
def freshRecord (base : String) (size : Nat) : Compile (String × TyId) := do
  let name ← uniqueRecordName base
  return (name, ← pointerRecord name (List.replicate size .ptr))

def addEnv (e : Environment) : Compile EnvId :=
  modifyGet fun w =>
    let (id, registry) := w.registry.addEnv e
    (id, { w with registry })

def env (id : EnvId) : Compile Environment := do
  match (← registry).env? id with
  | some e => return e
  | none => invalid (.unknownEnvironment id)

def objectShape (id : ShapeId) : Compile ObjectShape := do
  let r ← registry
  match r.object? id with
  | some s => return s
  | none => invalid (.notShape (r.shapeName id) .object)

def unionShape (id : ShapeId) : Compile UnionShape := do
  let r ← registry
  match r.union? id with
  | some s => return s
  | none => invalid (.notShape (r.shapeName id) .union)

def intersectionShape (id : ShapeId) : Compile IntersectionShape := do
  let r ← registry
  match r.intersection? id with
  | some s => return s
  | none => invalid (.notShape (r.shapeName id) .intersection)

/-! ## Names -/

def infoName (i : Info) : Compile String := return i.describe (← program) (← registry)

def mismatch {α : Type} (expected found : Info) : Compile α := do
  fail (.shapeMismatch (← infoName expected) (← infoName found))

/-! ## Sites -/

def recordSite (d : DeclId) (site : Site) : Compile Unit :=
  modify fun w => { w with sites := w.sites.insert d site }

def siteOf (d : DeclId) : Compile Site := do
  match (← get).siteOf (← program) d with
  | .ok site => return site
  | .error e => invalid e

/-! ## Functions and globals -/

/-- A function supplied from outside that takes a number of pointers. -/
def externalFunction (name : String) (arity : Nat) : Compile FuncId := do
  match (← get).code.functionByName name with
  | some f =>
    if f ∈ (← get).compiled then invalid (.compiledAndNative name) else return f
  | none => code (·.declare name (List.replicate arity .ptr) .ptr)

/-- A new function that gets its body here. -/
def declareCompiled (name : String) (arity : Nat) : Compile FuncId := do
  let f ← code (·.declareUnique name (List.replicate arity .ptr) .ptr)
  modify fun w => { w with compiled := f :: w.compiled }
  return f

def define (f : FuncId) (body : Code.Body) : Compile Unit :=
  modify fun w => { w with code := w.code.define f body }

/-- The global of a static property. -/
def staticGlobal (prop : DeclId) : Compile GlobalId := do
  match (← get).statics.get? prop with
  | some g => return g
  | none =>
    let owner := (← asks (·.property prop)).owner
    let name := "static." ++ (← declName owner) ++ "." ++ (← declName prop)
    let g ← code (·.addGlobal name .ptr false .zero)
    modify fun w => { w with statics := w.statics.insert prop g }
    return g

/-- The environment for a call of unknown code. -/
def syntheticEnv (params : Nat) : Compile EnvId := do
  match (← get).syntheticEnvs.get? params with
  | some e => return e
  | none =>
    let record ← types (·.literal (List.replicate params .ptr))
    let e ← addEnv (.synthesized params record)
    modify fun w => { w with syntheticEnvs := w.syntheticEnvs.insert params e }
    return e

end Compile

end ShapeCompiler
