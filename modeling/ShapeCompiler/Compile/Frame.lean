import ShapeCompiler.Compile.Specialize

/-!
A function body being compiled.

- `Operand` is a value of the body with what is known of it.
- `Frame` is the state of one body: the draft, the scope, the environment, the receiver.
- `Emit` is the monad that works on a frame on top of `Compile`.
- `Lowering` holds the steps that call each other, as one of them sees the others.
-/

namespace ShapeCompiler

open Source Code

/-- A computed value, what is known of it, and whether a scalar is still outside a cell. -/
structure Operand where
  value : ValueId
  info : Info
  form : Form
  deriving DecidableEq, Repr

namespace Operand

def boxed (value : ValueId) (info : Info) : Operand := ⟨value, info, .boxed⟩

def raw (value : ValueId) (info : Info) : Operand := ⟨value, info, .raw⟩

end Operand

/-- The environment that a body was called with. -/
structure CurrentEnv where
  id : EnvId
  ptr : ValueId
  deriving DecidableEq, Repr

/-- What `return` does. -/
inductive Returning where
  /-- The statements at the top return nothing. -/
  | entry
  /-- Constructors and setters return null whatever they are given. -/
  | discard
  /-- The result takes the declared form, else the form of the first one returned. -/
  | value (declared inferred : Option Info)
  deriving DecidableEq, Repr

/-- What callers know of a result. -/
def Returning.info (fallback : Info) : Returning → Info
  | .entry | .discard => .void
  | .value declared inferred => (declared <|> inferred).getD fallback

structure Frame where
  draft : Draft
  scope : Scope
  bindings : Bindings
  returning : Returning
  env : Option CurrentEnv := none
  receiver : Option Operand := none
  /-- The class that the body is compiled for. -/
  receiverClass : Option DeclId := none
  /-- The class that declares the member; the base class is that of this one. -/
  memberOwner : Option DeclId := none
  /-- Blocks around the statement; the outermost one does not count. -/
  depth : Nat := 0
  isEntry : Bool := false
  /-- Functions and classes declared in the blocks around, innermost block first. -/
  hoisted : List (List DeclId) := []

/-- What a declaration made in the body can see. -/
def Frame.site (f : Frame) : Site where
  scope := f.scope
  outer := f.env.map (·.id)
  receiverClass := f.receiverClass
  bindings := f.bindings

abbrev Emit := StateT Frame Compile

namespace Emit

/-- Writes to the draft. -/
def write {α : Type} (step : Writing α) : Emit α :=
  modifyGet fun f =>
    let (a, draft) := step.run f.draft
    (a, { f with draft })

instance : MonadLift Writing Emit := ⟨write⟩

def isClosed : Emit Bool := return (← get).draft.isClosed

/-- Attaches a place to a failure that has none. -/
def locate {α : Type} (span : Span) (step : Emit α) : Emit α :=
  tryCatch step fun failure => throw (failure.attach span)

/-! ## Types and names -/

/-- What is known of values of a type in this body. -/
def infoOf (t : TypeId) : Emit Info := do Compile.infoOf (← get).bindings t

/-- What a type stands for where only some calls bind its type parameters. -/
def closedInfoOf (t : TypeId) : Emit Info := do
  if (← Compile.program).types.mentionsParam t then return .any else infoOf t

/-- What a name means: in the scope, else among the names at the top that came later. -/
def lookup (n : Name) : Emit (Option Binding) := do
  return (← get).scope.lookup n <|> (← getThe Work).moduleScope.lookup n

/-! ## Forms -/

/-- The value as a pointer; a raw scalar moves to a new cell. -/
def boxed (v : Operand) : Emit ValueId := do
  match v.form, v.info.cell? with
  | .raw, some cell =>
    let p ← Draft.alloc cell "box"
    Draft.store v.value p
    return p
  | _, _ => return v.value

def toBoxed (v : Operand) : Emit Operand := return .boxed (← boxed v) v.info

/-- The value as a scalar. -/
def raw (v : Operand) : Emit ValueId := do
  match v.form, v.info.cell? with
  | .raw, _ => return v.value
  | .boxed, some cell => Draft.load cell v.value "unbox"
  | .boxed, none => Compile.invalid (.noScalar (← Compile.infoName v.info))

def nullValue (info : Info) : Emit Operand := return .boxed (← Draft.null) info

/-- A new cell for a variable. -/
def newCell (value : ValueId) (name : String) : Emit ValueId := do
  let cell ← Draft.alloc .ptr name
  Draft.store value cell
  return cell

def loadField (record : TyId) (ptr : ValueId) (index : Nat) (name : String) : Emit ValueId := do
  let p ← Draft.fieldAddr record ptr index name
  Draft.load .ptr p name

def storeField (record : TyId) (ptr : ValueId) (index : Nat) (value : ValueId) : Emit Unit := do
  let p ← Draft.fieldAddr record ptr index "field"
  Draft.store value p

/-- A call that gives a pointer. -/
def callPtr (func : FuncId) (args : List ValueId) (name : String) : Emit ValueId := do
  match ← Draft.call func .ptr args name with
  | some v => return v
  | none => Draft.null

/-! ## Declarations -/

/-- The statement stands at the top of the program. -/
def atTop : Emit Bool := do
  let f ← get
  return f.isEntry && f.depth = 0

/-- What a declaration made here can see. -/
def currentSite : Emit Site := return (← get).site

def bindName (n : Name) (b : Binding) : Emit Unit := do
  modify fun f => { f with scope := f.scope.bind n b }
  if ← atTop then
    modifyThe Work fun w => { w with moduleScope := w.moduleScope.bind n b }

/-- Records what the declarations can see at this place. -/
def recordSites (decls : List DeclId) : Emit Unit := do
  let site ← currentSite
  decls.forM fun d => Compile.recordSite d site

/-- Opens a block in which functions and classes are declared. -/
def openBlock (decls : List DeclId) : Emit Unit := do
  recordSites decls
  modify fun f => { f with hoisted := decls :: f.hoisted }

def closeBlock : Emit Unit := modify fun f => { f with hoisted := f.hoisted.tail }

/-- A variable came into view, for the declarations of the block as well. -/
def refreshSites : Emit Unit := do recordSites ((← get).hoisted.head?.getD [])

/-- The receiver of the body. -/
def receiver : Emit Operand := do
  match (← get).receiver with
  | some v => return v
  | none => Compile.fail (.unresolvedCapture "this")

end Emit

/-- The steps of compilation that call each other. -/
structure Lowering where
  /-- Compiles a body, or finds it compiled. -/
  compile : Specialization → Compile CompiledFunction
  expr : ExprId → Emit Operand
  block : List StmtId → Emit Unit
  /-- Gives a value another form. -/
  coerce : Operand → Info → Emit Operand
  /-- Takes a member out of a union. -/
  extract : Operand → ShapeId → Info → Emit Operand
  readProperty : Operand → Name → Emit Operand
  writeProperty : Operand → Name → Operand → Emit Operand

namespace Lowering

/-- Compiles the body for a call with such arguments. -/
def body (l : Lowering) (subject : Subject) (cls : Option DeclId) (args : List Info) :
    Compile CompiledFunction := do
  l.compile (← Compile.specialize subject cls args)

def exprs (l : Lowering) (es : List ExprId) : Emit (List Operand) := es.mapM l.expr

/-- The value in another form, as a pointer. -/
def coerced (l : Lowering) (v : Operand) (info : Info) : Emit ValueId := do
  Emit.boxed (← l.coerce v info)

/-- The argument as a parameter takes it; a missing one is null. -/
def argument (l : Lowering) (arg : Option Operand) (info : Info) : Emit ValueId := do
  match arg with
  | some v => l.coerced v info
  | none => l.coerced (← Emit.nullValue .null) info

end Lowering

end ShapeCompiler
