import ShapeCompiler.Compile.Closure

/-!
Calls of declarations.

What is supplied from outside is called by its symbol, with the object first if there is one.
Anything else is compiled for the arguments and entered with a new environment.

- `Emit.callDecl` calls a declaration, `Emit.callExternal` and `Emit.callCompiled` are its two ways.
-/

namespace ShapeCompiler

open Source Code

/-- The object that a member is called on, and the class it is compiled for. -/
structure Receiver where
  object : Operand
  cls : DeclId
  deriving DecidableEq, Repr

namespace Emit

/-- What a function supplied from outside takes or gives; a generic one takes and gives anything. -/
def externalInfo (f : FunctionDecl) (ty : TypeId) : Emit Info :=
  if f.isGeneric then return .any else closedInfoOf ty

/-- Calls a function supplied from outside. -/
def callExternal (l : Lowering) (d : DeclId) (symbol : String) (object : Option Operand)
    (args : List Operand) : Emit Operand := do
  let f ← Compile.asks (·.function d)
  let first ← object.toList.mapM boxed
  let rest ← f.params.zipIdx.mapM fun (q, i) => do
    l.argument args[i]? (← externalInfo f (← Compile.asks (·.param q)).ty)
  let values := first ++ rest
  let func ← Compile.externalFunction symbol values.length
  let result ← callPtr func values "native"
  let ret ← f.ret.elim (pure .any) (externalInfo f)
  return .boxed result ret

/-- Calls a compiled body with a new environment. -/
def callCompiled (l : Lowering) (c : CompiledFunction) (this : Option ValueId)
    (args : List Operand) : Emit Operand := do
  let e ← Compile.env c.env
  let ptr ← Draft.alloc e.record "env"
  writeArgs l e ptr c.params args
  fillCaptures e ptr
  fillReceiver e ptr this
  return .boxed (← callPtr c.func [ptr] "call") c.ret

/-- The receiver to call a body with; a static member has the slot and nothing to put there. -/
def receiverValue (d : DeclId) (on : Option Receiver) : Emit (Option ValueId) := do
  match on with
  | some r => return some (← boxed r.object)
  | none =>
    if (← Compile.asks (·.decl d)).flags.static then return some (← Draft.null) else return none

/-- Calls a declaration. -/
def callDecl (l : Lowering) (d : DeclId) (on : Option Receiver) (args : List Operand) :
    Emit Operand := do
  let f ← Compile.asks (·.function d)
  let infos := args.map (·.info)
  let resolution ← Compile.resolve d infos (on.map (·.object.info))
  if resolution.external then callExternal l d resolution.name (on.map (·.object)) args
  else if f.body.isNone then Compile.invalid (.noCode resolution.name)
  else
    let c ← l.body (.function d) (on.map (·.cls)) infos
    callCompiled l c (← receiverValue d on) args

end Emit

end ShapeCompiler
