import ShapeCompiler.Compile.Frame
import ShapeCompiler.Compile.Layout

/-!
Closures: code with a filled environment.

A call writes its arguments to new cells, puts them into the parameter slots of the environment, and
enters the code. A generic function as a value is an environment without code; each call chooses
the code by its arguments.

- `Emit.functionValue`, `Emit.boundMethod` and `Emit.staticMethodValue` make closures.
- `Emit.callValue` calls a value.
-/

namespace ShapeCompiler

open Source Code

/-- A closure record with what is known of it. -/
structure ClosureValue where
  ptr : ValueId
  known : ClosureInfo
  deriving DecidableEq, Repr

def ClosureValue.operand (c : ClosureValue) : Operand := .boxed c.ptr (.closure c.known)

/-- What a call needs to know of its callee: the environment, the parameters, the result. -/
structure CallShape where
  env : EnvId
  params : List Info
  ret : Info
  deriving DecidableEq, Repr

namespace Emit

/-! ## Filling environments -/

/-- The slot of this body's environment that feeds a slot taken over from it. -/
def outerSource? (e : Environment) (slot : EnvSlot) (i : Nat) :
    Emit (Option (CurrentEnv × Nat)) := do
  match (← get).env, e.outerSlotFor i with
  | some current, some feed =>
    return if slot.origin = .outer && e.outer = some current.id then some (current, feed) else none
  | _, _ => return none

/-- What the variable of a slot, or else its name, means here. -/
def slotMeaning (slot : EnvSlot) (n : Name) : Emit (Option Binding) :=
  match slot.var with
  | some d => return (← get).scope.variableOf d
  | none => lookup n

/-- Fills a slot from what it means here. A slot taken over from elsewhere stays empty if it means
nothing. -/
def fillByScope (e : Environment) (ptr : ValueId) (slot : EnvSlot) (i : Nat) (n : Name) :
    Emit Unit := do
  match ← slotMeaning slot n with
  | some (.cell cell _) => storeField e.record ptr i cell
  | some (.global g _) =>
    let addr ← Draft.globalAddr g
    storeField e.record ptr i addr
  | _ =>
    if slot.origin ≠ .outer then Compile.fail (.unresolvedCapture (← Compile.text n))

/-- Fills one slot that is neither a parameter nor the receiver. -/
def fillCapture (e : Environment) (ptr : ValueId) (slot : EnvSlot) (i : Nat) : Emit Unit := do
  match slot.name, slot.origin with
  | .receiver, _ | _, .param | _, .receiver => return
  | .named n, _ =>
    match ← outerSource? e slot i with
    | some (current, feed) =>
      let record := (← Compile.env current.id).record
      let value ← loadField record current.ptr feed (← Compile.text n)
      storeField e.record ptr i value
    | none => fillByScope e ptr slot i n

/-- Fills the slots that are neither parameters nor the receiver. -/
def fillCaptures (e : Environment) (ptr : ValueId) : Emit Unit :=
  e.slots.zipIdx.forM fun (slot, i) => fillCapture e ptr slot i

/-- Fills the slot of the receiver, with that of this body if none is given. -/
def fillReceiver (e : Environment) (ptr : ValueId) (given : Option ValueId) : Emit Unit := do
  match e.receiverSlot with
  | none => return
  | some slot =>
    let value ← match given with
      | some v => pure v
      | none => do boxed (← receiver)
    storeField e.record ptr slot value

/-- Writes the arguments to new cells in the parameter slots. -/
def writeArgs (l : Lowering) (e : Environment) (ptr : ValueId) (params : List Info)
    (args : List Operand) : Emit Unit :=
  (List.range e.paramCount).forM fun i => do
    let value ← l.argument args[i]? (params[i]?.getD .any)
    let cell ← newCell value "arg"
    storeField e.record ptr i cell

/-! ## Making closures -/

/-- What is recorded of a compiled body as a closure. -/
def closureRecord (c : CompiledFunction) (d : DeclId) : ClosureRecord :=
  { decl := some d, env := c.env, params := c.params, ret := c.ret }

/-- Makes a closure of code and a filled environment. -/
def makeClosure (c : CompiledFunction) (d : DeclId) (env : ValueId) (sig : Option TypeId) :
    Emit ClosureValue := do
  let rt ← Compile.runtime
  Compile.register (·.bindClosure c.func (closureRecord c d))
  let ptr ← Draft.alloc rt.closure "closure"
  let code ← Draft.funcAddr c.func
  storeField rt.closure ptr 0 code
  storeField rt.closure ptr 1 env
  return ⟨ptr, { sig, code := some c.func, env := some c.env }⟩

/-- A new environment, filled but for the parameters. -/
def captureEnv (env : EnvId) (given : Option ValueId) : Emit ValueId := do
  let e ← Compile.env env
  let ptr ← Draft.alloc e.record "env"
  fillCaptures e ptr
  fillReceiver e ptr given
  return ptr

/-- Makes a closure of a compiled body, filled from this one. -/
def closureOf (c : CompiledFunction) (d : DeclId) (given : Option ValueId) :
    Emit ClosureValue := do
  makeClosure c d (← captureEnv c.env given) none

/-- A generic function as a value: the environment is filled, the code is left open. -/
def makeLazy (d : DeclId) : Emit Operand := do
  let env ← captureEnv (← Compile.environmentOf d) none
  let rt ← Compile.runtime
  let ptr ← Draft.alloc rt.lazy "lazy"
  storeField rt.lazy ptr 0 env
  return .boxed ptr (.lazy d)

/-- A function as a value. -/
def functionValue (l : Lowering) (d : DeclId) : Emit Operand := do
  let f ← Compile.asks (·.function d)
  if f.kind.isLiteral then recordSites [d]
  if f.body.isNone then Compile.unsupported (.nativeFunctionValue (← Compile.declName d))
  else if f.isGeneric then makeLazy d
  else return (← closureOf (← l.body (.function d) none []) d none).operand

/-- A method as a value, with its receiver. -/
def methodClosure (l : Lowering) (m : DeclId) (cls : Option DeclId) (given : ValueId) :
    Emit Operand := do
  let resolution ← Compile.resolve m [] none
  let f ← Compile.asks (·.function m)
  if resolution.external || f.body.isNone then
    Compile.unsupported (.nativeMethodValue resolution.name)
  else return (← closureOf (← l.body (.function m) cls []) m (some given)).operand

/-- A method of an object as a value. -/
def boundMethod (l : Lowering) (object : Operand) (cls m : DeclId) : Emit Operand := do
  methodClosure l m (some cls) (← boxed object)

/-- A static method as a value; its receiver is null. -/
def staticMethodValue (l : Lowering) (m : DeclId) : Emit Operand := do
  methodClosure l m none (← Draft.null)

/-! ## Calling values -/

/-- Parameters and result of a function type. -/
def sigInfos (sig : TypeId) : Emit (List Info × Info) := do
  let p ← Compile.program
  match p.types.get sig with
  | .function params ret _ => return (← params.mapM infoOf, ← infoOf ret)
  | _ => Compile.invalid (.notFunctionType (p.typeName sig))

/-- What is known of a callee: from its code, else from its environment, else from its type, else
from the number of arguments. -/
def callShape (known : ClosureInfo) (arity : Nat) : Emit CallShape := do
  match known.code.bind (← Compile.registry).closure?, known.env, known.sig with
  | some c, _, _ => return ⟨c.env, c.params, c.ret⟩
  | none, some env, some sig =>
    let params := (← Compile.env env).paramInfos
    return ⟨env, params, (← sigInfos sig).2⟩
  | none, some env, none => return ⟨env, (← Compile.env env).paramInfos, .any⟩
  | none, none, some sig =>
    let (params, ret) ← sigInfos sig
    return ⟨← Compile.syntheticEnv params.length, params, ret⟩
  | none, none, none =>
    return ⟨← Compile.syntheticEnv arity, List.replicate arity .any, .any⟩

/-- Calls a closure. -/
def closureCall (l : Lowering) (c : ClosureValue) (args : List Operand) : Emit Operand := do
  let shape ← callShape c.known args.length
  let e ← Compile.env shape.env
  let rt ← Compile.runtime
  let env ← loadField rt.closure c.ptr 1 "env"
  writeArgs l e env shape.params args
  return .boxed (← callPtr rt.call [c.ptr] "call") shape.ret

/-- Gives a generic function its code. -/
def closureFromLazy (f : Operand) (d : DeclId) (c : CompiledFunction) (sig : Option TypeId) :
    Emit ClosureValue := do
  let ptr ← boxed f
  let env ← loadField (← Compile.runtime).lazy ptr 0 "env"
  makeClosure c d env sig

/-- Calls a generic function with the code for the arguments. -/
def lazyCall (l : Lowering) (f : Operand) (d : DeclId) (args : List Operand) : Emit Operand := do
  let c ← l.body (.function d) none (args.map (·.info))
  closureCall l (← closureFromLazy f d c none) args

/-- A generic function where a function of some type is expected. -/
def specializeLazy (l : Lowering) (f : Operand) (d : DeclId) (sig : TypeId) : Emit Operand := do
  let (params, _) ← sigInfos sig
  let c ← l.body (.function d) none params
  return (← closureFromLazy f d c (some sig)).operand

/-- Calls a value. -/
def callValue (l : Lowering) (f : Operand) (args : List Operand) : Emit Operand := do
  match f.info with
  | .closure known => closureCall l ⟨← boxed f, known⟩ args
  | .lazy d => lazyCall l f d args
  | .any => closureCall l ⟨← boxed f, {}⟩ args
  | other => Compile.unsupported (.call (← Compile.infoName other))

end Emit

end ShapeCompiler
