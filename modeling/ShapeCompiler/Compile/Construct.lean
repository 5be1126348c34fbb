import ShapeCompiler.Compile.Call
import ShapeCompiler.Compile.Dispatch

/-!
Instances of classes.

A new instance gets its method table, if its class has one, and then its constructor runs. The start
values of a class's own properties are stored when its constructor begins, or, if it has a base,
when the constructor of the base is done.
-/

namespace ShapeCompiler

open Source Code

namespace Emit

/-- What the constructor of a class is: a declared one, or the one it has without declaring it. A
class supplied from outside that declares none has none. -/
def constructorSubject (cls : DeclId) : Compile (Option Subject) := do
  match ← Compile.asks (·.constructorOf cls) with
  | some ctor => return some (.function ctor)
  | none =>
    if (← Compile.asks (·.decl cls)).flags.ambient then return none
    else return some (.implicitConstructor cls)

/-- The symbol of a constructor that is supplied from outside. -/
def externalConstructor? (subject : Subject) (cls : DeclId) (args : List Operand) :
    Compile (Option (DeclId × String)) := do
  match subject with
  | .function ctor =>
    let resolution ← Compile.resolve ctor (args.map (·.info)) (some (.instanceOf cls))
    return if resolution.external then some (ctor, resolution.name) else none
  | .implicitConstructor _ => return none

/-- Runs the constructor of a class on an instance of `cls`, which may be a class below it. -/
def runConstructor (l : Lowering) (ctorClass cls : DeclId) (this : ValueId)
    (args : List Operand) : Emit Unit := do
  match ← constructorSubject ctorClass with
  | none => return
  | some subject =>
    match ← externalConstructor? subject cls args with
    | some (ctor, symbol) =>
      discard <| callExternal l ctor symbol (some (.boxed this (.instanceOf cls))) args
    | none =>
      let c ← l.body subject (some cls) (args.map (·.info))
      discard <| callCompiled l c (some this) args

/-- Makes an instance. -/
def construct (l : Lowering) (cls : DeclId) (args : List Operand) : Emit Operand := do
  let layout ← Compile.layoutOf cls
  let obj ← Draft.alloc layout.record "new"
  if layout.hasTable then installTable l obj cls
  runConstructor l cls cls obj args
  return .boxed obj (.instanceOf cls)

/-- The start value of an instance property. -/
def startValue? (d : Decl) : Option ExprId :=
  match d.kind with
  | .property q => if d.flags.static then none else q.init
  | _ => none

/-- Stores the start value of one property. -/
def initializeProperty (l : Lowering) (owner : DeclId) (layout : ClassLayout) (this : ValueId)
    (d : Decl) (start : ExprId) : Emit Unit := do
  match layout.field? d.name with
  | none =>
    Compile.invalid (.missingProperty (← Compile.text d.name) (← Compile.declName owner))
  | some (index, info) =>
    let value ← l.coerced (← l.expr start) info
    storeField layout.record this index value

/-- Stores the start values of a class's own properties in order. -/
def runInitializers (l : Lowering) (owner : DeclId) : Emit Unit := do
  let p ← Compile.program
  let members := (← Compile.asks (·.classDecl owner)).members
  let hasStart (m : DeclId) : Bool := (p.decl m).toOption.any fun d => (startValue? d).isSome
  if members.any hasStart then
    let this ← boxed (← receiver)
    let layout ← Compile.layoutOf ((← get).receiverClass.getD owner)
    members.forM fun m => do
      let d ← Compile.asks (·.decl m)
      match startValue? d with
      | some start => initializeProperty l owner layout this d start
      | none => return

/-- Calls the constructor of the base, then stores the start values of the class. -/
def callBaseConstructor (l : Lowering) (args : List Operand) : Emit Operand := do
  match (← get).memberOwner with
  | none => Compile.unsupported .superCall
  | some owner =>
    match (← Compile.asks (·.classDecl owner)).base with
    | none => Compile.invalid (.noBase (← Compile.declName owner))
    | some base =>
      let this ← boxed (← receiver)
      runConstructor l base ((← get).receiverClass.getD owner) this args
      runInitializers l owner
      nullValue .void

/-- A parameter of a constructor that is not written out, to be passed on. -/
def forwardedArgument (cls param : DeclId) : Emit Operand := do
  let n := (← Compile.asks (·.decl param)).name
  match (← get).scope.lookup n with
  | some (.cell cell info) => return .boxed (← Draft.load .ptr cell (← Compile.text n)) info
  | _ => Compile.invalid (.unboundForwarded (← Compile.text n) (← Compile.declName cls))

/-- The body of a constructor that is not written out. -/
def implicitConstructor (l : Lowering) (cls : DeclId) : Emit Unit := do
  if (← Compile.asks (·.classDecl cls)).base.isNone then runInitializers l cls
  else
    let params ← Compile.asks (·.forwardedParams cls)
    let args ← params.mapM (forwardedArgument cls)
    discard <| callBaseConstructor l args

end Emit

end ShapeCompiler
