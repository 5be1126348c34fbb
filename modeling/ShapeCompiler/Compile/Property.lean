import ShapeCompiler.Compile.Call
import ShapeCompiler.Compile.Union

/-!
Properties of objects and of classes.

- `Emit.readProperty` reads through a getter, from a field, or takes a method as a value.
- `Emit.writeProperty` writes through a setter or to a field.
- `Emit.readStatic` and `Emit.writeStatic` do so for static members.
-/

namespace ShapeCompiler

open Source Code

namespace Emit

def noProperty {α : Type} (info : Info) (n : Name) : Emit α := do
  Compile.invalid (.noProperty (← Compile.infoName info) (← Compile.text n))

/-- The nearest member of a name and kind. -/
def findMember (chain : List DeclId) (n : Name) (kind : FunctionKind) :
    Compile (Option DeclId) :=
  Compile.asks (·.findFunction n [kind] chain)

/-! ## Objects -/

/-- Reads a property of an instance. -/
def readInstance (l : Lowering) (object : Operand) (cls : DeclId) (n : Name) : Emit Operand := do
  let chain ← Compile.asks (·.classChain cls)
  match ← findMember chain n .getter with
  | some getter => callDecl l getter (some ⟨object, cls⟩) []
  | none =>
    match ← Compile.fieldRef object.info n with
    | some field => loadRef object.value field n
    | none =>
      match ← findMember chain n .method with
      | some m => boundMethod l object cls m
      | none => noProperty object.info n

/-- Reads a property that is a field. -/
def readField (object : Operand) (n : Name) : Emit Operand := do
  match ← Compile.fieldRef object.info n with
  | some field => loadRef object.value field n
  | none => noProperty object.info n

/-- The value of an optional union. -/
def unwrap (l : Lowering) (v : Operand) (shape : ShapeId) : Emit Operand := do
  unionExtract l v shape (← Compile.unionShape shape).memberInfo

/-- Reads a property. An optional value is read as if it were there. -/
def readProperty (l : Lowering) (v : Operand) (n : Name) : Emit Operand := do
  let object ← toBoxed v
  match object.info with
  | .instanceOf cls => readInstance l object cls n
  | .any => Compile.unsupported (.readAny (← Compile.text n))
  | info =>
    match ← optionalShape? info with
    | some shape => l.readProperty (← unwrap l object shape) n
    | none => readField object n

/-- Writes a property that is a field. -/
def writeField (l : Lowering) (object : Operand) (n : Name) (value : Operand) :
    Emit Operand := do
  match ← Compile.fieldRef object.info n with
  | none => noProperty object.info n
  | some field =>
    let p ← l.coerced value field.info
    storeField field.record object.value field.index p
    return .boxed p field.info

/-- The setter of a property, with the class it is called for. -/
def setter? (info : Info) (n : Name) : Compile (Option (DeclId × DeclId)) := do
  match info with
  | .instanceOf cls =>
    let setter ← findMember (← Compile.asks (·.classChain cls)) n .setter
    return setter.map (·, cls)
  | _ => return none

/-- Writes a property; the result is the stored value. -/
def writeProperty (l : Lowering) (v : Operand) (n : Name) (value : Operand) : Emit Operand := do
  let object ← toBoxed v
  match ← setter? object.info n with
  | some (setter, cls) =>
    let value ← toBoxed value
    discard <| callDecl l setter (some ⟨object, cls⟩) [value]
    return value
  | none =>
    match ← optionalShape? object.info with
    | some shape => l.writeProperty (← unwrap l object shape) n value
    | none => writeField l object n value

/-! ## The base class -/

/-- The class whose member is compiled. -/
def memberOwner : Emit DeclId := do
  match (← get).memberOwner with
  | some owner => return owner
  | none => Compile.unsupported .superMember

/-- Reads a property as the base class has it. -/
def readParent (l : Lowering) (n : Name) : Emit Operand := do
  let owner ← memberOwner
  let this ← receiver
  let cls := (← get).receiverClass.getD owner
  let bases := (← Compile.asks (·.classChain owner)).drop 1
  match ← findMember bases n .getter with
  | some getter => callDecl l getter (some ⟨this, cls⟩) []
  | none =>
    match ← findMember bases n .method with
    | some m => boundMethod l this cls m
    | none => l.readProperty this n

/-- Calls a method as the base class has it. -/
def callParentMethod (l : Lowering) (n : Name) (args : List Operand) : Emit Operand := do
  let owner ← memberOwner
  let bases := (← Compile.asks (·.classChain owner)).drop 1
  match ← findMember bases n .method with
  | none => Compile.invalid (.noBaseMethod (← Compile.declName owner) (← Compile.text n))
  | some m =>
    let this ← receiver
    callDecl l m (some ⟨this, (← get).receiverClass.getD owner⟩) args

/-! ## Static members -/

/-- The nearest static property along a chain. -/
def findStatic (n : Name) : List DeclId → Compile (Option DeclId)
  | [] => return none
  | c :: rest => do
    match ← Compile.asks (·.staticProperty c n) with
    | some prop => return some prop
    | none => findStatic n rest

/-- The nearest method along a chain, if it is static. -/
def findStaticMethod (n : Name) (chain : List DeclId) : Compile (Option DeclId) := do
  let p ← Compile.program
  let isStatic (m : DeclId) : Bool := (p.decl m).toOption.any (·.flags.static)
  return (← findMember chain n .method).filter isStatic

/-- The global of a static property and what it holds. -/
def staticVariable (prop : DeclId) : Emit (GlobalId × Info) := do
  let g ← Compile.staticGlobal prop
  return (g, ← closedInfoOf (← Compile.asks (·.property prop)).ty)

/-- Stores a value in a static property. -/
def storeStatic (l : Lowering) (g : GlobalId) (info : Info) (value : Operand) :
    Emit Operand := do
  let p ← l.coerced value info
  let addr ← Draft.globalAddr g
  Draft.store p addr
  return .boxed p info

/-- Reads a static property, or takes a static method as a value. -/
def readStatic (l : Lowering) (cls : DeclId) (n : Name) : Emit Operand := do
  let chain ← Compile.asks (·.classChain cls)
  match ← findStatic n chain with
  | some prop =>
    let (g, info) ← staticVariable prop
    let addr ← Draft.globalAddr g
    return .boxed (← Draft.load .ptr addr (← Compile.text n)) info
  | none =>
    match ← findStaticMethod n chain with
    | some m => staticMethodValue l m
    | none => Compile.invalid (.noStaticMember (← Compile.declName cls) (← Compile.text n))

/-- Writes a static property. -/
def writeStatic (l : Lowering) (cls : DeclId) (n : Name) (value : Operand) : Emit Operand := do
  match ← findStatic n (← Compile.asks (·.classChain cls)) with
  | some prop =>
    let (g, info) ← staticVariable prop
    storeStatic l g info value
  | none => Compile.invalid (.noStaticProperty (← Compile.declName cls) (← Compile.text n))

/-- Calls a static method, or what a static property holds. -/
def callStatic (l : Lowering) (cls : DeclId) (n : Name) (args : List Operand) : Emit Operand := do
  match ← findStaticMethod n (← Compile.asks (·.classChain cls)) with
  | some m => callDecl l m none args
  | none => callValue l (← readStatic l cls n) args

/-- The start value of a static property. -/
def staticStart? (d : Decl) : Option ExprId :=
  match d.kind with
  | .property q => if d.flags.static then q.init else none
  | _ => none

/-- Stores the start values of a class's static properties in order. -/
def initializeStatics (l : Lowering) (cls : DeclId) : Emit Unit := do
  (← Compile.asks (·.classDecl cls)).members.forM fun m => do
    match staticStart? (← Compile.asks (·.decl m)) with
    | some start =>
      let (g, info) ← staticVariable m
      discard <| storeStatic l g info (← l.expr start)
    | none => return

end Emit

end ShapeCompiler
