import ShapeCompiler.Compile.Coercion
import ShapeCompiler.Compile.Construct
import ShapeCompiler.Compile.Operator

/-!
Expressions.

- `Emit.expr` computes the value of an expression; a failure gets its place.
-/

namespace ShapeCompiler

open Source Code

namespace Emit

/-! ## Calls -/

/-- Calls the method of an object that was found for a name, or what its property of that name
holds. -/
def callFound (l : Lowering) (this : Operand) (n : Name) (args : List ExprId) :
    Option (DeclId × DeclId) → Emit Operand
  | some (cls, m) => do
    let args ← l.exprs args
    match ← virtualSlot l cls m with
    | some slot => virtualCall l this cls m slot args
    | none => callDecl l m (some ⟨this, cls⟩) args
  | none => do
    let f ← l.readProperty this n
    callValue l f (← l.exprs args)

/-- Calls a method of an object or what one of its properties holds. -/
def objectCall (l : Lowering) (object : ExprId) (n : Name) (args : List ExprId) :
    Emit Operand := do
  let this ← toBoxed (← l.expr object)
  let method ← match this.info with
    | .instanceOf cls => do
      let found ← findMember (← Compile.asks (·.classChain cls)) n .method
      pure (found.map (cls, ·))
    | _ => pure none
  callFound l this n args method

/-- A call of a member: of the base class, of a class, or of an object. -/
def memberCall (l : Lowering) (object : ExprId) (n : Name) (args : List ExprId) :
    Emit Operand := do
  match ((← Compile.program).expr object).kind with
  | .parent => callParentMethod l n (← l.exprs args)
  | _ =>
    match ← className? object with
    | some cls => callStatic l cls n (← l.exprs args)
    | none => objectCall l object n args

/-- A call of a name. One that means nothing here may still be known to reach a declaration. -/
def nameCall (l : Lowering) (n : Name) (args : List ExprId) (target : Option DeclId) :
    Emit Operand := do
  match ← lookup n, target with
  | some (.function d), _ => callDecl l d none (← l.exprs args)
  | some (.cell _ _), _ | some (.global _ _), _ =>
    let f ← readName l n
    callValue l f (← l.exprs args)
  | some (.classDecl _), _ => Compile.unsupported (.classCall (← Compile.text n))
  | none, some d => callDecl l d none (← l.exprs args)
  | none, none => Compile.invalid (.usedBefore (← Compile.text n))

def call (l : Lowering) (callee : ExprId) (args : List ExprId) (target : Option DeclId) :
    Emit Operand := do
  match ((← Compile.program).expr callee).kind with
  | .parent => callBaseConstructor l (← l.exprs args)
  | .property object n => memberCall l object n args
  | .ident n => nameCall l n args target
  | _ =>
    let f ← l.expr callee
    callValue l f (← l.exprs args)

/-! ## Properties and objects -/

def property (l : Lowering) (object : ExprId) (n : Name) : Emit Operand := do
  match ((← Compile.program).expr object).kind with
  | .parent => readParent l n
  | _ =>
    match ← className? object with
    | some cls => readStatic l cls n
    | none => l.readProperty (← l.expr object) n

/-- The values of an object's properties; where a name repeats, the last value takes the first
place. -/
def propertyValues (l : Lowering) :
    List (Name × ExprId) → List (Name × Operand) → Emit (List (Name × Operand))
  | [], values => return values
  | (n, e) :: rest, values => do
    let v ← toBoxed (← l.expr e)
    propertyValues l rest (Table.put n v values)

/-- A new object. -/
def objectLiteral (l : Lowering) (fields : List (Name × ExprId)) : Emit Operand := do
  let values ← propertyValues l fields []
  let shape ← Compile.shapeOfObject (values.map fun (n, v) => (n, v.info))
  let record := (← Compile.objectShape shape).record
  let obj ← Draft.alloc record "obj"
  values.zipIdx.forM fun ((_, v), i) => storeField record obj i v.value
  return .boxed obj (.object shape)

/-! ## All expressions -/

def exprKind (l : Lowering) : ExprKind → Emit Operand
  | .number x => return .raw (← Draft.float x) .number
  | .text s => do
    let text ← Compile.text s
    return .raw (← Draft.text text) .text
  | .bool b => return .raw (← Draft.bool b) .boolean
  | .null | .undefined => nullValue .null
  | .ident n => readName l n
  | .receiver => receiver
  | .parent => Compile.unsupported .superExpr
  | .property object n => property l object n
  | .call callee args target => call l callee args target
  | .construct cls args => do construct l cls (← l.exprs args)
  | .function d => functionValue l d
  | .object fields => objectLiteral l fields
  | .assign target value => assign l target value
  | .binary op lhs rhs => binary l op lhs rhs
  | .unary op operand => unary l op operand
  | .convert e ty => do
    let v ← l.expr e
    l.coerce v (← infoOf ty)

/-- The value of an expression. -/
def expr (l : Lowering) (id : ExprId) : Emit Operand := do
  let e := (← Compile.program).expr id
  locate e.span (exprKind l e.kind)

end Emit

end ShapeCompiler
