import ShapeCompiler.Compile.Property

/-!
Variables, assignment and operators.

- `Emit.readName` and `Emit.assignName` use a variable.
- `Emit.truthy` tells whether a value counts as true: false, zero, the empty text, null and what is
  absent do not.
- `Emit.assign`, `Emit.binary` and `Emit.unary` compile the operators.
-/

namespace ShapeCompiler

open Source Code

namespace Emit

/-! ## Variables -/

/-- The value of a name. -/
def readName (l : Lowering) (n : Name) : Emit Operand := do
  let text ← Compile.text n
  match ← lookup n with
  | some (.cell cell info) => return .boxed (← Draft.load .ptr cell text) info
  | some (.global g info) =>
    let addr ← Draft.globalAddr g
    return .boxed (← Draft.load .ptr addr text) info
  | some (.function d) => functionValue l d
  | some (.classDecl _) => Compile.unsupported (.classValue text)
  | none => Compile.invalid (.usedBefore text)

/-- Where a variable is kept and what it holds. -/
def variablePlace (n : Name) : Emit (ValueId × Info) := do
  match ← lookup n with
  | some (.cell cell info) => return (cell, info)
  | some (.global g info) => return (← Draft.globalAddr g, info)
  | some (.function _) | some (.classDecl _) =>
    Compile.invalid (.assignedDeclaration (← Compile.text n))
  | none => Compile.invalid (.usedBefore (← Compile.text n))

/-- Two closures are called alike. -/
def sameConvention (r : Registry) (a b : FuncId) : Bool :=
  a = b ||
    match r.closure? a, r.closure? b with
    | some c, some d => c.params = d.params && c.ret = d.ret
    | _, _ => false

/-- A variable whose code is known takes only closures that are called alike. -/
def checkRebinding (n : Name) (current new : Info) : Emit Unit := do
  match current, new with
  | .closure { code := some a, .. }, .closure { code := some b, .. } =>
    unless sameConvention (← Compile.registry) a b do
      Compile.unsupported (.rebinding (← Compile.text n))
  | _, _ => return

/-- Stores a value in a variable. -/
def assignName (l : Lowering) (n : Name) (v : Operand) : Emit Operand := do
  let (place, info) ← variablePlace n
  checkRebinding n info v.info
  let p ← l.coerced v info
  Draft.store p place
  return .boxed p info

/-- The class that an expression names. -/
def className? (e : ExprId) : Emit (Option DeclId) := do
  match ((← Compile.program).expr e).kind with
  | .ident n =>
    match ← lookup n with
    | some (.classDecl cls) => return some cls
    | _ => return none
  | _ => return none

/-- Stores a value in a variable, a static property or a property. -/
def assign (l : Lowering) (target value : ExprId) : Emit Operand := do
  match ((← Compile.program).expr target).kind with
  | .ident n => assignName l n (← l.expr value)
  | .property object n =>
    match ← className? object with
    | some cls => writeStatic l cls n (← l.expr value)
    | none =>
      let place ← toBoxed (← l.expr object)
      l.writeProperty place n (← l.expr value)
  | _ => Compile.invalid .assignmentTarget

/-! ## Truth -/

/-- Whether a value counts as true. -/
def truthy (v : Operand) : Emit ValueId := do
  match v.info with
  | .boolean => raw v
  | .number =>
    let x ← raw v
    Draft.compare .ne x (← Draft.float 0.0) "truthy"
  | .text =>
    let s ← raw v
    Draft.compare .ne s (← Draft.text "") "truthy"
  | info =>
    match ← optionalShape? info with
    | some shape => isPresent v shape
    | none =>
      if info.isNullish then Draft.bool false
      else
        let p ← boxed v
        Draft.compare .ne p (← Draft.null) "truthy"

/-! ## Operators on two values -/

def arithmetic? : Source.BinaryOp → Option (Code.BinaryOp × String)
  | .add => some (.fadd, "add")
  | .sub => some (.fsub, "sub")
  | .mul => some (.fmul, "mul")
  | .div => some (.fdiv, "div")
  | _ => none

def ordering? : Source.BinaryOp → Option (Predicate × String)
  | .lt => some (.lt, "lt")
  | .gt => some (.gt, "gt")
  | .le => some (.le, "le")
  | .ge => some (.ge, "ge")
  | _ => none

/-- The value is an optional union and the other side is null. What the union is, is asked only
where the other side is null. -/
def meetsNull (v other : Operand) : Emit Bool := do
  if other.info.isNullish then return (← optionalShape? v.info).isSome else return false

/-- The optional value of a comparison with null, looked for on the left first. -/
def comparedWithNull? (a b : Operand) : Emit (Option Operand) := do
  if ← meetsNull a b then return some a
  else if ← meetsNull b a then return some b
  else return none

/-- Whether two values are the same: scalars of one type by value, an optional value and null by
presence, anything else by pointer. -/
def equal (a b : Operand) : Emit ValueId := do
  match ← comparedWithNull? a b with
  | some v => isAbsent v
  | none =>
    let scalars := a.info = b.info && a.info.isPrimitive
    let x ← if scalars then raw a else boxed a
    let y ← if scalars then raw b else boxed b
    Draft.compare .eq x y "eq"

/-- Numbers added, subtracted, multiplied, divided or put in order. -/
def numeric (op : Source.BinaryOp) (a b : Operand) : Emit (Option Operand) := do
  match arithmetic? op, ordering? op with
  | some (code, name), _ =>
    let x ← raw a
    let y ← raw b
    return some (.raw (← Draft.binary code x y name) .number)
  | none, some (pred, name) =>
    let x ← raw a
    let y ← raw b
    return some (.raw (← Draft.compare pred x y name) .boolean)
  | none, none => return none

def unsupportedBinary {α : Type} (op : Source.BinaryOp) (a b : Operand) : Emit α := do
  Compile.unsupported (.binary op (← Compile.infoName a.info) (← Compile.infoName b.info))

/-- An operator on two values that are both computed. -/
def strictBinary (op : Source.BinaryOp) (a b : Operand) : Emit Operand := do
  match op, a.info, b.info with
  | .strictEq, _, _ => return .raw (← equal a b) .boolean
  | .strictNe, _, _ => return .raw (← Draft.not (← equal a b) "ne") .boolean
  | .add, .text, .text =>
    let x ← raw a
    let y ← raw b
    return .raw (← Draft.binary .concat x y "concat") .text
  | _, .number, .number =>
    match ← numeric op a b with
    | some v => return v
    | none => unsupportedBinary op a b
  | _, _, _ => unsupportedBinary op a b

/-- An operator that computes its right side only if the left one does not decide. -/
def logical (l : Lowering) (isAnd : Bool) (lhs rhs : ExprId) : Emit Operand := do
  let result ← Draft.alloc .i1 "logic"
  let left ← truthy (← l.expr lhs)
  Draft.store left result
  let rhsBlock ← Draft.block "logic.rhs"
  let done ← Draft.block "logic.done"
  if isAnd then Draft.condBr left rhsBlock done else Draft.condBr left done rhsBlock
  Draft.moveTo rhsBlock
  let right ← truthy (← l.expr rhs)
  Draft.store right result
  Draft.br done
  Draft.moveTo done
  return .raw (← Draft.load .i1 result "logic") .boolean

def binary (l : Lowering) (op : Source.BinaryOp) (lhs rhs : ExprId) : Emit Operand := do
  match op with
  | .and => logical l true lhs rhs
  | .or => logical l false lhs rhs
  | _ =>
    let a ← l.expr lhs
    let b ← l.expr rhs
    strictBinary op a b

/-! ## Operators on one value -/

/-- What an update changes. The object of a property is computed once. -/
inductive UpdateTarget where
  | name (name : Name)
  | property (object : Operand) (name : Name)

/-- What an update changes, and its value before. -/
def updateTarget (l : Lowering) (operand : ExprId) : Emit (Operand × UpdateTarget) := do
  match ((← Compile.program).expr operand).kind with
  | .ident n => return (← readName l n, .name n)
  | .property object n =>
    let place ← toBoxed (← l.expr object)
    return (← l.readProperty place n, .property place n)
  | _ => Compile.invalid .updateTarget

/-- Adds one to a number in its place, or takes one away. -/
def update (l : Lowering) (increment before : Bool) (operand : ExprId) : Emit Operand := do
  let (old, target) ← updateTarget l operand
  if old.info ≠ .number then Compile.unsupported (.update (← Compile.infoName old.info))
  else
    let x ← raw old
    let one ← Draft.float 1.0
    let new ← Draft.binary (if increment then .fadd else .fsub) x one "update"
    match target with
    | .name n => discard <| assignName l n (.raw new .number)
    | .property object n => discard <| l.writeProperty object n (.raw new .number)
    return .raw (if before then new else x) .number

def negate (v : Operand) : Emit Operand := do
  if v.info = .number then return .raw (← Draft.fneg (← raw v) "neg") .number
  else Compile.unsupported (.negation (← Compile.infoName v.info))

def unary (l : Lowering) (op : UnaryOp) (operand : ExprId) : Emit Operand := do
  match op with
  | .neg => negate (← l.expr operand)
  | .not => return .raw (← Draft.not (← truthy (← l.expr operand)) "not") .boolean
  | .preInc => update l true true operand
  | .preDec => update l false true operand
  | .postInc => update l true false operand
  | .postDec => update l false false operand

end Emit

end ShapeCompiler
