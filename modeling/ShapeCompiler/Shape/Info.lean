import ShapeCompiler.Code.Inst
import ShapeCompiler.Source.Types

/-!
What is known of a value at compile time.

Every value is a pointer when the program runs. Its `Info` tells what the pointer leads to: a cell
with a scalar, a record of some shape, an instance of a class, a closure, or nothing that is known.
-/

namespace ShapeCompiler

open Source Code

/-- A registered shape of records. -/
structure ShapeId where
  raw : Nat
  deriving DecidableEq, Repr

/-- A registered environment of a function body. -/
structure EnvId where
  raw : Nat
  deriving DecidableEq, Repr

/-- What is known of a closure: its function type, its code, its environment. -/
structure ClosureInfo where
  sig : Option TypeId := none
  code : Option FuncId := none
  env : Option EnvId := none
  deriving DecidableEq, Repr

inductive Info where
  | void
  | number
  | boolean
  | text
  | null
  | object (shape : ShapeId)
  | instanceOf (decl : DeclId)
  | union (shape : ShapeId)
  | intersection (shape : ShapeId)
  | closure (known : ClosureInfo)
  /-- A generic function whose code is chosen at each call. -/
  | lazy (decl : DeclId)
  /-- Nothing is known. -/
  | any
  deriving DecidableEq, Repr

/-- What decides which slot of a union a value goes to. All closures go to one. -/
inductive ShapeKey where
  | void
  | number
  | boolean
  | text
  | null
  | object (shape : ShapeId)
  | instanceOf (decl : DeclId)
  | union (shape : ShapeId)
  | intersection (shape : ShapeId)
  | closure
  | lazy (decl : DeclId)
  | any
  deriving DecidableEq, Repr

namespace Info

def key : Info → ShapeKey
  | .void => .void
  | .number => .number
  | .boolean => .boolean
  | .text => .text
  | .null => .null
  | .object s => .object s
  | .instanceOf d => .instanceOf d
  | .union s => .union s
  | .intersection s => .intersection s
  | .closure _ => .closure
  | .lazy d => .lazy d
  | .any => .any

/-- The type of the cell that holds a scalar. -/
def cell? : Info → Option TyId
  | .number => some .f64
  | .boolean => some .i1
  | .text => some .str
  | _ => none

/-- Scalars, which are kept in cells. -/
def isPrimitive (i : Info) : Bool := i.cell?.isSome

/-- Represented by the null pointer. -/
def isNullish : Info → Bool
  | .null | .void => true
  | _ => false

def isCallable : Info → Bool
  | .closure _ | .lazy _ | .any => true
  | _ => false

end Info

/-- Whether a scalar still has to be put into a cell. -/
inductive Form where
  | raw
  | boxed
  deriving DecidableEq, Repr

end ShapeCompiler
