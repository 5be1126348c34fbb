import ShapeCompiler.Code.Types

/-!
Instructions, the exits of blocks, and constants.
-/

namespace ShapeCompiler.Code

/-- A value of one function body. The parameters come first. -/
structure ValueId where
  raw : Nat
  deriving DecidableEq, Repr

/-- A block of one function body. The first one is entered by a call. -/
structure BlockId where
  raw : Nat
  deriving DecidableEq, Repr

/-- A function of a module. -/
structure FuncId where
  raw : Nat
  deriving DecidableEq, Repr

/-- A global of a module. -/
structure GlobalId where
  raw : Nat
  deriving DecidableEq, Repr

/-- A scalar constant. -/
inductive Const where
  | int (ty : TyId) (value : Int64)
  | float (value : Float)
  | bool (value : Bool)
  | null
  | text (value : String)
  /-- Address of a function. -/
  | func (id : FuncId)
  /-- Address of a global. -/
  | global (id : GlobalId)

/-- The type of the value that a constant gives. -/
def Const.ty : Const → TyId
  | .int ty _ => ty
  | .float _ => .f64
  | .bool _ => .i1
  | .text _ => .str
  | .null | .func _ | .global _ => .ptr

/-- A name for readers of the value that a constant gives. -/
def Const.label : Const → String
  | .int ty _ => if ty = .i8 then "i8" else if ty = .i32 then "i32" else "int"
  | .float _ => "num"
  | .bool _ => "bool"
  | .null => "null"
  | .text _ => "str"
  | .func _ => "fnaddr"
  | .global _ => "gaddr"

/-- What a global holds at the start. -/
inductive Initial where
  /-- The zero value of the global's type. -/
  | zero
  | scalar (value : Const)
  | aggregate (items : List Initial)

inductive BinaryOp where
  | fadd
  | fsub
  | fmul
  | fdiv
  | add
  | sub
  | mul
  /-- Bitwise on integers, logical on truth values. -/
  | and
  | or
  /-- Joins two texts. -/
  | concat
  deriving DecidableEq, Repr

def BinaryOp.mnemonic : BinaryOp → String
  | .fadd => "fadd"
  | .fsub => "fsub"
  | .fmul => "fmul"
  | .fdiv => "fdiv"
  | .add => "add"
  | .sub => "sub"
  | .mul => "mul"
  | .and => "and"
  | .or => "or"
  | .concat => "concat"

/-- Comparisons. Those that order apply to numbers, truth values and texts only. -/
inductive Predicate where
  | eq
  | ne
  | lt
  | gt
  | le
  | ge
  deriving DecidableEq, Repr

def Predicate.mnemonic : Predicate → String
  | .eq => "eq"
  | .ne => "ne"
  | .lt => "lt"
  | .gt => "gt"
  | .le => "le"
  | .ge => "ge"

/-- An instruction inside a block. -/
inductive Inst where
  | const (dst : ValueId) (value : Const)
  /-- Allocates the zero value of a type. -/
  | alloc (dst : ValueId) (ty : TyId)
  | load (dst : ValueId) (ty : TyId) (ptr : ValueId)
  | store (value ptr : ValueId)
  /-- Address of a field of the record behind a pointer. -/
  | fieldAddr (dst : ValueId) (ty : TyId) (ptr : ValueId) (index : Nat)
  /-- Address of an element, chosen at run time, of the array behind a pointer. -/
  | elemAddr (dst : ValueId) (elem : TyId) (ptr index : ValueId)
  | call (dst : Option ValueId) (func : FuncId) (args : List ValueId)
  | callIndirect (dst : Option ValueId) (sig : TyId) (callee : ValueId) (args : List ValueId)
  | bitcast (dst value : ValueId) (ty : TyId)
  | binary (dst : ValueId) (op : BinaryOp) (lhs rhs : ValueId)
  | compare (dst : ValueId) (pred : Predicate) (lhs rhs : ValueId)
  | not (dst value : ValueId)
  | fneg (dst value : ValueId)

/-- The value that an instruction defines. -/
def Inst.defined? : Inst → Option ValueId
  | .const dst _ | .alloc dst _ | .load dst _ _ | .fieldAddr dst _ _ _ | .elemAddr dst _ _ _
  | .bitcast dst _ _ | .binary dst _ _ _ | .compare dst _ _ _ | .not dst _ | .fneg dst _ =>
    some dst
  | .call dst _ _ | .callIndirect dst _ _ _ => dst
  | .store _ _ => none

/-- The values that an instruction uses. -/
def Inst.operands : Inst → List ValueId
  | .const _ _ | .alloc _ _ => []
  | .load _ _ ptr => [ptr]
  | .store value ptr => [value, ptr]
  | .fieldAddr _ _ ptr _ => [ptr]
  | .elemAddr _ _ ptr index => [ptr, index]
  | .call _ _ args => args
  | .callIndirect _ _ callee args => callee :: args
  | .bitcast _ value _ | .not _ value | .fneg _ value => [value]
  | .binary _ _ lhs rhs | .compare _ _ lhs rhs => [lhs, rhs]

/-- How a block is left. -/
inductive Exit where
  | ret (value : Option ValueId)
  | br (target : BlockId)
  | condBr (cond : ValueId) (thenBlock elseBlock : BlockId)
  /-- Goes to the block of the first equal case. -/
  | switch (value : ValueId) (default : BlockId) (cases : List (Int64 × BlockId))
  | unreachable

/-- The blocks that an exit may lead to. -/
def Exit.targets : Exit → List BlockId
  | .ret _ | .unreachable => []
  | .br target => [target]
  | .condBr _ thenBlock elseBlock => [thenBlock, elseBlock]
  | .switch _ default cases => default :: cases.map (·.2)

/-- The values that an exit uses. -/
def Exit.operands : Exit → List ValueId
  | .ret value => value.toList
  | .br _ | .unreachable => []
  | .condBr cond _ _ => [cond]
  | .switch value _ _ => [value]

end ShapeCompiler.Code
