import ShapeCompiler.Source.Types

/-!
Expressions, statements and declarations of a source program.
-/

namespace ShapeCompiler.Source

/-- Index of an expression. -/
structure ExprId where
  raw : Nat
  deriving DecidableEq, Repr

/-- Index of a statement. -/
structure StmtId where
  raw : Nat
  deriving DecidableEq, Repr

inductive BinaryOp where
  | add
  | sub
  | mul
  | div
  | lt
  | gt
  | le
  | ge
  | strictEq
  | strictNe
  /-- Evaluates its right side only if the left one is true. -/
  | and
  /-- Evaluates its right side only if the left one is false. -/
  | or
  deriving DecidableEq, Repr

namespace BinaryOp

def all : List BinaryOp := [.add, .sub, .mul, .div, .lt, .gt, .le, .ge, .strictEq,
    .strictNe, .and, .or]

/-- The operator in a word. -/
def word : BinaryOp → String
  | .add => "Add"
  | .sub => "Sub"
  | .mul => "Mul"
  | .div => "Div"
  | .lt => "Lt"
  | .gt => "Gt"
  | .le => "LtEq"
  | .ge => "GtEq"
  | .strictEq => "StrictEq"
  | .strictNe => "StrictNotEq"
  | .and => "And"
  | .or => "Or"

def isComparison : BinaryOp → Bool
  | .lt | .gt | .le | .ge | .strictEq | .strictNe => true
  | _ => false

def symbol : BinaryOp → String
  | .add => "+"
  | .sub => "-"
  | .mul => "*"
  | .div => "/"
  | .lt => "<"
  | .gt => ">"
  | .le => "<="
  | .ge => ">="
  | .strictEq => "==="
  | .strictNe => "!=="
  | .and => "&&"
  | .or => "||"

end BinaryOp

inductive UnaryOp where
  | neg
  | not
  | preInc
  | preDec
  | postInc
  | postDec
  deriving DecidableEq, Repr

namespace UnaryOp

def all : List UnaryOp := [.neg, .not, .preInc, .preDec, .postInc, .postDec]

/-- The operator in a word. -/
def word : UnaryOp → String
  | .neg => "Neg"
  | .not => "Not"
  | .preInc => "PreInc"
  | .preDec => "PreDec"
  | .postInc => "PostInc"
  | .postDec => "PostDec"

/-- The operator changes its operand. -/
def isUpdate : UnaryOp → Bool
  | .neg | .not => false
  | _ => true

end UnaryOp

inductive ExprKind where
  | number (value : Float)
  | text (value : Name)
  | bool (value : Bool)
  | null
  | undefined
  | ident (name : Name)
  /-- The object that a member is called on. -/
  | receiver
  /-- The base class, as a callee or before a property. -/
  | parent
  | property (object : ExprId) (name : Name)
  /-- A call, with the declaration it reaches, if that is known. -/
  | call (callee : ExprId) (args : List ExprId) (target : Option DeclId)
  | construct (cls : DeclId) (args : List ExprId)
  /-- A function literal. -/
  | function (decl : DeclId)
  | object (fields : List (Name × ExprId))
  | assign (target value : ExprId)
  | binary (op : BinaryOp) (lhs rhs : ExprId)
  | unary (op : UnaryOp) (operand : ExprId)
  /-- The value under another type. -/
  | convert (expr : ExprId) (ty : TypeId)

/-- The kind of expression in a word. -/
def ExprKind.word : ExprKind → String
  | .number _ => "Number"
  | .text _ => "String"
  | .bool _ => "Bool"
  | .null => "Null"
  | .undefined => "Undefined"
  | .ident _ => "Ident"
  | .receiver => "This"
  | .parent => "Super"
  | .property _ _ => "Property"
  | .call _ _ _ => "Call"
  | .construct _ _ => "New"
  | .function _ => "Function"
  | .object _ => "Object"
  | .assign _ _ => "Assign"
  | .binary _ _ _ => "Binary"
  | .unary _ _ => "Unary"
  | .convert _ _ => "As"

structure Expr where
  kind : ExprKind
  span : Span

instance : Inhabited Expr := ⟨⟨.undefined, .dummy⟩⟩

inductive StmtKind where
  /-- Binds a variable. -/
  | bind (decl : DeclId) (init : Option ExprId)
  | expr (expr : ExprId)
  | ret (value : Option ExprId)
  | branch (cond : ExprId) (thenBranch elseBranch : List StmtId)
  | loop (cond : ExprId) (body : List StmtId)
  | block (stmts : List StmtId)
  | function (decl : DeclId)
  | classDecl (decl : DeclId)

/-- The kind of statement in a word. -/
def StmtKind.word : StmtKind → String
  | .bind _ _ => "Let"
  | .expr _ => "Expr"
  | .ret _ => "Return"
  | .branch _ _ _ => "If"
  | .loop _ _ => "While"
  | .block _ => "Block"
  | .function _ => "Function"
  | .classDecl _ => "Class"

structure Stmt where
  kind : StmtKind
  span : Span

instance : Inhabited Stmt := ⟨⟨.block [], .dummy⟩⟩

/-- Modifiers of a declaration. -/
structure Flags where
  static : Bool := false
  /-- The method has a slot in the table of its class. -/
  virtual : Bool := false
  override : Bool := false
  /-- Instances of the class point at a table of methods. -/
  table : Bool := false
  /-- The declaration is supplied from outside. -/
  ambient : Bool := false
  optional : Bool := false
  const : Bool := false
  deriving DecidableEq, Repr

namespace Flags

def none : Flags := {}

/-- The modifiers of either. -/
def union (a b : Flags) : Flags where
  static := a.static || b.static
  virtual := a.virtual || b.virtual
  override := a.override || b.override
  table := a.table || b.table
  ambient := a.ambient || b.ambient
  optional := a.optional || b.optional
  const := a.const || b.const

/-- Each modifier with its word, in a fixed order. -/
def words : List (String × Flags) :=
  [("STATIC", { static := true }), ("VIRTUAL", { virtual := true }),
    ("OVERRIDE", { override := true }), ("VTABLE", { table := true }),
    ("AMBIENT", { ambient := true }), ("OPTIONAL", { optional := true }),
    ("CONST", { const := true })]

/-- The modifiers in the same order. -/
def toList (f : Flags) : List Bool :=
  [f.static, f.virtual, f.override, f.table, f.ambient, f.optional, f.const]

/-- The words of the modifiers that are set. -/
def names (f : Flags) : List String :=
  ((words.zip f.toList).filter (·.2)).map (·.1.1)

/-- The modifiers as a number, the first one as its lowest bit. -/
def bits (f : Flags) : Nat := f.toList.foldr (fun on rest => 2 * rest + on.toNat) 0

end Flags

inductive FunctionKind where
  | declaration
  | method
  | constructor
  | arrow
  | expression
  | getter
  | setter
  deriving DecidableEq, Repr

namespace FunctionKind

def all : List FunctionKind :=
  [.declaration, .method, .constructor, .arrow, .expression, .getter, .setter]

/-- The kind of function in a word. -/
def word : FunctionKind → String
  | .declaration => "Declaration"
  | .method => "Method"
  | .constructor => "Constructor"
  | .arrow => "Arrow"
  | .expression => "Expression"
  | .getter => "Getter"
  | .setter => "Setter"

/-- Members of classes, which are called on an object. -/
def isMember : FunctionKind → Bool
  | .method | .constructor | .getter | .setter => true
  | _ => false

/-- Functions that stand in an expression. -/
def isLiteral : FunctionKind → Bool
  | .arrow | .expression => true
  | _ => false

end FunctionKind

inductive Body where
  | block (stmts : List StmtId)
  | expr (expr : ExprId)

structure FunctionDecl where
  kind : FunctionKind
  params : List DeclId
  /-- The declared result type; without one it is taken from the body. -/
  ret : Option TypeId
  /-- Absent if the function is supplied from outside. -/
  body : Option Body
  typeParams : List Name
  /-- The class of a member. -/
  owner : Option DeclId

def FunctionDecl.isGeneric (f : FunctionDecl) : Bool := !f.typeParams.isEmpty

structure ParamDecl where
  ty : TypeId
  default : Option ExprId

structure PropertyDecl where
  ty : TypeId
  init : Option ExprId
  owner : DeclId

structure ClassDecl where
  base : Option DeclId
  /-- Properties and functions in source order. -/
  members : List DeclId
  /-- Length of the method table, if it is supplied from outside. -/
  tableSize : Option Nat

inductive DeclKind where
  | function (f : FunctionDecl)
  | classDecl (c : ClassDecl)
  | interface (properties : List DeclId)
  | binding (ty : Option TypeId)
  | param (p : ParamDecl)
  | property (p : PropertyDecl)

structure Decl where
  name : Name
  span : Span
  flags : Flags
  kind : DeclKind

end ShapeCompiler.Source
