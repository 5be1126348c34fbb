import ShapeCompiler.Source.Syntax

/-!
Programs and questions about their structure.

- `Program.classChain` lists a class and its bases; it ends on every hierarchy, also one that
  goes round.
- `Program.findFunction` finds the nearest member of a name.
- `Program.typeName` writes a type.
-/

namespace ShapeCompiler.Source

/-- The kinds of declarations that a question may ask for. -/
inductive DeclSort where
  | function
  | classDecl
  | interface
  | param
  | property
  deriving DecidableEq, Repr

def DeclSort.name : DeclSort → String
  | .function => "function"
  | .classDecl => "class"
  | .interface => "interface"
  | .param => "parameter"
  | .property => "property"

/-- Why a question about a declaration has no answer. -/
inductive ProgramError where
  | dangling (decl : DeclId)
  | wrongKind (decl : DeclId) (expected : DeclSort)
  deriving DecidableEq, Repr

/-- A short code for the kind of error. -/
def ProgramError.code : ProgramError → String
  | .dangling _ => "DanglingDecl"
  | .wrongKind _ _ => "WrongDeclKind"

def ProgramError.message : ProgramError → String
  | .dangling d => s!"declaration DeclId({d.raw}) does not exist"
  | .wrongKind d expected => s!"declaration DeclId({d.raw}) is not a {expected.name}"

structure Program where
  names : Names := .fresh
  types : TypeStore := .fresh
  decls : Array Decl := #[]
  exprs : Array Expr := #[]
  stmts : Array Stmt := #[]
  /-- Statements at the top, in order. -/
  entry : List StmtId := []

namespace Program

/-- The expression of an id that the program handed out. -/
def expr (p : Program) (id : ExprId) : Expr := p.exprs.getD id.raw default

/-- The statement of an id that the program handed out. -/
def stmt (p : Program) (id : StmtId) : Stmt := p.stmts.getD id.raw default

def decl (p : Program) (id : DeclId) : Except ProgramError Decl :=
  match p.decls[id.raw]? with
  | some d => .ok d
  | none => .error (.dangling id)

def text (p : Program) (n : Name) : String := p.names.lookup n

def declName (p : Program) (id : DeclId) : String :=
  match p.decls[id.raw]? with
  | some d => p.text d.name
  | none => "<unknown>"

def function (p : Program) (id : DeclId) : Except ProgramError FunctionDecl := do
  match (← p.decl id).kind with
  | .function f => return f
  | _ => throw (.wrongKind id .function)

def classDecl (p : Program) (id : DeclId) : Except ProgramError ClassDecl := do
  match (← p.decl id).kind with
  | .classDecl c => return c
  | _ => throw (.wrongKind id .classDecl)

/-- The properties of an interface. -/
def interface (p : Program) (id : DeclId) : Except ProgramError (List DeclId) := do
  match (← p.decl id).kind with
  | .interface properties => return properties
  | _ => throw (.wrongKind id .interface)

def param (p : Program) (id : DeclId) : Except ProgramError ParamDecl := do
  match (← p.decl id).kind with
  | .param q => return q
  | _ => throw (.wrongKind id .param)

def property (p : Program) (id : DeclId) : Except ProgramError PropertyDecl := do
  match (← p.decl id).kind with
  | .property q => return q
  | _ => throw (.wrongKind id .property)

/-! ## Classes -/

/-- Goes on from a base, at most `steps` classes further, and stops where a class repeats. -/
def chainFrom (p : Program) : Nat → List DeclId → Option DeclId →
    Except ProgramError (List DeclId)
  | _, chain, none => .ok chain
  | 0, chain, some _ => .ok chain
  | steps + 1, chain, some base =>
    if base ∈ chain then .ok chain
    else do
      let c ← p.classDecl base
      p.chainFrom steps (chain ++ [base]) c.base

/-- A class followed by its bases. No class repeats, so the chain is no longer than the list of
declarations. -/
def classChain (p : Program) (cls : DeclId) : Except ProgramError (List DeclId) := do
  let c ← p.classDecl cls
  p.chainFrom p.decls.size [cls] c.base

/-- The members of a class with their declarations. -/
def members (p : Program) (cls : DeclId) : Except ProgramError (List (DeclId × Decl)) := do
  (← p.classDecl cls).members.mapM fun m => return (m, ← p.decl m)

/-- A property of instances. -/
def isInstanceProperty (d : Decl) : Bool :=
  match d.kind with
  | .property _ => !d.flags.static
  | _ => false

/-- The properties of instances along the whole chain, those of the base first. -/
def instanceProperties (p : Program) (cls : DeclId) : Except ProgramError (List DeclId) := do
  let groups ← (← p.classChain cls).reverse.mapM p.members
  return (groups.flatten.filter fun m => isInstanceProperty m.2).map (·.1)

/-- A function of one of the given kinds. -/
def isFunctionOf (kinds : List FunctionKind) (d : Decl) : Bool :=
  match d.kind with
  | .function f => f.kind ∈ kinds
  | _ => false

/-- The class's own functions of a kind. -/
def ownFunctions (p : Program) (cls : DeclId) (kind : FunctionKind) :
    Except ProgramError (List DeclId) := do
  return ((← p.members cls).filter fun m => isFunctionOf [kind] m.2).map (·.1)

def constructorOf (p : Program) (cls : DeclId) : Except ProgramError (Option DeclId) := do
  return (← p.ownFunctions cls .constructor).head?

/-- The first member that a test accepts; members after it are not looked at. -/
def findMember (p : Program) (test : Decl → Bool) :
    List DeclId → Except ProgramError (Option DeclId)
  | [] => .ok none
  | m :: rest => do
    if test (← p.decl m) then return some m else p.findMember test rest

/-- The first function of a name and one of some kinds, along a list of classes. -/
def findFunction (p : Program) (name : Name) (kinds : List FunctionKind) :
    List DeclId → Except ProgramError (Option DeclId)
  | [] => .ok none
  | c :: rest => do
    let members := (← p.classDecl c).members
    match ← p.findMember (fun d => d.name = name && isFunctionOf kinds d) members with
    | some m => return some m
    | none => p.findFunction name kinds rest

/-- The class's own static property of a name. -/
def staticProperty (p : Program) (cls : DeclId) (name : Name) :
    Except ProgramError (Option DeclId) := do
  let isProperty (d : Decl) : Bool :=
    match d.kind with
    | .property _ => true
    | _ => false
  p.findMember (fun d => d.name = name && d.flags.static && isProperty d)
    (← p.classDecl cls).members

/-- The topmost class of a chain that is laid out with a method table. -/
def tableRoot (p : Program) (cls : DeclId) : Except ProgramError (Option DeclId) := do
  let withTable ← (← p.classChain cls).filterM fun c => return (← p.decl c).flags.table
  return withTable.getLast?

/-- The class's own methods that are virtual, in order. -/
def virtualMethods (p : Program) (cls : DeclId) : Except ProgramError (List DeclId) := do
  (← p.ownFunctions cls .method).filterM fun m => do
    let flags := (← p.decl m).flags
    return flags.virtual && !flags.static

/-- The class's own virtual methods by name. -/
def namedVirtuals (p : Program) (cls : DeclId) : Except ProgramError (List (Name × DeclId)) := do
  (← p.virtualMethods cls).mapM fun m => return ((← p.decl m).name, m)

/-- Names and types of an interface's properties. -/
def interfaceFields (p : Program) (id : DeclId) : Except ProgramError (List (Name × TypeId)) := do
  (← p.interface id).mapM fun q => return ((← p.decl q).name, (← p.property q).ty)

/-! ## Names of types -/

/-- Writes a type whose parts nest at most `depth` deep. -/
def typeNameAt (p : Program) : Nat → TypeId → String
  | 0, _ => ""
  | depth + 1, id =>
    match p.types.get id with
    | .number => "number"
    | .boolean => "boolean"
    | .text => "string"
    | .void => "void"
    | .null => "null"
    | .undefined => "undefined"
    | .any => "any"
    | .instanceOf d | .interface d => p.declName d
    | .param n => p.text n
    | .object fields =>
      let parts := fields.map fun (n, t) => p.text n ++ ":" ++ p.typeNameAt depth t
      "\x7b" ++ ",".intercalate parts ++ "\x7d"
    | .union members => "|".intercalate (members.map (p.typeNameAt depth))
    | .intersection members => "&".intercalate (members.map (p.typeNameAt depth))
    | .function params ret _ =>
      "(" ++ ",".intercalate (params.map (p.typeNameAt depth)) ++ ")=>" ++ p.typeNameAt depth ret

/-- Writes a type. A type nests no deeper than the store is long. -/
def typeName (p : Program) (id : TypeId) : String := p.typeNameAt (p.types.size + 1) id

/-- A member's name after that of its class, any other name as it is. -/
def qualifiedName (p : Program) (id : DeclId) : String :=
  let owner := match p.decl id with
    | .ok { kind := .function f, .. } => f.owner
    | .ok { kind := .property q, .. } => some q.owner
    | _ => none
  match owner with
  | some cls => p.declName cls ++ "." ++ p.declName id
  | none => p.declName id

end Program

end ShapeCompiler.Source
