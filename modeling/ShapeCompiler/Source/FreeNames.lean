import ShapeCompiler.Source.Program

/-!
What a body refers to outside itself.

- `Program.freeNames` lists the references of a body in order of first occurrence, and what the
  body declares itself. Functions and classes inside the body belong to it: what they refer to, the
  body refers to.
- `Program.forwardedParams` gives the parameters of a constructor that is not written out.

Names are bound per function: a name that some block of a function declares is local in all of it.
-/

namespace ShapeCompiler.Source

/-- A body: that of a function, or of the constructor of a class that declares none. -/
inductive Subject where
  | function (decl : DeclId)
  | implicitConstructor (cls : DeclId)
  deriving DecidableEq, Repr

def Subject.decl : Subject → DeclId
  | .function d => d
  | .implicitConstructor c => c

/-- A reference that may need something from around the body. -/
inductive Reference where
  | name (name : Name)
  /-- A name that is called, with the declaration it is known to reach. -/
  | callee (name : Name) (decl : DeclId)
  | receiver
  /-- A member of the receiver. -/
  | member (name : Name)
  /-- A member of the base class. -/
  | parentMember (name : Name)
  | parentConstructor
  | construct (cls : DeclId)
  deriving DecidableEq, Repr

structure FreeNames where
  /-- The names that the body binds. -/
  locals : List Name
  /-- Its parameters and the declarations of its blocks, without those of functions inside it. -/
  decls : List DeclId
  refs : List Reference
  deriving DecidableEq, Repr

/-- What is known of a place inside a body. -/
structure Around where
  /-- The names bound by the body and the functions inside it that are around the place. -/
  bound : List Name
  /-- The receiver there is the receiver of the body. -/
  ownReceiver : Bool
  deriving DecidableEq, Repr

/-- A place whose names are bound as well. -/
def Around.binding (a : Around) (names : List Name) : Around :=
  { a with bound := names ++ a.bound }

/-- A place that has a receiver of its own. -/
def Around.inMember (a : Around) : Around := { a with ownReceiver := false }

/-- What is walked: an expression, a statement, or a function or class inside the body. -/
inductive Node where
  | expr (id : ExprId)
  | stmt (id : StmtId)
  | function (decl : DeclId)
  | classDecl (decl : DeclId)
  deriving DecidableEq, Repr

/-- The references of a part, or why it cannot be walked. -/
abbrev Found := Except ProgramError (List Reference)

/-- The references of parts one after the other. -/
def Found.inOrder {α : Type} (walk : α → Found) (parts : List α) : Found := do
  return (← parts.mapM walk).flatten

namespace Program

/-! ## Declarations -/

/-- The names of declarations. -/
def namesOf (p : Program) (decls : List DeclId) : Except ProgramError (List Name) :=
  decls.mapM fun d => return (← p.decl d).name

/-- What statements declare, in blocks at most `depth` deep. -/
def declaredAt (p : Program) : Nat → List StmtId → List DeclId
  | 0, _ => []
  | depth + 1, stmts => stmts.flatMap fun s =>
    match (p.stmt s).kind with
    | .bind d _ | .function d | .classDecl d => [d]
    | .branch _ thenBranch elseBranch =>
      p.declaredAt depth thenBranch ++ p.declaredAt depth elseBranch
    | .loop _ body | .block body => p.declaredAt depth body
    | .expr _ | .ret _ => []

/-- What statements declare, in blocks of any depth. -/
def declared (p : Program) (stmts : List StmtId) : List DeclId :=
  p.declaredAt (p.stmts.size + 1) stmts

/-- What the statements of a body declare. -/
def declaredIn (p : Program) : Option Body → List DeclId
  | some (.block stmts) => p.declared stmts
  | _ => []

/-- The parameters of the nearest constructor that a chain of classes declares. -/
def nearestConstructorParams (p : Program) : List DeclId → Except ProgramError (List DeclId)
  | [] => .ok []
  | c :: rest => do
    match ← p.constructorOf c with
    | some ctor => return (← p.function ctor).params
    | none => p.nearestConstructorParams rest

/-- The parameters of a class's constructor that is not written out: it takes what the nearest
constructor up the chain takes. -/
def forwardedParams (p : Program) (cls : DeclId) : Except ProgramError (List DeclId) := do
  p.nearestConstructorParams (← p.classChain cls)

/-! ## References -/

/-- The default values of parameters, where there are any. -/
def defaultRefs (p : Program) (walk : Node → Found) (params : List DeclId) : Found :=
  Found.inOrder (fun d => do
    match (← p.param d).default with
    | some e => walk (.expr e)
    | none => return []) params

def bodyRefs (walk : Node → Found) : Option Body → Found
  | some (.block stmts) => Found.inOrder (fun s => walk (.stmt s)) stmts
  | some (.expr e) => walk (.expr e)
  | none => .ok []

/-- The start values of a class's own instance properties, which its constructor runs. -/
def initializerRefs (p : Program) (walk : Node → Found) (cls : DeclId) : Found := do
  Found.inOrder (fun m => do
    let d ← p.decl m
    match d.kind with
    | .property { init := some e, .. } => if d.flags.static then return [] else walk (.expr e)
    | _ => return []) (← p.classDecl cls).members

/-- A function inside the body. Only an arrow keeps the receiver. -/
def functionRefs (p : Program) (walk : Around → Node → Found) (a : Around) (d : DeclId) :
    Found := do
  let f ← p.function d
  let names ← p.namesOf (f.params ++ p.declaredIn f.body)
  let inner := (if f.kind = .arrow then a else a.inMember).binding names
  return (← p.defaultRefs (walk inner) f.params) ++ (← bodyRefs (walk inner) f.body)

/-- A class inside the body. -/
def classRefs (p : Program) (walk : Around → Node → Found) (a : Around) (cls : DeclId) :
    Found := do
  Found.inOrder (fun m => do
    let d ← p.decl m
    match d.kind with
    | .function _ => walk a (.function m)
    | .property { init := some e, .. } =>
      walk (if d.flags.static then a else a.inMember) (.expr e)
    | _ => return []) (← p.classDecl cls).members

/-- What is called. -/
def calleeRefs (p : Program) (walk : Node → Found) (a : Around) (callee : ExprId)
    (target : Option DeclId) : Found :=
  match (p.expr callee).kind, target with
  | .parent, _ => .ok (if a.ownReceiver then [.receiver, .parentConstructor] else [])
  | .ident n, some d => .ok (if n ∈ a.bound then [] else [.callee n d])
  | _, _ => walk (.expr callee)

/-- The object of which a property is used. -/
def objectRefs (p : Program) (walk : Node → Found) (a : Around) (object : ExprId) (n : Name) :
    Found :=
  match (p.expr object).kind, a.ownReceiver with
  | .receiver, true => .ok [.receiver, .member n]
  | .parent, true => .ok [.receiver, .parentMember n]
  | _, _ => walk (.expr object)

def exprRefs (p : Program) (walk : Node → Found) (a : Around) : ExprKind → Found
  | .number _ | .text _ | .bool _ | .null | .undefined | .parent => .ok []
  | .ident n => .ok (if n ∈ a.bound then [] else [.name n])
  | .receiver => .ok (if a.ownReceiver then [.receiver] else [])
  | .property object n => p.objectRefs walk a object n
  | .call callee args target => do
    let own ← p.calleeRefs walk a callee target
    return own ++ (← Found.inOrder (fun e => walk (.expr e)) args)
  | .construct cls args => do
    let name := (← p.decl cls).name
    let own := if name ∈ a.bound then [] else [Reference.construct cls]
    return own ++ (← Found.inOrder (fun e => walk (.expr e)) args)
  | .function d => walk (.function d)
  | .object fields => Found.inOrder (fun f => walk (.expr f.2)) fields
  | .assign target value => Found.inOrder (fun e => walk (.expr e)) [target, value]
  | .binary _ lhs rhs => Found.inOrder (fun e => walk (.expr e)) [lhs, rhs]
  | .unary _ operand => walk (.expr operand)
  | .convert e _ => walk (.expr e)

def stmtRefs (walk : Node → Found) : StmtKind → Found
  | .bind _ init => Found.inOrder (fun e => walk (.expr e)) init.toList
  | .expr e => walk (.expr e)
  | .ret value => Found.inOrder (fun e => walk (.expr e)) value.toList
  | .branch cond thenBranch elseBranch => do
    let test ← walk (.expr cond)
    return test ++ (← Found.inOrder (fun s => walk (.stmt s)) (thenBranch ++ elseBranch))
  | .loop cond body => do
    let test ← walk (.expr cond)
    return test ++ (← Found.inOrder (fun s => walk (.stmt s)) body)
  | .block body => Found.inOrder (fun s => walk (.stmt s)) body
  | .function d => walk (.function d)
  | .classDecl d => walk (.classDecl d)

/-- The references of a node whose parts nest at most `depth` deep. -/
def refsAt (p : Program) : Nat → Around → Node → Found
  | 0, _, _ => .ok []
  | depth + 1, a, .expr e => p.exprRefs (p.refsAt depth a) a (p.expr e).kind
  | depth + 1, a, .stmt s => stmtRefs (p.refsAt depth a) (p.stmt s).kind
  | depth + 1, a, .function d => p.functionRefs (p.refsAt depth) a d
  | depth + 1, a, .classDecl d => p.classRefs (p.refsAt depth) a d

/-- The references of a node. Nothing nests deeper than there are nodes. -/
def refs (p : Program) (a : Around) (node : Node) : Found :=
  p.refsAt (p.exprs.size + p.stmts.size + p.decls.size + 1) a node

/-! ## Bodies -/

/-- What a body is called: a function without a name is known by its number. -/
def label (p : Program) : Subject → String
  | .function d => if (p.declName d).isEmpty then s!"arrow.{d.raw}" else p.qualifiedName d
  | .implicitConstructor c => p.declName c ++ ".constructor"

/-- The references of a constructor that is not written out. -/
def implicitConstructorRefs (p : Program) (walk : Node → Found) (cls : DeclId) : Found := do
  let base := (← p.classDecl cls).base
  let own := if base.isSome then [Reference.receiver, .parentConstructor] else []
  return own ++ (← p.initializerRefs walk cls)

/-- The references of a function's own parts. A constructor runs the start values of its class
before its body. -/
def ownRefs (p : Program) (walk : Node → Found) (f : FunctionDecl) : Found := do
  let defaults ← p.defaultRefs walk f.params
  let initializers ← match f.kind, f.owner with
    | .constructor, some cls => p.initializerRefs walk cls
    | _, _ => pure []
  return defaults ++ initializers ++ (← bodyRefs walk f.body)

/-- What a body declares and what it refers to. -/
def freeNames (p : Program) : Subject → Except ProgramError FreeNames
  | .function d => do
    let f ← p.function d
    let decls := f.params ++ p.declaredIn f.body
    let locals ← p.namesOf decls
    let refs ← p.ownRefs (p.refs ⟨locals, true⟩) f
    return ⟨locals, decls, refs.eraseDups⟩
  | .implicitConstructor cls => do
    let decls ← p.forwardedParams cls
    let locals ← p.namesOf decls
    let refs ← p.implicitConstructorRefs (p.refs ⟨locals, true⟩) cls
    return ⟨locals, decls, refs.eraseDups⟩

end Program

end ShapeCompiler.Source
