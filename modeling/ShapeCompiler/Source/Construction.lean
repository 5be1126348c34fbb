import ShapeCompiler.Source.Program

/-!
Building programs from the leaves up.

Every declaration, expression and statement gets a place of its own, numbered in order of
construction.
-/

namespace ShapeCompiler.Source

/-- A program under construction. -/
structure Construction where
  program : Program := {}
  /-- The place last given out. -/
  offset : Nat := 0

/-- A step of the construction. -/
abbrev Building := StateM Construction

namespace Construction

def intern (s : String) : Building Name := do
  let c ← get
  let (n, names) := c.program.names.intern s
  set { c with program := { c.program with names } }
  return n

def nextSpan : Building Span := do
  let c ← get
  set { c with offset := c.offset + 1 }
  return ⟨c.offset + 1, c.offset + 2⟩

/-! ## Types -/

def addType (add : TypeStore → TypeId × TypeStore) : Building TypeId := do
  let c ← get
  let (t, types) := add c.program.types
  set { c with program := { c.program with types } }
  return t

def internType (t : TypeExpr) : Building TypeId := addType (·.intern t)

def instanceType (cls : DeclId) : Building TypeId := internType (.instanceOf cls)

def interfaceType (decl : DeclId) : Building TypeId := internType (.interface decl)

def unionType (members : List TypeId) : Building TypeId := addType (·.union members)

def intersectionType (members : List TypeId) : Building TypeId := addType (·.intersection members)

def optionalType (t : TypeId) : Building TypeId := addType (·.optional t)

def paramType (name : String) : Building TypeId := do internType (.param (← intern name))

def functionType (params : List TypeId) (ret : TypeId) (origin : Option DeclId) :
    Building TypeId :=
  internType (.function params ret origin)

def objectType (fields : List (String × TypeId)) : Building TypeId := do
  internType (.object (← fields.mapM fun (n, t) => return (← intern n, t)))

/-! ## Declarations -/

def pushDecl (name : String) (flags : Flags) (kind : DeclKind) : Building DeclId := do
  let name ← intern name
  let span ← nextSpan
  let c ← get
  let decls := c.program.decls.push ⟨name, span, flags, kind⟩
  set { c with program := { c.program with decls } }
  return ⟨c.program.decls.size⟩

def modifyDecl (id : DeclId) (f : Decl → Decl) : Building Unit :=
  modify fun c =>
    { c with program := { c.program with decls := c.program.decls.modify id.raw f } }

def modifyClass (id : DeclId) (f : ClassDecl → ClassDecl) : Building Unit :=
  modifyDecl id fun d =>
    match d.kind with
    | .classDecl c => { d with kind := .classDecl (f c) }
    | _ => d

def addFlags (id : DeclId) (flags : Flags) : Building Unit :=
  modifyDecl id fun d => { d with flags := d.flags.union flags }

/-- An interface with its properties. -/
def interface (name : String) (fields : List (String × TypeId)) : Building (TypeId × DeclId) := do
  let id ← pushDecl name .none (.interface [])
  let properties ← fields.mapM fun (n, ty) =>
    pushDecl n .none (.property ⟨ty, none, id⟩)
  modifyDecl id fun d => { d with kind := .interface properties }
  return (← interfaceType id, id)

def param (name : String) (ty : TypeId) : Building DeclId :=
  pushDecl name .none (.param ⟨ty, none⟩)

/-- A parameter that may be left out; its type has `undefined` beside it. -/
def optionalParam (name : String) (ty : TypeId) : Building DeclId := do
  let ty ← unionType [ty, .undefined]
  pushDecl name { optional := true } (.param ⟨ty, none⟩)

def paramWithDefault (name : String) (ty : TypeId) (value : ExprId) : Building DeclId :=
  pushDecl name { optional := true } (.param ⟨ty, some value⟩)

/-- What a function declaration is made from. -/
structure FunctionParts where
  name : String := ""
  kind : FunctionKind := .declaration
  typeParams : List String := []
  params : List DeclId := []
  ret : Option TypeId := none
  body : Option Body := none
  owner : Option DeclId := none

def functionDecl (f : FunctionParts) : Building DeclId := do
  let typeParams ← f.typeParams.mapM intern
  pushDecl f.name .none (.function ⟨f.kind, f.params, f.ret, f.body, typeParams, f.owner⟩)

def function (name : String) (typeParams : List String) (params : List DeclId)
    (ret : Option TypeId) (body : List StmtId) : Building DeclId :=
  functionDecl { name, typeParams, params, ret, body := some (.block body) }

def ambientFunction (name : String) (params : List DeclId) (ret : TypeId) : Building DeclId := do
  let id ← functionDecl { name, params, ret := some ret }
  addFlags id { ambient := true }
  return id

/-! ## Classes -/

/-- A class without members. -/
def classDecl (name : String) (base : Option DeclId) (flags : Flags) : Building DeclId :=
  pushDecl name flags (.classDecl ⟨base, [], none⟩)

def setTableSize (cls : DeclId) (size : Nat) : Building Unit :=
  modifyClass cls fun c => { c with tableSize := some size }

def addMember (cls member : DeclId) : Building Unit :=
  modifyClass cls fun c => { c with members := c.members ++ [member] }

def property (cls : DeclId) (name : String) (ty : TypeId) (init : Option ExprId) :
    Building DeclId := do
  let id ← pushDecl name .none (.property ⟨ty, init, cls⟩)
  addMember cls id
  return id

def staticProperty (cls : DeclId) (name : String) (ty : TypeId) (init : Option ExprId) :
    Building DeclId := do
  let id ← property cls name ty init
  addFlags id { static := true }
  return id

/-- A function as a member of a class. -/
def memberFunction (cls : DeclId) (f : FunctionParts) (flags : Flags) : Building DeclId := do
  let id ← functionDecl { f with owner := some cls }
  addFlags id flags
  addMember cls id
  return id

def constructor (cls : DeclId) (params : List DeclId) (body : List StmtId) : Building DeclId :=
  memberFunction cls
    { name := "constructor", kind := .constructor, params, body := some (.block body) } .none

def ambientConstructor (cls : DeclId) (params : List DeclId) : Building DeclId :=
  memberFunction cls { name := "constructor", kind := .constructor, params } { ambient := true }

def method (cls : DeclId) (name : String) (params : List DeclId) (ret : Option TypeId)
    (body : List StmtId) (flags : Flags) : Building DeclId :=
  memberFunction cls { name, kind := .method, params, ret, body := some (.block body) } flags

def ambientMethod (cls : DeclId) (name : String) (params : List DeclId) (ret : TypeId)
    (flags : Flags) : Building DeclId :=
  memberFunction cls { name, kind := .method, params, ret := some ret }
    (flags.union { ambient := true })

def getter (cls : DeclId) (name : String) (ret : TypeId) (body : List StmtId) : Building DeclId :=
  memberFunction cls { name, kind := .getter, ret := some ret, body := some (.block body) } .none

def setter (cls : DeclId) (name : String) (param : DeclId) (body : List StmtId) :
    Building DeclId :=
  memberFunction cls
    { name, kind := .setter, params := [param], ret := some .void, body := some (.block body) }
    .none

/-! ## Expressions -/

def expr (kind : ExprKind) : Building ExprId := do
  let span ← nextSpan
  let c ← get
  set { c with program := { c.program with exprs := c.program.exprs.push ⟨kind, span⟩ } }
  return ⟨c.program.exprs.size⟩

def text (s : String) : Building ExprId := do expr (.text (← intern s))

def ident (s : String) : Building ExprId := do expr (.ident (← intern s))

def prop (object : ExprId) (name : String) : Building ExprId := do
  expr (.property object (← intern name))

/-- A property of the object that a member is called on. -/
def receiverProp (name : String) : Building ExprId := do prop (← expr .receiver) name

def methodCall (object : ExprId) (name : String) (args : List ExprId) : Building ExprId := do
  expr (.call (← prop object name) args none)

def object (fields : List (String × ExprId)) : Building ExprId := do
  expr (.object (← fields.mapM fun (n, e) => return (← intern n, e)))

/-- An arrow function and its declaration. -/
def arrow (typeParams : List String) (params : List DeclId) (ret : Option TypeId) (body : Body) :
    Building (ExprId × DeclId) := do
  let decl ← functionDecl { kind := .arrow, typeParams, params, ret, body := some body }
  return (← expr (.function decl), decl)

/-! ## Statements -/

def stmt (kind : StmtKind) : Building StmtId := do
  let span ← nextSpan
  let c ← get
  set { c with program := { c.program with stmts := c.program.stmts.push ⟨kind, span⟩ } }
  return ⟨c.program.stmts.size⟩

/-- A variable with its binding statement. -/
def bind (name : String) (ty : Option TypeId) (init : Option ExprId) :
    Building (StmtId × DeclId) := do
  let decl ← pushDecl name .none (.binding ty)
  return (← stmt (.bind decl init), decl)

/-- A variable that is not assigned again. -/
def bindConst (name : String) (ty : Option TypeId) (init : ExprId) :
    Building (StmtId × DeclId) := do
  let (s, decl) ← bind name ty (some init)
  addFlags decl { const := true }
  return (s, decl)

/-- Appends a statement at the top. -/
def pushEntry (s : StmtId) : Building Unit :=
  modify fun c => { c with program := { c.program with entry := c.program.entry ++ [s] } }

end Construction

end ShapeCompiler.Source
