import ShapeCompiler.Compile.Expr

/-!
Statements.

Functions and classes of a block are bound before its first statement runs. What follows a `return`
in a block is not compiled.

- `Emit.block` compiles the statements of a block.
- `Emit.returnValue` compiles a `return`.
-/

namespace ShapeCompiler

open Source Code

namespace Emit

/-! ## Variables -/

/-- What a new variable holds: what is declared, else what it starts with. A declared callback of
which nothing is known takes what is known of the function. -/
def variableInfo (declared : Option Info) (start : Info) : Info :=
  match declared with
  | some (.closure known) =>
    if known.sig.isNone && start.isCallable then start else .closure known
  | some info => info
  | none => if start.isNullish then .any else start

/-- Makes a variable: a global at the top of the program, else a cell. -/
def newVariable (decl : DeclId) (n : Name) (info : Info) (value : ValueId) : Emit Unit := do
  let text ← Compile.text n
  if ← atTop then
    let g ← Compile.code (·.addGlobal ("global." ++ text) .ptr false .zero)
    let addr ← Draft.globalAddr g
    Draft.store value addr
    bindName n (.global g info)
  else
    let cell ← newCell value text
    modify fun f => { f with scope := f.scope.bindDeclared n decl cell info }

def bind (l : Lowering) (decl : DeclId) (init : Option ExprId) : Emit Unit := do
  let d ← Compile.asks (·.decl decl)
  match d.kind with
  | .binding ty =>
    let declared ← ty.mapM infoOf
    let start ← init.elim (nullValue .null) l.expr
    let info := variableInfo declared start.info
    newVariable decl d.name info (← l.coerced start info)
    refreshSites
  | _ => Compile.invalid (.notVariable (← Compile.declName decl))

/-! ## Control flow -/

/-- The form in which the first value is returned where none is declared. -/
def firstReturned (info : Info) : Info := if info = .null then .any else info

/-- Returns a value in the form the body returns; the first one decides if none is declared. -/
def returnValue (l : Lowering) (v : Option Operand) : Emit Unit := do
  match (← get).returning with
  | .entry => Draft.ret none
  | .discard =>
    let null ← Draft.null
    Draft.ret (some null)
  | .value declared inferred =>
    let v ← v.elim (nullValue .void) pure
    let target := (declared <|> inferred).getD (firstReturned v.info)
    if declared.isNone then
      modify fun f => { f with returning := .value none (some target) }
    let p ← l.coerced v target
    Draft.ret (some p)

/-- Statements in a block of their own. -/
def nested (l : Lowering) (stmts : List StmtId) : Emit Unit := do
  let scope := (← get).scope
  modify fun f => { f with depth := f.depth + 1 }
  l.block stmts
  modify fun f => { f with depth := f.depth - 1, scope }

/-- Goes on at another block, unless the statements before have left. -/
def brUnlessClosed (target : BlockId) : Emit Unit := do
  unless ← isClosed do Draft.br target

def branch (l : Lowering) (cond : ExprId) (thenStmts elseStmts : List StmtId) : Emit Unit := do
  let c ← truthy (← l.expr cond)
  let thenBlock ← Draft.block "if.then"
  let elseBlock ← Draft.block "if.else"
  let done ← Draft.block "if.end"
  Draft.condBr c thenBlock elseBlock
  Draft.moveTo thenBlock
  nested l thenStmts
  brUnlessClosed done
  Draft.moveTo elseBlock
  nested l elseStmts
  brUnlessClosed done
  Draft.moveTo done

def loop (l : Lowering) (cond : ExprId) (body : List StmtId) : Emit Unit := do
  let condBlock ← Draft.block "while.cond"
  let bodyBlock ← Draft.block "while.body"
  let done ← Draft.block "while.end"
  Draft.br condBlock
  Draft.moveTo condBlock
  let c ← truthy (← l.expr cond)
  Draft.condBr c bodyBlock done
  Draft.moveTo bodyBlock
  nested l body
  brUnlessClosed condBlock
  Draft.moveTo done

/-! ## All statements -/

def stmtKind (l : Lowering) : StmtKind → Emit Unit
  | .bind decl init => bind l decl init
  | .expr e => discard (l.expr e)
  | .ret v => do returnValue l (← v.mapM l.expr)
  | .branch cond thenStmts elseStmts => branch l cond thenStmts elseStmts
  | .loop cond body => loop l cond body
  | .block body => nested l body
  | .function _ => return
  | .classDecl d => initializeStatics l d

def stmt (l : Lowering) (id : StmtId) : Emit Unit := do
  let s := (← Compile.program).stmt id
  locate s.span (stmtKind l s.kind)

/-- The statements of a block up to one that leaves it. -/
def stmts (l : Lowering) : List StmtId → Emit Unit
  | [] => return
  | s :: rest => do
    unless ← isClosed do
      stmt l s
      stmts l rest

/-- Binds the functions and classes of a block. -/
def hoist (block : List StmtId) : Emit (List DeclId) :=
  block.filterMapM fun s => do
    match ((← Compile.program).stmt s).kind with
    | .function d =>
      bindName (← Compile.asks (·.decl d)).name (.function d)
      return some d
    | .classDecl d =>
      bindName (← Compile.asks (·.decl d)).name (.classDecl d)
      return some d
    | _ => return none

/-- The statements of a block. -/
def block (l : Lowering) (body : List StmtId) : Emit Unit := do
  openBlock (← hoist body)
  stmts l body
  closeBlock

end Emit

end ShapeCompiler
