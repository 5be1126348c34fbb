import ShapeCompiler.Compile.Statement

/-!
Bodies of functions.

A body takes its environment and gives a pointer. It is recorded before it is compiled, so that a
call of itself finds it.

- `Compile.function` compiles a body, or finds it compiled.
- `Compile.entry` compiles the statements at the top.
-/

namespace ShapeCompiler

open Source Code

namespace Emit

/-! ## The beginning of a body -/

/-- What a captured variable holds, as far as the site of the declaration tells. -/
def capturedInfo (site : Site) (slot : EnvSlot) (n : Name) : Info :=
  match slot.var.elim (site.scope.lookup n) site.scope.variableOf with
  | some (.cell _ info) => info
  | _ => slot.info

/-- A captured variable is hidden where the site, or a parameter, means another by its name. -/
def isVisible (e : Environment) (site : Site) (slot : EnvSlot) (n : Name) : Bool :=
  let isParam := e.slots.any fun s => s.origin = .param && s.name = slot.name
  !isParam && (slot.var.isNone || site.scope.declarationOf n = slot.var)

/-- Binds the cell of a slot. -/
def bindCell (n : Name) (var : Option DeclId) (visible : Bool) (cell : ValueId) (info : Info) :
    Emit Unit :=
  modify fun f =>
    match var, visible with
    | some d, true => { f with scope := f.scope.bindDeclared n d cell info }
    | some d, false => { f with scope := f.scope.bindHidden d cell info }
    | none, true => { f with scope := f.scope.bind n (.cell cell info) }
    | none, false => f

/-- Binds one slot of the environment: a cell to its name, or the receiver. -/
def bindSlot (e : Environment) (params : List Info) (site : Site) (slot : EnvSlot) (i : Nat) :
    Emit Unit := do
  let ptr := Draft.param 0
  match slot.name with
  | .receiver =>
    let this ← loadField e.record ptr i "this"
    let info := (← get).receiverClass.elim slot.info .instanceOf
    modify fun f => { f with receiver := some (.boxed this info) }
  | .named n =>
    let cell ← loadField e.record ptr i (← Compile.text n)
    match slot.origin with
    | .param => bindCell n slot.var true cell (params[i]?.getD slot.info)
    | .capture | .outer =>
      bindCell n slot.var (isVisible e site slot n) cell (capturedInfo site slot n)
    | .receiver => bindCell n slot.var true cell slot.info

/-- Binds all slots of the environment. -/
def prologue (env : EnvId) (params : List Info) (site : Site) : Emit Unit := do
  let e ← Compile.env env
  modify fun f => { f with env := some ⟨env, Draft.param 0⟩ }
  e.slots.zipIdx.forM fun (slot, i) => bindSlot e params site slot i

/-- Computes the default of a parameter that was left out. -/
def runDefault (l : Lowering) (param : DeclId) : Emit Unit := do
  match (← Compile.asks (·.param param)).default with
  | none => return
  | some start =>
    let n := (← Compile.asks (·.decl param)).name
    match (← get).scope.lookup n with
    | some (.cell cell info) =>
      let current ← Draft.load .ptr cell (← Compile.text n)
      let absent ← isAbsent (.boxed current info)
      let fill ← Draft.block "default"
      let done ← Draft.block "param.ok"
      Draft.condBr absent fill done
      Draft.moveTo fill
      let value ← l.coerced (← l.expr start) info
      Draft.store value cell
      Draft.br done
      Draft.moveTo done
    | _ => return

/-! ## The body itself -/

/-- A constructor of a class without a base starts with the start values of its properties. -/
def startConstructor (l : Lowering) (f : FunctionDecl) : Emit Unit := do
  match f.kind, f.owner with
  | .constructor, some cls =>
    if (← Compile.asks (·.classDecl cls)).base.isNone then runInitializers l cls
  | _, _ => return

def functionBody (l : Lowering) (d : DeclId) : Emit Unit := do
  let f ← Compile.asks (·.function d)
  f.params.forM (runDefault l)
  startConstructor l f
  match f.body with
  | some (.block stmts) => l.block stmts
  | some (.expr e) => do returnValue l (some (← l.expr e))
  | none => Compile.invalid (.noBody (← Compile.declName d))

/-- A body from its beginning to its last return. -/
def wholeBody (l : Lowering) (spec : Specialization) (env : EnvId) (site : Site) : Emit Unit := do
  prologue env spec.key.params site
  match spec.key.subject with
  | .function d => functionBody l d
  | .implicitConstructor cls => implicitConstructor l cls
  unless ← isClosed do returnValue l none

end Emit

namespace Compile

/-- What a body returns. -/
def returning (subject : Subject) (b : Bindings) : Compile Returning := do
  match subject with
  | .implicitConstructor _ => return .discard
  | .function d =>
    let f ← asks (·.function d)
    match f.kind with
    | .constructor | .setter => return .discard
    | _ => return .value (← f.ret.mapM (infoOf b)) none

/-- The class that declares a member. -/
def ownerOf : Subject → Compile (Option DeclId)
  | .function d => return (← asks (·.function d)).owner
  | .implicitConstructor cls => return some cls

/-- The class to which `super` refers: that of a member, else that of the body around. -/
def memberOwnerOf (subject : Subject) (site : Site) : Compile (Option DeclId) := do
  match subject with
  | .function d =>
    let f ← asks (·.function d)
    return if f.kind.isMember then f.owner else site.receiverClass
  | .implicitConstructor cls => return some cls

/-- Compiles a body and tells what it returns. -/
def body (l : Lowering) (spec : Specialization) (func : FuncId) (env : EnvId)
    (returning : Returning) : Compile (Code.Body × Returning) := do
  let site ← siteOf spec.key.subject.decl
  let frame : Frame := {
    draft := Draft.start func [.ptr]
    scope := site.scope.declarationView.onTopOf (← get).moduleScope
    bindings := spec.bindings
    returning
    receiverClass := spec.key.receiverClass <|> site.receiverClass
    memberOwner := ← memberOwnerOf spec.key.subject site }
  let (_, frame) ← (Emit.wholeBody l spec env site).run frame
  return (frame.draft.finish, frame.returning)

/-- The symbol of a body; one compiled for a class below its own says so. -/
def symbolOf (key : FunctionKey) : Compile String := do
  let label := (← program).label key.subject
  let owner ← ownerOf key.subject
  match key.receiverClass with
  | some cls => if owner = some cls then return label else return label ++ "@" ++ (← declName cls)
  | none => return label

def recordFunction (key : FunctionKey) (c : CompiledFunction) : Compile Unit :=
  modify fun w => { w with functions := w.functions.insert key c }

/-- Compiles a body, or finds it compiled. -/
def function (l : Lowering) (spec : Specialization) : Compile CompiledFunction := do
  match (← get).functions.get? spec.key with
  | some done => return done
  | none =>
    let env ← environmentOf spec.key.subject.decl
    let func ← declareCompiled (← symbolOf spec.key) 1
    let returning ← returning spec.key.subject spec.bindings
    let c : CompiledFunction :=
      { func, env, params := spec.key.params, ret := returning.info .any }
    recordFunction spec.key c
    let (code, returning) ← body l spec func env returning
    define func code
    let c := { c with ret := returning.info .void }
    recordFunction spec.key c
    return c

/-- Compiles the statements at the top. -/
def entry (l : Lowering) : Compile FuncId := do
  let setup ← read
  let func ← code (·.declare setup.config.entryName [] .void)
  let frame : Frame := {
    draft := Draft.start func []
    scope := .empty
    bindings := .root
    returning := .entry
    isEntry := true }
  let whole : Emit Unit := do
    l.block setup.program.entry
    unless ← Emit.isClosed do Draft.ret none
  let (_, frame) ← whole.run frame
  define func frame.draft.finish
  return func

end Compile

end ShapeCompiler
