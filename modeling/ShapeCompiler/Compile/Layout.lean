import ShapeCompiler.Compile.Infos

/-!
Environments of declarations.

The slots are the parameters, the captured variables, the receiver if one is used, and what the
environment around holds besides. A variable is captured if the body refers to it, and also if a
function that the body calls captures it: calling that function means filling its environment.

- `gather` finds the captured variables.
- `Compile.environmentOf` lays the environment of a declaration out, once.
-/

namespace ShapeCompiler

open Source Code

structure Captured where
  name : Name
  var : Option DeclId
  info : Info
  deriving DecidableEq, Repr

/-- What stays the same while captures are gathered. -/
structure Survey where
  program : Program
  work : Work
  /-- Where the declaration stands. -/
  site : Site
  free : FreeNames

structure Gathered where
  captures : List Captured := []
  needsReceiver : Bool := false
  /-- Declarations whose references were followed. -/
  visited : List DeclId := []
  deriving DecidableEq, Repr

abbrev Gathering := StateT Gathered (Except Cause)

/-- Whose body a reference stands in: that of the declaration itself, or that of another one, which
sees what its own site shows. One that has no site yet is nested here and sees what is seen here. -/
inductive Origin where
  | own
  | pulled (site : Option Site)

def Origin.site? : Origin → Option Site
  | .own => none
  | .pulled site => site

/-- What is followed: a function that is called, or a class that is constructed. -/
inductive Pull where
  | function (decl : DeclId)
  | construct (cls : DeclId)
  deriving DecidableEq, Repr

namespace Survey

def ask {α : Type} : Except ProgramError α → Gathering α
  | .ok a => pure a
  | .error e => throw (.invalid (.program e))

/-- What a name means, and the variable it refers to. -/
def resolve (s : Survey) (n : Name) (origin : Origin) : Option (Binding × Option DeclId) :=
  let scope := (origin.site?.getD s.site).scope
  match scope.lookup n with
  | some b => some (b, scope.declarationOf n)
  | none => (s.work.moduleScope.lookup n).map (·, none)

/-- The variable is captured already. -/
def isCaptured (captures : List Captured) (n : Name) (var : Option DeclId) : Bool :=
  captures.any fun c => c.var = var && (var.isSome || c.name = n)

/-- Captures a variable, unless the body declares it. -/
def capture (s : Survey) (n : Name) (var : Option DeclId) (info : Info) : Gathering Unit := do
  let isLocal := var.any (· ∈ s.free.decls)
  if isLocal || isCaptured (← get).captures n var then return
  if var.any fun d => (s.site.scope.variableOf d).isNone then
    throw (.unresolvedCapture (s.program.text n))
  modify fun g => { g with captures := g.captures ++ [⟨n, var, info⟩] }

/-- A name in use. -/
def useName (s : Survey) (pull : Pull → Gathering Unit) (n : Name) (origin : Origin) :
    Gathering Unit :=
  if origin.site?.isNone && n ∈ s.free.locals then pure ()
  else
    match s.resolve n origin with
    | some (.cell _ info, var) => s.capture n var info
    | some (.global _ _, _) | some (.classDecl _, _) => pure ()
    | some (.function d, _) => pull (.function d)
    | none => throw (.unresolvedCapture (s.program.text n))

/-- A member, looked up along some classes. -/
def useMember (s : Survey) (pull : Pull → Gathering Unit) (n : Name) (chain : List DeclId) :
    Gathering Unit := do
  match ← ask (s.program.findFunction n [.method, .getter, .setter] chain) with
  | some m => pull (.function m)
  | none => return

/-- One reference, made in a body whose receiver is an instance of `cls`. The receiver of another
body comes with the call and is not captured. -/
def visit (s : Survey) (pull : Pull → Gathering Unit) (cls : Option DeclId) (origin : Origin) :
    Reference → Gathering Unit
  | .name n => s.useName pull n origin
  | .callee n d =>
    match s.resolve n origin with
    | some _ => s.useName pull n origin
    | none => pull (.function d)
  | .receiver =>
    match origin with
    | .own => modify fun g => { g with needsReceiver := true }
    | .pulled _ => pure ()
  | .member n =>
    match cls with
    | some c => do s.useMember pull n (← ask (s.program.classChain c))
    | none => pure ()
  | .parentMember n =>
    match cls with
    | some c => do s.useMember pull n ((← ask (s.program.classChain c)).drop 1)
    | none => pure ()
  | .parentConstructor =>
    match cls with
    | some c => do
      match (← ask (s.program.classDecl c)).base with
      | some base => pull (.construct base)
      | none => return
    | none => pure ()
  | .construct c => pull (.construct c)

/-- Marks a declaration as followed; the answer is false if it was marked before. -/
def mark (d : DeclId) : Gathering Bool :=
  modifyGet fun g =>
    if d ∈ g.visited then (false, g) else (true, { g with visited := d :: g.visited })

/-- The references of another body. -/
def visitBody (s : Survey) (pull : Pull → Gathering Unit) (cls : Option DeclId)
    (subject : Subject) : Gathering Unit := do
  let origin := Origin.pulled (s.work.siteOf s.program subject.decl).toOption
  let free ← ask (s.program.freeNames subject)
  free.refs.forM (s.visit pull cls origin)

/-- The captured variables of an environment. -/
def capturedSlots (e : Environment) : List Captured :=
  e.slots.filterMap fun slot =>
    match slot.origin, slot.name with
    | .capture, .named n => some ⟨n, slot.var, slot.info⟩
    | _, _ => none

/-- What a laid out function captures is captured here. -/
def takeOver (s : Survey) (pull : Pull → Gathering Unit) (e : Environment) : Gathering Unit :=
  (capturedSlots e).forM fun c =>
    if c.var.isSome then s.capture c.name c.var c.info else s.useName pull c.name .own

/-- A called function with a body: what it captures, or what its body refers to. -/
def follow (s : Survey) (pull : Pull → Gathering Unit) (d : DeclId) (f : FunctionDecl) :
    Gathering Unit :=
  match s.work.registry.declEnv? d with
  | some env => (s.work.registry.env? env).elim (pure ()) (s.takeOver pull)
  | none =>
    let cls := if f.kind.isMember then f.owner else (s.work.sites.get? d).bind (·.receiverClass)
    s.visitBody pull cls (.function d)

/-- Follows a call or construction, `depth` steps deep. -/
def pullAt (s : Survey) : Nat → Pull → Gathering Unit
  | 0, _ => pure ()
  | depth + 1, .function d => do
    if ← mark d then
      let f ← ask (s.program.function d)
      if f.body.isSome then s.follow (s.pullAt depth) d f
  | depth + 1, .construct c => do
    match ← ask (s.program.constructorOf c) with
    | some ctor => s.pullAt depth (.function ctor)
    | none =>
      if ← mark c then s.visitBody (s.pullAt depth) (some c) (.implicitConstructor c)

/-- A depth that is enough: each declaration is followed once, in at most two steps. -/
def depth (s : Survey) : Nat := 2 * (s.program.decls.size + 1) + 1

/-- The variables that a declaration captures, and whether it uses the receiver. -/
def gather (s : Survey) (owner : DeclId) (cls : Option DeclId) : Except Cause Gathered := do
  let visits := s.free.refs.forM (s.visit (s.pullAt s.depth) cls .own)
  return (← visits.run { visited := [owner] }).2

end Survey

/-- The two slots hold the same variable. -/
def EnvSlot.same (a b : EnvSlot) : Bool := a.name = b.name && a.var = b.var

/-- Adds the slots of the environment around that are not there yet, and tells which they feed. -/
def addOuter (slots : List EnvSlot) : List (Nat × EnvSlot) → List EnvSlot × List (Nat × Nat)
  | [] => (slots, [])
  | (i, s) :: rest =>
    if slots.any s.same then addOuter slots rest
    else
      let (all, remap) := addOuter (slots ++ [{ s with origin := .outer }]) rest
      (all, (slots.length, i) :: remap)

/-- What an environment is laid out for. -/
structure EnvPlan where
  subject : Subject
  params : List DeclId
  /-- The class of a member. -/
  memberOf : Option DeclId

namespace EnvPlan

/-- The class of the receiver: that of a member, else that of the body around. -/
def receiverClass (plan : EnvPlan) (site : Site) : Option DeclId :=
  plan.memberOf <|> site.receiverClass

def captureSlots (found : Gathered) : List EnvSlot :=
  found.captures.map fun c => ⟨.named c.name, c.info, .capture, c.var⟩

/-- Members have a slot for the receiver, other functions only if they use it. -/
def receiverSlots (plan : EnvPlan) (site : Site) (found : Gathered) : List EnvSlot :=
  if plan.memberOf.isSome || found.needsReceiver then
    [⟨.receiver, (plan.receiverClass site).elim .any .instanceOf, .receiver, none⟩]
  else []

/-- The slots that are not taken over from around. -/
def ownSlots (plan : EnvPlan) (site : Site) (params : List EnvSlot) (found : Gathered) :
    List EnvSlot :=
  params ++ captureSlots found ++ plan.receiverSlots site found

end EnvPlan

namespace Compile

def envPlan (owner : DeclId) : Compile EnvPlan := do
  match (← asks (·.decl owner)).kind with
  | .classDecl _ =>
    return ⟨.implicitConstructor owner, ← asks (·.forwardedParams owner), some owner⟩
  | .function f =>
    return ⟨.function owner, f.params, if f.kind.isMember then f.owner else none⟩
  | _ => invalid (.noEnvironment (← declName owner))

def paramSlot (d : DeclId) : Compile EnvSlot := do
  let info ← openInfoOf (← asks (·.param d)).ty
  return ⟨.named (← asks (·.decl d)).name, info, .param, some d⟩

/-- What a declaration captures at its site. -/
def capturesOf (owner : DeclId) (site : Site) (plan : EnvPlan) : Compile Gathered := do
  let free ← asks (·.freeNames plan.subject)
  let survey : Survey := { program := ← program, work := ← get, site, free }
  match survey.gather owner (plan.receiverClass site) with
  | .ok found => return found
  | .error cause => fail cause

/-- The environment of a declaration that has none yet. -/
def layOut (owner : DeclId) : Compile EnvId := do
  let site ← siteOf owner
  let plan ← envPlan owner
  let found ← capturesOf owner site plan
  let params ← plan.params.mapM paramSlot
  let around := (site.outer.bind (← registry).env?).elim [] Environment.indexedSlots
  let (slots, remap) := addOuter (plan.ownSlots site params found) around
  let (name, record) ← freshRecord ("env." ++ (← program).label plan.subject) slots.length
  let paramCount := plan.params.length
  let id ← addEnv { owner := some owner, name, record, slots, paramCount, outer := site.outer, remap }
  register (·.bindDeclEnv owner id)
  return id

/-- The environment of a function, or of the constructor that a class does not write out. -/
def environmentOf (owner : DeclId) : Compile EnvId := do
  match (← registry).declEnv? owner with
  | some id => return id
  | none => layOut owner

end Compile

end ShapeCompiler
