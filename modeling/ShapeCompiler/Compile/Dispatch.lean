import ShapeCompiler.Compile.Closure
import ShapeCompiler.Compile.Union

/-!
Method tables.

The table belongs to the topmost class of a chain that asks for one: some slots of its own, then
one per virtual method of that class. Classes below add no slots. An instance of a class that
overrides nothing points at the shared table. Any other instance has a copy of its own in which
the slots of overridden methods are replaced; behind the copy stand the closures of the overriding
methods, which the replacements call.

Every slot is called with the object first and the arguments after it.

- `Compile.tableOf` makes the shared table of a class.
- `Emit.installTable` gives a new instance its table.
- `Emit.virtualCall` calls through the table.
-/

namespace ShapeCompiler

open Source Code

/-! ## Functions with the object as an argument -/

/-- A body that takes a number of pointers. -/
def writeBody (func : FuncId) (arity : Nat) (steps : Writing Unit) : Code.Body :=
  (steps.run (Draft.start func (List.replicate arity .ptr))).2.finish

/-- Moves the object and the arguments to an environment. -/
def passArguments (e : Environment) (env : ValueId) : Writing Unit := do
  (List.range e.paramCount).forM fun i => do
    let cell ← Draft.alloc .ptr "arg"
    Draft.store (Draft.param (i + 1)) cell
    let slot ← Draft.fieldAddr e.record env i "arg.p"
    Draft.store cell slot
  match e.receiverSlot with
  | some slot =>
    let p ← Draft.fieldAddr e.record env slot "this.p"
    Draft.store (Draft.param 0) p
  | none => return

/-- Calls a body with a new environment. -/
def thunkSteps (e : Environment) (func : FuncId) : Writing Unit := do
  let env ← Draft.alloc e.record "env"
  passArguments e env
  Draft.ret (← Draft.call func .ptr [env] "r")

/-- Calls the closure that the object's own table holds at a position. -/
def trampolineSteps (rt : Runtime) (layout : ClassLayout) (e : Environment) (closureSlot : Int64) :
    Writing Unit := do
  let tableAddr ← Draft.fieldAddr layout.record (Draft.param 0) 0 "vptr.p"
  let table ← Draft.load .ptr tableAddr "vptr"
  let index ← Draft.word closureSlot
  let closureAddr ← Draft.elemAddr .ptr table index "closure.p"
  let closure ← Draft.load .ptr closureAddr "closure"
  let envAddr ← Draft.fieldAddr rt.closure closure 1 "env.p"
  let env ← Draft.load .ptr envAddr "env"
  passArguments e env
  Draft.ret (← Draft.call rt.call .ptr [closure] "r")

/-- The methods of classes that take the place of those in the table, with their slots. -/
def MethodTable.overriding (t : MethodTable) (p : Program) (classes : List DeclId) :
    Except ProgramError (List (Name × DeclId × Nat)) :=
  t.methods.filterMapM fun (n, _) => do
    let found ← p.findFunction n [.method] classes
    return do return (n, ← found, ← t.slotOf n)

/-- The slot is filled from variables around the declaration. -/
def EnvSlot.isCaptured (s : EnvSlot) : Bool := s.origin = .capture || s.origin = .outer

namespace Compile

/-! ## Shared tables -/

def addTable (t : MethodTable) : Compile Unit :=
  modify fun w => { w with tables := w.tables.insert t.root t }

/-- The function in a slot of the shared table, and whether it still needs its body. -/
def tableEntry (root : DeclId) (n : Name) (m : DeclId) : Compile (FuncId × Bool) := do
  let f ← asks (·.function m)
  let arity := f.params.length + 1
  let resolution ← resolve m [] (some (.instanceOf root))
  if resolution.external then return (← externalFunction resolution.name arity, false)
  let symbol := "vthunk." ++ (← declName root) ++ "." ++ (← text n)
  return (← declareCompiled symbol arity, true)

/-- Gives the function in a slot its body: it calls the method of the class itself. -/
def defineThunk (l : Lowering) (thunk : FuncId) (root m : DeclId) : Compile Unit := do
  let c ← l.body (.function m) (some root) []
  let e ← env c.env
  if e.slots.any (·.isCaptured) then unsupported (.capturingVirtual (← declName m))
  define thunk (writeBody thunk (e.paramCount + 1) (thunkSteps e c.func))

/-- What the shared table holds at the start. -/
def tableInitial (header length : Nat) (entries : List FuncId) : Initial :=
  let nulls (n : Nat) : List Initial := List.replicate n (.scalar .null)
  let functions : List Initial := entries.map fun f => .scalar (.func f)
  .aggregate (nulls header ++ functions ++ nulls (length - header - entries.length))

/-- Makes the shared table. It is recorded before the bodies are compiled, which may need it. -/
def emitTable (l : Lowering) (root : DeclId) (array : TyId) (length : Nat)
    (methods : List (Name × DeclId)) : Compile MethodTable := do
  let header := (← read).config.tableHeader
  let entries ← methods.mapM fun (n, m) => tableEntry root n m
  let name := "vtable." ++ (← declName root)
  let initial := tableInitial header length (entries.map (·.1))
  let global ← code (·.addGlobal name array true initial)
  let table : MethodTable := { root, global, array, length, header, methods, external := false }
  addTable table
  (entries.zip methods).forM fun ((thunk, pending), (_, m)) => do
    if pending then defineThunk l thunk root m
  return table

/-- The shared table of a class, supplied from outside or made here. -/
def tableOf (l : Lowering) (root : DeclId) : Compile MethodTable := do
  match (← get).tables.get? root with
  | some table => return table
  | none =>
    let setup ← read
    let methods ← asks (·.namedVirtuals root)
    let header := setup.config.tableHeader
    let needed := header + methods.length
    let length := (← asks (·.classDecl root)).tableSize.getD needed
    if length < needed then invalid (.shortTable (← declName root) length needed)
    let array ← types (·.array .ptr length)
    match setup.resolver.tableSymbol setup.program root with
    | some symbol =>
      let global ← code (·.declareGlobal symbol array true)
      let table : MethodTable := { root, global, array, length, header, methods, external := true }
      addTable table
      return table
    | none => emitTable l root array length methods

/-! ## Overriding methods -/

/-- The function that stands for a class's method in a slot that it overrides. -/
def trampoline (cls : DeclId) (n : Name) (c : CompiledFunction) (closureSlot : Nat) :
    Compile FuncId := do
  match (← get).overrides.get? (cls, n) with
  | some found => return found
  | none =>
    let layout ← layoutOf cls
    let e ← env c.env
    let arity := e.paramCount + 1
    let func ← declareCompiled ("vtramp." ++ (← declName cls) ++ "." ++ (← text n)) arity
    let slot := Int64.ofNat (min closureSlot 0x7FFFFFFF)
    define func (writeBody func arity (trampolineSteps (← runtime) layout e slot))
    modify fun w => { w with overrides := w.overrides.insert (cls, n) func }
    return func

/-- A method that is marked as overriding has to name a slot of the table. -/
def checkOverride (t : MethodTable) (cls m : DeclId) : Compile Unit := do
  let d ← asks (·.decl m)
  if d.flags.override && (t.slotOf d.name).isNone then
    let candidates ← t.methods.mapM fun (n, _) => text n
    fail (.ambiguousSlot (← declName cls) (← text d.name) candidates)

end Compile

namespace Emit

/-! ## Instances -/

/-- Copies the entries of a table. -/
def copyTable (table copy : ValueId) (length : Nat) : Emit Unit :=
  (List.range length).forM fun i => do
    let position ← index i
    let source ← Draft.elemAddr .ptr table position "vslot.shared"
    let entry ← Draft.load .ptr source "ventry"
    let slot ← Draft.elemAddr .ptr copy position "vslot"
    Draft.store entry slot

/-- Replaces the entry of an overridden method in an object's own table. -/
def patchSlot (l : Lowering) (cls : DeclId) (obj copy : ValueId) (n : Name) (m : DeclId)
    (slot closureSlot : Nat) : Emit Unit := do
  let c ← l.body (.function m) (some cls) []
  let closure ← closureOf c m (some obj)
  let func ← Compile.trampoline cls n c closureSlot
  let held ← elemAddr copy closureSlot "vclosure"
  Draft.store closure.ptr held
  let entry ← elemAddr copy slot "vslot"
  let code ← Draft.funcAddr func
  Draft.store code entry

/-- Points a new instance at the shared table, or at a copy in which the methods that are overridden
are replaced. -/
def placeTable (l : Lowering) (obj : ValueId) (cls : DeclId) (shared : MethodTable)
    (overrides : List (Name × DeclId × Nat)) : Emit Unit := do
  let layout ← Compile.layoutOf cls
  let table ← Draft.globalAddr shared.global
  if overrides.isEmpty then storeField layout.record obj 0 table
  else
    let own ← Compile.types (·.array .ptr (shared.length + overrides.length))
    let copy ← Draft.alloc own "vtable.copy"
    copyTable table copy shared.length
    storeField layout.record obj 0 copy
    (overrides.zipIdx shared.length).forM fun ((n, m, slot), closureSlot) =>
      patchSlot l cls obj copy n m slot closureSlot

/-- Gives a new instance its table. -/
def installTable (l : Lowering) (obj : ValueId) (cls : DeclId) : Emit Unit := do
  match ← Compile.asks (·.tableRoot cls) with
  | none => return
  | some root =>
    let shared ← Compile.tableOf l root
    let below := (← Compile.asks (·.classChain cls)).takeWhile (· ≠ root)
    below.forM fun c => do
      (← Compile.asks (·.ownFunctions c .method)).forM fun m => Compile.checkOverride shared c m
    placeTable l obj cls shared (← Compile.asks (shared.overriding · below))

/-! ## Calls -/

/-- The slot through which a method of a class is called, if it is virtual. -/
def virtualSlot (l : Lowering) (cls m : DeclId) : Emit (Option Nat) := do
  match ← Compile.asks (·.tableRoot cls) with
  | none => return none
  | some root =>
    let n := (← Compile.asks (·.decl m)).name
    let methods ← Compile.asks (·.namedVirtuals root)
    if methods.any (·.1 = n) then return (← Compile.tableOf l root).slotOf n
    else return none

/-- The body of a virtual method, unless it is supplied from outside. It is compiled for the
declared parameter types, as every overriding method is. -/
def virtualBody (l : Lowering) (cls m : DeclId) :
    Compile (Option CompiledFunction) := do
  let resolution ← Compile.resolve m [] (some (.instanceOf cls))
  if resolution.external then return none
  else return some (← l.body (.function m) (some cls) [])

/-- Calls what stands in a slot of the object's table. -/
def callSlot (cls : DeclId) (this : ValueId) (slot : Nat) (values : List ValueId) :
    Emit ValueId := do
  let layout ← Compile.layoutOf cls
  let table ← loadField layout.record this 0 "vptr"
  let entry ← elemAddr table slot "vslot"
  let code ← Draft.load .ptr entry "vfn"
  let all := this :: values
  let sig ← Compile.types (·.func (List.replicate all.length .ptr) .ptr)
  match ← Draft.callIndirect sig .ptr code all "vcall" with
  | some r => return r
  | none => Draft.null

/-- Calls a method through the object's table. -/
def virtualCall (l : Lowering) (object : Operand) (cls m : DeclId) (slot : Nat)
    (args : List Operand) : Emit Operand := do
  let f ← Compile.asks (·.function m)
  let c ← virtualBody l cls m
  let this ← boxed object
  let values ← f.params.zipIdx.mapM fun (d, i) => do
    let info ← match c with
      | some c => pure (c.params[i]?.getD .any)
      | none => do closedInfoOf (← Compile.asks (·.param d)).ty
    l.argument args[i]? info
  let ret ← match c, f.ret with
    | some c, _ => pure c.ret
    | none, some ty => closedInfoOf ty
    | none, none => pure .any
  return .boxed (← callSlot cls this slot values) ret

end Emit

end ShapeCompiler
