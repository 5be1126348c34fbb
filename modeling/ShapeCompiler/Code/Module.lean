import ShapeCompiler.Code.Inst

/-!
Modules: functions, globals and the types they use.

Functions have distinct names, and so have globals.

- `Module.declare` finds or adds a function, `Module.declareUnique` always adds one, under a name
  with a numeric suffix if its own is taken.
- `Module.addGlobal` and `Module.declareGlobal` do the same for globals.
-/

namespace ShapeCompiler.Code

/-- The module function through which the surroundings call closures. -/
def closureCallName : String := "__tsn.closure.call"

/-- Instructions that run in order, and the way out. -/
structure Block where
  name : String
  insts : Array Inst := #[]
  /-- Absent only while the block is being written. -/
  exit : Option Exit := none

instance : Inhabited Block := ⟨⟨"", #[], none⟩⟩

/-- What is recorded of a value: its type and a name for readers. -/
structure ValueNote where
  ty : TyId
  name : String
  deriving DecidableEq, Repr

/-- The code of a function. Values are numbered from the parameters on. -/
structure Body where
  blocks : Array Block
  values : Array ValueNote

/-- All instructions in block order. -/
def Body.insts (b : Body) : List Inst := b.blocks.toList.flatMap (·.insts.toList)

/-- A function; without a body it is supplied from outside. -/
structure Function where
  name : String
  params : List TyId
  ret : TyId
  body : Option Body

def Function.isExternal (f : Function) : Bool := f.body.isNone

/-- A global; without a start value it is supplied from outside. -/
structure Global where
  name : String
  ty : TyId
  readonly : Bool
  init : Option Initial

structure Module where
  name : String
  types : TypeTable := .fresh
  functions : Array Function := #[]
  globals : Array Global := #[]

/-- The base with a numeric suffix; the first one is 1. -/
def suffixed (base : String) (n : Nat) : String := s!"{base}.{n + 1}"

/-- The base, or the base with the least positive suffix that makes it new. -/
def uniqueName (names : List String) (base : String) : String :=
  if base ∈ names then
    (((List.range (names.length + 1)).map (suffixed base)).find? (· ∉ names)).getD base
  else base

namespace Module

def function? (m : Module) (id : FuncId) : Option Function := m.functions[id.raw]?

def global? (m : Module) (id : GlobalId) : Option Global := m.globals[id.raw]?

def functionNames (m : Module) : List String := m.functions.toList.map (·.name)

def globalNames (m : Module) : List String := m.globals.toList.map (·.name)

def functionByName (m : Module) (name : String) : Option FuncId :=
  (m.functions.toList.findIdx? (·.name = name)).map FuncId.mk

def globalByName (m : Module) (name : String) : Option GlobalId :=
  (m.globals.toList.findIdx? (·.name = name)).map GlobalId.mk

/-- The function of this name, added without a body unless it is there. -/
def declare (m : Module) (name : String) (params : List TyId) (ret : TyId) : FuncId × Module :=
  match m.functionByName name with
  | some id => (id, m)
  | none => (⟨m.functions.size⟩, { m with functions := m.functions.push ⟨name, params, ret, none⟩ })

/-- A new function, under a suffixed name if its own is taken. -/
def declareUnique (m : Module) (name : String) (params : List TyId) (ret : TyId) :
    FuncId × Module :=
  m.declare (uniqueName m.functionNames name) params ret

/-- Gives a function its body; an unknown function is left alone. -/
def define (m : Module) (id : FuncId) (body : Body) : Module :=
  { m with functions := m.functions.modify id.raw fun f => { f with body := some body } }

/-- The result type of a function, `void` if it is unknown. -/
def retType (m : Module) (id : FuncId) : TyId := (m.function? id).elim .void (·.ret)

/-- The type of a function, that of a procedure without parameters if it is unknown. -/
def signature (m : Module) (id : FuncId) : TyId × Module :=
  let (params, ret) := (m.function? id).elim ([], .void) fun f => (f.params, f.ret)
  let (ty, types) := m.types.func params ret
  (ty, { m with types })

def pushGlobal (m : Module) (g : Global) : GlobalId × Module :=
  (⟨m.globals.size⟩, { m with globals := m.globals.push g })

/-- A new global, under a suffixed name if its own is taken. -/
def addGlobal (m : Module) (name : String) (ty : TyId) (readonly : Bool) (init : Initial) :
    GlobalId × Module :=
  m.pushGlobal ⟨uniqueName m.globalNames name, ty, readonly, some init⟩

/-- The global of this name, added as one supplied from outside unless it is there. -/
def declareGlobal (m : Module) (name : String) (ty : TyId) (readonly : Bool) :
    GlobalId × Module :=
  match m.globalByName name with
  | some id => (id, m)
  | none => m.pushGlobal ⟨name, ty, readonly, none⟩

end Module

end ShapeCompiler.Code
