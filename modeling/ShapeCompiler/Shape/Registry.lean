import ShapeCompiler.Table
import ShapeCompiler.Shape.Environment

/-!
What is recorded while a program is compiled: shapes, environments and closures.

A shape is known by its name; the first one registered under a name stays. A declaration has one
environment and the code of a closure has one; a second, different one is refused.
-/

namespace ShapeCompiler

open Source Code

/-- Field `i` of the record holds property `i`. -/
structure ObjectShape where
  name : String
  record : TyId
  props : List (Name × Info)
  deriving DecidableEq, Repr

/-- A slot of a union: a whole member, or a property of members that are objects. -/
structure UnionSlot where
  key : ShapeKey
  label : String
  info : Info
  prop : Option Name
  deriving DecidableEq, Repr

structure UnionShape where
  name : String
  record : TyId
  /-- One member with null beside it; the first field then tells whether a value is present. -/
  optional : Bool
  /-- The members other than null. -/
  members : List Info
  slots : List UnionSlot
  /-- The slot of each property of members that are objects. -/
  props : List (Name × Nat)
  deriving DecidableEq, Repr

/-- The fields of one member of an intersection. -/
structure Segment where
  name : String
  member : Info
  start : Nat
  length : Nat
  deriving DecidableEq, Repr

structure IntersectionShape where
  name : String
  record : TyId
  /-- The fields of all members, in order. -/
  fields : List (Name × Info)
  segments : List Segment
  deriving DecidableEq, Repr

inductive Shape where
  | object (shape : ObjectShape)
  | union (shape : UnionShape)
  | intersection (shape : IntersectionShape)
  deriving DecidableEq, Repr

/-- The slot of each property, the last one of a property that has several. -/
def propSlots (slots : List UnionSlot) : List (Name × Nat) :=
  slots.zipIdx.foldl (fun props (s, i) => s.prop.elim props (Table.put · i props)) []

namespace UnionShape

/-- The record field that holds a slot. -/
def fieldOfSlot (u : UnionShape) (slot : Nat) : Nat := if u.optional then slot + 1 else slot

/-- The slot of whole members with a key. -/
def slotForKey (u : UnionShape) (key : ShapeKey) : Option Nat :=
  u.slots.findIdx? fun s => s.prop.isNone && s.key = key

def slotForProp (u : UnionShape) (name : Name) : Option Nat := Table.find? name u.props

/-- Some member is an object whose properties have slots of their own. -/
def hasPropertySlots (u : UnionShape) : Bool := !u.props.isEmpty

def hasMember (u : UnionShape) (info : Info) : Bool := u.members.any (·.key = info.key)

end UnionShape

def IntersectionShape.segment? (s : IntersectionShape) (name : String) : Option Segment :=
  s.segments.find? (·.name = name)

namespace Shape

def name : Shape → String
  | .object s => s.name
  | .union s => s.name
  | .intersection s => s.name

def record : Shape → TyId
  | .object s => s.record
  | .union s => s.record
  | .intersection s => s.record

/-- The field that holds a property; the properties of a union have slots instead. -/
def fieldIndex? (s : Shape) (name : Name) : Option Nat :=
  match s with
  | .object s => s.props.findIdx? (·.1 = name)
  | .union _ => none
  | .intersection s => s.fields.findIdx? (·.1 = name)

end Shape

/-- What is known of a closure made in the program. -/
structure ClosureRecord where
  decl : Option DeclId
  env : EnvId
  /-- What the code takes its parameters to be. -/
  params : List Info
  ret : Info
  deriving DecidableEq, Repr

inductive RegistryError where
  | declConflict (decl : DeclId)
  | closureConflict (code : FuncId)
  /-- A type parameter bound twice in one place. -/
  | duplicateBinding (param : String)
  deriving DecidableEq, Repr

/-- A short code for the kind of error. -/
def RegistryError.code : RegistryError → String
  | .declConflict _ | .closureConflict _ => "Conflict"
  | .duplicateBinding _ => "DuplicateBinding"

def RegistryError.message : RegistryError → String
  | .declConflict d =>
    s!"`declaration #{d.raw}` is already bound to a different environment"
  | .closureConflict c =>
    s!"`closure code #{c.raw}` is already bound to a different environment"
  | .duplicateBinding param =>
    s!"type parameter `{param}` is already bound in this scope"

structure Registry where
  shapes : Array Shape := #[]
  envs : Array Environment := #[]
  declEnvs : Table DeclId EnvId := {}
  closures : Table FuncId ClosureRecord := {}

namespace Registry

def shapeCount (r : Registry) : Nat := r.shapes.size

def shapeByName (r : Registry) (name : String) : Option ShapeId :=
  (r.shapes.toList.findIdx? (·.name = name)).map ShapeId.mk

def shape? (r : Registry) (id : ShapeId) : Option Shape := r.shapes[id.raw]?

def shapeName (r : Registry) (id : ShapeId) : String :=
  (r.shape? id).elim "<unknown shape>" Shape.name

/-- Registers a shape unless its name is taken. -/
def register (r : Registry) (s : Shape) : ShapeId × Registry :=
  match r.shapeByName s.name with
  | some id => (id, r)
  | none => (⟨r.shapes.size⟩, { r with shapes := r.shapes.push s })

def object? (r : Registry) (id : ShapeId) : Option ObjectShape :=
  match r.shape? id with
  | some (.object s) => some s
  | _ => none

def union? (r : Registry) (id : ShapeId) : Option UnionShape :=
  match r.shape? id with
  | some (.union s) => some s
  | _ => none

def intersection? (r : Registry) (id : ShapeId) : Option IntersectionShape :=
  match r.shape? id with
  | some (.intersection s) => some s
  | _ => none

def addEnv (r : Registry) (e : Environment) : EnvId × Registry :=
  (⟨r.envs.size⟩, { r with envs := r.envs.push e })

def env? (r : Registry) (id : EnvId) : Option Environment := r.envs[id.raw]?

def declEnv? (r : Registry) (d : DeclId) : Option EnvId := r.declEnvs.get? d

def closure? (r : Registry) (code : FuncId) : Option ClosureRecord := r.closures.get? code

/-- Gives a declaration its environment. -/
def bindDeclEnv (r : Registry) (d : DeclId) (env : EnvId) : Except RegistryError Registry :=
  match r.declEnv? d with
  | none => .ok { r with declEnvs := r.declEnvs.insert d env }
  | some old => if old = env then .ok r else .error (.declConflict d)

/-- Records the closure of some code; the first record stays. -/
def bindClosure (r : Registry) (code : FuncId) (c : ClosureRecord) :
    Except RegistryError Registry :=
  match r.closure? code with
  | none => .ok { r with closures := r.closures.insert code c }
  | some old => if old.env = c.env then .ok r else .error (.closureConflict code)

end Registry

end ShapeCompiler
