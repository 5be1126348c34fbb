import ShapeCompiler.Code.Module

/-!
Values of the machine.

Memory is structured: a record or array is one aggregate value, and a pointer is a region with a
path of indices into what the region holds.

- `zeroValue` gives what a fresh allocation of a type holds.
-/

namespace ShapeCompiler.Machine

open Code

/-- A function that the surroundings of the machine supply. -/
structure HostId where
  raw : Nat
  deriving DecidableEq, Repr

/-- What a pointer points into: one allocation or one global. -/
inductive Region where
  | heap (index : Nat)
  | global (id : GlobalId)
  deriving DecidableEq, Repr

/-- A pointer that is not null. -/
structure Pointer where
  region : Region
  path : List Nat
  deriving DecidableEq, Repr

/-- The pointer to an element of what this one points at. -/
def Pointer.child (p : Pointer) (index : Nat) : Pointer := { p with path := p.path ++ [index] }

/-- The pointer to all that a region holds. -/
def Region.root (r : Region) : Pointer := ⟨r, []⟩

def Pointer.render (p : Pointer) : String :=
  let root := match p.region with
    | .heap index => s!"heap#{index}"
    | .global id => s!"global#{id.raw}"
  root ++ String.join (p.path.map fun i => s!".{i}")

inductive Value where
  /-- Never written. -/
  | undef
  | bool (value : Bool)
  | int (value : Int64)
  | float (value : Float)
  | text (value : String)
  | null
  | ptr (target : Pointer)
  /-- Address of a function of the module. -/
  | func (id : FuncId)
  /-- Address of a host function. -/
  | host (id : HostId)
  | agg (items : List Value)

instance : Inhabited Value := ⟨.undef⟩

/-- The kinds of values that messages tell apart. -/
inductive Kind where
  | undef
  | bool
  | int
  | float
  | text
  | ptr
  | func
  | host
  | agg
  deriving DecidableEq, Repr

def Kind.name : Kind → String
  | .undef => "undef"
  | .bool => "i1"
  | .int => "int"
  | .float => "f64"
  | .text => "str"
  | .ptr => "ptr"
  | .func => "fn"
  | .host => "host fn"
  | .agg => "aggregate"

def Value.kind : Value → Kind
  | .undef => .undef
  | .bool _ => .bool
  | .int _ => .int
  | .float _ => .float
  | .text _ => .text
  | .null | .ptr _ => .ptr
  | .func _ => .func
  | .host _ => .host
  | .agg _ => .agg

def Value.isNull : Value → Bool
  | .null => true
  | _ => false

/-- What an address stands for; values that are no addresses have none. -/
inductive Address where
  | null
  | ptr (target : Pointer)
  | func (id : FuncId)
  | host (id : HostId)
  deriving DecidableEq, Repr

def Value.address? : Value → Option Address
  | .null => some .null
  | .ptr target => some (.ptr target)
  | .func id => some (.func id)
  | .host id => some (.host id)
  | _ => none

/-- The zero value of a type whose parts nest at most `depth` deep. -/
def zeroValueAt (types : TypeTable) : Nat → TyId → Value
  | 0, _ => .undef
  | depth + 1, ty =>
    match types.get ty with
    | .void | .func _ _ => .undef
    | .i1 => .bool false
    | .i8 | .i32 | .i64 => .int 0
    | .f64 => .float 0.0
    | .str => .text ""
    | .ptr => .null
    | .named _ fields => .agg ((fields.getD []).map (zeroValueAt types depth))
    | .literal fields => .agg (fields.map (zeroValueAt types depth))
    | .array elem length => .agg (List.replicate length (zeroValueAt types depth elem))

/-- The zero value of a type. A type nests no deeper than the table is long. -/
def zeroValue (types : TypeTable) (ty : TyId) : Value := zeroValueAt types (types.size + 1) ty

def constValue : Const → Value
  | .int _ value => .int value
  | .float value => .float value
  | .bool value => .bool value
  | .null => .null
  | .text value => .text value
  | .func id => .func id
  | .global id => .ptr (Region.global id).root

/-- The type of element `i` of an aggregate type, `ptr` if it has none. -/
def elementType (types : TypeTable) (ty : TyId) (i : Nat) : TyId :=
  match types.get ty with
  | .named _ fields => (fields.getD []).getD i .ptr
  | .literal fields => fields.getD i .ptr
  | .array elem length => if i < length then elem else .ptr
  | _ => .ptr

mutual

/-- What a global of type `ty` holds at the start. -/
def initialValue (types : TypeTable) (ty : TyId) : Initial → Value
  | .zero => zeroValue types ty
  | .scalar value => constValue value
  | .aggregate items => .agg (initialValues types ty 0 items)

/-- The elements from index `i` on. -/
def initialValues (types : TypeTable) (ty : TyId) (i : Nat) : List Initial → List Value
  | [] => []
  | item :: items =>
    initialValue types (elementType types ty i) item :: initialValues types ty (i + 1) items

end

end ShapeCompiler.Machine
