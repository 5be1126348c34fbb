/-!
Types of low-level code.

Anonymous types are stored once. A named record is unique by its name; it is made without a body
and given one later, so a record may point at itself.

- `TypeTable.named`, `TypeTable.setBody`, `TypeTable.literal`, `TypeTable.array`,
  `TypeTable.func` add types, `TypeTable.get` looks one up.
- `TypeTable.display` writes a type.
-/

namespace ShapeCompiler.Code

/-- Index of a type in a table. -/
structure TyId where
  raw : Nat
  deriving DecidableEq, Repr

/-- A low-level type. -/
inductive Ty where
  | void
  | i1
  | i8
  | i32
  | i64
  | f64
  /-- Immutable text. -/
  | str
  /-- A pointer to anything. -/
  | ptr
  /-- A record known by its name, without fields until it is given a body. -/
  | named (name : String) (fields : Option (List TyId))
  | literal (fields : List TyId)
  | array (elem : TyId) (length : Nat)
  | func (params : List TyId) (ret : TyId)
  deriving DecidableEq, Repr

namespace TyId

def void : TyId := ⟨0⟩
def i1 : TyId := ⟨1⟩
def i8 : TyId := ⟨2⟩
def i32 : TyId := ⟨3⟩
def i64 : TyId := ⟨4⟩
def f64 : TyId := ⟨5⟩
def str : TyId := ⟨6⟩
def ptr : TyId := ⟨7⟩

/-- The largest id, which stands for the absence of a type. -/
def absent : TyId := ⟨0xFFFFFFFF⟩

def isAbsent (t : TyId) : Bool := t = absent

end TyId

/-- All types of one module, in order of creation. -/
structure TypeTable where
  types : Array Ty
  deriving DecidableEq, Repr

namespace TypeTable

/-- The scalar types, in the order of their fixed ids. -/
def fresh : TypeTable := ⟨#[.void, .i1, .i8, .i32, .i64, .f64, .str, .ptr]⟩

def size (t : TypeTable) : Nat := t.types.size

/-- An unknown id reads as `void`. -/
def get (t : TypeTable) (id : TyId) : Ty := t.types.getD id.raw .void

/-- Adds a type at the end. -/
def push (t : TypeTable) (ty : Ty) : TyId × TypeTable := (⟨t.size⟩, ⟨t.types.push ty⟩)

/-- The id of a type, which is added unless it is there. -/
def intern (t : TypeTable) (ty : Ty) : TyId × TypeTable :=
  match t.types.toList.findIdx? (· = ty) with
  | some i => (⟨i⟩, t)
  | none => t.push ty

def literal (t : TypeTable) (fields : List TyId) : TyId × TypeTable := t.intern (.literal fields)

def array (t : TypeTable) (elem : TyId) (length : Nat) : TyId × TypeTable :=
  t.intern (.array elem length)

def func (t : TypeTable) (params : List TyId) (ret : TyId) : TyId × TypeTable :=
  t.intern (.func params ret)

/-- The type is the record of this name. -/
def isNamed (name : String) : Ty → Bool
  | .named n _ => n = name
  | _ => false

/-- The record of this name, if it was made. -/
def lookupNamed (t : TypeTable) (name : String) : Option TyId :=
  (t.types.toList.findIdx? (isNamed name)).map TyId.mk

/-- The record of this name, made without a body unless it is there. -/
def named (t : TypeTable) (name : String) : TyId × TypeTable :=
  match t.lookupNamed name with
  | some id => (id, t)
  | none => t.push (.named name none)

/-- Gives a named record its body. The answer is false if the type is no named record or has
a different body already. -/
def setBody (t : TypeTable) (id : TyId) (body : List TyId) : Bool × TypeTable :=
  match t.types[id.raw]? with
  | some (.named name none) => (true, ⟨t.types.setIfInBounds id.raw (.named name (some body))⟩)
  | some (.named _ (some fields)) => (fields = body, t)
  | _ => (false, t)

/-- Fields of a record that has a body. -/
def fields? (t : TypeTable) (id : TyId) : Option (List TyId) :=
  match t.get id with
  | .named _ fields => fields
  | .literal fields => some fields
  | _ => none

/-- Result of a function type. -/
def ret? (t : TypeTable) (id : TyId) : Option TyId :=
  match t.get id with
  | .func _ ret => some ret
  | _ => none

/-- Writes a type whose parts nest at most `depth` deep. -/
def displayAt (t : TypeTable) : Nat → TyId → String
  | 0, _ => ""
  | depth + 1, id =>
    match t.get id with
    | .void => "void"
    | .i1 => "i1"
    | .i8 => "i8"
    | .i32 => "i32"
    | .i64 => "i64"
    | .f64 => "f64"
    | .str => "str"
    | .ptr => "ptr"
    | .named name _ => "%\"" ++ name ++ "\""
    | .literal fields => "\x7b " ++ ", ".intercalate (fields.map (t.displayAt depth)) ++ " \x7d"
    | .array elem length => s!"[{length} x {t.displayAt depth elem}]"
    | .func params ret =>
      t.displayAt depth ret ++ " (" ++ ", ".intercalate (params.map (t.displayAt depth)) ++ ")"

/-- Writes a type. A type nests no deeper than the table is long. -/
def display (t : TypeTable) (id : TyId) : String := t.displayAt (t.size + 1) id

end TypeTable

end ShapeCompiler.Code
