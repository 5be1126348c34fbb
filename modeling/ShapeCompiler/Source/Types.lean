import ShapeCompiler.Source.Name

/-!
Types of a source program.

Equal types are stored once, so a type is known by its id. Unions and intersections are kept flat,
and one of a single member is that member.

- `TypeStore.union`, `TypeStore.intersection` and the other constructors add types.
- `TypeStore.optionalInner` recognises a type with `null` or `undefined` beside it.
- `TypeStore.mentionsParam` looks for type parameters.
-/

namespace ShapeCompiler.Source

/-- Index of a declaration. -/
structure DeclId where
  raw : Nat
  deriving DecidableEq, Repr

/-- Index of a type. -/
structure TypeId where
  raw : Nat
  deriving DecidableEq, Repr

namespace TypeId

def number : TypeId := ⟨0⟩
def boolean : TypeId := ⟨1⟩
def text : TypeId := ⟨2⟩
def void : TypeId := ⟨3⟩
def null : TypeId := ⟨4⟩
def undefined : TypeId := ⟨5⟩
def any : TypeId := ⟨6⟩

/-- The type is that of `null` or `undefined`. -/
def isNullish (t : TypeId) : Bool := t = null || t = undefined

end TypeId

inductive TypeExpr where
  | number
  | boolean
  | text
  | void
  | null
  | undefined
  | any
  /-- Instances of a class. -/
  | instanceOf (decl : DeclId)
  /-- A named interface; its properties are those of the declaration. -/
  | interface (decl : DeclId)
  /-- An object type without a name, properties in order. -/
  | object (fields : List (Name × TypeId))
  | union (members : List TypeId)
  | intersection (members : List TypeId)
  /-- A function type, with the one declaration its values come from, if that is known. -/
  | function (params : List TypeId) (ret : TypeId) (origin : Option DeclId)
  /-- A type parameter by its name. -/
  | param (name : Name)
  deriving DecidableEq, Repr

/-- All types of a program, in order of creation. -/
structure TypeStore where
  types : Array TypeExpr
  deriving DecidableEq, Repr

namespace TypeStore

/-- The types without parts, in the order of their fixed ids. -/
def fresh : TypeStore := ⟨#[.number, .boolean, .text, .void, .null, .undefined, .any]⟩

def size (ts : TypeStore) : Nat := ts.types.size

/-- An unknown id reads as `any`. -/
def get (ts : TypeStore) (id : TypeId) : TypeExpr := ts.types.getD id.raw .any

/-- The id of a type, which is added unless it is there. -/
def intern (ts : TypeStore) (t : TypeExpr) : TypeId × TypeStore :=
  match ts.types.toList.findIdx? (· = t) with
  | some i => (⟨i⟩, ts)
  | none => (⟨ts.size⟩, ⟨ts.types.push t⟩)

/-- Adds what is not yet in the list, each once, in order. -/
def addNew (seen : List TypeId) : List TypeId → List TypeId
  | [] => seen
  | t :: rest => addNew (if t ∈ seen then seen else seen ++ [t]) rest

/-- The members of a union, or the type itself. -/
def unionMembers (ts : TypeStore) (id : TypeId) : List TypeId :=
  match ts.get id with
  | .union members => members
  | _ => [id]

/-- The members of an intersection, or the type itself. -/
def intersectionMembers (ts : TypeStore) (id : TypeId) : List TypeId :=
  match ts.get id with
  | .intersection members => members
  | _ => [id]

/-- The union of some types: flat, without repetition. -/
def union (ts : TypeStore) (members : List TypeId) : TypeId × TypeStore :=
  match addNew [] (members.flatMap ts.unionMembers) with
  | [only] => (only, ts)
  | flat => ts.intern (.union flat)

/-- The type with `null` beside it. -/
def optional (ts : TypeStore) (t : TypeId) : TypeId × TypeStore := ts.union [t, .null]

/-- The intersection of some types: flat, repetitions kept. -/
def intersection (ts : TypeStore) (members : List TypeId) : TypeId × TypeStore :=
  match members.flatMap ts.intersectionMembers with
  | [only] => (only, ts)
  | flat => ts.intern (.intersection flat)

/-- The type `T` if the id is that of `T` with `null`, `undefined` or both beside it. -/
def optionalInner (ts : TypeStore) (id : TypeId) : Option TypeId :=
  match ts.get id with
  | .union members =>
    match members.filter (!·.isNullish) with
    | [only] => if members.any TypeId.isNullish then some only else none
    | _ => none
  | _ => none

/-- A type parameter stands in a type whose parts nest at most `depth` deep. -/
def mentionsParamAt (ts : TypeStore) : Nat → TypeId → Bool
  | 0, _ => false
  | depth + 1, id =>
    match ts.get id with
    | .param _ => true
    | .object fields => fields.any fun f => ts.mentionsParamAt depth f.2
    | .union members | .intersection members => members.any (ts.mentionsParamAt depth)
    | .function params ret _ =>
      params.any (ts.mentionsParamAt depth) || ts.mentionsParamAt depth ret
    | _ => false

/-- A type parameter stands in the type. A type nests no deeper than the store is long. -/
def mentionsParam (ts : TypeStore) (id : TypeId) : Bool := ts.mentionsParamAt (ts.size + 1) id

end TypeStore

end ShapeCompiler.Source
