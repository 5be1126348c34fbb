import ShapeCompiler.Shape.Registry

/-!
What type parameters stand for.

Bindings are layered: a generic function inside another sees its own parameters first, then those
around it.

- `Bindings.lookup` finds what a parameter stands for.
- `Bindings.chainKey` lists all that is visible, sorted by name.
-/

namespace ShapeCompiler

open Source

structure Bindings where
  /-- The declaration being specialized, as messages name it. -/
  label : String := ""
  own : Table Name Info := {}
  /-- The layers around, from the inside out. -/
  outer : List (Table Name Info) := []

namespace Bindings

def root : Bindings := {}

/-- A new layer. -/
def child (b : Bindings) : Bindings := { label := b.label, outer := b.own :: b.outer }

/-- A new layer for a declaration. -/
def childFor (b : Bindings) (label : String) : Bindings := { b.child with label }

def layers (b : Bindings) : List (Table Name Info) := b.own :: b.outer

def owner (b : Bindings) : String := if b.label.isEmpty then "<anonymous>" else b.label

/-- Binds a parameter in this layer, in which it must not be bound. -/
def bind (b : Bindings) (param : Name) (info : Info) (text : String) :
    Except RegistryError Bindings :=
  if b.own.contains param then .error (.duplicateBinding text)
  else .ok { b with own := b.own.insert param info }

/-- The parameter is bound in this layer. -/
def binds (b : Bindings) (param : Name) : Bool := b.own.contains param

/-- What a parameter stands for; the innermost layer that binds it decides. -/
def lookup (b : Bindings) (param : Name) : Option Info := b.layers.findSome? (·.get? param)

def isEmpty (b : Bindings) : Bool := b.layers.all Table.isEmpty

/-- The entries of a layer with their keys. -/
def layerKeys (t : Table Name Info) : List (Name × ShapeKey) :=
  t.entries.map fun (n, info) => (n, info.key)

/-- Adds the entries whose names are not there yet. -/
def addMissing (seen : List (Name × ShapeKey)) : List (Name × ShapeKey) → List (Name × ShapeKey)
  | [] => seen
  | (n, k) :: rest =>
    addMissing (if (Table.find? n seen).isSome then seen else seen ++ [(n, k)]) rest

def sortByName (entries : List (Name × ShapeKey)) : List (Name × ShapeKey) :=
  entries.mergeSort fun a b => a.1.raw ≤ b.1.raw

/-- All visible bindings, the inner ones first in case of doubt, sorted by name. -/
def chainKey (b : Bindings) : List (Name × ShapeKey) :=
  sortByName (addMissing [] (b.layers.flatMap layerKeys))

/-- The bindings of this layer, sorted by name. -/
def key (b : Bindings) : List (Name × ShapeKey) := sortByName (layerKeys b.own)

end Bindings

end ShapeCompiler
