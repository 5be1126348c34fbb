import ShapeCompiler.Shape.Info

/-!
Environments of function bodies.

A body takes one argument, a record with a pointer per slot: its parameters, the variables it
captures, the object it is called on, and what the function around it holds.
-/

namespace ShapeCompiler

open Source Code

inductive SlotName where
  | named (name : Name)
  | receiver
  deriving DecidableEq, Repr

/-- Why a slot is there, which decides how it is filled. -/
inductive SlotOrigin where
  | param
  | capture
  | receiver
  /-- Taken over from the environment of the function around. -/
  | outer
  deriving DecidableEq, Repr

/-- Each origin with its word. -/
def SlotOrigin.words : List (String × SlotOrigin) :=
  [("Param", .param), ("Capture", .capture), ("This", .receiver), ("Outer", .outer)]

structure EnvSlot where
  name : SlotName
  info : Info
  origin : SlotOrigin
  /-- The declaration of the variable in the slot. -/
  var : Option DeclId
  deriving DecidableEq, Repr

structure Environment where
  /-- The declaration it belongs to, if any. -/
  owner : Option DeclId
  name : String
  record : TyId
  slots : List EnvSlot
  paramCount : Nat
  /-- The environment around the declaration. -/
  outer : Option EnvId
  /-- Own slots that are taken over, each with the slot around that feeds it. -/
  remap : List (Nat × Nat)
  deriving DecidableEq, Repr

namespace Environment

/-- The environment of a call to unknown code: parameters only. -/
def synthesized (params : Nat) (record : TyId) : Environment where
  owner := none
  name := s!"env.synthetic.{params}"
  record
  slots := []
  paramCount := params
  outer := none
  remap := []

def slotOf (e : Environment) (name : SlotName) : Option Nat := e.slots.findIdx? (·.name = name)

def receiverSlot (e : Environment) : Option Nat := e.slotOf .receiver

def slot? (e : Environment) (i : Nat) : Option EnvSlot := e.slots[i]?

def paramInfos (e : Environment) : List Info :=
  (e.slots.filter (·.origin = .param)).map (·.info)

/-- The slot around that feeds an own slot. -/
def outerSlotFor (e : Environment) (i : Nat) : Option Nat :=
  (e.remap.find? (·.1 = i)).map (·.2)

/-- The slots with their numbers. -/
def indexedSlots (e : Environment) : List (Nat × EnvSlot) :=
  e.slots.zipIdx.map fun (s, i) => (i, s)

end Environment

end ShapeCompiler
