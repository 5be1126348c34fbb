import ShapeCompiler.Compile.Frame

/-!
Values kept as records: where their properties are, and copies from one object shape to another.
-/

namespace ShapeCompiler

open Source Code

/-- A property that is a field of a record. -/
structure FieldRef where
  record : TyId
  index : Nat
  info : Info
  deriving DecidableEq, Repr

/-- What the field at a position holds. -/
def infoAtField (fields : List (Name × Info)) (i : Nat) : Info := (fields[i]?).elim .any (·.2)

namespace Compile

/-- The field that holds a property, if a plain field does. -/
def fieldRef (info : Info) (n : Name) : Compile (Option FieldRef) := do
  match info with
  | .union s =>
    let u ← unionShape s
    return do
      let i ← u.slotForProp n
      let slot ← u.slots[i]?
      return ⟨u.record, u.fieldOfSlot i, slot.info⟩
  | _ =>
    match ← recordOf info with
    | none => return none
    | some record =>
      let fields := (← namedFields info).getD []
      return (fields.find? (·.1 = n)).map fun (_, index, info) => ⟨record, index, info⟩

end Compile

namespace Emit

/-- Reads a field. -/
def loadRef (ptr : ValueId) (field : FieldRef) (n : Name) : Emit Operand := do
  return .boxed (← loadField field.record ptr field.index (← Compile.text n)) field.info

/-- Reads all named fields of a value that is kept as a record. -/
def fieldValues (v : Operand) : Emit (Option (List (Name × Operand))) := do
  match ← Compile.namedFields v.info, ← Compile.recordOf v.info with
  | some fields, some record =>
    let ptr ← boxed v
    return some (← fields.mapM fun (n, index, info) =>
      return (n, ← loadRef ptr ⟨record, index, info⟩ n))
  | _, _ => return none

/-- Stores values into the fields of a record, each in the form the field has. -/
def fillFields (l : Lowering) (record : TyId) (ptr : ValueId) :
    List (Nat × Operand × Info) → Emit Unit
  | [] => return
  | (index, v, info) :: rest => do
    storeField record ptr index (← l.coerced v info)
    fillFields l record ptr rest

/-- Copies a value into a new record, property by property; what it lacks is null. -/
def copyIntoObject (l : Lowering) (v : Operand) (target : ShapeId) : Emit Operand := do
  let shape ← Compile.objectShape target
  match ← fieldValues v with
  | none => Compile.mismatch (.object target) v.info
  | some source =>
    let obj ← Draft.alloc shape.record "obj.copy"
    shape.props.zipIdx.forM fun ((n, info), i) => do
      let p ← l.argument (Table.find? n source) info
      storeField shape.record obj i p
    return .boxed obj (.object target)

end Emit

end ShapeCompiler
