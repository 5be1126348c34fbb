import ShapeCompiler.Compile.Work

/-!
Shapes of objects, unions and intersections.

A shape is named after what it holds, and asking for one that is there gives it again.

- `Compile.shapeOfObject`, `Compile.shapeOfUnion` and `Compile.shapeOfIntersection` find or add
  a shape and its record.
-/

namespace ShapeCompiler

open Source Code

/-- The two slots hold the same thing: one property, or whole members of one key. -/
def UnionSlot.same (a b : UnionSlot) : Bool :=
  match a.prop, b.prop with
  | some p, some q => p = q
  | none, none => a.key = b.key
  | _, _ => false

/-- Adds the slots that are not there yet, in order. -/
def addSlots (seen : List UnionSlot) : List UnionSlot → List UnionSlot
  | [] => seen
  | s :: rest => addSlots (if seen.any s.same then seen else seen ++ [s]) rest

/-- The slots that a member asks for. An object asks for one per property, unless it is the only
member. -/
def memberSlots (p : Program) (r : Registry) (optional : Bool) (member : Info) :
    List UnionSlot :=
  match optional, member with
  | false, .object s =>
    ((r.object? s).elim [] (·.props)).map fun (n, info) => ⟨info.key, p.text n, info, some n⟩
  | _, _ => [⟨member.key, member.describe p r, member, none⟩]

/-- The name of an object shape lists its properties. -/
def objectName (p : Program) (r : Registry) (props : List (Name × Info)) : String :=
  let parts := props.map fun (n, info) => p.text n ++ ":" ++ info.describe p r
  "object.\x7b" ++ ",".intercalate parts ++ "\x7d"

/-- The name of a union shape lists its members. -/
def unionName (p : Program) (r : Registry) (members : List Info) (nullable : Bool) : String :=
  "union." ++ "|".intercalate (members.map (·.describe p r)) ++ if nullable then "|null" else ""

/-- The name of an intersection shape lists its members. -/
def intersectionName (segments : List Segment) : String :=
  ".".intercalate (segments.map (·.name)) ++ ".intersection"

namespace Compile

/-- The shape of objects with these properties. -/
def shapeOfObject (props : List (Name × Info)) : Compile ShapeId := do
  let r ← registry
  let name := objectName (← program) r props
  match r.shapeByName name with
  | some id => return id
  | none =>
    let record ← pointerRecord name (List.replicate props.length .ptr)
    registerShape (.object ⟨name, record, props⟩)

/-- The shape of unions of these members, none of which is null itself. -/
def shapeOfUnion (members : List Info) (nullable : Bool) : Compile ShapeId := do
  let r ← registry
  let p ← program
  let name := unionName p r members nullable
  match r.shapeByName name with
  | some id => return id
  | none =>
    let optional := nullable && members.length = 1
    let slots := addSlots [] (members.flatMap (memberSlots p r optional))
    let marker := if optional then [TyId.i1] else []
    let record ← pointerRecord name (marker ++ List.replicate slots.length .ptr)
    registerShape (.union ⟨name, record, optional, members, slots, propSlots slots⟩)

/-- The shape of intersections with these segments. -/
def shapeOfIntersection (segments : List Segment) (fields : List (Name × Info)) :
    Compile ShapeId := do
  let name := intersectionName segments
  match (← registry).shapeByName name with
  | some id => return id
  | none =>
    let record ← pointerRecord name (List.replicate fields.length .ptr)
    registerShape (.intersection ⟨name, record, fields, segments⟩)

end Compile

end ShapeCompiler
