import ShapeCompiler.Compile.Record

/-!
Intersections: the fields of all members one after the other.

- `Emit.intersectionInit` puts a value into an intersection.
- `Emit.intersectionExtract` takes a member out: the only run of fields that looks like it, or the
  segment declared as it.
-/

namespace ShapeCompiler

open Source Code

namespace IntersectionShape

/-- The segments of one intersection that correspond to those of another, if all do. -/
def matchingSegments (target source : IntersectionShape) : Option (List (Segment × Segment)) :=
  target.segments.mapM fun t => do
    let s ← source.segments.find? fun s => s.member = t.member || s.name = t.name
    if s.length = t.length then some (t, s) else none

/-- Which field of the one goes to which field of the other: segment by segment, else field by
field if there are equally many. -/
def moves (target source : IntersectionShape) : Option (List (Nat × Nat)) :=
  match target.matchingSegments source with
  | some pairs => some (pairs.flatMap fun (t, s) =>
      (List.range t.length).map fun i => (t.start + i, s.start + i))
  | none =>
    if source.fields.length = target.fields.length then
      some ((List.range target.fields.length).map fun i => (i, i))
    else none

/-- The values for the fields: by name if every field is found, else in order. -/
def arrange {α : Type} (s : IntersectionShape) (source : List (Name × α)) : Option (List α) :=
  match s.fields.mapM fun f => if f.1 = .empty then none else Table.find? f.1 source with
  | some values => some values
  | none => if source.length = s.fields.length then some (source.map (·.2)) else none

/-- The fields from a position on look like those wanted. -/
def runFits (s : IntersectionShape) (wanted : List (Name × Info)) (start : Nat) : Bool :=
  ((s.fields.drop start).zip wanted).all fun (a, b) => a.2.key = b.2.key

/-- The positions from which the fields look like those wanted. -/
def runs (s : IntersectionShape) (wanted : List (Name × Info)) : List Nat :=
  if 0 < wanted.length && wanted.length ≤ s.fields.length then
    (List.range (s.fields.length - wanted.length + 1)).filter (s.runFits wanted)
  else []

/-- The first field of a member. -/
def findMember (s : IntersectionShape) (target : Info) (name : String)
    (wanted : List (Name × Info)) : Option Nat :=
  match s.runs wanted with
  | [only] => some only
  | _ => do
    let segment ← s.segments.find? (·.member = target) <|> s.segment? name
    if segment.length = wanted.length then some segment.start else none

end IntersectionShape

namespace Emit

/-! ## Into an intersection -/

def initFromIntersection (l : Lowering) (v : Operand) (shape : IntersectionShape)
    (target source : ShapeId) : Emit Operand := do
  let src ← Compile.intersectionShape source
  let ptr ← boxed v
  match shape.moves src with
  | none => Compile.mismatch (.intersection target) v.info
  | some moves =>
    let r ← Draft.alloc shape.record "intersection"
    moves.forM fun (dest, source) => do
      let value ← loadField src.record ptr source "member"
      let p ← l.coerced (.boxed value (infoAtField src.fields source))
        (infoAtField shape.fields dest)
      storeField shape.record r dest p
    return .boxed r (.intersection target)

def initFromFields (l : Lowering) (v : Operand) (shape : IntersectionShape) (target : ShapeId)
    (source : List (Name × Operand)) : Emit Operand := do
  match shape.arrange source with
  | none => Compile.mismatch (.intersection target) v.info
  | some values =>
    let r ← Draft.alloc shape.record "intersection"
    let fields := (values.zip shape.fields).zipIdx.map fun ((value, _, info), i) => (i, value, info)
    fillFields l shape.record r fields
    return .boxed r (.intersection target)

/-- A value without fields makes up an intersection of one field. -/
def initSingle (l : Lowering) (v : Operand) (shape : IntersectionShape) (target : ShapeId) :
    Emit Operand := do
  match shape.fields with
  | [(_, info)] =>
    let value ← l.coerced v info
    let r ← Draft.alloc shape.record "intersection"
    storeField shape.record r 0 value
    return .boxed r (.intersection target)
  | _ => Compile.mismatch (.intersection target) v.info

/-- Puts a value into a new intersection. -/
def intersectionInit (l : Lowering) (v : Operand) (target : ShapeId) : Emit Operand := do
  let shape ← Compile.intersectionShape target
  if v.info = .intersection target then return v
  else if v.info.isNullish then nullValue (.intersection target)
  else
    match v.info with
    | .intersection source => initFromIntersection l v shape target source
    | _ =>
      match ← fieldValues v with
      | some source => initFromFields l v shape target source
      | none => initSingle l v shape target

/-! ## Out of an intersection -/

/-- The record of a member that is taken out. Instances with a method table cannot be put together
again. -/
def memberRecord (shape : IntersectionShape) (source target : Info) : Emit TyId := do
  match target with
  | .object s => return (← Compile.objectShape s).record
  | .instanceOf c =>
    let layout ← Compile.layoutOf c
    if layout.hasTable then
      Compile.unsupported (.projection (← Compile.infoName target) shape.name)
    else return layout.record
  | .intersection s => return (← Compile.intersectionShape s).record
  | _ => Compile.mismatch target source

/-- Takes a member out of an intersection. -/
def intersectionExtract (l : Lowering) (v : Operand) (source : ShapeId) (target : Info) :
    Emit Operand := do
  let shape ← Compile.intersectionShape source
  if target = .any then return .boxed (← boxed v) .any
  let wanted ← Compile.memberFields target
  match shape.findMember target (← Compile.infoName target) wanted with
  | none => Compile.mismatch target v.info
  | some start =>
    let ptr ← boxed v
    if wanted.map (·.1) = [.empty] then
      let value ← loadField shape.record ptr start "member"
      l.coerce (.boxed value (infoAtField shape.fields start)) target
    else
      let record ← memberRecord shape v.info target
      let r ← Draft.alloc record "member"
      wanted.zipIdx.forM fun ((n, info), i) => do
        let value ← loadField shape.record ptr (start + i) (← Compile.text n)
        storeField record r i (← l.coerced (.boxed value (infoAtField shape.fields (start + i)))
          info)
      return .boxed r target

end Emit

end ShapeCompiler
