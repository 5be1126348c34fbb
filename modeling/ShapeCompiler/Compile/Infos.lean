import ShapeCompiler.Compile.Shapes

/-!
What source types become.

- `Compile.infoOf` gives what is known of values of a type.
- `Compile.layoutOf` gives the record of a class's instances.
- `Compile.namedFields` and `Compile.recordOf` tell where a value keeps its properties.

Types refer to types directly, through interfaces and through classes. The rules are written for
a given way to treat the parts, and `Compile.infoAt` ties them together with a bound on the depth.
-/

namespace ShapeCompiler

open Source Code

/-- How the parts of a type are treated. -/
abbrev PartInfo := Bindings → TypeId → Compile Info

namespace Compile

/-! ## Objects -/

def objectInfoBy (part : PartInfo) (b : Bindings) (fields : List (Name × TypeId)) :
    Compile Info := do
  let props ← fields.mapM fun (n, t) => return (n, ← part b t)
  return .object (← shapeOfObject props)

/-- Marks an interface as being lowered, or takes the mark away. -/
def setInProgress (d : DeclId) (on : Bool) : Compile Unit :=
  modify fun w =>
    let others := w.interfacesInProgress.filter (· ≠ d)
    { w with interfacesInProgress := if on then d :: others else others }

/-- An interface is its properties; inside itself it reads as `any`. -/
def interfaceInfoBy (part : PartInfo) (b : Bindings) (d : DeclId) : Compile Info := do
  if d ∈ (← get).interfacesInProgress then return .any
  setInProgress d true
  let properties : Compile Info := do objectInfoBy part b (← asks (·.interfaceFields d))
  let info ← tryCatch properties fun failure => do
    setInProgress d false
    throw failure
  setInProgress d false
  return info

/-! ## Unions -/

/-- The members other than null, each once, and whether null is among them. -/
def splitNull : List Info → List Info × Bool
  | [] => ([], false)
  | i :: rest =>
    let (members, nullable) := splitNull rest
    if i.isNullish then (members, true) else (i :: members.filter (· ≠ i), nullable)

def unionInfoBy (part : PartInfo) (b : Bindings) (members : List TypeId) : Compile Info := do
  let infos ← members.mapM fun t => if t.isNullish then pure Info.null else part b t
  match splitNull infos with
  | ([], _) => return .null
  | ([only], false) => return only
  | (several, nullable) => return .union (← shapeOfUnion several nullable)

/-! ## Classes -/

/-- What a property of a class holds; one whose type mentions type parameters holds anything. -/
def propertyInfoBy (part : PartInfo) (d : DeclId) : Compile Info := do
  let ty := (← asks (·.property d)).ty
  if (← program).types.mentionsParam ty then return .any
  part .root ty

/-- Some class of a chain is laid out with a method table. -/
def hasTable (chain : List DeclId) : Compile Bool := do
  let flags ← chain.mapM fun c => return (← asks (·.decl c)).flags.table
  return flags.any id

/-- The record of a class's instances, made once. -/
def layoutBy (part : PartInfo) (cls : DeclId) : Compile ClassLayout := do
  match (← get).layouts.get? cls with
  | some layout => return layout
  | none =>
    let hasTable ← hasTable (← asks (·.classChain cls))
    let props ← (← asks (·.instanceProperties cls)).mapM fun d => do
      let info ← propertyInfoBy part d
      return ((← asks (·.decl d)).name, d, info)
    let size := props.length + if hasTable then 1 else 0
    let (_, record) ← freshRecord ("class." ++ (← declName cls)) size
    let layout : ClassLayout := { record, hasTable, props }
    modify fun w => { w with layouts := w.layouts.insert cls layout }
    return layout

/-! ## Intersections -/

/-- The fields that a member brings in. A value without named fields is one field of its own. -/
def memberFieldsBy (part : PartInfo) : Info → Compile (List (Name × Info))
  | .object s => return (← objectShape s).props
  | .intersection s => return (← intersectionShape s).fields
  | .instanceOf c => return (← layoutBy part c).fields
  | other => return [(.empty, other)]

/-- Lays the members out one after the other. -/
def segmentsBy (part : PartInfo) (b : Bindings) (start : Nat) :
    List TypeId → Compile (List Segment × List (Name × Info))
  | [] => return ([], [])
  | t :: rest => do
    let member ← part b t
    let own ← memberFieldsBy part member
    let name := (← program).typeName t
    let (segments, fields) ← segmentsBy part b (start + own.length) rest
    return (⟨name, member, start, own.length⟩ :: segments, own ++ fields)

def intersectionInfoBy (part : PartInfo) (b : Bindings) (members : List TypeId) :
    Compile Info := do
  let (segments, fields) ← segmentsBy part b 0 members
  return .intersection (← shapeOfIntersection segments fields)

/-! ## All types -/

/-- What a function type without type parameters is known by. -/
def closureInfo (p : Program) (t : TypeId) : Info :=
  .closure { sig := if p.types.mentionsParam t then none else some t }

/-- What is known of values of a type whose parts nest at most `depth` deep. -/
def infoAt : Nat → PartInfo
  | 0, _, _ => fail .tooDeep
  | depth + 1, b, t => do
    let p ← program
    match p.types.get t with
    | .number => return .number
    | .boolean => return .boolean
    | .text => return .text
    | .void => return .void
    | .null | .undefined => return .null
    | .any => return .any
    | .instanceOf d => return .instanceOf d
    | .interface d => interfaceInfoBy (infoAt depth) b d
    | .object fields => objectInfoBy (infoAt depth) b fields
    | .union members => unionInfoBy (infoAt depth) b members
    | .intersection members => intersectionInfoBy (infoAt depth) b members
    | .function _ _ _ => return closureInfo p t
    | .param name =>
      match b.lookup name with
      | some info => return info
      | none => fail (.unboundParam b.owner (p.text name))

/-- A depth that no type exceeds whose parts come to an end: a path through types, classes and
interfaces visits each interface once, each class once in between, and each type once in
between. -/
def typeDepth (p : Program) : Nat := (p.decls.size + 1) * (p.decls.size + 1) * (p.types.size + 1)

/-- What is known of values of a type. -/
def infoOf (b : Bindings) (t : TypeId) : Compile Info := do infoAt (typeDepth (← program)) b t

/-- What is known of values of a type that may mention type parameters nobody binds. -/
def openInfoOf (t : TypeId) : Compile Info := do
  if (← program).types.mentionsParam t then return .any else infoOf .root t

/-- The record of a class's instances. -/
def layoutOf (cls : DeclId) : Compile ClassLayout := layoutBy infoOf cls

/-- The fields that a member of an intersection brings in. -/
def memberFields (i : Info) : Compile (List (Name × Info)) := memberFieldsBy infoOf i

/-! ## Where properties are kept -/

/-- The fields that have names, with their positions. -/
def numbered (fields : List (Name × Info)) (offset : Nat) : List (Name × Nat × Info) :=
  (fields.zipIdx offset).filterMap fun ((n, info), i) =>
    if n = .empty then none else some (n, i, info)

/-- The named fields of a value kept as a record, in record order. -/
def namedFields : Info → Compile (Option (List (Name × Nat × Info)))
  | .object s => return some (numbered (← objectShape s).props 0)
  | .intersection s => return some (numbered (← intersectionShape s).fields 0)
  | .instanceOf c => do
    let layout ← layoutOf c
    return some (numbered layout.fields layout.offset)
  | _ => return none

/-- The record of a value kept as one. -/
def recordOf : Info → Compile (Option TyId)
  | .object s | .union s | .intersection s => return ((← registry).shape? s).map Shape.record
  | .instanceOf c => return some (← layoutOf c).record
  | _ => return none

end Compile

end ShapeCompiler
