import ShapeCompiler.Compile.Record

/-!
Unions.

A union of one member and null is a marker and a value. Any other union is a record with a pointer
per slot; slots bear no tags, and the type at each use decides which one is read.

- `Emit.unionInit` puts a value into a union, `Emit.unionExtract` takes one out.
- `Emit.unionFromAny` and `Emit.unionToAny` go between unions and values of which nothing is known.
-/

namespace ShapeCompiler

open Source Code

/-- What an optional union holds if it holds something. -/
def UnionShape.memberInfo (u : UnionShape) : Info := u.slots.head?.elim .any (·.info)

/-- What a slot holds. -/
def UnionShape.slotInfo (u : UnionShape) (i : Nat) : Info := (u.slots[i]?).elim .any (·.info)

namespace Emit

/-- A position in an array of pointers. -/
def index (i : Nat) : Emit ValueId := Draft.word (Int64.ofNat (min i 0x7FFFFFFF))

/-- The address of an element of an array of pointers. -/
def elemAddr (array : ValueId) (i : Nat) (name : String) : Emit ValueId := do
  Draft.elemAddr .ptr array (← index i) name

/-- A new union with some slots filled. -/
def unionWith (u : UnionShape) (shape : ShapeId) (moves : List (Nat × ValueId)) :
    Emit Operand := do
  let r ← Draft.alloc u.record "union"
  moves.forM fun (slot, value) => storeField u.record r (u.fieldOfSlot slot) value
  return .boxed r (.union shape)

/-- A new optional union with a value. -/
def presentUnion (record : TyId) (value : ValueId) : Emit ValueId := do
  let r ← Draft.alloc record "union"
  let present ← Draft.bool true
  let marker ← Draft.fieldAddr record r 0 "present.p"
  Draft.store present marker
  storeField record r 1 value
  return r

/-! ## Values of which nothing is known -/

/-- A value of which nothing is known, as a union. Every slot takes it, so that whichever is read
later finds it. Null is the absent value. -/
def unionFromAny (v : Operand) (u : UnionShape) (shape : ShapeId) : Emit Operand := do
  let p ← boxed v
  if u.hasPropertySlots then
    return .boxed (← Draft.bitcast p .ptr "reinterpret") (.union shape)
  let out ← Draft.alloc .ptr "union.any"
  let null ← Draft.null
  let isNull ← Draft.compare .eq p null "any.null"
  let fill ← Draft.block "union.fill"
  let done ← Draft.block "union.done"
  if u.optional then
    let absent ← Draft.alloc u.record "union.absent"
    Draft.store absent out
  Draft.condBr isNull done fill
  Draft.moveTo fill
  let r ← if u.optional then presentUnion u.record p
    else do
      let r ← Draft.alloc u.record "union"
      (List.range u.slots.length).forM fun slot => do
        Draft.store p (← elemAddr r (u.fieldOfSlot slot) "union.slot")
      pure r
  Draft.store r out
  Draft.br done
  Draft.moveTo done
  return .boxed (← Draft.load .ptr out "union") (.union shape)

/-- Goes on with the first slot that is filled. -/
def takeFilled (u : UnionShape) (ptr null out : ValueId) (done : BlockId) :
    List (UnionSlot × Nat) → Emit Unit
  | [] => return
  | (slot, i) :: rest => do
    let value ← loadField u.record ptr (u.fieldOfSlot i) slot.label
    let filled ← Draft.compare .ne value null "filled"
    let take ← Draft.block "member.take"
    let next ← Draft.block "member.next"
    Draft.condBr filled take next
    Draft.moveTo take
    Draft.store value out
    Draft.br done
    Draft.moveTo next
    takeFilled u ptr null out done rest

/-- The member that a union holds, as a value of which nothing is known. -/
def unionToAny (v : Operand) (shape : ShapeId) : Emit Operand := do
  let u ← Compile.unionShape shape
  let ptr ← boxed v
  if u.hasPropertySlots then return .boxed ptr .any
  let out ← Draft.alloc .ptr "member"
  let null ← Draft.null
  let done ← Draft.block "member.done"
  let read ← Draft.block "member.read"
  let isNull ← Draft.compare .eq ptr null "union.null"
  Draft.condBr isNull done read
  Draft.moveTo read
  if u.optional then
    let marker ← Draft.fieldAddr u.record ptr 0 "present.p"
    let present ← Draft.load .i1 marker "present"
    let take ← Draft.block "member.take"
    Draft.condBr present take done
    Draft.moveTo take
    let value ← loadField u.record ptr 1 "value"
    Draft.store value out
  else
    takeFilled u ptr null out done u.slots.zipIdx
  Draft.br done
  Draft.moveTo done
  return .boxed (← Draft.load .ptr out "member") .any

/-! ## Into a union -/

/-- Carries over every slot that both unions have. -/
def initFromUnion (v : Operand) (u : UnionShape) (target source : ShapeId) : Emit Operand := do
  let src ← Compile.unionShape source
  let ptr ← boxed v
  let moves ← src.slots.zipIdx.filterMapM fun (slot, i) => do
    match slot.prop.elim (u.slotForKey slot.key) u.slotForProp with
    | some dest => return some (dest, ← loadField src.record ptr (src.fieldOfSlot i) slot.label)
    | none => return none
  if moves.isEmpty then Compile.mismatch (.union target) v.info
  else unionWith u target moves

/-- The slots that the properties of a value fill. -/
def propertyMoves (l : Lowering) (v : Operand) (u : UnionShape) :
    Emit (List (Nat × ValueId)) := do
  ((← fieldValues v).getD []).filterMapM fun (n, field) => do
    match u.slotForProp n with
    | some slot => return some (slot, ← l.coerced field (u.slotInfo slot))
    | none => return none

/-- An instance goes to the slot of a class that it derives from. -/
def initFromInstance (v : Operand) (u : UnionShape) (target : ShapeId) : Emit Operand := do
  match v.info with
  | .instanceOf c =>
    let chain ← Compile.asks (·.classChain c)
    match u.slots.findIdx? fun s => s.prop.isNone && chain.any (s.info = .instanceOf ·) with
    | some slot => unionWith u target [(slot, v.value)]
    | none => Compile.mismatch (.union target) v.info
  | _ => Compile.mismatch (.union target) v.info

/-- A value of a general union: as the member it is, slot by slot from another union, property by
property, or as an instance of a base class. -/
def initMember (l : Lowering) (v : Operand) (u : UnionShape) (target : ShapeId) :
    Emit Operand := do
  match u.slotForKey v.info.key, v.info with
  | some slot, _ => unionWith u target [(slot, ← boxed v)]
  | none, .union source => initFromUnion v u target source
  | none, _ =>
    let moves ← propertyMoves l v u
    if moves.isEmpty then initFromInstance v u target else unionWith u target moves

/-- A value of an optional union. -/
def initOptional (l : Lowering) (v : Operand) (u : UnionShape) (target : ShapeId) :
    Emit Operand := do
  let inner ← match v.info with
    | .union source => l.extract v source u.memberInfo
    | _ => l.coerce v u.memberInfo
  return .boxed (← presentUnion u.record (← boxed inner)) (.union target)

/-- Puts a value into a new union. -/
def unionInit (l : Lowering) (v : Operand) (target : ShapeId) : Emit Operand := do
  let u ← Compile.unionShape target
  if v.info = .union target then return v
  else if v.info.isNullish then
    if u.optional then return .boxed (← Draft.alloc u.record "union.absent") (.union target)
    else nullValue (.union target)
  else if v.info = .any then unionFromAny v u target
  else if u.optional then initOptional l v u target
  else initMember l v u target

/-! ## Out of a union -/

/-- A value of the one kind serves as one of the other, without being a member of its own. -/
def widensTo : Info → Info → Compile Bool
  | .instanceOf c, .instanceOf d => return d ∈ (← Compile.asks (·.classChain c))
  | .closure _, .closure _ => return true
  | _, .any => return true
  | .object _, .object _ => return true
  | _, _ => return false

def unknownMember {α : Type} (u : UnionShape) (target : Info) : Emit α := do
  Compile.fail (.unknownMember u.name (← Compile.infoName target))

def extractOptional (l : Lowering) (u : UnionShape) (ptr : ValueId) (target : Info) :
    Emit Operand := do
  let fits ← if u.hasMember target then pure true else widensTo u.memberInfo target
  if fits then
    let value ← loadField u.record ptr 1 "value"
    l.coerce (.boxed value u.memberInfo) target
  else unknownMember u target

/-- Puts an object together from the slots of its properties. -/
def extractObject (l : Lowering) (u : UnionShape) (ptr : ValueId) (shape : ShapeId) :
    Emit Operand := do
  let o ← Compile.objectShape shape
  match o.props.mapM fun (n, info) => (u.slotForProp n).map (n, info, ·) with
  | none => unknownMember u (.object shape)
  | some props =>
    let r ← Draft.alloc o.record "union.obj"
    props.zipIdx.forM fun ((n, info, slot), i) => do
      let value ← loadField u.record ptr (u.fieldOfSlot slot) (← Compile.text n)
      storeField o.record r i (← l.coerced (.boxed value (u.slotInfo slot)) info)
    return .boxed r (.object shape)

def extractMember (l : Lowering) (u : UnionShape) (ptr : ValueId) (target : Info) :
    Emit Operand := do
  match u.slotForKey target.key, target with
  | some i, _ =>
    let label := (u.slots[i]?).elim "" (·.label)
    let value ← loadField u.record ptr (u.fieldOfSlot i) label
    l.coerce (.boxed value (u.slotInfo i)) target
  | none, .object shape => extractObject l u ptr shape
  | none, _ => unknownMember u target

/-- Takes a member out of a union. -/
def unionExtract (l : Lowering) (v : Operand) (source : ShapeId) (target : Info) :
    Emit Operand := do
  let u ← Compile.unionShape source
  match target with
  | .union wider => if wider = source then return v else unionInit l v wider
  | _ =>
    let ptr ← boxed v
    if u.optional then extractOptional l u ptr target else extractMember l u ptr target

/-! ## Presence -/

/-- Whether an optional union holds something. -/
def isPresent (v : Operand) (shape : ShapeId) : Emit ValueId := do
  let u ← Compile.unionShape shape
  if u.optional then
    let ptr ← boxed v
    let marker ← Draft.fieldAddr u.record ptr 0 "present.p"
    Draft.load .i1 marker "present"
  else Compile.invalid (.noMarker u.name)

/-- The shape of an optional union. -/
def optionalShape? : Info → Compile (Option ShapeId)
  | .union shape => return if (← Compile.unionShape shape).optional then some shape else none
  | _ => return none

/-- Whether a value is missing. -/
def isAbsent (v : Operand) : Emit ValueId := do
  match ← optionalShape? v.info with
  | some shape => Draft.not (← isPresent v shape) "absent"
  | none =>
    let p ← boxed v
    Draft.compare .eq p (← Draft.null) "absent"

end Emit

end ShapeCompiler
