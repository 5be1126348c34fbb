import ShapeCompiler.Code.Module

/-!
Function bodies under construction.

A draft keeps the blocks written so far and the place where the next instruction goes. A block
that has an exit takes no more code: whatever is written then goes to a new block that nothing
leads to.

- `Draft.start` opens a draft with one value per parameter and an entry block.
- `Draft.emit` and `Draft.close` write an instruction and an exit; the other operations make the
  instruction and the value it defines.
-/

namespace ShapeCompiler.Code

structure Draft where
  func : FuncId
  blocks : Array Block
  values : Array ValueNote
  current : Option BlockId

/-- A step in writing a body. -/
abbrev Writing := StateM Draft

namespace Draft

/-- A draft whose parameters are the first values, placed at the end of the entry block. -/
def start (func : FuncId) (params : List TyId) : Draft where
  func
  blocks := #[⟨"entry", #[], none⟩]
  values := (params.zipIdx.map fun (ty, i) => (⟨ty, s!"arg{i}"⟩ : ValueNote)).toArray
  current := some ⟨0⟩

def finish (d : Draft) : Body := ⟨d.blocks, d.values⟩

/-- The value of parameter `i`. -/
def param (i : Nat) : ValueId := ⟨i⟩

def valueType (d : Draft) (v : ValueId) : TyId := (d.values[v.raw]?).elim .void (·.ty)

def valueName (d : Draft) (v : ValueId) : String := (d.values[v.raw]?).elim "" (·.name)

/-- The block in which the draft stands has an exit. -/
def isClosed (d : Draft) : Bool :=
  (d.current.bind fun b => d.blocks[b.raw]?).any (·.exit.isSome)

def newValue (ty : TyId) (name : String) : Writing ValueId := do
  let d ← get
  set { d with values := d.values.push ⟨ty, name⟩ }
  return ⟨d.values.size⟩

def block (name : String) : Writing BlockId := do
  let d ← get
  set { d with blocks := d.blocks.push ⟨name, #[], none⟩ }
  return ⟨d.blocks.size⟩

def moveTo (b : BlockId) : Writing Unit := modify fun d => { d with current := some b }

/-- The place of the next instruction. -/
def place : Writing (Option BlockId) := return (← get).current

def restore (b : Option BlockId) : Writing Unit := modify fun d => { d with current := b }

/-- The block to write to: the current one, or a new one that nothing leads to. -/
def openBlock : Writing BlockId := do
  let d ← get
  match d.current, d.isClosed with
  | some b, false => return b
  | _, _ =>
    let dead ← block "dead"
    moveTo dead
    return dead

def emit (inst : Inst) : Writing Unit := do
  let b ← openBlock
  modify fun d =>
    { d with blocks := d.blocks.modify b.raw fun k => { k with insts := k.insts.push inst } }

def close (exit : Exit) : Writing Unit := do
  let b ← openBlock
  modify fun d => { d with blocks := d.blocks.modify b.raw fun k => { k with exit := some exit } }

/-- Writes the instruction that defines a new value. -/
def defineBy (ty : TyId) (name : String) (inst : ValueId → Inst) : Writing ValueId := do
  let dst ← newValue ty name
  emit (inst dst)
  return dst

/-! ## Constants -/

def const (value : Const) (name : String) : Writing ValueId :=
  defineBy value.ty name (.const · value)

/-- A constant under the name that goes with its kind. -/
def plain (value : Const) : Writing ValueId := const value value.label

def float (value : Float) : Writing ValueId := plain (.float value)

def bool (value : Bool) : Writing ValueId := plain (.bool value)

def word (value : Int64) : Writing ValueId := plain (.int .i32 value)

def null : Writing ValueId := plain .null

def text (value : String) : Writing ValueId := plain (.text value)

def funcAddr (f : FuncId) : Writing ValueId := plain (.func f)

def globalAddr (g : GlobalId) : Writing ValueId := plain (.global g)

/-! ## Memory -/

def alloc (ty : TyId) (name : String) : Writing ValueId := defineBy .ptr name (.alloc · ty)

def load (ty : TyId) (ptr : ValueId) (name : String) : Writing ValueId :=
  defineBy ty name (.load · ty ptr)

def store (value ptr : ValueId) : Writing Unit := emit (.store value ptr)

def fieldAddr (ty : TyId) (ptr : ValueId) (index : Nat) (name : String) : Writing ValueId :=
  defineBy .ptr name (.fieldAddr · ty ptr index)

def elemAddr (elem : TyId) (ptr index : ValueId) (name : String) : Writing ValueId :=
  defineBy .ptr name (.elemAddr · elem ptr index)

/-! ## Arithmetic, comparison, conversion -/

/-- The type of the result, given that of the left operand. -/
def resultType (lhs : TyId) : BinaryOp → TyId
  | .fadd | .fsub | .fmul | .fdiv => .f64
  | .concat => .str
  | .add | .sub | .mul | .and | .or => lhs

def binary (op : BinaryOp) (lhs rhs : ValueId) (name : String) : Writing ValueId := do
  let ty := (← get).valueType lhs
  defineBy (resultType ty op) name (.binary · op lhs rhs)

def compare (pred : Predicate) (lhs rhs : ValueId) (name : String) : Writing ValueId :=
  defineBy .i1 name (.compare · pred lhs rhs)

def not (value : ValueId) (name : String) : Writing ValueId := defineBy .i1 name (.not · value)

def fneg (value : ValueId) (name : String) : Writing ValueId := defineBy .f64 name (.fneg · value)

/-- The same bits under another type. -/
def bitcast (value : ValueId) (ty : TyId) (name : String) : Writing ValueId :=
  defineBy ty name (.bitcast · value ty)

/-! ## Calls -/

/-- Writes a call; only one with a result defines a value. -/
def callBy (ret : TyId) (name : String) (inst : Option ValueId → Inst) :
    Writing (Option ValueId) := do
  if ret = .void then
    emit (inst none)
    return none
  else
    let dst ← newValue ret name
    emit (inst (some dst))
    return some dst

def call (func : FuncId) (ret : TyId) (args : List ValueId) (name : String) :
    Writing (Option ValueId) :=
  callBy ret name (.call · func args)

def callIndirect (sig ret : TyId) (callee : ValueId) (args : List ValueId) (name : String) :
    Writing (Option ValueId) :=
  callBy ret name (.callIndirect · sig callee args)

/-! ## Exits -/

def br (target : BlockId) : Writing Unit := close (.br target)

def condBr (cond : ValueId) (thenBlock elseBlock : BlockId) : Writing Unit :=
  close (.condBr cond thenBlock elseBlock)

def switch (value : ValueId) (default : BlockId) (cases : List (Int64 × BlockId)) :
    Writing Unit :=
  close (.switch value default cases)

def ret (value : Option ValueId) : Writing Unit := close (.ret value)

def unreachable : Writing Unit := close .unreachable

end Draft

end ShapeCompiler.Code
