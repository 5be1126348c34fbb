import ShapeCompiler.Code.Module
import ShapeCompiler.Text.Decimal
import ShapeCompiler.Text.Quoted

/-!
Modules as text: named records, then globals, then functions with their blocks.
-/

namespace ShapeCompiler.Code

/-- A name of the module, as it stands between quotation marks. -/
def symbolText (name : Option String) : String := "@\"" ++ name.getD "?" ++ "\""

def Module.functionSymbol (m : Module) (id : FuncId) : String :=
  symbolText ((m.function? id).map (·.name))

def Const.render (m : Module) : Const → String
  | .int ty value => m.types.display ty ++ " " ++ toString value.toInt
  | .float value => "f64 " ++ numberText value
  | .bool value => if value then "i1 true" else "i1 false"
  | .null => "null"
  | .text value => quote value
  | .func id => m.functionSymbol id
  | .global id => symbolText ((m.global? id).map (·.name))

mutual

def Initial.render (m : Module) : Initial → String
  | .zero => "zeroinitializer"
  | .scalar value => value.render m
  | .aggregate items => "[" ++ ", ".intercalate (Initial.renderAll m items) ++ "]"

def Initial.renderAll (m : Module) : List Initial → List String
  | [] => []
  | item :: items => item.render m :: Initial.renderAll m items

end

def Global.render (m : Module) (g : Global) : String :=
  let kind := if g.readonly then "constant" else "global"
  let ty := m.types.display g.ty
  match g.init with
  | none => symbolText g.name ++ s!" = external {kind} {ty}\n"
  | some init => symbolText g.name ++ s!" = {kind} {ty} {init.render m}\n"

namespace Body

/-- A value: its name, if it has one, and its number. -/
def valueText (b : Body) (v : ValueId) : String :=
  match b.values[v.raw]? with
  | some note => if note.name.isEmpty then s!"%{v.raw}" else s!"%{note.name}.{v.raw}"
  | none => s!"%{v.raw}"

def valuesText (b : Body) (vs : List ValueId) : String := ", ".intercalate (vs.map b.valueText)

def labelText (b : Body) (id : BlockId) : String :=
  match b.blocks[id.raw]? with
  | some block => s!"{block.name}.{id.raw}"
  | none => toString id.raw

def instText (m : Module) (b : Body) (inst : Inst) : String :=
  let v := b.valueText
  let t := m.types.display
  let defining (dst : Option ValueId) (s : String) : String :=
    match dst with
    | some d => v d ++ " = " ++ s
    | none => s
  defining inst.defined? <| match inst with
  | .const _ value => value.render m
  | .alloc _ ty => s!"alloc {t ty}"
  | .load _ ty ptr => s!"load {t ty}, {v ptr}"
  | .store value ptr => s!"store {v value}, {v ptr}"
  | .fieldAddr _ ty ptr index => s!"struct_gep {t ty}, {v ptr}, {index}"
  | .elemAddr _ elem ptr index => s!"index_gep {t elem}, {v ptr}, {v index}"
  | .call _ func args =>
    s!"call {m.functionSymbol func}({b.valuesText args})"
  | .callIndirect _ sig callee args =>
    s!"call_indirect {t sig} {v callee}({b.valuesText args})"
  | .bitcast _ value ty => s!"bitcast {v value} to {t ty}"
  | .binary _ op lhs rhs => s!"{op.mnemonic} {v lhs}, {v rhs}"
  | .compare _ pred lhs rhs => s!"cmp {pred.mnemonic} {v lhs}, {v rhs}"
  | .not _ value => s!"not {v value}"
  | .fneg _ value => s!"fneg {v value}"

def exitText (b : Body) : Exit → String
  | .ret none => "ret void"
  | .ret (some value) => s!"ret {b.valueText value}"
  | .br target => s!"br {b.labelText target}"
  | .condBr cond thenBlock elseBlock =>
    s!"br {b.valueText cond}, {b.labelText thenBlock}, {b.labelText elseBlock}"
  | .switch value default cases =>
    let arms := cases.map fun (c, target) => s!"{c.toInt} => {b.labelText target}"
    let list := ", ".intercalate arms
    s!"switch {b.valueText value}, default {b.labelText default} [{list}]"
  | .unreachable => "unreachable"

def blockText (m : Module) (b : Body) (block : Block) (index : Nat) : String :=
  let insts := block.insts.toList.map fun i => "  " ++ b.instText m i ++ "\n"
  let exit := block.exit.elim "; <unterminated>" b.exitText
  s!"{block.name}.{index}:\n" ++ String.join insts ++ "  " ++ exit ++ "\n"

end Body

def Function.render (m : Module) (f : Function) : String :=
  let params := ", ".intercalate <|
    f.params.zipIdx.map fun (p, i) => s!"{m.types.display p} %arg{i}"
  let head := s!"{m.types.display f.ret} {symbolText f.name}({params})"
  match f.body with
  | none => s!"declare {head}\n"
  | some body =>
    let blocks := body.blocks.toList.zipIdx.map fun (block, i) => body.blockText m block i
    s!"define {head} \x7b\n" ++ String.join blocks ++ "\x7d\n"

/-- The definition of a named record; other types have none. -/
def TypeTable.definition (t : TypeTable) : Ty → String
  | .named name none => "%\"" ++ name ++ "\" = type opaque\n"
  | .named name (some fields) =>
    "%\"" ++ name ++ "\" = type \x7b " ++ ", ".intercalate (fields.map t.display) ++ " \x7d\n"
  | _ => ""

/-- The whole module, every line ended. -/
def Module.render (m : Module) : String :=
  s!"; module {m.name}\n"
    ++ String.join (m.types.types.toList.map m.types.definition)
    ++ String.join (m.globals.toList.map (·.render m))
    ++ String.join (m.functions.toList.map fun f => "\n" ++ f.render m)

end ShapeCompiler.Code
