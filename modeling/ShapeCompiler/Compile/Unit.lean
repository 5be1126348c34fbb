import ShapeCompiler.Compile.Function

/-!
Whole programs.

The steps of compilation call each other without a bound that the program shows: a generic function
may need itself for ever new arguments. So they are tied together level by level, and a program
that needs more levels than a limit is refused.

- `compileUnit` compiles a program, `compile` keeps the module only.
-/

namespace ShapeCompiler

open Source Code

namespace Lowering

/-- The lowest level refuses everything. -/
def refuse : Lowering where
  compile _ := Compile.fail .tooDeep
  expr _ := Compile.fail .tooDeep
  block _ := Compile.fail .tooDeep
  coerce _ _ := Compile.fail .tooDeep
  extract _ _ _ := Compile.fail .tooDeep
  readProperty _ _ := Compile.fail .tooDeep
  writeProperty _ _ _ := Compile.fail .tooDeep

/-- The steps, given the steps they call. -/
def next (l : Lowering) : Lowering where
  compile := Compile.function l
  expr := Emit.expr l
  block := Emit.block l
  coerce := Emit.coerce l
  extract := Emit.unionExtract l
  readProperty := Emit.readProperty l
  writeProperty := Emit.writeProperty l

/-- The steps with a number of levels below them. Each level is made when it is needed. -/
def ofDepth : Nat → Lowering
  | 0 => refuse
  | depth + 1 => {
    compile := fun spec => (ofDepth depth).next.compile spec
    expr := fun e => (ofDepth depth).next.expr e
    block := fun stmts => (ofDepth depth).next.block stmts
    coerce := fun v info => (ofDepth depth).next.coerce v info
    extract := fun v shape info => (ofDepth depth).next.extract v shape info
    readProperty := fun v n => (ofDepth depth).next.readProperty v n
    writeProperty := fun v n w => (ofDepth depth).next.writeProperty v n w }

theorem ofDepth_succ (depth : Nat) : ofDepth (depth + 1) = (ofDepth depth).next := rfl

end Lowering

structure CompiledUnit where
  code : Module
  registry : Registry
  /-- The function that holds the statements at the top. -/
  entry : FuncId

/-- Compiles a program whose compilation nests at most `limit` deep. -/
def compileUnitWithin (limit : Nat) (p : Program) (r : Resolver) (c : Config) :
    Except Failure CompiledUnit :=
  match (Compile.entry (.ofDepth limit)).run (.of p r c) |>.run .start with
  | .ok entry work => .ok ⟨work.code, work.registry, entry⟩
  | .error failure _ => .error failure

/-- How deep compilation may nest. -/
def nestingLimit : Nat := 1000000

/-- Compiles a program. The first failure ends it. -/
def compileUnit (p : Program) (r : Resolver) (c : Config) : Except Failure CompiledUnit :=
  compileUnitWithin nestingLimit p r c

/-- Compiles a program to a module. -/
def compile (p : Program) (r : Resolver) (c : Config) : Except Failure Module :=
  (compileUnit p r c).map (·.code)

end ShapeCompiler
