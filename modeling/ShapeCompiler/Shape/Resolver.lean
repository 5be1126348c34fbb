import ShapeCompiler.Shape.Info
import ShapeCompiler.Source.Program

/-!
Which declarations are supplied from outside, and under which symbols.

- `Resolver.ambient` takes what the program marks as ambient or leaves without a body.
- `Resolver.symbols` lists symbols of its own before that.
- `Resolver.uniform` answers the same for every declaration.
-/

namespace ShapeCompiler

open Source

/-- How a declaration is realized. -/
structure Resolution where
  external : Bool
  /-- The symbol, or the base for the name of a compiled body. -/
  name : String
  deriving DecidableEq, Repr

structure Resolver where
  /-- The answer may depend on the arguments of a call and the object it is made on. -/
  resolve : Program → DeclId → List Info → Option Info → Resolution
  /-- The symbol of a method table that is supplied from outside. -/
  tableSymbol : Program → DeclId → Option String := fun _ _ => none

namespace Resolver

/-- The program itself says that the declaration comes from outside. -/
def isAmbient (p : Program) (d : DeclId) : Bool :=
  match p.decl d with
  | .ok decl =>
    decl.flags.ambient ||
      match decl.kind with
      | .function f => f.body.isNone
      | _ => false
  | .error _ => false

def ambient : Resolver where
  resolve p d _ _ := ⟨isAmbient p d, p.qualifiedName d⟩

/-- The last entry of a key. -/
def lastEntry (entries : List (DeclId × String)) (d : DeclId) : Option String :=
  (entries.reverse.find? (·.1 = d)).map (·.2)

/-- The symbols listed; where one is listed twice, the later one counts. -/
def symbols (functions tables : List (DeclId × String)) : Resolver where
  resolve p d args receiver :=
    match lastEntry functions d with
    | some symbol => ⟨true, symbol⟩
    | none => ambient.resolve p d args receiver
  tableSymbol _ c := lastEntry tables c

/-- Every declaration is external, or none is. -/
def uniform (external : Bool) : Resolver where
  resolve p d _ _ := ⟨external, p.qualifiedName d⟩

end Resolver

end ShapeCompiler
