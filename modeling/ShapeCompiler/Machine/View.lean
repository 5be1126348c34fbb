import ShapeCompiler.Machine.Memory

/-!
Values with the memory behind their pointers.

- `View.ofValue` follows pointers to a given depth.
-/

namespace ShapeCompiler.Machine

inductive View where
  /-- A value that is shown as it is. -/
  | value (v : Value)
  | aggregate (items : List View)
  /-- A pointer, followed. -/
  | target (view : View)
  /-- A pointer that could not be followed. -/
  | fault (trap : Trap)

namespace View

mutual

/-- Shows a value, given how to show a pointer. -/
def ofValueBy (pointer : Value → View) : Value → View
  | .agg items => .aggregate (ofValuesBy pointer items)
  | .ptr p => pointer (.ptr p)
  | v => .value v

def ofValuesBy (pointer : Value → View) : List Value → List View
  | [] => []
  | v :: vs => ofValueBy pointer v :: ofValuesBy pointer vs

end

/-- Shows a value with pointers followed at most `depth` times. -/
def ofValue (m : Memory) : Nat → Value → View
  | 0 => ofValueBy .value
  | depth + 1 => ofValueBy fun p =>
    match m.load p with
    | .ok v => .target (ofValue m depth v)
    | .error t => .fault t

end View

end ShapeCompiler.Machine
