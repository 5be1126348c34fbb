import ShapeCompiler.Compile.Closure
import ShapeCompiler.Compile.Intersection
import ShapeCompiler.Compile.Union

/-!
Values in another form.

Whatever is assigned, passed, returned or stored is coerced to what is known of its place. Often the
pointer stays as it is; unions, intersections and copies of objects are new records.
-/

namespace ShapeCompiler

open Source Code

namespace Emit

/-- An instance as one of a class above or below its own. -/
def coerceInstance (v : Operand) (cls target : DeclId) : Emit Operand := do
  let related := target ∈ (← Compile.asks (·.classChain cls))
  let related ← if related then pure true
    else do pure (cls ∈ (← Compile.asks (·.classChain target)) : Bool)
  if related then return .boxed v.value (.instanceOf target)
  else Compile.mismatch (.instanceOf target) v.info

/-- A value that is neither in a union or intersection nor to be put into one. -/
def coercePlain (l : Lowering) (v : Operand) (target : Info) : Emit Operand := do
  if v.info.isNullish then nullValue target
  else
    match v.info, target with
    | .instanceOf c, .instanceOf d => coerceInstance v c d
    | .object _, .object shape | .instanceOf _, .object shape => copyIntoObject l v shape
    | .closure known, .closure wanted =>
      return .boxed v.value (.closure { known with sig := known.sig <|> wanted.sig })
    | .lazy d, .closure wanted =>
      match wanted.sig with
      | some sig => specializeLazy l v d sig
      | none => return v
    | _, _ => Compile.mismatch target v.info

/-- Gives a value another form. What is `any` is trusted to have it already. -/
def coerce (l : Lowering) (v : Operand) (target : Info) : Emit Operand := do
  if v.info = target then return v
  match v.info, target with
  | _, .void => return v
  | .union shape, .any => unionToAny v shape
  | _, .any => return .boxed (← boxed v) .any
  | _, .union shape => unionInit l v shape
  | .any, _ =>
    let p ← boxed v
    return .boxed (← Draft.bitcast p .ptr "reinterpret") target
  | .union shape, _ => unionExtract l v shape target
  | _, .intersection shape => intersectionInit l v shape
  | .intersection shape, _ => intersectionExtract l v shape target
  | _, _ => coercePlain l v target

end Emit

end ShapeCompiler
