import ShapeCompiler.Shape.Bindings
import ShapeCompiler.Source.Program

/-!
Why a program is not compiled.

- `Cause` lists the reasons, `Cause.message` words them, `Cause.code` names their kinds.
- `Failure` is a reason with its place, and its message names both; the first place attached
  stays.
-/

namespace ShapeCompiler

open Source

/-- The kinds of shapes, as messages name them. -/
inductive ShapeSort where
  | object
  | union
  | intersection
  deriving DecidableEq, Repr

def ShapeSort.phrase : ShapeSort → String
  | .object => "an object shape"
  | .union => "a union shape"
  | .intersection => "an intersection shape"

/-- What a program may contain and is not compiled. -/
inductive Unsupported where
  | capturingVirtual (method : String)
  | rebinding (name : String)
  | update (info : String)
  | binary (op : BinaryOp) (lhs rhs : String)
  | negation (info : String)
  | classCall (cls : String)
  | superMember
  | superExpr
  | superCall
  | nativeFunctionValue (function : String)
  | nativeMethodValue (method : String)
  | classValue (cls : String)
  | readAny (property : String)
  | call (info : String)
  | projection (info intersection : String)
  deriving DecidableEq, Repr

def Unsupported.message : Unsupported → String
  | .capturingVirtual method => s!"virtual method `{method}` capturing local variables"
  | .rebinding name => s!"rebinding `{name}` to a function with a different signature"
  | .update info => s!"`++`/`--` on `{info}`"
  | .binary op lhs rhs => s!"`{op.symbol}` on `{lhs}` and `{rhs}`"
  | .negation info => s!"unary `-` on `{info}`"
  | .classCall cls => s!"calling class `{cls}` without `new`"
  | .superMember => "`super` outside a class member"
  | .superExpr => "`super` outside a call or member access"
  | .superCall => "`super(...)` outside a constructor"
  | .nativeFunctionValue function => s!"native function `{function}` used as a value"
  | .nativeMethodValue method => s!"native method `{method}` used as a value"
  | .classValue cls => s!"class `{cls}` used as a value"
  | .readAny property => s!"reading `{property}` from a value of type `any`"
  | .call info => s!"calling a value of type `{info}`"
  | .projection info intersection =>
    s!"projecting `{info}` with a vtable out of `{intersection}`"

/-- What no correct program contains. -/
inductive Invalid where
  | program (error : ProgramError)
  | registry (error : RegistryError)
  | notShape (name : String) (expected : ShapeSort)
  | shortTable (root : String) (length needed : Nat)
  | noEnvironment (decl : String)
  | unknownEnvironment (env : EnvId)
  | noMarker (union : String)
  | assignmentTarget
  | updateTarget
  | assignedDeclaration (name : String)
  | usedBefore (name : String)
  | notInScope (name : String)
  | noCode (symbol : String)
  | noBody (function : String)
  | noBaseMethod (cls method : String)
  | noScalar (info : String)
  | noBase (cls : String)
  | unboundForwarded (param cls : String)
  | missingProperty (property cls : String)
  | noProperty (info property : String)
  | noStaticMember (cls member : String)
  | noStaticProperty (cls property : String)
  | notVariable (decl : String)
  | notFunctionType (ty : String)
  | compiledAndNative (symbol : String)
  deriving DecidableEq, Repr

def Invalid.message : Invalid → String
  | .program error => error.message
  | .registry error => error.message
  | .notShape name expected => s!"`{name}` is not {expected.phrase}"
  | .shortTable root length needed =>
    s!"vtable of `{root}` has {length} slots but needs {needed}"
  | .noEnvironment decl => s!"`{decl}` has no environment"
  | .unknownEnvironment env => s!"environment #{env.raw} is not registered"
  | .noMarker union => s!"`{union}` has no presence marker"
  | .assignmentTarget => "invalid assignment target"
  | .updateTarget => "invalid update target"
  | .assignedDeclaration name => s!"cannot assign to declaration `{name}`"
  | .usedBefore name => s!"`{name}` is used before its declaration"
  | .notInScope name => s!"`{name}` is used before its declaration is in scope"
  | .noCode symbol => s!"`{symbol}` has no body and no native symbol"
  | .noBody function => s!"`{function}` has no body to compile"
  | .noBaseMethod cls method => s!"no base class of `{cls}` has a method `{method}`"
  | .noScalar info => s!"`{info}` has no scalar form"
  | .noBase cls => s!"`{cls}` calls `super(...)` but has no base class"
  | .unboundForwarded param cls => s!"forwarded parameter `{param}` of `{cls}` is not bound"
  | .missingProperty property cls =>
    s!"property `{property}` is missing from the layout of `{cls}`"
  | .noProperty info property => s!"`{info}` has no property `{property}`"
  | .noStaticMember cls member => s!"`{cls}` has no static member `{member}`"
  | .noStaticProperty cls property => s!"`{cls}` has no static property `{property}`"
  | .notVariable decl => s!"`{decl}` is not a variable"
  | .notFunctionType ty => s!"`{ty}` is not a function type"
  | .compiledAndNative symbol =>
    s!"`{symbol}` is both compiled and provided by the object-code base"

inductive Cause where
  /-- A name, or the object a member is called on, that nothing around binds. -/
  | unresolvedCapture (name : String)
  /-- A value that cannot take the form asked for. -/
  | shapeMismatch (expected found : String)
  | unknownMember (union member : String)
  /-- A method that overrides no slot of the table. -/
  | ambiguousSlot (cls method : String) (candidates : List String)
  /-- A type parameter that stands for nothing where it is needed. -/
  | unboundParam (decl param : String)
  | unsupported (what : Unsupported)
  | invalid (what : Invalid)
  /-- The program nests deeper than compilation goes. -/
  | tooDeep
  deriving DecidableEq, Repr

/-- A short code for the kind of cause. -/
def Cause.code : Cause → String
  | .unresolvedCapture _ => "UnresolvedCapture"
  | .shapeMismatch _ _ => "ShapeMismatch"
  | .unknownMember _ _ => "UnknownUnionMember"
  | .ambiguousSlot _ _ _ => "AmbiguousVirtualSlot"
  | .unboundParam _ _ => "GenericBindingUnavailable"
  | .unsupported _ => "Unsupported"
  | .invalid _ => "InvalidProgram"
  | .tooDeep => "TooDeep"

def Cause.message : Cause → String
  | .unresolvedCapture name => s!"cannot capture `{name}`: not bound in any enclosing scope"
  | .shapeMismatch expected found =>
    s!"shape mismatch: expected `{expected}`, found `{found}`"
  | .unknownMember union member => s!"`{member}` is not a member of union `{union}`"
  | .ambiguousSlot cls method candidates =>
    let list := ", ".intercalate candidates
    s!"no unique virtual slot for `{cls}.{method}` (root slots: {list})"
  | .unboundParam decl param => s!"type parameter `{param}` of `{decl}` has no concrete binding"
  | .unsupported what => s!"unsupported: {what.message}"
  | .invalid what => s!"invalid program: {what.message}"
  | .tooDeep => "the program nests too deep"

structure Failure where
  cause : Cause
  span : Span
  deriving DecidableEq, Repr

namespace Failure

/-- A failure whose place is not known yet. -/
def bare (cause : Cause) : Failure := ⟨cause, .dummy⟩

/-- Attaches a place unless there is one. -/
def attach (f : Failure) (span : Span) : Failure :=
  if f.span.isDummy then { f with span } else f

def message (f : Failure) : String := s!"{f.cause.message} at {f.span.render}"

end Failure

end ShapeCompiler
