import ShapeCompiler.Machine.Value

/-!
Faults that end a run.

- `Trap` lists the causes, `Trap.message` words them, `Trap.code` names their kinds.
-/

namespace ShapeCompiler.Machine

open Code

/-- What an operation needed of a value. -/
inductive Need where
  | pointer
  | bool
  | int
  | float
  | text
  deriving DecidableEq, Repr

def Need.name : Need → String
  | .pointer => "pointer"
  | .bool => "i1"
  | .int => "integer"
  | .float => "f64"
  | .text => "str"

inductive Trap where
  | nullDeref
  | nullCall
  | notCallable (kind : Kind)
  | readOnlyWrite (global : String)
  | outOfBounds (index : Int)
  /-- A region that was never handed out. -/
  | dangling (region : Region)
  /-- A path that goes on below a value without elements. -/
  | notAggregate (kind : Kind) (at_ : Pointer)
  | missingBlock (id : BlockId)
  | uninitializedRead
  | unresolvedSymbol (name : String)
  | unknownFunction (id : FuncId)
  | mismatch (need : Need) (found : Kind)
  /-- Addresses are equal or not, but have no order. -/
  | unorderedAddresses
  | incomparable (lhs rhs : Kind)
  | arity (function : String) (expected found : Nat)
  | unreachable
  | unterminated (block : String)
  | outOfFuel
  | stackOverflow
  /-- Calls between hosts and the machine nest too deep. -/
  | nestingLimit
  /-- Control goes round blocks without instructions for ever. -/
  | endless
  | host (message : String)
  deriving DecidableEq, Repr

def Region.debugText : Region → String
  | .heap index => s!"Heap({index})"
  | .global id => s!"Global(GlobalId({id.raw}))"

/-- A short code for the kind of fault. -/
def Trap.code : Trap → String
  | .nullDeref => "NullDeref"
  | .nullCall => "NullCall"
  | .notCallable _ => "NotCallable"
  | .readOnlyWrite _ => "ReadOnlyWrite"
  | .outOfBounds _ => "OutOfBounds"
  | .dangling _ | .notAggregate _ _ | .missingBlock _ => "BadAccess"
  | .uninitializedRead => "UninitializedRead"
  | .unresolvedSymbol _ => "UnresolvedSymbol"
  | .unknownFunction _ => "UnknownFunction"
  | .mismatch _ _ | .unorderedAddresses | .incomparable _ _ => "TypeMismatch"
  | .arity _ _ _ => "Arity"
  | .unreachable => "Unreachable"
  | .unterminated _ => "Unterminated"
  | .outOfFuel => "OutOfFuel"
  | .stackOverflow => "StackOverflow"
  | .nestingLimit => "NestingLimit"
  | .endless => "Endless"
  | .host _ => "Host"

def Trap.message : Trap → String
  | .nullDeref => "null pointer dereference"
  | .nullCall => "call through a null function pointer"
  | .notCallable kind => "value of kind `" ++ kind.name ++ "` is not callable"
  | .readOnlyWrite global => "write to read-only global `" ++ global ++ "`"
  | .outOfBounds index => s!"out-of-bounds access at index {index}"
  | .dangling region => s!"invalid memory access: dangling region {region.debugText}"
  | .notAggregate kind p =>
    s!"invalid memory access: cannot index into {kind.name} at {p.render}"
  | .missingBlock id => s!"invalid memory access: no block {id.raw}"
  | .uninitializedRead => "read of uninitialized memory"
  | .unresolvedSymbol name => "unresolved external symbol `" ++ name ++ "`"
  | .unknownFunction id => s!"unknown function #{id.raw}"
  | .mismatch need found => s!"type mismatch: expected {need.name}, found {found.name}"
  | .unorderedAddresses => "type mismatch: ordered comparison of pointers"
  | .incomparable lhs rhs => s!"type mismatch: cannot compare {lhs.name} with {rhs.name}"
  | .arity function expected found =>
    "`" ++ function ++ s!"` expects {expected} arguments, got {found}"
  | .unreachable => "reached unreachable code"
  | .unterminated block => "block `" ++ block ++ "` has no terminator"
  | .outOfFuel => "instruction budget exhausted"
  | .stackOverflow => "call depth limit exceeded"
  | .nestingLimit => "call nesting limit exceeded"
  | .endless => "control never leaves a cycle of empty blocks"
  | .host message => s!"host function failed: {message}"

namespace Value

/-- The pointer, unless the value is null or none. -/
def asPointer : Value → Except Trap Pointer
  | .ptr target => .ok target
  | .null => .error .nullDeref
  | v => .error (.mismatch .pointer v.kind)

/-- The truth value; an integer is true unless it is zero. -/
def asBool : Value → Except Trap Bool
  | .bool b => .ok b
  | .int i => .ok (i != 0)
  | v => .error (.mismatch .bool v.kind)

/-- The integer; a truth value counts as zero or one. -/
def asInt : Value → Except Trap Int64
  | .int i => .ok i
  | .bool b => .ok (if b then 1 else 0)
  | v => .error (.mismatch .int v.kind)

def asFloat : Value → Except Trap Float
  | .float x => .ok x
  | v => .error (.mismatch .float v.kind)

def asText : Value → Except Trap String
  | .text s => .ok s
  | v => .error (.mismatch .text v.kind)

end Value

end ShapeCompiler.Machine
