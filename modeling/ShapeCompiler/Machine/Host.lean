import ShapeCompiler.Machine.View

/-!
Host functions: what the surroundings of the machine supply.

A host is a tree of requests to the machine. It may look at the state, log, allocate, write and
call back; it changes the machine in no other way.

- `Request` is the type of such trees, `Request.perform` in the next module carries them out.
- `Behaviour` lists ready-made hosts.
-/

namespace ShapeCompiler.Machine

open Code

/-- What a host left in the log. -/
inductive Entry where
  | number (value : Float)
  | truth (value : Bool)
  | text (value : String)
  | values (host : String) (views : List View)

/-- What a run changes. -/
structure State where
  memory : Memory
  /-- Instructions that may still be executed. -/
  fuel : Nat
  /-- Calls of module functions under way. -/
  depth : Nat := 0
  log : Array Entry := #[]

/-- What a host asks of the machine before it ends with a value or a trap. -/
inductive Request where
  | done (result : Except Trap Value)
  | look (next : State → Request)
  | log (entry : Entry) (next : Request)
  | alloc (value : Value) (next : Value → Request)
  | write (ptr value : Value) (next : Except Trap Unit → Request)
  /-- Calls the module function of a name. -/
  | run (function : String) (args : List Value) (next : Except Trap Value → Request)
  | callFunction (function : FuncId) (args : List Value) (next : Except Trap Value → Request)
  /-- Calls through a function address. -/
  | callValue (callee : Value) (args : List Value) (next : Except Trap Value → Request)

structure Host where
  name : String
  act : List Value → Request

namespace Request

def trap (t : Trap) : Request := .done (.error t)

def ret (v : Value) : Request := .done (.ok v)

/-- Logs what is read through the first argument, or null if there is none, and returns null. -/
def logRead {α : Type} (read : Value → Except Trap α) (entry : α → Entry) (args : List Value) :
    Request :=
  .look fun s =>
    match s.memory.load (args.headD .null) >>= read with
    | .ok a => .log (entry a) (.ret .null)
    | .error t => .trap t

end Request

/-- Ready-made hosts. -/
inductive Behaviour where
  /-- Logs the boxed number, truth value or text in the first argument. -/
  | logNumber
  | logTruth
  | logText
  /-- Logs the arguments with pointers followed. -/
  | logValues (depth : Nat)
  /-- Returns a new allocation. -/
  | box (value : Value)
  | constant (value : Value)
  | argument (index : Nat)
  /-- Calls the closure in the first argument. -/
  | callClosure
  | fail (message : String)

def Behaviour.act (host : String) : Behaviour → List Value → Request
  | .logNumber => Request.logRead Value.asFloat .number
  | .logTruth => Request.logRead Value.asBool .truth
  | .logText => Request.logRead Value.asText .text
  | .logValues depth => fun args => .look fun s =>
    .log (.values host (args.map (View.ofValue s.memory depth))) (.ret .null)
  | .box value => fun _ => .alloc value .ret
  | .constant value => fun _ => .ret value
  | .argument index => fun args =>
    (args[index]?).elim (.trap (.host "no such argument")) .ret
  | .callClosure => fun args => .run closureCallName [args.headD .null] .done
  | .fail message => fun _ => .trap (.host message)

end ShapeCompiler.Machine
