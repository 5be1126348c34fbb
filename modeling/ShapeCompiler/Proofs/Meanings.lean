import Mathlib.Data.List.Forall2
import ShapeCompiler.Machine.Run
import ShapeCompiler.Proofs.Specializations

/-!
# What programs mean

The meaning of programs that have no functions of their own, given on their syntax. Variables hold
numbers, texts and truth values, and what can be seen of a run is which functions from outside are
called, with what.

* `Program.FirstOrder`: these programs, with `Program.HasType` and `Program.Admits` for their
  expressions and statements;
* `Program.Evaluates`: what an expression gives, and what it leaves in the variables;
* `Program.Executes`: the calls of a statement, if it comes to an end;
* `Program.Evaluates.exists`, `Program.Evaluates.typed`: an expression that has a type gives a
  scalar, and of that type.
-/

namespace ShapeCompiler.Source

open Machine

/-! ## Scalars -/

/-- The types of scalars. -/
inductive Prim where
  | number
  | text
  | boolean
  deriving DecidableEq, Repr

namespace Prim

def type : Prim → TypeExpr
  | .number => .number
  | .text => .text
  | .boolean => .boolean

def info : Prim → Info
  | .number => .number
  | .text => .text
  | .boolean => .boolean

end Prim

inductive Scalar where
  | number (x : Float)
  | text (s : String)
  | boolean (b : Bool)

namespace Scalar

def prim : Scalar → Prim
  | .number _ => .number
  | .text _ => .text
  | .boolean _ => .boolean

/-- Zero, the empty text and false do not count as true. -/
def truthy : Scalar → Bool
  | .number x => floatOrder x 0.0 ≠ some .eq
  | .text s => s ≠ ""
  | .boolean b => b

/-- Scalars of one type are compared by value. What is not a number is not the same as itself. -/
def same : Scalar → Scalar → Bool
  | .number x, .number y => floatOrder x y = some .eq
  | .text s, .text t => s = t
  | .boolean a, .boolean b => a = b
  | _, _ => false

end Scalar

/-! ## Operators -/

namespace BinaryOp

/-- The type of what an operator gives that computes both its sides, where these are of one type. -/
def result? : BinaryOp → Prim → Option Prim
  | .add, .text => some .text
  | .add, .number | .sub, .number | .mul, .number | .div, .number => some .number
  | .lt, .number | .gt, .number | .le, .number | .ge, .number => some .boolean
  | .strictEq, _ | .strictNe, _ => some .boolean
  | _, _ => none

/-- What an operator gives that computes both its sides. Numbers that are not ordered are neither
less than each other nor greater nor equal. -/
def combine? : BinaryOp → Scalar → Scalar → Option Scalar
  | .add, .text s, .text t => some (.text (s ++ t))
  | .add, .number x, .number y => some (.number (x + y))
  | .sub, .number x, .number y => some (.number (x - y))
  | .mul, .number x, .number y => some (.number (x * y))
  | .div, .number x, .number y => some (.number (x / y))
  | .lt, .number x, .number y => some (.boolean (floatOrder x y = some .lt))
  | .gt, .number x, .number y => some (.boolean (floatOrder x y = some .gt))
  | .le, .number x, .number y =>
    some (.boolean (floatOrder x y = some .lt ∨ floatOrder x y = some .eq))
  | .ge, .number x, .number y =>
    some (.boolean (floatOrder x y = some .gt ∨ floatOrder x y = some .eq))
  | .strictEq, a, b => some (.boolean (a.same b))
  | .strictNe, a, b => some (.boolean (!a.same b))
  | _, _, _ => none

/-- Whether an operator that may do without its right side computes it, given whether the left one
counts as true. -/
def goesOn? : BinaryOp → Bool → Option Bool
  | .and, left => some left
  | .or, left => some (!left)
  | _, _ => none

theorem exists_goesOn? {op : BinaryOp} (isLogical : op = .and ∨ op = .or) (left : Bool) :
    ∃ goesOn, op.goesOn? left = some goesOn := by
  rcases isLogical with rfl | rfl <;> exact ⟨_, rfl⟩

/-- No operator that may do without its right side computes both sides in any case. -/
theorem result?_of_goesOn? {op : BinaryOp} {left goesOn : Bool}
    (decides : op.goesOn? left = some goesOn)
    (σ : Prim) : op.result? σ = none := by
  cases op <;> cases decides <;> cases σ <;> rfl

/-- Operands of one type for which there is a result have it. -/
theorem exists_combine? {op : BinaryOp} {a b : Scalar} {τ : Prim} (same : a.prim = b.prim)
    (result : op.result? a.prim = some τ) : ∃ c, op.combine? a b = some c ∧ c.prim = τ := by
  cases a <;> cases b <;> cases same <;> cases op <;> cases result <;> exact ⟨_, rfl, rfl⟩

end BinaryOp

/-- The number after an update, and what the update gives: the number after it or the one before. -/
def UnaryOp.update? : UnaryOp → Float → Option (Float × Float)
  | .preInc, x => some (x + 1.0, x + 1.0)
  | .preDec, x => some (x - 1.0, x - 1.0)
  | .postInc, x => some (x + 1.0, x)
  | .postDec, x => some (x - 1.0, x)
  | _, _ => none

theorem UnaryOp.exists_update? {op : UnaryOp} (isUpdate : op.isUpdate) (x : Float) :
    ∃ new result, op.update? x = some (new, result) := by
  cases op with
  | neg | not => cases isUpdate
  | _ => exact ⟨_, _, rfl⟩

/-! ## Variables -/

/-- The variables that are in view, the innermost first, so that it hides others of its name. -/
abbrev Variables := List (Name × Scalar)

/-- The variables that are in view, with their types. -/
abbrev Typing := List (Name × Prim)

namespace Variables

def typing (vars : Variables) : Typing := vars.map fun e => (e.1, e.2.prim)

/-- The variables that are left at the end of a block, of which these were there before it. -/
def leave (inner before : Variables) : Variables := inner.drop (inner.length - before.length)

theorem find?_typing (n : Name) (vars : Variables) :
    Table.find? n vars.typing = (Table.find? n vars).map Scalar.prim :=
  Table.find?_map n Scalar.prim vars

/-- A variable that is in view keeps its place and its type when it gets a value of its type. -/
theorem typing_put {n : Name} {v : Scalar} {vars : Variables}
    (known : Table.find? n vars.typing = some v.prim) :
    typing (Table.put n v vars) = vars.typing := by
  induction vars with
  | nil => cases known
  | cons e rest ih =>
    obtain ⟨m, u⟩ := e
    change (if m = n then some u.prim else Table.find? n (typing rest)) = some v.prim at known
    change typing (if m = n then (n, v) :: rest else (m, u) :: Table.put n v rest) = _
    split
    · rename_i isName
      rw [if_pos isName] at known
      simp [typing, isName, Option.some.inj known]
    · rename_i other
      rw [if_neg other] at known
      change (m, u.prim) :: typing (Table.put n v rest) = (m, u.prim) :: typing rest
      rw [ih known]

end Variables

/-! ## Expressions -/

namespace Program

variable {p : Program}

/-- Literals, variables and operators, and the type of what they give. -/
inductive HasType (p : Program) (Γ : Typing) : ExprKind → Prim → Prop
  | number {x : Float} : HasType p Γ (.number x) .number
  | text {s : Name} : HasType p Γ (.text s) .text
  | bool {b : Bool} : HasType p Γ (.bool b) .boolean
  | name {n : Name} {τ : Prim} (known : Table.find? n Γ = some τ) : HasType p Γ (.ident n) τ
  | assign {target value : ExprId} {n : Name} {τ : Prim} (isName : (p.expr target).kind = .ident n)
    (known : Table.find? n Γ = some τ) (ofType : HasType p Γ (p.expr value).kind τ) :
    HasType p Γ (.assign target value) τ
  | neg {operand : ExprId} (ofType : HasType p Γ (p.expr operand).kind .number) :
    HasType p Γ (.unary .neg operand) .number
  | not {operand : ExprId} {σ : Prim} (ofType : HasType p Γ (p.expr operand).kind σ) :
    HasType p Γ (.unary .not operand) .boolean
  | update {operand : ExprId} {op : UnaryOp} {n : Name} (isUpdate : op.isUpdate)
    (isName : (p.expr operand).kind = .ident n) (known : Table.find? n Γ = some .number) :
    HasType p Γ (.unary op operand) .number
  /-- The operator computes both sides. -/
  | strict {lhs rhs : ExprId} {op : BinaryOp} {σ τ : Prim} (result : op.result? σ = some τ)
    (left : HasType p Γ (p.expr lhs).kind σ) (right : HasType p Γ (p.expr rhs).kind σ) :
    HasType p Γ (.binary op lhs rhs) τ
  /-- The operator may do without its right side. -/
  | logical {lhs rhs : ExprId} {op : BinaryOp} {σ σ' : Prim} (isLogical : op = .and ∨ op = .or)
    (left : HasType p Γ (p.expr lhs).kind σ) (right : HasType p Γ (p.expr rhs).kind σ') :
    HasType p Γ (.binary op lhs rhs) .boolean

/-- With these variables the expression gives the scalar, and leaves those. -/
inductive Evaluates (p : Program) : Variables → ExprKind → Scalar → Variables → Prop
  | number {vars : Variables} {x : Float} : Evaluates p vars (.number x) (.number x) vars
  | text {vars : Variables} {s : Name} : Evaluates p vars (.text s) (.text (p.text s)) vars
  | bool {vars : Variables} {b : Bool} : Evaluates p vars (.bool b) (.boolean b) vars
  | name {vars : Variables} {n : Name} {v : Scalar} (holds : Table.find? n vars = some v) :
    Evaluates p vars (.ident n) v vars
  | assign {vars vars' : Variables} {target value : ExprId} {n : Name} {v : Scalar}
    (isName : (p.expr target).kind = .ident n)
    (gives : Evaluates p vars (p.expr value).kind v vars') :
    Evaluates p vars (.assign target value) v (Table.put n v vars')
  | neg {vars vars' : Variables} {operand : ExprId} {x : Float}
    (gives : Evaluates p vars (p.expr operand).kind (.number x) vars') :
    Evaluates p vars (.unary .neg operand) (.number (-x)) vars'
  | not {vars vars' : Variables} {operand : ExprId} {v : Scalar}
    (gives : Evaluates p vars (p.expr operand).kind v vars') :
    Evaluates p vars (.unary .not operand) (.boolean !v.truthy) vars'
  | update {vars : Variables} {operand : ExprId} {op : UnaryOp} {n : Name} {old new result : Float}
    (isName : (p.expr operand).kind = .ident n) (holds : Table.find? n vars = some (.number old))
    (changes : op.update? old = some (new, result)) :
    Evaluates p vars (.unary op operand) (.number result) (Table.put n (.number new) vars)
  | strict {vars vars₁ vars₂ : Variables} {lhs rhs : ExprId} {op : BinaryOp} {a b c : Scalar}
    (left : Evaluates p vars (p.expr lhs).kind a vars₁)
    (right : Evaluates p vars₁ (p.expr rhs).kind b vars₂)
    (gives : op.combine? a b = some c) : Evaluates p vars (.binary op lhs rhs) c vars₂
  /-- The left side decides. -/
  | decided {vars vars' : Variables} {lhs rhs : ExprId} {op : BinaryOp} {a : Scalar}
    (left : Evaluates p vars (p.expr lhs).kind a vars') (stops : op.goesOn? a.truthy = some false) :
    Evaluates p vars (.binary op lhs rhs) (.boolean a.truthy) vars'
  | undecided {vars vars₁ vars₂ : Variables} {lhs rhs : ExprId} {op : BinaryOp} {a b : Scalar}
    (left : Evaluates p vars (p.expr lhs).kind a vars₁) (goesOn : op.goesOn? a.truthy = some true)
    (right : Evaluates p vars₁ (p.expr rhs).kind b vars₂) :
    Evaluates p vars (.binary op lhs rhs) (.boolean b.truthy) vars₂

/-- Some expressions, one after the other. -/
inductive EvaluatesAll (p : Program) : Variables → List ExprId → List Scalar → Variables → Prop
  | nil {vars : Variables} : EvaluatesAll p vars [] [] vars
  | cons {vars vars₁ vars₂ : Variables} {e : ExprId} {es : List ExprId} {v : Scalar}
    {vs : List Scalar}
    (first : Evaluates p vars (p.expr e).kind v vars₁) (others : EvaluatesAll p vars₁ es vs vars₂) :
    EvaluatesAll p vars (e :: es) (v :: vs) vars₂

/-- What an expression gives is of its type, and the variables keep their types. -/
theorem Evaluates.typed {vars vars' : Variables} {k : ExprKind} {v : Scalar}
    (gives : p.Evaluates vars k v vars') :
    ∀ {Γ : Typing} {τ : Prim}, vars.typing = Γ → p.HasType Γ k τ → v.prim = τ ∧
    vars'.typing = Γ := by
  induction gives with
  | number | text | bool =>
    intro Γ τ typed ofType
    cases ofType
    exact ⟨rfl, typed⟩
  | name holds =>
    intro Γ τ typed ofType
    cases ofType with | name known => ?_
    rw [← typed, Variables.find?_typing, holds] at known
    exact ⟨Option.some.inj known, typed⟩
  | assign isName _ ih =>
    intro Γ τ typed ofType
    cases ofType with | assign isName' known ofType => ?_
    cases isName.symm.trans isName'
    obtain ⟨rfl, typed'⟩ := ih typed ofType
    exact ⟨rfl, (Variables.typing_put (typed' ▸ known)).trans typed'⟩
  | neg _ ih =>
    intro Γ τ typed ofType
    cases ofType with
    | neg ofType => exact ⟨rfl, (ih typed ofType).2⟩
    | update isUpdate => cases isUpdate
  | not _ ih =>
    intro Γ τ typed ofType
    cases ofType with
    | not ofType => exact ⟨rfl, (ih typed ofType).2⟩
    | update isUpdate => cases isUpdate
  | update isName holds changes =>
    intro Γ τ typed ofType
    cases ofType with
    | neg => cases changes
    | not => cases changes
    | update isUpdate isName' known =>
      cases isName.symm.trans isName'
      exact ⟨rfl, (Variables.typing_put (v := .number _) (typed ▸ known)).trans typed⟩
  | @strict _ _ _ _ _ op a b c _ _ applied left right =>
    intro Γ τ typed ofType
    cases ofType with
    | strict result ofLeft ofRight =>
      obtain ⟨rfl, typed₁⟩ := left typed ofLeft
      obtain ⟨same, typed₂⟩ := right typed₁ ofRight
      obtain ⟨c', applied', isPrim⟩ := BinaryOp.exists_combine? same.symm result
      cases applied.symm.trans applied'
      exact ⟨isPrim, typed₂⟩
    | logical isLogical => rcases isLogical with rfl | rfl <;> cases a <;> cases b <;> cases applied
  | decided _ stops left =>
    intro Γ τ typed ofType
    cases ofType with
    | @strict _ _ _ σ _ result =>
      exact absurd result (BinaryOp.result?_of_goesOn? stops σ ▸ by simp)
    | logical _ ofLeft => exact ⟨rfl, (left typed ofLeft).2⟩
  | undecided _ goesOn _ left right =>
    intro Γ τ typed ofType
    cases ofType with
    | @strict _ _ _ σ _ result =>
      exact absurd result (BinaryOp.result?_of_goesOn? goesOn σ ▸ by simp)
    | logical _ ofLeft ofRight => exact ⟨rfl, (right (left typed ofLeft).2 ofRight).2⟩

/-- An expression that has a type gives something. -/
theorem Evaluates.exists {Γ : Typing} {k : ExprKind} {τ : Prim} (ofType : p.HasType Γ k τ)
    {vars : Variables} (typed : vars.typing = Γ) : ∃ v vars', p.Evaluates vars k v vars' := by
  induction ofType generalizing vars with
  | number => exact ⟨_, _, .number⟩
  | text => exact ⟨_, _, .text⟩
  | bool => exact ⟨_, _, .bool⟩
  | name known =>
    rw [← typed, Variables.find?_typing] at known
    obtain ⟨v, holds, _⟩ := Option.map_eq_some_iff.mp known
    exact ⟨v, _, .name holds⟩
  | assign isName known _ ih =>
    obtain ⟨v, vars', gives⟩ := ih typed
    exact ⟨v, _, .assign isName gives⟩
  | neg ofType ih =>
    obtain ⟨v, vars', gives⟩ := ih typed
    obtain ⟨isNumber, _⟩ := gives.typed typed ofType
    cases v <;> cases isNumber
    exact ⟨_, _, .neg gives⟩
  | not _ ih =>
    obtain ⟨v, vars', gives⟩ := ih typed
    exact ⟨_, _, .not gives⟩
  | update isUpdate isName known =>
    subst typed
    obtain ⟨v, holds, isPrim⟩ := Option.map_eq_some_iff.mp (Variables.find?_typing _ _ ▸ known)
    cases v <;> cases isPrim
    obtain ⟨new, result, changes⟩ := UnaryOp.exists_update? isUpdate _
    exact ⟨_, _, .update isName holds changes⟩
  | strict result ofLeft ofRight left right =>
    obtain ⟨a, vars₁, gives₁⟩ := left typed
    obtain ⟨rfl, typed₁⟩ := gives₁.typed typed ofLeft
    obtain ⟨b, vars₂, gives₂⟩ := right typed₁
    obtain ⟨same, _⟩ := gives₂.typed typed₁ ofRight
    obtain ⟨c, applied, _⟩ := BinaryOp.exists_combine? same.symm result
    exact ⟨c, _, .strict gives₁ gives₂ applied⟩
  | logical isLogical ofLeft ofRight left right =>
    obtain ⟨a, vars₁, gives₁⟩ := left typed
    obtain ⟨b, vars₂, gives₂⟩ := right (gives₁.typed typed ofLeft).2
    obtain ⟨goesOn, decides⟩ := BinaryOp.exists_goesOn? isLogical a.truthy
    cases goesOn with
    | false => exact ⟨_, _, .decided gives₁ decides⟩
    | true => exact ⟨_, _, .undecided gives₁ decides gives₂⟩

/-- So do some expressions, one after the other. -/
theorem EvaluatesAll.exists {Γ : Typing} {es : List ExprId} {τs : List Prim}
    (ofTypes : List.Forall₂ (fun e τ => p.HasType Γ (p.expr e).kind τ) es τs) {vars : Variables}
    (typed : vars.typing = Γ) : ∃ vs vars', p.EvaluatesAll vars es vs vars' := by
  induction ofTypes generalizing vars with
  | nil => exact ⟨_, _, .nil⟩
  | cons ofType _ ih =>
    obtain ⟨v, vars₁, first⟩ := Evaluates.exists ofType typed
    obtain ⟨vs, vars₂, others⟩ := ih (first.typed typed ofType).2
    exact ⟨_, _, .cons first others⟩

/-! ## Statements -/

/-- The functions that some statements declare. -/
def functionsOf (p : Program) (ids : List StmtId) : List DeclId :=
  ids.filterMap fun id => match (p.stmt id).kind with
    | .function d => some d
    | _ => none

/-- The functions that the statements at the top declare. -/
def ambients (p : Program) : List DeclId := p.functionsOf p.entry

/-- The declaration is that of a function from outside that gives nothing, with parameters of these
types. -/
structure Ambient (p : Program) (d : DeclId) (τs : List Prim) : Prop where
  isAmbient : Resolver.isAmbient p d = true
  signature : ∃ f ret, p.function d = .ok f ∧ f.owner = none ∧ f.ret = some ret ∧
    p.types.get ret = .void ∧
    List.Forall₂ (fun q τ => ∃ param, p.param q = .ok param ∧ p.types.get param.ty = Prim.type τ)
      f.params τs

/-- What is executed: a statement, or some one after the other. -/
inductive Part where
  | stmt (kind : StmtKind)
  | stmts (ids : List StmtId)

/-- The part stands where the first variables are in view, and leaves the second: new variables with
their start values, expressions, branches, loops and blocks, and calls of functions from outside.
Functions are declared at the top only. -/
inductive Admits (p : Program) : (top : Bool) → Typing → Part → Typing → Prop
  | done {top : Bool} {Γ : Typing} : Admits p top Γ (.stmts []) Γ
  | next {top : Bool} {Γ Γ₁ Γ₂ : Typing} {id : StmtId} {rest : List StmtId}
    (first : Admits p top Γ (.stmt (p.stmt id).kind) Γ₁)
    (others : Admits p top Γ₁ (.stmts rest) Γ₂) :
    Admits p top Γ (.stmts (id :: rest)) Γ₂
  | function {Γ : Typing} {d : DeclId} : Admits p true Γ (.stmt (.function d)) Γ
  | bind {top : Bool} {Γ : Typing} {d : DeclId} {e : ExprId} {decl : Decl}
    {ty : Option TypeId} {τ : Prim}
    (isDecl : p.decl d = .ok decl) (isBinding : decl.kind = .binding ty)
    (annotated : ∀ t, ty = some t → p.types.get t = τ.type)
    (start : p.HasType Γ (p.expr e).kind τ) :
    Admits p top Γ (.stmt (.bind d (some e))) ((decl.name, τ) :: Γ)
  | expr {top : Bool} {Γ : Typing} {e : ExprId} {τ : Prim}
    (ofType : p.HasType Γ (p.expr e).kind τ) :
    Admits p top Γ (.stmt (.expr e)) Γ
  | call {top : Bool} {Γ : Typing} {e callee : ExprId} {args : List ExprId} {target : Option DeclId}
    {d : DeclId} {decl : Decl} {τs : List Prim}
    (isCall : (p.expr e).kind = .call callee args target)
    (isName : (p.expr callee).kind = .ident decl.name) (free : Table.find? decl.name Γ = none)
    (declared : d ∈ p.ambients) (isDecl : p.decl d = .ok decl) (ambient : p.Ambient d τs)
    (ofTypes : List.Forall₂ (fun a τ => p.HasType Γ (p.expr a).kind τ) args τs) :
    Admits p top Γ (.stmt (.expr e)) Γ
  | branch {top : Bool} {Γ Γ₁ Γ₂ : Typing} {cond : ExprId} {yes no : List StmtId} {τ : Prim}
    (ofType : p.HasType Γ (p.expr cond).kind τ) (taken : Admits p false Γ (.stmts yes) Γ₁)
    (passed : Admits p false Γ (.stmts no) Γ₂) : Admits p top Γ (.stmt (.branch cond yes no)) Γ
  | loop {top : Bool} {Γ Γ₁ : Typing} {cond : ExprId} {body : List StmtId} {τ : Prim}
    (ofType : p.HasType Γ (p.expr cond).kind τ) (inner : Admits p false Γ (.stmts body) Γ₁) :
    Admits p top Γ (.stmt (.loop cond body)) Γ
  | block {top : Bool} {Γ Γ₁ : Typing} {body : List StmtId}
    (inner : Admits p false Γ (.stmts body) Γ₁) :
    Admits p top Γ (.stmt (.block body)) Γ

/-- The program has no functions but those from outside, which are told apart by their names, and
also from the function that holds the statements at the top and the one that calls closures. -/
structure FirstOrder (p : Program) (entryName : String) : Prop where
  admitted : ∃ Γ, p.Admits true [] (.stmts p.entry) Γ
  ambient : ∀ d ∈ p.ambients, ∃ τs, p.Ambient d τs
  distinct : (p.ambients.map p.declName).Nodup
  apart : ∀ d ∈ p.ambients, p.declName d ≠ entryName ∧ p.declName d ≠ Code.closureCallName

/-- A call of a function from outside. -/
structure AmbientCall where
  callee : DeclId
  args : List Scalar

/-- With these variables the part comes to its end with these calls, and leaves those variables. -/
inductive Executes (p : Program) : Variables → Part → List AmbientCall → Variables → Prop
  | done {vars : Variables} : Executes p vars (.stmts []) [] vars
  | next {vars vars₁ vars₂ : Variables} {id : StmtId} {rest : List StmtId}
    {calls calls' : List AmbientCall}
    (first : Executes p vars (.stmt (p.stmt id).kind) calls vars₁)
    (others : Executes p vars₁ (.stmts rest) calls' vars₂) :
    Executes p vars (.stmts (id :: rest)) (calls ++ calls') vars₂
  | function {vars : Variables} {d : DeclId} : Executes p vars (.stmt (.function d)) [] vars
  | bind {vars vars' : Variables} {d : DeclId} {e : ExprId} {decl : Decl} {v : Scalar}
    (isDecl : p.decl d = .ok decl) (start : p.Evaluates vars (p.expr e).kind v vars') :
    Executes p vars (.stmt (.bind d (some e))) [] ((decl.name, v) :: vars')
  | expr {vars vars' : Variables} {e : ExprId} {v : Scalar}
    (gives : p.Evaluates vars (p.expr e).kind v vars') : Executes p vars (.stmt (.expr e)) [] vars'
  | call {vars vars' : Variables} {e callee : ExprId} {args : List ExprId} {target : Option DeclId}
    {d : DeclId} {decl : Decl} {vs : List Scalar}
    (isCall : (p.expr e).kind = .call callee args target)
    (isName : (p.expr callee).kind = .ident decl.name) (free : Table.find? decl.name vars = none)
    (declared : d ∈ p.ambients) (isDecl : p.decl d = .ok decl)
    (given : p.EvaluatesAll vars args vs vars') :
    Executes p vars (.stmt (.expr e)) [⟨d, vs⟩] vars'
  | branch {vars vars₁ vars₂ : Variables} {cond : ExprId} {yes no : List StmtId} {v : Scalar}
    {calls : List AmbientCall} (tested : p.Evaluates vars (p.expr cond).kind v vars₁)
    (taken : Executes p vars₁ (.stmts (if v.truthy then yes else no)) calls vars₂) :
    Executes p vars (.stmt (.branch cond yes no)) calls (vars₂.leave vars₁)
  | block {vars vars' : Variables} {body : List StmtId} {calls : List AmbientCall}
    (inner : Executes p vars (.stmts body) calls vars') :
    Executes p vars (.stmt (.block body)) calls (vars'.leave vars)
  | stop {vars vars' : Variables} {cond : ExprId} {body : List StmtId} {v : Scalar}
    (tested : p.Evaluates vars (p.expr cond).kind v vars') (isFalse : v.truthy = false) :
    Executes p vars (.stmt (.loop cond body)) [] vars'
  | turn {vars vars₁ vars₂ vars₃ : Variables} {cond : ExprId} {body : List StmtId} {v : Scalar}
    {calls calls' : List AmbientCall} (tested : p.Evaluates vars (p.expr cond).kind v vars₁)
    (isTrue : v.truthy = true) (inner : Executes p vars₁ (.stmts body) calls vars₂)
    (again : Executes p (vars₂.leave vars₁) (.stmt (.loop cond body)) calls' vars₃) :
    Executes p vars (.stmt (.loop cond body)) (calls ++ calls') vars₃

theorem declName_of_decl {d : DeclId} {decl : Decl} (isDecl : p.decl d = .ok decl) :
    p.declName d = p.text decl.name := by
  unfold Program.decl at isDecl
  unfold declName
  split at isDecl <;> cases isDecl
  simp [*]

section

variable {vars vars' : Variables} {calls : List AmbientCall} {e cond : ExprId}
  {body yes no rest : List StmtId}
  {id : StmtId} {d : DeclId} {decl : Decl}

theorem executes_done : p.Executes vars (.stmts []) calls vars' ↔ calls = [] ∧ vars' = vars := by
  constructor
  · rintro ⟨⟩
    exact ⟨rfl, rfl⟩
  · rintro ⟨rfl, rfl⟩
    exact .done

theorem executes_next : p.Executes vars (.stmts (id :: rest)) calls vars' ↔ ∃ c₁ vars₁ c₂,
    p.Executes vars (.stmt (p.stmt id).kind) c₁ vars₁ ∧ p.Executes vars₁ (.stmts rest) c₂ vars' ∧
      calls = c₁ ++ c₂ := by
  constructor
  · rintro ⟨⟩
    exact ⟨_, _, _, ‹_›, ‹_›, rfl⟩
  · rintro ⟨c₁, vars₁, c₂, first, others, rfl⟩
    exact .next first others

theorem executes_function : p.Executes vars (.stmt (.function d)) calls vars' ↔ calls = [] ∧
    vars' = vars := by
  constructor
  · rintro ⟨⟩
    exact ⟨rfl, rfl⟩
  · rintro ⟨rfl, rfl⟩
    exact .function

theorem executes_bind (isDecl : p.decl d = .ok decl) :
    p.Executes vars (.stmt (.bind d (some e))) calls vars' ↔ ∃ v vars₁,
      p.Evaluates vars (p.expr e).kind v vars₁ ∧ calls = [] ∧ vars' = (decl.name, v) :: vars₁ := by
  constructor
  · intro done
    cases done with | bind isDecl' start => ?_
    cases isDecl.symm.trans isDecl'
    exact ⟨_, _, start, rfl, rfl⟩
  · rintro ⟨v, vars₁, start, rfl, rfl⟩
    exact .bind isDecl start

/-- An expression that has a type is no call. -/
theorem executes_expr {Γ : Typing} {τ : Prim} (ofType : p.HasType Γ (p.expr e).kind τ) :
    p.Executes vars (.stmt (.expr e)) calls vars' ↔ ∃ v, p.Evaluates vars (p.expr e).kind v vars' ∧
      calls = [] := by
  constructor
  · intro done
    cases done with
    | expr gives => exact ⟨_, gives, rfl⟩
    | call isCall =>
      rw [isCall] at ofType
      cases ofType
  · rintro ⟨v, gives, rfl⟩
    exact .expr gives

/-- Where functions from outside are told apart by their names, a call is that of the one it
names. -/
theorem executes_call {callee : ExprId} {args : List ExprId} {target : Option DeclId}
    (distinct : (p.ambients.map p.declName).Nodup)
    (isCall : (p.expr e).kind = .call callee args target)
    (isName : (p.expr callee).kind = .ident decl.name) (free : Table.find? decl.name vars = none)
    (declared : d ∈ p.ambients) (isDecl : p.decl d = .ok decl) :
    p.Executes vars (.stmt (.expr e)) calls vars' ↔ ∃ vs, p.EvaluatesAll vars args vs vars' ∧
      calls = [⟨d, vs⟩] := by
  constructor
  · intro done
    cases done with
    | expr gives =>
      rw [isCall] at gives
      cases gives
    | @call _ _ _ _ _ _ d' decl' vs isCall' isName' _ declared' isDecl' given =>
      cases isCall.symm.trans isCall'
      have sameName : decl.name = decl'.name := ExprKind.ident.inj (isName.symm.trans isName')
      have sameText : p.declName d = p.declName d' := by
        rw [declName_of_decl isDecl, declName_of_decl isDecl', sameName]
      cases List.inj_on_of_nodup_map distinct declared declared' sameText
      exact ⟨vs, given, rfl⟩
  · rintro ⟨vs, given, rfl⟩
    exact .call isCall isName free declared isDecl given

theorem executes_block : p.Executes vars (.stmt (.block body)) calls vars' ↔ ∃ inside,
    p.Executes vars (.stmts body) calls inside ∧ vars' = inside.leave vars := by
  constructor
  · intro done
    cases done with | block inner => exact ⟨_, inner, rfl⟩
  · rintro ⟨inside, inner, rfl⟩
    exact .block inner

/-- The test decides which block is executed. -/
theorem executes_branch : p.Executes vars (.stmt (.branch cond yes no)) calls vars' ↔
    ∃ start : Scalar × Variables, p.Evaluates vars (p.expr cond).kind start.1 start.2 ∧
      p.Executes start.2 (.stmt (.block (if start.1.truthy then yes else no))) calls vars' := by
  constructor
  · intro done
    cases done with | @branch _ vars₁ _ _ _ _ v _ tested taken =>
      exact ⟨(v, vars₁), tested, .block taken⟩
  · rintro ⟨⟨v, vars₁⟩, tested, taken⟩
    obtain ⟨inside, executed, rfl⟩ := executes_block.mp taken
    exact .branch tested executed

end

/-- The program comes to its end with these calls. -/
def Runs (p : Program) (calls : List AmbientCall) : Prop :=
    ∃ vars, p.Executes [] (.stmts p.entry) calls vars

end Program

end ShapeCompiler.Source
