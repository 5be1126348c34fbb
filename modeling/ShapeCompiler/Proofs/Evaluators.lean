import ShapeCompiler.Proofs.Meanings
import ShapeCompiler.Proofs.Signatures

/-!
# Meanings that are computed

What a first-order program means can be computed. Programs are graphs of nodes and need not come to
an end, so the computation is told how deep it may go.

* `Program.value?`: what an expression gives, and `Program.evaluates_iff`: it is what is computed at
  some depth;
* `Program.calls?`: the calls of a statement, and `Program.executes_iff`;
* `Program.Runs.unique`: a program has one meaning;
* `Program.isFirstOrder`: a test for first-order programs.
-/

namespace ShapeCompiler.Source

def Scalar.number? : Scalar → Option Float
  | .number x => some x
  | _ => none

theorem Scalar.number?_eq_some_iff {v : Scalar} {x : Float} :
    v.number? = some x ↔ v = .number x := by
  cases v <;> simp [number?]

/-- An operator that computes both its sides does so in any case. -/
theorem BinaryOp.goesOn?_of_combine? {op : BinaryOp} {a b c : Scalar}
    (applied : op.combine? a b = some c)
    (left : Bool) : op.goesOn? left = none := by
  cases op with
  | and | or => cases a <;> cases b <;> cases applied
  | _ => rfl

theorem forall₂_of_mapM {α β : Type} {f : α → Option β} {as : List α} {bs : List β}
    (h : as.mapM f = some bs) :
    List.Forall₂ (fun a b => f a = some b) as bs := by
  induction as generalizing bs with
  | nil =>
    cases h
    exact .nil
  | cons a as ih =>
    rw [List.mapM_cons] at h
    obtain ⟨b, first, h⟩ := Option.bind_eq_some_iff.mp h
    obtain ⟨bs, others, last⟩ := Option.bind_eq_some_iff.mp h
    cases last
    exact .cons first (ih others)

/-- From some depth on this is computed. -/
def Settles {α : Type} (computes : Nat → Option α) (a : α) : Prop :=
  ∃ depth, ∀ n, depth ≤ n → computes n = some a

namespace Settles

variable {α : Type} {computes : Nat → Option α} {a b : α}

theorem deeper (depth : Nat) (h : ∀ n, depth ≤ n → computes (n + 1) = some a) :
    Settles computes a := by
  refine ⟨depth + 1, fun n le => ?_⟩
  obtain ⟨m, rfl⟩ : ∃ m, n = m + 1 := ⟨n - 1, by omega⟩
  exact h m (by omega)

theorem unique (h : Settles computes a) (h' : Settles computes b) : a = b := by
  obtain ⟨m, isA⟩ := h
  obtain ⟨n, isB⟩ := h'
  have both := (isA (max m n) (by omega)).symm.trans (isB (max m n) (by omega))
  exact Option.some.inj both

theorem computed (h : Settles computes a) : ∃ depth, computes depth = some a :=
  h.elim fun depth settled => ⟨depth, settled depth (Nat.le_refl _)⟩

end Settles

namespace Program

variable {p : Program}

/-- The name that an expression is. -/
def name? (p : Program) (e : ExprId) : Option Name :=
  match (p.expr e).kind with
  | .ident n => some n
  | _ => none

theorem name?_eq_some_iff {e : ExprId} {n : Name} :
    p.name? e = some n ↔ (p.expr e).kind = .ident n := by
  unfold name?
  cases (p.expr e).kind <;> simp

/-! ## Expressions -/

/-- What an expression gives, and what it leaves in the variables. -/
def value? (p : Program) : Nat → Variables → ExprKind → Option (Scalar × Variables)
  | 0, _, _ => none
  | _ + 1, vars, .number x => some (.number x, vars)
  | _ + 1, vars, .text s => some (.text (p.text s), vars)
  | _ + 1, vars, .bool b => some (.boolean b, vars)
  | _ + 1, vars, .ident n => (Table.find? n vars).map (·, vars)
  | depth + 1, vars, .assign target value => do
    let n ← p.name? target
    let (v, vars) ← p.value? depth vars (p.expr value).kind
    return (v, Table.put n v vars)
  | depth + 1, vars, .unary .neg operand => do
    let (v, vars) ← p.value? depth vars (p.expr operand).kind
    return (.number (-(← v.number?)), vars)
  | depth + 1, vars, .unary .not operand => do
    let (v, vars) ← p.value? depth vars (p.expr operand).kind
    return (.boolean !v.truthy, vars)
  | _ + 1, vars, .unary op operand => do
    let n ← p.name? operand
    let old ← (← Table.find? n vars).number?
    let (new, result) ← op.update? old
    return (.number result, Table.put n (.number new) vars)
  | depth + 1, vars, .binary op lhs rhs => do
    let (a, vars) ← p.value? depth vars (p.expr lhs).kind
    match op.goesOn? a.truthy with
    | some false => return (.boolean a.truthy, vars)
    | some true => do
      let (b, vars) ← p.value? depth vars (p.expr rhs).kind
      return (.boolean b.truthy, vars)
    | none => do
      let (b, vars) ← p.value? depth vars (p.expr rhs).kind
      return (← op.combine? a b, vars)
  | _ + 1, _, _ => none

theorem evaluates_of_value? {depth : Nat} {vars vars' : Variables} {k : ExprKind} {v : Scalar}
    (computed : p.value? depth vars k = some (v, vars')) : p.Evaluates vars k v vars' := by
  induction depth generalizing vars k v vars' with
  | zero => cases computed
  | succ depth ih =>
    cases k with
    | number x =>
      cases computed
      exact .number
    | text s =>
      cases computed
      exact .text
    | bool b =>
      cases computed
      exact .bool
    | ident n =>
      obtain ⟨v, holds, same⟩ := Option.map_eq_some_iff.mp computed
      cases same
      exact .name holds
    | assign target value =>
      obtain ⟨n, isName, computed⟩ := Option.bind_eq_some_iff.mp computed
      obtain ⟨⟨v, vars₁⟩, gives, last⟩ := Option.bind_eq_some_iff.mp computed
      cases last
      exact .assign (name?_eq_some_iff.mp isName) (ih gives)
    | unary op operand =>
      cases op with
      | neg =>
        obtain ⟨⟨v, vars₁⟩, gives, computed⟩ := Option.bind_eq_some_iff.mp computed
        obtain ⟨x, isNumber, last⟩ := Option.bind_eq_some_iff.mp computed
        cases last
        cases Scalar.number?_eq_some_iff.mp isNumber
        exact .neg (ih gives)
      | not =>
        obtain ⟨⟨v, vars₁⟩, gives, last⟩ := Option.bind_eq_some_iff.mp computed
        cases last
        exact .not (ih gives)
      | _ =>
        obtain ⟨n, isName, computed⟩ := Option.bind_eq_some_iff.mp computed
        obtain ⟨v, holds, computed⟩ := Option.bind_eq_some_iff.mp computed
        obtain ⟨old, isNumber, computed⟩ := Option.bind_eq_some_iff.mp computed
        obtain ⟨⟨new, result⟩, changes, last⟩ := Option.bind_eq_some_iff.mp computed
        cases last
        cases Scalar.number?_eq_some_iff.mp isNumber
        exact .update (name?_eq_some_iff.mp isName) holds changes
    | binary op lhs rhs =>
      obtain ⟨⟨a, vars₁⟩, left, computed⟩ := Option.bind_eq_some_iff.mp computed
      dsimp only at computed
      split at computed
      · rename_i stops
        cases computed
        exact .decided (ih left) stops
      · rename_i goesOn
        obtain ⟨⟨b, vars₂⟩, right, last⟩ := Option.bind_eq_some_iff.mp computed
        cases last
        exact .undecided (ih left) goesOn (ih right)
      · obtain ⟨⟨b, vars₂⟩, right, computed⟩ := Option.bind_eq_some_iff.mp computed
        obtain ⟨c, applied, last⟩ := Option.bind_eq_some_iff.mp computed
        cases last
        exact .strict (ih left) (ih right) applied
    | _ => cases computed

theorem Evaluates.settles {vars vars' : Variables} {k : ExprKind} {v : Scalar}
    (gives : p.Evaluates vars k v vars') : Settles (p.value? · vars k) (v, vars') := by
  induction gives with
  | number | text | bool => exact .deeper 0 fun n _ => rfl
  | name holds => exact .deeper 0 fun n _ => by simp [value?, holds]
  | assign isName _ ih =>
    obtain ⟨depth, computed⟩ := ih
    exact .deeper depth fun n le => by simp [value?, name?_eq_some_iff.mpr isName, computed n le]
  | neg _ ih =>
    obtain ⟨depth, computed⟩ := ih
    exact .deeper depth fun n le => by simp [value?, computed n le, Scalar.number?]
  | not _ ih =>
    obtain ⟨depth, computed⟩ := ih
    exact .deeper depth fun n le => by simp [value?, computed n le]
  | @update _ _ op _ _ _ _ isName holds changes =>
    refine .deeper 0 fun n _ => ?_
    cases op with
    | neg | not => cases changes
    | _ => simp [value?, name?_eq_some_iff.mpr isName, holds, Scalar.number?, changes]
  | @strict _ _ _ _ _ _ a _ _ _ _ applied ih ih' =>
    obtain ⟨depth, computed⟩ := ih
    obtain ⟨depth', computed'⟩ := ih'
    refine .deeper (max depth depth') fun n le => ?_
    simp [value?, computed n (by omega), BinaryOp.goesOn?_of_combine? applied a.truthy,
      computed' n (by omega), applied]
  | decided _ stops ih =>
    obtain ⟨depth, computed⟩ := ih
    exact .deeper depth fun n le => by simp [value?, computed n le, stops]
  | undecided _ goesOn _ ih ih' =>
    obtain ⟨depth, computed⟩ := ih
    obtain ⟨depth', computed'⟩ := ih'
    refine .deeper (max depth depth') fun n le => ?_
    simp [value?, computed n (by omega), goesOn, computed' n (by omega)]

theorem evaluates_iff {vars vars' : Variables} {k : ExprKind} {v : Scalar} :
    p.Evaluates vars k v vars' ↔ ∃ depth, p.value? depth vars k = some (v, vars') :=
  ⟨fun gives => gives.settles.computed, fun ⟨_, computed⟩ => evaluates_of_value? computed⟩

/-- What some expressions give, one after the other. -/
def values? (p : Program) (depth : Nat) : Variables → List ExprId → Option (List Scalar × Variables)
  | vars, [] => some ([], vars)
  | vars, e :: es => do
    let (v, vars) ← p.value? depth vars (p.expr e).kind
    let (vs, vars) ← p.values? depth vars es
    return (v :: vs, vars)

theorem evaluatesAll_of_values? {depth : Nat} {vars vars' : Variables} {es : List ExprId}
    {vs : List Scalar}
    (computed : p.values? depth vars es = some (vs, vars')) : p.EvaluatesAll vars es vs vars' := by
  induction es generalizing vars vs with
  | nil =>
    cases computed
    exact .nil
  | cons e es ih =>
    obtain ⟨⟨v, vars₁⟩, first, computed⟩ := Option.bind_eq_some_iff.mp computed
    obtain ⟨⟨vs, vars₂⟩, others, last⟩ := Option.bind_eq_some_iff.mp computed
    cases last
    exact .cons (evaluates_of_value? first) (ih others)

theorem EvaluatesAll.settles {vars vars' : Variables} {es : List ExprId} {vs : List Scalar}
    (given : p.EvaluatesAll vars es vs vars') : Settles (p.values? · vars es) (vs, vars') := by
  induction given with
  | nil => exact ⟨0, fun n _ => rfl⟩
  | cons first _ ih =>
    obtain ⟨depth, computed⟩ := first.settles
    obtain ⟨depth', computed'⟩ := ih
    refine ⟨max depth depth', fun n le => ?_⟩
    simp [values?, computed n (by omega), computed' n (by omega)]

/-! ## Statements -/

/-- The function from outside that a callee names, where no variable hides it. -/
def callee? {α : Type} (p : Program) (vars : List (Name × α)) (callee : ExprId) :
    Option DeclId := do
  let n ← p.name? callee
  match Table.find? n vars with
  | some _ => none
  | none => p.ambients.find? fun d => (p.decl d).toOption.any (·.name = n)

theorem of_callee? {α : Type} {vars : List (Name × α)} {callee : ExprId} {d : DeclId}
    (found : p.callee? vars callee = some d) :
    ∃ decl, (p.expr callee).kind = .ident decl.name ∧ Table.find? decl.name vars = none ∧
    d ∈ p.ambients ∧
      p.decl d = .ok decl := by
  obtain ⟨n, isName, found⟩ := Option.bind_eq_some_iff.mp found
  split at found
  · cases found
  · rename_i free
    have named := List.find?_some found
    obtain ⟨decl, isDecl, same⟩ := (Option.any_eq_true _ _).mp named
    obtain rfl : decl.name = n := of_decide_eq_true same
    exact ⟨decl, name?_eq_some_iff.mp isName, free, List.mem_of_find?_eq_some found,
      toOption_eq_some_iff.mp isDecl⟩

/-- Where functions are told apart by their names, it is the one of the name. -/
theorem callee?_eq_some {vars : Variables} {callee : ExprId} {d : DeclId} {decl : Decl}
    (distinct : (p.ambients.map p.declName).Nodup)
    (isName : (p.expr callee).kind = .ident decl.name)
    (free : Table.find? decl.name vars = none) (declared : d ∈ p.ambients)
    (isDecl : p.decl d = .ok decl) :
    p.callee? vars callee = some d := by
  have isSome : (p.ambients.find? fun d => (p.decl d).toOption.any
      (·.name = decl.name)).isSome := by
    rw [List.find?_isSome]
    exact ⟨d, declared, by simp [isDecl, Except.toOption]⟩
  obtain ⟨d', found⟩ := Option.isSome_iff_exists.mp isSome
  have here : p.callee? vars callee = some d' := by
    simp [callee?, name?_eq_some_iff.mpr isName, free, found]
  obtain ⟨decl', isName', -, declared', isDecl'⟩ := of_callee? here
  have sameName : decl.name = decl'.name := ExprKind.ident.inj (isName.symm.trans isName')
  have sameText : p.declName d = p.declName d' := by
    rw [declName_of_decl isDecl, declName_of_decl isDecl', sameName]
  rw [here, List.inj_on_of_nodup_map distinct declared declared' sameText]

/-- The calls of what is executed, and what it leaves in the variables. -/
def calls? (p : Program) : Nat → Variables → Part → Option (List AmbientCall × Variables)
  | 0, _, _ => none
  | _ + 1, vars, .stmts [] => some ([], vars)
  | depth + 1, vars, .stmts (id :: rest) => do
    let (calls, vars) ← p.calls? depth vars (.stmt (p.stmt id).kind)
    let (calls', vars) ← p.calls? depth vars (.stmts rest)
    return (calls ++ calls', vars)
  | _ + 1, vars, .stmt (.function _) => some ([], vars)
  | depth + 1, vars, .stmt (.bind d (some e)) => do
    let decl ← (p.decl d).toOption
    let (v, vars) ← p.value? depth vars (p.expr e).kind
    return ([], (decl.name, v) :: vars)
  | depth + 1, vars, .stmt (.expr e) =>
    match (p.expr e).kind with
    | .call callee args _ => do
      let d ← p.callee? vars callee
      let (vs, vars) ← p.values? depth vars args
      return ([⟨d, vs⟩], vars)
    | k => do
      let (_, vars) ← p.value? depth vars k
      return ([], vars)
  | depth + 1, vars, .stmt (.branch cond yes no) => do
    let (v, vars) ← p.value? depth vars (p.expr cond).kind
    let (calls, inside) ← p.calls? depth vars (.stmts (if v.truthy then yes else no))
    return (calls, inside.leave vars)
  | depth + 1, vars, .stmt (.block body) => do
    let (calls, inside) ← p.calls? depth vars (.stmts body)
    return (calls, inside.leave vars)
  | depth + 1, vars, .stmt (.loop cond body) => do
    let (v, vars) ← p.value? depth vars (p.expr cond).kind
    if v.truthy then
      let (calls, inside) ← p.calls? depth vars (.stmts body)
      let (calls', vars) ← p.calls? depth (inside.leave vars) (.stmt (.loop cond body))
      return (calls ++ calls', vars)
    else return ([], vars)
  | _ + 1, _, _ => none

theorem executes_of_calls? {depth : Nat} {vars vars' : Variables} {part : Part}
    {calls : List AmbientCall}
    (computed : p.calls? depth vars part = some (calls, vars')) :
    p.Executes vars part calls vars' := by
  induction depth generalizing vars part calls vars' with
  | zero => cases computed
  | succ depth ih =>
    cases part with
    | stmts ids =>
      cases ids with
      | nil =>
        cases computed
        exact .done
      | cons id rest =>
        obtain ⟨⟨c₁, vars₁⟩, first, computed⟩ := Option.bind_eq_some_iff.mp computed
        obtain ⟨⟨c₂, vars₂⟩, others, last⟩ := Option.bind_eq_some_iff.mp computed
        cases last
        exact .next (ih first) (ih others)
    | stmt kind =>
      cases kind with
      | function d =>
        cases computed
        exact .function
      | bind d init =>
        cases init with
        | none => cases computed
        | some e =>
          obtain ⟨decl, isDecl, computed⟩ := Option.bind_eq_some_iff.mp computed
          obtain ⟨⟨v, vars₁⟩, start, last⟩ := Option.bind_eq_some_iff.mp computed
          cases last
          exact .bind (toOption_eq_some_iff.mp isDecl) (evaluates_of_value? start)
      | expr e =>
        simp only [calls?] at computed
        split at computed
        · rename_i isCall
          obtain ⟨d, found, computed⟩ := Option.bind_eq_some_iff.mp computed
          obtain ⟨⟨vs, vars₁⟩, given, last⟩ := Option.bind_eq_some_iff.mp computed
          cases last
          obtain ⟨decl, isName, free, declared, isDecl⟩ := of_callee? found
          exact .call isCall isName free declared isDecl (evaluatesAll_of_values? given)
        · obtain ⟨⟨v, vars₁⟩, gives, last⟩ := Option.bind_eq_some_iff.mp computed
          cases last
          exact .expr (evaluates_of_value? gives)
      | branch cond yes no =>
        obtain ⟨⟨v, vars₁⟩, tested, computed⟩ := Option.bind_eq_some_iff.mp computed
        obtain ⟨⟨c, inside⟩, taken, last⟩ := Option.bind_eq_some_iff.mp computed
        cases last
        exact .branch (evaluates_of_value? tested) (ih taken)
      | block body =>
        obtain ⟨⟨c, inside⟩, inner, last⟩ := Option.bind_eq_some_iff.mp computed
        cases last
        exact .block (ih inner)
      | loop cond body =>
        obtain ⟨⟨v, vars₁⟩, tested, computed⟩ := Option.bind_eq_some_iff.mp computed
        have gives := evaluates_of_value? tested
        dsimp only at computed
        split at computed
        · rename_i isTrue
          obtain ⟨⟨c₁, inside⟩, inner, computed⟩ := Option.bind_eq_some_iff.mp computed
          obtain ⟨⟨c₂, vars₂⟩, again, last⟩ := Option.bind_eq_some_iff.mp computed
          cases last
          exact .turn gives isTrue (ih inner) (ih again)
        · rename_i isFalse
          cases computed
          exact .stop gives (Bool.eq_false_iff.mpr isFalse)
      | _ => cases computed

theorem Executes.settles {vars vars' : Variables} {part : Part} {calls : List AmbientCall}
    (distinct : (p.ambients.map p.declName).Nodup) (done : p.Executes vars part calls vars') :
    Settles (p.calls? · vars part) (calls, vars') := by
  induction done with
  | done | function => exact .deeper 0 fun n _ => rfl
  | next _ _ ih ih' =>
    obtain ⟨depth, computed⟩ := ih
    obtain ⟨depth', computed'⟩ := ih'
    exact .deeper (max depth depth') fun n le => by simp [calls?, computed n (by omega),
      computed' n (by omega)]
  | bind isDecl start =>
    obtain ⟨depth, computed⟩ := start.settles
    exact .deeper depth fun n le => by simp [calls?, toOption_eq_some_iff.mpr isDecl, computed n le]
  | @expr _ _ e _ gives =>
    obtain ⟨depth, computed⟩ := gives.settles
    refine .deeper depth fun n le => ?_
    have here := computed n le
    simp only [calls?]
    split
    · rename_i isCall
      rw [isCall] at gives
      cases gives
    · simp [here]
  | call isCall isName free declared isDecl given =>
    obtain ⟨depth, computed⟩ := given.settles
    refine .deeper depth fun n le => ?_
    simp [calls?, isCall, callee?_eq_some distinct isName free declared isDecl, computed n le]
  | branch tested _ ih =>
    obtain ⟨depth, computed⟩ := tested.settles
    obtain ⟨depth', computed'⟩ := ih
    exact .deeper (max depth depth') fun n le => by simp [calls?, computed n (by omega),
      computed' n (by omega)]
  | block _ ih =>
    obtain ⟨depth, computed⟩ := ih
    exact .deeper depth fun n le => by simp [calls?, computed n le]
  | stop tested isFalse =>
    obtain ⟨depth, computed⟩ := tested.settles
    exact .deeper depth fun n le => by simp [calls?, computed n le, isFalse]
  | turn tested isTrue _ _ ih ih' =>
    obtain ⟨depth, computed⟩ := tested.settles
    obtain ⟨depth', computed'⟩ := ih
    obtain ⟨depth'', computed''⟩ := ih'
    refine .deeper (max depth (max depth' depth'')) fun n le => ?_
    simp [calls?, computed n (by omega), isTrue, computed' n (by omega), computed'' n (by omega)]

/-- What is executed has the calls that are computed at some depth. -/
theorem executes_iff (distinct : (p.ambients.map p.declName).Nodup)
    {vars vars' : Variables} {part : Part}
    {calls : List AmbientCall} :
    p.Executes vars part calls vars' ↔ ∃ depth, p.calls? depth vars part = some (calls, vars') :=
  ⟨fun done => (done.settles distinct).computed, fun ⟨_, computed⟩ => executes_of_calls? computed⟩

/-- A program comes to its end in one way. -/
theorem Runs.unique {entryName : String} {calls calls' : List AmbientCall}
    (firstOrder : p.FirstOrder entryName)
    (runs : p.Runs calls) (runs' : p.Runs calls') : calls = calls' := by
  obtain ⟨vars, done⟩ := runs
  obtain ⟨vars', done'⟩ := runs'
  exact congrArg Prod.fst ((done.settles firstOrder.distinct).unique
    (done'.settles firstOrder.distinct))

/-! ## First-order programs -/

/-- The type of an expression. -/
def type? (p : Program) (Γ : Typing) : Nat → ExprKind → Option Prim
  | 0, _ => none
  | _ + 1, .number _ => some .number
  | _ + 1, .text _ => some .text
  | _ + 1, .bool _ => some .boolean
  | _ + 1, .ident n => Table.find? n Γ
  | depth + 1, .assign target value => do
    let n ← p.name? target
    let τ ← p.type? Γ depth (p.expr value).kind
    if Table.find? n Γ = some τ then return τ else none
  | depth + 1, .unary .neg operand => do
    let τ ← p.type? Γ depth (p.expr operand).kind
    if τ = .number then return .number else none
  | depth + 1, .unary .not operand => do
    let _ ← p.type? Γ depth (p.expr operand).kind
    return .boolean
  | _ + 1, .unary _ operand => do
    let n ← p.name? operand
    if Table.find? n Γ = some .number then return .number else none
  | depth + 1, .binary op lhs rhs => do
    let σ ← p.type? Γ depth (p.expr lhs).kind
    let σ' ← p.type? Γ depth (p.expr rhs).kind
    if op = .and ∨ op = .or then return .boolean else if σ = σ' then op.result? σ else none
  | _ + 1, _ => none

theorem hasType_of_type? {Γ : Typing} {depth : Nat} {k : ExprKind} {τ : Prim}
    (computed : p.type? Γ depth k = some τ) : p.HasType Γ k τ := by
  induction depth generalizing k τ with
  | zero => cases computed
  | succ depth ih =>
    cases k with
    | number x =>
      cases computed
      exact .number
    | text s =>
      cases computed
      exact .text
    | bool b =>
      cases computed
      exact .bool
    | ident n => exact .name computed
    | assign target value =>
      obtain ⟨n, isName, computed⟩ := Option.bind_eq_some_iff.mp computed
      obtain ⟨σ, ofType, computed⟩ := Option.bind_eq_some_iff.mp computed
      obtain ⟨known, last⟩ := Option.ite_none_right_eq_some.mp computed
      cases last
      exact .assign (name?_eq_some_iff.mp isName) known (ih ofType)
    | unary op operand =>
      cases op with
      | neg =>
        obtain ⟨σ, ofType, computed⟩ := Option.bind_eq_some_iff.mp computed
        obtain ⟨rfl, last⟩ := Option.ite_none_right_eq_some.mp computed
        cases last
        exact .neg (ih ofType)
      | not =>
        obtain ⟨σ, ofType, last⟩ := Option.bind_eq_some_iff.mp computed
        cases last
        exact .not (ih ofType)
      | _ =>
        obtain ⟨n, isName, computed⟩ := Option.bind_eq_some_iff.mp computed
        obtain ⟨known, last⟩ := Option.ite_none_right_eq_some.mp computed
        cases last
        exact .update rfl (name?_eq_some_iff.mp isName) known
    | binary op lhs rhs =>
      obtain ⟨σ, left, computed⟩ := Option.bind_eq_some_iff.mp computed
      obtain ⟨σ', right, computed⟩ := Option.bind_eq_some_iff.mp computed
      split at computed
      · rename_i isLogical
        cases computed
        exact .logical isLogical (ih left) (ih right)
      · obtain ⟨rfl, result⟩ := Option.ite_none_right_eq_some.mp computed
        exact .strict result (ih left) (ih right)
    | _ => cases computed

/-- The type of scalars that a type is. -/
def prim? : TypeExpr → Option Prim
  | .number => some .number
  | .text => some .text
  | .boolean => some .boolean
  | _ => none

theorem eq_of_prim? {t : TypeExpr} {τ : Prim} (h : prim? t = some τ) : t = τ.type := by
  cases t <;> cases h <;> rfl

/-- The types of the parameters of a function from outside. -/
def ambient? (p : Program) (d : DeclId) : Option (List Prim) := do
  let f ← (p.function d).toOption
  let ret ← f.ret
  if Resolver.isAmbient p d ∧ f.owner = none ∧ p.types.get ret = .void then
    f.params.mapM fun q => do prim? (p.types.get (← (p.param q).toOption).ty)
  else none

theorem ambient_of_ambient? {d : DeclId} {τs : List Prim} (computed : p.ambient? d = some τs) :
    p.Ambient d τs := by
  obtain ⟨f, isFunction, computed⟩ := Option.bind_eq_some_iff.mp computed
  obtain ⟨ret, returns, computed⟩ := Option.bind_eq_some_iff.mp computed
  obtain ⟨⟨isAmbient, free, isVoid⟩, computed⟩ := Option.ite_none_right_eq_some.mp computed
  refine ⟨isAmbient, f, ret, toOption_eq_some_iff.mp isFunction, free, returns, isVoid, ?_⟩
  refine (forall₂_of_mapM computed).imp fun q τ here => ?_
  obtain ⟨param, isParam, isPrim⟩ := Option.bind_eq_some_iff.mp here
  exact ⟨param, toOption_eq_some_iff.mp isParam, eq_of_prim? isPrim⟩

/-- The variables that are in view behind what is executed, if that is as it is to be. -/
def typing? (p : Program) : Nat → Bool → Typing → Part → Option Typing
  | 0, _, _, _ => none
  | _ + 1, _, Γ, .stmts [] => some Γ
  | depth + 1, top, Γ, .stmts (id :: rest) => do
    p.typing? depth top (← p.typing? depth top Γ (.stmt (p.stmt id).kind)) (.stmts rest)
  | _ + 1, top, Γ, .stmt (.function _) => if top then return Γ else none
  | depth + 1, _, Γ, .stmt (.bind d (some e)) => do
    let decl ← (p.decl d).toOption
    let τ ← p.type? Γ depth (p.expr e).kind
    match decl.kind with
    | .binding ty => if ∀ t ∈ ty, p.types.get t = τ.type then return (decl.name, τ) :: Γ else none
    | _ => none
  | depth + 1, _, Γ, .stmt (.expr e) =>
    match (p.expr e).kind with
    | .call callee args _ => do
      let d ← p.callee? Γ callee
      let τs ← p.ambient? d
      let σs ← args.mapM fun a => p.type? Γ depth (p.expr a).kind
      if τs = σs then return Γ else none
    | k => do
      let _ ← p.type? Γ depth k
      return Γ
  | depth + 1, _, Γ, .stmt (.branch cond yes no) => do
    let _ ← p.type? Γ depth (p.expr cond).kind
    let _ ← p.typing? depth false Γ (.stmts yes)
    let _ ← p.typing? depth false Γ (.stmts no)
    return Γ
  | depth + 1, _, Γ, .stmt (.loop cond body) => do
    let _ ← p.type? Γ depth (p.expr cond).kind
    let _ ← p.typing? depth false Γ (.stmts body)
    return Γ
  | depth + 1, _, Γ, .stmt (.block body) => do
    let _ ← p.typing? depth false Γ (.stmts body)
    return Γ
  | _ + 1, _, _, _ => none

theorem admits_of_typing? {depth : Nat} {top : Bool} {Γ Γ' : Typing} {part : Part}
    (computed : p.typing? depth top Γ part = some Γ') : p.Admits top Γ part Γ' := by
  induction depth generalizing top Γ Γ' part with
  | zero => cases computed
  | succ depth ih =>
    cases part with
    | stmts ids =>
      cases ids with
      | nil =>
        cases computed
        exact .done
      | cons id rest =>
        obtain ⟨Γ₁, first, others⟩ := Option.bind_eq_some_iff.mp computed
        exact .next (ih first) (ih others)
    | stmt kind =>
      cases kind with
      | function d =>
        obtain ⟨isTop, last⟩ := Option.ite_none_right_eq_some.mp computed
        cases last
        rw [isTop]
        exact .function
      | bind d init =>
        cases init with
        | none => cases computed
        | some e =>
          obtain ⟨decl, isDecl, computed⟩ := Option.bind_eq_some_iff.mp computed
          obtain ⟨τ, start, computed⟩ := Option.bind_eq_some_iff.mp computed
          split at computed
          · rename_i ty isBinding
            obtain ⟨annotated, last⟩ := Option.ite_none_right_eq_some.mp computed
            cases last
            exact .bind (toOption_eq_some_iff.mp isDecl) isBinding
              (fun t isType => annotated t isType)
              (hasType_of_type? start)
          · cases computed
      | expr e =>
        simp only [typing?] at computed
        split at computed
        · rename_i isCall
          obtain ⟨d, found, computed⟩ := Option.bind_eq_some_iff.mp computed
          obtain ⟨τs, ambient, computed⟩ := Option.bind_eq_some_iff.mp computed
          obtain ⟨σs, ofTypes, computed⟩ := Option.bind_eq_some_iff.mp computed
          obtain ⟨rfl, last⟩ := Option.ite_none_right_eq_some.mp computed
          cases last
          obtain ⟨decl, isName, free, declared, isDecl⟩ := of_callee? found
          exact .call isCall isName free declared isDecl (ambient_of_ambient? ambient)
            ((forall₂_of_mapM ofTypes).imp fun _ _ => hasType_of_type?)
        · obtain ⟨τ, ofType, last⟩ := Option.bind_eq_some_iff.mp computed
          cases last
          exact .expr (hasType_of_type? ofType)
      | branch cond yes no =>
        obtain ⟨τ, ofType, computed⟩ := Option.bind_eq_some_iff.mp computed
        obtain ⟨Γ₁, taken, computed⟩ := Option.bind_eq_some_iff.mp computed
        obtain ⟨Γ₂, passed, last⟩ := Option.bind_eq_some_iff.mp computed
        cases last
        exact .branch (hasType_of_type? ofType) (ih taken) (ih passed)
      | loop cond body =>
        obtain ⟨τ, ofType, computed⟩ := Option.bind_eq_some_iff.mp computed
        obtain ⟨Γ₁, inner, last⟩ := Option.bind_eq_some_iff.mp computed
        cases last
        exact .loop (hasType_of_type? ofType) (ih inner)
      | block body =>
        obtain ⟨Γ₁, inner, last⟩ := Option.bind_eq_some_iff.mp computed
        cases last
        exact .block (ih inner)
      | _ => cases computed

/-- A test for first-order programs that are not nested deeper than a limit. -/
def isFirstOrder (p : Program) (depth : Nat) (entryName : String) : Bool :=
  (p.typing? depth true [] (.stmts p.entry)).isSome &&
  p.ambients.all (fun d => (p.ambient? d).isSome && p.declName d ≠ entryName && p.declName d ≠
    Code.closureCallName) &&
  decide (p.ambients.map p.declName).Nodup

theorem firstOrder_of_isFirstOrder {depth : Nat} {entryName : String}
    (h : p.isFirstOrder depth entryName = true) :
    p.FirstOrder entryName := by
  simp only [isFirstOrder, Bool.and_eq_true, List.all_eq_true, decide_eq_true_eq] at h
  obtain ⟨⟨typed, each⟩, distinct⟩ := h
  obtain ⟨Γ, typed⟩ := Option.isSome_iff_exists.mp typed
  refine ⟨⟨Γ, admits_of_typing? typed⟩, fun d declared => ?_, distinct, fun d declared => ?_⟩
  · obtain ⟨τs, ambient⟩ := Option.isSome_iff_exists.mp (each d declared).1.1
    exact ⟨τs, ambient_of_ambient? ambient⟩
  · exact ⟨(each d declared).1.2, (each d declared).2⟩

end Program

end ShapeCompiler.Source
