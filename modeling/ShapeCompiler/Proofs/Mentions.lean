import Mathlib.Data.Nat.Find
import ShapeCompiler.Proofs.Environments

/-!
# Mentions of names, and the walk that finds them

* `Program.parts`: the parts of a node, each with what binds names around it;
* `Program.Mentions`: a reference somewhere inside a node, with all binders around it;
* `LeadsIn.bounded`: what is reached at all is reached in fewer steps than there are nodes;
* `Program.refsAt_step`, `Program.refs_collects`: a walk finds the references to a name wherever no
  binder takes it.

Binders are lexical: the parameters of a function, and the statements of one block. The walk has one
list of names for a function with all its blocks (`Binder.taken`).
-/

namespace ShapeCompiler.Source

/-! ## Goals within a number of steps -/

section LeadsIn

variable {α : Type} {next : α → α → Prop} {goal : α → Prop}

/-- A goal is reached in at most so many steps. -/
def LeadsIn (next : α → α → Prop) (goal : α → Prop) : Nat → α → Prop
  | 0, a => goal a
  | steps + 1, a => goal a ∨ ∃ b, next a b ∧ LeadsIn next goal steps b

theorem LeadsIn.succ {a : α} {steps : Nat} (h : LeadsIn next goal steps a) :
    LeadsIn next goal (steps + 1) a := by
  induction steps generalizing a with
  | zero => exact .inl h
  | succ steps ih =>
    rcases h with here | ⟨b, leads, h⟩
    · exact .inl here
    · exact .inr ⟨b, leads, ih h⟩

theorem LeadsIn.goes_on {a : α} {steps : Nat} (h : LeadsIn next goal steps a) :
    goal a ∨ ∃ b, next a b := by
  cases steps with
  | zero => exact .inl h
  | succ steps => exact h.imp_right fun ⟨b, leads, _⟩ => ⟨b, leads⟩

/-- A goal in fewer than so many steps is here or one step further. -/
theorem LeadsIn.exists_lt_succ {a : α} {steps : Nat} :
    (∃ fewer < steps + 1, LeadsIn next goal fewer a) ↔
      goal a ∨ ∃ b, next a b ∧ ∃ fewer < steps, LeadsIn next goal fewer b := by
  constructor
  · rintro ⟨fewer, lt, h⟩
    cases fewer with
    | zero => exact .inl h
    | succ fewer =>
      rcases h with here | ⟨b, leads, h⟩
      · exact .inl here
      · exact .inr ⟨b, leads, fewer, by omega, h⟩
  · rintro (here | ⟨b, leads, fewer, lt, h⟩)
    · exact ⟨0, by omega, here⟩
    · exact ⟨fewer + 1, by omega, .inr ⟨b, leads, h⟩⟩

/-- What lies on a shortest way is as many different things as it has steps, and one more. -/
theorem LeadsIn.exists_way {a : α} {steps : Nat} (h : LeadsIn next goal steps a)
    (shortest : ∀ fewer < steps, ¬ LeadsIn next goal fewer a) :
    ∃ way : List α, way.length = steps + 1 ∧ way.Nodup ∧ ∀ b ∈ way, LeadsIn next goal steps b := by
  induction steps generalizing a with
  | zero => exact ⟨[a], rfl, by simp, by simpa using h⟩
  | succ steps ih =>
    rcases h with here | ⟨b, leads, h⟩
    · exact absurd here (shortest 0 (by omega))
    · obtain ⟨way, long, distinct, onWay⟩ := ih h fun fewer lt there =>
        shortest (fewer + 1) (by omega) (.inr ⟨b, leads, there⟩)
      refine ⟨a :: way, by simp [long], ?_, ?_⟩
      · exact List.nodup_cons.mpr
          ⟨fun inside => shortest steps (by omega) (onWay a inside), distinct⟩
      · rintro c (_ | ⟨_, inside⟩)
        · exact .inr ⟨b, leads, h⟩
        · exact (onWay c inside).succ

/-- Where only so many things lead on, there are fewer steps. -/
theorem LeadsIn.bounded (all : List α) (among : ∀ a, (goal a ∨ ∃ b, next a b) → a ∈ all) {a : α}
    (h : ∃ steps, LeadsIn next goal steps a) : ∃ steps < all.length, LeadsIn next goal steps a := by
  classical
  obtain ⟨way, long, distinct, onWay⟩ :=
    (Nat.find_spec h).exists_way fun fewer lt => Nat.find_min h lt
  refine ⟨Nat.find h, ?_, Nat.find_spec h⟩
  have le := distinct.length_le_of_subset fun b inside => among b (onWay b inside).goes_on
  omega

end LeadsIn

/-! ## Mentions -/

/-- What binds names around a place. -/
inductive Binder where
  /-- The parameters of a function. -/
  | params (function : DeclId)
  /-- The statements of a block. -/
  | block (stmts : List StmtId)
  deriving DecidableEq

/-- What a statement declares in its block. -/
def StmtKind.declares? : StmtKind → Option DeclId
  | .bind d _ | .function d | .classDecl d => some d
  | _ => none

/-- The blocks of a statement. -/
def StmtKind.blocks : StmtKind → List (List StmtId)
  | .branch _ thenBranch elseBranch => [thenBranch, elseBranch]
  | .loop _ body | .block body => [body]
  | _ => []

/-- The name of a reference to something of that name. -/
def Reference.name? : Reference → Option Name
  | .name n | .callee n _ => some n
  | _ => none

/-- A part of a node, with the binders that the node has around it. -/
abbrev Part := List Binder × Node

namespace Program

/-- The names of declarations, of those that there are. -/
def declNames (p : Program) (decls : List DeclId) : List Name :=
  decls.filterMap fun d => (p.decl d).toOption.map (·.name)

end Program

/-- The names that a binder binds. -/
def Binder.names (p : Program) : Binder → List Name
  | .params d => (p.function d).toOption.elim [] fun f => p.declNames f.params
  | .block stmts => p.declNames (stmts.filterMap fun s => (p.stmt s).kind.declares?)

namespace Program

/-- What is called is a part, unless it is a name that is known to reach a declaration. -/
def calleeParts (p : Program) (callee : ExprId) (target : Option DeclId) : List Node :=
  match (p.expr callee).kind, target with
  | .ident _, some _ => []
  | _, _ => [.expr callee]

/-- No expression binds a name around its parts; a function in it does. -/
def exprParts (p : Program) : ExprKind → List Node
  | .property object _ => [.expr object]
  | .call callee args target => p.calleeParts callee target ++ args.map .expr
  | .construct _ args => args.map .expr
  | .function d => [.function d]
  | .object fields => fields.map fun f => .expr f.2
  | .assign target value => [.expr target, .expr value]
  | .binary _ lhs rhs => [.expr lhs, .expr rhs]
  | .unary _ e | .convert e _ => [.expr e]
  | _ => []

/-- The statements of a block. -/
def blockParts (block : List StmtId) : List Part := block.map fun s => ([.block block], .stmt s)

def stmtParts : StmtKind → List Part
  | .bind _ value | .ret value => value.toList.map fun e => ([], .expr e)
  | .expr e => [([], .expr e)]
  | .branch cond thenBranch elseBranch =>
    ([], .expr cond) :: (blockParts thenBranch ++ blockParts elseBranch)
  | .loop cond body => ([], .expr cond) :: blockParts body
  | .block body => blockParts body
  | .function d => [([], .function d)]
  | .classDecl d => [([], .classDecl d)]

/-- The default values of parameters. -/
def defaults (p : Program) (params : List DeclId) : List ExprId :=
  params.filterMap fun d => (p.param d).toOption.bind (·.default)

def bodyParts (d : DeclId) : Option Body → List Part
  | some (.block stmts) => stmts.map fun s => ([.params d, .block stmts], .stmt s)
  | some (.expr e) => [([.params d], .expr e)]
  | none => []

def functionParts (p : Program) (d : DeclId) : List Part :=
  (p.function d).toOption.elim [] fun f =>
    (p.defaults f.params).map (fun e => ([.params d], .expr e)) ++ bodyParts d f.body

def memberParts (m : DeclId) (d : Decl) : List Part :=
  match d.kind with
  | .function _ => [([], .function m)]
  | .property { init := some e, .. } => [([], .expr e)]
  | _ => []

def classParts (p : Program) (cls : DeclId) : List Part :=
  (p.classDecl cls).toOption.elim [] fun c =>
    c.members.flatMap fun m => (p.decl m).toOption.elim [] (memberParts m)

/-- The parts of a node. -/
def parts (p : Program) : Node → List Part
  | .expr e => (p.exprParts (p.expr e).kind).map fun part => ([], part)
  | .stmt s => stmtParts (p.stmt s).kind
  | .function d => p.functionParts d
  | .classDecl d => p.classParts d

/-- The reference that a call makes by the name it calls. -/
def calleeMentions (p : Program) (callee : ExprId) (target : Option DeclId) : List Reference :=
  match (p.expr callee).kind, target with
  | .ident n, some d => [.callee n d]
  | _, _ => []

def exprMentions (p : Program) : ExprKind → List Reference
  | .ident n => [.name n]
  | .call callee _ target => p.calleeMentions callee target
  | _ => []

/-- The references that a node makes by name, without its parts. -/
def mentions (p : Program) : Node → List Reference
  | .expr e => p.exprMentions (p.expr e).kind
  | _ => []

/-- Somewhere inside a node a reference is made, with these binders around it. -/
inductive Mentions (p : Program) (r : Reference) : Node → List Binder → Prop where
  | here {node : Node} (made : r ∈ p.mentions node) : Mentions p r node []
  | inside {node part : Node} {binders trail : List Binder}
    (isPart : (binders, part) ∈ p.parts node)
      (made : Mentions p r part trail) : Mentions p r node (binders ++ trail)

/-- The start value of an instance property. -/
def initializer? (d : Decl) : Option ExprId :=
  match d.kind with
  | .property { init := some e, .. } => if d.flags.static then none else some e
  | _ => none

/-- The start values of a class's own instance properties. -/
def initializers (p : Program) (cls : DeclId) : List ExprId :=
  (p.classDecl cls).toOption.elim [] fun c =>
    c.members.filterMap fun m => (p.decl m).toOption.bind initializer?

/-- A function makes a reference: in its own parts, or, if it is a constructor, in a start value of
its class, which it runs. -/
inductive MentionedBy (p : Program) (r : Reference) (d : DeclId) : List Binder → Prop where
  | own {trail : List Binder} (made : p.Mentions r (.function d) trail) : MentionedBy p r d trail
  | initializer {f : FunctionDecl} {cls : DeclId} {e : ExprId} {trail : List Binder}
      (isFunction : p.function d = .ok f) (kind : f.kind = .constructor)
        (owner : f.owner = some cls)
      (isValue : e ∈ p.initializers cls) (made : p.Mentions r (.expr e) trail) :
      MentionedBy p r d (.params d :: trail)

/-- A block is another one, or stands in it. -/
inductive Nests (p : Program) : List StmtId → List StmtId → Prop where
  | refl (block : List StmtId) : Nests p block block
  | inside {outer block inner : List StmtId} {s : StmtId} (isStmt : s ∈ outer)
      (isBlock : block ∈ (p.stmt s).kind.blocks) (nests : Nests p block inner) : Nests p outer inner

/-- Some block of a function declares the name. -/
def DeclaresInside (p : Program) (d : DeclId) (n : Name) : Prop :=
  ∃ f outer inner, p.function d = .ok f ∧ f.body = some (.block outer) ∧ p.Nests outer inner ∧
    n ∈ (Binder.block inner).names p

end Program

/-- The names that the walk takes to be bound: a function binds those of all its blocks at once. -/
def Binder.taken (p : Program) : Binder → List Name
  | .params d =>
    (p.function d).toOption.elim [] fun f => p.declNames (f.params ++ p.declaredIn f.body)
  | .block _ => []

/-! ## What a walk finds -/

namespace Found

variable {α : Type} {r : Reference} {found found' : Found} {P Q : Prop}

/-- If anything is found, this tells whether the reference is among it. -/
def Collects (found : Found) (r : Reference) (P : Prop) : Prop :=
  ∀ refs, found = .ok refs → (r ∈ refs ↔ P)

theorem Collects.ok (refs : List Reference) : Collects (.ok refs) r (r ∈ refs) := by
  intro _ isFound
  cases isFound
  rfl

theorem Collects.congr (h : Collects found r P) (same : P ↔ Q) : Collects found r Q :=
  fun refs isFound => (h refs isFound).trans same

theorem Collects.bind {x : Except ProgramError α} {k : α → Found}
    (h : ∀ a, x = .ok a → Collects (k a) r P) : Collects (x >>= k) r P := by
  intro refs isFound
  obtain ⟨a, answer, isFound⟩ := exists_of_bind_ok isFound
  exact h a answer refs isFound

theorem Collects.append (first : Collects found r P) (second : Collects found' r Q) :
    Collects (do return (← found) ++ (← found')) r (P ∨ Q) := by
  intro refs isFound
  obtain ⟨refs₁, isFound₁, isFound⟩ := exists_of_bind_ok isFound
  obtain ⟨refs₂, isFound₂, isFound⟩ := exists_of_bind_ok isFound
  cases isFound
  rw [List.mem_append, first refs₁ isFound₁, second refs₂ isFound₂]

theorem inOrder_cons (walk : α → Found) (a : α) (rest : List α) :
    inOrder walk (a :: rest) = do return (← walk a) ++ (← inOrder walk rest) := by
  simp [inOrder]

theorem Collects.inOrder {walk : α → Found} {P : α → Prop} {parts : List α}
    (each : ∀ a ∈ parts, Collects (walk a) r (P a)) :
    Collects (inOrder walk parts) r (∃ a ∈ parts, P a) := by
  induction parts with
  | nil => exact (Collects.ok []).congr (by simp)
  | cons a rest ih =>
    rw [inOrder_cons]
    refine (Collects.append (each a (by simp)) (ih fun b inside => each b (by simp [inside]))).congr
      ?_
    simp

end Found

namespace Program

open Found

theorem declNames_of_namesOf {p : Program} {decls : List DeclId} {names : List Name}
    (h : p.namesOf decls = .ok names) : names = p.declNames decls := by
  induction decls generalizing names with
  | nil =>
    cases h
    rfl
  | cons d rest ih =>
    unfold namesOf at h
    rw [List.mapM_cons] at h
    obtain ⟨n, isName, h⟩ := exists_of_bind_ok h
    obtain ⟨others, areNames, h⟩ := exists_of_bind_ok h
    obtain ⟨decl, known, isName⟩ := exists_of_bind_ok isName
    cases h
    cases isName
    simp [declNames, known, Except.toOption, ih areNames]

/-- This holds of a part that stands under no binder that takes the name. -/
def SomePart (p : Program) (n : Name) (X : Node → Prop) (parts : List Part) : Prop :=
  ∃ part ∈ parts, (∀ b ∈ part.1, n ∉ b.taken p) ∧ X part.2

section SomePart

variable {p : Program} {n : Name} {X : Node → Prop}

@[simp] theorem somePart_nil : p.SomePart n X [] ↔ False := by
  simp [SomePart]

@[simp] theorem somePart_cons {part : Part} {rest : List Part} :
    p.SomePart n X (part :: rest) ↔
      (∀ b ∈ part.1, n ∉ b.taken p) ∧ X part.2 ∨ p.SomePart n X rest := by
  simp [SomePart]

@[simp] theorem somePart_append {parts parts' : List Part} :
    p.SomePart n X (parts ++ parts') ↔ p.SomePart n X parts ∨ p.SomePart n X parts' := by
  simp only [SomePart, List.mem_append, or_and_right, exists_or]

/-- Parts that stand under the same binders. -/
@[simp] theorem somePart_map {β : Type} {binders : List Binder} {toNode : β → Node} {bs : List β} :
    p.SomePart n X (bs.map fun b => (binders, toNode b)) ↔
      (∀ b ∈ binders, n ∉ b.taken p) ∧ ∃ b ∈ bs, X (toNode b) := by
  simp only [SomePart, List.mem_map]
  constructor
  · rintro ⟨_, ⟨b, inside, rfl⟩, free, there⟩
    exact ⟨free, b, inside, there⟩
  · rintro ⟨free, b, inside, there⟩
    exact ⟨_, ⟨b, inside, rfl⟩, free, there⟩

@[simp] theorem somePart_block {block : List StmtId} :
    p.SomePart n X (blockParts block) ↔ ∃ s ∈ block, X (.stmt s) := by
  simp [blockParts, Binder.taken]

end SomePart

section Step

variable {p : Program} {r : Reference} {n : Name} {walk : Around → Node → Found} {X : Node → Prop}
  {a : Around}

/-- What a reference that is made here adds, unless its name is bound. -/
theorem mem_unless_bound {r' : Reference} {m : Name} {bound : List Name} (isName : r.name? = some n)
    (isName' : r'.name? = some m) :
    r ∈ (if m ∈ bound then [] else [r']) ↔ n ∉ bound ∧ r ∈ [r'] := by
  by_cases same : r = r'
  · subst same
    obtain rfl : n = m := Option.some.inj (isName.symm.trans isName')
    split <;> simp_all
  · split <;> simp [same]

/-- References without a name are not the one in question. -/
theorem not_mem_nameless {refs : List Reference} (isName : r.name? = some n)
    (nameless : ∀ r' ∈ refs, r'.name? = none) : r ∉ refs := by
  intro inside
  rw [nameless r inside] at isName
  cases isName

theorem calleeRefs_collects (isName : r.name? = some n)
    (each : ∀ a node, Collects (walk a node) r (n ∉ a.bound ∧ X node))
    (bare : ∀ e, (p.expr e).kind = .receiver ∨ (p.expr e).kind = .parent → ¬ X (.expr e))
    (callee : ExprId) (target : Option DeclId) : Collects (p.calleeRefs (walk a) a callee target) r
      (n ∉ a.bound ∧ (r ∈ p.calleeMentions callee target ∨
        ∃ part ∈ p.calleeParts callee target, X part)) := by
  unfold calleeRefs calleeMentions calleeParts
  split
  · rename_i isParent
    refine (Collects.ok _).congr (iff_of_false ?_ ?_)
    · apply not_mem_nameless isName
      split <;> simp [Reference.name?]
    · simp [isParent, bare callee (.inr isParent)]
  · rename_i m d isIdent
    refine (Collects.ok _).congr ((mem_unless_bound isName rfl).trans ?_)
    simp [isIdent]
  · rename_i other
    refine (each a _).congr ?_
    split
    · rename_i m d isIdent
      exact absurd isIdent (other m d · rfl)
    · simp

theorem objectRefs_collects (isName : r.name? = some n)
    (each : ∀ a node, Collects (walk a node) r (n ∉ a.bound ∧ X node))
    (bare : ∀ e, (p.expr e).kind = .receiver ∨ (p.expr e).kind = .parent → ¬ X (.expr e))
    (object : ExprId) (m : Name) : Collects (p.objectRefs (walk a) a object m) r
      (n ∉ a.bound ∧ X (.expr object)) := by
  unfold objectRefs
  split
  · rename_i isReceiver _
    refine (Collects.ok _).congr (iff_of_false ?_ ?_)
    · exact not_mem_nameless isName (by simp [Reference.name?])
    · exact fun there => bare object (.inl isReceiver) there.2
  · rename_i isParent _
    refine (Collects.ok _).congr (iff_of_false ?_ ?_)
    · exact not_mem_nameless isName (by simp [Reference.name?])
    · exact fun there => bare object (.inr isParent) there.2
  · exact each a _

theorem exprRefs_collects (isName : r.name? = some n)
    (each : ∀ a node, Collects (walk a node) r (n ∉ a.bound ∧ X node))
    (bare : ∀ e, (p.expr e).kind = .receiver ∨ (p.expr e).kind = .parent → ¬ X (.expr e))
    (kind : ExprKind) : Collects (p.exprRefs (walk a) a kind) r
      (n ∉ a.bound ∧ (r ∈ p.exprMentions kind ∨ ∃ part ∈ p.exprParts kind, X part)) := by
  have exprs (es : List ExprId) : Collects (Found.inOrder (fun e => walk a (.expr e)) es) r
      (n ∉ a.bound ∧ ∃ part ∈ es.map Node.expr, X part) := by
    refine (Collects.inOrder fun e _ => each a (.expr e)).congr ?_
    simp only [List.mem_map, exists_exists_and_eq_and]
    grind
  cases kind with
  | ident m =>
    refine (Collects.ok _).congr ((mem_unless_bound isName rfl).trans ?_)
    simp [exprMentions, exprParts]
  | receiver =>
    refine (Collects.ok _).congr (iff_of_false ?_ (by simp [exprMentions, exprParts]))
    apply not_mem_nameless isName
    split <;> simp [Reference.name?]
  | property object m =>
    refine (objectRefs_collects isName each bare object m).congr ?_
    simp [exprMentions, exprParts]
  | call callee args target =>
    refine ((calleeRefs_collects isName each bare callee target).append (exprs args)).congr ?_
    simp only [exprMentions, exprParts, List.mem_append]
    grind
  | construct cls args =>
    refine .bind fun d _ => (Collects.append (.ok _) (exprs args)).congr ?_
    have nameless : r ∉ if d.name ∈ a.bound then [] else [Reference.construct cls] := by
      apply not_mem_nameless isName
      split <;> simp [Reference.name?]
    simp [exprMentions, exprParts, nameless]
  | function d =>
    refine (each a _).congr ?_
    simp [exprMentions, exprParts]
  | object fields =>
    refine (Collects.inOrder fun f _ => each a (.expr f.2)).congr ?_
    simp only [exprMentions, exprParts, List.mem_map]
    grind
  | assign target value =>
    refine (exprs [target, value]).congr ?_
    simp [exprMentions, exprParts]
  | binary op lhs rhs =>
    refine (exprs [lhs, rhs]).congr ?_
    simp [exprMentions, exprParts]
  | unary op e =>
    refine (each a _).congr ?_
    simp [exprMentions, exprParts]
  | convert e ty =>
    refine (each a _).congr ?_
    simp [exprMentions, exprParts]
  | _ => exact (Collects.ok []).congr (by simp [exprMentions, exprParts])

theorem stmtRefs_collects (each : ∀ a node, Collects (walk a node) r (n ∉ a.bound ∧ X node))
    (kind : StmtKind) :
    Collects (stmtRefs (walk a) kind) r (n ∉ a.bound ∧ p.SomePart n X (stmtParts kind)) := by
  have all {β : Type} (toNode : β → Node) (bs : List β) :
      Collects (Found.inOrder (fun b => walk a (toNode b)) bs) r
        (n ∉ a.bound ∧ ∃ b ∈ bs, X (toNode b)) :=
    (Collects.inOrder fun b _ => each a (toNode b)).congr (by grind)
  cases kind with
  | bind d value => exact (all Node.expr value.toList).congr (by simp [stmtParts])
  | ret value => exact (all Node.expr value.toList).congr (by simp [stmtParts])
  | expr e => exact (each a _).congr (by simp [stmtParts])
  | branch cond thenBranch elseBranch =>
    refine ((each a _).append (all Node.stmt (thenBranch ++ elseBranch))).congr ?_
    simp only [stmtParts, somePart_cons, somePart_append, somePart_block]
    grind
  | loop cond body =>
    refine ((each a _).append (all Node.stmt body)).congr ?_
    simp only [stmtParts, somePart_cons, somePart_block]
    grind
  | block body => exact (all Node.stmt body).congr (by simp [stmtParts])
  | function d => exact (each a _).congr (by simp [stmtParts])
  | classDecl d => exact (each a _).congr (by simp [stmtParts])

theorem defaultRefs_collects (each : ∀ a node, Collects (walk a node) r (n ∉ a.bound ∧ X node))
    (params : List DeclId) : Collects (p.defaultRefs (walk a) params) r
      (n ∉ a.bound ∧ ∃ e ∈ p.defaults params, X (.expr e)) := by
  refine (Collects.inOrder (P := fun d => ∃ e, (p.param d).toOption.bind (·.default) = some e ∧
    n ∉ a.bound ∧ X (.expr e)) fun d _ => .bind fun q isParam => ?_).congr ?_
  · split
    · rename_i e isDefault
      exact (each a _).congr (by simp [isParam, isDefault, Except.toOption])
    · rename_i isDefault
      exact (Collects.ok []).congr (by simp [isParam, isDefault, Except.toOption])
  · simp only [defaults, List.mem_filterMap]
    grind

theorem bodyRefs_collects (each : ∀ a node, Collects (walk a node) r (n ∉ a.bound ∧ X node))
    (d : DeclId) (body : Option Body) : Collects (bodyRefs (walk a) body) r
      (n ∉ a.bound ∧ ∃ part ∈ bodyParts d body, X part.2) := by
  cases body with
  | none => exact (Collects.ok []).congr (by simp [bodyParts])
  | some body =>
    cases body with
    | expr e => exact (each a _).congr (by simp [bodyParts])
    | block stmts =>
      refine (Collects.inOrder fun s _ => each a (.stmt s)).congr ?_
      simp only [bodyParts, List.mem_map]
      grind

/-- Around a part of a body, nothing is taken as bound but the names of the function. -/
theorem free_iff_of_bodyPart {d : DeclId} {body : Option Body} {part : Part}
    (isPart : part ∈ bodyParts d body) :
    (∀ b ∈ part.1, n ∉ b.taken p) ↔ n ∉ (Binder.params d).taken p := by
  unfold bodyParts at isPart
  split at isPart
  · obtain ⟨s, _, rfl⟩ := List.mem_map.mp isPart
    simp [Binder.taken]
  · obtain rfl := List.mem_singleton.mp isPart
    simp
  · cases isPart

theorem somePart_function {d : DeclId} {f : FunctionDecl} (known : p.function d = .ok f) :
    p.SomePart n X (p.functionParts d) ↔ n ∉ (Binder.params d).taken p ∧
      ((∃ e ∈ p.defaults f.params, X (.expr e)) ∨ ∃ part ∈ bodyParts d f.body, X part.2) := by
  have body : p.SomePart n X (bodyParts d f.body) ↔
      n ∉ (Binder.params d).taken p ∧ ∃ part ∈ bodyParts d f.body, X part.2 := by
    constructor
    · rintro ⟨part, isPart, free, there⟩
      exact ⟨(free_iff_of_bodyPart isPart).mp free, part, isPart, there⟩
    · rintro ⟨free, part, isPart, there⟩
      exact ⟨part, isPart, (free_iff_of_bodyPart isPart).mpr free, there⟩
  simp only [functionParts, known, Except.toOption, Option.elim_some, somePart_append, somePart_map,
    body, List.mem_singleton, forall_eq]
  rw [and_or_left]

theorem functionRefs_collects (each : ∀ a node, Collects (walk a node) r (n ∉ a.bound ∧ X node))
    (d : DeclId) : Collects (p.functionRefs walk a d) r
      (n ∉ a.bound ∧ p.SomePart n X (p.functionParts d)) := by
  refine .bind fun f known => .bind fun names areNames => ?_
  obtain rfl := declNames_of_namesOf areNames
  refine ((defaultRefs_collects each f.params).append (bodyRefs_collects each d f.body)).congr ?_
  rw [somePart_function known, ← and_or_left]
  have unbound : n ∉ ((if f.kind = .arrow then a else a.inMember).binding
      (p.declNames (f.params ++ p.declaredIn f.body))).bound ↔
        n ∉ (Binder.params d).taken p ∧ n ∉ a.bound := by
    have same : (if f.kind = .arrow then a else a.inMember).bound = a.bound := by split <;> rfl
    simp [Around.binding, same, Binder.taken, known, Except.toOption]
  rw [unbound, and_assoc, and_left_comm]

theorem classRefs_collects (each : ∀ a node, Collects (walk a node) r (n ∉ a.bound ∧ X node))
    (cls : DeclId) : Collects (p.classRefs walk a cls) r
      (n ∉ a.bound ∧ p.SomePart n X (p.classParts cls)) := by
  refine .bind fun c known => ?_
  refine (Collects.inOrder (P := fun m => n ∉ a.bound ∧ p.SomePart n X
    ((p.decl m).toOption.elim [] (memberParts m))) fun m _ => .bind fun d isDecl => ?_).congr ?_
  · simp only [isDecl, Except.toOption, Option.elim_some, memberParts]
    have same : (if d.flags.static = true then a else a.inMember).bound = a.bound := by
      split <;> rfl
    rcases d.kind with f | _ | _ | _ | _ | ⟨ty, _ | e, owner⟩
    case function => exact (each a _).congr (by simp)
    case property.some => exact (each _ _).congr (by simp [same])
    all_goals exact (Collects.ok []).congr (by simp)
  · simp only [classParts, known, Except.toOption, Option.elim_some, SomePart, List.mem_flatMap]
    grind

theorem initializerRefs_collects (each : ∀ a node, Collects (walk a node) r (n ∉ a.bound ∧ X node))
    (cls : DeclId) : Collects (p.initializerRefs (walk a) cls) r
      (n ∉ a.bound ∧ ∃ e ∈ p.initializers cls, X (.expr e)) := by
  refine .bind fun c known => ?_
  refine (Collects.inOrder (P := fun m => ∃ e, (p.decl m).toOption.bind initializer? = some e ∧
    n ∉ a.bound ∧ X (.expr e)) fun m _ => .bind fun d isDecl => ?_).congr ?_
  · simp only [isDecl, Except.toOption, Option.bind_some, initializer?]
    rcases d.kind with f | _ | _ | _ | _ | ⟨ty, _ | e, owner⟩
    case property.some =>
      dsimp only
      split
      · exact (Collects.ok []).congr (by simp)
      · exact (each a _).congr (by simp)
    all_goals exact (Collects.ok []).congr (by simp)
  · simp only [initializers, known, Except.toOption, Option.elim_some, List.mem_filterMap]
    grind

/-- One step of the walk: what is found is mentioned here, or found in a part. -/
theorem refsAt_step {depth : Nat} (isName : r.name? = some n)
    (each : ∀ a node, Collects (p.refsAt depth a node) r (n ∉ a.bound ∧ X node))
    (bare : ∀ e, (p.expr e).kind = .receiver ∨ (p.expr e).kind = .parent → ¬ X (.expr e))
    (node : Node) : Collects (p.refsAt (depth + 1) a node) r
      (n ∉ a.bound ∧ (r ∈ p.mentions node ∨ p.SomePart n X (p.parts node))) := by
  cases node with
  | expr e =>
    refine (exprRefs_collects isName each bare (p.expr e).kind).congr ?_
    rw [parts, mentions, SomePart]
    simp
  | stmt s =>
    exact (stmtRefs_collects (p := p) each (p.stmt s).kind).congr (by simp [parts, mentions])
  | function d => exact (functionRefs_collects each d).congr (by simp [parts, mentions])
  | classDecl d => exact (classRefs_collects each d).congr (by simp [parts, mentions])

end Step

/-! ## The whole walk -/

section Walk

variable {p : Program} {r : Reference} {n : Name} {node part : Node}

/-- From a node to a part of it that stands under no binder that takes the name. -/
def Passes (p : Program) (n : Name) (node part : Node) : Prop :=
  ∃ binders, (binders, part) ∈ p.parts node ∧ ∀ b ∈ binders, n ∉ b.taken p

/-- The reference is made in at most so many steps down from a node. -/
abbrev MadeIn (p : Program) (r : Reference) (n : Name) : Nat → Node → Prop :=
  LeadsIn (p.Passes n) fun node => r ∈ p.mentions node

/-- A walk of some depth finds what is mentioned less deep. -/
theorem refsAt_collects (isName : r.name? = some n) (depth : Nat) (a : Around) (node : Node) :
    Collects (p.refsAt depth a node) r
      (n ∉ a.bound ∧ ∃ steps < depth, p.MadeIn r n steps node) := by
  induction depth generalizing a node with
  | zero => exact (Collects.ok []).congr (by simp)
  | succ depth ih =>
    have bare (e : ExprId) (isKind : (p.expr e).kind = .receiver ∨ (p.expr e).kind = .parent) :
        ¬ ∃ steps < depth, p.MadeIn r n steps (.expr e) := by
      rintro ⟨steps, _, made⟩
      rcases made.goes_on with here | ⟨part, binders, isPart, _⟩
      · rcases isKind with isKind | isKind <;> simp [mentions, exprMentions, isKind] at here
      · rcases isKind with isKind | isKind <;> simp [parts, exprParts, isKind] at isPart
    refine (refsAt_step isName ih bare node).congr (and_congr_right fun _ => ?_)
    rw [LeadsIn.exists_lt_succ]
    refine or_congr_right ⟨?_, ?_⟩
    · rintro ⟨⟨binders, part⟩, isPart, free, made⟩
      exact ⟨part, ⟨binders, isPart, free⟩, made⟩
    · rintro ⟨part, ⟨binders, isPart, free⟩, made⟩
      exact ⟨(binders, part), isPart, free, made⟩

/-- All nodes of a program. -/
def nodes (p : Program) : List Node :=
  (List.range p.exprs.size).map (fun i => .expr ⟨i⟩) ++
    (List.range p.stmts.size).map (fun i => .stmt ⟨i⟩) ++
    (List.range p.decls.size).map fun i =>
      if (p.classDecl ⟨i⟩).isOk then .classDecl ⟨i⟩ else .function ⟨i⟩

theorem length_nodes (p : Program) :
    p.nodes.length = p.exprs.size + p.stmts.size + p.decls.size := by
  simp [nodes, Nat.add_assoc]

theorem raw_lt_of_decl {d : DeclId} {decl : Decl} (known : p.decl d = .ok decl) :
    d.raw < p.decls.size := by
  unfold Program.decl at known
  split at known
  · rename_i there
    exact (Array.getElem?_eq_some_iff.mp there).1
  · cases known

theorem function_mem_nodes {d : DeclId} {f : FunctionDecl} (known : p.function d = .ok f) :
    .function d ∈ p.nodes := by
  obtain ⟨decl, isDecl, kind⟩ := decl_of_function known
  have noClass : (p.classDecl d).isOk = false := by
    simp [Program.classDecl, isDecl, kind, Bind.bind, Except.bind, MonadExcept.throw, Except.isOk,
      Except.toBool, throw, throwThe, MonadExceptOf.throw]
  refine List.mem_append_right _ (List.mem_map.mpr ⟨d.raw, ?_, ?_⟩)
  · exact List.mem_range.mpr (raw_lt_of_decl isDecl)
  · simp [noClass]

theorem class_mem_nodes {d : DeclId} {c : ClassDecl} (known : p.classDecl d = .ok c) :
    .classDecl d ∈ p.nodes := by
  obtain ⟨decl, isDecl, kind⟩ := decl_of_classDecl known
  refine List.mem_append_right _ (List.mem_map.mpr ⟨d.raw, ?_, ?_⟩)
  · exact List.mem_range.mpr (raw_lt_of_decl isDecl)
  · simp [known, Except.isOk, Except.toBool]

/-- Ids that were never handed out stand for nodes without parts. -/
theorem mem_nodes (h : r ∈ p.mentions node ∨ ∃ part, part ∈ p.parts node) : node ∈ p.nodes := by
  cases node with
  | expr e =>
    by_cases inside : e.raw < p.exprs.size
    · simp only [nodes, List.mem_append, List.mem_map, List.mem_range]
      exact .inl (.inl ⟨e.raw, inside, rfl⟩)
    · have isDefault : p.expr e = default := by simp [expr, Array.getD, inside]
      rcases h with here | ⟨part, isPart⟩
      · simp [mentions, exprMentions, isDefault, default] at here
      · simp [parts, exprParts, isDefault, default] at isPart
  | stmt s =>
    by_cases inside : s.raw < p.stmts.size
    · simp only [nodes, List.mem_append, List.mem_map, List.mem_range]
      exact .inl (.inr ⟨s.raw, inside, rfl⟩)
    · have isDefault : p.stmt s = default := by simp [stmt, Array.getD, inside]
      rcases h with here | ⟨part, isPart⟩
      · simp [mentions] at here
      · simp [parts, stmtParts, blockParts, isDefault, default] at isPart
  | function d =>
    rcases h with here | ⟨part, isPart⟩
    · simp [mentions] at here
    · cases known : p.function d with
      | ok f => exact function_mem_nodes known
      | error e => simp [parts, functionParts, known, Except.toOption] at isPart
  | classDecl d =>
    rcases h with here | ⟨part, isPart⟩
    · simp [mentions] at here
    · cases known : p.classDecl d with
      | ok c => exact class_mem_nodes known
      | error e => simp [parts, classParts, known, Except.toOption] at isPart

/-- A reference that is made somewhere inside a node where its name is free, and the steps to it. -/
theorem mentions_iff_madeIn :
    (∃ trail, p.Mentions r node trail ∧ ∀ b ∈ trail, n ∉ b.taken p) ↔
      ∃ steps, p.MadeIn r n steps node := by
  constructor
  · rintro ⟨trail, made, free⟩
    induction made with
    | here made => exact ⟨0, made⟩
    | inside isPart made ih =>
      obtain ⟨steps, made⟩ := ih fun b inside => free b (List.mem_append_right _ inside)
      exact ⟨steps + 1, .inr ⟨_, ⟨_, isPart, fun b inside =>
        free b (List.mem_append_left _ inside)⟩,
        made⟩⟩
  · rintro ⟨steps, made⟩
    induction steps generalizing node with
    | zero => exact ⟨[], .here made, by simp⟩
    | succ steps ih =>
      rcases made with here | ⟨part, ⟨binders, isPart, free⟩, made⟩
      · exact ⟨[], .here here, by simp⟩
      · obtain ⟨trail, made, free'⟩ := ih made
        refine ⟨binders ++ trail, .inside isPart made, fun b inside => ?_⟩
        exact (List.mem_append.mp inside).elim (free b) (free' b)

/-- The walk finds every reference of a node whose name is free. -/
theorem refs_collects (isName : r.name? = some n) (a : Around) (node : Node) :
    Collects (p.refs a node) r (n ∉ a.bound ∧
      ∃ trail, p.Mentions r node trail ∧ ∀ b ∈ trail, n ∉ b.taken p) := by
  refine (refsAt_collects isName _ a node).congr (and_congr_right fun _ => ?_)
  rw [mentions_iff_madeIn]
  constructor
  · rintro ⟨steps, _, made⟩
    exact ⟨steps, made⟩
  · intro made
    obtain ⟨steps, lt, made⟩ := LeadsIn.bounded p.nodes
      (fun node leads => mem_nodes (leads.imp_right
      fun ⟨_, _, isPart, _⟩ => ⟨_, isPart⟩)) made
    rw [length_nodes] at lt
    exact ⟨steps, by omega, made⟩

end Walk

end Program

end ShapeCompiler.Source
