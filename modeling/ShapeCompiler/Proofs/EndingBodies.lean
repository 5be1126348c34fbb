import Mathlib.Algebra.Order.BigOperators.Group.List
import Mathlib.Algebra.Order.Group.Nat
import Mathlib.Logic.Relation
import ShapeCompiler.Proofs.EndingCalls
import ShapeCompiler.Proofs.Mentions

/-!
# Bodies and programs come to an end

Expressions are put together from earlier ones, and so are statements. So compiling them comes to an
end if every body that is asked for does. A body is asked for by a key, and one that was begun is
not begun again: if only finitely many keys are asked for, compilation comes to an end.

* `expr_ending`, `block_ending`: by induction on the number of the expression and of the statements;
* `compile_ending`: by induction on the keys that were not begun;
* `entry_ends`: so whole programs.

The start values of a class's properties are compiled where the constructor of its base is called. A
start value that calls it is compiled within itself without end, whatever it asks for.
-/

namespace ShapeCompiler

open Source Code Work

/-! ## Programs that are put together step by step -/

/-- The expression that a node is. -/
def Source.Node.expr? : Node → Option ExprId
  | .expr e => some e
  | _ => none

namespace Source.Program

/-- An expression is a part of another one. -/
def HasPart (p : Program) (e part : ExprId) : Prop := .expr part ∈ p.exprParts (p.expr e).kind

/-- Every expression is put together from expressions that were there before. -/
def ExprsFounded (p : Program) : Prop := ∀ e part, p.HasPart e part → part.raw < e.raw

/-- Every statement holds blocks of statements that were there before. -/
def StmtsFounded (p : Program) : Prop :=
  ∀ s, ∀ block ∈ (p.stmt s).kind.blocks, ∀ inner ∈ block, inner.raw < s.raw

/-- The expression calls the constructor of the base. -/
def CallsBase (p : Program) (e : ExprId) : Prop :=
  ∃ callee args target, (p.expr e).kind = .call callee args target ∧ (p.expr callee).kind = .parent

/-- No start value of a property calls the constructor of the base. -/
def StartsPlain (p : Program) : Prop :=
  ∀ cls, ∀ start ∈ p.initializers cls, ∀ e, Relation.ReflTransGen p.HasPart start
    e → ¬ p.CallsBase e

/-- An expression that is not there has no parts. -/
theorem raw_lt_of_hasPart {p : Program} {e part : ExprId} (isPart : p.HasPart e part) :
    e.raw < p.exprs.size := by
  by_contra outside
  have isDefault : p.expr e = default := by simp [expr, Array.getD, outside]
  simp [HasPart, isDefault, exprParts] at isPart

/-- A statement that is not there holds no blocks. -/
theorem raw_lt_of_mem_blocks {p : Program} {s inner : StmtId} {block : List StmtId}
    (isBlock : block ∈ (p.stmt s).kind.blocks) (inside : inner ∈ block) : s.raw < p.stmts.size := by
  by_contra outside
  have isDefault : p.stmt s = default := by simp [stmt, Array.getD, outside]
  rw [isDefault] at isBlock
  cases List.mem_singleton.mp isBlock
  cases inside

instance (p : Program) : Decidable p.ExprsFounded :=
  decidable_of_iff (∀ n < p.exprs.size, ∀ node ∈ p.exprParts (p.expr ⟨n⟩).kind, ∀ part ∈ node.expr?,
      part.raw < n) (by
    refine ⟨fun each e part isPart => each e.raw (raw_lt_of_hasPart isPart) _ isPart part rfl,
      fun founded n _ node isNode part isPart => founded ⟨n⟩ part ?_⟩
    cases node with
    | expr e =>
      cases isPart
      exact isNode
    | _ => cases isPart)

instance (p : Program) : Decidable p.StmtsFounded :=
  decidable_of_iff (∀ n < p.stmts.size, ∀ block ∈ (p.stmt ⟨n⟩).kind.blocks, ∀ inner ∈ block,
      inner.raw < n)
    ⟨fun each s block isBlock inner inside =>
        each s.raw (raw_lt_of_mem_blocks isBlock inside) block isBlock inner inside,
      fun founded n _ => founded ⟨n⟩⟩

theorem ExprsFounded.lt {p : Program} (founded : p.ExprsFounded) {e part : ExprId}
    (inner : Relation.TransGen p.HasPart e part) : part.raw < e.raw := by
  induction inner with
  | single isPart => exact founded _ _ isPart
  | tail _ isPart ih => exact (founded _ _ isPart).trans ih

end Source.Program

namespace Emit

variable {s : Setup} {keys : List FunctionKey} {base w : Work}

theorem expr_tame {e : ExprId} (h : Ending s keys base (·.expr e)) :
    Tame s keys base (·.expr e) where
  below h := h.expr e
  walks hl := hl.expr e
  ending := h

theorem exprs_tame {es : List ExprId} (each : ∀ e ∈ es, Ending s keys base (·.expr e)) :
    Tame s keys base (·.exprs es) := .mapM_mem _ fun e inside => expr_tame (each e inside)

theorem block_tame {block : List StmtId} (h : Ending s keys base (·.block block)) :
    Tame s keys base (·.block block) where
  below h := h.block block
  walks hl := hl.block block
  ending := h

theorem startValue?_eq_initializer? (d : Decl) : startValue? d = Program.initializer? d := by
  unfold startValue? Program.initializer?
  cases d.kind with
  | property q =>
    obtain ⟨ty, init, owner⟩ := q
    cases init <;> simp
  | _ => rfl

variable [s.TypesEnd] (bodies : ∀ spec, Compile.Ending s keys base (·.compile spec))

include bodies

/-! ## Start values -/

theorem initializeProperty_tame (owner : DeclId) (layout : ClassLayout) (this : ValueId) (d : Decl)
    {start : ExprId} (h : Ending s keys base (·.expr start)) :
    Tame s keys base fun l => initializeProperty l owner layout this d start where
  below h := initializeProperty_below h owner layout this d start
  walks hl := initializeProperty_walks hl owner layout this d start
  ending := by
    unfold initializeProperty
    split
    · exact .flat
    · exact .bind (expr_tame h) fun _ => .bind (Lowering.coerced_tame bodies _ _) fun _ => .flat

theorem runInitializers_tame {owner : DeclId}
    (starts : ∀ start ∈ s.program.initializers owner, Ending s keys base (·.expr start)) :
    Tame s keys base fun l => runInitializers l owner where
  below h := runInitializers_below h owner
  walks hl := runInitializers_walks hl owner
  ending := by
    refine .program_bind (.answered fun c isClass => .ite ?_ .flat)
    refine .after receiver_walks fun _ => .after (boxed_walks _) fun this => .get_bind fun f =>
      .after (.lift (Compile.layoutOf_walks _)) fun layout =>
        (Tame.forM_mem _ fun m isMember => ?_).ending
    refine ⟨⟨fun h => .next fun d => ?_, fun hl => .bind (.asks _) fun d => ?_⟩,
      .answered fun d isDecl => ?_⟩
    · split
      · exact initializeProperty_below h _ _ _ _ _
      · exact .refl _
    · split
      · exact initializeProperty_walks hl _ _ _ _ _
      · exact .pure _
    · split
      · rename_i start isStart
        refine (initializeProperty_tame bodies owner layout this d (starts start ?_)).ending
        rw [startValue?_eq_initializer?] at isStart
        simp only [Program.initializers, isClass, Except.toOption, Option.elim_some,
          List.mem_filterMap]
        exact ⟨m, isMember, by simp [isDecl, isStart]⟩
      · exact .flat (m := pure ())

theorem callBaseConstructor_tame
    (starts : ∀ owner, ∀ start ∈ s.program.initializers owner, Ending s keys base (·.expr start))
    (args : List Operand) : Tame s keys base fun l => callBaseConstructor l args where
  below h := callBaseConstructor_below h args
  walks hl := callBaseConstructor_walks hl args
  ending := by
    refine .get_bind fun f => ?_
    split
    · exact .flat
    · refine .asks fun c => ?_
      split
      · exact .flat
      · exact .after receiver_walks fun _ => .after (boxed_walks _) fun _ => .get_bind fun _ =>
          .bind (runConstructor_tame bodies _ _ _ _) fun _ =>
            .bind (runInitializers_tame bodies (starts _)) fun _ => .flat

/-! ## Expressions -/

theorem callFound_ending {args : List ExprId} (areArgs : Tame s keys base (·.exprs args))
    (this : Operand)
    (n : Name) (method : Option (DeclId × DeclId)) :
    Ending s keys base fun l => callFound l this n args method := by
  unfold callFound
  split
  · refine .bind areArgs fun _ => .bind (virtualSlot_tame bodies _ _) fun slot => ?_
    split
    · exact virtualCall_ending bodies _ _ _ _ _
    · exact (callDecl_tame bodies _ _ _).ending
  · exact .bind (readProperty_tame bodies _ _) fun _ => .bind areArgs fun _ =>
      (callValue_tame bodies _ _).ending

theorem memberCall_ending {object : ExprId} {args : List ExprId}
    (areArgs : Tame s keys base (·.exprs args))
    (isObject : Tame s keys base (·.expr object)) (n : Name) :
    Ending s keys base fun l => memberCall l object n args := by
  refine .program_bind ?_
  split
  · exact .bind areArgs fun _ => callParentMethod_ending bodies _ _
  · refine .after (className?_walks _) fun cls => ?_
    split
    · exact .bind areArgs fun _ => callStatic_ending bodies _ _ _
    · refine .bind isObject fun _ => .after (toBoxed_walks _) fun this => ?_
      dsimp only
      split
      · exact .asks fun _ => .after (.lift (findMember_walks _ _ _)) fun _ =>
            .after (.pure _) fun _ =>
          callFound_ending bodies areArgs this n _
      · exact .after (.pure _) fun _ => callFound_ending bodies areArgs this n _

theorem nameCall_ending {args : List ExprId} (areArgs : Tame s keys base (·.exprs args)) (n : Name)
    (target : Option DeclId) : Ending s keys base fun l => nameCall l n args target := by
  refine .after (lookup_walks n) fun binding => ?_
  split
  · exact .bind areArgs fun _ => (callDecl_tame bodies _ _ _).ending
  · exact .bind (readName_tame bodies _) fun _ => .bind areArgs fun _ =>
      (callValue_tame bodies _ _).ending
  · exact .bind (readName_tame bodies _) fun _ => .bind areArgs fun _ =>
      (callValue_tame bodies _ _).ending
  · exact .flat
  · exact .bind areArgs fun _ => (callDecl_tame bodies _ _ _).ending
  · exact .flat

omit bodies [s.TypesEnd] in
theorem propertyValues_tame (fields : List (Name × ExprId)) (values : List (Name × Operand))
    (each : ∀ f ∈ fields, Ending s keys base (·.expr f.2)) :
    Tame s keys base fun l => propertyValues l fields values := by
  induction fields generalizing values with
  | nil => exact .flat (m := pure values) (.pure _)
  | cons field rest ih =>
    exact .bind (expr_tame (each field List.mem_cons_self)) fun _ =>
        .after (toBoxed_walks _) fun _ =>
      ih _ fun f inside => each f (List.mem_cons_of_mem _ inside)

section Expressions

variable {e : ExprId}
  (parts : ∀ part, Relation.TransGen s.program.HasPart e part → Ending s keys base (·.expr part))

include parts

theorem assign_ending {target value : ExprId}
    (isKind : (s.program.expr e).kind = .assign target value) :
    Ending s keys base fun l => assign l target value := by
  have isTarget : s.program.HasPart e target := by simp [Program.HasPart, isKind, Program.exprParts]
  have isValue : s.program.HasPart e value := by simp [Program.HasPart, isKind, Program.exprParts]
  have value := expr_tame (parts value (.single isValue))
  refine .program_bind ?_
  split
  · exact .bind value fun _ => (assignName_tame bodies _ _).ending
  · rename_i object n isProperty
    have isObject : s.program.HasPart target object := by
      simp [Program.HasPart, isProperty, Program.exprParts]
    have object := expr_tame (parts object (.head isTarget (.single isObject)))
    refine .after (className?_walks _) fun cls => ?_
    split
    · exact .bind value fun _ => writeStatic_ending bodies _ _ _
    · exact .bind object fun _ => .after (toBoxed_walks _) fun _ => .bind value fun _ =>
        writeProperty_ending bodies _ _ _
  · exact .flat

omit bodies [s.TypesEnd] in
theorem binary_ending {op : Source.BinaryOp} {lhs rhs : ExprId}
    (isKind : (s.program.expr e).kind = .binary op lhs rhs) :
    Ending s keys base fun l => binary l op lhs rhs := by
  have isLeft : s.program.HasPart e lhs := by simp [Program.HasPart, isKind, Program.exprParts]
  have isRight : s.program.HasPart e rhs := by simp [Program.HasPart, isKind, Program.exprParts]
  have left := expr_tame (parts lhs (.single isLeft))
  have right := expr_tame (parts rhs (.single isRight))
  have isLogical (isAnd : Bool) : Ending s keys base fun l => logical l isAnd lhs rhs := by
    have rest (result : ValueId) (rhsBlock done : BlockId) : Ending s keys base fun l => (do
        Draft.moveTo rhsBlock
        let right ← truthy (← l.expr rhs)
        Draft.store right result
        Draft.br done
        Draft.moveTo done
        return .raw (← Draft.load .i1 result "logic") .boolean : Emit Operand) :=
      .draft fun _ => .bind right fun _ => .flat
    refine .draft fun result => .bind left fun _ => .after (truthy_walks _) fun left =>
      .draft fun _ => .draft fun rhsBlock => .draft fun done => ?_
    exact .ite (.draft fun _ => rest result rhsBlock done)
      (.draft fun _ => rest result rhsBlock done)
  unfold binary
  split
  · exact isLogical _
  · exact isLogical _
  · exact .bind left fun _ => .bind right fun _ => .flat

theorem update_ending {op : UnaryOp} {operand : ExprId} (increment before : Bool)
    (isKind : (s.program.expr e).kind = .unary op operand) :
    Ending s keys base fun l => update l increment before operand := by
  have isOperand : s.program.HasPart e operand := by simp [Program.HasPart, isKind,
    Program.exprParts]
  have target : Ending s keys base fun l => updateTarget l operand := by
    refine .program_bind ?_
    split
    · exact .bind (readName_tame bodies _) fun _ => .flat
    · rename_i object n isProperty
      have isObject : s.program.HasPart operand object := by
        simp [Program.HasPart, isProperty, Program.exprParts]
      exact .bind (expr_tame (parts object (.head isOperand (.single isObject)))) fun _ =>
        .after (toBoxed_walks _) fun _ => .bind (readProperty_tame bodies _ _) fun _ => .flat
    · exact .flat
  refine .bind ⟨⟨fun h => updateTarget_below h operand, fun hl => updateTarget_walks hl operand⟩,
    target⟩
    fun found => ?_
  obtain ⟨old, target⟩ := found
  refine .ite .flat (.after (raw_walks _) fun _ => .draft fun _ => .draft fun _ => ?_)
  cases target with
  | name n => exact .bind (assignName_tame bodies _ _).discard fun _ => .flat
  | property object n => exact .bind (writeProperty_tame bodies _ _ _).discard fun _ => .flat

theorem unary_ending {op : UnaryOp} {operand : ExprId}
    (isKind : (s.program.expr e).kind = .unary op operand) :
    Ending s keys base fun l => unary l op operand := by
  have isOperand : s.program.HasPart e operand := by simp [Program.HasPart, isKind,
    Program.exprParts]
  have value := expr_tame (parts operand (.single isOperand))
  cases op with
  | neg => exact .bind value fun _ => .flat
  | not => exact .bind value fun _ => .flat
  | _ => exact update_ending bodies parts _ _ isKind

theorem property_ending {object : ExprId} {n : Name}
    (isKind : (s.program.expr e).kind = .property object n) :
    Ending s keys base fun l => property l object n := by
  have isObject : s.program.HasPart e object := by simp [Program.HasPart, isKind, Program.exprParts]
  refine .program_bind ?_
  split
  · exact readParent_ending bodies n
  · refine .after (className?_walks _) fun cls => ?_
    split
    · exact (readStatic_tame bodies _ _).ending
    · exact .bind (expr_tame (parts object (.single isObject))) fun _ =>
        readProperty_ending bodies _ _

omit bodies [s.TypesEnd] in
theorem objectLiteral_ending {fields : List (Name × ExprId)}
    (isKind : (s.program.expr e).kind = .object fields) :
    Ending s keys base fun l => objectLiteral l fields := by
  refine .bind (propertyValues_tame fields [] fun f inside => parts f.2 (.single ?_)) fun _ => .flat
  simp only [Program.HasPart, isKind, Program.exprParts, List.mem_map]
  exact ⟨f, inside, rfl⟩

theorem call_ending {callee : ExprId} {args : List ExprId} {target : Option DeclId}
    (super : s.program.CallsBase e → ∀ args, Ending s keys base fun l => callBaseConstructor l args)
    (isKind : (s.program.expr e).kind = .call callee args target) :
    Ending s keys base fun l => call l callee args target := by
  have isArg (arg : ExprId) (inside : arg ∈ args) : s.program.HasPart e arg := by
    simp [Program.HasPart, isKind, Program.exprParts, inside]
  have areArgs := exprs_tame fun arg inside => parts arg (.single (isArg arg inside))
  refine .program_bind ?_
  split
  · rename_i isParent
    exact .bind areArgs fun _ => super ⟨callee, args, target, isKind, isParent⟩ _
  · rename_i object n isProperty
    have isCallee : s.program.HasPart e callee := by
      simp [Program.HasPart, isKind, Program.exprParts, Program.calleeParts, isProperty]
    have isObject : s.program.HasPart callee object := by
      simp [Program.HasPart, isProperty, Program.exprParts]
    exact memberCall_ending bodies areArgs (expr_tame
      (parts object (.head isCallee (.single isObject)))) n
  · exact nameCall_ending bodies areArgs _ target
  · rename_i notParent notProperty notIdent
    have isCallee : s.program.HasPart e callee := by
      simp only [Program.HasPart, isKind, Program.exprParts, List.mem_append]
      refine .inl ?_
      unfold Program.calleeParts
      split
      · rename_i n _ isIdent
        exact absurd isIdent (notIdent n)
      · exact List.mem_singleton_self _
    exact .bind (expr_tame (parts callee (.single isCallee))) fun _ => .bind areArgs fun _ =>
      (callValue_tame bodies _ _).ending

/-- One case per kind of expression. -/
theorem exprKind_ending
    (super : s.program.CallsBase e → ∀ args, Ending s keys base fun l => callBaseConstructor l args)
    :
    Ending s keys base fun l => exprKind l (s.program.expr e).kind := by
  cases isKind : (s.program.expr e).kind with
  | ident n => exact (readName_tame bodies n).ending
  | property object n => exact property_ending bodies parts isKind
  | call callee args target => exact call_ending bodies parts super isKind
  | construct cls args =>
    refine .bind (exprs_tame fun arg inside => parts arg (.single ?_)) fun _ =>
      construct_ending bodies _ _
    simp [Program.HasPart, isKind, Program.exprParts, inside]
  | function d => exact (functionValue_tame bodies d).ending
  | object fields => exact objectLiteral_ending parts isKind
  | assign target value => exact assign_ending bodies parts isKind
  | binary op lhs rhs => exact binary_ending parts isKind
  | unary op operand => exact unary_ending bodies parts isKind
  | convert value ty =>
    refine .bind (expr_tame (parts value (.single ?_))) fun _ => .after (infoOf_walks _) fun _ =>
      (Lowering.coerce_tame bodies _ _).ending
    simp [Program.HasPart, isKind, Program.exprParts]
  | _ =>
    simp only [exprKind]
    exact .flat

end Expressions

/-- An expression that calls no constructor of a base. By induction on its number. -/
theorem plain_ending (founded : s.program.ExprsFounded) {e : ExprId}
    (plain : ∀ part, Relation.ReflTransGen s.program.HasPart e part → ¬ s.program.CallsBase part) :
    Ending s keys base (·.expr e) := by
  induction number : e.raw using Nat.strong_induction_on generalizing e with
  | _ n ih =>
    subst number
    refine .next (m := fun l => expr l e) (fun _ => rfl) (.program_bind (.locate _ ?_))
    exact exprKind_ending bodies (fun part inner => ih part.raw (founded.lt inner)
      (fun further goesOn => plain further (inner.to_reflTransGen.trans goesOn)) rfl)
      fun calls => absurd calls (plain e .refl)

variable (founded : s.program.ExprsFounded) (plain : s.program.StartsPlain)

include founded plain

theorem baseConstructor_tame (args : List Operand) :
    Tame s keys base fun l => callBaseConstructor l args :=
  callBaseConstructor_tame bodies (fun owner start isStart =>
    plain_ending bodies founded (plain owner start isStart)) args

/-- By induction on the number of the expression. -/
theorem expr_ending (e : ExprId) : Ending s keys base (·.expr e) := by
  induction number : e.raw using Nat.strong_induction_on generalizing e with
  | _ n ih =>
    subst number
    refine .next (m := fun l => expr l e) (fun _ => rfl) (.program_bind (.locate _ ?_))
    exact exprKind_ending bodies (fun part inner => ih part.raw (founded.lt inner) part rfl)
      fun _ args => (baseConstructor_tame bodies founded plain args).ending

theorem anyExpr_tame (e : ExprId) : Tame s keys base (·.expr e) :=
  expr_tame (expr_ending bodies founded plain e)

/-! ## Statements -/

theorem initializeStatics_ending (cls : DeclId) :
    Ending s keys base fun l => initializeStatics l cls := by
  refine .asks fun c => (Tame.forM (fun m => .after (.asks _) fun d => ?_) _).ending
  split
  · exact .after (staticVariable_walks _) fun _ =>
      .bind (anyExpr_tame bodies founded plain _) fun _ => (storeStatic_tame bodies _ _ _).discard
  · exact .flat (m := pure ()) (.pure _)

theorem bind_ending (decl : DeclId) (init : Option ExprId) :
    Ending s keys base fun l => Emit.bind l decl init := by
  refine .asks fun d => ?_
  split
  · refine .after (.optionMapM infoOf_walks _) fun declared => .bind ?_ fun start =>
      .bind (Lowering.coerced_tame bodies _ _) fun _ => .flat
    cases init with
    | none => exact .flat (m := nullValue .null) (nullValue_walks _)
    | some e => exact anyExpr_tame bodies founded plain e
  · exact .flat

omit founded plain in
/-- What a body returns without a declared type is decided on the way, so that the frame is not
kept. -/
theorem returnValue_ending (v : Option Operand) : Ending s keys base fun l => returnValue l v := by
  refine .get_bind fun f => ?_
  have last (v : Operand) (target : Info) : Ending s keys base fun l => (do
      let p ← l.coerced v target
      Draft.ret (some p) : Emit Unit) := .bind (Lowering.coerced_tame bodies _ _) fun _ => .flat
  have start : Walks s (v.elim (nullValue .void) pure) := by
    cases v with
    | none => exact nullValue_walks _
    | some v => exact .pure v
  split
  · exact .flat
  · exact .flat
  · refine .after start fun v => ?_
    dsimp only
    split
    · exact .after_ends (fun _ _ grounded => ⟨.refl _, grounded⟩) fun _ => last v _
    · exact last v _

omit bodies founded plain [s.TypesEnd] in
theorem stmts_tame {block : List StmtId} (each : ∀ id ∈ block, Tame s keys base fun l => stmt l id)
    :
    Tame s keys base fun l => stmts l block := by
  induction block with
  | nil => exact .flat (m := pure ()) (.pure _)
  | cons id rest ih =>
    have others := ih fun id inside => each id (List.mem_cons_of_mem _ inside)
    exact {
      below := fun h => stmts_below h (id :: rest)
      walks := fun hl => stmts_walks hl (id :: rest)
      ending := .after isClosed_walks fun _ =>
          .ite .flat (.bind (each id List.mem_cons_self) fun _ =>
        others.ending) }

/-- A statement comes to an end if its blocks do. -/
theorem stmt_ending {id : StmtId}
    (blocks : ∀ block ∈ (s.program.stmt id).kind.blocks, Ending s keys base (·.block block)) :
    Ending s keys base fun l => stmt l id := by
  refine .program_bind (.locate _ ?_)
  have isNested (block : List StmtId) (inside : block ∈ (s.program.stmt id).kind.blocks) :
      Tame s keys base fun l => nested l block := {
    below := fun h => nested_below h block
    walks := fun hl => nested_walks hl block
    ending := .get_bind fun _ => .after (.modify fun _ => ⟨rfl, rfl⟩) fun _ =>
      .bind (block_tame (blocks block inside)) fun _ => .flat }
  cases isKind : (s.program.stmt id).kind with
  | bind decl init => exact bind_ending bodies founded plain decl init
  | expr e => exact (anyExpr_tame bodies founded plain e).discard.ending
  | ret v =>
    exact .bind (.optionMapM (anyExpr_tame bodies founded plain) v) fun _ =>
      returnValue_ending bodies _
  | branch cond thenStmts elseStmts =>
    have isThen := isNested thenStmts (by simp [isKind, StmtKind.blocks])
    have isElse := isNested elseStmts (by simp [isKind, StmtKind.blocks])
    exact .bind (anyExpr_tame bodies founded plain cond) fun _ => .after (truthy_walks _) fun _ =>
      .draft fun _ => .draft fun _ => .draft fun _ => .draft fun _ => .draft fun _ =>
        .bind isThen fun _ => .after (brUnlessClosed_walks _) fun _ => .draft fun _ =>
          .bind isElse fun _ => .flat
  | loop cond body =>
    have isBody := isNested body (by simp [isKind, StmtKind.blocks])
    exact .draft fun _ => .draft fun _ => .draft fun _ => .draft fun _ => .draft fun _ =>
      .bind (anyExpr_tame bodies founded plain cond) fun _ => .after (truthy_walks _) fun _ =>
        .draft fun _ => .draft fun _ => .bind isBody fun _ => .flat
  | block body => exact (isNested body (by simp [isKind, StmtKind.blocks])).ending
  | function d => exact .flat (m := pure ())
  | classDecl d => exact initializeStatics_ending bodies founded plain d

/-! ## Bodies -/

theorem runDefault_tame (param : DeclId) : Tame s keys base fun l => runDefault l param where
  below h := runDefault_below h param
  walks hl := runDefault_walks hl param
  ending := by
    refine .asks fun q => ?_
    split
    · exact .flat (m := pure ())
    · refine .asks fun d => .get_bind fun f => ?_
      split
      · exact .after (.text _) fun _ => .draft fun _ => .after (isAbsent_walks _) fun _ =>
          .draft fun _ => .draft fun _ => .draft fun _ => .draft fun _ =>
            .bind (anyExpr_tame bodies founded plain _) fun _ =>
              .bind (Lowering.coerced_tame bodies _ _) fun _ => .flat
      · exact .flat (m := pure ())

theorem startConstructor_tame (f : FunctionDecl) :
    Tame s keys base fun l => startConstructor l f where
  below h := startConstructor_below h f
  walks hl := startConstructor_walks hl f
  ending := by
    unfold startConstructor
    split
    · exact .asks fun _ => .ite (runInitializers_tame bodies fun start _ =>
        expr_ending bodies founded plain start).ending .flat
    · exact .flat

theorem implicitConstructor_tame (cls : DeclId) :
    Tame s keys base fun l => implicitConstructor l cls where
  below h := implicitConstructor_below h cls
  walks hl := implicitConstructor_walks hl cls
  ending := .asks fun _ => .ite (runInitializers_tame bodies fun start _ =>
      expr_ending bodies founded plain start).ending
    (.asks fun _ => .after (.mapM (forwardedArgument_walks cls) _) fun _ =>
      (baseConstructor_tame bodies founded plain _).discard.ending)

variable (blocks : s.program.StmtsFounded)

include blocks

/-- By induction on a bound for the numbers of the statements. -/
theorem block_ending (block : List StmtId) : Ending s keys base (·.block block) := by
  obtain ⟨n, bound⟩ : ∃ n, ∀ id ∈ block, id.raw < n :=
    ⟨(block.map (·.raw)).sum + 1, fun id inside =>
      Nat.lt_succ_of_le (List.le_sum_of_mem (List.mem_map_of_mem inside))⟩
  induction n using Nat.strong_induction_on generalizing block with
  | _ n ih =>
    have each (id : StmtId) (inside : id ∈ block) : Tame s keys base fun l => stmt l id := {
      below := fun h => stmt_below h id
      walks := fun hl => stmt_walks hl id
      ending := stmt_ending bodies founded plain fun inner isBlock =>
        ih id.raw (bound id inside) inner (blocks id inner isBlock) }
    exact .next (m := fun l => Emit.block l block) (fun _ => rfl)
        (.after (hoist_walks block) fun decls =>
      .after (openBlock_walks _) fun _ => .bind (stmts_tame each) fun _ => .flat)

theorem functionBody_tame (d : DeclId) : Tame s keys base fun l => functionBody l d where
  below h := functionBody_below h d
  walks hl := functionBody_walks hl d
  ending := by
    refine .asks fun f => .bind (.forM (runDefault_tame bodies founded plain) _) fun _ =>
      .bind (startConstructor_tame bodies founded plain f) fun _ => ?_
    split
    · exact block_ending bodies founded plain blocks _
    · exact .bind (anyExpr_tame bodies founded plain _) fun _ => returnValue_ending bodies _
    · exact .flat

theorem wholeBody_ending (spec : Specialization) (env : EnvId) (site : Site) :
    Ending s keys base fun l => wholeBody l spec env site := by
  have last : Ending s keys base fun l => (do unless ← isClosed do returnValue l none :
      Emit Unit) :=
    .after isClosed_walks fun _ => .ite .flat (returnValue_ending bodies none)
  refine .after (prologue_walks _ _ _) fun _ => ?_
  dsimp only
  split
  · exact .bind (functionBody_tame bodies founded plain blocks _) fun _ => last
  · exact .bind (implicitConstructor_tame bodies founded plain _) fun _ => last

end Emit

/-! ## Keys -/

namespace Compile

variable {s : Setup} {keys : List FunctionKey} {base w : Work} [s.TypesEnd]

/-- How many of the bodies were not begun. -/
def missing (keys : List FunctionKey) (w : Work) : Nat :=
  (keys.filter fun key => (w.functions.get? key).isNone).length

/-- One that was begun since is not missing any more. -/
theorem missing_lt {w w' : Work} {key : FunctionKey} (asked : key ∈ keys)
    (new : w.functions.get? key = none) (begun : (w'.functions.get? key).isSome)
    (kept : ∀ key c, w.functions.get? key = some c → (w'.functions.get? key).isSome) :
    missing keys w' < missing keys w := by
  have fewer : (keys.filter fun key => (w'.functions.get? key).isNone) =
      (keys.filter fun key => (w.functions.get? key).isNone).filter
        fun key => (w'.functions.get? key).isNone := by
    rw [List.filter_filter]
    refine List.filter_congr fun key _ => ?_
    cases known : w.functions.get? key with
    | none => simp
    | some c => simpa using kept key c known
  rw [missing, missing, fewer]
  refine List.length_filter_lt_length_iff_exists.mpr
    ⟨key, List.mem_filter.mpr ⟨asked, by simp [new]⟩, ?_⟩
  simpa using Option.isSome_iff_ne_none.mp begun

variable (founded : s.program.ExprsFounded) (plain : s.program.StartsPlain)
  (blocks : s.program.StmtsFounded)

include founded plain blocks

theorem body_ending (bodies : ∀ spec, Ending s keys base (·.compile spec)) (spec : Specialization)
    (func : FuncId) (env : EnvId) (returning : Returning) :
    Ending s keys base fun l => body l spec func env returning := by
  have whole (site : Site) : Emit.Leveled s fun l => Emit.wholeBody l spec env site :=
    ⟨fun h => Emit.wholeBody_below h spec env site, fun hl => Emit.wholeBody_walks hl spec env site⟩
  refine .after (siteOf_walks _) fun site => .after .get fun v =>
      .after (memberOwnerOf_walks _ _) fun owner =>
    .bind (.run (whole site) ?_) (.run (Emit.wholeBody_ending bodies founded plain blocks
      spec env site) ?_)
      fun _ => .flat
  · rintro _ _ ⟨⟩
  · rintro _ _ ⟨⟩

omit founded plain blocks [s.TypesEnd] in
/-- What comes before a body is recorded begins none. -/
theorem before_body {spec : Specialization} {env : EnvId} {symbol : String} {func : FuncId}
    {ret : Returning} {w₁ w₂ w₃ w₄ : Work} (moment : Moment s w)
    (ran₁ : environmentOf spec.key.subject.decl s w = .ok env w₁)
    (ran₂ : symbolOf spec.key s w₁ = .ok symbol w₂)
    (ran₃ : declareCompiled symbol 1 s w₂ = .ok func w₃)
    (ran₄ : returning spec.key.subject spec.bindings s w₃ = .ok ret w₄) :
    Reaches s w w₄ ∧ w₄.functions = w.functions ∧
      w₄.registry.declEnv? spec.key.subject.decl = some env := by
  obtain ⟨there₁, bound⟩ := (environmentOf_ends moment _).of_ok ran₁
  have moment₁ := moment.later there₁.later
  obtain ⟨there₂, _⟩ := ((symbolOf_walks _).ends moment₁).of_ok ran₂
  have moment₂ := moment₁.later there₂.later
  obtain ⟨there₃, _⟩ := ((declareCompiled_walks _ _).ends moment₂).of_ok ran₃
  obtain ⟨there₄, _⟩ := ((returning_walks _ _).ends (moment₂.later there₃.later)).of_ok ran₄
  have same : w₄.functions = w.functions := by
    rw [((returning_quiet _ _).still ran₄).made, ((declareCompiled_mild _ _).calm ran₃).made,
      ((symbolOf_quiet _).still ran₂).made, (Calm.of_beside (environmentOf_beside ran₁)).made]
  have since₁ := (there₂.trans there₃).trans there₄
  exact ⟨there₁.trans since₁, same, since₁.later.extends.registry.declEnv _ _ bound⟩

/-- Every body comes to an end. By induction on the bodies that were not begun: one that is new is
recorded before it is compiled. -/
theorem compile_ending (spec : Specialization) : Ending s keys base (·.compile spec) := by
  induction number : missing keys base using Nat.strong_induction_on generalizing base spec with
  | _ n ih =>
    subst number
    refine .next (m := fun l => function l spec) (fun _ => rfl) fun w there moment => ?_
    refine not_bottomless_after fun _ w₀ got => ?_
    cases got
    split
    · exact not_bottomless_flat
    rename_i new
    refine not_bottomless_after fun env w₁ ran₁ => not_bottomless_after fun symbol w₂ ran₂ =>
      not_bottomless_after fun func w₃ ran₃ => not_bottomless_after fun ret w₄ ran₄ => ?_
    obtain ⟨there₄, same, bound⟩ := before_body moment ran₁ ran₂ ran₃ ran₄
    set c : CompiledFunction := ⟨func, env, spec.key.params, ret.info .any⟩
    have again : ∀ c', w₄.functions.get? spec.key = some c' → c'.func = c.func := by
      intro c' known
      rw [same, new] at known
      cases known
    let begun : Work := { w₄ with functions := w₄.functions.insert spec.key c }
    have here : begun.functions.get? spec.key = some c := Table.get?_insert_self _ _ _
    have moment₅ : Moment s begun := (moment.later there₄.later).later
      (Step.function bound rfl again).later
    refine not_bottomless_after fun _ w₅ recorded => ?_
    obtain rfl : begun = w₅ := by cases recorded; rfl
    refine not_bottomless_bind (fun below => body_below below spec func env ret) (fun deep => ?_)
      fun _ _ _ _ => not_bottomless_flat
    have confined := deep.confined fun depth =>
      body_ends (Lowering.ofDepth_walks depth) moment₅ spec func env ret
    have fewer : missing keys begun < missing keys base := by
      refine missing_lt (confined.bodies _ _ here) ?_ (here ▸ rfl) fun key c' known => ?_
      · by_contra known
        obtain ⟨c', known⟩ := Option.ne_none_iff_exists'.mp known
        rw [there.functions _ _ known] at new
        cases new
      · rw [Table.get?_insert]
        split
        · rfl
        · exact same ▸ there.functions key c' known ▸ rfl
    exact body_ending founded plain blocks (fun spec => ih _ fewer spec rfl) spec func env ret begun
      (.refl _) moment₅ deep

/-! ## Whole programs -/

omit founded plain blocks [s.TypesEnd] in
theorem entryDeclared_moment : Moment s
    { Work.start with code := (startModule.2.declare s.config.entryName [] .void).2 } := by
  cases found : startModule.2.functionByName s.config.entryName with
  | none => exact .step .same (Step.declare (w := .start) s.config.entryName [] .void found)
  | some f =>
    have same : startModule.2.declare s.config.entryName [] .void = (f, startModule.2) := by
      simp [Module.declare, found]
    rw [same]
    exact .same

theorem entry_ends : ¬ Bottomless s keys entry .start := by
  refine not_bottomless_after fun _ w₀ got => ?_
  cases got
  refine not_bottomless_after fun _ w₁ declared => ?_
  cases declared
  have whole : Emit.Tame s keys
      { Work.start with code := (startModule.2.declare s.config.entryName [] .void).2 } fun l => (do
        l.block s.program.entry
        unless ← Emit.isClosed do Draft.ret none : Emit Unit) :=
    .bind (Emit.block_tame (Emit.block_ending (compile_ending founded plain blocks) founded
      plain blocks _))
      fun _ => .flat (.bind Emit.isClosed_walks fun _ => .ite (.pure _) (.draft _))
  exact not_bottomless_bind (fun below => whole.below below _)
    (whole.ending _ _ (.refl _) entryDeclared_moment (by rintro _ ⟨⟩)) fun _ _ _ _ =>
      not_bottomless_flat

/-- If whatever the limit only these bodies are begun, a limit is enough. -/
theorem entry_ended (confined : ∀ limit, (endOf (entry (.ofDepth limit)) s .start).Confined s keys)
    :
    ∃ limit, Ended (entry (.ofDepth limit)) s .start := by
  by_contra deep
  simp only [not_exists, Ended, not_forall, not_not] at deep
  have ends : ¬ Bottomless s keys entry .start := entry_ends founded plain blocks
  refine ends ⟨0, fun limit _ => ?_⟩
  obtain ⟨e, w', failed, isDeep⟩ := deep limit
  refine ⟨e, w', failed, isDeep, ?_⟩
  simpa only [endOf, failed] using confined limit

end Compile

/-- If whatever the limit only these bodies are begun, there is a limit from which on the program
compiles, or fails, to the same. -/
theorem compileUnit_ends {p : Program} {r : Resolver} {c : Config} {keys : List FunctionKey}
    [(Setup.of p r c).TypesEnd] (founded : p.ExprsFounded) (plain : p.StartsPlain)
    (blocks : p.StmtsFounded) (confined : ∀ limit,
      (Compile.endOf (Compile.entry (.ofDepth limit)) (.of p r c) .start).Confined (.of p r c) keys)
      :
    ∃ limit, (∀ failure, compileUnitWithin limit p r c = .error failure →
    failure.cause ≠ .tooDeep) ∧
      ∀ limit', limit ≤ limit' → compileUnitWithin limit' p r c =
      compileUnitWithin limit p r c := by
  obtain ⟨limit, ended⟩ := Compile.entry_ended founded plain blocks confined
  have within : ∀ failure, compileUnitWithin limit p r c = .error failure →
      failure.cause ≠ .tooDeep := by
    intro failure failed
    simp only [compileUnitWithin, ReaderT.run, EStateM.run] at failed
    split at failed
    · cases failed
    · rename_i ran
      cases failed
      exact ended _ _ ran
  exact ⟨limit, within, fun limit' le => compileUnitWithin_below le within⟩

end ShapeCompiler
