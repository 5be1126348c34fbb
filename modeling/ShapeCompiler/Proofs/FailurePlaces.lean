import ShapeCompiler.Proofs.UnboundNames
import ShapeCompiler.Source.Construction

/-!
# Places of failures

A failure has no place where it comes up, and gets that of the innermost expression or statement
around.

* `Construction.Made`: what is built step by step; each expression and each statement has a place;
* `Emit.Placed`: a step whose failures have a place;
* `failure_placed`: a compilation that fails names an expression or a statement that fails of
  itself.

That a place is that of a node which fails of itself holds of every part of the compiler, as a part
of what `Compile.Ends` says of failures. That there is a place is due to the statements at the top.
-/

namespace ShapeCompiler

open Source Code Work

/-! ## Programs that are built -/

namespace Source

/-- The place is that of an expression or a statement of the program. -/
def Program.HasPlace (p : Program) (span : Span) : Prop :=
  (∃ e ∈ p.exprs, e.span = span) ∨ ∃ st ∈ p.stmts, st.span = span

/-- Where the statement declares a function or a class, there is a declaration. -/
def Program.NamesDecl (p : Program) (id : StmtId) : Prop :=
  ∀ d, (p.stmt id).kind = .function d ∨ (p.stmt id).kind = .classDecl d → ∃ decl,
    p.decl d = .ok decl

/-- Whether there is a declaration where the statement declares a function or a class. -/
def Program.namesDecl (p : Program) (id : StmtId) : Bool :=
  match (p.stmt id).kind with
  | .function d | .classDecl d => (p.decl d).isOk
  | _ => true

theorem Program.of_namesDecl {p : Program} {id : StmtId} (h : p.namesDecl id) : p.NamesDecl id := by
  unfold namesDecl at h
  rintro d (isFunction | isClass)
  · rw [isFunction] at h
    exact isOk_iff.mp h
  · rw [isClass] at h
    exact isOk_iff.mp h

namespace Construction

/-- What is built step by step from nothing. The other functions that build programs put these steps
together. A statement at the top is one that was built. -/
inductive Made : Construction → Prop
  | start : Made {}
  | intern {b : Construction} (h : Made b) (text : String) : Made (intern text b).2
  | addType {b : Construction} (h : Made b) (add : TypeStore → TypeId × TypeStore) :
    Made (addType add b).2
  | pushDecl {b : Construction} (h : Made b) (name : String) (flags : Flags) (kind : DeclKind) :
    Made (pushDecl name flags kind b).2
  | modifyDecl {b : Construction} (h : Made b) (id : DeclId) (f : Decl → Decl) :
    Made (modifyDecl id f b).2
  | expr {b : Construction} (h : Made b) (kind : ExprKind) : Made (expr kind b).2
  | stmt {b : Construction} (h : Made b) (kind : StmtKind) : Made (stmt kind b).2
  | pushEntry {b : Construction} (h : Made b) {id : StmtId}
    (there : id.raw < b.program.stmts.size) :
    Made (pushEntry id b).2

/-- Every node has a place, and the statements at the top are there. -/
structure Places (p : Program) : Prop where
  exprs : ∀ e ∈ p.exprs, e.span.isDummy = false
  stmts : ∀ st ∈ p.stmts, st.span.isDummy = false
  entry : ∀ id ∈ p.entry, id.raw < p.stmts.size

theorem isDummy_next (n : Nat) : Span.isDummy ⟨n + 1, n + 2⟩ = false := by
  simp [Span.isDummy, Span.dummy]

theorem Made.places {b : Construction} (h : b.Made) : Places b.program := by
  induction h with
  | start => exact ⟨by simp, by simp, by simp⟩
  | intern _ _ ih => exact ⟨ih.exprs, ih.stmts, ih.entry⟩
  | addType _ _ ih => exact ⟨ih.exprs, ih.stmts, ih.entry⟩
  | pushDecl _ _ _ _ ih => exact ⟨ih.exprs, ih.stmts, ih.entry⟩
  | modifyDecl _ _ _ ih => exact ⟨ih.exprs, ih.stmts, ih.entry⟩
  | @expr b _ kind ih =>
    refine ⟨fun e inside => ?_, ih.stmts, ih.entry⟩
    rcases Array.mem_push.mp inside with old | rfl
    · exact ih.exprs e old
    · exact isDummy_next b.offset
  | @stmt b _ kind ih =>
    have added : (Construction.stmt kind b).2.program.stmts =
        b.program.stmts.push ⟨kind, ⟨b.offset + 1, b.offset + 2⟩⟩ := rfl
    refine ⟨ih.exprs, fun st inside => ?_, fun id isEntry => ?_⟩
    · rcases Array.mem_push.mp inside with old | rfl
      · exact ih.stmts st old
      · exact isDummy_next b.offset
    · rw [added, Array.size_push]
      exact Nat.lt_succ_of_lt (ih.entry id isEntry)
  | @pushEntry b _ new there ih =>
    refine ⟨ih.exprs, ih.stmts, fun id isEntry => ?_⟩
    rcases List.mem_append.mp isEntry with old | isNew
    · exact ih.entry id old
    · obtain rfl := List.mem_singleton.mp isNew
      exact there

end Construction

end Source

/-! ## Steps whose failures have a place -/

namespace Emit

variable {s : Setup} {α β : Type}

/-- Where the step fails, the failure has a place. -/
def Placed (s : Setup) (m : Emit α) : Prop :=
  ∀ f w e w', m f s w = .error e w' → e.span.isDummy = false

namespace Placed

variable {m : Emit α}

/-- A step that does not fail. -/
theorem of_ok (h : ∀ f w, ∃ result w', m f s w = .ok result w') : Placed s m := by
  intro f w e w' failed
  obtain ⟨result, w₁, ran⟩ := h f w
  cases ran.symm.trans failed

theorem pure (a : α) : Placed s (Pure.pure a) := of_ok fun _ _ => ⟨_, _, rfl⟩

theorem bind {k : α → Emit β} (first : Placed s m) (rest : ∀ a, Placed s (k a)) :
    Placed s (m >>= k) := by
  intro f w e w' failed
  change (m f >>= fun result => k result.1 result.2) s w = _ at failed
  rcases Compile.of_bind_error failed with failed | ⟨result, w₁, -, failed⟩
  · exact first f w e w' failed
  · exact rest result.1 result.2 w₁ e w' failed

theorem program_bind {k : Program → Emit α} (h : Placed s (k s.program)) :
    Placed s (liftM Compile.program >>= k) := h

/-- A question that has an answer. -/
theorem asks_bind {question : Program → Except ProgramError α} {k : α → Emit β} {a : α}
    (answer : question s.program = .ok a) (h : Placed s (k a)) :
    Placed s (liftM (Compile.asks question) >>= k) := by
  intro f w e w' failed
  rw [lift_bind_apply, Compile.bind_apply, Compile.asks_apply, answer] at failed
  exact h f w e w' failed

theorem ite {c : Prop} [Decidable c] {m' : Emit α} (h : Placed s m) (h' : Placed s m') :
    Placed s (if c then m else m') := by
  split
  · exact h
  · exact h'

theorem forM {k : α → Emit PUnit} (each : ∀ a, Placed s (k a)) (as : List α) :
    Placed s (as.forM k) := by
  induction as with
  | nil => exact pure _
  | cons a as ih => exact bind (each a) fun _ => ih

theorem filterMapM {k : α → Emit (Option β)} {as : List α} (each : ∀ a ∈ as, Placed s (k a)) :
    Placed s (as.filterMapM k) := by
  induction as with
  | nil => exact pure _
  | cons a as ih =>
    obtain ⟨first, others⟩ := List.forall_mem_cons.mp each
    rw [List.filterMapM_cons]
    refine bind first fun found => ?_
    cases found with
    | none => exact ih others
    | some b => exact bind (ih others) fun _ => pure _

/-- A failure gets the place if it has none. -/
theorem locate {span : Span} (real : span.isDummy = false) (m : Emit α) :
    Placed s (locate span m) := by
  intro f w e w' failed
  rw [locate_apply] at failed
  cases ran : m f s w with
  | ok result w₁ =>
    rw [ran] at failed
    cases failed
  | error e₁ w₁ =>
    rw [ran] at failed
    cases failed
    unfold Failure.attach
    split
    · exact real
    · rename_i hasPlace
      simpa using hasPlace

end Placed

/-- A failure that has a place keeps it. -/
theorem locate_of_placed {span : Span} {m : Emit α} {f : Frame} {w w' : Work} {e : Failure}
    (failed : m f s w = .error e w') (hasPlace : e.span.isDummy = false) :
    locate span m f s w = .error e w' := by
  rw [locate_apply, failed]
  simp [Failure.attach, hasPlace]

theorem bindName_placed (n : Name) (b : Binding) : Placed s (bindName n b) :=
  .bind (.of_ok fun _ _ => ⟨_, _, rfl⟩) fun _ => .bind (.of_ok fun _ _ => ⟨_, _, rfl⟩) fun _ =>
    .ite (.of_ok fun _ _ => ⟨_, _, rfl⟩) (.pure _)

theorem openBlock_placed (decls : List DeclId) : Placed s (openBlock decls) :=
  .bind (.bind (.of_ok fun _ _ => ⟨_, _, rfl⟩) fun _ =>
    .forM (fun _ => .of_ok fun _ _ => ⟨_, _, rfl⟩) _)
    fun _ => .of_ok fun _ _ => ⟨_, _, rfl⟩

/-- Declarations that are there are bound. -/
theorem hoist_placed {body : List StmtId} (declared : ∀ id ∈ body, s.program.NamesDecl id) :
    Placed s (hoist body) := by
  refine .filterMapM fun id inside => .program_bind ?_
  have known := declared id inside
  split
  · rename_i d isFunction
    obtain ⟨decl, answer⟩ := known d (.inl isFunction)
    exact .asks_bind answer (.bind (bindName_placed _ _) fun _ => .pure _)
  · rename_i d isClass
    obtain ⟨decl, answer⟩ := known d (.inr isClass)
    exact .asks_bind answer (.bind (bindName_placed _ _) fun _ => .pure _)
  · exact .pure _

variable {l : Lowering}

theorem stmts_placed {body : List StmtId}
    (placed : ∀ id ∈ body, (s.program.stmt id).span.isDummy = false) : Placed s (stmts l body) := by
  induction body with
  | nil => exact .pure _
  | cons id rest ih =>
    obtain ⟨first, others⟩ := List.forall_mem_cons.mp placed
    exact .bind (.of_ok fun _ _ => ⟨_, _, rfl⟩) fun _ =>
      .ite (.pure _) (.bind (.program_bind (.locate first _)) fun _ => ih others)

/-- If statements fail that have places, in a block whose declarations are there, the failure has a
place. -/
theorem block_placed {body : List StmtId} (declared : ∀ id ∈ body, s.program.NamesDecl id)
    (placed : ∀ id ∈ body, (s.program.stmt id).span.isDummy = false) : Placed s (block l body) :=
  .bind (hoist_placed declared) fun _ => .bind (openBlock_placed _) fun _ =>
    .bind (stmts_placed placed) fun _ => .of_ok fun _ _ => ⟨_, _, rfl⟩

end Emit

/-! ## Whole programs -/

/-- A place that is that of a node is one of the program, unless it is none. -/
theorem Setup.FailsAt.hasPlace {s : Setup} {cause : Cause} {span : Span} (h : s.FailsAt cause span)
    (real : span.isDummy = false) : s.program.HasPlace span := by
  cases h with
  | expr id =>
    refine .inl ⟨s.program.expr id, ?_, rfl⟩
    unfold Program.expr at real ⊢
    rw [Array.getD_eq_getD_getElem?] at real ⊢
    cases known : s.program.exprs[id.raw]? with
    | none =>
      rw [known] at real
      cases real
    | some e => exact Array.mem_of_getElem? known
  | stmt id =>
    refine .inr ⟨s.program.stmt id, ?_, rfl⟩
    unfold Program.stmt at real ⊢
    rw [Array.getD_eq_getD_getElem?] at real ⊢
    cases known : s.program.stmts[id.raw]? with
    | none =>
      rw [known] at real
      cases real
    | some st => exact Array.mem_of_getElem? known

/-- A compilation that fails names a place. It is that of an expression or a statement of the
program which fails of itself, so that no node around it has had its place put in its stead: a node
passes on a failure that has a place. -/
theorem failure_placed {b : Construction} (made : b.Made) (limit : Nat)
    (deep : 0 < limit) (r : Resolver)
    (c : Config) (declared : ∀ id ∈ b.program.entry, b.program.NamesDecl id) {failure : Failure}
    (failed : compileUnitWithin limit b.program r c = .error failure) :
    failure.span ≠ .dummy ∧ b.program.HasPlace failure.span ∧
    (Setup.of b.program r c).FailsAt failure.cause failure.span ∧
    ∀ (l : Lowering) f w e w', e.span ≠ .dummy →
      (∀ id, Emit.exprKind l (b.program.expr id).kind f (.of b.program r c) w = .error e w' →
        Emit.expr l id f (.of b.program r c) w = .error e w') ∧
      ∀ id, Emit.stmtKind l (b.program.stmt id).kind f (.of b.program r c) w = .error e w' →
        Emit.stmt l id f (.of b.program r c) w = .error e w' := by
  obtain ⟨limit, rfl⟩ := Nat.exists_eq_succ_of_ne_zero (Nat.ne_of_gt deep)
  have places := made.places
  have atTop : ∀ id ∈ b.program.entry, (b.program.stmt id).span.isDummy = false :=
      fun id isEntry => by
    have there := places.entry id isEntry
    rw [Program.stmt, Array.getD_eq_getD_getElem?, Array.getElem?_eq_getElem there]
    exact places.stmts _ (Array.getElem_mem there)
  obtain ⟨w, ran⟩ := of_compileUnitWithin_error failed
  have justified := Compile.entry_justified (Lowering.ofDepth_walks _) ran
  obtain ⟨f, -, ran⟩ := Compile.of_entry_error ran
  have whole : Emit.Placed (Setup.of b.program r c) (do
      (Lowering.ofDepth (limit + 1)).block b.program.entry
      unless ← Emit.isClosed do Draft.ret none : Emit Unit) :=
    .bind (Emit.block_placed declared atTop) fun _ => .bind (.of_ok fun _ _ => ⟨_, _, rfl⟩) fun _ =>
      .ite (.pure _) (.of_ok fun _ _ => ⟨_, _, rfl⟩)
  have real : failure.span.isDummy = false := whole _ _ _ _ ran
  have fails := justified.place.resolve_left (by simp [real])
  refine ⟨of_decide_eq_false real, fails.hasPlace real, fails, fun l f w e w' hasPlace => ?_⟩
  have hasPlace : e.span.isDummy = false := decide_eq_false hasPlace
  exact ⟨fun id failed => Emit.locate_of_placed failed hasPlace,
    fun id failed => Emit.locate_of_placed failed hasPlace⟩

/-- A function that uses `super` by itself, and a call of it as part of an expression. -/
def superInside : Construction := (StateT.run (do
  let value ← Construction.expr .parent
  let answer ← Construction.stmt (.ret (some (← Construction.expr (.unary .not value))))
  let f ← Construction.pushDecl "f" .none
    (.function ⟨.declaration, [], none, some (.block [answer]), [], none⟩)
  let callee ← Construction.expr (.ident (← Construction.intern "f"))
  let call ← Construction.stmt (.expr (← Construction.expr (.call callee [] (some f))))
  let declares ← Construction.stmt (.function f)
  Construction.pushEntry declares
  Construction.pushEntry call : Building Unit) {} : Id (Unit × Construction)).2

theorem superInside_made : superInside.Made :=
  .pushEntry (.pushEntry (.stmt (.stmt (.expr (.expr (.intern (.pushDecl (.stmt (.expr (.expr .start
    .parent) (.unary .not ⟨0⟩)) (.ret (some ⟨1⟩))) "f" .none
    (.function ⟨.declaration, [], none, some (.block [⟨0⟩]), [], none⟩)) "f") (.ident _))
    (.call ⟨2⟩ [] (some ⟨0⟩))) (.expr ⟨3⟩)) (.function ⟨0⟩)) (by decide)) (by decide)

/-- The failure of a compilation. -/
def failureOf? : Except Failure CompiledUnit → Option Failure
  | .ok _ => none
  | .error failure => some failure

theorem of_failureOf? {result : Except Failure CompiledUnit} {failure : Failure}
    (h : failureOf? result = some failure) : result = .error failure := by
  cases result with
  | ok unit => cases h
  | error failure' => rw [Option.some.inj h]

/-- The place is that of `super`, and not that of what is around it or of the call. -/
theorem failure_placed_superInside :
    superInside.Made ∧ 0 < 20 ∧ (∀ id ∈ superInside.program.entry,
    superInside.program.NamesDecl id) ∧
    compileUnitWithin 20 superInside.program .ambient {} =
    .error ⟨.unsupported .superExpr, ⟨1, 2⟩⟩ ∧
    superInside.program.HasPlace ⟨1, 2⟩ ∧
    (Setup.of superInside.program .ambient {}).FailsAt (.unsupported .superExpr) ⟨1, 2⟩ := by
  have names : superInside.program.entry.all superInside.program.namesDecl := by decide +kernel
  have declared : ∀ id ∈ superInside.program.entry, superInside.program.NamesDecl id :=
    fun id isEntry => Program.of_namesDecl (List.all_eq_true.mp names id isEntry)
  have failed : compileUnitWithin 20 superInside.program .ambient {} =
      .error ⟨.unsupported .superExpr, ⟨1, 2⟩⟩ := of_failureOf? (by decide +kernel)
  obtain ⟨-, hasPlace, fails, -⟩ :=
    failure_placed superInside_made 20 (by decide) .ambient {} declared failed
  exact ⟨superInside_made, by decide, declared, failed, hasPlace, fails⟩

end ShapeCompiler
