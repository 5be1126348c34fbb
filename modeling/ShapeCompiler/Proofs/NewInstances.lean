import ShapeCompiler.Proofs.PlainClasses

/-!
# Programs that make an instance

The statements at the top are those of classes, and one that makes an instance of a class without a
constructor.

* `Emit.Renames`: classes are bound to their names before anything is written;
* `Emit.classes_boxes`: the statements of classes, by induction on these;
* `Compile.EntryEnds`: the statements at the top were written, and the compilation is complete;
* `plain_instance_initialized`: the run ends, and the instance has its start values.
-/

namespace ShapeCompiler

open Source Code Work Machine

/-! ## The programs -/

namespace Source.Program

variable {p : Program} {cls : DeclId}

/-- The static properties of the class that have start values hold numbers, texts or truth values,
and start with literals. -/
def StartsPlainly (p : Program) (cls : DeclId) : Prop :=
  ∀ ms, p.members cls = .ok ms → ∀ m d e, (m, d) ∈ ms → d.start? true = some e →
    ∃ i, p.HoldsPlainly m i

def startsPlainly (p : Program) (cls : DeclId) : Bool :=
  (p.members cls).toOption.all (·.all fun m =>
    (m.2.start? true).isNone || [Info.number, .text, .boolean].any (p.holdsPlainly m.1 ·))

theorem of_startsPlainly (h : p.startsPlainly cls) : p.StartsPlainly cls := by
  intro ms areMembers m d e inside start
  rw [startsPlainly, areMembers] at h
  rcases Bool.or_eq_true_iff.mp (List.all_eq_true.mp h (m, d) inside) with none | plain
  · rw [start] at none
    cases none
  · obtain ⟨i, -, holds⟩ := List.any_eq_true.mp plain
    exact ⟨i, of_holdsPlainly holds⟩

/-- The class that a statement declares. -/
def declared? (p : Program) (id : StmtId) : Option DeclId :=
  match (p.stmt id).kind with
  | .classDecl c => some c
  | _ => none

theorem of_declared? {id : StmtId} (h : p.declared? id = some cls) :
    (p.stmt id).kind = .classDecl cls := by
  unfold declared? at h
  split at h
  · cases h
    assumption
  · cases h

/-- The class of which a statement makes an instance, from no arguments. -/
def constructed? (p : Program) (id : StmtId) : Option DeclId :=
  match (p.stmt id).kind with
  | .expr e =>
    match (p.expr e).kind with
    | .construct c [] => some c
    | _ => none
  | _ => none

theorem of_constructed? {id : StmtId} (h : p.constructed? id = some cls) :
    ∃ e, (p.stmt id).kind = .expr e ∧ (p.expr e).kind = .construct cls [] := by
  unfold constructed? at h
  split at h
  · rename_i e isExpr
    split at h
    · rename_i c isNew
      cases h
      exact ⟨e, isExpr, isNew⟩
    · cases h
  · cases h

/-- The statements at the top are those of some classes, and one that makes an instance. -/
structure MakesInstance (p : Program) (classes : List DeclId) (cls : DeclId) : Prop where
  classes : p.entry.dropLast.map p.declared? = classes.map some
  last : p.entry.getLast?.bind p.constructed? = some cls

theorem MakesInstance.entry {classes : List DeclId} (h : p.MakesInstance classes cls) :
    ∃ ids last, p.entry = ids ++ [last] ∧ List.Forall₂
    (fun id c => p.declared? id = some c) ids classes ∧
      p.constructed? last = some cls := by
  obtain ⟨last, isLast, isNew⟩ := Option.bind_eq_some_iff.mp h.last
  refine ⟨p.entry.dropLast, last, (List.dropLast_append_getLast? last isLast).symm, ?_, isNew⟩
  have same := h.classes
  rw [← List.forall₂_eq_eq_eq, List.forall₂_map_left_iff, List.forall₂_map_right_iff] at same
  exact same

/-- Start values are in one piece. -/
theorem scalar_of_mem_startsOf {static : Bool} {start : Name × Value}
    (h : start ∈ p.startsOf static cls) :
    ∃ i : Info, i.Scalar start.2 := by
  obtain ⟨⟨m, d⟩, -, found⟩ := List.mem_filterMap.mp h
  obtain ⟨e, -, found⟩ := Option.bind_eq_some_iff.mp found
  obtain ⟨⟨i, v⟩, literal, rfl⟩ := Option.map_eq_some_iff.mp found
  exact ⟨i, scalar_of_literal literal⟩

theorem lookup_starts (n : Name) (chain : List DeclId) :
    (chain.reverse.flatMap (p.startsOf false)).reverse.lookup n =
      chain.findSome? fun c => (p.startsOf false c).reverse.lookup n := by
  induction chain with
  | nil => rfl
  | cons c rest ih =>
    rw [List.reverse_cons, List.flatMap_append, List.reverse_append, List.flatMap_singleton,
      List.lookup_append, ih, List.findSome?_cons]
    cases (p.startsOf false c).reverse.lookup n <;> rfl

end Source.Program

/-! ## Names of classes -/

/-- Names got another meaning, and nothing else changed: the frame refers to no other values. -/
structure Frame.Renames (f : Frame) (w : Work) (f' : Frame) (w' : Work) : Prop where
  draft : f'.draft = f.draft
  env : f'.env = f.env
  uses : ∀ v, f'.Uses v → f.Uses v
  statics : w'.statics = w.statics

theorem Frame.Renames.refl (f : Frame) (w : Work) : f.Renames w f w :=
    ⟨rfl, rfl, fun _ used => used, rfl⟩

theorem Frame.Renames.trans {f f' f'' : Frame} {w w' w'' : Work} (h : f.Renames w f' w')
    (h' : f'.Renames w' f'' w'') : f.Renames w f'' w'' where
  draft := h'.draft.trans h.draft
  env := h'.env.trans h.env
  uses v used := h.uses v (h'.uses v used)
  statics := h'.statics.trans h.statics

namespace Emit

variable {s : Setup} {f f' : Frame} {w w' : Work} {α β : Type}

/-- Where the part succeeds, it only gives names another meaning. -/
def Renames (s : Setup) (m : Emit α) : Prop :=
  ∀ (f f' : Frame) (w w' : Work) (a : α), m f s w = .ok (a, f') w' → f.Renames w f' w'

namespace Renames

variable {m : Emit α}

theorem pure (a : α) : Renames s (Pure.pure a) := by
  intro f f' w w' _ ran
  cases ran
  exact .refl f w

theorem bind {k : α → Emit β} (first : Renames s m) (rest : ∀ a, Renames s (k a)) :
    Renames s (m >>= k) := by
  intro f f' w w' b ran
  obtain ⟨a, f₁, w₁, ran₁, ran₂⟩ := of_bind_ok ran
  exact (first _ _ _ _ _ ran₁).trans (rest a _ _ _ _ _ ran₂)

theorem asks (question : Program → Except ProgramError α) :
    Renames s (liftM (Compile.asks question) : Emit α) := by
  intro f f' w w' _ ran
  obtain ⟨rfl, rfl, -⟩ := of_asks_ok ran
  exact .refl f w

theorem forM {k : α → Emit PUnit} (each : ∀ a, Renames s (k a)) (as : List α) :
    Renames s (as.forM k) := by
  induction as with
  | nil => exact .pure _
  | cons a rest ih => exact (each a).bind fun _ => ih

theorem filterMapM {k : α → Emit (Option β)} (each : ∀ a, Renames s (k a)) (as : List α) :
    Renames s (as.filterMapM k) := by
  induction as with
  | nil => exact .pure _
  | cons a rest ih =>
    rw [List.filterMapM_cons]
    refine (each a).bind fun found => ?_
    cases found with
    | none => exact ih
    | some b => exact ih.bind fun _ => .pure _

end Renames

/-- The name gets a meaning that is the same in every body. -/
theorem bindName_renames (n : Name) {b : Binding} (isDecl : b.isDeclaration = true) :
    Renames s (bindName n b) := by
  refine .bind (fun f f' w w' _ ran => ?_) fun _ => .bind (fun f f' w w' _ ran => ?_) fun top => ?_
  · cases ran
    refine ⟨rfl, rfl, fun v used => used.bind.resolve_left ?_, rfl⟩
    rintro ⟨info, rfl⟩
    cases isDecl
  · cases ran
    exact .refl f w
  · split
    · intro f f' w w' _ ran
      cases ran
      exact ⟨rfl, rfl, fun _ used => used, rfl⟩
    · exact .pure _

theorem hoist_renames (body : List StmtId) : Renames s (hoist body) := by
  refine .filterMapM (fun id => .bind (fun f f' w w' _ ran => ?_) fun p => ?_) body
  · cases ran
    exact .refl f w
  · split
    · exact .bind (.asks _) fun _ => .bind (bindName_renames _ rfl) fun _ => .pure _
    · exact .bind (.asks _) fun _ => .bind (bindName_renames _ rfl) fun _ => .pure _
    · exact .pure _

theorem openBlock_renames (decls : List DeclId) : Renames s (openBlock decls) := by
  refine .bind (.bind (fun f f' w w' _ ran => ?_) fun site => .forM (fun d f f' w w' _ ran => ?_) _)
    fun _ f f' w w' _ ran => ?_
  · cases ran
    exact .refl f w
  · cases ran
    exact ⟨rfl, rfl, fun _ used => used, rfl⟩
  · cases ran
    exact ⟨rfl, rfl, fun v used => used.of_same rfl rfl rfl, rfl⟩

/-! ## Classes -/

section

variable {x : Stage} {fin : Work} {depth : Nat} {l : Lowering} {g : Sketch}

/-- Where the static properties of a class are stored, the class and its members are there. -/
theorem of_initializeStatics_ok {cls : DeclId}
    (ran : initializeStatics l cls f s w = .ok ((), f') w') :
    ∃ ms, s.program.members cls = .ok ms := by
  obtain ⟨c, _, _, asked, stored⟩ := of_bind_ok ran
  obtain ⟨rfl, rfl, isClass⟩ := of_asks_ok asked
  rw [Program.members, isClass]
  change c.members.forM (initializeStatic l) f s w = _ at stored
  change ∃ ms, (c.members.mapM fun m => return (m, ← s.program.decl m) :
    Except ProgramError (List (DeclId × Decl))) = .ok ms
  generalize c.members = ids at stored
  clear asked ran
  induction ids generalizing f w with
  | nil => exact ⟨[], rfl⟩
  | cons m rest ih =>
    obtain ⟨_, f₁, w₁, first, others⟩ := of_bind_ok stored
    obtain ⟨d, _, _, asked, -⟩ := of_bind_ok first
    obtain ⟨-, -, isDecl⟩ := of_asks_ok asked
    obtain ⟨ms, areOthers⟩ := ih others
    refine ⟨(m, d) :: ms, ?_⟩
    rw [List.mapM_cons, isDecl]
    change ((rest.mapM fun m => return (m, ← s.program.decl m) :
      Except ProgramError (List (DeclId × Decl))) >>= fun ms => .ok ((m, d) :: ms)) = _
    rw [areOthers]
    rfl

/-- Statements of classes, before others: the start values of their static properties are put into
boxes. -/
theorem classes_boxes {ids more : List StmtId} {classes : List DeclId}
    (declared : List.Forall₂ (fun id c => s.program.declared? id = some c) ids classes)
    (plain : ∀ c ∈ classes, s.program.StartsPlainly c) (stands : x.frame.Stands s x.work g)
    (statics : x.work.StaticsMade) (upholds : x.memory.Upholds fin.code)
    (ran : stmts (.ofDepth depth) (ids ++ more) x.frame s x.work = .ok ((), f) w)
    (later : Later s w fin) : ∃ (x' : Stage) (g' : Sketch), x.Goes s x' ∧
    x'.frame.Stands s x'.work g' ∧
      Memory.Boxed fin.code ((classes.flatMap (s.program.startsOf true)).map (·.2))
      x.memory x'.memory ∧
      stmts (.ofDepth depth) more x'.frame s x'.work = .ok ((), f) w := by
  have hl : (Lowering.ofDepth depth).Sound s := Lowering.ofDepth_sound depth
  induction declared generalizing x g with
  | nil => exact ⟨x, g, .refl x, stands, ⟨by simp, upholds⟩, ran⟩
  | @cons id c ids classes isClass _ ih =>
    obtain ⟨here, further⟩ := List.forall_mem_cons.mp plain
    obtain ⟨_, _, _, asked, ran⟩ := of_bind_ok ran
    cases asked
    rw [x.isOpen.isClosed] at ran
    obtain ⟨_, f₁, w₁, ran₁, ran₂⟩ := of_bind_ok ran
    replace ran₁ := of_locate_ok (m := stmtKind (.ofDepth depth) (s.program.stmt id).kind) ran₁
    rw [Program.of_declared? isClass] at ran₁
    change initializeStatics (.ofDepth depth) c x.frame s x.work = _ at ran₁
    obtain ⟨ms, areMembers⟩ := of_initializeStatics_ok ran₁
    obtain ⟨g₁, goes₁, -⟩ := (initializeStatics_sound hl c (U := fun _ => False)).goes
      stands (by simp) ran₁
    have stands₁ := goes₁.stands stands
    obtain ⟨_, flowed, -⟩ :=
      (stmts_flows hl (ids ++ more) (U := fun _ => False)).flows stands₁ (by simp) ran₂
    obtain ⟨x₁, rfl, rfl, step, statics₁, boxed₁⟩ := initializeStatics_boxes stands.sound.moment
      stands.grounded statics upholds areMembers (here ms areMembers) ran₁
        (flowed.later.trans later)
    obtain ⟨x₂, g₂, onward, stands₂, boxed₂, rest⟩ :=
      ih further stands₁ statics₁ boxed₁.upholds ran₂
    refine ⟨x₂, g₂, step.trans onward, stands₂, ⟨?_, boxed₂.upholds⟩, rest⟩
    rw [boxed₂.heap, boxed₁.heap, List.append_assoc, List.flatMap_cons, List.map_append]
    simp [Program.startsOf, areMembers, Except.toOption]

/-- The statement that makes the instance. -/
theorem lastStmt_passes {im : Image} {id : StmtId} {cls : DeclId} {starts : List (Name × Value)}
    (isLast : s.program.constructed? id = some cls) (complete : fin.Complete s im)
    (own : ∀ root, s.resolver.tableSymbol s.program root = none)
    (implicit : s.program.ConstructsImplicitly cls)
    (constructs : ∀ layout, fin.layouts.get? cls = some layout →
      Constructs fin im layout (layout.props.length + layout.offset) cls cls starts)
    (written : ∀ v ∈ starts, v.2 ≠ .undef) (stands : x.frame.Stands s x.work g)
    (defines : x.Defines) (atTop : x.frame.env = none) (upholds : x.memory.Upholds fin.code)
    (ran : stmts (.ofDepth depth) [id] x.frame s x.work = .ok ((), f) w)
    (before : w.Before s fin) : ∃ (layout : ClassLayout) (x' : Stage),
      fin.layouts.get? cls = some layout ∧ x'.frame = f ∧ x'.work = w ∧ x.Passes im x' ∧
      x'.memory.boxes = x.memory.boxes ++ starts.map (·.2) ∧
      ∀ n k i, layout.field? n = some (k, i) →
        x'.memory.HasStart x.memory.heap.size k (starts.reverse.lookup n) := by
  obtain ⟨e, isExpr, isNew⟩ := Program.of_constructed? isLast
  obtain ⟨_, _, _, asked, ran⟩ := of_bind_ok ran
  cases asked
  rw [x.isOpen.isClosed] at ran
  obtain ⟨_, f₁, w₁, ran₁, ran⟩ := of_bind_ok ran
  cases ran
  replace ran₁ := of_locate_ok (m := stmtKind (.ofDepth depth) (s.program.stmt id).kind) ran₁
  rw [isExpr] at ran₁
  obtain ⟨op, ran₁⟩ := of_discard_ok ran₁
  cases depth with
  | zero => cases ran₁
  | succ depth =>
    replace ran₁ := of_locate_ok (m := exprKind (.ofDepth depth) (s.program.expr e).kind) ran₁
    rw [isNew] at ran₁
    exact construct_passes complete own implicit constructs written stands defines atTop
      upholds ran₁ before

end

end Emit

/-! ## The statements at the top -/

namespace Compile

/-- The function of the statements at the top has no body when these begin. -/
theorem function?_entry {c : Config} (apart : c.entryName ≠ closureCallName) :
    (Work.opened c).code.function? (startModule.2.declare c.entryName [] .void).1 =
      some ⟨c.entryName, [], .void, none⟩ := by
  cases found : startModule.2.functionByName c.entryName with
  | some f => exact absurd (eq_of_functionByName_start found).1 apart
  | none => simp [Work.opened, declare_new [] .void found, Module.function?]

/-- The statements at the top were written, and then their function got their code. -/
structure EntryEnds (s : Setup) (limit : Nat) (im : Image) (func : FuncId)
    (w : Work) (ended : Frame)
    (fin : Work) : Prop where
  wrote : (do
    (Lowering.ofDepth limit).block s.program.entry
    unless ← Emit.isClosed do Draft.ret none : Emit Unit) (entryFrame s.config) s
      (.opened s.config) =
      .ok ((), ended) w
  complete : fin.Complete s im
  before : w.Before s fin
  defined : fin.code.function? func = some ⟨s.config.entryName, [], .void, some ended.draft.finish⟩
  made : ∀ cls layout, fin.layouts.get? cls = some layout → ∃ busy, layout.MadeAmid s fin busy

theorem of_entry_complete {limit : Nat} {p : Program} {r : Resolver} {c : Config} {func : FuncId}
    {fin : Work} (hosts : Array Host) (apart : c.entryName ≠ closureCallName)
    (ran : entry (.ofDepth limit) (.of p r c) .start = .ok func fin) :
    func = (startModule.2.declare c.entryName [] .void).1 ∧
      ∃ w ended, EntryEnds (.of p r c) limit ⟨fin.code, hosts⟩ func w ended fin := by
  have hl : (Lowering.ofDepth limit).Sound (.of p r c) := Lowering.ofDepth_sound limit
  have whole : Emit.Leaves (.of p r c) (fun _ => False) (do
      (Lowering.ofDepth limit).block p.entry
      unless ← Emit.isClosed do Draft.ret none : Emit Unit) :=
    (hl.block _).ended (Emit.ret_leaves (by simp))
  obtain ⟨rfl, w, ended, wrote, rfl⟩ := of_entry_ok ran
  obtain ⟨g, flowed, -⟩ := whole.flows
    (.start _ _ (opened_sound p r c) rfl rfl .empty .empty (entryFrame_not_uses c)) (by simp) wrote
  have there := (((whole_walks hl.walks).ends (opened_sound p r c).moment (by rintro _ ⟨⟩)).of_ok
    wrote).1
  have absent := there.keeps _ _ (function?_entry apart)
  have defined := (Step.define (s := .of p r c) _ ended.draft.finish
    (.inl fun fn known => Option.some.inj (absent.symm.trans known) ▸ rfl)).later
  have before : w.Before (.of p r c) _ := ⟨defined, .of_same rfl fun _ _ known => known⟩
  refine ⟨rfl, w, ended, wrote, ⟨rfl, apart, flowed.sound.moment.later defined, rfl,
    fun key c recorded => ?_⟩, before, function?_define absent, fun cls layout known => ?_⟩
  · rcases flowed.proceeds.finishes key c recorded with ⟨_, old, -⟩ | finished
    · cases old
    · exact finished.later defined before.keeps
  · rcases there.made cls layout known with old | ⟨busy, made⟩
    · cases old
    · exact ⟨busy, made.later defined⟩

/-- Once the names of the classes are bound, nothing is written yet, and the frame refers to
nothing. -/
theorem entry_opened {p : Program} {r : Resolver} {c : Config} {body : List StmtId}
    {decls : List DeclId}
    {f₁ f₂ : Frame} {w₁ w₂ : Work} (mem : Memory)
    (hoisted : Emit.hoist body (entryFrame c) (.of p r c) (.opened c) = .ok (decls, f₁) w₁)
    (opens : Emit.openBlock decls f₁ (.of p r c) w₁ = .ok ((), f₂) w₂) :
    ∃ (x : Stage) (g : Sketch), x.frame = f₂ ∧ x.work = w₂ ∧
      x.point = startPoint (startModule.2.declare c.entryName [] .void).1 [] mem ∧
      x.frame.Stands (.of p r c) x.work g ∧ (∀ v, ¬ x.frame.Uses v) ∧ x.frame.env = none ∧
      x.work.StaticsMade := by
  have renamed := (Emit.hoist_renames body _ _ _ _ _ hoisted).trans
    (Emit.openBlock_renames decls _ _ _ _ _ opens)
  have start : (entryFrame c).Stands (.of p r c) (.opened c) _ :=
    .start _ _ (opened_sound p r c) rfl rfl .empty .empty (entryFrame_not_uses c)
  obtain ⟨g₁, flowed₁, isOpen₁⟩ :=
    (Emit.hoist_stays body (U := fun _ => False)).flows start (by simp) hoisted
  have stands₁ := flowed₁.stands start.grounded isOpen₁
  obtain ⟨g₂, flowed₂, isOpen₂⟩ :=
    (Emit.openBlock_stays decls (U := fun _ => False)).flows stands₁ (by simp) opens
  have stands₂ := flowed₂.stands stands₁.grounded isOpen₂
  let begin := startPoint (startModule.2.declare c.entryName [] .void).1 [] mem
  have draft : f₂.draft = begin.draft := renamed.draft
  have isFrame : { f₂ with draft := begin.draft } = f₂ := by rw [← draft]
  let x : Stage := ⟨w₂, { f₂ with draft := begin.draft }, begin.values, mem, ⟨0⟩, begin.isOpen⟩
  refine ⟨x, g₂, isFrame, rfl, rfl, ?_, fun v used => ?_, renamed.env, fun d g known => ?_⟩
  · rw [show x.frame = f₂ from isFrame]
    exact stands₂
  · rw [show x.frame = f₂ from isFrame] at used
    exact entryFrame_not_uses c v (renamed.uses v used)
  · rw [show x.work.statics = _ from renamed.statics] at known
    cases known

/-- The statements at the top return nothing, unless they left before. -/
theorem of_ret_ok {s : Setup} {f f' : Frame} {w w' : Work}
    (ran : (do unless ← Emit.isClosed do Draft.ret none : Emit Unit) f s w = .ok ((), f') w') :
    w' = w ∧ (f.draft.isClosed = false → f'.draft = ((Draft.ret none).run f.draft).2) := by
  obtain ⟨_, _, _, asked, ran⟩ := Emit.of_bind_ok ran
  cases asked
  cases closed : f.draft.isClosed with
  | true =>
    rw [closed] at ran
    cases ran
    exact ⟨rfl, nofun⟩
  | false =>
    rw [closed] at ran
    cases ran
    exact ⟨rfl, fun _ => rfl⟩

/-- Once the statements at the top are compiled, the program runs to its end: the start values of
the static properties were put into boxes and then those of the new instance, and its fields lead to
these. -/
theorem entry_constructs {limit : Nat} {p : Program} {c : Config} {func : FuncId} {fin : Work}
    {cls : DeclId} {chain classes : List DeclId} (hosts : Array Host)
    (apart : c.entryName ≠ closureCallName)
    (plain : p.PlainChain cls chain) (makes : p.MakesInstance classes cls)
    (statics : ∀ c ∈ classes, p.StartsPlainly c)
    (ran : entry (.ofDepth limit) (.of p .ambient c) .start = .ok func fin) :
    ∃ layout mem, fin.layouts.get? cls = some layout ∧ layout.Suits p chain ∧
      Yields ⟨fin.code, hosts⟩ (.function func) [] (.ofModule fin.code) .undef mem ∧
      mem.boxes = (classes.flatMap (p.startsOf true) ++
        chain.reverse.flatMap (p.startsOf false)).map (·.2) ∧
      ∀ n k i, layout.field? n = some (k, i) →
        mem.HasStart (classes.flatMap (p.startsOf true)).length k
          ((chain.reverse.flatMap (p.startsOf false)).reverse.lookup n) := by
  obtain ⟨rfl, w, ended, ends⟩ := of_entry_complete hosts apart ran
  obtain ⟨ids, last, isEntry, declared, isLast⟩ := makes.entry
  obtain ⟨_, f₄, w₄, block, returns⟩ := Emit.of_bind_ok ends.wrote
  obtain ⟨rfl, leaves⟩ := of_ret_ok returns
  cases limit with
  | zero => cases block
  | succ depth =>
    obtain ⟨decls, f₁, w₁, hoisted, block⟩ := Emit.of_bind_ok block
    obtain ⟨_, f₂, w₂, opens, block⟩ := Emit.of_bind_ok block
    obtain ⟨_, f₃, w₃, wrote, closes⟩ := Emit.of_bind_ok block
    cases closes
    rw [show (Setup.of p .ambient c).program.entry = ids ++ [last] from isEntry] at wrote
    obtain ⟨x, g, rfl, rfl, isStart, stands, unused, atTop, made⟩ :=
      entry_opened (.ofModule fin.code) hoisted opens
    have memory : x.memory = .ofModule fin.code := congrArg Point.memory isStart
    -- the classes
    obtain ⟨x₁, g₁, goes₁, stands₁, boxed, wrote₁⟩ :=
      Emit.classes_boxes declared statics stands made
      (memory ▸ Memory.upholds_ofModule fin.code) wrote ends.before.later
    obtain ⟨_, flowed, -⟩ := (Emit.stmts_flows (Lowering.ofDepth_sound depth) [last]
      (U := fun _ => False)).flows stands₁ (by simp) wrote₁
    -- the instance
    have scalar : ∀ start ∈ classes.flatMap (p.startsOf true) ++
        chain.reverse.flatMap (p.startsOf false), ∃ i : Info, i.Scalar start.2 := by
      intro start inside
      rcases List.mem_append.mp inside with inside | inside <;>
        obtain ⟨c, -, inside⟩ := List.mem_flatMap.mp inside <;>
        exact Program.scalar_of_mem_startsOf inside
    have suits (layout : ClassLayout) (known : fin.layouts.get? cls = some layout) :
        layout.Suits p chain := by
      obtain ⟨busy, amid⟩ := ends.made cls layout known
      exact (ends.complete.moment.layout_made cls layout known).suits amid plain
    have defines : x.Defines := fun v used => absurd used (unused v)
    obtain ⟨layout, x₂, known, isFrame, isWork, passes, boxes, hasStart⟩ :=
      Emit.lastStmt_passes isLast
      ends.complete (fun _ => rfl) plain.implicit
      (fun layout known => plain.constructs ends.complete known (suits layout known)
        fun _ there => there)
      (fun start inside => (scalar start (List.mem_append_right _ inside)).elim
        fun _ h => h.written)
      stands₁ (defines.goes goes₁) (goes₁.env.trans atTop) boxed.upholds wrote₁ ends.before
    have heap : x₁.memory.heap.toList = (classes.flatMap (p.startsOf true)).map (·.2) := by
      rw [boxed.heap, memory]
      rfl
    refine ⟨layout, x₂.memory, known, suits layout known, ?_, ?_, ?_⟩
    · have whole : x.point.Passes ⟨fin.code, hosts⟩ x₂.point :=
        ((goes₁.passes ends.complete (flowed.later.trans ends.before.later)).trans passes).point
      rw [isStart] at whole
      have body : ended.draft = ((Draft.ret none).run x₂.point.draft).2 := by
        rw [leaves (isFrame ▸ x₂.isOpen.isClosed), ← isFrame]
        rfl
      exact yields_of_passes ends.defined rfl (by rw [body]) whole
    · rw [boxes, Memory.boxes_of_heap heap ?_, List.map_append]
      · rfl
      · intro v inside
        obtain ⟨start, isStart, rfl⟩ := List.mem_map.mp inside
        exact (scalar start (List.mem_append_left _ isStart)).elim fun _ h => h.not_aggregate
    · rw [← Array.length_toList, heap, List.length_map] at hasStart
      exact hasStart

end Compile

/-! ## Whole programs -/

/-- A call without arguments leaves this memory, unless it hits a limit. -/
def Machine.Leaves (m : Machine) (f : FuncId) (mem : Memory) : Prop :=
  match m.callFunction f [] with
  | (.ok _, m') => m'.state.memory = mem
  | (.error t, _) => t.IsLimit

theorem Machine.Leaves.of_ok {m m' : Machine} {f : FuncId} {mem : Memory} {v : Value}
    (h : m.Leaves f mem)
    (ran : m.callFunction f [] = (.ok v, m')) : m'.state.memory = mem := by
  unfold Leaves at h
  rwa [ran] at h

theorem Machine.Yields.leaves {im : Image} {f : FuncId} {mem mem' : Memory} {v : Value}
    (h : Yields im (.function f) [] mem v mem') (fuel : Nat) :
    Machine.Leaves ⟨im, { memory := mem, fuel }⟩ f mem' := by
  have room : maxDepth < maxNesting + 0 := by decide
  have ends := h maxNesting { memory := mem, fuel } rfl ⟨Nat.zero_le _, room⟩
  unfold Run.Completes at ends
  unfold Machine.Leaves Machine.callFunction Machine.step
  cases ran : invoke im maxNesting (.function f) [] { memory := mem, fuel } with
  | ok a s' =>
    rw [ran] at ends
    exact ends.2.1
  | error t s' =>
    rw [ran] at ends
    exact ends

/-- A program that declares classes and makes an instance of one. The classes from that one up to
one without a base have no constructors, and their properties start with literals if at all. If such
a program compiles, it runs to its end unless it hits a limit. The literals were put into boxes once
each: those of the static properties, then those of the instance, where the topmost class comes
first. In the end the field of each property leads to the literal of the lowest class that has one
for the name, or to nothing if there is none. -/
theorem plain_instance_initialized (limit : Nat) (p : Program) (c : Config) (hosts : Array Host)
    {cls : DeclId} {chain classes : List DeclId} {u : CompiledUnit}
    (apart : c.entryName ≠ closureCallName)
    (plain : p.PlainChain cls chain) (makes : p.MakesInstance classes cls)
    (statics : ∀ c ∈ classes, p.StartsPlainly c)
    (compiled : compileUnitWithin limit p .ambient c = .ok u) :
    ∃ fin layout mem, Compile.entry (.ofDepth limit) (.of p .ambient c) .start = .ok u.entry fin ∧
      fin.layouts.get? cls = some layout ∧
      (∀ fuel, Machine.Leaves ⟨⟨u.code, hosts⟩, { memory := .ofModule u.code, fuel }⟩ u.entry mem) ∧
      mem.boxes = (classes.flatMap (p.startsOf true) ++
        chain.reverse.flatMap (p.startsOf false)).map (·.2) ∧
      ∀ c ∈ chain, ∀ ms, p.members c = .ok ms → ∀ m d, (m, d) ∈ ms → Program.isInstanceProperty d →
        ∃ k i, layout.field? d.name = some (k, i) ∧
          mem.HasStart (classes.flatMap (p.startsOf true)).length k
            (chain.findSome? fun c => (p.startsOf false c).reverse.lookup d.name) := by
  obtain ⟨fin, ran, isCode, -⟩ := of_compileUnitWithin compiled
  obtain ⟨layout, mem, known, suits, yields, boxes, hasStart⟩ :=
    Compile.entry_constructs hosts apart plain makes statics ran
  rw [← isCode] at yields
  refine ⟨fin, layout, mem, ran, known, fun fuel => yields.leaves fuel, boxes,
    fun c inside ms areMembers m d isMember isProperty => ?_⟩
  obtain ⟨k, i, field⟩ := suits.field c inside ms areMembers m d isMember isProperty
  refine ⟨k, i, field, ?_⟩
  rw [← Program.lookup_starts]
  exact hasStart _ k i field

/-- The program compiles, and its run, without giving up, ends with this trap or with a value. -/
def endsWith (p : Program) (c : Config) (trap : Option Trap) : Bool :=
  (compileUnitWithin 20 p .ambient c).toOption.any fun u =>
    trap? (invokeStraight ⟨u.code, #[]⟩ maxNesting (.function u.entry) []
      (Machine.ofModule u.code).state) = trap

theorem of_endsWith {p : Program} {c : Config} {trap : Option Trap} (h : endsWith p c trap = true) :
    ∃ u, compileUnitWithin 20 p .ambient c = .ok u ∧
      trap? (invokeStraight ⟨u.code, #[]⟩ maxNesting (.function u.entry) []
        (Machine.ofModule u.code).state) = trap := by
  obtain ⟨u, compiled, ended⟩ := (Option.any_eq_true _ _).mp h
  exact ⟨u, toOption_eq_some_iff.mp compiled, of_decide_eq_true ended⟩

/-- The truth value that a value is. -/
def Machine.Value.truth? : Value → Option Bool
  | .bool b => some b
  | _ => none

/-- A class with three properties of truth values, and one below it that starts the first anew and
has a static property. -/
@[irreducible] def startedAnew : Program := (Id.run <| StateT.run (do
  let base ← Construction.classDecl "B" none .none
  discard <| Construction.property base "x" .boolean (some (← Construction.expr (.bool true)))
  discard <| Construction.property base "y" .boolean (some (← Construction.expr (.bool true)))
  discard <| Construction.property base "z" .boolean none
  let cls ← Construction.classDecl "D" (some base) .none
  discard <| Construction.property cls "x" .boolean (some (← Construction.expr (.bool false)))
  discard <| Construction.staticProperty cls "s" .boolean (some (← Construction.expr (.bool true)))
  Construction.pushEntry (← Construction.stmt (.classDecl base))
  Construction.pushEntry (← Construction.stmt (.classDecl cls))
  Construction.pushEntry (← Construction.stmt (.expr (← Construction.expr (.construct cls []))))
  : Building Unit) {}).2.program

/-- The program compiles and runs. Of the boxes the one of the static property comes first and that
of the property which is started anew last; the properties of the instance are false, true and
nothing. -/
theorem plain_instance_initialized_startedAnew : ∃ u fin layout v machine,
    compileUnitWithin 20 startedAnew .ambient {} = .ok u ∧
    Compile.entry (.ofDepth 20) (.of startedAnew .ambient {}) .start = .ok u.entry fin ∧
    fin.layouts.get? ⟨4⟩ = some layout ∧
    (Machine.ofModule u.code).callFunction u.entry [] = (.ok v, machine) ∧
    machine.state.memory.boxes.map Value.truth? = [some true, some true, some true, some false] ∧
    ∀ (n : Name) (b : Option (Option Bool)),
      (n, b) ∈ [(⟨2⟩, some (some false)), (⟨3⟩, some (some true)), (⟨4⟩, none)] →
        ∃ k i start, layout.field? n = some (k, i) ∧ machine.state.memory.HasStart 1 k start ∧
          start.map Value.truth? = b := by
  have plain : startedAnew.PlainChain ⟨4⟩ [⟨4⟩, ⟨0⟩] :=
    Program.of_plainChain (fun _ => .boolean) (by decide +kernel)
  have makes : startedAnew.MakesInstance [⟨0⟩, ⟨4⟩] ⟨4⟩ :=
    ⟨by decide +kernel, by decide +kernel⟩
  have statics : ∀ c ∈ [DeclId.mk 0, ⟨4⟩], startedAnew.StartsPlainly c := by
    intro c inside
    have all : [DeclId.mk 0, ⟨4⟩].all startedAnew.startsPlainly := by decide +kernel
    exact Program.of_startsPlainly (List.all_eq_true.mp all c inside)
  have one : ([⟨0⟩, ⟨4⟩].flatMap (startedAnew.startsOf true)).length = 1 := by decide +kernel
  -- the names are those of properties, and these are the literals that they end with
  have expected : [(Name.mk 2, some (some false)), (⟨3⟩, some (some true)), (⟨4⟩, none)].all
      fun (n, b) =>
      ([⟨4⟩, ⟨0⟩].any fun c => (startedAnew.members c).toOption.any
        (·.any fun m => Program.isInstanceProperty m.2 && m.2.name = n)) &&
      ([⟨4⟩, ⟨0⟩].findSome? fun c => (startedAnew.startsOf false c).reverse.lookup n).map
        Value.truth? = b := by
    decide +kernel
  have runs : endsWith startedAnew {} none = true := by decide +kernel
  obtain ⟨u, compiled, ended⟩ := of_endsWith runs
  obtain ⟨v, st, ended⟩ := of_trap?_none ended
  have called := callFunction_of_straight (m := .ofModule u.code) ended (by simp)
  obtain ⟨fin, layout, mem, entered, laidOut, leaves, boxes, fields⟩ :=
    plain_instance_initialized 20
    startedAnew {} #[] (by decide) plain makes statics compiled
  obtain rfl : st.memory = mem := (leaves defaultFuel).of_ok called
  refine ⟨u, fin, layout, v, _, compiled, entered, laidOut, called, ?_, fun n b listed => ?_⟩
  · rw [boxes]
    decide +kernel
  · obtain ⟨declares, same⟩ := Bool.and_eq_true_iff.mp (List.all_eq_true.mp expected _ listed)
    obtain ⟨c, inside, declares⟩ := List.any_eq_true.mp declares
    obtain ⟨ms, areMembers, declares⟩ := (Option.any_eq_true _ _).mp declares
    obtain ⟨⟨m, d⟩, isMember, declares⟩ := List.any_eq_true.mp declares
    obtain ⟨isProperty, isName⟩ := Bool.and_eq_true_iff.mp declares
    obtain rfl := of_decide_eq_true isName
    obtain ⟨k, i, field, hasStart⟩ :=
      fields c inside ms (toOption_eq_some_iff.mp areMembers) m d isMember isProperty
    exact ⟨k, i, _, field, one ▸ hasStart, of_decide_eq_true same⟩

/-- A class with a static property that starts with a property of nothing. -/
@[irreducible] def readsNothing : Program := (Id.run <| StateT.run (do
  let cls ← Construction.classDecl "C" none .none
  discard <| Construction.property cls "x" .boolean (some (← Construction.expr (.bool true)))
  let nothing ← Construction.expr (.convert (← Construction.expr .null) .any)
  let object ← Construction.expr (.convert nothing (← Construction.instanceType cls))
  discard <| Construction.staticProperty cls "s" .boolean (some (← Construction.prop object "x"))
  Construction.pushEntry (← Construction.stmt (.classDecl cls))
  Construction.pushEntry (← Construction.stmt (.expr (← Construction.expr (.construct cls []))))
  : Building Unit) {}).2.program

/-- The instances of the class are as they are to be, but the program ends before it makes one: it
compiles, and the start value of the static property reads from nothing. And a program that only
makes an instance cannot be run where its entry shares the name of a function that takes an
argument. -/
theorem plain_instance_traps :
    (∃ u machine, readsNothing.PlainChain ⟨0⟩ [⟨0⟩] ∧ readsNothing.MakesInstance [⟨0⟩] ⟨0⟩ ∧
      compileUnitWithin 20 readsNothing .ambient {} = .ok u ∧
      (Machine.ofModule u.code).callFunction u.entry [] = (.error .nullDeref, machine) ∧
      ¬ Trap.nullDeref.IsLimit) ∧
    ∃ u machine, startedAnew.PlainChain ⟨4⟩ [⟨4⟩, ⟨0⟩] ∧
      startedAnew.MakesInstance [⟨0⟩, ⟨4⟩] ⟨4⟩ ∧
      compileUnitWithin 20 startedAnew .ambient { entryName := closureCallName } = .ok u ∧
      (Machine.ofModule u.code).callFunction u.entry [] =
        (.error (.arity closureCallName 1 0), machine) ∧
      ¬ (Trap.arity closureCallName 1 0).IsLimit := by
  have plain : readsNothing.PlainChain ⟨0⟩ [⟨0⟩] :=
    Program.of_plainChain (fun _ => .boolean) (by decide +kernel)
  have makes : readsNothing.MakesInstance [⟨0⟩] ⟨0⟩ :=
    ⟨by decide +kernel, by decide +kernel⟩
  have traps : endsWith readsNothing {} (some .nullDeref) = true := by decide +kernel
  have plain' : startedAnew.PlainChain ⟨4⟩ [⟨4⟩, ⟨0⟩] :=
    Program.of_plainChain (fun _ => .boolean) (by decide +kernel)
  have makes' : startedAnew.MakesInstance [⟨0⟩, ⟨4⟩] ⟨4⟩ :=
    ⟨by decide +kernel, by decide +kernel⟩
  have traps' : endsWith startedAnew { entryName := closureCallName }
      (some (.arity closureCallName 1 0)) = true := by
    decide +kernel
  constructor
  · obtain ⟨u, compiled, ended⟩ := of_endsWith traps
    obtain ⟨st, ended⟩ := of_trap?_some ended
    exact ⟨u, ⟨⟨u.code, #[]⟩, st⟩, plain, makes, compiled,
      callFunction_of_straight (m := .ofModule u.code) ended (by simp), by decide⟩
  · obtain ⟨u, compiled, ended⟩ := of_endsWith traps'
    obtain ⟨st, ended⟩ := of_trap?_some ended
    exact ⟨u, ⟨⟨u.code, #[]⟩, st⟩, plain', makes', compiled,
      callFunction_of_straight (m := .ofModule u.code) ended (by simp),
      by rintro (h | h) <;> cases h⟩

end ShapeCompiler
