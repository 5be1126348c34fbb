import ShapeCompiler.Proofs.Flat
import ShapeCompiler.Proofs.Moments
import ShapeCompiler.Proofs.Shapes

/-!
# Steps that come to an end

The steps of compilation are tied together level by level. A step comes to an end if some number of
levels is enough for it; whatever is enough, more levels give the same.

* `Work.Confined`: only these bodies are begun, and shapes are put together from earlier ones;
* `Compile.Bottomless`: the step comes to no end, though it begins no other body;
* `Compile.Ending`, `Emit.Ending`: from a state on, wherever it is later, that is not so.

The rules follow the ways in which steps are put together.
-/

namespace ShapeCompiler

open Source Code Work

/-! ## States in which only some bodies are begun -/

/-- From which number of shapes on a value of this kind can be known. -/
def Info.rank : Info → Nat
  | .object id | .union id | .intersection id => id.raw + 1
  | _ => 0

/-- What is known of the parts of a value of this shape. -/
def Shape.infos : Shape → List Info
  | .object o => o.props.map (·.2)
  | .union u => u.slots.map (·.info)
  | .intersection i => i.fields.map (·.2)

/-- Shapes are put together from earlier ones. -/
def Registry.Founded (r : Registry) : Prop :=
  ∀ id shape, r.shape? id = some shape → ∀ i ∈ shape.infos, i.rank ≤ id.raw

/-- Where a class is taken out of an intersection, the fields are such as the class has. -/
def Work.ClassesApart (s : Setup) (w : Work) : Prop :=
  ∀ id shape, w.registry.intersection? id = some shape → ∀ c layout,
    w.layouts.get? c = some layout →
    ∀ start, shape.findMember (.instanceOf c) (s.program.declName c) layout.fields = some start →
      shape.runFits layout.fields start = true

/-- Only these bodies are begun, shapes are put together from earlier ones, and classes are taken
out of intersections as they are. -/
structure Work.Confined (s : Setup) (keys : List FunctionKey) (w : Work) : Prop where
  bodies : ∀ key c, w.functions.get? key = some c → key ∈ keys
  founded : w.registry.Founded
  classes : w.ClassesApart s

theorem Registry.raw_lt_of_shape? {r : Registry} {id : ShapeId} {shape : Shape}
    (known : r.shape? id = some shape) : id.raw < r.shapes.size :=
  (Array.getElem?_eq_some_iff.mp known).1

instance (r : Registry) : Decidable r.Founded :=
  decidable_of_iff (∀ n < r.shapes.size, ∀ shape ∈ r.shape? ⟨n⟩, ∀ i ∈ shape.infos, i.rank ≤ n)
    ⟨fun each id shape known => each id.raw (r.raw_lt_of_shape? known) shape known,
      fun founded n _ => founded ⟨n⟩⟩

instance (s : Setup) (w : Work) : Decidable (w.ClassesApart s) :=
  decidable_of_iff (∀ n < w.registry.shapes.size, ∀ shape ∈ w.registry.intersection? ⟨n⟩,
      ∀ c layout, w.layouts.get? c = some layout →
        ∀ start ∈ shape.findMember (.instanceOf c) (s.program.declName c) layout.fields,
          shape.runFits layout.fields start = true)
    ⟨fun each id shape known => each id.raw
        (Registry.raw_lt_of_shape? (Registry.intersection?_eq_some_iff.mp known)) shape known,
      fun apart n _ => apart ⟨n⟩⟩

instance (s : Setup) (keys : List FunctionKey) (w : Work) : Decidable (w.Confined s keys) :=
  decidable_of_iff ((∀ key c, w.functions.get? key = some c → key ∈ keys) ∧ w.registry.Founded ∧
      w.ClassesApart s)
    ⟨fun ⟨bodies, founded, classes⟩ => ⟨bodies, founded, classes⟩,
      fun confined => ⟨confined.bodies, confined.founded, confined.classes⟩⟩

theorem Registry.Founded.before {r r' : Registry} (h : r'.Founded)
    (more : r.shapes.toList <+: r'.shapes.toList) : r.Founded :=
  fun id shape known => h id shape (Registry.shape?_of_prefix more known)

theorem Work.Confined.before {s : Setup} {keys : List FunctionKey} {w w' : Work}
    (h : w'.Confined s keys) (there : w.Reaches s w') : w.Confined s keys where
  bodies key c known := h.bodies key c (there.functions key c known)
  founded := h.founded.before there.later.shapes
  classes id shape known c layout laidOut :=
    h.classes id shape (Registry.intersection?_eq_some_iff.mpr
      (Registry.shape?_of_prefix there.later.shapes (Registry.intersection?_eq_some_iff.mp known)))
      c layout (there.layouts c layout laidOut)

/-! ## Parts without a frame -/

namespace Compile

variable {s : Setup} {keys : List FunctionKey} {base w : Work} {α β : Type}

/-- However many levels there are, the step nests too deep, and from some number of levels on
without beginning another body. -/
def Bottomless (s : Setup) (keys : List FunctionKey) (m : Lowering → Compile α) (w : Work) : Prop :=
  ∃ least, ∀ depth, least ≤ depth → ∃ e w', m (.ofDepth depth) s w = .error e w' ∧
    e.cause = .tooDeep ∧ w'.Confined s keys

/-- The step does the same at all levels, but for nesting too deep. -/
structure Leveled (s : Setup) (m : Lowering → Compile α) : Prop where
  below : ∀ {l l' : Lowering}, l.Below l' → Below (m l) (m l')
  walks : ∀ {l : Lowering}, l.Walks s → Walks s (m l)

/-- From the state on, wherever it is later, the step comes to an end unless it would begin another
body. -/
def Ending (s : Setup) (keys : List FunctionKey) (base : Work) (m : Lowering → Compile α) : Prop :=
  ∀ w, base.Reaches s w → Moment s w → ¬ Bottomless s keys m w

theorem Bottomless.of_bind {m : Lowering → Compile α} {k : Lowering → α → Compile β}
    (below : ∀ {l l' : Lowering}, l.Below l' → Below (m l) (m l'))
    (h : Bottomless s keys (fun l => m l >>= k l) w) : Bottomless s keys m w ∨
      ∃ depth a w₁, m (.ofDepth depth) s w = .ok a w₁ ∧ Bottomless s keys (fun l => k l a) w₁ := by
  obtain ⟨least, deep⟩ := h
  simp only [bind_apply] at deep
  by_cases ends : ∃ depth, Ended (m (.ofDepth depth)) s w
  · obtain ⟨depth, ended⟩ := ends
    have same (more : Nat) (le : depth ≤ more) : m (.ofDepth more) s w = m (.ofDepth depth) s w :=
      below (Lowering.ofDepth_below le) s w ended
    cases ran : m (.ofDepth depth) s w with
    | error e w₁ =>
      obtain ⟨e', w', failed, isDeep, _⟩ := deep (max least depth) (Nat.le_max_left _ _)
      rw [same _ (Nat.le_max_right _ _), ran] at failed
      cases failed
      exact absurd isDeep (ended _ _ ran)
    | ok a w₁ =>
      refine .inr ⟨depth, a, w₁, ran, max least depth, fun more le => ?_⟩
      obtain ⟨e', w', failed, rest⟩ := deep more (Nat.le_trans (Nat.le_max_left _ _) le)
      rw [same more (Nat.le_trans (Nat.le_max_right _ _) le), ran] at failed
      exact ⟨e', w', failed, rest⟩
  · refine .inl ⟨least, fun depth le => ?_⟩
    obtain ⟨e, w', failed, rest⟩ := deep depth le
    simp only [not_exists, Ended, not_forall, not_not] at ends
    obtain ⟨e₁, w₁, failed₁, isDeep⟩ := ends depth
    rw [failed₁] at failed
    cases failed
    exact ⟨e, w', failed₁, rest⟩

/-- One step after another comes to an end if both do, the second one from where the first one
leads. -/
theorem not_bottomless_bind {m : Lowering → Compile α} {k : Lowering → α → Compile β}
    (below : ∀ {l l' : Lowering}, l.Below l' → Below (m l) (m l')) (first : ¬ Bottomless s keys m w)
    (rest : ∀ depth a w₁, m (.ofDepth depth) s w =
    .ok a w₁ → ¬ Bottomless s keys (fun l => k l a) w₁) :
    ¬ Bottomless s keys (fun l => m l >>= k l) w := by
  intro deep
  rcases deep.of_bind below with deep | ⟨depth, a, w₁, ran, deep⟩
  · exact first deep
  · exact rest depth a w₁ ran deep

/-- A step that nests nothing comes to an end. -/
theorem not_bottomless_of_ended {m : Compile α} (h : Ended m s w) :
    ¬ Bottomless s keys (fun _ => m) w := by
  rintro ⟨least, deep⟩
  obtain ⟨e, w', failed, isDeep, _⟩ := deep least (Nat.le_refl _)
  exact h e w' failed isDeep

theorem not_bottomless_flat {m : Compile α} [h : Flat s m] : ¬ Bottomless s keys (fun _ => m) w :=
  not_bottomless_of_ended (h.ended w)

/-- What comes after a step that nests nothing. -/
theorem not_bottomless_after {m : Compile α} {k : Lowering → α → Compile β} [Flat s m]
    (rest : ∀ a w₁, m s w = .ok a w₁ → ¬ Bottomless s keys (fun l => k l a) w₁) :
    ¬ Bottomless s keys (fun l => m >>= k l) w :=
  not_bottomless_bind (fun _ => .refl m) not_bottomless_flat fun _ => rest

/-- A step that nests too deep was in a state that allows it. -/
theorem Bottomless.confined {m : Lowering → Compile α} {Q : α → Work → Prop}
    (walks : ∀ depth, Ends s w (m (.ofDepth depth)) Q) (h : Bottomless s keys m w) :
    w.Confined s keys := by
  obtain ⟨least, deep⟩ := h
  obtain ⟨e, w', failed, _, confined⟩ := deep least (Nat.le_refl _)
  exact confined.before ((walks least).of_error failed).1

namespace Ending

variable {m : Lowering → Compile α} {k : Lowering → α → Compile β}

theorem flat {m : Compile α} [Flat s m] : Ending s keys base fun _ => m :=
  fun _ _ _ => not_bottomless_flat

theorem bind (level : Leveled s m) (first : Ending s keys base m)
    (rest : ∀ a, Ending s keys base (k · a)) : Ending s keys base fun l => m l >>= k l := by
  refine fun w there moment => not_bottomless_bind level.below (first w there moment)
    fun depth a w₁ ran => ?_
  have reached := ((level.walks (Lowering.ofDepth_walks depth)).ends moment |>.of_ok ran).1
  exact rest a w₁ (there.trans reached) (moment.later reached.later)

/-- What comes after a step that nests nothing. -/
theorem after {m : Compile α} [Flat s m] (walks : Walks s m)
    (rest : ∀ a, Ending s keys base (k · a)) :
    Ending s keys base fun l => m >>= k l :=
  bind ⟨fun _ => .refl _, fun _ => walks⟩ flat rest

theorem ite {c : Prop} [Decidable c] {n : Lowering → Compile α} (h : Ending s keys base m)
    (h' : Ending s keys base n) : Ending s keys base fun l => if c then m l else n l := by
  split
  · exact h
  · exact h'

/-- What is made of the level below. -/
theorem next {m' : Lowering → Compile α} (same : ∀ l : Lowering, m' l.next = m l)
    (h : Ending s keys base m) : Ending s keys base m' := by
  rintro w there moment ⟨least, deep⟩
  refine h w there moment ⟨least, fun depth le => ?_⟩
  have failed := deep (depth + 1) (by omega)
  rwa [Lowering.ofDepth_succ, same] at failed

theorem later {base' : Work} (h : Ending s keys base m) (there : base.Reaches s base') :
    Ending s keys base' m := fun w later => h w (there.trans later)

end Ending

end Compile

/-! ## Parts with a frame -/

namespace Emit

variable {s : Setup} {keys : List FunctionKey} {base w : Work} {f : Frame} {α β : Type}

/-- The step does the same at all levels, but for nesting too deep. -/
structure Leveled (s : Setup) (m : Lowering → Emit α) : Prop where
  below : ∀ {l l' : Lowering}, l.Below l' → Below (m l) (m l')
  walks : ∀ {l : Lowering}, l.Walks s → Walks s (m l)

/-- From the state on, wherever it is later, the step comes to an end unless it would begin another
body. -/
def Ending (s : Setup) (keys : List FunctionKey) (base : Work) (m : Lowering → Emit α) : Prop :=
  ∀ (f : Frame) (w : Work), base.Reaches s w → Moment s w → f.Grounded w →
    ¬ Compile.Bottomless s keys (m · f) w

/-- The step does the same at all levels and comes to an end. -/
structure Tame (s : Setup) (keys : List FunctionKey) (base : Work) (m : Lowering → Emit α) : Prop
    extends Leveled s m where
  ending : Ending s keys base m

namespace Leveled

theorem flat {m : Emit α} (walks : Walks s m) : Leveled s fun _ => m :=
  ⟨fun _ => .refl _, fun _ => walks⟩

theorem bind {m : Lowering → Emit α} {k : Lowering → α → Emit β} (first : Leveled s m)
    (rest : ∀ a, Leveled s (k · a)) : Leveled s fun l => m l >>= k l :=
  ⟨fun below => .bind (first.below below) fun a => (rest a).below below,
    fun hl => .bind (first.walks hl) fun a => (rest a).walks hl⟩

theorem lift {m : Lowering → Compile α} (h : Compile.Leveled s m) :
    Leveled s fun l => (liftM (m l) : Emit α) :=
  ⟨fun below => .lift (h.below below), fun hl => .lift (h.walks hl)⟩

end Leveled

namespace Ending

variable {m : Lowering → Emit α} {k : Lowering → α → Emit β}

theorem later {base' : Work} (h : Ending s keys base m) (there : base.Reaches s base') :
    Ending s keys base' m := fun f w later => h f w (there.trans later)

/-- A step that nests nothing at any level comes to an end. -/
theorem always (h : ∀ l, Flat s (m l)) : Ending s keys base m := by
  rintro f w - - - ⟨least, deep⟩
  obtain ⟨e, w', failed, isDeep, _⟩ := deep least (Nat.le_refl _)
  exact ((h _).ended f).ended w e w' failed isDeep

theorem flat {m : Emit α} [h : Flat s m] : Ending s keys base fun _ => m := always fun _ => h

/-- What comes after a step goes on from where the step leads. -/
theorem not_bottomless_bind (below : ∀ {l l' : Lowering}, l.Below l' → Below (m l) (m l'))
    (first : ¬ Compile.Bottomless s keys (m · f) w) (moment : Moment s w)
    (ends : ∀ depth, Compile.Ends s w (m (.ofDepth depth) f) fun r w' => r.2.Grounded w')
    (rest : ∀ depth a f₁ w₁, m (.ofDepth depth) f s w = .ok (a, f₁) w₁ → w.Reaches s w₁ →
      Ending s keys w₁ (k · a)) :
    ¬ Compile.Bottomless s keys (fun l => (m l >>= k l) f) w := by
  refine Compile.not_bottomless_bind (m := (m · f)) (k := fun l r => k l r.1 r.2)
    (fun h => below h f) first fun depth r w₁ ran => ?_
  obtain ⟨reached, grounded⟩ := (ends depth).of_ok ran
  exact rest depth r.1 r.2 w₁ ran reached r.2 w₁ (.refl w₁) (moment.later reached.later) grounded

/-- What comes after a step may count on what the step does. -/
theorem known_bind (first : Tame s keys base m)
    (rest : ∀ depth a f w f₁ w₁, m (.ofDepth depth) f s w = .ok (a, f₁) w₁ → base.Reaches s w →
      w.Reaches s w₁ → Moment s w → Ending s keys w₁ (k · a)) :
    Ending s keys base fun l => m l >>= k l :=
  fun f w there moment grounded => not_bottomless_bind first.below
    (first.ending f w there moment grounded) moment
    (fun depth => ((first.walks (Lowering.ofDepth_walks depth)).ends moment grounded).mono
      fun _ _ _ onward => onward.grounded)
    fun depth a f₁ w₁ ran reached => rest depth a f w f₁ w₁ ran there reached moment

theorem bind (first : Tame s keys base m) (rest : ∀ a, Ending s keys base (k · a)) :
    Ending s keys base fun l => m l >>= k l :=
  known_bind first fun _ a _ _ _ _ _ there reached _ => (rest a).later (there.trans reached)

/-- What comes after a step that nests nothing. -/
theorem after {m : Emit α} [Flat s m] (walks : Walks s m) (rest : ∀ a, Ending s keys base (k · a)) :
    Ending s keys base fun l => m >>= k l := bind ⟨.flat walks, flat⟩ rest

/-- What comes after a step that nests nothing and that walks from here on. -/
theorem after_ends {m : Emit α} [Flat s m]
    (ends : ∀ {f : Frame} {w}, base.Reaches s w → Moment s w → f.Grounded w →
      Compile.Ends s w (m f) fun r w' => r.2.Grounded w')
    (rest : ∀ a, Ending s keys base (k · a)) : Ending s keys base fun l => m >>= k l :=
  fun f w there moment grounded => not_bottomless_bind (fun _ => .refl m)
    (flat (m := m) f w there moment grounded) moment (fun _ => ends there moment grounded)
    fun _ a _ _ _ reached => (rest a).later (there.trans reached)

/-- What is written needs no further thought. -/
theorem draft {step : Writing α} (rest : ∀ a, Ending s keys base (k · a)) :
    Ending s keys base fun l => (liftM step : Emit α) >>= k l := after (.draft step) rest

theorem asks {question : Program → Except ProgramError α} (rest : ∀ a, Ending s keys base (k · a)) :
    Ending s keys base fun l => (liftM (Compile.asks question) : Emit α) >>= k l :=
  after (.asks question) rest

theorem program_bind {k : Lowering → Program → Emit β} (h : Ending s keys base (k · s.program)) :
    Ending s keys base fun l => (liftM Compile.program : Emit Program) >>= k l := h

theorem get_bind {k : Lowering → Frame → Emit β} (h : ∀ f, Ending s keys base (k · f)) :
    Ending s keys base fun l => (MonadState.get : Emit Frame) >>= k l := after .get h

theorem lift {m : Lowering → Compile α} (h : Compile.Ending s keys base m) :
    Ending s keys base fun l => (liftM (m l) : Emit α) := by
  intro f w there moment _ deep
  have split : Compile.Bottomless s keys (fun l => m l >>= fun a => Pure.pure (a, f)) w := deep
  obtain ⟨least, deep⟩ := split
  simp only [Compile.bind_apply] at deep
  refine h w there moment ⟨least, fun depth le => ?_⟩
  obtain ⟨e, w', failed, rest⟩ := deep depth le
  cases ran : m (.ofDepth depth) s w with
  | ok a w₁ =>
    rw [ran] at failed
    cases failed
  | error e₁ w₁ =>
    rw [ran] at failed
    cases failed
    exact ⟨e, w', rfl, rest⟩

theorem ite {c : Prop} [Decidable c] {n : Lowering → Emit α} (h : Ending s keys base m)
    (h' : Ending s keys base n) : Ending s keys base fun l => if c then m l else n l := by
  split
  · exact h
  · exact h'

/-- A place that is attached to a failure does not change why it failed. -/
theorem locate (span : Span) (h : Ending s keys base m) :
    Ending s keys base fun l => Emit.locate span (m l) := by
  rintro f w there moment grounded ⟨least, deep⟩
  simp only [locate_apply] at deep
  refine h f w there moment grounded ⟨least, fun depth le => ?_⟩
  obtain ⟨e, w', failed, isDeep, confined⟩ := deep depth le
  cases ran : m (.ofDepth depth) f s w with
  | ok r w₁ =>
    rw [ran] at failed
    cases failed
  | error e₁ w₁ =>
    rw [ran] at failed
    cases failed
    refine ⟨e₁, w', ran, ?_, confined⟩
    rw [← isDeep]
    unfold Failure.attach
    split <;> rfl

/-- What is made of the level below. -/
theorem next {m' : Lowering → Emit α} (same : ∀ l : Lowering, m' l.next = m l)
    (h : Ending s keys base m) : Ending s keys base m' := by
  rintro f w there moment grounded ⟨least, deep⟩
  refine h f w there moment grounded ⟨least, fun depth le => ?_⟩
  have failed := deep (depth + 1) (by omega)
  simp only [Lowering.ofDepth_succ, same] at failed
  exact failed

/-- What the level above is made of. -/
theorem of_next {n : Lowering → Emit α} (same : ∀ l : Lowering, n l.next = m l)
    (h : Ending s keys base n) : Ending s keys base m := by
  rintro f w there moment grounded ⟨least, deep⟩
  refine h f w there moment grounded ⟨least + 1, fun depth le => ?_⟩
  obtain ⟨less, rfl⟩ : ∃ less, depth = less + 1 := ⟨depth - 1, by omega⟩
  simp only [Lowering.ofDepth_succ, same]
  exact deep less (by omega)

/-- The step may count on what is so as long as it begins no other body. -/
theorem of_confined (walks : ∀ {l : Lowering}, l.Walks s → Walks s (m l))
    (h : ∀ f w, base.Reaches s w → Moment s w → f.Grounded w → w.Confined s keys →
      ¬ Compile.Bottomless s keys (m · f) w) : Ending s keys base m := by
  intro f w there moment grounded deep
  exact h f w there moment grounded (deep.confined fun depth =>
    (walks (Lowering.ofDepth_walks depth)).ends moment grounded) deep

/-- What comes after a question may count on the answer. -/
theorem asked_bind {c : Compile α} [Compile.Flat s c] (looks : Compile.Walks s c)
    (rest : ∀ a w w', base.Reaches s w → w.Reaches s w' → Moment s w → c s w = .ok a w' →
      Ending s keys w' (k · a)) :
    Ending s keys base fun l => (liftM c : Emit α) >>= k l :=
  known_bind ⟨.flat (.lift looks), flat⟩ fun _ a _ w _ w₁ ran there reached moment =>
    rest a w w₁ there reached moment (of_lift_ok ran).2

/-- What comes after a question about the program may count on the answer. -/
theorem answered {question : Program → Except ProgramError α}
    (rest : ∀ a, question s.program = .ok a → Ending s keys base (k · a)) :
    Ending s keys base fun l => (liftM (Compile.asks question) : Emit α) >>= k l :=
  asked_bind (Compile.asks_walks _) fun a _ _ there reached _ ran =>
    (rest a (Compile.of_asks_ok ran).2).later (there.trans reached)

/-- What comes after a question may count on the answer, and on the state as long as the step begins
no other body. -/
theorem seen_bind {c : Compile α} [Compile.Flat s c] (looks : Compile.Walks s c)
    (walks : ∀ {l : Lowering}, l.Walks s → Walks s (liftM c >>= k l))
    (rest : ∀ a w w', base.Reaches s w → w.Reaches s w' → w.Confined s keys → c s w = .ok a w' →
      Ending s keys w' (k · a)) :
    Ending s keys base fun l => (liftM c : Emit α) >>= k l :=
  of_confined walks fun f w there moment grounded confined =>
    not_bottomless_bind (fun _ => .refl _)
      (flat (m := (liftM c : Emit α)) f w there moment grounded) moment
      (fun _ => ((Walks.lift looks).ends moment grounded).mono fun _ _ _ onward => onward.grounded)
      fun _ a _ w₁ ran reached => rest a w w₁ there reached confined (of_lift_ok ran).2

end Ending

namespace Tame

variable {m : Lowering → Emit α} {k : Lowering → α → Emit β}

theorem flat {m : Emit α} [Flat s m] (walks : Walks s m) : Tame s keys base fun _ => m :=
  ⟨.flat walks, .flat⟩

theorem bind (first : Tame s keys base m) (rest : ∀ a, Tame s keys base (k · a)) :
    Tame s keys base fun l => m l >>= k l :=
  ⟨.bind first.toLeveled fun a => (rest a).toLeveled, .bind first fun a => (rest a).ending⟩

/-- What comes after a step that nests nothing. -/
theorem after {m : Emit α} [Flat s m] (walks : Walks s m) (rest : ∀ a, Tame s keys base (k · a)) :
    Tame s keys base fun l => m >>= k l := bind (flat walks) rest

theorem lift {m : Lowering → Compile α} (level : Compile.Leveled s m)
    (h : Compile.Ending s keys base m) :
    Tame s keys base fun l => (liftM (m l) : Emit α) := ⟨.lift level, .lift h⟩

theorem discard (h : Tame s keys base m) :
    Tame s keys base fun l => (Functor.discard (m l) : Emit PUnit) := by
  change Tame s keys base fun l => (fun _ => PUnit.unit) <$> m l
  simp only [← bind_pure_comp]
  exact bind h fun _ => flat (.pure _)

theorem mapM_mem {k : Lowering → α → Emit β} (as : List α)
    (each : ∀ a ∈ as, Tame s keys base (k · a)) :
    Tame s keys base fun l => as.mapM (k l) := by
  induction as with
  | nil => exact flat (m := Pure.pure []) (.pure _)
  | cons a as ih =>
    simp only [List.mapM_cons]
    exact bind (each a List.mem_cons_self) fun _ =>
      bind (ih fun b inside => each b (List.mem_cons_of_mem _ inside)) fun _ => flat (.pure _)

theorem mapM {k : Lowering → α → Emit β} (each : ∀ a, Tame s keys base (k · a)) (as : List α) :
    Tame s keys base fun l => as.mapM (k l) := mapM_mem as fun a _ => each a

theorem forM_mem {k : Lowering → α → Emit PUnit} (as : List α)
    (each : ∀ a ∈ as, Tame s keys base (k · a)) : Tame s keys base fun l => as.forM (k l) := by
  induction as with
  | nil => exact flat (m := Pure.pure PUnit.unit) (.pure _)
  | cons a as ih =>
    exact bind (each a List.mem_cons_self) fun _ =>
      ih fun b inside => each b (List.mem_cons_of_mem _ inside)

theorem forM {k : Lowering → α → Emit PUnit} (each : ∀ a, Tame s keys base (k · a)) (as : List α) :
    Tame s keys base fun l => as.forM (k l) := forM_mem as fun a _ => each a

theorem filterMapM {k : Lowering → α → Emit (Option β)} (each : ∀ a, Tame s keys base (k · a))
    (as : List α) : Tame s keys base fun l => as.filterMapM (k l) := by
  induction as with
  | nil => exact flat (m := Pure.pure []) (.pure _)
  | cons a as ih =>
    simp only [List.filterMapM_cons]
    refine bind (each a) fun found => ?_
    cases found with
    | none => exact ih
    | some b => exact bind ih fun _ => flat (.pure _)

theorem optionMapM {k : Lowering → α → Emit β} (each : ∀ a, Tame s keys base (k · a))
    (o : Option α) :
    Tame s keys base fun l => o.mapM (k l) := by
  cases o with
  | none => exact flat (m := Pure.pure none) (.pure _)
  | some a =>
    change Tame s keys base fun l => some <$> k l a
    simp only [← bind_pure_comp]
    exact bind (each a) fun _ => flat (.pure _)

end Tame

end Emit

namespace Compile

variable {s : Setup} {keys : List FunctionKey} {base : Work} {α : Type}

/-- A part with a frame, on a frame of its own. -/
theorem Leveled.run {m : Lowering → Emit α} (level : Emit.Leveled s m) {f : Frame}
    (grounded : ∀ w, f.Grounded w) : Leveled s fun l => (m l).run f :=
  ⟨fun below => level.below below f,
    fun hl => ⟨fun {w} moment => ((level.walks hl).ends moment (grounded w)).mono
      fun _ _ _ _ => trivial⟩⟩

theorem Ending.run {m : Lowering → Emit α} (h : Emit.Ending s keys base m) {f : Frame}
    (grounded : ∀ w, f.Grounded w) : Ending s keys base fun l => (m l).run f :=
  fun w there moment => h f w there moment (grounded w)

end Compile

end ShapeCompiler
