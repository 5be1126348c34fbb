import ShapeCompiler.Proofs.Branches
import ShapeCompiler.Proofs.Endings
import ShapeCompiler.Proofs.Evaluation

/-!
# Runs that go on elsewhere

A run that stands in the middle of a body goes on as one that stands at another place of it.

* `Machine.walkFrom_eq_resume`: how many empty blocks control passes makes no difference to where it
  comes;
* `Run.Costs`: with some fuel a run goes on as another one, and with less it runs out;
* `Point.Reaches`, `Point.Starves`: so it is for the rest of a run in every body that a draft grows
  into; the rules follow the ways in which code is written.

Control may come back to a place, so the second point need not be behind the first.
-/

namespace ShapeCompiler

open Source Code Work Machine

namespace Machine

/-! ## Empty blocks -/

section Idle

variable {types : TypeTable} {invoke : Invoke} {body : Code.Body} {id : BlockId} {r : Registers}

/-- A block that does not pass control on at once is dealt with in the same way however many empty
blocks may follow. -/
theorem walkFrom_stops (keeps : ∀ f args, (invoke f args).Keeping)
    (stops : idleNext body r id = none)
    (m n : Nat) : walkFrom types invoke body id m r = walkFrom types invoke body id n r := by
  cases here : body.blocks[id.raw]? with
  | none => rw [walkFrom_missing here, walkFrom_missing here]
  | some k =>
    by_cases empty : k.insts.isEmpty
    · rw [walkFrom_empty here empty, walkFrom_empty here empty]
      cases exits : exitBlock r k with
      | error t => rfl
      | ok after =>
        cases after with
        | leave v => rfl
        | goto next =>
          have leads : idleNext body r id = some next :=
            idleNext_eq_some_iff.mpr ⟨k, here, empty, exits⟩
          cases stops.symm.trans leads
    · rw [walkFrom_resume keeps here empty, walkFrom_resume keeps here empty]

/-- Control that comes back to a block goes on through empty blocks for ever. -/
theorem unending_of_circular {m : Nat} {a : BlockId} (after : idleAfter body r id m = some a)
    (circular : Circular body r a) (n : Nat) : ∃ b, idleAfter body r id n = some b := by
  obtain ⟨b, isB⟩ := circular.unending (n + 1)
  have far : idleAfter body r id (m + (n + 1)) = some b := by rw [idleAfter_add, after]; exact isB
  obtain ⟨c, _, isC, _⟩ := idleAfter_below far (i := n) (by omega)
  exact ⟨c, isC⟩

/-- There is room for one more empty block than control can pass without coming back. -/
theorem walkFrom_after_idle (keeps : ∀ f args, (invoke f args).Keeping) {next : BlockId}
    (leads : idleNext body r id = some next) {n : Nat} (size : body.blocks.size = n + 1) :
    walkFrom types invoke body next n r = walkFrom types invoke body next (n + 1) r := by
  have shift (j : Nat) : idleAfter body r id (j + 1) = idleAfter body r next j := by
    rw [idleAfter_succ, leads]
    rfl
  obtain ⟨m, a, after, circular⟩ | ⟨m, le, a, after, stops⟩ := circular_or_stops body r id
  · have unending (j : Nat) : ∃ b, idleAfter body r next j = some b :=
      shift j ▸ unending_of_circular after circular (j + 1)
    rw [walkFrom_unending unending, walkFrom_unending unending]
  · cases m with
    | zero =>
      cases after
      cases stops.symm.trans leads
    | succ j =>
      rw [shift] at after
      obtain ⟨i, rfl⟩ : ∃ i, n = i + j := ⟨n - j, by omega⟩
      rw [show i + j + 1 = i + 1 + j by omega, walkFrom_idleAfter after, walkFrom_idleAfter after]
      exact walkFrom_stops keeps stops _ _

/-- A walk that comes to a block is the rest of a run from the beginning of the block. -/
theorem walkFrom_eq_resume (keeps : ∀ f args, (invoke f args).Keeping) (id : BlockId)
    (r : Registers) :
    walkFrom types invoke body id body.blocks.size r = resume types invoke body id 0 r := by
  cases here : body.blocks[id.raw]? with
  | none =>
    rw [walkFrom_missing here]
    simp only [resume, here]
  | some k =>
    by_cases empty : k.insts.isEmpty
    · have none_ : k.insts.toList = [] := by simpa using empty
      have noCode : resume types invoke body id 0 r =
          goOn (exitBlock r k) fun next => walkFrom types invoke body next body.blocks.size r := by
        rw [resume_here here, none_]
        rfl
      rw [noCode, walkFrom_empty here empty]
      cases exits : exitBlock r k with
      | error t => rfl
      | ok after =>
        cases after with
        | leave v => rfl
        | goto next =>
          have leads : idleNext body r id = some next :=
            idleNext_eq_some_iff.mpr ⟨k, here, empty, exits⟩
          obtain ⟨n, size⟩ : ∃ n, body.blocks.size = n + 1 :=
            ⟨body.blocks.size - 1, by have := lt_size_of_idleNext leads; omega⟩
          change unlessEndless body.blocks.size _ =
            walkFrom types invoke body next body.blocks.size r
          rw [size]
          exact walkFrom_after_idle keeps leads size
    · exact walkFrom_resume keeps here empty

end Idle

/-! ## What going on costs -/

/-- With so many units of fuel the run goes on as the other one, and with fewer it runs out. -/
structure Run.Costs {α : Type} (m : Run α) (st : State) (units : Nat) (m' : Run α) (st' : State) :
    Prop where
  enough : ∀ n, m (st.withFuel (units + n)) = m' (st'.withFuel n)
  short : ∀ n, n < units → RanOut (m (st.withFuel n))

namespace Run.Costs

variable {α β : Type} {m m' m'' : Run α} {st st' st'' : State} {i j : Nat}

theorem refl (m : Run α) (st : State) : m.Costs st 0 m st :=
  ⟨fun n => by rw [Nat.zero_add], fun n never => absurd never (Nat.not_lt_zero n)⟩

theorem trans (h : m.Costs st i m' st') (h' : m'.Costs st' j m'' st'') :
    m.Costs st (i + j) m'' st'' := by
  refine ⟨fun n => ?_, fun n lt => ?_⟩
  · rw [Nat.add_assoc, h.enough, h'.enough]
  · by_cases le : i ≤ n
    · obtain ⟨k, rfl⟩ : ∃ k, n = i + k := ⟨n - i, by omega⟩
      rw [h.enough]
      exact h'.short k (by omega)
    · exact h.short n (by omega)

/-- What follows is left for later. -/
theorem bind {a : α} (h : m.Costs st i (Pure.pure a) st') (f : α → Run β) :
    (m >>= f).Costs st i (f a) st' :=
  ⟨fun n => bind_of_ok (h.enough n), fun n lt => by
    obtain ⟨s, out⟩ := h.short n lt
    exact ⟨s, bind_of_error out⟩⟩

theorem starves (h : m.Costs st i m' st') (out : ∀ n, RanOut (m' (st'.withFuel n))) (n : Nat) :
    RanOut (m (st.withFuel n)) := by
  by_cases le : i ≤ n
  · obtain ⟨k, rfl⟩ : ∃ k, n = i + k := ⟨n - i, by omega⟩
    rw [h.enough]
    exact out k
  · exact h.short n (by omega)

end Run.Costs

theorem Registers.eq_of_read {r r' : Registers} (size : r.size = r'.size)
    (read : r.read = r'.read) :
    r = r' := by
  refine Array.ext size fun i inside inside' => ?_
  have same := congrFun read ⟨i⟩
  simpa [Registers.read, Array.getD_eq_getD_getElem?, Array.getElem?_eq_getElem inside,
    Array.getElem?_eq_getElem inside'] using same

/-- Instructions that need no calls take one unit each. -/
theorem Runs.costs {types : TypeTable} {size : Nat} {ρ ρ' : Valuation} {mem mem' : Memory}
    {code : List Inst} (h : Runs types size ρ mem code ρ' mem') (invoke : Invoke) {r : Registers}
    {st : State} (values : r.read = ρ) (memory : st.memory = mem) (room : size ≤ r.size) :
    ∃ r' : Registers, r'.read = ρ' ∧ r'.size = r.size ∧
      (execInsts types invoke r code).Costs st code.length
      (pure r') { st with memory := mem' } := by
  obtain ⟨r', values', size', -⟩ := h invoke r (st.withFuel code.length) values memory
    room (Nat.le_refl _)
  refine ⟨r', values', size', fun n => ?_, fun n lt => ?_⟩
  · obtain ⟨r₁, values₁, size₁, ran⟩ := h invoke r (st.withFuel (code.length + n))
      values memory room
      (Nat.le_add_right _ _)
    obtain rfl : r₁ = r' := Registers.eq_of_read (size₁.trans size'.symm)
      (values₁.trans values'.symm)
    rw [ran]
    simp only [State.withFuel, Nat.add_sub_cancel_left]
    rfl
  -- with calls that give up, the instructions are metered, and they give up nowhere
  · let giveUp : Invoke := fun _ _ => throw .nestingLimit
    have metered : Run.Metered (execInsts types giveUp r code) :=
      .execInsts types (fun _ _ => (Run.Blind.throw _).metered) r code
    obtain ⟨_, _, _, ran⟩ := h giveUp r (st.withFuel code.length) values memory room (Nat.le_refl _)
    obtain ⟨units, takes⟩ := metered (st.withFuel code.length) (by rw [ran]; exact not_ranOut_ok)
    have used := takes.used
    rw [ran] at used
    simp only [ending, State.withFuel] at used
    have short := takes.short n (by omega)
    obtain ⟨st', out⟩ := short
    rcases Run.Follows.execInsts (g := invoke) types (fun _ _ => Run.Follows.giveUp _) r code
      (st.withFuel n) with same | ⟨_, gaveUp⟩
    · exact ⟨st', same.symm.trans out⟩
    · cases (show execInsts types giveUp r code (st.withFuel n) = _ from out).symm.trans gaveUp

/-- The instructions are run, and what follows them. -/
theorem resume_split {types : TypeTable} {invoke : Invoke} {c : Code.Body}
    {id : BlockId} {done : Nat}
    {k : Block} {code rest : List Inst} (here : c.blocks[id.raw]? = some k)
    (parts : k.insts.toList.drop done = code ++ rest) (r : Registers) :
    resume types invoke c id done r =
      execInsts types invoke r code >>= fun r' =>
      resume types invoke c id (done + code.length) r' := by
  have later : k.insts.toList.drop (done + code.length) = rest := by
    rw [← List.drop_drop, parts, List.drop_left]
  funext st
  cases ran : execInsts types invoke r code st with
  | ok r' st' => rw [resume_insts here parts ran, bind_of_ok ran]
  | error t st' =>
    rw [bind_of_error ran, resume_here here, parts]
    exact bind_of_error (by rw [execInsts_append, ran])

/-- The types of a module, and how its calls are carried out. -/
structure World where
  types : TypeTable
  invoke : Invoke
  keeps : ∀ f args, (invoke f args).Keeping

end Machine

/-! ## Places of a body -/

namespace Point

variable {W : World} {T : TypeTable → Prop} {p p' p'' : Point} {d d' : Draft} {i j : Nat}
  {log log' : List Entry}

/-- The state with the memory of the point, after something was logged. -/
def left (p : Point) (log : List Entry) (st : State) : State :=
  { st with memory := p.memory, log := st.log ++ log.toArray }

/-- Whatever body the draft `d` grows into, a run that is at the first point goes on as one that is
at the second, for so much fuel, and logs that much on the way. -/
def Reaches (W : World) (d : Draft) (p : Point) (units : Nat) (log : List Entry) (p' : Point) :
    Prop :=
  ∀ fin, d.Extends fin → ∀ (r : Registers) (st : State), p.At r st → fin.values.size ≤ r.size →
    ∃ r' : Registers, r'.read = p'.values ∧ r'.size = r.size ∧
      (p.resume W.types W.invoke fin r).Costs st units (p'.resume W.types W.invoke fin r')
        (p'.left log st)

/-- Whatever body the draft grows into, a run that is at the point never has fuel enough. -/
def Starves (W : World) (d : Draft) (p : Point) : Prop :=
  ∀ fin, d.Extends fin → ∀ (r : Registers) (st : State), p.At r st → fin.values.size ≤ r.size →
    ∀ n, RanOut (p.resume W.types W.invoke fin r (st.withFuel n))

/-- The second point is behind the first, and a run that is at the first comes to it. -/
structure Advances (W : World) (p : Point) (units : Nat) (log : List Entry) (p' : Point) :
    Prop where
  grown : p.draft.Extends p'.draft
  kept : ∀ v, v.raw < p.size → p'.values v = p.values v
  reaches : p.Reaches W p'.draft units log p'

theorem At.left_nil {r : Registers} {st : State} (h : p.At r st) (same : p'.memory = p.memory) :
    p'.left [] st = st := by
  rw [left, same, ← h.memory]
  simp

namespace Reaches

/-- Both points are at one place, and nothing has changed. -/
theorem of_same (place : p'.place = p.place) (values : p'.values = p.values)
    (memory : p'.memory = p.memory) (written : p'.draft.written p'.place = p.draft.written p.place)
    :
    p.Reaches W d 0 [] p' := by
  intro fin _ r st here _
  refine ⟨r, values ▸ here.values, rfl, ?_⟩
  have same : p'.resume W.types W.invoke fin r = p.resume W.types W.invoke fin r := by
    rw [resume, resume, written, place]
  rw [same, here.left_nil memory]
  exact .refl _ _

theorem refl (p : Point) : p.Reaches W d 0 [] p := .of_same rfl rfl rfl rfl

theorem trans (h : p.Reaches W d i log p') (h' : p'.Reaches W d j log' p'') :
    p.Reaches W d (i + j) (log ++ log') p'' := by
  intro fin more r st here room
  obtain ⟨r₁, values₁, size₁, costs₁⟩ := h fin more r st here room
  obtain ⟨r₂, values₂, size₂, costs₂⟩ := h' fin more r₁ (p'.left log st)
    ⟨values₁, rfl⟩ (size₁ ▸ room)
  have same : p''.left log' (p'.left log st) = p''.left (log ++ log') st := by
    simp only [left, Array.append_assoc, List.append_toArray]
  rw [same] at costs₂
  exact ⟨r₂, values₂, size₂.trans size₁, costs₁.trans costs₂⟩

theorem mono (h : p.Reaches W d i log p') (more : d.Extends d') : p.Reaches W d' i log p' :=
  fun fin further => h fin (more.trans further)

theorem starves (h : p.Reaches W d i log p') (starves : p'.Starves W d) : p.Starves W d := by
  intro fin more r st here room
  obtain ⟨r', values, size, costs⟩ := h fin more r st here room
  exact costs.starves (starves fin more r' (p'.left log st) ⟨values, rfl⟩ (size ▸ room))

/-- The block is left for another one. -/
theorem exit {e : Exit} {b : BlockId} (leads : e.LeadsTo p.values b)
    (grown : (p.draft.closed p.place e).Extends d) (place : p'.place = b)
    (values : p'.values = p.values)
    (memory : p'.memory = p.memory) (new : p'.draft.written b = 0) : p.Reaches W d 0 [] p' := by
  intro fin more r st here _
  refine ⟨r, values ▸ here.values, rfl, ?_⟩
  obtain ⟨k, there, _⟩ := p.isOpen.block
  have isLeft := Draft.closed_extends e there (grown.trans more)
  have exits := leads.exitBlock here.values (k := { k with exit := some e }) rfl
  have same : p.resume W.types W.invoke fin r = p'.resume W.types W.invoke fin r := by
    rw [resume, resume, Draft.written_eq there, place, new, ← walkFrom_eq_resume W.keeps b r]
    exact resume_exit (c := fin.finish) isLeft (Nat.le_refl _) exits
  rw [same, here.left_nil memory]
  exact .refl _ _

/-- Behind some code that was written the run goes on after what the code does. -/
theorem of_code {code : List Inst} (place : p'.place = p.place)
    (appends : p.draft.Appends p.place code p'.draft)
    (runs : ∀ (r : Registers) (st : State), p.At r st → p'.size ≤ r.size →
      ∃ r' : Registers, r'.read = p'.values ∧ r'.size = r.size ∧
        (execInsts W.types W.invoke r code).Costs st i (pure r') (p'.left log st)) :
    p.Reaches W p'.draft i log p' := by
  intro fin more r st here room
  obtain ⟨r', values, size, costs⟩ := runs r st here (Nat.le_trans more.size_le room)
  refine ⟨r', values, size, ?_⟩
  obtain ⟨k, there, _⟩ := p.isOpen.block
  have there' := appends.block there
  obtain ⟨k', there'', grown⟩ := more.blocks _ _ there'
  obtain ⟨insts, isInsts⟩ := grown.insts
  have parts : k'.insts.toList.drop k.insts.size = code ++ insts.toList := by
    simp [isInsts]
  have behind : p'.draft.written p'.place = k.insts.size + code.length := by
    rw [place, Draft.written_eq there']
    simp
  rw [resume, resume, Draft.written_eq there, behind, place, resume_split there'' parts r]
  exact costs.bind _

end Reaches

theorem Starves.mono (h : p.Starves W d) (more : d.Extends d') : p.Starves W d' :=
  fun fin further => h fin (more.trans further)

/-- A run that comes from each point of a kind to another one, and spends fuel on the way, never has
fuel enough. -/
theorem starves_of_turns {P : Point → Prop} (turn : ∀ p, P p → p.Starves W d ∨
    ∃ units log p', 0 < units ∧ p.Reaches W d units log p' ∧ P p') (here : P p) :
    p.Starves W d := by
  intro fin more r st there room n
  induction n using Nat.strong_induction_on generalizing p r st with
  | _ n ih =>
    rcases turn p here with starves | ⟨units, log, p', some, reaches, here'⟩
    · exact starves fin more r st there room n
    · obtain ⟨r', values, size, costs⟩ := reaches fin more r st there room
      by_cases le : units ≤ n
      · obtain ⟨k, rfl⟩ : ∃ k, n = units + k := ⟨n - units, by omega⟩
        rw [costs.enough]
        exact ih k (by omega) here' r' (p'.left log st) ⟨values, rfl⟩ (size ▸ room)
      · exact costs.short n (by omega)

namespace Advances

theorem size_le (h : p.Advances W i log p') : p.size ≤ p'.size := h.grown.size_le

theorem refl (p : Point) : p.Advances W 0 [] p := ⟨.refl _, fun _ _ => rfl, .refl p⟩

theorem trans (h : p.Advances W i log p') (h' : p'.Advances W j log' p'') :
    p.Advances W (i + j) (log ++ log') p'' where
  grown := h.grown.trans h'.grown
  kept v inside := by rw [h'.kept v (Nat.lt_of_lt_of_le inside h.size_le), h.kept v inside]
  reaches := (h.reaches.mono h'.grown).trans h'.reaches

theorem starves (h : p.Advances W i log p') (more : p'.draft.Extends d) (starves : p'.Starves W d) :
    p.Starves W d := (h.reaches.mono more).starves starves

theorem knows {v : ValueId} {x : Value} (h : p.Advances W i log p') (known : p.Knows v x) :
    p'.Knows v x :=
  ⟨Nat.lt_of_lt_of_le known.inside h.size_le, (h.kept v known.inside).trans known.value⟩

/-- The step costs something if an instruction was written in the block. -/
theorem of_goes (h : p.Goes T p') (admitted : T W.types) : ∃ units, p.Advances W units [] p' ∧
    (p.draft.written p.place < p'.draft.written p.place → 0 < units) := by
  obtain ⟨code, appends, runs⟩ := h.code
  refine ⟨code.length, ⟨appends.extends p.isOpen, h.kept, .of_code h.place appends ?_⟩, fun more =>
    ?_⟩
  · intro r st here room
    obtain ⟨r', values, size, costs⟩ := (runs _ admitted).costs W.invoke here.values
      here.memory room
    refine ⟨r', values, size, ?_⟩
    simpa [left] using costs
  · obtain ⟨k, there, _⟩ := p.isOpen.block
    rw [Draft.written_eq there, Draft.written_eq (appends.block there)] at more
    simpa using more

end Advances

end Point

end ShapeCompiler
