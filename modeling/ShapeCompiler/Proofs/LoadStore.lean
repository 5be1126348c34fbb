import Mathlib.Data.List.Infix
import ShapeCompiler.Machine.Run

/-!
# The laws of loads and stores

A pointer is a region with a path into what the region holds, so a write replaces one part of a
value.

* `Value.put`: a value with one part replaced, and what it has along every other path;
* `Memory.write_eq_ok_iff`: when a write succeeds, and what it leaves behind;
* `Memory.Wrote`, `Memory.Allocated`: what can be read after a write and after an allocation;
* `load_store_laws`: each store and each allocation of the machine does this, or changes nothing.

The laws about paths are inductions on the path, for every value that it may be followed in.
-/

namespace ShapeCompiler.Machine

variable {p q : Pointer} {path other : List Nat} {v : Value} {m m' : Memory} {r r' : Region}

/-- The paths part: neither leads on from where the other leads to. -/
def Diverge (path other : List Nat) : Prop := ¬ path <+: other ∧ ¬ other <+: path

/-! ## Parts of a value -/

namespace Value

/-- The value with the part that a path leads to replaced by `v`. Where the path leads nowhere
nothing is replaced. -/
def put (v : Value) : List Nat → Value → Value
  | [], _ => v
  | i :: path, .agg items => .agg (items.modify i (put v path))
  | _ :: _, whole => whole

/-- An element is replaced in its place. -/
theorem set_eq_modify {items : List Value} {item : Value} {i : Nat} (here : items[i]? = some item)
    (f : Value → Value) : items.set i (f item) = items.modify i f := by
  rw [List.modify_eq_set_getElem?, here]
  rfl

/-- A path can be followed in two stages. -/
theorem follow_append (p : Pointer) (path rest : List Nat) (whole : Value) :
    whole.follow p (path ++ rest) = (whole.follow p path).bind (·.follow p rest) := by
  induction path generalizing whole with
  | nil => rfl
  | cons i path ih =>
    cases whole with
    | agg items =>
      simp only [List.cons_append, follow]
      cases items[i]? with
      | none => rfl
      | some item => exact ih item
    | _ => rfl

/-- Where a path leads does not depend on the pointer that is named if it leads nowhere. -/
theorem follow_ok {whole part : Value} (h : whole.follow p path = .ok part) :
    whole.follow q path = .ok part := by
  induction path generalizing whole with
  | nil => exact h
  | cons i path ih =>
    cases whole with
    | agg items =>
      simp only [follow] at h ⊢
      cases here : items[i]? with
      | none => simp [here] at h
      | some item =>
        rw [here] at h
        exact ih h
    | _ => cases h

/-- A part can be replaced exactly if it is there, and nothing but that part is. -/
theorem replace_eq_ok_iff {whole whole' : Value} : replace p v path whole = .ok whole' ↔
    (∃ part, whole.follow q path = .ok part) ∧ whole' = put v path whole := by
  induction path generalizing whole whole' with
  | nil =>
    exact ⟨fun same => ⟨⟨whole, rfl⟩, (Except.ok.inj same).symm⟩,
      fun ⟨_, same⟩ => by rw [same]; rfl⟩
  | cons i path ih =>
    cases whole with
    | agg items =>
      simp only [replace, follow, put]
      cases here : items[i]? with
      | none => simp
      | some item =>
        dsimp only
        cases replaced : replace p v path item with
        | ok part =>
          obtain ⟨there, rfl⟩ := ih.mp replaced
          simp only [Except.map, set_eq_modify here, Except.ok.injEq]
          exact ⟨fun same => ⟨there, same.symm⟩, fun ⟨_, same⟩ => same.symm⟩
        | error t =>
          have missing : ¬ ∃ part, item.follow q path = .ok part := fun there => by
            cases replaced.symm.trans (ih.mpr ⟨there, rfl⟩)
          simp [Except.map, missing]
    | _ => simp [replace, follow]

/-- Along the first stage of a path the part changes that the rest leads to. -/
theorem follow_put (q : Pointer) (v : Value) (path rest : List Nat) (whole : Value) :
    (put v (path ++ rest) whole).follow q path = (whole.follow q path).map (put v rest) := by
  induction path generalizing whole with
  | nil => rfl
  | cons i path ih =>
    cases whole with
    | agg items =>
      simp only [List.cons_append, put, follow, List.getElem?_modify]
      cases items[i]? with
      | none => rfl
      | some item => simpa using ih item
    | _ => rfl

/-- Along another path nothing changes. -/
theorem follow_put_apart (q : Pointer) (v : Value) (apart : Diverge path other) (whole : Value) :
    (put v path whole).follow q other = whole.follow q other := by
  induction path generalizing other whole with
  | nil => exact absurd List.nil_prefix apart.1
  | cons i path ih =>
    cases other with
    | nil => exact absurd List.nil_prefix apart.2
    | cons j other =>
      cases whole with
      | agg items =>
        simp only [put, follow, List.getElem?_modify]
        by_cases same : i = j
        · subst same
          simp only [Diverge, List.prefix_cons_inj] at apart
          cases items[i]? with
          | none => rfl
          | some item => simpa using ih apart item
        · simp [same]
      | _ => rfl

end Value

/-! ## What a region holds -/

namespace Memory

theorem root_setRoot {old : Value} (there : m.root r = .ok old) (v : Value) :
    (m.setRoot v r).root r = .ok v := by
  cases r with
  | heap k =>
    have inside : k < m.heap.size := by
      by_contra outside
      simp [root, Array.getElem?_eq_none (Nat.le_of_not_lt outside)] at there
    simp [root, setRoot, Array.getElem?_setIfInBounds_self_of_lt inside]
  | global id =>
    simp only [root, setRoot, Array.getElem?_modify] at there ⊢
    cases cell : m.globals[id.raw]? with
    | none => simp [cell] at there
    | some c => simp

theorem root_setRoot_ne (m : Memory) (v : Value) (apart : r' ≠ r) :
    (m.setRoot v r).root r' = m.root r' := by
  cases r with
  | heap k =>
    cases r' with
    | heap j =>
      have other : k ≠ j := fun same => apart (congrArg Region.heap same.symm)
      simp [root, setRoot, Array.getElem?_setIfInBounds_ne other]
    | global id => rfl
  | global id =>
    cases r' with
    | heap j => rfl
    | global id' =>
      have other : id.raw ≠ id'.raw := fun same => apart (by cases id; cases id'; simp_all)
      simp [root, setRoot, Array.getElem?_modify, other]

theorem read_eq_ok_iff {old : Value} :
    m.read p = .ok old ↔ ∃ whole, m.root p.region =
    .ok whole ∧ whole.follow p p.path = .ok old := by
  unfold read
  cases m.root p.region <;> simp [Bind.bind, Except.bind]

/-- A write succeeds exactly where the region is not read-only and the pointer can be read. It
replaces the part that the pointer leads to. -/
theorem write_eq_ok_iff : m.write p v = .ok m' ↔ m.guardWrite p.region = .ok () ∧
    ∃ whole, m.root p.region = .ok whole ∧ (∃ old, whole.follow p p.path = .ok old) ∧
      m' = m.setRoot (Value.put v p.path whole) p.region := by
  unfold write written
  cases m.guardWrite p.region with
  | error t => simp [Bind.bind, Except.bind]
  | ok _ =>
    cases m.root p.region with
    | error t => simp [Bind.bind, Except.bind]
    | ok whole =>
      cases replaced : Value.replace p v p.path whole with
      | error t =>
        have missing : ¬ ∃ old, whole.follow p p.path = .ok old := fun there => by
          cases replaced.symm.trans (Value.replace_eq_ok_iff.mpr ⟨there, rfl⟩)
        simp [Bind.bind, Except.bind, replaced, missing]
      | ok whole' =>
        obtain ⟨there, rfl⟩ := (Value.replace_eq_ok_iff (q := p)).mp replaced
        simp only [Bind.bind, Except.bind, Pure.pure, Except.pure, replaced,
          Except.ok.injEq, true_and,
          exists_eq_left']
        exact ⟨fun same => ⟨there, same.symm⟩, fun ⟨_, same⟩ => same.symm⟩

/-! ## Writes and allocations -/

/-- What can be read once `v` was written through `p`. -/
structure Wrote (m : Memory) (p : Pointer) (v : Value) (m' : Memory) : Prop where
  there : m'.read p = .ok v
  /-- Through other regions and along other paths everything is as before, also what traps. -/
  apart (q : Pointer) : q.region ≠ p.region ∨ Diverge p.path q.path → m'.read q = m.read q
  /-- Further along the path are the parts of `v`. -/
  below (path : List Nat) : m'.read ⟨p.region, p.path ++ path⟩ =
    v.follow ⟨p.region, p.path ++ path⟩ path
  /-- What the part belongs to is as before but for this part. -/
  above (path rest : List Nat) : p.path = path ++ rest → ∃ old, m.read ⟨p.region, path⟩ = .ok old ∧
    m'.read ⟨p.region, path⟩ = .ok (Value.put v rest old)

theorem wrote_of_write (h : m.write p v = .ok m') : m.Wrote p v m' := by
  obtain ⟨-, whole, isWhole, ⟨old, isOld⟩, rfl⟩ := write_eq_ok_iff.mp h
  have isNew : (m.setRoot (Value.put v p.path whole) p.region).root p.region =
      .ok (Value.put v p.path whole) := root_setRoot isWhole _
  -- the part in the place itself, whatever pointer is named if it is followed further
  have place (q : Pointer) : (Value.put v p.path whole).follow q p.path = .ok v := by
    have replaced := Value.follow_put q v p.path [] whole
    rw [List.append_nil] at replaced
    rw [replaced, Value.follow_ok isOld]
    rfl
  constructor
  · exact read_eq_ok_iff.mpr ⟨_, isNew, place p⟩
  · intro q apart
    by_cases same : q.region = p.region
    · have diverge := apart.resolve_left (not_not_intro same)
      simp only [read, same, isNew, isWhole]
      exact Value.follow_put_apart q v diverge whole
    · simp only [read, root_setRoot_ne m _ same]
  · intro path
    simp only [read, isNew]
    refine (Value.follow_append _ _ _ _).trans ?_
    rw [place]
    rfl
  · intro path rest parts
    rw [parts, Value.follow_append] at isOld
    cases reached : whole.follow p path with
    | error t =>
      rw [reached] at isOld
      cases isOld
    | ok part =>
      refine ⟨part, read_eq_ok_iff.mpr ⟨whole, isWhole, Value.follow_ok reached⟩, ?_⟩
      refine read_eq_ok_iff.mpr ⟨_, isNew, ?_⟩
      rw [parts, Value.follow_put, Value.follow_ok reached]
      rfl

/-- What can be read once `v` has got an allocation of its own. -/
structure Allocated (m : Memory) (v : Value) (p : Pointer) (m' : Memory) : Prop where
  /-- No pointer into the new region could be read. -/
  fresh (q : Pointer) : q.region = p.region → m.read q = .error (.dangling p.region)
  there : m'.read p = .ok v
  apart (q : Pointer) : q.region ≠ p.region → m'.read q = m.read q

theorem allocated_alloc (m : Memory) (v : Value) : m.Allocated v (m.alloc v).1 (m.alloc v).2 where
  fresh q isNew := by
    have missing : m.root (.heap m.heap.size) = .error (.dangling (.heap m.heap.size)) := by
      simp [root]
    rw [show (m.alloc v).1.region = .heap m.heap.size from rfl] at isNew ⊢
    simp [read, isNew, missing, Bind.bind, Except.bind]
  there := by
    refine read_eq_ok_iff.mpr ⟨v, ?_, rfl⟩
    simp [alloc, root, Region.root]
  apart q other := by
    have same : (m.alloc v).2.root q.region = m.root q.region := by
      cases isRegion : q.region with
      | global id => rfl
      | heap k =>
        have apart : k ≠ m.heap.size := fun same => other (by rw [isRegion, same]; rfl)
        simp [alloc, root, Array.getElem?_push, apart]
    simp only [read, same]

end Memory

/-- The laws of loads and stores, for every state of the machine. A store through a pointer succeeds
exactly where the region is not read-only and the pointer can be read; then it changes nothing but
what is read along the path, and otherwise it changes nothing at all. An allocation always succeeds,
in a region that no pointer could be read in. -/
theorem load_store_laws (s : State) (v : Value) :
    (∀ p : Pointer,
      ((∃ m', s.memory.write p v = .ok m') ↔
        s.memory.guardWrite p.region = .ok () ∧ ∃ old, s.memory.read p = .ok old) ∧
      (∀ m', s.memory.write p v = .ok m' →
        storeValue (.ptr p) v s = .ok () { s with memory := m' } ∧ s.memory.Wrote p v m') ∧
      ∀ t, s.memory.write p v = .error t → storeValue (.ptr p) v s = .error t s) ∧
    ∃ p m', allocate v s = .ok (.ptr p) { s with memory := m' } ∧ s.memory.Allocated v p m' := by
  refine ⟨fun p => ⟨?_, fun m' written => ?_, fun t failed => ?_⟩, ?_⟩
  · simp only [Memory.write_eq_ok_iff, Memory.read_eq_ok_iff]
    constructor
    · rintro ⟨m', writable, whole, isWhole, ⟨old, isOld⟩, -⟩
      exact ⟨writable, old, whole, isWhole, isOld⟩
    · rintro ⟨writable, old, whole, isWhole, isOld⟩
      exact ⟨_, writable, whole, isWhole, ⟨old, isOld⟩, rfl⟩
  · refine ⟨?_, Memory.wrote_of_write written⟩
    rw [storeValue_eq]
    simp [Memory.store, Value.asPointer, written, Bind.bind, Except.bind]
  · rw [storeValue_eq]
    simp [Memory.store, Value.asPointer, failed, Bind.bind, Except.bind]
  · exact ⟨_, _, rfl, Memory.allocated_alloc s.memory v⟩

/-- A record in a record, and a read-only global. -/
def nestedRecords : State where
  memory := ⟨#[.agg [.agg [.bool true, .null], .undef]], #[⟨"g", .null, true⟩]⟩
  fuel := 1

/-- The inner record is replaced by a text. The elements of the other part were never written, so
nothing can be written there, and neither can the global be. -/
theorem load_store_laws_nestedRecords :
    (∃ m', storeValue (.ptr ⟨.heap 0, [0]⟩) (.text "t") nestedRecords =
        .ok () { nestedRecords with memory := m' } ∧
      nestedRecords.memory.Wrote ⟨.heap 0, [0]⟩ (.text "t") m' ∧
      m'.read ⟨.heap 0, []⟩ = .ok (.agg [.text "t", .undef])) ∧
    storeValue (.ptr ⟨.heap 0, [1, 0]⟩) (.text "t") nestedRecords =
      .error (.notAggregate .undef ⟨.heap 0, [1, 0]⟩) nestedRecords ∧
    storeValue (.ptr ⟨.global ⟨0⟩, []⟩) (.text "t") nestedRecords =
      .error (.readOnlyWrite "g") nestedRecords := by
  obtain ⟨laws, -⟩ := load_store_laws nestedRecords (.text "t")
  obtain ⟨-, inner, -⟩ := laws ⟨.heap 0, [0]⟩
  obtain ⟨-, -, below⟩ := laws ⟨.heap 0, [1, 0]⟩
  obtain ⟨-, -, readOnly⟩ := laws ⟨.global ⟨0⟩, []⟩
  obtain ⟨stored, wrote⟩ := inner _ rfl
  exact ⟨⟨_, stored, wrote, rfl⟩, below _ rfl, readOnly _ rfl⟩

end ShapeCompiler.Machine
