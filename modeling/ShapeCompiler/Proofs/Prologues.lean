import ShapeCompiler.Proofs.CallSites
import ShapeCompiler.Proofs.Projections
import ShapeCompiler.Proofs.WellFormed

/-!
# What a body has in scope at its beginning

A body loads every slot of its environment and binds it: parameters to their names, captured
variables to the names by which the site of the declaration knows them, the object as the receiver.
A variable that is hidden at the site can be reached by its declaration only.

* `Emit.Prepares`: a step writes code and may change what is in scope;
* `Environment.Lexical`: the slots of an environment in which each name tells its variable;
* `Environment.BindsTo`: what is bound once the first slots are dealt with;
* `prologue_binds`: what a body has in scope at its beginning, whatever the order of its slots.
-/

namespace ShapeCompiler

open Source Code Work Machine

/-! ## Steps that change the scope -/

namespace Stage

/-- Code leads from the one stage to the other; the frame may change in other ways, too. -/
structure Prepares (s : Setup) (x y : Stage) : Prop where
  reaches : Reaches s x.work y.work
  point : x.point.Goes y.Admits y.point

/-- The stage with another frame that has the same draft. -/
def reframed (x : Stage) (f : Frame) (same : f.draft = x.frame.draft) : Stage :=
  ⟨x.work, f, x.values, x.memory, x.place, same ▸ x.isOpen⟩

variable {s : Setup} {x y z : Stage}

theorem Prepares.refl (x : Stage) : x.Prepares s x := ⟨.refl _, .refl _⟩

theorem Prepares.trans (h : x.Prepares s y) (h' : y.Prepares s z) : x.Prepares s z :=
  ⟨h.reaches.trans h'.reaches, (h.point.mono fun _ admitted =>
    h'.reaches.later.extends.code.types.trans admitted).trans h'.point⟩

theorem Goes.prepares (h : x.Goes s y) : x.Prepares s y := ⟨h.reaches, h.point⟩

theorem Prepares.knows {v : ValueId} {val : Value} (h : x.Prepares s y) (known : x.Knows v val) :
    y.Knows v val := h.point.knows known

theorem point_reframed (x : Stage) (f : Frame) (same : f.draft = x.frame.draft) :
    (x.reframed f same).point = x.point := by
  obtain ⟨draft, _⟩ := f
  dsimp only at same
  subst same
  rfl

theorem prepares_reframed (x : Stage) (f : Frame) (same : f.draft = x.frame.draft) :
    x.Prepares s (x.reframed f same) := by
  refine ⟨.refl _, ?_⟩
  rw [point_reframed]
  exact .refl _

end Stage

namespace Emit

variable {s : Setup} {x : Stage} {α β : Type}

/-- The step succeeds and leads to a stage with the property. -/
def Prepares (s : Setup) (x : Stage) (m : Emit α) (Q : α → Stage → Prop) : Prop :=
  ∃ a y, m x.frame s x.work = .ok (a, y.frame) y.work ∧ x.Prepares s y ∧ Q a y

theorem Achieves.prepares {m : Emit α} {Q : α → Stage → Prop} (h : Achieves s x m Q) :
    Prepares s x m fun a y => x.Goes s y ∧ Q a y := by
  obtain ⟨a, y, ran, goes, here⟩ := h
  exact ⟨a, y, ran, goes.prepares, goes, here⟩

namespace Prepares

theorem bind {m : Emit α} {k : α → Emit β} {Q : α → Stage → Prop} {R : β → Stage → Prop}
    (first : Prepares s x m Q) (rest : ∀ a y, x.Prepares s y → Q a y → Prepares s y (k a) R) :
    Prepares s x (m >>= k) R := by
  obtain ⟨a, y, ran, prepares, here⟩ := first
  obtain ⟨b, z, ran', prepares', here'⟩ := rest a y prepares here
  refine ⟨b, z, ?_, prepares.trans prepares', here'⟩
  rw [bind_of_ok ran]
  exact ran'

theorem mono {m : Emit α} {Q R : α → Stage → Prop} (h : Prepares s x m Q)
    (weaker : ∀ a y, x.Prepares s y → Q a y → R a y) : Prepares s x m R := by
  obtain ⟨a, y, ran, prepares, here⟩ := h
  exact ⟨a, y, ran, prepares, weaker a y prepares here⟩

theorem pure {a : α} {Q : α → Stage → Prop} (h : Q a x) : Prepares s x (Pure.pure a) Q :=
  ⟨a, x, rfl, .refl x, h⟩

/-- A part that finds something and changes nothing, and the rest. -/
theorem read {c : Compile α} {k : α → Emit β} {a : α} {Q : β → Stage → Prop}
    (known : c s x.work = .ok a x.work) (rest : Prepares s x (k a) Q) :
    Prepares s x (liftM c >>= k) Q := by
  obtain ⟨b, y, ran, here⟩ := rest
  refine ⟨b, y, ?_, here⟩
  rw [lift_bind_apply, Compile.bind_apply, known]
  exact ran

/-- Something other than the draft is changed. -/
theorem modify {g : Frame → Frame} {Q : PUnit → Stage → Prop}
    (same : (g x.frame).draft = x.frame.draft) (h : Q ⟨⟩ (x.reframed (g x.frame) same)) :
    Prepares s x (modify g) Q :=
  ⟨⟨⟩, x.reframed (g x.frame) same, rfl, x.prepares_reframed _ same, h⟩

/-- Steps for the members of a list, with an invariant of the members dealt with. -/
theorem forM {k : α → Emit PUnit} (I : List α → Stage → Prop) (as : List α) (start : I [] x)
    (step : ∀ done a rest, as = done ++ a :: rest → ∀ y, x.Prepares s y → I done y →
      Prepares s y (k a) fun _ => I (done ++ [a])) :
    Prepares s x (as.forM k) fun _ => I as := by
  suffices general : ∀ rest done, as = done ++ rest → ∀ y, x.Prepares s y → I done y →
      Prepares s y (rest.forM k) fun _ => I as from general as [] rfl x (.refl x) start
  intro rest
  induction rest with
  | nil =>
    intro done parts y _ here
    rw [List.append_nil] at parts
    subst parts
    exact .pure here
  | cons a rest ih =>
    intro done parts y prepares here
    refine .bind (step done a rest parts y prepares here) fun _ z prepares' here' => ?_
    exact ih (done ++ [a]) (by simp [parts]) z (prepares.trans prepares') here'

end Prepares

/-- A value that is defined is the next one of the body. -/
theorem Does.fresh {T : TypeTable → Prop} {p : Point} {ty : TyId} {name : String}
    {inst : ValueId → Inst}
    {Q : ValueId → Point → Prop} (h : Writing.Does T p (Draft.defineBy ty name inst) Q) :
    Writing.Does T p (Draft.defineBy ty name inst) fun a p' => a = ⟨p.size⟩ ∧ Q a p' := by
  obtain ⟨p', draft, goes, here⟩ := h
  exact ⟨p', draft, goes, rfl, here⟩

/-- What is loaded from a field is the second value from here on. -/
theorem loadField_next {ptr : ValueId} {k i : Nat} {items : List Value} {v : Value} (record : TyId)
    (name : String) (isPtr : x.values ptr = address k)
    (cell : x.memory.heap[k]? = some (.agg items))
    (item : items[i]? = some v) (written : v ≠ .undef) :
    Achieves s x (loadField record ptr i name) fun a y => a = ⟨x.size + 1⟩ ∧ y.size = x.size + 2 ∧
      y.Knows a v ∧ y.memory = x.memory ∧ y.work = x.work := by
  refine (Does.write_bind (.fieldAddr record i name isPtr) ?_).achieves (.loadField _ _ _ _)
  rintro p q goes ⟨known, memory, size⟩
  refine .write (Does.fresh (.load .ptr name (x := v) ?_)) ?_
  · change q.memory.load (q.values p) = _
    rw [known.value, memory]
    exact Memory.load_heap cell item written
  · rintro a q' _ ⟨rfl, known', memory', size'⟩
    have next : q.size = x.size + 1 := size
    refine ⟨by rw [← next]; rfl, ?_, known', memory'.trans memory, rfl⟩
    change q'.size = _
    rw [size']
    exact congrArg (· + 1) next

end Emit

/-! ## Slots -/

/-- The slot invariant: the parameters are first, no two slots hold one variable under one name, and
the slot of the object is its own. -/
structure Environment.Slotted (e : Environment) : Prop where
  parametersFirst : ∀ (i : Nat) slot, e.slots[i]? = some slot →
    (slot.origin = .param ↔ i < e.paramCount)
  keys : (e.slots.map EnvSlot.key).Nodup
  receiver : ∀ slot ∈ e.slots, slot.origin = .receiver → slot.name = .receiver
  nameless : ∀ slot ∈ e.slots, slot.name = .receiver → slot.var = none

/-- Each name in the environment tells its variable, and no two parameters share a name. -/
structure Environment.Lexical (p : Program) (e : Environment) : Prop extends e.Slotted where
  declared : ∀ slot ∈ e.slots, ∀ n, slot.name = .named n →
    ∃ var decl, slot.var = some var ∧ p.decl var = .ok decl ∧ decl.name = n
  parameters : ((e.slots.take e.paramCount).map (·.name)).Nodup

/-- The slot of the object is its own and has no variable, if this holds of the slots around. -/
theorem LaidOut.receivers {s : Setup} {w : Work} {e : Environment} (h : LaidOut s w e)
    (around : ∀ id e', w.registry.env? id = some e' → ∀ slot ∈ e'.slots,
      slot.name = .receiver → slot.var = none) : ∀ slot ∈ e.slots,
      (slot.origin = .receiver → slot.name = .receiver) ∧
      (slot.name = .receiver → slot.var = none) := by
  obtain @⟨owner, plan, site, survey, found, params, slots, remap, name, record, planned, free,
    gathered, formals, outer, merged, fields⟩ := h
  obtain ⟨taken, sub, taking⟩ := addOuter_taken (plan.ownSlots site params found)
    (site.around w.registry)
  rw [merged, Prod.mk.injEq] at taking
  intro slot inside
  dsimp only at inside
  rw [taking.1, EnvPlan.ownSlots, List.mem_append, List.mem_append, List.mem_append] at inside
  rcases inside with ((isParam | isCapture) | isReceiver) | isOuter
  · obtain ⟨_, _, formal⟩ := formal_of_mem formals isParam
    obtain ⟨_, _, isName⟩ := formal.name
    simp [formal.origin, isName]
  · obtain ⟨_, _, rfl⟩ := List.mem_map.mp isCapture
    simp
  · unfold EnvPlan.receiverSlots at isReceiver
    split at isReceiver
    · obtain rfl := List.mem_singleton.mp isReceiver
      simp
    · cases isReceiver
  · obtain ⟨⟨j, b⟩, isTaken, rfl⟩ := List.mem_map.mp isOuter
    obtain ⟨id, e', _, known, here⟩ := outer_of_mem_around (sub.subset isTaken)
    exact ⟨by rintro ⟨⟩, around id e' known b (List.mem_of_getElem? here)⟩

namespace Work

variable {s : Setup} {w : Work}

/-- The slot of the object is its own and has no variable, in whatever environment. -/
theorem Moment.receivers (h : Moment s w) : ∀ id e, w.registry.env? id = some e → ∀ slot ∈ e.slots,
    (slot.origin = .receiver → slot.name = .receiver) ∧ (slot.name = .receiver → slot.var = none) :=
  h.forall_env (P := fun _ e => ∀ slot ∈ e.slots,
    (slot.origin = .receiver → slot.name = .receiver) ∧
      (slot.name = .receiver → slot.var = none))
    (fun _ _ laid others => laid.receivers fun id e' known slot inside =>
      (others id e' known slot inside).2)
    (fun _ _ _ => by simp [Environment.synthesized]) fun _ _ _ _ holds => holds

/-- Every environment of a declaration meets the invariant. -/
theorem Moment.slotted (h : Moment s w) (distinct : s.program.DistinctParams) {id : EnvId}
    {e : Environment} {d : DeclId} (known : w.registry.env? id = some e)
    (owned : e.owner = some d) :
    e.Slotted where
  parametersFirst _ _ here := (h.formed known owned).isParam_iff here
  keys := h.keys_nodup distinct known (by simp [owned])
  receiver slot inside := (h.receivers id e known slot inside).1
  nameless slot inside := (h.receivers id e known slot inside).2

end Work

/-! ## What is bound -/

/-- The value that the prologue loads from a slot: two instructions are written for each. -/
def Stage.slotValue (x : Stage) (i : Nat) : ValueId := ⟨x.size + 2 * i + 1⟩

namespace Environment

/-- A slot is bound to its name, and not only to its variable. -/
def Sees (e : Environment) (site : Site) (slot : EnvSlot) (n : Name) : Prop :=
  slot.origin = .param ∨ Emit.isVisible e site slot n

instance (e : Environment) (site : Site) (slot : EnvSlot) (n : Name) :
    Decidable (e.Sees site slot n) := inferInstanceAs (Decidable (_ ∨ _))

/-- What a body takes the variable in a slot to hold. -/
def slotInfo (params : List Info) (site : Site) (i : Nat) (slot : EnvSlot) (n : Name) : Info :=
  if slot.origin = .param then params[i]?.getD slot.info else Emit.capturedInfo site slot n

/-- What is bound in a body that began in `x` once the first `m` slots are dealt with. -/
structure BindsTo (e : Environment) (params : List Info) (site : Site) (x : Stage) (m : Nat)
    (f : Frame) : Prop where
  seen : ∀ i slot n, i < m → e.slots[i]? = some slot → slot.name = .named n → e.Sees site slot n →
    f.scope.lookup n = some (.cell (x.slotValue i) (slotInfo params site i slot n)) ∧
      f.scope.declarationOf n = slot.var
  unseen : ∀ n, (∀ i slot, i < m → e.slots[i]? = some slot → slot.name = .named n →
    ¬e.Sees site slot n) → f.scope.lookup n = x.frame.scope.lookup n ∧
      f.scope.declarationOf n = x.frame.scope.declarationOf n
  reached : ∀ i slot n var, i < m → e.slots[i]? = some slot → slot.name = .named n →
    slot.var = some var →
    f.scope.variableOf var = some (.cell (x.slotValue i) (slotInfo params site i slot n))
  unreached : ∀ var, (∀ i slot n, i < m → e.slots[i]? = some slot → slot.name = .named n →
    slot.var ≠ some var) → f.scope.variableOf var = x.frame.scope.variableOf var
  receiver : ∀ i slot, i < m → e.slots[i]? = some slot → slot.name = .receiver →
    f.receiver = some (.boxed (x.slotValue i) (x.frame.receiverClass.elim slot.info .instanceOf))
  alone : (∀ i slot, i < m → e.slots[i]? = some slot → slot.name ≠ .receiver) →
    f.receiver = x.frame.receiver

variable {e : Environment} {p : Program} {site : Site} {params : List Info}
  {i j m : Nat} {slot slot' : EnvSlot} {n n' : Name} {x : Stage} {f : Frame}

/-! ### Slots are told apart -/

theorem Slotted.index_of_key (h : e.Slotted) (here : e.slots[i]? = some slot)
    (here' : e.slots[j]? = some slot') (same : slot.key = slot'.key) : i = j := by
  have inside : i < (e.slots.map EnvSlot.key).length := by
    simpa using (List.getElem?_eq_some_iff.mp here).1
  exact (List.getElem?_inj inside h.keys).mp (by simp [here, here', same])

/-- There is one slot for the object. -/
theorem Slotted.index_of_receiver (h : e.Slotted) (here : e.slots[i]? = some slot)
    (here' : e.slots[j]? = some slot') (isName : slot.name = .receiver)
    (isName' : slot'.name = .receiver) : i = j := by
  refine h.index_of_key here here' ?_
  simp [EnvSlot.key, isName, isName', h.nameless slot (List.mem_of_getElem? here) isName,
    h.nameless slot' (List.mem_of_getElem? here') isName']

/-- A variable has one slot. -/
theorem Lexical.index_of_var (h : e.Lexical p) {var : DeclId} (here : e.slots[i]? = some slot)
    (here' : e.slots[j]? = some slot') (isName : slot.name = .named n)
    (isName' : slot'.name = .named n')
    (isVar : slot.var = some var) (isVar' : slot'.var = some var) : i = j := by
  obtain ⟨_, decl, isVar₁, known, rfl⟩ := h.declared slot (List.mem_of_getElem? here) n isName
  obtain ⟨_, decl', isVar₂, known', rfl⟩ := h.declared slot' (List.mem_of_getElem? here') n' isName'
  cases isVar.symm.trans isVar₁
  cases isVar'.symm.trans isVar₂
  cases known.symm.trans known'
  exact h.index_of_key here here' (by simp [EnvSlot.key, isName, isName', isVar, isVar'])

theorem Lexical.index_of_param (h : e.Lexical p) (here : e.slots[i]? = some slot)
    (here' : e.slots[j]? = some slot') (isParam : slot.origin = .param)
    (isParam' : slot'.origin = .param) (same : slot.name = slot'.name) : i = j := by
  have before := (h.parametersFirst _ _ here).mp isParam
  have before' := (h.parametersFirst _ _ here').mp isParam'
  have at_ (k : Nat) (slot : EnvSlot) (here : e.slots[k]? = some slot) (before : k < e.paramCount) :
      ((e.slots.take e.paramCount).map (·.name))[k]? = some slot.name := by
    simp [before, here]
  have first := at_ i slot here before
  have second := at_ j slot' here' before'
  rw [same] at first
  obtain ⟨inside, first⟩ := List.getElem?_eq_some_iff.mp first
  obtain ⟨inside', second⟩ := List.getElem?_eq_some_iff.mp second
  exact h.parameters.getElem_inj_iff.mp (first.trans second.symm)

/-- A captured variable is bound to its name where no parameter has the name and the site means
it. -/
theorem Lexical.sees_iff (h : e.Lexical p) (inside : slot ∈ e.slots) (isName : slot.name = .named n)
    (notParam : slot.origin ≠ .param) : e.Sees site slot n ↔
      (∀ other ∈ e.slots, other.origin = .param → other.name ≠ .named n) ∧
        site.scope.declarationOf n = slot.var := by
  obtain ⟨var, _, isVar, _⟩ := h.declared slot inside n isName
  simp [Sees, notParam, Emit.isVisible, isName, isVar]

/-- A name is bound to one slot. -/
theorem Lexical.index_of_seen (h : e.Lexical p) (here : e.slots[i]? = some slot)
    (here' : e.slots[j]? = some slot') (isName : slot.name = .named n)
    (isName' : slot'.name = .named n)
    (seen : e.Sees site slot n) (seen' : e.Sees site slot' n) : i = j := by
  have inside := List.mem_of_getElem? here
  have inside' := List.mem_of_getElem? here'
  by_cases isParam : slot.origin = .param
  · by_cases isParam' : slot'.origin = .param
    · exact h.index_of_param here here' isParam isParam' (isName.trans isName'.symm)
    · exact absurd isName (((h.sees_iff inside' isName' isParam').mp seen').1 slot inside isParam)
  · by_cases isParam' : slot'.origin = .param
    · exact absurd isName' (((h.sees_iff inside isName isParam).mp seen).1 slot' inside' isParam')
    · have isVar := ((h.sees_iff inside isName isParam).mp seen).2
      have isVar' := ((h.sees_iff inside' isName' isParam').mp seen').2
      exact h.index_of_key here here' (by simp [EnvSlot.key, isName, isName', ← isVar, ← isVar'])

/-! ### Slot after slot -/

theorem BindsTo.start (scope : f.scope = x.frame.scope) (receiver : f.receiver = x.frame.receiver) :
    e.BindsTo params site x 0 f := by
  constructor <;> simp [scope, receiver]

/-- A variable is bound, to its name too if the name is seen. -/
theorem BindsTo.variable (lexical : e.Lexical p) (h : e.BindsTo params site x m f)
    (here : e.slots[m]? = some slot) (isName : slot.name = .named n) {var : DeclId}
    (isVar : slot.var = some var) {f' : Frame} (receiver : f'.receiver = f.receiver)
    (lookup : ∀ n', f'.scope.lookup n' = if e.Sees site slot n ∧ n = n' then
      some (.cell (x.slotValue m) (slotInfo params site m slot n)) else f.scope.lookup n')
    (declared : ∀ n', f'.scope.declarationOf n' = if e.Sees site slot n ∧ n = n' then
      some var else f.scope.declarationOf n')
    (variableOf : ∀ var', f'.scope.variableOf var' = if var = var' then
      some (.cell (x.slotValue m) (slotInfo params site m slot n)) else f.scope.variableOf var') :
    e.BindsTo params site x (m + 1) f' := by
  constructor
  case seen =>
    intro i slot' n' le here' isName' seen'
    rcases Nat.lt_succ_iff_lt_or_eq.mp le with lt | rfl
    · rw [lookup, declared, if_neg, if_neg]
      · exact h.seen i slot' n' lt here' isName' seen'
      all_goals
        rintro ⟨seen, rfl⟩
        have := lexical.index_of_seen here here' isName isName' seen seen'
        omega
    · cases here.symm.trans here'
      cases isName.symm.trans isName'
      rw [lookup, declared, if_pos ⟨seen', rfl⟩, if_pos ⟨seen', rfl⟩, isVar]
      exact ⟨rfl, rfl⟩
  case unseen =>
    intro n' notSeen
    rw [lookup, declared, if_neg, if_neg]
    · exact h.unseen n' fun i slot' lt => notSeen i slot' (by omega)
    all_goals
      rintro ⟨seen, rfl⟩
      exact notSeen m slot (by omega) here isName seen
  case reached =>
    intro i slot' n' var' le here' isName' isVar'
    rw [variableOf]
    rcases Nat.lt_succ_iff_lt_or_eq.mp le with lt | rfl
    · rw [if_neg]
      · exact h.reached i slot' n' var' lt here' isName' isVar'
      · rintro rfl
        have := lexical.index_of_var here here' isName isName' isVar isVar'
        omega
    · cases here.symm.trans here'
      cases isName.symm.trans isName'
      rw [if_pos (Option.some.inj (isVar.symm.trans isVar'))]
  case unreached =>
    intro var' notHeld
    rw [variableOf, if_neg]
    · exact h.unreached var' fun i slot' n' lt => notHeld i slot' n' (by omega)
    · rintro rfl
      exact notHeld m slot n (by omega) here isName isVar
  case receiver =>
    intro i slot' le here' isName'
    rw [receiver]
    rcases Nat.lt_succ_iff_lt_or_eq.mp le with lt | rfl
    · exact h.receiver i slot' lt here' isName'
    · cases here.symm.trans here'
      rw [isName] at isName'
      cases isName'
  case alone =>
    intro none
    rw [receiver]
    exact h.alone fun i slot' lt => none i slot' (by omega)

/-- The object is bound. -/
theorem BindsTo.object (lexical : e.Lexical p) (h : e.BindsTo params site x m f)
    (here : e.slots[m]? = some slot) (isName : slot.name = .receiver) {f' : Frame}
    (scope : f'.scope = f.scope) (receiver : f'.receiver =
      some (.boxed (x.slotValue m) (x.frame.receiverClass.elim slot.info .instanceOf))) :
    e.BindsTo params site x (m + 1) f' := by
  -- a slot with a name is one of those before
  have before {i : Nat} {slot' : EnvSlot} {n : Name} (le : i < m + 1)
    (here' : e.slots[i]? = some slot')
      (isName' : slot'.name = .named n) : i < m := by
    rcases Nat.lt_succ_iff_lt_or_eq.mp le with lt | rfl
    · exact lt
    · cases here.symm.trans here'
      rw [isName] at isName'
      cases isName'
  constructor
  case seen =>
    rw [scope]
    exact fun i slot' n le here' isName' => h.seen i slot' n (before le here' isName') here' isName'
  case unseen =>
    rw [scope]
    exact fun n notSeen => h.unseen n fun i slot' lt => notSeen i slot' (by omega)
  case reached =>
    rw [scope]
    exact fun i slot' n var le here' isName' =>
      h.reached i slot' n var (before le here' isName') here' isName'
  case unreached =>
    rw [scope]
    exact fun var notHeld => h.unreached var fun i slot' n lt => notHeld i slot' n (by omega)
  case receiver =>
    intro i slot' le here' isName'
    obtain rfl := lexical.index_of_receiver here here' isName isName'
    cases here.symm.trans here'
    exact receiver
  case alone =>
    intro none
    exact absurd isName (none m slot (by omega) here)

end Environment

/-! ## The prologue -/

/-- A body at its beginning. In scope is what the site shows to other bodies and what is at the top,
where no variable is in a cell (`Work.Sound.names`); the body is given its environment, which is in
the allocation `j`. -/
structure Stage.Entered (x : Stage) (e : Environment) (site : Site) (j : Nat) (items : List Value) :
    Prop where
  scope : x.frame.scope = site.scope.declarationView.onTopOf x.work.moduleScope
  receiver : x.frame.receiver = none
  top : ∀ n ptr info, x.work.moduleScope.lookup n ≠ some (.cell ptr info)
  given : x.Knows (Draft.param 0) (address j)
  cell : x.memory.heap[j]? = some (.agg items)
  written : ∀ v ∈ items, v ≠ .undef
  length : items.length = e.slots.length

/-- The first `m` slots are loaded and bound. -/
structure Environment.PreparedTo (e : Environment) (s : Setup) (params : List Info) (site : Site)
    (x : Stage) (env : EnvId) (items : List Value) (m : Nat) (y : Stage) : Prop where
  prepares : x.Prepares s y
  work : y.work = x.work
  memory : y.memory = x.memory
  size : y.size = x.size + 2 * m
  loaded : ∀ i v, i < m → items[i]? = some v → y.Knows (x.slotValue i) v
  receiverClass : y.frame.receiverClass = x.frame.receiverClass
  env : y.frame.env = some ⟨env, Draft.param 0⟩
  binds : e.BindsTo params site x m y.frame

namespace Environment

variable {e : Environment} {s : Setup} {site : Site} {params : List Info} {x y y₁ : Stage}
  {env : EnvId} {j m : Nat} {items : List Value} {slot : EnvSlot} {v : Value}

/-- Another slot is loaded, and bound in whatever way is right. -/
theorem PreparedTo.next (h : e.PreparedTo s params site x env items m y) (goes : y.Goes s y₁)
    (size : y₁.size = y.size + 2) (item : items[m]? = some v) (known : y₁.Knows (x.slotValue m) v)
    (memory : y₁.memory = y.memory) (work : y₁.work = y.work) {f : Frame}
    (same : f.draft = y₁.frame.draft) (receiverClass : f.receiverClass = y₁.frame.receiverClass)
    (isEnv : f.env = y₁.frame.env) (binds : e.BindsTo params site x (m + 1) f) :
    e.PreparedTo s params site x env items (m + 1) (y₁.reframed f same) where
  prepares := (h.prepares.trans goes.prepares).trans (y₁.prepares_reframed f same)
  work := work.trans h.work
  memory := memory.trans h.memory
  size := by
    change (y₁.reframed f same).point.size = _
    rw [Stage.point_reframed]
    have := h.size
    change y₁.size = _
    omega
  loaded i u le item' := by
    rw [Stage.Knows, Stage.point_reframed]
    rcases Nat.lt_succ_iff_lt_or_eq.mp le with lt | rfl
    · exact goes.knows (h.loaded i u lt item')
    · cases item.symm.trans item'
      exact known
  receiverClass := by
    change f.receiverClass = _
    rw [receiverClass, goes.frame]
    exact h.receiverClass
  env := by
    change f.env = _
    rw [isEnv, goes.frame]
    exact h.env
  binds := binds

end Environment

namespace Emit

variable {e : Environment} {s : Setup} {site : Site} {params : List Info} {x y : Stage}
  {env : EnvId} {j m : Nat} {items : List Value} {slot : EnvSlot}

/-- One slot is bound. -/
theorem bindSlot_prepares (lexical : e.Lexical s.program) (entered : x.Entered e site j items)
    (h : e.PreparedTo s params site x env items m y) (here : e.slots[m]? = some slot) :
    Prepares s y (bindSlot e params site slot m) fun _ =>
      e.PreparedTo s params site x env items (m + 1) := by
  have inside := (List.getElem?_eq_some_iff.mp here).1
  obtain ⟨v, item⟩ : ∃ v, items[m]? = some v :=
    ⟨_, List.getElem?_eq_getElem (by have := entered.length; omega)⟩
  have load (name : String) := (loadField_next e.record name (h.prepares.knows entered.given).value
    (h.memory ▸ entered.cell) item (entered.written v (List.mem_of_getElem? item))
      (s := s)).prepares
  have isValue : (⟨y.size + 1⟩ : ValueId) = x.slotValue m := by
    rw [h.size]
    rfl
  unfold bindSlot
  cases isName : slot.name with
  | receiver =>
    refine .bind (load "this") ?_
    rintro _ y₁ - ⟨goes, rfl, size, known, memory, work⟩
    rw [isValue] at known ⊢
    refine .bind (Q := fun f y' => f = y₁.frame ∧ y₁ = y') ⟨_, y₁, rfl, .refl y₁, rfl, rfl⟩ ?_
    rintro _ _ - ⟨rfl, rfl⟩
    refine .modify rfl (h.next goes size item known memory work _ rfl rfl ?_)
    refine h.binds.object lexical here isName ?_ ?_
    · change y₁.frame.scope = _
      rw [goes.frame]
    · change some (Operand.boxed (x.slotValue m)
        (y₁.frame.receiverClass.elim slot.info .instanceOf)) = _
      rw [goes.frame, ← h.receiverClass]
  | named n =>
    have isText : Compile.text n s y.work = .ok (s.program.text n) y.work := rfl
    refine .read isText (.bind (load _) ?_)
    rintro _ y₁ - ⟨goes, rfl, size, known, memory, work⟩
    rw [isValue] at known ⊢
    have bindCell (visible : Bool) (info : Info) (isVisible : visible = decide (e.Sees site slot n))
        (isInfo : info = Environment.slotInfo params site m slot n) :
        Prepares s y₁ (bindCell n slot.var visible (x.slotValue m) info) fun _ =>
          e.PreparedTo s params site x env items (m + 1) := by
      obtain ⟨var, _, isVar, _⟩ := lexical.declared slot (List.mem_of_getElem? here) n isName
      subst isVisible isInfo
      have sameScope : y₁.frame.scope = y.frame.scope := by rw [goes.frame]
      have sameReceiver : y₁.frame.receiver = y.frame.receiver := by rw [goes.frame]
      rw [isVar]
      by_cases seen : e.Sees site slot n
      · rw [decide_eq_true seen]
        refine .modify rfl (h.next goes size item known memory work _ rfl rfl
          (h.binds.variable lexical here isName isVar sameReceiver ?_ ?_ ?_))
        · intro n'
          simp only [seen, true_and, ← sameScope]
          exact Table.get?_insert _ _ _ _
        · intro n'
          simp only [seen, true_and, ← sameScope]
          exact Table.get?_insert _ _ _ _
        · intro var'
          rw [← sameScope]
          exact Table.get?_insert _ _ _ _
      · rw [decide_eq_false seen]
        refine .modify rfl (h.next goes size item known memory work _ rfl rfl
          (h.binds.variable lexical here isName isVar sameReceiver ?_ ?_ ?_))
        · intro n'
          simp only [seen, false_and, if_false, ← sameScope]
          rfl
        · intro n'
          simp only [seen, false_and, if_false, ← sameScope]
          rfl
        · intro var'
          rw [← sameScope]
          exact Table.get?_insert _ _ _ _
    cases isOrigin : slot.origin with
    | param =>
      exact bindCell _ _ (by simp [Environment.Sees, isOrigin])
        (by simp [Environment.slotInfo, isOrigin])
    | capture =>
      exact bindCell _ _ (by simp [Environment.Sees, isOrigin])
        (by simp [Environment.slotInfo, isOrigin])
    | outer =>
      exact bindCell _ _ (by simp [Environment.Sees, isOrigin])
        (by simp [Environment.slotInfo, isOrigin])
    | receiver =>
      have := lexical.receiver slot (List.mem_of_getElem? here) isOrigin
      rw [isName] at this
      cases this

/-- All slots are loaded and bound. -/
theorem prologue_prepares (known : x.work.registry.env? env = some e)
    (lexical : e.Lexical s.program) (entered : x.Entered e site j items) :
    Prepares s x (prologue env params site) fun _ =>
      e.PreparedTo s params site x env items e.slots.length := by
  have isEnv : Compile.env env s x.work = .ok e x.work := by rw [Compile.env_apply, known]
  refine .read isEnv (.bind (Q := fun _ => e.PreparedTo s params site x env items 0)
    (.modify rfl ?_) fun _ y prepares start => ?_)
  · have same := x.point_reframed { x.frame with env := some ⟨env, Draft.param 0⟩ } rfl
    exact ⟨x.prepares_reframed _ _, rfl, rfl, congrArg Point.size same, by simp, rfl, rfl,
      .start rfl rfl⟩
  · refine (Prepares.forM (fun done => e.PreparedTo s params site x env items done.length) _ start
      ?_).mono fun _ _ _ h => by simpa using h
    rintro before ⟨slot, i⟩ after parts z _ h
    obtain ⟨here, rfl⟩ := of_zipIdx_append parts
    rw [List.length_append]
    exact bindSlot_prepares lexical entered h here

end Emit

/-! ## What is in scope -/

namespace Environment

/-- What a body that began in `x` has in scope at its first statement. -/
structure BoundIn (e : Environment) (params : List Info) (site : Site) (x : Stage) (f : Frame) :
    Prop where
  parameter : ∀ i slot n, e.slots[i]? = some slot → slot.name = .named n → slot.origin = .param →
    f.scope.lookup n = some (.cell (x.slotValue i) (params[i]?.getD slot.info)) ∧
      f.scope.declarationOf n = slot.var
  captured : ∀ i slot n, e.slots[i]? = some slot → slot.name = .named n →
    slot.origin = .capture ∨ slot.origin = .outer →
    (∀ other ∈ e.slots, other.origin = .param → other.name ≠ .named n) →
    ((∃ info, f.scope.lookup n = some (.cell (x.slotValue i) info)) ↔
      site.scope.declarationOf n = slot.var)
  /-- At most one slot of a name is visible. -/
  visible : ∀ (i j : Nat) (slot slot' : EnvSlot) (n : Name), e.slots[i]? = some slot →
    e.slots[j]? = some slot' → slot.name = .named n → slot'.name = .named n →
    site.scope.declarationOf n = slot.var → site.scope.declarationOf n = slot'.var → i = j
  reachable : ∀ i slot n var, e.slots[i]? = some slot → slot.name = .named n → slot.var = some var →
    f.scope.variableOf var = some (.cell (x.slotValue i) (slotInfo params site i slot n))
  receiver : ∀ i slot, e.slots[i]? = some slot → slot.name = .receiver →
    f.receiver = some (.boxed (x.slotValue i) (x.frame.receiverClass.elim slot.info .instanceOf))

/-- The slots of two environments are the same but for the order of those that are no parameters. -/
structure Reordered (e e' : Environment) : Prop where
  perm : e.slots.Perm e'.slots
  count : e'.paramCount = e.paramCount
  parameters : e.slots.take e.paramCount = e'.slots.take e.paramCount

/-- In two bodies, the same slot of the environments is bound, or the same thing other than a
slot. -/
def BindAlike (e e' : Environment) (x x' : Stage) (b b' : Option Binding) : Prop :=
  b = b' ∨ ∃ i i' slot info, e.slots[i]? = some slot ∧ e'.slots[i']? = some slot ∧
    b = some (.cell (x.slotValue i) info) ∧ b' = some (.cell (x'.slotValue i') info)

/-- Two bodies have the same in scope, whichever values hold it. -/
structure MeanAlike (e e' : Environment) (x x' : Stage) (f f' : Frame) : Prop where
  names : ∀ n, e.BindAlike e' x x' (f.scope.lookup n) (f'.scope.lookup n)
  declared : ∀ n, f.scope.declarationOf n = f'.scope.declarationOf n
  reached : ∀ var, e.BindAlike e' x x' (f.scope.variableOf var) (f'.scope.variableOf var)
  receiver : f.receiver = f'.receiver ∨ ∃ i i' slot info, e.slots[i]? = some slot ∧
    e'.slots[i']? = some slot ∧ f.receiver = some (.boxed (x.slotValue i) info) ∧
    f'.receiver = some (.boxed (x'.slotValue i') info)

variable {e e' : Environment} {p : Program} {site : Site}
  {params : List Info} {x x' : Stage} {f f' : Frame} {j j' : Nat} {items items' : List Value}

theorem slotValue_inj {i i' : Nat} (same : x.slotValue i = x.slotValue i') : i = i' := by
  simp only [Stage.slotValue, ValueId.mk.injEq] at same
  omega

/-- All slots are bound as the site means them. -/
theorem BindsTo.boundIn (lexical : e.Lexical p) (entered : x.Entered e site j items)
    (h : e.BindsTo params site x e.slots.length f) : e.BoundIn params site x f := by
  have inside {i : Nat} {slot : EnvSlot} (here : e.slots[i]? = some slot) : i < e.slots.length :=
    (List.getElem?_eq_some_iff.mp here).1
  constructor
  case parameter =>
    intro i slot n here isName isParam
    have bound := h.seen i slot n (inside here) here isName (.inl isParam)
    rwa [slotInfo, if_pos isParam] at bound
  case captured =>
    intro i slot n here isName isCaptured noParam
    have notParam : slot.origin ≠ .param := by
      rcases isCaptured with same | same <;> simp [same]
    have sees : e.Sees site slot n ↔ _ :=
      lexical.sees_iff (List.mem_of_getElem? here) isName notParam
    refine ⟨fun ⟨info, bound⟩ => ?_, fun declared => ?_⟩
    · refine (sees.mp ?_).2
      by_contra hidden
      by_cases other : ∃ i' slot', i' < e.slots.length ∧ e.slots[i']? = some slot' ∧
          slot'.name = .named n ∧ e.Sees site slot' n
      · obtain ⟨i', slot', lt, here', isName', seen⟩ := other
        have bound' := (h.seen i' slot' n lt here' isName' seen).1
        rw [bound, Option.some.injEq, Binding.cell.injEq] at bound'
        obtain rfl := slotValue_inj bound'.1
        cases here.symm.trans here'
        exact hidden seen
      · have base := (h.unseen n fun i' slot' lt here' isName' seen =>
          other ⟨i', slot', lt, here', isName', seen⟩).1
        rw [bound, entered.scope] at base
        exact entered.top n _ _ (lookup_declarationView base.symm)
    · exact ⟨_, (h.seen i slot n (inside here) here isName (sees.mpr ⟨noParam, declared⟩)).1⟩
  case visible =>
    intro i j slot slot' n here here' isName isName' declared declared'
    refine lexical.index_of_key here here' ?_
    simp [EnvSlot.key, isName, isName', ← declared, ← declared']
  case reachable => exact fun i slot n var here => h.reached i slot n var (inside here) here
  case receiver => exact fun i slot here => h.receiver i slot (inside here) here

/-! ### The order of the slots -/

theorem Reordered.mem_iff (h : Reordered e e') {slot : EnvSlot} :
    slot ∈ e.slots ↔ slot ∈ e'.slots := h.perm.mem_iff

theorem Reordered.sees_iff (h : Reordered e e') {slot : EnvSlot} {n : Name} :
    e.Sees site slot n ↔ e'.Sees site slot n := by
  simp only [Sees, Emit.isVisible, h.perm.any_eq]

theorem Reordered.parameter_iff (h : Reordered e e') {i : Nat} (before : i < e.paramCount)
    {slot : EnvSlot} : e.slots[i]? = some slot ↔ e'.slots[i]? = some slot := by
  rw [← List.getElem?_take_of_lt before, h.parameters, List.getElem?_take_of_lt before]

/-- The parameters are first, and each name tells its variable, in the other order too. -/
theorem Reordered.lexical (h : Reordered e e') (lexical : e.Lexical p) : e'.Lexical p where
  parametersFirst i slot here := by
    rw [h.count]
    refine ⟨fun isParam => ?_, fun before => ?_⟩
    · by_contra after
      have others : (e.slots.drop e.paramCount).Perm (e'.slots.drop e.paramCount) := by
        have perm : (e.slots.take e.paramCount ++ e.slots.drop e.paramCount).Perm
            (e'.slots.take e.paramCount ++ e'.slots.drop e.paramCount) := by
          simpa only [List.take_append_drop] using h.perm
        rw [h.parameters] at perm
        exact (List.perm_append_left_iff _).mp perm
      have later : slot ∈ e'.slots.drop e.paramCount := by
        refine List.mem_of_getElem? (i := i - e.paramCount) ?_
        rw [List.getElem?_drop, Nat.add_sub_cancel' (by omega), here]
      obtain ⟨k, here'⟩ := List.mem_iff_getElem?.mp (others.mem_iff.mpr later)
      rw [List.getElem?_drop] at here'
      have := (lexical.parametersFirst _ _ here').mp isParam
      omega
    · exact (lexical.parametersFirst _ _ ((h.parameter_iff before).mpr here)).mpr before
  keys := (h.perm.map _).nodup_iff.mp lexical.keys
  receiver slot inside := lexical.receiver slot (h.mem_iff.mpr inside)
  nameless slot inside := lexical.nameless slot (h.mem_iff.mpr inside)
  declared slot inside := lexical.declared slot (h.mem_iff.mpr inside)
  parameters := by
    rw [h.count, ← h.parameters]
    exact lexical.parameters

/-- A slot of the one environment is a slot of the other, and a body takes it to hold the same. -/
theorem Reordered.counterpart (h : Reordered e e') (slotted : e.Slotted) {i : Nat} {slot : EnvSlot}
    (here : e.slots[i]? = some slot) : ∃ i', e'.slots[i']? = some slot ∧
      ∀ (params : List Info) (site : Site) (n : Name),
        slotInfo params site i' slot n = slotInfo params site i slot n := by
  by_cases isParam : slot.origin = .param
  · have before := (slotted.parametersFirst _ _ here).mp isParam
    exact ⟨i, (h.parameter_iff before).mp here, fun _ _ _ => rfl⟩
  · obtain ⟨i', here'⟩ := List.mem_iff_getElem?.mp (h.mem_iff.mp (List.mem_of_getElem? here))
    exact ⟨i', here', fun params site n => by simp [slotInfo, isParam]⟩

/-- What is bound does not depend on the order of the slots. -/
theorem BindsTo.meanAlike (h : e.BindsTo params site x e.slots.length f)
    (h' : e'.BindsTo params site x' e'.slots.length f') (slotted : e.Slotted)
    (same : Reordered e e') (scope : x.frame.scope = x'.frame.scope)
    (receiver : x.frame.receiver = x'.frame.receiver)
    (receiverClass : x.frame.receiverClass = x'.frame.receiverClass) :
    e.MeanAlike e' x x' f f' := by
  have inside {e : Environment} {i : Nat} {slot : EnvSlot} (here : e.slots[i]? = some slot) :
      i < e.slots.length := (List.getElem?_eq_some_iff.mp here).1
  have back {i : Nat} {slot : EnvSlot} (here : e'.slots[i]? = some slot) :
      ∃ i', e.slots[i']? = some slot :=
    List.mem_iff_getElem?.mp (same.mem_iff.mpr (List.mem_of_getElem? here))
  -- a name is bound to the same slot in both bodies, or to no slot in either
  have meaning (n : Name) : e.BindAlike e' x x' (f.scope.lookup n) (f'.scope.lookup n) ∧
      f.scope.declarationOf n = f'.scope.declarationOf n := by
    by_cases held : ∃ (i : Nat) (slot : EnvSlot), e.slots[i]? = some slot ∧ slot.name = .named n ∧
        e.Sees site slot n
    · obtain ⟨i, slot, here, isName, seen⟩ := held
      obtain ⟨i', here', sameInfo⟩ := same.counterpart slotted here
      have bound := h.seen i slot n (inside here) here isName seen
      have bound' := h'.seen i' slot n (inside here') here' isName (same.sees_iff.mp seen)
      rw [sameInfo] at bound'
      exact ⟨.inr ⟨i, i', slot, _, here, here', bound.1, bound'.1⟩, bound.2.trans bound'.2.symm⟩
    · have base := h.unseen n fun i slot _ here isName seen => held ⟨i, slot, here, isName, seen⟩
      have base' := h'.unseen n fun i slot _ here isName seen =>
        have ⟨i', here'⟩ := back here
        held ⟨i', slot, here', isName, same.sees_iff.mpr seen⟩
      rw [base.1, base'.1, base.2, base'.2, scope]
      exact ⟨.inl rfl, rfl⟩
  constructor
  case names => exact fun n => (meaning n).1
  case declared => exact fun n => (meaning n).2
  case reached =>
    intro var
    by_cases held : ∃ (i : Nat) (slot : EnvSlot) (n : Name), e.slots[i]? = some slot ∧
        slot.name = .named n ∧ slot.var = some var
    · obtain ⟨i, slot, n, here, isName, isVar⟩ := held
      obtain ⟨i', here', sameInfo⟩ := same.counterpart slotted here
      have bound' := h'.reached i' slot n var (inside here') here' isName isVar
      rw [sameInfo] at bound'
      exact .inr ⟨i, i', slot, _, here, here',
        h.reached i slot n var (inside here) here isName isVar,
        bound'⟩
    · refine .inl ?_
      rw [h.unreached var fun i slot n _ here isName isVar =>
        held ⟨i, slot, n, here, isName, isVar⟩,
        h'.unreached var fun i slot n _ here isName isVar =>
          have ⟨i', here'⟩ := back here
          held ⟨i', slot, n, here', isName, isVar⟩, scope]
  case receiver =>
    by_cases held : ∃ (i : Nat) (slot : EnvSlot), e.slots[i]? = some slot ∧ slot.name = .receiver
    · obtain ⟨i, slot, here, isName⟩ := held
      obtain ⟨i', here', _⟩ := same.counterpart slotted here
      refine .inr ⟨i, i', slot, _, here, here', h.receiver i slot (inside here) here isName, ?_⟩
      rw [receiverClass]
      exact h'.receiver i' slot (inside here') here' isName
    · refine .inl ?_
      rw [h.alone fun i slot _ here isName => held ⟨i, slot, here, isName⟩,
        h'.alone fun i slot _ here isName =>
          have ⟨i', here'⟩ := back here
          held ⟨i', slot, here', isName⟩, receiver]

end Environment

/-! ## The beginning of a body -/

/-- The prologue of a body binds its parameters to their names, each other name in the environment
to the variable that the site means by it, and to no slot if the site means none of them, each
variable of the environment to its slot, and the object. In a body that has the same slots in
another order, where parameters are first as ever, the same is in scope. -/
theorem prologue_binds (p : Program) (r : Resolver) (c : Config) {e : Environment}
    {params : List Info}
    {site : Site} {x : Stage} {env : EnvId} {j : Nat} {items : List Value}
    (known : x.work.registry.env? env = some e) (lexical : e.Lexical p)
    (entered : x.Entered e site j items) :
    Emit.Prepares (.of p r c) x (Emit.prologue env params site) fun _ y =>
      y.work = x.work ∧ y.memory = x.memory ∧ y.frame.env = some ⟨env, Draft.param 0⟩ ∧
      (∀ i v, items[i]? = some v → y.Knows (x.slotValue i) v) ∧ e.BoundIn params site x y.frame ∧
      ∀ (e' : Environment) (x' : Stage) (env' : EnvId) (j' : Nat) (items' : List Value),
        e.Reordered e' → x'.work.registry.env? env' = some e' → x'.Entered e' site j' items' →
        x'.work.moduleScope = x.work.moduleScope → x'.frame.receiverClass = x.frame.receiverClass →
        Emit.Prepares (.of p r c) x' (Emit.prologue env' params site) fun _ y' =>
          e.MeanAlike e' x x' y.frame y'.frame := by
  have lexical : e.Lexical (Setup.of p r c).program := lexical
  refine (Emit.prologue_prepares known lexical entered).mono fun _ y _ prepared => ?_
  refine ⟨prepared.work, prepared.memory, prepared.env, fun i v item => ?_,
    prepared.binds.boundIn lexical entered, ?_⟩
  · have inside := (List.getElem?_eq_some_iff.mp item).1
    exact prepared.loaded i v (entered.length ▸ inside) item
  · intro e' x' env' j' items' reordered known' entered' sameTop sameClass
    refine (Emit.prologue_prepares known' (reordered.lexical lexical) entered').mono
      fun _ y' _ prepared' => ?_
    have sameScope : x.frame.scope = x'.frame.scope := by
      rw [entered.scope, entered'.scope, sameTop]
    exact prepared.binds.meanAlike prepared'.binds lexical.toSlotted reordered sameScope
      (entered.receiver.trans entered'.receiver.symm) sameClass.symm

/-- A variable of a function, and a parameter of the same name of a function inside. The innermost
function reads the parameter, and calls a function that reads the variable. -/
@[irreducible] def twoOfOneName : Program := (Id.run <| StateT.run (do
  let call (f : String) := do Construction.stmt (.expr (← Construction.expr
    (.call (← Construction.ident f) [← Construction.expr (.number 1)] none)))
  let (x, _) ← Construction.bind "x" none (some (← Construction.expr (.number 1)))
  let read ← Construction.function "read" [] [] none
    [← Construction.stmt (.ret (some (← Construction.ident "x")))]
  let x' ← Construction.param "x" .number
  let y ← Construction.param "y" .number
  let inner ← Construction.function "inner" [] [y] none
    [← call "read", ← Construction.stmt (.ret (some (← Construction.ident "x")))]
  let middle ← Construction.function "middle" [] [x'] none [← Construction.stmt (.function inner),
    ← call "inner"]
  let outer ← Construction.function "outer" [] [] none [x, ← Construction.stmt (.function read),
    ← Construction.stmt (.function middle), ← call "middle"]
  Construction.pushEntry (← Construction.stmt (.function outer))
  Construction.pushEntry (← call "outer") : Building Unit) {}).2.program

/-- The state once the program is compiled. -/
def twoOfOneNameWork : Work :=
  Compile.endOf (Compile.entry (.ofDepth 20)) (.of twoOfOneName .ambient {}) .start

/-- A body at its beginning, with an environment of three slots. -/
def enteredBody (w : Work) (site : Site) : Stage where
  work := w
  frame := { givenObject with scope := site.scope.declarationView.onTopOf w.moduleScope }
  values := fun _ => address 0
  memory := { heap := #[.agg [address 1, address 2, address 3]] }
  place := ⟨0⟩
  isOpen := ⟨rfl, _, rfl, rfl⟩

/-- The innermost function has the variable in its second slot and the parameter around in its
third: the name means the latter, and both can be reached. So it is with the two slots exchanged. -/
theorem prologue_binds_twoOfOneName : ∃ (e e' : Environment) (site : Site) (others : Work),
    twoOfOneNameWork.registry.env? ⟨2⟩ = some e ∧ others.registry.env? ⟨0⟩ = some e' ∧
    e.slots.map (·.var) = [some ⟨3⟩, some ⟨0⟩, some ⟨2⟩] ∧
    e'.slots.map (·.var) = [some ⟨3⟩, some ⟨2⟩, some ⟨0⟩] ∧
    Emit.Prepares (.of twoOfOneName .ambient {}) (enteredBody twoOfOneNameWork site)
      (Emit.prologue ⟨2⟩ [.number] site) fun _ y =>
        y.frame.scope.lookup ⟨3⟩ = some (.cell ⟨2⟩ .number) ∧
        (∃ info, y.frame.scope.lookup ⟨1⟩ = some (.cell ⟨6⟩ info)) ∧ y.Knows ⟨6⟩ (address 3) ∧
        (∃ info, y.frame.scope.variableOf ⟨0⟩ = some (.cell ⟨4⟩ info)) ∧ y.Knows ⟨4⟩ (address 2) ∧
        Emit.Prepares (.of twoOfOneName .ambient {}) (enteredBody others site)
          (Emit.prologue ⟨0⟩ [.number] site) fun _ y' =>
            e.MeanAlike e' (enteredBody twoOfOneNameWork site) (enteredBody others site)
              y.frame y'.frame := by
  have isEnv : (twoOfOneNameWork.registry.env? ⟨2⟩).map (fun e => decide
      (e.owner = some ⟨4⟩ ∧ e.paramCount = 1 ∧
        e.slots = [⟨.named ⟨3⟩, .number, .param, some ⟨3⟩⟩,
          ⟨.named ⟨1⟩, .number, .capture, some ⟨0⟩⟩,
          ⟨.named ⟨1⟩, .number, .capture, some ⟨2⟩⟩])) = some true := by
    decide +kernel
  have isSite : (twoOfOneNameWork.sites.get? ⟨4⟩).map (fun site => decide
      (site.scope.declarationOf ⟨1⟩ = some ⟨2⟩)) = some true := by
    decide +kernel
  have isTop : twoOfOneNameWork.moduleScope.bindings.entries.map Prod.snd = [.function ⟨6⟩] := by
    decide +kernel
  obtain ⟨e, known, isForm⟩ := Option.map_eq_some_iff.mp isEnv
  obtain ⟨owned, isCount, isSlots⟩ := of_decide_eq_true isForm
  obtain ⟨site, isSite, isMeant⟩ := Option.map_eq_some_iff.mp isSite
  have meant := of_decide_eq_true isMeant
  let e' : Environment := { e with slots := [⟨.named ⟨3⟩, .number, .param, some ⟨3⟩⟩,
    ⟨.named ⟨1⟩, .number, .capture, some ⟨2⟩⟩, ⟨.named ⟨1⟩, .number, .capture, some ⟨0⟩⟩] }
  let others : Work := { twoOfOneNameWork with registry.envs := #[e'] }
  have declared : ∀ entry ∈ [(⟨3⟩, ⟨3⟩), (⟨1⟩, ⟨0⟩), ((⟨1⟩, ⟨2⟩) : Name × DeclId)],
      (twoOfOneName.decls[entry.2.raw]?).map (·.name) = some entry.1 := by
    decide +kernel
  have lexical : e.Lexical twoOfOneName := by
    refine ⟨(compile_moment 20 twoOfOneName .ambient {}).slotted (by decide +kernel) known owned,
      fun slot inside n isName => ?_, by simp [isSlots, isCount]⟩
    obtain ⟨var, isVar, listed⟩ : ∃ var, slot.var = some var ∧
        (n, var) ∈ [(⟨3⟩, ⟨3⟩), (⟨1⟩, ⟨0⟩), ((⟨1⟩, ⟨2⟩) : Name × DeclId)] := by
      simp only [isSlots, List.mem_cons, List.not_mem_nil, or_false] at inside
      obtain rfl | rfl | rfl := inside
      all_goals
        cases isName
        exact ⟨_, rfl, by simp⟩
    obtain ⟨decl, here, isDecl⟩ := Option.map_eq_some_iff.mp (declared _ listed)
    exact ⟨var, decl, isVar, by rw [Program.decl, here], isDecl⟩
  have top (n : Name) (ptr : ValueId) (info : Info) :
      twoOfOneNameWork.moduleScope.lookup n ≠ some (.cell ptr info) := fun bound => by
    have listed := Table.mem_of_get? bound
    rw [isTop] at listed
    simp at listed
  have entered (w : Work) (sameTop : w.moduleScope = twoOfOneNameWork.moduleScope)
    (e' : Environment)
      (length : e'.slots.length = 3) : (enteredBody w site).Entered e' site 0
        [address 1, address 2, address 3] :=
    ⟨rfl, rfl, sameTop ▸ top, ⟨Nat.zero_lt_one, rfl⟩, rfl, by simp [address], length.symm⟩
  refine ⟨e, e', site, others, known, rfl, by simp [isSlots], rfl, ?_⟩
  refine (prologue_binds twoOfOneName .ambient {} known lexical
    (entered _ rfl e (by simp [isSlots]))).mono ?_
  rintro _ y - ⟨-, -, -, loaded, bound, alike⟩
  have noParam : ∀ other ∈ e.slots, other.origin = .param → other.name ≠ .named ⟨1⟩ := by
    simp [isSlots]
  refine ⟨(bound.parameter 0 _ ⟨3⟩ (by rw [isSlots]; rfl) rfl rfl).1,
    (bound.captured 2 _ ⟨1⟩ (by rw [isSlots]; rfl) rfl (.inl rfl) noParam).mpr meant,
    loaded 2 _ rfl, ⟨_, bound.reachable 1 _ ⟨1⟩ ⟨0⟩ (by rw [isSlots]; rfl) rfl rfl⟩,
      loaded 1 _ rfl, ?_⟩
  refine alike e' (enteredBody others site) ⟨0⟩ 0 _ ⟨?_, rfl, ?_⟩ rfl
    (entered others rfl e' rfl) rfl rfl
  · rw [isSlots]
    exact .cons _ (.swap _ _ _)
  · rw [isSlots, isCount]
    rfl

end ShapeCompiler
