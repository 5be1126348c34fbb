import ShapeCompiler.Proofs.CaptureFilling
import ShapeCompiler.Proofs.Completion
import ShapeCompiler.Proofs.Initializers
import ShapeCompiler.Proofs.Prologues

/-!
# Constructors that are not written out

The constructor of a class that declares none calls that of the base, and then stores the start
values of the class.

* `Environment.HoldsObject`: its environment has a slot for the object, and the body loads it;
* `Work.Complete`: the compilation has come to its end, so that calls find the bodies;
* `Constructs`: what calls of such a constructor give an instance;
* `Constructs.next`: they give it the start values of the classes from the topmost one down.
-/

namespace ShapeCompiler

open Source Code Work Machine

/-! ## The environment of such a constructor -/

/-- An environment without parameters, with a slot for the object. -/
structure Environment.HoldsObject (e : Environment) : Prop extends e.Slotted where
  noParams : e.paramCount = 0
  hasObject : ∃ r slot, e.receiverSlot = some r ∧ e.slots[r]? = some slot ∧ slot.name = .receiver

theorem LaidOut.holdsObject {s : Setup} {w : Work} {e : Environment} {cls : DeclId} {c : ClassDecl}
    (h : LaidOut s w e) (owned : e.owner = some cls) (isClass : s.program.classDecl cls = .ok c)
    (noParams : s.program.forwardedParams cls = .ok []) :
    (e.slots.map EnvSlot.key).Nodup ∧ e.paramCount = 0 ∧ ∃ slot ∈ e.slots,
    slot.name = .receiver := by
  obtain @⟨owner, plan, site, survey, found, params, slots, remap, name, record, planned, free,
    gathered, formals, outer, merged, fields⟩ := h
  obtain rfl : owner = cls := Option.some.inj owned
  obtain ⟨none, isMember⟩ : plan.params = [] ∧ plan.memberOf = some owner := by
    cases planned with
    | function isFunction =>
      obtain ⟨d, isDecl, isClass⟩ := exists_of_bind_ok isClass
      obtain ⟨_, isDecl', isFunction⟩ := exists_of_bind_ok isFunction
      cases isDecl.symm.trans isDecl'
      cases kind : d.kind <;> simp [kind] at isClass isFunction
    | constructor forwarded =>
      cases forwarded.symm.trans noParams
      exact ⟨rfl, rfl⟩
  have own := ownSlots_nodup site (none ▸ List.nodup_nil) formals
    (planned.params_declared free) (survey.gather_apart gathered)
  refine ⟨by simpa [merged] using addOuter_nodup (site.around w.registry) own, by simp [none], ?_⟩
  obtain ⟨taken, -, taking⟩ := addOuter_taken (plan.ownSlots site params found)
    (site.around w.registry)
  rw [merged, Prod.mk.injEq] at taking
  refine ⟨⟨.receiver, (plan.receiverClass site).elim .any .instanceOf, .receiver, Option.none⟩, ?_,
    rfl⟩
  simp [taking.1, EnvPlan.ownSlots, EnvPlan.receiverSlots, isMember]

theorem Work.Moment.holdsObject {s : Setup} {w : Work} {e : Environment}
    {cls : DeclId} {c : ClassDecl}
    {id : EnvId} (h : Moment s w) (known : w.registry.env? id = some e) (owned : e.owner = some cls)
    (isClass : s.program.classDecl cls = .ok c)
    (noParams : s.program.forwardedParams cls = .ok []) :
    e.HoldsObject := by
  obtain ⟨keys, none, slot, inside, isReceiver⟩ := forall_owned
    (P := fun _ e => e.owner = some cls → (e.slots.map EnvSlot.key).Nodup ∧ e.paramCount = 0 ∧
      ∃ slot ∈ e.slots, slot.name = .receiver)
    (fun _ _ laid owned => laid.holdsObject owned isClass noParams) (fun _ _ _ _ here => here)
    h id e known (by simp [owned]) owned
  refine ⟨⟨fun _ _ here => (h.formed known owned).isParam_iff here, keys,
    fun slot inside => (h.receivers id e known slot inside).1,
    fun slot inside => (h.receivers id e known slot inside).2⟩, none, ?_⟩
  cases isSlot : e.receiverSlot with
  | none =>
    have := List.findIdx?_eq_none_iff.mp isSlot slot inside
    simp [isReceiver] at this
  | some r =>
    obtain ⟨inside, isName, _⟩ := List.findIdx?_eq_some_iff_getElem.mp isSlot
    exact ⟨r, e.slots[r], rfl, List.getElem?_eq_getElem inside, of_decide_eq_true isName⟩

/-! ## The beginning of its body -/

/-- Whatever the frame refers to has a value. -/
def Stage.Defines (x : Stage) : Prop := ∀ v, x.frame.Uses v → ∃ u, x.Knows v u ∧ u ≠ .undef

theorem Stage.Defines.goes {s : Setup} {x x' : Stage} (h : x.Defines) (goes : x.Goes s x') :
    x'.Defines := by
  intro v isUsed
  rw [goes.frame] at isUsed
  obtain ⟨u, known, written⟩ := h v (isUsed.of_same rfl rfl rfl)
  exact ⟨u, goes.knows known, written⟩

/-- The body was entered with an environment, and the first `m` slots are loaded: the object is
known once its slot is loaded. -/
structure Stage.LoadsObject (s : Setup) (x : Stage) (env : EnvId) (r : Nat)
    (v : Value) (cls : DeclId)
    (m : Nat) (y : Stage) : Prop where
  prepares : x.Prepares s y
  work : y.work = x.work
  memory : y.memory = x.memory
  env : y.frame.env = some ⟨env, Draft.param 0⟩
  receiverClass : y.frame.receiverClass = some cls
  memberOwner : y.frame.memberOwner = x.frame.memberOwner
  returning : y.frame.returning = x.frame.returning
  defines : y.Defines
  object : r < m → ∃ a, y.frame.receiver = some (.boxed a (.instanceOf cls)) ∧ y.Knows a v

namespace Stage.LoadsObject

variable {s : Setup} {x y y₁ : Stage} {env : EnvId} {m r : Nat} {v : Value} {cls : DeclId}

/-- Another slot is loaded, after which only the scope and the object change. -/
theorem next (h : x.LoadsObject s env r v cls m y) (goes : y.Goes s y₁)
    (memory : y₁.memory = y.memory) (work : y₁.work = y.work) {f : Frame}
    (same : f.draft = y₁.frame.draft)
    (others : f = { y₁.frame with scope := f.scope, receiver := f.receiver })
    (defines : ∀ v, f.Uses v → ∃ u, y₁.Knows v u ∧ u ≠ .undef)
    (object : r < m + 1 → ∃ a, f.receiver = some (.boxed a (.instanceOf cls)) ∧ y₁.Knows a v) :
    x.LoadsObject s env r v cls (m + 1) (y₁.reframed f same) where
  prepares := (h.prepares.trans goes.prepares).trans (y₁.prepares_reframed f same)
  work := work.trans h.work
  memory := memory.trans h.memory
  env := by
    change f.env = _
    rw [others, goes.frame]
    exact h.env
  receiverClass := by
    change f.receiverClass = _
    rw [others, goes.frame]
    exact h.receiverClass
  memberOwner := by
    change f.memberOwner = _
    rw [others, goes.frame]
    exact h.memberOwner
  returning := by
    change f.returning = _
    rw [others, goes.frame]
    exact h.returning
  defines u isUsed := by
    simp only [Stage.Knows, Stage.point_reframed]
    exact defines u isUsed
  object le := by
    obtain ⟨a, isReceiver, known⟩ := object le
    refine ⟨a, isReceiver, ?_⟩
    rw [Stage.Knows, Stage.point_reframed]
    exact known

/-- The slot of the object is loaded. -/
theorem bindsObject (h : x.LoadsObject s env r v cls m y) (goes : y.Goes s y₁)
    (memory : y₁.memory = y.memory) (work : y₁.work = y.work) {a : ValueId} {info : Info}
    (known : y₁.Knows a v) (written : v ≠ .undef) :
    x.LoadsObject s env r v cls (m + 1) (y₁.reframed { y₁.frame with
      receiver := some (.boxed a (y₁.frame.receiverClass.elim info .instanceOf)) } rfl) := by
  have isClass : y₁.frame.receiverClass = some cls := by
    rw [goes.frame]
    exact h.receiverClass
  refine h.next (f := { y₁.frame with
    receiver := some (.boxed a (y₁.frame.receiverClass.elim info .instanceOf)) })
    goes memory work rfl rfl (fun w isUsed => ?_) fun _ => ⟨a, ?_, known⟩
  · have before := h.defines.goes goes
    cases isUsed with
    | name here => exact before w (.name here)
    | reachable here => exact before w (.reachable here)
    | receiver here =>
      cases here
      exact ⟨_, known, written⟩
    | env here => exact before _ (.env here)
  · change some (Operand.boxed a (y₁.frame.receiverClass.elim info .instanceOf)) = _
    rw [isClass]
    rfl

/-- The slot of a variable is loaded. -/
theorem bindsCell (h : x.LoadsObject s env r v cls m y) (goes : y.Goes s y₁)
    (memory : y₁.memory = y.memory) (work : y₁.work = y.work) (apart : m ≠ r) {cell : ValueId}
    {u : Value} (known : y₁.Knows cell u) (written : u ≠ .undef) (scope : Scope)
    (uses : ∀ v, Frame.Uses { y₁.frame with scope } v → v = cell ∨ y₁.frame.Uses v) :
    x.LoadsObject s env r v cls (m + 1) (y₁.reframed { y₁.frame with scope } rfl) := by
  refine h.next (f := { y₁.frame with scope }) goes memory work rfl rfl (fun w isUsed => ?_)
    fun le => ?_
  · rcases uses w isUsed with rfl | isUsed
    · exact ⟨_, known, written⟩
    · exact h.defines.goes goes w isUsed
  · obtain ⟨a, isReceiver, known⟩ := h.object (by omega)
    refine ⟨a, ?_, goes.knows known⟩
    change y₁.frame.receiver = _
    rw [goes.frame]
    exact isReceiver

end Stage.LoadsObject

namespace Emit

variable {s : Setup} {x y : Stage} {e : Environment} {env : EnvId} {site : Site}
  {j m r : Nat} {items : List Value} {v : Value} {cls : DeclId} {slot : EnvSlot}

/-- To bind a cell changes the scope only. -/
theorem bindCell_prepares {Q : PUnit → Stage → Prop} (n : Name) (var : Option DeclId)
    (visible : Bool)
    (cell : ValueId) (info : Info)
    (h : ∀ scope, (∀ v, Frame.Uses { x.frame with scope } v → v = cell ∨ x.frame.Uses v) →
      Q ⟨⟩ (x.reframed { x.frame with scope } rfl)) :
    Prepares s x (bindCell n var visible cell info) Q := by
  cases var with
  | none =>
    cases visible with
    | false => exact .modify rfl (h _ fun _ isUsed => .inr isUsed)
    | true =>
      refine .modify rfl (h _ fun v isUsed => (Frame.Uses.bind isUsed).imp_left ?_)
      rintro ⟨_, ⟨⟩⟩
      rfl
  | some d =>
    cases visible with
    | false => exact .modify rfl (h _ fun v isUsed => Frame.Uses.bindHidden isUsed)
    | true => exact .modify rfl (h _ fun v isUsed => Frame.Uses.bindDeclared isUsed)

theorem bindSlot_loads (holds : e.HoldsObject) (isSlot : e.receiverSlot = some r)
    (item : items[r]? = some v) (entered : x.Entered e site j items)
    (h : x.LoadsObject s env r v cls m y) (here : e.slots[m]? = some slot) :
    Prepares s y (bindSlot e params site slot m) fun _ => x.LoadsObject s env r v cls (m + 1) := by
  have inside := (List.getElem?_eq_some_iff.mp here).1
  obtain ⟨u, item'⟩ : ∃ u, items[m]? = some u :=
    ⟨_, List.getElem?_eq_getElem (by have := entered.length; omega)⟩
  have written : u ≠ .undef := entered.written u (List.mem_of_getElem? item')
  have load (name : String) := (loadField_next e.record name (h.prepares.knows entered.given).value
    (h.memory ▸ entered.cell) item' written (s := s)).prepares
  obtain ⟨r', slot', isSlot', here', isName'⟩ := holds.hasObject
  cases isSlot.symm.trans isSlot'
  unfold bindSlot
  cases isName : slot.name with
  | receiver =>
    obtain rfl := holds.index_of_receiver here here' isName isName'
    cases item.symm.trans item'
    refine .bind (load "this") ?_
    rintro a y₁ - ⟨goes, -, -, known, memory, work⟩
    refine .bind (Q := fun f y' => f = y₁.frame ∧ y₁ = y') ⟨_, y₁, rfl, .refl y₁, rfl, rfl⟩ ?_
    rintro _ _ - ⟨rfl, rfl⟩
    exact .modify rfl (h.bindsObject goes memory work known written)
  | named n =>
    have isText : Compile.text n s y.work = .ok (s.program.text n) y.work := rfl
    refine .read isText (.bind (load _) ?_)
    rintro cell y₁ - ⟨goes, -, -, known, memory, work⟩
    have apart : m ≠ r := by
      rintro rfl
      cases here.symm.trans here'
      rw [isName] at isName'
      cases isName'
    have kept := h.bindsCell goes memory work apart known written
    cases slot.origin <;> exact bindCell_prepares _ _ _ _ _ kept

/-- At the beginning of the body all slots are loaded, and the object is known. -/
theorem prologue_loads (params : List Info) (known : x.work.registry.env? env = some e)
    (holds : e.HoldsObject) (isSlot : e.receiverSlot = some r) (item : items[r]? = some v)
    (entered : x.Entered e site j items) (notUses : ∀ u, ¬ x.frame.Uses u)
    (isClass : x.frame.receiverClass = some cls) :
    Prepares s x (prologue env params site) fun _ =>
    x.LoadsObject s env r v cls e.slots.length := by
  have isEnv : Compile.env env s x.work = .ok e x.work := by rw [Compile.env_apply, known]
  refine .read isEnv (.bind (Q := fun _ => x.LoadsObject s env r v cls 0) (.modify rfl ?_)
    fun _ y prepares start => ?_)
  · refine ⟨x.prepares_reframed _ _, rfl, rfl, rfl, isClass, rfl, rfl, fun u isUsed => ?_, nofun⟩
    cases isUsed with
    | name here => exact (notUses u (.name here)).elim
    | reachable here => exact (notUses u (.reachable here)).elim
    | receiver here => exact (notUses _ (.receiver here)).elim
    | env here =>
      cases here
      exact ⟨address j, entered.given, nofun⟩
  · refine (Prepares.forM (fun done => x.LoadsObject s env r v cls done.length) _ start
      ?_).mono fun _ _ _ h => by simpa using h
    rintro before ⟨slot, i⟩ after parts z _ h
    obtain ⟨here, rfl⟩ := of_zipIdx_append parts
    rw [List.length_append]
    exact bindSlot_loads holds isSlot item entered h here

end Emit

/-! ## The environment that it is called with -/

/-- The frame refers to the cell that a slot means. -/
theorem EnvSlot.uses_of_meaning {f : Frame} {w : Work} {slot : EnvSlot} {n : Name} {ptr : ValueId}
    {info : Info} (top : ∀ n ptr info, w.moduleScope.lookup n ≠ some (.cell ptr info))
    (meaning : slot.meaning n f w = some (.cell ptr info)) : f.Uses ptr := by
  unfold EnvSlot.meaning at meaning
  split at meaning
  · exact .reachable meaning
  · cases seen : f.scope.lookup n with
    | some b =>
      rw [seen] at meaning
      cases meaning
      exact .name seen
    | none =>
      rw [seen] at meaning
      exact absurd meaning (top _ _ _)

/-- A variable that a slot means has an address. -/
theorem Stage.Defines.reached {x : Stage} {slot : EnvSlot} {n : Name} {v : Value} (h : x.Defines)
    (top : ∀ n ptr info, x.work.moduleScope.lookup n ≠ some (.cell ptr info))
    (reached : x.reached? slot n = some v) : v ≠ .undef := by
  obtain ⟨b, meaning, address⟩ := Option.bind_eq_some_iff.mp reached
  cases b with
  | cell ptr info =>
    cases address
    obtain ⟨u, known, written⟩ := h ptr (slot.uses_of_meaning top meaning)
    rwa [show x.values ptr = u from known.value]
  | global g info =>
    cases address
    nofun
  | function d => cases address
  | classDecl d => cases address

theorem Environment.FilledAt.written {e : Environment} {x : Stage} {j i : Nat} {slot : EnvSlot}
    {old new : Option Value} {v : Value} (h : e.FilledAt x j i slot old new) (defines : x.Defines)
    (top : ∀ n ptr info, x.work.moduleScope.lookup n ≠ some (.cell ptr info))
    (called : x.CalledWith j) (before : ∀ u, old = some u → u ≠ .undef) (isNew : new = some v) :
    v ≠ .undef := by
  have kept (same : new = old) : v ≠ .undef := before v (same ▸ isNew)
  cases isName : slot.name with
  | receiver => exact kept (h.kept (.inl isName))
  | named n =>
    cases isOrigin : slot.origin with
    | param => exact kept (h.kept (.inr (.inl isOrigin)))
    | receiver => exact kept (h.kept (.inr (.inr isOrigin)))
    | capture =>
      obtain ⟨u, reached, same⟩ := h.captured n isName isOrigin
      cases same.symm.trans isNew
      exact defines.reached top reached
    | outer =>
      by_cases here : ∃ current, x.frame.env = some current ∧ e.outer = some current.id
      · obtain ⟨current, isCurrent, isOuter⟩ := here
        obtain ⟨feed, around, u, -, cell, item, same⟩ :=
          h.takenOver n current isName isOrigin isCurrent isOuter
        cases same.symm.trans isNew
        obtain ⟨-, _, _, -, cell', -, written⟩ := called current isCurrent
        cases cell.symm.trans cell'
        exact written v (List.mem_of_getElem? item)
      · have same := h.elsewhere n isName isOrigin fun current isCurrent isOuter =>
          here ⟨current, isCurrent, isOuter⟩
        rcases Option.or_eq_some_iff.mp (same.symm.trans isNew) with reached | ⟨-, isOld⟩
        · exact defines.reached top reached
        · exact before v isOld

/-- The environment in the allocation `j` is filled, and has the object in the allocation `o`. -/
structure Environment.Given (e : Environment) (mem : Memory) (j o : Nat) (fields : List Value) :
    Prop where
  cell : mem.heap[j]? = some (.agg fields)
  length : fields.length = e.slots.length
  written : ∀ v ∈ fields, v ≠ .undef
  object : ∀ r, e.receiverSlot = some r → fields[r]? = some (address o)

namespace Emit

variable {s : Setup} {x : Stage} {e : Environment} {d : DeclId} {ptr : ValueId} {j k : Nat}
  {items : List Value}

/-- No slot is left without a value. -/
theorem fillCaptures_writes (opened : e.Opened s.program d ptr j k items x) (defines : x.Defines)
    (top : ∀ n ptr info, x.work.moduleScope.lookup n ≠ some (.cell ptr info))
    (written : ∀ v ∈ items, v ≠ .undef) :
    Does s x (fillCaptures e ptr) fun _ x' => x'.work = x.work ∧ ∃ items',
      x'.memory = x.memory.put k (.agg items') ∧ items'.length = items.length ∧
      ∀ v ∈ items', v ≠ .undef := by
  intro a f w ran
  by_cases missed : ∃ slot ∈ e.slots, x.Misses slot
  · obtain ⟨_, _, _, _, _, _, failed⟩ := fillCaptures_fails opened missed
    cases ran.symm.trans failed
  · have found (entry : EnvSlot × Nat) (inside : entry ∈ e.slots.zipIdx) : ¬x.Misses entry.1 :=
      fun misses => missed ⟨_, (List.mem_zipIdx' inside).2 ▸ List.getElem_mem _, misses⟩
    obtain ⟨x', isFrame, isWork, goes, h⟩ :=
      (fillFirst_achieves opened (List.append_nil _).symm found).does a f w ran
    obtain ⟨items', memory, length, each⟩ := h.memory
    refine ⟨x', isFrame, isWork, goes, h.work, items', memory, length, fun v inside => ?_⟩
    obtain ⟨i, item⟩ := List.mem_iff_getElem?.mp inside
    have bound := (List.getElem?_eq_some_iff.mp item).1
    have inSlots : i < e.slots.length := by rw [← opened.length, ← length]; exact bound
    refine ((each i _ (List.getElem?_eq_getElem inSlots)).1 (by simpa using inSlots)).written
      defines
      top opened.called (fun u old => written u (List.mem_of_getElem? old)) item

/-- A new environment without parameters is filled. -/
theorem passToBody_does {l : Lowering} {c : CompiledFunction} (moment : Moment s x.work)
    (bound : x.work.registry.declEnv? d = some c.env) (known : x.work.registry.env? c.env = some e)
    (noParams : e.paramCount = 0) (called : x.CalledWith j) (defines : x.Defines)
    (top : ∀ n ptr info, x.work.moduleScope.lookup n ≠ some (.cell ptr info)) :
    Does s x (passToBody l c []) fun made x' => made.1 = e ∧ x'.work = x.work ∧
      x'.Knows made.2 (address x.memory.heap.size) ∧ ∃ items,
        x'.memory = x.memory.push (.agg items) ∧ items.length = e.slots.length ∧
        ∀ v ∈ items, v ≠ .undef := by
  obtain ⟨_, known', owned⟩ := moment.declEnv_owner d c.env bound
  cases known.symm.trans known'
  have formed := moment.formed known owned
  refine .find_bind (c := Compile.env c.env) (by rw [Compile.env_apply, known]) ?_
  refine allocEnv_bind moment formed.record fun ptr p goes' isPtr isMemory keeps => ?_
  have opened : e.Opened s.program d ptr j x.memory.heap.size (List.replicate e.slots.length .null)
      (x.moved p) := by
    refine ⟨formed, called.goes goes' keeps fun _ => List.not_mem_nil, isPtr, ?_, by simp,
      fun isCalled => Nat.ne_of_lt (called.old isCalled), fun slot _ n cell info meaning => ?_⟩
    · change p.memory.heap[_]? = _
      rw [isMemory, Memory.heap_push]
    · obtain ⟨u, known, -⟩ := defines.goes goes' cell (slot.uses_of_meaning top meaning)
      exact known.inside
  unfold writeArgs
  rw [noParams]
  refine .bind (Q := fun _ x' => x.moved p = x') (.pure rfl) ?_
  rintro _ _ - rfl
  refine .bind (fillCaptures_writes opened (defines.goes goes') top (by simp)) ?_
  rintro _ x₂ goes₂ ⟨work, items, memory₂, length, written⟩
  refine .pure ⟨rfl, work, goes₂.knows isPtr, items, ?_, by simpa using length, written⟩
  rw [memory₂]
  change p.memory.put _ _ = _
  rw [isMemory, Memory.put_push]

/-- The object is put into its slot. -/
theorem giveObject_does {given : ValueId} {o : Nat} {start : Memory}
    (isPtr : x.Knows ptr (address start.heap.size)) (memory : x.memory = start.push (.agg items))
    (length : items.length = e.slots.length)
    (written : ∀ v ∈ items, v ≠ .undef) (isGiven : x.Knows given (address o)) :
    Does s x (fillReceiver e ptr (some given)) fun _ x' => x'.work = x.work ∧ ∃ fields,
      x'.memory = start.push (.agg fields) ∧ e.Given x'.memory start.heap.size o fields := by
  unfold fillReceiver
  split
  · rename_i none
    refine .pure ⟨rfl, items, memory, ?_, length, written, fun r isSlot => ?_⟩
    · rw [memory, Memory.heap_push]
    · cases none.symm.trans isSlot
  · rename_i r isSlot
    obtain ⟨inside, -⟩ := List.findIdx?_eq_some_iff_getElem.mp isSlot
    rw [← length] at inside
    have cell : x.memory.heap[start.heap.size]? =
      some (.agg items) := by rw [memory, Memory.heap_push]
    refine (storeField_does e.record isPtr.value cell inside).mono ?_
    rintro _ x' _ ⟨work, u, memory', isValue⟩
    obtain rfl : u = address o := (isValue isGiven.inside).trans isGiven.value
    rw [memory, Memory.put_push] at memory'
    refine ⟨work, _, memory', ?_, by simpa using length, fun v inside => ?_, fun r' isSlot' => ?_⟩
    · rw [memory', Memory.heap_push]
    · rcases List.mem_or_eq_of_mem_set inside with old | rfl
      · exact written v old
      · simp [address]
    · obtain rfl : r = r' := Option.some.inj (isSlot.symm.trans isSlot')
      exact List.getElem?_set_self inside

end Emit

/-! ## Calls -/

/-- The compilation has come to its end: every body is there, and the module is that of the
image. -/
structure Work.Complete (s : Setup) (fin : Work) (im : Image) : Prop where
  standard : s.runtime = startModule.1
  apart : s.config.entryName ≠ closureCallName
  moment : Moment s fin
  isCode : im.code = fin.code
  finished : ∀ key c, fin.functions.get? key = some c → Finished s fin key c.func

/-- A part of a compilation is over. -/
structure Work.Before (s : Setup) (w fin : Work) : Prop where
  later : Later s w fin
  keeps : w.Retains fin

theorem Work.Reaches.before {s : Setup} {w w' fin : Work} (there : Reaches s w w')
    (h : w'.Before s fin) : w.Before s fin where
  later := there.later.trans h.later
  keeps :=
    { bodies := fun key c known => h.keeps.bodies key c (there.functions key c known)
      layouts := fun cls layout known => h.keeps.layouts cls layout
        (there.layouts cls layout known) }

/-- Code that may call functions leads from the one stage to the other. -/
structure Stage.Passes (im : Image) (x x' : Stage) : Prop where
  frame : x'.frame = { x.frame with draft := x'.frame.draft }
  point : x.point.Passes im x'.point

namespace Stage

variable {s : Setup} {im : Image} {fin : Work} {x x' x'' : Stage}

theorem Goes.passes (h : x.Goes s x') (complete : fin.Complete s im) (later : Later s x'.work fin) :
    x.Passes im x' :=
  ⟨h.frame, h.point.passes (complete.isCode ▸ later.extends.code.types)⟩

theorem Passes.trans (h : x.Passes im x') (h' : x'.Passes im x'') : x.Passes im x'' := by
  refine ⟨?_, h.point.trans h'.point⟩
  rw [h'.frame, h.frame]

theorem Passes.knows {v : ValueId} {val : Value} (h : x.Passes im x') (known : x.Knows v val) :
    x'.Knows v val := h.point.knows known

end Stage

/-- Calls of the constructor of `owner` that is compiled for instances of `cls`, and not written
out, give an instance these start values. -/
def Constructs (fin : Work) (im : Image) (layout : ClassLayout) (size : Nat)
    (cls owner : DeclId) (starts : List (Name × Value)) : Prop :=
  ∀ (key : FunctionKey) (c : CompiledFunction) (e : Environment) (mem : Memory) (j o : Nat)
    (fields items : List Value), key.subject = .implicitConstructor owner →
    key.receiverClass = some cls → fin.functions.get? key = some c →
    fin.registry.env? c.env = some e → e.Given mem j o fields → mem.heap[o]? = some (.agg items) →
    items.length = size → ∃ mem' items', Initialized layout o starts mem items mem' items' ∧
      Yields im (.function c.func) [address j] mem .null mem'

/-- The constructor of the class is not written out, and takes nothing. -/
structure Source.Program.ConstructsImplicitly (p : Program) (cls : DeclId) : Prop where
  undeclared : p.constructorOf cls = .ok none
  noParams : p.forwardedParams cls = .ok []
  isClass : ∃ c, p.classDecl cls = .ok c
  isOwn : ∀ d, p.decl cls = .ok d → d.flags.ambient = false

namespace Emit

variable {s : Setup} {im : Image} {fin w : Work} {x : Stage} {layout : ClassLayout} {size : Nat}
  {cls owner : DeclId} {starts : List (Name × Value)} {j o depth : Nat} {this : ValueId}
  {items : List Value} {f : Frame}

/-- The function is called with a pointer. -/
theorem callPtr_passes (im : Image) {func : FuncId} {arg out : ValueId} {a : Value} {name : String}
    (isArg : x.Knows arg a)
    (ran : callPtr func [arg] name x.frame s x.work = .ok (out, f) w) :
    w = x.work ∧ ∀ mem', Yields im (.function func) [a] x.memory .null mem' →
      ∃ x' : Stage, x'.frame = f ∧ x'.work = w ∧ x.Passes im x' ∧ x'.memory = mem' := by
  obtain rfl : x.point.values arg = a := isArg.value
  replace ran := of_write_ok ran
  rw [show ((Draft.call func .ptr [arg] name).run x.frame.draft).1 =
    some ⟨x.point.size⟩ from rfl] at ran
  cases ran
  refine ⟨rfl, fun mem' yields => ?_⟩
  have given : Yields im (.function func) ([arg].map x.point.values) x.point.memory .null mem' :=
    yields
  obtain ⟨-, p, draft, passes, memory⟩ := x.point.call_passes name given
  refine ⟨x.moved p, ?_, rfl, ⟨rfl, passes⟩, memory⟩
  change ({ x.frame with draft := p.draft } : Frame) = _
  rw [draft]
  rfl

theorem of_discard_ok {α : Type} {m : Emit α} {f f' : Frame} {w' : Work}
    (ran : (discard m : Emit PUnit) f s w = .ok ((), f') w') : ∃ a, m f s w = .ok (a, f') w' := by
  change ((fun _ => PUnit.unit) <$> m) f s w = _ at ran
  rw [← bind_pure_comp] at ran
  obtain ⟨a, _, _, ran, last⟩ := of_bind_ok ran
  cases last
  exact ⟨a, ran⟩

/-- The body of a constructor that is not written out is asked for and called. -/
theorem of_runConstructor_ok {l : Lowering} {f f' : Frame} {w' : Work}
    (implicit : s.program.ConstructsImplicitly owner)
    (ran : runConstructor l owner cls this [] f s w = .ok ((), f') w') :
    ∃ c v w₁, l.body (.implicitConstructor owner) (some cls) [] s w = .ok c w₁ ∧
      callCompiled l c (some this) [] f s w₁ = .ok (v, f') w' := by
  obtain ⟨subject, _, _, lifted, ran⟩ := of_bind_ok ran
  obtain ⟨rfl, found⟩ := of_lift_ok lifted
  obtain ⟨_, _, asked, found⟩ := Compile.of_bind_ok found
  obtain ⟨rfl, isNone⟩ := Compile.of_asks_ok asked
  cases implicit.undeclared.symm.trans isNone
  obtain ⟨d, _, asked, found⟩ := Compile.of_bind_ok found
  obtain ⟨rfl, isDecl⟩ := Compile.of_asks_ok asked
  rw [implicit.isOwn d isDecl] at found
  cases found
  obtain ⟨_, _, _, external, ran⟩ := of_bind_ok ran
  cases external
  obtain ⟨c, _, w₁, lifted, ran⟩ := of_bind_ok ran
  obtain ⟨rfl, compiled⟩ := of_lift_ok lifted
  obtain ⟨v, called⟩ := of_discard_ok ran
  exact ⟨c, v, w₁, compiled, called⟩

/-- The constructor is called on an instance. -/
theorem runConstructor_passes (complete : fin.Complete s im)
    (implicit : s.program.ConstructsImplicitly owner)
    (constructs : Constructs fin im layout size cls owner starts) (sound : x.work.Sound s)
    (grounded : x.frame.Grounded x.work)
    (called : x.CalledWith j) (defines : x.Defines) (isThis : x.Knows this (address o))
    (object : x.memory.heap[o]? = some (.agg items)) (sized : items.length = size)
    (ran : runConstructor (.ofDepth depth) owner cls this [] x.frame s x.work = .ok ((), f) w)
    (before : w.Before s fin) :
    Reaches s x.work w ∧ ∃ x' : Stage, x'.frame = f ∧ x'.work = w ∧ x.Passes im x' ∧
      ∃ items', Initialized layout o starts x.memory items x'.memory items' := by
  have hl : (Lowering.ofDepth depth).Sound s := Lowering.ofDepth_sound depth
  have there := ((runConstructor_walks hl.walks owner cls this []).ends sound.moment
    grounded).of_ok ran
  refine ⟨there.1, ?_⟩
  obtain ⟨c, v, w₁, compiled, ran⟩ := of_runConstructor_ok implicit ran
  obtain ⟨there₁, key, isSubject, isClass, recorded⟩ :=
    (hl.walks.body sound.moment (.implicitConstructor owner) (some cls) []).of_ok compiled
  have sound₁ := ((hl.compiled (.implicitConstructor owner) (some cls) []).goes sound compiled).2
  have moment₁ := sound₁.moment
  have bound := (moment₁.function_made key c recorded).1
  rw [isSubject] at bound
  change w₁.registry.declEnv? owner = some c.env at bound
  obtain ⟨e, ptr, out, f₁, w₂, known, passed, entered⟩ := of_callCompiled_ok ran
  obtain ⟨_, known', owned⟩ := moment₁.declEnv_owner owner c.env bound
  cases known.symm.trans known'
  obtain ⟨decl, isDecl⟩ := implicit.isClass
  have holds := moment₁.holdsObject known owned isDecl implicit.noParams
  have step : x.Goes s (x.later w₁) := ⟨there₁, rfl, .refl _⟩
  -- the environment
  obtain ⟨x₁, rfl, rfl, goes₁, -, work₁, isPtr, fields, memory₁, length, written⟩ :=
    passToBody_does (x := x.later w₁) moment₁ bound known holds.noParams
      (called.goes step (.refl [] _) fun _ => List.not_mem_nil) (defines.goes step) sound₁.names
      _ _ _ passed
  have goes₁ := step.trans goes₁
  obtain ⟨_, _, _, filled, entered⟩ := of_bind_ok entered
  obtain ⟨x₂, rfl, rfl, goes₂, work₂, fields', memory₂, given⟩ := giveObject_does isPtr
    (show x₁.memory = x.memory.push _ from memory₁) length written (goes₁.knows isThis) _ _ _ filled
  -- the call
  have same : x₂.work = w₁ := work₂.trans work₁
  have object₂ : x₂.memory.heap[o]? = some (.agg items) := memory₂ ▸ Memory.heap_push_lt _ object
  have isArg : x₂.Knows ptr (address x.memory.heap.size) := goes₂.knows isPtr
  obtain ⟨rfl, passes⟩ := callPtr_passes im isArg entered
  have recorded₂ : x₂.work.functions.get? key = some c := same ▸ recorded
  obtain ⟨c', recorded', isFunc⟩ := before.keeps.bodies key c recorded₂
  have bound' := (complete.moment.function_made key c' recorded').1
  rw [isSubject] at bound'
  have isEnv : c.env = c'.env := Option.some.inj
    ((before.later.extends.registry.declEnv _ _ (same ▸ bound)).symm.trans bound')
  have known' := before.later.extends.registry.env _ _ (same ▸ known)
  rw [isEnv] at known'
  obtain ⟨mem', items', made, yields⟩ := constructs key c' e x₂.memory
    x.memory.heap.size o fields' items
    isSubject isClass recorded' known' given object₂ sized
  rw [isFunc] at yields
  obtain ⟨x', isFrame, isWork, passes', memory'⟩ := passes mem' yields
  have arranges : x.memory.Arranges [] x₂.memory := memory₂ ▸ Memory.arranges_push _ _
  have start : Initialized layout o [] x.memory items x₂.memory items :=
    .of_arranges arranges object
  refine ⟨x', isFrame, isWork, ((goes₁.trans goes₂).passes complete before.later).trans
    passes', items', ?_⟩
  rw [memory']
  exact start.trans made

section

variable {c : ClassDecl} {ms : List (DeclId × Decl)} {above : List (Name × Value)}

/-- The start values of the class are stored. -/
theorem runInitializers_passes (complete : fin.Complete s im)
    (laidOut : fin.layouts.get? cls = some layout) (areMembers : s.program.members owner = .ok ms)
    (takes : ∀ m d e, (m, d) ∈ ms → d.start? false = some e →
      ∃ v, layout.Takes s.program size d e v)
    (moment : Moment s x.work) (grounded : x.frame.Grounded x.work)
    (isReceiver : x.frame.receiver = some (.boxed this (.instanceOf cls)))
    (receiverClass : x.frame.receiverClass = some cls) (isThis : x.Knows this (address o))
    (object : x.memory.heap[o]? = some (.agg items)) (sized : items.length = size)
    (ran : runInitializers (.ofDepth depth) owner x.frame s x.work = .ok ((), f) w)
    (before : w.Before s fin) : ∃ x' : Stage, x'.frame = f ∧ x'.work = w ∧ x.Passes im x' ∧
      ∃ items', Initialized layout o (s.program.startsAmong false ms) x.memory items
      x'.memory items' := by
  subst sized
  obtain ⟨x', isFrame, rfl, goes, made⟩ := runInitializers_does moment grounded
    areMembers isReceiver
    receiverClass isThis object ran (fun layout' known => Option.some.inj
      ((before.keeps.layouts cls layout' known).symm.trans laidOut)) takes
  exact ⟨x', isFrame, rfl, goes.passes complete before.later, made⟩

/-- The constructor of the base is called, then the start values of the class are stored. -/
theorem implicitConstructor_passes (complete : fin.Complete s im)
    (laidOut : fin.layouts.get? cls = some layout) (isClass : s.program.classDecl owner = .ok c)
    (noParams : s.program.forwardedParams owner = .ok [])
    (areMembers : s.program.members owner = .ok ms)
    (takes : ∀ m d e, (m, d) ∈ ms → d.start? false = some e →
      ∃ v, layout.Takes s.program size d e v)
    (top : c.base = none → above = [])
    (further : ∀ base, c.base = some base → s.program.ConstructsImplicitly base ∧
      Constructs fin im layout size cls base above)
    (sound : x.work.Sound s) (grounded : x.frame.Grounded x.work) (called : x.CalledWith j)
    (defines : x.Defines) (isReceiver : x.frame.receiver = some (.boxed this (.instanceOf cls)))
    (receiverClass : x.frame.receiverClass = some cls)
    (memberOwner : x.frame.memberOwner = some owner)
    (isThis : x.Knows this (address o)) (object : x.memory.heap[o]? = some (.agg items))
    (sized : items.length = size)
    (ran : implicitConstructor (.ofDepth depth) owner x.frame s x.work = .ok ((), f) w)
    (before : w.Before s fin) : ∃ x' : Stage, x'.frame = f ∧ x'.work = w ∧ x.Passes im x' ∧
      ∃ items', Initialized layout o (above ++ s.program.startsAmong false ms) x.memory items
        x'.memory items' := by
  obtain ⟨_, _, _, asked, ran⟩ := of_bind_ok ran
  obtain ⟨rfl, rfl, isClass'⟩ := of_asks_ok asked
  cases isClass.symm.trans isClass'
  cases isBase : c.base with
  | none =>
    rw [isBase] at ran
    rw [top isBase]
    exact runInitializers_passes complete laidOut areMembers takes sound.moment grounded isReceiver
      receiverClass isThis object sized ran before
  | some base =>
    obtain ⟨implicit, constructs⟩ := further base isBase
    rw [isBase] at ran
    obtain ⟨_, _, _, asked, ran⟩ := of_bind_ok ran
    obtain ⟨rfl, rfl, areParams⟩ := of_asks_ok asked
    cases noParams.symm.trans areParams
    obtain ⟨_, _, _, none, ran⟩ := of_bind_ok ran
    cases none
    obtain ⟨v, ran⟩ := of_discard_ok ran
    obtain ⟨_, _, _, got, ran⟩ := of_bind_ok ran
    cases got
    rw [memberOwner] at ran
    obtain ⟨_, _, _, asked, ran⟩ := of_bind_ok ran
    obtain ⟨rfl, rfl, isClass'⟩ := of_asks_ok asked
    cases isClass.symm.trans isClass'
    rw [isBase] at ran
    obtain ⟨_, _, _, received, ran⟩ := of_bind_ok ran
    obtain ⟨rfl, rfl, isObject⟩ := of_receiver_ok received
    cases isReceiver.symm.trans isObject
    rw [boxed_of_boxed rfl, pure_bind] at ran
    obtain ⟨_, _, _, got, ran⟩ := of_bind_ok ran
    cases got
    rw [receiverClass] at ran
    obtain ⟨_, f₁, w₁, ran₁, ran⟩ := of_bind_ok ran
    obtain ⟨_, f₂, w₂, ran₂, ran⟩ := of_bind_ok ran
    have hl : (Lowering.ofDepth depth).Walks s := Lowering.ofDepth_walks depth
    obtain ⟨there₁, onward₁⟩ :=
      ((runConstructor_walks hl base cls this []).ends sound.moment grounded).of_ok ran₁
    have moment₁ := sound.moment.later there₁.later
    obtain ⟨there₂, onward₂⟩ :=
      ((runInitializers_walks hl owner).ends moment₁ onward₁.grounded).of_ok ran₂
    obtain ⟨there₃, -⟩ :=
      ((nullValue_walks .void).ends (moment₁.later there₂.later) onward₂.grounded).of_ok ran
    have before₂ := there₃.before before
    obtain ⟨-, x₁, rfl, rfl, passes₁, items₁, made₁⟩ :=
      runConstructor_passes complete implicit constructs
      sound grounded called defines isThis object sized ran₁ (there₂.before before₂)
    have receiver₁ : x₁.frame.receiver = some (.boxed this (.instanceOf cls)) := by
      rw [passes₁.frame]
      exact isReceiver
    have receiverClass₁ : x₁.frame.receiverClass = some cls := by
      rw [passes₁.frame]
      exact receiverClass
    obtain ⟨x₂, rfl, rfl, passes₂, items₂, made₂⟩ :=
      runInitializers_passes complete laidOut areMembers
      takes moment₁ onward₁.grounded receiver₁ receiverClass₁ (passes₁.knows isThis) made₁.object
      (made₁.length.trans sized) ran₂ before₂
    have null : Does s x₂ (nullValue .void) fun _ x' => x'.memory = x₂.memory :=
      .bind null_achieves.does fun _ _ _ here => .pure here.2.1
    obtain ⟨x₃, rfl, rfl, goes₃, memory₃⟩ := null _ _ _ ran
    exact ⟨x₃, rfl, rfl, (passes₁.trans passes₂).trans (goes₃.passes complete before.later), items₂,
      memory₃ ▸ made₁.trans made₂⟩

end

end Emit

/-! ## Bodies of constructors -/

namespace Compile

variable {s : Setup} {l : Lowering} {w w' : Work} {spec : Specialization}
  {func : FuncId} {env : EnvId}
  {owner cls : DeclId}

/-- The frame with which the body begins. -/
def constructorFrame (spec : Specialization) (func : FuncId) (owner cls : DeclId) (site : Site)
    (w : Work) : Frame where
  draft := Draft.start func [.ptr]
  scope := site.scope.declarationView.onTopOf w.moduleScope
  bindings := spec.bindings
  returning := .discard
  receiverClass := some cls
  memberOwner := some owner

theorem of_constructorBody_ok {result : Code.Body × Returning}
    (isSubject : spec.key.subject = .implicitConstructor owner)
    (isClass : spec.key.receiverClass = some cls)
    (ran : body l spec func env .discard s w = .ok result w') : ∃ site ended,
      Emit.wholeBody l spec env site (constructorFrame spec func owner cls site w) s w =
        .ok ((), ended) w' ∧ result.1 = ended.draft.finish := by
  rw [body_eq] at ran
  obtain ⟨⟨site, begun⟩, w₁, begins, ran⟩ := of_bind_ok ran
  obtain ⟨⟨_, ended⟩, w₂, whole, ran⟩ := of_bind_ok ran
  cases ran
  obtain ⟨_, _, found, rest⟩ := of_bind_ok begins
  obtain ⟨rfl, -⟩ := of_siteOf_ok found
  obtain ⟨_, _, got, rest⟩ := of_bind_ok rest
  cases got
  rw [isSubject] at rest
  obtain ⟨_, _, isOwner, rest⟩ := of_bind_ok rest
  cases isOwner
  rw [isClass] at rest
  cases rest
  exact ⟨site, ended, whole, rfl⟩

end Compile

namespace Emit

variable {s : Setup} {im : Image} {fin w : Work} {x : Stage} {layout : ClassLayout} {size : Nat}
  {cls owner : DeclId}

/-- A body that has not left by then leaves with null. -/
theorem of_discard_last {l : Lowering} {f : Frame} (discards : x.frame.returning = .discard)
    (ran : (do unless ← isClosed do returnValue l none : Emit Unit) x.frame s x.work =
    .ok ((), f) w) :
    ∃ (x' : Stage) (a : ValueId), x.Goes s x' ∧ x'.work = w ∧ x'.memory = x.memory ∧
    x'.Knows a .null ∧
      f.draft = ((Draft.ret (some a)).run x'.frame.draft).2 := by
  obtain ⟨_, _, _, asked, ran⟩ := of_bind_ok ran
  cases asked
  rw [x.isOpen.isClosed] at ran
  obtain ⟨_, _, _, got, ran⟩ := of_bind_ok ran
  cases got
  rw [discards] at ran
  obtain ⟨a, f₁, w₁, null, ran⟩ := of_bind_ok ran
  obtain ⟨x', rfl, rfl, goes, isNull, memory, -⟩ := null_achieves.does _ _ _ null
  cases ran
  exact ⟨x', a, goes, rfl, memory, isNull, rfl⟩

/-- The stage at which the body begins, called with the environment in the allocation `j`. -/
def constructorStart (spec : Specialization) (func : FuncId) (owner cls : DeclId)
    (site : Site) (w : Work)
    (mem : Memory) (j : Nat) : Stage :=
  ⟨w, Compile.constructorFrame spec func owner cls site w,
    (startPoint func [address j] mem).values, mem,
    ⟨0⟩, ⟨rfl, _, rfl, rfl⟩⟩

section

variable {c : ClassDecl} {ms : List (DeclId × Decl)} {above : List (Name × Value)} {depth : Nat}
  {spec : Specialization} {func : FuncId} {site : Site} {env : EnvId}
    {e : Environment} {mem : Memory}
  {j o : Nat} {fields items : List Value} {f : Frame} {w₀ : Work}

/-- The body of a constructor gives the instance the start values of the classes from the base
on. -/
theorem constructorBody_passes (complete : fin.Complete s im)
    (laidOut : fin.layouts.get? cls = some layout) (isClass : s.program.classDecl owner = .ok c)
    (noParams : s.program.forwardedParams owner = .ok [])
    (areMembers : s.program.members owner = .ok ms)
    (takes : ∀ m d e, (m, d) ∈ ms → d.start? false = some e →
      ∃ v, layout.Takes s.program size d e v)
    (top : c.base = none → above = [])
    (further : ∀ base, c.base = some base → s.program.ConstructsImplicitly base ∧
      Constructs fin im layout size cls base above)
    (sound : w₀.Sound s) (known : w₀.registry.env? env = some e) (holds : e.HoldsObject)
    (isSubject : spec.key.subject = .implicitConstructor owner) (given : e.Given mem j o fields)
    (object : mem.heap[o]? = some (.agg items)) (sized : items.length = size)
    (ran : wholeBody (.ofDepth depth) spec env site
    (Compile.constructorFrame spec func owner cls site w₀)
      s w₀ = .ok ((), f) w)
    (before : w.Before s fin) :
    ∃ (p : Point) (a : ValueId), (startPoint func [address j] mem).Passes im p ∧
    p.values a = .null ∧
      f.draft = ((Draft.ret (some a)).run p.draft).2 ∧ ∃ items',
        Initialized layout o (above ++ s.program.startsAmong false ms) mem items
        p.memory items' := by
  have hl : (Lowering.ofDepth depth).Walks s := Lowering.ofDepth_walks depth
  obtain ⟨r, slot, isSlot, here, isName⟩ := holds.hasObject
  let x := constructorStart spec func owner cls site w₀ mem j
  have isGiven : (startPoint func [address j] mem).Knows (Draft.param 0) (address j) :=
    knows_param rfl
  have entered : x.Entered e site j fields :=
    ⟨rfl, rfl, sound.names, isGiven, given.cell, given.written, given.length⟩
  obtain ⟨_, f₁, w₁, prologued, ran⟩ := of_bind_ok ran
  obtain ⟨-, onward₁⟩ := ((prologue_walks env spec.key.params site).ends sound.moment
    (by rintro _ ⟨⟩)).of_ok prologued
  obtain ⟨_, y, ran₁, -, loads⟩ := prologue_loads (x := x) spec.key.params known holds
    isSlot (given.object r isSlot) entered (fun u => sound.not_uses rfl rfl rfl u) rfl
  cases prologued.symm.trans ran₁
  have work₁ : y.work = w₀ := loads.work
  have memory₁ : y.memory = mem := loads.memory
  have sound₁ : y.work.Sound s := work₁ ▸ sound
  rw [isSubject] at ran
  obtain ⟨_, f₂, w₂, built, last⟩ := of_bind_ok ran
  have lastWalks : Walks s (do unless ← isClosed do returnValue (.ofDepth depth) none :
      Emit Unit) :=
    .bind isClosed_walks fun _ => .ite (.pure _) (returnValue_walks hl none)
  obtain ⟨there₂, onward₂⟩ :=
    ((implicitConstructor_walks hl owner).ends sound₁.moment onward₁.grounded).of_ok built
  obtain ⟨there₃, -⟩ := (lastWalks.ends (sound₁.moment.later there₂.later) onward₂.grounded).of_ok
    last
  have called : y.CalledWith j := by
    intro current isCurrent
    cases loads.env.symm.trans isCurrent
    exact ⟨loads.prepares.knows isGiven, e, fields, work₁ ▸ known, memory₁ ▸
      given.cell, given.length,
      given.written⟩
  obtain ⟨this, isReceiver, isThis⟩ := loads.object (List.getElem?_eq_some_iff.mp here).1
  obtain ⟨z, rfl, rfl, passes, items', made⟩ := implicitConstructor_passes complete laidOut isClass
    noParams areMembers takes top further sound₁ onward₁.grounded called loads.defines isReceiver
    loads.receiverClass loads.memberOwner isThis (memory₁ ▸ object) sized built
      (there₃.before before)
  have discards : z.frame.returning = .discard := by
    rw [passes.frame]
    exact loads.returning
  obtain ⟨z', a, goes, rfl, memory, isNull, draft⟩ := of_discard_last discards last
  have loaded : x.point.Passes im y.point := by
    refine loads.prepares.point.passes ?_
    exact complete.isCode ▸ ((there₂.trans there₃).before before).later.extends.code.types
  refine ⟨z'.point, a, (loaded.trans passes.point).trans (goes.passes complete before.later).point,
    isNull.value, draft, items', ?_⟩
  change Initialized _ _ _ _ _ z'.memory _
  rw [← memory₁, memory]
  exact made

end

end Emit

/-- Calls of the constructor give the instance the start values of the classes from the base on. -/
theorem Constructs.next {s : Setup} {im : Image} {fin : Work} {layout : ClassLayout} {size : Nat}
    {cls owner : DeclId} {c : ClassDecl} {ms : List (DeclId × Decl)} {above : List (Name × Value)}
    (complete : fin.Complete s im) (laidOut : fin.layouts.get? cls = some layout)
    (isClass : s.program.classDecl owner = .ok c)
    (noParams : s.program.forwardedParams owner = .ok [])
    (areMembers : s.program.members owner = .ok ms)
    (takes : ∀ m d e, (m, d) ∈ ms → d.start? false = some e →
      ∃ v, layout.Takes s.program size d e v)
    (top : c.base = none → above = [])
    (further : ∀ base, c.base = some base → s.program.ConstructsImplicitly base ∧
      Constructs fin im layout size cls base above) :
    Constructs fin im layout size cls owner (above ++ s.program.startsAmong false ms) := by
  intro key comp e mem j o fields items isSubject isReceiver recorded known given object sized
  obtain @⟨depth, spec, env, returning, name, result, w₀, w₁, w₂, w₃, rfl, sound,
    declared, bound, returns,
    ran, absent, later, keeps⟩ := complete.finished key comp recorded
  rw [isSubject] at returns bound
  cases returns
  change w₀.registry.declEnv? owner = some env at bound
  obtain ⟨site, ended, whole, isBody⟩ := Compile.of_constructorBody_ok isSubject isReceiver ran
  -- the function has this body in the end
  have defined : Later s w₁ { w₁ with code := w₁.code.define comp.func result.1 } :=
    (Step.define _ _ (.inl fun fn known => Option.some.inj (absent.symm.trans known) ▸ rfl)).later
  have before : w₁.Before s fin := ⟨defined.trans later, keeps⟩
  have there := ((Compile.body_ends (Lowering.ofDepth_walks depth) sound.moment spec comp.func env
    .discard).of_ok ran).1
  have hasBody : im.code.function? comp.func = some ⟨name, [.ptr], .ptr, some result.1⟩ := by
    rw [complete.isCode]
    exact later.function? complete.apart (function?_define absent) rfl
  -- and the environment for which it was compiled
  obtain ⟨e', known', owned⟩ := sound.moment.declEnv_owner owner env bound
  have since := (there.before before).later
  have isEnv : comp.env = env := by
    have bound' := (complete.moment.function_made spec.key comp recorded).1
    rw [isSubject] at bound'
    exact Option.some.inj (bound'.symm.trans (since.extends.registry.declEnv _ _ bound))
  rw [isEnv] at known
  cases known.symm.trans (since.extends.registry.env _ _ known')
  have holds := sound.moment.holdsObject known' owned isClass noParams
  obtain ⟨p, a, passes, isNull, draft, items', made⟩ :=
    Emit.constructorBody_passes complete laidOut isClass
    noParams areMembers takes top further sound known' holds isSubject given object
      sized whole before
  have yields : Yields im (.function comp.func) [address j] mem
      ((some a).elim .undef p.values) p.memory :=
    yields_of_passes hasBody rfl (by rw [isBody, draft]) passes
  rw [Option.elim_some, isNull] at yields
  exact ⟨p.memory, items', made, yields⟩

end ShapeCompiler
