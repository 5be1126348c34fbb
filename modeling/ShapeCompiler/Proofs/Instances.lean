import ShapeCompiler.Proofs.Drafts
import ShapeCompiler.Proofs.Environments
import ShapeCompiler.Proofs.Straight

/-!
# New instances

What the code does that gives a new instance its table.

* `copyTable_does`: the copy has the entries of the shared table;
* `closureOf_does`: a closure of a method has code, and an environment with the object in it;
* `patchSlot_does`: the slot of an overridden method holds what stands for it, and the closure is
  behind the entries.
-/

namespace ShapeCompiler

open Source Code Work Machine

namespace Emit

variable {s : Setup} {x : Stage}

/-! ## Records and tables -/

theorem storeField_does {ptr value : ValueId} {k i : Nat} {items : List Value} (record : TyId)
    (isPtr : x.values ptr = address k) (cell : x.memory.heap[k]? = some (.agg items))
    (inside : i < items.length) :
    Does s x (storeField record ptr i value) fun _ x' => x'.work = x.work ∧
      ∃ v, x'.memory = x.memory.put k (.agg (items.set i v)) ∧
        (value.raw < x.size → v = x.values value) := by
  refine .write_bind (.fieldAddr record i "field" isPtr) ?_
  rintro p q goes ⟨known, memory, -⟩
  have stored : q.memory.store (q.values p) (q.values value) =
      .ok (x.memory.put k (.agg (items.set i (q.values value)))) := by
    rw [known.value, memory]
    exact Memory.store_heap cell inside _
  refine .write (.store (p := q) stored) ?_
  rintro _ q' _ ⟨-, memory', -⟩
  exact ⟨rfl, q.values value, memory', fun old => goes.kept value old⟩

theorem loadField_does {ptr : ValueId} {k i : Nat} {items : List Value} {v : Value} (record : TyId)
    (name : String) (isPtr : x.values ptr = address k)
    (cell : x.memory.heap[k]? = some (.agg items)) (item : items[i]? = some v)
    (written : v ≠ .undef) :
    Does s x (loadField record ptr i name) fun a x' =>
      x'.Knows a v ∧ x'.memory = x.memory ∧ x'.work = x.work := by
  refine .write_bind (.fieldAddr record i name isPtr) ?_
  rintro p q _ ⟨known, memory, -⟩
  refine .write (.load .ptr name (x := v) ?_) ?_
  · change q.memory.load (q.values p) = _
    rw [known.value, memory]
    exact Memory.load_heap cell item written
  · rintro a q' _ ⟨known', memory', -⟩
    exact ⟨known', memory'.trans memory, rfl⟩

theorem index_does {i : Nat} : Does s x (index i) fun a x' =>
    x'.Knows a (.int (Int64.ofNat (min i 0x7FFFFFFF))) ∧ x'.memory = x.memory ∧
      x'.work = x.work ∧ x'.size = x.size + 1 := by
  refine .write (.const (.int .i32 _) _) ?_
  rintro a q _ ⟨known, memory, size⟩
  exact ⟨known, memory, rfl, size⟩

/-- The address of the element at a position, as far as this fits a word. -/
theorem elemAddr_does {array : ValueId} {q : Pointer} (i : Nat) (name : String)
    (known : x.Knows array (.ptr q)) :
    Does s x (elemAddr array i name) fun a x' =>
      x'.Knows a (.ptr (q.child (min i 0x7FFFFFFF))) ∧ x'.memory = x.memory ∧ x'.work = x.work := by
  refine .bind index_does ?_
  rintro position x₁ goes ⟨isWord, memory, work, -⟩
  refine .write (.elemAddr .ptr name (goes.knows known).value isWord.value
    (elementIndex_capped i)) ?_
  rintro a p _ ⟨known', memory', -⟩
  exact ⟨known', memory'.trans memory, work⟩

/-- What a copy holds once a number of entries are copied. -/
def copied (entries items : List Value) (n : Nat) : List Value := entries.take n ++ items.drop n

theorem copied_succ {entries items : List Value} {n : Nat} {v : Value}
    (entry : entries[n]? = some v) (long : n < items.length) :
    (copied entries items n).set n v = copied entries items (n + 1) := by
  have inside := (List.getElem?_eq_some_iff.mp entry).1
  have length : (entries.take n).length = n := by simp; omega
  unfold copied
  rw [List.set_append_right _ _ (by omega), length, Nat.sub_self, List.take_add_one, entry,
    List.drop_eq_getElem_cons long, List.set_cons_zero, List.append_assoc]
  rfl

theorem eq_of_range_eq {n i : Nat} {done rest : List Nat}
    (parts : List.range n = done ++ i :: rest) : i = done.length ∧ done.length < n := by
  have there : (List.range n)[done.length]? = some i := by simp [parts]
  obtain ⟨inside, isIndex⟩ := List.getElem?_eq_some_iff.mp there
  simp only [List.length_range] at inside
  exact ⟨by simpa using isIndex.symm, inside⟩

theorem copyTable_does {table copy : ValueId} {g : GlobalId} {c : Cell} {k n : Nat}
    {entries items : List Value} (isTable : x.Knows table (.ptr (Region.global g).root))
    (isCopy : x.Knows copy (address k)) (shared : x.memory.globals[g.raw]? = some c)
    (holds : c.value = .agg entries) (written : ∀ v ∈ entries, v ≠ .undef)
    (cell : x.memory.heap[k]? = some (.agg items)) (here : entries.length = n)
    (long : n ≤ items.length) :
    Does s x (copyTable table copy n) fun _ x' => x'.work = x.work ∧ ∃ items',
      x'.memory = x.memory.put k (.agg items') ∧ items'.length = items.length ∧
      (n ≤ 0x80000000 → items' = copied entries items n) := by
  have inside := Memory.lt_of_heap cell
  refine (Does.forM (fun done x' => x'.work = x.work ∧ ∃ items',
    x'.memory = x.memory.put k (.agg items') ∧ items'.length = items.length ∧
    (n ≤ 0x80000000 → items' = copied entries items done.length)) _ ?_ ?_).mono ?_
  · exact ⟨rfl, items, (Memory.put_same cell).symm, rfl, fun _ => by simp [copied]⟩
  · intro done i rest parts x₁ goes₁ ⟨work, items₁, memory, length, isCopied⟩
    obtain ⟨rfl, more⟩ := eq_of_range_eq parts
    refine .bind index_does ?_
    rintro position x₂ goes₂ ⟨isWord, memory₂, work₂, -⟩
    have isIndex := elementIndex_capped done.length
    have isTable₂ := goes₂.knows (goes₁.knows isTable)
    refine .write_bind (.elemAddr .ptr "vslot.shared" isTable₂.value isWord.value isIndex) ?_
    rintro source p₃ goes₃ ⟨isSource, memory₃, -⟩
    obtain ⟨v, entry⟩ : ∃ v, entries[min done.length 0x7FFFFFFF]? = some v :=
      ⟨_, List.getElem?_eq_getElem (by omega)⟩
    have isMemory : p₃.memory = x.memory.put k (.agg items₁) :=
      memory₃.trans (memory₂.trans memory)
    have loaded : p₃.memory.load (p₃.values source) = .ok v := by
      rw [isSource.value, isMemory]
      exact Memory.load_global shared holds entry (written v (List.mem_of_getElem? entry))
    refine .write_bind (.load (p := p₃) .ptr "ventry" loaded) ?_
    rintro entryId p₄ goes₄ ⟨isEntry, memory₄, -⟩
    have isCopy₄ := goes₄.knows (goes₃.knows (goes₂.knows (goes₁.knows isCopy)))
    have isWord₄ := goes₄.knows (goes₃.knows isWord)
    refine .write_bind (.elemAddr (p := p₄) .ptr "vslot" isCopy₄.value isWord₄.value isIndex) ?_
    rintro slot p₅ goes₅ ⟨isSlot, memory₅, -⟩
    have isMemory₅ : p₅.memory = x.memory.put k (.agg items₁) :=
      memory₅.trans (memory₄.trans isMemory)
    have stored : p₅.memory.store (p₅.values slot) (p₅.values entryId) =
        .ok (x.memory.put k (.agg (items₁.set (min done.length 0x7FFFFFFF) v))) := by
      rw [isSlot.value, (goes₅.knows isEntry).value, isMemory₅,
        Memory.store_heap (Memory.heap_put inside _) (by omega), Memory.put_put]
    refine .write (.store (p := p₅) stored) ?_
    rintro _ p₆ _ ⟨-, memory₆, -⟩
    refine ⟨work₂.trans work, _, memory₆, by simpa using length, fun small => ?_⟩
    rw [Nat.min_eq_left (by omega)] at entry ⊢
    rw [isCopied small, copied_succ entry (by omega), List.length_append, List.length_singleton]
  · rintro _ x' _ ⟨work, items', memory, length, isCopied⟩
    exact ⟨work, items', memory, length, by simpa using isCopied⟩

end Emit

/-! ## Environments -/

/-- The body was called with the environment in an allocation: it has a field per slot. -/
def Stage.CalledWith (x : Stage) (j : Nat) : Prop :=
  ∀ current, x.frame.env = some current → x.Knows current.ptr (address j) ∧
    ∃ around items, x.work.registry.env? current.id = some around ∧
      x.memory.heap[j]? = some (.agg items) ∧ items.length = around.slots.length ∧
      ∀ v ∈ items, v ≠ .undef

theorem Stage.CalledWith.goes {s : Setup} {x x' : Stage} {j : Nat} {but : List Nat}
    (h : x.CalledWith j) (goes : x.Goes s x') (keeps : x.memory.Keeps but x'.memory)
    (apart : x.frame.env.isSome → j ∉ but) : x'.CalledWith j := by
  intro current here
  rw [goes.env] at here
  obtain ⟨known, around, items, isAround, cell, rest⟩ := h current here
  exact ⟨goes.knows known, around, items, goes.later.extends.registry.env _ _ isAround,
    keeps.heap j _ (apart (by simp [here])) cell, rest⟩

theorem Stage.CalledWith.old {x : Stage} {j : Nat} (h : x.CalledWith j)
    (called : x.frame.env.isSome) : j < x.memory.heap.size := by
  obtain ⟨current, here⟩ := Option.isSome_iff_exists.mp called
  obtain ⟨_, _, _, _, cell, _⟩ := h current here
  exact Memory.lt_of_heap cell

/-- An environment that is being filled, in the allocation `k`. -/
structure Filling (s : Setup) (e : Environment) (ptr : ValueId) (j k : Nat) (start : Memory)
    (x : Stage) : Prop where
  moment : Moment s x.work
  refers : e.Refers s.program
  fed : ∀ i feed, (i, feed) ∈ e.remap → e.Fed x.work.registry i feed
  called : x.CalledWith j
  isPtr : x.Knows ptr (address k)
  new : k < start.heap.size
  apart : x.frame.env.isSome → j ≠ k
  memory : ∃ items, x.memory = start.put k (.agg items) ∧ items.length = e.slots.length

namespace Filling

variable {s : Setup} {e : Environment} {ptr : ValueId} {j k : Nat} {start : Memory} {x x' : Stage}

theorem cell (h : Filling s e ptr j k start x) :
    ∃ items, x.memory.heap[k]? = some (.agg items) ∧ items.length = e.slots.length := by
  obtain ⟨items, memory, length⟩ := h.memory
  exact ⟨items, memory ▸ Memory.heap_put h.new _, length⟩

theorem goes (h : Filling s e ptr j k start x) (goes : x.Goes s x')
    (memory : ∃ items, x'.memory = start.put k (.agg items) ∧ items.length = e.slots.length) :
    Filling s e ptr j k start x' := by
  obtain ⟨items, isMemory, _⟩ := h.memory
  obtain ⟨items', isMemory', length'⟩ := memory
  have keeps : x.memory.Keeps [k] x'.memory := by
    have same : x'.memory = x.memory.put k (.agg items') := by
      rw [isMemory', isMemory, Memory.put_put]
    exact same ▸ Memory.keeps_put _ _ _
  refine ⟨h.moment.later goes.later, h.refers, fun i feed here => ?_, h.called.goes goes keeps ?_,
    goes.knows h.isPtr, h.new, goes.env ▸ h.apart, items', isMemory', length'⟩
  · obtain ⟨id, around, a, b, outer, known, rest⟩ := (h.fed i feed here).fed
    exact ⟨id, around, a, b, outer, goes.later.extends.registry.env _ _ known, rest⟩
  · simpa using h.apart

/-- What writes nothing leaves it so. -/
theorem same (h : Filling s e ptr j k start x) (goes : x.Goes s x')
    (memory : x'.memory = x.memory) : Filling s e ptr j k start x' :=
  h.goes goes (memory ▸ h.memory)

/-- Any field may be written. -/
theorem storeField {i : Nat} (h : Filling s e ptr j k start x) (inside : i < e.slots.length)
    (value : ValueId) : Emit.Does s x (Emit.storeField e.record ptr i value) fun _ x' =>
      Filling s e ptr j k start x' ∧ ∃ items v, x'.memory.heap[k]? = some (.agg items) ∧
        items[i]? = some v ∧ (value.raw < x.size → v = x.values value) := by
  obtain ⟨items, memory, length⟩ := h.memory
  have cell : x.memory.heap[k]? = some (.agg items) := memory ▸ Memory.heap_put h.new _
  refine (Emit.storeField_does e.record h.isPtr.value cell (by omega)).mono ?_
  rintro _ x' goes ⟨-, v, memory', isValue⟩
  have filling := h.goes goes ⟨items.set i v, by rw [memory', memory, Memory.put_put], by simpa⟩
  refine ⟨filling, items.set i v, v, ?_, by simp [length, inside], isValue⟩
  rw [memory', memory, Memory.put_put]
  exact Memory.heap_put h.new _

end Filling

namespace Emit

variable {s : Setup} {e : Environment} {ptr : ValueId} {j k : Nat} {start : Memory} {x : Stage}

theorem fillByScope_does (h : Filling s e ptr j k start x) {i : Nat} (inside : i < e.slots.length)
    (slot : EnvSlot) {n : Name} (refers : slot.origin ≠ .outer → s.program.Refers n) :
    Does s x (fillByScope e ptr slot i n) fun _ => Filling s e ptr j k start := by
  have found : Does s x (slotMeaning slot n) fun _ => Filling s e ptr j k start := by
    unfold slotMeaning
    split
    · refine .read fun a f w ran => ?_
      cases ran
      exact ⟨rfl, rfl, h⟩
    · refine .read fun a f w ran => ?_
      cases ran
      exact ⟨rfl, rfl, h⟩
  refine .bind found fun binding x₁ _ h₁ => ?_
  split
  · exact (h₁.storeField inside _).mono fun _ _ _ here => here.1
  · refine .write_bind (.const _ _) ?_
    rintro addr p goes ⟨-, memory, -⟩
    have goes' : x₁.Goes s (x₁.moved p) := ⟨.refl _, rfl, goes⟩
    exact ((h₁.same goes' memory).storeField inside _).mono fun _ _ _ here => here.1
  · refine .ite (fun isOwn => ?_) fun _ => .pure h₁
    have isText : Compile.Ends s x₁.work (Compile.text n) fun text _ => text = s.program.text n :=
      ⟨.refl _, rfl⟩
    refine .lift_bind isText fun text w _ same => ?_
    exact .fail (.throw (.inr ⟨n, same.symm, refers isOwn⟩))

theorem outerSource?_does (e : Environment) (slot : EnvSlot) (i : Nat) :
    Does s x (outerSource? e slot i) fun found x' => x' = x ∧
      ∀ current feed, found = some (current, feed) → x.frame.env = some current ∧
        e.outer = some current.id ∧ e.outerSlotFor i = some feed := by
  refine .get_bind ?_
  split
  · rename_i current feed isCurrent isFeed
    refine .pure ⟨rfl, fun current' feed' found => ?_⟩
    split at found
    · rename_i same
      cases found
      simp only [Bool.and_eq_true, decide_eq_true_eq] at same
      exact ⟨isCurrent, same.2, isFeed⟩
    · cases found
  · exact .pure ⟨rfl, fun _ _ found => by cases found⟩

/-- A slot that is taken over is fed from one that the environment around has. -/
theorem fillCapture_does (h : Filling s e ptr j k start x) {i : Nat} {slot : EnvSlot}
    (here : e.slots[i]? = some slot) :
    Does s x (fillCapture e ptr slot i) fun _ => Filling s e ptr j k start := by
  have inside := (List.getElem?_eq_some_iff.mp here).1
  unfold fillCapture
  split
  · exact .pure h
  · exact .pure h
  · exact .pure h
  · rename_i _ n isName notParam notReceiver
    refine .bind (outerSource?_does e slot i) ?_
    rintro found x₀ - ⟨rfl, isSource⟩
    split
    · rename_i current feed
      obtain ⟨isCurrent, isOuter, isFeed⟩ := isSource current feed rfl
      obtain ⟨isPtr, around, items, isAround, cell, length, written⟩ := h.called current isCurrent
      -- what feeds the slot is in range, for it is listed
      obtain ⟨v, item⟩ : ∃ v, items[feed]? = some v := by
        obtain ⟨entry, listed, same⟩ := Option.map_eq_some_iff.mp isFeed
        have isEntry : entry = (i, feed) := Prod.ext (by simpa using List.find?_some listed) same
        obtain ⟨id, around', _, b, outer, known, _, there, _⟩ :=
          (h.fed i feed (isEntry ▸ List.mem_of_find?_eq_some listed)).fed
        obtain rfl : current.id = id := Option.some.inj (isOuter.symm.trans outer)
        obtain rfl : around = around' := Option.some.inj (isAround.symm.trans known)
        have := (List.getElem?_eq_some_iff.mp there).1
        exact ⟨_, List.getElem?_eq_getElem (by omega)⟩
      refine .lift_bind ((Compile.env_walks _).ends h.moment) fun record w₁ there₁ _ => ?_
      have goes₁ : x₀.Goes s (x₀.later w₁) := ⟨there₁, rfl, .refl _⟩
      have h₁ := h.same goes₁ rfl
      refine .lift_bind ((Compile.text_walks n).ends h₁.moment) fun name w₂ there₂ _ => ?_
      have goes₂ : x₀.Goes s ((x₀.later w₁).later w₂) := ⟨there₁.trans there₂, rfl, .refl _⟩
      refine .bind (loadField_does _ _ (x := (x₀.later w₁).later w₂) isPtr.value cell item
        (written v (List.mem_of_getElem? item))) ?_
      rintro value x₃ goes₃ ⟨-, memory₃, -⟩
      have h₃ := h.same (goes₂.trans goes₃) memory₃
      exact (h₃.storeField inside value).mono fun _ _ _ here => here.1
    · refine fillByScope_does h inside slot fun notOuter => ?_
      refine h.refers slot (List.mem_of_getElem? here) ?_ n isName
      cases origin : slot.origin <;> simp_all

theorem fillCaptures_does (h : Filling s e ptr j k start x) :
    Does s x (fillCaptures e ptr) fun _ => Filling s e ptr j k start := by
  refine .forM (fun _ => Filling s e ptr j k start) _ h ?_
  rintro done ⟨slot, i⟩ rest parts x' _ h'
  exact fillCapture_does h' (of_zipIdx_append parts).1

theorem fillReceiver_does {given : ValueId} {v : Value} (h : Filling s e ptr j k start x)
    (isGiven : x.Knows given v) :
    Does s x (fillReceiver e ptr (some given)) fun _ x' => Filling s e ptr j k start x' ∧
      ∃ items, x'.memory.heap[k]? = some (.agg items) ∧
        ∀ r, e.receiverSlot = some r → items[r]? = some v := by
  unfold fillReceiver
  split
  · rename_i none
    obtain ⟨items, cell, _⟩ := h.cell
    exact .pure ⟨h, items, cell, fun r isSlot => by simp [none] at isSlot⟩
  · rename_i r isSlot
    obtain ⟨inside, _⟩ := List.findIdx?_eq_some_iff_getElem.mp isSlot
    refine .bind (Does.pure (Q := fun value x' => given = value ∧ x = x') ⟨rfl, rfl⟩) ?_
    rintro _ _ - ⟨rfl, rfl⟩
    refine (h.storeField inside _).mono ?_
    rintro _ x' _ ⟨h', items, u, cell, item, isValue⟩
    refine ⟨h', items, cell, fun r' isSlot' => ?_⟩
    obtain rfl : r = r' := Option.some.inj (isSlot.symm.trans isSlot')
    rw [item, isValue isGiven.inside]
    exact congrArg some isGiven.value

/-- A new environment has a field per slot, and nothing in it. -/
theorem allocEnv_bind {β : Type} {k : ValueId → Emit β} {Q : β → Stage → Prop}
    (moment : Moment s x.work)
    (record : x.work.code.types.fields? e.record = some (List.replicate e.slots.length .ptr))
    (rest : ∀ ptr p, x.Goes s (x.moved p) → p.Knows ptr (address x.memory.heap.size) →
      p.memory = x.memory.push (.agg (List.replicate e.slots.length .null)) →
      x.memory.Keeps [] p.memory → Does s (x.moved p) (k ptr) Q) :
    Does s x (liftM (Draft.alloc e.record "env") >>= k) Q := by
  have zero (types : TypeTable) (admitted : x.Admits types) :
      zeroValue types e.record = .agg (List.replicate e.slots.length .null) :=
    zeroValue_record (moment.get_ptr admitted) (TypeTable.fields?_of_grows admitted record)
  refine .write_bind (.alloc "env" zero) ?_
  rintro ptr p goes ⟨isPtr, memory, -⟩
  have keeps : x.memory.Keeps [] p.memory := by
    rw [memory]
    exact Memory.keeps_push _ _
  exact rest ptr p ⟨.refl _, rfl, goes⟩ isPtr memory keeps

/-- A new environment has a field per slot, and the object in the slot of the receiver. -/
theorem captureEnv_does {d : DeclId} {env : EnvId} {given : ValueId} {v : Value}
    (moment : Moment s x.work) (bound : x.work.registry.declEnv? d = some env)
    (called : x.CalledWith j) (isGiven : x.Knows given v) :
    Does s x (captureEnv env (some given)) fun ptr x' =>
      x'.Knows ptr (address x.memory.heap.size) ∧
      ∃ e items, x'.work.registry.env? env = some e ∧ x'.memory = x.memory.push (.agg items) ∧
        items.length = e.slots.length ∧ ∀ r, e.receiverSlot = some r → items[r]? = some v := by
  obtain ⟨e, known, owned⟩ := moment.declEnv_owner d env bound
  have formed := moment.formed known owned
  have isEnv : Compile.Ends s x.work (Compile.env env) fun e' w => e = e' ∧ x.work = w := by
    simp only [Compile.Ends, Compile.env_apply, known, and_self, and_true]
    exact .refl _
  refine .lift_bind isEnv ?_
  rintro _ _ - ⟨rfl, rfl⟩
  change Does s x _ _
  refine allocEnv_bind moment formed.record fun ptr p goes' isPtr isMemory keeps => ?_
  have filling : Filling s e ptr j x.memory.heap.size
      (x.memory.push (.agg (List.replicate e.slots.length .null))) (x.moved p) := by
    refine ⟨moment, moment.env_refers env e known, formed.fed,
      called.goes goes' keeps fun _ => List.not_mem_nil, isPtr, by simp, ?_,
      List.replicate e.slots.length .null, isMemory.trans (Memory.put_push _ _ _).symm, by simp⟩
    exact fun isCalled => Nat.ne_of_lt (called.old isCalled)
  refine .bind (fillCaptures_does filling) fun _ x₂ goes₂ filling₂ => ?_
  have isGiven₂ := goes₂.knows (goes'.knows isGiven)
  refine .bind (fillReceiver_does filling₂ isGiven₂) ?_
  rintro _ x₃ goes₃ ⟨filling₃, items, cell, receiver⟩
  obtain ⟨items', memory₃, length⟩ := filling₃.memory
  rw [Memory.put_push] at memory₃
  obtain rfl : items' = items := by
    rw [memory₃, Memory.heap_push] at cell
    simpa using cell
  refine .pure ⟨filling₃.isPtr, e, items', ?_, memory₃, length, receiver⟩
  exact (goes₂.trans goes₃).later.extends.registry.env _ _ known

theorem makeClosure_does {c : CompiledFunction} {d : DeclId} {env : ValueId} {v : Value}
    (standard : s.runtime = startModule.1) (moment : Moment s x.work) (made : x.work.Made c)
    (isEnv : x.Knows env v) : Does s x (makeClosure c d env none) fun closure x' =>
      x'.Knows closure.ptr (address x.memory.heap.size) ∧
      x'.memory = x.memory.push (.agg [.func c.func, v]) := by
  have isRuntime : Compile.Ends s x.work Compile.runtime fun rt w =>
      startModule.1 = rt ∧ x.work = w := ⟨.refl _, standard.symm, rfl⟩
  refine .lift_bind isRuntime ?_
  rintro _ _ - ⟨rfl, rfl⟩
  refine .lift_bind (bindClosure_ends made d) fun _ w there _ => ?_
  have moment' := moment.later there.later
  refine .write_bind (.alloc "closure" fun types admitted => moment'.zeroValue_closure admitted) ?_
  rintro ptr p₁ goes₁ ⟨isPtr, memory₁, -⟩
  refine .write_bind (.const (p := p₁) (.func c.func) "fnaddr") ?_
  rintro code p₂ goes₂ ⟨isCode, memory₂, -⟩
  have isPtr₂ : p₂.Knows ptr (address x.memory.heap.size) := goes₂.knows isPtr
  have isMemory : p₂.memory = x.memory.push (.agg [.null, .null]) := memory₂.trans memory₁
  have cell : p₂.memory.heap[x.memory.heap.size]? = some (.agg [.null, .null]) := by
    rw [isMemory, Memory.heap_push]
  refine .bind (storeField_does _ (x := ((x.later w).moved p₁).moved p₂) isPtr₂.value cell
    (by simp)) ?_
  rintro _ x₃ goes₃ ⟨-, v₃, memory₃, isValue₃⟩
  obtain rfl : v₃ = .func c.func := (isValue₃ isCode.inside).trans isCode.value
  replace memory₃ : x₃.memory = x.memory.push (.agg [.func c.func, .null]) := by
    rw [memory₃]
    change p₂.memory.put _ _ = _
    rw [isMemory, Memory.put_push]
    rfl
  have cell₃ : x₃.memory.heap[x.memory.heap.size]? = some (.agg [.func c.func, .null]) := by
    rw [memory₃, Memory.heap_push]
  refine .bind (storeField_does _ (goes₃.knows isPtr₂).value cell₃ (by simp)) ?_
  rintro _ x₄ goes₄ ⟨-, v₄, memory₄, isValue₄⟩
  have isEnv₃ := goes₃.knows (goes₂.knows (goes₁.knows isEnv))
  obtain rfl : v₄ = v := (isValue₄ isEnv₃.inside).trans isEnv₃.value
  refine .pure ⟨goes₄.knows (goes₃.knows isPtr₂), ?_⟩
  rw [memory₄, memory₃, Memory.put_push]
  rfl

end Emit

/-! ## Overriding methods -/

/-- It was so at some moment before. -/
def Work.Once (s : Setup) (w : Work) (P : Work → Prop) : Prop :=
  ∃ w₁, Moment s w₁ ∧ Later s w₁ w ∧ P w₁

theorem Work.Once.later {s : Setup} {w w' : Work} {P : Work → Prop} (h : Once s w P)
    (later : Later s w w') : Once s w' P := by
  obtain ⟨w₁, moment, before, here⟩ := h
  exact ⟨w₁, moment, before.trans later, here⟩

/-- The body of a method, as it was compiled for a class. -/
def CompiledFor (s : Setup) (w : Work) (cls m : DeclId) (c : CompiledFunction) : Prop :=
  Once s w fun w₁ => ∃ key : FunctionKey, key.subject = .function m ∧
    key.receiverClass = some cls ∧ w₁.functions.get? key = some c

/-- The function was made to stand for a method of a class in tables. -/
def StandsFor (s : Setup) (w : Work) (cls : DeclId) (n : Name) (func : FuncId) : Prop :=
  Once s w fun w₁ => w₁.overrides.get? (cls, n) = some func

/-- Since a state, the body of a function was asked for, for the declared parameters and, if it is a
method, for a class. -/
def AskedSince (s : Setup) (base w : Work) (cls : Option DeclId) (m : DeclId)
    (c : CompiledFunction) :
    Prop :=
  ∃ (l : Lowering) (w₀ w₁ : Work), l.Walks s ∧ Moment s w₀ ∧ Reaches s base w₀ ∧
    l.body (.function m) cls [] s w₀ = .ok c w₁ ∧ Later s w₁ w

namespace AskedSince

variable {s : Setup} {base w : Work} {cls : Option DeclId} {m : DeclId} {c : CompiledFunction}

theorem later {w' : Work} (h : AskedSince s base w cls m c) (later : Later s w w') :
    AskedSince s base w' cls m c := by
  obtain ⟨l, w₀, w₁, hl, moment, there, ran, before⟩ := h
  exact ⟨l, w₀, w₁, hl, moment, there, ran, before.trans later⟩

theorem earlier {first : Work} (h : AskedSince s base w cls m c) (there : Reaches s first base) :
    AskedSince s first w cls m c := by
  obtain ⟨l, w₀, w₁, hl, moment, since, ran, before⟩ := h
  exact ⟨l, w₀, w₁, hl, moment, there.trans since, ran, before⟩

/-- What was asked for is compiled. -/
theorem compiledFor {cls : DeclId} (h : AskedSince s base w (some cls) m c) :
    CompiledFor s w cls m c := by
  obtain ⟨l, w₀, w₁, hl, moment, _, ran, before⟩ := h
  obtain ⟨there, key, isSubject, isClass, recorded⟩ :=
    (hl.body moment (.function m) (some cls) []).of_ok ran
  exact ⟨w₁, moment.later there.later, before, key, isSubject, isClass, recorded⟩

end AskedSince

/-- What an object holds of a method that its class overrides: an environment with the object in it,
and behind it a closure of the method's body, which was asked for since a state. -/
structure Held (s : Setup) (base w : Work) (mem : Memory) (cls m : DeclId) (this : Value)
    (c : CompiledFunction) (e : Environment) (fields : List Value) (k : Nat) : Prop where
  asked : AskedSince s base w (some cls) m c
  bound : w.registry.declEnv? m = some c.env
  env : w.registry.env? c.env = some e
  cell : mem.heap[k]? = some (.agg fields)
  pair : mem.heap[k + 1]? = some (.agg [.func c.func, address k])
  length : fields.length = e.slots.length
  receiver : ∀ r, e.receiverSlot = some r → fields[r]? = some this

theorem Held.compiled {s : Setup} {base w : Work} {mem : Memory} {cls m : DeclId} {this : Value}
    {c : CompiledFunction} {e : Environment} {fields : List Value} {k : Nat}
    (h : Held s base w mem cls m this c e fields k) : CompiledFor s w cls m c := h.asked.compiledFor

theorem Held.earlier {s : Setup} {first base w : Work} {mem : Memory}
    {cls m : DeclId} {this : Value}
    {c : CompiledFunction} {e : Environment} {fields : List Value} {k : Nat}
    (h : Held s base w mem cls m this c e fields k) (there : Reaches s first base) :
    Held s first w mem cls m this c e fields k := { h with asked := h.asked.earlier there }

theorem Held.later {s : Setup} {base w w' : Work} {mem mem' : Memory}
    {cls m : DeclId} {this : Value}
    {c : CompiledFunction} {e : Environment} {fields : List Value} {k : Nat} {but : List Nat}
    (h : Held s base w mem cls m this c e fields k) (later : Later s w w')
    (keeps : mem.Keeps but mem')
    (apart : ∀ j ∈ but, j < k) : Held s base w' mem' cls m this c e fields k := by
  have notBut (j : Nat) (atLeast : k ≤ j) : j ∉ but := fun inside => by
    have := apart j inside
    omega
  exact ⟨h.asked.later later, later.extends.registry.declEnv _ _ h.bound,
    later.extends.registry.env _ _ h.env, keeps.heap k _ (notBut k (by omega)) h.cell,
    keeps.heap (k + 1) _ (notBut (k + 1) (by omega)) h.pair, h.length, h.receiver⟩

namespace Emit

variable {s : Setup} {x : Stage} {l : Lowering} {cls m : DeclId} {n : Name} {j k : Nat}

theorem closureOf_does {c : CompiledFunction} {obj : ValueId} {v : Value}
    (standard : s.runtime = startModule.1) (moment : Moment s x.work) (made : x.work.Made c)
    (bound : x.work.registry.declEnv? m = some c.env) (called : x.CalledWith j)
    (isObj : x.Knows obj v) :
    Does s x (closureOf c m (some obj)) fun closure x' =>
      x'.Knows closure.ptr (address (x.memory.heap.size + 1)) ∧
      ∃ e fields, x'.work.registry.env? c.env = some e ∧ fields.length = e.slots.length ∧
        (∀ r, e.receiverSlot = some r → fields[r]? = some v) ∧
        x'.memory = (x.memory.push (.agg fields)).push
          (.agg [.func c.func, address x.memory.heap.size]) := by
  refine .bind (captureEnv_does moment bound called isObj) ?_
  rintro env x₁ goes₁ ⟨isEnv, e, fields, known, memory₁, length, receiver⟩
  refine (makeClosure_does standard (moment.later goes₁.later) (goes₁.reaches.made_stays made)
    isEnv).mono ?_
  rintro closure x₂ goes₂ ⟨isClosure, memory₂⟩
  rw [memory₁] at isClosure memory₂
  rw [Memory.size_push] at isClosure
  exact ⟨isClosure, e, fields, goes₂.later.extends.registry.env _ _ known, length,
    receiver, memory₂⟩

/-- Writes an element of a table. -/
theorem storeElem_does {value slot : ValueId} {items : List Value} {v : Value} {i : Nat}
    (isSlot : x.values slot = element k i) (isValue : x.values value = v)
    (cell : x.memory.heap[k]? = some (.agg items)) (inside : i < items.length) :
    Does s x (liftM (Draft.store value slot)) fun _ x' => x'.work = x.work ∧
      x'.memory = x.memory.put k (.agg (items.set i v)) := by
  have stored : x.memory.store (x.values slot) (x.values value) =
      .ok (x.memory.put k (.agg (items.set i v))) := by
    rw [isSlot, isValue]
    exact Memory.store_heap cell inside v
  refine .write (.store (p := x.point) stored) ?_
  rintro _ p _ ⟨-, memory, -⟩
  exact ⟨rfl, memory⟩

theorem patchSlot_does {t : MethodTable} {overrides : List (Name × DeclId × Nat)} {slot q : Nat}
    {obj copy : ValueId} {v : Value} {items : List Value} (standard : s.runtime = startModule.1)
    (hl : l.Walks s) (moment : Moment s x.work) (overriding : Overriding s cls t overrides)
    (here : overrides[q]? = some (n, m, slot)) (called : x.CalledWith j)
    (isObj : x.Knows obj v) (isCopy : x.Knows copy (address k))
    (cell : x.memory.heap[k]? = some (.agg items)) (inside : slot < items.length)
    (behind : t.length + q < items.length) :
    Does s x (patchSlot l cls obj copy n m slot (t.length + q)) fun _ x' =>
      ∃ func c e fields items', StandsFor s x'.work cls n func ∧
        Held s x.work x'.work x'.memory cls m v c e fields x.memory.heap.size ∧
        x'.memory.heap[k]? = some (.agg items') ∧ items'.length = items.length ∧
        (items.length ≤ 0x80000000 → items' = (items.set (t.length + q)
          (address (x.memory.heap.size + 1))).set slot (.func func)) ∧
        x.memory.Arranges [k] x'.memory := by
  have compiled : Compile.Ends s x.work (l.body (.function m) (some cls) []) fun c w =>
      AskedSince s x.work w (some cls) m c ∧ w.Made c ∧ w.registry.declEnv? m = some c.env := by
    refine (hl.body moment (.function m) (some cls) []).ran.mono ?_
    rintro c w there ⟨ran, key, isSubject, -, recorded⟩
    refine ⟨⟨l, x.work, w, hl, moment, .refl _, ran, .same⟩, ⟨key, recorded⟩, ?_⟩
    have := ((moment.later there.later).function_made key c recorded).1
    rwa [isSubject] at this
  refine .lift_bind compiled ?_
  rintro c w₁ there₁ ⟨asked, made, bound⟩
  have moment₁ := moment.later there₁.later
  have goes₁ : x.Goes s (x.later w₁) := ⟨there₁, rfl, .refl _⟩
  have called₁ : (x.later w₁).CalledWith j :=
    called.goes goes₁ (.refl [] _) fun _ => List.not_mem_nil
  refine .bind (closureOf_does standard moment₁ made bound called₁ isObj) ?_
  rintro closure x₂ goes₂ ⟨isClosure, e, fields, known, length, receiver, memory₂⟩
  replace memory₂ : x₂.memory = (x.memory.push (.agg fields)).push
    (.agg [.func c.func, address x.memory.heap.size]) := memory₂
  have moment₂ := moment₁.later goes₂.later
  have bound₂ := goes₂.later.extends.registry.declEnv _ _ bound
  refine .lift_bind (Compile.trampoline_ends moment₂ overriding here bound₂) ?_
  intro func w₃ there₃ recorded
  have goes₃ : x.Goes s (x₂.later w₃) := (goes₁.trans goes₂).trans ⟨there₃, rfl, .refl _⟩
  -- the closure and its environment are new, so the table is where it was
  have keeps₂ : x.memory.Arranges [] x₂.memory := by
    rw [memory₂]
    exact (Memory.arranges_push _ _).trans (Memory.arranges_push _ _)
  have cell₂ := keeps₂.heap k _ List.not_mem_nil cell
  have inHeap := Memory.lt_of_heap cell
  refine .bind (elemAddr_does _ "vclosure" (goes₃.knows isCopy)) ?_
  rintro held x₄ goes₄ ⟨isHeld, memory₄, work₄⟩
  have isClosure₄ := goes₄.knows (x := x₂.later w₃) isClosure
  refine .bind (storeElem_does isHeld.value isClosure₄.value (memory₄ ▸ cell₂) (by omega)) ?_
  rintro _ x₅ goes₅ ⟨work₅, memory₅⟩
  have goes₃₅ := goes₄.trans goes₅
  refine .bind (elemAddr_does _ "vslot" (goes₃₅.knows (goes₃.knows isCopy))) ?_
  rintro entry x₆ goes₆ ⟨isEntry, memory₆, work₆⟩
  refine .write_bind (.const (.func func) "fnaddr") ?_
  rintro code p₇ goes₇ ⟨isCode, memory₇, -⟩
  have memory₇' : p₇.memory = x₂.memory.put k (.agg (items.set (min (t.length + q) 0x7FFFFFFF)
      (address (x.memory.heap.size + 1)))) := by
    rw [memory₇]
    exact memory₆.trans (memory₅.trans (by rw [memory₄]; rfl))
  have cell₇ := Memory.heap_put (Memory.lt_of_heap cell₂) (.agg (items.set
      (min (t.length + q) 0x7FFFFFFF) (address (x.memory.heap.size + 1))))
  rw [← memory₇'] at cell₇
  have goes₆' : x₆.Goes s (x₆.moved p₇) := ⟨.refl _, rfl, goes₇⟩
  refine (storeElem_does (x := x₆.moved p₇) (goes₆'.knows isEntry).value isCode.value cell₇
    (by rw [List.length_set]; omega)).mono ?_
  rintro _ x₈ goes₈ ⟨work₈, memory₈⟩
  have goes₃₈ := ((goes₃₅.trans goes₆).trans goes₆').trans goes₈
  replace memory₈ : x₈.memory = x₂.memory.put k (.agg ((items.set (min (t.length + q) 0x7FFFFFFF)
      (address (x.memory.heap.size + 1))).set (min slot 0x7FFFFFFF) (.func func))) := by
    rw [memory₈]
    change p₇.memory.put _ _ = _
    rw [memory₇', Memory.put_put]
    rfl
  have keeps₈ : x₂.memory.Arranges [k] x₈.memory := memory₈ ▸ Memory.arranges_put cell₂ _
  have standing : StandsFor s x₈.work cls n func :=
    ⟨w₃, moment₂.later there₃.later, goes₃₈.later, recorded⟩
  have new : Held s x.work x₂.work x₂.memory cls m v c e fields x.memory.heap.size := by
    refine ⟨asked.later goes₂.later, bound₂, known, ?_, ?_, length, receiver⟩
    · rw [memory₂]
      exact Memory.heap_push_lt _ (Memory.heap_push _ _)
    · have last := Memory.heap_push (x.memory.push (.agg fields))
        (.agg [.func c.func, address x.memory.heap.size])
      rwa [Memory.size_push, ← memory₂] at last
  refine ⟨func, c, e, fields, _, standing, new.later (there₃.later.trans goes₃₈.later)
    keeps₈.toKeeps ?_,
    memory₈ ▸ Memory.heap_put (Memory.lt_of_heap cell₂) _, by simp, fun small => ?_,
    (keeps₂.weaken (by simp)).trans keeps₈⟩
  · simpa using inHeap
  · rw [Nat.min_eq_left (by omega), Nat.min_eq_left (by omega)]

end Emit

/-! ## Whole tables -/

/-- The table of an object, in the allocation `k`, once some of the overriding methods are dealt
with: their slots are replaced if no two have the same, and their closures stand behind the entries;
the other slots are those of the shared table. In a table so long that not every position fits a
word, any entry may stand anywhere. -/
structure Patched (s : Setup) (base : Work) (t : MethodTable)
    (overrides : List (Name × DeclId × Nat)) (cls : DeclId) (this : Value) (entries : List Value)
    (done : Nat) (w : Work) (mem : Memory) (k : Nat) (items : List Value) : Prop where
  cell : mem.heap[k]? = some (.agg items)
  length : items.length = t.length + overrides.length
  replaced : t.length + overrides.length ≤ 0x80000000 → (overrides.map (·.2.2)).Nodup →
    ∀ q n m slot, q < done → overrides[q]? = some (n, m, slot) → ∃ func c e fields j, k < j ∧
      StandsFor s w cls n func ∧
      Held s base w mem cls m this c e fields j ∧ items[slot]? = some (.func func) ∧
      items[t.length + q]? = some (address (j + 1))
  others : t.length + overrides.length ≤ 0x80000000 → ∀ i, i < t.length →
    (∀ q n m, q < done → overrides[q]? ≠ some (n, m, i)) → items[i]? = entries[i]?

theorem Patched.earlier {s : Setup} {first base w : Work} {t : MethodTable}
    {overrides : List (Name × DeclId × Nat)} {cls : DeclId} {this : Value}
    {entries items : List Value}
    {done k : Nat} {mem : Memory} (h : Patched s base t overrides cls this entries
    done w mem k items)
    (there : Reaches s first base) :
    Patched s first t overrides cls this entries done w mem k items := by
  refine ⟨h.cell, h.length, fun small slots q n m slot before here => ?_, h.others⟩
  obtain ⟨func, c, e, fields, j, behind, standing, held, holds⟩ :=
    h.replaced small slots q n m slot before here
  exact ⟨func, c, e, fields, j, behind, standing, held.earlier there, holds⟩

/-- One more method is dealt with. -/
theorem Patched.succ {s : Setup} {t : MethodTable} {overrides : List (Name × DeclId × Nat)}
    {cls m : DeclId} {this : Value} {entries items items' : List Value} {q k j slot : Nat}
    {base w w' : Work}
    {mem mem' : Memory} {n : Name} {func : FuncId} {c : CompiledFunction} {e : Environment}
    {fields : List Value} (h : Patched s base t overrides cls this entries q w mem k items)
    (inTable : ∀ o ∈ overrides, o.2.2 < t.length)
    (here : overrides[q]? = some (n, m, slot)) (later : Later s w w') (keeps : mem.Keeps [k] mem')
    (standing : StandsFor s w' cls n func) (held : Held s base w' mem' cls m this c e fields j)
    (behind : k < j) (cell : mem'.heap[k]? = some (.agg items'))
    (same : items'.length = items.length)
    (patched : t.length + overrides.length ≤ 0x80000000 →
      items' = (items.set (t.length + q) (address (j + 1))).set slot (.func func)) :
    Patched s base t overrides cls this entries (q + 1) w' mem' k items' := by
  have inside := (List.getElem?_eq_some_iff.mp here).1
  have slotInside : slot < t.length := inTable _ (List.mem_of_getElem? here)
  have length := h.length
  refine ⟨cell, same.trans length, ?_, ?_⟩
  · intro small slots
    rw [patched small]
    -- no other method has the slot
    have other (q' : Nat) (o : Name × DeclId × Nat) (apart : q' ≠ q)
      (there : overrides[q']? = some o) :
        o.2.2 ≠ slot := by
      intro same
      have equal : (overrides.map (·.2.2))[q']? = (overrides.map (·.2.2))[q]? := by
        simp [there, here, same]
      have inside' := (List.getElem?_eq_some_iff.mp there).1
      exact apart ((List.getElem?_inj (by simpa using inside') slots).mp equal)
    intro q' n' m' slot' before there
    by_cases last : q' = q
    · subst last
      rw [here] at there
      cases there
      refine ⟨func, c, e, fields, j, behind, standing, held, ?_, ?_⟩
      · rw [List.getElem?_set_self (by simp; omega)]
      · rw [List.getElem?_set_ne (by omega), List.getElem?_set_self (by omega)]
    · obtain ⟨func', c', e', fields', j', behind', standing', held', slotHolds, closureHolds⟩ :=
        h.replaced small slots q' n' m' slot' (by omega) there
      have slot'Inside : slot' < t.length := inTable _ (List.mem_of_getElem? there)
      have slotApart : slot' ≠ slot := other q' _ last there
      refine ⟨func', c', e', fields', j', behind', standing'.later later,
        held'.later later keeps (by simpa using behind'), ?_, ?_⟩
      · rw [List.getElem?_set_ne (Ne.symm slotApart), List.getElem?_set_ne (by omega)]
        exact slotHolds
      · rw [List.getElem?_set_ne (by omega), List.getElem?_set_ne (by omega)]
        exact closureHolds
  · intro small i isEntry free
    rw [patched small]
    have apart : slot ≠ i := by
      rintro rfl
      exact free q n m (by omega) here
    rw [List.getElem?_set_ne apart, List.getElem?_set_ne (by omega)]
    exact h.others small i isEntry fun q' n' m' before => free q' n' m' (by omega)

namespace Emit

variable {s : Setup} {x : Stage} {l : Lowering} {cls : DeclId} {t : MethodTable}
  {overrides : List (Name × DeclId × Nat)} {j k : Nat}

/-- All overriding methods are dealt with, one after the other. -/
theorem patchSlots_does {obj copy : ValueId} {v : Value} {entries items : List Value}
    (standard : s.runtime = startModule.1) (hl : l.Walks s) (moment : Moment s x.work)
    (overriding : Overriding s cls t overrides)
    (inTable : ∀ o ∈ overrides, o.2.2 < t.length) (called : x.CalledWith j)
    (apart : x.frame.env.isSome → j ≠ k) (isObj : x.Knows obj v)
    (isCopy : x.Knows copy (address k)) (cell : x.memory.heap[k]? = some (.agg items))
    (length : items.length = t.length + overrides.length)
    (copied : t.length + overrides.length ≤ 0x80000000 → ∀ i, i < t.length →
    items[i]? = entries[i]?) :
    Does s x ((overrides.zipIdx t.length).forM fun ((n, m, slot), closureSlot) =>
      patchSlot l cls obj copy n m slot closureSlot) fun _ x' => x.memory.Arranges [k] x'.memory ∧
        ∃ items', Patched s x.work t overrides cls v entries overrides.length x'.work
        x'.memory k items' := by
  have start : Patched s x.work t overrides cls v entries 0 x.work x.memory k items :=
    ⟨cell, length, fun _ _ q n m slot before => absurd before (by omega),
      fun small i inside _ => copied small i inside⟩
  refine (Does.forM (fun done x' => x.memory.Arranges [k] x'.memory ∧
    ∃ items', Patched s x.work t overrides cls v entries done.length x'.work x'.memory k items') _
    ⟨.refl _ _, items, start⟩ ?_).mono ?_
  · rintro done ⟨⟨n, m, slot⟩, closureSlot⟩ rest parts x₁ goes₁ ⟨keeps₁, items₁, patched₁⟩
    have there : (overrides.zipIdx t.length)[done.length]? = some ((n, m, slot), closureSlot) := by
      simp [parts]
    obtain ⟨here, rfl⟩ : overrides[done.length]? = some (n, m, slot) ∧
        t.length + done.length = closureSlot := by
      rw [List.getElem?_zipIdx] at there
      obtain ⟨o, isOverride, same⟩ := Option.map_eq_some_iff.mp there
      cases same
      exact ⟨isOverride, by omega⟩
    have inside := (List.getElem?_eq_some_iff.mp here).1
    have slotInside : slot < t.length := inTable _ (List.mem_of_getElem? here)
    have length₁ := patched₁.length
    refine (patchSlot_does standard hl (moment.later goes₁.later) overriding here
      (called.goes goes₁ keeps₁.toKeeps (by simpa using apart)) (goes₁.knows isObj)
      (goes₁.knows isCopy) patched₁.cell (by omega) (by omega)).mono ?_
    rintro _ x₂ goes₂ ⟨func, c, e, fields, items₂, standing, held, cell₂, same₂, set₂, keeps₂⟩
    have patched₂ := patched₁.succ inTable here goes₂.later keeps₂.toKeeps standing
      (held.earlier goes₁.reaches) (Memory.lt_of_heap patched₁.cell) cell₂ same₂
      fun small => set₂ (by omega)
    exact ⟨keeps₁.trans keeps₂, _, by simpa using patched₂⟩
  · rintro _ x' _ ⟨keeps, items', patched⟩
    rw [List.length_zipIdx] at patched
    exact ⟨keeps, items', patched⟩

/-- What an object points at once it has its table. -/
inductive Installed (s : Setup) (base : Work) (t : MethodTable)
    (overrides : List (Name × DeclId × Nat)) (cls : DeclId) (o : Nat) (rest entries : List Value)
    (mem : Memory) (w : Work) (mem' : Memory) : Prop where
  /-- The class overrides nothing. -/
  | shared (none : overrides = [])
    (memory : mem' = mem.put o (.agg (.ptr (Region.global t.global).root :: rest))) :
    Installed s base t overrides cls o rest entries mem w mem'
  /-- The object has a table of its own. -/
  | own {k : Nat} {items : List Value} (some : overrides ≠ []) (new : mem.heap.size ≤ k)
    (keeps : mem.Arranges [o] mem') (object : mem'.heap[o]? = .some (.agg (address k :: rest)))
    (table : Patched s base t overrides cls (address o) entries overrides.length w mem' k items) :
    Installed s base t overrides cls o rest entries mem w mem'

theorem Installed.earlier {first base w : Work} {mem mem' : Memory} {o : Nat}
    {rest entries : List Value}
    (h : Installed s base t overrides cls o rest entries mem w mem')
    (there : Reaches s first base) :
    Installed s first t overrides cls o rest entries mem w mem' := by
  cases h with
  | shared none memory => exact .shared none memory
  | own some new keeps object table => exact .own some new keeps object (table.earlier there)

variable {obj table : ValueId} {o : Nat} {first : Value} {rest entries : List Value} {c : Cell}

/-- A new table, with the entries of the shared one and room behind them, and what is done with
it. -/
theorem copyTable_bind {β : Type} {next : ValueId → Emit β} {Q : β → Stage → Prop}
    (more : Nat) (moment : Moment s x.work)
    (isTable : x.Knows table (.ptr (Region.global t.global).root))
    (shared : x.memory.globals[t.global.raw]? = some c) (holds : c.value = .agg entries)
    (entriesLength : entries.length = t.length) (written : ∀ v ∈ entries, v ≠ .undef)
    (then_ : ∀ copy x' items, x.Goes s x' → x'.Knows copy (address x.memory.heap.size) →
      x'.memory = x.memory.push (.agg items) → items.length = t.length + more →
      (t.length + more ≤ 0x80000000 → ∀ i, i < t.length → items[i]? = entries[i]?) →
      Does s x' (next copy) Q) :
    Does s x (do
      let own ← Compile.types (·.array .ptr (t.length + more))
      let copy ← Draft.alloc own "vtable.copy"
      copyTable table copy t.length
      next copy) Q := by
  have isArray : Compile.Ends s x.work (Compile.types (·.array .ptr (t.length + more)))
      fun array w => w.code.types.get array = .array .ptr (t.length + more) :=
    Compile.intern_ends (fun _ => rfl) (TypeTable.get_intern _ _)
  refine .lift_bind isArray fun array w₁ there₁ isArray => ?_
  have goes₁ : x.Goes s (x.later w₁) := ⟨there₁, rfl, .refl _⟩
  have moment₁ := moment.later there₁.later
  have zero : ∀ types, w₁.code.types.Grows types → zeroValue types array =
      .agg (List.replicate (t.length + more) .null) := fun types admitted =>
    zeroValue_array (moment₁.get_ptr admitted)
      (TypeTable.get_of_grows admitted isArray (by simp) (by simp))
  refine .write_bind (.alloc "vtable.copy" zero) ?_
  rintro copy p₂ goes₂ ⟨isCopy, memory₂, -⟩
  have goes₂' : x.Goes s ((x.later w₁).moved p₂) := goes₁.trans ⟨.refl _, rfl, goes₂⟩
  have isMemory₂ : p₂.memory =
      x.memory.push (.agg (List.replicate (t.length + more) .null)) := memory₂
  have cell₂ : p₂.memory.heap[x.memory.heap.size]? =
      some (.agg (List.replicate (t.length + more) .null)) := by
    rw [isMemory₂, Memory.heap_push]
  have shared₂ : p₂.memory.globals[t.global.raw]? = some c := by
    rw [isMemory₂]
    exact shared
  have isCopy₂ : p₂.Knows copy (address x.memory.heap.size) := isCopy
  refine .bind (copyTable_does (x := (x.later w₁).moved p₂) (goes₂'.knows isTable) isCopy₂ shared₂
    holds written cell₂ entriesLength (by simp)) ?_
  rintro _ x₃ goes₃ ⟨-, items, memory₃, length, copied⟩
  rw [List.length_replicate] at length
  refine then_ copy x₃ items (goes₂'.trans goes₃) (goes₃.knows isCopy) ?_ length
    fun small i inside => ?_
  · rw [memory₃]
    change p₂.memory.put _ _ = _
    rw [isMemory₂, Memory.put_push]
  · rw [copied (by omega), Emit.copied, List.getElem?_append_left (by simp; omega),
      List.getElem?_take_of_lt inside]

/-- The object gets a table of its own, in which the methods that are overridden are replaced. -/
theorem ownTable_does (record : TyId) (standard : s.runtime = startModule.1) (hl : l.Walks s)
    (moment : Moment s x.work) (overriding : Overriding s cls t overrides) (some : overrides ≠ [])
    (inTable : ∀ o ∈ overrides, o.2.2 < t.length) (called : x.CalledWith j)
    (apart : x.frame.env.isSome → j ≠ o) (isObj : x.Knows obj (address o))
    (object : x.memory.heap[o]? = .some (.agg (first :: rest)))
    (isTable : x.Knows table (.ptr (Region.global t.global).root))
    (shared : x.memory.globals[t.global.raw]? = .some c) (holds : c.value = .agg entries)
    (entriesLength : entries.length = t.length) (written : ∀ v ∈ entries, v ≠ .undef) :
    Does s x (do
      let own ← Compile.types (·.array .ptr (t.length + overrides.length))
      let copy ← Draft.alloc own "vtable.copy"
      copyTable table copy t.length
      storeField record obj 0 copy
      (overrides.zipIdx t.length).forM fun ((n, m, slot), closureSlot) =>
        patchSlot l cls obj copy n m slot closureSlot) fun _ x' =>
      Installed s x.work t overrides cls o rest entries x.memory x'.work x'.memory := by
  refine copyTable_bind overrides.length moment isTable shared holds entriesLength written ?_
  intro copy x₁ items₁ goes₁ isCopy memory₁ length₁ copied₁
  have keeps₁ : x.memory.Arranges [] x₁.memory := memory₁ ▸ Memory.arranges_push _ _
  have object₁ := keeps₁.heap o _ List.not_mem_nil object
  refine .bind (storeField_does record (goes₁.knows isObj).value object₁ (by simp)) ?_
  rintro _ x₂ goes₂ ⟨-, v, memory₂, isValue⟩
  obtain rfl : v = address x.memory.heap.size := (isValue isCopy.inside).trans isCopy.value
  have goes₂' := goes₁.trans goes₂
  have inHeap := Memory.lt_of_heap object
  have keeps₁₂ : x₁.memory.Arranges [o] x₂.memory := memory₂ ▸ Memory.arranges_put object₁ _
  have keeps₂ : x.memory.Arranges [o] x₂.memory := (keeps₁.weaken (by simp)).trans keeps₁₂
  have cell₂ : x₂.memory.heap[x.memory.heap.size]? = .some (.agg items₁) := by
    refine keeps₁₂.heap _ _ (by simp; omega) ?_
    rw [memory₁, Memory.heap_push]
  have called₂ := called.goes goes₂' keeps₂.toKeeps (by simpa using apart)
  have apart₂ : x₂.frame.env.isSome → j ≠ x.memory.heap.size := fun isCalled =>
    Nat.ne_of_lt (called.old (goes₂'.env ▸ isCalled))
  refine (patchSlots_does standard hl (moment.later goes₂'.later) overriding inTable called₂
    apart₂ (goes₂'.knows isObj) (goes₂.knows isCopy) cell₂ length₁ copied₁).mono ?_
  rintro _ x₃ goes₃ ⟨keeps₃, items, patched⟩
  refine .own some (Nat.le_refl _) ?_ ?_ (patched.earlier goes₂'.reaches)
  · -- the table is new, so nothing that was there changes but the object
    refine ⟨⟨keeps₃.globals.trans keeps₂.globals, Nat.le_trans keeps₂.size keeps₃.size, ?_⟩,
      keeps₃.boxes.trans keeps₂.boxes⟩
    intro i u notObject there
    have := Memory.lt_of_heap there
    exact keeps₃.heap i u (by simp; omega) (keeps₂.heap i u notObject there)
  · refine keeps₃.heap o _ (by simp; omega) ?_
    rw [memory₂]
    exact Memory.heap_put (Memory.lt_of_heap object₁) _

theorem placeTable_does (standard : s.runtime = startModule.1) (hl : l.Walks s)
    (moment : Moment s x.work) (overriding : Overriding s cls t overrides)
    (inTable : ∀ o ∈ overrides, o.2.2 < t.length) (called : x.CalledWith j)
    (apart : x.frame.env.isSome → j ≠ o) (isObj : x.Knows obj (address o))
    (object : x.memory.heap[o]? = some (.agg (first :: rest)))
    (shared : x.memory.globals[t.global.raw]? = some c) (holds : c.value = .agg entries)
    (entriesLength : entries.length = t.length) (written : ∀ v ∈ entries, v ≠ .undef) :
    Does s x (placeTable l obj cls t overrides) fun _ x' =>
      Installed s x.work t overrides cls o rest entries x.memory x'.work x'.memory := by
  refine .lift_bind ((Compile.layoutOf_walks cls).ends moment) fun layout w₁ there₁ _ => ?_
  have goes₁ : x.Goes s (x.later w₁) := ⟨there₁, rfl, .refl _⟩
  refine .write_bind (.const (.global t.global) "gaddr") ?_
  rintro table p₂ goes₂ ⟨isTable, memory₂, -⟩
  have goes₂' : x.Goes s ((x.later w₁).moved p₂) := goes₁.trans ⟨.refl _, rfl, goes₂⟩
  have isMemory₂ : ((x.later w₁).moved p₂).memory = x.memory := memory₂
  have object₂ : ((x.later w₁).moved p₂).memory.heap[o]? = some (.agg (first :: rest)) :=
    isMemory₂ ▸ object
  refine .ite (fun isEmpty => ?_) fun notEmpty => ?_
  · refine (storeField_does layout.record (goes₂'.knows isObj).value object₂ (by simp)).mono ?_
    rintro _ x' _ ⟨-, v, memory, isValue⟩
    obtain rfl : v = .ptr (Region.global t.global).root :=
      (isValue isTable.inside).trans isTable.value
    exact .shared (by simpa using isEmpty) (isMemory₂ ▸ memory)
  · refine (ownTable_does layout.record standard hl (moment.later goes₂'.later) overriding
      (by simpa using notEmpty) inTable
      (called.goes goes₂' (isMemory₂ ▸ .refl [] _) (fun _ => List.not_mem_nil)) apart
      (goes₂'.knows isObj) object₂ isTable (isMemory₂ ▸ shared) holds entriesLength written).mono ?_
    rintro _ x' _ installed
    exact (isMemory₂ ▸ installed).earlier goes₂'.reaches

end Emit

end ShapeCompiler
