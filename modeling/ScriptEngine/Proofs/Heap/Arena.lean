import ScriptEngine.Proofs.Heap.Freed

/-!
# Handles are never issued twice

A heap is worked on by a sequence of operations: objects are made, their properties are changed, and
garbage is collected. Throughout, the vacant slots are listed exactly (`Heap.Exact`). A slot counts how
often it was released, in a machine word, and a handle carries the count it was issued under. So as long
as no slot is released as often as the word has values, no handle is issued a second time, a handle finds
its own object until a collection frees it, and from then on it finds nothing (`Heap.issues_spec`).
-/

namespace ScriptEngine

/-! ## Operations -/

/-- One operation on a heap. -/
inductive HeapStep where
  /-- Makes an object. -/
  | allocate (o : Object)
  /-- Writes a property. -/
  | write (h : Handle) (name : String) (v : Value)
  /-- Overwrites a property that is there and writable. -/
  | overwrite (h : Handle) (name : String) (v : Value)
  /-- Makes or replaces a property. -/
  | define (h : Handle) (name : String) (p : Property)
  /-- Removes a property. -/
  | delete (h : Handle) (name : String)
  /-- Changes the object in place, to whatever is wanted. -/
  | update (h : Handle) (o : Object)
  /-- Collects garbage, with these environments around the functions. -/
  | collect (envs : Environments) (roots : List Handle)

/-- Whether garbage is collected. -/
def HeapStep.isCollection : HeapStep → Bool
  | .collect _ _ => true
  | _ => false

/-- Whether an object is changed in place, past the operations on properties. -/
def HeapStep.isUpdate : HeapStep → Bool
  | .update _ _ => true
  | _ => false

namespace Heap

/-- The heap after an operation. -/
def perform (heap : Heap) : HeapStep → Heap
  | .allocate o => (heap.allocate o).2
  | .write h name v => (heap.write h name v).2
  | .overwrite h name v => (heap.overwrite? h name v).getD heap
  | .define h name p => (heap.define h name p).2
  | .delete h name => (heap.delete h name).2
  | .update h o => if heap.isLive h then heap.put h o else heap
  | .collect envs roots => (heap.collect envs roots).2

/-- An operation on objects or on their properties is one that the heap may make between two collections. -/
theorem evolves_perform (heap : Heap) {step : HeapStep} (hupdate : step.isUpdate = false)
    (hcollection : step.isCollection = false) : heap.Evolves (heap.perform step) := by
  cases step with
  | allocate o => exact (Change.allocate heap o).evolves
  | write h name v => exact (Change.write heap h name v).evolves
  | overwrite h name v =>
    rw [perform]
    rcases hdone : heap.overwrite? h name v with _ | heap'
    · exact .refl heap
    · exact (Change.overwrite hdone).evolves
  | define h name p => exact (Change.define heap h name p).evolves
  | delete h name => exact (Change.delete heap h name).evolves
  | update h o => cases hupdate
  | collect envs roots => cases hcollection

/-- The heap after a sequence of operations. -/
def performAll (heap : Heap) (steps : List HeapStep) : Heap := steps.foldl perform heap

/-- The handle that an operation issues. -/
def issued? (heap : Heap) : HeapStep → Option Handle
  | .allocate o => some (heap.allocate o).1
  | _ => none

/-- The handles that are issued in the course of a sequence of operations. -/
def issues (heap : Heap) : List HeapStep → List Handle
  | [] => []
  | step :: rest => (heap.issued? step).toList ++ (heap.perform step).issues rest

/-- The occupant of a slot. -/
def occupant? (heap : Heap) (i : Nat) : Option Object := heap.slots[i]?.bind Slot.object

/-- The generation of a slot; one that is yet to be made starts at zero. -/
def generation (heap : Heap) (i : Nat) : UInt32 := (heap.slots[i]?.map Slot.generation).getD 0

/-- Whether an operation vacates a slot. -/
def releasesAt (heap : Heap) (i : Nat) (step : HeapStep) : Bool :=
  (heap.occupant? i).isSome && !((heap.perform step).occupant? i).isSome

/-- How often a slot is vacated in the course of a sequence of operations. -/
def releases (heap : Heap) (i : Nat) : List HeapStep → Nat
  | [] => 0
  | step :: rest => (heap.releasesAt i step).toNat + (heap.perform step).releases i rest

/-- Whether a collection in a sequence of operations frees the object of a handle. -/
def frees (heap : Heap) (h : Handle) : List HeapStep → Bool
  | [] => false
  | step :: rest =>
    (step.isCollection && heap.isLive h && !(heap.perform step).isLive h) ||
      (heap.perform step).frees h rest

end Heap

/-! ## Operations on one object -/

namespace Object

/-- The object with a property written. -/
def written (o : Object) (name : String) (v : Value) : Object :=
  match o.properties.get? name with
  | some (.data _ flags) =>
    if flags.writable then { o with properties := o.properties.insert name (.data v flags) } else o
  | some (.accessor ..) => o
  | none => { o with properties := o.properties.insert name (.data v .default) }

/-- The object with a property overwritten, if that is there and writable. -/
def overwritten (o : Object) (name : String) (v : Value) : Object :=
  if o.properties.contains name then o.written name v else o

/-- The object with a property made or replaced. -/
def defined (o : Object) (name : String) (p : Property) : Object :=
  { o with properties := o.properties.insert name p }

/-- The object with a property removed, if that can be. -/
def deleted (o : Object) (name : String) : Object :=
  match o.properties.get? name with
  | some p => if p.flags.deletable then { o with properties := o.properties.erase name } else o
  | none => o

end Object

/-- The object that an operation works on, and what it makes of it. -/
def HeapStep.edit? : HeapStep → Option (Handle × (Object → Object))
  | .write h name v => some (h, (·.written name v))
  | .overwrite h name v => some (h, (·.overwritten name v))
  | .define h name p => some (h, (·.defined name p))
  | .delete h name => some (h, (·.deleted name))
  | .update h o => some (h, fun _ => o)
  | .allocate _ | .collect _ _ => none

/-- What an operation makes of the object of a handle. It leaves the objects of other handles alone. -/
def HeapStep.revise (step : HeapStep) (h : Handle) (o : Object) : Object :=
  match step.edit? with
  | some (k, f) => if k = h then f o else o
  | none => o

namespace Heap

/-! ## What an operation does to a slot -/

section

variable {heap : Heap}

/-- A handle finds the occupant of its slot if the slot is of its generation. -/
theorem get?_eq_occupant? (heap : Heap) (h : Handle) :
    heap.get? h = if heap.generation h.index = h.generation then heap.occupant? h.index else none := by
  rw [get?, generation, occupant?]
  rcases heap.slots[h.index]? with _ | slot
  · simp
  · simp

/-- A handle with an object is of the generation of its slot. -/
theorem generation_of_get? {h : Handle} {o : Object} (hh : heap.get? h = some o) :
    heap.generation h.index = h.generation ∧ heap.occupant? h.index = some o := by
  have hslot := get?_eq_some_iff.mp hh
  simp [generation, occupant?, hslot]

/-- Two handles with objects in one slot are the same. -/
theorem eq_of_index_eq {h k : Handle} (hh : heap.isLive h = true) (hk : heap.isLive k = true)
    (hindex : h.index = k.index) : h = k := by
  obtain ⟨o, ho⟩ := Option.isSome_iff_exists.mp hh
  obtain ⟨o', ho'⟩ := Option.isSome_iff_exists.mp hk
  have hgen := (generation_of_get? ho).1
  rw [hindex, (generation_of_get? ho').1] at hgen
  obtain ⟨index, generation⟩ := h
  obtain ⟨index', generation'⟩ := k
  simp only at hindex hgen
  rw [hindex, hgen]

/-- Replacing an object by itself changes no slot. -/
theorem slots_put_self {h : Handle} {o : Object} (hh : heap.get? h = some o) :
    (heap.put h o).slots = heap.slots := by
  have hslot := get?_eq_some_iff.mp hh
  refine Array.ext_getElem? fun i => ?_
  rw [put, Array.getElem?_modify]
  split
  · next hi => rw [← hi, hslot]; rfl
  · rfl

/-- **A change of one object** replaces this object and touches nothing else but the epoch. A handle
without an object changes nothing. -/
theorem slots_edit {step : HeapStep} {k : Handle} {f : Object → Object}
    (hedit : step.edit? = some (k, f)) :
    (heap.perform step).free = heap.free ∧ (heap.perform step).slots =
      match heap.get? k with
      | some o => (heap.put k (f o)).slots
      | none => heap.slots := by
  cases step with
  | allocate o => cases hedit
  | collect envs roots => cases hedit
  | write h name v =>
    cases hedit
    rw [perform, Heap.write]
    rcases hk : heap.get? k with _ | o
    · exact ⟨rfl, rfl⟩
    · have hself := (slots_put_self hk).symm
      simp only [Object.written]
      rcases hfound : o.properties.get? name with _ | ⟨w, flags⟩ | ⟨getter, _ | setter, flags⟩
      · exact ⟨rfl, rfl⟩
      · by_cases hw : flags.writable = true
        · simp only [hw, if_true]
          exact ⟨rfl, trivial⟩
        · simp only [hw]
          exact ⟨rfl, hself⟩
      · exact ⟨rfl, hself⟩
      · exact ⟨rfl, hself⟩
  | overwrite h name v =>
    cases hedit
    simp only [perform]
    rcases hk : heap.get? k with _ | o
    · simp [Heap.overwrite?, hk]
    · have hself := (slots_put_self hk).symm
      rcases hfound : o.properties.get? name with _ | ⟨w, flags⟩ | ⟨getter, setter, flags⟩
      · simpa [Heap.overwrite?, hk, hfound, Object.overwritten, PropertyTable.contains] using hself
      · by_cases hw : flags.writable = true
        · simp [Heap.overwrite?, hk, hfound, hw, Object.overwritten, Object.written,
            PropertyTable.contains, put]
        · simpa [Heap.overwrite?, hk, hfound, hw, Object.overwritten, Object.written,
            PropertyTable.contains] using hself
      · simpa [Heap.overwrite?, hk, hfound, Object.overwritten, Object.written,
          PropertyTable.contains] using hself
  | define h name p =>
    cases hedit
    rw [perform, Heap.define]
    rcases heap.get? k with _ | o
    · exact ⟨rfl, rfl⟩
    · exact ⟨rfl, rfl⟩
  | delete h name =>
    cases hedit
    rw [perform, Heap.delete]
    rcases hk : heap.get? k with _ | o
    · exact ⟨rfl, rfl⟩
    · simp only [Object.deleted]
      rcases o.properties.get? name with _ | p
      · exact ⟨rfl, (slots_put_self hk).symm⟩
      · by_cases hd : p.flags.deletable = true
        · simp [hd, bumpEpoch, put]
        · simp only [hd]
          exact ⟨rfl, (slots_put_self hk).symm⟩
  | update h o =>
    cases hedit
    rw [perform, isLive]
    rcases heap.get? k with _ | o'
    · exact ⟨rfl, rfl⟩
    · exact ⟨rfl, rfl⟩

/-- A slot after a change of one object. -/
theorem getElem?_edit {step : HeapStep} {k : Handle} {f : Object → Object}
    (hedit : step.edit? = some (k, f)) (i : Nat) :
    (heap.perform step).slots[i]? = heap.slots[i]?.map fun slot =>
      if i = k.index ∧ slot.generation = k.generation then { slot with object := slot.object.map f }
      else slot := by
  rw [(slots_edit hedit).2]
  rcases hk : heap.get? k with _ | o
  · -- Either the handle is stale or the slot is vacant, and then there is nothing to change.
    rcases hslot : heap.slots[i]? with _ | slot
    · rfl
    · simp only [Option.map_some, Option.some.injEq]
      split
      · next hcase =>
        obtain ⟨rfl, hgen⟩ := hcase
        have hvacant : slot.object = none := by simpa [get?, hslot, hgen] using hk
        obtain ⟨generation, object⟩ := slot
        simp only at hvacant
        simp [hvacant]
      · rfl
  · have hslot := get?_eq_some_iff.mp hk
    simp only [put, Array.getElem?_modify]
    by_cases hi : k.index = i
    · subst hi
      simp [hslot]
    · simp [hi, Ne.symm hi]

/-- A slot after an allocation: the new object stands in the slot of its handle, under the generation
that the slot has. -/
theorem getElem?_allocate (hs : ∀ i ∈ heap.free, i < heap.slots.size) (o : Object) (i : Nat) :
    (heap.allocate o).2.slots[i]? =
      if i = (heap.allocate o).1.index then some ⟨(heap.allocate o).1.generation, some o⟩
      else heap.slots[i]? := by
  rw [Heap.allocate]
  rcases hfree : heap.free with _ | ⟨j, rest⟩
  · simp only [Array.getElem?_push]
  · have hj : j < heap.slots.size := hs j (by simp [hfree])
    by_cases hij : i = j
    · subst hij
      simp [hj]
    · simp [hij, Ne.symm hij]

/-- A slot after a collection. -/
theorem getElem?_collect (heap : Heap) (envs : Environments) (roots : List Handle) (i : Nat) :
    (heap.collect envs roots).2.slots[i]? =
      if i ∈ heap.garbage envs roots then heap.slots[i]?.map (fun slot => ⟨slot.generation + 1, none⟩)
      else heap.slots[i]? := by
  rw [← getElem?_sweep (nodup_garbage heap envs roots), collect_snd]
  split <;> rfl

/-- A collection lists what it vacates. -/
theorem free_collect (heap : Heap) (envs : Environments) (roots : List Handle) :
    (heap.collect envs roots).2.free = (heap.garbage envs roots).reverse ++ heap.free := by
  have hsweep : ∀ (garbage : List Nat) (heap : Heap),
      (garbage.foldl release heap).free = garbage.reverse ++ heap.free := by
    intro garbage
    induction garbage with
    | nil => exact fun _ => rfl
    | cons i rest ih =>
      intro heap
      rw [List.foldl_cons, ih]
      simp [release]
  rw [collect_snd]
  split <;> exact hsweep _ heap

/-- What a collection vacates was occupied. -/
theorem occupant?_of_garbage {envs : Environments} {roots : List Handle} {i : Nat}
    (hi : i ∈ heap.garbage envs roots) : (heap.occupant? i).isSome :=
  (Bool.and_eq_true_iff.mp (List.mem_filter.mp hi).2).1

end

/-! ## The vacant slots are listed exactly -/

/-- The slots that are listed as free are exactly the vacant ones, and none is listed twice. -/
structure Exact (heap : Heap) : Prop where
  /-- No slot is listed twice. -/
  nodup : heap.free.Nodup
  /-- The listed slots are those without an occupant. -/
  mem_free : ∀ i, i ∈ heap.free ↔ ∃ slot, heap.slots[i]? = some slot ∧ slot.object = none

/-- A heap without slots lists none. -/
theorem exact_empty : ({} : Heap).Exact := ⟨List.nodup_nil, by simp⟩

namespace Exact

variable {heap : Heap}

/-- In particular the listed slots are vacant. -/
theorem sound (he : heap.Exact) : heap.Sound := by
  refine ⟨he.nodup, fun i hi slot hslot => ?_⟩
  obtain ⟨slot', hslot', hvacant⟩ := (he.mem_free i).mp hi
  obtain rfl := Option.some.inj (hslot.symm.trans hslot')
  exact hvacant

/-- The listed slots are there. -/
theorem inside (he : heap.Exact) (i : Nat) (hi : i ∈ heap.free) : i < heap.slots.size := by
  obtain ⟨slot, hslot, -⟩ := (he.mem_free i).mp hi
  exact (Array.getElem?_eq_some_iff.mp hslot).choose

/-- An allocation fills a slot that was vacant or not there. -/
theorem occupant?_issued (he : heap.Exact) (o : Object) :
    heap.occupant? (heap.allocate o).1.index = none := by
  rw [Heap.allocate, occupant?]
  rcases hfree : heap.free with _ | ⟨i, rest⟩
  · simp
  · obtain ⟨slot, hslot, hvacant⟩ := (he.mem_free i).mp (by simp [hfree])
    simp [hslot, hvacant]

/-- An allocation takes the slot it fills off the list. -/
theorem allocate (he : heap.Exact) (o : Object) : (heap.allocate o).2.Exact := by
  refine ⟨(he.sound.allocate o).nodup, fun i => ?_⟩
  rw [getElem?_allocate he.inside]
  have hvacant := he.occupant?_issued o
  have hfree : i ∈ (heap.allocate o).2.free ↔ i ∈ heap.free ∧ i ≠ (heap.allocate o).1.index := by
    have hnodup := he.nodup
    rw [Heap.allocate]
    rcases hlist : heap.free with _ | ⟨j, rest⟩
    · simp
    · have hj : j ∉ rest := (List.nodup_cons.mp (hlist ▸ hnodup)).1
      simp only [List.mem_cons]
      grind
  rw [hfree, he.mem_free]
  split
  · next hi => simp [hi]
  · next hi => simp [hi]

/-- Changing an object vacates no slot. -/
theorem edit (he : heap.Exact) {step : HeapStep} {k : Handle} {f : Object → Object}
    (hedit : step.edit? = some (k, f)) : (heap.perform step).Exact := by
  have hfree : (heap.perform step).free = heap.free := (slots_edit hedit).1
  refine ⟨hfree ▸ he.nodup, fun i => ?_⟩
  rw [hfree, he.mem_free, getElem?_edit hedit]
  rcases heap.slots[i]? with _ | slot
  · simp
  · simp only [Option.map_some, Option.some.injEq, exists_eq_left']
    split <;> simp

/-- **A collection** keeps the list exact. -/
theorem collect (he : heap.Exact) (envs : Environments) (roots : List Handle) :
    (heap.collect envs roots).2.Exact := by
  refine ⟨(he.sound.collect envs roots).nodup, fun i => ?_⟩
  rw [free_collect, getElem?_collect, List.mem_append, List.mem_reverse, he.mem_free]
  split
  · next hi =>
    have hocc := occupant?_of_garbage hi
    rcases hslot : heap.slots[i]? with _ | slot
    · simp [occupant?, hslot] at hocc
    · simp [hi]
  · next hi => simp [hi]

/-- **Every operation** keeps the list exact. -/
theorem perform (he : heap.Exact) (step : HeapStep) : (heap.perform step).Exact := by
  cases step with
  | allocate o => exact he.allocate o
  | collect envs roots => exact he.collect envs roots
  | write h name v => exact he.edit rfl
  | overwrite h name v => exact he.edit rfl
  | define h name p => exact he.edit rfl
  | delete h name => exact he.edit rfl
  | update h o => exact he.edit rfl

/-- Any number of operations do. -/
theorem performAll (he : heap.Exact) (steps : List HeapStep) : (heap.performAll steps).Exact := by
  induction steps generalizing heap with
  | nil => exact he
  | cons step rest ih => exact ih (he.perform step)

/-- The free list holds the same numbers as the list of the vacant slots. -/
theorem perm_free (he : heap.Exact) :
    heap.free.Perm ((List.range heap.slots.size).filter fun i => !(heap.occupant? i).isSome) := by
  refine (List.perm_ext_iff_of_nodup he.nodup (List.nodup_range.filter _)).mpr fun i => ?_
  rw [he.mem_free, List.mem_filter, List.mem_range, occupant?]
  rcases hslot : heap.slots[i]? with _ | slot
  · simp [Array.getElem?_eq_none_iff.mp hslot]
  · have hlt := (Array.getElem?_eq_some_iff.mp hslot).choose
    simp [hlt]

/-- No more slots are listed than there are. -/
theorem length_free_le (he : heap.Exact) : heap.free.length ≤ heap.slots.size := by
  have hle := List.length_filter_le (fun i => !(heap.occupant? i).isSome) (List.range heap.slots.size)
  rw [List.length_range] at hle
  exact he.perm_free.length_eq ▸ hle

/-- **The number of objects** is the number of occupied slots. -/
theorem liveCount_eq (he : heap.Exact) :
    heap.liveCount = heap.slots.countP fun slot => slot.object.isSome := by
  have hoccupied : heap.slots.countP (fun slot => slot.object.isSome) =
      (List.range heap.slots.size).countP fun i => (heap.occupant? i).isSome := by
    have hmap : (List.range heap.slots.size).map heap.occupant? = heap.slots.toList.map Slot.object := by
      refine List.ext_getElem (by simp) fun i hi hi' => ?_
      have hlt : i < heap.slots.size := by simpa using hi
      simp [occupant?, hlt]
    rw [← Array.countP_toList]
    have hcount := congrArg (List.countP Option.isSome) hmap
    rw [List.countP_map, List.countP_map] at hcount
    exact hcount.symm
  have htotal := List.length_eq_countP_add_countP (fun i => (heap.occupant? i).isSome)
    (l := List.range heap.slots.size)
  simp only [List.length_range, Bool.not_eq_true, Bool.decide_eq_false] at htotal
  rw [liveCount, he.perm_free.length_eq, hoccupied, ← List.countP_eq_length_filter]
  omega

end Exact

/-! ## What an operation does to a handle -/

section

variable {heap : Heap}

/-- **A generation** moves on by one where the slot is released, and stays elsewhere. -/
theorem generation_perform (he : heap.Exact) (step : HeapStep) (i : Nat) :
    (heap.perform step).generation i =
      heap.generation i + UInt32.ofNat (heap.releasesAt i step).toNat := by
  have hzero : ∀ g : UInt32, g + UInt32.ofNat false.toNat = g := fun g => by simp
  rw [releasesAt]
  rcases hedit : step.edit? with _ | ⟨k, f⟩
  · cases step with
    | allocate o =>
      have hvacant := he.occupant?_issued o
      simp only [perform, generation, occupant?, getElem?_allocate he.inside]
      split
      · next hi =>
        rw [occupant?] at hvacant
        rw [hi, hvacant]
        rw [Heap.allocate]
        rcases heap.free with _ | ⟨j, rest⟩
        · simp
        · simp
      · simp only [Bool.and_not_self, hzero]
    | collect envs roots =>
      simp only [perform, generation, occupant?, getElem?_collect]
      split
      · next hi =>
        have hocc := occupant?_of_garbage hi
        rw [occupant?] at hocc
        rcases hslot : heap.slots[i]? with _ | slot
        · simp [hslot] at hocc
        · simp [hslot] at hocc
          simp [hocc]
      · simp only [Bool.and_not_self, hzero]
    | write h name v => cases hedit
    | overwrite h name v => cases hedit
    | define h name p => cases hedit
    | delete h name => cases hedit
    | update h o => cases hedit
  · simp only [generation, occupant?, getElem?_edit hedit]
    rcases heap.slots[i]? with _ | slot
    · simp
    · simp only [Option.map_some, Option.getD_some, Option.bind_some]
      split
      · simp only [Option.isSome_map, Bool.and_not_self, hzero]
      · simp only [Bool.and_not_self, hzero]

/-- **An object** is revised by an operation, or freed by a collection. -/
theorem get?_perform (he : heap.Exact) (step : HeapStep) {h : Handle} {o : Object}
    (hh : heap.get? h = some o) :
    (heap.perform step).get? h = some (step.revise h o) ∨
      step.isCollection = true ∧ (heap.perform step).get? h = none := by
  have hslot := get?_eq_some_iff.mp hh
  rw [HeapStep.revise]
  rcases hedit : step.edit? with _ | ⟨k, f⟩
  · cases step with
    | allocate o' =>
      refine .inl (get?_eq_some_iff.mpr ?_)
      have hvacant := he.occupant?_issued o'
      have hne : h.index ≠ (heap.allocate o').1.index := by
        intro heq
        rw [← heq, occupant?, hslot] at hvacant
        cases hvacant
      rw [perform, getElem?_allocate he.inside, if_neg hne]
      exact hslot
    | collect envs roots =>
      by_cases hi : h.index ∈ heap.garbage envs roots
      · refine .inr ⟨rfl, ?_⟩
        rw [perform, get?, getElem?_collect, if_pos hi, hslot]
        simp
      · refine .inl (get?_eq_some_iff.mpr ?_)
        rw [perform, getElem?_collect, if_neg hi]
        exact hslot
    | write h name v => cases hedit
    | overwrite h name v => cases hedit
    | define h name p => cases hedit
    | delete h name => cases hedit
    | update h o => cases hedit
  · refine .inl (get?_eq_some_iff.mpr ?_)
    rw [getElem?_edit hedit, hslot]
    obtain ⟨index, generation⟩ := h
    obtain ⟨index', generation'⟩ := k
    simp only [Option.map_some, Handle.mk.injEq, eq_comm]
    split <;> rfl

/-- An allocation issues a handle to its object, of the generation that the vacant slot has. -/
theorem issued?_spec (he : heap.Exact) {step : HeapStep} {h : Handle}
    (hissued : heap.issued? step = some h) :
    h.generation = heap.generation h.index ∧ heap.occupant? h.index = none ∧
      ((heap.perform step).occupant? h.index).isSome := by
  cases step with
  | allocate o =>
    obtain rfl := Option.some.inj hissued
    refine ⟨?_, he.occupant?_issued o, ?_⟩
    · rw [Heap.allocate, generation]
      rcases heap.free with _ | ⟨j, rest⟩
      · simp
      · rfl
    · rw [perform, occupant?, getElem?_allocate he.inside, if_pos rfl]
      rfl
  | collect envs roots => cases hissued
  | write h name v => cases hissued
  | overwrite h name v => cases hissued
  | define h name p => cases hissued
  | delete h name => cases hissued
  | update h o => cases hissued

/-- The handle of a new object finds it. -/
theorem get?_allocate (he : heap.Exact) (o : Object) :
    (heap.allocate o).2.get? (heap.allocate o).1 = some o := by
  rw [get?_eq_some_iff, getElem?_allocate he.inside, if_pos rfl]

end

/-! ## What a sequence of operations does to a handle -/

section

variable {heap : Heap}

/-- Operations after operations. -/
theorem performAll_append (heap : Heap) (before after : List HeapStep) :
    heap.performAll (before ++ after) = (heap.performAll before).performAll after :=
  List.foldl_append

/-- A slot is released as often as in both parts together. -/
theorem releases_append (heap : Heap) (i : Nat) (before after : List HeapStep) :
    heap.releases i (before ++ after) =
      heap.releases i before + (heap.performAll before).releases i after := by
  induction before generalizing heap with
  | nil => simp [releases, performAll]
  | cons step rest ih =>
    simp only [List.cons_append, releases, ih]
    exact (Nat.add_assoc _ _ _).symm

/-- An operation releases a slot once at most. -/
theorem releases_le_length (heap : Heap) (i : Nat) (steps : List HeapStep) :
    heap.releases i steps ≤ steps.length := by
  induction steps generalizing heap with
  | nil => exact Nat.le_refl _
  | cons step rest ih =>
    have := ih (heap.perform step)
    have := (heap.releasesAt i step).toNat_le
    simp only [releases, List.length_cons]
    omega

/-- **The generation of a slot** counts how often it was released. -/
theorem generation_performAll (he : heap.Exact) (steps : List HeapStep) (i : Nat) :
    (heap.performAll steps).generation i =
      heap.generation i + UInt32.ofNat (heap.releases i steps) := by
  induction steps generalizing heap with
  | nil => simp [performAll, releases]
  | cons step rest ih =>
    rw [performAll, List.foldl_cons, ← performAll, ih (he.perform step), generation_perform he, releases,
      UInt32.ofNat_add, UInt32.add_assoc]

/-- Generations that lie fewer steps apart than there are generations differ. -/
theorem add_ofNat_ne (g : UInt32) {k : Nat} (hpos : 0 < k) (hlt : k < 2 ^ 32) :
    g + UInt32.ofNat k ≠ g := by
  intro heq
  have hnat := congrArg UInt32.toNat heq
  have := g.toNat_lt
  simp only [UInt32.toNat_add, UInt32.toNat_ofNat'] at hnat
  omega

/-- A handle that is issued later carries the generation that its slot has by then; if the slot is
occupied now, then it must have been released in between. -/
theorem mem_issues (he : heap.Exact) {steps : List HeapStep} {h : Handle} (hh : h ∈ heap.issues steps) :
    ∃ k, k ≤ heap.releases h.index steps ∧
      h.generation = heap.generation h.index + UInt32.ofNat k ∧
      ((heap.occupant? h.index).isSome → 0 < k) := by
  induction steps generalizing heap with
  | nil => exact absurd hh List.not_mem_nil
  | cons step rest ih =>
    rw [issues, List.mem_append, Option.mem_toList] at hh
    rcases hh with hnow | hlater
    · obtain ⟨hgen, hvacant, -⟩ := issued?_spec he hnow
      exact ⟨0, Nat.zero_le _, by simpa using hgen, by simp [hvacant]⟩
    · obtain ⟨k, hk, hgen, hpos⟩ := ih (he.perform step) hlater
      refine ⟨(heap.releasesAt h.index step).toNat + k, Nat.add_le_add_left hk _, ?_, fun hocc => ?_⟩
      · rw [hgen, generation_perform he, UInt32.ofNat_add, UInt32.add_assoc]
      · -- An occupied slot is released by this operation or is still occupied after it.
        rcases hrel : heap.releasesAt h.index step with _ | _
        · have hstill : ((heap.perform step).occupant? h.index).isSome := by
            simpa [releasesAt, hocc] using hrel
          exact Nat.lt_of_lt_of_le (hpos hstill) (Nat.le_add_left _ _)
        · exact Nat.lt_of_lt_of_le Nat.one_pos (Nat.le_add_right _ _)

/-- **No handle is issued twice**, as long as no slot is released as often as there are generations. -/
theorem nodup_issues (he : heap.Exact) {steps : List HeapStep}
    (hlimit : ∀ i, heap.releases i steps < 2 ^ 32) : (heap.issues steps).Nodup := by
  induction steps generalizing heap with
  | nil => exact List.nodup_nil
  | cons step rest ih =>
    have hrest : ∀ i, (heap.perform step).releases i rest < 2 ^ 32 := fun i =>
      Nat.lt_of_le_of_lt (Nat.le_add_left _ _) (hlimit i)
    have hlater := ih (he.perform step) hrest
    rw [issues]
    rcases hissued : heap.issued? step with _ | h
    · exact hlater
    · refine List.nodup_cons.mpr ⟨fun hmem => ?_, hlater⟩
      obtain ⟨hgen, hvacant, hocc⟩ := issued?_spec he hissued
      obtain ⟨k, hk, hagain, hpos⟩ := mem_issues (he.perform step) hmem
      have hsame : (heap.perform step).generation h.index = h.generation := by
        rw [generation_perform he, releasesAt, hvacant, hgen]
        simp
      rw [hsame] at hagain
      exact add_ofNat_ne _ (hpos hocc) (Nat.lt_of_le_of_lt hk (hrest _)) hagain.symm

/-- **A handle finds its object**, as revised since, until a collection frees it. -/
theorem get?_performAll_of_kept (he : heap.Exact) {h : Handle} {o : Object} (hh : heap.get? h = some o)
    {steps : List HeapStep} (hkept : heap.frees h steps = false) :
    (heap.performAll steps).get? h = some (steps.foldl (fun o step => step.revise h o) o) := by
  induction steps generalizing heap o with
  | nil => exact hh
  | cons step rest ih =>
    rw [frees, Bool.or_eq_false_iff] at hkept
    obtain hnext | ⟨hcollect, hgone⟩ := get?_perform he step hh
    · exact ih (he.perform step) hnext hkept.2
    · simp [hcollect, isLive, hh, hgone] at hkept

/-- **A handle whose object was freed finds nothing**, as long as its slot is not released as often as
there are generations. -/
theorem get?_performAll_of_freed (he : heap.Exact) {h : Handle} {steps : List HeapStep}
    (hfreed : heap.frees h steps = true) (hlimit : heap.releases h.index steps < 2 ^ 32) :
    (heap.performAll steps).get? h = none := by
  induction steps generalizing heap with
  | nil => cases hfreed
  | cons step rest ih =>
    rw [releases] at hlimit
    rw [frees, Bool.or_eq_true] at hfreed
    rcases hfreed with hnow | hlater
    · simp only [Bool.and_eq_true, Bool.not_eq_true'] at hnow
      obtain ⟨⟨-, hlive⟩, hgone⟩ := hnow
      obtain ⟨o, ho⟩ := Option.isSome_iff_exists.mp hlive
      obtain ⟨hgen, hocc⟩ := generation_of_get? ho
      -- A slot that kept its generation and an occupant would have kept the handle live.
      have hrel : heap.releasesAt h.index step = true := by
        refine eq_true_of_ne_false fun hkept => ?_
        have hsame : (heap.perform step).generation h.index = h.generation := by
          rw [generation_perform he, hkept, hgen]
          simp
        rw [releasesAt, hocc] at hkept
        rw [isLive, get?_eq_occupant?, if_pos hsame] at hgone
        simp [hgone] at hkept
      rw [hrel] at hlimit
      have hfinal : ((heap.perform step).performAll rest).generation h.index ≠ h.generation := by
        rw [generation_performAll (he.perform step), generation_perform he, hrel, hgen, UInt32.add_assoc,
          ← UInt32.ofNat_add]
        exact add_ofNat_ne _ (Nat.lt_of_lt_of_le Nat.one_pos (Nat.le_add_right _ _)) hlimit
      exact (get?_eq_occupant? _ h).trans (if_neg hfinal)
    · exact ih (he.perform step) hlater (by omega)

end

/-! ## The life of every handle -/

/-- **Handles are never issued twice, and stale handles never revive.** After any sequence of operations
on an empty heap, in which no slot is released as often as there are generations: the free list names
exactly the vacant slots, each once, and the count of objects is that of the occupied slots; all handles
that were issued differ; and each of them finds its own object, with all that was since done to it, unless
a collection has freed this object, and then it finds nothing and nothing can be done through it. -/
theorem issues_spec (steps : List HeapStep) (hlimit : ∀ i, ({} : Heap).releases i steps < 2 ^ 32) :
    let heap := ({} : Heap).performAll steps
    heap.free.Nodup ∧
    (∀ i, i ∈ heap.free ↔ ∃ slot, heap.slots[i]? = some slot ∧ slot.object = none) ∧
    heap.liveCount = heap.slots.countP (fun slot => slot.object.isSome) ∧
    (({} : Heap).issues steps).Nodup ∧
    ∀ (before : List HeapStep) (o : Object) (after : List HeapStep),
      steps = before ++ .allocate o :: after →
      let made := (({} : Heap).performAll before).allocate o
      (made.2.frees made.1 after = false →
        heap.get? made.1 = some (after.foldl (fun o step => step.revise made.1 o) o)) ∧
      (made.2.frees made.1 after = true →
        heap.get? made.1 = none ∧ heap.Lacks made.1 ∧ ∀ o', heap.perform (.update made.1 o') = heap) := by
  intro heap
  have hexact : heap.Exact := exact_empty.performAll steps
  refine ⟨hexact.nodup, hexact.mem_free, hexact.liveCount_eq, nodup_issues exact_empty hlimit, ?_⟩
  intro before o after hsteps made
  have hbefore : (({} : Heap).performAll before).Exact := exact_empty.performAll before
  have hmade : made.2.Exact := hbefore.allocate o
  have hheap : heap = made.2.performAll after := by
    rw [show heap = ({} : Heap).performAll steps from rfl, hsteps, performAll_append]
    rfl
  refine ⟨fun hkept => ?_, fun hfreed => ?_⟩
  · rw [hheap]
    exact get?_performAll_of_kept hmade (get?_allocate hbefore o) hkept
  · have hafter : made.2.releases made.1.index after < 2 ^ 32 := by
      have htotal := hlimit made.1.index
      rw [hsteps, releases_append, releases] at htotal
      exact Nat.lt_of_le_of_lt (Nat.le_trans (Nat.le_add_left _ _) (Nat.le_add_left _ _)) htotal
    have hmissing : heap.get? made.1 = none := by
      rw [hheap]
      exact get?_performAll_of_freed hmade hfreed hafter
    refine ⟨hmissing, lacks_of_missing hmissing, fun o' => ?_⟩
    rw [perform, isLive, hmissing]
    rfl

/-- The slot of an object that was freed is filled again: the two handles differ, and the older one finds
nothing. -/
theorem issues_spec_refilled :
    let steps : List HeapStep := [.allocate {}, .collect {} [], .allocate {}]
    (({} : Heap).issues steps).Nodup ∧ ({} : Heap).issues steps = [⟨0, 0⟩, ⟨0, 1⟩] ∧
      (({} : Heap).performAll steps).get? ⟨0, 0⟩ = none := by
  intro steps
  have hlimit : ∀ i, ({} : Heap).releases i steps < 2 ^ 32 := fun i =>
    Nat.lt_of_le_of_lt (releases_le_length _ i steps) (by decide)
  have hspec := issues_spec steps hlimit
  have hissues : ({} : Heap).issues steps = [⟨0, 0⟩, ⟨0, 1⟩] := by
    simp [steps, issues, issued?, perform, allocate, collect, mark, isGarbage, release, bumpEpoch,
      List.range_succ]
  have hfreed : (({} : Heap).allocate {}).2.frees ⟨0, 0⟩ [.collect {} [], .allocate {}] = true := by
    simp [frees, HeapStep.isCollection, isLive, get?, perform, allocate, collect, mark, isGarbage,
      release, bumpEpoch, List.range_succ]
  exact ⟨hspec.2.2.2.1, hissues, ((hspec.2.2.2.2 [] {} _ rfl).2 hfreed).1⟩

end Heap

end ScriptEngine
