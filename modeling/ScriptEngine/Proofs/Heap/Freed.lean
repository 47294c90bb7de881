import Mathlib.Algebra.Ring.Nat
import ScriptEngine.Heap.Collect
import ScriptEngine.Proofs.Heap.Shape

/-!
# What a collection frees stays missing

A collection vacates slots and moves each of them on to its next generation. So a handle whose object
was freed finds nothing, and goes on finding nothing while its slot gets new occupants: only after as
many collections as there are generations could its own one come round again (`Heap.Ages.missing`).
To such a handle every operation of the heap answers as to a missing object, and changes nothing.
-/

namespace ScriptEngine

namespace Heap

/-! ## A handle without an object -/

section

variable {heap : Heap} {h : Handle}

/-- A missing object has no properties. -/
theorem holder?_of_missing (hh : heap.get? h = none) (name : String) : heap.holder? h name = none := by
  rw [holder?, holderWithin, hh]

/-- Nothing is written to a missing object. -/
theorem write_of_missing (hh : heap.get? h = none) (name : String) (v : Value) :
    heap.write h name v = (.ignored, heap) := by
  rw [write, hh]

/-- Nothing is removed from a missing object. -/
theorem delete_of_missing (hh : heap.get? h = none) (name : String) :
    heap.delete h name = (true, heap) := by
  rw [delete, hh]

/-- A missing object cannot be called. -/
theorem callable?_of_missing (hh : heap.get? h = none) : heap.callable? h = none := by
  rw [callable?, hh]
  rfl

/-- What a heap answers about a handle without an object: nothing can be called, found, written or
removed there. -/
structure Lacks (heap : Heap) (h : Handle) : Prop where
  /-- It cannot be called. -/
  call : heap.callable? h = none
  /-- It neither has nor inherits properties. -/
  has : ∀ name, heap.hasProperty h name = false
  /-- Reading gives `undefined`. -/
  read : ∀ name, heap.read h name = .value .undefined
  /-- A write is lost. -/
  write : ∀ name v, heap.write h name v = (.ignored, heap)
  /-- There is nothing to overwrite. -/
  overwrite : ∀ name v, heap.overwrite? h name v = none
  /-- There is no object to have the property. -/
  define : ∀ name p, heap.define h name p = (false, heap)
  /-- There is nothing to remove. -/
  delete : ∀ name, heap.delete h name = (true, heap)

/-- **A missing object** is treated as such by every operation. -/
theorem lacks_of_missing (hh : heap.get? h = none) : heap.Lacks h where
  call := callable?_of_missing hh
  has name := by rw [hasProperty, holder?_of_missing hh]; rfl
  read name := by rw [read, holder?_of_missing hh]
  write := write_of_missing hh
  overwrite name v := by rw [overwrite?, hh]
  define name p := by rw [define, hh]
  delete := delete_of_missing hh

end

/-! ## Collections -/

section

variable {heap : Heap}

/-- Vacating an occupied slot leaves the vacant slots vacant and listed once. -/
theorem Sound.release (hs : heap.Sound) {i : Nat} (hi : (heap.slots[i]?.bind Slot.object).isSome) :
    (heap.release i).Sound := by
  refine ⟨List.nodup_cons.mpr ⟨fun hfree => ?_, hs.nodup⟩, fun j hj slot hslot => ?_⟩
  · rcases hslot : heap.slots[i]? with _ | slot
    · simp [hslot] at hi
    · have hvacant := hs.vacant i hfree slot hslot
      simp [hslot, hvacant] at hi
  · simp only [Heap.release, Array.getElem?_modify] at hslot
    split at hslot
    · obtain ⟨old, -, rfl⟩ := Option.map_eq_some_iff.mp hslot
      rfl
    · next hne =>
      have hj : j ∈ heap.free := (List.mem_cons.mp hj).resolve_left (Ne.symm hne)
      exact hs.vacant j hj slot hslot

/-- Vacating slots that are occupied, each once, leaves a sound heap. -/
theorem Sound.sweep {garbage : List Nat} (hs : heap.Sound) (hnodup : garbage.Nodup)
    (hocc : ∀ i ∈ garbage, (heap.slots[i]?.bind Slot.object).isSome) :
    (garbage.foldl Heap.release heap).Sound := by
  induction garbage generalizing heap with
  | nil => exact hs
  | cons i rest ih =>
    obtain ⟨hi, hrest⟩ := List.nodup_cons.mp hnodup
    refine ih (hs.release (hocc i List.mem_cons_self)) hrest fun j hj => ?_
    have hne : i ≠ j := fun h => hi (h ▸ hj)
    simp only [Heap.release, Array.getElem?_modify, if_neg hne]
    exact hocc j (List.mem_cons_of_mem i hj)

/-- The slots that a collection vacates. -/
def garbage (heap : Heap) (envs : Environments) (roots : List Handle) : List Nat :=
  (List.range heap.slots.size).filter
    (heap.isGarbage (heap.mark envs (Array.replicate heap.slots.size false) roots))

/-- No slot is vacated twice. -/
theorem nodup_garbage (heap : Heap) (envs : Environments) (roots : List Handle) :
    (heap.garbage envs roots).Nodup :=
  List.nodup_range.filter _

/-- A collection vacates the slots of the garbage, and counts this as a change of shape if there was
any. -/
theorem collect_snd (heap : Heap) (envs : Environments) (roots : List Handle) :
    (heap.collect envs roots).2 =
      if (heap.garbage envs roots).isEmpty then (heap.garbage envs roots).foldl release heap
      else ((heap.garbage envs roots).foldl release heap).bumpEpoch := rfl

/-- **A collection** leaves a sound heap. -/
theorem Sound.collect (hs : heap.Sound) (envs : Environments) (roots : List Handle) :
    (heap.collect envs roots).2.Sound := by
  have hswept : ((heap.garbage envs roots).foldl Heap.release heap).Sound :=
    hs.sweep (nodup_garbage heap envs roots) fun i hi =>
      (Bool.and_eq_true_iff.mp (List.mem_filter.mp hi).2).1
  rw [collect_snd]
  split
  · exact hswept
  · exact hswept.bumpEpoch

/-- Vacating slots leaves the epoch alone. -/
theorem epoch_sweep (garbage : List Nat) (heap : Heap) :
    (garbage.foldl Heap.release heap).epoch = heap.epoch := by
  induction garbage generalizing heap with
  | nil => rfl
  | cons i rest ih => exact ih (heap.release i)

/-- A collection that changes anything moves the epoch. -/
theorem collect_eq_or_epoch_lt (heap : Heap) (envs : Environments) (roots : List Handle) :
    (heap.collect envs roots).2 = heap ∨ heap.epoch < (heap.collect envs roots).2.epoch := by
  rw [collect_snd]
  split
  · next hempty =>
    rw [List.isEmpty_iff.mp hempty]
    exact .inl rfl
  · refine .inr ?_
    rw [bumpEpoch, epoch_sweep]
    exact Nat.lt_succ_self _

/-- Vacating slots, each once, moves these on by one generation and leaves the others alone. -/
theorem getElem?_sweep {garbage : List Nat} (hnodup : garbage.Nodup) (heap : Heap) (i : Nat) :
    (garbage.foldl release heap).slots[i]? =
      if i ∈ garbage then heap.slots[i]?.map (fun slot => ⟨slot.generation + 1, none⟩)
      else heap.slots[i]? := by
  induction garbage generalizing heap with
  | nil => rfl
  | cons j rest ih =>
    obtain ⟨hj, hrest⟩ := List.nodup_cons.mp hnodup
    rw [List.foldl_cons, ih hrest]
    simp only [release, Array.getElem?_modify, List.mem_cons]
    by_cases hij : i = j
    · subst hij
      simp [hj]
    · simp [hij, Ne.symm hij]

/-- **A collection** moves every slot on by at most one generation; a slot that is not as before is
vacant and has moved on. -/
theorem slots_collect (heap : Heap) (envs : Environments) (roots : List Handle) (i : Nat) :
    (heap.collect envs roots).2.slots[i]? = heap.slots[i]? ∨
      (heap.collect envs roots).2.slots[i]? =
        heap.slots[i]?.map (fun slot => ⟨slot.generation + 1, none⟩) := by
  have hslots : (heap.collect envs roots).2.slots =
      ((heap.garbage envs roots).foldl release heap).slots := by
    rw [collect_snd]
    split <;> rfl
  rw [hslots, getElem?_sweep (nodup_garbage heap envs roots)]
  split
  · exact .inr rfl
  · exact .inl rfl

end

/-! ## Generations -/

/-- Every slot is still there, moved on by at most a number of generations. -/
def Ages (n : Nat) (a b : Heap) : Prop :=
  ∀ (i : Nat) (slot : Slot), a.slots[i]? = some slot →
    ∃ (slot' : Slot) (k : Nat), b.slots[i]? = some slot' ∧ k ≤ n ∧
      slot'.generation = slot.generation + UInt32.ofNat k

namespace Ages

variable {a b c : Heap} {m n : Nat}

/-- Slots that keep their generations. -/
theorem of_same (h : ∀ (i : Nat) (slot : Slot), a.slots[i]? = some slot →
    ∃ slot' : Slot, b.slots[i]? = some slot' ∧ slot'.generation = slot.generation) : Ages 0 a b := by
  intro i slot hslot
  obtain ⟨slot', hslot', hg⟩ := h i slot hslot
  exact ⟨slot', 0, hslot', Nat.le_refl _, by simp [hg]⟩

/-- The heap itself. -/
theorem refl (heap : Heap) : Ages 0 heap heap := of_same fun _ slot h => ⟨slot, h, rfl⟩

/-- One after the other. -/
theorem trans (hab : Ages m a b) (hbc : Ages n b c) : Ages (m + n) a c := by
  intro i slot hslot
  obtain ⟨s₁, k₁, hs₁, hk₁, hg₁⟩ := hab i slot hslot
  obtain ⟨s₂, k₂, hs₂, hk₂, hg₂⟩ := hbc i s₁ hs₁
  exact ⟨s₂, k₁ + k₂, hs₂, Nat.add_le_add hk₁ hk₂, by
    rw [hg₂, hg₁, UInt32.ofNat_add, UInt32.add_assoc]⟩

/-- Replacing an object, whether the change of shape is counted or not. -/
theorem put (heap : Heap) (h : Handle) (o : Object) : Ages 0 heap (heap.put h o) := by
  refine of_same fun i slot hslot => ?_
  simp only [Heap.put, Array.getElem?_modify, hslot]
  split
  · exact ⟨_, rfl, rfl⟩
  · exact ⟨slot, rfl, rfl⟩

/-- An allocation takes over the generation of the slot it fills. -/
theorem allocate (heap : Heap) (o : Object) : Ages 0 heap (heap.allocate o).2 := by
  refine of_same fun i slot hslot => ?_
  obtain ⟨hlt, hat⟩ := Array.getElem?_eq_some_iff.mp hslot
  rw [Heap.allocate]
  rcases heap.free with _ | ⟨j, rest⟩
  · exact ⟨slot, by simp [Array.getElem?_push, Nat.ne_of_lt hlt, hslot], rfl⟩
  · by_cases hj : j = i
    · subst hj
      exact ⟨⟨slot.generation, some o⟩, by simp [hlt, hat], rfl⟩
    · exact ⟨slot, by simp [Array.getElem?_setIfInBounds_ne hj, hslot], rfl⟩

/-- No operation but a collection moves a slot on. -/
theorem change (h : Change a b) : Ages 0 a b := by
  cases h with
  | allocate o => exact allocate a o
  | write h name v =>
    rw [Heap.write]
    split
    · exact refl a
    · split
      · split
        · exact put a _ _
        · exact refl a
      · exact refl a
      · exact refl a
      · exact put a _ _
  | overwrite done =>
    rw [overwrite?] at done
    split at done
    · cases done
    · split at done
      · split at done
        · cases done
          exact put a _ _
        · cases done
      · cases done
  | define h name p =>
    rw [Heap.define]
    split
    · exact refl a
    · exact put a _ _
  | delete h name =>
    rw [Heap.delete]
    split
    · exact refl a
    · split
      · exact refl a
      · split
        · exact put a _ _
        · exact refl a

/-- Any number of operations, none of them a collection. -/
theorem evolves (h : a.Evolves b) : Ages 0 a b := by
  induction h with
  | refl => exact refl a
  | tail _ hstep ih => exact ih.trans (change hstep)

/-- A collection. -/
theorem collect (heap : Heap) (envs : Environments) (roots : List Handle) :
    Ages 1 heap (heap.collect envs roots).2 := by
  intro i slot hslot
  obtain h | h := slots_collect heap envs roots i
  · exact ⟨slot, 0, by rw [h, hslot], Nat.zero_le _, by simp⟩
  · exact ⟨_, 1, by rw [h, hslot]; rfl, Nat.le_refl _, rfl⟩

/-- **What a collection frees stays missing**, as long as fewer further collections follow than there
are generations. -/
theorem missing {heap later : Heap} {envs : Environments} {roots : List Handle} {h : Handle}
    (hlive : heap.isLive h = true) (hfreed : (heap.collect envs roots).2.isLive h = false)
    (hlater : Ages n (heap.collect envs roots).2 later) (hn : n + 1 < 2 ^ 32) : later.get? h = none := by
  obtain ⟨o, ho⟩ := Option.isSome_iff_exists.mp hlive
  have hslot := get?_eq_some_iff.mp ho
  obtain hsame | hmoved := slots_collect heap envs roots h.index
  · -- A slot that the collection left alone still has its occupant.
    have : (heap.collect envs roots).2.get? h = some o := get?_eq_some_iff.mpr (hsame.trans hslot)
    simp [isLive, this] at hfreed
  · rw [hslot] at hmoved
    obtain ⟨slot, k, hs, hk, hg⟩ := hlater h.index _ hmoved
    have hne : slot.generation ≠ h.generation := by
      intro heq
      have hnat := congrArg UInt32.toNat (hg.symm.trans heq)
      have hlt := h.generation.toNat_lt
      simp only [UInt32.toNat_add, UInt32.toNat_ofNat', UInt32.toNat_one] at hnat
      omega
    rw [get?, hs]
    simp [hne]

end Ages

end Heap

end ScriptEngine
