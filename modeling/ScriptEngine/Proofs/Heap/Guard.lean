import ScriptEngine.Proofs.Heap.Prototypes

/-!
# The epoch is a sound guard

Whoever remembers where a property was found need not look again while the epoch stands still. This is so
whatever is done to the heap in between, collections included: the epoch never goes back, and if it is
the same as before then every lookup that found an object finds it again, with a property of the same shape
(`Heap.epoch_guards`). Only an object that is changed in place, past the operations on properties, escapes
the guard.

A lookup gives up after as many steps as there are slots. Where a search without a bound finds an object,
the lookup finds it too (`Heap.searches_some_iff`), so the guard is as good for the one as for the other.
-/

namespace ScriptEngine

namespace Heap

/-! ## A guard across collections -/

/-- What the epoch guards: it never goes back, and if it is the same then everything was kept. -/
structure Guards (a b : Heap) : Prop where
  /-- The epoch never goes back. -/
  epoch_le : a.epoch ≤ b.epoch
  /-- While the epoch stands still, live handles stay live, with properties of the same shape. -/
  keeps : a.epoch = b.epoch → a.Keeps b

section

variable {a b c heap : Heap}

/-- A heap guards itself. -/
theorem Guards.refl (heap : Heap) : heap.Guards heap := ⟨Nat.le_refl _, fun _ => Keeps.refl heap⟩

/-- What is kept all along is guarded. -/
theorem Keeps.guards (h : a.Keeps b) : a.Guards b := ⟨h.epoch_le, fun _ => h⟩

/-- Once the epoch has moved there is nothing to keep. -/
theorem guards_of_epoch_lt (h : a.epoch < b.epoch) : a.Guards b :=
  ⟨Nat.le_of_lt h, fun heq => absurd heq (Nat.ne_of_lt h)⟩

/-- Guards chain: the epoch is the same at the ends only if it was the same in between. -/
theorem Guards.trans (hab : a.Guards b) (hbc : b.Guards c) : a.Guards c := by
  have hle₁ := hab.epoch_le
  have hle₂ := hbc.epoch_le
  refine ⟨Nat.le_trans hle₁ hle₂, fun heq => ?_⟩
  exact (hab.keeps (by omega)).trans (hbc.keeps (by omega))

/-- **One operation is guarded**, unless it changes an object in place: a collection that frees anything
moves the epoch, and the other operations keep what the guard relies on. -/
theorem guards_perform (he : heap.Exact) {step : HeapStep} (hstep : step.isUpdate = false) :
    heap.Guards (heap.perform step) := by
  cases step with
  | allocate o => exact (Change.allocate heap o).keeps he.sound |>.2.guards
  | write h name v => exact (Change.write heap h name v).keeps he.sound |>.2.guards
  | overwrite h name v =>
    rw [perform]
    rcases hdone : heap.overwrite? h name v with _ | heap'
    · exact .refl heap
    · exact (Change.overwrite hdone).keeps he.sound |>.2.guards
  | define h name p => exact (Change.define heap h name p).keeps he.sound |>.2.guards
  | delete h name => exact (Change.delete heap h name).keeps he.sound |>.2.guards
  | update h o => cases hstep
  | collect envs roots =>
    rcases heap.collect_eq_or_epoch_lt envs roots with hsame | hlt
    · rw [perform, hsame]
      exact .refl heap
    · exact guards_of_epoch_lt hlt

/-- **A sequence of operations is guarded** if each of them is. -/
theorem guards_performAll (he : heap.Exact) {steps : List HeapStep}
    (hsteps : ∀ step ∈ steps, step.isUpdate = false) : heap.Guards (heap.performAll steps) := by
  induction steps generalizing heap with
  | nil => exact .refl heap
  | cons step rest ih =>
    have hfirst := guards_perform he (hsteps step List.mem_cons_self)
    have hrest := ih (he.perform step) fun s hs => hsteps s (List.mem_cons_of_mem _ hs)
    exact hfirst.trans hrest

/-! ## What a lookup finds -/

namespace Searches

variable {name : String} {h k : Handle}

/-- What a search finds has the property. -/
theorem own? (hsearch : heap.Searches name h (some k)) : ∃ p, heap.own? k name = some p := by
  generalize hr : some k = r at hsearch
  induction hsearch with
  | missing gone => cases hr
  | found live has =>
    cases hr
    obtain ⟨p, hp⟩ := Option.isSome_iff_exists.mp has
    exact ⟨p, by rw [Heap.own?, live, Option.bind_some, hp]⟩
  | last live lacks top => cases hr
  | up live lacks proto more ih => exact ih hr

/-- What a search finds is found within some number of steps. -/
theorem holderWithin (hsearch : heap.Searches name h (some k)) :
    ∃ n, heap.holderWithin name n h = some k := by
  generalize hr : some k = r at hsearch
  induction hsearch with
  | missing gone => cases hr
  | found live has =>
    cases hr
    exact ⟨1, by rw [Heap.holderWithin, live]; exact if_pos has⟩
  | last live lacks top => cases hr
  | up live lacks proto more ih =>
    obtain ⟨n, hn⟩ := ih hr
    refine ⟨n + 1, ?_⟩
    rw [Heap.holderWithin, live]
    simp only [if_neg lacks, proto]
    exact hn

end Searches

/-- A lookup that finds an object starts at one. -/
theorem isLive_of_holderWithin {name : String} {n : Nat} {h k : Handle}
    (hfound : heap.holderWithin name n h = some k) : heap.isLive h = true := by
  cases n with
  | zero => cases hfound
  | succ n =>
    rw [Heap.holderWithin] at hfound
    rw [isLive]
    rcases ho : heap.get? h with _ | o
    · simp [ho] at hfound
    · rfl

/-- A lookup that finds an object within some number of steps is a search that finds it. -/
theorem searches_of_holderWithin {name : String} {n : Nat} {h k : Handle}
    (hfound : heap.holderWithin name n h = some k) : heap.Searches name h (some k) := by
  induction n generalizing h with
  | zero => cases hfound
  | succ n ih =>
    rw [holderWithin_succ] at hfound
    split at hfound
    · next hown =>
      obtain rfl := Option.some.inj hfound
      exact .self hown
    · next hown =>
      obtain ⟨p, hedge, hmore⟩ := Option.bind_eq_some_iff.mp hfound
      exact .above (Bool.eq_false_iff.mpr hown) hedge (ih hmore)

/-- **The way of a lookup.** A lookup that just about finds its object comes by as many objects as it takes
steps. These are all different, since from one that it came by before it would take as many steps again. -/
theorem way_of_lookup {name : String} {n : Nat} {h k : Handle}
    (hfound : heap.holderWithin name (n + 1) h = some k) (hbefore : heap.holderWithin name n h = none) :
    ∃ way : List Handle, way.length = n + 1 ∧ way.Nodup ∧ (∀ q ∈ way, heap.isLive q = true) ∧
      ∀ q ∈ way, heap.holderWithin name (n + 1) q = some k := by
  induction n generalizing h with
  | zero =>
    have hlive : heap.isLive h = true := isLive_of_holderWithin hfound
    exact ⟨[h], rfl, List.nodup_cons.mpr ⟨List.not_mem_nil, List.nodup_nil⟩, by simpa using hlive,
      by simpa using hfound⟩
  | succ n ih =>
    have hlive : heap.isLive h = true := isLive_of_holderWithin hfound
    have hstep := hfound
    rw [holderWithin_succ] at hstep hbefore
    split at hstep
    · next hown =>
      rw [if_pos hown] at hbefore
      cases hbefore
    · next hown =>
      rw [if_neg hown] at hbefore
      obtain ⟨p, hedge, hmore⟩ := Option.bind_eq_some_iff.mp hstep
      rw [hedge, Option.bind_some] at hbefore
      obtain ⟨way, hlength, hnodup, hall, hfinds⟩ := ih hmore hbefore
      refine ⟨h :: way, by rw [List.length_cons, hlength], ?_, ?_, ?_⟩
      · refine List.nodup_cons.mpr ⟨fun hmem => ?_, hnodup⟩
        have hsooner := hfinds h hmem
        rw [holderWithin_succ, if_neg hown, hedge, Option.bind_some, hbefore] at hsooner
        cases hsooner
      · intro q hq
        rcases List.mem_cons.mp hq with rfl | hq
        · exact hlive
        · exact hall q hq
      · intro q hq
        rcases List.mem_cons.mp hq with rfl | hq
        · exact hfound
        · exact holderWithin_le heap name (Nat.le_succ _) (hfinds q hq)

/-- **The bound of a lookup** is no restriction to what it finds, on any heap: a search without a bound that
finds an object comes by no more objects than there are slots. -/
theorem searches_some_iff {name : String} {h k : Handle} :
    heap.Searches name h (some k) ↔ heap.holder? h name = some k := by
  refine ⟨fun hsearch => ?_, searches_of_holderWithin⟩
  obtain ⟨n, hn⟩ := hsearch.holderWithin
  -- Of all numbers of steps that are enough take the least.
  induction n with
  | zero => cases hn
  | succ n ih =>
    rcases hbefore : heap.holderWithin name n h with _ | k'
    · obtain ⟨way, hlength, hnodup, hlive, -⟩ := way_of_lookup hn hbefore
      have hsize := length_le_size hlive hnodup
      exact holderWithin_le heap name (by omega) hn
    · have hmore := holderWithin_le heap name (Nat.le_succ n) hbefore
      rw [hmore] at hn
      exact ih (hbefore.trans hn)

/-! ## The guard of every lookup -/

/-- **The epoch is a sound guard.** From a heap that any operations have led to, go on with any operations
but changes in place. The epoch does not go back; and if it is the same in the end, then every lookup
that found an object at first finds this object in the end, and the property that it has under this name
is of the same kind, under the same flags: an accessor has the same functions, and data that cannot be
written is the same. -/
theorem epoch_guards (before after : List HeapStep) (hafter : ∀ step ∈ after, step.isUpdate = false) :
    let a := ({} : Heap).performAll before
    let b := a.performAll after
    a.epoch ≤ b.epoch ∧
    (a.epoch = b.epoch → ∀ (r : Handle) (name : String) (h : Handle), a.holder? r name = some h →
      b.holder? r name = some h ∧
      ∃ p q, a.own? h name = some p ∧ b.own? h name = some q ∧ p.Fits q) := by
  intro a b
  have hguards : a.Guards b := guards_performAll (exact_empty.performAll before) hafter
  refine ⟨hguards.epoch_le, fun hsame r name h hfound => ?_⟩
  have hkeeps := hguards.keeps hsame
  obtain ⟨p, hp⟩ := (searches_some_iff.mpr hfound).own?
  obtain ⟨q, hq, hfits⟩ := hkeeps.own? hsame hp
  exact ⟨hkeeps.holder? hsame hfound, p, q, hp, hq, hfits⟩

/-- An inherited property is overwritten, a property of the heir is deleted that was never there, and an
object is made: the epoch stands still, and the lookup finds the same object. -/
theorem epoch_guards_inherited :
    let before : List HeapStep := [.allocate {}, .define ⟨0, 0⟩ "x" (.data .undefined .default),
      .allocate { prototype := some ⟨0, 0⟩ }]
    let after : List HeapStep := [.overwrite ⟨0, 0⟩ "x" (.object ⟨1, 0⟩), .delete ⟨1, 0⟩ "x",
      .allocate {}]
    let a := ({} : Heap).performAll before
    let b := a.performAll after
    a.epoch = b.epoch ∧ a.holder? ⟨1, 0⟩ "x" = some ⟨0, 0⟩ ∧ b.holder? ⟨1, 0⟩ "x" = some ⟨0, 0⟩ := by
  intro before after a b
  have hsame : a.epoch = b.epoch := by decide +kernel
  have hfound : a.holder? ⟨1, 0⟩ "x" = some ⟨0, 0⟩ := by decide +kernel
  exact ⟨hsame, hfound, ((epoch_guards before after (by decide)).2 hsame _ _ _ hfound).1⟩

end

end Heap

end ScriptEngine
