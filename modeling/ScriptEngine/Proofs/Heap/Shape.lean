import Mathlib.Logic.Relation
import ScriptEngine.Realm

/-!
# What the epoch guards

Between two collections a heap changes by five operations only: an object is made, and a property is
written, overwritten, defined or deleted. `Heap.Change` is one such operation and `Heap.Evolves` any
number of them. Whatever happens in between, a live handle keeps its object's prototype and what a call
of it runs (`Heap.Keeps`); and as long as the epoch stands still, it also keeps the *shape* of its
properties: which names there are, of which kind, and what may be done with them.

The main statement is `Heap.Keeps.holder?`: while the epoch stands still, a lookup that has found an
object finds the same object again. It is what makes the guards of the call sites sound.
-/

namespace ScriptEngine

/-! ## The shape of a property -/

/-- Two properties of one shape: both are accessors with the same functions, or both hold data under
the same flags, and then the value may differ only where it can be written. -/
def Property.Fits : Property → Property → Prop
  | .data v f, .data w g => f = g ∧ (f.writable = false → v = w)
  | .accessor g s f, .accessor g' s' f' => g = g' ∧ s = s' ∧ f = f'
  | _, _ => False

/-- What is found under a name has kept its shape: it is still missing, or a property that fits. -/
def Property.FitsOption : Option Property → Option Property → Prop
  | none, none => True
  | some p, some q => p.Fits q
  | _, _ => False

namespace Property

/-- Every property fits itself. -/
theorem Fits.refl (p : Property) : p.Fits p := by
  cases p with
  | data v f => exact ⟨rfl, fun _ => rfl⟩
  | accessor g s f => exact ⟨rfl, rfl, rfl⟩

/-- What fits something that fits fits. -/
theorem Fits.trans {p q r : Property} (hpq : p.Fits q) (hqr : q.Fits r) : p.Fits r := by
  cases p with
  | data v f =>
    cases q with
    | accessor g s f => exact hpq.elim
    | data w f' =>
      cases r with
      | accessor g s f => exact hqr.elim
      | data x f'' =>
        obtain ⟨rfl, hvw⟩ := hpq
        obtain ⟨rfl, hwx⟩ := hqr
        exact ⟨rfl, fun hf => (hvw hf).trans (hwx hf)⟩
  | accessor g s f =>
    cases q with
    | data w f' => exact hpq.elim
    | accessor g' s' f' =>
      obtain ⟨rfl, rfl, rfl⟩ := hpq
      exact hqr

/-- What is found keeps its shape if it stays as it is. -/
theorem FitsOption.refl (p : Option Property) : FitsOption p p := by
  cases p with
  | none => trivial
  | some p => exact Fits.refl p

/-- Keeping the shape twice is keeping it. -/
theorem FitsOption.trans {p q r : Option Property} (hpq : FitsOption p q) (hqr : FitsOption q r) :
    FitsOption p r := by
  cases p <;> cases q <;> cases r <;> first
    | trivial
    | exact hpq.elim
    | exact hqr.elim
    | exact Fits.trans hpq hqr

/-- A name that keeps its shape is there before exactly if it is there after. -/
theorem FitsOption.isSome_eq {p q : Option Property} (h : FitsOption p q) : p.isSome = q.isSome := by
  cases p <;> cases q <;> first | rfl | exact h.elim

end Property

namespace Heap

/-! ## Vacant slots -/

/-- The slots that are listed as free are vacant, and none is listed twice. Every heap is so that the
engine can reach, and without it an allocation could overwrite an object. -/
structure Sound (heap : Heap) : Prop where
  /-- No slot is listed twice. -/
  nodup : heap.free.Nodup
  /-- A listed slot has no occupant. -/
  vacant : ∀ i ∈ heap.free, ∀ slot, heap.slots[i]? = some slot → slot.object = none

/-- A heap without objects is sound. -/
theorem sound_empty : ({} : Heap).Sound :=
  ⟨List.nodup_nil, fun _ h => absurd h List.not_mem_nil⟩

/-- The object of a handle stands in the handle's slot, under the handle's generation. -/
theorem get?_eq_some_iff {heap : Heap} {h : Handle} {o : Object} :
    heap.get? h = some o ↔ heap.slots[h.index]? = some ⟨h.generation, some o⟩ := by
  rw [get?]
  rcases hslot : heap.slots[h.index]? with _ | slot
  · simp
  · obtain ⟨generation, object⟩ := slot
    by_cases hg : generation = h.generation
    · simp [hg]
    · simp [hg]

/-- Replacing an object leaves the vacant slots vacant. -/
theorem Sound.put {heap : Heap} (hs : heap.Sound) {h : Handle} {o : Object}
    (hlive : heap.get? h = some o) (o' : Object) : (heap.put h o').Sound := by
  refine ⟨hs.nodup, fun i hi slot hslot => ?_⟩
  have hne : h.index ≠ i := by
    rintro rfl
    have := hs.vacant _ hi _ (get?_eq_some_iff.mp hlive)
    simp at this
  simp only [Heap.put, Array.getElem?_modify, if_neg hne] at hslot
  exact hs.vacant i hi slot hslot

/-- Counting a change of shape leaves the slots alone. -/
theorem Sound.bumpEpoch {heap : Heap} (hs : heap.Sound) : heap.bumpEpoch.Sound := ⟨hs.nodup, hs.vacant⟩

/-- An allocation takes the slot it fills off the list. -/
theorem Sound.allocate {heap : Heap} (hs : heap.Sound) (o : Object) : (heap.allocate o).2.Sound := by
  rw [Heap.allocate]
  rcases hfree : heap.free with _ | ⟨i, rest⟩
  · exact ⟨List.nodup_nil, fun j hj => absurd hj List.not_mem_nil⟩
  · have hnodup : (i :: rest).Nodup := hfree ▸ hs.nodup
    refine ⟨(List.nodup_cons.mp hnodup).2, fun j hj slot hslot => ?_⟩
    have hne : i ≠ j := by
      rintro rfl
      exact (List.nodup_cons.mp hnodup).1 hj
    rw [Array.getElem?_setIfInBounds_ne hne] at hslot
    exact hs.vacant j (hfree ▸ List.mem_cons_of_mem i hj) slot hslot

/-! ## Operations -/

/-- One operation on a heap: an object is made, or a property is written, overwritten, defined or
deleted. Collecting garbage is none of them. -/
inductive Change : Heap → Heap → Prop
  /-- An object is made. -/
  | allocate (heap : Heap) (o : Object) : Change heap (heap.allocate o).2
  /-- A property is written. -/
  | write (heap : Heap) (h : Handle) (name : String) (v : Value) :
      Change heap (heap.write h name v).2
  /-- A property that is there and writable is overwritten. -/
  | overwrite {heap heap' : Heap} {h : Handle} {name : String} {v : Value}
      (done : heap.overwrite? h name v = some heap') : Change heap heap'
  /-- A property is made or replaced. -/
  | define (heap : Heap) (h : Handle) (name : String) (p : Property) :
      Change heap (heap.define h name p).2
  /-- A property is removed. -/
  | delete (heap : Heap) (h : Handle) (name : String) : Change heap (heap.delete h name).2

/-- Any number of operations on a heap, none of them a collection. -/
def Evolves : Heap → Heap → Prop := Relation.ReflTransGen Change

/-- No operation at all. -/
theorem Evolves.refl (heap : Heap) : heap.Evolves heap := Relation.ReflTransGen.refl

/-- Operations after operations. -/
theorem Evolves.trans {a b c : Heap} (hab : a.Evolves b) (hbc : b.Evolves c) : a.Evolves c :=
  Relation.ReflTransGen.trans hab hbc

/-- A single operation. -/
theorem Change.evolves {a b : Heap} (h : Change a b) : a.Evolves b := Relation.ReflTransGen.single h

/-! ## What operations keep -/

/-- What one heap keeps of another: the epoch has not gone back, and every live handle is still live,
with the prototype and the callable of its object, and with properties of the same shape if the epoch
has not moved either. -/
structure Keeps (a b : Heap) : Prop where
  /-- The epoch never goes back. -/
  epoch_le : a.epoch ≤ b.epoch
  /-- Slots are never given up. -/
  size_le : a.slots.size ≤ b.slots.size
  /-- Live handles stay live. -/
  live : ∀ h o, a.get? h = some o → ∃ o', b.get? h = some o' ∧ o'.prototype = o.prototype ∧
    o'.callable = o.callable ∧ (a.epoch = b.epoch →
      ∀ name, Property.FitsOption (o.properties.get? name) (o'.properties.get? name))

/-- A heap keeps all of itself. -/
theorem Keeps.refl (heap : Heap) : heap.Keeps heap :=
  ⟨Nat.le_refl _, Nat.le_refl _, fun _ o ho =>
    ⟨o, ho, rfl, rfl, fun _ _ => Property.FitsOption.refl _⟩⟩

/-- Keeping is transitive: the epoch moves between the ends if it moves on either way. -/
theorem Keeps.trans {a b c : Heap} (hab : a.Keeps b) (hbc : b.Keeps c) : a.Keeps c := by
  refine ⟨Nat.le_trans hab.epoch_le hbc.epoch_le, Nat.le_trans hab.size_le hbc.size_le,
    fun h o ho => ?_⟩
  obtain ⟨o₁, ho₁, hproto₁, hcall₁, hfits₁⟩ := hab.live h o ho
  obtain ⟨o₂, ho₂, hproto₂, hcall₂, hfits₂⟩ := hbc.live h o₁ ho₁
  refine ⟨o₂, ho₂, hproto₂.trans hproto₁, hcall₂.trans hcall₁, fun hepoch name => ?_⟩
  have h₁ := hab.epoch_le
  have h₂ := hbc.epoch_le
  exact (hfits₁ (by omega) name).trans (hfits₂ (by omega) name)

/-- Replacing an object by one with the same prototype and callable keeps everything; the shape of its
properties has to stay only if the epoch does. -/
theorem keeps_put {heap : Heap} {h : Handle} {o o' : Object} (hlive : heap.get? h = some o)
    (hproto : o'.prototype = o.prototype) (hcall : o'.callable = o.callable)
    (hfits : ∀ name, Property.FitsOption (o.properties.get? name) (o'.properties.get? name)) :
    heap.Keeps (heap.put h o') := by
  refine ⟨Nat.le_refl _, by simp [put], fun k ok hk => ?_⟩
  rw [get?_put (by simp [isLive, hlive])]
  by_cases hkh : k = h
  · subst hkh
    obtain rfl := Option.some.inj (hlive.symm.trans hk)
    exact ⟨o', if_pos rfl, hproto, hcall, fun _ => hfits⟩
  · exact ⟨ok, by rw [if_neg hkh, hk], rfl, rfl, fun _ _ => Property.FitsOption.refl _⟩

/-- Replacing an object and counting a change of shape keeps everything but the shape. -/
theorem keeps_put_bumpEpoch {heap : Heap} {h : Handle} {o o' : Object} (hlive : heap.get? h = some o)
    (hproto : o'.prototype = o.prototype) (hcall : o'.callable = o.callable) :
    heap.Keeps (heap.put h o').bumpEpoch := by
  refine ⟨Nat.le_succ _, by simp [put, bumpEpoch], fun k ok hk => ?_⟩
  have hmoved : heap.epoch ≠ (heap.put h o').bumpEpoch.epoch := Nat.ne_of_lt (Nat.lt_succ_self _)
  have hview : (heap.put h o').bumpEpoch.get? k = if k = h then some o' else heap.get? k :=
    get?_put (by simp [isLive, hlive]) o' k
  by_cases hkh : k = h
  · subst hkh
    obtain rfl := Option.some.inj (hlive.symm.trans hk)
    exact ⟨o', by rw [hview, if_pos rfl], hproto, hcall, fun he => absurd he hmoved⟩
  · exact ⟨ok, by rw [hview, if_neg hkh, hk], rfl, rfl, fun he => absurd he hmoved⟩

/-- An allocation keeps every object, because it fills a vacant slot or a new one. -/
theorem keeps_allocate {heap : Heap} (hs : heap.Sound) (o : Object) :
    heap.Keeps (heap.allocate o).2 := by
  have hsame : ∀ k ok, heap.get? k = some ok → (heap.allocate o).2.get? k = some ok := by
    intro k ok hk
    have hslot := get?_eq_some_iff.mp hk
    rw [get?_eq_some_iff, allocate]
    rcases hfree : heap.free with _ | ⟨i, rest⟩
    · obtain ⟨hlt, -⟩ := Array.getElem?_eq_some_iff.mp hslot
      simp only [Array.getElem?_push_lt hlt]
      simpa [Array.getElem?_eq_getElem hlt] using hslot
    · have hne : i ≠ k.index := by
        rintro rfl
        have := hs.vacant _ (hfree ▸ List.mem_cons_self) _ hslot
        simp at this
      simp only [Array.getElem?_setIfInBounds_ne hne]
      exact hslot
  refine ⟨?_, ?_, fun k ok hk =>
    ⟨ok, hsame k ok hk, rfl, rfl, fun _ _ => Property.FitsOption.refl _⟩⟩
  · rw [allocate]
    split <;> exact Nat.le_refl _
  · rw [allocate]
    split <;> simp

/-- Storing a value under the flags that are there keeps the shape of every name. -/
theorem fitsOption_store {t : PropertyTable} {name : String} {v w : Value} {flags : PropertyFlags}
    (hfound : t.get? name = some (.data v flags)) (hw : flags.writable = true) (other : String) :
    Property.FitsOption (t.get? other) ((t.insert name (.data w flags)).get? other) := by
  rw [PropertyTable.get?_insert]
  by_cases hother : other = name
  · subst hother
    rw [if_pos rfl, hfound]
    exact ⟨rfl, fun hf => absurd (hw.symm.trans hf) (by decide)⟩
  · rw [if_neg hother]
    exact Property.FitsOption.refl _

/-- **One operation keeps what a guard relies on**, and leaves the heap sound. -/
theorem Change.keeps {a b : Heap} (hs : a.Sound) (h : Change a b) : b.Sound ∧ a.Keeps b := by
  cases h with
  | allocate o => exact ⟨hs.allocate o, keeps_allocate hs o⟩
  | write h name v =>
    rw [Heap.write]
    rcases hlive : a.get? h with _ | o
    · exact ⟨hs, Keeps.refl _⟩
    · simp only
      rcases hfound : o.properties.get? name with _ | p
      · exact ⟨(hs.put hlive _).bumpEpoch, keeps_put_bumpEpoch hlive rfl rfl⟩
      · rcases p with ⟨v', flags⟩ | ⟨g, s, flags⟩
        · by_cases hw : flags.writable = true
          · simp only [if_pos hw]
            exact ⟨hs.put hlive _, keeps_put hlive rfl rfl (fitsOption_store hfound hw)⟩
          · simp only [if_neg hw]
            exact ⟨hs, Keeps.refl _⟩
        · cases s <;> exact ⟨hs, Keeps.refl _⟩
  | overwrite done =>
    rename_i h name v
    rw [overwrite?] at done
    rcases hlive : a.get? h with _ | o
    · simp [hlive] at done
    · rw [hlive] at done
      rcases hfound : o.properties.get? name with _ | p
      · simp [hfound] at done
      · rcases p with ⟨v', flags⟩ | ⟨g, s, flags⟩
        · by_cases hw : flags.writable = true
          · simp only [hfound, if_pos hw, Option.some.injEq] at done
            subst done
            exact ⟨hs.put hlive _, keeps_put hlive rfl rfl (fitsOption_store hfound hw)⟩
          · simp [hfound, hw] at done
        · simp [hfound] at done
  | define h name p =>
    rw [Heap.define]
    rcases hlive : a.get? h with _ | o
    · exact ⟨hs, Keeps.refl _⟩
    · exact ⟨(hs.put hlive _).bumpEpoch, keeps_put_bumpEpoch hlive rfl rfl⟩
  | delete h name =>
    rw [Heap.delete]
    rcases hlive : a.get? h with _ | o
    · exact ⟨hs, Keeps.refl _⟩
    · simp only
      rcases hfound : o.properties.get? name with _ | p
      · exact ⟨hs, Keeps.refl _⟩
      · by_cases hd : p.flags.deletable = true
        · simp only [if_pos hd]
          exact ⟨(hs.put hlive _).bumpEpoch, keeps_put_bumpEpoch hlive rfl rfl⟩
        · simp only [if_neg hd]
          exact ⟨hs, Keeps.refl _⟩

/-- **Any number of operations** keep what a guard relies on. -/
theorem Evolves.keeps {a b : Heap} (hs : a.Sound) (h : a.Evolves b) : b.Sound ∧ a.Keeps b := by
  induction h with
  | refl => exact ⟨hs, Keeps.refl _⟩
  | tail _ hstep ih =>
    obtain ⟨hs', hkeeps⟩ := hstep.keeps ih.1
    exact ⟨hs', ih.2.trans hkeeps⟩

/-! ## What a guard relies on -/

/-- What a call of a live function runs stays the same. -/
theorem Keeps.callable? {a b : Heap} (h : a.Keeps b) {k : Handle} {target : Callable}
    (hfound : a.callable? k = some target) : b.callable? k = some target := by
  obtain ⟨o, ho, hcall⟩ := Option.bind_eq_some_iff.mp hfound
  obtain ⟨o', ho', -, hcall', -⟩ := h.live k o ho
  exact Option.bind_eq_some_iff.mpr ⟨o', ho', hcall'.trans hcall⟩

/-- While the epoch stands still, a property of an object's own keeps its shape. -/
theorem Keeps.own? {a b : Heap} (h : a.Keeps b) (hepoch : a.epoch = b.epoch) {k : Handle}
    {name : String} {p : Property} (hfound : a.own? k name = some p) :
    ∃ q, b.own? k name = some q ∧ p.Fits q := by
  obtain ⟨o, ho, hp⟩ := Option.bind_eq_some_iff.mp hfound
  obtain ⟨o', ho', -, -, hfits⟩ := h.live k o ho
  have hname := hfits hepoch name
  rw [hp] at hname
  rcases hq : o'.properties.get? name with _ | q
  · rw [hq] at hname
    exact hname.elim
  · rw [hq] at hname
    exact ⟨q, Option.bind_eq_some_iff.mpr ⟨o', ho', hq⟩, hname⟩

/-- More steps than enough find the same object. -/
theorem holderWithin_le (heap : Heap) (name : String) {n m : Nat} (hnm : n ≤ m) {h k : Handle}
    (hfound : heap.holderWithin name n h = some k) : heap.holderWithin name m h = some k := by
  induction n generalizing m h with
  | zero => simp [holderWithin] at hfound
  | succ n ih =>
    obtain ⟨m, rfl⟩ := Nat.exists_eq_add_of_lt hnm
    rw [show n + m + 1 = (n + m) + 1 from rfl]
    rw [holderWithin] at hfound ⊢
    rcases hlive : heap.get? h with _ | o
    · simp [hlive] at hfound
    · simp only [hlive] at hfound ⊢
      split
      · next hcontains => simpa [hcontains] using hfound
      · next hcontains =>
        rw [if_neg hcontains] at hfound
        rcases hproto : o.prototype with _ | p
        · simp [hproto] at hfound
        · simp only [hproto] at hfound ⊢
          exact ih (Nat.le_add_right n m) hfound

/-- The walk along the prototypes takes the same way while the epoch stands still: each object on it
is still there, has the same prototype, and has the name exactly if it had it. -/
theorem Keeps.holderWithin {a b : Heap} (h : a.Keeps b) (hepoch : a.epoch = b.epoch) {name : String}
    {n : Nat} {r k : Handle} (hfound : a.holderWithin name n r = some k) :
    b.holderWithin name n r = some k := by
  induction n generalizing r with
  | zero => simp [Heap.holderWithin] at hfound
  | succ n ih =>
    rw [Heap.holderWithin] at hfound ⊢
    rcases hlive : a.get? r with _ | o
    · simp [hlive] at hfound
    · obtain ⟨o', hlive', hproto, -, hfits⟩ := h.live r o hlive
      have hsame : o'.properties.contains name = o.properties.contains name :=
        (hfits hepoch name).isSome_eq.symm
      simp only [hlive, hlive', hsame, hproto] at hfound ⊢
      split
      · next hcontains => simpa [hcontains] using hfound
      · next hcontains =>
        rw [if_neg hcontains] at hfound
        rcases hp : o.prototype with _ | p
        · simp [hp] at hfound
        · simp only [hp] at hfound
          exact ih hfound

/-- **The guard of a lookup.** While the epoch stands still, a lookup that has found an object finds
the same object again. -/
theorem Keeps.holder? {a b : Heap} (h : a.Keeps b) (hepoch : a.epoch = b.epoch) {r k : Handle}
    {name : String} (hfound : a.holder? r name = some k) : b.holder? r name = some k :=
  holderWithin_le b name (Nat.succ_le_succ h.size_le) (h.holderWithin hepoch hfound)

/-! ## Writing under a guard -/

/-- A property that was just written is there, and may be written again. -/
theorem own?_write {heap : Heap} {h : Handle} {name : String} {v : Value}
    (hstored : (heap.write h name v).1 = .stored) :
    ∃ flags, (heap.write h name v).2.own? h name = some (.data v flags) ∧ flags.writable = true := by
  -- Both ways of storing put the data property into the object of the handle.
  have hput : ∀ (o : Object) (flags : PropertyFlags) (heap' : Heap), heap.get? h = some o →
      heap'.get? h = (heap.put h
        { o with properties := o.properties.insert name (.data v flags) }).get? h →
      heap'.own? h name = some (.data v flags) := by
    intro o flags heap' hlive hview
    rw [Heap.own?, hview, get?_put (by simp [isLive, hlive]), if_pos rfl]
    simp
  rw [Heap.write] at hstored ⊢
  rcases hlive : heap.get? h with _ | o
  · simp [hlive] at hstored
  · simp only [hlive] at hstored ⊢
    rcases hfound : o.properties.get? name with _ | p
    · simp only
      exact ⟨.default, hput o .default _ hlive rfl, rfl⟩
    · rcases p with ⟨v', flags⟩ | ⟨g, s, flags⟩
      · by_cases hw : flags.writable = true
        · simp only [if_pos hw]
          exact ⟨flags, hput o flags _ hlive rfl, hw⟩
        · simp [hfound, hw] at hstored
      · cases s <;> simp [hfound] at hstored

/-- Where a writable property is there, overwriting it and writing it come to the same. -/
theorem overwrite?_eq_write {heap : Heap} {h : Handle} {name : String} {v₀ : Value}
    {flags : PropertyFlags} (hown : heap.own? h name = some (.data v₀ flags))
    (hw : flags.writable = true) (v : Value) :
    (heap.write h name v).1 = .stored ∧
      heap.overwrite? h name v = some (heap.write h name v).2 := by
  obtain ⟨o, hlive, hfound⟩ := Option.bind_eq_some_iff.mp hown
  rw [Heap.write, Heap.overwrite?]
  simp [hlive, hfound, hw]

end Heap

/-- Making a function object is an allocation and two definitions. -/
theorem Realm.newFunction_evolves (r : Realm) (heap : Heap) (callable : Callable) (name : String)
    (length : Nat) : heap.Evolves (r.newFunction heap callable name length).2 :=
  (Heap.Change.allocate _ _).evolves.trans
    ((Heap.Change.define _ _ _ _).evolves.trans (Heap.Change.define _ _ _ _).evolves)

end ScriptEngine
