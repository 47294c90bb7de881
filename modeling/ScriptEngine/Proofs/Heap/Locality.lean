import ScriptEngine.Proofs.Heap.Lineage

/-!
# Writes and deletions are local

Writing or deleting a property comes to this: one object has another property of one name, or none, and
everything else is as before (`Heap.Redefines`). What a lookup finds then follows from the walk along the
prototypes, which is the same walk: a new property stands in for the one that was found so far if the walk
comes by it no later, and a property that is gone lets the search go on above it.

The main statement is `Heap.property_changes_local`: what writing and deleting answer, what they change, and
what each of the two does to every read on every object.
-/

namespace ScriptEngine

namespace Heap

/-- One heap is another one with the property of one name on one object made to be this, or removed. -/
structure Redefines (a b : Heap) (h : Handle) (name : String) (p : Option Property) : Prop where
  /-- It is this, and all properties but that one are as before. -/
  own : ∀ k m, b.own? k m = if k = h ∧ m = name then p else a.own? k m
  /-- The same handles have objects, with the same prototypes, and calls of them run the same. -/
  rest : ∀ k, (b.get? k).map (fun o => (o.prototype, o.callable)) =
    (a.get? k).map fun o => (o.prototype, o.callable)
  /-- There are as many slots. -/
  size : b.slots.size = a.slots.size

/-- The handles that a lookup on an object may come by: its own, and those of its prototypes, the nearest
first. -/
def lookupPath (heap : Heap) (r : Handle) : List Handle := r :: heap.prototypes r

/-- A lookup on an object comes by another one no later than by the one where it has found the property so
far, or comes by it at all if it has found none. -/
def Intercepts (heap : Heap) (h : Handle) (name : String) (r : Handle) : Prop :=
  h ∈ heap.lookupPath r ∧
    ∀ k, heap.holder? r name = some k → (heap.lookupPath r).idxOf h ≤ (heap.lookupPath r).idxOf k

/-- Whether it does can be computed. -/
instance (heap : Heap) (h : Handle) (name : String) (r : Handle) : Decidable (heap.Intercepts h name r) :=
  match hholder : heap.holder? r name with
  | none => decidable_of_iff (h ∈ heap.lookupPath r) (by simp [Intercepts, hholder])
  | some k =>
    decidable_of_iff
      (h ∈ heap.lookupPath r ∧ (heap.lookupPath r).idxOf h ≤ (heap.lookupPath r).idxOf k)
      (by simp [Intercepts, hholder])

/-- Reads a property on the prototype of an object; it is `undefined` if there is none. -/
def readAbove (heap : Heap) (h : Handle) (name : String) : PropertyRead :=
  match (heap.get? h).bind Object.prototype with
  | some p => heap.read p name
  | none => .value .undefined

section

variable {heap : Heap}

/-! ## Lookups as searches of the path -/

/-- What a lookup comes by above an object with a prototype is what one on the prototype comes by. -/
theorem Acyclic.lookupPath_up (ha : heap.Acyclic) {r p : Handle} (hedge : heap.Inherits r p) :
    heap.lookupPath r = r :: heap.lookupPath p := by
  obtain ⟨path, hpath, hlength⟩ := ha.climbs r
  rw [lookupPath, hpath.prototypes hlength]
  cases hpath with
  | last top =>
    rw [Inherits, top] at hedge
    cases hedge
  | @up _ p' path edge more =>
    obtain rfl : p' = p := Option.some.inj (edge.symm.trans hedge)
    rw [List.length_cons] at hlength
    obtain ⟨rest, rfl⟩ := more.head
    rw [lookupPath, more.prototypes (by omega), List.tail_cons, List.tail_cons]

/-- A lookup comes by no more than the object if that has no prototype. -/
theorem lookupPath_top {r : Handle} (htop : (heap.get? r).bind Object.prototype = none) :
    heap.lookupPath r = [r] := by
  rw [lookupPath, prototypes, htop]
  rfl

/-- **A lookup** finds the first object on its path that has the property. -/
theorem Acyclic.holder?_eq_find? (ha : heap.Acyclic) (r : Handle) (name : String) :
    heap.holder? r name = (heap.lookupPath r).find? fun k => (heap.own? k name).isSome := by
  obtain ⟨path, hpath, hlength⟩ := ha.climbs r
  obtain ⟨rest, rfl⟩ := hpath.head
  rw [holder?, hpath.holderWithin name hlength, lookupPath, hpath.prototypes hlength, List.tail_cons]

/-- Every object on the path is reached along the prototypes. -/
theorem Acyclic.reaches_of_mem_lookupPath (ha : heap.Acyclic) {r k : Handle} (hk : k ∈ heap.lookupPath r) :
    Relation.ReflTransGen heap.Inherits r k := by
  obtain ⟨path, hpath, hlength⟩ := ha.climbs r
  obtain ⟨rest, rfl⟩ := hpath.head
  rw [lookupPath, hpath.prototypes hlength, List.tail_cons] at hk
  exact hpath.reaches hk

/-- A lookup on an object that lacks the property goes on with the prototype. -/
theorem Acyclic.read_up (ha : heap.Acyclic) {r : Handle} {name : String} (hown : heap.own? r name = none) :
    heap.read r name = heap.readAbove r name := by
  rw [readAbove, read, ha.holder?_eq_find?]
  rcases hproto : (heap.get? r).bind Object.prototype with _ | p
  · rw [lookupPath_top hproto]
    simp [hown]
  · have hedge : heap.Inherits r p := hproto
    rw [ha.lookupPath_up hedge, List.find?_cons_of_neg (by simp [hown]), ← ha.holder?_eq_find?]
    rfl

/-- No lookup on the prototype of an object comes by the object. -/
theorem Acyclic.not_mem_lookupPath_up (ha : heap.Acyclic) {h p : Handle} (hedge : heap.Inherits h p) :
    h ∉ heap.lookupPath p :=
  fun hmem => ha h (.head' hedge (ha.reaches_of_mem_lookupPath hmem))

end

/-! ## Searches with one verdict changed -/

/-- A search that accepts one more element finds this, unless it finds an element before it. -/
theorem find?_or_eq {α : Type} [DecidableEq α] (x : α) (p : α → Bool) (l : List α) :
    l.find? (fun a => a == x || p a) =
      if x ∈ l ∧ ∀ y, l.find? p = some y → l.idxOf x ≤ l.idxOf y then some x else l.find? p := by
  induction l with
  | nil => simp
  | cons a l ih =>
    by_cases hax : a = x
    · subst hax
      simp
    · rw [List.find?_cons, List.find?_cons, beq_false_of_ne hax, Bool.false_or]
      rcases hpa : p a with _ | _
      · have hfound : ∀ y, l.find? p = some y → a ≠ y := by
          rintro y hy rfl
          simp [List.find?_some hy] at hpa
        have hiff : (x ∈ a :: l ∧ ∀ y, l.find? p = some y → (a :: l).idxOf x ≤ (a :: l).idxOf y) ↔
            x ∈ l ∧ ∀ y, l.find? p = some y → l.idxOf x ≤ l.idxOf y := by
          rw [List.mem_cons, or_iff_right (Ne.symm hax)]
          refine and_congr_right fun _ => forall_congr' fun y => forall_congr' fun hy => ?_
          rw [List.idxOf_cons_ne _ hax, List.idxOf_cons_ne _ (hfound y hy), Nat.succ_le_succ_iff]
        simp only [ih, hiff]
      · have hlater : ¬(a :: l).idxOf x ≤ (a :: l).idxOf a := by
          rw [List.idxOf_cons_ne _ hax, List.idxOf_cons_self]
          exact Nat.not_succ_le_zero _
        rw [if_neg fun h => hlater (h.2 a rfl)]

/-- A search that rejects one element more finds what it has found, unless it has found this. -/
theorem find?_and_ne {α : Type} [DecidableEq α] (x : α) (p : α → Bool) (l : List α)
    (hx : l.find? p ≠ some x) : l.find? (fun a => a != x && p a) = l.find? p := by
  induction l with
  | nil => rfl
  | cons a l ih =>
    rw [List.find?_cons] at hx
    rw [List.find?_cons, List.find?_cons]
    rcases hpa : p a with _ | _
    · rw [hpa] at hx
      rw [Bool.and_false]
      exact ih hx
    · rw [hpa] at hx
      have hax : a ≠ x := fun h => hx (congrArg some h)
      rw [bne_iff_ne.mpr hax, Bool.true_and]

/-! ## Lookups after a change -/

namespace Redefines

variable {a b : Heap} {h : Handle} {name : String} {p : Option Property}

/-- The chains of prototypes stay as they are. -/
theorem prototype (hab : a.Redefines b h name p) (k : Handle) :
    (b.get? k).bind Object.prototype = (a.get? k).bind Object.prototype := by
  have hrest := congrArg (·.bind Prod.fst) (hab.rest k)
  simpa [Option.bind_map, Function.comp_def] using hrest

/-- No circle is closed. -/
theorem acyclic (hab : a.Redefines b h name p) (ha : a.Acyclic) : b.Acyclic := by
  have hsame : b.Inherits = a.Inherits := by
    funext k q
    rw [Inherits, Inherits, hab.prototype]
  rwa [Acyclic, hsame]

/-- Lookups go the same way. -/
theorem lookupPath (hab : a.Redefines b h name p) (r : Handle) : b.lookupPath r = a.lookupPath r := by
  have hwithin : ∀ n start, b.prototypesWithin n start = a.prototypesWithin n start := by
    intro n
    induction n with
    | zero => exact fun _ => rfl
    | succ n ih =>
      rintro (_ | k)
      · rfl
      · rw [prototypesWithin, prototypesWithin, hab.prototype, ih]
  rw [Heap.lookupPath, Heap.lookupPath, prototypes, prototypes, hab.size, hab.prototype, hwithin]

/-- Another object's own properties are read as before. -/
theorem readOwn_of_ne (hab : a.Redefines b h name p) {k : Handle} {m : String} (hne : ¬(k = h ∧ m = name)) :
    b.readOwn k m = a.readOwn k m := by
  rw [readOwn, readOwn, hab.own, if_neg hne]

/-- **A lookup under another name** finds what it found. -/
theorem read_of_ne (hab : a.Redefines b h name p) (ha : a.Acyclic) (r : Handle) {m : String} (hm : m ≠ name) :
    b.read r m = a.read r m := by
  have hown : ∀ k, b.own? k m = a.own? k m := fun k => by rw [hab.own, if_neg fun hkm => hm hkm.2]
  have hholder : b.holder? r m = a.holder? r m := by
    simp only [(hab.acyclic ha).holder?_eq_find?, ha.holder?_eq_find?, hab.lookupPath, hown]
  rw [read, read, hholder]
  split
  · exact hab.readOwn_of_ne fun hkm => hm hkm.2
  · rfl

/-- A lookup after a property was put in finds it there if it comes by it no later than by what it has found
so far, and otherwise that. -/
theorem holder?_of_some {q : Property} (hab : a.Redefines b h name (some q)) (ha : a.Acyclic) (r : Handle) :
    b.holder? r name = if a.Intercepts h name r then some h else a.holder? r name := by
  have hverdict : (fun k => (b.own? k name).isSome) = fun k => k == h || (a.own? k name).isSome := by
    funext k
    rw [hab.own]
    by_cases hk : k = h <;> simp [hk]
  simp only [(hab.acyclic ha).holder?_eq_find?, Intercepts, ha.holder?_eq_find?, hab.lookupPath, hverdict,
    find?_or_eq]

/-- **A lookup after a value was put in** finds this value if it comes by it no later than by what it has
found so far, and otherwise that. -/
theorem read_of_data {v : Value} {flags : PropertyFlags}
    (hab : a.Redefines b h name (some (.data v flags))) (ha : a.Acyclic) (r : Handle) :
    b.read r name = if a.Intercepts h name r then .value v else a.read r name := by
  rw [read, hab.holder?_of_some ha]
  by_cases hfirst : a.Intercepts h name r
  · simp only [if_pos hfirst]
    rw [readOwn, hab.own, if_pos ⟨rfl, rfl⟩]
  · simp only [if_neg hfirst]
    rw [read]
    rcases hfound : a.holder? r name with _ | k
    · rfl
    · -- What was found is not the object itself, which would have been no later than itself.
      have hk : k ≠ h := by
        rintro rfl
        refine hfirst ⟨?_, fun k' hk' => ?_⟩
        · rw [ha.holder?_eq_find?] at hfound
          exact List.mem_of_find?_eq_some hfound
        · rw [← Option.some.inj (hfound.symm.trans hk')]
      exact hab.readOwn_of_ne fun hkm => hk hkm.1

/-- A lookup that found another property, or none, is not affected when one is gone. -/
theorem read_of_holder?_ne (hab : a.Redefines b h name none) (ha : a.Acyclic) {r : Handle}
    (hr : a.holder? r name ≠ some h) : b.read r name = a.read r name := by
  have hverdict : (fun k => (b.own? k name).isSome) = fun k => k != h && (a.own? k name).isSome := by
    funext k
    rw [hab.own]
    by_cases hk : k = h <;> simp [hk]
  have hholder : b.holder? r name = a.holder? r name := by
    rw [ha.holder?_eq_find?] at hr
    rw [(hab.acyclic ha).holder?_eq_find?, ha.holder?_eq_find?, hab.lookupPath, hverdict, find?_and_ne h _ _ hr]
  rw [read, read, hholder]
  rcases hfound : a.holder? r name with _ | k
  · rfl
  · have hk : k ≠ h := by
      rintro rfl
      exact hr hfound
    exact hab.readOwn_of_ne fun hkm => hk hkm.1

/-- Above the object the lookups are not affected. -/
theorem readAbove (hab : a.Redefines b h name none) (ha : a.Acyclic) :
    b.readAbove h name = a.readAbove h name := by
  rw [Heap.readAbove, Heap.readAbove, hab.prototype]
  rcases hproto : (a.get? h).bind Object.prototype with _ | q
  · rfl
  · refine hab.read_of_holder?_ne ha fun hfound => ?_
    rw [ha.holder?_eq_find?] at hfound
    exact ha.not_mem_lookupPath_up hproto (List.mem_of_find?_eq_some hfound)

/-- **A lookup that found the property that is gone** finds what is above it. -/
theorem read_of_holder? (hab : a.Redefines b h name none) (ha : a.Acyclic) {r : Handle}
    (hr : a.holder? r name = some h) : b.read r name = a.readAbove h name := by
  have hgone : b.read h name = a.readAbove h name := by
    rw [(hab.acyclic ha).read_up (by rw [hab.own, if_pos ⟨rfl, rfl⟩]), hab.readAbove ha]
  obtain ⟨path, hpath, -⟩ := ha.climbs r
  -- Along the path: an object before `h` lacks the property, and so the lookup passes by it.
  induction hpath with
  | @last r top =>
    rw [ha.holder?_eq_find?, lookupPath_top top, List.find?_singleton] at hr
    split at hr
    · rwa [Option.some.inj hr]
    · cases hr
  | @up r q path edge more ih =>
    rw [ha.holder?_eq_find?, ha.lookupPath_up edge, List.find?_cons, ← ha.holder?_eq_find?] at hr
    split at hr
    · rwa [Option.some.inj hr]
    · next hlacks =>
      by_cases hrh : r = h
      · rwa [hrh]
      have hpass : b.own? r name = none := by
        rw [hab.own, if_neg fun hkm => hrh hkm.1]
        simpa using hlacks
      rw [(hab.acyclic ha).read_up hpass, Heap.readAbove, hab.prototype, edge]
      exact ih hr

end Redefines

/-! ## Writing and deleting -/

section

variable {heap : Heap} {h : Handle} {name : String}

/-- Putting an object with other properties in place of an object. -/
theorem redefines_put {o : Object} (ho : heap.get? h = some o) {properties : PropertyTable}
    {p : Option Property} (hp : ∀ m, properties.get? m = if m = name then p else o.properties.get? m) :
    heap.Redefines (heap.put h { o with properties }) h name p := by
  have hlive : heap.isLive h = true := by
    rw [isLive, ho]
    rfl
  refine ⟨fun k m => ?_, fun k => ?_, by rw [put, Array.size_modify]⟩
  · rw [own?, own?, get?_put hlive]
    by_cases hk : k = h
    · subst hk
      rw [if_pos rfl, Option.bind_some, hp, ho, Option.bind_some]
      simp
    · simp [hk]
  · rw [get?_put hlive]
    by_cases hk : k = h
    · subst hk
      rw [if_pos rfl, ho]
      rfl
    · rw [if_neg hk]

/-- Where there is no such property, removing it changes nothing. -/
theorem redefines_none (hown : heap.own? h name = none) : heap.Redefines heap h name none := by
  refine ⟨fun k m => ?_, fun _ => rfl, rfl⟩
  split
  · next hkm => rw [hkm.1, hkm.2, hown]
  · rfl

/-- Counting a change of shape touches no object. -/
theorem Redefines.bumpEpoch {a b : Heap} {p : Option Property} (hab : a.Redefines b h name p) :
    a.Redefines b.bumpEpoch h name p :=
  ⟨hab.own, hab.rest, hab.size⟩

/-- The ways in which a write ends. -/
inductive Writes (heap : Heap) (h : Handle) (name : String) (v : Value) : PropertyWrite → Heap → Prop
  /-- There is no object. -/
  | missing (gone : heap.get? h = none) : Writes heap h name v .ignored heap
  /-- The property keeps its value. -/
  | fixed {w : Value} {flags : PropertyFlags} (own : heap.own? h name = some (.data w flags))
      (readOnly : flags.writable = false) : Writes heap h name v .ignored heap
  /-- There is no function to write it with. -/
  | readOnly {getter : Option Handle} {flags : PropertyFlags}
      (own : heap.own? h name = some (.accessor getter none flags)) : Writes heap h name v .ignored heap
  /-- There is a function to write it with. -/
  | setter {getter : Option Handle} {s : Handle} {flags : PropertyFlags}
      (own : heap.own? h name = some (.accessor getter (some s) flags)) : Writes heap h name v (.setter s) heap
  /-- The value is replaced. -/
  | replaced {w : Value} {flags : PropertyFlags} {after : Heap}
      (own : heap.own? h name = some (.data w flags)) (writable : flags.writable = true)
      (change : heap.Redefines after h name (some (.data v flags))) : Writes heap h name v .stored after
  /-- The property is new. -/
  | added {after : Heap} (live : heap.isLive h = true) (own : heap.own? h name = none)
      (change : heap.Redefines after h name (some (.data v .default))) : Writes heap h name v .stored after

/-- **A write** ends in one of these ways. -/
theorem writes (heap : Heap) (h : Handle) (name : String) (v : Value) :
    heap.Writes h name v (heap.write h name v).1 (heap.write h name v).2 := by
  rw [write]
  rcases ho : heap.get? h with _ | o
  · exact .missing ho
  have hown : heap.own? h name = o.properties.get? name := by rw [own?, ho, Option.bind_some]
  have hstored : ∀ flags, heap.Redefines
      (heap.put h { o with properties := o.properties.insert name (.data v flags) }) h name
      (some (.data v flags)) := fun flags =>
    redefines_put ho (PropertyTable.get?_insert _ _ _)
  dsimp only
  rcases hp : o.properties.get? name with _ | ⟨w, flags⟩ | ⟨getter, _ | s, flags⟩
  · exact .added (by rw [isLive, ho]; rfl) (hown.trans hp) (hstored _).bumpEpoch
  · rcases hw : flags.writable with _ | _
    · simp only [hw]
      exact .fixed (hown.trans hp) hw
    · simp only [hw]
      exact .replaced (hown.trans hp) hw (hstored flags)
  · exact .readOnly (hown.trans hp)
  · exact .setter (hown.trans hp)

/-- The ways in which a deletion ends. -/
inductive Deletes (heap : Heap) (h : Handle) (name : String) : Bool → Heap → Prop
  /-- The property stays. -/
  | kept {p : Property} (own : heap.own? h name = some p) (permanent : p.flags.deletable = false) :
      Deletes heap h name false heap
  /-- The property is gone, if there was one. -/
  | gone {after : Heap} (deletable : ∀ p, heap.own? h name = some p → p.flags.deletable = true)
      (change : heap.Redefines after h name none) : Deletes heap h name true after

/-- **A deletion** ends in one of these ways. -/
theorem deletes (heap : Heap) (h : Handle) (name : String) :
    heap.Deletes h name (heap.delete h name).1 (heap.delete h name).2 := by
  rw [delete]
  rcases ho : heap.get? h with _ | o
  · have hown : heap.own? h name = none := by rw [own?, ho, Option.bind_none]
    exact .gone (by simp [hown]) (redefines_none hown)
  have hown : heap.own? h name = o.properties.get? name := by rw [own?, ho, Option.bind_some]
  dsimp only
  rcases hp : o.properties.get? name with _ | p
  · exact .gone (by simp [hown, hp]) (redefines_none (hown.trans hp))
  · rcases hd : p.flags.deletable with _ | _
    · simp only [hd]
      exact .kept (hown.trans hp) hd
    · simp only [hd]
      refine .gone (by simpa [hown, hp] using hd) ?_
      exact (redefines_put ho (PropertyTable.get?_erase _ _)).bumpEpoch

/-- What is found on an object itself is read there. -/
theorem read_of_own? {v : Value} {flags : PropertyFlags}
    (hown : heap.own? h name = some (.data v flags)) : heap.read h name = .value v := by
  obtain ⟨o, ho, hfound⟩ := Option.bind_eq_some_iff.mp hown
  have hholder : heap.holder? h name = some h := by
    simp [holder?, holderWithin, ho, PropertyTable.contains, hfound]
  simp only [read, hholder, readOwn, hown]

/-- The object of a property is there. -/
theorem isLive_of_own? {p : Property} (hown : heap.own? h name = some p) : heap.isLive h = true := by
  obtain ⟨o, ho, -⟩ := Option.bind_eq_some_iff.mp hown
  rw [isLive, ho]
  rfl

end

/-- **Writes and deletions are local**, on a heap where no chain of prototypes runs in circles.

A write stores the value exactly if the object is there and has no such property of its own or a data property
that can be written; it answers with a function exactly if the property has one to write it with. Unless
the value is stored nothing changes. If it is, the property is a data property with this value, under the flags
that it had or those of a new one, and nothing else changes; what reads as the value is this name on the objects
whose lookups come by the object no later than by the holder so far, and everything else reads as before.

A deletion fails exactly if the object is there and has the property for good, and then nothing changes. Otherwise
the object has no such property of its own any more, and nothing else changes; the name is read on the object as it
is on its prototype, and so on every object that inherited it from there, and everything else reads as before. -/
theorem property_changes_local {heap : Heap} (ha : heap.Acyclic) (h : Handle) (name : String) :
    (∀ v, let outcome := (heap.write h name v).1
      let after := (heap.write h name v).2
      (outcome = .stored ↔ heap.isLive h = true ∧
        ∀ p, heap.own? h name = some p → ∃ w flags, p = .data w flags ∧ flags.writable = true) ∧
      (∀ s, outcome = .setter s ↔ ∃ getter flags, heap.own? h name = some (.accessor getter (some s) flags)) ∧
      (outcome ≠ .stored → after = heap) ∧
      (outcome = .stored →
        heap.Redefines after h name
          (some (.data v (((heap.own? h name).map Property.flags).getD .default))) ∧
        ∀ r m, after.read r m =
          if m = name ∧ heap.Intercepts h name r then .value v else heap.read r m)) ∧
    let gone := (heap.delete h name).1
    let after := (heap.delete h name).2
    (gone = false ↔
      heap.isLive h = true ∧ ∃ p, heap.own? h name = some p ∧ p.flags.deletable = false) ∧
    (gone = false → after = heap) ∧
    (gone = true →
      heap.Redefines after h name none ∧
      after.read h name = after.readAbove h name ∧
      ∀ r m, after.read r m =
        if m = name ∧ heap.holder? r name = some h then heap.readAbove h name else heap.read r m) := by
  have hread : ∀ {after : Heap} {v : Value} {flags : PropertyFlags},
      heap.Redefines after h name (some (.data v flags)) → ∀ r m, after.read r m =
        if m = name ∧ heap.Intercepts h name r then .value v else heap.read r m := by
    intro after v flags hchange r m
    by_cases hm : m = name
    · subst hm
      simpa using hchange.read_of_data ha r
    · rw [if_neg fun hc => hm hc.1, hchange.read_of_ne ha r hm]
  refine ⟨fun v => ?_, ?_⟩
  · intro outcome after
    have hwrites : heap.Writes h name v outcome after := writes heap h name v
    clear_value outcome after
    cases hwrites with
    | missing gone => simp [isLive, own?, gone]
    | fixed own readOnly => simp [own, readOnly]
    | readOnly own => simp [own]
    | setter own => simp [own]
    | replaced own writable change =>
      refine ⟨by simp [own, writable, isLive_of_own? own], by simp [own], by simp, fun _ => ?_⟩
      rw [own]
      exact ⟨change, hread change⟩
    | added live own change =>
      refine ⟨by simp [own, live], by simp [own], by simp, fun _ => ?_⟩
      rw [own]
      exact ⟨change, hread change⟩
  · intro gone after
    have hdeletes : heap.Deletes h name gone after := deletes heap h name
    clear_value gone after
    cases hdeletes with
    | kept own permanent => simp [own, permanent, isLive_of_own? own]
    | gone deletable change =>
      have hkept : ¬∃ p, heap.own? h name = some p ∧ p.flags.deletable = false := by
        rintro ⟨p, hp, hd⟩
        simp [deletable p hp] at hd
      refine ⟨by simp [hkept], by simp, fun _ => ⟨change, ?_, fun r m => ?_⟩⟩
      · exact (change.acyclic ha).read_up (by rw [change.own, if_pos ⟨rfl, rfl⟩])
      · by_cases hm : m = name
        · subst hm
          by_cases hr : heap.holder? r m = some h
          · rw [if_pos ⟨rfl, hr⟩, change.read_of_holder? ha hr]
          · rw [if_neg fun hc => hr hc.2, change.read_of_holder?_ne ha hr]
        · rw [if_neg fun hc => hm hc.1, change.read_of_ne ha r hm]

/-- Two objects of a chain have the property. What is written to the nearer one is read from below and not from
above; and when the nearer one loses it, the other one's is read from below. -/
theorem property_changes_local_shadowed :
    let steps : List HeapStep := [.allocate {}, .allocate { prototype := some ⟨0, 0⟩ },
      .allocate { prototype := some ⟨1, 0⟩ }, .write ⟨0, 0⟩ "x" .null, .write ⟨1, 0⟩ "x" (.bool false)]
    let heap := ({} : Heap).performAll steps
    let written := (heap.write ⟨1, 0⟩ "x" (.bool true)).2
    let deleted := (heap.delete ⟨1, 0⟩ "x").2
    heap.Acyclic ∧
      written.read ⟨2, 0⟩ "x" = .value (.bool true) ∧ written.read ⟨0, 0⟩ "x" = .value .null ∧
      deleted.read ⟨2, 0⟩ "x" = .value .null := by
  intro steps heap written deleted
  have hacyclic : heap.Acyclic := by
    have hlimit : ∀ i, ({} : Heap).releases i steps < 2 ^ 32 := fun i =>
      Nat.lt_of_le_of_lt (releases_le_length _ i steps) (by decide)
    exact (descended_empty.performAll (by decide +kernel) (nodup_issues exact_empty hlimit)).acyclic
  obtain ⟨hwrite, -, -, hdelete⟩ := property_changes_local hacyclic ⟨1, 0⟩ "x"
  have hwritten := ((hwrite (.bool true)).2.2.2 (by decide +kernel)).2
  have hdeleted := (hdelete (by decide +kernel)).2.2
  refine ⟨hacyclic, ?_, ?_, ?_⟩
  · exact (hwritten ⟨2, 0⟩ "x").trans (by decide +kernel)
  · exact (hwritten ⟨0, 0⟩ "x").trans (by decide +kernel)
  · exact (hdeleted ⟨2, 0⟩ "x").trans (by decide +kernel)

end Heap

end ScriptEngine
