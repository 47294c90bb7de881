import Mathlib.Data.List.Nodup
import Mathlib.Data.List.Perm.Subperm
import ScriptEngine.Proofs.Heap.Arena
import ScriptEngine.Realm.Builtins

/-!
# Chains of prototypes

A property is looked for along the prototypes, and the search is over after as many steps as there are
slots. On a heap whose chains do not run in circles that is no restriction: a search that goes on as long
as there is a prototype ends, and it ends with the same answer (`Acyclic.searches`).

Code that runs makes objects below the prototypes of its realm and changes properties. If the chains of the
realm's prototypes are whole then such operations close no circle (`Lineal.works`).
-/

namespace ScriptEngine

namespace Heap

/-- The object of a handle has a prototype. -/
def Inherits (heap : Heap) (h p : Handle) : Prop := (heap.get? h).bind Object.prototype = some p

/-- No chain of prototypes comes back to where it started. -/
def Acyclic (heap : Heap) : Prop := ∀ h, ¬Relation.TransGen heap.Inherits h h

/-- A search for the object that has a property, for as long as there is a prototype to go on with. -/
inductive Searches (heap : Heap) (name : String) : Handle → Option Handle → Prop
  /-- There is no object. -/
  | missing {h : Handle} (gone : heap.get? h = none) : Searches heap name h none
  /-- The object has the property. -/
  | found {h : Handle} {o : Object} (live : heap.get? h = some o)
      (has : o.properties.contains name = true) : Searches heap name h (some h)
  /-- The object lacks the property, and has no prototype. -/
  | last {h : Handle} {o : Object} (live : heap.get? h = some o)
      (lacks : ¬o.properties.contains name = true) (top : o.prototype = none) : Searches heap name h none
  /-- The object lacks the property, and the search goes on with its prototype. -/
  | up {h p : Handle} {o : Object} {r : Option Handle} (live : heap.get? h = some o)
      (lacks : ¬o.properties.contains name = true) (proto : o.prototype = some p)
      (more : Searches heap name p r) : Searches heap name h r

/-- The handles that a walk along the prototypes comes by, with the one it starts at: it goes on for as long
as there is an object with a prototype. -/
inductive Climbs (heap : Heap) : Handle → List Handle → Prop
  /-- There is no object, or it has no prototype. -/
  | last {h : Handle} (top : (heap.get? h).bind Object.prototype = none) : Climbs heap h [h]
  /-- The walk goes on with the prototype. -/
  | up {h p : Handle} {path : List Handle} (edge : heap.Inherits h p) (more : Climbs heap p path) :
      Climbs heap h (h :: path)

section

variable {heap : Heap}

/-! ## Live handles -/

/-- A handle with an object has a slot. -/
theorem index_lt_of_isLive {h : Handle} (hh : heap.isLive h = true) : h.index < heap.slots.size := by
  obtain ⟨o, ho⟩ := Option.isSome_iff_exists.mp hh
  exact (Array.getElem?_eq_some_iff.mp (get?_eq_some_iff.mp ho)).choose

/-- Different handles with objects have different slots. -/
theorem nodup_index {handles : List Handle} (hlive : ∀ k ∈ handles, heap.isLive k = true)
    (hnodup : handles.Nodup) : (handles.map Handle.index).Nodup :=
  List.Nodup.map_on (fun _ hk _ hk' hindex => eq_of_index_eq (hlive _ hk) (hlive _ hk') hindex) hnodup

/-- There are no more handles with objects than slots. -/
theorem length_le_size {handles : List Handle} (hlive : ∀ k ∈ handles, heap.isLive k = true)
    (hnodup : handles.Nodup) : handles.length ≤ heap.slots.size := by
  have hsub : handles.map Handle.index ⊆ List.range heap.slots.size := by
    intro i hi
    obtain ⟨k, hk, rfl⟩ := List.mem_map.mp hi
    exact List.mem_range.mpr (index_lt_of_isLive (hlive k hk))
  have hle := ((nodup_index hlive hnodup).subperm hsub).length_le
  rwa [List.length_map, List.length_range] at hle

/-! ## One step of a search -/

/-- A bounded search ends with an object that has the property, or goes on with the prototype if there is
one. -/
theorem holderWithin_succ (heap : Heap) (name : String) (n : Nat) (h : Handle) :
    heap.holderWithin name (n + 1) h =
      if (heap.own? h name).isSome then some h
      else ((heap.get? h).bind Object.prototype).bind (heap.holderWithin name n) := by
  rw [holderWithin, own?]
  rcases heap.get? h with _ | o
  · rfl
  · simp only [Option.bind_some]
    rcases o.prototype with _ | p
    · rfl
    · rfl

namespace Searches

variable {name : String} {h : Handle}

/-- An object with the property is what is searched for. -/
theorem self (hown : (heap.own? h name).isSome = true) : heap.Searches name h (some h) := by
  rcases ho : heap.get? h with _ | o
  · simp [own?, ho] at hown
  · rw [own?, ho, Option.bind_some] at hown
    exact .found ho hown

/-- The search ends where there is neither the property nor a prototype. -/
theorem top (hown : (heap.own? h name).isSome = false) (htop : (heap.get? h).bind Object.prototype = none) :
    heap.Searches name h none := by
  rcases ho : heap.get? h with _ | o
  · exact .missing ho
  · rw [own?, ho, Option.bind_some] at hown
    rw [ho, Option.bind_some] at htop
    exact .last ho (Bool.eq_false_iff.mp hown) htop

/-- The search goes on with the prototype of an object without the property. -/
theorem above {p : Handle} {r : Option Handle} (hown : (heap.own? h name).isSome = false)
    (hedge : heap.Inherits h p) (hmore : heap.Searches name p r) : heap.Searches name h r := by
  obtain ⟨o, ho, hproto⟩ := Option.bind_eq_some_iff.mp hedge
  rw [own?, ho, Option.bind_some] at hown
  exact .up ho (Bool.eq_false_iff.mp hown) hproto hmore

end Searches

/-! ## Walking along the prototypes -/

/-- An object that has a prototype is there. -/
theorem Inherits.isLive {h p : Handle} (hedge : heap.Inherits h p) : heap.isLive h = true := by
  obtain ⟨o, ho, -⟩ := Option.bind_eq_some_iff.mp hedge
  rw [Heap.isLive, ho]
  rfl

namespace Climbs

variable {h : Handle} {path : List Handle}

/-- A walk starts where it starts. -/
theorem head (hpath : heap.Climbs h path) : ∃ rest, path = h :: rest := by
  cases hpath with
  | last top => exact ⟨[], rfl⟩
  | up edge more => exact ⟨_, rfl⟩

/-- Every handle on the way can be reached. -/
theorem reaches (hpath : heap.Climbs h path) {k : Handle} (hk : k ∈ path) :
    Relation.ReflTransGen heap.Inherits h k := by
  induction hpath with
  | last top =>
    rw [List.mem_singleton.mp hk]
  | up edge more ih =>
    rcases List.mem_cons.mp hk with rfl | hk
    · exact .refl
    · exact .head edge (ih hk)

/-- Every handle on the way but the last has an object. -/
theorem isLive (hpath : heap.Climbs h path) {k : Handle} (hk : k ∈ path.dropLast) :
    heap.isLive k = true := by
  induction hpath with
  | last top => exact absurd hk List.not_mem_nil
  | up edge more ih =>
    obtain ⟨rest, rfl⟩ := more.head
    rcases List.mem_cons.mp hk with rfl | hk
    · exact edge.isLive
    · exact ih hk

/-- Where no chain runs in circles, a walk comes by no handle twice. -/
theorem nodup (ha : heap.Acyclic) (hpath : heap.Climbs h path) : path.Nodup := by
  induction hpath with
  | last top => exact List.nodup_cons.mpr ⟨List.not_mem_nil, List.nodup_nil⟩
  | up edge more ih =>
    refine List.nodup_cons.mpr ⟨fun hmem => ?_, ih⟩
    exact ha _ (.head' edge (more.reaches hmem))

/-- A bounded list of prototypes is the beginning of the walk. -/
theorem prototypesWithin (hpath : heap.Climbs h path) (n : Nat) :
    heap.prototypesWithin n (some h) = path.take n := by
  induction hpath generalizing n with
  | last top =>
    cases n with
    | zero => rfl
    | succ n =>
      rw [Heap.prototypesWithin, top]
      cases n <;> rfl
  | up edge more ih =>
    cases n with
    | zero => rfl
    | succ n => rw [Heap.prototypesWithin, edge, ih, List.take_succ_cons]

/-- A bounded search with enough steps finds the first object on the way that has the property. -/
theorem holderWithin (hpath : heap.Climbs h path) (name : String) {n : Nat} (hn : path.length ≤ n) :
    heap.holderWithin name n h = path.find? fun k => (heap.own? k name).isSome := by
  induction hpath generalizing n with
  | @last h top =>
    obtain ⟨n, rfl⟩ := Nat.exists_eq_add_of_le' hn
    rw [List.length_singleton, holderWithin_succ, top, List.find?_cons]
    cases (heap.own? h name).isSome <;> rfl
  | @up h p path edge more ih =>
    obtain ⟨n, rfl⟩ := Nat.exists_eq_add_of_le' (Nat.le_trans (Nat.le_add_left 1 _) hn)
    rw [holderWithin_succ, edge, Option.bind_some, ih (Nat.le_of_succ_le_succ hn), List.find?_cons]
    cases (heap.own? h name).isSome <;> rfl

/-- A search without a bound finds it as well. -/
theorem searches (hpath : heap.Climbs h path) (name : String) :
    heap.Searches name h (path.find? fun k => (heap.own? k name).isSome) := by
  induction hpath with
  | @last h top =>
    rw [List.find?_cons]
    split
    · next hown => exact .self hown
    · next hown => exact .top (by simpa using hown) top
  | @up h p path edge more ih =>
    rw [List.find?_cons]
    split
    · next hown => exact .self hown
    · next hown => exact .above (by simpa using hown) edge ih

end Climbs

/-- **A walk within enough steps.** The handles that were passed are all different and have objects, and so
there are no more of them than slots. -/
theorem Acyclic.climbs_within (ha : heap.Acyclic) {n : Nat} {h : Handle} (passed : List Handle)
    (hlive : ∀ k ∈ passed, heap.isLive k = true)
    (hbelow : ∀ k ∈ passed, Relation.TransGen heap.Inherits k h)
    (hnodup : passed.Nodup) (hn : heap.slots.size < n + passed.length) :
    ∃ path, heap.Climbs h path ∧ path.length ≤ n := by
  induction n generalizing h passed with
  | zero =>
    have hle := length_le_size hlive hnodup
    omega
  | succ n ih =>
    rcases hproto : (heap.get? h).bind Object.prototype with _ | p
    · exact ⟨[h], .last hproto, Nat.le_add_left _ _⟩
    have hedge : heap.Inherits h p := hproto
    suffices hrest : ∃ path, heap.Climbs p path ∧ path.length ≤ n by
      obtain ⟨path, hpath, hlength⟩ := hrest
      exact ⟨h :: path, .up hedge hpath, Nat.succ_le_succ hlength⟩
    refine ih (h :: passed) ?live ?below ?nodup ?steps
    case live =>
      intro k hk
      rcases List.mem_cons.mp hk with rfl | hk
      · exact hedge.isLive
      · exact hlive k hk
    case below =>
      intro k hk
      rcases List.mem_cons.mp hk with rfl | hk
      · exact .single hedge
      · exact (hbelow k hk).tail hedge
    case nodup =>
      -- An object that was passed before would be its own ancestor.
      exact List.nodup_cons.mpr ⟨fun hmem => ha h (hbelow h hmem), hnodup⟩
    case steps =>
      rw [List.length_cons]
      omega

/-- **Where no chain runs in circles**, every walk along the prototypes ends. -/
theorem Acyclic.climbs (ha : heap.Acyclic) (h : Handle) :
    ∃ path, heap.Climbs h path ∧ path.length ≤ heap.slots.size + 1 := by
  refine ha.climbs_within [] ?_ ?_ List.nodup_nil (by simp)
  · exact fun k hk => absurd hk List.not_mem_nil
  · exact fun k hk => absurd hk List.not_mem_nil

/-- **Where no chain runs in circles**, a search without a bound ends, with the object that the bounded one
finds. -/
theorem Acyclic.searches (ha : heap.Acyclic) (name : String) (h : Handle) :
    heap.Searches name h (heap.holder? h name) := by
  obtain ⟨path, hpath, hlength⟩ := ha.climbs h
  rw [holder?, hpath.holderWithin name hlength]
  exact hpath.searches name

/-- Chains along which a number falls do not run in circles. -/
theorem acyclic_of_falling (rank : Handle → Nat) (h : ∀ k p, heap.Inherits k p → rank p < rank k) :
    heap.Acyclic := by
  intro k hk
  have hfall : ∀ p, Relation.TransGen heap.Inherits k p → rank p < rank k := by
    intro p hp
    induction hp with
    | single hedge => exact h _ _ hedge
    | tail _ hedge ih => exact Nat.lt_trans (h _ _ hedge) ih
  exact Nat.lt_irrefl _ (hfall k hk)

end

end Heap

/-! ## Operations of running code -/

/-- The operations that running code makes by itself: new objects stand below the prototypes of the realm,
and properties change. -/
def HeapStep.IsOwn (r : Realm) : HeapStep → Prop
  | .allocate o => o.prototype = some r.objectPrototype ∨ o.prototype = some r.functionPrototype
  | .write .. | .overwrite .. | .define .. | .delete .. => True
  | .update .. | .collect .. => False

/-- Running code changes no object in place. -/
theorem HeapStep.IsOwn.isUpdate {r : Realm} {step : HeapStep} (hstep : step.IsOwn r) :
    step.isUpdate = false := by
  cases step with
  | update h o => cases hstep
  | _ => rfl

/-- Running code collects no garbage. -/
theorem HeapStep.IsOwn.isCollection {r : Realm} {step : HeapStep} (hstep : step.IsOwn r) :
    step.isCollection = false := by
  cases step with
  | collect envs roots => cases hstep
  | _ => rfl

/-- Any number of such operations. -/
def Realm.Works (r : Realm) : Heap → Heap → Prop :=
  Relation.ReflTransGen fun a b => ∃ step : HeapStep, step.IsOwn r ∧ b = a.perform step

namespace Realm.Works

variable {r : Realm} {a b c : Heap}

/-- No operation at all. -/
theorem refl (r : Realm) (heap : Heap) : r.Works heap heap := Relation.ReflTransGen.refl

/-- Operations after operations. -/
theorem trans (hab : r.Works a b) (hbc : r.Works b c) : r.Works a c := Relation.ReflTransGen.trans hab hbc

/-- One operation. -/
theorem own (step : HeapStep) (hstep : step.IsOwn r) (heap : Heap) : r.Works heap (heap.perform step) :=
  Relation.ReflTransGen.single ⟨step, hstep, rfl⟩

/-- None of them is a collection. -/
theorem evolves (h : r.Works a b) : a.Evolves b := by
  induction h with
  | refl => exact .refl a
  | tail _ hstep ih =>
    obtain ⟨step, hown, rfl⟩ := hstep
    exact ih.trans (Heap.evolves_perform _ hown.isUpdate hown.isCollection)

/-- A property is written. -/
theorem write (r : Realm) (heap : Heap) (h : Handle) (name : String) (v : Value) :
    r.Works heap (heap.write h name v).2 :=
  own (.write h name v) trivial heap

/-- A property is overwritten. -/
theorem overwrite {heap heap' : Heap} {h : Handle} {name : String} {v : Value}
    (hdone : heap.overwrite? h name v = some heap') : r.Works heap heap' := by
  have hstep := own (r := r) (.overwrite h name v) trivial heap
  rwa [Heap.perform, hdone, Option.getD_some] at hstep

/-- A property is defined. -/
theorem define (r : Realm) (heap : Heap) (h : Handle) (name : String) (p : Property) :
    r.Works heap (heap.define h name p).2 :=
  own (.define h name p) trivial heap

/-- A property is removed. -/
theorem delete (r : Realm) (heap : Heap) (h : Handle) (name : String) :
    r.Works heap (heap.delete h name).2 :=
  own (.delete h name) trivial heap

/-- A plain object is made. -/
theorem newObject (r : Realm) (heap : Heap) : r.Works heap (r.newObject heap).2 :=
  own (.allocate { prototype := some r.objectPrototype }) (.inl rfl) heap

/-- A function object is made. -/
theorem newFunction (r : Realm) (heap : Heap) (callable : Callable) (name : String) (length : Nat) :
    r.Works heap (r.newFunction heap callable name length).2 := by
  have hmade : r.Works heap
      (heap.allocate { prototype := some r.functionPrototype, callable := some callable }).2 :=
    own (.allocate { prototype := some r.functionPrototype, callable := some callable }) (.inr rfl) heap
  exact (hmade.trans (define r _ _ _ _)).trans (define r _ _ _ _)

/-- What a handler receives is made. -/
theorem caughtValue (r : Realm) (heap : Heap) (e : RuntimeError) :
    r.Works heap (r.caughtValue heap e).2 := by
  cases e with
  | thrown v => exact refl r heap
  | _ => exact ((newObject r heap).trans (define r _ _ _ _)).trans (define r _ _ _ _)

/-- A host makes a plain object. -/
theorem hostObject (r : Realm) (host : Host) :
    r.Works host.heap (host.allocate (some r.objectPrototype)).2.heap :=
  newObject r host.heap

/-- A host makes a method. -/
theorem hostMethod (r : Realm) (host : Host) (target : Handle) (name : String) (length : Nat) (f : Native) :
    r.Works host.heap (host.method r target name length f).2.heap :=
  (newFunction r host.heap (.native ⟨name, length, host.natives.table.size⟩) name length).trans (define r _ _ _ _)

end Realm.Works

namespace Object

/-- Writing a property leaves the prototype alone. -/
theorem prototype_written (o : Object) (name : String) (v : Value) :
    (o.written name v).prototype = o.prototype := by
  rw [written]
  split
  · split <;> rfl
  · rfl
  · rfl

/-- Overwriting a property leaves the prototype alone. -/
theorem prototype_overwritten (o : Object) (name : String) (v : Value) :
    (o.overwritten name v).prototype = o.prototype := by
  rw [overwritten]
  split
  · exact o.prototype_written name v
  · rfl

/-- Removing a property leaves the prototype alone. -/
theorem prototype_deleted (o : Object) (name : String) : (o.deleted name).prototype = o.prototype := by
  rw [deleted]
  split
  · split <;> rfl
  · rfl

end Object

namespace Heap

/-- A heap whose chains do not run in circles, and in which those of the realm's prototypes are whole. -/
structure Lineal (heap : Heap) (r : Realm) : Prop where
  /-- The vacant slots are listed exactly. -/
  exact : heap.Exact
  /-- No chain runs in circles. -/
  acyclic : heap.Acyclic
  /-- Every object above a new one is there. -/
  whole : ∀ p, p = r.objectPrototype ∨ p = r.functionPrototype →
    ∀ q, Relation.ReflTransGen heap.Inherits p q → heap.isLive q = true

section

variable {heap : Heap} {r : Realm}

/-- Operations on properties leave the prototypes alone. -/
theorem prototype_revise {step : HeapStep} (hstep : step.isUpdate = false) (h : Handle) (o : Object) :
    (step.revise h o).prototype = o.prototype := by
  rw [HeapStep.revise]
  cases step with
  | allocate o' => rfl
  | collect envs roots => rfl
  | update k o' => cases hstep
  | write k name v =>
    simp only [HeapStep.edit?, apply_ite Object.prototype, Object.prototype_written, ite_self]
  | overwrite k name v =>
    simp only [HeapStep.edit?, apply_ite Object.prototype, Object.prototype_overwritten, ite_self]
  | define k name p => simp only [HeapStep.edit?, apply_ite Object.prototype, Object.defined, ite_self]
  | delete k name =>
    simp only [HeapStep.edit?, apply_ite Object.prototype, Object.prototype_deleted, ite_self]

/-- **A change of one object** revises it, and brings in no other. -/
theorem get?_edit {step : HeapStep} {k : Handle} {f : Object → Object} (hedit : step.edit? = some (k, f))
    (h : Handle) : (heap.perform step).get? h = (heap.get? h).map (step.revise h) := by
  have hrevise : step.revise h = fun o => if k = h then f o else o := by
    funext o
    rw [HeapStep.revise, hedit]
  rw [get?, get?, getElem?_edit hedit, hrevise]
  obtain ⟨index, generation⟩ := h
  obtain ⟨index', generation'⟩ := k
  simp only [Handle.mk.injEq]
  rcases heap.slots[index]? with _ | ⟨age, object⟩
  · rfl
  · by_cases hage : age = generation
    · subst hage
      by_cases hk : index' = index ∧ generation' = age
      · simp [hk.1, hk.2]
      · have hk' : ¬(index = index' ∧ age = generation') := fun h => hk ⟨h.1.symm, h.2.symm⟩
        simp [hk, hk']
    · simp only [Option.map_some]
      split <;> simp [hage]

/-- An operation of running code that makes no object leaves all chains as they are. -/
theorem inherits_edit {step : HeapStep} (hstep : step.IsOwn r) {k : Handle} {f : Object → Object}
    (hedit : step.edit? = some (k, f)) :
    (heap.perform step).Inherits = heap.Inherits ∧
      ∀ h, (heap.perform step).isLive h = heap.isLive h := by
  constructor
  · funext h p
    rw [Inherits, Inherits, get?_edit hedit]
    rcases heap.get? h with _ | o
    · rfl
    · rw [Option.map_some, Option.bind_some, Option.bind_some, prototype_revise hstep.isUpdate]
  · intro h
    rw [isLive, isLive, get?_edit hedit, Option.isSome_map]

/-- An object after an allocation: the new one, or one that was there before. -/
theorem Exact.get?_allocate_of_ne (he : heap.Exact) (o : Object) {h : Handle} (hne : h ≠ (heap.allocate o).1) :
    (heap.allocate o).2.get? h = heap.get? h := by
  have hvacant := he.occupant?_issued o
  have hissued : heap.issued? (.allocate o) = some (heap.allocate o).1 := rfl
  have hgen := (issued?_spec he hissued).1
  rw [get?, getElem?_allocate he.inside]
  split
  · next slot hslot =>
    split at hslot
    · next hindex =>
      obtain rfl := Option.some.inj hslot
      -- The slot is the one of the new object, so the generations differ, and nothing was there before.
      have hold : heap.get? h = none := by
        rw [get?_eq_occupant?, hindex, hvacant, ite_self]
      rw [hold]
      split
      · next heq =>
        refine absurd ?_ hne
        obtain ⟨index, generation⟩ := h
        simp only [beq_iff_eq] at heq hindex
        rw [hindex, ← heq]
      · rfl
    · rw [get?, hslot]
  · next hslot =>
    split at hslot
    · cases hslot
    · rw [get?, hslot]

/-- The handle of a new object had no object before. -/
theorem Exact.isLive_issued (he : heap.Exact) (o : Object) : heap.isLive (heap.allocate o).1 = false := by
  rw [isLive, get?_eq_occupant?, he.occupant?_issued o, ite_self]
  rfl

/-- A path along prototypes after an allocation is one from before, or it comes by the new object and goes on
from the prototype of that. -/
theorem Exact.path_allocate (he : heap.Exact) {o : Object} {p : Handle} (hp : o.prototype = some p) {h x : Handle}
    (hpath : Relation.TransGen (heap.allocate o).2.Inherits h x) :
    Relation.TransGen heap.Inherits h x ∨
      Relation.ReflTransGen (heap.allocate o).2.Inherits h (heap.allocate o).1 ∧
        Relation.ReflTransGen (heap.allocate o).2.Inherits p x := by
  have hedge : ∀ y z, (heap.allocate o).2.Inherits y z →
      heap.Inherits y z ∨ y = (heap.allocate o).1 ∧ z = p := by
    intro y z hyz
    by_cases hy : y = (heap.allocate o).1
    · rw [Inherits, hy, get?_allocate he o, Option.bind_some, hp] at hyz
      exact .inr ⟨hy, (Option.some.inj hyz).symm⟩
    · rw [Inherits, he.get?_allocate_of_ne o hy] at hyz
      exact .inl hyz
  induction hpath with
  | single hyz =>
    rcases hedge _ _ hyz with hyz | ⟨rfl, rfl⟩
    · exact .inl (.single hyz)
    · exact .inr ⟨.refl, .refl⟩
  | tail hx hyz ih =>
    rcases ih with ih | ⟨hto, hfrom⟩
    · rcases hedge _ _ hyz with hyz | ⟨rfl, rfl⟩
      · exact .inl (ih.tail hyz)
      · exact .inr ⟨hx.to_reflTransGen, .refl⟩
    · exact .inr ⟨hto, hfrom.tail hyz⟩

namespace Lineal

/-- **The chains of the realm's prototypes** stay as they are when an object is made. They were whole before,
so none of them comes by the new object. -/
theorem chain_allocate (hl : heap.Lineal r) (o : Object) {p q : Handle}
    (hp : p = r.objectPrototype ∨ p = r.functionPrototype)
    (hpath : Relation.ReflTransGen (heap.allocate o).2.Inherits p q) :
    Relation.ReflTransGen heap.Inherits p q ∧ heap.isLive q = true := by
  have hold : Relation.ReflTransGen heap.Inherits p q := by
    induction hpath with
    | refl => exact .refl
    | @tail x y _ hedge ih =>
      have hne : x ≠ (heap.allocate o).1 := by
        rintro rfl
        have hlive := hl.whole p hp _ ih
        rw [hl.exact.isLive_issued o] at hlive
        cases hlive
      rw [Inherits, hl.exact.get?_allocate_of_ne o hne] at hedge
      exact ih.tail hedge
  exact ⟨hold, hl.whole p hp q hold⟩

/-- **A new object** below the prototypes of the realm closes no circle. -/
theorem allocate (hl : heap.Lineal r) {o : Object}
    (ho : o.prototype = some r.objectPrototype ∨ o.prototype = some r.functionPrototype) :
    (heap.allocate o).2.Lineal r := by
  obtain ⟨p, hp, hproto⟩ : ∃ p, o.prototype = some p ∧ (p = r.objectPrototype ∨ p = r.functionPrototype) := by
    rcases ho with ho | ho
    · exact ⟨_, ho, .inl rfl⟩
    · exact ⟨_, ho, .inr rfl⟩
  refine ⟨hl.exact.allocate o, fun h hcycle => ?_, fun q hq q' hpath => ?_⟩
  · -- A circle is an old one, or it comes by the new object and goes on from the prototype of that.
    rcases hl.exact.path_allocate hp hcycle with hcycle | ⟨hto, hfrom⟩
    · exact hl.acyclic h hcycle
    · have hlive := (hl.chain_allocate o hproto (hfrom.trans hto)).2
      rw [hl.exact.isLive_issued o] at hlive
      cases hlive
  · obtain ⟨o', ho'⟩ := Option.isSome_iff_exists.mp (hl.chain_allocate o hq hpath).2
    rw [isLive]
    by_cases hne : q' = (heap.allocate o).1
    · rw [hne, get?_allocate hl.exact o]
      rfl
    · rw [hl.exact.get?_allocate_of_ne o hne, ho']
      rfl

/-- One operation of running code. -/
theorem own (hl : heap.Lineal r) {step : HeapStep} (hstep : step.IsOwn r) : (heap.perform step).Lineal r := by
  rcases hedit : step.edit? with _ | ⟨k, f⟩
  · cases step with
    | allocate o => exact hl.allocate hstep
    | collect envs roots => cases hstep
    | write | overwrite | define | delete | update => cases hedit
  · obtain ⟨hinherits, hlive⟩ : (heap.perform step).Inherits = heap.Inherits ∧
        ∀ h, (heap.perform step).isLive h = heap.isLive h := inherits_edit hstep hedit
    refine ⟨hl.exact.perform step, ?_, fun p hp q hpath => ?_⟩
    · rw [Acyclic, hinherits]
      exact hl.acyclic
    · rw [hinherits] at hpath
      rw [hlive]
      exact hl.whole p hp q hpath

/-- **Running code** closes no circle. -/
theorem works (hl : heap.Lineal r) {heap' : Heap} (h : r.Works heap heap') : heap'.Lineal r := by
  induction h with
  | refl => exact hl
  | tail _ hstep ih =>
    obtain ⟨step, hstep, rfl⟩ := hstep
    exact ih.own hstep

end Lineal

/-- A first object without a prototype, and others right below it. -/
theorem lineal_first (he : heap.Exact)
    (hinherits : ∀ h p, heap.Inherits h p → p = r.objectPrototype ∧ h ≠ r.objectPrototype)
    (hobject : heap.isLive r.objectPrototype = true) (hfunction : heap.isLive r.functionPrototype = true) :
    heap.Lineal r := by
  refine ⟨he, ?_, ?_⟩
  · apply acyclic_of_falling (fun h => if h = r.objectPrototype then 0 else 1)
    intro h p hedge
    obtain ⟨rfl, hne⟩ := hinherits h p hedge
    rw [if_pos rfl, if_neg hne]
    exact Nat.one_pos
  · intro p hp q hpath
    rcases hpath.cases_tail with rfl | ⟨h, -, hedge⟩
    · rcases hp with rfl | rfl
      · exact hobject
      · exact hfunction
    · rw [(hinherits h q hedge).1]
      exact hobject

end

end Heap

/-- **The objects of a new realm** are in no circles. -/
theorem Realm.lineal_create : Realm.create.2.heap.Lineal Realm.create.1 := by
  have hfirst : Heap.Lineal
      (((({} : Host).allocate none).2.allocate (some ⟨0, 0⟩)).2.allocate (some ⟨0, 0⟩)).2.heap
      Realm.create.1 := by
    refine Heap.lineal_first ?_ ?_ (by decide +kernel) (by decide +kernel)
    · exact ((Heap.exact_empty.allocate _).allocate _).allocate _
    · intro h p hedge
      obtain ⟨o, ho, hp⟩ := Option.bind_eq_some_iff.mp hedge
      have hslot := Heap.get?_eq_some_iff.mp ho
      obtain ⟨_ | _ | _ | index, generation⟩ := h
      · cases hslot
        cases hp
      · cases hslot
        cases hp
        exact ⟨rfl, by decide +kernel⟩
      · cases hslot
        cases hp
        exact ⟨rfl, by decide +kernel⟩
      · cases hslot
  refine hfirst.works ?_
  rw [Realm.create]
  dsimp only
  refine .trans ?_ (.hostMethod _ _ _ _ _ _)
  refine .trans ?_ (.define _ _ _ _ _)
  refine .trans ?_ (.hostMethod _ _ _ _ _ _)
  refine .trans ?_ (.hostMethod _ _ _ _ _ _)
  refine .trans ?_ (.hostObject _ _)
  refine .trans ?_ (.hostMethod _ _ _ _ _ _)
  exact .hostMethod _ _ _ _ _ _

end ScriptEngine
