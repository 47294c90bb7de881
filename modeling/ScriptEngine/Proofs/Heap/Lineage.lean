import ScriptEngine.Environment.Lookup
import ScriptEngine.Proofs.Heap.Prototypes
import ScriptEngine.Proofs.Machine.Chain

/-!
# Walks along the prototypes end

An object's prototype is fixed when the object is made, and it is a handle from before: there is no other
handle to give. So an object can only lie below older ones. The order in which handles were issued tells
which one is older even where a slot is used again, because no handle is issued twice; and a stale prototype
stays stale, because the slot it names has moved on for good.

Hence no chain of prototypes runs in circles, whatever the heap went through, and every walk along one comes by
each object at most once (`Heap.walks_end`): a lookup of a property, the list of the prototypes, and the
resolution of a name through environments.
-/

namespace ScriptEngine

namespace Heap

/-! ## Histories in which prototypes are older -/

/-- Whether an operation keeps prototypes older: a new object is made without one or below a handle that was
issued before, and an object that is changed in place keeps the one it has. -/
def staysBelow (heap : Heap) (issued : List Handle) : HeapStep → Bool
  | .allocate o => o.prototype.all fun p => issued.contains p
  | .update h o => (heap.get? h).all fun old => old.prototype == o.prototype
  | .write .. | .overwrite .. | .define .. | .delete .. | .collect .. => true

/-- Whether every operation of a sequence keeps prototypes older, where some handles were issued before. -/
def descends (heap : Heap) (issued : List Handle) : List HeapStep → Bool
  | [] => true
  | step :: rest =>
    heap.staysBelow issued step &&
      (heap.perform step).descends (issued ++ (heap.issued? step).toList) rest

/-- A heap in which every object was issued, and lies below one that was issued earlier. -/
structure Descended (heap : Heap) (issued : List Handle) : Prop where
  /-- The vacant slots are listed exactly. -/
  exact : heap.Exact
  /-- Every object has a handle that was issued. -/
  mem : ∀ h, heap.isLive h = true → h ∈ issued
  /-- A prototype was issued before. -/
  older : ∀ h p, heap.Inherits h p → p ∈ issued ∧ issued.idxOf p < issued.idxOf h

/-- Nothing was issued yet. -/
theorem descended_empty : ({} : Heap).Descended [] := by
  refine ⟨exact_empty, fun h hlive => ?_, fun h p hedge => ?_⟩
  · simp [isLive, get?] at hlive
  · simp [Inherits, get?] at hedge

section

variable {heap : Heap} {issued : List Handle}

/-- A collection brings in no object and changes none. -/
theorem get?_of_collect {envs : Environments} {roots : List Handle} {h : Handle} {o : Object}
    (ho : (heap.collect envs roots).2.get? h = some o) : heap.get? h = some o := by
  rw [get?_eq_some_iff, getElem?_collect] at ho
  split at ho
  · obtain ⟨old, -, hvacated⟩ := Option.map_eq_some_iff.mp ho
    exact absurd (congrArg Slot.object hvacated) (by simp)
  · exact get?_eq_some_iff.mpr ho

/-- **An object after an operation** is the one that was made, or it was there before and has the prototype
that it had. -/
theorem get?_of_perform (he : heap.Exact) {step : HeapStep} (hstep : heap.staysBelow issued step = true)
    {h : Handle} {o : Object} (ho : (heap.perform step).get? h = some o) :
    step = .allocate o ∧ heap.issued? step = some h ∨
      ∃ old, heap.get? h = some old ∧ old.prototype = o.prototype := by
  rcases hedit : step.edit? with _ | ⟨k, f⟩
  · cases step with
    | allocate made =>
      by_cases hnew : h = (heap.allocate made).1
      · subst hnew
        rw [perform, get?_allocate he] at ho
        obtain rfl := Option.some.inj ho
        exact .inl ⟨rfl, rfl⟩
      · rw [perform, he.get?_allocate_of_ne made hnew] at ho
        exact .inr ⟨o, ho, rfl⟩
    | collect envs roots => exact .inr ⟨o, get?_of_collect ho, rfl⟩
    | write | overwrite | define | delete | update => cases hedit
  · rw [get?_edit hedit] at ho
    obtain ⟨old, hold, rfl⟩ := Option.map_eq_some_iff.mp ho
    refine .inr ⟨old, hold, ?_⟩
    rcases hupdate : step.isUpdate with _ | _
    · exact (prototype_revise hupdate h old).symm
    · cases step with
      | update target o' =>
        rw [HeapStep.revise, HeapStep.edit?]
        by_cases hsame : target = h
        · subst hsame
          simp only [staysBelow, hold, Option.all_some, beq_iff_eq] at hstep
          simpa using hstep
        · simp [hsame]
      | allocate | write | overwrite | define | delete | collect => cases hupdate

/-- **One operation** puts new objects below older ones. -/
theorem Descended.perform (hd : heap.Descended issued) {step : HeapStep}
    (hstep : heap.staysBelow issued step = true)
    (hnodup : (issued ++ (heap.issued? step).toList).Nodup) :
    (heap.perform step).Descended (issued ++ (heap.issued? step).toList) := by
  refine ⟨hd.exact.perform step, fun h hlive => ?_, fun h p hedge => ?_⟩
  · obtain ⟨o, ho⟩ := Option.isSome_iff_exists.mp hlive
    rcases get?_of_perform hd.exact hstep ho with ⟨-, hissued⟩ | ⟨old, hold, -⟩
    · exact List.mem_append_right _ (by simp [hissued])
    · exact List.mem_append_left _ (hd.mem h (by simp [isLive, hold]))
  · obtain ⟨o, ho, hproto⟩ := Option.bind_eq_some_iff.mp hedge
    rcases get?_of_perform hd.exact hstep ho with ⟨rfl, hissued⟩ | ⟨old, hold, hsame⟩
    · -- The new handle comes last, and its prototype is among those before.
      have hp : p ∈ issued := by simpa [staysBelow, hproto] using hstep
      rw [hissued, Option.toList_some] at hnodup ⊢
      have hfresh : h ∉ issued := fun hmem =>
        (List.nodup_append.mp hnodup).2.2 h hmem h (List.mem_singleton.mpr rfl) rfl
      refine ⟨List.mem_append_left _ hp, ?_⟩
      rw [List.idxOf_append_of_mem hp, List.idxOf_append_of_notMem hfresh]
      exact Nat.lt_add_right _ (List.idxOf_lt_length_iff.mpr hp)
    · have hbefore : heap.Inherits h p := by rw [Inherits, hold, Option.bind_some, hsame, hproto]
      obtain ⟨hp, hlt⟩ := hd.older h p hbefore
      have hh : h ∈ issued := hd.mem h hbefore.isLive
      refine ⟨List.mem_append_left _ hp, ?_⟩
      rwa [List.idxOf_append_of_mem hp, List.idxOf_append_of_mem hh]

/-- **A sequence of operations** does. -/
theorem Descended.performAll (hd : heap.Descended issued) {steps : List HeapStep}
    (hsteps : heap.descends issued steps = true) (hnodup : (issued ++ heap.issues steps).Nodup) :
    (heap.performAll steps).Descended (issued ++ heap.issues steps) := by
  induction steps generalizing heap issued with
  | nil => simpa [Heap.performAll, issues] using hd
  | cons step rest ih =>
    rw [descends, Bool.and_eq_true] at hsteps
    rw [issues, ← List.append_assoc] at hnodup ⊢
    exact ih (hd.perform hsteps.1 (List.nodup_append.mp hnodup).1) hsteps.2 hnodup

/-- Objects that lie below older ones lie in no circle. -/
theorem Descended.acyclic (hd : heap.Descended issued) : heap.Acyclic :=
  acyclic_of_falling issued.idxOf fun h p hedge => (hd.older h p hedge).2

/-! ## The length of a walk -/

/-- There are no more handles with objects than objects. -/
theorem Exact.length_le_liveCount (he : heap.Exact) {handles : List Handle}
    (hlive : ∀ k ∈ handles, heap.isLive k = true) (hnodup : handles.Nodup) :
    handles.length ≤ heap.liveCount := by
  -- Their slots are occupied, and so they are none of those that are listed as free.
  have hall : (handles.map Handle.index ++ heap.free).Nodup := by
    refine List.nodup_append.mpr ⟨nodup_index hlive hnodup, he.nodup, ?_⟩
    rintro i hi j hj rfl
    obtain ⟨k, hk, rfl⟩ := List.mem_map.mp hi
    obtain ⟨o, ho⟩ := Option.isSome_iff_exists.mp (hlive k hk)
    have hvacant := he.sound.vacant _ hj _ (get?_eq_some_iff.mp ho)
    cases hvacant
  have hsub : handles.map Handle.index ++ heap.free ⊆ List.range heap.slots.size := by
    intro i hi
    rcases List.mem_append.mp hi with hi | hi
    · obtain ⟨k, hk, rfl⟩ := List.mem_map.mp hi
      exact List.mem_range.mpr (index_lt_of_isLive (hlive k hk))
    · exact List.mem_range.mpr (he.inside i hi)
  have hle := (hall.subperm hsub).length_le
  rw [List.length_append, List.length_map, List.length_range] at hle
  rw [liveCount]
  omega

/-- **A walk is no longer than there are objects**, but for the handle it ends with. -/
theorem Climbs.length_le (he : heap.Exact) (ha : heap.Acyclic) {h : Handle} {path : List Handle}
    (hpath : heap.Climbs h path) : path.length ≤ heap.liveCount + 1 := by
  have hlive : ∀ k ∈ path.dropLast, heap.isLive k = true := fun k hk => hpath.isLive hk
  have hnodup : path.dropLast.Nodup := (hpath.nodup ha).sublist (List.dropLast_sublist path)
  have hle := he.length_le_liveCount hlive hnodup
  rw [List.length_dropLast] at hle
  omega

/-- The prototypes are what a walk comes by after its start. -/
theorem Climbs.prototypes {h : Handle} {path : List Handle} (hpath : heap.Climbs h path)
    (hlength : path.length ≤ heap.slots.size + 1) : heap.prototypes h = path.tail := by
  rw [Heap.prototypes]
  cases hpath with
  | last top =>
    rw [top]
    rfl
  | up edge more =>
    rw [edge, more.prototypesWithin, List.tail_cons]
    rw [List.length_cons] at hlength
    exact List.take_of_length_le (by omega)

end

end Heap

/-! ## Resolving names -/

namespace Environments

/-- The resolution of a name for as long as there is an environment around, with searches that go on for as
long as there is a prototype. -/
inductive Resolves (es : Environments) (heap : Heap) (name : String) : Option EnvId → Binding → Prop
  /-- There is no environment any more. -/
  | out : Resolves es heap name none .unbound
  /-- The object of the environment has or inherits a property of that name. -/
  | property {id : EnvId} {E : Environment} {h k : Handle} (here : es.get? id = some E)
      (object : E.kind = .object h) (found : heap.Searches name h (some k)) :
      Resolves es heap name (some id) (.property h)
  /-- It does not, and the resolution goes on outside. -/
  | pass {id : EnvId} {E : Environment} {h : Handle} {b : Binding} (here : es.get? id = some E)
      (object : E.kind = .object h) (lacks : heap.Searches name h none)
      (more : Resolves es heap name E.parent b) : Resolves es heap name (some id) b
  /-- The environment has a variable of that name. -/
  | slot {id : EnvId} {E : Environment} {names : Array String} {i : Nat} (here : es.get? id = some E)
      (plain : E.kind = .variables names) (found : names.findIdx? (· == name) = some i) :
      Resolves es heap name (some id) (.slot id i)
  /-- It has none, and the resolution goes on outside. -/
  | skip {id : EnvId} {E : Environment} {names : Array String} {b : Binding} (here : es.get? id = some E)
      (plain : E.kind = .variables names) (lacks : names.findIdx? (· == name) = none)
      (more : Resolves es heap name E.parent b) : Resolves es heap name (some id) b

/-- **The resolution of a name ends** where no chain of prototypes runs in circles. -/
theorem Grounded.resolves {es : Environments} (hes : es.Grounded) {heap : Heap} (ha : heap.Acyclic)
    (name : String) {id : EnvId} {E : Environment} (hE : es.get? id = some E) :
    es.Resolves heap name (some id) (es.resolve heap id name) := by
  obtain ⟨n, hn⟩ : ∃ n, id.index = n := ⟨_, rfl⟩
  induction n using Nat.strongRecOn generalizing id E with
  | ind n ih =>
    -- What is not bound here is bound where the rest of the chain binds it.
    obtain ⟨rest, hchain, hmore⟩ : ∃ rest, es.chain id = id :: rest ∧
        es.Resolves heap name E.parent ((rest.findSome? (es.bindingAt? heap name)).getD .unbound) := by
      have hchain := hes.chain_eq hE
      rcases hparent : E.parent with _ | p
      · rw [hparent] at hchain
        exact ⟨[], hchain, .out⟩
      · rw [hparent] at hchain
        have hlt := hes id E hE p hparent
        have hsize : id.index < es.store.size := has_of_get? hE id rfl
        have hp : p.index < es.store.size := Nat.lt_trans hlt hsize
        exact ⟨es.chain p, hchain,
          ih p.index (hn ▸ hlt) (E := es.store[p.index]) (Array.getElem?_eq_getElem hp) rfl⟩
    rw [resolve, hchain, List.findSome?_cons]
    rcases hkind : E.kind with names | h
    · have hat : es.bindingAt? heap name id = (names.findIdx? (· == name)).map (.slot id) := by
        rw [bindingAt?, hE, Option.map_some, hkind]
      rcases hfound : names.findIdx? (· == name) with _ | i
      · rw [hat, hfound]
        exact .skip hE hkind hfound hmore
      · rw [hat, hfound]
        exact .slot hE hkind hfound
    · have hat : es.bindingAt? heap name id =
          if (heap.holder? h name).isSome then some (.property h) else none := by
        rw [bindingAt?, hE, Option.map_some, hkind]
        rfl
      have hsearch := ha.searches name h
      rcases hfound : heap.holder? h name with _ | k
      · rw [hfound] at hat hsearch
        rw [hat]
        exact .pass hE hkind hsearch hmore
      · rw [hfound] at hat hsearch
        rw [hat]
        exact .property hE hkind hsearch

end Environments

namespace Heap

/-- **Walks along the prototypes end.** After any sequence of operations on an empty heap, in which objects
are made below handles that were issued before and no slot is released as often as there are generations,
no chain of prototypes runs in circles. From every handle there is a walk along the prototypes, which comes
by no handle twice and by at most one more than there are objects; and everything that follows the prototypes
follows this walk: the list of the prototypes, the lookup of a property, the test for one, and reading it.
Hence the resolution of a name ends as well, from every environment. -/
theorem walks_end (steps : List HeapStep) (hlimit : ∀ i, ({} : Heap).releases i steps < 2 ^ 32)
    (hbelow : ({} : Heap).descends [] steps = true) :
    let heap := ({} : Heap).performAll steps
    heap.Acyclic ∧
    (∀ h, ∃ path, heap.Climbs h path ∧ path.Nodup ∧ path.length ≤ heap.liveCount + 1 ∧
      heap.prototypes h = path.tail ∧
      ∀ name, let holder := path.find? fun k => (heap.own? k name).isSome
        heap.Searches name h holder ∧ heap.holder? h name = holder ∧
        heap.hasProperty h name = holder.isSome ∧
        heap.read h name = (holder.map (heap.readOwn · name)).getD (.value .undefined)) ∧
    ∀ es : Environments, es.Grounded → ∀ id, (es.get? id).isSome → ∀ name,
      es.Resolves heap name (some id) (es.resolve heap id name) := by
  intro heap
  have hd : heap.Descended (({} : Heap).issues steps) := by
    have hissued := descended_empty.performAll hbelow (by simpa using nodup_issues exact_empty hlimit)
    simpa using hissued
  refine ⟨hd.acyclic, fun h => ?_, fun es hes id hid name => ?_⟩
  · obtain ⟨path, hpath, hlength⟩ := hd.acyclic.climbs h
    refine ⟨path, hpath, hpath.nodup hd.acyclic, hpath.length_le hd.exact hd.acyclic,
      hpath.prototypes hlength, fun name => ?_⟩
    have hholder : heap.holder? h name = path.find? fun k => (heap.own? k name).isSome :=
      hpath.holderWithin name hlength
    refine ⟨hpath.searches name, hholder, by rw [hasProperty, hholder], ?_⟩
    rw [read, hholder]
    rcases path.find? fun k => (heap.own? k name).isSome with _ | k
    · rfl
    · rfl
  · obtain ⟨E, hE⟩ := Option.isSome_iff_exists.mp hid
    exact hes.resolves hd.acyclic name hE

/-- An object takes over the slot of its prototype, which was freed. The prototype is stale, and not the
object itself, so that the walk ends there; and so does the resolution of a name that passes by the object. -/
theorem walks_end_stalePrototype :
    let steps : List HeapStep := [.allocate {}, .collect {} [], .allocate { prototype := some ⟨0, 0⟩ }]
    let heap := ({} : Heap).performAll steps
    let es := (Environments.push {} ⟨.object ⟨0, 1⟩, #[], none⟩).2
    (∃ path, heap.Climbs ⟨0, 1⟩ path ∧ path.Nodup ∧ path.length ≤ heap.liveCount + 1) ∧
      es.Resolves heap "x" (some ⟨0⟩) (es.resolve heap ⟨0⟩ "x") := by
  intro steps heap es
  have hlimit : ∀ i, ({} : Heap).releases i steps < 2 ^ 32 := fun i =>
    Nat.lt_of_le_of_lt (releases_le_length _ i steps) (by decide)
  obtain ⟨-, hwalk, hresolve⟩ := walks_end steps hlimit (by decide)
  have hnone : Environments.Grounded {} := fun id E hE => by simp [Environments.get?] at hE
  have hes : es.Grounded := hnone.push fun _ hparent => by cases hparent
  obtain ⟨path, hpath, hnodup, hlength, -⟩ := hwalk ⟨0, 1⟩
  exact ⟨⟨path, hpath, hnodup, hlength⟩, hresolve es hes ⟨0⟩ rfl "x"⟩

end Heap

end ScriptEngine
