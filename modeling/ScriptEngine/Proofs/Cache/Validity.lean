import ScriptEngine.Machine.Execute
import ScriptEngine.Proofs.Heap.Shape

/-!
# What a site remembers is true

A cache is *valid* if, under its guard, what it remembers is what the general lookup would find now
(`Strategy.Holds`). Validity survives every operation on the heap: what a call of a function object runs
is fixed, and everything else is guarded by the epoch. So a site can always be answered from the heap
alone, and the three ways of looking something up through a site (`World.memberHolder`,
`World.writeObject`, `World.globalTarget`) give what the heap gives, in every mode.
-/

namespace ScriptEngine

/-! ## Valid strategies -/

/-- What the strategy of a site for a name remembers is what a lookup would find now. Remembered epochs
never lie ahead of the heap's. -/
def Strategy.Holds (heap : Heap) (name : String) : Strategy → Prop
  | .uninitialized => True
  | .globalCall callee target => heap.callable? callee = some target
  | .propertyLoad r e holder | .methodCall r e holder =>
    e ≤ heap.epoch ∧ (e = heap.epoch → heap.holder? r name = some holder)
  | .propertyStore r e =>
    e ≤ heap.epoch ∧ (e = heap.epoch →
      ∃ v flags, heap.own? r name = some (.data v flags) ∧ flags.writable = true)

/-- A strategy that holds goes on holding while the heap evolves. -/
theorem Strategy.Holds.keeps {a b : Heap} (h : a.Keeps b) {name : String} {s : Strategy}
    (hs : s.Holds a name) : s.Holds b name := by
  -- A remembered epoch that is the heap's now was the heap's before: epochs only grow.
  have hepoch : ∀ e, e ≤ a.epoch → e = b.epoch → e = a.epoch ∧ a.epoch = b.epoch := by
    intro e hle he
    have := h.epoch_le
    omega
  cases s with
  | uninitialized => trivial
  | globalCall callee target => exact h.callable? hs
  | propertyLoad r e holder =>
    refine ⟨Nat.le_trans hs.1 h.epoch_le, fun he => ?_⟩
    obtain ⟨he', hab⟩ := hepoch e hs.1 he
    exact h.holder? hab (hs.2 he')
  | methodCall r e holder =>
    refine ⟨Nat.le_trans hs.1 h.epoch_le, fun he => ?_⟩
    obtain ⟨he', hab⟩ := hepoch e hs.1 he
    exact h.holder? hab (hs.2 he')
  | propertyStore r e =>
    refine ⟨Nat.le_trans hs.1 h.epoch_le, fun he => ?_⟩
    obtain ⟨he', hab⟩ := hepoch e hs.1 he
    obtain ⟨v, flags, hown, hw⟩ := hs.2 he'
    obtain ⟨q, hq, hfits⟩ := h.own? hab hown
    cases q with
    | data v' flags' => exact ⟨v', flags', hq, hfits.1 ▸ hw⟩
    | accessor g s f => exact hfits.elim

/-- The strategy that a lookup leaves behind holds. -/
theorem Access.strategy_holds {heap : Heap} {name : String} {r holder : Handle} (access : Access)
    (hfound : heap.holder? r name = some holder) :
    (access.strategy r heap.epoch holder).Holds heap name := by
  cases access <;> exact ⟨Nat.le_refl _, fun _ => hfound⟩

/-- A guard that lets a lookup through names the object that the lookup would find. -/
theorem Strategy.Holds.holder? {heap : Heap} {name : String} {s : Strategy} (hs : s.Holds heap name)
    {access : Access} {r holder : Handle} (hguard : s.holder? access r heap.epoch = some holder) :
    heap.holder? r name = some holder := by
  cases access <;> cases s <;> simp only [Strategy.holder?, reduceCtorEq] at hguard
  all_goals
    split at hguard
    · next hmatch =>
      obtain ⟨rfl, rfl⟩ := hmatch
      exact Option.some.inj hguard ▸ hs.2 rfl
    · exact absurd hguard (by simp)

/-! ## Valid caches -/

/-- The site of a number, in the loaded units. -/
def Machine.site? (m : Machine) (id : SiteId) : Option CallSite :=
  (m.units[id.unit]?.bind (·.function? id.function)).bind (·.sites[id.index]?)

/-- Every cache belongs to a site of the loaded units, and what it remembers is true on the heap. -/
def Caches.Hold (m : Machine) (heap : Heap) (cs : Caches) : Prop :=
  ∀ id c, cs.get? id = some c → ∃ site, m.site? id = some site ∧ c.strategy.Holds heap site.name

namespace Caches

variable {m : Machine} {heap : Heap} {cs : Caches}

/-- Where no site has run, nothing false is remembered. -/
theorem hold_empty (m : Machine) (heap : Heap) : ({} : Caches).Hold m heap := by
  intro id c hc
  simp [get?] at hc

/-- Caches stay valid while the heap evolves. -/
theorem Hold.keeps (hcs : cs.Hold m heap) {heap' : Heap} (h : heap.Keeps heap') :
    cs.Hold m heap' := by
  intro id c hc
  obtain ⟨site, hsite, hs⟩ := hcs id c hc
  exact ⟨site, hsite, hs.keeps h⟩

/-- Caches stay valid if one site remembers something else that is true. -/
theorem Hold.update (hcs : cs.Hold m heap) {id : SiteId} {site : CallSite}
    (hsite : m.site? id = some site) {f : InlineCache → InlineCache}
    (hf : (f ((cs.get? id).getD {})).strategy.Holds heap site.name) : (cs.update id f).Hold m heap := by
  intro other c hc
  rw [get?_update] at hc
  by_cases hid : id = other
  · subst hid
    rw [if_pos rfl] at hc
    obtain rfl := Option.some.inj hc
    exact ⟨site, hsite, hf⟩
  · rw [if_neg hid] at hc
    exact hcs other c hc

/-- A hit leaves the caches valid, and comes from a strategy that holds. -/
theorem Hold.probe (hcs : cs.Hold m heap) {α : Type} (mode : CacheMode) {id : SiteId}
    {site : CallSite} (hsite : m.site? id = some site) (guard : Strategy → Option α) :
    (cs.probe mode id guard).2.Hold m heap ∧
      ∀ a, (cs.probe mode id guard).1 = some a →
        ∃ s : Strategy, s.Holds heap site.name ∧ guard s = some a := by
  cases mode with
  | alwaysRebind => exact ⟨hcs, fun a ha => absurd ha (by simp [Caches.probe])⟩
  | disabled => exact ⟨hcs, fun a ha => absurd ha (by simp [Caches.probe])⟩
  | enabled =>
    rw [Caches.probe]
    rcases hfound : (cs.get? id).bind fun c => guard c.strategy with _ | a
    · exact ⟨hcs, fun a ha => absurd ha (by simp)⟩
    · obtain ⟨c, hc, hguard⟩ := Option.bind_eq_some_iff.mp hfound
      obtain ⟨site', hsite', hs⟩ := hcs id c hc
      obtain rfl := Option.some.inj (hsite.symm.trans hsite')
      refine ⟨hcs.update hsite ?_, fun b hb => ?_⟩
      · simpa [hc, InlineCache.hit] using hs
      · obtain rfl := Option.some.inj hb
        exact ⟨c.strategy, hs, hguard⟩

/-- A miss that remembers something true leaves the caches valid. -/
theorem Hold.rebind (hcs : cs.Hold m heap) {mode : CacheMode} {id : SiteId} {site : CallSite}
    (hsite : m.site? id = some site) {s : Strategy} (hs : s.Holds heap site.name) :
    (cs.rebind mode id s).Hold m heap := by
  cases mode with
  | disabled => exact hcs
  | enabled => exact hcs.update hsite hs
  | alwaysRebind => exact hcs.update hsite hs

/-- A miss that remembers nothing leaves the caches valid. -/
theorem Hold.uncacheable (hcs : cs.Hold m heap) {mode : CacheMode} {id : SiteId} {site : CallSite}
    (hsite : m.site? id = some site) : (cs.uncacheable mode id).Hold m heap :=
  hcs.rebind hsite trivial

end Caches

/-! ## Lookups through a site -/

/-- Two worlds that differ at most in what sites remember. -/
structure World.SameData (w w' : World) : Prop where
  /-- The objects are the same. -/
  heap : w'.heap = w.heap
  /-- The environments are the same. -/
  envs : w'.envs = w.envs
  /-- The log is the same. -/
  log : w'.log = w.log

namespace World

variable {m : Machine} {w : World} {id : SiteId} {site : CallSite}

/-- **Reading through a site** gives what the lookup on the heap gives, and changes at most the
caches. -/
theorem memberHolder_spec (mode : CacheMode) (hw : w.caches.Hold m w.heap)
    (hsite : m.site? id = some site) (access : Access) (r : Handle) :
    (w.memberHolder mode id access r site.name).1 = w.heap.holder? r site.name ∧
      w.SameData (w.memberHolder mode id access r site.name).2 ∧
      (w.memberHolder mode id access r site.name).2.caches.Hold m w.heap := by
  obtain ⟨heap, envs, caches, log⟩ := w
  obtain ⟨hcs, hhit⟩ := hw.probe mode hsite (Strategy.holder? access r heap.epoch)
  rw [memberHolder]
  rcases hprobe : caches.probe mode id (Strategy.holder? access r heap.epoch) with ⟨_ | holder, cs⟩
  · rw [hprobe] at hcs
    simp only
    rcases hfound : heap.holder? r site.name with _ | holder
    · exact ⟨rfl, ⟨rfl, rfl, rfl⟩, hcs.uncacheable hsite⟩
    · exact ⟨rfl, ⟨rfl, rfl, rfl⟩, hcs.rebind hsite (access.strategy_holds hfound)⟩
  · rw [hprobe] at hcs hhit
    obtain ⟨s, hs, hguard⟩ := hhit holder rfl
    exact ⟨(hs.holder? hguard).symm, ⟨rfl, rfl, rfl⟩, hcs⟩

/-- **Calling through a site** runs what the function object runs, and changes at most the caches. -/
theorem globalTarget_spec (mode : CacheMode) (hw : w.caches.Hold m w.heap)
    (hsite : m.site? id = some site) (callee : Value) :
    (w.globalTarget mode id callee).1 = callee.object?.bind w.heap.callable? ∧
      w.SameData (w.globalTarget mode id callee).2 ∧
      (w.globalTarget mode id callee).2.caches.Hold m w.heap := by
  obtain ⟨heap, envs, caches, log⟩ := w
  cases callee with
  | object h =>
    obtain ⟨hcs, hhit⟩ := hw.probe mode hsite (Strategy.target? h)
    rw [globalTarget]
    rcases hprobe : caches.probe mode id (Strategy.target? h) with ⟨_ | target, cs⟩
    · rw [hprobe] at hcs
      simp only [Value.object?, Option.bind_some]
      rcases hfound : heap.callable? h with _ | target
      · exact ⟨rfl, ⟨rfl, rfl, rfl⟩, hcs.uncacheable hsite⟩
      · exact ⟨rfl, ⟨rfl, rfl, rfl⟩, hcs.rebind hsite hfound⟩
    · rw [hprobe] at hcs hhit
      obtain ⟨s, hs, hguard⟩ := hhit target rfl
      refine ⟨?_, ⟨rfl, rfl, rfl⟩, hcs⟩
      cases s with
      | globalCall c t =>
        simp only [Strategy.target?] at hguard
        split at hguard
        · next hc =>
          subst hc
          exact (hs.trans hguard).symm
        · exact absurd hguard (by simp)
      | uninitialized => exact absurd hguard (by simp [Strategy.target?])
      | propertyLoad r e holder => exact absurd hguard (by simp [Strategy.target?])
      | propertyStore r e => exact absurd hguard (by simp [Strategy.target?])
      | methodCall r e holder => exact absurd hguard (by simp [Strategy.target?])
  | undefined => exact ⟨rfl, ⟨rfl, rfl, rfl⟩, hw.uncacheable hsite⟩
  | null => exact ⟨rfl, ⟨rfl, rfl, rfl⟩, hw.uncacheable hsite⟩
  | bool b => exact ⟨rfl, ⟨rfl, rfl, rfl⟩, hw.uncacheable hsite⟩
  | number n => exact ⟨rfl, ⟨rfl, rfl, rfl⟩, hw.uncacheable hsite⟩
  | string s => exact ⟨rfl, ⟨rfl, rfl, rfl⟩, hw.uncacheable hsite⟩

/-- **Writing through a site** does to the heap what a write does, and changes nothing else but the
caches. In particular a guard that holds never fails to overwrite. -/
theorem writeObject_spec (mode : CacheMode) (hw : w.caches.Hold m w.heap) (hsound : w.heap.Sound)
    (hsite : m.site? id = some site) (r : Handle) (v : Value) :
    (w.writeObject mode id r site.name v).1 = (w.heap.write r site.name v).1 ∧
      (w.writeObject mode id r site.name v).2.heap = (w.heap.write r site.name v).2 ∧
      (w.writeObject mode id r site.name v).2.envs = w.envs ∧
      (w.writeObject mode id r site.name v).2.log = w.log ∧
      (w.writeObject mode id r site.name v).2.caches.Hold m (w.heap.write r site.name v).2 := by
  obtain ⟨heap, envs, caches, log⟩ := w
  obtain ⟨hcs, hhit⟩ := hw.probe mode hsite
    (fun s => if Strategy.storesTo r heap.epoch s then some () else none)
  have hkeeps := ((Heap.Change.write heap r site.name v).keeps hsound).2
  rw [writeObject]
  rcases hprobe : caches.probe mode id
    (fun s => if Strategy.storesTo r heap.epoch s then some () else none) with ⟨hit, cs⟩
  rw [hprobe] at hcs hhit
  -- The general write, which also follows a guard that does not hold.
  have hgeneral : ∀ result heap', heap.write r site.name v = (result, heap') →
      cs.Hold m heap' ∧ (result = .stored → (Strategy.propertyStore r heap'.epoch).Holds heap'
        site.name) := by
    intro result heap' hwrite
    rw [hwrite] at hkeeps
    refine ⟨hcs.keeps hkeeps, fun hres => ⟨Nat.le_refl _, fun _ => ?_⟩⟩
    have hstored : (heap.write r site.name v).1 = .stored := by rw [hwrite, hres]
    obtain ⟨flags, hown, hflags⟩ := Heap.own?_write hstored
    rw [hwrite] at hown
    exact ⟨v, flags, hown, hflags⟩
  rcases hit with _ | u
  · simp only [Option.bind_none]
    rcases hwrite : heap.write r site.name v with ⟨result, heap'⟩
    obtain ⟨hold, hstore⟩ := hgeneral result heap' hwrite
    cases result with
    | stored => exact ⟨rfl, rfl, rfl, rfl, hold.rebind hsite (hstore rfl)⟩
    | ignored => exact ⟨rfl, rfl, rfl, rfl, hold.uncacheable hsite⟩
    | setter s => exact ⟨rfl, rfl, rfl, rfl, hold.uncacheable hsite⟩
  · obtain ⟨s, hs, hguard⟩ := hhit u rfl
    have hown : ∃ v₀ flags, heap.own? r site.name = some (.data v₀ flags) ∧
        flags.writable = true := by
      cases s with
      | propertyStore r' e =>
        simp only [Strategy.storesTo, decide_eq_true_eq] at hguard
        split at hguard
        · next hmatch =>
          obtain ⟨rfl, rfl⟩ := hmatch
          exact hs.2 rfl
        · exact absurd hguard (by simp)
      | uninitialized => exact absurd hguard (by simp [Strategy.storesTo])
      | globalCall c t => exact absurd hguard (by simp [Strategy.storesTo])
      | propertyLoad r' e holder => exact absurd hguard (by simp [Strategy.storesTo])
      | methodCall r' e holder => exact absurd hguard (by simp [Strategy.storesTo])
    obtain ⟨v₀, flags, hown, hflags⟩ := hown
    obtain ⟨hstored, hover⟩ := Heap.overwrite?_eq_write hown hflags v
    simp only [Option.bind_some, hover]
    exact ⟨hstored.symm, trivial, trivial, trivial, hcs.keeps hkeeps⟩

end World

end ScriptEngine
