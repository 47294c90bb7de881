import ScriptEngine.Proofs.Cache.Transparency
import ScriptEngine.Proofs.Machine.Tracking

/-!
# What sites remember after a collection

What a site remembers of a property is guarded by the epoch, and a collection that frees anything moves
the epoch. What it remembers of a function object is guarded by the handle alone: once the object is
freed, the site still remembers what it used to run. So after a collection less is true of the caches
than before: *recall* (`Caches.Recall`) is validity of all but the remembered calls.

Recall is enough for every instruction but one. An instruction does the same as without caches, unless
it is a call that *strays*: one of a function object that the site remembers and that no longer runs
what is remembered (`Machine.execute_steady`). The proof compares the caches with those that are left
without the calls that are out of date (`Caches.current`): these are valid, and nothing but a call that
strays can tell the two apart. Steps and runs follow (`Machine.step_steady`, `Machine.run_steady`).
-/

namespace ScriptEngine

/-! ## What sites remember after a collection -/

/-- What the strategy of a site remembers of properties is what a lookup would find now. What it
remembers of a function object is left open: the object may have been freed since. -/
def Strategy.Recalls (heap : Heap) (name : String) : Strategy → Prop
  | .globalCall _ _ => True
  | s => s.Holds heap name

/-- Whether the function object that a strategy remembers, if it does, still runs what is remembered. -/
def Strategy.isCurrent (heap : Heap) : Strategy → Bool
  | .globalCall callee target => heap.callable? callee = some target
  | _ => true

/-- What holds is recalled. -/
theorem Strategy.Holds.recalls {heap : Heap} {name : String} {s : Strategy} (h : s.Holds heap name) :
    s.Recalls heap name := by
  cases s with
  | globalCall callee target => trivial
  | _ => exact h

/-- What is recalled holds, if it is current. -/
theorem Strategy.Recalls.holds {heap : Heap} {name : String} {s : Strategy} (h : s.Recalls heap name)
    (hcurrent : s.isCurrent heap = true) : s.Holds heap name := by
  cases s with
  | globalCall callee target =>
    have hruns : heap.callable? callee = some target := of_decide_eq_true hcurrent
    exact hruns
  | _ => exact h

/-- Only calls go out of date without a guard. -/
theorem Strategy.exists_of_isCurrent_eq_false {heap : Heap} {s : Strategy}
    (h : s.isCurrent heap = false) :
    ∃ callee target, s = .globalCall callee target ∧ heap.callable? callee ≠ some target := by
  cases s with
  | globalCall callee target => exact ⟨callee, target, rfl, of_decide_eq_false h⟩
  | _ => cases h

/-- What is recalled goes on being recalled while the heap evolves. -/
theorem Strategy.Recalls.keeps {a b : Heap} (h : a.Keeps b) {name : String} {s : Strategy}
    (hs : s.Recalls a name) : s.Recalls b name := by
  cases s with
  | globalCall callee target => trivial
  | uninitialized => trivial
  | propertyLoad r e holder => exact Strategy.Holds.keeps (s := .propertyLoad r e holder) h hs
  | propertyStore r e => exact Strategy.Holds.keeps (s := .propertyStore r e) h hs
  | methodCall r e holder => exact Strategy.Holds.keeps (s := .methodCall r e holder) h hs

/-- What is recalled goes on being recalled when the epoch moves, whatever else happens: every guard
on a property has closed. -/
theorem Strategy.Recalls.epoch_lt {a b : Heap} (h : a.epoch < b.epoch) {name : String} {s : Strategy}
    (hs : s.Recalls a name) : s.Recalls b name := by
  have hclosed : ∀ e, e ≤ a.epoch → e ≤ b.epoch ∧ e ≠ b.epoch := fun e he => by omega
  cases s with
  | globalCall callee target => trivial
  | uninitialized => trivial
  | propertyLoad r e holder =>
    exact ⟨(hclosed e hs.1).1, fun he => absurd he (hclosed e hs.1).2⟩
  | propertyStore r e => exact ⟨(hclosed e hs.1).1, fun he => absurd he (hclosed e hs.1).2⟩
  | methodCall r e holder =>
    exact ⟨(hclosed e hs.1).1, fun he => absurd he (hclosed e hs.1).2⟩

namespace Caches

/-- What a site remembers, if it ever ran. -/
def remembered? (cs : Caches) (id : SiteId) : Option Strategy := (cs.get? id).map (·.strategy)

/-- The caches without the calls that are out of date. -/
def current (cs : Caches) (heap : Heap) : Caches :=
  ⟨cs.table.filter fun _ c => c.strategy.isCurrent heap⟩

/-- Every cache belongs to a site of the loaded units, and what it remembers of properties is true on
the heap. -/
def Recall (m : Machine) (heap : Heap) (cs : Caches) : Prop :=
  ∀ id s, cs.remembered? id = some s → ∃ site, m.site? id = some site ∧ s.Recalls heap site.name

/-- Two tables of caches remember the same, but for calls that only the first one remembers. -/
def Like (m : Machine) (cs cs' : Caches) : Prop :=
  ∀ id, cs.remembered? id = cs'.remembered? id ∨
    ∃ callee target site, cs.remembered? id = some (.globalCall callee target) ∧ m.site? id = some site

variable {m : Machine} {heap : Heap} {cs cs' : Caches}

/-- What is remembered without the calls that are out of date. -/
theorem remembered?_current (cs : Caches) (heap : Heap) (id : SiteId) :
    (cs.current heap).remembered? id = (cs.remembered? id).filter (·.isCurrent heap) := by
  simp only [remembered?, get?, current, Std.HashMap.getElem?_filter']
  rcases cs.table[id]? with _ | c
  · rfl
  · rcases hc : c.strategy.isCurrent heap <;> simp [Option.filter, hc]

/-- A guard that is tried changes nothing that is remembered. -/
@[simp] theorem remembered?_probe {α : Type} (mode : CacheMode) (cs : Caches) (id : SiteId)
    (guard : Strategy → Option α) (other : SiteId) :
    (cs.probe mode id guard).2.remembered? other = cs.remembered? other := by
  cases mode with
  | enabled =>
    rw [probe]
    rcases hfound : (cs.get? id).bind fun c => guard c.strategy with _ | a
    · rfl
    · obtain ⟨c, hc, -⟩ := Option.bind_eq_some_iff.mp hfound
      rw [remembered?, get?_update]
      by_cases hid : id = other
      · subst hid
        simp [remembered?, hc, InlineCache.hit]
      · rw [if_neg hid, remembered?]
  | alwaysRebind => rfl
  | disabled => rfl

/-- What is remembered after a lookup. -/
theorem remembered?_rebind (mode : CacheMode) (cs : Caches) (id : SiteId) (s : Strategy) (other : SiteId) :
    (cs.rebind mode id s).remembered? other =
      if mode ≠ .disabled ∧ id = other then some s else cs.remembered? other := by
  have hupdate : (cs.update id (·.rebind s)).remembered? other =
      if id = other then some s else cs.remembered? other := by
    rw [remembered?, get?_update]
    by_cases hid : id = other
    · simp [hid, InlineCache.rebind]
    · simp [hid, remembered?]
  cases mode with
  | disabled => simp [rebind]
  | enabled => simpa [rebind] using hupdate
  | alwaysRebind => simpa [rebind] using hupdate

/-- What a guard lets through, in any mode. -/
theorem probe_fst {α : Type} (mode : CacheMode) (cs : Caches) (id : SiteId)
    (guard : Strategy → Option α) :
    (cs.probe mode id guard).1 = if mode = .enabled then (cs.remembered? id).bind guard else none := by
  cases mode with
  | enabled =>
    rw [probe, remembered?]
    rcases cs.get? id with _ | c
    · rfl
    · simp only [Option.bind_some, Option.map_some, if_true]
      rcases guard c.strategy <;> rfl
  | alwaysRebind => rfl
  | disabled => rfl

/-- Caches that hold are recalled. -/
theorem Hold.recalls (h : cs.Hold m heap) : cs.Recall m heap := by
  intro id s hs
  obtain ⟨c, hc, rfl⟩ := Option.map_eq_some_iff.mp hs
  obtain ⟨site, hsite, hholds⟩ := h id c hc
  exact ⟨site, hsite, hholds.recalls⟩

namespace Recall

/-- Without the calls that are out of date, the caches hold. -/
theorem current (h : cs.Recall m heap) : (cs.current heap).Hold m heap := by
  intro id c hc
  have hs : (cs.current heap).remembered? id = some c.strategy := by rw [remembered?, hc]; rfl
  rw [remembered?_current, Option.filter_eq_some_iff] at hs
  obtain ⟨site, hsite, hrecalls⟩ := h id _ hs.1
  exact ⟨site, hsite, hrecalls.holds hs.2⟩

/-- The caches are as they are without the calls that are out of date, but for these. -/
theorem like_current (h : cs.Recall m heap) : cs.Like m (cs.current heap) := by
  intro id
  rw [remembered?_current]
  rcases hs : cs.remembered? id with _ | s
  · exact .inl rfl
  · rcases hcurrent : s.isCurrent heap
    · obtain ⟨callee, target, rfl, -⟩ := Strategy.exists_of_isCurrent_eq_false hcurrent
      obtain ⟨site, hsite, -⟩ := h id _ hs
      exact .inr ⟨callee, target, site, rfl, hsite⟩
    · exact .inl (by simp [Option.filter, hcurrent])

/-- Recall survives whatever the strategies survive. -/
theorem mono (h : cs.Recall m heap) {heap' : Heap}
    (hs : ∀ name (s : Strategy), s.Recalls heap name → s.Recalls heap' name) : cs.Recall m heap' := by
  intro id s hid
  obtain ⟨site, hsite, hrecalls⟩ := h id s hid
  exact ⟨site, hsite, hs _ s hrecalls⟩

end Recall

namespace Like

/-- Caches that are like caches that hold are recalled. -/
theorem recalls (h : cs.Like m cs') (hold : cs'.Hold m heap) : cs.Recall m heap := by
  intro id s hs
  obtain heq | ⟨callee, target, site, hcall, hsite⟩ := h id
  · exact hold.recalls id s (heq ▸ hs)
  · obtain rfl := Option.some.inj (hcall.symm.trans hs)
    exact ⟨site, hsite, trivial⟩

/-- Trying a guard on both. -/
theorem probe (h : cs.Like m cs') {α : Type} (mode : CacheMode) (id : SiteId)
    (guard : Strategy → Option α) :
    (cs.probe mode id guard).2.Like m (cs'.probe mode id guard).2 := by
  intro other
  simpa only [remembered?_probe] using h other

/-- Remembering the same in both. -/
theorem rebind (h : cs.Like m cs') (mode : CacheMode) (id : SiteId) (s : Strategy) :
    (cs.rebind mode id s).Like m (cs'.rebind mode id s) := by
  intro other
  simp only [remembered?_rebind]
  split
  · exact .inl rfl
  · exact h other

end Like

/-- A guard that lets no call through that is out of date does not miss these calls. -/
theorem probe_current {α : Type} (mode : CacheMode) (cs : Caches) (heap : Heap) (id : SiteId)
    {guard : Strategy → Option α}
    (hguard : ∀ callee target, cs.remembered? id = some (.globalCall callee target) →
      heap.callable? callee ≠ some target → guard (.globalCall callee target) = none) :
    ((cs.current heap).probe mode id guard).1 = (cs.probe mode id guard).1 := by
  rw [probe_fst, probe_fst, remembered?_current]
  rcases hs : cs.remembered? id with _ | s
  · rfl
  · rcases hcurrent : s.isCurrent heap
    · obtain ⟨callee, target, rfl, hne⟩ := Strategy.exists_of_isCurrent_eq_false hcurrent
      simp [Option.filter, hcurrent, hguard callee target hs hne]
    · simp [Option.filter, hcurrent]

end Caches

/-! ## Lookups through a site -/

/-- The world without the remembered calls that are out of date. -/
def World.current (w : World) : World := { w with caches := w.caches.current w.heap }

/-- Two worlds that differ at most in calls that only sites of the first remember. -/
structure World.Like (m : Machine) (w w' : World) : Prop where
  /-- All but the caches is the same. -/
  data : w.SameData w'
  /-- The caches differ at most in calls. -/
  caches : w.caches.Like m w'.caches

namespace World

variable {m : Machine} {w : World} {id : SiteId}

/-- A world is like itself without the calls that are out of date. -/
theorem like_current (hw : w.caches.Recall m w.heap) : w.Like m w.current :=
  ⟨⟨rfl, rfl, rfl⟩, hw.like_current⟩

/-- Counting a miss that cannot be remembered. -/
theorem uncacheable_like (hw : w.caches.Recall m w.heap) (mode : CacheMode) (id : SiteId) :
    (w.uncacheable mode id).Like m (w.current.uncacheable mode id) :=
  ⟨⟨rfl, rfl, rfl⟩, hw.like_current.rebind mode id .uninitialized⟩

/-- **Reading through a site** takes no notice of remembered calls. -/
theorem memberHolder_like (hw : w.caches.Recall m w.heap) (mode : CacheMode) (id : SiteId)
    (access : Access) (r : Handle) (name : String) :
    (w.current.memberHolder mode id access r name).1 = (w.memberHolder mode id access r name).1 ∧
      (w.memberHolder mode id access r name).2.Like m
        (w.current.memberHolder mode id access r name).2 := by
  obtain ⟨heap, envs, caches, log⟩ := w
  have hlike := hw.like_current.probe mode id (Strategy.holder? access r heap.epoch)
  have hprobe : ((caches.current heap).probe mode id (Strategy.holder? access r heap.epoch)).1 =
      (caches.probe mode id (Strategy.holder? access r heap.epoch)).1 :=
    caches.probe_current mode heap id fun callee target _ _ => by cases access <;> rfl
  simp only [current, memberHolder]
  generalize caches.probe mode id (Strategy.holder? access r heap.epoch) = here at hprobe hlike ⊢
  generalize (caches.current heap).probe mode id (Strategy.holder? access r heap.epoch) = there
    at hprobe hlike ⊢
  obtain ⟨hit, cs⟩ := here
  obtain ⟨hit', cs'⟩ := there
  simp only at hprobe hlike
  subst hprobe
  cases hit' with
  | some holder => exact ⟨rfl, ⟨rfl, rfl, rfl⟩, hlike⟩
  | none =>
    simp only
    split
    · exact ⟨rfl, ⟨rfl, rfl, rfl⟩, hlike.rebind mode id _⟩
    · exact ⟨rfl, ⟨rfl, rfl, rfl⟩, hlike.rebind mode id _⟩

/-- **Writing through a site** takes no notice of remembered calls. -/
theorem writeObject_like (hw : w.caches.Recall m w.heap) (mode : CacheMode) (id : SiteId) (r : Handle)
    (name : String) (v : Value) :
    (w.current.writeObject mode id r name v).1 = (w.writeObject mode id r name v).1 ∧
      (w.writeObject mode id r name v).2.Like m (w.current.writeObject mode id r name v).2 := by
  obtain ⟨heap, envs, caches, log⟩ := w
  have hlike := hw.like_current.probe mode id
    (fun s => if Strategy.storesTo r heap.epoch s then some () else none)
  have hprobe : ((caches.current heap).probe mode id
      (fun s => if Strategy.storesTo r heap.epoch s then some () else none)).1 =
      (caches.probe mode id
        (fun s => if Strategy.storesTo r heap.epoch s then some () else none)).1 :=
    caches.probe_current mode heap id fun callee target _ _ => rfl
  rcases hhere : caches.probe mode id
    (fun s => if Strategy.storesTo r heap.epoch s then some () else none) with ⟨hit, cs⟩
  rcases hthere : (caches.current heap).probe mode id
    (fun s => if Strategy.storesTo r heap.epoch s then some () else none) with ⟨hit', cs'⟩
  rw [hhere, hthere] at hprobe hlike
  simp only at hprobe hlike
  subst hprobe
  rw [show current ⟨heap, envs, caches, log⟩ = ⟨heap, envs, caches.current heap, log⟩ from rfl]
  simp only [writeObject, hhere, hthere]
  split
  · exact ⟨rfl, ⟨rfl, rfl, rfl⟩, hlike⟩
  · split
    · exact ⟨rfl, ⟨rfl, rfl, rfl⟩, hlike.rebind mode id _⟩
    · exact ⟨rfl, ⟨rfl, rfl, rfl⟩, hlike.rebind mode id _⟩

/-- A site remembers of a function object what this one does not run: the object was freed. -/
def Misremembers (w : World) (mode : CacheMode) (id : SiteId) (callee : Value) : Prop :=
  mode = .enabled ∧ ∃ h target, callee = .object h ∧
    w.caches.remembered? id = some (.globalCall h target) ∧ w.heap.callable? h ≠ some target

/-- **Calling through a site** takes no notice of calls that are out of date, unless it is the very
function object of such a call that is called. -/
theorem globalTarget_like (hw : w.caches.Recall m w.heap) {mode : CacheMode} {callee : Value}
    (hcallee : ¬ w.Misremembers mode id callee) :
    (w.current.globalTarget mode id callee).1 = (w.globalTarget mode id callee).1 ∧
      (w.globalTarget mode id callee).2.Like m (w.current.globalTarget mode id callee).2 := by
  obtain ⟨heap, envs, caches, log⟩ := w
  cases callee with
  | object h =>
    have hlike := hw.like_current.probe mode id (Strategy.target? h)
    have hprobe : ((caches.current heap).probe mode id (Strategy.target? h)).1 =
        (caches.probe mode id (Strategy.target? h)).1 := by
      by_cases hmode : mode = .enabled
      · refine caches.probe_current mode heap id fun other target hrecall hne => if_neg ?_
        rintro rfl
        exact hcallee ⟨hmode, other, target, rfl, hrecall, hne⟩
      · rw [Caches.probe_fst, Caches.probe_fst, if_neg hmode, if_neg hmode]
    simp only [current, globalTarget]
    generalize caches.probe mode id (Strategy.target? h) = here at hprobe hlike ⊢
    generalize (caches.current heap).probe mode id (Strategy.target? h) = there at hprobe hlike ⊢
    obtain ⟨hit, cs⟩ := here
    obtain ⟨hit', cs'⟩ := there
    simp only at hprobe hlike
    subst hprobe
    cases hit' with
    | some target => exact ⟨rfl, ⟨rfl, rfl, rfl⟩, hlike⟩
    | none =>
      simp only
      split
      · exact ⟨rfl, ⟨rfl, rfl, rfl⟩, hlike.rebind mode id _⟩
      · exact ⟨rfl, ⟨rfl, rfl, rfl⟩, hlike.rebind mode id _⟩
  | _ => exact ⟨rfl, uncacheable_like hw mode id⟩

/-- A call through a site that remembers the function object runs what is remembered, and leaves all
that is remembered as it is. -/
theorem globalTarget_hit {h : Handle} {target : Callable}
    (hrecall : w.caches.remembered? id = some (.globalCall h target)) :
    (w.globalTarget .enabled id (.object h)).1 = some target ∧
      w.SameData (w.globalTarget .enabled id (.object h)).2 ∧
      ∀ other, (w.globalTarget .enabled id (.object h)).2.caches.remembered? other =
        w.caches.remembered? other := by
  obtain ⟨heap, envs, caches, log⟩ := w
  have hprobe : (caches.probe .enabled id (Strategy.target? h)).1 = some target := by
    rw [Caches.probe_fst, if_pos rfl, hrecall]
    exact if_pos rfl
  have hsame := caches.remembered?_probe .enabled id (Strategy.target? h)
  simp only [globalTarget]
  generalize caches.probe .enabled id (Strategy.target? h) = here at hprobe hsame ⊢
  obtain ⟨hit, cs⟩ := here
  simp only at hprobe hsame
  subst hprobe
  exact ⟨rfl, ⟨rfl, rfl, rfl⟩, hsame⟩

end World

/-! ## Instructions -/

/-- Two turns that differ at most in calls that only sites of the first remember. -/
structure Turn.Like (m : Machine) (t t' : Turn) : Prop where
  /-- The worlds differ at most so. -/
  world : t.world.Like m t'.world
  /-- The frames agree. -/
  frame : t'.frame = t.frame
  /-- It goes on in the same way. -/
  control : t'.control = t.control

/-- The value that an instruction calls through its site, by what it finds on the stack. -/
def Instruction.Calls (f : Frame) (i : Instruction) (id : SiteId) (callee : Value) : Prop :=
  ∃ k site, i = .callGlobal k site ∧ id = f.site k ∧ f.stack[site.argc.toNat]? = some callee

namespace Machine

variable {m : Machine} {w : World}

/-- Taking arguments off the stack. -/
theorem withArgs_like (hw : w.caches.Recall m w.heap) (f : Frame) (argc : Nat)
    {k k' : Value → List Value → Frame → Turn}
    (hk : ∀ v args g, g.unit = f.unit → g.index = f.index → f.stack[argc]? = some v →
      (k v args g).Like m (k' v args g)) :
    (Turn.withArgs w f argc k).Like m (Turn.withArgs w.current f argc k') := by
  have hsame : ∀ g c, Turn.Like m ⟨w, g, c⟩ ⟨w.current, g, c⟩ :=
    fun g c => ⟨World.like_current hw, rfl, rfl⟩
  rcases hv : f.stack[argc]? with _ | v
  · obtain ⟨stack, heq⟩ := Turn.withArgs_eq_underflow hv
    rw [heq, heq]
    exact hsame _ _
  · rw [Turn.withArgs_eq_of_getElem? hv, Turn.withArgs_eq_of_getElem? hv]
    exact hk _ _ _ rfl rfl hv

/-- A turn that goes on with what it has read through a site. -/
theorem afterReadMember_like (hw : w.caches.Recall m w.heap) (id : SiteId) (access : Access)
    (receiver : Value) (name : String) (f : Frame) (resume : Resume) :
    Turn.Like m
      (match m.readMember w id access receiver name with
        | (.ok read, w) => ⟨w, f, .afterRead w.heap receiver resume read⟩
        | (.error e, w) => ⟨w, f, .raise e⟩)
      (match m.readMember w.current id access receiver name with
        | (.ok read, w) => ⟨w, f, .afterRead w.heap receiver resume read⟩
        | (.error e, w) => ⟨w, f, .raise e⟩) := by
  have hread : (m.readMember w.current id access receiver name).1 =
      (m.readMember w id access receiver name).1 ∧
      (m.readMember w id access receiver name).2.Like m
        (m.readMember w.current id access receiver name).2 := by
    cases receiver with
    | object h =>
      obtain ⟨hfound, hlike⟩ :=
        World.memberHolder_like hw m.config.cacheMode id access h name
      simp only [readMember]
      generalize w.memberHolder m.config.cacheMode id access h name = here at hfound hlike ⊢
      generalize w.current.memberHolder m.config.cacheMode id access h name = there
        at hfound hlike ⊢
      obtain ⟨holder, w₁⟩ := here
      obtain ⟨holder', w₂⟩ := there
      simp only at hfound hlike
      subst hfound
      cases holder' with
      | none => exact ⟨rfl, hlike⟩
      | some k =>
        exact ⟨congrArg (fun heap : Heap => Except.ok (heap.readOwn k name)) hlike.data.heap, hlike⟩
    | _ => exact ⟨rfl, World.uncacheable_like hw _ _⟩
  generalize m.readMember w id access receiver name = here at hread ⊢
  generalize m.readMember w.current id access receiver name = there at hread ⊢
  obtain ⟨read, w₁⟩ := here
  obtain ⟨read', w₂⟩ := there
  obtain ⟨hresult, hlike⟩ := hread
  simp only at hresult hlike
  subst hresult
  cases read' with
  | ok read =>
    exact ⟨hlike, rfl, congrArg (Control.afterRead · receiver resume read) hlike.data.heap⟩
  | error e => exact ⟨hlike, rfl, rfl⟩

/-- Writing a property of any value. -/
theorem writeMember_like (hw : w.caches.Recall m w.heap) (id : SiteId) (receiver v : Value)
    (name : String) :
    (m.writeMember w.current id receiver name v).1 = (m.writeMember w id receiver name v).1 ∧
      (m.writeMember w id receiver name v).2.Like m (m.writeMember w.current id receiver name v).2 := by
  cases receiver with
  | object h =>
    obtain ⟨hresult, hlike⟩ :=
      World.writeObject_like hw m.config.cacheMode id h name v
    exact ⟨congrArg Except.ok hresult, hlike⟩
  | undefined => exact ⟨rfl, World.like_current hw⟩
  | null => exact ⟨rfl, World.like_current hw⟩
  | _ => exact ⟨rfl, World.uncacheable_like hw _ _⟩

/-- **An instruction** takes no notice of calls that are out of date, unless it makes one of them. -/
theorem execute_like (hw : w.caches.Recall m w.heap) {f : Frame} {i : Instruction}
    (hcall : ∀ id callee, i.Calls f id callee → ¬ w.Misremembers m.config.cacheMode id callee) :
    (m.execute w f i).Like m (m.execute w.current f i) := by
  have hsame : ∀ g c, Turn.Like m ⟨w, g, c⟩ ⟨w.current, g, c⟩ :=
    fun g c => ⟨World.like_current hw, rfl, rfl⟩
  rcases hsite : i.site? with _ | ⟨k, site⟩
  · -- An instruction without a site leaves the caches as they were.
    rw [show w.current = w.withCaches (w.caches.current w.heap) from rfl,
      m.execute_withCaches w f hsite (w.caches.current w.heap)]
    refine ⟨⟨⟨rfl, rfl, rfl⟩, ?_⟩, rfl, rfl⟩
    rw [m.caches_execute w f hsite]
    exact hw.like_current
  · cases i with
    | getMember k site =>
      simp only [execute, Turn.getMember]
      split
      · exact hsame _ _
      · exact afterReadMember_like hw _ _ _ _ _ _
    | setMember k site =>
      simp only [execute, Turn.setMember]
      split
      · next v receiver rest _ =>
        obtain ⟨hresult, hlike⟩ := writeMember_like hw (f.site k) receiver v site.name
        simp only [Frame.site] at hresult hlike ⊢
        generalize m.writeMember w ⟨f.unit, f.index, k⟩ receiver site.name v = here
          at hresult hlike ⊢
        generalize m.writeMember w.current ⟨f.unit, f.index, k⟩ receiver site.name v = there
          at hresult hlike ⊢
        obtain ⟨result, w₁⟩ := here
        obtain ⟨result', w₂⟩ := there
        simp only at hresult hlike
        subst hresult
        cases result' with
        | ok result =>
          exact ⟨hlike, rfl, congrArg (Control.afterWrite · receiver v _ result) hlike.data.heap⟩
        | error e => exact ⟨hlike, rfl, rfl⟩
      · exact hsame _ _
    | callGlobal k site =>
      simp only [execute, Turn.callGlobal]
      refine withArgs_like hw f _ fun callee args g hunit hindex hstack => ?_
      have hid : g.site k = f.site k := by rw [Frame.site, Frame.site, hunit, hindex]
      rw [hid]
      obtain ⟨htarget, hlike⟩ :=
        World.globalTarget_like hw (hcall (f.site k) callee ⟨k, site, rfl, rfl, hstack⟩)
      generalize w.globalTarget m.config.cacheMode (f.site k) callee = here at htarget hlike ⊢
      generalize w.current.globalTarget m.config.cacheMode (f.site k) callee = there
        at htarget hlike ⊢
      obtain ⟨target, w₁⟩ := here
      obtain ⟨target', w₂⟩ := there
      simp only at htarget hlike
      subst htarget
      cases target' <;> exact ⟨hlike, rfl, rfl⟩
    | invokeMember k site =>
      simp only [execute, Turn.invokeMember]
      refine withArgs_like hw f _ fun receiver args g hunit hindex _ => ?_
      exact afterReadMember_like hw _ _ _ _ _ _
    | _ => cases hsite

/-- A call through a site that remembers the function object enters what is remembered, and leaves all
that is remembered as it is. -/
theorem callGlobal_remembered (hmode : m.config.cacheMode = .enabled) {f : Frame} {k : Nat}
    {site : CallSite} {h : Handle} {target : Callable}
    (hstack : f.stack[site.argc.toNat]? = some (.object h))
    (hrecall : w.caches.remembered? (f.site k) = some (.globalCall h target)) :
    ∃ w', w.SameData w' ∧ (∀ other, w'.caches.remembered? other = w.caches.remembered? other) ∧
      m.execute w f (.callGlobal k site) =
        ⟨w', { f with stack := f.stack.drop (site.argc.toNat + 1) },
          .enter (.object h) target m.globalValue (f.stack.take site.argc.toNat).reverse .push⟩ := by
  obtain ⟨htarget, hdata, hsame⟩ := World.globalTarget_hit hrecall
  refine ⟨_, hdata, hsame, ?_⟩
  rw [execute, Turn.callGlobal, Turn.withArgs_eq_of_getElem? hstack]
  simp only [Frame.site] at htarget ⊢
  rw [hmode]
  generalize w.globalTarget .enabled ⟨f.unit, f.index, k⟩ (.object h) = found at htarget ⊢
  obtain ⟨target', w'⟩ := found
  simp only at htarget
  subst htarget
  rfl

/-! ## Steps and runs -/

/-- What stays true of a world when garbage is collected: the vacant slots are vacant, and what the
sites remember of properties is true. -/
structure Steady (m : Machine) (w : World) : Prop where
  /-- The heap is sound. -/
  sound : w.heap.Sound
  /-- What is remembered of properties is true. -/
  recalls : w.caches.Recall m w.heap

/-- A world stays steady while its heap evolves and its caches stay. -/
theorem Steady.evolves (hw : m.Steady w) {w' : World} (h : w.heap.Evolves w'.heap)
    (hcaches : w'.caches = w.caches) : m.Steady w' := by
  refine ⟨(h.keeps hw.sound).1, ?_⟩
  rw [hcaches]
  exact hw.recalls.mono fun _ _ hs => hs.keeps (h.keeps hw.sound).2

end Machine

/-- An instruction calls, through its site, a function object of which the site remembers what this one
does not run. -/
def Instruction.Strays (m : Machine) (w : World) (f : Frame) (i : Instruction) : Prop :=
  ∃ id callee, i.Calls f id callee ∧ w.Misremembers m.config.cacheMode id callee

/-- Two turns that differ at most in what sites remember. -/
structure Turn.Agrees (t t' : Turn) : Prop where
  /-- The worlds differ only in the caches. -/
  world : t'.world = t.world.forget
  /-- The frames agree. -/
  frame : t'.frame = t.frame
  /-- It goes on in the same way. -/
  control : t'.control = t.control

namespace Machine

variable {m : Machine} {w : World}

/-- A call that strays finds its target in the cache, and changes nothing but a count. -/
theorem execute_strays (hw : m.Steady w) {f : Frame} {i : Instruction} (hi : i.Strays m w f) :
    w.heap.Evolves (m.execute w f i).world.heap ∧ m.Steady (m.execute w f i).world := by
  obtain ⟨id, callee, ⟨k, site, rfl, rfl, hstack⟩, hmode, h, target, rfl, hrecall, -⟩ := hi
  obtain ⟨w', hdata, hsame, hturn⟩ := callGlobal_remembered hmode hstack hrecall
  rw [hturn]
  refine ⟨?_, ?_, fun id s hs => ?_⟩
  · show w.heap.Evolves w'.heap
    rw [hdata.heap]
    exact .refl _
  · show w'.heap.Sound
    rw [hdata.heap]
    exact hw.sound
  · rw [hdata.heap]
    exact hw.recalls id s ((hsame id).symm.trans hs)

/-- **An instruction** evolves the heap and leaves a steady world; and without caches it does the same,
unless it is a call that strays. -/
theorem execute_steady (hw : m.Steady w) {f : Frame} {i : Instruction}
    (hsite : ∀ k site, i.site? = some (k, site) → m.site? (f.site k) = some site) :
    w.heap.Evolves (m.execute w f i).world.heap ∧ m.Steady (m.execute w f i).world ∧
      (¬ i.Strays m w f → (m.execute w f i).Agrees (m.forget.execute w.forget f i)) := by
  by_cases hstray : i.Strays m w f
  · obtain ⟨hevolves, hsteady⟩ := execute_strays hw hstray
    exact ⟨hevolves, hsteady, fun h => absurd hstray h⟩
  · have hlike : (m.execute w f i).Like m (m.execute w.current f i) :=
      execute_like hw.recalls fun id callee hcalls hmis => hstray ⟨id, callee, hcalls, hmis⟩
    have hmirrors := execute_mirrors (w := w.current) hw.recalls.current hw.sound hsite
    have hheap := hlike.world.data.heap
    have hevolves : w.heap.Evolves (m.execute w f i).world.heap := hheap ▸ hmirrors.evolves
    have hrecall : (m.execute w f i).world.caches.Recall m (m.execute w f i).world.heap :=
      hlike.world.caches.recalls (hheap ▸ hmirrors.hold)
    refine ⟨hevolves, ⟨(hevolves.keeps hw.sound).1, hrecall⟩, fun _ => ⟨?_, ?_, ?_⟩⟩
    · exact hmirrors.world.trans hlike.world.data.forget_eq
    · exact hmirrors.frame.trans hlike.frame
    · exact hmirrors.control.trans hlike.control

end Machine

/-- The next instruction is a call that strays. -/
def State.Strays (m : Machine) (s : State) : Prop :=
  s.control = .execute ∧ ∃ f rest i next, s.frames = f :: rest ∧ m.read? f = some (i, next) ∧
    i.Strays m s.world f

namespace Machine

variable {m : Machine} {w : World}

/-- **The next instruction of a frame** evolves the heap and leaves a steady world; and the machine
without caches does the same, unless a call strays. -/
theorem advance_steady (hw : m.Steady w) (f : Frame) (rest : List Frame) (depth : Nat) :
    w.heap.Evolves (m.advance w f).world.heap ∧ m.Steady (m.advance w f).world ∧
      (¬ State.Strays m ⟨w, f :: rest, .execute, depth⟩ →
        (m.advance w f).Agrees (m.forget.advance w.forget f)) := by
  have hsame : ∀ c, Turn.Agrees ⟨w, f, c⟩ ⟨w.forget, f, c⟩ := fun c => ⟨rfl, rfl, rfl⟩
  simp only [advance, show m.forget.code = m.code from rfl]
  rcases hcode : m.code f.unit f.index with e | ⟨unit, function⟩
  · exact ⟨.refl _, hw, fun _ => hsame _⟩
  · simp only
    rcases hread : Instruction.read unit.pool function f.ip with e | _ | ⟨i, next⟩
    · exact ⟨.refl _, hw, fun _ => hsame _⟩
    · exact ⟨.refl _, hw, fun _ => hsame _⟩
    · have hnext := read?_eq_some_iff.mpr ⟨unit, function, hcode, hread⟩
      obtain ⟨hevolves, hsteady, hagrees⟩ := execute_steady hw (f := f.jump next) (i := i)
        fun k site hsite =>
          site?_of_code (f := f.jump next) hcode (Instruction.sites_of_read hread hsite)
      exact ⟨hevolves, hsteady, fun hstray => hagrees fun hi =>
        hstray ⟨rfl, f, rest, i, next, rfl, hnext, hi⟩⟩

/-- **A machine step** evolves the heap and leaves a steady world; and the machine without caches makes
the same step, unless a call strays. -/
theorem step_steady (hm : m.natives.Orderly) {s : State} (hs : m.Steady s.world) :
    s.world.heap.Evolves (m.step s).world.heap ∧ m.Steady (m.step s).world ∧
      (¬ s.Strays m → m.forget.step s.forget = (m.step s).forget) := by
  by_cases hexecute : s.control = .execute
  · obtain ⟨w, frames, control, depth⟩ := s
    obtain rfl : control = .execute := hexecute
    cases frames with
    | nil => exact ⟨.refl _, hs, fun _ => rfl⟩
    | cons f rest =>
      obtain ⟨hevolves, hsteady, hagrees⟩ := advance_steady hs f rest depth
      refine ⟨hevolves, hsteady, fun hstray => ?_⟩
      obtain ⟨hworld, hframe, hcontrol⟩ := hagrees hstray
      show Progress.running ⟨(m.forget.advance w.forget f).world, _ :: rest, _, depth⟩ = _
      rw [hworld, hframe, hcontrol]
      rfl
  · obtain ⟨hforget, hcaches, hevolves⟩ := m.step_apart s hexecute
    exact ⟨hevolves hm, hs.evolves (hevolves hm) hcaches, fun _ => hforget⟩

/-- **Every state of a run** has a steady world, and a heap that evolved from the first one. -/
theorem Reaches.steady (hm : m.natives.Orderly) {s₀ s : State} (h : m.Reaches s₀ s)
    (h₀ : m.Steady s₀.world) : s₀.world.heap.Evolves s.world.heap ∧ m.Steady s.world := by
  induction h with
  | refl => exact ⟨.refl _, h₀⟩
  | tail _ hstep ih =>
    obtain ⟨hevolves, hsteady, -⟩ := step_steady hm ih.2
    rw [hstep] at hevolves hsteady
    exact ⟨ih.1.trans hevolves, hsteady⟩

/-- **A run that ends** leaves a steady world, and a heap that evolved. -/
theorem run_steady (hm : m.natives.Orderly) {fuel : Nat} {s : State} (hs : m.Steady s.world)
    {o : Outcome} (hend : m.run fuel s = some o) :
    s.world.heap.Evolves o.world.heap ∧ m.Steady o.world := by
  induction fuel generalizing s with
  | zero => simp [run] at hend
  | succ fuel ih =>
    obtain ⟨hevolves, hsteady, -⟩ := step_steady hm hs
    rw [run] at hend
    rcases hnext : m.step s with s' | o'
    · rw [hnext] at hevolves hsteady hend
      obtain ⟨hrest, hlast⟩ := ih hsteady hend
      exact ⟨hevolves.trans hrest, hlast⟩
    · rw [hnext] at hevolves hsteady hend
      obtain rfl := Option.some.inj hend
      exact ⟨hevolves, hsteady⟩

end Machine

end ScriptEngine
