import ScriptEngine.Engine

/-!
# The closures of a world

Which functions of programs a world can run: those of its function objects, and those that its caches
remember. No operation brings in another one, except that a new function object has its own.
-/

namespace ScriptEngine

namespace Heap

/-- Some object of the heap runs a function of a program. -/
def Runs (heap : Heap) (c : Closure) : Prop := ∃ h, heap.callable? h = some (.script c)

/-- The functions of programs that a heap runs are among those of another one. -/
def Scripts (a b : Heap) : Prop := ∀ c, b.Runs c → a.Runs c

namespace Scripts

variable {a b c : Heap}

/-- The same heap. -/
theorem refl (heap : Heap) : heap.Scripts heap := fun _ h => h

/-- One after the other. -/
theorem trans (hab : a.Scripts b) (hbc : b.Scripts c) : a.Scripts c := fun x hx => hab x (hbc x hx)

end Scripts

/-- What an object runs is what the object of its handle has. -/
theorem callable?_eq_some {heap : Heap} {h : Handle} {target : Callable} :
    heap.callable? h = some target ↔ ∃ o, heap.get? h = some o ∧ o.callable = some target :=
  Option.bind_eq_some_iff

/-- An object is replaced by one that runs the same. -/
theorem scripts_put {heap : Heap} {h : Handle} {o o' : Object} (hlive : heap.get? h = some o)
    (hcall : o'.callable = o.callable) : heap.Scripts (heap.put h o') := by
  rintro c ⟨k, hk⟩
  obtain ⟨ok, hok, hc⟩ := callable?_eq_some.mp hk
  rw [get?_put (by simp [isLive, hlive])] at hok
  by_cases hkh : k = h
  · rw [if_pos hkh] at hok
    cases hok
    exact ⟨h, callable?_eq_some.mpr ⟨o, hlive, hcall ▸ hc⟩⟩
  · rw [if_neg hkh] at hok
    exact ⟨k, callable?_eq_some.mpr ⟨ok, hok, hc⟩⟩

/-- Counting a change of shape. -/
theorem scripts_bumpEpoch (heap : Heap) : heap.Scripts heap.bumpEpoch := fun _ h => h

/-- An object is replaced by one that runs the same, and the change of shape is counted. -/
theorem scripts_put_bumpEpoch {heap : Heap} {h : Handle} {o o' : Object} (hlive : heap.get? h = some o)
    (hcall : o'.callable = o.callable) : heap.Scripts (heap.put h o').bumpEpoch :=
  (scripts_put hlive hcall).trans (scripts_bumpEpoch _)

/-- **A new object** brings in at most what it runs itself. -/
theorem runs_allocate {heap : Heap} {o : Object} {c : Closure} (h : (heap.allocate o).2.Runs c) :
    heap.Runs c ∨ o.callable = some (.script c) := by
  obtain ⟨k, hk⟩ := h
  obtain ⟨ok, hok, hc⟩ := callable?_eq_some.mp hk
  rw [get?, allocate] at hok
  rcases hfree : heap.free with _ | ⟨i, rest⟩
  · simp only [hfree, Array.getElem?_push] at hok
    by_cases hi : k.index = heap.slots.size
    · simp only [hi, if_true] at hok
      split at hok
      · cases hok
        exact .inr hc
      · cases hok
    · simp only [hi, if_false] at hok
      exact .inl ⟨k, callable?_eq_some.mpr ⟨ok, hok, hc⟩⟩
  · simp only [hfree, Array.getElem?_setIfInBounds] at hok
    by_cases hi : i = k.index
    · simp only [hi, if_true] at hok
      split at hok
      · next slot hslot =>
        split at hslot
        · cases hslot
          split at hok
          · cases hok
            exact .inr hc
          · cases hok
        · cases hslot
      · cases hok
    · simp only [hi, if_false] at hok
      exact .inl ⟨k, callable?_eq_some.mpr ⟨ok, hok, hc⟩⟩

/-- A new object that is no function of a program. -/
theorem scripts_allocate (heap : Heap) {o : Object} (h : ∀ c, o.callable ≠ some (.script c)) :
    heap.Scripts (heap.allocate o).2 :=
  fun c hc => (runs_allocate hc).resolve_right (h c)

/-- **A property is defined.** -/
theorem scripts_define (heap : Heap) (h : Handle) (name : String) (p : Property) :
    heap.Scripts (heap.define h name p).2 := by
  rw [define]
  split
  · exact .refl heap
  · next o ho => exact scripts_put_bumpEpoch ho rfl

/-- **A property is written.** -/
theorem scripts_write (heap : Heap) (h : Handle) (name : String) (v : Value) :
    heap.Scripts (heap.write h name v).2 := by
  rw [write]
  split
  · exact .refl heap
  · next o ho =>
    split
    · split
      · exact scripts_put ho rfl
      · exact .refl heap
    · exact .refl heap
    · exact .refl heap
    · exact scripts_put_bumpEpoch ho rfl

/-- **A property is overwritten.** -/
theorem scripts_overwrite {heap heap' : Heap} {h : Handle} {name : String} {v : Value}
    (hdone : heap.overwrite? h name v = some heap') : heap.Scripts heap' := by
  rw [overwrite?] at hdone
  split at hdone
  · cases hdone
  · next o ho =>
    split at hdone
    · split at hdone
      · cases hdone
        exact scripts_put ho rfl
      · cases hdone
    · cases hdone

/-- **A property is removed.** -/
theorem scripts_delete (heap : Heap) (h : Handle) (name : String) :
    heap.Scripts (heap.delete h name).2 := by
  rw [delete]
  split
  · exact .refl heap
  · next o ho =>
    split
    · exact .refl heap
    · split
      · exact scripts_put_bumpEpoch ho rfl
      · exact .refl heap

/-- A slot is vacated. -/
theorem scripts_release (heap : Heap) (i : Nat) : heap.Scripts (heap.release i) := by
  rintro c ⟨k, hk⟩
  obtain ⟨ok, hok, hc⟩ := callable?_eq_some.mp hk
  rw [get?, release] at hok
  simp only [Array.getElem?_modify] at hok
  by_cases hi : i = k.index
  · simp only [hi, if_true] at hok
    rcases hslot : heap.slots[k.index]? with _ | slot
    · simp [hslot] at hok
    · simp [hslot] at hok
  · simp only [hi, if_false] at hok
    exact ⟨k, callable?_eq_some.mpr ⟨ok, hok, hc⟩⟩

/-- **Garbage is collected.** -/
theorem scripts_collect (heap : Heap) (envs : Environments) (roots : List Handle) :
    heap.Scripts (heap.collect envs roots).2 := by
  have hfold : ∀ (garbage : List Nat) (a : Heap), a.Scripts (garbage.foldl release a) := by
    intro garbage
    induction garbage with
    | nil => exact fun a => .refl a
    | cons i rest ih => exact fun a => (scripts_release a i).trans (ih (a.release i))
  rw [collect]
  simp only
  split
  · exact hfold _ heap
  · exact (hfold _ heap).trans (scripts_bumpEpoch _)

end Heap

namespace Realm

/-- A plain object is no function. -/
theorem scripts_newObject (r : Realm) (heap : Heap) : heap.Scripts (r.newObject heap).2 :=
  Heap.scripts_allocate heap fun _ h => by cases h

/-- **A function object** brings in what it runs. -/
theorem runs_newFunction {r : Realm} {heap : Heap} {callable : Callable} {name : String} {length : Nat}
    {c : Closure} (h : (r.newFunction heap callable name length).2.Runs c) :
    heap.Runs c ∨ callable = .script c := by
  obtain h | h := Heap.runs_allocate (Heap.scripts_define _ _ _ _ _ (Heap.scripts_define _ _ _ _ _ h))
  · exact .inl h
  · exact .inr (Option.some.inj h)

/-- What a handler receives is no new function. -/
theorem scripts_caughtValue (r : Realm) (heap : Heap) (e : RuntimeError) :
    heap.Scripts (r.caughtValue heap e).2 := by
  cases e with
  | thrown v => exact .refl heap
  | _ =>
    refine .trans (.trans (r.scripts_newObject heap) ?_) (Heap.scripts_define _ _ _ _)
    exact Heap.scripts_define _ _ _ _

end Realm

/-! ## Worlds -/

/-- A cache remembers a function of a program. -/
def Caches.Runs (cs : Caches) (c : Closure) : Prop :=
  ∃ id cache callee, cs.get? id = some cache ∧ cache.strategy = .globalCall callee (.script c)

/-- A site that remembers something else than before. -/
theorem Caches.runs_rebind {cs : Caches} {mode : CacheMode} {id : SiteId} {s : Strategy} {c : Closure}
    (h : (cs.rebind mode id s).Runs c) : cs.Runs c ∨ ∃ callee, s = .globalCall callee (.script c) := by
  obtain ⟨k, cache, callee, hget, hstrategy⟩ := h
  have hupdate : (cs.update id (·.rebind s)).get? k = some cache →
      cs.Runs c ∨ ∃ callee, s = .globalCall callee (.script c) := by
    intro hget
    rw [get?_update] at hget
    split at hget
    · cases hget
      exact .inr ⟨callee, hstrategy⟩
    · exact .inl ⟨k, cache, callee, hget, hstrategy⟩
  cases mode with
  | disabled => exact .inl ⟨k, cache, callee, hget, hstrategy⟩
  | enabled => exact hupdate hget
  | alwaysRebind => exact hupdate hget

/-- A site that cannot remember anything. -/
theorem Caches.runs_uncacheable {cs : Caches} {mode : CacheMode} {id : SiteId} {c : Closure}
    (h : (cs.uncacheable mode id).Runs c) : cs.Runs c := by
  obtain h | ⟨callee, h⟩ := runs_rebind h
  · exact h
  · cases h

/-- A hit is counted. -/
theorem Caches.runs_probe {α : Type} {cs cs' : Caches} {mode : CacheMode} {id : SiteId}
    {guard : Strategy → Option α} {hit : Option α} (h : cs.probe mode id guard = (hit, cs')) {c : Closure}
    (hc : cs'.Runs c) : cs.Runs c := by
  have hmode : cs' = cs ∨ ∃ cache, cs.get? id = some cache ∧ cs' = cs.update id InlineCache.hit := by
    cases mode with
    | enabled =>
      simp only [probe] at h
      split at h
      · next a hguard =>
        obtain ⟨cache, hcache, -⟩ := Option.bind_eq_some_iff.mp hguard
        exact .inr ⟨cache, hcache, (Prod.mk.inj h).2.symm⟩
      · exact .inl (Prod.mk.inj h).2.symm
    | alwaysRebind => exact .inl (Prod.mk.inj h).2.symm
    | disabled => exact .inl (Prod.mk.inj h).2.symm
  obtain rfl | ⟨cache₀, hcache₀, rfl⟩ := hmode
  · exact hc
  · obtain ⟨k, cache, callee, hget, hstrategy⟩ := hc
    rw [get?_update, hcache₀] at hget
    split at hget
    · cases hget
      exact ⟨id, cache₀, callee, hcache₀, hstrategy⟩
    · exact ⟨k, cache, callee, hget, hstrategy⟩

/-- What a hit says a function object runs is what its site remembers. -/
theorem Caches.runs_of_probe {cs cs' : Caches} {mode : CacheMode} {id : SiteId} {callee : Handle}
    {c : Closure} (h : cs.probe mode id (Strategy.target? callee) = (some (.script c), cs')) :
    cs.Runs c := by
  cases mode with
  | enabled =>
    simp only [probe] at h
    split at h
    · next target hguard =>
      cases h
      obtain ⟨cache, hcache, hguard⟩ := Option.bind_eq_some_iff.mp hguard
      rw [Strategy.target?.eq_def] at hguard
      split at hguard
      · next k found hstrategy =>
        split at hguard
        · cases hguard
          exact ⟨id, cache, k, hcache, hstrategy⟩
        · cases hguard
      · cases hguard
    · cases h
  | alwaysRebind => cases h
  | disabled => cases h

namespace World

/-- A function of a program that the world can run: an object or a cache has it. -/
def Runs (w : World) (c : Closure) : Prop := w.heap.Runs c ∨ w.caches.Runs c

/-- What every operation on objects leaves alone: the environments stay as they are, and no function of a
program comes in. -/
structure Stays (a b : World) : Prop where
  /-- The environments are the same. -/
  envs : b.envs = a.envs
  /-- The functions of programs are among those before. -/
  runs : ∀ c, b.Runs c → a.Runs c

namespace Stays

/-- The same world. -/
theorem refl (w : World) : w.Stays w := ⟨rfl, fun _ h => h⟩

end Stays

/-- Another heap without new functions, and caches that remember no new ones. -/
theorem stays_of {w : World} {heap : Heap} {caches : Caches} {log : Array String}
    (hheap : w.heap.Scripts heap) (hcaches : ∀ c, caches.Runs c → w.Runs c) :
    w.Stays ⟨heap, w.envs, caches, log⟩ := by
  refine ⟨rfl, fun c hc => ?_⟩
  obtain h | h := hc
  · exact .inl (hheap c h)
  · exact hcaches c h

/-- Only the heap has changed. -/
theorem stays_heap (w : World) {heap : Heap} (h : w.heap.Scripts heap) : w.Stays { w with heap } :=
  stays_of h fun _ hc => .inr hc

/-- Only the log has changed. -/
theorem stays_log (w : World) (log : Array String) : w.Stays { w with log } :=
  stays_of (.refl _) fun _ hc => .inr hc

/-- The caches are forgotten. -/
theorem stays_resetCaches (w : World) : w.Stays { w with caches := {} } := by
  refine stays_of (.refl _) fun c hc => ?_
  obtain ⟨id, cache, callee, hget, -⟩ := hc
  exact absurd hget (by simp [Caches.get?])

/-- A property is removed. -/
theorem stays_delete (w : World) (h : Handle) (name : String) : w.Stays (w.delete h name).2 :=
  stays_of (w.heap.scripts_delete h name) fun _ hc => .inr hc

/-- A property is written without the help of a site. -/
theorem stays_write (w : World) (h : Handle) (name : String) (v : Value) :
    w.Stays (w.write h name v).2 :=
  stays_of (w.heap.scripts_write h name v) fun _ hc => .inr hc

/-- A miss is counted. -/
theorem stays_uncacheable (mode : CacheMode) (w : World) (id : SiteId) :
    w.Stays (w.uncacheable mode id) :=
  stays_of (.refl _) fun _ hc => .inr (Caches.runs_uncacheable hc)

section

variable {mode : CacheMode} {w w' : World} {id : SiteId}

/-- **A property is looked up through a site.** -/
theorem stays_memberHolder {access : Access} {receiver : Handle} {name : String} {holder : Option Handle}
    (h : w.memberHolder mode id access receiver name = (holder, w')) : w.Stays w' := by
  obtain ⟨heap, envs, caches, log⟩ := w
  rw [memberHolder] at h
  rcases hprobe : caches.probe mode id (Strategy.holder? access receiver heap.epoch) with ⟨hit, caches'⟩
  have hruns : ∀ c, caches'.Runs c → caches.Runs c := fun c => Caches.runs_probe hprobe
  rcases hit with _ | found
  · simp only [hprobe] at h
    split at h
    · cases h
      refine stays_of (.refl _) fun c hc => .inr (hruns c ?_)
      obtain hc | ⟨callee, hs⟩ := Caches.runs_rebind hc
      · exact hc
      · cases access <;> cases hs
    · cases h
      exact stays_of (.refl _) fun c hc => .inr (hruns c (Caches.runs_uncacheable hc))
  · simp only [hprobe] at h
    cases h
    exact stays_of (.refl _) fun c hc => .inr (hruns c hc)

/-- **A property is written through a site.** -/
theorem stays_writeObject {receiver : Handle} {name : String} {v : Value} {result : PropertyWrite}
    (h : w.writeObject mode id receiver name v = (result, w')) : w.Stays w' := by
  obtain ⟨heap, envs, caches, log⟩ := w
  rw [writeObject] at h
  simp only at h
  generalize hguard : (fun s => if Strategy.storesTo receiver heap.epoch s then some () else none) =
    guard at h
  rcases hprobe : caches.probe mode id guard with ⟨hit, caches'⟩
  have hruns : ∀ c, caches'.Runs c → caches.Runs c := fun c => Caches.runs_probe hprobe
  have hwritten : ∀ {r heap'}, heap.write receiver name v = (r, heap') → heap.Scripts heap' := by
    intro r heap' hwrite
    have hscripts := heap.scripts_write receiver name v
    rwa [hwrite] at hscripts
  simp only [hprobe] at h
  split at h
  · next heap' hover =>
    cases h
    obtain ⟨-, -, hover⟩ := Option.bind_eq_some_iff.mp hover
    exact stays_of (Heap.scripts_overwrite hover) fun c hc => .inr (hruns c hc)
  · split at h
    · next heap' hwrite =>
      cases h
      refine stays_of (hwritten hwrite) fun c hc => .inr (hruns c ?_)
      obtain hc | ⟨callee, hs⟩ := Caches.runs_rebind hc
      · exact hc
      · cases hs
    · next heap' _ hwrite =>
      cases h
      exact stays_of (hwritten hwrite) fun c hc => .inr (hruns c (Caches.runs_uncacheable hc))

/-- **A value that was read from a global is called**: the world knows what that runs. -/
theorem stays_globalTarget {callee : Value} {target : Option Callable}
    (h : w.globalTarget mode id callee = (target, w')) :
    w.Stays w' ∧ ∀ c, target = some (.script c) → w.Runs c := by
  rcases hcallee : callee.object? with _ | k
  · have hnone : w.globalTarget mode id callee = (none, w.uncacheable mode id) := by
      cases callee <;> first | rfl | cases hcallee
    rw [hnone] at h
    cases h
    exact ⟨stays_uncacheable mode w id, fun c hc => by cases hc⟩
  · obtain rfl : callee = .object k := by
      cases callee <;> cases hcallee
      rfl
    obtain ⟨heap, envs, caches, log⟩ := w
    rw [globalTarget] at h
    rcases hprobe : caches.probe mode id (Strategy.target? k) with ⟨hit, caches'⟩
    have hruns : ∀ c, caches'.Runs c → caches.Runs c := fun c => Caches.runs_probe hprobe
    rcases hit with _ | found
    · simp only [hprobe] at h
      split at h
      · next found hfound =>
        cases h
        have hknown : ∀ c, found = .script c → heap.Runs c := fun c hc => ⟨k, by rw [hfound, hc]⟩
        refine ⟨stays_of (.refl _) fun c hc => ?_, fun c hc => .inl (hknown c (Option.some.inj hc))⟩
        obtain hc | ⟨callee, hs⟩ := Caches.runs_rebind hc
        · exact .inr (hruns c hc)
        · exact .inl (hknown c (Strategy.globalCall.inj hs).2)
      · cases h
        refine ⟨stays_of (.refl _) fun c hc => ?_, fun c hc => by cases hc⟩
        exact .inr (hruns c (Caches.runs_uncacheable hc))
    · simp only [hprobe] at h
      cases h
      refine ⟨stays_of (.refl _) fun c hc => .inr (hruns c hc), fun c hc => ?_⟩
      cases hc
      exact .inr (Caches.runs_of_probe hprobe)

end

end World

namespace Machine

section

variable {m : Machine} {w w' : World} {id : SiteId} {receiver : Value} {name : String}

/-- **A property of any value is read.** An error is one about the value. -/
theorem stays_readMember {access : Access} {result : Except RuntimeError PropertyRead}
    (h : m.readMember w id access receiver name = (result, w')) :
    w.Stays w' ∧ ∀ fault, result ≠ .error (.internal fault) := by
  rcases hreceiver : receiver.object? with _ | k
  · have hread : m.readMember w id access receiver name =
        (m.realm.readPrimitive w.heap receiver name, w.uncacheable m.config.cacheMode id) := by
      cases receiver <;> first | rfl | cases hreceiver
    rw [hread] at h
    cases h
    refine ⟨World.stays_uncacheable _ w id, fun fault => ?_⟩
    unfold Realm.readPrimitive
    split
    · simp
    · split
      · split <;> simp
      · simp
  · obtain rfl : receiver = .object k := by
      cases receiver <;> cases hreceiver
      rfl
    rw [readMember] at h
    rcases hholder : w.memberHolder m.config.cacheMode id access k name with ⟨_ | holder, w₁⟩
    all_goals
      simp only [hholder] at h
      cases h
      exact ⟨World.stays_memberHolder hholder, fun fault h => by cases h⟩

/-- **A property of any value is written.** An error is one about the value. -/
theorem stays_writeMember {v : Value} {result : Except RuntimeError PropertyWrite}
    (h : m.writeMember w id receiver name v = (result, w')) :
    w.Stays w' ∧ ∀ fault, result ≠ .error (.internal fault) := by
  rcases hreceiver : receiver.object? with _ | k
  · have hwrite : m.writeMember w id receiver name v =
        if receiver.isNullish then
          (.error (.typeError s!"cannot set property '{name}' of {receiver.toText}"), w)
        else (.ok .ignored, w.uncacheable m.config.cacheMode id) := by
      cases receiver <;> first | rfl | cases hreceiver
    rw [hwrite] at h
    split at h
    · cases h
      exact ⟨.refl w, fun fault h => by cases h⟩
    · cases h
      exact ⟨World.stays_uncacheable _ w id, fun fault h => by cases h⟩
  · obtain rfl : receiver = .object k := by
      cases receiver <;> cases hreceiver
      rfl
    rw [writeMember] at h
    rcases hwrite : w.writeObject m.config.cacheMode id k name v with ⟨r, w₁⟩
    simp only [hwrite] at h
    cases h
    exact ⟨World.stays_writeObject hwrite, fun fault h => by cases h⟩

end

end Machine

end ScriptEngine
