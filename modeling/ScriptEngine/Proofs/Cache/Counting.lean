import Mathlib.Algebra.BigOperators.Group.List.Basic
import ScriptEngine.Proofs.Cache.Stale

/-!
# Every execution of a site is counted once

A site that is executed settles its cache once, before anything is called: it counts a hit or a miss, and not
both (`Caches.Settles`). For reading and calling this shows in the code. A write counts its hit before it knows
that the value can be stored in place, and would count a miss as well if it could not; that it can follows from
what a site remembers being true.

So the counts of all sites add up to the number of executions since the caches were cold, at every moment of
every run of every history (`Engine.executions_counted`).
-/

namespace ScriptEngine

namespace Caches

variable {cs cs' : Caches} {mode : CacheMode} {id : SiteId}

/-! ## Adding up -/

/-- A count of all sites together. -/
def sum (cs : Caches) (count : InlineCache → Nat) : Nat :=
  (cs.table.toList.map fun entry => count entry.2).sum

/-- The entries of other sites. -/
def others (cs : Caches) (id : SiteId) : List (SiteId × InlineCache) :=
  cs.table.toList.filter fun entry => decide ¬(id == entry.1) = true

/-- The count of a site and those of the others; a site without a cache counts nothing. -/
theorem sum_eq (cs : Caches) (id : SiteId) (count : InlineCache → Nat) (hzero : count {} = 0) :
    cs.sum count = count ((cs.get? id).getD {}) + ((cs.others id).map fun entry => count entry.2).sum := by
  rcases hc : cs.get? id with _ | c
  · have hall : cs.others id = cs.table.toList := by
      refine List.filter_eq_self.mpr fun entry hentry => ?_
      have hmem : cs.table[entry.1]? = some entry.2 :=
        Std.HashMap.mem_toList_iff_getElem?_eq_some.mp hentry
      have hne : id ≠ entry.1 := by
        rintro rfl
        rw [get?, hmem] at hc
        cases hc
      simp [hne]
    rw [Option.getD_none, hzero, Nat.zero_add, hall, sum]
  · -- The table is what it is if the cache that is there is put in once more.
    have hsame : cs.table.Equiv (cs.table.insert id c) := by
      refine Std.HashMap.Equiv.of_forall_getElem?_eq fun other => ?_
      rw [Std.HashMap.getElem?_insert]
      by_cases hid : id = other
      · subst hid
        rw [if_pos (beq_self_eq_true id)]
        exact hc
      · rw [if_neg (by simpa using hid)]
    have hperm := hsame.toList_perm.trans Std.HashMap.toList_insert_perm
    rw [sum, (hperm.map _).sum_eq, List.map_cons, List.sum_cons, Option.getD_some]
    rfl

/-- A change of one site's cache changes the sum by what it changes the site's count. -/
theorem sum_update (cs : Caches) (id : SiteId) (f : InlineCache → InlineCache) (count : InlineCache → Nat)
    (hzero : count {} = 0) :
    (cs.update id f).sum count + count ((cs.get? id).getD {}) =
      cs.sum count + count (f ((cs.get? id).getD {})) := by
  have hperm : ((cs.update id f).table.toList).Perm ((id, f ((cs.get? id).getD {})) :: cs.others id) :=
    Std.HashMap.toList_insert_perm
  rw [sum_eq cs id count hzero, sum, (hperm.map _).sum_eq, List.map_cons, List.sum_cons]
  dsimp only
  omega

/-- The sums are what the engine reports. -/
theorem stats_eq (cs : Caches) : cs.stats = ⟨cs.sum (·.hits), cs.sum (·.misses)⟩ := by
  have hfold : ∀ (entries : List (SiteId × InlineCache)) (total : CacheStats),
      entries.foldl (fun total entry => total.add (.ofCache (some entry.2))) total =
        ⟨total.hits + (entries.map (·.2.hits)).sum, total.misses + (entries.map (·.2.misses)).sum⟩ := by
    intro entries
    induction entries with
    | nil => exact fun _ => rfl
    | cons entry rest ih =>
      intro total
      rw [List.foldl_cons, ih]
      simp only [CacheStats.add, CacheStats.ofCache, List.map_cons, List.sum_cons, Nat.add_assoc]
  rw [stats, Std.HashMap.fold_eq_foldl_toList, hfold]
  simp only [Nat.zero_add]
  rfl

/-- What a change of one site's cache does to the hits. -/
theorem hits_update (cs : Caches) (id : SiteId) (f : InlineCache → InlineCache) :
    (cs.update id f).stats.hits + ((cs.get? id).getD {}).hits = cs.stats.hits + (f ((cs.get? id).getD {})).hits := by
  rw [stats_eq, stats_eq]
  exact sum_update cs id f (·.hits) rfl

/-- What it does to the misses. -/
theorem misses_update (cs : Caches) (id : SiteId) (f : InlineCache → InlineCache) :
    (cs.update id f).stats.misses + ((cs.get? id).getD {}).misses =
      cs.stats.misses + (f ((cs.get? id).getD {})).misses := by
  rw [stats_eq, stats_eq]
  exact sum_update cs id f (·.misses) rfl

/-- Nothing has been counted. -/
theorem stats_empty : ({} : Caches).stats = ⟨0, 0⟩ := by
  rw [stats_eq]
  simp [sum]

/-- A site that misses and then hits counts one of each. -/
theorem stats_once (id : SiteId) (s : Strategy) :
    ((({} : Caches).update id (·.rebind s)).update id .hit).stats = ⟨1, 1⟩ := by
  have hcold : (({} : Caches).get? id).getD {} = {} := by simp [get?]
  have hwarm : ((({} : Caches).update id (·.rebind s)).get? id).getD {} = InlineCache.rebind {} s := by
    rw [get?_update, if_pos rfl, hcold]
    rfl
  have hhits := hits_update {} id (·.rebind s)
  have hmisses := misses_update {} id (·.rebind s)
  rw [hcold, stats_empty] at hhits hmisses
  generalize ({} : Caches).update id (·.rebind s) = cs at *
  have hhits' := hits_update cs id .hit
  have hmisses' := misses_update cs id .hit
  rw [hwarm] at hhits' hmisses'
  generalize (cs.update id .hit).stats = total at *
  obtain ⟨hits, misses⟩ := total
  simp only [InlineCache.rebind, InlineCache.hit, CacheStats.mk.injEq] at *
  omega

/-! ## Settling -/

/-- What one execution of a site does to the caches. -/
inductive Settles (cs : Caches) (id : SiteId) : CacheMode → Caches → Prop
  /-- The caches are not used. -/
  | unused : Settles cs id .disabled cs
  /-- The guard holds. -/
  | hit : Settles cs id .enabled (cs.update id .hit)
  /-- The guard does not hold, or is not tried, and something is remembered. -/
  | miss {mode : CacheMode} (s : Strategy) (used : mode ≠ .disabled) :
      Settles cs id mode (cs.update id (·.rebind s))

/-- How the counts of all sites stand after a number of executions. -/
structure Accounts (cs : Caches) (mode : CacheMode) (executions : Nat) : Prop where
  /-- Where caches are used, hits and misses add up to the executions. -/
  counted : mode ≠ .disabled → cs.stats.hits + cs.stats.misses = executions
  /-- Where guards are not tried, there are no hits. -/
  noHits : mode = .alwaysRebind → cs.stats.hits = 0
  /-- Where caches are not used, no site has one. -/
  cold : mode = .disabled → ∀ id, cs.get? id = none

/-- Before any execution. -/
theorem accounts_empty (mode : CacheMode) : Accounts {} mode 0 := by
  refine ⟨fun _ => congrArg (fun stats => stats.hits + stats.misses) stats_empty,
    fun _ => congrArg (·.hits) stats_empty, fun _ id => ?_⟩
  simp [get?]

/-- **One more execution** is counted once. -/
theorem Accounts.settles {n : Nat} (h : cs.Accounts mode n) (hsettles : cs.Settles id mode cs') :
    cs'.Accounts mode (n + 1) := by
  cases hsettles with
  | unused => exact ⟨fun hused => absurd rfl hused, fun hmode => (nomatch hmode), h.cold⟩
  | hit =>
    have hhits : (cs.update id .hit).stats.hits + ((cs.get? id).getD {}).hits =
        cs.stats.hits + (((cs.get? id).getD {}).hits + 1) := hits_update cs id .hit
    have hmisses : (cs.update id .hit).stats.misses + ((cs.get? id).getD {}).misses =
        cs.stats.misses + ((cs.get? id).getD {}).misses := misses_update cs id .hit
    refine ⟨fun hused => ?_, fun hmode => (nomatch hmode), fun hmode => (nomatch hmode)⟩
    have hbefore := h.counted hused
    omega
  | miss s used =>
    have hhits : (cs.update id (·.rebind s)).stats.hits + ((cs.get? id).getD {}).hits =
        cs.stats.hits + ((cs.get? id).getD {}).hits := hits_update cs id (·.rebind s)
    have hmisses : (cs.update id (·.rebind s)).stats.misses + ((cs.get? id).getD {}).misses =
        cs.stats.misses + (((cs.get? id).getD {}).misses + 1) := misses_update cs id (·.rebind s)
    refine ⟨fun _ => ?_, fun hmode => ?_, fun hmode => absurd hmode used⟩
    · have hbefore := h.counted used
      omega
    · have hbefore := h.noHits hmode
      omega

/-- A guard that is tried counts a hit if it holds, and nothing otherwise. -/
theorem probe_cases {α : Type} (mode : CacheMode) (cs : Caches) (id : SiteId) (guard : Strategy → Option α) :
    (cs.probe mode id guard = (none, cs)) ∨
      mode = .enabled ∧ ∃ a, (cs.remembered? id).bind guard = some a ∧
        cs.probe mode id guard = (some a, cs.update id .hit) := by
  cases mode with
  | alwaysRebind | disabled => exact .inl rfl
  | enabled =>
    rw [probe, remembered?, Option.bind_map]
    rcases hfound : (cs.get? id).bind fun c => guard c.strategy with _ | a
    · exact .inl rfl
    · exact .inr ⟨rfl, a, hfound, rfl⟩

/-- A miss settles. -/
theorem settles_rebind (mode : CacheMode) (cs : Caches) (id : SiteId) (s : Strategy) :
    cs.Settles id mode (cs.rebind mode id s) := by
  cases mode with
  | disabled => exact .unused
  | enabled => exact .miss s (by decide)
  | alwaysRebind => exact .miss s (by decide)

end Caches

/-! ## Lookups through a site -/

namespace World

/-- **Looking for a property** settles once. -/
theorem memberHolder_settles (w : World) (mode : CacheMode) (id : SiteId) (access : Access) (receiver : Handle)
    (name : String) :
    w.caches.Settles id mode (w.memberHolder mode id access receiver name).2.caches := by
  obtain ⟨heap, envs, caches, log⟩ := w
  rw [memberHolder]
  rcases caches.probe_cases mode id (Strategy.holder? access receiver heap.epoch) with
    hprobe | ⟨rfl, a, -, hprobe⟩
  · simp only [hprobe]
    split
    · exact caches.settles_rebind mode id _
    · exact caches.settles_rebind mode id _
  · simp only [hprobe]
    exact .hit

/-- **Calling a global** settles once. -/
theorem globalTarget_settles (w : World) (mode : CacheMode) (id : SiteId) (callee : Value) :
    w.caches.Settles id mode (w.globalTarget mode id callee).2.caches := by
  obtain ⟨heap, envs, caches, log⟩ := w
  cases callee with
  | object h =>
    rw [globalTarget]
    rcases caches.probe_cases mode id (Strategy.target? h) with hprobe | ⟨rfl, a, -, hprobe⟩
    · simp only [hprobe]
      split
      · exact caches.settles_rebind mode id _
      · exact caches.settles_rebind mode id _
    · simp only [hprobe]
      exact .hit
  | undefined | null | bool b | number n | string s => exact caches.settles_rebind mode id _

/-- Where a site remembers that the receiver has a writable property, and its guard holds, the property can be
overwritten. -/
def Overwrites (w : World) (id : SiteId) (name : String) : Prop :=
  ∀ s receiver v, w.caches.remembered? id = some s → s.storesTo receiver w.heap.epoch = true →
    (w.heap.overwrite? receiver name v).isSome = true

/-- **Writing a property** settles once if a guard that holds does not fail to overwrite. -/
theorem writeObject_settles {w : World} {mode : CacheMode} {id : SiteId} {name : String}
    (hw : mode = .enabled → w.Overwrites id name)
    (receiver : Handle) (v : Value) :
    w.caches.Settles id mode (w.writeObject mode id receiver name v).2.caches := by
  obtain ⟨heap, envs, caches, log⟩ := w
  rw [writeObject]
  rcases caches.probe_cases mode id
    (fun s => if Strategy.storesTo receiver heap.epoch s then some () else none) with
    hprobe | ⟨rfl, a, hguard, hprobe⟩
  · simp only [hprobe, Option.bind_none]
    rcases heap.write receiver name v with ⟨_ | _ | _, heap'⟩ <;> exact caches.settles_rebind mode id _
  · obtain ⟨s, hs, hstores⟩ := Option.bind_eq_some_iff.mp hguard
    have hover := hw rfl s receiver v hs (by simpa using hstores)
    obtain ⟨heap', hheap'⟩ := Option.isSome_iff_exists.mp hover
    simp only [hprobe, Option.bind_some, hheap']
    exact .hit

/-- A write that is stored is remembered where nothing was. -/
theorem caches_writeObject_of_cold {w : World} {id : SiteId} {name : String} {r : Handle} {v : Value} {heap : Heap}
    (hcold : w.caches.remembered? id = none) (hstored : w.heap.write r name v = (.stored, heap)) :
    (w.writeObject .enabled id r name v).2.caches =
      w.caches.update id (·.rebind (.propertyStore r heap.epoch)) := by
  obtain ⟨heap, envs, caches, log⟩ := w
  rw [writeObject]
  rcases caches.probe_cases .enabled id
    (fun s => if Strategy.storesTo r heap.epoch s then some () else none) with hprobe | ⟨-, a, hguard, -⟩
  · simp only [hprobe, Option.bind_none, hstored]
    rfl
  · rw [hcold] at hguard
    cases hguard

/-- A write whose guard holds counts a hit. -/
theorem caches_writeObject_of_guard {w : World} {id : SiteId} {name : String} {s : Strategy} {r : Handle}
    (hw : w.Overwrites id name) (hs : w.caches.remembered? id = some s)
    (hstores : s.storesTo r w.heap.epoch = true) (v : Value) :
    (w.writeObject .enabled id r name v).2.caches = w.caches.update id .hit := by
  obtain ⟨heap', hover⟩ := Option.isSome_iff_exists.mp (hw s r v hs hstores)
  obtain ⟨heap, envs, caches, log⟩ := w
  rw [writeObject]
  rcases hprobe : caches.probe .enabled id
    (fun s => if Strategy.storesTo r heap.epoch s then some () else none) with ⟨hit, caches'⟩
  rw [Caches.remembered?] at hs
  obtain ⟨c, hc, rfl⟩ := Option.map_eq_some_iff.mp hs
  simp only [Caches.probe] at hprobe
  rw [show caches.get? id = some c from hc, Option.bind_some, if_pos hstores] at hprobe
  obtain ⟨rfl, rfl⟩ := Prod.mk.inj hprobe
  simp only [Option.bind_some]
  rw [show heap.overwrite? r name v = some heap' from hover]

end World

/-! ## Instructions and steps -/

/-- The site that an instruction goes through, if its operands are there. An absent value has no property to be
written, and the site is not asked. -/
def Instruction.consults? (f : Frame) : Instruction → Option SiteId
  | .callGlobal k site | .invokeMember k site => (f.stack[site.argc.toNat]?).map fun _ => f.site k
  | .getMember k _ => f.stack.head?.map fun _ => f.site k
  | .setMember k _ => (f.stack[1]?).bind fun receiver => if receiver.isNullish then none else some (f.site k)
  | _ => none

/-- The site that the next step of a run executes, if it executes one. -/
def State.consults? (m : Machine) (s : State) : Option SiteId :=
  match s.control, s.frames with
  | .execute, f :: _ => (m.read? f).bind fun (i, _) => i.consults? f
  | _, _ => none

/-- The write to an object that the next step of a run makes through a site, if it makes one. -/
def State.write? (m : Machine) (s : State) : Option (SiteId × String × Handle × Value) :=
  match s.control, s.frames with
  | .execute, f :: _ =>
    match m.read? f, f.stack with
    | some (.setMember k site, _), v :: .object r :: _ => some (f.site k, site.name, r, v)
    | _, _ => none
  | _, _ => none

/-- What it takes for the next step to make a write. -/
theorem State.of_write? {m : Machine} {s : State} {id : SiteId} {name : String} {r : Handle} {v : Value}
    (h : s.write? m = some (id, name, r, v)) :
    s.control = .execute ∧ ∃ f rest k site next stack, s.frames = f :: rest ∧
      m.read? f = some (.setMember k site, next) ∧ f.stack = v :: .object r :: stack ∧ id = f.site k ∧
      name = site.name := by
  rw [write?.eq_def] at h
  split at h
  · next f rest hcontrol hframes =>
    split at h
    · next k site next v' r' stack hread hstack =>
      cases h
      exact ⟨hcontrol, f, rest, k, site, next, stack, hframes, hread, hstack, rfl, rfl⟩
    · cases h
  · cases h

/-- How many sites a run executes within a number of steps. -/
def Machine.executions (m : Machine) : Nat → State → Nat
  | 0, _ => 0
  | n + 1, s =>
    (s.consults? m).toList.length +
      match m.step s with
      | .running s' => m.executions n s'
      | .finished _ => 0

/-- What a step does to the caches: the site that it executes settles, and otherwise nothing changes. -/
def Caches.Turns (mode : CacheMode) (cs : Caches) : Option SiteId → Caches → Prop
  | some id, cs' => cs.Settles id mode cs'
  | none, cs' => cs' = cs

/-- After it the counts stand right again. -/
theorem Caches.Accounts.turns {mode : CacheMode} {cs cs' : Caches} {n : Nat} {id : Option SiteId}
    (h : cs.Accounts mode n) (hturns : cs.Turns mode id cs') : cs'.Accounts mode (n + id.toList.length) := by
  rcases id with _ | id
  · obtain rfl : cs' = cs := hturns
    exact h
  · exact h.settles hturns

namespace Machine

variable {m : Machine} {w : World} {f : Frame}

/-- In a world where what is remembered is true, a guard that holds does not fail to overwrite. -/
theorem Steady.overwrites (hw : m.Steady w) {id : SiteId} {site : CallSite} (hsite : m.site? id = some site) :
    w.Overwrites id site.name := by
  intro s receiver v hs hstores
  obtain ⟨site', hsite', hrecalls⟩ := hw.recalls id s hs
  obtain rfl := Option.some.inj (hsite.symm.trans hsite')
  cases s with
  | propertyStore r e =>
    obtain ⟨rfl, rfl⟩ : r = receiver ∧ e = w.heap.epoch := by simpa [Strategy.storesTo] using hstores
    obtain ⟨v₀, flags, hown, hflags⟩ := hrecalls.2 rfl
    rw [(Heap.overwrite?_eq_write hown hflags v).2]
    rfl
  | uninitialized | globalCall c t | propertyLoad r e k | methodCall r e k => cases hstores

/-- Reading a property of any value settles once. -/
theorem readMember_settles (m : Machine) (w : World) (id : SiteId) (access : Access) (receiver : Value)
    (name : String) :
    w.caches.Settles id m.config.cacheMode (m.readMember w id access receiver name).2.caches := by
  cases receiver with
  | object h =>
    have hsettles := w.memberHolder_settles m.config.cacheMode id access h name
    rw [readMember]
    split
    all_goals
      next hlookup =>
        rw [hlookup] at hsettles
        exact hsettles
  | undefined | null | bool b | number n | string s => exact w.caches.settles_rebind _ _ _

/-- Writing a property of any value but an absent one settles once. -/
theorem writeMember_settles {id : SiteId} {name : String}
    (hw : m.config.cacheMode = .enabled → w.Overwrites id name) {receiver : Value}
    (hreceiver : receiver.isNullish = false) (v : Value) :
    w.caches.Settles id m.config.cacheMode (m.writeMember w id receiver name v).2.caches := by
  cases receiver with
  | object h => exact World.writeObject_settles hw h v
  | undefined | null => cases hreceiver
  | bool b | number n | string s => exact w.caches.settles_rebind _ _ _

/-- What an instruction does to the caches is what its lookup does, whatever comes next. -/
theorem Settles.of_lookup {α : Type} {id : SiteId} {mode : CacheMode} {lookup : α × World}
    (h : w.caches.Settles id mode lookup.2.caches) {a : α} {w' : World} (hlookup : lookup = (a, w')) :
    w.caches.Settles id mode w'.caches := by
  rw [hlookup] at h
  exact h

/-- An instruction that takes arguments goes through its site if they are there, with a value below. -/
theorem withArgs_turns {argc : Nat} {k : Value → List Value → Frame → Turn} {id : SiteId} {mode : CacheMode}
    (hk : ∀ v args stack, w.caches.Settles id mode (k v args { f with stack }).world.caches) :
    w.caches.Turns mode ((f.stack[argc]?).map fun _ => id) (Turn.withArgs w f argc k).world.caches := by
  rcases hv : f.stack[argc]? with _ | v
  · obtain ⟨stack, heq⟩ := Turn.withArgs_eq_underflow hv
    rw [heq]
    exact rfl
  · rw [Turn.withArgs_eq_of_getElem? hv]
    exact hk _ _ _

/-- **An instruction** settles the site that it goes through, once, and no other. -/
theorem execute_turns (i : Instruction)
    (hw : m.config.cacheMode = .enabled → ∀ k site, i.site? = some (k, site) → w.Overwrites (f.site k) site.name) :
    w.caches.Turns m.config.cacheMode (i.consults? f) (m.execute w f i).world.caches := by
  cases i with
  | getMember k site =>
    rw [Instruction.consults?, execute, Turn.getMember]
    rcases f.stack with _ | ⟨receiver, rest⟩
    · exact rfl
    · have hread := m.readMember_settles w (f.site k) .load receiver site.name
      dsimp only
      split
      · next hlookup => exact Settles.of_lookup hread hlookup
      · next hlookup => exact Settles.of_lookup hread hlookup
  | setMember k site =>
    rw [Instruction.consults?, execute, Turn.setMember]
    rcases f.stack with _ | ⟨v, _ | ⟨receiver, rest⟩⟩
    · exact rfl
    · exact rfl
    · simp only [List.getElem?_cons_succ, List.getElem?_cons_zero, Option.bind_some]
      rcases hreceiver : receiver.isNullish with _ | _
      · have hwrite := writeMember_settles (fun hmode => hw hmode k site rfl) hreceiver v
        rw [if_neg Bool.false_ne_true]
        split
        · next hlookup => exact Settles.of_lookup hwrite hlookup
        · next hlookup => exact Settles.of_lookup hwrite hlookup
      · -- The error comes before anything is looked up.
        cases receiver with
        | undefined | null => exact rfl
        | object h | bool b | number n | string s => cases hreceiver
  | invokeMember k site =>
    rw [Instruction.consults?, execute, Turn.invokeMember]
    refine withArgs_turns fun receiver args stack => ?_
    have hread := m.readMember_settles w (f.site k) .method receiver site.name
    split
    · next hlookup => exact Settles.of_lookup hread hlookup
    · next hlookup => exact Settles.of_lookup hread hlookup
  | callGlobal k site =>
    rw [Instruction.consults?, execute, Turn.callGlobal]
    refine withArgs_turns fun callee args stack => ?_
    have htarget := w.globalTarget_settles m.config.cacheMode (f.site k) callee
    split
    · next hlookup => exact Settles.of_lookup htarget hlookup
    · next hlookup => exact Settles.of_lookup htarget hlookup
  | _ => exact m.caches_execute w f rfl

/-- The site of the next instruction of a frame is one of the loaded units. -/
theorem site?_of_read? {i : Instruction} {next : Nat} (hread : m.read? f = some (i, next)) {k : Nat}
    {site : CallSite} (hsite : i.site? = some (k, site)) : m.site? (f.site k) = some site := by
  obtain ⟨unit, function, hcode, hinstr⟩ := read?_eq_some_iff.mp hread
  exact site?_of_code hcode (Instruction.sites_of_read hinstr hsite)

/-- The next instruction of a frame does, whatever the code is. -/
theorem advance_turns (hw : m.config.cacheMode = .enabled → m.Steady w) (f : Frame) :
    w.caches.Turns m.config.cacheMode ((m.read? f).bind fun (i, _) => i.consults? f)
      (m.advance w f).world.caches := by
  rcases hread : m.read? f with _ | ⟨i, next⟩
  · rw [advance]
    rw [read?] at hread
    split
    · exact rfl
    · next hcode =>
      simp only [hcode] at hread
      split
      · exact rfl
      · exact rfl
      · next hinstr =>
        rw [hinstr] at hread
        cases hread
  · have hplace : i.consults? (f.jump next) = i.consults? f := by cases i <;> rfl
    rw [advance_of_read? hread, Option.bind_some]
    dsimp only
    rw [← hplace]
    exact execute_turns i fun hmode k site hsite => (hw hmode).overwrites (site?_of_read? hread hsite)

/-- **A step** of a run settles the site that it executes, once, and no other. -/
theorem step_turns {s : State} (hs : m.config.cacheMode = .enabled → m.Steady s.world) :
    s.world.caches.Turns m.config.cacheMode (s.consults? m) (m.step s).world.caches := by
  obtain ⟨w, frames, control, depth⟩ := s
  cases control with
  | execute =>
    cases frames with
    | nil => exact rfl
    | cons f rest => exact advance_turns hs f
  | enter | deliver | ret | raise =>
    refine (m.step_apart _ ?_).2.1
    nofun

/-- A write does to the caches what its lookup does. -/
theorem caches_step_of_write {s : State} {id : SiteId} {name : String} {r : Handle} {v : Value}
    (h : s.write? m = some (id, name, r, v)) :
    (m.step s).world.caches = (s.world.writeObject m.config.cacheMode id r name v).2.caches := by
  obtain ⟨hcontrol, f, rest, k, site, next, stack, hframes, hread, hstack, rfl, rfl⟩ := s.of_write? h
  obtain ⟨w, frames, control, depth⟩ := s
  obtain rfl : control = .execute := hcontrol
  obtain rfl : frames = f :: rest := hframes
  have hturn : m.advance w f = .setMember m w (f.jump next) k site := advance_of_read? hread
  have hjump : (f.jump next).stack = v :: .object r :: stack := hstack
  rw [step]
  dsimp only [Progress.world]
  rw [hturn, Turn.setMember, hjump]
  rfl

/-! ## Runs -/

/-- What the executions of sites rest on: where guards are tried, the world is steady and host functions keep to
their part. -/
structure Counts (m : Machine) (w : World) : Prop where
  /-- The world is steady. -/
  steady : m.config.cacheMode = .enabled → m.Steady w
  /-- The host functions keep to their part. -/
  natives : m.config.cacheMode = .enabled → m.natives.Orderly

/-- It goes on step by step. -/
theorem Counts.step {s s' : State} (hs : m.Counts s.world) (hstep : m.step s = .running s') : m.Counts s'.world := by
  refine ⟨fun hmode => ?_, hs.natives⟩
  have hsteady := (step_steady (hs.natives hmode) (hs.steady hmode)).2.1
  rwa [hstep] at hsteady

/-- A run ends with the world that it has come to, without executing anything. -/
theorem step_finished {s : State} {o : Outcome} (hstep : m.step s = .finished o) :
    o.world = s.world ∧ s.consults? m = none := by
  obtain ⟨w, frames, control, depth⟩ := s
  cases control with
  | enter callee target this args resume => cases target <;> cases hstep
  | execute | deliver resume v | ret v | raise e =>
    cases frames with
    | nil =>
      obtain rfl := Progress.finished.inj hstep
      exact ⟨rfl, rfl⟩
    | cons f rest => cases hstep

/-- The world after one more step. -/
theorem world_after_succ (m : Machine) (k : Nat) (s : State) :
    (m.after (k + 1) s).world = (m.step (m.after k s)).world := by
  rw [after_succ]
  rcases hstep : m.step (m.after k s) with s' | o
  · rw [after_of_running hstep]
    rfl
  · rw [after_of_finished hstep]
    exact (step_finished hstep).1.symm

/-- **The states of a run** are the same but for what sites remember. -/
theorem after_forget (hm : m.natives.Orderly) (k : Nat) {s : State} (hs : m.Coherent s.world) :
    m.forget.after k s.forget = (m.after k s).forget := by
  induction k generalizing s with
  | zero => rfl
  | succ k ih =>
    obtain ⟨hstep, hcoherent⟩ := step_forget hm hs
    rw [after, after, hstep]
    rcases h : m.step s with s' | o
    · rw [h] at hcoherent
      exact ih hcoherent
    · rfl

/-- The world that a run ends with is the last one that it comes to. -/
theorem world_of_run {fuel : Nat} {s : State} {o : Outcome} (hrun : m.run fuel s = some o) :
    o.world = (m.after fuel s).world := by
  induction fuel generalizing s with
  | zero => cases hrun
  | succ fuel ih =>
    rw [run] at hrun
    rw [after]
    rcases hstep : m.step s with s' | o'
    · rw [hstep] at hrun
      exact ih hrun
    · rw [hstep] at hrun
      obtain rfl := Option.some.inj hrun
      exact (step_finished hstep).1

/-- **A run** counts each execution once: at every moment, the counts have grown by the number of executions. -/
theorem Counts.accounts {s : State} {n : Nat} (hs : m.Counts s.world)
    (h : s.world.caches.Accounts m.config.cacheMode n) (k : Nat) :
    m.Counts (m.after k s).world ∧
      (m.after k s).world.caches.Accounts m.config.cacheMode (n + m.executions k s) := by
  induction k generalizing s n with
  | zero => exact ⟨hs, h⟩
  | succ k ih =>
    rw [after, executions]
    rcases hstep : m.step s with s' | o
    · have hturned := h.turns (step_turns hs.steady)
      rw [hstep] at hturned
      rw [← Nat.add_assoc]
      exact ih (hs.step hstep) hturned
    · rw [(step_finished hstep).2]
      exact ⟨hs, h⟩

end Machine

/-! ## Histories -/

/-- The run that a step of the host makes. -/
structure HostRun where
  /-- The machine. -/
  machine : Machine
  /-- The first state. -/
  first : State
  /-- How many machine steps it is given. -/
  steps : Nat

namespace HostRun

/-- The state after a number of machine steps. -/
def after (r : HostRun) (k : Nat) : State := r.machine.after k r.first

/-- How many sites it has executed by then. -/
def executions (r : HostRun) (k : Nat) : Nat := r.machine.executions k r.first

end HostRun

namespace Engine

/-- The run of a unit, after its declarations. -/
def unitRun? (e : Engine) (fuel unit : Nat) : Option HostRun :=
  e.machine.units[unit]?.map fun u =>
    { machine := e.machine
      first :=
        { world := (e.setHeap (u.globals.foldl (declareGlobal e.realm) e.heap)).world
          control := .enter .undefined (.script ⟨unit, u.entry, none⟩) e.machine.globalValue [] .push }
      steps := fuel }

/-- The call of a value. -/
def callRun (e : Engine) (fuel : Nat) (callee this : Value) (args : List Value) : HostRun :=
  { machine := e.machine
    first := { world := e.world, control := .call e.heap callee this args "value" .push }
    steps := fuel }

/-- The run that a step of the host makes, if it comes to one. -/
def run? (e : Engine) : HostStep → Option HostRun
  | .run fuel unit => e.unitRun? fuel unit
  | .eval fuel p =>
    match e.compile p with
    | (.error _, _) => none
    | (.ok unit, e) => e.unitRun? fuel unit
  | .call fuel callee this args => some (e.callRun fuel callee this args)
  | .readGlobal fuel name =>
    match e.heap.read e.realm.global name with
    | .value _ => none
    | .getter h => some (e.callRun fuel (.object h) e.machine.globalValue [])
  | _ => none

/-- The number of executions since the caches were cold, after one more step of the host. -/
def executions (e : Engine) (n : Nat) : HostStep → Nat
  | .resetCaches => 0
  | step => n + ((e.run? step).map fun r => r.executions r.steps).getD 0

/-- What a host can make of a new engine, step by step, with the number of executions since the caches were cold.
Where guards are tried, the host functions keep to their part. -/
inductive Tallies (config : Config) : Nat → Engine → Prop
  /-- A new engine. -/
  | create : Tallies config 0 (create config)
  /-- One step further. -/
  | perform {n : Nat} {e e' : Engine} {step : HostStep} {a : HostAnswer} (h : Tallies config n e)
    (hstep : config.cacheMode = .enabled → step.Tidy) (hp : e.perform step = some (a, e')) :
    Tallies config (e.executions n step) e'

variable {e e' : Engine} {r : HostRun}

/-- The first state of a run of a unit has the caches and the settings of the engine. -/
theorem counts_unitRun (he : e.machine.config.cacheMode = .enabled → e.Steady) {fuel unit : Nat}
    (hr : e.unitRun? fuel unit = some r) :
    r.machine = e.machine ∧ r.first.world.caches = e.world.caches ∧ r.machine.Counts r.first.world := by
  obtain ⟨u, -, rfl⟩ := Option.map_eq_some_iff.mp hr
  exact ⟨rfl, rfl, fun hmode => ((he hmode).setHeap (declareGlobals_evolves e.realm u.globals e.heap)).steady.world,
    fun hmode => (he hmode).natives⟩

/-- Compiling changes neither caches nor settings. -/
theorem compile_keeps (e : Engine) (p : Program) :
    (e.compile p).2.world = e.world ∧ (e.compile p).2.machine.config = e.machine.config := by
  rw [Engine.compile]
  split <;> exact ⟨rfl, rfl⟩

/-- **The first state of a run** has the caches and the settings of the engine. -/
theorem counts_run (he : e.machine.config.cacheMode = .enabled → e.Steady) {step : HostStep}
    (hr : e.run? step = some r) :
    r.machine.config = e.machine.config ∧ r.first.world.caches = e.world.caches ∧
      r.machine.Counts r.first.world := by
  have hcall : ∀ fuel callee this args, r = e.callRun fuel callee this args →
      r.machine.config = e.machine.config ∧ r.first.world.caches = e.world.caches ∧
        r.machine.Counts r.first.world := by
    rintro fuel callee this args rfl
    exact ⟨rfl, rfl, fun hmode => (he hmode).world, fun hmode => (he hmode).natives⟩
  cases step with
  | run fuel unit =>
    obtain ⟨hmachine, hcaches, hcounts⟩ := counts_unitRun he hr
    exact ⟨by rw [hmachine], hcaches, hcounts⟩
  | eval fuel p =>
    have hkeeps := e.compile_keeps p
    have hsteady : (e.compile p).2.machine.config.cacheMode = .enabled → (e.compile p).2.Steady := fun hmode =>
      ((he (hkeeps.2 ▸ hmode)).compile p).steady
    rw [run?] at hr
    rcases hcompile : e.compile p with ⟨_ | unit, e₁⟩
    · rw [hcompile] at hr
      cases hr
    · rw [hcompile] at hr hkeeps hsteady
      obtain ⟨hmachine, hcaches, hcounts⟩ := counts_unitRun hsteady hr
      exact ⟨by rw [hmachine, hkeeps.2], by rw [hcaches, hkeeps.1], hcounts⟩
  | call fuel callee this args => exact hcall _ _ _ _ (Option.some.inj hr).symm
  | readGlobal fuel name =>
    rw [run?] at hr
    split at hr
    · cases hr
    · exact hcall _ _ _ _ (Option.some.inj hr).symm
  | compile | load | setGlobal | registerNative | nativeFunction | allocate | define | write | overwrite | delete
  | collect | resetCaches => cases hr

/-- A run of a unit leaves the world that it comes to. -/
theorem world_of_unitRun {fuel unit : Nat} {result : Except RuntimeError Value}
    (hend : e.run fuel unit = some (result, e')) :
    e'.machine = e.machine ∧
      e'.world = ((e.unitRun? fuel unit).map fun r => (r.after r.steps).world).getD e.world := by
  rw [unitRun?]
  rcases hu : e.machine.units[unit]? with _ | u
  · simp only [Engine.run, hu] at hend
    obtain ⟨-, rfl⟩ := Prod.mk.inj (Option.some.inj hend)
    exact ⟨rfl, rfl⟩
  · simp only [Engine.run, hu] at hend
    obtain ⟨o, hrun, ho⟩ := Option.map_eq_some_iff.mp hend
    obtain ⟨-, rfl⟩ := Prod.mk.inj ho
    exact ⟨rfl, Machine.world_of_run hrun⟩

/-- A call leaves the world that it comes to. -/
theorem world_of_callRun {fuel : Nat} {callee this : Value} {args : List Value} {result : Except RuntimeError Value}
    (hend : e.call fuel callee this args = some (result, e')) :
    e'.machine = e.machine ∧ e'.world = ((e.callRun fuel callee this args).after fuel).world := by
  obtain ⟨o, hrun, ho⟩ := Option.map_eq_some_iff.mp hend
  obtain ⟨-, rfl⟩ := Prod.mk.inj ho
  exact ⟨rfl, Machine.world_of_run hrun⟩

/-- **A step of the host** changes the caches by its run only, unless it resets them. -/
theorem perform_caches {step : HostStep} {a : HostAnswer} (hp : e.perform step = some (a, e'))
    (hstep : step ≠ .resetCaches) :
    e'.machine.config = e.machine.config ∧
      e'.world.caches = ((e.run? step).map fun r => (r.after r.steps).world.caches).getD e.world.caches := by
  have hworld : ∀ (r : Option HostRun) (w : World),
      ((r.map fun r => (r.after r.steps).world).getD w).caches =
        (r.map fun r => (r.after r.steps).world.caches).getD w.caches := by
    rintro (_ | r) w <;> rfl
  cases performs hp with
  | run h =>
    obtain ⟨hmachine, hends⟩ := world_of_unitRun h
    exact ⟨by rw [hmachine], by rw [hends, hworld, run?]⟩
  | @refused _ p _ _ hcompile =>
    have hkeeps := e.compile_keeps p
    rw [hcompile] at hkeeps
    rw [run?, hcompile]
    exact ⟨hkeeps.2, congrArg (·.caches) hkeeps.1⟩
  | @eval _ _ p _ _ _ hcompile h =>
    have hkeeps := e.compile_keeps p
    rw [hcompile] at hkeeps
    obtain ⟨hmachine, hends⟩ := world_of_unitRun h
    rw [run?, hcompile]
    exact ⟨by rw [hmachine, hkeeps.2], by rw [hends, hworld, hkeeps.1]⟩
  | call h =>
    obtain ⟨hmachine, hends⟩ := world_of_callRun h
    exact ⟨by rw [hmachine], by rw [hends]; rfl⟩
  | readValue hread =>
    rw [run?, hread]
    exact ⟨rfl, rfl⟩
  | readGetter hread h =>
    obtain ⟨hmachine, hends⟩ := world_of_callRun h
    rw [run?, hread]
    exact ⟨by rw [hmachine], by rw [hends]; rfl⟩
  | compile p => exact ⟨(e.compile_keeps p).2, congrArg (·.caches) (e.compile_keeps p).1⟩
  | load | setGlobal | registerNative | nativeFunction | allocate | define | write | overwrite | delete | collect =>
    exact ⟨rfl, rfl⟩
  | resetCaches => exact absurd rfl hstep

/-- How an engine stands after a number of executions. -/
structure Stands (e : Engine) (config : Config) (n : Nat) : Prop where
  /-- Its settings are the ones it was made with. -/
  settings : e.machine.config = config
  /-- Where guards are tried, it is steady. -/
  steady : config.cacheMode = .enabled → e.Steady
  /-- The counts of its sites stand right. -/
  accounts : e.world.caches.Accounts config.cacheMode n

/-- **In the run of a step** the counts stand right at every moment. -/
theorem Stands.run {config : Config} {n : Nat} (he : e.Stands config n) {step : HostStep}
    (hr : e.run? step = some r) (k : Nat) :
    r.machine.config = config ∧ r.machine.Counts (r.after k).world ∧
      (r.after k).world.caches.Accounts config.cacheMode (n + r.executions k) := by
  obtain ⟨hconfig, hsteady, haccounts⟩ := he
  subst hconfig
  obtain ⟨hconfig, hcaches, hcounts⟩ := counts_run hsteady hr
  rw [← hcaches, ← hconfig] at haccounts
  obtain ⟨hafter, hdone⟩ := hcounts.accounts haccounts k
  exact ⟨hconfig, hafter, hconfig ▸ hdone⟩

/-- While a run executes no site, the caches stay. -/
theorem Stands.caches_after {config : Config} {n : Nat} (he : e.Stands config n) {step : HostStep}
    (hr : e.run? step = some r) (k j : Nat)
    (hnone : ∀ i < j, (r.after (k + i)).consults? r.machine = none) :
    (r.after (k + j)).world.caches = (r.after k).world.caches := by
  induction j with
  | zero => rfl
  | succ j ih =>
    have hturns := Machine.step_turns (he.run hr (k + j)).2.1.steady
    rw [hnone j (Nat.lt_succ_self j)] at hturns
    rw [← Nat.add_assoc, HostRun.after, Machine.world_after_succ]
    exact hturns.trans (ih fun i hi => hnone i (Nat.lt_succ_of_lt hi))

/-- The states of a run are those of one without caches, but for what sites remember. -/
theorem Stands.forget_after {config : Config} {n : Nat} (he : e.Stands config n)
    (hmode : config.cacheMode = .enabled) (hcold : e.world.caches = {}) {step : HostStep}
    (hr : e.run? step = some r) (k : Nat) :
    (r.after k).forget = r.machine.forget.after k r.first.forget := by
  obtain ⟨hsettings, hsteady, -⟩ := he
  subst hsettings
  obtain ⟨hconfig, hcaches, hcounts⟩ := counts_run hsteady hr
  rw [← hconfig] at hmode
  refine (Machine.after_forget (hcounts.natives hmode) k ⟨(hcounts.steady hmode).sound, ?_⟩).symm
  rw [hcaches, hcold]
  exact Caches.hold_empty _ _

/-- **A site that writes again** what it has stored on an object before hits, if no site is executed and no shape
changes in between. -/
theorem Stands.caches_of_writes {config : Config} {n : Nat} (he : e.Stands config n)
    (hmode : config.cacheMode = .enabled) {step : HostStep} (hr : e.run? step = some r) {j k : Nat} {id : SiteId}
    {name : String} {h : Handle} {v v' : Value} {heap : Heap}
    (hfirst : (r.after j).write? r.machine = some (id, name, h, v))
    (hcold : (r.after j).world.caches.remembered? id = none)
    (hstored : (r.after j).world.heap.write h name v = (.stored, heap))
    (hnone : ∀ i < k, (r.after (j + 1 + i)).consults? r.machine = none)
    (hagain : (r.after (j + 1 + k)).write? r.machine = some (id, name, h, v'))
    (hepoch : (r.after (j + 1 + k)).world.heap.epoch = heap.epoch) :
    (r.after (j + 1 + k + 1)).world.caches =
      ((r.after j).world.caches.update id (·.rebind (.propertyStore h heap.epoch))).update id .hit := by
  have henabled : r.machine.config.cacheMode = .enabled := (he.run hr 0).1 ▸ hmode
  have hmissed : (r.after (j + 1)).world.caches =
      (r.after j).world.caches.update id (·.rebind (.propertyStore h heap.epoch)) := by
    rw [HostRun.after, Machine.world_after_succ]
    refine (Machine.caches_step_of_write hfirst).trans ?_
    rw [henabled]
    exact World.caches_writeObject_of_cold hcold hstored
  have hstays := (he.caches_after hr (j + 1) k hnone).trans hmissed
  have hremembers : (r.after (j + 1 + k)).world.caches.remembered? id = some (.propertyStore h heap.epoch) := by
    rw [hstays, Caches.remembered?, Caches.get?_update, if_pos rfl]
    rfl
  have hover : (r.after (j + 1 + k)).world.Overwrites id name := by
    obtain ⟨-, f, rest, k, site, next, -, -, hread, -, rfl, rfl⟩ := State.of_write? hagain
    exact ((he.run hr _).2.1.steady henabled).overwrites (Machine.site?_of_read? hread rfl)
  rw [HostRun.after, Machine.world_after_succ]
  refine (Machine.caches_step_of_write hagain).trans ?_
  rw [henabled]
  refine (World.caches_writeObject_of_guard hover hremembers ?_ v').trans (congrArg (·.update id .hit) hstays)
  rw [hepoch]
  simp [Strategy.storesTo]

/-- **After a step** they do. -/
theorem Stands.perform {config : Config} {n : Nat} (he : e.Stands config n) {step : HostStep}
    (hstep : config.cacheMode = .enabled → step.Tidy) {a : HostAnswer} (hp : e.perform step = some (a, e')) :
    e'.Stands config (e.executions n step) := by
  have hsteady : config.cacheMode = .enabled → e'.Steady := fun hmode =>
    ((he.steady hmode).perform (hstep hmode) hp).steady
  by_cases hreset : step = .resetCaches
  · subst hreset
    obtain ⟨-, rfl⟩ := Prod.mk.inj (Option.some.inj hp)
    exact ⟨he.settings, hsteady, Caches.accounts_empty _⟩
  · obtain ⟨hconfig, hcaches⟩ := perform_caches hp hreset
    refine ⟨hconfig.trans he.settings, hsteady, ?_⟩
    have hexecutions : e.executions n step = n + ((e.run? step).map fun r => r.executions r.steps).getD 0 := by
      cases step with
      | resetCaches => exact absurd rfl hreset
      | _ => rfl
    rw [hexecutions, hcaches]
    rcases hr : e.run? step with _ | r
    · exact he.accounts
    · exact (he.run hr r.steps).2.2

/-- **A history** keeps the counts right. -/
theorem Tallies.stands {config : Config} {n : Nat} (h : Tallies config n e) : e.Stands config n := by
  induction h with
  | create => exact ⟨rfl, fun _ => steady_create config, Caches.accounts_empty _⟩
  | perform _ hstep hp ih => exact ih.perform hstep hp

/-- **Every execution of a site is counted once.** Take any history of an engine, with collections and resets of
the caches, and let `n` executions have taken place since the caches were cold. Then hits and misses of all sites
add up to `n`, without any hits where guards are not tried; and where caches are not used there are none.

So it is at every moment of every run that a further step of the host makes, whether it comes to an end or not:
by then the run has made its own executions in addition. Each step of the run settles the cache of the site that
it executes, by one hit or by one miss, and changes no cache otherwise. In particular an instruction that writes
a property never counts both: where the guard of its site holds, the property can be overwritten. -/
theorem executions_counted {config : Config} {n : Nat} (h : Tallies config n e) :
    e.world.caches.Accounts config.cacheMode n ∧
    ∀ step r, e.run? step = some r → ∀ k, let s := r.after k
      s.world.caches.Accounts config.cacheMode (n + r.executions k) ∧
      s.world.caches.Turns config.cacheMode (s.consults? r.machine) (r.machine.step s).world.caches ∧
      (config.cacheMode = .enabled → ∀ f rest i site next, s.frames = f :: rest →
        r.machine.read? f = some (.setMember i site, next) → s.world.Overwrites (f.site i) site.name) := by
  have hstands := h.stands
  refine ⟨hstands.accounts, fun step r hr k => ?_⟩
  obtain ⟨hconfig, hcounts, haccounts⟩ := hstands.run hr k
  intro s
  refine ⟨haccounts, ?_, fun hmode f rest i site next _ hread => ?_⟩
  · have hturns := Machine.step_turns (m := r.machine) (s := s) hcounts.steady
    rwa [hconfig] at hturns
  · exact (hcounts.steady (hconfig ▸ hmode)).overwrites (Machine.site?_of_read? hread rfl)

/-- A program that writes a property of its receiver, and writes it again at another place. -/
def writesTwice : Program :=
  ⟨[.assign .none (.member .none (.this .none) "v") (.literal .none (.bool true)),
    .assign .none (.member .none (.this .none) "v") (.literal .none (.bool false))], none, false⟩

/-- A program that writes the same property of its receiver for ever. -/
def writesForever : Program :=
  ⟨[.loop .none (.literal .none (.bool true))
    (.assign .none (.member .none (.this .none) "v") (.literal .none (.bool true)))], none, false⟩

/-- Its site misses when it is executed first, and hits when it is executed again. -/
theorem caches_writesForever {r : HostRun} (hr : (create {}).run? (.eval 0 writesForever) = some r) :
    ∃ s, (r.after 15).world.caches = (({} : Caches).update ⟨0, 0, 0⟩ (·.rebind s)).update ⟨0, 0, 0⟩ .hit := by
  have hstands : (create {}).Stands {} 0 := Tallies.create.stands
  have hforget := hstands.forget_after rfl rfl hr
  -- Without caches the states can be computed.
  have hfacts : ∀ r ∈ (create {}).run? (.eval 0 writesForever),
      let s := fun k => r.machine.forget.after k r.first.forget
      let written := (s 5).world.heap.write ⟨2, 0⟩ "v" (.bool true)
      (∀ i < 5, (s (0 + i)).consults? r.machine = none) ∧
      (s 5).write? r.machine = some (⟨0, 0, 0⟩, "v", ⟨2, 0⟩, .bool true) ∧ written.1 = .stored ∧
      (∀ i < 8, (s (5 + 1 + i)).consults? r.machine = none) ∧
      (s (5 + 1 + 8)).write? r.machine = some (⟨0, 0, 0⟩, "v", ⟨2, 0⟩, .bool true) ∧
      (s (5 + 1 + 8)).world.heap.epoch = written.2.epoch := by decide +kernel
  obtain ⟨hbefore, hfirst, hstored, hbetween, hagain, hepoch⟩ := hfacts r hr
  simp only [← hforget] at hbefore hfirst hstored hbetween hagain hepoch
  obtain ⟨-, hempty, -⟩ := counts_run (fun _ => steady_create {}) hr
  have hcaches : (r.after 5).world.caches = {} := (hstands.caches_after hr 0 5 hbefore).trans hempty
  have hcold : (r.after 5).world.caches.remembered? ⟨0, 0, 0⟩ = none := by
    rw [hcaches]
    simp [Caches.remembered?, Caches.get?]
  have hwrites := hstands.caches_of_writes rfl hr hfirst hcold (Prod.ext hstored rfl) hbetween hagain hepoch
  rw [hcaches] at hwrites
  exact ⟨_, hwrites⟩

/-- Where guards are not tried, running the first program counts two misses. Where they are, the second program
counts a miss when it writes for the first time, and a hit when the same site writes again. -/
theorem executions_counted_writesForever :
    (∃ e, Tallies { cacheMode := .alwaysRebind } 2 e ∧ e.world.caches.stats = ⟨0, 2⟩) ∧
    ∃ r, (create {}).run? (.eval 0 writesForever) = some r ∧ r.executions 15 = 2 ∧
      (r.after 15).world.caches.stats = ⟨1, 1⟩ := by
  constructor
  · have hends : ((create { cacheMode := .alwaysRebind }).perform (.eval 100 writesTwice)).isSome = true := by
      decide +kernel
    obtain ⟨⟨a, e⟩, hp⟩ := Option.isSome_iff_exists.mp hends
    have htwo : (create { cacheMode := .alwaysRebind }).executions 0 (.eval 100 writesTwice) = 2 := by
      decide +kernel
    have htallies : Tallies { cacheMode := .alwaysRebind } 2 e :=
      htwo ▸ .perform .create (fun hmode => (nomatch hmode)) hp
    obtain ⟨hcounted, hnoHits, -⟩ := (executions_counted htallies).1
    have hsum := hcounted (by decide)
    have hnone := hnoHits rfl
    refine ⟨e, htallies, ?_⟩
    rw [hnone, Nat.zero_add] at hsum
    rw [← hnone, ← hsum]
  · have hsome : ((create {}).run? (.eval 0 writesForever)).isSome = true := by decide +kernel
    obtain ⟨r, hr⟩ := Option.isSome_iff_exists.mp hsome
    obtain ⟨s, hs⟩ := caches_writesForever hr
    have hstats : (r.after 15).world.caches.stats = ⟨1, 1⟩ := by
      rw [hs]
      exact Caches.stats_once ..
    have hcounted := ((executions_counted .create).2 _ r hr 15).1.counted (by decide)
    rw [hstats, Nat.zero_add] at hcounted
    exact ⟨r, hr, hcounted.symm, hstats⟩

end Engine

end ScriptEngine
