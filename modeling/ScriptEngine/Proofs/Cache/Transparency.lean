import ScriptEngine.Proofs.Cache.Validity
import ScriptEngine.Proofs.Host.History
import ScriptEngine.Proofs.Machine.Outcomes
import ScriptEngine.Native.Library

/-!
# Caches are transparent

An engine whose sites use their caches and one whose sites have none go through the same steps, side by
side: they have the same objects, environments, frames and log, and differ only in what the sites
remember. The engine without caches is obtained by *forgetting*: `World.forget` empties the caches and
`Machine.forget` switches them off. Then every operation commutes with forgetting, as long as the caches
are valid:

* an instruction (`Machine.execute_mirrors`),
* a machine step and a run, whether it ends or not (`Machine.step_forget`, `Machine.run_forget`),
* a step of the host (`Engine.perform_forget`) and so a whole history.

The main statement is `Engine.history_cacheMode`: whatever the host does, short of collecting garbage,
it sees the same in every mode.
-/

namespace ScriptEngine

/-! ## Forgetting -/

/-- The world without what sites remember. -/
def World.forget (w : World) : World := { w with caches := {} }

/-- The machine whose sites do not use their caches. -/
def Machine.forget (m : Machine) : Machine :=
  { m with config := { m.config with cacheMode := .disabled } }

/-- The run without what sites remember. -/
def State.forget (s : State) : State := { s with world := s.world.forget }

/-- The outcome without what sites remember. -/
def Outcome.forget (o : Outcome) : Outcome := { o with world := o.world.forget }

/-- The progress without what sites remember. -/
def Progress.forget : Progress → Progress
  | .running s => .running s.forget
  | .finished o => .finished o.forget

/-- The engine whose sites have no caches. -/
def Engine.forget (e : Engine) : Engine := ⟨e.machine.forget, e.world.forget⟩

@[simp] theorem World.forget_heap (w : World) : w.forget.heap = w.heap := rfl

/-- Worlds that differ at most in what sites remember forget to the same world. -/
theorem World.SameData.forget_eq {w w' : World} (h : w.SameData w') : w'.forget = w.forget := by
  obtain ⟨heap, envs, caches, log⟩ := w
  obtain ⟨heap', envs', caches', log'⟩ := w'
  obtain ⟨rfl, rfl, rfl⟩ := h
  rfl

/-- Without caches nothing is remembered, and a lookup through a site leaves no trace. -/
theorem World.memberHolder_disabled (w : World) (id : SiteId) (access : Access) (r : Handle)
    (name : String) : w.memberHolder .disabled id access r name = (w.heap.holder? r name, w) := by
  obtain ⟨heap, envs, caches, log⟩ := w
  simp only [memberHolder, Caches.probe]
  split <;> rename_i hfound <;> rw [hfound] <;> rfl

/-- Without caches a write through a site is a write. -/
theorem World.writeObject_disabled (w : World) (id : SiteId) (r : Handle) (name : String)
    (v : Value) : w.writeObject .disabled id r name v = w.write r name v := by
  obtain ⟨heap, envs, caches, log⟩ := w
  simp only [writeObject, Caches.probe, Option.bind_none, World.write]
  rcases heap.write r name v with ⟨result, heap'⟩
  cases result <;> rfl

/-- Without caches a call through a site asks the function object. -/
theorem World.globalTarget_disabled (w : World) (id : SiteId) (callee : Value) :
    w.globalTarget .disabled id callee = (callee.object?.bind w.heap.callable?, w) := by
  obtain ⟨heap, envs, caches, log⟩ := w
  cases callee with
  | object h =>
    simp only [globalTarget, Caches.probe, Value.object?, Option.bind_some]
    split <;> rename_i hfound <;> rw [hfound] <;> rfl
  | _ => rfl

/-! ## Instructions -/

/-- The site that an instruction goes through, with its position. -/
def Instruction.site? : Instruction → Option (Nat × CallSite)
  | .getMember i site | .setMember i site | .callGlobal i site | .invokeMember i site =>
    some (i, site)
  | _ => none

/-- The site of an instruction that was read is the function's site at that position. -/
theorem Instruction.sites_of_read {p : Pool} {f : CodeFunction} {offset next : Nat} {i : Instruction}
    (hread : Instruction.read p f offset = .ok (some (i, next))) {k : Nat} {site : CallSite}
    (hsite : i.site? = some (k, site)) : f.sites[k]? = some site := by
  -- A site operand is looked up among the function's sites.
  have hoperand : ∀ o r, f.siteOperand o = .ok r → f.sites[r.1]? = some r.2 := by
    intro o r hr
    simp only [CodeFunction.siteOperand, bind, Except.bind] at hr
    split at hr
    · exact absurd hr (by simp)
    · split at hr
      · next found =>
        obtain rfl := Except.ok.inj hr
        exact found
      · cases hr
  rw [read] at hread
  split at hread
  · exact absurd hread (by simp)
  · split at hread
    · exact absurd hread (by simp)
    · next op _ =>
      rcases hop : ofOpcode p f op (offset + 1) with e | i'
      · simp [hop, Except.map] at hread
      · simp only [hop, Except.map, Except.ok.injEq, Option.some.injEq, Prod.mk.injEq] at hread
        obtain ⟨rfl, -⟩ := hread
        cases op <;> simp only [ofOpcode, bind, Except.bind, pure, Except.pure] at hop
        all_goals repeat' split at hop
        all_goals cases hop <;> simp only [site?, reduceCtorEq, Option.some.injEq, Prod.mk.injEq] at hsite
        all_goals
          next hr =>
            obtain ⟨rfl, rfl⟩ := hsite
            exact hoperand _ _ hr

/-- The world with other caches. -/
def World.withCaches (w : World) (cs : Caches) : World := { w with caches := cs }

@[simp] theorem World.withCaches_envs (w : World) (cs : Caches) : (w.withCaches cs).envs = w.envs := rfl

/-- The turn with other caches. -/
def Turn.withCaches (t : Turn) (cs : Caches) : Turn := { t with world := t.world.withCaches cs }

/-- An instruction without a site neither looks at the caches nor changes them. -/
theorem Machine.execute_withCaches (m : Machine) (w : World) (f : Frame) {i : Instruction}
    (hi : i.site? = none) (cs : Caches) :
    m.execute (w.withCaches cs) f i = (m.execute w f i).withCaches cs := by
  cases i with
  | getMember k site | setMember k site | callGlobal k site | invokeMember k site => cases hi
  | push v => rfl
  | pop => simp only [execute, Turn.pop]; split <;> rfl
  | dup => simp only [execute, Turn.dup]; split <;> rfl
  | getLocal slot => simp only [execute, Turn.getLocal]; split <;> rfl
  | setLocal slot =>
    simp only [execute, Turn.setLocal]
    split
    · rfl
    · split <;> rfl
  | getEnv depth slot => simp only [execute, Turn.getEnv, World.withCaches]; split <;> rfl
  | setEnv depth slot =>
    simp only [execute, Turn.setEnv]
    rw [World.withCaches_envs]
    split
    · rfl
    · split
      · rfl
      · next id _ =>
        by_cases hslot : w.envs.hasSlot id slot = true
        · rw [if_pos hslot, if_pos hslot]
          rfl
        · rw [if_neg hslot, if_neg hslot]
          rfl
  | getGlobal name => rfl
  | setGlobal name => simp only [execute, Turn.setGlobal]; split <;> rfl
  | deleteGlobal name => rfl
  | getName name => rfl
  | setName name =>
    simp only [execute, Turn.setName, writeName, World.resolve, World.withCaches]
    split
    · rfl
    · split <;> rfl
  | callName name argc => simp only [execute, Turn.callName]; split <;> rfl
  | deleteName name =>
    simp only [execute, Turn.deleteName, eraseName, World.resolve, World.withCaches]
    split <;> rfl
  | deleteMember name =>
    simp only [execute, Turn.deleteMember]
    split
    · rfl
    · rfl
    · split <;> rfl
  | call argc =>
    simp only [execute, Turn.call, Turn.withArgs]
    split
    · rfl
    · split <;> rfl
  | closure index => simp only [execute, Turn.closure]; split <;> rfl
  | newObject => rfl
  | initProperty name => simp only [execute, Turn.initProperty]; split <;> rfl
  | getThis => rfl
  | getCallee => rfl
  | binary op => simp only [execute, Turn.binary]; split <;> rfl
  | negate => simp only [execute, Turn.unary]; split <;> rfl
  | plus => simp only [execute, Turn.unary]; split <;> rfl
  | not => simp only [execute, Turn.unary]; split <;> rfl
  | typeof => simp only [execute, Turn.unary]; split <;> rfl
  | jump target => rfl
  | jumpIfFalse target => simp only [execute, Turn.jumpIfFalse]; split <;> rfl
  | jumpIfFalseOrPop target => simp only [execute, Turn.jumpOrPop]; split <;> rfl
  | jumpIfTrueOrPop target => simp only [execute, Turn.jumpOrPop]; split <;> rfl
  | enterWith => simp only [execute, Turn.enterWith]; split <;> rfl
  | exitWith =>
    simp only [execute, Turn.exitWith, World.withCaches]
    split
    · rfl
    · split <;> rfl
  | tryBegin target => rfl
  | tryEnd => simp only [execute, Turn.tryEnd]; split <;> rfl
  | throw => simp only [execute, Turn.throwTop]; split <;> rfl
  | ret => simp only [execute, Turn.retTop]; split <;> rfl
  | retUndefined => rfl

/-- An instruction without a site leaves the caches alone. -/
theorem Machine.caches_execute (m : Machine) (w : World) (f : Frame) {i : Instruction} (hi : i.site? = none) :
    (m.execute w f i).world.caches = w.caches :=
  congrArg (·.world.caches) (m.execute_withCaches w f hi w.caches)

/-- It does not ask whether there are caches either. -/
theorem Machine.execute_forget (m : Machine) (w : World) (f : Frame) {i : Instruction} (hi : i.site? = none) :
    m.forget.execute w f i = m.execute w f i := by
  cases i with
  | getMember k site | setMember k site | callGlobal k site | invokeMember k site => cases hi
  | _ => rfl

/-- A turn and the turn of the machine without caches, both from one world: they agree in all but the
caches, the heap has evolved, and the caches are valid. -/
structure Turn.Mirrors (m : Machine) (w : World) (t t' : Turn) : Prop where
  /-- The worlds differ only in the caches. -/
  world : t'.world = t.world.forget
  /-- The frames agree. -/
  frame : t'.frame = t.frame
  /-- It goes on in the same way. -/
  control : t'.control = t.control
  /-- The heap has evolved. -/
  evolves : w.heap.Evolves t.world.heap
  /-- The caches are valid. -/
  hold : t.world.caches.Hold m t.world.heap

namespace Turn

variable {m : Machine} {w : World}

/-- A turn that changes nothing but the frame is mirrored. -/
theorem mirrors_refl (hw : w.caches.Hold m w.heap) (f : Frame) (c : Control) :
    Mirrors m w ⟨w, f, c⟩ ⟨w.forget, f, c⟩ :=
  ⟨rfl, rfl, rfl, Heap.Evolves.refl _, hw⟩

/-- Taking arguments off the stack is mirrored if what is done with them is. -/
theorem withArgs_mirrors (hw : w.caches.Hold m w.heap) (f : Frame) (argc : Nat)
    {k k' : Value → List Value → Frame → Turn}
    (hk : ∀ v args g, g.unit = f.unit → g.index = f.index →
      Mirrors m w (k v args g) (k' v args g)) :
    Mirrors m w (withArgs w f argc k) (withArgs w.forget f argc k') := by
  rcases hv : f.stack[argc]? with _ | v
  · obtain ⟨stack, heq⟩ := withArgs_eq_underflow hv
    rw [heq, heq]
    exact mirrors_refl hw _ _
  · rw [withArgs_eq_of_getElem? hv, withArgs_eq_of_getElem? hv]
    exact hk _ _ _ rfl rfl

end Turn

namespace Machine

variable {m : Machine} {w : World}

/-- **Reading a property through a site** is mirrored. -/
theorem readMember_mirrors (hw : w.caches.Hold m w.heap) {id : SiteId} {site : CallSite}
    (hsite : m.site? id = some site) (access : Access) (receiver : Value) :
    (m.forget.readMember w.forget id access receiver site.name).1 =
        (m.readMember w id access receiver site.name).1 ∧
      (m.forget.readMember w.forget id access receiver site.name).2 = w.forget ∧
      w.SameData (m.readMember w id access receiver site.name).2 ∧
      (m.readMember w id access receiver site.name).2.caches.Hold m w.heap := by
  cases receiver with
  | object h =>
    obtain ⟨hfound, hsame, hold⟩ :=
      World.memberHolder_spec m.config.cacheMode hw hsite access h
    simp only [readMember, forget, World.memberHolder_disabled]
    rcases hlook : w.memberHolder m.config.cacheMode id access h site.name with ⟨holder, w'⟩
    rw [hlook] at hfound hsame hold
    rw [show w.forget.heap.holder? h site.name = holder from hfound.symm]
    cases holder with
    | none => exact ⟨rfl, rfl, hsame, hold⟩
    | some k =>
      have hheap : w'.heap = w.heap := hsame.heap
      refine ⟨?_, rfl, hsame, hold⟩
      show Except.ok (w.heap.readOwn k site.name) = Except.ok (w'.heap.readOwn k site.name)
      rw [hheap]
  | _ => exact ⟨rfl, rfl, ⟨rfl, rfl, rfl⟩, hw.uncacheable hsite⟩

/-- A turn that goes on with what it has read through a site is mirrored. -/
theorem afterReadMember_mirrors (hw : w.caches.Hold m w.heap) {id : SiteId} {site : CallSite}
    (hsite : m.site? id = some site) (access : Access) (receiver : Value) (f : Frame)
    (resume : Resume) :
    Turn.Mirrors m w
      (match m.readMember w id access receiver site.name with
        | (.ok read, w) => ⟨w, f, .afterRead w.heap receiver resume read⟩
        | (.error e, w) => ⟨w, f, .raise e⟩)
      (match m.forget.readMember w.forget id access receiver site.name with
        | (.ok read, w) => ⟨w, f, .afterRead w.heap receiver resume read⟩
        | (.error e, w) => ⟨w, f, .raise e⟩) := by
  obtain ⟨hread, hworld, hdata, hold⟩ := readMember_mirrors hw hsite access receiver
  generalize m.readMember w id access receiver site.name = here at *
  generalize m.forget.readMember w.forget id access receiver site.name = there at *
  obtain ⟨read, w₁⟩ := here
  obtain ⟨read', w₂⟩ := there
  simp only at hread hworld hdata hold
  subst hread hworld
  have hheap : w₁.heap = w.heap := hdata.heap
  have hevolves : w.heap.Evolves w₁.heap := by
    rw [hheap]
    exact Heap.Evolves.refl _
  have hold' : w₁.caches.Hold m w₁.heap := by
    rw [hheap]
    exact hold
  cases read' with
  | ok read =>
    refine ⟨hdata.forget_eq.symm, rfl, ?_, hevolves, hold'⟩
    show Control.afterRead w.heap receiver resume read = Control.afterRead w₁.heap receiver resume read
    rw [hheap]
  | error e => exact ⟨hdata.forget_eq.symm, rfl, rfl, hevolves, hold'⟩

/-- **Writing a property through a site** is mirrored. -/
theorem writeMember_mirrors (hw : w.caches.Hold m w.heap) (hs : w.heap.Sound) {id : SiteId}
    {site : CallSite} (hsite : m.site? id = some site) (receiver v : Value) :
    (m.forget.writeMember w.forget id receiver site.name v).1 =
        (m.writeMember w id receiver site.name v).1 ∧
      (m.forget.writeMember w.forget id receiver site.name v).2 =
        (m.writeMember w id receiver site.name v).2.forget ∧
      w.heap.Evolves (m.writeMember w id receiver site.name v).2.heap ∧
      (m.writeMember w id receiver site.name v).2.caches.Hold m
        (m.writeMember w id receiver site.name v).2.heap := by
  cases receiver with
  | object h =>
    obtain ⟨hresult, hheap, henvs, hlog, hold⟩ :=
      World.writeObject_spec m.config.cacheMode hw hs hsite h v
    simp only [writeMember, forget, World.writeObject_disabled]
    rcases hlook : w.writeObject m.config.cacheMode id h site.name v with ⟨result, w'⟩
    obtain ⟨heap', envs', caches', log'⟩ := w'
    rw [hlook] at hresult hheap henvs hlog hold
    obtain ⟨heap, envs, caches, log⟩ := w
    simp only at hresult hheap henvs hlog hold
    subst hresult hheap henvs hlog
    exact ⟨rfl, rfl, (Heap.Change.write heap h site.name v).evolves, hold⟩
  | undefined => exact ⟨rfl, rfl, Heap.Evolves.refl _, hw⟩
  | null => exact ⟨rfl, rfl, Heap.Evolves.refl _, hw⟩
  | _ => exact ⟨rfl, rfl, Heap.Evolves.refl _, hw.uncacheable hsite⟩

/-- **An instruction is mirrored** by the machine without caches. Only four instructions go through
sites; all others do not look at the caches. -/
theorem execute_mirrors (hw : w.caches.Hold m w.heap) (hs : w.heap.Sound) {f : Frame}
    {i : Instruction}
    (hsite : ∀ k site, i.site? = some (k, site) → m.site? (f.site k) = some site) :
    Turn.Mirrors m w (m.execute w f i) (m.forget.execute w.forget f i) := by
  rcases hi : i.site? with _ | ⟨k, site⟩
  · -- An instruction without a site does the same, and leaves the caches as they were.
    rw [m.execute_forget _ f hi, show w.forget = w.withCaches {} from rfl, m.execute_withCaches w f hi]
    have hevolves := (m.goes_execute w f i).heap.evolves
    refine ⟨rfl, rfl, rfl, hevolves, ?_⟩
    rw [m.caches_execute w f hi]
    exact hw.keeps (hevolves.keeps hs).2
  · cases i with
    | getMember k site =>
      simp only [execute, Turn.getMember]
      split
      · exact Turn.mirrors_refl hw _ _
      · next receiver rest _ =>
        exact afterReadMember_mirrors hw (hsite k site rfl) .load receiver { f with stack := rest } .push
    | setMember k site =>
      simp only [execute, Turn.setMember]
      split
      · next v receiver rest _ =>
        obtain ⟨hresult, hworld, hevolves, hold⟩ :=
          writeMember_mirrors hw hs (hsite k site rfl) receiver v
        simp only [Frame.site] at hresult hworld hevolves hold ⊢
        generalize m.writeMember w ⟨f.unit, f.index, k⟩ receiver site.name v = here at *
        generalize m.forget.writeMember w.forget ⟨f.unit, f.index, k⟩ receiver site.name v = there at *
        obtain ⟨result, w₁⟩ := here
        obtain ⟨result', w₂⟩ := there
        simp only at hresult hworld hevolves hold
        subst hresult hworld
        cases result' <;> exact ⟨rfl, rfl, rfl, hevolves, hold⟩
      · exact Turn.mirrors_refl hw _ _
    | callGlobal k site =>
      simp only [execute, Turn.callGlobal]
      refine Turn.withArgs_mirrors hw f _ fun callee args g hunit hindex => ?_
      have hid : g.site k = f.site k := by rw [Frame.site, Frame.site, hunit, hindex]
      rw [hid]
      obtain ⟨hfound, hdata, hold⟩ :=
        World.globalTarget_spec m.config.cacheMode hw (hsite k site rfl) callee
      simp only [forget, World.globalTarget_disabled, World.forget_heap]
      rcases hlook : w.globalTarget m.config.cacheMode (f.site k) callee with ⟨target, w'⟩
      rw [hlook] at hfound hdata hold
      rw [← hfound]
      have hheap : w'.heap = w.heap := hdata.heap
      have hevolves : w.heap.Evolves w'.heap := by
        rw [hheap]
        exact Heap.Evolves.refl _
      have hold' : w'.caches.Hold m w'.heap := by
        rw [hheap]
        exact hold
      cases target <;> exact ⟨hdata.forget_eq.symm, rfl, rfl, hevolves, hold'⟩
    | invokeMember k site =>
      simp only [execute, Turn.invokeMember]
      refine Turn.withArgs_mirrors hw f _ fun receiver args g hunit hindex => ?_
      have hid : m.site? (g.site k) = some site := by
        rw [Frame.site, hunit, hindex]
        exact hsite k site rfl
      exact afterReadMember_mirrors hw hid .method receiver g (.callWith receiver args site.name)
    | _ => cases hi

/-! ## Steps and runs -/

/-- What the mirror needs of a world: the vacant slots are vacant, and the caches are valid. -/
structure Coherent (m : Machine) (w : World) : Prop where
  /-- The heap is sound. -/
  sound : w.heap.Sound
  /-- The caches are valid. -/
  hold : w.caches.Hold m w.heap

/-- A world stays coherent while its heap evolves and its caches stay. -/
theorem Coherent.evolves (hw : m.Coherent w) {w' : World} (h : w.heap.Evolves w'.heap)
    (hcaches : w'.caches = w.caches) : m.Coherent w' :=
  ⟨(h.keeps hw.sound).1, hcaches ▸ hw.hold.keeps (h.keeps hw.sound).2⟩

end Machine

/-- A host function that keeps to its part: it changes the heap by operations of the heap only, and
never collects. -/
def Native.Orderly (f : Native) : Prop := ∀ c : NativeCall, c.heap.Evolves (f c).heap

/-- Every host function keeps to its part. -/
def Natives.Orderly (ns : Natives) : Prop := ∀ f ∈ ns.table, Native.Orderly f

/-- Running any host function by its number changes the heap by operations of the heap only. -/
theorem Natives.Orderly.run {ns : Natives} (h : ns.Orderly) (id : Nat) (c : NativeCall) :
    c.heap.Evolves (ns.run id c).heap := by
  rw [Natives.run]
  split
  · next f hf => exact h f (Array.mem_of_getElem? hf) c
  · exact Heap.Evolves.refl _

/-- What a handler receives is made by an allocation and two definitions, if it is made at all. -/
theorem Realm.caughtValue_evolves (r : Realm) (heap : Heap) (e : RuntimeError) :
    heap.Evolves (r.caughtValue heap e).2 := by
  have hmade : heap.Evolves (((r.newObject heap).2.define (r.newObject heap).1 "name"
      (.data (.string e.name) .default)).2.define (r.newObject heap).1 "message"
      (.data (.string e.message) .default)).2 :=
    (Heap.Change.allocate _ _).evolves.trans
      ((Heap.Change.define _ _ _ _).evolves.trans (Heap.Change.define _ _ _ _).evolves)
  cases e with
  | thrown v => exact Heap.Evolves.refl _
  | _ => exact hmade

/-- The world that a step leaves. -/
def Progress.world : Progress → World
  | .running s => s.world
  | .finished o => o.world

namespace Machine

variable {m : Machine} {w : World}

/-- The site of a frame's function at a position, if the frame's code is there. -/
theorem site?_of_code {f : Frame} {unit : CodeUnit} {function : CodeFunction}
    (hcode : m.code f.unit f.index = .ok (unit, function)) {k : Nat} {site : CallSite}
    (hsite : function.sites[k]? = some site) : m.site? (f.site k) = some site := by
  rw [code] at hcode
  split at hcode
  · exact absurd hcode (by simp)
  · next u hu =>
    split at hcode
    · exact absurd hcode (by simp)
    · next g hg =>
      obtain ⟨rfl, rfl⟩ := Prod.mk.inj (Except.ok.inj hcode)
      simp [site?, Frame.site, hu, hg, hsite]

/-- **The next instruction of a frame** is mirrored. -/
theorem advance_mirrors (hw : m.Coherent w) (f : Frame) :
    Turn.Mirrors m w (m.advance w f) (m.forget.advance w.forget f) := by
  simp only [advance, show m.forget.code = m.code from rfl]
  rcases hcode : m.code f.unit f.index with e | ⟨unit, function⟩
  · exact Turn.mirrors_refl hw.hold _ _
  · simp only
    rcases hread : Instruction.read unit.pool function f.ip with e | _ | ⟨i, next⟩
    · exact Turn.mirrors_refl hw.hold _ _
    · exact Turn.mirrors_refl hw.hold _ _
    · exact execute_mirrors hw.hold hw.sound fun k site hsite =>
        site?_of_code (f := f.jump next) hcode (Instruction.sites_of_read hread hsite)

/-- **Only instructions** have to do with the caches. Any other step is the same without them, leaves them as they
are, and evolves the heap. -/
theorem step_apart (m : Machine) (s : State) (hs : s.control ≠ .execute) :
    m.forget.step s.forget = (m.step s).forget ∧ (m.step s).world.caches = s.world.caches ∧
      (m.natives.Orderly → s.world.heap.Evolves (m.step s).world.heap) := by
  obtain ⟨⟨heap, envs, caches, log⟩, frames, control, depth⟩ := s
  cases control with
  | enter callee target this args resume =>
    cases target with
    | native f =>
      simp only [step, State.forget, World.forget, enterNative, show m.forget.natives = m.natives from rfl]
      split
      · exact ⟨rfl, rfl, fun hm => hm.run f.id ⟨heap, this, args⟩⟩
      · exact ⟨rfl, rfl, fun hm => hm.run f.id ⟨heap, this, args⟩⟩
    | script c =>
      simp only [step, State.forget, World.forget, enterScript, show m.forget.code = m.code from rfl,
        show m.forget.config.maxDepth = m.config.maxDepth from rfl]
      split
      · exact ⟨rfl, rfl, fun _ => .refl heap⟩
      · split
        · exact ⟨rfl, rfl, fun _ => .refl heap⟩
        · exact ⟨rfl, rfl, fun _ => .refl heap⟩
  | execute => exact absurd rfl hs
  | deliver resume v =>
    cases frames with
    | nil => exact ⟨rfl, rfl, fun _ => .refl heap⟩
    | cons f rest => cases resume <;> exact ⟨rfl, rfl, fun _ => .refl heap⟩
  | ret v => cases frames <;> exact ⟨rfl, rfl, fun _ => .refl heap⟩
  | raise e =>
    cases frames with
    | nil => exact ⟨rfl, rfl, fun _ => .refl heap⟩
    | cons f rest =>
      simp only [step, State.forget, World.forget, unwind]
      split
      · exact ⟨rfl, rfl, fun _ => .refl heap⟩
      · split
        · exact ⟨rfl, rfl, fun _ => m.realm.caughtValue_evolves heap e⟩
        · exact ⟨rfl, rfl, fun _ => .refl heap⟩

/-- **A machine step is mirrored** by the machine without caches, and leaves a coherent world. -/
theorem step_forget (hm : m.natives.Orderly) {s : State} (hs : m.Coherent s.world) :
    m.forget.step s.forget = (m.step s).forget ∧ m.Coherent (m.step s).world := by
  by_cases hexecute : s.control = .execute
  · obtain ⟨w, frames, control, depth⟩ := s
    obtain rfl : control = .execute := hexecute
    cases frames with
    | nil => exact ⟨rfl, hs⟩
    | cons f rest =>
      obtain ⟨hworld, hframe, hcontrol, hevolves, hold⟩ := advance_mirrors hs f
      refine ⟨?_, (hevolves.keeps hs.sound).1, hold⟩
      show Progress.running ⟨(m.forget.advance w.forget f).world, _ :: rest, _, depth⟩ = _
      rw [hworld, hframe, hcontrol]
      rfl
  · obtain ⟨hforget, hcaches, hevolves⟩ := m.step_apart s hexecute
    exact ⟨hforget, hs.evolves (hevolves hm) hcaches⟩

/-- **A run is mirrored**: within any number of steps the machine without caches comes to the same end,
or both come to none. -/
theorem run_forget (hm : m.natives.Orderly) (fuel : Nat) {s : State} (hs : m.Coherent s.world) :
    m.forget.run fuel s.forget = (m.run fuel s).map Outcome.forget ∧
      ∀ o, m.run fuel s = some o → m.Coherent o.world := by
  induction fuel generalizing s with
  | zero => exact ⟨rfl, fun o ho => absurd ho (by simp [run])⟩
  | succ fuel ih =>
    obtain ⟨hstep, hcoherent⟩ := step_forget hm hs
    rw [run, run, hstep]
    rcases hnext : m.step s with s' | o
    · rw [hnext] at hcoherent
      exact ih hcoherent
    · rw [hnext] at hcoherent
      exact ⟨rfl, fun o' ho' => Option.some.inj ho' ▸ hcoherent⟩

end Machine

/-! ## Hosts -/

namespace Engine

/-- An engine on which the caches do not show: its world is coherent, and its host functions keep to
their part. -/
structure Coherent (e : Engine) : Prop where
  /-- The world is coherent. -/
  world : e.machine.Coherent e.world
  /-- The host functions keep to their part. -/
  natives : e.machine.natives.Orderly

/-- Forgetting leaves the heap alone. -/
@[simp] theorem forget_heap (e : Engine) : e.forget.heap = e.heap := rfl

variable {e : Engine}

/-- An engine stays coherent while its heap evolves. -/
theorem Coherent.setHeap (he : e.Coherent) {heap : Heap} (h : e.heap.Evolves heap) :
    (e.setHeap heap).Coherent :=
  ⟨he.world.evolves h rfl, he.natives⟩

/-- A unit that is loaded comes behind the others, so every site stays where it is. -/
theorem site?_load (e : Engine) (u : CodeUnit) {id : SiteId} {site : CallSite}
    (hsite : e.machine.site? id = some site) : (e.load u).2.machine.site? id = some site := by
  obtain ⟨function, hfunction, hat⟩ := Option.bind_eq_some_iff.mp hsite
  obtain ⟨unit, hunit, hin⟩ := Option.bind_eq_some_iff.mp hfunction
  obtain ⟨hlt, -⟩ := Array.getElem?_eq_some_iff.mp hunit
  have hstays : (e.machine.units.push u)[id.unit]? = some unit := by
    rw [Array.getElem?_push, if_neg (Nat.ne_of_lt hlt), hunit]
  simp [Machine.site?, Engine.load, hstays, hin, hat]

/-- An engine stays coherent when a unit is loaded. -/
theorem Coherent.load (he : e.Coherent) (u : CodeUnit) : (e.load u).2.Coherent := by
  refine ⟨⟨he.world.sound, fun id c hc => ?_⟩, he.natives⟩
  obtain ⟨site, hsite, hs⟩ := he.world.hold id c hc
  exact ⟨site, e.site?_load u hsite, hs⟩

end Engine

/-- A heap and host functions on which the caches do not show. -/
structure Host.Orderly (host : Host) : Prop where
  /-- The heap is sound. -/
  sound : host.heap.Sound
  /-- The host functions keep to their part. -/
  natives : host.natives.Orderly

namespace Host

/-- Making a function object evolves the heap. -/
theorem function_evolves (host : Host) (r : Realm) (name : String) (length : Nat) (f : Native) :
    host.heap.Evolves (host.function r name length f).2.heap :=
  r.newFunction_evolves _ _ _ _

/-- Making a method evolves the heap. -/
theorem method_evolves (host : Host) (r : Realm) (target : Handle) (name : String) (length : Nat)
    (f : Native) : host.heap.Evolves (host.method r target name length f).2.heap :=
  (host.function_evolves r name length f).trans (Heap.Change.define _ _ _ _).evolves

variable {host : Host}

/-- A host with neither objects nor functions is orderly. -/
theorem orderly_empty : ({} : Host).Orderly :=
  ⟨Heap.sound_empty, fun f hf => absurd hf (Array.not_mem_empty f)⟩

/-- A host stays orderly while its heap evolves. -/
theorem Orderly.evolves (ho : host.Orderly) {heap : Heap} (hevolves : host.heap.Evolves heap) :
    ({ host with heap } : Host).Orderly :=
  ⟨(hevolves.keeps ho.sound).1, ho.natives⟩

/-- A host stays orderly when an object is made. -/
theorem Orderly.allocate (ho : host.Orderly) (prototype : Option Handle) :
    (host.allocate prototype).2.Orderly :=
  ho.evolves (Heap.Change.allocate _ _).evolves

/-- A host stays orderly when a function that keeps to its part joins. -/
theorem Orderly.function (ho : host.Orderly) (r : Realm) (name : String) (length : Nat) {f : Native}
    (hf : f.Orderly) : (host.function r name length f).2.Orderly := by
  refine ⟨((host.function_evolves r name length f).keeps ho.sound).1, fun g hg => ?_⟩
  rcases Array.mem_push.mp hg with hold | rfl
  · exact ho.natives g hold
  · exact hf

/-- A host stays orderly when a method that keeps to its part joins. -/
theorem Orderly.method (ho : host.Orderly) (r : Realm) (target : Handle) (name : String)
    (length : Nat) {f : Native} (hf : f.Orderly) :
    (host.method r target name length f).2.Orderly :=
  (ho.function r name length hf).evolves (Heap.Change.define _ _ _ _).evolves

end Host

/-- A host function that keeps to its part may join an engine. -/
theorem Engine.Coherent.modifyHost {e : Engine} (he : e.Coherent) {f : Host → Handle × Host}
    (hheap : e.heap.Evolves (f ⟨e.heap, e.machine.natives⟩).2.heap)
    (hf : (f ⟨e.heap, e.machine.natives⟩).2.Orderly) : (e.modifyHost f).2.Coherent :=
  ⟨⟨hf.sound, he.world.hold.keeps (hheap.keeps he.world.sound).2⟩, hf.natives⟩

/-- Declaring globals evolves the heap. -/
theorem Engine.declareGlobals_evolves (r : Realm) (names : Array String) (heap : Heap) :
    heap.Evolves (names.foldl (Engine.declareGlobal r) heap) := by
  refine Array.foldl_induction (motive := fun _ h => heap.Evolves h) (Heap.Evolves.refl _)
    fun i h hh => hh.trans ?_
  rw [Engine.declareGlobal]
  split
  · exact Heap.Evolves.refl _
  · exact (Heap.Change.define _ _ _ _).evolves

/-- The steps of a host that a cache may not show in: all but the collection of garbage, with host
functions that keep to their part. -/
def HostStep.Orderly : HostStep → Prop
  | .registerNative _ _ f | .nativeFunction _ _ f => f.Orderly
  | .collect _ => False
  | _ => True

namespace Engine

variable {e : Engine}

/-- **A run from a first step** is mirrored by the engine without caches, and leaves a coherent
engine. -/
theorem start_forget (he : e.Coherent) (fuel : Nat) (control : Control) :
    e.forget.start fuel control = (e.start fuel control).map (fun (r, e) => (r, e.forget)) ∧
      ∀ r e', e.start fuel control = some (r, e') → e'.Coherent := by
  obtain ⟨m, w⟩ := e
  obtain ⟨hrun, hcoherent⟩ := Machine.run_forget he.natives fuel (s := { world := w, control }) he.world
  have hstate : ({ world := w.forget, control } : State) = State.forget { world := w, control } := rfl
  simp only [start, forget]
  rw [hstate, hrun]
  rcases hend : m.run fuel { world := w, control } with _ | o
  · exact ⟨rfl, fun r e' h => absurd h (by simp)⟩
  · refine ⟨rfl, fun r e' h => ?_⟩
    obtain ⟨-, rfl⟩ := Prod.mk.inj (Option.some.inj h)
    exact ⟨hcoherent o hend, he.natives⟩

/-- **A call** is mirrored. -/
theorem call_forget (he : e.Coherent) (fuel : Nat) (callee this : Value) (args : List Value) :
    e.forget.call fuel callee this args =
        (e.call fuel callee this args).map (fun (r, e) => (r, e.forget)) ∧
      ∀ r e', e.call fuel callee this args = some (r, e') → e'.Coherent :=
  start_forget he fuel _

/-- **A run of a unit** is mirrored, declarations included. -/
theorem run_forget (he : e.Coherent) (fuel unit : Nat) :
    e.forget.run fuel unit = (e.run fuel unit).map (fun (r, e) => (r, e.forget)) ∧
      ∀ r e', e.run fuel unit = some (r, e') → e'.Coherent := by
  rw [run, run, show e.forget.machine.units = e.machine.units from rfl]
  rcases e.machine.units[unit]? with _ | u
  · refine ⟨rfl, fun r e' h => ?_⟩
    obtain ⟨-, rfl⟩ := Prod.mk.inj (Option.some.inj h)
    exact he
  · exact start_forget (he.setHeap (declareGlobals_evolves _ _ _)) fuel _

/-- Compilation does not touch the caches. -/
theorem compile_forget (e : Engine) (p : Program) :
    e.forget.compile p = ((e.compile p).1, (e.compile p).2.forget) := by
  simp only [compile]
  split <;> rfl

/-- An engine stays coherent when a program is compiled. -/
theorem Coherent.compile (he : e.Coherent) (p : Program) : (e.compile p).2.Coherent := by
  simp only [Engine.compile]
  split
  · exact he
  · exact he.load _

/-- **Evaluating a program** is mirrored. -/
theorem eval_forget (he : e.Coherent) (fuel : Nat) (p : Program) :
    e.forget.eval fuel p = (e.eval fuel p).map (fun (r, e) => (r, e.forget)) ∧
      ∀ r e', e.eval fuel p = some (r, e') → e'.Coherent := by
  have hc := he.compile p
  simp only [eval, compile_forget]
  rcases hp : e.compile p with ⟨_ | unit, e₁⟩
  · refine ⟨rfl, fun r e' h => ?_⟩
    obtain ⟨-, rfl⟩ := Prod.mk.inj (Option.some.inj h)
    rw [hp] at hc
    exact hc
  · rw [hp] at hc
    obtain ⟨hrun, hcoherent⟩ := run_forget hc fuel unit
    simp only [hrun]
    rcases hend : e₁.run fuel unit with _ | ⟨r, e₂⟩
    · exact ⟨rfl, fun r e' h => absurd h (by simp)⟩
    · refine ⟨rfl, fun r' e' h => ?_⟩
      obtain ⟨-, rfl⟩ := Prod.mk.inj (Option.some.inj h)
      exact hcoherent r e₂ hend

/-- **Reading a global** is mirrored, whether it has a getter or not. -/
theorem global_forget (he : e.Coherent) (fuel : Nat) (name : String) :
    e.forget.global fuel name = (e.global fuel name).map (fun (r, e) => (r, e.forget)) ∧
      ∀ r e', e.global fuel name = some (r, e') → e'.Coherent := by
  rw [global, global, show e.forget.heap.read e.forget.realm.global name =
    e.heap.read e.realm.global name from rfl]
  rcases e.heap.read e.realm.global name with v | h
  · refine ⟨rfl, fun r e' h => ?_⟩
    obtain ⟨-, rfl⟩ := Prod.mk.inj (Option.some.inj h)
    exact he
  · exact call_forget he fuel _ _ _

/-- Wrapping the answer of a mirrored run leaves it mirrored. -/
theorem map_forget {α : Type} {here there : Option (α × Engine)} (wrap : α → HostAnswer)
    (h : there = here.map (fun (r, e) => (r, e.forget)) ∧ ∀ r e', here = some (r, e') → e'.Coherent) :
    there.map (fun (r, e) => (wrap r, e)) =
        (here.map fun (r, e) => (wrap r, e)).map (fun (a, e) => (a, e.forget)) ∧
      ∀ a e', (here.map fun (r, e) => (wrap r, e)) = some (a, e') → e'.Coherent := by
  obtain ⟨rfl, hcoherent⟩ := h
  rcases here with _ | ⟨r, e⟩
  · exact ⟨rfl, fun a e' h => absurd h (by simp)⟩
  · refine ⟨rfl, fun a e' h => ?_⟩
    obtain ⟨-, rfl⟩ := Prod.mk.inj (Option.some.inj h)
    exact hcoherent r e rfl

/-- **A step of the host is mirrored** by the engine without caches, and leaves a coherent engine. -/
theorem perform_forget (he : e.Coherent) {step : HostStep} (hstep : step.Orderly) :
    e.forget.perform step = (e.perform step).map (fun (a, e) => (a, e.forget)) ∧
      ∀ a e', e.perform step = some (a, e') → e'.Coherent := by
  -- Steps that run no code give one answer and leave one engine.
  have hdone : ∀ {answer : HostAnswer} {next : Engine}, next.Coherent → ∀ a e',
      some (answer, next) = some (a, e') → e'.Coherent := by
    intro answer next hnext a e' h
    obtain ⟨-, rfl⟩ := Prod.mk.inj (Option.some.inj h)
    exact hnext
  have hchange : ∀ {heap : Heap}, Heap.Change e.heap heap → (e.setHeap heap).Coherent :=
    fun h => he.setHeap h.evolves
  have hhost : Host.Orderly ⟨e.heap, e.machine.natives⟩ := ⟨he.world.sound, he.natives⟩
  cases step with
  | compile p =>
    refine ⟨?_, hdone (he.compile p)⟩
    simp only [perform, compile_forget, Option.map_some]
  | load u => exact ⟨rfl, hdone (he.load u)⟩
  | run fuel unit => exact map_forget .result (run_forget he fuel unit)
  | eval fuel p => exact map_forget .evaluated (eval_forget he fuel p)
  | call fuel callee this args => exact map_forget .result (call_forget he fuel callee this args)
  | readGlobal fuel name => exact map_forget .result (global_forget he fuel name)
  | setGlobal name v => exact ⟨rfl, hdone (hchange (.define _ _ _ _))⟩
  | registerNative name length f =>
    refine ⟨rfl, hdone (?_ : (e.registerNative name length f).2.Coherent)⟩
    exact he.modifyHost (f := (·.method e.realm e.realm.global name length f))
      (Host.method_evolves ⟨e.heap, _⟩ _ _ _ _ _) (hhost.method _ _ _ _ hstep)
  | nativeFunction name length f =>
    refine ⟨rfl, hdone (?_ : (e.nativeFunction name length f).2.Coherent)⟩
    exact he.modifyHost (f := (·.function e.realm name length f))
      (Host.function_evolves ⟨e.heap, _⟩ _ _ _ _) (hhost.function _ _ _ hstep)
  | allocate o => exact ⟨rfl, hdone (hchange (.allocate _ _))⟩
  | define h name p => exact ⟨rfl, hdone (hchange (.define _ _ _ _))⟩
  | write h name v => exact ⟨rfl, hdone (hchange (.write _ _ _ _))⟩
  | overwrite h name v =>
    simp only [perform, forget_heap]
    rcases hover : e.heap.overwrite? h name v with _ | heap
    · exact ⟨rfl, hdone he⟩
    · exact ⟨rfl, hdone (hchange (.overwrite hover))⟩
  | delete h name => exact ⟨rfl, hdone (hchange (.delete _ _ _))⟩
  | collect keep => exact hstep.elim
  | resetCaches =>
    exact ⟨rfl, hdone ⟨⟨he.world.sound, Caches.hold_empty _ _⟩, he.natives⟩⟩

/-- **A history is mirrored** by the engine without caches. -/
theorem history_forget (he : e.Coherent) {steps : List HostStep}
    (hsteps : ∀ step ∈ steps, step.Orderly) : e.forget.history steps = e.history steps := by
  induction steps generalizing e with
  | nil => rfl
  | cons step rest ih =>
    obtain ⟨hperform, hcoherent⟩ := perform_forget he (hsteps step List.mem_cons_self)
    simp only [history, hperform]
    rcases hnext : e.perform step with _ | ⟨answer, e'⟩
    · rfl
    · have hrest := ih (hcoherent answer e' hnext) fun s hs => hsteps s (List.mem_cons_of_mem _ hs)
      simp only [Option.map_some, hrest]
      rfl

end Engine

/-! ## New engines -/

namespace Builtin

/-- The built-in functions change the heap by allocations only. -/
theorem orderly_create : Native.Orderly create := by
  intro c
  simp only [create]
  split
  · exact (Heap.Change.allocate _ _).evolves
  · exact (Heap.Change.allocate _ _).evolves
  · exact Heap.Evolves.refl _

/-- Looking at the receiver's properties leaves the heap alone. -/
theorem orderly_hasOwnProperty : Native.Orderly hasOwnProperty := by
  intro c
  simp only [hasOwnProperty]
  split <;> exact Heap.Evolves.refl _

/-- Looking at a prototype leaves the heap alone. -/
theorem orderly_getPrototypeOf : Native.Orderly getPrototypeOf := by
  intro c
  simp only [getPrototypeOf]
  split
  · split <;> exact Heap.Evolves.refl _
  · exact Heap.Evolves.refl _

end Builtin

/-- The host of a new realm is orderly: its objects are made one after the other, and its functions
keep to their part. -/
theorem Realm.orderly_create : Realm.create.2.Orderly := by
  rw [Realm.create]
  dsimp only
  refine Host.Orderly.method ?_ _ _ _ _ fun c => Heap.Evolves.refl _
  refine Host.Orderly.evolves ?_ (Heap.Change.define _ _ _ _).evolves
  refine Host.Orderly.method ?_ _ _ _ _ Builtin.orderly_getPrototypeOf
  refine Host.Orderly.method ?_ _ _ _ _ Builtin.orderly_create
  refine Host.Orderly.allocate ?_ _
  refine Host.Orderly.method ?_ _ _ _ _ Builtin.orderly_hasOwnProperty
  refine Host.Orderly.method ?_ _ _ _ _ fun c => Heap.Evolves.refl _
  exact ((Host.orderly_empty.allocate _).allocate _).allocate _

namespace Engine

/-- **A new engine** is coherent in every mode. -/
theorem coherent_create (config : Config) : (create config).Coherent :=
  ⟨⟨Realm.orderly_create.sound, Caches.hold_empty _ _⟩, Realm.orderly_create.natives⟩

/-- **Caches are transparent.** Two new engines that differ only in how their sites use caches show a
host the same, step by step: the same answers, the same objects under the same handles, the same epoch
and the same log. This holds for all that a host can do, short of collecting garbage, with host
functions that change the heap by its operations only. -/
theorem history_cacheMode (maxDepth : Nat) (mode₁ mode₂ : CacheMode) (steps : List HostStep)
    (hsteps : ∀ step ∈ steps, step.Orderly) :
    (create ⟨maxDepth, mode₁⟩).history steps = (create ⟨maxDepth, mode₂⟩).history steps := by
  rw [← history_forget (coherent_create ⟨maxDepth, mode₁⟩) hsteps,
    ← history_forget (coherent_create ⟨maxDepth, mode₂⟩) hsteps]
  rfl

/-- A host that lets one site meet two objects: a script reads a property through the site, gets an
object from a host function, reads that one too, and reads again after the first property is gone. -/
def sharedSite : List HostStep :=
  let name (x : String) : Node := .identifier .none (.reference x)
  let read (x : String) : Node := .call .none (name "read") [name x]
  let declaration : Node := .function .none (some (.definition "read")) [.definition "o"]
    [.ret .none (some (.member .none (name "o") "v"))] true none
  let object : Node := .object .none [("v", .literal .none (.bool true))]
  [ .registerNative "make" 1 Native.make,
    .eval 500 ⟨[declaration, .assign .none (name "a") object, read "a", read "a"], none, false⟩,
    .resetCaches,
    .eval 500 ⟨[.assign .none (name "b") (.call .none (name "make") [name "a"]), read "b", read "a",
      .delete .none (.member .none (name "a") "v"), read "a"], none, false⟩ ]

/-- The two ways of reading through the shared site, with caches and without, agree. -/
theorem history_cacheMode_sharedSite : (∀ step ∈ sharedSite, step.Orderly) ∧
    (create ⟨200, .enabled⟩).history sharedSite = (create ⟨200, .disabled⟩).history sharedSite := by
  have hmake : Native.Orderly Native.make := fun c =>
    (Heap.Change.allocate _ _).evolves.trans (Heap.Change.write _ _ _ _).evolves
  have hsteps : ∀ step ∈ sharedSite, step.Orderly := by
    simp [sharedSite, HostStep.Orderly, hmake]
  exact ⟨hsteps, history_cacheMode 200 .enabled .disabled sharedSite hsteps⟩

end Engine

end ScriptEngine
