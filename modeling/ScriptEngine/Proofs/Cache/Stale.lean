import ScriptEngine.Proofs.Cache.Recall
import ScriptEngine.Proofs.Heap.Collection
import ScriptEngine.Proofs.Machine.WellFormed

/-!
# Handles whose object was freed

A host may keep a handle after its object was freed, and may hand it to scripts. Whoever uses it then
gets what a missing object gives: a call is an error, a property that is read is `undefined`, and nothing
is written or removed. The main statement is `Engine.freed_missing`, for all that can happen after the
collection, in every mode of the caches; it leaves out the calls that stray (`Instruction.Strays`), for
which the site's memory of the function object stands in for the object.

* For the heap, nothing but the generation of the slot counts (`Heap.Ages.missing`).
* An instruction on a missing object is followed without caches (`Machine.execute_missing`), and what it
  does there it does in every mode (`Machine.settles_missing`).
* Steps of the host, collections among them, keep what this rests on (`Engine.Steady.perform`).
-/

namespace ScriptEngine

/-! ## Instructions on a missing object -/

/-- The value whose property an instruction reads, writes, removes or calls, or that it calls itself. -/
def Instruction.subject? (f : Frame) : Instruction → Option Value
  | .getMember .. | .deleteMember _ => f.stack[0]?
  | .setMember .. => f.stack[1]?
  | .invokeMember _ site | .callGlobal _ site => f.stack[site.argc.toNat]?
  | .call argc => f.stack[argc]?
  | _ => none

/-- What an instruction gives if its subject is a missing object. A property that is read is
`undefined`, one that is removed is gone, and an assignment has its value although nothing is written;
neither the object nor a property of it can be called. -/
def Instruction.onMissing (f : Frame) : Instruction → Except RuntimeError Value
  | .deleteMember _ => .ok (.bool true)
  | .setMember .. => .ok (f.stack.headD .undefined)
  | .invokeMember _ site | .callGlobal _ site => .error (.notCallable site.name)
  | .call _ => .error (.notCallable "expression")
  | _ => .ok .undefined

/-- The state in which a frame has been given a value, or in which an error is raised. -/
def State.answered (w : World) (f : Frame) (rest : List Frame) (depth : Nat) :
    Except RuntimeError Value → State
  | .ok v => ⟨w, f.push v :: rest, .execute, depth⟩
  | .error e => ⟨w, f :: rest, .raise e, depth⟩

/-- The frame without the operands of an instruction. -/
def Frame.below (f : Frame) (i : Instruction) : Frame := { f with stack := f.stack.drop i.operands }

/-- The turn of an instruction whose subject is a missing object. A method is looked for before it is
called, and turns out to be `undefined`. -/
def Turn.missing (w : World) (f : Frame) (i : Instruction) : Turn :=
  match i with
  | .deleteMember _ => .push w (f.below i) (.bool true)
  | .setMember .. =>
    ⟨w, f.below i, .deliver (.pushInstead (f.stack.headD .undefined)) .undefined⟩
  | .invokeMember _ site =>
    let this := f.stack[site.argc.toNat]?.getD .undefined
    let args := (f.stack.take site.argc.toNat).reverse
    ⟨w, f.below i, .deliver (.callWith this args site.name) .undefined⟩
  | .callGlobal _ site => ⟨w, f.below i, .raise (.notCallable site.name)⟩
  | .call _ => ⟨w, f.below i, .raise (.notCallable "expression")⟩
  | _ => ⟨w, f.below i, .deliver .push .undefined⟩

/-- Worlds that forget to the same world differ at most in what sites remember. -/
theorem World.sameData_of_forget_eq {w w' : World} (h : w'.forget = w.forget) : w.SameData w' :=
  have hheap : w'.forget.heap = w.forget.heap := by rw [h]
  have henvs : w'.forget.envs = w.forget.envs := by rw [h]
  have hlog : w'.forget.log = w.forget.log := by rw [h]
  ⟨hheap, henvs, hlog⟩

/-- The turn leaves the world alone, and all else of it does not depend on the world. -/
theorem Turn.missing_eq (w w' : World) (f : Frame) (i : Instruction) :
    Turn.missing w f i = ⟨w, (Turn.missing w' f i).frame, (Turn.missing w' f i).control⟩ := by
  cases i <;> rfl

/-- Where a frame stands does not enter into the answer. -/
theorem Instruction.onMissing_jump (f : Frame) (i : Instruction) (next : Nat) :
    i.onMissing (f.jump next) = i.onMissing f := by
  cases i <;> rfl

namespace Machine

variable {m : Machine} {w : World} {f : Frame} {i : Instruction} {h : Handle}

/-- **Without caches**, an instruction on a missing object changes nothing but the stack. -/
theorem execute_missing (hmode : m.config.cacheMode = .disabled) (hmissing : w.heap.get? h = none)
    (hsubject : i.subject? f = some (.object h)) : m.execute w f i = .missing w f i := by
  cases i with
  | getMember k site =>
    obtain ⟨rest, hstack⟩ : ∃ rest, f.stack = .object h :: rest := by
      simpa [Instruction.subject?, ← List.head?_eq_getElem?, List.head?_eq_some_iff] using hsubject
    simp only [execute, Turn.getMember, hstack, readMember, hmode, World.memberHolder_disabled,
      Heap.holder?_of_missing hmissing]
    simp [Turn.missing, Frame.below, Instruction.operands, hstack, Control.afterRead]
  | deleteMember name =>
    obtain ⟨rest, hstack⟩ : ∃ rest, f.stack = .object h :: rest := by
      simpa [Instruction.subject?, ← List.head?_eq_getElem?, List.head?_eq_some_iff] using hsubject
    simp [execute, Turn.deleteMember, hstack, World.delete, Heap.delete_of_missing hmissing,
      Turn.missing, Turn.push, Frame.push, Frame.below, Instruction.operands]
  | setMember k site =>
    obtain ⟨v, rest, hstack⟩ : ∃ v rest, f.stack = v :: .object h :: rest := by
      rcases hs : f.stack with _ | ⟨v, _ | ⟨r, rest⟩⟩ <;>
        simp [Instruction.subject?, hs] at hsubject ⊢
      exact hsubject
    simp only [execute, Turn.setMember, hstack, writeMember, hmode, World.writeObject_disabled,
      World.write, Heap.write_of_missing hmissing]
    simp [Turn.missing, Frame.below, Instruction.operands, hstack, Control.afterWrite]
  | invokeMember k site =>
    simp only [execute, Turn.invokeMember, Turn.withArgs_eq_of_getElem? hsubject, readMember, hmode,
      World.memberHolder_disabled, Heap.holder?_of_missing hmissing]
    have hthis : f.stack[site.argc.toNat]? = some (.object h) := hsubject
    simp [Turn.missing, Frame.below, Instruction.operands, Control.afterRead, hthis]
  | callGlobal k site =>
    simp only [execute, Turn.callGlobal, Turn.withArgs_eq_of_getElem? hsubject, hmode,
      World.globalTarget_disabled, Value.object?, Option.bind_some,
      Heap.callable?_of_missing hmissing]
    rfl
  | call argc =>
    simp only [execute, Turn.call, Turn.withArgs_eq_of_getElem? hsubject, Control.call, Value.object?,
      Option.bind_some, Heap.callable?_of_missing hmissing]
    rfl
  | _ => cases hsubject

/-- Where the next instruction of a frame has been read, it is executed. -/
theorem advance_of_read? {next : Nat} (hread : m.read? f = some (i, next)) :
    m.advance w f = m.execute w (f.jump next) i := by
  obtain ⟨unit, function, hcode, hinstr⟩ := read?_eq_some_iff.mp hread
  exact advance_of_read hcode hinstr

/-- After the turn of an instruction on a missing object it takes at most one more step until its
answer is there. -/
theorem after_missing (m : Machine) (w : World) (f : Frame) (rest : List Frame) (depth : Nat)
    (i : Instruction) :
    ∃ n, m.after n ⟨w, (Turn.missing w f i).frame :: rest, (Turn.missing w f i).control, depth⟩ =
      .answered w (f.below i) rest depth (i.onMissing f) := by
  cases i with
  | deleteMember name => exact ⟨0, rfl⟩
  | callGlobal k site => exact ⟨0, rfl⟩
  | call argc => exact ⟨0, rfl⟩
  | _ => exact ⟨1, rfl⟩

/-- **An instruction on a missing object** answers as it must in every mode, and changes nothing but
what is remembered, unless it is a call that strays. -/
theorem settles_missing (hw : m.Steady w) {next : Nat} (rest : List Frame) (depth : Nat)
    (hread : m.read? f = some (i, next)) (hsubject : i.subject? f = some (.object h))
    (hmissing : w.heap.get? h = none) (hstray : ¬ i.Strays m w f) :
    ∃ n w', w.SameData w' ∧
      m.after n ⟨w, f :: rest, .execute, depth⟩ =
        .answered w' ((f.jump next).below i) rest depth (i.onMissing f) := by
  obtain ⟨-, -, hagrees⟩ := advance_steady hw f rest depth
  obtain ⟨hworld, hframe, hcontrol⟩ := hagrees <| by
    rintro ⟨-, f', rest', i', next', hframes, hread', hi⟩
    obtain ⟨rfl, rfl⟩ := List.cons.inj hframes
    obtain ⟨rfl, rfl⟩ := Prod.mk.inj (Option.some.inj (hread.symm.trans hread'))
    exact hstray hi
  have hthere : m.forget.advance w.forget f = .missing w.forget (f.jump next) i := by
    rw [advance_of_read? (show m.forget.read? f = some (i, next) from hread)]
    refine execute_missing rfl hmissing ?_
    cases i <;> exact hsubject
  rw [hthere, Turn.missing_eq w.forget (m.advance w f).world] at hworld hframe hcontrol
  obtain ⟨n, hn⟩ := m.after_missing (m.advance w f).world (f.jump next) rest depth i
  refine ⟨n + 1, (m.advance w f).world, ?_, ?_⟩
  · exact World.sameData_of_forget_eq hworld.symm
  · rw [hframe, hcontrol, i.onMissing_jump] at hn
    exact hn

end Machine

/-! ## Hosts -/

/-- The steps of a host whose host functions keep to their part. -/
def HostStep.Tidy : HostStep → Prop
  | .registerNative _ _ f | .nativeFunction _ _ f => f.Orderly
  | _ => True

/-- How many collections a step makes. -/
def HostStep.collections : HostStep → Nat
  | .collect _ => 1
  | _ => 0

namespace Engine

/-- An engine whose world stays steady: its host functions keep to their part. -/
structure Steady (e : Engine) : Prop where
  /-- The world is steady. -/
  world : e.machine.Steady e.world
  /-- The host functions keep to their part. -/
  natives : e.machine.natives.Orderly

/-- One engine after another, with at most a number of collections in between. -/
structure Follows (n : Nat) (e e' : Engine) : Prop where
  /-- The later engine is steady. -/
  steady : e'.Steady
  /-- Slots have moved on by at most so many generations. -/
  ages : e.heap.Ages n e'.heap

variable {e e' : Engine}

/-- A new engine is steady in every mode. -/
theorem steady_create (config : Config) : (create config).Steady :=
  ⟨⟨Realm.orderly_create.sound, (Caches.hold_empty _ _).recalls⟩, Realm.orderly_create.natives⟩

/-- The heap evolves. -/
theorem Steady.setHeap (he : e.Steady) {heap : Heap} (h : e.heap.Evolves heap) :
    e.Follows 0 (e.setHeap heap) :=
  ⟨⟨he.world.evolves h rfl, he.natives⟩, .evolves h⟩

/-- A unit is loaded. -/
theorem Steady.load (he : e.Steady) (u : CodeUnit) : e.Follows 0 (e.load u).2 := by
  refine ⟨⟨⟨he.world.sound, fun id s hs => ?_⟩, he.natives⟩, .refl _⟩
  obtain ⟨site, hsite, hrecalls⟩ := he.world.recalls id s hs
  exact ⟨site, e.site?_load u hsite, hrecalls⟩

/-- A program is compiled. -/
theorem Steady.compile (he : e.Steady) (p : Program) : e.Follows 0 (e.compile p).2 := by
  simp only [Engine.compile]
  split
  · exact ⟨he, .refl _⟩
  · exact he.load _

/-- A host function joins. -/
theorem Steady.modifyHost (he : e.Steady) {f : Host → Handle × Host}
    (hheap : e.heap.Evolves (f ⟨e.heap, e.machine.natives⟩).2.heap)
    (hf : (f ⟨e.heap, e.machine.natives⟩).2.Orderly) : e.Follows 0 (e.modifyHost f).2 :=
  have hworld : e.machine.Steady (e.modifyHost f).2.world := he.world.evolves hheap rfl
  ⟨⟨⟨hf.sound, hworld.recalls⟩, hf.natives⟩, .evolves hheap⟩

/-- **Garbage is collected.** Every guard on a property closes, if there was any garbage. -/
theorem Steady.collect (he : e.Steady) (keep : List Value) : e.Follows 1 (e.collect keep).2 := by
  refine ⟨⟨⟨he.world.sound.collect _ _, ?_⟩, he.natives⟩, .collect _ _ _⟩
  obtain hsame | hlt := e.heap.collect_eq_or_epoch_lt e.world.envs
    ([e.realm.global, e.realm.objectPrototype, e.realm.functionPrototype] ++
      keep.filterMap Value.object?)
  · show e.world.caches.Recall e.machine (e.heap.collect _ _).2
    rw [hsame]
    exact he.world.recalls
  · exact he.world.recalls.mono fun _ _ hs => hs.epoch_lt hlt

/-- A run ends. -/
theorem Steady.start (he : e.Steady) {fuel : Nat} {control : Control} {r : Except RuntimeError Value}
    (hend : e.start fuel control = some (r, e')) : e.Follows 0 e' := by
  obtain ⟨m, w⟩ := e
  obtain ⟨o, hrun, ho⟩ := Option.map_eq_some_iff.mp hend
  obtain ⟨-, rfl⟩ := Prod.mk.inj ho
  obtain ⟨hevolves, hsteady⟩ := Machine.run_steady he.natives he.world hrun
  exact ⟨⟨hsteady, he.natives⟩, .evolves hevolves⟩

/-- A unit has run, after its declarations. -/
theorem Steady.run (he : e.Steady) {fuel unit : Nat} {r : Except RuntimeError Value}
    (hend : e.run fuel unit = some (r, e')) : e.Follows 0 e' := by
  rw [Engine.run] at hend
  split at hend
  · obtain ⟨-, rfl⟩ := Prod.mk.inj (Option.some.inj hend)
    exact ⟨he, .refl _⟩
  · next u _ =>
    have hdeclared := he.setHeap (declareGlobals_evolves e.realm u.globals e.heap)
    have hrun := hdeclared.steady.start hend
    exact ⟨hrun.steady, hdeclared.ages.trans hrun.ages⟩

/-- **A step of the host** leaves a steady engine, and moves no slot on by more than one generation for
each collection. -/
theorem Steady.perform (he : e.Steady) {step : HostStep} (hstep : step.Tidy) {a : HostAnswer}
    (hp : e.perform step = some (a, e')) : e.Follows step.collections e' := by
  have hhost : Host.Orderly ⟨e.heap, e.machine.natives⟩ := ⟨he.world.sound, he.natives⟩
  cases performs hp with
  | compile p => exact he.compile p
  | load u => exact he.load u
  | run h => exact he.run h
  | @refused _ p _ _ hcompile =>
    have hc := he.compile p
    rwa [hcompile] at hc
  | @eval _ _ p _ _ _ hcompile h =>
    have hc := he.compile p
    rw [hcompile] at hc
    have hr := hc.steady.run h
    exact ⟨hr.steady, hc.ages.trans hr.ages⟩
  | call h => exact he.start h
  | readValue => exact ⟨he, .refl _⟩
  | readGetter _ h => exact he.start h
  | setGlobal | allocate | define | write | overwrite | delete =>
    exact he.setHeap (e.heap.evolves_perform rfl rfl)
  | registerNative name length f =>
    exact he.modifyHost (f := (·.method e.realm e.realm.global name length f))
      (Host.method_evolves ⟨e.heap, _⟩ _ _ _ _ _) (hhost.method _ _ _ _ hstep)
  | nativeFunction name length f =>
    exact he.modifyHost (f := (·.function e.realm name length f))
      (Host.function_evolves ⟨e.heap, _⟩ _ _ _ _) (hhost.function _ _ _ hstep)
  | collect keep => exact he.collect keep
  | resetCaches => exact ⟨⟨⟨he.world.sound, (Caches.hold_empty _ _).recalls⟩, he.natives⟩, .refl _⟩

/-- What a host can make of an engine, step by step, with so many collections. -/
inductive Leads (e : Engine) : Nat → Engine → Prop where
  /-- The engine itself. -/
  | refl : Leads e 0 e
  /-- One step further. -/
  | perform {n : Nat} {e₁ e₂ : Engine} {step : HostStep} {a : HostAnswer} (h : Leads e n e₁)
    (hstep : step.Tidy) (hp : e₁.perform step = some (a, e₂)) : Leads e (n + step.collections) e₂

/-- **A history** leaves a steady engine. -/
theorem Leads.follows {n : Nat} (h : e.Leads n e') (he : e.Steady) : e.Follows n e' := by
  induction h with
  | refl => exact ⟨he, .refl _⟩
  | perform _ hstep hp ih =>
    have hnext := ih.steady.perform hstep hp
    exact ⟨hnext.steady, ih.ages.trans hnext.ages⟩

/-- What a host is told when it uses a handle without an object itself. Nothing changes. -/
structure Lacks (e : Engine) (h : Handle) : Prop where
  /-- It cannot be called. -/
  call : ∀ fuel this args, e.perform (.call (fuel + 1) (.object h) this args) =
    some (.result (.error (.notCallable "value")), e)
  /-- Reading gives `undefined`. -/
  read : ∀ name, e.heap.read h name = .value .undefined
  /-- A write is lost. -/
  write : ∀ name v, e.perform (.write h name v) = some (.written .ignored, e)
  /-- There is nothing to overwrite. -/
  overwrite : ∀ name v, e.perform (.overwrite h name v) = some (.flag false, e)
  /-- There is no object to have a property. -/
  define : ∀ name p, e.perform (.define h name p) = some (.flag false, e)
  /-- There is nothing to remove. -/
  delete : ∀ name, e.perform (.delete h name) = some (.flag true, e)

/-- A host that uses a handle without an object is told so. -/
theorem lacks_of_missing {h : Handle} (hh : e.heap.get? h = none) : e.Lacks h := by
  have hheap := Heap.lacks_of_missing hh
  refine ⟨fun fuel this args => ?_, hheap.read, fun name v => ?_, fun name v => ?_, fun name p => ?_,
    fun name => ?_⟩
  · have hcall : Control.call e.heap (.object h) this args "value" .push =
        .raise (.notCallable "value") := by
      simp only [Control.call, Value.object?, Option.bind_some, hheap.call]
    simp only [perform, Engine.call, hcall]
    rfl
  · simp only [perform, withHeap, hheap.write]
    rfl
  · simp only [perform, hheap.overwrite]
  · simp only [perform, withHeap, hheap.define]
    rfl
  · simp only [perform, withHeap, hheap.delete]
    rfl

end Engine

/-- What a script comes to that uses a handle without an object. -/
structure State.Lacks (m : Machine) (s : State) (h : Handle) : Prop where
  /-- Every operation of the heap treats it as missing. -/
  heap : s.world.heap.Lacks h
  /-- As a value that was computed, or as the function of an accessor, it cannot be called. -/
  call : ∀ this args what resume, Control.call s.world.heap (.object h) this args what resume =
    .raise (.notCallable what)
  /-- The next instruction answers as it must to a missing object and changes nothing but the stack,
  unless it is a call through a site that remembers the object as it was. -/
  instruction : ∀ f rest i next, s.control = .execute → s.frames = f :: rest →
    m.read? f = some (i, next) → i.subject? f = some (.object h) → ¬ i.Strays m s.world f →
    ∃ n w', s.world.SameData w' ∧
      m.after n s = .answered w' ((f.jump next).below i) rest s.depth (i.onMissing f)

/-- A script that uses a handle without an object comes to the answers for a missing object. -/
theorem Machine.Steady.lacks {m : Machine} {s : State} (hs : m.Steady s.world) {h : Handle}
    (hh : s.world.heap.get? h = none) : s.Lacks m h := by
  refine ⟨Heap.lacks_of_missing hh, fun this args what resume => ?_, ?_⟩
  · simp only [Control.call, Value.object?, Option.bind_some, Heap.callable?_of_missing hh]
  · intro f rest i next hexecute hframes hread hsubject hstray
    obtain ⟨w, frames, control, depth⟩ := s
    obtain rfl : control = .execute := hexecute
    obtain rfl : frames = f :: rest := hframes
    exact settles_missing hs rest depth hread hsubject hh hstray

namespace Engine

/-- **A handle whose object was freed is a missing object to everyone**, host and script, in every mode
of the caches. This holds after any further history, until as many collections have passed as there are
generations, and at every moment of every run. The one exception is a call that strays: a site that
calls a function by the name of a global, in the mode in which guards are tried, and remembers the freed
object itself. All other steps of a run are those of the engine without caches. -/
theorem freed_missing {config : Config} {k n : Nat} {e₀ e : Engine} {keep : List Value} {h : Handle}
    (h₀ : (create config).Leads k e₀) (hlive : e₀.heap.isLive h = true)
    (hfreed : (e₀.collect keep).2.heap.isLive h = false) (hlater : (e₀.collect keep).2.Leads n e)
    (hn : n + 1 < 2 ^ 32) :
    e.Lacks h ∧ ∀ (control : Control) (s : State),
      e.machine.Reaches { world := e.world, control } s →
        s.Lacks e.machine h ∧
          (¬ s.Strays e.machine → e.machine.forget.step s.forget = (e.machine.step s).forget) := by
  have hsteady := ((h₀.follows (steady_create config)).steady.collect keep).steady
  have he := hlater.follows hsteady
  refine ⟨lacks_of_missing (Heap.Ages.missing hlive hfreed he.ages hn), fun control s hs => ?_⟩
  obtain ⟨hevolves, hs⟩ := Machine.Reaches.steady he.steady.natives hs he.steady.world
  have hages : (e₀.collect keep).2.heap.Ages n s.world.heap :=
    he.ages.trans (.evolves hevolves)
  exact ⟨hs.lacks (Heap.Ages.missing hlive hfreed hages hn),
    (Machine.step_steady he.steady.natives hs).2.2⟩

/-- A program that reads a property of its receiver. -/
def readsReceiver : Program := ⟨[.member .none (.this .none) "v"], none, false⟩

/-- A host makes an object, has it collected, and lets a program read a property of it: the program
gets `undefined`. -/
theorem freed_missing_readsReceiver :
    let e₀ := ((create {}).withHeap (·.allocate {})).2
    let e := ((e₀.collect []).2.compile readsReceiver).2
    let u := (e.machine.units[0]?).getD default
    let control : Control :=
      .enter .undefined (.script ⟨0, u.entry, none⟩) (.object ⟨9, 0⟩) [] .push
    let s := e.machine.after 2 { world := e.world, control }
    (create {}).Leads 0 e₀ ∧ e₀.heap.isLive ⟨9, 0⟩ = true ∧
      (e₀.collect []).2.heap.isLive ⟨9, 0⟩ = false ∧ (e₀.collect []).2.Leads 0 e ∧
      e.machine.Reaches { world := e.world, control } s ∧ e.Lacks ⟨9, 0⟩ ∧
      ∃ f rest, s.control = .execute ∧ s.frames = f :: rest ∧ f.stack = [.object ⟨9, 0⟩] ∧
        e.machine.read? f = some (.getMember 0 ⟨.getMember, "v", 0, .none⟩, 4) ∧
        ∃ n w', s.world.SameData w' ∧
          e.machine.after n s =
            ⟨w', { f with ip := 4, stack := [.undefined] } :: rest, .execute, s.depth⟩ := by
  have hmade (e : Engine) (o : Object) : e.Leads 0 (e.withHeap (·.allocate o)).2 := by
    have hp : e.perform (.allocate o) = some (.handle _, (e.withHeap (·.allocate o)).2) := rfl
    have hstep : (HostStep.allocate o).Tidy := trivial
    exact .perform .refl hstep hp
  have hcompiled (e : Engine) (p : Program) : e.Leads 0 (e.compile p).2 := by
    have hp : e.perform (.compile p) = some (.unit _, (e.compile p).2) := rfl
    have hstep : (HostStep.compile p).Tidy := trivial
    exact .perform .refl hstep hp
  intro e₀ e u control s
  have hfreed : (e₀.collect []).2.heap.isLive ⟨9, 0⟩ = false := by
    have henvs : e₀.world.envs.Grounded := fun id E hE => by cases hE
    have hslots : (e₀.heap.slots.all fun slot => slot.object.all fun o =>
        o.around?.isNone && !o.references.contains ⟨9, 0⟩) = true := by decide +kernel
    refine Heap.isLive_collect_of_unreferred henvs (by decide +kernel) fun k hrefers => ?_
    obtain ⟨o, ho⟩ := hrefers.live
    have hmem := Array.mem_of_getElem? (Heap.get?_eq_some_iff.mp ho)
    have hnone := Array.all_eq_true_iff_forall_mem.mp hslots _ hmem
    simp only [Option.all_some, Bool.and_eq_true, Option.isNone_iff_eq_none, Bool.not_eq_true',
      List.contains_eq_mem, decide_eq_false_iff_not] at hnone
    rcases (Heap.refers_iff henvs ho).mp hrefers with href | ⟨env, henv, -⟩
    · exact hnone.2 href
    · rw [hnone.1] at henv
      cases henv
  have hlive : e₀.heap.isLive ⟨9, 0⟩ = true := by decide +kernel
  have hs : e.machine.Reaches { world := e.world, control } s := e.machine.reaches_after 2 _
  have hexecute : s.control = .execute := by decide +kernel
  have hstack : s.frames.head?.map (·.stack) = some [.object ⟨9, 0⟩] := by decide +kernel
  have hhead : s.frames.head?.bind e.machine.read? =
      some (.getMember 0 ⟨.getMember, "v", 0, .none⟩, 4) := by decide +kernel
  have hlater : (e₀.collect []).2.Leads 0 e := hcompiled _ _
  obtain ⟨hlacks, hruns⟩ := freed_missing (hmade _ _) hlive hfreed hlater (by decide)
  have hstate := (hruns control s hs).1
  refine ⟨hmade _ _, hlive, hfreed, hlater, hs, hlacks, ?_⟩
  clear_value s control u e
  obtain ⟨f, hf, hread⟩ := Option.bind_eq_some_iff.mp hhead
  obtain ⟨rest, hframes⟩ := List.head?_eq_some_iff.mp hf
  have hstack : f.stack = [.object ⟨9, 0⟩] := by simpa [hf] using hstack
  refine ⟨f, rest, hexecute, hframes, hstack, hread, ?_⟩
  obtain ⟨n, w', hdata, hafter⟩ := hstate.instruction f rest _ _ hexecute hframes hread
    (by rw [Instruction.subject?, hstack]; rfl) (by rintro ⟨_, _, ⟨_, _, h, -⟩, -⟩; cases h)
  refine ⟨n, w', hdata, hafter.trans ?_⟩
  simp [State.answered, Instruction.onMissing, Frame.below, Frame.push, Frame.jump,
    Instruction.operands, hstack]

end Engine

end ScriptEngine
