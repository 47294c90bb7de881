import ScriptEngine.Engine
import ScriptEngine.Proofs.Machine.Tracking

/-!
# Engines on record

Which engines there are, if all code is compiled and all functions of programs are made by running it:
`Engine.Recorded` relates an engine to the ledger of all that has happened in it. A host may do anything
else in between: change the heap as it likes, collect garbage, add host functions, and forget the caches.
-/

namespace ScriptEngine

/-! ## New engines -/

/-- A host function that reports no faults of the machine and makes no functions of programs. -/
def Native.Honest (f : Native) : Prop :=
  ∀ call, (∀ fault, (f call).result ≠ .error (.internal fault)) ∧ call.heap.Scripts (f call).heap

/-- One more honest host function. -/
theorem Natives.Honest.push {ns : Natives} (h : ns.Honest) {f : Native} (hf : f.Honest) :
    (ns.push f).2.Honest := by
  intro id call
  rw [Natives.push, Natives.run.eq_def]
  simp only [Array.getElem?_push]
  by_cases hid : id = ns.table.size
  · simp only [hid, if_true]
    exact hf call
  · simp only [hid, if_false]
    exact h id call

/-- A heap that runs no functions of programs, with honest host functions. -/
structure Host.Honest (host : Host) : Prop where
  /-- No object is a function of a program. -/
  heap : ∀ c, ¬ host.heap.Runs c
  /-- The host functions are honest. -/
  natives : host.natives.Honest

namespace Host.Honest

variable {host : Host}

/-- Nothing at all. -/
theorem empty : ({} : Host).Honest := by
  refine ⟨fun c hc => ?_, fun id call => ⟨fun fault h => ?_, .refl _⟩⟩
  · obtain ⟨h, hh⟩ := hc
    cases hh
  · cases h

/-- The heap has changed. -/
theorem scripts (h : host.Honest) {heap : Heap} (hs : host.heap.Scripts heap) :
    ({ host with heap } : Host).Honest :=
  ⟨fun c hc => h.heap c (hs c hc), h.natives⟩

/-- One more plain object. -/
theorem allocate (h : host.Honest) (prototype : Option Handle) : (host.allocate prototype).2.Honest :=
  h.scripts (host.heap.scripts_allocate fun c hc => by cases hc)

/-- One more method. -/
theorem method (h : host.Honest) (r : Realm) (target : Handle) (name : String) (length : Nat)
    {f : Native} (hf : f.Honest) : (host.method r target name length f).2.Honest := by
  refine ⟨fun c hc => ?_, h.natives.push hf⟩
  obtain hc | hc := Realm.runs_newFunction (Heap.scripts_define _ _ _ _ c hc)
  · exact h.heap c hc
  · cases hc

end Host.Honest

namespace Builtin

/-- Answering without touching the heap is honest. -/
theorem honest_of {f : Native} (h : ∀ call, (∃ v, f call = call.reply v) ∨
    ∃ e, f call = call.fail e ∧ ∀ fault, e ≠ .internal fault) : f.Honest := by
  intro call
  obtain ⟨v, hv⟩ | ⟨e, he, hfault⟩ := h call
  · rw [hv]
    exact ⟨fun fault h => (by cases h), .refl _⟩
  · rw [he]
    exact ⟨fun fault h => hfault fault (Except.error.inj h), .refl _⟩

/-- **The built-in functions** are honest. -/
theorem honest_valueOf : Native.Honest valueOf := honest_of fun call => .inl ⟨call.this, rfl⟩

/-- Asking for a property leaves the heap alone. -/
theorem honest_hasOwnProperty : Native.Honest hasOwnProperty := by
  refine honest_of fun call => .inl ?_
  simp only [hasOwnProperty]
  split
  · exact ⟨_, rfl⟩
  · exact ⟨_, rfl⟩

/-- A new object is no function. -/
theorem honest_create : Native.Honest create := by
  intro call
  simp only [create]
  split
  · exact ⟨fun fault h => (by cases h), call.heap.scripts_allocate fun c hc => by cases hc⟩
  · exact ⟨fun fault h => (by cases h), call.heap.scripts_allocate fun c hc => by cases hc⟩
  · exact ⟨fun fault h => (by cases h), .refl _⟩

/-- Looking at a prototype leaves the heap alone. -/
theorem honest_getPrototypeOf : Native.Honest getPrototypeOf := by
  refine honest_of fun call => ?_
  simp only [getPrototypeOf]
  split
  · split
    · exact .inl ⟨_, rfl⟩
    · exact .inl ⟨_, rfl⟩
  · exact .inr ⟨_, rfl, fun fault h => by cases h⟩

/-- Refusing to run source text is no fault. -/
theorem honest_eval : Native.Honest eval :=
  honest_of fun call => .inr ⟨_, rfl, fun fault h => by cases h⟩

end Builtin

/-- A new realm has no functions of programs. -/
theorem Realm.honest_create : Realm.create.2.Honest := by
  rw [Realm.create]
  dsimp only
  refine Host.Honest.method ?_ _ _ _ _ Builtin.honest_eval
  refine Host.Honest.scripts ?_ (Heap.scripts_define _ _ _ _)
  refine Host.Honest.method ?_ _ _ _ _ Builtin.honest_getPrototypeOf
  refine Host.Honest.method ?_ _ _ _ _ Builtin.honest_create
  refine Host.Honest.allocate ?_ _
  refine Host.Honest.method ?_ _ _ _ _ Builtin.honest_hasOwnProperty
  refine Host.Honest.method ?_ _ _ _ _ Builtin.honest_valueOf
  exact ((Host.Honest.empty.allocate _).allocate _).allocate _

/-! ## Histories -/

/-- A run ends without frames, in the world of its last state, and with the error that is being raised
there, if it ends with one. -/
theorem Machine.finished_spec {m : Machine} {s : State} {o : Outcome} (h : m.step s = .finished o) :
    o.world = s.world ∧ ∀ error, o.result = .error error → s.control = .raise error := by
  obtain ⟨w, frames, control, depth⟩ := s
  cases control with
  | enter callee target this args r => cases target <;> cases h
  | execute =>
    cases frames with
    | nil =>
      cases h
      exact ⟨rfl, fun error he => by cases he⟩
    | cons f fs => cases h
  | deliver r v =>
    cases frames with
    | nil =>
      cases h
      exact ⟨rfl, fun error he => by cases he⟩
    | cons f fs => cases h
  | ret v =>
    cases frames with
    | nil =>
      cases h
      exact ⟨rfl, fun error he => by cases he⟩
    | cons f fs => cases h
  | raise e =>
    cases frames with
    | nil =>
      cases h
      exact ⟨rfl, fun error he => congrArg Control.raise (Except.error.inj he)⟩
    | cons f fs => cases h

/-- There are as many blueprints as units. -/
theorem Ledger.Holds.size_eq {m : Machine} {L : Ledger} {w : World} (h : L.Holds m w) :
    L.blueprints.size = m.units.size := by
  refine Nat.le_antisymm (Nat.le_of_not_lt fun hlt => ?_) (Nat.le_of_not_lt fun hlt => ?_)
  · obtain ⟨u, hu⟩ := h.blueprints _ _ (Array.getElem?_eq_getElem hlt)
    exact absurd hu (by simp)
  · obtain ⟨U, hU, -⟩ := h.units _ _ (Array.getElem?_eq_getElem hlt)
    exact absurd hU (by simp)

/-- **A unit is loaded** that was made after a blueprint. -/
theorem Ledger.Holds.load {m : Machine} {L : Ledger} {w : World} (h : L.Holds m w) {U : Blueprint}
    {u : CodeUnit} (hU : U.Fits u) :
    Ledger.Holds { m with units := m.units.push u } { L with blueprints := L.blueprints.push U } w := by
  have hgrows : L.Grows { L with blueprints := L.blueprints.push U } := by
    refine ⟨fun k U' hU' => ?_, fun _ _ h => h, fun _ _ h => h⟩
    obtain ⟨hlt, -⟩ := Array.getElem?_eq_some_iff.mp hU'
    simp only [Array.getElem?_push_lt hlt]
    rw [← hU', Array.getElem?_eq_getElem hlt]
  refine ⟨fun k u' hu' => ?_, fun k U' hU' => ?_, h.grounded,
    fun k A hA => (h.activated k A hA).grows hgrows (.refl _),
    fun k c hc => (h.makes k c hc).grows hgrows (.refl _), fun c hc => (h.runs c hc).grows hgrows⟩
  · rw [Array.getElem?_push] at hu'
    simp only [Array.getElem?_push, h.size_eq]
    split at hu'
    · next hk =>
      cases hu'
      exact ⟨U, if_pos hk, hU⟩
    · next hk =>
      rw [if_neg hk]
      exact h.units k u' hu'
  · simp only [Array.getElem?_push, h.size_eq] at hU'
    simp only [Array.getElem?_push]
    split at hU'
    · next hk => exact ⟨u, if_pos hk⟩
    · next hk =>
      rw [if_neg hk]
      exact h.blueprints k U' hU'

namespace Engine

/-- How a run of an engine starts: with the code of a loaded unit, or with a call of any value. -/
inductive Starts (e : Engine) : Control → Prop where
  /-- The code of a unit. -/
  | run {unit : Nat} {u : CodeUnit} (h : e.machine.units[unit]? = some u) :
    Starts e (.enter .undefined (.script ⟨unit, u.entry, none⟩) e.machine.globalValue [] .push)
  /-- A call of any value with any arguments. -/
  | call (callee this : Value) (args : List Value) (what : String) :
    Starts e (.call e.heap callee this args what .push)

/-- An engine with the ledger of what has happened in it. All code was compiled from programs that no
analysis had touched, and all functions of programs were made by running it. -/
inductive Recorded : Engine → Ledger → Prop where
  /-- A new engine, with any settings. -/
  | create (config : Config) : Recorded (create config) {}
  /-- A program was compiled and loaded. -/
  | compile {e : Engine} {L : Ledger} (h : Recorded e L) {p p' : Program} {c : Compilation}
    (hunset : p.isUnset = true) (hc : ScriptEngine.compile p = (.ok c, p')) :
    Recorded (e.load c.unit).2
      { L with blueprints := L.blueprints.push ⟨c.scopes, c.unit.pool, p'.sources⟩ }
  /-- The heap was changed in any way that brings in no functions of programs. -/
  | heap {e : Engine} {L : Ledger} (h : Recorded e L) {heap : Heap} (hs : e.heap.Scripts heap) :
    Recorded (e.setHeap heap) L
  /-- Garbage was collected, but for what the host keeps. -/
  | collect {e : Engine} {L : Ledger} (h : Recorded e L) (keep : List Value) : Recorded (e.collect keep).2 L
  /-- There are other host functions. -/
  | natives {e : Engine} {L : Ledger} (h : Recorded e L) {ns : Natives} (hns : ns.Honest) :
    Recorded { e with machine := { e.machine with natives := ns } } L
  /-- The caches were forgotten. -/
  | resetCaches {e : Engine} {L : Ledger} (h : Recorded e L) : Recorded e.resetCaches L
  /-- The log was taken. -/
  | takeLog {e : Engine} {L : Ledger} (h : Recorded e L) : Recorded e.takeLog.2 L
  /-- A run has ended. -/
  | run {e : Engine} {L L' : Ledger} (h : Recorded e L) {control : Control} (hstart : e.Starts control)
    {s : State} (ht : e.machine.Traces { world := e.world, control } L s L') {o : Outcome}
    (hend : e.machine.step s = .finished o) :
    Recorded ⟨e.machine, o.world⟩ { L' with running := [] }

section

variable {e : Engine} {L : Ledger}

/-- A new engine has no functions of programs. -/
theorem holds_create (config : Config) : Ledger.Holds (create config).machine {} (create config).world := by
  refine ⟨fun k u hu => ?_, fun k U hU => ?_, fun id E hE => ?_, fun a A hA => ?_, fun a c hc => ?_,
    fun c hc => ?_⟩
  · exact absurd hu (by simp [create])
  · exact absurd hU (by simp)
  · exact absurd hE (by simp [create, Environments.get?])
  · exact absurd hA (by simp)
  · cases hc
  · obtain hc | ⟨id, cache, callee, hget, -⟩ := hc
    · exact (Realm.honest_create.heap c hc).elim
    · exact absurd hget (by simp [create, Caches.get?])

/-- The start of a run is on record. -/
theorem Starts.tracks {control : Control} (h : e.Starts control) (hL : L.Holds e.machine e.world)
    (hrunning : L.running = []) : L.Tracks e.machine { world := e.world, control } := by
  refine ⟨hL, ?_⟩
  show L.Follows _ _ control [] L.running
  rw [hrunning]
  cases h with
  | run hu =>
    refine ⟨fun c hc => ?_, fun _ => trivial⟩
    cases hc
    obtain ⟨U, hU, hfits⟩ := hL.units _ _ hu
    obtain ⟨src, hsrc, hscope, hlowered⟩ := hfits.entry
    exact .inl ⟨rfl, U, src, ⟨hU, hsrc⟩, hscope, hlowered⟩
  | call callee this args what =>
    exact Control.fits_call (fun c hc => hL.runs c (.inl hc)) (fun _ => trivial) _ _ _ _

/-- **The ledger of an engine** is true of it, its host functions are honest, and nothing is running. -/
theorem Recorded.holds (h : e.Recorded L) :
    L.Holds e.machine e.world ∧ e.machine.natives.Honest ∧ L.running = [] := by
  induction h with
  | create config => exact ⟨holds_create config, Realm.honest_create.natives, rfl⟩
  | compile _ hunset hc ih =>
    obtain ⟨hL, hnatives, hrunning⟩ := ih
    exact ⟨hL.load (Blueprint.fits_of_compile hunset hc), hnatives, hrunning⟩
  | heap _ hs ih =>
    obtain ⟨hL, hnatives, hrunning⟩ := ih
    exact ⟨hL.moves ((World.stays_heap _ hs).moves hL.grounded _), hnatives, hrunning⟩
  | @collect e _ _ keep ih =>
    obtain ⟨hL, hnatives, hrunning⟩ := ih
    have hs : e.heap.Scripts (e.collect keep).2.heap := Heap.scripts_collect _ _ _
    exact ⟨hL.moves ((World.stays_heap _ hs).moves hL.grounded _), hnatives, hrunning⟩
  | natives _ hns ih =>
    obtain ⟨hL, -, hrunning⟩ := ih
    exact ⟨⟨hL.units, hL.blueprints, hL.grounded, hL.activated, hL.makes, hL.runs⟩, hns, hrunning⟩
  | resetCaches _ ih =>
    obtain ⟨hL, hnatives, hrunning⟩ := ih
    exact ⟨hL.moves ((World.stays_resetCaches _).moves hL.grounded _), hnatives, hrunning⟩
  | takeLog _ ih =>
    obtain ⟨hL, hnatives, hrunning⟩ := ih
    exact ⟨hL.moves ((World.stays_log _ _).moves hL.grounded _), hnatives, hrunning⟩
  | run _ hstart ht hend ih =>
    obtain ⟨hL, hnatives, hrunning⟩ := ih
    have htracks := ht.tracks hnatives (hstart.tracks hL hrunning)
    refine ⟨?_, hnatives, rfl⟩
    rw [(Machine.finished_spec hend).1]
    have hL' := htracks.world
    exact hL'.update ((World.Stays.refl _).moves hL'.grounded fun _ => False)
      ⟨fun _ _ h => h, fun _ _ h => h, fun _ _ h => h⟩ (fun _ hc => hc.elim) rfl (fun _ _ hA => .inl hA)
      fun _ _ hc => .inl hc

/-- **The run of one program** by a new engine is on record at every moment, and the program's blueprint is the
only one. -/
theorem recorded_after (config : Config) {p p' : Program} {c : Compilation} (hunset : p.isUnset = true)
    (hc : ScriptEngine.compile p = (.ok c, p')) (k : Nat) :
    let e := ((create config).compile p).2
    let u := (e.machine.units[0]?).getD default
    let control : Control :=
      .enter .undefined (.script ⟨0, u.entry, none⟩) e.machine.globalValue [] .push
    let U : Blueprint := ⟨c.scopes, c.unit.pool, p'.sources⟩
    e.Recorded { blueprints := #[U] } ∧ e.Starts control ∧
      ∃ L, e.machine.Traces { world := e.world, control } { blueprints := #[U] }
        (e.machine.after k { world := e.world, control }) L ∧ ∀ U' ∈ L.blueprints, U' = U := by
  intro e u control U
  have he : e = ((create config).load c.unit).2 := by simp only [e, Engine.compile, hc]
  have hu : e.machine.units[0]? = some u := by
    have hunit : e.machine.units[0]? = some c.unit := by
      rw [he]
      rfl
    rw [hunit, show u = c.unit by simp only [u, hunit, Option.getD_some]]
  obtain ⟨L, hL⟩ := (e.machine.reaches_after k { world := e.world, control }).traces { blueprints := #[U] }
  refine ⟨he ▸ (Recorded.create config).compile hunset hc, .run hu, L, hL, fun U' hU' => ?_⟩
  rw [hL.blueprints_eq] at hU'
  exact Array.mem_singleton.mp hU'

/-- Compiling a program that no analysis has touched leaves an engine on record. -/
theorem Recorded.compiled (h : e.Recorded L) {p : Program} (hunset : p.isUnset = true) :
    ∃ L', (e.compile p).2.Recorded L' := by
  rw [Engine.compile]
  rcases hc : ScriptEngine.compile p with ⟨error | c, p'⟩
  · exact ⟨L, h⟩
  · exact ⟨_, h.compile hunset hc⟩

end

end Engine

end ScriptEngine
