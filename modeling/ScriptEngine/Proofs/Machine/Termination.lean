import ScriptEngine.Proofs.Machine.Progress
import ScriptEngine.Proofs.Machine.Tracking

/-!
# Programs without loops terminate

Where all code goes forward, a call comes back, with a value or with an error (`Machine.Forward.returns`).
There are two inductions, one inside the other. The outer one is on the number of activations that may
still be nested; a call at the limit comes back at once, with an error that the caller may catch. The inner
one is on the measure of the running frame (`Frame.weight`): an instruction makes it smaller, a call comes
back by the outer induction, and an error that is caught makes it smaller again. So no frame goes on for
ever, however often it calls from its handlers.

The machine looks for a property within as many steps as there are slots. That hides no endless search: if
no chain of prototypes runs in a circle at first, and no host function closes one, then none ever does
(`Machine.Reaches.lineal`), and every search ends by itself.
-/

namespace ScriptEngine

/-! ## Forward code and answers -/

/-- No function of the loaded units has a backward jump. -/
def Machine.Forward (m : Machine) : Prop :=
  ∀ unit index u F, m.code unit index = .ok (u, F) → F.chunk.Tidy (F.context u.pool index ⟨False, False⟩) []

/-- What a call comes back with: a value, to be used as the caller wants it, or an error. -/
inductive Control.IsAnswer (resume : Resume) : Control → Prop
  /-- A value. -/
  | value (v : Value) : IsAnswer resume (.deliver resume v)
  /-- An error. -/
  | error (e : RuntimeError) : IsAnswer resume (.raise e)

/-- A run gets from a state down to some frames and the count that goes with them, with an answer for them. -/
def Machine.Concludes (m : Machine) (below : List Frame) (depth : Nat) (resume : Resume) (s : State) : Prop :=
  ∃ w control, control.IsAnswer resume ∧ m.Reaches s ⟨w, below, control, depth⟩

/-- Whatever is called from these frames at this count comes back to both. -/
def Machine.Returns (m : Machine) (frames : List Frame) (depth : Nat) : Prop :=
  ∀ w callee target this args resume,
    m.Concludes frames depth resume ⟨w, frames, .enter callee target this args resume, depth⟩

/-- A frame that runs a function, at a place that counts less than a bound. -/
structure Frame.Runs (m : Machine) (u : CodeUnit) (F : CodeFunction) (resume : Resume) (bound : Nat)
    (f : Frame) : Prop where
  /-- The function. -/
  code : m.code f.unit f.index = .ok (u, F)
  /-- The use of the value that is returned. -/
  resume : f.resume = resume
  /-- The place. -/
  stands : f.Stands F
  /-- The bound. -/
  weight : f.weight F < bound

/-- A frame in the same place runs the same function. -/
theorem Frame.Runs.samePlace {m : Machine} {u : CodeUnit} {F : CodeFunction} {resume : Resume} {bound : Nat}
    {f f' : Frame} (h : f.Runs m u F resume bound) (hf : f.SamePlace f') : f'.Runs m u F resume bound := by
  refine ⟨?_, ?_, hf.stands h.stands, ?_⟩
  · rw [hf.unit, hf.index]
    exact h.code
  · rw [hf.resume]
    exact h.resume
  · rw [hf.weight_eq]
    exact h.weight

/-- A larger bound. -/
theorem Frame.Runs.succ {m : Machine} {u : CodeUnit} {F : CodeFunction} {resume : Resume} {bound : Nat}
    {f : Frame} (h : f.Runs m u F resume bound) : f.Runs m u F resume (bound + 1) :=
  { h with weight := Nat.lt_succ_of_lt h.weight }

namespace Machine

variable {m : Machine} {below : List Frame} {depth : Nat} {resume : Resume}

/-- The frames have their answer. -/
theorem Concludes.here {w : World} {control : Control} (h : control.IsAnswer resume) :
    m.Concludes below depth resume ⟨w, below, control, depth⟩ :=
  ⟨w, control, h, .refl⟩

/-- The answer comes later. -/
theorem Concludes.of_reaches {s s' : State} (hs : m.Reaches s s') (h : m.Concludes below depth resume s') :
    m.Concludes below depth resume s := by
  obtain ⟨w, control, hanswer, hreaches⟩ := h
  exact ⟨w, control, hanswer, hs.trans hreaches⟩

/-- The answer comes after a step. -/
theorem Concludes.of_step {s s' : State} (hs : m.step s = .running s') (h : m.Concludes below depth resume s') :
    m.Concludes below depth resume s :=
  h.of_reaches (.single hs)

/-! ## One frame -/

section

variable {u : CodeUnit} {F : CodeFunction} {bound : Nat} {f : Frame} {w : World}

/-- **An error in a frame** is caught further on, where the frame counts less, or left to the frames
below. -/
theorem concludes_raise
    (hexecute : ∀ f w, f.Runs m u F resume bound →
      m.Concludes below depth resume ⟨w, f :: below, .execute, depth + 1⟩)
    (hf : f.Runs m u F resume (bound + 1)) (e : RuntimeError) :
    m.Concludes below depth resume ⟨w, f :: below, .raise e, depth + 1⟩ := by
  refine .of_step rfl ?_
  rw [unwind]
  split
  · exact .here (.error e)
  · next h outer hhandlers =>
    split
    · -- The handler that takes over is none of the frame's handlers any more.
      obtain ⟨hstands, hlt⟩ := hf.stands.catchIn hhandlers (m.realm.caughtValue w.heap e).1
      exact hexecute _ _ ⟨hf.code, hf.resume, hstands, Nat.lt_of_lt_of_le hlt (Nat.le_of_lt_succ hf.weight)⟩
    · exact .here (.error e)

variable (hexecute : ∀ f w, f.Runs m u F resume bound →
    m.Concludes below depth resume ⟨w, f :: below, .execute, depth + 1⟩)
  (hcalls : ∀ f, m.Returns (f :: below) (depth + 1))

include hexecute

/-- A frame gets the value that it pushes. -/
theorem concludes_push (hf : f.Runs m u F resume bound) (v : Value) :
    m.Concludes below depth resume ⟨w, f :: below, .deliver .push v, depth + 1⟩ :=
  .of_step rfl (hexecute _ _ (hf.samePlace (f.samePlace _ _ _)))

include hcalls

/-- **A call from a frame** comes back to it, and what it comes back with is settled there. -/
theorem concludes_enter (hf : f.Runs m u F resume bound) {use : Resume}
    (huse : ∀ w v, m.Concludes below depth resume ⟨w, f :: below, .deliver use v, depth + 1⟩) (callee : Value)
    (target : Callable) (this : Value) (args : List Value) :
    m.Concludes below depth resume ⟨w, f :: below, .enter callee target this args use, depth + 1⟩ := by
  -- The call leaves this frame in its place, so the bound holds again when it comes back.
  obtain ⟨w', control, hanswer, hreaches⟩ := hcalls f w callee target this args use
  refine .of_reaches hreaches ?_
  cases hanswer with
  | value v => exact huse w' v
  | error e => exact concludes_raise hexecute hf.succ e

/-- **A value for a frame**: it goes on with it, or calls it. -/
theorem concludes_deliver (hf : f.Runs m u F resume bound) (use : Resume) (v : Value) :
    m.Concludes below depth resume ⟨w, f :: below, .deliver use v, depth + 1⟩ := by
  refine .of_step rfl ?_
  cases use with
  | push => exact hexecute _ _ (hf.samePlace (f.samePlace _ _ _))
  | discard => exact hexecute _ _ hf
  | pushInstead other => exact hexecute _ _ (hf.samePlace (f.samePlace _ _ _))
  | callWith this args what =>
    rw [resumeWith, Control.call]
    split
    · exact concludes_enter hexecute hcalls hf (fun w v => concludes_push hexecute hf v) _ _ _ _
    · exact concludes_raise hexecute hf.succ _

/-- Whatever comes next for a frame, the frames below get their answer. -/
theorem concludes_control (hf : f.Runs m u F resume bound) (control : Control) :
    m.Concludes below depth resume ⟨w, f :: below, control, depth + 1⟩ := by
  cases control with
  | execute => exact hexecute f w hf
  | enter callee target this args use =>
    exact concludes_enter hexecute hcalls hf (fun w v => concludes_deliver hexecute hcalls hf use v) _ _ _ _
  | deliver use v => exact concludes_deliver hexecute hcalls hf use v
  | ret v =>
    refine .of_step rfl ?_
    rw [hf.resume]
    exact .here (.value v)
  | raise e => exact concludes_raise hexecute hf.succ e

end

/-- **A frame comes to an end** if the calls it makes do: by induction on the measure of the frame. -/
theorem Forward.concludes_execute (hm : m.Forward) (hcalls : ∀ f, m.Returns (f :: below) (depth + 1))
    {u : CodeUnit} {F : CodeFunction} {bound : Nat} {f : Frame} (hf : f.Runs m u F resume bound) (w : World) :
    m.Concludes below depth resume ⟨w, f :: below, .execute, depth + 1⟩ := by
  induction bound generalizing f w with
  | zero => exact absurd hf.weight (Nat.not_lt_zero _)
  | succ bound ih =>
    have hexecute : ∀ f w, f.Runs m u F resume bound →
        m.Concludes below depth resume ⟨w, f :: below, .execute, depth + 1⟩ :=
      fun f w hf => ih hf w
    refine .of_step rfl ?_
    rw [advance, hf.code]
    simp only
    split
    · exact concludes_raise hexecute hf _
    · refine .of_step rfl ?_
      rw [hf.resume]
      exact .here (.value .undefined)
    · next i next hread =>
      -- Whatever the instruction does, the frame counts less behind it; then its control is settled.
      have hgoes := m.goes_execute w (f.jump next) i
      obtain ⟨hunit, hindex, hresume⟩ := hgoes.frame.activation
      obtain ⟨hstands, hlt⟩ :=
        hf.stands.turns (hm _ _ _ _ hf.code) (fun hloops => hloops) hread hgoes.frame
      refine concludes_control hexecute hcalls ⟨?_, ?_, hstands, ?_⟩ _
      · rw [hunit, hindex]
        exact hf.code
      · rw [hresume]
        exact hf.resume
      · exact Nat.lt_of_lt_of_le hlt (Nat.le_of_lt_succ hf.weight)

/-! ## Calls -/

/-- A host function answers at once. -/
theorem concludes_native (w : World) (frames : List Frame) (callee : Value) (f : NativeFunction) (this : Value)
    (args : List Value) (use : Resume) :
    m.Concludes frames depth use ⟨w, frames, .enter callee (.native f) this args use, depth⟩ := by
  refine .of_step rfl ?_
  rw [enterNative]
  split
  · exact .here (.value _)
  · exact .here (.error _)

/-- A function starts at its first instruction, outside of all protected regions. -/
theorem Forward.runs_activate (hm : m.Forward) {c : Closure} {u : CodeUnit} {F : CodeFunction}
    (hcode : m.code c.unit c.index = .ok (u, F)) (callee this : Value) (args : List Value) (use : Resume)
    (envs : Environments) :
    (Frame.activate F c callee this args use envs).1.Runs m u F use (F.weightAt 0 + 1) := by
  refine ⟨hcode, rfl, ⟨?_, ?_⟩, Nat.lt_succ_self _⟩
  · exact (hm _ _ _ _ hcode).boundary_zero
  · exact fun h hh => absurd hh List.not_mem_nil

/-- **A call comes back** if it is at the limit, or if the calls that it makes come back. -/
theorem Forward.returns_of (hm : m.Forward) {frames : List Frame}
    (hcalls : depth < m.config.maxDepth → ∀ f, m.Returns (f :: frames) (depth + 1)) : m.Returns frames depth := by
  intro w callee target this args use
  cases target with
  | native f => exact concludes_native w frames callee f this args use
  | script c =>
    refine .of_step rfl ?_
    rw [enterScript]
    split
    · exact .here (.error _)
    · next hdepth =>
      split
      · exact .here (.error _)
      · next u F hcode =>
        exact hm.concludes_execute (hcalls (Nat.lt_of_not_le hdepth)) (hm.runs_activate hcode _ _ _ _ _) _

/-- **All calls come back**: by induction on the number of activations that may still be nested. -/
theorem Forward.returns (hm : m.Forward) (frames : List Frame) (depth : Nat) : m.Returns frames depth := by
  -- At the limit no call goes deeper, and further up there is room for one activation less.
  have hwithin : ∀ n (frames : List Frame) depth, m.config.maxDepth ≤ depth + n → m.Returns frames depth := by
    intro n
    induction n with
    | zero =>
      intro frames depth hn
      exact hm.returns_of fun hlt => absurd hlt (Nat.not_lt_of_le hn)
    | succ n ih =>
      intro frames depth hn
      exact hm.returns_of fun _ f => ih (f :: frames) (depth + 1) (by omega)
  exact hwithin m.config.maxDepth frames depth (Nat.le_add_left _ _)

/-! ## Runs -/

/-- A run ends as it does from a state that it comes to. -/
theorem Reaches.run {s s' : State} (h : m.Reaches s s') {fuel : Nat} {o : Outcome}
    (ended : m.run fuel s' = some o) : ∃ fuel, m.run fuel s = some o := by
  induction h using Relation.ReflTransGen.head_induction_on with
  | refl => exact ⟨fuel, ended⟩
  | head hstep _ ih =>
    obtain ⟨fuel, ended⟩ := ih
    refine ⟨fuel + 1, ?_⟩
    rw [Machine.run, hstep]
    exact ended

/-- With an answer for the host the run is over. -/
theorem run_answer {control : Control} (h : control.IsAnswer resume) (w : World) :
    ∃ o, m.run 1 { world := w, control } = some o := by
  cases h with
  | value v => exact ⟨_, rfl⟩
  | error e => exact ⟨_, rfl⟩

/-- **Runs end**, whatever they start with. -/
theorem Forward.run (hm : m.Forward) (w : World) (control : Control) :
    ∃ fuel o, m.run fuel { world := w, control } = some o := by
  cases control with
  | enter callee target this args use =>
    obtain ⟨w', control, hanswer, hreaches⟩ := hm.returns [] 0 w callee target this args use
    obtain ⟨o, ended⟩ := m.run_answer hanswer w'
    obtain ⟨fuel, ended⟩ := hreaches.run ended
    exact ⟨fuel, o, ended⟩
  | execute | deliver | ret | raise => exact ⟨1, _, rfl⟩

/-! ## Chains of prototypes in a run -/

/-- The host functions that a run calls close no circle of prototypes. -/
def KeepsLines (m : Machine) (s₀ : State) : Prop :=
  ∀ s, m.Reaches s₀ s → ∀ callee f this args use, s.control = .enter callee (.native f) this args use →
    s.world.heap.Lineal m.realm → (m.natives.run f.id ⟨s.world.heap, this, args⟩).heap.Lineal m.realm

/-- What one instruction does to the heap. -/
theorem works_advance (m : Machine) (w : World) (f : Frame) :
    m.realm.Works w.heap (m.advance w f).world.heap := by
  rw [advance]
  split
  · exact .refl _ _
  · split
    · exact .refl _ _
    · exact .refl _ _
    · exact (m.goes_execute w _ _).heap

/-- **What one step does to the heap**: it works on it, or leaves it to a host function. -/
theorem works_step {s s' : State} (h : m.step s = .running s') :
    m.realm.Works s.world.heap s'.world.heap ∨
      ∃ callee f this args use, s.control = .enter callee (.native f) this args use ∧
        s'.world.heap = (m.natives.run f.id ⟨s.world.heap, this, args⟩).heap := by
  obtain ⟨w, frames, control, depth⟩ := s
  cases control with
  | enter callee target this args use =>
    cases target with
    | native f =>
      obtain rfl := Progress.running.inj h
      refine .inr ⟨callee, f, this, args, use, rfl, ?_⟩
      rw [enterNative]
      split <;> rfl
    | script c =>
      obtain rfl := Progress.running.inj h
      refine .inl ?_
      rw [enterScript]
      split
      · exact .refl _ _
      · split <;> exact .refl _ _
  | execute =>
    cases frames with
    | nil => cases h
    | cons f rest =>
      obtain rfl := Progress.running.inj h
      exact .inl (m.works_advance w f)
  | deliver use v =>
    cases frames with
    | nil => cases h
    | cons f rest =>
      obtain rfl := Progress.running.inj h
      cases use <;> exact .inl (.refl _ _)
  | ret v =>
    cases frames with
    | nil => cases h
    | cons f rest =>
      obtain rfl := Progress.running.inj h
      exact .inl (.refl _ _)
  | raise e =>
    cases frames with
    | nil => cases h
    | cons f rest =>
      obtain rfl := Progress.running.inj h
      refine .inl ?_
      rw [unwind]
      split
      · exact .refl _ _
      · split
        · exact .caughtValue _ _ e
        · exact .refl _ _

/-- An error that has passed all frames ends the run. -/
theorem step_uncaught {s : State} {e : RuntimeError} (hframes : s.frames = []) (hraise : s.control = .raise e)
    (s' : State) : m.step s ≠ .running s' := by
  obtain ⟨w, frames, control, depth⟩ := s
  obtain rfl : frames = [] := hframes
  obtain rfl : control = .raise e := hraise
  intro hstep
  cases hstep

/-- The states of a run that is over after so many steps. -/
theorem Reaches.eq_after {s₀ s : State} {n : Nat} (h : m.Reaches s₀ s)
    (hover : ∀ s', m.step (m.after n s₀) ≠ .running s') : ∃ k ≤ n, s = m.after k s₀ := by
  induction n generalizing s₀ with
  | zero =>
    rcases h.cases_head with rfl | ⟨s₁, hstep, -⟩
    · exact ⟨0, Nat.le_refl 0, rfl⟩
    · exact absurd hstep (hover s₁)
  | succ n ih =>
    rcases h.cases_head with rfl | ⟨s₁, hstep, hrest⟩
    · exact ⟨0, Nat.zero_le _, rfl⟩
    · rw [after_of_running hstep] at hover
      obtain ⟨k, hk, hs⟩ := ih hrest hover
      exact ⟨k + 1, Nat.succ_le_succ hk, hs.trans (after_of_running hstep k).symm⟩

/-- **A run closes no circle** if its host functions do not. -/
theorem Reaches.lineal {s₀ s : State} (h : m.Reaches s₀ s) (hkeeps : m.KeepsLines s₀)
    (h₀ : s₀.world.heap.Lineal m.realm) : s.world.heap.Lineal m.realm := by
  induction h with
  | refl => exact h₀
  | @tail s s' hs hstep ih =>
    rcases works_step hstep with hworks | ⟨callee, f, this, args, use, hcontrol, hheap⟩
    · exact ih.works hworks
    · rw [hheap]
      exact hkeeps s hs callee f this args use hcontrol ih

end Machine

/-! ## Engines -/

namespace Engine

/-- All loaded units were compiled from programs without loops. -/
def LoopFree (e : Engine) : Prop :=
  ∀ u ∈ e.machine.units, ∃ p c p', p.isLoopFree = true ∧ ScriptEngine.compile p = (.ok c, p') ∧ u = c.unit

/-- How runs of units and calls of values begin. -/
inductive Begins (e : Engine) : State → Prop
  /-- A unit is run, once its global variables are declared. -/
  | run {unit : Nat} {u : CodeUnit} (loaded : e.machine.units[unit]? = some u) :
      Begins e
        { world := (e.setHeap (u.globals.foldl (declareGlobal e.realm) e.heap)).world
          control := .enter .undefined (.script ⟨unit, u.entry, none⟩) e.machine.globalValue [] .push }
  /-- A value is called. -/
  | call (callee this : Value) (args : List Value) :
      Begins e { world := e.world, control := .call e.heap callee this args "value" .push }

section

variable {e : Engine}

/-- The code of programs without loops goes forward. -/
theorem LoopFree.forward (he : e.LoopFree) : e.machine.Forward := by
  intro unit index u F hcode
  rw [Machine.code] at hcode
  split at hcode
  · cases hcode
  · next u' hu =>
    split at hcode
    · cases hcode
    · next F' hF =>
      obtain ⟨rfl, rfl⟩ := Prod.mk.inj (Except.ok.inj hcode)
      obtain ⟨p, c, p', hp, hc, rfl⟩ := he u' (Array.mem_of_getElem? hu)
      have htidy : c.unit.Tidy ⟨False, False⟩ := compile_tidy hc (fun hslots => hslots.elim) (.inr hp)
      exact htidy.functions index F' hF

/-- A new engine has no units. -/
theorem loopFree_create (config : Config) : (create config).LoopFree := by
  intro u hu
  have hunits : (create config).machine.units = #[] := rfl
  rw [hunits] at hu
  exact absurd hu (Array.not_mem_empty u)

/-- One more program without loops is compiled. -/
theorem LoopFree.compile (he : e.LoopFree) {p : Program} (hp : p.isLoopFree = true) :
    (e.compile p).2.LoopFree := by
  rcases hc : ScriptEngine.compile p with ⟨error | c, p'⟩
  · rw [Engine.compile, hc]
    exact he
  · rw [Engine.compile, hc]
    intro u hu
    rcases Array.mem_push.mp hu with hu | rfl
    · exact he u hu
    · exact ⟨p, c, p', hp, hc, rfl⟩

/-- The objects of a new engine are in no circles. -/
theorem lineal_create (config : Config) : (create config).heap.Lineal (create config).realm :=
  Realm.lineal_create

/-- Compiling leaves the objects alone. -/
theorem lineal_compile (he : e.heap.Lineal e.realm) (p : Program) :
    (e.compile p).2.heap.Lineal (e.compile p).2.realm := by
  rw [Engine.compile]
  split
  · exact he
  · exact he

/-- Declaring global variables works on the heap. -/
theorem works_declareGlobals (r : Realm) (names : Array String) (heap : Heap) :
    r.Works heap (names.foldl (declareGlobal r) heap) := by
  rw [← Array.foldl_toList]
  induction names.toList generalizing heap with
  | nil => exact .refl _ _
  | cons name names ih =>
    refine .trans ?_ (ih _)
    rw [declareGlobal]
    split
    · exact .refl _ _
    · exact .define _ _ _ _ _

/-- What happens before a run or a call begins closes no circle. -/
theorem Begins.lineal {s₀ : State} (h : e.Begins s₀) (he : e.heap.Lineal e.realm) :
    s₀.world.heap.Lineal e.machine.realm := by
  cases h with
  | run loaded => exact he.works (works_declareGlobals _ _ _)
  | call callee this args => exact he

/-- **Programs without loops terminate.** Take an engine all of whose units were compiled from programs
without loops, with any heap, any host functions and any limit on nested activations. Every run of a unit
and every call of a value ends with a value or an error, given enough steps. It does so however functions
call themselves, throw, catch errors, that of the limit too, and call again from their handlers.

The bound on searches for properties has no part in this. If no chain of prototypes runs in a circle at
first, those of the realm's prototypes are whole, and no host function that is called changes this, then it
stays so; and in every state of the run a search that goes on as long as there is a prototype ends, and
finds the object that the machine finds. -/
theorem loopFree_terminates (he : e.LoopFree) :
    (∀ unit, ∃ fuel result e', e.run fuel unit = some (result, e')) ∧
    (∀ callee this args, ∃ fuel result e', e.call fuel callee this args = some (result, e')) ∧
    ∀ s₀ s, e.Begins s₀ → e.heap.Lineal e.realm → e.machine.KeepsLines s₀ → e.machine.Reaches s₀ s →
      s.world.heap.Lineal e.realm ∧
        ∀ h name, s.world.heap.Searches name h (s.world.heap.holder? h name) := by
  have hstart : ∀ (w : World) (control : Control),
      ∃ fuel result e', Engine.start ⟨e.machine, w⟩ fuel control = some (result, e') := by
    intro w control
    obtain ⟨fuel, o, ended⟩ := he.forward.run w control
    refine ⟨fuel, o.result, ⟨e.machine, o.world⟩, ?_⟩
    rw [start, ended]
    rfl
  refine ⟨fun unit => ?_, fun callee this args => ?_, fun s₀ s hbegins hheap hkeeps hs => ?_⟩
  · rcases hu : e.machine.units[unit]? with _ | u
    · refine ⟨0, .error (.internal (.unknownUnit unit)), e, ?_⟩
      rw [run, hu]
    · obtain ⟨fuel, result, e', ended⟩ := hstart
        (e.setHeap (u.globals.foldl (declareGlobal e.realm) e.heap)).world
        (.enter .undefined (.script ⟨unit, u.entry, none⟩) e.machine.globalValue [] .push)
      refine ⟨fuel, result, e', ?_⟩
      rw [run, hu]
      exact ended
  · exact hstart e.world _
  · have hlineal := hs.lineal hkeeps (hbegins.lineal hheap)
    exact ⟨hlineal, fun h name => hlineal.acyclic.searches name h⟩

end

/-- A program that calls a function and, if this fails, another one. -/
def callsAgain : Program :=
  ⟨[.tryCatch .none (.block .none [.call .none (.function .none none [] [] false none) []]) none
    (.block .none [.call .none (.function .none none [] [] false none) []])], none, false⟩

/-- Where only one activation is allowed, this program overflows, catches the error and overflows again. -/
theorem loopFree_terminates_callsAgain :
    let e := ((create { maxDepth := 1 }).compile callsAgain).2
    let u := (e.machine.units[0]?).getD default
    let s₀ : State :=
      { world := (e.setHeap (u.globals.foldl (declareGlobal e.realm) e.heap)).world
        control := .enter .undefined (.script ⟨0, u.entry, none⟩) e.machine.globalValue [] .push }
    let s := e.machine.after 10 s₀
    e.LoopFree ∧ e.Begins s₀ ∧ e.heap.Lineal e.realm ∧ e.machine.KeepsLines s₀ ∧
      (e.machine.after 5 s₀).control = .raise (.stackOverflow 1) ∧ s.control = .raise (.stackOverflow 1) ∧
      (∃ fuel result e', e.run fuel 0 = some (result, e')) ∧
      ∀ h name, s.world.heap.Searches name h (s.world.heap.holder? h name) := by
  intro e u s₀ s
  have he : e.LoopFree := (loopFree_create { maxDepth := 1 }).compile (by decide)
  have hu : e.machine.units[0]? = some u := by
    have hsome : e.machine.units[0]?.isSome = true := by decide +kernel
    obtain ⟨u', hu'⟩ := Option.isSome_iff_exists.mp hsome
    simp only [u, hu', Option.getD_some]
  have hheap : e.heap.Lineal e.realm := lineal_compile (lineal_create { maxDepth := 1 }) callsAgain
  have hnone : ∀ k ≤ 11, (match (e.machine.after k s₀).control with
      | .enter _ (.native _) _ _ _ => true
      | _ => false) = false := by decide +kernel
  have hover : ∀ s', e.machine.step (e.machine.after 11 s₀) ≠ .running s' := by
    have hframes : (e.machine.after 11 s₀).frames.length = 0 := by decide +kernel
    have hraise : (e.machine.after 11 s₀).control = .raise (.stackOverflow 1) := by decide +kernel
    exact Machine.step_uncaught (List.length_eq_zero_iff.mp hframes) hraise
  have hkeeps : e.machine.KeepsLines s₀ := by
    intro s hs callee f this args use hcontrol
    obtain ⟨k, hk, rfl⟩ := hs.eq_after hover
    have hcall := hnone k hk
    rw [hcontrol] at hcall
    cases hcall
  obtain ⟨hruns, -, hlines⟩ := loopFree_terminates he
  refine ⟨he, .run hu, hheap, hkeeps, by decide +kernel, by decide +kernel, hruns 0, ?_⟩
  exact (hlines s₀ s (.run hu) hheap hkeeps (e.machine.reaches_after 10 s₀)).2

end Engine

end ScriptEngine
