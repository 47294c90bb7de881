import ScriptEngine.Proofs.Machine.Termination

/-!
# Nested activations

How many activations are nested in a run. The count that the run keeps goes up when an activation begins, and
down when one returns or an error leaves it; it is always the number of frames (`State.Tallied`) and never
passes the limit. A call leaves the frames of its caller alone: until it comes back all activations of the
call lie over them (`State.Inside`), and when it comes back, with a value or an error, they are what is left
(`State.Back`). All of this is read off what a step can do, which is said once (`Machine.Shifts`). The main
statement is `Machine.depth_balances`.
-/

namespace ScriptEngine

/-! ## The error of the limit -/

/-- The error is that too many activations are nested. -/
def RuntimeError.IsOverflow : RuntimeError → Prop
  | .stackOverflow _ => True
  | _ => False

/-- That too many activations are nested is being raised. -/
def Control.Overflows : Control → Prop
  | .raise e => e.IsOverflow
  | _ => False

/-- Host functions that never report too many activations themselves. -/
def Natives.RaiseNoOverflow (ns : Natives) : Prop :=
  ∀ id call d, (ns.run id call).result ≠ .error (.stackOverflow d)

namespace Control

/-- A call is no such error. -/
theorem not_overflows_call (heap : Heap) (callee this : Value) (args : List Value) (what : String)
    (r : Resume) : ¬(Control.call heap callee this args what r).Overflows := by
  rw [Control.call]
  split
  · exact id
  · exact id

/-- Nor is what follows a read. -/
theorem not_overflows_afterRead (heap : Heap) (this : Value) (r : Resume) (read : PropertyRead) :
    ¬(Control.afterRead heap this r read).Overflows := by
  cases read with
  | value v => exact id
  | getter h => exact not_overflows_call _ _ _ _ _ _

/-- Nor is what follows a write. -/
theorem not_overflows_afterWrite (heap : Heap) (this v : Value) (r : Resume) (write : PropertyWrite) :
    ¬(Control.afterWrite heap this v r write).Overflows := by
  cases write with
  | setter h => exact not_overflows_call _ _ _ _ _ _
  | stored => exact id
  | ignored => exact id

end Control

/-- A value that is no object has the wrong type if it cannot be read of. -/
theorem Realm.readPrimitive_error {r : Realm} {heap : Heap} {v : Value} {name : String} {e : RuntimeError}
    (h : r.readPrimitive heap v name = .error e) : ∃ message, e = .typeError message := by
  unfold Realm.readPrimitive at h
  split at h
  · exact ⟨_, (Except.error.inj h).symm⟩
  · split at h
    · split at h
      · cases h
      · cases h
    · cases h

namespace Machine

variable {m : Machine} {w w' : World} {id : SiteId} {receiver : Value} {name : String} {e : RuntimeError}

/-- A value has the wrong type if it cannot be read of. -/
theorem readMember_error {access : Access} (h : m.readMember w id access receiver name = (.error e, w')) :
    ∃ message, e = .typeError message := by
  rw [readMember.eq_def] at h
  split at h
  · split at h
    · cases h
    · cases h
  · exact Realm.readPrimitive_error (Prod.mk.inj h).1

/-- A value has the wrong type if it cannot be written to. -/
theorem writeMember_error {v : Value} (h : m.writeMember w id receiver name v = (.error e, w')) :
    ∃ message, e = .typeError message := by
  rw [writeMember.eq_def] at h
  split at h
  · cases h
  · split at h
    · exact ⟨_, (Except.error.inj (Prod.mk.inj h).1).symm⟩
    · cases h

end Machine

/-- **No instruction raises it**: only a call can. -/
theorem Machine.not_overflows_execute (m : Machine) (w : World) (f : Frame) (i : Instruction) :
    ¬(m.execute w f i).control.Overflows := by
  have h := m.executes w f i
  generalize m.execute w f i = t at h ⊢
  cases h with
  | getGlobal | getName | callName | getMember | invokeMember => exact Control.not_overflows_afterRead _ _ _ _
  | setGlobal | setName | setMember => exact Control.not_overflows_afterWrite _ _ _ _ _
  | call => exact Control.not_overflows_call _ _ _ _ _ _
  | getMemberError _ hread | invokeMemberError hread =>
    obtain ⟨message, rfl⟩ := Machine.readMember_error hread
    exact id
  | setMemberError _ hwrite =>
    obtain ⟨message, rfl⟩ := Machine.writeMember_error hwrite
    exact id
  | _ => exact id

/-- The next instruction of a frame does not raise it either. -/
theorem Machine.not_overflows_advance (m : Machine) (w : World) (f : Frame) :
    ¬(m.advance w f).control.Overflows := by
  rw [advance]
  split
  · exact id
  · split
    · exact id
    · exact id
    · exact m.not_overflows_execute _ _ _

/-! ## What a step does to the frames and the count -/

/-- A function of a program is called. -/
def State.CallsScript (s : State) : Prop :=
  ∃ callee c this args use, s.control = .enter callee (.script c) this args use

/-- The count is the number of frames. -/
def State.Tallied (s : State) : Prop := s.depth = s.frames.length

/-- A run is inside a call that was made from some frames: its activations lie over them, and the lowest
one knows what its caller does with the value. -/
def State.Inside (s : State) (base : List Frame) (use : Resume) : Prop :=
  ∃ inner f, s.frames = inner ++ f :: base ∧ f.resume = use

/-- A call has come back to the frames that it was made from. -/
structure State.Back (s : State) (base : List Frame) (use : Resume) : Prop where
  /-- The frames are those that there were. -/
  frames : s.frames = base
  /-- What comes next is the value or the error. -/
  answer : s.control.IsAnswer use

namespace Machine

/-- What a step does to the frames and the count, and what comes next. -/
inductive Shifts (m : Machine) (s s' : State) : Prop
  /-- A host function answers. -/
  | native {callee : Value} {f : NativeFunction} {this : Value} {args : List Value} {use : Resume}
      (call : s.control = .enter callee (.native f) this args use) (frames : s'.frames = s.frames)
      (depth : s'.depth = s.depth) (answer : s'.control.IsAnswer use)
      (reply : ∀ e, s'.control = .raise e → (m.natives.run f.id ⟨s.world.heap, this, args⟩).result = .error e)
  /-- A function is called at the limit. -/
  | limit {callee : Value} {c : Closure} {this : Value} {args : List Value} {use : Resume}
      (call : s.control = .enter callee (.script c) this args use) (full : m.config.maxDepth ≤ s.depth)
      (frames : s'.frames = s.frames) (depth : s'.depth = s.depth)
      (next : s'.control = .raise (.stackOverflow m.config.maxDepth))
  /-- There is no code of the function that is called. -/
  | missing {callee : Value} {c : Closure} {this : Value} {args : List Value} {use : Resume} {fault : Fault}
      (call : s.control = .enter callee (.script c) this args use) (room : s.depth < m.config.maxDepth)
      (frames : s'.frames = s.frames) (depth : s'.depth = s.depth) (next : s'.control = .raise (.internal fault))
  /-- An activation begins. -/
  | begins {callee : Value} {c : Closure} {this : Value} {args : List Value} {use : Resume} {f : Frame}
      (call : s.control = .enter callee (.script c) this args use) (room : s.depth < m.config.maxDepth)
      (frames : s'.frames = f :: s.frames) (depth : s'.depth = s.depth + 1) (resume : f.resume = use)
      (next : s'.control = .execute)
  /-- The running activation executes an instruction, or gets a value. -/
  | goes {f f' : Frame} {rest : List Frame} (before : s.frames = f :: rest)
      (control : s.control = .execute ∨ ∃ use v, s.control = .deliver use v)
      (frames : s'.frames = f' :: rest) (depth : s'.depth = s.depth) (resume : f'.resume = f.resume)
      (next : ¬s'.control.Overflows)
  /-- It returns a value. -/
  | returns {f : Frame} {v : Value} (before : s.frames = f :: s'.frames) (control : s.control = .ret v)
      (depth : s'.depth = s.depth - 1) (next : s'.control = .deliver f.resume v)
  /-- It takes an error. -/
  | catches {f f' : Frame} {rest : List Frame} {e : RuntimeError} (before : s.frames = f :: rest)
      (control : s.control = .raise e) (frames : s'.frames = f' :: rest) (depth : s'.depth = s.depth)
      (resume : f'.resume = f.resume) (next : s'.control = .execute)
  /-- It leaves an error to its caller. -/
  | fails {f : Frame} {e : RuntimeError} (before : s.frames = f :: s'.frames) (control : s.control = .raise e)
      (depth : s'.depth = s.depth - 1) (next : s'.control = .raise e)

section

variable {m : Machine} {w : World} {frames : List Frame} {depth : Nat}

/-- A host function is called. -/
theorem shifts_enterNative (callee : Value) (f : NativeFunction) (this : Value) (args : List Value)
    (use : Resume) :
    m.Shifts ⟨w, frames, .enter callee (.native f) this args use, depth⟩
      (m.enterNative w frames depth f this args use) := by
  rw [enterNative]
  split
  · exact .native rfl rfl rfl (.value _) fun e he => by cases he
  · next e he =>
    refine .native rfl rfl rfl (.error e) fun e' he' => ?_
    obtain rfl := Control.raise.inj he'
    exact he

/-- A function of a program is called. -/
theorem shifts_enterScript (callee : Value) (c : Closure) (this : Value) (args : List Value) (use : Resume) :
    m.Shifts ⟨w, frames, .enter callee (.script c) this args use, depth⟩
      (m.enterScript w frames depth callee c this args use) := by
  rw [enterScript]
  split
  · next hfull => exact .limit rfl hfull rfl rfl rfl
  · next hroom =>
    split
    · exact .missing rfl (Nat.lt_of_not_le hroom) rfl rfl rfl
    · exact .begins rfl (Nat.lt_of_not_le hroom) rfl rfl rfl rfl

variable {f : Frame} {rest : List Frame}

/-- The running activation executes an instruction. -/
theorem shifts_advance : m.Shifts ⟨w, f :: rest, .execute, depth⟩
    ⟨(m.advance w f).world, (m.advance w f).frame :: rest, (m.advance w f).control, depth⟩ := by
  refine .goes rfl (.inl rfl) rfl rfl ?_ (m.not_overflows_advance w f)
  rw [advance]
  split
  · rfl
  · split
    · rfl
    · rfl
    · exact (m.goes_execute _ _ _).frame.activation.2.2

/-- It gets a value. -/
theorem shifts_resumeWith (use : Resume) (v : Value) :
    m.Shifts ⟨w, f :: rest, .deliver use v, depth⟩ (resumeWith w f rest depth v use) := by
  cases use with
  | push => exact .goes rfl (.inr ⟨_, _, rfl⟩) rfl rfl rfl id
  | discard => exact .goes rfl (.inr ⟨_, _, rfl⟩) rfl rfl rfl id
  | pushInstead other => exact .goes rfl (.inr ⟨_, _, rfl⟩) rfl rfl rfl id
  | callWith this args what =>
    exact .goes rfl (.inr ⟨_, _, rfl⟩) rfl rfl rfl (Control.not_overflows_call _ _ _ _ _ _)

/-- An error comes to it. -/
theorem shifts_unwind (e : RuntimeError) :
    m.Shifts ⟨w, f :: rest, .raise e, depth⟩ (m.unwind w f rest depth e) := by
  rw [unwind]
  split
  · exact .fails rfl rfl rfl rfl
  · split
    · exact .catches rfl rfl rfl rfl rfl rfl
    · exact .fails rfl rfl rfl rfl

/-- **What a step does to the frames and the count.** A run is only over when no frames are left
and nothing is called. -/
theorem shifts_or_over (m : Machine) (s : State) :
    (∃ s', m.step s = .running s' ∧ m.Shifts s s') ∨
      (∃ o, m.step s = .finished o) ∧ s.frames = [] ∧
        ∀ callee target this args use, s.control ≠ .enter callee target this args use := by
  obtain ⟨w, frames, control, depth⟩ := s
  cases control with
  | enter callee target this args use =>
    cases target with
    | native f => exact .inl ⟨_, rfl, shifts_enterNative callee f this args use⟩
    | script c => exact .inl ⟨_, rfl, shifts_enterScript callee c this args use⟩
  | execute =>
    cases frames with
    | nil => exact .inr ⟨⟨_, rfl⟩, rfl, fun _ _ _ _ _ h => by cases h⟩
    | cons f rest => exact .inl ⟨_, rfl, shifts_advance⟩
  | deliver use v =>
    cases frames with
    | nil => exact .inr ⟨⟨_, rfl⟩, rfl, fun _ _ _ _ _ h => by cases h⟩
    | cons f rest => exact .inl ⟨_, rfl, shifts_resumeWith use v⟩
  | ret v =>
    cases frames with
    | nil => exact .inr ⟨⟨_, rfl⟩, rfl, fun _ _ _ _ _ h => by cases h⟩
    | cons f rest => exact .inl ⟨_, rfl, .returns rfl rfl rfl rfl⟩
  | raise e =>
    cases frames with
    | nil => exact .inr ⟨⟨_, rfl⟩, rfl, fun _ _ _ _ _ h => by cases h⟩
    | cons f rest => exact .inl ⟨_, rfl, shifts_unwind e⟩

end

namespace Shifts

variable {m : Machine} {s s' : State}

/-- **The count** stays the number of frames. -/
theorem tallied (h : m.Shifts s s') (hs : s.Tallied) : s'.Tallied := by
  rw [State.Tallied] at hs ⊢
  cases h with
  | native _ frames depth | limit _ _ frames depth | missing _ _ frames depth =>
    rw [depth, frames, hs]
  | begins _ _ frames depth => rw [depth, frames, hs, List.length_cons]
  | goes before _ frames depth | catches before _ frames depth =>
    rw [depth, frames, hs, before, List.length_cons, List.length_cons]
  | returns before _ depth | fails before _ depth =>
    rw [depth, hs, before, List.length_cons, Nat.add_sub_cancel]

/-- **The limit** is kept. -/
theorem depth_le (h : m.Shifts s s') (hs : s.depth ≤ m.config.maxDepth) : s'.depth ≤ m.config.maxDepth := by
  cases h with
  | native _ _ depth | limit _ _ _ depth | missing _ _ _ depth | goes _ _ _ depth | catches _ _ _ depth =>
    rw [depth]
    exact hs
  | begins _ room _ depth =>
    rw [depth]
    exact room
  | returns _ _ depth | fails _ _ depth =>
    rw [depth]
    exact Nat.le_trans (Nat.sub_le ..) hs

/-- **A call** comes back at once, or an activation begins over the frames of its caller. -/
theorem of_call (h : m.Shifts s s') {callee : Value} {target : Callable} {this : Value} {args : List Value}
    {use : Resume} (hcall : s.control = .enter callee target this args use) :
    s'.Inside s.frames use ∨ s'.Back s.frames use := by
  cases h with
  | native call frames _ answer =>
    obtain ⟨-, -, -, -, rfl⟩ := Control.enter.inj (hcall.symm.trans call)
    exact .inr ⟨frames, answer⟩
  | limit _ _ frames _ next | missing _ _ frames _ next =>
    refine .inr ⟨frames, ?_⟩
    rw [next]
    exact .error _
  | begins call _ frames _ resume =>
    obtain ⟨-, -, -, -, rfl⟩ := Control.enter.inj (hcall.symm.trans call)
    exact .inl ⟨[], _, frames, resume⟩
  | goes _ control =>
    rcases control with control | ⟨_, _, control⟩
    · cases hcall.symm.trans control
    · cases hcall.symm.trans control
  | returns _ control | catches _ control | fails _ control => cases hcall.symm.trans control

/-- **Inside a call** the frames of its caller stay where they are until it comes back. -/
theorem of_inside (h : m.Shifts s s') {base : List Frame} {use : Resume} (hs : s.Inside base use) :
    s'.Inside base use ∨ s'.Back base use := by
  obtain ⟨inner, g, hframes, rfl⟩ := hs
  cases h with
  | native _ frames | limit _ _ frames | missing _ _ frames =>
    exact .inl ⟨inner, g, frames.trans hframes, rfl⟩
  | @begins _ _ _ _ _ f _ _ frames => exact .inl ⟨f :: inner, g, by rw [frames, hframes]; rfl, rfl⟩
  | @goes f f' _ before _ frames _ resume | @catches f f' _ _ before _ frames _ resume =>
    -- The lowest activation of the call may be the running one.
    rw [before] at hframes
    cases inner with
    | nil =>
      obtain ⟨rfl, rfl⟩ := List.cons.inj hframes
      exact .inl ⟨[], f', frames, resume⟩
    | cons _ inner =>
      obtain ⟨-, rfl⟩ := List.cons.inj hframes
      exact .inl ⟨f' :: inner, g, frames, rfl⟩
  | returns before _ _ next =>
    rw [before] at hframes
    cases inner with
    | nil =>
      obtain ⟨rfl, hbase⟩ := List.cons.inj hframes
      refine .inr ⟨hbase, ?_⟩
      rw [next]
      exact .value _
    | cons _ inner => exact .inl ⟨inner, g, (List.cons.inj hframes).2, rfl⟩
  | fails before _ _ next =>
    rw [before] at hframes
    cases inner with
    | nil =>
      obtain ⟨rfl, hbase⟩ := List.cons.inj hframes
      refine .inr ⟨hbase, ?_⟩
      rw [next]
      exact .error _
    | cons _ inner => exact .inl ⟨inner, g, (List.cons.inj hframes).2, rfl⟩

/-- At the limit a function of a program is refused. -/
theorem of_full (h : m.Shifts s s') (hcall : s.CallsScript) (hfull : m.config.maxDepth ≤ s.depth) :
    s'.control = .raise (.stackOverflow m.config.maxDepth) := by
  obtain ⟨callee, c, this, args, use, hcall⟩ := hcall
  cases h with
  | native call => cases hcall.symm.trans call
  | limit _ _ _ _ next => exact next
  | missing _ room | begins _ room => exact absurd hfull (Nat.not_le_of_lt room)
  | goes _ control =>
    rcases control with control | ⟨_, _, control⟩
    · cases hcall.symm.trans control
    · cases hcall.symm.trans control
  | returns _ control | catches _ control | fails _ control => cases hcall.symm.trans control

/-- Nothing else raises the error of the limit anew. -/
theorem of_overflow (h : m.Shifts s s') (hnatives : m.natives.RaiseNoOverflow) {d : Nat}
    (hraise : s'.control = .raise (.stackOverflow d)) (hnew : s.control ≠ .raise (.stackOverflow d)) :
    s.CallsScript ∧ m.config.maxDepth ≤ s.depth ∧ d = m.config.maxDepth := by
  cases h with
  | native _ _ _ _ reply => exact absurd (reply _ hraise) (hnatives _ _ d)
  | limit call full _ _ next =>
    have herror := Control.raise.inj (hraise.symm.trans next)
    exact ⟨⟨_, _, _, _, _, call⟩, full, RuntimeError.stackOverflow.inj herror⟩
  | missing _ _ _ _ next => cases hraise.symm.trans next
  | begins _ _ _ _ _ next | returns _ _ _ next | catches _ _ _ _ _ next => cases hraise.symm.trans next
  | goes _ _ _ _ _ next =>
    rw [hraise] at next
    exact absurd trivial next
  | fails _ control _ next =>
    -- An error that is passed on has been raised before.
    rw [← next, hraise] at control
    exact absurd control hnew

end Shifts

/-! ## Runs -/

variable {m : Machine}

/-- **Each step of a run** moves the frames, unless the run is over. -/
theorem after_shifts (m : Machine) (n : Nat) (s : State) :
    m.Shifts (m.after n s) (m.after (n + 1) s) ∨
      m.after (n + 1) s = m.after n s ∧ (m.after n s).frames = [] ∧
        ∀ callee target this args use, (m.after n s).control ≠ .enter callee target this args use := by
  rw [after_succ]
  obtain ⟨s', hstep, hshifts⟩ | ⟨⟨o, hstep⟩, hframes, hcall⟩ := m.shifts_or_over (m.after n s)
  · refine .inl ?_
    rw [after_of_running hstep]
    exact hshifts
  · exact .inr ⟨after_of_finished hstep 1, hframes, hcall⟩

/-- **The count is the number of frames** throughout a run, and no more activations are nested than allowed. -/
theorem tallied_after {s : State} (hs : s.Tallied) (hle : s.depth ≤ m.config.maxDepth) (n : Nat) :
    (m.after n s).Tallied ∧ (m.after n s).depth ≤ m.config.maxDepth := by
  induction n with
  | zero => exact ⟨hs, hle⟩
  | succ n ih =>
    obtain hshifts | ⟨hsame, -, -⟩ := m.after_shifts n s
    · exact ⟨hshifts.tallied ih.1, hshifts.depth_le ih.2⟩
    · rw [hsame]
      exact ih

/-- **Until a call comes back** a run stays inside it: by induction on the number of steps. -/
theorem inside_or_back {s₀ : State} {n : Nat} {callee : Value} {target : Callable} {this : Value}
    {args : List Value} {use : Resume} (hcall : (m.after n s₀).control = .enter callee target this args use)
    (k : Nat) :
    (∀ i, n < i → i ≤ k → (m.after i s₀).Inside (m.after n s₀).frames use) ∨
      ∃ j, n < j ∧ j ≤ k ∧ (m.after j s₀).Back (m.after n s₀).frames use ∧
        ∀ i, n < i → i < j → (m.after i s₀).Inside (m.after n s₀).frames use := by
  induction k with
  | zero => exact .inl fun i hi hk => absurd (Nat.lt_of_lt_of_le hi hk) (Nat.not_lt_zero n)
  | succ k ih =>
    obtain hinside | ⟨j, hj, hk, hback, hinside⟩ := ih
    · -- The next step begins the call, goes on inside it, or comes before it.
      have hnext : n ≤ k → (m.after (k + 1) s₀).Inside (m.after n s₀).frames use ∨
          (m.after (k + 1) s₀).Back (m.after n s₀).frames use := by
        intro hle
        obtain rfl | hlt := Nat.eq_or_lt_of_le hle
        · obtain hshifts | ⟨-, -, hnone⟩ := m.after_shifts n s₀
          · exact hshifts.of_call hcall
          · exact absurd hcall (hnone _ _ _ _ _)
        · have hk := hinside k hlt (Nat.le_refl k)
          obtain hshifts | ⟨-, hnone, -⟩ := m.after_shifts k s₀
          · exact hshifts.of_inside hk
          · obtain ⟨inner, f, hframes, -⟩ := hk
            exact absurd (hframes.symm.trans hnone) (by simp)
      by_cases hle : n ≤ k
      · obtain hnow | hback := hnext hle
        · refine .inl fun i hi hik => ?_
          obtain rfl | hlt := Nat.eq_or_lt_of_le hik
          · exact hnow
          · exact hinside i hi (Nat.le_of_lt_succ hlt)
        · exact .inr ⟨k + 1, Nat.lt_succ_of_le hle, Nat.le_refl _, hback,
            fun i hi hik => hinside i hi (Nat.le_of_lt_succ hik)⟩
      · exact .inl fun i hi hik => absurd (Nat.le_of_lt_succ (Nat.lt_of_lt_of_le hi hik)) hle
    · exact .inr ⟨j, hj, Nat.le_succ_of_le hk, hback, hinside⟩

/-- **The depth of calls is bounded and restored.** Take any machine, with any code, host functions and
limit, and any run that starts without frames, as all runs of units and calls by the host do.

* At every moment the count that the run keeps is the number of activations that are nested, and not above
  the limit.
* Every call of a function, of a program or of the host, from an instruction, an accessor or a name: until
  it comes back the run is inside it. It comes back, with a value or an error, to the very frames that it was
  made from, and the count is what it was before.
* If no host function reports this error itself, then it is raised anew exactly where a function of a program
  is called while as many activations as are allowed are nested, and it tells the limit. -/
theorem depth_balances (m : Machine) (w : World) (control : Control) :
    let s := fun n => m.after n { world := w, control }
    (∀ n, (s n).depth = (s n).frames.length ∧ (s n).frames.length ≤ m.config.maxDepth) ∧
    (∀ n callee target this args use, (s n).control = .enter callee target this args use → ∀ k,
      (∀ i, n < i → i ≤ k → (s i).Inside (s n).frames use) ∨
        ∃ j, n < j ∧ j ≤ k ∧ (s j).Back (s n).frames use ∧ (s j).depth = (s n).depth ∧
          ∀ i, n < i → i < j → (s i).Inside (s n).frames use) ∧
    (m.natives.RaiseNoOverflow → ∀ n d,
      (s (n + 1)).control = .raise (.stackOverflow d) ∧ (s n).control ≠ .raise (.stackOverflow d) ↔
        (s n).CallsScript ∧ (s n).frames.length = m.config.maxDepth ∧ d = m.config.maxDepth) := by
  intro s
  have hstart : State.Tallied { world := w, control } := rfl
  have hcount : ∀ n, (s n).depth = (s n).frames.length := fun n => (tallied_after hstart (Nat.zero_le _) n).1
  have hbound : ∀ n, (s n).depth ≤ m.config.maxDepth := fun n => (tallied_after hstart (Nat.zero_le _) n).2
  refine ⟨fun n => ⟨hcount n, hcount n ▸ hbound n⟩, ?_, ?_⟩
  · intro n callee target this args use hcall k
    obtain hinside | ⟨j, hj, hk, hback, hinside⟩ := inside_or_back hcall k
    · exact .inl hinside
    · refine .inr ⟨j, hj, hk, hback, ?_, hinside⟩
      rw [hcount, hcount]
      exact congrArg List.length hback.frames
  · intro hnatives n d
    rw [← hcount]
    obtain hshifts | ⟨hsame, -, hnone⟩ := m.after_shifts n { world := w, control }
    · constructor
      · rintro ⟨hraise, hnew⟩
        obtain ⟨hcall, hfull, hd⟩ := hshifts.of_overflow hnatives hraise hnew
        exact ⟨hcall, Nat.le_antisymm (hbound n) hfull, hd⟩
      · rintro ⟨hcall, hfull, rfl⟩
        refine ⟨hshifts.of_full hcall (Nat.le_of_eq hfull.symm), ?_⟩
        obtain ⟨_, _, _, _, _, hcall⟩ := hcall
        rw [hcall]
        exact Control.noConfusion
    · constructor
      · rintro ⟨hraise, hnew⟩
        rw [show s (n + 1) = s n from hsame] at hraise
        exact absurd hraise hnew
      · rintro ⟨⟨_, _, _, _, _, hcall⟩, -, -⟩
        exact absurd hcall (hnone _ _ _ _ _)

end Machine

/-- The built-in functions leave this error to the machine. -/
theorem Realm.natives_raiseNoOverflow : Realm.create.2.natives.RaiseNoOverflow := by
  refine Realm.native_cases (P := fun f => ∀ call d, (f call).result ≠ .error (.stackOverflow d))
    ?none ?valueOf ?hasOwnProperty ?create ?getPrototypeOf ?eval
  case none | valueOf | eval => exact fun call d h => by cases h
  case hasOwnProperty =>
    intro call d
    simp only [Builtin.hasOwnProperty]
    split
    · exact fun h => by cases h
    · exact fun h => by cases h
  case create =>
    intro call d
    simp only [Builtin.create]
    split
    · exact fun h => by cases h
    · exact fun h => by cases h
    · exact fun h => by cases h
  case getPrototypeOf =>
    intro call d
    simp only [Builtin.getPrototypeOf]
    split
    · split
      · exact fun h => by cases h
      · exact fun h => by cases h
    · exact fun h => by cases h

/-- Compiling brings in no host functions. -/
theorem Engine.natives_compile (e : Engine) (p : Program) :
    (e.compile p).2.machine.natives = e.machine.natives := by
  rw [Engine.compile]
  split
  · rfl
  · rfl

/-- A program that calls a function, which calls another one, and takes any error. -/
def nestsCalls : Program :=
  ⟨[.tryCatch .none
      (.block .none [.call .none (.function .none none [] [.call .none (.function .none none [] [] false none) []]
        false none) []])
      none (.block .none [])], none, false⟩

/-- Where two activations are allowed, the call of the second function is refused. The call of the first one
fails with it, and comes back to the program at the depth that it was made at. -/
theorem Engine.depth_balances_nestsCalls :
    let e := ((create { maxDepth := 2 }).compile nestsCalls).2
    let u := (e.machine.units[0]?).getD default
    let w := (e.setHeap (u.globals.foldl (declareGlobal e.realm) e.heap)).world
    let control := Control.enter .undefined (.script ⟨0, u.entry, none⟩) e.machine.globalValue [] .push
    let s := fun n => e.machine.after n { world := w, control }
    e.machine.natives.RaiseNoOverflow ∧ (s 8).control = .raise (.stackOverflow 2) ∧ (s 7).CallsScript ∧
      (s 7).frames.length = 2 ∧
        ∃ use j, 4 < j ∧ j ≤ 9 ∧ (s j).Back (s 4).frames use ∧ (s j).depth = (s 4).depth := by
  intro e u w control s
  have hnatives : e.machine.natives.RaiseNoOverflow := by
    rw [natives_compile (create { maxDepth := 2 }) nestsCalls]
    exact Realm.natives_raiseNoOverflow
  have hlimit : e.machine.config.maxDepth = 2 := by decide +kernel
  have hraise : (s 8).control = .raise (.stackOverflow 2) := by decide +kernel
  have hnew : (s 7).control ≠ .raise (.stackOverflow 2) := by decide +kernel
  have henter : (match (s 4).control with
      | .enter .. => true
      | _ => false) = true := by decide +kernel
  have hframes : (s 9).frames.length = (s 4).frames.length := by decide +kernel
  have hbalances := e.machine.depth_balances w control
  -- The rest follows from these facts, without running the program once more.
  clear_value e u w control
  obtain ⟨-, hcalls, hoverflow⟩ := hbalances
  obtain ⟨hcall, hdepth, -⟩ := (hoverflow hnatives 7 2).mp ⟨hraise, hnew⟩
  refine ⟨hnatives, hraise, hcall, hlimit ▸ hdepth, ?_⟩
  split at henter
  · next callee target this args use hcall =>
    obtain hinside | ⟨j, hj, hk, hback, hsame, -⟩ := hcalls 4 callee target this args use hcall 9
    · obtain ⟨inner, f, hlonger, -⟩ := hinside 9 (by decide) (Nat.le_refl 9)
      rw [show (s 9).frames = inner ++ f :: (s 4).frames from hlonger, List.length_append,
        List.length_cons] at hframes
      omega
    · exact ⟨use, j, hj, hk, hback, hsame⟩
  · cases henter

end ScriptEngine
