import ScriptEngine.Machine.Execute

/-!
# Runs

A run goes step by step over a stack of frames until the last frame has returned or an error has found
no handler. A program may run for ever, so a run is given a number of steps, and has no result if they
do not suffice; a result, once there, does not depend on that number.

A run counts the activations that are nested. The count goes up when a function of a program is entered and
down when it is left, by a value or by an error, and a function is entered only while the count is below the
limit.
-/

namespace ScriptEngine

/-- A run under way. -/
structure State where
  /-- The world. -/
  world : World
  /-- The activations, the running one first. -/
  frames : List Frame := []
  /-- What comes next. -/
  control : Control
  /-- The count of nested activations. -/
  depth : Nat := 0

/-- How a run ends: with a world, and a value or an error. -/
structure Outcome where
  /-- The world that the run leaves. -/
  world : World
  /-- A value, or an error. -/
  result : Except RuntimeError Value

/-- What a step leads to. -/
inductive Progress where
  /-- The run goes on. -/
  | running (s : State)
  /-- The run has ended. -/
  | finished (o : Outcome)

namespace Machine

/-- Calls a host function. -/
def enterNative (m : Machine) (w : World) (frames : List Frame) (depth : Nat) (f : NativeFunction)
    (this : Value) (args : List Value) (resume : Resume) : State :=
  match w with
  | ⟨heap, envs, caches, log⟩ =>
    let reply := m.natives.run f.id ⟨heap, this, args⟩
    let w := ⟨reply.heap, envs, caches, log ++ reply.log.toArray⟩
    match reply.result with
    | .ok v => ⟨w, frames, .deliver resume v, depth⟩
    | .error e => ⟨w, frames, .raise e, depth⟩

/-- Calls a function of a program, unless as many activations as are allowed are nested already. -/
def enterScript (m : Machine) (w : World) (frames : List Frame) (depth : Nat) (callee : Value)
    (c : Closure) (this : Value) (args : List Value) (resume : Resume) : State :=
  if m.config.maxDepth ≤ depth then
    ⟨w, frames, .raise (.stackOverflow m.config.maxDepth), depth⟩
  else
    match m.code c.unit c.index with
    -- A function that is not there is left as soon as it is entered.
    | .error e => ⟨w, frames, .raise (.internal e), depth⟩
    | .ok (_, function) =>
      match w with
      | ⟨heap, envs, caches, log⟩ =>
        let (f, envs) := Frame.activate function c callee this args resume envs
        ⟨⟨heap, envs, caches, log⟩, f :: frames, .execute, depth + 1⟩

/-- Gives a frame the value it has been waiting for. -/
def resumeWith (w : World) (f : Frame) (rest : List Frame) (depth : Nat) (v : Value) : Resume → State
  | .push => ⟨w, f.push v :: rest, .execute, depth⟩
  | .discard => ⟨w, f :: rest, .execute, depth⟩
  | .pushInstead other => ⟨w, f.push other :: rest, .execute, depth⟩
  | .callWith this args what => ⟨w, f :: rest, .call w.heap v this args what .push, depth⟩

/-- Looks for a handler of an error in a frame; without one the frame is left. -/
def unwind (m : Machine) (w : World) (f : Frame) (rest : List Frame) (depth : Nat) (e : RuntimeError) :
    State :=
  match f.handlers with
  | [] => ⟨w, rest, .raise e, depth - 1⟩
  | h :: outer =>
    if e.isCatchable then
      match w with
      | ⟨heap, envs, caches, log⟩ =>
        let (v, heap) := m.realm.caughtValue heap e
        ⟨⟨heap, envs, caches, log⟩, f.catchIn h outer v :: rest, .execute, depth⟩
    else ⟨w, rest, .raise e, depth - 1⟩

/-- One step of a run. -/
def step (m : Machine) : State → Progress
  | ⟨w, frames, .enter callee target this args resume, depth⟩ =>
    match target with
    | .native f => .running (m.enterNative w frames depth f this args resume)
    | .script c => .running (m.enterScript w frames depth callee c this args resume)
  | ⟨w, [], .execute, _⟩ => .finished ⟨w, .ok .undefined⟩
  | ⟨w, [], .deliver _ v, _⟩ => .finished ⟨w, .ok v⟩
  | ⟨w, [], .ret v, _⟩ => .finished ⟨w, .ok v⟩
  | ⟨w, [], .raise e, _⟩ => .finished ⟨w, .error e⟩
  | ⟨w, f :: rest, .execute, depth⟩ =>
    let turn := m.advance w f
    .running ⟨turn.world, turn.frame :: rest, turn.control, depth⟩
  | ⟨w, f :: rest, .deliver resume v, depth⟩ => .running (resumeWith w f rest depth v resume)
  | ⟨w, f :: rest, .ret v, depth⟩ => .running ⟨w, rest, .deliver f.resume v, depth - 1⟩
  | ⟨w, f :: rest, .raise e, depth⟩ => .running (m.unwind w f rest depth e)

/-- Runs to the end, within a number of steps. -/
def run (m : Machine) : Nat → State → Option Outcome
  | 0, _ => none
  | fuel + 1, s =>
    match m.step s with
    | .running s => m.run fuel s
    | .finished o => some o

/-- More steps than enough change nothing. -/
theorem run_add {m : Machine} {fuel : Nat} {s : State} {o : Outcome} (ended : m.run fuel s = some o)
    (extra : Nat) : m.run (fuel + extra) s = some o := by
  induction fuel generalizing s with
  | zero => simp [run] at ended
  | succ fuel ih =>
    rw [Nat.succ_add]
    rw [run] at ended ⊢
    split
    · next s' running => exact ih (by simpa [running] using ended)
    · next o' finished => simpa [finished] using ended

end Machine

end ScriptEngine
