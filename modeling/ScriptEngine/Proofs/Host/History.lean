import ScriptEngine.Engine
import ScriptEngine.Proofs.Heap.Arena

/-!
# Histories of an engine

What a host can do with an engine, one step after the other: compile, load, run and call code, set and
read globals, register host functions, work on the heap directly, collect garbage, and reset the caches.
Each step gives an answer and the engine it leaves. A step that runs code is given a number of machine
steps, and if these do not suffice it gives nothing; the history ends there.

`Engine.Performs` lists what a step can make of an engine, and `Engine.performs` says that this is all there is.
-/

namespace ScriptEngine

/-- One step of a host. -/
inductive HostStep where
  /-- Compiles a program and loads it. -/
  | compile (p : Program)
  /-- Loads a unit, whatever is in it. -/
  | load (u : CodeUnit)
  /-- Runs a unit. -/
  | run (fuel unit : Nat)
  /-- Compiles and runs a program. -/
  | eval (fuel : Nat) (p : Program)
  /-- Calls any value. -/
  | call (fuel : Nat) (callee this : Value) (args : List Value)
  /-- Reads a global, by its getter if it has one. -/
  | readGlobal (fuel : Nat) (name : String)
  /-- Makes or replaces a global. -/
  | setGlobal (name : String) (v : Value)
  /-- Makes a host function a global under its name. -/
  | registerNative (name : String) (length : Nat) (f : Native)
  /-- Makes a function object of a host function. -/
  | nativeFunction (name : String) (length : Nat) (f : Native)
  /-- Makes an object on the heap. -/
  | allocate (o : Object)
  /-- Makes or replaces a property. -/
  | define (h : Handle) (name : String) (p : Property)
  /-- Writes a property. -/
  | write (h : Handle) (name : String) (v : Value)
  /-- Overwrites a property that is there and writable. -/
  | overwrite (h : Handle) (name : String) (v : Value)
  /-- Removes a property. -/
  | delete (h : Handle) (name : String)
  /-- Collects garbage. -/
  | collect (keep : List Value)
  /-- Forgets what the sites remember. -/
  | resetCaches

/-- What a host is told about a step. -/
inductive HostAnswer where
  /-- The step is done; there is nothing to tell. -/
  | done
  /-- The number of a unit, or why there is none. -/
  | unit (r : Except CompileError Nat)
  /-- The value of a program, or why there is none. -/
  | evaluated (r : Except EvalError Value)
  /-- The value of a run, or the error it ends with. -/
  | result (r : Except RuntimeError Value)
  /-- The handle of a new object. -/
  | handle (h : Handle)
  /-- Whether something was done. -/
  | flag (b : Bool)
  /-- What a write came to. -/
  | written (r : PropertyWrite)
  /-- How many objects were freed. -/
  | freed (n : Nat)

namespace Engine

/-- The engine after a step of its host, and the answer. -/
def perform (e : Engine) : HostStep → Option (HostAnswer × Engine)
  | .compile p =>
    let (r, e) := e.compile p
    some (.unit r, e)
  | .load u =>
    let (unit, e) := e.load u
    some (.unit (.ok unit), e)
  | .run fuel unit => (e.run fuel unit).map fun (r, e) => (.result r, e)
  | .eval fuel p => (e.eval fuel p).map fun (r, e) => (.evaluated r, e)
  | .call fuel callee this args => (e.call fuel callee this args).map fun (r, e) => (.result r, e)
  | .readGlobal fuel name => (e.global fuel name).map fun (r, e) => (.result r, e)
  | .setGlobal name v => some (.done, e.setGlobal name v)
  | .registerNative name length f =>
    let (h, e) := e.registerNative name length f
    some (.handle h, e)
  | .nativeFunction name length f =>
    let (h, e) := e.nativeFunction name length f
    some (.handle h, e)
  | .allocate o =>
    let (h, e) := e.withHeap (·.allocate o)
    some (.handle h, e)
  | .define h name p =>
    let (b, e) := e.withHeap (·.define h name p)
    some (.flag b, e)
  | .write h name v =>
    let (r, e) := e.withHeap (·.write h name v)
    some (.written r, e)
  | .overwrite h name v =>
    match e.heap.overwrite? h name v with
    | some heap => some (.flag true, e.setHeap heap)
    | none => some (.flag false, e)
  | .delete h name =>
    let (b, e) := e.withHeap (·.delete h name)
    some (.flag b, e)
  | .collect keep =>
    let (n, e) := e.collect keep
    some (.freed n, e)
  | .resetCaches => some (.done, e.resetCaches)

/-- What a host can see of an engine after a step: the answer, the heap, and what host functions have
logged. -/
structure Observation where
  /-- The answer. -/
  answer : HostAnswer
  /-- The heap: its objects, their handles and the epoch. -/
  heap : Heap
  /-- The log. -/
  log : Array String

/-- What a host sees, step by step. The history ends early at a step that does not come to an end
within the number of machine steps it was given. -/
def history (e : Engine) : List HostStep → List Observation
  | [] => []
  | step :: rest =>
    match e.perform step with
    | none => []
    | some (answer, e) => ⟨answer, e.heap, e.world.log⟩ :: e.history rest

/-! ## What a step makes of an engine -/

/-- The engines that a step of the host can leave. -/
inductive Performs (e : Engine) : HostStep → Engine → Prop where
  /-- A program is compiled and loaded. -/
  | compile (p : Program) : Performs e (.compile p) (e.compile p).2
  /-- A unit is loaded. -/
  | load (u : CodeUnit) : Performs e (.load u) (e.load u).2
  /-- A unit is run. -/
  | run {fuel unit : Nat} {r : Except RuntimeError Value} {e' : Engine} (h : e.run fuel unit = some (r, e')) :
    Performs e (.run fuel unit) e'
  /-- A program is refused. -/
  | refused {fuel : Nat} {p : Program} {error : CompileError} {e' : Engine}
    (hcompile : e.compile p = (.error error, e')) : Performs e (.eval fuel p) e'
  /-- A program is compiled and run. -/
  | eval {fuel unit : Nat} {p : Program} {r : Except RuntimeError Value} {e₁ e' : Engine}
    (hcompile : e.compile p = (.ok unit, e₁)) (h : e₁.run fuel unit = some (r, e')) :
    Performs e (.eval fuel p) e'
  /-- Any value is called. -/
  | call {fuel : Nat} {callee this : Value} {args : List Value} {r : Except RuntimeError Value} {e' : Engine}
    (h : e.call fuel callee this args = some (r, e')) : Performs e (.call fuel callee this args) e'
  /-- A global without a getter is read. -/
  | readValue {fuel : Nat} {name : String} {v : Value} (hread : e.heap.read e.realm.global name = .value v) :
    Performs e (.readGlobal fuel name) e
  /-- The getter of a global is called. -/
  | readGetter {fuel : Nat} {name : String} {getter : Handle} {r : Except RuntimeError Value} {e' : Engine}
    (hread : e.heap.read e.realm.global name = .getter getter)
    (h : e.call fuel (.object getter) e.machine.globalValue [] = some (r, e')) :
    Performs e (.readGlobal fuel name) e'
  /-- A global is made or replaced. -/
  | setGlobal (name : String) (v : Value) : Performs e (.setGlobal name v)
      (e.setHeap (e.heap.perform (.define e.realm.global name (.data v .default))))
  /-- A host function becomes a global. -/
  | registerNative (name : String) (length : Nat) (f : Native) :
    Performs e (.registerNative name length f) (e.registerNative name length f).2
  /-- A host function gets an object. -/
  | nativeFunction (name : String) (length : Nat) (f : Native) :
    Performs e (.nativeFunction name length f) (e.nativeFunction name length f).2
  /-- An object is made. -/
  | allocate (o : Object) : Performs e (.allocate o) (e.setHeap (e.heap.perform (.allocate o)))
  /-- A property is made or replaced. -/
  | define (h : Handle) (name : String) (p : Property) :
    Performs e (.define h name p) (e.setHeap (e.heap.perform (.define h name p)))
  /-- A property is written. -/
  | write (h : Handle) (name : String) (v : Value) :
    Performs e (.write h name v) (e.setHeap (e.heap.perform (.write h name v)))
  /-- A property is overwritten, if that can be. -/
  | overwrite (h : Handle) (name : String) (v : Value) :
    Performs e (.overwrite h name v) (e.setHeap (e.heap.perform (.overwrite h name v)))
  /-- A property is removed. -/
  | delete (h : Handle) (name : String) :
    Performs e (.delete h name) (e.setHeap (e.heap.perform (.delete h name)))
  /-- Garbage is collected. -/
  | collect (keep : List Value) : Performs e (.collect keep) (e.collect keep).2
  /-- The sites forget. -/
  | resetCaches : Performs e .resetCaches e.resetCaches

variable {e e' : Engine}

/-- **Evaluating a program** that comes to an end: it is refused, or its unit is run. -/
theorem eval_cases {fuel : Nat} {p : Program} {r : Except EvalError Value} (h : e.eval fuel p = some (r, e')) :
    (∃ error, e.compile p = (.error error, e')) ∨
      ∃ unit e₁ r', e.compile p = (.ok unit, e₁) ∧ e₁.run fuel unit = some (r', e') := by
  rw [eval] at h
  split at h
  · next hcompile =>
    obtain ⟨-, rfl⟩ := Prod.mk.inj (Option.some.inj h)
    exact .inl ⟨_, hcompile⟩
  · next hcompile =>
    obtain ⟨⟨r', e₂⟩, hrun, hend⟩ := Option.map_eq_some_iff.mp h
    obtain ⟨-, rfl⟩ := Prod.mk.inj hend
    exact .inr ⟨_, _, r', hcompile, hrun⟩

/-- **A step of the host** that comes to an end leaves one of these. -/
theorem performs {step : HostStep} {a : HostAnswer} (hp : e.perform step = some (a, e')) : e.Performs step e' := by
  -- What is told of a run is no matter.
  have hrun : ∀ {α : Type} {run : Option (α × Engine)} {answer : α → HostAnswer},
      (run.map fun (r, e) => (answer r, e)) = some (a, e') → ∃ r, run = some (r, e') := by
    rintro α run answer h
    obtain ⟨⟨r, e₁⟩, hend, h⟩ := Option.map_eq_some_iff.mp h
    obtain ⟨-, rfl⟩ := Prod.mk.inj h
    exact ⟨r, hend⟩
  cases step with
  | compile p =>
    obtain ⟨-, rfl⟩ := Prod.mk.inj (Option.some.inj hp)
    exact .compile p
  | load u =>
    obtain ⟨-, rfl⟩ := Prod.mk.inj (Option.some.inj hp)
    exact .load u
  | run fuel unit =>
    obtain ⟨r, h⟩ := hrun hp
    exact .run h
  | eval fuel p =>
    obtain ⟨r, h⟩ := hrun hp
    obtain ⟨error, hcompile⟩ | ⟨unit, e₁, r', hcompile, h⟩ := eval_cases h
    · exact .refused hcompile
    · exact .eval hcompile h
  | call fuel callee this args =>
    obtain ⟨r, h⟩ := hrun hp
    exact .call h
  | readGlobal fuel name =>
    obtain ⟨r, h⟩ := hrun hp
    rw [global] at h
    split at h
    · next hread =>
      obtain ⟨-, rfl⟩ := Prod.mk.inj (Option.some.inj h)
      exact .readValue hread
    · next hread => exact .readGetter hread h
  | setGlobal name v =>
    obtain ⟨-, rfl⟩ := Prod.mk.inj (Option.some.inj hp)
    exact .setGlobal name v
  | registerNative name length f =>
    obtain ⟨-, rfl⟩ := Prod.mk.inj (Option.some.inj hp)
    exact .registerNative name length f
  | nativeFunction name length f =>
    obtain ⟨-, rfl⟩ := Prod.mk.inj (Option.some.inj hp)
    exact .nativeFunction name length f
  | allocate o =>
    obtain ⟨-, rfl⟩ := Prod.mk.inj (Option.some.inj hp)
    exact .allocate o
  | define h name p =>
    obtain ⟨-, rfl⟩ := Prod.mk.inj (Option.some.inj hp)
    exact .define h name p
  | write h name v =>
    obtain ⟨-, rfl⟩ := Prod.mk.inj (Option.some.inj hp)
    exact .write h name v
  | overwrite h name v =>
    have hdone := Performs.overwrite (e := e) h name v
    rw [Heap.perform] at hdone
    simp only [perform] at hp
    split at hp
    · next heap hover =>
      obtain ⟨-, rfl⟩ := Prod.mk.inj (Option.some.inj hp)
      rwa [hover] at hdone
    · next hover =>
      obtain ⟨-, rfl⟩ := Prod.mk.inj (Option.some.inj hp)
      rwa [hover] at hdone
  | delete h name =>
    obtain ⟨-, rfl⟩ := Prod.mk.inj (Option.some.inj hp)
    exact .delete h name
  | collect keep =>
    obtain ⟨-, rfl⟩ := Prod.mk.inj (Option.some.inj hp)
    exact .collect keep
  | resetCaches =>
    obtain ⟨-, rfl⟩ := Prod.mk.inj (Option.some.inj hp)
    exact .resetCaches

end Engine

end ScriptEngine
