import ScriptEngine.Compile
import ScriptEngine.Heap.Collect
import ScriptEngine.Machine.Run
import ScriptEngine.Realm.Builtins

/-!
# Engines

An engine owns a heap with the built-in objects and every unit that was loaded into it. Units stay
loaded: a function that one run leaves behind may be called by a later one. Whatever runs code is given
a number of steps, and has no answer if they do not suffice.
-/

namespace ScriptEngine

/-- Why a program gives no value: it cannot be compiled, or its run ends with an error. -/
inductive EvalError where
  /-- The program cannot be compiled. -/
  | compile (e : CompileError)
  /-- The run ends with an error. -/
  | runtime (e : RuntimeError)
  deriving DecidableEq

namespace EvalError

/-- The error in words. -/
def toText : EvalError → String
  | compile e => e.toText
  | runtime e => e.toText

/-- Whether the program cannot be compiled. -/
def isCompile : EvalError → Bool
  | compile _ => true
  | runtime _ => false

/-- Whether the run ends with an error. -/
def isRuntime : EvalError → Bool
  | compile _ => false
  | runtime _ => true

end EvalError

/-- An engine between runs. -/
structure Engine where
  /-- The units, host functions and settings. -/
  machine : Machine
  /-- The objects, environments and caches. -/
  world : World

namespace Engine

/-- A new engine. -/
def create (config : Config) : Engine :=
  let (realm, host) := Realm.create
  { machine := { natives := host.natives, realm, config }, world := { heap := host.heap } }

/-- The heap. -/
def heap (e : Engine) : Heap := e.world.heap

/-- The objects that the machine refers to. -/
def realm (e : Engine) : Realm := e.machine.realm

/-- Replaces the heap. -/
def setHeap (e : Engine) (heap : Heap) : Engine :=
  { e with world := { e.world with heap } }

/-- Applies an operation to the heap. -/
def withHeap {α : Type} (e : Engine) (f : Heap → α × Heap) : α × Engine :=
  let (a, heap) := f e.heap
  (a, e.setHeap heap)

/-- What host functions have logged since the log was last taken. -/
def takeLog (e : Engine) : Array String × Engine :=
  (e.world.log, { e with world := { e.world with log := #[] } })

/-! ## Host bindings -/

/-- Applies a change to the heap and the host functions. -/
def modifyHost (e : Engine) (f : Host → Handle × Host) : Handle × Engine :=
  let (h, host) := f ⟨e.world.heap, e.machine.natives⟩
  (h, { machine := { e.machine with natives := host.natives }
        world := { e.world with heap := host.heap } })

/-- Makes a function object of a host function. -/
def nativeFunction (e : Engine) (name : String) (length : Nat) (f : Native) : Handle × Engine :=
  e.modifyHost (·.function e.realm name length f)

/-- Makes a host function a global under its name. -/
def registerNative (e : Engine) (name : String) (length : Nat) (f : Native) : Handle × Engine :=
  e.modifyHost (·.method e.realm e.realm.global name length f)

/-- Makes or replaces a global. -/
def setGlobal (e : Engine) (name : String) (v : Value) : Engine :=
  e.setHeap (e.heap.define e.realm.global name (.data v .default)).2

/-! ## Units -/

/-- Loads a unit and gives its number. -/
def load (e : Engine) (u : CodeUnit) : Nat × Engine :=
  (e.machine.units.size, { e with machine := { e.machine with units := e.machine.units.push u } })

/-- Compiles a program and loads it. -/
def compile (e : Engine) (p : Program) : Except CompileError Nat × Engine :=
  match (ScriptEngine.compile p).1 with
  | .error error => (.error error, e)
  | .ok c =>
    let (unit, e) := e.load c.unit
    (.ok unit, e)

/-! ## Running -/

/-- Runs from a first step to the end. -/
def start (e : Engine) (fuel : Nat) (control : Control) :
    Option (Except RuntimeError Value × Engine) :=
  match e with
  | ⟨machine, world⟩ =>
    (machine.run fuel { world, control }).map fun o => (o.result, ⟨machine, o.world⟩)

/-- Calls any value. -/
def call (e : Engine) (fuel : Nat) (callee this : Value) (args : List Value) :
    Option (Except RuntimeError Value × Engine) :=
  e.start fuel (.call e.heap callee this args "value" .push)

/-- Reads a global, by its getter if it has one. -/
def global (e : Engine) (fuel : Nat) (name : String) :
    Option (Except RuntimeError Value × Engine) :=
  match e.heap.read e.realm.global name with
  | .value v => some (.ok v, e)
  | .getter h => e.call fuel (.object h) e.machine.globalValue []

/-- Declares a global variable, unless the global object has a property of that name. -/
def declareGlobal (r : Realm) (heap : Heap) (name : String) : Heap :=
  if (heap.own? r.global name).isSome then heap
  else (heap.define r.global name (.data .undefined .declared)).2

/-- Runs a unit and gives the value of its program. Its declarations are made first. -/
def run (e : Engine) (fuel : Nat) (unit : Nat) : Option (Except RuntimeError Value × Engine) :=
  match e.machine.units[unit]? with
  | none => some (.error (.internal (.unknownUnit unit)), e)
  | some u =>
    let e := e.setHeap (u.globals.foldl (declareGlobal e.realm) e.heap)
    e.start fuel
      (.enter .undefined (.script ⟨unit, u.entry, none⟩) e.machine.globalValue [] .push)

/-- Compiles and runs a program. -/
def eval (e : Engine) (fuel : Nat) (p : Program) : Option (Except EvalError Value × Engine) :=
  match e.compile p with
  | (.error error, e) => some (.error (.compile error), e)
  | (.ok unit, e) => (e.run fuel unit).map fun (result, e) => (result.mapError .runtime, e)

/-! ## Garbage and caches -/

/-- Frees the objects that cannot be reached from the realm or the given values, and tells how many
those were. -/
def collect (e : Engine) (keep : List Value) : Nat × Engine :=
  let r := e.realm
  let roots := [r.global, r.objectPrototype, r.functionPrototype] ++ keep.filterMap Value.object?
  let (freed, heap) := e.heap.collect e.world.envs roots
  (freed, e.setHeap heap)

/-- Hits and misses of the sites of all units. -/
def cacheStats (e : Engine) : CacheStats := e.world.caches.stats

/-- Forgets what the sites remember, and their counts. -/
def resetCaches (e : Engine) : Engine :=
  { e with world := { e.world with caches := {} } }

/-- The sites of a unit with the functions they are in, in order, and their caches. -/
def unitSites (e : Engine) (unit : Nat) :
    Option (List (CodeFunction × CallSite × Option InlineCache)) :=
  e.machine.units[unit]?.map fun u =>
    u.functions.toList.zipIdx.flatMap fun (f, i) =>
      f.sites.toList.zipIdx.map fun (site, k) => (f, site, e.world.caches.get? ⟨unit, i, k⟩)

end Engine

end ScriptEngine
