import ScriptEngine.Native
import ScriptEngine.Realm
import ScriptEngine.CallSite.Caches
import ScriptEngine.Code.Unit
import ScriptEngine.Environment.Lookup

/-!
# What a run works on

While code runs, its *world* changes: the heap, the environments, the caches of the sites, and the
host's log. The units, the host functions and the settings stay as they are; together they are the
*machine*.
-/

namespace ScriptEngine

/-- Settings of an engine. -/
structure Config where
  /-- How many activations may be nested. -/
  maxDepth : Nat := 200
  /-- How sites use their caches. -/
  cacheMode : CacheMode := .enabled
  deriving DecidableEq, Repr, Inhabited

/-- What changes while code runs. -/
structure World where
  /-- The objects. -/
  heap : Heap := {}
  /-- The environments. -/
  envs : Environments := {}
  /-- The caches of the sites. -/
  caches : Caches := {}
  /-- What host functions have logged. -/
  log : Array String := #[]
  deriving Inhabited

/-- What stays as it is while code runs. -/
structure Machine where
  /-- The loaded units, by number. -/
  units : Array CodeUnit := #[]
  /-- The host functions. -/
  natives : Natives := {}
  /-- The objects that the machine refers to. -/
  realm : Realm
  /-- The settings. -/
  config : Config := {}

/-- The code of a function: its unit and itself. -/
def Machine.code (m : Machine) (unit index : Nat) : Except Fault (CodeUnit × CodeFunction) :=
  match m.units[unit]? with
  | none => .error (.unknownUnit unit)
  | some u =>
    match u.function? index with
    | none => .error (.unknownFunction index unit)
    | some f => .ok (u, f)

/-! ## Names -/

/-- Where a name is bound, seen from the innermost environment, if there is any. -/
def World.resolve (w : World) (env : Option EnvId) (name : String) : Binding :=
  match env with
  | some id => w.envs.resolve w.heap id name
  | none => .unbound

/-- The world after a property was removed, and whether it is gone. -/
def World.delete (w : World) (h : Handle) (name : String) : Bool × World :=
  match w with
  | ⟨heap, envs, caches, log⟩ =>
    let (gone, heap) := heap.delete h name
    (gone, ⟨heap, envs, caches, log⟩)

/-- The world after a property was written without the help of a site. -/
def World.write (w : World) (h : Handle) (name : String) (v : Value) : PropertyWrite × World :=
  match w with
  | ⟨heap, envs, caches, log⟩ =>
    let (result, heap) := heap.write h name v
    (result, ⟨heap, envs, caches, log⟩)

end ScriptEngine
