import ScriptEngine.CallSite
import ScriptEngine.Code.Chunk
import ScriptEngine.Code.Pool
import ScriptEngine.Scope.Layout

/-!
# Compiled units

The functions of one program with the constants they share. A function names constants, call sites
and inner functions by their positions.
-/

namespace ScriptEngine

/-- A compiled function. -/
structure CodeFunction where
  /-- The name that scripts see. -/
  name : String
  /-- Where each argument goes. -/
  params : List VarSlot
  /-- The number of frame slots. -/
  localCount : Nat
  /-- The names of the environment slots; if there are none, a call makes no environment. -/
  envNames : Array String
  /-- The code. -/
  chunk : Chunk
  /-- The call sites. -/
  sites : Array CallSite
  /-- Where the function is written. -/
  span : Span
  deriving DecidableEq, Inhabited

/-- Whether a call makes an environment. -/
def CodeFunction.needsEnv (f : CodeFunction) : Bool := !f.envNames.isEmpty

/-- A compiled program. -/
structure CodeUnit where
  /-- The functions; inner ones come before those around them. -/
  functions : Array CodeFunction
  /-- The constants. -/
  pool : Pool
  /-- The position of the program's own code. -/
  entry : Nat
  /-- The names that the program declares on the global object. -/
  globals : Array String
  deriving Inhabited

namespace CodeUnit

/-- A function of the unit. -/
def function? (u : CodeUnit) (i : Nat) : Option CodeFunction := u.functions[i]?

/-- The number of call sites of all functions. -/
def siteCount (u : CodeUnit) : Nat :=
  u.functions.foldl (fun n f => n + f.sites.size) 0

end CodeUnit

end ScriptEngine
