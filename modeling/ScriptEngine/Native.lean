import ScriptEngine.Error
import ScriptEngine.Heap.Basic

/-!
# Host functions

A host function gets the receiver, the arguments and the heap, and answers with a value or an error
and the heap it leaves. It may also write lines to the host's log. Objects refer to a host function by
number; the functions themselves are kept in a table.
-/

namespace ScriptEngine

/-- What a host function is called with. -/
structure NativeCall where
  /-- The heap as it is. -/
  heap : Heap
  /-- The receiver. -/
  this : Value
  /-- The arguments. -/
  args : List Value

/-- An argument, `undefined` if there are fewer. -/
def NativeCall.arg (c : NativeCall) (i : Nat) : Value :=
  c.args[i]?.getD .undefined

/-- What a host function answers. -/
structure NativeReply where
  /-- The heap as it is left. -/
  heap : Heap
  /-- A value, or an error. -/
  result : Except RuntimeError Value
  /-- Lines for the host's log. -/
  log : List String := []

/-- A host function's behaviour. -/
abbrev Native : Type := NativeCall → NativeReply

namespace NativeCall

/-- Answers with a value and leaves the heap alone. -/
def reply (c : NativeCall) (v : Value) : NativeReply :=
  { heap := c.heap, result := .ok v }

/-- Answers with an error and leaves the heap alone. -/
def fail (c : NativeCall) (e : RuntimeError) : NativeReply :=
  { heap := c.heap, result := .error e }

end NativeCall

/-- The host functions, by number. -/
structure Natives where
  /-- The functions. -/
  table : Array Native := #[]
  deriving Inhabited

namespace Natives

/-- Adds a function and gives its number. -/
def push (ns : Natives) (f : Native) : Nat × Natives :=
  (ns.table.size, ⟨ns.table.push f⟩)

/-- Runs a function; one that is not in the table answers `undefined`. -/
def run (ns : Natives) (id : Nat) (c : NativeCall) : NativeReply :=
  match ns.table[id]? with
  | some f => f c
  | none => c.reply .undefined

end Natives

end ScriptEngine
