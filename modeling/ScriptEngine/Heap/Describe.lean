import ScriptEngine.Environment
import ScriptEngine.Heap.Basic
import ScriptEngine.Text.Quoted

/-!
# Descriptions

One-line descriptions of the heap, of host functions and of environments, for people who debug.
-/

namespace ScriptEngine

/-- One line about the heap as a whole. -/
def Heap.describe (heap : Heap) : String :=
  "ObjectHeap \x7b live: " ++ Nat.repr heap.liveCount ++ ", shape_epoch: " ++ Nat.repr heap.epoch ++
    " \x7d"

/-- One line about a host function. -/
def NativeFunction.describe (f : NativeFunction) : String :=
  "NativeFn \x7b name: " ++ Text.quoted f.name ++ ", length: " ++ Nat.repr f.length ++ ", .. \x7d"

/-- One line about a handle. -/
def Handle.describe (h : Handle) : String :=
  "ObjectHandle \x7b index: " ++ Nat.repr h.index ++ ", generation: " ++
    Nat.repr h.generation.toNat ++ " \x7d"

/-- One line about an environment. -/
def Environment.describe (e : Environment) : String :=
  let bound := match e.kind with
    | .variables names => "names: [" ++ ", ".intercalate (names.toList.map Text.quoted) ++ "]"
    | .object h => "with: " ++ h.describe
  let hasParent := if e.parent.isSome then "true" else "false"
  "Environment \x7b " ++ bound ++ ", has_parent: " ++ hasParent ++ " \x7d"

end ScriptEngine
