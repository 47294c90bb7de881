import ScriptEngine.Error
import ScriptEngine.Heap.Basic

/-!
# Realms

The three objects that the machine itself refers to, and the objects it makes of them: plain objects,
function objects, and the objects that stand for errors of the machine in a handler.
-/

namespace ScriptEngine

/-- The objects that the machine refers to. -/
structure Realm where
  /-- The object whose properties are the global variables. -/
  global : Handle
  /-- The prototype of plain objects. -/
  objectPrototype : Handle
  /-- The prototype of functions. -/
  functionPrototype : Handle
  deriving DecidableEq, Repr

namespace Realm

/-- Makes a plain object. -/
def newObject (r : Realm) (heap : Heap) : Handle × Heap :=
  heap.allocate { prototype := some r.objectPrototype }

/-- Makes a function object, whose name and number of parameters can be read but not changed. -/
def newFunction (r : Realm) (heap : Heap) (callable : Callable) (name : String) (length : Nat) :
    Handle × Heap :=
  let (h, heap) := heap.allocate { prototype := some r.functionPrototype, callable := some callable }
  let heap := (heap.define h "name" (.data (.string name) .hidden)).2
  (h, (heap.define h "length" (.data (.number (.ofNat length)) .hidden)).2)

/-- What a handler receives for an error: the value that was thrown, or a new object with the name and
the message of the error. -/
def caughtValue (r : Realm) (heap : Heap) : RuntimeError → Value × Heap
  | .thrown v => (v, heap)
  | e =>
    let (h, heap) := r.newObject heap
    let heap := (heap.define h "name" (.data (.string e.name) .default)).2
    (.object h, (heap.define h "message" (.data (.string e.message) .default)).2)

/-- Reads a property of a value that is no object. A text has a length, counted in code points; all
else comes from the prototype of plain objects. The absent values have no properties. -/
def readPrimitive (r : Realm) (heap : Heap) (v : Value) (name : String) :
    Except RuntimeError PropertyRead :=
  if v.isNullish then .error (.typeError s!"cannot read property '{name}' of {v.toText}")
  else
    match v with
    | .string s =>
      if name = "length" then .ok (.value (.number (.ofNat s.length)))
      else .ok (heap.read r.objectPrototype name)
    | _ => .ok (heap.read r.objectPrototype name)

end Realm

/-- The name of a value's type, as scripts see it. Functions are told apart from other objects. -/
def Heap.typeName (heap : Heap) : Value → String
  | .undefined => "undefined"
  | .null => "object"
  | .bool _ => "boolean"
  | .number _ => "number"
  | .string _ => "string"
  | .object h => if (heap.callable? h).isSome then "function" else "object"

end ScriptEngine
