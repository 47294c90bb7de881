import ScriptEngine.Environment
import ScriptEngine.Heap.Basic

/-!
# Looking up names

A name is looked for along a chain of environments, from the inside out. An environment of variables
binds the names of its slots; an environment of an object binds every property that the object has or
inherits.
-/

namespace ScriptEngine

/-- Where a name is bound. -/
inductive Binding where
  /-- A slot of an environment. -/
  | slot (env : EnvId) (index : Nat)
  /-- A property of an object, its own or inherited. -/
  | property (h : Handle)
  /-- Nowhere on the chain. -/
  | unbound
  deriving DecidableEq, Repr

namespace Environments

/-- What one environment binds the name to, if it binds it. -/
def bindingAt? (es : Environments) (heap : Heap) (name : String) (id : EnvId) : Option Binding :=
  match (es.get? id).map Environment.kind with
  | some (.object h) => if heap.hasProperty h name then some (.property h) else none
  | some (.variables names) => (names.findIdx? (· == name)).map (.slot id)
  | none => none

/-- Where a name is bound, seen from an environment. -/
def resolve (es : Environments) (heap : Heap) (id : EnvId) (name : String) : Binding :=
  ((es.chain id).findSome? (es.bindingAt? heap name)).getD .unbound

end Environments

end ScriptEngine
