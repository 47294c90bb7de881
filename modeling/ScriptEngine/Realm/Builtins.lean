import ScriptEngine.Native
import ScriptEngine.Realm

/-!
# Built-in functions

What every engine starts with: the prototype of plain objects with `valueOf` and `hasOwnProperty`, the
prototype of functions, and the global object with `Object.create`, `Object.getPrototypeOf` and an
`eval` that only fails.
-/

namespace ScriptEngine

namespace Builtin

/-- The receiver. -/
def valueOf : Native := fun c => c.reply c.this

/-- Whether the receiver has a property of its own by the name of the argument. -/
def hasOwnProperty : Native := fun c =>
  let name := (c.arg 0).toText
  match c.this with
  | .object h => c.reply (.bool (c.heap.own? h name).isSome)
  | _ => c.reply (.bool false)

/-- A new object with the argument as its prototype, or without any for `null`. -/
def create : Native := fun c =>
  let make (prototype : Option Handle) : NativeReply :=
    let (h, heap) := c.heap.allocate { prototype }
    { heap, result := .ok (.object h) }
  match c.arg 0 with
  | .object h => make (some h)
  | .null => make none
  | v => c.fail (.typeError s!"object prototype may only be an object or null: {v.toText}")

/-- The prototype of the argument, `null` if it has none. -/
def getPrototypeOf : Native := fun c =>
  match c.arg 0 with
  | .object h =>
    match (c.heap.get? h).bind Object.prototype with
    | some p => c.reply (.object p)
    | none => c.reply .null
  | _ => c.fail (.typeError "Object.getPrototypeOf called on non-object")

/-- Running source text is not supported. -/
def eval : Native := fun c => c.fail (.typeError "eval is not supported")

end Builtin

/-- A heap, and the host functions that objects on it refer to. -/
structure Host where
  /-- The objects. -/
  heap : Heap := {}
  /-- The host functions. -/
  natives : Natives := {}

namespace Host

/-- Makes a plain object with the given prototype. -/
def allocate (host : Host) (prototype : Option Handle) : Handle × Host :=
  let (h, heap) := host.heap.allocate { prototype }
  (h, { host with heap })

/-- Makes a function object of a host function. -/
def function (host : Host) (r : Realm) (name : String) (length : Nat) (f : Native) : Handle × Host :=
  let (id, natives) := host.natives.push f
  let (h, heap) := r.newFunction host.heap (.native ⟨name, length, id⟩) name length
  (h, { heap, natives })

/-- Makes a function object of a host function, and a method of an object under its name. -/
def method (host : Host) (r : Realm) (target : Handle) (name : String) (length : Nat) (f : Native) :
    Handle × Host :=
  let (h, host) := host.function r name length f
  (h, { host with heap := (host.heap.define target name (.data (.object h) .method)).2 })

end Host

/-- The objects that every engine starts with. -/
def Realm.create : Realm × Host :=
  let (objectPrototype, host) := ({} : Host).allocate none
  let (functionPrototype, host) := host.allocate (some objectPrototype)
  let (global, host) := host.allocate (some objectPrototype)
  let r : Realm := { global, objectPrototype, functionPrototype }
  let (_, host) := host.method r objectPrototype "valueOf" 0 Builtin.valueOf
  let (_, host) := host.method r objectPrototype "hasOwnProperty" 1 Builtin.hasOwnProperty
  let (object, host) := host.allocate (some objectPrototype)
  let (_, host) := host.method r object "create" 1 Builtin.create
  let (_, host) := host.method r object "getPrototypeOf" 1 Builtin.getPrototypeOf
  let heap := (host.heap.define global "Object" (.data (.object object) .method)).2
  let (_, host) := { host with heap }.method r global "eval" 1 Builtin.eval
  (r, host)

/-- A host function of a new realm is a built-in one, or answers `undefined`. -/
theorem Realm.native_cases {P : Native → Prop} (none : P fun c => c.reply .undefined)
    (valueOf : P Builtin.valueOf) (hasOwnProperty : P Builtin.hasOwnProperty) (create : P Builtin.create)
    (getPrototypeOf : P Builtin.getPrototypeOf) (eval : P Builtin.eval) (id : Nat) :
    P (Realm.create.2.natives.run id) := by
  match id with
  | 0 => exact valueOf
  | 1 => exact hasOwnProperty
  | 2 => exact create
  | 3 => exact getPrototypeOf
  | 4 => exact eval
  | n + 5 => exact none

end ScriptEngine
