import ScriptEngine.Native

/-!
# A library of host functions

Small functions that a host may give to scripts, by name: to log, to look at a call and its arguments,
to make and define properties that scripts themselves cannot make, and one for each kind of error.
-/

namespace ScriptEngine

namespace Native

/-- The flags of a bit mask that is given as a value: the whole part of the number, as a word of 64
bits, of which only the lowest three count. A number beyond the largest word counts as that word, so it
sets all flags; what is negative or no number sets none. -/
def flagsOf (v : Value) : PropertyFlags :=
  let largestWord := 18446744073709551615
  let n := v.toNumber
  if n.isNaN || n.isNegative then .ofBits 0
  else .ofBits (if n.isInfinite then largestWord else min n.floorMagnitude largestWord)

/-- Defines a property of the first argument under the name of the second, and tells whether there is
an object to have it. -/
def define (p : NativeCall → Property) : Native := fun c =>
  match (c.arg 0).object? with
  | none => c.reply .undefined
  | some h =>
    let (defined, heap) := c.heap.define h (c.arg 1).toText (p c)
    { heap, result := .ok (.bool defined) }

/-- Logs the first argument and gives the second. -/
def log : Native := fun c => { c.reply (c.arg 1) with log := [(c.arg 0).toText] }

/-- The receiver. -/
def receiver : Native := fun c => c.reply c.this

/-- The number of arguments. -/
def argCount : Native := fun c => c.reply (.number (.ofNat c.args.length))

/-- The first argument. -/
def identity : Native := fun c => c.reply (c.arg 0)

/-- The sum of the arguments as numbers, from left to right. -/
def sum : Native := fun c =>
  c.reply (.number (c.args.foldl (fun n v => n.add v.toNumber) .zero))

/-- The texts of the arguments with commas between them. -/
def join : Native := fun c => c.reply (.string (",".intercalate (c.args.map Value.toText)))

/-- Throws the first argument. -/
def throwArg : Native := fun c => c.fail (.thrown (c.arg 0))

/-- Fails with a type error. -/
def typeError : Native := fun c => c.fail (.typeError (c.arg 0).toText)

/-- Fails with a fault of the host. -/
def hostFault : Native := fun c => c.fail (.internal (.reported (c.arg 0).toText))

/-- Fails as if too many activations were nested. -/
def overflow : Native := fun c => c.fail (.stackOverflow 7)

/-- A new object without a prototype whose property `v` is the first argument. -/
def make : Native := fun c =>
  let (h, heap) := c.heap.allocate {}
  { heap := (heap.write h "v" (c.arg 0)).2, result := .ok (.object h) }

/-- Defines an accessor: object, name, getter, setter, flags. -/
def accessor : Native :=
  define fun c => .accessor (c.arg 2).object? (c.arg 3).object? (flagsOf (c.arg 4))

/-- Defines a data property: object, name, value, flags. -/
def data : Native :=
  define fun c => .data (c.arg 2) (flagsOf (c.arg 3))

/-- The enumerable names of the first argument with commas between them. -/
def keys : Native := fun c =>
  match (c.arg 0).object?.bind c.heap.get? with
  | some o => c.reply (.string (",".intercalate o.properties.enumerableNames))
  | none => c.reply .undefined

/-- The count of shape changes of the heap. -/
def epoch : Native := fun c => c.reply (.number (.ofNat c.heap.epoch))

/-- The function of that name in the library. -/
def ofName? : String → Option Native
  | "log" => some log
  | "this" => some receiver
  | "argc" => some argCount
  | "id" => some identity
  | "sum" => some sum
  | "join" => some join
  | "throw" => some throwArg
  | "type_error" => some typeError
  | "internal" => some hostFault
  | "overflow" => some overflow
  | "make" => some make
  | "accessor" => some accessor
  | "data" => some data
  | "keys" => some keys
  | "epoch" => some epoch
  | _ => none

end Native

end ScriptEngine
