import ScriptEngine.Heap.Object

/-!
# The heap

Objects live in slots. A slot that was vacated is used again, under a new generation, so a handle to
the former occupant stays stale: it finds no object, and every operation treats it as a missing one.

The heap counts its changes of shape in an *epoch*. It advances whenever a property appears, is
defined anew or disappears anywhere, and whenever objects are freed; storing into a property that is
already there leaves it alone. So as long as the epoch stands still, a lookup that found a property on
some object finds it there again.
-/

namespace ScriptEngine

/-- A place for an object. -/
structure Slot where
  /-- How often the slot has been vacated, modulo `2 ^ 32`. -/
  generation : UInt32
  /-- The occupant. -/
  object : Option Object
  deriving DecidableEq, Inhabited

/-- The objects, the vacant slots, and the count of shape changes. -/
structure Heap where
  /-- The slots, by index. -/
  slots : Array Slot := #[]
  /-- The vacant slots; the one vacated last is used next. -/
  free : List Nat := []
  /-- The count of shape changes. -/
  epoch : Nat := 0
  deriving DecidableEq, Inhabited

/-- What reading a property comes to. -/
inductive PropertyRead where
  /-- A value, `undefined` if there is no such property. -/
  | value (v : Value)
  /-- A function to be called with the receiver. -/
  | getter (h : Handle)
  deriving DecidableEq

/-- What writing a property comes to. -/
inductive PropertyWrite where
  /-- The value was stored. -/
  | stored
  /-- The property cannot be written, or there is no object; nothing changed. -/
  | ignored
  /-- A function to be called with the receiver and the value. -/
  | setter (h : Handle)
  deriving DecidableEq

namespace Heap

/-- The number of objects. -/
def liveCount (heap : Heap) : Nat :=
  heap.slots.size - heap.free.length

/-- The object of a handle, unless the handle is stale. -/
def get? (heap : Heap) (h : Handle) : Option Object :=
  match heap.slots[h.index]? with
  | some slot => if slot.generation == h.generation then slot.object else none
  | none => none

/-- Whether the handle has an object. -/
def isLive (heap : Heap) (h : Handle) : Bool :=
  (heap.get? h).isSome

/-- What a call of the object runs. -/
def callable? (heap : Heap) (h : Handle) : Option Callable :=
  (heap.get? h).bind Object.callable

/-- Makes an object. -/
def allocate (heap : Heap) (o : Object) : Handle × Heap :=
  match heap.free with
  | i :: rest =>
    let generation := (heap.slots[i]?.map Slot.generation).getD 0
    (⟨i, generation⟩,
      { heap with slots := heap.slots.setIfInBounds i ⟨generation, some o⟩, free := rest })
  | [] => (⟨heap.slots.size, 0⟩, { heap with slots := heap.slots.push ⟨0, some o⟩ })

/-- Replaces the object in the slot of a live handle. -/
def put (heap : Heap) (h : Handle) (o : Object) : Heap :=
  { heap with slots := heap.slots.modify h.index fun slot => { slot with object := some o } }

/-- Replacing the object of a live handle changes what this handle finds and nothing else: other
handles to the slot are stale before and after. -/
theorem get?_put {heap : Heap} {h : Handle} (live : heap.isLive h) (o : Object) (k : Handle) :
    (heap.put h o).get? k = if k = h then some o else heap.get? k := by
  obtain ⟨index, generation⟩ := h
  obtain ⟨place, age⟩ := k
  simp only [isLive, get?] at live
  simp only [get?, put, Array.getElem?_modify]
  by_cases here : index = place
  · subst here
    cases found : heap.slots[index]? with
    | none => simp [found] at live
    | some slot =>
      have current : slot.generation = generation := by
        simp only [found] at live
        split at live <;> simp_all
      by_cases young : generation = age
      · simp [current, young]
      · simp [current, young, Ne.symm young]
  · simp [here, Ne.symm here]

/-- Counts a change of shape. -/
def bumpEpoch (heap : Heap) : Heap :=
  { heap with epoch := heap.epoch + 1 }

/-! ## Reading -/

/-- The property of the object's own. -/
def own? (heap : Heap) (h : Handle) (name : String) : Option Property :=
  (heap.get? h).bind fun o => o.properties.get? name

/-- The first object with a property of that name, from a handle on along the prototypes, within a
number of steps. -/
def holderWithin (heap : Heap) (name : String) : Nat → Handle → Option Handle
  | 0, _ => none
  | n + 1, h =>
    match heap.get? h with
    | none => none
    | some o =>
      if o.properties.contains name then some h
      else
        match o.prototype with
        | none => none
        | some p => heap.holderWithin name n p

/-- The object that has the property, among the object and its prototypes. Every object on the way is
reached within as many steps as there are slots. -/
def holder? (heap : Heap) (h : Handle) (name : String) : Option Handle :=
  heap.holderWithin name (heap.slots.size + 1) h

/-- Whether the object has the property itself or inherits it. -/
def hasProperty (heap : Heap) (h : Handle) (name : String) : Bool :=
  (heap.holder? h name).isSome

/-- Reads a property of the object's own. -/
def readOwn (heap : Heap) (h : Handle) (name : String) : PropertyRead :=
  match heap.own? h name with
  | some (.data v _) => .value v
  | some (.accessor (some getter) _ _) => .getter getter
  | _ => .value .undefined

/-- Reads a property that the object has or inherits. -/
def read (heap : Heap) (h : Handle) (name : String) : PropertyRead :=
  match heap.holder? h name with
  | some holder => heap.readOwn holder name
  | none => .value .undefined

/-- The prototypes from an optional one on, within a number of steps. A stale one ends the chain. -/
def prototypesWithin (heap : Heap) : Nat → Option Handle → List Handle
  | n + 1, some h => h :: heap.prototypesWithin n ((heap.get? h).bind Object.prototype)
  | _, _ => []

/-- The prototypes of an object, the nearest first. -/
def prototypes (heap : Heap) (h : Handle) : List Handle :=
  heap.prototypesWithin (heap.slots.size + 1) ((heap.get? h).bind Object.prototype)

/-! ## Writing -/

/-- Writes a property of the object's own; prototypes play no part. -/
def write (heap : Heap) (h : Handle) (name : String) (v : Value) : PropertyWrite × Heap :=
  match heap.get? h with
  | none => (.ignored, heap)
  | some o =>
    match o.properties.get? name with
    | some (.data _ flags) =>
      if flags.writable then
        (.stored, heap.put h { o with properties := o.properties.insert name (.data v flags) })
      else (.ignored, heap)
    | some (.accessor _ (some setter) _) => (.setter setter, heap)
    | some (.accessor _ none _) => (.ignored, heap)
    | none =>
      let properties := o.properties.insert name (.data v .default)
      (.stored, (heap.put h { o with properties }).bumpEpoch)

/-- Stores into a data property that is there and writable; anything else changes nothing and gives
no heap. -/
def overwrite? (heap : Heap) (h : Handle) (name : String) (v : Value) : Option Heap :=
  match heap.get? h with
  | none => none
  | some o =>
    match o.properties.get? name with
    | some (.data _ flags) =>
      if flags.writable then
        some (heap.put h { o with properties := o.properties.insert name (.data v flags) })
      else none
    | _ => none

/-- Makes or replaces a property; tells whether there is an object to have it. -/
def define (heap : Heap) (h : Handle) (name : String) (p : Property) : Bool × Heap :=
  match heap.get? h with
  | none => (false, heap)
  | some o => (true, (heap.put h { o with properties := o.properties.insert name p }).bumpEpoch)

/-- Removes a property of the object's own; tells whether it is gone, as it also is if it never was
there. -/
def delete (heap : Heap) (h : Handle) (name : String) : Bool × Heap :=
  match heap.get? h with
  | none => (true, heap)
  | some o =>
    match o.properties.get? name with
    | none => (true, heap)
    | some p =>
      if p.flags.deletable then
        (true, (heap.put h { o with properties := o.properties.erase name }).bumpEpoch)
      else (false, heap)

end Heap

end ScriptEngine
