import ScriptEngine.Machine.World

/-!
# Properties and globals through call sites

Reading, writing and calling by name, with the help of the site's cache: if the guard holds, what the
site remembers is used, and otherwise the general lookup runs and the site remembers what it found.
The cache is settled before any function is called, so a site that is reached again from within sees
what is remembered now.
-/

namespace ScriptEngine

namespace World

/-- Counts a miss that cannot be remembered. -/
def uncacheable (mode : CacheMode) (w : World) (id : SiteId) : World :=
  { w with caches := w.caches.uncacheable mode id }

/-- The object, among the receiver and its prototypes, that has the property. -/
def memberHolder (mode : CacheMode) (w : World) (id : SiteId) (access : Access) (receiver : Handle)
    (name : String) : Option Handle × World :=
  match w with
  | ⟨heap, envs, caches, log⟩ =>
    match caches.probe mode id (Strategy.holder? access receiver heap.epoch) with
    | (some holder, caches) => (some holder, ⟨heap, envs, caches, log⟩)
    | (none, caches) =>
      match heap.holder? receiver name with
      | some holder =>
        let s := access.strategy receiver heap.epoch holder
        (some holder, ⟨heap, envs, caches.rebind mode id s, log⟩)
      | none => (none, ⟨heap, envs, caches.uncacheable mode id, log⟩)

/-- Writes a property of an object. -/
def writeObject (mode : CacheMode) (w : World) (id : SiteId) (receiver : Handle) (name : String)
    (v : Value) : PropertyWrite × World :=
  match w with
  | ⟨heap, envs, caches, log⟩ =>
    let guard := fun s => if Strategy.storesTo receiver heap.epoch s then some () else none
    let (hit, caches) := caches.probe mode id guard
    match hit.bind fun _ => heap.overwrite? receiver name v with
    | some heap => (.stored, ⟨heap, envs, caches, log⟩)
    | none =>
      match heap.write receiver name v with
      | (.stored, heap) =>
        let s := .propertyStore receiver heap.epoch
        (.stored, ⟨heap, envs, caches.rebind mode id s, log⟩)
      | (result, heap) => (result, ⟨heap, envs, caches.uncacheable mode id, log⟩)

/-- What a call of a value that was read from a global runs, if it can be called. -/
def globalTarget (mode : CacheMode) (w : World) (id : SiteId) (callee : Value) :
    Option Callable × World :=
  match callee with
  | .object h =>
    match w with
    | ⟨heap, envs, caches, log⟩ =>
      match caches.probe mode id (Strategy.target? h) with
      | (some target, caches) => (some target, ⟨heap, envs, caches, log⟩)
      | (none, caches) =>
        match heap.callable? h with
        | some target =>
          (some target, ⟨heap, envs, caches.rebind mode id (.globalCall h target), log⟩)
        | none => (none, ⟨heap, envs, caches.uncacheable mode id, log⟩)
  | _ => (none, w.uncacheable mode id)

end World

namespace Machine

/-- Reads a property of any value. -/
def readMember (m : Machine) (w : World) (id : SiteId) (access : Access) (receiver : Value)
    (name : String) : Except RuntimeError PropertyRead × World :=
  match receiver with
  | .object h =>
    match w.memberHolder m.config.cacheMode id access h name with
    | (some holder, w) => (.ok (w.heap.readOwn holder name), w)
    | (none, w) => (.ok (.value .undefined), w)
  | v => (m.realm.readPrimitive w.heap v name, w.uncacheable m.config.cacheMode id)

/-- Writes a property of any value. The absent values have none, and to all other values that are no
objects the write is lost. -/
def writeMember (m : Machine) (w : World) (id : SiteId) (receiver : Value) (name : String)
    (v : Value) : Except RuntimeError PropertyWrite × World :=
  match receiver with
  | .object h =>
    let (result, w) := w.writeObject m.config.cacheMode id h name v
    (.ok result, w)
  | other =>
    if other.isNullish then
      (.error (.typeError s!"cannot set property '{name}' of {other.toText}"), w)
    else (.ok .ignored, w.uncacheable m.config.cacheMode id)

end Machine

end ScriptEngine
