import Std.Data.HashMap
import ScriptEngine.CallSite

/-!
# The caches of all sites

How the sites use their caches depends on the mode of the engine:

* *enabled*: the guard is tried first, and a hit saves the lookup;
* *always rebinding*: every execution counts as a miss and remembers what its lookup found;
* *disabled*: the caches are never touched.
-/

namespace ScriptEngine

/-- How sites use their caches. -/
inductive CacheMode where
  /-- A guard that holds saves the lookup. -/
  | enabled
  /-- Guards are never tried, but lookups are remembered. -/
  | alwaysRebind
  /-- There are no caches. -/
  | disabled
  deriving DecidableEq, Repr, Inhabited

/-- The name of the mode in listings. -/
def CacheMode.name : CacheMode → String
  | enabled => "Enabled"
  | alwaysRebind => "AlwaysRebind"
  | disabled => "Disabled"

/-- Which site it is, of which function of which unit. -/
structure SiteId where
  /-- The unit. -/
  unit : Nat
  /-- The position of the function in the unit. -/
  function : Nat
  /-- The position of the site in the function. -/
  index : Nat
  deriving DecidableEq, Hashable, Repr

/-! ## Guards -/

/-- Why a property is read. -/
inductive Access where
  /-- For its value. -/
  | load
  /-- To be called on the receiver. -/
  | method
  deriving DecidableEq, Repr

namespace Access

/-- What to remember about a property that was found on an object. -/
def strategy : Access → Handle → Nat → Handle → Strategy
  | load => .propertyLoad
  | method => .methodCall

end Access

namespace Strategy

/-- The remembered object that has the property, if the guard holds. -/
def holder? (access : Access) (receiver : Handle) (epoch : Nat) (s : Strategy) : Option Handle :=
  match access, s with
  | .load, propertyLoad r e holder | .method, methodCall r e holder =>
    if r = receiver ∧ e = epoch then some holder else none
  | _, _ => none

/-- Whether the receiver is remembered as having a writable property, and the guard holds. -/
def storesTo (receiver : Handle) (epoch : Nat) : Strategy → Bool
  | propertyStore r e => r = receiver ∧ e = epoch
  | _ => false

/-- What the function object is remembered to run. -/
def target? (callee : Handle) : Strategy → Option Callable
  | globalCall c target => if c = callee then some target else none
  | _ => none

end Strategy

/-! ## Caches -/

/-- The caches of the sites that have run. -/
structure Caches where
  /-- The cache of each such site. -/
  table : Std.HashMap SiteId InlineCache := ∅
  deriving Inhabited

namespace Caches

/-- The cache of a site; a site that never ran has none. -/
def get? (cs : Caches) (id : SiteId) : Option InlineCache :=
  cs.table[id]?

/-- Changes the cache of a site, which is made if there is none yet. -/
def update (cs : Caches) (id : SiteId) (f : InlineCache → InlineCache) : Caches :=
  ⟨cs.table.insert id (f ((cs.get? id).getD {}))⟩

/-- A change of one site's cache leaves the caches of the others alone. -/
theorem get?_update (cs : Caches) (id : SiteId) (f : InlineCache → InlineCache) (other : SiteId) :
    (cs.update id f).get? other =
      if id = other then some (f ((cs.get? id).getD {})) else cs.get? other := by
  simp [update, get?, Std.HashMap.getElem?_insert]

/-- Tries a guard on what a site remembers. If it holds, this counts as a hit. -/
def probe {α : Type} (mode : CacheMode) (cs : Caches) (id : SiteId) (guard : Strategy → Option α) :
    Option α × Caches :=
  match mode with
  | .enabled =>
    match (cs.get? id).bind fun c => guard c.strategy with
    | some a => (some a, cs.update id InlineCache.hit)
    | none => (none, cs)
  | .alwaysRebind | .disabled => (none, cs)

/-- Counts a miss of a site, and remembers what the lookup found. -/
def rebind (mode : CacheMode) (cs : Caches) (id : SiteId) (s : Strategy) : Caches :=
  match mode with
  | .disabled => cs
  | .enabled | .alwaysRebind => cs.update id (·.rebind s)

/-- Counts a miss of a site that cannot be remembered. -/
def uncacheable (mode : CacheMode) (cs : Caches) (id : SiteId) : Caches :=
  cs.rebind mode id .uninitialized

/-- Hits and misses of all sites. -/
def stats (cs : Caches) : CacheStats :=
  cs.table.fold (fun total _ c => total.add (.ofCache (some c))) {}

end Caches

end ScriptEngine
