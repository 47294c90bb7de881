import ScriptEngine.Span
import ScriptEngine.Heap.Object
import ScriptEngine.Text.Quoted

/-!
# Call sites and their caches

Every call of a global, every call of a method and every reading or writing of a property by name goes
through a call site. A site that has run has a cache, which remembers how the last general lookup went
under a *guard*, and counts how often the guard held. A hit and a lookup give the same result.
-/

namespace ScriptEngine

/-- What a site does. -/
inductive SiteKind where
  /-- Calls a global function by its name. -/
  | globalCall
  /-- Calls a property of an object on the object. -/
  | invokeMember
  /-- Reads a property. -/
  | getMember
  /-- Writes a property. -/
  | setMember
  deriving DecidableEq, Repr, Inhabited

namespace SiteKind

/-- The name of the kind in listings. -/
def name : SiteKind → String
  | globalCall => "GlobalCall"
  | invokeMember => "InvokeMember"
  | getMember => "GetMember"
  | setMember => "SetMember"

/-- The kind of that name. -/
def ofName? (s : String) : Option SiteKind :=
  [globalCall, invokeMember, getMember, setMember].find? (·.name == s)

end SiteKind

/-- A site, as it is fixed when code is generated. -/
structure CallSite where
  /-- What the site does. -/
  kind : SiteKind
  /-- The name of the global or property. -/
  name : String
  /-- How many arguments a call passes; zero for a mere access. -/
  argc : UInt8
  /-- Where the site is written. -/
  span : Span
  deriving DecidableEq, Repr, Inhabited

/-- What a cache remembers. -/
inductive Strategy where
  /-- Nothing. -/
  | uninitialized
  /-- What a function object runs. Guard: the same function object is called. -/
  | globalCall (callee : Handle) (target : Callable)
  /-- Which object has the property. Guard: the same receiver, in the same epoch. -/
  | propertyLoad (receiver : Handle) (epoch : Nat) (holder : Handle)
  /-- That the receiver has a writable property of its own. Guard: the same receiver and epoch. -/
  | propertyStore (receiver : Handle) (epoch : Nat)
  /-- Which object has the method. Guard: the same receiver, in the same epoch. -/
  | methodCall (receiver : Handle) (epoch : Nat) (holder : Handle)
  deriving DecidableEq, Repr

namespace Strategy

/-- Whether nothing is remembered. -/
def isUninitialized : Strategy → Bool
  | uninitialized => true
  | _ => false

/-- The name of the strategy in listings. -/
def name : Strategy → String
  | uninitialized => "uninitialized"
  | globalCall .. => "global-call"
  | propertyLoad .. => "property-load"
  | propertyStore .. => "property-store"
  | methodCall .. => "method-call"

end Strategy

/-- The cache of a site. -/
structure InlineCache where
  /-- What is remembered. -/
  strategy : Strategy := .uninitialized
  /-- How often the guard held. -/
  hits : Nat := 0
  /-- How often the general lookup ran. -/
  misses : Nat := 0
  deriving DecidableEq, Repr, Inhabited

namespace InlineCache

/-- Counts a hit. -/
def hit (c : InlineCache) : InlineCache :=
  { c with hits := c.hits + 1 }

/-- Counts a miss and remembers what the lookup found. -/
def rebind (c : InlineCache) (s : Strategy) : InlineCache :=
  { c with strategy := s, misses := c.misses + 1 }

/-- Counts a miss that cannot be remembered. -/
def uncacheable (c : InlineCache) : InlineCache :=
  c.rebind .uninitialized

end InlineCache

/-- Hits and misses of one site or of many. -/
structure CacheStats where
  /-- The number of hits. -/
  hits : Nat := 0
  /-- The number of misses. -/
  misses : Nat := 0
  deriving DecidableEq, Repr, Inhabited

namespace CacheStats

/-- The counts of a site's cache; a site that never ran has none. -/
def ofCache : Option InlineCache → CacheStats
  | some c => ⟨c.hits, c.misses⟩
  | none => {}

/-- Counts taken together. -/
def add (a b : CacheStats) : CacheStats :=
  ⟨a.hits + b.hits, a.misses + b.misses⟩

/-- The share of hits among all, zero if there were none. -/
def hitRate (s : CacheStats) : Number :=
  if s.hits + s.misses == 0 then .zero
  else (Number.ofNat s.hits).div (.ofNat (s.hits + s.misses))

end CacheStats

/-- The name of what a site's cache remembers; a site that never ran is cold. -/
def cacheName (cache : Option InlineCache) : String :=
  (cache.map fun c => c.strategy.name).getD "cold"

/-- One line about a site and its cache. -/
def CallSite.describe (site : CallSite) (cache : Option InlineCache) : String :=
  "CallSite \x7b kind: " ++ site.kind.name ++ ", name: " ++ Text.quoted site.name ++ ", argc: " ++
    Nat.repr site.argc.toNat ++ ", strategy: " ++ Text.quoted (cacheName cache) ++ " \x7d"

end ScriptEngine
