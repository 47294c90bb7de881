import Std.Data.HashSet
import Std.Data.TreeMap
import ScriptEngine.Syntax.Listing

/-!
# Scope tables

One scope per function, and one for the program, each with the variables it declares. A name that is
used is looked for in the scope of its use and then in the scopes around it. A scope may be told which
scope is around it before that one is made.

A variable starts in the frame of its function. It moves to the function's environment for good when
an inner function uses it, and every scope between the use and the declaration notes the capture. A
name that nobody declares is a property of the global object, and one that scripts may delete.
-/

namespace ScriptEngine

/-- Where the value of a variable is kept. -/
inductive Storage where
  /-- In the frame of a call. -/
  | frame
  /-- In the environment of a call. -/
  | environment
  /-- In a property of the global object. -/
  | global
  deriving DecidableEq, Repr, Inhabited

/-- The name of the kind of place in listings. -/
def Storage.name : Storage → String
  | frame => "local"
  | environment => "closure"
  | global => "global"

/-- A way in which a variable was seen to be used. -/
inductive Usage where
  /-- Called with arguments of these types. -/
  | called (args : List ValueType)
  /-- Operand of arithmetic. -/
  | numeric
  deriving DecidableEq, Repr

/-- A variable. -/
structure Variable where
  /-- The name. -/
  name : String
  /-- The scope that declares the variable. -/
  scope : ScopeId
  /-- Where the value is kept. -/
  storage : Storage
  /-- Whether scripts may delete the variable. -/
  isDeletable : Bool := false
  /-- Whether an inner function uses the variable. -/
  isClosedOver : Bool := false
  /-- Whether the variable is a parameter. -/
  isParameter : Bool := false
  /-- The slot in the frame or environment, once the table is finished. -/
  slot : Nat := 0
  /-- The ways in which the variable was used, as first seen. -/
  usages : Array Usage := #[]
  /-- The types that were assigned, as first seen. -/
  assigned : Array ValueType := #[]
  deriving DecidableEq, Repr, Inhabited

namespace Variable

/-- Whether the variable is a property of the global object. -/
def isGlobal (v : Variable) : Bool := v.storage == .global

/-- The type of the variable, if only one was ever assigned. -/
def inferredType (v : Variable) : ValueType :=
  match v.assigned.toList with
  | [t] => t
  | _ => .any

/-- What listings show about the variable. -/
def summary (v : Variable) : VarSummary :=
  ⟨v.isGlobal, v.isDeletable, v.isClosedOver⟩

end Variable

/-- The scope of a function or of the program. -/
structure Scope where
  /-- The scope around this one. -/
  parent : Option ScopeId
  /-- The name of the function. -/
  name : String
  /-- Which variable a name stands for. -/
  names : Std.TreeMap String VarId := ∅
  /-- The variables, in the order of their declaration. -/
  order : Array VarId := #[]
  /-- The variables of scopes further out that this scope or one inside uses. -/
  captures : Std.HashSet VarId := ∅
  /-- Whether variables are looked up by name while the function runs. -/
  isDynamic : Bool := false
  /-- The number of frame slots, once the table is finished. -/
  localCount : Nat := 0
  /-- The names of the environment slots, once the table is finished. -/
  envNames : Array String := #[]
  deriving Inhabited

namespace Scope

/-- The variable of a name that the scope itself declares. -/
def own? (s : Scope) (name : String) : Option VarId := s.names[name]?

/-- Whether a call of the function makes an environment. -/
def needsEnv (s : Scope) : Bool := !s.envNames.isEmpty

/-- The captured variables, in ascending order. -/
def sortedCaptures (s : Scope) : List VarId :=
  s.captures.toList.mergeSort fun a b => a.index ≤ b.index

end Scope

/-- The scopes and variables of a program. -/
structure ScopeTable where
  /-- The scopes, by number. -/
  scopes : Array Scope
  /-- The variables, by number. -/
  vars : Array Variable
  /-- Whether slots have been assigned. -/
  finished : Bool
  deriving Inhabited

namespace ScopeTable

/-- The table with the scope of the program only. -/
def empty : ScopeTable :=
  { scopes := #[{ parent := none, name := "<global>" }], vars := #[], finished := false }

/-- A scope of the table. -/
def scope (t : ScopeTable) (s : ScopeId) : Scope := t.scopes[s.index]?.getD default

/-- A variable of the table. -/
def var (t : ScopeTable) (v : VarId) : Variable := t.vars[v.index]?.getD default

/-- What listings show about a variable. -/
def summary? (t : ScopeTable) (v : VarId) : Option VarSummary :=
  t.vars[v.index]?.map Variable.summary

/-- Changes a scope. -/
def modifyScope (t : ScopeTable) (s : ScopeId) (f : Scope → Scope) : ScopeTable :=
  { t with scopes := t.scopes.modify s.index f }

/-- Changes a variable. -/
def modifyVar (t : ScopeTable) (v : VarId) (f : Variable → Variable) : ScopeTable :=
  { t with vars := t.vars.modify v.index f }

/-- The scopes from one on outwards, itself first, within a number of steps. -/
def chainWithin (t : ScopeTable) : Nat → Option ScopeId → List ScopeId
  | n + 1, some s => s :: t.chainWithin n (t.scope s).parent
  | _, _ => []

/-- The scopes from one on outwards, itself first. Every scope on the way out is reached within as many
steps as there are scopes. -/
def chain (t : ScopeTable) (s : ScopeId) : List ScopeId :=
  t.chainWithin t.scopes.size (some s)

/-! ## Declaring -/

/-- Adds the scope of a function. -/
def pushScope (t : ScopeTable) (parent : ScopeId) (name : String) : ScopeId × ScopeTable :=
  (⟨t.scopes.size⟩, { t with scopes := t.scopes.push { parent := some parent, name } })

/-- Adds a variable and lets its name stand for it in its scope. -/
def insert (t : ScopeTable) (v : Variable) : VarId × ScopeTable :=
  let id : VarId := ⟨t.vars.size⟩
  let t := { t with vars := t.vars.push v }
  (id, t.modifyScope v.scope fun s =>
    { s with names := s.names.insert v.name id, order := s.order.push id })

/-- Declares a name in a scope; a second declaration is the first one again. -/
def declare (t : ScopeTable) (s : ScopeId) (name : String) : VarId × ScopeTable :=
  match (t.scope s).own? name with
  | some v => (v, t)
  | none => t.insert { name, scope := s, storage := if s = .global then .global else .frame }

/-- Declares a parameter. -/
def declareParameter (t : ScopeTable) (s : ScopeId) (name : String) : VarId × ScopeTable :=
  let (v, t) := t.declare s name
  (v, t.modifyVar v fun r => { r with isParameter := true })

/-- Opens a binding that lasts until it is closed, such as that of a caught value. It is always a new
variable, even in the scope of the program. The variable that the name stood for comes along. -/
def openBinding (t : ScopeTable) (s : ScopeId) (name : String) :
    (VarId × Option VarId) × ScopeTable :=
  let shadowed := (t.scope s).own? name
  let (v, t) := t.insert { name, scope := s, storage := .frame }
  ((v, shadowed), t)

/-- Closes a binding: the name stands again for what it stood for before. -/
def closeBinding (t : ScopeTable) (s : ScopeId) (name : String) (shadowed : Option VarId) :
    ScopeTable :=
  t.modifyScope s fun scope =>
    { scope with names := match shadowed with
      | some v => scope.names.insert name v
      | none => scope.names.erase name }

/-! ## Resolving -/

/-- The variable that a name stands for in a scope, if it is declared there or further out. -/
def lookup? (t : ScopeTable) (s : ScopeId) (name : String) : Option VarId :=
  (t.chain s).findSome? fun id => (t.scope id).own? name

/-- Notes the use of a variable in the given scopes. -/
def capture (t : ScopeTable) (v : VarId) (scopes : List ScopeId) : ScopeTable :=
  scopes.foldl
    (fun t s => t.modifyScope s fun scope => { scope with captures := scope.captures.insert v }) t

/-- The variable that a name used in a scope stands for. A variable of a function further out moves to
that function's environment and is captured by all scopes in between; a name that nobody declares
becomes a deletable global. -/
def resolve (t : ScopeTable) (s : ScopeId) (name : String) : VarId × ScopeTable :=
  match t.lookup? s name with
  | none => t.insert { name, scope := .global, storage := .global, isDeletable := true }
  | some v =>
    let declaring := (t.var v).scope
    if declaring = s || (t.var v).isGlobal then (v, t)
    else
      let t := t.capture v ((t.chain s).takeWhile (· != declaring))
      (v, t.modifyVar v fun r => { r with isClosedOver := true, storage := .environment })

/-- Marks a scope and the scopes around it for lookup by name, up to the first that is marked. -/
def markDynamic (t : ScopeTable) (s : ScopeId) : ScopeTable :=
  ((t.chain s).takeWhile fun id => !(t.scope id).isDynamic).foldl
    (fun t id => t.modifyScope id fun scope => { scope with isDynamic := true }) t

/-! ## Hints -/

/-- Notes a way in which a variable is used. -/
def addUsage (t : ScopeTable) (v : VarId) (u : Usage) : ScopeTable :=
  t.modifyVar v fun r => if r.usages.contains u then r else { r with usages := r.usages.push u }

/-- Notes a type that is assigned to a variable. -/
def addAssigned (t : ScopeTable) (v : VarId) (type : ValueType) : ScopeTable :=
  t.modifyVar v fun r =>
    if r.assigned.contains type then r else { r with assigned := r.assigned.push type }

end ScopeTable

end ScriptEngine
