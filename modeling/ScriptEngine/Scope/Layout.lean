import ScriptEngine.Scope.Table

/-!
# Layout of frames and environments

Once every name is resolved, the variables of each scope get their slots: one numbering for the frame
and one for the environment, both in the order of declaration. In a scope where names are looked up
while the program runs, every variable goes to the environment, because only there it has a name.
-/

namespace ScriptEngine

/-- Where a variable is read and written. -/
inductive VarSlot where
  /-- A slot of the frame. -/
  | frame (slot : Nat)
  /-- A slot of the environment of the declaring function. -/
  | env (slot : Nat)
  /-- A property of the global object. -/
  | global
  deriving DecidableEq, Repr, Inhabited

/-- The shape of the frame and environment of a function. -/
structure FunctionLayout where
  /-- The number of frame slots. -/
  localCount : Nat := 0
  /-- The names of the environment slots. -/
  envNames : Array String := #[]
  deriving DecidableEq, Repr, Inhabited

namespace FunctionLayout

/-- Whether a call makes an environment. -/
def needsEnv (l : FunctionLayout) : Bool := !l.envNames.isEmpty

/-- The storage of a variable in a scope that may look names up at run time. -/
def finalStorage (isDynamic : Bool) : Storage → Storage
  | .frame => if isDynamic then .environment else .frame
  | s => s

/-- Gives a variable the next slot of its kind. -/
def place (isDynamic : Bool) (l : FunctionLayout) (v : Variable) : FunctionLayout × Variable :=
  match finalStorage isDynamic v.storage with
  | .frame => ({ l with localCount := l.localCount + 1 }, { v with slot := l.localCount })
  | .environment =>
    let v := { v with storage := .environment, slot := l.envNames.size }
    ({ l with envNames := l.envNames.push v.name }, v)
  | .global => (l, v)

end FunctionLayout

namespace ScopeTable

/-- Places one more variable of a scope. -/
def placeVar (isDynamic : Bool) (acc : FunctionLayout × Array Variable) (v : VarId) :
    FunctionLayout × Array Variable :=
  match acc.2[v.index]? with
  | some r =>
    let (layout, r) := acc.1.place isDynamic r
    (layout, acc.2.setIfInBounds v.index r)
  | none => acc

/-- Places the variables of a scope. -/
def layOut (vars : Array Variable) (s : Scope) : Array Variable × Scope :=
  let (layout, vars) := s.order.foldl (placeVar s.isDynamic) ({}, vars)
  (vars, { s with localCount := layout.localCount, envNames := layout.envNames })

/-- Places the variables of all scopes. A finished table stays as it is. -/
def finish (t : ScopeTable) : ScopeTable :=
  if t.finished then t
  else
    let (vars, scopes) := t.scopes.foldl
      (fun acc s =>
        let (vars, s) := layOut acc.1 s
        (vars, acc.2.push s))
      (t.vars, #[])
    { scopes, vars, finished := true }

/-- The number of links from the environment of code in one scope to the environment of another
scope around it; none if the other is not around it. -/
def envDepth? (t : ScopeTable) (inner declaring : ScopeId) : Option Nat :=
  let chain := t.chain inner
  if chain.contains declaring then
    some ((chain.takeWhile (· != declaring)).countP fun s => (t.scope s).needsEnv)
  else none

/-- Where a variable is read and written. -/
def slotOf (t : ScopeTable) (v : VarId) : VarSlot :=
  let r := t.var v
  match r.storage with
  | .frame => .frame r.slot
  | .environment => .env r.slot
  | .global => .global

/-- The shape of the frame and environment of a function. -/
def layout (t : ScopeTable) (s : ScopeId) : FunctionLayout :=
  ⟨(t.scope s).localCount, (t.scope s).envNames⟩

end ScopeTable

end ScriptEngine
