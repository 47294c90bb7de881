import ScriptEngine.Heap.Object

/-!
# Environments

Variables that outlive the call that made them, and all variables that may be looked up by name, live
in environments. An environment binds either the variables of one activation or the properties of an
object, and links to the environment around it. They are kept in a store and refer to each other by
number; an environment is made after the one around it, so numbers fall along every chain.
-/

namespace ScriptEngine

/-- What an environment binds. -/
inductive EnvKind where
  /-- Variables, by name and slot. -/
  | variables (names : Array String)
  /-- The properties of an object. -/
  | object (h : Handle)
  deriving DecidableEq, Repr

/-- One link of a chain of environments. -/
structure Environment where
  /-- What is bound. -/
  kind : EnvKind
  /-- The values of the variables. -/
  slots : Array Value
  /-- The environment around this one. -/
  parent : Option EnvId
  deriving DecidableEq

/-- All environments that were ever made. -/
structure Environments where
  /-- The environments, by number. -/
  store : Array Environment := #[]
  deriving DecidableEq, Inhabited

namespace Environments

/-- The environment of a number. -/
def get? (es : Environments) (id : EnvId) : Option Environment :=
  es.store[id.index]?

/-- Adds an environment. -/
def push (es : Environments) (e : Environment) : EnvId × Environments :=
  (⟨es.store.size⟩, ⟨es.store.push e⟩)

/-- Makes an environment of variables, all `undefined`. -/
def pushVariables (es : Environments) (names : Array String) (parent : Option EnvId) :
    EnvId × Environments :=
  es.push ⟨.variables names, Array.replicate names.size .undefined, parent⟩

/-- Makes an environment of an object's properties. -/
def pushObject (es : Environments) (h : Handle) (parent : Option EnvId) : EnvId × Environments :=
  es.push ⟨.object h, #[], parent⟩

/-- The value of a slot; there is none beyond the slots. -/
def slot? (es : Environments) (id : EnvId) (slot : Nat) : Option Value :=
  (es.get? id).bind fun e => e.slots[slot]?

/-- The value of a slot, `undefined` beyond the slots. -/
def getSlot (es : Environments) (id : EnvId) (slot : Nat) : Value :=
  (es.slot? id slot).getD .undefined

/-- Whether an environment has a slot. -/
def hasSlot (es : Environments) (id : EnvId) (slot : Nat) : Bool :=
  (es.slot? id slot).isSome

/-- Sets a slot; beyond the slots nothing changes. -/
def setSlot (es : Environments) (id : EnvId) (slot : Nat) (v : Value) : Environments :=
  ⟨es.store.modify id.index fun e => { e with slots := e.slots.setIfInBounds slot v }⟩

/-- A slot that was set is read back, if there is one, and all other slots are as before. -/
theorem slot?_setSlot (es : Environments) (id : EnvId) (slot : Nat) (v : Value) (other : EnvId)
    (i : Nat) :
    (es.setSlot id slot v).slot? other i =
      if other = id ∧ i = slot ∧ es.hasSlot id slot then some v else es.slot? other i := by
  obtain ⟨place⟩ := id
  obtain ⟨index⟩ := other
  simp only [slot?, get?, setSlot, hasSlot, Array.getElem?_modify, EnvId.mk.injEq]
  by_cases here : place = index
  · subst here
    rw [if_pos rfl]
    generalize es.store[place]? = found
    cases found with
    | none => simp
    | some e =>
      simp only [Option.map_some, Option.bind_some, Array.getElem?_setIfInBounds]
      by_cases same : slot = i
      · subst same
        by_cases bound : slot < e.slots.size <;> simp [bound]
      · simp [same, Ne.symm same]
  · rw [if_neg here, if_neg (by simp [Ne.symm here])]

/-! ## Chains -/

/-- The environments from one on outwards, itself first. -/
def chain (es : Environments) (id : EnvId) : List EnvId :=
  match es.get? id with
  | none => []
  | some e =>
    match e.parent with
    | none => [id]
    | some p => if p.index < id.index then id :: es.chain p else [id]
  termination_by id.index

/-- The environment a number of links further out. -/
def ancestor? (es : Environments) (id : EnvId) (depth : Nat) : Option EnvId :=
  (es.chain id)[depth]?

/-- The objects that one environment refers to. -/
def references (es : Environments) (id : EnvId) : List Handle :=
  match es.get? id with
  | none => []
  | some e =>
    let bound := match e.kind with
      | .object h => [h]
      | .variables _ => []
    bound ++ e.slots.toList.filterMap Value.object?

end Environments

end ScriptEngine
