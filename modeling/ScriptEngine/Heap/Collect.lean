import Std.Data.HashSet
import ScriptEngine.Environment
import ScriptEngine.Heap.Basic

/-!
# Collecting garbage

Frees every object that cannot be reached from a list of roots. Reachability goes through prototypes,
properties, accessor functions and the environments around functions. The heap never collects on its
own; a host asks for it between runs.
-/

namespace ScriptEngine

/-- The objects that an object itself refers to: its prototype, and those of its properties. -/
def Object.references (o : Object) : List Handle :=
  o.prototype.toList ++ o.properties.entries.flatMap fun entry => entry.2.references

/-- The environment around an object that is a function of a program. -/
def Object.around? (o : Object) : Option EnvId :=
  match o.callable with
  | some (.script c) => c.env
  | _ => none

/-- The links of a chain of environments that have not been walked. A chain is walked to its end, so
behind a link that has been walked there is nothing new. -/
def Environments.unwalked (es : Environments) (walked : Std.HashSet EnvId) :
    Option EnvId → List EnvId
  | some id => (es.chain id).takeWhile (!walked.contains ·)
  | none => []

namespace Heap

/-- Marks the slots of everything reachable from the pending handles, beyond what is marked. Chains of
environments are shared, so each link is walked once. Each step either drops a pending handle or marks
one more slot. -/
def mark (heap : Heap) (envs : Environments) (marked : Array Bool) (pending : List Handle)
    (walked : Std.HashSet EnvId := ∅) : Array Bool :=
  match pending with
  | [] => marked
  | h :: rest =>
    match heap.get? h with
    | none => heap.mark envs marked rest walked
    | some o =>
      if _bound : h.index < marked.size then
        if marked[h.index] then heap.mark envs marked rest walked
        else
          let links := envs.unwalked walked o.around?
          heap.mark envs (marked.set h.index true)
            (o.references ++ links.flatMap envs.references ++ rest) (walked.insertMany links)
      else heap.mark envs marked rest walked
  termination_by (marked.count false, pending.length)
  decreasing_by
    · exact .right _ (by simp)
    · exact .right _ (by simp)
    · next notMarked =>
      have unmarked : marked[h.index] = false := by simpa using notMarked
      have : 0 < marked.count false :=
        Array.count_pos_iff.mpr (unmarked ▸ Array.getElem_mem _)
      refine .left _ _ ?_
      rw [Array.count_set, unmarked]
      show marked.count false - 1 + 0 < marked.count false
      omega
    · exact .right _ (by simp)

/-- Vacates a slot: whoever holds a handle to its occupant now holds a stale one. -/
def release (heap : Heap) (i : Nat) : Heap :=
  { heap with
    slots := heap.slots.modify i fun slot => ⟨slot.generation + 1, none⟩
    free := i :: heap.free }

/-- Whether the slot has an occupant that was not marked. -/
def isGarbage (heap : Heap) (marked : Array Bool) (i : Nat) : Bool :=
  ((heap.slots[i]?.bind Slot.object).isSome) && !marked.getD i false

/-- Frees every object that is not reachable from the roots, and tells how many those were. Stale
roots reach nothing. -/
def collect (heap : Heap) (envs : Environments) (roots : List Handle) : Nat × Heap :=
  let marked := heap.mark envs (Array.replicate heap.slots.size false) roots
  let garbage := (List.range heap.slots.size).filter (heap.isGarbage marked)
  let swept := garbage.foldl release heap
  (garbage.length, if garbage.isEmpty then swept else swept.bumpEpoch)

end Heap

end ScriptEngine
