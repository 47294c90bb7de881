import ScriptEngine.Proofs.Scope.Captures
import ScriptEngine.Proofs.Scope.Kept

/-!
# Frames and environments without clashes

When a table is finished, the variables of every scope are numbered while some of them are still on their way
from the frame to the environment. `ScopeTable.Framed` says what comes of it: in each scope the frame and the
environment are numbered without gaps, in the order of declaration, so that no two variables of a scope share
a slot, not even two of one name. It holds of every table that can be built: `Building.frames_numbered`.
-/

namespace ScriptEngine

namespace ScopeTable

/-- The frames and environments of a finished table, and what it has of the table that it was made from. -/
structure Framed (t T : ScopeTable) : Prop where
  /-- A scope lists its variables and no others, each once. -/
  listed : ∀ s, (T.scope s).order.toList.Nodup ∧
    ∀ v, v ∈ (T.scope s).order ↔ ∃ V, T.vars[v.index]? = some V ∧ V.scope = s
  /-- The variables in the frame have the slots of the frame, in the order of declaration. -/
  frame : ∀ s, (storedIn T.vars .frame (T.scope s).order.toList).map (fun v => (T.var v).slot) =
    List.range (T.scope s).localCount
  /-- The variables in the environment have the slots of the environment, in the order of declaration. -/
  environment : ∀ s, (storedIn T.vars .environment (T.scope s).order.toList).map (fun v => (T.var v).slot) =
    List.range (T.scope s).envNames.size
  /-- A slot of the environment has the name of its variable. -/
  named : ∀ (v : VarId) V, T.vars[v.index]? = some V → V.storage = .environment →
    (T.scope V.scope).envNames[V.slot]? = some V.name
  /-- Two variables of a scope have different places, unless both are properties of the global object. -/
  distinct : ∀ (u v : VarId) V W, T.vars[u.index]? = some V → T.vars[v.index]? = some W →
    V.scope = W.scope → T.slotOf u = T.slotOf v → u = v ∨ T.slotOf u = .global
  /-- Where names are looked up at run time no variable is in the frame. -/
  dynamic : ∀ (v : VarId) V, T.vars[v.index]? = some V → (T.scope V.scope).isDynamic = true →
    V.storage ≠ .frame
  /-- A variable is what it was, with a slot; where names are looked up at run time it has moved from the
  frame to the environment. -/
  moved : T.vars.size = t.vars.size ∧ ∀ (v : VarId) V, t.vars[v.index]? = some V →
    ∃ slot, T.vars[v.index]? = some { V with
      storage := if V.storage = .frame ∧ (t.scope V.scope).isDynamic = true then .environment else V.storage
      slot }
  /-- A scope is what it was, with a layout. -/
  scopes : T.scopes.size = t.scopes.size ∧ ∀ s, ∃ layout, T.scope s = laidOut (t.scope s) layout
  /-- To finish the table again changes nothing. -/
  again : T.finish = T

/-- Where a variable is kept in the end: it leaves the frame of a scope where names are looked up. -/
theorem finalStorage_eq (isDynamic : Bool) (k : Storage) : FunctionLayout.finalStorage isDynamic k =
    if k = .frame ∧ isDynamic = true then .environment else k := by
  cases k <;> cases isDynamic <;> rfl

section

variable {t T : ScopeTable}

/-- The slots of a kind are the numbers below their count. -/
theorem Finishes.range (h : t.Finishes T) (s : ScopeId) {k : Storage} (hk : k ≠ .global) :
    (storedIn T.vars k (T.scope s).order.toList).map (fun v => (T.var v).slot) =
      List.range ((T.layout s).count k) := by
  obtain ⟨layout, hscope, hplaces⟩ := h.scope s
  have hzero : ({} : FunctionLayout).count k = 0 := by cases k <;> rfl
  have hslots := hplaces.slots k hk
  have hcount : layout.count k = 0 + _ := hzero ▸ hplaces.count k hk
  rw [hzero, ← Nat.zero_add (List.length _), ← hcount, ← List.range_eq_range'] at hslots
  rw [ScopeTable.layout, hscope]
  exact hslots

/-- **Finished tables are numbered without clashes.** -/
theorem framed_finish (hv : t.Valid) : t.Framed t.finish := by
  have h := finishes hv
  have hlisted := listed_finish hv
  obtain ⟨-, -, hplaced, -⟩ := placed_finish hv
  have hagain : t.finish.finish = t.finish := by
    have hfinished : t.finish.finished = true := by
      rw [finish, hv.unfinished]
      rfl
    rw [finish, if_pos hfinished]
  generalize t.finish = T at h hlisted hplaced hagain
  have hrecord : ∀ (v : VarId) V, t.vars[v.index]? = some V → ∃ slot, T.vars[v.index]? = some { V with
      storage := FunctionLayout.finalStorage (t.scope V.scope).isDynamic V.storage, slot } := by
    intro v V hV
    obtain ⟨S, hS, hmem⟩ := hv.listed v.index V hV
    obtain ⟨layout, hscope, hplaces⟩ := h.scope V.scope
    refine hplaces.settled v ?_ V hV
    rw [scope, hS]
    exact Array.mem_def.mp hmem
  have hmember : ∀ (v : VarId) V, T.vars[v.index]? = some V → v ∈ (T.scope V.scope).order := by
    intro v V hV
    obtain ⟨V₀, S, layout, -, hS, hmem, -, -, hsame⟩ := h.var hv hV
    rw [hlisted.order, hsame, scope, hS]
    exact Array.mem_def.mpr hmem
  refine ⟨fun s => ⟨?_, fun v => ?_⟩, fun s => h.range s (by decide), fun s => h.range s (by decide),
    fun v V hV => hplaced.env v.index V hV, fun u v V W hV hW hscope heq => ?_,
    fun v V hV hd => hlisted.moved V.scope hd v (hmember v V hV) V hV,
    ⟨h.vars, fun v V hV => ?_⟩, ⟨h.scopes, fun s => ?_⟩, hagain⟩
  · rw [hlisted.order, scope]
    rcases hS : t.scopes[s.index]? with _ | S
    · exact List.nodup_nil
    · exact hv.nodup s.index S hS
  · constructor
    · intro hmem
      rw [hlisted.order] at hmem
      obtain ⟨V, hV, hscope⟩ := hv.scope_eq hmem
      obtain ⟨slot, hV'⟩ := hrecord v V hV
      exact ⟨_, hV', hscope⟩
    · rintro ⟨V, hV, rfl⟩
      exact hmember v V hV
  · by_cases hglobal : V.storage = .global
    · exact .inr ((slotOf_eq_global_iff hV).mpr hglobal)
    · exact .inl (hplaced.slotOf_inj hV hW hscope hglobal heq)
  · rw [← finalStorage_eq]
    exact hrecord v V hV
  · obtain ⟨layout, hscope, -⟩ := h.scope s
    exact ⟨layout, hscope⟩

end

end ScopeTable

namespace Building

/-- **Frames and environments are numbered without clashes** in every table that is built and then
finished. -/
theorem frames_numbered {b : Building} (hb : Steps start b) : b.table.Framed b.table.finish :=
  ScopeTable.framed_finish (hb.sound sound_start).1.rooted.valid

/-- Two caught values of one name, one inside the other, where names are looked up at run time: both move to
the environment, to different slots of the same name. -/
theorem frames_numbered_caughtTwice :
    let t := ((ScopeTable.empty.openBinding .global "e").2.openBinding .global "e").2.markDynamic .global
    let T := t.finish
    (∃ bindings, Steps start ⟨t, bindings⟩) ∧ T.slotOf ⟨0⟩ ≠ T.slotOf ⟨1⟩ ∧
      (T.scope .global).envNames = #["e", "e"] := by
  intro t T
  have hsteps : Steps start ⟨t, _⟩ :=
    ((Relation.ReflTransGen.single (.openBinding (s := .global) (by decide) "e")).tail
      (.openBinding (s := .global) (by decide) "e")).tail (.markDynamic (s := .global) (by decide))
  have hframed : t.Framed T := frames_numbered hsteps
  refine ⟨⟨_, hsteps⟩, fun heq => ?_, by decide +kernel⟩
  obtain ⟨slot, he⟩ := hframed.moved.2 ⟨0⟩ { name := "e", scope := .global, storage := .frame } (by decide +kernel)
  obtain ⟨slot', he'⟩ := hframed.moved.2 ⟨1⟩ { name := "e", scope := .global, storage := .frame } (by decide +kernel)
  rcases hframed.distinct ⟨0⟩ ⟨1⟩ _ _ he he' rfl heq with hsame | hglobal
  · cases hsame
  · exact absurd hglobal (by decide +kernel)

end Building

end ScriptEngine
