import ScriptEngine.Scope.Layout

/-!
# Scope tables stay in order

While a program is analyzed its scope table only grows: scopes keep the scope around them, variables keep
their names and scopes, and a variable that moves at all moves from the frame to the environment.

* `ScopeTable.Valid` is the invariant: scopes lie in earlier scopes, and a scope lists exactly the
  variables that it declares, each once.
* `ScopeTable.Extends` compares an earlier with a later table.
* Every operation on tables keeps the one and respects the other.
-/

namespace ScriptEngine

/-- Where a variable may be kept later on: in the same place, or in the environment instead of the
frame. -/
def Storage.Moves (old new : Storage) : Prop :=
  new = old ∨ old = .frame ∧ new = .environment

namespace Storage.Moves

/-- Staying. -/
theorem refl (s : Storage) : s.Moves s := .inl rfl

/-- One move after the other. -/
theorem trans {a b c : Storage} (hab : a.Moves b) (hbc : b.Moves c) : a.Moves c := by
  obtain rfl | ⟨rfl, rfl⟩ := hab
  · exact hbc
  · obtain rfl | ⟨h, -⟩ := hbc
    · exact .inr ⟨rfl, rfl⟩
    · cases h

/-- What is a property of the global object always was one. -/
theorem global {a b : Storage} (h : a.Moves b) (hb : b = .global) : a = .global := by
  obtain rfl | ⟨-, rfl⟩ := h
  · exact hb
  · cases hb

end Storage.Moves

namespace ScopeTable

/-- A later table: scopes lie where they lay, and variables are what they were, except that some have
moved to an environment. -/
structure Extends (t t' : ScopeTable) : Prop where
  /-- Scopes keep the scope around them. -/
  scopes : ∀ (i : Nat) S, t.scopes[i]? = some S → ∃ S', t'.scopes[i]? = some S' ∧ S'.parent = S.parent
  /-- Variables keep their names and scopes, and move at most to an environment. -/
  vars : ∀ (i : Nat) V, t.vars[i]? = some V → ∃ V', t'.vars[i]? = some V' ∧ V'.name = V.name ∧
    V'.scope = V.scope ∧ V.storage.Moves V'.storage

namespace Extends

variable {t t' t'' : ScopeTable}

/-- A table extends itself. -/
theorem refl (t : ScopeTable) : t.Extends t :=
  ⟨fun _ S h => ⟨S, h, rfl⟩, fun _ V h => ⟨V, h, rfl, rfl, .refl _⟩⟩

/-- Later and later. -/
theorem trans (h : t.Extends t') (h' : t'.Extends t'') : t.Extends t'' := by
  refine ⟨fun i S hS => ?_, fun i V hV => ?_⟩
  · obtain ⟨S', hS', hparent⟩ := h.scopes i S hS
    obtain ⟨S'', hS'', hparent'⟩ := h'.scopes i S' hS'
    exact ⟨S'', hS'', hparent'.trans hparent⟩
  · obtain ⟨V', hV', hname, hscope, hmoves⟩ := h.vars i V hV
    obtain ⟨V'', hV'', hname', hscope', hmoves'⟩ := h'.vars i V' hV'
    exact ⟨V'', hV'', hname'.trans hname, hscope'.trans hscope, hmoves.trans hmoves'⟩

/-- Scopes stay. -/
theorem size_le (h : t.Extends t') {i : Nat} (hi : i < t.scopes.size) : i < t'.scopes.size := by
  obtain ⟨S', hS', -⟩ := h.scopes i _ (Array.getElem?_eq_getElem hi)
  exact (Array.getElem?_eq_some_iff.mp hS').choose

end Extends

/-- A name that a scope declares stands for one of its variables, and the scope lists its variables. -/
structure Valid (t : ScopeTable) : Prop where
  /-- A scope lies in an earlier one. -/
  parent : ∀ (i : Nat) S, t.scopes[i]? = some S → ∀ p, S.parent = some p → p.index < i
  /-- A name stands for a variable of that name and scope. -/
  names : ∀ (i : Nat) S, t.scopes[i]? = some S → ∀ name v, S.own? name = some v →
    ∃ V, t.vars[v.index]? = some V ∧ V.scope = ⟨i⟩ ∧ V.name = name
  /-- What a scope lists are variables of its own. -/
  order : ∀ (i : Nat) S, t.scopes[i]? = some S → ∀ v ∈ S.order,
    ∃ V, t.vars[v.index]? = some V ∧ V.scope = ⟨i⟩
  /-- Nothing is listed twice. -/
  nodup : ∀ (i : Nat) S, t.scopes[i]? = some S → S.order.toList.Nodup
  /-- Every variable is listed by its scope. -/
  listed : ∀ (i : Nat) V, t.vars[i]? = some V →
    ∃ S, t.scopes[V.scope.index]? = some S ∧ (⟨i⟩ : VarId) ∈ S.order
  /-- Properties of the global object are variables of the program. -/
  globals : ∀ (i : Nat) V, t.vars[i]? = some V → V.storage = .global → V.scope = .global
  /-- Slots have not been assigned yet. -/
  unfinished : t.finished = false

/-- The table of a program that has not been looked at. -/
theorem valid_empty : empty.Valid := by
  have hscope : ∀ (i : Nat) S, empty.scopes[i]? = some S →
      S = { parent := none, name := "<global>" } := by
    intro i S hS
    rcases i with _ | i
    · exact (Option.some.inj hS).symm
    · simp [empty] at hS
  refine ⟨?_, ?_, ?_, ?_, ?_, ?_, rfl⟩
  · intro i S hS p hp
    rw [hscope i S hS] at hp
    cases hp
  · intro i S hS name v hv
    rw [hscope i S hS] at hv
    simp [Scope.own?] at hv
  · intro i S hS v hv
    rw [hscope i S hS] at hv
    simp at hv
  · intro i S hS
    rw [hscope i S hS]
    simp
  · intro i V hV
    simp [empty] at hV
  · intro i V hV
    simp [empty] at hV

/-- A change that keeps tables valid and extends them. -/
structure Leads (t t' : ScopeTable) : Prop where
  /-- The new table is valid. -/
  valid : t'.Valid
  /-- The new table extends the old one. -/
  ext : t.Extends t'

namespace Leads

variable {t t' t'' : ScopeTable}

/-- No change. -/
theorem refl (h : t.Valid) : t.Leads t := ⟨h, .refl t⟩

/-- One change after the other. -/
theorem trans (h : t.Leads t') (h' : t'.Leads t'') : t.Leads t'' := ⟨h'.valid, h.ext.trans h'.ext⟩

end Leads

/-! ## Changes of one scope or variable -/

section

variable {t : ScopeTable}

/-- What is found after a scope was changed. -/
theorem modifyScope_getElem? (s : ScopeId) (f : Scope → Scope) (i : Nat) :
    (t.modifyScope s f).scopes[i]? = if s.index = i then t.scopes[i]?.map f else t.scopes[i]? :=
  Array.getElem?_modify ..

/-- What is found after a variable was changed. -/
theorem modifyVar_getElem? (v : VarId) (f : Variable → Variable) (i : Nat) :
    (t.modifyVar v f).vars[i]? = if v.index = i then t.vars[i]?.map f else t.vars[i]? :=
  Array.getElem?_modify ..

/-- **A scope is changed**, but neither where it lies nor what it lists. A new name stands for one of its
variables. -/
theorem leads_modifyScope (hv : t.Valid) (s : ScopeId) (f : Scope → Scope)
    (hparent : ∀ S, (f S).parent = S.parent) (horder : ∀ S, (f S).order = S.order)
    (hnames : ∀ S name v, (f S).own? name = some v → S.own? name = some v ∨
      ∃ V, t.vars[v.index]? = some V ∧ V.scope = s ∧ V.name = name) :
    t.Leads (t.modifyScope s f) := by
  -- What a scope of the new table was before.
  have hback : ∀ (i : Nat) S, (t.modifyScope s f).scopes[i]? = some S → ∃ S₀, t.scopes[i]? = some S₀ ∧
      S.parent = S₀.parent ∧ S.order = S₀.order ∧ (S = S₀ ∨ s.index = i ∧ S = f S₀) := by
    intro i S hS
    rw [modifyScope_getElem?] at hS
    by_cases hi : s.index = i
    · rw [if_pos hi] at hS
      obtain ⟨S₀, hS₀, rfl⟩ := Option.map_eq_some_iff.mp hS
      exact ⟨S₀, hS₀, hparent S₀, horder S₀, .inr ⟨hi, rfl⟩⟩
    · rw [if_neg hi] at hS
      exact ⟨S, hS, rfl, rfl, .inl rfl⟩
  have hforth : ∀ (i : Nat) S, t.scopes[i]? = some S → ∃ S', (t.modifyScope s f).scopes[i]? = some S' ∧
      S'.parent = S.parent ∧ S'.order = S.order := by
    intro i S hS
    rw [modifyScope_getElem?, hS]
    by_cases hi : s.index = i
    · rw [if_pos hi]
      exact ⟨f S, rfl, hparent S, horder S⟩
    · rw [if_neg hi]
      exact ⟨S, rfl, rfl, rfl⟩
  refine ⟨⟨?_, ?_, ?_, ?_, ?_, hv.globals, hv.unfinished⟩, fun i S hS => ?_,
    fun i V hV => ⟨V, hV, rfl, rfl, .refl _⟩⟩
  · intro i S hS p hp
    obtain ⟨S₀, hS₀, hp₀, -⟩ := hback i S hS
    exact hv.parent i S₀ hS₀ p (hp₀ ▸ hp)
  · intro i S hS name v hname
    obtain ⟨S₀, hS₀, -, -, rfl | ⟨hi, rfl⟩⟩ := hback i S hS
    · exact hv.names i S hS₀ name v hname
    · obtain hold | ⟨V, hV, hscope, hVname⟩ := hnames S₀ name v hname
      · exact hv.names i S₀ hS₀ name v hold
      · exact ⟨V, hV, by rw [hscope, ← hi], hVname⟩
  · intro i S hS v hmem
    obtain ⟨S₀, hS₀, -, ho, -⟩ := hback i S hS
    exact hv.order i S₀ hS₀ v (ho ▸ hmem)
  · intro i S hS
    obtain ⟨S₀, hS₀, -, ho, -⟩ := hback i S hS
    exact ho ▸ hv.nodup i S₀ hS₀
  · intro i V hV
    obtain ⟨S, hS, hmem⟩ := hv.listed i V hV
    obtain ⟨S', hS', -, ho⟩ := hforth _ S hS
    exact ⟨S', hS', ho ▸ hmem⟩
  · obtain ⟨S', hS', hp, -⟩ := hforth i S hS
    exact ⟨S', hS', hp⟩

/-- **A variable is changed**, but neither its name nor its scope, and it moves at most to an
environment. -/
theorem leads_modifyVar (hv : t.Valid) (v : VarId) (f : Variable → Variable)
    (hname : ∀ V, (f V).name = V.name) (hscope : ∀ V, (f V).scope = V.scope)
    (hmoves : ∀ V, t.vars[v.index]? = some V → V.storage.Moves (f V).storage) :
    t.Leads (t.modifyVar v f) := by
  have hback : ∀ (i : Nat) V, (t.modifyVar v f).vars[i]? = some V → ∃ V₀, t.vars[i]? = some V₀ ∧
      V.scope = V₀.scope ∧ V₀.storage.Moves V.storage := by
    intro i V hV
    rw [modifyVar_getElem?] at hV
    by_cases hi : v.index = i
    · rw [if_pos hi] at hV
      obtain ⟨V₀, hV₀, rfl⟩ := Option.map_eq_some_iff.mp hV
      exact ⟨V₀, hV₀, hscope V₀, hmoves V₀ (by rw [hi, hV₀])⟩
    · rw [if_neg hi] at hV
      exact ⟨V, hV, rfl, .refl _⟩
  have hforth : ∀ (i : Nat) V, t.vars[i]? = some V → ∃ V', (t.modifyVar v f).vars[i]? = some V' ∧
      V'.name = V.name ∧ V'.scope = V.scope ∧ V.storage.Moves V'.storage := by
    intro i V hV
    rw [modifyVar_getElem?, hV]
    by_cases hi : v.index = i
    · rw [if_pos hi]
      exact ⟨f V, rfl, hname V, hscope V, hmoves V (by rw [hi, hV])⟩
    · rw [if_neg hi]
      exact ⟨V, rfl, rfl, rfl, .refl _⟩
  refine ⟨⟨hv.parent, ?_, ?_, hv.nodup, ?_, ?_, hv.unfinished⟩, fun i S hS => ⟨S, hS, rfl⟩, hforth⟩
  · intro i S hS name w hw
    obtain ⟨V, hV, hs, hn⟩ := hv.names i S hS name w hw
    obtain ⟨V', hV', hn', hs', -⟩ := hforth _ V hV
    exact ⟨V', hV', hs'.trans hs, hn'.trans hn⟩
  · intro i S hS w hw
    obtain ⟨V, hV, hs⟩ := hv.order i S hS w hw
    obtain ⟨V', hV', -, hs', -⟩ := hforth _ V hV
    exact ⟨V', hV', hs'.trans hs⟩
  · intro i V hV
    obtain ⟨V₀, hV₀, hs, -⟩ := hback i V hV
    rw [hs]
    exact hv.listed i V₀ hV₀
  · intro i V hV hglobal
    obtain ⟨V₀, hV₀, hs, hmoved⟩ := hback i V hV
    exact hs.trans (hv.globals i V₀ hV₀ (hmoved.global hglobal))

/-! ## Declaring -/

/-- **A scope is added** in one that is there. -/
theorem leads_pushScope (hv : t.Valid) {parent : ScopeId} (hp : parent.index < t.scopes.size)
    (name : String) : t.Leads (t.pushScope parent name).2 := by
  have hold : ∀ (i : Nat) S, t.scopes[i]? = some S → (t.pushScope parent name).2.scopes[i]? = some S := by
    intro i S hS
    obtain ⟨hlt, -⟩ := Array.getElem?_eq_some_iff.mp hS
    rw [pushScope, Array.getElem?_push_lt hlt, ← hS, Array.getElem?_eq_getElem hlt]
  have hback : ∀ (i : Nat) S, (t.pushScope parent name).2.scopes[i]? = some S →
      t.scopes[i]? = some S ∨ i = t.scopes.size ∧ S = { parent := some parent, name } := by
    intro i S hS
    rw [pushScope, Array.getElem?_push] at hS
    by_cases hi : i = t.scopes.size
    · rw [if_pos hi] at hS
      exact .inr ⟨hi, (Option.some.inj hS).symm⟩
    · rw [if_neg hi] at hS
      exact .inl hS
  refine ⟨⟨?_, ?_, ?_, ?_, ?_, hv.globals, hv.unfinished⟩, fun i S hS => ⟨S, hold i S hS, rfl⟩,
    fun i V hV => ⟨V, hV, rfl, rfl, .refl _⟩⟩
  · intro i S hS p hparent
    obtain hS | ⟨rfl, rfl⟩ := hback i S hS
    · exact hv.parent i S hS p hparent
    · cases hparent
      exact hp
  · intro i S hS own v hown
    obtain hS | ⟨rfl, rfl⟩ := hback i S hS
    · exact hv.names i S hS own v hown
    · simp [Scope.own?] at hown
  · intro i S hS v hmem
    obtain hS | ⟨rfl, rfl⟩ := hback i S hS
    · exact hv.order i S hS v hmem
    · simp at hmem
  · intro i S hS
    obtain hS | ⟨rfl, rfl⟩ := hback i S hS
    · exact hv.nodup i S hS
    · simp
  · intro i V hV
    obtain ⟨S, hS, hmem⟩ := hv.listed i V hV
    exact ⟨S, hold _ S hS, hmem⟩

/-- The scope that is added is the last one. -/
theorem pushScope_getElem? (parent : ScopeId) (name : String) :
    (t.pushScope parent name).2.scopes[t.scopes.size]? = some { parent := some parent, name } :=
  Array.getElem?_push_size

/-- The variable that is added is found. -/
theorem insert_getElem? (V : Variable) : (t.insert V).2.vars[(t.insert V).1.index]? = some V :=
  Array.getElem?_push_size

/-- The variables stay when one is added. -/
theorem insert_vars {V W : Variable} {i : Nat} (hW : t.vars[i]? = some W) :
    (t.insert V).2.vars[i]? = some W := by
  obtain ⟨hlt, -⟩ := Array.getElem?_eq_some_iff.mp hW
  show (t.vars.push V)[i]? = some W
  rw [Array.getElem?_push_lt hlt, ← hW, Array.getElem?_eq_getElem hlt]

/-- The variables after one was added. -/
theorem insert_cases {V W : Variable} {i : Nat} (hW : (t.insert V).2.vars[i]? = some W) :
    i = t.vars.size ∧ W = V ∨ t.vars[i]? = some W := by
  rw [show (t.insert V).2.vars = t.vars.push V from rfl, Array.getElem?_push] at hW
  split at hW
  · next hi => exact .inl ⟨hi, (Option.some.inj hW).symm⟩
  · exact .inr hW

/-- No scope loses anything when a variable is added, and the scope of the variable lists it. -/
theorem insert_scopes (V : Variable) {i : Nat} {S : Scope} (hS : t.scopes[i]? = some S) :
    ∃ S', (t.insert V).2.scopes[i]? = some S' ∧ S'.parent = S.parent ∧ (∀ v ∈ S.order, v ∈ S'.order) ∧
      (V.scope.index = i → (⟨t.vars.size⟩ : VarId) ∈ S'.order) := by
  have hS₁ : { t with vars := t.vars.push V }.scopes[i]? = some S := hS
  rw [insert, modifyScope_getElem?, hS₁]
  by_cases hi : V.scope.index = i
  · rw [if_pos hi]
    exact ⟨_, rfl, rfl, fun v hm => Array.mem_push_of_mem _ hm, fun _ => Array.mem_push_self⟩
  · rw [if_neg hi]
    exact ⟨S, rfl, rfl, fun v hm => hm, fun h => absurd h hi⟩

/-- A scope after a variable was added: it is what it was, or the variable is its last one. -/
theorem insert_scope_cases {V : Variable} {i : Nat} {S : Scope} (hS : (t.insert V).2.scopes[i]? = some S) :
    ∃ S₀, t.scopes[i]? = some S₀ ∧ S.parent = S₀.parent ∧ (S = S₀ ∨ V.scope = ⟨i⟩ ∧ S = { S₀ with
      names := S₀.names.insert V.name ⟨t.vars.size⟩, order := S₀.order.push ⟨t.vars.size⟩ }) := by
  rw [insert, modifyScope_getElem?] at hS
  by_cases hi : V.scope.index = i
  · rw [if_pos hi] at hS
    obtain ⟨S₀, hS₀, rfl⟩ := Option.map_eq_some_iff.mp hS
    exact ⟨S₀, hS₀, rfl, .inr ⟨by rw [← hi], rfl⟩⟩
  · rw [if_neg hi] at hS
    exact ⟨S, hS, rfl, .inl rfl⟩

/-- **A variable is added** to a scope that is there. -/
theorem leads_insert (hv : t.Valid) {V : Variable} (hs : V.scope.index < t.scopes.size)
    (hglobal : V.storage = .global → V.scope = .global) : t.Leads (t.insert V).2 := by
  refine ⟨⟨?_, ?_, ?_, ?_, ?_, ?_, hv.unfinished⟩, fun i S hS => ?_,
    fun i W hW => ⟨W, insert_vars hW, rfl, rfl, .refl _⟩⟩
  · intro i S hS p hp
    obtain ⟨S₀, hS₀, hparent, -⟩ := insert_scope_cases hS
    exact hv.parent i S₀ hS₀ p (hparent ▸ hp)
  · intro i S hS name v hname
    obtain ⟨S₀, hS₀, -, rfl | ⟨hscope, rfl⟩⟩ := insert_scope_cases hS
    · obtain ⟨W, hW, h⟩ := hv.names i S hS₀ name v hname
      exact ⟨W, insert_vars hW, h⟩
    · -- The name stands for the new variable, or for what it stood for before.
      rw [Scope.own?, Std.TreeMap.getElem?_insert] at hname
      by_cases hsame : compare V.name name = .eq
      · rw [if_pos hsame] at hname
        cases hname
        exact ⟨V, insert_getElem? V, hscope, by simpa using hsame⟩
      · rw [if_neg hsame] at hname
        obtain ⟨W, hW, h⟩ := hv.names i S₀ hS₀ name v hname
        exact ⟨W, insert_vars hW, h⟩
  · intro i S hS v hmem
    obtain ⟨S₀, hS₀, -, rfl | ⟨hscope, rfl⟩⟩ := insert_scope_cases hS
    · obtain ⟨W, hW, h⟩ := hv.order i S hS₀ v hmem
      exact ⟨W, insert_vars hW, h⟩
    · obtain hmem | rfl := Array.mem_push.mp hmem
      · obtain ⟨W, hW, h⟩ := hv.order i S₀ hS₀ v hmem
        exact ⟨W, insert_vars hW, h⟩
      · exact ⟨V, insert_getElem? V, hscope⟩
  · intro i S hS
    obtain ⟨S₀, hS₀, -, rfl | ⟨hscope, rfl⟩⟩ := insert_scope_cases hS
    · exact hv.nodup i S hS₀
    · rw [Array.toList_push, List.nodup_append]
      refine ⟨hv.nodup i S₀ hS₀, by simp, fun v hmem w hw => ?_⟩
      obtain ⟨W, hW, -⟩ := hv.order i S₀ hS₀ v (by simpa using hmem)
      obtain ⟨hlt, -⟩ := Array.getElem?_eq_some_iff.mp hW
      rw [List.mem_singleton] at hw
      rintro rfl
      rw [hw] at hlt
      exact absurd hlt (Nat.lt_irrefl _)
  · intro i W hW
    obtain ⟨hi, rfl⟩ | hW := insert_cases hW
    · obtain ⟨S', hS', -, -, hmem⟩ := insert_scopes W (Array.getElem?_eq_getElem hs)
      exact ⟨S', hS', hi ▸ hmem rfl⟩
    · obtain ⟨S, hS, hmem⟩ := hv.listed i W hW
      obtain ⟨S', hS', -, hkeep, -⟩ := insert_scopes V hS
      exact ⟨S', hS', hkeep _ hmem⟩
  · intro i W hW
    obtain ⟨-, rfl⟩ | hW := insert_cases hW
    · exact hglobal
    · exact hv.globals i W hW
  · obtain ⟨S', hS', hparent, -⟩ := insert_scopes V hS
    exact ⟨S', hS', hparent⟩

/-- The variable of a name that a scope declares. -/
theorem Valid.own (hv : t.Valid) {s : ScopeId} {name : String} {v : VarId}
    (h : (t.scope s).own? name = some v) :
    ∃ V, t.vars[v.index]? = some V ∧ V.scope = s ∧ V.name = name := by
  rw [scope] at h
  rcases hS : t.scopes[s.index]? with _ | S
  · rw [hS] at h
    simp [Scope.own?, default, instInhabitedScope.default] at h
  · rw [hS] at h
    exact hv.names _ S hS name v h

/-- A name stands for a variable of a scope. -/
def Declares (t : ScopeTable) (s : ScopeId) (name : String) (v : VarId) : Prop :=
  ∃ V, t.vars[v.index]? = some V ∧ V.scope = s ∧ V.name = name

/-- What a scope declares it declares later on, too. -/
theorem Declares.mono {t' : ScopeTable} {s : ScopeId} {name : String} {v : VarId}
    (h : t.Declares s name v) (hext : t.Extends t') : t'.Declares s name v := by
  obtain ⟨V, hV, hscope, hname⟩ := h
  obtain ⟨V', hV', hname', hscope', -⟩ := hext.vars _ V hV
  exact ⟨V', hV', hscope'.trans hscope, hname'.trans hname⟩

/-- **A name is declared.** -/
theorem leads_declare (hv : t.Valid) {s : ScopeId} (hs : s.index < t.scopes.size) (name : String) :
    t.Leads (t.declare s name).2 ∧ (t.declare s name).2.Declares s name (t.declare s name).1 := by
  rw [declare]
  split
  · next v hown => exact ⟨.refl hv, hv.own hown⟩
  · refine ⟨leads_insert hv hs fun h => ?_, _, insert_getElem? _, rfl, rfl⟩
    simp only at h ⊢
    split at h
    · assumption
    · cases h

/-- **A parameter is declared.** -/
theorem leads_declareParameter (hv : t.Valid) {s : ScopeId} (hs : s.index < t.scopes.size)
    (name : String) :
    t.Leads (t.declareParameter s name).2 ∧
      (t.declareParameter s name).2.Declares s name (t.declareParameter s name).1 := by
  obtain ⟨hdeclare, hdeclares⟩ := leads_declare hv hs name
  have hmark := leads_modifyVar hdeclare.valid (t.declare s name).1
    (fun r => { r with isParameter := true }) (fun _ => rfl) (fun _ => rfl) fun _ _ => .refl _
  exact ⟨hdeclare.trans hmark, hdeclares.mono hmark.ext⟩

/-- **A binding is opened**: its variable is new, and what the name stood for belongs to the scope. -/
theorem leads_openBinding (hv : t.Valid) {s : ScopeId} (hs : s.index < t.scopes.size) (name : String) :
    t.Leads (t.openBinding s name).2 ∧
      (t.openBinding s name).2.Declares s name (t.openBinding s name).1.1 ∧
      ∀ v ∈ (t.openBinding s name).1.2, t.Declares s name v :=
  ⟨leads_insert hv hs fun h => (by cases h), ⟨_, insert_getElem? _, rfl, rfl⟩, fun _ hv' => hv.own hv'⟩

/-- **A binding is closed**: the name stands for what it stood for before. -/
theorem leads_closeBinding (hv : t.Valid) {s : ScopeId} {name : String} {shadowed : Option VarId}
    (hshadowed : ∀ v ∈ shadowed, t.Declares s name v) :
    t.Leads (t.closeBinding s name shadowed) := by
  refine leads_modifyScope hv s _ (fun _ => rfl) (fun _ => rfl) fun S other v hother => ?_
  rcases shadowed with _ | w
  · rw [Scope.own?, Std.TreeMap.getElem?_erase] at hother
    split at hother
    · cases hother
    · exact .inl hother
  · rw [Scope.own?, Std.TreeMap.getElem?_insert] at hother
    split at hother
    · next hsame =>
      cases hother
      obtain ⟨V, hV, hscope, hname⟩ := hshadowed v rfl
      exact .inr ⟨V, hV, hscope, hname.trans (by simpa using hsame)⟩
    · exact .inl hother

/-! ## Resolving -/

/-- What is looked up is a variable of that name. -/
theorem Valid.lookup (hv : t.Valid) {s : ScopeId} {name : String} {v : VarId}
    (h : t.lookup? s name = some v) : ∃ V, t.vars[v.index]? = some V ∧ V.name = name := by
  obtain ⟨id, -, hown⟩ := List.exists_of_findSome?_eq_some h
  obtain ⟨V, hV, -, hname⟩ := hv.own hown
  exact ⟨V, hV, hname⟩

/-- Changes of scopes that neither move them nor touch their variables. -/
theorem leads_foldl_modifyScope (f : Scope → Scope) (hparent : ∀ S, (f S).parent = S.parent)
    (horder : ∀ S, (f S).order = S.order) (hnames : ∀ S, (f S).names = S.names)
    (scopes : List ScopeId) (hv : t.Valid) :
    t.Leads (scopes.foldl (fun t s => t.modifyScope s f) t) := by
  induction scopes generalizing t with
  | nil => exact .refl hv
  | cons s rest ih =>
    have hone := leads_modifyScope hv s f hparent horder fun S name v hown =>
      .inl (by rwa [Scope.own?, hnames] at hown)
    exact hone.trans (ih hone.valid)

/-- Capturing leaves variables alone. -/
theorem capture_vars (v : VarId) (scopes : List ScopeId) : (t.capture v scopes).vars = t.vars := by
  rw [capture]
  induction scopes generalizing t with
  | nil => rfl
  | cons s rest ih => exact ih

/-- A use of a variable from a scope: of its own, a global, or one that is kept in an environment. -/
def Reaches (t : ScopeTable) (s : ScopeId) (name : String) (v : VarId) : Prop :=
  ∃ V, t.vars[v.index]? = some V ∧ V.name = name ∧
    (V.scope = s ∨ V.storage = .global ∨ V.storage = .environment)

/-- What a scope reaches it reaches later on, too. -/
theorem Reaches.mono {t' : ScopeTable} {s : ScopeId} {name : String} {v : VarId}
    (h : t.Reaches s name v) (hext : t.Extends t') : t'.Reaches s name v := by
  obtain ⟨V, hV, hname, huse⟩ := h
  obtain ⟨V', hV', hname', hscope', hmoves⟩ := hext.vars _ V hV
  refine ⟨V', hV', hname'.trans hname, ?_⟩
  obtain hscope | hglobal | henv := huse
  · exact .inl (hscope'.trans hscope)
  · obtain h | ⟨h, -⟩ := hmoves
    · exact .inr (.inl (h.trans hglobal))
    · rw [hglobal] at h
      cases h
  · obtain h | ⟨h, -⟩ := hmoves
    · exact .inr (.inr (h.trans henv))
    · rw [henv] at h
      cases h

/-- **A name is resolved**: its variable can be reached. -/
theorem leads_resolve (hv : t.Valid) (hglobal : 0 < t.scopes.size) (s : ScopeId) (name : String) :
    t.Leads (t.resolve s name).2 ∧ (t.resolve s name).2.Reaches s name (t.resolve s name).1 := by
  rw [resolve]
  split
  · exact ⟨leads_insert hv hglobal fun _ => rfl, _, insert_getElem? _, rfl, .inr (.inl rfl)⟩
  · next v hlookup =>
    obtain ⟨V, hV, hname⟩ := hv.lookup hlookup
    have hvar : t.var v = V := by simp [var, hV]
    simp only
    split
    · next hown =>
      refine ⟨.refl hv, V, hV, hname, ?_⟩
      rw [hvar, Bool.or_eq_true, decide_eq_true_iff] at hown
      obtain hown | hglobal := hown
      · exact .inl hown
      · exact .inr (.inl (by simpa [Variable.isGlobal] using hglobal))
    · next hother =>
      -- A variable of a function further out moves to the environment, if it is not there already.
      rw [hvar, Bool.or_eq_true, not_or] at hother
      have hstorage : V.storage ≠ .global := by simpa [Variable.isGlobal] using hother.2
      have hcapture := leads_foldl_modifyScope
        (fun scope => { scope with captures := scope.captures.insert v }) (fun _ => rfl)
        (fun _ => rfl) (fun _ => rfl) ((t.chain s).takeWhile (· != (t.var v).scope)) hv
      have hV₁ : (t.capture v ((t.chain s).takeWhile (· != (t.var v).scope))).vars[v.index]? =
          some V := by rw [capture_vars, hV]
      have hmove := leads_modifyVar hcapture.valid v
        (fun r => { r with isClosedOver := true, storage := .environment }) (fun _ => rfl)
        (fun _ => rfl) fun W hW => by
          rw [show t.capture v _ = _ from rfl] at hV₁
          obtain rfl : V = W := Option.some.inj (hV₁.symm.trans hW)
          rcases hkept : V.storage with _ | _ | _
          · exact .inr ⟨rfl, rfl⟩
          · exact .inl rfl
          · exact absurd hkept hstorage
      refine ⟨hcapture.trans hmove, { V with isClosedOver := true, storage := .environment }, ?_,
        hname, .inr (.inr rfl)⟩
      rw [modifyVar_getElem?, if_pos rfl, hV₁]
      rfl

/-- **Scopes are marked** for lookup by name. -/
theorem leads_markDynamic (hv : t.Valid) (s : ScopeId) : t.Leads (t.markDynamic s) :=
  leads_foldl_modifyScope (fun scope => { scope with isDynamic := true }) (fun _ => rfl)
    (fun _ => rfl) (fun _ => rfl) _ hv

/-! ## Hints -/

/-- **A way of use is noted.** -/
theorem leads_addUsage (hv : t.Valid) (v : VarId) (u : Usage) : t.Leads (t.addUsage v u) := by
  refine leads_modifyVar hv v _ (fun V => ?_) (fun V => ?_) fun V _ => ?_
  · split <;> rfl
  · split <;> rfl
  · split
    · exact .refl _
    · exact .refl _

/-- **An assigned type is noted.** -/
theorem leads_addAssigned (hv : t.Valid) (v : VarId) (type : ValueType) :
    t.Leads (t.addAssigned v type) := by
  refine leads_modifyVar hv v _ (fun V => ?_) (fun V => ?_) fun V _ => ?_
  · split <;> rfl
  · split <;> rfl
  · split
    · exact .refl _
    · exact .refl _

end

end ScopeTable

end ScriptEngine
