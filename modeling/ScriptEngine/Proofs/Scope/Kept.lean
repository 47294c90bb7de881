import ScriptEngine.Proofs.Scope.Growth

/-!
# Environments of finished tables

The environment of a scope lists the variables that are kept there in the order of their declaration, and a
variable's slot is its position (`ScopeTable.kept`, `ScopeTable.Listed`). So of several variables of one
name the one that was declared first is found when the name is looked up: `Listed.findIdx?_envNames`. In a
scope where names are looked up at run time no variable is left in the frame.
-/

namespace ScriptEngine

namespace ScopeTable

/-- The variables of a scope that are kept in its environment, in the order of their declaration. -/
def kept (T : ScopeTable) (s : ScopeId) : List VarId :=
  storedIn T.vars .environment (T.scope s).order.toList

/-- A finished table lists the variables of the one it was made from. -/
structure Listed (t T : ScopeTable) : Prop where
  /-- Names stand for what they stood for. -/
  own : ∀ s m, (T.scope s).own? m = (t.scope s).own? m
  /-- The order is that of the declarations. -/
  order : ∀ s, (T.scope s).order = (t.scope s).order
  /-- Marked scopes are marked. -/
  dynamic : ∀ s, (T.scope s).isDynamic = (t.scope s).isDynamic
  /-- Environments list what is kept. -/
  names : ∀ s, (T.scope s).envNames.toList = (T.kept s).map fun v => (T.var v).name
  /-- Slots are positions. -/
  slots : ∀ s i v, (T.kept s)[i]? = some v → (T.var v).slot = i
  /-- In marked scopes no variable is in the frame. -/
  moved : ∀ s, (T.scope s).isDynamic = true → ∀ v ∈ (T.scope s).order, ∀ V, T.vars[v.index]? = some V →
    V.storage ≠ .frame

/-- **A scope of a finished table** is what it was, and its variables are placed. A scope that is not there
has no variables. -/
theorem Finishes.scope {t T : ScopeTable} (h : t.Finishes T) (s : ScopeId) : ∃ layout,
    T.scope s = laidOut (t.scope s) layout ∧
      Places (t.scope s).isDynamic (t.scope s).order.toList ({}, t.vars) (layout, T.vars) := by
  rcases hS : t.scopes[s.index]? with _ | S
  · have hout : T.scopes[s.index]? = none := by
      rw [Array.getElem?_eq_none_iff, h.scopes]
      exact Array.getElem?_eq_none_iff.mp hS
    rw [ScopeTable.scope, ScopeTable.scope, hS, hout]
    exact ⟨{}, rfl, fun v hv => absurd hv List.not_mem_nil, fun _ _ => rfl, fun _ _ => rfl, rfl⟩
  · obtain ⟨layout, hlaid, hplaces⟩ := h.laid s.index S hS
    rw [ScopeTable.scope, ScopeTable.scope, hS, hlaid]
    exact ⟨layout, rfl, hplaces⟩

/-- In a scope where names are looked up at run time no variable stays in the frame. -/
theorem finalStorage_ne_frame (k : Storage) : FunctionLayout.finalStorage true k ≠ .frame := by
  cases k <;> decide

/-- **Finished tables list variables in the order of their declaration.** -/
theorem listed_finish {t : ScopeTable} (hv : t.Valid) : t.Listed t.finish := by
  have h := finishes hv
  generalize t.finish = T at h
  refine ⟨fun s m => ?_, fun s => ?_, fun s => ?_, fun s => ?_, fun s i v hi => ?_, fun s hd v hmem V hV => ?_⟩
  · obtain ⟨layout, hscope, -⟩ := h.scope s
    rw [hscope]
    rfl
  · obtain ⟨layout, hscope, -⟩ := h.scope s
    rw [hscope]
    rfl
  · obtain ⟨layout, hscope, -⟩ := h.scope s
    rw [hscope]
    rfl
  · obtain ⟨layout, hscope, hplaces⟩ := h.scope s
    rw [kept, hscope]
    exact hplaces.names
  · obtain ⟨layout, hscope, hplaces⟩ := h.scope s
    rw [kept, hscope] at hi
    exact (hplaces.slot_eq (by decide) hi).trans (Nat.zero_add i)
  · obtain ⟨layout, hscope, hplaces⟩ := h.scope s
    rw [hscope] at hd hmem
    obtain ⟨V₀, S, -, hV₀, hS, hlisted, -, -, hrecord⟩ := h.var hv hV
    obtain ⟨slot, hslot⟩ := hplaces.settled v (Array.mem_def.mp hmem) V₀ hV₀
    obtain rfl := Option.some.inj (hslot.symm.trans hV)
    rw [show (t.scope s).isDynamic = true from hd]
    exact finalStorage_ne_frame V₀.storage

/-! ## Looking a name up -/

/-- The variable that is found under a name in the environment of a scope: the first of that name. -/
def keptNamed? (T : ScopeTable) (s : ScopeId) (m : String) : Option VarId :=
  (T.kept s).find? fun v => (T.var v).name == m

section

variable {t T : ScopeTable} {s : ScopeId} {m : String} {v : VarId}

/-- What is found is kept in the environment of the scope, under the name. -/
theorem keptNamed?_spec (h : T.keptNamed? s m = some v) :
    v ∈ (T.scope s).order ∧ (T.var v).storage = .environment ∧ (T.var v).name = m := by
  obtain ⟨hmem, hkept⟩ := List.mem_filter.mp (List.mem_of_find?_eq_some h)
  have hname : ((T.var v).name == m) = true := List.find?_some (p := fun v => (T.var v).name == m) h
  exact ⟨Array.mem_def.mpr hmem, of_decide_eq_true hkept, beq_iff_eq.mp hname⟩

/-- **The slot of a name** in an environment is that of the variable that was declared first. -/
theorem Listed.findIdx?_envNames (h : t.Listed T) (s : ScopeId) (m : String) :
    (T.scope s).envNames.findIdx? (· == m) = (T.keptNamed? s m).map fun v => (T.var v).slot := by
  have hslots := h.slots s
  have hlist : (T.scope s).envNames.findIdx? (· == m) = (T.scope s).envNames.toList.findIdx? (· == m) := by
    rcases (T.scope s).envNames with ⟨names⟩
    exact List.findIdx?_toArray ..
  rw [hlist, h.names, List.findIdx?_map, keptNamed?]
  generalize T.kept s = vs at hslots
  rcases hfind : vs.find? (fun v => (T.var v).name == m) with _ | v
  · rw [Option.map_none, List.findIdx?_eq_none_iff]
    intro v hv
    simpa using List.find?_eq_none.mp hfind v hv
  · obtain ⟨hm, i, hi, hv, hbefore⟩ := List.find?_eq_some_iff_getElem.mp hfind
    rw [Option.map_some, hslots i v (by rw [← hv]; exact List.getElem?_eq_getElem hi)]
    refine List.findIdx?_eq_some_iff_getElem.mpr ⟨hi, ?_, fun j hj => ?_⟩
    · rw [hv]
      exact hm
    · simpa using hbefore j hj

/-- A variable that a scope lists is its own. -/
theorem Valid.scope_eq (hv : t.Valid) (h : v ∈ (t.scope s).order) :
    ∃ V, t.vars[v.index]? = some V ∧ V.scope = s := by
  rcases hS : t.scopes[s.index]? with _ | S
  · rw [scope, hS] at h
    exact absurd h (Array.not_mem_empty v)
  · rw [scope, hS] at h
    exact hv.order s.index S hS v h

/-- **A name with only one variable** is found where it is bound, if names are looked up at run time, unless
it is a property of the global object. -/
theorem Listed.keptNamed?_of_sole (h : t.Listed T) (hv : t.Valid) (hext : t.Extends T)
    (hdynamic : (t.scope s).isDynamic = true) (hsole : t.Sole s m) :
    T.keptNamed? s m = ((t.scope s).own? m).filter fun v => !(T.var v).isGlobal := by
  -- What is found is the one variable that the name stands for.
  have hfound : ∀ v, T.keptNamed? s m = some v → (t.scope s).own? m = some v ∧
      (T.var v).storage = .environment := by
    intro v hfind
    obtain ⟨hmem, hstorage, hname⟩ := keptNamed?_spec hfind
    obtain ⟨V, hV, hscope⟩ := hv.scope_eq (h.order s ▸ hmem)
    obtain ⟨V', hV', hname', -⟩ := hext.vars _ V hV
    rw [var, hV'] at hname
    exact ⟨hsole v.index V hV hscope (hname'.symm.trans hname), hstorage⟩
  rcases hown : (t.scope s).own? m with _ | v
  · rcases hfind : T.keptNamed? s m with _ | w
    · rfl
    · rw [(hfound w hfind).1] at hown
      cases hown
  · obtain ⟨V, hV, hscope, hname⟩ := hv.own hown
    obtain ⟨V', hV', hname', -⟩ := hext.vars _ V hV
    have hvar : T.var v = V' := by rw [var, hV']; rfl
    obtain ⟨S, hS, hlisted⟩ := hv.listed v.index V hV
    have hmem : v ∈ (T.scope s).order := by
      rw [h.order, ← hscope, scope, hS]
      exact hlisted
    have hmoved := h.moved s ((h.dynamic s).trans hdynamic) v hmem V' hV'
    rcases hfind : T.keptNamed? s m with _ | w
    · -- Then the variable is not kept in the environment.
      rcases hstorage : V'.storage with _ | _ | _
      · exact absurd hstorage hmoved
      · have hkept : v ∈ T.kept s :=
          List.mem_filter.mpr ⟨Array.mem_def.mp hmem, decide_eq_true (hvar ▸ hstorage : (T.var v).storage = _)⟩
        have hnone := List.find?_eq_none.mp hfind v hkept
        rw [hvar, hname', hname] at hnone
        exact absurd (beq_self_eq_true m) hnone
      · rw [Option.filter_some, hvar, Variable.isGlobal, hstorage]
        rfl
    · obtain ⟨hownw, hstorage⟩ := hfound w hfind
      obtain rfl : v = w := Option.some.inj (hown.symm.trans hownw)
      rw [Option.filter_some, Variable.isGlobal, hstorage]
      rfl

end

end ScopeTable

end ScriptEngine
