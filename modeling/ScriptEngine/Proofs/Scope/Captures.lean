import Mathlib.Data.List.Nodup
import Mathlib.Logic.Relation
import ScriptEngine.Proofs.Scope.Growth
import ScriptEngine.Proofs.Scope.Resolution

/-!
# Captures

A function that uses a variable of a function further out captures it, and so does every function in
between. The table keeps this in three places: with the variable, in the places where variables are kept,
and with the scopes. Here these agree in every table that is built, in whatever order.

* `Building.Step` is one operation on a table that is being built, together with the bindings that are
  open: a binding is closed with what its opening gave, the innermost one first.
* `ScopeTable.Linked` is the invariant, said one scope at a time: the scope around a capturing scope declares
  the variable or captures it, too.
* `ScopeTable.Coherent` is what follows for whole chains of scopes, and `ScopeTable.Retains` what no
  operation takes back.
-/

namespace ScriptEngine

namespace ScopeTable

/-- A scope lies around another one, however far out. -/
def Surrounds (t : ScopeTable) : ScopeId → ScopeId → Prop := Relation.TransGen t.Encloses

/-- The lists, names and captures of a table tell one story. -/
structure Coherent (t : ScopeTable) : Prop where
  /-- A variable is listed once by its own scope, and by no other. -/
  listed : ∀ (v : VarId) V, t.vars[v.index]? = some V → V.scope.index < t.scopes.size ∧
    ∀ s, (t.scope s).order.toList.count v = if s = V.scope then 1 else 0
  /-- A scope lists nothing but variables. -/
  known : ∀ s, ∀ v ∈ (t.scope s).order, v.index < t.vars.size
  /-- A name stands for a variable of that name and scope. -/
  names : ∀ s name v, (t.scope s).own? name = some v → t.Declares s name v
  /-- What a scope captures is kept in an environment and closed over. It belongs to a scope further out,
  and every scope in between captures it, too. -/
  captured : ∀ s v, v ∈ (t.scope s).captures → ∃ V, t.vars[v.index]? = some V ∧
    V.storage = .environment ∧ V.isClosedOver = true ∧ t.Surrounds V.scope s ∧
    ∀ m, t.Surrounds V.scope m → t.Surrounds m s → v ∈ (t.scope m).captures
  /-- The environment keeps exactly the variables that are closed over. -/
  environment : ∀ (v : VarId) V, t.vars[v.index]? = some V → (V.storage = .environment ↔ V.isClosedOver = true)
  /-- Exactly those are closed over that some scope captures. -/
  closedOver : ∀ (v : VarId) V, t.vars[v.index]? = some V →
    (V.isClosedOver = true ↔ ∃ s, s.index < t.scopes.size ∧ v ∈ (t.scope s).captures)
  /-- Properties of the global object are not captured. -/
  globals : ∀ (v : VarId) V, t.vars[v.index]? = some V → V.storage = .global → ∀ s, v ∉ (t.scope s).captures

/-- A later table has forgotten no capture. -/
structure Retains (t t' : ScopeTable) : Prop where
  /-- Scopes capture what they captured. -/
  captures : ∀ s v, v ∈ (t.scope s).captures → v ∈ (t'.scope s).captures
  /-- What is closed over stays so, and what is in an environment stays there. -/
  vars : ∀ (v : VarId) V, t.vars[v.index]? = some V → ∃ V', t'.vars[v.index]? = some V' ∧
    (V.isClosedOver = true → V'.isClosedOver = true) ∧
    (V.storage = .environment → V'.storage = .environment)

namespace Retains

variable {t t' t'' : ScopeTable}

/-- No change. -/
theorem refl (t : ScopeTable) : t.Retains t :=
  ⟨fun _ _ h => h, fun _ V hV => ⟨V, hV, id, id⟩⟩

/-- One change after the other. -/
theorem trans (h : t.Retains t') (h' : t'.Retains t'') : t.Retains t'' := by
  refine ⟨fun s v hv => h'.captures s v (h.captures s v hv), fun v V hV => ?_⟩
  obtain ⟨V', hV', hclosed, hkept⟩ := h.vars v V hV
  obtain ⟨V'', hV'', hclosed', hkept'⟩ := h'.vars v V' hV'
  exact ⟨V'', hV'', hclosed' ∘ hclosed, hkept' ∘ hkept⟩

end Retains

/-! ## The invariant, one scope at a time -/

/-- The invariant of captures, one scope at a time. -/
structure Linked (t : ScopeTable) : Prop where
  /-- The scope around a capturing scope declares the variable, or captures it as well. -/
  link : ∀ s v, v ∈ (t.scope s).captures → ∃ V p, t.vars[v.index]? = some V ∧ V.isClosedOver = true ∧
    (t.scope s).parent = some p ∧ (p = V.scope ∨ v ∈ (t.scope p).captures)
  /-- The environment keeps exactly the variables that are closed over. -/
  storage : ∀ (v : VarId) V, t.vars[v.index]? = some V → (V.storage = .environment ↔ V.isClosedOver = true)
  /-- What is closed over is captured. -/
  user : ∀ (v : VarId) V, t.vars[v.index]? = some V → V.isClosedOver = true → ∃ s, v ∈ (t.scope s).captures

/-- Nothing is captured yet. -/
theorem linked_empty : empty.Linked := by
  have hnone : ∀ s v, v ∉ (empty.scope s).captures := by
    intro s v hv
    rcases s with ⟨_ | i⟩
    · exact absurd hv Std.HashSet.not_mem_empty
    · exact absurd hv Std.HashSet.not_mem_empty
  exact ⟨fun s v hv => absurd hv (hnone s v), fun v V hV => by simp [empty] at hV,
    fun v V hV => by simp [empty] at hV⟩

section

variable {t t' : ScopeTable}

/-- The scope around another one, by its number. -/
theorem encloses_iff {outer inner : ScopeId} :
    t.Encloses outer inner ↔ (t.scope inner).parent = some outer := by
  rw [Encloses, scope]
  rcases t.scopes[inner.index]? with _ | S
  · simp [default, instInhabitedScope.default]
  · simp

/-- A scope that captures something is there. -/
theorem lt_of_mem_captures {s : ScopeId} {v : VarId} (h : v ∈ (t.scope s).captures) :
    s.index < t.scopes.size := by
  refine Classical.byContradiction fun hs => ?_
  rw [scope, Array.getElem?_eq_none (Nat.le_of_not_lt hs)] at h
  exact absurd h Std.HashSet.not_mem_empty

/-- Scopes further out have smaller numbers. -/
theorem Valid.lt_of_surrounds (hv : t.Valid) {outer inner : ScopeId} (h : t.Surrounds outer inner) :
    outer.index < inner.index := by
  induction h with
  | single hstep => exact (hv.parent_lt (encloses_iff.mp hstep)).1
  | tail _ hstep ih => exact Nat.lt_trans ih (hv.parent_lt (encloses_iff.mp hstep)).1

/-- What lies around a scope is the scope around it, or lies around that one. -/
theorem surrounds_cases {outer inner p : ScopeId} (h : t.Surrounds outer inner)
    (hp : (t.scope inner).parent = some p) : outer = p ∨ t.Surrounds outer p := by
  cases h with
  | single hstep => exact .inl (Option.some.inj ((encloses_iff.mp hstep).symm.trans hp))
  | tail hout hstep => exact .inr (Option.some.inj ((encloses_iff.mp hstep).symm.trans hp) ▸ hout)

/-- **Captures reach outwards**: from a capturing scope one gets to the scope of the variable, and
everything in between captures the variable. -/
theorem Linked.captured (h : t.Linked) (hv : t.Valid) {s : ScopeId} {v : VarId} {V : Variable}
    (hV : t.vars[v.index]? = some V) (hs : v ∈ (t.scope s).captures) :
    t.Surrounds V.scope s ∧ ∀ m, t.Surrounds V.scope m → t.Surrounds m s → v ∈ (t.scope m).captures := by
  -- One link outwards leads to an earlier scope, so the induction is on the scope.
  induction hi : s.index using Nat.strongRecOn generalizing s with
  | ind i ih =>
    obtain ⟨W, p, hW, -, hp, hnext⟩ := h.link s v hs
    obtain rfl : V = W := Option.some.inj (hV.symm.trans hW)
    have hstep : t.Encloses p s := encloses_iff.mpr hp
    obtain rfl | hcaptures := hnext
    · refine ⟨.single hstep, fun m hout hin => ?_⟩
      have hlt := hv.lt_of_surrounds hout
      obtain rfl | hin' := surrounds_cases hin hp
      · exact absurd hlt (Nat.lt_irrefl _)
      · exact absurd (hv.lt_of_surrounds hin') (Nat.lt_asymm hlt)
    · obtain ⟨hout, hbetween⟩ := ih p.index (hi ▸ (hv.parent_lt hp).1) hcaptures rfl
      refine ⟨hout.tail hstep, fun m hm hin => ?_⟩
      obtain rfl | hin' := surrounds_cases hin hp
      · exact hcaptures
      · exact hbetween m hm hin'

/-- **The invariant gives the whole story.** -/
theorem Linked.coherent (h : t.Linked) (hv : t.Valid) : t.Coherent := by
  have hown : ∀ s v, v ∈ (t.scope s).order → ∃ V, t.vars[v.index]? = some V ∧ V.scope = s := by
    intro s v hmem
    rw [scope] at hmem
    rcases hS : t.scopes[s.index]? with _ | S
    · rw [hS] at hmem
      exact absurd hmem (Array.not_mem_empty v)
    · rw [hS] at hmem
      exact hv.order s.index S hS v hmem
  refine ⟨fun v V hV => ?_, fun s v hmem => ?_, fun s name v hname => hv.own hname, fun s v hs => ?_,
    h.storage, fun v V hV => ⟨fun hclosed => ?_, fun hused => ?_⟩, fun v V hV hglobal s hs => ?_⟩
  · obtain ⟨S, hS, hmem⟩ := hv.listed v.index V hV
    refine ⟨(Array.getElem?_eq_some_iff.mp hS).choose, fun s => ?_⟩
    split
    · next hs =>
      rw [hs, scope, hS]
      exact List.count_eq_one_of_mem (hv.nodup _ S hS) (by simpa using hmem)
    · next hs =>
      refine List.count_eq_zero.mpr fun hmem' => hs ?_
      obtain ⟨W, hW, hscope⟩ := hown s v (by simpa using hmem')
      obtain rfl : V = W := Option.some.inj (hV.symm.trans hW)
      exact hscope.symm
  · obtain ⟨V, hV, -⟩ := hown s v hmem
    exact (Array.getElem?_eq_some_iff.mp hV).choose
  · obtain ⟨V, p, hV, hclosed, -, -⟩ := h.link s v hs
    exact ⟨V, hV, (h.storage v V hV).mpr hclosed, hclosed, h.captured hv hV hs⟩
  · obtain ⟨s, hs⟩ := h.user v V hV hclosed
    exact ⟨s, lt_of_mem_captures hs, hs⟩
  · obtain ⟨s, -, hs⟩ := hused
    obtain ⟨W, p, hW, hclosed, -, -⟩ := h.link s v hs
    obtain rfl : V = W := Option.some.inj (hV.symm.trans hW)
    exact hclosed
  · obtain ⟨W, p, hW, hclosed, -, -⟩ := h.link s v hs
    obtain rfl : V = W := Option.some.inj (hV.symm.trans hW)
    have henv := (h.storage v V hV).mpr hclosed
    rw [hglobal] at henv
    cases henv

/-! ## Operations that capture nothing -/

/-- A change that leaves a table in order and forgets no capture. -/
structure Advances (t t' : ScopeTable) : Prop where
  /-- The tree of scopes is in order. -/
  rooted : t'.Rooted
  /-- So are the captures. -/
  linked : t'.Linked
  /-- The new table extends the old one. -/
  ext : t.Extends t'
  /-- Captures stay. -/
  retains : t.Retains t'

namespace Advances

/-- No change. -/
theorem refl (hr : t.Rooted) (hl : t.Linked) : t.Advances t := ⟨hr, hl, .refl t, .refl t⟩

/-- One change after the other. -/
theorem trans {t'' : ScopeTable} (h : t.Advances t') (h' : t'.Advances t'') : t.Advances t'' :=
  ⟨h'.rooted, h'.linked, h.ext.trans h'.ext, h.retains.trans h'.retains⟩

/-- **A change that captures nothing**: the scopes capture what they captured, and a variable is what it
was, or it is new and not closed over. -/
theorem of_quiet (hl : t.Linked) (hr : t'.Rooted) (hext : t.Extends t')
    (hcaptures : ∀ s, (t'.scope s).captures = (t.scope s).captures)
    (hvars : ∀ (i : Nat) V', t'.vars[i]? = some V' →
      (∃ V, t.vars[i]? = some V ∧ V'.storage = V.storage ∧ V'.isClosedOver = V.isClosedOver) ∨
      t.vars[i]? = none ∧ V'.storage ≠ .environment ∧ V'.isClosedOver = false) : t.Advances t' := by
  have hold : ∀ (i : Nat) V, t.vars[i]? = some V → ∃ V', t'.vars[i]? = some V' ∧ V'.scope = V.scope ∧
      V'.storage = V.storage ∧ V'.isClosedOver = V.isClosedOver := by
    intro i V hV
    obtain ⟨V', hV', -, hscope, -⟩ := hext.vars i V hV
    obtain ⟨W, hW, hstorage, hclosed⟩ | ⟨hnone, -⟩ := hvars i V' hV'
    · obtain rfl : V = W := Option.some.inj (hV.symm.trans hW)
      exact ⟨V', hV', hscope, hstorage, hclosed⟩
    · rw [hnone] at hV
      cases hV
  refine ⟨hr, ⟨fun s v hs => ?_, fun v V' hV' => ?_, fun v V' hV' hclosed' => ?_⟩, hext,
    fun s v hs => hcaptures s ▸ hs, fun v V hV => ?_⟩
  · rw [hcaptures] at hs
    obtain ⟨V, p, hV, hclosed, hp, hnext⟩ := hl.link s v hs
    obtain ⟨V', hV', hscope, -, hclosed'⟩ := hold v.index V hV
    refine ⟨V', p, hV', hclosed'.trans hclosed, (hext.parent_eq (lt_of_mem_captures hs)).trans hp, ?_⟩
    rw [hscope, hcaptures]
    exact hnext
  · obtain ⟨V, hV, hstorage, hclosed⟩ | ⟨-, hstorage, hclosed⟩ := hvars v.index V' hV'
    · rw [hstorage, hclosed]
      exact hl.storage v V hV
    · simp [hstorage, hclosed]
  · obtain ⟨V, hV, -, hclosed⟩ | ⟨-, -, hclosed⟩ := hvars v.index V' hV'
    · obtain ⟨s, hs⟩ := hl.user v V hV (hclosed ▸ hclosed')
      exact ⟨s, (hcaptures s).symm ▸ hs⟩
    · rw [hclosed] at hclosed'
      cases hclosed'
  · obtain ⟨V', hV', -, hstorage, hclosed⟩ := hold v.index V hV
    exact ⟨V', hV', hclosed.trans, hstorage.trans⟩

end Advances

/-- **A scope is added.** -/
theorem advances_pushScope (hr : t.Rooted) (hl : t.Linked) {parent : ScopeId}
    (hp : parent.index < t.scopes.size) (name : String) : t.Advances (t.pushScope parent name).2 := by
  refine .of_quiet hl (hr.pushScope hp name) (leads_pushScope hr.valid hp name).ext (fun s => ?_)
    fun i V hV => .inl ⟨V, hV, rfl, rfl⟩
  rw [scope_pushScope]
  split
  · next hs =>
    rw [scope, Array.getElem?_eq_none (Nat.le_of_eq hs.symm)]
    rfl
  · rfl

/-- **A variable is added** that is not closed over. -/
theorem advances_insert (hr : t.Rooted) (hl : t.Linked) {V : Variable}
    (hs : V.scope.index < t.scopes.size) (hglobal : V.storage = .global → V.scope = .global)
    (hstorage : V.storage ≠ .environment) (hclosed : V.isClosedOver = false) :
    t.Advances (t.insert V).2 := by
  refine .of_quiet hl (hr.insert hs hglobal) (leads_insert hr.valid hs hglobal).ext
    (view_insert Scope.captures (fun _ _ _ => rfl) V) fun i W hW => ?_
  obtain ⟨rfl, rfl⟩ | hW := insert_cases hW
  · exact .inr ⟨Array.getElem?_eq_none (Nat.le_refl _), hstorage, hclosed⟩
  · exact .inl ⟨W, hW, rfl, rfl⟩

/-- **Something is noted about a variable**, but not where it is kept. -/
theorem advances_modifyVar (hr : t.Rooted) (hl : t.Linked) (v : VarId) (f : Variable → Variable)
    (hname : ∀ V, (f V).name = V.name) (hscope : ∀ V, (f V).scope = V.scope)
    (hstorage : ∀ V, (f V).storage = V.storage) (hclosed : ∀ V, (f V).isClosedOver = V.isClosedOver) :
    t.Advances (t.modifyVar v f) := by
  have hleads := leads_modifyVar hr.valid v f hname hscope fun V _ => .inl (hstorage V)
  refine .of_quiet hl (hr.of_same hleads.valid rfl (fun _ => rfl) fun _ => rfl) hleads.ext (fun _ => rfl)
    fun i V hV => .inl ?_
  rw [modifyVar_getElem?] at hV
  split at hV
  · obtain ⟨V₀, hV₀, rfl⟩ := Option.map_eq_some_iff.mp hV
    exact ⟨V₀, hV₀, hstorage V₀, hclosed V₀⟩
  · exact ⟨V, hV, rfl, rfl⟩

/-- **A name is declared.** -/
theorem advances_declare (hr : t.Rooted) (hl : t.Linked) {s : ScopeId} (hs : s.index < t.scopes.size)
    (name : String) : t.Advances (t.declare s name).2 := by
  rw [declare]
  split
  · exact .refl hr hl
  · refine advances_insert hr hl hs (fun hstorage => ?_) (fun hstorage => ?_) rfl
    · simp only at hstorage ⊢
      split at hstorage
      · assumption
      · cases hstorage
    · simp only at hstorage
      split at hstorage
      · cases hstorage
      · cases hstorage

/-- **A parameter is declared.** -/
theorem advances_declareParameter (hr : t.Rooted) (hl : t.Linked) {s : ScopeId}
    (hs : s.index < t.scopes.size) (name : String) : t.Advances (t.declareParameter s name).2 := by
  have hdeclare := advances_declare hr hl hs name
  exact hdeclare.trans (advances_modifyVar hdeclare.rooted hdeclare.linked _ _ (fun _ => rfl) (fun _ => rfl)
    (fun _ => rfl) fun _ => rfl)

/-- **A binding is opened.** -/
theorem advances_openBinding (hr : t.Rooted) (hl : t.Linked) {s : ScopeId}
    (hs : s.index < t.scopes.size) (name : String) : t.Advances (t.openBinding s name).2 :=
  advances_insert hr hl hs (fun h => by cases h) (fun h => by cases h) rfl

/-- **A binding is closed.** -/
theorem advances_closeBinding (hr : t.Rooted) (hl : t.Linked) {s : ScopeId} {name : String}
    {shadowed : Option VarId} (hshadowed : ∀ v ∈ shadowed, t.Declares s name v) :
    t.Advances (t.closeBinding s name shadowed) := by
  have hleads := leads_closeBinding hr.valid hshadowed
  have hview : ∀ {α : Type} (view : Scope → α) (_ : ∀ S names, view { S with names } = view S) id,
      view ((t.closeBinding s name shadowed).scope id) = view (t.scope id) :=
    fun view hview id => view_closeBinding view hview s name shadowed id
  exact .of_quiet hl (hr.of_same hleads.valid (Array.size_modify ..) (hview Scope.parent fun _ _ => rfl)
      (hview Scope.isDynamic fun _ _ => rfl)) hleads.ext (hview Scope.captures fun _ _ => rfl)
    fun i V hV => .inl ⟨V, hV, rfl, rfl⟩

/-- **Scopes are marked** for lookup by name. -/
theorem advances_markDynamic (hr : t.Rooted) (hl : t.Linked) {s : ScopeId}
    (hs : s.index < t.scopes.size) : t.Advances (t.markDynamic s) := by
  refine .of_quiet hl (hr.markDynamic hs) (leads_markDynamic hr.valid s).ext
    (view_markDynamic Scope.captures (fun _ => rfl) s) fun i V hV => .inl ⟨V, ?_, rfl, rfl⟩
  rw [markDynamic, vars_foldl_modifyScope] at hV
  exact hV

/-! ## Resolving -/

/-- What is captured after a variable was noted in some scopes. -/
theorem mem_captures_capture {v w : VarId} {scopes : List ScopeId}
    (hscopes : ∀ s ∈ scopes, s.index < t.scopes.size) (s : ScopeId) :
    w ∈ ((t.capture v scopes).scope s).captures ↔
      w = v ∧ s ∈ scopes ∨ w ∈ (t.scope s).captures := by
  rw [capture]
  induction scopes generalizing t with
  | nil => simp
  | cons s₀ rest ih =>
    have hs₀ := hscopes s₀ List.mem_cons_self
    rw [List.foldl_cons, ih fun id hid => ?_, scope_modifyScope hs₀]
    · by_cases hs : s = s₀
      · rw [if_pos hs]
        simp only [Std.HashSet.mem_insert, beq_iff_eq, hs, List.mem_cons, true_or, and_true]
        grind
      · rw [if_neg hs]
        simp [hs]
    · rw [modifyScope, Array.size_modify]
      exact hscopes id (List.mem_cons_of_mem s₀ hid)

/-- A chain up to another scope starts with the scope itself. -/
theorem Rooted.self_mem_takeWhile (h : t.Rooted) {s d : ScopeId} (hs : s.index < t.scopes.size)
    (hne : s ≠ d) : s ∈ (t.chain s).takeWhile (· != d) := by
  obtain ⟨hchain, -⟩ | ⟨p, -, -, hchain⟩ := h.chain_eq hs
  · rw [hchain, List.takeWhile_cons_of_pos (by simp [hne])]
    exact List.mem_cons_self
  · rw [hchain, List.takeWhile_cons_of_pos (by simp [hne])]
    exact List.mem_cons_self

/-- The scopes of a chain up to one of them: the next one out is that one, or comes before it. -/
theorem Rooted.parent_mem_takeWhile (h : t.Rooted) {s d id : ScopeId} (hs : s.index < t.scopes.size)
    (hd : d ∈ t.chain s) (hid : id ∈ (t.chain s).takeWhile (· != d)) :
    ∃ p, (t.scope id).parent = some p ∧ (p = d ∨ p ∈ (t.chain s).takeWhile (· != d)) := by
  refine h.induct (motive := fun s => d ∈ t.chain s → id ∈ (t.chain s).takeWhile (· != d) →
    ∃ p, (t.scope id).parent = some p ∧ (p = d ∨ p ∈ (t.chain s).takeWhile (· != d)))
    (fun hchain hd hid => ?_) (fun s p hs hp hchain ih hd hid => ?_) hs hd hid
  · rw [hchain, List.mem_singleton] at hd
    rw [hchain, hd] at hid
    simp at hid
  · rw [hchain] at hd hid ⊢
    by_cases hsd : s = d
    · rw [List.takeWhile_cons_of_neg (by simp [hsd])] at hid
      cases hid
    · have hd' : d ∈ t.chain p := (List.mem_cons.mp hd).resolve_left fun h => hsd h.symm
      rw [List.takeWhile_cons_of_pos (by simp [hsd])] at hid ⊢
      obtain rfl | hid := List.mem_cons.mp hid
      · refine ⟨p, hp, ?_⟩
        by_cases hpd : p = d
        · exact .inl hpd
        · have hlt := h.valid.parent_lt hp
          exact .inr (List.mem_cons_of_mem id (h.self_mem_takeWhile (Nat.lt_trans hlt.1 hlt.2) hpd))
      · obtain ⟨q, hq, hnext⟩ := ih hd' hid
        exact ⟨q, hq, hnext.imp_right (List.mem_cons_of_mem s)⟩

/-- **A use of a variable of a function further out**: the variable moves to the environment, and the
scopes up to its own capture it. -/
theorem advances_capture (hr : t.Rooted) (hl : t.Linked) {s : ScopeId} (hs : s.index < t.scopes.size)
    {v : VarId} {V : Variable} (hV : t.vars[v.index]? = some V) (hd : V.scope ∈ t.chain s)
    (hne : s ≠ V.scope) (ht' : t' = (t.capture v ((t.chain s).takeWhile (· != V.scope))).modifyVar v
      fun r => { r with isClosedOver := true, storage := .environment })
    (hr' : t'.Rooted) (hext : t.Extends t') : t.Advances t' := by
  have hcaptures : ∀ w id, w ∈ (t'.scope id).captures ↔
      w = v ∧ id ∈ (t.chain s).takeWhile (· != V.scope) ∨ w ∈ (t.scope id).captures := by
    intro w id
    subst ht'
    exact mem_captures_capture (fun id hid => hr.mem_chain_lt hs ((List.takeWhile_sublist _).subset hid)) id
  have hself : t'.vars[v.index]? = some { V with isClosedOver := true, storage := .environment } := by
    rw [ht', modifyVar_getElem?, if_pos rfl, capture_vars, hV]
    rfl
  have hothers : ∀ w : VarId, w ≠ v → t'.vars[w.index]? = t.vars[w.index]? := by
    intro w hw
    rw [ht', modifyVar_getElem?, if_neg fun h => hw (by cases v; cases w; simp_all), capture_vars]
  refine ⟨hr', ⟨fun id w hw => ?_, fun w W hW => ?_, fun w W hW hclosed => ?_⟩, hext,
    fun id w hw => (hcaptures w id).mpr (.inr hw), fun w W hW => ?_⟩
  · obtain ⟨rfl, hid⟩ | hw := (hcaptures w id).mp hw
    · -- The next scope out is the variable's own, or it captures the variable now.
      obtain ⟨p, hp, hnext⟩ := hr.parent_mem_takeWhile hs hd hid
      have hid' := hr.mem_chain_lt hs ((List.takeWhile_sublist _).subset hid)
      exact ⟨_, p, hself, rfl, (hext.parent_eq hid').trans hp,
        hnext.imp_right fun h => (hcaptures w p).mpr (.inl ⟨rfl, h⟩)⟩
    · obtain ⟨W, p, hW, hclosed, hp, hnext⟩ := hl.link id w hw
      have hp' := (hext.parent_eq (lt_of_mem_captures hw)).trans hp
      have hnext' := hnext.imp_right fun h => (hcaptures w p).mpr (.inr h)
      by_cases hwv : w = v
      · subst hwv
        obtain rfl : V = W := Option.some.inj (hV.symm.trans hW)
        exact ⟨_, p, hself, rfl, hp', hnext'⟩
      · exact ⟨W, p, (hothers w hwv).trans hW, hclosed, hp', hnext'⟩
  · by_cases hwv : w = v
    · obtain rfl := Option.some.inj (hself.symm.trans (hwv ▸ hW))
      exact ⟨fun _ => rfl, fun _ => rfl⟩
    · exact hl.storage w W ((hothers w hwv).symm.trans hW)
  · by_cases hwv : w = v
    · exact ⟨s, (hcaptures w s).mpr (.inl ⟨hwv, hr.self_mem_takeWhile hs hne⟩)⟩
    · obtain ⟨id, hid⟩ := hl.user w W ((hothers w hwv).symm.trans hW) hclosed
      exact ⟨id, (hcaptures w id).mpr (.inr hid)⟩
  · by_cases hwv : w = v
    · exact ⟨_, hwv ▸ hself, fun _ => rfl, fun _ => rfl⟩
    · exact ⟨W, (hothers w hwv).trans hW, id, id⟩

/-- **A name is resolved.** -/
theorem advances_resolve (hr : t.Rooted) (hl : t.Linked) {s : ScopeId} (hs : s.index < t.scopes.size)
    (name : String) : t.Advances (t.resolve s name).2 := by
  have hgrows := grows_resolve hr hs name (N := fun _ _ => True)
  rw [resolve] at hgrows ⊢
  split at hgrows
  · exact advances_insert hr hl hr.size (fun _ => rfl) (fun h => by cases h) rfl
  · next v hlookup =>
    obtain ⟨id, hid, hown⟩ := List.exists_of_findSome?_eq_some hlookup
    obtain ⟨V, hV, hscope, -⟩ := hr.valid.own hown
    have hvar : t.var v = V := by rw [var, hV]; rfl
    simp only [hvar] at hgrows ⊢
    split at hgrows
    · next hown' =>
      rw [if_pos hown']
      exact .refl hr hl
    · next hother =>
      rw [if_neg hother]
      rw [Bool.or_eq_true, not_or, decide_eq_true_iff] at hother
      exact advances_capture hr hl hs hV (hscope ▸ hid) (fun h => hother.1 h.symm) rfl hgrows.rooted hgrows.ext

/-! ## Hints -/

/-- **A way of use is noted.** -/
theorem advances_addUsage (hr : t.Rooted) (hl : t.Linked) (v : VarId) (u : Usage) :
    t.Advances (t.addUsage v u) := by
  refine advances_modifyVar hr hl v _ (fun V => ?_) (fun V => ?_) (fun V => ?_) fun V => ?_
  all_goals
    split
    · rfl
    · rfl

/-- **An assigned type is noted.** -/
theorem advances_addAssigned (hr : t.Rooted) (hl : t.Linked) (v : VarId) (type : ValueType) :
    t.Advances (t.addAssigned v type) := by
  refine advances_modifyVar hr hl v _ (fun V => ?_) (fun V => ?_) (fun V => ?_) fun V => ?_
  all_goals
    split
    · rfl
    · rfl

end

end ScopeTable

/-! ## Building a table -/

/-- A binding that is open: its scope, its name, and what the name stood for before. -/
structure OpenBinding where
  /-- The scope. -/
  scope : ScopeId
  /-- The name. -/
  name : String
  /-- What the name stood for. -/
  shadowed : Option VarId

/-- A scope table that is being built. -/
structure Building where
  /-- The table so far. -/
  table : ScopeTable
  /-- The bindings that are open, the innermost first. -/
  bindings : List OpenBinding

namespace Building

/-- One operation on a table: scopes that are named are there, and a binding is closed with what its
opening gave, after those that were opened later. -/
inductive Step : Building → Building → Prop
  /-- A scope is added in one that is there. -/
  | pushScope {t : ScopeTable} {bs : List OpenBinding} {s : ScopeId} (hs : s.index < t.scopes.size)
      (name : String) : Step ⟨t, bs⟩ ⟨(t.pushScope s name).2, bs⟩
  /-- A name is declared. -/
  | declare {t : ScopeTable} {bs : List OpenBinding} {s : ScopeId} (hs : s.index < t.scopes.size)
      (name : String) : Step ⟨t, bs⟩ ⟨(t.declare s name).2, bs⟩
  /-- A parameter is declared. -/
  | declareParameter {t : ScopeTable} {bs : List OpenBinding} {s : ScopeId} (hs : s.index < t.scopes.size)
      (name : String) : Step ⟨t, bs⟩ ⟨(t.declareParameter s name).2, bs⟩
  /-- A binding is opened. -/
  | openBinding {t : ScopeTable} {bs : List OpenBinding} {s : ScopeId} (hs : s.index < t.scopes.size)
      (name : String) :
      Step ⟨t, bs⟩ ⟨(t.openBinding s name).2, ⟨s, name, (t.openBinding s name).1.2⟩ :: bs⟩
  /-- The innermost binding is closed. -/
  | closeBinding {t : ScopeTable} {b : OpenBinding} {bs : List OpenBinding} :
      Step ⟨t, b :: bs⟩ ⟨t.closeBinding b.scope b.name b.shadowed, bs⟩
  /-- A name is looked up, which changes nothing. -/
  | lookup {t : ScopeTable} {bs : List OpenBinding} {s : ScopeId} {name : String} {v : Option VarId}
      (hlookup : t.lookup? s name = v) : Step ⟨t, bs⟩ ⟨t, bs⟩
  /-- A name is resolved. -/
  | resolve {t : ScopeTable} {bs : List OpenBinding} {s : ScopeId} (hs : s.index < t.scopes.size)
      (name : String) : Step ⟨t, bs⟩ ⟨(t.resolve s name).2, bs⟩
  /-- A scope is marked for lookup by name. -/
  | markDynamic {t : ScopeTable} {bs : List OpenBinding} {s : ScopeId} (hs : s.index < t.scopes.size) :
      Step ⟨t, bs⟩ ⟨t.markDynamic s, bs⟩
  /-- A way of use is noted. -/
  | addUsage {t : ScopeTable} {bs : List OpenBinding} (v : VarId) (u : Usage) :
      Step ⟨t, bs⟩ ⟨t.addUsage v u, bs⟩
  /-- An assigned type is noted. -/
  | addAssigned {t : ScopeTable} {bs : List OpenBinding} (v : VarId) (type : ValueType) :
      Step ⟨t, bs⟩ ⟨t.addAssigned v type, bs⟩

/-- Any number of operations. -/
def Steps : Building → Building → Prop := Relation.ReflTransGen Step

/-- A new table: no binding is open. -/
def start : Building := ⟨.empty, []⟩

/-- What building maintains. -/
structure Sound (b : Building) : Prop where
  /-- The tree of scopes is in order. -/
  rooted : b.table.Rooted
  /-- The captures are in order. -/
  linked : b.table.Linked
  /-- What the name of an open binding stood for is a variable of that name and scope. -/
  bindings : ∀ o ∈ b.bindings, ∀ v ∈ o.shadowed, b.table.Declares o.scope o.name v

/-- A new table is sound. -/
theorem sound_start : start.Sound :=
  ⟨ScopeTable.rooted_empty, ScopeTable.linked_empty, fun _ ho => nomatch ho⟩

/-- A change of the table leaves a building sound whose open bindings were open before. -/
theorem Sound.of_advances {b b' : Building} (hb : b.Sound) (h : b.table.Advances b'.table)
    (hbindings : ∀ o ∈ b'.bindings, o ∈ b.bindings ∨ ∀ v ∈ o.shadowed, b.table.Declares o.scope o.name v) :
    b'.Sound := by
  refine ⟨h.rooted, h.linked, fun o ho v hv => ?_⟩
  obtain hold | hnew := hbindings o ho
  · exact (hb.bindings o hold v hv).mono h.ext
  · exact (hnew v hv).mono h.ext

/-- **One operation** keeps a building sound and forgets no capture. -/
theorem Step.sound {b b' : Building} (hstep : Step b b') (hb : b.Sound) :
    b'.Sound ∧ b.table.Retains b'.table := by
  have hr := hb.rooted
  have hl := hb.linked
  -- Most operations change the table only.
  have hkept : ∀ {t'}, b.table.Advances t' → Sound ⟨t', b.bindings⟩ ∧ b.table.Retains t' := fun h =>
    ⟨hb.of_advances h fun _ ho => .inl ho, h.retains⟩
  cases hstep with
  | pushScope hs name => exact hkept (ScopeTable.advances_pushScope hr hl hs name)
  | declare hs name => exact hkept (ScopeTable.advances_declare hr hl hs name)
  | declareParameter hs name => exact hkept (ScopeTable.advances_declareParameter hr hl hs name)
  | @openBinding t bs s hs name =>
    have h := ScopeTable.advances_openBinding hr hl hs name
    refine ⟨hb.of_advances h fun o ho => ?_, h.retains⟩
    obtain rfl | ho := List.mem_cons.mp ho
    · exact .inr (ScopeTable.leads_openBinding hr.valid hs name).2.2
    · exact .inl ho
  | @closeBinding t o bs =>
    have h := ScopeTable.advances_closeBinding hr hl (hb.bindings o List.mem_cons_self)
    exact ⟨hb.of_advances h fun o' ho' => .inl (List.mem_cons_of_mem o ho'), h.retains⟩
  | lookup => exact ⟨hb, .refl _⟩
  | resolve hs name => exact hkept (ScopeTable.advances_resolve hr hl hs name)
  | markDynamic hs => exact hkept (ScopeTable.advances_markDynamic hr hl hs)
  | addUsage v u => exact hkept (ScopeTable.advances_addUsage hr hl v u)
  | addAssigned v type => exact hkept (ScopeTable.advances_addAssigned hr hl v type)

/-- **Any number of operations** keep a building sound and forget no capture. -/
theorem Steps.sound {b b' : Building} (hsteps : Steps b b') (hb : b.Sound) :
    b'.Sound ∧ b.table.Retains b'.table := by
  induction hsteps with
  | refl => exact ⟨hb, .refl _⟩
  | tail _ hstep ih =>
    obtain ⟨hsound, hretains⟩ := hstep.sound ih.1
    exact ⟨hsound, ih.2.trans hretains⟩

/-- **Captures are coherent** in every table that can be built, and nothing that is done to it later takes
one back. -/
theorem captures_coherent {b : Building} (hb : Steps start b) :
    b.table.Coherent ∧ ∀ b', Steps b b' → b.table.Retains b'.table := by
  obtain ⟨hsound, -⟩ := hb.sound sound_start
  exact ⟨hsound.linked.coherent hsound.rooted.valid, fun b' hb' => (hb'.sound hsound).2⟩

/-- Three functions, one in the other. -/
def threeDeep : ScopeTable :=
  let t := (ScopeTable.empty.pushScope .global "outer").2
  let t := (t.pushScope ⟨1⟩ "middle").2
  (t.pushScope ⟨2⟩ "inner").2

/-- The innermost function uses a binding of the outermost one. The function in between captures it as
well, and it does so after the binding was closed. -/
theorem captures_coherent_threeDeep :
    let ((x, shadowed), t) := threeDeep.openBinding ⟨1⟩ "x"
    let (y, t) := t.resolve ⟨3⟩ "x"
    Steps start ⟨t, [⟨⟨1⟩, "x", shadowed⟩]⟩ ∧ y = x ∧ x ∈ (t.scope ⟨2⟩).captures ∧ t.Coherent ∧
      t.Retains (t.closeBinding ⟨1⟩ "x" shadowed) := by
  have hsteps : Steps start ⟨((threeDeep.openBinding ⟨1⟩ "x").2.resolve ⟨3⟩ "x").2,
      [⟨⟨1⟩, "x", (threeDeep.openBinding ⟨1⟩ "x").1.2⟩]⟩ :=
    ((((Relation.ReflTransGen.single (.pushScope (s := .global) (by decide) "outer")).tail
      (.pushScope (s := ⟨1⟩) (by decide) "middle")).tail
      (.pushScope (s := ⟨2⟩) (by decide) "inner")).tail
      (.openBinding (s := ⟨1⟩) (by decide) "x")).tail (.resolve (s := ⟨3⟩) (by decide) "x")
  obtain ⟨hcoherent, hretains⟩ := captures_coherent hsteps
  have hnone : ∀ id, (threeDeep.scope id).own? "x" = none := fun id => by
    rw [threeDeep, ScopeTable.own?_pushScope, ScopeTable.own?_pushScope, ScopeTable.own?_pushScope]
    rcases id with ⟨_ | i⟩
    · exact Std.TreeMap.getElem?_emptyc
    · exact Std.TreeMap.getElem?_emptyc
  have hlookup : (threeDeep.openBinding ⟨1⟩ "x").2.lookup? ⟨3⟩ "x" = some ⟨0⟩ := by
    show [(⟨3⟩ : ScopeId), ⟨2⟩, ⟨1⟩, .global].findSome?
      (fun id => ((threeDeep.insert { name := "x", scope := ⟨1⟩, storage := .frame }).2.scope id).own? "x") = _
    simp only [ScopeTable.own?_insert (t := threeDeep)
      (V := { name := "x", scope := ⟨1⟩, storage := .frame }) (by decide), hnone]
    rfl
  have hresolve : (threeDeep.openBinding ⟨1⟩ "x").2.resolve ⟨3⟩ "x" =
      (⟨0⟩, ((threeDeep.openBinding ⟨1⟩ "x").2.capture ⟨0⟩ [⟨3⟩, ⟨2⟩]).modifyVar ⟨0⟩
        fun r => { r with isClosedOver := true, storage := .environment }) := by
    rw [ScopeTable.resolve, hlookup]
    rfl
  refine ⟨hsteps, congrArg Prod.fst hresolve, ?_, hcoherent, hretains _ (.single .closeBinding)⟩
  refine (congrArg (fun r => (⟨0⟩ : VarId) ∈ (r.2.scope ⟨2⟩).captures) hresolve).mpr ?_
  exact (ScopeTable.mem_captures_capture (by decide) ⟨2⟩).mpr (.inl ⟨rfl, by decide⟩)

end Building

end ScriptEngine
