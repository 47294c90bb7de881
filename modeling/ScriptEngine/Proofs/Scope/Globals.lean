import ScriptEngine.Proofs.Code.Compiled
import ScriptEngine.Proofs.Scope.Binders
import ScriptEngine.Proofs.Scope.Kept

/-!
# What a program declares on the global object

A unit lists names that its program declares on the global object. The list is read off the variables of the
outermost scope once analysis is over. There are other variables in that scope by then, those of handlers and
those of names that nobody declares, and all of them are passed over: the list is what hoisting finds in the
statements of the program, each name once (`compile_globals`).

* `Node.Declares` says which names a statement declares, without regard to how they are collected, and
  `mem_hoistedNamesOf_iff` that hoisting collects these.
* `ScopeTable.Declared.globalNames` computes the list after the names have been declared.
* `ScopeTable.Spares` is a step that leaves the list alone; `Analyzes.spares` says that a walk does.
-/

namespace ScriptEngine

/-! ## Declared names -/

/-- A statement declares a name for the function or program around it. -/
inductive Node.Declares (m : String) : Node → Prop where
  /-- A variable statement. -/
  | var {i : Info} {x : Identifier} {init : Option Node} (name : x.name = m) : Declares m (.var i x init)
  /-- The declaration of a function. -/
  | function {i : Info} {x : Identifier} {params : List Identifier} {body : List Node} {scope : Option ScopeId}
    (name : x.name = m) : Declares m (.function i (some x) params body true scope)
  /-- One of the statements of a block. -/
  | block {i : Info} {ns : List Node} {n : Node} (mem : n ∈ ns) (h : Declares m n) : Declares m (.block i ns)
  /-- The first branch. -/
  | thenBranch {i : Info} {condition n : Node} {elseBranch : Option Node} (h : Declares m n) :
    Declares m (.cond i condition n elseBranch)
  /-- The second branch. -/
  | elseBranch {i : Info} {condition n thenBranch : Node} (h : Declares m n) :
    Declares m (.cond i condition thenBranch (some n))
  /-- The body of a loop. -/
  | loop {i : Info} {condition n : Node} (h : Declares m n) : Declares m (.loop i condition n)
  /-- What a handler guards. -/
  | guarded {i : Info} {n handler : Node} {param : Option Identifier} (h : Declares m n) :
    Declares m (.tryCatch i n param handler)
  /-- The handler. -/
  | handler {i : Info} {n guarded : Node} {param : Option Identifier} (h : Declares m n) :
    Declares m (.tryCatch i guarded param n)

mutual

/-- **Hoisting finds what a statement declares.** -/
theorem Node.mem_hoistedNames_iff {m : String} : ∀ (n : Node) (names : Array String),
    m ∈ n.hoistedNames names ↔ m ∈ names ∨ n.Declares m
  | .var _ x _, names => by
    rw [Node.hoistedNames, Array.mem_push]
    refine or_congr_right ⟨fun h => .var h.symm, fun h => ?_⟩
    cases h with
    | var name => exact name.symm
  | .function _ name _ _ isDeclaration _, names => by
    cases isDeclaration with
    | false => exact ⟨.inl, fun h => h.resolve_right nofun⟩
    | true =>
      cases name with
      | none => exact ⟨.inl, fun h => h.resolve_right nofun⟩
      | some x =>
        rw [Node.hoistedNames, Array.mem_push]
        refine or_congr_right ⟨fun h => .function h.symm, fun h => ?_⟩
        cases h with
        | function name => exact name.symm
  | .block _ ns, names => by
    rw [Node.hoistedNames, mem_hoistedNamesOf_iff ns]
    refine or_congr_right ⟨fun ⟨n, hn, h⟩ => .block hn h, fun h => ?_⟩
    cases h with
    | block mem h => exact ⟨_, mem, h⟩
  | .cond _ _ thenBranch none, names => by
    rw [Node.hoistedNames, hoistedNamesOf?, thenBranch.mem_hoistedNames_iff]
    refine or_congr_right ⟨.thenBranch, fun h => ?_⟩
    cases h with
    | thenBranch h => exact h
  | .cond _ _ thenBranch (some elseBranch), names => by
    rw [Node.hoistedNames, hoistedNamesOf?, elseBranch.mem_hoistedNames_iff,
      thenBranch.mem_hoistedNames_iff, or_assoc]
    refine or_congr_right ⟨fun h => h.elim .thenBranch .elseBranch, fun h => ?_⟩
    cases h with
    | thenBranch h => exact .inl h
    | elseBranch h => exact .inr h
  | .loop _ _ body, names => by
    rw [Node.hoistedNames, body.mem_hoistedNames_iff]
    refine or_congr_right ⟨.loop, fun h => ?_⟩
    cases h with
    | loop h => exact h
  | .tryCatch _ guarded _ handler, names => by
    rw [Node.hoistedNames, handler.mem_hoistedNames_iff, guarded.mem_hoistedNames_iff, or_assoc]
    refine or_congr_right ⟨fun h => h.elim .guarded .handler, fun h => ?_⟩
    cases h with
    | guarded h => exact .inl h
    | handler h => exact .inr h
  | .literal .., _ | .identifier .., _ | .dynamic .., _ | .this _, _ | .call .., _ | .member .., _
  | .binary .., _ | .unary .., _ | .assign .., _ | .object .., _ | .delete .., _ | .ret .., _
  | .withObject .., _ | .throw .., _ => ⟨.inl, fun h => h.resolve_right nofun⟩

/-- **Hoisting finds what statements declare.** -/
theorem mem_hoistedNamesOf_iff {m : String} : ∀ (ns : List Node) (names : Array String),
    m ∈ hoistedNamesOf names ns ↔ m ∈ names ∨ ∃ n ∈ ns, n.Declares m
  | [], names => by simp [hoistedNamesOf]
  | n :: rest, names => by
    rw [hoistedNamesOf, mem_hoistedNamesOf_iff rest, n.mem_hoistedNames_iff, or_assoc]
    simp

end

/-! ## The list -/

namespace Variable

/-- What the list asks about a variable: its name, whether it is a property of the global object, and whether
scripts may delete it. -/
def asGlobal (V : Variable) : String × Bool × Bool := (V.name, V.isGlobal, V.isDeletable)

/-- The name of a variable, if it is one of the list. -/
def declaredName? (V : Variable) : Option String := if V.isGlobal && !V.isDeletable then some V.name else none

/-- Whether it is one of the list depends on nothing else. -/
theorem declaredName?_congr {V W : Variable} (h : V.asGlobal = W.asGlobal) : V.declaredName? = W.declaredName? := by
  obtain ⟨hname, hglobal, hdeletable⟩ : V.name = W.name ∧ V.isGlobal = W.isGlobal ∧ V.isDeletable = W.isDeletable := by
    simpa [asGlobal] using h
  rw [declaredName?, declaredName?, hname, hglobal, hdeletable]

end Variable

namespace ScopeTable

variable {t t₁ t' : ScopeTable}

/-- The names of the list: those of the variables of the outermost scope, in the order of declaration. -/
def globalNames (t : ScopeTable) : List String :=
  (t.scope .global).order.toList.filterMap fun v => (t.var v).declaredName?

/-- They are the names that the code of a program declares. -/
theorem toList_declaredGlobals (t : ScopeTable) :
    (Generation.declaredGlobals t .global).toList = t.globalNames := by
  rw [Generation.declaredGlobals, Array.toList_filterMap, Array.toList_map, List.filterMap_map]
  rfl

/-- **A change that the list does not see.** -/
theorem globalNames_congr (horder : (t'.scope .global).order = (t.scope .global).order)
    (hvars : ∀ i : Nat, t'.vars[i]?.map Variable.asGlobal = t.vars[i]?.map Variable.asGlobal) :
    t'.globalNames = t.globalNames := by
  rw [globalNames, globalNames, horder]
  refine List.filterMap_congr fun v _ => Variable.declaredName?_congr ?_
  have hv := hvars v.index
  rw [var, var]
  rcases hV : t.vars[v.index]? with _ | V <;> rcases hV' : t'.vars[v.index]? with _ | V'
  · rfl
  · rw [hV, hV'] at hv
    cases hv
  · rw [hV, hV'] at hv
    cases hv
  · rw [hV, hV'] at hv
    exact Option.some.inj hv

/-- **A variable is added.** -/
theorem globalNames_insert (hv : t.Valid) {V : Variable} (hs : V.scope.index < t.scopes.size) :
    (t.insert V).2.globalNames =
      t.globalNames ++ if V.scope = .global then V.declaredName?.toList else [] := by
  have horder : ((t.insert V).2.scope .global).order =
      if .global = V.scope then (t.scope .global).order.push ⟨t.vars.size⟩ else (t.scope .global).order := by
    show ((modifyScope { t with vars := t.vars.push V } V.scope _).scope .global).order = _
    rw [scope_modifyScope (t := { t with vars := t.vars.push V }) hs]
    split
    · rfl
    · rfl
  have hvars : (t.insert V).2.vars = t.vars.push V := rfl
  have hold : (t.scope .global).order.toList.filterMap (fun v => ((t.insert V).2.var v).declaredName?) =
      t.globalNames := by
    refine List.filterMap_congr fun v hmem => congrArg Variable.declaredName? ?_
    obtain ⟨W, hW, -⟩ := hv.scope_eq (Array.mem_def.mpr hmem)
    have hlt := (Array.getElem?_eq_some_iff.mp hW).choose
    rw [var, var, hvars, Array.getElem?_push, if_neg (Nat.ne_of_lt hlt)]
  rw [globalNames, horder]
  by_cases hscope : V.scope = .global
  · have hnew : (t.insert V).2.var ⟨t.vars.size⟩ = V := by
      rw [var, hvars, Array.getElem?_push, if_pos rfl]
      rfl
    rw [if_pos hscope.symm, if_pos hscope, Array.toList_push, List.filterMap_append, hold,
      List.filterMap_cons, List.filterMap_nil, hnew]
    rcases V.declaredName? with _ | m
    · rfl
    · rfl
  · rw [if_neg (Ne.symm hscope), if_neg hscope, hold, List.append_nil]

/-! ## Steps that leave the list alone -/

/-- A step that declares nothing more on the global object. Nor does it bring a name that is taken by one that
nobody declares. -/
structure Spares (taken : String → Prop) (t t' : ScopeTable) : Prop where
  /-- The list is the same. -/
  same : t'.globalNames = t.globalNames
  /-- A name that nobody declares was there before, or is none of those. -/
  implicit : ∀ (i : Nat) V', t'.vars[i]? = some V' → V'.isDeletable = true →
    (∃ V, t.vars[i]? = some V ∧ V.isDeletable = true ∧ V.name = V'.name) ∨ ¬ taken V'.name

namespace Spares

variable {taken : String → Prop}

/-- Nothing happened. -/
theorem refl (t : ScopeTable) : t.Spares taken t := ⟨rfl, fun _ V' hV' hd => .inl ⟨V', hV', hd, rfl⟩⟩

/-- One step after the other. -/
theorem trans (h : t.Spares taken t₁) (h' : t₁.Spares taken t') : t.Spares taken t' := by
  refine ⟨h'.same.trans h.same, fun i V' hV' hd => ?_⟩
  obtain ⟨V₁, hV₁, hd₁, hname⟩ | hfree := h'.implicit i V' hV' hd
  · rw [← hname]
    exact h.implicit i V₁ hV₁ hd₁
  · exact .inr hfree

/-- **A change that the list does not see.** -/
theorem of_asGlobal (horder : (t'.scope .global).order = (t.scope .global).order)
    (hvars : ∀ i : Nat, t'.vars[i]?.map Variable.asGlobal = t.vars[i]?.map Variable.asGlobal) :
    t.Spares taken t' := by
  refine ⟨globalNames_congr horder hvars, fun i V' hV' hd => .inl ?_⟩
  have hi := hvars i
  rw [hV'] at hi
  rcases hV : t.vars[i]? with _ | V
  · rw [hV] at hi
    cases hi
  · rw [hV] at hi
    obtain ⟨hname, -, hdeletable⟩ : V'.name = V.name ∧ V'.isGlobal = V.isGlobal ∧
        V'.isDeletable = V.isDeletable := by simpa [Variable.asGlobal] using hi
    exact ⟨V, rfl, hdeletable.symm.trans hd, hname.symm⟩

/-- A change of scopes. -/
theorem of_order (horder : (t'.scope .global).order = (t.scope .global).order) (hvars : t'.vars = t.vars) :
    t.Spares taken t' := of_asGlobal horder fun i => by rw [hvars]

/-- **What is noted about variables.** -/
theorem of_hints (h : t.Hints t') : t.Spares taken t' := by
  refine of_asGlobal (by rw [scope, scope, h.scopes]) fun i => ?_
  have hcore : ∀ V : Option Variable, V.map Variable.asGlobal = (V.map Variable.core).map Variable.asGlobal := by
    intro V
    rw [Option.map_map]
    rfl
  rw [hcore, h.vars i, ← hcore]

/-- **A variable is added** that is not on the list, and no name that is taken. -/
theorem insert (hv : t.Valid) {V : Variable} (hs : V.scope.index < t.scopes.size)
    (hnew : V.scope = .global → V.declaredName? = none) (hfree : V.isDeletable = true → ¬ taken V.name) :
    t.Spares taken (t.insert V).2 := by
  refine ⟨?_, fun i W hW hd => ?_⟩
  · rw [globalNames_insert hv hs]
    split
    · next hscope =>
      rw [hnew hscope]
      exact List.append_nil _
    · exact List.append_nil _
  · obtain ⟨-, rfl⟩ | hW := insert_cases hW
    · exact .inr (hfree hd)
    · exact .inl ⟨W, hW, hd, rfl⟩

/-- **A name is declared** that is bound already, or in another scope. -/
theorem declare (hv : t.Valid) {s : ScopeId} (hs : s.index < t.scopes.size) {name : String}
    (hbound : s = .global → ((t.scope .global).own? name).isSome = true) :
    t.Spares taken (t.declare s name).2 := by
  rw [ScopeTable.declare]
  split
  · exact refl t
  · next hnone =>
    refine insert hv hs (fun hglobal => ?_) fun hdeletable => absurd hdeletable Bool.false_ne_true
    obtain rfl : s = .global := hglobal
    have hbound := hbound rfl
    rw [hnone] at hbound
    cases hbound

/-- **Names are declared** that are bound already, or in another scope. -/
theorem declared {s : ScopeId} {names : List String} (h : Declared s names t t') (ht : t.Rooted)
    (hs : s.index < t.scopes.size)
    (hbound : s = .global → ∀ m ∈ names, ((t.scope .global).own? m).isSome = true) : t.Spares taken t' := by
  induction h with
  | nil t => exact refl t
  | note hhints _ ih =>
    have hnote := hhints.grows ht (N := fun _ _ => False)
    refine (of_hints hhints).trans (ih hnote.rooted (hnote.ext.size_le hs) fun hglobal m hm => ?_)
    obtain ⟨v, hv⟩ := Option.isSome_iff_exists.mp (hbound hglobal m hm)
    rw [hnote.own _ _ _ hv]
    rfl
  | @cons name names t t' _ ih =>
    have hone := grows_declare ht hs name
    refine (declare ht.valid hs fun hglobal => hbound hglobal name List.mem_cons_self).trans
      (ih hone.rooted (hone.ext.size_le hs) fun hglobal m hm => ?_)
    obtain ⟨v, hv⟩ := Option.isSome_iff_exists.mp (hbound hglobal m (List.mem_cons_of_mem _ hm))
    rw [hone.own _ _ _ hv]
    rfl

/-- A use is noted in scopes. -/
theorem capture (t : ScopeTable) (v : VarId) (scopes : List ScopeId) : t.Spares taken (t.capture v scopes) := by
  have hsame : ∀ S : Scope, { S with captures := S.captures.insert v }.order = S.order := fun _ => rfl
  exact of_order (view_foldl_modifyScope Scope.order hsame scopes .global) (capture_vars v scopes)

/-- A scope is marked. -/
theorem markDynamic (t : ScopeTable) (s : ScopeId) : t.Spares taken (t.markDynamic s) :=
  of_order (view_markDynamic Scope.order (fun _ => rfl) s .global) (vars_foldl_modifyScope ..)

/-- **A name is resolved**: one that nobody declares is none of those that are taken, as these are bound. -/
theorem resolve (ht : t.Rooted) {s : ScopeId} (hs : s.index < t.scopes.size) (name : String)
    (htaken : ∀ m, taken m → ((t.scope .global).own? m).isSome = true) :
    t.Spares taken (t.resolve s name).2 := by
  rw [ScopeTable.resolve]
  split
  · next hnone =>
    refine insert ht.valid ht.size (fun _ => rfl) fun _ hname => ?_
    have hbound := htaken name hname
    rw [List.findSome?_eq_none_iff.mp hnone .global (ht.global_mem_chain hs)] at hbound
    cases hbound
  · next v _ =>
    simp only
    split
    · exact refl t
    · next hother =>
      refine (capture t v _).trans (of_asGlobal rfl fun i => ?_)
      rw [modifyVar_getElem?, capture_vars]
      split
      · next hi =>
        -- The variable is no property of the global object, and is none in an environment.
        rcases hV : t.vars[i]? with _ | V
        · rfl
        · have hglobal : V.isGlobal = false := by
            rw [var, hi, hV] at hother
            simp only [Option.getD_some, Bool.or_eq_true, not_or, Bool.not_eq_true] at hother
            exact hother.2
          rw [Option.map_some, Option.map_some, Option.map_some, Variable.asGlobal, Variable.asGlobal, hglobal]
          rfl
      · rfl

/-- A scope is entered. -/
theorem enter (ht : t.Rooted) (c : Place) (label : String) : t.Spares taken (t.enter c label) := by
  have hpush : t.Spares taken (t.pushScope c.scope label).2 := by
    refine of_order ?_ rfl
    rw [scope_pushScope, if_neg (show ¬ ScopeId.global.index = t.scopes.size from Nat.ne_of_lt ht.size)]
  rw [ScopeTable.enter]
  split
  · exact hpush.trans (markDynamic ..)
  · exact hpush

end Spares

/-- What is noted about variables leaves the list alone. -/
theorem Hints.globalNames (h : t.Hints t') : t'.globalNames = t.globalNames :=
  have hspares : t.Spares (fun _ => True) t' := .of_hints h
  hspares.same

end ScopeTable

/-! ## Walks -/

/-- **A walk declares nothing** on the global object, if what it binds in the outermost scope is bound there
already. -/
theorem Analyzes.spares {taken : String → Prop} {c : Place} {t t' : ScopeTable} {ns ns' : List Node}
    (h : Analyzes c t ns t' ns') (ht : t.Rooted) (hc : c.scope.index < t.scopes.size)
    (htaken : ∀ m, taken m → ((t.scope .global).own? m).isSome = true)
    (hbinds : c.scope = .global → ∀ m, .declared m ∈ bindingsAll ns → taken m) : t.Spares taken t' := by
  have hkeeps : ∀ {N : ScopeId → BoundName → Prop} {t t' : ScopeTable}, t.Grows N t' →
      (∀ m, taken m → ((t.scope .global).own? m).isSome = true) →
      ∀ m, taken m → ((t'.scope .global).own? m).isSome = true := by
    intro N t t' hgrows hbound m hm
    obtain ⟨v, hv⟩ := Option.isSome_iff_exists.mp (hbound m hm)
    rw [hgrows.own _ _ _ hv]
    rfl
  induction h with
  | nil c t => exact .refl t
  | cons hfirst _ ih ih' =>
    have hgrows := hfirst.grows ht hc
    refine (ih ht hc htaken fun hglobal m hm => hbinds hglobal m ?_).trans
      (ih' hgrows.rooted (hgrows.ext.size_le hc) (hkeeps hgrows htaken) fun hglobal m hm =>
        hbinds hglobal m (List.mem_append_right _ hm))
    rw [bindingsAll, bindingsAll, List.append_nil] at hm
    exact List.mem_append_left _ hm
  | neutral i hn hlength hparts hhints ih =>
    rw [bindingsAll, bindingsAll, List.append_nil, Node.bindings_of_neutral hn] at hbinds
    exact (ih ht hc htaken hbinds).trans (.of_hints hhints)
  | @folded c t t₁ t₂ n ps i l hn hparts hps hhints ih =>
    have hneutral : n.isNeutral = true := by
      obtain ⟨i, op, lhs, rhs, rfl⟩ | ⟨i, op, x, rfl⟩ := hn <;> rfl
    rw [bindingsAll, bindingsAll, List.append_nil, Node.bindings_of_neutral hneutral] at hbinds
    exact (ih ht hc htaken hbinds).trans (.of_hints hhints)
  | lowered => exact .refl _
  | definition t i i' hx =>
    refine .declare ht.valid hc fun hglobal => htaken _ (hbinds hglobal _ ?_)
    simp [bindingsAll, Node.bindings, hx]
  | reference t i i' hx => exact .resolve ht hc _ htaken
  | @var c t t₁ t₂ i i' x init init' _ _ hhints ih =>
    have hdeclare := ScopeTable.grows_declare ht hc x.name
    rw [bindingsAll, bindingsAll, List.append_nil, Node.bindings, bindings?_eq] at hbinds
    refine (ScopeTable.Spares.declare ht.valid hc fun hglobal =>
      htaken _ (hbinds hglobal _ List.mem_cons_self)).trans ?_
    exact (ih hdeclare.rooted (hdeclare.ext.size_le hc) (hkeeps hdeclare htaken) fun hglobal m hm =>
      hbinds hglobal m (List.mem_cons_of_mem _ hm)).trans (.of_hints hhints)
  | @function c t t₁ t₂ t₃ t₄ t₅ i i' name name' params params' body body' isDeclaration scope label s
      _ houter hs hparams hinner _ hbody hhints ih =>
    obtain ⟨hdeclared, -⟩ := houter.grows ht hc
    have hc₁ := hdeclared.ext.size_le hc
    obtain ⟨hstarts, -⟩ := ScopeTable.starts hdeclared.rooted hc₁ hs hparams hinner
    -- The scope of the function is not the outermost one.
    have hinside : s ≠ .global := by
      rintro rfl
      exact absurd hdeclared.rooted.size (Nat.not_lt.mpr hstarts.new)
    obtain ⟨henter, hnew, -⟩ := ScopeTable.enter_spec hdeclared.rooted hc₁ label hs
    obtain ⟨hdeclared₂, -⟩ := ScopeTable.declared_parameters (t₁.enter c label) s params
    rw [hparams] at hdeclared₂
    obtain ⟨hgrows₂, -⟩ := hdeclared₂.grows henter.rooted hnew
    have hone : t.Spares taken t₁ := .declared houter ht hc fun hglobal m hm =>
      htaken m (hbinds hglobal m (by simpa [bindingsAll, Node.bindings] using hm))
    have htwo : t₁.Spares taken t₃ := (ScopeTable.Spares.enter hdeclared.rooted c label).trans
      ((ScopeTable.Spares.declared hdeclared₂ henter.rooted hnew fun hglobal => absurd hglobal hinside).trans
        (.declared hinner hgrows₂.rooted (hgrows₂.ext.size_le hnew) fun hglobal => absurd hglobal hinside))
    exact (hone.trans htwo).trans ((ih hstarts.grows.rooted hstarts.inside
      (hkeeps hstarts.grows (hkeeps hdeclared htaken)) fun hglobal => absurd hglobal hinside).trans
      (.of_hints hhints))
  | @withObject c t t₁ t₂ i i' object object' body body' hobject _ iho ihb =>
    have hgrows := hobject.grows ht hc
    have hc₁ := hgrows.ext.size_le hc
    have hmark := ScopeTable.grows_markDynamic hgrows.rooted hc₁ (N := fun _ _ => False)
    simp only [bindingsAll, Node.bindings, List.append_nil] at hbinds iho ihb
    refine (iho ht hc htaken fun hglobal m hm => hbinds hglobal m (List.mem_append_left _ hm)).trans ?_
    refine (ScopeTable.Spares.markDynamic t₁ c.scope).trans ?_
    exact ihb hmark.rooted (hmark.ext.size_le hc₁) (hkeeps hmark (hkeeps hgrows htaken)) fun hglobal m hm =>
      hbinds hglobal m (List.mem_append_right _ hm)
  | @tryCatch c t t₁ t₂ i i' guarded guarded' handler handler' x _ hguarded hhandler ihb ihh =>
    have hgrows := hguarded.grows ht hc
    have hc₁ := hgrows.ext.size_le hc
    obtain ⟨-, hr₂, hc₂, -⟩ := hhandler.catches hgrows.rooted hc₁
    simp only [bindingsAll, Node.bindings, List.append_nil] at hbinds ihb ihh
    refine (ihb ht hc htaken fun hglobal m hm => hbinds hglobal m (List.mem_append_left _ hm)).trans ?_
    -- The binding of the handler is none of the list, and closing it changes no variable.
    have hinsert : t₁.Spares taken (t₁.openBinding c.scope x.name).2 :=
      .insert hgrows.rooted.valid hc₁ (fun _ => rfl) fun hdeletable => absurd hdeletable Bool.false_ne_true
    have hbound : ∀ m, taken m →
        (((t₁.openBinding c.scope x.name).2.scope .global).own? m).isSome = true := by
      intro m hm
      rw [ScopeTable.openBinding, ScopeTable.own?_insert hc₁]
      split
      · rfl
      · exact hkeeps hgrows htaken m hm
    refine (hinsert.trans (ihh hr₂ hc₂ hbound
      fun hglobal m hm => hbinds hglobal m ?_)).trans
      (.of_order (ScopeTable.view_closeBinding Scope.order (fun _ _ => rfl) _ _ _ _) rfl)
    exact List.mem_append_right _ (List.mem_append_right _ hm)

/-! ## The start and the end of an analysis -/

namespace ScopeTable

variable {t t' : ScopeTable}

/-- A table in which names of the program have been declared, and nothing else has happened. -/
structure Opening (t : ScopeTable) : Prop where
  /-- Every variable is a property of the global object that scripts cannot delete. -/
  global : ∀ (i : Nat) V, t.vars[i]? = some V →
    V.scope = .global ∧ V.storage = .global ∧ V.isDeletable = false
  /-- The names that stand for variables are those of the list. -/
  listed : ∀ m, m ∈ t.globalNames ↔ ((t.scope .global).own? m).isSome = true

/-- No name has been declared yet. -/
theorem opening_empty : empty.Opening :=
  ⟨nofun, fun m => by simp [globalNames, empty, scope, ScopeId.global, Scope.own?]⟩

/-- What is noted about variables does not count. -/
theorem Opening.of_hints (ho : t.Opening) (h : t.Hints t') : t'.Opening := by
  refine ⟨fun i V' hV' => ?_, fun m => ?_⟩
  · have hcore := h.vars i
    rw [hV'] at hcore
    rcases hV : t.vars[i]? with _ | V
    · rw [hV] at hcore
      cases hcore
    · rw [hV] at hcore
      obtain ⟨hscope, hstorage, hdeletable⟩ := ho.global i V hV
      have hsame : V'.core = V.core := Option.some.inj hcore
      refine ⟨?_, ?_, ?_⟩
      · exact (congrArg Variable.scope hsame).trans hscope
      · exact (congrArg Variable.storage hsame).trans hstorage
      · exact (congrArg Variable.isDeletable hsame).trans hdeletable
  · rw [h.globalNames, scope, h.scopes, ← scope]
    exact ho.listed m

/-- One more name is declared. -/
theorem Opening.declare (ho : t.Opening) (ht : t.Rooted) (name : String) :
    (t.declare .global name).2.Opening ∧ (t.declare .global name).2.globalNames =
      t.globalNames ++ if name ∈ t.globalNames then [] else [name] := by
  rcases hown : (t.scope .global).own? name with _ | v
  · have hnot : name ∉ t.globalNames := fun hmem => by
      have hbound := (ho.listed name).mp hmem
      rw [hown] at hbound
      cases hbound
    have hdeclare : (t.declare .global name).2 =
        (t.insert { name, scope := .global, storage := .global }).2 := by
      rw [ScopeTable.declare, hown]
      rfl
    have hnames : (t.declare .global name).2.globalNames = t.globalNames ++ [name] := by
      rw [hdeclare, globalNames_insert ht.valid ht.size]
      rfl
    refine ⟨⟨fun i V hV => ?_, fun m => ?_⟩, by rw [if_neg hnot, hnames]⟩
    · rw [hdeclare] at hV
      obtain ⟨-, rfl⟩ | hV := insert_cases hV
      · exact ⟨rfl, rfl, rfl⟩
      · exact ho.global i V hV
    · rw [hnames, own?_declare (s := .global) ht.size, List.mem_append, List.mem_singleton, ho.listed m]
      split
      · next hself => simp [hself.2]
      · next hother => simp [show m ≠ name from fun h => hother ⟨rfl, h⟩]
  · have hmem : name ∈ t.globalNames := (ho.listed name).mpr (by rw [hown]; rfl)
    rw [ScopeTable.declare, hown, if_pos hmem, List.append_nil]
    exact ⟨ho, rfl⟩

/-- **Names are declared** at the start: each becomes one of the list, if it is none already. -/
theorem Declared.globalNames {names : List String} (h : Declared .global names t t') (ht : t.Rooted)
    (ho : t.Opening) : t'.Opening ∧
      t'.globalNames = t.globalNames ++ (names.filter fun m => m ∉ t.globalNames).eraseDups := by
  induction h with
  | nil t => exact ⟨ho, by simp⟩
  | note hhints _ ih =>
    have hnote := hhints.grows ht (N := fun _ _ => False)
    rw [← hhints.globalNames]
    exact ih hnote.rooted (ho.of_hints hhints)
  | @cons name names t t' _ ih =>
    obtain ⟨ho₁, hone⟩ := ho.declare ht name
    obtain ⟨ho', hrest⟩ := ih (grows_declare ht ht.size name).rooted ho₁
    refine ⟨ho', hrest.trans ?_⟩
    rw [hone]
    by_cases hmem : name ∈ t.globalNames
    · simp [hmem]
    · have hfilter : names.filter (fun m => m ∉ t.globalNames ++ [name]) =
          (names.filter fun m => m ∉ t.globalNames).filter fun m => !m == name := by
        rw [List.filter_filter]
        refine List.filter_congr fun m _ => ?_
        by_cases hm : m = name <;> simp [hm]
      rw [if_neg hmem, hfilter, List.append_assoc, List.filter_cons_of_pos (by simpa using hmem),
        List.eraseDups_cons]
      rfl

/-- **Assigning slots** declares nothing. -/
theorem Spares.finish {taken : String → Prop} (hv : t.Valid) : t.Spares taken t.finish := by
  refine of_asGlobal ((listed_finish hv).order .global) fun i => ?_
  have h := finishes hv
  rcases hV' : t.finish.vars[i]? with _ | V'
  · rw [Array.getElem?_eq_none_iff, h.vars, ← Array.getElem?_eq_none_iff] at hV'
    rw [hV']
  · obtain ⟨V, S, layout, hV, -, -, -, -, hrecord⟩ := h.var hv hV'
    have hglobal : ∀ k, (FunctionLayout.finalStorage S.isDynamic k == .global) = (k == .global) := by
      intro k
      cases k <;> cases S.isDynamic <;> rfl
    rw [hV, hrecord]
    simp [Variable.asGlobal, Variable.isGlobal, hglobal]

/-- **A name of the list** stands for the variable that it was declared as, when the table has grown and when slots
have been assigned: nothing moves a property of the global object. -/
theorem Opening.stands (ho : t.Opening) (ht : t.Rooted) {N : ScopeId → BoundName → Prop} (hgrows : t.Grows N t')
    {m : String} (hm : m ∈ t.globalNames) :
    ∃ v V, (t'.scope .global).own? m = some v ∧ (t'.finish.scope .global).own? m = some v ∧
      t'.finish.vars[v.index]? = some V ∧ V.name = m ∧ V.scope = .global ∧ V.storage = .global := by
  have hvalid := hgrows.rooted.valid
  obtain ⟨v, hv⟩ := Option.isSome_iff_exists.mp ((ho.listed m).mp hm)
  have hown := hgrows.own .global m v hv
  obtain ⟨V₀, hV₀, -, hname₀⟩ := ht.valid.own hv
  obtain ⟨hscope₀, hstorage₀, -⟩ := ho.global v.index V₀ hV₀
  obtain ⟨V, hV, hname, hscope, hmoves⟩ := (hgrows.ext.trans (placed_finish hvalid).1).vars _ V₀ hV₀
  refine ⟨v, V, hown, ?_, hV, hname.trans hname₀, hscope.trans hscope₀, ?_⟩
  · rw [(listed_finish hvalid).own]
    exact hown
  · obtain hsame | ⟨hframe, -⟩ := hmoves
    · exact hsame.trans hstorage₀
    · rw [hstorage₀] at hframe
      cases hframe

/-- **A name that nobody declares** is not on the list. -/
theorem Opening.not_mem_of_isDeletable (ho : t.Opening) (h : t.Spares (· ∈ t.globalNames) t') {i : Nat} {V : Variable}
    (hV : t'.vars[i]? = some V) (hd : V.isDeletable = true) : V.name ∉ t.globalNames := by
  obtain ⟨V₀, hV₀, hd₀, -⟩ | hfree := h.implicit i V hV hd
  · rw [(ho.global i V₀ hV₀).2.2] at hd₀
    cases hd₀
  · exact hfree

end ScopeTable

/-! ## Programs -/

/-- The list is that of the outermost scope. -/
theorem globals_of_generate {T : ScopeTable} {p : Program} {u : CodeUnit} (h : generate T p = .ok u)
    (hscope : p.scope = some .global) : u.globals.toList = T.globalNames := by
  rw [generate, hscope] at h
  split at h
  · next s hs _ =>
    obtain rfl := Option.some.inj hs
    simp only at h
    split at h
    · cases h
    · cases h
      exact T.toList_declaredGlobals
  · cases h

/-- **What a compiled program declares** on the global object: the analyzed program and the compilation. -/
structure Program.DeclaresGlobals (p p' : Program) (c : Compilation) : Prop where
  /-- The names that are hoisted, in their order, each where it stands first. -/
  list : c.unit.globals.toList = (hoistedNames p.body).toList.eraseDups
  /-- These are the names that a statement declares, however deep it stands in others. -/
  declared : ∀ m, m ∈ c.unit.globals ↔ ∃ n ∈ p.body, n.Declares m
  /-- A name of the list stands for a variable of the program, which is no variable of a handler. -/
  stands : ∀ m ∈ c.unit.globals, ∃ v V, (c.scopes.scope .global).own? m = some v ∧
    c.scopes.vars[v.index]? = some V ∧ V.scope = .global ∧ V.storage = .global ∧ V.isDeletable = false ∧
      ∀ Γ x, .handler Γ x ∈ p'.sites → x.var ≠ some v
  /-- A name that nobody declares is not on the list. -/
  implicit : ∀ (i : Nat) V, c.scopes.vars[i]? = some V → V.isDeletable = true → V.name ∉ c.unit.globals

/-- **A program declares what is hoisted** on the global object, if it binds names only where a statement may
stand: every name that one of its statements declares, each once and in the order of the first declarations, and
no other name. -/
theorem compile_globals {p p' : Program} {c : Compilation} (hp : p.isInPlace = true)
    (h : compile p = (.ok c, p')) : p.DeclaresGlobals p' c := by
  obtain ⟨a, ha, hok, hscopes, hg⟩ := compile_eq_ok h
  have hscoping := Analyzer.program_scoping ha hok
  obtain ⟨t, hdeclared, hwalk⟩ := Analyzer.program_analyzes ha hok
  obtain ⟨ho, hstart⟩ := hdeclared.globalNames ScopeTable.rooted_empty ScopeTable.opening_empty
  have hΓ := hdeclared.agrees
  have hgrows := hwalk.grows hΓ.rooted hΓ.inside
  have hnames : t.globalNames = (hoistedNames p.body).toList.eraseDups := by
    have hempty : ScopeTable.empty.globalNames = [] := by
      simp [ScopeTable.globalNames, ScopeTable.empty, ScopeTable.scope, ScopeId.global]
    rw [hstart, hempty]
    simp [Program.level, Level.ofProgram]
  -- What the walk binds in the scope of the program is hoisted, and so it is bound at the start.
  have hin := inPlaceAll_iff.mp hp
  have hspares : t.Spares (· ∈ t.globalNames) a.table := by
    refine hwalk.spares hΓ.rooted hΓ.inside (fun m => (ho.listed m).mp) fun _ m hm => ?_
    rw [hnames, List.mem_eraseDups, Array.mem_toList_iff]
    exact (mem_hoistedNamesOf_of_declared hwalk.hoists hin hm).2 #[]
  have hscopes : c.scopes = a.table.finish := hscopes
  have hfinish : t.Spares (· ∈ t.globalNames) a.table.finish := hspares.trans (.finish hgrows.rooted.valid)
  have hlist : c.unit.globals.toList = t.globalNames := by
    have hscope : p'.scope = some .global := by
      rw [Analyzer.program] at ha
      cases ha
      rfl
    rw [globals_of_generate hg hscope, hscopes, hfinish.same]
  have hmem : ∀ m, m ∈ c.unit.globals ↔ m ∈ t.globalNames := fun m => by
    rw [← Array.mem_toList_iff, hlist]
  refine ⟨hlist.trans hnames, fun m => ?_, fun m hm => ?_, fun i V hV hd => ?_⟩
  · rw [hmem, hnames, List.mem_eraseDups, Array.mem_toList_iff, hoistedNames, mem_hoistedNamesOf_iff]
    simp
  · obtain ⟨v, V, hown, hstands, hV, hname, hscope, hstorage⟩ := ho.stands hΓ.rooted hgrows ((hmem m).mp hm)
    rw [hscopes]
    refine ⟨v, V, hstands, hV, hscope, hstorage, ?_, fun Γ x hx hcaught => ?_⟩
    · rw [← Bool.not_eq_true]
      exact fun hd => ho.not_mem_of_isDeletable hfinish hV hd (hname ▸ (hmem m).mp hm)
    · refine hscoping.hidden v.index (List.mem_filterMap.mpr ⟨_, hx, ?_⟩) .global m hown
      rw [Site.caughtIndex?, hcaught]
      rfl
  · rw [hmem]
    rw [hscopes] at hV
    exact ho.not_mem_of_isDeletable hfinish hV hd

/-- A program that declares a name in a block and again in a handler, where it declares another one. -/
def declaresAgain : Program :=
  ⟨[.tryCatch .none (.block .none [.var .none (.definition "late") none]) (some (.definition "e"))
    (.block .none [.var .none (.definition "f") none, .var .none (.definition "late") none])], none, false⟩

/-- It declares two names on the global object, and not the name of the handler. -/
theorem compile_globals_declaresAgain :
    ∃ c p', compile declaresAgain = (.ok c, p') ∧ c.unit.globals.toList = ["late", "f"] ∧
      declaresAgain.DeclaresGlobals p' c := by
  have hok : (compile declaresAgain).1.toOption.isSome = true := by
    -- What names stand for follows from the laws of maps, and the rest is computation.
    simp [compile, declaresAgain, Analyzer.program, Analyzer.hoist, hoistedNames, hoistedNamesOf,
      Node.hoistedNames, Analyzer.modifyTable, ScopeTable.declare, ScopeTable.insert, ScopeTable.scope,
      ScopeTable.empty, ScopeTable.modifyScope, Scope.own?, ScopeId.global, Identifier.definition, Array.modify,
      Array.modifyM, Analyzer.nodes, Analyzer.node, Analyzer.failed, Analyzer.checkBindable, Analyzer.withTable,
      Analyzer.define, Analyzer.node?, Analyzer.statement, Node.setInfo, Node.info, ScopeTable.openBinding,
      ScopeTable.closeBinding]
    decide +kernel
  rcases hc : compile declaresAgain with ⟨error | c, p'⟩
  · rw [hc] at hok
    cases hok
  · have hglobals := compile_globals (by decide) hc
    exact ⟨c, p', rfl, hglobals.list.trans (by decide), hglobals⟩

end ScriptEngine
