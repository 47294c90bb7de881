import ScriptEngine.Proofs.Scope.Pass
import ScriptEngine.Proofs.Scope.Placement

/-!
# What names stand for while a table grows

A walk over nodes may bring new scopes, new variables and new names, but a name that stands for a variable
stands for it afterwards, too: a binding that is opened on the way is closed again.

* `Node.bindings` lists what a node binds in the scope around it.
* `ScopeTable.Rooted` is what is true of every table that analysis makes: from each scope one gets to the
  program, and names are looked up at run time in all scopes around a scope where they are.
* `ScopeTable.Grows` compares the tables before and after a walk, and `Analyzes.grows` says that every walk
  is like that, with nothing bound in the scopes that are there but what the nodes bind in their own.
-/

namespace ScriptEngine

/-! ## Bindings -/

/-- A name that is bound in a scope. -/
inductive BoundName where
  /-- For the whole function. -/
  | declared (name : String)
  /-- For a handler. -/
  | caught (name : String)
  deriving DecidableEq

mutual

/-- What a node binds in the scope around it, in whichever position. -/
def Node.bindings : Node → List BoundName
  | .identifier _ x => if x.isDefinition then [.declared x.name] else []
  | .call _ target args => target.bindings ++ bindingsAll args
  | .member _ target _ => target.bindings
  | .binary _ _ lhs rhs => lhs.bindings ++ rhs.bindings
  | .unary _ _ operand => operand.bindings
  | .assign _ target value => target.bindings ++ value.bindings
  | .function _ name _ _ isDeclaration _ => (outerNames name isDeclaration).map .declared
  | .object _ properties => bindingsOfProperties properties
  | .delete _ target => target.bindings
  | .var _ binding init => .declared binding.name :: bindings? init
  | .ret _ value => bindings? value
  | .cond _ condition thenBranch elseBranch =>
    condition.bindings ++ (thenBranch.bindings ++ bindings? elseBranch)
  | .loop _ condition body => condition.bindings ++ body.bindings
  | .block _ statements => bindingsAll statements
  | .withObject _ object body => object.bindings ++ body.bindings
  | .throw _ value => value.bindings
  | .tryCatch _ guarded param handler =>
    guarded.bindings ++ ((param.map fun x => .caught x.name).toList ++ handler.bindings)
  | .literal .. | .dynamic .. | .this _ => []

/-- What nodes bind in the scope around them. -/
def bindingsAll : List Node → List BoundName
  | [] => []
  | n :: rest => n.bindings ++ bindingsAll rest

/-- What a node that may be missing binds in the scope around it. -/
def bindings? : Option Node → List BoundName
  | none => []
  | some n => n.bindings

/-- What the values of properties bind in the scope around them. -/
def bindingsOfProperties : List (String × Node) → List BoundName
  | [] => []
  | (_, value) :: rest => value.bindings ++ bindingsOfProperties rest

end

/-- What a node binds that may be missing. -/
theorem bindings?_eq (n : Option Node) : bindings? n = bindingsAll n.toList := by
  cases n with
  | none => rfl
  | some n => simp [bindings?, bindingsAll]

/-- What the values of properties bind. -/
theorem bindingsOfProperties_eq (ps : List (String × Node)) :
    bindingsOfProperties ps = bindingsAll (ps.map Prod.snd) := by
  induction ps with
  | nil => rfl
  | cons p ps ih => rw [bindingsOfProperties, ih, List.map_cons, bindingsAll]

/-- **A neutral node** binds what its parts bind. -/
theorem Node.bindings_of_neutral {n : Node} (hn : n.isNeutral = true) : n.bindings = bindingsAll n.parts := by
  cases n with
  | identifier | function | var | withObject => cases hn
  | object i ps => exact bindingsOfProperties_eq ps
  | ret i value => exact bindings?_eq value
  | cond i condition thenBranch elseBranch => rw [bindings, bindings?_eq]; rfl
  | tryCatch i guarded param handler =>
    cases param with
    | some x => cases hn
    | none => simp [bindings, parts, bindingsAll]
  | _ => simp [bindings, parts, bindingsAll]

/-- A literal number binds nothing. -/
theorem Node.bindings_of_number {n : Node} (hn : n.number?.isSome = true) : n.bindings = [] := by
  cases n with
  | literal i l => rfl
  | _ => cases hn

/-- **Analysis leaves bindings** as they are. -/
theorem Analyzes.bindings_eq {c : Place} {t t' : ScopeTable} {ns ns' : List Node}
    (h : Analyzes c t ns t' ns') : bindingsAll ns' = bindingsAll ns := by
  induction h with
  | nil => rfl
  | cons _ _ ih ih' =>
    simp only [bindingsAll, List.append_nil] at ih ⊢
    rw [ih, ih']
  | neutral i hn hlength _ _ ih =>
    obtain ⟨hparts, hneutral⟩ := Node.parts_rebuild i hn hlength
    simp only [bindingsAll, List.append_nil]
    rw [Node.bindings_of_neutral hneutral, hparts, ih, Node.bindings_of_neutral hn]
  | @folded c t t₁ t₂ n ps i l hn _ hps _ ih =>
    have hneutral : n.isNeutral = true := by
      obtain ⟨i, op, lhs, rhs, rfl⟩ | ⟨i, op, x, rfl⟩ := hn <;> rfl
    have hnothing : ∀ qs : List Node, (∀ q ∈ qs, q.number?.isSome = true) → bindingsAll qs = [] := by
      intro qs hqs
      induction qs with
      | nil => rfl
      | cons q qs ihq =>
        rw [bindingsAll, Node.bindings_of_number (hqs q List.mem_cons_self),
          ihq fun r hr => hqs r (List.mem_cons_of_mem q hr)]
        rfl
    simp only [bindingsAll, List.append_nil]
    rw [Node.bindings_of_neutral hneutral, ← ih, hnothing ps hps]
    rfl
  | lowered t i i' hx => simp [bindingsAll, Node.bindings, hx]
  | definition t i i' hx => simp [bindingsAll, Node.bindings]
  | reference t i i' hx => simp [bindingsAll, Node.bindings]
  | var i i' _ _ _ ih => simp [bindingsAll, Node.bindings, bindings?_eq, ih]
  | @function c t t₁ t₂ t₃ t₄ t₅ i i' name name' _ _ _ _ isDeclaration _ _ _ _ _ _ _ _ hname _ _ _ =>
    simp only [bindingsAll, Node.bindings, outerNames, hname.same]
  | withObject i i' _ _ iho ihb =>
    simp only [bindingsAll, List.append_nil] at iho ihb
    simp [bindingsAll, Node.bindings, iho, ihb]
  | tryCatch i i' _ _ _ ihb ihh =>
    simp only [bindingsAll, List.append_nil] at ihb ihh
    simp [bindingsAll, Node.bindings, ihb, ihh]


/-! ## What names stand for after an operation -/

namespace ScopeTable

section

variable {t : ScopeTable}

/-- A scope after one was changed. -/
theorem scope_modifyScope {s : ScopeId} (hs : s.index < t.scopes.size) (f : Scope → Scope) (id : ScopeId) :
    (t.modifyScope s f).scope id = if id = s then f (t.scope id) else t.scope id := by
  rw [scope, modifyScope_getElem?]
  by_cases hid : id = s
  · rw [hid, if_pos rfl, if_pos rfl, scope, Array.getElem?_eq_getElem hs]
    rfl
  · have hne : ¬ s.index = id.index := fun h => hid (by cases s; cases id; simp_all)
    rw [if_neg hne, if_neg hid, scope]

/-- What a change of scopes leaves alone. -/
theorem view_modifyScope {α : Type} (view : Scope → α) {f : Scope → Scope}
    (hf : ∀ S, view (f S) = view S) (s id : ScopeId) :
    view ((t.modifyScope s f).scope id) = view (t.scope id) := by
  rw [scope, modifyScope_getElem?, scope]
  split
  · rcases t.scopes[id.index]? with _ | S
    · rfl
    · exact hf S
  · rfl

/-- What changes of scopes leave alone. -/
theorem view_foldl_modifyScope {α : Type} (view : Scope → α) {f : Scope → Scope}
    (hf : ∀ S, view (f S) = view S) (scopes : List ScopeId) (id : ScopeId) :
    view ((scopes.foldl (fun t s => t.modifyScope s f) t).scope id) = view (t.scope id) := by
  induction scopes generalizing t with
  | nil => rfl
  | cons s rest ih => exact ih.trans (view_modifyScope view hf s id)

/-- As many scopes are there after they were changed. -/
theorem size_foldl_modifyScope (f : Scope → Scope) (scopes : List ScopeId) :
    (scopes.foldl (fun t s => t.modifyScope s f) t).scopes.size = t.scopes.size := by
  induction scopes generalizing t with
  | nil => rfl
  | cons s rest ih => exact ih.trans (Array.size_modify ..)

/-- Changes of scopes leave variables alone. -/
theorem vars_foldl_modifyScope (f : Scope → Scope) (scopes : List ScopeId) :
    (scopes.foldl (fun t s => t.modifyScope s f) t).vars = t.vars := by
  induction scopes generalizing t with
  | nil => rfl
  | cons s rest ih => exact ih

/-- What marking leaves alone. -/
theorem view_markDynamic {α : Type} (view : Scope → α)
    (hview : ∀ S, view { S with isDynamic := true } = view S) (s id : ScopeId) :
    view ((t.markDynamic s).scope id) = view (t.scope id) :=
  view_foldl_modifyScope view hview _ id

/-- **A variable is added**: its name stands for it. -/
theorem own?_insert {V : Variable} (hs : V.scope.index < t.scopes.size) (id : ScopeId) (m : String) :
    ((t.insert V).2.scope id).own? m =
      if id = V.scope ∧ m = V.name then some ⟨t.vars.size⟩ else (t.scope id).own? m := by
  show ((modifyScope { t with vars := t.vars.push V } V.scope _).scope id).own? m = _
  rw [scope_modifyScope (t := { t with vars := t.vars.push V }) hs]
  by_cases hid : id = V.scope
  · rw [if_pos hid]
    show (Std.TreeMap.insert _ _ _)[m]? = _
    rw [Std.TreeMap.getElem?_insert]
    by_cases hm : m = V.name
    · simp [hm, hid]
    · have hne : compare V.name m ≠ .eq := fun h => hm (Std.compare_eq_iff_eq.mp h).symm
      rw [if_neg hne, if_neg fun h => hm h.2]
      rfl
  · rw [if_neg hid, if_neg fun h => hid h.1]
    rfl

/-- **A binding is closed**: its name stands for what it is given. -/
theorem own?_closeBinding {s : ScopeId} (hs : s.index < t.scopes.size) (name : String)
    (shadowed : Option VarId) (id : ScopeId) (m : String) :
    ((t.closeBinding s name shadowed).scope id).own? m =
      if id = s ∧ m = name then shadowed else (t.scope id).own? m := by
  rw [closeBinding, scope_modifyScope hs]
  by_cases hid : id = s
  · rw [if_pos hid, hid]
    by_cases hm : m = name
    · rcases shadowed with _ | v
      · simp [Scope.own?, hm]
      · simp [Scope.own?, hm]
    · rw [if_neg fun h => hm h.2]
      have hne : ¬ name = m := fun h => hm h.symm
      rcases shadowed with _ | v
      · simp [Scope.own?, Std.TreeMap.getElem?_erase, hne]
      · simp [Scope.own?, Std.TreeMap.getElem?_insert, hne]
  · rw [if_neg hid, if_neg fun h => hid h.1]

/-- The scope that is added, and the others. -/
theorem scope_pushScope (parent : ScopeId) (label : String) (id : ScopeId) :
    (t.pushScope parent label).2.scope id =
      if id.index = t.scopes.size then { parent := some parent, name := label } else t.scope id := by
  rw [scope, pushScope, Array.getElem?_push, scope]
  split
  · rfl
  · rfl

/-- What closing a binding leaves alone. -/
theorem view_closeBinding {α : Type} (view : Scope → α) (hview : ∀ S names, view { S with names } = view S)
    (s : ScopeId) (name : String) (shadowed : Option VarId) (id : ScopeId) :
    view ((t.closeBinding s name shadowed).scope id) = view (t.scope id) :=
  view_modifyScope view (fun S => hview S _) s id

/-- **A scope is added**: nothing is bound in it. -/
theorem own?_pushScope (parent : ScopeId) (label : String) (id : ScopeId) (m : String) :
    ((t.pushScope parent label).2.scope id).own? m = (t.scope id).own? m := by
  rw [scope_pushScope]
  split
  · next hid =>
    rw [scope, Array.getElem?_eq_none (Nat.le_of_eq hid.symm)]
    rfl
  · rfl

/-! ## The tree of scopes -/

/-- Scopes lie in earlier ones. -/
theorem Valid.nested (hv : t.Valid) : t.Nested := hv.parent

/-- Where a scope of a valid table lies. -/
theorem Valid.parent_lt (hv : t.Valid) {s p : ScopeId} (hp : (t.scope s).parent = some p) :
    p.index < s.index ∧ s.index < t.scopes.size := by
  rw [scope] at hp
  rcases hS : t.scopes[s.index]? with _ | S
  · rw [hS] at hp
    cases hp
  · rw [hS] at hp
    exact ⟨hv.parent _ S hS p hp, (Array.getElem?_eq_some_iff.mp hS).choose⟩

/-- From each scope one gets to the program, and a scope is marked together with all scopes around it. -/
structure Rooted (t : ScopeTable) : Prop where
  /-- The table is valid. -/
  valid : t.Valid
  /-- The scope of the program is there. -/
  size : 0 < t.scopes.size
  /-- Every other scope lies in one. -/
  parent : ∀ s : ScopeId, s.index < t.scopes.size → s ≠ .global → (t.scope s).parent ≠ none
  /-- If names are looked up at run time in a scope, they are in the scope around it. -/
  dynamic : ∀ s p : ScopeId, (t.scope s).isDynamic = true → (t.scope s).parent = some p →
    (t.scope p).isDynamic = true

/-- The table of a program that has not been looked at. -/
theorem rooted_empty : empty.Rooted := by
  refine ⟨valid_empty, Nat.zero_lt_one, fun s hs hne => ?_, fun s p hdynamic _ => ?_⟩
  · have hzero : s.index = 0 := Nat.lt_one_iff.mp hs
    exact absurd (by cases s; simp_all [ScopeId.global]) hne
  · rcases s with ⟨_ | i⟩
    · cases hdynamic
    · cases hdynamic

namespace Rooted

/-- **The chain of a scope**: the scope itself, and then the chain of the scope around it. -/
theorem chain_eq (h : t.Rooted) {s : ScopeId} (hs : s.index < t.scopes.size) :
    t.chain s = [s] ∧ s = .global ∨
      ∃ p, (t.scope s).parent = some p ∧ p.index < s.index ∧ t.chain s = s :: t.chain p := by
  rw [h.valid.nested.chain_eq hs]
  rcases hp : (t.scope s).parent with _ | p
  · refine .inl ⟨rfl, Classical.byContradiction fun hne => h.parent s hs hne hp⟩
  · exact .inr ⟨p, rfl, (h.valid.parent_lt hp).1, rfl⟩

/-- What holds of the program and gets from a scope to the scopes in it holds of all. -/
theorem induct (h : t.Rooted) {motive : ScopeId → Prop} (global : t.chain .global = [.global] → motive .global)
    (inner : ∀ s p, s.index < t.scopes.size → (t.scope s).parent = some p →
      t.chain s = s :: t.chain p → motive p → motive s) {s : ScopeId} (hs : s.index < t.scopes.size) :
    motive s := by
  induction hi : s.index using Nat.strongRecOn generalizing s with
  | ind i ih =>
    obtain ⟨hchain, rfl⟩ | ⟨p, hp, hlt, hchain⟩ := h.chain_eq hs
    · exact global hchain
    · exact inner s p hs hp hchain (ih p.index (by omega) (by omega) rfl)

/-- A chain starts with the scope itself. -/
theorem self_mem_chain (h : t.Rooted) {s : ScopeId} (hs : s.index < t.scopes.size) : s ∈ t.chain s := by
  obtain ⟨hchain, -⟩ | ⟨p, -, -, hchain⟩ := h.chain_eq hs
  · rw [hchain]
    exact List.mem_singleton_self s
  · rw [hchain]
    exact List.mem_cons_self

/-- Every chain gets to the program. -/
theorem global_mem_chain (h : t.Rooted) {s : ScopeId} (hs : s.index < t.scopes.size) :
    ScopeId.global ∈ t.chain s := by
  refine h.induct (motive := fun s => ScopeId.global ∈ t.chain s) (fun hchain => ?_)
    (fun s p _ _ hchain ih => ?_) hs
  · rw [hchain]
    exact List.mem_singleton_self _
  · rw [hchain]
    exact List.mem_cons_of_mem s ih

/-- The scopes of a chain are there. -/
theorem mem_chain_lt (h : t.Rooted) {s id : ScopeId} (hs : s.index < t.scopes.size)
    (hid : id ∈ t.chain s) : id.index < t.scopes.size := by
  refine h.induct (motive := fun s => id ∈ t.chain s → id.index < t.scopes.size) (fun hchain hid => ?_)
    (fun s p hs _ hchain ih hid => ?_) hs hid
  · rw [hchain, List.mem_singleton] at hid
    exact hid ▸ h.size
  · rw [hchain] at hid
    obtain rfl | hid := List.mem_cons.mp hid
    · exact hs
    · exact ih hid

/-- No scope is twice on a chain. -/
theorem nodup_chain (h : t.Rooted) {s : ScopeId} (hs : s.index < t.scopes.size) : (t.chain s).Nodup := by
  refine h.induct (motive := fun s => (t.chain s).Nodup) (fun hchain => ?_) (fun s p hs hp hchain ih => ?_) hs
  · rw [hchain]
    simp
  · rw [hchain, List.nodup_cons]
    refine ⟨fun hmem => ?_, ih⟩
    have hlt := (h.valid.parent_lt hp).1
    have hle := h.valid.nested.mem_chain_le (Nat.lt_trans hlt hs) hmem
    omega

/-- With a scope, a chain has the scope around it. -/
theorem parent_mem_chain (h : t.Rooted) {s id p : ScopeId} (hs : s.index < t.scopes.size)
    (hid : id ∈ t.chain s) (hp : (t.scope id).parent = some p) : p ∈ t.chain s := by
  refine h.induct (motive := fun s => id ∈ t.chain s → p ∈ t.chain s) (fun hchain hid => ?_)
    (fun s q hs hq hchain ih hid => ?_) hs hid
  · rw [hchain, List.mem_singleton] at hid
    exact absurd (h.valid.parent_lt (hid ▸ hp)).1 (Nat.not_lt_zero _)
  · rw [hchain] at hid ⊢
    obtain rfl | hid := List.mem_cons.mp hid
    · obtain rfl : p = q := Option.some.inj (hp.symm.trans hq)
      exact List.mem_cons_of_mem id (h.self_mem_chain (Nat.lt_trans (h.valid.parent_lt hp).1 hs))
    · exact List.mem_cons_of_mem s (ih hid)

/-- If names are looked up at run time in a scope, they are in all scopes of its chain. -/
theorem dynamic_chain (h : t.Rooted) {s id : ScopeId} (hs : s.index < t.scopes.size)
    (hdynamic : (t.scope s).isDynamic = true) (hid : id ∈ t.chain s) : (t.scope id).isDynamic = true := by
  refine h.induct (motive := fun s => (t.scope s).isDynamic = true → id ∈ t.chain s →
    (t.scope id).isDynamic = true) (fun hchain hdynamic hid => ?_)
    (fun s p hs hp hchain ih hdynamic hid => ?_) hs hdynamic hid
  · rw [hchain, List.mem_singleton] at hid
    exact hid ▸ hdynamic
  · rw [hchain] at hid
    obtain rfl | hid := List.mem_cons.mp hid
    · exact hdynamic
    · exact ih (h.dynamic s p hdynamic hp) hid

/-- **A change that leaves the tree of scopes** as it is. -/
theorem of_same {t' : ScopeTable} (h : t.Rooted) (hv : t'.Valid) (hsize : t'.scopes.size = t.scopes.size)
    (hparent : ∀ s, (t'.scope s).parent = (t.scope s).parent)
    (hdynamic : ∀ s, (t'.scope s).isDynamic = (t.scope s).isDynamic) : t'.Rooted := by
  refine ⟨hv, hsize ▸ h.size, fun s hs hne => ?_, fun s p hs hp => ?_⟩
  · rw [hparent]
    exact h.parent s (hsize ▸ hs) hne
  · rw [hdynamic] at hs ⊢
    rw [hparent] at hp
    exact h.dynamic s p hs hp

/-- **Marking a scope** marks all scopes of its chain. -/
theorem isDynamic_markDynamic (h : t.Rooted) {s : ScopeId} (hs : s.index < t.scopes.size) (id : ScopeId) :
    ((t.markDynamic s).scope id).isDynamic = true ↔ (t.scope id).isDynamic = true ∨ id ∈ t.chain s := by
  have hfold : ∀ (scopes : List ScopeId) (t : ScopeTable), (∀ i ∈ scopes, i.index < t.scopes.size) →
      (((scopes.foldl (fun t i => t.modifyScope i fun S => { S with isDynamic := true }) t).scope
        id).isDynamic = true ↔ (t.scope id).isDynamic = true ∨ id ∈ scopes) := by
    intro scopes
    induction scopes with
    | nil => simp
    | cons i scopes ih =>
      intro t hlt
      rw [List.foldl_cons, ih _ fun j hj => by
        rw [modifyScope, Array.size_modify]
        exact hlt j (List.mem_cons_of_mem i hj), scope_modifyScope (hlt i List.mem_cons_self)]
      by_cases hid : id = i
      · simp [hid]
      · simp [hid]
  -- What marking skips is marked already.
  have hrest : ∀ id ∈ t.chain s, id ∈ (t.chain s).takeWhile (fun i => !(t.scope i).isDynamic) ∨
      (t.scope id).isDynamic = true := by
    refine h.induct (motive := fun s => ∀ id ∈ t.chain s,
      id ∈ (t.chain s).takeWhile (fun i => !(t.scope i).isDynamic) ∨ (t.scope id).isDynamic = true)
      (fun hchain id hid => ?_) (fun s p hs hp hchain ih id hid => ?_) hs
    · rw [hchain, List.mem_singleton] at hid
      rw [hchain, hid]
      by_cases hd : (t.scope .global).isDynamic = true
      · exact .inr hd
      · simp [hd]
    · by_cases hd : (t.scope s).isDynamic = true
      · exact .inr (h.dynamic_chain hs hd hid)
      · rw [hchain] at hid ⊢
        rw [List.takeWhile_cons_of_pos (by simpa using hd)]
        obtain rfl | hid := List.mem_cons.mp hid
        · exact .inl List.mem_cons_self
        · exact (ih id hid).imp (List.mem_cons_of_mem s) fun hd => hd
  rw [markDynamic, hfold _ t fun i hi => h.mem_chain_lt hs ((List.takeWhile_sublist _).subset hi)]
  refine ⟨fun hmarked => hmarked.imp (fun h => h) fun hmem => (List.takeWhile_sublist _).subset hmem,
    fun hmarked => ?_⟩
  obtain hd | hmem := hmarked
  · exact .inl hd
  · exact (hrest id hmem).symm

/-- **A scope is marked.** -/
theorem markDynamic (h : t.Rooted) {s : ScopeId} (hs : s.index < t.scopes.size) :
    (t.markDynamic s).Rooted := by
  have hparent := view_markDynamic (t := t) Scope.parent (fun _ => rfl) s
  have hsize : (t.markDynamic s).scopes.size = t.scopes.size := size_foldl_modifyScope _ _
  refine ⟨(leads_markDynamic h.valid s).valid, hsize ▸ h.size, fun id hid hne => ?_, fun id p hid hp => ?_⟩
  · rw [hparent]
    exact h.parent id (hsize ▸ hid) hne
  · rw [hparent] at hp
    rw [h.isDynamic_markDynamic hs] at hid ⊢
    obtain hd | hmem := hid
    · exact .inl (h.dynamic id p hd hp)
    · exact .inr (h.parent_mem_chain hs hmem hp)

/-- **A scope is added.** -/
theorem pushScope (h : t.Rooted) {parent : ScopeId} (hp : parent.index < t.scopes.size) (label : String) :
    (t.pushScope parent label).2.Rooted := by
  refine ⟨(leads_pushScope h.valid hp label).valid, ?_, fun id hid hne => ?_, fun id q hid hq => ?_⟩
  · rw [ScopeTable.pushScope, Array.size_push]
    exact Nat.succ_pos _
  · rw [scope_pushScope]
    split
    · exact Option.some_ne_none parent
    · rw [ScopeTable.pushScope, Array.size_push] at hid
      exact h.parent id (by omega) hne
  · rw [scope_pushScope] at hid hq ⊢
    split at hid
    · cases hid
    · next hold =>
      rw [if_neg hold] at hq
      obtain ⟨hlt, hlt'⟩ := h.valid.parent_lt hq
      rw [if_neg (by omega)]
      exact h.dynamic id q hid hq

end Rooted

/-- Scopes keep the scope around them. -/
theorem Extends.parent_eq {t' : ScopeTable} (hext : t.Extends t') {s : ScopeId}
    (hs : s.index < t.scopes.size) : (t'.scope s).parent = (t.scope s).parent := by
  obtain ⟨S', hS', hsame⟩ := hext.scopes s.index _ (Array.getElem?_eq_getElem hs)
  rw [scope, hS', scope, Array.getElem?_eq_getElem hs]
  exact hsame

/-- Chains stay as they are when scopes keep the scope around them. -/
theorem Extends.chain_eq_of_nested {t' : ScopeTable} (hext : t.Extends t') (h : t.Nested) (h' : t'.Nested)
    {s : ScopeId} (hs : s.index < t.scopes.size) : t'.chain s = t.chain s := by
  induction hi : s.index using Nat.strongRecOn generalizing s with
  | ind i ih =>
    rw [h'.chain_eq (hext.size_le hs), h.chain_eq hs, hext.parent_eq hs]
    rcases hp : (t.scope s).parent with _ | p
    · rfl
    · rw [scope, Array.getElem?_eq_getElem hs] at hp
      have hlt := h s.index _ (Array.getElem?_eq_getElem hs) p hp
      exact congrArg (s :: ·) (ih p.index (hi ▸ hlt) (Nat.lt_trans hlt hs) rfl)

/-- Chains stay as they are when a table grows. -/
theorem Extends.chain_eq {t' : ScopeTable} (hext : t.Extends t') (h : t.Rooted) (h' : t'.Rooted)
    {s : ScopeId} (hs : s.index < t.scopes.size) : t'.chain s = t.chain s :=
  hext.chain_eq_of_nested h.valid.nested h'.valid.nested hs

/-! ## Growing -/

/-- A name that nobody declares: its variable is a property of the global object that scripts may
delete. -/
def Implicit (t : ScopeTable) (m : String) (v : VarId) : Prop :=
  ∃ V, t.vars[v.index]? = some V ∧ V.name = m ∧ V.scope = .global ∧ V.storage = .global ∧
    V.isDeletable = true

/-- A scope has no variables of a name but the one that the name stands for. -/
def Sole (t : ScopeTable) (s : ScopeId) (m : String) : Prop :=
  ∀ (i : Nat) V, t.vars[i]? = some V → V.scope = s → V.name = m → (t.scope s).own? m = some ⟨i⟩

/-- A later table. In the scopes that are there nothing new is bound but what is said, and names that nobody
declares. -/
structure Grows (N : ScopeId → BoundName → Prop) (t t' : ScopeTable) : Prop where
  /-- The later table is in order. -/
  rooted : t'.Rooted
  /-- It extends the earlier one. -/
  ext : t.Extends t'
  /-- Scripts may delete the same variables. -/
  deletable : ∀ (i : Nat) V V', t.vars[i]? = some V → t'.vars[i]? = some V' →
    V'.isDeletable = V.isDeletable
  /-- Marked scopes stay marked. -/
  dynamic : ∀ s, (t.scope s).isDynamic = true → (t'.scope s).isDynamic = true
  /-- Names stand for what they stood for. -/
  own : ∀ s m v, (t.scope s).own? m = some v → (t'.scope s).own? m = some v
  /-- A name that is new stands for a new variable. -/
  fresh : ∀ s m v, (t'.scope s).own? m = some v → (t.scope s).own? m = some v ∨
    t.vars.size ≤ v.index ∧
      (N s (.declared m) ∨ s = .global ∧ t'.Implicit m v ∨ t.scopes.size ≤ s.index)
  /-- A name that has only one variable gets a second one only in a handler. -/
  sole : ∀ s m, s.index < t.scopes.size → ¬ N s (.caught m) → t.Sole s m → t'.Sole s m

/-- Variables stay. -/
theorem Extends.vars_le {t' : ScopeTable} (h : t.Extends t') : t.vars.size ≤ t'.vars.size := by
  rcases hsize : t.vars.size with _ | n
  · exact Nat.zero_le _
  · obtain ⟨V', hV', -⟩ := h.vars n _ (Array.getElem?_eq_getElem (hsize ▸ Nat.lt_succ_self n))
    exact (Array.getElem?_eq_some_iff.mp hV').choose

/-- Scopes stay. -/
theorem Extends.scopes_le {t' : ScopeTable} (h : t.Extends t') : t.scopes.size ≤ t'.scopes.size := by
  rcases hsize : t.scopes.size with _ | n
  · exact Nat.zero_le _
  · exact h.size_le (hsize ▸ Nat.lt_succ_self n)

namespace Grows

variable {N N' : ScopeId → BoundName → Prop} {t t' t'' : ScopeTable}

/-- Nothing new. -/
theorem refl (h : t.Rooted) : t.Grows N t :=
  ⟨h, .refl t, fun _ _ _ hV hV' => by rw [hV] at hV'; cases hV'; rfl, fun _ h => h, fun _ _ _ h => h,
    fun _ _ _ h => .inl h, fun _ _ _ _ h => h⟩

/-- A name that nobody declares stays one. -/
theorem implicit (h : t.Grows N t') {m : String} {v : VarId} (hm : t.Implicit m v) :
    t'.Implicit m v := by
  obtain ⟨V, hV, hname, hscope, hstorage, hdeletable⟩ := hm
  obtain ⟨V', hV', hname', hscope', hmoves⟩ := h.ext.vars _ V hV
  refine ⟨V', hV', hname'.trans hname, hscope'.trans hscope, ?_, (h.deletable _ V V' hV hV').trans hdeletable⟩
  obtain hsame | ⟨hframe, -⟩ := hmoves
  · exact hsame.trans hstorage
  · rw [hstorage] at hframe
    cases hframe

/-- Later and later. -/
theorem trans (h : t.Grows N t') (h' : t'.Grows N t'') : t.Grows N t'' := by
  refine ⟨h'.rooted, h.ext.trans h'.ext, fun i V V'' hV hV'' => ?_, fun s hs => h'.dynamic s (h.dynamic s hs),
    fun s m v hv => h'.own s m v (h.own s m v hv), fun s m v hv => ?_, fun s m hs hnew hsole => ?_⟩
  · obtain ⟨V', hV', -⟩ := h.ext.vars i V hV
    exact (h'.deletable i V' V'' hV' hV'').trans (h.deletable i V V' hV hV')
  · obtain hv | ⟨hle, hwhy⟩ := h'.fresh s m v hv
    · obtain hv | ⟨hle, hwhy⟩ := h.fresh s m v hv
      · exact .inl hv
      · refine .inr ⟨hle, hwhy.imp_right (Or.imp_left fun hglobal => ⟨hglobal.1, h'.implicit hglobal.2⟩)⟩
    · exact .inr ⟨Nat.le_trans h.ext.vars_le hle,
        hwhy.imp_right (Or.imp_right (Nat.le_trans h.ext.scopes_le))⟩
  · exact h'.sole s m (h.ext.size_le hs) hnew (h.sole s m hs hnew hsole)

/-- More is allowed to be new. -/
theorem mono (h : t.Grows N t') (hnew : ∀ s b, s.index < t.scopes.size → N s b → N' s b) :
    t.Grows N' t' := by
  refine { h with
    fresh := fun s m v hv => ?_
    sole := fun s m hs hcaught hsole => h.sole s m hs (fun h => hcaught (hnew s _ hs h)) hsole }
  obtain hv | ⟨hle, hwhy⟩ := h.fresh s m v hv
  · exact .inl hv
  · refine .inr ⟨hle, ?_⟩
    obtain hdeclared | hwhy := hwhy
    · rcases Nat.lt_or_ge s.index t.scopes.size with hs | hs
      · exact .inl (hnew s _ hs hdeclared)
      · exact .inr (.inr hs)
    · exact .inr hwhy

/-- More is bound in a scope. -/
theorem subset {s : ScopeId} {bs bs' : List BoundName} (h : t.Grows (fun id b => id = s ∧ b ∈ bs) t')
    (hsub : bs ⊆ bs') : t.Grows (fun id b => id = s ∧ b ∈ bs') t' :=
  h.mono fun _ _ _ hb => ⟨hb.1, hsub hb.2⟩

/-- Nothing is bound. -/
theorem of_none (h : t.Grows (fun _ _ => False) t') : t.Grows N t' := h.mono fun _ _ _ hno => hno.elim

/-- **A change that binds nothing.** -/
theorem of_own_eq (hr : t'.Rooted) (hext : t.Extends t')
    (hdynamic : ∀ s, (t.scope s).isDynamic = true → (t'.scope s).isDynamic = true)
    (hown : ∀ s m, (t'.scope s).own? m = (t.scope s).own? m)
    (hvars : ∀ (i : Nat) V', t'.vars[i]? = some V' → ∃ V, t.vars[i]? = some V ∧ V.name = V'.name ∧
      V.scope = V'.scope ∧ V.isDeletable = V'.isDeletable) : t.Grows N t' := by
  refine ⟨hr, hext, fun i V V' hV hV' => ?_, hdynamic, fun s m v hv => (hown s m).trans hv,
    fun s m v hv => .inl ((hown s m).symm.trans hv), fun s m _ _ hsole i V' hV' hscope hname => ?_⟩
  · obtain ⟨V₀, hV₀, -, -, hdeletable⟩ := hvars i V' hV'
    rw [hV] at hV₀
    cases hV₀
    exact hdeletable.symm
  · obtain ⟨V, hV, hname', hscope', -⟩ := hvars i V' hV'
    exact (hown s m).trans (hsole i V hV (hscope'.trans hscope) (hname'.trans hname))

end Grows

/-- What a scope says besides its variables stays when one is added. -/
theorem view_insert {α : Type} (view : Scope → α)
    (hview : ∀ S names order, view { S with names, order } = view S) (V : Variable) (s : ScopeId) :
    view ((t.insert V).2.scope s) = view (t.scope s) :=
  view_modifyScope (t := { t with vars := t.vars.push V }) view (fun S => hview S _ _) V.scope s

/-- **A variable is added.** -/
theorem Rooted.insert (h : t.Rooted) {V : Variable} (hs : V.scope.index < t.scopes.size)
    (hglobal : V.storage = .global → V.scope = .global) : (t.insert V).2.Rooted :=
  h.of_same (leads_insert h.valid hs hglobal).valid (Array.size_modify ..)
    (view_insert Scope.parent (fun _ _ _ => rfl) V) (view_insert Scope.isDynamic (fun _ _ _ => rfl) V)

/-- **A variable is added** under a name that the scope does not bind. -/
theorem grows_insert (h : t.Rooted) {N : ScopeId → BoundName → Prop} {V : Variable}
    (hs : V.scope.index < t.scopes.size) (hglobal : V.storage = .global → V.scope = .global)
    (hnone : (t.scope V.scope).own? V.name = none)
    (hnew : N V.scope (.declared V.name) ∨
      V.scope = .global ∧ V.storage = .global ∧ V.isDeletable = true) :
    t.Grows N (t.insert V).2 := by
  refine ⟨h.insert hs hglobal, (leads_insert h.valid hs hglobal).ext, fun i W W' hW hW' => ?_,
    fun s hd => ?_, fun s m v hv => ?_, fun s m v hv => ?_, fun s m _ _ hsole i W hW hscope hname => ?_⟩
  · obtain ⟨rfl, -⟩ | hW' := insert_cases hW'
    · rw [Array.getElem?_eq_none (Nat.le_refl _)] at hW
      cases hW
    · rw [hW] at hW'
      cases hW'
      rfl
  · rw [view_insert Scope.isDynamic fun _ _ _ => rfl]
    exact hd
  · rw [own?_insert hs, if_neg]
    · exact hv
    · rintro ⟨rfl, rfl⟩
      rw [hnone] at hv
      cases hv
  · rw [own?_insert hs] at hv
    split at hv
    · next hself =>
      obtain ⟨rfl, rfl⟩ := hself
      cases hv
      refine .inr ⟨Nat.le_refl _, hnew.imp_right fun hV => .inl ⟨hV.1, V, insert_getElem? V, rfl, hV⟩⟩
    · exact .inl hv
  · rw [own?_insert hs]
    obtain ⟨rfl, rfl⟩ | hW := insert_cases hW
    · rw [if_pos ⟨hscope.symm, hname.symm⟩]
    · have hold := hsole i W hW hscope hname
      rw [if_neg]
      · exact hold
      · rintro ⟨rfl, rfl⟩
        rw [hnone] at hold
        cases hold

/-- What a name stands for once it is declared. -/
theorem own?_declare {s : ScopeId} (hs : s.index < t.scopes.size) (name : String) (id : ScopeId)
    (m : String) : ((t.declare s name).2.scope id).own? m =
      if id = s ∧ m = name then some (t.declare s name).1 else (t.scope id).own? m := by
  rw [declare]
  split
  · next v hown =>
    split
    · next hself =>
      rw [hself.1, hself.2]
      exact hown
    · rfl
  · exact own?_insert hs id m

/-- **A name is declared.** -/
theorem grows_declare (h : t.Rooted) {s : ScopeId} (hs : s.index < t.scopes.size) (name : String) :
    t.Grows (fun s' b => s' = s ∧ b = .declared name) (t.declare s name).2 := by
  rw [declare]
  split
  · exact .refl h
  · next hnone =>
    refine grows_insert h hs (fun hstorage => ?_) hnone (.inl ⟨rfl, rfl⟩)
    simp only at hstorage ⊢
    split at hstorage
    · assumption
    · cases hstorage

/-- **What is noted about variables** binds nothing. -/
theorem Hints.grows {t' : ScopeTable} (hhints : t.Hints t') (h : t.Rooted)
    {N : ScopeId → BoundName → Prop} : t.Grows N t' := by
  have hback : ∀ (i : Nat) V', t'.vars[i]? = some V' → ∃ V, t.vars[i]? = some V ∧ V.core = V'.core := by
    intro i V' hV'
    have hcore := hhints.vars i
    rcases hV : t.vars[i]? with _ | V
    · rw [hV', hV] at hcore
      cases hcore
    · rw [hV', hV] at hcore
      exact ⟨V, rfl, (Option.some.inj hcore).symm⟩
  have hforth : ∀ (i : Nat) V, t.vars[i]? = some V → ∃ V', t'.vars[i]? = some V' ∧ V.core = V'.core := by
    intro i V hV
    have hcore := hhints.vars i
    rcases hV' : t'.vars[i]? with _ | V'
    · rw [hV', hV] at hcore
      cases hcore
    · rw [hV', hV] at hcore
      exact ⟨V', rfl, (Option.some.inj hcore).symm⟩
  have hname : ∀ {V W : Variable}, V.core = W.core → V.name = W.name := fun {V W} h =>
    show V.core.name = W.core.name from h ▸ rfl
  have hscope : ∀ {V W : Variable}, V.core = W.core → V.scope = W.scope := fun {V W} h =>
    show V.core.scope = W.core.scope from h ▸ rfl
  have hstorage : ∀ {V W : Variable}, V.core = W.core → V.storage = W.storage := fun {V W} h =>
    show V.core.storage = W.core.storage from h ▸ rfl
  have hv := h.valid
  have hvalid : t'.Valid := by
    refine ⟨?_, ?_, ?_, ?_, ?_, ?_, hhints.finished.trans hv.unfinished⟩
    · rw [hhints.scopes]
      exact hv.parent
    · rw [hhints.scopes]
      intro i S hS name v hown
      obtain ⟨V, hV, hVs, hVn⟩ := hv.names i S hS name v hown
      obtain ⟨V', hV', hcore⟩ := hforth _ V hV
      exact ⟨V', hV', (hscope hcore).symm.trans hVs, (hname hcore).symm.trans hVn⟩
    · rw [hhints.scopes]
      intro i S hS v hmem
      obtain ⟨V, hV, hVs⟩ := hv.order i S hS v hmem
      obtain ⟨V', hV', hcore⟩ := hforth _ V hV
      exact ⟨V', hV', (hscope hcore).symm.trans hVs⟩
    · rw [hhints.scopes]
      exact hv.nodup
    · rw [hhints.scopes]
      intro i V' hV'
      obtain ⟨V, hV, hcore⟩ := hback i V' hV'
      exact hscope hcore ▸ hv.listed i V hV
    · intro i V' hV' hglobal
      obtain ⟨V, hV, hcore⟩ := hback i V' hV'
      exact (hscope hcore).symm.trans (hv.globals i V hV ((hstorage hcore).trans hglobal))
  have hsame : ∀ s, t'.scope s = t.scope s := fun s => by rw [scope, hhints.scopes, scope]
  refine .of_own_eq (h.of_same hvalid (by rw [hhints.scopes]) (fun s => by rw [hsame]) fun s => by rw [hsame])
    ⟨fun i S hS => ⟨S, hhints.scopes ▸ hS, rfl⟩, fun i V hV => ?_⟩ (fun s hd => hsame s ▸ hd)
    (fun s m => by rw [hsame]) fun i V' hV' => ?_
  · obtain ⟨V', hV', hcore⟩ := hforth i V hV
    exact ⟨V', hV', (hname hcore).symm, (hscope hcore).symm, .inl (hstorage hcore).symm⟩
  · obtain ⟨V, hV, hcore⟩ := hback i V' hV'
    exact ⟨V, hV, hname hcore, hscope hcore,
      show V.core.isDeletable = V'.core.isDeletable from hcore ▸ rfl⟩

/-- **Names are declared** one after the other. -/
theorem Declared.grows {t' : ScopeTable} {s : ScopeId} {names : List String}
    (hdeclared : Declared s names t t') (h : t.Rooted) (hs : s.index < t.scopes.size) :
    t.Grows (fun s' b => s' = s ∧ b ∈ names.map .declared) t' ∧
      ∀ m ∈ names, ((t'.scope s).own? m).isSome = true := by
  induction hdeclared with
  | nil t => exact ⟨.refl h, fun m hm => nomatch hm⟩
  | note hhints _ ih =>
    have hnote := hhints.grows h (N := fun _ _ => False)
    obtain ⟨hgrows, hown⟩ := ih hnote.rooted (hnote.ext.size_le hs)
    exact ⟨(hnote.mono fun _ _ _ hno => hno.elim).trans hgrows, hown⟩
  | @cons name names t t' _ ih =>
    have hone := grows_declare h hs name
    obtain ⟨hgrows, hown⟩ := ih hone.rooted (hone.ext.size_le hs)
    refine ⟨(hone.mono fun s' b _ hb => ⟨hb.1, hb.2 ▸ List.mem_cons_self⟩).trans
      (hgrows.mono fun s' b _ hb => ⟨hb.1, List.mem_cons_of_mem _ hb.2⟩), fun m hm => ?_⟩
    · obtain rfl | hm := List.mem_cons.mp hm
      · have hnow : ((t.declare s m).2.scope s).own? m = some (t.declare s m).1 := by
          rw [own?_declare hs, if_pos ⟨rfl, rfl⟩]
        rw [hgrows.own s m _ hnow]
        rfl
      · exact hown m hm

/-- A parameter is a name that is declared, with a note. -/
theorem declared_parameters (t : ScopeTable) (s : ScopeId) (params : List Identifier) :
    Declared s (params.map Identifier.name) t (t.parameters s params).2 ∧
      (t.parameters s params).1.toList.map Identifier.name = params.map Identifier.name := by
  have hfold : ∀ (params : List Identifier) (done : Array Identifier) (t : ScopeTable),
      let r := params.foldl
        (fun (acc : Array Identifier × ScopeTable) x =>
          (acc.1.push { x with var := some (acc.2.declareParameter s x.name).1 },
            (acc.2.declareParameter s x.name).2)) (done, t)
      Declared s (params.map Identifier.name) t r.2 ∧
        r.1.toList.map Identifier.name = done.toList.map Identifier.name ++ params.map Identifier.name := by
    intro params
    induction params with
    | nil => exact fun done t => ⟨.nil t, (List.append_nil _).symm⟩
    | cons x params ih =>
      intro done t
      obtain ⟨hdeclared, hnames⟩ := ih (done.push { x with var := some (t.declareParameter s x.name).1 })
        (t.declareParameter s x.name).2
      refine ⟨.cons (.note (.modifyVar _ _ (fun r => { r with isParameter := true }) fun _ => rfl) hdeclared),
        hnames.trans ?_⟩
      rw [Array.toList_push, List.map_append, List.append_assoc]
      rfl
  exact hfold params #[] t

/-- **Parameters are declared.** -/
theorem grows_parameters {s : ScopeId} (params : List Identifier) (h : t.Rooted)
    (hs : s.index < t.scopes.size) :
    t.Grows (fun s' b => s' = s ∧ b ∈ (params.map Identifier.name).map .declared) (t.parameters s params).2 ∧
      (∀ m ∈ params.map Identifier.name, (((t.parameters s params).2.scope s).own? m).isSome = true) ∧
      (t.parameters s params).1.toList.map Identifier.name = params.map Identifier.name := by
  obtain ⟨hdeclared, hnames⟩ := declared_parameters t s params
  obtain ⟨hgrows, hown⟩ := hdeclared.grows h hs
  exact ⟨hgrows, hown, hnames⟩

/-- **Scopes are marked.** -/
theorem grows_markDynamic (h : t.Rooted) {s : ScopeId} (hs : s.index < t.scopes.size)
    {N : ScopeId → BoundName → Prop} : t.Grows N (t.markDynamic s) := by
  refine .of_own_eq (h.markDynamic hs) (leads_markDynamic h.valid s).ext
    (fun id hd => (h.isDynamic_markDynamic hs id).mpr (.inl hd)) (fun id m => ?_)
    fun i V hV => ⟨V, ?_, rfl, rfl, rfl⟩
  · exact view_markDynamic (fun S => S.own? m) (fun _ => rfl) s id
  · rwa [markDynamic, vars_foldl_modifyScope] at hV

/-- **A scope is added.** -/
theorem grows_pushScope (h : t.Rooted) {parent : ScopeId} (hp : parent.index < t.scopes.size)
    (label : String) {N : ScopeId → BoundName → Prop} : t.Grows N (t.pushScope parent label).2 := by
  refine .of_own_eq (h.pushScope hp label) (leads_pushScope h.valid hp label).ext (fun id hd => ?_)
    (own?_pushScope parent label) fun i V hV => ⟨V, hV, rfl, rfl, rfl⟩
  rw [scope_pushScope]
  split
  · next hid =>
    rw [scope, Array.getElem?_eq_none (Nat.le_of_eq hid.symm)] at hd
    cases hd
  · exact hd

/-- **A name is resolved**: if nobody declares it, it becomes a deletable global. -/
theorem grows_resolve (h : t.Rooted) {s : ScopeId} (hs : s.index < t.scopes.size) (name : String)
    {N : ScopeId → BoundName → Prop} : t.Grows N (t.resolve s name).2 := by
  rw [resolve]
  split
  · next hnone =>
    refine grows_insert h h.size (fun _ => rfl) ?_ (.inr ⟨rfl, rfl, rfl⟩)
    exact List.findSome?_eq_none_iff.mp hnone .global (h.global_mem_chain hs)
  · next v hsome =>
    have hleads := (leads_resolve h.valid h.size s name).1
    rw [resolve, hsome] at hleads
    simp only at hleads ⊢
    split
    · exact .refl h
    · next hother =>
      rw [if_neg hother] at hleads
      have hsame : ∀ {α : Type} (view : Scope → α) (_ : ∀ S captures, view { S with captures } = view S)
          (id : ScopeId), view ((t.capture v ((t.chain s).takeWhile (· != (t.var v).scope))).scope id) =
            view (t.scope id) := fun view hview id =>
        view_foldl_modifyScope view (fun S => hview S _) _ id
      refine .of_own_eq (h.of_same hleads.valid (size_foldl_modifyScope ..)
        (hsame Scope.parent fun _ _ => rfl) (hsame Scope.isDynamic fun _ _ => rfl)) hleads.ext
        (fun id hd => (hsame Scope.isDynamic (fun _ _ => rfl) id).trans hd)
        (fun id m => hsame (fun S => S.own? m) (fun _ _ => rfl) id) fun i V hV => ?_
      rw [modifyVar_getElem?, capture_vars] at hV
      split at hV
      · obtain ⟨V₀, hV₀, rfl⟩ := Option.map_eq_some_iff.mp hV
        exact ⟨V₀, hV₀, rfl, rfl, rfl⟩
      · exact ⟨V, hV, rfl, rfl, rfl⟩

/-- What is known of a handler, for which a binding is open: the table with the binding, and the one behind the
handler, in which the binding is closed again. -/
structure Catches (t : ScopeTable) (s : ScopeId) (name : String) (N : ScopeId → BoundName → Prop)
    (t₂ : ScopeTable) : Prop where
  /-- The binding is opened. -/
  opens : t.Leads (t.openBinding s name).2
  /-- The table with the binding is in order. -/
  rooted : (t.openBinding s name).2.Rooted
  /-- The scope is still there. -/
  inside : s.index < (t.openBinding s name).2.scopes.size
  /-- The handler adds to that table. -/
  grows : (t.openBinding s name).2.Grows N t₂
  /-- The binding is closed. -/
  closes : t₂.Leads (t₂.closeBinding s name (t.openBinding s name).1.2)

/-- **A binding is opened for a handler** and closed behind it. -/
theorem catches {N : ScopeId → BoundName → Prop} {t₂ : ScopeTable} {s : ScopeId} {name : String}
    (h : t.Rooted) (hs : s.index < t.scopes.size)
    (hgrows : (t.openBinding s name).2.Rooted → s.index < (t.openBinding s name).2.scopes.size →
      (t.openBinding s name).2.Grows N t₂) : t.Catches s name N t₂ := by
  obtain ⟨hopen, -, hshadowed⟩ := leads_openBinding h.valid hs name
  have hrooted : (t.openBinding s name).2.Rooted := h.insert hs nofun
  have hinside := hopen.ext.size_le hs
  have hgrows := hgrows hrooted hinside
  exact ⟨hopen, hrooted, hinside, hgrows,
    leads_closeBinding hgrows.rooted.valid fun v hv => ((hshadowed v hv).mono hopen.ext).mono hgrows.ext⟩

/-- **A handler**: its binding is opened before and closed behind it. -/
theorem Grows.binding {N : ScopeId → BoundName → Prop} {t₂ : ScopeTable} {s : ScopeId} {name : String}
    (h : t.Rooted) (hs : s.index < t.scopes.size) (hgrows : (t.openBinding s name).2.Grows N t₂)
    (hnew : N s (.caught name)) :
    t.Grows N (t₂.closeBinding s name (t.openBinding s name).1.2) := by
  obtain ⟨hopen, -, hinside, hgrows, hleads⟩ := catches h hs fun _ _ => hgrows
  have hs₂ : s.index < t₂.scopes.size := hgrows.ext.size_le hinside
  -- The binding changes what its name stands for in its scope, and nothing else.
  have hown₁ : ∀ id m, ¬ (id = s ∧ m = name) →
      ((t.openBinding s name).2.scope id).own? m = (t.scope id).own? m := fun id m hne => by
    rw [openBinding, own?_insert hs, if_neg hne]
  refine ⟨hgrows.rooted.of_same hleads.valid (Array.size_modify ..)
    (view_closeBinding Scope.parent (fun _ _ => rfl) s name _)
    (view_closeBinding Scope.isDynamic (fun _ _ => rfl) s name _), (hopen.ext.trans hgrows.ext).trans hleads.ext,
    fun i V V' hV hV' => ?_, fun id hd => ?_, fun id m v hv => ?_, fun id m v hv => ?_,
    fun id m hid hcaught hsole i V hV hscope hname => ?_⟩
  · exact hgrows.deletable i V V' (insert_vars hV) hV'
  · rw [view_closeBinding Scope.isDynamic fun _ _ => rfl]
    refine hgrows.dynamic id ?_
    rw [openBinding, view_insert Scope.isDynamic fun _ _ _ => rfl]
    exact hd
  · rw [own?_closeBinding hs₂]
    split
    · next hself =>
      rw [hself.1, hself.2] at hv
      exact hv
    · next hne => exact hgrows.own id m v ((hown₁ id m hne).trans hv)
  · rw [own?_closeBinding hs₂] at hv
    split at hv
    · next hself =>
      rw [hself.1, hself.2]
      exact .inl hv
    · next hne =>
      obtain hv | ⟨hle, hwhy⟩ := hgrows.fresh id m v hv
      · exact .inl ((hown₁ id m hne).symm.trans hv)
      · refine .inr ⟨Nat.le_trans hopen.ext.vars_le hle, ?_⟩
        rw [show (t.openBinding s name).2.scopes.size = t.scopes.size from Array.size_modify ..] at hwhy
        exact hwhy
  · have hne : ¬ (id = s ∧ m = name) := by
      rintro ⟨rfl, rfl⟩
      exact hcaught hnew
    have hsole₁ : (t.openBinding s name).2.Sole id m := by
      intro j W hW hWscope hWname
      rw [hown₁ id m hne]
      obtain ⟨-, rfl⟩ | hW := insert_cases hW
      · exact absurd ⟨hWscope.symm, hWname.symm⟩ hne
      · exact hsole j W hW hWscope hWname
    rw [own?_closeBinding hs₂, if_neg hne]
    exact hgrows.sole id m (hopen.ext.size_le hid) hcaught hsole₁ i V hV hscope hname

end

end ScopeTable

/-! ## Walks -/

/-- **A function is entered**: its scope is new, and nothing is bound in it. -/
theorem ScopeTable.enter_spec {c : Place} {t : ScopeTable} (h : t.Rooted)
    (hc : c.scope.index < t.scopes.size) (label : String) {s : ScopeId} (hs : s = ⟨t.scopes.size⟩) :
    t.Grows (fun _ _ => False) (t.enter c label) ∧ s.index < (t.enter c label).scopes.size ∧
      ((t.enter c label).scope s).parent = some c.scope ∧
      (∀ m, ((t.enter c label).scope s).own? m = none) ∧ (t.enter c label).vars = t.vars ∧
      (0 < c.depth → ((t.enter c label).scope s).isDynamic = true) := by
  have hpush := grows_pushScope h hc label (N := fun _ _ => False)
  have hinside : s.index < (t.pushScope c.scope label).2.scopes.size := by
    rw [hs, pushScope, Array.size_push]
    exact Nat.lt_succ_self _
  have hscope : (t.pushScope c.scope label).2.scope s = { parent := some c.scope, name := label } := by
    rw [scope_pushScope, hs, if_pos rfl]
  have hmark := grows_markDynamic hpush.rooted hinside (N := fun _ _ => False)
  rw [enter]
  split
  · rw [← hs]
    refine ⟨hpush.trans hmark, hmark.ext.size_le hinside, ?_, fun m => ?_, vars_foldl_modifyScope ..,
      fun _ => ?_⟩
    · rw [view_markDynamic Scope.parent fun _ => rfl, hscope]
    · rw [view_markDynamic (fun S => S.own? m) fun _ => rfl, hscope]
      simp [Scope.own?]
    · rw [hpush.rooted.isDynamic_markDynamic hinside]
      exact .inr (hpush.rooted.self_mem_chain hinside)
  · next hdepth =>
    refine ⟨hpush, hinside, by rw [hscope], fun m => ?_, rfl, fun hpos => absurd hpos hdepth⟩
    rw [hscope]
    simp [Scope.own?]

/-- What the start of a function does: there is a new scope, in which exactly the parameters and the names
of the body are bound, each to one variable. -/
structure FunctionStart (c : Place) (t t' : ScopeTable) (s : ScopeId) (names : List String) : Prop where
  /-- Nothing happens in the scopes that are there. -/
  grows : t.Grows (fun _ _ => False) t'
  /-- The scope is new. -/
  new : t.scopes.size ≤ s.index
  /-- The scope is there. -/
  inside : s.index < t'.scopes.size
  /-- It lies in the scope of the place. -/
  parent : (t'.scope s).parent = some c.scope
  /-- The names are bound in it, and no others. -/
  bound : ∀ m, ((t'.scope s).own? m).isSome = true ↔ m ∈ names
  /-- None of them has a second variable. -/
  sole : ∀ m, t'.Sole s m
  /-- In a `with` body names are looked up at run time. -/
  dynamic : 0 < c.depth → (t'.scope s).isDynamic = true

/-- **A function starts** by declaring its parameters and the names of its body. -/
theorem ScopeTable.starts {c : Place} {t t₂ t₃ : ScopeTable} {label : String} {s : ScopeId}
    {params : List Identifier} {params' : Array Identifier} {names : List String} (h : t.Rooted)
    (hc : c.scope.index < t.scopes.size) (hs : s = ⟨t.scopes.size⟩)
    (hparams : (t.enter c label).parameters s params = (params', t₂)) (hinner : Declared s names t₂ t₃) :
    FunctionStart c t t₃ s (params.map Identifier.name ++ names) ∧
      params'.toList.map Identifier.name = params.map Identifier.name := by
  obtain ⟨henter, hinside, hparent, hnone, hvars, hdynamic⟩ := enter_spec h hc label hs
  obtain ⟨hgrows₂, hown₂, hnames⟩ := grows_parameters params henter.rooted hinside
  rw [hparams] at hgrows₂ hown₂ hnames
  obtain ⟨hgrows₃, hown₃⟩ := hinner.grows hgrows₂.rooted (hgrows₂.ext.size_le hinside)
  have hgrows : (t.enter c label).Grows
      (fun id b => id = s ∧ b ∈ (params.map Identifier.name ++ names).map .declared) t₃ := by
    rw [List.map_append]
    exact (hgrows₂.mono fun id b _ hb => ⟨hb.1, List.mem_append_left _ hb.2⟩).trans
      (hgrows₃.mono fun id b _ hb => ⟨hb.1, List.mem_append_right _ hb.2⟩)
  have hpos := h.size
  have hnew : t.scopes.size ≤ s.index := hs ▸ Nat.le_refl _
  refine ⟨⟨?_, hnew, hgrows.ext.size_le hinside, ?_, fun m => ⟨fun hm => ?_, fun hm => ?_⟩,
    fun m => ?_, fun hdepth => hgrows.dynamic s (hdynamic hdepth)⟩, hnames⟩
  · have hall := (henter.mono fun _ _ _ hno => hno.elim).trans (hgrows.mono fun id b _ hb => hb.1)
    exact hall.mono fun id b hid heq => absurd (heq ▸ hid) (Nat.not_lt.mpr hnew)
  · obtain ⟨S', hS', hsame⟩ := hgrows.ext.scopes s.index _ (Array.getElem?_eq_getElem hinside)
    rw [scope, hS', ← hparent, scope, Array.getElem?_eq_getElem hinside]
    exact hsame
  · obtain ⟨v, hv⟩ := Option.isSome_iff_exists.mp hm
    obtain hv | ⟨-, hdeclared | ⟨hglobal, -⟩ | hle⟩ := hgrows.fresh s m v hv
    · rw [hnone] at hv
      cases hv
    · obtain ⟨m', hm', heq⟩ := List.mem_map.mp hdeclared.2
      cases heq
      exact hm'
    · rw [hglobal] at hnew
      exact absurd hpos (Nat.not_lt.mpr hnew)
    · omega
  · obtain hm | hm := List.mem_append.mp hm
    · obtain ⟨v, hv⟩ := Option.isSome_iff_exists.mp (hown₂ m hm)
      rw [hgrows₃.own s m v hv]
      rfl
    · exact hown₃ m hm
  · refine hgrows.sole s m hinside (fun hcaught => ?_) fun i V hV hscope _ => ?_
    · obtain ⟨m', -, heq⟩ := List.mem_map.mp hcaught.2
      cases heq
    · rw [hvars] at hV
      obtain ⟨S, hS, -⟩ := h.valid.listed i V hV
      obtain ⟨hlt, -⟩ := Array.getElem?_eq_some_iff.mp hS
      rw [hscope, hs] at hlt
      exact absurd hlt (Nat.lt_irrefl _)

/-- **Walks make tables grow.** In the scopes that are there, nodes bind what they bind in their own. -/
theorem Analyzes.grows {c : Place} {t t' : ScopeTable} {ns ns' : List Node}
    (h : Analyzes c t ns t' ns') (ht : t.Rooted) (hc : c.scope.index < t.scopes.size) :
    t.Grows (fun s b => s = c.scope ∧ b ∈ bindingsAll ns) t' := by
  induction h with
  | nil c t => exact .refl ht
  | cons _ _ ih ih' =>
    have hfirst := ih ht hc
    have hrest := ih' hfirst.rooted (hfirst.ext.size_le hc)
    simp only [bindingsAll, List.append_nil] at hfirst
    exact (hfirst.subset (List.subset_append_left ..)).trans (hrest.subset (List.subset_append_right ..))
  | neutral i hn hlength _ hhints ih =>
    have hparts := ih ht hc
    rw [bindingsAll, bindingsAll, List.append_nil, Node.bindings_of_neutral hn]
    exact hparts.trans (hhints.grows hparts.rooted)
  | @folded c t t₁ t₂ n ps i l hn _ hps hhints ih =>
    have hneutral : n.isNeutral = true := by
      obtain ⟨i, op, lhs, rhs, rfl⟩ | ⟨i, op, x, rfl⟩ := hn <;> rfl
    have hparts := ih ht hc
    rw [bindingsAll, bindingsAll, List.append_nil, Node.bindings_of_neutral hneutral]
    exact hparts.trans (hhints.grows hparts.rooted)
  | lowered => exact .refl ht
  | definition t i i' hx =>
    refine (ScopeTable.grows_declare ht hc _).mono fun s b _ hb => ⟨hb.1, ?_⟩
    simp [bindingsAll, Node.bindings, hx, hb.2]
  | reference t i i' hx => exact ScopeTable.grows_resolve ht hc _
  | @var c t t₁ t₂ i i' x init init' _ _ hhints ih =>
    have hdeclare := ScopeTable.grows_declare ht hc x.name
    have hinit := ih hdeclare.rooted (hdeclare.ext.size_le hc)
    rw [bindingsAll, bindingsAll, List.append_nil, Node.bindings, bindings?_eq]
    refine .trans ?_ ((hinit.subset (List.subset_cons_self ..)).trans (hhints.grows hinit.rooted))
    exact hdeclare.mono fun s b _ hb => ⟨hb.1, hb.2 ▸ List.mem_cons_self⟩
  | @function c t t₁ t₂ t₃ t₄ t₅ i i' name name' params params' body body' isDeclaration scope label s
      _ houter hs hparams hinner _ _ hhints ih =>
    obtain ⟨hdeclared, -⟩ := houter.grows ht hc
    obtain ⟨hstarts, -⟩ := ScopeTable.starts hdeclared.rooted (hdeclared.ext.size_le hc) hs hparams hinner
    have hbody := ih hstarts.grows.rooted hstarts.inside
    -- What the body binds is bound in the new scope.
    have hinside : t₁.Grows (fun id _ => id = s) t₅ :=
      (hstarts.grows.of_none.trans (hbody.mono fun id b _ hb => hb.1)).trans (hhints.grows hbody.rooted)
    rw [bindingsAll, bindingsAll, List.append_nil, Node.bindings]
    exact hdeclared.trans
      (hinside.mono fun id b hid heq => absurd (heq ▸ hid) (Nat.not_lt.mpr hstarts.new))
  | withObject i i' _ _ iho ihb =>
    have hobject := iho ht hc
    have hmark := ScopeTable.grows_markDynamic hobject.rooted (hobject.ext.size_le hc)
      (N := fun _ _ => False)
    have hbody := ihb hmark.rooted (hmark.ext.size_le (hobject.ext.size_le hc))
    simp only [bindingsAll, Node.bindings, List.append_nil] at hobject hbody ⊢
    exact (hobject.subset (List.subset_append_left ..)).trans
      (hmark.of_none.trans (hbody.subset (List.subset_append_right ..)))
  | @tryCatch c t t₁ t₂ i i' guarded guarded' handler handler' x _ _ _ ihb ihh =>
    have hblock := ihb ht hc
    have hc₁ := hblock.ext.size_le hc
    have hhandler := (ScopeTable.catches hblock.rooted hc₁ ihh).grows
    simp only [bindingsAll, Node.bindings, List.append_nil] at hblock hhandler ⊢
    refine (hblock.subset (List.subset_append_left ..)).trans
      (.binding hblock.rooted hc₁ (hhandler.subset ?_) ⟨rfl, ?_⟩)
    · exact List.Subset.trans (List.subset_append_right ..) (List.subset_append_right ..)
    · simp

/-- **A handler** is analyzed while its binding is open. -/
theorem Analyzes.catches {c : Place} {t t' : ScopeTable} {name : String} {handler handler' : Node}
    (h : Analyzes c (t.openBinding c.scope name).2 [handler] t' [handler']) (ht : t.Rooted)
    (hc : c.scope.index < t.scopes.size) :
    t.Catches c.scope name (fun s b => s = c.scope ∧ b ∈ bindingsAll [handler]) t' :=
  ScopeTable.catches ht hc h.grows

end ScriptEngine
