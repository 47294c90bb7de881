import Mathlib.Data.List.Dedup
import Mathlib.Data.List.Nodup
import ScriptEngine.Proofs.Scope.Growth

/-!
# Lexical scoping

What a name stands for according to the tree alone, and that analysis finds just that.

* A `Level` is what one function binds as seen from a place in it: the parameters of the handlers around
  the place, and the names that are bound in the whole function. From a place one sees a list of levels, from
  the inside out.
* `Node.sites` lists the places of a tree that matter, each with the levels that are seen from it.
* `Analyzes.lexical` says what holds at every site. It needs no more of a program than that analysis
  succeeds; a name may then also stand for what a function binds by a statement in an odd position.
-/

namespace ScriptEngine

/-! ## Levels -/

/-- What a function binds, as seen from a place in it. -/
structure Level where
  /-- The scope of the function. -/
  scope : ScopeId
  /-- The parameters of the handlers around the place, the innermost first. -/
  caught : List Identifier
  /-- The names that are bound in the whole function. -/
  names : List String

namespace Level

/-- The parameter of the innermost handler around the place that catches under the name. -/
def caught? (L : Level) (m : String) : Option Identifier := L.caught.find? fun x => x.name == m

/-- The level inside a handler. -/
def catching (L : Level) (x : Identifier) : Level := { L with caught := x :: L.caught }

/-- The level of a function. -/
def ofFunction (name : Option Identifier) (params : List Identifier) (body : List Node)
    (isDeclaration : Bool) (scope : Option ScopeId) : Level where
  scope := scope.getD .global
  caught := []
  names := params.map Identifier.name ++ innerNames name body isDeclaration

/-- The level of a program. -/
def ofProgram (body : List Node) : Level where
  scope := .global
  caught := []
  names := (hoistedNames body).toList

end Level

/-- A place of a tree, with the levels that are seen from it. -/
inductive Site where
  /-- A name that is used. -/
  | use (levels : List Level) (x : Identifier)
  /-- A handler that binds what it catches. -/
  | handler (levels : List Level) (x : Identifier)
  /-- A function, the level of its body, and whether a `with` body is around it. -/
  | function (levels : List Level) (own : Level) (isLowered : Bool) (body : List Node)
  /-- The body of a `with` statement. -/
  | object (levels : List Level)

mutual

/-- The sites of a node that is seen from levels and may have a `with` body around it. -/
def Node.sites (Γ : List Level) (isLowered : Bool) : Node → List Site
  | .identifier _ x => if x.isDefinition then [] else [.use Γ x]
  | .call _ target args => target.sites Γ isLowered ++ sitesAll Γ isLowered args
  | .member _ target _ => target.sites Γ isLowered
  | .binary _ _ lhs rhs => lhs.sites Γ isLowered ++ rhs.sites Γ isLowered
  | .unary _ _ operand => operand.sites Γ isLowered
  | .assign _ target value => target.sites Γ isLowered ++ value.sites Γ isLowered
  | .function _ name params body isDeclaration scope =>
    let own := Level.ofFunction name params body isDeclaration scope
    .function Γ own isLowered body :: sitesAll (own :: Γ) isLowered body
  | .object _ properties => sitesOfProperties Γ isLowered properties
  | .delete _ target => target.sites Γ isLowered
  | .var _ _ init => sites? Γ isLowered init
  | .ret _ value => sites? Γ isLowered value
  | .cond _ condition thenBranch elseBranch =>
    condition.sites Γ isLowered ++ (thenBranch.sites Γ isLowered ++ sites? Γ isLowered elseBranch)
  | .loop _ condition body => condition.sites Γ isLowered ++ body.sites Γ isLowered
  | .block _ statements => sitesAll Γ isLowered statements
  | .withObject _ object body => object.sites Γ isLowered ++ .object Γ :: body.sites Γ true
  | .throw _ value => value.sites Γ isLowered
  | .tryCatch _ guarded none handler => guarded.sites Γ isLowered ++ handler.sites Γ isLowered
  | .tryCatch _ guarded (some x) handler =>
    guarded.sites Γ isLowered ++ .handler Γ x :: handler.sites (Γ.modifyHead (·.catching x)) isLowered
  | .literal .. | .dynamic .. | .this _ => []

/-- The sites of nodes. -/
def sitesAll (Γ : List Level) (isLowered : Bool) : List Node → List Site
  | [] => []
  | n :: rest => n.sites Γ isLowered ++ sitesAll Γ isLowered rest

/-- The sites of a node that may be missing. -/
def sites? (Γ : List Level) (isLowered : Bool) : Option Node → List Site
  | none => []
  | some n => n.sites Γ isLowered

/-- The sites of the values of properties. -/
def sitesOfProperties (Γ : List Level) (isLowered : Bool) : List (String × Node) → List Site
  | [] => []
  | (_, value) :: rest => value.sites Γ isLowered ++ sitesOfProperties Γ isLowered rest

end

section

variable (Γ : List Level) (isLowered : Bool)

/-- The sites of one node. -/
theorem sitesAll_singleton (n : Node) : sitesAll Γ isLowered [n] = n.sites Γ isLowered := by
  rw [sitesAll, sitesAll, List.append_nil]

/-- The sites of a node that may be missing. -/
theorem sites?_eq (n : Option Node) : sites? Γ isLowered n = sitesAll Γ isLowered n.toList := by
  cases n with
  | none => rfl
  | some n => exact (sitesAll_singleton Γ isLowered n).symm

/-- The sites of the values of properties. -/
theorem sitesOfProperties_eq (ps : List (String × Node)) :
    sitesOfProperties Γ isLowered ps = sitesAll Γ isLowered (ps.map Prod.snd) := by
  induction ps with
  | nil => rfl
  | cons p ps ih => rw [sitesOfProperties, ih, List.map_cons, sitesAll]

/-- **The sites of a neutral node** are those of its parts. -/
theorem Node.sites_of_neutral {n : Node} (hn : n.isNeutral = true) :
    n.sites Γ isLowered = sitesAll Γ isLowered n.parts := by
  cases n with
  | identifier | function | var | withObject => cases hn
  | object i ps => exact sitesOfProperties_eq Γ isLowered ps
  | ret i value => exact sites?_eq Γ isLowered value
  | cond i condition thenBranch elseBranch => rw [sites, sites?_eq]; rfl
  | tryCatch i guarded param handler =>
    cases param with
    | some x => cases hn
    | none => simp [sites, parts, sitesAll]
  | _ => simp [sites, parts, sitesAll]

end

/-! ## Hoisted names -/

/-- Nodes that bind the same names in the function around them. -/
def SameHoisted (n n' : Node) : Prop := ∀ names, n'.hoistedNames names = n.hoistedNames names

/-- Bodies that bind the same names. -/
theorem hoistedNamesOf_eq {ns ns' : List Node} (h : List.Forall₂ SameHoisted ns ns') (names : Array String) :
    hoistedNamesOf names ns' = hoistedNamesOf names ns := by
  induction h generalizing names with
  | nil => rfl
  | cons hn _ ih => rw [hoistedNamesOf, hoistedNamesOf, hn, ih]

/-- A neutral node hoists the same names if its parts do. -/
theorem SameHoisted.rebuild {n : Node} {ps : List Node} (i : Info) (hn : n.isNeutral = true)
    (h : List.Forall₂ SameHoisted n.parts ps) : SameHoisted n (n.rebuild i ps) := by
  intro names
  cases n with
  | identifier | function | var | withObject => cases hn
  | literal | dynamic | this | object | ret => rfl
  | call j target args =>
    rcases h with _ | ⟨_, _⟩
    rfl
  | member | unary | delete | throw =>
    rcases h with _ | ⟨_, _ | _⟩
    rfl
  | binary | assign =>
    rcases h with _ | ⟨_, _ | ⟨_, _ | _⟩⟩
    rfl
  | block j statements => exact hoistedNamesOf_eq h names
  | loop j condition body =>
    rcases h with _ | ⟨_, _ | ⟨hbody, _ | _⟩⟩
    exact hbody names
  | cond j condition thenBranch elseBranch =>
    rcases h with _ | ⟨_, _ | ⟨hthen, helse⟩⟩
    simp only [Node.rebuild, Node.hoistedNames, hthen names]
    cases elseBranch with
    | none =>
      cases helse
      rfl
    | some n =>
      rcases helse with _ | ⟨helse, _ | _⟩
      exact helse _
  | tryCatch j guarded param handler =>
    cases param with
    | some x => cases hn
    | none =>
      rcases h with _ | ⟨hguarded, _ | ⟨hhandler, _ | _⟩⟩
      rw [Node.rebuild, Node.hoistedNames, hguarded names, hhandler, Node.hoistedNames]

/-- **Analysis leaves hoisted names** as they are. -/
theorem Analyzes.sameHoisted {c : Place} {t t' : ScopeTable} {ns ns' : List Node}
    (h : Analyzes c t ns t' ns') : List.Forall₂ SameHoisted ns ns' := by
  induction h with
  | nil => exact .nil
  | cons _ _ ih ih' =>
    rcases ih with _ | ⟨hn, _⟩
    exact .cons hn ih'
  | neutral i hn hlength _ _ ih => exact .cons (.rebuild i hn ih) .nil
  | folded i l hn =>
    refine .cons (fun names => ?_) .nil
    obtain ⟨i, op, lhs, rhs, rfl⟩ | ⟨i, op, x, rfl⟩ := hn <;> rfl
  | lowered | definition | reference | var | withObject => exact .cons (fun names => rfl) .nil
  | @function c t t₁ t₂ t₃ t₄ t₅ i i' name name' _ _ _ _ isDeclaration _ _ _ _ _ _ _ _ hname =>
    refine .cons (fun names => ?_) .nil
    have hname := hname.same
    cases isDeclaration with
    | false => cases name <;> cases name' <;> rfl
    | true =>
      cases name <;> cases name' <;> simp_all [Node.hoistedNames]
  | tryCatch i i' _ _ _ ihb ihh =>
    rcases ihb with _ | ⟨hb, _⟩
    rcases ihh with _ | ⟨hh, _⟩
    refine .cons (fun names => ?_) .nil
    rw [Node.hoistedNames, hb names, hh, Node.hoistedNames]

/-- The level of a function is the same before and after analysis. -/
theorem Analyzes.names_eq {c : Place} {t t' : ScopeTable} {body body' : List Node}
    (h : Analyzes c t body t' body') {name name' : Option Identifier} {params params' : List Identifier}
    (hname : name'.map Identifier.name = name.map Identifier.name)
    (hparams : params'.map Identifier.name = params.map Identifier.name) (isDeclaration : Bool)
    (s : ScopeId) : Level.ofFunction name' params' body' isDeclaration (some s) =
      ⟨s, [], params.map Identifier.name ++ innerNames name body isDeclaration⟩ := by
  rw [Level.ofFunction, innerNames, hparams, hname, hoistedNames, hoistedNamesOf_eq h.sameHoisted]
  rfl

/-! ## `with` statements -/

/-- Whether a site is the body of a `with` statement. -/
def Site.isObject : Site → Bool
  | .object _ => true
  | _ => false

/-- Whether a `with` statement stands in the nodes, or in a function inside them. -/
def hasWith (ns : List Node) : Bool := (sitesAll [] false ns).any Site.isObject

/-- **A scope with a `with` statement** in it, or in a function inside it, is marked. -/
theorem Analyzes.dynamic {c : Place} {t t' : ScopeTable} {ns ns' : List Node} (h : Analyzes c t ns t' ns')
    (ht : t.Rooted) (hc : c.scope.index < t.scopes.size) {Γ : List Level} {isLowered : Bool}
    (hwith : (sitesAll Γ isLowered ns').any Site.isObject = true) : (t'.scope c.scope).isDynamic = true := by
  induction h generalizing Γ isLowered with
  | nil | folded | lowered => cases hwith
  | cons hfirst hrest ih ih' =>
    have hgrows := hfirst.grows ht hc
    have hc₁ := hgrows.ext.size_le hc
    rw [sitesAll, List.any_append, Bool.or_eq_true] at hwith
    obtain hwith | hwith := hwith
    · exact (hrest.grows hgrows.rooted hc₁).dynamic _ (ih ht hc (by rwa [sitesAll_singleton]))
    · exact ih' hgrows.rooted hc₁ hwith
  | neutral i hn hlength hparts hhints ih =>
    obtain ⟨hrebuilt, hneutral⟩ := Node.parts_rebuild i hn hlength
    rw [sitesAll_singleton, Node.sites_of_neutral Γ isLowered hneutral, hrebuilt] at hwith
    exact (hhints.grows (hparts.grows ht hc).rooted (N := fun _ _ => False)).dynamic _ (ih ht hc hwith)
  | definition t i i' hx =>
    rw [sitesAll_singleton, Node.sites, if_pos hx] at hwith
    cases hwith
  | reference t i i' hx =>
    rw [sitesAll_singleton, Node.sites, if_neg (by simp [hx])] at hwith
    cases hwith
  | @var c t t₁ t₂ i i' x init init' _ hinit hhints ih =>
    have hdeclare := ScopeTable.grows_declare ht hc x.name
    have hc₀ := hdeclare.ext.size_le hc
    rw [sitesAll_singleton, Node.sites, sites?_eq] at hwith
    exact (hhints.grows (hinit.grows hdeclare.rooted hc₀).rooted (N := fun _ _ => False)).dynamic _
      (ih hdeclare.rooted hc₀ hwith)
  | function i i' label _ houter hs hparams hinner _ hbody hhints ih =>
    obtain ⟨hstart, -⟩ := ScopeTable.starts (houter.grows ht hc).1.rooted
      ((houter.grows ht hc).1.ext.size_le hc) hs hparams hinner
    have hgrows := hbody.grows hstart.grows.rooted hstart.inside
    have hinside := hgrows.ext.size_le hstart.inside
    rw [sitesAll_singleton, Node.sites] at hwith
    -- The scope of the function is marked, and so are those around it.
    refine (hhints.grows hgrows.rooted (N := fun _ _ => False)).dynamic _ ?_
    refine hgrows.rooted.dynamic_chain hinside (ih hstart.grows.rooted hstart.inside hwith) ?_
    rw [hgrows.ext.chain_eq hstart.grows.rooted hgrows.rooted hstart.inside]
    exact hstart.grows.rooted.parent_mem_chain hstart.inside
      (hstart.grows.rooted.self_mem_chain hstart.inside) hstart.parent
  | @withObject c t t₁ t₂ i i' _ _ _ _ hobject hbody =>
    have hgrows := hobject.grows ht hc
    have hc₁ := hgrows.ext.size_le hc
    have hmark := ScopeTable.grows_markDynamic hgrows.rooted hc₁ (N := fun _ _ => False)
    refine (hbody.grows hmark.rooted (hmark.ext.size_le hc₁)).dynamic c.scope ?_
    exact (hgrows.rooted.isDynamic_markDynamic hc₁ _).mpr (.inr (hgrows.rooted.self_mem_chain hc₁))
  | @tryCatch c t t₁ t₂ i i' guarded guarded' handler handler' x _ hguarded hhandler ihb ihh =>
    have hgrows := hguarded.grows ht hc
    have hc₁ := hgrows.ext.size_le hc
    obtain ⟨-, hr₂, hc₂, hgrows₂, -⟩ := hhandler.catches hgrows.rooted hc₁
    rw [ScopeTable.view_closeBinding Scope.isDynamic fun _ _ => rfl]
    rw [sitesAll_singleton, Node.sites, List.any_append, Bool.or_eq_true] at hwith
    obtain hwith | hwith := hwith
    · refine hgrows₂.dynamic _ ?_
      rw [ScopeTable.openBinding, ScopeTable.view_insert Scope.isDynamic fun _ _ _ => rfl]
      exact ihb ht hc (by rwa [sitesAll_singleton])
    · simp only [sitesAll_singleton] at ihh
      exact ihh hr₂ hc₂ hwith

/-! ## What is seen from a place -/

/-- A table agrees with the levels that are seen from a place: their scopes are the chain of scopes, and
their names stand for variables, those of the handlers for what is caught. -/
structure Agrees (Γ : List Level) (c : Place) (t : ScopeTable) : Prop where
  /-- The table is in order. -/
  rooted : t.Rooted
  /-- The scope of the place is there. -/
  inside : c.scope.index < t.scopes.size
  /-- The levels are those of the scopes around. -/
  chain : t.chain c.scope = Γ.map Level.scope
  /-- The names of handlers stand for what is caught. -/
  caught : ∀ L ∈ Γ, ∀ m x, L.caught? m = some x → ∃ v, x.var = some v ∧ (t.scope L.scope).own? m = some v
  /-- The names of functions stand for variables. -/
  names : ∀ L ∈ Γ, ∀ m ∈ L.names, ((t.scope L.scope).own? m).isSome = true
  /-- In a `with` body names are looked up at run time. -/
  dynamic : 0 < c.depth → (t.scope c.scope).isDynamic = true

/-- The table at the end of analysis, as seen from a place on the way: names stand for what they stand for
now, except those of the handlers around, and nothing happens any more to the functions that are
done. -/
structure Final (Γ : List Level) (t T : ScopeTable) : Prop where
  /-- The table at the end is in order. -/
  rooted : T.Rooted
  /-- It extends the one on the way. -/
  ext : t.Extends T
  /-- A name that nobody declares stays one. -/
  implicit : ∀ m v, t.Implicit m v → T.Implicit m v
  /-- Marked scopes stay marked. -/
  dynamic : ∀ s, (t.scope s).isDynamic = true → (T.scope s).isDynamic = true
  /-- Names stand for what they stand for. -/
  kept : ∀ s m v, (∀ L ∈ Γ, L.scope = s → L.caught? m = none) → (t.scope s).own? m = some v →
    (T.scope s).own? m = some v
  /-- In the functions that are done nothing is bound any more. -/
  done : ∀ (s : ScopeId) m v, s.index < t.scopes.size → s ∉ Γ.map Level.scope →
    (T.scope s).own? m = some v → (t.scope s).own? m = some v
  /-- Their names get no second variables. -/
  sole : ∀ (s : ScopeId) m, s.index < t.scopes.size → s ∉ Γ.map Level.scope → t.Sole s m → T.Sole s m

namespace Agrees

variable {Γ : List Level} {c : Place} {t t' : ScopeTable}

/-- The innermost level is that of the place. -/
theorem head (h : Agrees Γ c t) : ∃ L Γ', Γ = L :: Γ' ∧ L.scope = c.scope := by
  have hchain := h.chain
  rw [h.rooted.valid.nested.chain_eq h.inside] at hchain
  cases Γ with
  | nil => cases hchain
  | cons L Γ' => exact ⟨L, Γ', rfl, (List.cons.inj hchain).1.symm⟩

/-- The scope of the place has a level. -/
theorem scope_mem (h : Agrees Γ c t) : c.scope ∈ Γ.map Level.scope :=
  h.chain ▸ h.rooted.self_mem_chain h.inside

/-- The program has a level. -/
theorem global_mem (h : Agrees Γ c t) : ScopeId.global ∈ Γ.map Level.scope :=
  h.chain ▸ h.rooted.global_mem_chain h.inside

/-- A table agrees with what is seen also after it has grown. -/
theorem grows {new : ScopeId → BoundName → Prop} (h : Agrees Γ c t) (hgrows : t.Grows new t') :
    Agrees Γ c t' := by
  refine ⟨hgrows.rooted, hgrows.ext.size_le h.inside, ?_, fun L hL m x hx => ?_, fun L hL m hm => ?_,
    fun hdepth => hgrows.dynamic _ (h.dynamic hdepth)⟩
  · rw [hgrows.ext.chain_eq h.rooted hgrows.rooted h.inside]
    exact h.chain
  · obtain ⟨v, hv, hown⟩ := h.caught L hL m x hx
    exact ⟨v, hv, hgrows.own _ _ _ hown⟩
  · obtain ⟨v, hv⟩ := Option.isSome_iff_exists.mp (h.names L hL m hm)
    rw [hgrows.own _ _ _ hv]
    rfl

/-- In the body of a `with` statement the same is seen. -/
theorem inWith (h : Agrees Γ c t) : Agrees Γ c.inWith (t.markDynamic c.scope) := by
  have hmark := h.grows (ScopeTable.grows_markDynamic h.rooted h.inside (N := fun _ _ => False))
  exact { hmark with
    dynamic := fun _ => (h.rooted.isDynamic_markDynamic h.inside _).mpr
      (.inr (h.rooted.self_mem_chain h.inside)) }

/-- **In a function** one sees what it binds first. -/
theorem inFunction (h : Agrees Γ c t) {s : ScopeId} {names : List String}
    (hstart : FunctionStart c t t' s names) : Agrees (⟨s, [], names⟩ :: Γ) (c.inFunction s) t' := by
  have hgrown := h.grows hstart.grows
  refine ⟨hgrown.rooted, hstart.inside, ?_, fun L hL m x hx => ?_, fun L hL m hm => ?_, hstart.dynamic⟩
  · rw [Place.inFunction, hgrown.rooted.valid.nested.chain_eq hstart.inside, hstart.parent, List.map_cons,
      ← hgrown.chain]
  · obtain rfl | hL := List.mem_cons.mp hL
    · cases hx
    · exact hgrown.caught L hL m x hx
  · obtain rfl | hL := List.mem_cons.mp hL
    · exact (hstart.bound m).mpr hm
    · exact hgrown.names L hL m hm

/-- Different levels have different scopes. -/
theorem nodup (h : Agrees Γ c t) : (Γ.map Level.scope).Nodup :=
  h.chain ▸ h.rooted.nodup_chain h.inside

/-- **In a handler** one sees what is caught first. -/
theorem catching (h : Agrees Γ c t) {x : Identifier}
    (hx : x.var = some (t.openBinding c.scope x.name).1.1) :
    Agrees (Γ.modifyHead (·.catching x)) c (t.openBinding c.scope x.name).2 := by
  obtain ⟨L, Γ', rfl, hscope⟩ := h.head
  have hr := h.rooted.insert (V := { name := x.name, scope := c.scope, storage := .frame }) h.inside nofun
  have hext := (ScopeTable.leads_openBinding h.rooted.valid h.inside x.name).1.ext
  have hown : ∀ s m, ((t.openBinding c.scope x.name).2.scope s).own? m =
      if s = c.scope ∧ m = x.name then some (t.openBinding c.scope x.name).1.1
      else (t.scope s).own? m := ScopeTable.own?_insert h.inside
  refine ⟨hr, hext.size_le h.inside, ?_, fun L' hL' m y hy => ?_, fun L' hL' m hm => ?_, fun hdepth => ?_⟩
  · rw [hext.chain_eq h.rooted hr h.inside, h.chain]
    rfl
  · obtain rfl | hL' := List.mem_cons.mp hL'
    · -- The innermost handler is the one that is entered, if it has the name.
      simp only [Level.caught?, Level.catching, List.find?_cons] at hy
      rw [hown]
      split at hy
      · next hsame =>
        cases hy
        exact ⟨_, hx, if_pos ⟨hscope, (beq_iff_eq.mp hsame).symm⟩⟩
      · next hother =>
        obtain ⟨v, hv, hownv⟩ := h.caught L List.mem_cons_self m y hy
        refine ⟨v, hv, (if_neg fun hboth => ?_).trans hownv⟩
        rw [hboth.2] at hother
        simp at hother
    · obtain ⟨v, hv, hownv⟩ := h.caught L' (List.mem_cons_of_mem L hL') m y hy
      refine ⟨v, hv, ?_⟩
      have hne : L'.scope ≠ c.scope := fun heq =>
        (List.nodup_cons.mp h.nodup).1 (hscope.trans heq.symm ▸ List.mem_map_of_mem hL')
      rw [hown, if_neg fun hboth => hne hboth.1]
      exact hownv
  · have hm' : ((t.scope L'.scope).own? m).isSome = true := by
      obtain rfl | hL' := List.mem_cons.mp hL'
      · exact h.names L List.mem_cons_self m hm
      · exact h.names L' (List.mem_cons_of_mem L hL') m hm
    rw [hown]
    split
    · rfl
    · exact hm'
  · rw [ScopeTable.openBinding, ScopeTable.view_insert Scope.isDynamic fun _ _ _ => rfl]
    exact h.dynamic hdepth

end Agrees

namespace Final

variable {Γ : List Level} {c : Place} {t t' T : ScopeTable}

/-- The table at the end is the end of itself. -/
theorem refl (Γ : List Level) (h : T.Rooted) : Final Γ T T :=
  ⟨h, .refl T, fun _ _ h => h, fun _ h => h, fun _ _ _ _ h => h, fun _ _ _ _ _ h => h, fun _ _ _ _ h => h⟩

/-- The end is also the end of what comes before, if nothing but the scope of the place is changed in
between. -/
theorem of_grows {B : List BoundName} (h : Final Γ t' T) (hΓ : Agrees Γ c t)
    (hgrows : t.Grows (fun s b => s = c.scope ∧ b ∈ B) t') : Final Γ t T := by
  refine ⟨h.rooted, hgrows.ext.trans h.ext, fun m v hm => h.implicit m v (hgrows.implicit hm),
    fun s hs => h.dynamic s (hgrows.dynamic s hs),
    fun s m v hs hv => h.kept s m v hs (hgrows.own s m v hv), fun s m v hs hnot hv => ?_,
    fun s m hs hnot hsole => ?_⟩
  · obtain hv | ⟨-, ⟨rfl, -⟩ | ⟨rfl, -⟩ | hle⟩ :=
      hgrows.fresh s m v (h.done s m v (hgrows.ext.size_le hs) hnot hv)
    · exact hv
    · exact absurd hΓ.scope_mem hnot
    · exact absurd hΓ.global_mem hnot
    · exact absurd hs (Nat.not_lt.mpr hle)
  · refine h.sole s m (hgrows.ext.size_le hs) hnot (hgrows.sole s m hs (fun hcaught => ?_) hsole)
    rw [hcaught.1] at hnot
    exact hnot hΓ.scope_mem

/-- Seen from a function inside. -/
theorem inFunction (h : Final Γ t T) (L : Level) : Final (L :: Γ) t T :=
  { h with
    kept := fun s m v hs => h.kept s m v fun L' hL' => hs L' (List.mem_cons_of_mem L hL')
    done := fun s m v hs hnot => h.done s m v hs fun hmem => hnot (List.mem_cons_of_mem _ hmem)
    sole := fun s m hs hnot => h.sole s m hs fun hmem => hnot (List.mem_cons_of_mem _ hmem) }

/-- **Seen from a handler**, whose binding is closed behind it. -/
theorem catching {x : Identifier} {shadowed : Option VarId}
    (h : Final Γ (t'.closeBinding c.scope x.name shadowed) T) (hΓ : Agrees Γ c t)
    (hs' : c.scope.index < t'.scopes.size) (hext : t'.Extends (t'.closeBinding c.scope x.name shadowed)) :
    Final (Γ.modifyHead (·.catching x)) t' T := by
  obtain ⟨L, Γ', rfl, hscope⟩ := hΓ.head
  have hown := ScopeTable.own?_closeBinding hs' x.name shadowed
  have hview := ScopeTable.view_closeBinding (t := t') Scope.isDynamic (fun _ _ => rfl) c.scope x.name shadowed
  refine ⟨h.rooted, hext.trans h.ext, fun m v hm => h.implicit m v hm, fun s hd => h.dynamic s ((hview s).trans hd),
    fun s m v hs hv => ?_, fun s m v hs hnot hv => ?_, fun s m hs hnot hsole => ?_⟩
  · have hother : ¬ (s = c.scope ∧ m = x.name) := by
      rintro ⟨rfl, rfl⟩
      have hnone := hs (L.catching x) List.mem_cons_self hscope
      simp [Level.caught?, Level.catching] at hnone
    refine h.kept s m v (fun L' hL' hL's => ?_) ?_
    · obtain rfl | hL' := List.mem_cons.mp hL'
      · have hnone := hs (L'.catching x) List.mem_cons_self hL's
        simp only [Level.caught?, Level.catching, List.find?_cons] at hnone
        split at hnone
        · cases hnone
        · exact hnone
      · exact hs L' (List.mem_cons_of_mem _ hL') hL's
    · rw [hown, if_neg hother]
      exact hv
  · have hne : s ≠ c.scope := fun heq => hnot (heq ▸ hscope ▸ List.mem_cons_self)
    have hv := h.done s m v (hext.size_le hs) hnot hv
    rwa [hown, if_neg fun hboth => hne hboth.1] at hv
  · have hne : s ≠ c.scope := fun heq => hnot (heq ▸ hscope ▸ List.mem_cons_self)
    refine h.sole s m (hext.size_le hs) hnot fun i V hV hVs hVn => ?_
    rw [hown, if_neg fun hboth => hne hboth.1]
    exact hsole i V hV hVs hVn

/-- **Inside a statement that catches**: what is seen from the guarded part and from the handler. -/
theorem ofTryCatch {x : Identifier} {guarded guarded' handler handler' : Node} {t₁ t₂ : ScopeTable}
    (hΓ : Agrees Γ c t) (hguarded : Analyzes c t [guarded] t₁ [guarded'])
    (hhandler : Analyzes c (t₁.openBinding c.scope x.name).2 [handler] t₂ [handler'])
    (hT : Final Γ (t₂.closeBinding c.scope x.name (t₁.openBinding c.scope x.name).1.2) T) :
    Final Γ t₁ T ∧
      Agrees (Γ.modifyHead (·.catching { x with var := some (t₁.openBinding c.scope x.name).1.1 })) c
        (t₁.openBinding c.scope x.name).2 ∧
      Final (Γ.modifyHead (·.catching { x with var := some (t₁.openBinding c.scope x.name).1.1 })) t₂ T := by
  have hΓ₁ := hΓ.grows (hguarded.grows hΓ.rooted hΓ.inside)
  have hΓ₂ := hΓ₁.catching (x := { x with var := some (t₁.openBinding c.scope x.name).1.1 }) rfl
  obtain ⟨-, -, -, hgrows, hclose⟩ := hhandler.catches hΓ₁.rooted hΓ₁.inside
  refine ⟨?_, hΓ₂, ?_⟩
  · refine hT.of_grows hΓ₁ (B := .caught x.name :: handler.bindings) (.binding hΓ₁.rooted hΓ₁.inside ?_ ?_)
    · exact hgrows.subset (by simp [bindingsAll])
    · exact ⟨rfl, List.mem_cons_self⟩
  · exact hT.catching (x := { x with var := some (t₁.openBinding c.scope x.name).1.1 }) hΓ₁
      (hgrows.ext.size_le hΓ₂.inside) hclose.ext

end Final

/-! ## What holds at the sites -/

/-- What a name may stand for, seen from levels: what the innermost handler with that name catches, what the
name stands for in the function, or, if the function does not bind the name, what it stands for
further out. -/
def Sees (T : ScopeTable) : List Level → String → VarId → Prop
  | [], _, _ => False
  | L :: Γ, m, v =>
    match L.caught? m with
    | some x => x.var = some v
    | none => (T.scope L.scope).own? m = some v ∨ m ∉ L.names ∧ Sees T Γ m v

/-- What holds at a site. -/
def Site.Lexical (T : ScopeTable) : Site → Prop
  | .use Γ x => (∃ s : ScopeId, s.index < T.scopes.size ∧ T.chain s = Γ.map Level.scope) ∧
    ∃ v, x.var = some v ∧ Sees T Γ x.name v
  | .handler Γ x => ∃ L Γ' v, Γ = L :: Γ' ∧ x.var = some v ∧ T.Declares L.scope x.name v ∧
    (T.var v).storage ≠ .global
  | .function Γ L isLowered body => (T.scope L.scope).parent = (Γ.map Level.scope).head? ∧
    (∀ m ∈ L.names, ((T.scope L.scope).own? m).isSome = true) ∧
    (∀ m v, (T.scope L.scope).own? m = some v → m ∈ L.names ∨ .declared m ∈ bindingsAll body) ∧
    (∀ m, .caught m ∉ bindingsAll body → T.Sole L.scope m) ∧
    ((isLowered || hasWith body) = true → (T.scope L.scope).isDynamic = true)
  | .object Γ => ∀ L ∈ Γ.head?, (T.scope L.scope).isDynamic = true

namespace Agrees

variable {Γ : List Level} {c : Place} {t t' T : ScopeTable} {m : String} {v : VarId}

/-- What a name stands for in one of the scopes around, it stands for in the end, unless a handler catches
under that name. -/
theorem own_final (h : Agrees Γ c t) (hT : Final Γ t' T) {L : Level} (hL : L ∈ Γ) (hnone : L.caught? m = none)
    (hv : (t'.scope L.scope).own? m = some v) : (T.scope L.scope).own? m = some v := by
  refine hT.kept L.scope m v (fun L' hL' heq => ?_) hv
  rw [List.inj_on_of_nodup_map h.nodup hL' hL heq]
  exact hnone

/-- A scope in which a name stands for nothing has no handler and no name for it. -/
theorem unbound (h : Agrees Γ c t) {L : Level} (hL : L ∈ Γ) (hnone : (t.scope L.scope).own? m = none) :
    L.caught? m = none ∧ m ∉ L.names := by
  refine ⟨?_, fun hm => ?_⟩
  · rcases hx : L.caught? m with _ | x
    · rfl
    · obtain ⟨v, -, hv⟩ := h.caught L hL m x hx
      rw [hnone] at hv
      cases hv
  · have hsome := h.names L hL m hm
    rw [hnone] at hsome
    cases hsome

/-- **A name that nobody around declares** is seen as the program's. -/
theorem sees_global (h : Agrees Γ c t) (hT : Final Γ t' T)
    (hnone : ∀ L ∈ Γ, (t.scope L.scope).own? m = none) (hv : (t'.scope .global).own? m = some v) :
    Sees T Γ m v := by
  have hgo : ∀ Γ' ⊆ Γ, ScopeId.global ∈ Γ'.map Level.scope → Sees T Γ' m v := by
    intro Γ' hsub hglobal
    induction Γ' with
    | nil => cases hglobal
    | cons L Γ' ih =>
      obtain ⟨hL, hrest⟩ := List.cons_subset.mp hsub
      obtain ⟨hcaught, hname⟩ := h.unbound hL (hnone L hL)
      rw [Sees, hcaught]
      obtain heq | hglobal := List.mem_cons.mp hglobal
      · exact .inl (h.own_final hT hL hcaught (heq ▸ hv))
      · exact .inr ⟨hname, ih hrest hglobal⟩
  exact hgo Γ (List.Subset.refl Γ) h.global_mem

/-- **A name that is found** from the inside out is seen as what is found. -/
theorem sees_found (h : Agrees Γ c t) (hT : Final Γ t' T)
    (hkept : ∀ s, (t.scope s).own? m = some v → (t'.scope s).own? m = some v)
    (hfound : (Γ.map Level.scope).findSome? (fun id => (t.scope id).own? m) = some v) : Sees T Γ m v := by
  have hgo : ∀ Γ' ⊆ Γ, (Γ'.map Level.scope).findSome? (fun id => (t.scope id).own? m) = some v →
      Sees T Γ' m v := by
    intro Γ' hsub hfind
    induction Γ' with
    | nil => cases hfind
    | cons L Γ' ih =>
      obtain ⟨hL, hrest⟩ := List.cons_subset.mp hsub
      rw [List.map_cons, List.findSome?_cons] at hfind
      rw [Sees]
      rcases hown : (t.scope L.scope).own? m with _ | w
      · rw [hown] at hfind
        obtain ⟨hcaught, hname⟩ := h.unbound hL hown
        rw [hcaught]
        exact .inr ⟨hname, ih hrest hfind⟩
      · rw [hown] at hfind
        cases hfind
        rcases hcaught : L.caught? m with _ | x
        · exact .inl (h.own_final hT hL hcaught (hkept _ hown))
        · obtain ⟨v', hv', hown'⟩ := h.caught L hL m x hcaught
          rw [hown] at hown'
          cases hown'
          exact hv'
  exact hgo Γ (List.Subset.refl Γ) hfound

/-- **A name is resolved** to what is seen from its place. -/
theorem sees (h : Agrees Γ c t) (m : String) (hT : Final Γ (t.resolve c.scope m).2 T) :
    Sees T Γ m (t.resolve c.scope m).1 := by
  have hgrows := ScopeTable.grows_resolve h.rooted h.inside m (N := fun _ _ => False)
  rcases hlookup : t.lookup? c.scope m with _ | v
  · -- Nobody declares the name, and the program gets a variable for it.
    refine h.sees_global hT ?_ ?_
    · rw [ScopeTable.lookup?, h.chain] at hlookup
      exact fun L hL => List.findSome?_eq_none_iff.mp hlookup L.scope (List.mem_map_of_mem hL)
    · rw [ScopeTable.resolve, hlookup]
      simp only
      rw [ScopeTable.own?_insert h.rooted.size, if_pos ⟨rfl, rfl⟩]
      rfl
  · have hv : (t.resolve c.scope m).1 = v := by
      rw [ScopeTable.resolve, hlookup]
      simp only
      split <;> rfl
    rw [ScopeTable.lookup?, h.chain] at hlookup
    rw [hv]
    exact h.sees_found hT (fun s hs => hgrows.own _ _ _ hs) hlookup

end Agrees

/-- **What holds at the start of a function** holds in the end. -/
theorem FunctionStart.lexical {Γ : List Level} {c : Place} {t t' t'' T : ScopeTable} {s : ScopeId}
    {names : List String} {body : List Node} (h : FunctionStart c t t' s names) (hΓ : Agrees Γ c t)
    (hgrows : t'.Grows (fun id b => id = s ∧ b ∈ bindingsAll body) t'') (hT : Final Γ t'' T)
    {isLowered : Bool} (hlowered : isLowered = decide (0 < c.depth))
    (hwith : hasWith body = true → (t''.scope s).isDynamic = true) :
    (Site.function Γ ⟨s, [], names⟩ isLowered body).Lexical T := by
  obtain ⟨L, Γ', rfl, hscope⟩ := hΓ.head
  have hinside := hgrows.ext.size_le h.inside
  have hnew : s ∉ (L :: Γ').map Level.scope := by
    rw [← hΓ.chain]
    intro hmem
    exact absurd (hΓ.rooted.mem_chain_lt hΓ.inside hmem) (Nat.not_lt.mpr h.new)
  refine ⟨?_, fun m hm => ?_, fun m v hv => ?_, fun m hm => ?_, fun hor => hT.dynamic s ?_⟩
  · obtain ⟨S, hS, hparent⟩ := (hgrows.ext.trans hT.ext).scopes s.index _ (Array.getElem?_eq_getElem h.inside)
    have hstart := h.parent
    rw [ScopeTable.scope, Array.getElem?_eq_getElem h.inside] at hstart
    rw [ScopeTable.scope, hS, List.map_cons, List.head?_cons, hscope]
    exact hparent.trans hstart
  · obtain ⟨v, hv⟩ := Option.isSome_iff_exists.mp ((h.bound m).mpr hm)
    rw [hT.kept s m v (fun L' hL' heq => absurd (heq ▸ List.mem_map_of_mem hL') hnew) (hgrows.own s m v hv)]
    rfl
  · obtain hv | ⟨-, hdeclared | ⟨hglobal, -⟩ | hle⟩ := hgrows.fresh s m v (hT.done s m v hinside hnew hv)
    · exact .inl ((h.bound m).mp (by rw [hv]; rfl))
    · exact .inr hdeclared.2
    · exact absurd (hglobal ▸ hΓ.global_mem) hnew
    · exact absurd h.inside (Nat.not_lt.mpr hle)
  · exact hT.sole s m hinside hnew (hgrows.sole s m h.inside (fun hcaught => hm hcaught.2) (h.sole m))
  · obtain hl | hw := Bool.or_eq_true_iff.mp hor
    · rw [hl] at hlowered
      exact hgrows.dynamic s (h.dynamic (of_decide_eq_true hlowered.symm))
    · exact hwith hw

/-- **Analysis is lexical**: at every site of the analyzed nodes the right thing holds of the table at the
end. -/
theorem Analyzes.lexical {c : Place} {t t' : ScopeTable} {ns ns' : List Node} (h : Analyzes c t ns t' ns')
    {Γ : List Level} (hΓ : Agrees Γ c t) {T : ScopeTable} (hT : Final Γ t' T) {isLowered : Bool}
    (hlowered : isLowered = decide (0 < c.depth)) :
    ∀ site ∈ sitesAll Γ isLowered ns', site.Lexical T := by
  induction h generalizing Γ isLowered with
  | nil c t => exact fun site hsite => nomatch hsite
  | cons hfirst hrest ih ih' =>
    have hgrown := hfirst.grows hΓ.rooted hΓ.inside
    have hΓ₁ := hΓ.grows hgrown
    intro site hsite
    obtain hsite | hsite := List.mem_append.mp hsite
    · refine ih hΓ (hT.of_grows hΓ₁ (hrest.grows hΓ₁.rooted hΓ₁.inside)) hlowered site ?_
      rw [sitesAll_singleton]
      exact hsite
    · exact ih' hΓ₁ hT hlowered site hsite
  | neutral i hn hlength hparts hhints ih =>
    obtain ⟨hrebuilt, hneutral⟩ := Node.parts_rebuild i hn hlength
    have hΓ₁ := hΓ.grows (hparts.grows hΓ.rooted hΓ.inside)
    rw [sitesAll_singleton, Node.sites_of_neutral Γ isLowered hneutral, hrebuilt]
    exact ih hΓ (hT.of_grows (B := []) hΓ₁ (hhints.grows hΓ₁.rooted)) hlowered
  | folded | lowered => exact fun site hsite => nomatch hsite
  | definition t i i' hx =>
    rw [sitesAll_singleton, Node.sites, if_pos hx]
    exact fun site hsite => nomatch hsite
  | @reference c t i i' x hx =>
    rw [sitesAll_singleton, Node.sites, if_neg (by simp [hx])]
    intro site hsite
    rw [List.mem_singleton.mp hsite]
    have hΓ' := hΓ.grows (ScopeTable.grows_resolve hΓ.rooted hΓ.inside x.name (N := fun _ _ => False))
    refine ⟨⟨_, hT.ext.size_le hΓ'.inside, ?_⟩, _, rfl, hΓ.sees _ hT⟩
    rw [hT.ext.chain_eq hΓ'.rooted hT.rooted hΓ'.inside, hΓ'.chain]
  | @var c t t₁ t₂ i i' x init init' hc hinit hhints ih =>
    have hΓ₀ := hΓ.grows (ScopeTable.grows_declare hΓ.rooted hΓ.inside x.name)
    have hΓ₁ := hΓ₀.grows (hinit.grows hΓ₀.rooted hΓ₀.inside)
    rw [sitesAll_singleton, Node.sites, sites?_eq]
    exact ih hΓ₀ (hT.of_grows (B := []) hΓ₁ (hhints.grows hΓ₁.rooted)) hlowered
  | @function c t t₁ t₂ t₃ t₄ t₅ i i' name name' params params' body body' isDeclaration scope label s
      _ houter hs hparams hinner hname hbody hhints ih =>
    have hΓ₁ := hΓ.grows (houter.grows hΓ.rooted hΓ.inside).1
    obtain ⟨hstart, hparams'⟩ := ScopeTable.starts hΓ₁.rooted hΓ₁.inside hs hparams hinner
    have hΓ₃ := hΓ₁.inFunction hstart
    have hgrows := hbody.grows hΓ₃.rooted hΓ₃.inside
    have hT₄ : Final Γ t₄ T := by
      have hΓ₄ := (hΓ₁.grows hstart.grows).grows hgrows
      exact hT.of_grows (B := []) hΓ₄ (hhints.grows hΓ₄.rooted)
    rw [sitesAll_singleton, Node.sites, hbody.names_eq hname.same hparams']
    intro site hsite
    obtain rfl | hsite := List.mem_cons.mp hsite
    · exact hstart.lexical hΓ₁ (hbody.bindings_eq ▸ hgrows) hT₄ hlowered
        (hbody.dynamic hΓ₃.rooted hΓ₃.inside)
    · exact ih hΓ₃ (hT₄.inFunction _) hlowered site hsite
  | withObject i i' hobject hbody iho ihb =>
    have hΓ₁ := hΓ.grows (hobject.grows hΓ.rooted hΓ.inside)
    have hΓ₂ := hΓ₁.inWith
    have hT₂ := hT.of_grows hΓ₂ (hbody.grows hΓ₂.rooted hΓ₂.inside)
    rw [sitesAll_singleton, Node.sites]
    intro site hsite
    obtain hsite | hsite := List.mem_append.mp hsite
    · refine iho hΓ ?_ hlowered site (by rwa [sitesAll_singleton])
      exact hT₂.of_grows (B := []) hΓ₁ (ScopeTable.grows_markDynamic hΓ₁.rooted hΓ₁.inside)
    · obtain rfl | hsite := List.mem_cons.mp hsite
      · intro L hL
        obtain ⟨L', Γ', rfl, hscope⟩ := hΓ₂.head
        cases hL
        rw [hscope]
        exact hT₂.dynamic _ (hΓ₂.dynamic (Nat.succ_pos _))
      · refine ihb hΓ₂ hT ?_ site (by rwa [sitesAll_singleton])
        exact (decide_eq_true (Nat.succ_pos _)).symm
  | @tryCatch c t t₁ t₂ i i' guarded guarded' handler handler' x hc hguarded hhandler ihb ihh =>
    obtain ⟨hT₁, hΓ₂, hT₂⟩ := hT.ofTryCatch hΓ hguarded hhandler
    rw [sitesAll_singleton, Node.sites]
    intro site hsite
    obtain hsite | hsite := List.mem_append.mp hsite
    · exact ihb hΓ hT₁ hlowered site (by rwa [sitesAll_singleton])
    · obtain rfl | hsite := List.mem_cons.mp hsite
      · obtain ⟨L, Γ', rfl, hscope⟩ := hΓ.head
        have hΓ₁ := hΓ.grows (hguarded.grows hΓ.rooted hΓ.inside)
        obtain ⟨-, hdeclares, -⟩ := ScopeTable.leads_openBinding hΓ₁.rooted.valid hΓ₁.inside x.name
        have hext := (hhandler.grows hΓ₂.rooted hΓ₂.inside).ext.trans hT₂.ext
        refine ⟨L, Γ', _, rfl, rfl, hscope ▸ hdeclares.mono hext, fun hglobal => ?_⟩
        -- The variable starts in the frame, and only moves to an environment.
        have hnew : (t₁.openBinding c.scope x.name).2.vars[(t₁.openBinding c.scope x.name).1.1.index]? =
            some { name := x.name, scope := c.scope, storage := .frame } := Array.getElem?_push_size
        obtain ⟨V, hV, -, -, hmoves⟩ := hext.vars _ _ hnew
        rw [ScopeTable.var, hV] at hglobal
        cases hmoves.global hglobal
      · exact ihh hΓ₂ hT₂ hlowered site (by rwa [sitesAll_singleton])

end ScriptEngine
