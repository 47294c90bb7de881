import ScriptEngine.Proofs.Scope.Binders

/-!
# `with` statements

What analysis makes of `with` statements, exactly. A name that is used in the body of one, at whatever depth,
becomes one that is looked up at run time, and a name that is used elsewhere is resolved; nothing is bound in
the function around by the body of a `with` statement; and variables are looked up by name in just those
functions that lie in the body of a `with` statement or have one in them.

* `Node.spots` lists the names and the `with` bodies of a tree, and `Spot.Becomes` says what one of them
  becomes.
* `Marked` says of a walk which scopes are new and which are marked by it.

The main statement is `Analyzer.program_withs`.
-/

namespace ScriptEngine

/-! ## Names and bodies -/

/-- A part of a tree that a `with` statement matters to. -/
inductive Spot where
  /-- A name in a node of its own, and whether a `with` body is around it. -/
  | name (inWith : Bool) (x : Identifier)
  /-- A name that is looked up at run time, and whether a `with` body is around it. -/
  | dynamic (inWith : Bool) (name : String)
  /-- The body of a `with` statement. -/
  | body (n : Node)

mutual

/-- The names and the `with` bodies of a node, also in functions inside it, in the order in which they
stand. -/
def Node.spots (inWith : Bool) : Node → List Spot
  | .identifier _ x => [.name inWith x]
  | .dynamic _ name => [.dynamic inWith name]
  | .call _ target args => target.spots inWith ++ spotsAll inWith args
  | .member _ target _ => target.spots inWith
  | .binary _ _ lhs rhs => lhs.spots inWith ++ rhs.spots inWith
  | .unary _ _ operand => operand.spots inWith
  | .assign _ target value => target.spots inWith ++ value.spots inWith
  | .function _ _ _ body _ _ => spotsAll inWith body
  | .object _ properties => spotsOfProperties inWith properties
  | .delete _ target => target.spots inWith
  | .var _ _ init => spots? inWith init
  | .ret _ value => spots? inWith value
  | .cond _ condition thenBranch elseBranch =>
    condition.spots inWith ++ (thenBranch.spots inWith ++ spots? inWith elseBranch)
  | .loop _ condition body => condition.spots inWith ++ body.spots inWith
  | .block _ statements => spotsAll inWith statements
  | .withObject _ object body => object.spots inWith ++ .body body :: body.spots true
  | .throw _ value => value.spots inWith
  | .tryCatch _ guarded _ handler => guarded.spots inWith ++ handler.spots inWith
  | .literal .. | .this _ => []

/-- The names and the `with` bodies of nodes. -/
def spotsAll (inWith : Bool) : List Node → List Spot
  | [] => []
  | n :: rest => n.spots inWith ++ spotsAll inWith rest

/-- The names and the `with` bodies of a node that may be missing. -/
def spots? (inWith : Bool) : Option Node → List Spot
  | none => []
  | some n => n.spots inWith

/-- The names and the `with` bodies of the values of properties. -/
def spotsOfProperties (inWith : Bool) : List (String × Node) → List Spot
  | [] => []
  | (_, value) :: rest => value.spots inWith ++ spotsOfProperties inWith rest

end

/-- The name that a node itself has looked up at run time. -/
def Node.dynamicName? : Node → Option String
  | .dynamic _ name => some name
  | _ => none

/-- With other parts a neutral node has the same name looked up. -/
theorem Node.dynamicName?_rebuild (i : Info) (n : Node) (ps : List Node) :
    (n.rebuild i ps).dynamicName? = n.dynamicName? := by
  unfold rebuild
  split
  case h_14 => cases n <;> rfl
  all_goals rfl

section

variable (inWith : Bool)

/-- The spots of one node. -/
theorem spotsAll_singleton (n : Node) : spotsAll inWith [n] = n.spots inWith := by
  rw [spotsAll, spotsAll, List.append_nil]

/-- The spots of a node that may be missing. -/
theorem spots?_eq (n : Option Node) : spots? inWith n = spotsAll inWith n.toList := by
  cases n with
  | none => rfl
  | some n => exact (spotsAll_singleton inWith n).symm

/-- The spots of the values of properties. -/
theorem spotsOfProperties_eq (ps : List (String × Node)) :
    spotsOfProperties inWith ps = spotsAll inWith (ps.map Prod.snd) := by
  induction ps with
  | nil => rfl
  | cons p ps ih => rw [spotsOfProperties, ih, List.map_cons, spotsAll]

/-- **The spots of a neutral node** are those of its parts, unless it is itself a name that is looked up. -/
theorem Node.spots_of_neutral {n : Node} (hn : n.isNeutral = true) :
    n.spots inWith = (n.dynamicName?.map (.dynamic inWith)).toList ++ spotsAll inWith n.parts := by
  cases n with
  | identifier | function | var | withObject => cases hn
  | object i ps => exact spotsOfProperties_eq inWith ps
  | ret i value => exact spots?_eq inWith value
  | cond i condition thenBranch elseBranch => rw [spots, spots?_eq]; rfl
  | tryCatch i guarded param handler =>
    cases param with
    | some x => cases hn
    | none => simp [spots, parts, spotsAll, dynamicName?]
  | _ => simp [spots, parts, spotsAll, dynamicName?]

end

/-- Literal numbers have no spots. -/
theorem spotsAll_of_numbers {ns : List Node} (hns : ∀ n ∈ ns, n.number?.isSome = true) (inWith : Bool) :
    spotsAll inWith ns = [] := by
  induction ns with
  | nil => rfl
  | cons n ns ih =>
    obtain ⟨hn, hns⟩ := List.forall_mem_cons.mp hns
    rw [spotsAll, ih hns]
    cases n with
    | literal => rfl
    | _ => cases hn

/-- Literal numbers have no sites. -/
theorem sitesAll_of_numbers {ns : List Node} (hns : ∀ n ∈ ns, n.number?.isSome = true) (Γ : List Level)
    (isLowered : Bool) : sitesAll Γ isLowered ns = [] := by
  induction ns with
  | nil => rfl
  | cons n ns ih =>
    obtain ⟨hn, hns⟩ := List.forall_mem_cons.mp hns
    rw [sitesAll, ih hns]
    cases n with
    | literal => rfl
    | _ => cases hn

/-- What analysis makes of a spot, with the table at the end. -/
inductive Spot.Becomes (T : ScopeTable) : Spot → Spot → Prop where
  /-- A name that was looked up at run time from the start. -/
  | kept (inWith : Bool) (name : String) : Becomes T (.dynamic inWith name) (.dynamic inWith name)
  /-- A name that is bound by a node of its own gets a variable. -/
  | bound (inWith : Bool) {x : Identifier} {s : ScopeId} {v : VarId} (hx : x.isDefinition = true)
    (hv : T.Declares s x.name v) : Becomes T (.name inWith x) (.name inWith { x with var := some v })
  /-- A name that is used in a `with` body is looked up at run time. -/
  | lowered {x : Identifier} (hx : x.isDefinition = false) :
    Becomes T (.name true x) (.dynamic true x.name)
  /-- A name that is used elsewhere is resolved. -/
  | resolved {x : Identifier} {s : ScopeId} {v : VarId} (hx : x.isDefinition = false)
    (hv : T.Declares s x.name v) : Becomes T (.name false x) (.name false { x with var := some v })
  /-- The body of a `with` statement binds nothing in the function around, before and after. -/
  | body {n n' : Node} (hn : n.bindings = []) (hn' : n'.bindings = []) : Becomes T (.body n) (.body n')

namespace Spot

/-- Variables stay while a table grows. -/
theorem Becomes.mono {T T' : ScopeTable} {a b : Spot} (h : Becomes T a b) (hext : T.Extends T') :
    Becomes T' a b := by
  cases h with
  | kept inWith name => exact .kept inWith name
  | bound inWith hx hv => exact .bound inWith hx (hv.mono hext)
  | lowered hx => exact .lowered hx
  | resolved hx hv => exact .resolved hx (hv.mono hext)
  | body hn hn' => exact .body hn hn'

/-- Each spot becomes what it becomes, also in a later table. -/
theorem all_mono {T T' : ScopeTable} {as bs : List Spot} (h : List.Forall₂ (Becomes T) as bs)
    (hext : T.Extends T') : List.Forall₂ (Becomes T') as bs :=
  h.imp fun _ _ hab => hab.mono hext

/-- What is there has become what it is. -/
theorem exists_becomes {T : ScopeTable} {as bs : List Spot} (h : List.Forall₂ (Becomes T) as bs) {b : Spot}
    (hb : b ∈ bs) : ∃ a, Becomes T a b := by
  induction h with
  | nil => cases hb
  | cons hab _ ih =>
    obtain rfl | hb := List.mem_cons.mp hb
    · exact ⟨_, hab⟩
    · exact ih hb

end Spot

/-- **Each name and each `with` body** becomes what it should. -/
theorem Analyzes.spots {c : Place} {t t' : ScopeTable} {ns ns' : List Node} (h : Analyzes c t ns t' ns')
    (ht : t.Rooted) (hc : c.scope.index < t.scopes.size) {inWith : Bool}
    (hwith : inWith = decide (0 < c.depth)) :
    List.Forall₂ (Spot.Becomes t') (spotsAll inWith ns) (spotsAll inWith ns') := by
  induction h generalizing inWith with
  | nil => exact .nil
  | cons hfirst hrest ih ih' =>
    have hgrows := hfirst.grows ht hc
    have hc₁ := hgrows.ext.size_le hc
    have hone := Spot.all_mono (ih ht hc hwith) (hrest.grows hgrows.rooted hc₁).ext
    rw [spotsAll_singleton, spotsAll_singleton] at hone
    exact List.rel_append hone (ih' hgrows.rooted hc₁ hwith)
  | neutral i hn hlength hparts hhints ih =>
    obtain ⟨hrebuilt, hneutral⟩ := Node.parts_rebuild i hn hlength
    have hgrows := hparts.grows ht hc
    rw [spotsAll_singleton, spotsAll_singleton, Node.spots_of_neutral inWith hn,
      Node.spots_of_neutral inWith hneutral, hrebuilt, Node.dynamicName?_rebuild]
    refine List.rel_append ?_
      (Spot.all_mono (ih ht hc hwith) (hhints.grows hgrows.rooted (N := fun _ _ => False)).ext)
    cases Node.dynamicName? _ with
    | none => exact .nil
    | some name => exact .cons (.kept inWith name) .nil
  | @folded c t t₁ t₂ n ps i l hn hparts hps _ ih =>
    -- An operation that is folded has no names in it.
    have hspots : n.spots inWith = spotsAll inWith n.parts := by
      obtain ⟨i, op, lhs, rhs, rfl⟩ | ⟨i, op, x, rfl⟩ := hn
      · exact Node.spots_of_neutral inWith rfl
      · exact Node.spots_of_neutral inWith rfl
    have hnone := ih ht hc hwith
    rw [spotsAll_of_numbers hps, ← hspots] at hnone
    rw [spotsAll_singleton, spotsAll_singleton, List.forall₂_nil_right_iff.mp hnone]
    exact .nil
  | lowered t i i' hx hdepth =>
    rw [hwith, decide_eq_true hdepth]
    exact .cons (.lowered hx) .nil
  | definition t i i' hx =>
    exact .cons (.bound inWith hx (ScopeTable.leads_declare ht.valid hc _).2) .nil
  | @reference c t i i' x hx _ hdepth =>
    obtain ⟨-, V, hV, hname, -⟩ := ScopeTable.leads_resolve ht.valid ht.size c.scope x.name
    rw [hwith, decide_eq_false (by omega)]
    exact .cons (.resolved hx ⟨V, hV, rfl, hname⟩) .nil
  | @var c t t₁ t₂ i i' x init init' _ hinit hhints ih =>
    have hdeclare := ScopeTable.grows_declare ht hc x.name
    have hc₀ := hdeclare.ext.size_le hc
    have hgrows := hinit.grows hdeclare.rooted hc₀
    rw [spotsAll_singleton, spotsAll_singleton, Node.spots, Node.spots, spots?_eq, spots?_eq]
    exact Spot.all_mono (ih hdeclare.rooted hc₀ hwith)
      (hhints.grows hgrows.rooted (N := fun _ _ => False)).ext
  | function i i' label _ houter hs hparams hinner _ hbody hhints ih =>
    obtain ⟨houter, -⟩ := houter.grows ht hc
    obtain ⟨hstart, -⟩ := ScopeTable.starts houter.rooted (houter.ext.size_le hc) hs hparams hinner
    have hgrows := hbody.grows hstart.grows.rooted hstart.inside
    rw [spotsAll_singleton, spotsAll_singleton, Node.spots, Node.spots]
    exact Spot.all_mono (ih hstart.grows.rooted hstart.inside hwith)
      (hhints.grows hgrows.rooted (N := fun _ _ => False)).ext
  | withObject i i' hobject hbody iho ihb =>
    have hgrows := hobject.grows ht hc
    have hc₁ := hgrows.ext.size_le hc
    have hmark := ScopeTable.grows_markDynamic hgrows.rooted hc₁ (N := fun _ _ => False)
    have hc₂ := hmark.ext.size_le hc₁
    have hone := Spot.all_mono (iho ht hc hwith)
      (hmark.ext.trans (hbody.grows hmark.rooted hc₂).ext)
    have hdepth : true = decide (0 < c.inWith.depth) := (decide_eq_true (Nat.succ_pos _)).symm
    have htwo := ihb hmark.rooted hc₂ hdepth
    have hnone := hbody.bindings_eq_nil (Nat.succ_pos _)
    have hnone' := hbody.bindings_eq.trans hnone
    simp only [spotsAll_singleton] at hone htwo
    simp only [bindingsAll, List.append_nil] at hnone hnone'
    rw [spotsAll_singleton, spotsAll_singleton, Node.spots, Node.spots]
    exact List.rel_append hone (.cons (.body hnone hnone') htwo)
  | @tryCatch c t t₁ t₂ i i' guarded guarded' handler handler' x _ hguarded hhandler ihb ihh =>
    have hgrows := hguarded.grows ht hc
    have hc₁ := hgrows.ext.size_le hc
    obtain ⟨hopen, hr₂, hc₂, hgrows₂, hclose⟩ := hhandler.catches hgrows.rooted hc₁
    have hone := Spot.all_mono (ihb ht hc hwith) ((hopen.ext.trans hgrows₂.ext).trans hclose.ext)
    have htwo := Spot.all_mono (ihh hr₂ hc₂ hwith) hclose.ext
    simp only [spotsAll_singleton] at hone htwo
    rw [spotsAll_singleton, spotsAll_singleton, Node.spots, Node.spots]
    exact List.rel_append hone htwo

/-! ## Where there are `with` statements -/

mutual

/-- Whether a node has a `with` statement in it does not depend on what is seen from it. -/
theorem Node.any_isObject (Γ : List Level) (isLowered : Bool) : ∀ n : Node,
    (n.sites Γ isLowered).any Site.isObject = (n.sites [] false).any Site.isObject
  | .identifier _ x => by
    rw [Node.sites, Node.sites]
    split <;> rfl
  | .call _ target args => by
    rw [Node.sites, Node.sites, List.any_append, List.any_append, target.any_isObject,
      any_isObject_sitesAll _ _ args]
  | .member _ target _ => target.any_isObject Γ isLowered
  | .binary _ _ lhs rhs => by
    rw [Node.sites, Node.sites, List.any_append, List.any_append, lhs.any_isObject, rhs.any_isObject]
  | .unary _ _ operand => operand.any_isObject Γ isLowered
  | .assign _ target value => by
    rw [Node.sites, Node.sites, List.any_append, List.any_append, target.any_isObject, value.any_isObject]
  | .function _ name params body isDeclaration scope => by
    rw [Node.sites, Node.sites, List.any_cons, List.any_cons, any_isObject_sitesAll _ _ body,
      any_isObject_sitesAll [_] false body]
    rfl
  | .object _ properties => any_isObject_sitesOfProperties Γ isLowered properties
  | .delete _ target => target.any_isObject Γ isLowered
  | .var _ _ init => any_isObject_sites? Γ isLowered init
  | .ret _ value => any_isObject_sites? Γ isLowered value
  | .cond _ condition thenBranch elseBranch => by
    rw [Node.sites, Node.sites, List.any_append, List.any_append, List.any_append, List.any_append,
      condition.any_isObject, thenBranch.any_isObject, any_isObject_sites? _ _ elseBranch]
  | .loop _ condition body => by
    rw [Node.sites, Node.sites, List.any_append, List.any_append, condition.any_isObject, body.any_isObject]
  | .block _ statements => any_isObject_sitesAll Γ isLowered statements
  | .withObject _ object body => by
    rw [Node.sites, Node.sites, List.any_append, List.any_append, List.any_cons, List.any_cons]
    simp [Site.isObject]
  | .throw _ value => value.any_isObject Γ isLowered
  | .tryCatch _ guarded none handler => by
    rw [Node.sites, Node.sites, List.any_append, List.any_append, guarded.any_isObject, handler.any_isObject]
  | .tryCatch _ guarded (some x) handler => by
    rw [Node.sites, Node.sites, List.any_append, List.any_append, List.any_cons, List.any_cons,
      guarded.any_isObject, handler.any_isObject]
    rfl
  | .literal .. | .dynamic .. | .this _ => rfl

/-- Whether nodes have a `with` statement in them does not depend on what is seen from them. -/
theorem any_isObject_sitesAll (Γ : List Level) (isLowered : Bool) : ∀ ns : List Node,
    (sitesAll Γ isLowered ns).any Site.isObject = (sitesAll [] false ns).any Site.isObject
  | [] => rfl
  | n :: rest => by
    rw [sitesAll, sitesAll, List.any_append, List.any_append, n.any_isObject,
      any_isObject_sitesAll _ _ rest]

/-- Whether a node that may be missing has a `with` statement in it does not depend on what is seen from
it. -/
theorem any_isObject_sites? (Γ : List Level) (isLowered : Bool) : ∀ n : Option Node,
    (sites? Γ isLowered n).any Site.isObject = (sites? [] false n).any Site.isObject
  | none => rfl
  | some n => n.any_isObject Γ isLowered

/-- Whether values of properties have a `with` statement in them does not depend on what is seen from
them. -/
theorem any_isObject_sitesOfProperties (Γ : List Level) (isLowered : Bool) : ∀ ps : List (String × Node),
    (sitesOfProperties Γ isLowered ps).any Site.isObject = (sitesOfProperties [] false ps).any Site.isObject
  | [] => rfl
  | (_, value) :: rest => by
    rw [sitesOfProperties, sitesOfProperties, List.any_append, List.any_append, value.any_isObject,
      any_isObject_sitesOfProperties _ _ rest]

end

/-! ## Scopes that are marked -/

namespace ScopeTable

/-- There are the same scopes, and the same of them are marked. -/
structure SameMarks (t t' : ScopeTable) : Prop where
  /-- As many scopes are there. -/
  size : t'.scopes.size = t.scopes.size
  /-- The same are marked. -/
  dynamic : ∀ s, (t'.scope s).isDynamic = (t.scope s).isDynamic

namespace SameMarks

variable {t t' t'' : ScopeTable}

/-- Nothing happens. -/
theorem refl (t : ScopeTable) : t.SameMarks t := ⟨rfl, fun _ => rfl⟩

/-- One change after the other. -/
theorem trans (h : t.SameMarks t') (h' : t'.SameMarks t'') : t.SameMarks t'' :=
  ⟨h'.size.trans h.size, fun s => (h'.dynamic s).trans (h.dynamic s)⟩

/-- A variable is added. -/
theorem insert (t : ScopeTable) (V : Variable) : t.SameMarks (t.insert V).2 :=
  ⟨Array.size_modify .., view_insert Scope.isDynamic (fun _ _ _ => rfl) V⟩

/-- A name is declared. -/
theorem declare (t : ScopeTable) (s : ScopeId) (name : String) : t.SameMarks (t.declare s name).2 := by
  rw [ScopeTable.declare]
  split
  · exact .refl t
  · exact .insert t _

/-- Something is noted about variables. -/
theorem of_hints (h : t.Hints t') : t.SameMarks t' :=
  ⟨congrArg Array.size h.scopes, fun s => by rw [scope, h.scopes, scope]⟩

/-- Names are declared one after the other. -/
theorem of_declared {s : ScopeId} {names : List String} (h : Declared s names t t') : t.SameMarks t' := by
  induction h with
  | nil t => exact .refl t
  | note hhints _ ih => exact (of_hints hhints).trans ih
  | cons _ ih => exact (declare _ _ _).trans ih

/-- The use of a variable is noted in scopes. -/
theorem capture (t : ScopeTable) (v : VarId) (scopes : List ScopeId) : t.SameMarks (t.capture v scopes) := by
  refine ⟨size_foldl_modifyScope _ scopes, fun s => ?_⟩
  exact view_foldl_modifyScope (f := fun S => { S with captures := S.captures.insert v }) Scope.isDynamic
    (fun _ => rfl) scopes s

/-- A name is resolved. -/
theorem resolve (t : ScopeTable) (s : ScopeId) (name : String) : t.SameMarks (t.resolve s name).2 := by
  rw [ScopeTable.resolve]
  split
  · exact .insert t _
  · simp only
    split
    · exact .refl t
    · exact (capture t _ _).trans ⟨rfl, fun _ => rfl⟩

/-- A binding is closed. -/
theorem closeBinding (t : ScopeTable) (s : ScopeId) (name : String) (shadowed : Option VarId) :
    t.SameMarks (t.closeBinding s name shadowed) :=
  ⟨Array.size_modify .., view_closeBinding Scope.isDynamic (fun _ _ => rfl) s name shadowed⟩

end SameMarks

/-- **A function is entered**: it has the one new scope, which is marked in a `with` body. What is around it
is marked already then. -/
theorem enter_marks {c : Place} {t : ScopeTable} (h : t.Rooted) (hc : c.scope.index < t.scopes.size)
    (hdynamic : 0 < c.depth → (t.scope c.scope).isDynamic = true) (label : String) :
    (t.enter c label).scopes.size = t.scopes.size + 1 ∧ ∀ s : ScopeId, ((t.enter c label).scope s).isDynamic =
      if s.index = t.scopes.size then decide (0 < c.depth) else (t.scope s).isDynamic := by
  have hsize : (t.pushScope c.scope label).2.scopes.size = t.scopes.size + 1 := Array.size_push ..
  have hpush := scope_pushScope (t := t) c.scope label
  rw [enter]
  split
  · next hdepth =>
    have hgrows := grows_pushScope h hc label (N := fun _ _ => False)
    have hinside : (⟨t.scopes.size⟩ : ScopeId).index < (t.pushScope c.scope label).2.scopes.size :=
      hsize ▸ Nat.lt_succ_self _
    have hmarked := hgrows.rooted.isDynamic_markDynamic hinside
    have hchain : (t.pushScope c.scope label).2.chain ⟨t.scopes.size⟩ = ⟨t.scopes.size⟩ :: t.chain c.scope := by
      rw [hgrows.rooted.valid.nested.chain_eq hinside, hpush, if_pos rfl]
      exact congrArg (List.cons _) (hgrows.ext.chain_eq h hgrows.rooted hc)
    refine ⟨(size_foldl_modifyScope _ _).trans hsize, fun s => ?_⟩
    by_cases hs : s.index = t.scopes.size
    · obtain rfl : s = ⟨t.scopes.size⟩ := by cases s; simp_all
      rw [if_pos hs, decide_eq_true hdepth]
      exact (hmarked _).mpr (.inr (hgrows.rooted.self_mem_chain hinside))
    · rw [if_neg hs, Bool.eq_iff_iff, hmarked, hpush, if_neg hs]
      refine ⟨fun hor => hor.elim id fun hmem => ?_, .inl⟩
      -- What is around the function lies on the chain of the place.
      rw [hchain] at hmem
      obtain rfl | hmem := List.mem_cons.mp hmem
      · exact absurd rfl hs
      · exact h.dynamic_chain hc (hdynamic hdepth) hmem
  · next hdepth =>
    refine ⟨hsize, fun s => ?_⟩
    rw [hpush]
    split
    · exact (decide_eq_false hdepth).symm
    · rfl

end ScopeTable

/-- The scopes that a walk in a scope adds and marks: a new scope is that of a function among the sites, and
it is marked only for a `with` body around it or a `with` statement in it; a scope that was there is marked
only if the walk is in it or in a function inside it, and comes by a `with` statement. -/
structure Marked (s : ScopeId) (t t' : ScopeTable) (sites : List Site) : Prop where
  /-- The new scopes are those of functions. -/
  covered : ∀ i, t.scopes.size ≤ i → i < t'.scopes.size → i ∈ sites.filterMap Site.scopeIndex?
  /-- The scopes that were there. -/
  old : ∀ id : ScopeId, id.index < t.scopes.size → (t'.scope id).isDynamic = true →
    (t.scope id).isDynamic = true ∨ id ∈ t.chain s ∧ sites.any Site.isObject = true
  /-- The scopes of functions. -/
  new : ∀ Γ L isLowered body, .function Γ L isLowered body ∈ sites → (t'.scope L.scope).isDynamic = true →
    (isLowered || hasWith body) = true

namespace Marked

variable {s : ScopeId} {t t₁ t' : ScopeTable} {sites sites' : List Site}

/-- Nothing is marked. -/
theorem of_same (h : t.SameMarks t') : Marked s t t' [] :=
  ⟨fun _ hle hlt => absurd (h.size ▸ hlt) (Nat.not_lt.mpr hle), fun id _ hd => .inl (h.dynamic id ▸ hd),
    fun _ _ _ _ hsite => absurd hsite List.not_mem_nil⟩

/-- **One walk after the other**: the second one cannot mark what the first one has added. -/
theorem append (h : Marked s t t₁ sites) (h' : Marked s t₁ t' sites') (ht : t.Rooted) (ht₁ : t₁.Rooted)
    (hext : t.Extends t₁) (hs : s.index < t.scopes.size)
    (hscopes : Ascends t.scopes.size t₁.scopes.size (sites.filterMap Site.scopeIndex?)) :
    Marked s t t' (sites ++ sites') := by
  have hchain := hext.chain_eq ht ht₁ hs
  refine ⟨fun i hle hlt => ?_, fun id hid hd => ?_, fun Γ L isLowered body hsite hd => ?_⟩
  · rw [List.filterMap_append, List.mem_append]
    obtain hlt₁ | hle₁ := Nat.lt_or_ge i t₁.scopes.size
    · exact .inl (h.covered i hle hlt₁)
    · exact .inr (h'.covered i hle₁ hlt)
  · rw [List.any_append, Bool.or_eq_true]
    obtain hd | ⟨hmem, hwith⟩ := h'.old id (hext.size_le hid) hd
    · exact (h.old id hid hd).imp_right fun hor => ⟨hor.1, .inl hor.2⟩
    · exact .inr ⟨hchain ▸ hmem, .inr hwith⟩
  · obtain hsite | hsite := List.mem_append.mp hsite
    · obtain ⟨hle, hlt⟩ := hscopes.bounds L.scope.index (List.mem_filterMap.mpr ⟨_, hsite, rfl⟩)
      obtain hd | ⟨hmem, -⟩ := h'.old L.scope hlt hd
      · exact h.new Γ L isLowered body hsite hd
      · exact absurd (ht.mem_chain_lt hs (hchain ▸ hmem)) (Nat.not_lt.mpr hle)
    · exact h'.new Γ L isLowered body hsite hd

/-- A walk with something before and behind it that marks nothing. -/
theorem within {t₀ t'' : ScopeTable} (h : Marked s t t' sites) (hbefore : t₀.SameMarks t)
    (hbehind : t'.SameMarks t'') (hchain : t.chain s = t₀.chain s) : Marked s t₀ t'' sites := by
  refine ⟨fun i hle hlt => ?_, fun id hid hd => ?_, fun Γ L isLowered body hsite hd => ?_⟩
  · exact h.covered i (hbefore.size ▸ hle) (hbehind.size ▸ hlt)
  · rw [← hbefore.dynamic, ← hchain]
    exact h.old id (hbefore.size ▸ hid) (hbehind.dynamic id ▸ hd)
  · exact h.new Γ L isLowered body hsite (hbehind.dynamic L.scope ▸ hd)

/-- A site that is no function adds no scope. -/
theorem cons {site : Site} (h : Marked s t t' sites) (hsite : site.scopeIndex? = none) :
    Marked s t t' (site :: sites) := by
  refine ⟨fun i hle hlt => ?_, fun id hid hd => (h.old id hid hd).imp_right fun hor => ⟨hor.1, ?_⟩,
    fun Γ L isLowered body hmem hd => ?_⟩
  · rw [List.filterMap_cons_none hsite]
    exact h.covered i hle hlt
  · rw [List.any_cons, hor.2, Bool.or_true]
  · obtain rfl | hmem := List.mem_cons.mp hmem
    · cases hsite
    · exact h.new Γ L isLowered body hmem hd

/-- **The body of a `with` statement**: before it, the scopes around are marked. -/
theorem object (h : Marked s (t.markDynamic s) t' sites) (ht : t.Rooted) (hs : s.index < t.scopes.size)
    (Γ : List Level) : Marked s t t' (.object Γ :: sites) := by
  have hsize : (t.markDynamic s).scopes.size = t.scopes.size := ScopeTable.size_foldl_modifyScope _ _
  have hgrows := ScopeTable.grows_markDynamic ht hs (N := fun _ _ => False)
  refine ⟨fun i hle hlt => h.covered i (hsize ▸ hle) hlt, fun id hid hd => ?_, (h.cons rfl).new⟩
  obtain hd | ⟨hmem, -⟩ := h.old id (hsize ▸ hid) hd
  · exact ((ht.isDynamic_markDynamic hs id).mp hd).imp_right fun hmem => ⟨hmem, rfl⟩
  · exact .inr ⟨hgrows.ext.chain_eq ht hgrows.rooted hs ▸ hmem, rfl⟩

/-- **A function**: its scope is new, and what is marked on the way out from it is marked already, or for a
`with` statement in its body. -/
theorem function {c : Place} {t₃ : ScopeTable} {label : String} {L : Level} {isLowered : Bool}
    {body : List Node} (ht : t.Rooted) (hc : c.scope.index < t.scopes.size)
    (hdynamic : 0 < c.depth → (t.scope c.scope).isDynamic = true) (hs : L.scope = ⟨t.scopes.size⟩)
    (henter : (t.enter c label).SameMarks t₃) (hchain : t₃.chain L.scope = L.scope :: t.chain c.scope)
    (hbody : Marked L.scope t₃ t' sites) (hwith : sites.any Site.isObject = hasWith body)
    (hlowered : isLowered = decide (0 < c.depth)) (Γ : List Level) :
    Marked c.scope t t' (.function Γ L isLowered body :: sites) := by
  obtain ⟨hsize, hmarks⟩ := ScopeTable.enter_marks ht hc hdynamic label
  have hsize₃ : t₃.scopes.size = t.scopes.size + 1 := henter.size.trans hsize
  have hindex : L.scope.index = t.scopes.size := congrArg ScopeId.index hs
  refine ⟨fun i hle hlt => ?_, fun id hid hd => ?_, fun Γ' L' isLowered' body' hsite hd => ?_⟩
  · rw [List.filterMap_cons, Site.scopeIndex?, List.mem_cons]
    obtain heq | hlt' := Nat.eq_or_lt_of_le hle
    · exact .inl (heq.symm.trans hindex.symm)
    · exact .inr (hbody.covered i (hsize₃ ▸ hlt') hlt)
  · have hother : id.index ≠ t.scopes.size := Nat.ne_of_lt hid
    obtain hd | ⟨hmem, hany⟩ := hbody.old id (by omega) hd
    · rw [henter.dynamic, hmarks, if_neg hother] at hd
      exact .inl hd
    · rw [hchain] at hmem
      obtain rfl | hmem := List.mem_cons.mp hmem
      · exact absurd hindex hother
      · exact .inr ⟨hmem, hany⟩
  · obtain heq | hsite := List.mem_cons.mp hsite
    · cases heq
      rw [Bool.or_eq_true]
      obtain hd | ⟨-, hany⟩ := hbody.old L.scope (by omega) hd
      · rw [henter.dynamic, hmarks, if_pos hindex] at hd
        exact .inl (hlowered.trans hd)
      · exact .inr (hwith ▸ hany)
    · exact hbody.new Γ' L' isLowered' body' hsite hd

end Marked

/-- **Walks mark what they should** and nothing else. -/
theorem Analyzes.marked {c : Place} {t t' : ScopeTable} {ns ns' : List Node} (h : Analyzes c t ns t' ns')
    (ht : t.Rooted) (hc : c.scope.index < t.scopes.size)
    (hdynamic : 0 < c.depth → (t.scope c.scope).isDynamic = true) {isLowered : Bool}
    (hlowered : isLowered = decide (0 < c.depth)) (Γ : List Level) :
    Marked c.scope t t' (sitesAll Γ isLowered ns') := by
  induction h generalizing Γ isLowered with
  | nil c t => exact .of_same (.refl t)
  | cons hfirst hrest ih ih' =>
    have hgrows := hfirst.grows ht hc
    have hone := ih ht hc hdynamic hlowered Γ
    have hnumbered := hfirst.numbered ht hc Γ isLowered
    rw [sitesAll_singleton] at hone hnumbered
    refine hone.append ?_ ht hgrows.rooted hgrows.ext hc hnumbered.scopes
    exact ih' hgrows.rooted (hgrows.ext.size_le hc) (fun hdepth => hgrows.dynamic _ (hdynamic hdepth))
      hlowered Γ
  | neutral i hn hlength hparts hhints ih =>
    obtain ⟨hrebuilt, hneutral⟩ := Node.parts_rebuild i hn hlength
    rw [sitesAll_singleton, Node.sites_of_neutral Γ isLowered hneutral, hrebuilt]
    exact (ih ht hc hdynamic hlowered Γ).within (.refl _) (.of_hints hhints) rfl
  | folded i l _ _ hps hhints ih =>
    have hparts := ih ht hc hdynamic hlowered Γ
    rw [sitesAll_of_numbers hps] at hparts
    exact hparts.within (.refl _) (.of_hints hhints) rfl
  | lowered t => exact .of_same (.refl t)
  | definition t i i' hx =>
    rw [sitesAll_singleton, Node.sites, if_pos hx]
    exact .of_same (.declare t _ _)
  | reference t i i' hx =>
    rw [sitesAll_singleton, Node.sites, if_neg (by simp [hx])]
    exact (Marked.of_same (.resolve t _ _)).cons rfl
  | @var c t t₁ t₂ i i' x init init' _ hinit hhints ih =>
    have hdeclare := ScopeTable.grows_declare ht hc x.name
    rw [sitesAll_singleton, Node.sites, sites?_eq]
    refine (ih hdeclare.rooted (hdeclare.ext.size_le hc)
      (fun hdepth => hdeclare.dynamic _ (hdynamic hdepth)) hlowered Γ).within (.declare t _ _)
      (.of_hints hhints) ?_
    exact hdeclare.ext.chain_eq ht hdeclare.rooted hc
  | @function c t t₁ t₂ t₃ t₄ t₅ i i' name name' params params' body body' isDeclaration scope label s
      _ houter hs hparams hinner hname hbody hhints ih =>
    have hgrown := (houter.grows ht hc).1
    have hc₁ := hgrown.ext.size_le hc
    have hdynamic₁ : 0 < c.depth → (t₁.scope c.scope).isDynamic = true :=
      fun hdepth => hgrown.dynamic _ (hdynamic hdepth)
    obtain ⟨hstart, hparams'⟩ := ScopeTable.starts hgrown.rooted hc₁ hs hparams hinner
    have henter : (t₁.enter c label).SameMarks t₃ := by
      have hdeclared := (ScopeTable.declared_parameters (t₁.enter c label) s params).1
      rw [hparams] at hdeclared
      exact .of_declared (hdeclared.append hinner)
    have hchain : t₃.chain s = s :: t₁.chain c.scope := by
      rw [hstart.grows.rooted.valid.nested.chain_eq hstart.inside, hstart.parent]
      exact congrArg (List.cons s) (hstart.grows.ext.chain_eq hgrown.rooted hstart.grows.rooted hc₁)
    rw [sitesAll_singleton, Node.sites, hbody.names_eq hname.same hparams']
    refine (Marked.function (L := ⟨s, [], params.map Identifier.name ++ innerNames name body isDeclaration⟩)
      hgrown.rooted hc₁ hdynamic₁ hs henter hchain
      (ih hstart.grows.rooted hstart.inside hstart.dynamic hlowered _) (any_isObject_sitesAll _ _ _)
      hlowered Γ).within (.of_declared houter) (.of_hints hhints) ?_
    exact hgrown.ext.chain_eq ht hgrown.rooted hc
  | withObject i i' hobject hbody iho ihb =>
    have hgrows := hobject.grows ht hc
    have hc₁ := hgrows.ext.size_le hc
    have hmark := ScopeTable.grows_markDynamic hgrows.rooted hc₁ (N := fun _ _ => False)
    have hone := iho ht hc hdynamic hlowered Γ
    have hnumbered := hobject.numbered ht hc Γ isLowered
    have hdepth : true = decide (0 < c.inWith.depth) := (decide_eq_true (Nat.succ_pos _)).symm
    have htwo := ihb hmark.rooted (hmark.ext.size_le hc₁)
      (fun _ => (hgrows.rooted.isDynamic_markDynamic hc₁ _).mpr (.inr (hgrows.rooted.self_mem_chain hc₁)))
      hdepth Γ
    rw [sitesAll_singleton] at hone hnumbered htwo ⊢
    rw [Node.sites]
    exact hone.append (htwo.object hgrows.rooted hc₁ Γ) ht hgrows.rooted hgrows.ext hc hnumbered.scopes
  | @tryCatch c t t₁ t₂ i i' guarded guarded' handler handler' x _ hguarded hhandler ihb ihh =>
    have hgrows := hguarded.grows ht hc
    have hc₁ := hgrows.ext.size_le hc
    obtain ⟨hopen, hr₂, hc₂, -⟩ := hhandler.catches hgrows.rooted hc₁
    have hsame : t₁.SameMarks (t₁.openBinding c.scope x.name).2 := .insert t₁ _
    have hdynamic₂ : 0 < c.depth → ((t₁.openBinding c.scope x.name).2.scope c.scope).isDynamic = true := by
      intro hdepth
      rw [hsame.dynamic]
      exact hgrows.dynamic _ (hdynamic hdepth)
    have hone := ihb ht hc hdynamic hlowered Γ
    have hnumbered := hguarded.numbered ht hc Γ isLowered
    have htwo := ihh hr₂ hc₂ hdynamic₂ hlowered
      (Γ.modifyHead (·.catching { x with var := some (t₁.openBinding c.scope x.name).1.1 }))
    rw [sitesAll_singleton] at hone hnumbered htwo ⊢
    rw [Node.sites]
    refine hone.append ((htwo.within hsame (.closeBinding t₂ _ _ _) ?_).cons rfl) ht hgrows.rooted
      hgrows.ext hc hnumbered.scopes
    exact hopen.ext.chain_eq hgrows.rooted hr₂ hc₁

/-! ## Programs -/

/-- What analysis makes of the `with` statements of a program. -/
structure Program.LowersWiths (p p' : Program) (T : ScopeTable) : Prop where
  /-- Each name and each `with` body becomes what it should, in the order in which they stand. -/
  spots : List.Forall₂ (Spot.Becomes T) (spotsAll false p.body) (spotsAll false p'.body)
  /-- The names that are left in `with` bodies are bound there by functions inside. -/
  lowered : ∀ x, .name true x ∈ spotsAll false p'.body → x.isDefinition = true
  /-- The names that are left elsewhere are resolved. -/
  resolved : ∀ x, .name false x ∈ spotsAll false p'.body → ∃ s v, x.var = some v ∧ T.Declares s x.name v
  /-- The body of a `with` statement binds nothing in the function around. -/
  unbound : ∀ n, .body n ∈ spotsAll false p'.body → n.bindings = []
  /-- Every scope is that of the program or of a function in it. -/
  covered : ∀ s : ScopeId, s.index < T.scopes.size →
    s = .global ∨ ∃ Γ L isLowered body, .function Γ L isLowered body ∈ p'.sites ∧ L.scope = s
  /-- The scope of the program is marked exactly if there is a `with` statement anywhere. -/
  program : (T.scope .global).isDynamic = hasWith p'.body
  /-- The scope of a function is marked exactly if it lies in a `with` body or if there is a `with` statement
  in it, or in a function inside it. -/
  function : ∀ Γ L isLowered body, .function Γ L isLowered body ∈ p'.sites →
    (T.scope L.scope).isDynamic = (isLowered || hasWith body)

namespace Analyzer

variable {p p' : Program} {a : Analyzer}

/-- **`with` statements are lowered exactly**, in every program that can be analyzed. In a `with` body, at
whatever depth of functions and `with` statements inside it, every name that is used becomes one that is
looked up at run time, and all others are resolved, also those in the object of a `with` statement that is in
no other; a `with` body binds nothing in the function around; and a scope is marked for lookup by name exactly
if its function lies in a `with` body or has a `with` statement in it, or in a function inside it. -/
theorem program_withs (h : program {} p = (a, p')) (hok : a.failure = none) : p.LowersWiths p' a.table := by
  obtain ⟨t, hdeclared, hwalk⟩ := program_analyzes h hok
  have hscoping := program_scoping h hok
  obtain ⟨hstart, -⟩ := hdeclared.grows ScopeTable.rooted_empty Nat.zero_lt_one
  have hsame := ScopeTable.SameMarks.of_declared hdeclared
  have hsize := hstart.ext.size_le (i := 0) Nat.zero_lt_one
  have houtside : false = decide (0 < (⟨.global, 0, 0⟩ : Place).depth) := rfl
  have hspots := hwalk.spots hstart.rooted hsize houtside
  have hmarked := hwalk.marked hstart.rooted hsize (fun hdepth => absurd hdepth (Nat.lt_irrefl 0)) houtside
    [p.level]
  rw [← hwalk.level_eq] at hmarked
  refine ⟨hspots, fun x hx => ?_, fun x hx => ?_, fun n hn => ?_, fun s hs => ?_, ?_,
    fun Γ L isLowered body hsite => ?_⟩
  · obtain ⟨_, hbecomes⟩ := Spot.exists_becomes hspots hx
    cases hbecomes with
    | bound _ hdefinition => exact hdefinition
  · obtain ⟨_, hbecomes⟩ := Spot.exists_becomes hspots hx
    cases hbecomes with
    | bound _ _ hv | resolved _ hv => exact ⟨_, _, rfl, hv⟩
  · obtain ⟨_, hbecomes⟩ := Spot.exists_becomes hspots hn
    cases hbecomes with
    | body _ hnone => exact hnone
  · obtain hlt | hle := Nat.lt_or_ge s.index t.scopes.size
    · have hzero : s.index = 0 := Nat.lt_one_iff.mp (Nat.lt_of_lt_of_eq hlt hsame.size)
      exact .inl (congrArg ScopeId.mk hzero)
    · obtain ⟨site, hsite, hindex⟩ := List.mem_filterMap.mp (hmarked.covered s.index hle hs)
      cases site with
      | function Γ L isLowered body =>
        exact .inr ⟨Γ, L, isLowered, body, hsite, congrArg ScopeId.mk (Option.some.inj hindex)⟩
      | use | handler | object => cases hindex
  · rw [Bool.eq_iff_iff]
    refine ⟨fun hd => ?_, hscoping.dynamic⟩
    obtain hd | ⟨-, hany⟩ := hmarked.old .global hsize hd
    · rw [hsame.dynamic] at hd
      cases hd
    · exact (any_isObject_sitesAll _ _ _).symm.trans hany
  · rw [Bool.eq_iff_iff]
    exact ⟨hmarked.new Γ L isLowered body hsite, (hscoping.lexical _ hsite).2.2.2.2⟩

end Analyzer

/-- A program with a function in the body of a `with` statement, and one outside that has none. -/
def withAround : Program :=
  ⟨[.withObject .none (.identifier .none (.reference "o"))
      (.block .none [.function .none none [.definition "x"]
        [.var .none (.definition "y") (some (.identifier .none (.reference "x"))),
          .identifier .none (.reference "o")] false none]),
    .function .none (some (.definition "f")) [] [.identifier .none (.reference "o")] true none], none, false⟩

/-- The name that is looked up at a spot. -/
def Spot.lookedUp? : Spot → Option String
  | .dynamic _ m => some m
  | _ => none

/-- The two names in the function in the `with` body are looked up at run time, and the other two are not. -/
theorem Analyzer.program_withs_withAround :
    ∃ a p, Analyzer.program {} withAround = (a, p) ∧
      (spotsAll false p.body).filterMap Spot.lookedUp? = ["x", "o"] ∧ withAround.LowersWiths p a.table := by
  have hnames : (spotsAll false (program {} withAround).2.body).filterMap Spot.lookedUp? = ["x", "o"] := by
    decide +kernel
  have hok : (program {} withAround).1.failure = none := by decide +kernel
  rcases h : program {} withAround with ⟨a, p⟩
  rw [h] at hnames hok
  exact ⟨a, p, rfl, hnames, program_withs h hok⟩

end ScriptEngine
