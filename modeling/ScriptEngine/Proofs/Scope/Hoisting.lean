import ScriptEngine.Proofs.Scope.Binders

/-!
# Declared functions

The functions that a body declares are visible in all of it. What that means for a name that is used depends on
which variable a declaration binds.

* `Declaration` is a function that a body declares, and `Node.declarations` lists them with the same reach as
  hoisting.
* `Declaration.Bound` says which variable a declaration binds: that of its scope, unless it stands in a
  handler that catches under its name; then the handler's.
* `Program.HasBody` lists the bodies of a program, and `Program.Hoisted` says what holds of each.

The main statements are `Analyzer.program_hoisted` and `Program.Hoisted.reference`.
-/

namespace ScriptEngine

/-! ## Declarations -/

/-- A function that a body declares. -/
structure Declaration where
  /-- The parameters of the handlers of the body around it, the innermost first. -/
  handlers : List Identifier
  /-- The name. -/
  name : Identifier
  /-- The parameters. -/
  params : List Identifier
  /-- The statements. -/
  body : List Node
  /-- The scope. -/
  scope : Option ScopeId

/-- The parameter of the innermost handler around it that catches under its name. -/
def Declaration.caught? (d : Declaration) : Option Identifier := d.handlers.find? fun y => y.name == d.name.name

mutual

/-- The functions that a statement declares for the function around it, which has handlers around the
statement. -/
def Node.declarations (handlers : List Identifier) : Node → List Declaration
  | .function _ name params body isDeclaration scope =>
    match isDeclaration, name with
    | true, some x => [⟨handlers, x, params, body, scope⟩]
    | _, _ => []
  | .block _ statements => declarationsAll handlers statements
  | .cond _ _ thenBranch elseBranch =>
    thenBranch.declarations handlers ++ declarations? handlers elseBranch
  | .loop _ _ body => body.declarations handlers
  | .tryCatch _ guarded param handler =>
    guarded.declarations handlers ++ handler.declarations (param.toList ++ handlers)
  | _ => []

/-- The functions that statements declare. -/
def declarationsAll (handlers : List Identifier) : List Node → List Declaration
  | [] => []
  | n :: rest => n.declarations handlers ++ declarationsAll handlers rest

/-- The functions that a statement declares, if there is one. -/
def declarations? (handlers : List Identifier) : Option Node → List Declaration
  | none => []
  | some n => n.declarations handlers

end

section

variable (handlers : List Identifier)

/-- The declarations of one statement. -/
theorem declarationsAll_singleton (n : Node) : declarationsAll handlers [n] = n.declarations handlers := by
  rw [declarationsAll, declarationsAll, List.append_nil]

/-- **A neutral node** declares nothing but what its parts do. -/
theorem Node.declarations_of_neutral {n : Node} (hn : n.isNeutral = true) :
    n.declarations handlers ⊆ declarationsAll handlers n.parts := by
  cases n with
  | identifier | function | var | withObject => cases hn
  | block i statements => exact List.Subset.refl _
  | cond i condition thenBranch elseBranch =>
    cases elseBranch with
    | none =>
      simp only [declarations, declarations?, parts, declarationsAll, Option.toList_none, List.append_nil]
      exact List.subset_append_right ..
    | some n =>
      simp only [declarations, declarations?, parts, declarationsAll, Option.toList_some, List.append_nil]
      exact List.subset_append_right ..
  | loop i condition body =>
    simp only [declarations, parts, declarationsAll, List.append_nil]
    exact List.subset_append_right ..
  | tryCatch i guarded param handler =>
    cases param with
    | some x => cases hn
    | none => simp [declarations, parts, declarationsAll]
  | literal | dynamic | this | call | member | binary | unary | assign | object | delete | ret | throw =>
    exact List.nil_subset _

end

mutual

/-- **A declared name is hoisted.** -/
theorem Node.name_mem_hoistedNames {handlers : List Identifier} {d : Declaration} (names : Array String) :
    ∀ n : Node, d ∈ n.declarations handlers → d.name.name ∈ n.hoistedNames names
  | .function _ name _ _ isDeclaration _, hd => by
    cases isDeclaration with
    | false => cases hd
    | true =>
      cases name with
      | none => cases hd
      | some x =>
        rw [List.mem_singleton.mp hd]
        exact Array.mem_push_self
  | .block _ statements, hd => name_mem_hoistedNamesOf names statements hd
  | .cond _ _ thenBranch elseBranch, hd => by
    rw [Node.hoistedNames]
    obtain hd | hd := List.mem_append.mp hd
    · have hfound := thenBranch.name_mem_hoistedNames names hd
      cases elseBranch with
      | none => exact hfound
      | some n => exact n.mem_hoistedNames hfound
    · cases elseBranch with
      | none => cases hd
      | some n => exact n.name_mem_hoistedNames _ hd
  | .loop _ _ body, hd => body.name_mem_hoistedNames names hd
  | .tryCatch _ guarded _ handler, hd => by
    obtain hd | hd := List.mem_append.mp hd
    · exact handler.mem_hoistedNames (guarded.name_mem_hoistedNames names hd)
    · exact handler.name_mem_hoistedNames _ hd
  | .literal .., hd | .identifier .., hd | .dynamic .., hd | .this _, hd | .call .., hd | .member .., hd
  | .binary .., hd | .unary .., hd | .assign .., hd | .object .., hd | .delete .., hd | .var .., hd
  | .ret .., hd | .withObject .., hd | .throw .., hd => nomatch hd

/-- Names that statements declare are hoisted. -/
theorem name_mem_hoistedNamesOf {handlers : List Identifier} {d : Declaration} (names : Array String) :
    ∀ ns : List Node, d ∈ declarationsAll handlers ns → d.name.name ∈ hoistedNamesOf names ns
  | n :: rest, hd => by
    obtain hd | hd := List.mem_append.mp hd
    · exact mem_hoistedNamesOf rest (n.name_mem_hoistedNames names hd)
    · exact name_mem_hoistedNamesOf _ rest hd

end

mutual

/-- **The handlers around a declaration** have sites. -/
theorem Node.handler_mem_sites {handlers : List Identifier} {d : Declaration} {y : Identifier}
    (hy : y ∈ d.handlers) (Γ : List Level) (isLowered : Bool) :
    ∀ n : Node, d ∈ n.declarations handlers → y ∈ handlers ∨ ∃ Γ', .handler Γ' y ∈ n.sites Γ isLowered
  | .function _ name _ _ isDeclaration _, hd => by
    cases isDeclaration with
    | false => cases hd
    | true =>
      cases name with
      | none => cases hd
      | some x =>
        rw [List.mem_singleton.mp hd] at hy
        exact .inl hy
  | .block _ statements, hd => handler_mem_sitesAll hy Γ isLowered statements hd
  | .cond _ _ thenBranch elseBranch, hd => by
    obtain hd | hd := List.mem_append.mp hd
    · refine (thenBranch.handler_mem_sites hy Γ isLowered hd).imp_right fun ⟨Γ', hmem⟩ => ⟨Γ', ?_⟩
      exact List.mem_append_right _ (List.mem_append_left _ hmem)
    · cases elseBranch with
      | none => cases hd
      | some n =>
        refine (n.handler_mem_sites hy Γ isLowered hd).imp_right fun ⟨Γ', hmem⟩ => ⟨Γ', ?_⟩
        exact List.mem_append_right _ (List.mem_append_right _ hmem)
  | .loop _ _ body, hd => by
    refine (body.handler_mem_sites hy Γ isLowered hd).imp_right fun ⟨Γ', hmem⟩ => ⟨Γ', ?_⟩
    exact List.mem_append_right _ hmem
  | .tryCatch _ guarded none handler, hd => by
    obtain hd | hd := List.mem_append.mp hd
    · refine (guarded.handler_mem_sites hy Γ isLowered hd).imp_right fun ⟨Γ', hmem⟩ => ⟨Γ', ?_⟩
      exact List.mem_append_left _ hmem
    · refine (handler.handler_mem_sites hy Γ isLowered hd).imp_right fun ⟨Γ', hmem⟩ => ⟨Γ', ?_⟩
      exact List.mem_append_right _ hmem
  | .tryCatch _ guarded (some x) handler, hd => by
    obtain hd | hd := List.mem_append.mp hd
    · refine (guarded.handler_mem_sites hy Γ isLowered hd).imp_right fun ⟨Γ', hmem⟩ => ⟨Γ', ?_⟩
      exact List.mem_append_left _ hmem
    · -- The innermost handler is this one, and the others are around it.
      obtain hy | ⟨Γ', hmem⟩ := handler.handler_mem_sites hy (Γ.modifyHead (·.catching x)) isLowered hd
      · obtain rfl | hy := List.mem_cons.mp hy
        · exact .inr ⟨Γ, List.mem_append_right _ List.mem_cons_self⟩
        · exact .inl hy
      · exact .inr ⟨Γ', List.mem_append_right _ (List.mem_cons_of_mem _ hmem)⟩
  | .literal .., hd | .identifier .., hd | .dynamic .., hd | .this _, hd | .call .., hd | .member .., hd
  | .binary .., hd | .unary .., hd | .assign .., hd | .object .., hd | .delete .., hd | .var .., hd
  | .ret .., hd | .withObject .., hd | .throw .., hd => nomatch hd

/-- The handlers around what statements declare have sites. -/
theorem handler_mem_sitesAll {handlers : List Identifier} {d : Declaration} {y : Identifier}
    (hy : y ∈ d.handlers) (Γ : List Level) (isLowered : Bool) :
    ∀ ns : List Node, d ∈ declarationsAll handlers ns →
      y ∈ handlers ∨ ∃ Γ', .handler Γ' y ∈ sitesAll Γ isLowered ns
  | n :: rest, hd => by
    obtain hd | hd := List.mem_append.mp hd
    · refine (n.handler_mem_sites hy Γ isLowered hd).imp_right fun ⟨Γ', hmem⟩ => ⟨Γ', ?_⟩
      exact List.mem_append_left _ hmem
    · refine (handler_mem_sitesAll hy Γ isLowered rest hd).imp_right fun ⟨Γ', hmem⟩ => ⟨Γ', ?_⟩
      exact List.mem_append_right _ hmem

end

/-- **What a declaration binds** in the scope of the body: the variable of the innermost handler around it
that catches under its name, and if there is none the variable that the name stands for in the scope. -/
def Declaration.Bound (T : ScopeTable) (s : ScopeId) (d : Declaration) : Prop :=
  ∃ v, d.name.var = some v ∧ T.Declares s d.name.name v ∧
    match d.caught? with
    | some y => y.var = some v
    | none => (T.scope s).own? d.name.name = some v

/-- **Analysis gives a declaration** the variable that its name stands for where it is written. -/
theorem Agrees.bound {Γ : List Level} {c : Place} {t t₁ t' T : ScopeTable} (hΓ : Agrees Γ c t) {x : Identifier}
    (hx : x.var = some (t.declare c.scope x.name).1) (hhints : (t.declare c.scope x.name).2.Hints t₁)
    {N : ScopeId → BoundName → Prop} (hgrows : t₁.Grows N t') (hT : Final Γ t' T) {handlers : List Identifier}
    (hhandlers : ∀ L ∈ Γ.head?, L.caught = handlers) (params : List Identifier) (body : List Node)
    (scope : Option ScopeId) : Declaration.Bound T c.scope ⟨handlers, x, params, body, scope⟩ := by
  obtain ⟨L, Γ', rfl, hscope⟩ := hΓ.head
  obtain rfl := hhandlers L rfl
  obtain ⟨-, hdeclares⟩ := ScopeTable.leads_declare hΓ.rooted.valid hΓ.inside x.name
  have hdeclared := (ScopeTable.grows_declare hΓ.rooted hΓ.inside x.name).rooted
  have hnoted := hhints.grows hdeclared (N := fun _ _ => False)
  refine ⟨_, hx, hdeclares.mono ((hnoted.ext.trans hgrows.ext).trans hT.ext), ?_⟩
  show match L.caught? x.name with
    | some y => y.var = some (t.declare c.scope x.name).1
    | none => (T.scope c.scope).own? x.name = some (t.declare c.scope x.name).1
  split
  · next y hcaught =>
    -- The name stands for what is caught, and is not declared once more.
    obtain ⟨v, hv, hown⟩ := hΓ.caught L List.mem_cons_self x.name y hcaught
    rw [hscope] at hown
    rw [ScopeTable.declare, hown]
    exact hv
  · next hnone =>
    refine hT.kept c.scope x.name _ (fun L' hL' hL's => ?_) (hgrows.own _ _ _ ?_)
    · rw [List.inj_on_of_nodup_map hΓ.nodup hL' List.mem_cons_self (hL's.trans hscope.symm)]
      exact hnone
    · rw [ScopeTable.scope, hhints.scopes, ← ScopeTable.scope, ScopeTable.own?_declare hΓ.inside,
        if_pos ⟨rfl, rfl⟩]

/-- **The declarations of a walk** are bound as they should be. -/
theorem Analyzes.declarations {c : Place} {t t' : ScopeTable} {ns ns' : List Node} (h : Analyzes c t ns t' ns')
    {Γ : List Level} (hΓ : Agrees Γ c t) {T : ScopeTable} (hT : Final Γ t' T) {handlers : List Identifier}
    (hhandlers : ∀ L ∈ Γ.head?, L.caught = handlers) :
    ∀ d ∈ declarationsAll handlers ns', d.Bound T c.scope := by
  induction h generalizing Γ handlers with
  | nil => exact fun d hd => absurd hd List.not_mem_nil
  | cons hfirst hrest ih ih' =>
    have hΓ₁ := hΓ.grows (hfirst.grows hΓ.rooted hΓ.inside)
    have hone := ih hΓ (hT.of_grows hΓ₁ (hrest.grows hΓ₁.rooted hΓ₁.inside)) hhandlers
    rw [declarationsAll_singleton] at hone
    exact List.forall_mem_append.mpr ⟨hone, ih' hΓ₁ hT hhandlers⟩
  | neutral i hn hlength hparts hhints ih =>
    obtain ⟨hrebuilt, hneutral⟩ := Node.parts_rebuild i hn hlength
    have hΓ₁ := hΓ.grows (hparts.grows hΓ.rooted hΓ.inside)
    have hall := ih hΓ (hT.of_grows (B := []) hΓ₁ (hhints.grows hΓ₁.rooted)) hhandlers
    rw [declarationsAll_singleton]
    intro d hd
    have hd := Node.declarations_of_neutral handlers hneutral hd
    rw [hrebuilt] at hd
    exact hall d hd
  | folded | lowered | definition | reference | var | withObject =>
    exact fun d hd => absurd hd List.not_mem_nil
  | @function c t t₁ t₂ t₃ t₄ t₅ i i' name name' params params' body body' isDeclaration scope label s
      _ houter hs hparams hinner hname hbody hhints =>
    have hΓ₁ := hΓ.grows (houter.grows hΓ.rooted hΓ.inside).1
    obtain ⟨hstart, -⟩ := ScopeTable.starts hΓ₁.rooted hΓ₁.inside hs hparams hinner
    have hgrows := hbody.grows hstart.grows.rooted hstart.inside
    have hend : t₁.Grows (fun _ _ => True) t₅ :=
      ((hstart.grows.mono fun _ _ _ _ => trivial).trans (hgrows.mono fun _ _ _ _ => trivial)).trans
        (hhints.grows hgrows.rooted)
    rw [declarationsAll_singleton]
    intro d hd
    cases isDeclaration with
    | false => cases hd
    | true =>
      cases name' with
      | none => cases hd
      | some x =>
        obtain ⟨hx, hdeclared⟩ := hname.declared rfl x rfl
        rw [List.mem_singleton.mp hd]
        exact hΓ.bound hx hdeclared hend hT hhandlers ..
  | @tryCatch c t t₁ t₂ i i' guarded guarded' handler handler' x hc hguarded hhandler ihb ihh =>
    obtain ⟨hT₁, hΓ₂, hT₂⟩ := hT.ofTryCatch hΓ hguarded hhandler
    have hone := ihb hΓ hT₁ hhandlers
    have hhandlers₂ : ∀ L ∈ (Γ.modifyHead
        (·.catching { x with var := some (t₁.openBinding c.scope x.name).1.1 })).head?,
        L.caught = { x with var := some (t₁.openBinding c.scope x.name).1.1 } :: handlers := by
      obtain ⟨L', Γ', rfl, -⟩ := hΓ.head
      obtain rfl := hhandlers L' rfl
      intro L hL
      cases hL
      rfl
    have htwo := ihh hΓ₂ hT₂ hhandlers₂
    rw [declarationsAll_singleton] at hone htwo ⊢
    exact List.forall_mem_append.mpr ⟨hone, htwo⟩

/-! ## The bodies of a program -/

/-- A function among sites: its body was walked in its own scope, its level binds what is hoisted there, and
the sites of the body are among the sites. -/
def Site.Walked (T : ScopeTable) (sites : List Site) : Site → Prop
  | .function Γ L isLowered body' => L.caught = [] ∧ (hoistedNames body').toList ⊆ L.names ∧
    sitesAll (L :: Γ) isLowered body' ⊆ sites ∧
    ∃ c t body t', c.scope = L.scope ∧ Agrees (L :: Γ) c t ∧ Final (L :: Γ) t' T ∧ Analyzes c t body t' body'
  | _ => True

/-- Among more sites. -/
theorem Site.Walked.mono {T : ScopeTable} {sites sites' : List Site} {site : Site} (h : site.Walked T sites)
    (hsub : sites ⊆ sites') : site.Walked T sites' := by
  cases site with
  | use | handler | object => trivial
  | function Γ L isLowered body' =>
    obtain ⟨hcaught, hnames, hsites, hwalk⟩ := h
    exact ⟨hcaught, hnames, List.Subset.trans hsites hsub, hwalk⟩

/-- **The functions of a walk** were walked themselves. -/
theorem Analyzes.walked {c : Place} {t t' : ScopeTable} {ns ns' : List Node} (h : Analyzes c t ns t' ns')
    {Γ : List Level} (hΓ : Agrees Γ c t) {T : ScopeTable} (hT : Final Γ t' T) (isLowered : Bool) :
    ∀ site ∈ sitesAll Γ isLowered ns', site.Walked T (sitesAll Γ isLowered ns') := by
  induction h generalizing Γ isLowered with
  | nil | folded | lowered => exact fun site hsite => absurd hsite List.not_mem_nil
  | cons hfirst hrest ih ih' =>
    have hΓ₁ := hΓ.grows (hfirst.grows hΓ.rooted hΓ.inside)
    have hone := ih hΓ (hT.of_grows hΓ₁ (hrest.grows hΓ₁.rooted hΓ₁.inside)) isLowered
    rw [sitesAll_singleton] at hone
    refine List.forall_mem_append.mpr ⟨fun site hsite => ?_, fun site hsite => ?_⟩
    · exact (hone site hsite).mono (List.subset_append_left ..)
    · exact (ih' hΓ₁ hT isLowered site hsite).mono (List.subset_append_right ..)
  | neutral i hn hlength hparts hhints ih =>
    obtain ⟨hrebuilt, hneutral⟩ := Node.parts_rebuild i hn hlength
    have hΓ₁ := hΓ.grows (hparts.grows hΓ.rooted hΓ.inside)
    rw [sitesAll_singleton, Node.sites_of_neutral Γ isLowered hneutral, hrebuilt]
    exact ih hΓ (hT.of_grows (B := []) hΓ₁ (hhints.grows hΓ₁.rooted)) isLowered
  | definition t i i' hx =>
    rw [sitesAll_singleton, Node.sites, if_pos hx]
    exact fun site hsite => absurd hsite List.not_mem_nil
  | reference t i i' hx =>
    rw [sitesAll_singleton, Node.sites, if_neg (by simp [hx])]
    exact List.forall_mem_singleton.mpr trivial
  | @var c t t₁ t₂ i i' x init init' hc hinit hhints ih =>
    have hΓ₀ := hΓ.grows (ScopeTable.grows_declare hΓ.rooted hΓ.inside x.name)
    have hΓ₁ := hΓ₀.grows (hinit.grows hΓ₀.rooted hΓ₀.inside)
    rw [sitesAll_singleton, Node.sites, sites?_eq]
    exact ih hΓ₀ (hT.of_grows (B := []) hΓ₁ (hhints.grows hΓ₁.rooted)) isLowered
  | @function c t t₁ t₂ t₃ t₄ t₅ i i' name name' params params' body body' isDeclaration scope label s
      _ houter hs hparams hinner hname hbody hhints ih =>
    have hΓ₁ := hΓ.grows (houter.grows hΓ.rooted hΓ.inside).1
    obtain ⟨hstart, hparams'⟩ := ScopeTable.starts hΓ₁.rooted hΓ₁.inside hs hparams hinner
    have hΓ₃ := hΓ₁.inFunction hstart
    have hT₄ : Final Γ t₄ T := by
      have hΓ₄ := (hΓ₁.grows hstart.grows).grows (hbody.grows hΓ₃.rooted hΓ₃.inside)
      exact hT.of_grows (B := []) hΓ₄ (hhints.grows hΓ₄.rooted)
    rw [sitesAll_singleton, Node.sites, hbody.names_eq hname.same hparams']
    refine List.forall_mem_cons.mpr ⟨⟨rfl, ?_, List.subset_cons_self .., ?_⟩, fun site hsite => ?_⟩
    · rw [hoistedNames, hoistedNamesOf_eq hbody.sameHoisted]
      exact List.Subset.trans (List.subset_append_left ..) (List.subset_append_right ..)
    · exact ⟨_, t₃, body, t₄, rfl, hΓ₃, hT₄.inFunction _, hbody⟩
    · exact (ih hΓ₃ (hT₄.inFunction _) isLowered site hsite).mono (List.subset_cons_self ..)
  | withObject i i' hobject hbody iho ihb =>
    have hΓ₁ := hΓ.grows (hobject.grows hΓ.rooted hΓ.inside)
    have hΓ₂ := hΓ₁.inWith
    have hT₂ := hT.of_grows hΓ₂ (hbody.grows hΓ₂.rooted hΓ₂.inside)
    have hT₁ := hT₂.of_grows (B := []) hΓ₁ (ScopeTable.grows_markDynamic hΓ₁.rooted hΓ₁.inside)
    have hone := iho hΓ hT₁ isLowered
    have htwo := ihb hΓ₂ hT true
    rw [sitesAll_singleton] at hone htwo ⊢
    rw [Node.sites]
    refine List.forall_mem_append.mpr
      ⟨fun site hsite => ?_, List.forall_mem_cons.mpr ⟨trivial, fun site hsite => ?_⟩⟩
    · exact (hone site hsite).mono (List.subset_append_left ..)
    · exact (htwo site hsite).mono (List.Subset.trans (List.subset_cons_self ..) (List.subset_append_right ..))
  | @tryCatch c t t₁ t₂ i i' guarded guarded' handler handler' x hc hguarded hhandler ihb ihh =>
    obtain ⟨hT₁, hΓ₂, hT₂⟩ := hT.ofTryCatch hΓ hguarded hhandler
    have hone := ihb hΓ hT₁ isLowered
    have htwo := ihh hΓ₂ hT₂ isLowered
    rw [sitesAll_singleton] at hone htwo ⊢
    rw [Node.sites]
    refine List.forall_mem_append.mpr
      ⟨fun site hsite => ?_, List.forall_mem_cons.mpr ⟨trivial, fun site hsite => ?_⟩⟩
    · exact (hone site hsite).mono (List.subset_append_left ..)
    · exact (htwo site hsite).mono (List.Subset.trans (List.subset_cons_self ..) (List.subset_append_right ..))

/-- The bodies of a program, each with its scope: its own and those of the functions in it. -/
inductive Program.HasBody (p : Program) : ScopeId → List Node → Prop where
  /-- The statements of the program. -/
  | program : p.HasBody .global p.body
  /-- The statements of a function. -/
  | function {Γ : List Level} {L : Level} {isLowered : Bool} {body : List Node}
    (h : .function Γ L isLowered body ∈ p.sites) : p.HasBody L.scope body

/-- **A program and its bodies**: the functions that a body declares are bound as they should be, and so are
the names that are hoisted in it, wherever its level is seen. -/
structure Program.Hoisted (p : Program) (T : ScopeTable) (s : ScopeId) (body : List Node) : Prop where
  /-- The declarations. -/
  bound : ∀ d ∈ declarationsAll [] body, d.Bound T s
  /-- The handlers around them. -/
  handlers : ∀ d ∈ declarationsAll [] body, ∀ y ∈ d.handlers, ∃ Γ, .handler Γ y ∈ p.sites
  /-- The names. -/
  names : ∀ site ∈ p.sites, ∀ L ∈ site.levels, L.scope = s → (hoistedNames body).toList ⊆ L.names

/-- **Every body of an analyzed program** is like that. -/
theorem Analyzer.program_hoisted {p p' : Program} {a : Analyzer} (h : Analyzer.program {} p = (a, p'))
    (hok : a.failure = none) {s : ScopeId} {body : List Node} (hbody : p'.HasBody s body) :
    p'.Hoisted a.table s body := by
  obtain ⟨t, hdeclared, hwalk⟩ := program_analyzes h hok
  have hscoping := program_scoping h hok
  have hΓ := hdeclared.agrees
  have hT := Final.refl [p.level] hscoping.rooted
  cases hbody with
  | program =>
    refine ⟨hwalk.declarations hΓ hT fun L hL => Option.some.inj hL ▸ rfl, fun d hd y hy => ?_,
      fun site hsite L hL hs => ?_⟩
    · exact (handler_mem_sitesAll hy _ _ _ hd).resolve_left List.not_mem_nil
    · obtain ⟨L', hL', -, hnames⟩ | ⟨Γ, L', isLowered, body, hmem, hscope, -⟩ :=
        (hscoping.levels site hsite L hL).origin
      · rw [List.mem_singleton.mp hL'] at hnames
        exact hnames ▸ List.Subset.refl _
      · exact absurd (hscope.trans hs) (hscoping.scope_ne_global hmem)
  | @function Γ L₀ isLowered body hsite₀ =>
    have hwalked := hwalk.walked hΓ hT false
    rw [← hwalk.level_eq, ← Program.sites] at hwalked
    obtain ⟨hcaught, hnames₀, hsites, c₁, t₁, body₀, t₂, hscope₀, hΓ₁, hT₁, hwalk₁⟩ := hwalked _ hsite₀
    refine ⟨?_, fun d hd y hy => ?_, fun site hsite L hL hs => ?_⟩
    · rw [← hscope₀]
      exact hwalk₁.declarations hΓ₁ hT₁ fun L hL => Option.some.inj hL ▸ hcaught
    · obtain ⟨Γ', hmem⟩ := (handler_mem_sitesAll hy _ _ _ hd).resolve_left List.not_mem_nil
      exact ⟨Γ', hsites hmem⟩
    · obtain ⟨L', hL', hscope, -⟩ | ⟨Γ', L', isLowered', body', hmem, hscope, hnames⟩ :=
        (hscoping.levels site hsite L hL).origin
      · rw [List.mem_singleton.mp hL'] at hscope
        exact absurd (hs.symm.trans hscope.symm) (hscoping.scope_ne_global hsite₀)
      · cases hscoping.eq_of_scope_eq hsite₀ hmem (hs.symm.trans hscope.symm)
        exact hnames ▸ hnames₀

/-! ## References -/

/-- A name that is used inside levels is that of a scope: no handler around the use catches under it, and no
function on the way to the scope binds it. -/
def Reaches (T : ScopeTable) (s : ScopeId) (m : String) : List Level → Prop
  | [] => False
  | L :: Γ => L.caught? m = none ∧ (L.scope = s ∨ (T.scope L.scope).own? m = none ∧ Reaches T s m Γ)

/-- What is seen in a scope that binds the name. -/
theorem Sees.eq_of_reaches {T : ScopeTable} {Γ : List Level} {s : ScopeId} {m : String} {v w : VarId}
    (h : Sees T Γ m v) (hreaches : Reaches T s m Γ) (hnames : ∀ L ∈ Γ, L.scope = s → m ∈ L.names)
    (hw : (T.scope s).own? m = some w) : v = w := by
  induction Γ with
  | nil => exact h.elim
  | cons L Γ ih =>
    obtain ⟨hcaught, hreaches⟩ := hreaches
    rw [Sees, hcaught] at h
    obtain rfl | ⟨hnone, hreaches⟩ := hreaches
    · obtain hv | ⟨hm, -⟩ := h
      · exact Option.some.inj (hv.symm.trans hw)
      · exact absurd (hnames L List.mem_cons_self rfl) hm
    · obtain hv | ⟨-, h⟩ := h
      · cases hnone.symm.trans hv
      · exact ih h hreaches fun L' hL' => hnames L' (List.mem_cons_of_mem L hL')

/-- **A reference to a declared function** has the variable of the declaration, unless the declaration stands
in a handler that catches under the name. -/
theorem Program.Hoisted.reference {p : Program} {T : ScopeTable} {s : ScopeId} {body : List Node}
    (h : p.Hoisted T s body) (hscoping : p.Scoping T) {d : Declaration} (hd : d ∈ declarationsAll [] body)
    (hfree : d.caught? = none) {Γ : List Level} {x : Identifier} (hx : .use Γ x ∈ p.sites)
    (hname : x.name = d.name.name) (hreaches : Reaches T s x.name Γ) : x.var = d.name.var := by
  obtain ⟨w, hw, -, hown⟩ := h.bound d hd
  rw [hfree] at hown
  obtain ⟨-, v, hv, hsees⟩ := hscoping.lexical _ hx
  have hhoisted := Array.mem_toList_iff.mpr (name_mem_hoistedNamesOf #[] body hd)
  have hsame : v = w := hsees.eq_of_reaches hreaches
    (fun L hL hs => h.names _ hx L hL hs (hname ▸ hhoisted)) (hname ▸ hown)
  rw [hv, hw, hsame]

end ScriptEngine
