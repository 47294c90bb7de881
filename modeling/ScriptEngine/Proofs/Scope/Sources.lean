import ScriptEngine.Proofs.Code.Layout
import ScriptEngine.Proofs.Scope.Binders

/-!
# Functions of a program and their sites

Every function that code is generated for is one of the function sites of the analyzed tree, with the same
body and the same scope, or the program itself. So what holds at sites holds of the sources of a unit:
`Program.Scoping.source`.
-/

namespace ScriptEngine

open Generation

/-- Code for a function is generated with a node, or before it because the node declares the function. -/
def Node.Generates (isLowered : Bool) (withs : Nat) (n : Node) (src : Source) : Prop :=
  src ∈ n.hoistedSources isLowered withs ∨ ∃ pos, src ∈ n.sources isLowered withs pos

section

variable {isLowered : Bool} {withs : Nat} {src : Source}

/-- What is generated with nodes is generated with one of them. -/
theorem mem_sourcesAll {pos : Position} {ns : List Node} :
    src ∈ sourcesAll isLowered withs pos ns ↔ ∃ n ∈ ns, src ∈ n.sources isLowered withs pos := by
  induction ns with
  | nil => simp [sourcesAll]
  | cons n ns ih => simp [sourcesAll, ih]

/-- What nodes declare one of them declares. -/
theorem mem_hoistedSourcesAll {ns : List Node} :
    src ∈ hoistedSourcesAll isLowered withs ns ↔ ∃ n ∈ ns, src ∈ n.hoistedSources isLowered withs := by
  induction ns with
  | nil => simp [hoistedSourcesAll]
  | cons n ns ih => simp [hoistedSourcesAll, ih]

/-- What is generated with properties is generated with one of their values. -/
theorem mem_sourcesProperties {ps : List (String × Node)} :
    src ∈ sourcesProperties isLowered withs ps ↔
      ∃ n ∈ ps.map Prod.snd, src ∈ n.sources isLowered withs .value := by
  induction ps with
  | nil => simp [sourcesProperties]
  | cons p ps ih => simp [sourcesProperties, ih]

/-- What is generated with the body of a function. -/
theorem mem_sources_body {body : List Node}
    (h : src ∈ hoistedSourcesAll isLowered withs body ++ sourcesAll isLowered withs .effect body) :
    ∃ n ∈ body, n.Generates isLowered withs src := by
  obtain h | h := List.mem_append.mp h
  · obtain ⟨n, hn, h⟩ := mem_hoistedSourcesAll.mp h
    exact ⟨n, hn, .inl h⟩
  · obtain ⟨n, hn, h⟩ := mem_sourcesAll.mp h
    exact ⟨n, hn, .inr ⟨_, h⟩⟩

/-- **What is generated with a neutral node** is generated with one of its parts. -/
theorem Node.Generates.part {n : Node} (hn : n.isNeutral = true) (h : n.Generates isLowered withs src) :
    ∃ part ∈ n.parts, part.Generates isLowered withs src := by
  obtain h | ⟨pos, h⟩ := h
  · cases n with
    | identifier | function | var | withObject => cases hn
    | block i statements =>
      obtain ⟨n, hn, h⟩ := mem_hoistedSourcesAll.mp h
      exact ⟨n, hn, .inl h⟩
    | cond i condition thenBranch elseBranch =>
      obtain h | h := List.mem_append.mp h
      · exact ⟨thenBranch, List.mem_cons_of_mem _ List.mem_cons_self, .inl h⟩
      · cases elseBranch with
        | none => cases h
        | some n => exact ⟨n, List.mem_cons_of_mem _ (List.mem_cons_of_mem _ List.mem_cons_self), .inl h⟩
    | loop i condition body => exact ⟨body, List.mem_cons_of_mem _ List.mem_cons_self, .inl h⟩
    | tryCatch i guarded param handler =>
      cases param with
      | some x => cases hn
      | none =>
        obtain h | h := List.mem_append.mp h
        · exact ⟨guarded, List.mem_cons_self, .inl h⟩
        · exact ⟨handler, List.mem_cons_of_mem _ List.mem_cons_self, .inl h⟩
    | literal | dynamic | this | call | member | binary | unary | assign | object | delete | ret | throw =>
      cases h
  · cases n with
    | identifier | function | var | withObject => cases hn
    | literal | dynamic | this => cases h
    | call i target args =>
      obtain h | h := List.mem_append.mp h
      · exact ⟨target, List.mem_cons_self, .inr ⟨_, h⟩⟩
      · obtain ⟨n, hn, h⟩ := mem_sourcesAll.mp h
        exact ⟨n, List.mem_cons_of_mem _ hn, .inr ⟨_, h⟩⟩
    | member i target | unary i op target | delete i target | throw i target =>
      exact ⟨target, List.mem_cons_self, .inr ⟨_, h⟩⟩
    | binary i op lhs rhs | assign i lhs rhs | loop i lhs rhs =>
      obtain h | h := List.mem_append.mp h
      · exact ⟨lhs, List.mem_cons_self, .inr ⟨_, h⟩⟩
      · exact ⟨rhs, List.mem_cons_of_mem _ List.mem_cons_self, .inr ⟨_, h⟩⟩
    | object i ps =>
      obtain ⟨n, hn, h⟩ := mem_sourcesProperties.mp h
      exact ⟨n, hn, .inr ⟨_, h⟩⟩
    | ret i value =>
      cases value with
      | none => cases h
      | some n => exact ⟨n, List.mem_cons_self, .inr ⟨_, h⟩⟩
    | cond i condition thenBranch elseBranch =>
      obtain h | h := List.mem_append.mp h
      · obtain h | h := List.mem_append.mp h
        · exact ⟨condition, List.mem_cons_self, .inr ⟨_, h⟩⟩
        · exact ⟨thenBranch, List.mem_cons_of_mem _ List.mem_cons_self, .inr ⟨_, h⟩⟩
      · cases elseBranch with
        | none => cases h
        | some n =>
          exact ⟨n, List.mem_cons_of_mem _ (List.mem_cons_of_mem _ List.mem_cons_self), .inr ⟨_, h⟩⟩
    | block i statements =>
      obtain ⟨n, hn, h⟩ := mem_sourcesAll.mp h
      exact ⟨n, hn, .inr ⟨_, h⟩⟩
    | tryCatch i guarded param handler =>
      cases param with
      | some x => cases hn
      | none =>
        obtain h | h := List.mem_append.mp h
        · exact ⟨guarded, List.mem_cons_self, .inr ⟨_, h⟩⟩
        · exact ⟨handler, List.mem_cons_of_mem _ List.mem_cons_self, .inr ⟨_, h⟩⟩

/-- The functions of a function: those of its body, and itself. -/
theorem Node.Generates.function {i : Info} {name : Option Identifier} {params : List Identifier}
    {body : List Node} {isDeclaration : Bool} {scope : Option ScopeId}
    (h : (Node.function i name params body isDeclaration scope).Generates isLowered withs src) :
    src = .ofFunction isLowered withs name params body isDeclaration scope ∨
      ∃ n ∈ body, n.Generates (isLowered || decide (0 < withs)) 0 src := by
  have hmem : src ∈ hoistedSourcesAll (isLowered || decide (0 < withs)) 0 body ++
      sourcesAll (isLowered || decide (0 < withs)) 0 .effect body ++
      [.ofFunction isLowered withs name params body isDeclaration scope] := by
    obtain h | ⟨pos, h⟩ := h
    · cases isDeclaration with
      | false => cases h
      | true =>
        cases name with
        | none => cases h
        | some x => exact h
    · rw [Node.sources] at h
      split at h
      · cases h
      · exact h
  obtain hmem | hmem := List.mem_append.mp hmem
  · exact .inr (mem_sources_body hmem)
  · exact .inl (List.mem_singleton.mp hmem)

end

/-- A function site of the nodes has the body and the scope of a source. -/
def HasSite (src : Source) (sites : List Site) : Prop :=
  ∃ Γ L, .function Γ L src.isLowered src.body ∈ sites ∧ L.scope = src.scope

/-- More sites. -/
theorem HasSite.mono {src : Source} {sites sites' : List Site} (h : HasSite src sites) (hsub : sites ⊆ sites') :
    HasSite src sites' := by
  obtain ⟨Γ, L, hmem, hscope⟩ := h
  exact ⟨Γ, L, hsub hmem, hscope⟩

/-- **Functions that code is generated for have sites.** -/
theorem Analyzes.hasSite {c : Place} {t t' : ScopeTable} {ns ns' : List Node} (h : Analyzes c t ns t' ns')
    (Γ : List Level) {isLowered : Bool} {withs : Nat} {src : Source} :
    ∀ n ∈ ns', n.Generates isLowered withs src →
      HasSite src (sitesAll Γ (isLowered || decide (0 < withs)) ns') := by
  induction h generalizing Γ isLowered withs with
  | nil => exact fun n hn => nomatch hn
  | cons _ _ ih ih' =>
    intro n hn hsrc
    obtain rfl | hn := List.mem_cons.mp hn
    · have hsite := ih Γ n List.mem_cons_self hsrc
      rw [sitesAll_singleton] at hsite
      exact hsite.mono (List.subset_append_left ..)
    · exact (ih' Γ n hn hsrc).mono (List.subset_append_right ..)
  | neutral i hn hlength _ _ ih =>
    obtain ⟨hrebuilt, hneutral⟩ := Node.parts_rebuild i hn hlength
    intro n hn hsrc
    rw [List.mem_singleton.mp hn] at hsrc
    obtain ⟨part, hpart, hsrc⟩ := hsrc.part hneutral
    rw [hrebuilt] at hpart
    rw [sitesAll_singleton, Node.sites_of_neutral _ _ hneutral, hrebuilt]
    exact ih Γ part hpart hsrc
  | folded | lowered | definition | reference =>
    intro n hn hsrc
    rw [List.mem_singleton.mp hn] at hsrc
    obtain hsrc | ⟨pos, hsrc⟩ := hsrc <;> cases hsrc
  | @var c t t₁ t₂ i i' x init init' _ _ _ ih =>
    intro n hn hsrc
    rw [List.mem_singleton.mp hn] at hsrc
    rw [sitesAll_singleton, Node.sites, sites?_eq]
    obtain hsrc | ⟨pos, hsrc⟩ := hsrc
    · cases hsrc
    · cases init' with
      | none => cases hsrc
      | some n => exact ih Γ n List.mem_cons_self (.inr ⟨_, hsrc⟩)
  | function i i' label _ _ _ _ _ _ _ _ ih =>
    intro n hn hsrc
    rw [List.mem_singleton.mp hn] at hsrc
    rw [sitesAll_singleton, Node.sites]
    obtain rfl | ⟨n, hn, hsrc⟩ := hsrc.function
    · exact ⟨_, _, List.mem_cons_self, rfl⟩
    · refine HasSite.mono ?_ (List.subset_cons_self ..)
      have hsite := fun Γ' => ih Γ' n hn hsrc
      simp only [decide_eq_false (Nat.lt_irrefl 0), Bool.or_false] at hsite
      exact hsite _
  | withObject i i' _ _ iho ihb =>
    intro n hn hsrc
    rw [List.mem_singleton.mp hn] at hsrc
    rw [sitesAll_singleton, Node.sites]
    simp only [sitesAll_singleton, List.forall_mem_singleton] at iho ihb
    obtain hsrc | ⟨pos, hsrc⟩ := hsrc
    · cases hsrc
    · obtain hsrc | hsrc := List.mem_append.mp hsrc
      · exact (iho Γ (.inr ⟨_, hsrc⟩)).mono (List.subset_append_left ..)
      · have hsite := ihb Γ (.inr ⟨_, hsrc⟩)
        rw [decide_eq_true (Nat.succ_pos _), Bool.or_true] at hsite
        exact hsite.mono (List.Subset.trans (List.subset_cons_self ..) (List.subset_append_right ..))
  | @tryCatch c t t₁ t₂ i i' guarded guarded' handler handler' x _ _ _ ihb ihh =>
    intro n hn hsrc
    rw [List.mem_singleton.mp hn] at hsrc
    rw [sitesAll_singleton, Node.sites]
    simp only [sitesAll_singleton, List.forall_mem_singleton] at ihb ihh
    have hparts : guarded'.Generates isLowered withs src ∨ handler'.Generates isLowered withs src := by
      obtain hsrc | ⟨pos, hsrc⟩ := hsrc
      · exact (List.mem_append.mp hsrc).imp .inl .inl
      · exact (List.mem_append.mp hsrc).imp (fun h => .inr ⟨_, h⟩) fun h => .inr ⟨_, h⟩
    obtain hsrc | hsrc := hparts
    · exact (ihb Γ hsrc).mono (List.subset_append_left ..)
    · exact (ihh _ hsrc).mono (List.Subset.trans (List.subset_cons_self ..) (List.subset_append_right ..))

/-- **The functions of an analyzed program**: every one has a site, but the program itself. -/
theorem Analyzes.source {c : Place} {t t' : ScopeTable} {p p' : Program}
    (h : Analyzes c t p.body t' p'.body) {src : Source} (hsrc : src ∈ p'.sources) :
    src = p'.source ∨ HasSite src p'.sites := by
  obtain hsrc | hsrc := List.mem_append.mp hsrc
  · obtain ⟨n, hn, hsrc⟩ := mem_sources_body hsrc
    exact .inr (h.hasSite [p'.level] n hn hsrc)
  · exact .inl (List.mem_singleton.mp hsrc)

/-- **What holds of a function** that code is generated for: if there is a `with` statement around it or in
it, names are looked up in its scope at run time, and a name that no handler in it has stands for the only
variable of that name. -/
theorem Program.Scoping.source {p : Program} {T : ScopeTable} (h : p.Scoping T) (hscope : p.scope = some .global)
    {src : Source} (hsrc : src = p.source ∨ HasSite src p.sites) :
    ((src.isLowered || hasWith src.body) = true → (T.scope src.scope).isDynamic = true) ∧
      ∀ m, .caught m ∉ bindingsAll src.body → T.Sole src.scope m := by
  obtain rfl | ⟨Γ, L, hmem, hL⟩ := hsrc
  · rw [Program.source, hscope]
    exact ⟨h.dynamic, h.sole⟩
  · obtain ⟨-, -, -, hsole, hdynamic⟩ := h.lexical _ hmem
    rw [← hL]
    exact ⟨hdynamic, hsole⟩

end ScriptEngine
