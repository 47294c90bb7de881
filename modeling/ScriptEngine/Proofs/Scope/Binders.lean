import Mathlib.Data.List.Pairwise
import ScriptEngine.Proofs.Scope.Lexical

/-!
# Binders and their variables

Analysis gives every binder of a program a variable of its own, and every name that is used the variable of
the innermost binder that is seen from it, whatever the order of declarations and uses.

The main statement is `Analyzer.program_lexical`. It is about programs that bind names only where hoisting
finds them (`Program.isInPlace`).
-/

namespace ScriptEngine

/-! ## Numbers -/

/-- Numbers that ascend from one bound to another. -/
structure Ascends (lo hi : Nat) (l : List Nat) : Prop where
  /-- Each is greater than those before. -/
  pairwise : l.Pairwise (· < ·)
  /-- They lie between the bounds. -/
  bounds : ∀ i ∈ l, lo ≤ i ∧ i < hi

namespace Ascends

variable {lo mid hi : Nat} {l l' : List Nat}

/-- No number. -/
theorem nil : Ascends lo hi [] := ⟨.nil, fun _ h => nomatch h⟩

/-- One number. -/
theorem singleton {i : Nat} (hlo : lo ≤ i) (hhi : i < hi) : Ascends lo hi [i] :=
  ⟨List.pairwise_singleton .., fun _ h => List.mem_singleton.mp h ▸ ⟨hlo, hhi⟩⟩

/-- First some numbers, and then greater ones. -/
theorem append (h : Ascends lo mid l) (h' : Ascends mid hi l') (hlo : lo ≤ mid) (hhi : mid ≤ hi) :
    Ascends lo hi (l ++ l') := by
  refine ⟨List.pairwise_append.mpr ⟨h.pairwise, h'.pairwise, fun i hi j hj => ?_⟩, fun i hmem => ?_⟩
  · exact Nat.lt_of_lt_of_le (h.bounds i hi).2 (h'.bounds j hj).1
  · obtain hmem | hmem := List.mem_append.mp hmem
    · exact ⟨(h.bounds i hmem).1, Nat.lt_of_lt_of_le (h.bounds i hmem).2 hhi⟩
    · exact ⟨Nat.le_trans hlo (h'.bounds i hmem).1, (h'.bounds i hmem).2⟩

/-- The bounds may be further apart. -/
theorem mono {lo' hi' : Nat} (h : Ascends lo hi l) (hlo : lo' ≤ lo) (hhi : hi ≤ hi') : Ascends lo' hi' l :=
  ⟨h.pairwise, fun i hi =>
    ⟨Nat.le_trans hlo (h.bounds i hi).1, Nat.lt_of_lt_of_le (h.bounds i hi).2 hhi⟩⟩

end Ascends

namespace Site

/-- The number of the variable of a handler. -/
def caughtIndex? : Site → Option Nat
  | .handler _ x => x.var.map VarId.index
  | _ => none

/-- The number of the scope of a function. -/
def scopeIndex? : Site → Option Nat
  | .function _ L _ _ => some L.scope.index
  | _ => none

end Site

/-- The sites of a walk: the variables of handlers and the scopes of functions are new, and different
from each other, and no name stands for the variable of a handler any more. -/
structure Numbered (t t' : ScopeTable) (sites : List Site) : Prop where
  /-- The variables of handlers. -/
  caught : Ascends t.vars.size t'.vars.size (sites.filterMap Site.caughtIndex?)
  /-- The scopes of functions. -/
  scopes : Ascends t.scopes.size t'.scopes.size (sites.filterMap Site.scopeIndex?)
  /-- No name stands for the variable of a handler. -/
  hidden : ∀ i ∈ sites.filterMap Site.caughtIndex?, ∀ s m, (t'.scope s).own? m ≠ some ⟨i⟩

namespace Numbered

variable {t t₁ t' : ScopeTable} {sites sites' : List Site} {new : ScopeId → BoundName → Prop}

/-- No site. -/
theorem nil (t t' : ScopeTable) : Numbered t t' [] := ⟨.nil, .nil, fun _ h => nomatch h⟩

/-- One walk after the other. -/
theorem append (h : Numbered t t₁ sites) (h' : Numbered t₁ t' sites') (hext : t.Extends t₁)
    (hgrows : t₁.Grows new t') : Numbered t t' (sites ++ sites') := by
  refine ⟨?_, ?_, fun i hi s m hv => ?_⟩
  · rw [List.filterMap_append]
    exact h.caught.append h'.caught hext.vars_le hgrows.ext.vars_le
  · rw [List.filterMap_append]
    exact h.scopes.append h'.scopes hext.scopes_le hgrows.ext.scopes_le
  · rw [List.filterMap_append] at hi
    obtain hi | hi := List.mem_append.mp hi
    · -- A name that is bound later stands for a later variable.
      obtain hv | ⟨hle, -⟩ := hgrows.fresh s m _ hv
      · exact h.hidden i hi s m hv
      · exact absurd (h.caught.bounds i hi).2 (Nat.not_lt.mpr hle)
    · exact h'.hidden i hi s m hv

/-- A walk with something before and behind it that has no sites. -/
theorem within {t₀ : ScopeTable} (h : Numbered t t₁ sites) (hext : t₀.Extends t) (hext' : t.Extends t₁)
    (hgrows : t₁.Grows new t') : Numbered t₀ t' sites := by
  have hbehind := h.append (nil t₁ t') hext' hgrows
  rw [List.append_nil] at hbehind
  exact ⟨hbehind.caught.mono hext.vars_le (Nat.le_refl _), hbehind.scopes.mono hext.scopes_le (Nat.le_refl _),
    hbehind.hidden⟩

/-- **A handler**: its variable comes first, and behind it the name stands for what it stood for before. -/
theorem handler {s : ScopeId} {x : Identifier} (ht : t.Rooted) (hs : s.index < t.scopes.size)
    (h : Numbered (t.openBinding s x.name).2 t₁ sites) (hgrows : (t.openBinding s x.name).2.Grows new t₁)
    (hx : x.var = some (t.openBinding s x.name).1.1) (Γ : List Level) :
    Numbered t (t₁.closeBinding s x.name (t.openBinding s x.name).1.2) (.handler Γ x :: sites) := by
  obtain ⟨hopen, hdeclares, -⟩ := ScopeTable.leads_openBinding ht.valid hs x.name
  have hs₁ : s.index < t₁.scopes.size := hgrows.ext.size_le (hopen.ext.size_le hs)
  have hsize : (t.openBinding s x.name).2.vars.size = t.vars.size + 1 := Array.size_push ..
  have hfirst : (Site.handler Γ x :: sites).filterMap Site.caughtIndex? =
      [t.vars.size] ++ sites.filterMap Site.caughtIndex? := by
    rw [List.filterMap_cons, Site.caughtIndex?, hx]
    rfl
  refine ⟨?_, ?_, fun i hi id m hv => ?_⟩
  · rw [hfirst]
    exact (Ascends.singleton (Nat.le_refl _) (hsize ▸ Nat.lt_succ_self _)).append h.caught
      hopen.ext.vars_le hgrows.ext.vars_le
  · exact h.scopes.mono hopen.ext.scopes_le (Nat.le_of_eq (Array.size_modify ..).symm)
  · rw [hfirst] at hi
    have hle : t.vars.size ≤ i := by
      obtain hi | hi := List.mem_append.mp hi
      · exact Nat.le_of_eq (List.mem_singleton.mp hi).symm
      · exact Nat.le_trans hopen.ext.vars_le (h.caught.bounds i hi).1
    rw [ScopeTable.own?_closeBinding hs₁] at hv
    split at hv
    · -- What the name stood for before is an earlier variable.
      obtain ⟨V, hV, -⟩ := ht.valid.own hv
      exact absurd (Array.getElem?_eq_some_iff.mp hV).choose (Nat.not_lt.mpr hle)
    · next hother =>
      obtain hi | hi := List.mem_append.mp hi
      · obtain ⟨V, hV, hscope, hname⟩ := hgrows.rooted.valid.own hv
        obtain ⟨W, hW, hscope', hname'⟩ := hdeclares.mono hgrows.ext
        rw [List.mem_singleton.mp hi] at hV
        obtain rfl : V = W := Option.some.inj (hV.symm.trans hW)
        exact hother ⟨hscope.symm.trans hscope', hname.symm.trans hname'⟩
      · exact h.hidden i hi id m hv

end Numbered

/-- **The sites of a walk are numbered.** -/
theorem Analyzes.numbered {c : Place} {t t' : ScopeTable} {ns ns' : List Node} (h : Analyzes c t ns t' ns')
    (ht : t.Rooted) (hc : c.scope.index < t.scopes.size) (Γ : List Level) (isLowered : Bool) :
    Numbered t t' (sitesAll Γ isLowered ns') := by
  induction h generalizing Γ isLowered with
  | nil c t => exact .nil t t
  | cons hfirst hrest ih ih' =>
    have hgrows := hfirst.grows ht hc
    have hc₁ := hgrows.ext.size_le hc
    have hone := ih ht hc Γ isLowered
    rw [sitesAll_singleton] at hone
    exact hone.append (ih' hgrows.rooted hc₁ Γ isLowered) hgrows.ext (hrest.grows hgrows.rooted hc₁)
  | neutral i hn hlength hparts hhints ih =>
    obtain ⟨hrebuilt, hneutral⟩ := Node.parts_rebuild i hn hlength
    have hgrows := hparts.grows ht hc
    rw [sitesAll_singleton, Node.sites_of_neutral Γ isLowered hneutral, hrebuilt]
    exact (ih ht hc Γ isLowered).within (.refl _) hgrows.ext
      (hhints.grows hgrows.rooted (N := fun _ _ => False))
  | folded | lowered => exact .nil ..
  | definition t i i' hx =>
    rw [sitesAll_singleton, Node.sites, if_pos hx]
    exact .nil ..
  | reference t i i' hx =>
    rw [sitesAll_singleton, Node.sites, if_neg (by simp [hx])]
    exact ⟨.nil, .nil, fun _ h => absurd h List.not_mem_nil⟩
  | @var c t t₁ t₂ i i' x init init' _ hinit hhints ih =>
    have hdeclare := ScopeTable.grows_declare ht hc x.name
    have hc₀ := hdeclare.ext.size_le hc
    have hgrows := hinit.grows hdeclare.rooted hc₀
    rw [sitesAll_singleton, Node.sites, sites?_eq]
    exact (ih hdeclare.rooted hc₀ Γ isLowered).within hdeclare.ext hgrows.ext
      (hhints.grows hgrows.rooted (N := fun _ _ => False))
  | @function c t t₁ t₂ t₃ t₄ t₅ i i' name name' params params' body body' isDeclaration scope label s
      _ houter hs hparams hinner hname hbody hhints ih =>
    obtain ⟨houter, -⟩ := houter.grows ht hc
    obtain ⟨hstart, hparams'⟩ := ScopeTable.starts houter.rooted (houter.ext.size_le hc) hs hparams hinner
    have hgrows := hbody.grows hstart.grows.rooted hstart.inside
    have hend := hhints.grows hgrows.rooted (N := fun _ _ => False)
    rw [sitesAll_singleton, Node.sites, hbody.names_eq hname.same hparams']
    have hfirst : Numbered t₁ t₃ [.function Γ ⟨s, [], params.map Identifier.name ++
        innerNames name body isDeclaration⟩ isLowered body'] :=
      ⟨.nil, .singleton hstart.new hstart.inside, fun _ h => absurd h List.not_mem_nil⟩
    exact (hfirst.append (ih hstart.grows.rooted hstart.inside _ isLowered) hstart.grows.ext hgrows).within
      houter.ext (hstart.grows.ext.trans hgrows.ext) hend
  | withObject i i' hobject hbody iho ihb =>
    have hgrows := hobject.grows ht hc
    have hc₁ := hgrows.ext.size_le hc
    have hmark := ScopeTable.grows_markDynamic hgrows.rooted hc₁ (N := fun _ _ => False)
    have hc₂ := hmark.ext.size_le hc₁
    have hone := iho ht hc Γ isLowered
    have htwo := ihb hmark.rooted hc₂ Γ true
    have hgrows₂ := hbody.grows hmark.rooted hc₂
    rw [sitesAll_singleton] at hone htwo ⊢
    rw [Node.sites]
    have hthree : Numbered _ _ (.object Γ :: _) := ⟨htwo.caught, htwo.scopes, htwo.hidden⟩
    exact hone.append (hthree.within hmark.ext hgrows₂.ext (.refl hgrows₂.rooted (N := fun _ _ => False)))
      hgrows.ext (hmark.of_none.trans hgrows₂)
  | @tryCatch c t t₁ t₂ i i' guarded guarded' handler handler' x _ hguarded hhandler ihb ihh =>
    have hgrows := hguarded.grows ht hc
    have hc₁ := hgrows.ext.size_le hc
    obtain ⟨-, hr₂, hc₂, hgrows₂, -⟩ := hhandler.catches hgrows.rooted hc₁
    have hone := ihb ht hc Γ isLowered
    have htwo := ihh hr₂ hc₂ (Γ.modifyHead (·.catching { x with var := some (t₁.openBinding c.scope x.name).1.1 }))
      isLowered
    rw [sitesAll_singleton] at hone htwo ⊢
    rw [Node.sites]
    refine hone.append (.handler (x := { x with var := some (t₁.openBinding c.scope x.name).1.1 })
      hgrows.rooted hc₁ htwo hgrows₂ rfl Γ) hgrows.ext
      (.binding hgrows.rooted hc₁ (hgrows₂.mono fun s b _ _ => trivial) trivial (N := fun _ _ => True))

/-! ## Bindings in place -/

mutual

/-- Whether a node, as a statement or as an expression, binds names only where a statement may stand: by
variable statements and by declarations of functions. -/
def Node.isInPlace (isStatement : Bool) : Node → Bool
  | .identifier _ x => !x.isDefinition
  | .call _ target args => target.isInPlace false && inPlaceAll false args
  | .member _ target _ => target.isInPlace false
  | .binary _ _ lhs rhs => lhs.isInPlace false && rhs.isInPlace false
  | .unary _ _ operand => operand.isInPlace false
  | .assign _ target value => target.isInPlace false && value.isInPlace false
  | .function _ _ _ body isDeclaration _ => (isStatement || !isDeclaration) && inPlaceAll true body
  | .object _ properties => inPlaceProperties properties
  | .delete _ target => target.isInPlace false
  | .var _ _ init => isStatement && inPlace? false init
  | .ret _ value => inPlace? false value
  | .cond _ condition thenBranch elseBranch =>
    condition.isInPlace false && thenBranch.isInPlace isStatement && inPlace? isStatement elseBranch
  | .loop _ condition body => condition.isInPlace false && body.isInPlace isStatement
  | .block _ statements => inPlaceAll isStatement statements
  | .withObject _ object body => object.isInPlace false && body.isInPlace isStatement
  | .throw _ value => value.isInPlace false
  | .tryCatch _ guarded _ handler => guarded.isInPlace isStatement && handler.isInPlace isStatement
  | .literal .. | .dynamic .. | .this _ => true

/-- Whether nodes bind names only where a statement may stand. -/
def inPlaceAll (isStatement : Bool) : List Node → Bool
  | [] => true
  | n :: rest => n.isInPlace isStatement && inPlaceAll isStatement rest

/-- Whether a node that may be missing binds names only where a statement may stand. -/
def inPlace? (isStatement : Bool) : Option Node → Bool
  | none => true
  | some n => n.isInPlace isStatement

/-- Whether the values of properties bind names only where a statement may stand. -/
def inPlaceProperties : List (String × Node) → Bool
  | [] => true
  | (_, value) :: rest => value.isInPlace false && inPlaceProperties rest

end

/-- Whether a program binds names only where a statement may stand. -/
def Program.isInPlace (p : Program) : Bool := inPlaceAll true p.body

/-- Each of the nodes binds names in place. -/
theorem inPlaceAll_iff {pos : Bool} {ns : List Node} :
    inPlaceAll pos ns = true ↔ ∀ n ∈ ns, n.isInPlace pos = true := by
  induction ns with
  | nil => simp [inPlaceAll]
  | cons n ns ih => simp [inPlaceAll, ih]

/-- The node binds names in place, if there is one. -/
theorem inPlace?_iff {pos : Bool} {n : Option Node} :
    inPlace? pos n = true ↔ ∀ p ∈ n.toList, p.isInPlace pos = true := by
  cases n <;> simp [inPlace?]

/-- Each of the values binds names in place. -/
theorem inPlaceProperties_iff {ps : List (String × Node)} :
    inPlaceProperties ps = true ↔ ∀ p ∈ ps.map Prod.snd, p.isInPlace false = true := by
  induction ps with
  | nil => simp [inPlaceProperties]
  | cons p ps ih =>
    rw [inPlaceProperties, Bool.and_eq_true, ih, List.map_cons, List.forall_mem_cons]

/-- **The parts of a neutral node** bind names in place: all as expressions, unless the node is a statement
with statements in it. -/
theorem Node.isInPlace_parts {n : Node} {pos : Bool} (hn : n.isNeutral = true) (h : n.isInPlace pos = true) :
    (∀ p ∈ n.parts, p.isInPlace false = true) ∨
      (∃ i ns, n = .block i ns ∧ ∀ p ∈ ns, p.isInPlace pos = true) ∨
      (∃ i condition t e, n = .cond i condition t e ∧ condition.isInPlace false = true ∧
        ∀ p ∈ t :: e.toList, p.isInPlace pos = true) ∨
      (∃ i condition body, n = .loop i condition body ∧ condition.isInPlace false = true ∧
        body.isInPlace pos = true) ∨
      ∃ i guarded handler, n = .tryCatch i guarded none handler ∧ guarded.isInPlace pos = true ∧
        handler.isInPlace pos = true := by
  cases n with
  | identifier | function | var | withObject => cases hn
  | literal | dynamic | this => exact .inl fun p hp => nomatch hp
  | call i target args =>
    rw [isInPlace, Bool.and_eq_true, inPlaceAll_iff] at h
    exact .inl (List.forall_mem_cons.mpr h)
  | binary | assign =>
    rw [isInPlace, Bool.and_eq_true] at h
    exact .inl (List.forall_mem_cons.mpr ⟨h.1, List.forall_mem_singleton.mpr h.2⟩)
  | member | unary | delete | throw =>
    rw [isInPlace] at h
    exact .inl (List.forall_mem_singleton.mpr h)
  | object i ps => exact .inl (inPlaceProperties_iff.mp h)
  | ret i value => exact .inl (inPlace?_iff.mp h)
  | block i statements => exact .inr (.inl ⟨i, statements, rfl, inPlaceAll_iff.mp h⟩)
  | cond i condition t e =>
    rw [isInPlace, Bool.and_eq_true, Bool.and_eq_true, inPlace?_iff] at h
    exact .inr (.inr (.inl ⟨i, condition, t, e, rfl, h.1.1, List.forall_mem_cons.mpr ⟨h.1.2, h.2⟩⟩))
  | loop i condition body =>
    rw [isInPlace, Bool.and_eq_true] at h
    exact .inr (.inr (.inr (.inl ⟨i, condition, body, rfl, h⟩)))
  | tryCatch i guarded param handler =>
    cases param with
    | some x => cases hn
    | none =>
      rw [isInPlace, Bool.and_eq_true] at h
      exact .inr (.inr (.inr (.inr ⟨i, guarded, handler, rfl, h⟩)))

mutual

/-- Names that were found before are kept. -/
theorem Node.mem_hoistedNames {m : String} : ∀ (n : Node) {names : Array String}, m ∈ names →
    m ∈ n.hoistedNames names
  | .var .., _, h => Array.mem_push_of_mem _ h
  | .function _ name _ _ isDeclaration _, _, h => by
    cases isDeclaration with
    | false => exact h
    | true =>
      cases name with
      | none => exact h
      | some x => exact Array.mem_push_of_mem _ h
  | .block _ statements, _, h => mem_hoistedNamesOf statements h
  | .cond _ _ thenBranch elseBranch, _, h => by
    rw [Node.hoistedNames]
    cases elseBranch with
    | none => exact thenBranch.mem_hoistedNames h
    | some n => exact n.mem_hoistedNames (thenBranch.mem_hoistedNames h)
  | .loop _ _ body, _, h => body.mem_hoistedNames h
  | .tryCatch _ guarded _ handler, _, h => handler.mem_hoistedNames (guarded.mem_hoistedNames h)
  | .literal .., _, h | .identifier .., _, h | .dynamic .., _, h | .this _, _, h | .call .., _, h
  | .member .., _, h | .binary .., _, h | .unary .., _, h | .assign .., _, h | .object .., _, h
  | .delete .., _, h | .ret .., _, h | .withObject .., _, h | .throw .., _, h => h

/-- Names that were found before are kept. -/
theorem mem_hoistedNamesOf {m : String} : ∀ (ns : List Node) {names : Array String}, m ∈ names →
    m ∈ hoistedNamesOf names ns
  | [], _, h => h
  | n :: rest, _, h => mem_hoistedNamesOf rest (n.mem_hoistedNames h)

end

/-- In place, the node binds nothing for the whole function but what hoisting finds. -/
def Node.Hoists (n : Node) : Prop :=
  ∀ pos m, n.isInPlace pos = true → .declared m ∈ n.bindings → pos = true ∧ ∀ names, m ∈ n.hoistedNames names

/-- Statements bind what hoisting finds in them. -/
theorem mem_hoistedNamesOf_of_declared {ns : List Node} (h : ∀ n ∈ ns, n.Hoists) {pos : Bool} {m : String}
    (hin : ∀ n ∈ ns, n.isInPlace pos = true) (hm : .declared m ∈ bindingsAll ns) :
    pos = true ∧ ∀ names, m ∈ hoistedNamesOf names ns := by
  induction ns with
  | nil => cases hm
  | cons n ns ih =>
    obtain ⟨hn, hns⟩ := List.forall_mem_cons.mp h
    obtain ⟨hin, hins⟩ := List.forall_mem_cons.mp hin
    obtain hm | hm := List.mem_append.mp hm
    · obtain ⟨hpos, hfound⟩ := hn pos m hin hm
      exact ⟨hpos, fun names => mem_hoistedNamesOf ns (hfound names)⟩
    · obtain ⟨hpos, hfound⟩ := ih hns hins hm
      exact ⟨hpos, fun names => hfound _⟩

/-- **A neutral node** hoists what its parts hoist. -/
theorem Node.Hoists.of_parts {n : Node} (hn : n.isNeutral = true) (h : ∀ p ∈ n.parts, p.Hoists) :
    n.Hoists := by
  intro pos m hin hm
  rw [Node.bindings_of_neutral hn] at hm
  obtain hall | ⟨i, ns, rfl, hall⟩ | ⟨i, condition, t, e, rfl, hcond, hall⟩ |
    ⟨i, condition, body, rfl, hcond, hbody⟩ | ⟨i, guarded, handler, rfl, hguarded, hhandler⟩ :=
    Node.isInPlace_parts hn hin
  · exact absurd (mem_hoistedNamesOf_of_declared h hall hm).1 Bool.false_ne_true
  · exact mem_hoistedNamesOf_of_declared h hall hm
  · obtain ⟨hcondition, hrest⟩ := List.forall_mem_cons.mp h
    obtain hm | hm := List.mem_append.mp hm
    · exact absurd (hcondition false m hcond hm).1 Bool.false_ne_true
    · obtain ⟨hpos, hfound⟩ := mem_hoistedNamesOf_of_declared hrest hall hm
      refine ⟨hpos, fun names => ?_⟩
      have hfound := hfound names
      cases e with
      | none => exact hfound
      | some e => exact hfound
  · simp only [parts, List.forall_mem_cons] at h
    rw [parts, bindingsAll, bindingsAll, bindingsAll, List.append_nil] at hm
    obtain hm | hm := List.mem_append.mp hm
    · exact absurd (h.1 false m hcond hm).1 Bool.false_ne_true
    · exact h.2.1 pos m hbody hm
  · have hall : ∀ n ∈ [guarded, handler], n.isInPlace pos = true := by
      simpa using ⟨hguarded, hhandler⟩
    exact mem_hoistedNamesOf_of_declared h hall hm

/-- **Nothing is bound** in the body of a `with` statement. -/
theorem Analyzes.bindings_eq_nil {c : Place} {t t' : ScopeTable} {ns ns' : List Node}
    (h : Analyzes c t ns t' ns') (hc : 0 < c.withs) : bindingsAll ns = [] := by
  induction h with
  | nil => rfl
  | cons _ _ ih ih' =>
    have hfirst := ih hc
    rw [bindingsAll, bindingsAll, List.append_nil] at hfirst
    rw [bindingsAll, hfirst, ih' hc]
    rfl
  | neutral i hn _ _ _ ih =>
    rw [bindingsAll, bindingsAll, List.append_nil, Node.bindings_of_neutral hn]
    exact ih hc
  | @folded c t t₁ t₂ n ps i l hn _ _ _ ih =>
    have hneutral : n.isNeutral = true := by
      obtain ⟨i, op, lhs, rhs, rfl⟩ | ⟨i, op, x, rfl⟩ := hn <;> rfl
    rw [bindingsAll, bindingsAll, List.append_nil, Node.bindings_of_neutral hneutral]
    exact ih hc
  | lowered t i i' hx => simp [bindingsAll, Node.bindings, hx]
  | reference t i i' hx => simp [bindingsAll, Node.bindings, hx]
  | definition t i i' _ hzero => omega
  | var i i' hzero => omega
  | tryCatch i i' hzero => omega
  | @function c t t₁ t₂ t₃ t₄ t₅ i i' name _ _ _ _ _ isDeclaration _ _ _ hzero =>
    have hnone : outerNames name isDeclaration = [] := Classical.byContradiction fun hne => by
      have := hzero hne
      omega
    rw [bindingsAll, bindingsAll, Node.bindings, hnone]
    rfl
  | withObject i i' _ _ iho ihb =>
    have hobject := iho hc
    have hbody := ihb (Nat.succ_pos _)
    simp only [bindingsAll, List.append_nil] at hobject hbody
    simp [bindingsAll, Node.bindings, hobject, hbody]

/-- **What is analyzed hoists** all that it binds in place. -/
theorem Analyzes.hoists {c : Place} {t t' : ScopeTable} {ns ns' : List Node} (h : Analyzes c t ns t' ns') :
    ∀ n ∈ ns, n.Hoists := by
  induction h with
  | nil => exact fun n hn => nomatch hn
  | cons _ _ ih ih' => exact List.forall_mem_cons.mpr ⟨ih _ List.mem_cons_self, ih'⟩
  | neutral i hn _ _ _ ih =>
    intro n' hn'
    rw [List.mem_singleton.mp hn']
    exact .of_parts hn ih
  | @folded c t t₁ t₂ n ps i l hn _ _ _ ih =>
    have hneutral : n.isNeutral = true := by
      obtain ⟨i, op, lhs, rhs, rfl⟩ | ⟨i, op, x, rfl⟩ := hn <;> rfl
    intro n' hn'
    rw [List.mem_singleton.mp hn']
    exact .of_parts hneutral ih
  | lowered t i i' hx | reference t i i' hx =>
    intro n hn pos m _ hm
    rw [List.mem_singleton.mp hn] at hm
    simp [Node.bindings, hx] at hm
  | definition t i i' hx =>
    intro n hn pos m hin _
    rw [List.mem_singleton.mp hn] at hin
    simp [Node.isInPlace, hx] at hin
  | @var c t t₁ t₂ i i' x init init' _ _ _ ih =>
    intro n hn pos m hin hm
    rw [List.mem_singleton.mp hn] at hin hm ⊢
    rw [Node.isInPlace, Bool.and_eq_true, inPlace?_iff] at hin
    obtain heq | hm := List.mem_cons.mp hm
    · cases heq
      exact ⟨hin.1, fun names => Array.mem_push_self⟩
    · rw [bindings?_eq] at hm
      exact absurd (mem_hoistedNamesOf_of_declared ih hin.2 hm).1 Bool.false_ne_true
  | @function c t t₁ t₂ t₃ t₄ t₅ i i' name _ _ _ _ _ isDeclaration _ _ _ =>
    intro n hn pos m hin hm
    rw [List.mem_singleton.mp hn] at hin hm ⊢
    rw [Node.isInPlace, Bool.and_eq_true] at hin
    cases isDeclaration with
    | false => simp [Node.bindings, outerNames] at hm
    | true =>
      cases name with
      | none => simp [Node.bindings, outerNames] at hm
      | some x =>
        simp only [Node.bindings, outerNames, if_true, Option.map_some, Option.toList_some, List.map_cons,
          List.map_nil, List.mem_singleton, BoundName.declared.injEq] at hm
        exact ⟨by simpa using hin.1, fun names => hm ▸ Array.mem_push_self⟩
  | withObject i i' _ hbody iho _ =>
    intro n hn pos m hin hm
    rw [List.mem_singleton.mp hn] at hin hm
    rw [Node.isInPlace, Bool.and_eq_true] at hin
    obtain hm | hm := List.mem_append.mp hm
    · exact absurd (iho _ List.mem_cons_self false m hin.1 hm).1 Bool.false_ne_true
    · have hnone := hbody.bindings_eq_nil (Nat.succ_pos _)
      rw [bindingsAll, bindingsAll, List.append_nil] at hnone
      rw [hnone] at hm
      cases hm
  | @tryCatch c t t₁ t₂ i i' guarded _ handler _ x _ _ _ ihb ihh =>
    intro n hn pos m hin hm
    rw [List.mem_singleton.mp hn] at hin hm ⊢
    rw [Node.isInPlace, Bool.and_eq_true] at hin
    obtain hm | hm := List.mem_append.mp hm
    · obtain ⟨hpos, hfound⟩ := ihb _ List.mem_cons_self pos m hin.1 hm
      exact ⟨hpos, fun names => handler.mem_hoistedNames (hfound names)⟩
    · obtain hm | hm := List.mem_append.mp hm
      · cases List.mem_singleton.mp hm
      · obtain ⟨hpos, hfound⟩ := ihh _ List.mem_cons_self pos m hin.2 hm
        exact ⟨hpos, fun names => hfound _⟩

/-- The function binds nothing but the names of its level. -/
def Site.InPlace : Site → Prop
  | .function _ L _ body => ∀ m, .declared m ∈ bindingsAll body → m ∈ L.names
  | _ => True

/-- **If names are bound in place**, a function binds nothing but its parameters, what is hoisted, and its own
name. -/
theorem Analyzes.inPlace {c : Place} {t t' : ScopeTable} {ns ns' : List Node} (h : Analyzes c t ns t' ns')
    (hin : ∀ n ∈ ns, ∃ pos, n.isInPlace pos = true) (Γ : List Level) (isLowered : Bool) :
    ∀ site ∈ sitesAll Γ isLowered ns', site.InPlace := by
  induction h generalizing Γ isLowered with
  | nil | folded | lowered => exact fun site hsite => absurd hsite List.not_mem_nil
  | cons _ _ ih ih' =>
    obtain ⟨hn, hns⟩ := List.forall_mem_cons.mp hin
    intro site hsite
    obtain hsite | hsite := List.mem_append.mp hsite
    · exact ih (List.forall_mem_singleton.mpr hn) Γ isLowered site (by rwa [sitesAll_singleton])
    · exact ih' hns Γ isLowered site hsite
  | @neutral c t t₁ t₂ n ps i hn hlength _ _ ih =>
    obtain ⟨hrebuilt, hneutral⟩ := Node.parts_rebuild i hn hlength
    rw [sitesAll_singleton, Node.sites_of_neutral Γ isLowered hneutral, hrebuilt]
    refine ih (fun p hp => ?_) Γ isLowered
    obtain ⟨pos, hpos⟩ := List.forall_mem_singleton.mp hin
    obtain hall | ⟨i, ns, rfl, hall⟩ | ⟨i, condition, t, e, rfl, hcond, hall⟩ |
      ⟨i, condition, body, rfl, hcond, hbody⟩ | ⟨i, guarded, handler, rfl, hguarded, hhandler⟩ :=
      Node.isInPlace_parts hn hpos
    · exact ⟨false, hall p hp⟩
    · exact ⟨pos, hall p hp⟩
    · obtain rfl | hp := List.mem_cons.mp hp
      · exact ⟨false, hcond⟩
      · exact ⟨pos, hall p hp⟩
    · obtain rfl | hp := List.mem_cons.mp hp
      · exact ⟨false, hcond⟩
      · exact ⟨pos, List.mem_singleton.mp hp ▸ hbody⟩
    · obtain rfl | hp := List.mem_cons.mp hp
      · exact ⟨pos, hguarded⟩
      · exact ⟨pos, List.mem_singleton.mp hp ▸ hhandler⟩
  | definition t i i' hx =>
    rw [sitesAll_singleton, Node.sites, if_pos hx]
    exact fun site hsite => absurd hsite List.not_mem_nil
  | reference t i i' hx =>
    rw [sitesAll_singleton, Node.sites, if_neg (by simp [hx])]
    exact List.forall_mem_singleton.mpr trivial
  | var i i' _ _ _ ih =>
    obtain ⟨pos, hpos⟩ := List.forall_mem_singleton.mp hin
    rw [Node.isInPlace, Bool.and_eq_true, inPlace?_iff] at hpos
    rw [sitesAll_singleton, Node.sites, sites?_eq]
    exact ih (fun p hp => ⟨false, hpos.2 p hp⟩) Γ isLowered
  | @function c t t₁ t₂ t₃ t₄ t₅ i i' name name' params params' body body' isDeclaration scope label s
      _ _ _ _ _ _ hbody _ ih =>
    obtain ⟨pos, hpos⟩ := List.forall_mem_singleton.mp hin
    rw [Node.isInPlace, Bool.and_eq_true, inPlaceAll_iff] at hpos
    rw [sitesAll_singleton, Node.sites]
    refine List.forall_mem_cons.mpr ⟨fun m hm => ?_, ih (fun n hn => ⟨true, hpos.2 n hn⟩) _ isLowered⟩
    rw [hbody.bindings_eq] at hm
    have hfound := (mem_hoistedNamesOf_of_declared hbody.hoists hpos.2 hm).2 #[]
    rw [← hoistedNamesOf_eq hbody.sameHoisted] at hfound
    exact List.mem_append_right _ (List.mem_append_left _ (Array.mem_toList_iff.mpr hfound))
  | withObject i i' _ _ iho ihb =>
    obtain ⟨pos, hpos⟩ := List.forall_mem_singleton.mp hin
    rw [Node.isInPlace, Bool.and_eq_true] at hpos
    have hobject := iho (List.forall_mem_singleton.mpr ⟨false, hpos.1⟩) Γ isLowered
    have hbody := ihb (List.forall_mem_singleton.mpr ⟨pos, hpos.2⟩) Γ true
    rw [sitesAll_singleton] at hobject hbody ⊢
    exact List.forall_mem_append.mpr ⟨hobject, List.forall_mem_cons.mpr ⟨trivial, hbody⟩⟩
  | tryCatch i i' _ _ _ ihb ihh =>
    obtain ⟨pos, hpos⟩ := List.forall_mem_singleton.mp hin
    rw [Node.isInPlace, Bool.and_eq_true] at hpos
    have hguarded := ihb (List.forall_mem_singleton.mpr ⟨pos, hpos.1⟩) Γ isLowered
    have hhandler := ihh (List.forall_mem_singleton.mpr ⟨pos, hpos.2⟩)
    rw [sitesAll_singleton] at hguarded ⊢
    simp only [sitesAll_singleton] at hhandler
    exact List.forall_mem_append.mpr
      ⟨hguarded, List.forall_mem_cons.mpr ⟨trivial, hhandler _ isLowered⟩⟩

/-! ## Where levels come from -/

/-- The levels that are seen from a site. -/
def Site.levels : Site → List Level
  | .use Γ _ | .handler Γ _ | .function Γ _ _ _ | .object Γ => Γ

/-- A level is one of the outer ones or that of a function among the sites, and what is caught in it is
caught by an outer handler or by one among the sites. -/
structure Level.Within (Γ : List Level) (sites : List Site) (L : Level) : Prop where
  /-- The function. -/
  origin : (∃ L' ∈ Γ, L'.scope = L.scope ∧ L'.names = L.names) ∨
    ∃ Γ' L' isLowered body, .function Γ' L' isLowered body ∈ sites ∧ L'.scope = L.scope ∧ L'.names = L.names
  /-- The handlers. -/
  caught : ∀ x ∈ L.caught, (∃ L' ∈ Γ, x ∈ L'.caught) ∨ ∃ Γ', .handler Γ' x ∈ sites

namespace Level.Within

variable {Γ : List Level} {sites sites' : List Site} {L : Level}

/-- An outer level. -/
theorem outer (hL : L ∈ Γ) : L.Within Γ sites := ⟨.inl ⟨L, hL, rfl, rfl⟩, fun _ hx => .inl ⟨L, hL, hx⟩⟩

/-- Among more sites. -/
theorem mono (h : L.Within Γ sites) (hsub : sites ⊆ sites') : L.Within Γ sites' := by
  refine ⟨h.origin.imp_right ?_, fun x hx => (h.caught x hx).imp_right ?_⟩
  · rintro ⟨Γ', L', isLowered, body, hmem, hsame⟩
    exact ⟨Γ', L', isLowered, body, hsub hmem, hsame⟩
  · rintro ⟨Γ', hmem⟩
    exact ⟨Γ', hsub hmem⟩

/-- Seen from outside a function. -/
theorem ofFunction {own : Level} {isLowered : Bool} {body : List Node} (hown : own.caught = [])
    (h : L.Within (own :: Γ) sites) : L.Within Γ (.function Γ own isLowered body :: sites) := by
  refine ⟨?_, fun x hx => ?_⟩
  · obtain ⟨L', hL', hsame⟩ | ⟨Γ', L', isLowered', body', hmem, hsame⟩ := h.origin
    · obtain rfl | hL' := List.mem_cons.mp hL'
      · exact .inr ⟨Γ, L', isLowered, body, List.mem_cons_self, hsame⟩
      · exact .inl ⟨L', hL', hsame⟩
    · exact .inr ⟨Γ', L', isLowered', body', List.mem_cons_of_mem _ hmem, hsame⟩
  · obtain ⟨L', hL', hx⟩ | ⟨Γ', hmem⟩ := h.caught x hx
    · obtain rfl | hL' := List.mem_cons.mp hL'
      · rw [hown] at hx
        cases hx
      · exact .inl ⟨L', hL', hx⟩
    · exact .inr ⟨Γ', List.mem_cons_of_mem _ hmem⟩

/-- Seen from outside a handler. -/
theorem ofHandler {x : Identifier} (h : L.Within (Γ.modifyHead (·.catching x)) sites) :
    L.Within Γ (.handler Γ x :: sites) := by
  have hhead : ∀ L' ∈ Γ.modifyHead (·.catching x), ∃ L'' ∈ Γ, L''.scope = L'.scope ∧ L''.names = L'.names ∧
      ∀ y ∈ L'.caught, y = x ∨ y ∈ L''.caught := by
    intro L' hL'
    cases Γ with
    | nil => cases hL'
    | cons L₀ Γ =>
      obtain rfl | hL' := List.mem_cons.mp hL'
      · exact ⟨L₀, List.mem_cons_self, rfl, rfl, fun y hy => List.mem_cons.mp hy⟩
      · exact ⟨L', List.mem_cons_of_mem _ hL', rfl, rfl, fun y hy => .inr hy⟩
  refine ⟨?_, fun y hy => ?_⟩
  · obtain ⟨L', hL', hscope, hnames⟩ | ⟨Γ', L', isLowered', body', hmem, hsame⟩ := h.origin
    · obtain ⟨L'', hL'', hscope', hnames', -⟩ := hhead L' hL'
      exact .inl ⟨L'', hL'', hscope'.trans hscope, hnames'.trans hnames⟩
    · exact .inr ⟨Γ', L', isLowered', body', List.mem_cons_of_mem _ hmem, hsame⟩
  · obtain ⟨L', hL', hy⟩ | ⟨Γ', hmem⟩ := h.caught y hy
    · obtain ⟨L'', hL'', -, -, hcaught⟩ := hhead L' hL'
      obtain rfl | hy := hcaught y hy
      · exact .inr ⟨Γ, List.mem_cons_self⟩
      · exact .inl ⟨L'', hL'', hy⟩
    · exact .inr ⟨Γ', List.mem_cons_of_mem _ hmem⟩

end Level.Within

/-- **The levels that are seen from the sites** of a walk. -/
theorem Analyzes.levels {c : Place} {t t' : ScopeTable} {ns ns' : List Node} (h : Analyzes c t ns t' ns')
    (Γ : List Level) (isLowered : Bool) :
    ∀ site ∈ sitesAll Γ isLowered ns', ∀ L ∈ site.levels, L.Within Γ (sitesAll Γ isLowered ns') := by
  induction h generalizing Γ isLowered with
  | nil | folded | lowered => exact fun site hsite => absurd hsite List.not_mem_nil
  | cons _ _ ih ih' =>
    have hfirst := ih Γ isLowered
    rw [sitesAll_singleton] at hfirst
    refine List.forall_mem_append.mpr ⟨fun site hsite L hL => ?_, fun site hsite L hL => ?_⟩
    · exact (hfirst site hsite L hL).mono (List.subset_append_left ..)
    · exact (ih' Γ isLowered site hsite L hL).mono (List.subset_append_right ..)
  | neutral i hn hlength _ _ ih =>
    obtain ⟨hrebuilt, hneutral⟩ := Node.parts_rebuild i hn hlength
    rw [sitesAll_singleton, Node.sites_of_neutral Γ isLowered hneutral, hrebuilt]
    exact ih Γ isLowered
  | definition t i i' hx =>
    rw [sitesAll_singleton, Node.sites, if_pos hx]
    exact fun site hsite => absurd hsite List.not_mem_nil
  | reference t i i' hx =>
    rw [sitesAll_singleton, Node.sites, if_neg (by simp [hx])]
    exact List.forall_mem_singleton.mpr fun L hL => .outer hL
  | var i i' _ _ _ ih =>
    rw [sitesAll_singleton, Node.sites, sites?_eq]
    exact ih Γ isLowered
  | function i i' label _ _ _ _ _ _ _ _ ih =>
    rw [sitesAll_singleton, Node.sites]
    exact List.forall_mem_cons.mpr
      ⟨fun L hL => .outer hL, fun site hsite L hL => (ih _ isLowered site hsite L hL).ofFunction rfl⟩
  | withObject i i' _ _ iho ihb =>
    have hobject := iho Γ isLowered
    have hbody := ihb Γ true
    rw [sitesAll_singleton] at hobject hbody ⊢
    rw [Node.sites]
    refine List.forall_mem_append.mpr ⟨fun site hsite L hL => ?_,
      List.forall_mem_cons.mpr ⟨fun L hL => .outer hL, fun site hsite L hL => ?_⟩⟩
    · exact (hobject site hsite L hL).mono (List.subset_append_left ..)
    · refine (hbody site hsite L hL).mono ?_
      exact List.Subset.trans (List.subset_cons_self ..) (List.subset_append_right ..)
  | tryCatch i i' _ _ _ ihb ihh =>
    have hguarded := ihb Γ isLowered
    rw [sitesAll_singleton] at hguarded ⊢
    simp only [sitesAll_singleton] at ihh
    rw [Node.sites]
    refine List.forall_mem_append.mpr ⟨fun site hsite L hL => ?_,
      List.forall_mem_cons.mpr ⟨fun L hL => .outer hL, fun site hsite L hL => ?_⟩⟩
    · exact (hguarded site hsite L hL).mono (List.subset_append_left ..)
    · exact ((ihh _ isLowered site hsite L hL).ofHandler).mono (List.subset_append_right ..)

/-! ## Programs -/

/-- What a program binds. -/
def Program.level (p : Program) : Level := .ofProgram p.body

/-- Analysis does not change what a program binds. -/
theorem Analyzes.level_eq {c : Place} {t t' : ScopeTable} {p p' : Program}
    (h : Analyzes c t p.body t' p'.body) : p'.level = p.level := by
  rw [Program.level, Level.ofProgram, hoistedNames, hoistedNamesOf_eq h.sameHoisted]
  rfl

/-- The sites of a program. -/
def Program.sites (p : Program) : List Site := sitesAll [p.level] false p.body

/-- An analyzed program and the table that analysis made. -/
structure Program.Scoping (p : Program) (T : ScopeTable) : Prop where
  /-- The table is in order. -/
  rooted : T.Rooted
  /-- At every site the right thing holds. -/
  lexical : ∀ site ∈ p.sites, site.Lexical T
  /-- The levels that are seen come from the sites. -/
  levels : ∀ site ∈ p.sites, ∀ L ∈ site.levels, L.Within [p.level] p.sites
  /-- Handlers have variables of their own. -/
  caught : (p.sites.filterMap Site.caughtIndex?).Pairwise (· < ·)
  /-- Functions have scopes of their own, and none has that of the program. -/
  scopes : (ScopeId.global.index :: p.sites.filterMap Site.scopeIndex?).Pairwise (· < ·)
  /-- No name stands for the variable of a handler. -/
  hidden : ∀ i ∈ p.sites.filterMap Site.caughtIndex?, ∀ s m, (T.scope s).own? m ≠ some ⟨i⟩
  /-- The names of the program stand for variables. -/
  names : ∀ m ∈ p.level.names, ((T.scope .global).own? m).isSome = true
  /-- Other names that stand for variables in the scope of the program are bound in odd positions or by
  nobody. -/
  bound : ∀ m v, (T.scope .global).own? m = some v →
    m ∈ p.level.names ∨ .declared m ∈ bindingsAll p.body ∨ T.Implicit m v
  /-- A name that no handler of the program has stands for its only variable there. -/
  sole : ∀ m, .caught m ∉ bindingsAll p.body → T.Sole .global m
  /-- Names are looked up at run time if there is a `with` statement anywhere. -/
  dynamic : hasWith p.body = true → (T.scope .global).isDynamic = true

/-- **A program is walked** by the rules, once the names that it binds have been declared. -/
theorem Analyzer.program_analyzes {p p' : Program} {a : Analyzer} (h : Analyzer.program {} p = (a, p'))
    (hok : a.failure = none) : ∃ t, ScopeTable.Declared .global p.level.names .empty t ∧
      Analyzes ⟨.global, 0, 0⟩ t p.body a.table p'.body := by
  rw [program] at h
  rcases hb : nodes (hoist { scope := .global } p.body) #[] p.body with ⟨a₁, body⟩
  simp only [hb] at h
  cases h
  have hbody : (hoist { scope := .global } p.body).nodesIn false p.body = (a, body) := hb
  obtain ⟨-, hwalk⟩ := passes_nodes p.body hbody (by rw [failed, hok]; rfl)
  refine ⟨_, ?_, (hwalk rfl).2⟩
  rw [hoist, modifyTable, ← Array.foldl_toList]
  exact .foldl ..

/-- A program is seen from its level at the start of its walk. -/
theorem ScopeTable.Declared.agrees {p : Program} {t : ScopeTable}
    (h : ScopeTable.Declared .global p.level.names .empty t) : Agrees [p.level] ⟨.global, 0, 0⟩ t := by
  obtain ⟨hstart, hnames⟩ := h.grows ScopeTable.rooted_empty Nat.zero_lt_one
  refine ⟨hstart.rooted, hstart.ext.size_le (i := 0) Nat.zero_lt_one, ?_, ?_, ?_, nofun⟩
  · exact hstart.ext.chain_eq ScopeTable.rooted_empty hstart.rooted (s := .global) Nat.zero_lt_one
  · exact List.forall_mem_singleton.mpr nofun
  · exact List.forall_mem_singleton.mpr hnames

/-- **Every analyzed program** is like that. -/
theorem Analyzer.program_scoping {p p' : Program} {a : Analyzer} (h : Analyzer.program {} p = (a, p'))
    (hok : a.failure = none) : p'.Scoping a.table := by
  obtain ⟨t, hdeclared, hwalk⟩ := program_analyzes h hok
  obtain ⟨hstart, hnames⟩ := hdeclared.grows ScopeTable.rooted_empty Nat.zero_lt_one
  have hlevel := hwalk.level_eq
  have hsize := hstart.ext.size_le (i := 0) Nat.zero_lt_one
  have hΓ := hdeclared.agrees
  have hgrows := hwalk.grows hΓ.rooted hΓ.inside
  have hnumbered := hwalk.numbered hΓ.rooted hΓ.inside [p.level] false
  refine ⟨hgrows.rooted, ?_, ?_, ?_, ?_, ?_, fun m hm => ?_, fun m v hv => ?_, fun m hm => ?_,
    hwalk.dynamic hΓ.rooted hΓ.inside⟩
  · rw [Program.sites, hlevel]
    exact hwalk.lexical hΓ (.refl _ hgrows.rooted) rfl
  · rw [Program.sites, hlevel]
    exact hwalk.levels [p.level] false
  · rw [Program.sites, hlevel]
    exact hnumbered.caught.pairwise
  · rw [Program.sites, hlevel, List.pairwise_cons]
    refine ⟨fun i hi => ?_, hnumbered.scopes.pairwise⟩
    exact Nat.lt_of_lt_of_le hsize (hnumbered.scopes.bounds i hi).1
  · rw [Program.sites, hlevel]
    exact hnumbered.hidden
  · rw [hlevel] at hm
    obtain ⟨v, hv⟩ := Option.isSome_iff_exists.mp (hnames m hm)
    rw [hgrows.own _ _ _ hv]
    rfl
  · rw [hlevel]
    obtain hv | ⟨-, hnew | ⟨-, himplicit⟩ | hle⟩ := hgrows.fresh _ m v hv
    · obtain hv | ⟨-, hnew | ⟨-, himplicit⟩ | hle⟩ := hstart.fresh _ m v hv
      · simp [ScopeTable.scope, ScopeTable.empty, ScopeId.global, Scope.own?] at hv
      · obtain ⟨m', hm', heq⟩ := List.mem_map.mp hnew.2
        cases heq
        exact .inl hm'
      · exact .inr (.inr (hgrows.implicit himplicit))
      · exact absurd hle (Nat.not_le.mpr Nat.zero_lt_one)
    · exact .inr (.inl (hwalk.bindings_eq ▸ hnew.2))
    · exact .inr (.inr himplicit)
    · exact absurd hsize (Nat.not_lt.mpr hle)
  · rw [hwalk.bindings_eq] at hm
    refine hgrows.sole _ m hsize (fun hcaught => hm hcaught.2) ?_
    refine hstart.sole _ m Nat.zero_lt_one (fun hcaught => ?_) fun i V hV => by cases hV
    obtain ⟨m', -, heq⟩ := List.mem_map.mp hcaught.2
    cases heq

/-! ## Binders -/

/-- What binds a name. -/
inductive Binder where
  /-- The parameter of a handler. -/
  | caught (x : Identifier)
  /-- The function or program of a scope, as a whole. -/
  | own (s : ScopeId) (name : String)

namespace Binder

/-- The name. -/
def name : Binder → String
  | caught x => x.name
  | own _ m => m

/-- The variable that the name stands for, where it is bound by this binder. -/
def var? (T : ScopeTable) : Binder → Option VarId
  | caught x => x.var
  | own s m => (T.scope s).own? m

end Binder

/-- The binders of a level: first the handlers, from the inside out, and then the function. -/
def Level.binders (L : Level) : List Binder := L.caught.map .caught ++ L.names.map (.own L.scope)

/-- The binders that a site brings. -/
def Site.binders : Site → List Binder
  | .handler _ x => [.caught x]
  | .function _ L _ _ => L.names.dedup.map (.own L.scope)
  | _ => []

/-- The binders of a program. -/
def Program.binders (p : Program) : List Binder :=
  p.level.names.dedup.map (.own .global) ++ p.sites.flatMap Site.binders

section

variable {T : ScopeTable} {L : Level} {Γ : List Level} {m : String} {v : VarId}

/-- The first binder of a name in a level. -/
theorem Level.find?_binders (L : Level) (m : String) :
    L.binders.find? (fun b => b.name == m) =
      ((L.caught? m).map .caught).or (if m ∈ L.names then some (.own L.scope m) else none) := by
  rw [binders, List.find?_append, List.find?_map, List.find?_map]
  congr 1
  have hsame : (fun b : Binder => b.name == m) ∘ Binder.own L.scope = fun m' => m' == m := rfl
  rw [hsame]
  split
  · next hm =>
    have hfound : (L.names.find? fun m' => m' == m).isSome = true :=
      List.find?_isSome.mpr ⟨m, hm, beq_self_eq_true m⟩
    obtain ⟨m', hm'⟩ := Option.isSome_iff_exists.mp hfound
    have hsame := List.find?_some hm'
    rw [hm', beq_iff_eq.mp hsame]
    rfl
  · next hm =>
    have hnone : (L.names.find? fun m' => m' == m) = none := by
      refine List.find?_eq_none.mpr fun m' hm' heq => hm ?_
      rwa [beq_iff_eq.mp heq] at hm'
    rw [hnone]
    rfl

/-- **What is seen is the innermost binder**, if nothing is bound but the names of levels: then a name that
has no binder is one that nobody declares. -/
theorem Sees.innermost (h : Sees T Γ m v) (hT : T.Rooted)
    (hchain : ∃ s : ScopeId, s.index < T.scopes.size ∧ T.chain s = Γ.map Level.scope)
    (hbound : ∀ L ∈ Γ, ∀ w, (T.scope L.scope).own? m = some w →
      m ∈ L.names ∨ L.scope = .global ∧ T.Implicit m w) :
    match (Γ.flatMap Level.binders).find? (fun b => b.name == m) with
    | some b => b.var? T = some v
    | none => (T.scope .global).own? m = some v ∧ T.Implicit m v := by
  induction Γ with
  | nil => exact h.elim
  | cons L Γ ih =>
    rw [List.flatMap_cons, List.find?_append, Level.find?_binders]
    rw [Sees] at h
    rcases hcaught : L.caught? m with _ | x
    · rw [hcaught] at h
      by_cases hm : m ∈ L.names
      · -- The function binds the name.
        rw [if_pos hm]
        exact h.resolve_right fun hout => hout.1 hm
      · rw [if_neg hm]
        obtain ⟨s, hs, hchain⟩ := hchain
        obtain ⟨hlast, rfl⟩ | ⟨p, hp, hlt, hmore⟩ := hT.chain_eq hs
        · -- The level of the program is the last one.
          rw [hlast] at hchain
          obtain ⟨hglobal, hΓ⟩ := List.cons.inj hchain
          obtain rfl := List.map_eq_nil_iff.mp hΓ.symm
          have hv := h.resolve_right fun hout => hout.2
          rw [← hglobal] at hv
          exact ⟨hv, ((hbound L List.mem_cons_self v (hglobal ▸ hv)).resolve_left hm).2⟩
        · rw [hmore] at hchain
          obtain ⟨hscope, hrest⟩ := List.cons.inj hchain
          obtain hv | ⟨-, hv⟩ := h
          · obtain hin | ⟨hglobal, -⟩ := hbound L List.mem_cons_self v hv
            · exact absurd hin hm
            · rw [hscope, hglobal] at hlt
              exact absurd hlt (Nat.not_lt_zero _)
          · exact ih hv ⟨p, Nat.lt_trans hlt hs, hrest⟩ fun L' hL' => hbound L' (List.mem_cons_of_mem L hL')
    · rw [hcaught] at h
      exact h

end

namespace Program.Scoping

variable {p : Program} {T : ScopeTable}

/-- The variable of a handler. -/
theorem handler (h : p.Scoping T) {Γ : List Level} {x : Identifier} (hx : .handler Γ x ∈ p.sites) :
    ∃ v, x.var = some v ∧ v.index ∈ p.sites.filterMap Site.caughtIndex? := by
  obtain ⟨L, Γ', v, -, hv, -⟩ := h.lexical _ hx
  refine ⟨v, hv, List.mem_filterMap.mpr ⟨_, hx, ?_⟩⟩
  rw [Site.caughtIndex?, hv]
  rfl

/-- The binders that a site brings have variables, those of a function among its own. -/
theorem binders_var? (h : p.Scoping T) {site : Site} (hsite : site ∈ p.sites) {b : Binder}
    (hb : b ∈ site.binders) : ∃ v, b.var? T = some v := by
  cases site with
  | use | object => cases hb
  | handler Γ x =>
    rw [List.mem_singleton.mp hb]
    obtain ⟨v, hv, -⟩ := h.handler hsite
    exact ⟨v, hv⟩
  | function Γ L isLowered body =>
    obtain ⟨m, hm, rfl⟩ := List.mem_map.mp hb
    exact Option.isSome_iff_exists.mp ((h.lexical _ hsite).2.1 m (List.mem_dedup.mp hm))

/-- In one scope, different names stand for different variables. -/
theorem nodup_own (h : p.Scoping T) (s : ScopeId) {names : List String}
    (hnames : ∀ m ∈ names, ((T.scope s).own? m).isSome = true) :
    ((names.dedup.map (Binder.own s)).map (Binder.var? T)).Nodup := by
  rw [List.map_map]
  refine List.Nodup.map_on (fun m hm m' hm' heq => ?_) (List.nodup_dedup names)
  obtain ⟨v, hv⟩ := Option.isSome_iff_exists.mp (hnames m (List.mem_dedup.mp hm))
  obtain ⟨V, hV, -, hname⟩ := h.rooted.valid.own hv
  obtain ⟨V', hV', -, hname'⟩ := h.rooted.valid.own (heq.symm.trans hv : (T.scope s).own? m' = some v)
  obtain rfl : V = V' := Option.some.inj (hV.symm.trans hV')
  exact hname.symm.trans hname'

/-- What a name stands for is no variable of a handler. -/
theorem own_ne_caught (h : p.Scoping T) {Γ : List Level} {x : Identifier} (hx : .handler Γ x ∈ p.sites)
    {s : ScopeId} {m : String} {v : VarId} (hv : (T.scope s).own? m = some v) : x.var ≠ some v := by
  obtain ⟨w, hw, hmem⟩ := h.handler hx
  intro heq
  obtain rfl : w = v := Option.some.inj (hw.symm.trans heq)
  exact h.hidden _ hmem s m hv

/-- Names of different scopes stand for different variables. -/
theorem own_ne_own (h : p.Scoping T) {s s' : ScopeId} (hs : s ≠ s') {m m' : String} {v : VarId}
    (hv : (T.scope s).own? m = some v) : (T.scope s').own? m' ≠ some v := by
  intro hv'
  obtain ⟨V, hV, hscope, -⟩ := h.rooted.valid.own hv
  obtain ⟨V', hV', hscope', -⟩ := h.rooted.valid.own hv'
  obtain rfl : V = V' := Option.some.inj (hV.symm.trans hV')
  exact hs (hscope.symm.trans hscope')

/-- The scope of a function is not that of the program. -/
theorem scope_ne_global (h : p.Scoping T) {Γ : List Level} {L : Level} {isLowered : Bool} {body : List Node}
    (hsite : .function Γ L isLowered body ∈ p.sites) : L.scope ≠ .global := by
  intro hglobal
  have hlt := (List.pairwise_cons.mp h.scopes).1 L.scope.index (List.mem_filterMap.mpr ⟨_, hsite, rfl⟩)
  rw [hglobal] at hlt
  exact absurd hlt (Nat.lt_irrefl _)

/-- A scope is that of one function only. -/
theorem eq_of_scope_eq (h : p.Scoping T) {Γ Γ' : List Level} {L L' : Level} {isLowered isLowered' : Bool}
    {body body' : List Node} (hsite : .function Γ L isLowered body ∈ p.sites)
    (hsite' : .function Γ' L' isLowered' body' ∈ p.sites) (hscope : L.scope = L'.scope) :
    Site.function Γ L isLowered body = .function Γ' L' isLowered' body' := by
  have hlt := List.pairwise_filterMap.mp (List.pairwise_cons.mp h.scopes).2
  refine List.Pairwise.forall_of_forall_of_flip
    (R := fun a b => ∀ i, a.scopeIndex? = some i → b.scopeIndex? = some i → a = b) (fun _ _ _ _ _ => rfl)
    (hlt.imp fun hlt i hi hj => ?_) (hlt.imp fun hlt i hi hj => ?_) hsite hsite' L.scope.index rfl
    (congrArg (some ·.index) hscope.symm)
  · exact absurd (hlt i hi i hj) (Nat.lt_irrefl i)
  · exact absurd (hlt i hj i hi) (Nat.lt_irrefl i)

/-- Two sites bring binders with different variables. -/
theorem disjoint_binders (h : p.Scoping T) {a b : Site} (ha : a ∈ p.sites) (hb : b ∈ p.sites)
    (hcaught : ∀ i, a.caughtIndex? = some i → ∀ j, b.caughtIndex? = some j → i < j)
    (hscopes : ∀ i, a.scopeIndex? = some i → ∀ j, b.scopeIndex? = some j → i < j) :
    (a.binders.map (Binder.var? T)).Disjoint (b.binders.map (Binder.var? T)) := by
  intro o hoa hob
  obtain ⟨c, hc, rfl⟩ := List.mem_map.mp hoa
  obtain ⟨d, hd, heq⟩ := List.mem_map.mp hob
  obtain ⟨v, hv⟩ := h.binders_var? ha hc
  rw [hv] at heq
  cases a with
  | use | object => cases hc
  | handler Γ x =>
    rw [List.mem_singleton.mp hc] at hv
    cases b with
    | use | object => cases hd
    | handler Γ' y =>
      rw [List.mem_singleton.mp hd] at heq
      have hlt := hcaught v.index (congrArg (Option.map VarId.index) hv) v.index
        (congrArg (Option.map VarId.index) heq)
      exact absurd hlt (Nat.lt_irrefl _)
    | function Γ' L isLowered body =>
      obtain ⟨m, -, rfl⟩ := List.mem_map.mp hd
      exact h.own_ne_caught ha heq hv
  | function Γ L isLowered body =>
    obtain ⟨m, -, rfl⟩ := List.mem_map.mp hc
    cases b with
    | use | object => cases hd
    | handler Γ' y =>
      rw [List.mem_singleton.mp hd] at heq
      exact h.own_ne_caught hb hv heq
    | function Γ' L' isLowered' body' =>
      obtain ⟨m', -, rfl⟩ := List.mem_map.mp hd
      refine h.own_ne_own (fun hsame => ?_) hv heq
      have hlt := hscopes L.scope.index rfl L'.scope.index rfl
      rw [hsame] at hlt
      exact absurd hlt (Nat.lt_irrefl _)

/-- **Different binders have different variables.** -/
theorem nodup_binders (h : p.Scoping T) : (p.binders.map (Binder.var? T)).Nodup := by
  have hscopes := (List.pairwise_cons.mp h.scopes).2
  rw [Program.binders, List.map_append, List.map_flatMap]
  refine List.nodup_append'.mpr ⟨h.nodup_own .global h.names, List.nodup_flatMap.mpr ⟨fun site hsite => ?_, ?_⟩,
    fun o ho ho' => ?_⟩
  · cases site with
    | use | object => exact List.nodup_nil
    | handler Γ x => exact List.nodup_singleton _
    | function Γ L isLowered body => exact h.nodup_own L.scope (h.lexical _ hsite).2.1
  · have hboth := (List.pairwise_filterMap.mp h.caught).and (List.pairwise_filterMap.mp hscopes)
    exact hboth.imp_of_mem fun ha hb hlt => h.disjoint_binders ha hb hlt.1 hlt.2
  · obtain ⟨b, hb, rfl⟩ := List.mem_map.mp ho
    obtain ⟨m, hm, rfl⟩ := List.mem_map.mp hb
    obtain ⟨v, hv⟩ := Option.isSome_iff_exists.mp (h.names m (List.mem_dedup.mp hm))
    obtain ⟨site, hsite, ho'⟩ := List.mem_flatMap.mp ho'
    obtain ⟨d, hd, heq⟩ := List.mem_map.mp ho'
    have heq : d.var? T = some v := heq.trans hv
    cases site with
    | use | object => cases hd
    | handler Γ x =>
      rw [List.mem_singleton.mp hd] at heq
      exact h.own_ne_caught hsite hv heq
    | function Γ L isLowered body =>
      obtain ⟨m', -, rfl⟩ := List.mem_map.mp hd
      exact h.own_ne_own (h.scope_ne_global hsite).symm hv heq

/-- The binders that are seen from a site are among those of the program. -/
theorem mem_binders (h : p.Scoping T) {site : Site} (hsite : site ∈ p.sites) {b : Binder}
    (hb : b ∈ site.levels.flatMap Level.binders) : b ∈ p.binders := by
  obtain ⟨L, hL, hb⟩ := List.mem_flatMap.mp hb
  have hwithin := h.levels site hsite L hL
  rw [Program.binders, List.mem_append]
  obtain hb | hb := List.mem_append.mp hb
  · obtain ⟨x, hx, rfl⟩ := List.mem_map.mp hb
    obtain ⟨L', hL', hx⟩ | ⟨Γ, hmem⟩ := hwithin.caught x hx
    · rw [List.mem_singleton.mp hL'] at hx
      cases hx
    · exact .inr (List.mem_flatMap.mpr ⟨_, hmem, List.mem_singleton_self _⟩)
  · obtain ⟨m, hm, rfl⟩ := List.mem_map.mp hb
    obtain ⟨L', hL', hscope, hnames⟩ | ⟨Γ, L', isLowered, body, hmem, hscope, hnames⟩ := hwithin.origin
    · rw [List.mem_singleton.mp hL'] at hscope hnames
      rw [← hscope]
      exact .inl (List.mem_map_of_mem (List.mem_dedup.mpr (hnames ▸ hm)))
    · rw [← hscope]
      exact .inr (List.mem_flatMap.mpr ⟨_, hmem, List.mem_map_of_mem (List.mem_dedup.mpr (hnames ▸ hm))⟩)

/-- If names are bound in place, the levels that are seen bind all that is bound in their scopes, but for
names that nobody declares. -/
theorem bound_level (h : p.Scoping T) (hsites : ∀ site ∈ p.sites, site.InPlace)
    (hbody : ∀ m, .declared m ∈ bindingsAll p.body → m ∈ p.level.names) {site : Site} (hsite : site ∈ p.sites)
    {L : Level} (hL : L ∈ site.levels) {m : String} {v : VarId} (hv : (T.scope L.scope).own? m = some v) :
    m ∈ L.names ∨ L.scope = .global ∧ T.Implicit m v := by
  obtain ⟨L', hL', hscope, hnames⟩ | ⟨Γ, L', isLowered, body, hmem, hscope, hnames⟩ :=
    (h.levels site hsite L hL).origin
  · rw [List.mem_singleton.mp hL'] at hscope hnames
    rw [← hscope] at hv
    obtain hm | hm | himplicit := h.bound m v hv
    · exact .inl (hnames ▸ hm)
    · exact .inl (hnames ▸ hbody m hm)
    · exact .inr ⟨hscope.symm, himplicit⟩
  · rw [← hscope] at hv
    obtain hm | hm := (h.lexical _ hmem).2.2.1 m v hv
    · exact .inl (hnames ▸ hm)
    · exact .inl (hnames ▸ hsites _ hmem m hm)

end Program.Scoping

/-- **Resolution is lexical**, whatever the order of declarations and uses. Analyze a program that binds names
only where a statement may stand. Then different binders have different variables, and every name that is
left in the tree as a use stands for the variable of its innermost binder: of the handlers around it within
its function, then of that function as a whole (its parameters, the names that are hoisted in its body, and
the name of a function expression), then of the function around it as seen from where the inner one is
written, and so on up to the program. A name that has no binder stands, wherever it is used, for the one
variable that the scope of the program has for it: a global that scripts may delete. -/
theorem Analyzer.program_lexical {p p' : Program} {a : Analyzer} (hp : p.isInPlace = true)
    (h : Analyzer.program {} p = (a, p')) (hok : a.failure = none) :
    (∀ b ∈ p'.binders, (b.var? a.table).isSome = true) ∧ (p'.binders.map (Binder.var? a.table)).Nodup ∧
      ∀ Γ x, .use Γ x ∈ p'.sites →
        match (Γ.flatMap Level.binders).find? (fun b => b.name == x.name) with
        | some b => b ∈ p'.binders ∧ x.var = b.var? a.table
        | none => ∃ v, x.var = some v ∧ (a.table.scope .global).own? x.name = some v ∧
          a.table.Implicit x.name v := by
  have hscoping := program_scoping h hok
  obtain ⟨t, -, hwalk⟩ := program_analyzes h hok
  have hin := inPlaceAll_iff.mp hp
  have hlevel := hwalk.level_eq
  have hsites : ∀ site ∈ p'.sites, site.InPlace := by
    rw [Program.sites]
    exact hwalk.inPlace (fun n hn => ⟨true, hin n hn⟩) _ _
  have hbody : ∀ m, .declared m ∈ bindingsAll p'.body → m ∈ p'.level.names := by
    intro m hm
    rw [hwalk.bindings_eq] at hm
    rw [hlevel]
    exact Array.mem_toList_iff.mpr ((mem_hoistedNamesOf_of_declared hwalk.hoists hin hm).2 #[])
  refine ⟨fun b hb => ?_, hscoping.nodup_binders, fun Γ x hx => ?_⟩
  · obtain hb | hb := List.mem_append.mp hb
    · obtain ⟨m, hm, rfl⟩ := List.mem_map.mp hb
      exact hscoping.names m (List.mem_dedup.mp hm)
    · obtain ⟨site, hsite, hb⟩ := List.mem_flatMap.mp hb
      obtain ⟨v, hv⟩ := hscoping.binders_var? hsite hb
      rw [hv]
      rfl
  · obtain ⟨hchain, v, hv, hsees⟩ := hscoping.lexical _ hx
    have hinner := hsees.innermost hscoping.rooted hchain fun L hL w hw =>
      hscoping.bound_level hsites hbody hx hL hw
    split
    · next b hb =>
      rw [hb] at hinner
      exact ⟨hscoping.mem_binders hx (List.mem_of_find?_eq_some hb), hv.trans hinner.symm⟩
    · next hnone =>
      rw [hnone] at hinner
      exact ⟨v, hv, hinner⟩

/-- A program with a handler inside a function, where a name is bound by the program, by the function and by
the handler. -/
def thriceBound : Program :=
  ⟨[.var .none (.definition "e") none,
    .function .none (some (.definition "f")) [.definition "e"]
      [.tryCatch .none (.block .none []) (some (.definition "e"))
        (.block .none [.identifier .none (.reference "e")]), .identifier .none (.reference "e")] true none,
    .identifier .none (.reference "e"), .identifier .none (.reference "g")], none, false⟩

/-- The name that is used at a site. -/
def Site.used? : Site → Option String
  | .use _ x => some x.name
  | _ => none

/-- The four uses of names in this program are resolved by their innermost binders. -/
theorem Analyzer.program_lexical_thriceBound :
    ∃ a p, Analyzer.program {} thriceBound = (a, p) ∧
      p.sites.filterMap Site.used? = ["e", "e", "e", "g"] ∧
      (∀ b ∈ p.binders, (b.var? a.table).isSome = true) ∧ (p.binders.map (Binder.var? a.table)).Nodup ∧
      ∀ Γ x, .use Γ x ∈ p.sites →
        match (Γ.flatMap Level.binders).find? (fun b => b.name == x.name) with
        | some b => b ∈ p.binders ∧ x.var = b.var? a.table
        | none => ∃ v, x.var = some v ∧ (a.table.scope .global).own? x.name = some v ∧
          a.table.Implicit x.name v := by
  have huses : (program {} thriceBound).2.sites.filterMap Site.used? = ["e", "e", "e", "g"] := by
    decide +kernel
  have hok : (program {} thriceBound).1.failure = none := by decide +kernel
  rcases h : program {} thriceBound with ⟨a, p⟩
  rw [h] at huses hok
  exact ⟨a, p, rfl, huses, program_lexical (by decide) h hok⟩

end ScriptEngine
