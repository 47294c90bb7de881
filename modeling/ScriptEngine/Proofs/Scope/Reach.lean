import ScriptEngine.Proofs.Scope.Binders
import ScriptEngine.Proofs.Scope.Resolution

/-!
# Names and the scopes around them

Code gets at a variable along the chain of environments, so the scope that declares it has to be on the chain
of the scope that uses it. Analysis sees to that: it looks for a name from the inside out, and what it does not
find becomes a variable of the program, whose scope is on every chain. Once the table is finished, no number in
the tree and none in the table leads out of the table (`Analyzer.program_resolved`), so that it does not matter
what comes behind it (`ScopeTable.Begins`).
-/

namespace ScriptEngine

/-! ## Uses -/

mutual

/-- The names that are nodes of their own, each with the scope of the code that it stands in. -/
def Node.uses (s : ScopeId) : Node → List (ScopeId × Identifier)
  | .identifier _ x => [(s, x)]
  | .call _ target args => target.uses s ++ usesAll s args
  | .member _ target _ => target.uses s
  | .binary _ _ lhs rhs => lhs.uses s ++ rhs.uses s
  | .unary _ _ operand => operand.uses s
  | .assign _ target value => target.uses s ++ value.uses s
  | .function _ _ _ body _ scope => usesAll (scope.getD .global) body
  | .object _ ps => usesOfProperties s ps
  | .delete _ target => target.uses s
  | .var _ _ init => uses? s init
  | .ret _ value => uses? s value
  | .cond _ condition thenBranch elseBranch =>
    condition.uses s ++ (thenBranch.uses s ++ uses? s elseBranch)
  | .loop _ condition body => condition.uses s ++ body.uses s
  | .block _ statements => usesAll s statements
  | .withObject _ object body => object.uses s ++ body.uses s
  | .throw _ value => value.uses s
  | .tryCatch _ block _ handler => block.uses s ++ handler.uses s
  | .literal .. | .dynamic .. | .this _ => []

/-- The names in nodes. -/
def usesAll (s : ScopeId) : List Node → List (ScopeId × Identifier)
  | [] => []
  | n :: rest => n.uses s ++ usesAll s rest

/-- The names in a node that may be missing. -/
def uses? (s : ScopeId) : Option Node → List (ScopeId × Identifier)
  | none => []
  | some n => n.uses s

/-- The names in the values of properties. -/
def usesOfProperties (s : ScopeId) : List (String × Node) → List (ScopeId × Identifier)
  | [] => []
  | (_, value) :: rest => value.uses s ++ usesOfProperties s rest

end

section

variable (s : ScopeId)

/-- The names in a single node. -/
theorem usesAll_singleton (n : Node) : usesAll s [n] = n.uses s := by
  rw [usesAll, usesAll, List.append_nil]

/-- The names in a node that may be missing. -/
theorem uses?_eq (n : Option Node) : uses? s n = usesAll s n.toList := by
  cases n with
  | none => rfl
  | some n => exact (usesAll_singleton s n).symm

/-- The names in the values of properties. -/
theorem usesOfProperties_eq (ps : List (String × Node)) :
    usesOfProperties s ps = usesAll s (ps.map Prod.snd) := by
  induction ps with
  | nil => rfl
  | cons p ps ih => rw [usesOfProperties, ih, List.map_cons, usesAll]

/-- **The names in a neutral node** are those in its parts. -/
theorem Node.uses_of_neutral {n : Node} (hn : n.isNeutral = true) : n.uses s = usesAll s n.parts := by
  cases n with
  | identifier | function | var | withObject => cases hn
  | object i ps => exact usesOfProperties_eq s ps
  | ret i value => exact uses?_eq s value
  | cond i condition thenBranch elseBranch => rw [uses, uses?_eq]; rfl
  | tryCatch i block param handler =>
    cases param with
    | some x => cases hn
    | none => simp [uses, parts, usesAll]
  | _ => simp [uses, parts, usesAll]

end

/-! ## Reaching -/

/-- The name stands for a variable of the table, and code of the scope finds the scope of the variable around
itself. -/
structure Identifier.Reached (T : ScopeTable) (s : ScopeId) (x : Identifier) : Prop where
  /-- The scope is there. -/
  inside : s.index < T.scopes.size
  /-- The variable. -/
  found : ∃ v V, x.var = some v ∧ T.vars[v.index]? = some V ∧ V.scope ∈ T.chain s

namespace Identifier

variable {t t' : ScopeTable} {s : ScopeId} {x : Identifier}

/-- What is reached stays so while scopes keep the scope around them. -/
theorem Reached.mono (h : x.Reached t s) (hext : t.Extends t') (ht : t.Nested) (ht' : t'.Nested) :
    x.Reached t' s := by
  obtain ⟨hs, v, V, hv, hV, hmem⟩ := h
  obtain ⟨V', hV', -, hscope, -⟩ := hext.vars _ V hV
  refine ⟨hext.size_le hs, v, V', hv, hV', ?_⟩
  rw [hscope, hext.chain_eq_of_nested ht ht' hs]
  exact hmem

/-- What is reached stays so while a table grows. -/
theorem Reached.grows {N : ScopeId → BoundName → Prop} (h : x.Reached t s) (ht : t.Rooted)
    (hgrows : t.Grows N t') : x.Reached t' s :=
  h.mono hgrows.ext ht.valid.nested hgrows.rooted.valid.nested

/-- A variable of the scope itself is reached. -/
theorem Own.reached (h : x.Own t s) (ht : t.Nested) (hs : s.index < t.scopes.size) : x.Reached t s := by
  obtain ⟨v, hv, V, hV, hscope, -⟩ := h
  refine ⟨hs, v, V, hv, hV, ?_⟩
  rw [hscope, ht.chain_eq hs]
  exact List.mem_cons_self

end Identifier

/-- **A name is resolved** to a variable that is found from the inside out, or to one of the program. -/
theorem ScopeTable.Rooted.reached_resolve {t : ScopeTable} (h : t.Rooted) {s : ScopeId}
    (hs : s.index < t.scopes.size) {x : Identifier} (hx : x.var = some (t.resolve s x.name).1) :
    x.Reached (t.resolve s x.name).2 s := by
  have hgrows := grows_resolve h hs x.name (N := fun _ _ => False)
  refine ⟨hgrows.ext.size_le hs, (t.resolve s x.name).1, ?_⟩
  rw [hgrows.ext.chain_eq h hgrows.rooted hs]
  rcases hlookup : t.lookup? s x.name with _ | v
  · have hnew : t.resolve s x.name =
        t.insert { name := x.name, scope := .global, storage := .global, isDeletable := true } := by
      rw [resolve, hlookup]
    rw [hnew] at hx ⊢
    exact ⟨_, hx, insert_getElem? _, h.global_mem_chain hs⟩
  · obtain ⟨id, hid, hown⟩ := List.exists_of_findSome?_eq_some hlookup
    obtain ⟨V, hV, hscope, -⟩ := h.valid.own hown
    have hv : (t.resolve s x.name).1 = v := by
      rw [resolve, hlookup]
      simp only
      split <;> rfl
    obtain ⟨V', hV', -, hscope', -⟩ := hgrows.ext.vars _ V hV
    rw [hv] at hx ⊢
    exact ⟨V', hx, hV', hscope'.trans hscope ▸ hid⟩

/-- **Analysis** leaves only names that are reached from where they stand. -/
theorem Analyzes.reached {c : Place} {t t' : ScopeTable} {ns ns' : List Node}
    (h : Analyzes c t ns t' ns') (ht : t.Rooted) (hc : c.scope.index < t.scopes.size) :
    ∀ use ∈ usesAll c.scope ns', use.2.Reached t' use.1 := by
  induction h with
  | nil | folded | lowered => exact fun use huse => nomatch huse
  | cons hfirst hrest ih ih' =>
    have hgrows := hfirst.grows ht hc
    have hc₁ := hgrows.ext.size_le hc
    rw [usesAll, List.forall_mem_append]
    refine ⟨fun use huse => ?_, ih' hgrows.rooted hc₁⟩
    exact (ih ht hc use (by rwa [usesAll_singleton])).grows hgrows.rooted (hrest.grows hgrows.rooted hc₁)
  | neutral i hn hlength hparts hhints ih =>
    obtain ⟨hrebuilt, hneutral⟩ := Node.parts_rebuild i hn hlength
    have hgrows := hparts.grows ht hc
    rw [usesAll_singleton, Node.uses_of_neutral _ hneutral, hrebuilt]
    exact fun use huse => (ih ht hc use huse).grows hgrows.rooted
      (hhints.grows hgrows.rooted (N := fun _ _ => False))
  | @definition c t i i' x hx =>
    have hgrows := ScopeTable.grows_declare ht hc x.name
    obtain ⟨-, hdeclares⟩ := ScopeTable.leads_declare ht.valid hc x.name
    rw [usesAll_singleton, Node.uses, List.forall_mem_singleton]
    exact Identifier.Own.reached ⟨_, rfl, hdeclares⟩ hgrows.rooted.valid.nested (hgrows.ext.size_le hc)
  | @reference c t i i' x =>
    rw [usesAll_singleton, Node.uses, List.forall_mem_singleton]
    exact ht.reached_resolve hc (x := { x with var := some (t.resolve c.scope x.name).1 }) rfl
  | @var c t t₁ t₂ i i' x init init' hw hinit hhints ih =>
    have hdeclare := ScopeTable.grows_declare ht hc x.name
    have hc₀ := hdeclare.ext.size_le hc
    have hgrows := hinit.grows hdeclare.rooted hc₀
    rw [usesAll_singleton, Node.uses, uses?_eq]
    exact fun use huse => (ih hdeclare.rooted hc₀ use huse).grows hgrows.rooted
      (hhints.grows hgrows.rooted (N := fun _ _ => False))
  | function i i' label _ houter hs hparams hinner _ hbody hhints ih =>
    obtain ⟨houter, -⟩ := houter.grows ht hc
    obtain ⟨hstart, -⟩ := ScopeTable.starts houter.rooted (houter.ext.size_le hc) hs hparams hinner
    have hgrows := hbody.grows hstart.grows.rooted hstart.inside
    rw [usesAll_singleton, Node.uses]
    exact fun use huse => (ih hstart.grows.rooted hstart.inside use huse).grows hgrows.rooted
      (hhints.grows hgrows.rooted (N := fun _ _ => False))
  | withObject i i' hobject hbody iho ihb =>
    have hgrows := hobject.grows ht hc
    have hc₁ := hgrows.ext.size_le hc
    have hmark := ScopeTable.grows_markDynamic hgrows.rooted hc₁ (N := fun _ _ => False)
    have hc₂ := hmark.ext.size_le hc₁
    simp only [usesAll_singleton] at iho ihb
    rw [usesAll_singleton, Node.uses, List.forall_mem_append]
    refine ⟨fun use huse => ?_, ihb hmark.rooted hc₂⟩
    exact ((iho ht hc use huse).grows hgrows.rooted hmark).grows hmark.rooted (hbody.grows hmark.rooted hc₂)
  | @tryCatch c t t₁ t₂ i i' block block' handler handler' x _ hblock hhandler ihb ihh =>
    have hgrows := hblock.grows ht hc
    have hc₁ := hgrows.ext.size_le hc
    -- Closing the binding changes what its name stands for, and no variable.
    obtain ⟨hopen, hr₂, hc₂, hgrows₂, hclose⟩ := hhandler.catches hgrows.rooted hc₁
    simp only [usesAll_singleton] at ihb ihh
    rw [usesAll_singleton, Node.uses, List.forall_mem_append]
    refine ⟨fun use huse => ?_, fun use huse => ?_⟩
    · exact (ihb ht hc use huse).mono ((hopen.ext.trans hgrows₂.ext).trans hclose.ext)
        hgrows.rooted.valid.nested hclose.valid.nested
    · exact (ihh hr₂ hc₂ use huse).mono hclose.ext hgrows₂.rooted.valid.nested hclose.valid.nested

/-! ## Within the table -/

namespace ScopeTable

/-- No number in the table leads out of it. -/
structure Closed (t : ScopeTable) : Prop where
  /-- A scope lies in an earlier one. -/
  nested : t.Nested
  /-- A variable belongs to a scope that is there. -/
  scopes : ∀ (i : Nat) V, t.vars[i]? = some V → V.scope.index < t.scopes.size
  /-- A scope lists variables that are there. -/
  order : ∀ (i : Nat) S, t.scopes[i]? = some S → ∀ v ∈ S.order, v.index < t.vars.size

/-- **A finished table** is closed. -/
theorem closed_finish {t : ScopeTable} (hv : t.Valid) : t.finish.Closed := by
  obtain ⟨-, hnested, -, hscopes⟩ := placed_finish hv
  have h := finishes hv
  refine ⟨hnested, fun i V hV => ?_, fun i S hS v hmem => ?_⟩
  · obtain ⟨V₀, S, layout, hV₀, -, -, -, -, hrecord⟩ := h.var hv hV
    obtain ⟨S₀, hS₀, -⟩ := hv.listed i V₀ hV₀
    rw [hscopes, hrecord]
    exact (Array.getElem?_eq_some_iff.mp hS₀).choose
  · have hi : i < t.scopes.size := hscopes ▸ (Array.getElem?_eq_some_iff.mp hS).choose
    obtain ⟨layout, hlaid, -⟩ := h.laid i _ (Array.getElem?_eq_getElem hi)
    obtain rfl := Option.some.inj (hS.symm.trans hlaid)
    obtain ⟨V, hV, -⟩ := hv.order i _ (Array.getElem?_eq_getElem hi) v hmem
    rw [h.vars]
    exact (Array.getElem?_eq_some_iff.mp hV).choose

/-- The second table begins with the first one, whatever comes behind. -/
structure Begins (t t' : ScopeTable) : Prop where
  /-- The scopes of the first one are where they were. -/
  scopes : ∀ i < t.scopes.size, t'.scopes[i]? = t.scopes[i]?
  /-- So are its variables. -/
  vars : ∀ i < t.vars.size, t'.vars[i]? = t.vars[i]?
  /-- Slots have been assigned in both or in none. -/
  finished : t'.finished = t.finished

namespace Begins

variable {t t' : ScopeTable}

/-- A table begins with itself. -/
theorem refl (t : ScopeTable) : t.Begins t := ⟨fun _ _ => rfl, fun _ _ => rfl, rfl⟩

/-- A variable is what it was. -/
theorem var_eq (h : t.Begins t') {v : VarId} (hv : v.index < t.vars.size) : t'.var v = t.var v := by
  rw [var, var, h.vars v.index hv]

/-- A variable is where it was. -/
theorem slotOf_eq (h : t.Begins t') {v : VarId} (hv : v.index < t.vars.size) : t'.slotOf v = t.slotOf v := by
  rw [slotOf, slotOf, h.var_eq hv]

/-- A scope is what it was. -/
theorem scope_eq (h : t.Begins t') {s : ScopeId} (hs : s.index < t.scopes.size) :
    t'.scope s = t.scope s := by
  rw [scope, scope, h.scopes s.index hs]

/-- A scope is laid out as it was. -/
theorem layout_eq (h : t.Begins t') {s : ScopeId} (hs : s.index < t.scopes.size) :
    t'.layout s = t.layout s := by
  rw [layout, layout, h.scope_eq hs]

/-- Chains stay inside, so they are what they were. -/
theorem chain_eq (h : t.Begins t') (ht : t.Nested) {s : ScopeId} (hs : s.index < t.scopes.size) :
    t'.chain s = t.chain s := by
  have hwithin : ∀ (n : Nat) (s : ScopeId), s.index < t.scopes.size →
      t'.chainWithin n (some s) = t.chainWithin n (some s) := by
    intro n
    induction n with
    | zero => exact fun s hs => rfl
    | succ n ih =>
      intro s hs
      rw [chainWithin, chainWithin, h.scope_eq hs]
      rcases hp : (t.scope s).parent with _ | p
      · cases n <;> rfl
      · rw [scope, Array.getElem?_eq_getElem hs] at hp
        exact congrArg (s :: ·) (ih p (Nat.lt_trans (ht s.index _ (Array.getElem?_eq_getElem hs) p hp) hs))
  have hs' : s.index < t'.scopes.size := by
    have hsame := h.scopes s.index hs
    rw [Array.getElem?_eq_getElem hs] at hsame
    exact (Array.getElem?_eq_some_iff.mp hsame).choose
  rw [chain, hwithin _ s hs, ht.chainWithin_eq hs' hs, chain]

/-- Scopes on a chain are as many links away as they were. -/
theorem envDepth?_eq (h : t.Begins t') (ht : t.Nested) {s : ScopeId} (hs : s.index < t.scopes.size)
    (d : ScopeId) : t'.envDepth? s d = t.envDepth? s d := by
  rw [envDepth?, envDepth?, h.chain_eq ht hs]
  have hcount : ((t.chain s).takeWhile (· != d)).countP (fun id => (t'.scope id).needsEnv) =
      ((t.chain s).takeWhile (· != d)).countP (fun id => (t.scope id).needsEnv) := by
    refine List.countP_congr fun id hid => ?_
    have hmem := (List.takeWhile_sublist _).subset hid
    rw [h.scope_eq (Nat.lt_of_le_of_lt (ht.mem_chain_le hs hmem) hs)]
  simp only [hcount]

end Begins

/-- **A scope on a chain** is some number of links away. -/
theorem envDepth?_of_mem {t : ScopeTable} {s d : ScopeId} (h : d ∈ t.chain s) :
    ∃ n, t.envDepth? s d = some n := by
  have hcontains : (t.chain s).contains d = true := List.contains_iff_mem.mpr h
  simp only [envDepth?, hcontains]
  exact ⟨_, rfl⟩

end ScopeTable

/-! ## Programs -/

/-- The names of a program are resolved by a table: they stand for variables of the table, those that are used
are found from the inside out, and no number leads out of the table. -/
structure Program.Resolved (p : Program) (T : ScopeTable) : Prop where
  /-- No number in the table leads out of it. -/
  closed : T.Closed
  /-- The scope of the program is there. -/
  inside : 0 < T.scopes.size
  /-- The names that are bound, and those that are used, stand for variables of the table. -/
  bound : ScopedAll T .global false 0 p.body
  /-- Those that are used are found from where they stand. -/
  reached : ∀ use ∈ usesAll .global p.body, use.2.Reached T use.1

namespace Analyzer

variable {p p' : Program} {a : Analyzer}

/-- The names that are used in an analyzed program are found from where they stand. -/
theorem program_reached (h : program {} p = (a, p')) (hok : a.failure = none) :
    ∀ use ∈ usesAll .global p'.body, use.2.Reached a.table use.1 := by
  obtain ⟨t, hdeclared, hwalk⟩ := program_analyzes h hok
  obtain ⟨hstart, -⟩ := hdeclared.grows ScopeTable.rooted_empty Nat.zero_lt_one
  exact hwalk.reached hstart.rooted (hstart.ext.size_le (i := 0) Nat.zero_lt_one)

/-- **The names of an analyzed program** are resolved by the finished table. -/
theorem program_resolved (hp : p.isUnset = true) (h : program {} p = (a, p')) (hok : a.failure = none) :
    p'.Resolved a.finish := by
  obtain ⟨hvalid, hsize, -, hscoped⟩ := program_scoped hp h hok
  obtain ⟨hext, hnested, -, -⟩ := ScopeTable.placed_finish hvalid
  refine ⟨ScopeTable.closed_finish hvalid, hext.size_le hsize, hscoped _ hext, fun use huse => ?_⟩
  exact (program_reached h hok use huse).mono hext hvalid.nested hnested

end Analyzer

end ScriptEngine
