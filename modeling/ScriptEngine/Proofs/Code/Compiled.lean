import ScriptEngine.Compile
import ScriptEngine.Proofs.Code.Generated
import ScriptEngine.Proofs.Scope.Resolution

/-!
# Compiled units

What is known about a unit that was compiled from a program: every function was made of a source whose
names can be reached, over a table in which every variable has a slot of its own.
-/

namespace ScriptEngine

open Generation

/-- The names of a source can be reached from where they stand. -/
structure Source.Scoped (T : ScopeTable) (src : Source) : Prop where
  /-- The scope is there. -/
  inside : src.scope.index < T.scopes.size
  /-- The scope of a function lies in another one. -/
  outer : src.isProgram = false → ∃ outer, T.Encloses outer src.scope
  /-- The parameters are variables of the function. -/
  params : ∀ x ∈ src.params, x.Own T src.scope
  /-- The name of a function expression is a variable of the function, if it has a variable at all. -/
  name : src.isDeclaration = false → ∀ x ∈ src.name, x.var = none ∨ x.Own T src.scope
  /-- The names of the statements. -/
  body : ScopedAll T src.scope src.isLowered 0 src.body

section

variable {T : ScopeTable}

/-- The source of a function whose names can be reached. -/
theorem Source.scoped_ofFunction {s : ScopeId} {isLowered : Bool} {withs : Nat} {i : Info}
    {name : Option Identifier} {params : List Identifier} {body : List Node} {isDeclaration : Bool}
    {scope : Option ScopeId}
    (h : (Node.function i name params body isDeclaration scope).Scoped T s isLowered withs) :
    (Source.ofFunction isLowered withs name params body isDeclaration scope).Scoped T := by
  obtain ⟨inner, rfl, ⟨S, hS, hparent⟩, hparams, hname, hbody⟩ := h
  refine ⟨(Array.getElem?_eq_some_iff.mp hS).choose, fun _ => ⟨s, S, hS, hparent⟩, hparams,
    fun hexpr x hx => ?_, hbody⟩
  have hx := hname x hx
  rw [show isDeclaration = false from hexpr] at hx
  exact hx

mutual

/-- **The functions in a node** have names that can be reached, if the node has. -/
theorem Node.sources_scoped : ∀ (n : Node) {s : ScopeId} {isLowered : Bool} {withs : Nat}
    {pos : Position} (_ : n.Scoped T s isLowered withs), ∀ src ∈ n.sources isLowered withs pos,
      src.Scoped T
  | .call _ target args, s, isLowered, withs, pos, h, src, hsrc => by
    obtain hsrc | hsrc := List.mem_append.mp hsrc
    · exact target.sources_scoped h.1 src hsrc
    · exact sourcesAll_scoped args h.2 src hsrc
  | .member _ target _, s, isLowered, withs, pos, h, src, hsrc =>
    target.sources_scoped (s := s) h src hsrc
  | .binary _ _ lhs rhs, s, isLowered, withs, pos, h, src, hsrc => by
    obtain hsrc | hsrc := List.mem_append.mp hsrc
    · exact lhs.sources_scoped h.1 src hsrc
    · exact rhs.sources_scoped h.2 src hsrc
  | .unary _ _ operand, s, isLowered, withs, pos, h, src, hsrc =>
    operand.sources_scoped (s := s) h src hsrc
  | .assign _ target value, s, isLowered, withs, pos, h, src, hsrc => by
    obtain hsrc | hsrc := List.mem_append.mp hsrc
    · exact target.sources_scoped h.1 src hsrc
    · exact value.sources_scoped h.2 src hsrc
  | .function i name params body isDeclaration scope, s, isLowered, withs, pos, h, src, hsrc => by
    rw [Node.sources] at hsrc
    split at hsrc
    · cases hsrc
    · have hbody := h
      obtain ⟨inner, -, -, -, -, hbody⟩ := hbody
      obtain hsrc | hsrc := List.mem_append.mp hsrc
      · obtain hsrc | hsrc := List.mem_append.mp hsrc
        · exact hoistedSourcesAll_scoped body hbody src hsrc
        · exact sourcesAll_scoped body hbody src hsrc
      · rw [List.mem_singleton.mp hsrc]
        exact Source.scoped_ofFunction h
  | .object _ ps, s, isLowered, withs, pos, h, src, hsrc =>
    sourcesProperties_scoped ps (s := s) h src hsrc
  | .delete _ target, s, isLowered, withs, pos, h, src, hsrc =>
    target.sources_scoped (s := s) h src hsrc
  | .var _ _ init, s, isLowered, withs, pos, h, src, hsrc => sources?_scoped init h.2 src hsrc
  | .ret _ value, s, isLowered, withs, pos, h, src, hsrc =>
    sources?_scoped value (s := s) h src hsrc
  | .cond _ condition thenBranch elseBranch, s, isLowered, withs, pos, h, src, hsrc => by
    obtain hsrc | hsrc := List.mem_append.mp hsrc
    · obtain hsrc | hsrc := List.mem_append.mp hsrc
      · exact condition.sources_scoped h.1 src hsrc
      · exact thenBranch.sources_scoped h.2.1 src hsrc
    · exact sources?_scoped elseBranch h.2.2 src hsrc
  | .loop _ condition body, s, isLowered, withs, pos, h, src, hsrc => by
    obtain hsrc | hsrc := List.mem_append.mp hsrc
    · exact condition.sources_scoped h.1 src hsrc
    · exact body.sources_scoped h.2 src hsrc
  | .block _ statements, s, isLowered, withs, pos, h, src, hsrc =>
    sourcesAll_scoped statements (s := s) h src hsrc
  | .withObject _ object body, s, isLowered, withs, pos, h, src, hsrc => by
    obtain hsrc | hsrc := List.mem_append.mp hsrc
    · exact object.sources_scoped h.1 src hsrc
    · exact body.sources_scoped h.2 src hsrc
  | .throw _ value, s, isLowered, withs, pos, h, src, hsrc =>
    value.sources_scoped (s := s) h src hsrc
  | .tryCatch _ block _ handler, s, isLowered, withs, pos, h, src, hsrc => by
    obtain hsrc | hsrc := List.mem_append.mp hsrc
    · exact block.sources_scoped h.1 src hsrc
    · exact handler.sources_scoped h.2.2 src hsrc
  | .literal .., _, _, _, _, _, src, hsrc => by cases hsrc
  | .identifier .., _, _, _, _, _, src, hsrc => by cases hsrc
  | .dynamic .., _, _, _, _, _, src, hsrc => by cases hsrc
  | .this _, _, _, _, _, _, src, hsrc => by cases hsrc

/-- The functions in nodes. -/
theorem sourcesAll_scoped : ∀ (ns : List Node) {s : ScopeId} {isLowered : Bool} {withs : Nat}
    {pos : Position} (_ : ScopedAll T s isLowered withs ns), ∀ src ∈ sourcesAll isLowered withs pos ns,
      src.Scoped T
  | [], _, _, _, _, _, src, hsrc => by cases hsrc
  | n :: rest, s, isLowered, withs, pos, h, src, hsrc => by
    obtain hsrc | hsrc := List.mem_append.mp hsrc
    · exact n.sources_scoped h.1 src hsrc
    · exact sourcesAll_scoped rest h.2 src hsrc

/-- The functions in a node that may be missing. -/
theorem sources?_scoped : ∀ (n : Option Node) {s : ScopeId} {isLowered : Bool} {withs : Nat}
    {pos : Position} (_ : Scoped? T s isLowered withs n), ∀ src ∈ sources? isLowered withs pos n,
      src.Scoped T
  | none, _, _, _, _, _, src, hsrc => by cases hsrc
  | some n, s, isLowered, withs, pos, h, src, hsrc => n.sources_scoped (s := s) h src hsrc

/-- The functions in the values of properties. -/
theorem sourcesProperties_scoped : ∀ (ps : List (String × Node)) {s : ScopeId} {isLowered : Bool}
    {withs : Nat} (_ : ScopedProperties T s isLowered withs ps),
    ∀ src ∈ sourcesProperties isLowered withs ps, src.Scoped T
  | [], _, _, _, _, src, hsrc => by cases hsrc
  | (_, value) :: rest, s, isLowered, withs, h, src, hsrc => by
    obtain hsrc | hsrc := List.mem_append.mp hsrc
    · exact value.sources_scoped h.1 src hsrc
    · exact sourcesProperties_scoped rest h.2 src hsrc

/-- **The functions that a statement declares.** -/
theorem Node.hoistedSources_scoped : ∀ (n : Node) {s : ScopeId} {isLowered : Bool} {withs : Nat}
    (_ : n.Scoped T s isLowered withs), ∀ src ∈ n.hoistedSources isLowered withs, src.Scoped T
  | .function i name params body isDeclaration scope, s, isLowered, withs, h, src, hsrc => by
    cases isDeclaration with
    | false => cases hsrc
    | true =>
      cases name with
      | none => cases hsrc
      | some x =>
        have hbody := h
        obtain ⟨inner, -, -, -, -, hbody⟩ := hbody
        obtain hsrc | hsrc := List.mem_append.mp hsrc
        · obtain hsrc | hsrc := List.mem_append.mp hsrc
          · exact hoistedSourcesAll_scoped body hbody src hsrc
          · exact sourcesAll_scoped body hbody src hsrc
        · rw [List.mem_singleton.mp hsrc]
          exact Source.scoped_ofFunction h
  | .block _ statements, s, isLowered, withs, h, src, hsrc =>
    hoistedSourcesAll_scoped statements (s := s) h src hsrc
  | .cond _ _ thenBranch elseBranch, s, isLowered, withs, h, src, hsrc => by
    obtain hsrc | hsrc := List.mem_append.mp hsrc
    · exact thenBranch.hoistedSources_scoped h.2.1 src hsrc
    · exact hoistedSources?_scoped elseBranch h.2.2 src hsrc
  | .loop _ _ body, s, isLowered, withs, h, src, hsrc => body.hoistedSources_scoped h.2 src hsrc
  | .tryCatch _ block _ handler, s, isLowered, withs, h, src, hsrc => by
    obtain hsrc | hsrc := List.mem_append.mp hsrc
    · exact block.hoistedSources_scoped h.1 src hsrc
    · exact handler.hoistedSources_scoped h.2.2 src hsrc
  | .literal .., _, _, _, _, src, hsrc => by cases hsrc
  | .identifier .., _, _, _, _, src, hsrc => by cases hsrc
  | .dynamic .., _, _, _, _, src, hsrc => by cases hsrc
  | .this _, _, _, _, _, src, hsrc => by cases hsrc
  | .call .., _, _, _, _, src, hsrc => by cases hsrc
  | .member .., _, _, _, _, src, hsrc => by cases hsrc
  | .binary .., _, _, _, _, src, hsrc => by cases hsrc
  | .unary .., _, _, _, _, src, hsrc => by cases hsrc
  | .assign .., _, _, _, _, src, hsrc => by cases hsrc
  | .object .., _, _, _, _, src, hsrc => by cases hsrc
  | .delete .., _, _, _, _, src, hsrc => by cases hsrc
  | .var .., _, _, _, _, src, hsrc => by cases hsrc
  | .ret .., _, _, _, _, src, hsrc => by cases hsrc
  | .withObject .., _, _, _, _, src, hsrc => by cases hsrc
  | .throw .., _, _, _, _, src, hsrc => by cases hsrc

/-- The functions that statements declare. -/
theorem hoistedSourcesAll_scoped : ∀ (ns : List Node) {s : ScopeId} {isLowered : Bool} {withs : Nat}
    (_ : ScopedAll T s isLowered withs ns), ∀ src ∈ hoistedSourcesAll isLowered withs ns, src.Scoped T
  | [], _, _, _, _, src, hsrc => by cases hsrc
  | n :: rest, s, isLowered, withs, h, src, hsrc => by
    obtain hsrc | hsrc := List.mem_append.mp hsrc
    · exact n.hoistedSources_scoped h.1 src hsrc
    · exact hoistedSourcesAll_scoped rest h.2 src hsrc

/-- The functions that a statement declares, if there is one. -/
theorem hoistedSources?_scoped : ∀ (n : Option Node) {s : ScopeId} {isLowered : Bool} {withs : Nat}
    (_ : Scoped? T s isLowered withs n), ∀ src ∈ hoistedSources? isLowered withs n, src.Scoped T
  | none, _, _, _, _, src, hsrc => by cases hsrc
  | some n, s, isLowered, withs, h, src, hsrc => n.hoistedSources_scoped (s := s) h src hsrc

end

end

/-- What compilation does. -/
theorem compile_eq_ok {p p' : Program} {c : Compilation} (h : compile p = (.ok c, p')) :
    ∃ a, Analyzer.program {} p = (a, p') ∧ a.failure = none ∧ c.scopes = a.finish ∧
      generate c.scopes p' = .ok c.unit := by
  rw [compile] at h
  rcases ha : Analyzer.program {} p with ⟨a, p₁⟩
  simp only [ha] at h
  split at h
  · cases h
  · next hok =>
    injection h with hc hp'
    subst hp'
    rcases hg : generate a.finish p₁ with e | u
    · rw [hg] at hc
      cases hc
    · rw [hg] at hc
      cases hc
      exact ⟨a, rfl, hok, rfl, hg⟩

/-- A unit that was made after a blueprint. -/
structure Blueprint.Fits (U : Blueprint) (u : CodeUnit) : Prop where
  /-- The constants are those of the unit. -/
  pool : U.pool = u.pool
  /-- Every scope lies in an earlier one. -/
  nested : U.table.Nested
  /-- Every variable has a slot of its own. -/
  placed : U.table.Placed
  /-- There is one function for every source. -/
  size : u.functions.size = U.sources.length
  /-- The program's own code comes from a source in the outermost scope. -/
  entry : ∃ src, U.sources[u.entry]? = some src ∧ src.scope = .global ∧ src.isLowered = false
  /-- Every function was made of the source at its position. -/
  lays : ∀ (k : Nat) src, U.sources[k]? = some src → ∃ F, u.functions[k]? = some F ∧ U.Lays F src
  /-- The names of every source can be reached. -/
  names : ∀ src ∈ U.sources, src.Scoped U.table

/-- **A compiled unit** was made after the blueprint of its program. -/
theorem Blueprint.fits_of_compile {p p' : Program} {c : Compilation} (hp : p.isUnset = true)
    (h : compile p = (.ok c, p')) : Blueprint.Fits ⟨c.scopes, c.unit.pool, p'.sources⟩ c.unit := by
  obtain ⟨a, ha, hok, hscopes, hg⟩ := compile_eq_ok h
  obtain ⟨hvalid, hsize, hscope, hscoped⟩ := Analyzer.program_scoped hp ha hok
  obtain ⟨hext, hnested, hplaced, hcount⟩ := ScopeTable.placed_finish hvalid
  obtain ⟨hsizes, hentry, hlays⟩ := Blueprint.lays_of_generate hg
  have htable : c.scopes = a.table.finish := hscopes
  rw [← htable] at hext hnested hplaced
  have hbody := hscoped _ hext
  refine ⟨rfl, hnested, hplaced, hsizes, ⟨p'.source, hentry, ?_, rfl⟩, hlays, fun src hsrc => ?_⟩
  · simp [Program.source, hscope]
  · obtain hsrc | hsrc := List.mem_append.mp hsrc
    · obtain hsrc | hsrc := List.mem_append.mp hsrc
      · exact hoistedSourcesAll_scoped p'.body hbody src hsrc
      · exact sourcesAll_scoped p'.body hbody src hsrc
    · rw [List.mem_singleton.mp hsrc]
      have hglobal : p'.source.scope = .global := by simp [Program.source, hscope]
      refine ⟨?_, fun h => (by cases h), fun x hx => ?_, fun _ x hx => ?_, ?_⟩
      · rw [hglobal]
        exact hext.size_le hsize
      · cases hx
      · cases hx
      · rw [hglobal]
        exact hbody

end ScriptEngine
