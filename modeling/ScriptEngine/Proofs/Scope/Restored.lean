import ScriptEngine.Proofs.Scope.Growth

/-!
# What a walk restores

Three kinds of nodes change where an analyzer is for a part of their walk: a function has a scope of its own,
the body of a `with` statement is inside one more of them, and a handler binds the name of what it catches.
That part may fail half way, at any depth, and what is in it is not walked any further. What was changed is
taken back all the same.

`Restores` says so of one step of a walk, whether it fails or not; steps are put together by `Restores.append`,
and there is one lemma for each of the three kinds of nodes (`restores_functionWithin`, `Restores.inWith` and
`Restores.handler`). The main statement is `node_restores`.
-/

namespace ScriptEngine

namespace Analyzer

/-- The state of an analyzer is in order if its table is and has the scope where the analyzer is. -/
structure InOrder (a : Analyzer) : Prop where
  /-- The table is in order. -/
  rooted : a.table.Rooted
  /-- The scope is there. -/
  inside : a.scope.index < a.table.scopes.size

/-- The state in which a program is analyzed is in order. -/
theorem inOrder_initial : InOrder {} := ⟨ScopeTable.rooted_empty, Nat.zero_lt_one⟩

/-! ## Steps -/

/-- A step of a walk that binds what is said, at most: the analyzer is where it was, and its table has grown by
nothing else in the scopes that were there. -/
structure Restores (bs : List BoundName) (a a' : Analyzer) : Prop where
  /-- The analyzer is where it was. -/
  place : a'.place = a.place
  /-- Its table has grown. -/
  grows : a.InOrder → a.table.Grows (fun s b => s = a.scope ∧ b ∈ bs) a'.table

variable {a a₁ a' : Analyzer} {n n' : Node} {bs bs' : List BoundName}

namespace Restores

/-- The scope is the same. -/
theorem scope (h : Restores bs a a') : a'.scope = a.scope := congrArg Place.scope h.place

/-- The state stays in order. -/
theorem inOrder (h : Restores bs a a') (ha : a.InOrder) : a'.InOrder := by
  have hgrows := h.grows ha
  refine ⟨hgrows.rooted, ?_⟩
  rw [h.scope]
  exact hgrows.ext.size_le ha.inside

/-- Nothing happened to the place or the table, though there may be a failure now. -/
theorem of_same (hplace : a'.place = a.place) (htable : a'.table = a.table) : Restores bs a a' :=
  ⟨hplace, fun ha => by rw [htable]; exact .refl ha.rooted⟩

/-- Nothing happened. -/
theorem refl (a : Analyzer) : Restores bs a a := of_same rfl rfl

/-- Something was noted. -/
theorem of_notes (h : a.Notes a') : Restores bs a a' := ⟨h.2.1, fun ha => h.2.2.grows ha.rooted⟩

/-- More may be bound. -/
theorem subset (h : Restores bs a a') (hsub : bs ⊆ bs') : Restores bs' a a' :=
  ⟨h.place, fun ha => (h.grows ha).subset hsub⟩

/-- One step after the other. -/
theorem trans (h : Restores bs a a₁) (h' : Restores bs a₁ a') : Restores bs a a' := by
  refine ⟨h'.place.trans h.place, fun ha => (h.grows ha).trans ?_⟩
  rw [← h.scope]
  exact h'.grows (h.inOrder ha)

/-- **One step after the other** binds what both bind. -/
theorem append (h : Restores bs a a₁) (h' : Restores bs' a₁ a') : Restores (bs ++ bs') a a' :=
  (h.subset (List.subset_append_left ..)).trans (h'.subset (List.subset_append_right ..))

/-- The table was changed. -/
theorem table {t : ScopeTable} (h : a.InOrder → a.table.Grows (fun s b => s = a.scope ∧ b ∈ bs) t) :
    Restores bs a { a with table := t } := ⟨rfl, h⟩

end Restores

/-! ## Names -/

/-- That a name may not be bound is at most a failure. -/
theorem checkBindable_same (a : Analyzer) (name : String) (span : Span) :
    (a.checkBindable name span).place = a.place ∧ (a.checkBindable name span).table = a.table := by
  rw [checkBindable]
  split
  · exact ⟨rfl, rfl⟩
  · exact ⟨rfl, rfl⟩

/-- Whether a name may be bound is checked. -/
theorem restores_checkBindable (a : Analyzer) (name : String) (span : Span) :
    Restores bs a (a.checkBindable name span) :=
  .of_same (a.checkBindable_same name span).1 (a.checkBindable_same name span).2

/-- **A name is bound.** -/
theorem restores_define (a : Analyzer) (x : Identifier) (span : Span) :
    Restores [.declared x.name] a (a.define x span).1 := by
  have hcheck : Restores [.declared x.name] a (a.checkBindable x.name span) :=
    restores_checkBindable a x.name span
  rw [define]
  split
  · exact hcheck
  · refine hcheck.trans (.table fun ha => ?_)
    exact (ScopeTable.grows_declare ha.rooted ha.inside x.name).mono fun s b _ hb => by simp [hb.1, hb.2]

/-- **A name in a node of its own** is bound if it is a definition, and otherwise at most as a name that nobody
declares. -/
theorem restores_identifier (a : Analyzer) (i : Info) (x : Identifier) :
    Restores (Node.identifier i x).bindings a (a.identifier i x).1 := by
  have hcheck : Restores (Node.identifier i x).bindings a (a.checkBindable x.name i.span) :=
    restores_checkBindable a x.name i.span
  rw [identifier]
  simp only [withTable_eq]
  split
  · exact hcheck
  · refine hcheck.trans (.table fun ha => ?_)
    rcases hx : x.isDefinition with _ | _
    · exact ScopeTable.grows_resolve ha.rooted ha.inside x.name
    · refine (ScopeTable.grows_declare ha.rooted ha.inside x.name).mono fun s b _ hb => ⟨hb.1, ?_⟩
      simp [Node.bindings, hx, hb.2]

/-- The name of a function is bound around it, if it is. -/
theorem restores_nameAround (a : Analyzer) (isDeclaration : Bool) (name : Option Identifier) (span : Span) :
    Restores ((outerNames name isDeclaration).map .declared) a (a.nameAround isDeclaration name span).1 := by
  rw [nameAround.eq_def]
  split
  · next x =>
    refine (restores_define a x span).trans ?_
    simp only
    split
    · exact .refl _
    · exact .of_notes (notes_assigned _ _ _)
  · exact .refl a

/-! ## What is taken back -/

/-- A node is finished. -/
theorem Restores.finish {type : ValueType} (h : Restores bs a a₁) (hend : a₁.expression n type = (a', n')) :
    Restores bs a a' := by
  obtain rfl : a₁ = a' := (expression_fst a₁ n type).symm.trans (congrArg Prod.fst hend)
  exact h

/-- **A function** is entered, and left again: what is bound inside is bound in its scope. -/
theorem restores_functionWithin {inWith : Bool} {i : Info} {name : Option Identifier} {params : List Identifier}
    {body : List Node} {isDeclaration : Bool}
    (hbody : ∀ {b b' : Analyzer} {body' : List Node}, b.nodesIn inWith body = (b', body') →
      Restores (bindingsAll body) b b')
    (h : a.functionWithin inWith i name params body isDeclaration = (a', n')) : Restores [] a a' := by
  rcases hparams : (a.enter (functionName name)).1.parameters params with ⟨a₁, params'⟩
  rcases hown : (a₁.hoist body).nameWithin isDeclaration name with ⟨a₂, name'⟩
  rcases hnodes : a₂.nodesIn inWith body with ⟨a₃, body'⟩
  have hwalk := hbody hnodes
  obtain ⟨-, hplace₁, htable⟩ := enter_parameters hparams
  obtain ⟨hwithin, hplace₂, -, -⟩ := nameWithin_declared hown
  have hplace : a₂.place = a.place.inFunction ⟨a.table.scopes.size⟩ := hplace₂.trans hplace₁
  have hdepth : a₃.loweredDepth = a.loweredDepth := congrArg Place.depth (hwalk.place.trans hplace)
  rw [functionWithin_eq hparams hown hnodes] at h
  refine Restores.finish ⟨?_, fun ha => ?_⟩ h
  · rw [place, place, hdepth]
  · have hscope : a₁.scope = ⟨a.table.scopes.size⟩ := congrArg Place.scope hplace₁
    have hscope₂ : a₂.scope = ⟨a.table.scopes.size⟩ := congrArg Place.scope hplace
    have hnames := (hoist_declared a₁ body).append hwithin
    rw [hscope] at hnames
    obtain ⟨hstarts, -⟩ := ScopeTable.starts ha.rooted (c := a.place) ha.inside rfl htable hnames
    have hinside := hwalk.grows ⟨hstarts.grows.rooted, hscope₂ ▸ hstarts.inside⟩
    -- The scope of the function is a new one, so nothing was bound in those that were there.
    have hnew : a.table.Grows (fun s _ => s = ⟨a.table.scopes.size⟩) a₃.table :=
      hstarts.grows.of_none.trans (hinside.mono fun s _ _ hb => hb.1.trans hscope₂)
    exact hnew.mono fun s _ hs hb => absurd (hb ▸ hs) (Nat.lt_irrefl _)

/-- **The body of a `with` statement** is entered, and left again. -/
theorem Restores.inWith (h : Restores bs a.enterWith a') : Restores bs a a'.leaveWith := by
  refine ⟨?_, fun ha => ?_⟩
  · have hscope : a'.scope = a.scope := h.scope
    have hwiths : a'.withDepth = a.withDepth + 1 := congrArg Place.withs h.place
    have hdepth : a'.loweredDepth = a.loweredDepth + 1 := congrArg Place.depth h.place
    show Place.mk a'.scope (a'.withDepth - 1) (a'.loweredDepth - 1) = a.place
    rw [hscope, hwiths, hdepth]
    rfl
  · have hmark := ScopeTable.grows_markDynamic ha.rooted ha.inside (N := fun s b => s = a.scope ∧ b ∈ bs)
    exact hmark.trans (h.grows ⟨hmark.rooted, hmark.ext.size_le ha.inside⟩)

/-- With the binding of a handler, the state is in order. -/
theorem InOrder.openHandler (ha : a.InOrder) (x : Identifier) : (a.openHandler x).InOrder := by
  obtain ⟨hopen, -⟩ := ScopeTable.leads_openBinding ha.rooted.valid ha.inside x.name
  exact ⟨ha.rooted.insert ha.inside nofun, hopen.ext.size_le ha.inside⟩

/-- **A handler** is walked while its binding is open. -/
theorem Restores.handler {x : Identifier} (h : Restores bs (a.openHandler x) a')
    (hx : .caught x.name ∈ bs) : Restores bs a (a.closeHandler a' x) :=
  ⟨h.place, fun ha => .binding ha.rooted ha.inside (h.grows (ha.openHandler x)) ⟨rfl, hx⟩⟩

/-- **The binding is closed.** -/
theorem own?_closeHandler {x : Identifier} (h : Restores bs (a.openHandler x) a') (ha : a.InOrder) :
    ((a.closeHandler a' x).table.scope a.scope).own? x.name = (a.table.scope a.scope).own? x.name := by
  have hinside : a.scope.index < a'.table.scopes.size :=
    h.scope ▸ (h.inOrder (ha.openHandler x)).inside
  exact (ScopeTable.own?_closeBinding hinside ..).trans (if_pos ⟨rfl, rfl⟩)

/-- What is done about the name of a handler that is not walked. -/
theorem handlerFailed_same {x : Identifier} {span : Span}
    (hc : (if a.failed then a else a.checkBindable x.name span) = a₁) :
    a₁.place = a.place ∧ a₁.table = a.table := by
  split at hc
  · exact hc ▸ ⟨rfl, rfl⟩
  · exact hc ▸ a.checkBindable_same x.name span

/-- **A handler with a name** is walked if its name may be bound, and nothing happens otherwise. -/
theorem node_tryCatch_cases (hf : a.failed = false) {block block' : Node} (hb : a.node block = (a₁, block'))
    (i : Info) (x : Identifier) (handler : Node) :
    let a' := (a.node (.tryCatch i block (some x) handler)).1
    a'.place = a₁.place ∧ a'.table = a₁.table ∨ a' = a₁.closeHandler ((a₁.openHandler x).node handler).1 x := by
  rcases h : a.node (.tryCatch i block (some x) handler) with ⟨a', n'⟩
  cases nodeWalk_of_nodeIn hf ((a.nodeIn_false _).trans h) with
  | handler hb' _ _ hh hend =>
    obtain ⟨rfl, rfl⟩ := Prod.mk.inj (hb.symm.trans hb')
    have hh : node _ handler = _ := hh
    rw [hh]
    exact .inr ((congrArg Prod.fst hend).symm.trans (expression_fst ..))
  | handlerFailed hb' hc =>
    obtain ⟨rfl, rfl⟩ := Prod.mk.inj (hb.symm.trans hb')
    exact .inl (handlerFailed_same hc)

/-! ## Walks -/

/-- A failed analyzer walks nothing; so the walk may be taken to go by the rules. -/
theorem Restores.of_rules {inWith : Bool} (h : a.nodeIn inWith n = (a', n'))
    (hwalk : a.NodeWalk inWith n a' n' → Restores bs a a') : Restores bs a a' := by
  rcases hf : a.failed with _ | _
  · exact hwalk (nodeWalk_of_nodeIn hf h)
  · rw [nodeIn_of_failed hf] at h
    cases h
    exact .refl a

mutual

/-- **A node is walked.** -/
theorem restores_walk {inWith : Bool} : ∀ (n : Node) {a a' : Analyzer} {n' : Node}
    (_ : a.nodeIn inWith n = (a', n')), Restores n.bindings a a'
  | .literal .., a, a', n', h | .dynamic .., a, a', n', h | .this .., a, a', n', h => .of_rules h fun hw => by
    cases hw
    exact .refl a
  | .identifier i x, a, a', n', h => .of_rules h fun hw => by
    cases hw with
    | lowered => exact .refl a
    | identifier _ h =>
      have hx := restores_identifier a i x
      rwa [h] at hx
  | .call i target args, a, a', n', h => .of_rules h fun hw => by
    cases hw with
    | call ht hr hend =>
      have hparts := (restores_walk target ht).append (restores_walkAll args hr)
      exact (hparts.trans (.of_notes (notes_noteCall ..))).finish hend
  | .member i target name, a, a', n', h => .of_rules h fun hw => by
    cases hw with
    | member ht hend => exact (restores_walk target ht).finish hend
  | .binary i op lhs rhs, a, a', n', h => .of_rules h fun hw => by
    cases hw with
    | binary hl hr | binaryFolded hl hr =>
      have hparts := (restores_walk lhs hl).append (restores_walk rhs hr)
      exact hparts.trans (.of_notes (notes_noteOperands ..))
    | binaryFailed hl hr => exact (restores_walk lhs hl).append (restores_walk rhs hr)
  | .unary i op operand, a, a', n', h => .of_rules h fun hw => by
    cases hw with
    | unary ho | unaryFolded ho => exact (restores_walk operand ho).trans (.of_notes (notes_noteOperand ..))
    | unaryFailed ho => exact restores_walk operand ho
  | .assign i target value, a, a', n', h => .of_rules h fun hw => by
    cases hw with
    | assign _ ht hv hend =>
      have hparts := (restores_walk target ht).append (restores_walk value hv)
      exact (hparts.trans (.of_notes (notes_noteValue ..))).finish hend
    | assignFailed => exact .of_same rfl rfl
  | .object i ps, a, a', n', h => .of_rules h fun hw => by
    cases hw with
    | object hp hend => exact (restores_walkProperties ps hp).finish hend
  | .delete i target, a, a', n', h => .of_rules h fun hw => by
    cases hw with
    | delete ht hend => exact (restores_walk target ht).finish hend
  | .function i name params body isDeclaration scope, a, a', n', h => .of_rules h fun hw => by
    have houter := restores_nameAround a isDeclaration name i.span
    cases hw with
    | function hn _ hwithin =>
      rw [hn] at houter
      have hinner := restores_functionWithin (fun hb => restores_walkAll body hb) hwithin
      exact (houter.append hinner).subset (by simp [Node.bindings])
    | functionFailed hn =>
      rw [hn] at houter
      exact houter
  | .var i binding init, a, a', n', h => .of_rules h fun hw => by
    cases hw with
    | var hb hi hend =>
      have hdefine := restores_define a binding i.span
      rw [hb] at hdefine
      have hparts := hdefine.append (restores_walk? init hi)
      exact (hparts.trans (.of_notes (notes_noteValue ..))).finish hend
  | .ret i value, a, a', n', h => .of_rules h fun hw => by
    cases hw with
    | ret hv hend => exact (restores_walk? value hv).finish hend
  | .cond i condition thenBranch elseBranch, a, a', n', h => .of_rules h fun hw => by
    cases hw with
    | cond hc ht he hend =>
      have hbranches := (restores_walk thenBranch ht).append (restores_walk? elseBranch he)
      exact ((restores_walk condition hc).append hbranches).finish hend
  | .loop i condition body, a, a', n', h => .of_rules h fun hw => by
    cases hw with
    | loop hc hb hend => exact ((restores_walk condition hc).append (restores_walk body hb)).finish hend
  | .block i statements, a, a', n', h => .of_rules h fun hw => by
    cases hw with
    | block hs hend => exact (restores_walkAll statements hs).finish hend
  | .withObject i object body, a, a', n', h => .of_rules h fun hw => by
    cases hw with
    | withObject ho _ hb hend =>
      exact ((restores_walk object ho).append (restores_walk body hb).inWith).finish hend
    | withObjectFailed ho => exact (restores_walk object ho).subset (List.subset_append_left ..)
  | .throw i value, a, a', n', h => .of_rules h fun hw => by
    cases hw with
    | throw hv hend => exact (restores_walk value hv).finish hend
  | .tryCatch i block none handler, a, a', n', h => .of_rules h fun hw => by
    cases hw with
    | tryCatch hb hh hend =>
      have hparts := (restores_walk block hb).append (restores_walk handler hh)
      exact (hparts.subset (by simp [Node.bindings])).finish hend
  | .tryCatch i block (some x) handler, a, a', n', h => .of_rules h fun hw => by
    cases hw with
    | handler hb _ _ hh hend =>
      rw [Node.bindings]
      refine ((restores_walk block hb).append (Restores.handler ?_ ?_)).finish hend
      · exact (restores_walk handler hh).subset (List.subset_append_right ..)
      · simp
    | handlerFailed hb hc =>
      obtain ⟨hplace, htable⟩ := handlerFailed_same hc
      rw [Node.bindings]
      exact (restores_walk block hb).append (.of_same hplace htable)
termination_by structural n => n

/-- **Nodes are walked in order.** -/
theorem restores_walkAll {inWith : Bool} : ∀ (ns : List Node) {a a' : Analyzer} {ns' : List Node}
    (_ : a.nodesIn inWith ns = (a', ns')), Restores (bindingsAll ns) a a'
  | [], a, a', ns', h => by
    rw [nodesIn_nil] at h
    cases h
    exact .refl a
  | n :: rest, a, a', ns', h => by
    rw [nodesIn_cons] at h
    cases h
    exact (restores_walk n rfl).append (restores_walkAll rest rfl)
termination_by structural ns => ns

/-- A node that may be missing is walked. -/
theorem restores_walk? {inWith : Bool} : ∀ (n : Option Node) {a a' : Analyzer} {n' : Option Node}
    (_ : a.nodeIn? inWith n = (a', n')), Restores (bindings? n) a a'
  | none, a, a', n', h => by
    rw [nodeIn?_none] at h
    cases h
    exact .refl a
  | some n, a, a', n', h => by
    rw [nodeIn?_some] at h
    cases h
    exact restores_walk n rfl
termination_by structural n => n

/-- **Properties are walked in order.** -/
theorem restores_walkProperties {inWith : Bool} : ∀ (ps : List (String × Node)) {a a' : Analyzer}
    {ps' : List (String × Node)} (_ : a.propertiesIn inWith ps = (a', ps')),
    Restores (bindingsOfProperties ps) a a'
  | [], a, a', ps', h => by
    rw [propertiesIn_nil] at h
    cases h
    exact .refl a
  | (name, value) :: rest, a, a', ps', h => by
    rw [propertiesIn_cons] at h
    cases h
    exact (restores_walk value rfl).append (restores_walkProperties rest rfl)
termination_by structural ps => ps

end

/-- **Every walk of a node** takes back what it changed for a part of the node. -/
theorem restores_node (n : Node) (a : Analyzer) : Restores n.bindings a (a.node n).1 :=
  restores_walk n (a.nodeIn_false n)

/-! ## What walks leave behind -/

/-- What the names in the scopes of an analyzer stand for before and after a walk of a node. -/
structure KeepsNames (n : Node) (a a' : Analyzer) : Prop where
  /-- A name that stands for a variable still does. -/
  bound : ∀ s m v, (a.table.scope s).own? m = some v → (a'.table.scope s).own? m = some v
  /-- A name that is new in a scope that was there stands for a new variable. Either the node binds it in the
  scope of the analyzer, or nobody declares it. -/
  new : ∀ s m v, s.index < a.table.scopes.size → (a'.table.scope s).own? m = some v →
    (a.table.scope s).own? m = some v ∨ a.table.vars.size ≤ v.index ∧
      (s = a.scope ∧ .declared m ∈ n.bindings ∨ s = .global ∧ a'.table.Implicit m v)
  /-- The name of a handler stands for what it stood for between the block and the handler. -/
  closed : ∀ i block x handler, n = .tryCatch i block (some x) handler →
    (a'.table.scope a.scope).own? x.name = ((a.node block).1.table.scope a.scope).own? x.name

/-- **Every walk puts the analyzer back where it was**, whether it fails or not and however deep it fails. If
the state is in order, it stays so; then names stand for what they stood for, and those that are new in the
scopes that were there are bound by the node in its own scope, or nobody declares them. -/
theorem node_restores (a : Analyzer) (n : Node) {a' : Analyzer} {n' : Node} (h : a.node n = (a', n')) :
    a'.scope = a.scope ∧ a'.withDepth = a.withDepth ∧ a'.loweredDepth = a.loweredDepth ∧
      (a.InOrder → a'.InOrder ∧ KeepsNames n a a') := by
  have hwalk := restores_node n a
  rw [h] at hwalk
  refine ⟨hwalk.scope, congrArg Place.withs hwalk.place, congrArg Place.depth hwalk.place,
    fun ha => ⟨hwalk.inOrder ha, (hwalk.grows ha).own, fun s m v hs hv => ?_,
      fun i block x handler hn => ?_⟩⟩
  · obtain hv | ⟨hnew, hwhy⟩ := (hwalk.grows ha).fresh s m v hv
    · exact .inl hv
    · refine .inr ⟨hnew, hwhy.imp_right fun hwhy => hwhy.resolve_right (Nat.not_le.mpr hs)⟩
  · subst hn
    rcases hf : a.failed with _ | _
    · have hblock := restores_node block a
      rcases hb : a.node block with ⟨a₁, block'⟩
      rw [hb] at hblock
      have hcases := node_tryCatch_cases hf hb i x handler
      rw [h] at hcases
      obtain ⟨-, htable⟩ | rfl := hcases
      · rw [htable]
      · rw [← hblock.scope]
        exact own?_closeHandler (restores_node handler _) (hblock.inOrder ha)
    · rw [node_of_failed hf] at h ⊢
      cases h
      rfl

/-- A handler that fails in a `with` body in a function in it. -/
def failsInHandler : Node :=
  .tryCatch .none (.block .none []) (some (.definition "e"))
    (.function .none none [] [.withObject .none (.object .none [])
      (.var .none (.definition "x") none)] false none)

/-- When the handler has failed, its name stands for nothing any more. -/
theorem node_restores_failsInHandler :
    ∃ a n, Analyzer.node {} failsInHandler = (a, n) ∧ a.failed = true ∧ a.scope = .global ∧
      a.withDepth = 0 ∧ a.loweredDepth = 0 ∧ (a.table.scope .global).own? "e" = none := by
  have hfailed : (node {} failsInHandler).1.failed = true := by decide +kernel
  rcases h : node {} failsInHandler with ⟨a, n⟩
  rw [h] at hfailed
  obtain ⟨hscope, hwiths, hdepth, hkeeps⟩ := node_restores {} failsInHandler h
  have hclosed := (hkeeps inOrder_initial).2.closed _ _ (.definition "e") _ rfl
  have hbefore : ((node {} (.block .none [])).1.table.scope .global).own? "e" = none := by
    simp [node, nodes, failed, statement, ScriptEngine.ScopeTable.empty, ScopeTable.scope, Scope.own?, ScopeId.global]
  exact ⟨a, n, rfl, hfailed, hscope, hwiths, hdepth, hclosed.trans hbefore⟩

end Analyzer

end ScriptEngine
