import ScriptEngine.Proofs.Scope.Placement
import ScriptEngine.Proofs.Scope.Walk

/-!
# What analysis says about names

After analysis every name that is left in a tree stands for a variable that its place can reach, and every
function has a scope of its own that lies in the scope around it. `Node.Scoped` says so of a node, and
`Analyzer.program_scoped` of every program that analysis accepts.

Names cannot be bound in the body of a `with` statement, and names that are used there, also in functions
inside it, are looked up at run time. So a name that is left in a tree stands in no such body of its own
function, and in a function inside one it is a name of that function.
-/

namespace ScriptEngine

/-! ## Trees before analysis -/

mutual

/-- Whether no name of a node has a variable yet, and no function a scope. -/
def Node.isUnset : Node → Bool
  | .identifier _ x => x.var.isNone
  | .call _ target args => target.isUnset && unsetAll args
  | .member _ target _ => target.isUnset
  | .binary _ _ lhs rhs => lhs.isUnset && rhs.isUnset
  | .unary _ _ operand => operand.isUnset
  | .assign _ target value => target.isUnset && value.isUnset
  | .function _ name params body _ scope =>
    name.all (·.var.isNone) && params.all (·.var.isNone) && unsetAll body && scope.isNone
  | .object _ ps => unsetProperties ps
  | .delete _ target => target.isUnset
  | .var _ binding init => binding.var.isNone && unset? init
  | .ret _ value => unset? value
  | .cond _ condition thenBranch elseBranch =>
    condition.isUnset && thenBranch.isUnset && unset? elseBranch
  | .loop _ condition body => condition.isUnset && body.isUnset
  | .block _ statements => unsetAll statements
  | .withObject _ object body => object.isUnset && body.isUnset
  | .throw _ value => value.isUnset
  | .tryCatch _ block param handler =>
    block.isUnset && param.all (·.var.isNone) && handler.isUnset
  | .literal .. | .dynamic .. | .this _ => true

/-- Whether no name of the nodes has a variable yet, and no function a scope. -/
def unsetAll : List Node → Bool
  | [] => true
  | n :: rest => n.isUnset && unsetAll rest

/-- Whether no name of a node that may be missing has a variable yet, and no function a scope. -/
def unset? : Option Node → Bool
  | none => true
  | some n => n.isUnset

/-- Whether no name of the properties has a variable yet, and no function a scope. -/
def unsetProperties : List (String × Node) → Bool
  | [] => true
  | (_, value) :: rest => value.isUnset && unsetProperties rest

end

/-- Whether analysis has not been at the program: no name has a variable, and no function a scope. -/
def Program.isUnset (p : Program) : Bool :=
  unsetAll p.body && p.scope.isNone

/-! ## Trees after analysis -/

/-- The name stands for a variable of a scope. -/
def Identifier.Own (T : ScopeTable) (s : ScopeId) (x : Identifier) : Prop :=
  ∃ v, x.var = some v ∧ T.Declares s x.name v

/-- The name stands for a variable that code of a scope can reach: one of its own, a global, or one that
is kept in an environment. Code in the `with` body of a function further out reaches no variables of
functions further out. -/
def Identifier.Resolves (T : ScopeTable) (s : ScopeId) (isLowered : Bool) (x : Identifier) : Prop :=
  ∃ v V, x.var = some v ∧ T.vars[v.index]? = some V ∧ V.name = x.name ∧
    (V.scope = s ∨ V.storage = .global ∨ isLowered = false ∧ V.storage = .environment)

/-- A variable of the scope itself can be reached. -/
theorem Identifier.Own.resolves {T : ScopeTable} {s : ScopeId} {x : Identifier} (h : x.Own T s)
    (isLowered : Bool) : x.Resolves T s isLowered := by
  obtain ⟨v, hv, V, hV, hscope, hname⟩ := h
  exact ⟨v, V, hv, hV, hname, .inl hscope⟩

/-- The scope of a function lies in the scope around it. -/
def ScopeTable.Encloses (T : ScopeTable) (outer inner : ScopeId) : Prop :=
  ∃ S, T.scopes[inner.index]? = some S ∧ S.parent = some outer

mutual

/-- The names of a node can be reached from where they stand: in a scope, inside a number of `with`
bodies of its function, and in a function that is lowered or not. -/
def Node.Scoped (T : ScopeTable) (s : ScopeId) (isLowered : Bool) (withs : Nat) : Node → Prop
  | .identifier _ x => withs = 0 ∧ x.Resolves T s isLowered
  | .call _ target args => target.Scoped T s isLowered withs ∧ ScopedAll T s isLowered withs args
  | .member _ target _ => target.Scoped T s isLowered withs
  | .binary _ _ lhs rhs => lhs.Scoped T s isLowered withs ∧ rhs.Scoped T s isLowered withs
  | .unary _ _ operand => operand.Scoped T s isLowered withs
  | .assign _ target value => target.Scoped T s isLowered withs ∧ value.Scoped T s isLowered withs
  | .function _ name params body isDeclaration scope =>
    ∃ inner, scope = some inner ∧ T.Encloses s inner ∧ (∀ x ∈ params, x.Own T inner) ∧
      (∀ x ∈ name, if isDeclaration then withs = 0 ∧ x.Own T s else x.var = none ∨ x.Own T inner) ∧
      ScopedAll T inner (isLowered || decide (0 < withs)) 0 body
  | .object _ ps => ScopedProperties T s isLowered withs ps
  | .delete _ target => target.Scoped T s isLowered withs
  | .var _ binding init => (withs = 0 ∧ binding.Own T s) ∧ Scoped? T s isLowered withs init
  | .ret _ value => Scoped? T s isLowered withs value
  | .cond _ condition thenBranch elseBranch =>
    condition.Scoped T s isLowered withs ∧ thenBranch.Scoped T s isLowered withs ∧
      Scoped? T s isLowered withs elseBranch
  | .loop _ condition body => condition.Scoped T s isLowered withs ∧ body.Scoped T s isLowered withs
  | .block _ statements => ScopedAll T s isLowered withs statements
  | .withObject _ object body =>
    object.Scoped T s isLowered withs ∧ body.Scoped T s isLowered (withs + 1)
  | .throw _ value => value.Scoped T s isLowered withs
  | .tryCatch _ block param handler =>
    block.Scoped T s isLowered withs ∧ (∀ x ∈ param, withs = 0 ∧ x.Own T s) ∧
      handler.Scoped T s isLowered withs
  | .literal .. | .dynamic .. | .this _ => True

/-- The names of nodes can be reached from where they stand. -/
def ScopedAll (T : ScopeTable) (s : ScopeId) (isLowered : Bool) (withs : Nat) : List Node → Prop
  | [] => True
  | n :: rest => n.Scoped T s isLowered withs ∧ ScopedAll T s isLowered withs rest

/-- The names of a node that may be missing can be reached from where they stand. -/
def Scoped? (T : ScopeTable) (s : ScopeId) (isLowered : Bool) (withs : Nat) : Option Node → Prop
  | none => True
  | some n => n.Scoped T s isLowered withs

/-- The names of the values of properties can be reached from where they stand. -/
def ScopedProperties (T : ScopeTable) (s : ScopeId) (isLowered : Bool) (withs : Nat) :
    List (String × Node) → Prop
  | [] => True
  | (_, value) :: rest =>
    value.Scoped T s isLowered withs ∧ ScopedProperties T s isLowered withs rest

end

/-- What a node carries besides its parts says nothing about names. -/
@[simp] theorem Node.scoped_setInfo (T : ScopeTable) (s : ScopeId) (isLowered : Bool) (withs : Nat)
    (n : Node) (i : Info) : (n.setInfo i).Scoped T s isLowered withs ↔ n.Scoped T s isLowered withs := by
  cases n <;> simp only [Node.setInfo, Node.Scoped]

/-! ## Walks -/

/-- Where an analyzer is: in a scope, inside a number of `with` bodies in all and of the function. -/
structure Analyzer.Stands (a : Analyzer) (s : ScopeId) (depth withs : Nat) : Prop where
  /-- The table is valid. -/
  valid : a.table.Valid
  /-- The scope. -/
  scope : a.scope = s
  /-- The scope is there. -/
  inside : s.index < a.table.scopes.size
  /-- The `with` bodies of the function. -/
  withDepth : a.withDepth = withs
  /-- All `with` bodies. -/
  loweredDepth : a.loweredDepth = depth

/-- What an analyzer has walked: it is where it was, and something holds in all later tables. -/
structure Walked (s : ScopeId) (depth withs : Nat) (a a' : Analyzer) (P : ScopeTable → Prop) :
    Prop where
  /-- It is where it was. -/
  stands : a'.Stands s depth withs
  /-- The table has grown. -/
  ext : a.table.Extends a'.table
  /-- What holds from now on. -/
  holds : ∀ T, a'.table.Extends T → P T

/-- A walk: if it has not failed, then not before either. -/
def Walks (s : ScopeId) (depth withs : Nat) (a a' : Analyzer) (P : ScopeTable → Prop) : Prop :=
  a'.failed = false → a.failed = false ∧ (a.Stands s depth withs → Walked s depth withs a a' P)

namespace Walks

variable {s : ScopeId} {depth withs : Nat} {a a₁ a' : Analyzer} {P Q : ScopeTable → Prop}

/-- A walk that has failed. -/
theorem of_failed (h : a'.failed = true) : Walks s depth withs a a' P := by
  intro h'
  rw [h] at h'
  cases h'

/-- No walk at all. -/
theorem refl (a : Analyzer) : Walks s depth withs a a fun _ => True :=
  fun h => ⟨h, fun hs => ⟨hs, .refl _, fun _ _ => trivial⟩⟩

/-- **One walk after the other.** -/
theorem trans (h : Walks s depth withs a a₁ P) (h' : Walks s depth withs a₁ a' Q) :
    Walks s depth withs a a' fun T => P T ∧ Q T := by
  intro hfailed
  obtain ⟨hfailed₁, hnext⟩ := h' hfailed
  obtain ⟨hfailed₀, hfirst⟩ := h hfailed₁
  refine ⟨hfailed₀, fun hs => ?_⟩
  have w₁ := hfirst hs
  have w₂ := hnext w₁.stands
  exact ⟨w₂.stands, w₁.ext.trans w₂.ext, fun T hT => ⟨w₁.holds T (w₂.ext.trans hT), w₂.holds T hT⟩⟩

/-- Less may be said. -/
theorem mono (h : Walks s depth withs a a' P) (hPQ : ∀ T, P T → Q T) : Walks s depth withs a a' Q :=
  fun hfailed => ⟨(h hfailed).1, fun hs =>
    have w := (h hfailed).2 hs
    ⟨w.stands, w.ext, fun T hT => hPQ T (w.holds T hT)⟩⟩

/-- A walk and then a step of which nothing is said. -/
theorem andThen (h : Walks s depth withs a a₁ P) (h' : Walks s depth withs a₁ a' fun _ => True) :
    Walks s depth withs a a' P :=
  (h.trans h').mono fun _ h => h.1

/-- A step that fails or changes the table. -/
theorem table {t : ScopeTable} (h : a.Stands s depth withs → a.table.Leads t ∧ ∀ T, t.Extends T → P T) :
    Walks s depth withs a { a with table := t } P := by
  refine fun hfailed => ⟨hfailed, fun hs => ?_⟩
  obtain ⟨hleads, hP⟩ := h hs
  exact ⟨⟨hleads.valid, hs.scope, hleads.ext.size_le hs.inside, hs.withDepth, hs.loweredDepth⟩,
    hleads.ext, hP⟩

end Walks

namespace Analyzer

variable {s : ScopeId} {depth withs : Nat}

/-- A failed analyzer walks nothing; so the walk may be taken to go by the rules. -/
theorem walks_of_rules {inWith : Bool} {a a' : Analyzer} {n n' : Node} {P : ScopeTable → Prop}
    (h : a.nodeIn inWith n = (a', n')) (hwalk : a.NodeWalk inWith n a' n' → Walks s depth withs a a' P) :
    Walks s depth withs a a' P := by
  rcases hf : a.failed with _ | _
  · exact hwalk (nodeWalk_of_nodeIn hf h)
  · rw [nodeIn_of_failed hf] at h
    cases h
    exact .of_failed hf

/-- Outside of `with` bodies of the function there are none around. -/
theorem walks_bindable {a : Analyzer} (h : a.withDepth = 0) :
    Walks s depth withs a a fun _ => withs = 0 :=
  fun hf => ⟨hf, fun hs => ⟨hs, .refl _, fun _ _ => hs.withDepth ▸ h⟩⟩

/-- **A name is defined.** -/
theorem walks_define (a : Analyzer) (x : Identifier) (span : Span) :
    Walks s depth withs a (a.define x span).1 fun T => withs = 0 ∧ (a.define x span).2.Own T s := by
  rw [define]
  obtain hfail | ⟨hzero, hsame⟩ := a.checkBindable_eq x.name span
  · refine .of_failed ?_
    simp only [hfail, if_true]
  · rw [hsame]
    by_cases hfailed : a.failed = true
    · refine .of_failed ?_
      simp only [hfailed, if_true]
    · simp only [hfailed]
      refine Walks.table fun hs => ?_
      obtain ⟨hleads, hdeclares⟩ := ScopeTable.leads_declare hs.valid (hs.scope ▸ hs.inside) x.name
      refine ⟨hleads, fun T hT => ⟨hs.withDepth ▸ hzero, _, rfl, ?_⟩⟩
      exact hs.scope ▸ hdeclares.mono hT

/-- An assignment is noted. -/
theorem walks_assigned (a : Analyzer) (x : Identifier) (type : ValueType) :
    Walks s depth withs a (a.assigned x type) fun _ => True := by
  rw [assigned]
  split
  · exact Walks.table fun hs => ⟨ScopeTable.leads_addAssigned hs.valid _ _, fun _ _ => trivial⟩
  · exact .refl a

/-- A use is noted. -/
theorem walks_used (a : Analyzer) (n : Node) (u : Usage) :
    Walks s depth withs a (a.used n u) fun _ => True := by
  rw [used]
  split
  · exact Walks.table fun hs => ⟨ScopeTable.leads_addUsage hs.valid _ _, fun _ _ => trivial⟩
  · exact .refl a

/-- What is noted of a call. -/
theorem walks_noteCall (a : Analyzer) (target : Node) (args : List Node) :
    Walks s depth withs a (a.noteCall target args) fun _ => True := by
  rw [noteCall]
  split
  · exact .refl a
  · exact a.walks_used target _

/-- What is noted of the operands of a binary operation. -/
theorem walks_noteOperands (a : Analyzer) (op : BinaryOp) (lhs rhs : Node) :
    Walks s depth withs a (a.noteOperands op lhs rhs) fun _ => True := by
  rw [noteOperands]
  split
  · exact Walks.andThen (a.walks_used lhs _) (walks_used _ rhs _)
  · exact .refl a

/-- What is noted of the operand of a unary operation. -/
theorem walks_noteOperand (a : Analyzer) (op : UnaryOp) (operand : Node) :
    Walks s depth withs a (a.noteOperand op operand) fun _ => True := by
  rw [noteOperand]
  split
  · exact a.walks_used operand _
  · exact .refl a

/-- What is noted of a value that a name gets. -/
theorem walks_noteValue (a : Analyzer) (x? : Option Identifier) (value? : Option Node) :
    Walks s depth withs a (a.noteValue x? value?) fun _ => True := by
  rw [noteValue.eq_def]
  split
  · exact a.walks_assigned _ _
  · exact .refl a

/-- Declarations of names. -/
theorem leads_foldl_declare {t : ScopeTable} {s : ScopeId} (names : List String) (hv : t.Valid)
    (hs : s.index < t.scopes.size) :
    t.Leads (names.foldl (fun t name => (t.declare s name).2) t) := by
  induction names generalizing t with
  | nil => exact .refl hv
  | cons name rest ih =>
    have hone := (ScopeTable.leads_declare hv hs name).1
    exact hone.trans (ih hone.valid (hone.ext.size_le hs))

/-- **The names of a body are declared.** -/
theorem walks_hoist (a : Analyzer) (body : List Node) :
    Walks s depth withs a (a.hoist body) fun _ => True := by
  rw [hoist]
  refine Walks.table fun hs => ⟨?_, fun _ _ => trivial⟩
  show a.table.Leads ((hoistedNames body).foldl _ a.table)
  rw [← Array.foldl_toList]
  exact leads_foldl_declare _ hs.valid (hs.scope ▸ hs.inside)

/-- Declarations of parameters. -/
theorem leads_foldl_parameters {t : ScopeTable} {s : ScopeId} (params : List Identifier)
    (done : Array Identifier) (hv : t.Valid) (hs : s.index < t.scopes.size)
    (hdone : ∀ x ∈ done.toList, x.Own t s) :
    let r := params.foldl (fun (acc : Array Identifier × ScopeTable) x =>
      let (v, t) := acc.2.declareParameter s x.name
      (acc.1.push { x with var := some v }, t)) (done, t)
    t.Leads r.2 ∧ ∀ x ∈ r.1.toList, x.Own r.2 s := by
  induction params generalizing t done with
  | nil => exact ⟨.refl hv, hdone⟩
  | cons x rest ih =>
    obtain ⟨hleads, hdeclares⟩ := ScopeTable.leads_declareParameter hv hs x.name
    have hrest := ih (t := (t.declareParameter s x.name).2)
      (done.push { x with var := some (t.declareParameter s x.name).1 }) hleads.valid
      (hleads.ext.size_le hs) fun y hy => by
        rw [Array.toList_push] at hy
        obtain hy | hy := List.mem_append.mp hy
        · obtain ⟨v, hv, hown⟩ := hdone y hy
          exact ⟨v, hv, hown.mono hleads.ext⟩
        · rw [List.mem_singleton.mp hy]
          exact ⟨_, rfl, hdeclares⟩
    exact ⟨hleads.trans hrest.1, hrest.2⟩

/-- **Parameters are declared.** -/
theorem walks_parameters (a : Analyzer) (params : List Identifier) :
    Walks s depth withs a (a.parameters params).1 fun T =>
      ∀ x ∈ (a.parameters params).2, x.Own T s := by
  rw [parameters]
  refine Walks.table fun hs => ?_
  obtain ⟨hleads, hown⟩ := leads_foldl_parameters params #[] hs.valid hs.inside (by simp)
  rw [hs.scope]
  refine ⟨hleads, fun T hT x hx => ?_⟩
  obtain ⟨v, hv, hdeclares⟩ := hown x hx
  exact ⟨v, hv, hdeclares.mono hT⟩

/-- **A function expression sees its own name**, unless something else has that name. -/
theorem walks_ownName (a : Analyzer) (x : Identifier) (hx : x.var = none) :
    Walks s depth withs a (a.ownName x).1 fun T =>
      (a.ownName x).2.var = none ∨ (a.ownName x).2.Own T s := by
  rw [ownName]
  split
  · exact (Walks.refl a).mono fun _ _ => .inl hx
  · refine Walks.table fun hs => ?_
    obtain ⟨hleads, hdeclares⟩ := ScopeTable.leads_declare hs.valid (hs.scope ▸ hs.inside) x.name
    have hnote := ScopeTable.leads_addAssigned hleads.valid (a.table.declare a.scope x.name).1 .function
    refine ⟨hleads.trans hnote, fun T hT => .inr ⟨_, rfl, ?_⟩⟩
    exact hs.scope ▸ hdeclares.mono (hnote.ext.trans hT)

/-- **A declaration of a function** binds its name around it. -/
theorem walks_nameAround (a : Analyzer) (isDeclaration : Bool) (name : Option Identifier) (span : Span) :
    Walks s depth withs a (a.nameAround isDeclaration name span).1 fun T =>
      isDeclaration = true → ∀ x ∈ (a.nameAround isDeclaration name span).2, withs = 0 ∧ x.Own T s := by
  rw [nameAround.eq_def]
  split
  · next x =>
    have hassigned : Walks s depth withs (a.define x span).1
        (if (a.define x span).1.failed then (a.define x span).1
          else (a.define x span).1.assigned (a.define x span).2 .function) fun _ => True := by
      split
      · exact .refl _
      · exact walks_assigned _ _ _
    refine ((a.walks_define x span).andThen hassigned).mono fun T hx _ y hy => ?_
    obtain rfl : (a.define x span).2 = y := Option.some.inj hy
    exact hx
  · next hother =>
    refine (Walks.refl a).mono fun _ _ hdeclaration x hx => ?_
    exact absurd hx (hother x hdeclaration)

/-- **The name of a function within**: an expression sees it, unless something else has that name. -/
theorem walks_nameWithin (a : Analyzer) (isDeclaration : Bool) (name : Option Identifier)
    (hname : isDeclaration = false → ∀ x ∈ name, x.var = none) :
    Walks s depth withs a (a.nameWithin isDeclaration name).1 fun T =>
      if isDeclaration then (a.nameWithin isDeclaration name).2 = name
      else ∀ x ∈ (a.nameWithin isDeclaration name).2, x.var = none ∨ x.Own T s := by
  cases isDeclaration with
  | true => exact (Walks.refl a).mono fun _ _ => rfl
  | false =>
    cases name with
    | none => exact (Walks.refl a).mono fun _ _ _ hx => nomatch hx
    | some x =>
      refine (a.walks_ownName x (hname rfl x rfl)).mono fun T hx y hy => ?_
      obtain rfl : (a.ownName x).2 = y := Option.some.inj hy
      exact hx

/-- **A name in a node of its own**, which is used in no `with` body at all. -/
theorem walks_identifier (a : Analyzer) (i : Info) (x : Identifier)
    (hplain : 0 < depth → x.isDefinition = true) :
    Walks s depth withs a (a.identifier i x).1 fun T =>
      (a.identifier i x).2.Scoped T s (decide (withs < depth)) withs := by
  rw [identifier]
  obtain hfail | ⟨hzero, hsame⟩ := a.checkBindable_eq x.name i.span
  · refine .of_failed ?_
    simp only [hfail, if_true]
  · rw [hsame]
    by_cases hfailed : a.failed = true
    · refine .of_failed ?_
      simp only [hfailed, if_true]
    · simp only [hfailed]
      by_cases hdef : x.isDefinition = true
      · simp only [hdef, if_true]
        refine Walks.table fun hs => ?_
        obtain ⟨hleads, hdeclares⟩ :=
          ScopeTable.leads_declare hs.valid (hs.scope ▸ hs.inside) x.name
        refine ⟨hleads, fun T hT => ⟨hs.withDepth ▸ hzero, ?_⟩⟩
        exact Identifier.Own.resolves ⟨_, rfl, hs.scope ▸ hdeclares.mono hT⟩ _
      · simp only [hdef]
        refine Walks.table fun hs => ?_
        have hsome : 0 < a.table.scopes.size := Nat.lt_of_le_of_lt (Nat.zero_le _) hs.inside
        obtain ⟨hleads, hreaches⟩ := ScopeTable.leads_resolve hs.valid hsome a.scope x.name
        refine ⟨hleads, fun T hT => ⟨hs.withDepth ▸ hzero, ?_⟩⟩
        obtain ⟨V, hV, hname, hreach⟩ := hreaches.mono hT
        refine ⟨_, V, rfl, hV, hname, ?_⟩
        have hlow : decide (withs < depth) = false :=
          decide_eq_false fun hlt => hdef (hplain (Nat.lt_of_le_of_lt (Nat.zero_le _) hlt))
        obtain hown | hglobal | henv := hreach
        · exact .inl (hown.trans hs.scope)
        · exact .inr (.inl hglobal)
        · exact .inr (.inr ⟨hlow, henv⟩)

/-- What ends a walk leaves names alone. -/
theorem walks_expression {a a₁ a' : Analyzer} {n n' : Node} {isLowered : Bool} {type : ValueType}
    (hend : a₁.expression n type = (a', n'))
    (h : Walks s depth withs a a₁ fun T => n.Scoped T s isLowered withs) :
    Walks s depth withs a a' fun T => n'.Scoped T s isLowered withs := by
  rw [expression] at hend
  split at hend
  · cases hend
    exact h
  · cases hend
    exact h.mono fun T hn => (Node.scoped_setInfo ..).mpr hn

/-- **A function is entered and left again**: its scope lies in the scope around it. -/
theorem walks_enter (a : Analyzer) (name : String) {a' : Analyzer} {P : ScopeTable → Prop}
    (h : Walks (a.enter name).2 depth 0 (a.enter name).1 a' P) :
    Walks s depth withs a { a' with scope := a.scope, withDepth := a.withDepth } fun T =>
      T.Encloses s (a.enter name).2 ∧ P T := by
  intro hfailed
  obtain ⟨hfailed₁, hwalk⟩ := h hfailed
  refine ⟨hfailed₁, fun hs => ?_⟩
  have hpush := ScopeTable.leads_pushScope hs.valid (hs.scope ▸ hs.inside) name
  -- In a `with` body the scope is marked, too.
  have hmark : (a.table.pushScope a.scope name).2.Leads (a.enter name).1.table := by
    show (a.table.pushScope a.scope name).2.Leads (if 0 < a.loweredDepth then _ else _)
    split
    · exact ScopeTable.leads_markDynamic hpush.valid _
    · exact .refl hpush.valid
  obtain ⟨S, hS, hparent⟩ := hmark.ext.scopes _ _ (ScopeTable.pushScope_getElem? a.scope name)
  have w := hwalk ⟨hmark.valid, rfl, (Array.getElem?_eq_some_iff.mp hS).choose, rfl, hs.loweredDepth⟩
  have hext := hpush.ext.trans (hmark.ext.trans w.ext)
  refine ⟨⟨w.stands.valid, hs.scope, hext.size_le hs.inside, hs.withDepth, w.stands.loweredDepth⟩, hext,
    fun T hT => ⟨?_, w.holds T hT⟩⟩
  obtain ⟨S', hS', hparent'⟩ := (w.ext.trans hT).scopes _ S hS
  exact ⟨S', hS', by rw [hparent', hparent, ← hs.scope]⟩

/-- **The inside of a function**, once its name is bound around it. -/
theorem walks_functionWithin {inWith : Bool} {a a' : Analyzer} {i : Info} {name : Option Identifier}
    {params : List Identifier} {body : List Node} {isDeclaration : Bool} {n' : Node} (hle : withs ≤ depth)
    (h : a.functionWithin inWith i name params body isDeclaration = (a', n'))
    (hname : isDeclaration = false → ∀ x ∈ name, x.var = none)
    (hbody : ∀ {b b' : Analyzer} {s' : ScopeId} {body' : List Node}, b.nodesIn inWith body = (b', body') →
      Walks s' depth 0 b b' fun T => ScopedAll T s' (decide (0 < depth)) 0 body') :
    Walks s depth withs a a' fun T =>
      (isDeclaration = true → ∀ x ∈ name, withs = 0 ∧ x.Own T s) →
        n'.Scoped T s (decide (withs < depth)) withs := by
  rcases hp : (a.enter (functionName name)).1.parameters params with ⟨a₁, params'⟩
  rcases hw : (a₁.hoist body).nameWithin isDeclaration name with ⟨a₂, name'⟩
  rcases hb : a₂.nodesIn inWith body with ⟨a₃, body'⟩
  rw [functionWithin_eq hp hw hb] at h
  obtain ⟨i, rfl⟩ : ∃ j, n' = .function j name' params' body' isDeclaration
      (some (a.enter (functionName name)).2) := by
    rw [expression] at h
    split at h
    · cases h
      exact ⟨_, rfl⟩
    · cases h
      exact ⟨_, rfl⟩
  obtain rfl : _ = a' := (expression_fst ..).symm.trans (congrArg Prod.fst h)
  have hparams : Walks (a.enter (functionName name)).2 depth 0 (a.enter (functionName name)).1 a₁
      fun T => ∀ x ∈ params', x.Own T (a.enter (functionName name)).2 := by
    obtain rfl : _ = a₁ := congrArg Prod.fst hp
    obtain rfl : _ = params' := congrArg Prod.snd hp
    exact walks_parameters (a.enter (functionName name)).1 params
  have hwithin : Walks (a.enter (functionName name)).2 depth 0 (a₁.hoist body) a₂ fun T =>
      if isDeclaration then name' = name
      else ∀ x ∈ name', x.var = none ∨ x.Own T (a.enter (functionName name)).2 := by
    obtain rfl : _ = a₂ := congrArg Prod.fst hw
    obtain rfl : _ = name' := congrArg Prod.snd hw
    exact walks_nameWithin (a₁.hoist body) isDeclaration name hname
  have hinside := ((hparams.andThen (walks_hoist a₁ body)).trans hwithin).trans (hbody hb)
  have hlow : decide (0 < depth) = (decide (withs < depth) || decide (0 < withs)) := by
    rw [← Bool.decide_or, decide_eq_decide]
    omega
  refine (walks_enter a (functionName name) hinside).mono fun T hT houter => ?_
  obtain ⟨hencloses, ⟨hparams, hname'⟩, hbody'⟩ := hT
  refine ⟨_, rfl, hencloses, hparams, fun x hx => ?_, hlow ▸ hbody'⟩
  cases isDeclaration with
  | true => exact houter rfl x (hname' ▸ hx)
  | false => exact hname' x hx

/-- **The body of a `with` statement is entered and left again.** -/
theorem walks_within (a : Analyzer) {a' : Analyzer} {P : ScopeTable → Prop}
    (h : Walks s (depth + 1) (withs + 1) a.enterWith a' P) : Walks s depth withs a a'.leaveWith P := by
  intro hfailed
  obtain ⟨hfailed₁, hwalk⟩ := h hfailed
  refine ⟨hfailed₁, fun hs => ?_⟩
  have hmark := ScopeTable.leads_markDynamic hs.valid a.scope
  have w := hwalk ⟨hmark.valid, hs.scope, hmark.ext.size_le hs.inside, congrArg (· + 1) hs.withDepth,
    congrArg (· + 1) hs.loweredDepth⟩
  refine ⟨⟨w.stands.valid, w.stands.scope, w.stands.inside, ?_, ?_⟩, hmark.ext.trans w.ext, w.holds⟩
  · exact congrArg (· - 1) w.stands.withDepth
  · exact congrArg (· - 1) w.stands.loweredDepth

/-- **The binding of a handler is opened for a walk and closed again.** -/
theorem walks_handler (a : Analyzer) (x : Identifier) {a' : Analyzer} {P : ScopeTable → Prop}
    (h : Walks s depth withs (a.openHandler x) a' P) :
    Walks s depth withs a (a.closeHandler a' x) fun T => (a.handlerName x).Own T s ∧ P T := by
  intro hfailed
  obtain ⟨hfailed₁, hwalk⟩ := h hfailed
  refine ⟨hfailed₁, fun hs => ?_⟩
  obtain ⟨hopen, hdeclares, hshadowed⟩ :=
    ScopeTable.leads_openBinding hs.valid (hs.scope ▸ hs.inside) x.name
  have w := hwalk ⟨hopen.valid, hs.scope, hopen.ext.size_le hs.inside, hs.withDepth, hs.loweredDepth⟩
  have hclose := ScopeTable.leads_closeBinding w.stands.valid fun v hv =>
    (hshadowed v hv).mono (hopen.ext.trans w.ext)
  refine ⟨⟨hclose.valid, w.stands.scope, hclose.ext.size_le w.stands.inside, w.stands.withDepth,
    w.stands.loweredDepth⟩, hopen.ext.trans (w.ext.trans hclose.ext), fun T hT => ⟨⟨_, rfl, ?_⟩, ?_⟩⟩
  · exact hs.scope ▸ hdeclares.mono (w.ext.trans (hclose.ext.trans hT))
  · exact w.holds T (hclose.ext.trans hT)

/-! ## Nodes -/

mutual

/-- **A node is walked**: its names can be reached. -/
theorem walks_node : ∀ (n : Node) {s : ScopeId} {depth withs : Nat} (_ : withs ≤ depth)
    (_ : n.isUnset = true) {a a' : Analyzer} {n' : Node} (_ : a.nodeIn (decide (0 < depth)) n = (a', n')),
    Walks s depth withs a a' fun T => n'.Scoped T s (decide (withs < depth)) withs
  | .literal .., s, depth, withs, _, _, a, a', n', h => walks_of_rules h fun hw => by
    cases hw
    exact (Walks.refl a).mono fun _ _ => trivial
  | .dynamic .., s, depth, withs, _, _, a, a', n', h => walks_of_rules h fun hw => by
    cases hw
    exact (Walks.refl a).mono fun _ _ => trivial
  | .this .., s, depth, withs, _, _, a, a', n', h => walks_of_rules h fun hw => by
    cases hw
    exact (Walks.refl a).mono fun _ _ => trivial
  | .identifier i x, s, depth, withs, _, _, a, a', n', h => walks_of_rules h fun hw => by
    cases hw with
    | lowered => exact (Walks.refl a).mono fun _ _ => trivial
    | identifier hplain hx =>
      have hwalk : Walks s depth withs a _ _ :=
        a.walks_identifier i x fun hdepth => hplain (decide_eq_true hdepth)
      rwa [hx] at hwalk
  | .call i target args, s, depth, withs, hle, hn, a, a', n', h => walks_of_rules h fun hw => by
    rw [Node.isUnset, Bool.and_eq_true] at hn
    cases hw with
    | call ht hr hend =>
      have hparts := (walks_node target (s := s) hle hn.1 ht).trans (walks_nodes args hle hn.2 hr)
      exact walks_expression hend (hparts.andThen (walks_noteCall _ _ _))
  | .member i target name, s, depth, withs, hle, hn, a, a', n', h => walks_of_rules h fun hw => by
    cases hw with
    | member ht hend =>
      have htarget := walks_node target (s := s) hle hn ht
      exact walks_expression hend htarget
  | .binary i op lhs rhs, s, depth, withs, hle, hn, a, a', n', h => walks_of_rules h fun hw => by
    rw [Node.isUnset, Bool.and_eq_true] at hn
    cases hw with
    | binary hl hr =>
      have hparts := (walks_node lhs (s := s) hle hn.1 hl).trans (walks_node rhs hle hn.2 hr)
      exact hparts.andThen (walks_noteOperands _ _ _ _)
    | binaryFolded hl hr =>
      have hparts := (walks_node lhs (s := s) hle hn.1 hl).trans (walks_node rhs hle hn.2 hr)
      exact (hparts.andThen (walks_noteOperands _ _ _ _)).mono fun _ _ => trivial
    | binaryFailed hl hr hf => exact .of_failed hf
  | .unary i op operand, s, depth, withs, hle, hn, a, a', n', h => walks_of_rules h fun hw => by
    cases hw with
    | unary ho =>
      have hoperand := walks_node operand (s := s) hle hn ho
      exact hoperand.andThen (walks_noteOperand _ _ _)
    | unaryFolded ho =>
      have hoperand := walks_node operand (s := s) hle hn ho
      exact (hoperand.andThen (walks_noteOperand _ _ _)).mono fun _ _ => trivial
    | unaryFailed ho hf => exact .of_failed hf
  | .assign i target value, s, depth, withs, hle, hn, a, a', n', h => walks_of_rules h fun hw => by
    rw [Node.isUnset, Bool.and_eq_true] at hn
    cases hw with
    | assign htarget ht hv hend =>
      have hparts := (walks_node target (s := s) hle hn.1 ht).trans (walks_node value hle hn.2 hv)
      exact walks_expression hend (hparts.andThen (walks_noteValue _ _ _))
    | assignFailed => exact .of_failed rfl
  | .object i ps, s, depth, withs, hle, hn, a, a', n', h => walks_of_rules h fun hw => by
    cases hw with
    | object hp hend =>
      have hproperties := walks_properties ps (s := s) hle hn hp
      exact walks_expression hend hproperties
  | .delete i target, s, depth, withs, hle, hn, a, a', n', h => walks_of_rules h fun hw => by
    cases hw with
    | delete ht hend =>
      have htarget := walks_node target (s := s) hle hn ht
      exact walks_expression hend htarget
  | .function i name params body isDeclaration scope, s, depth, withs, hle, hn, a, a', n', h =>
    walks_of_rules h fun hw => by
    rw [Node.isUnset, Bool.and_eq_true, Bool.and_eq_true, Bool.and_eq_true] at hn
    obtain ⟨⟨⟨hname, -⟩, hbody⟩, -⟩ := hn
    have hunset : ∀ x ∈ name, x.var = none := by
      rintro x rfl
      simpa using hname
    cases hw with
    | @function _ _ name₁ _ _ _ _ _ _ _ hn hok hwithin =>
      have haround : Walks s depth withs a _ _ := a.walks_nameAround isDeclaration name i.span
      rw [hn] at haround
      have hexpression : isDeclaration = false → ∀ x ∈ name₁, x.var = none := by
        rintro rfl
        rw [nameAround_false] at hn
        cases hn
        exact hunset
      have hfunction := walks_functionWithin (s := s) hle hwithin hexpression fun hb =>
        walks_nodes body (Nat.zero_le depth) hbody hb
      exact (haround.trans hfunction).mono fun T ⟨hname, hT⟩ => hT hname
    | functionFailed hn hf => exact .of_failed hf
  | .var i binding init, s, depth, withs, hle, hn, a, a', n', h => walks_of_rules h fun hw => by
    rw [Node.isUnset, Bool.and_eq_true] at hn
    cases hw with
    | var hb hi hend =>
      have hdefine : Walks s depth withs a _ _ := a.walks_define binding i.span
      rw [hb] at hdefine
      have hparts := hdefine.trans (walks_node? init hle hn.2 hi)
      exact walks_expression hend (hparts.andThen (walks_noteValue _ _ _))
  | .ret i value, s, depth, withs, hle, hn, a, a', n', h => walks_of_rules h fun hw => by
    cases hw with
    | ret hv hend =>
      have hvalue := walks_node? value (s := s) hle hn hv
      exact walks_expression hend hvalue
  | .cond i condition thenBranch elseBranch, s, depth, withs, hle, hn, a, a', n', h =>
    walks_of_rules h fun hw => by
    rw [Node.isUnset, Bool.and_eq_true, Bool.and_eq_true] at hn
    cases hw with
    | cond hc ht he hend =>
      have hbranches := (walks_node thenBranch (s := s) hle hn.1.2 ht).trans (walks_node? elseBranch hle hn.2 he)
      exact walks_expression hend ((walks_node condition hle hn.1.1 hc).trans hbranches)
  | .loop i condition body, s, depth, withs, hle, hn, a, a', n', h => walks_of_rules h fun hw => by
    rw [Node.isUnset, Bool.and_eq_true] at hn
    cases hw with
    | loop hc hb hend =>
      have hparts := (walks_node condition (s := s) hle hn.1 hc).trans (walks_node body hle hn.2 hb)
      exact walks_expression hend hparts
  | .block i statements, s, depth, withs, hle, hn, a, a', n', h => walks_of_rules h fun hw => by
    cases hw with
    | block hs hend =>
      have hstatements := walks_nodes statements (s := s) hle hn hs
      exact walks_expression hend hstatements
  | .withObject i object body, s, depth, withs, hle, hn, a, a', n', h => walks_of_rules h fun hw => by
    rw [Node.isUnset, Bool.and_eq_true] at hn
    cases hw with
    | withObject ho hok hb hend =>
      have hb : Analyzer.nodeIn _ (decide (0 < depth + 1)) body = _ := hb
      have hbody := walks_within _ (walks_node body (s := s) (Nat.succ_le_succ hle) hn.2 hb)
      refine walks_expression hend (((walks_node object hle hn.1 ho).trans hbody).mono ?_)
      rintro T ⟨hT, hT'⟩
      rw [decide_eq_decide.mpr (Nat.succ_lt_succ_iff (b := depth))] at hT'
      exact ⟨hT, hT'⟩
    | withObjectFailed ho hf => exact .of_failed hf
  | .throw i value, s, depth, withs, hle, hn, a, a', n', h => walks_of_rules h fun hw => by
    cases hw with
    | throw hv hend =>
      have hvalue := walks_node value (s := s) hle hn hv
      exact walks_expression hend hvalue
  | .tryCatch i block none handler, s, depth, withs, hle, hn, a, a', n', h => walks_of_rules h fun hw => by
    rw [Node.isUnset, Bool.and_eq_true, Bool.and_eq_true] at hn
    cases hw with
    | tryCatch hb hh hend =>
      have hparts := (walks_node block (s := s) hle hn.1.1 hb).trans (walks_node handler hle hn.2 hh)
      refine walks_expression hend (hparts.mono fun T hT => ⟨hT.1, ?_, hT.2⟩)
      rintro x ⟨⟩
  | .tryCatch i block (some x) handler, s, depth, withs, hle, hn, a, a', n', h =>
    walks_of_rules h fun hw => by
    rw [Node.isUnset, Bool.and_eq_true, Bool.and_eq_true] at hn
    cases hw with
    | handler hb hok hzero hh hend =>
      have hhandler := walks_handler _ x (walks_node handler (s := s) hle hn.2 hh)
      have hparts := (walks_node block hle hn.1.1 hb).trans ((walks_bindable hzero).trans hhandler)
      refine walks_expression hend (hparts.mono ?_)
      rintro T ⟨hT, rfl, hown, hT'⟩
      refine ⟨hT, fun y hy => ?_, hT'⟩
      cases hy
      exact ⟨rfl, hown⟩
    | handlerFailed hb hc hf => exact .of_failed hf
termination_by structural n => n

/-- **Nodes are walked in order.** -/
theorem walks_nodes : ∀ (ns : List Node) {s : ScopeId} {depth withs : Nat} (_ : withs ≤ depth)
    (_ : unsetAll ns = true) {a a' : Analyzer} {ns' : List Node}
    (_ : a.nodesIn (decide (0 < depth)) ns = (a', ns')),
    Walks s depth withs a a' fun T => ScopedAll T s (decide (withs < depth)) withs ns'
  | [], s, depth, withs, _, _, a, a', ns', h => by
    rw [nodesIn_nil] at h
    cases h
    exact (Walks.refl a).mono fun _ _ => trivial
  | n :: rest, s, depth, withs, hle, hn, a, a', ns', h => by
    rw [unsetAll, Bool.and_eq_true] at hn
    rw [nodesIn_cons] at h
    cases h
    exact (walks_node n hle hn.1 rfl).trans (walks_nodes rest hle hn.2 rfl)
termination_by structural ns => ns

/-- **A node that may be missing is walked.** -/
theorem walks_node? : ∀ (n : Option Node) {s : ScopeId} {depth withs : Nat} (_ : withs ≤ depth)
    (_ : unset? n = true) {a a' : Analyzer} {n' : Option Node}
    (_ : a.nodeIn? (decide (0 < depth)) n = (a', n')),
    Walks s depth withs a a' fun T => Scoped? T s (decide (withs < depth)) withs n'
  | none, s, depth, withs, _, _, a, a', n', h => by
    rw [nodeIn?_none] at h
    cases h
    exact (Walks.refl a).mono fun _ _ => trivial
  | some n, s, depth, withs, hle, hn, a, a', n', h => by
    rw [nodeIn?_some] at h
    cases h
    exact walks_node n hle hn rfl
termination_by structural n => n

/-- **Properties are walked in order.** -/
theorem walks_properties : ∀ (ps : List (String × Node)) {s : ScopeId} {depth withs : Nat}
    (_ : withs ≤ depth) (_ : unsetProperties ps = true) {a a' : Analyzer} {ps' : List (String × Node)}
    (_ : a.propertiesIn (decide (0 < depth)) ps = (a', ps')),
    Walks s depth withs a a' fun T => ScopedProperties T s (decide (withs < depth)) withs ps'
  | [], s, depth, withs, _, _, a, a', ps', h => by
    rw [propertiesIn_nil] at h
    cases h
    exact (Walks.refl a).mono fun _ _ => trivial
  | (name, value) :: rest, s, depth, withs, hle, hn, a, a', ps', h => by
    rw [unsetProperties, Bool.and_eq_true] at hn
    rw [propertiesIn_cons] at h
    cases h
    exact (walks_node value hle hn.1 rfl).trans (walks_properties rest hle hn.2 rfl)
termination_by structural ps => ps

end

/-- **Programs.** Analysis that accepts a program leaves a valid table and names that can be reached, also
once slots have been assigned. -/
theorem program_scoped {p p' : Program} {a : Analyzer} (hp : p.isUnset = true)
    (h : program {} p = (a, p')) (hok : a.failure = none) :
    a.table.Valid ∧ 0 < a.table.scopes.size ∧ p'.scope = some .global ∧
      ∀ T, a.table.Extends T → ScopedAll T .global false 0 p'.body := by
  rw [Program.isUnset, Bool.and_eq_true] at hp
  have hstands : Stands {} .global 0 0 := ⟨ScopeTable.valid_empty, rfl, by decide, rfl, rfl⟩
  have hhoist : Walks .global 0 0 {} _ _ := walks_hoist {} p.body
  rw [program] at h
  rcases hb : (hoist {} p.body).nodes #[] p.body with ⟨a₁, body⟩
  simp only [hb] at h
  cases h
  have hbody := walks_nodes p.body (s := .global) (Nat.le_refl 0) hp.1 hb
  have hfailed : a.failed = false := by simp [failed, hok]
  have w := ((hhoist.trans hbody) hfailed).2 hstands
  exact ⟨w.stands.valid, w.stands.inside, rfl, fun T hT => (w.holds T hT).2⟩

end Analyzer

end ScriptEngine
