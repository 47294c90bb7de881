import Mathlib.Data.List.Basic
import ScriptEngine.Proofs.Scope.Placement
import ScriptEngine.Proofs.Scope.Walk

/-!
# Analysis as a relation

`Analyzes` relates the nodes and the table before a successful walk to those after it. It has one rule for
each way in which a node can touch the table, and says nothing of failures, of the order in which results
are piled up, or of hints. Most nodes neither name nor bind anything; for these there is a single rule, over
the parts of the node.

`Analyzer.passes_node` says that a walk that does not fail obeys the rules, so that whatever holds of all
that obeys them is proved by induction on `Analyzes`.
-/

namespace ScriptEngine

/-! ## Parts -/

/-- Whether a node itself neither names nor binds anything, nor has names looked up at run time. -/
def Node.isNeutral : Node → Bool
  | .identifier .. | .function .. | .var .. | .withObject .. => false
  | .tryCatch _ _ param _ => param.isNone
  | _ => true

/-- The parts of a neutral node, in the order in which they are walked. -/
def Node.parts : Node → List Node
  | .call _ target args => target :: args
  | .member _ target _ => [target]
  | .binary _ _ lhs rhs => [lhs, rhs]
  | .unary _ _ operand => [operand]
  | .assign _ target value => [target, value]
  | .object _ ps => ps.map Prod.snd
  | .delete _ target => [target]
  | .ret _ value => value.toList
  | .cond _ condition thenBranch elseBranch => condition :: thenBranch :: elseBranch.toList
  | .loop _ condition body => [condition, body]
  | .block _ statements => statements
  | .throw _ value => [value]
  | .tryCatch _ guarded none handler => [guarded, handler]
  | _ => []

/-- A neutral node with other parts. -/
def Node.rebuild (i : Info) : Node → List Node → Node
  | .call .., target :: args => .call i target args
  | .member _ _ name, [target] => .member i target name
  | .binary _ op _ _, [lhs, rhs] => .binary i op lhs rhs
  | .unary _ op _, [operand] => .unary i op operand
  | .assign .., [target, value] => .assign i target value
  | .object _ ps, values => .object i (ps.zipWith (fun p value => (p.1, value)) values)
  | .delete .., [target] => .delete i target
  | .ret .., value => .ret i value.head?
  | .cond .., condition :: thenBranch :: elseBranch => .cond i condition thenBranch elseBranch.head?
  | .loop .., [condition, body] => .loop i condition body
  | .block .., statements => .block i statements
  | .throw .., [value] => .throw i value
  | .tryCatch _ _ none _, [guarded, handler] => .tryCatch i guarded none handler
  | n, _ => n.setInfo i

/-- A neutral node has the parts that it is given, and stays neutral. -/
theorem Node.parts_rebuild {n : Node} {ps : List Node} (i : Info) (hn : n.isNeutral = true)
    (h : ps.length = n.parts.length) :
    (n.rebuild i ps).parts = ps ∧ (n.rebuild i ps).isNeutral = true := by
  cases n with
  | identifier | function | var | withObject => cases hn
  | literal | dynamic | this => exact ⟨(List.eq_nil_of_length_eq_zero h).symm, rfl⟩
  | call j target args =>
    obtain ⟨target', args', rfl⟩ := List.exists_cons_of_length_eq_add_one h
    exact ⟨rfl, rfl⟩
  | member | unary | delete | throw =>
    obtain ⟨p, rfl⟩ := List.length_eq_one_iff.mp h
    exact ⟨rfl, rfl⟩
  | binary | assign | loop =>
    obtain ⟨p, q, rfl⟩ := List.length_eq_two.mp h
    exact ⟨rfl, rfl⟩
  | object j properties =>
    refine ⟨?_, rfl⟩
    rw [parts, List.length_map] at h
    rw [rebuild, parts, List.map_zipWith]
    exact List.ext_getElem (by simp [h]) (by simp)
  | ret j value =>
    refine ⟨?_, rfl⟩
    cases value with
    | none =>
      rw [List.eq_nil_of_length_eq_zero h]
      rfl
    | some value =>
      obtain ⟨p, rfl⟩ := List.length_eq_one_iff.mp h
      rfl
  | cond j condition thenBranch elseBranch =>
    obtain ⟨p, ps, rfl⟩ := List.exists_cons_of_length_eq_add_one h
    obtain ⟨q, ps, rfl⟩ := List.exists_cons_of_length_eq_add_one (Nat.succ.inj h)
    have h : ps.length = elseBranch.toList.length := Nat.succ.inj (Nat.succ.inj h)
    refine ⟨?_, rfl⟩
    cases elseBranch with
    | none =>
      rw [List.eq_nil_of_length_eq_zero h]
      rfl
    | some elseBranch =>
      obtain ⟨r, rfl⟩ := List.length_eq_one_iff.mp h
      rfl
  | block j statements => exact ⟨rfl, rfl⟩
  | tryCatch j guarded param handler =>
    cases param with
    | some x => cases hn
    | none =>
      obtain ⟨p, q, rfl⟩ := List.length_eq_two.mp h
      exact ⟨rfl, rfl⟩

/-! ## Tables up to hints -/

/-- The variable without what is noted about its uses. -/
def Variable.core (v : Variable) : Variable :=
  { v with isParameter := false, usages := #[], assigned := #[] }

namespace ScopeTable

/-- The tables differ in nothing but what is noted about the uses of variables. -/
structure Hints (t t' : ScopeTable) : Prop where
  /-- The scopes are the same. -/
  scopes : t'.scopes = t.scopes
  /-- The variables are the same but for what is noted about them. -/
  vars : ∀ i : Nat, t'.vars[i]?.map Variable.core = t.vars[i]?.map Variable.core
  /-- Slots have been assigned in both or in none. -/
  finished : t'.finished = t.finished

namespace Hints

variable {t t' t'' : ScopeTable}

/-- Nothing was noted. -/
theorem refl (t : ScopeTable) : t.Hints t := ⟨rfl, fun _ => rfl, rfl⟩

/-- One note after the other. -/
theorem trans (h : t.Hints t') (h' : t'.Hints t'') : t.Hints t'' :=
  ⟨h'.scopes.trans h.scopes, fun i => (h'.vars i).trans (h.vars i), h'.finished.trans h.finished⟩

/-- A note about one variable. -/
theorem modifyVar (t : ScopeTable) (v : VarId) (f : Variable → Variable)
    (h : ∀ V, (f V).core = V.core) : t.Hints (t.modifyVar v f) := by
  refine ⟨rfl, fun i => ?_, rfl⟩
  rw [modifyVar_getElem?]
  split
  · rcases t.vars[i]? with _ | V
    · rfl
    · exact congrArg some (h V)
  · rfl

/-- A use is noted. -/
theorem addUsage (t : ScopeTable) (v : VarId) (u : Usage) : t.Hints (t.addUsage v u) :=
  modifyVar t v _ fun V => by split <;> rfl

/-- A type is noted. -/
theorem addAssigned (t : ScopeTable) (v : VarId) (type : ValueType) : t.Hints (t.addAssigned v type) :=
  modifyVar t v _ fun V => by split <;> rfl

end Hints

/-- Names were declared in a scope one after the other, and something may have been noted in between. -/
inductive Declared (s : ScopeId) : List String → ScopeTable → ScopeTable → Prop where
  /-- No name. -/
  | nil (t : ScopeTable) : Declared s [] t t
  /-- Something was noted first. -/
  | note {names : List String} {t t₁ t' : ScopeTable} (h : t.Hints t₁) (hs : Declared s names t₁ t') :
    Declared s names t t'
  /-- One more name. -/
  | cons {name : String} {names : List String} {t t' : ScopeTable}
    (hs : Declared s names (t.declare s name).2 t') : Declared s (name :: names) t t'

namespace Declared

variable {s : ScopeId} {names names' : List String} {t t' t'' : ScopeTable}

/-- First some names, and then others. -/
theorem append (h : Declared s names t t') (h' : Declared s names' t' t'') :
    Declared s (names ++ names') t t'' := by
  induction h with
  | nil t => exact h'
  | note hhints _ ih => exact .note hhints (ih h')
  | cons _ ih => exact .cons (ih h')

/-- Names are declared by a fold. -/
theorem foldl (s : ScopeId) (names : List String) (t : ScopeTable) :
    Declared s names t (names.foldl (fun t name => (t.declare s name).2) t) := by
  induction names generalizing t with
  | nil => exact .nil t
  | cons name names ih => exact .cons (ih _)

end Declared

end ScopeTable

/-! ## Places -/

/-- Where a walk is. -/
structure Place where
  /-- The scope of the function. -/
  scope : ScopeId
  /-- How many `with` bodies of the function are around. -/
  withs : Nat
  /-- How many `with` bodies of any function are around. -/
  depth : Nat

namespace Place

/-- The body of a `with` statement. -/
def inWith (c : Place) : Place := { c with withs := c.withs + 1, depth := c.depth + 1 }

/-- The body of a function with a scope of its own. -/
def inFunction (c : Place) (s : ScopeId) : Place := { scope := s, withs := 0, depth := c.depth }

end Place

/-- The table behind the start of a function that is written in a place: it has one more scope, which is
marked for lookup by name in a `with` body. -/
def ScopeTable.enter (t : ScopeTable) (c : Place) (label : String) : ScopeTable :=
  if 0 < c.depth then (t.pushScope c.scope label).2.markDynamic ⟨t.scopes.size⟩
  else (t.pushScope c.scope label).2

/-- The parameters of a function are declared in its scope. -/
def ScopeTable.parameters (t : ScopeTable) (s : ScopeId) (params : List Identifier) :
    Array Identifier × ScopeTable :=
  params.foldl
    (fun (acc : Array Identifier × ScopeTable) x =>
      let (v, t) := acc.2.declareParameter s x.name
      (acc.1.push { x with var := some v }, t))
    (#[], t)

/-- The name that a declaration of a function binds around it. -/
def outerNames (name : Option Identifier) (isDeclaration : Bool) : List String :=
  if isDeclaration then (name.map Identifier.name).toList else []

/-- The names that a function binds besides its parameters: those of its body, and the name of a function
expression. -/
def innerNames (name : Option Identifier) (body : List Node) (isDeclaration : Bool) : List String :=
  (hoistedNames body).toList ++ if isDeclaration then [] else (name.map Identifier.name).toList

/-- What analysis makes of the name of a function in a scope: it is the same name, and that of a declaration
has the variable that it was declared as. -/
structure FunctionName (s : ScopeId) (t t₁ : ScopeTable) (isDeclaration : Bool) (name name' : Option Identifier) :
    Prop where
  /-- The name is the same. -/
  same : name'.map Identifier.name = name.map Identifier.name
  /-- A declaration was declared around the function. -/
  declared : isDeclaration = true → ∀ x ∈ name', x.var = some (t.declare s x.name).1 ∧
    (t.declare s x.name).2.Hints t₁

/-- The name of a function expression is not declared around it. -/
theorem FunctionName.ofExpression {s : ScopeId} {t t₁ : ScopeTable} {name name' : Option Identifier}
    (h : name'.map Identifier.name = name.map Identifier.name) : FunctionName s t t₁ false name name' :=
  ⟨h, nofun⟩

/-! ## The rules -/

/-- In a place, analysis turns nodes and a table into other nodes and another table. -/
inductive Analyzes : Place → ScopeTable → List Node → ScopeTable → List Node → Prop where
  /-- No node. -/
  | nil (c : Place) (t : ScopeTable) : Analyzes c t [] t []
  /-- One node after the other. -/
  | cons {c : Place} {t t₁ t₂ : ScopeTable} {n n' : Node} {ns ns' : List Node}
    (h : Analyzes c t [n] t₁ [n']) (hs : Analyzes c t₁ ns t₂ ns') :
    Analyzes c t (n :: ns) t₂ (n' :: ns')
  /-- A neutral node. -/
  | neutral {c : Place} {t t₁ t₂ : ScopeTable} {n : Node} {ps : List Node} (i : Info)
    (hn : n.isNeutral = true) (hlength : ps.length = n.parts.length)
    (h : Analyzes c t n.parts t₁ ps) (hhints : t₁.Hints t₂) : Analyzes c t [n] t₂ [n.rebuild i ps]
  /-- An operation on literals, which becomes a literal. -/
  | folded {c : Place} {t t₁ t₂ : ScopeTable} {n : Node} {ps : List Node} (i : Info) (l : Literal)
    (hn : (∃ i op lhs rhs, n = .binary i op lhs rhs) ∨ ∃ i op x, n = .unary i op x)
    (h : Analyzes c t n.parts t₁ ps) (hps : ∀ p ∈ ps, p.number?.isSome = true)
    (hhints : t₁.Hints t₂) : Analyzes c t [n] t₂ [.literal i l]
  /-- A name that is used in a `with` body. -/
  | lowered {c : Place} (t : ScopeTable) (i i' : Info) {x : Identifier} (hx : x.isDefinition = false)
    (hc : 0 < c.depth) : Analyzes c t [.identifier i x] t [.dynamic i' x.name]
  /-- A name that is bound by a node of its own. -/
  | definition {c : Place} (t : ScopeTable) (i i' : Info) {x : Identifier} (hx : x.isDefinition = true)
    (hc : c.withs = 0) :
    Analyzes c t [.identifier i x] (t.declare c.scope x.name).2
      [.identifier i' { x with var := some (t.declare c.scope x.name).1 }]
  /-- A name that is used elsewhere. -/
  | reference {c : Place} (t : ScopeTable) (i i' : Info) {x : Identifier} (hx : x.isDefinition = false)
    (hc : c.withs = 0) (hdepth : c.depth = 0) :
    Analyzes c t [.identifier i x] (t.resolve c.scope x.name).2
      [.identifier i' { x with var := some (t.resolve c.scope x.name).1 }]
  /-- A variable statement. -/
  | var {c : Place} {t t₁ t₂ : ScopeTable} (i i' : Info) {x : Identifier} {init init' : Option Node}
    (hc : c.withs = 0) (h : Analyzes c (t.declare c.scope x.name).2 init.toList t₁ init'.toList)
    (hhints : t₁.Hints t₂) :
    Analyzes c t [.var i x init] t₂
      [.var i' { x with var := some (t.declare c.scope x.name).1 } init']
  /-- A function. A declaration binds its name around the function, and in the scope of the function its
  parameters come first. -/
  | function {c : Place} {t t₁ t₂ t₃ t₄ t₅ : ScopeTable} (i i' : Info) {name name' : Option Identifier}
    {params : List Identifier} {params' : Array Identifier} {body body' : List Node}
    {isDeclaration : Bool} {scope : Option ScopeId} (label : String) {s : ScopeId}
    (hc : outerNames name isDeclaration ≠ [] → c.withs = 0)
    (houter : ScopeTable.Declared c.scope (outerNames name isDeclaration) t t₁) (hs : s = ⟨t₁.scopes.size⟩)
    (hparams : (t₁.enter c label).parameters s params = (params', t₂))
    (hinner : ScopeTable.Declared s (innerNames name body isDeclaration) t₂ t₃)
    (hname : FunctionName c.scope t t₁ isDeclaration name name')
    (h : Analyzes (c.inFunction s) t₃ body t₄ body') (hhints : t₄.Hints t₅) :
    Analyzes c t [.function i name params body isDeclaration scope] t₅
      [.function i' name' params'.toList body' isDeclaration (some s)]
  /-- A `with` statement. -/
  | withObject {c : Place} {t t₁ t₂ : ScopeTable} (i i' : Info) {object object' body body' : Node}
    (ho : Analyzes c t [object] t₁ [object'])
    (hb : Analyzes c.inWith (t₁.markDynamic c.scope) [body] t₂ [body']) :
    Analyzes c t [.withObject i object body] t₂ [.withObject i' object' body']
  /-- A handler that binds what it catches. -/
  | tryCatch {c : Place} {t t₁ t₂ : ScopeTable} (i i' : Info) {block block' handler handler' : Node}
    {x : Identifier} (hc : c.withs = 0) (hb : Analyzes c t [block] t₁ [block'])
    (hh : Analyzes c (t₁.openBinding c.scope x.name).2 [handler] t₂ [handler']) :
    Analyzes c t [.tryCatch i block (some x) handler]
      (t₂.closeBinding c.scope x.name (t₁.openBinding c.scope x.name).1.2)
      [.tryCatch i' block' (some { x with var := some (t₁.openBinding c.scope x.name).1.1 }) handler']

namespace Analyzes

variable {c : Place} {t t' : ScopeTable} {ns ns' : List Node}

/-- As many nodes come out as went in. -/
theorem length_eq (h : Analyzes c t ns t' ns') : ns'.length = ns.length := by
  induction h <;> simp_all

end Analyzes

/-! ## Walks obey the rules -/

namespace Analyzer

/-- Where an analyzer is. -/
def place (a : Analyzer) : Place := ⟨a.scope, a.withDepth, a.loweredDepth⟩

/-- A walk of nodes in a `with` body or outside of one, where the analyzer is, has obeyed the rules if it has not
failed, and the analyzer is where it was. -/
def Passes (inWith : Bool) (a a' : Analyzer) (ns ns' : List Node) : Prop :=
  a'.failed = false → a.failed = false ∧ (inWith = decide (0 < a.place.depth) →
    a'.place = a.place ∧ Analyzes a.place a.table ns a'.table ns')

/-- Something was noted. -/
def Notes (a a' : Analyzer) : Prop :=
  a'.failed = a.failed ∧ a'.place = a.place ∧ a.table.Hints a'.table

/-- Nothing was noted. -/
theorem Notes.refl (a : Analyzer) : a.Notes a := ⟨rfl, rfl, .refl _⟩

/-- One note after the other. -/
theorem Notes.trans {a a₁ a' : Analyzer} (h : a.Notes a₁) (h' : a₁.Notes a') : a.Notes a' :=
  ⟨h'.1.trans h.1, h'.2.1.trans h.2.1, h.2.2.trans h'.2.2⟩

/-- A use is noted. -/
theorem notes_used (a : Analyzer) (n : Node) (u : Usage) : a.Notes (a.used n u) := by
  rw [used]
  split
  · exact ⟨rfl, rfl, .addUsage ..⟩
  · exact .refl a

/-- An assignment is noted. -/
theorem notes_assigned (a : Analyzer) (x : Identifier) (type : ValueType) :
    a.Notes (a.assigned x type) := by
  rw [assigned]
  split
  · exact ⟨rfl, rfl, .addAssigned ..⟩
  · exact .refl a

/-- What is noted of a call. -/
theorem notes_noteCall (a : Analyzer) (target : Node) (args : List Node) :
    a.Notes (a.noteCall target args) := by
  rw [noteCall]
  split
  · exact .refl a
  · exact a.notes_used target _

/-- What is noted of the operands of a binary operation. -/
theorem notes_noteOperands (a : Analyzer) (op : BinaryOp) (lhs rhs : Node) :
    a.Notes (a.noteOperands op lhs rhs) := by
  rw [noteOperands]
  split
  · exact (a.notes_used lhs _).trans (notes_used _ rhs _)
  · exact .refl a

/-- What is noted of the operand of a unary operation. -/
theorem notes_noteOperand (a : Analyzer) (op : UnaryOp) (operand : Node) :
    a.Notes (a.noteOperand op operand) := by
  rw [noteOperand]
  split
  · exact a.notes_used operand _
  · exact .refl a

/-- What is noted of a value that a name gets. -/
theorem notes_noteValue (a : Analyzer) (x? : Option Identifier) (value? : Option Node) :
    a.Notes (a.noteValue x? value?) := by
  rw [noteValue.eq_def]
  split
  · exact a.notes_assigned _ _
  · exact .refl a

namespace Passes

variable {inWith : Bool} {a a₁ a₂ a' : Analyzer} {n n' n₁ : Node} {ns ns' ps : List Node}

/-- A walk that has failed. -/
theorem of_failed (h : a'.failed = true) : Passes inWith a a' ns ns' := by
  intro h'
  rw [h] at h'
  cases h'

/-- A failed analyzer walks nothing; so the walk may be taken to go by the rules. -/
theorem of_rules (h : a.nodeIn inWith n = (a', n'))
    (hwalk : a.NodeWalk inWith n a' n' → Passes inWith a a' [n] [n']) : Passes inWith a a' [n] [n'] := by
  rcases hf : a.failed with _ | _
  · exact hwalk (nodeWalk_of_nodeIn hf h)
  · rw [nodeIn_of_failed hf] at h
    cases h
    exact .of_failed hf

/-- A step that leaves the analyzer where it is. -/
theorem of_step (hplace : a'.place = a.place) (hfailed : a'.failed = a.failed)
    (h : inWith = decide (0 < a.place.depth) → Analyzes a.place a.table ns a'.table ns') :
    Passes inWith a a' ns ns' :=
  fun hok => ⟨hfailed.symm.trans hok, fun hwith => ⟨hplace, h hwith⟩⟩

/-- No node. -/
theorem nil (a : Analyzer) : Passes inWith a a [] [] := .of_step rfl rfl fun _ => .nil ..

/-- One node after the other. -/
theorem cons (h : Passes inWith a a₁ [n] [n']) (hs : Passes inWith a₁ a' ns ns') :
    Passes inWith a a' (n :: ns) (n' :: ns') := by
  intro hok
  obtain ⟨hok₁, hrest⟩ := hs hok
  obtain ⟨hok₀, hone⟩ := h hok₁
  refine ⟨hok₀, fun hwith => ?_⟩
  obtain ⟨hplace₁, hone⟩ := hone hwith
  obtain ⟨hplace, hrest⟩ := hrest (hplace₁ ▸ hwith)
  exact ⟨hplace.trans hplace₁, .cons hone (hplace₁ ▸ hrest)⟩

/-- **A neutral node** is put together again once its parts have been walked. -/
theorem rebuild (h : Passes inWith a a₁ n.parts ps) (hn : n.isNeutral = true) (hnotes : a₁.Notes a')
    (i : Info) : Passes inWith a a' [n] [n.rebuild i ps] := by
  intro hok
  obtain ⟨hok₀, hparts⟩ := h (hnotes.1.symm.trans hok)
  refine ⟨hok₀, fun hwith => ?_⟩
  obtain ⟨hplace, hparts⟩ := hparts hwith
  exact ⟨hnotes.2.1.trans hplace, .neutral i hn hparts.length_eq hparts hnotes.2.2⟩

/-- It gets a type in the end. -/
theorem neutral (h : Passes inWith a a₁ n.parts ps) (hn : n.isNeutral = true) (hnotes : a₁.Notes a₂)
    (hrebuild : ∀ i, n₁.setInfo i = n.rebuild i ps) {type : ValueType}
    (hend : a₂.expression n₁ type = (a', n')) : Passes inWith a a' [n] [n'] := by
  intro hok
  obtain ⟨-, hend⟩ := proceeds hend hok
  cases hend
  rw [hrebuild]
  exact h.rebuild hn hnotes _ hok

/-- **An operation on numbers** becomes a number once its operands have been walked. -/
theorem folded (h : Passes inWith a a₁ n.parts ps)
    (hn : (∃ i op lhs rhs, n = .binary i op lhs rhs) ∨ ∃ i op x, n = .unary i op x)
    (hps : ∀ p ∈ ps, p.number?.isSome = true) (hnotes : a₁.Notes a') (i : Info) (l : Literal) :
    Passes inWith a a' [n] [.literal i l] := by
  intro hok
  obtain ⟨hok₀, hparts⟩ := h (hnotes.1.symm.trans hok)
  refine ⟨hok₀, fun hwith => ?_⟩
  obtain ⟨hplace, hparts⟩ := hparts hwith
  exact ⟨hnotes.2.1.trans hplace, .folded i l hn hparts hps hnotes.2.2⟩

end Passes

/-- A name in a node of its own, which is no use of a name in a `with` body. -/
theorem passes_identifier {inWith : Bool} (a : Analyzer) (i : Info) (x : Identifier)
    (hplain : inWith = true → x.isDefinition = true) :
    Passes inWith a (a.identifier i x).1 [.identifier i x] [(a.identifier i x).2] := by
  rw [identifier]
  obtain hfail | ⟨hzero, hsame⟩ := a.checkBindable_eq x.name i.span
  · refine .of_failed ?_
    simp only [hfail, if_true]
  · rw [hsame]
    by_cases hfailed : a.failed = true
    · refine .of_failed ?_
      simp only [hfailed, if_true]
    · obtain ⟨name, isDefinition, var⟩ := x
      cases isDefinition with
      | true =>
        simp only [hfailed, Bool.false_eq_true, if_false, if_true, withTable_eq]
        exact .of_step rfl rfl fun _ => .definition _ _ _ rfl hzero
      | false =>
        simp only [hfailed, Bool.false_eq_true, if_false, withTable_eq]
        refine .of_step rfl rfl fun hwith => .reference _ _ _ rfl hzero ?_
        -- It is no `with` body that the name is used in.
        refine Nat.eq_zero_of_not_pos fun hpos => ?_
        cases hplain (hwith.trans (decide_eq_true hpos))

/-- A name is bound in the current scope, if it may be. -/
theorem define_spec {a a' : Analyzer} {x x' : Identifier} {span : Span}
    (h : a.define x span = (a', x')) (hfailed : a'.failed = false) :
    a.failed = false ∧ a.withDepth = 0 ∧ a' = { a with table := (a.table.declare a.scope x.name).2 } ∧
      x' = { x with var := some (a.table.declare a.scope x.name).1 } := by
  rw [define] at h
  obtain hfail | ⟨hzero, hsame⟩ := a.checkBindable_eq x.name span
  · simp only [hfail, if_true] at h
    cases h
    rw [hfail] at hfailed
    cases hfailed
  · rw [hsame] at h
    by_cases hf : a.failed = true
    · simp only [hf, if_true] at h
      cases h
      rw [hf] at hfailed
      cases hfailed
    · simp only [hf, Bool.false_eq_true, if_false, withTable_eq] at h
      cases h
      exact ⟨by simpa using hf, hzero, rfl, rfl⟩

/-- The names of a body are declared. -/
theorem hoist_declared (a : Analyzer) (body : List Node) :
    ScopeTable.Declared a.scope (hoistedNames body).toList a.table (a.hoist body).table := by
  show ScopeTable.Declared _ _ _ ((hoistedNames body).foldl _ a.table)
  rw [← Array.foldl_toList]
  exact .foldl ..

/-- The name of a function expression is declared. If it is bound already, nothing changes. -/
theorem ownName_declared {a a' : Analyzer} {x x' : Identifier} (h : a.ownName x = (a', x')) :
    ScopeTable.Declared a.scope [x.name] a.table a'.table ∧ a'.place = a.place ∧
      a'.failed = a.failed ∧ x'.name = x.name := by
  rw [ownName] at h
  split at h
  · next v hown =>
    cases h
    refine ⟨.cons ?_, rfl, rfl, rfl⟩
    rw [ScopeTable.declare, hown]
    exact .nil _
  · cases h
    exact ⟨.cons (.note (.addAssigned ..) (.nil _)), rfl, rfl, rfl⟩

/-- The name of a function is declared, if it is bound inside. -/
theorem nameWithin_declared {a a' : Analyzer} {isDeclaration : Bool} {name name' : Option Identifier}
    (h : a.nameWithin isDeclaration name = (a', name')) :
    ScopeTable.Declared a.scope (if isDeclaration then [] else (name.map Identifier.name).toList)
      a.table a'.table ∧ a'.place = a.place ∧ a'.failed = a.failed ∧
      name'.map Identifier.name = name.map Identifier.name := by
  cases isDeclaration with
  | true =>
    cases h
    exact ⟨.nil _, rfl, rfl, rfl⟩
  | false =>
    cases name with
    | none =>
      cases h
      exact ⟨.nil _, rfl, rfl, rfl⟩
    | some x =>
      rcases ho : a.ownName x with ⟨a₁, x'⟩
      simp only [nameWithin, ho] at h
      cases h
      obtain ⟨hdeclared, hplace, hfailed, hname⟩ := ownName_declared ho
      exact ⟨hdeclared, hplace, hfailed, congrArg some hname⟩

/-- The name of a declaration stays as it was declared. -/
theorem nameWithin_functionName {a a' : Analyzer} {isDeclaration : Bool} {outer name name' : Option Identifier}
    {s : ScopeId} {t t₁ : ScopeTable} (h : a.nameWithin isDeclaration name = (a', name'))
    (hname : FunctionName s t t₁ isDeclaration outer name) : FunctionName s t t₁ isDeclaration outer name' := by
  cases isDeclaration with
  | true =>
    cases h
    exact hname
  | false => exact .ofExpression ((nameWithin_declared h).2.2.2.trans hname.same)

/-- A function is entered and its parameters are declared. -/
theorem enter_parameters {a a' : Analyzer} {label : String} {params params' : List Identifier}
    (h : (a.enter label).1.parameters params = (a', params')) :
    a'.failed = a.failed ∧ a'.place = a.place.inFunction ⟨a.table.scopes.size⟩ ∧
      (a.table.enter a.place label).parameters ⟨a.table.scopes.size⟩ params =
        (params'.toArray, a'.table) := by
  cases h
  exact ⟨rfl, rfl, rfl⟩

/-- The name of a function is bound around it, if it is that of a declaration. -/
theorem nameAround_declared {a a' : Analyzer} {isDeclaration : Bool} {name name' : Option Identifier}
    {span : Span} (h : a.nameAround isDeclaration name span = (a', name')) (hok : a'.failed = false) :
    a.failed = false ∧ a'.place = a.place ∧ (outerNames name isDeclaration ≠ [] → a.withDepth = 0) ∧
      ScopeTable.Declared a.scope (outerNames name isDeclaration) a.table a'.table ∧
      FunctionName a.scope a.table a'.table isDeclaration name name' := by
  rw [nameAround.eq_def] at h
  split at h
  · next x =>
    rcases hd : a.define x span with ⟨a₁, x'⟩
    have hnotes : a₁.Notes (if a₁.failed then a₁ else a₁.assigned x' .function) := by
      split
      · exact .refl a₁
      · exact a₁.notes_assigned x' _
    simp only [hd] at h
    cases h
    obtain ⟨hfailed, hzero, rfl, rfl⟩ := define_spec hd (hnotes.1.symm.trans hok)
    refine ⟨hfailed, hnotes.2.1, fun _ => hzero, .cons (.note hnotes.2.2 (.nil _)), rfl, fun _ y hy => ?_⟩
    cases hy
    exact ⟨rfl, hnotes.2.2⟩
  · next hother =>
    cases h
    have hnone : outerNames name isDeclaration = [] := by
      cases isDeclaration with
      | false => rfl
      | true =>
        cases name with
        | none => rfl
        | some x => exact absurd rfl (hother x rfl)
    refine ⟨hok, rfl, fun hne => absurd hnone hne, hnone ▸ .nil _, rfl, fun hdeclaration x hx => ?_⟩
    exact absurd hx (hother x hdeclaration)

/-- **A function is walked**: its name around it, and then its inside. -/
theorem passes_function {inWith : Bool} {a a₁ a' : Analyzer} {i : Info} {name name₁ : Option Identifier}
    {params : List Identifier} {body : List Node} {isDeclaration : Bool} {scope : Option ScopeId} {n' : Node}
    (hn : a.nameAround isDeclaration name i.span = (a₁, name₁))
    (h : a₁.functionWithin inWith i name₁ params body isDeclaration = (a', n'))
    (hbody : ∀ {b b' : Analyzer} {body' : List Node}, b.nodesIn inWith body = (b', body') →
      Passes inWith b b' body body') :
    Passes inWith a a' [.function i name params body isDeclaration scope] [n'] := by
  rcases hp : (a₁.enter (functionName name₁)).1.parameters params with ⟨a₂, params'⟩
  rcases hw : (a₂.hoist body).nameWithin isDeclaration name₁ with ⟨a₃, name'⟩
  rcases hb : a₃.nodesIn inWith body with ⟨a₄, body'⟩
  rw [functionWithin_eq hp hw hb] at h
  intro hok
  obtain ⟨hok₄, h⟩ := proceeds h hok
  cases h
  obtain ⟨hok₃, hwalk⟩ := hbody hb hok₄
  obtain ⟨hwithin, hplace₃, hfailed₂, -⟩ := nameWithin_declared hw
  obtain ⟨hfailed₁, hplace₂, htable⟩ := enter_parameters hp
  have hok₁ : a₁.failed = false := hfailed₁.symm.trans (hfailed₂.symm.trans hok₃)
  obtain ⟨hok₀, hplace, hbind, hdeclared, hname⟩ := nameAround_declared hn hok₁
  refine ⟨hok₀, fun hwith => ?_⟩
  have hscope : a₂.scope = ⟨a₁.table.scopes.size⟩ := congrArg Place.scope hplace₂
  have hinner : ScopeTable.Declared ⟨a₁.table.scopes.size⟩ (innerNames name body isDeclaration) a₂.table
      a₃.table := by
    rw [innerNames, ← hname.same, ← hscope]
    exact (hoist_declared a₂ body).append hwithin
  have hplace' : a₃.place = a.place.inFunction ⟨a₁.table.scopes.size⟩ := by
    rw [← hplace, ← hplace₂]
    exact hplace₃
  obtain ⟨hplace₄, hwalk⟩ := hwalk (hplace' ▸ hwith)
  have hdepth : a₄.loweredDepth = a₁.loweredDepth := by
    rw [show a₄.loweredDepth = a₄.place.depth from rfl, hplace₄, hplace', ← hplace]
    rfl
  refine ⟨?_, ?_⟩
  · rw [← hplace, place, place, hdepth]
  · exact .function i _ (functionName name₁) hbind hdeclared rfl (hplace ▸ htable) hinner
      (nameWithin_functionName hw hname) (hplace' ▸ hwalk) (.refl _)

/-- **The body of a `with` statement** is walked between two marks. -/
theorem passes_withObject {inWith : Bool} {a a₁ a₂ a' : Analyzer} {i : Info} {object object' body body' n' : Node}
    (hobject : Passes inWith a a₁ [object] [object']) (hbody : Passes true a₁.enterWith a₂ [body] [body'])
    (hend : a₂.leaveWith.expression (.withObject i object' body') .any = (a', n')) :
    Passes inWith a a' [.withObject i object body] [n'] := by
  intro hok
  obtain ⟨hok₂, hend⟩ := proceeds hend hok
  cases hend
  obtain ⟨hok₁, hbody⟩ := hbody hok₂
  obtain ⟨hok₀, hobject⟩ := hobject hok₁
  refine ⟨hok₀, fun hwith => ?_⟩
  obtain ⟨hplace, ho⟩ := hobject hwith
  obtain ⟨hplace₂, hwalk⟩ := hbody (decide_eq_true (Nat.succ_pos _)).symm
  have hscope : a₂.scope = a₁.scope := congrArg Place.scope hplace₂
  have hwiths : a₂.withDepth = a₁.withDepth + 1 := congrArg Place.withs hplace₂
  have hdepth : a₂.loweredDepth = a₁.loweredDepth + 1 := congrArg Place.depth hplace₂
  refine ⟨?_, ?_⟩
  · rw [← hplace, place, place]
    simp [leaveWith, hscope, hwiths, hdepth]
  · refine .withObject i _ ho ?_
    rw [← hplace]
    exact hwalk

/-- **A handler** is walked while its binding is open. -/
theorem passes_handler {inWith : Bool} {a a₁ a₂ a' : Analyzer} {i : Info}
    {block block' handler handler' n' : Node} {x : Identifier}
    (hblock : Passes inWith a a₁ [block] [block']) (hzero : a₁.withDepth = 0)
    (hhandler : Passes inWith (a₁.openHandler x) a₂ [handler] [handler'])
    (hend : (a₁.closeHandler a₂ x).expression (.tryCatch i block' (some (a₁.handlerName x)) handler') .any =
      (a', n')) :
    Passes inWith a a' [.tryCatch i block (some x) handler] [n'] := by
  intro hok
  obtain ⟨hok₂, hend⟩ := proceeds hend hok
  cases hend
  obtain ⟨hok₁, hhandler⟩ := hhandler hok₂
  obtain ⟨hok₀, hblock⟩ := hblock hok₁
  refine ⟨hok₀, fun hwith => ?_⟩
  obtain ⟨hplace, hb⟩ := hblock hwith
  obtain ⟨hplace₂, hwalk⟩ := hhandler (show inWith = decide (0 < a₁.place.depth) from hplace ▸ hwith)
  have hscope : a₁.scope = a.place.scope := congrArg Place.scope hplace
  have hwiths : a.place.withs = 0 := (congrArg Place.withs hplace).symm.trans hzero
  refine ⟨hplace₂.trans hplace, ?_⟩
  rw [closeHandler, handlerName, hscope]
  refine .tryCatch i _ hwiths hb ?_
  rw [← hscope, ← hplace]
  exact hwalk

/-- **A variable statement**: its name is bound before its value is walked. -/
theorem passes_var {inWith : Bool} {a a₁ a₂ a₃ a' : Analyzer} {i : Info} {x x' : Identifier}
    {init init' : Option Node} {n' : Node} (hd : a.define x i.span = (a₁, x'))
    (hinit : Passes inWith a₁ a₂ init.toList init'.toList) (hnotes : a₂.Notes a₃)
    (hend : a₃.expression (.var i x' init') .any = (a', n')) : Passes inWith a a' [.var i x init] [n'] := by
  intro hok
  obtain ⟨hok₃, hend⟩ := proceeds hend hok
  cases hend
  obtain ⟨hok₁, hinit⟩ := hinit (hnotes.1.symm.trans hok₃)
  obtain ⟨hok₀, hzero, rfl, rfl⟩ := define_spec hd hok₁
  refine ⟨hok₀, fun hwith => ?_⟩
  obtain ⟨hplace₁, hwalk⟩ := hinit hwith
  exact ⟨hnotes.2.1.trans hplace₁, .var i _ hzero hwalk hnotes.2.2⟩

/-- Properties are made of their names and their values. -/
theorem zipWith_values {ps ps' : List (String × Node)} (h : ps'.map Prod.fst = ps.map Prod.fst) :
    ps.zipWith (fun p value => (p.1, value)) (ps'.map Prod.snd) = ps' := by
  induction ps' generalizing ps with
  | nil => simp
  | cons p' ps' ih =>
    obtain ⟨p, ps, rfl⟩ : ∃ p rest, ps = p :: rest :=
      List.exists_cons_of_length_eq_add_one (n := ps'.length) (by simpa using (congrArg List.length h).symm)
    obtain ⟨hname, hrest⟩ := List.cons.inj h
    rw [List.map_cons, List.zipWith_cons_cons, ih hrest, ← hname]

mutual

/-- **A node is walked** by the rules. -/
theorem passes_node {inWith : Bool} : ∀ (n : Node) {a a' : Analyzer} {n' : Node}
    (_ : a.nodeIn inWith n = (a', n')), Passes inWith a a' [n] [n']
  | .literal .., a, a', n', h => .of_rules h fun hw => by
    cases hw
    exact .of_step rfl rfl fun _ => .neutral _ rfl rfl (.nil ..) (.refl _)
  | .dynamic .., a, a', n', h => .of_rules h fun hw => by
    cases hw
    exact .of_step rfl rfl fun _ => .neutral _ rfl rfl (.nil ..) (.refl _)
  | .this .., a, a', n', h => .of_rules h fun hw => by
    cases hw
    exact .of_step rfl rfl fun _ => .neutral _ rfl rfl (.nil ..) (.refl _)
  | .identifier i x, a, a', n', h => .of_rules h fun hw => by
    cases hw with
    | lowered _ hwith hx =>
      exact .of_step rfl rfl fun h => .lowered _ _ _ hx (of_decide_eq_true (h.symm.trans hwith))
    | identifier hplain h =>
      have hx := a.passes_identifier i x hplain
      rwa [h] at hx
  | .call i target args, a, a', n', h => .of_rules h fun hw => by
    cases hw with
    | call ht hr hend =>
      exact .neutral (n := .call i target args) ((passes_node target ht).cons (passes_nodes args hr)) rfl
        (notes_noteCall ..) (fun _ => rfl) hend
  | .member i target name, a, a', n', h => .of_rules h fun hw => by
    cases hw with
    | member ht hend =>
      exact .neutral (n := .member i target name) (passes_node target ht) rfl (.refl _) (fun _ => rfl) hend
  | .binary i op lhs rhs, a, a', n', h => .of_rules h fun hw => by
    cases hw with
    | binary hl hr =>
      exact .rebuild (n := .binary i op lhs rhs) ((passes_node lhs hl).cons (passes_node rhs hr)) rfl
        (notes_noteOperands ..) _
    | binaryFolded hl hr _ hfold =>
      obtain ⟨x, y, hx, hy, -⟩ := foldBinary?_eq_some hfold
      exact .folded ((passes_node lhs hl).cons (passes_node rhs hr)) (.inl ⟨i, op, lhs, rhs, rfl⟩)
        (by simp [hx, hy]) (notes_noteOperands ..) _ _
    | binaryFailed _ _ hf => exact .of_failed hf
  | .unary i op operand, a, a', n', h => .of_rules h fun hw => by
    cases hw with
    | unary ho =>
      exact .rebuild (n := .unary i op operand) (passes_node operand ho) rfl (notes_noteOperand ..) _
    | unaryFolded ho _ hfold =>
      obtain ⟨x, hx, -⟩ := Option.bind_eq_some_iff.mp hfold
      exact .folded (passes_node operand ho) (.inr ⟨i, op, operand, rfl⟩) (by simp [hx])
        (notes_noteOperand ..) _ _
    | unaryFailed _ hf => exact .of_failed hf
  | .assign i target value, a, a', n', h => .of_rules h fun hw => by
    cases hw with
    | assign _ ht hv hend =>
      exact .neutral (n := .assign i target value) ((passes_node target ht).cons (passes_node value hv)) rfl
        (notes_noteValue ..) (fun _ => rfl) hend
    | assignFailed => exact .of_failed rfl
  | .object i ps, a, a', n', h => .of_rules h fun hw => by
    cases hw with
    | object hp hend =>
      obtain ⟨hnames, hps⟩ := passes_properties ps hp
      refine .neutral (n := .object i ps) hps rfl (.refl _) (fun _ => ?_) hend
      rw [Node.rebuild, zipWith_values hnames, Node.setInfo]
  | .delete i target, a, a', n', h => .of_rules h fun hw => by
    cases hw with
    | delete ht hend =>
      exact .neutral (n := .delete i target) (passes_node target ht) rfl (.refl _) (fun _ => rfl) hend
  | .function i name params body isDeclaration scope, a, a', n', h => .of_rules h fun hw => by
    cases hw with
    | function hn _ hwithin => exact passes_function hn hwithin fun hb => passes_nodes body hb
    | functionFailed _ hf => exact .of_failed hf
  | .var i binding init, a, a', n', h => .of_rules h fun hw => by
    cases hw with
    | var hb hi hend => exact passes_var hb (passes_node? init hi) (notes_noteValue ..) hend
  | .ret i value, a, a', n', h => .of_rules h fun hw => by
    cases hw with
    | ret hv hend =>
      exact .neutral (n := .ret i value) (passes_node? value hv) rfl (.refl _)
        (fun _ => by rw [Node.rebuild, Node.setInfo, Option.head?_toList]) hend
  | .cond i condition thenBranch elseBranch, a, a', n', h => .of_rules h fun hw => by
    cases hw with
    | cond hc ht he hend =>
      have hbranches := (passes_node thenBranch ht).cons (passes_node? elseBranch he)
      exact .neutral (n := .cond i condition thenBranch elseBranch) ((passes_node condition hc).cons hbranches)
        rfl (.refl _) (fun _ => by rw [Node.rebuild, Node.setInfo, Option.head?_toList]) hend
  | .loop i condition body, a, a', n', h => .of_rules h fun hw => by
    cases hw with
    | loop hc hb hend =>
      exact .neutral (n := .loop i condition body) ((passes_node condition hc).cons (passes_node body hb)) rfl
        (.refl _) (fun _ => rfl) hend
  | .block i statements, a, a', n', h => .of_rules h fun hw => by
    cases hw with
    | block hs hend =>
      exact .neutral (n := .block i statements) (passes_nodes statements hs) rfl (.refl _) (fun _ => rfl) hend
  | .withObject i object body, a, a', n', h => .of_rules h fun hw => by
    cases hw with
    | withObject ho _ hb hend => exact passes_withObject (passes_node object ho) (passes_node body hb) hend
    | withObjectFailed _ hf => exact .of_failed hf
  | .throw i value, a, a', n', h => .of_rules h fun hw => by
    cases hw with
    | throw hv hend =>
      exact .neutral (n := .throw i value) (passes_node value hv) rfl (.refl _) (fun _ => rfl) hend
  | .tryCatch i block none handler, a, a', n', h => .of_rules h fun hw => by
    cases hw with
    | tryCatch hb hh hend =>
      exact .neutral (n := .tryCatch i block none handler) ((passes_node block hb).cons (passes_node handler hh))
        rfl (.refl _) (fun _ => rfl) hend
  | .tryCatch i block (some x) handler, a, a', n', h => .of_rules h fun hw => by
    cases hw with
    | handler hb _ hzero hh hend =>
      exact passes_handler (passes_node block hb) hzero (passes_node handler hh) hend
    | handlerFailed _ _ hf => exact .of_failed hf
termination_by structural n => n

/-- **Nodes are walked in order** by the rules. -/
theorem passes_nodes {inWith : Bool} : ∀ (ns : List Node) {a a' : Analyzer} {ns' : List Node}
    (_ : a.nodesIn inWith ns = (a', ns')), Passes inWith a a' ns ns'
  | [], a, a', ns', h => by
    rw [nodesIn_nil] at h
    cases h
    exact .nil a
  | n :: rest, a, a', ns', h => by
    rw [nodesIn_cons] at h
    cases h
    exact (passes_node n rfl).cons (passes_nodes rest rfl)
termination_by structural ns => ns

/-- **A node that may be missing is walked** by the rules. -/
theorem passes_node? {inWith : Bool} : ∀ (n : Option Node) {a a' : Analyzer} {n' : Option Node}
    (_ : a.nodeIn? inWith n = (a', n')), Passes inWith a a' n.toList n'.toList
  | none, a, a', n', h => by
    rw [nodeIn?_none] at h
    cases h
    exact .nil a
  | some n, a, a', n', h => by
    rw [nodeIn?_some] at h
    cases h
    exact passes_node n rfl
termination_by structural n => n

/-- **Properties are walked in order** by the rules. -/
theorem passes_properties {inWith : Bool} : ∀ (ps : List (String × Node)) {a a' : Analyzer}
    {ps' : List (String × Node)} (_ : a.propertiesIn inWith ps = (a', ps')),
    ps'.map Prod.fst = ps.map Prod.fst ∧ Passes inWith a a' (ps.map Prod.snd) (ps'.map Prod.snd)
  | [], a, a', ps', h => by
    rw [propertiesIn_nil] at h
    cases h
    exact ⟨rfl, .nil a⟩
  | (name, value) :: rest, a, a', ps', h => by
    rw [propertiesIn_cons] at h
    cases h
    obtain ⟨hnames, hrest⟩ := passes_properties rest (a := (a.nodeIn inWith value).1) rfl
    exact ⟨congrArg (name :: ·) hnames, (passes_node value rfl).cons hrest⟩
termination_by structural ps => ps

end

end Analyzer

end ScriptEngine
