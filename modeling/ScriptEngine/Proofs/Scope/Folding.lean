import ScriptEngine.Proofs.Scope.Again
import ScriptEngine.Proofs.Structured.Evaluation

/-!
# Folding is exact and complete

Analysis folds arithmetic on literal numbers in the course of a walk that does many other things. Here the
folding is written down alone, as a function on trees, with the operators of the machine: `Node.fold`. What
analysis makes of a tree is the same tree, apart from what it fills in; `Node.outline` forgets just that:
types, variables, scopes, and whether a name is looked up at run time.

* An operation becomes a literal number exactly if it is arithmetic and its operands have become literal
  numbers, and then the number is the one that the machine computes from these (`BinaryOp.computed?`,
  `UnaryOp.computed?`).
* So a tree becomes a literal number exactly if it is made of literal numbers and arithmetic only, and then
  the number is the value of the tree (`Node.fold_of_isArithmetic`, `Node.isArithmetic_of_fold`).

The main statement is `Analyzer.foldsConstants`.
-/

namespace ScriptEngine

/-! ## Folding with the machine's operators -/

/-- What the machine computes by an arithmetic operator, if both operands are literal numbers. -/
def BinaryOp.computed? (op : BinaryOp) (lhs rhs : Node) : Option Number :=
  match lhs.number?, rhs.number? with
  | some x, some y => if op.isArithmetic then ((Value.number x).binary op (.number y)).number? else none
  | _, _ => none

/-- What the machine computes by a sign, if the operand is a literal number. -/
def UnaryOp.computed? (op : UnaryOp) (operand : Node) : Option Number :=
  match op, operand.number? with
  | .neg, some x => (Value.number x).negate.number?
  | .plus, some x => (Value.number x).plus.number?
  | _, _ => none

/-- **Analysis folds as the machine computes**, two operands. -/
theorem foldBinary?_eq (op : BinaryOp) (lhs rhs : Node) : foldBinary? op lhs rhs = op.computed? lhs rhs := by
  rw [foldBinary?, BinaryOp.computed?]
  rcases lhs.number? with _ | x
  · rfl
  · rcases rhs.number? with _ | y
    · rfl
    · cases op <;> rfl

/-- **Analysis folds as the machine computes**, one operand. -/
theorem foldUnary?_eq (op : UnaryOp) (operand : Node) : foldUnary? op operand = op.computed? operand := by
  rw [foldUnary?, UnaryOp.computed?.eq_def]
  rcases operand.number? with _ | x
  · cases op <;> rfl
  · cases op <;> rfl

mutual

/-- The node with all arithmetic on literal numbers done, from the inside out. -/
@[simp] def Node.fold : Node → Node
  | .literal i l => .literal i l
  | .identifier i x => .identifier i x
  | .dynamic i name => .dynamic i name
  | .this i => .this i
  | .call i target args => .call i target.fold (foldAll args)
  | .member i target name => .member i target.fold name
  | .binary i op lhs rhs =>
    match op.computed? lhs.fold rhs.fold with
    | some z => .literal i (.number z)
    | none => .binary i op lhs.fold rhs.fold
  | .unary i op operand =>
    match op.computed? operand.fold with
    | some z => .literal i (.number z)
    | none => .unary i op operand.fold
  | .assign i target value => .assign i target.fold value.fold
  | .function i name params body isDeclaration scope =>
    .function i name params (foldAll body) isDeclaration scope
  | .object i ps => .object i (foldProperties ps)
  | .delete i target => .delete i target.fold
  | .var i binding init => .var i binding (fold? init)
  | .ret i value => .ret i (fold? value)
  | .cond i condition thenBranch elseBranch => .cond i condition.fold thenBranch.fold (fold? elseBranch)
  | .loop i condition body => .loop i condition.fold body.fold
  | .block i statements => .block i (foldAll statements)
  | .withObject i object body => .withObject i object.fold body.fold
  | .throw i value => .throw i value.fold
  | .tryCatch i block param handler => .tryCatch i block.fold param handler.fold

/-- The nodes with all arithmetic on literal numbers done. -/
@[simp] def foldAll : List Node → List Node
  | [] => []
  | n :: rest => n.fold :: foldAll rest

/-- The properties with all arithmetic on literal numbers done. -/
@[simp] def foldProperties : List (String × Node) → List (String × Node)
  | [] => []
  | (name, value) :: rest => (name, value.fold) :: foldProperties rest

/-- A node that may be missing, with all arithmetic on literal numbers done. -/
@[simp] def fold? : Option Node → Option Node
  | none => none
  | some n => some n.fold

end

/-! ## What analysis fills in -/

/-- What a node carries, without its type. -/
def Info.untyped (i : Info) : Info := { i with type := .any }

/-- A name without the variable that it stands for. -/
def Identifier.unresolved (x : Identifier) : Identifier := { x with var := none }

mutual

/-- The node without what analysis fills in. -/
@[simp] def Node.outline : Node → Node
  | .literal i l => .literal i.untyped l
  | .identifier i x =>
    if x.isDefinition then .identifier i.untyped x.unresolved else .dynamic i.untyped x.name
  | .dynamic i name => .dynamic i.untyped name
  | .this i => .this i.untyped
  | .call i target args => .call i.untyped target.outline (outlineAll args)
  | .member i target name => .member i.untyped target.outline name
  | .binary i op lhs rhs => .binary i.untyped op lhs.outline rhs.outline
  | .unary i op operand => .unary i.untyped op operand.outline
  | .assign i target value => .assign i.untyped target.outline value.outline
  | .function i name params body isDeclaration _ =>
    .function i.untyped (name.map Identifier.unresolved) (params.map Identifier.unresolved)
      (outlineAll body) isDeclaration none
  | .object i ps => .object i.untyped (outlineProperties ps)
  | .delete i target => .delete i.untyped target.outline
  | .var i binding init => .var i.untyped binding.unresolved (outline? init)
  | .ret i value => .ret i.untyped (outline? value)
  | .cond i condition thenBranch elseBranch =>
    .cond i.untyped condition.outline thenBranch.outline (outline? elseBranch)
  | .loop i condition body => .loop i.untyped condition.outline body.outline
  | .block i statements => .block i.untyped (outlineAll statements)
  | .withObject i object body => .withObject i.untyped object.outline body.outline
  | .throw i value => .throw i.untyped value.outline
  | .tryCatch i block param handler =>
    .tryCatch i.untyped block.outline (param.map Identifier.unresolved) handler.outline

/-- The nodes without what analysis fills in. -/
@[simp] def outlineAll : List Node → List Node
  | [] => []
  | n :: rest => n.outline :: outlineAll rest

/-- The properties without what analysis fills in. -/
@[simp] def outlineProperties : List (String × Node) → List (String × Node)
  | [] => []
  | (name, value) :: rest => (name, value.outline) :: outlineProperties rest

/-- A node that may be missing, without what analysis fills in. -/
@[simp] def outline? : Option Node → Option Node
  | none => none
  | some n => some n.outline

end

namespace Node

/-- The type of a node is filled in. -/
theorem outline_setInfo (n : Node) (type : ValueType) :
    (n.setInfo { n.info with type }).outline = n.outline := by
  cases n <;> rfl

/-- Literal numbers are as they were. -/
theorem number?_outline (n : Node) : n.outline.number? = n.number? := by
  cases n with
  | literal i l => cases l <;> rfl
  | identifier i x =>
    rw [outline]
    split <;> rfl
  | _ => rfl

/-- Nodes of one outline are the same numbers. -/
theorem number?_congr {n m : Node} (h : n.outline = m.outline) : n.number? = m.number? := by
  rw [← n.number?_outline, h, m.number?_outline]

end Node

/-! ## The parts of a walk -/

namespace Analyzer

/-- A walk of a node that does not fail has started well, and comes to folding, apart from what it fills in. -/
structure Folded (n : Node) : Prop where
  /-- Every walk of it does, in a `with` body or outside of one. -/
  walks : ∀ {inWith : Bool} {a a' : Analyzer} {n' : Node}, a.nodeIn inWith n = (a', n') →
    a'.failed = false → a.failed = false ∧ n'.outline = n.fold.outline

/-- So does a walk of nodes. -/
structure FoldedAll (ns : List Node) : Prop where
  /-- Every walk of them does. -/
  walks : ∀ {inWith : Bool} {a a' : Analyzer} {ns' : List Node}, a.nodesIn inWith ns = (a', ns') →
    a'.failed = false → a.failed = false ∧ outlineAll ns' = outlineAll (foldAll ns)

/-- So does a walk of properties. -/
structure FoldedProperties (ps : List (String × Node)) : Prop where
  /-- Every walk of them does. -/
  walks : ∀ {inWith : Bool} {a a' : Analyzer} {ps' : List (String × Node)},
    a.propertiesIn inWith ps = (a', ps') → a'.failed = false →
    a.failed = false ∧ outlineProperties ps' = outlineProperties (foldProperties ps)

/-- So does a walk of a node that may be missing. -/
structure Folded? (n : Option Node) : Prop where
  /-- Every walk of it does. -/
  walks : ∀ {inWith : Bool} {a a' : Analyzer} {n' : Option Node}, a.nodeIn? inWith n = (a', n') →
    a'.failed = false → a.failed = false ∧ outline? n' = outline? (fold? n)

section

variable {a a₁ a' : Analyzer} {n n' : Node}

/-- The walk may be taken to go by the rules. -/
theorem Folded.of_rules (hwalk : ∀ (inWith : Bool) (a a' : Analyzer) (n' : Node), a.NodeWalk inWith n a' n' →
    a'.failed = false → n'.outline = n.fold.outline) : Folded n := by
  refine ⟨fun {inWith a a' n'} h hok => ?_⟩
  have hf := starts_of_node h hok
  exact ⟨hf, hwalk inWith a a' n' (nodeWalk_of_nodeIn hf h) hok⟩

/-- A node is finished: its type is filled in. -/
theorem expression_outline {type : ValueType} (h : a.expression n type = (a', n')) (hok : a'.failed = false) :
    a.failed = false ∧ n'.outline = n.outline := by
  rw [expression] at h
  obtain ⟨hf, h⟩ := proceeds h hok
  cases h
  exact ⟨hf, n.outline_setInfo type⟩

/-- Nothing fails while hints are noted. -/
theorem Notes.failed_eq (h : a.Notes a₁) (hok : a₁.failed = false) : a.failed = false := h.1.symm.trans hok

/-- A name is bound: its variable is filled in. -/
theorem define_outline {x x' : Identifier} {span : Span} (h : a.define x span = (a', x'))
    (hok : a'.failed = false) : x'.unresolved = x.unresolved := by
  obtain ⟨-, -, -, rfl⟩ := define_spec h hok
  rfl

/-- A name is bound around a function, if it is. -/
theorem nameAround_outline {isDeclaration : Bool} {name name' : Option Identifier} {span : Span}
    (h : a.nameAround isDeclaration name span = (a', name')) (hok : a'.failed = false) :
    name'.map Identifier.unresolved = name.map Identifier.unresolved := by
  rw [nameAround.eq_def] at h
  split at h
  · next x =>
    rcases hd : a.define x span with ⟨a₁, x'⟩
    simp only [hd] at h
    cases h
    have hok₁ : a₁.failed = false := by
      split at hok
      · exact hok
      · exact (a₁.notes_assigned x' .function).failed_eq hok
    exact congrArg some (define_outline hd hok₁)
  · cases h
    rfl

/-- A name is bound inside a function, if it is. -/
theorem nameWithin_outline {isDeclaration : Bool} {name name' : Option Identifier}
    (h : a.nameWithin isDeclaration name = (a', name')) :
    name'.map Identifier.unresolved = name.map Identifier.unresolved := by
  rw [nameWithin.eq_def] at h
  split at h
  · next x =>
    rcases ho : a.ownName x with ⟨a₁, x'⟩
    simp only [ho] at h
    cases h
    rw [ownName] at ho
    split at ho
    · cases ho
      rfl
    · cases ho
      rfl
  · cases h
    rfl

/-- Parameters are bound: their variables are filled in. -/
theorem parameters_outline {params params' : List Identifier} (h : a.parameters params = (a', params')) :
    params'.map Identifier.unresolved = params.map Identifier.unresolved := by
  -- The parameters are piled up behind those already bound.
  have hfold : ∀ (ps : List Identifier) (acc : Array Identifier × ScopeTable),
      (ps.foldl (withParameter a.scope) acc).1.toList.map Identifier.unresolved =
        acc.1.toList.map Identifier.unresolved ++ ps.map Identifier.unresolved := by
    intro ps
    induction ps with
    | nil => simp
    | cons x rest ih =>
      intro acc
      rw [List.foldl_cons, ih]
      simp [withParameter, Identifier.unresolved]
  cases h
  exact hfold params (#[], a.table)

/-- The inside of a function is walked. -/
theorem functionWithin_outline {inWith : Bool} {i : Info} {name : Option Identifier} {params : List Identifier}
    {body : List Node} {isDeclaration : Bool}
    (h : a.functionWithin inWith i name params body isDeclaration = (a', n')) (hok : a'.failed = false)
    (hbody : FoldedAll body) :
    n'.outline = (Node.function i name params (foldAll body) isDeclaration none).outline := by
  rcases hp : (a.enter (functionName name)).1.parameters params with ⟨a₁, params'⟩
  rcases hw : (a₁.hoist body).nameWithin isDeclaration name with ⟨a₂, name'⟩
  rcases hb : a₂.nodesIn inWith body with ⟨a₃, body'⟩
  rw [functionWithin_eq hp hw hb] at h
  obtain ⟨hok₃, hn'⟩ := expression_outline h hok
  rw [hn', Node.outline, Node.outline, (hbody.walks hb hok₃).2, nameWithin_outline hw,
    parameters_outline hp]

/-! ## One node of each kind -/

variable {i : Info}

/-- A literal. -/
theorem Folded.literal (l : Literal) : Folded (.literal i l) := by
  refine .of_rules fun inWith a a' n' hw hok => ?_
  cases hw
  rfl

/-- A name looked up when the program runs. -/
theorem Folded.dynamic (name : String) : Folded (.dynamic i name) := by
  refine .of_rules fun inWith a a' n' hw hok => ?_
  cases hw
  rfl

/-- The receiver. -/
theorem Folded.this : Folded (.this i) := by
  refine .of_rules fun inWith a a' n' hw hok => ?_
  cases hw
  rfl

/-- A name: what it stands for is filled in, or that it is looked up at run time. -/
theorem Folded.identifier (x : Identifier) : Folded (.identifier i x) := by
  refine .of_rules fun inWith a a' n' hw hok => ?_
  cases hw with
  | lowered _ _ hx =>
    rw [Node.fold, Node.outline, Node.outline, hx]
    rfl
  | identifier _ h =>
    rw [Analyzer.identifier] at h
    simp only [withTable_eq] at h
    obtain ⟨-, h⟩ := proceeds h hok
    cases h
    rfl

/-- **A call.** -/
theorem Folded.call {target : Node} {args : List Node} (iht : Folded target) (ihr : FoldedAll args) :
    Folded (.call i target args) := by
  refine .of_rules fun inWith a a' n' hw hok => ?_
  cases hw with
  | call ht hr hend =>
    obtain ⟨hnoted, hn'⟩ := expression_outline hend hok
    obtain ⟨hok₁, hargs⟩ := ihr.walks hr ((notes_noteCall ..).failed_eq hnoted)
    rw [hn', Node.fold, Node.outline, Node.outline, (iht.walks ht hok₁).2, hargs]

/-- Reading a property. -/
theorem Folded.member {target : Node} (iht : Folded target) (name : String) :
    Folded (.member i target name) := by
  refine .of_rules fun inWith a a' n' hw hok => ?_
  cases hw with
  | member ht hend =>
    obtain ⟨hok₁, hn'⟩ := expression_outline hend hok
    rw [hn', Node.fold, Node.outline, Node.outline, (iht.walks ht hok₁).2]

/-- **What becomes of a binary operation**, once its operands have been walked. -/
theorem nodeIn_binary {inWith : Bool} {op : BinaryOp} {lhs rhs lhs' rhs' : Node} {a₂ : Analyzer}
    (h : a.nodeIn inWith (.binary i op lhs rhs) = (a', n')) (hok : a'.failed = false)
    (hl : a.nodeIn inWith lhs = (a₁, lhs')) (hr : a₁.nodeIn inWith rhs = (a₂, rhs')) :
    a₂.failed = false ∧ ∃ type, n' =
      match op.computed? lhs' rhs' with
      | some z => .literal { i with type } (.number z)
      | none => .binary { i with type } op lhs' rhs' := by
  rw [← foldBinary?_eq]
  cases nodeWalk_of_nodeIn (starts_of_node h hok) h with
  | binary hl' hr' hok₂ hfold | binaryFolded hl' hr' hok₂ hfold =>
    obtain ⟨rfl, rfl⟩ := Prod.mk.inj (hl.symm.trans hl')
    obtain ⟨rfl, rfl⟩ := Prod.mk.inj (hr.symm.trans hr')
    rw [hfold]
    exact ⟨hok₂, _, rfl⟩
  | binaryFailed _ _ hf =>
    rw [hf] at hok
    cases hok

/-- **What becomes of a unary operation**, once its operand has been walked. -/
theorem nodeIn_unary {inWith : Bool} {op : UnaryOp} {operand operand' : Node}
    (h : a.nodeIn inWith (.unary i op operand) = (a', n')) (hok : a'.failed = false)
    (ho : a.nodeIn inWith operand = (a₁, operand')) :
    a₁.failed = false ∧ ∃ type, n' =
      match op.computed? operand' with
      | some z => .literal { i with type } (.number z)
      | none => .unary { i with type } op operand' := by
  rw [← foldUnary?_eq]
  cases nodeWalk_of_nodeIn (starts_of_node h hok) h with
  | unary ho' hok₁ hfold | unaryFolded ho' hok₁ hfold =>
    obtain ⟨rfl, rfl⟩ := Prod.mk.inj (ho.symm.trans ho')
    rw [hfold]
    exact ⟨hok₁, _, rfl⟩
  | unaryFailed _ hf =>
    rw [hf] at hok
    cases hok

/-- **A binary operation** is folded, if its operands have come to numbers. -/
theorem Folded.binary {lhs rhs : Node} (ihl : Folded lhs) (ihr : Folded rhs) (op : BinaryOp) :
    Folded (.binary i op lhs rhs) := by
  refine ⟨fun {inWith a a' n'} h hok => ⟨starts_of_node h hok, ?_⟩⟩
  rcases hl : a.nodeIn inWith lhs with ⟨a₁, lhs'⟩
  rcases hr : a₁.nodeIn inWith rhs with ⟨a₂, rhs'⟩
  obtain ⟨hok₂, type, rfl⟩ := nodeIn_binary h hok hl hr
  obtain ⟨hok₁, hrhs⟩ := ihr.walks hr hok₂
  obtain ⟨-, hlhs⟩ := ihl.walks hl hok₁
  have hcomputed : op.computed? lhs' rhs' = op.computed? lhs.fold rhs.fold := by
    rw [BinaryOp.computed?, BinaryOp.computed?, Node.number?_congr hlhs, Node.number?_congr hrhs]
  rw [Node.fold, hcomputed]
  rcases op.computed? lhs.fold rhs.fold with _ | z
  · simp only [Node.outline, hlhs, hrhs, Info.untyped]
  · rfl

/-- **A unary operation** is folded, if its operand has come to a number. -/
theorem Folded.unary {operand : Node} (iho : Folded operand) (op : UnaryOp) :
    Folded (.unary i op operand) := by
  refine ⟨fun {inWith a a' n'} h hok => ⟨starts_of_node h hok, ?_⟩⟩
  rcases ho : a.nodeIn inWith operand with ⟨a₁, operand'⟩
  obtain ⟨hok₁, type, rfl⟩ := nodeIn_unary h hok ho
  obtain ⟨-, hoperand⟩ := iho.walks ho hok₁
  have hcomputed : op.computed? operand' = op.computed? operand.fold := by
    rw [UnaryOp.computed?.eq_def, UnaryOp.computed?.eq_def, Node.number?_congr hoperand]
  rw [Node.fold, hcomputed]
  rcases op.computed? operand.fold with _ | z
  · simp only [Node.outline, hoperand, Info.untyped]
  · rfl

/-- An assignment. -/
theorem Folded.assign {target value : Node} (iht : Folded target) (ihv : Folded value) :
    Folded (.assign i target value) := by
  refine .of_rules fun inWith a a' n' hw hok => ?_
  cases hw with
  | assign _ ht hv hend =>
    obtain ⟨hnoted, hn'⟩ := expression_outline hend hok
    obtain ⟨hok₁, hvalue⟩ := ihv.walks hv ((notes_noteValue ..).failed_eq hnoted)
    rw [hn', Node.fold, Node.outline, Node.outline, (iht.walks ht hok₁).2, hvalue]
  | assignFailed => cases hok

/-- An object literal. -/
theorem Folded.object {ps : List (String × Node)} (ihp : FoldedProperties ps) : Folded (.object i ps) := by
  refine .of_rules fun inWith a a' n' hw hok => ?_
  cases hw with
  | object hp hend =>
    obtain ⟨hok₁, hn'⟩ := expression_outline hend hok
    rw [hn', Node.fold, Node.outline, Node.outline, (ihp.walks hp hok₁).2]

/-- A deletion. -/
theorem Folded.delete {target : Node} (iht : Folded target) : Folded (.delete i target) := by
  refine .of_rules fun inWith a a' n' hw hok => ?_
  cases hw with
  | delete ht hend =>
    obtain ⟨hok₁, hn'⟩ := expression_outline hend hok
    rw [hn', Node.fold, Node.outline, Node.outline, (iht.walks ht hok₁).2]

/-- **A function.** -/
theorem Folded.function {body : List Node} (ihb : FoldedAll body) (name : Option Identifier)
    (params : List Identifier) (isDeclaration : Bool) (scope : Option ScopeId) :
    Folded (.function i name params body isDeclaration scope) := by
  refine .of_rules fun inWith a a' n' hw hok => ?_
  cases hw with
  | function hn hok₁ hwithin =>
    rw [functionWithin_outline hwithin hok ihb, Node.fold, Node.outline, Node.outline,
      nameAround_outline hn hok₁]
  | functionFailed _ hf =>
    rw [hf] at hok
    cases hok

/-- A variable statement. -/
theorem Folded.var {init : Option Node} (ihi : Folded? init) (binding : Identifier) :
    Folded (.var i binding init) := by
  refine .of_rules fun inWith a a' n' hw hok => ?_
  cases hw with
  | var hb hi hend =>
    obtain ⟨hnoted, hn'⟩ := expression_outline hend hok
    obtain ⟨hok₁, hinit⟩ := ihi.walks hi ((notes_noteValue ..).failed_eq hnoted)
    rw [hn', Node.fold, Node.outline, Node.outline, define_outline hb hok₁, hinit]

/-- Returning. -/
theorem Folded.ret {value : Option Node} (ihv : Folded? value) : Folded (.ret i value) := by
  refine .of_rules fun inWith a a' n' hw hok => ?_
  cases hw with
  | ret hv hend =>
    obtain ⟨hok₁, hn'⟩ := expression_outline hend hok
    rw [hn', Node.fold, Node.outline, Node.outline, (ihv.walks hv hok₁).2]

/-- A conditional. -/
theorem Folded.cond {condition thenBranch : Node} {elseBranch : Option Node} (ihc : Folded condition)
    (iht : Folded thenBranch) (ihe : Folded? elseBranch) :
    Folded (.cond i condition thenBranch elseBranch) := by
  refine .of_rules fun inWith a a' n' hw hok => ?_
  cases hw with
  | cond hc ht he hend =>
    obtain ⟨hok₃, hn'⟩ := expression_outline hend hok
    obtain ⟨hok₂, helse⟩ := ihe.walks he hok₃
    obtain ⟨hok₁, hthen⟩ := iht.walks ht hok₂
    rw [hn', Node.fold, Node.outline, Node.outline, (ihc.walks hc hok₁).2, hthen, helse]

/-- A loop. -/
theorem Folded.loop {condition body : Node} (ihc : Folded condition) (ihb : Folded body) :
    Folded (.loop i condition body) := by
  refine .of_rules fun inWith a a' n' hw hok => ?_
  cases hw with
  | loop hc hb hend =>
    obtain ⟨hok₂, hn'⟩ := expression_outline hend hok
    obtain ⟨hok₁, hbody⟩ := ihb.walks hb hok₂
    rw [hn', Node.fold, Node.outline, Node.outline, (ihc.walks hc hok₁).2, hbody]

/-- A block. -/
theorem Folded.block {statements : List Node} (ihs : FoldedAll statements) : Folded (.block i statements) := by
  refine .of_rules fun inWith a a' n' hw hok => ?_
  cases hw with
  | block hs hend =>
    obtain ⟨hok₁, hn'⟩ := expression_outline hend hok
    rw [hn', Node.fold, Node.outline, Node.outline, (ihs.walks hs hok₁).2]

/-- **A `with` statement**, whose body has been lowered. -/
theorem Folded.withObject {object body : Node} (iho : Folded object) (ihb : Folded body) :
    Folded (.withObject i object body) := by
  refine .of_rules fun inWith a a' n' hw hok => ?_
  cases hw with
  | withObject ho hok₁ hb hend =>
    obtain ⟨hok₂, hn'⟩ := expression_outline hend hok
    rw [hn', Node.fold, Node.outline, Node.outline, (ihb.walks hb hok₂).2, (iho.walks ho hok₁).2]
  | withObjectFailed _ hf =>
    rw [hf] at hok
    cases hok

/-- Throwing. -/
theorem Folded.throw {value : Node} (ihv : Folded value) : Folded (.throw i value) := by
  refine .of_rules fun inWith a a' n' hw hok => ?_
  cases hw with
  | throw hv hend =>
    obtain ⟨hok₁, hn'⟩ := expression_outline hend hok
    rw [hn', Node.fold, Node.outline, Node.outline, (ihv.walks hv hok₁).2]

/-- A handler without a name. -/
theorem Folded.tryCatch_none {block handler : Node} (ihb : Folded block) (ihh : Folded handler) :
    Folded (.tryCatch i block none handler) := by
  refine .of_rules fun inWith a a' n' hw hok => ?_
  cases hw with
  | tryCatch hb hh hend =>
    obtain ⟨hok₂, hn'⟩ := expression_outline hend hok
    obtain ⟨hok₁, hhandler⟩ := ihh.walks hh hok₂
    rw [hn', Node.fold, Node.outline, Node.outline, (ihb.walks hb hok₁).2, hhandler]

/-- **A handler with a name.** -/
theorem Folded.tryCatch_some {block handler : Node} (ihb : Folded block) (ihh : Folded handler)
    (x : Identifier) : Folded (.tryCatch i block (some x) handler) := by
  refine .of_rules fun inWith a a' n' hw hok => ?_
  cases hw with
  | handler hb hok₁ _ hh hend =>
    obtain ⟨hok₂, hn'⟩ := expression_outline hend hok
    rw [hn', Node.fold, Node.outline, Node.outline, (ihb.walks hb hok₁).2, (ihh.walks hh hok₂).2]
    rfl
  | handlerFailed _ _ hf =>
    rw [hf] at hok
    cases hok

/-- No nodes. -/
theorem FoldedAll.nil : FoldedAll [] := by
  refine ⟨fun {inWith a a' ns'} h hok => ?_⟩
  rw [nodesIn_nil] at h
  cases h
  exact ⟨hok, rfl⟩

/-- One node more. -/
theorem FoldedAll.cons {n : Node} {rest : List Node} (ihn : Folded n) (ihr : FoldedAll rest) :
    FoldedAll (n :: rest) := by
  refine ⟨fun {inWith a a' ns'} h hok => ?_⟩
  rcases hn : a.nodeIn inWith n with ⟨a₁, n'⟩
  rcases hr : a₁.nodesIn inWith rest with ⟨a₂, rest'⟩
  simp only [nodesIn_cons, hn, hr] at h
  cases h
  obtain ⟨hok₁, hrest⟩ := ihr.walks hr hok
  obtain ⟨hok₀, hnode⟩ := ihn.walks hn hok₁
  exact ⟨hok₀, by rw [foldAll, outlineAll, outlineAll, hnode, hrest]⟩

/-- A node that is missing. -/
theorem Folded?.none : Folded? none := by
  refine ⟨fun {inWith a a' n'} h hok => ?_⟩
  rw [nodeIn?_none] at h
  cases h
  exact ⟨hok, rfl⟩

/-- A node that is there. -/
theorem Folded?.some {n : Node} (ihn : Folded n) : Folded? (some n) := by
  refine ⟨fun {inWith a a' n'} h hok => ?_⟩
  rcases hn : a.nodeIn inWith n with ⟨a₁, n₁⟩
  simp only [nodeIn?_some, hn] at h
  cases h
  obtain ⟨hok₀, hnode⟩ := ihn.walks hn hok
  exact ⟨hok₀, congrArg Option.some hnode⟩

/-- No properties. -/
theorem FoldedProperties.nil : FoldedProperties [] := by
  refine ⟨fun {inWith a a' ps'} h hok => ?_⟩
  rw [propertiesIn_nil] at h
  cases h
  exact ⟨hok, rfl⟩

/-- One property more. -/
theorem FoldedProperties.cons {value : Node} {rest : List (String × Node)} (ihn : Folded value)
    (ihr : FoldedProperties rest) (name : String) : FoldedProperties ((name, value) :: rest) := by
  refine ⟨fun {inWith a a' ps'} h hok => ?_⟩
  rcases hn : a.nodeIn inWith value with ⟨a₁, value'⟩
  rcases hr : a₁.propertiesIn inWith rest with ⟨a₂, rest'⟩
  simp only [propertiesIn_cons, hn, hr] at h
  cases h
  obtain ⟨hok₁, hrest⟩ := ihr.walks hr hok
  obtain ⟨hok₀, hvalue⟩ := ihn.walks hn hok₁
  exact ⟨hok₀, by rw [foldProperties, outlineProperties, outlineProperties, hvalue, hrest]⟩

end

/-! ## Whole trees -/

mutual

/-- **A walk comes to folding**, apart from what it fills in. -/
theorem node_fold : ∀ n : Node, Folded n
  | .literal _ l => .literal l
  | .identifier _ x => .identifier x
  | .dynamic _ name => .dynamic name
  | .this _ => .this
  | .call _ target args => .call (node_fold target) (nodes_fold args)
  | .member _ target name => .member (node_fold target) name
  | .binary _ op lhs rhs => .binary (node_fold lhs) (node_fold rhs) op
  | .unary _ op operand => .unary (node_fold operand) op
  | .assign _ target value => .assign (node_fold target) (node_fold value)
  | .function _ name params body isDeclaration scope =>
    .function (nodes_fold body) name params isDeclaration scope
  | .object _ ps => .object (properties_fold ps)
  | .delete _ target => .delete (node_fold target)
  | .var _ binding init => .var (node?_fold init) binding
  | .ret _ value => .ret (node?_fold value)
  | .cond _ condition thenBranch elseBranch =>
    .cond (node_fold condition) (node_fold thenBranch) (node?_fold elseBranch)
  | .loop _ condition body => .loop (node_fold condition) (node_fold body)
  | .block _ statements => .block (nodes_fold statements)
  | .withObject _ object body => .withObject (node_fold object) (node_fold body)
  | .throw _ value => .throw (node_fold value)
  | .tryCatch _ block none handler => .tryCatch_none (node_fold block) (node_fold handler)
  | .tryCatch _ block (some x) handler => .tryCatch_some (node_fold block) (node_fold handler) x

/-- So does a walk of nodes. -/
theorem nodes_fold : ∀ ns : List Node, FoldedAll ns
  | [] => .nil
  | n :: rest => .cons (node_fold n) (nodes_fold rest)

/-- So does a walk of a node that may be missing. -/
theorem node?_fold : ∀ n : Option Node, Folded? n
  | none => .none
  | some n => .some (node_fold n)

/-- So does a walk of properties. -/
theorem properties_fold : ∀ ps : List (String × Node), FoldedProperties ps
  | [] => .nil
  | (name, value) :: rest => .cons (node_fold value) (properties_fold rest) name

end

end Analyzer

/-! ## Trees of arithmetic -/

/-- An arithmetic operator computes a number from literal numbers, and nothing else is computed. -/
theorem BinaryOp.computed?_eq_some {op : BinaryOp} {lhs rhs : Node} {z : Number} :
    op.computed? lhs rhs = some z ↔ op.isArithmetic = true ∧ ∃ x y, lhs.number? = some x ∧
      rhs.number? = some y ∧ (Value.number x).binary op (.number y) = .number z := by
  rw [computed?]
  rcases lhs.number? with _ | x
  · simp
  · rcases rhs.number? with _ | y
    · simp
    · cases op <;> simp [isArithmetic, Value.binary, Value.add, Value.concatenates, Value.number?]

/-- So it is with the signs. -/
theorem UnaryOp.computed?_eq_some {op : UnaryOp} {operand : Node} {z : Number} :
    op.computed? operand = some z ↔ ∃ x, operand.number? = some x ∧
      (op = .neg ∧ (Value.number x).negate = .number z ∨ op = .plus ∧ (Value.number x).plus = .number z) := by
  rw [computed?.eq_def]
  rcases operand.number? with _ | x
  · cases op <;> simp
  · cases op <;> simp [Value.negate, Value.plus, Value.number?]

/-- Whether a tree is made of literal numbers, arithmetic operators and signs only. -/
def Node.isArithmetic : Node → Bool
  | .literal _ (.number _) => true
  | .binary _ op lhs rhs => op.isArithmetic && lhs.isArithmetic && rhs.isArithmetic
  | .unary _ op operand => (op == .neg || op == .plus) && operand.isArithmetic
  | _ => false

/-- **A tree of arithmetic** is folded to its value. -/
theorem Node.fold_of_isArithmetic {n : Node} (h : n.isArithmetic = true) :
    ∃ x, n.fold.number? = some x ∧ ∀ heap σ, n.value? heap σ = some (.number x, σ) := by
  fun_induction isArithmetic n with
  | case1 i x => exact ⟨x, rfl, fun _ _ => rfl⟩
  | case2 i op lhs rhs ihl ihr =>
    simp only [Bool.and_eq_true] at h
    obtain ⟨⟨hop, hl⟩, hr⟩ := h
    obtain ⟨x, hx, hlhs⟩ := ihl hl
    obtain ⟨y, hy, hrhs⟩ := ihr hr
    obtain ⟨z, hz⟩ : ∃ z, (Value.number x).binary op (.number y) = .number z := by
      cases op <;> first | exact ⟨_, rfl⟩ | cases hop
    have hcomputed : op.computed? lhs.fold rhs.fold = some z :=
      BinaryOp.computed?_eq_some.mpr ⟨hop, x, y, hx, hy, hz⟩
    -- No arithmetic operator skips its right operand.
    have hboth : op.decidedBy (.number x) = false := by
      cases op <;> first | rfl | cases hop
    refine ⟨z, by rw [fold, hcomputed]; rfl, fun heap σ => ?_⟩
    simp [value?, hlhs, hrhs, hboth, hz]
  | case3 i op operand iho =>
    simp only [Bool.and_eq_true, Bool.or_eq_true, beq_iff_eq] at h
    obtain ⟨hop, ho⟩ := h
    obtain ⟨x, hx, hoperand⟩ := iho ho
    obtain ⟨z, hz, hunary⟩ : ∃ z, op.computed? operand.fold = some z ∧
        ∀ heap : Heap, heap.unary op (.number x) = .number z := by
      rcases hop with rfl | rfl
      · exact ⟨x.neg, UnaryOp.computed?_eq_some.mpr ⟨x, hx, .inl ⟨rfl, rfl⟩⟩, fun _ => rfl⟩
      · exact ⟨x, UnaryOp.computed?_eq_some.mpr ⟨x, hx, .inr ⟨rfl, rfl⟩⟩, fun _ => rfl⟩
    refine ⟨z, by rw [fold, hz]; rfl, fun heap σ => ?_⟩
    simp [value?, hoperand, hunary]
  | case4 => cases h

/-- **No other tree** is folded to a number. -/
theorem Node.isArithmetic_of_fold {n : Node} {z : Number} (h : n.fold.number? = some z) :
    n.isArithmetic = true := by
  fun_induction isArithmetic n generalizing z with
  | case1 => rfl
  | case2 i op lhs rhs ihl ihr =>
    rw [fold] at h
    split at h
    · next hcomputed =>
      obtain ⟨hop, x, y, hx, hy, -⟩ := BinaryOp.computed?_eq_some.mp hcomputed
      rw [hop, ihl hx, ihr hy]
      rfl
    · cases h
  | case3 i op operand iho =>
    rw [fold] at h
    split at h
    · next hcomputed =>
      obtain ⟨x, hx, hop⟩ := UnaryOp.computed?_eq_some.mp hcomputed
      rw [iho hx, Bool.and_true]
      rcases hop with ⟨rfl, -⟩ | ⟨rfl, -⟩
      · rfl
      · rfl
    · cases h
  | case4 n hliteral hbinary hunary =>
    -- Only operations change their kind.
    cases n with
    | literal i l =>
      cases l with
      | number x => exact absurd rfl (hliteral i x)
      | _ => cases h
    | binary i op lhs rhs => exact absurd rfl (hbinary i op lhs rhs)
    | unary i op operand => exact absurd rfl (hunary i op operand)
    | _ => cases h

/-- **Constants are folded exactly and completely** by an analyzer, in every tree that it walks without failing. -/
structure Analyzer.FoldsConstants (a : Analyzer) : Prop where
  /-- What comes out is the folded tree, apart from what analysis fills in. -/
  tree : ∀ n : Node, (a.node n).1.failed = false → (a.node n).2.outline = n.fold.outline
  /-- A binary operation becomes a number exactly if the operator is arithmetic and both operands have become
  numbers, and then it is what the machine computes from these; otherwise it stays what it is. -/
  binary : ∀ (i : Info) (op : BinaryOp) (lhs rhs : Node), (a.node (.binary i op lhs rhs)).1.failed = false →
    let lhs' := (a.node lhs).2
    let rhs' := ((a.node lhs).1.node rhs).2
    let n' := (a.node (.binary i op lhs rhs)).2
    (∀ z, n'.number? = some z ↔ op.isArithmetic = true ∧ ∃ x y, lhs'.number? = some x ∧
      rhs'.number? = some y ∧ (Value.number x).binary op (.number y) = .number z) ∧
    (n'.number? = none → ∃ type, n' = .binary { i with type } op lhs' rhs')
  /-- A unary operation becomes a number exactly if it is a sign and the operand has become a number, and
  then it is what the machine computes from this; otherwise it stays what it is. -/
  unary : ∀ (i : Info) (op : UnaryOp) (operand : Node), (a.node (.unary i op operand)).1.failed = false →
    let operand' := (a.node operand).2
    let n' := (a.node (.unary i op operand)).2
    (∀ z, n'.number? = some z ↔ ∃ x, operand'.number? = some x ∧
      (op = .neg ∧ (Value.number x).negate = .number z ∨
        op = .plus ∧ (Value.number x).plus = .number z)) ∧
    (n'.number? = none → ∃ type, n' = .unary { i with type } op operand')
  /-- A tree becomes a number exactly if it is one of arithmetic, and then the number is its value. -/
  arithmetic : ∀ n : Node, (a.node n).1.failed = false →
    ((a.node n).2.number?.isSome = true ↔ n.isArithmetic = true) ∧
    ∀ x, (a.node n).2.number? = some x → ∀ heap σ, n.value? heap σ = some (.number x, σ)

/-- **Constant folding is exact and complete.** -/
theorem Analyzer.foldsConstants (a : Analyzer) : a.FoldsConstants := by
  have htree : ∀ n : Node, (a.node n).1.failed = false → (a.node n).2.outline = n.fold.outline :=
    fun n hok => ((node_fold n).walks (a.nodeIn_false n) hok).2
  constructor
  case tree => exact htree
  case binary =>
    intro i op lhs rhs hok lhs' rhs' n'
    obtain ⟨-, type, hn'⟩ : _ ∧ ∃ type, n' = match op.computed? lhs' rhs' with
        | some z => .literal { i with type } (.number z)
        | none => .binary { i with type } op lhs' rhs' :=
      nodeIn_binary (a.nodeIn_false _) hok (a.nodeIn_false lhs) ((a.node lhs).1.nodeIn_false rhs)
    rw [hn']
    refine ⟨fun z => ?_, fun hnone => ?_⟩
    · rw [← BinaryOp.computed?_eq_some]
      rcases op.computed? lhs' rhs' with _ | z'
      · exact ⟨nofun, nofun⟩
      · exact Iff.rfl
    · revert hnone
      rcases op.computed? lhs' rhs' with _ | z'
      · exact fun _ => ⟨type, rfl⟩
      · exact nofun
  case unary =>
    intro i op operand hok operand' n'
    obtain ⟨-, type, hn'⟩ : _ ∧ ∃ type, n' = match op.computed? operand' with
        | some z => .literal { i with type } (.number z)
        | none => .unary { i with type } op operand' :=
      nodeIn_unary (a.nodeIn_false _) hok (a.nodeIn_false operand)
    rw [hn']
    refine ⟨fun z => ?_, fun hnone => ?_⟩
    · rw [← UnaryOp.computed?_eq_some]
      rcases op.computed? operand' with _ | z'
      · exact ⟨nofun, nofun⟩
      · exact Iff.rfl
    · revert hnone
      rcases op.computed? operand' with _ | z'
      · exact fun _ => ⟨type, rfl⟩
      · exact nofun
  case arithmetic =>
    intro n hok
    rw [Node.number?_congr (htree n hok)]
    refine ⟨⟨fun hsome => ?_, fun harithmetic => ?_⟩, fun x hx => ?_⟩
    · obtain ⟨x, hx⟩ := Option.isSome_iff_exists.mp hsome
      exact Node.isArithmetic_of_fold hx
    · obtain ⟨x, hx, -⟩ := Node.fold_of_isArithmetic harithmetic
      rw [hx]
      rfl
    · obtain ⟨y, hy, hvalue⟩ := Node.fold_of_isArithmetic (Node.isArithmetic_of_fold hx)
      rw [hx] at hy
      obtain rfl := Option.some.inj hy
      exact hvalue

/-- The tree of `-(7 % 4)` becomes the literal `-3`; the tree of `typeof` of it stays an operation. -/
theorem Analyzer.foldsConstants_remainder :
    let number (n : Nat) : Node := .literal .none (.number (.ofNat n))
    let tree : Node := .unary .none .neg (.binary .none .rem (number 7) (number 4))
    let a : Analyzer := {}
    (a.node tree).1.failed = false ∧ (a.node tree).2.number? = some (Number.ofNat 3).neg ∧
      (a.node (.unary .none .typeof tree)).2.number? = none := by
  intro number tree a
  have hfolds := Analyzer.foldsConstants a
  obtain ⟨hnumber, hvalue⟩ := hfolds.arithmetic tree (by decide +kernel)
  refine ⟨by decide +kernel, ?_, ?_⟩
  · obtain ⟨x, hx⟩ := Option.isSome_iff_exists.mp (hnumber.mpr rfl)
    have hrem : (Number.ofNat 7).rem (Number.ofNat 4) = Number.ofNat 3 := by decide +kernel
    have hx' : Value.number x = .number ((Number.ofNat 7).rem (Number.ofNat 4)).neg :=
      congrArg Prod.fst (Option.some.inj (hvalue x hx {} fun _ => .undefined)).symm
    rw [hx, Value.number.inj hx', hrem]
  · have htypeof := (hfolds.arithmetic (.unary .none .typeof tree) (by decide +kernel)).1
    exact Option.not_isSome_iff_eq_none.mp fun hsome => nomatch htypeof.mp hsome

end ScriptEngine
