import ScriptEngine.Proofs.Scope.Walk

/-!
# Analysis does not look at positions

A tree without positions is the tree with all spans made unknown. Analysis of it does what analysis of the
tree itself does: the table is the same at every point, the walk fails at the same point and for the same
cause, and the trees that come out differ in nothing but their positions.

Everything that a walk calls is shown to go along with forgetting positions, and the walk itself rule by
rule: what happens to a node happens to it without positions by the same rule (`Blind.of_rules`).
-/

namespace ScriptEngine

/-! ## Forgetting positions -/

/-- The same, written nowhere. -/
def Info.unplaced (i : Info) : Info := { i with span := Span.none }

mutual

/-- The node without positions. -/
def Node.unplaced : Node → Node
  | .literal i l => .literal i.unplaced l
  | .identifier i x => .identifier i.unplaced x
  | .dynamic i name => .dynamic i.unplaced name
  | .this i => .this i.unplaced
  | .call i target args => .call i.unplaced target.unplaced (unplacedAll args)
  | .member i target name => .member i.unplaced target.unplaced name
  | .binary i op lhs rhs => .binary i.unplaced op lhs.unplaced rhs.unplaced
  | .unary i op operand => .unary i.unplaced op operand.unplaced
  | .assign i target value => .assign i.unplaced target.unplaced value.unplaced
  | .function i name params body isDeclaration scope =>
    .function i.unplaced name params (unplacedAll body) isDeclaration scope
  | .object i ps => .object i.unplaced (unplacedProperties ps)
  | .delete i target => .delete i.unplaced target.unplaced
  | .var i binding init => .var i.unplaced binding (unplaced? init)
  | .ret i value => .ret i.unplaced (unplaced? value)
  | .cond i condition thenBranch elseBranch =>
    .cond i.unplaced condition.unplaced thenBranch.unplaced (unplaced? elseBranch)
  | .loop i condition body => .loop i.unplaced condition.unplaced body.unplaced
  | .block i statements => .block i.unplaced (unplacedAll statements)
  | .withObject i object body => .withObject i.unplaced object.unplaced body.unplaced
  | .throw i value => .throw i.unplaced value.unplaced
  | .tryCatch i block param handler => .tryCatch i.unplaced block.unplaced param handler.unplaced

/-- The nodes without positions. -/
def unplacedAll : List Node → List Node
  | [] => []
  | n :: rest => n.unplaced :: unplacedAll rest

/-- The properties without positions. -/
def unplacedProperties : List (String × Node) → List (String × Node)
  | [] => []
  | (name, value) :: rest => (name, value.unplaced) :: unplacedProperties rest

/-- A node that may be missing, without positions. -/
def unplaced? : Option Node → Option Node
  | none => none
  | some n => some n.unplaced

end

/-- The program without positions. -/
def Program.unplaced (p : Program) : Program := { p with body := unplacedAll p.body }

/-- The error without its position. -/
def CompileError.unplaced : CompileError → CompileError
  | unsupported construct _ => unsupported construct Span.none
  | invalidTarget _ => invalidTarget Span.none
  | expectedExpression found _ => expectedExpression found Span.none
  | limitExceeded resource _ => limitExceeded resource Span.none
  | unresolved name _ => unresolved name Span.none

/-- The analyzer without the position of what has failed. -/
def Analyzer.unplaced (a : Analyzer) : Analyzer := { a with failure := a.failure.map CompileError.unplaced }

/-! ## What is left of a node -/

namespace Node

/-- A node carries the same, but for the position. -/
theorem info_unplaced (n : Node) : n.unplaced.info = n.info.unplaced := by
  cases n <;> rfl

/-- The type of a node. -/
theorem type_unplaced (n : Node) : n.unplaced.type = n.type := by
  rw [type, n.info_unplaced]
  rfl

/-- The position is unknown. -/
theorem span_unplaced (n : Node) : n.unplaced.span = Span.none := by
  rw [span, n.info_unplaced]
  rfl

/-- What a node carries can be changed before or after. -/
theorem unplaced_setInfo (n : Node) (i : Info) : (n.setInfo i).unplaced = n.unplaced.setInfo i.unplaced := by
  cases n <;> rfl

/-- The name of a node that is one. -/
theorem identifier?_unplaced (n : Node) : n.unplaced.identifier? = n.identifier? := by
  cases n <;> rfl

/-- The number of a node that is one. -/
theorem number?_unplaced (n : Node) : n.unplaced.number? = n.number? := by
  cases n with
  | literal i l => cases l <;> rfl
  | _ => rfl

end Node

/-- The folding of two literals. -/
theorem foldBinary?_unplaced (op : BinaryOp) (lhs rhs : Node) :
    foldBinary? op lhs.unplaced rhs.unplaced = foldBinary? op lhs rhs := by
  rw [foldBinary?, foldBinary?, lhs.number?_unplaced, rhs.number?_unplaced]

/-- The folding of one literal. -/
theorem foldUnary?_unplaced (op : UnaryOp) (operand : Node) :
    foldUnary? op operand.unplaced = foldUnary? op operand := by
  rw [foldUnary?, foldUnary?, operand.number?_unplaced]

/-- The types of nodes. -/
theorem typesOf_unplacedAll (ns : List Node) : Analyzer.typesOf (unplacedAll ns) = Analyzer.typesOf ns := by
  induction ns with
  | nil => rfl
  | cons n rest ih =>
    rw [Analyzer.typesOf, Analyzer.typesOf] at ih ⊢
    rw [unplacedAll, List.map_cons, List.map_cons, n.type_unplaced, ih]

mutual

/-- Lowering does not look at positions. -/
theorem Node.lower_unplaced : ∀ n : Node, n.unplaced.lower = n.lower.unplaced
  | .identifier i x => by
    simp only [Node.unplaced, Node.lower]
    split
    · rfl
    · rfl
  | .call i target args => by
    simp only [Node.unplaced, Node.lower, Node.lower_unplaced target, lowerAll_unplacedAll args]
  | .member i target name => by simp only [Node.unplaced, Node.lower, Node.lower_unplaced target]
  | .binary i op lhs rhs => by
    simp only [Node.unplaced, Node.lower, Node.lower_unplaced lhs, Node.lower_unplaced rhs]
  | .unary i op operand => by simp only [Node.unplaced, Node.lower, Node.lower_unplaced operand]
  | .assign i target value => by
    simp only [Node.unplaced, Node.lower, Node.lower_unplaced target, Node.lower_unplaced value]
  | .function i name params body d s => by simp only [Node.unplaced, Node.lower, lowerAll_unplacedAll body]
  | .object i ps => by simp only [Node.unplaced, Node.lower, lowerProperties_unplacedProperties ps]
  | .delete i target => by simp only [Node.unplaced, Node.lower, Node.lower_unplaced target]
  | .var i binding init => by simp only [Node.unplaced, Node.lower, lower?_unplaced? init]
  | .ret i value => by simp only [Node.unplaced, Node.lower, lower?_unplaced? value]
  | .cond i c t e => by
    simp only [Node.unplaced, Node.lower, Node.lower_unplaced c, Node.lower_unplaced t, lower?_unplaced? e]
  | .loop i condition body => by
    simp only [Node.unplaced, Node.lower, Node.lower_unplaced condition, Node.lower_unplaced body]
  | .block i statements => by simp only [Node.unplaced, Node.lower, lowerAll_unplacedAll statements]
  | .withObject i object body => by
    simp only [Node.unplaced, Node.lower, Node.lower_unplaced object, Node.lower_unplaced body]
  | .throw i value => by simp only [Node.unplaced, Node.lower, Node.lower_unplaced value]
  | .tryCatch i block param handler => by
    simp only [Node.unplaced, Node.lower, Node.lower_unplaced block, Node.lower_unplaced handler]
  | .literal .. | .dynamic .. | .this .. => rfl

/-- Nor does lowering a list. -/
theorem lowerAll_unplacedAll : ∀ ns : List Node, lowerAll (unplacedAll ns) = unplacedAll (lowerAll ns)
  | [] => rfl
  | n :: rest => by simp only [unplacedAll, lowerAll, n.lower_unplaced, lowerAll_unplacedAll rest]

/-- Nor does lowering properties. -/
theorem lowerProperties_unplacedProperties : ∀ ps : List (String × Node),
    lowerProperties (unplacedProperties ps) = unplacedProperties (lowerProperties ps)
  | [] => rfl
  | (name, value) :: rest => by
    simp only [unplacedProperties, lowerProperties, value.lower_unplaced,
      lowerProperties_unplacedProperties rest]

/-- Nor does lowering a node that may be missing. -/
theorem lower?_unplaced? : ∀ n : Option Node, lower? (unplaced? n) = unplaced? (lower? n)
  | none => rfl
  | some n => by simp only [unplaced?, lower?, n.lower_unplaced]

end

/-- What a walk meets does not depend on positions. -/
theorem Node.lowerIf_unplaced (inWith : Bool) (n : Node) :
    n.unplaced.lowerIf inWith = (n.lowerIf inWith).unplaced := by
  cases inWith with
  | true => exact n.lower_unplaced
  | false => rfl

/-- Nor does it for a list. -/
theorem lowerAllIf_unplacedAll (inWith : Bool) (ns : List Node) :
    lowerAllIf inWith (unplacedAll ns) = unplacedAll (lowerAllIf inWith ns) := by
  cases inWith with
  | true => exact lowerAll_unplacedAll ns
  | false => rfl

mutual

/-- The names that a statement binds do not depend on positions. -/
theorem Node.hoistedNames_unplaced : ∀ (n : Node) (names : Array String),
    n.unplaced.hoistedNames names = n.hoistedNames names
  | .cond i c t e, names => by
    rw [Node.unplaced, Node.hoistedNames, Node.hoistedNames, t.hoistedNames_unplaced,
      hoistedNamesOf?_unplaced? e]
  | .loop i condition body, names => by
    rw [Node.unplaced, Node.hoistedNames, Node.hoistedNames, body.hoistedNames_unplaced]
  | .block i statements, names => by
    rw [Node.unplaced, Node.hoistedNames, Node.hoistedNames, hoistedNamesOf_unplacedAll statements]
  | .tryCatch i block param handler, names => by
    rw [Node.unplaced, Node.hoistedNames, Node.hoistedNames, block.hoistedNames_unplaced,
      handler.hoistedNames_unplaced]
  | .literal .., _ | .identifier .., _ | .dynamic .., _ | .this .., _ | .call .., _ | .member .., _
  | .binary .., _ | .unary .., _ | .assign .., _ | .function .., _ | .object .., _ | .delete .., _ | .var .., _
  | .ret .., _ | .withObject .., _ | .throw .., _ => rfl

/-- Nor do those of a list. -/
theorem hoistedNamesOf_unplacedAll : ∀ (ns : List Node) (names : Array String),
    hoistedNamesOf names (unplacedAll ns) = hoistedNamesOf names ns
  | [], _ => rfl
  | n :: rest, names => by
    rw [unplacedAll, hoistedNamesOf, hoistedNamesOf, n.hoistedNames_unplaced, hoistedNamesOf_unplacedAll rest]

/-- Nor do those of a node that may be missing. -/
theorem hoistedNamesOf?_unplaced? : ∀ (n : Option Node) (names : Array String),
    hoistedNamesOf? names (unplaced? n) = hoistedNamesOf? names n
  | none, _ => rfl
  | some n, names => n.hoistedNames_unplaced names

end

/-! ## The parts of a walk -/

namespace Analyzer

/-- A node is walked as if it were written nowhere. -/
structure Blind (n : Node) : Prop where
  /-- Every walk of it is, in a `with` body or outside of one. -/
  walks : ∀ {inWith : Bool} {a a' : Analyzer} {n' : Node}, a.nodeIn inWith n = (a', n') →
    a.unplaced.nodeIn inWith n.unplaced = (a'.unplaced, n'.unplaced)

/-- Nodes are walked as if they were written nowhere. -/
structure BlindAll (ns : List Node) : Prop where
  /-- Every walk of them is. -/
  walks : ∀ {inWith : Bool} {a a' : Analyzer} {ns' : List Node}, a.nodesIn inWith ns = (a', ns') →
    a.unplaced.nodesIn inWith (unplacedAll ns) = (a'.unplaced, unplacedAll ns')

/-- Properties are walked as if they were written nowhere. -/
structure BlindProperties (ps : List (String × Node)) : Prop where
  /-- Every walk of them is. -/
  walks : ∀ {inWith : Bool} {a a' : Analyzer} {ps' : List (String × Node)},
    a.propertiesIn inWith ps = (a', ps') →
    a.unplaced.propertiesIn inWith (unplacedProperties ps) = (a'.unplaced, unplacedProperties ps')

/-- A node that may be missing is walked as if it were written nowhere. -/
structure Blind? (n : Option Node) : Prop where
  /-- Every walk of it is. -/
  walks : ∀ {inWith : Bool} {a a' : Analyzer} {n' : Option Node}, a.nodeIn? inWith n = (a', n') →
    a.unplaced.nodeIn? inWith (unplaced? n) = (a'.unplaced, unplaced? n')

section

variable {a a' : Analyzer} {n n' : Node}

/-- Whether a walk has failed. -/
theorem failed_unplaced (a : Analyzer) : a.unplaced.failed = a.failed :=
  Option.isSome_map

/-- What can be assigned to. -/
theorem isTarget_unplaced (n : Node) : isTarget n.unplaced = isTarget n := by
  cases n <;> rfl

/-- A name is checked. -/
theorem checkBindable_unplaced (a : Analyzer) (name : String) (span : Span) :
    a.unplaced.checkBindable name Span.none = (a.checkBindable name span).unplaced := by
  have hdepth : a.unplaced.withDepth = a.withDepth := rfl
  rw [checkBindable, checkBindable, hdepth]
  split
  · rfl
  · rfl

/-- A use is noted. -/
theorem used_unplaced (a : Analyzer) (n : Node) (u : Usage) :
    a.unplaced.used n.unplaced u = (a.used n u).unplaced := by
  have hname : a.unplaced.nonGlobal? n.unplaced = a.nonGlobal? n := by
    rw [nonGlobal?, nonGlobal?, n.identifier?_unplaced]
    rfl
  rw [used, used, hname]
  split
  · rfl
  · rfl

/-- An assignment is noted. -/
theorem assigned_unplaced (a : Analyzer) (x : Identifier) (type : ValueType) :
    a.unplaced.assigned x type = (a.assigned x type).unplaced := by
  rw [assigned, assigned]
  split
  · rfl
  · rfl

/-- A call is noted. -/
theorem noteCall_unplaced (a : Analyzer) (target : Node) (args : List Node) :
    a.unplaced.noteCall target.unplaced (unplacedAll args) = (a.noteCall target args).unplaced := by
  rw [noteCall, noteCall, failed_unplaced, typesOf_unplacedAll, used_unplaced]
  split
  · rfl
  · rfl

/-- Operands of a binary operation are noted. -/
theorem noteOperands_unplaced (a : Analyzer) (op : BinaryOp) (lhs rhs : Node) :
    a.unplaced.noteOperands op lhs.unplaced rhs.unplaced = (a.noteOperands op lhs rhs).unplaced := by
  rw [noteOperands, noteOperands, used_unplaced, used_unplaced]
  split
  · rfl
  · rfl

/-- The operand of a unary operation is noted. -/
theorem noteOperand_unplaced (a : Analyzer) (op : UnaryOp) (operand : Node) :
    a.unplaced.noteOperand op operand.unplaced = (a.noteOperand op operand).unplaced := by
  rw [noteOperand, noteOperand, used_unplaced]
  split
  · rfl
  · rfl

/-- The value of a name is noted. -/
theorem noteValue_unplaced (a : Analyzer) (x? : Option Identifier) (value? : Option Node) :
    a.unplaced.noteValue x? (unplaced? value?) = (a.noteValue x? value?).unplaced := by
  cases value? with
  | none => rw [unplaced?, noteValue_none, noteValue_none]
  | some value =>
    rw [unplaced?, noteValue_some, noteValue_some, failed_unplaced, value.type_unplaced]
    split
    · exact a.assigned_unplaced ..
    · rfl

/-- A name is bound. -/
theorem define_unplaced {x x' : Identifier} {span : Span} (h : a.define x span = (a', x')) :
    a.unplaced.define x Span.none = (a'.unplaced, x') := by
  rw [define] at h ⊢
  simp only [checkBindable_unplaced a x.name span, failed_unplaced, withTable_eq] at h ⊢
  split at h
  · next hf =>
    cases h
    rw [if_pos hf]
  · next hf =>
    cases h
    rw [if_neg hf]
    rfl

/-- A name in a node of its own. -/
theorem identifier_unplaced {i : Info} {x : Identifier} (h : a.identifier i x = (a', n')) :
    a.unplaced.identifier i.unplaced x = (a'.unplaced, n'.unplaced) := by
  rw [identifier] at h ⊢
  have hcheck : a.unplaced.checkBindable x.name i.unplaced.span =
      (a.checkBindable x.name i.span).unplaced := checkBindable_unplaced a x.name i.span
  simp only [hcheck, failed_unplaced, withTable_eq] at h ⊢
  split at h
  · next hf =>
    cases h
    rw [if_pos hf]
    rfl
  · next hf =>
    cases h
    rw [if_neg hf]
    rfl

/-- A node is finished. -/
theorem expression_unplaced {type : ValueType} (h : a.expression n type = (a', n')) :
    a.unplaced.expression n.unplaced type = (a'.unplaced, n'.unplaced) := by
  rw [expression] at h ⊢
  rw [failed_unplaced]
  split at h
  · next hf =>
    cases h
    rw [if_pos hf]
  · next hf =>
    cases h
    rw [if_neg hf, n.info_unplaced, n.unplaced_setInfo]
    rfl

/-- The name of a function is bound around it. -/
theorem nameAround_unplaced {isDeclaration : Bool} {name name' : Option Identifier} {span : Span}
    (h : a.nameAround isDeclaration name span = (a', name')) :
    a.unplaced.nameAround isDeclaration name Span.none = (a'.unplaced, name') := by
  rw [nameAround.eq_def] at h ⊢
  split at h
  · next x =>
    rcases hd : a.define x span with ⟨a₁, x'⟩
    simp only [hd] at h
    cases h
    simp only [define_unplaced hd, failed_unplaced, assigned_unplaced]
    split
    · rfl
    · rfl
  · next hother =>
    cases h
    rfl

/-- The name of a function is bound in it. -/
theorem nameWithin_unplaced {isDeclaration : Bool} {name name' : Option Identifier}
    (h : a.nameWithin isDeclaration name = (a', name')) :
    a.unplaced.nameWithin isDeclaration name = (a'.unplaced, name') := by
  rw [nameWithin.eq_def] at h ⊢
  split at h
  · next x =>
    rcases ho : a.ownName x with ⟨a₁, x'⟩
    simp only [ho] at h
    cases h
    have hown : a.unplaced.ownName x = (a'.unplaced, x') := by
      rw [ownName] at ho ⊢
      have hscope : a.unplaced.table.scope a.unplaced.scope = a.table.scope a.scope := rfl
      rw [hscope]
      simp only [withTable_eq] at ho ⊢
      split at ho
      · cases ho
        rfl
      · obtain ⟨rfl, rfl⟩ := Prod.mk.inj ho
        rfl
    simp only [hown]
  · next hother =>
    cases h
    rfl

/-- Names are declared ahead of a body. -/
theorem hoist_unplaced (a : Analyzer) (body : List Node) :
    a.unplaced.hoist (unplacedAll body) = (a.hoist body).unplaced := by
  rw [hoist, hoist, hoistedNames, hoistedNames, hoistedNamesOf_unplacedAll]
  rfl

/-- The inside of a function is walked. -/
theorem functionWithin_unplaced {inWith : Bool} {i : Info} {name : Option Identifier}
    {params : List Identifier} {body : List Node} {isDeclaration : Bool}
    (h : a.functionWithin inWith i name params body isDeclaration = (a', n')) (hbody : BlindAll body) :
    a.unplaced.functionWithin inWith i.unplaced name params (unplacedAll body) isDeclaration =
      (a'.unplaced, n'.unplaced) := by
  rcases hp : (a.enter (functionName name)).1.parameters params with ⟨a₁, params'⟩
  rcases hw : (a₁.hoist body).nameWithin isDeclaration name with ⟨a₂, name'⟩
  rcases hb : a₂.nodesIn inWith body with ⟨a₃, body'⟩
  have hparams : (a.unplaced.enter (functionName name)).1.parameters params = (a₁.unplaced, params') := by
    cases hp
    rfl
  have hwithin : (a₁.unplaced.hoist (unplacedAll body)).nameWithin isDeclaration name =
      (a₂.unplaced, name') := by rw [hoist_unplaced, nameWithin_unplaced hw]
  rw [functionWithin_eq hp hw hb] at h
  rw [functionWithin_eq hparams hwithin (hbody.walks hb)]
  exact expression_unplaced h

/-- A failed walk leaves everything as it is; so the walk may be taken to go by the rules. -/
theorem Blind.of_rules (hwalk : ∀ (inWith : Bool) (a a' : Analyzer) (n' : Node), a.NodeWalk inWith n a' n' →
    a.unplaced.NodeWalk inWith n.unplaced a'.unplaced n'.unplaced) : Blind n := by
  refine ⟨fun {inWith a a' n'} h => ?_⟩
  rcases hf : a.failed with _ | _
  · exact (hwalk inWith a a' n' (nodeWalk_of_nodeIn hf h)).nodeIn (a.failed_unplaced.trans hf)
  · rw [nodeIn_of_failed hf] at h
    cases h
    rw [nodeIn_of_failed (a.failed_unplaced.trans hf), n.lowerIf_unplaced]

/-! ## One node of each kind -/

variable {i : Info}

/-- A literal. -/
theorem Blind.literal (l : Literal) : Blind (.literal i l) := by
  refine .of_rules fun inWith a a' n' hw => ?_
  cases hw
  exact .literal ..

/-- A name looked up when the program runs. -/
theorem Blind.dynamic (name : String) : Blind (.dynamic i name) := by
  refine .of_rules fun inWith a a' n' hw => ?_
  cases hw
  exact .dynamic ..

/-- The receiver. -/
theorem Blind.this : Blind (.this i) := by
  refine .of_rules fun inWith a a' n' hw => ?_
  cases hw
  exact .this ..

/-- A name. -/
theorem Blind.identifier (x : Identifier) : Blind (.identifier i x) := by
  refine .of_rules fun inWith a a' n' hw => ?_
  cases hw with
  | lowered _ hwith hx => exact .lowered _ hwith hx
  | identifier hplain h => exact .identifier hplain (identifier_unplaced h)

/-- **A call.** -/
theorem Blind.call {target : Node} {args : List Node} (iht : Blind target) (ihr : BlindAll args) :
    Blind (.call i target args) := by
  refine .of_rules fun inWith a a' n' hw => ?_
  cases hw with
  | call ht hr hend =>
    refine .call (iht.walks ht) (ihr.walks hr) ?_
    rw [noteCall_unplaced]
    exact expression_unplaced hend

/-- Reading a property. -/
theorem Blind.member {target : Node} (iht : Blind target) (name : String) :
    Blind (.member i target name) := by
  refine .of_rules fun inWith a a' n' hw => ?_
  cases hw with
  | member ht hend => exact .member (iht.walks ht) (expression_unplaced hend)

/-- **A binary operation.** -/
theorem Blind.binary {lhs rhs : Node} (ihl : Blind lhs) (ihr : Blind rhs) (op : BinaryOp) :
    Blind (.binary i op lhs rhs) := by
  refine .of_rules fun inWith a a' n' hw => ?_
  cases hw with
  | @binary _ _ _ lhs' _ rhs' _ a₂ hl hr hok hfold =>
    rw [← noteOperands_unplaced, ← lhs'.type_unplaced, ← rhs'.type_unplaced]
    exact .binary (ihl.walks hl) (ihr.walks hr) (a₂.failed_unplaced.trans hok)
      ((foldBinary?_unplaced op lhs' rhs').trans hfold)
  | @binaryFolded _ _ _ lhs' _ rhs' _ a₂ _ hl hr hok hfold =>
    rw [← noteOperands_unplaced, ← lhs'.type_unplaced, ← rhs'.type_unplaced]
    exact .binaryFolded (ihl.walks hl) (ihr.walks hr) (a₂.failed_unplaced.trans hok)
      ((foldBinary?_unplaced op lhs' rhs').trans hfold)
  | binaryFailed hl hr hf =>
    exact .binaryFailed (ihl.walks hl) (ihr.walks hr) ((failed_unplaced _).trans hf)

/-- **A unary operation.** -/
theorem Blind.unary {operand : Node} (iho : Blind operand) (op : UnaryOp) : Blind (.unary i op operand) := by
  refine .of_rules fun inWith a a' n' hw => ?_
  cases hw with
  | @unary _ _ _ operand' a₁ ho hok hfold =>
    rw [← noteOperand_unplaced]
    exact .unary (iho.walks ho) (a₁.failed_unplaced.trans hok)
      ((foldUnary?_unplaced op operand').trans hfold)
  | @unaryFolded _ _ _ operand' a₁ _ ho hok hfold =>
    rw [← noteOperand_unplaced]
    exact .unaryFolded (iho.walks ho) (a₁.failed_unplaced.trans hok)
      ((foldUnary?_unplaced op operand').trans hfold)
  | unaryFailed ho hf => exact .unaryFailed (iho.walks ho) ((failed_unplaced _).trans hf)

/-- **An assignment.** -/
theorem Blind.assign {target value : Node} (iht : Blind target) (ihv : Blind value) :
    Blind (.assign i target value) := by
  refine .of_rules fun inWith a a' n' hw => ?_
  cases hw with
  | @assign _ _ target' _ value' _ _ a₂ _ htarget ht hv hend =>
    refine .assign ((isTarget_unplaced target).trans htarget) (iht.walks ht) (ihv.walks hv) ?_
    have hnoted := a₂.noteValue_unplaced target'.identifier? (some value')
    rw [unplaced?] at hnoted
    rw [target'.identifier?_unplaced, hnoted, value'.type_unplaced]
    exact expression_unplaced hend
  | assignFailed htarget =>
    have hfail : (a.fail (.invalidTarget target.span)).unplaced =
        a.unplaced.fail (.invalidTarget target.unplaced.span) := by
      rw [target.span_unplaced]
      rfl
    rw [hfail, Node.unplaced, Node.unplaced, ← target.lowerIf_unplaced, ← value.lowerIf_unplaced]
    exact .assignFailed ((isTarget_unplaced target).trans htarget)

/-- An object literal. -/
theorem Blind.object {ps : List (String × Node)} (ihp : BlindProperties ps) : Blind (.object i ps) := by
  refine .of_rules fun inWith a a' n' hw => ?_
  cases hw with
  | object hp hend => exact .object (ihp.walks hp) (expression_unplaced hend)

/-- A deletion. -/
theorem Blind.delete {target : Node} (iht : Blind target) : Blind (.delete i target) := by
  refine .of_rules fun inWith a a' n' hw => ?_
  cases hw with
  | delete ht hend => exact .delete (iht.walks ht) (expression_unplaced hend)

/-- **A function.** -/
theorem Blind.function {body : List Node} (ihb : BlindAll body) (name : Option Identifier)
    (params : List Identifier) (isDeclaration : Bool) (scope : Option ScopeId) :
    Blind (.function i name params body isDeclaration scope) := by
  refine .of_rules fun inWith a a' n' hw => ?_
  cases hw with
  | function hn hok hwithin =>
    exact .function (nameAround_unplaced hn) ((failed_unplaced _).trans hok)
      (functionWithin_unplaced hwithin ihb)
  | functionFailed hn hf =>
    rw [Node.unplaced, Node.unplaced, ← lowerAllIf_unplacedAll]
    exact .functionFailed (nameAround_unplaced hn) ((failed_unplaced _).trans hf)

/-- **A variable statement.** -/
theorem Blind.var {init : Option Node} (ihi : Blind? init) (binding : Identifier) :
    Blind (.var i binding init) := by
  refine .of_rules fun inWith a a' n' hw => ?_
  cases hw with
  | var hb hi hend =>
    refine .var (define_unplaced hb) (ihi.walks hi) ?_
    rw [noteValue_unplaced]
    exact expression_unplaced hend

/-- Returning. -/
theorem Blind.ret {value : Option Node} (ihv : Blind? value) : Blind (.ret i value) := by
  refine .of_rules fun inWith a a' n' hw => ?_
  cases hw with
  | ret hv hend => exact .ret (ihv.walks hv) (expression_unplaced hend)

/-- A conditional. -/
theorem Blind.cond {condition thenBranch : Node} {elseBranch : Option Node} (ihc : Blind condition)
    (iht : Blind thenBranch) (ihe : Blind? elseBranch) : Blind (.cond i condition thenBranch elseBranch) := by
  refine .of_rules fun inWith a a' n' hw => ?_
  cases hw with
  | cond hc ht he hend =>
    exact .cond (ihc.walks hc) (iht.walks ht) (ihe.walks he) (expression_unplaced hend)

/-- A loop. -/
theorem Blind.loop {condition body : Node} (ihc : Blind condition) (ihb : Blind body) :
    Blind (.loop i condition body) := by
  refine .of_rules fun inWith a a' n' hw => ?_
  cases hw with
  | loop hc hb hend => exact .loop (ihc.walks hc) (ihb.walks hb) (expression_unplaced hend)

/-- A block. -/
theorem Blind.block {statements : List Node} (ihs : BlindAll statements) : Blind (.block i statements) := by
  refine .of_rules fun inWith a a' n' hw => ?_
  cases hw with
  | block hs hend => exact .block (ihs.walks hs) (expression_unplaced hend)

/-- **A `with` statement.** -/
theorem Blind.withObject {object body : Node} (iho : Blind object) (ihb : Blind body) :
    Blind (.withObject i object body) := by
  refine .of_rules fun inWith a a' n' hw => ?_
  cases hw with
  | @withObject _ _ _ _ _ _ a₁ _ _ ho hok hb hend =>
    exact .withObject (iho.walks ho) (a₁.failed_unplaced.trans hok) (ihb.walks hb)
      (expression_unplaced hend)
  | withObjectFailed ho hf =>
    rw [Node.unplaced, Node.unplaced, ← body.lowerIf_unplaced]
    exact .withObjectFailed (iho.walks ho) ((failed_unplaced _).trans hf)

/-- Throwing. -/
theorem Blind.throw {value : Node} (ihv : Blind value) : Blind (.throw i value) := by
  refine .of_rules fun inWith a a' n' hw => ?_
  cases hw with
  | throw hv hend => exact .throw (ihv.walks hv) (expression_unplaced hend)

/-- A handler without a name. -/
theorem Blind.tryCatch_none {block handler : Node} (ihb : Blind block) (ihh : Blind handler) :
    Blind (.tryCatch i block none handler) := by
  refine .of_rules fun inWith a a' n' hw => ?_
  cases hw with
  | tryCatch hb hh hend => exact .tryCatch (ihb.walks hb) (ihh.walks hh) (expression_unplaced hend)

/-- **A handler with a name**: a bad name is reported where the statement is. -/
theorem Blind.tryCatch_some {block handler : Node} (ihb : Blind block) (ihh : Blind handler)
    (x : Identifier) : Blind (.tryCatch i block (some x) handler) := by
  refine .of_rules fun inWith a a' n' hw => ?_
  cases hw with
  | @handler _ _ _ _ _ _ _ a₁ _ _ hb hok hzero hh hend =>
    exact .handler (ihb.walks hb) (a₁.failed_unplaced.trans hok) hzero (ihh.walks hh)
      (expression_unplaced hend)
  | @handlerFailed _ _ _ _ _ a₁ _ hb hc hf =>
    have hcheck : (if a₁.unplaced.failed then a₁.unplaced
        else a₁.unplaced.checkBindable x.name i.unplaced.span) = a'.unplaced := by
      rw [← hc, failed_unplaced, show i.unplaced.span = Span.none from rfl,
        checkBindable_unplaced a₁ x.name i.span]
      split
      · rfl
      · rfl
    rw [Node.unplaced, Node.unplaced, ← handler.lowerIf_unplaced]
    exact .handlerFailed (ihb.walks hb) hcheck (a'.failed_unplaced.trans hf)

/-- No nodes. -/
theorem BlindAll.nil : BlindAll [] := by
  refine ⟨fun {inWith a a' ns'} h => ?_⟩
  rw [nodesIn_nil] at h
  cases h
  rw [unplacedAll, nodesIn_nil]

/-- One node more. -/
theorem BlindAll.cons {n : Node} {rest : List Node} (ihn : Blind n) (ihr : BlindAll rest) :
    BlindAll (n :: rest) := by
  refine ⟨fun {inWith a a' ns'} h => ?_⟩
  rcases hn : a.nodeIn inWith n with ⟨a₁, n'⟩
  rcases hr : a₁.nodesIn inWith rest with ⟨a₂, rest'⟩
  simp only [nodesIn_cons, hn, hr] at h
  cases h
  simp only [unplacedAll, nodesIn_cons, ihn.walks hn, ihr.walks hr]

/-- A node that is missing. -/
theorem Blind?.none : Blind? none := by
  refine ⟨fun {inWith a a' n'} h => ?_⟩
  rw [nodeIn?_none] at h
  cases h
  rw [unplaced?, nodeIn?_none]

/-- A node that is there. -/
theorem Blind?.some {n : Node} (ihn : Blind n) : Blind? (some n) := by
  refine ⟨fun {inWith a a' n'} h => ?_⟩
  rcases hn : a.nodeIn inWith n with ⟨a₁, n₁⟩
  simp only [nodeIn?_some, hn] at h
  cases h
  simp only [unplaced?, nodeIn?_some, ihn.walks hn]

/-- No properties. -/
theorem BlindProperties.nil : BlindProperties [] := by
  refine ⟨fun {inWith a a' ps'} h => ?_⟩
  rw [propertiesIn_nil] at h
  cases h
  rw [unplacedProperties, propertiesIn_nil]

/-- One property more. -/
theorem BlindProperties.cons {value : Node} {rest : List (String × Node)} (ihn : Blind value)
    (ihr : BlindProperties rest) (name : String) : BlindProperties ((name, value) :: rest) := by
  refine ⟨fun {inWith a a' ps'} h => ?_⟩
  rcases hn : a.nodeIn inWith value with ⟨a₁, value'⟩
  rcases hr : a₁.propertiesIn inWith rest with ⟨a₂, rest'⟩
  simp only [propertiesIn_cons, hn, hr] at h
  cases h
  simp only [unplacedProperties, propertiesIn_cons, ihn.walks hn, ihr.walks hr]

end

/-! ## Whole trees -/

mutual

/-- **A node is walked** as if it were written nowhere. -/
theorem node_unplaced : ∀ n : Node, Blind n
  | .literal _ l => .literal l
  | .identifier _ x => .identifier x
  | .dynamic _ name => .dynamic name
  | .this _ => .this
  | .call _ target args => .call (node_unplaced target) (nodes_unplaced args)
  | .member _ target name => .member (node_unplaced target) name
  | .binary _ op lhs rhs => .binary (node_unplaced lhs) (node_unplaced rhs) op
  | .unary _ op operand => .unary (node_unplaced operand) op
  | .assign _ target value => .assign (node_unplaced target) (node_unplaced value)
  | .function _ name params body isDeclaration scope =>
    .function (nodes_unplaced body) name params isDeclaration scope
  | .object _ ps => .object (properties_unplaced ps)
  | .delete _ target => .delete (node_unplaced target)
  | .var _ binding init => .var (node?_unplaced init) binding
  | .ret _ value => .ret (node?_unplaced value)
  | .cond _ condition thenBranch elseBranch =>
    .cond (node_unplaced condition) (node_unplaced thenBranch) (node?_unplaced elseBranch)
  | .loop _ condition body => .loop (node_unplaced condition) (node_unplaced body)
  | .block _ statements => .block (nodes_unplaced statements)
  | .withObject _ object body => .withObject (node_unplaced object) (node_unplaced body)
  | .throw _ value => .throw (node_unplaced value)
  | .tryCatch _ block none handler => .tryCatch_none (node_unplaced block) (node_unplaced handler)
  | .tryCatch _ block (some x) handler => .tryCatch_some (node_unplaced block) (node_unplaced handler) x

/-- **Nodes are walked** as if they were written nowhere. -/
theorem nodes_unplaced : ∀ ns : List Node, BlindAll ns
  | [] => .nil
  | n :: rest => .cons (node_unplaced n) (nodes_unplaced rest)

/-- **A node that may be missing.** -/
theorem node?_unplaced : ∀ n : Option Node, Blind? n
  | none => .none
  | some n => .some (node_unplaced n)

/-- **Properties are walked** as if they were written nowhere. -/
theorem properties_unplaced : ∀ ps : List (String × Node), BlindProperties ps
  | [] => .nil
  | (name, value) :: rest => .cons (node_unplaced value) (properties_unplaced rest) name

end

/-- **A program is analyzed** as if it were written nowhere. -/
theorem program_unplaced {a a' : Analyzer} {p p' : Program} (h : a.program p = (a', p')) :
    a.unplaced.program p.unplaced = (a'.unplaced, p'.unplaced) := by
  rw [program] at h ⊢
  rcases hb : (({ a with scope := .global } : Analyzer).hoist p.body).nodes #[] p.body with ⟨a₁, body⟩
  simp only [hb] at h
  cases h
  have hbody := (nodes_unplaced p.body).walks ((nodesIn_false ..).trans hb)
  rw [nodesIn_false, ← hoist_unplaced, Analyzer.unplaced] at hbody
  simp only [Analyzer.unplaced, Program.unplaced, hbody]
  rw [← failed_unplaced a']
  rfl

end Analyzer

end ScriptEngine
