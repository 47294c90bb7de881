import ScriptEngine.Proofs.Scope.Lowered

/-!
# Walks, one kind of node at a time

`Analyzer.nodeIn` is the walk of a node that stands in the body of a `with` statement, which has been lowered
before it is walked, or of one that stands elsewhere. `nodeIn_eq` says what this comes to for each kind of node:
lowering reaches all parts of a node, so that the parts are walked in the same way, and only a use of a name is
walked as a name that is looked up at run time.

`Analyzer.NodeWalk` says what an analyzer that has not failed can do with a node: one rule for each kind of node,
over the walks of its parts, and another one where the walk of a part may have failed. `nodeWalk_of_nodeIn` and
`NodeWalk.nodeIn` say that these are the walks of `Analyzer.nodeIn`. Proofs about walks go by these rules and do
not open the definition, so that a change to how one kind of node is walked is a change to one rule.

Functions, `with` statements and handlers change where an analyzer is for a part of their walk. The rules
name the parts that the definition has in one piece there: the name of a function is bound around it
(`nameAround`) or within (`nameWithin`), its inside is walked in a scope of its own (`functionWithin`), a `with`
body is entered and left (`enterWith`, `leaveWith`), and the binding of a handler is opened and closed
(`openHandler`, `closeHandler`).
-/

namespace ScriptEngine

namespace Analyzer

variable {a a₁ a₂ a₃ a' : Analyzer} {n n' : Node}

/-! ## Steps -/

/-- What changing the table comes to. -/
theorem withTable_eq {α : Type} (a : Analyzer) (f : ScopeTable → α × ScopeTable) :
    a.withTable f = ({ a with table := (f a.table).2 }, (f a.table).1) := rfl

/-- A name may be bound outside of `with` bodies of the function. -/
theorem checkBindable_eq (a : Analyzer) (name : String) (span : Span) :
    (a.checkBindable name span).failed = true ∨ a.withDepth = 0 ∧ a.checkBindable name span = a := by
  rw [checkBindable]
  split
  · exact .inl rfl
  · exact .inr ⟨by omega, rfl⟩

/-- Finishing a node only sets its type. -/
theorem expression_fst (a : Analyzer) (n : Node) (type : ValueType) : (a.expression n type).1 = a := by
  rw [expression]
  split
  · rfl
  · rfl

/-- What a step that does nothing after a failure comes to, if there has been none. -/
theorem proceeds {α : Type} {x y : α} {r : Analyzer × α}
    (h : (if a.failed then (a, x) else r) = (a', y)) (hok : a'.failed = false) :
    a.failed = false ∧ r = (a', y) := by
  split at h
  · next hf =>
    cases h
    rw [hf] at hok
    cases hok
  · next hf => exact ⟨by simpa using hf, h⟩

/-- A failed analyzer walks nothing. -/
theorem node_of_failed (hf : a.failed = true) (n : Node) : a.node n = (a, n) := by
  rw [node.eq_def, if_pos hf]

/-- A walk that ends well has started well. -/
theorem starts_of_node (h : a.node n = (a', n')) (hok : a'.failed = false) : a.failed = false := by
  rcases hf : a.failed with _ | _
  · rfl
  · rw [node_of_failed hf] at h
    cases h
    rw [hf] at hok
    cases hok

/-- A binary operation that is folded is arithmetic on numbers. -/
theorem foldBinary?_eq_some {op : BinaryOp} {lhs rhs : Node} {z : Number} (h : foldBinary? op lhs rhs = some z) :
    ∃ x y, lhs.number? = some x ∧ rhs.number? = some y ∧ op.arithmetic? x y = some z := by
  rw [foldBinary?.eq_def] at h
  split at h
  · next x y hx hy => exact ⟨x, y, hx, hy, h⟩
  · cases h

/-! ## Lists -/

/-- The nodes of a list are piled up behind those already walked. -/
theorem nodes_eq (a : Analyzer) (done : Array Node) (ns : List Node) :
    a.nodes done ns = ((a.nodes #[] ns).1, done.toList ++ (a.nodes #[] ns).2) := by
  induction ns generalizing a done with
  | nil => simp [nodes]
  | cons n rest ih =>
    rw [nodes, nodes]
    simp only
    rw [ih _ (done.push _), ih _ (#[].push _)]
    simp

/-- **The nodes of a list**: the first one, and then the others. -/
theorem nodes_cons (a : Analyzer) (n : Node) (rest : List Node) :
    a.nodes #[] (n :: rest) =
      (((a.node n).1.nodes #[] rest).1, (a.node n).2 :: ((a.node n).1.nodes #[] rest).2) := by
  rw [nodes]
  simp only
  rw [nodes_eq _ (#[].push _)]
  rfl

/-- Properties are piled up behind those already walked. -/
theorem properties_eq (a : Analyzer) (done : Array (String × Node)) (ps : List (String × Node)) :
    a.properties done ps = ((a.properties #[] ps).1, done.toList ++ (a.properties #[] ps).2) := by
  induction ps generalizing a done with
  | nil => simp [properties]
  | cons p rest ih =>
    rw [properties, properties]
    simp only
    rw [ih _ (done.push _), ih _ (#[].push _)]
    simp

/-- **Properties**: the first one, and then the others. -/
theorem properties_cons (a : Analyzer) (name : String) (value : Node) (rest : List (String × Node)) :
    a.properties #[] ((name, value) :: rest) =
      (((a.node value).1.properties #[] rest).1,
        (name, (a.node value).2) :: ((a.node value).1.properties #[] rest).2) := by
  rw [properties]
  simp only
  rw [properties_eq _ (#[].push _)]
  rfl

/-! ## In a `with` body or outside of one -/

/-- The walk of a node that stands in a `with` body or outside of one. -/
def nodeIn (a : Analyzer) (inWith : Bool) (n : Node) : Analyzer × Node := a.node (n.lowerIf inWith)

/-- The walk of nodes that stand there. -/
def nodesIn (a : Analyzer) (inWith : Bool) (ns : List Node) : Analyzer × List Node :=
  a.nodes #[] (lowerAllIf inWith ns)

/-- The walk of properties that stand there. -/
def propertiesIn (a : Analyzer) (inWith : Bool) (ps : List (String × Node)) :
    Analyzer × List (String × Node) :=
  a.properties #[] (lowerPropertiesIf inWith ps)

/-- The walk of a node that may be missing there. -/
def nodeIn? (a : Analyzer) (inWith : Bool) (n : Option Node) : Analyzer × Option Node :=
  a.node? (lower?If inWith n)

/-- Outside of `with` bodies, nodes are walked as they are. -/
theorem nodeIn_false (a : Analyzer) (n : Node) : a.nodeIn false n = a.node n := rfl

/-- So are lists. -/
theorem nodesIn_false (a : Analyzer) (ns : List Node) : a.nodesIn false ns = a.nodes #[] ns := rfl

/-- A failed analyzer walks nothing. -/
theorem nodeIn_of_failed (hf : a.failed = true) (inWith : Bool) (n : Node) :
    a.nodeIn inWith n = (a, n.lowerIf inWith) :=
  node_of_failed hf _

/-- No nodes. -/
theorem nodesIn_nil (a : Analyzer) (inWith : Bool) : a.nodesIn inWith [] = (a, []) := by
  cases inWith <;> exact nodes.eq_1 a #[]

/-- **The nodes of a list**: the first one, and then the others. -/
theorem nodesIn_cons (a : Analyzer) (inWith : Bool) (n : Node) (rest : List Node) :
    a.nodesIn inWith (n :: rest) =
      (((a.nodeIn inWith n).1.nodesIn inWith rest).1,
        (a.nodeIn inWith n).2 :: ((a.nodeIn inWith n).1.nodesIn inWith rest).2) := by
  cases inWith with
  | true => exact nodes_cons a n.lower (lowerAll rest)
  | false => exact nodes_cons a n rest

/-- No properties. -/
theorem propertiesIn_nil (a : Analyzer) (inWith : Bool) : a.propertiesIn inWith [] = (a, []) := by
  cases inWith <;> exact properties.eq_1 a #[]

/-- **Properties**: the first one, and then the others. -/
theorem propertiesIn_cons (a : Analyzer) (inWith : Bool) (name : String) (value : Node)
    (rest : List (String × Node)) :
    a.propertiesIn inWith ((name, value) :: rest) =
      (((a.nodeIn inWith value).1.propertiesIn inWith rest).1,
        (name, (a.nodeIn inWith value).2) :: ((a.nodeIn inWith value).1.propertiesIn inWith rest).2) := by
  cases inWith with
  | true => exact properties_cons a name value.lower (lowerProperties rest)
  | false => exact properties_cons a name value rest

/-- A node that is missing. -/
theorem nodeIn?_none (a : Analyzer) (inWith : Bool) : a.nodeIn? inWith none = (a, none) := by
  cases inWith <;> exact node?.eq_1 a

/-- A node that is there. -/
theorem nodeIn?_some (a : Analyzer) (inWith : Bool) (n : Node) :
    a.nodeIn? inWith (some n) = ((a.nodeIn inWith n).1, some (a.nodeIn inWith n).2) := by
  cases inWith with
  | true => exact node?.eq_2 a n.lower
  | false => exact node?.eq_2 a n

/-! ## Parts of a walk -/

/-- What is noted of a call: the types of its arguments. -/
def noteCall (a : Analyzer) (target : Node) (args : List Node) : Analyzer :=
  if a.failed then a else a.used target (.called (typesOf args))

/-- What is noted of the operands of a binary operation. -/
def noteOperands (a : Analyzer) (op : BinaryOp) (lhs rhs : Node) : Analyzer :=
  if op.isArithmetic then (a.used lhs .numeric).used rhs .numeric else a

/-- What is noted of the operand of a unary operation. -/
def noteOperand (a : Analyzer) (op : UnaryOp) (operand : Node) : Analyzer :=
  if op = .neg || op = .plus then a.used operand .numeric else a

/-- What is noted of the value that a name gets, if there are both. -/
def noteValue (a : Analyzer) (x? : Option Identifier) (value? : Option Node) : Analyzer :=
  match a.failed, x?, value? with
  | false, some x, some value => a.assigned x value.type
  | _, _, _ => a

/-- What happens to the name of a function before the function is entered. -/
def nameAround (a : Analyzer) (isDeclaration : Bool) (name : Option Identifier) (span : Span) :
    Analyzer × Option Identifier :=
  match isDeclaration, name with
  | true, some x =>
    let (a, x) := a.define x span
    (if a.failed then a else a.assigned x .function, some x)
  | _, name => (a, name)

/-- The name of a function expression is not bound around it. -/
theorem nameAround_false (a : Analyzer) (name : Option Identifier) (span : Span) :
    a.nameAround false name span = (a, name) := by
  cases name with
  | none => rfl
  | some x => rfl

/-- What happens to the name of a function between its parameters and its body. -/
def nameWithin (a : Analyzer) (isDeclaration : Bool) (name : Option Identifier) :
    Analyzer × Option Identifier :=
  match isDeclaration, name with
  | false, some x =>
    let (a, x) := a.ownName x
    (a, some x)
  | _, name => (a, name)

/-- The inside of a function is walked, once its name is bound around it. -/
def functionWithin (a : Analyzer) (inWith : Bool) (i : Info) (name : Option Identifier)
    (params : List Identifier) (body : List Node) (isDeclaration : Bool) : Analyzer × Node :=
  let (a₁, s) := a.enter (functionName name)
  let (a₁, params) := a₁.parameters params
  let (a₁, name) := (a₁.hoist body).nameWithin isDeclaration name
  let (a₁, body) := a₁.nodesIn inWith body
  ({ a₁ with scope := a.scope, withDepth := a.withDepth } : Analyzer).expression
    (.function i name params body isDeclaration (some s)) .function

/-- **The inside of a function**: its parameters, its name if it sees it, and its body. -/
theorem functionWithin_eq {inWith : Bool} {i : Info} {name name' : Option Identifier}
    {params params' : List Identifier} {body body' : List Node} {isDeclaration : Bool}
    (hp : (a.enter (functionName name)).1.parameters params = (a₁, params'))
    (hw : (a₁.hoist body).nameWithin isDeclaration name = (a₂, name'))
    (hb : a₂.nodesIn inWith body = (a₃, body')) :
    a.functionWithin inWith i name params body isDeclaration =
      ({ a₃ with scope := a.scope, withDepth := a.withDepth } : Analyzer).expression
        (.function i name' params' body' isDeclaration (some (a.enter (functionName name)).2)) .function := by
  rw [functionWithin]
  simp only [hp, hw, hb]

/-- The body of a `with` statement is entered: names are looked up at run time there. -/
def enterWith (a : Analyzer) : Analyzer :=
  { a with
    table := a.table.markDynamic a.scope
    withDepth := a.withDepth + 1
    loweredDepth := a.loweredDepth + 1 }

/-- The body of a `with` statement is left. -/
def leaveWith (a : Analyzer) : Analyzer :=
  { a with withDepth := a.withDepth - 1, loweredDepth := a.loweredDepth - 1 }

/-- The binding of a handler is open. -/
def openHandler (a : Analyzer) (x : Identifier) : Analyzer :=
  { a with table := (a.table.openBinding a.scope x.name).2 }

/-- The binding of a handler is closed: its name stands for what it stood for before. -/
def closeHandler (a a₁ : Analyzer) (x : Identifier) : Analyzer :=
  a₁.modifyTable (·.closeBinding a.scope x.name (a.table.openBinding a.scope x.name).1.2)

/-- The name of a handler, which stands for a variable of its own. -/
def handlerName (a : Analyzer) (x : Identifier) : Identifier :=
  { x with var := some (a.table.openBinding a.scope x.name).1.1 }

/-- Nothing is noted if there is no value. -/
theorem noteValue_none (a : Analyzer) (x? : Option Identifier) : a.noteValue x? none = a := by
  rw [noteValue.eq_def]
  cases a.failed <;> cases x? <;> rfl

/-- What is noted of an assignment, as it stands in the walk of one. -/
theorem noteValue_some (a : Analyzer) (x? : Option Identifier) (value : Node) :
    a.noteValue x? (some value) = match a.failed, x? with
      | false, some x => a.assigned x value.type
      | _, _ => a := by
  rw [noteValue.eq_def]
  cases a.failed <;> cases x? <;> rfl

/-- What is noted of a variable statement, as it stands in the walk of one. -/
theorem some_noteValue (a : Analyzer) (x : Identifier) (init : Option Node) :
    a.noteValue (some x) init = match a.failed, init with
      | false, some value => a.assigned x value.type
      | _, _ => a := by
  rw [noteValue.eq_def]
  cases a.failed <;> cases init <;> rfl

/-! ## Each kind of node -/

/-- Lowering declares the same names ahead of a body. -/
theorem hoist_lowerAllIf (a : Analyzer) (inWith : Bool) (body : List Node) :
    a.hoist (lowerAllIf inWith body) = a.hoist body := by
  rw [hoist, hoist, hoistedNames_lowerAllIf]

/-- **The walk of each kind of node**, over the walks of its parts. The parts stand in the same
`with` bodies as the node, but for the body of a `with` statement; a name that is used in a `with` body has
become one that is looked up at run time. -/
theorem nodeIn_eq (hf : a.failed = false) (inWith : Bool) (n : Node) :
    a.nodeIn inWith n = match n with
      | .literal i l => (a, .literal { i with type := l.type } l)
      | .identifier i x =>
        if inWith && !x.isDefinition then (a, .dynamic { i with type := .any } x.name) else a.identifier i x
      | .dynamic i name => (a, .dynamic { i with type := .any } name)
      | .this i => (a, .this { i with type := .any })
      | .call i target args =>
        let (a₁, target) := a.nodeIn inWith target
        let (a₂, args) := a₁.nodesIn inWith args
        (a₂.noteCall target args).expression (.call i target args) .any
      | .member i target name =>
        let (a₁, target) := a.nodeIn inWith target
        a₁.expression (.member i target name) .any
      | .binary i op lhs rhs =>
        let (a₁, lhs) := a.nodeIn inWith lhs
        let (a₂, rhs) := a₁.nodeIn inWith rhs
        if a₂.failed then (a₂, .binary i op lhs rhs)
        else match foldBinary? op lhs rhs with
          | some z => (a₂.noteOperands op lhs rhs,
              .literal { i with type := binaryType op lhs.type rhs.type } (.number z))
          | none => (a₂.noteOperands op lhs rhs,
              .binary { i with type := binaryType op lhs.type rhs.type } op lhs rhs)
      | .unary i op operand =>
        let (a₁, operand) := a.nodeIn inWith operand
        if a₁.failed then (a₁, .unary i op operand)
        else match foldUnary? op operand with
          | some z => (a₁.noteOperand op operand, .literal { i with type := unaryType op } (.number z))
          | none => (a₁.noteOperand op operand, .unary { i with type := unaryType op } op operand)
      | .assign i target value =>
        if isTarget target then
          let (a₁, target) := a.nodeIn inWith target
          let (a₂, value) := a₁.nodeIn inWith value
          (a₂.noteValue target.identifier? (some value)).expression (.assign i target value) value.type
        else (a.fail (.invalidTarget target.span), .assign i (target.lowerIf inWith) (value.lowerIf inWith))
      | .object i ps =>
        let (a₁, ps) := a.propertiesIn inWith ps
        a₁.expression (.object i ps) .object
      | .delete i target =>
        let (a₁, target) := a.nodeIn inWith target
        a₁.expression (.delete i target) .bool
      | .function i name params body isDeclaration scope =>
        let (a₁, name₁) := a.nameAround isDeclaration name i.span
        if a₁.failed then (a₁, .function i name₁ params (lowerAllIf inWith body) isDeclaration scope)
        else a₁.functionWithin inWith i name₁ params body isDeclaration
      | .var i binding init =>
        let (a₁, binding) := a.define binding i.span
        let (a₂, init) := a₁.nodeIn? inWith init
        (a₂.noteValue (some binding) init).expression (.var i binding init) .any
      | .ret i value =>
        let (a₁, value) := a.nodeIn? inWith value
        a₁.expression (.ret i value) .any
      | .cond i condition thenBranch elseBranch =>
        let (a₁, condition) := a.nodeIn inWith condition
        let (a₂, thenBranch) := a₁.nodeIn inWith thenBranch
        let (a₃, elseBranch) := a₂.nodeIn? inWith elseBranch
        a₃.expression (.cond i condition thenBranch elseBranch) .any
      | .loop i condition body =>
        let (a₁, condition) := a.nodeIn inWith condition
        let (a₂, body) := a₁.nodeIn inWith body
        a₂.expression (.loop i condition body) .any
      | .block i statements =>
        let (a₁, statements) := a.nodesIn inWith statements
        a₁.expression (.block i statements) .any
      | .withObject i object body =>
        let (a₁, object) := a.nodeIn inWith object
        if a₁.failed then (a₁, .withObject i object (body.lowerIf inWith))
        else
          let (a₂, body) := a₁.enterWith.nodeIn true body
          a₂.leaveWith.expression (.withObject i object body) .any
      | .throw i value =>
        let (a₁, value) := a.nodeIn inWith value
        a₁.expression (.throw i value) .any
      | .tryCatch i block none handler =>
        let (a₁, block) := a.nodeIn inWith block
        let (a₂, handler) := a₁.nodeIn inWith handler
        a₂.expression (.tryCatch i block none handler) .any
      | .tryCatch i block (some x) handler =>
        let (a₁, block) := a.nodeIn inWith block
        let a₂ := if a₁.failed then a₁ else a₁.checkBindable x.name i.span
        if a₂.failed then (a₂, .tryCatch i block (some x) (handler.lowerIf inWith))
        else
          let (a₃, handler) := (a₂.openHandler x).nodeIn inWith handler
          (a₂.closeHandler a₃ x).expression (.tryCatch i block (some (a₂.handlerName x)) handler) .any := by
  have hok : ¬a.failed = true := by simp [hf]
  cases n with
  | identifier i x =>
    rcases hx : x.isDefinition with _ | _ <;>
      cases inWith <;> simp [nodeIn, node.eq_def, hok, Node.lowerIf, Node.lower, hx]
  | assign i target value =>
    simp only [noteValue_some]
    rw [← isTarget_lowerIf inWith, ← target.span_lowerIf inWith]
    cases inWith <;> (rw [nodeIn, node.eq_def, if_neg hok]; rfl)
  | function i name params body isDeclaration scope =>
    simp only [functionWithin, ← hoist_lowerAllIf _ inWith body]
    cases inWith <;> (rw [nodeIn, node.eq_def, if_neg hok]; cases isDeclaration <;> cases name <;> rfl)
  | var i binding init =>
    simp only [some_noteValue]
    cases inWith <;> (rw [nodeIn, node.eq_def, if_neg hok]; rfl)
  | withObject i object body =>
    have hparts : (Node.withObject i object body).lowerIf inWith =
        .withObject i (object.lowerIf inWith) (body.lowerIf inWith) := by cases inWith <;> rfl
    rw [nodeIn, hparts, node.eq_def, if_neg hok]
    -- The body is lowered once more, which changes nothing.
    simp only [Node.lower_lowerIf]
    rfl
  | tryCatch i block param handler =>
    cases param <;> cases inWith <;> (rw [nodeIn, node.eq_def, if_neg hok]; rfl)
  | _ => cases inWith <;> (rw [nodeIn, node.eq_def, if_neg hok]; rfl)

/-! ## The rules -/

/-- What an analyzer that has not failed makes of a node in a `with` body or outside of one, and what state that
leaves it in. -/
inductive NodeWalk (a : Analyzer) (inWith : Bool) : Node → Analyzer → Node → Prop where
  /-- A literal has the type of its value. -/
  | literal (i : Info) (l : Literal) :
    NodeWalk a inWith (.literal i l) a (.literal { i with type := l.type } l)
  /-- A name that is used in a `with` body, which has been lowered. -/
  | lowered (i : Info) {x : Identifier} (hwith : inWith = true) (hx : x.isDefinition = false) :
    NodeWalk a inWith (.identifier i x) a (.dynamic { i with type := .any } x.name)
  /-- Any other name in a node of its own. -/
  | identifier {i : Info} {x : Identifier} {a' : Analyzer} {n' : Node}
    (hplain : inWith = true → x.isDefinition = true) (h : a.identifier i x = (a', n')) :
    NodeWalk a inWith (.identifier i x) a' n'
  /-- A name that is looked up when the program runs. -/
  | dynamic (i : Info) (name : String) :
    NodeWalk a inWith (.dynamic i name) a (.dynamic { i with type := .any } name)
  /-- The receiver. -/
  | this (i : Info) : NodeWalk a inWith (.this i) a (.this { i with type := .any })
  /-- A call: its target, and then its arguments. -/
  | call {i : Info} {target target' n' : Node} {args args' : List Node} {a₁ a₂ a' : Analyzer}
    (ht : a.nodeIn inWith target = (a₁, target')) (hr : a₁.nodesIn inWith args = (a₂, args'))
    (hend : (a₂.noteCall target' args').expression (.call i target' args') .any = (a', n')) :
    NodeWalk a inWith (.call i target args) a' n'
  /-- Reading a property. -/
  | member {i : Info} {target target' n' : Node} {name : String} {a₁ a' : Analyzer}
    (ht : a.nodeIn inWith target = (a₁, target')) (hend : a₁.expression (.member i target' name) .any = (a', n')) :
    NodeWalk a inWith (.member i target name) a' n'
  /-- A binary operation that cannot be folded. -/
  | binary {i : Info} {op : BinaryOp} {lhs lhs' rhs rhs' : Node} {a₁ a₂ : Analyzer}
    (hl : a.nodeIn inWith lhs = (a₁, lhs')) (hr : a₁.nodeIn inWith rhs = (a₂, rhs')) (hok : a₂.failed = false)
    (hfold : foldBinary? op lhs' rhs' = none) :
    NodeWalk a inWith (.binary i op lhs rhs) (a₂.noteOperands op lhs' rhs')
      (.binary { i with type := binaryType op lhs'.type rhs'.type } op lhs' rhs')
  /-- A binary operation that can be folded. -/
  | binaryFolded {i : Info} {op : BinaryOp} {lhs lhs' rhs rhs' : Node} {a₁ a₂ : Analyzer} {z : Number}
    (hl : a.nodeIn inWith lhs = (a₁, lhs')) (hr : a₁.nodeIn inWith rhs = (a₂, rhs')) (hok : a₂.failed = false)
    (hfold : foldBinary? op lhs' rhs' = some z) :
    NodeWalk a inWith (.binary i op lhs rhs) (a₂.noteOperands op lhs' rhs')
      (.literal { i with type := binaryType op lhs'.type rhs'.type } (.number z))
  /-- A binary operation with an operand that fails. -/
  | binaryFailed {i : Info} {op : BinaryOp} {lhs lhs' rhs rhs' : Node} {a₁ a₂ : Analyzer}
    (hl : a.nodeIn inWith lhs = (a₁, lhs')) (hr : a₁.nodeIn inWith rhs = (a₂, rhs')) (hf : a₂.failed = true) :
    NodeWalk a inWith (.binary i op lhs rhs) a₂ (.binary i op lhs' rhs')
  /-- A unary operation that cannot be folded. -/
  | unary {i : Info} {op : UnaryOp} {operand operand' : Node} {a₁ : Analyzer}
    (ho : a.nodeIn inWith operand = (a₁, operand')) (hok : a₁.failed = false)
    (hfold : foldUnary? op operand' = none) :
    NodeWalk a inWith (.unary i op operand) (a₁.noteOperand op operand')
      (.unary { i with type := unaryType op } op operand')
  /-- A unary operation that can be folded. -/
  | unaryFolded {i : Info} {op : UnaryOp} {operand operand' : Node} {a₁ : Analyzer} {z : Number}
    (ho : a.nodeIn inWith operand = (a₁, operand')) (hok : a₁.failed = false)
    (hfold : foldUnary? op operand' = some z) :
    NodeWalk a inWith (.unary i op operand) (a₁.noteOperand op operand')
      (.literal { i with type := unaryType op } (.number z))
  /-- A unary operation with an operand that fails. -/
  | unaryFailed {i : Info} {op : UnaryOp} {operand operand' : Node} {a₁ : Analyzer}
    (ho : a.nodeIn inWith operand = (a₁, operand')) (hf : a₁.failed = true) :
    NodeWalk a inWith (.unary i op operand) a₁ (.unary i op operand')
  /-- An assignment to what can be assigned to. -/
  | assign {i : Info} {target target' value value' n' : Node} {a₁ a₂ a' : Analyzer}
    (htarget : isTarget target = true) (ht : a.nodeIn inWith target = (a₁, target'))
    (hv : a₁.nodeIn inWith value = (a₂, value'))
    (hend : (a₂.noteValue target'.identifier? (some value')).expression (.assign i target' value')
      value'.type = (a', n')) :
    NodeWalk a inWith (.assign i target value) a' n'
  /-- An assignment to something else. -/
  | assignFailed {i : Info} {target value : Node} (htarget : isTarget target = false) :
    NodeWalk a inWith (.assign i target value) (a.fail (.invalidTarget target.span))
      (.assign i (target.lowerIf inWith) (value.lowerIf inWith))
  /-- An object literal. -/
  | object {i : Info} {ps ps' : List (String × Node)} {a₁ a' : Analyzer} {n' : Node}
    (hp : a.propertiesIn inWith ps = (a₁, ps')) (hend : a₁.expression (.object i ps') .object = (a', n')) :
    NodeWalk a inWith (.object i ps) a' n'
  /-- A deletion. -/
  | delete {i : Info} {target target' n' : Node} {a₁ a' : Analyzer} (ht : a.nodeIn inWith target = (a₁, target'))
    (hend : a₁.expression (.delete i target') .bool = (a', n')) : NodeWalk a inWith (.delete i target) a' n'
  /-- A function: its name around it, and then its inside. -/
  | function {i : Info} {name name₁ : Option Identifier} {params : List Identifier} {body : List Node}
    {isDeclaration : Bool} {scope : Option ScopeId} {a₁ a' : Analyzer} {n' : Node}
    (hn : a.nameAround isDeclaration name i.span = (a₁, name₁)) (hok : a₁.failed = false)
    (hwithin : a₁.functionWithin inWith i name₁ params body isDeclaration = (a', n')) :
    NodeWalk a inWith (.function i name params body isDeclaration scope) a' n'
  /-- A function whose name cannot be bound. -/
  | functionFailed {i : Info} {name name₁ : Option Identifier} {params : List Identifier} {body : List Node}
    {isDeclaration : Bool} {scope : Option ScopeId} {a₁ : Analyzer}
    (hn : a.nameAround isDeclaration name i.span = (a₁, name₁)) (hf : a₁.failed = true) :
    NodeWalk a inWith (.function i name params body isDeclaration scope) a₁
      (.function i name₁ params (lowerAllIf inWith body) isDeclaration scope)
  /-- A variable statement: its name is bound before its value is walked. -/
  | var {i : Info} {binding binding' : Identifier} {init init' : Option Node} {a₁ a₂ a' : Analyzer} {n' : Node}
    (hb : a.define binding i.span = (a₁, binding')) (hi : a₁.nodeIn? inWith init = (a₂, init'))
    (hend : (a₂.noteValue (some binding') init').expression (.var i binding' init') .any = (a', n')) :
    NodeWalk a inWith (.var i binding init) a' n'
  /-- Returning. -/
  | ret {i : Info} {value value' : Option Node} {a₁ a' : Analyzer} {n' : Node}
    (hv : a.nodeIn? inWith value = (a₁, value')) (hend : a₁.expression (.ret i value') .any = (a', n')) :
    NodeWalk a inWith (.ret i value) a' n'
  /-- A conditional: its condition and both branches. -/
  | cond {i : Info} {condition condition' thenBranch thenBranch' n' : Node}
    {elseBranch elseBranch' : Option Node} {a₁ a₂ a₃ a' : Analyzer}
    (hc : a.nodeIn inWith condition = (a₁, condition'))
    (ht : a₁.nodeIn inWith thenBranch = (a₂, thenBranch')) (he : a₂.nodeIn? inWith elseBranch = (a₃, elseBranch'))
    (hend : a₃.expression (.cond i condition' thenBranch' elseBranch') .any = (a', n')) :
    NodeWalk a inWith (.cond i condition thenBranch elseBranch) a' n'
  /-- A loop. -/
  | loop {i : Info} {condition condition' body body' n' : Node} {a₁ a₂ a' : Analyzer}
    (hc : a.nodeIn inWith condition = (a₁, condition')) (hb : a₁.nodeIn inWith body = (a₂, body'))
    (hend : a₂.expression (.loop i condition' body') .any = (a', n')) :
    NodeWalk a inWith (.loop i condition body) a' n'
  /-- A block. -/
  | block {i : Info} {statements statements' : List Node} {a₁ a' : Analyzer} {n' : Node}
    (hs : a.nodesIn inWith statements = (a₁, statements'))
    (hend : a₁.expression (.block i statements') .any = (a', n')) : NodeWalk a inWith (.block i statements) a' n'
  /-- A `with` statement: its body is lowered, and then walked between two marks. -/
  | withObject {i : Info} {object object' body body' n' : Node} {a₁ a₂ a' : Analyzer}
    (ho : a.nodeIn inWith object = (a₁, object')) (hok : a₁.failed = false)
    (hb : a₁.enterWith.nodeIn true body = (a₂, body'))
    (hend : a₂.leaveWith.expression (.withObject i object' body') .any = (a', n')) :
    NodeWalk a inWith (.withObject i object body) a' n'
  /-- A `with` statement whose object fails. -/
  | withObjectFailed {i : Info} {object object' body : Node} {a₁ : Analyzer}
    (ho : a.nodeIn inWith object = (a₁, object')) (hf : a₁.failed = true) :
    NodeWalk a inWith (.withObject i object body) a₁ (.withObject i object' (body.lowerIf inWith))
  /-- Throwing. -/
  | throw {i : Info} {value value' n' : Node} {a₁ a' : Analyzer} (hv : a.nodeIn inWith value = (a₁, value'))
    (hend : a₁.expression (.throw i value') .any = (a', n')) : NodeWalk a inWith (.throw i value) a' n'
  /-- A handler without a name. -/
  | tryCatch {i : Info} {block block' handler handler' n' : Node} {a₁ a₂ a' : Analyzer}
    (hb : a.nodeIn inWith block = (a₁, block')) (hh : a₁.nodeIn inWith handler = (a₂, handler'))
    (hend : a₂.expression (.tryCatch i block' none handler') .any = (a', n')) :
    NodeWalk a inWith (.tryCatch i block none handler) a' n'
  /-- A handler with a name, in no `with` body of its function: it is walked while its binding is open. -/
  | handler {i : Info} {block block' handler handler' n' : Node} {x : Identifier} {a₁ a₂ a' : Analyzer}
    (hb : a.nodeIn inWith block = (a₁, block')) (hok : a₁.failed = false) (hzero : a₁.withDepth = 0)
    (hh : (a₁.openHandler x).nodeIn inWith handler = (a₂, handler'))
    (hend : (a₁.closeHandler a₂ x).expression (.tryCatch i block' (some (a₁.handlerName x)) handler') .any =
      (a', n')) :
    NodeWalk a inWith (.tryCatch i block (some x) handler) a' n'
  /-- A handler with a name behind a block that fails, or one whose name cannot be bound. -/
  | handlerFailed {i : Info} {block block' handler : Node} {x : Identifier} {a₁ a₂ : Analyzer}
    (hb : a.nodeIn inWith block = (a₁, block'))
    (hc : (if a₁.failed then a₁ else a₁.checkBindable x.name i.span) = a₂) (hf : a₂.failed = true) :
    NodeWalk a inWith (.tryCatch i block (some x) handler) a₂
      (.tryCatch i block' (some x) (handler.lowerIf inWith))

/-- **Walks go by the rules.** -/
theorem nodeWalk_of_nodeIn {inWith : Bool} (hf : a.failed = false) (h : a.nodeIn inWith n = (a', n')) :
    a.NodeWalk inWith n a' n' := by
  rw [nodeIn_eq hf] at h
  cases n with
  | literal i l =>
    cases h
    exact .literal i l
  | identifier i x =>
    simp only at h
    split at h
    · next huse =>
      cases h
      rw [Bool.and_eq_true, Bool.not_eq_true'] at huse
      exact .lowered i huse.1 huse.2
    · next hplain =>
      refine .identifier (fun hwith => ?_) h
      simpa [hwith] using hplain
  | dynamic i name =>
    cases h
    exact .dynamic i name
  | this i =>
    cases h
    exact .this i
  | call i target args => exact .call rfl rfl h
  | member i target name => exact .member rfl h
  | binary i op lhs rhs =>
    simp only at h
    split at h
    · next hf₂ =>
      cases h
      exact .binaryFailed rfl rfl hf₂
    · next hok =>
      split at h
      · next z hfold =>
        cases h
        exact .binaryFolded rfl rfl (Bool.eq_false_iff.mpr hok) hfold
      · next hfold =>
        cases h
        exact .binary rfl rfl (Bool.eq_false_iff.mpr hok) hfold
  | unary i op operand =>
    simp only at h
    split at h
    · next hf₁ =>
      cases h
      exact .unaryFailed rfl hf₁
    · next hok =>
      split at h
      · next z hfold =>
        cases h
        exact .unaryFolded rfl (Bool.eq_false_iff.mpr hok) hfold
      · next hfold =>
        cases h
        exact .unary rfl (Bool.eq_false_iff.mpr hok) hfold
  | assign i target value =>
    simp only at h
    split at h
    · next htarget => exact .assign htarget rfl rfl h
    · next htarget =>
      cases h
      exact .assignFailed (Bool.eq_false_iff.mpr htarget)
  | object i ps => exact .object rfl h
  | delete i target => exact .delete rfl h
  | function i name params body isDeclaration scope =>
    simp only at h
    split at h
    · next hf₁ =>
      cases h
      exact .functionFailed rfl hf₁
    · next hok => exact .function rfl (Bool.eq_false_iff.mpr hok) h
  | var i binding init => exact .var rfl rfl h
  | ret i value => exact .ret rfl h
  | cond i condition thenBranch elseBranch => exact .cond rfl rfl rfl h
  | loop i condition body => exact .loop rfl rfl h
  | block i statements => exact .block rfl h
  | withObject i object body =>
    simp only at h
    split at h
    · next hf₁ =>
      cases h
      exact .withObjectFailed rfl hf₁
    · next hok => exact .withObject rfl (Bool.eq_false_iff.mpr hok) rfl h
  | throw i value => exact .throw rfl h
  | tryCatch i block param handler =>
    cases param with
    | none => exact .tryCatch rfl rfl h
    | some x =>
      rcases hc : (if (a.nodeIn inWith block).1.failed then (a.nodeIn inWith block).1
        else (a.nodeIn inWith block).1.checkBindable x.name i.span) with a₂
      simp only [hc] at h
      split at h
      · next hf₂ =>
        cases h
        exact .handlerFailed rfl hc hf₂
      · next hok₂ =>
        -- Neither the block has failed nor the check of the name, which then has changed nothing.
        split at hc
        · next hf₁ => exact absurd (hc ▸ hf₁) hok₂
        · next hok₁ =>
          obtain hfail | ⟨hzero, hsame⟩ := (a.nodeIn inWith block).1.checkBindable_eq x.name i.span
          · exact absurd (hc ▸ hfail) hok₂
          · obtain rfl : (a.nodeIn inWith block).1 = a₂ := hsame.symm.trans hc
            exact .handler rfl (Bool.eq_false_iff.mpr hok₁) hzero rfl h

/-- **The rules are those of walks.** -/
theorem NodeWalk.nodeIn {inWith : Bool} (h : a.NodeWalk inWith n a' n') (hf : a.failed = false) :
    a.nodeIn inWith n = (a', n') := by
  rw [nodeIn_eq hf]
  cases h with
  | literal | dynamic | this => rfl
  | lowered i hwith hx => simp only [hwith, hx, Bool.not_false, Bool.and_self, if_true]
  | identifier hplain h =>
    have hnot : ¬((inWith && !Identifier.isDefinition _) = true) := fun huse => by
      rw [Bool.and_eq_true] at huse
      rw [hplain huse.1] at huse
      cases huse.2
    exact (if_neg hnot).trans h
  | member h hend | object h hend | delete h hend | ret h hend | block h hend | throw h hend =>
    simp only [h]
    exact hend
  | call h h' hend | loop h h' hend | tryCatch h h' hend | var h h' hend =>
    simp only [h, h']
    exact hend
  | cond hc ht he hend =>
    simp only [hc, ht, he]
    exact hend
  | binary hl hr hok hfold | binaryFolded hl hr hok hfold =>
    simp only [hl, hr, hok, hfold]
    rfl
  | binaryFailed hl hr hf₂ => simp only [hl, hr, hf₂, if_true]
  | unary ho hok hfold | unaryFolded ho hok hfold =>
    simp only [ho, hok, hfold]
    rfl
  | unaryFailed ho hf₁ => simp only [ho, hf₁, if_true]
  | assign htarget ht hv hend =>
    simp only [htarget, if_true, ht, hv]
    exact hend
  | assignFailed htarget => simp only [htarget, Bool.false_eq_true, if_false]
  | function hn hok hwithin => simp only [hn, hok, Bool.false_eq_true, if_false, hwithin]
  | functionFailed hn hf₁ => simp only [hn, hf₁, if_true]
  | withObject ho hok hb hend => simp only [ho, hok, Bool.false_eq_true, if_false, hb, hend]
  | withObjectFailed ho hf₁ => simp only [ho, hf₁, if_true]
  | @handler i block block' _ _ _ x a₁ _ _ hb hok hzero hh hend =>
    have hsame : a₁.checkBindable x.name i.span = a₁ := by rw [checkBindable, if_neg (by omega)]
    simp only [hb, hok, Bool.false_eq_true, if_false, hsame, hh, hend]
  | handlerFailed hb hc hf₂ => simp only [hb, hc, hf₂, if_true]

end Analyzer

end ScriptEngine
