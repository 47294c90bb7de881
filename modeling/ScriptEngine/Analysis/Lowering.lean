import ScriptEngine.Syntax.Node

/-!
# Names in the body of a `with` statement

Whether a name there means a property of the object is known only while the program runs. So every
name that is used in the body, also in functions inside it, becomes one that is looked up along the
chain of environments. Names that are bound stay what they are.

No node is added or left out by this, so that the size of a node stays (`Node.size_lower`).
-/

namespace ScriptEngine

mutual

/-- The node with every use of a name looked up at run time. -/
def Node.lower : Node → Node
  | .identifier i x => if x.isDefinition then .identifier i x else .dynamic i x.name
  | .call i target args => .call i target.lower (lowerAll args)
  | .member i target name => .member i target.lower name
  | .binary i op lhs rhs => .binary i op lhs.lower rhs.lower
  | .unary i op operand => .unary i op operand.lower
  | .assign i target value => .assign i target.lower value.lower
  | .function i name params body isDeclaration scope =>
    .function i name params (lowerAll body) isDeclaration scope
  | .object i properties => .object i (lowerProperties properties)
  | .delete i target => .delete i target.lower
  | .var i binding init => .var i binding (lower? init)
  | .ret i value => .ret i (lower? value)
  | .cond i condition thenBranch elseBranch =>
    .cond i condition.lower thenBranch.lower (lower? elseBranch)
  | .loop i condition body => .loop i condition.lower body.lower
  | .block i statements => .block i (lowerAll statements)
  | .withObject i object body => .withObject i object.lower body.lower
  | .throw i value => .throw i value.lower
  | .tryCatch i block param handler => .tryCatch i block.lower param handler.lower
  | .literal i l => .literal i l
  | .dynamic i name => .dynamic i name
  | .this i => .this i

/-- The nodes with every use of a name looked up at run time. -/
def lowerAll : List Node → List Node
  | [] => []
  | n :: rest => n.lower :: lowerAll rest

/-- The properties with every use of a name looked up at run time. -/
def lowerProperties : List (String × Node) → List (String × Node)
  | [] => []
  | (name, value) :: rest => (name, value.lower) :: lowerProperties rest

/-- A node that may be missing, with every use of a name looked up at run time. -/
def lower? : Option Node → Option Node
  | none => none
  | some n => some n.lower

end

/-! ## The size of a node -/

mutual

/-- How many nodes there are in a node, and places in its lists. -/
@[simp]
def Node.size : Node → Nat
  | .literal .. | .identifier .. | .dynamic .. | .this _ => 1
  | .call _ target args => target.size + sizeAll args + 1
  | .member _ target _ | .delete _ target => target.size + 1
  | .binary _ _ lhs rhs => lhs.size + rhs.size + 1
  | .unary _ _ operand => operand.size + 1
  | .assign _ target value => target.size + value.size + 1
  | .function _ _ _ body _ _ => sizeAll body + 1
  | .object _ properties => sizeProperties properties + 1
  | .var _ _ init => size? init + 1
  | .ret _ value => size? value + 1
  | .cond _ condition thenBranch elseBranch => condition.size + thenBranch.size + size? elseBranch + 1
  | .loop _ condition body => condition.size + body.size + 1
  | .block _ statements => sizeAll statements + 1
  | .withObject _ object body => object.size + body.size + 1
  | .throw _ value => value.size + 1
  | .tryCatch _ block _ handler => block.size + handler.size + 1

/-- How many there are in the nodes of a list. -/
@[simp]
def sizeAll : List Node → Nat
  | [] => 0
  | n :: rest => n.size + sizeAll rest + 1

/-- How many there are in the values of properties. -/
@[simp]
def sizeProperties : List (String × Node) → Nat
  | [] => 0
  | (_, value) :: rest => value.size + sizeProperties rest + 1

/-- How many there are in a node that may be missing. -/
@[simp]
def size? : Option Node → Nat
  | none => 0
  | some n => n.size + 1

end

mutual

/-- **Lowering keeps the size.** -/
@[simp]
theorem Node.size_lower : ∀ n : Node, n.lower.size = n.size
  | .identifier i x => by
    rw [Node.lower]
    split
    · rfl
    · rfl
  | .literal .. | .dynamic .. | .this _ => rfl
  | .call _ target args => by simp only [Node.lower, Node.size, target.size_lower, sizeAll_lowerAll args]
  | .member _ target _ | .delete _ target => by simp only [Node.lower, Node.size, target.size_lower]
  | .binary _ _ lhs rhs => by simp only [Node.lower, Node.size, lhs.size_lower, rhs.size_lower]
  | .unary _ _ operand => by simp only [Node.lower, Node.size, operand.size_lower]
  | .assign _ target value => by simp only [Node.lower, Node.size, target.size_lower, value.size_lower]
  | .function _ _ _ body _ _ => by simp only [Node.lower, Node.size, sizeAll_lowerAll body]
  | .object _ ps => by simp only [Node.lower, Node.size, sizeProperties_lowerProperties ps]
  | .var _ _ init => by simp only [Node.lower, Node.size, size?_lower? init]
  | .ret _ value => by simp only [Node.lower, Node.size, size?_lower? value]
  | .cond _ c t e => by simp only [Node.lower, Node.size, c.size_lower, t.size_lower, size?_lower? e]
  | .loop _ condition body => by simp only [Node.lower, Node.size, condition.size_lower, body.size_lower]
  | .block _ statements => by simp only [Node.lower, Node.size, sizeAll_lowerAll statements]
  | .withObject _ object body => by simp only [Node.lower, Node.size, object.size_lower, body.size_lower]
  | .throw _ value => by simp only [Node.lower, Node.size, value.size_lower]
  | .tryCatch _ block _ handler => by simp only [Node.lower, Node.size, block.size_lower, handler.size_lower]

/-- So does lowering the nodes of a list. -/
theorem sizeAll_lowerAll : ∀ ns : List Node, sizeAll (lowerAll ns) = sizeAll ns
  | [] => rfl
  | n :: rest => by simp only [lowerAll, sizeAll, n.size_lower, sizeAll_lowerAll rest]

/-- So does lowering properties. -/
theorem sizeProperties_lowerProperties :
    ∀ ps : List (String × Node), sizeProperties (lowerProperties ps) = sizeProperties ps
  | [] => rfl
  | (_, value) :: rest => by
    simp only [lowerProperties, sizeProperties, value.size_lower, sizeProperties_lowerProperties rest]

/-- So does lowering a node that may be missing. -/
theorem size?_lower? : ∀ n : Option Node, size? (lower? n) = size? n
  | none => rfl
  | some n => by simp only [lower?, size?, n.size_lower]

end

end ScriptEngine
