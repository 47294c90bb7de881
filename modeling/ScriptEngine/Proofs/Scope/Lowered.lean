import ScriptEngine.Analysis

/-!
# What lowering leaves

Lowering changes the uses of names and nothing else. What a node carries and the names that it binds stay, and
what has been lowered is lowered to itself.

A walk meets the nodes of a `with` body after they have been lowered, and all other nodes as they are. So
`Node.lowerIf` is the node that a walk meets, in a `with` body or outside of one, and what holds of lowering
holds of it.
-/

namespace ScriptEngine

/-! ## Lowering -/

mutual

/-- What has been lowered is lowered to itself. -/
theorem Node.lower_lower : ∀ n : Node, n.lower.lower = n.lower
  | .identifier i x => by
    rw [Node.lower]
    split
    · next hx => rw [Node.lower, if_pos hx]
    · rw [Node.lower]
  | .call i target args => by simp only [Node.lower, Node.lower_lower target, lowerAll_lowerAll args]
  | .member i target name => by simp only [Node.lower, Node.lower_lower target]
  | .binary i op lhs rhs => by simp only [Node.lower, Node.lower_lower lhs, Node.lower_lower rhs]
  | .unary i op operand => by simp only [Node.lower, Node.lower_lower operand]
  | .assign i target value => by simp only [Node.lower, Node.lower_lower target, Node.lower_lower value]
  | .function i name params body d s => by simp only [Node.lower, lowerAll_lowerAll body]
  | .object i ps => by simp only [Node.lower, lowerProperties_lowerProperties ps]
  | .delete i target => by simp only [Node.lower, Node.lower_lower target]
  | .var i binding init => by simp only [Node.lower, lower?_lower? init]
  | .ret i value => by simp only [Node.lower, lower?_lower? value]
  | .cond i c t e => by simp only [Node.lower, Node.lower_lower c, Node.lower_lower t, lower?_lower? e]
  | .loop i condition body => by simp only [Node.lower, Node.lower_lower condition, Node.lower_lower body]
  | .block i statements => by simp only [Node.lower, lowerAll_lowerAll statements]
  | .withObject i object body => by simp only [Node.lower, Node.lower_lower object, Node.lower_lower body]
  | .throw i value => by simp only [Node.lower, Node.lower_lower value]
  | .tryCatch i block param handler => by
    simp only [Node.lower, Node.lower_lower block, Node.lower_lower handler]
  | .literal i l => rfl
  | .dynamic i name => rfl
  | .this i => rfl

/-- Lists that have been lowered. -/
theorem lowerAll_lowerAll : ∀ ns : List Node, lowerAll (lowerAll ns) = lowerAll ns
  | [] => rfl
  | n :: rest => by simp only [lowerAll, n.lower_lower, lowerAll_lowerAll rest]

/-- Properties that have been lowered. -/
theorem lowerProperties_lowerProperties : ∀ ps : List (String × Node),
    lowerProperties (lowerProperties ps) = lowerProperties ps
  | [] => rfl
  | (name, value) :: rest => by
    simp only [lowerProperties, value.lower_lower, lowerProperties_lowerProperties rest]

/-- Nodes that may be missing and have been lowered. -/
theorem lower?_lower? : ∀ n : Option Node, lower? (lower? n) = lower? n
  | none => rfl
  | some n => by simp only [lower?, n.lower_lower]

end

mutual

/-- Lowering changes no name that is bound. -/
theorem Node.hoistedNames_lower : ∀ (n : Node) (names : Array String),
    n.lower.hoistedNames names = n.hoistedNames names
  | .identifier i x, names => by
    rw [Node.lower]
    split
    · rfl
    · rfl
  | .cond i c t e, names => by
    rw [Node.lower, Node.hoistedNames, Node.hoistedNames, t.hoistedNames_lower, hoistedNamesOf?_lower? e]
  | .loop i condition body, names => by
    rw [Node.lower, Node.hoistedNames, Node.hoistedNames, body.hoistedNames_lower]
  | .block i statements, names => by
    rw [Node.lower, Node.hoistedNames, Node.hoistedNames, hoistedNamesOf_lowerAll statements]
  | .tryCatch i block param handler, names => by
    rw [Node.lower, Node.hoistedNames, Node.hoistedNames, block.hoistedNames_lower, handler.hoistedNames_lower]
  | .literal .., _ | .dynamic .., _ | .this .., _ | .call .., _ | .member .., _ | .binary .., _ | .unary .., _
  | .assign .., _ | .function .., _ | .object .., _ | .delete .., _ | .var .., _ | .ret .., _
  | .withObject .., _ | .throw .., _ => rfl

/-- Nor does lowering a list. -/
theorem hoistedNamesOf_lowerAll : ∀ (ns : List Node) (names : Array String),
    hoistedNamesOf names (lowerAll ns) = hoistedNamesOf names ns
  | [], names => rfl
  | n :: rest, names => by
    rw [lowerAll, hoistedNamesOf, hoistedNamesOf, n.hoistedNames_lower, hoistedNamesOf_lowerAll rest]

/-- Nor does lowering a node that may be missing. -/
theorem hoistedNamesOf?_lower? : ∀ (n : Option Node) (names : Array String),
    hoistedNamesOf? names (lower? n) = hoistedNamesOf? names n
  | none, _ => rfl
  | some n, names => n.hoistedNames_lower names

end

/-- What a node carries besides its parts stays. -/
theorem Node.info_lower (n : Node) : n.lower.info = n.info := by
  cases n with
  | identifier i x =>
    rw [lower]
    split
    · rfl
    · rfl
  | _ => rfl

/-- What can be assigned to can be assigned to. -/
theorem Analyzer.isTarget_lower (n : Node) : isTarget n.lower = isTarget n := by
  cases n with
  | identifier i x =>
    rw [Node.lower]
    split
    · rfl
    · rfl
  | _ => rfl

/-! ## In a `with` body or outside of one -/

/-- The node as a walk meets it: lowered in a `with` body. -/
def Node.lowerIf (inWith : Bool) (n : Node) : Node := bif inWith then n.lower else n

/-- The nodes as a walk meets them. -/
def lowerAllIf (inWith : Bool) (ns : List Node) : List Node := bif inWith then lowerAll ns else ns

/-- The properties as a walk meets them. -/
def lowerPropertiesIf (inWith : Bool) (ps : List (String × Node)) : List (String × Node) :=
  bif inWith then lowerProperties ps else ps

/-- A node that may be missing, as a walk meets it. -/
def lower?If (inWith : Bool) (n : Option Node) : Option Node := bif inWith then lower? n else n

section

variable (inWith : Bool)

/-- What is met has been lowered. -/
theorem Node.lowerIf_lowerIf (n : Node) : (n.lowerIf inWith).lowerIf inWith = n.lowerIf inWith := by
  cases inWith with
  | true => exact n.lower_lower
  | false => rfl

/-- So have all nodes. -/
theorem lowerAllIf_lowerAllIf (ns : List Node) :
    lowerAllIf inWith (lowerAllIf inWith ns) = lowerAllIf inWith ns := by
  cases inWith with
  | true => exact lowerAll_lowerAll ns
  | false => rfl

/-- Lowering comes to the same, whatever is met. -/
theorem Node.lower_lowerIf (n : Node) : (n.lowerIf inWith).lower = n.lower := by
  cases inWith with
  | true => exact n.lower_lower
  | false => rfl

/-- The names that are bound are the same. -/
theorem Node.hoistedNames_lowerIf (n : Node) (names : Array String) :
    (n.lowerIf inWith).hoistedNames names = n.hoistedNames names := by
  cases inWith with
  | true => exact n.hoistedNames_lower names
  | false => rfl

/-- So are those of a list. -/
theorem hoistedNames_lowerAllIf (ns : List Node) : hoistedNames (lowerAllIf inWith ns) = hoistedNames ns := by
  cases inWith with
  | true => exact hoistedNamesOf_lowerAll ns #[]
  | false => rfl

/-- The node is written where it was. -/
theorem Node.span_lowerIf (n : Node) : (n.lowerIf inWith).span = n.span := by
  cases inWith with
  | true => exact congrArg Info.span n.info_lower
  | false => rfl

/-- What can be assigned to can be assigned to. -/
theorem Analyzer.isTarget_lowerIf (n : Node) : isTarget (n.lowerIf inWith) = isTarget n := by
  cases inWith with
  | true => exact isTarget_lower n
  | false => rfl

end

end ScriptEngine
