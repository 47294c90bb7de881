import ScriptEngine.Syntax.Node

/-!
# Hoisting

The names that variable statements and function declarations bind are known in the whole function
around them, before the statement as well as behind it. They are found by a walk that enters nested
statements, but neither functions nor the bodies of `with` statements.
-/

namespace ScriptEngine

mutual

/-- Appends the names that a statement binds in the function around it. -/
def Node.hoistedNames (names : Array String) : Node → Array String
  | .var _ binding _ => names.push binding.name
  | .function _ name _ _ isDeclaration _ =>
    match isDeclaration, name with
    | true, some x => names.push x.name
    | _, _ => names
  | .block _ statements => hoistedNamesOf names statements
  | .cond _ _ thenBranch elseBranch =>
    hoistedNamesOf? (thenBranch.hoistedNames names) elseBranch
  | .loop _ _ body => body.hoistedNames names
  | .tryCatch _ block _ handler => handler.hoistedNames (block.hoistedNames names)
  | _ => names

/-- Appends the names that the statements of a body bind in the function around them. -/
def hoistedNamesOf (names : Array String) : List Node → Array String
  | [] => names
  | n :: rest => hoistedNamesOf (n.hoistedNames names) rest

/-- Appends the names that a statement, if there is one, binds in the function around it. -/
def hoistedNamesOf? (names : Array String) : Option Node → Array String
  | none => names
  | some n => n.hoistedNames names

end

/-- The names that a body binds, in source order; a name bound twice stands there twice. -/
def hoistedNames (body : List Node) : Array String :=
  hoistedNamesOf #[] body

end ScriptEngine
