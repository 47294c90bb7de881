import ScriptEngine.Syntax.Node
import ScriptEngine.Text.Quoted

/-!
# Listings of syntax trees

A tree is listed with one node per line, each level indented by two more blanks. A name shows how it
was resolved: `>` in front of a definition, `$` in front of a global, `!` behind a variable that may
be deleted and `^` behind one that is closed over.
-/

namespace ScriptEngine

/-- What a listing shows about a resolved variable. -/
structure VarSummary where
  /-- The variable is a property of the global object. -/
  isGlobal : Bool := false
  /-- The variable may be deleted. -/
  isDeletable : Bool := false
  /-- Some inner function uses the variable. -/
  isClosedOver : Bool := false
  deriving DecidableEq, Repr, Inhabited

/-- One line of a listing. -/
structure ListingLine where
  /-- How many levels the line is indented. -/
  depth : Nat
  /-- What the line says. -/
  text : String

/-- Appends a line to a text. -/
def ListingLine.appendTo (out : String) (line : ListingLine) : String :=
  line.depth.fold (fun _ _ out => out ++ "  ") out ++ line.text ++ "\n"

namespace Listing

/-- How a literal is written. -/
def literalText : Literal → String
  | .string s => Text.quoted s
  | l => l.toValue.toText

/-- The line of a name. -/
def identifierLine (summary : VarId → Option VarSummary) (depth : Nat) (x : Identifier)
    (type : ValueType) : ListingLine :=
  let s := (x.var.bind summary).getD {}
  let definition := if x.isDefinition then ">" else ""
  let isGlobal := if s.isGlobal then "$" else ""
  let deletable := if s.isDeletable then "!" else ""
  let closedOver := if s.isClosedOver then "^" else ""
  ⟨depth, s!"({definition}{isGlobal}{x.name}{deletable}{closedOver} {type.shortName})"⟩

mutual

/-- Appends the lines of a node and of everything below it. -/
def node (summary : VarId → Option VarSummary) (depth : Nat) (out : Array ListingLine) :
    Node → Array ListingLine
  | .literal i l => out.push ⟨depth, s!"(literal {literalText l} {i.type.shortName})"⟩
  | .identifier i x => out.push (identifierLine summary depth x i.type)
  | .dynamic i name => out.push ⟨depth, s!"(dynamic {name} {i.type.shortName})"⟩
  | .this i => out.push ⟨depth, s!"(this {i.type.shortName})"⟩
  | .call i target args =>
    let out := out.push ⟨depth, s!"(call {i.type.shortName})"⟩
    nodes summary (depth + 1) (node summary (depth + 1) out target) args
  | .member i target name =>
    node summary (depth + 1) (out.push ⟨depth, s!"(member .{name} {i.type.shortName})"⟩) target
  | .binary i op lhs rhs =>
    let out := out.push ⟨depth, s!"(binary {op.symbol} {i.type.shortName})"⟩
    node summary (depth + 1) (node summary (depth + 1) out lhs) rhs
  | .unary i op operand =>
    node summary (depth + 1) (out.push ⟨depth, s!"(unary {op.symbol} {i.type.shortName})"⟩) operand
  | .assign i target value =>
    let out := out.push ⟨depth, s!"(assign {i.type.shortName})"⟩
    node summary (depth + 1) (node summary (depth + 1) out target) value
  | .function _ name params body isDeclaration _ =>
    let out := out.push ⟨depth, s!"(function {functionName name})"⟩
    let out := match isDeclaration, name with
      | true, some x => out.push (identifierLine summary (depth + 1) x .function)
      | _, _ => out
    let out := params.foldl (fun out x => out.push (identifierLine summary (depth + 1) x .any)) out
    nodes summary (depth + 1) out body
  | .object i ps =>
    properties summary (depth + 1) (out.push ⟨depth, s!"(object {i.type.shortName})"⟩) ps
  | .delete i target =>
    node summary (depth + 1) (out.push ⟨depth, s!"(delete {i.type.shortName})"⟩) target
  | .var _ binding init =>
    let type := (init.map Node.type).getD .undefined
    let out := out.push ⟨depth, "(var)"⟩
    node? summary (depth + 1) (out.push (identifierLine summary (depth + 1) binding type)) init
  | .ret _ value => node? summary (depth + 1) (out.push ⟨depth, "(return)"⟩) value
  | .cond _ condition thenBranch elseBranch =>
    let out := node summary (depth + 1) (out.push ⟨depth, "(if)"⟩) condition
    node? summary (depth + 1) (node summary (depth + 1) out thenBranch) elseBranch
  | .loop _ condition body =>
    let out := node summary (depth + 1) (out.push ⟨depth, "(while)"⟩) condition
    node summary (depth + 1) out body
  | .block _ statements => nodes summary (depth + 1) (out.push ⟨depth, "(block)"⟩) statements
  | .withObject _ object body =>
    let out := node summary (depth + 1) (out.push ⟨depth, "(with)"⟩) object
    node summary (depth + 1) out body
  | .throw _ value => node summary (depth + 1) (out.push ⟨depth, "(throw)"⟩) value
  | .tryCatch _ block param handler =>
    let out := node summary (depth + 1) (out.push ⟨depth, "(try)"⟩) block
    let out := match param with
      | some x => out.push (identifierLine summary (depth + 1) x .any)
      | none => out
    node summary (depth + 1) out handler

/-- Appends the lines of the nodes of a list, one after the other. -/
def nodes (summary : VarId → Option VarSummary) (depth : Nat) (out : Array ListingLine) :
    List Node → Array ListingLine
  | [] => out
  | n :: rest => nodes summary depth (node summary depth out n) rest

/-- Appends the lines of a node that may be missing. -/
def node? (summary : VarId → Option VarSummary) (depth : Nat) (out : Array ListingLine) :
    Option Node → Array ListingLine
  | none => out
  | some n => node summary depth out n

/-- Appends the lines of the properties of an object. -/
def properties (summary : VarId → Option VarSummary) (depth : Nat) (out : Array ListingLine) :
    List (String × Node) → Array ListingLine
  | [] => out
  | (name, value) :: rest =>
    let out := out.push ⟨depth, s!"(property {name})"⟩
    properties summary depth (node summary (depth + 1) out value) rest

end

end Listing

/-- The listing of a list of nodes, with what is known about their variables. -/
def listing (summary : VarId → Option VarSummary) (body : List Node) : String :=
  (Listing.nodes summary 0 #[] body).foldl ListingLine.appendTo ""

end ScriptEngine
