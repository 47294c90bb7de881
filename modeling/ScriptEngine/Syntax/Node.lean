import ScriptEngine.Span
import ScriptEngine.Value
import ScriptEngine.Syntax.Operator

/-!
# Syntax trees

A program is a list of nodes. One type holds expressions and statements alike, because the language
lets a tree put any node anywhere and says only later, in code generation, where a value is needed.

Analysis rewrites a tree: it fills in which variable a name stands for and which scope a function
has, narrows the types, folds constants and marks names that are looked up while the program runs.
-/

namespace ScriptEngine

/-- The number of a scope in a scope table. -/
structure ScopeId where
  /-- Position in the table. -/
  index : Nat
  deriving DecidableEq, Repr, Hashable, Inhabited

/-- The number of a variable in a scope table. -/
structure VarId where
  /-- Position in the table. -/
  index : Nat
  deriving DecidableEq, Repr, Hashable, Inhabited

/-- The scope of the program itself: always the first one. -/
def ScopeId.global : ScopeId := ⟨0⟩

/-- A constant written in the program. -/
inductive Literal where
  /-- The undefined value. -/
  | undefined
  /-- The null value. -/
  | null
  /-- A truth value. -/
  | bool (b : Bool)
  /-- A number. -/
  | number (n : Number)
  /-- A piece of text. -/
  | string (s : String)
  deriving DecidableEq

namespace Literal

/-- The value that the literal stands for. -/
def toValue : Literal → Value
  | undefined => .undefined
  | null => .null
  | bool b => .bool b
  | number n => .number n
  | string s => .string s

/-- The type of the literal's value. -/
def type (l : Literal) : ValueType :=
  l.toValue.type

end Literal

/-- A name where it is bound or used. -/
structure Identifier where
  /-- The name. -/
  name : String
  /-- Whether the name is bound here: by a parameter, a variable statement, a function declaration
  or a catch clause. -/
  isDefinition : Bool
  /-- The variable that the name stands for, once analysis has found it. -/
  var : Option VarId
  deriving DecidableEq

namespace Identifier

/-- A name that is used. -/
def reference (name : String) : Identifier := ⟨name, false, none⟩

/-- A name that is bound. -/
def definition (name : String) : Identifier := ⟨name, true, none⟩

end Identifier

/-- What every node carries besides its parts. -/
structure Info where
  /-- Where the node is written. -/
  span : Span
  /-- What is known about the value of the node. -/
  type : ValueType
  deriving DecidableEq, Inhabited

/-- Nothing is known. -/
def Info.none : Info := ⟨Span.none, .any⟩

/-- A node of a syntax tree. -/
inductive Node where
  /-- A constant. -/
  | literal (info : Info) (value : Literal)
  /-- A name that analysis resolves. -/
  | identifier (info : Info) (ident : Identifier)
  /-- A name that is looked up along the chain of environments while the program runs. -/
  | dynamic (info : Info) (name : String)
  /-- The receiver of the running function. -/
  | this (info : Info)
  /-- A call. -/
  | call (info : Info) (target : Node) (args : List Node)
  /-- A property of an object, by its name. -/
  | member (info : Info) (target : Node) (name : String)
  /-- A binary operation. -/
  | binary (info : Info) (op : BinaryOp) (lhs rhs : Node)
  /-- A unary operation. -/
  | unary (info : Info) (op : UnaryOp) (operand : Node)
  /-- An assignment. -/
  | assign (info : Info) (target value : Node)
  /-- A function, with its own scope once analysis has made one. A declaration binds its name around
  it; any other function is an expression. -/
  | function (info : Info) (name : Option Identifier) (params : List Identifier) (body : List Node)
      (isDeclaration : Bool) (scope : Option ScopeId)
  /-- An object with the listed properties. -/
  | object (info : Info) (properties : List (String × Node))
  /-- Removal of a property or variable. -/
  | delete (info : Info) (target : Node)
  /-- A variable statement. -/
  | var (info : Info) (binding : Identifier) (init : Option Node)
  /-- Return from a function. -/
  | ret (info : Info) (value : Option Node)
  /-- A conditional statement. -/
  | cond (info : Info) (condition thenBranch : Node) (elseBranch : Option Node)
  /-- A loop that tests its condition first. -/
  | loop (info : Info) (condition body : Node)
  /-- Statements in sequence. -/
  | block (info : Info) (statements : List Node)
  /-- A statement in which the properties of an object are names. -/
  | withObject (info : Info) (object body : Node)
  /-- Raising a value. -/
  | throw (info : Info) (value : Node)
  /-- A statement and the handler of what it raises. -/
  | tryCatch (info : Info) (block : Node) (param : Option Identifier) (handler : Node)

/-- The name of a function that has none. -/
def anonymousName : String := "<anonymous>"

/-- The kinds of nodes. -/
inductive NodeKind where
  /-- A constant. -/
  | literal
  /-- A resolved name. -/
  | identifier
  /-- A name looked up at run time. -/
  | dynamic
  /-- The receiver. -/
  | this
  /-- A call. -/
  | call
  /-- A property. -/
  | member
  /-- A binary operation. -/
  | binary
  /-- A unary operation. -/
  | unary
  /-- An assignment. -/
  | assign
  /-- A function. -/
  | function
  /-- An object. -/
  | object
  /-- A removal. -/
  | delete
  /-- A variable statement. -/
  | var
  /-- A return statement. -/
  | ret
  /-- A conditional statement. -/
  | cond
  /-- A loop. -/
  | loop
  /-- A sequence of statements. -/
  | block
  /-- A statement with an object's properties in scope. -/
  | withObject
  /-- A throw statement. -/
  | throw
  /-- A try statement. -/
  | tryCatch
  deriving DecidableEq, Repr

/-- What messages call a node of the kind. -/
def NodeKind.name : NodeKind → String
  | literal => "literal"
  | identifier => "identifier"
  | dynamic => "dynamic"
  | this => "this"
  | call => "call"
  | member => "member"
  | binary => "binary"
  | unary => "unary"
  | assign => "assign"
  | function => "function"
  | object => "object"
  | delete => "delete"
  | var => "var"
  | ret => "return"
  | cond => "if"
  | loop => "while"
  | block => "block"
  | withObject => "with"
  | throw => "throw"
  | tryCatch => "try"

namespace Node

instance : Inhabited Node := ⟨literal .none .undefined⟩

/-- A literal with the type of its value. -/
def ofLiteral (l : Literal) : Node :=
  literal ⟨Span.none, l.type⟩ l

/-- What the node carries besides its parts. -/
def info : Node → Info
  | literal i _ | identifier i _ | dynamic i _ | this i | call i _ _ | member i _ _
  | binary i _ _ _ | unary i _ _ | assign i _ _ | function i _ _ _ _ _ | object i _ | delete i _
  | var i _ _ | ret i _ | cond i _ _ _ | loop i _ _ | block i _ | withObject i _ _ | throw i _
  | tryCatch i _ _ _ => i

/-- Where the node is written. -/
def span (n : Node) : Span := n.info.span

/-- What is known about the value of the node. -/
def type (n : Node) : ValueType := n.info.type

/-- The node with other accompanying information. -/
def setInfo (n : Node) (i : Info) : Node :=
  match n with
  | literal _ l => literal i l
  | identifier _ x => identifier i x
  | dynamic _ x => dynamic i x
  | this _ => this i
  | call _ f args => call i f args
  | member _ t x => member i t x
  | binary _ op l r => binary i op l r
  | unary _ op x => unary i op x
  | assign _ t v => assign i t v
  | function _ name params body d s => function i name params body d s
  | object _ ps => object i ps
  | delete _ t => delete i t
  | var _ x init => var i x init
  | ret _ v => ret i v
  | cond _ c t e => cond i c t e
  | loop _ c b => loop i c b
  | block _ ss => block i ss
  | withObject _ o b => withObject i o b
  | throw _ v => throw i v
  | tryCatch _ b p h => tryCatch i b p h

/-- The node, written at the given place. -/
def located (n : Node) (span : Span) : Node :=
  n.setInfo { n.info with span }

/-- The kind of the node. -/
def kind : Node → NodeKind
  | literal .. => .literal
  | identifier .. => .identifier
  | dynamic .. => .dynamic
  | this .. => .this
  | call .. => .call
  | member .. => .member
  | binary .. => .binary
  | unary .. => .unary
  | assign .. => .assign
  | function .. => .function
  | object .. => .object
  | delete .. => .delete
  | var .. => .var
  | ret .. => .ret
  | cond .. => .cond
  | loop .. => .loop
  | block .. => .block
  | withObject .. => .withObject
  | throw .. => .throw
  | tryCatch .. => .tryCatch

/-- Whether the node has a value. Of the functions those that are no declarations have one. -/
def isExpression : Node → Bool
  | function _ _ _ _ isDeclaration _ => !isDeclaration
  | var .. | ret .. | cond .. | loop .. | block .. | withObject .. | throw .. | tryCatch .. => false
  | _ => true

/-- The identifier, for a node that is one. -/
def identifier? : Node → Option Identifier
  | identifier _ x => some x
  | _ => none

/-- The number, for a node that is a literal number. -/
def number? : Node → Option Number
  | literal _ (.number n) => some n
  | _ => none

/-- The literal, for a node that is one. -/
def literal? : Node → Option Literal
  | literal _ l => some l
  | _ => none

end Node

/-- The name of a function in listings and messages. -/
def functionName (name : Option Identifier) : String :=
  (name.map Identifier.name).getD anonymousName

/-- A program: its statements, and what analysis has said about it as a whole. -/
structure Program where
  /-- The statements. -/
  body : List Node
  /-- The program's own scope, once analysis has made one. -/
  scope : Option ScopeId := none
  /-- Whether analysis has been through the whole tree. -/
  analyzed : Bool := false
  deriving Inhabited

end ScriptEngine
