import ScriptEngine.Error
import ScriptEngine.Scope.Layout
import ScriptEngine.Analysis.Hoisting
import ScriptEngine.Analysis.Lowering
import ScriptEngine.Analysis.Folding

/-!
# Analysis

One walk over a program, from the top down, that fills the scope table and rewrites the tree:

* every name gets the variable it stands for, and functions get their scopes;
* the bodies of `with` statements are lowered before they are walked: names there are looked up at run time;
* the uses of variables and the types assigned to them are noted, and expressions get types;
* arithmetic on literal numbers is folded.

An analyzer that has failed changes nothing any more, neither its table nor the tree. So a failure
leaves the part of the tree that was walked before it changed and the rest as it was.
-/

namespace ScriptEngine

/-- The state of an analysis. -/
structure Analyzer where
  /-- The scopes and variables found so far. -/
  table : ScopeTable := .empty
  /-- The scope of the function that is being walked. -/
  scope : ScopeId := .global
  /-- How many `with` bodies of that function are around. -/
  withDepth : Nat := 0
  /-- How many `with` bodies of any function are around. -/
  loweredDepth : Nat := 0
  /-- Why the analysis has failed, if it has. -/
  failure : Option CompileError := none
  deriving Inhabited

namespace Analyzer

/-! ## Names -/

/-- Whether the analysis has failed. -/
def failed (a : Analyzer) : Bool := a.failure.isSome

/-- Fails. -/
def fail (a : Analyzer) (e : CompileError) : Analyzer :=
  { a with failure := some e }

/-- Changes the table, together with a result. -/
def withTable {α : Type} (a : Analyzer) (f : ScopeTable → α × ScopeTable) : Analyzer × α :=
  match a with
  | ⟨table, scope, withDepth, loweredDepth, failure⟩ =>
    let (x, table) := f table
    (⟨table, scope, withDepth, loweredDepth, failure⟩, x)

/-- Changes the table. -/
def modifyTable (a : Analyzer) (f : ScopeTable → ScopeTable) : Analyzer :=
  { a with table := f a.table }

/-- A name that is bound in a `with` body has no place of its own; binding one there fails. -/
def checkBindable (a : Analyzer) (name : String) (span : Span) : Analyzer :=
  if 0 < a.withDepth then a.fail (.unsupported s!"identifier '{name}' inside with" span) else a

/-- Declares a name in the current scope. -/
def define (a : Analyzer) (x : Identifier) (span : Span) : Analyzer × Identifier :=
  let a := a.checkBindable x.name span
  if a.failed then (a, x)
  else
    let scope := a.scope
    let (a, v) := a.withTable (·.declare scope x.name)
    (a, { x with var := some v })

/-- Notes the assignment of a type to the variable of a name. -/
def assigned (a : Analyzer) (x : Identifier) (type : ValueType) : Analyzer :=
  match x.var with
  | some v => a.modifyTable (·.addAssigned v type)
  | none => a

/-- Declares the names that a body binds. -/
def hoist (a : Analyzer) (body : List Node) : Analyzer :=
  let scope := a.scope
  a.modifyTable fun t => (hoistedNames body).foldl (fun t name => (t.declare scope name).2) t

/-- Declares parameters. -/
def parameters (a : Analyzer) (params : List Identifier) : Analyzer × List Identifier :=
  let scope := a.scope
  let (a, params) := a.withTable fun t =>
    params.foldl
      (fun (acc : Array Identifier × ScopeTable) x =>
        let (v, t) := acc.2.declareParameter scope x.name
        (acc.1.push { x with var := some v }, t))
      (#[], t)
  (a, params.toList)

/-- A name in a node of its own: a use is resolved, and a definition is declared. -/
def identifier (a : Analyzer) (i : Info) (x : Identifier) : Analyzer × Node :=
  let a := a.checkBindable x.name i.span
  if a.failed then (a, .identifier i x)
  else
    let scope := a.scope
    let (a, v) := a.withTable fun t =>
      if x.isDefinition then t.declare scope x.name else t.resolve scope x.name
    (a, .identifier { i with type := (a.table.var v).inferredType } { x with var := some v })

/-! ## Hints -/

/-- The variable of a node that is a resolved name, unless it is a global. -/
def nonGlobal? (a : Analyzer) (n : Node) : Option VarId :=
  match n.identifier?.bind Identifier.var with
  | some v => if (a.table.var v).isGlobal then none else some v
  | none => none

/-- Notes a use of the variable that the node names. -/
def used (a : Analyzer) (n : Node) (usage : Usage) : Analyzer :=
  match a.nonGlobal? n with
  | some v => a.modifyTable (·.addUsage v usage)
  | none => a

/-! ## Scopes -/

/-- Enters the scope of a function: it lies in the current scope, and none of its own `with` bodies is
around yet. Inside a `with` body its variables are looked up by name. -/
def enter (a : Analyzer) (name : String) : Analyzer × ScopeId :=
  let outer := a.scope
  let lowered := 0 < a.loweredDepth
  let (a, s) := a.withTable fun t =>
    let (s, t) := t.pushScope outer name
    (s, if lowered then t.markDynamic s else t)
  ({ a with scope := s, withDepth := 0 }, s)

/-- Lets a function expression see its own name, unless a parameter or variable has that name. -/
def ownName (a : Analyzer) (x : Identifier) : Analyzer × Identifier :=
  match (a.table.scope a.scope).own? x.name with
  | some _ => (a, x)
  | none =>
    let scope := a.scope
    let (a, v) := a.withTable (·.declare scope x.name)
    (a.modifyTable (·.addAssigned v .function), { x with var := some v })

/-- The types of the nodes of a list. -/
def typesOf (nodes : List Node) : List ValueType :=
  nodes.map Node.type

/-- A node without a value that has been walked. -/
def statement (a : Analyzer) (n : Node) : Analyzer × Node :=
  if a.failed then (a, n) else (a, n.setInfo { n.info with type := .any })

/-- A node whose value has a known type, once its parts have been walked. -/
def expression (a : Analyzer) (n : Node) (type : ValueType) : Analyzer × Node :=
  if a.failed then (a, n) else (a, n.setInfo { n.info with type })

/-- Whether a node can be assigned to. -/
def isTarget : Node → Bool
  | .identifier .. | .dynamic .. | .member .. => true
  | _ => false

mutual

/-- Walks a node. The body of a `with` statement is lowered first; so the walk ends because lowering keeps the
size. -/
def node (a : Analyzer) (n : Node) : Analyzer × Node :=
  if a.failed then (a, n)
  else
    match n with
    | .literal i l => (a, .literal { i with type := l.type } l)
    | .identifier i x => a.identifier i x
    | .dynamic i name => (a, .dynamic { i with type := .any } name)
    | .this i => (a, .this { i with type := .any })
    | .call i target args =>
      let (a, target) := node a target
      let (a, args) := nodes a #[] args
      let a := if a.failed then a else a.used target (.called (typesOf args))
      a.expression (.call i target args) .any
    | .member i target name =>
      let (a, target) := node a target
      a.expression (.member i target name) .any
    | .binary i op lhs rhs =>
      let (a, lhs) := node a lhs
      let (a, rhs) := node a rhs
      if a.failed then (a, .binary i op lhs rhs)
      else
        let a := if op.isArithmetic then (a.used lhs .numeric).used rhs .numeric else a
        let info := { i with type := binaryType op lhs.type rhs.type }
        match foldBinary? op lhs rhs with
        | some x => (a, .literal info (.number x))
        | none => (a, .binary info op lhs rhs)
    | .unary i op operand =>
      let (a, operand) := node a operand
      if a.failed then (a, .unary i op operand)
      else
        let a := if op = .neg || op = .plus then a.used operand .numeric else a
        let info := { i with type := unaryType op }
        match foldUnary? op operand with
        | some x => (a, .literal info (.number x))
        | none => (a, .unary info op operand)
    | .assign i target value =>
      if isTarget target then
        let (a, target) := node a target
        let (a, value) := node a value
        let a := match a.failed, target.identifier? with
          | false, some x => a.assigned x value.type
          | _, _ => a
        a.expression (.assign i target value) value.type
      else (a.fail (.invalidTarget target.span), .assign i target value)
    | .object i ps =>
      let (a, ps) := properties a #[] ps
      a.expression (.object i ps) .object
    | .delete i target =>
      let (a, target) := node a target
      a.expression (.delete i target) .bool
    | .function i name params body isDeclaration scope =>
      let (a, name) := match isDeclaration, name with
        | true, some x =>
          let (a, x) := a.define x i.span
          (if a.failed then a else a.assigned x .function, some x)
        | _, name => (a, name)
      if a.failed then (a, .function i name params body isDeclaration scope)
      else
        let outer := a.scope
        let depth := a.withDepth
        let (a, s) := a.enter (functionName name)
        let (a, params) := a.parameters params
        let a := a.hoist body
        let (a, name) := match isDeclaration, name with
          | false, some x =>
            let (a, x) := a.ownName x
            (a, some x)
          | _, name => (a, name)
        let (a, body) := nodes a #[] body
        let a := { a with scope := outer, withDepth := depth }
        a.expression (.function i name params body isDeclaration (some s)) .function
    | .var i binding init =>
      let (a, binding) := a.define binding i.span
      let (a, init) := node? a init
      let a := match a.failed, init with
        | false, some n => a.assigned binding n.type
        | _, _ => a
      a.statement (.var i binding init)
    | .ret i value =>
      let (a, value) := node? a value
      a.statement (.ret i value)
    | .cond i condition thenBranch elseBranch =>
      let (a, condition) := node a condition
      let (a, thenBranch) := node a thenBranch
      let (a, elseBranch) := node? a elseBranch
      a.statement (.cond i condition thenBranch elseBranch)
    | .loop i condition body =>
      let (a, condition) := node a condition
      let (a, body) := node a body
      a.statement (.loop i condition body)
    | .block i statements =>
      let (a, statements) := nodes a #[] statements
      a.statement (.block i statements)
    | .withObject i object body =>
      let (a, object) := node a object
      if a.failed then (a, .withObject i object body)
      else
        let scope := a.scope
        let a := a.modifyTable (·.markDynamic scope)
        let a := { a with withDepth := a.withDepth + 1, loweredDepth := a.loweredDepth + 1 }
        let (a, body) := node a body.lower
        let a := { a with withDepth := a.withDepth - 1, loweredDepth := a.loweredDepth - 1 }
        a.statement (.withObject i object body)
    | .throw i value =>
      let (a, value) := node a value
      a.statement (.throw i value)
    | .tryCatch i block none handler =>
      let (a, block) := node a block
      let (a, handler) := node a handler
      a.statement (.tryCatch i block none handler)
    | .tryCatch i block (some param) handler =>
      let (a, block) := node a block
      let a := if a.failed then a else a.checkBindable param.name i.span
      if a.failed then (a, .tryCatch i block (some param) handler)
      else
        let scope := a.scope
        let (a, v, shadowed) := a.withTable (·.openBinding scope param.name)
        let (a, handler) := node a handler
        let a := a.modifyTable (·.closeBinding scope param.name shadowed)
        a.statement (.tryCatch i block (some { param with var := some v }) handler)
termination_by n.size

/-- Walks the nodes of a list in order, behind those already walked. -/
def nodes (a : Analyzer) (done : Array Node) : List Node → Analyzer × List Node
  | [] => (a, done.toList)
  | n :: rest =>
    let (a, n) := node a n
    nodes a (done.push n) rest
termination_by ns => sizeAll ns

/-- Walks a node that may be missing. -/
def node? (a : Analyzer) : Option Node → Analyzer × Option Node
  | none => (a, none)
  | some n =>
    let (a, n) := node a n
    (a, some n)
termination_by n => size? n

/-- Walks the values of properties in order, behind those already walked. -/
def properties (a : Analyzer) (done : Array (String × Node)) :
    List (String × Node) → Analyzer × List (String × Node)
  | [] => (a, done.toList)
  | (name, value) :: rest =>
    let (a, value) := node a value
    properties a (done.push (name, value)) rest
termination_by ps => sizeProperties ps

end

/-- Walks a program in its own scope. -/
def program (a : Analyzer) (p : Program) : Analyzer × Program :=
  let a := { a with scope := .global }.hoist p.body
  let (a, body) := nodes a #[] p.body
  (a, { body, scope := some .global, analyzed := p.analyzed || !a.failed })

/-- The table with all slots assigned. -/
def finish (a : Analyzer) : ScopeTable := a.table.finish

end Analyzer

end ScriptEngine
