import ScriptEngine.Code.Emitter
import ScriptEngine.Code.Unit

/-!
# Generation of code

Walks an analyzed program and emits one function per function of the program, and one for the program
itself. Operands are evaluated from left to right; the code of an expression leaves one more value on
the stack, and the code of a statement leaves the stack as it was. Inner functions are generated before
the code that makes them, so they have smaller positions.

The program's own code keeps the value of the last expression statement in an extra frame slot; that
is the value of the program.
-/

namespace ScriptEngine

/-- What is fixed while a function is generated. -/
structure GenContext where
  /-- The finished scope table. -/
  table : ScopeTable
  /-- The scope of the function. -/
  scope : ScopeId
  /-- The frame slot for the value of expression statements, in the program's own code. -/
  completion : Option Nat

/-- What grows while a function is generated. -/
structure GenState where
  /-- The code of the function, and the constants of the unit. -/
  emitter : Emitter := {}
  /-- The call sites of the function. -/
  sites : Array CallSite := #[]
  /-- The finished functions of the unit. -/
  functions : Array CodeFunction := #[]
  deriving Inhabited

/-- A generating computation: it extends the unit, or fails. -/
abbrev Gen (α : Type) : Type := EStateM CompileError GenState α

namespace Generation

/-! ## Emitting -/

/-- Emits into the code of the current function. -/
def emit {α : Type} (m : Emit α) : Gen α := fun s =>
  match s with
  | ⟨emitter, sites, functions⟩ =>
    match m emitter with
    | .ok a emitter => .ok a ⟨emitter, sites, functions⟩
    | .error e emitter => .error e ⟨emitter, sites, functions⟩

/-- Adds a call site and gives its position. -/
def addSite (kind : SiteKind) (name : String) (argc : Nat) (span : Span) : Gen Nat := do
  if Resource.limit .callArguments < argc then throw (.limitExceeded .callArguments span)
  modifyGet fun s => (s.sites.size, { s with sites := s.sites.push ⟨kind, name, argc.toUInt8, span⟩ })

/-- Emits an operation through a new call site. -/
def opSite (op : Opcode) (kind : SiteKind) (name : String) (argc : Nat) (span : Span) :
    Gen Unit := do
  let site ← addSite kind name argc span
  emit (Emitter.setSpan span)
  emit (Emitter.site op site)

/-! ## Names -/

/-- The variable of a name, which analysis must have found. -/
def varOf (x : Identifier) (span : Span) : Gen VarId :=
  match x.var with
  | some v => pure v
  | none => throw (.unresolved x.name span)

/-- The number of links from the running code's environment to that of a variable. -/
def depthOf (c : GenContext) (v : VarId) (x : Identifier) (span : Span) : Gen Nat :=
  match c.table.envDepth? c.scope (c.table.var v).scope with
  | some depth => pure depth
  | none => throw (.unresolved x.name span)

/-- Whether a name stands for a property of the global object. -/
def isGlobal (c : GenContext) (x : Identifier) : Bool :=
  match x.var with
  | some v => (c.table.var v).isGlobal
  | none => false

/-- Emits the reading of a name. -/
def load (c : GenContext) (x : Identifier) (span : Span) : Gen Unit := do
  let v ← varOf x span
  match c.table.slotOf v with
  | .frame slot => emit (Emitter.loadLocal slot)
  | .env slot =>
    let depth ← depthOf c v x span
    emit (Emitter.loadEnv depth slot)
  | .global => emit (Emitter.opName .getGlobal x.name)

/-- Emits the writing of a name; the value stays on the stack. -/
def store (c : GenContext) (x : Identifier) (span : Span) : Gen Unit := do
  let v ← varOf x span
  match c.table.slotOf v with
  | .frame slot => emit (Emitter.storeLocal slot)
  | .env slot =>
    let depth ← depthOf c v x span
    emit (Emitter.storeEnv depth slot)
  | .global => emit (Emitter.opName .setGlobal x.name)

/-- Emits the deletion of a name. Only globals can go. -/
def erase (c : GenContext) (x : Identifier) (span : Span) : Gen Unit := do
  let v ← varOf x span
  match c.table.slotOf v with
  | .global => emit (Emitter.opName .deleteGlobal x.name)
  | _ => emit (Emitter.op .pushFalse)

/-- The places of parameters. -/
def paramSlots (c : GenContext) (params : List Identifier) (span : Span) : Gen (List VarSlot) :=
  params.mapM fun x => do return c.table.slotOf (← varOf x span)

/-! ## Leaves -/

/-- Emits a literal. -/
def literal : Literal → Gen Unit
  | .undefined => emit (Emitter.op .pushUndefined)
  | .null => emit (Emitter.op .pushNull)
  | .bool b => emit (Emitter.bool b)
  | .number n => emit (Emitter.number n)
  | .string s => emit (Emitter.string s)

/-- The opcode of a binary operator that evaluates both operands. -/
def binaryOpcode? : BinaryOp → Option Opcode
  | .add => some .add
  | .sub => some .sub
  | .mul => some .mul
  | .div => some .div
  | .rem => some .rem
  | .less => some .less
  | .lessEq => some .lessEq
  | .greater => some .greater
  | .greaterEq => some .greaterEq
  | .looseEq => some .looseEq
  | .looseNe => some .looseNe
  | .strictEq => some .strictEq
  | .strictNe => some .strictNe
  | .and | .or => none

/-- The jump that skips the right operand of a logical operator. -/
def shortCircuit : BinaryOp → Opcode
  | .or => .jumpIfTrueOrPop
  | _ => .jumpIfFalseOrPop

/-- Emits a unary operator behind its operand. -/
def unaryOp : UnaryOp → Gen Unit
  | .neg => emit (Emitter.op .neg)
  | .plus => emit (Emitter.op .plus)
  | .not => emit (Emitter.op .not)
  | .typeof => emit (Emitter.op .typeof)
  | .void => do
    emit (Emitter.op .pop)
    emit (Emitter.op .pushUndefined)

/-- What is wanted of a node. -/
inductive Position where
  /-- Its value, which stays on the stack. -/
  | value
  /-- Its effect only; the stack is left as it was. -/
  | effect
  deriving DecidableEq, Repr

/-- Ends an expression. Where only its effect is wanted the value is dropped; the program's own code
keeps it in the frame before that. -/
def settle (c : GenContext) : Position → Gen Unit
  | .value => pure ()
  | .effect => do
    match c.completion with
    | some slot => emit (Emitter.storeLocal slot)
    | none => pure ()
    emit (Emitter.op .pop)

/-- Starts a statement, which has no value to give. -/
def expectEffect (n : Node) : Position → Gen Unit
  | .value => throw (.expectedExpression n.kind n.span)
  | .effect => pure ()

/-! ## Operations over generated parts -/

/-- Emits a binary operation. A logical operator skips its right operand if the left one decides. -/
def binary (op : BinaryOp) (lhs rhs : Gen Unit) : Gen Unit :=
  match binaryOpcode? op with
  | some opcode => do
    lhs
    rhs
    emit (Emitter.op opcode)
  | none => do
    lhs
    let skip ← emit (Emitter.jump (shortCircuit op))
    rhs
    emit (Emitter.patch skip)

/-- Emits a call. The form of the target decides how: a property is called on its object, a global
and a property go through a call site, a name that is looked up at run time is called by name, and
any other target is evaluated first. The parts are the target, the arguments, and the object of a
target that is a property. -/
def call (c : GenContext) (span : Span) (form : Node) (target : Gen Unit) (argc : Nat)
    (args receiver : Gen Unit) : Gen Unit :=
  let any : Gen Unit := do
    target
    args
    emit (Emitter.setSpan span)
    emit (Emitter.call argc)
  match form with
  | .member _ _ name => do
    receiver
    args
    opSite .invokeMember .invokeMember name argc span
  | .dynamic _ name => do
    args
    emit (Emitter.setSpan span)
    emit (Emitter.callName name argc)
  | .identifier _ x =>
    if isGlobal c x then do
      emit (Emitter.opName .getGlobal x.name)
      args
      opSite .callGlobal .globalCall x.name argc span
    else any
  | _ => any

/-- Emits an assignment. The parts are the value, and the object of a target that is a property. -/
def assign (c : GenContext) (span : Span) (form : Node) (value object : Gen Unit) : Gen Unit :=
  match form with
  | .identifier _ x => do
    value
    store c x span
  | .dynamic _ name => do
    value
    emit (Emitter.opName .setName name)
  | .member _ _ name => do
    object
    value
    opSite .setMember .setMember name 0 span
  | _ => throw (.invalidTarget form.span)

/-- Emits a removal. What is neither a property nor a name is evaluated, and the answer is yes. The
parts are the target, and the object of a target that is a property. -/
def delete (c : GenContext) (form : Node) (target object : Gen Unit) : Gen Unit :=
  match form with
  | .member _ _ name => do
    object
    emit (Emitter.opName .deleteMember name)
  | .identifier i x => erase c x i.span
  | .dynamic _ name => emit (Emitter.opName .deleteName name)
  | _ => do
    target
    emit (Emitter.op .pop)
    emit (Emitter.op .pushTrue)

/-- Takes a caught value off the stack, into the variable of the handler if it has one. -/
def bindCaught (c : GenContext) (param : Option Identifier) (span : Span) : Gen Unit := do
  match param with
  | some x => store c x span
  | none => pure ()
  emit (Emitter.op .pop)

/-! ## Functions -/

/-- Starts the code of an inner function: the constants go on, all else starts anew. What was set
aside is the answer. -/
def beginFunction (span : Span) : Gen (Chunk × Span × Array CallSite) := fun s =>
  match s with
  | ⟨⟨chunk, pool, outer⟩, sites, functions⟩ =>
    let inner := if span.isUnknown then Span.none else span
    .ok (chunk, outer, sites) ⟨⟨{}, pool, inner⟩, #[], functions⟩

/-- Ends the code of an inner function: it joins the unit, and what was set aside goes on. The answer
is the position of the function. -/
def endFunction (aside : Chunk × Span × Array CallSite) (name : String) (params : List VarSlot)
    (layout : FunctionLayout) (span : Span) : Gen Nat := fun s =>
  match s with
  | ⟨⟨chunk, pool, _⟩, sites, functions⟩ =>
    let f : CodeFunction :=
      { name, params, localCount := layout.localCount, envNames := layout.envNames, chunk, sites,
        span }
    let (outerChunk, outerSpan, outerSites) := aside
    .ok functions.size ⟨⟨outerChunk, pool, outerSpan⟩, outerSites, functions.push f⟩

/-- Lets a function expression bind its own name to the running function, if analysis gave the name a
variable. -/
def bindOwnName (c : GenContext) (name : Option Identifier) (isDeclaration : Bool) (span : Span) :
    Gen Unit :=
  match isDeclaration, name with
  | false, some x =>
    if x.var.isSome then do
      emit (Emitter.op .getCallee)
      store c x span
      emit (Emitter.op .pop)
    else pure ()
  | _, _ => pure ()

/-- Generates an inner function and gives its position. The parts are the functions that its body
declares and the statements of its body, to be generated in the context of the inner function. -/
def function (c : GenContext) (name : Option Identifier) (params : List Identifier)
    (isDeclaration : Bool) (scope : Option ScopeId) (span : Span)
    (declarations body : GenContext → Gen Unit) : Gen Nat :=
  match scope with
  | none => throw (.unresolved (functionName name) span)
  | some scope => do
    let slots ← paramSlots c params span
    let inner : GenContext := { table := c.table, scope, completion := none }
    let aside ← beginFunction span
    bindOwnName inner name isDeclaration span
    declarations inner
    body inner
    emit (Emitter.op .retUndefined)
    endFunction aside (functionName name) slots (c.table.layout scope) span

mutual

/-- Generates a node in a position. -/
def node (c : GenContext) (pos : Position) (n : Node) : Gen Unit := do
  emit (Emitter.setSpan n.span)
  match n with
  | .literal _ l =>
    literal l
    settle c pos
  | .identifier i x =>
    load c x i.span
    settle c pos
  | .dynamic _ name =>
    emit (Emitter.opName .getName name)
    settle c pos
  | .this _ =>
    emit (Emitter.op .getThis)
    settle c pos
  | .call i target args =>
    call c i.span target (node c .value target) args.length (nodes c .value args)
      (match target with
        | .member _ receiver _ => node c .value receiver
        | _ => pure ())
    settle c pos
  | .member i target name =>
    node c .value target
    opSite .getMember .getMember name 0 i.span
    settle c pos
  | .binary _ op lhs rhs =>
    binary op (node c .value lhs) (node c .value rhs)
    settle c pos
  | .unary _ op operand =>
    node c .value operand
    unaryOp op
    settle c pos
  | .assign i target value =>
    assign c i.span target (node c .value value)
      (match target with
        | .member _ object _ => node c .value object
        | _ => pure ())
    settle c pos
  | .function i name params body isDeclaration scope =>
    if isDeclaration && pos = .effect then pure ()
    else
      let index ← function c name params isDeclaration scope i.span
        (fun inner => hoistedAll inner body) (fun inner => nodes inner .effect body)
      emit (Emitter.closure index)
      settle c pos
  | .object _ ps =>
    emit (Emitter.op .newObject)
    properties c ps
    settle c pos
  | .delete _ target =>
    delete c target (node c .value target)
      (match target with
        | .member _ object _ => node c .value object
        | _ => pure ())
    settle c pos
  | .var i binding init =>
    expectEffect n pos
    match init with
    | some init =>
      node c .value init
      store c binding i.span
      emit (Emitter.op .pop)
    | none => pure ()
  | .ret _ value =>
    expectEffect n pos
    match value with
    | some value =>
      node c .value value
      emit (Emitter.op .ret)
    | none => emit (Emitter.op .retUndefined)
  | .cond _ condition thenBranch elseBranch =>
    expectEffect n pos
    node c .value condition
    let toElse ← emit (Emitter.jump .jumpIfFalse)
    node c .effect thenBranch
    match elseBranch with
    | some elseBranch =>
      let toEnd ← emit (Emitter.jump .jump)
      emit (Emitter.patch toElse)
      node c .effect elseBranch
      emit (Emitter.patch toEnd)
    | none => emit (Emitter.patch toElse)
  | .loop _ condition body =>
    expectEffect n pos
    let start := (← get).emitter.offset
    node c .value condition
    let exit ← emit (Emitter.jump .jumpIfFalse)
    node c .effect body
    emit (Emitter.loop start)
    emit (Emitter.patch exit)
  | .block _ body =>
    expectEffect n pos
    nodes c .effect body
  | .withObject _ object body =>
    expectEffect n pos
    node c .value object
    emit (Emitter.op .enterWith)
    node c .effect body
    emit (Emitter.op .exitWith)
  | .throw i value =>
    expectEffect n pos
    node c .value value
    emit (Emitter.setSpan i.span)
    emit (Emitter.op .throw)
  | .tryCatch i block param handler =>
    expectEffect n pos
    let toHandler ← emit (Emitter.jump .tryBegin)
    node c .effect block
    emit (Emitter.op .tryEnd)
    let toEnd ← emit (Emitter.jump .jump)
    emit (Emitter.patch toHandler)
    bindCaught c param i.span
    node c .effect handler
    emit (Emitter.patch toEnd)

/-- Generates nodes in order, all in one position. -/
def nodes (c : GenContext) (pos : Position) : List Node → Gen Unit
  | [] => pure ()
  | n :: rest => do
    node c pos n
    nodes c pos rest

/-- Generates the properties of an object in order. -/
def properties (c : GenContext) : List (String × Node) → Gen Unit
  | [] => pure ()
  | (name, value) :: rest => do
    node c .value value
    emit (Emitter.opName .initProperty name)
    properties c rest

/-- Generates the named functions that a statement declares for the function around it, and binds
them. It reaches as far as hoisting does. -/
def hoisted (c : GenContext) : Node → Gen Unit
  | .function _ name params body isDeclaration scope =>
    match isDeclaration, name with
    | true, some x => do
      let span := (← get).emitter.span
      let index ← function c name params isDeclaration scope span
        (fun inner => hoistedAll inner body) (fun inner => nodes inner .effect body)
      emit (Emitter.closure index)
      store c x span
      emit (Emitter.op .pop)
    | _, _ => pure ()
  | .block _ body => hoistedAll c body
  | .cond _ _ thenBranch elseBranch => do
    hoisted c thenBranch
    hoisted? c elseBranch
  | .loop _ _ body => hoisted c body
  | .tryCatch _ block _ handler => do
    hoisted c block
    hoisted c handler
  | _ => pure ()

/-- Generates and binds the declared functions of the statements of a body. -/
def hoistedAll (c : GenContext) : List Node → Gen Unit
  | [] => pure ()
  | n :: rest => do
    hoisted c n
    hoistedAll c rest

/-- Generates and binds the declared functions of a statement that may be missing. -/
def hoisted? (c : GenContext) : Option Node → Gen Unit
  | none => pure ()
  | some n => hoisted c n

end

/-! ## Programs -/

/-- The name of a program's own code. -/
def programName : String := "<program>"

/-- Generates a program's own code. -/
def programCode (c : GenContext) (body : List Node) (completion : Nat) : Gen Unit := do
  hoistedAll c body
  nodes c .effect body
  emit (Emitter.loadLocal completion)
  emit (Emitter.op .ret)

/-- The names that the program declares on the global object: those of its global variables that
scripts cannot delete. -/
def declaredGlobals (t : ScopeTable) (s : ScopeId) : Array String :=
  ((t.scope s).order.map t.var).filterMap fun v =>
    if v.isGlobal && !v.isDeletable then some v.name else none

end Generation

/-- Generates the unit of a program that has been analyzed, over its finished scope table. -/
def generate (t : ScopeTable) (p : Program) : Except CompileError CodeUnit :=
  match p.scope, p.analyzed && t.finished with
  | some scope, true =>
    let layout := t.layout scope
    let completion := layout.localCount
    let c : GenContext := { table := t, scope, completion := some completion }
    match Generation.programCode c p.body completion {} with
    | .error e _ => .error e
    | .ok _ s =>
      let entry : CodeFunction :=
        { name := Generation.programName, params := [], localCount := completion + 1,
          envNames := layout.envNames, chunk := s.emitter.chunk, sites := s.sites,
          span := Span.none }
      .ok { functions := s.functions.push entry, pool := s.emitter.pool,
            entry := s.functions.size, globals := Generation.declaredGlobals t scope }
  | _, _ => .error (.unsupported "program that has not been analyzed" Span.none)

end ScriptEngine
