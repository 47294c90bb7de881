import ScriptEngine.Code.Instruction
import ScriptEngine.Generation

/-!
# How code is laid out

What the code of a node looks like, said without the generator: `Laid` relates a node to the two ends of
a stretch of code that was made of it. A stretch is described by the instructions that are *read* in it,
so that whoever follows a run through the code never has to look at bytes.

* `Source` is what one function of a unit was made of, and `Program.sources` lists the sources of a
  program in the order in which their functions stand in the unit.
* `Stretch` has the few ways in which code is composed: one instruction, one stretch behind another, a
  jump over a stretch, and a jump over one of two.
* `Laid`, `LaidAll`, `LaidProperties` and `LaidHoisted` describe the code of nodes, and
  `Blueprint.Lays` that of a whole function.
-/

namespace ScriptEngine

open Generation

/-! ## Induction over trees -/

/-- A property of nodes that a node has if all smaller nodes have it. -/
theorem Node.sizeInduction {motive : Node → Prop}
    (step : ∀ nd, (∀ nd', sizeOf nd' < sizeOf nd → motive nd') → motive nd) (nd : Node) : motive nd :=
  step nd fun nd' _ => sizeInduction step nd'
termination_by sizeOf nd

/-! ## Numbers up to their payload -/

/-- The representative of all numbers that are told apart by nothing but the payload of a NaN. -/
def Number.canonical (x : Number) : Number :=
  if x.isNaN then .nanOfSign x.isNegative else x

/-- The value with its number, if it is one, replaced by the representative. -/
def Value.canonical : Value → Value
  | .number x => .number x.canonical
  | v => v

/-- Two values that differ at most in the payload of a NaN. -/
def Value.Same (v w : Value) : Prop := v.canonical = w.canonical

/-! ## Sources -/

/-- What one function of a unit was made of. -/
structure Source where
  /-- The scope. -/
  scope : ScopeId
  /-- The name, if it has one. -/
  name : Option Identifier
  /-- The parameters. -/
  params : List Identifier
  /-- The statements. -/
  body : List Node
  /-- Whether the name is bound around the function, and not inside it. -/
  isDeclaration : Bool
  /-- Whether this is the program itself. -/
  isProgram : Bool
  /-- Whether the function stands in the body of a `with` statement of a function around it. -/
  isLowered : Bool

/-- The source of a function that stands inside a number of `with` bodies of the function around it. -/
def Source.ofFunction (isLowered : Bool) (withs : Nat) (name : Option Identifier)
    (params : List Identifier) (body : List Node) (isDeclaration : Bool) (scope : Option ScopeId) :
    Source :=
  { scope := scope.getD default, name, params, body, isDeclaration, isProgram := false,
    isLowered := isLowered || decide (0 < withs) }

mutual

/-- The sources of the functions in a node, in the order in which they are generated. -/
def Node.sources (isLowered : Bool) (withs : Nat) (pos : Position) : Node → List Source
  | .call _ target args =>
    target.sources isLowered withs .value ++ sourcesAll isLowered withs .value args
  | .member _ target _ => target.sources isLowered withs .value
  | .binary _ _ lhs rhs => lhs.sources isLowered withs .value ++ rhs.sources isLowered withs .value
  | .unary _ _ operand => operand.sources isLowered withs .value
  | .assign _ target value =>
    target.sources isLowered withs .value ++ value.sources isLowered withs .value
  | .function _ name params body isDeclaration scope =>
    if isDeclaration && pos = .effect then []
    else
      hoistedSourcesAll (isLowered || decide (0 < withs)) 0 body ++
        sourcesAll (isLowered || decide (0 < withs)) 0 .effect body ++
        [.ofFunction isLowered withs name params body isDeclaration scope]
  | .object _ ps => sourcesProperties isLowered withs ps
  | .delete _ target => target.sources isLowered withs .value
  | .var _ _ init => sources? isLowered withs .value init
  | .ret _ value => sources? isLowered withs .value value
  | .cond _ condition thenBranch elseBranch =>
    condition.sources isLowered withs .value ++ thenBranch.sources isLowered withs .effect ++
      sources? isLowered withs .effect elseBranch
  | .loop _ condition body =>
    condition.sources isLowered withs .value ++ body.sources isLowered withs .effect
  | .block _ statements => sourcesAll isLowered withs .effect statements
  | .withObject _ object body =>
    object.sources isLowered withs .value ++ body.sources isLowered (withs + 1) .effect
  | .throw _ value => value.sources isLowered withs .value
  | .tryCatch _ block _ handler =>
    block.sources isLowered withs .effect ++ handler.sources isLowered withs .effect
  | .literal .. | .identifier .. | .dynamic .. | .this _ => []

/-- The sources of the functions in nodes. -/
def sourcesAll (isLowered : Bool) (withs : Nat) (pos : Position) : List Node → List Source
  | [] => []
  | n :: rest => n.sources isLowered withs pos ++ sourcesAll isLowered withs pos rest

/-- The sources of the functions in a node that may be missing. -/
def sources? (isLowered : Bool) (withs : Nat) (pos : Position) : Option Node → List Source
  | none => []
  | some n => n.sources isLowered withs pos

/-- The sources of the functions in the values of properties. -/
def sourcesProperties (isLowered : Bool) (withs : Nat) : List (String × Node) → List Source
  | [] => []
  | (_, value) :: rest =>
    value.sources isLowered withs .value ++ sourcesProperties isLowered withs rest

/-- The sources of the functions that a statement declares, and of those inside them. -/
def Node.hoistedSources (isLowered : Bool) (withs : Nat) : Node → List Source
  | .function _ name params body isDeclaration scope =>
    match isDeclaration, name with
    | true, some _ =>
      hoistedSourcesAll (isLowered || decide (0 < withs)) 0 body ++
        sourcesAll (isLowered || decide (0 < withs)) 0 .effect body ++
        [.ofFunction isLowered withs name params body isDeclaration scope]
    | _, _ => []
  | .block _ statements => hoistedSourcesAll isLowered withs statements
  | .cond _ _ thenBranch elseBranch =>
    thenBranch.hoistedSources isLowered withs ++ hoistedSources? isLowered withs elseBranch
  | .loop _ _ body => body.hoistedSources isLowered withs
  | .tryCatch _ block _ handler =>
    block.hoistedSources isLowered withs ++ handler.hoistedSources isLowered withs
  | _ => []

/-- The sources of the functions that statements declare, and of those inside them. -/
def hoistedSourcesAll (isLowered : Bool) (withs : Nat) : List Node → List Source
  | [] => []
  | n :: rest => n.hoistedSources isLowered withs ++ hoistedSourcesAll isLowered withs rest

/-- The sources of the functions that a statement declares, if there is one. -/
def hoistedSources? (isLowered : Bool) (withs : Nat) : Option Node → List Source
  | none => []
  | some n => n.hoistedSources isLowered withs

end

/-- The source of a program's own code. -/
def Program.source (p : Program) : Source :=
  { scope := p.scope.getD default, name := none, params := [], body := p.body,
    isDeclaration := false, isProgram := true, isLowered := false }

/-- The sources of an analyzed program, in the order of the functions of its unit: inner functions come
before those around them, and the program's own code comes last. -/
def Program.sources (p : Program) : List Source :=
  hoistedSourcesAll false 0 p.body ++ sourcesAll false 0 .effect p.body ++ [p.source]

/-- What the functions of a unit have in common. -/
structure Blueprint where
  /-- The finished scope table. -/
  table : ScopeTable
  /-- The constants. -/
  pool : Pool
  /-- What the functions were made of, by their positions. -/
  sources : List Source

/-- What is fixed while the function of a source is generated. -/
def Blueprint.context (U : Blueprint) (src : Source) : GenContext :=
  { table := U.table, scope := src.scope,
    completion := if src.isProgram then some (U.table.layout src.scope).localCount else none }

/-! ## Stretches -/

/-- A property of the two ends of a stretch of code. -/
abbrev Stretch : Type := Nat → Nat → Prop

namespace Stretch

/-- Nothing at all. -/
def empty : Stretch := fun a b => a = b

/-- One stretch behind another. -/
def seq (P Q : Stretch) : Stretch := fun a b => ∃ m, P a m ∧ Q m b

/-- A stretch that is only there under a condition. -/
def given (p : Prop) (P : Stretch) : Stretch := fun a b => p ∧ P a b

end Stretch

/-- One instruction is read, and the stretch ends behind it. -/
def Blueprint.at (U : Blueprint) (F : CodeFunction) (i : Instruction) : Stretch := fun a b =>
  Instruction.read U.pool F a = .ok (some (i, b))

section

variable (U : Blueprint) (F : CodeFunction)

namespace Stretch

/-- A jump over a stretch. -/
def skip (jump : Nat → Instruction) (P : Stretch) : Stretch := fun a b =>
  ∃ m, U.at F (jump b) a m ∧ P m b

/-- A jump to the second of two stretches, and behind the first a jump over the second. -/
def fork (jump : Nat → Instruction) (P Q : Stretch) : Stretch := fun a b =>
  ∃ p q r, U.at F (jump r) a p ∧ P p q ∧ U.at F (.jump b) q r ∧ Q r b

/-- A test in front of a stretch that leads back to the test. -/
def loop (test P : Stretch) : Stretch := fun a b =>
  seq test (skip U F .jumpIfFalse (seq P (U.at F (.jump a)))) a b

/-- An operation through a call site of the function. -/
def site (op : Nat → CallSite → Instruction) (name : String) (argc : Nat) : Stretch := fun a b =>
  ∃ k call, call.name = name ∧ call.argc.toNat = argc ∧ U.at F (op k call) a b

end Stretch

/-! ## Names and leaves -/

/-- The instruction that reads a name. -/
def GenContext.loadOf? (c : GenContext) (x : Identifier) : Option Instruction :=
  x.var.bind fun v =>
    match c.table.slotOf v with
    | .frame slot => some (.getLocal slot)
    | .env slot => (c.table.envDepth? c.scope (c.table.var v).scope).map (.getEnv · slot)
    | .global => some (.getGlobal x.name)

/-- The instruction that writes a name. -/
def GenContext.storeOf? (c : GenContext) (x : Identifier) : Option Instruction :=
  x.var.bind fun v =>
    match c.table.slotOf v with
    | .frame slot => some (.setLocal slot)
    | .env slot => (c.table.envDepth? c.scope (c.table.var v).scope).map (.setEnv · slot)
    | .global => some (.setGlobal x.name)

/-- The instruction that deletes a name: variables stay, and the answer is no. -/
def GenContext.eraseOf? (c : GenContext) (x : Identifier) : Option Instruction :=
  x.var.map fun v =>
    match c.table.slotOf v with
    | .global => .deleteGlobal x.name
    | _ => .push (.bool false)

/-- One instruction, if there is one. -/
def Blueprint.atSome (i : Option Instruction) : Stretch := fun a b => ∃ j, i = some j ∧ U.at F j a b

/-- A literal is pushed, as the constants have it. -/
def Laid.literal (l : Literal) : Stretch := fun a b =>
  ∃ v : Value, v.Same l.toValue ∧ U.at F (.push v) a b

/-- The end of an expression. -/
def Laid.settle (c : GenContext) : Position → Stretch
  | .value => .empty
  | .effect =>
    match c.completion with
    | some slot => (U.at F (.setLocal slot)).seq (U.at F .pop)
    | none => U.at F .pop

/-- A unary operator behind its operand. -/
def Laid.unaryOp : UnaryOp → Stretch
  | .neg => U.at F .negate
  | .plus => U.at F .plus
  | .not => U.at F .not
  | .typeof => U.at F .typeof
  | .void => (U.at F .pop).seq (U.at F (.push .undefined))

/-! ## Operations over parts -/

/-- A binary operation. -/
def Laid.binary (op : BinaryOp) (lhs rhs : Stretch) : Stretch :=
  match op with
  | .and => lhs.seq (.skip U F .jumpIfFalseOrPop rhs)
  | .or => lhs.seq (.skip U F .jumpIfTrueOrPop rhs)
  | op => lhs.seq (rhs.seq (U.at F (.binary op)))

/-- A call. -/
def Laid.call (c : GenContext) (form : Node) (target : Stretch) (argc : Nat)
    (args receiver : Stretch) : Stretch :=
  let any := target.seq (args.seq (U.at F (.call argc)))
  match form with
  | .member _ _ name => receiver.seq (args.seq (.site U F .invokeMember name argc))
  | .dynamic _ name => args.seq (U.at F (.callName name argc))
  | .identifier _ x =>
    if isGlobal c x then
      (U.at F (.getGlobal x.name)).seq (args.seq (.site U F .callGlobal x.name argc))
    else any
  | _ => any

/-- An assignment. -/
def Laid.assign (c : GenContext) (form : Node) (value object : Stretch) : Stretch :=
  match form with
  | .identifier _ x => value.seq (U.atSome F (c.storeOf? x))
  | .dynamic _ name => value.seq (U.at F (.setName name))
  | .member _ _ name => object.seq (value.seq (.site U F .setMember name 0))
  | _ => fun _ _ => False

/-- A removal. -/
def Laid.delete (c : GenContext) (form : Node) (target object : Stretch) : Stretch :=
  match form with
  | .member _ _ name => object.seq (U.at F (.deleteMember name))
  | .identifier _ x => U.atSome F (c.eraseOf? x)
  | .dynamic _ name => U.at F (.deleteName name)
  | _ => target.seq ((U.at F .pop).seq (U.at F (.push (.bool true))))

/-- The start of a handler. -/
def Laid.bindCaught (c : GenContext) (param : Option Identifier) : Stretch :=
  match param with
  | some x => (U.atSome F (c.storeOf? x)).seq (U.at F .pop)
  | none => U.at F .pop

/-- A function is made of the source at its position. -/
def Laid.closure (src : Source) : Stretch := fun a b =>
  ∃ index, U.sources[index]? = some src ∧ U.at F (.closure index) a b

/-- The start of a function expression that binds its own name. -/
def Laid.ownName (c : GenContext) (src : Source) : Stretch :=
  match src.isDeclaration, src.name with
  | false, some x =>
    if x.var.isSome then
      (U.at F .getCallee).seq ((U.atSome F (c.storeOf? x)).seq (U.at F .pop))
    else .empty
  | _, _ => .empty

/-! ## Nodes -/

mutual

/-- The stretch of code of a node in a position. The node stands inside a number of `with` bodies of
its function, and the function is lowered or not. -/
def Laid (c : GenContext) (isLowered : Bool) (withs : Nat) (pos : Position) : Node → Stretch
  | .literal _ l => (Laid.literal U F l).seq (Laid.settle U F c pos)
  | .identifier _ x => (U.atSome F (c.loadOf? x)).seq (Laid.settle U F c pos)
  | .dynamic _ name => (U.at F (.getName name)).seq (Laid.settle U F c pos)
  | .this _ => (U.at F .getThis).seq (Laid.settle U F c pos)
  | .call _ target args =>
    (Laid.call U F c target (Laid c isLowered withs .value target) args.length
      (LaidAll c isLowered withs .value args)
      (match target with
        | .member _ receiver _ => Laid c isLowered withs .value receiver
        | _ => .empty)).seq (Laid.settle U F c pos)
  | .member _ target name =>
    (Laid c isLowered withs .value target).seq
      ((Stretch.site U F .getMember name 0).seq (Laid.settle U F c pos))
  | .binary _ op lhs rhs =>
    (Laid.binary U F op (Laid c isLowered withs .value lhs)
      (Laid c isLowered withs .value rhs)).seq (Laid.settle U F c pos)
  | .unary _ op operand =>
    (Laid c isLowered withs .value operand).seq
      ((Laid.unaryOp U F op).seq (Laid.settle U F c pos))
  | .assign _ target value =>
    (Laid.assign U F c target (Laid c isLowered withs .value value)
      (match target with
        | .member _ object _ => Laid c isLowered withs .value object
        | _ => .empty)).seq (Laid.settle U F c pos)
  | .function _ name params body isDeclaration scope =>
    if isDeclaration && pos = .effect then .empty
    else
      (Laid.closure U F (.ofFunction isLowered withs name params body isDeclaration scope)).seq
        (Laid.settle U F c pos)
  | .object _ ps =>
    (U.at F .newObject).seq
      ((LaidProperties c isLowered withs ps).seq (Laid.settle U F c pos))
  | .delete _ target =>
    (Laid.delete U F c target (Laid c isLowered withs .value target)
      (match target with
        | .member _ object _ => Laid c isLowered withs .value object
        | _ => .empty)).seq (Laid.settle U F c pos)
  | .var _ binding init =>
    .given (pos = .effect)
      (match init with
        | some init =>
          (Laid c isLowered withs .value init).seq
            ((U.atSome F (c.storeOf? binding)).seq (U.at F .pop))
        | none => .empty)
  | .ret _ value =>
    .given (pos = .effect)
      (match value with
        | some value => (Laid c isLowered withs .value value).seq (U.at F .ret)
        | none => U.at F .retUndefined)
  | .cond _ condition thenBranch elseBranch =>
    .given (pos = .effect) ((Laid c isLowered withs .value condition).seq
      (match elseBranch with
        | some elseBranch =>
          .fork U F .jumpIfFalse (Laid c isLowered withs .effect thenBranch)
            (Laid c isLowered withs .effect elseBranch)
        | none => .skip U F .jumpIfFalse (Laid c isLowered withs .effect thenBranch)))
  | .loop _ condition body =>
    .given (pos = .effect)
      (.loop U F (Laid c isLowered withs .value condition) (Laid c isLowered withs .effect body))
  | .block _ statements => .given (pos = .effect) (LaidAll c isLowered withs .effect statements)
  | .withObject _ object body =>
    .given (pos = .effect) ((Laid c isLowered withs .value object).seq
      ((U.at F .enterWith).seq
        ((Laid c isLowered (withs + 1) .effect body).seq (U.at F .exitWith))))
  | .throw _ value =>
    .given (pos = .effect) ((Laid c isLowered withs .value value).seq (U.at F .throw))
  | .tryCatch _ block param handler =>
    .given (pos = .effect)
      (.fork U F .tryBegin ((Laid c isLowered withs .effect block).seq (U.at F .tryEnd))
        ((Laid.bindCaught U F c param).seq (Laid c isLowered withs .effect handler)))

/-- The stretch of code of nodes in order, all in one position. -/
def LaidAll (c : GenContext) (isLowered : Bool) (withs : Nat) (pos : Position) :
    List Node → Stretch
  | [] => .empty
  | n :: rest => (Laid c isLowered withs pos n).seq (LaidAll c isLowered withs pos rest)

/-- The stretch of code of the properties of an object. -/
def LaidProperties (c : GenContext) (isLowered : Bool) (withs : Nat) :
    List (String × Node) → Stretch
  | [] => .empty
  | (name, value) :: rest =>
    (Laid c isLowered withs .value value).seq
      ((U.at F (.initProperty name)).seq (LaidProperties c isLowered withs rest))

end

mutual

/-- The stretch of code that makes and binds the functions that a statement declares. -/
def LaidHoisted (c : GenContext) (isLowered : Bool) (withs : Nat) : Node → Stretch
  | .function _ name params body isDeclaration scope =>
    match isDeclaration, name with
    | true, some x =>
      (Laid.closure U F (.ofFunction isLowered withs name params body isDeclaration scope)).seq
        ((U.atSome F (c.storeOf? x)).seq (U.at F .pop))
    | _, _ => .empty
  | .block _ statements => LaidHoistedAll c isLowered withs statements
  | .cond _ _ thenBranch elseBranch =>
    (LaidHoisted c isLowered withs thenBranch).seq (LaidHoisted? c isLowered withs elseBranch)
  | .loop _ _ body => LaidHoisted c isLowered withs body
  | .tryCatch _ block _ handler =>
    (LaidHoisted c isLowered withs block).seq (LaidHoisted c isLowered withs handler)
  | _ => .empty

/-- The stretch of code that makes and binds the functions that statements declare. -/
def LaidHoistedAll (c : GenContext) (isLowered : Bool) (withs : Nat) : List Node → Stretch
  | [] => .empty
  | n :: rest => (LaidHoisted c isLowered withs n).seq (LaidHoistedAll c isLowered withs rest)

/-- The stretch of code that makes and binds the functions of a statement, if there is one. -/
def LaidHoisted? (c : GenContext) (isLowered : Bool) (withs : Nat) : Option Node → Stretch
  | none => .empty
  | some n => LaidHoisted c isLowered withs n

end

/-! ## Functions -/

/-- The whole code of a function. -/
def Laid.code (src : Source) : Stretch :=
  let c := U.context src
  let body := (LaidHoistedAll U F c src.isLowered 0 src.body).seq
    (LaidAll U F c src.isLowered 0 .effect src.body)
  if src.isProgram then
    body.seq ((U.at F (.getLocal (U.table.layout src.scope).localCount)).seq (U.at F .ret))
  else (Laid.ownName U F c src).seq (body.seq (U.at F .retUndefined))

/-- A function that was made of a source: its code, its frame and its environment. -/
structure Blueprint.Lays (src : Source) : Prop where
  /-- The code. -/
  code : ∃ b, Laid.code U F src 0 b
  /-- The frame has a slot for every variable, and one more in a program. -/
  localCount : F.localCount = (U.table.layout src.scope).localCount + if src.isProgram then 1 else 0
  /-- The environment has the variables that are kept there. -/
  envNames : F.envNames = (U.table.layout src.scope).envNames
  /-- Every parameter has a variable, and the argument goes where it is kept. -/
  params : ∃ vars : List VarId, src.params.map Identifier.var = vars.map some ∧
    F.params = vars.map U.table.slotOf

end

end ScriptEngine
