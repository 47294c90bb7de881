/-!
# Opcodes

The operations of the stack machine. An instruction is one byte for its opcode and then its operands:
counts and depths in one byte, everything else in two, the higher byte first. Stores leave the stored
value on the stack.
-/

namespace ScriptEngine

/-- The operations of the stack machine, in the order of their bytes. -/
inductive Opcode where
  /-- Push a constant; operand: constant. -/
  | constant
  /-- Push `undefined`. -/
  | pushUndefined
  /-- Push `null`. -/
  | pushNull
  /-- Push `true`. -/
  | pushTrue
  /-- Push `false`. -/
  | pushFalse
  /-- Drop the top. -/
  | pop
  /-- Push the top once more. -/
  | dup
  /-- Push a local; operand: slot. -/
  | getLocal
  /-- Store the top in a local; operand: slot. -/
  | setLocal
  /-- Push an environment slot; operands: depth, slot. -/
  | getEnv
  /-- Store the top in an environment slot; operands: depth, slot. -/
  | setEnv
  /-- Push a property of the global object; operand: name. -/
  | getGlobal
  /-- Store the top in a property of the global object; operand: name. -/
  | setGlobal
  /-- Remove a property of the global object; operand: name. -/
  | deleteGlobal
  /-- Look a name up along the environments and push its value; operand: name. -/
  | getName
  /-- Look a name up along the environments and store the top; operand: name. -/
  | setName
  /-- Look a name up along the environments and call it; operands: name, argument count. -/
  | callName
  /-- Look a name up along the environments and remove it; operand: name. -/
  | deleteName
  /-- Replace an object by its property; operand: call site. -/
  | getMember
  /-- Store the top in a property of the object below; operand: call site. -/
  | setMember
  /-- Remove a property of an object; operand: name. -/
  | deleteMember
  /-- Call a function that was read from a global; operand: call site. -/
  | callGlobal
  /-- Call a property of an object on it; operand: call site. -/
  | invokeMember
  /-- Call any value; operand: argument count. -/
  | call
  /-- Push a function over the current environment; operand: function. -/
  | closure
  /-- Push a new object. -/
  | newObject
  /-- Define a property of the object below the top; operand: name. -/
  | initProperty
  /-- Push the receiver. -/
  | getThis
  /-- Push the running function. -/
  | getCallee
  /-- Operator `+`. -/
  | add
  /-- Operator `-`. -/
  | sub
  /-- Operator `*`. -/
  | mul
  /-- Operator `/`. -/
  | div
  /-- Operator `%`. -/
  | rem
  /-- Unary `-`. -/
  | neg
  /-- Unary `+`. -/
  | plus
  /-- Operator `!`. -/
  | not
  /-- Operator `typeof`. -/
  | typeof
  /-- Operator `<`. -/
  | less
  /-- Operator `<=`. -/
  | lessEq
  /-- Operator `>`. -/
  | greater
  /-- Operator `>=`. -/
  | greaterEq
  /-- Operator `==`. -/
  | looseEq
  /-- Operator `!=`. -/
  | looseNe
  /-- Operator `===`. -/
  | strictEq
  /-- Operator `!==`. -/
  | strictNe
  /-- Jump forward; operand: distance. -/
  | jump
  /-- Drop the top and jump forward if it is false; operand: distance. -/
  | jumpIfFalse
  /-- Jump forward if the top is false, else drop it; operand: distance. -/
  | jumpIfFalseOrPop
  /-- Jump forward if the top is true, else drop it; operand: distance. -/
  | jumpIfTrueOrPop
  /-- Jump backward; operand: distance. -/
  | loop
  /-- Push an object onto the chain of environments. -/
  | enterWith
  /-- Take that object off the chain. -/
  | exitWith
  /-- Install a handler; operand: forward distance. -/
  | tryBegin
  /-- Remove the innermost handler. -/
  | tryEnd
  /-- Raise the top. -/
  | throw
  /-- Return the top. -/
  | ret
  /-- Return `undefined`. -/
  | retUndefined
  deriving DecidableEq, Repr, Inhabited

namespace Opcode

/-- Every opcode, in the order of their bytes. -/
def all : Array Opcode := #[
  .constant, .pushUndefined, .pushNull, .pushTrue, .pushFalse, .pop, .dup, .getLocal, .setLocal,
  .getEnv, .setEnv, .getGlobal, .setGlobal, .deleteGlobal, .getName, .setName, .callName,
  .deleteName, .getMember, .setMember, .deleteMember, .callGlobal, .invokeMember, .call, .closure,
  .newObject, .initProperty, .getThis, .getCallee, .add, .sub, .mul, .div, .rem, .neg, .plus, .not,
  .typeof, .less, .lessEq, .greater, .greaterEq, .looseEq, .looseNe, .strictEq, .strictNe, .jump,
  .jumpIfFalse, .jumpIfFalseOrPop, .jumpIfTrueOrPop, .loop, .enterWith, .exitWith, .tryBegin,
  .tryEnd, .throw, .ret, .retUndefined]

/-- The byte of an opcode. -/
def toByte (op : Opcode) : UInt8 :=
  op.ctorIdx.toUInt8

/-- The opcode of a byte, if the byte has one. -/
def ofByte? (b : UInt8) : Option Opcode :=
  all[b.toNat]?

/-- Reading back the byte of an opcode gives the opcode. -/
@[simp] theorem ofByte?_toByte (op : Opcode) : ofByte? op.toByte = some op := by
  cases op <;> rfl

/-- How many bytes of operands follow the opcode. -/
def operandSize : Opcode → Nat
  | .call => 1
  | .constant | .getLocal | .setLocal | .getGlobal | .setGlobal | .deleteGlobal | .getName
  | .setName | .deleteName | .getMember | .setMember | .deleteMember | .callGlobal
  | .invokeMember | .closure | .initProperty | .jump | .jumpIfFalse | .jumpIfFalseOrPop
  | .jumpIfTrueOrPop | .loop | .tryBegin => 2
  | .getEnv | .setEnv | .callName => 3
  | _ => 0

/-- The name of the opcode in listings. -/
def name : Opcode → String
  | constant => "CONSTANT"
  | pushUndefined => "PUSH_UNDEFINED"
  | pushNull => "PUSH_NULL"
  | pushTrue => "PUSH_TRUE"
  | pushFalse => "PUSH_FALSE"
  | pop => "POP"
  | dup => "DUP"
  | getLocal => "GET_LOCAL"
  | setLocal => "SET_LOCAL"
  | getEnv => "GET_ENV"
  | setEnv => "SET_ENV"
  | getGlobal => "GET_GLOBAL"
  | setGlobal => "SET_GLOBAL"
  | deleteGlobal => "DELETE_GLOBAL"
  | getName => "GET_NAME"
  | setName => "SET_NAME"
  | callName => "CALL_NAME"
  | deleteName => "DELETE_NAME"
  | getMember => "GET_MEMBER"
  | setMember => "SET_MEMBER"
  | deleteMember => "DELETE_MEMBER"
  | callGlobal => "CALL_GLOBAL"
  | invokeMember => "INVOKE_MEMBER"
  | call => "CALL"
  | closure => "CLOSURE"
  | newObject => "NEW_OBJECT"
  | initProperty => "INIT_PROPERTY"
  | getThis => "GET_THIS"
  | getCallee => "GET_CALLEE"
  | add => "ADD"
  | sub => "SUB"
  | mul => "MUL"
  | div => "DIV"
  | rem => "MOD"
  | neg => "NEG"
  | plus => "PLUS"
  | not => "NOT"
  | typeof => "TYPEOF"
  | less => "LESS"
  | lessEq => "LESS_EQUAL"
  | greater => "GREATER"
  | greaterEq => "GREATER_EQUAL"
  | looseEq => "EQUAL"
  | looseNe => "NOT_EQUAL"
  | strictEq => "STRICT_EQUAL"
  | strictNe => "STRICT_NOT_EQUAL"
  | jump => "JUMP"
  | jumpIfFalse => "JUMP_IF_FALSE"
  | jumpIfFalseOrPop => "JUMP_IF_FALSE_OR_POP"
  | jumpIfTrueOrPop => "JUMP_IF_TRUE_OR_POP"
  | loop => "LOOP"
  | enterWith => "ENTER_WITH"
  | exitWith => "EXIT_WITH"
  | tryBegin => "TRY_BEGIN"
  | tryEnd => "TRY_END"
  | throw => "THROW"
  | ret => "RETURN"
  | retUndefined => "RETURN_UNDEFINED"

/-- The opcode of that name. -/
def ofName? (s : String) : Option Opcode :=
  all.find? (·.name == s)

/-- Whether the operand is a distance to another instruction. -/
def isJump : Opcode → Bool
  | jump | jumpIfFalse | jumpIfFalseOrPop | jumpIfTrueOrPop | loop | tryBegin => true
  | _ => false

end Opcode

end ScriptEngine
