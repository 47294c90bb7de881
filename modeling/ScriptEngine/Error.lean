import ScriptEngine.Syntax.Node

/-!
# Errors

What can go wrong while a program is compiled and while it runs. An error is a cause; its wording is
in one function per kind.
-/

namespace ScriptEngine

/-! ## Compilation -/

/-- The things of which compiled code can hold or name only so many. -/
inductive Resource where
  /-- Numbers and texts of a unit. -/
  | constants
  /-- Local slots of a function. -/
  | localSlots
  /-- Links from an environment to the one that declares a variable. -/
  | environmentDepth
  /-- Slots of an environment. -/
  | environmentSlots
  /-- Call sites of a function. -/
  | callSites
  /-- Arguments of a call. -/
  | callArguments
  /-- Functions of a unit. -/
  | functions
  /-- Bytes that a forward jump passes over. -/
  | jumpDistance
  /-- Bytes that a backward jump passes over. -/
  | loopBody
  deriving DecidableEq, Repr

namespace Resource

/-- What messages call the resource. -/
def name : Resource → String
  | constants => "constant pool"
  | localSlots => "local slots"
  | environmentDepth => "environment depth"
  | environmentSlots => "environment slots"
  | callSites => "call sites"
  | callArguments => "call arguments"
  | functions => "functions"
  | jumpDistance => "jump distance"
  | loopBody => "loop body"

/-- The largest number that an operand of compiled code can hold for the resource: depths and
argument counts have one byte, everything else has two. -/
def limit : Resource → Nat
  | environmentDepth | callArguments => 255
  | _ => 65535

end Resource

/-- Why a program cannot be compiled, and where the cause stands. -/
inductive CompileError where
  /-- The construct has no meaning that can be settled before the program runs. -/
  | unsupported (construct : String) (span : Span)
  /-- The left side of an assignment cannot be assigned to. -/
  | invalidTarget (span : Span)
  /-- A statement stands where a value is needed. -/
  | expectedExpression (found : NodeKind) (span : Span)
  /-- The program needs more of a resource than an operand can name. -/
  | limitExceeded (resource : Resource) (span : Span)
  /-- A name that analysis has not resolved. -/
  | unresolved (name : String) (span : Span)
  deriving DecidableEq, Repr

namespace CompileError

/-- Where the cause stands. -/
def span : CompileError → Span
  | unsupported _ s | invalidTarget s | expectedExpression _ s | limitExceeded _ s
  | unresolved _ s => s

/-- The name of the kind of error. -/
def kind : CompileError → String
  | unsupported .. => "Unsupported"
  | invalidTarget _ => "InvalidAssignmentTarget"
  | expectedExpression .. => "ExpectedExpression"
  | limitExceeded .. => "LimitExceeded"
  | unresolved .. => "Unresolved"

/-- The cause in words. -/
def cause : CompileError → String
  | unsupported construct _ => s!"unsupported construct: {construct}"
  | invalidTarget _ => "invalid assignment target"
  | expectedExpression found _ => s!"expected an expression, found {found.name}"
  | limitExceeded resource _ => s!"{resource.name} limit exceeded ({resource.limit})"
  | unresolved name _ => s!"identifier '{name}' was not analyzed"

/-- Place and cause in words. -/
def toText (e : CompileError) : String :=
  s!"at {e.span.toText}: {e.cause}"

end CompileError

/-! ## Running -/

/-- Ways in which code can be malformed. Code that was generated from a program is never so. -/
inductive Fault where
  /-- A byte that is no opcode. -/
  | invalidOpcode (offset : Nat)
  /-- An operand that runs past the end of the code. -/
  | truncatedOperand (offset : Nat)
  /-- The operand stack has too few values. -/
  | stackUnderflow
  /-- No such constant. -/
  | constantOutOfRange (index : Nat)
  /-- No such constant, or one that is a number, where a name is needed. -/
  | constantNotName (index : Nat)
  /-- No such call site. -/
  | siteOutOfRange (index : Nat)
  /-- No such local slot. -/
  | localOutOfRange (slot : Nat)
  /-- The chain of environments is too short. -/
  | noEnvironment (depth : Nat)
  /-- No such slot in the environment. -/
  | slotOutOfRange (slot : Nat)
  /-- The end of a protected region outside of any. -/
  | noHandler
  /-- The end of a region with an object's names, but no environment at all. -/
  | noObjectScope
  /-- The end of a region with an object's names while variables are innermost. -/
  | notObjectScope
  /-- A property for something that is no object. -/
  | initNonObject
  /-- A backward jump to before the start. -/
  | loopBeforeStart
  /-- No such unit. -/
  | unknownUnit (unit : Nat)
  /-- No such function. -/
  | unknownFunction (index unit : Nat)
  /-- Whatever a host function reports as its own fault. -/
  | reported (message : String)
  deriving DecidableEq, Repr

/-- The fault in words. -/
def Fault.message : Fault → String
  | invalidOpcode offset => s!"invalid opcode at offset {offset}"
  | truncatedOperand offset => s!"truncated operand at offset {offset}"
  | stackUnderflow => "operand stack underflow"
  | constantOutOfRange index => s!"constant {index} out of range"
  | constantNotName index => s!"constant {index} is not a name"
  | siteOutOfRange index => s!"call site {index} out of range"
  | localOutOfRange slot => s!"local slot {slot} out of range"
  | noEnvironment depth => s!"no environment at depth {depth}"
  | slotOutOfRange slot => s!"environment slot {slot} out of range"
  | noHandler => "TryEnd without TryBegin"
  | noObjectScope => "ExitWith without an environment"
  | notObjectScope => "ExitWith outside a with body"
  | initNonObject => "InitProperty on a non-object"
  | loopBeforeStart => "loop target before chunk start"
  | unknownUnit unit => s!"unknown unit {unit}"
  | unknownFunction index unit => s!"unknown function {index} in unit {unit}"
  | reported message => message

/-- Why a run ends without a value. -/
inductive RuntimeError where
  /-- A value raised by a script or a host function. -/
  | thrown (value : Value)
  /-- A call of something that is no function. -/
  | notCallable (what : String)
  /-- A value of the wrong type. -/
  | typeError (message : String)
  /-- More nested activations than allowed. -/
  | stackOverflow (depth : Nat)
  /-- Malformed code. -/
  | internal (fault : Fault)
  deriving DecidableEq

namespace RuntimeError

/-- The name of the kind of error, by which hosts tell errors apart. -/
def kind : RuntimeError → String
  | thrown _ => "Thrown"
  | notCallable _ => "NotCallable"
  | typeError _ => "TypeError"
  | stackOverflow _ => "StackOverflow"
  | internal _ => "Internal"

/-- The name that a script sees in the error object. -/
def name : RuntimeError → String
  | thrown _ => "Error"
  | notCallable _ | typeError _ => "TypeError"
  | stackOverflow _ => "RangeError"
  | internal _ => "InternalError"

/-- The message that a script sees in the error object. -/
def message : RuntimeError → String
  | thrown value => value.toText
  | notCallable what => s!"{what} is not a function"
  | typeError message => message
  | stackOverflow depth => s!"maximum call depth {depth} exceeded"
  | internal fault => fault.message

/-- The error in words, as a host shows it. -/
def toText : RuntimeError → String
  | thrown value => s!"uncaught exception: {value.toText}"
  | internal fault => s!"internal error: {fault.message}"
  | e => s!"{e.name}: {e.message}"

/-- Whether a script can handle the error. Malformed code is beyond its reach. -/
def isCatchable : RuntimeError → Bool
  | internal _ => false
  | _ => true

end RuntimeError

end ScriptEngine
