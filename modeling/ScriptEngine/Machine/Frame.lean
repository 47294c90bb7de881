import ScriptEngine.Machine.World

/-!
# Activations

A *frame* is one activation of a function: where it stands in the code, its operands, its variables,
and the handlers of the protected regions it is in. Frames are stacked; each knows what the frame below
does with the value it returns.
-/

namespace ScriptEngine

/-- What is done with the value that a call gives. -/
inductive Resume where
  /-- It is pushed. -/
  | push
  /-- It is dropped. -/
  | discard
  /-- It is dropped, and another value is pushed. -/
  | pushInstead (v : Value)
  /-- It is called in turn. -/
  | callWith (this : Value) (args : List Value) (what : String)
  deriving DecidableEq, Inhabited

/-- Where an error in a protected region leads. -/
structure Handler where
  /-- The offset at which the handler's code starts. -/
  target : Nat
  /-- How many operands there were at the start of the region. -/
  stackSize : Nat
  /-- The innermost environment at the start of the region. -/
  env : Option EnvId
  deriving DecidableEq, Repr, Inhabited

/-- One activation of a function. -/
structure Frame where
  /-- The unit of the function. -/
  unit : Nat
  /-- The position of the function in the unit. -/
  index : Nat
  /-- The offset of the next instruction. -/
  ip : Nat := 0
  /-- The operands, the top first. -/
  stack : List Value := []
  /-- The local variables. -/
  locals : Array Value
  /-- The innermost environment. -/
  env : Option EnvId
  /-- The receiver. -/
  this : Value
  /-- The function object that was called; `undefined` for a program. -/
  callee : Value
  /-- The handlers, the innermost first. -/
  handlers : List Handler := []
  /-- What the frame below does with the value that this one returns. -/
  resume : Resume
  deriving DecidableEq, Inhabited

namespace Frame

/-! ## Operands -/

/-- Pushes a value. -/
def push (f : Frame) (v : Value) : Frame :=
  { f with stack := v :: f.stack }

/-- Takes arguments off the stack; the first one was pushed first. -/
def popArgs? (f : Frame) (n : Nat) : Option (List Value × Frame) :=
  if n ≤ f.stack.length then
    some ((f.stack.take n).reverse, { f with stack := f.stack.drop n })
  else none

/-- Goes on at an offset. -/
def jump (f : Frame) (target : Nat) : Frame :=
  { f with ip := target }

/-- The site of the running function at a position. -/
def site (f : Frame) (index : Nat) : SiteId :=
  ⟨f.unit, f.index, index⟩

/-! ## Handlers -/

/-- Enters a protected region. -/
def protect (f : Frame) (target : Nat) : Frame :=
  { f with handlers := ⟨target, f.stack.length, f.env⟩ :: f.handlers }

/-- Goes on in a handler with the value that it receives, and with the operands and the environment of
the start of its region. -/
def catchIn (f : Frame) (h : Handler) (outer : List Handler) (v : Value) : Frame :=
  { f with
    ip := h.target
    stack := v :: f.stack.drop (f.stack.length - h.stackSize)
    env := h.env
    handlers := outer }

/-! ## Arguments -/

/-- Binds the parameters to the arguments in order; those that are missing are `undefined`, and of two
parameters in one place the later stays. -/
def bindArgs (env : Option EnvId) :
    List VarSlot → List Value → Array Value → Environments → Array Value × Environments
  | [], _, locals, envs => (locals, envs)
  | slot :: slots, args, locals, envs =>
    let v := args.headD .undefined
    match slot, env with
    | .frame i, _ => bindArgs env slots args.tail (locals.setIfInBounds i v) envs
    | .env i, some id => bindArgs env slots args.tail locals (envs.setSlot id i v)
    | .env _, none | .global, _ => bindArgs env slots args.tail locals envs

/-- The environment of an activation: one of its own if the function has variables for it, else the
one around the function. -/
def ownEnv (function : CodeFunction) (around : Option EnvId) (envs : Environments) :
    Option EnvId × Environments :=
  if function.needsEnv then
    let (id, envs) := envs.pushVariables function.envNames around
    (some id, envs)
  else (around, envs)

/-- Starts an activation. -/
def activate (function : CodeFunction) (c : Closure) (callee this : Value) (args : List Value)
    (resume : Resume) (envs : Environments) : Frame × Environments :=
  let (env, envs) := ownEnv function c.env envs
  let empty := Array.replicate function.localCount .undefined
  let (locals, envs) := bindArgs env function.params args empty envs
  ({ unit := c.unit, index := c.index, locals, env, this, callee, resume }, envs)

end Frame

end ScriptEngine
