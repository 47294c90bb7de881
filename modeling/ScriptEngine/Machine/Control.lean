import ScriptEngine.Machine.Frame

/-!
# What comes next

After every instruction and every call it is settled what comes next in a run: the next instruction, a
call, a value for the running frame, a return, or an error. Calls are never made on the spot; whoever
wants one says what is to be called and what is done with the value.
-/

namespace ScriptEngine

/-- What comes next in a run. -/
inductive Control where
  /-- The running frame executes its next instruction. -/
  | execute
  /-- A function object is called. -/
  | enter (callee : Value) (target : Callable) (this : Value) (args : List Value) (resume : Resume)
  /-- A value has been computed for the running frame. -/
  | deliver (resume : Resume) (v : Value)
  /-- The running frame returns a value. -/
  | ret (v : Value)
  /-- An error looks for a handler, from the running frame on downwards. -/
  | raise (e : RuntimeError)
  deriving DecidableEq, Inhabited

namespace Control

/-- Calls any value; one that cannot be called is an error about what the caller calls it. -/
def call (heap : Heap) (callee this : Value) (args : List Value) (what : String) (resume : Resume) :
    Control :=
  match callee.object?.bind heap.callable? with
  | some target => enter callee target this args resume
  | none => raise (.notCallable what)

/-- Calls the function of an accessor. -/
def callAccessor (heap : Heap) (h : Handle) (this : Value) (args : List Value) (resume : Resume) :
    Control :=
  call heap (.object h) this args "accessor" resume

/-- Goes on with what was read, after the getter, if there is one. -/
def afterRead (heap : Heap) (this : Value) (resume : Resume) : PropertyRead → Control
  | .value v => deliver resume v
  | .getter h => callAccessor heap h this [] resume

/-- Goes on after a write, and after the setter, if there is one. -/
def afterWrite (heap : Heap) (this v : Value) (resume : Resume) : PropertyWrite → Control
  | .setter h => callAccessor heap h this [v] resume
  | .stored | .ignored => deliver resume .undefined

end Control

/-- The world and the running frame after an instruction, and what comes next. -/
structure Turn where
  /-- The world. -/
  world : World
  /-- The running frame. -/
  frame : Frame
  /-- What comes next. -/
  control : Control

namespace Turn

/-- Goes on with the next instruction. -/
def next (w : World) (f : Frame) : Turn := ⟨w, f, .execute⟩

/-- The code is malformed. -/
def fault (w : World) (f : Frame) (e : Fault) : Turn := ⟨w, f, .raise (.internal e)⟩

/-- The operand stack has too few values. -/
def underflow (w : World) (f : Frame) : Turn := fault w f .stackUnderflow

end Turn

end ScriptEngine
