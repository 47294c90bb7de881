import ScriptEngine.Code.Instruction
import ScriptEngine.Machine.Control
import ScriptEngine.Machine.Member
import ScriptEngine.Value.Operation

/-!
# Executing an instruction

Every instruction is a function from the world and the running frame to a turn. The frame already
stands behind the instruction. A fault leaves the world as it was: whatever can be malformed is looked
at before anything but the operands changes.
-/

namespace ScriptEngine

namespace Machine

/-- The global object as a value. -/
def globalValue (m : Machine) : Value := .object m.realm.global

/-- Where the value of a name comes from, and the receiver if it is called. -/
def readName (m : Machine) (w : World) (f : Frame) (name : String) : PropertyRead × Value :=
  match w.resolve f.env name with
  | .slot env i => (.value (w.envs.getSlot env i), m.globalValue)
  | .property h => (w.heap.read h name, .object h)
  | .unbound => (w.heap.read m.realm.global name, m.globalValue)

/-- Writes what a name stands for, and tells which object a setter is called on. -/
def writeName (m : Machine) (w : World) (f : Frame) (name : String) (v : Value) :
    (PropertyWrite × Value) × World :=
  match w.resolve f.env name with
  | .slot env i => ((.stored, m.globalValue), { w with envs := w.envs.setSlot env i v })
  | .property h =>
    let (result, w) := w.write h name v
    ((result, .object h), w)
  | .unbound =>
    let (result, w) := w.write m.realm.global name v
    ((result, m.globalValue), w)

/-- Removes what a name stands for, and tells whether it is gone; variables stay. -/
def eraseName (m : Machine) (w : World) (f : Frame) (name : String) : Bool × World :=
  match w.resolve f.env name with
  | .slot .. => (false, w)
  | .property h => w.delete h name
  | .unbound => w.delete m.realm.global name

end Machine

namespace Turn

/-! ## Operands -/

/-- Pushes a value. -/
def push (w : World) (f : Frame) (v : Value) : Turn := next w (f.push v)

/-- Drops the top. -/
def pop (w : World) (f : Frame) : Turn :=
  match f.stack with
  | _ :: rest => next w { f with stack := rest }
  | [] => underflow w f

/-- Pushes the top once more. -/
def dup (w : World) (f : Frame) : Turn :=
  match f.stack with
  | v :: _ => push w f v
  | [] => underflow w f

/-- Replaces the top by a value computed of it. -/
def unary (w : World) (f : Frame) (op : Value → Value) : Turn :=
  match f.stack with
  | v :: rest => next w { f with stack := op v :: rest }
  | [] => underflow w f

/-- Replaces the two values at the top by the value of an operator. -/
def binary (w : World) (f : Frame) (op : BinaryOp) : Turn :=
  match f.stack with
  | b :: a :: rest => next w { f with stack := a.binary op b :: rest }
  | _ => underflow w f

/-! ## Variables by position -/

/-- Pushes a local. -/
def getLocal (w : World) (f : Frame) (slot : Nat) : Turn :=
  match f.locals[slot]? with
  | some v => push w f v
  | none => fault w f (.localOutOfRange slot)

/-- Stores the top in a local. -/
def setLocal (w : World) (f : Frame) (slot : Nat) : Turn :=
  match f.stack with
  | [] => underflow w f
  | v :: _ =>
    if slot < f.locals.size then next w { f with locals := f.locals.setIfInBounds slot v }
    else fault w f (.localOutOfRange slot)

/-- Pushes a slot of an environment; beyond its slots an environment has `undefined`. -/
def getEnv (w : World) (f : Frame) (depth slot : Nat) : Turn :=
  match f.env.bind fun id => w.envs.ancestor? id depth with
  | some id => push w f (w.envs.getSlot id slot)
  | none => fault w f (.noEnvironment depth)

/-- Stores the top in a slot of an environment. -/
def setEnv (w : World) (f : Frame) (depth slot : Nat) : Turn :=
  match f.stack with
  | [] => underflow w f
  | v :: _ =>
    match f.env.bind fun id => w.envs.ancestor? id depth with
    | none => fault w f (.noEnvironment depth)
    | some id =>
      if w.envs.hasSlot id slot then next { w with envs := w.envs.setSlot id slot v } f
      else fault w f (.slotOutOfRange slot)

/-! ## Variables by name -/

/-- Pushes a property of the global object, `undefined` if there is none. -/
def getGlobal (m : Machine) (w : World) (f : Frame) (name : String) : Turn :=
  ⟨w, f, .afterRead w.heap m.globalValue .push (w.heap.read m.realm.global name)⟩

/-- Stores the top in a property of the global object. -/
def setGlobal (m : Machine) (w : World) (f : Frame) (name : String) : Turn :=
  match f.stack with
  | [] => underflow w f
  | v :: _ =>
    let (result, w) := w.write m.realm.global name v
    ⟨w, f, .afterWrite w.heap m.globalValue v .discard result⟩

/-- Removes a property of the global object. -/
def deleteGlobal (m : Machine) (w : World) (f : Frame) (name : String) : Turn :=
  let (gone, w) := w.delete m.realm.global name
  push w f (.bool gone)

/-- Pushes what a name stands for. -/
def getName (m : Machine) (w : World) (f : Frame) (name : String) : Turn :=
  let (read, this) := m.readName w f name
  ⟨w, f, .afterRead w.heap this .push read⟩

/-- Stores the top in what a name stands for. -/
def setName (m : Machine) (w : World) (f : Frame) (name : String) : Turn :=
  match f.stack with
  | [] => underflow w f
  | v :: _ =>
    let ((result, this), w) := m.writeName w f name v
    ⟨w, f, .afterWrite w.heap this v .discard result⟩

/-- Calls what a name stands for. -/
def callName (m : Machine) (w : World) (f : Frame) (name : String) (argc : Nat) : Turn :=
  match f.popArgs? argc with
  | none => underflow w f
  | some (args, f) =>
    let (read, this) := m.readName w f name
    ⟨w, f, .afterRead w.heap this (.callWith this args name) read⟩

/-- Removes what a name stands for. -/
def deleteName (m : Machine) (w : World) (f : Frame) (name : String) : Turn :=
  let (gone, w) := m.eraseName w f name
  push w f (.bool gone)

/-! ## Properties and calls -/

/-- Replaces an object by its property. -/
def getMember (m : Machine) (w : World) (f : Frame) (index : Nat) (site : CallSite) : Turn :=
  match f.stack with
  | [] => underflow w f
  | receiver :: rest =>
    let f := { f with stack := rest }
    match m.readMember w (f.site index) .load receiver site.name with
    | (.ok read, w) => ⟨w, f, .afterRead w.heap receiver .push read⟩
    | (.error e, w) => ⟨w, f, .raise e⟩

/-- Stores the top in a property of the object below; only the value stays. -/
def setMember (m : Machine) (w : World) (f : Frame) (index : Nat) (site : CallSite) : Turn :=
  match f.stack with
  | v :: receiver :: rest =>
    let f := { f with stack := rest }
    match m.writeMember w (f.site index) receiver site.name v with
    | (.ok result, w) => ⟨w, f, .afterWrite w.heap receiver v (.pushInstead v) result⟩
    | (.error e, w) => ⟨w, f, .raise e⟩
  | _ => underflow w f

/-- Removes a property of an object. -/
def deleteMember (w : World) (f : Frame) (name : String) : Turn :=
  match f.stack with
  | [] => underflow w f
  | .object h :: rest =>
    let (gone, w) := w.delete h name
    next w { f with stack := .bool gone :: rest }
  | v :: rest =>
    if v.isNullish then
      let e := .typeError s!"cannot delete property '{name}' of {v.toText}"
      ⟨w, { f with stack := rest }, .raise e⟩
    else next w { f with stack := .bool true :: rest }

/-- Takes the arguments and the value below them off the stack. -/
def withArgs (w : World) (f : Frame) (argc : Nat) (k : Value → List Value → Frame → Turn) : Turn :=
  match f.popArgs? argc with
  | none => underflow w f
  | some (args, f) =>
    match f.stack with
    | [] => underflow w f
    | v :: rest => k v args { f with stack := rest }

/-- Calls a property of an object on it. -/
def invokeMember (m : Machine) (w : World) (f : Frame) (index : Nat) (site : CallSite) : Turn :=
  withArgs w f site.argc.toNat fun receiver args f =>
    match m.readMember w (f.site index) .method receiver site.name with
    | (.ok read, w) => ⟨w, f, .afterRead w.heap receiver (.callWith receiver args site.name) read⟩
    | (.error e, w) => ⟨w, f, .raise e⟩

/-- Calls a value that was read from a global. -/
def callGlobal (m : Machine) (w : World) (f : Frame) (index : Nat) (site : CallSite) : Turn :=
  withArgs w f site.argc.toNat fun callee args f =>
    match w.globalTarget m.config.cacheMode (f.site index) callee with
    | (some target, w) => ⟨w, f, .enter callee target m.globalValue args .push⟩
    | (none, w) => ⟨w, f, .raise (.notCallable site.name)⟩

/-- Calls any value. -/
def call (m : Machine) (w : World) (f : Frame) (argc : Nat) : Turn :=
  withArgs w f argc fun callee args f =>
    ⟨w, f, .call w.heap callee m.globalValue args "expression" .push⟩

/-! ## Objects -/

/-- Pushes a function over the current environment. -/
def closure (m : Machine) (w : World) (f : Frame) (index : Nat) : Turn :=
  match m.code f.unit index with
  | .error e => fault w f e
  | .ok (_, function) =>
    let callable := .script ⟨f.unit, index, f.env⟩
    let (h, heap) := m.realm.newFunction w.heap callable function.name function.params.length
    push { w with heap } f (.object h)

/-- Pushes a new object. -/
def newObject (m : Machine) (w : World) (f : Frame) : Turn :=
  let (h, heap) := m.realm.newObject w.heap
  push { w with heap } f (.object h)

/-- Defines a property of the object below the top. -/
def initProperty (w : World) (f : Frame) (name : String) : Turn :=
  match f.stack with
  | v :: .object h :: rest =>
    let heap := (w.heap.define h name (.data v .default)).2
    next { w with heap } { f with stack := .object h :: rest }
  | _ :: _ :: _ => fault w f .initNonObject
  | _ => underflow w f

/-! ## Flow -/

/-- Drops the top, and goes on at an offset if it is false. -/
def jumpIfFalse (w : World) (f : Frame) (target : Nat) : Turn :=
  match f.stack with
  | v :: rest =>
    let f := { f with stack := rest }
    next w (if v.toBool then f else f.jump target)
  | [] => underflow w f

/-- Goes on at an offset if the truth of the top is as given, else drops it. -/
def jumpOrPop (w : World) (f : Frame) (truth : Bool) (target : Nat) : Turn :=
  match f.stack with
  | v :: rest => next w (if v.toBool = truth then f.jump target else { f with stack := rest })
  | [] => underflow w f

/-- Raises the top. -/
def throwTop (w : World) (f : Frame) : Turn :=
  match f.stack with
  | v :: rest => ⟨w, { f with stack := rest }, .raise (.thrown v)⟩
  | [] => underflow w f

/-- Returns the top. -/
def retTop (w : World) (f : Frame) : Turn :=
  match f.stack with
  | v :: rest => ⟨w, { f with stack := rest }, .ret v⟩
  | [] => underflow w f

/-! ## Regions -/

/-- Pushes an object onto the chain of environments. -/
def enterWith (w : World) (f : Frame) : Turn :=
  match f.stack with
  | [] => underflow w f
  | .object h :: rest =>
    let (id, envs) := w.envs.pushObject h f.env
    next { w with envs } { f with stack := rest, env := some id }
  | v :: rest =>
    let e := .typeError s!"with target is not an object: {v.toText}"
    ⟨w, { f with stack := rest }, .raise e⟩

/-- Takes the object off the chain. -/
def exitWith (w : World) (f : Frame) : Turn :=
  match f.env with
  | none => fault w f .noObjectScope
  | some id =>
    match w.envs.get? id with
    | some ⟨.object _, _, parent⟩ => next w { f with env := parent }
    | _ => fault w f .notObjectScope

/-- Leaves a protected region. -/
def tryEnd (w : World) (f : Frame) : Turn :=
  match f.handlers with
  | _ :: outer => next w { f with handlers := outer }
  | [] => fault w f .noHandler

end Turn

namespace Machine

/-- Executes an instruction. -/
def execute (m : Machine) (w : World) (f : Frame) : Instruction → Turn
  | .push v => .push w f v
  | .pop => .pop w f
  | .dup => .dup w f
  | .getLocal slot => .getLocal w f slot
  | .setLocal slot => .setLocal w f slot
  | .getEnv depth slot => .getEnv w f depth slot
  | .setEnv depth slot => .setEnv w f depth slot
  | .getGlobal name => .getGlobal m w f name
  | .setGlobal name => .setGlobal m w f name
  | .deleteGlobal name => .deleteGlobal m w f name
  | .getName name => .getName m w f name
  | .setName name => .setName m w f name
  | .callName name argc => .callName m w f name argc
  | .deleteName name => .deleteName m w f name
  | .getMember i site => .getMember m w f i site
  | .setMember i site => .setMember m w f i site
  | .deleteMember name => .deleteMember w f name
  | .callGlobal i site => .callGlobal m w f i site
  | .invokeMember i site => .invokeMember m w f i site
  | .call argc => .call m w f argc
  | .closure index => .closure m w f index
  | .newObject => .newObject m w f
  | .initProperty name => .initProperty w f name
  | .getThis => .push w f f.this
  | .getCallee => .push w f f.callee
  | .binary op => .binary w f op
  | .negate => .unary w f Value.negate
  | .plus => .unary w f Value.plus
  | .not => .unary w f Value.not
  | .typeof => .unary w f fun v => .string (w.heap.typeName v)
  | .jump target => .next w (f.jump target)
  | .jumpIfFalse target => .jumpIfFalse w f target
  | .jumpIfFalseOrPop target => .jumpOrPop w f false target
  | .jumpIfTrueOrPop target => .jumpOrPop w f true target
  | .enterWith => .enterWith w f
  | .exitWith => .exitWith w f
  | .tryBegin target => .next w (f.protect target)
  | .tryEnd => .tryEnd w f
  | .throw => .throwTop w f
  | .ret => .retTop w f
  | .retUndefined => ⟨w, f, .ret .undefined⟩

/-- Executes the next instruction of a frame. At the end of its code a function returns
`undefined`. -/
def advance (m : Machine) (w : World) (f : Frame) : Turn :=
  match m.code f.unit f.index with
  | .error e => .fault w f e
  | .ok (unit, function) =>
    match Instruction.read unit.pool function f.ip with
    | .error e => .fault w f e
    | .ok none => ⟨w, f, .ret .undefined⟩
    | .ok (some (i, next)) => m.execute w (f.jump next) i

end Machine

end ScriptEngine
