import ScriptEngine.Compile
import ScriptEngine.Proofs.Code.Generated
import ScriptEngine.Proofs.Positions.Analysis

/-!
# Generation does not look at positions

The current position of an emitter is kept where the next one is unknown, and it goes into line tables, call
sites, functions and errors. Nothing is decided by it. A generating computation *forgets* positions (`Forgets`)
if, started where nothing has a position, it does what it does elsewhere: it fails for the same cause, or it
gives the same answer and leaves what it leaves elsewhere without the positions.

Forgetting composes, so there is one small lemma for each thing that is emitted and one arm for each kind of
node. Compiling a program without positions then gives what compiling the program gives, without positions.
-/

namespace ScriptEngine

open Generation

/-! ## Code without positions -/

/-- The code, with no line for any byte. -/
def Chunk.unplaced (c : Chunk) : Chunk := { c with lines := c.lines.map fun _ => 0 }

/-- The site, written nowhere. -/
def CallSite.unplaced (site : CallSite) : CallSite := { site with span := Span.none }

/-- The function, written nowhere. -/
def CodeFunction.unplaced (f : CodeFunction) : CodeFunction :=
  { f with chunk := f.chunk.unplaced, sites := f.sites.map CallSite.unplaced, span := Span.none }

/-- The unit without positions. -/
def CodeUnit.unplaced (u : CodeUnit) : CodeUnit := { u with functions := u.functions.map CodeFunction.unplaced }

/-- What compilation has produced, without positions. The scope table has none. -/
def Compilation.unplaced (c : Compilation) : Compilation := { c with unit := c.unit.unplaced }

/-- The emitter without positions. -/
def Emitter.unplaced (e : Emitter) : Emitter := { e with chunk := e.chunk.unplaced, span := Span.none }

/-- The state of generation without positions. -/
def GenState.unplaced (s : GenState) : GenState :=
  ⟨s.emitter.unplaced, s.sites.map CallSite.unplaced, s.functions.map CodeFunction.unplaced⟩

/-- What has come out of something that can fail, without positions. -/
def unplacedOutcome {α : Type} (f : α → α) : Except CompileError α → Except CompileError α
  | .ok a => .ok (f a)
  | .error e => .error e.unplaced

namespace Chunk

/-- A byte is written. -/
theorem writeByte_unplaced (c : Chunk) (b : UInt8) (line : UInt32) :
    c.unplaced.writeByte b 0 = (c.writeByte b line).unplaced := by
  simp [writeByte, unplaced]

/-- An operand of two bytes is written. -/
theorem writeShort_unplaced (c : Chunk) (n : UInt16) (line : UInt32) :
    c.unplaced.writeShort n 0 = (c.writeShort n line).unplaced := by
  simp only [writeShort, writeByte_unplaced _ _ line]

/-- An opcode is written. -/
theorem writeOp_unplaced (c : Chunk) (op : Opcode) (line : UInt32) :
    c.unplaced.writeOp op 0 = (c.writeOp op line).unplaced :=
  c.writeByte_unplaced op.toByte line

/-- The offset of what is written next. -/
theorem size_unplaced (c : Chunk) : c.unplaced.size = c.size := rfl

/-- A forward jump is written. -/
theorem writeJump_unplaced (c : Chunk) (op : Opcode) (line : UInt32) :
    c.unplaced.writeJump op 0 = ((c.writeJump op line).1, (c.writeJump op line).2.unplaced) := by
  rw [writeJump, writeJump]
  simp only [c.writeOp_unplaced op line, size_unplaced, writeShort_unplaced _ _ line]

/-- A forward jump is patched. -/
theorem patchJump_unplaced (c : Chunk) (offset : Nat) :
    c.unplaced.patchJump offset = (c.patchJump offset).map unplaced := by
  have hdistance : c.unplaced.distanceFrom offset = c.distanceFrom offset := rfl
  rw [patchJump, patchJump]
  simp only [hdistance]
  split
  · rfl
  · rfl

/-- A backward jump is written. -/
theorem writeLoop_unplaced (c : Chunk) (start : Nat) (line : UInt32) :
    c.unplaced.writeLoop start 0 = ((c.writeLoop start line).1.unplaced, (c.writeLoop start line).2) := by
  rw [writeLoop, writeLoop]
  simp only [c.writeOp_unplaced .loop line, size_unplaced, writeShort_unplaced _ _ line]
  split
  · rfl
  · rfl

end Chunk

/-! ## Computations that forget positions -/

/-- What a computation leaves, without positions. -/
def unplacedResult {σ α : Type} (u : σ → σ) :
    EStateM.Result CompileError σ α → EStateM.Result CompileError σ α
  | .ok a s => .ok a (u s)
  | .error e s => .error e.unplaced (u s)

/-- The second computation does where nothing has a position what the first one does anywhere. -/
def Forgets {σ α : Type} (u : σ → σ) (m m' : EStateM CompileError σ α) : Prop :=
  ∀ s, m' (u s) = unplacedResult u (m s)

namespace Forgets

variable {σ α β : Type} {u : σ → σ} {m m' : EStateM CompileError σ α} {f f' : α → EStateM CompileError σ β}

/-- Nothing is done. -/
theorem pure (a : α) : Forgets u (pure a) (pure a) := fun _ => rfl

/-- An error of the same cause. -/
theorem throw {e e' : CompileError} (h : e' = e.unplaced) :
    Forgets u (throw e : EStateM CompileError σ α) (throw e') := by
  subst h
  exact fun _ => rfl

/-- One after the other. -/
theorem bind (h : Forgets u m m') (hf : ∀ a, Forgets u (f a) (f' a)) : Forgets u (m >>= f) (m' >>= f') := by
  intro s
  show EStateM.bind m' f' (u s) = unplacedResult u (EStateM.bind m f s)
  rw [EStateM.bind, EStateM.bind, h s]
  cases m s with
  | ok a s' => exact hf a s'
  | error e s' => rfl

/-- The state is looked at. What is done then may depend on the positions in it only as far as they are
forgotten. -/
theorem bind_get {g g' : σ → EStateM CompileError σ β} (h : ∀ s, Forgets u (g s) (g' (u s))) :
    Forgets u (get >>= g) (get >>= g') :=
  fun s => h s s

/-- The state is changed. -/
theorem modify {g g' : σ → σ} (h : ∀ s, g' (u s) = u (g s)) :
    Forgets u (modify g : EStateM CompileError σ PUnit) (modify g') :=
  fun s => congrArg (EStateM.Result.ok PUnit.unit) (h s)

/-- The same choice is made. -/
theorem ite {p : Prop} [Decidable p] {m₁ m₁' m₂ m₂' : EStateM CompileError σ α} (h₁ : Forgets u m₁ m₁')
    (h₂ : Forgets u m₂ m₂') : Forgets u (if p then m₁ else m₂) (if p then m₁' else m₂') := by
  split
  · exact h₁
  · exact h₂

end Forgets

/-! ## Emitting -/

namespace Emitter

/-- A new position is forgotten, and so is the old one. -/
theorem setSpan_forgets (span : Span) : Forgets unplaced (setSpan span) (setSpan Span.none) := by
  refine .modify fun e => ?_
  rw [if_pos (show Span.none.isUnknown = true from rfl)]
  split
  · rfl
  · rfl

/-- A resource is exhausted. -/
theorem exceeded_forgets {α : Type} (resource : Resource) :
    Forgets unplaced (exceeded resource : Emit α) (exceeded resource) :=
  .bind_get fun _ => .throw rfl

/-- A number is checked. -/
theorem checked_forgets (n : Nat) (resource : Resource) :
    Forgets unplaced (checked n resource) (checked n resource) :=
  .ite (.pure n) (exceeded_forgets resource)

/-- An opcode is emitted. -/
theorem op_forgets (o : Opcode) : Forgets unplaced (op o) (op o) :=
  .modify fun e => congrArg (Emitter.mk · e.pool Span.none) (e.chunk.writeByte_unplaced o.toByte e.line)

/-- An operand of one byte is emitted. -/
theorem byteOperand_forgets (b : UInt8) : Forgets unplaced (byteOperand b) (byteOperand b) :=
  .modify fun e => congrArg (Emitter.mk · e.pool Span.none) (e.chunk.writeByte_unplaced b e.line)

/-- An operand of two bytes is emitted. -/
theorem shortOperand_forgets (n : UInt16) : Forgets unplaced (shortOperand n) (shortOperand n) :=
  .modify fun e => congrArg (Emitter.mk · e.pool Span.none) (e.chunk.writeShort_unplaced n e.line)

/-- An opcode with an operand of one byte. -/
theorem opByte_forgets (o : Opcode) (b : UInt8) : Forgets unplaced (opByte o b) (opByte o b) :=
  (op_forgets o).bind fun _ => byteOperand_forgets b

/-- An opcode with an operand of two bytes. -/
theorem opShort_forgets (o : Opcode) (n : UInt16) : Forgets unplaced (opShort o n) (opShort o n) :=
  (op_forgets o).bind fun _ => shortOperand_forgets n

/-- An opcode with an operand that is checked. -/
theorem opIndex_forgets (o : Opcode) (n : Nat) (resource : Resource) :
    Forgets unplaced (opIndex o n resource) (opIndex o n resource) :=
  (checked_forgets n resource).bind fun n => opShort_forgets o n.toUInt16

/-- A constant joins the pool. -/
theorem constantIndex_forgets (c : Constant) : Forgets unplaced (constantIndex c) (constantIndex c) :=
  .bind_get fun e => .bind (fun _ => rfl) fun _ => checked_forgets (e.pool.add c).1 .constants

/-- A constant is emitted. -/
theorem constant_forgets (c : Constant) : Forgets unplaced (constant c) (constant c) :=
  (constantIndex_forgets c).bind fun i => opShort_forgets .constant i.toUInt16

/-- An opcode with a name. -/
theorem opName_forgets (o : Opcode) (name : String) : Forgets unplaced (opName o name) (opName o name) :=
  (constantIndex_forgets (.string name)).bind fun i => opShort_forgets o i.toUInt16

/-- An access to an environment. -/
theorem env_forgets (o : Opcode) (depth slot : Nat) : Forgets unplaced (env o depth slot) (env o depth slot) :=
  (checked_forgets depth .environmentDepth).bind fun depth =>
    (checked_forgets slot .environmentSlots).bind fun slot =>
      (opByte_forgets o depth.toUInt8).bind fun _ => shortOperand_forgets slot.toUInt16

/-- A call of any value. -/
theorem call_forgets (argc : Nat) : Forgets unplaced (call argc) (call argc) :=
  (checked_forgets argc .callArguments).bind fun argc => opByte_forgets .call argc.toUInt8

/-- A call by name. -/
theorem callName_forgets (name : String) (argc : Nat) :
    Forgets unplaced (callName name argc) (callName name argc) :=
  (checked_forgets argc .callArguments).bind fun argc =>
    (opName_forgets .callName name).bind fun _ => byteOperand_forgets argc.toUInt8

/-- A forward jump is emitted; its label is the same, for it counts bytes. -/
theorem jump_forgets (o : Opcode) : Forgets unplaced (jump o) (jump o) := by
  intro e
  show EStateM.Result.ok (JumpLabel.mk (e.chunk.unplaced.writeJump o 0).1)
    (Emitter.mk (e.chunk.unplaced.writeJump o 0).2 e.pool Span.none) = _
  rw [e.chunk.writeJump_unplaced o e.line]
  rfl

/-- A forward jump is patched. -/
theorem patch_forgets (label : JumpLabel) : Forgets unplaced (patch label) (patch label) := by
  refine .bind_get fun e => ?_
  have hpatch : e.unplaced.chunk.patchJump label.offset =
      (e.chunk.patchJump label.offset).map Chunk.unplaced := e.chunk.patchJump_unplaced label.offset
  rw [hpatch]
  cases e.chunk.patchJump label.offset with
  | ok chunk => exact fun _ => rfl
  | error distance => exact exceeded_forgets .jumpDistance

/-- A backward jump is emitted. -/
theorem loop_forgets (target : Nat) : Forgets unplaced (loop target) (loop target) := by
  refine .bind_get fun e => ?_
  have hloop : e.unplaced.chunk.writeLoop target e.unplaced.line =
      ((e.chunk.writeLoop target e.line).1.unplaced, (e.chunk.writeLoop target e.line).2) :=
    e.chunk.writeLoop_unplaced target e.line
  rw [hloop]
  generalize e.chunk.writeLoop target e.line = written
  obtain ⟨chunk, outcome⟩ := written
  refine .bind (fun _ => rfl) fun _ => ?_
  cases outcome with
  | ok _ => exact .pure ()
  | error _ => exact exceeded_forgets .loopBody

end Emitter

/-! ## Generating -/

namespace Generation

/-- What is emitted into the code of the current function. -/
theorem emit_forgets {α : Type} {m m' : Emit α} (h : Forgets Emitter.unplaced m m') :
    Forgets GenState.unplaced (emit m) (emit m') := by
  rintro ⟨emitter, sites, functions⟩
  simp only [emit, GenState.unplaced]
  rw [h emitter]
  cases m emitter with
  | ok a emitter' => rfl
  | error e emitter' => rfl

/-- A call site is added. -/
theorem addSite_forgets (kind : SiteKind) (name : String) (argc : Nat) (span : Span) :
    Forgets GenState.unplaced (addSite kind name argc span) (addSite kind name argc Span.none) := by
  rw [addSite, addSite]
  split
  · exact fun _ => rfl
  · intro s
    show EStateM.Result.ok _ _ = EStateM.Result.ok _ _
    simp [GenState.unplaced, CallSite.unplaced]

/-- An operation goes through a call site. -/
theorem opSite_forgets (op : Opcode) (kind : SiteKind) (name : String) (argc : Nat) (span : Span) :
    Forgets GenState.unplaced (opSite op kind name argc span) (opSite op kind name argc Span.none) :=
  (addSite_forgets kind name argc span).bind fun site =>
    (emit_forgets (Emitter.setSpan_forgets span)).bind fun _ =>
      emit_forgets (Emitter.opIndex_forgets op site .callSites)

/-- An opcode without operands. -/
theorem op_forgets (o : Opcode) : Forgets GenState.unplaced (emit (Emitter.op o)) (emit (Emitter.op o)) :=
  emit_forgets (Emitter.op_forgets o)

/-- An opcode with a name. -/
theorem opName_forgets (o : Opcode) (name : String) :
    Forgets GenState.unplaced (emit (Emitter.opName o name)) (emit (Emitter.opName o name)) :=
  emit_forgets (Emitter.opName_forgets o name)

/-- The variable of a name. -/
theorem varOf_forgets (x : Identifier) (span : Span) :
    Forgets GenState.unplaced (varOf x span) (varOf x Span.none) := by
  rw [varOf, varOf]
  split
  · exact .pure _
  · exact .throw rfl

/-- The number of links to a variable. -/
theorem depthOf_forgets (c : GenContext) (v : VarId) (x : Identifier) (span : Span) :
    Forgets GenState.unplaced (depthOf c v x span) (depthOf c v x Span.none) := by
  rw [depthOf, depthOf]
  split
  · exact .pure _
  · exact .throw rfl

/-- A name is read. -/
theorem load_forgets (c : GenContext) (x : Identifier) (span : Span) :
    Forgets GenState.unplaced (load c x span) (load c x Span.none) := by
  refine (varOf_forgets x span).bind fun v => ?_
  cases c.table.slotOf v with
  | frame slot => exact emit_forgets (Emitter.opIndex_forgets .getLocal slot .localSlots)
  | env slot =>
    exact (depthOf_forgets c v x span).bind fun depth => emit_forgets (Emitter.env_forgets .getEnv depth slot)
  | global => exact opName_forgets .getGlobal x.name

/-- A name is written. -/
theorem store_forgets (c : GenContext) (x : Identifier) (span : Span) :
    Forgets GenState.unplaced (store c x span) (store c x Span.none) := by
  refine (varOf_forgets x span).bind fun v => ?_
  cases c.table.slotOf v with
  | frame slot => exact emit_forgets (Emitter.opIndex_forgets .setLocal slot .localSlots)
  | env slot =>
    exact (depthOf_forgets c v x span).bind fun depth => emit_forgets (Emitter.env_forgets .setEnv depth slot)
  | global => exact opName_forgets .setGlobal x.name

/-- A name is deleted. -/
theorem erase_forgets (c : GenContext) (x : Identifier) (span : Span) :
    Forgets GenState.unplaced (erase c x span) (erase c x Span.none) := by
  refine (varOf_forgets x span).bind fun v => ?_
  cases c.table.slotOf v with
  | frame slot => exact op_forgets .pushFalse
  | env slot => exact op_forgets .pushFalse
  | global => exact opName_forgets .deleteGlobal x.name

/-- The places of parameters. -/
theorem paramSlots_forgets (c : GenContext) (params : List Identifier) (span : Span) :
    Forgets GenState.unplaced (paramSlots c params span) (paramSlots c params Span.none) := by
  rw [paramSlots, paramSlots]
  induction params with
  | nil => exact .pure _
  | cons x rest ih =>
    rw [List.mapM_cons, List.mapM_cons]
    exact ((varOf_forgets x span).bind fun v => .pure _).bind fun slot => ih.bind fun slots => .pure _

/-- A literal is emitted. -/
theorem literal_forgets (l : Literal) : Forgets GenState.unplaced (literal l) (literal l) := by
  cases l with
  | undefined => exact op_forgets .pushUndefined
  | null => exact op_forgets .pushNull
  | bool b => exact op_forgets _
  | number n => exact emit_forgets (Emitter.constant_forgets (.number n))
  | string s => exact emit_forgets (Emitter.constant_forgets (.string s))

/-- A unary operator is emitted. -/
theorem unaryOp_forgets (op : UnaryOp) : Forgets GenState.unplaced (unaryOp op) (unaryOp op) := by
  cases op with
  | void => exact (op_forgets .pop).bind fun _ => op_forgets .pushUndefined
  | neg => exact op_forgets .neg
  | plus => exact op_forgets .plus
  | not => exact op_forgets .not
  | typeof => exact op_forgets .typeof

/-- An expression is ended. -/
theorem settle_forgets (c : GenContext) (pos : Position) :
    Forgets GenState.unplaced (settle c pos) (settle c pos) := by
  cases pos with
  | value => exact .pure ()
  | effect =>
    rw [settle]
    cases c.completion with
    | none => exact op_forgets .pop
    | some slot =>
      exact (emit_forgets (Emitter.opIndex_forgets .setLocal slot .localSlots)).bind fun _ => op_forgets .pop

/-- A statement is started. -/
theorem expectEffect_forgets (n : Node) (pos : Position) :
    Forgets GenState.unplaced (expectEffect n pos) (expectEffect n.unplaced pos) := by
  cases pos with
  | value =>
    refine .throw ?_
    rw [n.span_unplaced, show n.unplaced.kind = n.kind by cases n <;> rfl]
    rfl
  | effect => exact .pure ()

/-- A caught value is bound. -/
theorem bindCaught_forgets (c : GenContext) (param : Option Identifier) (span : Span) :
    Forgets GenState.unplaced (bindCaught c param span) (bindCaught c param Span.none) := by
  cases param with
  | none => exact op_forgets .pop
  | some x => exact (store_forgets c x span).bind fun _ => op_forgets .pop

/-- A function binds its own name. -/
theorem bindOwnName_forgets (c : GenContext) (name : Option Identifier) (isDeclaration : Bool) (span : Span) :
    Forgets GenState.unplaced (bindOwnName c name isDeclaration span)
      (bindOwnName c name isDeclaration Span.none) := by
  cases isDeclaration with
  | true => exact .pure ()
  | false =>
    cases name with
    | none => exact .pure ()
    | some x =>
      refine .ite ?_ (.pure ())
      exact (op_forgets .getCallee).bind fun _ => (store_forgets c x span).bind fun _ => op_forgets .pop

/-! ## Operations over generated parts -/

section

variable {m₁ m₁' m₂ m₂' m₃ m₃' : Gen Unit}

/-- A binary operation. -/
theorem binary_forgets (op : BinaryOp) (h₁ : Forgets GenState.unplaced m₁ m₁')
    (h₂ : Forgets GenState.unplaced m₂ m₂') :
    Forgets GenState.unplaced (binary op m₁ m₂) (binary op m₁' m₂') := by
  rw [binary, binary]
  split
  · next opcode _ => exact h₁.bind fun _ => h₂.bind fun _ => op_forgets opcode
  · exact h₁.bind fun _ => (emit_forgets (Emitter.jump_forgets _)).bind fun skip =>
      h₂.bind fun _ => emit_forgets (Emitter.patch_forgets skip)

/-- A call. The form of the target is the same without positions. -/
theorem call_forgets (c : GenContext) (span : Span) (form : Node) (argc : Nat)
    (htarget : Forgets GenState.unplaced m₁ m₁') (hargs : Forgets GenState.unplaced m₂ m₂')
    (hreceiver : Forgets GenState.unplaced m₃ m₃') :
    Forgets GenState.unplaced (call c span form m₁ argc m₂ m₃)
      (call c Span.none form.unplaced m₁' argc m₂' m₃') := by
  have hspan := emit_forgets (Emitter.setSpan_forgets span)
  have hany : Forgets GenState.unplaced
      (do m₁; m₂; emit (Emitter.setSpan span); emit (Emitter.call argc))
      (do m₁'; m₂'; emit (Emitter.setSpan Span.none); emit (Emitter.call argc)) :=
    htarget.bind fun _ => hargs.bind fun _ => hspan.bind fun _ => emit_forgets (Emitter.call_forgets argc)
  cases form with
  | member i target name =>
    exact hreceiver.bind fun _ => hargs.bind fun _ => opSite_forgets .invokeMember .invokeMember name argc span
  | dynamic i name =>
    exact hargs.bind fun _ => hspan.bind fun _ => emit_forgets (Emitter.callName_forgets name argc)
  | identifier i x =>
    refine .ite ?_ hany
    exact (opName_forgets .getGlobal x.name).bind fun _ => hargs.bind fun _ =>
      opSite_forgets .callGlobal .globalCall x.name argc span
  | _ => exact hany

/-- An assignment. -/
theorem assign_forgets (c : GenContext) (span : Span) (form : Node) (hvalue : Forgets GenState.unplaced m₁ m₁')
    (hobject : Forgets GenState.unplaced m₂ m₂') :
    Forgets GenState.unplaced (assign c span form m₁ m₂) (assign c Span.none form.unplaced m₁' m₂') := by
  cases form with
  | identifier i x => exact hvalue.bind fun _ => store_forgets c x span
  | dynamic i name => exact hvalue.bind fun _ => opName_forgets .setName name
  | member i object name =>
    exact hobject.bind fun _ => hvalue.bind fun _ => opSite_forgets .setMember .setMember name 0 span
  | _ => exact .throw rfl

/-- A removal. -/
theorem delete_forgets (c : GenContext) (form : Node) (htarget : Forgets GenState.unplaced m₁ m₁')
    (hobject : Forgets GenState.unplaced m₂ m₂') :
    Forgets GenState.unplaced (delete c form m₁ m₂) (delete c form.unplaced m₁' m₂') := by
  have hany : Forgets GenState.unplaced (do m₁; emit (Emitter.op .pop); emit (Emitter.op .pushTrue))
      (do m₁'; emit (Emitter.op .pop); emit (Emitter.op .pushTrue)) :=
    htarget.bind fun _ => (op_forgets .pop).bind fun _ => op_forgets .pushTrue
  cases form with
  | member i object name => exact hobject.bind fun _ => opName_forgets .deleteMember name
  | identifier i x => exact erase_forgets c x i.span
  | dynamic i name => exact opName_forgets .deleteName name
  | _ => exact hany

/-- What is put aside where the code of an inner function begins has positions too. -/
theorem bind_beginFunction_forgets {α : Type} (span : Span) {f f' : Chunk × Span × Array CallSite → Gen α}
    (h : ∀ aside, Forgets GenState.unplaced (f aside)
      (f' (aside.1.unplaced, Span.none, aside.2.2.map CallSite.unplaced))) :
    Forgets GenState.unplaced (beginFunction span >>= f) (beginFunction Span.none >>= f') := by
  intro s
  have hstart := h (s.emitter.chunk, s.emitter.span, s.sites)
    ⟨⟨{}, s.emitter.pool, if span.isUnknown then Span.none else span⟩, #[], s.functions⟩
  have hempty : ({} : Chunk).unplaced = {} := by simp [Chunk.unplaced]
  simp only [GenState.unplaced, Emitter.unplaced, hempty, Array.map_empty] at hstart
  exact hstart

/-- The code of an inner function is set between that of the function around it, which is put aside and
comes back. -/
theorem function_forgets (c : GenContext) (name : Option Identifier) (params : List Identifier)
    (isDeclaration : Bool) (scope : Option ScopeId) (span : Span)
    {declarations declarations' body body' : GenContext → Gen Unit}
    (hdeclarations : ∀ inner, Forgets GenState.unplaced (declarations inner) (declarations' inner))
    (hbody : ∀ inner, Forgets GenState.unplaced (body inner) (body' inner)) :
    Forgets GenState.unplaced (function c name params isDeclaration scope span declarations body)
      (function c name params isDeclaration scope Span.none declarations' body') := by
  cases scope with
  | none => exact .throw rfl
  | some scope =>
    refine (paramSlots_forgets c params span).bind fun slots => bind_beginFunction_forgets span fun aside => ?_
    refine (bindOwnName_forgets _ name isDeclaration span).bind fun _ => (hdeclarations _).bind fun _ =>
      (hbody _).bind fun _ => (op_forgets .retUndefined).bind fun _ s => ?_
    show EStateM.Result.ok _ _ = EStateM.Result.ok _ _
    simp [GenState.unplaced, Emitter.unplaced, CodeFunction.unplaced]

end

/-- A list has as many nodes without positions. -/
theorem length_unplacedAll (ns : List Node) : (unplacedAll ns).length = ns.length := by
  induction ns with
  | nil => rfl
  | cons n rest ih => exact congrArg (· + 1) ih

/-- A function that is made. -/
theorem closure_forgets {m m' : Gen Nat} (h : Forgets GenState.unplaced m m') {k k' : Gen Unit}
    (hk : Forgets GenState.unplaced k k') :
    Forgets GenState.unplaced (do emit (Emitter.closure (← m)); k) (do emit (Emitter.closure (← m')); k') :=
  h.bind fun index => (emit_forgets (Emitter.opIndex_forgets .closure index .functions)).bind fun _ => hk

mutual

/-- **A node is generated** as if it were written nowhere. -/
theorem node_forgets : ∀ (n : Node) (c : GenContext) (pos : Position),
    Forgets GenState.unplaced (node c pos n) (node c pos n.unplaced)
  | .literal i l, c, pos => by
    refine (emit_forgets (Emitter.setSpan_forgets _)).bind fun _ => ?_
    exact (literal_forgets l).bind fun _ => settle_forgets c pos
  | .identifier i x, c, pos => by
    refine (emit_forgets (Emitter.setSpan_forgets _)).bind fun _ => ?_
    exact (load_forgets c x i.span).bind fun _ => settle_forgets c pos
  | .dynamic i name, c, pos => by
    refine (emit_forgets (Emitter.setSpan_forgets _)).bind fun _ => ?_
    exact (opName_forgets .getName name).bind fun _ => settle_forgets c pos
  | .this i, c, pos => by
    refine (emit_forgets (Emitter.setSpan_forgets _)).bind fun _ => ?_
    exact (op_forgets .getThis).bind fun _ => settle_forgets c pos
  | .call i target args, c, pos => by
    rw [Node.unplaced, node_call, node_call, length_unplacedAll]
    refine (emit_forgets (Emitter.setSpan_forgets _)).bind fun _ => ?_
    refine .bind ?_ fun _ => settle_forgets c pos
    refine call_forgets c i.span target args.length (node_forgets target c .value)
      (nodes_forgets args c .value) ?_
    cases target with
    | member j object name => exact node_forgets object c .value
    | _ => exact .pure ()
  | .member i target name, c, pos => by
    refine (emit_forgets (Emitter.setSpan_forgets _)).bind fun _ => ?_
    refine (node_forgets target c .value).bind fun _ => ?_
    exact (opSite_forgets .getMember .getMember name 0 i.span).bind fun _ => settle_forgets c pos
  | .binary i op lhs rhs, c, pos => by
    refine (emit_forgets (Emitter.setSpan_forgets _)).bind fun _ => ?_
    exact (binary_forgets op (node_forgets lhs c .value) (node_forgets rhs c .value)).bind fun _ =>
      settle_forgets c pos
  | .unary i op operand, c, pos => by
    refine (emit_forgets (Emitter.setSpan_forgets _)).bind fun _ => ?_
    exact (node_forgets operand c .value).bind fun _ => (unaryOp_forgets op).bind fun _ => settle_forgets c pos
  | .assign i target value, c, pos => by
    rw [Node.unplaced, node_assign, node_assign]
    refine (emit_forgets (Emitter.setSpan_forgets _)).bind fun _ => ?_
    refine .bind ?_ fun _ => settle_forgets c pos
    refine assign_forgets c i.span target (node_forgets value c .value) ?_
    cases target with
    | member j object name => exact node_forgets object c .value
    | _ => exact .pure ()
  | .function i name params body isDeclaration scope, c, pos => by
    refine (emit_forgets (Emitter.setSpan_forgets _)).bind fun _ => ?_
    refine .ite (.pure ()) ?_
    refine closure_forgets ?_ (settle_forgets c pos)
    exact function_forgets c name params isDeclaration scope i.span (fun inner => hoistedAll_forgets body inner)
      fun inner => nodes_forgets body inner .effect
  | .object i ps, c, pos => by
    refine (emit_forgets (Emitter.setSpan_forgets _)).bind fun _ => ?_
    exact (op_forgets .newObject).bind fun _ => (properties_forgets ps c).bind fun _ => settle_forgets c pos
  | .delete i target, c, pos => by
    rw [Node.unplaced, node_delete, node_delete]
    refine (emit_forgets (Emitter.setSpan_forgets _)).bind fun _ => ?_
    refine .bind ?_ fun _ => settle_forgets c pos
    refine delete_forgets c target (node_forgets target c .value) ?_
    cases target with
    | member j object name => exact node_forgets object c .value
    | _ => exact .pure ()
  | .var i binding none, c, pos => by
    refine (emit_forgets (Emitter.setSpan_forgets _)).bind fun _ => ?_
    exact (expectEffect_forgets _ pos).bind fun _ => .pure ()
  | .var i binding (some init), c, pos => by
    refine (emit_forgets (Emitter.setSpan_forgets _)).bind fun _ => ?_
    refine (expectEffect_forgets (.var i binding (some init)) pos).bind fun _ => ?_
    exact (node_forgets init c .value).bind fun _ => (store_forgets c binding i.span).bind fun _ =>
      op_forgets .pop
  | .ret i none, c, pos => by
    refine (emit_forgets (Emitter.setSpan_forgets _)).bind fun _ => ?_
    exact (expectEffect_forgets (.ret i none) pos).bind fun _ => op_forgets .retUndefined
  | .ret i (some value), c, pos => by
    refine (emit_forgets (Emitter.setSpan_forgets _)).bind fun _ => ?_
    refine (expectEffect_forgets (.ret i (some value)) pos).bind fun _ => ?_
    exact (node_forgets value c .value).bind fun _ => op_forgets .ret
  | .cond i condition thenBranch none, c, pos => by
    refine (emit_forgets (Emitter.setSpan_forgets _)).bind fun _ => ?_
    refine (expectEffect_forgets (.cond i condition thenBranch none) pos).bind fun _ => ?_
    refine (node_forgets condition c .value).bind fun _ => ?_
    refine (emit_forgets (Emitter.jump_forgets .jumpIfFalse)).bind fun toElse => ?_
    exact (node_forgets thenBranch c .effect).bind fun _ => emit_forgets (Emitter.patch_forgets toElse)
  | .cond i condition thenBranch (some elseBranch), c, pos => by
    refine (emit_forgets (Emitter.setSpan_forgets _)).bind fun _ => ?_
    refine (expectEffect_forgets (.cond i condition thenBranch (some elseBranch)) pos).bind fun _ => ?_
    refine (node_forgets condition c .value).bind fun _ => ?_
    refine (emit_forgets (Emitter.jump_forgets .jumpIfFalse)).bind fun toElse => ?_
    refine (node_forgets thenBranch c .effect).bind fun _ => ?_
    refine (emit_forgets (Emitter.jump_forgets .jump)).bind fun toEnd => ?_
    refine (emit_forgets (Emitter.patch_forgets toElse)).bind fun _ => ?_
    exact (node_forgets elseBranch c .effect).bind fun _ => emit_forgets (Emitter.patch_forgets toEnd)
  | .loop i condition body, c, pos => by
    refine (emit_forgets (Emitter.setSpan_forgets _)).bind fun _ => ?_
    refine (expectEffect_forgets (.loop i condition body) pos).bind fun _ => ?_
    refine .bind_get fun s => ?_
    refine (node_forgets condition c .value).bind fun _ => ?_
    refine (emit_forgets (Emitter.jump_forgets .jumpIfFalse)).bind fun exit => ?_
    refine (node_forgets body c .effect).bind fun _ => ?_
    exact (emit_forgets (Emitter.loop_forgets s.emitter.offset)).bind fun _ =>
      emit_forgets (Emitter.patch_forgets exit)
  | .block i body, c, pos => by
    refine (emit_forgets (Emitter.setSpan_forgets _)).bind fun _ => ?_
    exact (expectEffect_forgets (.block i body) pos).bind fun _ => nodes_forgets body c .effect
  | .withObject i object body, c, pos => by
    refine (emit_forgets (Emitter.setSpan_forgets _)).bind fun _ => ?_
    refine (expectEffect_forgets (.withObject i object body) pos).bind fun _ => ?_
    refine (node_forgets object c .value).bind fun _ => (op_forgets .enterWith).bind fun _ => ?_
    exact (node_forgets body c .effect).bind fun _ => op_forgets .exitWith
  | .throw i value, c, pos => by
    refine (emit_forgets (Emitter.setSpan_forgets _)).bind fun _ => ?_
    refine (expectEffect_forgets (.throw i value) pos).bind fun _ => ?_
    refine (node_forgets value c .value).bind fun _ => ?_
    exact (emit_forgets (Emitter.setSpan_forgets i.span)).bind fun _ => op_forgets .throw
  | .tryCatch i block param handler, c, pos => by
    refine (emit_forgets (Emitter.setSpan_forgets _)).bind fun _ => ?_
    refine (expectEffect_forgets (.tryCatch i block param handler) pos).bind fun _ => ?_
    refine (emit_forgets (Emitter.jump_forgets .tryBegin)).bind fun toHandler => ?_
    refine (node_forgets block c .effect).bind fun _ => (op_forgets .tryEnd).bind fun _ => ?_
    refine (emit_forgets (Emitter.jump_forgets .jump)).bind fun toEnd => ?_
    refine (emit_forgets (Emitter.patch_forgets toHandler)).bind fun _ => ?_
    refine (bindCaught_forgets c param i.span).bind fun _ => ?_
    exact (node_forgets handler c .effect).bind fun _ => emit_forgets (Emitter.patch_forgets toEnd)
termination_by structural n => n

/-- **Nodes are generated** as if they were written nowhere. -/
theorem nodes_forgets : ∀ (ns : List Node) (c : GenContext) (pos : Position),
    Forgets GenState.unplaced (nodes c pos ns) (nodes c pos (unplacedAll ns))
  | [], _, _ => .pure ()
  | n :: rest, c, pos => (node_forgets n c pos).bind fun _ => nodes_forgets rest c pos
termination_by structural ns => ns

/-- **Properties are generated** as if they were written nowhere. -/
theorem properties_forgets : ∀ (ps : List (String × Node)) (c : GenContext),
    Forgets GenState.unplaced (properties c ps) (properties c (unplacedProperties ps))
  | [], _ => .pure ()
  | (name, value) :: rest, c =>
    (node_forgets value c .value).bind fun _ => (opName_forgets .initProperty name).bind fun _ =>
      properties_forgets rest c
termination_by structural ps => ps

/-- **The functions that a statement declares** are generated as if they were written nowhere. They take the
position that the emitter happens to have. -/
theorem hoisted_forgets : ∀ (n : Node) (c : GenContext),
    Forgets GenState.unplaced (hoisted c n) (hoisted c n.unplaced)
  | .function i (some x) params body true scope, c => by
    refine .bind_get fun s => closure_forgets ?_ ?_
    · exact function_forgets c (some x) params true scope s.emitter.span
        (fun inner => hoistedAll_forgets body inner) fun inner => nodes_forgets body inner .effect
    · exact (store_forgets c x s.emitter.span).bind fun _ => op_forgets .pop
  | .function _ none _ _ true _, _ | .function _ _ _ _ false _, _ => .pure ()
  | .block i body, c => hoistedAll_forgets body c
  | .cond i condition thenBranch elseBranch, c =>
    (hoisted_forgets thenBranch c).bind fun _ => hoisted?_forgets elseBranch c
  | .loop i condition body, c => hoisted_forgets body c
  | .tryCatch i block param handler, c => (hoisted_forgets block c).bind fun _ => hoisted_forgets handler c
  | .literal .., _ | .identifier .., _ | .dynamic .., _ | .this .., _ | .call .., _ | .member .., _
  | .binary .., _ | .unary .., _ | .assign .., _ | .object .., _ | .delete .., _ | .var .., _ | .ret .., _
  | .withObject .., _ | .throw .., _ => .pure ()
termination_by structural n => n

/-- **The functions that statements declare.** -/
theorem hoistedAll_forgets : ∀ (ns : List Node) (c : GenContext),
    Forgets GenState.unplaced (hoistedAll c ns) (hoistedAll c (unplacedAll ns))
  | [], _ => .pure ()
  | n :: rest, c => (hoisted_forgets n c).bind fun _ => hoistedAll_forgets rest c
termination_by structural ns => ns

/-- **The functions that a statement declares** that may be missing. -/
theorem hoisted?_forgets : ∀ (n : Option Node) (c : GenContext),
    Forgets GenState.unplaced (hoisted? c n) (hoisted? c (unplaced? n))
  | none, _ => .pure ()
  | some n, c => hoisted_forgets n c
termination_by structural n => n

end

/-- **The code of a program** is generated as if the program were written nowhere. -/
theorem programCode_forgets (c : GenContext) (body : List Node) (completion : Nat) :
    Forgets GenState.unplaced (programCode c body completion) (programCode c (unplacedAll body) completion) :=
  (hoistedAll_forgets body c).bind fun _ => (nodes_forgets body c .effect).bind fun _ =>
    (emit_forgets (Emitter.opIndex_forgets .getLocal completion .localSlots)).bind fun _ => op_forgets .ret

end Generation

/-! ## Programs -/

/-- **A unit is generated** as if the program were written nowhere. -/
theorem generate_unplaced (t : ScopeTable) (p : Program) :
    generate t p.unplaced = unplacedOutcome CodeUnit.unplaced (generate t p) := by
  rw [generate, generate, show p.unplaced.scope = p.scope from rfl, show p.unplaced.analyzed = p.analyzed from rfl]
  split
  · next scope _ _ =>
    have hcode := programCode_forgets ⟨t, scope, some (t.layout scope).localCount⟩ p.body
      (t.layout scope).localCount {}
    have hstart : ({} : GenState).unplaced = {} := by
      simp [GenState.unplaced, Emitter.unplaced, Chunk.unplaced]
    rw [hstart] at hcode
    simp only [Program.unplaced, hcode]
    cases programCode ⟨t, scope, some (t.layout scope).localCount⟩ p.body (t.layout scope).localCount {} with
    | error e s => rfl
    | ok x s =>
      simp [unplacedResult, unplacedOutcome, CodeUnit.unplaced, CodeFunction.unplaced, GenState.unplaced,
        Emitter.unplaced]
  · rfl

/-- **A program is compiled** as if it were written nowhere. -/
theorem compile_unplaced (p : Program) :
    compile p.unplaced = (unplacedOutcome Compilation.unplaced (compile p).1, (compile p).2.unplaced) := by
  rw [compile, compile]
  rcases ha : Analyzer.program {} p with ⟨a, p'⟩
  have hstart : ({} : Analyzer).unplaced = {} := rfl
  have hanalysis := Analyzer.program_unplaced ha
  rw [hstart] at hanalysis
  simp only [hanalysis]
  rcases hf : a.failure with _ | e
  · have hnone : a.unplaced.failure = none := by simp [Analyzer.unplaced, hf]
    simp only [hnone]
    rw [show a.unplaced.finish = a.finish from rfl, generate_unplaced]
    cases generate a.finish p' with
    | error e => rfl
    | ok unit => rfl
  · have hsome : a.unplaced.failure = some e.unplaced := by simp [Analyzer.unplaced, hf]
    simp only [hsome]
    rfl

end ScriptEngine
