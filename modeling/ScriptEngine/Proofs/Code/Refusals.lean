import ScriptEngine.Proofs.Code.Faults
import ScriptEngine.Proofs.Code.Generated
import ScriptEngine.Proofs.Scope.Reach

/-!
# Why generation fails

Over the table of its analysis, a program is generated unless it needs more of something than an operand can
hold, or has a statement where a value is wanted. No name is left unresolved, and nothing outside of the table
is looked at.

To say the latter, generation is run over two tables of which the second begins with the first. Two generating
computations *agree* (`Agree`) if they do the same, and fail only for want of a resource or with one of some
faults. Agreement composes, so there is one small lemma for each thing that is emitted and one arm for each kind
of node; hoisting goes through the tree a second time, along the same parts. The main statement is
`Analyzer.program_refusals`.
-/

namespace ScriptEngine

open Generation

/-! ## Computations that agree -/

/-- The error is for want of a resource, or it is one of the faults. -/
def CompileError.Within (faults : List CompileError) (e : CompileError) : Prop :=
  (∃ resource span, e = .limitExceeded resource span) ∨ e ∈ faults

/-- The computations do the same, and what they fail with is within the faults. -/
structure Agree {σ α : Type} (faults : List CompileError) (m m' : EStateM CompileError σ α) : Prop where
  /-- They do the same. -/
  same : m' = m
  /-- What they fail with. -/
  fails : ∀ s e s', m s = .error e s' → e.Within faults

namespace Agree

variable {σ α β : Type} {faults : List CompileError} {m m' : EStateM CompileError σ α}
  {f f' : α → EStateM CompileError σ β}

/-- What never fails. -/
theorem ok (h : ∀ s, ∃ a s', m s = .ok a s') : Agree faults m m := by
  refine ⟨rfl, fun s e s' he => ?_⟩
  obtain ⟨a, s₁, hok⟩ := h s
  rw [hok] at he
  cases he

/-- Nothing is done. -/
theorem pure (a : α) : Agree faults (pure a : EStateM CompileError σ α) (pure a) := .ok fun _ => ⟨_, _, rfl⟩

/-- An error that is within the faults. -/
theorem throw {e : CompileError} (h : e.Within faults) :
    Agree faults (throw e : EStateM CompileError σ α) (throw e) := by
  refine ⟨rfl, fun s e' s' he => ?_⟩
  cases he
  exact h

/-- One after the other. -/
theorem bind (h : Agree faults m m') (hf : ∀ a, Agree faults (f a) (f' a)) :
    Agree faults (m >>= f) (m' >>= f') := by
  refine ⟨by rw [h.same, funext fun a => (hf a).same], fun s e s' he => ?_⟩
  change EStateM.bind m f s = _ at he
  rw [EStateM.bind] at he
  rcases hm : m s with ⟨a, s₁⟩ | ⟨e₁, s₁⟩
  · rw [hm] at he
    exact (hf a).fails s₁ e s' he
  · rw [hm] at he
    cases he
    exact h.fails s e s' hm

/-- The state is looked at. -/
theorem get : Agree faults (get : EStateM CompileError σ σ) get := .ok fun _ => ⟨_, _, rfl⟩

/-- The state is changed. -/
theorem modify (g : σ → σ) : Agree faults (modify g : EStateM CompileError σ PUnit) (modify g) :=
  .ok fun _ => ⟨_, _, rfl⟩

/-- The same choice is made. -/
theorem ite {p : Prop} [Decidable p] {m₁ m₁' m₂ m₂' : EStateM CompileError σ α} (h₁ : Agree faults m₁ m₁')
    (h₂ : Agree faults m₂ m₂') : Agree faults (if p then m₁ else m₂) (if p then m₁' else m₂') := by
  split
  · exact h₁
  · exact h₂

end Agree

/-! ## Emitting -/

namespace Emitter

variable {faults : List CompileError}

/-- A resource is exhausted. -/
theorem exceeded_agree {α : Type} (resource : Resource) :
    Agree faults (exceeded resource : Emit α) (exceeded resource) :=
  .bind .get fun _ => .throw (.inl ⟨_, _, rfl⟩)

/-- A number is checked. -/
theorem checked_agree (n : Nat) (resource : Resource) : Agree faults (checked n resource) (checked n resource) :=
  .ite (.pure n) (exceeded_agree resource)

/-- An opcode with an operand of one byte. -/
theorem opByte_agree (o : Opcode) (b : UInt8) : Agree faults (opByte o b) (opByte o b) :=
  (Agree.modify _).bind fun _ => .modify _

/-- An opcode with an operand of two bytes. -/
theorem opShort_agree (o : Opcode) (n : UInt16) : Agree faults (opShort o n) (opShort o n) :=
  (Agree.modify _).bind fun _ => .modify _

/-- An opcode with an operand that is checked. -/
theorem opIndex_agree (o : Opcode) (n : Nat) (resource : Resource) :
    Agree faults (opIndex o n resource) (opIndex o n resource) :=
  (checked_agree n resource).bind fun n => opShort_agree o n.toUInt16

/-- A constant joins the pool. -/
theorem constantIndex_agree (c : Constant) : Agree faults (constantIndex c) (constantIndex c) :=
  Agree.get.bind fun e => .bind (.ok fun _ => ⟨_, _, rfl⟩) fun _ => checked_agree (e.pool.add c).1 .constants

/-- An opcode with a name. -/
theorem opName_agree (o : Opcode) (name : String) : Agree faults (opName o name) (opName o name) :=
  (constantIndex_agree (.string name)).bind fun i => opShort_agree o i.toUInt16

/-- An access to an environment. -/
theorem env_agree (o : Opcode) (depth slot : Nat) : Agree faults (env o depth slot) (env o depth slot) :=
  (checked_agree depth .environmentDepth).bind fun depth =>
    (checked_agree slot .environmentSlots).bind fun _ => (opByte_agree o depth.toUInt8).bind fun _ => .modify _

/-- A call of any value. -/
theorem call_agree (argc : Nat) : Agree faults (call argc) (call argc) :=
  (checked_agree argc .callArguments).bind fun argc => opByte_agree .call argc.toUInt8

/-- A call by name. -/
theorem callName_agree (name : String) (argc : Nat) : Agree faults (callName name argc) (callName name argc) :=
  (checked_agree argc .callArguments).bind fun _ => (opName_agree .callName name).bind fun _ => .modify _

/-- A forward jump is patched. -/
theorem patch_agree (label : JumpLabel) : Agree faults (patch label) (patch label) := by
  refine Agree.get.bind fun e => ?_
  cases e.chunk.patchJump label.offset with
  | ok chunk => exact .ok fun _ => ⟨_, _, rfl⟩
  | error distance => exact exceeded_agree .jumpDistance

/-- A backward jump is emitted. -/
theorem loop_agree (target : Nat) : Agree faults (loop target) (loop target) := by
  refine Agree.get.bind fun e => ?_
  generalize e.chunk.writeLoop target e.line = written
  obtain ⟨chunk, outcome⟩ := written
  refine .bind (.ok fun _ => ⟨_, _, rfl⟩) fun _ => ?_
  cases outcome with
  | ok _ => exact .pure ()
  | error _ => exact exceeded_agree .loopBody

end Emitter

/-! ## Generating -/

/-- The context over another table. -/
def GenContext.over (c : GenContext) (T : ScopeTable) : GenContext := { c with table := T }

namespace Generation

/-- The table of a context is closed and has the scope of the context, and another table begins with it. -/
structure Ready (c : GenContext) (T : ScopeTable) : Prop where
  /-- Scopes lie in earlier ones. -/
  nested : c.table.Nested
  /-- The scope is there. -/
  inside : c.scope.index < c.table.scopes.size
  /-- The other table begins with the one of the context. -/
  begins : c.table.Begins T

section

variable {faults : List CompileError} {c : GenContext} {T : ScopeTable}

/-- What is emitted into the code of the current function. -/
theorem emit_agree {α : Type} {m : Emit α} (h : Agree faults m m) : Agree faults (emit m) (emit m) := by
  refine ⟨rfl, fun ⟨emitter, sites, functions⟩ e s' he => ?_⟩
  simp only [emit] at he
  rcases hm : m emitter with ⟨a, emitter'⟩ | ⟨e₁, emitter'⟩
  · rw [hm] at he
    cases he
  · rw [hm] at he
    cases he
    exact h.fails _ _ _ hm

/-- An opcode without operands. -/
theorem op_agree (o : Opcode) : Agree faults (emit (Emitter.op o)) (emit (Emitter.op o)) :=
  emit_agree (.modify _)

/-- A source position is set. -/
theorem setSpan_agree (span : Span) :
    Agree faults (emit (Emitter.setSpan span)) (emit (Emitter.setSpan span)) :=
  emit_agree (.modify _)

/-- A forward jump is emitted. -/
theorem jump_agree (o : Opcode) : Agree faults (emit (Emitter.jump o)) (emit (Emitter.jump o)) :=
  emit_agree (.ok fun _ => ⟨_, _, rfl⟩)

/-- An opcode with a name. -/
theorem opName_agree (o : Opcode) (name : String) :
    Agree faults (emit (Emitter.opName o name)) (emit (Emitter.opName o name)) :=
  emit_agree (Emitter.opName_agree o name)

/-- An operation goes through a call site. -/
theorem opSite_agree (op : Opcode) (kind : SiteKind) (name : String) (argc : Nat) (span : Span) :
    Agree faults (opSite op kind name argc span) (opSite op kind name argc span) := by
  have hsite : Agree faults (addSite kind name argc span) (addSite kind name argc span) := by
    rw [addSite]
    split
    · exact .bind (.throw (.inl ⟨_, _, rfl⟩)) fun _ => .ok fun _ => ⟨_, _, rfl⟩
    · exact .ok fun _ => ⟨_, _, rfl⟩
  exact hsite.bind fun site => (setSpan_agree span).bind fun _ =>
    emit_agree (Emitter.opIndex_agree op site .callSites)

/-- A literal is emitted. -/
theorem literal_agree (l : Literal) : Agree faults (literal l) (literal l) := by
  have hconstant : ∀ c, Agree faults (emit (Emitter.constant c)) (emit (Emitter.constant c)) := fun c =>
    emit_agree ((Emitter.constantIndex_agree c).bind fun i => Emitter.opShort_agree .constant i.toUInt16)
  cases l with
  | undefined => exact op_agree .pushUndefined
  | null => exact op_agree .pushNull
  | bool b => exact op_agree _
  | number n => exact hconstant (.number n)
  | string s => exact hconstant (.string s)

/-- A unary operator is emitted. -/
theorem unaryOp_agree (op : UnaryOp) : Agree faults (unaryOp op) (unaryOp op) := by
  cases op with
  | void => exact (op_agree .pop).bind fun _ => op_agree .pushUndefined
  | neg => exact op_agree .neg
  | plus => exact op_agree .plus
  | not => exact op_agree .not
  | typeof => exact op_agree .typeof

/-- An expression is ended. -/
theorem settle_agree (c : GenContext) (T : ScopeTable) (pos : Position) :
    Agree faults (settle c pos) (settle (c.over T) pos) := by
  cases pos with
  | value => exact .pure ()
  | effect =>
    rcases c with ⟨table, scope, completion⟩
    cases completion with
    | none => exact op_agree .pop
    | some slot =>
      exact (emit_agree (Emitter.opIndex_agree .setLocal slot .localSlots)).bind fun _ => op_agree .pop

/-- **A statement is started**: where a value is wanted, this is a fault. -/
theorem expectEffect_agree {n : Node} (hn : n.kind.isStatement = true) {pos : Position} {l : List CompileError}
    (hf : n.misplaced pos ++ l ⊆ faults) : Agree faults (expectEffect n pos) (expectEffect n pos) := by
  cases pos with
  | value =>
    refine .throw (.inr (hf (List.mem_append_left _ ?_)))
    rw [Node.misplaced, if_pos (by simp [hn])]
    exact List.mem_singleton_self _
  | effect => exact .pure ()

/-! ## Names -/

/-- The variable of a name that is reached. -/
theorem varOf_agree {s : ScopeId} {x : Identifier} (hx : x.Reached c.table s) (span : Span) :
    ∃ v V, varOf x span = Pure.pure v ∧ v.index < c.table.vars.size ∧ c.table.var v = V ∧
      V.scope ∈ c.table.chain s := by
  obtain ⟨-, v, V, hv, hV, hmem⟩ := hx
  refine ⟨v, V, by rw [varOf, hv], (Array.getElem?_eq_some_iff.mp hV).choose, ?_, hmem⟩
  rw [ScopeTable.var, hV]
  rfl

/-- **A name that is reached** is read or written at the same place over both tables. -/
theorem access_agree (h : Ready c T) {x : Identifier} (hx : x.Reached c.table c.scope) (span : Span)
    {frame : Nat → Gen Unit} {env : Nat → Nat → Gen Unit} {global : Gen Unit}
    (hframe : ∀ slot, Agree faults (frame slot) (frame slot))
    (henv : ∀ depth slot, Agree faults (env depth slot) (env depth slot)) (hglobal : Agree faults global global) :
    Agree faults
      (do
        let v ← varOf x span
        match c.table.slotOf v with
        | .frame slot => frame slot
        | .env slot => do
          let depth ← depthOf c v x span
          env depth slot
        | .global => global)
      (do
        let v ← varOf x span
        match (c.over T).table.slotOf v with
        | .frame slot => frame slot
        | .env slot => do
          let depth ← depthOf (c.over T) v x span
          env depth slot
        | .global => global) := by
  obtain ⟨v, V, hvar, hv, hV, hmem⟩ := varOf_agree hx span
  obtain ⟨depth, hdepth⟩ := ScopeTable.envDepth?_of_mem (hV ▸ hmem)
  have hdepth' : depthOf c v x span = Pure.pure depth := by rw [depthOf, hdepth]
  have hover : depthOf (c.over T) v x span = Pure.pure depth := by
    rw [depthOf, GenContext.over, h.begins.var_eq hv, h.begins.envDepth?_eq h.nested h.inside, hdepth]
  rw [hvar, pure_bind, pure_bind, GenContext.over, h.begins.slotOf_eq hv]
  cases c.table.slotOf v with
  | frame slot => exact hframe slot
  | env slot =>
    simp only [hdepth', pure_bind]
    rw [show depthOf { c with table := T } v x span = Pure.pure depth from hover, pure_bind]
    exact henv depth slot
  | global => exact hglobal

/-- A name is read. -/
theorem load_agree (h : Ready c T) {x : Identifier} (hx : x.Reached c.table c.scope) (span : Span) :
    Agree faults (load c x span) (load (c.over T) x span) :=
  access_agree h hx span (fun slot => emit_agree (Emitter.opIndex_agree .getLocal slot .localSlots))
    (fun depth slot => emit_agree (Emitter.env_agree .getEnv depth slot)) (opName_agree .getGlobal x.name)

/-- A name is written. -/
theorem store_agree (h : Ready c T) {x : Identifier} (hx : x.Reached c.table c.scope) (span : Span) :
    Agree faults (store c x span) (store (c.over T) x span) :=
  access_agree h hx span (fun slot => emit_agree (Emitter.opIndex_agree .setLocal slot .localSlots))
    (fun depth slot => emit_agree (Emitter.env_agree .setEnv depth slot)) (opName_agree .setGlobal x.name)

/-- A name is deleted. -/
theorem erase_agree (h : Ready c T) {x : Identifier} (hx : x.Reached c.table c.scope) (span : Span) :
    Agree faults (erase c x span) (erase (c.over T) x span) := by
  obtain ⟨v, V, hvar, hv, -⟩ := varOf_agree hx span
  rw [erase, erase, hvar, pure_bind, pure_bind, GenContext.over, h.begins.slotOf_eq hv]
  cases c.table.slotOf v with
  | frame slot => exact op_agree .pushFalse
  | env slot => exact op_agree .pushFalse
  | global => exact opName_agree .deleteGlobal x.name

/-- A name is a property of the global object over both tables or over neither. -/
theorem isGlobal_over (h : Ready c T) {x : Identifier} (hx : x.Reached c.table c.scope) :
    isGlobal (c.over T) x = isGlobal c x := by
  obtain ⟨-, v, V, hv, hV, -⟩ := hx
  simp only [isGlobal, hv, GenContext.over]
  rw [h.begins.var_eq (Array.getElem?_eq_some_iff.mp hV).choose]

/-- The places of parameters. -/
theorem paramSlots_agree (h : Ready c T) {params : List Identifier}
    (hx : ∀ x ∈ params, ∃ s, x.Reached c.table s) (span : Span) :
    Agree faults (paramSlots c params span) (paramSlots (c.over T) params span) := by
  rw [paramSlots, paramSlots]
  induction params with
  | nil => exact .pure _
  | cons x rest ih =>
    obtain ⟨⟨s, hfirst⟩, hrest⟩ := List.forall_mem_cons.mp hx
    obtain ⟨v, V, hvar, hv, -⟩ := varOf_agree hfirst span
    rw [List.mapM_cons, List.mapM_cons]
    refine .bind ?_ fun slot => (ih hrest).bind fun slots => .pure _
    rw [hvar, pure_bind, pure_bind, GenContext.over, h.begins.slotOf_eq hv]
    exact .pure _

/-- A caught value is bound. -/
theorem bindCaught_agree (h : Ready c T) {param : Option Identifier}
    (hx : ∀ x ∈ param, x.Reached c.table c.scope) (span : Span) :
    Agree faults (bindCaught c param span) (bindCaught (c.over T) param span) := by
  cases param with
  | none => exact op_agree .pop
  | some x => exact (store_agree h (hx x rfl) span).bind fun _ => op_agree .pop

/-- A function binds its own name. -/
theorem bindOwnName_agree (h : Ready c T) {name : Option Identifier} {isDeclaration : Bool}
    (hx : isDeclaration = false → ∀ x ∈ name, x.var = none ∨ x.Reached c.table c.scope) (span : Span) :
    Agree faults (bindOwnName c name isDeclaration span) (bindOwnName (c.over T) name isDeclaration span) := by
  cases isDeclaration with
  | true => exact .pure ()
  | false =>
    cases name with
    | none => exact .pure ()
    | some x =>
      rw [bindOwnName, bindOwnName]
      obtain hnone | hreached := hx rfl x rfl
      · rw [hnone]
        exact .pure ()
      · refine .ite ?_ (.pure ())
        exact (op_agree .getCallee).bind fun _ => (store_agree h hreached span).bind fun _ => op_agree .pop

/-! ## Operations over generated parts -/

variable {m₁ m₁' m₂ m₂' m₃ m₃' : Gen Unit}

/-- A binary operation. -/
theorem binary_agree (op : BinaryOp) (h₁ : Agree faults m₁ m₁') (h₂ : Agree faults m₂ m₂') :
    Agree faults (binary op m₁ m₂) (binary op m₁' m₂') := by
  rw [binary, binary]
  split
  · next opcode _ => exact h₁.bind fun _ => h₂.bind fun _ => op_agree opcode
  · exact h₁.bind fun _ => (jump_agree _).bind fun skip => h₂.bind fun _ =>
      emit_agree (Emitter.patch_agree skip)

/-- **A call.** Whether its target is a property of the global object is the same over both tables. -/
theorem call_agree (h : Ready c T) (span : Span) {form : Node} (argc : Nat)
    (hform : ∀ i x, form = .identifier i x → x.Reached c.table c.scope) (htarget : Agree faults m₁ m₁')
    (hargs : Agree faults m₂ m₂') (hreceiver : Agree faults m₃ m₃') :
    Agree faults (call c span form m₁ argc m₂ m₃) (call (c.over T) span form m₁' argc m₂' m₃') := by
  have hany : Agree faults (do m₁; m₂; emit (Emitter.setSpan span); emit (Emitter.call argc))
      (do m₁'; m₂'; emit (Emitter.setSpan span); emit (Emitter.call argc)) :=
    htarget.bind fun _ => hargs.bind fun _ => (setSpan_agree span).bind fun _ =>
      emit_agree (Emitter.call_agree argc)
  cases form with
  | member i target name =>
    exact hreceiver.bind fun _ => hargs.bind fun _ => opSite_agree .invokeMember .invokeMember name argc span
  | dynamic i name =>
    exact hargs.bind fun _ => (setSpan_agree span).bind fun _ =>
      emit_agree (Emitter.callName_agree name argc)
  | identifier i x =>
    rw [call, call, isGlobal_over h (hform i x rfl)]
    refine .ite ?_ hany
    exact (opName_agree .getGlobal x.name).bind fun _ => hargs.bind fun _ =>
      opSite_agree .callGlobal .globalCall x.name argc span
  | _ => exact hany

/-- **An assignment**: a target that cannot be assigned to is a fault. -/
theorem assign_agree (h : Ready c T) (span : Span) {form : Node}
    (hform : ∀ i x, form = .identifier i x → x.Reached c.table c.scope) (hf : form.unassignable ⊆ faults)
    (hvalue : Agree faults m₁ m₁') (hobject : Agree faults m₂ m₂') :
    Agree faults (assign c span form m₁ m₂) (assign (c.over T) span form m₁' m₂') := by
  cases form with
  | identifier i x => exact hvalue.bind fun _ => store_agree h (hform i x rfl) span
  | dynamic i name => exact hvalue.bind fun _ => opName_agree .setName name
  | member i object name =>
    exact hobject.bind fun _ => hvalue.bind fun _ => opSite_agree .setMember .setMember name 0 span
  | _ => exact .throw (.inr (hf (List.mem_singleton_self _)))

/-- A removal. -/
theorem delete_agree (h : Ready c T) {form : Node}
    (hform : ∀ i x, form = .identifier i x → x.Reached c.table c.scope) (htarget : Agree faults m₁ m₁')
    (hobject : Agree faults m₂ m₂') : Agree faults (delete c form m₁ m₂) (delete (c.over T) form m₁' m₂') := by
  have hany : Agree faults (do m₁; emit (Emitter.op .pop); emit (Emitter.op .pushTrue))
      (do m₁'; emit (Emitter.op .pop); emit (Emitter.op .pushTrue)) :=
    htarget.bind fun _ => (op_agree .pop).bind fun _ => op_agree .pushTrue
  cases form with
  | member i object name => exact hobject.bind fun _ => opName_agree .deleteMember name
  | identifier i x => exact erase_agree h (hform i x rfl) i.span
  | dynamic i name => exact opName_agree .deleteName name
  | _ => exact hany

/-- **An inner function** is generated in its own scope, which lies in that of the context. -/
theorem function_agree (h : Ready c T) {name : Option Identifier} {params : List Identifier}
    {isDeclaration : Bool} {scope : Option ScopeId} {inner : ScopeId} (span : Span)
    {declarations declarations' body body' : GenContext → Gen Unit} (hscope : scope = some inner)
    (hinner : c.table.Encloses c.scope inner) (hparams : ∀ x ∈ params, x.Own c.table inner)
    (hname : isDeclaration = false → ∀ x ∈ name, x.var = none ∨ x.Own c.table inner)
    (hdeclarations : Ready ⟨c.table, inner, none⟩ T →
      Agree faults (declarations ⟨c.table, inner, none⟩) (declarations' ⟨T, inner, none⟩))
    (hbody : Ready ⟨c.table, inner, none⟩ T →
      Agree faults (body ⟨c.table, inner, none⟩) (body' ⟨T, inner, none⟩)) :
    Agree faults (function c name params isDeclaration scope span declarations body)
      (function (c.over T) name params isDeclaration scope span declarations' body') := by
  subst hscope
  obtain ⟨S, hS, -⟩ := hinner
  have hinside : inner.index < c.table.scopes.size := (Array.getElem?_eq_some_iff.mp hS).choose
  have hready : Ready ⟨c.table, inner, none⟩ T := ⟨h.nested, hinside, h.begins⟩
  refine (paramSlots_agree h (fun x hx => ⟨inner, (hparams x hx).reached h.nested hinside⟩) span).bind
    fun slots => .bind (.ok fun _ => ⟨_, _, rfl⟩) fun aside => ?_
  refine (bindOwnName_agree hready (fun hexpr x hx => ?_) span).bind fun _ => ?_
  · exact (hname hexpr x hx).imp_right fun hown => hown.reached h.nested hinside
  refine (hdeclarations hready).bind fun _ => (hbody hready).bind fun _ => ?_
  refine (op_agree .retUndefined).bind fun _ => ?_
  rw [GenContext.over, h.begins.layout_eq hinside]
  exact .ok fun _ => ⟨_, _, rfl⟩

/-- A function that is made. -/
theorem closure_agree {m m' : Gen Nat} (h : Agree faults m m') {k k' : Gen Unit} (hk : Agree faults k k') :
    Agree faults (do emit (Emitter.closure (← m)); k) (do emit (Emitter.closure (← m')); k') :=
  h.bind fun index => (emit_agree (Emitter.opIndex_agree .closure index .functions)).bind fun _ => hk

/-- A node that is a name is one of its uses. -/
theorem reached_of_uses {n : Node} (hu : ∀ use ∈ n.uses c.scope, use.2.Reached c.table use.1) :
    ∀ i x, n = .identifier i x → x.Reached c.table c.scope := by
  rintro i x rfl
  exact hu _ (List.mem_singleton_self _)

/-! ## Whole trees -/

mutual

/-- **A node is generated** in the same way over both tables. -/
theorem node_agree : ∀ (n : Node) {c : GenContext} {isLowered : Bool} {withs : Nat} {pos : Position}
    (_ : Ready c T) (_ : n.Scoped c.table c.scope isLowered withs)
    (_ : ∀ use ∈ n.uses c.scope, use.2.Reached c.table use.1) (_ : n.faults pos ⊆ faults),
    Agree faults (node c pos n) (node (c.over T) pos n)
  | .literal i l, c, _, _, pos, h, hs, hu, hf => by
    refine (setSpan_agree _).bind fun _ => ?_
    exact (literal_agree l).bind fun _ => settle_agree c T pos
  | .identifier i x, c, _, _, pos, h, hs, hu, hf => by
    refine (setSpan_agree _).bind fun _ => ?_
    exact (load_agree h (reached_of_uses hu i x rfl) i.span).bind fun _ => settle_agree c T pos
  | .dynamic i name, c, _, _, pos, h, hs, hu, hf => by
    refine (setSpan_agree _).bind fun _ => ?_
    exact (opName_agree .getName name).bind fun _ => settle_agree c T pos
  | .this i, c, _, _, pos, h, hs, hu, hf => by
    refine (setSpan_agree _).bind fun _ => ?_
    exact (op_agree .getThis).bind fun _ => settle_agree c T pos
  | .call i target args, c, _, _, pos, h, hs, hu, hf => by
    rw [Node.uses, List.forall_mem_append] at hu
    rw [Node.faults, List.append_subset, List.append_subset] at hf
    rw [node_call, node_call]
    refine (setSpan_agree _).bind fun _ => .bind ?_ fun _ => settle_agree c T pos
    refine call_agree h i.span args.length (reached_of_uses hu.1) (node_agree target h hs.1 hu.1 hf.2.1)
      (nodes_agree args h hs.2 hu.2 hf.2.2) ?_
    cases target with
    | member j object name => exact node_agree object h hs.1 hu.1 hf.2.1
    | _ => exact .pure ()
  | .member i target name, c, _, _, pos, h, hs, hu, hf => by
    rw [Node.faults, List.append_subset] at hf
    refine (setSpan_agree _).bind fun _ => (node_agree target h hs hu hf.2).bind fun _ => ?_
    exact (opSite_agree .getMember .getMember name 0 i.span).bind fun _ => settle_agree c T pos
  | .binary i op lhs rhs, c, _, _, pos, h, hs, hu, hf => by
    rw [Node.uses, List.forall_mem_append] at hu
    rw [Node.faults, List.append_subset, List.append_subset] at hf
    refine (setSpan_agree _).bind fun _ => ?_
    exact (binary_agree op (node_agree lhs h hs.1 hu.1 hf.2.1) (node_agree rhs h hs.2 hu.2 hf.2.2)).bind
      fun _ => settle_agree c T pos
  | .unary i op operand, c, _, _, pos, h, hs, hu, hf => by
    rw [Node.faults, List.append_subset] at hf
    refine (setSpan_agree _).bind fun _ => (node_agree operand h hs hu hf.2).bind fun _ => ?_
    exact (unaryOp_agree op).bind fun _ => settle_agree c T pos
  | .assign i target value, c, _, _, pos, h, hs, hu, hf => by
    rw [Node.uses, List.forall_mem_append] at hu
    rw [Node.faults, List.append_subset, List.append_subset, List.append_subset] at hf
    rw [node_assign, node_assign]
    refine (setSpan_agree _).bind fun _ => .bind ?_ fun _ => settle_agree c T pos
    refine assign_agree h i.span (reached_of_uses hu.1) hf.2.1 (node_agree value h hs.2 hu.2 hf.2.2.2) ?_
    cases target with
    | member j object name => exact node_agree object h hs.1 hu.1 hf.2.2.1
    | _ => exact .pure ()
  | .function i name params body isDeclaration scope, c, _, _, pos, h, hs, hu, hf => by
    obtain ⟨inner, rfl, hencloses, hparams, hname, hbody⟩ := hs
    rw [Node.faults, List.append_subset] at hf
    refine (setSpan_agree _).bind fun _ => .ite (.pure ()) ?_
    refine closure_agree ?_ (settle_agree c T pos)
    refine function_agree h i.span rfl hencloses hparams (fun hexpr x hx => ?_)
      (fun hready => hoistedAll_agree body hready hbody hu hf.2)
      (fun hready => nodes_agree body hready hbody hu hf.2)
    have hown := hname x hx
    rwa [hexpr] at hown
  | .object i ps, c, _, _, pos, h, hs, hu, hf => by
    rw [Node.faults, List.append_subset] at hf
    refine (setSpan_agree _).bind fun _ => (op_agree .newObject).bind fun _ => ?_
    exact (properties_agree ps h hs hu hf.2).bind fun _ => settle_agree c T pos
  | .delete i target, c, _, _, pos, h, hs, hu, hf => by
    rw [Node.faults, List.append_subset] at hf
    rw [node_delete, node_delete]
    refine (setSpan_agree _).bind fun _ => .bind ?_ fun _ => settle_agree c T pos
    refine delete_agree h (reached_of_uses hu) (node_agree target h hs hu hf.2) ?_
    cases target with
    | member j object name => exact node_agree object h hs hu hf.2
    | _ => exact .pure ()
  | .var i binding none, c, _, _, pos, h, hs, hu, hf => by
    refine (setSpan_agree _).bind fun _ => ?_
    exact (expectEffect_agree rfl hf).bind fun _ => .pure ()
  | .var i binding (some init), c, _, _, pos, h, hs, hu, hf => by
    refine (setSpan_agree _).bind fun _ => (expectEffect_agree rfl hf).bind fun _ => ?_
    rw [Node.faults, List.append_subset] at hf
    refine (node_agree init h hs.2 hu hf.2).bind fun _ => ?_
    exact (store_agree h (hs.1.2.reached h.nested h.inside) i.span).bind fun _ => op_agree .pop
  | .ret i none, c, _, _, pos, h, hs, hu, hf => by
    refine (setSpan_agree _).bind fun _ => ?_
    exact (expectEffect_agree rfl hf).bind fun _ => op_agree .retUndefined
  | .ret i (some value), c, _, _, pos, h, hs, hu, hf => by
    refine (setSpan_agree _).bind fun _ => (expectEffect_agree rfl hf).bind fun _ => ?_
    rw [Node.faults, List.append_subset] at hf
    exact (node_agree value h hs hu hf.2).bind fun _ => op_agree .ret
  | .cond i condition thenBranch none, c, _, _, pos, h, hs, hu, hf => by
    refine (setSpan_agree _).bind fun _ => (expectEffect_agree rfl hf).bind fun _ => ?_
    rw [Node.uses, List.forall_mem_append, List.forall_mem_append] at hu
    rw [Node.faults, List.append_subset, List.append_subset, List.append_subset] at hf
    refine (node_agree condition h hs.1 hu.1 hf.2.1).bind fun _ => (jump_agree .jumpIfFalse).bind fun toElse => ?_
    exact (node_agree thenBranch h hs.2.1 hu.2.1 hf.2.2.1).bind fun _ => emit_agree (Emitter.patch_agree toElse)
  | .cond i condition thenBranch (some elseBranch), c, _, _, pos, h, hs, hu, hf => by
    refine (setSpan_agree _).bind fun _ => (expectEffect_agree rfl hf).bind fun _ => ?_
    rw [Node.uses, List.forall_mem_append, List.forall_mem_append] at hu
    rw [Node.faults, List.append_subset, List.append_subset, List.append_subset] at hf
    refine (node_agree condition h hs.1 hu.1 hf.2.1).bind fun _ => (jump_agree .jumpIfFalse).bind fun toElse => ?_
    refine (node_agree thenBranch h hs.2.1 hu.2.1 hf.2.2.1).bind fun _ => (jump_agree .jump).bind fun toEnd => ?_
    refine (emit_agree (Emitter.patch_agree toElse)).bind fun _ => ?_
    exact (node_agree elseBranch h hs.2.2 hu.2.2 hf.2.2.2).bind fun _ => emit_agree (Emitter.patch_agree toEnd)
  | .loop i condition body, c, _, _, pos, h, hs, hu, hf => by
    refine (setSpan_agree _).bind fun _ => (expectEffect_agree rfl hf).bind fun _ => ?_
    rw [Node.uses, List.forall_mem_append] at hu
    rw [Node.faults, List.append_subset, List.append_subset] at hf
    refine Agree.get.bind fun s => (node_agree condition h hs.1 hu.1 hf.2.1).bind fun _ => ?_
    refine (jump_agree .jumpIfFalse).bind fun exit => (node_agree body h hs.2 hu.2 hf.2.2).bind fun _ => ?_
    exact (emit_agree (Emitter.loop_agree s.emitter.offset)).bind fun _ => emit_agree (Emitter.patch_agree exit)
  | .block i body, c, _, _, pos, h, hs, hu, hf => by
    refine (setSpan_agree _).bind fun _ => (expectEffect_agree rfl hf).bind fun _ => ?_
    rw [Node.faults, List.append_subset] at hf
    exact nodes_agree body h hs hu hf.2
  | .withObject i object body, c, _, _, pos, h, hs, hu, hf => by
    refine (setSpan_agree _).bind fun _ => (expectEffect_agree rfl hf).bind fun _ => ?_
    rw [Node.uses, List.forall_mem_append] at hu
    rw [Node.faults, List.append_subset, List.append_subset] at hf
    refine (node_agree object h hs.1 hu.1 hf.2.1).bind fun _ => (op_agree .enterWith).bind fun _ => ?_
    exact (node_agree body h hs.2 hu.2 hf.2.2).bind fun _ => op_agree .exitWith
  | .throw i value, c, _, _, pos, h, hs, hu, hf => by
    refine (setSpan_agree _).bind fun _ => (expectEffect_agree rfl hf).bind fun _ => ?_
    rw [Node.faults, List.append_subset] at hf
    refine (node_agree value h hs hu hf.2).bind fun _ => ?_
    exact (setSpan_agree i.span).bind fun _ => op_agree .throw
  | .tryCatch i block param handler, c, _, _, pos, h, hs, hu, hf => by
    refine (setSpan_agree _).bind fun _ => (expectEffect_agree rfl hf).bind fun _ => ?_
    rw [Node.uses, List.forall_mem_append] at hu
    rw [Node.faults, List.append_subset, List.append_subset] at hf
    refine (jump_agree .tryBegin).bind fun toHandler => ?_
    refine (node_agree block h hs.1 hu.1 hf.2.1).bind fun _ => (op_agree .tryEnd).bind fun _ => ?_
    refine (jump_agree .jump).bind fun toEnd => (emit_agree (Emitter.patch_agree toHandler)).bind fun _ => ?_
    have hparam := fun x hx => (hs.2.1 x hx).2.reached h.nested h.inside
    refine (bindCaught_agree h hparam i.span).bind fun _ => ?_
    exact (node_agree handler h hs.2.2 hu.2 hf.2.2).bind fun _ => emit_agree (Emitter.patch_agree toEnd)

/-- **Nodes are generated** in the same way over both tables. -/
theorem nodes_agree : ∀ (ns : List Node) {c : GenContext} {isLowered : Bool} {withs : Nat} {pos : Position}
    (_ : Ready c T) (_ : ScopedAll c.table c.scope isLowered withs ns)
    (_ : ∀ use ∈ usesAll c.scope ns, use.2.Reached c.table use.1) (_ : faultsAll pos ns ⊆ faults),
    Agree faults (nodes c pos ns) (nodes (c.over T) pos ns)
  | [], _, _, _, _, _, _, _, _ => .pure ()
  | n :: rest, c, _, _, pos, h, hs, hu, hf => by
    rw [usesAll, List.forall_mem_append] at hu
    rw [faultsAll, List.append_subset] at hf
    exact (node_agree n h hs.1 hu.1 hf.1).bind fun _ => nodes_agree rest h hs.2 hu.2 hf.2

/-- **Properties are generated** in the same way over both tables. -/
theorem properties_agree : ∀ (ps : List (String × Node)) {c : GenContext} {isLowered : Bool} {withs : Nat}
    (_ : Ready c T) (_ : ScopedProperties c.table c.scope isLowered withs ps)
    (_ : ∀ use ∈ usesOfProperties c.scope ps, use.2.Reached c.table use.1)
    (_ : faultsOfProperties ps ⊆ faults), Agree faults (properties c ps) (properties (c.over T) ps)
  | [], _, _, _, _, _, _, _ => .pure ()
  | (name, value) :: rest, c, _, _, h, hs, hu, hf => by
    rw [usesOfProperties, List.forall_mem_append] at hu
    rw [faultsOfProperties, List.append_subset] at hf
    exact (node_agree value h hs.1 hu.1 hf.1).bind fun _ => (opName_agree .initProperty name).bind fun _ =>
      properties_agree rest h hs.2 hu.2 hf.2

/-- **The functions that a statement declares** are generated in the same way over both tables, wherever the
statement stands. -/
theorem hoisted_agree : ∀ (n : Node) {c : GenContext} {isLowered : Bool} {withs : Nat} {pos : Position}
    (_ : Ready c T) (_ : n.Scoped c.table c.scope isLowered withs)
    (_ : ∀ use ∈ n.uses c.scope, use.2.Reached c.table use.1) (_ : n.faults pos ⊆ faults),
    Agree faults (hoisted c n) (hoisted (c.over T) n)
  | .function i (some x) params body true scope, c, _, _, pos, h, hs, hu, hf => by
    obtain ⟨inner, rfl, hencloses, hparams, hname, hbody⟩ := hs
    rw [Node.faults, List.append_subset] at hf
    have hown : x.Own c.table c.scope := (hname x rfl).2
    refine Agree.get.bind fun s => closure_agree ?_ ?_
    · exact function_agree h s.emitter.span rfl hencloses hparams nofun
        (fun hready => hoistedAll_agree body hready hbody hu hf.2)
        (fun hready => nodes_agree body hready hbody hu hf.2)
    · exact (store_agree h (hown.reached h.nested h.inside) s.emitter.span).bind fun _ => op_agree .pop
  | .function _ none _ _ true _, _, _, _, _, _, _, _, _
  | .function _ _ _ _ false _, _, _, _, _, _, _, _, _ => .pure ()
  | .block i body, c, _, _, pos, h, hs, hu, hf => by
    rw [Node.faults, List.append_subset] at hf
    exact hoistedAll_agree body h hs hu hf.2
  | .cond i condition thenBranch elseBranch, c, _, _, pos, h, hs, hu, hf => by
    rw [Node.uses, List.forall_mem_append, List.forall_mem_append] at hu
    rw [Node.faults, List.append_subset, List.append_subset, List.append_subset] at hf
    exact (hoisted_agree thenBranch h hs.2.1 hu.2.1 hf.2.2.1).bind fun _ =>
      hoisted?_agree elseBranch h hs.2.2 hu.2.2 hf.2.2.2
  | .loop i condition body, c, _, _, pos, h, hs, hu, hf => by
    rw [Node.uses, List.forall_mem_append] at hu
    rw [Node.faults, List.append_subset, List.append_subset] at hf
    exact hoisted_agree body h hs.2 hu.2 hf.2.2
  | .tryCatch i block param handler, c, _, _, pos, h, hs, hu, hf => by
    rw [Node.uses, List.forall_mem_append] at hu
    rw [Node.faults, List.append_subset, List.append_subset] at hf
    exact (hoisted_agree block h hs.1 hu.1 hf.2.1).bind fun _ => hoisted_agree handler h hs.2.2 hu.2 hf.2.2
  | .literal .., _, _, _, _, _, _, _, _ | .identifier .., _, _, _, _, _, _, _, _
  | .dynamic .., _, _, _, _, _, _, _, _ | .this .., _, _, _, _, _, _, _, _
  | .call .., _, _, _, _, _, _, _, _ | .member .., _, _, _, _, _, _, _, _
  | .binary .., _, _, _, _, _, _, _, _ | .unary .., _, _, _, _, _, _, _, _
  | .assign .., _, _, _, _, _, _, _, _ | .object .., _, _, _, _, _, _, _, _
  | .delete .., _, _, _, _, _, _, _, _ | .var .., _, _, _, _, _, _, _, _
  | .ret .., _, _, _, _, _, _, _, _ | .withObject .., _, _, _, _, _, _, _, _
  | .throw .., _, _, _, _, _, _, _, _ => .pure ()

/-- **The functions that statements declare.** -/
theorem hoistedAll_agree : ∀ (ns : List Node) {c : GenContext} {isLowered : Bool} {withs : Nat} {pos : Position}
    (_ : Ready c T) (_ : ScopedAll c.table c.scope isLowered withs ns)
    (_ : ∀ use ∈ usesAll c.scope ns, use.2.Reached c.table use.1) (_ : faultsAll pos ns ⊆ faults),
    Agree faults (hoistedAll c ns) (hoistedAll (c.over T) ns)
  | [], _, _, _, _, _, _, _, _ => .pure ()
  | n :: rest, c, _, _, pos, h, hs, hu, hf => by
    rw [usesAll, List.forall_mem_append] at hu
    rw [faultsAll, List.append_subset] at hf
    exact (hoisted_agree n h hs.1 hu.1 hf.1).bind fun _ => hoistedAll_agree rest h hs.2 hu.2 hf.2

/-- **The functions that a statement declares** that may be missing. -/
theorem hoisted?_agree : ∀ (n : Option Node) {c : GenContext} {isLowered : Bool} {withs : Nat} {pos : Position}
    (_ : Ready c T) (_ : Scoped? c.table c.scope isLowered withs n)
    (_ : ∀ use ∈ uses? c.scope n, use.2.Reached c.table use.1) (_ : faults? pos n ⊆ faults),
    Agree faults (hoisted? c n) (hoisted? (c.over T) n)
  | none, _, _, _, _, _, _, _, _ => .pure ()
  | some n, _, _, _, _, h, hs, hu, hf => hoisted_agree n h hs hu hf

end

/-- **The code of a program** is generated in the same way over both tables. -/
theorem programCode_agree {body : List Node} (h : Ready c T) (hs : ScopedAll c.table c.scope false 0 body)
    (hu : ∀ use ∈ usesAll c.scope body, use.2.Reached c.table use.1) (hf : faultsAll .effect body ⊆ faults)
    (completion : Nat) :
    Agree faults (programCode c body completion) (programCode (c.over T) body completion) :=
  (hoistedAll_agree body h hs hu hf).bind fun _ => (nodes_agree body h hs hu hf).bind fun _ =>
    (emit_agree (Emitter.opIndex_agree .getLocal completion .localSlots)).bind fun _ => op_agree .ret

/-- The program declares the same names on the global object over both tables. -/
theorem declaredGlobals_eq {t : ScopeTable} (ht : t.Closed) (h : t.Begins T) {s : ScopeId}
    (hs : s.index < t.scopes.size) : declaredGlobals T s = declaredGlobals t s := by
  have hvars : (t.scope s).order.map T.var = (t.scope s).order.map t.var := by
    refine Array.map_congr_left fun v hv => h.var_eq ?_
    rw [ScopeTable.scope, Array.getElem?_eq_getElem hs] at hv
    exact ht.order s.index _ (Array.getElem?_eq_getElem hs) v hv
  rw [declaredGlobals, declaredGlobals, h.scope_eq hs, hvars]

end

end Generation

/-! ## Programs -/

/-- **A program whose names are resolved** is generated in the same way over every table that begins with the
one that resolves them, and fails only for want of a resource or with one of its faults. -/
theorem Program.Resolved.generate_agree {p : Program} {t T : ScopeTable} (hp : p.Resolved t)
    (hfinished : t.finished = true) (hscope : p.scope = some .global) (hanalyzed : p.analyzed = true)
    (h : t.Begins T) :
    generate T p = generate t p ∧ ∀ e, generate t p = .error e → e.Within p.faults := by
  have hcode : Agree p.faults
      (programCode ⟨t, .global, some (t.layout .global).localCount⟩ p.body (t.layout .global).localCount)
      (programCode ⟨T, .global, some (t.layout .global).localCount⟩ p.body (t.layout .global).localCount) :=
    programCode_agree ⟨hp.closed.nested, hp.inside, h⟩ hp.bound hp.reached (List.Subset.refl _) _
  have hlayout : T.layout .global = t.layout .global := h.layout_eq hp.inside
  simp only [generate, hscope, hanalyzed, hfinished, h.finished, Bool.and_self, hlayout, hcode.same,
    declaredGlobals_eq hp.closed h (s := .global) hp.inside, true_and]
  intro e he
  rcases hrun : programCode ⟨t, .global, some (t.layout .global).localCount⟩ p.body
    (t.layout .global).localCount {} with ⟨a, s⟩ | ⟨e', s⟩
  · rw [hrun] at he
    cases he
  · rw [hrun] at he
    cases he
    exact hcode.fails _ _ _ hrun

namespace Analyzer

/-- **Once analysis has succeeded** on a program that it has not been at before, no name is left unresolved: those
of the tree stand for variables of the finished table, and those that are used are found from the inside out. So
generation does not look outside of the table, whatever came behind it. It succeeds, or it needs more of a
resource than there is, or it finds a statement where a value is wanted, and then the program that was analyzed
has that statement there. -/
theorem program_refusals {p p' : Program} {a : Analyzer} (hp : p.isUnset = true)
    (h : program {} p = (a, p')) (hok : a.failure = none) :
    p'.Resolved a.finish ∧ (∀ T, a.finish.Begins T → generate T p' = generate a.finish p') ∧
      match generate a.finish p' with
      | .ok _ => True
      | .error (.limitExceeded ..) => True
      | .error (.expectedExpression kind span) =>
        kind.isStatement = true ∧ .expectedExpression kind span ∈ p.faults
      | .error _ => False := by
  have hresolved := program_resolved hp h hok
  obtain ⟨hvalid, -, hscope, -⟩ := program_scoped hp h hok
  obtain ⟨hfaults, honly⟩ := program_spares h hok
  have hfinished : a.finish.finished = true := by
    rw [finish, ScopeTable.finish, hvalid.unfinished]
    rfl
  have hanalyzed : p'.analyzed = true := by
    rw [program] at h
    cases h
    simp [failed, hok]
  refine ⟨hresolved, fun T hT => (hresolved.generate_agree hfinished hscope hanalyzed hT).1, ?_⟩
  have hfails := (hresolved.generate_agree hfinished hscope hanalyzed (.refl _)).2
  rcases hrun : generate a.finish p' with e | u
  · obtain ⟨resource, span, rfl⟩ | hmem := hfails e hrun
    · trivial
    · rw [hfaults] at hmem
      obtain ⟨kind, span, hstatement, rfl⟩ := honly e hmem
      exact ⟨hstatement, hmem⟩
  · trivial

/-- A program with a function in which something is caught, and a statement stands where a value is wanted. -/
def negatedReturn : Program :=
  ⟨[.function .none none []
      [.tryCatch .none (.block .none []) (some (.definition "e")) (.block .none []),
        .unary .none .not (.ret .none none)] false none], none, false⟩

/-- Analysis accepts this program, and generation refuses the statement. -/
theorem program_refusals_negatedReturn :
    ∃ a p', program {} negatedReturn = (a, p') ∧
      generate a.finish p' = .error (.expectedExpression .ret Span.none) ∧
      p'.Resolved a.finish ∧
      (∀ T, a.finish.Begins T → generate T p' = .error (.expectedExpression .ret Span.none)) ∧
      .expectedExpression .ret Span.none ∈ negatedReturn.faults := by
  have hok : (program {} negatedReturn).1.failure = none := by decide +kernel
  have herror : (match generate (program {} negatedReturn).1.finish (program {} negatedReturn).2 with
      | .ok _ => none
      | .error e => some e) = some (.expectedExpression .ret Span.none) := by decide +kernel
  rcases h : program {} negatedReturn with ⟨a, p'⟩
  rw [h] at hok herror
  obtain ⟨hresolved, hbegins, hresult⟩ := program_refusals (by decide) h hok
  rcases hrun : generate a.finish p' with e | u
  · rw [hrun] at herror hbegins hresult
    obtain rfl := Option.some.inj herror
    exact ⟨a, p', rfl, hrun, hresolved, hbegins, hresult.2⟩
  · rw [hrun] at herror
    cases herror

end Analyzer

end ScriptEngine
