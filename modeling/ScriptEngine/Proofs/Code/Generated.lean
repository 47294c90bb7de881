import ScriptEngine.Compile
import ScriptEngine.Proofs.Code.Emission

/-!
# Generated code is laid out

What the generator emits for a node is the stretch of code that `Laid` describes, and the functions it
adds are made of the sources of the node. The proof follows the generator, node by node; bytes play no
part in it.

The main statement is `Blueprint.lays_of_generate`: every function of a generated unit was made of the
source at its position.
-/

namespace ScriptEngine

open Generation

section

variable {low : Nat}

namespace Emits

variable {t : ScopeTable} {srcs srcs' : List Source} {P Q : Blueprint → CodeFunction → Stretch}
  {g g' : Gen Unit}

/-- What fails emits anything. -/
theorem throw (e : CompileError) : Emits t low (throw e) srcs P := by
  intro s s' _ _ hg
  cases hg

/-- A part that comes with a result may be set apart. -/
theorem assoc {α : Type} {x : Gen α} {f : α → Gen Unit}
    (h : Emits t low ((x >>= f) >>= fun _ => g) srcs P) :
    Emits t low (x >>= fun a => f a >>= fun _ => g) srcs P := by
  rwa [bind_assoc] at h

/-- Nothing in front. -/
theorem seq_empty_left (h : Emits t low g srcs (fun U F => Stretch.seq .empty (P U F))) :
    Emits t low g srcs P := by
  refine h.mono ?_
  rintro U F a b ⟨m, rfl, hP⟩
  exact hP

end Emits

/-! ## Names and leaves -/

/-- What an opcode with a name reads as. -/
theorem Pool.nameOperand_read {p : Pool} {f : CodeFunction} {a : Nat} {name : String}
    (h : p.nameOperand f.chunk a = .ok name) (make : String → Instruction) :
    (do return make (← p.nameOperand f.chunk a) : Except Fault Instruction) = .ok (make name) := by
  rw [h]
  rfl

/-- What an opcode with a number reads as. -/
theorem Chunk.shortOperand_read {c : Chunk} {a n : Nat} (h : c.shortOperand a = .ok n)
    (make : Nat → Instruction) :
    (do return make (← c.shortOperand a) : Except Fault Instruction) = .ok (make n) := by
  rw [h]
  rfl

/-- What an opcode with a depth and a slot reads as. -/
theorem Chunk.envOperands_read {c : Chunk} {a d n : Nat} (hd : c.byteOperand a = .ok d)
    (hn : c.shortOperand (a + 1) = .ok n) (make : Nat → Nat → Instruction) :
    (do let depth ← c.byteOperand a; return make depth (← c.shortOperand (a + 1)) :
      Except Fault Instruction) = .ok (make d n) := by
  rw [hd]
  exact shortOperand_read hn (make d)

/-- What an opcode with a call site reads as. -/
theorem CodeFunction.siteOperand_read {f : CodeFunction} {a k : Nat} {site : CallSite}
    (h : f.siteOperand a = .ok (k, site)) (make : Nat → CallSite → Instruction) :
    (do let (i, site) ← f.siteOperand a; return make i site : Except Fault Instruction) =
      .ok (make k site) := by
  rw [h]
  rfl

/-- **Reading a name.** -/
theorem emits_load (c : GenContext) (x : Identifier) (span : Span) :
    Emits c.table low (load c x span) [] (fun U F => U.atSome F (c.loadOf? x)) := by
  rw [load, varOf]
  rcases hx : x.var with _ | v
  · exact Emits.throw _
  · simp only [pure_bind]
    rcases hslot : c.table.slotOf v with slot | slot | _
    · refine (Emits.opIndex .getLocal rfl rfl ?_ slot).mono fun U F a b h => ?_
      · exact fun p f a k hk => Chunk.shortOperand_read hk .getLocal
      · exact ⟨_, by simp [GenContext.loadOf?, hx, hslot], h⟩
    · simp only [depthOf]
      rcases hdepth : c.table.envDepth? c.scope (c.table.var v).scope with _ | depth
      · exact Emits.throw _
      · refine (Emits.env .getEnv rfl ?_ depth slot).mono fun U F a b h => ?_
        · exact fun p f a d k hd hk => Chunk.envOperands_read hd hk .getEnv
        · exact ⟨_, by simp [GenContext.loadOf?, hx, hslot, hdepth], h⟩
    · refine (Emits.opName .getGlobal rfl ?_ x.name).mono fun U F a b h => ?_
      · exact fun p f a name hname => Pool.nameOperand_read hname .getGlobal
      · exact ⟨_, by simp [GenContext.loadOf?, hx, hslot], h⟩

/-- **Writing a name.** -/
theorem emits_store (c : GenContext) (x : Identifier) (span : Span) :
    Emits c.table low (store c x span) [] (fun U F => U.atSome F (c.storeOf? x)) := by
  rw [store, varOf]
  rcases hx : x.var with _ | v
  · exact Emits.throw _
  · simp only [pure_bind]
    rcases hslot : c.table.slotOf v with slot | slot | _
    · refine (Emits.opIndex .setLocal rfl rfl ?_ slot).mono fun U F a b h => ?_
      · exact fun p f a k hk => Chunk.shortOperand_read hk .setLocal
      · exact ⟨_, by simp [GenContext.storeOf?, hx, hslot], h⟩
    · simp only [depthOf]
      rcases hdepth : c.table.envDepth? c.scope (c.table.var v).scope with _ | depth
      · exact Emits.throw _
      · refine (Emits.env .setEnv rfl ?_ depth slot).mono fun U F a b h => ?_
        · exact fun p f a d k hd hk => Chunk.envOperands_read hd hk .setEnv
        · exact ⟨_, by simp [GenContext.storeOf?, hx, hslot, hdepth], h⟩
    · refine (Emits.opName .setGlobal rfl ?_ x.name).mono fun U F a b h => ?_
      · exact fun p f a name hname => Pool.nameOperand_read hname .setGlobal
      · exact ⟨_, by simp [GenContext.storeOf?, hx, hslot], h⟩

/-- **Deleting a name.** -/
theorem emits_erase (c : GenContext) (x : Identifier) (span : Span) :
    Emits c.table low (erase c x span) [] (fun U F => U.atSome F (c.eraseOf? x)) := by
  rw [erase, varOf]
  rcases hx : x.var with _ | v
  · exact Emits.throw _
  · simp only [pure_bind]
    have hkept : Emits c.table low (emit (Emitter.op .pushFalse)) []
        (fun U F => U.at F (.push (.bool false))) := Emits.op _ rfl fun _ _ _ => rfl
    rcases hslot : c.table.slotOf v with slot | slot | _
    · exact hkept.mono fun U F a b h => ⟨_, by simp [GenContext.eraseOf?, hx, hslot], h⟩
    · exact hkept.mono fun U F a b h => ⟨_, by simp [GenContext.eraseOf?, hx, hslot], h⟩
    · refine (Emits.opName .deleteGlobal rfl ?_ x.name).mono fun U F a b h => ?_
      · exact fun p f a name hname => Pool.nameOperand_read hname .deleteGlobal
      · exact ⟨_, by simp [GenContext.eraseOf?, hx, hslot], h⟩

/-- **A literal.** -/
theorem emits_literal (t : ScopeTable) (l : Literal) :
    Emits t low (literal l) [] (fun U F => Laid.literal U F l) := by
  cases l with
  | undefined =>
    exact (Emits.op (.push .undefined) rfl fun _ _ _ => rfl).mono fun U F a b h => ⟨_, rfl, h⟩
  | null => exact (Emits.op (.push .null) rfl fun _ _ _ => rfl).mono fun U F a b h => ⟨_, rfl, h⟩
  | bool v =>
    cases v with
    | true =>
      exact (Emits.op (.push (.bool true)) rfl fun _ _ _ => rfl).mono fun U F a b h => ⟨_, rfl, h⟩
    | false =>
      exact (Emits.op (.push (.bool false)) rfl fun _ _ _ => rfl).mono fun U F a b h => ⟨_, rfl, h⟩
  | number n => exact Emits.constant (.number n)
  | string s => exact Emits.constant (.string s)

/-- Dropping the top. -/
theorem emits_pop (t : ScopeTable) : Emits t low (emit (Emitter.op .pop)) [] (fun U F => U.at F .pop) :=
  Emits.op .pop rfl fun _ _ _ => rfl

/-- **The end of an expression.** -/
theorem emits_settle (c : GenContext) (pos : Position) :
    Emits c.table low (settle c pos) [] (fun U F => Laid.settle U F c pos) := by
  cases pos with
  | value => exact Emits.pure
  | effect =>
    rw [settle]
    simp only [Laid.settle]
    rcases c.completion with _ | slot
    · exact emits_pop c.table
    · refine Emits.bind_left (Emits.opIndex .setLocal rfl rfl ?_ slot) (emits_pop c.table)
      exact fun p f a k hk => Chunk.shortOperand_read hk .setLocal

/-- **A unary operator.** -/
theorem emits_unaryOp (t : ScopeTable) (op : UnaryOp) :
    Emits t low (unaryOp op) [] (fun U F => Laid.unaryOp U F op) := by
  cases op with
  | neg => exact Emits.op .negate rfl fun _ _ _ => rfl
  | plus => exact Emits.op .plus rfl fun _ _ _ => rfl
  | not => exact Emits.op .not rfl fun _ _ _ => rfl
  | typeof => exact Emits.op .typeof rfl fun _ _ _ => rfl
  | void => exact (emits_pop t).bind_left (Emits.op (.push .undefined) rfl fun _ _ _ => rfl)

/-! ## Operations over parts -/

section

variable {t : ScopeTable} {srcs srcs' : List Source} {P Q R : Blueprint → CodeFunction → Stretch}
  {f g r : Gen Unit}

/-- What a forward jump reads as. -/
theorem Chunk.forwardTarget_read {c : Chunk} {a target : Nat} (h : c.forwardTarget a = .ok target)
    (make : Nat → Instruction) :
    (do return make (← c.forwardTarget a) : Except Fault Instruction) = .ok (make target) := by
  rw [h]
  rfl

/-- The jumps that the generator uses. -/
theorem Opcode.jumpsForward :
    Opcode.jump.JumpsForward .jump ∧ Opcode.jumpIfFalse.JumpsForward .jumpIfFalse ∧
      Opcode.jumpIfFalseOrPop.JumpsForward .jumpIfFalseOrPop ∧
      Opcode.jumpIfTrueOrPop.JumpsForward .jumpIfTrueOrPop ∧
      Opcode.tryBegin.JumpsForward .tryBegin := by
  refine ⟨⟨rfl, ?_⟩, ⟨rfl, ?_⟩, ⟨rfl, ?_⟩, ⟨rfl, ?_⟩, ⟨rfl, ?_⟩⟩
  · exact fun p f a target h => Chunk.forwardTarget_read h .jump
  · exact fun p f a target h => Chunk.forwardTarget_read h .jumpIfFalse
  · exact fun p f a target h => Chunk.forwardTarget_read h .jumpIfFalseOrPop
  · exact fun p f a target h => Chunk.forwardTarget_read h .jumpIfTrueOrPop
  · exact fun p f a target h => Chunk.forwardTarget_read h .tryBegin

/-- **A binary operation.** -/
theorem emits_binary (op : BinaryOp) (hf : Emits t low f srcs P) (hg : Emits t low g srcs' Q) :
    Emits t low (binary op f g) (srcs ++ srcs') (fun U F => Laid.binary U F op (P U F) (Q U F)) := by
  -- Both operands, and then the operator.
  have hboth : ∀ (o : Opcode) (i : Instruction), o.operandSize = 0 →
      (∀ p f a, Instruction.ofOpcode p f o a = .ok i) →
      Emits t low (f >>= fun _ => g >>= fun _ => emit (Emitter.op o)) (srcs ++ srcs')
        (fun U F => (P U F).seq ((Q U F).seq (U.at F i))) :=
    fun o i hsize hread => hf.bind (hg.bind_right (Emits.op i hsize hread))
  cases op with
  | and => exact hf.bind (Emits.skip Opcode.jumpsForward.2.2.1 hg)
  | or => exact hf.bind (Emits.skip Opcode.jumpsForward.2.2.2.1 hg)
  | _ => exact hboth _ _ rfl fun _ _ _ => rfl

/-- **A call.** -/
theorem emits_call (c : GenContext) (isLowered : Bool) (withs : Nat) (span : Span) (form : Node)
    (argc : Nat) (htarget : Emits c.table low f (form.sources isLowered withs .value) P)
    (hargs : Emits c.table low g srcs Q)
    (hreceiver : ∀ i n name, form = .member i n name →
      Emits c.table low r (form.sources isLowered withs .value) R) :
    Emits c.table low (call c span form f argc g r) (form.sources isLowered withs .value ++ srcs)
      (fun U F => Laid.call U F c form (P U F) argc (Q U F) (R U F)) := by
  have hany : Emits c.table low (f >>= fun _ => g >>= fun _ => emit (Emitter.setSpan span) >>= fun _ =>
      emit (Emitter.call argc)) (form.sources isLowered withs .value ++ srcs)
      (fun U F => (P U F).seq ((Q U F).seq (U.at F (.call argc)))) := by
    refine htarget.bind (hargs.bind_right ?_)
    exact ((Emits.setSpan span).bind_left (Emits.call argc)).seq_empty_left
  cases form with
  | member i n name =>
    refine (hreceiver i n name rfl).bind (hargs.bind_right ?_)
    refine Emits.opSite .invokeMember rfl ?_ _ name argc span
    exact fun p f a k site h => CodeFunction.siteOperand_read h .invokeMember
  | dynamic i name =>
    refine hargs.bind_right ?_
    exact ((Emits.setSpan span).bind_left (Emits.callName name argc)).seq_empty_left
  | identifier i x =>
    simp only [call, Laid.call]
    by_cases hglobal : isGlobal c x = true
    · simp only [if_pos hglobal]
      refine Emits.bind_left (Emits.opName .getGlobal rfl ?_ x.name) (hargs.bind_right ?_)
      · exact fun p f a name hname => Pool.nameOperand_read hname .getGlobal
      · refine Emits.opSite .callGlobal rfl ?_ _ x.name argc span
        exact fun p f a k site h => CodeFunction.siteOperand_read h .callGlobal
    · simp only [if_neg hglobal]
      exact hany
  | _ => exact hany

/-- **An assignment.** -/
theorem emits_assign (c : GenContext) (isLowered : Bool) (withs : Nat) (span : Span) (form : Node)
    (hvalue : Emits c.table low f srcs P)
    (hobject : ∀ i n name, form = .member i n name →
      Emits c.table low r (form.sources isLowered withs .value) R) :
    Emits c.table low (assign c span form f r) (form.sources isLowered withs .value ++ srcs)
      (fun U F => Laid.assign U F c form (P U F) (R U F)) := by
  cases form with
  | identifier i x => exact hvalue.bind_right (emits_store c x span)
  | dynamic i name =>
    refine hvalue.bind_right (Emits.opName .setName rfl ?_ name)
    exact fun p f a name hname => Pool.nameOperand_read hname .setName
  | member i n name =>
    refine (hobject i n name rfl).bind (hvalue.bind_right ?_)
    refine Emits.opSite .setMember rfl ?_ _ name 0 span
    exact fun p f a k site h => CodeFunction.siteOperand_read h .setMember
  | _ => exact Emits.throw _

/-- **A removal.** -/
theorem emits_delete (c : GenContext) (isLowered : Bool) (withs : Nat) (form : Node)
    (htarget : Emits c.table low f (form.sources isLowered withs .value) P)
    (hobject : ∀ i n name, form = .member i n name →
      Emits c.table low r (form.sources isLowered withs .value) R) :
    Emits c.table low (delete c form f r) (form.sources isLowered withs .value)
      (fun U F => Laid.delete U F c form (P U F) (R U F)) := by
  have hany : Emits c.table low (f >>= fun _ => emit (Emitter.op .pop) >>= fun _ =>
      emit (Emitter.op .pushTrue)) (form.sources isLowered withs .value)
      (fun U F => (P U F).seq ((U.at F .pop).seq (U.at F (.push (.bool true))))) :=
    htarget.bind_right ((emits_pop c.table).bind_left (Emits.op _ rfl fun _ _ _ => rfl))
  cases form with
  | member i n name =>
    refine (hobject i n name rfl).bind_right (Emits.opName .deleteMember rfl ?_ name)
    exact fun p f a name hname => Pool.nameOperand_read hname .deleteMember
  | identifier i x => exact emits_erase c x i.span
  | dynamic i name =>
    refine Emits.opName .deleteName rfl ?_ name
    exact fun p f a name hname => Pool.nameOperand_read hname .deleteName
  | _ => exact hany

/-- **The start of a handler.** -/
theorem emits_bindCaught (c : GenContext) (param : Option Identifier) (span : Span) :
    Emits c.table low (bindCaught c param span) [] (fun U F => Laid.bindCaught U F c param) := by
  cases param with
  | none => exact emits_pop c.table
  | some x => exact (emits_store c x span).bind_left (emits_pop c.table)

/-- A statement has no value to give. -/
theorem emits_expectEffect (n : Node) (pos : Position) (h : Emits t low f srcs P) :
    Emits t low (expectEffect n pos >>= fun _ => f) srcs
      (fun U F => .given (pos = .effect) (P U F)) := by
  cases pos with
  | value =>
    intro s s' _ _ hg
    obtain ⟨_, _, hthrow, _⟩ := Gen.bind_eq_ok.mp hg
    cases hthrow
  | effect => exact h.mono fun U F a b hP => ⟨rfl, hP⟩

/-! ## Functions -/

/-- The places of parameters are found without changing the state. -/
theorem paramSlots_eq_ok {c : GenContext} {params : List Identifier} {span : Span}
    {s s' : GenState} {slots : List VarSlot} (h : paramSlots c params span s = .ok slots s') :
    s' = s ∧ ∃ vars : List VarId, params.map Identifier.var = vars.map some ∧
      slots = vars.map c.table.slotOf := by
  induction params generalizing s s' slots with
  | nil =>
    injection h with hslots hs
    exact ⟨hs.symm, [], rfl, hslots.symm⟩
  | cons x rest ih =>
    rw [paramSlots, List.mapM_cons] at h
    obtain ⟨slot, s₁, h₁, h₂⟩ := Gen.bind_eq_ok.mp h
    obtain ⟨more, s₂, h₃, h₄⟩ := Gen.bind_eq_ok.mp h₂
    obtain ⟨v, s₃, h₅, h₆⟩ := Gen.bind_eq_ok.mp h₁
    obtain ⟨hs₂, vars, hvars, hmore⟩ := ih h₃
    injection h₄ with hslots hs'
    injection h₆ with hslot hs₁
    rw [varOf] at h₅
    rcases hx : x.var with _ | w
    · rw [hx] at h₅
      cases h₅
    · rw [hx] at h₅
      injection h₅ with hv hs₃
      refine ⟨by rw [← hs', hs₂, ← hs₁, ← hs₃], w :: vars, by simp [hx, hvars], ?_⟩
      rw [← hslots, ← hslot, ← hv, hmore]
      rfl

/-- **The start of a function expression.** -/
theorem emits_bindOwnName (c : GenContext) (src : Source) (span : Span) :
    Emits c.table low (bindOwnName c src.name src.isDeclaration span) []
      (fun U F => Laid.ownName U F c src) := by
  obtain ⟨scope, name, params, body, isDeclaration, isProgram, isLowered⟩ := src
  cases isDeclaration with
  | true => exact Emits.pure
  | false =>
    cases name with
    | none => exact Emits.pure
    | some x =>
      simp only [bindOwnName, Laid.ownName]
      by_cases hx : x.var.isSome = true
      · simp only [if_pos hx]
        refine Emits.bind_left (Emits.op .getCallee rfl fun _ _ _ => rfl) ?_
        exact (emits_store c x span).bind_left (emits_pop c.table)
      · simp only [if_neg hx]
        exact Emits.pure

end

/-- The functions that a function adds: those inside it and then itself. It leaves no code. -/
theorem function_emitted {c : GenContext} {isLowered : Bool} {withs : Nat} {name : Option Identifier}
    {params : List Identifier} {body : List Node} {isDeclaration : Bool} {scope : Option ScopeId}
    {span : Span} {declare code : GenContext → Gen Unit} {srcs srcs' : List Source}
    (hdeclare : ∀ inner : GenContext, inner.table = c.table → Emits inner.table 0 (declare inner) srcs
      (fun U F => LaidHoistedAll U F inner (isLowered || decide (0 < withs)) 0 body))
    (hcode : ∀ inner : GenContext, inner.table = c.table → Emits inner.table 0 (code inner) srcs'
      (fun U F => LaidAll U F inner (isLowered || decide (0 < withs)) 0 .effect body))
    {s s' : GenState} (hs : s.pool.Sound) {index : Nat}
    (h : function c name params isDeclaration scope span declare code s = .ok index s') :
    Emitted c.table s s'
      (srcs ++ srcs' ++ [.ofFunction isLowered withs name params body isDeclaration scope])
      (fun U _ a b => a = b ∧ U.sources[index]? =
        some (.ofFunction isLowered withs name params body isDeclaration scope)) := by
  rcases scope with _ | scope
  · cases h
  · obtain ⟨slots, s₀, h₀, h⟩ := Gen.bind_eq_ok.mp h
    obtain ⟨rfl, vars, hvars, rfl⟩ := paramSlots_eq_ok h₀
    obtain ⟨aside, s₁, h₁, h⟩ := Gen.bind_eq_ok.mp h
    obtain ⟨_, s₂, h₂, h⟩ := Gen.bind_eq_ok.mp h
    obtain ⟨_, s₃, h₃, h⟩ := Gen.bind_eq_ok.mp h
    obtain ⟨_, s₄, h₄, h⟩ := Gen.bind_eq_ok.mp h
    obtain ⟨_, s₅, h₅, h₆⟩ := Gen.bind_eq_ok.mp h
    obtain ⟨⟨chunk, pool, outer⟩, sites, functions⟩ := s₀
    injection h₁ with haside hs₁
    -- The code of the function starts at offset zero.
    have hs₁ : s₁.offset = 0 ∧ s₁.pool = pool ∧ s₁.functions = functions := by
      rw [← hs₁]
      exact ⟨rfl, rfl, rfl⟩
    obtain ⟨hoffset, hpool, hfunctions⟩ := hs₁
    let src : Source := .ofFunction isLowered withs name params body isDeclaration (some scope)
    let inner : GenContext := { table := c.table, scope, completion := none }
    have e₁ := emits_bindOwnName inner src span s₁ s₂ (Nat.zero_le _) (hpool ▸ hs) h₂
    have e₂ := hdeclare inner rfl s₂ s₃ (Nat.zero_le _) e₁.sound h₃
    have e₃ := hcode inner rfl s₃ s₄ (Nat.zero_le _) e₂.sound h₄
    have e₄ : Emitted c.table s₄ s₅ [] (fun U F => U.at F .retUndefined) :=
      Emits.op .retUndefined rfl (fun _ _ _ => rfl) s₄ s₅ (Nat.zero_le _) e₃.sound h₅
    have e := e₁.trans ((e₂.trans e₃).trans e₄)
    rw [List.nil_append, List.append_nil] at e
    obtain ⟨⟨chunk₅, pool₅, span₅⟩, sites₅, functions₅⟩ := s₅
    subst haside
    injection h₆ with hindex hs'
    have hcount := e.count
    rw [hfunctions] at hcount
    simp only at hcount
    have hlists : ∀ U : Blueprint, U.Lists functions.size (srcs ++ srcs' ++ [src]) →
        U.Lists s₁.functions.size (srcs ++ srcs') ∧ U.sources[index]? = some src := by
      intro U hl
      obtain ⟨hinside, hitself⟩ := Blueprint.lists_append.mp hl
      refine ⟨hfunctions ▸ hinside, ?_⟩
      rw [← hindex, hcount]
      exact hitself 0 src rfl
    subst hs'
    refine ⟨⟨Grows.refl _, hpool ▸ e.extends_.pool, Grows.refl _, ?_⟩, e.sound, ?_,
      fun U F hU hF hl => ⟨rfl, (hlists U hl).2⟩, fun U hU hl => ?_⟩
    · exact (hfunctions ▸ e.extends_.functions).trans (Grows.push _ _)
    · simp only [Array.size_push, hcount, List.length_append, List.length_singleton]
      omega
    · have hinside := e.functions U ⟨hU.table, hU.pool⟩ (hlists U hl).1
      rw [hfunctions] at hinside
      refine (Blueprint.Makes.mono hinside (Grows.push _ _)).append ?_
      rw [← hcount]
      have hcontext : U.context src = inner := by
        rw [Blueprint.context, hU.table]
        rfl
      refine .push ⟨⟨chunk₅.size, ?_⟩, ?_, ?_, vars, hvars, ?_⟩
      · rw [Laid.code, hcontext]
        have hstretch := e.code U
          ⟨functionName name, vars.map c.table.slotOf, (c.table.layout scope).localCount,
            (c.table.layout scope).envNames, chunk₅, sites₅, span⟩
          ⟨hU.table, hU.pool⟩ ⟨Grows.refl _, fun i _ _ => rfl⟩ (hlists U hl).1
        rw [hoffset] at hstretch
        exact hstretch
      · rw [hU.table]
        rfl
      · rw [hU.table]
        rfl
      · rw [hU.table]

/-- **A function is made**: those inside it are generated, then itself, and then it is pushed. -/
theorem emits_closure {c : GenContext} {isLowered : Bool} {withs : Nat} {name : Option Identifier}
    {params : List Identifier} {body : List Node} {isDeclaration : Bool} {scope : Option ScopeId}
    {span : Span} {declare code : GenContext → Gen Unit} {srcs srcs' : List Source}
    (hdeclare : ∀ inner : GenContext, inner.table = c.table → Emits inner.table 0 (declare inner) srcs
      (fun U F => LaidHoistedAll U F inner (isLowered || decide (0 < withs)) 0 body))
    (hcode : ∀ inner : GenContext, inner.table = c.table → Emits inner.table 0 (code inner) srcs'
      (fun U F => LaidAll U F inner (isLowered || decide (0 < withs)) 0 .effect body)) :
    Emits c.table low (function c name params isDeclaration scope span declare code >>= fun index =>
        emit (Emitter.closure index))
      (srcs ++ srcs' ++ [.ofFunction isLowered withs name params body isDeclaration scope])
      (fun U F => Laid.closure U F
        (.ofFunction isLowered withs name params body isDeclaration scope)) := by
  intro s s' hlow hs hg
  obtain ⟨index, s₁, h₁, h₂⟩ := Gen.bind_eq_ok.mp hg
  have hfunction := function_emitted hdeclare hcode hs h₁
  have hpush : Emits c.table 0 (emit (Emitter.closure index)) [] (fun U F => U.at F (.closure index)) := by
    refine Emits.opIndex .closure rfl rfl ?_ index
    exact fun p f a k hk => Chunk.shortOperand_read hk .closure
  have hboth := hfunction.trans (hpush s₁ s' (Nat.zero_le _) hfunction.sound h₂)
  rw [List.append_nil] at hboth
  refine hboth.mono ?_
  rintro U F a b ⟨m, ⟨rfl, hsource⟩, hat⟩
  exact ⟨index, hsource, hat⟩

/-! ## Nodes -/

section

variable (U : Blueprint) (F : CodeFunction) (c : GenContext) (isLowered : Bool) (withs : Nat)
  (pos : Position) (i : Info)

/-- The code of a call, whatever its target. -/
theorem node_call (target : Node) (args : List Node) :
    node c pos (.call i target args) = (do
      emit (Emitter.setSpan i.span)
      call c i.span target (node c .value target) args.length (nodes c .value args)
        (match target with
          | .member _ receiver _ => node c .value receiver
          | _ => pure ())
      settle c pos) := by
  cases target <;> rfl

/-- The code of an assignment, whatever its target. -/
theorem node_assign (target value : Node) :
    node c pos (.assign i target value) = (do
      emit (Emitter.setSpan i.span)
      assign c i.span target (node c .value value)
        (match target with
          | .member _ object _ => node c .value object
          | _ => pure ())
      settle c pos) := by
  cases target <;> rfl

/-- The code of a removal, whatever its target. -/
theorem node_delete (target : Node) :
    node c pos (.delete i target) = (do
      emit (Emitter.setSpan i.span)
      delete c target (node c .value target)
        (match target with
          | .member _ object _ => node c .value object
          | _ => pure ())
      settle c pos) := by
  cases target <;> rfl

/-- The layout of a call, whatever its target. -/
theorem Laid_call (target : Node) (args : List Node) :
    Laid U F c isLowered withs pos (.call i target args) =
      (Laid.call U F c target (Laid U F c isLowered withs .value target) args.length
        (LaidAll U F c isLowered withs .value args)
        (match target with
          | .member _ receiver _ => Laid U F c isLowered withs .value receiver
          | _ => .empty)).seq (Laid.settle U F c pos) := by
  cases target <;> rfl

/-- The layout of an assignment, whatever its target. -/
theorem Laid_assign (target value : Node) :
    Laid U F c isLowered withs pos (.assign i target value) =
      (Laid.assign U F c target (Laid U F c isLowered withs .value value)
        (match target with
          | .member _ object _ => Laid U F c isLowered withs .value object
          | _ => .empty)).seq (Laid.settle U F c pos) := by
  cases target <;> rfl

/-- The layout of a removal, whatever its target. -/
theorem Laid_delete (target : Node) :
    Laid U F c isLowered withs pos (.delete i target) =
      (Laid.delete U F c target (Laid U F c isLowered withs .value target)
        (match target with
          | .member _ object _ => Laid U F c isLowered withs .value object
          | _ => .empty)).seq (Laid.settle U F c pos) := by
  cases target <;> rfl

end

mutual

/-- **A node** emits the code that is laid out for it. -/
theorem emits_node (c : GenContext) (isLowered : Bool) (withs : Nat) (pos : Position) (low : Nat) :
    ∀ n : Node, Emits c.table low (node c pos n) (n.sources isLowered withs pos)
      (fun U F => Laid U F c isLowered withs pos n)
  | .literal i l => by
    refine ((Emits.setSpan _).bind_left ?_).seq_empty_left
    exact (emits_literal c.table l).bind_left (emits_settle c pos)
  | .identifier i x => by
    refine ((Emits.setSpan _).bind_left ?_).seq_empty_left
    exact (emits_load c x i.span).bind_left (emits_settle c pos)
  | .dynamic i name => by
    refine ((Emits.setSpan _).bind_left ?_).seq_empty_left
    refine Emits.bind_left (Emits.opName .getName rfl ?_ name) (emits_settle c pos)
    exact fun p f a name hname => Pool.nameOperand_read hname .getName
  | .this i => by
    refine ((Emits.setSpan _).bind_left ?_).seq_empty_left
    exact Emits.bind_left (Emits.op .getThis rfl fun _ _ _ => rfl) (emits_settle c pos)
  | .call i target args => by
    rw [node_call, Node.sources]
    simp only [Laid_call]
    refine ((Emits.setSpan _).bind_left ?_).seq_empty_left
    refine Emits.bind_right (emits_call c isLowered withs i.span target args.length
      (emits_node c isLowered withs .value low target)
      (emits_nodes c isLowered withs .value low args) ?_) (emits_settle c pos)
    cases target with
    | member j receiver name =>
      rintro _ _ _ ⟨⟩
      exact emits_node c isLowered withs .value low receiver
    | _ => rintro _ _ _ ⟨⟩
  | .member i target name => by
    refine ((Emits.setSpan _).bind_left ?_).seq_empty_left
    refine (emits_node c isLowered withs .value low target).bind_right ?_
    refine Emits.bind_left (Emits.opSite .getMember rfl ?_ _ name 0 i.span) (emits_settle c pos)
    exact fun p f a k site h => CodeFunction.siteOperand_read h .getMember
  | .binary i op lhs rhs => by
    refine ((Emits.setSpan _).bind_left ?_).seq_empty_left
    exact (emits_binary op (emits_node c isLowered withs .value low lhs)
      (emits_node c isLowered withs .value low rhs)).bind_right (emits_settle c pos)
  | .unary i op operand => by
    refine ((Emits.setSpan _).bind_left ?_).seq_empty_left
    refine (emits_node c isLowered withs .value low operand).bind_right ?_
    exact (emits_unaryOp c.table op).bind_left (emits_settle c pos)
  | .assign i target value => by
    rw [node_assign, Node.sources]
    simp only [Laid_assign]
    refine ((Emits.setSpan _).bind_left ?_).seq_empty_left
    refine (emits_assign c isLowered withs i.span target
      (emits_node c isLowered withs .value low value) ?_).bind_right (emits_settle c pos)
    cases target with
    | member j object name =>
      rintro _ _ _ ⟨⟩
      exact emits_node c isLowered withs .value low object
    | _ => rintro _ _ _ ⟨⟩
  | .function i name params body isDeclaration scope => by
    refine ((Emits.setSpan _).bind_left ?_).seq_empty_left
    simp only [Node.sources, Laid]
    by_cases hskip : (isDeclaration && pos = .effect) = true
    · simp only [if_pos hskip]
      exact Emits.pure
    · simp only [if_neg hskip]
      refine Emits.assoc (Emits.bind_right (emits_closure ?_ ?_) (emits_settle c pos))
      · exact fun inner _ => emits_hoistedAll inner (isLowered || decide (0 < withs)) 0 0 body
      · exact fun inner _ => emits_nodes inner (isLowered || decide (0 < withs)) 0 .effect 0 body
  | .object i ps => by
    refine ((Emits.setSpan _).bind_left ?_).seq_empty_left
    refine Emits.bind_left (Emits.op .newObject rfl fun _ _ _ => rfl) ?_
    exact (emits_properties c isLowered withs low ps).bind_right (emits_settle c pos)
  | .delete i target => by
    rw [node_delete, Node.sources]
    simp only [Laid_delete]
    refine ((Emits.setSpan _).bind_left ?_).seq_empty_left
    refine (emits_delete c isLowered withs target (emits_node c isLowered withs .value low target)
      ?_).bind_right (emits_settle c pos)
    cases target with
    | member j object name =>
      rintro _ _ _ ⟨⟩
      exact emits_node c isLowered withs .value low object
    | _ => rintro _ _ _ ⟨⟩
  | .var i binding init => by
    cases init with
    | none =>
      refine ((Emits.setSpan _).bind_left ?_).seq_empty_left
      exact emits_expectEffect _ pos Emits.pure
    | some init =>
      refine ((Emits.setSpan _).bind_left ?_).seq_empty_left
      refine emits_expectEffect _ pos ?_
      refine (emits_node c isLowered withs .value low init).bind_right ?_
      exact (emits_store c binding i.span).bind_left (emits_pop c.table)
  | .ret i value => by
    cases value with
    | none =>
      refine ((Emits.setSpan _).bind_left ?_).seq_empty_left
      exact emits_expectEffect _ pos (Emits.op .retUndefined rfl fun _ _ _ => rfl)
    | some value =>
      refine ((Emits.setSpan _).bind_left ?_).seq_empty_left
      refine emits_expectEffect _ pos ?_
      refine (emits_node c isLowered withs .value low value).bind_right ?_
      exact Emits.op .ret rfl fun _ _ _ => rfl
  | .cond i condition thenBranch elseBranch => by
    cases elseBranch with
    | none =>
      rw [Node.sources, sources?, List.append_nil]
      refine ((Emits.setSpan _).bind_left ?_).seq_empty_left
      refine emits_expectEffect _ pos ?_
      refine (emits_node c isLowered withs .value low condition).bind ?_
      exact Emits.skip Opcode.jumpsForward.2.1 (emits_node c isLowered withs .effect low thenBranch)
    | some elseBranch =>
      rw [Node.sources, sources?, List.append_assoc]
      refine ((Emits.setSpan _).bind_left ?_).seq_empty_left
      refine emits_expectEffect _ pos ?_
      refine (emits_node c isLowered withs .value low condition).bind ?_
      exact Emits.fork Opcode.jumpsForward.2.1 Opcode.jumpsForward.1
        (emits_node c isLowered withs .effect low thenBranch)
        (emits_node c isLowered withs .effect low elseBranch)
  | .loop i condition body => by
    refine ((Emits.setSpan _).bind_left ?_).seq_empty_left
    refine emits_expectEffect _ pos ?_
    -- The jump back leads to where the test starts.
    refine Emits.offset (f := fun start => node c .value condition >>= fun _ =>
      emit (Emitter.jump .jumpIfFalse) >>= fun exit => node c .effect body >>= fun _ =>
      emit (Emitter.loop start) >>= fun _ => emit (Emitter.patch exit))
      (P := fun start U F => (Laid U F c isLowered withs .value condition).seq
        (.skip U F .jumpIfFalse ((Laid U F c isLowered withs .effect body).seq
          (U.at F (.jump start))))) fun start => ?_
    have hbody := (emits_node c isLowered withs .effect start body).bind_right (Emits.loop start)
    have hskip := Emits.skip Opcode.jumpsForward.2.1 hbody
    simp only [bind_assoc] at hskip
    exact (emits_node c isLowered withs .value start condition).bind hskip
  | .block i statements => by
    refine ((Emits.setSpan _).bind_left ?_).seq_empty_left
    exact emits_expectEffect _ pos (emits_nodes c isLowered withs .effect low statements)
  | .withObject i object body => by
    refine ((Emits.setSpan _).bind_left ?_).seq_empty_left
    refine emits_expectEffect _ pos ?_
    refine (emits_node c isLowered withs .value low object).bind ?_
    refine Emits.bind_left (Emits.op .enterWith rfl fun _ _ _ => rfl) ?_
    refine (emits_node c isLowered (withs + 1) .effect low body).bind_right ?_
    exact Emits.op .exitWith rfl fun _ _ _ => rfl
  | .throw i value => by
    refine ((Emits.setSpan _).bind_left ?_).seq_empty_left
    refine emits_expectEffect _ pos ?_
    refine (emits_node c isLowered withs .value low value).bind_right ?_
    exact ((Emits.setSpan _).bind_left (Emits.op .throw rfl fun _ _ _ => rfl)).seq_empty_left
  | .tryCatch i block param handler => by
    refine ((Emits.setSpan _).bind_left ?_).seq_empty_left
    refine emits_expectEffect _ pos ?_
    have hblock : Emits c.table low (node c .effect block >>= fun _ => emit (Emitter.op .tryEnd)) _ _ :=
      (emits_node c isLowered withs .effect low block).bind_right
        (Emits.op .tryEnd rfl fun _ _ _ => rfl)
    have hhandler := (emits_bindCaught c param i.span).bind_left
      (emits_node c isLowered withs .effect low handler)
    have hfork := Emits.fork Opcode.jumpsForward.2.2.2.2 Opcode.jumpsForward.1 hblock hhandler
    simp only [bind_assoc] at hfork
    exact hfork
termination_by structural n => n

/-- **Nodes in order** emit the code that is laid out for them. -/
theorem emits_nodes (c : GenContext) (isLowered : Bool) (withs : Nat) (pos : Position) (low : Nat) :
    ∀ ns : List Node, Emits c.table low (nodes c pos ns) (sourcesAll isLowered withs pos ns)
      (fun U F => LaidAll U F c isLowered withs pos ns)
  | [] => Emits.pure
  | n :: rest =>
    (emits_node c isLowered withs pos low n).bind (emits_nodes c isLowered withs pos low rest)
termination_by structural ns => ns

/-- **Properties in order** emit the code that is laid out for them. -/
theorem emits_properties (c : GenContext) (isLowered : Bool) (withs : Nat) (low : Nat) :
    ∀ ps : List (String × Node), Emits c.table low (properties c ps)
      (sourcesProperties isLowered withs ps) (fun U F => LaidProperties U F c isLowered withs ps)
  | [] => Emits.pure
  | (name, value) :: rest => by
    refine (emits_node c isLowered withs .value low value).bind ?_
    refine Emits.bind_left (Emits.opName .initProperty rfl ?_ name)
      (emits_properties c isLowered withs low rest)
    exact fun p f a name hname => Pool.nameOperand_read hname .initProperty
termination_by structural ps => ps

/-- **Declared functions** are made and bound by the code that is laid out for them. -/
theorem emits_hoisted (c : GenContext) (isLowered : Bool) (withs : Nat) (low : Nat) :
    ∀ n : Node, Emits c.table low (hoisted c n) (n.hoistedSources isLowered withs)
      (fun U F => LaidHoisted U F c isLowered withs n)
  | .function i name params body isDeclaration scope => by
    cases isDeclaration with
    | false => exact Emits.pure
    | true =>
      cases name with
      | none => exact Emits.pure
      | some x =>
        refine Emits.get fun s => Emits.assoc (Emits.bind_right (emits_closure ?_ ?_) ?_)
        · exact fun inner _ => emits_hoistedAll inner (isLowered || decide (0 < withs)) 0 0 body
        · exact fun inner _ => emits_nodes inner (isLowered || decide (0 < withs)) 0 .effect 0 body
        · exact (emits_store c x _).bind_left (emits_pop c.table)
  | .block i statements => emits_hoistedAll c isLowered withs low statements
  | .cond i condition thenBranch elseBranch =>
    (emits_hoisted c isLowered withs low thenBranch).bind
      (emits_hoisted? c isLowered withs low elseBranch)
  | .loop i condition body => emits_hoisted c isLowered withs low body
  | .tryCatch i block param handler =>
    (emits_hoisted c isLowered withs low block).bind (emits_hoisted c isLowered withs low handler)
  | .literal .. | .identifier .. | .dynamic .. | .this _ | .call .. | .member .. | .binary ..
  | .unary .. | .assign .. | .object .. | .delete .. | .var .. | .ret .. | .withObject ..
  | .throw .. => Emits.pure
termination_by structural n => n

/-- **Declared functions of a body** are made and bound in order. -/
theorem emits_hoistedAll (c : GenContext) (isLowered : Bool) (withs : Nat) (low : Nat) :
    ∀ ns : List Node, Emits c.table low (hoistedAll c ns) (hoistedSourcesAll isLowered withs ns)
      (fun U F => LaidHoistedAll U F c isLowered withs ns)
  | [] => Emits.pure
  | n :: rest =>
    (emits_hoisted c isLowered withs low n).bind (emits_hoistedAll c isLowered withs low rest)
termination_by structural ns => ns

/-- **Declared functions of a statement** that may be missing. -/
theorem emits_hoisted? (c : GenContext) (isLowered : Bool) (withs : Nat) (low : Nat) :
    ∀ n : Option Node, Emits c.table low (hoisted? c n) (hoistedSources? isLowered withs n)
      (fun U F => LaidHoisted? U F c isLowered withs n)
  | none => Emits.pure
  | some n => emits_hoisted c isLowered withs low n
termination_by structural n => n

end

end

/-! ## Units -/

/-- A program's own code: what it declares, its statements, and then its value is returned. -/
theorem emits_programCode (c : GenContext) (body : List Node) (completion : Nat) :
    Emits c.table 0 (programCode c body completion)
      (hoistedSourcesAll false 0 body ++ sourcesAll false 0 .effect body)
      (fun U F => ((LaidHoistedAll U F c false 0 body).seq (LaidAll U F c false 0 .effect body)).seq
        ((U.at F (.getLocal completion)).seq (U.at F .ret))) := by
  have hload : Emits c.table 0 (emit (Emitter.loadLocal completion)) []
      (fun U F => U.at F (.getLocal completion)) := by
    refine Emits.opIndex .getLocal rfl rfl ?_ completion
    exact fun p f a k hk => Chunk.shortOperand_read hk .getLocal
  have hret : Emits c.table 0 (emit (Emitter.op .ret)) [] (fun U F => U.at F .ret) :=
    Emits.op .ret rfl fun _ _ _ => rfl
  have hbody := (emits_hoistedAll c false 0 0 body).bind (emits_nodes c false 0 .effect 0 body)
  have h := hbody.bind_right (hload.bind_left hret)
  simp only [bind_assoc] at h
  exact h

/-- **Every function of a generated unit** was made of the source at its position, and the program's
own code is the last one. -/
theorem Blueprint.lays_of_generate {t : ScopeTable} {p : Program} {u : CodeUnit}
    (h : generate t p = .ok u) :
    u.functions.size = p.sources.length ∧ p.sources[u.entry]? = some p.source ∧
      ∀ (k : Nat) (src : Source), p.sources[k]? = some src → ∃ F, u.functions[k]? = some F ∧
        Blueprint.Lays ⟨t, u.pool, p.sources⟩ F src := by
  rw [generate] at h
  split at h
  · next scope hscope _ =>
    simp only at h
    split at h
    · cases h
    · next s hs =>
      have e := emits_programCode _ p.body _ {} s (Nat.zero_le _) Pool.sound_empty hs
      injection h with h
      subst h
      generalize hinner : hoistedSourcesAll false 0 p.body ++ sourcesAll false 0 .effect p.body =
        inner at e
      have hsources : p.sources = inner ++ [p.source] := by rw [← hinner]; rfl
      have hcount : s.functions.size = inner.length := by
        rw [e.count]
        simp
      let U : Blueprint := ⟨t, s.emitter.pool, p.sources⟩
      have hU : U.Covers t s := ⟨rfl, Grows.refl _⟩
      have hlists : U.Lists 0 inner := by
        have hall : U.Lists 0 (inner ++ [p.source]) := by
          intro k src hk
          rw [Nat.zero_add]
          rwa [← hsources] at hk
        exact (Blueprint.lists_append.mp hall).1
      have hsource : p.source.scope = scope := by simp [Program.source, hscope]
      let F : CodeFunction :=
        { name := programName, params := [], localCount := (t.layout scope).localCount + 1,
          envNames := (t.layout scope).envNames, chunk := s.emitter.chunk, sites := s.sites,
          span := Span.none }
      have hlays : U.Lays F p.source := by
        refine ⟨⟨s.offset, ?_⟩, ?_, ?_, [], rfl, rfl⟩
        · have hcontext : U.context p.source = ⟨t, scope, some (t.layout scope).localCount⟩ := by
            rw [Blueprint.context, hsource]
            rfl
          have hstretch := e.code U F hU ⟨Grows.refl _, fun i _ _ => rfl⟩ hlists
          rw [Laid.code, hcontext, hsource]
          exact hstretch
        · rw [hsource]
          rfl
        · rw [hsource]
      have hmakes : U.Makes (s.functions.push F) 0 p.sources := by
        have hinside : U.Makes s.functions 0 inner := e.functions U hU hlists
        rw [hsources]
        refine (hinside.mono (Grows.push _ _)).append ?_
        rw [Nat.zero_add, ← hcount]
        exact .push hlays
      refine ⟨by simp [hsources, hcount], by simp [hsources, hcount], fun k src hk => ?_⟩
      obtain ⟨F', hF', hlays'⟩ := hmakes k src hk
      exact ⟨F', Nat.zero_add k ▸ hF', hlays'⟩
  · cases h

end ScriptEngine
