import ScriptEngine.Proofs.Code.Boundaries
import ScriptEngine.Proofs.Code.Compiled
import ScriptEngine.Proofs.Scope.LoopFree

/-!
# Generated code is well-formed

Generation writes instruction after instruction, patches jumps, and sets the code of a function aside
while it generates the functions inside. Throughout, the code so far is in order apart from the jumps that
await their targets, the finished functions are in order, and every function that was finished since is
made by exactly one instruction, apart from those that are still owed one (`GenState.Tidy`). A generating
computation is *orderly* if it keeps that up (`Orderly`), and all of them are.
-/

namespace ScriptEngine

open Generation

/-- The functions that the code of a function makes, in order. -/
def CodeFunction.closures (F : CodeFunction) : List Nat := F.chunk.closures

/-- What the operands of a finished function can stand for. -/
def CodeFunction.context (F : CodeFunction) (pool : Pool) (index : Nat) (terms : CodeTerms) : CodeContext :=
  ⟨pool, F.localCount, F.sites, index, terms⟩

namespace GenState

/-- The code of the function so far. -/
def chunk (s : GenState) : Chunk := s.emitter.chunk

/-- What the operands of the function can stand for so far. -/
def context (s : GenState) (locals : Nat) (terms : CodeTerms) : CodeContext :=
  ⟨s.pool, locals, s.sites, s.functions.size, terms⟩

/-- What is true while a function is generated that started when there was a number of functions. -/
structure Tidy (s : GenState) (locals : Nat) (terms : CodeTerms) (base : Nat) (waiting owed : List Nat) :
    Prop where
  /-- The pool is sound. -/
  sound : s.pool.Sound
  /-- The code so far is in order. -/
  chunk : s.chunk.Tidy (s.context locals terms) waiting
  /-- The finished functions are in order. -/
  finished : ∀ (j : Nat) (F : CodeFunction), s.functions[j]? = some F → F.chunk.Tidy (F.context s.pool j terms) []
  /-- There were no more functions at the start. -/
  base_le : base ≤ s.functions.size
  /-- Every function since is made once, or owed. -/
  made : (s.chunk.closures ++ owed ++ (s.functions.toList.drop base).flatMap CodeFunction.closures).Perm
    (List.range' base (s.functions.size - base))

/-- What stays while generation goes on. -/
structure Leads (s s' : GenState) : Prop where
  /-- Where instructions start, they still do. -/
  boundary : ∀ t, s.chunk.IsBoundary t → s'.chunk.IsBoundary t
  /-- The constants stay. -/
  pool : Grows s.pool.constants s'.pool.constants
  /-- The finished functions stay. -/
  functions : s.functions.toList <+: s'.functions.toList

/-- Nothing has changed. -/
theorem Leads.refl (s : GenState) : s.Leads s := ⟨fun _ => id, Grows.refl _, List.prefix_refl _⟩

/-- One after the other. -/
theorem Leads.trans {s s₁ s' : GenState} (h : s.Leads s₁) (h' : s₁.Leads s') : s.Leads s' :=
  ⟨fun t ht => h'.boundary t (h.boundary t ht), h.pool.trans h'.pool, h.functions.trans h'.functions⟩

end GenState

/-- A generating computation keeps everything in order. -/
def Orderly {α : Type} (locals : Nat) (terms : CodeTerms) (g : Gen α) : Prop :=
  ∀ base waiting s x s', s.Tidy locals terms base waiting [] → g s = .ok x s' →
    s'.Tidy locals terms base waiting [] ∧ s.Leads s'

section

variable {locals : Nat} {terms : CodeTerms} {base : Nat} {waiting owed : List Nat} {s s' : GenState}

/-! ## One more instruction -/

/-- Bytes that start with an opcode are one more instruction. -/
theorem Emitter.Writes.appends {e e' : Emitter} {op : Opcode} {bytes : List UInt8}
    (hw : e.Writes e' (op.toByte :: bytes)) (hsize : bytes.length = op.operandSize) :
    e.chunk.Appends e'.chunk op := by
  have hcode : ∀ (i : Nat) (b : UInt8), e.chunk.code[i]? = some b → e'.chunk.code[i]? = some b := by
    intro i b hb
    obtain ⟨hlt, -⟩ := Array.getElem?_eq_some_iff.mp hb
    rw [hw.code, Array.getElem?_append_left hlt]
    exact hb
  refine ⟨hcode, ?_, ?_, ?_⟩
  · rw [Chunk.size, hw.code, ← hsize]
    simp only [Array.size_append, List.size_toArray, List.length_cons, Chunk.size]
    omega
  · have hbyte : e'.chunk.code[e.chunk.code.size]? = some op.toByte := by simp [hw.code]
    rw [Chunk.op?, Chunk.byte?, Chunk.size, hbyte]
    exact Opcode.ofByte?_toByte op
  · rw [hw.lines, ← hsize, List.length_cons]
    omega

/-- A two-byte operand behind an opcode is read back. -/
theorem Emitter.Writes.short {e e' : Emitter} {o b b' : UInt8} {bytes : List UInt8}
    (hw : e.Writes e' (o :: b :: b' :: bytes)) :
    e'.chunk.code[e.offset + 1]? = some b ∧ e'.chunk.code[e.offset + 1 + 1]? = some b' := by
  have hsize : e.offset = e.chunk.code.size := rfl
  rw [hw.code, hsize]
  constructor
  · rw [Array.getElem?_append_right (by omega)]
    simp
  · rw [Array.getElem?_append_right (by omega), show e.chunk.code.size + 1 + 1 - e.chunk.code.size = 2 by omega]
    simp

/-- The unit grows while constants and sites are added. -/
theorem GenState.context_within (hpool : Grows s.pool.constants s'.pool.constants)
    (hsites : Grows s.sites s'.sites) (hfunctions : s'.functions = s.functions) :
    (s.context locals terms).Within (s'.context locals terms) :=
  ⟨hpool, Nat.le_refl _, hsites, Nat.le_of_eq (by rw [context, context, hfunctions]), rfl⟩

/-- A finished function stays in order while the pool grows. -/
theorem Chunk.Tidy.grow {c : Chunk} {F : CodeFunction} {p q : Pool} {j : Nat}
    (h : c.Tidy (F.context p j terms) waiting) (hpool : Grows p.constants q.constants) :
    c.Tidy (F.context q j terms) waiting :=
  h.mono ⟨hpool, Nat.le_refl _, Grows.refl _, Nat.le_refl _, rfl⟩

/-- **An instruction is written.** If it makes a function then this is no longer owed. -/
theorem GenState.Tidy.write {owed' : List Nat} (h : s.Tidy locals terms base waiting owed) {op : Opcode}
    {bytes : List UInt8} (hw : s.emitter.Writes s'.emitter (op.toByte :: bytes))
    (hsize : bytes.length = op.operandSize) (hsites : Grows s.sites s'.sites)
    (hfunctions : s'.functions = s.functions)
    (hoperand : 2 ≤ op.operandSize → ∃ n, s'.chunk.shortOperand (s.offset + 1) = .ok n ∧
      op.Admits (s'.context locals terms) s'.chunk.IsBoundary s.offset n ∧
      (op = .closure → owed = n :: owed'))
    (howed : op ≠ .closure → owed = owed') :
    s'.Tidy locals terms base waiting owed' ∧ s.Leads s' := by
  have happ : s.chunk.Appends s'.chunk op := hw.appends hsize
  have hchunk : s'.chunk.Tidy (s'.context locals terms) waiting := by
    refine h.chunk.append (context_within hw.pool hsites hfunctions) happ (fun a ha => .inl ha)
      (fun a ha => ha) fun _ htwo => ?_
    obtain ⟨n, hn, hadmits, -⟩ := hoperand htwo
    exact ⟨n, hn, hadmits⟩
  refine ⟨⟨hw.sound, hchunk, fun j F hF => ?_, hfunctions ▸ h.base_le, ?_⟩,
    ⟨fun t => h.chunk.boundary_append happ, hw.pool, hfunctions ▸ List.prefix_refl _⟩⟩
  · rw [hfunctions] at hF
    exact (h.finished j F hF).grow hw.pool
  · have hmade := h.made
    rw [hfunctions, h.chunk.closures_append happ]
    by_cases hop : op = .closure
    · subst hop
      obtain ⟨n, hn, -, howes⟩ := hoperand (Nat.le_refl _)
      have hn' : s'.chunk.shortOperand (s.chunk.size + 1) = .ok n := hn
      rw [howes rfl] at hmade
      rw [if_pos rfl, hn', show (Except.ok n : Except Fault Nat).toOption.toList = [n] from rfl]
      simpa using hmade
    · rw [howed hop] at hmade
      rw [if_neg hop, List.append_nil]
      exact hmade

namespace Orderly

variable {α β : Type} {g g' : Gen Unit}

/-- Doing nothing. -/
theorem pure (x : α) : Orderly locals terms (Pure.pure x : Gen α) := by
  intro base waiting s y s' h hg
  cases hg
  exact ⟨h, .refl s⟩

/-- What fails leaves nothing to keep. -/
theorem throw (e : CompileError) : Orderly locals terms (MonadExcept.throw e : Gen α) := by
  intro base waiting s y s' h hg
  cases hg

/-- What comes behind a failure is not reached. -/
theorem throw_bind (e : CompileError) (f : α → Gen β) :
    Orderly locals terms ((MonadExcept.throw e : Gen α) >>= f) := by
  intro base waiting s y s' h hg
  cases hg

/-- **One after the other.** -/
theorem bind {x : Gen α} {f : α → Gen β} (hx : Orderly locals terms x)
    (hf : ∀ a, Orderly locals terms (f a)) : Orderly locals terms (x >>= f) := by
  intro base waiting s y s' h hg
  obtain ⟨a, s₁, h₁, h₂⟩ := Gen.bind_eq_ok.mp hg
  obtain ⟨htidy, hleads⟩ := hx base waiting s a s₁ h h₁
  obtain ⟨htidy', hleads'⟩ := hf a base waiting s₁ y s' htidy h₂
  exact ⟨htidy', hleads.trans hleads'⟩

/-- Looking at the state. -/
theorem get {f : GenState → Gen β} (hf : ∀ s, Orderly locals terms (f s)) :
    Orderly locals terms (get >>= f) := by
  intro base waiting s y s' h hg
  obtain ⟨a, s₁, h₁, h₂⟩ := Gen.bind_eq_ok.mp hg
  cases h₁
  exact hf s base waiting s y s' h h₂

/-- A source position is no code. -/
theorem setSpan (span : Span) : Orderly locals terms (emit (Emitter.setSpan span)) := by
  intro base waiting s x s' h hg
  obtain ⟨e, he, rfl⟩ := Gen.emit_eq_ok.mp hg
  injection he with _ he
  subst he
  split
  · exact ⟨h, .refl s⟩
  · exact ⟨⟨h.sound, h.chunk, h.finished, h.base_le, h.made⟩, ⟨fun _ => id, Grows.refl _, List.prefix_refl _⟩⟩

/-- **An instruction that makes no function.** Its operand need not look at sites, functions or the
code. -/
theorem ofWrites {m : Emit Unit} (op : Opcode) (hop : op ≠ .closure)
    (h : ∀ e e', e.pool.Sound → m e = .ok () e' → ∃ bytes, e.Writes e' (op.toByte :: bytes) ∧
      bytes.length = op.operandSize ∧ (2 ≤ op.operandSize →
        ∃ n, e'.chunk.shortOperand (e.offset + 1) = .ok n ∧ ∀ sites functions boundary,
          op.Admits ⟨e'.pool, locals, sites, functions, terms⟩ boundary e.offset n)) :
    Orderly locals terms (emit m) := by
  intro base waiting s x s' hs hg
  obtain ⟨e, he, rfl⟩ := Gen.emit_eq_ok.mp hg
  obtain ⟨bytes, hw, hsize, hoperand⟩ := h _ _ hs.sound he
  refine hs.write hw hsize (Grows.refl _) rfl (fun htwo => ?_) fun _ => rfl
  obtain ⟨n, hn, hadmits⟩ := hoperand htwo
  exact ⟨n, hn, hadmits _ _ _, fun hclosure => absurd hclosure hop⟩

/-- An opcode without operands. -/
theorem op {o : Opcode} (hsize : o.operandSize = 0) : Orderly locals terms (emit (Emitter.op o)) := by
  refine ofWrites o (fun hclosure => by subst hclosure; cases hsize) fun e e' he hm => ?_
  exact ⟨[], Emitter.op_writes he hm, hsize.symm, fun htwo => by omega⟩

/-- An opcode with a number that it may have. -/
theorem opIndex {o : Opcode} {r : Resource} {n : Nat} (hop : o ≠ .closure) (hsize : o.operandSize = 2)
    (hlimit : r.limit = 65535)
    (hadmits : ∀ pool sites functions boundary offset,
      o.Admits ⟨pool, locals, sites, functions, terms⟩ boundary offset n) :
    Orderly locals terms (emit (Emitter.opIndex o n r)) := by
  refine ofWrites o hop fun e e' he hm => ?_
  obtain ⟨k, e₁, h₁, h₂⟩ := Emitter.bind_eq_ok.mp hm
  obtain ⟨rfl, rfl, hle⟩ := Emitter.checked_eq_ok h₁
  have hw := Emitter.opShort_writes he h₂
  refine ⟨_, hw, hsize.symm, fun _ => ⟨k, ?_, fun _ _ _ => hadmits _ _ _ _ _⟩⟩
  have hshort := Chunk.shortOperand_of_bytes hw.short.1 hw.short.2
  rwa [toNat_toUInt16 (hlimit ▸ hle)] at hshort

/-- An opcode with a name. -/
theorem opName {o : Opcode} (hop : o ≠ .closure) (hsize : o.operandSize = 2)
    (hadmits : ∀ (K : CodeContext) boundary offset n, (K.pool.name? n).isSome →
      o.Admits K boundary offset n) (name : String) :
    Orderly locals terms (emit (Emitter.opName o name)) := by
  refine ofWrites o hop fun e e' he hm => ?_
  obtain ⟨k, e₁, h₁, h₂⟩ := Emitter.bind_eq_ok.mp hm
  obtain ⟨hw, hle, d, hd, hkey⟩ := Emitter.constantIndex_eq_ok he h₁
  have hw' := Emitter.opShort_writes hw.sound h₂
  have hall := hw.trans hw'
  refine ⟨_, hall, hsize.symm, fun _ => ⟨k, ?_, fun _ _ _ => hadmits _ _ _ _ ?_⟩⟩
  · have hshort := Chunk.shortOperand_of_bytes hall.short.1 hall.short.2
    rwa [toNat_toUInt16 hle] at hshort
  · obtain rfl := Constant.eq_string_of_key hkey
    simp [Pool.name?, Pool.get?, hw'.pool _ _ hd, Constant.name?]

/-- A constant. -/
theorem constant (c : Constant) : Orderly locals terms (emit (Emitter.constant c)) := by
  refine ofWrites .constant (by decide) fun e e' he hm => ?_
  obtain ⟨k, e₁, h₁, h₂⟩ := Emitter.bind_eq_ok.mp hm
  obtain ⟨hw, hle, d, hd, -⟩ := Emitter.constantIndex_eq_ok he h₁
  have hw' := Emitter.opShort_writes hw.sound h₂
  have hall := hw.trans hw'
  refine ⟨_, hall, rfl, fun _ => ⟨k, ?_, fun _ _ _ => ?_⟩⟩
  · have hshort := Chunk.shortOperand_of_bytes hall.short.1 hall.short.2
    rwa [toNat_toUInt16 hle] at hshort
  · exact Option.isSome_iff_exists.mpr ⟨d, hw'.pool _ _ hd⟩

/-- A call of any value. -/
theorem call (argc : Nat) : Orderly locals terms (emit (Emitter.call argc)) := by
  refine ofWrites .call (by decide) fun e e' he hm => ?_
  obtain ⟨k, e₁, h₁, h₂⟩ := Emitter.bind_eq_ok.mp hm
  obtain ⟨rfl, rfl, -⟩ := Emitter.checked_eq_ok h₁
  exact ⟨_, Emitter.opByte_writes he h₂, rfl, fun htwo => absurd htwo (by decide)⟩

/-- A call of a name. -/
theorem callName (name : String) (argc : Nat) :
    Orderly locals terms (emit (Emitter.callName name argc)) := by
  refine ofWrites .callName (by decide) fun e e' he hm => ?_
  obtain ⟨k, e₁, h₁, h₂⟩ := Emitter.bind_eq_ok.mp hm
  obtain ⟨rfl, rfl, -⟩ := Emitter.checked_eq_ok h₁
  obtain ⟨_, e₂, h₃, h₄⟩ := Emitter.bind_eq_ok.mp h₂
  obtain ⟨i, e₃, h₅, h₆⟩ := Emitter.bind_eq_ok.mp h₃
  obtain ⟨hw, hi, d, hd, hkey⟩ := Emitter.constantIndex_eq_ok he h₅
  have hw' := Emitter.opShort_writes hw.sound h₆
  have hw'' := Emitter.byteOperand_writes hw'.sound h₄
  have hall := hw.trans (hw'.trans hw'')
  refine ⟨_, hall, rfl, fun _ => ⟨i, ?_, fun _ _ _ => ?_⟩⟩
  · have hshort := Chunk.shortOperand_of_bytes hall.short.1 hall.short.2
    rwa [toNat_toUInt16 hi] at hshort
  · obtain rfl := Constant.eq_string_of_key hkey
    simp [Opcode.Admits, Pool.name?, Pool.get?, hw''.pool _ _ (hw'.pool _ _ hd), Constant.name?]

/-- An access to an environment, of which nothing is asked. -/
theorem env {o : Opcode} (hop : o ≠ .closure) (hsize : o.operandSize = 3)
    (hadmits : ∀ (K : CodeContext) boundary offset n, o.Admits K boundary offset n) (depth slot : Nat) :
    Orderly locals terms (emit (Emitter.env o depth slot)) := by
  refine ofWrites o hop fun e e' he hm => ?_
  obtain ⟨k, e₁, h₁, h₂⟩ := Emitter.bind_eq_ok.mp hm
  obtain ⟨rfl, rfl, -⟩ := Emitter.checked_eq_ok h₁
  obtain ⟨k, e₂, h₃, h₄⟩ := Emitter.bind_eq_ok.mp h₂
  obtain ⟨rfl, rfl, -⟩ := Emitter.checked_eq_ok h₃
  obtain ⟨_, e₃, h₅, h₆⟩ := Emitter.bind_eq_ok.mp h₄
  have hw := Emitter.opByte_writes he h₅
  have hall := hw.trans (Emitter.shortOperand_writes hw.sound h₆)
  refine ⟨_, hall, hsize.symm, fun _ => ?_⟩
  rw [Chunk.shortOperand, Chunk.short?, hall.short.1, hall.short.2]
  exact ⟨_, rfl, fun _ _ _ => hadmits _ _ _ _⟩

/-- An operation through a call site of the kind that it needs. -/
theorem opSite {o : Opcode} {kind : SiteKind} (hop : o ≠ .closure) (hsize : o.operandSize = 2)
    (hadmits : ∀ (K : CodeContext) boundary offset n, K.HasSite kind n → o.Admits K boundary offset n)
    (name : String) (argc : Nat) (span : Span) :
    Orderly locals terms (opSite o kind name argc span) := by
  intro base waiting s x s' hs hg
  obtain ⟨k, s₁, h₁, h₂⟩ := Gen.bind_eq_ok.mp hg
  obtain ⟨-, rfl, hs₁⟩ := Gen.addSite_eq_ok h₁
  obtain ⟨_, s₂, h₃, h₄⟩ := Gen.bind_eq_ok.mp h₂
  obtain ⟨e₂, he₂, rfl⟩ := Gen.emit_eq_ok.mp h₃
  obtain ⟨e₃, he₃, rfl⟩ := Gen.emit_eq_ok.mp h₄
  subst hs₁
  obtain ⟨n, e₄, h₅, h₆⟩ := Emitter.bind_eq_ok.mp he₃
  obtain ⟨rfl, rfl, hle⟩ := Emitter.checked_eq_ok h₅
  have hw := Emitter.setSpan_writes hs.sound he₂
  have hall := hw.trans (Emitter.opShort_writes hw.sound h₆)
  refine hs.write hall hsize.symm (Grows.push _ _) rfl (fun _ => ⟨s.sites.size, ?_, ?_, ?_⟩) fun _ => rfl
  · have hshort := Chunk.shortOperand_of_bytes hall.short.1 hall.short.2
    rwa [toNat_toUInt16 hle] at hshort
  · exact hadmits _ _ _ _ ⟨_, Array.getElem?_push_size, rfl⟩
  · exact fun hclosure => absurd hclosure hop

end Orderly

/-! ## Jumps -/

/-- A forward jump is written, and awaits its target. -/
theorem GenState.Tidy.jump (h : s.Tidy locals terms base waiting []) {o : Opcode}
    (ho : o.isForward = true) {label : JumpLabel} (hg : emit (Emitter.jump o) s = .ok label s') :
    s'.Tidy locals terms base (s.offset :: waiting) [] ∧ s.Leads s' ∧
      label.offset = s.offset + 1 := by
  have hawaits := Gen.jump_eq_ok hg
  have htwo := Opcode.operandSize_forward ho
  have happ : s.chunk.Appends s'.chunk o := by
    refine ⟨hawaits.code, ?_, ?_, ?_⟩
    · rw [htwo]
      exact hawaits.offset
    · rw [Chunk.op?, Chunk.byte?]
      exact Option.bind_eq_some_iff.mpr ⟨_, hawaits.opcode, Opcode.ofByte?_toByte o⟩
    · rw [htwo]
      exact hawaits.lines
  have hwithin : (s.context locals terms).Within (s'.context locals terms) :=
    context_within (hawaits.pool ▸ Grows.refl _) (hawaits.sites ▸ Grows.refl _) hawaits.functions
  refine ⟨⟨hawaits.pool ▸ h.sound, ?_, fun j F hF => ?_, hawaits.functions ▸ h.base_le, ?_⟩,
    ⟨fun t => h.chunk.boundary_append happ, hwithin.pool, hawaits.functions ▸ List.prefix_refl _⟩,
    hawaits.label⟩
  · refine h.chunk.append hwithin happ (fun a ha => ?_) (List.subset_cons_self _ _) fun hwait => ?_
    · rcases List.mem_cons.mp ha with rfl | hold
      · exact .inr ⟨rfl, ho⟩
      · exact .inl hold
    · exact absurd List.mem_cons_self hwait
  · rw [hawaits.functions] at hF
    rw [hawaits.pool]
    exact h.finished j F hF
  · have hne : o ≠ .closure := by
      rintro rfl
      cases ho
    rw [hawaits.functions, h.chunk.closures_append happ, if_neg hne, List.append_nil]
    exact h.made

/-- **A forward jump is patched** and leads to the end of the code. -/
theorem GenState.Tidy.patch {waiting' : List Nat} (h : s.Tidy locals terms base waiting []) {a : Nat}
    (ha : a ∈ waiting) {label : JumpLabel} (hlabel : label.offset = a + 1)
    (hsub : waiting' ⊆ waiting) (hkept : ∀ x ∈ waiting, x ≠ a → x ∈ waiting')
    (hg : emit (Emitter.patch label) s = .ok () s') :
    s'.Tidy locals terms base waiting' [] ∧ s.Leads s' := by
  obtain ⟨op, hop, hforward⟩ := h.chunk.labels a ha
  have htwo := Opcode.operandSize_forward hforward
  obtain ⟨-, hle, -⟩ := h.chunk.splits.bounds hop
  have hin : label.offset + 2 ≤ s.offset := by
    rw [hlabel]
    exact htwo ▸ hle
  have hpatches := Gen.patch_eq_ok hin hg
  rw [hlabel] at hpatches
  have halt : s.chunk.Alters s'.chunk a :=
    ⟨hpatches.offset, fun i hi hi' => hpatches.frame i hi hi', hpatches.lines⟩
  have hoperand : s'.chunk.shortOperand (a + 1) = .ok (s.chunk.size - (a + 3)) := by
    have hshort := Chunk.shortOperand_of_bytes hpatches.high hpatches.low
    rwa [toNat_toUInt16 hpatches.fits] at hshort
  have hcontext : s'.context locals terms = s.context locals terms := by
    rw [context, context, hpatches.pool, hpatches.sites, hpatches.functions]
  refine ⟨⟨hpatches.pool ▸ h.sound, ?_, fun j F hF => ?_, hpatches.functions ▸ h.base_le, ?_⟩,
    fun t ht => ?_, hpatches.pool ▸ Grows.refl _, hpatches.functions ▸ List.prefix_refl _⟩
  · rw [hcontext]
    exact h.chunk.patch ha halt hoperand hsub hkept
  · rw [hpatches.functions] at hF
    rw [hpatches.pool]
    exact h.finished j F hF
  · rw [hpatches.functions, h.chunk.closures_alter hop hforward halt]
    exact h.made
  · rw [Chunk.IsBoundary, h.chunk.instructions_alter hop htwo halt, halt.size]
    exact ht

/-- **A backward jump** leads to where an instruction starts. -/
theorem GenState.Tidy.loop (h : s.Tidy locals terms base waiting []) (hloops : terms.loops) {start : Nat}
    (hstart : s.chunk.IsBoundary start) (hg : emit (Emitter.loop start) s = .ok () s') :
    s'.Tidy locals terms base waiting [] ∧ s.Leads s' := by
  obtain ⟨e, he, rfl⟩ := Gen.emit_eq_ok.mp hg
  obtain ⟨hfits, hw⟩ := Emitter.loop_writes h.sound he
  have hle : start ≤ s.offset := by
    rcases hstart with rfl | ⟨op, hop⟩
    · exact Nat.le_refl _
    · obtain ⟨-, hle, -⟩ := h.chunk.splits.bounds hop
      exact Nat.le_trans (by omega) hle
  have hoffset : s.emitter.offset = s.offset := rfl
  refine h.write hw rfl (Grows.refl _) rfl (fun _ => ?_) fun _ => rfl
  refine ⟨s.offset + 1 - start + 2, ?_, ⟨hloops, start, by omega, hle, ?_⟩, fun hclosure => by cases hclosure⟩
  · have hshort := Chunk.shortOperand_of_bytes hw.short.1 hw.short.2
    rwa [toNat_toUInt16 hfits] at hshort
  · exact h.chunk.boundary_append (hw.appends rfl) hstart

namespace Orderly

variable {g g' : Gen Unit}

/-- **A jump over code.** -/
theorem skip {o : Opcode} (ho : o.isForward = true) (hg : Orderly locals terms g) :
    Orderly locals terms
      (emit (Emitter.jump o) >>= fun label => g >>= fun _ => emit (Emitter.patch label)) := by
  intro base waiting s x s₃ hs h
  obtain ⟨label, s₁, h₁, h⟩ := Gen.bind_eq_ok.mp h
  obtain ⟨_, s₂, h₂, h₃⟩ := Gen.bind_eq_ok.mp h
  obtain ⟨hs₁, hb₁, hlabel⟩ := hs.jump ho h₁
  obtain ⟨hs₂, hb₂⟩ := hg base _ s₁ _ s₂ hs₁ h₂
  obtain ⟨hs₃, hb₃⟩ := hs₂.patch List.mem_cons_self hlabel (List.subset_cons_self _ _)
    (fun x hx hne => (List.mem_cons.mp hx).resolve_left hne) h₃
  exact ⟨hs₃, hb₁.trans (hb₂.trans hb₃)⟩

/-- **A jump to the second of two parts**, and behind the first a jump over the second. -/
theorem fork {o : Opcode} (ho : o.isForward = true) (hg : Orderly locals terms g)
    (hg' : Orderly locals terms g') :
    Orderly locals terms (emit (Emitter.jump o) >>= fun toSecond => g >>= fun _ =>
      emit (Emitter.jump .jump) >>= fun toEnd => emit (Emitter.patch toSecond) >>= fun _ =>
      g' >>= fun _ => emit (Emitter.patch toEnd)) := by
  intro base waiting s x s₆ hs h
  obtain ⟨toSecond, s₁, h₁, h⟩ := Gen.bind_eq_ok.mp h
  obtain ⟨_, s₂, h₂, h⟩ := Gen.bind_eq_ok.mp h
  obtain ⟨toEnd, s₃, h₃, h⟩ := Gen.bind_eq_ok.mp h
  obtain ⟨_, s₄, h₄, h⟩ := Gen.bind_eq_ok.mp h
  obtain ⟨_, s₅, h₅, h₆⟩ := Gen.bind_eq_ok.mp h
  obtain ⟨hs₁, hb₁, hlabel₁⟩ := hs.jump ho h₁
  obtain ⟨hs₂, hb₂⟩ := hg base _ s₁ _ s₂ hs₁ h₂
  obtain ⟨hs₃, hb₃, hlabel₃⟩ := hs₂.jump rfl h₃
  -- The first jump is patched while the second one awaits its target.
  obtain ⟨hs₄, hb₄⟩ : s₄.Tidy locals terms base (s₂.offset :: waiting) [] ∧ s₃.Leads s₄ :=
    hs₃.patch (List.mem_cons_of_mem _ List.mem_cons_self) hlabel₁
      (List.cons_subset_cons _ (List.subset_cons_self _ _)) (by grind) h₄
  obtain ⟨hs₅, hb₅⟩ := hg' base _ s₄ _ s₅ hs₄ h₅
  obtain ⟨hs₆, hb₆⟩ := hs₅.patch List.mem_cons_self hlabel₃ (List.subset_cons_self _ _)
    (fun x hx hne => (List.mem_cons.mp hx).resolve_left hne) h₆
  exact ⟨hs₆, hb₁.trans (hb₂.trans (hb₃.trans (hb₄.trans (hb₅.trans hb₆))))⟩

/-- **A loop**: a test, a jump out of the loop, the body, and a jump back to the test. -/
theorem loop (hloops : terms.loops) (hg : Orderly locals terms g) (hg' : Orderly locals terms g') :
    Orderly locals terms (MonadState.get >>= fun s : GenState => g >>= fun _ =>
      emit (Emitter.jump .jumpIfFalse) >>= fun exit => g' >>= fun _ =>
      emit (Emitter.loop s.emitter.offset) >>= fun _ => emit (Emitter.patch exit)) := by
  intro base waiting s x s₅ hs h
  obtain ⟨s₀, s₀', h₀, h⟩ := Gen.bind_eq_ok.mp h
  cases h₀
  obtain ⟨_, s₁, h₁, h⟩ := Gen.bind_eq_ok.mp h
  obtain ⟨exit, s₂, h₂, h⟩ := Gen.bind_eq_ok.mp h
  obtain ⟨_, s₃, h₃, h⟩ := Gen.bind_eq_ok.mp h
  obtain ⟨_, s₄, h₄, h₅⟩ := Gen.bind_eq_ok.mp h
  obtain ⟨hs₁, hb₁⟩ := hg base _ s _ s₁ hs h₁
  obtain ⟨hs₂, hb₂, hlabel⟩ := hs₁.jump rfl h₂
  obtain ⟨hs₃, hb₃⟩ := hg' base _ s₂ _ s₃ hs₂ h₃
  -- The test starts where an instruction starts, however much has been written since.
  have hstart : s₃.chunk.IsBoundary s.emitter.offset :=
    (hb₁.trans (hb₂.trans hb₃)).boundary _ (.inl rfl)
  obtain ⟨hs₄, hb₄⟩ := hs₃.loop hloops hstart h₄
  obtain ⟨hs₅, hb₅⟩ := hs₄.patch List.mem_cons_self hlabel (List.subset_cons_self _ _)
    (fun x hx hne => (List.mem_cons.mp hx).resolve_left hne) h₅
  exact ⟨hs₅, hb₁.trans (hb₂.trans (hb₃.trans (hb₄.trans hb₅)))⟩

end Orderly

end

end ScriptEngine
