import ScriptEngine.Machine.Run
import ScriptEngine.Proofs.Code.WellFormed
import ScriptEngine.Proofs.Machine.Outcomes

/-!
# Code that goes forward

In code without backward jumps every instruction leads to a later one, and the handler of a protected
region lies behind the start of the region. So there is a measure of a frame that every instruction makes
smaller (`Frame.weight`): each place where the frame may go on, be it the next instruction or a handler,
counts more than any two later ones.

What an instruction can do to the place of a frame is `Frame.Turns`. `Frame.Stands.turns` and
`Frame.Stands.catchIn` say what follows for the measure.
-/

namespace ScriptEngine

/-! ## Where instructions lead -/

/-- Where a forward jump leads. -/
theorem Chunk.forwardTarget_eq_ok {c : Chunk} {offset t : Nat} (h : c.forwardTarget offset = .ok t) :
    ∃ n, c.shortOperand offset = .ok n ∧ t = offset + 2 + n := by
  rw [forwardTarget] at h
  rcases hn : c.shortOperand offset with e | n
  · rw [hn] at h
    cases h
  · rw [hn] at h
    exact ⟨n, rfl, (Except.ok.inj h).symm⟩

namespace Instruction

/-- The targets of instructions are those of their opcodes. -/
theorem target?_ofOpcode {p : Pool} {F : CodeFunction} {op : Opcode} {offset : Nat} {i : Instruction}
    (h : ofOpcode p F op offset = .ok i) :
    i.target? = none ∨ op = .loop ∨
      op.isForward = true ∧ ∃ n, F.chunk.shortOperand offset = .ok n ∧ i.target? = some (offset + 2 + n) := by
  have hforward : ∀ t, F.chunk.forwardTarget offset = .ok t → i.target? = some t → op.isForward = true →
      op.isForward = true ∧ ∃ n, F.chunk.shortOperand offset = .ok n ∧ i.target? = some (offset + 2 + n) := by
    intro t ht htarget hop
    obtain ⟨n, hn, rfl⟩ := Chunk.forwardTarget_eq_ok ht
    exact ⟨hop, n, hn, htarget⟩
  cases op
  all_goals simp only [ofOpcode, bind, Except.bind, pure, Except.pure] at h
  all_goals repeat' split at h
  all_goals first
    | exact .inr (.inl rfl)
    | cases h; exact .inl rfl
    | cases h; exact .inr (.inr (hforward _ ‹_› rfl rfl))
    | cases h

end Instruction

namespace Chunk.Tidy

variable {F : CodeFunction} {pool : Pool} {index : Nat} {terms : CodeTerms}

/-- No boundary lies beyond the end. -/
theorem boundary_le {c : Chunk} {K : CodeContext} {waiting : List Nat} (h : c.Tidy K waiting) {t : Nat}
    (ht : c.IsBoundary t) : t ≤ c.size := by
  rcases ht with rfl | ⟨op, hop⟩
  · exact Nat.le_refl _
  · obtain ⟨-, hle, -⟩ := h.splits.bounds hop
    omega

/-- The code starts with a boundary. -/
theorem boundary_zero {c : Chunk} {K : CodeContext} {waiting : List Nat} (h : c.Tidy K waiting) :
    c.IsBoundary 0 := by
  rw [IsBoundary]
  generalize c.instructions = is, c.size = b, h.splits = hsplits
  cases hsplits with
  | nil => exact .inl rfl
  | cons _ _ _ => exact .inr ⟨_, List.mem_cons_self⟩

/-- **Reading goes forward**: behind the instruction at a boundary there is a boundary, and if there are no
backward jumps then the instruction leads to none further in front. -/
theorem read_forward (h : F.chunk.Tidy (F.context pool index terms) []) (hloops : ¬terms.loops) {ip next : Nat}
    (hip : F.chunk.IsBoundary ip) {i : Instruction} (hread : Instruction.read pool F ip = .ok (some (i, next))) :
    ip < next ∧ F.chunk.IsBoundary next ∧ ∀ t, i.target? = some t → next ≤ t ∧ F.chunk.IsBoundary t := by
  rw [Instruction.read] at hread
  split at hread
  · cases hread
  · next hlt =>
    obtain ⟨op, hop⟩ := hip.resolve_left (Nat.ne_of_lt (Nat.lt_of_not_le hlt))
    obtain ⟨-, -, -, hfound⟩ := h.splits.bounds hop
    rw [hfound] at hread
    rcases hi : Instruction.ofOpcode pool F op (ip + 1) with e | i'
    · simp only [hi] at hread
      cases hread
    · simp only [hi] at hread
      obtain ⟨rfl, rfl⟩ := Prod.mk.inj (Option.some.inj (Except.ok.inj hread))
      refine ⟨by omega, ?_, fun t ht => ?_⟩
      · rcases h.splits.next hop with hend | hmore
        · exact .inl hend
        · exact .inr hmore
      · rcases Instruction.target?_ofOpcode hi with hnone | rfl | ⟨hforward, n, hn, htarget⟩
        · rw [hnone] at ht
          cases ht
        · -- There is no such instruction in code without backward jumps.
          obtain ⟨n, -, hadmits⟩ := h.operands ip .loop hop List.not_mem_nil (Nat.le_refl _)
          exact absurd hadmits.1 hloops
        · have htwo := Opcode.operandSize_forward hforward
          obtain ⟨n', hn', hadmits⟩ := h.operands ip op hop List.not_mem_nil (Nat.le_of_eq htwo.symm)
          obtain rfl := Except.ok.inj (hn.symm.trans hn')
          rw [Opcode.admits_forward hforward] at hadmits
          obtain rfl := Option.some.inj (htarget.symm.trans ht)
          rw [show ip + 1 + 2 + n = ip + 3 + n by omega]
          exact ⟨by omega, hadmits⟩

end Chunk.Tidy

/-! ## The measure of a frame -/

/-- How much a place in the code of a function counts. -/
def CodeFunction.weightAt (F : CodeFunction) (place : Nat) : Nat := 3 ^ (F.chunk.size - place)

/-- How much handlers count. -/
def CodeFunction.weights (F : CodeFunction) (hs : List Handler) : Nat :=
  (hs.map fun h => F.weightAt h.target).sum

/-- **The measure of a frame** of a function: its next instruction and its handlers. -/
def Frame.weight (F : CodeFunction) (f : Frame) : Nat := F.weightAt f.ip + F.weights f.handlers

/-- The frame stands before an instruction of a function, and so do its handlers. -/
structure Frame.Stands (F : CodeFunction) (f : Frame) : Prop where
  /-- The next instruction. -/
  ip : F.chunk.IsBoundary f.ip
  /-- The handlers. -/
  handlers : ∀ h ∈ f.handlers, F.chunk.IsBoundary h.target

section

variable {F : CodeFunction} {f f' : Frame}

/-- One more handler. -/
theorem CodeFunction.weights_cons (F : CodeFunction) (h : Handler) (hs : List Handler) :
    F.weights (h :: hs) = F.weightAt h.target + F.weights hs := by
  rw [weights, List.map_cons, List.sum_cons]
  rfl

/-- A place counts more than any two later ones. -/
theorem CodeFunction.weightAt_lt (F : CodeFunction) {a b c : Nat} (hab : a < b) (hac : a < c)
    (hb : b ≤ F.chunk.size) (hc : c ≤ F.chunk.size) : F.weightAt b + F.weightAt c < F.weightAt a := by
  have hle : ∀ d, a < d → d ≤ F.chunk.size → 3 * F.weightAt d ≤ F.weightAt a := by
    intro d had hd
    rw [weightAt, weightAt, ← Nat.pow_succ']
    exact Nat.pow_le_pow_right (by decide) (by omega)
  have hpos : 0 < F.weightAt b := Nat.pow_pos (by decide)
  have h₁ := hle b hab hb
  have h₂ := hle c hac hc
  omega

/-- The measure depends on the place only. -/
theorem Frame.SamePlace.weight_eq (h : f.SamePlace f') : f'.weight F = f.weight F := by
  rw [Frame.weight, Frame.weight, h.ip, h.handlers]

/-- A frame in the same place stands where the other one does. -/
theorem Frame.SamePlace.stands (h : f.SamePlace f') (hf : f.Stands F) : f'.Stands F := by
  refine ⟨?_, ?_⟩
  · rw [h.ip]
    exact hf.ip
  · rw [h.handlers]
    exact hf.handlers

/-- **An instruction makes the measure smaller** in code that goes forward. -/
theorem Frame.Stands.turns {pool : Pool} {index : Nat} {terms : CodeTerms}
    (hF : F.chunk.Tidy (F.context pool index terms) []) (hloops : ¬terms.loops) (hf : f.Stands F)
    {i : Instruction} {next : Nat} (hread : Instruction.read pool F f.ip = .ok (some (i, next)))
    (hturns : (f.jump next).Turns i.target? f') : f'.Stands F ∧ f'.weight F < f.weight F := by
  obtain ⟨hlt, hnext, htarget⟩ := hF.read_forward hloops hf.ip hread
  have hnext_le := hF.boundary_le hnext
  -- The old place counts more than any two places behind the instruction, and at most two take its stead.
  have hstep : F.weightAt next + F.weightAt next < F.weightAt f.ip :=
    F.weightAt_lt hlt hlt hnext_le hnext_le
  cases hturns with
  | stay same =>
    refine ⟨same.stands ⟨hnext, hf.handlers⟩, ?_⟩
    calc f'.weight F = F.weightAt next + F.weights f.handlers := same.weight_eq
      _ < f.weight F := by
        rw [Frame.weight]
        omega
  | @jump t target same =>
    obtain ⟨hle, ht⟩ := htarget t target
    have ht_le := hF.boundary_le ht
    have hjump := F.weightAt_lt (a := f.ip) (by omega : f.ip < t) hlt ht_le hnext_le
    refine ⟨same.stands ⟨ht, hf.handlers⟩, ?_⟩
    calc f'.weight F = F.weightAt t + F.weights f.handlers := same.weight_eq
      _ < f.weight F := by
        rw [Frame.weight]
        omega
  | @protect t target same =>
    obtain ⟨hle, ht⟩ := htarget t target
    have ht_le := hF.boundary_le ht
    have hboth := F.weightAt_lt (a := f.ip) hlt (by omega : f.ip < t) hnext_le ht_le
    refine ⟨same.stands ⟨hnext, fun h hh => ?_⟩, ?_⟩
    · rcases List.mem_cons.mp hh with rfl | hh
      · exact ht
      · exact hf.handlers h hh
    · calc f'.weight F = F.weightAt next + F.weights (⟨t, f.stack.length, f.env⟩ :: f.handlers) :=
            same.weight_eq
        _ = F.weightAt next + (F.weightAt t + F.weights f.handlers) := by rw [F.weights_cons]
        _ < f.weight F := by
          rw [Frame.weight]
          omega
  | @leave h outer region same =>
    have hregion : f.handlers = h :: outer := region
    refine ⟨same.stands ⟨hnext, fun k hk => hf.handlers k ?_⟩, ?_⟩
    · rw [hregion]
      exact List.mem_cons_of_mem _ hk
    · calc f'.weight F = F.weightAt next + F.weights outer := same.weight_eq
        _ < f.weight F := by
          rw [Frame.weight, hregion, F.weights_cons]
          omega

/-- **Catching an error makes the measure smaller**: the frame goes on in a handler that is no longer one of
its handlers. -/
theorem Frame.Stands.catchIn (hf : f.Stands F) {h : Handler} {outer : List Handler}
    (hhandlers : f.handlers = h :: outer) (v : Value) :
    (f.catchIn h outer v).Stands F ∧ (f.catchIn h outer v).weight F < f.weight F := by
  constructor
  · refine ⟨hf.handlers h ?_, fun k hk => hf.handlers k ?_⟩
    · rw [hhandlers]
      exact List.mem_cons_self
    · rw [hhandlers]
      exact List.mem_cons_of_mem _ hk
  · have hpos : 0 < F.weightAt f.ip := Nat.pow_pos (by decide)
    calc (f.catchIn h outer v).weight F = F.weightAt h.target + F.weights outer := rfl
      _ < f.weight F := by
        rw [Frame.weight, hhandlers, F.weights_cons]
        omega

end

end ScriptEngine
