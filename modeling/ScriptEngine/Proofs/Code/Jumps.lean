import ScriptEngine.Proofs.Code.Boundaries
import ScriptEngine.Proofs.Machine.Outcomes

/-!
# Jumps lead where they were meant to

A *draft* is a chunk being written, with a record of the jumps in it: bytes, opcodes and operands come
one behind the other, forward jumps are written with a placeholder, patched in any order or never, and
jumps back are written whole. `Draft.lands` is what then holds of every draft. The writer and the machine
count a distance from the same place, the byte behind the operand, so a machine that takes a jump goes
on exactly at the offset that was meant; and patching one jump leaves all others alone.

The invariant is `Draft.Sound`. What carries it over a patch is that the jumps of a draft stand apart: no
byte of the one lies in the operand of another.
-/

namespace ScriptEngine

/-! ## Taking a jump -/

/-- The frame after a jump to a target, with other code behind the jump. A handler that is installed has the
target, and the frame goes on behind the instruction. There is none if the jump has nothing to test, or
the opcode is no jump. -/
def Frame.afterJump? (f : Frame) (op : Opcode) (behind target : Nat) : Option Frame :=
  match op, f.stack with
  | .jump, _ | .loop, _ => some (f.jump target)
  | .jumpIfFalse, v :: rest =>
    some { f with ip := if v.toBool then behind else target, stack := rest }
  | .jumpIfFalseOrPop, v :: rest =>
    some (if v.toBool then { f with ip := behind, stack := rest } else f.jump target)
  | .jumpIfTrueOrPop, v :: rest =>
    some (if v.toBool then f.jump target else { f with ip := behind, stack := rest })
  | .tryBegin, _ => some ((f.jump behind).protect target)
  | _, _ => none

/-- **The jump whose operand is at an offset leads to a target**: every machine with the code that comes to
the jump takes it so. -/
def Chunk.Leads (c : Chunk) (op : Opcode) (operand target : Nat) : Prop :=
  ∀ (m : Machine) (w : World) (f : Frame) (u : CodeUnit) (function : CodeFunction),
    m.code f.unit f.index = .ok (u, function) → function.chunk = c → f.ip + 1 = operand →
    ∀ f', f.afterJump? op (operand + 2) target = some f' → m.advance w f = .next w f'

/-- An instruction is read from its opcode and its operands. -/
theorem Chunk.read_of_op {p : Pool} {function : CodeFunction} {a : Nat} {op : Opcode}
    {i : Instruction} (hin : a < function.chunk.size) (hop : function.chunk.op? a = some op)
    (hi : Instruction.ofOpcode p function op (a + 1) = .ok i) :
    Instruction.read p function a = .ok (some (i, a + 1 + op.operandSize)) := by
  rw [Instruction.read, if_neg (by omega), hop]
  simp only
  rw [hi]
  rfl

/-- **A forward jump** whose operand has been read leads where the operand says. -/
theorem Chunk.leads_forward {c : Chunk} {op : Opcode} {a target : Nat} (hin : a < c.size)
    (hop : c.op? a = some op) (hforward : op.isForward = true)
    (htarget : c.forwardTarget (a + 1) = .ok target) : c.Leads op (a + 1) target := by
  rintro m w f u function hcode rfl hip f' hf'
  obtain rfl : a = f.ip := by omega
  have hread : ∀ i, Instruction.ofOpcode u.pool function op (f.ip + 1) = .ok i →
      m.advance w f = m.execute w (f.jump (f.ip + 1 + 2)) i := by
    intro i hi
    have := Chunk.read_of_op hin hop hi
    rw [Opcode.operandSize_forward hforward] at this
    exact Machine.advance_of_read hcode this
  have hoperand : ∀ make : Nat → Instruction,
      (do return make (← function.chunk.forwardTarget (f.ip + 1)) : Except Fault Instruction) =
        .ok (make target) := by
    intro make
    rw [htarget]
    rfl
  cases op <;> try cases hforward
  case jump =>
    rw [hread _ (hoperand .jump)]
    obtain rfl := Option.some.inj hf'
    rfl
  case tryBegin =>
    rw [hread _ (hoperand .tryBegin)]
    obtain rfl := Option.some.inj hf'
    rfl
  -- The others look at the top of the stack.
  all_goals
    rcases hstack : f.stack with _ | ⟨v, rest⟩
    · simp [Frame.afterJump?, hstack] at hf'
    · simp only [Frame.afterJump?, hstack, Option.some.injEq] at hf'
      subst hf'
      first
        | rw [hread _ (hoperand .jumpIfFalse)]
        | rw [hread _ (hoperand .jumpIfFalseOrPop)]
        | rw [hread _ (hoperand .jumpIfTrueOrPop)]
      cases htop : v.toBool <;>
        simp [Machine.execute, Turn.jumpIfFalse, Turn.jumpOrPop, Frame.jump, hstack, htop]

/-- **A jump back** whose operand has been read leads where the operand says. -/
theorem Chunk.leads_loop {c : Chunk} {a target : Nat} (hin : a < c.size)
    (hop : c.op? a = some .loop) (htarget : c.backwardTarget (a + 1) = .ok target) :
    c.Leads .loop (a + 1) target := by
  rintro m w f u function hcode rfl hip f' hf'
  obtain rfl : a = f.ip := by omega
  obtain rfl := Option.some.inj hf'
  have hi : Instruction.ofOpcode u.pool function .loop (f.ip + 1) = .ok (.jump target) := by
    show (do return Instruction.jump (← function.chunk.backwardTarget (f.ip + 1)) :
      Except Fault Instruction) = _
    rw [htarget]
    rfl
  rw [Machine.advance_of_read hcode (Chunk.read_of_op hin hop hi)]
  rfl

namespace Chunk

variable {c c' : Chunk}

/-! ## Adding to code -/

/-- A chunk has the code of another in front, and lines for all that is new. -/
structure Adds (c c' : Chunk) : Prop where
  /-- The code in front stays. -/
  code : Grows c.code c'.code
  /-- Every new byte has its line. -/
  lines : c.lines.size = c.size → c'.lines.size = c'.size

/-- One after the other. -/
theorem Adds.trans {c₁ : Chunk} (h : c.Adds c₁) (h' : c₁.Adds c') : c.Adds c' :=
  ⟨h.code.trans h'.code, fun hlines => h'.lines (h.lines hlines)⟩

/-- A byte is added. -/
theorem adds_writeByte (c : Chunk) (b : UInt8) (line : UInt32) : c.Adds (c.writeByte b line) :=
  ⟨Grows.push _ _, fun h => by simp_all [writeByte, size]⟩

/-- An opcode is added. -/
theorem adds_writeOp (c : Chunk) (op : Opcode) (line : UInt32) : c.Adds (c.writeOp op line) :=
  c.adds_writeByte _ _

/-- A two-byte operand is added. -/
theorem adds_writeShort (c : Chunk) (n : UInt16) (line : UInt32) : c.Adds (c.writeShort n line) :=
  (c.adds_writeByte _ _).trans (adds_writeByte _ _ _)

/-- A byte more. -/
@[simp] theorem size_writeByte (c : Chunk) (b : UInt8) (line : UInt32) :
    (c.writeByte b line).size = c.size + 1 :=
  Array.size_push _

/-- A byte more. -/
@[simp] theorem size_writeOp (c : Chunk) (op : Opcode) (line : UInt32) :
    (c.writeOp op line).size = c.size + 1 :=
  c.size_writeByte _ _

/-- Two bytes more. -/
@[simp] theorem size_writeShort (c : Chunk) (n : UInt16) (line : UInt32) :
    (c.writeShort n line).size = c.size + 2 := by
  rw [writeShort, size_writeByte, size_writeByte]

/-- The opcode that has been written. -/
theorem op?_writeOp (c : Chunk) (op : Opcode) (line : UInt32) :
    (c.writeOp op line).op? c.size = some op := by
  rw [op?, byte?]
  simp [writeOp, writeByte, size]

/-- The operand that has been written. -/
theorem shortOperand_writeShort (c : Chunk) (n : UInt16) (line : UInt32) :
    (c.writeShort n line).shortOperand c.size = .ok n.toNat := by
  apply shortOperand_of_bytes
  · exact Grows.push _ _ _ _ Array.getElem?_push_size
  · -- The lower byte comes behind the higher one.
    have hlow : ((c.code.push (highByte n)).push (lowByte n))[(c.code.push (highByte n)).size]? =
        some (lowByte n) := Array.getElem?_push_size
    rwa [Array.size_push] at hlow

/-- An opcode stays while code is added. -/
theorem op?_grows (h : Grows c.code c'.code) {a : Nat} {op : Opcode} (hop : c.op? a = some op) :
    c'.op? a = some op := by
  obtain ⟨byte, hbyte, hof⟩ := Option.bind_eq_some_iff.mp hop
  exact Option.bind_eq_some_iff.mpr ⟨byte, h _ _ hbyte, hof⟩

/-! ## Patching and looping -/

/-- **A jump is patched if the distance fits**, and then it leads to the end of the code. -/
theorem patchJump_fits {a : Nat} (hin : a + 3 ≤ c.size) (hfits : c.size - (a + 1) - 2 ≤ 65535) :
    ∃ c', c.patchJump (a + 1) = .ok c' ∧ c.Alters c' a ∧ c'.forwardTarget (a + 1) = .ok c.size := by
  have hsize : c.size = c.code.size := rfl
  have hshort : (c.size - (a + 1) - 2).toUInt16.toNat = c.size - (a + 1) - 2 := toNat_toUInt16 hfits
  refine ⟨_, if_pos hfits, ⟨?_, fun i hi hi' => ?_, rfl⟩, ?_⟩
  · simp [size]
  · rw [Array.getElem?_setIfInBounds_ne (Ne.symm hi'), Array.getElem?_setIfInBounds_ne (Ne.symm hi)]
  · rw [forwardTarget, shortOperand_of_bytes (n := (c.distanceFrom (a + 1)).toUInt16), distanceFrom,
      hshort]
    · show Except.ok (a + 1 + 2 + (c.size - (a + 1) - 2)) = _
      congr 1
      omega
    · rw [Array.getElem?_setIfInBounds_ne (by omega), Array.getElem?_setIfInBounds_self_of_lt (by omega)]
    · rw [Array.getElem?_setIfInBounds_self_of_lt (by rw [Array.size_setIfInBounds]; omega)]

/-- Otherwise the distance is the error. -/
theorem patchJump_exceeds {o : Nat} (hlong : ¬ c.size - o - 2 ≤ 65535) :
    c.patchJump o = .error (c.size - o - 2) :=
  if_neg hlong

/-- A jump back is as long as the code behind its start, and the jump itself: its opcode is there when the
distance is taken, and its operand is not. -/
theorem writeLoop_eq {start : Nat} (hstart : start ≤ c.size) (line : UInt32) :
    c.writeLoop start line =
      if c.size + 3 - start ≤ 65535 then
        ((c.writeOp .loop line).writeShort (c.size + 3 - start).toUInt16 line, .ok ())
      else (c.writeOp .loop line, .error (c.size + 3 - start)) := by
  have hdistance : (c.writeOp .loop line).size - start + 2 = c.size + 3 - start := by
    rw [size_writeOp]
    omega
  rw [writeLoop]
  simp only [hdistance]
  rfl

/-- **A jump back is written if the distance fits**, and then it leads to its target. -/
theorem writeLoop_fits {start : Nat} (hstart : start ≤ c.size) (line : UInt32)
    (hfits : c.size + 3 - start ≤ 65535) :
    ∃ c', c.writeLoop start line = (c', .ok ()) ∧ c.Adds c' ∧ c'.size = c.size + 3 ∧
      c'.op? c.size = some .loop ∧ c'.backwardTarget (c.size + 1) = .ok start := by
  have hadds := adds_writeShort (c.writeOp .loop line) (c.size + 3 - start).toUInt16 line
  refine ⟨_, (writeLoop_eq hstart line).trans (if_pos hfits), (c.adds_writeOp .loop line).trans hadds,
    ?_, ?_, ?_⟩
  · rw [size_writeShort, size_writeOp]
  · exact op?_grows hadds.code (c.op?_writeOp .loop line)
  · have hshort := shortOperand_writeShort (c.writeOp .loop line) (c.size + 3 - start).toUInt16 line
    rw [size_writeOp, toNat_toUInt16 hfits] at hshort
    rw [backwardTarget, hshort]
    show (if c.size + 3 - start ≤ c.size + 1 + 2 then _ else _) = _
    rw [if_pos (by omega)]
    show Except.ok (c.size + 1 + 2 - (c.size + 3 - start)) = _
    congr 1
    omega

/-- Otherwise the distance is the error, and only the opcode has been written. -/
theorem writeLoop_exceeds {start : Nat} (hstart : start ≤ c.size) (line : UInt32)
    (hlong : ¬ c.size + 3 - start ≤ 65535) :
    c.writeLoop start line = (c.writeOp .loop line, .error (c.size + 3 - start)) :=
  (writeLoop_eq hstart line).trans (if_neg hlong)

end Chunk

/-! ## Drafts -/

/-- A jump in code under construction. -/
structure Branch where
  /-- The opcode. -/
  op : Opcode
  /-- Where the operand stands. -/
  operand : Nat
  /-- Whether it leads back. A jump that does not is a label that can be patched. -/
  isLoop : Bool
  /-- Where it was last made to lead. -/
  target : Option Nat
  deriving DecidableEq, Repr

/-- Code under construction, and the jumps in it. -/
structure Draft where
  /-- The code. -/
  chunk : Chunk := {}
  /-- The jumps, the earlier ones first. -/
  branches : List Branch := []

/-- What can be done with a draft. -/
inductive DraftStep where
  /-- Appends a byte. -/
  | byte (b : UInt8) (line : UInt32)
  /-- Appends an opcode. -/
  | op (op : Opcode) (line : UInt32)
  /-- Appends a two-byte operand. -/
  | short (n : UInt16) (line : UInt32)
  /-- Appends a forward jump. -/
  | jump (op : Opcode) (line : UInt32)
  /-- Patches the forward jump whose operand is at an offset. -/
  | patch (label : Nat)
  /-- Appends a jump back. -/
  | loop (start : Nat) (line : UInt32)

/-- Makes a forward jump lead to a target if its operand is at the offset. -/
def Branch.landAt (b : Branch) (label target : Nat) : Branch :=
  if b.isLoop = false ∧ b.operand = label then { b with target := some target } else b

/-- Landing changes no operand. -/
@[simp] theorem Branch.operand_landAt (b : Branch) (label target : Nat) :
    (b.landAt label target).operand = b.operand := by
  rw [landAt]
  split <;> rfl

/-- The opcode is that of a jump, forward or back. -/
def Branch.IsJump (b : Branch) : Prop := b.isLoop = true ∨ b.op.isForward = true

/-- Where the operand of a jump says that it leads. -/
def Branch.decode (b : Branch) (c : Chunk) : Except Fault Nat :=
  if b.isLoop then c.backwardTarget b.operand else c.forwardTarget b.operand

namespace Draft

/-- The operand of a forward jump is at the offset. -/
def IsLabel (d : Draft) (label : Nat) : Prop :=
  ∃ b ∈ d.branches, b.isLoop = false ∧ b.operand = label

instance (d : Draft) (label : Nat) : Decidable (d.IsLabel label) :=
  inferInstanceAs (Decidable (∃ b ∈ d.branches, _))

/-- The draft after an operation. Only labels are patched, and a jump back starts no later than it ends;
an operation that fails leaves what it has written. -/
def perform (d : Draft) : DraftStep → Draft
  | .byte b line => { d with chunk := d.chunk.writeByte b line }
  | .op op line => { d with chunk := d.chunk.writeOp op line }
  | .short n line => { d with chunk := d.chunk.writeShort n line }
  | .jump op line =>
    let (operand, chunk) := d.chunk.writeJump op line
    ⟨chunk, d.branches ++ [⟨op, operand, false, none⟩]⟩
  | .patch label =>
    if d.IsLabel label then
      match d.chunk.patchJump label with
      | .ok chunk => ⟨chunk, d.branches.map (·.landAt label d.chunk.size)⟩
      | .error _ => d
    else d
  | .loop start line =>
    if start ≤ d.chunk.size then
      match d.chunk.writeLoop start line with
      | (chunk, .ok ()) => ⟨chunk, d.branches ++ [⟨.loop, d.chunk.size + 1, true, some start⟩]⟩
      | (chunk, .error _) => { d with chunk }
    else d

/-- The draft after a sequence of operations. -/
def performAll (d : Draft) (steps : List DraftStep) : Draft := steps.foldl perform d

end Draft

/-! ## One jump -/

/-- A jump stands in code, and its operand says what it should. -/
structure Branch.Stands (b : Branch) (c : Chunk) : Prop where
  /-- The operand comes behind the opcode, and all of it is there. -/
  placed : ∃ a, b.operand = a + 1 ∧ a + 3 ≤ c.size ∧ c.op? a = some b.op
  /-- A jump back has the opcode of one. -/
  loop : b.isLoop = true → b.op = .loop
  /-- The operand says where the jump was made to lead. -/
  decodes : ∀ t, b.target = some t → b.decode c = .ok t

/-- Neither of two jumps has a byte in the operand of the other. -/
def Branch.Apart (b b' : Branch) : Prop :=
  b.operand + 3 ≤ b'.operand ∨ b'.operand + 3 ≤ b.operand

namespace Branch.Stands

variable {b b' : Branch} {c c' : Chunk}

/-- Where a jump leads depends on its operand. -/
theorem decode_congr (h : c'.shortOperand b.operand = c.shortOperand b.operand) :
    b.decode c' = b.decode c := by
  rw [decode, decode, Chunk.backwardTarget, Chunk.backwardTarget, Chunk.forwardTarget,
    Chunk.forwardTarget, h]

/-- A jump stays while code is added. -/
theorem adds (h : b.Stands c) (hadds : c.Adds c') : b.Stands c' := by
  obtain ⟨a, ha, hin, hop⟩ := h.placed
  have hsize : c.code.size = c.size := rfl
  have hle : c.size ≤ c'.size := hadds.code.size_le
  refine ⟨⟨a, ha, by omega, Chunk.op?_grows hadds.code hop⟩, h.loop, fun t ht => ?_⟩
  rw [decode_congr (Chunk.shortOperand_congr (hadds.code.getElem?_eq (by omega))
    (hadds.code.getElem?_eq (by omega)))]
  exact h.decodes t ht

/-- A jump stays, and its operand, while another one is patched. -/
theorem alters (h : b.Stands c) {a : Nat} (halt : c.Alters c' a) (hb' : b'.operand = a + 1)
    (hapart : b.Apart b') :
    c'.shortOperand b.operand = c.shortOperand b.operand ∧ b.Stands c' := by
  obtain ⟨a', ha', hin, hop⟩ := h.placed
  rw [Branch.Apart, ha', hb'] at hapart
  have hoperand : c'.shortOperand b.operand = c.shortOperand b.operand :=
    halt.shortOperand_eq (by omega)
  refine ⟨hoperand, ⟨a', ha', halt.size ▸ hin, ?_⟩, h.loop, fun t ht => ?_⟩
  · exact (halt.op?_eq (by omega) (by omega)).trans hop
  · exact (decode_congr hoperand).trans (h.decodes t ht)

/-- A forward jump stands in the code in which it has been patched, and leads to its end. -/
theorem patched (h : b.Stands c) (hlabel : b.isLoop = false) (hpatch : c.patchJump b.operand = .ok c') :
    Branch.Stands { b with target := some c.size } c' ∧
      ∃ a, b.operand = a + 1 ∧ c.Alters c' a := by
  obtain ⟨a, ha, hin, hop⟩ := h.placed
  by_cases hfits : c.size - (a + 1) - 2 ≤ 65535
  · obtain ⟨c₁, hc₁, halt, htarget⟩ := Chunk.patchJump_fits hin hfits
    rw [ha, hc₁] at hpatch
    obtain rfl := Except.ok.inj hpatch
    refine ⟨⟨⟨a, ha, halt.size ▸ hin, ?_⟩, h.loop, fun t ht => ?_⟩, a, ha, halt⟩
    · exact (halt.op?_eq (by omega) (by omega)).trans hop
    · obtain rfl := Option.some.inj ht
      rw [decode, hlabel, ha]
      exact htarget
  · rw [ha, Chunk.patchJump_exceeds hfits] at hpatch
    cases hpatch

/-- **A jump leads where it was made to lead.** -/
theorem leads (h : b.Stands c) (hjump : b.IsJump) {t : Nat} (ht : b.target = some t) :
    c.Leads b.op b.operand t := by
  obtain ⟨a, ha, hin, hop⟩ := h.placed
  have hdecode := h.decodes t ht
  rw [decode, ha] at hdecode
  rw [ha]
  rcases hloop : b.isLoop with _ | _
  · have hforward : b.op.isForward = true := hjump.resolve_left (by simp [hloop])
    rw [hloop] at hdecode
    exact Chunk.leads_forward (by omega) hop hforward hdecode
  · rw [hloop] at hdecode
    rw [h.loop hloop] at hop ⊢
    exact Chunk.leads_loop (by omega) hop hdecode

end Branch.Stands

/-! ## All jumps -/

/-- **The invariant of a draft.** -/
structure Draft.Sound (d : Draft) : Prop where
  /-- Every byte has its line. -/
  lines : d.chunk.lines.size = d.chunk.size
  /-- All jumps are there. -/
  stands : ∀ b ∈ d.branches, b.Stands d.chunk
  /-- Different jumps stand apart. -/
  apart : ∀ b ∈ d.branches, ∀ b' ∈ d.branches, b = b' ∨ b.Apart b'

namespace Draft.Sound

variable {d : Draft}

/-- Nothing has been written. -/
theorem empty : ({} : Draft).Sound :=
  ⟨rfl, fun _ hb => absurd hb List.not_mem_nil, fun _ hb => absurd hb List.not_mem_nil⟩

/-- Code is added that is no jump. -/
theorem adds (h : d.Sound) {c : Chunk} (hadds : d.chunk.Adds c) : Draft.Sound { d with chunk := c } :=
  ⟨hadds.lines h.lines, fun b hb => (h.stands b hb).adds hadds, h.apart⟩

/-- A jump is added. -/
theorem adds_branch (h : d.Sound) {c : Chunk} {b : Branch} (hadds : d.chunk.Adds c)
    (hb : b.Stands c) (hbehind : b.operand = d.chunk.size + 1) :
    Draft.Sound ⟨c, d.branches ++ [b]⟩ := by
  -- The operand of an earlier jump ends where the code did.
  have hapart : ∀ b' ∈ d.branches, b'.Apart b := by
    intro b' hb'
    obtain ⟨a, ha, hin, -⟩ := (h.stands b' hb').placed
    left
    omega
  refine ⟨hadds.lines h.lines, fun b' hb' => ?_, fun b₁ hb₁ b₂ hb₂ => ?_⟩
  · rcases List.mem_append.mp hb' with hold | hnew
    · exact (h.stands b' hold).adds hadds
    · rwa [List.mem_singleton.mp hnew]
  · rcases List.mem_append.mp hb₁ with hold₁ | hnew₁ <;>
      rcases List.mem_append.mp hb₂ with hold₂ | hnew₂
    · exact h.apart b₁ hold₁ b₂ hold₂
    · rw [List.mem_singleton.mp hnew₂]
      exact .inr (hapart b₁ hold₁)
    · rw [List.mem_singleton.mp hnew₁]
      exact .inr (hapart b₂ hold₂).symm
    · rw [List.mem_singleton.mp hnew₁, List.mem_singleton.mp hnew₂]
      exact .inl rfl

/-- **A jump is patched**: it stands with its new target, and the others as before. -/
theorem patch (h : d.Sound) {b : Branch} (hb : b ∈ d.branches) (hlabel : b.isLoop = false) {c : Chunk}
    (hpatch : d.chunk.patchJump b.operand = .ok c) :
    Draft.Sound ⟨c, d.branches.map (·.landAt b.operand d.chunk.size)⟩ := by
  obtain ⟨hnew, a, ha, halt⟩ := (h.stands b hb).patched hlabel hpatch
  refine ⟨?_, fun b'' hb'' => ?_, fun b₁ hb₁ b₂ hb₂ => ?_⟩
  · rw [halt.lines, halt.size]
    exact h.lines
  · obtain ⟨b', hb', rfl⟩ := List.mem_map.mp hb''
    -- A jump with this operand is the one that is patched, for others stand apart from it.
    rcases h.apart b' hb' b hb with rfl | hapart
    · rw [Branch.landAt, if_pos ⟨hlabel, rfl⟩]
      exact hnew
    · have hne : b'.operand ≠ b.operand := by
        rw [Branch.Apart] at hapart
        omega
      rw [Branch.landAt, if_neg fun hsame => hne hsame.2]
      exact ((h.stands b' hb').alters halt ha hapart).2
  · obtain ⟨b₁', hb₁', rfl⟩ := List.mem_map.mp hb₁
    obtain ⟨b₂', hb₂', rfl⟩ := List.mem_map.mp hb₂
    rcases h.apart b₁' hb₁' b₂' hb₂' with rfl | hapart
    · exact .inl rfl
    · rw [Branch.Apart, Branch.operand_landAt, Branch.operand_landAt]
      exact .inr hapart

/-- A forward jump is written, and awaits its target. -/
theorem jump (h : d.Sound) (op : Opcode) (line : UInt32) : (d.perform (.jump op line)).Sound := by
  have hadds := Chunk.adds_writeShort (d.chunk.writeOp op line) 0xffff line
  refine h.adds_branch ((d.chunk.adds_writeOp op line).trans hadds) ?_ (Chunk.size_writeOp ..)
  refine ⟨⟨d.chunk.size, Chunk.size_writeOp .., ?_, ?_⟩, (fun hloop => nomatch hloop), fun t ht => ?_⟩
  · simp
  · exact Chunk.op?_grows hadds.code (Chunk.op?_writeOp ..)
  · cases ht

/-- A jump back is written, if its distance fits. -/
theorem loop (h : d.Sound) {start : Nat} (hstart : start ≤ d.chunk.size) (line : UInt32) :
    (d.perform (.loop start line)).Sound := by
  rw [perform, if_pos hstart]
  by_cases hfits : d.chunk.size + 3 - start ≤ 65535
  · obtain ⟨c, hc, hadds, hsize, hop, htarget⟩ := Chunk.writeLoop_fits hstart line hfits
    rw [hc]
    refine h.adds_branch hadds ⟨⟨_, rfl, Nat.le_of_eq hsize.symm, hop⟩, fun _ => rfl,
      fun t ht => ?_⟩ rfl
    obtain rfl := Option.some.inj ht
    exact htarget
  · rw [Chunk.writeLoop_exceeds hstart line hfits]
    exact h.adds (d.chunk.adds_writeOp .loop line)

/-- **An operation keeps the invariant.** -/
theorem perform (h : d.Sound) (step : DraftStep) : (d.perform step).Sound := by
  cases step with
  | byte b line => exact h.adds (d.chunk.adds_writeByte b line)
  | op op line => exact h.adds (d.chunk.adds_writeOp op line)
  | short n line => exact h.adds (d.chunk.adds_writeShort n line)
  | jump op line => exact h.jump op line
  | patch label =>
    rw [Draft.perform]
    split
    case isTrue hlabel =>
      obtain ⟨b, hb, hlabel, rfl⟩ := hlabel
      split
      · next c hpatch => exact h.patch hb hlabel hpatch
      · exact h
    case isFalse => exact h
  | loop start line =>
    by_cases hstart : start ≤ d.chunk.size
    · exact h.loop hstart line
    · rw [Draft.perform, if_neg hstart]
      exact h

/-- So does a sequence of operations. -/
theorem performAll (h : d.Sound) (steps : List DraftStep) : (d.performAll steps).Sound := by
  induction steps generalizing d with
  | nil => exact h
  | cons step steps ih => exact ih (h.perform step)

end Draft.Sound

/-! ## What holds of every draft -/

/-- **What patching a forward jump comes to** in a draft. -/
structure Draft.Patching (d : Draft) (b : Branch) : Prop where
  /-- The operand is in the code, so the distance from behind it is what it says. -/
  placed : b.operand + 2 ≤ d.chunk.size
  /-- It succeeds exactly if that distance fits. -/
  fits : (∃ c, d.chunk.patchJump b.operand = .ok c) ↔ d.chunk.size - b.operand - 2 ≤ 65535
  /-- The jump then leads to the end of the code. -/
  leads : ∀ c, d.chunk.patchJump b.operand = .ok c → b.IsJump →
    c.Leads b.op b.operand d.chunk.size
  /-- No byte but those of the operand changes, and no line. -/
  frame : ∀ c, d.chunk.patchJump b.operand = .ok c → c.size = d.chunk.size ∧ c.lines = d.chunk.lines ∧
    ∀ i, i ≠ b.operand → i ≠ b.operand + 1 → c.code[i]? = d.chunk.code[i]?
  /-- All other operands are as they were, and still lead where they did. -/
  others : ∀ c, d.chunk.patchJump b.operand = .ok c → ∀ b' ∈ d.branches, b' ≠ b →
    c.shortOperand b'.operand = d.chunk.shortOperand b'.operand ∧
      ∀ t, b'.target = some t → b'.IsJump → c.Leads b'.op b'.operand t
  /-- If it fails, then with the distance, and an emitter reports it and keeps its code. -/
  refused : ∀ n, d.chunk.patchJump b.operand = .error n → n = d.chunk.size - b.operand - 2 ∧
    ∀ e : Emitter, e.chunk = d.chunk →
      Emitter.patch ⟨b.operand⟩ e = .error (.limitExceeded .jumpDistance e.span) e

/-- **What writing a jump back comes to** in a draft. -/
structure Draft.Looping (d : Draft) (start : Nat) (line : UInt32) : Prop where
  /-- It succeeds exactly if the distance from behind the instruction fits. -/
  fits : (∃ c, d.chunk.writeLoop start line = (c, .ok ())) ↔ d.chunk.size + 3 - start ≤ 65535
  /-- The jump then leads to where it was to. -/
  leads : ∀ c, d.chunk.writeLoop start line = (c, .ok ()) →
    c.size = d.chunk.size + 3 ∧ c.Leads .loop (d.chunk.size + 1) start
  /-- The code in front stays, and every byte has its line, whether it succeeds or not. -/
  frame : ∀ c r, d.chunk.writeLoop start line = (c, r) → c.lines.size = c.size ∧
    ∀ i, i < d.chunk.size → c.code[i]? = d.chunk.code[i]?

namespace Draft.Sound

variable {d : Draft} {b : Branch}

/-- What patching comes to. -/
theorem patching (h : d.Sound) (hb : b ∈ d.branches) (hlabel : b.isLoop = false) : d.Patching b := by
  obtain ⟨a, ha, hin, -⟩ := (h.stands b hb).placed
  constructor
  case placed => omega
  case fits =>
    constructor
    · rintro ⟨c, hc⟩
      by_contra hlong
      rw [Chunk.patchJump_exceeds hlong] at hc
      cases hc
    · intro hfits
      rw [ha] at hfits ⊢
      obtain ⟨c, hc, -⟩ := Chunk.patchJump_fits hin hfits
      exact ⟨c, hc⟩
  case leads =>
    intro c hc hjump
    exact ((h.stands b hb).patched hlabel hc).1.leads hjump rfl
  case frame =>
    intro c hc
    obtain ⟨-, a, ha, halt⟩ := (h.stands b hb).patched hlabel hc
    exact ⟨halt.size, halt.lines, fun i hi hi' => halt.frame i (ha ▸ hi) (by omega)⟩
  case others =>
    intro c hc b' hb' hne
    obtain ⟨-, a, ha, halt⟩ := (h.stands b hb).patched hlabel hc
    have hapart := (h.apart b' hb' b hb).resolve_left hne
    obtain ⟨hoperand, hstands⟩ := (h.stands b' hb').alters halt ha hapart
    exact ⟨hoperand, fun t ht hjump => hstands.leads hjump ht⟩
  case refused =>
    intro n hn
    have hlong : ¬ d.chunk.size - b.operand - 2 ≤ 65535 := by
      intro hfits
      rw [ha] at hfits hn
      obtain ⟨c, hc, -⟩ := Chunk.patchJump_fits hin hfits
      rw [hc] at hn
      cases hn
    rw [Chunk.patchJump_exceeds hlong] at hn
    refine ⟨(Except.error.inj hn).symm, fun e he => ?_⟩
    show (match e.chunk.patchJump b.operand with
      | .ok chunk => set { e with chunk }
      | .error _ => Emitter.exceeded .jumpDistance : Emit Unit) e = _
    rw [he, Chunk.patchJump_exceeds hlong]
    rfl

/-- What a jump back comes to. -/
theorem looping (h : d.Sound) {start : Nat} (hstart : start ≤ d.chunk.size) (line : UInt32) :
    d.Looping start line := by
  by_cases hfits : d.chunk.size + 3 - start ≤ 65535
  · obtain ⟨c, hc, hadds, hsize, hop, htarget⟩ := Chunk.writeLoop_fits hstart line hfits
    refine ⟨iff_of_true ⟨c, hc⟩ hfits, fun c' hc' => ?_, fun c' r hc' => ?_⟩
    · obtain ⟨rfl, -⟩ := Prod.mk.inj (hc.symm.trans hc')
      exact ⟨hsize, Chunk.leads_loop (by omega) hop htarget⟩
    · obtain ⟨rfl, -⟩ := Prod.mk.inj (hc.symm.trans hc')
      exact ⟨hadds.lines h.lines, fun i hi => hadds.code.getElem?_eq hi⟩
  · have hc := Chunk.writeLoop_exceeds hstart line hfits
    have hadds := d.chunk.adds_writeOp .loop line
    have hnot : ∀ c', d.chunk.writeLoop start line ≠ (c', .ok ()) := by
      intro c' hc'
      cases (Prod.mk.inj (hc.symm.trans hc')).2
    refine ⟨iff_of_false (fun ⟨c', hc'⟩ => hnot c' hc') hfits, fun c' hc' => absurd hc' (hnot c'),
      fun c' r hc' => ?_⟩
    obtain ⟨rfl, -⟩ := Prod.mk.inj (hc.symm.trans hc')
    exact ⟨hadds.lines h.lines, fun i hi => hadds.code.getElem?_eq hi⟩

end Draft.Sound

/-- **Jumps lead where they were meant to.** However code has been drafted, failures included, every byte
has its line, and every jump leads where it was last made to lead. A forward jump can be patched exactly
if its distance fits, leads to the end of the code then, and leaves all else as it was; a jump back can be
written exactly if its distance fits, and leads to its start. -/
theorem Draft.lands (steps : List DraftStep) :
    let d := ({} : Draft).performAll steps
    d.chunk.lines.size = d.chunk.size ∧
      (∀ b ∈ d.branches, b.IsJump → ∀ t, b.target = some t → d.chunk.Leads b.op b.operand t) ∧
      (∀ b ∈ d.branches, b.isLoop = false → d.Patching b) ∧
      ∀ start line, start ≤ d.chunk.size → d.Looping start line := by
  have hsound := Draft.Sound.empty.performAll steps
  refine ⟨hsound.lines, fun b hb hjump t ht => (hsound.stands b hb).leads hjump ht, ?_, ?_⟩
  · exact fun b hb hlabel => hsound.patching hb hlabel
  · exact fun start line hstart => hsound.looping hstart line

/-- Two labels at once: the outer jump is patched first, over the inner one and the jump back behind it. -/
theorem Draft.lands_nested :
    let steps : List DraftStep := [.jump .tryBegin 1, .jump .jumpIfFalse 2, .loop 3 2, .patch 1,
      .op .pop 3, .patch 4]
    let d := ({} : Draft).performAll steps
    d.chunk.lines.size = 10 ∧ d.chunk.Leads .tryBegin 1 9 ∧ d.chunk.Leads .jumpIfFalse 4 10 ∧
      d.chunk.Leads .loop 7 3 ∧ d.Patching ⟨.tryBegin, 1, false, some 9⟩ ∧ d.Looping 0 4 := by
  intro steps d
  obtain ⟨hlines, hleads, hpatching, hlooping⟩ := Draft.lands steps
  refine ⟨hlines, ?_, ?_, ?_, ?_, ?_⟩
  · exact hleads ⟨.tryBegin, 1, false, some 9⟩ (by decide) (.inr rfl) 9 rfl
  · exact hleads ⟨.jumpIfFalse, 4, false, some 10⟩ (by decide) (.inr rfl) 10 rfl
  · exact hleads ⟨.loop, 7, true, some 3⟩ (by decide) (.inl rfl) 3 rfl
  · exact hpatching ⟨.tryBegin, 1, false, some 9⟩ (by decide) rfl
  · exact hlooping 0 4 (by decide)

end ScriptEngine
