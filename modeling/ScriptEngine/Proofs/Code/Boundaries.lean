import Mathlib.Data.List.Basic
import ScriptEngine.Proofs.Code.Emission

/-!
# Whole instructions

Code *splits* into instructions if from its first byte to its last each instruction is an opcode with as
many bytes of operands as the opcode takes (`Chunk.Splits`). What an operand may be depends on the opcode
(`Opcode.Admits`): a constant of the pool, a local that there is, a site of the right kind, an earlier
function, or the distance to where another instruction starts.

While code is written some forward jumps still await their targets. `Chunk.Tidy` says that the code is
in order apart from these. One more instruction keeps it so, and patching a jump settles one of them.
-/

namespace ScriptEngine

namespace Chunk

/-! ## Splitting code -/

/-- From one offset to another the code is a row of whole instructions. -/
inductive Splits (c : Chunk) : Nat → List (Nat × Opcode) → Nat → Prop
  /-- No instruction. -/
  | nil (a : Nat) : c.Splits a [] a
  /-- An opcode with all its operands, and then the others. -/
  | cons {a b : Nat} {op : Opcode} {rest : List (Nat × Opcode)} (found : c.op? a = some op)
      (whole : a + 1 + op.operandSize ≤ c.size) (more : c.Splits (a + 1 + op.operandSize) rest b) :
      c.Splits a ((a, op) :: rest) b

/-- The instructions from an offset on: where each starts, and its opcode. A byte that is no opcode is
passed over. -/
def instructionsFrom (c : Chunk) (offset : Nat) : List (Nat × Opcode) :=
  if offset < c.size then
    match c.op? offset with
    | some op => (offset, op) :: c.instructionsFrom (offset + 1 + op.operandSize)
    | none => c.instructionsFrom (offset + 1)
  else []
  termination_by c.size - offset

/-- All instructions. -/
def instructions (c : Chunk) : List (Nat × Opcode) := c.instructionsFrom 0

/-- An instruction starts at the offset, or the code ends there. -/
def IsBoundary (c : Chunk) (offset : Nat) : Prop :=
  offset = c.size ∨ ∃ op, (offset, op) ∈ c.instructions

/-- The functions that the code makes, in order. -/
def closures (c : Chunk) : List Nat :=
  c.instructions.filterMap fun entry =>
    if entry.2 = .closure then (c.shortOperand (entry.1 + 1)).toOption else none

/-- There are no instructions where there is no code. -/
@[simp] theorem instructions_empty : ({} : Chunk).instructions = [] := by
  rw [instructions, instructionsFrom]
  rfl

/-- No functions are made where there is no code. -/
@[simp] theorem closures_empty : ({} : Chunk).closures = [] := by
  rw [closures, instructions_empty]
  rfl

/-- **The list of opcodes** has those of the instructions. -/
theorem opcodesFrom_eq (c : Chunk) (offset : Nat) (ops : Array Opcode) :
    (c.opcodesFrom offset ops).toList = ops.toList ++ (c.instructionsFrom offset).map Prod.snd := by
  fun_induction c.opcodesFrom offset ops with
  | case1 offset ops hlt op hop ih =>
    rw [ih, instructionsFrom.eq_def c offset, if_pos hlt, hop]
    simp
  | case2 offset ops hlt hop ih => rw [ih, instructionsFrom.eq_def c offset, if_pos hlt, hop]
  | case3 offset ops hlt =>
    rw [instructionsFrom, if_neg hlt]
    simp

namespace Splits

variable {c c' : Chunk} {a b d : Nat} {is js : List (Nat × Opcode)}

/-- Code that splits up to its end has no other instructions. -/
theorem instructionsFrom_eq (h : c.Splits a is c.size) : c.instructionsFrom a = is := by
  generalize hend : c.size = b at h
  induction h with
  | nil a =>
    rw [instructionsFrom, if_neg (by omega)]
  | cons found whole _ ih =>
    rw [instructionsFrom, if_pos (by omega), found]
    simp only
    rw [ih hend]

/-- A row of instructions goes forward. -/
theorem le (h : c.Splits a is b) : a ≤ b := by
  induction h with
  | nil a => exact Nat.le_refl a
  | cons _ _ _ ih => omega

/-- One row behind the other. -/
theorem append (h : c.Splits a is b) (h' : c.Splits b js d) : c.Splits a (is ++ js) d := by
  induction h with
  | nil a => exact h'
  | cons found whole _ ih => exact .cons found whole (ih h')

/-- The instructions of a row lie within it. -/
theorem bounds (h : c.Splits a is b) {x : Nat} {op : Opcode} (hx : (x, op) ∈ is) :
    a ≤ x ∧ x + 1 + op.operandSize ≤ b ∧ x + 1 + op.operandSize ≤ c.size ∧ c.op? x = some op := by
  induction h with
  | nil a => cases hx
  | cons found whole more ih =>
    rcases List.mem_cons.mp hx with heq | hrest
    · obtain ⟨rfl, rfl⟩ := Prod.mk.inj heq
      exact ⟨Nat.le_refl _, more.le, whole, found⟩
    · obtain ⟨hle, hrest⟩ := ih hrest
      exact ⟨by omega, hrest⟩

/-- Two instructions of a row do not overlap. -/
theorem disjoint (h : c.Splits a is b) {x y : Nat} {op op' : Opcode} (hx : (x, op) ∈ is)
    (hy : (y, op') ∈ is) :
    (x = y ∧ op = op') ∨ x + 1 + op.operandSize ≤ y ∨ y + 1 + op'.operandSize ≤ x := by
  induction h with
  | nil a => cases hx
  | cons found whole more ih =>
    rcases List.mem_cons.mp hx with hfirst | hlater
    · obtain ⟨rfl, rfl⟩ := Prod.mk.inj hfirst
      rcases List.mem_cons.mp hy with hfirst' | hlater'
      · obtain ⟨rfl, rfl⟩ := Prod.mk.inj hfirst'
        exact .inl ⟨rfl, rfl⟩
      · exact .inr (.inl (more.bounds hlater').1)
    · rcases List.mem_cons.mp hy with hfirst' | hlater'
      · obtain ⟨rfl, rfl⟩ := Prod.mk.inj hfirst'
        exact .inr (.inr (more.bounds hlater).1)
      · exact ih hlater hlater'

/-- Code with the same opcodes splits in the same way. -/
theorem congr (h : c.Splits a is b) (hsize : c.size ≤ c'.size)
    (hop : ∀ x op, (x, op) ∈ is → c'.op? x = some op) : c'.Splits a is b := by
  induction h with
  | nil a => exact .nil a
  | cons found whole _ ih =>
    refine .cons (hop _ _ List.mem_cons_self) (Nat.le_trans whole hsize) ?_
    exact ih fun x op hx => hop x op (List.mem_cons_of_mem _ hx)

/-- Behind an instruction there is another one, or the end of the row. -/
theorem next (h : c.Splits a is b) {x : Nat} {op : Opcode} (hx : (x, op) ∈ is) :
    x + 1 + op.operandSize = b ∨ ∃ op', (x + 1 + op.operandSize, op') ∈ is := by
  induction h with
  | nil a => cases hx
  | cons found whole more ih =>
    rcases List.mem_cons.mp hx with heq | hrest
    · obtain ⟨rfl, rfl⟩ := Prod.mk.inj heq
      cases more with
      | nil => exact .inl rfl
      | cons => exact .inr ⟨_, List.mem_cons_of_mem _ List.mem_cons_self⟩
    · rcases ih hrest with hend | ⟨op', hop'⟩
      · exact .inl hend
      · exact .inr ⟨op', List.mem_cons_of_mem _ hop'⟩

end Splits

/-- An operand depends on its two bytes. -/
theorem shortOperand_congr {c c' : Chunk} {o : Nat} (hhigh : c'.code[o]? = c.code[o]?)
    (hlow : c'.code[o + 1]? = c.code[o + 1]?) : c'.shortOperand o = c.shortOperand o := by
  rw [shortOperand, shortOperand, short?, short?, hhigh, hlow]

/-- An operand stays as it is while code is added. -/
theorem shortOperand_grows {c c' : Chunk} (h : Grows c.code c'.code) {o n : Nat}
    (hn : c.shortOperand o = .ok n) : c'.shortOperand o = .ok n := by
  rw [shortOperand, short?] at hn ⊢
  rcases hhigh : c.code[o]? with _ | high
  · simp [hhigh] at hn
  · rcases hlow : c.code[o + 1]? with _ | low
    · simp [hhigh, hlow] at hn
    · rw [h _ _ hhigh, h _ _ hlow]
      rw [hhigh, hlow] at hn
      exact hn

end Chunk

/-! ## What operands may be -/

/-- What is asked of code. -/
structure CodeTerms where
  /-- Whether frame slots have to be there. -/
  slots : Prop
  /-- Whether jumps may go backward. -/
  loops : Prop

/-- What the operands of a function's code can stand for. -/
structure CodeContext where
  /-- The constants of the unit. -/
  pool : Pool
  /-- The number of frame slots. -/
  locals : Nat
  /-- The call sites of the function. -/
  sites : Array CallSite
  /-- The number of functions that come before this one. -/
  functions : Nat
  /-- What is asked of the code. -/
  terms : CodeTerms

/-- One context offers all that another does. -/
structure CodeContext.Within (K K' : CodeContext) : Prop where
  /-- The constants. -/
  pool : Grows K.pool.constants K'.pool.constants
  /-- The frame slots. -/
  locals : K.locals ≤ K'.locals
  /-- The call sites. -/
  sites : Grows K.sites K'.sites
  /-- The functions. -/
  functions : K.functions ≤ K'.functions
  /-- The terms are the same. -/
  terms : K'.terms = K.terms

/-- A site of a kind stands at a position. -/
def CodeContext.HasSite (K : CodeContext) (kind : SiteKind) (n : Nat) : Prop :=
  ∃ site, K.sites[n]? = some site ∧ site.kind = kind

namespace Opcode

/-- Whether the operand is a distance forward. -/
def isForward : Opcode → Bool
  | jump | jumpIfFalse | jumpIfFalseOrPop | jumpIfTrueOrPop | tryBegin => true
  | _ => false

/-- **What a two-byte operand may be**, for an opcode at an offset. A forward distance counts from behind
the instruction, and so does a backward one. -/
def Admits (op : Opcode) (K : CodeContext) (boundary : Nat → Prop) (offset n : Nat) : Prop :=
  match op with
  | constant => (K.pool.get? n).isSome
  | getGlobal | setGlobal | deleteGlobal | getName | setName | callName | deleteName | deleteMember
  | initProperty => (K.pool.name? n).isSome
  | getLocal | setLocal => K.terms.slots → n < K.locals
  | getMember => K.HasSite .getMember n
  | setMember => K.HasSite .setMember n
  | callGlobal => K.HasSite .globalCall n
  | invokeMember => K.HasSite .invokeMember n
  | closure => n < K.functions
  | jump | jumpIfFalse | jumpIfFalseOrPop | jumpIfTrueOrPop | tryBegin => boundary (offset + 3 + n)
  | loop => K.terms.loops ∧ ∃ target, target + n = offset + 3 ∧ target ≤ offset ∧ boundary target
  | _ => True

/-- What is admitted stays so while the unit grows. -/
theorem Admits.mono {op : Opcode} {K K' : CodeContext} {boundary boundary' : Nat → Prop} {offset n : Nat}
    (h : op.Admits K boundary offset n) (hK : K.Within K')
    (hboundary : ∀ t, boundary t → boundary' t) : op.Admits K' boundary' offset n := by
  have hget : (K.pool.get? n).isSome → (K'.pool.get? n).isSome := by
    intro hsome
    obtain ⟨d, hd⟩ := Option.isSome_iff_exists.mp hsome
    exact Option.isSome_iff_exists.mpr ⟨d, hK.pool n d hd⟩
  have hname : (K.pool.name? n).isSome → (K'.pool.name? n).isSome := by
    intro hsome
    obtain ⟨name, hname⟩ := Option.isSome_iff_exists.mp hsome
    obtain ⟨d, hd, hdname⟩ := Option.bind_eq_some_iff.mp hname
    exact Option.isSome_iff_exists.mpr
      ⟨name, Option.bind_eq_some_iff.mpr ⟨d, hK.pool n d hd, hdname⟩⟩
  have hsite : ∀ kind, K.HasSite kind n → K'.HasSite kind n := by
    rintro kind ⟨site, hsite, hkind⟩
    exact ⟨site, hK.sites n site hsite, hkind⟩
  cases op <;> first
    | trivial
    | exact hget h
    | exact hname h
    | exact hsite _ h
    | exact hboundary _ h
    | exact fun hslots => Nat.lt_of_lt_of_le (h (hK.terms ▸ hslots)) hK.locals
    | exact Nat.lt_of_lt_of_le h hK.functions
    | exact ⟨hK.terms ▸ h.1, h.2.imp fun _ ht => ⟨ht.1, ht.2.1, hboundary _ ht.2.2⟩⟩

/-- A forward jump leads to a boundary. -/
theorem admits_forward {op : Opcode} (hop : op.isForward = true) {K : CodeContext}
    {boundary : Nat → Prop} {offset n : Nat} :
    op.Admits K boundary offset n ↔ boundary (offset + 3 + n) := by
  cases op <;> first | exact Iff.rfl | cases hop

/-- A forward jump has a two-byte operand. -/
theorem operandSize_forward {op : Opcode} (hop : op.isForward = true) : op.operandSize = 2 := by
  cases op <;> first | rfl | cases hop

end Opcode

namespace Chunk

/-! ## Code under construction -/

/-- Code that is in order, apart from some forward jumps that await their targets. -/
structure Tidy (c : Chunk) (K : CodeContext) (waiting : List Nat) : Prop where
  /-- The code splits into whole instructions. -/
  splits : c.Splits 0 c.instructions c.size
  /-- Every byte has its line. -/
  lines : c.lines.size = c.size
  /-- What is waiting is a forward jump. -/
  labels : ∀ a ∈ waiting, ∃ op, (a, op) ∈ c.instructions ∧ op.isForward = true
  /-- All other operands are what they may be. -/
  operands : ∀ a op, (a, op) ∈ c.instructions → a ∉ waiting → 2 ≤ op.operandSize →
    ∃ n, c.shortOperand (a + 1) = .ok n ∧ op.Admits K c.IsBoundary a n

/-- A chunk has one instruction more than another. -/
structure Appends (c c' : Chunk) (op : Opcode) : Prop where
  /-- The code in front stays. -/
  code : Grows c.code c'.code
  /-- The opcode comes with all its operands. -/
  size : c'.size = c.size + 1 + op.operandSize
  /-- The opcode comes behind the code. -/
  opcode : c'.op? c.size = some op
  /-- Every byte has its line. -/
  lines : c'.lines.size = c.lines.size + 1 + op.operandSize

namespace Tidy

variable {c c' : Chunk} {K K' : CodeContext} {waiting waiting' : List Nat} {op : Opcode}

/-- There is no code yet. -/
theorem empty (K : CodeContext) : ({} : Chunk).Tidy K [] := by
  refine ⟨?_, rfl, fun a ha => absurd ha List.not_mem_nil, fun a op ha => ?_⟩
  · rw [instructions_empty]
    exact .nil 0
  · rw [instructions_empty] at ha
    cases ha

/-- The unit grows. -/
theorem mono (h : c.Tidy K waiting) (hK : K.Within K') : c.Tidy K' waiting := by
  refine ⟨h.splits, h.lines, h.labels, fun a op ha hwait hsize => ?_⟩
  obtain ⟨n, hn, hadmits⟩ := h.operands a op ha hwait hsize
  exact ⟨n, hn, hadmits.mono hK fun _ => id⟩

/-- One more instruction comes behind the others. -/
theorem splits_append (h : c.Tidy K waiting) (happ : c.Appends c' op) :
    c'.Splits 0 (c.instructions ++ [(c.size, op)]) c'.size := by
  have hold : c'.Splits 0 c.instructions c.size := by
    refine h.splits.congr ?_ fun x op' hx => ?_
    · rw [happ.size]
      omega
    · obtain ⟨-, -, -, hop⟩ := h.splits.bounds hx
      obtain ⟨byte, hbyte, hof⟩ := Option.bind_eq_some_iff.mp hop
      exact Option.bind_eq_some_iff.mpr ⟨byte, happ.code _ _ hbyte, hof⟩
  refine hold.append (.cons happ.opcode (Nat.le_of_eq happ.size.symm) ?_)
  rw [← happ.size]
  exact .nil _

/-- The instructions after one more. -/
theorem instructions_append (h : c.Tidy K waiting) (happ : c.Appends c' op) :
    c'.instructions = c.instructions ++ [(c.size, op)] :=
  (h.splits_append happ).instructionsFrom_eq

/-- Boundaries stay boundaries. -/
theorem boundary_append (h : c.Tidy K waiting) (happ : c.Appends c' op) {t : Nat}
    (ht : c.IsBoundary t) : c'.IsBoundary t := by
  right
  rw [h.instructions_append happ]
  rcases ht with rfl | ⟨op', hop'⟩
  · exact ⟨op, List.mem_append_right _ List.mem_cons_self⟩
  · exact ⟨op', List.mem_append_left _ hop'⟩

/-- **One more instruction**, which is a jump that awaits its target or has an operand that it may have. -/
theorem append (h : c.Tidy K waiting) (hK : K.Within K') (happ : c.Appends c' op)
    (hwaiting : ∀ a ∈ waiting', a ∈ waiting ∨ a = c.size ∧ op.isForward = true)
    (hkept : waiting ⊆ waiting')
    (hoperand : c.size ∉ waiting' → 2 ≤ op.operandSize →
      ∃ n, c'.shortOperand (c.size + 1) = .ok n ∧ op.Admits K' c'.IsBoundary c.size n) :
    c'.Tidy K' waiting' := by
  have his := h.instructions_append happ
  constructor
  case splits =>
    rw [his]
    exact h.splits_append happ
  case lines => rw [happ.lines, happ.size, h.lines]
  case labels =>
    intro a ha
    rw [his]
    rcases hwaiting a ha with hold | ⟨rfl, hforward⟩
    · obtain ⟨op', hop', hforward⟩ := h.labels a hold
      exact ⟨op', List.mem_append_left _ hop', hforward⟩
    · exact ⟨op, List.mem_append_right _ List.mem_cons_self, hforward⟩
  case operands =>
    intro a op' ha hwait hsize
    rw [his, List.mem_append, List.mem_singleton] at ha
    rcases ha with hold | hnew
    · obtain ⟨n, hn, hadmits⟩ := h.operands a op' hold (fun hin => hwait (hkept hin)) hsize
      exact ⟨n, shortOperand_grows happ.code hn, hadmits.mono hK fun t => h.boundary_append happ⟩
    · obtain ⟨rfl, rfl⟩ := Prod.mk.inj hnew
      exact hoperand hwait hsize

/-- What awaits its target makes no function. -/
theorem not_waiting (h : c.Tidy K waiting) {a : Nat} (ha : (a, .closure) ∈ c.instructions) :
    a ∉ waiting := by
  intro hwait
  obtain ⟨op, hop, hforward⟩ := h.labels a hwait
  rcases h.splits.disjoint ha hop with ⟨-, rfl⟩ | hlt | hlt
  · cases hforward
  · omega
  · omega

/-- The functions that the code makes stay the same, unless one more instruction makes one. -/
theorem closures_append (h : c.Tidy K waiting) (happ : c.Appends c' op) :
    c'.closures = c.closures ++
      if op = .closure then (c'.shortOperand (c.size + 1)).toOption.toList else [] := by
  have hold : ∀ entry ∈ c.instructions,
      (if entry.2 = .closure then (c'.shortOperand (entry.1 + 1)).toOption else none) =
        if entry.2 = .closure then (c.shortOperand (entry.1 + 1)).toOption else none := by
    rintro ⟨a, op'⟩ ha
    by_cases hop : op' = .closure
    · subst hop
      obtain ⟨n, hn, -⟩ := h.operands a .closure ha (h.not_waiting ha) (Nat.le_refl _)
      simp only [if_true, hn, shortOperand_grows happ.code hn]
    · simp only [hop, if_false]
  rw [closures, h.instructions_append happ, List.filterMap_append, List.filterMap_congr hold, closures]
  congr 1
  by_cases hop : op = .closure
  · simp only [hop, if_true, List.filterMap_cons, List.filterMap_nil]
    rcases (c'.shortOperand (c.size + 1)).toOption with _ | n
    · rfl
    · rfl
  · simp [hop]

/-! ## Patching -/

end Tidy

/-- A chunk in which the operand of a jump has been replaced. -/
structure Alters (c c' : Chunk) (a : Nat) : Prop where
  /-- Nothing is added. -/
  size : c'.size = c.size
  /-- All else stays. -/
  frame : ∀ i, i ≠ a + 1 → i ≠ a + 2 → c'.code[i]? = c.code[i]?
  /-- The lines stay. -/
  lines : c'.lines = c.lines

namespace Alters

variable {c c' : Chunk} {a : Nat}

/-- An opcode stays, unless it is a byte of the operand. -/
theorem op?_eq (h : c.Alters c' a) {x : Nat} (hhigh : x ≠ a + 1) (hlow : x ≠ a + 2) :
    c'.op? x = c.op? x := by
  rw [op?, op?, byte?, byte?, h.frame x hhigh hlow]

/-- An operand stays that has no byte in common with the one replaced. -/
theorem shortOperand_eq (h : c.Alters c' a) {o : Nat} (hapart : o < a ∨ a + 3 ≤ o) :
    c'.shortOperand o = c.shortOperand o :=
  shortOperand_congr (h.frame _ (by omega) (by omega)) (h.frame _ (by omega) (by omega))

end Alters

namespace Tidy

variable {c c' : Chunk} {K K' : CodeContext} {waiting waiting' : List Nat} {op : Opcode} {a : Nat}

/-- The instructions stay where they are. -/
theorem splits_alter (h : c.Tidy K waiting) (ha : (a, op) ∈ c.instructions)
    (hop : op.operandSize = 2) (halt : c.Alters c' a) : c'.Splits 0 c.instructions c'.size := by
  rw [halt.size]
  refine h.splits.congr (Nat.le_of_eq halt.size.symm) fun x op' hx => ?_
  obtain ⟨-, -, -, hfound⟩ := h.splits.bounds hx
  -- No instruction starts within the operand of another.
  have hframe : c'.op? x = c.op? x := by
    refine halt.op?_eq ?_ ?_
    · rcases h.splits.disjoint ha hx with ⟨rfl, -⟩ | hlt | hlt <;> omega
    · rcases h.splits.disjoint ha hx with ⟨rfl, -⟩ | hlt | hlt <;> omega
  exact hframe.trans hfound

/-- Nor do others start anywhere. -/
theorem instructions_alter (h : c.Tidy K waiting) (ha : (a, op) ∈ c.instructions)
    (hop : op.operandSize = 2) (halt : c.Alters c' a) : c'.instructions = c.instructions :=
  (h.splits_alter ha hop halt).instructionsFrom_eq

/-- The operands of all other instructions stay as they are. -/
theorem shortOperand_alter (h : c.Tidy K waiting) (ha : (a, op) ∈ c.instructions)
    (hop : op.operandSize = 2) (halt : c.Alters c' a) {x : Nat} {op' : Opcode}
    (hx : (x, op') ∈ c.instructions) (hop' : 2 ≤ op'.operandSize) (hne : x ≠ a) :
    c'.shortOperand (x + 1) = c.shortOperand (x + 1) := by
  have hapart : a + 3 ≤ x ∨ x + 3 ≤ a := by
    rcases h.splits.disjoint ha hx with ⟨rfl, -⟩ | hlt | hlt <;> omega
  exact halt.shortOperand_eq (by omega)

/-- The functions that the code makes stay the same. -/
theorem closures_alter (h : c.Tidy K waiting) (ha : (a, op) ∈ c.instructions)
    (hop : op.isForward = true) (halt : c.Alters c' a) : c'.closures = c.closures := by
  have htwo := Opcode.operandSize_forward hop
  rw [closures, closures, h.instructions_alter ha htwo halt]
  refine List.filterMap_congr ?_
  rintro ⟨x, op'⟩ hx
  by_cases hclosure : op' = .closure
  · subst hclosure
    have hne : x ≠ a := by
      rintro rfl
      rcases h.splits.disjoint ha hx with ⟨-, rfl⟩ | hlt | hlt
      · cases hop
      · omega
      · omega
    simp only [if_true, h.shortOperand_alter ha htwo halt hx (Nat.le_refl _) hne]
  · simp only [hclosure, if_false]

/-- **A jump is patched**: it leads to the end of the code. -/
theorem patch (h : c.Tidy K waiting) (ha : a ∈ waiting) (halt : c.Alters c' a)
    (hoperand : c'.shortOperand (a + 1) = .ok (c.size - (a + 3)))
    (hsub : waiting' ⊆ waiting) (hkept : ∀ x ∈ waiting, x ≠ a → x ∈ waiting') :
    c'.Tidy K waiting' := by
  obtain ⟨op, hop, hforward⟩ := h.labels a ha
  have htwo := Opcode.operandSize_forward hforward
  have his := h.instructions_alter hop htwo halt
  have hboundary : ∀ t, c.IsBoundary t → c'.IsBoundary t := by
    intro t ht
    rw [IsBoundary, his, halt.size]
    exact ht
  constructor
  case splits =>
    rw [his]
    exact h.splits_alter hop htwo halt
  case lines => rw [halt.lines, halt.size, h.lines]
  case labels =>
    intro x hx
    rw [his]
    exact h.labels x (hsub hx)
  case operands =>
    intro x op' hx hwait hsize
    rw [his] at hx
    by_cases hxa : x = a
    · subst hxa
      obtain rfl : op = op' := by
        rcases h.splits.disjoint hop hx with ⟨-, heq⟩ | hlt | hlt
        · exact heq
        · omega
        · omega
      refine ⟨_, hoperand, (Opcode.admits_forward hforward).mpr (.inl ?_)⟩
      obtain ⟨-, hle, -⟩ := h.splits.bounds hop
      rw [halt.size]
      omega
    · obtain ⟨n, hn, hadmits⟩ := h.operands x op' hx (fun hin => hwait (hkept x hin hxa)) hsize
      refine ⟨n, ?_, hadmits.mono ⟨Grows.refl _, Nat.le_refl _, Grows.refl _, Nat.le_refl _, rfl⟩ hboundary⟩
      rw [h.shortOperand_alter hop htwo halt hx hsize hxa, hn]

end Tidy

end Chunk

end ScriptEngine
