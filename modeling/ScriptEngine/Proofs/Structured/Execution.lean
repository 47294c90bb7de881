import ScriptEngine.Proofs.Structured.Activation

/-!
# Code does what evaluation says

The code of an expression pushes the expression's value: `Setting.Pushes`. The code of a statement ends
where and how the statement does, which is `Setting.Performs`: behind itself with the operands that were
there before, with a `return`, or with a `throw` on its way to the handlers around the statement. There is
one lemma for each way in which code is composed, and `Setting.Valid.performs` puts them together for the
statements of the structured part.

If evaluation runs out of turns, the run takes at least as many steps; so a loop that never ends is one
that runs for ever.
-/

namespace ScriptEngine

/-- Stores behind normal ends. -/
theorem Ending.andThen_map (o : Option Store) (next : Store → Ending) :
    Ending.andThen (o.map fun σ => (.normal, σ)) next = o.bind next := by
  cases o with
  | none => rfl
  | some σ => rfl

namespace Setting

variable {S : Setting} {P Q : Stretch} {a b : Nat} {stack : List Value} {handlers : List Handler} {μ : Memory}

/-! ## Expressions -/

/-- A stretch of code pushes the value of an expression, and leaves the variables as the expression
does. -/
def Pushes (S : Setting) (P : Stretch) (value? : Store → Option (Value × Store)) : Prop :=
  ∀ ⦃a b : Nat⦄ ⦃μ : Memory⦄ ⦃σ : Store⦄ (stack : List Value) (handlers : List Handler), P a b → S.Holds μ σ →
    ∃ y σ' v μ' n, value? σ = some (y, σ') ∧ v.Same y ∧ S.Holds μ' σ' ∧
      S.Goes n (S.ready μ a stack handlers) (S.ready μ' b (v :: stack) handlers)

/-- **A unary operator** behind its operand. -/
theorem Valid.goes_unary (h : S.Valid) {op : UnaryOp} (hat : Laid.unaryOp S.blueprint S.function op a b)
    {v y : Value} (hv : v.Same y) :
    ∃ v' n, v'.Same (S.world.heap.unary op y) ∧
      S.Goes n (S.ready μ a (v :: stack) handlers) (S.ready μ b (v' :: stack) handlers) := by
  cases op with
  | neg => exact ⟨v.negate, 1, hv.negate, h.goes hat rfl⟩
  | plus => exact ⟨v.plus, 1, hv.plus, h.goes hat rfl⟩
  | not => exact ⟨v.not, 1, hv.not, h.goes hat rfl⟩
  | typeof =>
    refine ⟨.string (S.world.heap.typeName v), 1, ?_, h.goes hat rfl⟩
    rw [Heap.unary, hv.typeName_eq]
    exact .refl _
  | void =>
    obtain ⟨k, hpop, hpush⟩ := hat
    have hgo : S.Goes 1 (S.ready μ a (v :: stack) handlers) (S.ready μ k stack handlers) := h.goes hpop rfl
    exact ⟨.undefined, 1 + 1, .refl _, hgo.trans (h.goes hpush rfl)⟩

/-- A jump that keeps the top if it is taken, and drops it if not. -/
theorem Valid.goes_jumpOrPop (h : S.Valid) (μ : Memory) (stack : List Value) (handlers : List Handler)
    {i : Instruction} {truth : Bool} {target : Nat}
    (hi : ∀ w f, S.machine.execute w f i = .jumpOrPop w f truth target)
    (hat : S.blueprint.at S.function i a b) (v : Value) :
    S.Goes 1 (S.ready μ a (v :: stack) handlers)
      (if v.toBool = truth then S.ready μ target (v :: stack) handlers else S.ready μ b stack handlers) := by
  refine h.goes hat ?_
  simp only [turn, hi, Turn.jumpOrPop]
  split
  · rfl
  · rfl

section

variable {lhs rhs : Store → Option (Value × Store)}

/-- The value of a binary operation, of the values of its operands. -/
def binaryValue? (op : BinaryOp) (lhs rhs : Store → Option (Value × Store)) (σ : Store) :
    Option (Value × Store) :=
  (lhs σ).bind fun (v, σ) =>
    if op.decidedBy v then some (v, σ) else (rhs σ).bind fun (w, σ) => some (v.binary op w, σ)

/-- **A logical operator**: the left operand decides, or is dropped for the right one. -/
theorem Valid.pushes_shortcut (h : S.Valid) (hP : S.Pushes P lhs) (hQ : S.Pushes Q rhs) {op : BinaryOp}
    {jump : Nat → Instruction} (truth : Bool)
    (hjump : ∀ target w f, S.machine.execute w f (jump target) = .jumpOrPop w f truth target)
    (hop : ∀ v, op.decidedBy v = (v.toBool == truth))
    (hright : ∀ v w : Value, op.decidedBy v = false → v.binary op w = w) :
    S.Pushes (P.seq (.skip S.blueprint S.function jump Q)) (binaryValue? op lhs rhs) := by
  rintro a b μ σ stack handlers ⟨p, hlhs, q, hat, hrhs⟩ hσ
  obtain ⟨y, σ₁, v, μ₁, n, hvalue, hv, hσ₁, hgo⟩ := hP stack handlers hlhs hσ
  have hjumped := h.goes_jumpOrPop μ₁ stack handlers (hjump b) hat v
  rw [hv.toBool_eq] at hjumped
  have hdecided := hop y
  by_cases hd : y.toBool = truth
  · rw [if_pos hd] at hjumped
    rw [hd, beq_self_eq_true] at hdecided
    refine ⟨y, σ₁, v, μ₁, n + 1, ?_, hv, hσ₁, hgo.trans hjumped⟩
    simp [binaryValue?, hvalue, hdecided]
  · rw [if_neg hd] at hjumped
    rw [beq_eq_false_iff_ne.mpr hd] at hdecided
    obtain ⟨z, σ₂, w, μ₂, n', hvalue', hw, hσ₂, hgo'⟩ := hQ stack handlers hrhs hσ₁
    refine ⟨z, σ₂, w, μ₂, n + 1 + n', ?_, hw, hσ₂, (hgo.trans hjumped).trans hgo'⟩
    simp [binaryValue?, hvalue, hdecided, hvalue', hright y z hdecided]

/-- **A binary operation.** -/
theorem Valid.pushes_binary (h : S.Valid) (hP : S.Pushes P lhs) (hQ : S.Pushes Q rhs) (op : BinaryOp) :
    S.Pushes (Laid.binary S.blueprint S.function op P Q) (binaryValue? op lhs rhs) := by
  cases op with
  | and =>
    refine h.pushes_shortcut hP hQ false (fun _ _ _ => rfl) (fun v => ?_) fun v w hv => ?_
    · simp [BinaryOp.decidedBy]
    · simp only [BinaryOp.decidedBy, Bool.not_eq_false'] at hv
      exact if_pos hv
  | or =>
    refine h.pushes_shortcut hP hQ true (fun _ _ _ => rfl) (fun v => ?_) fun v w hv => ?_
    · simp [BinaryOp.decidedBy]
    · exact if_neg (by simpa [BinaryOp.decidedBy] using hv)
  | _ =>
    rintro a b μ σ stack handlers ⟨p, hlhs, q, hrhs, hat⟩ hσ
    obtain ⟨y, σ₁, v, μ₁, n, hvalue, hv, hσ₁, hgo⟩ := hP stack handlers hlhs hσ
    obtain ⟨z, σ₂, w, μ₂, n', hvalue', hw, hσ₂, hgo'⟩ := hQ (v :: stack) handlers hrhs hσ₁
    refine ⟨_, σ₂, _, μ₂, n + n' + 1, ?_, hv.binary hw _, hσ₂, (hgo.trans hgo').trans (h.goes hat rfl)⟩
    simp [binaryValue?, hvalue, hvalue', BinaryOp.decidedBy]

end

/-- **The code of an expression pushes its value.** -/
theorem Valid.pushes (h : S.Valid) {e : Node} (he : e.isPlain S.blueprint.table S.source.scope = true)
    (isLowered : Bool) (withs : Nat) :
    S.Pushes (Laid S.blueprint S.function S.context isLowered withs .value e)
      (e.value? S.world.heap) := by
  induction e using Node.sizeInduction with
  | step e ih =>
    cases e with
    | literal i l =>
      rintro a b μ σ stack handlers ⟨_, ⟨v, hv, hat⟩, rfl⟩ hσ
      exact ⟨_, σ, v, μ, 1, rfl, hv, hσ, h.goes hat rfl⟩
    | identifier i x =>
      rintro a b μ σ stack handlers ⟨_, hat, rfl⟩ hσ
      obtain ⟨u, v, hu, hv, hgo⟩ := h.goes_load stack handlers hσ he hat
      refine ⟨σ u, σ, v, μ, 1, ?_, hv, hσ, hgo⟩
      rw [Node.value?, hu]
      rfl
    | unary i op operand =>
      rintro a b μ σ stack handlers ⟨_, hoperand, _, hop, rfl⟩ hσ
      obtain ⟨y, σ', v, μ', n, hvalue, hv, hσ', hgo⟩ :=
        ih operand (by decreasing_tactic) he stack handlers hoperand hσ
      obtain ⟨v', n', hv', hgo'⟩ := h.goes_unary hop hv
      refine ⟨_, σ', v', μ', n + n', ?_, hv', hσ', hgo.trans hgo'⟩
      rw [Node.value?, hvalue]
      rfl
    | binary i op lhs rhs =>
      obtain ⟨hlhs, hrhs⟩ := Bool.and_eq_true_iff.mp he
      rintro a b μ σ stack handlers ⟨_, hat, rfl⟩ hσ
      rw [Node.value?]
      exact h.pushes_binary (ih lhs (by decreasing_tactic) hlhs) (ih rhs (by decreasing_tactic) hrhs) op
        stack handlers hat hσ
    | assign i target value =>
      cases target with
      | identifier j x =>
        obtain ⟨hx, hvalue⟩ := Bool.and_eq_true_iff.mp he
        rintro a b μ σ stack handlers ⟨_, ⟨_, hat, hstore⟩, rfl⟩ hσ
        obtain ⟨y, σ₁, v, μ₁, n, hvalue, hv, hσ₁, hgo⟩ :=
          ih value (by decreasing_tactic) hvalue stack handlers hat hσ
        obtain ⟨σ₂, μ₂, hassign, hσ₂, hgo'⟩ := h.goes_store stack handlers hσ₁ hx hstore hv
        refine ⟨y, σ₂, v, μ₂, n + 1, ?_, hv, hσ₂, hgo.trans hgo'⟩
        simp [Node.value?, hvalue, hassign]
      | _ => cases he
    | _ => cases he

/-! ## How runs end -/

/-- Where a run stands when a statement has ended: behind its code, or on the way out with what is returned
or thrown. What is thrown finds the operands and the handlers of the statement. -/
inductive Lands (S : Setting) (μ : Memory) (b : Nat) (stack : List Value) (handlers : List Handler) :
    Completion → State → Prop where
  /-- The statement ends normally. -/
  | normal : Lands S μ b stack handlers .normal (S.ready μ b stack handlers)
  /-- A value is returned, from within any protected regions of the statement. -/
  | ret {v y : Value} (ip : Nat) (inner : List Handler) (hv : v.Same y) :
    Lands S μ b stack handlers (.ret y) (S.state μ ip stack inner (.ret v))
  /-- A value is thrown. -/
  | throw {v y : Value} (ip : Nat) (hv : v.Same y) :
    Lands S μ b stack handlers (.throw y) (S.state μ ip stack handlers (.raise (.thrown v)))

/-- A run ends as an evaluation says, if it says anything, and else takes at least a number of steps. -/
def Does (S : Setting) (least : Nat) (s : State) (b : Nat) (stack : List Value) (handlers : List Handler) :
    Ending → Prop
  | none => ∃ n s', least ≤ n ∧ S.Goes n s s'
  | some (c, σ) => ∃ n s' μ, S.Holds μ σ ∧ S.Lands μ b stack handlers c s' ∧ S.Goes n s s'

namespace Does

variable {least n : Nat} {s s₁ : State} {b' : Nat} {ended : Ending}

/-- A normal end. -/
theorem normal {σ : Store} (hσ : S.Holds μ σ) (hgo : S.Goes n s (S.ready μ b stack handlers)) :
    S.Does least s b stack handlers (some (.normal, σ)) := ⟨n, _, μ, hσ, .normal, hgo⟩

/-- Steps before count. -/
theorem later (h : S.Does least s₁ b stack handlers ended) (hgo : S.Goes n s s₁) :
    S.Does (n + least) s b stack handlers ended := by
  rcases ended with _ | ⟨c, σ⟩
  · obtain ⟨k, s', hle, hgo'⟩ := h
    exact ⟨n + k, s', Nat.add_le_add_left hle n, hgo.trans hgo'⟩
  · obtain ⟨k, s', μ, hσ, hlands, hgo'⟩ := h
    exact ⟨n + k, s', μ, hσ, hlands, hgo.trans hgo'⟩

/-- Fewer steps are enough. -/
theorem mono (h : S.Does least s b stack handlers ended) {fewer : Nat} (hle : fewer ≤ least) :
    S.Does fewer s b stack handlers ended := by
  rcases ended with _ | ⟨c, σ⟩
  · obtain ⟨k, s', hk, hgo⟩ := h
    exact ⟨k, s', Nat.le_trans hle hk, hgo⟩
  · exact h

/-- Steps before. -/
theorem before (h : S.Does least s₁ b stack handlers ended) (hgo : S.Goes n s s₁) :
    S.Does least s b stack handlers ended := (h.later hgo).mono (Nat.le_add_left ..)

/-- **What comes behind a normal end.** -/
theorem andThen (h : S.Does least s b' stack handlers ended) {next : Store → Ending}
    (hnext : ∀ {μ σ}, S.Holds μ σ → S.Does least (S.ready μ b' stack handlers) b stack handlers (next σ)) :
    S.Does least s b stack handlers (ended.andThen next) := by
  rcases ended with _ | ⟨c, σ⟩
  · exact h
  · obtain ⟨k, s', μ, hσ, hlands, hgo⟩ := h
    cases hlands with
    | normal => exact (hnext hσ).before hgo
    | ret ip inner hv => exact ⟨k, _, μ, hσ, .ret ip inner hv, hgo⟩
    | throw ip hv => exact ⟨k, _, μ, hσ, .throw ip hv, hgo⟩

/-- Steps behind a normal end. -/
theorem behind (h : S.Does least s b' stack handlers ended)
    (hgo : ∀ μ, S.Goes n (S.ready μ b' stack handlers) (S.ready μ b stack handlers)) :
    S.Does least s b stack handlers ended := by
  have hdoes : S.Does least s b stack handlers (ended.andThen fun σ => some (.normal, σ)) :=
    h.andThen fun hσ => normal hσ (hgo _)
  rcases ended with _ | ⟨_ | _ | _, σ⟩ <;> exact hdoes

end Does

/-- **What is thrown in a protected region** comes to its handler, with the operands of the start. -/
theorem goes_catch (S : Setting) (μ : Memory) (ip target : Nat) (stack : List Value) (handlers : List Handler)
    (v : Value) :
    S.Goes 1 (S.state μ ip stack (⟨target, stack.length, S.frame.env⟩ :: handlers) (.raise (.thrown v)))
      (S.ready μ target (v :: stack) handlers) := by
  apply Machine.Goes.step
  · simp [state]
  · simp [state, ready, Machine.step, Machine.unwind, RuntimeError.isCatchable, Realm.caughtValue,
      Frame.catchIn]

/-! ## Statements -/

/-- A stretch of code does what an evaluation says. -/
def Performs (S : Setting) (P : Stretch) (least : Nat) (exec? : Store → Ending) : Prop :=
  ∀ ⦃a b : Nat⦄ ⦃μ : Memory⦄ ⦃σ : Store⦄ (stack : List Value) (handlers : List Handler), P a b → S.Holds μ σ →
    S.Does least (S.ready μ a stack handlers) b stack handlers (exec? σ)

/-- A stretch of code takes a value off the stack, and does what an evaluation says. -/
def Consumes (S : Setting) (P : Stretch) (least : Nat) (exec? : Value → Store → Ending) : Prop :=
  ∀ ⦃a b : Nat⦄ ⦃μ : Memory⦄ ⦃σ : Store⦄ ⦃v y : Value⦄ (stack : List Value) (handlers : List Handler), P a b →
    v.Same y → S.Holds μ σ →
    S.Does least (S.ready μ a (v :: stack) handlers) b stack handlers (exec? y σ)

section

variable {least : Nat} {value? : Store → Option (Value × Store)} {take : Value → Store → Ending}
variable {exec? exec?' : Store → Ending}

/-- No code. -/
theorem performs_empty (S : Setting) (least : Nat) :
    S.Performs .empty least fun σ => some (.normal, σ) := by
  rintro a _ μ σ stack handlers rfl hσ
  exact .normal hσ (Machine.Goes.refl _ _ _)

/-- **One stretch behind another.** -/
theorem Performs.seq (hP : S.Performs P least exec?) (hQ : S.Performs Q least exec?') :
    S.Performs (P.seq Q) least fun σ => (exec? σ).andThen exec?' := by
  rintro a b μ σ stack handlers ⟨k, hfirst, hsecond⟩ hσ
  exact (hP stack handlers hfirst hσ).andThen fun hσ => hQ stack handlers hsecond hσ

/-- **A value and what takes it.** -/
theorem Pushes.seq (hP : S.Pushes P value?) (hQ : S.Consumes Q least take) :
    S.Performs (P.seq Q) least fun σ => (value? σ).bind fun r => take r.1 r.2 := by
  rintro a b μ σ stack handlers ⟨k, hfirst, hsecond⟩ hσ
  obtain ⟨y, σ', v, μ', n, hvalue, hv, hσ', hgo⟩ := hP stack handlers hfirst hσ
  simp only [hvalue, Option.bind_some]
  exact (hQ stack handlers hsecond hv hσ').before hgo

/-- **A value is taken, and another stretch follows.** -/
theorem Consumes.seq (hP : S.Consumes P least take) (hQ : S.Performs Q least exec?) :
    S.Consumes (P.seq Q) least fun y σ => (take y σ).andThen exec? := by
  rintro a b μ σ v y stack handlers ⟨k, hfirst, hsecond⟩ hv hσ
  exact (hP stack handlers hfirst hv hσ).andThen fun hσ => hQ stack handlers hsecond hσ

namespace Valid

variable (h : S.Valid)
include h

/-- A value is dropped. -/
theorem consumes_pop : S.Consumes (S.blueprint.at S.function .pop) least fun _ σ => some (.normal, σ) := by
  intro a b μ σ v y stack handlers hat _ hσ
  exact .normal hσ (h.goes hat rfl)

/-- **A value is kept in a variable.** -/
theorem consumes_store (least : Nat) {x : Identifier} (hx : S.owns x = true) :
    S.Consumes ((S.blueprint.atSome S.function (S.context.storeOf? x)).seq (S.blueprint.at S.function .pop))
      least fun y σ => (σ.assign x y).map fun σ => (.normal, σ) := by
  rintro a b μ σ v y stack handlers ⟨k, hstore, hpop⟩ hv hσ
  obtain ⟨σ', μ', hassign, hσ', hgo⟩ := h.goes_store stack handlers hσ hx hstore hv
  simp only [hassign, Option.map_some]
  exact .normal hσ' (hgo.trans (h.goes hpop rfl))

/-- A value is returned. -/
theorem consumes_ret : S.Consumes (S.blueprint.at S.function .ret) least fun y σ => some (.ret y, σ) := by
  intro a b μ σ v y stack handlers hat hv hσ
  exact ⟨1, _, _, hσ, .ret _ _ hv, h.goes hat rfl⟩

/-- A value is thrown. -/
theorem consumes_throw : S.Consumes (S.blueprint.at S.function .throw) least fun y σ => some (.throw y, σ) := by
  intro a b μ σ v y stack handlers hat hv hσ
  exact ⟨1, _, _, hσ, .throw _ hv, h.goes hat rfl⟩

/-- A test, and a jump if it fails. -/
theorem goes_jumpIfFalse (μ : Memory) (stack : List Value) (handlers : List Handler) {target : Nat}
    (hat : S.blueprint.at S.function (.jumpIfFalse target) a b) {v y : Value} (hv : v.Same y) :
    S.Goes 1 (S.ready μ a (v :: stack) handlers)
      (if y.toBool then S.ready μ b stack handlers else S.ready μ target stack handlers) := by
  rw [← hv.toBool_eq]
  refine h.goes hat ?_
  simp only [turn, Machine.execute, Turn.jumpIfFalse]
  split
  · rfl
  · rfl

/-- **A conditional without another branch.** -/
theorem consumes_skip (hP : S.Performs P least exec?) :
    S.Consumes (.skip S.blueprint S.function .jumpIfFalse P) least
      fun y σ => if y.toBool then exec? σ else some (.normal, σ) := by
  rintro a b μ σ v y stack handlers ⟨k, hjump, hat⟩ hv hσ
  have hgo := h.goes_jumpIfFalse μ stack handlers hjump hv
  dsimp only
  by_cases hy : y.toBool = true
  · rw [if_pos hy] at hgo ⊢
    exact (hP stack handlers hat hσ).before hgo
  · rw [if_neg hy] at hgo ⊢
    exact .normal hσ hgo

/-- **A conditional.** -/
theorem consumes_fork (hP : S.Performs P least exec?) (hQ : S.Performs Q least exec?') :
    S.Consumes (.fork S.blueprint S.function .jumpIfFalse P Q) least
      fun y σ => if y.toBool then exec? σ else exec?' σ := by
  rintro a b μ σ v y stack handlers ⟨p, q, r, hjump, hthen, hover, helse⟩ hv hσ
  have hgo := h.goes_jumpIfFalse μ stack handlers hjump hv
  dsimp only
  by_cases hy : y.toBool = true
  · rw [if_pos hy] at hgo ⊢
    exact ((hP stack handlers hthen hσ).behind fun μ => h.goes hover rfl).before hgo
  · rw [if_neg hy] at hgo ⊢
    exact (hQ stack handlers helse hσ).before hgo

/-- **A loop**: every turn of it takes a step, at least the one back. -/
theorem performs_loop {turns : Nat} (hP : S.Pushes P value?) (hQ : S.Performs Q turns exec?) {left : Nat}
    (hleft : left ≤ turns) :
    S.Performs (.loop S.blueprint S.function P Q) left (whileLoop value? exec? left) := by
  intro a b μ σ stack handlers hat hσ
  obtain ⟨p, htest, q, hjump, r, hbody, hback⟩ := hat
  induction left generalizing μ σ with
  | zero => exact ⟨0, _, Nat.le_refl 0, Machine.Goes.refl _ _ _⟩
  | succ left ih =>
    obtain ⟨y, σ₁, v, μ₁, n, hvalue, hv, hσ₁, hgo⟩ := hP stack handlers htest hσ
    have hjumped := h.goes_jumpIfFalse μ₁ stack handlers hjump hv
    simp only [whileLoop, hvalue, Option.bind_eq_bind, Option.bind_some]
    by_cases hy : y.toBool = true
    · rw [if_pos hy] at hjumped ⊢
      refine Does.before ?_ (hgo.trans hjumped)
      refine ((hQ stack handlers hbody hσ₁).mono hleft).andThen fun hσ => ?_
      have hrest := (ih (Nat.le_of_succ_le hleft) hσ).later (h.goes hback rfl)
      rwa [Nat.add_comm] at hrest
    · rw [if_neg hy] at hjumped ⊢
      exact .normal hσ₁ (hgo.trans hjumped)

/-- **A protected region and its handler.** -/
theorem performs_try (hP : S.Performs P least exec?) (hQ : S.Consumes Q least take) :
    S.Performs (.fork S.blueprint S.function .tryBegin (P.seq (S.blueprint.at S.function .tryEnd)) Q) least
      fun σ => (exec? σ).orCatch take := by
  rintro a b μ σ stack handlers ⟨p, q, r, hbegin, ⟨k, hblock, hend⟩, hover, hcatch⟩ hσ
  have hentered : S.Goes 1 (S.ready μ a stack handlers)
      (S.ready μ p stack (⟨r, stack.length, S.frame.env⟩ :: handlers)) := h.goes hbegin rfl
  refine Does.before ?_ hentered
  have hdoes := hP stack (⟨r, stack.length, S.frame.env⟩ :: handlers) hblock hσ
  dsimp only
  generalize exec? σ = ended at hdoes ⊢
  rcases ended with _ | ⟨c, σ₁⟩
  · exact hdoes
  · obtain ⟨n, s, μ₁, hσ₁, hlands, hgo⟩ := hdoes
    cases hlands with
    | normal =>
      have hleft : S.Goes 1 (S.ready μ₁ k stack (⟨r, stack.length, S.frame.env⟩ :: handlers))
          (S.ready μ₁ q stack handlers) := h.goes hend rfl
      exact .normal hσ₁ (hgo.trans (hleft.trans (h.goes hover rfl)))
    | ret ip inner hv => exact ⟨n, _, μ₁, hσ₁, .ret ip inner hv, hgo⟩
    | throw ip hv =>
      exact (hQ stack handlers hcatch hv hσ₁).before (hgo.trans (S.goes_catch μ₁ ip r stack handlers _))

/-- **A handler keeps what it catches** in a variable, or drops it. -/
theorem consumes_bindCaught {param : Option Identifier} (hparam : param.all S.owns = true) :
    S.Consumes (Laid.bindCaught S.blueprint S.function S.context param) least
      fun y σ => (σ.bindCaught param y).map fun σ => (.normal, σ) := by
  cases param with
  | none => exact h.consumes_pop
  | some x => exact h.consumes_store least hparam

end Valid

end

/-- The code of statements in order does what they do, if the code of each does. -/
theorem performs_all {ns : List Node} {isLowered : Bool} {withs turns : Nat}
    (h : ∀ n ∈ ns, S.Performs (Laid S.blueprint S.function S.context isLowered withs .effect n) turns
      (n.exec? S.world.heap turns)) :
    S.Performs (LaidAll S.blueprint S.function S.context isLowered withs .effect ns) turns
      (execAll? S.world.heap turns ns) := by
  induction ns with
  | nil => exact S.performs_empty turns
  | cons n ns ih => exact (h n List.mem_cons_self).seq (ih fun n hn => h n (List.mem_cons_of_mem _ hn))

/-- In place of a statement the value of an expression is dropped. -/
theorem Valid.laid_plain (h : S.Valid) {e : Node} (he : e.isPlain S.blueprint.table S.source.scope = true)
    {isLowered : Bool} {withs : Nat}
    (hat : Laid S.blueprint S.function S.context isLowered withs .effect e a b) :
    ((Laid S.blueprint S.function S.context isLowered withs .value e).seq
      (S.blueprint.at S.function .pop)) a b := by
  have hsettle : Laid.settle S.blueprint S.function S.context .effect = S.blueprint.at S.function .pop := by
    simp [Laid.settle, context, Blueprint.context, h.isFunction]
  cases e with
  | literal | identifier | binary =>
    obtain ⟨k, hat, hpop⟩ := hat
    rw [hsettle] at hpop
    exact ⟨k, ⟨k, hat, rfl⟩, hpop⟩
  | assign i target value =>
    cases target with
    | identifier j x =>
      obtain ⟨k, hat, hpop⟩ := hat
      rw [hsettle] at hpop
      exact ⟨k, ⟨k, hat, rfl⟩, hpop⟩
    | _ => cases he
  | unary i op operand =>
    obtain ⟨k, hoperand, k', hop, hpop⟩ := hat
    rw [hsettle] at hpop
    exact ⟨k', ⟨k, hoperand, k', hop, rfl⟩, hpop⟩
  | _ => cases he

/-- **The code of an expression statement.** -/
theorem Valid.performs_plain (h : S.Valid) {e : Node}
    (he : e.isPlain S.blueprint.table S.source.scope = true) (isLowered : Bool) (withs least : Nat) :
    S.Performs (Laid S.blueprint S.function S.context isLowered withs .effect e) least
      fun σ => (e.value? S.world.heap σ).bind fun r => some (.normal, r.2) := by
  intro a b μ σ stack handlers hat hσ
  exact ((h.pushes he isLowered withs).seq h.consumes_pop) stack handlers (h.laid_plain he hat) hσ

/-- **The code of a statement does what the statement does.** -/
theorem Valid.performs (h : S.Valid) {n : Node}
    (hn : n.isStructured S.blueprint.table S.source.scope = true) (isLowered : Bool) (withs turns : Nat) :
    S.Performs (Laid S.blueprint S.function S.context isLowered withs .effect n) turns
      (n.exec? S.world.heap turns) := by
  induction n using Node.sizeInduction with
  | step n ih =>
    cases n with
    | block i statements =>
      rintro a b μ σ stack handlers ⟨-, hat⟩ hσ
      rw [Node.exec?]
      refine performs_all (fun n hmem => ih n ?_ (structuredAll_iff.mp hn n hmem)) stack handlers hat hσ
      have := List.sizeOf_lt_of_mem hmem
      decreasing_tactic
    | var i x init =>
      obtain ⟨hx, hinit⟩ := Bool.and_eq_true_iff.mp hn
      rintro a b μ σ stack handlers hat hσ
      cases init with
      | none => exact S.performs_empty turns stack handlers hat.2 hσ
      | some init =>
        have hboth := (h.pushes hinit isLowered withs).seq (h.consumes_store turns hx)
        have hdoes := hboth stack handlers hat.2 hσ
        rw [Node.exec?]
        simpa [Option.map_eq_bind, Function.comp_def] using hdoes
    | ret i value =>
      rintro a b μ σ stack handlers hat hσ
      cases value with
      | none => exact ⟨1, _, _, hσ, .ret _ _ (.refl _), h.goes hat.2 rfl⟩
      | some value => exact ((h.pushes hn isLowered withs).seq h.consumes_ret) stack handlers hat.2 hσ
    | cond i condition thenBranch elseBranch =>
      obtain ⟨hboth, helse⟩ := Bool.and_eq_true_iff.mp hn
      obtain ⟨hcondition, hthen⟩ := Bool.and_eq_true_iff.mp hboth
      have htest := h.pushes hcondition isLowered withs
      have hfirst := ih thenBranch (by decreasing_tactic) hthen
      intro a b μ σ stack handlers hat hσ
      rw [Node.exec?]
      cases elseBranch with
      | none => exact (htest.seq (h.consumes_skip hfirst)) stack handlers hat.2 hσ
      | some elseBranch =>
        have hsecond := ih elseBranch (by decreasing_tactic) helse
        exact (htest.seq (h.consumes_fork hfirst hsecond)) stack handlers hat.2 hσ
    | loop i condition body =>
      obtain ⟨hcondition, hbody⟩ := Bool.and_eq_true_iff.mp hn
      rintro a b μ σ stack handlers ⟨-, hat⟩ hσ
      rw [Node.exec?]
      exact h.performs_loop (h.pushes hcondition isLowered withs) (ih body (by decreasing_tactic) hbody)
        (Nat.le_refl turns) stack handlers hat hσ
    | throw i value =>
      rintro a b μ σ stack handlers ⟨-, hat⟩ hσ
      exact ((h.pushes hn isLowered withs).seq h.consumes_throw) stack handlers hat hσ
    | tryCatch i block param handler =>
      obtain ⟨hboth, hhandler⟩ := Bool.and_eq_true_iff.mp hn
      obtain ⟨hblock, hparam⟩ := Bool.and_eq_true_iff.mp hboth
      rintro a b μ σ stack handlers ⟨-, hat⟩ hσ
      have hcatch := (h.consumes_bindCaught hparam).seq (ih handler (by decreasing_tactic) hhandler)
      have hdoes := h.performs_try (ih block (by decreasing_tactic) hblock) hcatch stack handlers hat hσ
      simp only [Ending.andThen_map] at hdoes
      rw [Node.exec?]
      exact hdoes
    | _ =>
      rintro a b μ σ stack handlers hat hσ
      exact h.performs_plain hn isLowered withs turns stack handlers hat hσ

end Setting

end ScriptEngine
