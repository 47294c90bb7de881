import ScriptEngine.Machine.Run
import ScriptEngine.Proofs.Code.Compiled
import ScriptEngine.Proofs.Machine.Chain
import ScriptEngine.Proofs.Structured.Evaluation
import ScriptEngine.Proofs.Structured.Payload

/-!
# One activation

A run of one activation, from its start until the frames below it are all that is left. `Machine.runDown`
gives the state in which that is so; `Machine.Goes` are the steps on the way.

Of the world and the frame only little changes while an activation of the structured part runs: where it
stands, its operands, its handlers, and where its variables are kept. The latter is the `Memory` of the
activation, and `Memory.Holds` says that it has the values that a store says.
-/

namespace ScriptEngine

/-! ## Running an activation -/

namespace Machine

/-- Runs until no more than a number of frames are left, within a number of steps. -/
def runDown (m : Machine) (height : Nat) : Nat → State → Option State
  | 0, _ => none
  | fuel + 1, s =>
    if s.frames.length ≤ height then some s
    else
      match m.step s with
      | .running s => m.runDown height fuel s
      | .finished _ => none

/-- A run comes to the frames below its first one and the count that goes with them, and this is what comes
next there. -/
def ComesTo (m : Machine) (s : State) (below : List Frame) (depth : Nat) (control : Control) : Prop :=
  ∃ fuel w, m.runDown below.length fuel s = some ⟨w, below, control, depth⟩

/-- The start of an activation of a function over frames, if there is such a function. -/
def activate? (m : Machine) (w : World) (below : List Frame) (depth : Nat) (callee : Value) (c : Closure)
    (this : Value) (args : List Value) (resume : Resume) : Option State :=
  match m.code c.unit c.index with
  | .error _ => none
  | .ok (_, function) =>
    let (f, envs) := Frame.activate function c callee this args resume w.envs
    some ⟨{ w with envs }, f :: below, .execute, depth + 1⟩

/-- A number of steps lead from one state to another, and there are always more frames than a number. -/
def Goes (m : Machine) (height n : Nat) (s s' : State) : Prop :=
  ∀ fuel, m.runDown height (n + fuel) s = m.runDown height fuel s'

section

variable {m : Machine} {height n k fuel : Nat} {s s₁ s₂ : State} {below : List Frame} {depth : Nat}

/-- No step at all. -/
theorem Goes.refl (m : Machine) (height : Nat) (s : State) : m.Goes height 0 s s := by
  intro fuel
  rw [Nat.zero_add]

/-- One step after the other. -/
theorem Goes.trans (h : m.Goes height n s s₁) (h' : m.Goes height k s₁ s₂) : m.Goes height (n + k) s s₂ := by
  intro fuel
  rw [Nat.add_assoc, h, h']

/-- One step. -/
theorem Goes.step (hheight : height < s.frames.length) (h : m.step s = .running s₁) :
    m.Goes height 1 s s₁ := by
  intro fuel
  rw [Nat.add_comm, runDown, if_neg (Nat.not_le_of_lt hheight), h]

/-- **One instruction** of the running frame. -/
theorem goes_instruction {w : World} {f : Frame} {i : Instruction} {u : CodeUnit} {function : CodeFunction}
    {b : Nat} (hcode : m.code f.unit f.index = .ok (u, function))
    (hread : Instruction.read u.pool function f.ip = .ok (some (i, b))) {s : State}
    (hs : (⟨(m.execute w { f with ip := b } i).world, (m.execute w { f with ip := b } i).frame :: below,
      (m.execute w { f with ip := b } i).control, depth⟩ : State) = s) :
    m.Goes below.length 1 ⟨w, f :: below, .execute, depth⟩ s := by
  apply Goes.step
  · exact Nat.lt_succ_self _
  · subst hs
    simp only [step, advance, hcode, hread]
    rfl

/-- What a run ends with, more steps end with, too. -/
theorem runDown_add (h : m.runDown height fuel s = some s₁) (extra : Nat) :
    m.runDown height (fuel + extra) s = some s₁ := by
  induction fuel generalizing s with
  | zero => cases h
  | succ fuel ih =>
    rw [Nat.succ_add]
    rw [runDown] at h ⊢
    split
    · next hle => rwa [if_pos hle] at h
    · next hlt =>
      rw [if_neg hlt] at h
      split
      · next s' hs' =>
        rw [hs'] at h
        exact ih h
      · next o ho => simp only [ho] at h; cases h

/-- Steps that lead to the end. -/
theorem Goes.runDown (h : m.Goes height n s s₁) (hheight : s₁.frames.length ≤ height) :
    m.runDown height (n + 1) s = some s₁ := by
  rw [h 1, Machine.runDown, if_pos hheight]

/-- A run that has taken a number of steps has not ended within them. -/
theorem Goes.runDown_none (h : m.Goes height n s s₁) (hle : fuel ≤ n) :
    m.runDown height fuel s = none := by
  rcases hr : m.runDown height fuel s with _ | s'
  · rfl
  · have hmore := runDown_add hr (n - fuel)
    rw [Nat.add_sub_cancel' hle, show n = n + 0 from rfl, h 0] at hmore
    cases hmore

/-- What a run comes to does not depend on the number of steps. -/
theorem runDown_unique {fuel' : Nat} (h : m.runDown height fuel s = some s₁)
    (h' : m.runDown height fuel' s = some s₂) : s₁ = s₂ := by
  have hmore := runDown_add h fuel'
  rw [Nat.add_comm, runDown_add h' fuel] at hmore
  exact (Option.some.inj hmore).symm

/-- A run comes to one thing only. -/
theorem ComesTo.unique {control control' : Control} (h : m.ComesTo s below depth control)
    (h' : m.ComesTo s below depth control') : control = control' := by
  obtain ⟨fuel, w, hrun⟩ := h
  obtain ⟨fuel', w', hrun'⟩ := h'
  exact congrArg State.control (runDown_unique hrun hrun')

/-- **A run goes on** from what it comes to. -/
theorem run_of_runDown (h : m.runDown height fuel s = some s₁) :
    ∃ n, n ≤ fuel ∧ ∀ k, m.run (n + k) s = m.run k s₁ := by
  induction fuel generalizing s with
  | zero => cases h
  | succ fuel ih =>
    rw [runDown] at h
    split at h
    · cases h
      exact ⟨0, Nat.zero_le _, fun k => by rw [Nat.zero_add]⟩
    · split at h
      · next s' hs' =>
        obtain ⟨n, hle, hrun⟩ := ih h
        refine ⟨n + 1, Nat.succ_le_succ hle, fun k => ?_⟩
        rw [Nat.succ_add, run, hs']
        exact hrun k
      · cases h

/-- A run goes on in the frames below an activation that has come to its end. -/
theorem ComesTo.run {control : Control} (h : m.ComesTo s below depth control) :
    ∃ n w, ∀ k, m.run (n + k) s = m.run k ⟨w, below, control, depth⟩ := by
  obtain ⟨fuel, w, hrun⟩ := h
  obtain ⟨n, -, hmore⟩ := run_of_runDown hrun
  exact ⟨n, w, hmore⟩

end

end Machine

/-! ## Memory -/

/-- Where the variables of an activation are kept. -/
structure Memory where
  /-- The local variables. -/
  locals : Array Value
  /-- The environments. -/
  envs : Environments

namespace Memory

/-- The value in a place; the environment is the innermost one. -/
def read? (env : Option EnvId) (μ : Memory) : VarSlot → Option Value
  | .frame i => μ.locals[i]?
  | .env i => env.bind fun id => μ.envs.slot? id i
  | .global => none

/-- What a place in an environment holds is in a slot of the innermost one. -/
theorem slot?_of_read? {env : Option EnvId} {μ : Memory} {slot : Nat} {v : Value}
    (h : μ.read? env (.env slot) = some v) :
    ∃ id, env = some id ∧ (env.bind fun id => μ.envs.ancestor? id 0) = some id ∧
      μ.envs.slot? id slot = some v := by
  obtain ⟨id, rfl, hslot⟩ := Option.bind_eq_some_iff.mp h
  obtain ⟨E, hE, -⟩ := Option.bind_eq_some_iff.mp hslot
  exact ⟨id, rfl, Environments.ancestor?_zero hE, hslot⟩

/-- Puts a value in a place. -/
def write (env : Option EnvId) (μ : Memory) (place : VarSlot) (v : Value) : Memory :=
  match place, env with
  | .frame i, _ => { μ with locals := μ.locals.setIfInBounds i v }
  | .env i, some id => { μ with envs := μ.envs.setSlot id i v }
  | .env _, none | .global, _ => μ

/-- **A place that was written** has the new value, and all others have what they had. -/
theorem read?_write {env : Option EnvId} {μ : Memory} {place : VarSlot} {old : Value}
    (h : μ.read? env place = some old) (v : Value) (other : VarSlot) :
    (μ.write env place v).read? env other = if other = place then some v else μ.read? env other := by
  cases place with
  | frame i =>
    obtain ⟨hi, -⟩ := Array.getElem?_eq_some_iff.mp h
    cases other with
    | frame j =>
      simp only [write, read?, Array.getElem?_setIfInBounds, VarSlot.frame.injEq]
      by_cases hij : i = j
      · subst hij
        simp [hi]
      · simp [hij, Ne.symm hij]
    | env j => rfl
    | global => rfl
  | env i =>
    rcases env with _ | id
    · cases h
    · have hslot : μ.envs.hasSlot id i = true := by
        rw [Environments.hasSlot, show μ.envs.slot? id i = some old from h]
        rfl
      cases other with
      | frame j => rfl
      | env j =>
        simp only [write, read?, Option.bind_some, Environments.slot?_setSlot, hslot, VarSlot.env.injEq]
        simp
      | global => rfl
  | global => cases h

/-- The memory has the values of a store, for the variables of a scope. -/
def Holds (t : ScopeTable) (s : ScopeId) (env : Option EnvId) (μ : Memory) (σ : Store) : Prop :=
  ∀ (v : VarId) V, t.vars[v.index]? = some V → V.scope = s →
    ∃ x, μ.read? env (t.slotOf v) = some x ∧ x.Same (σ v)

end Memory

/-- A name that stands for a variable of a scope. -/
theorem ScopeTable.owns_iff {t : ScopeTable} {s : ScopeId} {x : Identifier} :
    t.owns s x = true ↔ ∃ u V, x.var = some u ∧ t.vars[u.index]? = some V ∧ V.scope = s := by
  simp [owns, Option.any_eq_true]

/-- **A variable is written.** -/
theorem Memory.Holds.write {t : ScopeTable} {s : ScopeId} {env : Option EnvId} {μ : Memory} {σ : Store}
    (h : μ.Holds t s env σ) (ht : t.Placed) (hs : s ≠ .global) {u : VarId} {V : Variable}
    (hV : t.vars[u.index]? = some V) (hscope : V.scope = s) {x y : Value} (hxy : x.Same y) :
    (μ.write env (t.slotOf u) x).Holds t s env (Function.update σ u y) := by
  intro v W hW hscope'
  obtain ⟨old, hold, -⟩ := h u V hV hscope
  rw [Memory.read?_write hold]
  by_cases huv : v = u
  · subst huv
    refine ⟨x, if_pos rfl, ?_⟩
    rwa [Function.update_self]
  · have hlocal : W.storage ≠ .global := fun hg => hs (hscope' ▸ ht.globals _ W hW hg)
    rw [Function.update_of_ne huv,
      if_neg fun heq => huv (ht.slotOf_inj hW hV (hscope'.trans hscope.symm) hlocal heq)]
    exact h v W hW hscope'

/-! ## Settings -/

/-- What does not change while an activation runs, but for the environments of the world and for where the
frame stands. -/
structure Setting where
  /-- The machine. -/
  machine : Machine
  /-- What the unit was made after. -/
  blueprint : Blueprint
  /-- The code. -/
  function : CodeFunction
  /-- What the code was made of. -/
  source : Source
  /-- The world at the start. -/
  world : World
  /-- The frame at the start. -/
  frame : Frame
  /-- The frames below. -/
  below : List Frame
  /-- The count of activations below. -/
  depth : Nat

namespace Setting

/-- The code is that of the frame's function, and every variable has a place of its own. -/
structure Valid (S : Setting) : Prop where
  /-- The code is that of the frame's function. -/
  code : ∃ u, S.machine.code S.frame.unit S.frame.index = .ok (u, S.function) ∧ u.pool = S.blueprint.pool
  /-- Every scope lies in an earlier one. -/
  nested : S.blueprint.table.Nested
  /-- Every variable has a place of its own. -/
  placed : S.blueprint.table.Placed
  /-- The scope is not that of the program. -/
  isLocal : S.source.scope ≠ .global
  /-- The function is not the program. -/
  isFunction : S.source.isProgram = false

/-- What is fixed while the function is generated. -/
def context (S : Setting) : GenContext := S.blueprint.context S.source

/-- A name that stands for a variable of the function. -/
def owns (S : Setting) (x : Identifier) : Bool := S.blueprint.table.owns S.source.scope x

/-- The variables have the values of a store. -/
def Holds (S : Setting) (μ : Memory) (σ : Store) : Prop :=
  μ.Holds S.blueprint.table S.source.scope S.frame.env σ

/-- The state of a run that stands somewhere in the activation. -/
def state (S : Setting) (μ : Memory) (ip : Nat) (stack : List Value) (handlers : List Handler)
    (control : Control) : State :=
  ⟨{ S.world with envs := μ.envs }, { S.frame with ip, stack, locals := μ.locals, handlers } :: S.below,
    control, S.depth + 1⟩

/-- The state of a run that executes the next instruction of the activation. -/
def ready (S : Setting) (μ : Memory) (ip : Nat) (stack : List Value) (handlers : List Handler) : State :=
  S.state μ ip stack handlers .execute

/-- A number of steps lead from one state to another, and the activation is not left before. -/
def Goes (S : Setting) (n : Nat) (s s' : State) : Prop := S.machine.Goes S.below.length n s s'

/-! ## Instructions -/

section

variable {S : Setting} {μ : Memory} {a b : Nat} {stack : List Value} {handlers : List Handler}

/-- The turn of an instruction at some place. -/
def turn (S : Setting) (μ : Memory) (b : Nat) (stack : List Value) (handlers : List Handler)
    (i : Instruction) : Turn :=
  S.machine.execute { S.world with envs := μ.envs }
    { S.frame with ip := b, stack, locals := μ.locals, handlers } i

/-- **One instruction is executed.** -/
theorem Valid.goes (h : S.Valid) {i : Instruction} (hat : S.blueprint.at S.function i a b) {s : State}
    (hs : (⟨(S.turn μ b stack handlers i).world, (S.turn μ b stack handlers i).frame :: S.below,
      (S.turn μ b stack handlers i).control, S.depth + 1⟩ : State) = s) :
    S.Goes 1 (S.ready μ a stack handlers) s := by
  obtain ⟨u, hcode, hpool⟩ := h.code
  have hread : Instruction.read u.pool S.function a = .ok (some (i, b)) := by
    rw [hpool]
    exact hat
  exact Machine.goes_instruction (f := { S.frame with ip := a, stack, locals := μ.locals, handlers }) hcode hread hs

/-- The scope of the function is there if there is a variable in it. -/
theorem Valid.inside (h : S.Valid) {i : Nat} {V : Variable} (hV : S.blueprint.table.vars[i]? = some V)
    (hscope : V.scope = S.source.scope) : S.source.scope.index < S.blueprint.table.scopes.size := by
  rw [← hscope]
  exact h.placed.inside hV fun hglobal => h.isLocal (hscope ▸ h.placed.globals i V hV hglobal)

/-- The environment of a variable of the function is the innermost one. -/
theorem Valid.envDepth? (h : S.Valid) {u : VarId} {V : Variable}
    (hV : S.blueprint.table.vars[u.index]? = some V) (hscope : V.scope = S.source.scope) :
    S.blueprint.table.envDepth? S.source.scope (S.blueprint.table.var u).scope = some 0 := by
  rw [ScopeTable.var, hV, Option.getD_some, hscope]
  exact h.nested.envDepth?_self (h.inside hV hscope)

/-- **A variable is read.** -/
theorem Valid.goes_load (h : S.Valid) (stack : List Value) (handlers : List Handler) {σ : Store}
    (hσ : S.Holds μ σ) {x : Identifier} (hx : S.owns x = true)
    (hat : S.blueprint.atSome S.function (S.context.loadOf? x) a b) :
    ∃ u v, x.var = some u ∧ v.Same (σ u) ∧
      S.Goes 1 (S.ready μ a stack handlers) (S.ready μ b (v :: stack) handlers) := by
  obtain ⟨u, V, hu, hV, hscope⟩ := ScopeTable.owns_iff.mp hx
  obtain ⟨v, hread, hsame⟩ := hσ u V hV hscope
  obtain ⟨i, hi, hat⟩ := hat
  refine ⟨u, v, hu, hsame, h.goes hat ?_⟩
  simp only [GenContext.loadOf?, hu, Option.bind_some, context, Blueprint.context,
    h.envDepth? hV hscope] at hi
  rcases hslot : S.blueprint.table.slotOf u with k | k | _
  · simp only [hslot, Option.some.injEq] at hi hread
    subst hi
    simp only [turn, Machine.execute, Turn.getLocal, show μ.locals[k]? = some v from hread]
    rfl
  · simp only [hslot, Option.map_some, Option.some.injEq] at hi hread
    subst hi
    obtain ⟨id, -, hancestor, hslot⟩ := Memory.slot?_of_read? hread
    simp only [turn, Machine.execute, Turn.getEnv, hancestor, Environments.getSlot, hslot, Option.getD_some]
    rfl
  · simp only [hslot] at hread
    cases hread

/-- **A variable is written**; the value stays on the stack. -/
theorem Valid.goes_store (h : S.Valid) (stack : List Value) (handlers : List Handler) {σ : Store}
    (hσ : S.Holds μ σ) {x : Identifier} (hx : S.owns x = true)
    (hat : S.blueprint.atSome S.function (S.context.storeOf? x) a b) {v y : Value} (hv : v.Same y) :
    ∃ σ' μ', σ.assign x y = some σ' ∧ S.Holds μ' σ' ∧
      S.Goes 1 (S.ready μ a (v :: stack) handlers) (S.ready μ' b (v :: stack) handlers) := by
  obtain ⟨u, V, hu, hV, hscope⟩ := ScopeTable.owns_iff.mp hx
  obtain ⟨old, hread, -⟩ := hσ u V hV hscope
  obtain ⟨i, hi, hat⟩ := hat
  refine ⟨Function.update σ u y, μ.write S.frame.env (S.blueprint.table.slotOf u) v, ?_,
    hσ.write h.placed h.isLocal hV hscope hv, h.goes hat ?_⟩
  · rw [Store.assign, hu]
    rfl
  simp only [GenContext.storeOf?, hu, Option.bind_some, context, Blueprint.context,
    h.envDepth? hV hscope] at hi
  rcases hslot : S.blueprint.table.slotOf u with k | k | _
  · simp only [hslot, Option.some.injEq] at hi hread
    subst hi
    obtain ⟨hk, -⟩ := Array.getElem?_eq_some_iff.mp hread
    simp only [turn, Machine.execute, Turn.setLocal, hk, if_true]
    rfl
  · simp only [hslot, Option.map_some, Option.some.injEq] at hi hread
    subst hi
    obtain ⟨id, henv, hancestor, hslot⟩ := Memory.slot?_of_read? hread
    have hwrite : μ.write S.frame.env (.env k) v = { μ with envs := μ.envs.setSlot id k v } := by
      rw [henv]
      rfl
    simp only [turn, Machine.execute, Turn.setEnv, hancestor, Environments.hasSlot, hslot, Option.isSome_some,
      if_true, hwrite]
    rfl
  · simp only [hslot] at hread
    cases hread

end

end Setting

end ScriptEngine
