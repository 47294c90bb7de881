import ScriptEngine.Engine
import ScriptEngine.Proofs.Machine.Lookup
import ScriptEngine.Proofs.Structured.Execution

/-!
# Functions of the structured part are compiled correctly

An activation of a function of the structured part comes to what evaluation of the function's analyzed tree
says: it returns what evaluation returns, it fails with what evaluation throws, and it runs for ever if
evaluation never comes to an end. `Blueprint.Lays.answers` follows one activation from its start to its end.
The main statement is `compile_structured`.
-/

namespace ScriptEngine

/-! ## The start of a function -/

section

variable {t : ScopeTable} {s : ScopeId} {env : Option EnvId} {μ : Memory}

/-- **A variable is `undefined` at the start**, whether it is kept in an environment or in the frame. -/
theorem Memory.read?_start (ht : t.Placed) {v : VarId} {V : Variable} (hV : t.vars[v.index]? = some V)
    (hlocal : V.storage ≠ .global) {function : CodeFunction}
    (hcount : (t.layout V.scope).localCount ≤ function.localCount)
    (hnames : function.envNames = (t.layout V.scope).envNames) (around : Option EnvId) (envs : Environments) :
    Memory.read? (Frame.ownEnv function around envs).1
      ⟨Array.replicate function.localCount .undefined, (Frame.ownEnv function around envs).2⟩ (t.slotOf v) =
      some .undefined := by
  have hvar : t.var v = V := by simp [ScopeTable.var, hV]
  rw [ScopeTable.slotOf, hvar]
  rcases hstorage : V.storage with _ | _ | _
  · have hslot : V.slot < function.localCount := Nat.lt_of_lt_of_le (ht.frame v.index V hV hstorage) hcount
    simp [read?, hslot]
  · have hslot : function.envNames[V.slot]? = some V.name := hnames ▸ ht.env v.index V hV hstorage
    obtain ⟨hlt, -⟩ := Array.getElem?_eq_some_iff.mp hslot
    have hneeds : function.needsEnv = true := by
      rw [CodeFunction.needsEnv, Bool.not_eq_true', Array.isEmpty_eq_false_iff]
      exact Array.ne_empty_of_size_pos (Nat.zero_lt_of_lt hlt)
    simp [Frame.ownEnv, hneeds, read?, Environments.slot?, Environments.pushVariables, Environments.get?,
      Environments.push, hlt]
  · exact absurd hstorage hlocal

/-- **At the start all variables of a function are `undefined`.** -/
theorem Memory.holds_undefined (ht : t.Placed) (hs : s ≠ .global) {function : CodeFunction}
    (hcount : function.localCount = (t.layout s).localCount)
    (hnames : function.envNames = (t.layout s).envNames) (around : Option EnvId) (envs : Environments) :
    Memory.Holds t s (Frame.ownEnv function around envs).1
      ⟨Array.replicate function.localCount .undefined, (Frame.ownEnv function around envs).2⟩
      fun _ => .undefined := by
  rintro v V hV rfl
  have hlocal : V.storage ≠ .global := fun hglobal => hs (ht.globals v.index V hV hglobal)
  exact ⟨.undefined, read?_start ht hV hlocal (Nat.le_of_eq hcount.symm) hnames around envs, .refl _⟩

/-- The first parameter gets its argument, and the others theirs. -/
theorem Memory.bindArgs_cons (env : Option EnvId) (slot : VarSlot) (slots : List VarSlot) (args : List Value)
    (μ : Memory) : Frame.bindArgs env (slot :: slots) args μ.locals μ.envs =
      Frame.bindArgs env slots args.tail (μ.write env slot (args.headD .undefined)).locals
        (μ.write env slot (args.headD .undefined)).envs := by
  cases slot <;> cases env <;> rfl

/-- **The parameters get the arguments.** -/
theorem Memory.Holds.bindArgs {σ : Store} (h : μ.Holds t s env σ) (ht : t.Placed) (hs : s ≠ .global)
    {params : List Identifier} (hparams : params.all (t.owns s) = true) {vars : List VarId}
    (hvars : params.map Identifier.var = vars.map some) (args : List Value) :
    ∃ σ', σ.bindParams params args = some σ' ∧
      Memory.Holds t s env ⟨(Frame.bindArgs env (vars.map t.slotOf) args μ.locals μ.envs).1,
        (Frame.bindArgs env (vars.map t.slotOf) args μ.locals μ.envs).2⟩ σ' := by
  induction params generalizing vars args μ σ with
  | nil =>
    obtain rfl := List.map_eq_nil_iff.mp hvars.symm
    exact ⟨σ, rfl, h⟩
  | cons x params ih =>
    obtain ⟨hx, hparams⟩ := Bool.and_eq_true_iff.mp hparams
    cases vars with
    | nil => cases hvars
    | cons u vars =>
      obtain ⟨hu, hrest⟩ := List.cons.inj hvars
      obtain ⟨u', V, hu', hV, hscope⟩ := ScopeTable.owns_iff.mp hx
      obtain rfl : u' = u := Option.some.inj (hu'.symm.trans hu)
      have hwritten := h.write ht hs hV hscope (.refl (args.headD .undefined))
      obtain ⟨σ', hσ', hholds⟩ := ih hwritten hparams hrest args.tail
      refine ⟨σ', ?_, ?_⟩
      · rw [Store.bindParams, Store.assign, hu]
        exact hσ'
      · rw [List.map_cons, Memory.bindArgs_cons]
        exact hholds

end

namespace Setting

variable {S : Setting} {a b : Nat} {μ : Memory} {handlers : List Handler} {stack : List Value}

/-- A function expression keeps itself in the variable of its name, if it has one. -/
theorem Valid.goes_ownName (h : S.Valid) (stack : List Value) (handlers : List Handler)
    (hname : (S.source.isDeclaration || S.source.name.all fun x => x.var.isNone || S.owns x) = true)
    (hat : Laid.ownName S.blueprint S.function S.context S.source a b) {σ : Store} (hσ : S.Holds μ σ) :
    ∃ σ' μ' n, S.source.bindName? S.frame.callee σ = some σ' ∧ S.Holds μ' σ' ∧
      S.Goes n (S.ready μ a stack handlers) (S.ready μ' b stack handlers) := by
  have hnothing : Stretch.empty a b → some σ = S.source.bindName? S.frame.callee σ →
      ∃ σ' μ' n, S.source.bindName? S.frame.callee σ = some σ' ∧ S.Holds μ' σ' ∧
        S.Goes n (S.ready μ a stack handlers) (S.ready μ' b stack handlers) := by
    rintro rfl hsame
    exact ⟨σ, μ, 0, hsame.symm, hσ, Machine.Goes.refl _ _ _⟩
  cases hdecl : S.source.isDeclaration with
  | true =>
    simp only [Laid.ownName, hdecl] at hat
    exact hnothing hat (by simp only [Source.bindName?, hdecl])
  | false =>
    cases hx : S.source.name with
    | none =>
      simp only [Laid.ownName, hdecl, hx] at hat
      exact hnothing hat (by simp only [Source.bindName?, hdecl, hx])
    | some x =>
      simp only [Laid.ownName, hdecl, hx] at hat
      by_cases hvar : x.var.isSome = true
      · have howns : S.owns x = true := by
          obtain ⟨u, hu⟩ := Option.isSome_iff_exists.mp hvar
          simpa [hdecl, hx, hu] using hname
        rw [if_pos hvar] at hat
        obtain ⟨k, hcallee, k', hstore, hpop⟩ := hat
        have hgo : S.Goes 1 (S.ready μ a stack handlers) (S.ready μ k (S.frame.callee :: stack) handlers) :=
          h.goes hcallee rfl
        obtain ⟨σ', μ', hassign, hσ', hgo'⟩ := h.goes_store stack handlers hσ howns hstore (.refl S.frame.callee)
        refine ⟨σ', μ', 1 + 1 + 1, ?_, hσ', (hgo.trans hgo').trans (h.goes hpop rfl)⟩
        simp only [Source.bindName?, hdecl, hx, hvar, if_true, hassign]
      · rw [if_neg hvar] at hat
        exact hnothing hat (by simp only [Source.bindName?, hdecl, hx, if_neg hvar])

/-! ## The end of a function -/

/-- A function that returns leaves the value to the frames below. -/
theorem comesTo_of_ret {n ip : Nat} {s : State} {v : Value}
    (hgo : S.Goes n s (S.state μ ip stack handlers (.ret v))) :
    S.machine.ComesTo s S.below S.depth (.deliver S.frame.resume v) := by
  have hleft : S.Goes 1 (S.state μ ip stack handlers (.ret v))
      ⟨{ S.world with envs := μ.envs }, S.below, .deliver S.frame.resume v, S.depth⟩ :=
    Machine.Goes.step (by simp [state]) rfl
  exact ⟨_, _, (hgo.trans hleft).runDown (Nat.le_refl _)⟩

/-- What is thrown without a handler comes to the frames below. -/
theorem comesTo_of_raise {n ip : Nat} {s : State} {v : Value}
    (hgo : S.Goes n s (S.state μ ip stack [] (.raise (.thrown v)))) :
    S.machine.ComesTo s S.below S.depth (.raise (.thrown v)) := by
  have hleft : S.Goes 1 (S.state μ ip stack [] (.raise (.thrown v)))
      ⟨{ S.world with envs := μ.envs }, S.below, .raise (.thrown v), S.depth⟩ :=
    Machine.Goes.step (by simp [state]) rfl
  exact ⟨_, _, (hgo.trans hleft).runDown (Nat.le_refl _)⟩

end Setting

/-- What comes next in the frames below an activation tells what a call comes to. -/
inductive Resume.Tells (resume : Resume) : Control → Except Value Value → Prop where
  /-- A value is returned. -/
  | returned {v y : Value} (h : v.Same y) : Tells resume (.deliver resume v) (.ok y)
  /-- A value is thrown. -/
  | thrown {v y : Value} (h : v.Same y) : Tells resume (.raise (.thrown v)) (.error y)

/-- The run of an activation answers what evaluation says within a number of turns; if that is nothing, the
run has not ended within as many steps. -/
def Machine.Answers (m : Machine) (s : State) (below : List Frame) (depth : Nat) (resume : Resume)
    (turns : Nat) : Option (Except Value Value) → Prop
  | none => m.runDown below.length turns s = none
  | some r => ∃ control, m.ComesTo s below depth control ∧ resume.Tells control r

namespace Setting

variable {S : Setting} {a b : Nat} {μ : Memory}

/-- **A function ends** as its statements do, and at its end it returns `undefined`. -/
theorem Valid.answers (h : S.Valid) {turns : Nat} {s : State} {ended : Ending}
    (hdoes : S.Does turns s a [] [] ended) (hat : S.blueprint.at S.function .retUndefined a b) :
    S.machine.Answers s S.below S.depth S.frame.resume turns (ended.map fun r => r.1.answer) := by
  rcases ended with _ | ⟨c, σ⟩
  · obtain ⟨n, s', hle, hgo⟩ := hdoes
    exact Machine.Goes.runDown_none hgo hle
  · obtain ⟨n, s', μ, hσ, hlands, hgo⟩ := hdoes
    cases hlands with
    | normal =>
      have hend : S.Goes 1 (S.ready μ a [] []) (S.state μ b [] [] (.ret .undefined)) := h.goes hat rfl
      exact ⟨_, comesTo_of_ret (hgo.trans hend), .returned (.refl _)⟩
    | ret ip inner hv => exact ⟨_, comesTo_of_ret hgo, .returned hv⟩
    | throw ip hv => exact ⟨_, comesTo_of_raise hgo, .thrown hv⟩

end Setting

/-! ## Hoisting -/

section

variable {U : Blueprint} {F : CodeFunction} {c : GenContext} {t : ScopeTable} {s : ScopeId}
variable {isLowered : Bool} {withs a b : Nat}

/-- Statements that declare no functions have no code that makes them. -/
theorem laidHoistedAll_empty {ns : List Node}
    (h : ∀ n ∈ ns, ∀ {a b : Nat}, LaidHoisted U F c isLowered withs n a b → a = b)
    (hat : LaidHoistedAll U F c isLowered withs ns a b) : a = b := by
  induction ns generalizing a with
  | nil => exact hat
  | cons n ns ih =>
    obtain ⟨k, hn, hns⟩ := hat
    exact (h n List.mem_cons_self hn).trans (ih (fun n hn => h n (List.mem_cons_of_mem _ hn)) hns)

/-- **No functions are declared** in the structured part. -/
theorem laidHoisted_empty {n : Node} (hn : n.isStructured t s = true)
    (hat : LaidHoisted U F c isLowered withs n a b) : a = b := by
  induction n using Node.sizeInduction generalizing a b with
  | step n ih =>
    cases n with
    | block i statements =>
      refine laidHoistedAll_empty (fun n hmem a b hat => ih n ?_ ?_ hat) hat
      · have := List.sizeOf_lt_of_mem hmem
        decreasing_tactic
      · exact structuredAll_iff.mp hn n hmem
    | cond i condition thenBranch elseBranch =>
      obtain ⟨hboth, helse⟩ := Bool.and_eq_true_iff.mp hn
      obtain ⟨-, hthen⟩ := Bool.and_eq_true_iff.mp hboth
      obtain ⟨k, hat, hat'⟩ := hat
      refine (ih thenBranch (by decreasing_tactic) hthen hat).trans ?_
      cases elseBranch with
      | none => exact hat'
      | some elseBranch => exact ih elseBranch (by decreasing_tactic) helse hat'
    | loop i condition body =>
      obtain ⟨-, hbody⟩ := Bool.and_eq_true_iff.mp hn
      exact ih body (by decreasing_tactic) hbody hat
    | tryCatch i block param handler =>
      obtain ⟨hboth, hhandler⟩ := Bool.and_eq_true_iff.mp hn
      obtain ⟨hblock, -⟩ := Bool.and_eq_true_iff.mp hboth
      obtain ⟨k, hat, hat'⟩ := hat
      exact (ih block (by decreasing_tactic) hblock hat).trans
        (ih handler (by decreasing_tactic) hhandler hat')
    | function => cases hn
    | _ => exact hat

end

/-! ## Whole activations -/

namespace Setting

variable {S : Setting} {μ : Memory}

/-- **One activation, from its start to its end.** -/
theorem Valid.answers_body (h : S.Valid) (hlays : S.blueprint.Lays S.function S.source)
    (hstructured : S.source.isStructured S.blueprint.table = true) {σ : Store} (hσ : S.Holds μ σ)
    (turns : Nat) :
    ∃ σ', S.source.bindName? S.frame.callee σ = some σ' ∧
      S.machine.Answers (S.ready μ 0 [] []) S.below S.depth S.frame.resume turns
        ((execAll? S.world.heap turns S.source.body σ').map fun r => r.1.answer) := by
  simp only [Source.isStructured, Bool.and_eq_true] at hstructured
  obtain ⟨⟨-, hname⟩, hbody⟩ := hstructured
  obtain ⟨b, hcode⟩ := hlays.code
  simp only [Laid.code, h.isFunction] at hcode
  obtain ⟨k, hownName, k', ⟨k'', hhoisted, hstatements⟩, hend⟩ := hcode
  obtain rfl : k = k'' := laidHoistedAll_empty
    (fun n hn a b hat => laidHoisted_empty (structuredAll_iff.mp hbody n hn) hat) hhoisted
  obtain ⟨σ', μ', n, hbind, hσ', hgo⟩ := h.goes_ownName [] [] hname hownName hσ
  refine ⟨σ', hbind, h.answers (Does.before ?_ hgo) hend⟩
  exact performs_all (fun n hn => h.performs (structuredAll_iff.mp hbody n hn) _ _ turns) [] [] hstatements hσ'

end Setting

/-- **A call** of a function that was made of a source does what evaluation of the source says. -/
theorem Blueprint.Lays.answers {U : Blueprint} {F : CodeFunction} {src : Source} (hlays : U.Lays F src)
    (hnested : U.table.Nested) (hplaced : U.table.Placed) (hlocal : src.scope ≠ .global)
    (hstructured : src.isStructured U.table = true) {m : Machine} {c : Closure} {u : CodeUnit}
    (hcode : m.code c.unit c.index = .ok (u, F)) (hpool : u.pool = U.pool) (w : World) (below : List Frame)
    (depth : Nat) (callee this : Value) (args : List Value) (resume : Resume) :
    ∃ s, m.activate? w below depth callee c this args resume = some s ∧
      ∀ turns, m.Answers s below depth resume turns (src.evaluate? w.heap turns callee args) := by
  have hparts := hstructured
  simp only [Source.isStructured, Bool.and_eq_true, Bool.not_eq_true'] at hparts
  obtain ⟨⟨⟨hfunction, hparams⟩, -⟩, -⟩ := hparts
  obtain ⟨vars, hvars, hslots⟩ := hlays.params
  have hcount : F.localCount = (U.table.layout src.scope).localCount := by
    simpa [hfunction] using hlays.localCount
  have hstart := Memory.holds_undefined hplaced hlocal hcount hlays.envNames c.env w.envs
  obtain ⟨σ, hbound, hholds⟩ := hstart.bindArgs hplaced hlocal hparams hvars args
  rw [← hslots] at hholds
  let start := Frame.activate F c callee this args resume w.envs
  let S : Setting :=
    { machine := m, blueprint := U, function := F, source := src, world := { w with envs := start.2 },
      frame := start.1, below, depth }
  have hvalid : S.Valid := ⟨⟨u, hcode, hpool⟩, hnested, hplaced, hlocal, hfunction⟩
  have hσ : S.Holds ⟨start.1.locals, start.2⟩ σ := hholds
  refine ⟨S.ready ⟨start.1.locals, start.2⟩ 0 [] [], ?_, fun turns => ?_⟩
  · rw [Machine.activate?, hcode]
    rfl
  · obtain ⟨σ', hbind, hanswers⟩ := hvalid.answers_body hlays hstructured hσ turns
    have hstore : src.store? callee args = some σ' := by
      rw [Source.store?, hbound]
      exact hbind
    rw [Source.evaluate?_eq hstore]
    exact hanswers

/-! ## Compiled functions -/

/-- The scope of a function is none of the program. -/
theorem Program.Scoping.isLocal {p : Program} {T : ScopeTable} (h : p.Scoping T) {src : Source}
    (hsrc : HasSite src p.sites) : src.scope ≠ .global := by
  obtain ⟨Γ, L, hmem, hscope⟩ := hsrc
  exact hscope ▸ h.scope_ne_global hmem

/-- The scope of a function of a compiled program is none of the program. -/
theorem compile_isLocal {p p' : Program} {c : Compilation} (h : compile p = (.ok c, p')) {src : Source}
    (hsrc : src ∈ p'.sources) (hfunction : src.isProgram = false) : src.scope ≠ .global := by
  obtain ⟨a, ha, hok, -⟩ := compile_eq_ok h
  obtain ⟨t, -, hwalk⟩ := Analyzer.program_analyzes ha hok
  obtain rfl | hsite := hwalk.source hsrc
  · cases hfunction
  · exact (Analyzer.program_scoping ha hok).isLocal hsite

section

variable {m : Machine} {s : State} {below : List Frame} {depth : Nat} {resume : Resume}
variable {eval : Nat → Option (Except Value Value)}
  (h : ∀ turns, m.Answers s below depth resume turns (eval turns))
include h

/-- Evaluation says what the run comes to. -/
theorem Machine.ComesTo.evaluates {control : Control} (hcomes : m.ComesTo s below depth control) :
    ∃ turns r, eval turns = some r ∧ resume.Tells control r := by
  obtain ⟨fuel, w, hrun⟩ := hcomes
  have hanswer := h fuel
  rcases heval : eval fuel with _ | r
  · rw [heval] at hanswer
    rw [show m.runDown below.length fuel s = none from hanswer] at hrun
    cases hrun
  · rw [heval] at hanswer
    obtain ⟨control', hcomes', htells⟩ := hanswer
    obtain rfl := hcomes'.unique ⟨fuel, w, hrun⟩
    exact ⟨fuel, r, heval, htells⟩

/-- The run comes to what evaluation says. -/
theorem Machine.comesTo_of_eval {turns : Nat} {r : Except Value Value} (heval : eval turns = some r) :
    ∃ control, m.ComesTo s below depth control ∧ resume.Tells control r := by
  have hanswer := h turns
  rwa [heval] at hanswer

/-- **The run returns** what evaluation returns. -/
theorem Machine.returns_iff (v : Value) : (∃ v', v'.Same v ∧ m.ComesTo s below depth (.deliver resume v')) ↔
    ∃ turns v', v'.Same v ∧ eval turns = some (.ok v') := by
  constructor
  · rintro ⟨v', hv', hcomes⟩
    obtain ⟨turns, r, heval, htells⟩ := hcomes.evaluates h
    cases htells with
    | returned hv => exact ⟨turns, _, hv.symm.trans hv', heval⟩
  · rintro ⟨turns, y, hy, heval⟩
    obtain ⟨control, hcomes, htells⟩ := comesTo_of_eval h heval
    cases htells with
    | returned hv => exact ⟨_, hv.trans hy, hcomes⟩

/-- **The run fails** with what evaluation throws. -/
theorem Machine.throws_iff (v : Value) : (∃ v', v'.Same v ∧ m.ComesTo s below depth (.raise (.thrown v'))) ↔
    ∃ turns v', v'.Same v ∧ eval turns = some (.error v') := by
  constructor
  · rintro ⟨v', hv', hcomes⟩
    obtain ⟨turns, r, heval, htells⟩ := hcomes.evaluates h
    cases htells with
    | thrown hv => exact ⟨turns, _, hv.symm.trans hv', heval⟩
  · rintro ⟨turns, y, hy, heval⟩
    obtain ⟨control, hcomes, htells⟩ := comesTo_of_eval h heval
    cases htells with
    | thrown hv => exact ⟨_, hv.trans hy, hcomes⟩

/-- **The run never ends** if evaluation does not. -/
theorem Machine.diverges_iff : (∀ fuel, m.runDown below.length fuel s = none) ↔ ∀ turns, eval turns = none := by
  constructor
  · intro hnever turns
    rcases heval : eval turns with _ | r
    · rfl
    · obtain ⟨control, ⟨fuel, w, hrun⟩, -⟩ := comesTo_of_eval h heval
      rw [hnever fuel] at hrun
      cases hrun
  · intro hnever fuel
    have hanswer := h fuel
    rw [hnever fuel] at hanswer
    exact hanswer

end

/-- **Compiled functions do what evaluation of their analyzed trees says.** Take a function of a program that
compiles, whose body consists of blocks, variable statements, expression statements, conditionals, loops,
`throw`, `try` and `return`, over expressions of literals, operators and the function's own variables. Call it
in any world, over any frames, at any depth, with any arguments. Its activation returns a value just if
evaluation returns it, it fails with a value that was thrown just if evaluation throws it, and it runs for ever
just if evaluation never ends, however many turns loops may take. Values are told apart but for the payload of a
NaN, which no operator sees. -/
theorem compile_structured {p p' : Program} {comp : Compilation} (hc : compile p = (.ok comp, p'))
    {m : Machine} {c : Closure} (hu : m.units[c.unit]? = some comp.unit) {src : Source}
    (hsrc : p'.sources[c.index]? = some src) (hstructured : src.isStructured comp.scopes = true) (w : World)
    (below : List Frame) (depth : Nat) (callee this : Value) (args : List Value) (resume : Resume) :
    ∃ s, m.activate? w below depth callee c this args resume = some s ∧
      (∀ v, (∃ v', v'.Same v ∧ m.ComesTo s below depth (.deliver resume v')) ↔
        ∃ turns v', v'.Same v ∧ src.evaluate? w.heap turns callee args = some (.ok v')) ∧
      (∀ v, (∃ v', v'.Same v ∧ m.ComesTo s below depth (.raise (.thrown v'))) ↔
        ∃ turns v', v'.Same v ∧ src.evaluate? w.heap turns callee args = some (.error v')) ∧
      ((∀ fuel, m.runDown below.length fuel s = none) ↔
        ∀ turns, src.evaluate? w.heap turns callee args = none) := by
  obtain ⟨a, ha, hok, hscopes, hgenerate⟩ := compile_eq_ok hc
  have hvalid := (Analyzer.program_scoping ha hok).rooted.valid
  obtain ⟨-, hnested, hplaced, -⟩ := ScopeTable.placed_finish hvalid
  obtain ⟨-, -, hlays⟩ := Blueprint.lays_of_generate hgenerate
  obtain ⟨F, hF, hlays⟩ := hlays c.index src hsrc
  have hfunction : src.isProgram = false := by
    simp only [Source.isStructured, Bool.and_eq_true, Bool.not_eq_true'] at hstructured
    exact hstructured.1.1.1
  have hcode : m.code c.unit c.index = .ok (comp.unit, F) := by
    rw [Machine.code, hu]
    simp only [CodeUnit.function?, hF]
  rw [← Analyzer.finish, ← hscopes] at hnested hplaced
  obtain ⟨s, hs, hanswers⟩ := hlays.answers hnested hplaced
    (compile_isLocal hc (List.mem_of_getElem? hsrc) hfunction) hstructured hcode rfl w below depth callee this
    args resume
  exact ⟨s, hs, Machine.returns_iff hanswers, Machine.throws_iff hanswers, Machine.diverges_iff hanswers⟩

/-- A function with a loop whose body throws, and catches what it has thrown and returns. -/
def returnsFromHandler : Program :=
  ⟨[.function .none none []
      [.loop .none (.literal .none (.bool true))
        (.tryCatch .none (.block .none [.throw .none (.literal .none .null)]) (some (.definition "e"))
          (.block .none [.ret .none (some (.literal .none (.bool false)))]))] false none], none, false⟩

/-- The activation of this function comes to returning `false`. -/
theorem compile_structured_returnsFromHandler :
    let m := ((Engine.create {}).compile returnsFromHandler).2.machine
    ∃ src s, (compile returnsFromHandler).2.sources[0]? = some src ∧
      m.activate? {} [] 0 .undefined ⟨0, 0, none⟩ .undefined [] .push = some s ∧
      (∃ v', v'.Same (.bool false) ∧ m.ComesTo s [] 0 (.deliver .push v')) ∧
      (∀ v, (∃ v', v'.Same v ∧ m.ComesTo s [] 0 (.deliver .push v')) ↔
        ∃ turns v', v'.Same v ∧ src.evaluate? {} turns .undefined [] = some (.ok v')) ∧
      (∀ v, (∃ v', v'.Same v ∧ m.ComesTo s [] 0 (.raise (.thrown v'))) ↔
        ∃ turns v', v'.Same v ∧ src.evaluate? {} turns .undefined [] = some (.error v')) ∧
      ((∀ fuel, m.runDown 0 fuel s = none) ↔ ∀ turns, src.evaluate? {} turns .undefined [] = none) := by
  intro m
  have hstructured : ((compile returnsFromHandler).2.sources[0]?.any fun src =>
      (compile returnsFromHandler).1.toOption.any fun comp => src.isStructured comp.scopes) = true := by
    decide +kernel
  have hevaluate : ((compile returnsFromHandler).2.sources[0]?.all fun src =>
      src.evaluate? {} 1 .undefined [] = some (.ok (.bool false))) = true := by decide +kernel
  rcases hc : compile returnsFromHandler with ⟨error | comp, p'⟩
  · rw [hc] at hstructured
    obtain ⟨src, -, hstructured⟩ := (Option.any_eq_true _ _).mp hstructured
    cases hstructured
  · rw [hc] at hstructured hevaluate
    obtain ⟨src, hsrc, hstructured⟩ := (Option.any_eq_true _ _).mp hstructured
    have hm : m = ((Engine.create {}).load comp.unit).2.machine := by simp only [m, Engine.compile, hc]
    have hu : m.units[0]? = some comp.unit := by rw [hm]; rfl
    obtain ⟨s, hs, hreturns, hthrows, hnever⟩ := compile_structured hc (c := ⟨0, 0, none⟩) hu hsrc hstructured
      {} [] 0 .undefined .undefined [] .push
    rw [hsrc] at hevaluate
    refine ⟨src, s, hsrc, hs, (hreturns _).mpr ⟨1, _, .refl _, ?_⟩, hreturns, hthrows, hnever⟩
    simpa using hevaluate

end ScriptEngine
