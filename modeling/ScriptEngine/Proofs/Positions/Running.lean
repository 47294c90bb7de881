import ScriptEngine.Engine
import ScriptEngine.Proofs.Positions.Generation

/-!
# Positions have no meaning

A machine whose units have lost their positions takes the very same steps: reading an instruction gives the
same instruction, but for the position of its call site, and no instruction looks at that. Together with what
holds of compilation, two programs that differ in nothing but positions compile alike, and engines that differ
in nothing but the positions of the units they have loaded run them alike.
-/

namespace ScriptEngine

/-! ## Reading code -/

/-- The instruction without the position of its call site. -/
def Instruction.unplaced : Instruction → Instruction
  | .getMember i site => .getMember i site.unplaced
  | .setMember i site => .setMember i site.unplaced
  | .callGlobal i site => .callGlobal i site.unplaced
  | .invokeMember i site => .invokeMember i site.unplaced
  | i => i

/-- The machine without the positions of its units. -/
def Machine.unplaced (m : Machine) : Machine := { m with units := m.units.map CodeUnit.unplaced }

/-- The engine without the positions of its units. -/
def Engine.unplaced (e : Engine) : Engine := { e with machine := e.machine.unplaced }

/-- The error without its position; an error of a run has none. -/
def EvalError.unplaced : EvalError → EvalError
  | .compile e => .compile e.unplaced
  | .runtime e => .runtime e

/-- A call site is looked up. -/
theorem CodeFunction.siteOperand_unplaced (f : CodeFunction) (offset : Nat) :
    f.unplaced.siteOperand offset = Prod.map id CallSite.unplaced <$> f.siteOperand offset := by
  have hoperand : f.unplaced.chunk.shortOperand offset = f.chunk.shortOperand offset := rfl
  have hsite : ∀ i : Nat, f.unplaced.sites[i]? = f.sites[i]?.map CallSite.unplaced := fun i =>
    Array.getElem?_map
  rw [siteOperand, siteOperand, hoperand, map_bind]
  refine congrArg (Except.bind _) (funext fun i => ?_)
  rw [hsite]
  cases f.sites[i]? <;> rfl

namespace Instruction

/-- The operands of an instruction are read. -/
theorem ofOpcode_unplaced (p : Pool) (f : CodeFunction) (op : Opcode) (offset : Nat) :
    ofOpcode p f.unplaced op offset = unplaced <$> ofOpcode p f op offset := by
  -- Only the operands that name a call site are not the same.
  cases op with
  | getMember | setMember | callGlobal | invokeMember =>
    simp only [ofOpcode, f.siteOperand_unplaced, map_bind, map_pure, bind_map_left]
    rfl
  | _ =>
    simp only [ofOpcode, map_bind, map_pure]
    rfl

/-- **An instruction is read.** -/
theorem read_unplaced (p : Pool) (f : CodeFunction) (offset : Nat) :
    read p f.unplaced offset = Option.map (Prod.map unplaced id) <$> read p f offset := by
  have hsize : f.unplaced.chunk.size = f.chunk.size := rfl
  have hop : f.unplaced.chunk.op? offset = f.chunk.op? offset := rfl
  rw [read, read, hsize, hop]
  split
  · rfl
  · cases f.chunk.op? offset with
    | none => rfl
    | some op =>
      simp only [ofOpcode_unplaced]
      cases ofOpcode p f op (offset + 1) <;> rfl

end Instruction

/-! ## Steps -/

namespace Machine

variable (m : Machine)

/-- The code of a function is looked up. -/
theorem code_unplaced (unit index : Nat) :
    m.unplaced.code unit index = Prod.map CodeUnit.unplaced CodeFunction.unplaced <$> m.code unit index := by
  have hunit : m.unplaced.units[unit]? = m.units[unit]?.map CodeUnit.unplaced := Array.getElem?_map
  rw [code, code, hunit]
  cases m.units[unit]? with
  | none => rfl
  | some u =>
    have hfunction : u.unplaced.function? index = (u.function? index).map CodeFunction.unplaced :=
      Array.getElem?_map
    simp only [Option.map_some, hfunction]
    cases u.function? index <;> rfl

/-- **An instruction is executed**: none looks at a position. Making a function looks at the code of the
function, but only for its name and the number of its parameters. -/
theorem execute_unplaced (w : World) (f : Frame) (i : Instruction) :
    m.unplaced.execute w f i.unplaced = m.execute w f i := by
  cases i with
  | closure index =>
    show Turn.closure m.unplaced w f index = Turn.closure m w f index
    rw [Turn.closure, Turn.closure, code_unplaced]
    cases m.code f.unit index <;> rfl
  | _ => rfl

/-- The next instruction of a frame is executed. -/
theorem advance_unplaced (w : World) (f : Frame) : m.unplaced.advance w f = m.advance w f := by
  rw [advance, advance, code_unplaced]
  cases m.code f.unit f.index with
  | error e => rfl
  | ok code =>
    obtain ⟨u, function⟩ := code
    have hread : Instruction.read u.unplaced.pool function.unplaced f.ip =
        Option.map (Prod.map Instruction.unplaced id) <$> Instruction.read u.pool function f.ip :=
      Instruction.read_unplaced u.pool function f.ip
    simp only [Functor.map, Except.map, Prod.map_apply] at hread ⊢
    rw [hread]
    cases Instruction.read u.pool function f.ip with
    | error e => rfl
    | ok found =>
      cases found with
      | none => rfl
      | some i => exact m.execute_unplaced w (f.jump i.2) i.1

/-- A function of a program is called. -/
theorem enterScript_unplaced (w : World) (frames : List Frame) (depth : Nat) (callee : Value) (c : Closure)
    (this : Value) (args : List Value) (resume : Resume) :
    m.unplaced.enterScript w frames depth callee c this args resume =
      m.enterScript w frames depth callee c this args resume := by
  have hconfig : m.unplaced.config = m.config := rfl
  rw [enterScript, enterScript, hconfig, code_unplaced]
  split
  · rfl
  · cases m.code c.unit c.index <;> rfl

/-- **A step is the same** with positions and without. -/
theorem step_unplaced (s : State) : m.unplaced.step s = m.step s := by
  obtain ⟨w, frames, control, depth⟩ := s
  cases control with
  | enter callee target this args resume =>
    cases target with
    | native f => rfl
    | script c =>
      exact congrArg Progress.running (m.enterScript_unplaced w frames depth callee c this args resume)
  | execute =>
    cases frames with
    | nil => rfl
    | cons f rest =>
      show Progress.running ⟨(m.unplaced.advance w f).world, _, _, _⟩ = _
      rw [m.advance_unplaced w f]
      rfl
  | deliver resume v => cases frames <;> rfl
  | ret v => cases frames <;> rfl
  | raise e => cases frames <;> rfl

/-- **A run is the same** with positions and without. -/
theorem run_unplaced (fuel : Nat) (s : State) : m.unplaced.run fuel s = m.run fuel s := by
  induction fuel generalizing s with
  | zero => rfl
  | succ fuel ih =>
    rw [run, run, m.step_unplaced s]
    cases m.step s with
    | running s' => exact ih s'
    | finished o => rfl

end Machine

/-! ## Engines -/

namespace Engine

variable (e : Engine)

/-- A run goes to the end. -/
theorem start_unplaced (fuel : Nat) (control : Control) :
    e.unplaced.start fuel control = (e.start fuel control).map (Prod.map id unplaced) := by
  show (e.machine.unplaced.run fuel _).map _ = Option.map _ ((e.machine.run fuel _).map _)
  rw [e.machine.run_unplaced, Option.map_map]
  rfl

/-- **A value is called** by an engine without positions as by the engine itself. -/
theorem call_unplaced (fuel : Nat) (callee this : Value) (args : List Value) :
    e.unplaced.call fuel callee this args = (e.call fuel callee this args).map (Prod.map id unplaced) :=
  e.start_unplaced fuel (.call e.heap callee this args "value" .push)

/-- **A unit is run** by an engine without positions as by the engine itself. -/
theorem run_unplaced (fuel unit : Nat) :
    e.unplaced.run fuel unit = (e.run fuel unit).map (Prod.map id unplaced) := by
  have hunit : e.unplaced.machine.units[unit]? = e.machine.units[unit]?.map CodeUnit.unplaced :=
    Array.getElem?_map
  rw [run, run, hunit]
  cases e.machine.units[unit]? with
  | none => rfl
  | some u => exact start_unplaced (e.setHeap (u.globals.foldl (declareGlobal e.realm) e.heap)) fuel _

/-- **A program is evaluated** by an engine as if neither it nor what is loaded had positions. -/
theorem eval_unplaced (fuel : Nat) (p : Program) :
    e.unplaced.eval fuel p.unplaced =
      (e.eval fuel p).map (Prod.map (Except.mapError EvalError.unplaced) unplaced) := by
  rw [eval, eval, compile, compile, ScriptEngine.compile_unplaced]
  cases (ScriptEngine.compile p).1 with
  | error error => rfl
  | ok c =>
    have hload : e.unplaced.load c.unplaced.unit = Prod.map id unplaced (e.load c.unit) := by
      simp [load, unplaced, Machine.unplaced, Compilation.unplaced]
    show (((e.unplaced.load c.unplaced.unit).2).run fuel (e.unplaced.load c.unplaced.unit).1).map _ =
      Option.map _ (((e.load c.unit).2.run fuel (e.load c.unit).1).map _)
    rw [hload]
    show ((e.load c.unit).2.unplaced.run fuel (e.load c.unit).1).map _ = _
    rw [run_unplaced, Option.map_map, Option.map_map]
    refine congrArg (Option.map · _) (funext fun ⟨result, e'⟩ => ?_)
    cases result <;> rfl

end Engine

/-! ## Meaning -/

/-- Two outcomes of compilation that differ in nothing but positions. -/
inductive CompiledAlike : Except CompileError Compilation → Except CompileError Compilation → Prop
  /-- Both have failed, for the same cause. -/
  | error {e e' : CompileError} (cause : e.unplaced = e'.unplaced) : CompiledAlike (.error e) (.error e')
  /-- Both have succeeded, with the same table and the same code. -/
  | ok {c c' : Compilation} (scopes : c.scopes = c'.scopes) (unit : c.unit.unplaced = c'.unit.unplaced) :
    CompiledAlike (.ok c) (.ok c')

/-- Two engines that differ in nothing but the positions of the units they have loaded. -/
structure Engine.Alike (e e' : Engine) : Prop where
  /-- The units, the host functions and the settings. -/
  machine : e.machine.unplaced = e'.machine.unplaced
  /-- The heap, the environments, the caches and the log. -/
  world : e.world = e'.world

/-- Two answers of engines: neither has come to an end, or both have, with the same value or error. -/
inductive AnsweredAlike {α : Type} (forget : α → α) :
    Option (Except α Value × Engine) → Option (Except α Value × Engine) → Prop
  /-- The steps did not suffice. -/
  | none : AnsweredAlike forget none none
  /-- A value and an engine. -/
  | value {v : Value} {e e' : Engine} (engines : e.Alike e') :
    AnsweredAlike forget (some (.ok v, e)) (some (.ok v, e'))
  /-- An error and an engine. -/
  | error {x x' : α} {e e' : Engine} (cause : forget x = forget x') (engines : e.Alike e') :
    AnsweredAlike forget (some (.error x, e)) (some (.error x', e'))

/-- Engines are alike if they are the same without positions. -/
theorem Engine.alike_iff {e e' : Engine} : e.Alike e' ↔ e.unplaced = e'.unplaced := by
  rw [unplaced, unplaced, mk.injEq]
  exact ⟨fun ⟨hm, hw⟩ => ⟨hm, hw⟩, fun ⟨hm, hw⟩ => ⟨hm, hw⟩⟩

/-- Outcomes are alike if they are the same without positions. -/
theorem CompiledAlike.of_eq {o o' : Except CompileError Compilation}
    (h : unplacedOutcome Compilation.unplaced o = unplacedOutcome Compilation.unplaced o') :
    CompiledAlike o o' := by
  cases o with
  | error e =>
    cases o' with
    | error e' => exact .error (Except.error.inj h)
    | ok c' => cases h
  | ok c =>
    cases o' with
    | error e' => cases h
    | ok c' =>
      obtain ⟨hunit, hscopes⟩ := Compilation.mk.inj (Except.ok.inj h)
      exact .ok hscopes hunit

/-- Answers are alike if they are the same without positions. -/
theorem AnsweredAlike.of_eq {α : Type} {forget : α → α} {o o' : Option (Except α Value × Engine)}
    (h : o.map (Prod.map (Except.mapError forget) Engine.unplaced) =
      o'.map (Prod.map (Except.mapError forget) Engine.unplaced)) : AnsweredAlike forget o o' := by
  cases o with
  | none =>
    cases o' with
    | none => exact .none
    | some a' => cases h
  | some a =>
    cases o' with
    | none => cases h
    | some a' =>
      obtain ⟨result, e⟩ := a
      obtain ⟨result', e'⟩ := a'
      obtain ⟨hresult, hengine⟩ := Prod.mk.inj (Option.some.inj h)
      have hengines : e.Alike e' := Engine.alike_iff.mpr hengine
      cases result with
      | ok v =>
        cases result' with
        | ok v' =>
          obtain rfl := Except.ok.inj hresult
          exact .value hengines
        | error x' => cases hresult
      | error x =>
        cases result' with
        | ok v' => cases hresult
        | error x' => exact .error (Except.error.inj hresult) hengines

/-- **Positions have no meaning.** Of two programs that are the same without positions either both cannot be
compiled, for the same cause, or both can, to the same scope table and the same code. Engines that are alike
give the same answer to both, and are alike afterwards, as they are after they have run a unit or called a
value. -/
theorem meaning_without_positions (p q : Program) (hpq : p.unplaced = q.unplaced) :
    CompiledAlike (compile p).1 (compile q).1 ∧
    ∀ e e' : Engine, e.Alike e' → ∀ fuel : Nat,
      AnsweredAlike EvalError.unplaced (e.eval fuel p) (e'.eval fuel q) ∧
      (∀ unit, AnsweredAlike id (e.run fuel unit) (e'.run fuel unit)) ∧
      ∀ callee this args, AnsweredAlike id (e.call fuel callee this args) (e'.call fuel callee this args) := by
  refine ⟨.of_eq ?_, fun e e' halike fuel => ?_⟩
  · have hp := congrArg Prod.fst (compile_unplaced p)
    have hq := congrArg Prod.fst (compile_unplaced q)
    exact hp.symm.trans ((congrArg (fun r => (compile r).1) hpq).trans hq)
  · have hengines : e.unplaced = e'.unplaced := Engine.alike_iff.mp halike
    -- A run has no error with a position.
    have hsame : Except.mapError id = (id : Except RuntimeError Value → _) := funext fun r => by cases r <;> rfl
    refine ⟨.of_eq ?_, fun unit => .of_eq ?_, fun callee this args => .of_eq ?_⟩
    · rw [← e.eval_unplaced, ← e'.eval_unplaced, hengines, hpq]
    · rw [hsame, ← e.run_unplaced, ← e'.run_unplaced, hengines]
    · rw [hsame, ← e.call_unplaced, ← e'.call_unplaced, hengines]

/-- A program that declares a function and calls it with a new object, all in one line. -/
def callInLine (line : UInt32) : Program :=
  let here (column : UInt32) : Info := ⟨⟨line, column, 1⟩, .any⟩
  { body :=
      [.function (here 1) (some (.definition "f")) [.definition "x"]
        [.ret (here 20) (some (.member (here 28) (.identifier (here 27) (.reference "x")) "y"))] true none,
      .call (here 33) (.identifier (here 32) (.reference "f")) [.object (here 34) [("y", .this (here 39))]]] }

/-- In whatever line it stands, it does the same. -/
theorem meaning_without_positions_callInLine :
    callInLine 1 ≠ callInLine 40 ∧ (callInLine 1).unplaced = (callInLine 40).unplaced ∧
    CompiledAlike (compile (callInLine 1)).1 (compile (callInLine 40)).1 ∧
    AnsweredAlike EvalError.unplaced ((Engine.create {}).eval 100 (callInLine 1))
      ((Engine.create {}).eval 100 (callInLine 40)) := by
  have hsame : (callInLine 1).unplaced = (callInLine 40).unplaced := rfl
  obtain ⟨hcompiled, hanswered⟩ := meaning_without_positions (callInLine 1) (callInLine 40) hsame
  refine ⟨fun h => ?_, hsame, hcompiled, (hanswered (Engine.create {}) (Engine.create {}) ⟨rfl, rfl⟩ 100).1⟩
  exact absurd (congrArg (fun p => p.body.map Node.span) h) (by decide)

end ScriptEngine
