import ScriptEngine.Proofs.Host.Record

/-!
# Compiled code is never malformed

Whatever an engine runs, if all its code was compiled: no step reports a fault of the code. Every
instruction can be read, finds its operands, and what it refers to is there; and whenever an error is
caught, the operands of the start of the region are still there.
-/

namespace ScriptEngine

/-- How many operands an instruction needs. -/
def Instruction.operands : Instruction → Nat
  | .push _ | .getLocal _ | .getEnv .. | .getGlobal _ | .deleteGlobal _ | .getName _ | .deleteName _
  | .closure _ | .newObject | .getThis | .getCallee | .jump _ | .exitWith | .tryBegin _ | .tryEnd
  | .retUndefined => 0
  | .pop | .dup | .setLocal _ | .setEnv .. | .setGlobal _ | .setName _ | .getMember .. | .deleteMember _
  | .negate | .plus | .not | .typeof | .jumpIfFalse _ | .jumpIfFalseOrPop _ | .jumpIfTrueOrPop _
  | .enterWith | .throw | .ret => 1
  | .setMember .. | .initProperty _ | .binary _ => 2
  | .callName _ argc => argc
  | .callGlobal _ site | .invokeMember _ site => site.argc.toNat + 1
  | .call argc => argc + 1

/-- What an instruction refers to is there. The activation that executes it started in a given
environment, and the offset behind the instruction is given. -/
def Instruction.Finds (m : Machine) (w : World) (f : Frame) (base : Option EnvId) (next : Nat) :
    Instruction → Prop
  | .getLocal slot | .setLocal slot => slot < f.locals.size
  | .getEnv depth slot | .setEnv depth slot =>
    ∃ id, (f.env.bind fun id => w.envs.ancestor? id depth) = some id ∧ w.envs.hasSlot id slot = true
  | .closure index => ∃ code, m.code f.unit index = .ok code
  | .initProperty _ => ∃ v h rest, f.stack = v :: .object h :: rest
  | .exitWith =>
    -- The activation itself has put the object there.
    ∃ withs, w.envs.Over base (withs + 1) f.env
  | .tryEnd =>
    -- The handler starts behind the jump that leads over it.
    ∃ h outer exit, f.handlers = h :: outer ∧ m.read? (f.jump next) = some (.jump exit, h.target)
  | _ => True

/-- A state that is not malformed, with the ledger of its run. -/
structure State.WellFormed (m : Machine) (L : Ledger) (s : State) : Prop where
  /-- No fault is being raised. -/
  control : ∀ fault, s.control ≠ .raise (.internal fault)
  /-- The run does not end with a fault. -/
  result : ∀ o fault, m.step s = .finished o → o.result ≠ .error (.internal fault)
  /-- The next instruction can be read, has its operands, and finds what it refers to. -/
  instruction : ∀ f rest, s.control = .execute → s.frames = f :: rest →
    ∃ a as A i next, L.running = a :: as ∧ L.activations[a]? = some A ∧ m.read? f = some (i, next) ∧
      i.operands ≤ f.stack.length ∧ i.Finds m s.world f A.base next
  /-- A handler finds the operands of the start of its region. -/
  handler : ∀ e f rest h outer, s.control = .raise e → s.frames = f :: rest →
    f.handlers = h :: outer → h.stackSize ≤ f.stack.length

section

variable {U : Blueprint} {F : CodeFunction} {src : Source} {K : Point → Prop} {i : Instruction}

/-- An instruction that is allowed has its operands. -/
theorem Instruction.Allows.operands_le {p : Point} {next : Nat} (h : i.Allows U F src K p next) :
    i.operands ≤ p.stack.length := by
  have hpos : p.stack ≠ [] → 1 ≤ p.stack.length := List.length_pos_iff.mpr
  cases i <;> simp only [Instruction.Allows, Instruction.operands] at h ⊢ <;> grind

namespace Ledger

variable {m : Machine} {L : Ledger} {w : World} {f : Frame} {a : Nat} {A : Activation}
variable {rg : List (Nat × Nat)} {withs next : Nat}

/-- An instruction that is allowed finds what it refers to. -/
theorem Seat.finds (h : L.Seat m w.envs a f A U F src rg withs) (hL : L.Holds m w)
    (hi : i.Allows U F src K (f.point rg withs) next) : i.Finds m w f A.base next := by
  cases i with
  | getLocal slot =>
    show slot < f.locals.size
    rw [h.held.locals]
    exact hi.1
  | setLocal slot =>
    show slot < f.locals.size
    rw [h.held.locals]
    exact hi.1
  | getEnv depth slot =>
    obtain ⟨⟨v, hv⟩, -⟩ := hi
    exact h.hasSlot hL hv
  | setEnv depth slot =>
    obtain ⟨⟨v, hv⟩, -⟩ := hi
    exact h.hasSlot hL hv
  | closure index =>
    obtain ⟨⟨inner, hinner, -⟩, -⟩ := hi
    exact h.hasCode hL hinner
  | initProperty name =>
    obtain ⟨v, k, rest, hstack, -⟩ := hi
    exact ⟨v, k, rest, hstack⟩
  | exitWith =>
    obtain ⟨k, rfl, -⟩ := hi
    exact ⟨k, h.held.env⟩
  | tryEnd =>
    obtain ⟨target, outer, hrg, ⟨exit, hat⟩, -⟩ := hi
    have hguards := h.held.handlers
    rw [show rg = (target, withs) :: outer from hrg] at hguards
    rcases hhandlers : f.handlers with _ | ⟨x, xs⟩
    · rw [hhandlers] at hguards
      exact hguards.elim
    · rw [hhandlers] at hguards
      refine ⟨x, xs, exit, hhandlers, ?_⟩
      rw [hguards.1.target]
      exact (h.stays (f.stays_go next f.stack)).advance (w := w) hat |>.2
  | _ => trivial

/-- **A state that its ledger is true of** is not malformed. -/
theorem Tracks.wellFormed {s : State} (h : L.Tracks m s) : s.WellFormed m L := by
  obtain ⟨w, frames, control, depth⟩ := s
  obtain ⟨hworld, hframes⟩ := h
  have hfault : ∀ fault, control ≠ .raise (.internal fault) := by
    rintro fault rfl
    obtain ⟨K, p, hfits⟩ := hframes.fits
    exact hfits fault rfl
  refine ⟨hfault, fun o fault hend hresult => ?_, ?_, ?_⟩
  · exact hfault fault ((Machine.finished_spec hend).2 _ hresult)
  · rintro f rest ⟨⟩ ⟨⟩
    obtain ⟨a, as, A, U, F, src, rg, withs, hrunning, hseat, hsafe, -⟩ := hframes.running
    obtain ⟨⟨i, next, hat, hallows⟩, -⟩ := Safe.step hsafe
    exact ⟨a, as, A, i, next, hrunning, hseat.activation, (hseat.advance (w := w) hat).2,
      hallows.operands_le, hseat.finds hworld hallows⟩
  · rintro e f rest x outer ⟨⟩ ⟨⟩ hhandlers
    obtain ⟨a, as, A, U, F, src, rg, withs, hrunning, hseat, -⟩ := hframes.running
    have hguards := hseat.held.handlers
    rw [hhandlers] at hguards
    rcases rg with _ | ⟨region, rg⟩
    · exact hguards.elim
    · rw [hguards.1.stackSize]
      exact Nat.zero_le _

end Ledger

end

namespace Engine

/-- **Compiled code is never malformed.** In an engine in which all code was compiled and all functions of
programs were made by running it, take any run of a unit and any call of a value with any arguments, in
any cache mode. No state of it raises a fault of the machine, and it does not end with one. Every
instruction can be read, has its operands, and finds the slots, environments, functions, handlers and
objects that it refers to; and whenever an error is caught, the operands of the start of the protected
region are still there. -/
theorem never_malformed {e : Engine} {L : Ledger} (he : e.Recorded L) {control : Control}
    (hstart : e.Starts control) {s : State}
    (hs : e.machine.Reaches { world := e.world, control } s) :
    ∃ L', e.machine.Traces { world := e.world, control } L s L' ∧ s.WellFormed e.machine L' := by
  obtain ⟨hL, hnatives, hrunning⟩ := he.holds
  obtain ⟨L', hL'⟩ := hs.traces L
  exact ⟨L', hL', (hL'.tracks hnatives (hstart.tracks hL hrunning)).wellFormed⟩

/-- A program that throws in a protected region. -/
def caughtThrow : Program :=
  ⟨[.tryCatch .none (.block .none [.throw .none (.literal .none (.bool true))]) none
    (.block .none [.object .none []])], none, false⟩

/-- The error of this program finds its handler. -/
theorem never_malformed_caughtThrow :
    let e := ((create {}).compile caughtThrow).2
    let u := (e.machine.units[0]?).getD default
    let control : Control :=
      .enter .undefined (.script ⟨0, u.entry, none⟩) e.machine.globalValue [] .push
    let start : State := { world := e.world, control }
    ∃ L s, e.Recorded L ∧ e.machine.Reaches start s ∧ s.control = .raise (.thrown (.bool true)) ∧
      ∃ L', e.machine.Traces start L s L' ∧ s.WellFormed e.machine L' := by
  intro e u control start
  obtain ⟨L, hL⟩ : ∃ L, e.Recorded L := (Recorded.create {}).compiled (by decide)
  have hu : e.machine.units[0]? = some u := by
    have hsome : e.machine.units[0]?.isSome = true := by decide +kernel
    obtain ⟨u', hu'⟩ := Option.isSome_iff_exists.mp hsome
    simp only [u, hu', Option.getD_some]
  have hs := e.machine.reaches_after 4 start
  refine ⟨L, e.machine.after 4 start, hL, hs, by decide +kernel, ?_⟩
  exact never_malformed hL (.run hu) hs

end Engine

end ScriptEngine
