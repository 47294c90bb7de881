import ScriptEngine.Proofs.Machine.Ledger

/-!
# Runs on record

While a run goes on, its ledger stays true, and every frame stands at a safe point of its code:
`Ledger.Tracks`. One step keeps this (`Ledger.Tracks.step`), with a lemma for each kind of control, and so
does a whole run.
-/

namespace ScriptEngine

/-! ## Host functions -/

/-- Host functions that know their place: they report no faults of the machine, and leave no function of a
program on the heap that was not there before. -/
def Natives.Honest (ns : Natives) : Prop :=
  ∀ id call, (∀ fault, (ns.run id call).result ≠ .error (.internal fault)) ∧
    call.heap.Scripts (ns.run id call).heap

/-- What suits more known functions. -/
theorem Control.Fits.known {known known' : Closure → Prop} (h : ∀ c, known c → known' c)
    {K : Point → Prop} {p : Point} {control : Control} (hc : control.Fits known K p) :
    control.Fits known' K p := by
  cases control with
  | enter callee target this args r => exact ⟨fun c hs => h c (hc.1 c hs), hc.2⟩
  | execute => exact hc
  | deliver r v => exact hc
  | ret v => exact hc
  | raise e => exact hc

namespace Ledger

/-! ## Frames -/

/-- The frame of an activation at a point of its code. -/
structure Seat (m : Machine) (L : Ledger) (envs : Environments) (a : Nat) (f : Frame) (A : Activation)
    (U : Blueprint) (F : CodeFunction) (src : Source) (rg : List (Nat × Nat)) (withs : Nat) : Prop where
  /-- The activation is on record. -/
  activation : L.activations[a]? = some A
  /-- The source of the function. -/
  source : L.IsOf A.closure U src
  /-- The code of the function. -/
  code : ∃ u, m.code A.closure.unit A.closure.index = .ok (u, F) ∧ U.pool = u.pool
  /-- The frame has its place. -/
  held : f.Held envs A.closure A.base F rg withs
  /-- An error leads to a safe point. -/
  catches : Point.Catches (Safe U F src) rg

/-- The frame of an activation stands at a point with a property, which may refer to what is safe. -/
def Stands (m : Machine) (L : Ledger) (envs : Environments) (a : Nat) (f : Frame)
    (P : (Point → Prop) → Point → Prop) : Prop :=
  ∃ A U F src rg withs, L.Seat m envs a f A U F src rg withs ∧ P (Safe U F src) (f.point rg withs)

/-- All frames stand at safe points: the running one at a point that suits what comes next, and the
others at points that are safe with any value they may be given. -/
def Follows (m : Machine) (L : Ledger) (envs : Environments) :
    Control → List Frame → List Nat → Prop
  | control, [], [] => control.Fits L.Knows (fun _ => True) ⟨0, [], [], 0⟩
  | control, f :: fs, a :: as =>
    L.Stands m envs a f (fun K p => control.Fits L.Knows K p) ∧
      L.Follows m envs (.deliver f.resume .undefined) fs as
  | _, _, _ => False

/-- A ledger is true of a run under way. -/
structure Tracks (m : Machine) (L : Ledger) (s : State) : Prop where
  /-- The ledger is true of the world. -/
  world : L.Holds m s.world
  /-- The frames are those of the running activations. -/
  frames : L.Follows m s.world.envs s.control s.frames L.running

section

variable {m : Machine} {L L' : Ledger} {a b : Environments}

/-- A frame keeps its seat. -/
theorem Seat.grows {k : Nat} {f : Frame} {A : Activation} {U : Blueprint} {F : CodeFunction}
    {src : Source} {rg : List (Nat × Nat)} {withs : Nat} (h : L.Seat m a k f A U F src rg withs)
    (hL : L.Grows L') (hev : a.Evolves b) : L'.Seat m b k f A U F src rg withs :=
  ⟨hL.activations k A h.activation, h.source.grows hL, h.code, h.held.evolves hev, h.catches⟩

/-- A frame whose offset and operands have changed keeps its seat. -/
theorem Seat.stays {k : Nat} {f f' : Frame} {A : Activation} {U : Blueprint} {F : CodeFunction}
    {src : Source} {rg : List (Nat × Nat)} {withs : Nat} (h : L.Seat m a k f A U F src rg withs)
    (hf : f.Stays f') : L.Seat m a k f' A U F src rg withs :=
  ⟨h.activation, h.source, h.code, h.held.stays hf, h.catches⟩

/-- Frames stay where they are. -/
theorem Follows.grows (hL : L.Grows L') (hev : a.Evolves b) {control : Control} {fs : List Frame}
    {as : List Nat} (h : L.Follows m a control fs as) : L'.Follows m b control fs as := by
  have hknown : ∀ c, L.Knows c → L'.Knows c := fun c hc => hc.grows hL
  induction fs generalizing control as with
  | nil =>
    cases as with
    | nil => exact Control.Fits.known hknown h
    | cons k as => exact h
  | cons f fs ih =>
    cases as with
    | nil => exact h
    | cons k as =>
      obtain ⟨⟨A, U, F, src, rg, withs, hseat, hfits⟩, hrest⟩ := h
      exact ⟨⟨A, U, F, src, rg, withs, hseat.grows hL hev, Control.Fits.known hknown hfits⟩, ih hrest⟩

/-- Something else comes next that suits the running frame, too. -/
theorem Follows.switch {envs : Environments} {control control' : Control} {fs : List Frame}
    {as : List Nat} (h : L.Follows m envs control fs as)
    (hswitch : ∀ K p, control.Fits L.Knows K p → control'.Fits L.Knows K p) :
    L.Follows m envs control' fs as := by
  cases fs with
  | nil =>
    cases as with
    | nil => exact hswitch _ _ h
    | cons k as => exact h
  | cons f fs =>
    cases as with
    | nil => exact h
    | cons k as =>
      obtain ⟨⟨A, U, F, src, rg, withs, hseat, hfits⟩, hrest⟩ := h
      exact ⟨⟨A, U, F, src, rg, withs, hseat, hswitch _ _ hfits⟩, hrest⟩

/-- What comes next suits some point. -/
theorem Follows.fits {envs : Environments} {control : Control} {fs : List Frame} {as : List Nat}
    (h : L.Follows m envs control fs as) : ∃ K p, control.Fits L.Knows K p := by
  cases fs with
  | nil =>
    cases as with
    | nil => exact ⟨_, _, h⟩
    | cons k as => exact h.elim
  | cons f fs =>
    cases as with
    | nil => exact h.elim
    | cons k as =>
      obtain ⟨⟨A, U, F, src, rg, withs, -, hfits⟩, -⟩ := h
      exact ⟨_, _, hfits⟩

/-- The running frame has a seat. -/
theorem Follows.running {envs : Environments} {control : Control} {f : Frame} {fs : List Frame}
    {as : List Nat} (h : L.Follows m envs control (f :: fs) as) :
    ∃ a rest A U F src rg withs, as = a :: rest ∧ L.Seat m envs a f A U F src rg withs ∧
      control.Fits L.Knows (Safe U F src) (f.point rg withs) ∧
      L.Follows m envs (.deliver f.resume .undefined) fs rest := by
  cases as with
  | nil => exact h.elim
  | cons a rest =>
    obtain ⟨⟨A, U, F, src, rg, withs, hseat, hfits⟩, hrest⟩ := h
    exact ⟨a, rest, A, U, F, src, rg, withs, rfl, hseat, hfits, hrest⟩

/-- **A ledger stays true** of a world that has moved on, if what was added to it is. -/
theorem Holds.update {w w' : World} {new : Closure → Prop} (h : L.Holds m w) (hw : w.Moves new w')
    (hL : L.Grows L') (hnew : ∀ c, new c → L'.Knows c) (hblueprints : L'.blueprints = L.blueprints)
    (hactivated : ∀ (k : Nat) A, L'.activations[k]? = some A →
      L.activations[k]? = some A ∨ L'.Activated w'.envs A)
    (hmakes : ∀ k c, (k, c) ∈ L'.made → (k, c) ∈ L.made ∨ L'.Makes w'.envs k c) : L'.Holds m w' := by
  refine ⟨hblueprints ▸ h.units, hblueprints ▸ h.blueprints, hw.grounded, fun k A hA => ?_,
    fun k c hc => ?_, fun c hc => ?_⟩
  · obtain hA | hA := hactivated k A hA
    · exact (h.activated k A hA).grows hL hw.evolves
    · exact hA
  · obtain hc | hc := hmakes k c hc
    · exact (h.makes k c hc).grows hL hw.evolves
    · exact hc
  · obtain hc | hc := hw.runs c hc
    · exact (h.runs c hc).grows hL
    · exact hnew c hc

/-- A ledger to which nothing was added. -/
theorem Holds.moves {w w' : World} (h : L.Holds m w) (hw : w.Moves (fun _ => False) w') : L.Holds m w' :=
  h.update hw (.refl L) (fun _ hc => hc.elim) rfl (fun _ _ hA => .inl hA) fun _ _ hc => .inl hc

/-- The running activation is over. -/
theorem Holds.leave {w : World} (h : L.Holds m w) : L.leave.Holds m w :=
  h.update ((World.Stays.refl w).moves h.grounded (fun _ => False)) (grows_leave L) (fun _ hc => hc.elim)
    rfl (fun _ _ hA => .inl hA) fun _ _ hc => .inl hc

/-- **Known functions have code**, and it was made of their source. -/
theorem Holds.code {w : World} (hL : L.Holds m w) {c : Closure} {U : Blueprint} {src : Source}
    (h : L.IsOf c U src) : ∃ u F, m.code c.unit c.index = .ok (u, F) ∧ U.Fits u ∧ U.Lays F src := by
  obtain ⟨u, hu, hfits⟩ := hL.fits h
  obtain ⟨F, hF, hlays⟩ := hfits.lays c.index src h.2
  refine ⟨u, F, ?_, hfits, hlays⟩
  rw [Machine.code, hu]
  simp only [CodeUnit.function?, hF]

/-- The source of a function that may be called. -/
theorem Holds.source {w : World} (hL : L.Holds m w) {c : Closure} (h : L.Knows c) :
    ∃ U src, L.IsOf c U src ∧ w.envs.Has c.env := by
  obtain ⟨henv, U, src, hof, -⟩ | ⟨a, ha⟩ := h
  · refine ⟨U, src, hof, fun id hid => ?_⟩
    rw [henv] at hid
    cases hid
  · obtain ⟨hhas, -, A, U, src, inner, -, hof, hunit, hinner, -⟩ := hL.makes a c ha
    exact ⟨U, inner, ⟨hunit ▸ hof.1, hinner⟩, hhas⟩

end

/-! ## Steps -/

section

variable {m : Machine} {L : Ledger} {w : World} {f : Frame} {fs : List Frame} {depth : Nat}

/-- The instruction that is next at a point. -/
theorem Seat.advance {envs : Environments} {a : Nat} {A : Activation} {U : Blueprint}
    {F : CodeFunction} {src : Source} {rg : List (Nat × Nat)} {withs next : Nat} {i : Instruction}
    (h : L.Seat m envs a f A U F src rg withs) (hat : U.at F i f.ip next) :
    m.advance w f = m.execute w (f.jump next) i ∧ m.read? f = some (i, next) := by
  obtain ⟨u, hcode, hpool⟩ := h.code
  rw [← h.held.unit, ← h.held.index] at hcode
  have hread : Instruction.read u.pool F f.ip = .ok (some (i, next)) := by
    rw [← hpool]
    exact hat
  exact ⟨Machine.advance_of_read hcode hread, Machine.read?_eq_some_iff.mpr ⟨u, F, hcode, hread⟩⟩

/-- **What a function that is made is known by.** -/
theorem Seat.makes {envs : Environments} {a : Nat} {A : Activation} {U : Blueprint} {F : CodeFunction}
    {src inner : Source} {rg : List (Nat × Nat)} {withs index : Nat}
    (h : L.Seat m envs a f A U F src rg withs) (hA : L.Activated envs A)
    (hinner : U.sources[index]? = some inner) (hinside : src.Inside U.table withs inner) :
    L.Makes envs a ⟨f.unit, index, f.env⟩ := by
  refine ⟨h.held.env.has hA.has_base, ⟨A, withs, h.activation, h.held.env⟩, A, U, src, inner, h.activation,
    h.source, h.held.unit, hinner, hinside.encloses, fun hraised => ?_⟩
  rw [hinside.isLowered, Bool.or_eq_false_iff, decide_eq_false_iff_not] at hraised
  obtain rfl : withs = 0 := by omega
  exact ⟨hraised.1, h.held.env⟩

/-- **An environment slot that code refers to** is there. -/
theorem Seat.hasSlot {a : Nat} {A : Activation} {U : Blueprint} {F : CodeFunction} {src : Source}
    {rg : List (Nat × Nat)} {withs depth slot : Nat} {v : VarId}
    (h : L.Seat m w.envs a f A U F src rg withs) (hL : L.Holds m w)
    (hv : U.Addresses src withs depth slot v) :
    ∃ id, (f.env.bind fun id => w.envs.ancestor? id depth) = some id ∧
      w.envs.hasSlot id slot = true := by
  obtain rfl : withs = 0 := hv.1
  obtain ⟨b, B, outer, id, -, -, -, -, -, ⟨-, E, hE, -, hsize, -⟩, hancestor, hname⟩ :=
    hL.addressed h.activation h.source hv
  refine ⟨id, ?_, ?_⟩
  · rw [show f.env = A.base from h.held.env]
    exact hancestor
  · rw [Environments.hasSlot_eq hE, hsize]
    obtain ⟨hlt, -⟩ := Array.getElem?_eq_some_iff.mp hname
    exact decide_eq_true hlt

/-- The functions of a source's unit are there. -/
theorem Seat.hasCode {a : Nat} {A : Activation} {U : Blueprint} {F : CodeFunction} {src inner : Source}
    {rg : List (Nat × Nat)} {withs index : Nat} (h : L.Seat m w.envs a f A U F src rg withs)
    (hL : L.Holds m w) (hinner : U.sources[index]? = some inner) :
    ∃ code, m.code f.unit index = .ok code := by
  rw [h.held.unit]
  obtain ⟨u, G, hG, -⟩ := hL.code (c := ⟨A.closure.unit, index, none⟩) ⟨h.source.1, hinner⟩
  exact ⟨(u, G), hG⟩

/-- **What an instruction adds to a ledger**: the function that it makes, if it makes one. -/
theorem next_execute (w : World) (fs : List Frame) (s' : State) {i : Instruction} {behind a : Nat}
    {as : List Nat} (hi : m.read? f = some (i, behind)) (ha : L.running = a :: as) :
    ∃ made, L.next m ⟨w, f :: fs, .execute, depth⟩ s' = { L with made } ∧ (∀ x ∈ L.made, x ∈ made) ∧
      (∀ index, i = .closure index → (a, ⟨f.unit, index, f.env⟩) ∈ made) ∧
      ∀ k c, (k, c) ∈ made → (k, c) ∈ L.made ∨
        k = a ∧ ∃ index, i = .closure index ∧ c = ⟨f.unit, index, f.env⟩ := by
  rw [next]
  simp only [hi]
  split
  · next index _ hindex =>
    cases hindex
    refine ⟨(a, ⟨f.unit, index, f.env⟩) :: L.made, ?_, fun x hx => List.mem_cons_of_mem _ hx, ?_, ?_⟩
    · rw [make, ha]
    · rintro _ ⟨⟩
      exact List.mem_cons_self
    · intro k c hc
      obtain hc | hc := List.mem_cons.mp hc
      · cases hc
        exact .inr ⟨rfl, index, rfl, rfl⟩
      · exact .inl hc
  · next hnone =>
    refine ⟨L.made, rfl, fun x hx => hx, fun index hindex => ?_, fun k c hc => .inl hc⟩
    exact absurd (by rw [hindex]) (hnone index behind)

/-- **An instruction is executed.** -/
theorem Tracks.execute {s' : State} (h : L.Tracks m ⟨w, f :: fs, .execute, depth⟩)
    (hstep : m.step ⟨w, f :: fs, .execute, depth⟩ = .running s') :
    (L.next m ⟨w, f :: fs, .execute, depth⟩ s').Tracks m s' := by
  obtain rfl : _ = s' := Progress.running.inj hstep
  obtain ⟨hworld, hframes⟩ := h
  obtain ⟨a, as, A, U, F, src, rg, withs, hrunning, hseat, hsafe, hrest⟩ := hframes.running
  obtain ⟨⟨i, next, hat, hallows⟩, -⟩ := Safe.step hsafe
  obtain ⟨hadvance, hinstruction⟩ := hseat.advance (w := w) hat
  have hactivated := hworld.activated a A hseat.activation
  have hsound := Machine.sound_execute (m := m) (i := i) hworld.grounded hactivated.has_base
    hseat.held (fun hv => hseat.hasSlot hworld hv) (fun hinner => hseat.hasCode hworld hinner) hallows
  rw [hadvance]
  generalize m.execute w (f.jump next) i = turn at hsound ⊢
  obtain ⟨made, hnext, hgrows, hmade, hcases⟩ :=
    next_execute w fs ⟨turn.world, turn.frame :: fs, turn.control, depth⟩ hinstruction hrunning
  rw [hnext]
  obtain ⟨hmoves, ⟨rg', withs', hheld, hfits, hrg⟩, hresume⟩ := hsound
  have hL : L.Grows { L with made } := ⟨fun _ _ h => h, fun _ _ h => h, fun k c h => hgrows _ h⟩
  have hworld' : Holds m { L with made } turn.world := by
    refine hworld.update hmoves hL ?_ rfl (fun _ _ hA => .inl hA) fun k c hc => ?_
    · rintro c ⟨index, hindex, rfl⟩
      exact .inr ⟨a, hmade index hindex⟩
    · obtain hc | ⟨rfl, index, rfl, rfl⟩ := hcases k c hc
      · exact .inl hc
      · obtain ⟨⟨inner, hinner, hinside⟩, -⟩ := hallows
        exact .inr ((hseat.makes hactivated hinner hinside).grows hL hmoves.evolves)
  have hknown : ∀ c, w.Runs c ∨ turn.world.Runs c → Knows { L with made } c := by
    rintro c (hc | hc)
    · exact (hworld.runs c hc).grows hL
    · exact hworld'.runs c hc
  refine ⟨hworld', Eq.mpr (congrArg (Follows m _ turn.world.envs turn.control _) hrunning) ?_⟩
  refine ⟨⟨A, U, F, src, rg', withs', ⟨hseat.activation, hseat.source, hseat.code, hheld, ?_⟩,
    Control.Fits.known hknown hfits⟩, ?_⟩
  · obtain rfl | hexecute := hrg
    · exact hseat.catches
    · rw [hexecute] at hfits
      exact (Safe.step hfits).2
  · rw [hresume]
    exact hrest.grows hL hmoves.evolves

/-- **A host function is called.** -/
theorem Tracks.enterNative (hnatives : m.natives.Honest) {callee this : Value} {n : NativeFunction}
    {args : List Value} {r : Resume} (h : L.Tracks m ⟨w, fs, .enter callee (.native n) this args r, depth⟩) :
    L.Tracks m (m.enterNative w fs depth n this args r) := by
  obtain ⟨hworld, hframes⟩ := h
  obtain ⟨hfault, hscripts⟩ := hnatives n.id ⟨w.heap, this, args⟩
  obtain ⟨heap, envs, caches, log⟩ := w
  rw [Machine.enterNative]
  generalize m.natives.run n.id ⟨heap, this, args⟩ = reply at hfault hscripts ⊢
  have hstays : ∀ log', World.Stays ⟨heap, envs, caches, log⟩ ⟨reply.heap, envs, caches, log'⟩ :=
    fun log' => World.stays_of hscripts fun c hc => .inr hc
  have hmoved : ∀ log', L.Holds m ⟨reply.heap, envs, caches, log'⟩ :=
    fun log' => hworld.moves ((hstays log').moves hworld.grounded _)
  split
  · exact ⟨hmoved _, hframes.switch fun K p hfits => hfits.2⟩
  · next e he => exact ⟨hmoved _, hframes.switch fun K p _ fault heq => hfault fault (heq ▸ he)⟩

/-- What the start of an activation does: it makes an environment if the function has variables for one,
and the frame stands at the start of the code. -/
theorem activate_spec (F : CodeFunction) (c : Closure) (callee this : Value) (args : List Value)
    (r : Resume) {envs envs' : Environments} (hes : envs.Grounded) (hhas : envs.Has c.env)
    (h : Frame.activate F c callee this args r envs = (f, envs')) :
    envs.Evolves envs' ∧ envs'.Grounded ∧ f.locals.size = F.localCount ∧ f.unit = c.unit ∧
      f.index = c.index ∧ f.ip = 0 ∧ f.stack = [] ∧ f.handlers = [] ∧ f.resume = r ∧
      ((F.needsEnv = false ∧ f.env = c.env ∧ envs'.store.size = envs.store.size) ∨
        F.needsEnv = true ∧ f.env = some ⟨envs.store.size⟩ ∧ envs.store.size < envs'.store.size ∧
          ∃ E, envs'.get? ⟨envs.store.size⟩ = some E ∧ E.kind = .variables F.envNames ∧
            E.slots.size = F.envNames.size ∧ E.parent = c.env) := by
  rw [Frame.activate, Frame.ownEnv] at h
  by_cases hneeds : F.needsEnv = true
  · rw [if_pos hneeds] at h
    have hpush := envs.evolves_push ⟨.variables F.envNames, .replicate F.envNames.size .undefined, c.env⟩
    have hget := envs.get?_push ⟨.variables F.envNames, .replicate F.envNames.size .undefined, c.env⟩
      ⟨envs.store.size⟩
    rw [if_pos rfl] at hget
    obtain ⟨hev, hground, hsize, hlocals⟩ := Environments.evolves_bindArgs (some ⟨envs.store.size⟩)
      F.params args (.replicate F.localCount .undefined)
      (envs.push ⟨.variables F.envNames, .replicate F.envNames.size .undefined, c.env⟩).2
    obtain ⟨E, hE, hkind, hparent, hslots⟩ := hev.2 _ _ hget
    cases h
    refine ⟨hpush.trans hev, hground (hes.push hhas), hlocals.trans (by simp), rfl, rfl, rfl, rfl, rfl,
      rfl, .inr ⟨hneeds, rfl, ?_, E, hE, hkind, ?_, hparent⟩⟩
    · refine Nat.lt_of_lt_of_eq ?_ hsize.symm
      simp [Environments.push]
    · exact hslots.trans (by simp)
  · rw [if_neg hneeds] at h
    obtain ⟨hev, hground, hsize, hlocals⟩ := Environments.evolves_bindArgs c.env F.params args
      (.replicate F.localCount .undefined) envs
    cases h
    exact ⟨hev, hground hes, hlocals.trans (by simp), rfl, rfl, rfl, rfl, rfl, rfl,
      .inl ⟨by simpa using hneeds, rfl, hsize⟩⟩

/-- The environment of a frame at its start is that of the activation. -/
theorem own_of_activate {U : Blueprint} {F : CodeFunction} {src : Source} {c : Closure}
    {envs envs' : Environments} (hlays : U.Lays F src)
    (h : (F.needsEnv = false ∧ f.env = c.env ∧ envs'.store.size = envs.store.size) ∨
      F.needsEnv = true ∧ f.env = some ⟨envs.store.size⟩ ∧ envs.store.size < envs'.store.size ∧
        ∃ E, envs'.get? ⟨envs.store.size⟩ = some E ∧ E.kind = .variables F.envNames ∧
          E.slots.size = F.envNames.size ∧ E.parent = c.env)
    {A : Activation}
    (hA : ⟨c, if envs.store.size < envs'.store.size then some ⟨envs.store.size⟩ else none⟩ = A) :
    A.closure = c ∧ f.env = A.base ∧ ((A.own = none ∧ (U.table.scope src.scope).needsEnv = false) ∨
      ∃ id, A.own = some id ∧ Made envs' (U.table.scope src.scope) c.env id) := by
  have hnames : F.envNames = (U.table.scope src.scope).envNames := hlays.envNames
  have hneeds : F.needsEnv = (U.table.scope src.scope).needsEnv := by
    rw [CodeFunction.needsEnv, Scope.needsEnv, hnames]
  rw [hneeds, hnames] at h
  subst hA
  obtain ⟨hnone, henv, hsize⟩ | ⟨hsome, henv, hsize, E, hE⟩ := h
  · have hlt : ¬ envs.store.size < envs'.store.size := by omega
    simp only [if_neg hlt, Activation.base]
    exact ⟨trivial, henv, .inl ⟨trivial, hnone⟩⟩
  · simp only [if_pos hsize, Activation.base]
    exact ⟨trivial, henv, .inr ⟨_, rfl, hsome, E, hE⟩⟩

/-- **A function of a program is called**: its frame stands at the start of its code. -/
theorem Tracks.enterScript {callee this : Value} {c : Closure} {args : List Value} {r : Resume}
    {s' : State} (h : L.Tracks m ⟨w, fs, .enter callee (.script c) this args r, depth⟩)
    (hs' : m.enterScript w fs depth callee c this args r = s') :
    (L.next m ⟨w, fs, .enter callee (.script c) this args r, depth⟩ s').Tracks m s' := by
  obtain ⟨hworld, hframes⟩ := h
  rw [next]
  simp only
  rw [Machine.enterScript] at hs'
  split at hs'
  · -- Too many activations are nested.
    subst hs'
    rw [if_neg (Nat.lt_irrefl _)]
    refine ⟨hworld, hframes.switch fun K p _ fault heq => ?_⟩
    cases heq
  · obtain ⟨-, -, hknown, -⟩ := hframes.fits
    have hknows := hknown c rfl
    obtain ⟨U, src, hof, hhas⟩ := hworld.source hknows
    obtain ⟨u, F, hcode, hfits, hlays⟩ := hworld.code hof
    obtain ⟨heap, envs, caches, log⟩ := w
    simp only [hcode] at hs'
    rcases hactivate : Frame.activate F c callee this args r envs with ⟨f, envs'⟩
    obtain ⟨hev, hground, hlocals, hunit, hindex, hip, hstack, hhandlers, hresume, henv⟩ :=
      activate_spec F c callee this args r hworld.grounded hhas hactivate
    simp only [hactivate] at hs'
    subst hs'
    show Tracks m (if fs.length < (f :: fs).length then L.enter
      ⟨c, if envs.store.size < envs'.store.size then some ⟨envs.store.size⟩ else none⟩ else L) _
    rw [if_pos (show fs.length < (f :: fs).length from Nat.lt_succ_self _)]
    generalize hA : (⟨c, if envs.store.size < envs'.store.size then some ⟨envs.store.size⟩ else none⟩ :
      Activation) = A
    obtain ⟨rfl, hbase, hown⟩ := own_of_activate hlays henv hA
    have hL := L.grows_enter A
    have hat : (L.enter A).activations[L.activations.size]? = some A := Array.getElem?_push_size
    have hmoves : World.Moves (fun _ => False) ⟨heap, envs, caches, log⟩ ⟨heap, envs', caches, log⟩ :=
      ⟨hev, hground, fun c hc => .inl hc⟩
    refine ⟨hworld.update hmoves hL (fun _ h => h.elim) rfl (fun k B hB => ?_) fun _ _ h => .inl h, ?_⟩
    · by_cases hk : k = L.activations.size
      · rw [hk, hat] at hB
        cases hB
        exact .inr ⟨hknows.grows hL, hev.has hhas, U, src, hof.grows hL, hown⟩
      · refine .inl ?_
        rw [← hB, enter]
        simp [Array.getElem?_push, hk]
    · have hstart : Safe U F src ⟨0, [], [], 0⟩ := fun n =>
        U.safe_start hfits.placed hlays (hfits.names src (List.mem_of_getElem? hof.2)) n
      refine ⟨⟨A, U, F, src, [], 0, ⟨hat, hof.grows hL, ⟨u, hcode, hfits.pool⟩, ?_, ?_⟩, ?_⟩, ?_⟩
      · refine ⟨hunit, hindex, hlocals, hbase, ?_⟩
        rw [hhandlers]
        trivial
      · exact Point.catches_nil _
      · show Safe U F src ⟨f.ip, f.stack, [], 0⟩
        rw [hip, hstack]
        exact hstart
      · rw [hresume]
        exact (hframes.grows hL hev).switch fun K p hfits => hfits.2

/-- **A frame is given a value.** -/
theorem Tracks.resume {v : Value} {r : Resume} (h : L.Tracks m ⟨w, f :: fs, .deliver r v, depth⟩) :
    L.Tracks m (Machine.resumeWith w f fs depth v r) := by
  obtain ⟨hworld, hframes⟩ := h
  obtain ⟨a, as, A, U, F, src, rg, withs, hrunning, hseat, hsafe, hrest⟩ := hframes.running
  -- The frame goes on with other operands.
  have hgo : ∀ stack, Safe U F src ⟨f.ip, stack, rg, withs⟩ →
      L.Tracks m ⟨w, { f with stack } :: fs, .execute, depth⟩ := by
    intro stack hstack
    refine ⟨hworld, ?_⟩
    show L.Follows m w.envs .execute ({ f with stack } :: fs) L.running
    rw [hrunning]
    exact ⟨⟨A, U, F, src, rg, withs, hseat.stays (f.stays_go _ _), hstack⟩, hrest⟩
  cases r with
  | push => exact hgo _ (hsafe v)
  | discard => exact hgo _ (hsafe v)
  | pushInstead other => exact hgo _ (hsafe v)
  | callWith this args what =>
    refine ⟨hworld, ?_⟩
    show L.Follows m w.envs _ (f :: fs) L.running
    rw [hrunning]
    refine ⟨⟨A, U, F, src, rg, withs, hseat, ?_⟩, hrest⟩
    have hpushed : ∀ u, Safe U F src ⟨f.ip, Resume.push.after u f.stack, rg, withs⟩ := hsafe
    exact Control.fits_call (fun c hc => hworld.runs c (.inl hc)) hpushed v this args what

/-- **A frame returns.** -/
theorem Tracks.ret {v : Value} (h : L.Tracks m ⟨w, f :: fs, .ret v, depth⟩) :
    L.leave.Tracks m ⟨w, fs, .deliver f.resume v, depth - 1⟩ := by
  obtain ⟨hworld, hframes⟩ := h
  refine ⟨hworld.leave, ?_⟩
  show L.leave.Follows m w.envs _ fs L.running.tail
  obtain ⟨a, as, A, U, F, src, rg, withs, hrunning, -, -, hrest⟩ := hframes.running
  rw [hrunning]
  exact (hrest.grows (grows_leave L) (.refl _)).switch fun K p hfits => hfits

/-- **An error looks for a handler.** -/
theorem Tracks.unwind {e : RuntimeError} {s' : State} (h : L.Tracks m ⟨w, f :: fs, .raise e, depth⟩)
    (hs' : m.unwind w f fs depth e = s') : (L.next m ⟨w, f :: fs, .raise e, depth⟩ s').Tracks m s' := by
  obtain ⟨hworld, hframes⟩ := h
  obtain ⟨a, as, A, U, F, src, rg, withs, hrunning, hseat, hfault, hrest⟩ := hframes.running
  have hleft : L.leave.Tracks m ⟨w, fs, .raise e, depth - 1⟩ := by
    refine ⟨hworld.leave, ?_⟩
    show L.leave.Follows m w.envs _ fs L.running.tail
    rw [hrunning]
    exact (hrest.grows (grows_leave L) (.refl _)).switch fun K p _ => hfault
  have hcatchable : e.isCatchable = true := by
    cases e with
    | internal fault => exact absurd rfl (hfault fault)
    | _ => rfl
  rw [Machine.unwind.eq_def] at hs'
  rcases hhandlers : f.handlers with _ | ⟨x, outer⟩
  · simp only [hhandlers] at hs'
    subst hs'
    rw [next]
    simpa using hleft
  · simp only [hhandlers, hcatchable, if_true] at hs'
    have hguards := hseat.held.handlers
    rw [hhandlers] at hguards
    rcases rg with _ | ⟨region, rg⟩
    · exact hguards.elim
    · obtain ⟨heap, envs, caches, log⟩ := w
      have hstays := World.stays_heap ⟨heap, envs, caches, log⟩ (m.realm.scripts_caughtValue heap e)
      generalize m.realm.caughtValue heap e = caught at hs' hstays
      subst hs'
      have hnext : L.next m ⟨⟨heap, envs, caches, log⟩, f :: fs, .raise e, depth⟩
          ⟨⟨caught.2, envs, caches, log⟩, f.catchIn x outer caught.1 :: fs, .execute, depth⟩ = L := by
        rw [next]
        exact if_neg (Nat.not_succ_le_self _)
      rw [hnext]
      refine ⟨hworld.moves (hstays.moves hworld.grounded _), ?_⟩
      show L.Follows m envs _ _ L.running
      rw [hrunning]
      have hcaught := hseat.catches region.1 region.2 rg rfl caught.1
      refine ⟨⟨A, U, F, src, rg, region.2, ⟨hseat.activation, hseat.source, hseat.code, ?_,
        (Safe.step hcaught).2⟩, ?_⟩, hrest⟩
      · exact ⟨hseat.held.unit, hseat.held.index, hseat.held.locals, hguards.1.env, hguards.2⟩
      · show Safe U F src ⟨x.target, caught.1 :: f.stack.drop (f.stack.length - x.stackSize), rg, region.2⟩
        rw [hguards.1.target, hguards.1.stackSize, Nat.sub_zero, List.drop_length]
        exact hcaught

/-- **One step** of a run keeps its ledger true. -/
theorem Tracks.step (hnatives : m.natives.Honest) {s s' : State} (h : L.Tracks m s)
    (hstep : m.step s = .running s') : (L.next m s s').Tracks m s' := by
  obtain ⟨w, frames, control, depth⟩ := s
  cases control with
  | enter callee target this args r =>
    cases target with
    | native n =>
      obtain rfl := Progress.running.inj hstep
      exact h.enterNative hnatives
    | script c => exact h.enterScript (Progress.running.inj hstep)
  | execute =>
    cases frames with
    | nil => cases hstep
    | cons f fs => exact h.execute hstep
  | deliver r v =>
    cases frames with
    | nil => cases hstep
    | cons f fs =>
      obtain rfl := Progress.running.inj hstep
      exact h.resume
  | ret v =>
    cases frames with
    | nil => cases hstep
    | cons f fs =>
      obtain rfl := Progress.running.inj hstep
      rw [next]
      simp only [Nat.le_refl, if_true]
      exact h.ret
  | raise e =>
    cases frames with
    | nil => cases hstep
    | cons f fs => exact h.unwind (Progress.running.inj hstep)

end

end Ledger

/-! ## Runs -/

/-- The states of a run, from a first state on. -/
def Machine.Reaches (m : Machine) : State → State → Prop :=
  Relation.ReflTransGen fun s s' => m.step s = .running s'

/-- The states of a run together with its ledger, from a first state and its ledger on. -/
inductive Machine.Traces (m : Machine) (s₀ : State) (L₀ : Ledger) : State → Ledger → Prop where
  /-- The first state. -/
  | start : Traces m s₀ L₀ s₀ L₀
  /-- One step further. -/
  | step {s s' : State} {L : Ledger} (h : Traces m s₀ L₀ s L) (hstep : m.step s = .running s') :
    Traces m s₀ L₀ s' (L.next m s s')

section

variable {m : Machine} {s₀ s s' : State} {L₀ L : Ledger}

/-- The state after a number of steps, or the last one if the run ends before. -/
def Machine.after (m : Machine) : Nat → State → State
  | 0, s => s
  | n + 1, s =>
    match m.step s with
    | .running s' => m.after n s'
    | .finished _ => s

/-- One more step at the start of a run. -/
theorem Machine.after_of_running (hstep : m.step s = .running s') (n : Nat) :
    m.after (n + 1) s = m.after n s' := by
  rw [after, hstep]

/-- A run that is over stays as it is. -/
theorem Machine.after_of_finished {o : Outcome} (hstep : m.step s = .finished o) (n : Nat) : m.after n s = s := by
  cases n with
  | zero => rfl
  | succ n => rw [after, hstep]

/-- One more step at the end of a run. -/
theorem Machine.after_succ (m : Machine) (n : Nat) (s : State) :
    m.after (n + 1) s = m.after 1 (m.after n s) := by
  induction n generalizing s with
  | zero => rfl
  | succ n ih =>
    rcases hstep : m.step s with s' | o
    · rw [after_of_running hstep, after_of_running hstep]
      exact ih s'
    · simp only [after_of_finished hstep]

/-- The state after a number of steps is one of the run. -/
theorem Machine.reaches_after (m : Machine) (n : Nat) (s : State) : m.Reaches s (m.after n s) := by
  induction n generalizing s with
  | zero => exact .refl
  | succ n ih =>
    rw [after]
    split
    · next s' hstep => exact .head hstep (ih s')
    · exact .refl

/-- Every run has a ledger. -/
theorem Machine.Reaches.traces (h : m.Reaches s₀ s) (L₀ : Ledger) : ∃ L, m.Traces s₀ L₀ s L := by
  induction h with
  | refl => exact ⟨L₀, .start⟩
  | tail _ hstep ih =>
    obtain ⟨L, hL⟩ := ih
    exact ⟨_, hL.step hstep⟩

/-- **A whole run** keeps its ledger true. -/
theorem Machine.Traces.tracks (hnatives : m.natives.Honest) (h : m.Traces s₀ L₀ s L)
    (h₀ : L₀.Tracks m s₀) : L.Tracks m s := by
  induction h with
  | start => exact h₀
  | step _ hstep ih => exact ih.step hnatives hstep

/-- A step leaves the blueprints alone. -/
theorem Ledger.blueprints_next (m : Machine) (L : Ledger) (s s' : State) :
    (L.next m s s').blueprints = L.blueprints := by
  obtain ⟨w, frames, control, depth⟩ := s
  rw [next]
  cases control with
  | enter callee target this args r =>
    cases target with
    | native => rfl
    | script c =>
      simp only
      split
      · rfl
      · rfl
  | execute =>
    cases frames with
    | nil => rfl
    | cons f fs =>
      simp only
      split
      · rw [make]
        split
        · rfl
        · rfl
      · rfl
  | deliver => rfl
  | ret v | raise e =>
    cases frames with
    | nil => rfl
    | cons f fs =>
      simp only
      split
      · rfl
      · rfl

/-- A run leaves the blueprints alone. -/
theorem Machine.Traces.blueprints_eq (h : m.Traces s₀ L₀ s L) : L.blueprints = L₀.blueprints := by
  induction h with
  | start => rfl
  | step _ _ ih => exact (Ledger.blueprints_next ..).trans ih

end

end ScriptEngine
