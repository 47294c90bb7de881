import ScriptEngine.Proofs.Host.Record

/-!
# Lexical addresses

The generator turns a name into a number of links and a slot. When the code runs, following that many
links from the running frame leads to the environment that the enclosing activation of the variable's
scope has made, and the slot there has the variable's name.
-/

namespace ScriptEngine

/-- In the code of a source, an instruction is what the names of a variable are read or written by. -/
def Blueprint.Names (U : Blueprint) (src : Source) (i : Instruction) (v : VarId) : Prop :=
  ∃ x : Identifier, x.var = some v ∧
    ((U.context src).loadOf? x = some i ∨ (U.context src).storeOf? x = some i)

/-- An environment is that of a variable, seen from an activation, and a slot of it is the variable's. -/
structure Ledger.Locates (L : Ledger) (envs : Environments) (a : Nat) (U : Blueprint) (v : VarId)
    (slot : Nat) (id : EnvId) : Prop where
  /-- The environment binds the variables of the scope that declares the variable, and has the slot. -/
  binds : ∃ E, envs.get? id = some E ∧
    E.kind = .variables (U.table.scope (U.table.var v).scope).envNames ∧ slot < E.slots.size
  /-- The slot has the variable's name. -/
  name : (U.table.scope (U.table.var v).scope).envNames[slot]? = some (U.table.var v).name
  /-- The activation lies within one of that scope. -/
  enclosed : ∃ b B src, L.Within a b ∧ L.activations[b]? = some B ∧ L.IsOf B.closure U src ∧
    src.scope = (U.table.var v).scope
  /-- Whichever activation of that scope it lies within, it made the environment. -/
  own : ∀ b B src, L.Within a b → L.activations[b]? = some B → L.IsOf B.closure U src →
    src.scope = (U.table.var v).scope → B.own = some id

section

variable {U : Blueprint} {src : Source} {i : Instruction} {v : VarId} {depth slot withs : Nat}

/-- **What the generator computes** for a name that is kept in an environment. -/
theorem Blueprint.Names.address (h : U.Names src i v)
    (hi : i = .getEnv depth slot ∨ i = .setEnv depth slot) :
    U.table.slotOf v = .env slot ∧
      U.table.envDepth? src.scope (U.table.var v).scope = some depth := by
  obtain ⟨x, hx, hload | hstore⟩ := h
  · simp only [GenContext.loadOf?, hx, Option.bind_some, Blueprint.context] at hload
    rcases hslot : U.table.slotOf v with k | k | _
    · rw [hslot] at hload
      cases hload
      obtain hi | hi := hi <;> cases hi
    · rw [hslot] at hload
      obtain ⟨n, hn, rfl⟩ := Option.map_eq_some_iff.mp hload
      obtain hi | hi := hi <;> cases hi
      exact ⟨rfl, hn⟩
    · rw [hslot] at hload
      cases hload
      obtain hi | hi := hi <;> cases hi
  · simp only [GenContext.storeOf?, hx, Option.bind_some, Blueprint.context] at hstore
    rcases hslot : U.table.slotOf v with k | k | _
    · rw [hslot] at hstore
      cases hstore
      obtain hi | hi := hi <;> cases hi
    · rw [hslot] at hstore
      obtain ⟨n, hn, rfl⟩ := Option.map_eq_some_iff.mp hstore
      obtain hi | hi := hi <;> cases hi
      exact ⟨rfl, hn⟩
    · rw [hslot] at hstore
      cases hstore
      obtain hi | hi := hi <;> cases hi

/-- The names of a variable that code refers to are read and written by the instructions for its slot. -/
theorem Blueprint.Addresses.names (h : U.Addresses src withs depth slot v)
    (hi : i = .getEnv depth slot ∨ i = .setEnv depth slot) : U.Names src i v := by
  obtain ⟨-, V, hV, hslot, hdepth, -⟩ := h
  have hvar : U.table.var v = V := by simp [ScopeTable.var, hV]
  refine ⟨⟨V.name, false, some v⟩, rfl, ?_⟩
  obtain rfl | rfl := hi
  · refine .inl ?_
    simp [GenContext.loadOf?, Blueprint.context, hslot, hvar, hdepth]
  · refine .inr ?_
    simp [GenContext.storeOf?, Blueprint.context, hslot, hvar, hdepth]

/-- **At most one scope** has its environment at a distance, so code that refers to one variable by a
number of links and a slot refers to no variable of another scope. -/
theorem Blueprint.Addresses.of_names (h : U.Addresses src withs depth slot v) {u : CodeUnit}
    (hU : U.Fits u) (hsrc : src.Scoped U.table) (hi : i = .getEnv depth slot ∨ i = .setEnv depth slot)
    {v' : VarId} (h' : U.Names src i v') : U.Addresses src withs depth slot v' := by
  obtain ⟨hw, V, hV, hslot, hdepth, hreach⟩ := h
  obtain ⟨hV₁, -, hneeds⟩ := hU.placed.named hslot
  obtain rfl : V = U.table.var v := Option.some.inj (hV.symm.trans hV₁)
  obtain ⟨hslot', hdepth'⟩ := h'.address hi
  obtain ⟨hV', -, hneeds'⟩ := hU.placed.named hslot'
  have hscope := hU.nested.envDepth?_inj hsrc.inside hdepth hdepth' hneeds hneeds'
  exact ⟨hw, _, hV', hslot', hdepth', hscope ▸ hreach⟩

end

/-- **The environment of a variable** that code refers to. -/
theorem Ledger.Holds.locates {m : Machine} {L : Ledger} {w : World} (hL : L.Holds m w) {a : Nat}
    {A : Activation} {U : Blueprint} {src : Source} (hA : L.activations[a]? = some A)
    (hof : L.IsOf A.closure U src) {withs depth slot : Nat} {v : VarId}
    (h : U.Addresses src withs depth slot v) :
    ∃ id, (A.base.bind fun e => w.envs.ancestor? e depth) = some id ∧
      L.Locates w.envs a U v slot id := by
  obtain ⟨b, B, outer, id, hwithin, hB, hsrc, hscope, hid, ⟨hneeds, E, hE, hkind, hsize, -⟩, hancestor,
    hname⟩ := hL.addressed hA hof h
  rw [hscope] at hneeds hkind hsize hname
  have hlt : slot < E.slots.size := by
    rw [hsize]
    exact (Array.getElem?_eq_some_iff.mp hname).choose
  refine ⟨id, hancestor, ⟨E, hE, hkind, hlt⟩, hname, ⟨b, B, outer, hwithin, hB, hsrc, hscope⟩, ?_⟩
  intro b' B' outer' hwithin' hB' hsrc' hscope'
  obtain ⟨-, V, hV, -, hdepth, hreach⟩ := h
  obtain rfl : U.table.var v = V := by simp [ScopeTable.var, hV]
  rw [← hscope'] at hneeds hdepth hreach
  obtain ⟨id', hid', -, hancestor'⟩ := hL.aligned hwithin' hA hof hB' hsrc' hdepth hneeds hreach
  rw [hid', ← hancestor', hancestor]

namespace Engine

/-- **Lexical addressing is right.** In an engine in which all code was compiled and all functions of
programs were made by running it, take any state of any run that is about to read or write a slot of an
environment. The code refers to a variable there, and for every variable whose names are compiled to that
instruction: following the links from the running frame leads to an environment of variables, those that
are kept there of the scope that declares the variable; the slot is one of them and has the variable's
name; and the environment is the one that was made by the activation of that scope which lexically encloses
the running function. -/
theorem lexical_address {e : Engine} {L L' : Ledger} (he : e.Recorded L) {control : Control}
    (hstart : e.Starts control) {s : State}
    (ht : e.machine.Traces { world := e.world, control } L s L') {f : Frame} {rest : List Frame}
    (hexecute : s.control = .execute) (hframes : s.frames = f :: rest) {i : Instruction}
    {next depth slot : Nat} (hread : e.machine.read? f = some (i, next))
    (hi : i = .getEnv depth slot ∨ i = .setEnv depth slot) :
    ∃ a as A U src, L'.running = a :: as ∧ L'.activations[a]? = some A ∧ f.unit = A.closure.unit ∧
      f.index = A.closure.index ∧ L'.IsOf A.closure U src ∧ (∃ v, U.Names src i v) ∧
      ∀ v, U.Names src i v → ∃ id,
        (f.env.bind fun id => s.world.envs.ancestor? id depth) = some id ∧
          L'.Locates s.world.envs a U v slot id := by
  obtain ⟨hL, hnatives, hrunning⟩ := he.holds
  obtain ⟨hworld, hfollows⟩ := ht.tracks hnatives (hstart.tracks hL hrunning)
  rw [hexecute, hframes] at hfollows
  obtain ⟨a, as, A, U, F, src, rg, withs, hrunning', hseat, hsafe, -⟩ := hfollows.running
  obtain ⟨⟨i', next', hat, hallows⟩, -⟩ := Safe.step hsafe
  obtain ⟨rfl, rfl⟩ : i' = i ∧ next' = next := by
    have hsame := ((hseat.advance (w := s.world) hat).2).symm.trans hread
    simpa using hsame
  obtain ⟨v₀, hv₀⟩ : ∃ v, U.Addresses src withs depth slot v := by
    obtain rfl | rfl := hi
    · exact hallows.1
    · exact hallows.1
  obtain ⟨u, -, hfits⟩ := hworld.fits hseat.source
  have hsrc := hfits.names src (List.mem_of_getElem? hseat.source.2)
  refine ⟨a, as, A, U, src, hrunning', hseat.activation, hseat.held.unit, hseat.held.index, hseat.source,
    ⟨v₀, hv₀.names hi⟩, fun v hv => ?_⟩
  have henv : f.env = A.base := by
    have hover := hseat.held.env
    rwa [hv₀.1] at hover
  rw [henv]
  exact hworld.locates hseat.activation hseat.source (hv₀.of_names hfits hsrc hi hv)

/-- A program that catches a value in a scope where names are looked up at run time, so that the caught
value is kept in an environment. -/
def caughtByName : Program :=
  ⟨[.withObject .none (.object .none []) (.block .none []),
    .tryCatch .none (.block .none [.throw .none (.literal .none (.bool true))])
      (some (.definition "e")) (.block .none [])], none, false⟩

/-- The handler of this program stores the caught value in the environment of the program. -/
theorem lexical_address_caughtByName :
    let e := ((create {}).compile caughtByName).2
    let u := (e.machine.units[0]?).getD default
    let control : Control :=
      .enter .undefined (.script ⟨0, u.entry, none⟩) e.machine.globalValue [] .push
    let s := e.machine.after 8 { world := e.world, control }
    ∃ L L' f rest next, e.Recorded L ∧ e.machine.Traces { world := e.world, control } L s L' ∧
      s.control = .execute ∧ s.frames = f :: rest ∧
      e.machine.read? f = some (.setEnv 0 0, next) ∧
      ∃ a as U src v id, L'.running = a :: as ∧ U.Names src (.setEnv 0 0) v ∧
        (f.env.bind fun id => s.world.envs.ancestor? id 0) = some id ∧
        L'.Locates s.world.envs a U v 0 id := by
  intro e u control s
  obtain ⟨L, hL⟩ : ∃ L, e.Recorded L := (Recorded.create {}).compiled (by decide)
  have hu : e.machine.units[0]? = some u := by
    have hsome : e.machine.units[0]?.isSome = true := by decide +kernel
    obtain ⟨u', hu'⟩ := Option.isSome_iff_exists.mp hsome
    simp only [u, hu', Option.getD_some]
  have hstart : e.Starts control := .run hu
  have hs : e.machine.Reaches { world := e.world, control } s := e.machine.reaches_after 8 _
  have hexecute : s.control = .execute := by decide +kernel
  have hhead : (s.frames.head?.bind e.machine.read?).map Prod.fst = some (.setEnv 0 0) := by
    decide +kernel
  clear_value s control u e
  obtain ⟨L', ht⟩ := hs.traces L
  obtain ⟨⟨i, next⟩, hbind, hi⟩ := Option.map_eq_some_iff.mp hhead
  obtain rfl : i = .setEnv 0 0 := hi
  obtain ⟨f, hf, hread⟩ := Option.bind_eq_some_iff.mp hbind
  obtain ⟨rest, hframes⟩ := List.head?_eq_some_iff.mp hf
  obtain ⟨a, as, A, U, src, hrunning, -, -, -, -, ⟨v, hv⟩, hlocates⟩ :=
    lexical_address hL hstart ht hexecute hframes hread (.inr rfl)
  obtain ⟨id, hid, hlocates⟩ := hlocates v hv
  exact ⟨L, L', f, rest, next, hL, ht, hexecute, hframes, hread, a, as, U, src, v, id, hrunning, hv, hid,
    hlocates⟩

end Engine

end ScriptEngine
