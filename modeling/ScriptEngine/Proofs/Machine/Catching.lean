import ScriptEngine.Proofs.Machine.Lookup

/-!
# Where the parameters of handlers are visible

A handler binds what it catches to a variable of its own. Names that are resolved before the program runs see
that variable exactly where they should: inside the handler, unless something closer binds the name, and
nowhere else.

Names that are looked up at run time do not know of handlers. In a scope where that happens all variables are
listed in one environment, and of those with the same name the one that was declared first is found, wherever
the lookup comes from. So the parameter is found there exactly if it is the first variable of its name in its
function, also outside of its handler, and it is passed over inside its handler if the function itself or an
earlier handler binds the name.
-/

namespace ScriptEngine

section

variable {T : ScopeTable} {Γ : List Level} {m : String} {v : VarId}

/-- What is seen is caught by a handler around, or what the name stands for in a scope. -/
theorem Sees.cases (h : Sees T Γ m v) :
    (∃ L ∈ Γ, ∃ x ∈ L.caught, x.var = some v) ∨ ∃ s, (T.scope s).own? m = some v := by
  induction Γ with
  | nil => exact h.elim
  | cons L Γ ih =>
    rw [Sees] at h
    rcases hcaught : L.caught? m with _ | x
    · rw [hcaught] at h
      obtain hown | ⟨-, hout⟩ := h
      · exact .inr ⟨_, hown⟩
      · obtain ⟨L', hL', hx⟩ | hown := ih hout
        · exact .inl ⟨L', List.mem_cons_of_mem L hL', hx⟩
        · exact .inr hown
    · rw [hcaught] at h
      exact .inl ⟨L, List.mem_cons_self, x, List.mem_of_find?_eq_some hcaught, h⟩

/-- **Inside a handler** its parameter is seen, unless something closer has the name. -/
theorem Sees.handler {Γ₁ Γ₂ : List Level} {L : Level} {x : Identifier} (h : Sees T (Γ₁ ++ L :: Γ₂) m v)
    (hx : L.caught? m = some x)
    (hcloser : ∀ L' ∈ Γ₁, L'.caught? m = none ∧ (T.scope L'.scope).own? m = none) : x.var = some v := by
  induction Γ₁ with
  | nil =>
    rw [List.nil_append, Sees, hx] at h
    exact h
  | cons L' Γ₁ ih =>
    obtain ⟨⟨hcaught, hown⟩, hrest⟩ := List.forall_mem_cons.mp hcloser
    rw [List.cons_append, Sees, hcaught, hown] at h
    obtain hnone | ⟨-, hout⟩ := h
    · cases hnone
    · exact ih hout hrest

end

namespace Program.Scoping

variable {p : Program} {T : ScopeTable}

/-- **A handler is known by its variable.** -/
theorem handler_inj (h : p.Scoping T) {Γ Γ' : List Level} {x y : Identifier} (hx : .handler Γ x ∈ p.sites)
    (hy : .handler Γ' y ∈ p.sites) (hsame : x.var = y.var) : x = y := by
  obtain ⟨v, hv, -⟩ := h.handler hx
  have hlt := List.pairwise_filterMap.mp h.caught
  have hself : ∀ {a b : Site}, a.caughtIndex? = some v.index → b.caughtIndex? = some v.index →
      ¬ ∀ i, a.caughtIndex? = some i → ∀ j, b.caughtIndex? = some j → i < j :=
    fun ha hb hall => Nat.lt_irrefl _ (hall _ ha _ hb)
  have hxi : (Site.handler Γ x).caughtIndex? = some v.index := by rw [Site.caughtIndex?, hv]; rfl
  have hyi : (Site.handler Γ' y).caughtIndex? = some v.index := by rw [Site.caughtIndex?, ← hsame, hv]; rfl
  obtain ⟨i, hi, hxs⟩ := List.getElem_of_mem hx
  obtain ⟨j, hj, hys⟩ := List.getElem_of_mem hy
  obtain hij | rfl | hji := Nat.lt_trichotomy i j
  · exact absurd (List.pairwise_iff_getElem.mp hlt i j hi hj hij) (hxs ▸ hys ▸ hself hxi hyi)
  · rw [hxs] at hys
    cases hys
    rfl
  · exact absurd (List.pairwise_iff_getElem.mp hlt j i hj hi hji) (hxs ▸ hys ▸ hself hyi hxi)

/-- What a handler catches is no property of the global object. -/
theorem handler_local (h : p.Scoping T) {Γ : List Level} {y : Identifier} (hy : .handler Γ y ∈ p.sites)
    {w : VarId} (hw : y.var = some w) : ∃ W, T.vars[w.index]? = some W ∧ W.storage ≠ .global := by
  obtain ⟨L, Γ', w', -, hw', ⟨W, hW, -⟩, hlocal⟩ := h.lexical _ hy
  obtain rfl : w = w' := Option.some.inj (hw.symm.trans hw')
  rw [ScopeTable.var, hW] at hlocal
  exact ⟨W, hW, hlocal⟩

/-- A handler around a name is a site. -/
theorem handler_of_caught (h : p.Scoping T) {site : Site} (hsite : site ∈ p.sites) {L : Level}
    (hL : L ∈ site.levels) {z : Identifier} (hz : z ∈ L.caught) : ∃ Γ, .handler Γ z ∈ p.sites := by
  obtain ⟨L', hL', hz'⟩ | hsite := (h.levels _ hsite L hL).caught z hz
  · rw [List.mem_singleton.mp hL'] at hz'
    cases hz'
  · exact hsite

/-- A name that is used stands for a variable. -/
theorem use_var (h : p.Scoping T) {Γ : List Level} {x : Identifier} (hx : .use Γ x ∈ p.sites) {v : VarId}
    (hv : x.var = some v) : ∃ V, T.vars[v.index]? = some V := by
  obtain ⟨-, v', hv', hsees⟩ := h.lexical _ hx
  obtain rfl : v = v' := Option.some.inj (hv.symm.trans hv')
  obtain ⟨L, hL, z, hz, hzv⟩ | ⟨s, hown⟩ := hsees.cases
  · obtain ⟨Γ', hz'⟩ := h.handler_of_caught hx hL hz
    obtain ⟨V, hV, -⟩ := h.handler_local hz' hzv
    exact ⟨V, hV⟩
  · obtain ⟨V, hV, -⟩ := h.rooted.valid.own hown
    exact ⟨V, hV⟩

/-- **Outside a handler** its parameter is not seen. -/
theorem outside (h : p.Scoping T) {Γ Γ' : List Level} {x y : Identifier} (hx : .use Γ x ∈ p.sites)
    (hy : .handler Γ' y ∈ p.sites) (hout : ∀ L ∈ Γ, y ∉ L.caught) :
    ∃ v w, x.var = some v ∧ y.var = some w ∧ v ≠ w := by
  obtain ⟨-, v, hv, hsees⟩ := h.lexical _ hx
  obtain ⟨w, hw, -⟩ := h.handler hy
  refine ⟨v, w, hv, hw, ?_⟩
  rintro rfl
  obtain ⟨L, hL, z, hz, hzv⟩ | ⟨s, hown⟩ := hsees.cases
  · obtain ⟨Γ'', hz'⟩ := h.handler_of_caught hx hL hz
    rw [h.handler_inj hz' hy (hzv.trans hw.symm)] at hz
    exact hout L hL hz
  · exact h.own_ne_caught hy hown hw

end Program.Scoping

namespace Engine

/-- **Handlers bind what they catch.** Take a program that compiles.

A name that was resolved before the program runs and stands outside a handler stands for another variable
than what the handler catches, with a slot of its own. A name inside a handler that catches under it stands
for what is caught, unless a handler or a function in between has the name.

A name that is looked up while the program runs, where no object has it, is found in the first scope
outwards that keeps a variable of that name in its environment. Of several such variables it is the one that
was declared first. -/
theorem handler_visible {p p' : Program} {c : Compilation} (hc : ScriptEngine.compile p = (.ok c, p')) :
    (∀ Γ x Γ' y, .use Γ x ∈ p'.sites → .handler Γ' y ∈ p'.sites → (∀ L ∈ Γ, y ∉ L.caught) →
      ∃ v w, x.var = some v ∧ y.var = some w ∧ v ≠ w ∧
        ((c.scopes.var v).scope = (c.scopes.var w).scope → c.scopes.slotOf v ≠ c.scopes.slotOf w)) ∧
    (∀ Γ₁ L Γ₂ x y, .use (Γ₁ ++ L :: Γ₂) x ∈ p'.sites → L.caught? x.name = some y →
      (∀ L' ∈ Γ₁, L'.caught? x.name = none ∧ (c.scopes.scope L'.scope).own? x.name = none) →
      ∃ v, x.var = some v ∧ y.var = some v) ∧
    ∀ (e : Engine) (L L' : Ledger) (control : Control) (s : State) (f : Frame) (rest : List Frame),
      e.Recorded L → e.Starts control → e.machine.Traces { world := e.world, control } L s L' →
      s.frames = f :: rest → ∃ a as A U src, L'.running = a :: as ∧ L'.activations[a]? = some A ∧
        L'.IsOf A.closure U src ∧ (U = ⟨c.scopes, c.unit.pool, p'.sources⟩ →
          ∀ n, s.world.Clear n f.env →
            match (c.scopes.chain src.scope).findSome? (fun id => c.scopes.keptNamed? id n) with
            | some v => ∃ id slot, c.scopes.slotOf v = .env slot ∧ s.world.resolve f.env n = .slot id slot ∧
              L'.Locates s.world.envs a U v slot id
            | none => s.world.resolve f.env n = .unbound) := by
  obtain ⟨a, ha, hok, hscoping, hlexical⟩ := Blueprint.lexical_of_compile hc
  obtain ⟨a', ha', -, hscopes, -⟩ := compile_eq_ok hc
  obtain rfl : a = a' := congrArg Prod.fst (ha.symm.trans ha')
  have hplaced : c.scopes.Placed := hscopes ▸ (ScopeTable.placed_finish hscoping.rooted.valid).2.2.1
  refine ⟨fun Γ x Γ' y hx hy hout => ?_, fun Γ₁ L Γ₂ x y hx hy hcloser => ?_,
    fun e L L' control s f rest he hstart ht hframes => ?_⟩
  · obtain ⟨v, w, hv, hw, hne⟩ := hscoping.outside hx hy hout
    refine ⟨v, w, hv, hw, hne, fun hscope hsame => hne ?_⟩
    obtain ⟨V, hV⟩ := hscoping.use_var hx hv
    obtain ⟨W, hW, hlocal⟩ := hscoping.handler_local hy hw
    obtain ⟨V', hV', -⟩ := hlexical.ext.vars _ V hV
    obtain ⟨W', hW', -, -, hmoves⟩ := hlexical.ext.vars _ W hW
    rw [ScopeTable.var, ScopeTable.var, hV', hW'] at hscope
    exact (hplaced.slotOf_inj hW' hV' hscope.symm (fun hg => hlocal (hmoves.global hg)) hsame.symm).symm
  · obtain ⟨-, v, hv, hsees⟩ := hscoping.lexical _ hx
    refine ⟨v, hv, hsees.handler hy fun L' hL' => ?_⟩
    obtain ⟨hcaught, hown⟩ := hcloser L' hL'
    exact ⟨hcaught, hlexical.listed.own .. ▸ hown⟩
  · obtain ⟨hL, hnatives, hrunning⟩ := he.holds
    obtain ⟨hworld, hfollows⟩ := ht.tracks hnatives (hstart.tracks hL hrunning)
    rw [hframes] at hfollows
    obtain ⟨a, as, A, U, F, src, rg, withs, hrunning', hseat, -⟩ := hfollows.running
    refine ⟨a, as, A, U, src, hrunning', hseat.activation, hseat.source, fun hU n hclear => ?_⟩
    subst hU
    exact hworld.resolves hseat.activation hseat.source hseat.held.env hclear hlexical

/-- In the `with` body of the program that catches by name, and so outside of its handler, the handler's name
leads to what the handler catches. -/
theorem handler_visible_caughtByName :
    let e := ((create {}).compile caughtByName).2
    let u := (e.machine.units[0]?).getD default
    let control : Control :=
      .enter .undefined (.script ⟨0, u.entry, none⟩) e.machine.globalValue [] .push
    let s := e.machine.after 3 { world := e.world, control }
    ∃ c p' L L' f rest, ScriptEngine.compile caughtByName = (.ok c, p') ∧
      p'.sites.filterMap Site.caughtIndex? = [0] ∧ e.Recorded L ∧
      e.machine.Traces { world := e.world, control } L s L' ∧ s.frames = f :: rest ∧
      ∃ a id slot, c.scopes.slotOf ⟨0⟩ = .env slot ∧ s.world.resolve f.env "e" = .slot id slot ∧
        L'.Locates s.world.envs a ⟨c.scopes, c.unit.pool, p'.sources⟩ ⟨0⟩ slot id := by
  intro e u control s
  have hhead : s.frames.head?.isSome = true := by decide +kernel
  have hlacks : (s.world.envs.store.all fun E => E.kind.lacks s.world.heap "e") = true := by decide +kernel
  have hok : (ScriptEngine.compile caughtByName).1.isOk = true := by decide +kernel
  have hsources : ((ScriptEngine.compile caughtByName).2.sources.all fun src => src.scope = .global) = true := by
    decide +kernel
  have hsites : (ScriptEngine.compile caughtByName).2.sites.filterMap Site.caughtIndex? = [0] := by
    decide +kernel
  have hfirst : (ScriptEngine.compile caughtByName).1.toOption.map (fun c =>
      (c.scopes.chain .global).findSome? fun id => c.scopes.keptNamed? id "e") = some (some ⟨0⟩) := by
    decide +kernel
  rcases hc : ScriptEngine.compile caughtByName with ⟨error | c, p'⟩
  · rw [hc] at hok
    cases hok
  · rw [hc] at hsources hsites hfirst
    obtain ⟨hL, hstart, L', ht, hblueprints⟩ : e.Recorded _ ∧ e.Starts control ∧
        ∃ L, e.machine.Traces { world := e.world, control } _ s L ∧ _ := recorded_after {} (by decide) hc 3
    clear_value s control u e
    obtain ⟨f, hf⟩ := Option.isSome_iff_exists.mp hhead
    obtain ⟨rest, hframes⟩ := List.head?_eq_some_iff.mp hf
    obtain ⟨-, -, hrun⟩ := handler_visible hc
    obtain ⟨a, as, A, U, src, -, -, hof, hfound⟩ := hrun e _ L' control s f rest hL hstart ht hframes
    obtain rfl := hblueprints U (Array.mem_of_getElem? hof.1)
    have hglobal : src.scope = .global := by
      simpa using List.all_eq_true.mp hsources src (List.mem_of_getElem? hof.2)
    have hfirst : ((c.scopes.chain .global).findSome? fun id => c.scopes.keptNamed? id "e") = some ⟨0⟩ :=
      Option.some.inj hfirst
    have hlookup := hfound rfl "e" (World.clear_of_lacks hlacks f.env)
    rw [hglobal, hfirst] at hlookup
    obtain ⟨id, slot, hrest⟩ := hlookup
    exact ⟨c, p', _, L', f, rest, rfl, hsites, hL, ht, hframes, a, id, slot, hrest⟩

end Engine

end ScriptEngine
