import ScriptEngine.Environment
import ScriptEngine.Machine.Frame

/-!
# Chains of environments

Environments are only ever added, and what they bind and link to never changes: `Environments.Evolves`.
Every one links to an earlier one, so a chain can be followed link by link. `Environments.Over` says that
a number of `with` objects lie on top of an environment.
-/

namespace ScriptEngine

namespace Environments

/-- Every environment links to an earlier one. -/
def Grounded (es : Environments) : Prop :=
  ∀ id E, es.get? id = some E → ∀ p, E.parent = some p → p.index < id.index

/-- The environment, if one is given, is in the store. -/
def Has (es : Environments) (env : Option EnvId) : Prop := ∀ id, env = some id → id.index < es.store.size

/-- No environment is lost, and none binds other names or links elsewhere than before. -/
def Evolves (a b : Environments) : Prop :=
  a.store.size ≤ b.store.size ∧ ∀ id E, a.get? id = some E → ∃ E', b.get? id = some E' ∧
    E'.kind = E.kind ∧ E'.parent = E.parent ∧ E'.slots.size = E.slots.size

namespace Evolves

variable {a b c : Environments}

/-- The same environments. -/
theorem refl (es : Environments) : es.Evolves es := ⟨Nat.le_refl _, fun _ E h => ⟨E, h, rfl, rfl, rfl⟩⟩

/-- One after the other. -/
theorem trans (hab : a.Evolves b) (hbc : b.Evolves c) : a.Evolves c := by
  refine ⟨Nat.le_trans hab.1 hbc.1, fun id E hE => ?_⟩
  obtain ⟨E₁, hE₁, hkind, hparent, hsize⟩ := hab.2 id E hE
  obtain ⟨E₂, hE₂, hkind', hparent', hsize'⟩ := hbc.2 id E₁ hE₁
  exact ⟨E₂, hE₂, hkind'.trans hkind, hparent'.trans hparent, hsize'.trans hsize⟩

/-- What is in the store stays there. -/
theorem has (h : a.Evolves b) {env : Option EnvId} (ha : a.Has env) : b.Has env :=
  fun id hid => Nat.lt_of_lt_of_le (ha id hid) h.1

end Evolves

/-- An environment that there is. -/
theorem has_of_get? {es : Environments} {id : EnvId} {E : Environment} (h : es.get? id = some E) :
    es.Has (some id) := by
  rintro _ ⟨⟩
  exact (Array.getElem?_eq_some_iff.mp h).choose

/-! ## Setting a slot -/

/-- What setting a slot does to an environment. -/
theorem get?_setSlot (es : Environments) (id : EnvId) (slot : Nat) (v : Value) (other : EnvId) :
    (es.setSlot id slot v).get? other = (es.get? other).map fun E =>
      if other = id then { E with slots := E.slots.setIfInBounds slot v } else E := by
  obtain ⟨i⟩ := id
  obtain ⟨j⟩ := other
  simp only [get?, setSlot, Array.getElem?_modify, EnvId.mk.injEq]
  by_cases h : i = j
  · subst h
    simp
  · simp [h, Ne.symm h]

/-- **A slot is set.** -/
theorem evolves_setSlot (es : Environments) (id : EnvId) (slot : Nat) (v : Value) :
    es.Evolves (es.setSlot id slot v) := by
  refine ⟨by simp [setSlot], fun other E hE => ?_⟩
  rw [get?_setSlot, hE]
  by_cases h : other = id
  · exact ⟨{ E with slots := E.slots.setIfInBounds slot v }, by simp [h], rfl, rfl, by simp⟩
  · exact ⟨E, by simp [h], rfl, rfl, rfl⟩

/-- Links stay as they are. -/
theorem Grounded.setSlot {es : Environments} (h : es.Grounded) (id : EnvId) (slot : Nat) (v : Value) :
    (es.setSlot id slot v).Grounded := by
  intro other E hE p hp
  rw [get?_setSlot] at hE
  obtain ⟨E₀, hE₀, rfl⟩ := Option.map_eq_some_iff.mp hE
  refine h other E₀ hE₀ p ?_
  split at hp
  · exact hp
  · exact hp

/-! ## Adding an environment -/

/-- What adding an environment does. -/
theorem get?_push (es : Environments) (E : Environment) (id : EnvId) :
    (es.push E).2.get? id = if id.index = es.store.size then some E else es.get? id := by
  simp [push, get?, Array.getElem?_push]

/-- **An environment is added.** -/
theorem evolves_push (es : Environments) (E : Environment) : es.Evolves (es.push E).2 := by
  refine ⟨by simp [push], fun id E₀ hE₀ => ⟨E₀, ?_, rfl, rfl, rfl⟩⟩
  have hlt := has_of_get? hE₀ id rfl
  rw [get?_push, if_neg (Nat.ne_of_lt hlt)]
  exact hE₀

/-- A new environment may link to any that there is. -/
theorem Grounded.push {es : Environments} (h : es.Grounded) {E : Environment} (hE : es.Has E.parent) :
    (es.push E).2.Grounded := by
  intro id E' hE' p hp
  rw [get?_push] at hE'
  split at hE'
  · next hid =>
    cases hE'
    rw [hid]
    exact hE p hp
  · exact h id E' hE' p hp

/-! ## Following a chain -/

/-- A chain starts with the environment itself and goes on with the chain of the one around. -/
theorem Grounded.chain_eq {es : Environments} (hes : es.Grounded) {id : EnvId} {E : Environment}
    (h : es.get? id = some E) :
    es.chain id = id :: match E.parent with
      | some p => es.chain p
      | none => [] := by
  rw [chain]
  simp only [h]
  rcases hparent : E.parent with _ | p
  · rfl
  · simp only
    rw [if_pos (hes id E h p hparent)]

/-- The first environment of a chain. -/
theorem ancestor?_zero {es : Environments} {id : EnvId} {E : Environment} (h : es.get? id = some E) :
    es.ancestor? id 0 = some id := by
  rw [ancestor?, chain]
  simp only [h]
  split
  · rfl
  · split
    · rfl
    · rfl

/-- **The further environments of a chain** are those of the chain of the environment around. -/
theorem Grounded.ancestor?_succ {es : Environments} (hes : es.Grounded) {id : EnvId} {E : Environment}
    (h : es.get? id = some E) (n : Nat) :
    es.ancestor? id (n + 1) = E.parent.bind fun p => es.ancestor? p n := by
  rw [ancestor?, hes.chain_eq h]
  rcases hparent : E.parent with _ | p
  · rfl
  · rfl

/-- The environment has a slot if it is among its slots. -/
theorem hasSlot_eq {es : Environments} {id : EnvId} {E : Environment} (h : es.get? id = some E)
    (slot : Nat) : es.hasSlot id slot = decide (slot < E.slots.size) := by
  by_cases hlt : slot < E.slots.size
  · simp [hasSlot, slot?, h, hlt]
  · simp [hasSlot, slot?, h, hlt]

/-! ## Objects on top of an environment -/

/-- A number of objects lie on top of an environment. -/
def Over (es : Environments) (base : Option EnvId) : Nat → Option EnvId → Prop
  | 0, env => env = base
  | n + 1, env => ∃ id h slots parent, env = some id ∧ es.get? id = some ⟨.object h, slots, parent⟩ ∧
      es.Over base n parent

/-- Objects stay on top of an environment. -/
theorem Over.evolves {a b : Environments} (h : a.Evolves b) {base env : Option EnvId} {n : Nat}
    (ha : a.Over base n env) : b.Over base n env := by
  induction n generalizing env with
  | zero => exact ha
  | succ n ih =>
    obtain ⟨id, o, slots, parent, rfl, hget, hrest⟩ := ha
    obtain ⟨E, hget', hkind, hparent, -⟩ := h.2 id _ hget
    refine ⟨id, o, E.slots, E.parent, rfl, ?_, ?_⟩
    · rw [hget', show EnvKind.object o = E.kind from hkind.symm]
    · rw [hparent]
      exact ih hrest

/-- What lies on top of an environment in the store is in the store. -/
theorem Over.has {es : Environments} {base env : Option EnvId} {n : Nat} (h : es.Over base n env)
    (hbase : es.Has base) : es.Has env := by
  cases n with
  | zero =>
    obtain rfl : env = base := h
    exact hbase
  | succ n =>
    obtain ⟨id, o, slots, parent, rfl, hget, -⟩ := h
    exact has_of_get? hget

/-! ## Arguments -/

/-- **Binding arguments** makes no environment and no slot. -/
theorem evolves_bindArgs (env : Option EnvId) (slots : List VarSlot) (args : List Value)
    (locals : Array Value) (es : Environments) :
    es.Evolves (Frame.bindArgs env slots args locals es).2 ∧
      (es.Grounded → (Frame.bindArgs env slots args locals es).2.Grounded) ∧
      (Frame.bindArgs env slots args locals es).2.store.size = es.store.size ∧
      (Frame.bindArgs env slots args locals es).1.size = locals.size := by
  induction slots generalizing args locals es with
  | nil => exact ⟨.refl es, id, rfl, rfl⟩
  | cons slot slots ih =>
    cases slot with
    | frame i =>
      obtain ⟨hev, hground, hsize, hlocals⟩ :=
        ih args.tail (locals.setIfInBounds i (args.headD .undefined)) es
      exact ⟨hev, hground, hsize, hlocals.trans (by simp)⟩
    | env i =>
      cases env with
      | none => exact ih args.tail locals es
      | some id =>
        obtain ⟨hev, hground, hsize, hlocals⟩ :=
          ih args.tail locals (es.setSlot id i (args.headD .undefined))
        refine ⟨(es.evolves_setSlot id i _).trans hev, fun h => hground (h.setSlot id i _), ?_, hlocals⟩
        exact hsize.trans (by simp [setSlot])
    | global => exact ih args.tail locals es

end Environments

end ScriptEngine
