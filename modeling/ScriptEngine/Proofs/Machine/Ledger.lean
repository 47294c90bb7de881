import Mathlib.Logic.Relation
import ScriptEngine.Proofs.Machine.Turn

/-!
# Ledgers

A ledger is kept beside an engine. It lists what the loaded units were made of, every activation there
has ever been with the environment it made, and which activation made which function. The machine knows
nothing of it: `Ledger.next` reads off two states of a run, one after the other, what is to be written
down.

`Ledger.Within` follows the makers: the activations that lexically enclose an activation. The main
statement here is `Ledger.Holds.aligned`: the number of links that the scope table computes for two scopes
is the number of links between the environments of their activations.
-/

namespace ScriptEngine

/-- One activation of a function, over or not. -/
structure Activation where
  /-- The function. -/
  closure : Closure
  /-- The environment that the activation made for its variables, if it made one. -/
  own : Option EnvId

/-- The innermost environment at the start of the activation: its own, or else that of the function. -/
def Activation.base (A : Activation) : Option EnvId := A.own.or A.closure.env

/-- What has happened in an engine. -/
structure Ledger where
  /-- What the loaded units were made of. -/
  blueprints : Array Blueprint := #[]
  /-- All activations, in the order of their starts. -/
  activations : Array Activation := #[]
  /-- The numbers of the activations that are not over, the running one first. -/
  running : List Nat := []
  /-- Which activation made which function, the last first. -/
  made : List (Nat × Closure) := []

/-- The next instruction of a frame, and the offset behind it. -/
def Machine.read? (m : Machine) (f : Frame) : Option (Instruction × Nat) :=
  match m.code f.unit f.index with
  | .error _ => none
  | .ok (unit, function) =>
    match Instruction.read unit.pool function f.ip with
    | .ok found => found
    | .error _ => none

/-- The next instruction of a frame is the one in its code. -/
theorem Machine.read?_eq_some_iff {m : Machine} {f : Frame} {i : Instruction} {next : Nat} :
    m.read? f = some (i, next) ↔ ∃ unit function, m.code f.unit f.index = .ok (unit, function) ∧
      Instruction.read unit.pool function f.ip = .ok (some (i, next)) := by
  rw [read?]
  rcases hcode : m.code f.unit f.index with e | ⟨unit, function⟩
  · simp
  · rcases hread : Instruction.read unit.pool function f.ip with e | found
    · simp [hread]
    · simp [hread]

namespace Ledger

/-- The source of a function. -/
def IsOf (L : Ledger) (c : Closure) (U : Blueprint) (src : Source) : Prop :=
  L.blueprints[c.unit]? = some U ∧ U.sources[c.index]? = some src

/-- An activation starts. -/
def enter (L : Ledger) (A : Activation) : Ledger :=
  { L with activations := L.activations.push A, running := L.activations.size :: L.running }

/-- The running activation is over. -/
def leave (L : Ledger) : Ledger := { L with running := L.running.tail }

/-- The running activation makes a function. -/
def make (L : Ledger) (c : Closure) : Ledger :=
  match L.running with
  | a :: _ => { L with made := (a, c) :: L.made }
  | [] => L

/-- What one step of a run adds. An activation has made an environment if there is one more than
before. -/
def next (m : Machine) (L : Ledger) (s s' : State) : Ledger :=
  match s.control, s.frames with
  | .enter _ (.script c) .., frames =>
    let size := s.world.envs.store.size
    if frames.length < s'.frames.length then
      L.enter ⟨c, if size < s'.world.envs.store.size then some ⟨size⟩ else none⟩
    else L
  | .execute, f :: _ =>
    match m.read? f with
    | some (.closure index, _) => L.make ⟨f.unit, index, f.env⟩
    | _ => L
  | .ret _, _ :: rest | .raise _, _ :: rest => if s'.frames.length ≤ rest.length then L.leave else L
  | _, _ => L

/-! ## Makers -/

/-- An activation is one of a function that another activation made. -/
def Maker (L : Ledger) (a b : Nat) : Prop :=
  ∃ A, L.activations[a]? = some A ∧ (b, A.closure) ∈ L.made

/-- An activation lies within another one: it is that activation itself, or one of a function that was
made within that activation. -/
def Within (L : Ledger) : Nat → Nat → Prop := Relation.ReflTransGen L.Maker

/-! ## What is true of a ledger -/

/-- A function that may be called: the code of a program, or a function that was made. -/
def Knows (L : Ledger) (c : Closure) : Prop :=
  (c.env = none ∧ ∃ U src, L.IsOf c U src ∧ src.scope = .global ∧ src.isLowered = false) ∨
    ∃ a, (a, c) ∈ L.made

/-- The environment that an activation of a scope made. -/
structure Made (envs : Environments) (S : Scope) (parent : Option EnvId) (id : EnvId) : Prop where
  /-- The scope has variables for it. -/
  needsEnv : S.needsEnv = true
  /-- It binds these variables, has a slot for each, and links to the environment around the function. -/
  get : ∃ E, envs.get? id = some E ∧ E.kind = .variables S.envNames ∧ E.slots.size = S.envNames.size ∧
    E.parent = parent

/-- What is known about an activation. -/
structure Activated (L : Ledger) (envs : Environments) (A : Activation) : Prop where
  /-- Its function may be called. -/
  knows : L.Knows A.closure
  /-- The environment around the function is there. -/
  has : envs.Has A.closure.env
  /-- It has made an environment if its scope has variables for one. -/
  own : ∃ U src, L.IsOf A.closure U src ∧
    ((A.own = none ∧ (U.table.scope src.scope).needsEnv = false) ∨
      ∃ id, A.own = some id ∧ Made envs (U.table.scope src.scope) A.closure.env id)

/-- What is known about a function that an activation made. -/
structure Makes (L : Ledger) (envs : Environments) (a : Nat) (c : Closure) : Prop where
  /-- The environment around the function is there. -/
  has : envs.Has c.env
  /-- Nothing but objects lies between it and the environment of the activation. -/
  spans : ∃ A withs, L.activations[a]? = some A ∧ envs.Over A.base withs c.env
  /-- Its scope lies in the scope of the activation, and unless it is made in the body of a `with`
  statement it has the environment of the activation. -/
  inside : ∃ A U src inner, L.activations[a]? = some A ∧ L.IsOf A.closure U src ∧
    c.unit = A.closure.unit ∧ U.sources[c.index]? = some inner ∧ U.table.Encloses src.scope inner.scope ∧
    (inner.isLowered = false → src.isLowered = false ∧ c.env = A.base)

/-- A ledger is true of a machine and a world. -/
structure Holds (m : Machine) (L : Ledger) (w : World) : Prop where
  /-- Every loaded unit was made after its blueprint. -/
  units : ∀ (k : Nat) u, m.units[k]? = some u → ∃ U, L.blueprints[k]? = some U ∧ U.Fits u
  /-- There are no other blueprints. -/
  blueprints : ∀ (k : Nat) U, L.blueprints[k]? = some U → ∃ u, m.units[k]? = some u
  /-- Environments link to earlier ones. -/
  grounded : w.envs.Grounded
  /-- The activations. -/
  activated : ∀ (a : Nat) A, L.activations[a]? = some A → L.Activated w.envs A
  /-- The functions that were made. -/
  makes : ∀ a c, (a, c) ∈ L.made → L.Makes w.envs a c
  /-- Every function of a program that the world can run may be called. -/
  runs : ∀ c, w.Runs c → L.Knows c

/-! ## Larger ledgers -/

/-- A ledger to which something was added. -/
structure Grows (L L' : Ledger) : Prop where
  /-- Blueprints stay. -/
  blueprints : ∀ (k : Nat) U, L.blueprints[k]? = some U → L'.blueprints[k]? = some U
  /-- Activations stay. -/
  activations : ∀ (a : Nat) A, L.activations[a]? = some A → L'.activations[a]? = some A
  /-- Functions that were made stay. -/
  made : ∀ a c, (a, c) ∈ L.made → (a, c) ∈ L'.made

section

variable {L L' : Ledger} {a b : Environments}

/-- Nothing was added. -/
theorem Grows.refl (L : Ledger) : L.Grows L := ⟨fun _ _ h => h, fun _ _ h => h, fun _ _ h => h⟩

/-- An activation was added. -/
theorem grows_enter (L : Ledger) (A : Activation) : L.Grows (L.enter A) := by
  refine ⟨fun _ _ h => h, fun a B hB => ?_, fun _ _ h => h⟩
  obtain ⟨hlt, -⟩ := Array.getElem?_eq_some_iff.mp hB
  rw [enter]
  simp only [Array.getElem?_push_lt hlt]
  rw [← hB, Array.getElem?_eq_getElem hlt]

/-- An activation is over. -/
theorem grows_leave (L : Ledger) : L.Grows L.leave := ⟨fun _ _ h => h, fun _ _ h => h, fun _ _ h => h⟩

/-- The sources stay. -/
theorem IsOf.grows {c : Closure} {U : Blueprint} {src : Source} (h : L.IsOf c U src) (hL : L.Grows L') :
    L'.IsOf c U src :=
  ⟨hL.blueprints _ _ h.1, h.2⟩

/-- A function has one source. -/
theorem IsOf.unique {c : Closure} {U U' : Blueprint} {src src' : Source} (h : L.IsOf c U src)
    (h' : L.IsOf c U' src') : U = U' ∧ src = src' := by
  obtain rfl : U = U' := Option.some.inj (h.1.symm.trans h'.1)
  exact ⟨rfl, Option.some.inj (h.2.symm.trans h'.2)⟩

/-- What may be called may still be called. -/
theorem Knows.grows {c : Closure} (h : L.Knows c) (hL : L.Grows L') : L'.Knows c := by
  obtain ⟨henv, U, src, hof, hsrc⟩ | ⟨a, ha⟩ := h
  · exact .inl ⟨henv, U, src, hof.grows hL, hsrc⟩
  · exact .inr ⟨a, hL.made a c ha⟩

/-- An environment stays what it was made as. -/
theorem Made.evolves {S : Scope} {parent : Option EnvId} {id : EnvId} (h : Made a S parent id)
    (hev : a.Evolves b) : Made b S parent id := by
  obtain ⟨hneeds, E, hE, hkind, hsize, hparent⟩ := h
  obtain ⟨E', hE', hkind', hparent', hsize'⟩ := hev.2 id E hE
  exact ⟨hneeds, E', hE', hkind'.trans hkind, hsize'.trans hsize, hparent'.trans hparent⟩

/-- An activation stays what it was. -/
theorem Activated.grows {A : Activation} (h : L.Activated a A) (hL : L.Grows L') (hev : a.Evolves b) :
    L'.Activated b A := by
  obtain ⟨hknows, hhas, U, src, hof, hown⟩ := h
  refine ⟨hknows.grows hL, hev.has hhas, U, src, hof.grows hL, ?_⟩
  obtain hnone | ⟨id, hid, hmade⟩ := hown
  · exact .inl hnone
  · exact .inr ⟨id, hid, hmade.evolves hev⟩

/-- A function stays what it was made as. -/
theorem Makes.grows {k : Nat} {c : Closure} (h : L.Makes a k c) (hL : L.Grows L') (hev : a.Evolves b) :
    L'.Makes b k c := by
  obtain ⟨hhas, ⟨B, withs, hB, hover⟩, A, U, src, inner, hA, hof, hrest⟩ := h
  exact ⟨hev.has hhas, ⟨B, withs, hL.activations k B hB, hover.evolves hev⟩, A, U, src, inner,
    hL.activations k A hA, hof.grows hL, hrest⟩

end

/-! ## Scopes and environments -/

section

variable {m : Machine} {L : Ledger} {w : World} {a b : Nat} {A B : Activation}

/-- The blueprint of a function that is on record is that of a loaded unit. -/
theorem Holds.fits (hL : L.Holds m w) {c : Closure} {U : Blueprint} {src : Source} (h : L.IsOf c U src) :
    ∃ u, m.units[c.unit]? = some u ∧ U.Fits u := by
  obtain ⟨u, hu⟩ := hL.blueprints c.unit U h.1
  obtain ⟨U', hU', hfits⟩ := hL.units c.unit u hu
  obtain rfl : U = U' := Option.some.inj (h.1.symm.trans hU')
  exact ⟨u, hu, hfits⟩

/-- The innermost environment at the start of an activation is there. -/
theorem Activated.has_base {envs : Environments} (h : L.Activated envs A) : envs.Has A.base := by
  obtain ⟨-, hhas, U, src, -, ⟨hnone, -⟩ | ⟨id, hid, -, E, hE, -⟩⟩ := h
  · rw [Activation.base, hnone]
    exact hhas
  · rw [Activation.base, hid]
    exact Environments.has_of_get? hE

/-- **The maker of an activation's function** has the scope around. -/
theorem Holds.maker (hL : L.Holds m w) (hA : L.activations[a]? = some A) (h : L.Maker a b) :
    ∃ B U src inner, L.activations[b]? = some B ∧ L.IsOf B.closure U src ∧ L.IsOf A.closure U inner ∧
      U.table.Encloses src.scope inner.scope ∧ src.scope.index < inner.scope.index ∧
      (inner.isLowered = false → src.isLowered = false ∧ A.closure.env = B.base) := by
  obtain ⟨A', hA', hmade⟩ := h
  obtain rfl : A = A' := Option.some.inj (hA.symm.trans hA')
  obtain ⟨-, -, B, U, src, inner, hB, hof, hunit, hinner, hencloses, henv⟩ := hL.makes b A.closure hmade
  obtain ⟨u, -, hfits⟩ := hL.fits hof
  obtain ⟨S, hS, hparent⟩ := hencloses
  refine ⟨B, U, src, inner, hB, hof, ⟨?_, hinner⟩, ⟨S, hS, hparent⟩, ?_, henv⟩
  · rw [hunit]
    exact hof.1
  · exact hfits.nested inner.scope.index S hS src.scope hparent

/-- An activation lies within activations of its own unit and of scopes around its own only. -/
theorem Holds.within (hL : L.Holds m w) (h : L.Within a b) {U : Blueprint} {inner : Source}
    (hA : L.activations[a]? = some A) (hof : L.IsOf A.closure U inner) :
    ∃ B src, L.activations[b]? = some B ∧ L.IsOf B.closure U src ∧
      (a = b ∨ src.scope.index < inner.scope.index) := by
  induction h with
  | refl => exact ⟨A, inner, hA, hof, .inl rfl⟩
  | tail _ hmaker ih =>
    obtain ⟨B, src, hB, hsrc, hscope⟩ := ih
    obtain ⟨B', U', src', src₁, hB', hof', hof₁, -, hlt, -⟩ := hL.maker hB hmaker
    obtain ⟨rfl, rfl⟩ := hsrc.unique hof₁
    refine ⟨B', src', hB', hof', .inr ?_⟩
    obtain rfl | hscope := hscope
    · obtain rfl : A = B := Option.some.inj (hA.symm.trans hB)
      obtain ⟨-, rfl⟩ := hof.unique hof₁
      exact hlt
    · exact Nat.lt_trans hlt hscope

/-- The scope that encloses another one is its parent. -/
theorem parent_eq_of_encloses {T : ScopeTable} {outer inner : ScopeId} (h : T.Encloses outer inner) :
    (T.scope inner).parent = some outer := by
  obtain ⟨S, hS, hparent⟩ := h
  rw [ScopeTable.scope, hS]
  exact hparent

/-- **Every scope around** an activation that is not lowered has an activation that encloses it. -/
theorem Holds.enclosing (hL : L.Holds m w) {U : Blueprint} {inner : Source}
    (hA : L.activations[a]? = some A) (hof : L.IsOf A.closure U inner) {d : ScopeId} {n : Nat}
    (hdepth : U.table.envDepth? inner.scope d = some n)
    (hlowered : d = inner.scope ∨ inner.isLowered = false) :
    ∃ b B src, L.Within a b ∧ L.activations[b]? = some B ∧ L.IsOf B.closure U src ∧ src.scope = d := by
  -- The maker's scope is an earlier one, so the induction is on the scope.
  induction hi : inner.scope.index using Nat.strongRecOn generalizing a A inner n with
  | ind i ih =>
    by_cases hd : d = inner.scope
    · exact ⟨a, A, inner, .refl, hA, hof, hd.symm⟩
    · have hraised := hlowered.resolve_left hd
      obtain ⟨u, -, hfits⟩ := hL.fits hof
      have hinside := (hfits.names inner (List.mem_of_getElem? hof.2)).inside
      rw [hfits.nested.envDepth?_parent hinside (Ne.symm hd)] at hdepth
      obtain ⟨p, hp, hmap⟩ := Option.bind_eq_some_iff.mp hdepth
      obtain ⟨k, hk, -⟩ := Option.map_eq_some_iff.mp hmap
      obtain ⟨-, U₀, src₀, hof₀, hglobal, -⟩ | ⟨b, hb⟩ := (hL.activated a A hA).knows
      · -- Around the code of a program there is nothing.
        obtain ⟨rfl, rfl⟩ := hof.unique hof₀
        have hS := Array.getElem?_eq_getElem hinside
        rw [ScopeTable.scope, hS] at hp
        have hlt := hfits.nested _ _ hS p hp
        rw [hglobal] at hlt
        exact absurd hlt (Nat.not_lt_zero _)
      · have hmaker : L.Maker a b := ⟨A, hA, hb⟩
        obtain ⟨B, U', src, inner', hB, hsrc, hinner, hencloses, hlt, henv⟩ := hL.maker hA hmaker
        obtain ⟨rfl, rfl⟩ := hof.unique hinner
        obtain rfl : p = src.scope := by
          rw [parent_eq_of_encloses hencloses] at hp
          exact (Option.some.inj hp).symm
        obtain ⟨b', B', src', hwithin, hrest⟩ :=
          ih src.scope.index (hi ▸ hlt) hB hsrc hk (.inr (henv hraised).1) rfl
        exact ⟨b', B', src', .head hmaker hwithin, hrest⟩

/-- **Scopes and environments are aligned**: the environment of an enclosing activation is as many links
away as the scope table says. -/
theorem Holds.aligned (hL : L.Holds m w) (h : L.Within a b) {U : Blueprint} {inner src : Source}
    (hA : L.activations[a]? = some A) (hof : L.IsOf A.closure U inner)
    (hB : L.activations[b]? = some B) (hsrc : L.IsOf B.closure U src) {n : Nat}
    (hdepth : U.table.envDepth? inner.scope src.scope = some n)
    (hneeds : (U.table.scope src.scope).needsEnv = true)
    (hlowered : src.scope = inner.scope ∨ inner.isLowered = false) :
    ∃ id, B.own = some id ∧ Made w.envs (U.table.scope src.scope) B.closure.env id ∧
      (A.base.bind fun e => w.envs.ancestor? e n) = some id := by
  induction h using Relation.ReflTransGen.head_induction_on generalizing A inner n with
  | refl =>
    obtain rfl : A = B := Option.some.inj (hA.symm.trans hB)
    obtain ⟨-, rfl⟩ := hof.unique hsrc
    obtain ⟨u, -, hfits⟩ := hL.fits hof
    have hinside := (hfits.names inner (List.mem_of_getElem? hof.2)).inside
    obtain rfl : 0 = n := Option.some.inj ((hfits.nested.envDepth?_self hinside).symm.trans hdepth)
    obtain ⟨-, -, U', inner', hof', hown⟩ := hL.activated b A hA
    obtain ⟨rfl, rfl⟩ := hof.unique hof'
    obtain ⟨-, hnone⟩ | ⟨id, hid, hmade⟩ := hown
    · rw [hneeds] at hnone
      cases hnone
    · refine ⟨id, hid, hmade, ?_⟩
      obtain ⟨-, E, hE, -⟩ := hmade
      rw [Activation.base, hid]
      exact Environments.ancestor?_zero hE
  | head hmaker hwithin ih =>
    obtain ⟨C, U', mid, inner', hC, hmid, hinner, hencloses, hlt, henv⟩ := hL.maker hA hmaker
    obtain ⟨rfl, rfl⟩ := hof.unique hinner
    obtain ⟨u, -, hfits⟩ := hL.fits hof
    -- The enclosing activation is further out, so its scope is another one.
    have hout : src.scope.index < inner.scope.index := by
      obtain ⟨B', src', hB', hsrc', hle⟩ := hL.within hwithin hC hmid
      obtain rfl : B = B' := Option.some.inj (hB.symm.trans hB')
      obtain ⟨-, rfl⟩ := hsrc.unique hsrc'
      obtain rfl | hle := hle
      · obtain rfl : C = B := Option.some.inj (hC.symm.trans hB)
        obtain ⟨-, rfl⟩ := hmid.unique hsrc
        exact hlt
      · exact Nat.lt_trans hle hlt
    have hne : src.scope ≠ inner.scope := fun heq => by
      rw [heq] at hout
      exact absurd hout (Nat.lt_irrefl _)
    have hraised := hlowered.resolve_left hne
    have hinside := (hfits.names inner (List.mem_of_getElem? hof.2)).inside
    rw [hfits.nested.envDepth?_parent hinside hne.symm, parent_eq_of_encloses hencloses] at hdepth
    obtain ⟨k, hk, hn⟩ := Option.map_eq_some_iff.mp hdepth
    obtain ⟨id, hid, hmade, hancestor⟩ := ih hC hmid hk (.inr (henv hraised).1)
    refine ⟨id, hid, hmade, ?_⟩
    obtain ⟨-, -, U', inner', hof', hown⟩ := hL.activated _ A hA
    obtain ⟨rfl, rfl⟩ := hof.unique hof'
    obtain ⟨hnone, hneeds'⟩ | ⟨e, he, hneeds', E, hE, -, -, hparent⟩ := hown
    · rw [hneeds', if_neg (by simp)] at hn
      rw [Activation.base, hnone, ← hn, Option.none_or, (henv hraised).2]
      exact hancestor
    · rw [hneeds', if_pos rfl] at hn
      rw [Activation.base, he, ← hn, Option.some_or, Option.bind_some,
        hL.grounded.ancestor?_succ hE, hparent, (henv hraised).2]
      exact hancestor

/-- **An environment slot that code refers to** is a slot of the environment that the enclosing
activation of the variable's scope made, and has the variable's name there. -/
theorem Holds.addressed (hL : L.Holds m w) {U : Blueprint} {inner : Source}
    (hA : L.activations[a]? = some A) (hof : L.IsOf A.closure U inner) {withs depth slot : Nat} {v : VarId}
    (h : U.Addresses inner withs depth slot v) :
    ∃ b B src id, L.Within a b ∧ L.activations[b]? = some B ∧ L.IsOf B.closure U src ∧
      src.scope = (U.table.var v).scope ∧ B.own = some id ∧
      Made w.envs (U.table.scope src.scope) B.closure.env id ∧
      (A.base.bind fun e => w.envs.ancestor? e depth) = some id ∧
      (U.table.scope src.scope).envNames[slot]? = some (U.table.var v).name := by
  obtain ⟨-, V, hV, hslot, hdepth, hreach⟩ := h
  obtain ⟨u, -, hfits⟩ := hL.fits hof
  obtain ⟨hV', hname, hneeds⟩ := hfits.placed.named hslot
  obtain rfl : V = U.table.var v := Option.some.inj (hV.symm.trans hV')
  obtain ⟨b, B, src, hwithin, hB, hsrc, hscope⟩ := hL.enclosing hA hof hdepth hreach
  rw [← hscope] at hdepth hneeds hreach hname
  obtain ⟨id, hid, hmade, hancestor⟩ := hL.aligned hwithin hA hof hB hsrc hdepth hneeds hreach
  exact ⟨b, B, src, id, hwithin, hB, hsrc, hscope, hid, hmade, hancestor, hname⟩

end

end Ledger

end ScriptEngine
