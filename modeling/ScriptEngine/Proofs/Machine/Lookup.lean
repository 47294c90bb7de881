import ScriptEngine.Proofs.Machine.Addressing
import ScriptEngine.Proofs.Scope.Kept
import ScriptEngine.Proofs.Scope.Sources

/-!
# Names that are looked up at run time

In the body of a `with` statement names are looked for along the chain of environments. If no object on the
chain has the name, what is found is what the scope table says: going outwards from the scope of the running
function, the first scope that keeps a variable of that name in its environment, and of several variables of
that name the one that was declared first. `Ledger.Holds.resolves` says so of any running frame.

Where no handler has the name, that is the variable that the name stands for in the scope:
`Engine.lookup_lexical`.
-/

namespace ScriptEngine

/-! ## Walking a chain -/

namespace World

variable {w : World} {n : String}

/-- What a name is bound to on the chain of an environment, if there is one. -/
def scan (w : World) (n : String) : Option EnvId → Option Binding
  | none => none
  | some id => (w.envs.chain id).findSome? (w.envs.bindingAt? w.heap n)

/-- A name that is not found is unbound. -/
theorem resolve_eq (w : World) (env : Option EnvId) (n : String) :
    w.resolve env n = (w.scan n env).getD .unbound := by
  cases env with
  | none => rfl
  | some id => rfl

/-- No object on the chain of an environment has the property, neither its own nor inherited. -/
def Clear (w : World) (n : String) (env : Option EnvId) : Prop :=
  ∀ id ∈ env, ∀ id' ∈ w.envs.chain id, ∀ E h, w.envs.get? id' = some E → E.kind = .object h →
    w.heap.hasProperty h n = false

/-- **The first environment** of a chain is looked into first. -/
theorem scan_eq (hw : w.envs.Grounded) {id : EnvId} {E : Environment} (hE : w.envs.get? id = some E) :
    w.scan n (some id) = (w.envs.bindingAt? w.heap n id).or (w.scan n E.parent) := by
  rw [scan, hw.chain_eq hE, List.findSome?_cons]
  rcases w.envs.bindingAt? w.heap n id with _ | b
  · rcases E.parent with _ | p
    · rfl
    · rfl
  · rfl

/-- What is clear is clear further out. -/
theorem Clear.parent {id : EnvId} (h : w.Clear n (some id)) (hw : w.envs.Grounded) {E : Environment}
    (hE : w.envs.get? id = some E) : w.Clear n E.parent := by
  intro p hp id' hid'
  refine h id rfl id' ?_
  rw [hw.chain_eq hE, hp]
  exact List.mem_cons_of_mem id hid'

/-- **Objects without the property** are passed over. -/
theorem Clear.over (hw : w.envs.Grounded) {base env : Option EnvId} {withs : Nat}
    (h : w.envs.Over base withs env) (hclear : w.Clear n env) :
    w.Clear n base ∧ w.scan n env = w.scan n base := by
  induction withs generalizing env with
  | zero =>
    obtain rfl : env = base := h
    exact ⟨hclear, rfl⟩
  | succ withs ih =>
    obtain ⟨id, o, slots, parent, rfl, hget, hrest⟩ := h
    obtain ⟨hbase, hscan⟩ := ih hrest (hclear.parent hw hget)
    have hno := hclear id rfl id (hw.chain_eq hget ▸ List.mem_cons_self) _ o hget rfl
    refine ⟨hbase, ?_⟩
    rw [scan_eq hw hget, Environments.bindingAt?, hget]
    simp only [Option.map_some, hno, Bool.false_eq_true, if_false, Option.none_or]
    exact hscan

end World

/-- Whether an environment is no object with the property. -/
def EnvKind.lacks (heap : Heap) (n : String) : EnvKind → Bool
  | .object h => !heap.hasProperty h n
  | .variables _ => true

/-- If no environment is an object with the property, none on a chain is. -/
theorem World.clear_of_lacks {w : World} {n : String}
    (h : (w.envs.store.all fun E => E.kind.lacks w.heap n) = true) (env : Option EnvId) : w.Clear n env := by
  intro id hid id' hid' E o hE hkind
  have hlacks := Array.all_eq_true'.mp h E (Array.mem_of_getElem? hE)
  rw [hkind] at hlacks
  simpa [EnvKind.lacks] using hlacks

/-! ## Activations and the environments around them -/

/-- The slot of a name in the environments of a scope. -/
def ScopeTable.slotNamed? (T : ScopeTable) (n : String) (s : ScopeId) : Option Nat :=
  (T.scope s).envNames.findIdx? (· == n)

/-- The first scope of a chain that has a name in its environments, and the slot of the name there. -/
def ScopeTable.found? (T : ScopeTable) (n : String) (s : ScopeId) : Option (ScopeId × Nat) :=
  (T.chain s).findSome? fun s => (T.slotNamed? n s).map (s, ·)

/-- A scope that has the name decides, and the scopes further out do if it has not. -/
theorem ScopeTable.found?_cons {T : ScopeTable} {s : ScopeId} {outer : List ScopeId}
    (h : T.chain s = s :: outer) (n : String) :
    T.found? n s = match T.slotNamed? n s with
      | some slot => some (s, slot)
      | none => outer.findSome? fun s => (T.slotNamed? n s).map (s, ·) := by
  rw [found?, h, List.findSome?_cons]
  rcases T.slotNamed? n s with _ | slot
  · rfl
  · rfl

/-- The scope that is found lies on the chain and has the name. -/
theorem ScopeTable.found?_spec {T : ScopeTable} {n : String} {s d : ScopeId} {slot : Nat}
    (h : T.found? n s = some (d, slot)) : d ∈ T.chain s ∧ T.slotNamed? n d = some slot := by
  obtain ⟨d', hmem, hmap⟩ := List.exists_of_findSome?_eq_some h
  obtain ⟨k, hk, heq⟩ := Option.map_eq_some_iff.mp hmap
  cases heq
  exact ⟨hmem, hk⟩

namespace Ledger

variable {m : Machine} {L : Ledger} {w : World} {n : String} {a b : Nat} {A B : Activation} {U : Blueprint}
  {src : Source}

/-- **What an activation adds** to what is found: the variables of its own environment, if it made one. -/
theorem Holds.scan_base (hL : L.Holds m w) (hA : L.activations[a]? = some A) (hof : L.IsOf A.closure U src)
    (hclear : w.Clear n A.base) : w.Clear n A.closure.env ∧
      match U.table.slotNamed? n src.scope with
      | some slot => ∃ id, A.own = some id ∧ Made w.envs (U.table.scope src.scope) A.closure.env id ∧
        w.scan n A.base = some (.slot id slot)
      | none => w.scan n A.base = w.scan n A.closure.env := by
  obtain ⟨-, -, U', src', hof', hown⟩ := hL.activated a A hA
  obtain ⟨rfl, rfl⟩ := hof.unique hof'
  obtain ⟨hnone, hneeds⟩ | ⟨id, hid, hmade⟩ := hown
  · have hbase : A.base = A.closure.env := by rw [Activation.base, hnone, Option.none_or]
    have hempty : (U.table.scope src.scope).envNames = #[] := by
      rw [Scope.needsEnv, Bool.not_eq_false', Array.isEmpty_iff] at hneeds
      exact hneeds
    rw [hbase] at hclear ⊢
    rw [ScopeTable.slotNamed?, hempty, Array.findIdx?_empty]
    exact ⟨hclear, rfl⟩
  · have hbase : A.base = some id := by rw [Activation.base, hid, Option.some_or]
    obtain ⟨E, hE, hkind, -, hparent⟩ := hmade.get
    rw [hbase] at hclear ⊢
    have hout := hclear.parent hL.grounded hE
    have hscan := World.scan_eq (n := n) hL.grounded hE
    rw [hparent] at hout hscan
    simp only [Environments.bindingAt?, hE, Option.map_some, hkind] at hscan
    refine ⟨hout, ?_⟩
    rcases hslot : U.table.slotNamed? n src.scope with _ | slot <;> rw [ScopeTable.slotNamed?] at hslot <;>
      rw [hslot] at hscan
    · exact hscan
    · exact ⟨id, hid, hmade, hscan⟩

/-- **From a function to its maker** nothing is bound but by objects. -/
theorem Holds.scan_maker (hL : L.Holds m w) (hA : L.activations[a]? = some A) (h : L.Maker a b)
    (hB : L.activations[b]? = some B) (hclear : w.Clear n A.closure.env) :
    w.Clear n B.base ∧ w.scan n A.closure.env = w.scan n B.base := by
  obtain ⟨A', hA', hmade⟩ := h
  obtain rfl : A = A' := Option.some.inj (hA.symm.trans hA')
  obtain ⟨B', withs, hB', hover⟩ := (hL.makes b A.closure hmade).spans
  obtain rfl : B = B' := Option.some.inj (hB.symm.trans hB')
  exact hclear.over hL.grounded hover

/-- The chain of a function starts with its own scope. -/
theorem Holds.chain_cons (hL : L.Holds m w) {c : Closure} (hof : L.IsOf c U src) :
    ∃ outer, U.table.chain src.scope = src.scope :: outer := by
  obtain ⟨u, -, hfits⟩ := hL.fits hof
  exact ⟨_, hfits.nested.chain_eq (hfits.names src (List.mem_of_getElem? hof.2)).inside⟩

/-- **The program** has the last scope. -/
theorem Holds.chain_program (hL : L.Holds m w) (hof : L.IsOf A.closure U src) (hglobal : src.scope = .global) :
    U.table.chain src.scope = [src.scope] := by
  obtain ⟨u, -, hfits⟩ := hL.fits hof
  have hinside := (hfits.names src (List.mem_of_getElem? hof.2)).inside
  have hS := Array.getElem?_eq_getElem hinside
  have hparent : (U.table.scope src.scope).parent = none := by
    rw [ScopeTable.scope, hS]
    refine Option.eq_none_iff_forall_not_mem.mpr fun p hp => ?_
    have hlt := hfits.nested _ _ hS p hp
    rw [hglobal] at hlt
    exact absurd hlt (Nat.not_lt_zero _)
  rw [hfits.nested.chain_eq hinside, hparent]

/-- **The maker of a function** has the next scope. -/
theorem Holds.chain_maker (hL : L.Holds m w) (hA : L.activations[a]? = some A)
    (hof : L.IsOf A.closure U src) (h : L.Maker a b) :
    ∃ B outer, L.activations[b]? = some B ∧ L.IsOf B.closure U outer ∧ outer.scope.index < src.scope.index ∧
      U.table.chain src.scope = src.scope :: U.table.chain outer.scope := by
  obtain ⟨u, -, hfits⟩ := hL.fits hof
  have hinside := (hfits.names src (List.mem_of_getElem? hof.2)).inside
  obtain ⟨B, U', outer, src', hB, houter, hsrc, hencloses, hlt, -⟩ := hL.maker hA h
  obtain ⟨rfl, rfl⟩ := hof.unique hsrc
  refine ⟨B, outer, hB, houter, hlt, ?_⟩
  rw [hfits.nested.chain_eq hinside, parent_eq_of_encloses hencloses]

/-- The activation of the program, or one of a function that was made. -/
theorem Holds.program_or_maker (hL : L.Holds m w) (hA : L.activations[a]? = some A)
    (hof : L.IsOf A.closure U src) : A.closure.env = none ∧ src.scope = .global ∨ ∃ b, L.Maker a b := by
  obtain ⟨henv, U₀, src₀, hof₀, hglobal, -⟩ | ⟨b, hb⟩ := (hL.activated a A hA).knows
  · obtain ⟨rfl, rfl⟩ := hof.unique hof₀
    exact .inl ⟨henv, hglobal⟩
  · exact .inr ⟨b, A, hA, hb⟩

/-- **Every scope around** an activation has an activation that encloses it. -/
theorem Holds.enclosing_chain (hL : L.Holds m w) (hA : L.activations[a]? = some A)
    (hof : L.IsOf A.closure U src) {d : ScopeId} (hd : d ∈ U.table.chain src.scope) :
    ∃ b B outer, L.Within a b ∧ L.activations[b]? = some B ∧ L.IsOf B.closure U outer ∧ outer.scope = d := by
  induction hi : src.scope.index using Nat.strongRecOn generalizing a A src with
  | ind i ih =>
    obtain ⟨-, hglobal⟩ | ⟨b, hmaker⟩ := hL.program_or_maker hA hof
    · rw [hL.chain_program hof hglobal, List.mem_singleton] at hd
      exact ⟨a, A, src, .refl, hA, hof, hd.symm⟩
    · obtain ⟨B, outer, hB, houter, hlt, hchain⟩ := hL.chain_maker hA hof hmaker
      rw [hchain] at hd
      obtain rfl | hd := List.mem_cons.mp hd
      · exact ⟨a, A, src, .refl, hA, hof, rfl⟩
      · obtain ⟨b', B', outer', hwithin, hrest⟩ := ih outer.scope.index (hi ▸ hlt) hB houter hd rfl
        exact ⟨b', B', outer', .head hmaker hwithin, hrest⟩

/-- **What is found from an activation**: the first scope of its chain that has the name in its environments
decides, and the environment is that of an activation of that scope which encloses the activation. -/
theorem Holds.scan_eq (hL : L.Holds m w) (hA : L.activations[a]? = some A) (hof : L.IsOf A.closure U src)
    (hclear : w.Clear n A.base) :
    match U.table.found? n src.scope with
    | some (s, slot) => ∃ b B outer id, L.Within a b ∧ L.activations[b]? = some B ∧
      L.IsOf B.closure U outer ∧ outer.scope = s ∧ B.own = some id ∧
      Made w.envs (U.table.scope s) B.closure.env id ∧ w.scan n A.base = some (.slot id slot)
    | none => w.scan n A.base = none := by
  -- The maker's scope is an earlier one, so the induction is on the scope.
  induction hi : src.scope.index using Nat.strongRecOn generalizing a A src with
  | ind i ih =>
    obtain ⟨hout, hbase⟩ := hL.scan_base hA hof hclear
    rcases hslot : U.table.slotNamed? n src.scope with _ | slot
    · rw [hslot] at hbase
      obtain ⟨henv, hglobal⟩ | ⟨b, hmaker⟩ := hL.program_or_maker hA hof
      · rw [ScopeTable.found?_cons (hL.chain_program hof hglobal), hslot]
        rw [henv] at hbase
        exact hbase
      · obtain ⟨B, outer, hB, houter, hlt, hchain⟩ := hL.chain_maker hA hof hmaker
        obtain ⟨hclear', hscan⟩ := hL.scan_maker hA hmaker hB hout
        have hrest := ih outer.scope.index (hi ▸ hlt) hB houter hclear' rfl
        have hfound : U.table.found? n src.scope = U.table.found? n outer.scope := by
          rw [ScopeTable.found?_cons hchain, hslot]
          rfl
        rw [hfound, hbase, hscan]
        rcases hmore : U.table.found? n outer.scope with _ | ⟨s, slot⟩
        · rw [hmore] at hrest
          exact hrest
        · rw [hmore] at hrest
          obtain ⟨b', B', outer', id, hwithin, hfacts⟩ := hrest
          exact ⟨b', B', outer', id, .head hmaker hwithin, hfacts⟩
    · rw [hslot] at hbase
      obtain ⟨id, hid, hmade, hscan⟩ := hbase
      obtain ⟨outer, hchain⟩ := hL.chain_cons hof
      rw [ScopeTable.found?_cons hchain, hslot]
      exact ⟨a, A, src, id, .refl, hA, hof, rfl, hid, hmade, hscan⟩

/-- **Only one environment** can be meant: whichever activation of the deciding scope encloses the activation,
its environment is the one that is found. -/
theorem Holds.scan_own (hL : L.Holds m w) (h : L.Within a b) (hA : L.activations[a]? = some A)
    (hof : L.IsOf A.closure U src) (hclear : w.Clear n A.base) (hB : L.activations[b]? = some B)
    {outer : Source} (houter : L.IsOf B.closure U outer) {slot : Nat}
    (hfirst : U.table.found? n src.scope = some (outer.scope, slot)) :
    ∃ id, B.own = some id ∧ w.scan n A.base = some (.slot id slot) := by
  induction h using Relation.ReflTransGen.head_induction_on generalizing A src with
  | refl =>
    obtain rfl : A = B := Option.some.inj (hA.symm.trans hB)
    obtain ⟨-, rfl⟩ := hof.unique houter
    obtain ⟨-, hbase⟩ := hL.scan_base hA hof hclear
    rw [(ScopeTable.found?_spec hfirst).2] at hbase
    obtain ⟨id, hid, -, hscan⟩ := hbase
    exact ⟨id, hid, hscan⟩
  | head hmaker hwithin ih =>
    obtain ⟨C, mid, hC, hmid, hlt, hchain⟩ := hL.chain_maker hA hof hmaker
    have hfound := ScopeTable.found?_cons hchain n
    obtain ⟨hout, hbase⟩ := hL.scan_base hA hof hclear
    rcases hslot : U.table.slotNamed? n src.scope with _ | slot'
    · rw [hslot] at hbase hfound
      rw [hfound] at hfirst
      obtain ⟨hclear', hscan⟩ := hL.scan_maker hA hmaker hC hout
      rw [hbase, hscan]
      exact ih hC hmid hclear' hfirst
    · -- The deciding scope would be the function's own, but those further out have earlier ones.
      rw [hslot] at hfound
      rw [hfound] at hfirst
      obtain ⟨B', outer', hB', houter', hle⟩ := hL.within hwithin hC hmid
      obtain rfl : B = B' := Option.some.inj (hB.symm.trans hB')
      obtain ⟨-, rfl⟩ := houter.unique houter'
      obtain ⟨hscope, -⟩ := Prod.mk.inj (Option.some.inj hfirst)
      rw [hscope] at hlt
      obtain rfl | hle := hle
      · obtain rfl : C = B := Option.some.inj (hC.symm.trans hB)
        obtain ⟨-, rfl⟩ := hmid.unique houter
        exact absurd hlt (Nat.lt_irrefl _)
      · exact absurd (Nat.lt_trans hlt hle) (Nat.lt_irrefl _)

end Ledger

/-! ## Compiled programs -/

/-- What is known about the names of a blueprint, and of the table that analysis made for it. -/
structure Blueprint.Lexical (U : Blueprint) (t : ScopeTable) : Prop where
  /-- The table that analysis made is in order. -/
  rooted : t.Rooted
  /-- The table of the blueprint is the finished one. -/
  ext : t.Extends U.table
  /-- Chains of scopes are the same. -/
  chain : ∀ s : ScopeId, s.index < t.scopes.size → U.table.chain s = t.chain s
  /-- Environments list variables in the order of their declaration. -/
  listed : t.Listed U.table
  /-- No scope is added. -/
  size : U.table.scopes.size = t.scopes.size
  /-- Where a `with` statement is around or inside, names are looked up at run time. -/
  dynamic : ∀ src ∈ U.sources, (src.isLowered || hasWith src.body) = true →
    (t.scope src.scope).isDynamic = true
  /-- A name that no handler has stands for the only variable of that name. -/
  sole : ∀ src ∈ U.sources, ∀ m, .caught m ∉ bindingsAll src.body → t.Sole src.scope m

/-- **Compiled programs** are lexical. -/
theorem Blueprint.lexical_of_compile {p p' : Program} {c : Compilation} (h : compile p = (.ok c, p')) :
    ∃ a, Analyzer.program {} p = (a, p') ∧ a.failure = none ∧ p'.Scoping a.table ∧
      Blueprint.Lexical ⟨c.scopes, c.unit.pool, p'.sources⟩ a.table := by
  obtain ⟨a, ha, hok, hscopes, -⟩ := compile_eq_ok h
  have hscoping := Analyzer.program_scoping ha hok
  obtain ⟨t, -, hwalk⟩ := Analyzer.program_analyzes ha hok
  have hscope : p'.scope = some .global := by
    rw [Analyzer.program] at ha
    cases ha
    rfl
  obtain ⟨hext, hnested, -, hcount⟩ := ScopeTable.placed_finish hscoping.rooted.valid
  have hsource := fun src (hsrc : src ∈ p'.sources) => hscoping.source hscope (hwalk.source hsrc)
  refine ⟨a, ha, hok, hscoping, ?_⟩
  rw [hscopes]
  exact ⟨hscoping.rooted, hext,
    fun s hs => hext.chain_eq_of_nested hscoping.rooted.valid.nested hnested hs,
    ScopeTable.listed_finish hscoping.rooted.valid, hcount, fun src hsrc => (hsource src hsrc).1,
    fun src hsrc => (hsource src hsrc).2⟩

namespace Blueprint.Lexical

variable {U : Blueprint} {t : ScopeTable} {n : String} {s : ScopeId} {v : VarId}

/-- A variable that is found under a name is one of the scope. -/
theorem scope_eq (h : U.Lexical t) (hv : U.table.keptNamed? s n = some v) : (U.table.var v).scope = s := by
  obtain ⟨hmem, -⟩ := ScopeTable.keptNamed?_spec hv
  obtain ⟨V, hV, hscope⟩ := h.rooted.valid.scope_eq (h.listed.order s ▸ hmem)
  obtain ⟨V', hV', -, hscope', -⟩ := h.ext.vars _ V hV
  rw [ScopeTable.var, hV']
  exact hscope'.trans hscope

/-- **What is found along a chain** is the first variable that is kept under the name. -/
theorem found?_eq (h : U.Lexical t) (n : String) (s : ScopeId) :
    U.table.found? n s = ((U.table.chain s).findSome? fun s => U.table.keptNamed? s n).map fun v =>
      ((U.table.var v).scope, (U.table.var v).slot) := by
  have hone : ∀ s, (U.table.slotNamed? n s).map (s, ·) =
      (U.table.keptNamed? s n).map fun v => ((U.table.var v).scope, (U.table.var v).slot) := by
    intro s
    rw [ScopeTable.slotNamed?, h.listed.findIdx?_envNames]
    rcases hv : U.table.keptNamed? s n with _ | v
    · rfl
    · rw [Option.map_some, Option.map_some, Option.map_some, h.scope_eq hv]
  rw [ScopeTable.found?, List.map_findSome?]
  exact congrArg (fun f => (U.table.chain s).findSome? f) (funext hone)

/-- Only variables of the program are properties of the global object. -/
theorem isGlobal_eq_false (h : U.Lexical t) (hv : (t.scope s).own? n = some v) (hs : s ≠ .global) :
    (U.table.var v).isGlobal = false := by
  obtain ⟨V, hV, hscope, -⟩ := h.rooted.valid.own hv
  obtain ⟨V', hV', -, -, hmoves⟩ := h.ext.vars _ V hV
  rw [ScopeTable.var, hV', Variable.isGlobal]
  refine beq_eq_false_iff_ne.mpr fun hglobal => hs ?_
  exact hscope.symm.trans (h.rooted.valid.globals _ V hV (hmoves.global hglobal))

/-- **Where no handler has the name**, what is found is what the name stands for, unless that is a property of
the global object. -/
theorem lookup?_eq (h : U.Lexical t) (hs : s.index < t.scopes.size)
    (hdynamic : (t.scope s).isDynamic = true) (hsole : ∀ id ∈ t.chain s, t.Sole id n) :
    ((U.table.chain s).findSome? fun s => U.table.keptNamed? s n) =
      (U.table.lookup? s n).filter fun v => !(U.table.var v).isGlobal := by
  have hown : ∀ id ∈ t.chain s, U.table.keptNamed? id n =
      ((U.table.scope id).own? n).filter fun v => !(U.table.var v).isGlobal := fun id hid => by
    rw [h.listed.own]
    exact h.listed.keptNamed?_of_sole h.rooted.valid h.ext (h.rooted.dynamic_chain hs hdynamic hid) (hsole id hid)
  rw [ScopeTable.lookup?, h.chain s hs]
  clear hdynamic hsole
  refine h.rooted.induct (motive := fun s => (∀ id ∈ t.chain s, U.table.keptNamed? id n =
      ((U.table.scope id).own? n).filter fun v => !(U.table.var v).isGlobal) →
    ((t.chain s).findSome? fun s => U.table.keptNamed? s n) =
      ((t.chain s).findSome? fun s => (U.table.scope s).own? n).filter fun v => !(U.table.var v).isGlobal)
    (fun hchain hown => ?_) (fun s p hs hp hchain ih hown => ?_) hs hown
  · rw [hchain] at hown ⊢
    rw [List.findSome?_cons, List.findSome?_cons, hown _ List.mem_cons_self]
    rcases (U.table.scope .global).own? n with _ | v
    · rfl
    · rw [Option.filter_some]
      cases (U.table.var v).isGlobal
      · rfl
      · rfl
  · -- What a function binds is no property of the global object.
    rw [hchain] at hown ⊢
    rw [List.findSome?_cons, List.findSome?_cons, hown s List.mem_cons_self, h.listed.own]
    rcases hv : (t.scope s).own? n with _ | v
    · exact ih fun id hid => hown id (List.mem_cons_of_mem s hid)
    · have hne : s ≠ .global := by
        rintro rfl
        exact absurd (h.rooted.valid.parent_lt hp).1 (Nat.not_lt_zero _)
      rw [Option.filter_some, h.isGlobal_eq_false hv hne]
      rfl

end Blueprint.Lexical

/-! ## Running frames -/

/-- **What a running frame finds under a name**: along the scopes around its function, the first variable that
is kept under the name, in the environment of the enclosing activation of the variable's scope. -/
theorem Ledger.Holds.resolves {m : Machine} {L : Ledger} {w : World} (hL : L.Holds m w) {a : Nat}
    {A : Activation} {U : Blueprint} {src : Source} (hA : L.activations[a]? = some A)
    (hof : L.IsOf A.closure U src) {env : Option EnvId} {withs : Nat} (hover : w.envs.Over A.base withs env)
    {n : String} (hclear : w.Clear n env) {t : ScopeTable} (hU : U.Lexical t) :
    match (U.table.chain src.scope).findSome? (fun s => U.table.keptNamed? s n) with
    | some v => ∃ id slot, U.table.slotOf v = .env slot ∧ w.resolve env n = .slot id slot ∧
      L.Locates w.envs a U v slot id
    | none => w.resolve env n = .unbound := by
  obtain ⟨hbase, hscan⟩ := hclear.over hL.grounded hover
  have hfind := hL.scan_eq hA hof hbase
  have hfirst := hU.found?_eq n src.scope
  rw [World.resolve_eq, hscan]
  rcases hv : (U.table.chain src.scope).findSome? (fun s => U.table.keptNamed? s n) with _ | v
  · rw [hv] at hfirst
    rw [hfirst] at hfind
    simp only [Option.map_none] at hfind
    rw [hfind]
    rfl
  · rw [hv] at hfirst
    rw [hfirst] at hfind
    obtain ⟨b, B, outer, id, hwithin, hB, houter, hscope, hown, hmade, hfound⟩ := hfind
    obtain ⟨s, -, hkept⟩ := List.exists_of_findSome?_eq_some hv
    have hslot : U.table.slotOf v = .env (U.table.var v).slot := by
      rw [ScopeTable.slotOf]
      simp only [(ScopeTable.keptNamed?_spec hkept).2.1]
    obtain ⟨u, -, hfits⟩ := hL.fits hof
    obtain ⟨-, hname, -⟩ := hfits.placed.named hslot
    obtain ⟨E, hE, hkind, hsize, -⟩ := hmade.get
    refine ⟨id, _, hslot, by rw [hfound]; rfl, ⟨E, hE, hkind, ?_⟩, hname,
      ⟨b, B, outer, hwithin, hB, houter, hscope⟩, fun b' B' outer' hwithin' hB' houter' hscope' => ?_⟩
    · rw [hsize]
      exact (Array.getElem?_eq_some_iff.mp hname).choose
    · rw [Option.map_some, ← hscope'] at hfirst
      obtain ⟨id', hid', hfound'⟩ := hL.scan_own hwithin' hA hof hbase hB' houter' hfirst
      rw [hfound] at hfound'
      cases hfound'
      exact hid'

namespace Engine

/-- **Every blueprint** of an engine on record is that of a compiled program. -/
theorem Recorded.origin {e : Engine} {L : Ledger} (h : e.Recorded L) :
    ∀ U ∈ L.blueprints, ∃ p p' c, ScriptEngine.compile p = (.ok c, p') ∧
      U = ⟨c.scopes, c.unit.pool, p'.sources⟩ := by
  induction h with
  | create => exact fun U hU => absurd hU (Array.not_mem_empty U)
  | @compile e L _ p p' c _ hc ih =>
    intro U hU
    obtain hU | rfl := Array.mem_push.mp hU
    · exact ih U hU
    · exact ⟨p, p', c, hc, rfl⟩
  | heap _ _ ih | collect _ _ ih | natives _ _ ih | resetCaches _ ih | takeLog _ ih => exact ih
  | run _ _ ht _ ih =>
    intro U hU
    exact ih U (ht.blueprints_eq ▸ hU)

/-- **Lookup at run time agrees with static scoping.** In an engine in which all code was compiled and all
functions of programs were made by running it, let a run be under way, with some function in its innermost
frame, which has a `with` statement around it or in it. Take any name that no object on the frame's chain of
environments has as a property, and that no handler catches under, neither in the function nor in those
around it. If the name stands for a variable seen from the scope of the function, and that is no property of
the global object, then looking the name up gives the variable's slot, in the environment that was made by
the activation of the declaring scope which lexically encloses the running function. Otherwise the name is
unbound. -/
theorem lookup_lexical {e : Engine} {L L' : Ledger} (he : e.Recorded L) {control : Control}
    (hstart : e.Starts control) {s : State}
    (ht : e.machine.Traces { world := e.world, control } L s L') {f : Frame} {rest : List Frame}
    (hframes : s.frames = f :: rest) (n : String) :
    ∃ a as A U src, L'.running = a :: as ∧ L'.activations[a]? = some A ∧ f.unit = A.closure.unit ∧
      f.index = A.closure.index ∧ L'.IsOf A.closure U src ∧
      ((src.isLowered || hasWith src.body) = true → s.world.Clear n f.env →
        (∀ outer ∈ U.sources, outer.scope ∈ U.table.chain src.scope →
          .caught n ∉ bindingsAll outer.body) →
        match U.table.lookup? src.scope n with
        | some v =>
          if (U.table.var v).isGlobal then s.world.resolve f.env n = .unbound
          else ∃ id slot, U.table.slotOf v = .env slot ∧ s.world.resolve f.env n = .slot id slot ∧
            L'.Locates s.world.envs a U v slot id
        | none => s.world.resolve f.env n = .unbound) := by
  obtain ⟨hL, hnatives, hrunning⟩ := he.holds
  obtain ⟨hworld, hfollows⟩ := ht.tracks hnatives (hstart.tracks hL hrunning)
  rw [hframes] at hfollows
  obtain ⟨a, as, A, U, F, src, rg, withs, hrunning', hseat, -⟩ := hfollows.running
  refine ⟨a, as, A, U, src, hrunning', hseat.activation, hseat.held.unit, hseat.held.index, hseat.source,
    fun hwith hclear hcaught => ?_⟩
  obtain ⟨t, hU⟩ : ∃ t, U.Lexical t := by
    have hmem := Array.mem_of_getElem? hseat.source.1
    obtain ⟨p, p', c, hc, rfl⟩ := he.origin U (ht.blueprints_eq ▸ hmem)
    obtain ⟨a, -, -, -, hlexical⟩ := Blueprint.lexical_of_compile hc
    exact ⟨a.table, hlexical⟩
  obtain ⟨u, -, hfits⟩ := hworld.fits hseat.source
  have hsrc := List.mem_of_getElem? hseat.source.2
  have hinside := hU.size ▸ (hfits.names src hsrc).inside
  -- Every scope around the function is that of a source, and no handler there has the name.
  have hsole : ∀ id ∈ t.chain src.scope, t.Sole id n := by
    intro id hid
    rw [← hU.chain _ hinside] at hid
    obtain ⟨b, B, outer, -, -, houter, rfl⟩ := hworld.enclosing_chain hseat.activation hseat.source hid
    have hmem := List.mem_of_getElem? houter.2
    exact hU.sole outer hmem n (hcaught outer hmem hid)
  have hfound := hworld.resolves hseat.activation hseat.source hseat.held.env hclear hU
  rw [hU.lookup?_eq hinside (hU.dynamic src hsrc hwith) hsole] at hfound
  rcases hv : U.table.lookup? src.scope n with _ | v
  · rw [hv] at hfound
    exact hfound
  · rw [hv, Option.filter_some] at hfound
    cases hglobal : (U.table.var v).isGlobal with
    | true =>
      rw [hglobal] at hfound
      exact (if_pos hglobal).mpr hfound
    | false =>
      rw [hglobal] at hfound
      exact (if_neg (by simp [hglobal])).mpr hfound

/-- A program that calls a function which another one has made, and which looks up the parameter of that one. -/
def readsOutside : Program :=
  ⟨[.call .none (.call .none (.function .none none [.definition "x"]
      [.ret .none (some (.function .none none []
        [.withObject .none (.object .none []) (.block .none [])] false none))]
      false none) [.literal .none (.bool true)]) []], none, false⟩

/-- In the `with` body of the inner function, the parameter of the outer function is found in the environment
of its activation, and a name that nobody binds is found nowhere. -/
theorem lookup_lexical_readsOutside :
    let e := ((create {}).compile readsOutside).2
    let u := (e.machine.units[0]?).getD default
    let control : Control :=
      .enter .undefined (.script ⟨0, u.entry, none⟩) e.machine.globalValue [] .push
    let s := e.machine.after 13 { world := e.world, control }
    ∃ L L' f rest, e.Recorded L ∧ e.machine.Traces { world := e.world, control } L s L' ∧
      s.frames = f :: rest ∧ (e.machine.read? f).map Prod.fst = some .exitWith ∧
      s.world.Clear "x" f.env ∧ s.world.Clear "y" f.env ∧
      ∃ a as A U src, L'.running = a :: as ∧ L'.activations[a]? = some A ∧ L'.IsOf A.closure U src ∧
        hasWith src.body = true ∧
        (∀ outer ∈ U.sources, .caught "x" ∉ bindingsAll outer.body ∧ .caught "y" ∉ bindingsAll outer.body) ∧
        (∃ v id slot, U.table.lookup? src.scope "x" = some v ∧ (U.table.var v).scope ≠ src.scope ∧
          U.table.slotOf v = .env slot ∧ s.world.resolve f.env "x" = .slot id slot ∧
          L'.Locates s.world.envs a U v slot id) ∧
        U.table.lookup? src.scope "y" = none ∧ s.world.resolve f.env "y" = .unbound := by
  intro e u control s
  have hhead : (s.frames.head?.bind e.machine.read?).map Prod.fst = some .exitWith := by decide +kernel
  have hindex : s.frames.head?.map Frame.index = some 0 := by decide +kernel
  have hlacks : ∀ n ∈ ["x", "y"], (s.world.envs.store.all fun E => E.kind.lacks s.world.heap n) = true := by
    decide +kernel
  have hok : (ScriptEngine.compile readsOutside).1.isOk = true := by decide +kernel
  have hsources : ∀ src ∈ (ScriptEngine.compile readsOutside).2.sources,
      hasWith src.body = true ∧ .caught "x" ∉ bindingsAll src.body ∧ .caught "y" ∉ bindingsAll src.body := by
    decide +kernel
  have hnames : ∀ c ∈ (ScriptEngine.compile readsOutside).1.toOption,
      ∀ src ∈ (ScriptEngine.compile readsOutside).2.sources[0]?,
        (∃ v ∈ c.scopes.lookup? src.scope "x", (c.scopes.var v).isGlobal = false ∧
          (c.scopes.var v).scope ≠ src.scope) ∧ c.scopes.lookup? src.scope "y" = none := by
    decide +kernel
  rcases hc : ScriptEngine.compile readsOutside with ⟨error | c, p'⟩
  · rw [hc] at hok
    cases hok
  · rw [hc] at hsources hnames
    obtain ⟨hL, hstart, L', ht, hblueprints⟩ : e.Recorded _ ∧ e.Starts control ∧
        ∃ L, e.machine.Traces { world := e.world, control } _ s L ∧ _ := recorded_after {} (by decide) hc 13
    clear_value s control u e
    obtain ⟨⟨i, next⟩, hbind, hi⟩ := Option.map_eq_some_iff.mp hhead
    obtain ⟨f, hf, hread⟩ := Option.bind_eq_some_iff.mp hbind
    obtain ⟨rest, hframes⟩ := List.head?_eq_some_iff.mp hf
    obtain ⟨a, as, A, U, src, hrunning, hA, -, hplace, hof, hx⟩ := lookup_lexical hL hstart ht hframes "x"
    obtain ⟨a', as', A', U', src', hrunning', hA', -, -, hof', hy⟩ := lookup_lexical hL hstart ht hframes "y"
    obtain ⟨rfl, rfl⟩ := List.cons.inj (hrunning.symm.trans hrunning')
    obtain rfl := Option.some.inj (hA.symm.trans hA')
    obtain rfl := Option.some.inj (hof.1.symm.trans hof'.1)
    obtain rfl := Option.some.inj (hof.2.symm.trans hof'.2)
    obtain rfl := hblueprints U (Array.mem_of_getElem? hof.1)
    have hinner : p'.sources[0]? = some src := by
      rw [hframes] at hindex
      exact (hplace.symm.trans (Option.some.inj hindex)) ▸ hof.2
    obtain ⟨⟨v, hv, hlocal, houter⟩, hnone⟩ := hnames c rfl src hinner
    obtain ⟨hwith, -⟩ := hsources src (List.mem_of_getElem? hinner)
    have hinside : (src.isLowered || hasWith src.body) = true := by rw [hwith, Bool.or_true]
    have hclear : ∀ n ∈ ["x", "y"], s.world.Clear n f.env := fun n hn =>
      World.clear_of_lacks (hlacks n hn) f.env
    have hfound := hx hinside (hclear "x" (by simp)) fun outer houter _ => (hsources outer houter).2.1
    have hmissing := hy hinside (hclear "y" (by simp)) fun outer houter _ => (hsources outer houter).2.2
    simp only [Option.mem_def.mp hv, hlocal, Bool.false_eq_true, if_false] at hfound
    simp only [hnone] at hmissing
    obtain ⟨id, slot, hslot, hresolve, hlocates⟩ := hfound
    refine ⟨_, L', f, rest, hL, ht, hframes, ?_, hclear "x" (by simp), hclear "y" (by simp), a, as, A, _, src,
      hrunning, hA, hof, hwith, fun outer houter => (hsources outer houter).2,
      ⟨v, id, slot, hv, houter, hslot, hresolve, hlocates⟩, hnone, hmissing⟩
    rw [hread]
    exact congrArg some hi

end Engine

end ScriptEngine
