import ScriptEngine.Proofs.Code.Compiled

/-!
# Code is balanced

Whatever values calls and lookups give, code that was laid out for a function finds what it needs: enough
operands, the handler at the end of a protected region, the object at the end of a `with` body, and
variables where their slots are.

A *point* is what one function can see of its own activation: the offset, the operands, the protected
regions it is in and the number of `with` objects around. `Instruction.Allows` says what an instruction
needs at a point and where it may lead. `SafeFor` follows the code for a number of steps. The main
statement is `Blueprint.safe_start`: the start of a function is safe for every number of steps. It goes
backwards through the code: where the end of a stretch is safe, so is its start.
-/

namespace ScriptEngine

open Generation

/-- What a function sees of its activation. -/
structure Point where
  /-- The offset of the next instruction. -/
  ip : Nat
  /-- The operands, the top first. -/
  stack : List Value
  /-- The protected regions, the innermost first: where the handler starts, and the number of `with`
  objects around the region. -/
  regions : List (Nat × Nat)
  /-- The number of `with` objects around. -/
  withs : Nat

namespace Point

/-- The point with other operands at another offset. -/
def go (p : Point) (ip : Nat) (stack : List Value) : Point := { p with ip, stack }

/-- An error may lead to the handler of the innermost region, which receives one value. -/
def Catches (K : Point → Prop) (regions : List (Nat × Nat)) : Prop :=
  ∀ target withs outer, regions = (target, withs) :: outer → ∀ v, K ⟨target, [v], outer, withs⟩

end Point

/-- An environment slot that code of a source refers to: it belongs to a variable that the source can
reach, in no `with` body of the function. -/
def Blueprint.Addresses (U : Blueprint) (src : Source) (withs depth slot : Nat) (v : VarId) : Prop :=
  withs = 0 ∧ ∃ V, U.table.vars[v.index]? = some V ∧ U.table.slotOf v = .env slot ∧
    U.table.envDepth? src.scope V.scope = some depth ∧ (V.scope = src.scope ∨ src.isLowered = false)

/-- A function that is made inside a number of `with` bodies of another one. -/
structure Source.Inside (T : ScopeTable) (src : Source) (withs : Nat) (inner : Source) : Prop where
  /-- Its scope lies in the scope around it. -/
  encloses : T.Encloses src.scope inner.scope
  /-- It is lowered if it stands in any `with` body. -/
  isLowered : inner.isLowered = (src.isLowered || decide (0 < withs))

section

variable (U : Blueprint) (F : CodeFunction) (src : Source)

/-- What an instruction needs at a point, and that it leads to points of a kind only, whatever values it
comes upon. The offset behind the instruction is given. -/
def Instruction.Allows (K : Point → Prop) (p : Point) (next : Nat) : Instruction → Prop
  | .push v => K (p.go next (v :: p.stack))
  | .pop => ∃ v rest, p.stack = v :: rest ∧ K (p.go next rest)
  | .dup => ∃ v rest, p.stack = v :: rest ∧ K (p.go next (v :: v :: rest))
  | .getLocal slot => slot < F.localCount ∧ ∀ v, K (p.go next (v :: p.stack))
  | .setLocal slot => slot < F.localCount ∧ p.stack ≠ [] ∧ K (p.go next p.stack)
  | .getEnv depth slot =>
    (∃ v, U.Addresses src p.withs depth slot v) ∧ ∀ v, K (p.go next (v :: p.stack))
  | .setEnv depth slot =>
    (∃ v, U.Addresses src p.withs depth slot v) ∧ p.stack ≠ [] ∧ K (p.go next p.stack)
  | .getGlobal _ | .getName _ | .deleteGlobal _ | .deleteName _ | .getThis | .getCallee =>
    ∀ v, K (p.go next (v :: p.stack))
  | .setGlobal _ | .setName _ => p.stack ≠ [] ∧ K (p.go next p.stack)
  | .callName _ argc =>
    argc ≤ p.stack.length ∧ ∀ v, K (p.go next (v :: p.stack.drop argc))
  | .getMember .. | .deleteMember _ | .negate | .plus | .not | .typeof =>
    ∃ v rest, p.stack = v :: rest ∧ ∀ v, K (p.go next (v :: rest))
  | .setMember .. => ∃ v receiver rest, p.stack = v :: receiver :: rest ∧ K (p.go next (v :: rest))
  | .callGlobal _ site | .invokeMember _ site =>
    site.argc.toNat < p.stack.length ∧ ∀ v, K (p.go next (v :: p.stack.drop (site.argc.toNat + 1)))
  | .call argc => argc < p.stack.length ∧ ∀ v, K (p.go next (v :: p.stack.drop (argc + 1)))
  | .closure index =>
    (∃ inner, U.sources[index]? = some inner ∧ src.Inside U.table p.withs inner) ∧
      ∀ h, K (p.go next (.object h :: p.stack))
  | .newObject => ∀ h, K (p.go next (.object h :: p.stack))
  | .initProperty _ =>
    ∃ v h rest, p.stack = v :: .object h :: rest ∧ K (p.go next (.object h :: rest))
  | .binary _ => ∃ b a rest, p.stack = b :: a :: rest ∧ ∀ v, K (p.go next (v :: rest))
  | .jump target => K (p.go target p.stack)
  | .jumpIfFalse target =>
    ∃ v rest, p.stack = v :: rest ∧ K (p.go next rest) ∧ K (p.go target rest)
  | .jumpIfFalseOrPop target | .jumpIfTrueOrPop target =>
    ∃ v rest, p.stack = v :: rest ∧ K (p.go next rest) ∧ K (p.go target (v :: rest))
  | .enterWith => ∃ v rest, p.stack = v :: rest ∧ K ⟨next, rest, p.regions, p.withs + 1⟩
  | .exitWith => ∃ withs, p.withs = withs + 1 ∧ K ⟨next, p.stack, p.regions, withs⟩
  | .tryBegin target => p.stack = [] ∧ K ⟨next, [], (target, p.withs) :: p.regions, p.withs⟩
  | .tryEnd =>
    -- The handler starts behind the jump that leads over it.
    ∃ target outer, p.regions = (target, p.withs) :: outer ∧ (∃ b, U.at F (.jump b) next target) ∧
      K ⟨next, p.stack, outer, p.withs⟩
  | .throw | .ret => p.stack ≠ []
  | .retUndefined => True

/-- A point is safe for a number of steps: its instruction finds what it needs, and every point it leads
to is safe for one step less. -/
def SafeFor : Nat → Point → Prop
  | 0, _ => True
  | n + 1, p =>
    (∃ i next, U.at F i p.ip next ∧ i.Allows U F src (SafeFor n) p next) ∧
      Point.Catches (SafeFor n) p.regions

end

section

variable {U : Blueprint} {F : CodeFunction} {src : Source}

/-- An instruction that leads to points of a kind leads to points of a wider kind. -/
theorem Instruction.Allows.mono {K K' : Point → Prop} (hK : ∀ p, K p → K' p) {p : Point} {next : Nat}
    {i : Instruction} (h : i.Allows U F src K p next) : i.Allows U F src K' p next := by
  cases i <;> simp only [Instruction.Allows] at h ⊢ <;> grind

/-- Fewer steps are safe, too. -/
theorem SafeFor.succ {n : Nat} {p : Point} (h : SafeFor U F src (n + 1) p) : SafeFor U F src n p := by
  induction n generalizing p with
  | zero => trivial
  | succ n ih =>
    obtain ⟨⟨i, next, hat, hi⟩, hcatch⟩ := h
    refine ⟨⟨i, next, hat, hi.mono fun q hq => ih hq⟩, fun target withs outer hregions v => ?_⟩
    exact ih (hcatch target withs outer hregions v)

/-- Fewer steps are safe, too. -/
theorem SafeFor.mono {n m : Nat} {p : Point} (h : SafeFor U F src n p) (hm : m ≤ n) :
    SafeFor U F src m p := by
  induction hm with
  | refl => exact h
  | step _ ih => exact ih h.succ

/-- **One instruction**: its point is safe if those are to which it leads. -/
theorem SafeFor.of_at {n : Nat} {p : Point} {i : Instruction} {next : Nat} (hat : U.at F i p.ip next)
    (h : i.Allows U F src (SafeFor U F src n) p next)
    (hcatch : Point.Catches (SafeFor U F src n) p.regions) : SafeFor U F src n p := by
  rcases n with _ | n
  · trivial
  · refine ⟨⟨i, next, hat, h.mono fun q hq => hq.succ⟩, fun target withs outer hregions v => ?_⟩
    exact (hcatch target withs outer hregions v).succ

/-- **A jump** is itself a step, so where it leads need be safe for fewer steps only. -/
theorem SafeFor.of_jump {n : Nat} {p : Point} {target next : Nat} (hat : U.at F (.jump target) p.ip next)
    (h : ∀ m < n, SafeFor U F src m (p.go target p.stack))
    (hcatch : Point.Catches (SafeFor U F src n) p.regions) : SafeFor U F src n p := by
  rcases n with _ | n
  · trivial
  · refine ⟨⟨.jump target, next, hat, h n (Nat.lt_succ_self n)⟩, fun target withs outer hregions v => ?_⟩
    exact (hcatch target withs outer hregions v).succ

/-! ## Names -/

/-- A variable that code refers to: a slot of the frame, a slot of an environment, or a global. -/
theorem Identifier.Resolves.slot {x : Identifier}
    (hx : x.Resolves U.table src.scope src.isLowered) (hU : U.table.Placed) (hF : U.Lays F src) :
    ∃ v V, x.var = some v ∧ U.table.vars[v.index]? = some V ∧ U.table.var v = V ∧
      ((∃ slot, U.table.slotOf v = .frame slot ∧ slot < F.localCount) ∨
        (∃ slot, U.table.slotOf v = .env slot ∧ (V.scope = src.scope ∨ src.isLowered = false)) ∨
        U.table.slotOf v = .global) := by
  obtain ⟨v, V, hv, hV, -, hreach⟩ := hx
  have hvar : U.table.var v = V := by simp [ScopeTable.var, hV]
  refine ⟨v, V, hv, hV, hvar, ?_⟩
  rw [ScopeTable.slotOf, hvar]
  rcases hstorage : V.storage with _ | _ | _
  · -- A variable in a frame is one of the function itself.
    have hscope : V.scope = src.scope := by
      obtain h | h | ⟨-, h⟩ := hreach
      · exact h
      · rw [hstorage] at h
        cases h
      · rw [hstorage] at h
        cases h
    have hslot := hU.frame v.index V hV hstorage
    rw [hscope] at hslot
    refine .inl ⟨V.slot, rfl, ?_⟩
    rw [hF.localCount]
    exact Nat.lt_of_lt_of_le hslot (Nat.le_add_right _ _)
  · refine .inr (.inl ⟨V.slot, rfl, ?_⟩)
    obtain h | h | ⟨h, -⟩ := hreach
    · exact .inl h
    · rw [hstorage] at h
      cases h
    · exact .inr h
  · exact .inr (.inr rfl)

section

variable {K : Point → Prop} {p : Point} {next : Nat} {i : Instruction} {x : Identifier}

/-- **Reading a name** pushes a value. -/
theorem Instruction.allows_load (hU : U.table.Placed) (hF : U.Lays F src)
    (hx : x.Resolves U.table src.scope src.isLowered) (hw : p.withs = 0)
    (hi : (U.context src).loadOf? x = some i) (hK : ∀ v, K (p.go next (v :: p.stack))) :
    i.Allows U F src K p next := by
  obtain ⟨v, V, hv, hV, hvar, hslot⟩ := hx.slot hU hF
  simp only [GenContext.loadOf?, hv, Option.bind_some] at hi
  obtain ⟨slot, hslot, hlt⟩ | ⟨slot, hslot, hreach⟩ | hslot := hslot
  · rw [show (U.context src).table = U.table from rfl, hslot] at hi
    cases hi
    exact ⟨hlt, hK⟩
  · rw [show (U.context src).table = U.table from rfl, hslot, hvar] at hi
    obtain ⟨depth, hdepth, rfl⟩ := Option.map_eq_some_iff.mp hi
    exact ⟨⟨v, hw, V, hV, hslot, hdepth, hreach⟩, hK⟩
  · rw [show (U.context src).table = U.table from rfl, hslot] at hi
    cases hi
    exact hK

/-- **Writing a name** leaves the value on the stack. -/
theorem Instruction.allows_store (hU : U.table.Placed) (hF : U.Lays F src)
    (hx : x.Resolves U.table src.scope src.isLowered) (hw : p.withs = 0)
    (hi : (U.context src).storeOf? x = some i) (hstack : p.stack ≠ []) (hK : K (p.go next p.stack)) :
    i.Allows U F src K p next := by
  obtain ⟨v, V, hv, hV, hvar, hslot⟩ := hx.slot hU hF
  simp only [GenContext.storeOf?, hv, Option.bind_some] at hi
  obtain ⟨slot, hslot, hlt⟩ | ⟨slot, hslot, hreach⟩ | hslot := hslot
  · rw [show (U.context src).table = U.table from rfl, hslot] at hi
    cases hi
    exact ⟨hlt, hstack, hK⟩
  · rw [show (U.context src).table = U.table from rfl, hslot, hvar] at hi
    obtain ⟨depth, hdepth, rfl⟩ := Option.map_eq_some_iff.mp hi
    exact ⟨⟨v, hw, V, hV, hslot, hdepth, hreach⟩, hstack, hK⟩
  · rw [show (U.context src).table = U.table from rfl, hslot] at hi
    cases hi
    exact ⟨hstack, hK⟩

end

/-! ## Stretches of code -/

section

variable {n : Nat} {rg : List (Nat × Nat)} {a b w : Nat} {st : List Value}

/-- What is wanted of the end of a stretch in a position: one more value, or nothing. -/
def Ends (U : Blueprint) (F : CodeFunction) (src : Source) (n : Nat) (pos : Position) (b : Nat)
    (st : List Value) (rg : List (Nat × Nat)) (w : Nat) : Prop :=
  match pos with
  | .value => ∀ v, SafeFor U F src n ⟨b, v :: st, rg, w⟩
  | .effect => st = [] ∧ SafeFor U F src n ⟨b, [], rg, w⟩

/-- **Writing a name and dropping the value.** -/
theorem safe_bind (hU : U.table.Placed) (hF : U.Lays F src) {x : Identifier}
    (hx : x.Resolves U.table src.scope src.isLowered) (hw : w = 0)
    (hlaid : ((U.atSome F ((U.context src).storeOf? x)).seq (U.at F .pop)) a b)
    (hcatch : Point.Catches (SafeFor U F src n) rg) (hend : SafeFor U F src n ⟨b, st, rg, w⟩)
    (v : Value) : SafeFor U F src n ⟨a, v :: st, rg, w⟩ := by
  obtain ⟨m, ⟨i, hi, hat⟩, hpop⟩ := hlaid
  refine .of_at hat (Instruction.allows_store hU hF hx hw hi (by simp) ?_) hcatch
  exact .of_at hpop ⟨v, st, rfl, hend⟩ hcatch

/-- **The end of an expression.** -/
theorem safe_settle (hF : U.Lays F src) {pos : Position}
    (hlaid : Laid.settle U F (U.context src) pos a b)
    (hcatch : Point.Catches (SafeFor U F src n) rg) (hend : Ends U F src n pos b st rg w) (v : Value) :
    SafeFor U F src n ⟨a, v :: st, rg, w⟩ := by
  cases pos with
  | value =>
    obtain rfl : a = b := hlaid
    exact hend v
  | effect =>
    obtain ⟨rfl, hend⟩ := hend
    simp only [Laid.settle, Blueprint.context] at hlaid
    by_cases hprogram : src.isProgram = true
    · rw [if_pos hprogram] at hlaid
      obtain ⟨m, hset, hpop⟩ := hlaid
      have hslot : (U.table.layout src.scope).localCount < F.localCount := by
        rw [hF.localCount, if_pos hprogram]
        exact Nat.lt_succ_self _
      refine .of_at hset ⟨hslot, by simp, ?_⟩ hcatch
      exact .of_at hpop ⟨v, [], rfl, hend⟩ hcatch
    · rw [if_neg hprogram] at hlaid
      exact .of_at hlaid ⟨v, [], rfl, hend⟩ hcatch

/-- **A function is made.** -/
theorem safe_closure {inner : Source} (hinner : src.Inside U.table w inner)
    (hlaid : Laid.closure U F inner a b) (hcatch : Point.Catches (SafeFor U F src n) rg)
    (hend : ∀ v, SafeFor U F src n ⟨b, v :: st, rg, w⟩) : SafeFor U F src n ⟨a, st, rg, w⟩ := by
  obtain ⟨index, hindex, hat⟩ := hlaid
  exact .of_at hat ⟨⟨inner, hindex, hinner⟩, fun h => hend (.object h)⟩ hcatch

/-- The source of a function node lies inside the source around it. -/
theorem Source.inside_ofFunction {i : Info} {name : Option Identifier} {params : List Identifier}
    {body : List Node} {isDeclaration : Bool} {scope : Option ScopeId}
    (h : (Node.function i name params body isDeclaration scope).Scoped U.table src.scope
      src.isLowered w) :
    src.Inside U.table w (.ofFunction src.isLowered w name params body isDeclaration scope) := by
  obtain ⟨inner, rfl, hencloses, -⟩ := h
  exact ⟨hencloses, rfl⟩

end

/-! ## Forms of calls, assignments and removals -/

section

variable {c : GenContext} {form : Node} {target args receiver value object : Stretch} {argc a b : Nat}

/-- The forms of a call. -/
theorem Laid.call_cases (h : Laid.call U F c form target argc args receiver a b) :
    (∃ i n name, form = .member i n name ∧
      (receiver.seq (args.seq (.site U F .invokeMember name argc))) a b) ∨
    (∃ i name, form = .dynamic i name ∧ (args.seq (U.at F (.callName name argc))) a b) ∨
    (∃ i x, form = .identifier i x ∧
      ((U.at F (.getGlobal x.name)).seq (args.seq (.site U F .callGlobal x.name argc))) a b) ∨
    (target.seq (args.seq (U.at F (.call argc)))) a b := by
  cases form with
  | member i n name => exact .inl ⟨i, n, name, rfl, h⟩
  | dynamic i name => exact .inr (.inl ⟨i, name, rfl, h⟩)
  | identifier i x =>
    simp only [Laid.call] at h
    split at h
    · exact .inr (.inr (.inl ⟨i, x, rfl, h⟩))
    · exact .inr (.inr (.inr h))
  | _ => exact .inr (.inr (.inr h))

/-- The forms of an assignment. -/
theorem Laid.assign_cases (h : Laid.assign U F c form value object a b) :
    (∃ i x, form = .identifier i x ∧ (value.seq (U.atSome F (c.storeOf? x))) a b) ∨
    (∃ i name, form = .dynamic i name ∧ (value.seq (U.at F (.setName name))) a b) ∨
    (∃ i n name, form = .member i n name ∧
      (object.seq (value.seq (.site U F .setMember name 0))) a b) := by
  cases form with
  | identifier i x => exact .inl ⟨i, x, rfl, h⟩
  | dynamic i name => exact .inr (.inl ⟨i, name, rfl, h⟩)
  | member i n name => exact .inr (.inr ⟨i, n, name, rfl, h⟩)
  | _ => exact h.elim

/-- The forms of a removal. -/
theorem Laid.delete_cases (h : Laid.delete U F c form target object a b) :
    (∃ i n name, form = .member i n name ∧ (object.seq (U.at F (.deleteMember name))) a b) ∨
    (∃ i x, form = .identifier i x ∧ U.atSome F (c.eraseOf? x) a b) ∨
    (∃ i name, form = .dynamic i name ∧ U.at F (.deleteName name) a b) ∨
    (target.seq ((U.at F .pop).seq (U.at F (.push (.bool true))))) a b := by
  cases form with
  | member i n name => exact .inl ⟨i, n, name, rfl, h⟩
  | identifier i x => exact .inr (.inl ⟨i, x, rfl, h⟩)
  | dynamic i name => exact .inr (.inr (.inl ⟨i, name, rfl, h⟩))
  | _ => exact .inr (.inr (.inr h))

end

/-! ## Nodes -/

/-- A node whose start is safe wherever its end is. -/
def SafeNode (U : Blueprint) (F : CodeFunction) (src : Source) (nd : Node) : Prop :=
  ∀ {n : Nat} {pos : Position} {a b w : Nat} {st : List Value} {rg : List (Nat × Nat)},
    Laid U F (U.context src) src.isLowered w pos nd a b →
    nd.Scoped U.table src.scope src.isLowered w → Point.Catches (SafeFor U F src n) rg →
    Ends U F src n pos b st rg w → SafeFor U F src n ⟨a, st, rg, w⟩

section

variable {n a b w : Nat} {st : List Value} {rg : List (Nat × Nat)} {i : Info}

/-- **Values in order** pile up on the stack. -/
theorem safe_values {ns : List Node} (hns : ∀ nd ∈ ns, SafeNode U F src nd)
    (hlaid : LaidAll U F (U.context src) src.isLowered w .value ns a b)
    (hscoped : ScopedAll U.table src.scope src.isLowered w ns)
    (hcatch : Point.Catches (SafeFor U F src n) rg)
    (hend : ∀ vs : List Value, vs.length = ns.length → SafeFor U F src n ⟨b, vs ++ st, rg, w⟩) :
    SafeFor U F src n ⟨a, st, rg, w⟩ := by
  induction ns generalizing a st with
  | nil =>
    obtain rfl : a = b := hlaid
    exact hend [] rfl
  | cons nd rest ih =>
    obtain ⟨m, hfirst, hrest⟩ := hlaid
    refine hns nd List.mem_cons_self hfirst hscoped.1 hcatch fun v => ?_
    refine ih (fun nd' h => hns nd' (List.mem_cons_of_mem _ h)) hrest hscoped.2 fun vs hvs => ?_
    have hmore := hend (vs ++ [v]) (by simp [hvs])
    rwa [List.append_assoc] at hmore

/-- **Statements in order** leave the stack empty. -/
theorem safe_statements {ns : List Node} (hns : ∀ nd ∈ ns, SafeNode U F src nd)
    (hlaid : LaidAll U F (U.context src) src.isLowered w .effect ns a b)
    (hscoped : ScopedAll U.table src.scope src.isLowered w ns)
    (hcatch : Point.Catches (SafeFor U F src n) rg) (hend : SafeFor U F src n ⟨b, [], rg, w⟩) :
    SafeFor U F src n ⟨a, [], rg, w⟩ := by
  induction ns generalizing a with
  | nil =>
    obtain rfl : a = b := hlaid
    exact hend
  | cons nd rest ih =>
    obtain ⟨m, hfirst, hrest⟩ := hlaid
    refine hns nd List.mem_cons_self hfirst hscoped.1 hcatch ⟨rfl, ?_⟩
    exact ih (fun nd' h => hns nd' (List.mem_cons_of_mem _ h)) hrest hscoped.2

/-- **Properties in order** are defined on the object, which stays on the stack. -/
theorem safe_properties {ps : List (String × Node)} {h : Handle}
    (hps : ∀ p ∈ ps, SafeNode U F src p.2)
    (hlaid : LaidProperties U F (U.context src) src.isLowered w ps a b)
    (hscoped : ScopedProperties U.table src.scope src.isLowered w ps)
    (hcatch : Point.Catches (SafeFor U F src n) rg)
    (hend : SafeFor U F src n ⟨b, .object h :: st, rg, w⟩) :
    SafeFor U F src n ⟨a, .object h :: st, rg, w⟩ := by
  induction ps generalizing a with
  | nil =>
    obtain rfl : a = b := hlaid
    exact hend
  | cons p rest ih =>
    obtain ⟨name, value⟩ := p
    obtain ⟨m₁, hvalue, m₂, hinit, hrest⟩ := hlaid
    refine hps (name, value) List.mem_cons_self hvalue hscoped.1 hcatch fun v => ?_
    refine .of_at hinit ⟨v, h, st, rfl, ?_⟩ hcatch
    exact ih (fun p' hp' => hps p' (List.mem_cons_of_mem _ hp')) hrest hscoped.2

/-! ### Expressions -/

/-- A literal. -/
theorem safe_literal (hF : U.Lays F src) (l : Literal) : SafeNode U F src (.literal i l) := by
  rintro n pos a b w st rg ⟨m, ⟨v, -, hat⟩, hsettle⟩ - hcatch hend
  exact .of_at hat (safe_settle hF hsettle hcatch hend v) hcatch

/-- A resolved name. -/
theorem safe_identifier (hU : U.table.Placed) (hF : U.Lays F src) (x : Identifier) :
    SafeNode U F src (.identifier i x) := by
  rintro n pos a b w st rg ⟨m, ⟨j, hj, hat⟩, hsettle⟩ ⟨hw, hx⟩ hcatch hend
  refine .of_at hat (Instruction.allows_load hU hF hx hw hj fun v => ?_) hcatch
  exact safe_settle hF hsettle hcatch hend v

/-- A name that is looked up at run time. -/
theorem safe_dynamic (hF : U.Lays F src) (name : String) : SafeNode U F src (.dynamic i name) := by
  rintro n pos a b w st rg ⟨m, hat, hsettle⟩ - hcatch hend
  exact .of_at hat (fun v => safe_settle hF hsettle hcatch hend v) hcatch

/-- The receiver. -/
theorem safe_this (hF : U.Lays F src) : SafeNode U F src (.this i) := by
  rintro n pos a b w st rg ⟨m, hat, hsettle⟩ - hcatch hend
  exact .of_at hat (fun v => safe_settle hF hsettle hcatch hend v) hcatch

/-- **A call.** The target may be a property, whose object is evaluated instead. -/
theorem safe_call (hF : U.Lays F src) {target : Node} {args : List Node}
    (htarget : SafeNode U F src target)
    (hreceiver : ∀ j receiver name, target = .member j receiver name → SafeNode U F src receiver)
    (hargs : ∀ nd ∈ args, SafeNode U F src nd) : SafeNode U F src (.call i target args) := by
  intro n pos a b w st rg hlaid hscoped hcatch hend
  rw [Laid_call] at hlaid
  obtain ⟨m, hcall, hsettle⟩ := hlaid
  have hvalue : ∀ v, SafeFor U F src n ⟨m, v :: st, rg, w⟩ := safe_settle hF hsettle hcatch hend
  obtain ⟨j, receiver, name, rfl, m₁, hr, m₂, ha, k, site, -, hargc, hat⟩ |
    ⟨j, name, rfl, m₁, ha, hat⟩ | ⟨j, x, rfl, m₁, hget, m₂, ha, k, site, -, hargc, hat⟩ |
    ⟨m₁, ht, m₂, ha, hat⟩ := Laid.call_cases hcall
  · refine hreceiver j receiver name rfl hr hscoped.1 hcatch fun v => ?_
    refine safe_values hargs ha hscoped.2 hcatch fun vs hvs => .of_at hat ?_ hcatch
    rw [← hvs] at hargc
    simp [Instruction.Allows, Point.go, hargc, hvalue]
  · refine safe_values hargs ha hscoped.2 hcatch fun vs hvs => .of_at hat ?_ hcatch
    simp [Instruction.Allows, Point.go, ← hvs, hvalue]
  · refine .of_at hget (fun v => ?_) hcatch
    refine safe_values hargs ha hscoped.2 hcatch fun vs hvs => .of_at hat ?_ hcatch
    rw [← hvs] at hargc
    simp [Instruction.Allows, Point.go, hargc, hvalue]
  · refine htarget ht hscoped.1 hcatch fun v => ?_
    refine safe_values hargs ha hscoped.2 hcatch fun vs hvs => .of_at hat ?_ hcatch
    simp [Instruction.Allows, Point.go, ← hvs, hvalue]

/-- A property. -/
theorem safe_member (hF : U.Lays F src) {target : Node} (name : String)
    (htarget : SafeNode U F src target) : SafeNode U F src (.member i target name) := by
  rintro n pos a b w st rg ⟨m₁, ht, m₂, ⟨k, site, -, -, hat⟩, hsettle⟩ hscoped hcatch hend
  refine htarget ht hscoped hcatch fun v => .of_at hat ⟨v, st, rfl, ?_⟩ hcatch
  exact safe_settle hF hsettle hcatch hend

/-- **A binary operation.** A logical operator may skip its right operand. -/
theorem safe_binary (hF : U.Lays F src) (op : BinaryOp) {lhs rhs : Node}
    (hlhs : SafeNode U F src lhs) (hrhs : SafeNode U F src rhs) :
    SafeNode U F src (.binary i op lhs rhs) := by
  rintro n pos a b w st rg ⟨m, hbinary, hsettle⟩ hscoped hcatch hend
  have hvalue : ∀ v, SafeFor U F src n ⟨m, v :: st, rg, w⟩ := safe_settle hF hsettle hcatch hend
  -- Both operands, and then the operator.
  have hboth : ((Laid U F (U.context src) src.isLowered w .value lhs).seq
      ((Laid U F (U.context src) src.isLowered w .value rhs).seq (U.at F (.binary op)))) a m →
      SafeFor U F src n ⟨a, st, rg, w⟩ := by
    rintro ⟨m₁, hl, m₂, hr, hat⟩
    refine hlhs hl hscoped.1 hcatch fun u => hrhs hr hscoped.2 hcatch fun v => ?_
    exact .of_at hat ⟨v, u, st, rfl, hvalue⟩ hcatch
  cases op with
  | and =>
    obtain ⟨m₁, hl, m₂, hskip, hr⟩ := hbinary
    refine hlhs hl hscoped.1 hcatch fun u => ?_
    exact .of_at hskip ⟨u, st, rfl, hrhs hr hscoped.2 hcatch hvalue, hvalue u⟩ hcatch
  | or =>
    obtain ⟨m₁, hl, m₂, hskip, hr⟩ := hbinary
    refine hlhs hl hscoped.1 hcatch fun u => ?_
    exact .of_at hskip ⟨u, st, rfl, hrhs hr hscoped.2 hcatch hvalue, hvalue u⟩ hcatch
  | _ => exact hboth hbinary

/-- **A unary operation.** -/
theorem safe_unary (hF : U.Lays F src) (op : UnaryOp) {operand : Node}
    (hoperand : SafeNode U F src operand) : SafeNode U F src (.unary i op operand) := by
  rintro n pos a b w st rg ⟨m₁, ho, m₂, hop, hsettle⟩ hscoped hcatch hend
  have hvalue : ∀ v, SafeFor U F src n ⟨m₂, v :: st, rg, w⟩ := safe_settle hF hsettle hcatch hend
  refine hoperand ho hscoped hcatch fun v => ?_
  cases op with
  | void =>
    obtain ⟨m₃, hpop, hpush⟩ := hop
    exact .of_at hpop ⟨v, st, rfl, .of_at hpush (hvalue .undefined) hcatch⟩ hcatch
  | _ => exact .of_at hop ⟨v, st, rfl, hvalue⟩ hcatch

/-- **An assignment.** -/
theorem safe_assign (hU : U.table.Placed) (hF : U.Lays F src) {target value : Node}
    (hobject : ∀ j object name, target = .member j object name → SafeNode U F src object)
    (hvalue : SafeNode U F src value) : SafeNode U F src (.assign i target value) := by
  intro n pos a b w st rg hlaid hscoped hcatch hend
  rw [Laid_assign] at hlaid
  obtain ⟨m, hassign, hsettle⟩ := hlaid
  have hdone : ∀ v, SafeFor U F src n ⟨m, v :: st, rg, w⟩ := safe_settle hF hsettle hcatch hend
  obtain ⟨j, x, rfl, m₁, hright, k, hk, hat⟩ | ⟨j, name, rfl, m₁, hright, hat⟩ |
    ⟨j, object, name, rfl, m₁, ho, m₂, hright, k, site, -, -, hat⟩ := Laid.assign_cases hassign
  · refine hvalue hright hscoped.2 hcatch fun v => .of_at hat ?_ hcatch
    exact Instruction.allows_store hU hF hscoped.1.2 hscoped.1.1 hk (by simp) (hdone v)
  · exact hvalue hright hscoped.2 hcatch fun v => .of_at hat ⟨by simp, hdone v⟩ hcatch
  · refine hobject j object name rfl ho hscoped.1 hcatch fun u => ?_
    exact hvalue hright hscoped.2 hcatch fun v => .of_at hat ⟨v, u, st, rfl, hdone v⟩ hcatch

/-- **A function.** -/
theorem safe_function (hF : U.Lays F src) (name : Option Identifier) (params : List Identifier)
    (body : List Node) (isDeclaration : Bool) (scope : Option ScopeId) :
    SafeNode U F src (.function i name params body isDeclaration scope) := by
  intro n pos a b w st rg hlaid hscoped hcatch hend
  simp only [Laid] at hlaid
  split at hlaid
  · next hskip =>
    obtain rfl : a = b := hlaid
    rw [Bool.and_eq_true, decide_eq_true_eq] at hskip
    rw [hskip.2] at hend
    rw [hend.1]
    exact hend.2
  · obtain ⟨m, hclosure, hsettle⟩ := hlaid
    exact safe_closure (Source.inside_ofFunction hscoped) hclosure hcatch
      (safe_settle hF hsettle hcatch hend)

/-- **An object.** -/
theorem safe_object (hF : U.Lays F src) {ps : List (String × Node)}
    (hps : ∀ p ∈ ps, SafeNode U F src p.2) : SafeNode U F src (.object i ps) := by
  rintro n pos a b w st rg ⟨m₁, hnew, m₂, hlaid, hsettle⟩ hscoped hcatch hend
  refine .of_at hnew (fun h => ?_) hcatch
  exact safe_properties hps hlaid hscoped hcatch (safe_settle hF hsettle hcatch hend (.object h))

/-- **A removal.** -/
theorem safe_delete (hF : U.Lays F src) {target : Node} (htarget : SafeNode U F src target)
    (hobject : ∀ j object name, target = .member j object name → SafeNode U F src object) :
    SafeNode U F src (.delete i target) := by
  intro n pos a b w st rg hlaid hscoped hcatch hend
  rw [Laid_delete] at hlaid
  obtain ⟨m, hdelete, hsettle⟩ := hlaid
  have hvalue : ∀ v, SafeFor U F src n ⟨m, v :: st, rg, w⟩ := safe_settle hF hsettle hcatch hend
  obtain ⟨j, object, name, rfl, m₁, ho, hat⟩ | ⟨j, x, rfl, k, hk, hat⟩ | ⟨j, name, rfl, hat⟩ |
    ⟨m₁, ht, m₂, hpop, hpush⟩ := Laid.delete_cases hdelete
  · refine hobject j object name rfl ho hscoped hcatch fun u => ?_
    exact .of_at hat ⟨u, st, rfl, hvalue⟩ hcatch
  · obtain ⟨v, -, rfl⟩ := Option.map_eq_some_iff.mp hk
    refine .of_at hat ?_ hcatch
    split
    · exact hvalue
    · exact hvalue (.bool false)
  · exact .of_at hat hvalue hcatch
  · refine htarget ht hscoped hcatch fun u => ?_
    exact .of_at hpop ⟨u, st, rfl, .of_at hpush (hvalue (.bool true)) hcatch⟩ hcatch

/-! ### Statements -/

/-- **A variable statement.** -/
theorem safe_var (hU : U.table.Placed) (hF : U.Lays F src) (binding : Identifier)
    {init : Option Node} (hinit : ∀ nd ∈ init, SafeNode U F src nd) :
    SafeNode U F src (.var i binding init) := by
  cases init with
  | none =>
    rintro n pos a b w st rg ⟨rfl, rfl⟩ - - ⟨rfl, hend⟩
    exact hend
  | some init =>
    rintro n pos a b w st rg ⟨rfl, m, hi, hbind⟩ hscoped hcatch ⟨rfl, hend⟩
    refine hinit init rfl hi hscoped.2 hcatch fun v => ?_
    exact safe_bind hU hF (hscoped.1.2.resolves _) hscoped.1.1 hbind hcatch hend v

/-- **A return.** -/
theorem safe_ret {value : Option Node} (hvalue : ∀ nd ∈ value, SafeNode U F src nd) :
    SafeNode U F src (.ret i value) := by
  cases value with
  | none =>
    rintro n pos a b w st rg ⟨rfl, hat⟩ - hcatch -
    exact .of_at hat trivial hcatch
  | some value =>
    rintro n pos a b w st rg ⟨rfl, m, hv, hret⟩ hscoped hcatch -
    refine hvalue value rfl hv hscoped hcatch fun v => ?_
    exact .of_at hret (by simp [Instruction.Allows]) hcatch

/-- **A conditional.** -/
theorem safe_cond {condition thenBranch : Node} {elseBranch : Option Node}
    (hcondition : SafeNode U F src condition) (hthen : SafeNode U F src thenBranch)
    (helse : ∀ nd ∈ elseBranch, SafeNode U F src nd) :
    SafeNode U F src (.cond i condition thenBranch elseBranch) := by
  cases elseBranch with
  | none =>
    rintro n pos a b w st rg ⟨rfl, m, hc, m₁, hat, ht⟩ hscoped hcatch ⟨rfl, hend⟩
    refine hcondition hc hscoped.1 hcatch fun v => .of_at hat ⟨v, [], rfl, ?_, hend⟩ hcatch
    exact hthen ht hscoped.2.1 hcatch ⟨rfl, hend⟩
  | some elseBranch =>
    rintro n pos a b w st rg ⟨rfl, m, hc, m₁, m₂, m₃, hat, ht, hjump, he⟩ hscoped hcatch ⟨rfl, hend⟩
    refine hcondition hc hscoped.1 hcatch fun v => .of_at hat ⟨v, [], rfl, ?_, ?_⟩ hcatch
    · exact hthen ht hscoped.2.1 hcatch ⟨rfl, .of_at hjump hend hcatch⟩
    · exact helse elseBranch rfl he hscoped.2.2 hcatch ⟨rfl, hend⟩

/-- **A loop.** The jump back leads to where the loop started, but with fewer steps to go. -/
theorem safe_loop {condition body : Node} (hcondition : SafeNode U F src condition)
    (hbody : SafeNode U F src body) : SafeNode U F src (.loop i condition body) := by
  rintro n pos a b w st rg ⟨rfl, m₁, hc, m₂, hat, m₃, hb, hback⟩ hscoped hcatch ⟨rfl, hend⟩
  induction n using Nat.strongRecOn with
  | ind n ih =>
    refine hcondition hc hscoped.1 hcatch fun v => .of_at hat ⟨v, [], rfl, ?_, hend⟩ hcatch
    refine hbody hb hscoped.2 hcatch ⟨rfl, .of_jump hback (fun m hm => ?_) hcatch⟩
    refine ih m hm (fun target withs outer hregions u => ?_) (hend.mono (Nat.le_of_lt hm))
    exact (hcatch target withs outer hregions u).mono (Nat.le_of_lt hm)

/-- **A block.** -/
theorem safe_block {statements : List Node} (hns : ∀ nd ∈ statements, SafeNode U F src nd) :
    SafeNode U F src (.block i statements) := by
  rintro n pos a b w st rg ⟨rfl, hlaid⟩ hscoped hcatch ⟨rfl, hend⟩
  exact safe_statements hns hlaid hscoped hcatch hend

/-- **A `with` statement.** -/
theorem safe_withObject {object body : Node} (hobject : SafeNode U F src object)
    (hbody : SafeNode U F src body) : SafeNode U F src (.withObject i object body) := by
  rintro n pos a b w st rg ⟨rfl, m₁, ho, m₂, henter, m₃, hb, hexit⟩ hscoped hcatch ⟨rfl, hend⟩
  refine hobject ho hscoped.1 hcatch fun v => .of_at henter ⟨v, [], rfl, ?_⟩ hcatch
  exact hbody hb hscoped.2 hcatch ⟨rfl, .of_at hexit ⟨w, rfl, hend⟩ hcatch⟩

/-- **A throw.** -/
theorem safe_throw {value : Node} (hvalue : SafeNode U F src value) :
    SafeNode U F src (.throw i value) := by
  rintro n pos a b w st rg ⟨rfl, m, hv, hthrow⟩ hscoped hcatch -
  refine hvalue hv hscoped hcatch fun v => ?_
  exact .of_at hthrow (by simp [Instruction.Allows]) hcatch

/-- **A try statement.** In the block an error leads to the handler, and in the handler to wherever it led
before. -/
theorem safe_tryCatch (hU : U.table.Placed) (hF : U.Lays F src) {block handler : Node}
    (param : Option Identifier) (hblock : SafeNode U F src block)
    (hhandler : SafeNode U F src handler) : SafeNode U F src (.tryCatch i block param handler) := by
  rintro n pos a b w st rg ⟨rfl, m₁, m₂, m₃, hbegin, ⟨m₄, hb, htryEnd⟩, hjump, m₅, hbind, hh⟩ hscoped
    hcatch ⟨rfl, hend⟩
  have hcaught : ∀ v, SafeFor U F src n ⟨m₃, [v], rg, w⟩ := by
    intro v
    have hstart := hhandler hh hscoped.2.2 hcatch ⟨rfl, hend⟩
    cases param with
    | none => exact .of_at hbind ⟨v, [], rfl, hstart⟩ hcatch
    | some x =>
      obtain ⟨hw, hx⟩ := hscoped.2.1 x rfl
      exact safe_bind hU hF (hx.resolves _) hw hbind hcatch hstart v
  have hinner : Point.Catches (SafeFor U F src n) ((m₃, w) :: rg) := by
    rintro target withs outer ⟨⟩ v
    exact hcaught v
  refine .of_at hbegin ⟨rfl, hblock hb hscoped.1 hinner ⟨rfl, ?_⟩⟩ hcatch
  exact .of_at htryEnd ⟨m₃, rg, rfl, ⟨b, hjump⟩, .of_at hjump hend hcatch⟩ hinner

end

/-- **Every node**: if its end is safe, so is its start. -/
theorem safe_node (hU : U.table.Placed) (hF : U.Lays F src) (nd : Node) : SafeNode U F src nd := by
  induction nd using Node.sizeInduction with
  | step nd ih =>
    cases nd with
    | literal i l => exact safe_literal hF l
    | identifier i x => exact safe_identifier hU hF x
    | dynamic i name => exact safe_dynamic hF name
    | this i => exact safe_this hF
    | call i target args =>
      refine safe_call hF (ih target ?_) ?_ fun nd h => ih nd ?_
      · decreasing_tactic
      · rintro j receiver name rfl
        exact ih receiver (by decreasing_tactic)
      · decreasing_tactic
    | member i target name => exact safe_member hF name (ih target (by decreasing_tactic))
    | binary i op lhs rhs =>
      exact safe_binary hF op (ih lhs (by decreasing_tactic)) (ih rhs (by decreasing_tactic))
    | unary i op operand => exact safe_unary hF op (ih operand (by decreasing_tactic))
    | assign i target value =>
      refine safe_assign hU hF ?_ (ih value (by decreasing_tactic))
      rintro j object name rfl
      exact ih object (by decreasing_tactic)
    | function i name params body isDeclaration scope =>
      exact safe_function hF name params body isDeclaration scope
    | object i ps =>
      refine safe_object hF fun p h => ih p.2 ?_
      obtain ⟨name, value⟩ := p
      have hmem := List.sizeOf_lt_of_mem h
      simp only [Prod.mk.sizeOf_spec, Node.object.sizeOf_spec] at hmem ⊢
      omega
    | delete i target =>
      refine safe_delete hF (ih target (by decreasing_tactic)) ?_
      rintro j object name rfl
      exact ih object (by decreasing_tactic)
    | var i binding init =>
      refine safe_var hU hF binding fun nd h => ih nd ?_
      cases h
      decreasing_tactic
    | ret i value =>
      refine safe_ret fun nd h => ih nd ?_
      cases h
      decreasing_tactic
    | cond i condition thenBranch elseBranch =>
      refine safe_cond (ih condition (by decreasing_tactic)) (ih thenBranch (by decreasing_tactic))
        fun nd h => ih nd ?_
      cases h
      decreasing_tactic
    | loop i condition body =>
      exact safe_loop (ih condition (by decreasing_tactic)) (ih body (by decreasing_tactic))
    | block i statements =>
      refine safe_block fun nd h => ih nd ?_
      decreasing_tactic
    | withObject i object body =>
      exact safe_withObject (ih object (by decreasing_tactic)) (ih body (by decreasing_tactic))
    | throw i value => exact safe_throw (ih value (by decreasing_tactic))
    | tryCatch i block param handler =>
      exact safe_tryCatch hU hF param (ih block (by decreasing_tactic))
        (ih handler (by decreasing_tactic))

/-! ## Functions -/

/-- A statement whose declared functions are made by code that is safe at its start wherever it is at its
end. -/
def SafeHoisted (U : Blueprint) (F : CodeFunction) (src : Source) (nd : Node) : Prop :=
  ∀ {n a b : Nat}, LaidHoisted U F (U.context src) src.isLowered 0 nd a b →
    nd.Scoped U.table src.scope src.isLowered 0 → SafeFor U F src n ⟨b, [], [], 0⟩ →
    SafeFor U F src n ⟨a, [], [], 0⟩

/-- Without a region no error leads to a handler. -/
theorem Point.catches_nil (K : Point → Prop) : Point.Catches K [] := by
  intro target withs outer h
  cases h

/-- **Declared functions of statements** are made one after the other. -/
theorem safe_hoistedAll {n a b : Nat} {ns : List Node} (hns : ∀ nd ∈ ns, SafeHoisted U F src nd)
    (hlaid : LaidHoistedAll U F (U.context src) src.isLowered 0 ns a b)
    (hscoped : ScopedAll U.table src.scope src.isLowered 0 ns)
    (hend : SafeFor U F src n ⟨b, [], [], 0⟩) : SafeFor U F src n ⟨a, [], [], 0⟩ := by
  induction ns generalizing a with
  | nil =>
    obtain rfl : a = b := hlaid
    exact hend
  | cons nd rest ih =>
    obtain ⟨m, hfirst, hrest⟩ := hlaid
    refine hns nd List.mem_cons_self hfirst hscoped.1 ?_
    exact ih (fun nd' h => hns nd' (List.mem_cons_of_mem _ h)) hrest hscoped.2

/-- **Declared functions** are made and bound. -/
theorem safe_hoisted (hU : U.table.Placed) (hF : U.Lays F src) (nd : Node) :
    SafeHoisted U F src nd := by
  induction nd using Node.sizeInduction with
  | step nd ih =>
    intro n a b hlaid hscoped hend
    cases nd with
    | function i name params body isDeclaration scope =>
      cases isDeclaration with
      | false =>
        obtain rfl : a = b := hlaid
        exact hend
      | true =>
        cases name with
        | none =>
          obtain rfl : a = b := hlaid
          exact hend
        | some x =>
          obtain ⟨m, hclosure, hbind⟩ := hlaid
          have hinside := Source.inside_ofFunction hscoped
          obtain ⟨_, _, _, _, hname, _⟩ := hscoped
          refine safe_closure hinside hclosure (Point.catches_nil _) fun v => ?_
          exact safe_bind hU hF ((hname x rfl).2.resolves _) rfl hbind (Point.catches_nil _) hend v
    | block i statements =>
      refine safe_hoistedAll (fun nd h => ih nd ?_) hlaid hscoped hend
      decreasing_tactic
    | cond i condition thenBranch elseBranch =>
      obtain ⟨m, hthen, helse⟩ := hlaid
      refine ih thenBranch (by decreasing_tactic) hthen hscoped.2.1 ?_
      cases elseBranch with
      | none =>
        obtain rfl : m = b := helse
        exact hend
      | some elseBranch => exact ih elseBranch (by decreasing_tactic) helse hscoped.2.2 hend
    | loop i condition body => exact ih body (by decreasing_tactic) hlaid hscoped.2 hend
    | tryCatch i block param handler =>
      obtain ⟨m, hblock, hhandler⟩ := hlaid
      refine ih block (by decreasing_tactic) hblock hscoped.1 ?_
      exact ih handler (by decreasing_tactic) hhandler hscoped.2.2 hend
    | _ =>
      obtain rfl : a = b := hlaid
      exact hend

/-- **The start of a function** is safe for any number of steps. -/
theorem Blueprint.safe_start (hU : U.table.Placed) (hF : U.Lays F src) (hsrc : src.Scoped U.table)
    (n : Nat) : SafeFor U F src n ⟨0, [], [], 0⟩ := by
  have hcatch := Point.catches_nil (SafeFor U F src n)
  obtain ⟨b, hcode⟩ := hF.code
  rw [Laid.code] at hcode
  -- The declarations and the statements, whatever comes behind them.
  have hbody : ∀ {a m : Nat}, ((LaidHoistedAll U F (U.context src) src.isLowered 0 src.body).seq
      (LaidAll U F (U.context src) src.isLowered 0 .effect src.body)) a m →
      SafeFor U F src n ⟨m, [], [], 0⟩ → SafeFor U F src n ⟨a, [], [], 0⟩ := by
    rintro a m ⟨m₁, hhoisted, hstatements⟩ hend
    refine safe_hoistedAll (fun nd _ => safe_hoisted hU hF nd) hhoisted hsrc.body ?_
    exact safe_statements (fun nd _ => safe_node hU hF nd) hstatements hsrc.body hcatch hend
  split at hcode
  · next hprogram =>
    obtain ⟨m, hmain, m₁, hget, hret⟩ := hcode
    have hslot : (U.table.layout src.scope).localCount < F.localCount := by
      rw [hF.localCount, if_pos hprogram]
      exact Nat.lt_succ_self _
    refine hbody hmain (.of_at hget ⟨hslot, fun v => ?_⟩ hcatch)
    exact .of_at hret (by simp [Instruction.Allows, Point.go]) hcatch
  · obtain ⟨m, hown, m₁, hmain, hret⟩ := hcode
    have hstart := hbody hmain (.of_at hret trivial hcatch)
    -- A function expression binds its own name first, if that has a variable.
    cases hexpr : src.isDeclaration with
    | true =>
      rw [Laid.ownName, hexpr] at hown
      obtain rfl : 0 = m := hown
      exact hstart
    | false =>
      cases hname : src.name with
      | none =>
        rw [Laid.ownName, hexpr, hname] at hown
        obtain rfl : 0 = m := hown
        exact hstart
      | some x =>
        simp only [Laid.ownName, hexpr, hname] at hown
        split at hown
        · next hvar =>
          obtain ⟨m₂, hcallee, hbind⟩ := hown
          have hx := (hsrc.name hexpr x hname).resolve_left fun hnone => by
            rw [hnone] at hvar
            cases hvar
          refine .of_at hcallee (fun v => ?_) hcatch
          exact safe_bind hU hF (hx.resolves _) rfl hbind hcatch hstart v
        · obtain rfl : 0 = m := hown
          exact hstart

/-! ## All numbers of steps -/

/-- A point that is safe for every number of steps. -/
def Safe (U : Blueprint) (F : CodeFunction) (src : Source) (p : Point) : Prop := ∀ n, SafeFor U F src n p

/-- What an instruction leads to is of all kinds at once. -/
theorem Instruction.Allows.all {K : Nat → Point → Prop} {p : Point} {next : Nat} {i : Instruction}
    (h : ∀ n, i.Allows U F src (K n) p next) : i.Allows U F src (fun q => ∀ n, K n q) p next := by
  obtain ⟨ip, stack, regions, withs⟩ := p
  cases i with
  | initProperty name =>
    simp only [Allows] at h ⊢
    obtain ⟨v, k, rest, rfl, -⟩ := h 0
    exact ⟨v, k, rest, rfl, fun n => by obtain ⟨_, _, _, ⟨⟩, hK⟩ := h n; exact hK⟩
  | exitWith =>
    simp only [Allows] at h ⊢
    obtain ⟨k, rfl, -⟩ := h 0
    exact ⟨k, rfl, fun n => by obtain ⟨_, ⟨⟩, hK⟩ := h n; exact hK⟩
  | tryEnd =>
    simp only [Allows] at h ⊢
    obtain ⟨target, outer, rfl, hjump, -⟩ := h 0
    exact ⟨target, outer, rfl, hjump, fun n => by obtain ⟨_, _, ⟨⟩, _, hK⟩ := h n; exact hK⟩
  | retUndefined => trivial
  | _ =>
    simp only [Allows] at h ⊢
    rcases stack with _ | ⟨v, _ | ⟨u, rest⟩⟩ <;> simp_all [forall_and, and_assoc]

/-- **A safe point** has an instruction that finds what it needs and leads to safe points, and an error
leads to one, too. -/
theorem Safe.step {p : Point} (h : Safe U F src p) :
    (∃ i next, U.at F i p.ip next ∧ i.Allows U F src (Safe U F src) p next) ∧
      Point.Catches (Safe U F src) p.regions := by
  obtain ⟨⟨i, next, hat, -⟩, -⟩ := h 1
  refine ⟨⟨i, next, hat, .all fun n => ?_⟩, fun target withs outer hregions v n => ?_⟩
  · obtain ⟨⟨i', next', hat', hi'⟩, -⟩ := h (n + 1)
    obtain ⟨rfl, rfl⟩ : i' = i ∧ next' = next := by
      have hsame := hat'.symm.trans hat
      simpa using hsame
    exact hi'
  · exact (h (n + 1)).2 target withs outer hregions v

end

end ScriptEngine
