import ScriptEngine.Proofs.Code.Balance

/-!
# Properties are defined on new objects

The code of an object literal makes an object, and defines the properties on it while it lies among the
operands. To define a property overrides whatever is there, so it matters that nothing but such an object
is ever below the value.

A *mark* tells for one operand whether it is an object under construction. `Instruction.Carries` says what
becomes of the marks, and that a property is defined on a marked operand. `CarriesFor` follows the code for
a number of steps, and `Blueprint.carries_start` is the main statement: with no operands, the start of a
function carries. Other than for balance, names need not be resolved: the program may be any that compiles.
-/

namespace ScriptEngine

open Generation

/-- What an instruction makes of the marks of the operands, the top first, and that it leads to offsets and
marks of a kind only. The offset behind the instruction is given. -/
def Instruction.Carries (K : Nat → List Bool → Prop) (next : Nat) (marks : List Bool) :
    Instruction → Prop
  | .push _ | .getLocal _ | .getEnv .. | .getGlobal _ | .deleteGlobal _ | .getName _ | .deleteName _
  | .closure _ | .getThis | .getCallee => K next (false :: marks)
  | .getMember .. | .deleteMember _ | .negate | .plus | .not | .typeof => K next (false :: marks.drop 1)
  | .setMember .. | .binary _ => K next (false :: marks.drop 2)
  | .callName _ argc => K next (false :: marks.drop argc)
  | .callGlobal _ site | .invokeMember _ site => K next (false :: marks.drop (site.argc.toNat + 1))
  | .call argc => K next (false :: marks.drop (argc + 1))
  | .setLocal _ | .setEnv .. | .setGlobal _ | .setName _ | .exitWith | .tryEnd => K next marks
  | .pop | .enterWith => K next (marks.drop 1)
  | .dup => K next (false :: marks)
  | .newObject => K next (true :: marks)
  | .initProperty _ => marks[1]? = some true ∧ K next (marks.drop 1)
  | .jump target => K target marks
  | .jumpIfFalse target => K next (marks.drop 1) ∧ K target (marks.drop 1)
  | .jumpIfFalseOrPop target | .jumpIfTrueOrPop target =>
    K next (marks.drop 1) ∧ K target (false :: marks.drop 1)
  | .tryBegin target => marks = [] ∧ K next [] ∧ K target [false]
  | .throw | .ret | .retUndefined => True

section

variable (U : Blueprint) (F : CodeFunction)

/-- From an offset on, with operands marked in some way, properties are defined on objects under
construction only, for a number of steps. -/
def CarriesFor : Nat → Nat → List Bool → Prop
  | 0, _, _ => True
  | n + 1, ip, marks => ∃ i next, U.at F i ip next ∧ i.Carries (CarriesFor n) next marks

/-- The same for every number of steps. -/
def Carries (ip : Nat) (marks : List Bool) : Prop := ∀ n, CarriesFor U F n ip marks

/-- What is wanted of the end of a stretch in a position: one more operand, marked or not, or none. -/
def Leaves (n : Nat) (pos : Position) (b : Nat) (marks : List Bool) : Prop :=
  match pos with
  | .value => ∀ mark, CarriesFor U F n b (mark :: marks)
  | .effect => marks = [] ∧ CarriesFor U F n b []

end

section

variable {U : Blueprint} {F : CodeFunction} {c : GenContext} {lowered : Bool}

/-- An instruction that leads to points of a kind leads to points of a wider kind. -/
theorem Instruction.Carries.mono {K K' : Nat → List Bool → Prop}
    (hK : ∀ ip marks, K ip marks → K' ip marks) {next : Nat} {marks : List Bool} {i : Instruction}
    (h : i.Carries K next marks) : i.Carries K' next marks := by
  cases i <;> simp only [Instruction.Carries] at h ⊢ <;> grind

/-- Fewer steps carry, too. -/
theorem CarriesFor.succ {n ip : Nat} {marks : List Bool} (h : CarriesFor U F (n + 1) ip marks) :
    CarriesFor U F n ip marks := by
  induction n generalizing ip marks with
  | zero => trivial
  | succ n ih =>
    obtain ⟨i, next, hat, hi⟩ := h
    exact ⟨i, next, hat, hi.mono fun _ _ hq => ih hq⟩

/-- Fewer steps carry, too. -/
theorem CarriesFor.mono {n m ip : Nat} {marks : List Bool} (h : CarriesFor U F n ip marks) (hm : m ≤ n) :
    CarriesFor U F m ip marks := by
  induction hm with
  | refl => exact h
  | step _ ih => exact ih h.succ

/-- **One instruction** carries if that to which it leads does. -/
theorem CarriesFor.of_at {n ip next : Nat} {marks : List Bool} {i : Instruction} (hat : U.at F i ip next)
    (h : i.Carries (CarriesFor U F n) next marks) : CarriesFor U F n ip marks := by
  rcases n with _ | n
  · trivial
  · exact ⟨i, next, hat, h.mono fun _ _ hq => hq.succ⟩

/-- **A jump** is itself a step, so where it leads need carry for fewer steps only. -/
theorem CarriesFor.of_jump {n ip target next : Nat} {marks : List Bool}
    (hat : U.at F (.jump target) ip next) (h : ∀ m < n, CarriesFor U F m target marks) :
    CarriesFor U F n ip marks := by
  rcases n with _ | n
  · trivial
  · exact ⟨.jump target, next, hat, h n (Nat.lt_succ_self n)⟩

/-! ## Names and the ends of expressions -/

section

variable {n a b : Nat} {marks : List Bool} {i : Instruction} {x : Identifier}

/-- **Reading a name** adds an operand. -/
theorem Instruction.carries_load {K : Nat → List Bool → Prop} {next : Nat} (hi : c.loadOf? x = some i)
    (hK : K next (false :: marks)) : i.Carries K next marks := by
  obtain ⟨v, -, hi⟩ := Option.bind_eq_some_iff.mp hi
  split at hi
  · cases hi
    exact hK
  · obtain ⟨depth, -, rfl⟩ := Option.map_eq_some_iff.mp hi
    exact hK
  · cases hi
    exact hK

/-- **Writing a name** leaves the operands. -/
theorem Instruction.carries_store {K : Nat → List Bool → Prop} {next : Nat} (hi : c.storeOf? x = some i)
    (hK : K next marks) : i.Carries K next marks := by
  obtain ⟨v, -, hi⟩ := Option.bind_eq_some_iff.mp hi
  split at hi
  · cases hi
    exact hK
  · obtain ⟨depth, -, rfl⟩ := Option.map_eq_some_iff.mp hi
    exact hK
  · cases hi
    exact hK

/-- **Writing a name and dropping the value.** -/
theorem carries_bind (hlaid : ((U.atSome F (c.storeOf? x)).seq (U.at F .pop)) a b)
    (hend : CarriesFor U F n b marks) (mark : Bool) : CarriesFor U F n a (mark :: marks) := by
  obtain ⟨m, ⟨i, hi, hat⟩, hpop⟩ := hlaid
  exact .of_at hat (Instruction.carries_store hi (.of_at hpop hend))

/-- **The end of an expression.** -/
theorem carries_settle {pos : Position} (hlaid : Laid.settle U F c pos a b)
    (hend : Leaves U F n pos b marks) (mark : Bool) : CarriesFor U F n a (mark :: marks) := by
  cases pos with
  | value =>
    obtain rfl : a = b := hlaid
    exact hend mark
  | effect =>
    obtain ⟨rfl, hend⟩ := hend
    rw [Laid.settle] at hlaid
    rcases hslot : c.completion with _ | slot
    · rw [hslot] at hlaid
      exact .of_at hlaid hend
    · rw [hslot] at hlaid
      obtain ⟨m, hset, hpop⟩ := hlaid
      exact .of_at hset (CarriesFor.of_at hpop hend)

/-- **A function is made.** -/
theorem carries_closure {inner : Source} (hlaid : Laid.closure U F inner a b)
    (hend : CarriesFor U F n b (false :: marks)) : CarriesFor U F n a marks := by
  obtain ⟨index, -, hat⟩ := hlaid
  exact .of_at hat hend

end

/-! ## Nodes -/

/-- A node whose start carries wherever its end does. -/
def CarriesNode (U : Blueprint) (F : CodeFunction) (c : GenContext) (lowered : Bool) (nd : Node) : Prop :=
  ∀ {n : Nat} {pos : Position} {a b w : Nat} {marks : List Bool}, Laid U F c lowered w pos nd a b →
    Leaves U F n pos b marks → CarriesFor U F n a marks

section

variable {n a b w : Nat} {marks : List Bool} {i : Info}

/-- **Values in order** pile up on the stack. -/
theorem carries_values {ns : List Node} (hns : ∀ nd ∈ ns, CarriesNode U F c lowered nd)
    (hlaid : LaidAll U F c lowered w .value ns a b)
    (hend : ∀ more : List Bool, more.length = ns.length → CarriesFor U F n b (more ++ marks)) :
    CarriesFor U F n a marks := by
  induction ns generalizing a marks with
  | nil =>
    obtain rfl : a = b := hlaid
    exact hend [] rfl
  | cons nd rest ih =>
    obtain ⟨m, hfirst, hrest⟩ := hlaid
    refine hns nd List.mem_cons_self hfirst fun mark => ?_
    refine ih (fun nd' h => hns nd' (List.mem_cons_of_mem _ h)) hrest fun more hmore => ?_
    have hall := hend (more ++ [mark]) (by simp [hmore])
    rwa [List.append_assoc] at hall

/-- **Statements in order** leave the stack empty. -/
theorem carries_statements {ns : List Node} (hns : ∀ nd ∈ ns, CarriesNode U F c lowered nd)
    (hlaid : LaidAll U F c lowered w .effect ns a b) (hend : CarriesFor U F n b []) :
    CarriesFor U F n a [] := by
  induction ns generalizing a with
  | nil =>
    obtain rfl : a = b := hlaid
    exact hend
  | cons nd rest ih =>
    obtain ⟨m, hfirst, hrest⟩ := hlaid
    refine hns nd List.mem_cons_self hfirst ⟨rfl, ?_⟩
    exact ih (fun nd' h => hns nd' (List.mem_cons_of_mem _ h)) hrest

/-- **Properties in order** are defined on the object, which stays marked. -/
theorem carries_properties {ps : List (String × Node)} (hps : ∀ p ∈ ps, CarriesNode U F c lowered p.2)
    (hlaid : LaidProperties U F c lowered w ps a b) (hend : CarriesFor U F n b (true :: marks)) :
    CarriesFor U F n a (true :: marks) := by
  induction ps generalizing a with
  | nil =>
    obtain rfl : a = b := hlaid
    exact hend
  | cons p rest ih =>
    obtain ⟨name, value⟩ := p
    obtain ⟨m₁, hvalue, m₂, hinit, hrest⟩ := hlaid
    refine hps (name, value) List.mem_cons_self hvalue fun mark => .of_at hinit ⟨rfl, ?_⟩
    exact ih (fun p' hp' => hps p' (List.mem_cons_of_mem _ hp')) hrest

/-! ### Expressions -/

/-- A literal. -/
theorem carries_literal (l : Literal) : CarriesNode U F c lowered (.literal i l) := by
  rintro n pos a b w marks ⟨m, ⟨v, -, hat⟩, hsettle⟩ hend
  exact .of_at hat (carries_settle hsettle hend false)

/-- A resolved name. -/
theorem carries_identifier (x : Identifier) : CarriesNode U F c lowered (.identifier i x) := by
  rintro n pos a b w marks ⟨m, ⟨j, hj, hat⟩, hsettle⟩ hend
  exact .of_at hat (Instruction.carries_load hj (carries_settle hsettle hend false))

/-- A name that is looked up at run time. -/
theorem carries_dynamic (name : String) : CarriesNode U F c lowered (.dynamic i name) := by
  rintro n pos a b w marks ⟨m, hat, hsettle⟩ hend
  exact .of_at hat (carries_settle hsettle hend false)

/-- The receiver. -/
theorem carries_this : CarriesNode U F c lowered (.this i) := by
  rintro n pos a b w marks ⟨m, hat, hsettle⟩ hend
  exact .of_at hat (carries_settle hsettle hend false)

/-- **A call.** The target may be a property, whose object is evaluated instead. -/
theorem carries_call {target : Node} {args : List Node} (htarget : CarriesNode U F c lowered target)
    (hreceiver : ∀ j receiver name, target = .member j receiver name → CarriesNode U F c lowered receiver)
    (hargs : ∀ nd ∈ args, CarriesNode U F c lowered nd) :
    CarriesNode U F c lowered (.call i target args) := by
  intro n pos a b w marks hlaid hend
  rw [Laid_call] at hlaid
  obtain ⟨m, hcall, hsettle⟩ := hlaid
  have hvalue := carries_settle hsettle hend false
  obtain ⟨j, receiver, name, rfl, m₁, hr, m₂, ha, k, site, -, hargc, hat⟩ |
    ⟨j, name, rfl, m₁, ha, hat⟩ | ⟨j, x, rfl, m₁, hget, m₂, ha, k, site, -, hargc, hat⟩ |
    ⟨m₁, ht, m₂, ha, hat⟩ := Laid.call_cases hcall
  · refine hreceiver j receiver name rfl hr fun mark => ?_
    refine carries_values hargs ha fun more hmore => .of_at hat ?_
    simpa [Instruction.Carries, hargc, ← hmore] using hvalue
  · refine carries_values hargs ha fun more hmore => .of_at hat ?_
    simpa [Instruction.Carries, ← hmore] using hvalue
  · refine .of_at hget (carries_values hargs ha fun more hmore => .of_at hat ?_)
    simpa [Instruction.Carries, hargc, ← hmore] using hvalue
  · refine htarget ht fun mark => ?_
    refine carries_values hargs ha fun more hmore => .of_at hat ?_
    simpa [Instruction.Carries, ← hmore] using hvalue

/-- A property. -/
theorem carries_member {target : Node} (name : String) (htarget : CarriesNode U F c lowered target) :
    CarriesNode U F c lowered (.member i target name) := by
  rintro n pos a b w marks ⟨m₁, ht, m₂, ⟨k, site, -, -, hat⟩, hsettle⟩ hend
  exact htarget ht fun mark => .of_at hat (carries_settle hsettle hend false)

/-- **A binary operation.** A logical operator may skip its right operand. -/
theorem carries_binary (op : BinaryOp) {lhs rhs : Node} (hlhs : CarriesNode U F c lowered lhs)
    (hrhs : CarriesNode U F c lowered rhs) : CarriesNode U F c lowered (.binary i op lhs rhs) := by
  rintro n pos a b w marks ⟨m, hbinary, hsettle⟩ hend
  have hvalue := carries_settle hsettle hend
  -- Both operands, and then the operator.
  have hboth : ((Laid U F c lowered w .value lhs).seq
      ((Laid U F c lowered w .value rhs).seq (U.at F (.binary op)))) a m → CarriesFor U F n a marks := by
    rintro ⟨m₁, hl, m₂, hr, hat⟩
    exact hlhs hl fun _ => hrhs hr fun _ => .of_at hat (hvalue false)
  cases op with
  | and =>
    obtain ⟨m₁, hl, m₂, hskip, hr⟩ := hbinary
    exact hlhs hl fun _ => .of_at hskip ⟨hrhs hr hvalue, hvalue false⟩
  | or =>
    obtain ⟨m₁, hl, m₂, hskip, hr⟩ := hbinary
    exact hlhs hl fun _ => .of_at hskip ⟨hrhs hr hvalue, hvalue false⟩
  | _ => exact hboth hbinary

/-- **A unary operation.** -/
theorem carries_unary (op : UnaryOp) {operand : Node} (hoperand : CarriesNode U F c lowered operand) :
    CarriesNode U F c lowered (.unary i op operand) := by
  rintro n pos a b w marks ⟨m₁, ho, m₂, hop, hsettle⟩ hend
  have hvalue := carries_settle hsettle hend false
  refine hoperand ho fun mark => ?_
  cases op with
  | void =>
    obtain ⟨m₃, hpop, hpush⟩ := hop
    exact .of_at hpop (CarriesFor.of_at hpush hvalue)
  | _ => exact .of_at hop hvalue

/-- **An assignment.** -/
theorem carries_assign {target value : Node}
    (hobject : ∀ j object name, target = .member j object name → CarriesNode U F c lowered object)
    (hvalue : CarriesNode U F c lowered value) : CarriesNode U F c lowered (.assign i target value) := by
  intro n pos a b w marks hlaid hend
  rw [Laid_assign] at hlaid
  obtain ⟨m, hassign, hsettle⟩ := hlaid
  have hdone := carries_settle hsettle hend
  obtain ⟨j, x, rfl, m₁, hright, k, hk, hat⟩ | ⟨j, name, rfl, m₁, hright, hat⟩ |
    ⟨j, object, name, rfl, m₁, ho, m₂, hright, k, site, -, -, hat⟩ := Laid.assign_cases hassign
  · exact hvalue hright fun mark => .of_at hat (Instruction.carries_store hk (hdone mark))
  · exact hvalue hright fun mark => .of_at hat (hdone mark)
  · refine hobject j object name rfl ho fun _ => ?_
    exact hvalue hright fun _ => .of_at hat (hdone false)

/-- **A function.** -/
theorem carries_function (name : Option Identifier) (params : List Identifier) (body : List Node)
    (isDeclaration : Bool) (scope : Option ScopeId) :
    CarriesNode U F c lowered (.function i name params body isDeclaration scope) := by
  intro n pos a b w marks hlaid hend
  simp only [Laid] at hlaid
  split at hlaid
  · next hskip =>
    obtain rfl : a = b := hlaid
    rw [Bool.and_eq_true, decide_eq_true_eq] at hskip
    rw [hskip.2] at hend
    rw [hend.1]
    exact hend.2
  · obtain ⟨m, hclosure, hsettle⟩ := hlaid
    exact carries_closure hclosure (carries_settle hsettle hend false)

/-- **An object** is under construction from when it is made to its last property. -/
theorem carries_object {ps : List (String × Node)} (hps : ∀ p ∈ ps, CarriesNode U F c lowered p.2) :
    CarriesNode U F c lowered (.object i ps) := by
  rintro n pos a b w marks ⟨m₁, hnew, m₂, hlaid, hsettle⟩ hend
  exact .of_at hnew (carries_properties hps hlaid (carries_settle hsettle hend true))

/-- **A removal.** -/
theorem carries_delete {target : Node} (htarget : CarriesNode U F c lowered target)
    (hobject : ∀ j object name, target = .member j object name → CarriesNode U F c lowered object) :
    CarriesNode U F c lowered (.delete i target) := by
  intro n pos a b w marks hlaid hend
  rw [Laid_delete] at hlaid
  obtain ⟨m, hdelete, hsettle⟩ := hlaid
  have hvalue := carries_settle hsettle hend false
  obtain ⟨j, object, name, rfl, m₁, ho, hat⟩ | ⟨j, x, rfl, k, hk, hat⟩ | ⟨j, name, rfl, hat⟩ |
    ⟨m₁, ht, m₂, hpop, hpush⟩ := Laid.delete_cases hdelete
  · exact hobject j object name rfl ho fun _ => .of_at hat hvalue
  · obtain ⟨v, -, rfl⟩ := Option.map_eq_some_iff.mp hk
    refine .of_at hat ?_
    split
    · exact hvalue
    · exact hvalue
  · exact .of_at hat hvalue
  · exact htarget ht fun _ => .of_at hpop (CarriesFor.of_at hpush hvalue)

/-! ### Statements -/

/-- **A variable statement.** -/
theorem carries_var (binding : Identifier) {init : Option Node}
    (hinit : ∀ nd ∈ init, CarriesNode U F c lowered nd) :
    CarriesNode U F c lowered (.var i binding init) := by
  cases init with
  | none =>
    rintro n pos a b w marks ⟨rfl, rfl⟩ ⟨rfl, hend⟩
    exact hend
  | some init =>
    rintro n pos a b w marks ⟨rfl, m, hi, hbind⟩ ⟨rfl, hend⟩
    exact hinit init rfl hi (carries_bind hbind hend)

/-- **A return.** -/
theorem carries_ret {value : Option Node} (hvalue : ∀ nd ∈ value, CarriesNode U F c lowered nd) :
    CarriesNode U F c lowered (.ret i value) := by
  cases value with
  | none =>
    rintro n pos a b w marks ⟨rfl, hat⟩ -
    exact .of_at hat trivial
  | some value =>
    rintro n pos a b w marks ⟨rfl, m, hv, hret⟩ -
    exact hvalue value rfl hv fun _ => .of_at hret trivial

/-- **A conditional.** -/
theorem carries_cond {condition thenBranch : Node} {elseBranch : Option Node}
    (hcondition : CarriesNode U F c lowered condition) (hthen : CarriesNode U F c lowered thenBranch)
    (helse : ∀ nd ∈ elseBranch, CarriesNode U F c lowered nd) :
    CarriesNode U F c lowered (.cond i condition thenBranch elseBranch) := by
  cases elseBranch with
  | none =>
    rintro n pos a b w marks ⟨rfl, m, hc, m₁, hat, ht⟩ ⟨rfl, hend⟩
    exact hcondition hc fun _ => .of_at hat ⟨hthen ht ⟨rfl, hend⟩, hend⟩
  | some elseBranch =>
    rintro n pos a b w marks ⟨rfl, m, hc, m₁, m₂, m₃, hat, ht, hjump, he⟩ ⟨rfl, hend⟩
    refine hcondition hc fun _ => .of_at hat ⟨?_, ?_⟩
    · exact hthen ht ⟨rfl, .of_at hjump hend⟩
    · exact helse elseBranch rfl he ⟨rfl, hend⟩

/-- **A loop.** The jump back leads to where the loop started, but with fewer steps to go. -/
theorem carries_loop {condition body : Node} (hcondition : CarriesNode U F c lowered condition)
    (hbody : CarriesNode U F c lowered body) : CarriesNode U F c lowered (.loop i condition body) := by
  rintro n pos a b w marks ⟨rfl, m₁, hc, m₂, hat, m₃, hb, hback⟩ ⟨rfl, hend⟩
  induction n using Nat.strongRecOn with
  | ind n ih =>
    refine hcondition hc fun _ => .of_at hat ⟨?_, hend⟩
    refine hbody hb ⟨rfl, .of_jump hback fun m hm => ?_⟩
    exact ih m hm (hend.mono (Nat.le_of_lt hm))

/-- **A block.** -/
theorem carries_block {statements : List Node} (hns : ∀ nd ∈ statements, CarriesNode U F c lowered nd) :
    CarriesNode U F c lowered (.block i statements) := by
  rintro n pos a b w marks ⟨rfl, hlaid⟩ ⟨rfl, hend⟩
  exact carries_statements hns hlaid hend

/-- **A `with` statement.** -/
theorem carries_withObject {object body : Node} (hobject : CarriesNode U F c lowered object)
    (hbody : CarriesNode U F c lowered body) : CarriesNode U F c lowered (.withObject i object body) := by
  rintro n pos a b w marks ⟨rfl, m₁, ho, m₂, henter, m₃, hb, hexit⟩ ⟨rfl, hend⟩
  refine hobject ho fun _ => .of_at henter ?_
  exact hbody hb ⟨rfl, .of_at hexit hend⟩

/-- **A throw.** -/
theorem carries_throw {value : Node} (hvalue : CarriesNode U F c lowered value) :
    CarriesNode U F c lowered (.throw i value) := by
  rintro n pos a b w marks ⟨rfl, m, hv, hthrow⟩ -
  exact hvalue hv fun _ => .of_at hthrow trivial

/-- **A try statement.** There are no operands at its start, and one at the start of the handler. -/
theorem carries_tryCatch {block handler : Node} (param : Option Identifier)
    (hblock : CarriesNode U F c lowered block) (hhandler : CarriesNode U F c lowered handler) :
    CarriesNode U F c lowered (.tryCatch i block param handler) := by
  rintro n pos a b w marks ⟨rfl, m₁, m₂, m₃, hbegin, ⟨m₄, hb, htryEnd⟩, hjump, m₅, hbind, hh⟩
    ⟨rfl, hend⟩
  have hcaught : CarriesFor U F n m₃ [false] := by
    have hstart := hhandler hh ⟨rfl, hend⟩
    cases param with
    | none => exact .of_at hbind hstart
    | some x => exact carries_bind hbind hstart false
  refine .of_at hbegin ⟨rfl, hblock hb ⟨rfl, ?_⟩, hcaught⟩
  exact .of_at htryEnd (CarriesFor.of_at hjump hend)

end

/-- **Every node**: if its end carries, so does its start. -/
theorem carries_node (nd : Node) : CarriesNode U F c lowered nd := by
  induction nd using Node.sizeInduction with
  | step nd ih =>
    cases nd with
    | literal i l => exact carries_literal l
    | identifier i x => exact carries_identifier x
    | dynamic i name => exact carries_dynamic name
    | this i => exact carries_this
    | call i target args =>
      refine carries_call (ih target ?_) ?_ fun nd h => ih nd ?_
      · decreasing_tactic
      · rintro j receiver name rfl
        exact ih receiver (by decreasing_tactic)
      · decreasing_tactic
    | member i target name => exact carries_member name (ih target (by decreasing_tactic))
    | binary i op lhs rhs =>
      exact carries_binary op (ih lhs (by decreasing_tactic)) (ih rhs (by decreasing_tactic))
    | unary i op operand => exact carries_unary op (ih operand (by decreasing_tactic))
    | assign i target value =>
      refine carries_assign ?_ (ih value (by decreasing_tactic))
      rintro j object name rfl
      exact ih object (by decreasing_tactic)
    | function i name params body isDeclaration scope =>
      exact carries_function name params body isDeclaration scope
    | object i ps =>
      refine carries_object fun p h => ih p.2 ?_
      obtain ⟨name, value⟩ := p
      have hmem := List.sizeOf_lt_of_mem h
      simp only [Prod.mk.sizeOf_spec, Node.object.sizeOf_spec] at hmem ⊢
      omega
    | delete i target =>
      refine carries_delete (ih target (by decreasing_tactic)) ?_
      rintro j object name rfl
      exact ih object (by decreasing_tactic)
    | var i binding init =>
      refine carries_var binding fun nd h => ih nd ?_
      cases h
      decreasing_tactic
    | ret i value =>
      refine carries_ret fun nd h => ih nd ?_
      cases h
      decreasing_tactic
    | cond i condition thenBranch elseBranch =>
      refine carries_cond (ih condition (by decreasing_tactic)) (ih thenBranch (by decreasing_tactic))
        fun nd h => ih nd ?_
      cases h
      decreasing_tactic
    | loop i condition body =>
      exact carries_loop (ih condition (by decreasing_tactic)) (ih body (by decreasing_tactic))
    | block i statements =>
      refine carries_block fun nd h => ih nd ?_
      decreasing_tactic
    | withObject i object body =>
      exact carries_withObject (ih object (by decreasing_tactic)) (ih body (by decreasing_tactic))
    | throw i value => exact carries_throw (ih value (by decreasing_tactic))
    | tryCatch i block param handler =>
      exact carries_tryCatch param (ih block (by decreasing_tactic)) (ih handler (by decreasing_tactic))

/-! ## Functions -/

/-- A statement whose declared functions are made by code that carries at its start wherever it does at its
end. -/
def CarriesHoisted (U : Blueprint) (F : CodeFunction) (c : GenContext) (lowered : Bool) (nd : Node) : Prop :=
  ∀ {n a b : Nat}, LaidHoisted U F c lowered 0 nd a b → CarriesFor U F n b [] → CarriesFor U F n a []

/-- **Declared functions of statements** are made one after the other. -/
theorem carries_hoistedAll {n a b : Nat} {ns : List Node} (hns : ∀ nd ∈ ns, CarriesHoisted U F c lowered nd)
    (hlaid : LaidHoistedAll U F c lowered 0 ns a b) (hend : CarriesFor U F n b []) :
    CarriesFor U F n a [] := by
  induction ns generalizing a with
  | nil =>
    obtain rfl : a = b := hlaid
    exact hend
  | cons nd rest ih =>
    obtain ⟨m, hfirst, hrest⟩ := hlaid
    exact hns nd List.mem_cons_self hfirst
      (ih (fun nd' h => hns nd' (List.mem_cons_of_mem _ h)) hrest)

/-- **Declared functions** are made and bound. -/
theorem carries_hoisted (nd : Node) : CarriesHoisted U F c lowered nd := by
  induction nd using Node.sizeInduction with
  | step nd ih =>
    intro n a b hlaid hend
    cases nd with
    | function i name params body isDeclaration scope =>
      cases isDeclaration with
      | false =>
        obtain rfl : a = b := hlaid
        exact hend
      | true =>
        cases name with
        | none =>
          obtain rfl : a = b := hlaid
          exact hend
        | some x =>
          obtain ⟨m, hclosure, hbind⟩ := hlaid
          exact carries_closure hclosure (carries_bind hbind hend false)
    | block i statements =>
      refine carries_hoistedAll (fun nd h => ih nd ?_) hlaid hend
      decreasing_tactic
    | cond i condition thenBranch elseBranch =>
      obtain ⟨m, hthen, helse⟩ := hlaid
      refine ih thenBranch (by decreasing_tactic) hthen ?_
      cases elseBranch with
      | none =>
        obtain rfl : m = b := helse
        exact hend
      | some elseBranch => exact ih elseBranch (by decreasing_tactic) helse hend
    | loop i condition body => exact ih body (by decreasing_tactic) hlaid hend
    | tryCatch i block param handler =>
      obtain ⟨m, hblock, hhandler⟩ := hlaid
      exact ih block (by decreasing_tactic) hblock (ih handler (by decreasing_tactic) hhandler hend)
    | _ =>
      obtain rfl : a = b := hlaid
      exact hend

/-- **The start of a function** carries, with no operands. -/
theorem Blueprint.carries_start {src : Source} (hF : U.Lays F src) : Carries U F 0 [] := by
  intro n
  obtain ⟨b, hcode⟩ := hF.code
  rw [Laid.code] at hcode
  -- The declarations and the statements, whatever comes behind them.
  have hbody : ∀ {a m : Nat}, ((LaidHoistedAll U F (U.context src) src.isLowered 0 src.body).seq
      (LaidAll U F (U.context src) src.isLowered 0 .effect src.body)) a m →
      CarriesFor U F n m [] → CarriesFor U F n a [] := by
    rintro a m ⟨m₁, hhoisted, hstatements⟩ hend
    refine carries_hoistedAll (fun nd _ => carries_hoisted nd) hhoisted ?_
    exact carries_statements (fun nd _ => carries_node nd) hstatements hend
  split at hcode
  · obtain ⟨m, hmain, m₁, hget, hret⟩ := hcode
    exact hbody hmain (.of_at hget (CarriesFor.of_at hret trivial))
  · obtain ⟨m, hown, m₁, hmain, hret⟩ := hcode
    have hstart := hbody hmain (.of_at hret trivial)
    -- A function expression binds its own name first, if that has a variable.
    cases hexpr : src.isDeclaration with
    | true =>
      rw [Laid.ownName, hexpr] at hown
      obtain rfl : 0 = m := hown
      exact hstart
    | false =>
      cases hname : src.name with
      | none =>
        rw [Laid.ownName, hexpr, hname] at hown
        obtain rfl : 0 = m := hown
        exact hstart
      | some x =>
        simp only [Laid.ownName, hexpr, hname] at hown
        split at hown
        · obtain ⟨m₂, hcallee, hbind⟩ := hown
          exact .of_at hcallee (carries_bind hbind hstart false)
        · obtain rfl : 0 = m := hown
          exact hstart

/-! ## All numbers of steps -/

/-- What an instruction leads to is of all kinds at once. -/
theorem Instruction.Carries.all {K : Nat → Nat → List Bool → Prop} {next : Nat} {marks : List Bool}
    {i : Instruction} (h : ∀ n, i.Carries (K n) next marks) :
    i.Carries (fun ip marks => ∀ n, K n ip marks) next marks := by
  cases i <;> simp only [Carries] at h ⊢ <;> simp_all [forall_and]

/-- **Where code carries** there is an instruction that carries, and leads to where code carries. -/
theorem Carries.step {ip : Nat} {marks : List Bool} (h : Carries U F ip marks) :
    ∃ i next, U.at F i ip next ∧ i.Carries (Carries U F) next marks := by
  obtain ⟨i, next, hat, -⟩ := h 1
  refine ⟨i, next, hat, .all fun n => ?_⟩
  obtain ⟨i', next', hat', hi'⟩ := h (n + 1)
  obtain ⟨rfl, rfl⟩ : i' = i ∧ next' = next := by
    have hsame := hat'.symm.trans hat
    simpa using hsame
  exact hi'

end

end ScriptEngine
