import ScriptEngine.Generation
import ScriptEngine.Proofs.Scope.Again

/-!
# What generation refuses in a tree

Two things in a tree are no fault of its names: a statement that stands where a value is wanted, and an
assignment to what cannot be assigned to. `Node.faults` lists the errors for both.

A walk of the analyzer that does not fail has met no such assignment, and it leaves statements where they
stand, so that what generation finds fault with is there before analysis (`Analyzer.program_spares`).
-/

namespace ScriptEngine

open Generation Analyzer

/-! ## Faults -/

/-- Whether nodes of the kind are statements, which leave no value. -/
def NodeKind.isStatement : NodeKind → Bool
  | .var | .ret | .cond | .loop | .block | .withObject | .throw | .tryCatch => true
  | _ => false

/-- The fault of a statement whose value is wanted. -/
def Node.misplaced (pos : Position) (n : Node) : List CompileError :=
  if n.kind.isStatement && pos = .value then [.expectedExpression n.kind n.span] else []

/-- The fault of a target that cannot be assigned to. -/
def Node.unassignable (n : Node) : List CompileError :=
  if isTarget n then [] else [.invalidTarget n.span]

mutual

/-- The faults of a node in a position, and of what stands in it. -/
def Node.faults (pos : Position) (n : Node) : List CompileError :=
  n.misplaced pos ++ match n with
    | .call _ target args => target.faults .value ++ faultsAll .value args
    | .member _ target _ => target.faults .value
    | .binary _ _ lhs rhs => lhs.faults .value ++ rhs.faults .value
    | .unary _ _ operand => operand.faults .value
    | .assign _ target value => target.unassignable ++ (target.faults .value ++ value.faults .value)
    | .function _ _ _ body _ _ => faultsAll .effect body
    | .object _ ps => faultsOfProperties ps
    | .delete _ target => target.faults .value
    | .var _ _ init => faults? .value init
    | .ret _ value => faults? .value value
    | .cond _ condition thenBranch elseBranch =>
      condition.faults .value ++ (thenBranch.faults .effect ++ faults? .effect elseBranch)
    | .loop _ condition body => condition.faults .value ++ body.faults .effect
    | .block _ statements => faultsAll .effect statements
    | .withObject _ object body => object.faults .value ++ body.faults .effect
    | .throw _ value => value.faults .value
    | .tryCatch _ block _ handler => block.faults .effect ++ handler.faults .effect
    | .literal .. | .identifier .. | .dynamic .. | .this _ => []

/-- The faults of nodes, all in one position. -/
def faultsAll (pos : Position) : List Node → List CompileError
  | [] => []
  | n :: rest => n.faults pos ++ faultsAll pos rest

/-- The faults of a node that may be missing. -/
def faults? (pos : Position) : Option Node → List CompileError
  | none => []
  | some n => n.faults pos

/-- The faults of the values of properties. -/
def faultsOfProperties : List (String × Node) → List CompileError
  | [] => []
  | (_, value) :: rest => value.faults .value ++ faultsOfProperties rest

end

/-- The faults of a program, whose statements are there for their effects. -/
def Program.faults (p : Program) : List CompileError := faultsAll .effect p.body

/-- What is known about the value of a node is no fault. -/
theorem Node.faults_setInfo {i : Info} (n : Node) (hi : i.span = n.info.span) (pos : Position) :
    (n.setInfo i).faults pos = n.faults pos := by
  have hmisplaced : (n.setInfo i).misplaced pos = n.misplaced pos := by
    have hspan : (n.setInfo i).span = n.span := by cases n <;> exact hi
    have hkind : (n.setInfo i).kind = n.kind := by cases n <;> rfl
    rw [misplaced, misplaced, hspan, hkind]
  cases n <;> simp only [Node.setInfo, Node.faults] at hmisplaced ⊢ <;> rw [hmisplaced]

/-- All errors are about statements whose value is wanted. -/
def OnlyMisplaced (l : List CompileError) : Prop :=
  ∀ e ∈ l, ∃ kind span, kind.isStatement = true ∧ e = .expectedExpression kind span

/-- A statement whose value is wanted. -/
theorem Node.onlyMisplaced_misplaced (pos : Position) (n : Node) : OnlyMisplaced (n.misplaced pos) := by
  rw [misplaced]
  split
  · next hstatement =>
    exact List.forall_mem_singleton.mpr ⟨_, _, (Bool.and_eq_true_iff.mp hstatement).1, rfl⟩
  · exact fun e he => nomatch he

/-! ## Walks -/

namespace Analyzer

/-- A walk of something that had some faults and has others: if it has not failed, then not before either, the
faults are what they were, and none is about an assignment. -/
def Spares (a a' : Analyzer) (l l' : List CompileError) : Prop :=
  a'.failed = false → a.failed = false ∧ l' = l ∧ OnlyMisplaced l

namespace Spares

variable {a a₁ a' : Analyzer} {l l' m m' : List CompileError}

/-- A walk that has failed. -/
theorem of_failed (h : a'.failed = true) : Spares a a' l l' := by
  intro h'
  rw [h] at h'
  cases h'

/-- No walk at all. -/
theorem nil (a : Analyzer) : Spares a a [] [] := fun h => ⟨h, rfl, fun _ he => nomatch he⟩

/-- **One walk after the other.** -/
theorem append (h : Spares a a₁ l l') (h' : Spares a₁ a' m m') : Spares a a' (l ++ m) (l' ++ m') := by
  intro hf
  obtain ⟨hf₁, hm, honly⟩ := h' hf
  obtain ⟨hf₀, hl, honly₀⟩ := h hf₁
  exact ⟨hf₀, by rw [hl, hm], List.forall_mem_append.mpr ⟨honly₀, honly⟩⟩

/-- A step first that fails or finds no fault. -/
theorem after (h : Spares a₁ a' l l') (hstep : a₁.failed = false → a.failed = false) : Spares a a' l l' :=
  fun hf => ⟨hstep (h hf).1, (h hf).2⟩

/-- A step behind that only notes something. -/
theorem noting (h : Spares a a₁ l l') (hn : a₁.Notes a') : Spares a a' l l' :=
  fun hf => h (hn.1.symm.trans hf)

/-- **A node** is put together again once its parts have been walked. -/
theorem whole {n n₁ : Node} {pos : Position} (h : Spares a a' l l') (hn : n.faults pos = n.misplaced pos ++ l)
    (hn₁ : n₁.faults pos = n₁.misplaced pos ++ l') (hsame : n₁.misplaced pos = n.misplaced pos) :
    Spares a a' (n.faults pos) (n₁.faults pos) := by
  intro hf
  obtain ⟨hf₀, hl, honly⟩ := h hf
  refine ⟨hf₀, by rw [hn, hn₁, hsame, hl], ?_⟩
  rw [hn]
  exact List.forall_mem_append.mpr ⟨n.onlyMisplaced_misplaced pos, honly⟩

/-- **A node** is finished once it has been put together again. -/
theorem finish {n n₁ n' : Node} {type : ValueType} {pos : Position}
    (hend : a₁.expression n₁ type = (a', n')) (h : Spares a a₁ l l')
    (hn : n.faults pos = n.misplaced pos ++ l) (hn₁ : n₁.faults pos = n₁.misplaced pos ++ l')
    (hsame : n₁.misplaced pos = n.misplaced pos) : Spares a a' (n.faults pos) (n'.faults pos) := by
  have hnothing : a' = a₁ := by rw [← expression_fst a₁ n₁ type, hend]
  obtain ⟨i, hspan, rfl, -⟩ := expression_again hend
  rw [n₁.faults_setInfo hspan, hnothing]
  exact h.whole hn hn₁ hsame

end Spares

/-- However a node is walked, its faults are spared. -/
structure Spared (n : Node) : Prop where
  /-- By every walk, in every position. -/
  spares : ∀ {inWith : Bool} {a a' : Analyzer} {n' : Node}, a.nodeIn inWith n = (a', n') → ∀ pos,
    Spares a a' (n.faults pos) (n'.faults pos)

/-- The same for nodes. -/
structure SparedAll (ns : List Node) : Prop where
  /-- By every walk, in every position. -/
  spares : ∀ {inWith : Bool} {a a' : Analyzer} {ns' : List Node}, a.nodesIn inWith ns = (a', ns') → ∀ pos,
    Spares a a' (faultsAll pos ns) (faultsAll pos ns')

/-- The same for a node that may be missing. -/
structure Spared? (n : Option Node) : Prop where
  /-- By every walk, in every position. -/
  spares : ∀ {inWith : Bool} {a a' : Analyzer} {n' : Option Node}, a.nodeIn? inWith n = (a', n') → ∀ pos,
    Spares a a' (faults? pos n) (faults? pos n')

/-- The same for properties. -/
structure SparedProperties (ps : List (String × Node)) : Prop where
  /-- By every walk. -/
  spares : ∀ {inWith : Bool} {a a' : Analyzer} {ps' : List (String × Node)},
    a.propertiesIn inWith ps = (a', ps') → Spares a a' (faultsOfProperties ps) (faultsOfProperties ps')

section

variable {a a' : Analyzer} {n n' : Node}

/-- A failed analyzer walks nothing; so the walk may be taken to go by the rules. -/
theorem Spared.of_rules (hwalk : ∀ (inWith : Bool) (a a' : Analyzer) (n' : Node), a.failed = false →
    a.NodeWalk inWith n a' n' → ∀ pos, Spares a a' (n.faults pos) (n'.faults pos)) : Spared n := by
  refine ⟨fun {inWith a a' n'} h => ?_⟩
  rcases hf : a.failed with _ | _
  · exact hwalk inWith a a' n' hf (nodeWalk_of_nodeIn hf h)
  · rw [nodeIn_of_failed hf] at h
    cases h
    exact fun pos => .of_failed hf

/-! ## One node of each kind -/

variable {i : Info}

/-- A literal. -/
theorem Spared.literal (l : Literal) : Spared (.literal i l) := by
  refine .of_rules fun inWith a a' n' _ hw pos => ?_
  cases hw
  exact .nil a

/-- A name looked up when the program runs. -/
theorem Spared.dynamic (name : String) : Spared (.dynamic i name) := by
  refine .of_rules fun inWith a a' n' _ hw pos => ?_
  cases hw
  exact .nil a

/-- The receiver. -/
theorem Spared.this : Spared (.this i) := by
  refine .of_rules fun inWith a a' n' _ hw pos => ?_
  cases hw
  exact .nil a

/-- A name in a node of its own, and what becomes of it, have no faults. -/
theorem Spared.identifier (x : Identifier) : Spared (.identifier i x) := by
  refine .of_rules fun inWith a a' n' hf hw pos _ => ⟨hf, ?_, fun e he => nomatch he⟩
  cases hw with
  | lowered => rfl
  | identifier _ h =>
    rw [Analyzer.identifier] at h
    simp only at h
    split at h
    · cases h
      rfl
    · cases h
      rfl

/-- **A call.** -/
theorem Spared.call {target : Node} {args : List Node} (iht : Spared target) (ihr : SparedAll args) :
    Spared (.call i target args) := by
  refine .of_rules fun inWith a a' n' _ hw pos => ?_
  cases hw with
  | call ht hr hend =>
    have hparts := (iht.spares ht .value).append (ihr.spares hr .value)
    exact .finish hend (hparts.noting (notes_noteCall ..)) rfl rfl rfl

/-- Reading a property. -/
theorem Spared.member {target : Node} (iht : Spared target) (name : String) :
    Spared (.member i target name) := by
  refine .of_rules fun inWith a a' n' _ hw pos => ?_
  cases hw with
  | member ht hend => exact .finish hend (iht.spares ht .value) rfl rfl rfl

/-- A number has no faults. -/
theorem faults_number {x : Number} (hx : n.number? = some x) (pos : Position) : n.faults pos = [] := by
  rw [Node.number?.eq_def] at hx
  split at hx
  · rfl
  · cases hx

/-- **A binary operation**: if it is folded, there was no fault in its operands. -/
theorem Spared.binary {lhs rhs : Node} (ihl : Spared lhs) (ihr : Spared rhs) (op : BinaryOp) :
    Spared (.binary i op lhs rhs) := by
  refine .of_rules fun inWith a a' n' _ hw pos => ?_
  cases hw with
  | binary hl hr _ _ =>
    have hparts := (ihl.spares hl .value).append (ihr.spares hr .value)
    exact .whole (hparts.noting (notes_noteOperands ..)) rfl rfl rfl
  | binaryFolded hl hr _ hfold =>
    obtain ⟨x, y, hx, hy, -⟩ := foldBinary?_eq_some hfold
    have hparts := (ihl.spares hl .value).append (ihr.spares hr .value)
    rw [faults_number hx, faults_number hy] at hparts
    exact .whole (hparts.noting (notes_noteOperands ..)) rfl rfl rfl
  | binaryFailed hl hr hf => exact .of_failed hf

/-- **A unary operation.** -/
theorem Spared.unary {operand : Node} (iho : Spared operand) (op : UnaryOp) :
    Spared (.unary i op operand) := by
  refine .of_rules fun inWith a a' n' _ hw pos => ?_
  cases hw with
  | unary ho _ _ => exact .whole ((iho.spares ho .value).noting (notes_noteOperand ..)) rfl rfl rfl
  | unaryFolded ho _ hfold =>
    obtain ⟨x, hx, -⟩ := Option.bind_eq_some_iff.mp hfold
    have hparts := iho.spares ho .value
    rw [faults_number hx] at hparts
    exact .whole (hparts.noting (notes_noteOperand ..)) rfl rfl rfl
  | unaryFailed ho hf => exact .of_failed hf

/-- **An assignment** is refused if nothing can be assigned to its target. -/
theorem Spared.assign {target value : Node} (iht : Spared target) (ihv : Spared value) :
    Spared (.assign i target value) := by
  refine .of_rules fun inWith a a' n' _ hw pos => ?_
  cases hw with
  | @assign _ _ target' _ _ _ _ _ _ htarget ht hv hend =>
    have htarget' := ((node_again target).settles ht).target htarget
    have hassignable : target.unassignable = [] := by rw [Node.unassignable, if_pos htarget]
    have hassignable' : target'.unassignable = [] := by rw [Node.unassignable, if_pos htarget']
    have hparts := (iht.spares ht .value).append (ihv.spares hv .value)
    refine .finish hend (hparts.noting (notes_noteValue ..)) ?_ ?_ rfl
    · rw [Node.faults, hassignable]
      rfl
    · rw [Node.faults, hassignable']
      rfl
  | assignFailed => exact .of_failed rfl

/-- An object literal. -/
theorem Spared.object {ps : List (String × Node)} (ihp : SparedProperties ps) : Spared (.object i ps) := by
  refine .of_rules fun inWith a a' n' _ hw pos => ?_
  cases hw with
  | object hp hend => exact .finish hend (ihp.spares hp) rfl rfl rfl

/-- A deletion. -/
theorem Spared.delete {target : Node} (iht : Spared target) : Spared (.delete i target) := by
  refine .of_rules fun inWith a a' n' _ hw pos => ?_
  cases hw with
  | delete ht hend => exact .finish hend (iht.spares ht .value) rfl rfl rfl

/-- **A function** has the faults of its body, wherever its name is bound. -/
theorem Spared.function {body : List Node} (ihb : SparedAll body) (name : Option Identifier)
    (params : List Identifier) (isDeclaration : Bool) (scope : Option ScopeId) :
    Spared (.function i name params body isDeclaration scope) := by
  refine .of_rules fun inWith a a' n' hf hw pos => ?_
  cases hw with
  | @function _ _ name₁ _ _ _ _ a₁ _ _ _ _ hwithin =>
    rcases hp : (a₁.enter (functionName name₁)).1.parameters params with ⟨a₂, params'⟩
    rcases hn : (a₂.hoist body).nameWithin isDeclaration name₁ with ⟨a₃, name'⟩
    rcases hb : a₃.nodesIn inWith body with ⟨a₄, body'⟩
    rw [functionWithin_eq hp hn hb] at hwithin
    refine .finish hwithin ?_ rfl rfl rfl
    exact (ihb.spares hb .effect).after fun _ => hf
  | functionFailed _ hf₁ => exact .of_failed hf₁

/-- **A variable statement.** -/
theorem Spared.var {init : Option Node} (ihi : Spared? init) (binding : Identifier) :
    Spared (.var i binding init) := by
  refine .of_rules fun inWith a a' n' hf hw pos => ?_
  cases hw with
  | var _ hi hend =>
    have hinit := (ihi.spares hi .value).after (a := a) fun _ => hf
    exact .finish hend (hinit.noting (notes_noteValue ..)) rfl rfl rfl

/-- Returning. -/
theorem Spared.ret {value : Option Node} (ihv : Spared? value) : Spared (.ret i value) := by
  refine .of_rules fun inWith a a' n' _ hw pos => ?_
  cases hw with
  | ret hv hend => exact .finish hend (ihv.spares hv .value) rfl rfl rfl

/-- **A conditional.** -/
theorem Spared.cond {condition thenBranch : Node} {elseBranch : Option Node} (ihc : Spared condition)
    (iht : Spared thenBranch) (ihe : Spared? elseBranch) :
    Spared (.cond i condition thenBranch elseBranch) := by
  refine .of_rules fun inWith a a' n' _ hw pos => ?_
  cases hw with
  | cond hc ht he hend =>
    have hbranches := (iht.spares ht .effect).append (ihe.spares he .effect)
    exact .finish hend ((ihc.spares hc .value).append hbranches) rfl rfl rfl

/-- A loop. -/
theorem Spared.loop {condition body : Node} (ihc : Spared condition) (ihb : Spared body) :
    Spared (.loop i condition body) := by
  refine .of_rules fun inWith a a' n' _ hw pos => ?_
  cases hw with
  | loop hc hb hend => exact .finish hend ((ihc.spares hc .value).append (ihb.spares hb .effect)) rfl rfl rfl

/-- A block. -/
theorem Spared.block {statements : List Node} (ihs : SparedAll statements) :
    Spared (.block i statements) := by
  refine .of_rules fun inWith a a' n' _ hw pos => ?_
  cases hw with
  | block hs hend => exact .finish hend (ihs.spares hs .effect) rfl rfl rfl

/-- **A `with` statement.** -/
theorem Spared.withObject {object body : Node} (iho : Spared object) (ihb : Spared body) :
    Spared (.withObject i object body) := by
  refine .of_rules fun inWith a a' n' _ hw pos => ?_
  cases hw with
  | @withObject _ _ _ _ _ _ a₁ a₂ _ ho _ hb hend =>
    have hbody : Spares a₁ a₂.leaveWith _ _ := (ihb.spares hb .effect).after id
    exact .finish hend ((iho.spares ho .value).append hbody) rfl rfl rfl
  | withObjectFailed _ hf₁ => exact .of_failed hf₁

/-- Throwing. -/
theorem Spared.throw {value : Node} (ihv : Spared value) : Spared (.throw i value) := by
  refine .of_rules fun inWith a a' n' _ hw pos => ?_
  cases hw with
  | throw hv hend => exact .finish hend (ihv.spares hv .value) rfl rfl rfl

/-- A handler without a name. -/
theorem Spared.tryCatch_none {block handler : Node} (ihb : Spared block) (ihh : Spared handler) :
    Spared (.tryCatch i block none handler) := by
  refine .of_rules fun inWith a a' n' _ hw pos => ?_
  cases hw with
  | tryCatch hb hh hend =>
    exact .finish hend ((ihb.spares hb .effect).append (ihh.spares hh .effect)) rfl rfl rfl

/-- **A handler with a name.** -/
theorem Spared.tryCatch_some {block handler : Node} (ihb : Spared block) (ihh : Spared handler)
    (x : Identifier) : Spared (.tryCatch i block (some x) handler) := by
  refine .of_rules fun inWith a a' n' _ hw pos => ?_
  cases hw with
  | @handler _ _ _ _ _ _ _ a₁ _ _ hb hok _ hh hend =>
    have hhandler := (ihh.spares hh .effect).after (a := a₁) fun _ => hok
    exact .finish hend ((ihb.spares hb .effect).append hhandler) rfl rfl rfl
  | handlerFailed _ _ hf₂ => exact .of_failed hf₂

/-- No nodes. -/
theorem SparedAll.nil : SparedAll [] := by
  refine ⟨fun {inWith a a' ns'} h pos => ?_⟩
  rw [nodesIn_nil] at h
  cases h
  exact .nil a

/-- One node more. -/
theorem SparedAll.cons {n : Node} {rest : List Node} (ihn : Spared n) (ihr : SparedAll rest) :
    SparedAll (n :: rest) := by
  refine ⟨fun {inWith a a' ns'} h pos => ?_⟩
  rw [nodesIn_cons] at h
  rcases hn : a.nodeIn inWith n with ⟨a₁, n'⟩
  rcases hr : a₁.nodesIn inWith rest with ⟨a₂, rest'⟩
  simp only [hn, hr] at h
  cases h
  exact (ihn.spares hn pos).append (ihr.spares hr pos)

/-- A node that is missing. -/
theorem Spared?.none : Spared? none := by
  refine ⟨fun {inWith a a' n'} h pos => ?_⟩
  rw [nodeIn?_none] at h
  cases h
  exact .nil a

/-- A node that is there. -/
theorem Spared?.some {n : Node} (ihn : Spared n) : Spared? (some n) := by
  refine ⟨fun {inWith a a' n'} h pos => ?_⟩
  rw [nodeIn?_some] at h
  rcases hn : a.nodeIn inWith n with ⟨a₁, n₁⟩
  simp only [hn] at h
  cases h
  exact ihn.spares hn pos

/-- No properties. -/
theorem SparedProperties.nil : SparedProperties [] := by
  refine ⟨fun {inWith a a' ps'} h => ?_⟩
  rw [propertiesIn_nil] at h
  cases h
  exact .nil a

/-- One property more. -/
theorem SparedProperties.cons {value : Node} {rest : List (String × Node)} (ihn : Spared value)
    (ihr : SparedProperties rest) (name : String) : SparedProperties ((name, value) :: rest) := by
  refine ⟨fun {inWith a a' ps'} h => ?_⟩
  rw [propertiesIn_cons] at h
  rcases hn : a.nodeIn inWith value with ⟨a₁, value'⟩
  rcases hr : a₁.propertiesIn inWith rest with ⟨a₂, rest'⟩
  simp only [hn, hr] at h
  cases h
  exact (ihn.spares hn .value).append (ihr.spares hr)

end

/-! ## Whole trees -/

mutual

/-- **A walk** spares the faults of a node. -/
theorem node_spares : ∀ n : Node, Spared n
  | .literal _ l => .literal l
  | .identifier _ x => .identifier x
  | .dynamic _ name => .dynamic name
  | .this _ => .this
  | .call _ target args => .call (node_spares target) (nodes_spares args)
  | .member _ target name => .member (node_spares target) name
  | .binary _ op lhs rhs => .binary (node_spares lhs) (node_spares rhs) op
  | .unary _ op operand => .unary (node_spares operand) op
  | .assign _ target value => .assign (node_spares target) (node_spares value)
  | .function _ name params body isDeclaration scope =>
    .function (nodes_spares body) name params isDeclaration scope
  | .object _ ps => .object (properties_spares ps)
  | .delete _ target => .delete (node_spares target)
  | .var _ binding init => .var (node?_spares init) binding
  | .ret _ value => .ret (node?_spares value)
  | .cond _ condition thenBranch elseBranch =>
    .cond (node_spares condition) (node_spares thenBranch) (node?_spares elseBranch)
  | .loop _ condition body => .loop (node_spares condition) (node_spares body)
  | .block _ statements => .block (nodes_spares statements)
  | .withObject _ object body => .withObject (node_spares object) (node_spares body)
  | .throw _ value => .throw (node_spares value)
  | .tryCatch _ block none handler => .tryCatch_none (node_spares block) (node_spares handler)
  | .tryCatch _ block (some x) handler => .tryCatch_some (node_spares block) (node_spares handler) x

/-- **A walk** spares the faults of nodes. -/
theorem nodes_spares : ∀ ns : List Node, SparedAll ns
  | [] => .nil
  | n :: rest => .cons (node_spares n) (nodes_spares rest)

/-- **A walk** spares the faults of a node that may be missing. -/
theorem node?_spares : ∀ n : Option Node, Spared? n
  | none => .none
  | some n => .some (node_spares n)

/-- **A walk** spares the faults of properties. -/
theorem properties_spares : ∀ ps : List (String × Node), SparedProperties ps
  | [] => .nil
  | (name, value) :: rest => .cons (node_spares value) (properties_spares rest) name

end

/-- **A program that analysis accepts** has the faults after it that it had before, and they are all about
statements whose values are wanted. -/
theorem program_spares {p p' : Program} {a : Analyzer} (h : program {} p = (a, p')) (hok : a.failure = none) :
    p'.faults = p.faults ∧ OnlyMisplaced p.faults := by
  rw [program] at h
  rcases hb : ({ scope := .global } : Analyzer).hoist p.body |>.nodes #[] p.body with ⟨a₁, body'⟩
  simp only [hb] at h
  cases h
  exact ((nodes_spares p.body).spares ((nodesIn_false ..).trans hb) .effect (by rw [failed, hok]; rfl)).2

end Analyzer

end ScriptEngine
