import ScriptEngine.Proofs.Scope.Binders

/-!
# Programs without loops

A program is free of loops if neither its statements nor the functions in it have one. Analysis adds none.
-/

namespace ScriptEngine

mutual

/-- Whether there is no loop in a node, nor in the functions in it. -/
def Node.isLoopFree : Node → Bool
  | .loop .. => false
  | .call _ target args => target.isLoopFree && loopFreeAll args
  | .member _ target _ => target.isLoopFree
  | .binary _ _ lhs rhs => lhs.isLoopFree && rhs.isLoopFree
  | .unary _ _ operand => operand.isLoopFree
  | .assign _ target value => target.isLoopFree && value.isLoopFree
  | .function _ _ _ body _ _ => loopFreeAll body
  | .object _ ps => loopFreeProperties ps
  | .delete _ target => target.isLoopFree
  | .var _ _ init => loopFree? init
  | .ret _ value => loopFree? value
  | .cond _ condition thenBranch elseBranch =>
    condition.isLoopFree && thenBranch.isLoopFree && loopFree? elseBranch
  | .block _ statements => loopFreeAll statements
  | .withObject _ object body => object.isLoopFree && body.isLoopFree
  | .throw _ value => value.isLoopFree
  | .tryCatch _ block _ handler => block.isLoopFree && handler.isLoopFree
  | .literal .. | .identifier .. | .dynamic .. | .this _ => true

/-- Whether there is no loop in nodes. -/
def loopFreeAll : List Node → Bool
  | [] => true
  | n :: rest => n.isLoopFree && loopFreeAll rest

/-- Whether there is no loop in a node that may be missing. -/
def loopFree? : Option Node → Bool
  | none => true
  | some n => n.isLoopFree

/-- Whether there is no loop in the values of properties. -/
def loopFreeProperties : List (String × Node) → Bool
  | [] => true
  | (_, value) :: rest => value.isLoopFree && loopFreeProperties rest

end

/-- Whether there is no loop in a program. -/
def Program.isLoopFree (p : Program) : Bool := loopFreeAll p.body

/-- A single node. -/
theorem loopFreeAll_singleton (n : Node) : loopFreeAll [n] = n.isLoopFree := by
  rw [loopFreeAll, loopFreeAll, Bool.and_true]

/-- A node that may be missing. -/
theorem loopFree?_eq (n : Option Node) : loopFree? n = loopFreeAll n.toList := by
  cases n with
  | none => rfl
  | some n => exact (loopFreeAll_singleton n).symm

/-- The values of properties. -/
theorem loopFreeProperties_eq (ps : List (String × Node)) :
    loopFreeProperties ps = loopFreeAll (ps.map Prod.snd) := by
  induction ps with
  | nil => rfl
  | cons p ps ih => rw [loopFreeProperties, ih, List.map_cons, loopFreeAll]

/-- **A neutral node** is free of loops if it is none itself and its parts are free of them. -/
theorem Node.isLoopFree_of_neutral {n : Node} (hn : n.isNeutral = true) :
    n.isLoopFree = (decide (n.kind ≠ .loop) && loopFreeAll n.parts) := by
  cases n with
  | identifier | function | var | withObject => cases hn
  | tryCatch i block param handler =>
    cases param with
    | some x => cases hn
    | none => simp [isLoopFree, kind, parts, loopFreeAll]
  | object i ps => simp [isLoopFree, kind, parts, loopFreeProperties_eq]
  | ret i value => simp [isLoopFree, kind, parts, loopFree?_eq]
  | cond i condition thenBranch elseBranch =>
    simp [isLoopFree, kind, parts, loopFreeAll, loopFree?_eq, Bool.and_assoc]
  | _ => simp [isLoopFree, kind, parts, loopFreeAll]

/-- A node with other parts is of the same kind. -/
theorem Node.kind_rebuild (i : Info) (n : Node) (ps : List Node) : (n.rebuild i ps).kind = n.kind := by
  rw [rebuild.eq_def]
  split
  all_goals first | rfl | (cases n <;> rfl)

/-- **Analysis** adds no loop. -/
theorem Analyzes.loopFree {c : Place} {t t' : ScopeTable} {ns ns' : List Node}
    (h : Analyzes c t ns t' ns') (hns : loopFreeAll ns = true) : loopFreeAll ns' = true := by
  induction h with
  | nil | folded | lowered | definition | reference => rfl
  | cons _ _ ih ih' =>
    rw [loopFreeAll, Bool.and_eq_true] at hns
    have hn := ih (by rw [loopFreeAll_singleton]; exact hns.1)
    rw [loopFreeAll_singleton] at hn
    rw [loopFreeAll, hn, ih' hns.2]
    rfl
  | neutral i hn hlength _ _ ih =>
    obtain ⟨hparts, hneutral⟩ := Node.parts_rebuild i hn hlength
    rw [loopFreeAll_singleton, Node.isLoopFree_of_neutral hn, Bool.and_eq_true] at hns
    rw [loopFreeAll_singleton, Node.isLoopFree_of_neutral hneutral, Node.kind_rebuild, hparts, hns.1,
      ih hns.2]
    rfl
  | var i i' _ _ _ ih =>
    rw [loopFreeAll_singleton, Node.isLoopFree, loopFree?_eq] at hns ⊢
    exact ih hns
  | function i i' label _ _ _ _ _ _ _ _ ih =>
    rw [loopFreeAll_singleton, Node.isLoopFree] at hns ⊢
    exact ih hns
  | withObject i i' _ _ iho ihb =>
    rw [loopFreeAll_singleton, Node.isLoopFree, Bool.and_eq_true] at hns ⊢
    rw [loopFreeAll_singleton, loopFreeAll_singleton] at iho ihb
    exact ⟨iho hns.1, ihb hns.2⟩
  | tryCatch i i' _ _ _ ihb ihh =>
    rw [loopFreeAll_singleton, Node.isLoopFree, Bool.and_eq_true] at hns ⊢
    rw [loopFreeAll_singleton, loopFreeAll_singleton] at ihb ihh
    exact ⟨ihb hns.1, ihh hns.2⟩

/-- **A program without loops** has none after analysis. -/
theorem Analyzer.program_loopFree {p p' : Program} {a : Analyzer} (h : Analyzer.program {} p = (a, p'))
    (hok : a.failure = none) (hp : p.isLoopFree = true) : p'.isLoopFree = true := by
  obtain ⟨t, -, hwalk⟩ := program_analyzes h hok
  exact hwalk.loopFree hp

end ScriptEngine
