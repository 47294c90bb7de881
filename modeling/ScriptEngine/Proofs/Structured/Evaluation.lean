import Mathlib.Logic.Function.Basic
import ScriptEngine.Realm
import ScriptEngine.Proofs.Code.Layout
import ScriptEngine.Value.Operation

/-!
# Structured evaluation

What a function does, read off its analyzed tree without any code: expressions have values, statements
end in one of three ways, and variables are kept by their numbers. There are no jumps, no operands and
no handlers here, and a `throw` is passed on until a `try` around it takes it.

Only a part of the language is evaluated, that of control flow over the function's own variables:
`Node.isPlain` and `Node.isStructured` tell which nodes belong to it. A loop may go on for ever, so
statements are given a number of turns that no loop may exceed; `Source.evaluate?_unique` says that a
result, once there, does not depend on that number.
-/

namespace ScriptEngine

/-! ## The structured part of the language -/

/-- Whether a name stands for a variable of a scope. -/
def ScopeTable.owns (t : ScopeTable) (s : ScopeId) (x : Identifier) : Bool :=
  x.var.any fun v => t.vars[v.index]?.any fun V => V.scope = s

/-- Whether a node is an expression of constants, operators, and variables of the scope that are read or
assigned to. -/
def Node.isPlain (t : ScopeTable) (s : ScopeId) : Node → Bool
  | .literal .. => true
  | .identifier _ x => t.owns s x
  | .unary _ _ operand => operand.isPlain t s
  | .binary _ _ lhs rhs => lhs.isPlain t s && rhs.isPlain t s
  | .assign _ (.identifier _ x) value => t.owns s x && value.isPlain t s
  | _ => false

mutual

/-- Whether a node is a statement of the structured part, in which every name stands for a variable of the
scope. -/
def Node.isStructured (t : ScopeTable) (s : ScopeId) : Node → Bool
  | .block _ statements => structuredAll t s statements
  | .var _ x init => t.owns s x && init.all (Node.isPlain t s)
  | .ret _ value => value.all (Node.isPlain t s)
  | .cond _ condition thenBranch elseBranch =>
    condition.isPlain t s && thenBranch.isStructured t s && structured? t s elseBranch
  | .loop _ condition body => condition.isPlain t s && body.isStructured t s
  | .throw _ value => value.isPlain t s
  | .tryCatch _ block param handler =>
    block.isStructured t s && param.all (t.owns s) && handler.isStructured t s
  | e => e.isPlain t s

/-- Whether all nodes are statements of the structured part. -/
def structuredAll (t : ScopeTable) (s : ScopeId) : List Node → Bool
  | [] => true
  | n :: rest => n.isStructured t s && structuredAll t s rest

/-- Whether a node, if there is one, is a statement of the structured part. -/
def structured? (t : ScopeTable) (s : ScopeId) : Option Node → Bool
  | none => true
  | some n => n.isStructured t s

end

/-- Statements are of the structured part if each of them is. -/
theorem structuredAll_iff {t : ScopeTable} {s : ScopeId} {ns : List Node} :
    structuredAll t s ns = true ↔ ∀ n ∈ ns, n.isStructured t s = true := by
  induction ns with
  | nil => simp [structuredAll]
  | cons n ns ih => simp [structuredAll, ih]

/-- Whether a function consists of statements of the structured part, over variables of its own. A function
expression need not see its own name. -/
def Source.isStructured (t : ScopeTable) (src : Source) : Bool :=
  !src.isProgram && src.params.all (t.owns src.scope) &&
    (src.isDeclaration || src.name.all fun x => x.var.isNone || t.owns src.scope x) &&
    structuredAll t src.scope src.body

/-! ## Expressions -/

/-- The values of variables. -/
abbrev Store : Type := VarId → Value

/-- Gives the variable of a name a value. -/
def Store.assign (σ : Store) (x : Identifier) (v : Value) : Option Store :=
  x.var.map fun u => Function.update σ u v

/-- Whether the left operand decides alone. -/
def BinaryOp.decidedBy (op : BinaryOp) (v : Value) : Bool :=
  match op with
  | .and => !v.toBool
  | .or => v.toBool
  | _ => false

/-- The value of a unary operation. -/
def Heap.unary (heap : Heap) (op : UnaryOp) (v : Value) : Value :=
  match op with
  | .neg => v.negate
  | .plus => v.plus
  | .not => v.not
  | .typeof => .string (heap.typeName v)
  | .void => .undefined

/-- The value of an expression, and the variables behind it. Operands are evaluated from left to right;
there is no value outside the structured part. -/
def Node.value? (heap : Heap) : Node → Store → Option (Value × Store)
  | .literal _ l, σ => some (l.toValue, σ)
  | .identifier _ x, σ => x.var.map fun u => (σ u, σ)
  | .unary _ op operand, σ => do
    let (v, σ) ← operand.value? heap σ
    return (heap.unary op v, σ)
  | .binary _ op lhs rhs, σ => do
    let (v, σ) ← lhs.value? heap σ
    if op.decidedBy v then return (v, σ)
    else
      let (w, σ) ← rhs.value? heap σ
      return (v.binary op w, σ)
  | .assign _ (.identifier _ x) value, σ => do
    let (v, σ) ← value.value? heap σ
    let σ ← σ.assign x v
    return (v, σ)
  | _, _ => none

/-! ## Statements -/

/-- How a statement ends. -/
inductive Completion where
  /-- The next statement follows. -/
  | normal
  /-- The function returns a value. -/
  | ret (v : Value)
  /-- A value has been thrown. -/
  | throw (v : Value)
  deriving DecidableEq

/-- How a statement ends and the variables behind it, if it ends within the turns that loops have. -/
abbrev Ending : Type := Option (Completion × Store)

namespace Ending

/-- Goes on if the end is a normal one. -/
def andThen (ended : Ending) (next : Store → Ending) : Ending :=
  match ended with
  | some (.normal, σ) => next σ
  | ended => ended

/-- Goes on with what has been thrown. -/
def orCatch (ended : Ending) (handler : Value → Store → Ending) : Ending :=
  match ended with
  | some (.throw v, σ) => handler v σ
  | ended => ended

end Ending

/-- Repeats a body while a test holds, for a number of turns at most. -/
def whileLoop (test : Store → Option (Value × Store)) (body : Store → Ending) : Nat → Store → Ending
  | 0, _ => none
  | turns + 1, σ => do
    let (v, σ) ← test σ
    if v.toBool then Ending.andThen (body σ) (whileLoop test body turns)
    else return (.normal, σ)

/-- Binds a caught value, if the handler has a name for it. -/
def Store.bindCaught (σ : Store) (param : Option Identifier) (v : Value) : Option Store :=
  match param with
  | none => some σ
  | some x => σ.assign x v

mutual

/-- How a statement ends, unless a loop takes more than the given number of turns. -/
def Node.exec? (heap : Heap) (turns : Nat) : Node → Store → Ending
  | .block _ statements, σ => execAll? heap turns statements σ
  | .var _ x init, σ =>
    match init with
    | none => some (.normal, σ)
    | some init => do
      let (v, σ) ← init.value? heap σ
      let σ ← σ.assign x v
      return (.normal, σ)
  | .ret _ value, σ =>
    match value with
    | none => some (.ret .undefined, σ)
    | some value => do
      let (v, σ) ← value.value? heap σ
      return (.ret v, σ)
  | .cond _ condition thenBranch elseBranch, σ => do
    let (v, σ) ← condition.value? heap σ
    if v.toBool then thenBranch.exec? heap turns σ else execElse? heap turns elseBranch σ
  | .loop _ condition body, σ => whileLoop (condition.value? heap) (body.exec? heap turns) turns σ
  | .throw _ value, σ => do
    let (v, σ) ← value.value? heap σ
    return (.throw v, σ)
  | .tryCatch _ block param handler, σ =>
    Ending.orCatch (block.exec? heap turns σ) fun v σ => do
      let σ ← σ.bindCaught param v
      handler.exec? heap turns σ
  | e, σ => do
    let (_, σ) ← e.value? heap σ
    return (.normal, σ)

/-- How statements end that are executed in order, up to the first that does not end normally. -/
def execAll? (heap : Heap) (turns : Nat) : List Node → Store → Ending
  | [], σ => some (.normal, σ)
  | n :: rest, σ => Ending.andThen (n.exec? heap turns σ) (execAll? heap turns rest)

/-- How the other branch of a conditional ends, if there is one. -/
def execElse? (heap : Heap) (turns : Nat) : Option Node → Store → Ending
  | none, σ => some (.normal, σ)
  | some n, σ => n.exec? heap turns σ

end

/-! ## Functions -/

/-- Gives the parameters the arguments, in order; those that are missing are `undefined`. -/
def Store.bindParams (σ : Store) : List Identifier → List Value → Option Store
  | [], _ => some σ
  | x :: params, args => do
    let σ ← σ.assign x (args.headD .undefined)
    bindParams σ params args.tail

/-- Keeps the function itself in the variable of its name, if it is an expression that sees its own name. -/
def Source.bindName? (src : Source) (callee : Value) (σ : Store) : Option Store :=
  match src.isDeclaration, src.name with
  | false, some x => if x.var.isSome then σ.assign x callee else some σ
  | _, _ => some σ

/-- The variables at the start of a function: all are `undefined` but the parameters, and in a function
expression that sees its own name the function itself. -/
def Source.store? (src : Source) (callee : Value) (args : List Value) : Option Store := do
  let σ ← Store.bindParams (fun _ => .undefined) src.params args
  src.bindName? callee σ

/-- What a function comes to: a value that it returns, or one that it throws. At its end it returns
`undefined`. -/
def Completion.answer : Completion → Except Value Value
  | .normal => .ok .undefined
  | .ret v => .ok v
  | .throw v => .error v

/-- What a call of a function comes to, unless a loop takes more than the given number of turns. -/
def Source.evaluate? (heap : Heap) (turns : Nat) (src : Source) (callee : Value) (args : List Value) :
    Option (Except Value Value) := do
  let σ ← src.store? callee args
  let (c, _) ← execAll? heap turns src.body σ
  return c.answer

/-- What a call comes to, with the variables at the start. -/
theorem Source.evaluate?_eq {heap : Heap} {turns : Nat} {src : Source} {callee : Value} {args : List Value}
    {σ : Store} (h : src.store? callee args = some σ) :
    src.evaluate? heap turns callee args = (execAll? heap turns src.body σ).map fun r => r.1.answer := by
  rw [evaluate?, h]
  cases hended : execAll? heap turns src.body σ <;> simp [hended]

/-! ## More turns -/

/-- The second ending is the first one, if there is a first one. -/
def Ending.Within (a b : Ending) : Prop := ∀ r, a = some r → b = some r

namespace Ending.Within

variable {a b : Ending}

/-- An ending is within itself. -/
theorem refl (a : Ending) : a.Within a := fun _ h => h

/-- Behind a value. -/
theorem bind {α : Type} (o : Option α) {next next' : α → Ending} (h : ∀ x, (next x).Within (next' x)) :
    Within (o.bind next) (o.bind next') := by
  rcases o with _ | x
  · exact refl none
  · exact h x

/-- Behind a normal end. -/
theorem andThen (h : a.Within b) {next next' : Store → Ending} (hnext : ∀ σ, (next σ).Within (next' σ)) :
    (a.andThen next).Within (b.andThen next') := by
  intro r hr
  rcases a with _ | ⟨c, σ⟩
  · cases hr
  · rw [h _ rfl]
    cases c with
    | normal => exact hnext σ r hr
    | ret v => exact hr
    | throw v => exact hr

/-- In a handler. -/
theorem orCatch (h : a.Within b) {handler handler' : Value → Store → Ending}
    (hhandler : ∀ v σ, (handler v σ).Within (handler' v σ)) :
    (a.orCatch handler).Within (b.orCatch handler') := by
  intro r hr
  rcases a with _ | ⟨c, σ⟩
  · cases hr
  · rw [h _ rfl]
    cases c with
    | normal => exact hr
    | ret v => exact hr
    | throw v => exact hhandler v σ r hr

end Ending.Within

/-- A loop that ends within a number of turns ends within one more. -/
theorem whileLoop_within (test : Store → Option (Value × Store)) {body body' : Store → Ending}
    (h : ∀ σ, (body σ).Within (body' σ)) (turns : Nat) (σ : Store) :
    (whileLoop test body turns σ).Within (whileLoop test body' (turns + 1) σ) := by
  induction turns generalizing σ with
  | zero =>
    intro r hr
    cases hr
  | succ turns ih =>
    rw [whileLoop, whileLoop]
    apply Ending.Within.bind
    rintro ⟨v, σ⟩
    dsimp only
    split
    · exact (h σ).andThen ih
    · exact .refl _

/-- Statements that end within a number of turns, in order. -/
theorem execAll?_within {heap : Heap} {turns : Nat} {ns : List Node}
    (h : ∀ n ∈ ns, ∀ σ, (n.exec? heap turns σ).Within (n.exec? heap (turns + 1) σ)) (σ : Store) :
    (execAll? heap turns ns σ).Within (execAll? heap (turns + 1) ns σ) := by
  induction ns generalizing σ with
  | nil => exact .refl _
  | cons n ns ih =>
    rw [execAll?, execAll?]
    refine (h n (by simp) σ).andThen fun σ => ih (fun n hn => ?_) σ
    exact h n (List.mem_cons_of_mem _ hn)

/-- **One more turn** changes no ending. -/
theorem Node.exec?_within (heap : Heap) (turns : Nat) (n : Node) (σ : Store) :
    (n.exec? heap turns σ).Within (n.exec? heap (turns + 1) σ) := by
  induction n using Node.sizeInduction generalizing σ with
  | step n ih =>
    cases n with
    | block i statements =>
      rw [exec?, exec?]
      apply execAll?_within
      intro n hn
      apply ih
      have := List.sizeOf_lt_of_mem hn
      decreasing_tactic
    | cond i condition thenBranch elseBranch =>
      rw [exec?, exec?]
      apply Ending.Within.bind
      rintro ⟨v, σ⟩
      dsimp only
      split
      · exact ih thenBranch (by decreasing_tactic) σ
      · cases elseBranch with
        | none => exact .refl _
        | some elseBranch => exact ih elseBranch (by decreasing_tactic) σ
    | loop i condition body =>
      rw [exec?, exec?]
      exact whileLoop_within _ (ih body (by decreasing_tactic)) turns σ
    | tryCatch i block param handler =>
      rw [exec?, exec?]
      apply (ih block (by decreasing_tactic) σ).orCatch
      intro v σ
      apply Ending.Within.bind
      exact ih handler (by decreasing_tactic)
    | _ => exact .refl _

section

variable {heap : Heap} {src : Source} {callee : Value} {args : List Value} {turns turns' : Nat}
variable {r r' : Except Value Value}

/-- More turns than enough change nothing. -/
theorem Source.evaluate?_mono (hle : turns ≤ turns') (h : src.evaluate? heap turns callee args = some r) :
    src.evaluate? heap turns' callee args = some r := by
  induction hle with
  | refl => exact h
  | step _ ih =>
    obtain ⟨σ, hσ, hbody⟩ := Option.bind_eq_some_iff.mp ih
    obtain ⟨ended, hended, hr⟩ := Option.bind_eq_some_iff.mp hbody
    refine Option.bind_eq_some_iff.mpr ⟨σ, hσ, Option.bind_eq_some_iff.mpr ⟨ended, ?_, hr⟩⟩
    exact execAll?_within (fun n _ => n.exec?_within heap _) σ ended hended

/-- **A result does not depend on the number of turns**, if there are enough for it. -/
theorem Source.evaluate?_unique (h : src.evaluate? heap turns callee args = some r)
    (h' : src.evaluate? heap turns' callee args = some r') : r = r' := by
  obtain hle | hle := Nat.le_total turns turns'
  · exact Option.some.inj ((Source.evaluate?_mono hle h).symm.trans h')
  · exact Option.some.inj (h.symm.trans (Source.evaluate?_mono hle h'))

end

end ScriptEngine
