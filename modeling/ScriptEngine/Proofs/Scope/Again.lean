import ScriptEngine.Compile
import ScriptEngine.Proofs.Scope.Lexical

/-!
# Compiling again

Analysis rewrites the tree it walks: it numbers variables and scopes, notes types, folds arithmetic, and
lowers the bodies of `with` statements. What it leaves is a fixed point. A second walk does to the table
what the first one did, fails where the first one failed, and finds nothing left to rewrite.

* `Analyzer.node_again`: the node that a walk leaves is walked to itself, also where the walk stopped half
  way.
* `compile_again`: so the tree that compilation leaves compiles to the same result.
-/

namespace ScriptEngine

namespace Analyzer

/-- What a walk leaves of a node, in a `with` body or outside of one: it is walked to itself, it binds the same
names, and it can be assigned to if the node could. -/
structure Settles (inWith : Bool) (a a' : Analyzer) (n n' : Node) : Prop where
  /-- It is walked to itself. -/
  again : a.nodeIn inWith n' = (a', n')
  /-- It binds the same names. -/
  hoisted : SameHoisted n n'
  /-- It can be assigned to. -/
  target : isTarget n = true → isTarget n' = true

/-- Wherever a walk leaves a node, the node settles. -/
structure Settled (n : Node) : Prop where
  /-- Every walk does. -/
  settles : ∀ {inWith : Bool} {a a' : Analyzer} {n' : Node}, a.nodeIn inWith n = (a', n') →
    Settles inWith a a' n n'

/-- Nodes that have been walked are walked to themselves, and bind the same names. -/
structure SettledAll (ns : List Node) : Prop where
  /-- Every walk leaves such nodes. -/
  settles : ∀ {inWith : Bool} {a a' : Analyzer} {ns' : List Node}, a.nodesIn inWith ns = (a', ns') →
    a.nodesIn inWith ns' = (a', ns') ∧ ∀ names, hoistedNamesOf names ns' = hoistedNamesOf names ns

/-- The same for properties, which bind no names. -/
structure SettledProperties (ps : List (String × Node)) : Prop where
  /-- Every walk leaves such properties. -/
  settles : ∀ {inWith : Bool} {a a' : Analyzer} {ps' : List (String × Node)},
    a.propertiesIn inWith ps = (a', ps') → a.propertiesIn inWith ps' = (a', ps')

/-- The same for a node that may be missing. -/
structure Settled? (n : Option Node) : Prop where
  /-- Every walk leaves such a node, or none. -/
  settles : ∀ {inWith : Bool} {a a' : Analyzer} {n' : Option Node}, a.nodeIn? inWith n = (a', n') →
    a.nodeIn? inWith n' = (a', n') ∧ ∀ names, hoistedNamesOf? names n' = hoistedNamesOf? names n

section

variable {a a' : Analyzer} {n n' : Node}

/-- A failed analyzer leaves a node as it is; so the walk may be taken to go by the rules. -/
theorem Settled.of_rules (hwalk : ∀ (inWith : Bool) (a a' : Analyzer) (n' : Node), a.NodeWalk inWith n a' n' →
    a.NodeWalk inWith n' a' n' ∧ SameHoisted n n' ∧ (isTarget n = true → isTarget n' = true)) : Settled n := by
  refine ⟨fun {inWith a a' n'} h => ?_⟩
  rcases hf : a.failed with _ | _
  · obtain ⟨hagain, hhoisted, htarget⟩ := hwalk inWith a a' n' (nodeWalk_of_nodeIn hf h)
    exact ⟨hagain.nodeIn hf, hhoisted, htarget⟩
  · rw [nodeIn_of_failed hf] at h
    cases h
    refine ⟨?_, n.hoistedNames_lowerIf inWith, (isTarget_lowerIf inWith n).trans⟩
    rw [nodeIn_of_failed hf, n.lowerIf_lowerIf]

/-- A node that has been finished is finished again. -/
theorem expression_again {type : ValueType} (h : a.expression n type = (a', n')) :
    ∃ i, i.span = n.info.span ∧ n' = n.setInfo i ∧ a.expression (n.setInfo i) type = (a', n') := by
  rw [expression] at h
  split at h
  · next hf =>
    cases h
    have hsame : n.setInfo n.info = n := by cases n <;> rfl
    exact ⟨n.info, rfl, hsame.symm, by rw [hsame, expression, if_pos hf]⟩
  · next hf =>
    cases h
    refine ⟨{ n.info with type }, rfl, rfl, ?_⟩
    rw [expression, if_neg hf]
    cases n <;> rfl

/-- What is declared once is declared again by the name that it left. -/
theorem define_again {x x' : Identifier} {span : Span} (h : a.define x span = (a', x')) :
    a.define x' span = (a', x') ∧ x'.name = x.name := by
  rw [define] at h
  simp only [withTable_eq] at h
  split at h
  · next hfail =>
    cases h
    refine ⟨?_, rfl⟩
    rw [define]
    simp only [hfail, if_true]
  · next hok =>
    cases h
    refine ⟨?_, rfl⟩
    rw [define]
    simp only [hok, Bool.false_eq_true, if_false, withTable_eq]

/-- A number that has been walked: nothing was done to the table, and its type is known. -/
theorem number_again {inWith : Bool} {x : Number} (hok : a'.failed = false) (hx : n'.number? = some x)
    (h : a.nodeIn inWith n' = (a', n')) : a' = a ∧ n'.type = .number := by
  rw [Node.number?.eq_def] at hx
  split at hx
  · next i z =>
    have hw : a.nodeIn inWith (.literal i (.number z)) = _ :=
      (NodeWalk.literal i (.number z)).nodeIn (starts_of_node h hok)
    obtain ⟨hsame, hn⟩ := Prod.mk.inj (h.symm.trans hw)
    exact ⟨hsame, congrArg Node.type hn⟩
  · cases hx

/-- A number is no name that could be used. -/
theorem used_number {x : Number} (hx : n.number? = some x) (u : Usage) : a.used n u = a := by
  rw [Node.number?.eq_def] at hx
  split at hx
  · rfl
  · cases hx

/-- One more parameter is declared. -/
def withParameter (s : ScopeId) (acc : Array Identifier × ScopeTable) (x : Identifier) :
    Array Identifier × ScopeTable :=
  (acc.1.push { x with var := some (acc.2.declareParameter s x.name).1 },
    (acc.2.declareParameter s x.name).2)

/-- Parameters are declared by their names only, so those that come out are declared in the same way. -/
theorem foldl_withParameter (s : ScopeId) (params : List Identifier) (t : ScopeTable) :
    ∃ (out : List Identifier) (t' : ScopeTable),
      (∀ acc, params.foldl (withParameter s) (acc, t) = (acc ++ out.toArray, t')) ∧
      ∀ acc, out.foldl (withParameter s) (acc, t) = (acc ++ out.toArray, t') := by
  induction params generalizing t with
  | nil => exact ⟨[], t, fun acc => by simp, fun acc => by simp⟩
  | cons x rest ih =>
    obtain ⟨out, t', hfirst, hagain⟩ := ih (t.declareParameter s x.name).2
    refine ⟨{ x with var := some (t.declareParameter s x.name).1 } :: out, t', fun acc => ?_, fun acc => ?_⟩
    · rw [List.foldl_cons, withParameter, hfirst]
      simp
    · rw [List.foldl_cons, withParameter, hagain]
      simp

/-- Parameters are declared again by the names that they left. -/
theorem parameters_again {params params' : List Identifier} (h : a.parameters params = (a', params')) :
    a.parameters params' = (a', params') := by
  obtain ⟨out, t', hfirst, hagain⟩ := foldl_withParameter a.scope params a.table
  have hparameters : ∀ ps, a.parameters ps = ({ a with
      table := (ps.foldl (withParameter a.scope) (#[], a.table)).2 },
      (ps.foldl (withParameter a.scope) (#[], a.table)).1.toList) := fun _ => rfl
  rw [hparameters, hfirst] at h
  cases h
  simp [hparameters, hagain]

/-- Functions of the same name. -/
theorem sameHoisted_function {i j : Info} {name name' : Option Identifier} {params params' : List Identifier}
    {body body' : List Node} {isDeclaration : Bool} {s s' : Option ScopeId}
    (h : name'.map Identifier.name = name.map Identifier.name) :
    SameHoisted (.function i name params body isDeclaration s)
      (.function j name' params' body' isDeclaration s') := by
  intro names
  cases isDeclaration with
  | false => rfl
  | true =>
    cases name with
    | none =>
      cases name' with
      | none => rfl
      | some x' => cases h
    | some x =>
      cases name' with
      | none => cases h
      | some x' => exact congrArg names.push (Option.some.inj h)

/-- What happens to the name of a function around it happens again. -/
theorem nameAround_again {isDeclaration : Bool} {name name' : Option Identifier} {span : Span}
    (h : a.nameAround isDeclaration name span = (a', name')) :
    a.nameAround isDeclaration name' span = (a', name') ∧
      name'.map Identifier.name = name.map Identifier.name := by
  rw [nameAround.eq_def] at h
  split at h
  · next x =>
    rcases hd : a.define x span with ⟨a₁, x'⟩
    simp only [hd] at h
    cases h
    obtain ⟨hagain, hname⟩ := define_again hd
    exact ⟨by simp only [nameAround, hagain], congrArg some hname⟩
  · next hother =>
    cases h
    rw [nameAround.eq_def]
    split
    · exact absurd rfl (hother _ rfl)
    · exact ⟨rfl, rfl⟩

/-- So does what happens to it inside. -/
theorem nameWithin_again {isDeclaration : Bool} {name name' : Option Identifier}
    (h : a.nameWithin isDeclaration name = (a', name')) : a.nameWithin isDeclaration name' = (a', name') := by
  rw [nameWithin.eq_def] at h
  split at h
  · next x =>
    rcases ho : a.ownName x with ⟨a₁, x'⟩
    simp only [ho] at h
    cases h
    have hagain : a.ownName x' = (a', x') := by
      rw [ownName] at ho
      simp only [withTable_eq] at ho
      split at ho
      · next hown =>
        cases ho
        simp only [ownName, hown]
      · next hown =>
        obtain ⟨rfl, rfl⟩ := Prod.mk.inj ho
        simp only [ownName, hown, withTable_eq]
    simp only [nameWithin, hagain]
  · next hother =>
    cases h
    rw [nameWithin.eq_def]
    split
    · exact absurd rfl (hother _ rfl)
    · rfl

/-- **The inside of a function** is walked again, whatever the scope was that the first walk gave it. -/
theorem functionWithin_again {inWith : Bool} {i : Info} {name : Option Identifier} {params : List Identifier}
    {body : List Node} {isDeclaration : Bool}
    (h : a.functionWithin inWith i name params body isDeclaration = (a', n')) (hbody : SettledAll body) :
    ∃ j name' params' body' s, j.span = i.span ∧ name'.map Identifier.name = name.map Identifier.name ∧
      n' = .function j name' params' body' isDeclaration s ∧ (isDeclaration = true → name' = name) ∧
      a.functionWithin inWith j name' params' body' isDeclaration = (a', n') := by
  rcases hp : (a.enter (functionName name)).1.parameters params with ⟨a₁, params'⟩
  rcases hw : (a₁.hoist body).nameWithin isDeclaration name with ⟨a₂, name'⟩
  rcases hb : a₂.nodesIn inWith body with ⟨a₃, body'⟩
  rw [functionWithin_eq hp hw hb] at h
  obtain ⟨j, hspan, rfl, hend⟩ := expression_again h
  obtain ⟨hagain, hhoisted⟩ := hbody.settles hb
  obtain ⟨-, -, -, hname⟩ := nameWithin_declared hw
  have hlabel : functionName name' = functionName name := by rw [functionName, functionName, hname]
  have hhoist : a₁.hoist body' = a₁.hoist body := by
    rw [hoist, hoist, hoistedNames, hoistedNames, hhoisted]
  refine ⟨j, name', params', body', _, hspan, hname, rfl, fun hdeclaration => ?_, ?_⟩
  · subst hdeclaration
    cases hw
    rfl
  · rw [← hlabel] at hp hend
    rw [functionWithin_eq (parameters_again hp) (hhoist.symm ▸ nameWithin_again hw) hagain]
    exact hend

/-! ## One node of each kind -/

variable {i : Info}

/-- A literal. -/
theorem Settled.literal (l : Literal) : Settled (.literal i l) := by
  refine .of_rules fun inWith a a' n' hw => ?_
  cases hw
  exact ⟨.literal .., fun _ => rfl, id⟩

/-- A name looked up when the program runs. -/
theorem Settled.dynamic (name : String) : Settled (.dynamic i name) := by
  refine .of_rules fun inWith a a' n' hw => ?_
  cases hw
  exact ⟨.dynamic .., fun _ => rfl, id⟩

/-- The receiver. -/
theorem Settled.this : Settled (.this i) := by
  refine .of_rules fun inWith a a' n' hw => ?_
  cases hw
  exact ⟨.this .., fun _ => rfl, id⟩

/-- **A name** in a node of its own. -/
theorem Settled.identifier (x : Identifier) : Settled (.identifier i x) := by
  refine .of_rules fun inWith a a' n' hw => ?_
  cases hw with
  | lowered _ hwith => exact ⟨.dynamic .., fun _ => rfl, fun _ => rfl⟩
  | identifier hplain h =>
    rw [Analyzer.identifier] at h
    simp only [withTable_eq] at h
    split at h
    · next hfail =>
      cases h
      refine ⟨.identifier hplain ?_, fun _ => rfl, fun _ => rfl⟩
      rw [Analyzer.identifier]
      simp only [hfail, if_true]
    · next hok =>
      cases h
      refine ⟨.identifier hplain ?_, fun _ => rfl, fun _ => rfl⟩
      rw [Analyzer.identifier]
      simp only [hok, Bool.false_eq_true, if_false, withTable_eq]

/-- **A call.** -/
theorem Settled.call {target : Node} {args : List Node} (iht : Settled target) (ihr : SettledAll args) :
    Settled (.call i target args) := by
  refine .of_rules fun inWith a a' n' hw => ?_
  cases hw with
  | call ht hr hend =>
    obtain ⟨j, -, rfl, hend⟩ := expression_again hend
    exact ⟨.call (iht.settles ht).again (ihr.settles hr).1 hend, fun _ => rfl, id⟩

/-- Reading a property. -/
theorem Settled.member {target : Node} (iht : Settled target) (name : String) :
    Settled (.member i target name) := by
  refine .of_rules fun inWith a a' n' hw => ?_
  cases hw with
  | member ht hend =>
    obtain ⟨j, -, rfl, hend⟩ := expression_again hend
    exact ⟨.member (iht.settles ht).again hend, fun _ => rfl, fun _ => rfl⟩

/-- **A binary operation.** -/
theorem Settled.binary {lhs rhs : Node} (ihl : Settled lhs) (ihr : Settled rhs) (op : BinaryOp) :
    Settled (.binary i op lhs rhs) := by
  refine .of_rules fun inWith a a' n' hw => ?_
  cases hw with
  | binary hl hr hok hfold =>
    exact ⟨.binary (ihl.settles hl).again (ihr.settles hr).again hok hfold, fun _ => rfl, id⟩
  | @binaryFolded _ _ _ lhs' _ rhs' a₁ a₂ z hl hr hok hfold =>
    -- Both operands are numbers, so the walk has noted nothing and the type is known.
    obtain ⟨x, y, hx, hy, hop⟩ := foldBinary?_eq_some hfold
    obtain ⟨rfl, hyt⟩ := number_again hok hy (ihr.settles hr).again
    obtain ⟨rfl, hxt⟩ := number_again hok hx (ihl.settles hl).again
    have htype : binaryType op lhs'.type rhs'.type = .number := by
      rw [hxt, hyt]
      cases op <;> first | rfl | cases hop
    rw [noteOperands, used_number hx, used_number hy, ite_self, htype]
    exact ⟨.literal .., fun _ => rfl, fun htarget => by cases htarget⟩
  | binaryFailed hl hr hf =>
    exact ⟨.binaryFailed (ihl.settles hl).again (ihr.settles hr).again hf, fun _ => rfl, id⟩

/-- **A unary operation.** -/
theorem Settled.unary {operand : Node} (iho : Settled operand) (op : UnaryOp) :
    Settled (.unary i op operand) := by
  refine .of_rules fun inWith a a' n' hw => ?_
  cases hw with
  | unary ho hok hfold => exact ⟨.unary (iho.settles ho).again hok hfold, fun _ => rfl, id⟩
  | unaryFolded ho hok hfold =>
    obtain ⟨x, hx, hop⟩ := Option.bind_eq_some_iff.mp hfold
    obtain ⟨rfl, -⟩ := number_again hok hx (iho.settles ho).again
    have htype : unaryType op = .number := by
      cases op <;> first | rfl | cases hop
    rw [noteOperand, used_number hx, ite_self, htype]
    exact ⟨.literal .., fun _ => rfl, fun htarget => by cases htarget⟩
  | unaryFailed ho hf => exact ⟨.unaryFailed (iho.settles ho).again hf, fun _ => rfl, id⟩

/-- **An assignment**: what could be assigned to still can. -/
theorem Settled.assign {target value : Node} (iht : Settled target) (ihv : Settled value) :
    Settled (.assign i target value) := by
  refine .of_rules fun inWith a a' n' hw => ?_
  cases hw with
  | assign htarget ht hv hend =>
    obtain ⟨j, -, rfl, hend⟩ := expression_again hend
    have hsettles := iht.settles ht
    exact ⟨.assign (hsettles.target htarget) hsettles.again (ihv.settles hv).again hend, fun _ => rfl, id⟩
  | assignFailed htarget =>
    have hagain : a.NodeWalk inWith (.assign i (target.lowerIf inWith) (value.lowerIf inWith)) _ _ :=
      .assignFailed ((isTarget_lowerIf inWith target).trans htarget)
    rw [target.span_lowerIf, target.lowerIf_lowerIf, value.lowerIf_lowerIf] at hagain
    exact ⟨hagain, fun _ => rfl, id⟩

/-- An object literal. -/
theorem Settled.object {ps : List (String × Node)} (ihp : SettledProperties ps) : Settled (.object i ps) := by
  refine .of_rules fun inWith a a' n' hw => ?_
  cases hw with
  | object hp hend =>
    obtain ⟨j, -, rfl, hend⟩ := expression_again hend
    exact ⟨.object (ihp.settles hp) hend, fun _ => rfl, id⟩

/-- A deletion. -/
theorem Settled.delete {target : Node} (iht : Settled target) : Settled (.delete i target) := by
  refine .of_rules fun inWith a a' n' hw => ?_
  cases hw with
  | delete ht hend =>
    obtain ⟨j, -, rfl, hend⟩ := expression_again hend
    exact ⟨.delete (iht.settles ht).again hend, fun _ => rfl, id⟩

/-- **A function**: its name is bound around it or within, and the scope that it had is not looked at. -/
theorem Settled.function {body : List Node} (ihb : SettledAll body) (name : Option Identifier)
    (params : List Identifier) (isDeclaration : Bool) (scope : Option ScopeId) :
    Settled (.function i name params body isDeclaration scope) := by
  refine .of_rules fun inWith a a' n' hw => ?_
  cases hw with
  | function hn hok hwithin =>
    obtain ⟨haround, hname⟩ := nameAround_again hn
    obtain ⟨j, name', params', body', s, hspan, hname', rfl, hsame, hagain⟩ :=
      functionWithin_again hwithin ihb
    refine ⟨.function ?_ hok hagain, sameHoisted_function (hname'.trans hname), id⟩
    cases isDeclaration with
    | true => rw [hsame rfl, hspan, haround]
    | false =>
      rw [nameAround_false] at hn ⊢
      rw [(Prod.mk.inj hn).1]
  | functionFailed hn hf =>
    obtain ⟨haround, hname⟩ := nameAround_again hn
    have hagain : a.NodeWalk inWith
        (.function i _ params (lowerAllIf inWith body) isDeclaration scope) _ _ := .functionFailed haround hf
    rw [lowerAllIf_lowerAllIf] at hagain
    exact ⟨hagain, sameHoisted_function hname, id⟩

/-- **A variable statement.** -/
theorem Settled.var {init : Option Node} (ihi : Settled? init) (binding : Identifier) :
    Settled (.var i binding init) := by
  refine .of_rules fun inWith a a' n' hw => ?_
  cases hw with
  | var hb hi hend =>
    obtain ⟨j, hspan, rfl, hend⟩ := expression_again hend
    obtain ⟨hagain, hname⟩ := define_again hb
    exact ⟨.var (hspan.symm ▸ hagain) (ihi.settles hi).1 hend, fun names => congrArg names.push hname, id⟩

/-- Returning. -/
theorem Settled.ret {value : Option Node} (ihv : Settled? value) : Settled (.ret i value) := by
  refine .of_rules fun inWith a a' n' hw => ?_
  cases hw with
  | ret hv hend =>
    obtain ⟨j, -, rfl, hend⟩ := expression_again hend
    exact ⟨.ret (ihv.settles hv).1 hend, fun _ => rfl, id⟩

/-- **A conditional** binds the names of both branches. -/
theorem Settled.cond {condition thenBranch : Node} {elseBranch : Option Node} (ihc : Settled condition)
    (iht : Settled thenBranch) (ihe : Settled? elseBranch) :
    Settled (.cond i condition thenBranch elseBranch) := by
  refine .of_rules fun inWith a a' n' hw => ?_
  cases hw with
  | cond hc ht he hend =>
    obtain ⟨j, -, rfl, hend⟩ := expression_again hend
    have hthen := iht.settles ht
    obtain ⟨helse, hhoisted⟩ := ihe.settles he
    refine ⟨.cond (ihc.settles hc).again hthen.again helse hend, fun names => ?_, id⟩
    rw [Node.setInfo, Node.hoistedNames, Node.hoistedNames, hthen.hoisted, hhoisted]

/-- A loop. -/
theorem Settled.loop {condition body : Node} (ihc : Settled condition) (ihb : Settled body) :
    Settled (.loop i condition body) := by
  refine .of_rules fun inWith a a' n' hw => ?_
  cases hw with
  | loop hc hb hend =>
    obtain ⟨j, -, rfl, hend⟩ := expression_again hend
    have hbody := ihb.settles hb
    exact ⟨.loop (ihc.settles hc).again hbody.again hend, hbody.hoisted, id⟩

/-- A block. -/
theorem Settled.block {statements : List Node} (ihs : SettledAll statements) :
    Settled (.block i statements) := by
  refine .of_rules fun inWith a a' n' hw => ?_
  cases hw with
  | block hs hend =>
    obtain ⟨j, -, rfl, hend⟩ := expression_again hend
    obtain ⟨hagain, hhoisted⟩ := ihs.settles hs
    exact ⟨.block hagain hend, hhoisted, id⟩

/-- **A `with` statement**: what is left of its body is walked to itself as what stands in a `with` body. -/
theorem Settled.withObject {object body : Node} (iho : Settled object) (ihb : Settled body) :
    Settled (.withObject i object body) := by
  refine .of_rules fun inWith a a' n' hw => ?_
  cases hw with
  | withObject ho hok hb hend =>
    obtain ⟨j, -, rfl, hend⟩ := expression_again hend
    exact ⟨.withObject (iho.settles ho).again hok (ihb.settles hb).again hend, fun _ => rfl, id⟩
  | @withObjectFailed _ _ object' body _ ho hf =>
    have hagain : a.NodeWalk inWith (.withObject i object' (body.lowerIf inWith)) _ _ :=
      .withObjectFailed (iho.settles ho).again hf
    rw [body.lowerIf_lowerIf] at hagain
    exact ⟨hagain, fun _ => rfl, id⟩

/-- Throwing. -/
theorem Settled.throw {value : Node} (ihv : Settled value) : Settled (.throw i value) := by
  refine .of_rules fun inWith a a' n' hw => ?_
  cases hw with
  | throw hv hend =>
    obtain ⟨j, -, rfl, hend⟩ := expression_again hend
    exact ⟨.throw (ihv.settles hv).again hend, fun _ => rfl, id⟩

/-- A handler without a name. -/
theorem Settled.tryCatch_none {block handler : Node} (ihb : Settled block) (ihh : Settled handler) :
    Settled (.tryCatch i block none handler) := by
  refine .of_rules fun inWith a a' n' hw => ?_
  cases hw with
  | tryCatch hb hh hend =>
    obtain ⟨j, -, rfl, hend⟩ := expression_again hend
    have hblock := ihb.settles hb
    have hhandler := ihh.settles hh
    refine ⟨.tryCatch hblock.again hhandler.again hend, fun names => ?_, id⟩
    rw [Node.setInfo, Node.hoistedNames, Node.hoistedNames, hblock.hoisted, hhandler.hoisted]

/-- **A handler with a name**, which is bound while the handler is walked. -/
theorem Settled.tryCatch_some {block handler : Node} (ihb : Settled block) (ihh : Settled handler)
    (x : Identifier) : Settled (.tryCatch i block (some x) handler) := by
  refine .of_rules fun inWith a a' n' hw => ?_
  cases hw with
  | handler hb hok hzero hh hend =>
    obtain ⟨j, -, rfl, hend⟩ := expression_again hend
    have hblock := ihb.settles hb
    have hhandler := ihh.settles hh
    refine ⟨.handler hblock.again hok hzero hhandler.again hend, fun names => ?_, id⟩
    rw [Node.setInfo, Node.hoistedNames, Node.hoistedNames, hblock.hoisted, hhandler.hoisted]
  | handlerFailed hb hc hf =>
    have hblock := ihb.settles hb
    have hagain : a.NodeWalk inWith (.tryCatch i _ (some x) (handler.lowerIf inWith)) _ _ :=
      .handlerFailed hblock.again hc hf
    rw [handler.lowerIf_lowerIf] at hagain
    refine ⟨hagain, fun names => ?_, id⟩
    rw [Node.hoistedNames, Node.hoistedNames, hblock.hoisted, handler.hoistedNames_lowerIf]

/-- No nodes. -/
theorem SettledAll.nil : SettledAll [] := by
  refine ⟨fun {inWith a a' ns'} h => ?_⟩
  have hnil := h
  rw [nodesIn_nil] at hnil
  cases hnil
  exact ⟨h, fun _ => rfl⟩

/-- One node more. -/
theorem SettledAll.cons {n : Node} {rest : List Node} (ihn : Settled n) (ihr : SettledAll rest) :
    SettledAll (n :: rest) := by
  refine ⟨fun {inWith a a' ns'} h => ?_⟩
  rw [nodesIn_cons] at h
  rcases hn : a.nodeIn inWith n with ⟨a₁, n'⟩
  rcases hr : a₁.nodesIn inWith rest with ⟨a₂, rest'⟩
  simp only [hn, hr] at h
  cases h
  have hfirst := ihn.settles hn
  obtain ⟨hagain, hhoisted⟩ := ihr.settles hr
  refine ⟨?_, fun names => ?_⟩
  · simp only [nodesIn_cons, hfirst.again, hagain]
  · rw [hoistedNamesOf, hoistedNamesOf, hfirst.hoisted, hhoisted]

/-- A node that is missing. -/
theorem Settled?.none : Settled? none := by
  refine ⟨fun {inWith a a' n'} h => ?_⟩
  have hnone := h
  rw [nodeIn?_none] at hnone
  cases hnone
  exact ⟨h, fun _ => rfl⟩

/-- A node that is there. -/
theorem Settled?.some {n : Node} (ihn : Settled n) : Settled? (some n) := by
  refine ⟨fun {inWith a a' n'} h => ?_⟩
  rw [nodeIn?_some] at h
  rcases hn : a.nodeIn inWith n with ⟨a₁, n₁⟩
  simp only [hn] at h
  cases h
  have hsettles := ihn.settles hn
  exact ⟨by rw [nodeIn?_some, hsettles.again], hsettles.hoisted⟩

/-- No properties. -/
theorem SettledProperties.nil : SettledProperties [] := by
  refine ⟨fun {inWith a a' ps'} h => ?_⟩
  have hnil := h
  rw [propertiesIn_nil] at hnil
  cases hnil
  exact h

/-- One property more. -/
theorem SettledProperties.cons {value : Node} {rest : List (String × Node)} (ihn : Settled value)
    (ihr : SettledProperties rest) (name : String) : SettledProperties ((name, value) :: rest) := by
  refine ⟨fun {inWith a a' ps'} h => ?_⟩
  rw [propertiesIn_cons] at h
  rcases hn : a.nodeIn inWith value with ⟨a₁, value'⟩
  rcases hr : a₁.propertiesIn inWith rest with ⟨a₂, rest'⟩
  simp only [hn, hr] at h
  cases h
  simp only [propertiesIn_cons, (ihn.settles hn).again, ihr.settles hr]

end

/-! ## Whole trees -/

mutual

/-- **A node that has been walked is walked to itself.** -/
theorem node_again : ∀ n : Node, Settled n
  | .literal _ l => .literal l
  | .identifier _ x => .identifier x
  | .dynamic _ name => .dynamic name
  | .this _ => .this
  | .call _ target args => .call (node_again target) (nodes_again args)
  | .member _ target name => .member (node_again target) name
  | .binary _ op lhs rhs => .binary (node_again lhs) (node_again rhs) op
  | .unary _ op operand => .unary (node_again operand) op
  | .assign _ target value => .assign (node_again target) (node_again value)
  | .function _ name params body isDeclaration scope =>
    .function (nodes_again body) name params isDeclaration scope
  | .object _ ps => .object (properties_again ps)
  | .delete _ target => .delete (node_again target)
  | .var _ binding init => .var (node?_again init) binding
  | .ret _ value => .ret (node?_again value)
  | .cond _ condition thenBranch elseBranch =>
    .cond (node_again condition) (node_again thenBranch) (node?_again elseBranch)
  | .loop _ condition body => .loop (node_again condition) (node_again body)
  | .block _ statements => .block (nodes_again statements)
  | .withObject _ object body => .withObject (node_again object) (node_again body)
  | .throw _ value => .throw (node_again value)
  | .tryCatch _ block none handler => .tryCatch_none (node_again block) (node_again handler)
  | .tryCatch _ block (some x) handler => .tryCatch_some (node_again block) (node_again handler) x

/-- **Nodes that have been walked** are walked to themselves. -/
theorem nodes_again : ∀ ns : List Node, SettledAll ns
  | [] => .nil
  | n :: rest => .cons (node_again n) (nodes_again rest)

/-- **A node that may be missing** and has been walked. -/
theorem node?_again : ∀ n : Option Node, Settled? n
  | none => .none
  | some n => .some (node_again n)

/-- **Properties that have been walked** are walked to themselves. -/
theorem properties_again : ∀ ps : List (String × Node), SettledProperties ps
  | [] => .nil
  | (name, value) :: rest => .cons (node_again value) (properties_again rest) name

end

/-- **A program that has been walked** is walked to itself. -/
theorem program_again {a a' : Analyzer} {p p' : Program} (h : a.program p = (a', p')) :
    a.program p' = (a', p') := by
  rw [program] at h
  rcases hb : ({ a with scope := .global }.hoist p.body).nodes #[] p.body with ⟨a₁, body'⟩
  simp only [hb] at h
  cases h
  obtain ⟨hagain, hhoisted⟩ := (nodes_again p.body).settles ((nodesIn_false ..).trans hb)
  have hagain : nodes _ #[] body' = _ := hagain
  have hhoist : ({ a with scope := .global } : Analyzer).hoist body' =
      ({ a with scope := .global } : Analyzer).hoist p.body := by
    rw [hoist, hoist, hoistedNames, hoistedNames, hhoisted]
  rw [program]
  simp only [hhoist, hagain, Bool.or_assoc, Bool.or_self]

end Analyzer

/-- **Compiling again** what compilation has left of a program, whether it succeeded or failed half way, gives
the same result: the same error, or the same code and the same finished scope table. The tree is left as it
is. -/
theorem compile_again (p : Program) : compile (compile p).2 = compile p := by
  rcases hp : Analyzer.program {} p with ⟨a, p'⟩
  have hagain := Analyzer.program_again hp
  have htree : (compile p).2 = p' := by
    simp only [compile, hp]
    split
    · rfl
    · rfl
  rw [htree]
  simp only [compile, hp, hagain]

end ScriptEngine
