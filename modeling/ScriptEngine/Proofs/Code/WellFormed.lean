import ScriptEngine.Proofs.Code.Orderly

/-!
# Compiled units are well-formed

Every generating computation is orderly, one case for each kind of node. An inner function is generated
from nothing while the code around it is set aside; then it joins the unit and is owed the instruction
that makes it. The frame slots that code names are within the frame, because every name of an analyzed
program stands for a variable that its place can reach.

`CodeUnit.WellFormed` is what follows for a unit, and `compile_wellFormed` says it of every program that
is compiled.
-/

namespace ScriptEngine

open Generation

section

variable {locals : Nat} {terms : CodeTerms} {base : Nat} {waiting : List Nat} {s s' : GenState}
  {c : GenContext} {x : Identifier}

/-! ## Names -/

/-- A function with as many frame slots has room for the variables of its scope, and for the value of
the program. -/
structure GenContext.Fits (c : GenContext) (locals : Nat) : Prop where
  /-- Every variable has a slot of its own. -/
  placed : c.table.Placed
  /-- The variables of the scope. -/
  frame : (c.table.layout c.scope).localCount ≤ locals
  /-- The value of the program. -/
  completion : ∀ slot ∈ c.completion, slot < locals

/-- A name that stands for a frame slot stands for one of its own function. -/
theorem Identifier.Resolves.frame_lt {isLowered : Bool} (hx : x.Resolves c.table c.scope isLowered)
    (hc : c.Fits locals) :
    ∃ v, x.var = some v ∧ ∀ slot, c.table.slotOf v = .frame slot → slot < locals := by
  obtain ⟨v, V, hv, hV, -, hreach⟩ := hx
  have hvar : c.table.var v = V := by simp [ScopeTable.var, hV]
  refine ⟨v, hv, fun slot hslot => ?_⟩
  rw [ScopeTable.slotOf, hvar] at hslot
  rcases hstorage : V.storage with _ | _ | _
  · have hscope : V.scope = c.scope := by
      rcases hreach with h | h | ⟨-, h⟩
      · exact h
      · rw [hstorage] at h
        cases h
      · rw [hstorage] at h
        cases h
    rw [hstorage] at hslot
    obtain rfl := VarSlot.frame.inj hslot
    have hlt := hc.placed.frame v.index V hV hstorage
    rw [hscope] at hlt
    exact Nat.lt_of_lt_of_le hlt hc.frame
  · rw [hstorage] at hslot
    cases hslot
  · rw [hstorage] at hslot
    cases hslot

namespace Orderly

/-- A variable is looked up. -/
theorem varOf (x : Identifier) (span : Span) : Orderly locals terms (varOf x span) := by
  rw [Generation.varOf]
  split
  · exact .pure _
  · exact .throw _

/-- The links to an environment are counted. -/
theorem depthOf (c : GenContext) (v : VarId) (x : Identifier) (span : Span) :
    Orderly locals terms (depthOf c v x span) := by
  rw [Generation.depthOf]
  split
  · exact .pure _
  · exact .throw _

/-- A frame slot is read. -/
theorem loadLocal {slot : Nat} (hslot : terms.slots → slot < locals) :
    Orderly locals terms (emit (Emitter.loadLocal slot)) :=
  .opIndex (by decide) rfl rfl fun _ _ _ _ _ => hslot

/-- A frame slot is written. -/
theorem storeLocal {slot : Nat} (hslot : terms.slots → slot < locals) :
    Orderly locals terms (emit (Emitter.storeLocal slot)) :=
  .opIndex (by decide) rfl rfl fun _ _ _ _ _ => hslot

/-- **A name is read.** -/
theorem load (hc : terms.slots → c.Fits locals) {isLowered : Bool}
    (hx : terms.slots → x.Resolves c.table c.scope isLowered) (span : Span) :
    Orderly locals terms (load c x span) := by
  rw [Generation.load, Generation.varOf]
  rcases hv : x.var with _ | v
  · exact .throw_bind _ _
  have hlt : terms.slots → ∀ slot, c.table.slotOf v = .frame slot → slot < locals := by
    intro hslots slot hslot
    obtain ⟨v', hv', hlt⟩ := (hx hslots).frame_lt (hc hslots)
    obtain rfl := Option.some.inj (hv.symm.trans hv')
    exact hlt slot hslot
  simp only [pure_bind]
  split
  · next slot hslot => exact .loadLocal fun hslots => hlt hslots slot hslot
  · exact .bind (.depthOf _ _ _ _) fun _ => .env (o := .getEnv) (by decide) rfl (fun _ _ _ _ => trivial) _ _
  · exact .opName (by decide) rfl (fun _ _ _ _ => id) _

/-- **A name is written.** -/
theorem store (hc : terms.slots → c.Fits locals) {isLowered : Bool}
    (hx : terms.slots → x.Resolves c.table c.scope isLowered) (span : Span) :
    Orderly locals terms (store c x span) := by
  rw [Generation.store, Generation.varOf]
  rcases hv : x.var with _ | v
  · exact .throw_bind _ _
  have hlt : terms.slots → ∀ slot, c.table.slotOf v = .frame slot → slot < locals := by
    intro hslots slot hslot
    obtain ⟨v', hv', hlt⟩ := (hx hslots).frame_lt (hc hslots)
    obtain rfl := Option.some.inj (hv.symm.trans hv')
    exact hlt slot hslot
  simp only [pure_bind]
  split
  · next slot hslot => exact .storeLocal fun hslots => hlt hslots slot hslot
  · exact .bind (.depthOf _ _ _ _) fun _ => .env (o := .setEnv) (by decide) rfl (fun _ _ _ _ => trivial) _ _
  · exact .opName (by decide) rfl (fun _ _ _ _ => id) _

/-- A name is removed. -/
theorem erase (c : GenContext) (x : Identifier) (span : Span) : Orderly locals terms (erase c x span) := by
  refine .bind (.varOf x span) fun v => ?_
  split
  · exact .opName (by decide) rfl (fun _ _ _ _ => id) _
  · exact .op rfl

/-! ## Leaves and operations -/

/-- A literal. -/
theorem literal (l : Literal) : Orderly locals terms (literal l) := by
  cases l with
  | undefined => exact .op rfl
  | null => exact .op rfl
  | bool b =>
    cases b with
    | false => exact .op rfl
    | true => exact .op rfl
  | number n => exact .constant _
  | string t => exact .constant _

/-- A unary operator. -/
theorem unaryOp (op : UnaryOp) : Orderly locals terms (unaryOp op) := by
  cases op with
  | void => exact .bind (.op rfl) fun _ => .op rfl
  | _ => exact .op rfl

/-- The end of an expression. -/
theorem settle (hc : terms.slots → c.Fits locals) (pos : Position) : Orderly locals terms (settle c pos) := by
  cases pos with
  | value => exact .pure ()
  | effect =>
    rw [Generation.settle]
    rcases hcompletion : c.completion with _ | slot
    · exact .op rfl
    · exact .bind (.storeLocal fun hslots => (hc hslots).completion slot hcompletion) fun _ => .op rfl

/-- A statement has no value to give. -/
theorem expectEffect (n : Node) (pos : Position) : Orderly locals terms (expectEffect n pos) := by
  cases pos with
  | value => exact .throw _
  | effect => exact .pure ()

variable {f g h : Gen Unit}

/-- A binary operation. -/
theorem binary (op : BinaryOp) (hf : Orderly locals terms f) (hg : Orderly locals terms g) :
    Orderly locals terms (binary op f g) := by
  rw [Generation.binary]
  split
  · next opcode hop =>
    refine .bind hf fun _ => .bind hg fun _ => .op ?_
    cases op <;> cases hop <;> rfl
  · refine .bind hf fun _ => .skip ?_ hg
    cases op <;> rfl

/-- A call. -/
theorem callNode (c : GenContext) (span : Span) (form : Node) (argc : Nat)
    (htarget : Orderly locals terms f) (hargs : Orderly locals terms g)
    (hreceiver : ∀ i n name, form = .member i n name → Orderly locals terms h) :
    Orderly locals terms (Generation.call c span form f argc g h) := by
  have hany : Orderly locals terms (f >>= fun _ => g >>= fun _ => emit (Emitter.setSpan span) >>= fun _ =>
      emit (Emitter.call argc)) :=
    .bind htarget fun _ => .bind hargs fun _ => .bind (.setSpan span) fun _ => .call argc
  cases form with
  | member i n name =>
    refine .bind (hreceiver i n name rfl) fun _ => .bind hargs fun _ => ?_
    exact .opSite (by decide) rfl (fun _ _ _ _ => id) _ _ _
  | dynamic i name => exact .bind hargs fun _ => .bind (.setSpan span) fun _ => .callName name argc
  | identifier i x =>
    simp only [Generation.call]
    split
    · refine .bind (.opName (by decide) rfl (fun _ _ _ _ => id) _) fun _ => .bind hargs fun _ => ?_
      exact .opSite (by decide) rfl (fun _ _ _ _ => id) _ _ _
    · exact hany
  | _ => exact hany

/-- An assignment. -/
theorem assign (hc : terms.slots → c.Fits locals) {isLowered : Bool} (span : Span) (form : Node)
    (hname : ∀ i x, form = .identifier i x → terms.slots → x.Resolves c.table c.scope isLowered)
    (hvalue : Orderly locals terms f)
    (hobject : ∀ i n name, form = .member i n name → Orderly locals terms g) :
    Orderly locals terms (assign c span form f g) := by
  cases form with
  | identifier i x => exact .bind hvalue fun _ => .store hc (hname i x rfl) span
  | dynamic i name => exact .bind hvalue fun _ => .opName (by decide) rfl (fun _ _ _ _ => id) _
  | member i n name =>
    refine .bind (hobject i n name rfl) fun _ => .bind hvalue fun _ => ?_
    exact .opSite (by decide) rfl (fun _ _ _ _ => id) _ _ _
  | _ => exact .throw _

/-- A removal. -/
theorem delete (c : GenContext) (form : Node) (htarget : Orderly locals terms f)
    (hobject : ∀ i n name, form = .member i n name → Orderly locals terms g) :
    Orderly locals terms (delete c form f g) := by
  cases form with
  | member i n name =>
    exact .bind (hobject i n name rfl) fun _ => .opName (by decide) rfl (fun _ _ _ _ => id) _
  | identifier i x => exact .erase c x i.span
  | dynamic i name => exact .opName (by decide) rfl (fun _ _ _ _ => id) _
  | _ => exact .bind htarget fun _ => .bind (.op rfl) fun _ => .op rfl

/-- The start of a handler. -/
theorem bindCaught (hc : terms.slots → c.Fits locals) {param : Option Identifier}
    (hparam : terms.slots → ∀ x ∈ param, x.Own c.table c.scope) (span : Span) :
    Orderly locals terms (bindCaught c param span) := by
  cases param with
  | none => exact .op rfl
  | some x => exact .bind (.store hc (fun hslots => (hparam hslots x rfl).resolves false) span) fun _ => .op rfl

/-- The own name of a function expression. -/
theorem bindOwnName (hc : terms.slots → c.Fits locals) {name : Option Identifier} {isDeclaration : Bool}
    (hname : terms.slots → isDeclaration = false → ∀ x ∈ name, x.var = none ∨ x.Own c.table c.scope)
    (span : Span) : Orderly locals terms (bindOwnName c name isDeclaration span) := by
  cases isDeclaration with
  | true => exact .pure ()
  | false =>
    cases name with
    | none => exact .pure ()
    | some x =>
      rw [Generation.bindOwnName]
      split
      · next hsome =>
        have hresolves : terms.slots → x.Resolves c.table c.scope false := by
          intro hslots
          rcases hname hslots rfl x rfl with hnone | hown
          · rw [hnone] at hsome
            cases hsome
          · exact hown.resolves false
        exact .bind (.op rfl) fun _ => .bind (.store hc hresolves span) fun _ => .op rfl
      · exact .pure ()

end Orderly

/-! ## Functions -/

/-- The context of an inner function. -/
def GenContext.inner (c : GenContext) (scope : ScopeId) : GenContext := ⟨c.table, scope, none⟩

/-- A function has room for its own variables. -/
theorem GenContext.Fits.inner (hc : c.Fits locals) (scope : ScopeId) :
    (c.inner scope).Fits (c.table.layout scope).localCount :=
  ⟨hc.placed, Nat.le_refl _, fun _ h => by cases h⟩

/-- A function is finished: the positions since an earlier one are those that were there, those that were
added and its own. -/
theorem perm_finish {base n m : Nat} (hbn : base ≤ n) (hnm : n ≤ m) {a b d e : List Nat}
    (houter : (a ++ b).Perm (List.range' base (n - base)))
    (hinner : (d ++ e).Perm (List.range' n (m - n))) :
    (a ++ [m] ++ (b ++ e ++ d)).Perm (List.range' base (m + 1 - base)) := by
  have hrange : List.range' base (m + 1 - base) =
      List.range' base (n - base) ++ List.range' n (m - n) ++ [m] := by
    rw [show m + 1 - base = (n - base) + ((m - n) + 1) by omega, ← List.range'_append_1,
      ← List.range'_append_1, show base + (n - base) = n by omega, show n + (m - n) = m by omega,
      List.append_assoc]
    rfl
  rw [hrange]
  calc (a ++ [m] ++ (b ++ e ++ d)).Perm (a ++ (b ++ e ++ d) ++ [m]) := by
        rw [List.append_assoc a [m], List.append_assoc a _ [m]]
        exact List.perm_append_comm.append_left a
    _ = a ++ b ++ (e ++ d) ++ [m] := by simp only [List.append_assoc]
    _ |>.Perm (List.range' base (n - base) ++ List.range' n (m - n) ++ [m]) :=
        (houter.append (List.perm_append_comm.trans hinner)).append_right [m]

/-- **An inner function is begun**: its code starts from nothing, and so does the count of what it makes. The
code around it is set aside. -/
theorem GenState.Tidy.begin {n : Nat} (hs : s.Tidy locals terms base waiting []) {span : Span}
    {aside : Chunk × Span × Array CallSite} (h : beginFunction span s = .ok aside s') :
    s'.Tidy n terms s.functions.size [] [] ∧ aside = (s.chunk, s.emitter.span, s.sites) ∧
      s'.pool = s.pool ∧ s'.functions = s.functions := by
  obtain ⟨⟨chunk, pool, outer⟩, sites, functions⟩ := s
  injection h with haside hs'
  subst haside hs'
  refine ⟨⟨hs.sound, .empty _, hs.finished, Nat.le_refl _, ?_⟩, rfl, rfl, rfl⟩
  have hdrop : functions.toList.drop functions.size = [] := by simp
  simp [GenState.chunk, hdrop]

/-- **An inner function is ended**: it joins the unit, it is owed the instruction that makes it, and the code
around it goes on. -/
theorem GenState.Tidy.finish {inner : GenState} {layout : FunctionLayout}
    (hs : s.Tidy locals terms base waiting [])
    (hinner : inner.Tidy layout.localCount terms s.functions.size [] [])
    (hpool : Grows s.pool.constants inner.pool.constants)
    (hfunctions : s.functions.toList <+: inner.functions.toList) {name : String} {slots : List VarSlot}
    {span : Span} {index : Nat}
    (h : endFunction (s.chunk, s.emitter.span, s.sites) name slots layout span inner = .ok index s') :
    s'.Tidy locals terms base waiting [index] ∧ s.Leads s' ∧ index < s'.functions.size := by
  obtain ⟨⟨chunk, pool, outer⟩, sites, functions⟩ := s
  obtain ⟨⟨chunk₁, pool₁, span₁⟩, sites₁, functions₁⟩ := inner
  injection h with hindex hs'
  subst hindex hs'
  have hbase : base ≤ functions.size := hs.base_le
  have hfunctions : functions.toList <+: functions₁.toList := hfunctions
  have hle : functions.size ≤ functions₁.size := by simpa using hfunctions.length_le
  refine ⟨⟨hinner.sound, ?_, fun j F hF => ?_, ?_, ?_⟩, ⟨fun _ => id, hpool, ?_⟩, ?_⟩
  · refine hs.chunk.mono ⟨hpool, Nat.le_refl _, Grows.refl _, ?_, rfl⟩
    show functions.size ≤ (functions₁.push _).size
    rw [Array.size_push]
    omega
  · rw [Array.getElem?_push] at hF
    split at hF
    · next hj =>
      obtain rfl := Option.some.inj hF
      rw [hj]
      exact hinner.chunk
    · exact hinner.finished j F hF
  · show base ≤ (functions₁.push _).size
    rw [Array.size_push]
    omega
  · -- What was finished since is what was there, what was added, and the function itself.
    obtain ⟨added, hadded⟩ := hfunctions
    have houter := hs.made
    have hmade := hinner.made
    have hdrop : functions₁.toList.drop functions.size = added := by simp [← hadded]
    have hdrop' : functions₁.toList.drop base = functions.toList.drop base ++ added := by
      rw [← hadded, List.drop_append_of_le_length (by simpa using hbase)]
    have hpush : base ≤ functions₁.toList.length := by simpa using Nat.le_trans hbase hle
    simp only [GenState.chunk, List.append_nil, hdrop] at houter hmade ⊢
    rw [Array.toList_push, Array.size_push, List.drop_append_of_le_length hpush, hdrop',
      List.flatMap_append, List.flatMap_append, List.flatMap_singleton]
    exact perm_finish hbase hle houter hmade
  · rw [Array.toList_push]
    exact hfunctions.trans (List.prefix_append _ _)
  · show functions₁.size < (functions₁.push _).size
    rw [Array.size_push]
    exact Nat.lt_succ_self _

/-- **An inner function is generated** between the two: it is in order, and the code around it has not
changed. -/
theorem GenState.Tidy.function (hs : s.Tidy locals terms base waiting []) {name : Option Identifier}
    {params : List Identifier} {isDeclaration : Bool} {scope : ScopeId} {span : Span}
    {declare code : GenContext → Gen Unit}
    (hown : Orderly (c.table.layout scope).localCount terms
      (bindOwnName (c.inner scope) name isDeclaration span))
    (hdeclare : Orderly (c.table.layout scope).localCount terms (declare (c.inner scope)))
    (hcode : Orderly (c.table.layout scope).localCount terms (code (c.inner scope))) {index : Nat}
    (h : Generation.function c name params isDeclaration (some scope) span declare code s = .ok index s') :
    s'.Tidy locals terms base waiting [index] ∧ s.Leads s' ∧ index < s'.functions.size := by
  obtain ⟨slots, s₀, h₀, hbegin⟩ := Gen.bind_eq_ok.mp h
  obtain ⟨rfl, vars, -, -⟩ := paramSlots_eq_ok h₀
  obtain ⟨aside, s₁, h₁, hbind⟩ := Gen.bind_eq_ok.mp hbegin
  obtain ⟨_, s₂, h₂, hfunctions⟩ := Gen.bind_eq_ok.mp hbind
  obtain ⟨_, s₃, h₃, hbody⟩ := Gen.bind_eq_ok.mp hfunctions
  obtain ⟨_, s₄, h₄, hend⟩ := Gen.bind_eq_ok.mp hbody
  obtain ⟨_, s₅, h₅, h₆⟩ := Gen.bind_eq_ok.mp hend
  obtain ⟨htidy₁, rfl, hpool, hmade⟩ := hs.begin h₁
  have horderly : Orderly (c.table.layout scope).localCount terms (emit (Emitter.op .retUndefined)) :=
    .op rfl
  obtain ⟨htidy₂, hleads₂⟩ := hown _ _ s₁ _ s₂ htidy₁ h₂
  obtain ⟨htidy₃, hleads₃⟩ := hdeclare _ _ s₂ _ s₃ htidy₂ h₃
  obtain ⟨htidy₄, hleads₄⟩ := hcode _ _ s₃ _ s₄ htidy₃ h₄
  obtain ⟨htidy₅, hleads₅⟩ := horderly _ _ s₄ _ s₅ htidy₄ h₅
  have hleads := hleads₂.trans (hleads₃.trans (hleads₄.trans hleads₅))
  exact hs.finish htidy₅ (hpool ▸ hleads.pool) (hmade ▸ hleads.functions) h₆

/-- **A function is made** by the instruction that it is owed. -/
theorem Orderly.closure {name : Option Identifier} {params : List Identifier} {isDeclaration : Bool}
    {scope : ScopeId} {span : Span} {declare code : GenContext → Gen Unit}
    (hown : Orderly (c.table.layout scope).localCount terms
      (Generation.bindOwnName (c.inner scope) name isDeclaration span))
    (hdeclare : Orderly (c.table.layout scope).localCount terms (declare (c.inner scope)))
    (hcode : Orderly (c.table.layout scope).localCount terms (code (c.inner scope))) :
    Orderly locals terms
      (Generation.function c name params isDeclaration (some scope) span declare code >>= fun index =>
        emit (Emitter.closure index)) := by
  intro base waiting s y s' hs hg
  obtain ⟨index, s₁, h₁, h₂⟩ := Gen.bind_eq_ok.mp hg
  obtain ⟨hs₁, hleads, hlt⟩ := hs.function hown hdeclare hcode h₁
  obtain ⟨e, he, rfl⟩ := Gen.emit_eq_ok.mp h₂
  obtain ⟨k, e₁, h₃, h₄⟩ := Emitter.bind_eq_ok.mp he
  obtain ⟨rfl, rfl, hle⟩ := Emitter.checked_eq_ok h₃
  have hw := Emitter.opShort_writes hs₁.sound h₄
  have hshort := Chunk.shortOperand_of_bytes hw.short.1 hw.short.2
  rw [toNat_toUInt16 hle] at hshort
  have hwritten : { s₁ with emitter := e }.Tidy locals terms base waiting [] ∧
      s₁.Leads { s₁ with emitter := e } := by
    apply hs₁.write hw rfl
    · exact Grows.refl _
    · rfl
    · exact fun _ => ⟨k, hshort, hlt, fun _ => rfl⟩
    · exact fun hop => absurd rfl hop
  exact ⟨hwritten.1, hleads.trans hwritten.2⟩

/-- **A function of a program is made.** -/
theorem Orderly.made (hc : terms.slots → c.Fits locals) {isLowered : Bool} {withs : Nat} {i : Info}
    {name : Option Identifier} {params : List Identifier} {body : List Node} {isDeclaration : Bool}
    {scope : Option ScopeId}
    (hn : terms.slots →
      (Node.function i name params body isDeclaration scope).Scoped c.table c.scope isLowered withs)
    {declare code : GenContext → Gen Unit}
    (hdeclare : ∀ (inner : GenContext) (room : Nat), (terms.slots → inner.Fits room) →
      (terms.slots → ScopedAll inner.table inner.scope (isLowered || decide (0 < withs)) 0 body) →
      Orderly room terms (declare inner))
    (hcode : ∀ (inner : GenContext) (room : Nat), (terms.slots → inner.Fits room) →
      (terms.slots → ScopedAll inner.table inner.scope (isLowered || decide (0 < withs)) 0 body) →
      Orderly room terms (code inner)) (span : Span) :
    Orderly locals terms
      (Generation.function c name params isDeclaration scope span declare code >>= fun index =>
        emit (Emitter.closure index)) := by
  rcases scope with _ | scope
  · exact .throw_bind _ _
  have hinner : terms.slots → (c.inner scope).Fits (c.table.layout scope).localCount :=
    fun hslots => (hc hslots).inner scope
  have hbody : terms.slots →
      ScopedAll c.table scope (isLowered || decide (0 < withs)) 0 body := by
    intro hslots
    obtain ⟨inner, hscope, -, -, -, hbody⟩ := hn hslots
    obtain rfl := Option.some.inj hscope
    exact hbody
  refine .closure (.bindOwnName hinner (fun hslots hexpr x hx => ?_) span) (hdeclare _ _ hinner hbody)
    (hcode _ _ hinner hbody)
  obtain ⟨inner, hscope, -, -, hname, -⟩ := hn hslots
  obtain rfl := Option.some.inj hscope
  have hown := hname x hx
  rw [hexpr] at hown
  exact hown

/-! ## Nodes -/

/-- Loops are admitted, or there is none in either part. -/
theorem or_and_eq_true_iff {P : Prop} {a b : Bool} :
    (P ∨ (a && b) = true) ↔ (P ∨ a = true) ∧ (P ∨ b = true) := by
  rw [Bool.and_eq_true, or_and_left]

mutual

/-- **A node** keeps everything in order, if loops are admitted or it has none. -/
theorem orderly_node {c : GenContext} {locals : Nat} (hc : terms.slots → c.Fits locals) {isLowered : Bool} {withs : Nat}
    (pos : Position) : ∀ n : Node, (terms.slots → n.Scoped c.table c.scope isLowered withs) →
      terms.loops ∨ n.isLoopFree = true → Orderly locals terms (node c pos n)
  | .literal i l, _, _ => .bind (.setSpan _) fun _ => .bind (.literal l) fun _ => .settle hc pos
  | .identifier i x, hn, _ =>
    .bind (.setSpan _) fun _ => .bind (.load hc (fun h => (hn h).2) i.span) fun _ => .settle hc pos
  | .dynamic i name, _, _ =>
    .bind (.setSpan _) fun _ => .bind (.opName (by decide) rfl (fun _ _ _ _ => id) _) fun _ => .settle hc pos
  | .this i, _, _ => .bind (.setSpan _) fun _ => .bind (.op rfl) fun _ => .settle hc pos
  | .call i target args, hn, hl => by
    obtain ⟨hl, hl'⟩ := or_and_eq_true_iff.mp hl
    rw [node_call]
    refine .bind (.setSpan _) fun _ => .bind (.callNode c i.span target args.length
      (orderly_node hc .value target (fun h => (hn h).1) hl)
      (orderly_nodes hc .value args (fun h => (hn h).2) hl') ?_) fun _ => .settle hc pos
    cases target with
    | member j receiver name =>
      rintro _ _ _ ⟨⟩
      exact orderly_node hc .value receiver (fun h => (hn h).1) hl
    | _ => rintro _ _ _ ⟨⟩
  | .member i target name, hn, hl => by
    refine .bind (.setSpan _) fun _ => .bind (orderly_node hc .value target hn hl) fun _ => ?_
    exact .bind (.opSite (by decide) rfl (fun _ _ _ _ => id) _ _ _) fun _ => .settle hc pos
  | .binary i op lhs rhs, hn, hl => by
    obtain ⟨hl, hl'⟩ := or_and_eq_true_iff.mp hl
    refine .bind (.setSpan _) fun _ => .bind (.binary op ?_ ?_) fun _ => .settle hc pos
    · exact orderly_node hc .value lhs (fun h => (hn h).1) hl
    · exact orderly_node hc .value rhs (fun h => (hn h).2) hl'
  | .unary i op operand, hn, hl => by
    refine .bind (.setSpan _) fun _ => .bind (orderly_node hc .value operand hn hl) fun _ => ?_
    exact .bind (.unaryOp op) fun _ => .settle hc pos
  | .assign i target value, hn, hl => by
    obtain ⟨hl, hl'⟩ := or_and_eq_true_iff.mp hl
    rw [node_assign]
    have hname : ∀ j x, target = .identifier j x → terms.slots → x.Resolves c.table c.scope isLowered := by
      rintro j x rfl hslots
      exact (hn hslots).1.2
    refine .bind (.setSpan _) fun _ => .bind (.assign hc i.span target hname
      (orderly_node hc .value value (fun h => (hn h).2) hl') ?_) fun _ => .settle hc pos
    cases target with
    | member j object name =>
      rintro _ _ _ ⟨⟩
      exact orderly_node hc .value object (fun h => (hn h).1) hl
    | _ => rintro _ _ _ ⟨⟩
  | .function i name params body isDeclaration scope, hn, hl => by
    refine .bind (.setSpan _) fun _ => ?_
    split
    · exact .pure ()
    · rw [← bind_assoc]
      refine .bind (.made hc hn (fun _ _ hc hbody => ?_) (fun _ _ hc hbody => ?_) i.span) fun _ => .settle hc pos
      · exact orderly_hoistedAll hc body hbody hl
      · exact orderly_nodes hc .effect body hbody hl
  | .object i ps, hn, hl => by
    refine .bind (.setSpan _) fun _ => .bind (.op rfl) fun _ => ?_
    exact .bind (orderly_properties hc ps hn hl) fun _ => .settle hc pos
  | .delete i target, hn, hl => by
    rw [node_delete]
    refine .bind (.setSpan _) fun _ => .bind (.delete c target
      (orderly_node hc .value target hn hl) ?_) fun _ => .settle hc pos
    cases target with
    | member j object name =>
      rintro _ _ _ ⟨⟩
      exact orderly_node hc .value object hn hl
    | _ => rintro _ _ _ ⟨⟩
  | .var i binding init, hn, hl => by
    cases init with
    | none => exact .bind (.setSpan _) fun _ => .bind (.expectEffect _ pos) fun _ => .pure ()
    | some init =>
      refine .bind (.setSpan _) fun _ => .bind (.expectEffect _ pos) fun _ => ?_
      refine .bind (orderly_node hc .value init (fun h => (hn h).2) hl) fun _ => ?_
      exact .bind (.store hc (fun h => (hn h).1.2.resolves false) i.span) fun _ => .op rfl
  | .ret i value, hn, hl => by
    cases value with
    | none => exact .bind (.setSpan _) fun _ => .bind (.expectEffect _ pos) fun _ => .op rfl
    | some value =>
      refine .bind (.setSpan _) fun _ => .bind (.expectEffect _ pos) fun _ => ?_
      exact .bind (orderly_node hc .value value hn hl) fun _ => .op rfl
  | .cond i condition thenBranch elseBranch, hn, hl => by
    obtain ⟨hl, hl''⟩ := or_and_eq_true_iff.mp hl
    obtain ⟨hl, hl'⟩ := or_and_eq_true_iff.mp hl
    have hcondition := orderly_node hc .value condition (fun h => (hn h).1) hl
    have hthen := orderly_node hc .effect thenBranch (fun h => (hn h).2.1) hl'
    cases elseBranch with
    | none =>
      refine .bind (.setSpan _) fun _ => .bind (.expectEffect _ pos) fun _ => .bind hcondition fun _ => ?_
      exact .skip rfl hthen
    | some elseBranch =>
      refine .bind (.setSpan _) fun _ => .bind (.expectEffect _ pos) fun _ => .bind hcondition fun _ => ?_
      exact .fork rfl hthen (orderly_node hc .effect elseBranch (fun h => (hn h).2.2) hl'')
  | .loop i condition body, hn, hl => by
    -- A loop is there, so that loops are admitted.
    have hloops : terms.loops := hl.resolve_right Bool.false_ne_true
    refine .bind (.setSpan _) fun _ => .bind (.expectEffect _ pos) fun _ => ?_
    exact .loop hloops (orderly_node hc .value condition (fun h => (hn h).1) (.inl hloops))
      (orderly_node hc .effect body (fun h => (hn h).2) (.inl hloops))
  | .block i statements, hn, hl =>
    .bind (.setSpan _) fun _ => .bind (.expectEffect _ pos) fun _ =>
      orderly_nodes hc .effect statements hn hl
  | .withObject i object body, hn, hl => by
    obtain ⟨hl, hl'⟩ := or_and_eq_true_iff.mp hl
    refine .bind (.setSpan _) fun _ => .bind (.expectEffect _ pos) fun _ => ?_
    refine .bind (orderly_node hc .value object (fun h => (hn h).1) hl) fun _ => .bind (.op rfl) fun _ => ?_
    exact .bind (orderly_node hc .effect body (fun h => (hn h).2) hl') fun _ => .op rfl
  | .throw i value, hn, hl => by
    refine .bind (.setSpan _) fun _ => .bind (.expectEffect _ pos) fun _ => ?_
    exact .bind (orderly_node hc .value value hn hl) fun _ => .bind (.setSpan _) fun _ => .op rfl
  | .tryCatch i block param handler, hn, hl => by
    obtain ⟨hl, hl'⟩ := or_and_eq_true_iff.mp hl
    refine .bind (.setSpan _) fun _ => .bind (.expectEffect _ pos) fun _ => ?_
    have hblock : Orderly locals terms (node c .effect block >>= fun _ => emit (Emitter.op .tryEnd)) :=
      .bind (orderly_node hc .effect block (fun h => (hn h).1) hl) fun _ => .op rfl
    have hhandler : Orderly locals terms
        (bindCaught c param i.span >>= fun _ => node c .effect handler) :=
      .bind (.bindCaught hc (fun h x hx => ((hn h).2.1 x hx).2) i.span) fun _ =>
        orderly_node hc .effect handler (fun h => (hn h).2.2) hl'
    have hfork := Orderly.fork (o := .tryBegin) rfl hblock hhandler
    simp only [bind_assoc] at hfork
    exact hfork
termination_by structural n => n

/-- **Nodes in order** keep everything in order. -/
theorem orderly_nodes {c : GenContext} {locals : Nat} (hc : terms.slots → c.Fits locals) {isLowered : Bool} {withs : Nat}
    (pos : Position) : ∀ ns : List Node, (terms.slots → ScopedAll c.table c.scope isLowered withs ns) →
      terms.loops ∨ loopFreeAll ns = true → Orderly locals terms (nodes c pos ns)
  | [], _, _ => .pure ()
  | n :: rest, hn, hl =>
    have hl := or_and_eq_true_iff.mp hl
    .bind (orderly_node hc pos n (fun h => (hn h).1) hl.1) fun _ => orderly_nodes hc pos rest (fun h => (hn h).2) hl.2
termination_by structural ns => ns

/-- **Properties** keep everything in order. -/
theorem orderly_properties {c : GenContext} {locals : Nat} (hc : terms.slots → c.Fits locals) {isLowered : Bool}
    {withs : Nat} : ∀ ps : List (String × Node), (terms.slots → ScopedProperties c.table c.scope isLowered withs ps) →
      terms.loops ∨ loopFreeProperties ps = true → Orderly locals terms (properties c ps)
  | [], _, _ => .pure ()
  | (name, value) :: rest, hn, hl => by
    obtain ⟨hl, hl'⟩ := or_and_eq_true_iff.mp hl
    refine .bind (orderly_node hc .value value (fun h => (hn h).1) hl) fun _ => ?_
    exact .bind (.opName (by decide) rfl (fun _ _ _ _ => id) _) fun _ =>
      orderly_properties hc rest (fun h => (hn h).2) hl'
termination_by structural ps => ps

/-- **Declared functions** keep everything in order. -/
theorem orderly_hoisted {c : GenContext} {locals : Nat} (hc : terms.slots → c.Fits locals) {isLowered : Bool}
    {withs : Nat} : ∀ n : Node, (terms.slots → n.Scoped c.table c.scope isLowered withs) →
      terms.loops ∨ n.isLoopFree = true → Orderly locals terms (hoisted c n)
  | .function i name params body isDeclaration scope, hn, hl => by
    cases isDeclaration with
    | false => exact .pure ()
    | true =>
      cases name with
      | none => exact .pure ()
      | some x =>
        refine .get fun s => ?_
        rw [← bind_assoc]
        refine .bind (.made hc hn (fun _ _ hc hbody => ?_) (fun _ _ hc hbody => ?_) _) fun _ => ?_
        · exact orderly_hoistedAll hc body hbody hl
        · exact orderly_nodes hc .effect body hbody hl
        · have hresolves : terms.slots → x.Resolves c.table c.scope false := by
            intro hslots
            obtain ⟨_, -, -, -, hname, -⟩ := hn hslots
            exact (hname x rfl).2.resolves false
          exact .bind (.store hc hresolves _) fun _ => .op rfl
  | .block i statements, hn, hl => orderly_hoistedAll hc statements hn hl
  | .cond i condition thenBranch elseBranch, hn, hl => by
    obtain ⟨hl, hl''⟩ := or_and_eq_true_iff.mp hl
    obtain ⟨-, hl'⟩ := or_and_eq_true_iff.mp hl
    refine .bind (orderly_hoisted hc thenBranch (fun h => (hn h).2.1) hl') fun _ => ?_
    exact orderly_hoisted? hc elseBranch (fun h => (hn h).2.2) hl''
  | .loop i condition body, hn, hl =>
    orderly_hoisted hc body (fun h => (hn h).2) (.inl (hl.resolve_right Bool.false_ne_true))
  | .tryCatch i block param handler, hn, hl => by
    obtain ⟨hl, hl'⟩ := or_and_eq_true_iff.mp hl
    refine .bind (orderly_hoisted hc block (fun h => (hn h).1) hl) fun _ => ?_
    exact orderly_hoisted hc handler (fun h => (hn h).2.2) hl'
  | .literal .., _, _ | .identifier .., _, _ | .dynamic .., _, _ | .this _, _, _ | .call .., _, _
  | .member .., _, _ | .binary .., _, _ | .unary .., _, _ | .assign .., _, _ | .object .., _, _
  | .delete .., _, _ | .var .., _, _ | .ret .., _, _ | .withObject .., _, _ | .throw .., _, _ => .pure ()
termination_by structural n => n

/-- **Declared functions of a body** keep everything in order. -/
theorem orderly_hoistedAll {c : GenContext} {locals : Nat} (hc : terms.slots → c.Fits locals) {isLowered : Bool}
    {withs : Nat} : ∀ ns : List Node, (terms.slots → ScopedAll c.table c.scope isLowered withs ns) →
      terms.loops ∨ loopFreeAll ns = true → Orderly locals terms (hoistedAll c ns)
  | [], _, _ => .pure ()
  | n :: rest, hn, hl =>
    have hl := or_and_eq_true_iff.mp hl
    .bind (orderly_hoisted hc n (fun h => (hn h).1) hl.1) fun _ => orderly_hoistedAll hc rest (fun h => (hn h).2) hl.2
termination_by structural ns => ns

/-- **Declared functions of a statement** that may be missing. -/
theorem orderly_hoisted? {c : GenContext} {locals : Nat} (hc : terms.slots → c.Fits locals) {isLowered : Bool}
    {withs : Nat} : ∀ n : Option Node, (terms.slots → Scoped? c.table c.scope isLowered withs n) →
      terms.loops ∨ loopFree? n = true → Orderly locals terms (hoisted? c n)
  | none, _, _ => .pure ()
  | some n, hn, hl => orderly_hoisted hc n hn hl
termination_by structural n => n

end

/-! ## Units -/

/-- A program's own code keeps everything in order. -/
theorem orderly_programCode (hc : terms.slots → c.Fits locals) {body : List Node} {completion : Nat}
    (hbody : terms.slots → ScopedAll c.table c.scope false 0 body)
    (hl : terms.loops ∨ loopFreeAll body = true) (hcompletion : terms.slots → completion < locals) :
    Orderly locals terms (programCode c body completion) := by
  refine .bind (orderly_hoistedAll hc body hbody hl) fun _ => ?_
  refine .bind (orderly_nodes hc .effect body hbody hl) fun _ => ?_
  exact .bind (.loadLocal hcompletion) fun _ => .op rfl

/-- Nothing has been generated yet. -/
theorem GenState.Tidy.start (locals : Nat) (terms : CodeTerms) : ({} : GenState).Tidy locals terms 0 [] [] := by
  refine ⟨Pool.sound_empty, .empty _, fun j F hF => ?_, Nat.le_refl _, ?_⟩
  · cases hF
  · simp [GenState.chunk]

end

/-- All functions of a unit are in order, and all but the last are made by exactly one instruction. -/
structure CodeUnit.Tidy (u : CodeUnit) (terms : CodeTerms) : Prop where
  /-- The functions. -/
  functions : ∀ (j : Nat) (F : CodeFunction), u.functions[j]? = some F →
    F.chunk.Tidy (F.context u.pool j terms) []
  /-- The program's own code comes last. -/
  entry : u.entry + 1 = u.functions.size
  /-- The functions that are made. -/
  closures : (u.functions.toList.flatMap CodeFunction.closures).Perm (List.range u.entry)

/-- **A generated unit** is in order: its frame slots are there if its names can be reached, and it has no
backward jumps if the program has no loops. -/
theorem generate_tidy {t : ScopeTable} {p : Program} {u : CodeUnit} {terms : CodeTerms}
    (h : generate t p = .ok u)
    (hp : terms.slots → t.Placed ∧ ∀ scope ∈ p.scope, ScopedAll t scope false 0 p.body)
    (hl : terms.loops ∨ p.isLoopFree = true) : u.Tidy terms := by
  rw [generate] at h
  split at h
  · next scope hscope _ =>
    simp only at h
    split at h
    · cases h
    · next s hs =>
      have hfits : terms.slots → GenContext.Fits ⟨t, scope, some (t.layout scope).localCount⟩
          ((t.layout scope).localCount + 1) := by
        intro hslots
        refine ⟨(hp hslots).1, Nat.le_succ _, fun slot hslot => ?_⟩
        obtain rfl := Option.some.inj hslot
        exact Nat.lt_succ_self _
      have horderly := orderly_programCode hfits (fun hslots => (hp hslots).2 scope hscope) hl
        fun _ => Nat.lt_succ_self _
      obtain ⟨htidy, -⟩ := horderly 0 [] {} () s (.start _ _) hs
      injection h with h
      subst h
      refine ⟨fun j F hF => ?_, by simp, ?_⟩
      · rw [Array.getElem?_push] at hF
        split at hF
        · next hj =>
          obtain rfl := Option.some.inj hF
          rw [hj]
          exact htidy.chunk
        · exact htidy.finished j F hF
      · have hmade := htidy.made
        rw [List.append_nil, List.drop_zero, Nat.sub_zero, ← List.range_eq_range'] at hmade
        rw [Array.toList_push, List.flatMap_append, List.flatMap_singleton]
        exact List.perm_append_comm.trans hmade
  · cases h

/-- **A compiled unit** is in order: its frame slots are there if analysis had not been at the program, and
it has no backward jumps if the program has no loops. -/
theorem compile_tidy {p p' : Program} {c : Compilation} {terms : CodeTerms} (h : compile p = (.ok c, p'))
    (hp : terms.slots → p.isUnset = true) (hl : terms.loops ∨ p.isLoopFree = true) : c.unit.Tidy terms := by
  obtain ⟨a, ha, hok, hscopes, hg⟩ := compile_eq_ok h
  refine generate_tidy hg (fun hslots => ?_) (hl.imp_right (Analyzer.program_loopFree ha hok))
  obtain ⟨hvalid, -, hscope, hscoped⟩ := Analyzer.program_scoped (hp hslots) ha hok
  obtain ⟨hext, -, hplaced, -⟩ := ScopeTable.placed_finish hvalid
  have htable : c.scopes = a.table.finish := hscopes
  rw [← htable] at hext hplaced
  refine ⟨hplaced, fun scope hs => ?_⟩
  rw [hscope] at hs
  obtain rfl := Option.some.inj hs
  exact hscoped _ hext

/-- **A well-formed function**, at a position of a unit with some constants. -/
structure CodeFunction.WellFormed (F : CodeFunction) (pool : Pool) (index : Nat) : Prop where
  /-- From the first byte to the last one the code is a row of whole instructions. -/
  splits : F.chunk.Splits 0 F.chunk.instructions F.chunk.size
  /-- The list of opcodes has those of the instructions. -/
  opcodes : F.chunk.opcodes.toList = F.chunk.instructions.map Prod.snd
  /-- Every byte has its line. -/
  lines : F.chunk.lines.size = F.chunk.size
  /-- Constants, names, slots, sites, functions and targets are there. -/
  operands : ∀ a op, (a, op) ∈ F.chunk.instructions → 2 ≤ op.operandSize →
    ∃ n, F.chunk.shortOperand (a + 1) = .ok n ∧
      op.Admits (F.context pool index ⟨True, True⟩) F.chunk.IsBoundary a n

/-- **A well-formed unit.** -/
structure CodeUnit.WellFormed (u : CodeUnit) : Prop where
  /-- Its functions are well-formed. -/
  functions : ∀ (j : Nat) (F : CodeFunction), u.functions[j]? = some F → F.WellFormed u.pool j
  /-- The program's own code comes last. -/
  entry : u.entry + 1 = u.functions.size
  /-- Every other function is made by exactly one instruction, and the program's own code by none. -/
  closures : (u.functions.toList.flatMap CodeFunction.closures).Perm (List.range u.entry)

/-- **Compiled code is well-formed.** Take any program that analysis has not been at and that is
compiled. Every function of the unit is a row of whole instructions, which are those that `opcodes` lists,
and every byte has its line. Jumps lead to where an instruction starts or to the end of the code, forward
except for those of loops; constants, names, frame slots and call sites are there and of the kind that the
opcode needs; an instruction that makes a function makes one that comes before. All functions but the last
are made by exactly one instruction, and the last one, which is the program's own code, by none. -/
theorem compile_wellFormed {p p' : Program} {c : Compilation} (hp : p.isUnset = true)
    (h : compile p = (.ok c, p')) : c.unit.WellFormed := by
  have htidy : c.unit.Tidy ⟨True, True⟩ := compile_tidy h (fun _ => hp) (.inl trivial)
  refine ⟨fun j F hF => ?_, htidy.entry, htidy.closures⟩
  have hF := htidy.functions j F hF
  refine ⟨hF.splits, ?_, hF.lines, fun a op hop => hF.operands a op hop List.not_mem_nil⟩
  rw [Chunk.opcodes, Chunk.opcodesFrom_eq]
  rfl

/-- A program with a function that has a loop and a protected region in it. -/
def loopsInFunction : Program :=
  ⟨[.function .none none []
      [.loop .none (.this .none)
        (.tryCatch .none (.block .none [.throw .none (.member .none (.this .none) "p")]) (some (.definition "e"))
          (.block .none [.ret .none none]))] false none], none, false⟩

/-- The unit of this program has two functions, and is well-formed. -/
theorem compile_wellFormed_loopsInFunction :
    ∃ c p', compile loopsInFunction = (.ok c, p') ∧ c.unit.functions.size = 2 ∧ c.unit.WellFormed := by
  have hok : ((compile loopsInFunction).1.toOption.any fun c => c.unit.functions.size = 2) = true := by
    decide +kernel
  rcases hc : compile loopsInFunction with ⟨error | c, p'⟩
  · rw [hc] at hok
    cases hok
  · rw [hc] at hok
    exact ⟨c, p', rfl, of_decide_eq_true hok, compile_wellFormed (by decide) hc⟩

end ScriptEngine
