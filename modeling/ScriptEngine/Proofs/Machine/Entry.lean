import ScriptEngine.Proofs.Heap.Locality
import ScriptEngine.Proofs.Heap.Permanent
import ScriptEngine.Proofs.Scope.Hoisting
import ScriptEngine.Proofs.Structured.Correctness

/-!
# Before the first statement

The functions that a body declares are made and bound before its first statement runs, in the order in which
they stand; of those that bind one variable the last one stays.

* `LaidDeclarations` is the code that makes and binds them.
* `Home` is where a function keeps a variable of its own, and `Machine.value?` the value there.
* `Machine.Runs.goes_declarations` follows a run through this code.
* `Machine.StandsBefore` is where the run comes to, and `Machine.Hoists` says that every activation comes there.

The main statement is `Analyzer.program_hoists`.
-/

namespace ScriptEngine

/-! ## The code -/

/-- What code for a declared function is made of. -/
def Declaration.source (isLowered : Bool) (withs : Nat) (d : Declaration) : Source :=
  .ofFunction isLowered withs (some d.name) d.params d.body true d.scope

section

variable (U : Blueprint) (F : CodeFunction) (c : GenContext) (isLowered : Bool) (withs : Nat)

/-- The stretch of code that makes and binds declared functions, one after the other. -/
def LaidDeclarations : List Declaration → Stretch
  | [] => .empty
  | d :: rest =>
    (Laid.closure U F (d.source isLowered withs)).seq
      ((U.atSome F (c.storeOf? d.name)).seq ((U.at F .pop).seq (LaidDeclarations rest)))

variable {U F c isLowered withs}

/-- First some functions, and then others. -/
theorem laidDeclarations_append {ds es : List Declaration} {a k b : Nat}
    (h : LaidDeclarations U F c isLowered withs ds a k) (h' : LaidDeclarations U F c isLowered withs es k b) :
    LaidDeclarations U F c isLowered withs (ds ++ es) a b := by
  induction ds generalizing a with
  | nil =>
    obtain rfl : a = k := h
    exact h'
  | cons d rest ih =>
    obtain ⟨p, hclosure, q, hstore, r, hpop, hrest⟩ := h
    exact ⟨p, hclosure, q, hstore, r, hpop, ih hrest⟩

mutual

/-- **The code before a statement** makes and binds the functions that it declares. -/
theorem Node.laidDeclarations (handlers : List Identifier) : ∀ (n : Node) {a b : Nat},
    LaidHoisted U F c isLowered withs n a b →
      LaidDeclarations U F c isLowered withs (n.declarations handlers) a b
  | .function _ name _ _ isDeclaration _, _, _, h => by
    cases isDeclaration with
    | false => exact h
    | true =>
      cases name with
      | none => exact h
      | some x =>
        obtain ⟨p, hclosure, q, hstore, hpop⟩ := h
        exact ⟨p, hclosure, q, hstore, _, hpop, rfl⟩
  | .block _ statements, _, _, h => laidDeclarationsAll handlers statements h
  | .cond _ _ thenBranch none, _, _, ⟨_, hthen, helse⟩ =>
    laidDeclarations_append (thenBranch.laidDeclarations handlers hthen) helse
  | .cond _ _ thenBranch (some elseBranch), _, _, ⟨_, hthen, helse⟩ =>
    laidDeclarations_append (thenBranch.laidDeclarations handlers hthen)
      (elseBranch.laidDeclarations handlers helse)
  | .loop _ _ body, _, _, h => body.laidDeclarations handlers h
  | .tryCatch _ guarded _ handler, _, _, ⟨_, hguarded, hhandler⟩ =>
    laidDeclarations_append (guarded.laidDeclarations handlers hguarded) (handler.laidDeclarations _ hhandler)
  | .literal .., _, _, h | .identifier .., _, _, h | .dynamic .., _, _, h | .this _, _, _, h
  | .call .., _, _, h | .member .., _, _, h | .binary .., _, _, h | .unary .., _, _, h | .assign .., _, _, h
  | .object .., _, _, h | .delete .., _, _, h | .var .., _, _, h | .ret .., _, _, h
  | .withObject .., _, _, h | .throw .., _, _, h => h

/-- The code before statements makes and binds the functions that they declare. -/
theorem laidDeclarationsAll (handlers : List Identifier) : ∀ (ns : List Node) {a b : Nat},
    LaidHoistedAll U F c isLowered withs ns a b →
      LaidDeclarations U F c isLowered withs (declarationsAll handlers ns) a b
  | [], _, _, h => h
  | n :: rest, _, _, ⟨_, hn, hrest⟩ =>
    laidDeclarations_append (n.laidDeclarations handlers hn) (laidDeclarationsAll handlers rest hrest)

end

end

/-! ## Homes -/

/-- Where a function keeps a variable of its own. -/
inductive Home where
  /-- In a local. -/
  | frame (slot : Nat)
  /-- In a slot of the innermost environment. -/
  | env (slot : Nat)
  /-- In a property of the global object. -/
  | global (name : String)
  deriving DecidableEq

/-- The instruction that reads what is kept there. -/
def Home.load : Home → Instruction
  | .frame slot => .getLocal slot
  | .env slot => .getEnv 0 slot
  | .global name => .getGlobal name

/-- The instruction that writes what is kept there. -/
def Home.store : Home → Instruction
  | .frame slot => .setLocal slot
  | .env slot => .setEnv 0 slot
  | .global name => .setGlobal name

/-- Where the variable of a name is kept, if it is one of the function itself. -/
def ScopeTable.home? (T : ScopeTable) (x : Identifier) : Option Home :=
  x.var.map fun v =>
    match T.slotOf v with
    | .frame slot => .frame slot
    | .env slot => .env slot
    | .global => .global x.name

/-- The value of a property that may be written; one that the object lacks counts as `undefined`. -/
def Heap.openValue? (heap : Heap) (h : Handle) (name : String) : Option Value :=
  match heap.own? h name with
  | some (.data v flags) => if flags.writable then some v else none
  | some (.accessor ..) => none
  | none => if heap.isLive h then some .undefined else none

/-- The value that is kept in a place, if it may be written. -/
def Machine.value? (m : Machine) (w : World) (f : Frame) : Home → Option Value
  | .frame slot => Memory.read? f.env ⟨f.locals, w.envs⟩ (.frame slot)
  | .env slot => Memory.read? f.env ⟨f.locals, w.envs⟩ (.env slot)
  | .global name => w.heap.openValue? m.realm.global name

/-- **A variable of the function itself** has a home, and its name is read and written there. -/
theorem Identifier.Own.home {c : GenContext} {x : Identifier} (hx : x.Own c.table c.scope)
    (hnested : c.table.Nested) (hplaced : c.table.Placed) :
    ∃ home, c.table.home? x = some home ∧ c.loadOf? x = some home.load ∧ c.storeOf? x = some home.store := by
  obtain ⟨v, hv, V, hV, hscope, -⟩ := hx
  have hdepth : c.table.slotOf v ≠ .global → c.table.envDepth? c.scope (c.table.var v).scope = some 0 := by
    intro hlocal
    have hlocal := mt (ScopeTable.slotOf_eq_global_iff hV).mpr hlocal
    rw [ScopeTable.var, hV, Option.getD_some, hscope]
    exact hnested.envDepth?_self (hscope ▸ hplaced.inside hV hlocal)
  simp only [ScopeTable.home?, GenContext.loadOf?, GenContext.storeOf?, hv, Option.map_some, Option.bind_some]
  rcases hslot : c.table.slotOf v with k | k | _
  · exact ⟨.frame k, rfl, rfl, rfl⟩
  · rw [hdepth (by simp [hslot])]
    exact ⟨.env k, rfl, rfl, rfl⟩
  · exact ⟨.global x.name, rfl, rfl, rfl⟩

namespace Heap

variable {heap : Heap} {h : Handle} {name : String} {v : Value}

/-- Such a property is one of an object. -/
theorem isLive_of_openValue? (hv : heap.openValue? h name = some v) : heap.isLive h = true := by
  rw [openValue?] at hv
  rcases hown : heap.own? h name with _ | p
  · by_contra hgone
    simp [hown, hgone] at hv
  · exact isLive_of_own? hown

/-- It is read if it is there. -/
theorem read_of_openValue? (hv : heap.openValue? h name = some v) (hthere : v ≠ .undefined) :
    heap.read h name = .value v := by
  rw [openValue?] at hv
  rcases hown : heap.own? h name with _ | ⟨w, flags⟩ | ⟨getter, setter, flags⟩
  · simp only [hown, Option.ite_none_right_eq_some, Option.some.injEq] at hv
    exact absurd hv.2.symm hthere
  · simp only [hown, Option.ite_none_right_eq_some, Option.some.injEq] at hv
    exact read_of_own? (hv.2 ▸ hown)
  · simp [hown] at hv

/-- **Such a property is written**, and no other property of the object changes. -/
theorem write_of_openValue? {old : Value} (hold : heap.openValue? h name = some old) (v : Value) :
    ∃ after, heap.write h name v = (.stored, after) ∧
      ∀ other, after.openValue? h other = if other = name then some v else heap.openValue? h other := by
  have hlive := isLive_of_openValue? hold
  have hredefined : ∀ {after : Heap} {flags : PropertyFlags}, flags.writable = true →
      heap.Redefines after h name (some (.data v flags)) → ∀ other,
        after.openValue? h other = if other = name then some v else heap.openValue? h other := by
    intro after flags hflags hchange other
    have hsame : after.isLive h = heap.isLive h := by
      simpa [isLive] using congrArg Option.isSome (hchange.rest h)
    by_cases hother : other = name <;> simp [openValue?, hchange.own, hother, hflags, hsame]
  have hwrites := writes heap h name v
  rcases hwrite : heap.write h name v with ⟨outcome, after⟩
  rw [hwrite] at hwrites
  rw [openValue?] at hold
  cases hwrites with
  | missing gone => simp [isLive, gone] at hlive
  | fixed own readOnly => simp [own, readOnly] at hold
  | readOnly own => simp [own] at hold
  | setter own => simp [own] at hold
  | replaced own writable change => exact ⟨_, rfl, hredefined writable change⟩
  | added live own change => exact ⟨_, rfl, hredefined rfl change⟩

end Heap

/-- A variable with a home on the global object is a property of it. -/
theorem ScopeTable.slotOf_of_home? {T : ScopeTable} {x : Identifier} {v : VarId} (hv : x.var = some v)
    {name : String} (hhome : T.home? x = some (.global name)) : T.slotOf v = .global := by
  rw [home?, hv, Option.map_some, Option.some.injEq] at hhome
  split at hhome
  · cases hhome
  · cases hhome
  · assumption

/-- A variable that is a property of the global object is one of the program. -/
theorem Identifier.Own.scope_eq_global {T : ScopeTable} {s : ScopeId} {x : Identifier} (hx : x.Own T s)
    (hplaced : T.Placed) {name : String} (hhome : T.home? x = some (.global name)) : s = .global := by
  obtain ⟨v, hv, V, hV, rfl, -⟩ := hx
  exact hplaced.globals _ V hV ((ScopeTable.slotOf_eq_global_iff hV).mp (ScopeTable.slotOf_of_home? hv hhome))

/-! ## Steps -/

/-- A frame of this unit and index runs this code, and the unit has a function for every source. -/
structure Machine.Runs (m : Machine) (U : Blueprint) (unit index : Nat) (F : CodeFunction) : Prop where
  /-- The code. -/
  code : ∃ u, m.code unit index = .ok (u, F) ∧ u.pool = U.pool
  /-- The functions. -/
  made : ∀ k src, U.sources[k]? = some src → ∃ u F', m.code unit k = .ok (u, F')

namespace Machine

variable {m : Machine} {U : Blueprint} {F : CodeFunction} {w : World} {f : Frame} {a b : Nat}

/-- One instruction. -/
theorem Runs.goes (h : m.Runs U f.unit f.index F) (below : List Frame) (depth : Nat) {i : Instruction}
    (hat : U.at F i f.ip b) {s : State}
    (hs : (⟨(m.execute w { f with ip := b } i).world, (m.execute w { f with ip := b } i).frame :: below,
      (m.execute w { f with ip := b } i).control, depth⟩ : State) = s) :
    m.Goes below.length 1 ⟨w, f :: below, .execute, depth⟩ s := by
  obtain ⟨u, hcode, hpool⟩ := h.code
  refine goes_instruction hcode ?_ hs
  rw [hpool]
  exact hat

/-- **What is kept in a place is read**, and a property is read if it is there. -/
theorem Runs.goes_load (h : m.Runs U f.unit f.index F) (below : List Frame) (depth : Nat) {home : Home}
    {v : Value} (hv : m.value? w f home = some v) (hthere : v ≠ .undefined) (hat : U.at F home.load f.ip b) :
    ∃ n, m.Goes below.length n ⟨w, f :: below, .execute, depth⟩
      ⟨w, { f with ip := b, stack := v :: f.stack } :: below, .execute, depth⟩ := by
  cases home with
  | frame slot =>
    have hat : U.at F (.getLocal slot) f.ip b := hat
    refine ⟨1, h.goes below depth hat ?_⟩
    simp only [execute, Turn.getLocal, show f.locals[slot]? = some v from hv]
    rfl
  | env slot =>
    have hat : U.at F (.getEnv 0 slot) f.ip b := hat
    have hv : Memory.read? f.env ⟨f.locals, w.envs⟩ (.env slot) = some v := hv
    obtain ⟨id, -, hancestor, hslot⟩ := Memory.slot?_of_read? hv
    refine ⟨1, h.goes below depth hat ?_⟩
    simp only [execute, Turn.getEnv, hancestor, Environments.getSlot, hslot, Option.getD_some]
    rfl
  | global name =>
    have hat : U.at F (.getGlobal name) f.ip b := hat
    have hread : m.Goes below.length 1 ⟨w, f :: below, .execute, depth⟩
        ⟨w, { f with ip := b } :: below, .deliver .push v, depth⟩ := by
      refine h.goes below depth hat ?_
      simp only [execute, Turn.getGlobal, Heap.read_of_openValue? hv hthere]
      rfl
    exact ⟨1 + 1, hread.trans (Goes.step (Nat.lt_succ_self _) rfl)⟩

/-- **A value is stored in a place**; it stays on the stack, and nothing else is written. -/
theorem Runs.goes_store (h : m.Runs U f.unit f.index F) (he : w.heap.Exact) (below : List Frame) (depth : Nat)
    {home : Home} {old v : Value} {rest : List Value} (hstack : f.stack = v :: rest)
    (hold : m.value? w f home = some old) (hat : U.at F home.store f.ip b) :
    ∃ n w' locals, m.Goes below.length n ⟨w, f :: below, .execute, depth⟩
        ⟨w', { f with ip := b, locals } :: below, .execute, depth⟩ ∧
      w'.heap.Exact ∧ w.heap.Keeps w'.heap ∧
      ∀ other, m.value? w' { f with ip := b, locals } other =
        if other = home then some v else m.value? w f other := by
  cases home with
  | frame slot =>
    have hat : U.at F (.setLocal slot) f.ip b := hat
    have hold : Memory.read? f.env ⟨f.locals, w.envs⟩ (.frame slot) = some old := hold
    obtain ⟨hslot, -⟩ := Array.getElem?_eq_some_iff.mp (show f.locals[slot]? = some old from hold)
    refine ⟨1, w, f.locals.setIfInBounds slot v, h.goes below depth hat ?_, he, .refl _, fun other => ?_⟩
    · simp only [execute, Turn.setLocal, hstack, if_pos hslot]
      rfl
    · have hwritten := Memory.read?_write hold v
      cases other with
      | frame other => simpa [value?, Memory.write] using hwritten (.frame other)
      | env other => simpa [value?, Memory.write] using hwritten (.env other)
      | global name => rfl
  | env slot =>
    have hat : U.at F (.setEnv 0 slot) f.ip b := hat
    have hold : Memory.read? f.env ⟨f.locals, w.envs⟩ (.env slot) = some old := hold
    obtain ⟨id, henv, hancestor, hslot⟩ := Memory.slot?_of_read? hold
    refine ⟨1, { w with envs := w.envs.setSlot id slot v }, f.locals, h.goes below depth hat ?_, he, .refl _,
      fun other => ?_⟩
    · simp only [execute, Turn.setEnv, hstack, hancestor, Environments.hasSlot, hslot, Option.isSome_some,
        if_true]
      rfl
    · have hwritten := Memory.read?_write hold v
      have hwrite : Memory.write f.env ⟨f.locals, w.envs⟩ (.env slot) v =
          ⟨f.locals, w.envs.setSlot id slot v⟩ := by
        rw [henv]
        rfl
      rw [hwrite] at hwritten
      cases other with
      | frame other => simpa [value?, Memory.write] using hwritten (.frame other)
      | env other => simpa [value?, Memory.write] using hwritten (.env other)
      | global name => rfl
  | global name =>
    have hat : U.at F (.setGlobal name) f.ip b := hat
    obtain ⟨heap, hwrite, hvalues⟩ := Heap.write_of_openValue? hold v
    have hstep := (Heap.Change.write w.heap m.realm.global name v).keeps he.sound
    have hexact := he.perform (.write m.realm.global name v)
    rw [Heap.perform, hwrite] at hexact
    rw [hwrite] at hstep
    have hwritten : m.Goes below.length 1 ⟨w, f :: below, .execute, depth⟩
        ⟨{ w with heap }, { f with ip := b } :: below, .deliver .discard .undefined, depth⟩ := by
      refine h.goes below depth hat ?_
      simp only [execute, Turn.setGlobal, hstack, World.write, hwrite]
      rfl
    refine ⟨1 + 1, { w with heap }, f.locals, hwritten.trans (Goes.step (Nat.lt_succ_self _) rfl), hexact,
      hstep.2, fun other => ?_⟩
    cases other with
    | frame slot => rfl
    | env slot => rfl
    | global other => simpa [value?] using hvalues other

/-- **The top is taken off the stack** and kept in a place. -/
theorem Runs.goes_take (h : m.Runs U f.unit f.index F) (he : w.heap.Exact) (below : List Frame) (depth : Nat)
    {home : Home} {old v : Value} {rest : List Value} (hstack : f.stack = v :: rest)
    (hold : m.value? w f home = some old) {q : Nat} (hstore : U.at F home.store f.ip q) (hpop : U.at F .pop q b) :
    ∃ n w' locals, m.Goes below.length n ⟨w, f :: below, .execute, depth⟩
        ⟨w', { f with ip := b, stack := rest, locals } :: below, .execute, depth⟩ ∧
      w'.heap.Exact ∧ w.heap.Keeps w'.heap ∧
      ∀ other, m.value? w' { f with ip := b, stack := rest, locals } other =
        if other = home then some v else m.value? w f other := by
  obtain ⟨n, w', locals, hstored, hexact, hkeeps, hvalues⟩ := h.goes_store he below depth hstack hold hstore
  have hpopped : m.Goes below.length 1 ⟨w', { f with ip := q, locals } :: below, .execute, depth⟩
      ⟨w', { f with ip := b, stack := rest, locals } :: below, .execute, depth⟩ := by
    refine Runs.goes (f := { f with ip := q, locals }) h below depth hpop ?_
    simp only [execute, Turn.pop, hstack]
    rfl
  exact ⟨n + 1, w', locals, hstored.trans hpopped, hexact, hkeeps, hvalues⟩

end Machine

/-! ## Declarations -/

/-- A value is a function that a frame has made of a source. -/
def Heap.MadeOf (heap : Heap) (U : Blueprint) (f : Frame) (src : Source) (v : Value) : Prop :=
  ∃ h k, v = .object h ∧ U.sources[k]? = some src ∧ heap.callable? h = some (.script ⟨f.unit, k, f.env⟩)

/-- A function stays one. -/
theorem Heap.MadeOf.keeps {heap heap' : Heap} {U : Blueprint} {f : Frame} {src : Source} {v : Value}
    (h : heap.MadeOf U f src v) (hkeeps : heap.Keeps heap') : heap'.MadeOf U f src v := by
  obtain ⟨k, index, rfl, hsrc, hcallable⟩ := h
  exact ⟨k, index, rfl, hsrc, hkeeps.callable? hcallable⟩

/-- The last of some declarations whose variables are kept in a place. -/
def ScopeTable.lastIn? (T : ScopeTable) (ds : List Declaration) (home : Home) : Option Declaration :=
  ds.reverse.find? fun d => T.home? d.name = some home

/-- The last declaration is among the later ones, if there is one there. -/
theorem ScopeTable.lastIn?_cons (T : ScopeTable) (d : Declaration) (rest : List Declaration) (home : Home) :
    T.lastIn? (d :: rest) home =
      (T.lastIn? rest home).or (if T.home? d.name = some home then some d else none) := by
  rw [lastIn?, List.reverse_cons, List.find?_append]
  congr 1
  by_cases hhome : T.home? d.name = some home <;> simp [hhome]

namespace Machine

variable {m : Machine} {U : Blueprint} {F : CodeFunction} {w : World} {f : Frame} {a b : Nat}

/-- **A function is made** of its source, and pushed. -/
theorem Runs.goes_closure (h : m.Runs U f.unit f.index F) (he : w.heap.Exact) (below : List Frame) (depth : Nat)
    {src : Source} (hat : Laid.closure U F src f.ip b) :
    ∃ heap v, m.Goes below.length 1 ⟨w, f :: below, .execute, depth⟩
        ⟨{ w with heap }, { f with ip := b, stack := v :: f.stack } :: below, .execute, depth⟩ ∧
      heap.Exact ∧ w.heap.Keeps heap ∧ heap.MadeOf U f src v ∧
      ∀ home old, m.value? w f home = some old → m.value? { w with heap } f home = some old := by
  obtain ⟨k, hsrc, hat⟩ := hat
  obtain ⟨u, F', hcode⟩ := h.made k src hsrc
  have hcallable := Realm.callable?_newFunction he m.realm (.script ⟨f.unit, k, f.env⟩) F'.name F'.params.length
  have hothers := fun {other : Handle} => Realm.get?_newFunction_of_ne he m.realm
    (.script ⟨f.unit, k, f.env⟩) F'.name F'.params.length (k := other)
  have hexact :=
    (Realm.retains_newFunction he m.realm (.script ⟨f.unit, k, f.env⟩) F'.name F'.params.length).exact
  have hkeeps := (Realm.newFunction_evolves m.realm w.heap (.script ⟨f.unit, k, f.env⟩) F'.name
    F'.params.length).keeps he.sound
  refine ⟨_, _, h.goes below depth hat ?_, hexact, hkeeps.2, ⟨_, k, rfl, hsrc, hcallable⟩,
    fun home old hold => ?_⟩
  · simp only [execute, Turn.closure, hcode]
    rfl
  · cases home with
    | frame slot => exact hold
    | env slot => exact hold
    | global name =>
      -- The global object was there before, and so it is not the new object.
      have hne : m.realm.global ≠ (m.realm.newFunction w.heap (.script ⟨f.unit, k, f.env⟩) F'.name
          F'.params.length).1 := by
        intro heq
        have hlive := Heap.isLive_of_openValue? hold
        rw [heq, Realm.newFunction, he.isLive_issued] at hlive
        cases hlive
      rw [value?, Heap.openValue?, Heap.own?, Heap.isLive, hothers hne]
      exact hold

/-- **A function is made and bound** in a place; nothing else is written. -/
theorem Runs.goes_declaration (h : m.Runs U f.unit f.index F) (he : w.heap.Exact) (below : List Frame)
    (depth : Nat) {src : Source} {home : Home} {old : Value} (hold : m.value? w f home = some old) {p q : Nat}
    (hclosure : Laid.closure U F src f.ip p) (hstore : U.at F home.store p q) (hpop : U.at F .pop q b) :
    ∃ n w' locals v, m.Goes below.length n ⟨w, f :: below, .execute, depth⟩
        ⟨w', { f with ip := b, locals } :: below, .execute, depth⟩ ∧
      w'.heap.Exact ∧ w.heap.Keeps w'.heap ∧ w'.heap.MadeOf U f src v ∧
      ∀ other old, m.value? w f other = some old →
        m.value? w' { f with ip := b, locals } other = some (if other = home then v else old) := by
  obtain ⟨heap, v, hmade, hexact, hkeeps, hfunction, hvalues⟩ := h.goes_closure he below depth hclosure
  obtain ⟨n, w', locals, htaken, hexact', hkeeps', hvalues'⟩ :=
    Runs.goes_take (w := { w with heap }) (f := { f with ip := p, stack := v :: f.stack }) h hexact below depth
      rfl (hvalues home old hold) hstore hpop
  refine ⟨1 + n, w', locals, v, hmade.trans htaken, hexact', hkeeps.trans hkeeps', hfunction.keeps hkeeps',
    fun other old hother => ?_⟩
  have hvalue := hvalues' other
  split at hvalue
  · next heq => rw [if_pos heq]; exact hvalue
  · next hne => rw [if_neg hne]; exact hvalue.trans (hvalues other old hother)

/-- **The functions that a body declares are made and bound**: in every place there is the last function that
is bound there, or what was there before. -/
theorem Runs.goes_declarations (h : m.Runs U f.unit f.index F) (he : w.heap.Exact) (below : List Frame)
    (depth : Nat) {c : GenContext} {isLowered : Bool} {withs : Nat} {ds : List Declaration}
    (hds : ∀ d ∈ ds, ∃ home old, U.table.home? d.name = some home ∧ c.storeOf? d.name = some home.store ∧
      m.value? w f home = some old)
    (hat : LaidDeclarations U F c isLowered withs ds f.ip b) :
    ∃ n w' locals, m.Goes below.length n ⟨w, f :: below, .execute, depth⟩
        ⟨w', { f with ip := b, locals } :: below, .execute, depth⟩ ∧
      w'.heap.Exact ∧ w.heap.Keeps w'.heap ∧
      ∀ home old, m.value? w f home = some old →
        ∃ v, m.value? w' { f with ip := b, locals } home = some v ∧
          match U.table.lastIn? ds home with
          | some d => w'.heap.MadeOf U f (d.source isLowered withs) v
          | none => v = old := by
  induction ds generalizing w f with
  | nil =>
    obtain rfl : f.ip = b := hat
    exact ⟨0, w, f.locals, Goes.refl _ _ _, he, .refl _, fun home old hold => ⟨old, hold, rfl⟩⟩
  | cons d rest ih =>
    obtain ⟨p, hclosure, q, ⟨i, hi, hstore⟩, r, hpop, hrest⟩ := hat
    obtain ⟨⟨home, old, hhome, hstoreOf, hold⟩, hds⟩ := List.forall_mem_cons.mp hds
    obtain rfl := Option.some.inj (hi.symm.trans hstoreOf)
    obtain ⟨n, w₁, locals₁, v, hgoes, hexact, hkeeps, hmade, hvalues⟩ :=
      h.goes_declaration he below depth hold hclosure hstore hpop
    obtain ⟨n', w₂, locals₂, hgoes', hexact', hkeeps', hvalues'⟩ :=
      ih (w := w₁) (f := { f with ip := r, locals := locals₁ }) h hexact (fun e he => by
        obtain ⟨home', old', hhome', hstore', hold'⟩ := hds e he
        exact ⟨home', _, hhome', hstore', hvalues home' old' hold'⟩) hrest
    refine ⟨n + n', w₂, locals₂, hgoes.trans hgoes', hexact', hkeeps.trans hkeeps', fun other old hother => ?_⟩
    obtain ⟨v', hv', hlast⟩ := hvalues' other _ (hvalues other old hother)
    refine ⟨v', hv', ?_⟩
    rw [ScopeTable.lastIn?_cons]
    rcases hlater : U.table.lastIn? rest other with _ | e
    · rw [hlater] at hlast
      -- No later function is bound there, so it is this one or what was there before.
      by_cases heq : other = home
      · rw [if_pos heq] at hlast
        rw [heq, if_pos hhome, hlast]
        exact hmade.keeps hkeeps'
      · rw [if_neg heq] at hlast
        rw [if_neg fun hsame => heq (Option.some.inj (hsame.symm.trans hhome))]
        exact hlast
    · rw [hlater] at hlast
      exact hlast

end Machine

/-! ## The start of an activation -/

/-- Binding arguments leaves a value wherever there was one. -/
theorem Memory.read?_bindArgs {env : Option EnvId} {μ : Memory} {place : VarSlot} {old : Value}
    (h : μ.read? env place = some old) (slots : List VarSlot) (args : List Value) :
    ∃ new, Memory.read? env ⟨(Frame.bindArgs env slots args μ.locals μ.envs).1,
      (Frame.bindArgs env slots args μ.locals μ.envs).2⟩ place = some new := by
  obtain ⟨hevolves, -, -, hsize⟩ := Environments.evolves_bindArgs env slots args μ.locals μ.envs
  cases place with
  | frame i =>
    obtain ⟨hi, -⟩ := Array.getElem?_eq_some_iff.mp (show μ.locals[i]? = some old from h)
    exact ⟨_, Array.getElem?_eq_getElem (hsize ▸ hi)⟩
  | env i =>
    obtain ⟨id, rfl, hslot⟩ := Option.bind_eq_some_iff.mp h
    obtain ⟨E, hE, hi⟩ := Option.bind_eq_some_iff.mp hslot
    obtain ⟨E', hE', -, -, hslots⟩ := hevolves.2 id E hE
    obtain ⟨hi, -⟩ := Array.getElem?_eq_some_iff.mp hi
    exact ⟨_, Option.bind_eq_some_iff.mpr ⟨E', hE', Array.getElem?_eq_getElem (hslots ▸ hi)⟩⟩
  | global => cases h

/-- **Every variable of a function has a value** when an activation starts, unless it is a property of the
global object. -/
theorem Blueprint.Lays.read?_activate {U : Blueprint} {F : CodeFunction} {src : Source} (hlays : U.Lays F src)
    (hplaced : U.table.Placed) {v : VarId} {V : Variable} (hV : U.table.vars[v.index]? = some V)
    (hscope : V.scope = src.scope) (hlocal : V.storage ≠ .global) (c : Closure) (callee this : Value)
    (args : List Value) (resume : Resume) (envs : Environments) :
    ∃ old, Memory.read? (Frame.activate F c callee this args resume envs).1.env
      ⟨(Frame.activate F c callee this args resume envs).1.locals,
        (Frame.activate F c callee this args resume envs).2⟩ (U.table.slotOf v) = some old := by
  have hcount : (U.table.layout V.scope).localCount ≤ F.localCount := by
    rw [hscope, hlays.localCount]
    exact Nat.le_add_right ..
  have hnames : F.envNames = (U.table.layout V.scope).envNames := hscope ▸ hlays.envNames
  exact Memory.read?_bindArgs (Memory.read?_start hplaced hV hlocal hcount hnames c.env envs) F.params args

namespace Machine

variable {m : Machine} {U : Blueprint} {F : CodeFunction} {w : World} {f : Frame} {a b : Nat}

/-- **A function expression binds its own name**; a value stays wherever there was one. -/
theorem Runs.goes_ownName (h : m.Runs U f.unit f.index F) (he : w.heap.Exact) (below : List Frame) (depth : Nat)
    {c : GenContext} {src : Source}
    (hname : src.isDeclaration = false → ∀ x ∈ src.name, x.var = none ∨
      ∃ home old, c.storeOf? x = some home.store ∧ m.value? w f home = some old)
    (hat : Laid.ownName U F c src f.ip b) :
    ∃ n w' locals, m.Goes below.length n ⟨w, f :: below, .execute, depth⟩
        ⟨w', { f with ip := b, locals } :: below, .execute, depth⟩ ∧
      w'.heap.Exact ∧
      ∀ home old, m.value? w f home = some old →
        ∃ new, m.value? w' { f with ip := b, locals } home = some new := by
  have hnothing : Stretch.empty f.ip b → ∃ n w' locals, m.Goes below.length n ⟨w, f :: below, .execute, depth⟩
        ⟨w', { f with ip := b, locals } :: below, .execute, depth⟩ ∧
      w'.heap.Exact ∧
      ∀ home old, m.value? w f home = some old →
        ∃ new, m.value? w' { f with ip := b, locals } home = some new := by
    rintro rfl
    exact ⟨0, w, f.locals, Goes.refl _ _ _, he, fun home old hold => ⟨old, hold⟩⟩
  cases hdeclaration : src.isDeclaration with
  | true =>
    simp only [Laid.ownName, hdeclaration] at hat
    exact hnothing hat
  | false =>
    cases hx : src.name with
    | none =>
      simp only [Laid.ownName, hdeclaration, hx] at hat
      exact hnothing hat
    | some x =>
      simp only [Laid.ownName, hdeclaration, hx] at hat
      obtain hnone | ⟨home, old, hstoreOf, hold⟩ := hname hdeclaration x hx
      · rw [hnone] at hat
        exact hnothing hat
      · split at hat
        · obtain ⟨p, hcallee, q, ⟨i, hi, hstore⟩, hpop⟩ := hat
          obtain rfl := Option.some.inj (hi.symm.trans hstoreOf)
          have hpushed : m.Goes below.length 1 ⟨w, f :: below, .execute, depth⟩
              ⟨w, { f with ip := p, stack := f.callee :: f.stack } :: below, .execute, depth⟩ :=
            h.goes below depth hcallee rfl
          obtain ⟨n, w', locals, htaken, hexact, -, hvalues⟩ :=
            Runs.goes_take (f := { f with ip := p, stack := f.callee :: f.stack }) h he below depth rfl hold
              hstore hpop
          refine ⟨1 + n, w', locals, hpushed.trans htaken, hexact, fun other old hother => ?_⟩
          have hvalue := hvalues other
          split at hvalue
          · exact ⟨_, hvalue⟩
          · exact ⟨old, hvalue.trans hother⟩
        · exact hnothing hat

end Machine

/-! ## Names -/

/-- The last declaration of a name, leaving out those in handlers that catch under it. -/
def lastDeclared? (ds : List Declaration) (name : String) : Option Declaration :=
  ds.reverse.find? fun d => d.name.name == name && d.caught?.isNone

/-- What the last declaration of a name is. -/
theorem lastDeclared?_spec {ds : List Declaration} {name : String} {d : Declaration}
    (h : lastDeclared? ds name = some d) : d ∈ ds ∧ d.name.name = name ∧ d.caught? = none := by
  have hfound := List.find?_some h
  rw [Bool.and_eq_true, beq_iff_eq, Option.isNone_iff_eq_none] at hfound
  exact ⟨List.mem_reverse.mp (List.mem_of_find?_eq_some h), hfound⟩

/-- **Variables in one place** have the same name, and are the same but for properties of the global object. -/
theorem ScopeTable.Placed.eq_of_home? {T : ScopeTable} (hT : T.Placed) {s : ScopeId} {x y : Identifier}
    {u v : VarId} (hu : x.var = some u) (hv : y.var = some v) (hx : T.Declares s x.name u)
    (hy : T.Declares s y.name v) (heq : T.home? x = T.home? y) :
    x.name = y.name ∧ (u = v ∨ T.slotOf u = .global) := by
  obtain ⟨V, hV, hscope, hname⟩ := hx
  obtain ⟨W, hW, hscope', hname'⟩ := hy
  have hsame : T.slotOf u ≠ .global → T.slotOf u = T.slotOf v → x.name = y.name ∧ u = v := by
    intro hlocal hslot
    have hlocal := mt (slotOf_eq_global_iff hV).mpr hlocal
    obtain rfl := hT.slotOf_inj hV hW (hscope.trans hscope'.symm) hlocal hslot
    obtain rfl := Option.some.inj (hV.symm.trans hW)
    exact ⟨hname.symm.trans hname', rfl⟩
  simp only [home?, hu, hv, Option.map_some, Option.some.injEq] at heq
  rcases hslot : T.slotOf u with i | i | _ <;> rcases hslot' : T.slotOf v with j | j | _ <;>
    simp only [hslot, hslot', Home.frame.injEq, Home.env.injEq, Home.global.injEq, reduceCtorEq] at heq
  · exact (hsame (by simp [hslot]) (by rw [hslot, hslot', heq])).imp_right .inl
  · exact (hsame (by simp [hslot]) (by rw [hslot, hslot', heq])).imp_right .inl
  · exact ⟨heq, .inr rfl⟩

namespace Program.Hoisted

variable {p : Program} {T T' : ScopeTable} {s : ScopeId} {body : List Node} (h : p.Hoisted T s body)
  (hscoping : p.Scoping T)
include h hscoping

/-- **A function in a handler that catches under its name** is bound to a variable that is no property of the
global object, and that no name stands for. -/
theorem caught (hext : T.Extends T') {d : Declaration} (hd : d ∈ declarationsAll [] body) {y : Identifier}
    (hy : d.caught? = some y) {v : VarId} (hv : d.name.var = some v) :
    T'.slotOf v ≠ .global ∧ ∀ s m, (T.scope s).own? m ≠ some v := by
  obtain ⟨v', hv', -, hbound⟩ := h.bound d hd
  obtain rfl : v' = v := Option.some.inj (hv'.symm.trans hv)
  rw [hy] at hbound
  obtain ⟨Γ, hsite⟩ := h.handlers d hd y (List.mem_of_find?_eq_some hy)
  refine ⟨fun hglobal => ?_, fun s m hown => hscoping.own_ne_caught hsite hown hbound⟩
  obtain ⟨L, Γ', w, -, hw, ⟨V, hV, -⟩, hlocal⟩ := hscoping.lexical _ hsite
  obtain rfl : w = v' := Option.some.inj (hw.symm.trans hbound)
  obtain ⟨V', hV', -, -, hmoves⟩ := hext.vars _ V hV
  rw [ScopeTable.var, hV] at hlocal
  exact hlocal (hmoves.global ((ScopeTable.slotOf_eq_global_iff hV').mp hglobal))

/-- **The last function that is bound where the variable of a name is kept** is the last one of that name. -/
theorem lastIn?_eq (hext : T.Extends T') (hplaced : T'.Placed) {d : Declaration}
    (hd : d ∈ declarationsAll [] body) (hfree : d.caught? = none) {home : Home}
    (hhome : T'.home? d.name = some home) :
    T'.lastIn? (declarationsAll [] body) home = lastDeclared? (declarationsAll [] body) d.name.name := by
  obtain ⟨v, hv, hdeclares, hown⟩ := h.bound d hd
  rw [hfree] at hown
  rw [ScopeTable.lastIn?, lastDeclared?, ← List.head?_filter, ← List.head?_filter]
  refine congrArg List.head? (List.filter_congr fun e he => ?_)
  have he := List.mem_reverse.mp he
  obtain ⟨u, hu, hdeclares', hown'⟩ := h.bound e he
  rw [Bool.eq_iff_iff, decide_eq_true_iff, Bool.and_eq_true, beq_iff_eq, Option.isNone_iff_eq_none, ← hhome]
  constructor
  · intro hsame
    obtain ⟨hname, hvar⟩ := hplaced.eq_of_home? hu hv (hdeclares'.mono hext) (hdeclares.mono hext) hsame
    refine ⟨hname, Option.eq_none_iff_forall_ne_some.mpr fun y hy => ?_⟩
    obtain ⟨hlocal, hnone⟩ := h.caught hscoping hext he hy hu
    obtain rfl | hglobal := hvar
    · exact hnone _ _ hown
    · exact hlocal hglobal
  · rintro ⟨hname, hfree'⟩
    rw [hfree', hname, hown] at hown'
    rw [ScopeTable.home?, ScopeTable.home?, hu, hv, hname, hown']

omit hscoping in
/-- The name of a declared function stands for a variable of the scope. -/
theorem own (hext : T.Extends T') {d : Declaration} (hd : d ∈ declarationsAll [] body) : d.name.Own T' s := by
  obtain ⟨v, hv, hdeclares, -⟩ := h.bound d hd
  exact ⟨v, hv, hdeclares.mono hext⟩

/-- **A function that is kept on the global object** is declared by the program itself, and not in a handler
that catches under its name. -/
theorem kept_global (hext : T.Extends T') (hplaced : T'.Placed) {d : Declaration}
    (hd : d ∈ declarationsAll [] body) {name : String} (hhome : T'.home? d.name = some (.global name)) :
    s = .global ∧ d.caught? = none := by
  refine ⟨(h.own hext hd).scope_eq_global hplaced hhome, Option.eq_none_iff_forall_ne_some.mpr fun y hy => ?_⟩
  obtain ⟨v, hv, -⟩ := h.bound d hd
  exact (h.caught hscoping hext hd hy hv).1 (ScopeTable.slotOf_of_home? hv hhome)

end Program.Hoisted

/-! ## Entering a function -/

/-- **The code of a body**: a function expression binds its own name, declared functions are made and bound, and
then come the statements. -/
theorem Laid.parts {U : Blueprint} {F : CodeFunction} {src : Source} {b : Nat} (h : Laid.code U F src 0 b) :
    ∃ k e b', (if src.isProgram then Stretch.empty else Laid.ownName U F (U.context src) src) 0 k ∧
      LaidDeclarations U F (U.context src) src.isLowered 0 (declarationsAll [] src.body) k e ∧
      LaidAll U F (U.context src) src.isLowered 0 .effect src.body e b' := by
  rw [Laid.code] at h
  cases hprogram : src.isProgram with
  | true =>
    rw [hprogram] at h
    obtain ⟨b', ⟨e, hhoisted, hstatements⟩, -⟩ := h
    exact ⟨0, e, b', rfl, laidDeclarationsAll [] src.body hhoisted, hstatements⟩
  | false =>
    rw [hprogram] at h
    obtain ⟨k, hown, b', ⟨e, hhoisted, hstatements⟩, -⟩ := h
    exact ⟨k, e, b', hown, laidDeclarationsAll [] src.body hhoisted, hstatements⟩

namespace Machine

/-- A name reads as a value in a frame: wherever the code loads the name the value is pushed, and that is
all. -/
def Reads (m : Machine) (U : Blueprint) (F : CodeFunction) (c : GenContext) (w : World) (f : Frame)
    (below : List Frame) (depth : Nat) (x : Identifier) (v : Value) : Prop :=
  ∀ {a b : Nat} (stack : List Value), U.atSome F (c.loadOf? x) a b →
    ∃ n, m.Goes below.length n ⟨w, { f with ip := a, stack } :: below, .execute, depth⟩
      ⟨w, { f with ip := b, stack := v :: stack } :: below, .execute, depth⟩

/-- **A run stands before the first statement** of a body, and the functions that the body declares are there:
each name of them reads as a function that this activation has made of the last declaration of the name. -/
structure StandsBefore (m : Machine) (U : Blueprint) (F : CodeFunction) (src : Source) (w : World) (f : Frame)
    (below : List Frame) (depth : Nat) : Prop where
  /-- The code goes on with the statements. -/
  statements : ∃ b, LaidAll U F (U.context src) src.isLowered 0 .effect src.body f.ip b
  /-- The functions are there. -/
  functions : ∀ {name : String} {d : Declaration}, lastDeclared? (declarationsAll [] src.body) name = some d →
    ∃ v, w.heap.MadeOf U f (d.source src.isLowered 0) v ∧
      ∀ x : Identifier, x.name = name → x.var = d.name.var → m.Reads U F (U.context src) w f below depth x v

/-- **Every activation comes to the first statement** with the functions that the body declares, in any world
with a heap in order, over any frames, at any depth and with any arguments. Where the names are to be properties
of the global object, they can be written there. -/
def Hoists (m : Machine) (U : Blueprint) (c : Closure) (src : Source) : Prop :=
  ∀ (w : World) (below : List Frame) (depth : Nat) (callee this : Value) (args : List Value) (resume : Resume),
    w.heap.Exact →
    (src.isProgram = true → ∀ d ∈ declarationsAll [] src.body, d.caught? = none →
      (w.heap.openValue? m.realm.global d.name.name).isSome = true) →
    ∃ u F w₀ f n w' ip locals, m.code c.unit c.index = .ok (u, F) ∧
      m.activate? w below depth callee c this args resume = some ⟨w₀, f :: below, .execute, depth + 1⟩ ∧
      m.Goes below.length n ⟨w₀, f :: below, .execute, depth + 1⟩
        ⟨w', { f with ip, locals } :: below, .execute, depth + 1⟩ ∧
      m.StandsBefore U F src w' { f with ip, locals } below (depth + 1)

end Machine

section

variable {U : Blueprint} {u : CodeUnit} {src : Source} {F : CodeFunction} {m : Machine} {c : Closure}

/-- Frames of a unit run its functions. -/
theorem Blueprint.Fits.runs (hfits : U.Fits u) (hu : m.units[c.unit]? = some u)
    (hF : u.functions[c.index]? = some F) : m.Runs U c.unit c.index F where
  code := ⟨u, by simp only [Machine.code, hu, CodeUnit.function?, hF], hfits.pool.symm⟩
  made k src hsrc := by
    obtain ⟨F', hF', -⟩ := hfits.lays k src hsrc
    exact ⟨u, F', by simp only [Machine.code, hu, CodeUnit.function?, hF']⟩

/-- **An activation starts** with a value in the home of every variable of the function, but for properties of
the global object that may not be written. -/
theorem Machine.Runs.activates (hruns : m.Runs U c.unit c.index F) (hlays : U.Lays F src)
    (hplaced : U.table.Placed) (w : World) (below : List Frame) (depth : Nat) (callee this : Value)
    (args : List Value) (resume : Resume) :
    ∃ w₀ f, m.activate? w below depth callee c this args resume = some ⟨w₀, f :: below, .execute, depth + 1⟩ ∧
      m.Runs U f.unit f.index F ∧ f.ip = 0 ∧ w₀.heap = w.heap ∧
      ∀ {x home}, x.Own U.table src.scope → U.table.home? x = some home →
        (home = .global x.name → (w.heap.openValue? m.realm.global x.name).isSome = true) →
          ∃ old, m.value? w₀ f home = some old := by
  obtain ⟨u', hcode, -⟩ := hruns.code
  refine ⟨{ w with envs := (Frame.activate F c callee this args resume w.envs).2 },
    (Frame.activate F c callee this args resume w.envs).1, ?_, hruns, rfl, rfl, ?_⟩
  · rw [Machine.activate?, hcode]
  rintro x home ⟨v, hv, V, hV, hscope, -⟩ hhome hopen
  have hread : U.table.slotOf v ≠ .global → _ := fun hlocal =>
    hlays.read?_activate hplaced hV hscope (mt (ScopeTable.slotOf_eq_global_iff hV).mpr hlocal) c callee this
      args resume w.envs
  rw [ScopeTable.home?, hv, Option.map_some, Option.some.injEq] at hhome
  rcases hslot : U.table.slotOf v with k | k | _ <;> rw [hslot] at hhome hread
  · exact hhome ▸ hread (by simp)
  · exact hhome ▸ hread (by simp)
  · exact hhome ▸ Option.isSome_iff_exists.mp (hopen hhome.symm)

/-- **First of all a function expression binds its own name**; a value stays wherever there was one. -/
theorem Machine.Runs.goes_start {w : World} {f : Frame} (hruns : m.Runs U f.unit f.index F) (he : w.heap.Exact)
    (below : List Frame) (depth : Nat)
    (hname : src.isProgram = false → src.isDeclaration = false → ∀ x ∈ src.name, x.var = none ∨
      ∃ home old, (U.context src).storeOf? x = some home.store ∧ m.value? w f home = some old) {k : Nat}
    (hat : (if src.isProgram then Stretch.empty else Laid.ownName U F (U.context src) src) f.ip k) :
    ∃ n w' locals, m.Goes below.length n ⟨w, f :: below, .execute, depth⟩
        ⟨w', { f with ip := k, locals } :: below, .execute, depth⟩ ∧
      w'.heap.Exact ∧
      ∀ home old, m.value? w f home = some old →
        ∃ new, m.value? w' { f with ip := k, locals } home = some new := by
  cases hprogram : src.isProgram with
  | true =>
    rw [hprogram] at hat
    obtain rfl : f.ip = k := hat
    exact ⟨0, w, f.locals, Machine.Goes.refl _ _ _, he, fun home old hold => ⟨old, hold⟩⟩
  | false =>
    rw [hprogram] at hat
    exact hruns.goes_ownName he below depth (hname hprogram) hat

/-- **Every activation** of a unit's function comes to the first statement, and the functions that the body
declares are there. -/
theorem Blueprint.Fits.hoists (hfits : U.Fits u) (hu : m.units[c.unit]? = some u)
    (hsrc : U.sources[c.index]? = some src) (hlocal : src.isProgram = false → src.scope ≠ .global) {p : Program}
    {T : ScopeTable} (hhoisted : p.Hoisted T src.scope src.body) (hscoping : p.Scoping T)
    (hext : T.Extends U.table) : m.Hoists U c src := by
  intro w below depth callee this args resume he hopen
  obtain ⟨F, hF, hlays⟩ := hfits.lays c.index src hsrc
  have hruns := hfits.runs hu hF
  obtain ⟨u', hfound, -⟩ := hruns.code
  obtain ⟨b, hcode⟩ := hlays.code
  obtain ⟨k, e, b', hname, hdeclarations, hstatements⟩ := Laid.parts hcode
  obtain ⟨w₀, f, hactivate, hruns, hip, hheap, hvalue⟩ :=
    hruns.activates hlays hfits.placed w below depth callee this args resume
  have hself : src.isProgram = false → src.isDeclaration = false → ∀ x ∈ src.name, x.var = none ∨
      ∃ home old, (U.context src).storeOf? x = some home.store ∧ m.value? w₀ f home = some old := by
    intro hfunction hexpression x hx
    refine ((hfits.names src (List.mem_of_getElem? hsrc)).name hexpression x hx).imp_right fun hx => ?_
    obtain ⟨home, hhome, -, hstore⟩ := Identifier.Own.home (c := U.context src) hx hfits.nested hfits.placed
    obtain ⟨old, hold⟩ := hvalue hx hhome fun hglobal =>
      absurd (hx.scope_eq_global hfits.placed (hglobal ▸ hhome)) (hlocal hfunction)
    exact ⟨home, old, hstore, hold⟩
  rw [← hip] at hname
  have hexact : w₀.heap.Exact := hheap ▸ he
  obtain ⟨n, w₁, locals₁, hgoes, hexact, hkept⟩ := hruns.goes_start hexact below (depth + 1) hself hname
  have hhomes : ∀ d ∈ declarationsAll [] src.body, ∃ home old, U.table.home? d.name = some home ∧
      (U.context src).storeOf? d.name = some home.store ∧
      m.value? w₁ { f with ip := k, locals := locals₁ } home = some old := by
    intro d hd
    have hx := hhoisted.own hext hd
    obtain ⟨home, hhome, -, hstore⟩ := Identifier.Own.home (c := U.context src) hx hfits.nested hfits.placed
    obtain ⟨old, hold⟩ := hvalue hx hhome fun hglobal => by
      obtain ⟨hscope, hfree⟩ := hhoisted.kept_global hscoping hext hfits.placed hd (hglobal ▸ hhome)
      exact hopen (Bool.of_not_eq_false fun hfunction => hlocal hfunction hscope) d hd hfree
    obtain ⟨new, hnew⟩ := hkept home old hold
    exact ⟨home, new, hhome, hstore, hnew⟩
  obtain ⟨n', w', locals, hgoes', -, -, hbound⟩ := Machine.Runs.goes_declarations
    (f := { f with ip := k, locals := locals₁ }) hruns hexact below (depth + 1) hhomes hdeclarations
  refine ⟨u', F, w₀, f, n + n', w', e, locals, hfound, hactivate, hgoes.trans hgoes', ⟨b', hstatements⟩, ?_⟩
  intro name d hlast
  obtain ⟨hd, rfl, hfree⟩ := lastDeclared?_spec hlast
  obtain ⟨home, old, hhome, -, hold⟩ := hhomes d hd
  obtain ⟨v, hv, hmade⟩ := hbound home old hold
  rw [hhoisted.lastIn?_eq hscoping hext hfits.placed hd hfree hhome, hlast] at hmade
  refine ⟨v, hmade, fun x hname hvar => ?_⟩
  -- A name that stands for the same variable has the same home.
  obtain ⟨y, hy, hdeclares⟩ := hhoisted.own hext hd
  have hx : x.Own U.table src.scope := ⟨y, hvar.trans hy, hname ▸ hdeclares⟩
  obtain ⟨home', hhome', hload, -⟩ := Identifier.Own.home (c := U.context src) hx hfits.nested hfits.placed
  obtain rfl : home = home' := by
    rw [ScopeTable.home?, hvar, hname] at hhome'
    exact Option.some.inj (hhome.symm.trans hhome')
  obtain ⟨h, index, rfl, -⟩ := hmade
  rintro a b stack ⟨i, hi, hat⟩
  obtain rfl := Option.some.inj (hi.symm.trans hload)
  exact Machine.Runs.goes_load (f := { f with ip := a, stack, locals }) hruns below (depth + 1) hv (by simp) hat

end

/-- The body of a source is one of the program's, in the scope of the source. -/
theorem Analyzer.hasBody {p p' : Program} {a : Analyzer} (h : Analyzer.program {} p = (a, p'))
    (hok : a.failure = none) {src : Source} (hsrc : src ∈ p'.sources) : p'.HasBody src.scope src.body := by
  obtain ⟨t, -, hwalk⟩ := program_analyzes h hok
  have hscope : p'.scope = some .global := by
    rw [program] at h
    cases h
    rfl
  obtain rfl | ⟨Γ, L, hsite, hL⟩ := hwalk.source hsrc
  · rw [Program.source, hscope]
    exact .program
  · rw [← hL]
    exact .function hsite

/-- **The functions that a body declares are bound to what its names read**, in every body of an analyzed
program. A declaration stands for the variable that its name has in the scope of the body, unless it is written
in a handler that catches under the name. Every reference to the name stands for the same variable, be it before
the declaration or after it, and in functions of the body, too, unless such a handler or a function in between
binds the name. When the program is compiled, every activation of a body makes the functions before the first
statement, and then each name reads as the last one that is declared under it. A declaration in a handler that
catches under its name stands for what is caught instead, which is the variable of no name in any scope. -/
theorem Analyzer.program_hoists {p p' : Program} {a : Analyzer} (h : Analyzer.program {} p = (a, p'))
    (hok : a.failure = none) :
    (∀ s body, p'.HasBody s body → ∀ d ∈ declarationsAll [] body, d.Bound a.table s ∧
      (d.caught? = none → ∀ Γ x, .use Γ x ∈ p'.sites → x.name = d.name.name →
        Reaches a.table s x.name Γ → x.var = d.name.var) ∧
      (d.caught? ≠ none → ∀ s' name, (a.table.scope s').own? name ≠ d.name.var)) ∧
    ∀ comp, p.isUnset = true → compile p = (.ok comp, p') → ∀ (m : Machine) (c : Closure) src,
      m.units[c.unit]? = some comp.unit → p'.sources[c.index]? = some src →
        p'.HasBody src.scope src.body ∧ m.Hoists ⟨comp.scopes, comp.unit.pool, p'.sources⟩ c src := by
  have hscoping := program_scoping h hok
  refine ⟨fun s body hbody d hd => ?_, fun comp hp hc m c src hu hsrc => ?_⟩
  · have hhoisted := program_hoisted h hok hbody
    refine ⟨hhoisted.bound d hd, fun hfree Γ x hx => hhoisted.reference hscoping hd hfree hx, fun hcaught => ?_⟩
    obtain ⟨y, hy⟩ := Option.ne_none_iff_exists'.mp hcaught
    obtain ⟨v, hv, -⟩ := hhoisted.bound d hd
    rw [hv]
    exact (hhoisted.caught hscoping (.refl _) hd hy hv).2
  · have hbody := hasBody h hok (List.mem_of_getElem? hsrc)
    obtain ⟨a', ha', -, hscopes, -⟩ := compile_eq_ok hc
    obtain rfl : a = a' := congrArg Prod.fst (h.symm.trans ha')
    have hext := (ScopeTable.placed_finish hscoping.rooted.valid).1
    rw [← finish, ← hscopes] at hext
    exact ⟨hbody, (Blueprint.fits_of_compile hp hc).hoists hu hsrc
      (compile_isLocal hc (List.mem_of_getElem? hsrc)) (program_hoisted h hok hbody) hscoping hext⟩

/-- A function that declares another one four times, with more parameters each time: by itself, in a branch, in
a handler, and in a handler that catches under its name. -/
def fourTimesDeclared : Program :=
  let declared (params : List String) : Node :=
    .block .none [.function .none (some (.definition "f")) (params.map .definition) [] true none]
  ⟨[.function .none (some (.definition "g")) []
      [.identifier .none (.reference "f"), declared [],
        .cond .none (.literal .none (.bool true)) (declared ["x"]) none,
        .tryCatch .none (.block .none []) (some (.definition "e")) (declared ["x", "y"]),
        .tryCatch .none (.block .none []) (some (.definition "f")) (declared ["x", "y", "z"])] true none],
    none, false⟩

/-- All references to the name stand for the variable of the third of these, and this one is there before the
first statement. -/
theorem Analyzer.program_hoists_fourTimesDeclared :
    ∃ a p' src d, program {} fourTimesDeclared = (a, p') ∧ p'.sources[4]? = some src ∧
      (declarationsAll [] src.body).map (fun d => (d.params.length, d.caught?.isSome)) =
        [(0, false), (1, false), (2, false), (3, true)] ∧
      lastDeclared? (declarationsAll [] src.body) "f" = some d ∧ d.params.length = 2 ∧
      d.Bound a.table src.scope ∧
      (∀ Γ x, .use Γ x ∈ p'.sites → x.name = d.name.name → Reaches a.table src.scope x.name Γ →
        x.var = d.name.var) ∧
      ∀ comp, compile fourTimesDeclared = (.ok comp, p') → ∀ m : Machine, m.units[0]? = some comp.unit →
        m.Hoists ⟨comp.scopes, comp.unit.pool, p'.sources⟩ ⟨0, 4, none⟩ src := by
  have hok : (program {} fourTimesDeclared).1.failure = none := by decide +kernel
  have hfound : ((program {} fourTimesDeclared).2.sources[4]?.any fun src =>
      (declarationsAll [] src.body).map (fun d => (d.params.length, d.caught?.isSome)) =
          [(0, false), (1, false), (2, false), (3, true)] ∧
        (lastDeclared? (declarationsAll [] src.body) "f").any fun d => d.params.length = 2) = true := by
    decide +kernel
  rcases h : program {} fourTimesDeclared with ⟨a, p'⟩
  rw [h] at hok hfound
  obtain ⟨src, hsrc, hfound⟩ := (Option.any_eq_true _ _).mp hfound
  obtain ⟨hall, hlast⟩ := of_decide_eq_true hfound
  obtain ⟨d, hd, hparams⟩ := (Option.any_eq_true _ _).mp hlast
  obtain ⟨hmem, -, hfree⟩ := lastDeclared?_spec hd
  obtain ⟨hbodies, hhoists⟩ := program_hoists h hok
  obtain ⟨hbound, hreferences, -⟩ := hbodies _ _ (hasBody h hok (List.mem_of_getElem? hsrc)) d hmem
  exact ⟨a, p', src, d, rfl, hsrc, hall, hd, of_decide_eq_true hparams, hbound, hreferences hfree,
    fun comp hc m hu => (hhoists comp (by decide) hc m ⟨0, 4, none⟩ src hu hsrc).2⟩

end ScriptEngine
