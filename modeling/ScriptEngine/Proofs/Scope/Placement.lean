import Mathlib.Data.List.Nodup
import ScriptEngine.Proofs.Scope.Valid

/-!
# Slots of variables

What a finished scope table says about slots, and how many environments lie between two scopes.

* `ScopeTable.Places` is what placing the variables of one scope comes to: of each kind of place the slots
  are numbered one after the other, in the order in which the variables are given.
* `ScopeTable.Finishes` says so of all scopes of a finished table; `ScopeTable.finishes` says that finished
  tables are like that.
* `ScopeTable.Placed`: every variable that is kept in a frame or an environment has a slot of its own
  there, and in an environment the slot has its name (`ScopeTable.placed_finish`).
* `envDepth?_self` and `envDepth?_parent` compute the number of links between the environments of two
  scopes along the chain of scopes.
-/

namespace ScriptEngine

namespace FunctionLayout

/-- The number of slots of a kind. -/
def count (l : FunctionLayout) : Storage → Nat
  | .frame => l.localCount
  | .environment => l.envNames.size
  | .global => 0

/-- A variable in its final place, with the next slot of its kind. -/
def placed (isDynamic : Bool) (l : FunctionLayout) (V : Variable) : Variable :=
  { V with
    storage := finalStorage isDynamic V.storage
    slot := if finalStorage isDynamic V.storage = .global then V.slot
      else l.count (finalStorage isDynamic V.storage) }

/-- **Placing a variable** gives it the next slot of its final kind, and counts this slot. In an environment
the slot has the variable's name. -/
theorem place_spec (isDynamic : Bool) (l : FunctionLayout) (V : Variable) :
    (l.place isDynamic V).2 = l.placed isDynamic V ∧
      (∀ k, (l.place isDynamic V).1.count k =
        l.count k + if k ≠ .global ∧ finalStorage isDynamic V.storage = k then 1 else 0) ∧
      (l.place isDynamic V).1.envNames.toList = l.envNames.toList ++
        if finalStorage isDynamic V.storage = .environment then [V.name] else [] := by
  obtain ⟨name, scope, storage, isDeletable, isClosedOver, isParameter, slot, usages, assigned⟩ := V
  have hcount : ∀ k, ((l.place isDynamic ⟨name, scope, storage, isDeletable, isClosedOver, isParameter, slot,
      usages, assigned⟩).1.count k) =
      l.count k + if k ≠ .global ∧ finalStorage isDynamic storage = k then 1 else 0 := by
    intro k
    cases storage <;> cases isDynamic <;> cases k <;> simp [place, finalStorage, count]
  cases storage with
  | frame =>
    cases isDynamic with
    | false => exact ⟨rfl, hcount, by simp [place, finalStorage]⟩
    | true => exact ⟨rfl, hcount, by simp [place, finalStorage]⟩
  | environment => exact ⟨rfl, hcount, by simp [place, finalStorage]⟩
  | global => exact ⟨rfl, hcount, by simp [place, finalStorage]⟩

end FunctionLayout

namespace ScopeTable

/-- Every scope lies in an earlier one. -/
def Nested (t : ScopeTable) : Prop :=
  ∀ (i : Nat) S, t.scopes[i]? = some S → ∀ p, S.parent = some p → p.index < i

/-! ## Placing the variables of one scope -/

/-- A variable, by its number. -/
def varIn (vars : Array Variable) (v : VarId) : Variable := vars[v.index]?.getD default

/-- Of some variables those that are kept in one kind of place. -/
def storedIn (vars : Array Variable) (k : Storage) (vs : List VarId) : List VarId :=
  vs.filter fun v => (varIn vars v).storage = k

/-- A variable that is there. -/
theorem varIn_eq {vars : Array Variable} {v : VarId} {V : Variable} (hV : vars[v.index]? = some V) :
    varIn vars v = V := by
  rw [varIn, hV]
  rfl

/-- What placing some variables of a scope comes to, one after the other, from one layout to another. -/
structure Places (isDynamic : Bool) (vs : List VarId) (before after : FunctionLayout × Array Variable) :
    Prop where
  /-- A variable is what it was, but in its final place and with a slot. -/
  settled : ∀ v ∈ vs, ∀ V, before.2[v.index]? = some V → ∃ slot, after.2[v.index]? = some
    { V with storage := FunctionLayout.finalStorage isDynamic V.storage, slot }
  /-- The slots of one kind are numbered in order. -/
  slots : ∀ k, k ≠ .global → (storedIn after.2 k vs).map (fun v => (varIn after.2 v).slot) =
    List.range' (before.1.count k) (storedIn after.2 k vs).length
  /-- They are counted. -/
  count : ∀ k, k ≠ .global → after.1.count k = before.1.count k + (storedIn after.2 k vs).length
  /-- In an environment they have the names of the variables. -/
  names : after.1.envNames.toList = before.1.envNames.toList ++
    (storedIn after.2 .environment vs).map fun v => (varIn after.2 v).name

/-- Placing a variable changes that one only. -/
theorem placeVar_others (isDynamic : Bool) (acc : FunctionLayout × Array Variable) {v w : VarId}
    (hne : w ≠ v) : (placeVar isDynamic acc v).2[w.index]? = acc.2[w.index]? := by
  rw [placeVar]
  split
  · refine Array.getElem?_setIfInBounds_ne fun heq => hne ?_
    exact congrArg VarId.mk heq.symm
  · rfl

/-- Placing variables changes no others, and loses none. -/
theorem foldl_placeVar_others (isDynamic : Bool) (vs : List VarId) (acc : FunctionLayout × Array Variable) :
    (vs.foldl (placeVar isDynamic) acc).2.size = acc.2.size ∧
      ∀ w ∉ vs, (vs.foldl (placeVar isDynamic) acc).2[w.index]? = acc.2[w.index]? := by
  induction vs generalizing acc with
  | nil => exact ⟨rfl, fun _ _ => rfl⟩
  | cons v rest ih =>
    obtain ⟨hsize, hothers⟩ := ih (placeVar isDynamic acc v)
    refine ⟨hsize.trans ?_, fun w hw => ?_⟩
    · rw [placeVar]
      split
      · exact Array.size_setIfInBounds
      · rfl
    · have hne : w ≠ v := fun h => hw (h ▸ List.mem_cons_self)
      have hrest : w ∉ rest := fun h => hw (List.mem_cons_of_mem v h)
      exact (hothers w hrest).trans (placeVar_others isDynamic acc hne)

/-- The variables of one kind, with one more in front. -/
theorem storedIn_cons {vars : Array Variable} {v : VarId} {V : Variable} (hV : vars[v.index]? = some V)
    (k : Storage) (rest : List VarId) :
    storedIn vars k (v :: rest) = if V.storage = k then v :: storedIn vars k rest else storedIn vars k rest := by
  rw [storedIn, List.filter_cons, varIn_eq hV]
  by_cases hkind : V.storage = k
  · simp [hkind, storedIn]
  · simp [hkind, storedIn]

/-- **A variable is placed** in front of others. -/
theorem Places.cons {isDynamic : Bool} {v : VarId} {rest : List VarId}
    {before mid after : FunctionLayout × Array Variable} {V : Variable}
    (hV : before.2[v.index]? = some V) (hfirst : mid.1 = (before.1.place isDynamic V).1)
    (hself : after.2[v.index]? = some (before.1.placed isDynamic V))
    (hothers : ∀ w ∈ rest, mid.2[w.index]? = before.2[w.index]?) (hrest : Places isDynamic rest mid after) :
    Places isDynamic (v :: rest) before after := by
  obtain ⟨-, hcount, hnames⟩ := before.1.place_spec isDynamic V
  have hstored : ∀ k, storedIn after.2 k (v :: rest) =
      if FunctionLayout.finalStorage isDynamic V.storage = k then v :: storedIn after.2 k rest
      else storedIn after.2 k rest := fun k => storedIn_cons hself k rest
  refine ⟨fun w hw W hW => ?_, fun k hk => ?_, fun k hk => ?_, ?_⟩
  · rcases List.mem_cons.mp hw with rfl | hw
    · obtain rfl := Option.some.inj (hV.symm.trans hW)
      exact ⟨_, hself⟩
    · exact hrest.settled w hw W ((hothers w hw).trans hW)
  · have hslots := hrest.slots k hk
    rw [hfirst, hcount] at hslots
    rw [hstored]
    by_cases hkind : FunctionLayout.finalStorage isDynamic V.storage = k
    · rw [if_pos ⟨hk, hkind⟩] at hslots
      rw [if_pos hkind, List.map_cons, hslots, List.length_cons, List.range'_succ, varIn_eq hself,
        FunctionLayout.placed, hkind, if_neg hk]
    · rw [if_neg fun h => hkind h.2] at hslots
      rw [if_neg hkind]
      exact hslots
  · rw [hrest.count k hk, hfirst, hcount, hstored]
    by_cases hkind : FunctionLayout.finalStorage isDynamic V.storage = k
    · rw [if_pos ⟨hk, hkind⟩, if_pos hkind, List.length_cons]
      omega
    · rw [if_neg fun h => hkind h.2, if_neg hkind]
      rfl
  · rw [hrest.names, hfirst, hnames, hstored]
    by_cases hkind : FunctionLayout.finalStorage isDynamic V.storage = .environment
    · rw [if_pos hkind, if_pos hkind, List.map_cons, varIn_eq hself, List.append_assoc]
      rfl
    · rw [if_neg hkind, if_neg hkind, List.append_nil]

/-- **The variables of a scope are placed** one after the other. -/
theorem places_foldl (isDynamic : Bool) {vs : List VarId} (hnodup : vs.Nodup)
    (acc : FunctionLayout × Array Variable) (hall : ∀ v ∈ vs, ∃ V, acc.2[v.index]? = some V) :
    Places isDynamic vs acc (vs.foldl (placeVar isDynamic) acc) := by
  induction vs generalizing acc with
  | nil =>
    refine ⟨fun v hv => absurd hv List.not_mem_nil, fun k _ => rfl, fun k _ => rfl, ?_⟩
    exact (List.append_nil _).symm
  | cons v rest ih =>
    obtain ⟨hnew, hrest⟩ := List.nodup_cons.mp hnodup
    obtain ⟨V, hV⟩ := hall v List.mem_cons_self
    obtain ⟨hplaced, -, -⟩ := acc.1.place_spec isDynamic V
    -- The first variable is placed; the others are as they were.
    have hothers : ∀ w ∈ rest, (placeVar isDynamic acc v).2[w.index]? = acc.2[w.index]? := fun w hw =>
      placeVar_others isDynamic acc fun heq => hnew (heq ▸ hw)
    have hfirst : (placeVar isDynamic acc v).1 = (acc.1.place isDynamic V).1 := by rw [placeVar, hV]
    have hself : (placeVar isDynamic acc v).2[v.index]? = some (acc.1.placed isDynamic V) := by
      rw [placeVar, hV, ← hplaced]
      exact Array.getElem?_setIfInBounds_self_of_lt (Array.getElem?_eq_some_iff.mp hV).choose
    rw [List.foldl_cons]
    refine Places.cons hV hfirst ?_ hothers (ih hrest _ fun w hw => ?_)
    · rw [(foldl_placeVar_others isDynamic rest (placeVar isDynamic acc v)).2 v hnew, hself]
    · rw [hothers w hw]
      exact hall w (List.mem_cons_of_mem v hw)

namespace Places

variable {isDynamic : Bool} {vs : List VarId} {before after : FunctionLayout × Array Variable}

/-- Only the variables that are placed matter. -/
theorem congr (h : Places isDynamic vs before after) {before' after' : Array Variable}
    (hbefore : ∀ v ∈ vs, before'[v.index]? = before.2[v.index]?)
    (hafter : ∀ v ∈ vs, after'[v.index]? = after.2[v.index]?) :
    Places isDynamic vs (before.1, before') (after.1, after') := by
  have hvar : ∀ v ∈ vs, varIn after' v = varIn after.2 v := fun v hv => by
    rw [varIn, varIn, hafter v hv]
  have hstored : ∀ k, storedIn after' k vs = storedIn after.2 k vs := fun k =>
    List.filter_congr fun v hv => by rw [hvar v hv]
  have hmap : ∀ {α : Type} (f : Variable → α) k, (storedIn after' k vs).map (fun v => f (varIn after' v)) =
      (storedIn after.2 k vs).map fun v => f (varIn after.2 v) := by
    intro α f k
    rw [hstored]
    exact List.map_congr_left fun v hv => by rw [hvar v (List.mem_of_mem_filter hv)]
  refine ⟨fun v hv V hV => ?_, fun k hk => ?_, fun k hk => ?_, ?_⟩
  · rw [hafter v hv]
    exact h.settled v hv V ((hbefore v hv).symm.trans hV)
  · rw [hmap, hstored]
    exact h.slots k hk
  · rw [hstored]
    exact h.count k hk
  · rw [hmap]
    exact h.names

/-- **Slots are positions**, after those that were given before. -/
theorem slot_eq (h : Places isDynamic vs before after) {k : Storage} (hk : k ≠ .global) {i : Nat} {v : VarId}
    (hv : (storedIn after.2 k vs)[i]? = some v) : (varIn after.2 v).slot = before.1.count k + i := by
  have hslots := congrArg (fun l => l[i]?) (h.slots k hk)
  have hi := (List.getElem?_eq_some_iff.mp hv).choose
  simp only [List.getElem?_map, hv, Option.map_some, List.getElem?_range' hi] at hslots
  simpa using Option.some.inj hslots

end Places

/-! ## Placing the variables of all scopes -/

/-- One more scope is laid out. -/
def layNext (acc : Array Variable × Array Scope) (s : Scope) : Array Variable × Array Scope :=
  let (vars, s) := layOut acc.1 s
  (vars, acc.2.push s)

/-- A scope with its layout. -/
def laidOut (S : Scope) (layout : FunctionLayout) : Scope :=
  { S with localCount := layout.localCount, envNames := layout.envNames }

/-- What has been laid out of the first scopes of a table. -/
structure LaysOut (t : ScopeTable) (n : Nat) (acc : Array Variable × Array Scope) : Prop where
  /-- Scopes are laid out in order. -/
  size : acc.2.size = n
  /-- No variable is lost. -/
  count : acc.1.size = t.vars.size
  /-- A scope that was laid out is what it was, and its variables are placed. -/
  done : ∀ (i : Nat) S, i < n → t.scopes[i]? = some S → ∃ layout, acc.2[i]? = some (laidOut S layout) ∧
    Places S.isDynamic S.order.toList ({}, t.vars) (layout, acc.1)
  /-- The variables of the other scopes are as they were. -/
  others : ∀ (i : Nat) V, t.vars[i]? = some V → n ≤ V.scope.index → acc.1[i]? = some V

/-- **One more scope is laid out**: its variables get their slots, and no other variable changes. -/
theorem LaysOut.step {t : ScopeTable} (hv : t.Valid) {n : Nat} {acc : Array Variable × Array Scope}
    (h : t.LaysOut n acc) {S : Scope} (hS : t.scopes[n]? = some S) : t.LaysOut (n + 1) (layNext acc S) := by
  have hsame : ∀ v ∈ S.order.toList, ∃ V, t.vars[v.index]? = some V ∧ acc.1[v.index]? = some V := by
    intro v hmem
    obtain ⟨V, hV, hscope⟩ := hv.order n S hS v (Array.mem_def.mpr hmem)
    exact ⟨V, hV, h.others v.index V hV (Nat.le_of_eq (by rw [hscope]))⟩
  have hplaces := places_foldl S.isDynamic (hv.nodup n S hS) ({}, acc.1) fun v hmem =>
    (hsame v hmem).imp fun _ hV => hV.2
  obtain ⟨hsize, hkept⟩ := foldl_placeVar_others S.isDynamic S.order.toList ({}, acc.1)
  rw [Array.foldl_toList] at hplaces hsize hkept
  rw [layNext, layOut]
  rcases hresult : S.order.foldl (placeVar S.isDynamic) ({}, acc.1) with ⟨layout, vars⟩
  rw [hresult] at hplaces hsize hkept
  simp only at hsize hkept ⊢
  -- A variable is listed in its own scope only.
  have hapart : ∀ (i : Nat) V, t.vars[i]? = some V → V.scope.index ≠ n → vars[i]? = acc.1[i]? := by
    intro i V hV hne
    refine hkept ⟨i⟩ fun hmem => hne ?_
    obtain ⟨W, hW, hscope⟩ := hv.order n S hS ⟨i⟩ (Array.mem_def.mpr hmem)
    obtain rfl := Option.some.inj (hV.symm.trans hW)
    rw [hscope]
  refine ⟨by simp [h.size], hsize.trans h.count, fun i S' hi hS' => ?_, fun i V hV hle => ?_⟩
  · rw [Array.getElem?_push, h.size]
    by_cases hin : i = n
    · subst hin
      obtain rfl := Option.some.inj (hS.symm.trans hS')
      refine ⟨layout, if_pos rfl, hplaces.congr (fun v hmem => ?_) fun _ _ => rfl⟩
      obtain ⟨V, hV, hV'⟩ := hsame v hmem
      exact hV.trans hV'.symm
    · obtain ⟨layout', hlaid, hplaces'⟩ := h.done i S' (by omega) hS'
      refine ⟨layout', (if_neg hin).trans hlaid, hplaces'.congr (fun _ _ => rfl) fun v hmem => ?_⟩
      obtain ⟨V, hV, hscope⟩ := hv.order i S' hS' v (Array.mem_def.mpr hmem)
      exact hapart v.index V hV (by rw [hscope]; exact hin)
  · rw [hapart i V hV (by omega)]
    exact h.others i V hV (by omega)

/-- What a finished table has of the table that it was made from. -/
structure Finishes (t T : ScopeTable) : Prop where
  /-- No scope is lost and none is added. -/
  scopes : T.scopes.size = t.scopes.size
  /-- Nor is a variable. -/
  vars : T.vars.size = t.vars.size
  /-- A scope is what it was, and its variables are placed. -/
  laid : ∀ (i : Nat) S, t.scopes[i]? = some S → ∃ layout, T.scopes[i]? = some (laidOut S layout) ∧
    Places S.isDynamic S.order.toList ({}, t.vars) (layout, T.vars)

/-- **All scopes are laid out**, each by itself. -/
theorem finishes {t : ScopeTable} (hv : t.Valid) : t.Finishes t.finish := by
  have hfinish : t.finish = ⟨(t.scopes.foldl layNext (t.vars, #[])).2,
      (t.scopes.foldl layNext (t.vars, #[])).1, true⟩ := by
    rw [finish, hv.unfinished]
    rfl
  have h : t.LaysOut t.scopes.size (t.scopes.foldl layNext (t.vars, #[])) := by
    refine Array.foldl_induction t.LaysOut ?_ fun i acc h => ?_
    · exact ⟨rfl, rfl, fun i S hi => absurd hi (Nat.not_lt_zero _), fun i V hV _ => hV⟩
    · exact h.step hv (Array.getElem?_eq_getElem i.isLt)
  rw [hfinish]
  exact ⟨h.size, h.count, fun i S hS => h.done i S (Array.getElem?_eq_some_iff.mp hS).choose hS⟩

namespace Finishes

variable {t T : ScopeTable}

/-- **A variable of a finished table** is what it was, but in its final place and with a slot. It is listed
by its scope. -/
theorem var (h : t.Finishes T) (hv : t.Valid) {i : Nat} {V' : Variable} (hV' : T.vars[i]? = some V') :
    ∃ V S layout, t.vars[i]? = some V ∧ t.scopes[V.scope.index]? = some S ∧
      (⟨i⟩ : VarId) ∈ S.order.toList ∧
      T.scopes[V.scope.index]? = some (laidOut S layout) ∧
      Places S.isDynamic S.order.toList ({}, t.vars) (layout, T.vars) ∧
      V' = { V with storage := FunctionLayout.finalStorage S.isDynamic V.storage, slot := V'.slot } := by
  have hi : i < t.vars.size := by
    rw [← h.vars]
    exact (Array.getElem?_eq_some_iff.mp hV').choose
  have hV := Array.getElem?_eq_getElem hi
  obtain ⟨S, hS, hmem⟩ := hv.listed i _ hV
  obtain ⟨layout, hlaid, hplaces⟩ := h.laid _ S hS
  obtain ⟨slot, hslot⟩ := hplaces.settled ⟨i⟩ (Array.mem_def.mp hmem) _ hV
  obtain rfl := Option.some.inj (hslot.symm.trans hV')
  exact ⟨_, S, layout, hV, hS, Array.mem_def.mp hmem, hlaid, hplaces, rfl⟩

end Finishes

/-- Every variable that is kept in a frame or an environment has a slot of its own there. -/
structure Placed (t : ScopeTable) : Prop where
  /-- A slot of a frame is within the frame of the variable's scope. -/
  frame : ∀ (i : Nat) V, t.vars[i]? = some V → V.storage = .frame →
    V.slot < (t.scope V.scope).localCount
  /-- A slot of an environment is within the environment of the scope, under the variable's name. -/
  env : ∀ (i : Nat) V, t.vars[i]? = some V → V.storage = .environment →
    (t.scope V.scope).envNames[V.slot]? = some V.name
  /-- Two variables of one scope and kind have different slots. -/
  distinct : ∀ (i j : Nat) V W, i ≠ j → t.vars[i]? = some V → t.vars[j]? = some W →
    V.scope = W.scope → V.storage = W.storage → V.storage ≠ .global → V.slot ≠ W.slot
  /-- Properties of the global object are variables of the program. -/
  globals : ∀ (i : Nat) V, t.vars[i]? = some V → V.storage = .global → V.scope = .global

/-- A variable moves at most to the environment. -/
theorem moves_finalStorage (isDynamic : Bool) (k : Storage) :
    k.Moves (FunctionLayout.finalStorage isDynamic k) := by
  cases k with
  | frame =>
    cases isDynamic with
    | false => exact .inl rfl
    | true => exact .inr ⟨rfl, rfl⟩
  | environment => exact .inl rfl
  | global => exact .inl rfl

namespace Finishes

variable {t T : ScopeTable}

/-- **The slot of a variable** that is no property of the global object says where it stands among the
variables of its scope that are kept in the same kind of place. -/
theorem slot (h : t.Finishes T) (hv : t.Valid) {i : Nat} {V : Variable} (hV : T.vars[i]? = some V)
    (hlocal : V.storage ≠ .global) : ∃ S layout, t.scopes[V.scope.index]? = some S ∧
      T.scope V.scope = laidOut S layout ∧ Places S.isDynamic S.order.toList ({}, t.vars) (layout, T.vars) ∧
      (storedIn T.vars V.storage S.order.toList)[V.slot]? = some ⟨i⟩ := by
  obtain ⟨V₀, S, layout, hV₀, hS, hmem, hlaid, hplaces, hrecord⟩ := h.var hv hV
  have hscope : V.scope = V₀.scope := by rw [hrecord]
  have hself : varIn T.vars ⟨i⟩ = V := varIn_eq hV
  have hstored : (⟨i⟩ : VarId) ∈ storedIn T.vars V.storage S.order.toList :=
    List.mem_filter.mpr ⟨hmem, by rw [hself]; exact decide_eq_true rfl⟩
  obtain ⟨j, hj⟩ := List.getElem?_of_mem hstored
  have hslot := hplaces.slot_eq hlocal hj
  rw [hself, show ({} : FunctionLayout).count V.storage = 0 by cases V.storage <;> rfl, Nat.zero_add] at hslot
  refine ⟨S, layout, by rw [hscope]; exact hS, ?_, hplaces, by rw [hslot]; exact hj⟩
  rw [scope, hscope, hlaid]
  rfl

end Finishes

/-- **Finished tables**: scopes lie where they lay, variables move at most to an environment, and every
variable has a slot of its own. -/
theorem placed_finish {t : ScopeTable} (hv : t.Valid) :
    t.Extends t.finish ∧ t.finish.Nested ∧ t.finish.Placed ∧ t.finish.scopes.size = t.scopes.size := by
  have h := finishes hv
  generalize t.finish = T at h
  refine ⟨⟨fun i S hS => ?_, fun i V hV => ?_⟩, fun i S hS p hp => ?_, ⟨fun i V hV hk => ?_,
    fun i V hV hk => ?_, fun i j V W hne hV hW hs hsame hlocal => ?_, fun i V hV hk => ?_⟩, h.scopes⟩
  · obtain ⟨layout, hlaid, -⟩ := h.laid i S hS
    exact ⟨_, hlaid, rfl⟩
  · have hi : i < T.vars.size := by
      rw [h.vars]
      exact (Array.getElem?_eq_some_iff.mp hV).choose
    have hV' := Array.getElem?_eq_getElem hi
    obtain ⟨V₀, S, layout, hV₀, -, -, -, -, hrecord⟩ := h.var hv hV'
    obtain rfl := Option.some.inj (hV.symm.trans hV₀)
    refine ⟨_, hV', by rw [hrecord], by rw [hrecord], ?_⟩
    rw [hrecord]
    exact moves_finalStorage S.isDynamic V.storage
  · have hi : i < t.scopes.size := by
      rw [← h.scopes]
      exact (Array.getElem?_eq_some_iff.mp hS).choose
    have hS₀ := Array.getElem?_eq_getElem hi
    obtain ⟨layout, hlaid, -⟩ := h.laid i _ hS₀
    obtain rfl := Option.some.inj (hS.symm.trans hlaid)
    exact hv.parent i _ hS₀ p hp
  · obtain ⟨S, layout, -, hscope, hplaces, hslot⟩ := h.slot hv hV (by rw [hk]; decide)
    have hcount : layout.localCount = 0 + (storedIn T.vars .frame S.order.toList).length :=
      hplaces.count .frame (by decide)
    rw [hscope, laidOut, hcount, Nat.zero_add, ← hk]
    exact (List.getElem?_eq_some_iff.mp hslot).choose
  · obtain ⟨S, layout, -, hscope, hplaces, hslot⟩ := h.slot hv hV (by rw [hk]; decide)
    rw [hk] at hslot
    rw [hscope, laidOut, ← Array.getElem?_toList, hplaces.names, List.nil_append, List.getElem?_map, hslot,
      Option.map_some, varIn_eq hV]
  · intro heq
    obtain ⟨S, layout, hS, -, -, hslot⟩ := h.slot hv hV hlocal
    obtain ⟨S', layout', hS', -, -, hslot'⟩ := h.slot hv hW (hsame ▸ hlocal)
    rw [hs] at hS
    obtain rfl := Option.some.inj (hS.symm.trans hS')
    rw [heq, hsame] at hslot
    exact hne (VarId.mk.inj (Option.some.inj (hslot.symm.trans hslot')))
  · obtain ⟨V₀, S, layout, hV₀, -, -, -, -, hrecord⟩ := h.var hv hV
    have hmoves := moves_finalStorage S.isDynamic V₀.storage
    have hstorage : V.storage = FunctionLayout.finalStorage S.isDynamic V₀.storage := by rw [hrecord]
    rw [← hstorage] at hmoves
    rw [hrecord]
    exact hv.globals i V₀ hV₀ (hmoves.global hk)

/-- **A variable with a slot of an environment** is in the table, and the slot has its name in the
environment of its scope. -/
theorem Placed.named {t : ScopeTable} (h : t.Placed) {v : VarId} {slot : Nat}
    (hslot : t.slotOf v = .env slot) : t.vars[v.index]? = some (t.var v) ∧
      (t.scope (t.var v).scope).envNames[slot]? = some (t.var v).name ∧
      (t.scope (t.var v).scope).needsEnv = true := by
  rcases hV : t.vars[v.index]? with _ | V
  · simp [slotOf, var, hV, show (default : Variable).storage = .frame from rfl] at hslot
  · have hvar : t.var v = V := by simp [var, hV]
    rw [slotOf, hvar] at hslot
    rcases hstorage : V.storage with _ | _ | _
    · simp [hstorage] at hslot
    · simp only [hstorage, VarSlot.env.injEq] at hslot
      have hname := h.env v.index V hV hstorage
      rw [hslot] at hname
      refine ⟨by rw [hvar], by rw [hvar]; exact hname, ?_⟩
      obtain ⟨hlt, -⟩ := Array.getElem?_eq_some_iff.mp hname
      rw [hvar, Scope.needsEnv, Bool.not_eq_true', Array.isEmpty_eq_false_iff]
      exact Array.ne_empty_of_size_pos (Nat.zero_lt_of_lt hlt)
    · simp [hstorage] at hslot

/-- The scope of a variable that is no property of the global object is there: it has room for it. -/
theorem Placed.inside {t : ScopeTable} (h : t.Placed) {i : Nat} {V : Variable} (hV : t.vars[i]? = some V)
    (hlocal : V.storage ≠ .global) : V.scope.index < t.scopes.size := by
  apply Classical.byContradiction
  intro hout
  have hscope : t.scope V.scope = default := by
    rw [scope, Array.getElem?_eq_none (Nat.le_of_not_lt hout)]
    rfl
  rcases hstorage : V.storage with _ | _ | _
  · have hslot := h.frame i V hV hstorage
    rw [hscope] at hslot
    exact Nat.not_lt_zero _ hslot
  · have hslot := h.env i V hV hstorage
    rw [hscope] at hslot
    cases hslot
  · exact hlocal hstorage

/-- A variable has no slot just if it is a property of the global object. -/
theorem slotOf_eq_global_iff {t : ScopeTable} {v : VarId} {V : Variable} (hV : t.vars[v.index]? = some V) :
    t.slotOf v = .global ↔ V.storage = .global := by
  rw [slotOf, var, hV, Option.getD_some]
  rcases V.storage with _ | _ | _ <;> simp

/-- **Two variables of a scope** that are no properties of the global object are kept in different places. -/
theorem Placed.slotOf_inj {t : ScopeTable} (h : t.Placed) {u v : VarId} {V W : Variable}
    (hV : t.vars[u.index]? = some V) (hW : t.vars[v.index]? = some W) (hscope : V.scope = W.scope)
    (hlocal : V.storage ≠ .global) (heq : t.slotOf u = t.slotOf v) : u = v := by
  obtain ⟨i⟩ := u
  obtain ⟨j⟩ := v
  apply Classical.byContradiction
  intro hne
  have hne : i ≠ j := fun hij => hne (congrArg VarId.mk hij)
  have hdistinct := h.distinct i j V W hne hV hW hscope
  simp only [slotOf, var, hV, hW, Option.getD_some] at heq
  rcases hk : V.storage with _ | _ | _ <;> rcases hk' : W.storage with _ | _ | _ <;>
    simp_all

/-! ## Chains of scopes -/

section

variable {t : ScopeTable}

/-- The steps that a chain is given do not matter if they suffice. -/
theorem Nested.chainWithin_eq (h : t.Nested) {n m : Nat} {s : ScopeId} (hn : s.index < n)
    (hm : s.index < m) : t.chainWithin n (some s) = t.chainWithin m (some s) := by
  induction n generalizing m s with
  | zero => exact absurd hn (Nat.not_lt_zero _)
  | succ n ih =>
    rcases m with _ | m
    · exact absurd hm (Nat.not_lt_zero _)
    · rw [chainWithin, chainWithin]
      rcases hS : t.scopes[s.index]? with _ | S
      · have hparent : (t.scope s).parent = none := by rw [scope, hS]; rfl
        rw [hparent]
        cases n <;> cases m <;> rfl
      · have hscope : t.scope s = S := by rw [scope, hS]; rfl
        rw [hscope]
        rcases hp : S.parent with _ | p
        · cases n <;> cases m <;> rfl
        · have hlt := h s.index S hS p hp
          rw [ih (m := m) (by omega) (by omega)]

/-- **A chain** starts with the scope itself and goes on with the chain of the scope around it. -/
theorem Nested.chain_eq (h : t.Nested) {s : ScopeId} (hs : s.index < t.scopes.size) :
    t.chain s = s :: match (t.scope s).parent with
      | some p => t.chain p
      | none => [] := by
  rw [chain]
  rcases hsize : t.scopes.size with _ | n
  · omega
  · rw [chainWithin]
    have hS := Array.getElem?_eq_getElem hs
    have hscope : t.scope s = t.scopes[s.index] := by rw [scope, hS]; rfl
    rcases hp : (t.scope s).parent with _ | p
    · cases n <;> rfl
    · have hlt := h s.index _ hS p (hscope ▸ hp)
      simp only
      rw [chain, h.chainWithin_eq (n := n) (m := t.scopes.size) (by omega) (by omega)]

/-- A chain leads to earlier scopes. -/
theorem Nested.mem_chain_le (h : t.Nested) {s id : ScopeId} (hs : s.index < t.scopes.size)
    (hid : id ∈ t.chain s) : id.index ≤ s.index := by
  induction hi : s.index using Nat.strongRecOn generalizing s with
  | ind i ih =>
    rw [h.chain_eq hs] at hid
    obtain rfl | hid := List.mem_cons.mp hid
    · exact Nat.le_of_eq hi
    · have hS := Array.getElem?_eq_getElem hs
      rcases hp : (t.scope s).parent with _ | p
      · rw [hp] at hid
        cases hid
      · rw [hp] at hid
        rw [scope, hS] at hp
        have hlt := h s.index _ hS p hp
        exact Nat.le_trans (ih p.index (hi ▸ hlt) (Nat.lt_trans hlt hs) hid rfl) (Nat.le_of_lt (hi ▸ hlt))

/-- The environment of a scope is no links away from itself. -/
theorem Nested.envDepth?_self (h : t.Nested) {s : ScopeId} (hs : s.index < t.scopes.size) :
    t.envDepth? s s = some 0 := by
  rw [envDepth?, h.chain_eq hs]
  simp

/-- **The environment of another scope** is as far away as from the scope around, and one link more if
the scope has an environment of its own. -/
theorem Nested.envDepth?_parent (h : t.Nested) {s d : ScopeId} (hs : s.index < t.scopes.size)
    (hne : s ≠ d) : t.envDepth? s d = (t.scope s).parent.bind fun p =>
      (t.envDepth? p d).map (· + if (t.scope s).needsEnv then 1 else 0) := by
  have hbeq : (s != d) = true := by simpa using hne
  have hdne : ¬ d = s := fun heq => hne heq.symm
  rw [envDepth?, h.chain_eq hs]
  rcases hp : (t.scope s).parent with _ | p
  · simp [hdne]
  · simp only [List.contains_cons, List.takeWhile_cons, hbeq, if_true, List.countP_cons,
      Option.bind_some, envDepth?]
    have hfalse : (d == s) = false := by simpa using hdne
    rw [hfalse, Bool.false_or]
    split
    · rfl
    · rfl

/-- **Of the scopes with environments** at most one is a given number of links away. -/
theorem Nested.envDepth?_inj (h : t.Nested) {s d d' : ScopeId} {n : Nat}
    (hs : s.index < t.scopes.size) (hd : t.envDepth? s d = some n) (hd' : t.envDepth? s d' = some n)
    (henv : (t.scope d).needsEnv) (henv' : (t.scope d').needsEnv) : d = d' := by
  -- The induction is on the scope that is looked from: each step goes one scope outwards.
  induction hi : s.index using Nat.strongRecOn generalizing s n with
  | ind i ih =>
    by_cases hsd : s = d
    · by_cases hsd' : s = d'
      · exact hsd.symm.trans hsd'
      · rw [hsd, h.envDepth?_self (hsd ▸ hs)] at hd
        cases hd
        obtain ⟨p, -, hmap⟩ := Option.bind_eq_some_iff.mp ((h.envDepth?_parent hs hsd').symm.trans hd')
        obtain ⟨k, -, hk⟩ := Option.map_eq_some_iff.mp hmap
        rw [hsd, if_pos henv] at hk
        omega
    · obtain ⟨p, hp, hmap⟩ := Option.bind_eq_some_iff.mp ((h.envDepth?_parent hs hsd).symm.trans hd)
      obtain ⟨k, hk, hn⟩ := Option.map_eq_some_iff.mp hmap
      by_cases hsd' : s = d'
      · rw [hsd', h.envDepth?_self (hsd' ▸ hs)] at hd'
        cases hd'
        rw [hsd', if_pos henv'] at hn
        omega
      · rw [h.envDepth?_parent hs hsd', hp] at hd'
        obtain ⟨k', hk', hn'⟩ := Option.map_eq_some_iff.mp hd'
        have hS := Array.getElem?_eq_getElem hs
        have hscope : t.scope s = t.scopes[s.index] := by rw [scope, hS]; rfl
        have hlt := h s.index _ hS p (hscope ▸ hp)
        exact ih p.index (by omega) (by omega) hk ((show k = k' by omega) ▸ hk') rfl

end

end ScopeTable

end ScriptEngine
