import ScriptEngine.Proofs.Host.History
import ScriptEngine.Proofs.Machine.Retention

/-!
# Scripts cannot alter permanent properties

Whatever code an engine runs, a property that may not be removed is still there afterwards, of the same
kind and with the same flags: an accessor with the same functions, and data with the same value unless that
may be written. `Engine.Scripted.permanent_properties` says so for all engines whose code was compiled and
whose host functions are the built-in ones. These are the engines that a host can make of a new one without
functions and code of its own (`Engine.Scripted.perform`).
-/

namespace ScriptEngine

/-! ## Host functions -/

/-- A host function that retains what is permanent. -/
def Native.Retains (f : Native) : Prop :=
  ∀ call : NativeCall, call.heap.Exact → call.heap.Retains (f call).heap

namespace Builtin

/-- Asking for a property leaves the heap alone. -/
theorem retains_hasOwnProperty : hasOwnProperty.Retains := by
  intro call he
  simp only [hasOwnProperty]
  split
  · exact .refl he
  · exact .refl he

/-- A new object has no properties. -/
theorem retains_create : Native.Retains create := by
  intro call he
  simp only [create]
  split
  · exact he.retains_allocate rfl
  · exact he.retains_allocate rfl
  · exact .refl he

/-- Looking at a prototype leaves the heap alone. -/
theorem retains_getPrototypeOf : getPrototypeOf.Retains := by
  intro call he
  simp only [getPrototypeOf]
  split
  · split
    · exact .refl he
    · exact .refl he
  · exact .refl he

end Builtin

/-- **The built-in functions** retain what is permanent. -/
theorem Realm.natives_retain (id : Nat) (call : NativeCall) (he : call.heap.Exact) :
    call.heap.Retains (Realm.create.2.natives.run id call).heap := by
  refine Realm.native_cases (P := Native.Retains) ?none ?valueOf ?hasOwnProperty ?create ?getPrototypeOf ?eval
    id call he
  case none | valueOf | eval => exact fun _ he => .refl he
  case hasOwnProperty => exact Builtin.retains_hasOwnProperty
  case create => exact Builtin.retains_create
  case getPrototypeOf => exact Builtin.retains_getPrototypeOf

/-! ## Compiled code -/

/-- Every function of a compiled program was made of a source. -/
theorem lays_of_compile {p : Program} {c : Compilation} (h : (compile p).1 = .ok c) {index : Nat}
    {F : CodeFunction} (hF : c.unit.function? index = some F) :
    ∃ (U : Blueprint) (src : Source), U.pool = c.unit.pool ∧ U.Lays F src := by
  have hc : compile p = (.ok c, (compile p).2) := Prod.ext h rfl
  obtain ⟨a, -, -, -, hg⟩ := compile_eq_ok hc
  obtain ⟨hsize, -, hlays⟩ := Blueprint.lays_of_generate hg
  rw [CodeUnit.function?] at hF
  obtain ⟨hlt, -⟩ := Array.getElem?_eq_some_iff.mp hF
  rw [hsize] at hlt
  obtain ⟨G, hG, hsource⟩ := hlays index _ (List.getElem?_eq_getElem hlt)
  obtain rfl := Option.some.inj (hF.symm.trans hG)
  exact ⟨_, _, rfl, hsource⟩

/-! ## Engines -/

/-- The steps of a host that bring in neither host functions nor units that were not compiled. -/
def HostStep.IsPlain : HostStep → Prop
  | .load _ | .registerNative .. | .nativeFunction .. => False
  | _ => True

namespace Engine

/-- An engine whose code was compiled, of any programs, and whose host functions are the built-in ones. Of
its objects, environments, caches and settings nothing is asked but that no slot in use is listed as
vacant. -/
structure Scripted (e : Engine) : Prop where
  /-- Every unit was compiled. -/
  units : ∀ (k : Nat) (u : CodeUnit), e.machine.units[k]? = some u →
    ∃ p c, (ScriptEngine.compile p).1 = .ok c ∧ u = c.unit
  /-- The host functions are those of a new engine. -/
  natives : e.machine.natives = Realm.create.2.natives
  /-- The vacant slots are listed exactly. -/
  heap : e.heap.Exact

/-- The ways in which a host has code run, to an end. -/
inductive Executes (e : Engine) : Engine → Prop where
  /-- A program is compiled and run. -/
  | eval {fuel : Nat} {p : Program} {r : Except EvalError Value} {e' : Engine}
    (h : e.eval fuel p = some (r, e')) : Executes e e'
  /-- A unit is run. -/
  | run {fuel unit : Nat} {r : Except RuntimeError Value} {e' : Engine}
    (h : e.run fuel unit = some (r, e')) : Executes e e'
  /-- Any value is called. -/
  | call {fuel : Nat} {callee this : Value} {args : List Value} {r : Except RuntimeError Value}
    {e' : Engine} (h : e.call fuel callee this args = some (r, e')) : Executes e e'

section

variable {e e' : Engine}

/-- A new engine has no code, and the built-in functions. -/
theorem scripted_create (config : Config) : (create config).Scripted :=
  ⟨fun k u hu => absurd hu (by simp [create]), rfl, Realm.lineal_create.exact⟩

namespace Scripted

/-- The machine of such an engine. -/
theorem machine (he : e.Scripted) : e.machine.Scripted := by
  refine ⟨fun unit index u F hcode => ?_, fun id call hcall => ?_⟩
  · rw [Machine.code] at hcode
    split at hcode
    · cases hcode
    · next u' hu' =>
      obtain ⟨p, c, hc, rfl⟩ := he.units unit u' hu'
      split at hcode
      · cases hcode
      · next G hG =>
        obtain ⟨rfl, rfl⟩ := Prod.mk.inj (Except.ok.inj hcode)
        exact lays_of_compile hc hG
  · rw [he.natives]
    exact Realm.natives_retain id call hcall

/-- Another heap. -/
theorem setHeap (he : e.Scripted) {heap : Heap} (hheap : heap.Exact) : (e.setHeap heap).Scripted :=
  ⟨he.units, he.natives, hheap⟩

/-- **A program is compiled and loaded.** -/
theorem compile (he : e.Scripted) (p : Program) :
    (e.compile p).2.Scripted ∧ (e.compile p).2.heap = e.heap := by
  rw [Engine.compile]
  split
  · exact ⟨he, rfl⟩
  · next c hc =>
    refine ⟨⟨fun k u hu => ?_, he.natives, he.heap⟩, rfl⟩
    simp only [load, Array.getElem?_push] at hu
    split at hu
    · exact ⟨p, c, hc, (Option.some.inj hu).symm⟩
    · exact he.units k u hu

/-- **A run**, which starts without frames. -/
theorem start (he : e.Scripted) {fuel : Nat} {control : Control} {r : Except RuntimeError Value}
    (h : e.start fuel control = some (r, e')) : e.heap.Upholds e'.heap ∧ e'.Scripted := by
  obtain ⟨m, w⟩ := e
  obtain ⟨o, hrun, ho⟩ := Option.map_eq_some_iff.mp h
  obtain ⟨-, rfl⟩ := Prod.mk.inj ho
  have hstart : State.Ready m { world := w, control } := ⟨he.heap, trivial⟩
  have hretains := he.machine.run hstart hrun
  exact ⟨hretains.toUpholds, he.units, he.natives, hretains.exact⟩

/-- **A run of a unit**, after its declarations. -/
theorem run (he : e.Scripted) {fuel unit : Nat} {r : Except RuntimeError Value}
    (h : e.run fuel unit = some (r, e')) : e.heap.Upholds e'.heap ∧ e'.Scripted := by
  rw [Engine.run] at h
  split at h
  · obtain ⟨-, rfl⟩ := Prod.mk.inj (Option.some.inj h)
    exact ⟨.refl he.heap, he⟩
  · next u _ =>
    have hdeclared := he.heap.upholds_declareGlobals e.realm u.globals
    obtain ⟨hupholds, he'⟩ := (he.setHeap hdeclared.exact).start h
    exact ⟨hdeclared.trans hupholds, he'⟩

/-- **Whatever a host has run** upholds what is permanent, and leaves an engine of the same kind. -/
theorem executes (he : e.Scripted) (h : e.Executes e') : e.heap.Upholds e'.heap ∧ e'.Scripted := by
  cases h with
  | @eval fuel p r _ h =>
    obtain ⟨hcompiled, hheap⟩ := he.compile p
    rw [← hheap]
    obtain ⟨error, hcompile⟩ | ⟨unit, e₁, r', hcompile, h⟩ := eval_cases h
    · rw [hcompile] at hcompiled ⊢
      exact ⟨.refl hcompiled.heap, hcompiled⟩
    · rw [hcompile] at hcompiled ⊢
      exact hcompiled.run h
  | run h => exact he.run h
  | call h => exact he.start h

/-- **Any step of a host** but bringing in functions or code of its own leaves an engine of the same
kind. -/
theorem perform (he : e.Scripted) {step : HostStep} (hstep : step.IsPlain) {a : HostAnswer}
    (hp : e.perform step = some (a, e')) : e'.Scripted := by
  cases performs hp with
  | compile p => exact (he.compile p).1
  | load | registerNative | nativeFunction => exact hstep.elim
  | run h => exact (he.run h).2
  | @refused _ p _ _ hcompile =>
    have hcompiled := (he.compile p).1
    rwa [hcompile] at hcompiled
  | @eval _ _ p _ _ _ hcompile h =>
    have hcompiled := (he.compile p).1
    rw [hcompile] at hcompiled
    exact (hcompiled.run h).2
  | call h => exact (he.start h).2
  | readValue => exact he
  | readGetter _ h => exact (he.start h).2
  | setGlobal | allocate | define | write | overwrite | delete => exact he.setHeap (he.heap.perform _)
  | collect keep => exact he.setHeap (he.heap.perform (.collect _ _))
  | resetCaches => exact ⟨he.units, he.natives, he.heap⟩

/-- **What a unit declares** is there after it has run, and stays: it removes none of its own globals. -/
theorem declares (he : e.Scripted) (hglobal : e.heap.isLive e.realm.global = true) {unit : Nat}
    {u : CodeUnit} (hu : e.machine.units[unit]? = some u) {fuel : Nat} {r : Except RuntimeError Value}
    (h : e.run fuel unit = some (r, e')) {name : String} (hname : name ∈ u.globals)
    (hmissing : e.heap.own? e.realm.global name = none) :
    ∃ v, e'.heap.own? e.realm.global name = some (.data v .declared) := by
  rw [Engine.run, hu] at h
  have hdeclared := he.heap.upholds_declareGlobals e.realm u.globals
  have hpermanent := ((he.setHeap hdeclared.exact).start h).1.permanent
  have hown := Heap.own?_declareGlobals hglobal u.globals name
  rw [hmissing, if_pos hname, Option.none_or] at hown
  obtain ⟨q, hq, hfits⟩ := hpermanent _ _ _ hown rfl
  obtain ⟨v, rfl⟩ := hfits.eq_declared
  exact ⟨v, hq⟩

/-- **Scripts cannot alter permanent properties.** Whatever a host has run, and whether it returned or
failed, every property of an object that was there before and that may not be removed is there afterwards:
of the same kind and with the same flags, with the same functions if it is an accessor, and with the same
value if it is data that may not be written. So a function keeps its name and its length, whatever has
become a function has both, and a declared global stays, also one that the unit itself declares when it is
run. -/
theorem permanent_properties (he : e.Scripted) (h : e.Executes e') :
    (∀ x name p, e.heap.own? x name = some p → p.flags.deletable = false →
      ∃ q, e'.heap.own? x name = some q ∧ p.Fits q) ∧
    (∀ x name length, e.heap.Labelled x name length → e'.heap.Labelled x name length) ∧
    (∀ x, (e'.heap.callable? x).isSome →
      (e.heap.callable? x).isSome ∨ ∃ name length, e'.heap.Labelled x name length) ∧
    (∀ name v, e.heap.own? e.realm.global name = some (.data v .declared) →
      ∃ w, e'.heap.own? e.realm.global name = some (.data w .declared)) ∧
    ∀ fuel unit u r, e.machine.units[unit]? = some u → e.run fuel unit = some (r, e') →
      e.heap.isLive e.realm.global = true → ∀ name ∈ u.globals, e.heap.own? e.realm.global name = none →
      ∃ w, e'.heap.own? e.realm.global name = some (.data w .declared) := by
  have hupholds := (he.executes h).1
  refine ⟨hupholds.permanent, fun x name length => hupholds.permanent.labelled, hupholds.functions,
    fun name v hv => ?_, fun fuel unit u r hu hrun hglobal name hname hmissing => ?_⟩
  · obtain ⟨q, hq, hfits⟩ := hupholds.permanent _ _ _ hv rfl
    obtain ⟨w, rfl⟩ := hfits.eq_declared
    exact ⟨w, hq⟩
  · exact he.declares hglobal hu hrun hname hmissing

end Scripted

end

/-- A program that writes the name of `Object.create`. -/
def renamesCreate : Program :=
  ⟨[.assign .none (.member .none (.member .none (.member .none (.this .none) "Object") "create") "name")
    (.literal .none (.bool true))], none, false⟩

/-- The program runs to its end, and `Object.create` has its name. -/
theorem permanent_properties_renamesCreate :
    let e := create { cacheMode := .disabled }
    let e' := ((e.eval 60 renamesCreate).map Prod.snd).getD e
    e.Scripted ∧ e.Executes e' ∧
      e.heap.own? ⟨6, 0⟩ "name" = some (.data (.string "create") .hidden) ∧
      e'.heap.own? ⟨6, 0⟩ "name" = some (.data (.string "create") .hidden) := by
  intro e e'
  have he : e.Scripted := scripted_create { cacheMode := .disabled }
  have hname : e.heap.own? ⟨6, 0⟩ "name" = some (.data (.string "create") .hidden) := by
    decide +kernel
  have hends : (e.eval 60 renamesCreate).isSome = true := by decide +kernel
  obtain ⟨⟨r, e₁⟩, heval⟩ := Option.isSome_iff_exists.mp hends
  have hafter : e' = e₁ := by simp [e', heval]
  have hexecutes : e.Executes e' := hafter ▸ .eval heval
  obtain ⟨q, hq, hfits⟩ := (he.permanent_properties hexecutes).1 ⟨6, 0⟩ "name" _ hname rfl
  exact ⟨he, hexecutes, hname, hfits.eq_hidden ▸ hq⟩

end Engine

end ScriptEngine
