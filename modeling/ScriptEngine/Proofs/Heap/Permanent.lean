import ScriptEngine.Engine
import ScriptEngine.Proofs.Heap.Prototypes
import ScriptEngine.Proofs.Heap.Scripts

/-!
# Permanent properties

A property that may not be removed is *permanent*: the name and the length of a function, and a declared
global variable. Writing, overwriting and removing properties look at the flags of what is there, and
making an object touches no other. Defining a property does not look, and so it is harmless only on an
object that has no permanent property (`Heap.Plain`), as the new object of an object literal.

`Heap.Retains` says what one operation of a script keeps of a heap, with one lemma for each operation.
-/

namespace ScriptEngine

/-! ## Objects -/

/-- Every property of the object may be removed. -/
def Object.Plain (o : Object) : Prop :=
  ∀ name p, o.properties.get? name = some p → p.flags.deletable = true

/-- What one object upholds of another: its permanent properties, and what a call of it runs. -/
structure Object.Upholds (o o' : Object) : Prop where
  /-- A permanent property is there, and fits what it was. -/
  permanent : ∀ name p, o.properties.get? name = some p → p.flags.deletable = false →
    ∃ q, o'.properties.get? name = some q ∧ p.Fits q
  /-- A call of it runs the same. -/
  callable : o'.callable = o.callable

/-- What one object retains of another: it gets no first permanent property, either. -/
structure Object.Retains (o o' : Object) : Prop extends o.Upholds o' where
  /-- Without a permanent property it stays so. -/
  plain : o.Plain → o'.Plain

namespace Object

/-- An object retains all of itself. -/
theorem Retains.refl (o : Object) : o.Retains o :=
  ⟨⟨fun _ p hp _ => ⟨p, hp, .refl p⟩, rfl⟩, fun h => h⟩

/-- One property is set to what fits it, or is new. -/
theorem upholds_defined {o : Object} {name : String} {p : Property}
    (hfits : ∀ q, o.properties.get? name = some q → q.flags.deletable = false → q.Fits p) :
    o.Upholds (o.defined name p) := by
  refine ⟨fun other q hq hd => ?_, rfl⟩
  simp only [defined, PropertyTable.get?_insert]
  by_cases hother : other = name
  · subst hother
    exact ⟨p, if_pos rfl, hfits q hq hd⟩
  · exact ⟨q, by rw [if_neg hother, hq], .refl q⟩

/-- A property that may be removed leaves an object without permanent ones. -/
theorem Plain.defined {o : Object} (h : o.Plain) (name : String) {p : Property}
    (hp : p.flags.deletable = true) : (o.defined name p).Plain := by
  intro other q hq
  simp only [Object.defined, PropertyTable.get?_insert] at hq
  split at hq
  · cases hq
    exact hp
  · exact h other q hq

/-- **Writing** stores under the flags that are there, if they allow it. -/
theorem retains_written (o : Object) (name : String) (v : Value) : o.Retains (o.written name v) := by
  rw [written]
  split
  · next w flags hfound =>
    split
    · next hw =>
      refine ⟨upholds_defined fun q hq _ => ?_, fun hplain => ?_⟩
      · obtain rfl := Option.some.inj (hfound.symm.trans hq)
        exact ⟨rfl, fun hno => absurd (hw.symm.trans hno) (by decide)⟩
      · have hflags : flags.deletable = true := hplain name _ hfound
        exact hplain.defined name hflags
    · exact .refl o
  · exact .refl o
  · next hnone =>
    refine ⟨upholds_defined fun q hq _ => ?_, fun hplain => hplain.defined name rfl⟩
    cases hnone.symm.trans hq

/-- **Overwriting** is writing where a property is there. -/
theorem retains_overwritten (o : Object) (name : String) (v : Value) :
    o.Retains (o.overwritten name v) := by
  rw [overwritten]
  split
  · exact o.retains_written name v
  · exact .refl o

/-- **Removing** a property leaves the permanent ones. -/
theorem retains_deleted (o : Object) (name : String) : o.Retains (o.deleted name) := by
  rw [deleted]
  split
  · next p hfound =>
    split
    · next hd =>
      refine ⟨⟨fun other q hq hno => ?_, rfl⟩, fun hplain other q hq => ?_⟩
      · simp only [PropertyTable.get?_erase]
        by_cases hother : other = name
        · subst hother
          obtain rfl := Option.some.inj (hfound.symm.trans hq)
          exact absurd (hd.symm.trans hno) (by decide)
        · exact ⟨q, by rw [if_neg hother, hq], .refl q⟩
      · simp only [PropertyTable.get?_erase] at hq
        split at hq
        · cases hq
        · exact hplain other q hq
    · exact .refl o
  · exact .refl o

/-- **Defining** a property that may be removed, on an object without a permanent one. -/
theorem Plain.retains_defined {o : Object} (h : o.Plain) (name : String) {p : Property}
    (hp : p.flags.deletable = true) : o.Retains (o.defined name p) := by
  refine ⟨upholds_defined fun q hq hno => ?_, fun _ => h.defined name hp⟩
  exact absurd ((h name q hq).symm.trans hno) (by decide)

end Object

/-! ## Heaps -/

/-- What fits a property that can be neither removed nor written is the same. -/
theorem Property.Fits.eq_hidden {v : Value} {q : Property} (h : (Property.data v .hidden).Fits q) :
    q = .data v .hidden := by
  cases q with
  | accessor g s f => exact h.elim
  | data w f =>
    obtain ⟨rfl, hv⟩ := h
    rw [hv rfl]

/-- What fits a declared variable is one. -/
theorem Property.Fits.eq_declared {v : Value} {q : Property} (h : (Property.data v .declared).Fits q) :
    ∃ w, q = .data w .declared := by
  cases q with
  | accessor g s f => exact h.elim
  | data w f =>
    obtain ⟨rfl, -⟩ := h
    exact ⟨w, rfl⟩

namespace Heap

/-- There is an object, and all its properties may be removed. -/
def Plain (heap : Heap) (h : Handle) : Prop := ∃ o, heap.get? h = some o ∧ o.Plain

/-- The object has a name and a length as functions have them. -/
structure Labelled (heap : Heap) (h : Handle) (name : String) (length : Number) : Prop where
  /-- The name. -/
  name : heap.own? h "name" = some (.data (.string name) .hidden)
  /-- The length. -/
  length : heap.own? h "length" = some (.data (.number length) .hidden)

/-- **Permanent properties** are there, with the same kind and the same flags: an accessor with the same
functions, and data with the same value unless that may be written. -/
def KeepsPermanent (a b : Heap) : Prop :=
  ∀ h name p, a.own? h name = some p → p.flags.deletable = false →
    ∃ q, b.own? h name = some q ∧ p.Fits q

/-- What one heap upholds of another. -/
structure Upholds (a b : Heap) : Prop where
  /-- The vacant slots are listed exactly. -/
  exact : b.Exact
  /-- Permanent properties are there. -/
  permanent : a.KeepsPermanent b
  /-- What has become a function has a name and a length. -/
  functions : ∀ h, (b.callable? h).isSome →
    (a.callable? h).isSome ∨ ∃ name length, b.Labelled h name length

/-- What one heap retains of another: an object without permanent properties stays so, too. -/
structure Retains (a b : Heap) : Prop extends a.Upholds b where
  /-- There is no first permanent property on an object. -/
  plain : ∀ h, a.Plain h → b.Plain h

section

variable {a b c heap : Heap} {h k : Handle}

/-- A name and a length stay. -/
theorem KeepsPermanent.labelled (hab : a.KeepsPermanent b) {name : String} {length : Number}
    (ha : a.Labelled h name length) : b.Labelled h name length := by
  obtain ⟨q, hq, hfits⟩ := hab h "name" _ ha.name rfl
  obtain ⟨r, hr, hfits'⟩ := hab h "length" _ ha.length rfl
  exact ⟨hfits.eq_hidden ▸ hq, hfits'.eq_hidden ▸ hr⟩

/-- A heap upholds all of itself. -/
theorem Upholds.refl (he : heap.Exact) : heap.Upholds heap :=
  ⟨he, fun _ _ p hp _ => ⟨p, hp, .refl p⟩, fun _ hh => .inl hh⟩

/-- Upholding is transitive. -/
theorem Upholds.trans (hab : a.Upholds b) (hbc : b.Upholds c) : a.Upholds c := by
  refine ⟨hbc.exact, fun h name p hp hd => ?_, fun h hh => ?_⟩
  · obtain ⟨q, hq, hpq⟩ := hab.permanent h name p hp hd
    have hflags : q.flags = p.flags := by
      cases p <;> cases q <;> first
        | exact hpq.elim
        | exact hpq.1.symm
        | exact hpq.2.2.symm
    obtain ⟨r, hr, hqr⟩ := hbc.permanent h name q hq (hflags ▸ hd)
    exact ⟨r, hr, hpq.trans hqr⟩
  · obtain hb | hlabel := hbc.functions h hh
    · obtain ha | ⟨name, length, hlabel⟩ := hab.functions h hb
      · exact .inl ha
      · exact .inr ⟨name, length, hbc.permanent.labelled hlabel⟩
    · exact .inr hlabel

/-- A heap retains all of itself. -/
theorem Retains.refl (he : heap.Exact) : heap.Retains heap := ⟨.refl he, fun _ hh => hh⟩

/-- The same heap. -/
theorem Retains.of_eq (ha : a.Exact) (h : b = a) : a.Retains b := by
  rw [h]
  exact .refl ha

/-- Retaining is transitive. -/
theorem Retains.trans (hab : a.Retains b) (hbc : b.Retains c) : a.Retains c :=
  ⟨hab.toUpholds.trans hbc.toUpholds, fun h hh => hbc.plain h (hab.plain h hh)⟩

/-! ### Operations -/

/-- An object after a change of one object, which may be this one. -/
theorem get?_edit_of_live (step : HeapStep) {f : Object → Object} (hedit : step.edit? = some (k, f))
    {o : Object} (ho : heap.get? h = some o) :
    (heap.perform step).get? h = some (if k = h then f o else o) := by
  rw [get?_edit hedit, ho, Option.map_some, HeapStep.revise, hedit]

/-- **A change of one object** upholds what the object does. -/
theorem Exact.upholds_edit (he : heap.Exact) (step : HeapStep) {f : Object → Object}
    (hedit : step.edit? = some (k, f)) (hf : ∀ o, heap.get? k = some o → o.Upholds (f o)) :
    heap.Upholds (heap.perform step) := by
  have hobject : ∀ h o, heap.get? h = some o →
      ∃ o', (heap.perform step).get? h = some o' ∧ o.Upholds o' := by
    intro h o ho
    refine ⟨_, get?_edit_of_live step hedit ho, ?_⟩
    split
    · next hk => exact hf o (hk ▸ ho)
    · exact (Object.Retains.refl o).toUpholds
  refine ⟨he.edit hedit, fun h name p hp hd => ?_, fun h hh => .inl ?_⟩
  · obtain ⟨o, ho, hp⟩ := Option.bind_eq_some_iff.mp hp
    obtain ⟨o', ho', hupholds⟩ := hobject h o ho
    obtain ⟨q, hq, hfits⟩ := hupholds.permanent name p hp hd
    exact ⟨q, Option.bind_eq_some_iff.mpr ⟨o', ho', hq⟩, hfits⟩
  · rw [callable?] at hh ⊢
    rcases ho : heap.get? h with _ | o
    · rw [get?_edit hedit, ho] at hh
      exact hh
    · obtain ⟨o', ho', hupholds⟩ := hobject h o ho
      rw [ho', Option.bind_some, hupholds.callable] at hh
      exact hh

/-- **A change of one object** retains what the object does. -/
theorem Exact.retains_edit (he : heap.Exact) (step : HeapStep) {f : Object → Object}
    (hedit : step.edit? = some (k, f)) (hf : ∀ o, heap.get? k = some o → o.Retains (f o)) :
    heap.Retains (heap.perform step) := by
  refine ⟨he.upholds_edit step hedit fun o ho => (hf o ho).toUpholds, fun h hh => ?_⟩
  obtain ⟨o, ho, hplain⟩ := hh
  refine ⟨_, get?_edit_of_live step hedit ho, ?_⟩
  split
  · next hk => exact (hf o (hk ▸ ho)).plain hplain
  · exact hplain

/-- **Writing a property.** -/
theorem Exact.retains_write (he : heap.Exact) (h : Handle) (name : String) (v : Value) :
    heap.Retains (heap.write h name v).2 :=
  he.retains_edit (.write h name v) rfl fun o _ => o.retains_written name v

/-- **Overwriting a property.** -/
theorem Exact.retains_overwrite (he : heap.Exact) {heap' : Heap} {name : String} {v : Value}
    (hdone : heap.overwrite? h name v = some heap') : heap.Retains heap' := by
  have hstep := he.retains_edit (.overwrite h name v) rfl fun o _ => o.retains_overwritten name v
  rwa [Heap.perform, hdone, Option.getD_some] at hstep

/-- **Removing a property.** -/
theorem Exact.retains_delete (he : heap.Exact) (h : Handle) (name : String) :
    heap.Retains (heap.delete h name).2 :=
  he.retains_edit (.delete h name) rfl fun o _ => o.retains_deleted name

/-- **Defining a property** as a script does, on an object without a permanent one. -/
theorem Exact.retains_define (he : heap.Exact) (hplain : heap.Plain h) (name : String) (v : Value) :
    heap.Retains (heap.define h name (.data v .default)).2 := by
  refine he.retains_edit (.define h name (.data v .default)) rfl fun o ho => ?_
  obtain ⟨o', ho', hplain⟩ := hplain
  obtain rfl := Option.some.inj (ho'.symm.trans ho)
  exact hplain.retains_defined name rfl

/-- **A new object** may be given any properties: every other object is as it was. -/
theorem Retains.of_new (hb : b.Exact) (hnew : a.isLive k = false)
    (hsame : ∀ h, h ≠ k → b.get? h = a.get? h)
    (hlabel : (b.callable? k).isSome → ∃ name length, b.Labelled k name length) : a.Retains b := by
  have hne : ∀ h o, a.get? h = some o → h ≠ k := by
    rintro h o ho rfl
    rw [isLive, ho] at hnew
    cases hnew
  refine ⟨⟨hb, fun h name p hp _ => ?_, fun h hh => ?_⟩, fun h hh => ?_⟩
  · obtain ⟨o, ho, hp⟩ := Option.bind_eq_some_iff.mp hp
    exact ⟨p, by rw [own?, hsame h (hne h o ho), ho, Option.bind_some, hp], .refl p⟩
  · by_cases hk : h = k
    · subst hk
      exact .inr (hlabel hh)
    · rw [callable?, hsame h hk] at hh
      exact .inl hh
  · obtain ⟨o, ho, hplain⟩ := hh
    exact ⟨o, by rw [hsame h (hne h o ho), ho], hplain⟩

/-- **Making an object** that is no function. -/
theorem Exact.retains_allocate (he : heap.Exact) {o : Object} (ho : o.callable = none) :
    heap.Retains (heap.allocate o).2 := by
  refine .of_new (he.allocate o) (he.isLive_issued o) (fun h => he.get?_allocate_of_ne o) fun hh => ?_
  rw [callable?, get?_allocate he, Option.bind_some, ho] at hh
  cases hh

/-- A definition on an object is there. -/
theorem get?_define_self {o : Object} (ho : heap.get? h = some o) (name : String) (p : Property) :
    (heap.define h name p).2.get? h = some (o.defined name p) :=
  (get?_edit_of_live (.define h name p) rfl ho).trans (by rw [if_pos rfl])

/-- A definition is seen on its own object only. -/
theorem get?_define_of_ne (hne : h ≠ k) (name : String) (p : Property) :
    (heap.define k name p).2.get? h = heap.get? h := by
  have hedit : (heap.perform (.define k name p)).get? h = _ := get?_edit rfl h
  have hrevise : (HeapStep.define k name p).revise h = id := by
    funext o
    exact if_neg (Ne.symm hne)
  rw [hrevise, Option.map_id, id] at hedit
  exact hedit

/-! ### Declarations -/

/-- A global that is missing is declared, and one that is there is left as it is. -/
theorem Exact.upholds_declareGlobal (he : heap.Exact) (r : Realm) (name : String) :
    heap.Upholds (Engine.declareGlobal r heap name) := by
  rw [Engine.declareGlobal]
  split
  · exact .refl he
  · next hmissing =>
    refine he.upholds_edit (.define r.global name (.data .undefined .declared)) rfl
      fun o ho => Object.upholds_defined fun q hq _ => absurd ?_ hmissing
    rw [own?, ho, Option.bind_some, hq, Option.isSome_some]

/-- **Declarations** leave what is there as it is. -/
theorem Exact.upholds_declareGlobals (he : heap.Exact) (r : Realm) (names : Array String) :
    heap.Upholds (names.foldl (Engine.declareGlobal r) heap) := by
  rw [← Array.foldl_toList]
  induction names.toList generalizing heap with
  | nil => exact .refl he
  | cons name rest ih =>
    have hfirst := he.upholds_declareGlobal r name
    exact hfirst.trans (ih hfirst.exact)

/-- A declaration of one global. -/
theorem own?_declareGlobal {r : Realm} (hglobal : heap.isLive r.global = true) (name other : String) :
    (Engine.declareGlobal r heap name).isLive r.global = true ∧
      (Engine.declareGlobal r heap name).own? r.global other = (heap.own? r.global other).or
        (if other = name then some (.data .undefined .declared) else none) := by
  obtain ⟨o, ho⟩ := Option.isSome_iff_exists.mp hglobal
  have hown : ∀ x, heap.own? r.global x = o.properties.get? x := fun x => by
    rw [own?, ho, Option.bind_some]
  rw [Engine.declareGlobal]
  by_cases hother : other = name
  · subst hother
    rw [if_pos rfl]
    rcases hfound : heap.own? r.global other with _ | p
    · have hdefined := get?_define_self ho other (.data .undefined .declared)
      refine ⟨by simp [isLive, hdefined], ?_⟩
      simp [own?, hdefined, Object.defined]
    · exact ⟨hglobal, by simp [hfound]⟩
  · rw [if_neg hother, Option.or_none]
    split
    · exact ⟨hglobal, rfl⟩
    · have hdefined := get?_define_self ho name (.data .undefined .declared)
      refine ⟨by simp [isLive, hdefined], ?_⟩
      rw [own?, hdefined, hown]
      simp [Object.defined, hother]

/-- **Declared globals** are there, and cannot be removed unless they were there before. -/
theorem own?_declareGlobals {r : Realm} (hglobal : heap.isLive r.global = true) (names : Array String)
    (other : String) :
    (names.foldl (Engine.declareGlobal r) heap).own? r.global other = (heap.own? r.global other).or
      (if other ∈ names then some (.data .undefined .declared) else none) := by
  simp only [← Array.foldl_toList, ← Array.mem_toList_iff]
  induction names.toList generalizing heap with
  | nil => simp
  | cons name rest ih =>
    obtain ⟨hlive, hown⟩ := own?_declareGlobal hglobal name other
    rw [List.foldl_cons, ih hlive, hown, Option.or_assoc]
    congr 1
    by_cases hother : other = name <;> by_cases hrest : other ∈ rest <;> simp [hother, hrest]

end

end Heap

namespace Realm

variable {heap : Heap}

/-- Making a function object touches no other one. -/
theorem get?_newFunction_of_ne (he : heap.Exact) (r : Realm) (callable : Callable) (name : String) (length : Nat)
    {k : Handle} (hne : k ≠ (r.newFunction heap callable name length).1) :
    (r.newFunction heap callable name length).2.get? k = heap.get? k :=
  (Heap.get?_define_of_ne hne _ _).trans
    ((Heap.get?_define_of_ne hne _ _).trans (he.get?_allocate_of_ne _ hne))

/-- A call of a function object runs what it was made for. -/
theorem callable?_newFunction (he : heap.Exact) (r : Realm) (callable : Callable) (name : String)
    (length : Nat) :
    (r.newFunction heap callable name length).2.callable? (r.newFunction heap callable name length).1 =
      some callable := by
  have hmade := Heap.get?_allocate he
    { prototype := some r.functionPrototype, callable := some callable }
  have hname := Heap.get?_define_self hmade "name" (.data (.string name) .hidden)
  have hlength := Heap.get?_define_self hname "length" (.data (.number (.ofNat length)) .hidden)
  rw [newFunction, Heap.callable?, hlength, Option.bind_some]
  rfl

/-- **A function object** has its name and its length. -/
theorem labelled_newFunction (he : heap.Exact) (r : Realm) (callable : Callable) (name : String)
    (length : Nat) :
    (r.newFunction heap callable name length).2.Labelled (r.newFunction heap callable name length).1
      name (.ofNat length) := by
  have hmade := Heap.get?_allocate he
    { prototype := some r.functionPrototype, callable := some callable }
  have hname := Heap.get?_define_self hmade "name" (.data (.string name) .hidden)
  have hlength := Heap.get?_define_self hname "length" (.data (.number (.ofNat length)) .hidden)
  constructor
  · rw [newFunction, Heap.own?, hlength, Option.bind_some]
    simp [Object.defined]
  · rw [newFunction, Heap.own?, hlength, Option.bind_some]
    simp [Object.defined]

/-- **Making a function object.** -/
theorem retains_newFunction (he : heap.Exact) (r : Realm) (callable : Callable) (name : String)
    (length : Nat) : heap.Retains (r.newFunction heap callable name length).2 := by
  let o : Object := { prototype := some r.functionPrototype, callable := some callable }
  refine .of_new (k := (heap.allocate o).1) ?_ (he.isLive_issued o)
    (fun h hne => get?_newFunction_of_ne he r callable name length hne) fun _ =>
    ⟨_, _, labelled_newFunction he r callable name length⟩
  exact ((he.allocate o).perform (.define _ "name" (.data (.string name) .hidden))).perform
    (.define _ "length" (.data (.number (.ofNat length)) .hidden))

/-- A new object has no property at all. -/
theorem plain_newObject (he : heap.Exact) (r : Realm) :
    (r.newObject heap).2.Plain (r.newObject heap).1 :=
  ⟨_, Heap.get?_allocate he _, fun _ _ h => by cases h⟩

/-- **Making a plain object.** -/
theorem retains_newObject (he : heap.Exact) (r : Realm) : heap.Retains (r.newObject heap).2 :=
  he.retains_allocate rfl

/-- **Making what a handler receives.** -/
theorem retains_caughtValue (he : heap.Exact) (r : Realm) (e : RuntimeError) :
    heap.Retains (r.caughtValue heap e).2 := by
  cases e with
  | thrown v => exact .refl he
  | _ =>
    have hmade := r.retains_newObject he
    have hplain := r.plain_newObject he
    have hname := fun v => hmade.exact.retains_define hplain "name" v
    have hmessage := fun v w => (hname v).exact.retains_define ((hname v).plain _ hplain) "message" w
    exact (hmade.trans (hname _)).trans (hmessage _ _)

end Realm

end ScriptEngine
