import ScriptEngine.Machine.Execute
import ScriptEngine.Proofs.Heap.Locality
import ScriptEngine.Proofs.Machine.Chain

/-!
# What is written to a name is read back

A name that is looked up at run time stands for a slot of an environment, for a property of an object on
the chain of environments, or for one of the global object. A write goes to that object itself, while a
lookup takes in whatever the objects inherit; so the write may make the name stand for something else than
before: for a property of an object further in, which inherits from the one that was written to.

* **slot** — a write changes no links and no names, so the name still stands for the slot.
* **property** — an object that has the property only since the write inherits it from there, so what is
  read on it is the value.

The main statement is `Machine.setName_reads_back`.
-/

namespace ScriptEngine

namespace Environments

/-! ## Names after a slot was set -/

/-- Setting a slot changes no link. -/
theorem chain_setSlot (es : Environments) (id : EnvId) (slot : Nat) (v : Value) (start : EnvId) :
    (es.setSlot id slot v).chain start = es.chain start := by
  have hevolves := es.evolves_setSlot id slot v
  fun_induction es.chain start with
  | case1 start hget => rw [chain, get?_setSlot, hget, Option.map_none]
  | case2 start E hget hparent =>
    obtain ⟨E', hget', -, hparent', -⟩ := hevolves.2 start E hget
    rw [chain]
    simp only [hget', hparent'.trans hparent]
  | case3 start E hget p hparent hlt ih =>
    obtain ⟨E', hget', -, hparent', -⟩ := hevolves.2 start E hget
    rw [chain]
    simp only [hget', hparent'.trans hparent, if_pos hlt, ih]
  | case4 start E hget p hparent hlt =>
    obtain ⟨E', hget', -, hparent', -⟩ := hevolves.2 start E hget
    rw [chain]
    simp only [hget', hparent'.trans hparent, if_neg hlt]

/-- **Setting a slot changes what no name stands for.** -/
theorem resolve_setSlot (es : Environments) (id : EnvId) (slot : Nat) (v : Value) (heap : Heap)
    (start : EnvId) (name : String) :
    (es.setSlot id slot v).resolve heap start name = es.resolve heap start name := by
  have hbinding : (es.setSlot id slot v).bindingAt? heap name = es.bindingAt? heap name := by
    funext other
    have hkind : ((es.setSlot id slot v).get? other).map Environment.kind =
        (es.get? other).map Environment.kind := by
      rw [get?_setSlot, Option.map_map]
      refine congrArg (Option.map · _) (funext fun E => ?_)
      show (if other = id then _ else _ : Environment).kind = _
      split <;> rfl
    rw [bindingAt?, bindingAt?, hkind]
  rw [resolve, resolve, chain_setSlot, hbinding]

/-- A slot that there is not cannot be set. -/
theorem setSlot_of_not_hasSlot {es : Environments} {id : EnvId} {slot : Nat}
    (hslot : es.hasSlot id slot = false) (v : Value) : es.setSlot id slot v = es := by
  obtain ⟨store⟩ := es
  refine congrArg Environments.mk (Array.ext_getElem? fun i => ?_)
  rw [Array.getElem?_modify]
  split
  · next hi =>
    subst hi
    rcases hget : store[id.index]? with _ | E
    · rfl
    · have hbeyond : E.slots.size ≤ slot := by
        simpa [hasSlot, slot?, get?, hget] using hslot
      rw [Option.map_some, Array.setIfInBounds_eq_of_size_le hbeyond]
  · rfl

end Environments

/-! ## Names after a value was put into an object -/

namespace Heap

variable {a b : Heap} {h : Handle} {name : String} {v : Value} {flags : PropertyFlags}

/-- A lookup on the object itself comes by it first. -/
theorem intercepts_self (heap : Heap) (h : Handle) (name : String) : heap.Intercepts h name h := by
  refine ⟨List.mem_cons_self, fun k _ => ?_⟩
  rw [lookupPath, List.idxOf_cons_self]
  exact Nat.zero_le _

namespace Redefines

/-- Where the value was put in, it is read. -/
theorem read_self (hab : a.Redefines b h name (some (.data v flags))) (ha : a.Acyclic) :
    b.read h name = .value v := by
  rw [hab.read_of_data ha, if_pos (a.intercepts_self h name)]

/-- No object loses the property. -/
theorem hasProperty (hab : a.Redefines b h name (some (.data v flags))) (ha : a.Acyclic) {r : Handle}
    (hr : a.hasProperty r name = true) : b.hasProperty r name = true := by
  rw [Heap.hasProperty, hab.holder?_of_some ha]
  split
  · rfl
  · exact hr

/-- **An object that has gained the property** inherits it from where the value was put in, and so this
value is what it reads. -/
theorem read_of_gained (hab : a.Redefines b h name (some (.data v flags))) (ha : a.Acyclic) {r : Handle}
    (hlacked : a.hasProperty r name = false) (hr : b.hasProperty r name = true) :
    b.read r name = .value v := by
  rw [hab.read_of_data ha]
  split
  · rfl
  · next hpass =>
    -- A lookup that does not come by the object finds what it found before, which is nothing.
    rw [Heap.hasProperty, hab.holder?_of_some ha, if_neg hpass, ← Heap.hasProperty, hlacked] at hr
    cases hr

end Redefines

end Heap

namespace Environments

variable {heap after : Heap} {h : Handle} {name : String} {v : Value} {flags : PropertyFlags}

/-- **One environment after the write**: it binds what it did, or it has come to bind the name to an object
that reads as the value. -/
theorem bindingAt?_of_data (es : Environments)
    (hchange : heap.Redefines after h name (some (.data v flags))) (ha : heap.Acyclic) (id : EnvId) :
    es.bindingAt? after name id = es.bindingAt? heap name id ∨
      es.bindingAt? heap name id = none ∧
        ∃ r, es.bindingAt? after name id = some (.property r) ∧ after.read r name = .value v := by
  rw [bindingAt?, bindingAt?]
  rcases (es.get? id).map Environment.kind with _ | names | r
  · exact .inl rfl
  · exact .inl rfl
  · simp only
    rcases hwas : heap.hasProperty r name with _ | _
    · rcases his : after.hasProperty r name with _ | _
      · exact .inl rfl
      · exact .inr ⟨rfl, r, rfl, hchange.read_of_gained ha hwas his⟩
    · rw [hchange.hasProperty ha hwas]
      exact .inl rfl

/-- **A chain after the write** to the object that the name stood for, or to one that it stands for if the
chain does not bind it: the first environment that binds the name leads to the value, or none binds it as
none did. -/
theorem findSome?_of_data (es : Environments)
    (hchange : heap.Redefines after h name (some (.data v flags))) (ha : heap.Acyclic)
    {chain : List EnvId}
    (hbefore : (chain.findSome? (es.bindingAt? heap name)).getD .unbound = .property h ∨
      (chain.findSome? (es.bindingAt? heap name)).getD .unbound = .unbound) :
    (∃ r, (chain.findSome? (es.bindingAt? after name)).getD .unbound = .property r ∧
        after.read r name = .value v) ∨
      (chain.findSome? (es.bindingAt? heap name)).getD .unbound = .unbound ∧
        (chain.findSome? (es.bindingAt? after name)).getD .unbound = .unbound := by
  induction chain with
  | nil => exact .inr ⟨rfl, rfl⟩
  | cons id chain ih =>
    rw [List.findSome?_cons] at hbefore ⊢
    rw [List.findSome?_cons]
    rcases es.bindingAt?_of_data hchange ha id with hsame | ⟨hnone, r, hr, hread⟩
    · rw [hsame]
      rcases hhere : es.bindingAt? heap name id with _ | binding
      · rw [hhere] at hbefore
        exact ih hbefore
      · rw [hhere] at hbefore
        simp only [Option.getD_some] at hbefore ⊢
        rcases hbefore with rfl | rfl
        · exact .inl ⟨h, rfl, hchange.read_self ha⟩
        · exact .inr ⟨rfl, rfl⟩
    · -- The environment has come to bind the name, and hides all that are further out.
      rw [hr]
      exact .inl ⟨r, rfl, hread⟩

end Environments

/-! ## Writing a name -/

namespace World

variable {w : World} {env : Option EnvId} {h : Handle} {name : String} {v : Value}

/-- A write changes the heap only. -/
theorem write_eq (w : World) (h : Handle) (name : String) (v : Value) :
    w.write h name v = ((w.heap.write h name v).1, { w with heap := (w.heap.write h name v).2 }) := rfl

/-- A write that is not stored changes nothing. -/
theorem write_of_not_stored (hnot : (w.write h name v).1 ≠ .stored) : (w.write h name v).2 = w := by
  have hsame : (w.heap.write h name v).2 = w.heap := by
    have hwrites := w.heap.writes h name v
    rw [write_eq] at hnot
    generalize w.heap.write h name v = result at hwrites hnot
    obtain ⟨outcome, after⟩ := result
    -- Only where the value is stored is the heap another one.
    cases hwrites with
    | missing => rfl
    | fixed => rfl
    | readOnly => rfl
    | setter => rfl
    | replaced => exact absurd rfl hnot
    | added => exact absurd rfl hnot
  rw [write_eq, hsame]

/-- **What a name stands for after a write** to the object that it stood for, or to one that it stands for if
no environment binds it. -/
theorem resolve_write (ha : w.heap.Acyclic) (hstored : (w.write h name v).1 = .stored)
    (hbefore : w.resolve env name = .property h ∨ w.resolve env name = .unbound) :
    (w.write h name v).2.heap.read h name = .value v ∧
      ((∃ r, (w.write h name v).2.resolve env name = .property r ∧
          (w.write h name v).2.heap.read r name = .value v) ∨
        w.resolve env name = .unbound ∧ (w.write h name v).2.resolve env name = .unbound) := by
  obtain ⟨flags, hchange⟩ : ∃ flags, w.heap.Redefines (w.write h name v).2.heap h name
      (some (.data v flags)) := by
    have hwrites := w.heap.writes h name v
    rw [write_eq] at hstored ⊢
    generalize w.heap.write h name v = result at hwrites hstored
    obtain ⟨outcome, after⟩ := result
    obtain rfl : outcome = .stored := hstored
    cases hwrites with
    | replaced own writable change => exact ⟨_, change⟩
    | added live own change => exact ⟨_, change⟩
  refine ⟨hchange.read_self ha, ?_⟩
  rcases env with _ | id
  · exact .inr ⟨rfl, rfl⟩
  · exact w.envs.findSome?_of_data hchange ha hbefore

end World

namespace Machine

variable {m : Machine} {w : World} {f g : Frame} {name : String} {v : Value}

/-- **A write of a name is stored** if the slot is there that the name stands for, or the object takes the
value. -/
def Stores (m : Machine) (w : World) (f : Frame) (name : String) (v : Value) : Prop :=
  (m.writeName w f name v).1.1 = .stored ∧
    ∀ id slot, w.resolve f.env name = .slot id slot → w.envs.hasSlot id slot = true

/-- A write that is not stored changes nothing. -/
theorem writeName_of_not_stores (hnot : ¬ m.Stores w f name v) : (m.writeName w f name v).2 = w := by
  rw [Stores] at hnot
  rw [writeName] at hnot ⊢
  rcases hbefore : w.resolve f.env name with ⟨id, slot⟩ | h | _
  · have hslot : w.envs.hasSlot id slot = false := by
      rw [hbefore] at hnot
      by_contra hhas
      refine hnot ⟨rfl, ?_⟩
      rintro _ _ ⟨⟩
      simpa using hhas
    show { w with envs := w.envs.setSlot id slot v } = w
    rw [Environments.setSlot_of_not_hasSlot hslot]
  · rw [hbefore] at hnot
    exact World.write_of_not_stored fun hstored => hnot ⟨hstored, fun _ _ h => nomatch h⟩
  · rw [hbefore] at hnot
    exact World.write_of_not_stored fun hstored => hnot ⟨hstored, fun _ _ h => nomatch h⟩

/-- **A write that is stored is read back.** -/
theorem readName_of_stores (ha : w.heap.Acyclic) (hstores : m.Stores w f name v) (hg : g.env = f.env) :
    (m.readName (m.writeName w f name v).2 g name).1 = .value v := by
  obtain ⟨hstored, hslot⟩ := hstores
  rw [readName, hg]
  rw [writeName] at hstored ⊢
  rcases hbefore : w.resolve f.env name with ⟨id, slot⟩ | h | _
  · have hafter :
        World.resolve { w with envs := w.envs.setSlot id slot v } f.env name = .slot id slot := by
      rw [← hbefore]
      rcases f.env with _ | start
      · rfl
      · exact Environments.resolve_setSlot ..
    simp only [hafter, Environments.getSlot, Environments.slot?_setSlot, hslot id slot hbefore, and_self,
      if_true, Option.getD_some]
  · rw [hbefore] at hstored
    obtain ⟨-, ⟨r, hafter, hread⟩ | ⟨hunbound, -⟩⟩ := World.resolve_write ha hstored (.inl hbefore)
    · simp only [hafter, hread]
    · rw [hbefore] at hunbound
      cases hunbound
  · rw [hbefore] at hstored
    obtain ⟨hglobal, ⟨r, hafter, hread⟩ | ⟨-, hafter⟩⟩ := World.resolve_write ha hstored (.inr hbefore)
    · simp only [hafter, hread]
    · simp only [hafter, hglobal]

/-- **A dynamic write is read back by a dynamic read**, on a heap where no chain of prototypes runs in
circles. If writing a name stores the value, then nothing is called, and reading the name in the same
environment right afterwards gives the value, without calling anything either, whatever the name has come
to stand for. If it does not, the world is as before; and if it is ignored, the program just goes on. -/
theorem setName_reads_back (m : Machine) {w : World} {f : Frame} {name : String} {v : Value}
    {rest : List Value} (ha : w.heap.Acyclic) (hstack : f.stack = v :: rest) :
    let turn := m.execute w f (.setName name)
    (m.Stores w f name v → turn.frame = f ∧ turn.control = .deliver .discard .undefined ∧
      ∀ g : Frame, g.env = f.env →
        m.execute turn.world g (.getName name) = ⟨turn.world, g, .deliver .push v⟩) ∧
    (¬ m.Stores w f name v → turn.world = w) ∧
    ((m.writeName w f name v).1.1 = .ignored → turn = ⟨w, f, .deliver .discard .undefined⟩) := by
  intro turn
  have hturn : turn = ⟨(m.writeName w f name v).2, f, .afterWrite (m.writeName w f name v).2.heap
      (m.writeName w f name v).1.2 v .discard (m.writeName w f name v).1.1⟩ := by
    show Turn.setName m w f name = _
    rw [Turn.setName, hstack]
  rw [hturn]
  refine ⟨fun hstores => ⟨rfl, ?_, fun g hg => ?_⟩, writeName_of_not_stores, fun hignored => ?_⟩
  · simp only [hstores.1, Control.afterWrite]
  · show Turn.getName m _ g name = _
    rw [Turn.getName]
    simp only [readName_of_stores ha hstores hg, Control.afterRead]
  · have hnot : ¬ m.Stores w f name v := fun hstores => by
      rw [hstores.1] at hignored
      cases hignored
    simp only [writeName_of_not_stores hnot, hignored, Control.afterWrite]

/-- The global object is written to, and an object of a `with` inherits from it: the name stands for nothing
before and for a property of that object afterwards. -/
theorem setName_reads_back_inherited :
    let steps : List HeapStep := [.allocate {}, .allocate { prototype := some ⟨0, 0⟩ }]
    let m : Machine := { realm := ⟨⟨0, 0⟩, ⟨0, 0⟩, ⟨0, 0⟩⟩ }
    let w : World :=
      { heap := ({} : Heap).performAll steps, envs := (({} : Environments).pushObject ⟨1, 0⟩ none).2 }
    let f : Frame := ⟨0, 0, 0, [.null], #[], some ⟨0⟩, .undefined, .undefined, [], .push⟩
    let turn := m.execute w f (.setName "x")
    w.resolve f.env "x" = .unbound ∧ turn.world.resolve f.env "x" = .property ⟨1, 0⟩ ∧
      m.execute turn.world f (.getName "x") = ⟨turn.world, f, .deliver .push .null⟩ := by
  intro steps m w f turn
  have hacyclic : w.heap.Acyclic := by
    have hlimit : ∀ i, ({} : Heap).releases i steps < 2 ^ 32 := fun i =>
      Nat.lt_of_le_of_lt (Heap.releases_le_length _ i steps) (by decide)
    exact (Heap.descended_empty.performAll (by decide +kernel)
      (Heap.nodup_issues Heap.exact_empty hlimit)).acyclic
  have hstores : m.Stores w f "x" .null := by
    refine ⟨by decide +kernel, fun id slot hslot => ?_⟩
    have hunbound : w.resolve f.env "x" = .unbound := by decide +kernel
    rw [hunbound] at hslot
    cases hslot
  obtain ⟨hstored, -⟩ := @setName_reads_back m w f "x" .null [] hacyclic rfl
  exact ⟨by decide +kernel, by decide +kernel, (hstored hstores).2.2 f rfl⟩

end Machine

end ScriptEngine
