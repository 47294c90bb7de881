import ScriptEngine.Proofs.Heap.Arena
import ScriptEngine.Proofs.Machine.Chain

/-!
# A collection is exact

An object *refers* to others by its prototype, its properties, and, if it is a function of a program, by
all environments around it (`Heap.Refers`). A live root is *reached*, and so is every live object that a
reached one refers to (`Heap.Reached`).

Marking works through a list of pending handles and walks each environment once. What is true throughout
is `Heap.Marking`: everything marked or pending is reached, and whatever a marked object refers to is
marked or pending. It ends with an empty list, so the marked objects are exactly those that are reached.
A collection frees all others and changes nothing else (`Heap.collect_spec`).
-/

namespace ScriptEngine

/-! ## What an object refers to -/

/-- One environment is another or lies around it. -/
inductive Environments.Encloses (es : Environments) : EnvId → EnvId → Prop
  /-- Itself. -/
  | self (id : EnvId) : es.Encloses id id
  /-- What is around the parent. -/
  | parent {outer id p : EnvId} {E : Environment} (found : es.get? id = some E)
      (link : E.parent = some p) (rest : es.Encloses outer p) : es.Encloses outer id

namespace Heap

/-- An object refers to another. -/
inductive Refers (heap : Heap) (envs : Environments) : Handle → Handle → Prop
  /-- By its prototype. -/
  | prototype {h k : Handle} {o : Object} (live : heap.get? h = some o)
      (proto : o.prototype = some k) : heap.Refers envs h k
  /-- By the value of a property. -/
  | value {h k : Handle} {o : Object} {name : String} {flags : PropertyFlags}
      (live : heap.get? h = some o)
      (property : (name, .data (.object k) flags) ∈ o.properties.entries) : heap.Refers envs h k
  /-- By the function that stands for reading a property. -/
  | getter {h k : Handle} {o : Object} {name : String} {setter : Option Handle}
      {flags : PropertyFlags} (live : heap.get? h = some o)
      (property : (name, .accessor (some k) setter flags) ∈ o.properties.entries) :
      heap.Refers envs h k
  /-- By the function that stands for writing a property. -/
  | setter {h k : Handle} {o : Object} {name : String} {getter : Option Handle}
      {flags : PropertyFlags} (live : heap.get? h = some o)
      (property : (name, .accessor getter (some k) flags) ∈ o.properties.entries) :
      heap.Refers envs h k
  /-- By a variable of an environment around the function. -/
  | slot {h k : Handle} {o : Object} {c : Closure} {env id : EnvId} {E : Environment}
      (live : heap.get? h = some o) (function : o.callable = some (.script c))
      (around : c.env = some env) (chain : envs.Encloses id env) (found : envs.get? id = some E)
      (among : .object k ∈ E.slots) : heap.Refers envs h k
  /-- By an environment around the function that binds the properties of an object. -/
  | withObject {h k : Handle} {o : Object} {c : Closure} {env id : EnvId} {E : Environment}
      (live : heap.get? h = some o) (function : o.callable = some (.script c))
      (around : c.env = some env) (chain : envs.Encloses id env) (found : envs.get? id = some E)
      (bound : E.kind = .object k) : heap.Refers envs h k

/-- What refers to something is live. -/
theorem Refers.live {heap : Heap} {envs : Environments} {h k : Handle} (hh : heap.Refers envs h k) :
    ∃ o, heap.get? h = some o := by
  cases hh <;> exact ⟨_, ‹_›⟩

/-- An object is reached from the roots by way of live objects. -/
inductive Reached (heap : Heap) (envs : Environments) (roots : List Handle) : Handle → Prop
  /-- A live root. -/
  | root {h : Handle} (among : h ∈ roots) (live : heap.isLive h = true) : heap.Reached envs roots h
  /-- A live object that a reached one refers to. -/
  | step {h k : Handle} (reached : heap.Reached envs roots h) (refers : heap.Refers envs h k)
      (live : heap.isLive k = true) : heap.Reached envs roots k

/-- What is reached is live. -/
theorem Reached.live {heap : Heap} {envs : Environments} {roots : List Handle} {h : Handle}
    (hh : heap.Reached envs roots h) : heap.isLive h = true := by
  cases hh with
  | root _ live => exact live
  | step _ _ live => exact live

end Heap

/-! ## Chains of environments -/

namespace Environments

variable {es : Environments}

/-- Behind a link of a chain lies the chain of this link. -/
theorem chain_eq_of_append (es : Environments) {id link : EnvId} {front back : List EnvId}
    (h : es.chain id = front ++ link :: back) : es.chain link = link :: back := by
  induction front generalizing id with
  | nil =>
    -- The first link of a chain is where it starts.
    have hself : id = link := by
      rw [chain] at h
      split at h
      · cases h
      · split at h
        · exact (List.cons.inj h).1
        · split at h
          · exact (List.cons.inj h).1
          · exact (List.cons.inj h).1
    exact hself ▸ h
  | cons first front ih =>
    rw [chain] at h
    split at h
    · cases h
    · split at h
      · simp at h
      · split at h
        · exact ih (List.cons.inj h).2
        · simp at h

/-- The chain of a link of a chain is part of it. -/
theorem chain_subset {id link : EnvId} (h : link ∈ es.chain id) : es.chain link ⊆ es.chain id := by
  obtain ⟨front, back, hsplit⟩ := List.append_of_mem h
  rw [es.chain_eq_of_append hsplit, hsplit]
  exact List.subset_append_right _ _

/-- **A chain** lists the environments around its start. -/
theorem Grounded.mem_chain_iff (hes : es.Grounded) {id link : EnvId} :
    link ∈ es.chain id ↔ es.Encloses link id ∧ (es.get? link).isSome := by
  constructor
  · intro hmem
    fun_induction es.chain id with
    | case1 id hid => cases hmem
    | case2 id E hE hparent =>
      obtain rfl := List.mem_singleton.mp hmem
      exact ⟨.self _, by simp [hE]⟩
    | case3 id E hE p hparent hlt ih =>
      rcases List.mem_cons.mp hmem with rfl | hrest
      · exact ⟨.self _, by simp [hE]⟩
      · exact ⟨.parent hE hparent (ih hrest).1, (ih hrest).2⟩
    | case4 id E hE p hparent hlt =>
      obtain rfl := List.mem_singleton.mp hmem
      exact ⟨.self _, by simp [hE]⟩
  · rintro ⟨henc, hsome⟩
    induction henc with
    | self =>
      obtain ⟨E, hE⟩ := Option.isSome_iff_exists.mp hsome
      rw [hes.chain_eq hE]
      exact List.mem_cons_self
    | parent hE hparent _ ih =>
      rw [hes.chain_eq hE, hparent]
      exact List.mem_cons_of_mem _ ih

/-- A link that has not been walked is one of the chain. -/
theorem chain_of_unwalked {walked : Std.HashSet EnvId} {around? : Option EnvId} {link : EnvId}
    (hlink : link ∈ es.unwalked walked around?) : ∃ env, around? = some env ∧ link ∈ es.chain env := by
  cases around? with
  | none => exact absurd hlink List.not_mem_nil
  | some env => exact ⟨env, rfl, List.takeWhile_subset _ hlink⟩

/-- After the links that have not been walked are walked, the whole chain is, provided that what was
walked before was walked to its end. -/
theorem walked_of_unwalked {walked : Std.HashSet EnvId}
    (hout : ∀ link ∈ walked, ∀ outer ∈ es.chain link, outer ∈ walked) {id link : EnvId}
    (hlink : link ∈ es.chain id) : link ∈ walked ∨ link ∈ es.unwalked walked (some id) := by
  have hsplit : es.unwalked walked (some id) ++ (es.chain id).dropWhile (!walked.contains ·) =
      es.chain id := List.takeWhile_append_dropWhile
  rw [← hsplit, List.mem_append] at hlink
  rcases hlink with hnew | hold
  · exact .inr hnew
  · -- The first link behind has been walked, and so has everything around it.
    refine .inl ?_
    rcases hrest : (es.chain id).dropWhile (!walked.contains ·) with _ | ⟨first, rest⟩
    · rw [hrest] at hold
      cases hold
    · have hfirst : first ∈ walked := by
        have := List.head?_dropWhile_not (!walked.contains ·) (es.chain id)
        simpa [hrest] using this
      refine hout first hfirst link ?_
      rw [hrest] at hold hsplit
      rw [es.chain_eq_of_append hsplit.symm]
      exact hold

/-- An environment refers to the objects in its slots and to the one whose properties it binds. -/
theorem mem_references {id : EnvId} {k : Handle} :
    k ∈ es.references id ↔
      ∃ E, es.get? id = some E ∧ (E.kind = .object k ∨ .object k ∈ E.slots) := by
  rw [references]
  rcases es.get? id with _ | E
  · simp
  · have hslot : k ∈ E.slots.toList.filterMap Value.object? ↔ .object k ∈ E.slots := by
      rw [List.mem_filterMap, ← Array.mem_toList_iff]
      constructor
      · rintro ⟨v, hv, hk⟩
        cases v <;> simp [Value.object?] at hk
        exact hk ▸ hv
      · exact fun hk => ⟨_, hk, rfl⟩
    rw [List.mem_append, hslot]
    rcases hkind : E.kind with names | h
    · simp [hkind]
    · simp [hkind, eq_comm]

end Environments

namespace Heap

variable {heap : Heap} {envs : Environments} {roots : List Handle}

/-- **What an object refers to** stands in the object itself or in an environment of its chain. -/
theorem refers_iff (henvs : envs.Grounded) {h k : Handle} {o : Object} (ho : heap.get? h = some o) :
    heap.Refers envs h k ↔ k ∈ o.references ∨
      ∃ env, o.around? = some env ∧ ∃ link ∈ envs.chain env, k ∈ envs.references link := by
  have hsame : ∀ {o'}, heap.get? h = some o' → o' = o := fun ho' => Option.some.inj (ho'.symm.trans ho)
  rw [Object.references, List.mem_append, Option.mem_toList, List.mem_flatMap]
  constructor
  · intro hrefers
    cases hrefers with
    | prototype live proto =>
      obtain rfl := hsame live
      exact .inl (.inl proto)
    | value live property =>
      obtain rfl := hsame live
      exact .inl (.inr ⟨_, property, by simp [Property.references, Value.object?]⟩)
    | getter live property =>
      obtain rfl := hsame live
      exact .inl (.inr ⟨_, property, by simp [Property.references]⟩)
    | setter live property =>
      obtain rfl := hsame live
      exact .inl (.inr ⟨_, property, by simp [Property.references]⟩)
    | slot live function around chain found among =>
      obtain rfl := hsame live
      exact .inr ⟨_, by rw [Object.around?, function]; exact around, _,
        henvs.mem_chain_iff.mpr ⟨chain, by simp [found]⟩,
        Environments.mem_references.mpr ⟨_, found, .inr among⟩⟩
    | withObject live function around chain found bound =>
      obtain rfl := hsame live
      exact .inr ⟨_, by rw [Object.around?, function]; exact around, _,
        henvs.mem_chain_iff.mpr ⟨chain, by simp [found]⟩,
        Environments.mem_references.mpr ⟨_, found, .inl bound⟩⟩
  · rintro ((hproto | ⟨⟨name, p⟩, hentry, hk⟩) | ⟨env, haround, link, hlink, hk⟩)
    · exact .prototype ho hproto
    · rcases p with ⟨v, flags⟩ | ⟨getter, setter, flags⟩
      · cases v <;> simp [Property.references, Value.object?] at hk
        subst hk
        exact .value ho hentry
      · simp only [Property.references, List.mem_append, Option.mem_toList] at hk
        rcases hk with rfl | rfl
        · exact .getter ho hentry
        · exact .setter ho hentry
    · rcases hcall : o.callable with _ | f | c
      · simp [Object.around?, hcall] at haround
      · simp [Object.around?, hcall] at haround
      · simp only [Object.around?, hcall] at haround
        obtain ⟨E, hE, hbound | hslot⟩ := Environments.mem_references.mp hk
        · exact .withObject ho hcall haround (henvs.mem_chain_iff.mp hlink).1 hE hbound
        · exact .slot ho hcall haround (henvs.mem_chain_iff.mp hlink).1 hE hslot

/-! ## Marking -/

/-- The slot of a handle is marked, or the handle is pending. -/
def Covered (marked : Array Bool) (pending : List Handle) (h : Handle) : Prop :=
  marked[h.index]? = some true ∨ h ∈ pending

/-- What was covered is covered once an object has its mark. -/
theorem Covered.set {marked : Array Bool} {rest : List Handle} {h k : Handle} (hlt : h.index < marked.size)
    (new : List Handle) (hk : Covered marked (h :: rest) k) :
    Covered (marked.set h.index true) (new ++ rest) k := by
  rw [Covered, Array.getElem?_set]
  by_cases hi : h.index = k.index
  · exact .inl (by simp [hi])
  · rw [if_neg hi]
    rcases hk with hmarked | hmem
    · exact .inl hmarked
    · rcases List.mem_cons.mp hmem with rfl | hrest
      · exact absurd rfl hi
      · exact .inr (List.mem_append_right _ hrest)

/-- What is true while marking: what is marked or pending is reached, and nothing is overlooked. The
environments that have been walked stand for all that is around the marked functions. -/
structure Marking (heap : Heap) (envs : Environments) (roots : List Handle) (marked : Array Bool)
    (pending : List Handle) (walked : Std.HashSet EnvId) : Prop where
  /-- Every slot has its mark. -/
  size : marked.size = heap.slots.size
  /-- Marked objects are reached. -/
  marked_reached : ∀ h, heap.isLive h = true → marked[h.index]? = some true → heap.Reached envs roots h
  /-- Pending objects are reached. -/
  pending_reached : ∀ h ∈ pending, heap.isLive h = true → heap.Reached envs roots h
  /-- No root is overlooked. -/
  roots_covered : ∀ h ∈ roots, heap.isLive h = true → Covered marked pending h
  /-- Nothing is overlooked that stands in a marked object. -/
  objects_covered : ∀ h o, heap.get? h = some o → marked[h.index]? = some true →
    ∀ k ∈ o.references, heap.isLive k = true → Covered marked pending k
  /-- The environments around a marked function have been walked. -/
  around_walked : ∀ h o, heap.get? h = some o → marked[h.index]? = some true →
    ∀ env, o.around? = some env → ∀ link ∈ envs.chain env, link ∈ walked
  /-- Nothing is overlooked that stands in a walked environment. -/
  links_covered : ∀ link ∈ walked, ∀ k ∈ envs.references link, heap.isLive k = true →
    Covered marked pending k
  /-- Every chain is walked to its end. -/
  outward : ∀ link ∈ walked, ∀ outer ∈ envs.chain link, outer ∈ walked

/-- Marking starts with the roots. -/
theorem marking_start (heap : Heap) (envs : Environments) (roots : List Handle) :
    heap.Marking envs roots (Array.replicate heap.slots.size false) roots ∅ where
  size := by simp
  marked_reached h _ hmarked := by simp [Array.getElem?_replicate] at hmarked
  pending_reached h hh live := .root hh live
  roots_covered h hh _ := .inr hh
  objects_covered h o _ hmarked := by simp [Array.getElem?_replicate] at hmarked
  around_walked h o _ hmarked := by simp [Array.getElem?_replicate] at hmarked
  links_covered link hlink := by simp at hlink
  outward link hlink := by simp at hlink

namespace Marking

variable {marked : Array Bool} {pending rest : List Handle} {walked : Std.HashSet EnvId} {h : Handle}

/-- A pending handle is dropped if it is stale or marked already. -/
theorem drop (hm : heap.Marking envs roots marked (h :: rest) walked)
    (hdone : heap.isLive h = true → marked[h.index]? = some true) :
    heap.Marking envs roots marked rest walked := by
  have hcover : ∀ k, heap.isLive k = true → Covered marked (h :: rest) k → Covered marked rest k := by
    intro k hlive hk
    rcases hk with hmarked | hmem
    · exact .inl hmarked
    · rcases List.mem_cons.mp hmem with rfl | hrest
      · exact .inl (hdone hlive)
      · exact .inr hrest
  exact
    { hm with
      pending_reached := fun k hk => hm.pending_reached k (List.mem_cons_of_mem _ hk)
      roots_covered := fun k hk live => hcover k live (hm.roots_covered k hk live)
      objects_covered := fun k o hk hmarked k' hk' live =>
        hcover k' live (hm.objects_covered k o hk hmarked k' hk' live)
      links_covered := fun link hlink k hk live => hcover k live (hm.links_covered link hlink k hk live) }

/-- **An object is marked**: what it refers to becomes pending, and the environments around it have been
walked. -/
theorem visit (henvs : envs.Grounded) (hm : heap.Marking envs roots marked (h :: rest) walked)
    {o : Object} (ho : heap.get? h = some o) (hlt : h.index < marked.size) :
    let links := envs.unwalked walked o.around?
    heap.Marking envs roots (marked.set h.index true)
      (o.references ++ links.flatMap envs.references ++ rest) (walked.insertMany links) := by
  intro links
  have hlive : heap.isLive h = true := by simp [isLive, ho]
  have hreached : heap.Reached envs roots h := hm.pending_reached h List.mem_cons_self hlive
  have hwalked : ∀ link, link ∈ walked.insertMany links ↔ link ∈ walked ∨ link ∈ links := by
    intro link
    simp [Std.HashSet.mem_insertMany_list]
  -- Only the slot of the object gets a mark, and no other live handle has this slot.
  have hmark : ∀ k o', heap.get? k = some o' → (marked.set h.index true)[k.index]? = some true →
      k = h ∨ marked[k.index]? = some true := by
    intro k o' hk hset
    have hlive' : heap.isLive k = true := by simp [isLive, hk]
    by_cases hi : h.index = k.index
    · exact .inl (eq_of_index_eq hlive' hlive hi.symm)
    · rw [Array.getElem?_set_ne hlt hi] at hset
      exact .inr hset
  have hlinks : ∀ link ∈ links, ∃ env, o.around? = some env ∧ link ∈ envs.chain env :=
    fun link hlink => Environments.chain_of_unwalked hlink
  have hcover : ∀ k, Covered marked (h :: rest) k →
      Covered (marked.set h.index true) (o.references ++ links.flatMap envs.references ++ rest) k :=
    fun k hk => Covered.set hlt _ hk
  have haround : ∀ env, o.around? = some env → ∀ link ∈ envs.chain env,
      link ∈ walked.insertMany links := by
    intro env henv link hlink
    rw [hwalked]
    simp only [links, henv]
    exact Environments.walked_of_unwalked hm.outward hlink
  constructor
  case size => rw [Array.size_set, hm.size]
  case marked_reached =>
    intro k live hset
    obtain ⟨o', hk⟩ := Option.isSome_iff_exists.mp live
    rcases hmark k o' hk hset with rfl | hmarked
    · exact hreached
    · exact hm.marked_reached k live hmarked
  case pending_reached =>
    intro k hk live
    rw [List.mem_append, List.mem_append, List.mem_flatMap] at hk
    rcases hk with (hown | ⟨link, hlink, href⟩) | hrest
    · exact .step hreached ((refers_iff henvs ho).mpr (.inl hown)) live
    · obtain ⟨env, henv, hchain⟩ := hlinks link hlink
      exact .step hreached ((refers_iff henvs ho).mpr (.inr ⟨env, henv, link, hchain, href⟩)) live
    · exact hm.pending_reached k (List.mem_cons_of_mem _ hrest) live
  case roots_covered => exact fun k hk live => hcover k (hm.roots_covered k hk live)
  case objects_covered =>
    intro k o' hk hset k' hk' live
    rcases hmark k o' hk hset with rfl | hmarked
    · obtain rfl := Option.some.inj (hk.symm.trans ho)
      exact .inr (List.mem_append_left _ (List.mem_append_left _ hk'))
    · exact hcover k' (hm.objects_covered k o' hk hmarked k' hk' live)
  case around_walked =>
    intro k o' hk hset env henv link hlink
    rcases hmark k o' hk hset with rfl | hmarked
    · obtain rfl := Option.some.inj (hk.symm.trans ho)
      exact haround env henv link hlink
    · exact (hwalked link).mpr (.inl (hm.around_walked k o' hk hmarked env henv link hlink))
  case links_covered =>
    intro link hlink k hk live
    rcases (hwalked link).mp hlink with hold | hnew
    · exact hcover k (hm.links_covered link hold k hk live)
    · refine .inr (List.mem_append_left _ (List.mem_append_right _ ?_))
      exact List.mem_flatMap.mpr ⟨link, hnew, hk⟩
  case outward =>
    intro link hlink outer houter
    rcases (hwalked link).mp hlink with hold | hnew
    · exact (hwalked outer).mpr (.inl (hm.outward link hold outer houter))
    · obtain ⟨env, henv, hchain⟩ := hlinks link hnew
      exact haround env henv outer (Environments.chain_subset hchain houter)

/-- **Marking** ends with nothing pending. -/
theorem mark (henvs : envs.Grounded) (hm : heap.Marking envs roots marked pending walked) :
    ∃ walked', heap.Marking envs roots (heap.mark envs marked pending walked) [] walked' := by
  fun_induction heap.mark envs marked pending walked with
  | case1 marked walked => exact ⟨walked, hm⟩
  | case2 marked walked h rest hstale ih =>
    exact ih (hm.drop fun hlive => by simp [isLive, hstale] at hlive)
  | case3 marked walked h rest o ho hlt hmarked ih =>
    exact ih (hm.drop fun _ => by simp [hlt, hmarked])
  | case4 marked walked h rest o ho hlt hmarked links ih => exact ih (hm.visit henvs ho hlt)
  | case5 marked walked h rest o ho hlt ih =>
    refine absurd ?_ hlt
    rw [hm.size]
    exact (Array.getElem?_eq_some_iff.mp (get?_eq_some_iff.mp ho)).choose

/-- Once nothing is pending, every reached object is marked. -/
theorem marked_of_reached (henvs : envs.Grounded) (hm : heap.Marking envs roots marked [] walked)
    (hh : heap.Reached envs roots h) : marked[h.index]? = some true := by
  have hdone : ∀ k, Covered marked [] k → marked[k.index]? = some true :=
    fun k hk => hk.resolve_right List.not_mem_nil
  induction hh with
  | root among live => exact hdone _ (hm.roots_covered _ among live)
  | @step h k _ refers live ih =>
    obtain ⟨o, ho⟩ := Option.isSome_iff_exists.mp ‹heap.Reached envs roots h›.live
    rcases (refers_iff henvs ho).mp refers with hown | ⟨env, henv, link, hlink, hk⟩
    · exact hdone k (hm.objects_covered h o ho ih k hown live)
    · exact hdone k (hm.links_covered link (hm.around_walked h o ho ih env henv link hlink) k hk live)

end Marking

/-- **The marked objects are those that are reached.** -/
theorem mark_iff_reached (henvs : envs.Grounded) {h : Handle} (hlive : heap.isLive h = true) :
    (heap.mark envs (Array.replicate heap.slots.size false) roots)[h.index]? = some true ↔
      heap.Reached envs roots h := by
  obtain ⟨walked, hm⟩ := (marking_start heap envs roots).mark henvs
  exact ⟨hm.marked_reached h hlive, hm.marked_of_reached henvs⟩

/-! ## What a collection frees -/

/-- A collection vacates the slots of the live objects that are not reached. -/
theorem mem_garbage_iff (henvs : envs.Grounded) {h : Handle} (hlive : heap.isLive h = true) :
    h.index ∈ heap.garbage envs roots ↔ ¬ heap.Reached envs roots h := by
  obtain ⟨o, ho⟩ := Option.isSome_iff_exists.mp hlive
  have hslot := get?_eq_some_iff.mp ho
  have hlt := (Array.getElem?_eq_some_iff.mp hslot).choose
  rw [← mark_iff_reached henvs hlive, garbage, List.mem_filter, List.mem_range, isGarbage, hslot,
    Array.getD_eq_getD_getElem?]
  rcases (heap.mark envs (Array.replicate heap.slots.size false) roots)[h.index]? with _ | _ | _
  · simp [hlt]
  · simp [hlt]
  · simp

/-- The handle of the occupant of a slot is live. -/
theorem isLive_of_occupant? {i : Nat} (hi : (heap.occupant? i).isSome) :
    heap.isLive ⟨i, heap.generation i⟩ = true := by
  rw [isLive, get?_eq_occupant?, if_pos rfl]
  exact hi

/-- **A collection keeps** the objects that are reached, as they are, and no others. -/
theorem get?_collect_iff (henvs : envs.Grounded) {h : Handle} {o : Object} :
    (heap.collect envs roots).2.get? h = some o ↔
      heap.get? h = some o ∧ heap.Reached envs roots h := by
  rw [get?_eq_some_iff, get?_eq_some_iff, getElem?_collect]
  constructor
  · intro hslot
    split at hslot
    · obtain ⟨old, -, hvacated⟩ := Option.map_eq_some_iff.mp hslot
      exact absurd (congrArg Slot.object hvacated) (by simp)
    · next hkept =>
      have hlive : heap.isLive h = true := by simp [isLive, get?_eq_some_iff.mpr hslot]
      refine ⟨hslot, ?_⟩
      rw [mem_garbage_iff henvs hlive, Classical.not_not] at hkept
      exact hkept
  · rintro ⟨hslot, hreached⟩
    rw [if_neg fun hgarbage => (mem_garbage_iff henvs hreached.live).mp hgarbage hreached]
    exact hslot

/-- What is reached is live after a collection. -/
theorem Reached.isLive_collect (henvs : envs.Grounded) {h : Handle} (hh : heap.Reached envs roots h) :
    (heap.collect envs roots).2.isLive h = true := by
  obtain ⟨o, ho⟩ := Option.isSome_iff_exists.mp hh.live
  rw [isLive, (get?_collect_iff henvs).mpr ⟨ho, hh⟩]
  rfl

/-- An object to which neither a root nor an object refers is freed. -/
theorem isLive_collect_of_unreferred (henvs : envs.Grounded) {h : Handle} (hroots : h ∉ roots)
    (hrefers : ∀ k, ¬heap.Refers envs k h) : (heap.collect envs roots).2.isLive h = false := by
  rw [isLive, Option.isSome_eq_false_iff, Option.isNone_iff_eq_none, Option.eq_none_iff_forall_ne_some]
  intro o ho
  cases ((get?_collect_iff henvs).mp ho).2 with
  | root among _ => exact hroots among
  | step _ refers _ => exact hrefers _ refers

/-- A kept object refers to what it referred to. -/
theorem Refers.congr {heap' : Heap} {h k : Handle} (hh : heap.Refers envs h k)
    (hsame : ∀ o, heap.get? h = some o → heap'.get? h = some o) : heap'.Refers envs h k := by
  cases hh with
  | prototype live proto => exact .prototype (hsame _ live) proto
  | value live property => exact .value (hsame _ live) property
  | getter live property => exact .getter (hsame _ live) property
  | setter live property => exact .setter (hsame _ live) property
  | slot live function around chain found among =>
    exact .slot (hsame _ live) function around chain found among
  | withObject live function around chain found bound =>
    exact .withObject (hsame _ live) function around chain found bound

/-- What was reached is reached again after a collection. -/
theorem Reached.collect (henvs : envs.Grounded) {h : Handle} (hh : heap.Reached envs roots h) :
    (heap.collect envs roots).2.Reached envs roots h := by
  induction hh with
  | root among live => exact .root among (Reached.isLive_collect henvs (.root among live))
  | step reached refers live ih =>
    have hkept := refers.congr fun o ho => (get?_collect_iff henvs).mpr ⟨ho, reached⟩
    exact .step ih hkept (Reached.isLive_collect henvs (.step reached refers live))

/-- **A second collection** finds no garbage. -/
theorem garbage_collect (henvs : envs.Grounded) (heap : Heap) (roots : List Handle) :
    (heap.collect envs roots).2.garbage envs roots = [] := by
  refine List.eq_nil_iff_forall_not_mem.mpr fun i hi => ?_
  have hlive := isLive_of_occupant? (occupant?_of_garbage hi)
  obtain ⟨o, ho⟩ := Option.isSome_iff_exists.mp hlive
  exact (mem_garbage_iff henvs hlive).mp hi (Reached.collect henvs ((get?_collect_iff henvs).mp ho).2)

/-- A collection makes no slots and gives none up. -/
theorem size_collect (heap : Heap) (envs : Environments) (roots : List Handle) :
    (heap.collect envs roots).2.slots.size = heap.slots.size := by
  have hsweep : ∀ (garbage : List Nat) (heap : Heap),
      (garbage.foldl release heap).slots.size = heap.slots.size := by
    intro garbage
    induction garbage with
    | nil => exact fun _ => rfl
    | cons i rest ih =>
      intro heap
      rw [List.foldl_cons, ih]
      simp [release]
  rw [collect_snd]
  split <;> exact hsweep _ heap

/-- The objects before a collection are those after it and those it frees. -/
theorem Exact.liveCount_collect (he : heap.Exact) (envs : Environments) (roots : List Handle) :
    (heap.collect envs roots).2.liveCount + (heap.collect envs roots).1 = heap.liveCount := by
  have hfree := congrArg List.length (free_collect heap envs roots)
  have hle := (he.collect envs roots).length_free_le
  have hcount : (heap.collect envs roots).1 = (heap.garbage envs roots).length := rfl
  rw [size_collect] at hle
  simp only [List.length_append, List.length_reverse] at hfree
  simp only [liveCount, size_collect]
  omega

/-- A collection counts as a change of shape if it frees anything. -/
theorem epoch_collect (heap : Heap) (envs : Environments) (roots : List Handle) :
    (heap.collect envs roots).2.epoch =
      heap.epoch + if 0 < (heap.collect envs roots).1 then 1 else 0 := by
  have hcount : (heap.collect envs roots).1 = (heap.garbage envs roots).length := rfl
  rw [collect_snd, hcount]
  rcases heap.garbage envs roots with _ | ⟨i, rest⟩
  · rfl
  · simp only [List.isEmpty_cons, bumpEpoch, epoch_sweep]
    simp

/-! ## The whole collection -/

/-- The heaps, and the environments around their functions, that operations lead to. An environment
links to one that is there. -/
inductive Arises : Heap → Environments → Prop
  /-- Nothing is there yet. -/
  | start : Arises {} {}
  /-- An operation on the heap. -/
  | perform {heap : Heap} {envs : Environments} (step : HeapStep) (before : Arises heap envs) :
      Arises (heap.perform step) envs
  /-- An environment is made. -/
  | push {heap : Heap} {envs : Environments} {E : Environment} (before : Arises heap envs)
      (parent : envs.Has E.parent) : Arises heap (envs.push E).2
  /-- A variable is set. -/
  | setSlot {heap : Heap} {envs : Environments} (id : EnvId) (slot : Nat) (v : Value)
      (before : Arises heap envs) : Arises heap (envs.setSlot id slot v)

/-- Such a heap lists its vacant slots, and such environments link to earlier ones. -/
theorem Arises.invariant (ha : Arises heap envs) : heap.Exact ∧ envs.Grounded := by
  induction ha with
  | start => exact ⟨exact_empty, fun id E h => by simp [Environments.get?] at h⟩
  | perform step _ ih => exact ⟨ih.1.perform step, ih.2⟩
  | push _ parent ih => exact ⟨ih.1, ih.2.push parent⟩
  | setSlot id slot v _ ih => exact ⟨ih.1, ih.2.setSlot id slot v⟩

/-- What a collection comes to: how many objects it frees, and the heap it leaves. -/
structure Collects (heap : Heap) (envs : Environments) (roots : List Handle) (n : Nat) (after : Heap) :
    Prop where
  /-- Exactly the objects that are reached are kept, each under its handle and unchanged. -/
  kept : ∀ h o, after.get? h = some o ↔ heap.get? h = some o ∧ heap.Reached envs roots h
  /-- All other objects are freed, and counted. -/
  freed : ∃ freed : List Handle, freed.Nodup ∧ freed.length = n ∧
    ∀ h, h ∈ freed ↔ heap.isLive h = true ∧ ¬ heap.Reached envs roots h
  /-- The number of objects drops by as many. -/
  count : after.liveCount + n = heap.liveCount
  /-- The epoch advances if there were any. -/
  epoch : after.epoch = heap.epoch + if 0 < n then 1 else 0
  /-- A kept object refers to no object that was freed. -/
  stored : ∀ h k, after.Refers envs h k → heap.isLive k = true → after.isLive k = true
  /-- Collecting again frees nothing and changes nothing. -/
  again : after.collect envs roots = (0, after)

/-- **A collection is exact**, whatever the roots are. -/
theorem collect_spec (ha : Arises heap envs) (roots : List Handle) :
    heap.Collects envs roots (heap.collect envs roots).1 (heap.collect envs roots).2 := by
  obtain ⟨hexact, henvs⟩ := ha.invariant
  constructor
  case kept => exact fun h o => get?_collect_iff henvs
  case freed =>
    refine ⟨(heap.garbage envs roots).map fun i => ⟨i, heap.generation i⟩, ?_, by simp; rfl, fun h => ?_⟩
    · refine List.Pairwise.map _ (fun i j hne hij => hne ?_) (nodup_garbage heap envs roots)
      exact congrArg Handle.index hij
    · constructor
      · intro hmem
        obtain ⟨i, hi, rfl⟩ := List.mem_map.mp hmem
        have hlive := isLive_of_occupant? (occupant?_of_garbage hi)
        exact ⟨hlive, (mem_garbage_iff henvs hlive).mp hi⟩
      · rintro ⟨hlive, hunreached⟩
        obtain ⟨o, ho⟩ := Option.isSome_iff_exists.mp hlive
        refine List.mem_map.mpr ⟨h.index, (mem_garbage_iff henvs hlive).mpr hunreached, ?_⟩
        rw [(generation_of_get? ho).1]
  case count => exact hexact.liveCount_collect envs roots
  case epoch => exact epoch_collect heap envs roots
  case stored =>
    intro h k hrefers hlive
    obtain ⟨o, ho⟩ := hrefers.live
    obtain ⟨hbefore, hreached⟩ := (get?_collect_iff henvs).mp ho
    have hrefers' : heap.Refers envs h k := hrefers.congr fun o' ho' => ((get?_collect_iff henvs).mp ho').1
    exact Reached.isLive_collect henvs (.step hreached hrefers' hlive)
  case again =>
    have hnone := garbage_collect henvs heap roots
    refine Prod.ext ?_ ?_
    · exact congrArg List.length hnone
    · rw [collect_snd, hnone]
      rfl

/-- An object that only a variable around a function refers to is kept with the function. A stale root
does no harm. -/
theorem collect_spec_closedOver :
    let function : Object := { callable := some (.script ⟨0, 0, some ⟨0⟩⟩) }
    let heap := ({} : Heap).performAll [.allocate {}, .allocate function]
    let envs := (Environments.push {} ⟨.variables #["x"], #[.object ⟨0, 0⟩], none⟩).2
    let roots : List Handle := [⟨1, 0⟩, ⟨0, 7⟩]
    Arises heap envs ∧ (heap.collect envs roots).2.get? ⟨0, 0⟩ = some {} ∧
      ((heap.collect envs roots).2.collect envs roots).1 = 0 := by
  intro function heap envs roots
  have henvs : Arises {} envs := .push .start fun _ hparent => nomatch hparent
  have harises : Arises heap envs := (henvs.perform (.allocate {})).perform (.allocate function)
  have hspec := collect_spec harises roots
  have hrefers : heap.Refers envs ⟨1, 0⟩ ⟨0, 0⟩ :=
    .slot (o := function) (by decide +kernel) rfl rfl (.self _)
      (E := ⟨.variables #["x"], #[.object ⟨0, 0⟩], none⟩) rfl (by simp)
  have hreached : heap.Reached envs roots ⟨0, 0⟩ :=
    .step (.root List.mem_cons_self (by decide +kernel)) hrefers (by decide +kernel)
  exact ⟨harises, (hspec.kept _ _).mpr ⟨by decide +kernel, hreached⟩, congrArg Prod.fst hspec.again⟩

end Heap

end ScriptEngine
