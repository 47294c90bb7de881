import ScriptEngine.Machine.Run
import ScriptEngine.Proofs.Code.Balance
import ScriptEngine.Proofs.Heap.Scripts
import ScriptEngine.Proofs.Machine.Chain
import ScriptEngine.Proofs.Machine.Outcomes

/-!
# Instructions find what they need

An instruction that is allowed at a point (`Instruction.Allows`) is executed without a fault, and leads
to the points that it is allowed to lead to. `Frame.Held` says which point a frame stands at, and
`Turn.Sound` what is known after the instruction. The main statement is `Machine.sound_execute`.
-/

namespace ScriptEngine

/-! ## Frames at a point -/

/-- The operands after a call has given its value. A call of the value pushes what that call gives. -/
def Resume.after (v : Value) (stack : List Value) : Resume → List Value
  | push | callWith .. => v :: stack
  | discard => stack
  | pushInstead other => other :: stack

/-- The handler of a region over an environment. -/
structure Handler.Guards (envs : Environments) (base : Option EnvId) (h : Handler) (region : Nat × Nat) :
    Prop where
  /-- It starts where the region says. -/
  target : h.target = region.1
  /-- There were no operands at the start of the region. -/
  stackSize : h.stackSize = 0
  /-- The objects around the region lie on top of the environment. -/
  env : envs.Over base region.2 h.env

/-- The handlers of regions over an environment. -/
def Handlers (envs : Environments) (base : Option EnvId) : List Handler → List (Nat × Nat) → Prop
  | [], [] => True
  | h :: hs, r :: rs => h.Guards envs base r ∧ Handlers envs base hs rs
  | _, _ => False

/-- A frame of a function over an environment, in some regions and inside a number of `with` objects. -/
structure Frame.Held (envs : Environments) (c : Closure) (base : Option EnvId) (F : CodeFunction)
    (f : Frame) (regions : List (Nat × Nat)) (withs : Nat) : Prop where
  /-- The unit is that of the function. -/
  unit : f.unit = c.unit
  /-- The position is that of the function. -/
  index : f.index = c.index
  /-- There is a slot for every local variable. -/
  locals : f.locals.size = F.localCount
  /-- The objects lie on top of the environment. -/
  env : envs.Over base withs f.env
  /-- The handlers are those of the regions. -/
  handlers : Handlers envs base f.handlers regions

/-- The point that a frame stands at. -/
def Frame.point (f : Frame) (regions : List (Nat × Nat)) (withs : Nat) : Point :=
  ⟨f.ip, f.stack, regions, withs⟩

section

variable {a b : Environments} {base : Option EnvId}

/-- Handlers stay the handlers of their regions. -/
theorem Handlers.evolves (h : a.Evolves b) {hs : List Handler} {rs : List (Nat × Nat)}
    (ha : Handlers a base hs rs) : Handlers b base hs rs := by
  induction hs generalizing rs with
  | nil =>
    cases rs with
    | nil => trivial
    | cons r rs => exact ha
  | cons x hs ih =>
    cases rs with
    | nil => exact ha
    | cons r rs => exact ⟨⟨ha.1.target, ha.1.stackSize, ha.1.env.evolves h⟩, ih ha.2⟩

/-- A frame stays where it is. -/
theorem Frame.Held.evolves (h : a.Evolves b) {c : Closure} {F : CodeFunction} {f : Frame}
    {rg : List (Nat × Nat)} {withs : Nat} (ha : f.Held a c base F rg withs) :
    f.Held b c base F rg withs :=
  ⟨ha.unit, ha.index, ha.locals, ha.env.evolves h, ha.handlers.evolves h⟩

end

/-- A frame in which at most the offset, the operands and the values of locals have changed. -/
structure Frame.Stays (f f' : Frame) : Prop where
  /-- The same unit. -/
  unit : f'.unit = f.unit
  /-- The same function. -/
  index : f'.index = f.index
  /-- As many locals. -/
  locals : f'.locals.size = f.locals.size
  /-- The same environment. -/
  env : f'.env = f.env
  /-- The same handlers. -/
  handlers : f'.handlers = f.handlers
  /-- The same use of the value that is returned. -/
  resume : f'.resume = f.resume

/-- A frame whose offset and operands have changed. -/
theorem Frame.stays_go (f : Frame) (ip : Nat) (stack : List Value) :
    f.Stays { f with ip, stack } :=
  ⟨rfl, rfl, rfl, rfl, rfl, rfl⟩

/-- Such a frame is held as before. -/
theorem Frame.Held.stays {envs : Environments} {c : Closure} {base : Option EnvId} {F : CodeFunction}
    {f f' : Frame} {rg : List (Nat × Nat)} {withs : Nat} (h : f.Held envs c base F rg withs)
    (hf : f.Stays f') : f'.Held envs c base F rg withs := by
  refine ⟨hf.unit.trans h.unit, hf.index.trans h.index, hf.locals.trans h.locals, ?_, ?_⟩
  · rw [hf.env]
    exact h.env
  · rw [hf.handlers]
    exact h.handlers

/-! ## Turns -/

/-- A world in which environments have been added and slots set, and which runs no functions of programs
but those before and new ones of a kind. -/
structure World.Moves (new : Closure → Prop) (a b : World) : Prop where
  /-- The environments bind and link to what they did before. -/
  evolves : a.envs.Evolves b.envs
  /-- Every environment links to an earlier one. -/
  grounded : b.envs.Grounded
  /-- The functions of programs are those before and new ones. -/
  runs : ∀ c, b.Runs c → a.Runs c ∨ new c

/-- The environments have not changed. -/
theorem World.Stays.moves {a b : World} (h : a.Stays b) (ha : a.envs.Grounded) (new : Closure → Prop) :
    a.Moves new b := by
  refine ⟨?_, ?_, fun c hc => .inl (h.runs c hc)⟩
  · rw [h.envs]
    exact .refl _
  · rw [h.envs]
    exact ha

/-- A slot is set. -/
theorem World.moves_setSlot {w : World} (hw : w.envs.Grounded) {new : Closure → Prop} (id : EnvId)
    (slot : Nat) (v : Value) : w.Moves new { w with envs := w.envs.setSlot id slot v } :=
  ⟨w.envs.evolves_setSlot id slot v, hw.setSlot id slot v, fun _ hc => .inl hc⟩

/-- What comes next leads to points of a kind only, calls known functions of programs only, and is no
fault. -/
def Control.Fits (known : Closure → Prop) (K : Point → Prop) (p : Point) : Control → Prop
  | .execute => K p
  | .enter _ target _ _ r =>
    (∀ c, target = .script c → known c) ∧ ∀ v, K (p.go p.ip (r.after v p.stack))
  | .deliver r _ => ∀ v, K (p.go p.ip (r.after v p.stack))
  | .ret _ => True
  | .raise e => ∀ fault, e ≠ .internal fault

/-- What is known after an instruction: the frame stands at a point that suits what comes next. Only if
that is the next instruction the frame may be in other regions than before. -/
structure Turn.Sound (new : Closure → Prop) (w : World) (r : Resume) (c : Closure) (base : Option EnvId)
    (F : CodeFunction) (rg : List (Nat × Nat)) (K : Point → Prop) (t : Turn) : Prop where
  /-- The world has moved on. -/
  moves : w.Moves new t.world
  /-- The frame has its place. -/
  frame : ∃ rg' withs', t.frame.Held t.world.envs c base F rg' withs' ∧
    t.control.Fits (fun c => w.Runs c ∨ t.world.Runs c) K (t.frame.point rg' withs') ∧
    (rg' = rg ∨ t.control = .execute)
  /-- The frame below does with the value what it did before. -/
  resume : t.frame.resume = r

namespace Control

variable {known : Closure → Prop} {heap : Heap} {K : Point → Prop} {p : Point} {r : Resume}

/-- **A call** is a call of what the heap knows, or an error about the value. -/
theorem fits_call (hknown : ∀ c, heap.Runs c → known c) (hK : ∀ v, K (p.go p.ip (r.after v p.stack)))
    (callee this : Value) (args : List Value) (what : String) :
    (Control.call heap callee this args what r).Fits known K p := by
  rw [Control.call]
  split
  · next target htarget =>
    obtain ⟨h, -, hcallable⟩ := Option.bind_eq_some_iff.mp htarget
    exact ⟨fun c hc => hknown c ⟨h, hc ▸ hcallable⟩, hK⟩
  · intro fault h
    cases h

/-- What was read is delivered, or the getter is called. -/
theorem fits_afterRead (hknown : ∀ c, heap.Runs c → known c)
    (hK : ∀ v, K (p.go p.ip (r.after v p.stack))) (this : Value) (read : PropertyRead) :
    (Control.afterRead heap this r read).Fits known K p := by
  cases read with
  | value v => exact hK
  | getter h => exact fits_call hknown hK _ _ _ _

/-- The setter is called, if there is one. -/
theorem fits_afterWrite (hknown : ∀ c, heap.Runs c → known c)
    (hK : ∀ v, K (p.go p.ip (r.after v p.stack))) (this v : Value) (write : PropertyWrite) :
    (Control.afterWrite heap this v r write).Fits known K p := by
  cases write with
  | setter h => exact fits_call hknown hK _ _ _ _
  | stored => exact hK
  | ignored => exact hK

end Control

namespace Turn

section

variable {new : Closure → Prop} {w w' : World} {f f' : Frame} {c : Closure} {base : Option EnvId}
variable {F : CodeFunction} {rg : List (Nat × Nat)} {withs : Nat} {K : Point → Prop}

/-- **A turn** of a frame that stays in its place. -/
theorem sound_of (hf : f.Held w.envs c base F rg withs) (hw : w.Moves new w') (hstays : f.Stays f')
    {control : Control}
    (hfits : control.Fits (fun c => w.Runs c ∨ w'.Runs c) K (f'.point rg withs)) :
    Turn.Sound new w f.resume c base F rg K ⟨w', f', control⟩ :=
  ⟨hw, ⟨rg, withs, (hf.evolves hw.evolves).stays hstays, hfits, .inl rfl⟩, hstays.resume⟩

/-- **Arguments and the value below them** are there. -/
theorem withArgs_eq {n : Nat} (h : n < f.stack.length) (k : Value → List Value → Frame → Turn) :
    ∃ v args, withArgs w f n k = k v args { f with stack := f.stack.drop (n + 1) } :=
  ⟨_, _, withArgs_eq_of_getElem? (List.getElem?_eq_getElem h) w k⟩

variable (hes : w.envs.Grounded) (hf : f.Held w.envs c base F rg withs)

include hes hf

/-- The next instruction follows, in the same world but for the objects. -/
theorem sound_next (hw : w.Stays w') (hstays : f.Stays f') (hK : K (f'.point rg withs)) :
    Sound new w f.resume c base F rg K (next w' f') :=
  sound_of hf (hw.moves hes new) hstays hK

/-- A value is pushed. -/
theorem sound_push (hw : w.Stays w') {v : Value} (hK : K ⟨f.ip, v :: f.stack, rg, withs⟩) :
    Sound new w f.resume c base F rg K (push w' f v) :=
  sound_next hes hf hw (f.stays_go _ _) hK

/-! ### Operands -/

/-- Dropping the top. -/
theorem sound_pop (h : ∃ v rest, f.stack = v :: rest ∧ K ⟨f.ip, rest, rg, withs⟩) :
    Sound new w f.resume c base F rg K (pop w f) := by
  obtain ⟨v, rest, hstack, hK⟩ := h
  rw [pop, hstack]
  exact sound_next hes hf (.refl w) (f.stays_go _ _) hK

/-- Pushing the top once more. -/
theorem sound_dup (h : ∃ v rest, f.stack = v :: rest ∧ K ⟨f.ip, v :: v :: rest, rg, withs⟩) :
    Sound new w f.resume c base F rg K (dup w f) := by
  obtain ⟨v, rest, hstack, hK⟩ := h
  rw [dup, hstack]
  exact sound_push hes hf (.refl w) (hstack ▸ hK)

/-- Computing of the top. -/
theorem sound_unary (op : Value → Value)
    (h : ∃ v rest, f.stack = v :: rest ∧ ∀ v, K ⟨f.ip, v :: rest, rg, withs⟩) :
    Sound new w f.resume c base F rg K (unary w f op) := by
  obtain ⟨v, rest, hstack, hK⟩ := h
  rw [unary, hstack]
  exact sound_next hes hf (.refl w) (f.stays_go _ _) (hK _)

/-- Computing of the two values at the top. -/
theorem sound_binary (op : BinaryOp)
    (h : ∃ b a rest, f.stack = b :: a :: rest ∧ ∀ v, K ⟨f.ip, v :: rest, rg, withs⟩) :
    Sound new w f.resume c base F rg K (binary w f op) := by
  obtain ⟨b, a, rest, hstack, hK⟩ := h
  rw [binary, hstack]
  exact sound_next hes hf (.refl w) (f.stays_go _ _) (hK _)

/-! ### Variables by position -/

/-- **Reading a local.** -/
theorem sound_getLocal {slot : Nat}
    (h : slot < F.localCount ∧ ∀ v, K ⟨f.ip, v :: f.stack, rg, withs⟩) :
    Sound new w f.resume c base F rg K (getLocal w f slot) := by
  have hlt : slot < f.locals.size := by
    rw [hf.locals]
    exact h.1
  rw [getLocal, Array.getElem?_eq_getElem hlt]
  exact sound_push hes hf (.refl w) (h.2 _)

/-- **Writing a local.** -/
theorem sound_setLocal {slot : Nat}
    (h : slot < F.localCount ∧ f.stack ≠ [] ∧ K ⟨f.ip, f.stack, rg, withs⟩) :
    Sound new w f.resume c base F rg K (setLocal w f slot) := by
  obtain ⟨hlt, hstack, hK⟩ := h
  rw [← hf.locals] at hlt
  obtain ⟨v, rest, hcons⟩ := List.exists_cons_of_ne_nil hstack
  rw [setLocal, hcons]
  simp only [hlt, if_true]
  exact sound_next hes hf (.refl w) ⟨rfl, rfl, by simp, rfl, rfl, rfl⟩ (hcons ▸ hK)

/-- **Reading a slot of an environment.** -/
theorem sound_getEnv {depth slot : Nat} {id : EnvId}
    (henv : (f.env.bind fun id => w.envs.ancestor? id depth) = some id)
    (hK : ∀ v, K ⟨f.ip, v :: f.stack, rg, withs⟩) :
    Sound new w f.resume c base F rg K (getEnv w f depth slot) := by
  rw [getEnv, henv]
  exact sound_push hes hf (.refl w) (hK _)

/-- **Writing a slot of an environment.** -/
theorem sound_setEnv {depth slot : Nat} {id : EnvId}
    (henv : (f.env.bind fun id => w.envs.ancestor? id depth) = some id)
    (hslot : w.envs.hasSlot id slot = true)
    (h : f.stack ≠ [] ∧ K ⟨f.ip, f.stack, rg, withs⟩) :
    Sound new w f.resume c base F rg K (setEnv w f depth slot) := by
  obtain ⟨v, rest, hcons⟩ := List.exists_cons_of_ne_nil h.1
  rw [setEnv, hcons]
  simp only [henv, hslot, if_true]
  exact sound_of hf (World.moves_setSlot hes id slot v) ⟨rfl, rfl, rfl, rfl, rfl, rfl⟩ h.2

/-! ### Variables by name -/

/-- What was read is delivered to the frame. -/
theorem sound_read (hstays : f.Stays f') {r : Resume}
    (hK : ∀ v, K ⟨f'.ip, r.after v f'.stack, rg, withs⟩) (this : Value) (read : PropertyRead) :
    Sound new w f.resume c base F rg K ⟨w, f', .afterRead w.heap this r read⟩ :=
  sound_of hf ((World.Stays.refl w).moves hes new) hstays
    (Control.fits_afterRead (fun _ hc => .inr (.inl hc)) hK this read)

/-- **Reading a global.** -/
theorem sound_getGlobal (m : Machine) (name : String) (hK : ∀ v, K ⟨f.ip, v :: f.stack, rg, withs⟩) :
    Sound new w f.resume c base F rg K (getGlobal m w f name) :=
  sound_read hes hf ⟨rfl, rfl, rfl, rfl, rfl, rfl⟩ hK _ _

/-- **Writing a global.** -/
theorem sound_setGlobal (m : Machine) (name : String)
    (h : f.stack ≠ [] ∧ K ⟨f.ip, f.stack, rg, withs⟩) :
    Sound new w f.resume c base F rg K (setGlobal m w f name) := by
  obtain ⟨v, rest, hcons⟩ := List.exists_cons_of_ne_nil h.1
  rw [setGlobal, hcons]
  have hw := w.stays_write m.realm.global name v
  refine sound_of hf (hw.moves hes new) ⟨rfl, rfl, rfl, rfl, rfl, rfl⟩ ?_
  exact Control.fits_afterWrite (fun _ hc => .inr (.inl hc)) (fun _ => h.2) _ _ _

/-- **Removing a global.** -/
theorem sound_deleteGlobal (m : Machine) (name : String)
    (hK : ∀ v, K ⟨f.ip, v :: f.stack, rg, withs⟩) :
    Sound new w f.resume c base F rg K (deleteGlobal m w f name) :=
  sound_push hes hf (w.stays_delete m.realm.global name) (hK _)

/-- **Reading a name.** -/
theorem sound_getName (m : Machine) (name : String) (hK : ∀ v, K ⟨f.ip, v :: f.stack, rg, withs⟩) :
    Sound new w f.resume c base F rg K (getName m w f name) :=
  sound_read hes hf ⟨rfl, rfl, rfl, rfl, rfl, rfl⟩ hK _ _

/-- **Writing a name.** -/
theorem sound_setName (m : Machine) (name : String)
    (h : f.stack ≠ [] ∧ K ⟨f.ip, f.stack, rg, withs⟩) :
    Sound new w f.resume c base F rg K (setName m w f name) := by
  obtain ⟨v, rest, hcons⟩ := List.exists_cons_of_ne_nil h.1
  rw [setName, hcons]
  have hw : w.Moves new (m.writeName w f name v).2 := by
    rw [Machine.writeName]
    split
    · exact World.moves_setSlot hes _ _ _
    · exact (w.stays_write _ name v).moves hes new
    · exact (w.stays_write _ name v).moves hes new
  refine sound_of hf hw ⟨rfl, rfl, rfl, rfl, rfl, rfl⟩ ?_
  exact Control.fits_afterWrite (fun _ hc => .inr (.inl hc)) (fun _ => h.2) _ _ _

/-- **Calling a name.** -/
theorem sound_callName (m : Machine) (name : String) {argc : Nat}
    (h : argc ≤ f.stack.length ∧ ∀ v, K ⟨f.ip, v :: f.stack.drop argc, rg, withs⟩) :
    Sound new w f.resume c base F rg K (callName m w f name argc) := by
  rw [callName, popArgs?_eq h.1]
  exact sound_read hes hf (f.stays_go _ _) h.2 _ _

/-- **Removing a name.** -/
theorem sound_deleteName (m : Machine) (name : String)
    (hK : ∀ v, K ⟨f.ip, v :: f.stack, rg, withs⟩) :
    Sound new w f.resume c base F rg K (deleteName m w f name) := by
  have hw : w.Stays (m.eraseName w f name).2 := by
    rw [Machine.eraseName]
    split
    · exact .refl w
    · exact w.stays_delete _ name
    · exact w.stays_delete _ name
  exact sound_push hes hf hw (hK _)

/-! ### Properties and calls -/

/-- **Reading a property.** -/
theorem sound_getMember (m : Machine) (index : Nat) (site : CallSite)
    (h : ∃ v rest, f.stack = v :: rest ∧ ∀ v, K ⟨f.ip, v :: rest, rg, withs⟩) :
    Sound new w f.resume c base F rg K (getMember m w f index site) := by
  obtain ⟨receiver, rest, hstack, hK⟩ := h
  rw [getMember, hstack]
  simp only
  split
  · next read w' hread =>
    refine sound_of hf ((Machine.stays_readMember hread).1.moves hes new) (f.stays_go _ _) ?_
    exact Control.fits_afterRead (fun _ hc => .inr (.inl hc)) hK _ _
  · next e w' hread =>
    obtain ⟨hw, hfault⟩ := Machine.stays_readMember hread
    exact sound_of hf (hw.moves hes new) (f.stays_go _ _) fun fault he => hfault fault (he ▸ rfl)

/-- **Writing a property.** -/
theorem sound_setMember (m : Machine) (index : Nat) (site : CallSite)
    (h : ∃ v receiver rest, f.stack = v :: receiver :: rest ∧ K ⟨f.ip, v :: rest, rg, withs⟩) :
    Sound new w f.resume c base F rg K (setMember m w f index site) := by
  obtain ⟨v, receiver, rest, hstack, hK⟩ := h
  rw [setMember, hstack]
  simp only
  split
  · next result w' hwrite =>
    refine sound_of hf ((Machine.stays_writeMember hwrite).1.moves hes new) (f.stays_go _ _) ?_
    exact Control.fits_afterWrite (fun _ hc => .inr (.inl hc)) (fun _ => hK) _ _ _
  · next e w' hwrite =>
    obtain ⟨hw, hfault⟩ := Machine.stays_writeMember hwrite
    exact sound_of hf (hw.moves hes new) (f.stays_go _ _) fun fault he => hfault fault (he ▸ rfl)

/-- **Removing a property.** -/
theorem sound_deleteMember (name : String)
    (h : ∃ v rest, f.stack = v :: rest ∧ ∀ v, K ⟨f.ip, v :: rest, rg, withs⟩) :
    Sound new w f.resume c base F rg K (deleteMember w f name) := by
  obtain ⟨receiver, rest, hstack, hK⟩ := h
  rw [deleteMember, hstack]
  split
  · next heq => cases heq
  · next k _ heq =>
    cases heq
    exact sound_next hes hf (w.stays_delete k name) (f.stays_go _ _) (hK _)
  · next heq =>
    cases heq
    split
    · refine sound_of hf ((World.Stays.refl w).moves hes new) (f.stays_go _ _) fun fault he => ?_
      cases he
    · exact sound_next hes hf (.refl w) (f.stays_go _ _) (hK _)

/-- **Calling a property.** -/
theorem sound_invokeMember (m : Machine) (index : Nat) (site : CallSite)
    (h : site.argc.toNat < f.stack.length ∧
      ∀ v, K ⟨f.ip, v :: f.stack.drop (site.argc.toNat + 1), rg, withs⟩) :
    Sound new w f.resume c base F rg K (invokeMember m w f index site) := by
  obtain ⟨receiver, args, hargs⟩ := withArgs_eq (w := w) h.1 _
  rw [invokeMember, hargs]
  split
  · next read w' hread =>
    refine sound_of hf ((Machine.stays_readMember hread).1.moves hes new) (f.stays_go _ _) ?_
    exact Control.fits_afterRead (fun _ hc => .inr (.inl hc)) h.2 _ _
  · next e w' hread =>
    obtain ⟨hw, hfault⟩ := Machine.stays_readMember hread
    exact sound_of hf (hw.moves hes new) (f.stays_go _ _) fun fault he => hfault fault (he ▸ rfl)

/-- **Calling a value that was read from a global.** -/
theorem sound_callGlobal (m : Machine) (index : Nat) (site : CallSite)
    (h : site.argc.toNat < f.stack.length ∧
      ∀ v, K ⟨f.ip, v :: f.stack.drop (site.argc.toNat + 1), rg, withs⟩) :
    Sound new w f.resume c base F rg K (callGlobal m w f index site) := by
  obtain ⟨callee, args, hargs⟩ := withArgs_eq (w := w) h.1 _
  rw [callGlobal, hargs]
  split
  · next target w' htarget =>
    obtain ⟨hw, hknown⟩ := World.stays_globalTarget htarget
    refine sound_of hf (hw.moves hes new) (f.stays_go _ _) ⟨fun c hc => .inl ?_, h.2⟩
    exact hknown c (congrArg some hc)
  · next w' htarget =>
    obtain ⟨hw, -⟩ := World.stays_globalTarget htarget
    refine sound_of hf (hw.moves hes new) (f.stays_go _ _) fun fault he => ?_
    cases he

/-- **Calling any value.** -/
theorem sound_call (m : Machine) {argc : Nat}
    (h : argc < f.stack.length ∧ ∀ v, K ⟨f.ip, v :: f.stack.drop (argc + 1), rg, withs⟩) :
    Sound new w f.resume c base F rg K (call m w f argc) := by
  obtain ⟨callee, args, hargs⟩ := withArgs_eq (w := w) h.1 _
  rw [call, hargs]
  refine sound_of hf ((World.Stays.refl w).moves hes new) (f.stays_go _ _) ?_
  exact Control.fits_call (fun _ hc => .inr (.inl hc)) h.2 _ _ _ _

/-! ### Objects -/

/-- **Making a function** over the current environment. -/
theorem sound_closure (m : Machine) {index : Nat} {u : CodeUnit} {G : CodeFunction}
    (hcode : m.code f.unit index = .ok (u, G)) (hK : ∀ h, K ⟨f.ip, .object h :: f.stack, rg, withs⟩) :
    Sound (· = ⟨f.unit, index, f.env⟩) w f.resume c base F rg K (closure m w f index) := by
  have hw : w.Moves (· = ⟨f.unit, index, f.env⟩) { w with
      heap := (m.realm.newFunction w.heap (.script ⟨f.unit, index, f.env⟩) G.name G.params.length).2 } := by
    refine ⟨.refl _, hes, fun c hc => ?_⟩
    obtain hc | hc := hc
    · obtain hc | hc := Realm.runs_newFunction hc
      · exact .inl (.inl hc)
      · exact .inr (Callable.script.inj hc).symm
    · exact .inl (.inr hc)
  rw [closure, hcode]
  refine sound_of hf hw (f.stays_go f.ip (.object _ :: f.stack)) ?_
  exact hK _

/-- Making an object. -/
theorem sound_newObject (m : Machine) (hK : ∀ h, K ⟨f.ip, .object h :: f.stack, rg, withs⟩) :
    Sound new w f.resume c base F rg K (newObject m w f) :=
  sound_push hes hf (w.stays_heap (m.realm.scripts_newObject w.heap)) (hK _)

/-- **Defining a property** of the object below the top. -/
theorem sound_initProperty (name : String)
    (h : ∃ v k rest, f.stack = v :: .object k :: rest ∧ K ⟨f.ip, .object k :: rest, rg, withs⟩) :
    Sound new w f.resume c base F rg K (initProperty w f name) := by
  obtain ⟨v, k, rest, hstack, hK⟩ := h
  rw [initProperty, hstack]
  exact sound_next hes hf (w.stays_heap (w.heap.scripts_define _ _ _)) (f.stays_go _ _) hK

/-! ### Flow -/

/-- A jump. -/
theorem sound_jump {target : Nat} (hK : K ⟨target, f.stack, rg, withs⟩) :
    Sound new w f.resume c base F rg K (next w (f.jump target)) :=
  sound_next hes hf (.refl w) (f.stays_go _ _) hK

/-- A jump if the top is false. -/
theorem sound_jumpIfFalse {target : Nat}
    (h : ∃ v rest, f.stack = v :: rest ∧ K ⟨f.ip, rest, rg, withs⟩ ∧ K ⟨target, rest, rg, withs⟩) :
    Sound new w f.resume c base F rg K (jumpIfFalse w f target) := by
  obtain ⟨v, rest, hstack, hnext, hjump⟩ := h
  rw [jumpIfFalse, hstack]
  simp only
  split
  · exact sound_next hes hf (.refl w) (f.stays_go _ _) hnext
  · exact sound_next hes hf (.refl w) (f.stays_go _ _) hjump

/-- A jump that keeps the top. -/
theorem sound_jumpOrPop (truth : Bool) {target : Nat} (h : ∃ v rest, f.stack = v :: rest ∧
      K ⟨f.ip, rest, rg, withs⟩ ∧ K ⟨target, v :: rest, rg, withs⟩) :
    Sound new w f.resume c base F rg K (jumpOrPop w f truth target) := by
  obtain ⟨v, rest, hstack, hnext, hjump⟩ := h
  rw [jumpOrPop, hstack]
  simp only
  split
  · rw [← hstack] at hjump
    exact sound_next hes hf (.refl w) ⟨rfl, rfl, rfl, rfl, rfl, rfl⟩ hjump
  · exact sound_next hes hf (.refl w) (f.stays_go _ _) hnext

/-- Raising the top. -/
theorem sound_throwTop (h : f.stack ≠ []) : Sound new w f.resume c base F rg K (throwTop w f) := by
  obtain ⟨v, rest, hcons⟩ := List.exists_cons_of_ne_nil h
  rw [throwTop, hcons]
  refine sound_of hf ((World.Stays.refl w).moves hes new) (f.stays_go _ _) fun fault he => ?_
  cases he

/-- Returning the top. -/
theorem sound_retTop (h : f.stack ≠ []) : Sound new w f.resume c base F rg K (retTop w f) := by
  obtain ⟨v, rest, hcons⟩ := List.exists_cons_of_ne_nil h
  rw [retTop, hcons]
  exact sound_of hf ((World.Stays.refl w).moves hes new) (f.stays_go _ _) trivial

/-! ### Regions -/

/-- **Entering a `with` body**: one more object lies on top. -/
theorem sound_enterWith (hbase : w.envs.Has base)
    (h : ∃ v rest, f.stack = v :: rest ∧ K ⟨f.ip, rest, rg, withs + 1⟩) :
    Sound new w f.resume c base F rg K (enterWith w f) := by
  obtain ⟨v, rest, hstack, hK⟩ := h
  rw [enterWith, hstack]
  split
  · next heq => cases heq
  · next k _ heq =>
    cases heq
    have hev := w.envs.evolves_push ⟨.object k, #[], f.env⟩
    have hget := w.envs.get?_push ⟨.object k, #[], f.env⟩ ⟨w.envs.store.size⟩
    rw [if_pos rfl] at hget
    refine ⟨⟨hev, hes.push (hf.env.has hbase), fun c hc => .inl hc⟩,
      ⟨rg, withs + 1, ⟨hf.unit, hf.index, hf.locals, ?_, hf.handlers.evolves hev⟩, hK, .inl rfl⟩, rfl⟩
    exact ⟨_, k, #[], f.env, rfl, hget, hf.env.evolves hev⟩
  · next heq =>
    cases heq
    refine sound_of hf ((World.Stays.refl w).moves hes new) (f.stays_go _ _) fun fault he => ?_
    cases he

/-- **Leaving a `with` body**: its object lies on top. -/
theorem sound_exitWith (h : ∃ k, withs = k + 1 ∧ K ⟨f.ip, f.stack, rg, k⟩) :
    Sound new w f.resume c base F rg K (exitWith w f) := by
  obtain ⟨k, rfl, hK⟩ := h
  obtain ⟨id, o, slots, parent, henv, hget, hover⟩ := hf.env
  rw [exitWith, henv]
  simp only [hget]
  refine ⟨(World.Stays.refl w).moves hes new,
    ⟨rg, k, ⟨hf.unit, hf.index, hf.locals, hover, hf.handlers⟩, hK, .inl rfl⟩, rfl⟩

/-- **Entering a protected region.** -/
theorem sound_tryBegin {target : Nat}
    (h : f.stack = [] ∧ K ⟨f.ip, [], (target, withs) :: rg, withs⟩) :
    Sound new w f.resume c base F rg K (next w (f.protect target)) := by
  refine ⟨(World.Stays.refl w).moves hes new, ⟨(target, withs) :: rg, withs, ?_, ?_, .inr rfl⟩, rfl⟩
  · refine ⟨hf.unit, hf.index, hf.locals, hf.env, ⟨rfl, ?_, hf.env⟩, hf.handlers⟩
    rw [h.1]
    rfl
  · show K ⟨f.ip, f.stack, (target, withs) :: rg, withs⟩
    rw [h.1]
    exact h.2

/-- **Leaving a protected region**: its handler is the innermost one. -/
theorem sound_tryEnd (h : ∃ target outer, rg = (target, withs) :: outer ∧
      K ⟨f.ip, f.stack, outer, withs⟩) :
    Sound new w f.resume c base F rg K (tryEnd w f) := by
  obtain ⟨target, outer, rfl, hK⟩ := h
  have hhandlers := hf.handlers
  rcases hcons : f.handlers with _ | ⟨x, xs⟩
  · rw [hcons] at hhandlers
    exact hhandlers.elim
  · rw [hcons] at hhandlers
    rw [tryEnd, hcons]
    exact ⟨(World.Stays.refl w).moves hes new,
      ⟨outer, withs, ⟨hf.unit, hf.index, hf.locals, hf.env, hhandlers.2⟩, hK, .inr rfl⟩, rfl⟩

end

end Turn

/-! ## All instructions -/

/-- **An instruction that is allowed** finds what it needs, and leads where it may lead. The only new
function of a program is the one that it makes. -/
theorem Machine.sound_execute {m : Machine} {w : World} {f : Frame} {c : Closure} {base : Option EnvId}
    {U : Blueprint} {F : CodeFunction} {src : Source} {rg : List (Nat × Nat)} {withs next : Nat}
    {K : Point → Prop} {i : Instruction} (hes : w.envs.Grounded) (hbase : w.envs.Has base)
    (hf : f.Held w.envs c base F rg withs)
    (haddress : ∀ {depth slot v}, U.Addresses src withs depth slot v →
      ∃ id, (f.env.bind fun id => w.envs.ancestor? id depth) = some id ∧ w.envs.hasSlot id slot = true)
    (hcode : ∀ {index inner}, U.sources[index]? = some inner →
      ∃ code, m.code f.unit index = .ok code)
    (h : i.Allows U F src K (f.point rg withs) next) :
    (m.execute w (f.jump next) i).Sound (fun c => ∃ index, i = .closure index ∧
      c = ⟨f.unit, index, f.env⟩) w f.resume c base F rg K := by
  have hf : (f.jump next).Held w.envs c base F rg withs := hf.stays (f.stays_go _ _)
  cases i with
  | push v => exact Turn.sound_push hes hf (.refl w) h
  | pop => exact Turn.sound_pop hes hf h
  | dup => exact Turn.sound_dup hes hf h
  | getLocal slot => exact Turn.sound_getLocal hes hf h
  | setLocal slot => exact Turn.sound_setLocal hes hf h
  | getEnv depth slot =>
    obtain ⟨⟨v, hv⟩, hK⟩ := h
    obtain ⟨id, henv, -⟩ := haddress hv
    exact Turn.sound_getEnv hes hf henv hK
  | setEnv depth slot =>
    obtain ⟨⟨v, hv⟩, hK⟩ := h
    obtain ⟨id, henv, hslot⟩ := haddress hv
    exact Turn.sound_setEnv hes hf henv hslot hK
  | getGlobal name => exact Turn.sound_getGlobal hes hf m name h
  | setGlobal name => exact Turn.sound_setGlobal hes hf m name h
  | deleteGlobal name => exact Turn.sound_deleteGlobal hes hf m name h
  | getName name => exact Turn.sound_getName hes hf m name h
  | setName name => exact Turn.sound_setName hes hf m name h
  | callName name argc => exact Turn.sound_callName hes hf m name h
  | deleteName name => exact Turn.sound_deleteName hes hf m name h
  | getMember k site => exact Turn.sound_getMember hes hf m k site h
  | setMember k site => exact Turn.sound_setMember hes hf m k site h
  | deleteMember name => exact Turn.sound_deleteMember hes hf name h
  | callGlobal k site => exact Turn.sound_callGlobal hes hf m k site h
  | invokeMember k site => exact Turn.sound_invokeMember hes hf m k site h
  | call argc => exact Turn.sound_call hes hf m h
  | closure index =>
    obtain ⟨⟨inner, hinner, -⟩, hK⟩ := h
    obtain ⟨⟨u, G⟩, hG⟩ := hcode hinner
    obtain ⟨⟨hev, hground, hruns⟩, hframe, hresume⟩ := Turn.sound_closure hes hf m hG hK
    exact ⟨⟨hev, hground, fun c hc => (hruns c hc).imp_right fun hc => ⟨index, rfl, hc⟩⟩, hframe, hresume⟩
  | newObject => exact Turn.sound_newObject hes hf m h
  | initProperty name => exact Turn.sound_initProperty hes hf name h
  | getThis => exact Turn.sound_push hes hf (.refl w) (h _)
  | getCallee => exact Turn.sound_push hes hf (.refl w) (h _)
  | binary op => exact Turn.sound_binary hes hf op h
  | negate => exact Turn.sound_unary hes hf _ h
  | plus => exact Turn.sound_unary hes hf _ h
  | not => exact Turn.sound_unary hes hf _ h
  | typeof => exact Turn.sound_unary hes hf _ h
  | jump target => exact Turn.sound_jump hes hf h
  | jumpIfFalse target => exact Turn.sound_jumpIfFalse hes hf h
  | jumpIfFalseOrPop target => exact Turn.sound_jumpOrPop hes hf false h
  | jumpIfTrueOrPop target => exact Turn.sound_jumpOrPop hes hf true h
  | enterWith => exact Turn.sound_enterWith hes hf hbase h
  | exitWith => exact Turn.sound_exitWith hes hf h
  | tryBegin target => exact Turn.sound_tryBegin hes hf h
  | tryEnd =>
    obtain ⟨target, outer, hrg, -, hK⟩ := h
    exact Turn.sound_tryEnd hes hf ⟨target, outer, hrg, hK⟩
  | throw => exact Turn.sound_throwTop hes hf h
  | ret => exact Turn.sound_retTop hes hf h
  | retUndefined =>
    exact Turn.sound_of hf ((World.Stays.refl w).moves hes _) ⟨rfl, rfl, rfl, rfl, rfl, rfl⟩ trivial

end ScriptEngine
