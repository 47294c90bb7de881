import ScriptEngine.Proofs.Code.Construction
import ScriptEngine.Proofs.Heap.Permanent
import ScriptEngine.Proofs.Host.Record
import ScriptEngine.Proofs.Machine.Progress

/-!
# Runs leave permanent properties alone

While compiled code runs, an operand that is marked as an object under construction has no permanent
property (`Heap.Honours`). Every frame stands where its code carries its marks (`Frame.Ready`), and each
instruction keeps that and retains what is permanent (`Machine.carries_execute`), whatever the environments
and the caches are. Steps and runs follow (`Machine.Scripted.step`, `Machine.Scripted.run`).
-/

namespace ScriptEngine

/-! ## Marked operands -/

/-- Every marked operand is an object without permanent properties. -/
def Heap.Honours (heap : Heap) (marks : List Bool) (stack : List Value) : Prop :=
  List.Forall₂ (fun mark v => mark = true → ∃ h, v = .object h ∧ heap.Plain h) marks stack

namespace Heap.Honours

variable {a b heap : Heap} {marks : List Bool} {stack : List Value} {u v : Value}

/-- Marked operands stay without permanent properties. -/
theorem retains (hab : a.Retains b) (h : a.Honours marks stack) : b.Honours marks stack := by
  refine List.Forall₂.imp (fun mark v hv hmark => ?_) h
  obtain ⟨k, rfl, hplain⟩ := hv hmark
  exact ⟨k, rfl, hab.plain k hplain⟩

/-- Without marks any operands do. -/
theorem unmarked (heap : Heap) (stack : List Value) : heap.Honours (stack.map fun _ => false) stack := by
  induction stack with
  | nil => exact .nil
  | cons v rest ih => exact .cons (fun h => by cases h) ih

/-- One more operand, without a mark. -/
theorem push (h : heap.Honours marks stack) (v : Value) : heap.Honours (false :: marks) (v :: stack) :=
  .cons (fun h => by cases h) h

/-- Fewer operands. -/
theorem drop (h : heap.Honours marks stack) (n : Nat) : heap.Honours (marks.drop n) (stack.drop n) :=
  List.forall₂_drop n h

/-- Without marks there are no operands. -/
theorem stack_eq_nil (h : heap.Honours [] stack) : stack = [] := List.forall₂_nil_left_iff.mp h

/-- A marked operand below the top has no permanent property. -/
theorem plain_below (h : heap.Honours marks (v :: u :: stack)) (hmark : marks[1]? = some true) :
    ∃ k, u = .object k ∧ heap.Plain k := by
  obtain ⟨_, marks', -, h', rfl⟩ := List.forall₂_cons_right_iff.mp h
  obtain ⟨mark, marks'', hu, -, rfl⟩ := List.forall₂_cons_right_iff.mp h'
  exact hu (by simpa using hmark)

end Heap.Honours

/-! ## What comes next -/

/-- The marks after a call has given its value. -/
def Resume.marks (marks : List Bool) : Resume → List Bool
  | push | pushInstead _ | callWith .. => false :: marks
  | discard => marks

/-- The marks suit what comes next: the next instruction, or a value that is awaited. -/
def Control.Awaits (K : List Bool → Prop) (marks : List Bool) : Control → Prop
  | .execute => K marks
  | .enter _ _ _ _ r | .deliver r _ => K (r.marks marks)
  | .ret _ | .raise _ => True

namespace Control

variable {K : List Bool → Prop} {marks : List Bool} {r : Resume}

/-- A call awaits its value, or is an error. -/
theorem awaits_call (hK : K (r.marks marks)) (heap : Heap) (callee this : Value) (args : List Value)
    (what : String) : (Control.call heap callee this args what r).Awaits K marks := by
  rw [Control.call]
  split
  · exact hK
  · trivial

/-- What was read is delivered, or the getter is called. -/
theorem awaits_afterRead (hK : K (r.marks marks)) (heap : Heap) (this : Value) (read : PropertyRead) :
    (Control.afterRead heap this r read).Awaits K marks := by
  cases read with
  | value v => exact hK
  | getter h => exact awaits_call hK heap _ _ _ _

/-- The setter is called, if there is one. -/
theorem awaits_afterWrite (hK : K (r.marks marks)) (heap : Heap) (this v : Value) (write : PropertyWrite) :
    (Control.afterWrite heap this v r write).Awaits K marks := by
  cases write with
  | setter h => exact awaits_call hK heap _ _ _ _
  | stored => exact hK
  | ignored => exact hK

end Control

/-! ## Writing -/

section

variable {w : World}

/-- Writing through a site is writing or overwriting. -/
theorem World.retains_writeObject (he : w.heap.Exact) (mode : CacheMode) (id : SiteId) (receiver : Handle)
    (name : String) (v : Value) :
    w.heap.Retains (w.writeObject mode id receiver name v).2.heap := by
  obtain ⟨heap, envs, caches, log⟩ := w
  rw [writeObject]
  simp only
  split
  · next heap' hover =>
    obtain ⟨-, -, hover⟩ := Option.bind_eq_some_iff.mp hover
    exact he.retains_overwrite hover
  · have hwrite := he.retains_write receiver name v
    split
    · next heap' heq =>
      rw [heq] at hwrite
      exact hwrite
    · next heap' _ heq =>
      rw [heq] at hwrite
      exact hwrite

namespace Machine

variable (m : Machine)

/-- Writing a property of any value. -/
theorem retains_writeMember (he : w.heap.Exact) {w' : World} {id : SiteId} {receiver v : Value} {name : String}
    {result : Except RuntimeError PropertyWrite}
    (h : m.writeMember w id receiver name v = (result, w')) : w.heap.Retains w'.heap := by
  obtain rfl : w' = _ := (congrArg Prod.snd h).symm
  clear h
  rw [writeMember.eq_def]
  split
  · exact World.retains_writeObject he _ _ _ name v
  · split
    · exact .refl he
    · exact .refl he

/-- Writing what a name stands for. -/
theorem retains_writeName (he : w.heap.Exact) (f : Frame) (name : String) (v : Value) :
    w.heap.Retains (m.writeName w f name v).2.heap := by
  rw [writeName]
  split
  · exact .refl he
  · exact he.retains_write _ name v
  · exact he.retains_write _ name v

/-- Removing what a name stands for. -/
theorem retains_eraseName (he : w.heap.Exact) (f : Frame) (name : String) :
    w.heap.Retains (m.eraseName w f name).2.heap := by
  rw [eraseName]
  split
  · exact .refl he
  · exact he.retains_delete _ name
  · exact he.retains_delete _ name

end Machine

end

/-! ## Instructions -/

/-- There are no operands at the start of a region, and its handler carries one. -/
def Frame.Guarded (K : Nat → List Bool → Prop) (f : Frame) : Prop :=
  ∀ h ∈ f.handlers, h.stackSize = 0 ∧ K h.target [false]

/-- What is known after an instruction: it has retained what is permanent, and the frame stands where its
marks suit what comes next. -/
structure Turn.Carries (w : World) (K : Nat → List Bool → Prop) (t : Turn) : Prop where
  /-- The heap. -/
  heap : w.heap.Retains t.world.heap
  /-- The handlers. -/
  handlers : t.frame.Guarded K
  /-- The operands. -/
  operands : ∃ marks, t.world.heap.Honours marks t.frame.stack ∧ t.control.Awaits (K t.frame.ip) marks

namespace Turn

section

variable {m : Machine} {w w' : World} {f f' : Frame} {K : Nat → List Bool → Prop} {marks : List Bool}

/-- **A turn** after which the marks of operands suit what comes next. -/
theorem Carries.of (hw : w.heap.Retains w'.heap) (hf : f.Guarded K) {stack : List Value}
    (hs : w.heap.Honours marks stack) {control : Control} (hc : control.Awaits (K f.ip) marks)
    {locals : Array Value} {env : Option EnvId} :
    Carries w K ⟨w', { f with stack, locals, env }, control⟩ :=
  ⟨hw, hf, marks, hs.retains hw, hc⟩

/-- After an error nothing is asked of the operands. -/
theorem Carries.raise (hw : w.heap.Retains w'.heap) (hf : f.Guarded K) (e : RuntimeError)
    {stack : List Value} : Carries w K ⟨w', { f with stack }, .raise e⟩ :=
  ⟨hw, hf, _, .unmarked _ _, trivial⟩

/-- The next instruction follows. -/
theorem Carries.next (hw : w.heap.Retains w'.heap) (hf : f.Guarded K) {stack : List Value}
    (hs : w.heap.Honours marks stack) (hK : K f.ip marks) {locals : Array Value}
    {env : Option EnvId} : Carries w K (.next w' { f with stack, locals, env }) :=
  ⟨hw, hf, marks, hs.retains hw, hK⟩

end

end Turn

section

variable {m : Machine} {w : World} {f : Frame} {K : Nat → List Bool → Prop} {marks : List Bool}

/-- **What an instruction does** where it carries the marks of its operands. -/
theorem Machine.carries_execute (he : w.heap.Exact) (hf : f.Guarded K)
    (hs : w.heap.Honours marks f.stack) {i : Instruction} (hi : i.Carries K f.ip marks) :
    Turn.Carries w K (m.execute w f i) := by
  have h := m.executes w f i
  generalize m.execute w f i = t at h ⊢
  have hr : w.heap.Retains w.heap := .refl he
  cases h with
  | fault => exact .raise hr hf _
  | push | dup | getLocal | getEnv | getThis | getCallee => exact .next hr hf (hs.push _) hi
  | pop hstack =>
    rw [hstack] at hs
    exact .next hr hf (hs.drop 1) hi
  | setLocal => exact .next hr hf hs hi
  | setEnv => exact ⟨hr, hf, marks, hs, hi⟩
  | getGlobal | getName => exact .of hr hf hs (Control.awaits_afterRead hi _ _ _)
  | setGlobal => exact .of (he.retains_write ..) hf hs (Control.awaits_afterWrite hi _ _ _ _)
  | deleteGlobal => exact .next (he.retains_delete ..) hf (hs.push _) hi
  | setName => exact .of (m.retains_writeName he ..) hf hs (Control.awaits_afterWrite hi _ _ _ _)
  | callName => exact .of hr hf (hs.drop _) (Control.awaits_afterRead hi _ _ _)
  | deleteName => exact .next (m.retains_eraseName he ..) hf (hs.push _) hi
  | getMember hstack hread =>
    rw [hstack] at hs
    exact .of (.of_eq he (Machine.heap_readMember hread)) hf (hs.drop 1) (Control.awaits_afterRead hi _ _ _)
  | setMember hstack hwrite =>
    rw [hstack] at hs
    exact .of (m.retains_writeMember he hwrite) hf (hs.drop 2) (Control.awaits_afterWrite hi _ _ _ _)
  | getMemberError _ hread | invokeMemberError hread =>
    exact .raise (.of_eq he (Machine.heap_readMember hread)) hf _
  | setMemberError _ hwrite => exact .raise (m.retains_writeMember he hwrite) hf _
  | deleteMember hstack =>
    rw [hstack] at hs
    exact .next (he.retains_delete ..) hf ((hs.drop 1).push _) hi
  | deleteMemberError | enterWithError | throw => exact .raise hr hf _
  | callGlobal htarget =>
    refine .of (.of_eq he (w.heap_globalTarget _ _ htarget)) hf (hs.drop _) ?_
    exact hi
  | callGlobalError htarget => exact .raise (.of_eq he (w.heap_globalTarget _ _ htarget)) hf _
  | invokeMember hread =>
    exact .of (.of_eq he (Machine.heap_readMember hread)) hf (hs.drop _) (Control.awaits_afterRead hi _ _ _)
  | call => exact .of hr hf (hs.drop _) (Control.awaits_call hi _ _ _ _ _)
  | closure _ hmade =>
    subst hmade
    exact .next (m.realm.retains_newFunction he ..) hf (hs.push _) hi
  | newObject =>
    -- The object has no properties yet.
    have hmade := m.realm.retains_newObject he
    refine ⟨hmade, hf, true :: marks, .cons (fun _ => ?_) (hs.retains hmade), hi⟩
    exact ⟨_, rfl, m.realm.plain_newObject he⟩
  | initProperty hstack =>
    -- The operand is marked, so that it has no permanent property.
    rw [hstack] at hs
    obtain ⟨k, ⟨⟩, hplain⟩ := hs.plain_below hi.1
    exact .next (he.retains_define hplain ..) hf (hs.drop 1) hi.2
  | binary hstack =>
    rw [hstack] at hs
    exact .next hr hf ((hs.drop 2).push _) hi
  | negate hstack | plus hstack | not hstack | typeof hstack | deleteMemberOther hstack =>
    rw [hstack] at hs
    exact .next hr hf ((hs.drop 1).push _) hi
  | jump target => exact .next (f := f.jump target) hr hf hs hi
  | jumpIfFalse hstack | jumpIfFalseOrPop hstack | jumpIfTrueOrPop hstack =>
    rw [hstack] at hs
    exact .next hr hf (hs.drop 1) hi.1
  | @jumpIfFalseTaken target _ _ hstack =>
    rw [hstack] at hs
    exact .next (f := f.jump target) hr hf (hs.drop 1) hi.2
  | jumpIfFalseOrPopTaken hstack | jumpIfTrueOrPopTaken hstack =>
    refine ⟨hr, hf, false :: marks.drop 1, ?_, hi.2⟩
    show w.heap.Honours (false :: marks.drop 1) f.stack
    rw [hstack] at hs ⊢
    exact (hs.drop 1).push _
  | enterWith hstack =>
    rw [hstack] at hs
    exact ⟨hr, hf, _, hs.drop 1, hi⟩
  | exitWith => exact .next hr hf hs hi
  | tryBegin target =>
    obtain ⟨rfl, hnext, htarget⟩ := hi
    refine ⟨hr, fun h hh => ?_, [], hs, hnext⟩
    rcases List.mem_cons.mp hh with rfl | hh
    · exact ⟨by rw [hs.stack_eq_nil, List.length_nil], htarget⟩
    · exact hf h hh
  | tryEnd hregion =>
    refine ⟨hr, fun k hk => hf k ?_, marks, hs, hi⟩
    rw [hregion]
    exact List.mem_cons_of_mem _ hk
  | ret => exact ⟨hr, hf, _, .unmarked _ _, trivial⟩
  | retUndefined => exact ⟨hr, hf, marks, hs, trivial⟩

end

/-! ## Frames -/

/-- A frame of a function whose code was laid out, with the marks of its operands. -/
def Frame.Ready (m : Machine) (heap : Heap) (control : Control) (f : Frame) : Prop :=
  ∃ u F U marks, m.code f.unit f.index = .ok (u, F) ∧ U.pool = u.pool ∧ f.Guarded (Carries U F) ∧
    heap.Honours marks f.stack ∧ control.Awaits (Carries U F f.ip) marks

/-- The running frame is ready for what comes next, and every other one for the value that it waits for. -/
def FramesReady (m : Machine) (heap : Heap) : Control → List Frame → Prop
  | _, [] => True
  | control, f :: fs => f.Ready m heap control ∧ FramesReady m heap (.deliver f.resume .undefined) fs

/-- A machine whose units were all compiled, and whose host functions retain what is permanent. -/
structure Machine.Scripted (m : Machine) : Prop where
  /-- Every function was made of a source. -/
  code : ∀ unit index u F, m.code unit index = .ok (u, F) →
    ∃ (U : Blueprint) (src : Source), U.pool = u.pool ∧ U.Lays F src
  /-- Host functions retain what is permanent. -/
  natives : ∀ id (call : NativeCall), call.heap.Exact → call.heap.Retains (m.natives.run id call).heap

/-- A run under way: the vacant slots are listed exactly, and all frames are ready. -/
structure State.Ready (m : Machine) (s : State) : Prop where
  /-- The heap. -/
  heap : s.world.heap.Exact
  /-- The frames. -/
  frames : FramesReady m s.world.heap s.control s.frames

section

variable {m : Machine} {a b : Heap} {w : World} {f : Frame} {fs : List Frame} {depth : Nat}

/-- Frames stay ready. -/
theorem FramesReady.retains (hab : a.Retains b) {control : Control} (h : FramesReady m a control fs) :
    FramesReady m b control fs := by
  induction fs generalizing control with
  | nil => trivial
  | cons f fs ih =>
    obtain ⟨⟨u, F, U, marks, hcode, hpool, hf, hs, hc⟩, hrest⟩ := h
    exact ⟨⟨u, F, U, marks, hcode, hpool, hf, hs.retains hab, hc⟩, ih hrest⟩

/-- Frames that are ready for one thing are ready for another that asks no more. -/
theorem FramesReady.switch {control control' : Control} (h : FramesReady m a control fs)
    (hc : ∀ K marks, control.Awaits K marks → control'.Awaits K marks) : FramesReady m a control' fs := by
  cases fs with
  | nil => trivial
  | cons f fs =>
    obtain ⟨⟨u, F, U, marks, hcode, hpool, hf, hs, hawaits⟩, hrest⟩ := h
    exact ⟨⟨u, F, U, marks, hcode, hpool, hf, hs, hc _ _ hawaits⟩, hrest⟩

/-- **An instruction is executed.** -/
theorem State.Ready.execute (h : State.Ready m ⟨w, f :: fs, .execute, depth⟩) {t : Turn}
    (ht : m.advance w f = t) :
    State.Ready m ⟨t.world, t.frame :: fs, t.control, depth⟩ ∧ w.heap.Retains t.world.heap := by
  obtain ⟨he, ⟨u, F, U, marks, hcode, hpool, hf, hs, hcarries⟩, hrest⟩ := h
  obtain ⟨i, next, hat, hi⟩ := Carries.step hcarries
  have hread : Instruction.read u.pool F f.ip = .ok (some (i, next)) := hpool ▸ hat
  rw [Machine.advance_of_read hcode hread] at ht
  have hturn : Turn.Carries w (Carries U F) (m.execute w (f.jump next) i) :=
    m.carries_execute (f := f.jump next) he hf hs hi
  obtain ⟨hunit, hindex, hresume⟩ := (m.goes_execute w (f.jump next) i).frame.activation
  rw [ht] at hturn hunit hindex hresume
  obtain ⟨hheap, hhandlers, marks', hs', hawaits⟩ := hturn
  refine ⟨⟨hheap.exact, ⟨u, F, U, marks', ?_, hpool, hhandlers, hs', hawaits⟩, ?_⟩, hheap⟩
  · rw [hunit, hindex]
    exact hcode
  · rw [hresume]
    exact hrest.retains hheap

/-- **A host function is called.** -/
theorem State.Ready.enterNative (hm : m.Scripted) {callee this : Value} {n : NativeFunction}
    {args : List Value} {r : Resume} (h : State.Ready m ⟨w, fs, .enter callee (.native n) this args r, depth⟩) :
    (m.enterNative w fs depth n this args r).Ready m ∧
      w.heap.Retains (m.enterNative w fs depth n this args r).world.heap := by
  obtain ⟨he, hframes⟩ := h
  have hheap := hm.natives n.id ⟨w.heap, this, args⟩ he
  obtain ⟨heap, envs, caches, log⟩ := w
  rw [Machine.enterNative]
  generalize m.natives.run n.id ⟨heap, this, args⟩ = reply at hheap ⊢
  split
  · exact ⟨⟨hheap.exact, (hframes.retains hheap).switch fun _ _ hK => hK⟩, hheap⟩
  · exact ⟨⟨hheap.exact, (hframes.retains hheap).switch fun _ _ _ => trivial⟩, hheap⟩

/-- **A function of a program is called**: its frame starts without operands and handlers. -/
theorem State.Ready.enterScript (hm : m.Scripted) {callee this : Value} {c : Closure}
    {args : List Value} {r : Resume} (h : State.Ready m ⟨w, fs, .enter callee (.script c) this args r, depth⟩) :
    (m.enterScript w fs depth callee c this args r).Ready m ∧
      w.heap.Retains (m.enterScript w fs depth callee c this args r).world.heap := by
  obtain ⟨he, hframes⟩ := h
  rw [Machine.enterScript]
  split
  · exact ⟨⟨he, hframes.switch fun _ _ _ => trivial⟩, .refl he⟩
  · rcases hcode : m.code c.unit c.index with e | ⟨u, F⟩
    · exact ⟨⟨he, hframes.switch fun _ _ _ => trivial⟩, .refl he⟩
    · obtain ⟨U, src, hpool, hlays⟩ := hm.code _ _ _ _ hcode
      obtain ⟨heap, envs, caches, log⟩ := w
      refine ⟨⟨he, ⟨u, F, U, [], hcode, hpool, ?_, .nil, U.carries_start hlays⟩, ?_⟩, .refl he⟩
      · exact fun h hh => absurd hh List.not_mem_nil
      · exact hframes.switch fun _ _ hK => hK

/-- **A frame is given a value.** -/
theorem State.Ready.resume {v : Value} {r : Resume} (h : State.Ready m ⟨w, f :: fs, .deliver r v, depth⟩) :
    (Machine.resumeWith w f fs depth v r).Ready m ∧
      w.heap.Retains (Machine.resumeWith w f fs depth v r).world.heap := by
  obtain ⟨he, ⟨u, F, U, marks, hcode, hpool, hf, hs, hK⟩, hrest⟩ := h
  cases r with
  | push => exact ⟨⟨he, ⟨u, F, U, _, hcode, hpool, hf, hs.push v, hK⟩, hrest⟩, .refl he⟩
  | discard => exact ⟨⟨he, ⟨u, F, U, marks, hcode, hpool, hf, hs, hK⟩, hrest⟩, .refl he⟩
  | pushInstead other =>
    exact ⟨⟨he, ⟨u, F, U, _, hcode, hpool, hf, hs.push other, hK⟩, hrest⟩, .refl he⟩
  | callWith this args what =>
    refine ⟨⟨he, ⟨u, F, U, marks, hcode, hpool, hf, hs, ?_⟩, hrest⟩, .refl he⟩
    exact Control.awaits_call (r := .push) hK _ _ _ _ _

/-- **An error looks for a handler**, which starts with one operand. -/
theorem State.Ready.unwind {e : RuntimeError} (h : State.Ready m ⟨w, f :: fs, .raise e, depth⟩) :
    (m.unwind w f fs depth e).Ready m ∧ w.heap.Retains (m.unwind w f fs depth e).world.heap := by
  obtain ⟨he, ⟨u, F, U, marks, hcode, hpool, hf, hs, -⟩, hrest⟩ := h
  have hleft : State.Ready m ⟨w, fs, .raise e, depth - 1⟩ := ⟨he, hrest.switch fun _ _ _ => trivial⟩
  rw [Machine.unwind.eq_def]
  split
  · exact ⟨hleft, .refl he⟩
  · next x outer hhandlers =>
    split
    · obtain ⟨hsize, htarget⟩ := hf x (hhandlers ▸ List.mem_cons_self)
      have hheap := m.realm.retains_caughtValue he e
      obtain ⟨heap, envs, caches, log⟩ := w
      simp only
      generalize m.realm.caughtValue heap e = caught at hheap ⊢
      refine ⟨⟨hheap.exact, ⟨u, F, U, [false], hcode, hpool, fun k hk => hf k ?_, ?_, htarget⟩,
        hrest.retains hheap⟩, hheap⟩
      · rw [hhandlers]
        exact List.mem_cons_of_mem x hk
      · have hstack : f.stack.drop (f.stack.length - x.stackSize) = [] := by
          rw [hsize, Nat.sub_zero, List.drop_length]
        rw [Frame.catchIn, hstack]
        exact Heap.Honours.push .nil caught.1
    · exact ⟨hleft, .refl he⟩

/-- **One step** of a run keeps all frames ready and retains what is permanent. -/
theorem Machine.Scripted.step (hm : m.Scripted) {s s' : State} (hs : s.Ready m)
    (hstep : m.step s = .running s') : s'.Ready m ∧ s.world.heap.Retains s'.world.heap := by
  obtain ⟨w, frames, control, depth⟩ := s
  cases control with
  | enter callee target this args r =>
    cases target with
    | native n =>
      obtain rfl := Progress.running.inj hstep
      exact hs.enterNative hm
    | script c =>
      obtain rfl := Progress.running.inj hstep
      exact hs.enterScript hm
  | execute =>
    cases frames with
    | nil => cases hstep
    | cons f fs =>
      obtain rfl := Progress.running.inj hstep
      exact hs.execute rfl
  | deliver r v =>
    cases frames with
    | nil => cases hstep
    | cons f fs =>
      obtain rfl := Progress.running.inj hstep
      exact hs.resume
  | ret v =>
    cases frames with
    | nil => cases hstep
    | cons f fs =>
      obtain rfl := Progress.running.inj hstep
      exact ⟨⟨hs.heap, hs.frames.2.switch fun _ _ hK => hK⟩, .refl hs.heap⟩
  | raise e =>
    cases frames with
    | nil => cases hstep
    | cons f fs =>
      obtain rfl := Progress.running.inj hstep
      exact hs.unwind

/-- **A run that ends** has retained what is permanent. -/
theorem Machine.Scripted.run (hm : m.Scripted) {fuel : Nat} {s : State} (hs : s.Ready m) {o : Outcome}
    (hend : m.run fuel s = some o) : s.world.heap.Retains o.world.heap := by
  induction fuel generalizing s with
  | zero => simp [Machine.run] at hend
  | succ fuel ih =>
    rw [Machine.run] at hend
    rcases hstep : m.step s with s' | o'
    · rw [hstep] at hend
      obtain ⟨hs', hretains⟩ := hm.step hs hstep
      exact hretains.trans (ih hs' hend)
    · rw [hstep] at hend
      obtain rfl := Option.some.inj hend
      exact .of_eq hs.heap (congrArg World.heap (finished_spec hstep).1)

end

end ScriptEngine
