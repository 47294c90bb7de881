import ScriptEngine.Machine.Execute
import ScriptEngine.Proofs.Heap.Prototypes

/-!
# Instructions, one outcome at a time

`Machine.Executes` lists what the instructions can come to: one rule for each way in which an instruction can
end, with what must hold for it. Malformed code is one rule for all of them. `Machine.executes` says that this
is all there is, and what every instruction keeps is proved by going through the rules.

The first such thing is `Machine.goes_execute`: what an instruction can do to the place of a frame and to the
heap, whatever the world is.
-/

namespace ScriptEngine

/-- An instruction that is read is executed, for the frame behind it. -/
theorem Machine.advance_of_read {m : Machine} {w : World} {f : Frame} {u : CodeUnit} {function : CodeFunction}
    {i : Instruction} {next : Nat} (hcode : m.code f.unit f.index = .ok (u, function))
    (hread : Instruction.read u.pool function f.ip = .ok (some (i, next))) :
    m.advance w f = m.execute w (f.jump next) i := by
  rw [advance, hcode]
  simp only
  rw [hread]

/-! ## Arguments -/

namespace Turn

variable {f : Frame} {n : Nat}

/-- Taking arguments off a stack that has enough of them. -/
theorem popArgs?_eq (h : n ≤ f.stack.length) :
    f.popArgs? n = some ((f.stack.take n).reverse, { f with stack := f.stack.drop n }) := by
  rw [Frame.popArgs?, if_pos h]

/-- **Arguments and the value below them** are taken off the stack if they are there. -/
theorem withArgs_eq_of_getElem? {v : Value} (h : f.stack[n]? = some v) (w : World)
    (k : Value → List Value → Frame → Turn) :
    withArgs w f n k = k v (f.stack.take n).reverse { f with stack := f.stack.drop (n + 1) } := by
  obtain ⟨hlt, hv⟩ := List.getElem?_eq_some_iff.mp h
  rw [withArgs, popArgs?_eq (Nat.le_of_lt hlt)]
  simp only [List.drop_eq_getElem_cons hlt, hv]

/-- If they are not, then there are too few operands, whatever is to be done with them. -/
theorem withArgs_eq_underflow (h : f.stack[n]? = none) :
    ∃ stack, ∀ w k, withArgs w f n k = underflow w { f with stack } := by
  have hlength : f.stack.length ≤ n := List.getElem?_eq_none_iff.mp h
  by_cases hargs : n ≤ f.stack.length
  · refine ⟨f.stack.drop n, fun w k => ?_⟩
    rw [withArgs, popArgs?_eq hargs]
    simp only [List.drop_eq_nil_of_le hlength]
  · refine ⟨f.stack, fun w k => ?_⟩
    rw [withArgs, Frame.popArgs?, if_neg hargs]

end Turn

/-! ## Outcomes -/

/-- What an instruction can come to in a world, for a frame that stands behind it. -/
inductive Machine.Executes (m : Machine) (w : World) (f : Frame) : Instruction → Turn → Prop where
  /-- The code is malformed. -/
  | fault (i : Instruction) (e : Fault) (stack : List Value) : Executes m w f i (.fault w { f with stack } e)
  /-- A constant. -/
  | push (v : Value) : Executes m w f (.push v) (.push w f v)
  /-- The top is dropped. -/
  | pop {v : Value} {rest : List Value} (hs : f.stack = v :: rest) :
    Executes m w f .pop (.next w { f with stack := rest })
  /-- The top once more. -/
  | dup {v : Value} {rest : List Value} (hs : f.stack = v :: rest) : Executes m w f .dup (.push w f v)
  /-- A local. -/
  | getLocal {slot : Nat} {v : Value} (hv : f.locals[slot]? = some v) :
    Executes m w f (.getLocal slot) (.push w f v)
  /-- The top is stored in a local. -/
  | setLocal {slot : Nat} {v : Value} {rest : List Value} (hs : f.stack = v :: rest)
    (hslot : slot < f.locals.size) :
    Executes m w f (.setLocal slot) (.next w { f with locals := f.locals.setIfInBounds slot v })
  /-- A slot of an environment. -/
  | getEnv {depth slot : Nat} {id : EnvId} (henv : (f.env.bind fun id => w.envs.ancestor? id depth) = some id) :
    Executes m w f (.getEnv depth slot) (.push w f (w.envs.getSlot id slot))
  /-- The top is stored in a slot of an environment. -/
  | setEnv {depth slot : Nat} {id : EnvId} {v : Value} {rest : List Value} (hs : f.stack = v :: rest)
    (henv : (f.env.bind fun id => w.envs.ancestor? id depth) = some id)
    (hslot : w.envs.hasSlot id slot = true) :
    Executes m w f (.setEnv depth slot) (.next { w with envs := w.envs.setSlot id slot v } f)
  /-- A property of the global object. -/
  | getGlobal (name : String) :
    Executes m w f (.getGlobal name)
      ⟨w, f, .afterRead w.heap m.globalValue .push (w.heap.read m.realm.global name)⟩
  /-- The top is stored in a property of the global object. -/
  | setGlobal {name : String} {v : Value} {rest : List Value} (hs : f.stack = v :: rest) :
    Executes m w f (.setGlobal name) ⟨(w.write m.realm.global name v).2, f,
      .afterWrite (w.write m.realm.global name v).2.heap m.globalValue v .discard
        (w.write m.realm.global name v).1⟩
  /-- A property of the global object is removed. -/
  | deleteGlobal (name : String) :
    Executes m w f (.deleteGlobal name)
      (.push (w.delete m.realm.global name).2 f (.bool (w.delete m.realm.global name).1))
  /-- What a name stands for. -/
  | getName (name : String) :
    Executes m w f (.getName name)
      ⟨w, f, .afterRead w.heap (m.readName w f name).2 .push (m.readName w f name).1⟩
  /-- The top is stored in what a name stands for. -/
  | setName {name : String} {v : Value} {rest : List Value} (hs : f.stack = v :: rest) :
    Executes m w f (.setName name) ⟨(m.writeName w f name v).2, f,
      .afterWrite (m.writeName w f name v).2.heap (m.writeName w f name v).1.2 v .discard
        (m.writeName w f name v).1.1⟩
  /-- What a name stands for is called. -/
  | callName {name : String} {argc : Nat} {read : PropertyRead} {this : Value}
    (hread : m.readName w { f with stack := f.stack.drop argc } name = (read, this)) :
    Executes m w f (.callName name argc) ⟨w, { f with stack := f.stack.drop argc },
      .afterRead w.heap this (.callWith this (f.stack.take argc).reverse name) read⟩
  /-- What a name stands for is removed. -/
  | deleteName (name : String) :
    Executes m w f (.deleteName name) (.push (m.eraseName w f name).2 f (.bool (m.eraseName w f name).1))
  /-- A property of a value. -/
  | getMember {index : Nat} {site : CallSite} {receiver : Value} {rest : List Value} {read : PropertyRead}
    {w' : World} (hs : f.stack = receiver :: rest)
    (hread : m.readMember w (f.site index) .load receiver site.name = (.ok read, w')) :
    Executes m w f (.getMember index site)
      ⟨w', { f with stack := rest }, .afterRead w'.heap receiver .push read⟩
  /-- A value without properties is read of. -/
  | getMemberError {index : Nat} {site : CallSite} {receiver : Value} {rest : List Value} {e : RuntimeError}
    {w' : World} (hs : f.stack = receiver :: rest)
    (hread : m.readMember w (f.site index) .load receiver site.name = (.error e, w')) :
    Executes m w f (.getMember index site) ⟨w', { f with stack := rest }, .raise e⟩
  /-- The top is stored in a property of the value below. -/
  | setMember {index : Nat} {site : CallSite} {v receiver : Value} {rest : List Value}
    {result : PropertyWrite} {w' : World} (hs : f.stack = v :: receiver :: rest)
    (hwrite : m.writeMember w (f.site index) receiver site.name v = (.ok result, w')) :
    Executes m w f (.setMember index site)
      ⟨w', { f with stack := rest }, .afterWrite w'.heap receiver v (.pushInstead v) result⟩
  /-- A value without properties is written to. -/
  | setMemberError {index : Nat} {site : CallSite} {v receiver : Value} {rest : List Value}
    {e : RuntimeError} {w' : World} (hs : f.stack = v :: receiver :: rest)
    (hwrite : m.writeMember w (f.site index) receiver site.name v = (.error e, w')) :
    Executes m w f (.setMember index site) ⟨w', { f with stack := rest }, .raise e⟩
  /-- A property of an object is removed. -/
  | deleteMember {name : String} {h : Handle} {rest : List Value} (hs : f.stack = .object h :: rest) :
    Executes m w f (.deleteMember name)
      (.next (w.delete h name).2 { f with stack := .bool (w.delete h name).1 :: rest })
  /-- A value that is no object has nothing to remove. -/
  | deleteMemberOther {name : String} {v : Value} {rest : List Value} (hs : f.stack = v :: rest) :
    Executes m w f (.deleteMember name) (.next w { f with stack := .bool true :: rest })
  /-- A property of `undefined` or `null` is removed. -/
  | deleteMemberError {name message : String} {v : Value} {rest : List Value} (hs : f.stack = v :: rest) :
    Executes m w f (.deleteMember name) ⟨w, { f with stack := rest }, .raise (.typeError message)⟩
  /-- A value that was read from a global is called. -/
  | callGlobal {index : Nat} {site : CallSite} {callee : Value} {args : List Value} {target : Callable}
    {w' : World} (htarget : w.globalTarget m.config.cacheMode (f.site index) callee = (some target, w')) :
    Executes m w f (.callGlobal index site) ⟨w', { f with stack := f.stack.drop (site.argc.toNat + 1) },
      .enter callee target m.globalValue args .push⟩
  /-- It is no function. -/
  | callGlobalError {index : Nat} {site : CallSite} {callee : Value} {w' : World}
    (htarget : w.globalTarget m.config.cacheMode (f.site index) callee = (none, w')) :
    Executes m w f (.callGlobal index site)
      ⟨w', { f with stack := f.stack.drop (site.argc.toNat + 1) }, .raise (.notCallable site.name)⟩
  /-- A property of a value is called on it. -/
  | invokeMember {index : Nat} {site : CallSite} {receiver : Value} {args : List Value}
    {read : PropertyRead} {w' : World}
    (hread : m.readMember w (f.site index) .method receiver site.name = (.ok read, w')) :
    Executes m w f (.invokeMember index site) ⟨w', { f with stack := f.stack.drop (site.argc.toNat + 1) },
      .afterRead w'.heap receiver (.callWith receiver args site.name) read⟩
  /-- The value has no properties. -/
  | invokeMemberError {index : Nat} {site : CallSite} {receiver : Value} {e : RuntimeError} {w' : World}
    (hread : m.readMember w (f.site index) .method receiver site.name = (.error e, w')) :
    Executes m w f (.invokeMember index site)
      ⟨w', { f with stack := f.stack.drop (site.argc.toNat + 1) }, .raise e⟩
  /-- Any value is called. -/
  | call (argc : Nat) (callee : Value) (args : List Value) :
    Executes m w f (.call argc) ⟨w, { f with stack := f.stack.drop (argc + 1) },
      .call w.heap callee m.globalValue args "expression" .push⟩
  /-- A function is made over the current environment. -/
  | closure {index : Nat} {u : CodeUnit} {F : CodeFunction} {made : Handle × Heap}
    (hcode : m.code f.unit index = .ok (u, F))
    (hmade : m.realm.newFunction w.heap (.script ⟨f.unit, index, f.env⟩) F.name F.params.length = made) :
    Executes m w f (.closure index) (.push { w with heap := made.2 } f (.object made.1))
  /-- An object is made. -/
  | newObject :
    Executes m w f .newObject
      (.push { w with heap := (m.realm.newObject w.heap).2 } f (.object (m.realm.newObject w.heap).1))
  /-- A property is defined on the object below the top. -/
  | initProperty {name : String} {v : Value} {h : Handle} {rest : List Value}
    (hs : f.stack = v :: .object h :: rest) :
    Executes m w f (.initProperty name) (.next { w with heap := (w.heap.define h name (.data v .default)).2 }
      { f with stack := .object h :: rest })
  /-- The receiver. -/
  | getThis : Executes m w f .getThis (.push w f f.this)
  /-- The running function. -/
  | getCallee : Executes m w f .getCallee (.push w f f.callee)
  /-- A binary operator. -/
  | binary {op : BinaryOp} {b a : Value} {rest : List Value} (hs : f.stack = b :: a :: rest) :
    Executes m w f (.binary op) (.next w { f with stack := a.binary op b :: rest })
  /-- Unary `-`. -/
  | negate {v : Value} {rest : List Value} (hs : f.stack = v :: rest) :
    Executes m w f .negate (.next w { f with stack := v.negate :: rest })
  /-- Unary `+`. -/
  | plus {v : Value} {rest : List Value} (hs : f.stack = v :: rest) :
    Executes m w f .plus (.next w { f with stack := v.plus :: rest })
  /-- Not. -/
  | not {v : Value} {rest : List Value} (hs : f.stack = v :: rest) :
    Executes m w f .not (.next w { f with stack := v.not :: rest })
  /-- The name of a type. -/
  | typeof {v : Value} {rest : List Value} (hs : f.stack = v :: rest) :
    Executes m w f .typeof (.next w { f with stack := .string (w.heap.typeName v) :: rest })
  /-- A jump. -/
  | jump (target : Nat) : Executes m w f (.jump target) (.next w (f.jump target))
  /-- The top is true, and there is no jump. -/
  | jumpIfFalse {target : Nat} {v : Value} {rest : List Value} (hs : f.stack = v :: rest) :
    Executes m w f (.jumpIfFalse target) (.next w { f with stack := rest })
  /-- The top is false, and there is a jump. -/
  | jumpIfFalseTaken {target : Nat} {v : Value} {rest : List Value} (hs : f.stack = v :: rest) :
    Executes m w f (.jumpIfFalse target) (.next w { f.jump target with stack := rest })
  /-- The top is true, and there is no jump. -/
  | jumpIfFalseOrPop {target : Nat} {v : Value} {rest : List Value} (hs : f.stack = v :: rest) :
    Executes m w f (.jumpIfFalseOrPop target) (.next w { f with stack := rest })
  /-- The top is false, and there is a jump. -/
  | jumpIfFalseOrPopTaken {target : Nat} {v : Value} {rest : List Value} (hs : f.stack = v :: rest) :
    Executes m w f (.jumpIfFalseOrPop target) (.next w (f.jump target))
  /-- The top is false, and there is no jump. -/
  | jumpIfTrueOrPop {target : Nat} {v : Value} {rest : List Value} (hs : f.stack = v :: rest) :
    Executes m w f (.jumpIfTrueOrPop target) (.next w { f with stack := rest })
  /-- The top is true, and there is a jump. -/
  | jumpIfTrueOrPopTaken {target : Nat} {v : Value} {rest : List Value} (hs : f.stack = v :: rest) :
    Executes m w f (.jumpIfTrueOrPop target) (.next w (f.jump target))
  /-- An object is pushed onto the chain of environments. -/
  | enterWith {h : Handle} {rest : List Value} (hs : f.stack = .object h :: rest) :
    Executes m w f .enterWith (.next { w with envs := (w.envs.pushObject h f.env).2 }
      { f with stack := rest, env := some (w.envs.pushObject h f.env).1 })
  /-- The value is no object. -/
  | enterWithError {v : Value} {rest : List Value} {message : String} (hs : f.stack = v :: rest) :
    Executes m w f .enterWith ⟨w, { f with stack := rest }, .raise (.typeError message)⟩
  /-- An object is taken off the chain. -/
  | exitWith (parent : Option EnvId) : Executes m w f .exitWith (.next w { f with env := parent })
  /-- A protected region is entered. -/
  | tryBegin (target : Nat) : Executes m w f (.tryBegin target) (.next w (f.protect target))
  /-- A protected region is left. -/
  | tryEnd {h : Handler} {outer : List Handler} (hregion : f.handlers = h :: outer) :
    Executes m w f .tryEnd (.next w { f with handlers := outer })
  /-- The top is raised. -/
  | throw {v : Value} {rest : List Value} (hs : f.stack = v :: rest) :
    Executes m w f .throw ⟨w, { f with stack := rest }, .raise (.thrown v)⟩
  /-- The top is returned. -/
  | ret {v : Value} {rest : List Value} (hs : f.stack = v :: rest) :
    Executes m w f .ret ⟨w, { f with stack := rest }, .ret v⟩
  /-- The function ends without a value. -/
  | retUndefined : Executes m w f .retUndefined ⟨w, f, .ret .undefined⟩

namespace Machine

/-- **Executing an instruction** comes to one of these. -/
theorem executes (m : Machine) (w : World) (f : Frame) (i : Instruction) :
    m.Executes w f i (m.execute w f i) := by
  cases i with
  | push v => exact .push v
  | pop =>
    rw [execute, Turn.pop]
    split
    · next hs => exact .pop hs
    · exact .fault ..
  | dup =>
    rw [execute, Turn.dup]
    split
    · next hs => exact .dup hs
    · exact .fault ..
  | getLocal slot =>
    rw [execute, Turn.getLocal]
    split
    · next hv => exact .getLocal hv
    · exact .fault ..
  | setLocal slot =>
    rw [execute, Turn.setLocal]
    split
    · exact .fault ..
    · next hs =>
      split
      · next hslot => exact .setLocal hs hslot
      · exact .fault ..
  | getEnv depth slot =>
    rw [execute, Turn.getEnv]
    split
    · next henv => exact .getEnv henv
    · exact .fault ..
  | setEnv depth slot =>
    rw [execute, Turn.setEnv]
    split
    · exact .fault ..
    · next hs =>
      split
      · exact .fault ..
      · next henv =>
        split
        · next hslot => exact .setEnv hs henv hslot
        · exact .fault ..
  | getGlobal name => exact .getGlobal name
  | setGlobal name =>
    rw [execute, Turn.setGlobal]
    split
    · exact .fault ..
    · next hs => exact .setGlobal hs
  | deleteGlobal name => exact .deleteGlobal name
  | getName name => exact .getName name
  | setName name =>
    rw [execute, Turn.setName]
    split
    · exact .fault ..
    · next hs => exact .setName hs
  | callName name argc =>
    rw [execute, Turn.callName, Frame.popArgs?]
    split
    · exact .fault ..
    · next hargs =>
      split at hargs
      · obtain ⟨rfl, rfl⟩ := Prod.mk.inj (Option.some.inj hargs)
        exact .callName rfl
      · cases hargs
  | deleteName name => exact .deleteName name
  | getMember index site =>
    rw [execute, Turn.getMember]
    split
    · exact .fault ..
    · next hs =>
      simp only
      split
      · next hread => exact .getMember hs hread
      · next hread => exact .getMemberError hs hread
  | setMember index site =>
    rw [execute, Turn.setMember]
    split
    · next hs =>
      simp only
      split
      · next hwrite => exact .setMember hs hwrite
      · next hwrite => exact .setMemberError hs hwrite
    · exact .fault ..
  | deleteMember name =>
    rw [execute, Turn.deleteMember.eq_def]
    split
    · exact .fault ..
    · next hs => exact .deleteMember hs
    · next hs =>
      split
      · exact .deleteMemberError hs
      · exact .deleteMemberOther hs
  | callGlobal index site =>
    rw [execute, Turn.callGlobal]
    rcases hv : f.stack[site.argc.toNat]? with _ | callee
    · obtain ⟨stack, heq⟩ := Turn.withArgs_eq_underflow hv
      exact heq w _ ▸ .fault ..
    · rw [Turn.withArgs_eq_of_getElem? hv]
      split
      · next htarget => exact .callGlobal htarget
      · next htarget => exact .callGlobalError htarget
  | invokeMember index site =>
    rw [execute, Turn.invokeMember]
    rcases hv : f.stack[site.argc.toNat]? with _ | receiver
    · obtain ⟨stack, heq⟩ := Turn.withArgs_eq_underflow hv
      exact heq w _ ▸ .fault ..
    · rw [Turn.withArgs_eq_of_getElem? hv]
      split
      · next hread => exact .invokeMember hread
      · next hread => exact .invokeMemberError hread
  | call argc =>
    rw [execute, Turn.call]
    rcases hv : f.stack[argc]? with _ | callee
    · obtain ⟨stack, heq⟩ := Turn.withArgs_eq_underflow hv
      exact heq w _ ▸ .fault ..
    · rw [Turn.withArgs_eq_of_getElem? hv]
      exact .call ..
  | closure index =>
    rw [execute, Turn.closure]
    split
    · exact .fault ..
    · next hcode => exact .closure hcode rfl
  | newObject => exact .newObject
  | initProperty name =>
    rw [execute, Turn.initProperty.eq_def]
    split
    · next hs => exact .initProperty hs
    · exact .fault ..
    · exact .fault ..
  | getThis => exact .getThis
  | getCallee => exact .getCallee
  | binary op =>
    rw [execute, Turn.binary]
    split
    · next hs => exact .binary hs
    · exact .fault ..
  | negate | plus | not | typeof =>
    rw [execute, Turn.unary]
    split
    · next hs =>
      constructor
      exact hs
    · exact .fault ..
  | jump target => exact .jump target
  | jumpIfFalse target =>
    rw [execute, Turn.jumpIfFalse]
    split
    · next hs =>
      simp only
      split
      · exact .jumpIfFalse hs
      · exact .jumpIfFalseTaken hs
    · exact .fault ..
  | jumpIfFalseOrPop target =>
    rw [execute, Turn.jumpOrPop]
    split
    · next hs =>
      split
      · exact .jumpIfFalseOrPopTaken hs
      · exact .jumpIfFalseOrPop hs
    · exact .fault ..
  | jumpIfTrueOrPop target =>
    rw [execute, Turn.jumpOrPop]
    split
    · next hs =>
      split
      · exact .jumpIfTrueOrPopTaken hs
      · exact .jumpIfTrueOrPop hs
    · exact .fault ..
  | enterWith =>
    rw [execute, Turn.enterWith.eq_def]
    split
    · exact .fault ..
    · next hs => exact .enterWith hs
    · next hs => exact .enterWithError hs
  | exitWith =>
    rw [execute, Turn.exitWith]
    split
    · exact .fault ..
    · split
      · exact .exitWith _
      · exact .fault ..
  | tryBegin target => exact .tryBegin target
  | tryEnd =>
    rw [execute, Turn.tryEnd]
    split
    · next hregion => exact .tryEnd hregion
    · exact .fault ..
  | throw =>
    rw [execute, Turn.throwTop]
    split
    · next hs => exact .throw hs
    · exact .fault ..
  | ret =>
    rw [execute, Turn.retTop]
    split
    · next hs => exact .ret hs
    · exact .fault ..
  | retUndefined => exact .retUndefined

end Machine

/-! ## What an instruction can do -/

namespace Instruction

/-- Where an instruction leads, or has an error lead, other than behind itself. -/
def target? : Instruction → Option Nat
  | jump t | jumpIfFalse t | jumpIfFalseOrPop t | jumpIfTrueOrPop t | tryBegin t => some t
  | _ => none

end Instruction

/-- Two frames of one activation in the same place, with the same handlers. -/
structure Frame.SamePlace (f f' : Frame) : Prop where
  /-- The same unit. -/
  unit : f'.unit = f.unit
  /-- The same function. -/
  index : f'.index = f.index
  /-- The same use of the value that is returned. -/
  resume : f'.resume = f.resume
  /-- The same next instruction. -/
  ip : f'.ip = f.ip
  /-- The same handlers. -/
  handlers : f'.handlers = f.handlers

/-- Operands, local variables and the environment are no part of the place. -/
theorem Frame.samePlace (f : Frame) (stack : List Value) (locals : Array Value) (env : Option EnvId) :
    f.SamePlace { f with stack, locals, env } :=
  ⟨rfl, rfl, rfl, rfl, rfl⟩

/-- What an instruction with a target can do to the place of the frame behind it. -/
inductive Frame.Turns (target? : Option Nat) (f f' : Frame) : Prop
  /-- The frame stays where it is. -/
  | stay (same : f.SamePlace f')
  /-- It goes to the target. -/
  | jump {t : Nat} (target : target? = some t) (same : (f.jump t).SamePlace f')
  /-- It enters a region whose handler starts at the target. -/
  | protect {t : Nat} (target : target? = some t) (same : (f.protect t).SamePlace f')
  /-- It leaves a region. -/
  | leave {h : Handler} {outer : List Handler} (region : f.handlers = h :: outer)
      (same : { f with handlers := outer }.SamePlace f')

/-- An instruction leaves the frame in its function. -/
theorem Frame.Turns.activation {target? : Option Nat} {f f' : Frame} (h : f.Turns target? f') :
    f'.unit = f.unit ∧ f'.index = f.index ∧ f'.resume = f.resume := by
  cases h with
  | stay same => exact ⟨same.unit, same.index, same.resume⟩
  | jump _ same => exact ⟨same.unit, same.index, same.resume⟩
  | protect _ same => exact ⟨same.unit, same.index, same.resume⟩
  | leave _ same => exact ⟨same.unit, same.index, same.resume⟩

/-- What an instruction can do: the frame turns somewhere, and the heap is worked on. -/
structure Turn.Goes (r : Realm) (w : World) (f : Frame) (target? : Option Nat) (t : Turn) : Prop where
  /-- The frame. -/
  frame : f.Turns target? t.frame
  /-- The heap. -/
  heap : r.Works w.heap t.world.heap

namespace World

variable (w : World) (mode : CacheMode) (id : SiteId)

/-- Looking up a property through a site leaves the heap alone. -/
theorem heap_memberHolder (access : Access) (receiver : Handle) (name : String) :
    (w.memberHolder mode id access receiver name).2.heap = w.heap := by
  obtain ⟨heap, envs, caches, log⟩ := w
  rw [memberHolder]
  split
  · rfl
  · split <;> rfl

/-- Looking up what a global runs leaves the heap alone. -/
theorem heap_globalTarget {w' : World} {callee : Value} {target : Option Callable}
    (h : w.globalTarget mode id callee = (target, w')) : w'.heap = w.heap := by
  obtain rfl : w' = _ := (congrArg Prod.snd h).symm
  clear h
  obtain ⟨heap, envs, caches, log⟩ := w
  rw [globalTarget.eq_def]
  split
  · simp only
    split
    · rfl
    · split <;> rfl
  · rfl

/-- Writing through a site works on the heap. -/
theorem works_writeObject (r : Realm) (receiver : Handle) (name : String) (v : Value) :
    r.Works w.heap (w.writeObject mode id receiver name v).2.heap := by
  obtain ⟨heap, envs, caches, log⟩ := w
  rw [writeObject]
  simp only
  split
  · next heap' hover =>
    obtain ⟨-, -, hover⟩ := Option.bind_eq_some_iff.mp hover
    exact .overwrite hover
  · have hwrite := Realm.Works.write r heap receiver name v
    split
    · next heap' heq =>
      rw [heq] at hwrite
      exact hwrite
    · next heap' _ heq =>
      rw [heq] at hwrite
      exact hwrite

end World

namespace Machine

section

variable {m : Machine} {w w' : World} {id : SiteId} {receiver : Value} {name : String}

/-- Reading a property of any value leaves the heap alone. -/
theorem heap_readMember {access : Access} {result : Except RuntimeError PropertyRead}
    (h : m.readMember w id access receiver name = (result, w')) : w'.heap = w.heap := by
  obtain rfl : w' = _ := (congrArg Prod.snd h).symm
  clear h
  rw [readMember.eq_def]
  split
  · next holder =>
    have hheap := w.heap_memberHolder m.config.cacheMode id access holder name
    split
    · next heq =>
      rw [heq] at hheap
      exact hheap
    · next heq =>
      rw [heq] at hheap
      exact hheap
  · rfl

/-- Writing a property of any value works on the heap. -/
theorem works_writeMember (r : Realm) {v : Value} {result : Except RuntimeError PropertyWrite}
    (h : m.writeMember w id receiver name v = (result, w')) : r.Works w.heap w'.heap := by
  obtain rfl : w' = _ := (congrArg Prod.snd h).symm
  clear h
  rw [writeMember.eq_def]
  split
  · exact w.works_writeObject _ _ r _ name v
  · split
    · exact .refl r _
    · exact .refl r _

end

variable (m : Machine) (w : World)

/-- Writing what a name stands for works on the heap. -/
theorem works_writeName (r : Realm) (f : Frame) (name : String) (v : Value) :
    r.Works w.heap (m.writeName w f name v).2.heap := by
  rw [writeName]
  split
  · exact .refl r _
  · exact .write r _ _ name v
  · exact .write r _ _ name v

/-- Removing what a name stands for works on the heap. -/
theorem works_eraseName (r : Realm) (f : Frame) (name : String) :
    r.Works w.heap (m.eraseName w f name).2.heap := by
  rw [eraseName]
  split
  · exact .refl r _
  · exact .delete r _ _ name
  · exact .delete r _ _ name

end Machine

namespace Turn

section

variable {r : Realm} {m : Machine} {w w' : World} {f f' : Frame} {target? : Option Nat}

/-- The frame stays in its place, and the heap is worked on. -/
theorem Goes.stay (hf : f.SamePlace f') (hw : r.Works w.heap w'.heap) {control : Control} :
    Goes r w f target? ⟨w', f', control⟩ :=
  ⟨.stay hf, hw⟩

/-- The frame stays in its place, and so does the heap. -/
theorem Goes.keep (hw : w'.heap = w.heap) (hf : f.SamePlace f') {control : Control} :
    Goes r w f target? ⟨w', f', control⟩ :=
  .stay hf (hw ▸ .refl r _)

end

end Turn

/-- **What an instruction can do** to the place of a frame and to the heap. -/
theorem Machine.goes_execute (m : Machine) (w : World) (f : Frame) (i : Instruction) :
    (m.execute w f i).Goes m.realm w f i.target? := by
  have h := m.executes w f i
  generalize m.execute w f i = t at h ⊢
  -- Most instructions change nothing but operands and local variables.
  have hkeep : ∀ {w' : World} {control : Control} (stack : List Value) (locals : Array Value), w'.heap = w.heap →
      Turn.Goes m.realm w f i.target? ⟨w', { f with stack, locals }, control⟩ :=
    fun stack locals hw => .keep hw (f.samePlace stack locals f.env)
  cases h with
  | fault => exact hkeep _ _ rfl
  | push | pop | dup | getLocal | setLocal | getEnv | setEnv => exact hkeep _ _ rfl
  | getGlobal | getName | callName | call => exact hkeep _ _ rfl
  | setGlobal => exact .stay (f.samePlace ..) (.write ..)
  | deleteGlobal => exact .stay (f.samePlace ..) (.delete ..)
  | setName => exact .stay (f.samePlace ..) (m.works_writeName ..)
  | deleteName => exact .stay (f.samePlace ..) (m.works_eraseName ..)
  | getMember _ hread | getMemberError _ hread | invokeMember hread | invokeMemberError hread =>
    exact hkeep _ _ (heap_readMember hread)
  | setMember _ hwrite | setMemberError _ hwrite =>
    exact .stay (f.samePlace ..) (works_writeMember m.realm hwrite)
  | deleteMember => exact .stay (f.samePlace ..) (.delete ..)
  | deleteMemberOther | deleteMemberError => exact hkeep _ _ rfl
  | callGlobal htarget | callGlobalError htarget => exact hkeep _ _ (w.heap_globalTarget _ _ htarget)
  | closure _ hmade =>
    subst hmade
    exact .stay (f.samePlace ..) (.newFunction ..)
  | newObject => exact .stay (f.samePlace ..) (.newObject ..)
  | initProperty => exact .stay (f.samePlace ..) (.define ..)
  | getThis | getCallee | binary | negate | plus | not | typeof => exact hkeep _ _ rfl
  | jump t | jumpIfFalseTaken | jumpIfFalseOrPopTaken | jumpIfTrueOrPopTaken =>
    exact ⟨.jump rfl ((f.jump _).samePlace ..), .refl ..⟩
  | jumpIfFalse | jumpIfFalseOrPop | jumpIfTrueOrPop => exact hkeep _ _ rfl
  | enterWith => exact ⟨.stay (f.samePlace ..), .refl ..⟩
  | enterWithError | exitWith => exact .keep rfl (f.samePlace ..)
  | tryBegin t => exact ⟨.protect rfl ((f.protect t).samePlace ..), .refl ..⟩
  | tryEnd hregion => exact ⟨.leave hregion (Frame.samePlace { f with handlers := _ } _ _ _), .refl ..⟩
  | throw | ret | retUndefined => exact hkeep _ _ rfl

end ScriptEngine
