import ScriptEngine.Proofs.Code.Layout

/-!
# What generating code leaves behind

A generating computation *emits* a stretch of code (`Emits`) if, whenever it succeeds, the code in
front stays as it is, constants, sites and functions only grow, and the new code reads as the stretch
says, in every function that holds it. Emitting composes as stretches do: one behind the other, a jump
over one (`Emits.skip`), a jump over one of two (`Emits.fork`), and a loop. Forward jumps are patched
after the fact, so for these the bytes of the operand are followed through what is written in between.

Everything about bytes stays in this module.
-/

namespace ScriptEngine

open Generation

/-! ## Growth -/

/-- Every element is still where it was. -/
def Grows {α : Type} (xs ys : Array α) : Prop := 
  ∀ (i : Nat) (x : α), xs[i]? = some x → ys[i]? = some x

namespace Grows

variable {α : Type} {xs ys zs : Array α}

/-- Nothing has changed. -/
theorem refl (xs : Array α) : Grows xs xs := fun _ _ h => h

/-- Growth after growth. -/
theorem trans (hxy : Grows xs ys) (hyz : Grows ys zs) : Grows xs zs :=
  fun i x h => hyz i x (hxy i x h)

/-- One more element. -/
theorem push (xs : Array α) (x : α) : Grows xs (xs.push x) := by
  intro i y h
  obtain ⟨hlt, -⟩ := Array.getElem?_eq_some_iff.mp h
  rw [Array.getElem?_push, if_neg (Nat.ne_of_lt hlt), h]

/-- What has grown is no shorter. -/
theorem size_le (h : Grows xs ys) : xs.size ≤ ys.size := by
  refine Nat.le_of_not_lt fun hlt => ?_
  have hlast := h _ _ (Array.getElem?_eq_getElem hlt)
  simp at hlast

/-- Below the old end nothing has changed. -/
theorem getElem?_eq (h : Grows xs ys) {i : Nat} (hi : i < xs.size) : ys[i]? = xs[i]? := by
  rw [Array.getElem?_eq_getElem hi]
  exact h i _ (Array.getElem?_eq_getElem hi)

end Grows

/-- The index of a pool leads to a constant of the key. -/
def Pool.Sound (p : Pool) : Prop :=
  ∀ (k : Constant) (i : Nat), p.index[k]? = some i → ∃ d : Constant, p.constants[i]? = some d ∧ d.key = k

/-- A pool without constants is sound. -/
theorem Pool.sound_empty : ({} : Pool).Sound := by
  intro k i h
  simp at h

/-- **Adding a constant** gives an index at which a constant of the same key stands. -/
theorem Pool.add_spec {p q : Pool} (hp : p.Sound) {c : Constant} {i : Nat}
    (hadd : p.add c = (i, q)) :
    q.Sound ∧ Grows p.constants q.constants ∧ ∃ d, q.constants[i]? = some d ∧ d.key = c.key := by
  rw [Pool.add] at hadd
  rcases hfound : p.index[c.key]? with _ | j
  · rw [hfound] at hadd
    obtain ⟨rfl, rfl⟩ := Prod.mk.inj hadd
    refine ⟨fun k j hk => ?_, Grows.push _ _, c, by simp [Pool.size], rfl⟩
    rw [Std.HashMap.getElem?_insert] at hk
    split at hk
    · next hkey =>
      obtain rfl := Option.some.inj hk
      exact ⟨c, by simp [Pool.size], by simpa using hkey⟩
    · obtain ⟨d, hd, hdk⟩ := hp k j hk
      exact ⟨d, Grows.push _ _ j d hd, hdk⟩
  · rw [hfound] at hadd
    obtain ⟨rfl, rfl⟩ := Prod.mk.inj hadd
    exact ⟨hp, Grows.refl _, hp _ _ hfound⟩

/-- Constants of one key that are texts are the same. -/
theorem Constant.eq_string_of_key {d : Constant} {s : String} (h : d.key = (string s).key) :
    d = string s := by
  cases d with
  | number n =>
    simp only [key] at h
    split at h <;> cases h
  | string t => exact h

/-- Constants of one key that are numbers differ at most in the payload of a NaN. -/
theorem Constant.same_of_key {d c : Constant} (h : d.key = c.key) : d.toValue.Same c.toValue := by
  cases c with
  | string s => rw [Constant.eq_string_of_key h]; rfl
  | number n =>
    cases d with
    | string s =>
      simp only [key] at h
      split at h <;> cases h
    | number m =>
      have hkey : ∀ x : Number, (number x).key = number x.canonical := by
        intro x
        simp only [key, Number.canonical]
        split <;> rfl
      rw [hkey, hkey] at h
      simp only [Value.Same, toValue, Value.canonical, Constant.number.inj h]

/-! ## States -/

namespace GenState

/-- The bytes of the function so far. -/
def code (s : GenState) : Array UInt8 := s.emitter.chunk.code

/-- The constants so far. -/
def pool (s : GenState) : Pool := s.emitter.pool

/-- The offset of what is emitted next. -/
def offset (s : GenState) : Nat := s.code.size

/-- Nothing that was there is lost or changed. -/
structure Extends (s s' : GenState) : Prop where
  /-- The code in front stays. -/
  code : Grows s.code s'.code
  /-- The constants stay. -/
  pool : Grows s.pool.constants s'.pool.constants
  /-- The sites stay. -/
  sites : Grows s.sites s'.sites
  /-- The functions stay. -/
  functions : Grows s.functions s'.functions

/-- A state extends itself. -/
theorem Extends.refl (s : GenState) : s.Extends s :=
  ⟨Grows.refl _, Grows.refl _, Grows.refl _, Grows.refl _⟩

/-- Extension after extension. -/
theorem Extends.trans {s s₁ s₂ : GenState} (h : s.Extends s₁) (h' : s₁.Extends s₂) :
    s.Extends s₂ :=
  ⟨h.code.trans h'.code, h.pool.trans h'.pool, h.sites.trans h'.sites,
    h.functions.trans h'.functions⟩

end GenState

/-- A blueprint over a table that has the constants of a state. -/
structure Blueprint.Covers (U : Blueprint) (t : ScopeTable) (s : GenState) : Prop where
  /-- The table is the one that code is generated from. -/
  table : U.table = t
  /-- The constants are there. -/
  pool : Grows s.pool.constants U.pool.constants

/-- A blueprint has sources from a position on. -/
def Blueprint.Lists (U : Blueprint) (base : Nat) (srcs : List Source) : Prop :=
  ∀ j src, srcs[j]? = some src → U.sources[base + j]? = some src

/-- What holds of two lists in a row, by position, holds of each of them. -/
theorem forall_getElem?_append {α : Type} {Q : Nat → α → Prop} {b : Nat} {xs ys : List α} :
    (∀ j x, (xs ++ ys)[j]? = some x → Q (b + j) x) ↔
      (∀ j x, xs[j]? = some x → Q (b + j) x) ∧ ∀ j x, ys[j]? = some x → Q (b + xs.length + j) x := by
  constructor
  · refine fun h => ⟨fun j x hj => ?_, fun j x hj => ?_⟩
    · obtain ⟨hlt, -⟩ := List.getElem?_eq_some_iff.mp hj
      exact h j x (by rw [List.getElem?_append_left hlt, hj])
    · rw [Nat.add_assoc]
      exact h (xs.length + j) x (by rw [List.getElem?_append_right (by omega), Nat.add_sub_cancel_left, hj])
  · rintro ⟨hfront, hback⟩ j x hj
    by_cases hlt : j < xs.length
    · rw [List.getElem?_append_left hlt] at hj
      exact hfront j x hj
    · rw [List.getElem?_append_right (by omega)] at hj
      have hat := hback _ x hj
      rwa [show b + xs.length + (j - xs.length) = b + j by omega] at hat

/-- Sources in two parts. -/
theorem Blueprint.lists_append {U : Blueprint} {base : Nat} {srcs srcs' : List Source} :
    U.Lists base (srcs ++ srcs') ↔ U.Lists base srcs ∧ U.Lists (base + srcs.length) srcs' :=
  forall_getElem?_append (Q := fun k src => U.sources[k]? = some src)

/-- From a position on there are functions of some sources. -/
def Blueprint.Makes (U : Blueprint) (fs : Array CodeFunction) (base : Nat) (srcs : List Source) : Prop :=
  ∀ j src, srcs[j]? = some src → ∃ F, fs[base + j]? = some F ∧ U.Lays F src

namespace Blueprint.Makes

variable {U : Blueprint} {fs fs' : Array CodeFunction} {base : Nat} {srcs srcs' : List Source}

/-- They stay there when others are added. -/
theorem mono (h : U.Makes fs base srcs) (hfs : Grows fs fs') : U.Makes fs' base srcs := by
  intro j src hj
  obtain ⟨F, hF, hlays⟩ := h j src hj
  exact ⟨F, hfs _ _ hF, hlays⟩

/-- Functions of some sources, and then functions of others. -/
theorem append (h : U.Makes fs base srcs) (h' : U.Makes fs (base + srcs.length) srcs') :
    U.Makes fs base (srcs ++ srcs') :=
  (forall_getElem?_append (Q := fun k src => ∃ F, fs[k]? = some F ∧ U.Lays F src)).mpr ⟨h, h'⟩

/-- A function is added. -/
theorem push {F : CodeFunction} {src : Source} (hlays : U.Lays F src) : U.Makes (fs.push F) fs.size [src] := by
  intro j x hj
  rcases j with _ | j
  · obtain rfl : src = x := Option.some.inj hj
    exact ⟨F, Array.getElem?_push_size, hlays⟩
  · cases hj

end Blueprint.Makes

/-- A function holds what was emitted between two states. -/
structure CodeFunction.Holds (F : CodeFunction) (s s' : GenState) : Prop where
  /-- The sites are there. -/
  sites : Grows s'.sites F.sites
  /-- The bytes between the two states are there. -/
  code : ∀ i, s.offset ≤ i → i < s'.offset → F.chunk.code[i]? = s'.code[i]?

/-! ## Emitting -/

/-- What lies between two states of generation: a stretch of code, and functions of some sources. -/
structure Emitted (t : ScopeTable) (s s' : GenState) (srcs : List Source)
    (P : Blueprint → CodeFunction → Stretch) : Prop where
  /-- Nothing is lost. -/
  extends_ : s.Extends s'
  /-- The pool stays sound. -/
  sound : s'.pool.Sound
  /-- There is one more function for every source. -/
  count : s'.functions.size = s.functions.size + srcs.length
  /-- The code reads as the stretch says. -/
  code : ∀ U F, U.Covers t s' → F.Holds s s' → U.Lists s.functions.size srcs →
    P U F s.offset s'.offset
  /-- The functions are made of the sources. -/
  functions : ∀ U : Blueprint, U.Covers t s' → U.Lists s.functions.size srcs →
    ∀ j src, srcs[j]? = some src → ∃ F, s'.functions[s.functions.size + j]? = some F ∧ U.Lays F src

/-- A generating computation emits a stretch, and functions of some sources, wherever it starts from an
offset on. -/
def Emits (t : ScopeTable) (low : Nat) (g : Gen Unit) (srcs : List Source)
    (P : Blueprint → CodeFunction → Stretch) : Prop :=
  ∀ s s', low ≤ s.offset → s.pool.Sound → g s = .ok () s' → Emitted t s s' srcs P

/-- A computation with a successor succeeds if both do. -/
theorem Gen.bind_eq_ok {α β : Type} {x : Gen α} {f : α → Gen β} {s s' : GenState} {b : β} :
    (x >>= f) s = .ok b s' ↔ ∃ a s₁, x s = .ok a s₁ ∧ f a s₁ = .ok b s' := by
  show EStateM.bind x f s = .ok b s' ↔ _
  rw [EStateM.bind]
  rcases x s with ⟨a, s₁⟩ | ⟨e, s₁⟩
  · simp only [EStateM.Result.ok.injEq]
    constructor
    · exact fun h => ⟨a, s₁, ⟨rfl, rfl⟩, h⟩
    · rintro ⟨_, _, ⟨rfl, rfl⟩, h⟩
      exact h
  · simp

/-- Emitting changes the emitter and nothing else. -/
theorem Gen.emit_eq_ok {α : Type} {m : Emit α} {s s' : GenState} {a : α} :
    emit m s = .ok a s' ↔ ∃ e, m s.emitter = .ok a e ∧ s' = { s with emitter := e } := by
  obtain ⟨emitter, sites, functions⟩ := s
  simp only [emit]
  rcases m emitter with ⟨b, e⟩ | ⟨err, e⟩
  · simp only [EStateM.Result.ok.injEq]
    constructor
    · rintro ⟨rfl, rfl⟩
      exact ⟨e, ⟨rfl, rfl⟩, rfl⟩
    · rintro ⟨_, ⟨rfl, rfl⟩, rfl⟩
      exact ⟨rfl, rfl⟩
  · simp

/-- A new site stands behind the others. -/
theorem Gen.addSite_eq_ok {kind : SiteKind} {name : String} {argc : Nat} {span : Span} {k : Nat}
    {s s' : GenState} (h : addSite kind name argc span s = .ok k s') :
    argc ≤ 255 ∧ k = s.sites.size ∧
      s' = { s with sites := s.sites.push ⟨kind, name, argc.toUInt8, span⟩ } := by
  rw [addSite] at h
  split at h
  · obtain ⟨_, _, hthrow, _⟩ := Gen.bind_eq_ok.mp h
    cases hthrow
  · next hle =>
    injection h with hk hs
    exact ⟨Nat.le_of_not_lt hle, hk.symm, hs.symm⟩

section

variable {t : ScopeTable} {low : Nat}

/-- Between a state and itself there is nothing. -/
theorem Emitted.refl {s : GenState} (hs : s.pool.Sound) :
    Emitted t s s [] (fun _ _ => .empty) :=
  ⟨GenState.Extends.refl s, hs, rfl, fun _ _ _ _ _ => rfl,
    fun _ _ _ j src h => absurd h (by simp)⟩

/-- **A part of what was emitted**, read in a function that holds the whole. -/
theorem Emitted.code_of_part {s s₁ s₂ s' : GenState} {srcs : List Source}
    {P : Blueprint → CodeFunction → Stretch} (h : Emitted t s₁ s₂ srcs P) {U : Blueprint} {F : CodeFunction}
    (hU : U.Covers t s₂) (hl : U.Lists s₁.functions.size srcs) (hF : F.Holds s s')
    (hsites : Grows s₂.sites s'.sites) (hstart : s.offset ≤ s₁.offset) (hend : s₂.offset ≤ s'.offset)
    (hcode : ∀ i, s₁.offset ≤ i → i < s₂.offset → s'.code[i]? = s₂.code[i]?) :
    P U F s₁.offset s₂.offset := by
  refine h.code U F hU ⟨hsites.trans hF.sites, fun i hi hi' => ?_⟩ hl
  rw [hF.code i (by omega) (by omega), hcode i hi hi']

/-- **One behind the other.** -/
theorem Emitted.trans {s s₁ s' : GenState} {srcs srcs' : List Source}
    {P Q : Blueprint → CodeFunction → Stretch} (h : Emitted t s s₁ srcs P)
    (h' : Emitted t s₁ s' srcs' Q) :
    Emitted t s s' (srcs ++ srcs') (fun U F => (P U F).seq (Q U F)) := by
  have hend : s₁.offset ≤ s'.offset := h'.extends_.code.size_le
  have hstart : s.offset ≤ s₁.offset := h.extends_.code.size_le
  -- What covers or lists the whole covers and lists the parts.
  have hcovers : ∀ U : Blueprint, U.Covers t s' → U.Covers t s₁ :=
    fun U hU => ⟨hU.table, h'.extends_.pool.trans hU.pool⟩
  have hlists : ∀ U : Blueprint, U.Lists s.functions.size (srcs ++ srcs') →
      U.Lists s.functions.size srcs ∧ U.Lists s₁.functions.size srcs' :=
    fun U hl => h.count ▸ Blueprint.lists_append.mp hl
  refine ⟨h.extends_.trans h'.extends_, h'.sound, ?_, fun U F hU hF hl => ?_, fun U hU hl => ?_⟩
  · rw [h'.count, h.count, List.length_append, Nat.add_assoc]
  · obtain ⟨hl₁, hl₂⟩ := hlists U hl
    refine ⟨s₁.offset, ?_, ?_⟩
    · exact h.code_of_part (hcovers U hU) hl₁ hF h'.extends_.sites (Nat.le_refl _) hend
        fun i _ hi => h'.extends_.code.getElem?_eq hi
    · exact h'.code_of_part hU hl₂ hF (Grows.refl _) hstart (Nat.le_refl _) fun _ _ _ => rfl
  · obtain ⟨hl₁, hl₂⟩ := hlists U hl
    have hfront := Blueprint.Makes.mono (h.functions U (hcovers U hU) hl₁) h'.extends_.functions
    exact hfront.append (h.count ▸ h'.functions U hU hl₂)

/-- A stretch may be described otherwise. -/
theorem Emitted.mono {s s' : GenState} {srcs : List Source}
    {P Q : Blueprint → CodeFunction → Stretch} (h : Emitted t s s' srcs P)
    (hPQ : ∀ U F a b, P U F a b → Q U F a b) : Emitted t s s' srcs Q :=
  ⟨h.extends_, h.sound, h.count, fun U F hU hF hl => hPQ U F _ _ (h.code U F hU hF hl), h.functions⟩

namespace Emits

variable {srcs srcs' : List Source} {P Q : Blueprint → CodeFunction → Stretch} {g g' : Gen Unit}

/-- A stretch may be described otherwise. -/
theorem mono (h : Emits t low g srcs P) (hPQ : ∀ U F a b, P U F a b → Q U F a b) :
    Emits t low g srcs Q :=
  fun s s' hlow hs hg => (h s s' hlow hs hg).mono hPQ

/-- Doing nothing emits nothing. -/
theorem pure : Emits t low (pure ()) [] (fun _ _ => .empty) := by
  intro s s' _ hs hg
  obtain rfl : s = s' := by cases hg; rfl
  exact Emitted.refl hs

/-- **One behind the other.** -/
theorem bind (h : Emits t low g srcs P) (h' : Emits t low g' srcs' Q) :
    Emits t low (g >>= fun _ => g') (srcs ++ srcs') (fun U F => (P U F).seq (Q U F)) := by
  intro s s' hlow hs hg
  obtain ⟨a, s₁, h₁, h₂⟩ := Gen.bind_eq_ok.mp hg
  have hfirst := h s s₁ hlow hs h₁
  have hle : s.offset ≤ s₁.offset := hfirst.extends_.code.size_le
  exact hfirst.trans (h' s₁ s' (Nat.le_trans hlow hle) hfirst.sound h₂)

/-- What comes behind something that emits no function adds its own only. -/
theorem bind_left (h : Emits t low g [] P) (h' : Emits t low g' srcs Q) :
    Emits t low (g >>= fun _ => g') srcs (fun U F => (P U F).seq (Q U F)) :=
  h.bind h'

/-- What comes in front of something that emits no function adds its own only. -/
theorem bind_right (h : Emits t low g srcs P) (h' : Emits t low g' [] Q) :
    Emits t low (g >>= fun _ => g') srcs (fun U F => (P U F).seq (Q U F)) := by
  have := h.bind h'
  rwa [List.append_nil] at this

/-- Looking at the state emits nothing by itself. -/
theorem get {f : GenState → Gen Unit} (h : ∀ s, Emits t low (f s) srcs P) :
    Emits t low (get >>= f) srcs P := by
  intro s s' hlow hs hg
  obtain ⟨a, s₁, h₁, h₂⟩ := Gen.bind_eq_ok.mp hg
  obtain ⟨rfl, rfl⟩ : s = a ∧ s = s₁ := by cases h₁; exact ⟨rfl, rfl⟩
  exact h s s s' hlow hs h₂

/-- A stretch that is described in terms of its own start. -/
theorem offset {f : Nat → Gen Unit} {P : Nat → Blueprint → CodeFunction → Stretch}
    (h : ∀ start, Emits t start (f start) srcs (P start)) :
    Emits t low (MonadState.get >>= fun s : GenState => f s.emitter.offset) srcs
      (fun U F a b => P a U F a b) := by
  intro s s' _ hs hg
  obtain ⟨a, s₁, h₁, h₂⟩ := Gen.bind_eq_ok.mp hg
  obtain ⟨rfl, rfl⟩ : s = a ∧ s = s₁ := by cases h₁; exact ⟨rfl, rfl⟩
  have hf := h s.offset s s' (Nat.le_refl _) hs h₂
  exact ⟨hf.extends_, hf.sound, hf.count, hf.code, hf.functions⟩

end Emits

/-! ## Bytes -/

/-- The two bytes of an operand give the operand. -/
theorem Chunk.short_bytes (n : UInt16) :
    (highByte n).toUInt16 <<< 8 ||| (lowByte n).toUInt16 = n := by
  have hlow : n.toNat % 256 < 2 ^ 8 := Nat.mod_lt _ (by decide)
  have hn : n.toNat < 65536 := n.toNat_lt
  apply UInt16.toNat_inj.mp
  simp only [highByte, lowByte, UInt16.toNat_or, UInt16.toNat_shiftLeft, UInt8.toNat_toUInt16,
    UInt16.toNat_toUInt8, UInt16.toNat_shiftRight, UInt16.toNat_ofNat, Nat.reduceMod, Nat.reducePow]
  have hhigh : (n.toNat >>> 8 % 256) <<< 8 < 65536 := by
    rw [Nat.shiftLeft_eq]
    omega
  rw [Nat.mod_eq_of_lt hhigh, ← Nat.shiftLeft_add_eq_or_of_lt hlow, Nat.shiftLeft_eq,
    Nat.shiftRight_eq_div_pow]
  omega

/-- A two-byte operand is read back. -/
theorem Chunk.shortOperand_of_bytes {c : Chunk} {o : Nat} {n : UInt16}
    (hhigh : c.code[o]? = some (highByte n)) (hlow : c.code[o + 1]? = some (lowByte n)) :
    c.shortOperand o = .ok n.toNat := by
  simp [shortOperand, short?, hhigh, hlow, short_bytes]

/-- A one-byte operand is read back. -/
theorem Chunk.byteOperand_of_byte {c : Chunk} {o : Nat} {b : UInt8} (h : c.code[o]? = some b) :
    c.byteOperand o = .ok b.toNat := by
  simp [byteOperand, byte?, h]

/-- A constant is found where an operand leads. -/
theorem Pool.constantOperand_eq {p : Pool} {c : Chunk} {o k : Nat} {d : Constant}
    (hoperand : c.shortOperand o = .ok k) (hfound : p.constants[k]? = some d) :
    p.constantOperand c o = .ok d.toValue := by
  simp [constantOperand, hoperand, get?, hfound, bind, Except.bind, pure, Except.pure]

/-- A name is found where an operand leads. -/
theorem Pool.nameOperand_eq {p : Pool} {c : Chunk} {o k : Nat} {name : String}
    (hoperand : c.shortOperand o = .ok k) (hfound : p.constants[k]? = some (.string name)) :
    p.nameOperand c o = .ok name := by
  simp [nameOperand, hoperand, name?, get?, hfound, Constant.name?, bind, Except.bind, pure,
    Except.pure]

/-- A site is found where an operand leads. -/
theorem CodeFunction.siteOperand_eq {f : CodeFunction} {o k : Nat} {site : CallSite}
    (hoperand : f.chunk.shortOperand o = .ok k) (hfound : f.sites[k]? = some site) :
    f.siteOperand o = .ok (k, site) := by
  simp [siteOperand, hoperand, hfound, bind, Except.bind, pure, Except.pure]

/-- The bytes of a list stand at an offset. -/
def CodeFunction.HasBytes (F : CodeFunction) (a : Nat) (bytes : List UInt8) : Prop :=
  ∀ j b, bytes[j]? = some b → F.chunk.code[a + j]? = some b

/-- An instruction is read where its opcode stands, if its operands are read. -/
theorem Blueprint.at_of_opcode {U : Blueprint} {F : CodeFunction} {a : Nat} {o : Opcode}
    {bytes : List UInt8} (hbytes : F.HasBytes a (o.toByte :: bytes)) {i : Instruction}
    (hi : Instruction.ofOpcode U.pool F o (a + 1) = .ok i) :
    U.at F i a (a + 1 + o.operandSize) := by
  have hbyte : F.chunk.code[a]? = some o.toByte := hbytes 0 _ rfl
  obtain ⟨hlt, -⟩ := Array.getElem?_eq_some_iff.mp hbyte
  have hsize : ¬ F.chunk.size ≤ a := Nat.not_le_of_lt hlt
  rw [Blueprint.at, Instruction.read, if_neg hsize]
  simp [Chunk.op?, Chunk.byte?, hbyte, hi, Except.map]

/-- A two-byte operand behind an opcode is read back. -/
theorem CodeFunction.HasBytes.short {F : CodeFunction} {a : Nat} {o : UInt8} {n : UInt16}
    {bytes : List UInt8}
    (h : F.HasBytes a (o :: Chunk.highByte n :: Chunk.lowByte n :: bytes)) :
    F.chunk.shortOperand (a + 1) = .ok n.toNat :=
  Chunk.shortOperand_of_bytes (h 1 _ rfl) (h 2 _ rfl)

/-- The number that a two-byte operand stands for is the number that was written. -/
theorem toNat_toUInt16 {n : Nat} (h : n ≤ 65535) : n.toUInt16.toNat = n := by
  rw [Nat.toUInt16, UInt16.toNat_ofNat']
  exact Nat.mod_eq_of_lt (by omega)

/-- The number that a one-byte operand stands for is the number that was written. -/
theorem toNat_toUInt8 {n : Nat} (h : n ≤ 255) : n.toUInt8.toNat = n := by
  rw [Nat.toUInt8, UInt8.toNat_ofNat']
  exact Nat.mod_eq_of_lt (by omega)

/-! ## Instructions -/

/-- What an emitter writes: some bytes behind the others, and perhaps new constants. -/
structure Emitter.Writes (e e' : Emitter) (bytes : List UInt8) : Prop where
  /-- The bytes come behind the others. -/
  code : e'.chunk.code = e.chunk.code ++ bytes.toArray
  /-- The constants stay. -/
  pool : Grows e.pool.constants e'.pool.constants
  /-- The pool is sound. -/
  sound : e'.pool.Sound
  /-- Every byte has its line. -/
  lines : e'.chunk.lines.size = e.chunk.lines.size + bytes.length

namespace Emitter.Writes

variable {e e₁ e' : Emitter} {bytes bytes' : List UInt8}

/-- Writing nothing. -/
theorem refl (h : e.pool.Sound) : e.Writes e [] := ⟨by simp, Grows.refl _, h, rfl⟩

/-- Writing more. -/
theorem trans (h : e.Writes e₁ bytes) (h' : e₁.Writes e' bytes') :
    e.Writes e' (bytes ++ bytes') :=
  ⟨by rw [h'.code, h.code, Array.append_assoc]; simp, h.pool.trans h'.pool, h'.sound,
    by rw [h'.lines, h.lines, List.length_append, Nat.add_assoc]⟩

end Emitter.Writes

namespace Emitter

variable {e e' : Emitter}

/-- An opcode is one byte. -/
theorem op_writes (h : e.pool.Sound) {o : Opcode} {u : Unit} (hm : op o e = .ok u e') :
    e.Writes e' [o.toByte] := by
  injection hm with _ hm
  subst hm
  exact ⟨by simp [Chunk.writeOp, Chunk.writeByte], Grows.refl _, h,
    by simp [Chunk.writeOp, Chunk.writeByte]⟩

/-- A one-byte operand is one byte. -/
theorem byteOperand_writes (h : e.pool.Sound) {b : UInt8} {u : Unit}
    (hm : byteOperand b e = .ok u e') : e.Writes e' [b] := by
  injection hm with _ hm
  subst hm
  exact ⟨by simp [Chunk.writeByte], Grows.refl _, h, by simp [Chunk.writeByte]⟩

/-- A two-byte operand is two bytes, the higher one first. -/
theorem shortOperand_writes (h : e.pool.Sound) {n : UInt16} {u : Unit}
    (hm : shortOperand n e = .ok u e') : e.Writes e' [Chunk.highByte n, Chunk.lowByte n] := by
  injection hm with _ hm
  subst hm
  refine ⟨?_, Grows.refl _, h, by simp [Chunk.writeShort, Chunk.writeByte]⟩
  apply Array.toList_inj.mp
  simp [Chunk.writeShort, Chunk.writeByte]

/-- A source position is no byte. -/
theorem setSpan_writes (h : e.pool.Sound) {span : Span} {u : Unit} (hm : setSpan span e = .ok u e') :
    e.Writes e' [] := by
  injection hm with _ hm
  subst hm
  split
  · exact Writes.refl h
  · exact ⟨by simp, Grows.refl _, h, rfl⟩

/-- A computation with a successor succeeds if both do. -/
theorem bind_eq_ok {α β : Type} {x : Emit α} {f : α → Emit β} {b : β} :
    (x >>= f) e = .ok b e' ↔ ∃ a e₁, x e = .ok a e₁ ∧ f a e₁ = .ok b e' := by
  show EStateM.bind x f e = .ok b e' ↔ _
  rw [EStateM.bind]
  rcases x e with ⟨a, e₁⟩ | ⟨err, e₁⟩
  · simp only [EStateM.Result.ok.injEq]
    constructor
    · exact fun h => ⟨a, e₁, ⟨rfl, rfl⟩, h⟩
    · rintro ⟨_, _, ⟨rfl, rfl⟩, h⟩
      exact h
  · simp

/-- An opcode with a one-byte operand. -/
theorem opByte_writes (h : e.pool.Sound) {o : Opcode} {b : UInt8} {u : Unit}
    (hm : opByte o b e = .ok u e') : e.Writes e' [o.toByte, b] := by
  obtain ⟨_, e₁, h₁, h₂⟩ := bind_eq_ok.mp hm
  have hw := op_writes h h₁
  exact hw.trans (byteOperand_writes hw.sound h₂)

/-- An opcode with a two-byte operand. -/
theorem opShort_writes (h : e.pool.Sound) {o : Opcode} {n : UInt16} {u : Unit}
    (hm : opShort o n e = .ok u e') :
    e.Writes e' [o.toByte, Chunk.highByte n, Chunk.lowByte n] := by
  obtain ⟨_, e₁, h₁, h₂⟩ := bind_eq_ok.mp hm
  have hw := op_writes h h₁
  exact hw.trans (shortOperand_writes hw.sound h₂)

/-- A number that passes the check is as large as an operand can hold. -/
theorem checked_eq_ok {n k : Nat} {r : Resource} (hm : checked n r e = .ok k e') :
    k = n ∧ e' = e ∧ n ≤ r.limit := by
  rw [checked] at hm
  split at hm
  · next hle =>
    obtain ⟨rfl, rfl⟩ : n = k ∧ e = e' := by cases hm; exact ⟨rfl, rfl⟩
    exact ⟨rfl, rfl, hle⟩
  · obtain ⟨_, _, _, hthrow⟩ := bind_eq_ok.mp hm
    cases hthrow

/-- The index of a constant leads to a constant of its key. -/
theorem constantIndex_eq_ok (h : e.pool.Sound) {c : Constant} {i : Nat}
    (hm : constantIndex c e = .ok i e') :
    e.Writes e' [] ∧ i ≤ 65535 ∧ ∃ d, e'.pool.constants[i]? = some d ∧ d.key = c.key := by
  obtain ⟨e₀, e₁, h₁, h₂⟩ := bind_eq_ok.mp hm
  injection h₁ with h₀ h₁
  subst h₀ h₁
  rcases hadd : e.pool.add c with ⟨j, q⟩
  simp only [hadd] at h₂
  obtain ⟨_, e₂, h₃, h₄⟩ := bind_eq_ok.mp h₂
  injection h₃ with _ h₃
  subst h₃
  obtain ⟨rfl, rfl, hle⟩ := checked_eq_ok h₄
  obtain ⟨hsound, hgrows, hfound⟩ := Pool.add_spec h hadd
  exact ⟨⟨by simp, hgrows, hsound, rfl⟩, hle, hfound⟩

/-- A backward jump is an opcode and the distance from behind it. -/
theorem loop_writes (h : e.pool.Sound) {start : Nat} {u : Unit} (hm : loop start e = .ok u e') :
    e.offset + 1 - start + 2 ≤ 65535 ∧
      e.Writes e' [Opcode.loop.toByte, Chunk.highByte (e.offset + 1 - start + 2).toUInt16,
        Chunk.lowByte (e.offset + 1 - start + 2).toUInt16] := by
  obtain ⟨e₀, e₁, h₁, h₂⟩ := bind_eq_ok.mp hm
  injection h₁ with h₀ h₁
  subst h₀ h₁
  have hsize : (e.chunk.writeOp .loop e.line).size = e.offset + 1 := by
    simp [Chunk.writeOp, Chunk.writeByte, Chunk.size, Emitter.offset]
  rw [Chunk.writeLoop, hsize] at h₂
  simp only at h₂
  by_cases hfits : e.offset + 1 - start + 2 ≤ Chunk.maxDistance
  · rw [if_pos hfits] at h₂
    injection h₂ with _ h₂
    subst h₂
    refine ⟨hfits, ?_, Grows.refl _, h, by simp [Chunk.writeShort, Chunk.writeByte, Chunk.writeOp]⟩
    apply Array.toList_inj.mp
    simp [Chunk.writeShort, Chunk.writeByte, Chunk.writeOp]
  · rw [if_neg hfits] at h₂
    obtain ⟨_, _, _, h₃⟩ := bind_eq_ok.mp h₂
    obtain ⟨_, _, _, hthrow⟩ := bind_eq_ok.mp h₃
    cases hthrow

end Emitter

namespace Emits

variable {srcs srcs' : List Source} {P Q : Blueprint → CodeFunction → Stretch} {g g' : Gen Unit}

/-- What writes bytes emits whatever the bytes read as where they stand. -/
theorem ofWritesFrom {m : Emit Unit}
    (h : ∀ e e', low ≤ e.offset → e.pool.Sound → m e = .ok () e' → ∃ bytes, e.Writes e' bytes ∧
      ∀ U F, Grows e'.pool.constants U.pool.constants → F.HasBytes e.offset bytes →
        P U F e.offset (e.offset + bytes.length)) :
    Emits t low (emit m) [] P := by
  intro s s' hlow hs hg
  obtain ⟨e, he, rfl⟩ := Gen.emit_eq_ok.mp hg
  obtain ⟨bytes, hw, hreads⟩ := h _ _ hlow hs he
  have hoffset : GenState.offset { s with emitter := e } = s.offset + bytes.length := by
    simp [GenState.offset, GenState.code, hw.code]
  refine ⟨⟨fun i x hi => ?_, hw.pool, Grows.refl _, Grows.refl _⟩, hw.sound, rfl, ?_, ?_⟩
  · obtain ⟨hlt, -⟩ := Array.getElem?_eq_some_iff.mp hi
    show e.chunk.code[i]? = some x
    rw [hw.code, Array.getElem?_append_left (show i < s.emitter.chunk.code.size from hlt)]
    exact hi
  · intro U F hU hF _
    rw [hoffset]
    refine hreads U F hU.pool fun j b hj => ?_
    obtain ⟨hlt, -⟩ := List.getElem?_eq_some_iff.mp hj
    have hstart : s.emitter.offset = s.offset := rfl
    rw [hstart, hF.code _ (by omega) (by omega)]
    simp only [GenState.offset, GenState.code, hw.code]
    rw [Array.getElem?_append_right (by omega)]
    simpa using hj
  · intro U _ _ j src hj
    exact absurd hj (by simp)

/-- What writes bytes emits whatever the bytes read as anywhere. -/
theorem ofWrites {m : Emit Unit}
    (h : ∀ e e', e.pool.Sound → m e = .ok () e' → ∃ bytes, e.Writes e' bytes ∧
      ∀ U F a, Grows e'.pool.constants U.pool.constants → F.HasBytes a bytes →
        P U F a (a + bytes.length)) :
    Emits t low (emit m) [] P := by
  refine ofWritesFrom fun e e' _ he hm => ?_
  obtain ⟨bytes, hw, hreads⟩ := h e e' he hm
  exact ⟨bytes, hw, fun U F => hreads U F e.offset⟩

/-- A source position is no code. -/
theorem setSpan (span : Span) : Emits t low (emit (Emitter.setSpan span)) [] (fun _ _ => .empty) :=
  ofWrites fun _ _ he hm => ⟨[], Emitter.setSpan_writes he hm, fun _ _ _ _ _ => rfl⟩

/-- **An opcode without operands.** -/
theorem op {o : Opcode} (i : Instruction) (hsize : o.operandSize = 0)
    (hread : ∀ p f a, Instruction.ofOpcode p f o a = .ok i) :
    Emits t low (emit (Emitter.op o)) [] (fun U F => U.at F i) := by
  refine ofWrites fun e e' he hm => ⟨_, Emitter.op_writes he hm, fun U F a _ hb => ?_⟩
  have hat := Blueprint.at_of_opcode hb (hread U.pool F (a + 1))
  rwa [hsize] at hat

/-- The bytes of an opcode with a number. -/
theorem index {o : Opcode} {r : Resource} (hsize : o.operandSize = 2) (hlimit : r.limit = 65535)
    (n : Nat) : Emits t low (emit (Emitter.opIndex o n r)) [] (fun _ F a b =>
      F.HasBytes a [o.toByte] ∧ F.chunk.shortOperand (a + 1) = .ok n ∧ b = a + 1 + o.operandSize) := by
  refine ofWrites fun e e' he hm => ?_
  obtain ⟨k, e₁, h₁, h₂⟩ := Emitter.bind_eq_ok.mp hm
  obtain ⟨rfl, rfl, hle⟩ := Emitter.checked_eq_ok h₁
  refine ⟨_, Emitter.opShort_writes he h₂, fun U F a _ hb => ⟨fun j b hj => hb j b ?_, ?_, ?_⟩⟩
  · rcases j with _ | j
    · exact hj
    · simp at hj
  · have hshort := hb.short
    rwa [toNat_toUInt16 (hlimit ▸ hle)] at hshort
  · rw [hsize]
    rfl

/-- **An opcode with a number.** -/
theorem opIndex {o : Opcode} {r : Resource} (make : Nat → Instruction) (hsize : o.operandSize = 2)
    (hlimit : r.limit = 65535)
    (hread : ∀ p f a k, f.chunk.shortOperand a = .ok k → Instruction.ofOpcode p f o a = .ok (make k))
    (n : Nat) : Emits t low (emit (Emitter.opIndex o n r)) [] (fun U F => U.at F (make n)) := by
  refine (index hsize hlimit n).mono ?_
  rintro U F a b ⟨hop, hshort, rfl⟩
  exact Blueprint.at_of_opcode hop (hread U.pool F (a + 1) _ hshort)

/-- **An opcode with a name.** -/
theorem opName {o : Opcode} (make : String → Instruction) (hsize : o.operandSize = 2)
    (hread : ∀ p f a name, p.nameOperand f.chunk a = .ok name →
      Instruction.ofOpcode p f o a = .ok (make name)) (name : String) :
    Emits t low (emit (Emitter.opName o name)) [] (fun U F => U.at F (make name)) := by
  refine ofWrites fun e e' he hm => ?_
  obtain ⟨k, e₁, h₁, h₂⟩ := Emitter.bind_eq_ok.mp hm
  obtain ⟨hw, hle, d, hd, hkey⟩ := Emitter.constantIndex_eq_ok he h₁
  have hw' := Emitter.opShort_writes hw.sound h₂
  refine ⟨_, hw.trans hw', fun U F a hpool hb => ?_⟩
  obtain rfl := Constant.eq_string_of_key hkey
  have hshort := CodeFunction.HasBytes.short hb
  rw [toNat_toUInt16 hle] at hshort
  have hname := Pool.nameOperand_eq hshort (hpool _ _ (hw'.pool _ _ hd))
  have hat := Blueprint.at_of_opcode hb (hread U.pool F (a + 1) _ hname)
  rwa [hsize] at hat

/-- **A constant** is pushed as the pool has it. -/
theorem constant (c : Constant) : Emits t low (emit (Emitter.constant c)) []
    (fun U F a b => ∃ v : Value, v.Same c.toValue ∧ U.at F (.push v) a b) := by
  refine ofWrites fun e e' he hm => ?_
  obtain ⟨k, e₁, h₁, h₂⟩ := Emitter.bind_eq_ok.mp hm
  obtain ⟨hw, hle, d, hd, hkey⟩ := Emitter.constantIndex_eq_ok he h₁
  have hw' := Emitter.opShort_writes hw.sound h₂
  refine ⟨_, hw.trans hw', fun U F a hpool hb => ⟨d.toValue, Constant.same_of_key hkey, ?_⟩⟩
  have hshort := CodeFunction.HasBytes.short hb
  rw [toNat_toUInt16 hle] at hshort
  have hconstant := Pool.constantOperand_eq hshort (hpool _ _ (hw'.pool _ _ hd))
  refine Blueprint.at_of_opcode hb ?_
  rw [Instruction.ofOpcode, hconstant]
  rfl

/-- **A call of any value.** -/
theorem call (argc : Nat) :
    Emits t low (emit (Emitter.call argc)) [] (fun U F => U.at F (.call argc)) := by
  refine ofWrites fun e e' he hm => ?_
  obtain ⟨k, e₁, h₁, h₂⟩ := Emitter.bind_eq_ok.mp hm
  obtain ⟨rfl, rfl, hle⟩ := Emitter.checked_eq_ok h₁
  refine ⟨_, Emitter.opByte_writes he h₂, fun U F a _ hb => ?_⟩
  have hbyte := Chunk.byteOperand_of_byte (hb 1 _ rfl)
  rw [toNat_toUInt8 hle] at hbyte
  refine Blueprint.at_of_opcode hb ?_
  rw [Instruction.ofOpcode, hbyte]
  rfl

/-- **A call of a name.** -/
theorem callName (name : String) (argc : Nat) :
    Emits t low (emit (Emitter.callName name argc)) [] (fun U F => U.at F (.callName name argc)) := by
  refine ofWrites fun e e' he hm => ?_
  obtain ⟨k, e₁, h₁, h₂⟩ := Emitter.bind_eq_ok.mp hm
  obtain ⟨rfl, rfl, hle⟩ := Emitter.checked_eq_ok h₁
  obtain ⟨_, e₂, h₃, h₄⟩ := Emitter.bind_eq_ok.mp h₂
  obtain ⟨i, e₃, h₅, h₆⟩ := Emitter.bind_eq_ok.mp h₃
  obtain ⟨hw, hi, d, hd, hkey⟩ := Emitter.constantIndex_eq_ok he h₅
  have hw' := Emitter.opShort_writes hw.sound h₆
  have hw'' := Emitter.byteOperand_writes hw'.sound h₄
  refine ⟨_, hw.trans (hw'.trans hw''), fun U F a hpool hb => ?_⟩
  obtain rfl := Constant.eq_string_of_key hkey
  have hshort := CodeFunction.HasBytes.short hb
  rw [toNat_toUInt16 hi] at hshort
  have hbyte := Chunk.byteOperand_of_byte (hb 3 _ rfl)
  rw [toNat_toUInt8 hle] at hbyte
  have hname := Pool.nameOperand_eq hshort (hpool _ _ (hw''.pool _ _ (hw'.pool _ _ hd)))
  refine Blueprint.at_of_opcode hb ?_
  rw [Instruction.ofOpcode, hname]
  show (do return .callName name (← F.chunk.byteOperand (a + 1 + 2)) : Except Fault Instruction) = _
  rw [hbyte]
  rfl

/-- **An access to an environment.** -/
theorem env {o : Opcode} (make : Nat → Nat → Instruction) (hsize : o.operandSize = 3)
    (hread : ∀ p f a d k, f.chunk.byteOperand a = .ok d → f.chunk.shortOperand (a + 1) = .ok k →
      Instruction.ofOpcode p f o a = .ok (make d k)) (depth slot : Nat) :
    Emits t low (emit (Emitter.env o depth slot)) [] (fun U F => U.at F (make depth slot)) := by
  refine ofWrites fun e e' he hm => ?_
  obtain ⟨k, e₁, h₁, h₂⟩ := Emitter.bind_eq_ok.mp hm
  obtain ⟨rfl, rfl, hdepth⟩ := Emitter.checked_eq_ok h₁
  obtain ⟨k, e₂, h₃, h₄⟩ := Emitter.bind_eq_ok.mp h₂
  obtain ⟨rfl, rfl, hslot⟩ := Emitter.checked_eq_ok h₃
  obtain ⟨_, e₃, h₅, h₆⟩ := Emitter.bind_eq_ok.mp h₄
  have hw := Emitter.opByte_writes he h₅
  refine ⟨_, hw.trans (Emitter.shortOperand_writes hw.sound h₆), fun U F a _ hb => ?_⟩
  have hbyte := Chunk.byteOperand_of_byte (hb 1 _ rfl)
  rw [toNat_toUInt8 hdepth] at hbyte
  have hshort : F.chunk.shortOperand (a + 1 + 1) = .ok _ :=
    Chunk.shortOperand_of_bytes (hb 2 _ rfl) (hb 3 _ rfl)
  rw [toNat_toUInt16 hslot] at hshort
  have hat := Blueprint.at_of_opcode hb (hread U.pool F (a + 1) _ _ hbyte hshort)
  rwa [hsize] at hat

/-- **An operation through a call site**, which joins the sites of the function. -/
theorem opSite {o : Opcode} (make : Nat → CallSite → Instruction) (hsize : o.operandSize = 2)
    (hread : ∀ p f a k site, f.siteOperand a = .ok (k, site) →
      Instruction.ofOpcode p f o a = .ok (make k site))
    (kind : SiteKind) (name : String) (argc : Nat) (span : Span) :
    Emits t low (opSite o kind name argc span) [] (fun U F => .site U F make name argc) := by
  intro s s' hlow hs hg
  obtain ⟨k, s₁, h₁, h₂⟩ := Gen.bind_eq_ok.mp hg
  obtain ⟨hargc, rfl, hs₁⟩ := Gen.addSite_eq_ok h₁
  have hrest := ((setSpan (t := t) span).bind_left (index hsize rfl s.sites.size)) s₁ s'
    (by subst hs₁; exact hlow) (by subst hs₁; exact hs) h₂
  have hextends : s.Extends s₁ := by
    rw [hs₁]
    exact ⟨Grows.refl _, Grows.refl _, Grows.push _ _, Grows.refl _⟩
  have hoffset : s₁.offset = s.offset := by rw [hs₁]; rfl
  have hfunctions : s₁.functions = s.functions := by rw [hs₁]
  have hsite : s₁.sites[s.sites.size]? = some ⟨kind, name, argc.toUInt8, span⟩ := by simp [hs₁]
  refine ⟨hextends.trans hrest.extends_, hrest.sound, hfunctions ▸ hrest.count, ?_,
    hfunctions ▸ hrest.functions⟩
  intro U F hU hF hl
  obtain ⟨m, hm, hop, hshort, hb⟩ :=
    hrest.code U F hU ⟨hF.sites, by rw [hoffset]; exact hF.code⟩ (hfunctions ▸ hl)
  obtain rfl : s₁.offset = m := hm
  have hfound := hF.sites _ _ (hrest.extends_.sites _ _ hsite)
  refine ⟨s.sites.size, ⟨kind, name, argc.toUInt8, span⟩, rfl, toNat_toUInt8 hargc, ?_⟩
  rw [hb, ← hoffset]
  exact Blueprint.at_of_opcode hop (hread U.pool F _ _ _ (CodeFunction.siteOperand_eq hshort hfound))

end Emits

/-! ## Jumps -/

/-- The opcode of a forward jump, and the instruction that is read for it. -/
structure Opcode.JumpsForward (o : Opcode) (jump : Nat → Instruction) : Prop where
  /-- The operand has two bytes. -/
  size : o.operandSize = 2
  /-- The operand is the distance. -/
  read : ∀ p f a target, f.chunk.forwardTarget a = .ok target →
    Instruction.ofOpcode p f o a = .ok (jump target)

/-- A jump is read where its bytes stand, with the distance made an offset. -/
theorem Blueprint.at_of_jump {U : Blueprint} {F : CodeFunction} {a b : Nat} {o : Opcode}
    {jump : Nat → Instruction} (hjump : o.JumpsForward jump) (hop : F.chunk.code[a]? = some o.toByte)
    (hab : a + 3 ≤ b) (hfits : b - (a + 3) ≤ 65535)
    (hhigh : F.chunk.code[a + 1]? = some (Chunk.highByte (b - (a + 3)).toUInt16))
    (hlow : F.chunk.code[a + 2]? = some (Chunk.lowByte (b - (a + 3)).toUInt16)) :
    U.at F (jump b) a (a + 3) := by
  have hbytes : F.HasBytes a [o.toByte] := by
    intro j x hj
    rcases j with _ | j
    · exact (Option.some.inj hj) ▸ hop
    · simp at hj
  have hshort := Chunk.shortOperand_of_bytes hhigh hlow
  rw [toNat_toUInt16 hfits] at hshort
  have htarget : F.chunk.forwardTarget (a + 1) = .ok b := by
    rw [Chunk.forwardTarget, hshort]
    show Except.ok (a + 1 + 2 + (b - (a + 3))) = Except.ok b
    congr 1
    omega
  have hat := at_of_opcode hbytes (hjump.read U.pool F (a + 1) b htarget)
  rwa [hjump.size] at hat

/-- A jump that awaits its target has been written. -/
structure GenState.Awaits (s s' : GenState) (o : Opcode) (label : JumpLabel) : Prop where
  /-- The label is where the operand stands. -/
  label : label.offset = s.offset + 1
  /-- The opcode and an operand come behind the code. -/
  offset : s'.offset = s.offset + 3
  /-- The code in front stays. -/
  code : Grows s.code s'.code
  /-- The opcode comes first. -/
  opcode : s'.code[s.offset]? = some o.toByte
  /-- The constants stay. -/
  pool : s'.pool = s.pool
  /-- The sites stay. -/
  sites : s'.sites = s.sites
  /-- The functions stay. -/
  functions : s'.functions = s.functions
  /-- Every byte has its line. -/
  lines : s'.emitter.chunk.lines.size = s.emitter.chunk.lines.size + 3

/-- Nothing is lost. -/
theorem GenState.Awaits.extends_ {s s' : GenState} {o : Opcode} {label : JumpLabel}
    (h : s.Awaits s' o label) : s.Extends s' :=
  ⟨h.code, h.pool ▸ Grows.refl _, h.sites ▸ Grows.refl _, h.functions ▸ Grows.refl _⟩

/-- Emitting a forward jump. -/
theorem Gen.jump_eq_ok {o : Opcode} {s s' : GenState} {label : JumpLabel}
    (h : emit (Emitter.jump o) s = .ok label s') : s.Awaits s' o label := by
  obtain ⟨e, he, rfl⟩ := Gen.emit_eq_ok.mp h
  injection he with hlabel he
  subst hlabel he
  refine ⟨?_, ?_, ?_, ?_, rfl, rfl, rfl, ?_⟩
  · simp [GenState.offset, GenState.code, Chunk.writeOp, Chunk.writeByte, Chunk.size]
  · simp [GenState.offset, GenState.code, Chunk.writeShort, Chunk.writeOp, Chunk.writeByte]
  · exact ((Grows.push _ _).trans (Grows.push _ _)).trans (Grows.push _ _)
  · have hop : (s.code.push o.toByte)[s.offset]? = some o.toByte := Array.getElem?_push_size
    exact Grows.push _ _ _ _ (Grows.push _ _ _ _ hop)
  · simp [Chunk.writeShort, Chunk.writeOp, Chunk.writeByte]

/-- A jump that awaited its target has been patched. -/
structure GenState.Patches (s s' : GenState) (o : Nat) : Prop where
  /-- The distance fits. -/
  fits : s.offset - (o + 2) ≤ 65535
  /-- Nothing was added. -/
  offset : s'.offset = s.offset
  /-- The higher byte. -/
  high : s'.code[o]? = some (Chunk.highByte (s.offset - (o + 2)).toUInt16)
  /-- The lower byte. -/
  low : s'.code[o + 1]? = some (Chunk.lowByte (s.offset - (o + 2)).toUInt16)
  /-- All else stays. -/
  frame : ∀ i, i ≠ o → i ≠ o + 1 → s'.code[i]? = s.code[i]?
  /-- The constants stay. -/
  pool : s'.pool = s.pool
  /-- The sites stay. -/
  sites : s'.sites = s.sites
  /-- The functions stay. -/
  functions : s'.functions = s.functions
  /-- The lines stay. -/
  lines : s'.emitter.chunk.lines = s.emitter.chunk.lines

/-- **What lies in front of the operand** is as it was before the patch. -/
theorem GenState.Extends.patch {s s₁ s₂ : GenState} {o : Nat} (h : s.Extends s₁) (hp : s₁.Patches s₂ o)
    (ho : s.offset ≤ o) : s.Extends s₂ := by
  refine ⟨fun i x hi => ?_, hp.pool ▸ h.pool, hp.sites ▸ h.sites, hp.functions ▸ h.functions⟩
  obtain ⟨hlt, -⟩ := Array.getElem?_eq_some_iff.mp hi
  have hlt : i < s.offset := hlt
  rw [hp.frame i (by omega) (by omega)]
  exact h.code _ _ hi

/-- A jump that has been patched lands where the code ended then. -/
theorem Blueprint.at_of_patches {U : Blueprint} {F : CodeFunction} {s s' : GenState} {a : Nat} {o : Opcode}
    {jump : Nat → Instruction} (hjump : o.JumpsForward jump) (hp : s.Patches s' (a + 1))
    (ha : a + 3 ≤ s.offset) (hop : F.chunk.code[a]? = some o.toByte)
    (hoperand : ∀ i, a < i → i < a + 3 → F.chunk.code[i]? = s'.code[i]?) :
    U.at F (jump s.offset) a (a + 3) :=
  at_of_jump hjump hop ha hp.fits ((hoperand _ (by omega) (by omega)).trans hp.high)
    ((hoperand _ (by omega) (by omega)).trans hp.low)

/-- Patching a forward jump lets it land at the end of the code. -/
theorem Gen.patch_eq_ok {label : JumpLabel} {s s' : GenState} (hin : label.offset + 2 ≤ s.offset)
    (h : emit (Emitter.patch label) s = .ok () s') : s.Patches s' label.offset := by
  obtain ⟨e, he, rfl⟩ := Gen.emit_eq_ok.mp h
  obtain ⟨e₀, e₁, h₁, h₂⟩ := Emitter.bind_eq_ok.mp he
  injection h₁ with h₀ h₁
  subst h₀ h₁
  have hsize : s.offset = s.emitter.chunk.code.size := rfl
  have hdistance : s.emitter.chunk.distanceFrom label.offset = s.offset - (label.offset + 2) := by
    rw [Chunk.distanceFrom, Chunk.size, hsize, Nat.sub_sub]
  rw [Chunk.patchJump, hdistance] at h₂
  simp only at h₂
  by_cases hfits : s.offset - (label.offset + 2) ≤ Chunk.maxDistance
  · rw [if_pos hfits] at h₂
    injection h₂ with _ h₂
    subst h₂
    refine ⟨hfits, ?_, ?_, ?_, fun i hi hi' => ?_, rfl, rfl, rfl, rfl⟩
    · simp [GenState.offset, GenState.code]
    · simp only [GenState.code, Array.getElem?_setIfInBounds]
      rw [if_neg (by omega), if_pos trivial, if_pos (by omega)]
    · simp only [GenState.code, Array.getElem?_setIfInBounds]
      rw [if_pos trivial, if_pos (by rw [Array.size_setIfInBounds]; omega)]
    · simp only [GenState.code, Array.getElem?_setIfInBounds]
      rw [if_neg (Ne.symm hi'), if_neg (Ne.symm hi)]
  · rw [if_neg hfits] at h₂
    obtain ⟨_, _, _, hthrow⟩ := Emitter.bind_eq_ok.mp h₂
    cases hthrow

namespace Emits

variable {srcs srcs' : List Source} {P Q : Blueprint → CodeFunction → Stretch} {g g' : Gen Unit}

/-- **A jump over a stretch.** -/
theorem skip {o : Opcode} {jump : Nat → Instruction} (hjump : o.JumpsForward jump)
    (h : Emits t low g srcs P) :
    Emits t low (emit (Emitter.jump o) >>= fun label => g >>= fun _ => emit (Emitter.patch label))
      srcs (fun U F => .skip U F jump (P U F)) := by
  intro s s₃ hlow hs hg
  obtain ⟨label, s₁, h₁, hg⟩ := Gen.bind_eq_ok.mp hg
  obtain ⟨_, s₂, h₂, h₃⟩ := Gen.bind_eq_ok.mp hg
  have hawaits := Gen.jump_eq_ok h₁
  have hoffset := hawaits.offset
  have hlabel := hawaits.label
  have hmiddle := h s₁ s₂ (by omega) (hawaits.pool ▸ hs) h₂
  have hle : s₁.offset ≤ s₂.offset := hmiddle.extends_.code.size_le
  have hpatches := Gen.patch_eq_ok (by omega) h₃
  rw [hlabel] at hpatches
  have hend := hpatches.offset
  have hextends : s.Extends s₃ := (hawaits.extends_.trans hmiddle.extends_).patch hpatches (by omega)
  have hcovers : ∀ U : Blueprint, U.Covers t s₃ → U.Covers t s₂ :=
    fun U hU => ⟨hU.table, hpatches.pool ▸ hU.pool⟩
  refine ⟨hextends, ?_, ?_, fun U F hU hF hl => ?_, fun U hU hl => ?_⟩
  · rw [hpatches.pool]
    exact hmiddle.sound
  · rw [hpatches.functions, hmiddle.count, hawaits.functions]
  · refine ⟨s₁.offset, ?_, ?_⟩
    · rw [hoffset, hend]
      refine Blueprint.at_of_patches hjump hpatches (by omega) ?_ fun i hi hi' => ?_
      · rw [hF.code _ (by omega) (by omega), hpatches.frame _ (by omega) (by omega)]
        exact hmiddle.extends_.code _ _ hawaits.opcode
      · exact hF.code i (by omega) (by omega)
    · rw [hend]
      exact hmiddle.code_of_part (hcovers U hU) (hawaits.functions ▸ hl) hF (hpatches.sites ▸ Grows.refl _)
        (by omega) (by omega) fun i hi hi' => hpatches.frame i (by omega) (by omega)
  · have hfunctions := hmiddle.functions U (hcovers U hU) (hawaits.functions ▸ hl)
    rw [hpatches.functions]
    rwa [hawaits.functions] at hfunctions

/-- **A jump to the second of two stretches**, and behind the first a jump over the second. The first
jump is patched while the second awaits its target. -/
theorem fork {o : Opcode} {jump : Nat → Instruction} (hjump : o.JumpsForward jump)
    (hover : Opcode.jump.JumpsForward .jump) (h : Emits t low g srcs P)
    (h' : Emits t low g' srcs' Q) :
    Emits t low (emit (Emitter.jump o) >>= fun toSecond => g >>= fun _ =>
        emit (Emitter.jump .jump) >>= fun toEnd => emit (Emitter.patch toSecond) >>= fun _ =>
        g' >>= fun _ => emit (Emitter.patch toEnd))
      (srcs ++ srcs') (fun U F => .fork U F jump (P U F) (Q U F)) := by
  intro s s₆ hlow hs hg
  obtain ⟨toSecond, s₁, h₁, hg⟩ := Gen.bind_eq_ok.mp hg
  obtain ⟨_, s₂, h₂, hg⟩ := Gen.bind_eq_ok.mp hg
  obtain ⟨toEnd, s₃, h₃, hg⟩ := Gen.bind_eq_ok.mp hg
  obtain ⟨_, s₄, h₄, hg⟩ := Gen.bind_eq_ok.mp hg
  obtain ⟨_, s₅, h₅, h₆⟩ := Gen.bind_eq_ok.mp hg
  have hawaits := Gen.jump_eq_ok h₁
  have hoffset := hawaits.offset
  have hlabel := hawaits.label
  have hfirst := h s₁ s₂ (by omega) (hawaits.pool ▸ hs) h₂
  have hle : s₁.offset ≤ s₂.offset := hfirst.extends_.code.size_le
  have hawaits' := Gen.jump_eq_ok h₃
  have hoffset' := hawaits'.offset
  have hlabel' := hawaits'.label
  have hpatches := Gen.patch_eq_ok (by omega) h₄
  rw [hlabel] at hpatches
  have hmiddle := hpatches.offset
  have hsecond := h' s₄ s₅ (by omega) (by rw [hpatches.pool, hawaits'.pool]; exact hfirst.sound) h₅
  have hle' : s₄.offset ≤ s₅.offset := hsecond.extends_.code.size_le
  have hpatches' := Gen.patch_eq_ok (by omega) h₆
  rw [hlabel'] at hpatches'
  have hend := hpatches'.offset
  -- All but the operand of the second jump is as it was before the second stretch, and all but both
  -- operands up to the second jump is as it was behind the first stretch.
  have hkept : ∀ i, i < s₄.offset → i ≠ s₂.offset + 1 → i ≠ s₂.offset + 1 + 1 → s₆.code[i]? = s₄.code[i]? := by
    intro i hi hne hne'
    rw [hpatches'.frame i hne hne', hsecond.extends_.code.getElem?_eq hi]
  have hfront : ∀ i, i < s₂.offset → i ≠ s.offset + 1 → i ≠ s.offset + 1 + 1 →
      s₆.code[i]? = s₂.code[i]? := by
    intro i hi hne hne'
    rw [hkept i (by omega) (by omega) (by omega), hpatches.frame i hne hne', hawaits'.code.getElem?_eq hi]
  have hfunctions : s₄.functions = s₂.functions := by rw [hpatches.functions, hawaits'.functions]
  have hsites : s₄.sites = s₂.sites := by rw [hpatches.sites, hawaits'.sites]
  have hpool : s₄.pool = s₂.pool := by rw [hpatches.pool, hawaits'.pool]
  have hcount : s₄.functions.size = s.functions.size + srcs.length := by
    rw [hfunctions, hfirst.count, hawaits.functions]
  have hcovers : ∀ U : Blueprint, U.Covers t s₆ → U.Covers t s₂ ∧ U.Covers t s₅ := by
    intro U hU
    have hU₅ : U.Covers t s₅ := ⟨hU.table, hpatches'.pool ▸ hU.pool⟩
    exact ⟨⟨hU.table, hpool ▸ hsecond.extends_.pool.trans hU₅.pool⟩, hU₅⟩
  have hlists : ∀ U : Blueprint, U.Lists s.functions.size (srcs ++ srcs') →
      U.Lists s₁.functions.size srcs ∧ U.Lists s₄.functions.size srcs' := by
    intro U hl
    rw [hawaits.functions, hcount]
    exact Blueprint.lists_append.mp hl
  have hextends : s.Extends s₄ := by
    refine ((hawaits.extends_.trans hfirst.extends_).trans hawaits'.extends_).patch hpatches ?_
    omega
  refine ⟨(hextends.trans hsecond.extends_).patch hpatches' (by omega), ?_, ?_, fun U F hU hF hl => ?_,
    fun U hU hl => ?_⟩
  · rw [hpatches'.pool]
    exact hsecond.sound
  · rw [hpatches'.functions, hsecond.count, hcount, List.length_append, Nat.add_assoc]
  · obtain ⟨hl₁, hl₂⟩ := hlists U hl
    obtain ⟨hU₁, hU₂⟩ := hcovers U hU
    refine ⟨s₁.offset, s₂.offset, s₃.offset, ?_, ?_, ?_, ?_⟩
    · rw [hoffset]
      refine Blueprint.at_of_patches hjump hpatches (by omega) ?_ fun i hi hi' => ?_
      · rw [hF.code _ (by omega) (by omega), hfront _ (by omega) (by omega) (by omega)]
        exact hfirst.extends_.code _ _ hawaits.opcode
      · rw [hF.code _ (by omega) (by omega), hkept _ (by omega) (by omega) (by omega)]
    · exact hfirst.code_of_part hU₁ hl₁ hF (hsites ▸ hpatches'.sites ▸ hsecond.extends_.sites) (by omega)
        (by omega) fun i hi hi' => hfront i hi' (by omega) (by omega)
    · rw [hoffset', hend]
      refine Blueprint.at_of_patches hover hpatches' (by omega) ?_ fun i hi hi' => ?_
      · rw [hF.code _ (by omega) (by omega), hkept _ (by omega) (by omega) (by omega),
          hpatches.frame _ (by omega) (by omega)]
        exact hawaits'.opcode
      · exact hF.code i (by omega) (by omega)
    · rw [hend, ← hmiddle]
      exact hsecond.code_of_part hU₂ hl₂ hF (hpatches'.sites ▸ Grows.refl _) (by omega) (by omega)
        fun i hi hi' => hpatches'.frame i (by omega) (by omega)
  · obtain ⟨hl₁, hl₂⟩ := hlists U hl
    obtain ⟨hU₁, hU₂⟩ := hcovers U hU
    rw [hpatches'.functions]
    have hmakes := hfirst.functions U hU₁ hl₁
    rw [hawaits.functions, ← hfunctions] at hmakes
    exact (Blueprint.Makes.mono hmakes hsecond.extends_.functions).append
      (hcount ▸ hsecond.functions U hU₂ hl₂)

/-- **A backward jump** to an offset that has been passed. -/
theorem loop (start : Nat) :
    Emits t start (emit (Emitter.loop start)) [] (fun U F => U.at F (.jump start)) := by
  refine ofWritesFrom fun e e' hstart he hm => ?_
  obtain ⟨hfits, hw⟩ := Emitter.loop_writes he hm
  refine ⟨_, hw, fun U F _ hb => ?_⟩
  have hshort := hb.short
  rw [toNat_toUInt16 hfits] at hshort
  have htarget : F.chunk.backwardTarget (e.offset + 1) = .ok start := by
    rw [Chunk.backwardTarget, hshort]
    show (if e.offset + 1 - start + 2 ≤ e.offset + 1 + 2 then _ else _) = _
    rw [if_pos (by omega)]
    show Except.ok (e.offset + 1 + 2 - (e.offset + 1 - start + 2)) = Except.ok start
    congr 1
    omega
  refine Blueprint.at_of_opcode hb ?_
  rw [Instruction.ofOpcode, htarget]
  rfl

end Emits

end

end ScriptEngine
