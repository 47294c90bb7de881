import ScriptEngine.Proofs.Code.Emission
import ScriptEngine.Proofs.Structured.Payload

/-!
# Each constant once

A pool gives every constant an index for good. The constants and the index of a pool are in step
(`Pool.InStep`), which adding a constant keeps so; from this it follows what is found at an index, now and
after any number of further constants.

A pool tells constants apart by their keys. `Constant.key_eq_iff` says what that comes to: texts by what they
say, numbers by their value and their sign, and NaNs by their sign alone.

The main statement is `Pool.interns`.
-/

namespace ScriptEngine

/-! ## Constants that share an index -/

namespace Number

/-- A number is its sign and its magnitude. -/
theorem eq_of_magnitude {x y : Number} (hmagnitude : x.magnitude = y.magnitude)
    (hsign : x.isNegative = y.isNegative) : x = y := by
  obtain ⟨bits⟩ := x
  obtain ⟨bits'⟩ := y
  rw [isNegative_eq, isNegative_eq] at hsign
  have hlow := congrArg UInt64.toBitVec hmagnitude
  simp only [magnitude, UInt64.toBitVec_and, UInt64.toBitVec_ofNat] at hlow
  have hmask : ∀ i : Nat, i < 63 → (0x7fffffffffffffff#64).getLsbD i = true := by decide
  refine congrArg Number.mk (UInt64.toBitVec_inj.mp (BitVec.eq_of_getLsbD_eq fun i hi => ?_))
  by_cases htop : i = 63
  · rw [htop]
    exact hsign
  · have hbit := congrArg (BitVec.getLsbD · i) hlow
    simpa [BitVec.getLsbD_and, hmask i (by omega)] using hbit

/-- Two numbers of one sign are equal as numbers exactly if they are the same, and no NaNs. -/
theorem eq_iff_of_sign {x y : Number} (hsign : x.isNegative = y.isNegative) :
    x.eq y = true ↔ x = y ∧ x.isNaN = false := by
  rw [eq, compare?]
  constructor
  · intro h
    split at h
    · cases h
    · next hproper =>
      rw [Bool.or_eq_true, not_or, Bool.not_eq_true, Bool.not_eq_true] at hproper
      -- The keys are signed magnitudes, so with one sign they differ as the magnitudes do.
      have hkey : x.key = y.key := by simpa [Std.compare_eq_iff_eq] using h
      refine ⟨eq_of_magnitude (UInt64.toNat_inj.mp ?_) hsign, hproper.1⟩
      rw [key, key, hsign] at hkey
      split at hkey
      · omega
      · omega
  · rintro ⟨rfl, hproper⟩
    simp [hproper]

end Number

namespace Constant

/-- Two constants that a pool does not tell apart: one text, or two numbers of one sign that are equal or both
NaNs. -/
def Alike : Constant → Constant → Prop
  | number x, number y => x.isNegative = y.isNegative ∧ (x.eq y = true ∨ x.isNaN = true ∧ y.isNaN = true)
  | string s, string t => s = t
  | _, _ => False

/-- What a pool may hold for a constant: the constant itself, or a NaN of the same sign for a NaN. -/
def Kept : Constant → Constant → Prop
  | number x, number y => x = y ∨ x.Twins y
  | string s, string t => s = t
  | _, _ => False

/-- The key of a number is the representative of the number. -/
theorem key_number (x : Number) : (number x).key = number x.canonical := by
  rw [key, Number.canonical]
  split <;> rfl

/-- The key of a text is the text. -/
theorem key_string (s : String) : (string s).key = string s := rfl

/-- **Keys agree** exactly where a pool should not tell constants apart. -/
theorem key_eq_iff {c d : Constant} : c.key = d.key ↔ c.Alike d := by
  cases c with
  | string s =>
    cases d with
    | string t => exact Constant.string.injEq s t ▸ Iff.rfl
    | number y => simp only [key_number, key_string, Alike, reduceCtorEq]
  | number x =>
    cases d with
    | string t => simp only [key_number, key_string, Alike, reduceCtorEq]
    | number y =>
      rw [key_number, key_number, Constant.number.injEq, Alike]
      constructor
      · intro h
        obtain rfl | htwins := Number.eq_or_twins h
        · rcases hx : x.isNaN with _ | _
          · exact ⟨rfl, .inl ((Number.eq_iff_of_sign rfl).mpr ⟨rfl, hx⟩)⟩
          · exact ⟨rfl, .inr ⟨rfl, rfl⟩⟩
        · exact ⟨htwins.sign, .inr ⟨htwins.left, htwins.right⟩⟩
      · rintro ⟨hsign, hequal | ⟨hx, hy⟩⟩
        · rw [((Number.eq_iff_of_sign hsign).mp hequal).1]
        · exact Number.Twins.canonical_eq ⟨hx, hy, hsign⟩

/-- Whether a pool tells two constants apart can be computed. -/
instance (c d : Constant) : Decidable (c.Alike d) := decidable_of_iff (c.key = d.key) key_eq_iff

/-- A constant of the same key may stand for a constant. -/
theorem kept_of_key {c d : Constant} (h : d.key = c.key) : c.Kept d := by
  cases c with
  | string s =>
    rw [eq_string_of_key h]
    exact rfl
  | number x =>
    cases d with
    | string t => simp only [key_number, key_string, reduceCtorEq] at h
    | number y =>
      rw [key_number, key_number] at h
      exact Number.eq_or_twins (Constant.number.inj h).symm

/-- What stands for a number that is no NaN is the number. -/
theorem Kept.eq_of_proper {x : Number} {d : Constant} (h : (number x).Kept d) (hx : x.isNaN = false) :
    d = number x := by
  cases d with
  | string t => cases h
  | number y =>
    obtain rfl | htwins := h
    · rfl
    · rw [htwins.left] at hx
      cases hx

/-- What stands for a text is the text, and nothing else is a text. -/
theorem Kept.name?_eq {c d : Constant} (h : c.Kept d) : d.name? = c.name? := by
  cases c with
  | string s =>
    cases d with
    | string t => exact congrArg some h.symm
    | number y => cases h
  | number x =>
    cases d with
    | string t => cases h
    | number y => rfl

end Constant

/-! ## Pools in step with their index -/

namespace Pool

/-- The constants of a pool and its index say the same. -/
structure InStep (p : Pool) : Prop where
  /-- Every entry of the index leads to a constant of its key. -/
  sound : p.Sound
  /-- Every constant is found by its key. -/
  found : ∀ (i : Nat) (c : Constant), p.constants[i]? = some c → p.index[c.key]? = some i
  /-- There are as many entries as constants. -/
  size : p.index.size = p.constants.size

/-- Adding a constant that is found changes nothing. -/
theorem add_of_found {p : Pool} {c : Constant} {i : Nat} (h : p.index[c.key]? = some i) :
    p.add c = (i, p) := by
  rw [add, h]

/-- The constants of two lists are added one list after the other. -/
theorem ofList_append (cs ds : List Constant) :
    ofList (cs ++ ds) = ds.foldl (fun p c => (p.add c).2) (ofList cs) :=
  List.foldl_append

namespace InStep

variable {p q : Pool}

/-- A pool without constants. -/
theorem empty : ({} : Pool).InStep := ⟨sound_empty, by simp, rfl⟩

/-- **Adding a constant** keeps constants and index in step. -/
theorem add (hp : p.InStep) (c : Constant) : (p.add c).2.InStep := by
  refine ⟨(add_spec hp.sound rfl).1, ?_, ?_⟩
  all_goals
    rw [Pool.add]
    rcases hfound : p.index[c.key]? with _ | i
  · -- The constant is new, and no constant so far has its key.
    intro j d hj
    rw [Std.HashMap.getElem?_insert]
    rw [Array.getElem?_push] at hj
    split at hj
    · next hlast =>
      obtain rfl := Option.some.inj hj
      simp [hlast, Pool.size]
    · have hd := hp.found j d hj
      rw [if_neg, hd]
      intro hkey
      rw [← eq_of_beq hkey, hfound] at hd
      cases hd
  · exact hp.found
  · have hnew : c.key ∉ p.index := by
      rw [Std.HashMap.mem_iff_isSome_getElem?, hfound]
      exact Bool.false_ne_true
    rw [Std.HashMap.size_insert, if_neg hnew, hp.size, Array.size_push]
  · exact hp.size

/-- A constant that was added is found at the index that it was given. -/
theorem index_add (hp : p.InStep) (c : Constant) : (p.add c).2.index[c.key]? = some (p.add c).1 := by
  obtain ⟨-, -, d, hd, hkey⟩ := add_spec hp.sound (rfl : p.add c = ((p.add c).1, (p.add c).2))
  rw [← hkey]
  exact (hp.add c).found _ d hd

/-- **Adding constants** keeps constants and index in step, and every constant where it is. -/
theorem addAll (hp : p.InStep) (cs : List Constant) :
    (cs.foldl (fun p c => (p.add c).2) p).InStep ∧
      Grows p.constants (cs.foldl (fun p c => (p.add c).2) p).constants := by
  induction cs generalizing p with
  | nil => exact ⟨hp, .refl _⟩
  | cons c cs ih =>
    obtain ⟨hstep, hgrows⟩ := ih (hp.add c)
    exact ⟨hstep, (add_spec hp.sound rfl).2.1.trans hgrows⟩

/-- A constant is found by its key wherever it was found before. -/
theorem index_of_grows (hp : p.InStep) (hq : q.InStep) (h : Grows p.constants q.constants) {k : Constant}
    {i : Nat} (hk : p.index[k]? = some i) : q.index[k]? = some i := by
  obtain ⟨d, hd, rfl⟩ := hp.sound k i hk
  exact hq.found i d (h i d hd)

/-- The entries of the index are the constants at their places. -/
theorem index_eq_some_iff (hp : p.InStep) {k : Constant} {i : Nat} :
    p.index[k]? = some i ↔ ∃ c, p.get? i = some c ∧ c.key = k := by
  constructor
  · exact hp.sound k i
  · rintro ⟨c, hc, rfl⟩
    exact hp.found i c hc

end InStep

/-- The pool of a list is in step. -/
theorem inStep_ofList (cs : List Constant) : (ofList cs).InStep := (InStep.empty.addAll cs).1

/-- **A pool holds each constant once and for good.** After any constants have been added,

* the index has one entry for each constant that is stored, which leads to it, and no others;
* at the index that a constant was given stands that constant, bit for bit unless it is a NaN, and a NaN of its
  sign if it is one; there is a name at the index exactly if the constant was a text;
* adding a constant once more, or one that is like it, gives the index of the first time and changes nothing;
* what stood at an index before stands there still;
* no two indices have constants that are alike. -/
theorem interns (cs : List Constant) :
    let p := ofList cs
    (p.index.size = p.size ∧ ∀ k i, p.index[k]? = some i ↔ ∃ c, p.get? i = some c ∧ c.key = k) ∧
    (∀ before c after, cs = before ++ c :: after →
      let i := ((ofList before).add c).1
      (∃ d, p.get? i = some d ∧ c.Kept d) ∧ (∀ s, p.name? i = some s ↔ c = .string s) ∧
        ∀ d, c.Alike d → p.add d = (i, p)) ∧
    (∀ before after, cs = before ++ after → ∀ i d, (ofList before).get? i = some d → p.get? i = some d) ∧
    ∀ i j c d, p.get? i = some c → p.get? j = some d → c.Alike d → i = j := by
  intro p
  have hp : p.InStep := inStep_ofList cs
  refine ⟨⟨hp.size, fun k i => hp.index_eq_some_iff⟩, ?given, ?kept, ?once⟩
  case given =>
    rintro before c after rfl i
    have hbefore := inStep_ofList before
    have hgrows := ((hbefore.add c).addAll after).2
    have hfold : p = after.foldl (fun p c => (p.add c).2) ((ofList before).add c).2 :=
      ofList_append before (c :: after)
    rw [← hfold] at hgrows
    have hindex : p.index[c.key]? = some i :=
      (hbefore.add c).index_of_grows hp hgrows (hbefore.index_add c)
    obtain ⟨d, hd, hkey⟩ := hp.sound _ _ hindex
    have hkept := Constant.kept_of_key hkey
    refine ⟨⟨d, hd, hkept⟩, fun s => ?_, fun d hd => ?_⟩
    · rw [name?, get?, hd, Option.bind_some, hkept.name?_eq]
      cases c <;> simp [Constant.name?]
    · exact add_of_found (Constant.key_eq_iff.mpr hd ▸ hindex)
  case kept =>
    rintro before after rfl i d hd
    have hfold : p = after.foldl (fun p c => (p.add c).2) (ofList before) := ofList_append before after
    rw [hfold]
    exact ((inStep_ofList before).addAll after).2 i d hd
  case once =>
    intro i j c d hi hj halike
    have hc := hp.found i c hi
    rw [Constant.key_eq_iff.mpr halike, hp.found j d hj] at hc
    exact (Option.some.inj hc).symm

/-- The two zeros get indices of their own, though they are equal as numbers, and a NaN gets that of another NaN
with its sign, though their bits differ. -/
theorem interns_signedZeros :
    let zeros : List Constant := [.number .zero, .string "x", .number Number.zero.neg]
    let p := ofList (zeros ++ [.number .nan])
    let positive := ((ofList []).add (.number .zero)).1
    let negative := ((ofList [.number .zero, .string "x"]).add (.number Number.zero.neg)).1
    let missing := ((ofList zeros).add (.number .nan)).1
    positive ≠ negative ∧ p.add (.number ⟨0x7ff8000000000001⟩) = (missing, p) := by
  intro zeros p positive negative missing
  obtain ⟨-, hgiven, -, -⟩ := interns (zeros ++ [.number .nan])
  obtain ⟨⟨c, hc, hkept⟩, -⟩ := hgiven [] (.number .zero) _ rfl
  obtain ⟨⟨d, hd, hkept'⟩, -⟩ := hgiven [.number .zero, .string "x"] (.number Number.zero.neg) _ rfl
  obtain ⟨-, -, hagain⟩ := hgiven zeros (.number .nan) [] rfl
  refine ⟨fun hsame => ?_, hagain _ (by decide)⟩
  have hcd : c = d := Option.some.inj (hc.symm.trans ((congrArg p.get? hsame).trans hd))
  have hzero : c = .number .zero := hkept.eq_of_proper (by decide)
  have hneg : d = .number Number.zero.neg := hkept'.eq_of_proper (by decide)
  rw [hzero, hneg] at hcd
  exact absurd hcd (by decide)

end Pool

end ScriptEngine
