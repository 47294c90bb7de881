import ScriptEngine.Realm
import ScriptEngine.Proofs.Code.Layout
import ScriptEngine.Value.Operation

/-!
# Payloads are not seen

A constant may come back from the pool with the payload of another NaN of its sign. No operator tells the
two apart: `Value.Same` values give `Value.Same` results, and conditions, texts and names of types do not
differ at all.
-/

namespace ScriptEngine

/-! ## Numbers -/

namespace Number

/-- Two NaNs of one sign. -/
structure Twins (x y : Number) : Prop where
  /-- The first is a NaN. -/
  left : x.isNaN = true
  /-- The second is a NaN. -/
  right : y.isNaN = true
  /-- They have one sign. -/
  sign : x.isNegative = y.isNegative

/-- Flipping the sign leaves the magnitude alone. -/
theorem magnitude_neg (x : Number) : x.neg.magnitude = x.magnitude := by
  obtain ⟨bits⟩ := x
  apply UInt64.toBitVec_inj.mp
  simp only [neg, magnitude, signBit, UInt64.toBitVec_and, UInt64.toBitVec_xor, UInt64.toBitVec_ofNat]
  have hdisjoint : 0x8000000000000000#64 &&& 0x7fffffffffffffff#64 = 0#64 := by decide
  ext i hi
  have hbit : ((0x8000000000000000#64)[i] && (0x7fffffffffffffff#64)[i]) = false := by
    rw [← BitVec.getElem_and]
    simp [hdisjoint]
  simp only [BitVec.getElem_and, BitVec.getElem_xor]
  grind

/-- The sign is the topmost bit. -/
theorem isNegative_eq (x : Number) : x.isNegative = x.bits.toBitVec.getLsbD 63 := by
  have hmask : x.bits.toBitVec &&& 0x8000000000000000#64 =
      if x.bits.toBitVec.getLsbD 63 then 0x8000000000000000#64 else 0#64 := by
    ext i hi
    have htop : (0x8000000000000000#64)[i] = decide (i = 63) := by
      revert i
      decide
    by_cases h : i = 63
    · subst h
      split
      · next h => simp [htop, BitVec.getLsbD_eq_getElem hi ▸ h]
      · next h => simp [htop, BitVec.getLsbD_eq_getElem hi ▸ h]
    · split <;> simp [htop, h]
  have hzero : (x.bits &&& signBit = 0) ↔ x.bits.toBitVec &&& 0x8000000000000000#64 = 0#64 := by
    rw [← UInt64.toBitVec_inj]
    rfl
  rw [isNegative, Bool.eq_iff_iff, bne_iff_ne, ne_eq, hzero, hmask]
  rcases x.bits.toBitVec.getLsbD 63 with _ | _
  · simp
  · simp

/-- Flipping the sign. -/
theorem isNegative_neg (x : Number) : x.neg.isNegative = !x.isNegative := by
  rw [isNegative_eq, isNegative_eq]
  simp [neg, signBit]

/-- The NaN of a sign is one. -/
theorem isNaN_nanOfSign (negative : Bool) : (nanOfSign negative).isNaN = true := by
  cases negative <;> decide

/-- Numbers with one representative are equal, or two NaNs of one sign. -/
theorem eq_or_twins {x y : Number} (h : x.canonical = y.canonical) : x = y ∨ x.Twins y := by
  rw [canonical, canonical] at h
  split at h
  · next hx =>
    split at h
    · next hy =>
      refine .inr ⟨hx, hy, ?_⟩
      revert h
      cases x.isNegative <;> cases y.isNegative <;> decide
    · next hy =>
      rw [← h] at hy
      exact absurd (isNaN_nanOfSign _) hy
  · next hx =>
    split at h
    · rw [h] at hx
      exact absurd (isNaN_nanOfSign _) hx
    · exact .inl h

namespace Twins

variable {x y z : Number}

/-- Both signs are flipped. -/
theorem neg (h : Twins x y) : Twins x.neg y.neg := by
  refine ⟨?_, ?_, ?_⟩
  · rw [isNaN, magnitude_neg]
    exact h.left
  · rw [isNaN, magnitude_neg]
    exact h.right
  · rw [isNegative_neg, isNegative_neg, h.sign]

/-- They have one representative. -/
theorem canonical_eq (h : Twins x y) : x.canonical = y.canonical := by
  rw [canonical, canonical, if_pos h.left, if_pos h.right, h.sign]

/-- An operation on proper numbers answers with the NaN of their sign. -/
theorem lift_left (h : Twins x y) (op : Number → Number → Number) : lift op x z = lift op y z := by
  rw [lift, lift, if_pos h.left, if_pos h.right, h.sign]

/-- So it does if they come second. -/
theorem lift_right (h : Twins x y) (op : Number → Number → Number) : lift op z x = lift op z y := by
  rw [lift, lift]
  simp only [h.left, h.right, if_true, h.sign]

/-- They have no order with anything. -/
theorem compare?_left (h : Twins x y) : x.compare? z = y.compare? z := by
  rw [compare?, compare?, h.left, h.right]
  rfl

/-- Nothing has an order with them. -/
theorem compare?_right (h : Twins x y) : z.compare? x = z.compare? y := by
  rw [compare?, compare?, h.left, h.right, Bool.or_true]
  rfl

/-- They are equal to nothing. -/
theorem eq_left (h : Twins x y) : x.eq z = y.eq z := by
  rw [Number.eq, Number.eq, h.compare?_left]

/-- Nothing is equal to them. -/
theorem eq_right (h : Twins x y) : z.eq x = z.eq y := by
  rw [Number.eq, Number.eq, h.compare?_right]

/-- They have one text. -/
theorem toText_eq (h : Twins x y) : x.toText = y.toText := by
  rw [toText, toText, h.left, h.right]
  rfl

end Twins

end Number

/-! ## Values -/

namespace Value

variable {v v' w w' : Value}

/-- Every value is the same as itself. -/
theorem Same.refl (v : Value) : v.Same v := rfl

/-- The other way round. -/
theorem Same.symm (h : v.Same v') : v'.Same v := Eq.symm h

/-- What is the same as the same value. -/
theorem Same.trans {u : Value} (h : u.Same v) (h' : v.Same w) : u.Same w := Eq.trans h h'

/-- **Values are the same** if they are equal, or two NaNs of one sign. -/
theorem Same.eq_or (h : v.Same v') : v = v' ∨ ∃ x y, v = .number x ∧ v' = .number y ∧ x.Twins y := by
  cases v with
  | number x =>
    cases v' with
    | number y =>
      obtain rfl | htwins := Number.eq_or_twins (Value.number.inj h)
      · exact .inl rfl
      · exact .inr ⟨x, y, rfl, rfl, htwins⟩
    | _ => cases h
  | _ =>
    cases v' with
    | number y => cases h
    | _ => exact .inl h

/-- Two NaNs of one sign are the same value. -/
theorem same_of_twins {x y : Number} (h : x.Twins y) : (number x).Same (number y) :=
  congrArg number h.canonical_eq

/-- They have one truth. -/
theorem Same.toBool_eq (h : v.Same v') : v.toBool = v'.toBool := by
  obtain rfl | ⟨x, y, rfl, rfl, hxy⟩ := h.eq_or
  · rfl
  · simp [toBool, hxy.left, hxy.right]

/-- They are of one type. -/
theorem Same.typeName_eq (h : v.Same v') (heap : Heap) : heap.typeName v = heap.typeName v' := by
  obtain rfl | ⟨x, y, rfl, rfl, hxy⟩ := h.eq_or
  · rfl
  · rfl

/-- Unary `-` keeps them the same. -/
theorem Same.negate (h : v.Same v') : v.negate.Same v'.negate := by
  obtain rfl | ⟨x, y, rfl, rfl, hxy⟩ := h.eq_or
  · exact .refl _
  · exact same_of_twins hxy.neg

/-- Unary `+` keeps them the same. -/
theorem Same.plus (h : v.Same v') : v.plus.Same v'.plus := by
  obtain rfl | ⟨x, y, rfl, rfl, hxy⟩ := h.eq_or
  · exact .refl _
  · exact same_of_twins hxy

/-- They have one negation. -/
theorem Same.not (h : v.Same v') : v.not.Same v'.not := by
  rw [Value.not, Value.not, h.toBool_eq]
  exact .refl _

section

variable {x y : Number} (h : x.Twins y) (op : BinaryOp) (w : Value)
include h

/-- **Two NaNs of one sign on the left** of an operator. -/
theorem binary_left : ((number x).binary op w).Same ((number y).binary op w) := by
  have htext : (number x).toText = (number y).toText := h.toText_eq
  have hcompare : (number x).compare? w = (number y).compare? w := by
    cases w <;> exact h.compare?_left
  have hstrict : (number x).strictEq w = (number y).strictEq w := by
    cases w with
    | number z => exact h.eq_left
    | _ => rfl
  have hloose : (number x).looseEq w = (number y).looseEq w := by
    cases w <;> simp [looseEq, isNullish, toPrimitive, primitiveEq, toNumber, h.eq_left]
  have hbool : (number x).toBool = (number y).toBool := (same_of_twins h).toBool_eq
  cases op with
  | add | sub | mul | div | rem =>
    simp only [binary, add, htext, concatenates, toNumber, Number.add, Number.sub, Number.mul, Number.div,
      Number.rem, h.lift_left]
    exact .refl _
  | less | lessEq | greater | greaterEq | looseEq | looseNe | strictEq | strictNe =>
    simp only [binary, hcompare, hstrict, hloose]
    exact .refl _
  | and | or =>
    simp only [binary, hbool]
    split
    · first | exact .refl _ | exact same_of_twins h
    · first | exact .refl _ | exact same_of_twins h

/-- **Two NaNs of one sign on the right** of an operator. -/
theorem binary_right : (w.binary op (number x)).Same (w.binary op (number y)) := by
  have htext : (number x).toText = (number y).toText := h.toText_eq
  have hcompare : w.compare? (number x) = w.compare? (number y) := by
    cases w <;> exact h.compare?_right
  have hstrict : w.strictEq (number x) = w.strictEq (number y) := by
    cases w with
    | number z => exact h.eq_right
    | _ => rfl
  have hloose : w.looseEq (number x) = w.looseEq (number y) := by
    cases w <;> simp [looseEq, isNullish, toPrimitive, primitiveEq, toNumber, h.eq_right]
  cases op with
  | add | sub | mul | div | rem =>
    simp only [binary, add, htext, concatenates, toNumber, Number.add, Number.sub, Number.mul, Number.div,
      Number.rem, h.lift_right]
    exact .refl _
  | less | lessEq | greater | greaterEq | looseEq | looseNe | strictEq | strictNe =>
    simp only [binary, hcompare, hstrict, hloose]
    exact .refl _
  | and | or =>
    simp only [binary]
    split
    · first | exact .refl _ | exact same_of_twins h
    · first | exact .refl _ | exact same_of_twins h

end

/-- **Binary operators** keep values the same. -/
theorem Same.binary (h : v.Same v') (hw : w.Same w') (op : BinaryOp) :
    (v.binary op w).Same (v'.binary op w') := by
  have hleft : (v.binary op w).Same (v'.binary op w) := by
    obtain rfl | ⟨x, y, rfl, rfl, hxy⟩ := h.eq_or
    · exact .refl _
    · exact binary_left hxy op w
  refine hleft.trans ?_
  obtain rfl | ⟨x, y, rfl, rfl, hxy⟩ := hw.eq_or
  · exact .refl _
  · exact binary_right hxy op v'

end Value

end ScriptEngine
