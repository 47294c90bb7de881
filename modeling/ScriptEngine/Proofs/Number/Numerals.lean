import Mathlib.Data.List.TakeWhile
import ScriptEngine.Value

/-!
# Texts that spell numbers

Which texts have a numeric value is a matter of grammar: `Number.Numeral` gives it, without regard to how a
text is read, and `Text.Strips` says what it means to leave out the blanks around a text. The main statement
is `Value.numeral_iff`: the value of a text is a number, and no NaN, exactly if the text spells one.

Reading splits a text from left to right, first at its sign, then behind the digits and at the point. So each
part of the grammar comes with a lemma that says where a split falls (`takeWhile_stops` and `dropWhile_stops`
for digits, `Number.splitSign_append` for signs), and for the converse the parts of a split are put together
again.

The reader takes more notations than there are numerals, `Number.Notation` with its words, and the filter in
front of it lets texts through that are no notation at all. Only both together leave the decimal literals
(`Number.filtered_iff`).
-/

namespace ScriptEngine

/-! ## Splits -/

section

variable {α : Type} {p : α → Bool} {l r : List α}

/-- **Taking stops** behind the elements that have a property, if the next one does not have it. -/
theorem takeWhile_stops (hl : ∀ a ∈ l, p a = true) (hr : ∀ a ∈ r.head?, p a = false) :
    (l ++ r).takeWhile p = l := by
  rw [List.takeWhile_append_of_pos hl]
  cases r with
  | nil => simp
  | cons a r => simp [hr a rfl]

/-- **Dropping stops** there, too. -/
theorem dropWhile_stops (hl : ∀ a ∈ l, p a = true) (hr : ∀ a ∈ r.head?, p a = false) :
    (l ++ r).dropWhile p = r := by
  rw [List.dropWhile_append_of_pos hl]
  cases r with
  | nil => rfl
  | cons a r => simp [hr a rfl]

/-- The first element that is left does not have the property. -/
theorem head?_dropWhile : ∀ a ∈ (l.dropWhile p).head?, p a = false := by
  intro a ha
  have hhead := List.head?_dropWhile_not p l
  rw [Option.mem_def.mp ha] at hhead
  exact hhead

end

/-! ## Blanks -/

namespace Text

/-- A text without the blanks around it. -/
structure Strips (cs t : List Char) : Prop where
  /-- There is nothing around it but blanks. -/
  around : ∃ front back, (∀ c ∈ front, isBlank c = true) ∧ (∀ c ∈ back, isBlank c = true) ∧
    cs = front ++ (t ++ back)
  /-- It does not start with a blank. -/
  first : ∀ c ∈ t.head?, isBlank c = false
  /-- It does not end with one. -/
  last : ∀ c ∈ t.getLast?, isBlank c = false

/-- Trimming takes off nothing but the blanks around a text. -/
theorem strips_trim (cs : List Char) : Strips cs (trim cs) := by
  let rest := cs.dropWhile isBlank
  have hsplit : rest = trim cs ++ (rest.reverse.takeWhile isBlank).reverse := by
    rw [trim, ← List.reverse_append, List.takeWhile_append_dropWhile, List.reverse_reverse]
  refine ⟨⟨cs.takeWhile isBlank, (rest.reverse.takeWhile isBlank).reverse, fun c hc => ?_, fun c hc => ?_, ?_⟩,
    fun c hc => ?_, fun c hc => ?_⟩
  · exact List.mem_takeWhile_imp hc
  · exact List.mem_takeWhile_imp (List.mem_reverse.mp hc)
  · rw [← hsplit, List.takeWhile_append_dropWhile]
  · -- What is left starts where the text without the blanks in front of it does.
    refine head?_dropWhile (l := cs) c ?_
    show c ∈ rest.head?
    rw [hsplit, List.head?_append, Option.mem_def.mp hc]
    rfl
  · rw [trim, List.getLast?_reverse] at hc
    exact head?_dropWhile c hc

/-- **There is one way to strip a text**, and trimming is it. -/
theorem strips_iff {cs t : List Char} : Strips cs t ↔ t = trim cs := by
  refine ⟨fun h => ?_, fun h => h ▸ strips_trim cs⟩
  obtain ⟨⟨front, back, hfront, hback, rfl⟩, hfirst, hlast⟩ := h
  cases t with
  | nil =>
    have hall : ∀ c ∈ front ++ back, isBlank c = true := fun c hc =>
      (List.mem_append.mp hc).elim (hfront c) (hback c)
    have hnone := dropWhile_stops (r := []) hall nofun
    rw [List.append_nil] at hnone
    rw [trim, List.nil_append, hnone]
    rfl
  | cons c t =>
    have hleft : (front ++ (c :: t ++ back)).dropWhile isBlank = c :: t ++ back :=
      dropWhile_stops hfront fun d hd => hfirst d hd
    have hright : (back.reverse ++ (c :: t).reverse).dropWhile isBlank = (c :: t).reverse :=
      dropWhile_stops (fun d hd => hback d (List.mem_reverse.mp hd))
        (by rw [List.head?_reverse]; exact hlast)
    rw [trim, hleft, List.reverse_append, hright, List.reverse_reverse]

end Text

namespace Number

/-! ## The grammar -/

/-- At most one sign. -/
inductive Sign : List Char → Prop
  /-- No sign. -/
  | none : Sign []
  /-- A plus sign. -/
  | plus : Sign ['+']
  /-- A minus sign. -/
  | minus : Sign ['-']

/-- Decimal digits, as many as there are. -/
def AllDigits (cs : List Char) : Prop := ∀ c ∈ cs, c.isDigit = true

/-- A hexadecimal digit. -/
def IsHexDigit (c : Char) : Prop := c.isDigit = true ∨ 'a' ≤ c ∧ c ≤ 'f' ∨ 'A' ≤ c ∧ c ≤ 'F'

/-- Digits with at most one point among or around them. -/
inductive Mantissa : List Char → Prop
  /-- Digits without a point. -/
  | whole {ds : List Char} (digits : AllDigits ds) (nonempty : ds ≠ []) : Mantissa ds
  /-- A point with digits in front of it, behind it, or both. -/
  | point {ds fs : List Char} (digits : AllDigits ds) (fraction : AllDigits fs) (nonempty : ds ≠ [] ∨ fs ≠ []) :
    Mantissa (ds ++ '.' :: fs)

/-- The exponent of a decimal literal, which may be missing. -/
inductive Exponent : List Char → Prop
  /-- No exponent. -/
  | none : Exponent []
  /-- The letter, at most one sign, and digits. -/
  | power {e : Char} {sign ds : List Char} (letter : e = 'e' ∨ e = 'E') (signed : Sign sign)
    (digits : AllDigits ds) (nonempty : ds ≠ []) : Exponent (e :: (sign ++ ds))

/-- A word for a number, in letters of either case. -/
def IsWord (cs : List Char) : Prop :=
  cs.map Char.toLower ∈ ["inf".toList, "infinity".toList, "nan".toList]

/-- What the reader takes for a number: at most one sign, and a word or a decimal literal. -/
inductive Notation : List Char → Prop
  /-- A word. -/
  | word {sign word : List Char} (signed : Sign sign) (letters : IsWord word) : Notation (sign ++ word)
  /-- A decimal literal. -/
  | decimal {sign mantissa exponent : List Char} (signed : Sign sign) (digits : Mantissa mantissa)
    (power : Exponent exponent) : Notation (sign ++ (mantissa ++ exponent))

/-- **The texts that spell numbers**, without blanks around them. -/
inductive Numeral : List Char → Prop
  /-- No text at all. -/
  | empty : Numeral []
  /-- A hexadecimal literal. It has no sign. -/
  | hex {x : Char} {ds : List Char} (letter : x = 'x' ∨ x = 'X') (digits : ∀ c ∈ ds, IsHexDigit c)
    (nonempty : ds ≠ []) : Numeral ('0' :: x :: ds)
  /-- Infinity. -/
  | infinity {sign : List Char} (signed : Sign sign) : Numeral (sign ++ "Infinity".toList)
  /-- A decimal literal. -/
  | decimal {sign mantissa exponent : List Char} (signed : Sign sign) (digits : Mantissa mantissa)
    (power : Exponent exponent) : Numeral (sign ++ (mantissa ++ exponent))

/-! ## Signs -/

/-- What is split off is a sign. -/
theorem sign_of_splitSign (cs : List Char) : ∃ sign, Sign sign ∧ cs = sign ++ (splitSign cs).2 := by
  rw [splitSign.eq_def]
  split
  · exact ⟨['+'], .plus, rfl⟩
  · exact ⟨['-'], .minus, rfl⟩
  · exact ⟨[], .none, rfl⟩

/-- **A sign is split off** what does not start with one. -/
theorem splitSign_append {sign cs : List Char} (h : Sign sign) (hcs : ∀ c ∈ cs.head?, c ≠ '+' ∧ c ≠ '-') :
    (splitSign (sign ++ cs)).2 = cs := by
  cases h with
  | plus => rfl
  | minus => rfl
  | none =>
    rw [List.nil_append, splitSign.eq_def]
    split
    · exact absurd rfl (hcs '+' rfl).1
    · exact absurd rfl (hcs '-' rfl).2
    · rfl

/-- A digit is no sign. -/
theorem ne_sign_of_isDigit {c : Char} (h : c.isDigit = true) : c ≠ '+' ∧ c ≠ '-' := by
  constructor <;> rintro rfl <;> exact absurd h (by decide)

/-- A digit has no other case. -/
theorem toLower_of_isDigit {c : Char} (h : c.isDigit = true) : c.toLower = c := by
  simp only [Char.isDigit, Bool.and_eq_true, decide_eq_true_eq] at h
  exact dif_neg fun hupper => absurd (UInt32.le_trans hupper.1 h.2) (by decide)

/-- Digits do not start with a sign. -/
theorem AllDigits.head? {ds : List Char} (h : AllDigits ds) : ∀ c ∈ ds.head?, c ≠ '+' ∧ c ≠ '-' := by
  intro c hc
  exact ne_sign_of_isDigit (h c (List.mem_of_mem_head? hc))

/-! ## Exponents -/

/-- **An exponent is read** exactly if it is one. -/
theorem exponent?_isSome {cs : List Char} : (exponent? cs).isSome = true ↔ Exponent cs := by
  constructor
  · intro h
    cases cs with
    | nil => exact .none
    | cons e cs =>
      obtain ⟨sign, hsign, hcs⟩ := sign_of_splitSign cs
      rcases hsplit : splitSign cs with ⟨negative, ds⟩
      simp only [hsplit] at hcs
      simp only [exponent?, hsplit] at h
      split at h
      · next hread =>
        simp only [Bool.and_eq_true, Bool.or_eq_true, beq_iff_eq, Bool.not_eq_true', List.isEmpty_eq_false_iff,
          List.all_eq_true] at hread
        obtain ⟨⟨hletter, hsome⟩, hdigits⟩ := hread
        rw [hcs]
        exact .power hletter hsign hdigits hsome
      · cases h
  · intro h
    cases h with
    | none => rfl
    | @power e sign ds hletter hsign hdigits hsome =>
      have hread : ((e == 'e' || e == 'E') && !ds.isEmpty && ds.all Char.isDigit) = true := by
        simp only [Bool.and_eq_true, Bool.or_eq_true, beq_iff_eq, Bool.not_eq_true', List.isEmpty_eq_false_iff,
          List.all_eq_true]
        exact ⟨⟨hletter, hsome⟩, hdigits⟩
      have hsplit := splitSign_append hsign hdigits.head?
      rcases hs : splitSign (sign ++ ds) with ⟨negative, ds'⟩
      obtain rfl : ds' = ds := (congrArg Prod.snd hs).symm.trans hsplit
      simp only [exponent?, hs, if_pos hread, Option.isSome_some]

/-- An exponent starts with a letter. -/
theorem Exponent.head? {cs : List Char} (h : Exponent cs) : ∀ c ∈ cs.head?, c = 'e' ∨ c = 'E' := by
  cases h with
  | none => exact nofun
  | power hletter => exact fun c hc => Option.some.inj (Option.mem_def.mp hc) ▸ hletter

/-- Digits end where an exponent starts. -/
theorem Exponent.not_isDigit {cs : List Char} (h : Exponent cs) : ∀ c ∈ cs.head?, c.isDigit = false := by
  intro c hc
  rcases h.head? c hc with rfl | rfl <;> decide

/-! ## Decimal literals -/

/-- A literal does not start with a second sign. -/
theorem Mantissa.head? {cs : List Char} (h : Mantissa cs) : ∀ c ∈ cs.head?, c ≠ '+' ∧ c ≠ '-' := by
  cases h with
  | whole digits => exact digits.head?
  | @point ds fs digits =>
    cases ds with
    | nil => exact fun c hc => Option.some.inj (Option.mem_def.mp hc) ▸ by decide
    | cons d ds => exact fun c hc => digits.head? c hc

/-- A mantissa is not empty. -/
theorem Mantissa.ne_nil {cs : List Char} (h : Mantissa cs) : cs ≠ [] := by
  cases h with
  | whole digits nonempty => exact nonempty
  | point => exact List.append_ne_nil_of_right_ne_nil _ (List.cons_ne_nil _ _)

/-- So with an exponent behind it. -/
theorem Mantissa.head?_append {cs : List Char} (h : Mantissa cs) (exponent : List Char) :
    ∀ c ∈ (cs ++ exponent).head?, c ≠ '+' ∧ c ≠ '-' := by
  intro c hc
  rw [List.head?_append, Option.or_of_isSome (List.isSome_head?.mpr h.ne_nil)] at hc
  exact h.head? c hc

/-- **What is read is a decimal literal.** -/
theorem decimal_of_decimalLiteral? {cs : List Char} (h : (decimalLiteral? cs).isSome = true) :
    ∃ sign mantissa exponent, Sign sign ∧ Mantissa mantissa ∧ Exponent exponent ∧
      cs = sign ++ (mantissa ++ exponent) := by
  obtain ⟨sign, hsign, hcs⟩ := sign_of_splitSign cs
  rcases hsplit : splitSign cs with ⟨negative, unsigned⟩
  simp only [hsplit] at hcs
  simp only [decimalLiteral?, hsplit] at h
  have hunsigned : unsigned.takeWhile Char.isDigit ++ unsigned.dropWhile Char.isDigit = unsigned :=
    List.takeWhile_append_dropWhile
  have hwhole : AllDigits (unsigned.takeWhile Char.isDigit) := fun c hc => List.mem_takeWhile_imp hc
  split at h
  · -- There is a point, and digits on one side of it at least.
    next rest hrest =>
    have hfraction : AllDigits (rest.takeWhile Char.isDigit) := fun c hc => List.mem_takeWhile_imp hc
    split at h
    · cases h
    · next hsome =>
      rw [Option.isSome_map] at h
      refine ⟨sign, _, _, hsign, .point hwhole hfraction ?_, exponent?_isSome.mp h, ?_⟩
      · simpa only [Bool.and_eq_true, List.isEmpty_iff, not_and_or] using hsome
      · rw [hcs, List.append_assoc, List.cons_append, List.takeWhile_append_dropWhile, ← hrest, hunsigned]
  · split at h
    · cases h
    · next hsome =>
      rw [Option.isSome_map] at h
      refine ⟨sign, _, _, hsign, .whole hwhole ?_, exponent?_isSome.mp h, ?_⟩
      · simpa only [List.isEmpty_nil, Bool.and_true, List.isEmpty_iff] using hsome
      · rw [hcs, hunsigned]

/-- **A decimal literal is read.** -/
theorem decimalLiteral?_isSome {sign mantissa exponent : List Char} (hsign : Sign sign) (hm : Mantissa mantissa)
    (he : Exponent exponent) : (decimalLiteral? (sign ++ (mantissa ++ exponent))).isSome = true := by
  have hsplit : (splitSign (sign ++ (mantissa ++ exponent))).2 = mantissa ++ exponent :=
    splitSign_append hsign (hm.head?_append exponent)
  rcases hs : splitSign (sign ++ (mantissa ++ exponent)) with ⟨negative, unsigned⟩
  obtain rfl : unsigned = mantissa ++ exponent := (congrArg Prod.snd hs).symm.trans hsplit
  cases hm with
  | whole digits nonempty =>
    have htake := takeWhile_stops digits he.not_isDigit
    have hdrop := dropWhile_stops digits he.not_isDigit
    have hpoint : ∀ rest, exponent ≠ '.' :: rest := by
      rintro rest rfl
      rcases he.head? '.' rfl with h | h <;> exact absurd h (by decide)
    simp [decimalLiteral?, hs, htake, hdrop, nonempty, exponent?_isSome.mpr he]
  | @point ds fs digits fraction nonempty =>
    have hdot : ∀ c ∈ ('.' :: (fs ++ exponent)).head?, c.isDigit = false :=
      fun c hc => Option.some.inj (Option.mem_def.mp hc) ▸ by decide
    have htake := takeWhile_stops digits hdot
    have hdrop := dropWhile_stops digits hdot
    have htake' := takeWhile_stops fraction he.not_isDigit
    have hdrop' := dropWhile_stops fraction he.not_isDigit
    rw [List.append_assoc, List.cons_append] at hs ⊢
    have hneither : (ds.isEmpty && fs.isEmpty) = false := by
      rcases nonempty with h | h <;> simp [h]
    simp [decimalLiteral?, hs, htake, hdrop, htake', hdrop', hneither, exponent?_isSome.mpr he]

/-! ## Words -/

/-- **A word is read** exactly if it is one. -/
theorem ofWord?_isSome {cs : List Char} : (ofWord? cs).isSome = true ↔ IsWord cs := by
  simp only [ofWord?, IsWord, List.mem_cons, List.not_mem_nil, or_false, Bool.or_eq_true, beq_iff_eq]
  split
  · next h => exact iff_of_true rfl (or_assoc.mp (.inl h))
  · next hinfinity =>
    split
    · next h => exact iff_of_true rfl (.inr (.inr h))
    · next hnan => exact iff_of_false nofun fun h => (or_assoc.mpr h).elim hinfinity hnan

/-- A word starts with a letter. -/
theorem IsWord.head? {cs : List Char} (h : IsWord cs) : ∀ c ∈ cs.head?, c ≠ '+' ∧ c ≠ '-' := by
  cases cs with
  | nil => exact nofun
  | cons c cs =>
    have hletter : c.toLower = 'i' ∨ c.toLower = 'n' := by
      simp only [IsWord, List.map_cons, List.mem_cons, List.not_mem_nil, or_false] at h
      rcases h with h | h | h
      · exact .inl (List.cons.inj h).1
      · exact .inl (List.cons.inj h).1
      · exact .inr (List.cons.inj h).1
    intro d hd
    obtain rfl : c = d := Option.some.inj hd
    constructor <;> rintro rfl <;> rcases hletter with h | h <;> exact absurd h (by decide)

/-- The characters of decimal literals spell no word: each word has an `n`. -/
theorem ofWord?_of_decimal {cs : List Char} (h : cs.all isDecimalChar = true) : ofWord? cs = none := by
  rw [← Option.not_isSome_iff_eq_none, ofWord?_isSome]
  intro hword
  have hn : 'n' ∈ cs.map Char.toLower := by
    simp only [IsWord, List.mem_cons, List.not_mem_nil, or_false] at hword
    rcases hword with h | h | h <;> rw [h] <;> decide
  obtain ⟨c, hc, hlower⟩ := List.mem_map.mp hn
  have hchar := List.all_eq_true.mp h c hc
  simp only [isDecimalChar, Bool.or_eq_true, beq_iff_eq] at hchar
  rcases hchar with ((((hdigit | rfl) | rfl) | rfl) | rfl) | rfl
  · rw [toLower_of_isDigit hdigit] at hlower
    rw [hlower] at hdigit
    exact absurd hdigit (by decide)
  all_goals exact absurd hlower (by decide)

/-- **The reader takes** the notations, and nothing else. -/
theorem ofNotation?_isSome {cs : List Char} : (ofNotation? cs).isSome = true ↔ Notation cs := by
  constructor
  · intro h
    obtain ⟨sign, hsign, hcs⟩ := sign_of_splitSign cs
    rcases hsplit : splitSign cs with ⟨negative, unsigned⟩
    simp only [hsplit] at hcs
    simp only [ofNotation?, hsplit] at h
    split at h
    · next x hword =>
      rw [hcs]
      exact .word hsign (ofWord?_isSome.mp (by rw [hword]; rfl))
    · rw [Option.isSome_map] at h
      obtain ⟨sign, mantissa, exponent, hsign, hm, he, rfl⟩ := decimal_of_decimalLiteral? h
      exact .decimal hsign hm he
  · intro h
    cases h with
    | @word sign word signed letters =>
      have hsplit := splitSign_append signed letters.head?
      obtain ⟨x, hx⟩ := Option.isSome_iff_exists.mp (ofWord?_isSome.mpr letters)
      simp only [ofNotation?, hsplit, hx, Option.isSome_some]
    | @decimal sign mantissa exponent signed digits power =>
      rw [ofNotation?]
      simp only
      split
      · rfl
      · rw [Option.isSome_map]
        exact decimalLiteral?_isSome signed digits power

/-! ## The filter -/

/-- Decimal digits pass the filter. -/
theorem AllDigits.decimalChars {ds : List Char} (h : AllDigits ds) : ds.all isDecimalChar = true := by
  rw [List.all_eq_true]
  intro c hc
  simp [isDecimalChar, h c hc]

/-- So do signs. -/
theorem Sign.decimalChars {cs : List Char} (h : Sign cs) : cs.all isDecimalChar = true := by
  cases h <;> decide

/-- So do digits with a point. -/
theorem Mantissa.decimalChars {cs : List Char} (h : Mantissa cs) : cs.all isDecimalChar = true := by
  cases h with
  | whole digits => exact digits.decimalChars
  | point digits fraction =>
    rw [List.all_append, List.all_cons, digits.decimalChars, fraction.decimalChars]
    decide

/-- So do exponents. -/
theorem Exponent.decimalChars {cs : List Char} (h : Exponent cs) : cs.all isDecimalChar = true := by
  cases h with
  | none => rfl
  | power letter signed digits =>
    rw [List.all_cons, List.all_append, signed.decimalChars, digits.decimalChars]
    rcases letter with rfl | rfl <;> decide

/-- **Filter and reader together take the decimal literals.** The filter lets `+-e.` through, which the reader
refuses, and keeps out `inf`, which the reader would take. -/
theorem filtered_iff {cs : List Char} :
    ((splitSign cs).2.all isDecimalChar = true ∧ (ofNotation? cs).isSome = true) ↔
      ∃ sign mantissa exponent, Sign sign ∧ Mantissa mantissa ∧ Exponent exponent ∧
        cs = sign ++ (mantissa ++ exponent) := by
  constructor
  · rintro ⟨hfilter, hread⟩
    cases ofNotation?_isSome.mp hread with
    | @word sign word signed letters =>
      rw [splitSign_append signed letters.head?] at hfilter
      have hnone := ofWord?_of_decimal hfilter
      have hsome := ofWord?_isSome.mpr letters
      rw [hnone] at hsome
      cases hsome
    | decimal signed digits power => exact ⟨_, _, _, signed, digits, power, rfl⟩
  · rintro ⟨sign, mantissa, exponent, signed, digits, power, rfl⟩
    refine ⟨?_, ofNotation?_isSome.mpr (.decimal signed digits power)⟩
    rw [splitSign_append signed (digits.head?_append exponent), List.all_append, digits.decimalChars,
      power.decimalChars]
    rfl

/-! ## Hexadecimal literals -/

/-- What a hexadecimal digit is. -/
theorem hexDigit?_isSome {c : Char} : (hexDigit? c).isSome = true ↔ IsHexDigit c := by
  rw [hexDigit?, IsHexDigit]
  repeat' split
  all_goals simp_all

/-- **Hexadecimal digits are read**, one or more of them. -/
theorem ofHex?_isSome {cs : List Char} : (ofHex? cs).isSome = true ↔ cs ≠ [] ∧ ∀ c ∈ cs, IsHexDigit c := by
  have hmap : ∀ cs : List Char, (cs.mapM hexDigit?).isSome = true ↔ ∀ c ∈ cs, IsHexDigit c := by
    intro cs
    induction cs with
    | nil => simp
    | cons c cs ih =>
      rw [List.mapM_cons, List.forall_mem_cons, ← ih, ← hexDigit?_isSome]
      cases hexDigit? c <;> cases cs.mapM hexDigit? <;> simp
  rw [ofHex?]
  split
  · next hnil => simp_all
  · next hnil =>
    rw [Option.isSome_map, hmap]
    simp_all

/-- A hexadecimal literal does not pass the filter of decimal ones. -/
theorem decimalChars_hex {x : Char} (h : x = 'x' ∨ x = 'X') (ds : List Char) :
    (splitSign ('0' :: x :: ds)).2.all isDecimalChar = false := by
  rcases h with rfl | rfl <;> rfl

/-! ## Texts -/

/-- **A text is read as a number** exactly if it spells one. -/
theorem ofTrimmed?_isSome {cs : List Char} : (ofTrimmed? cs).isSome = true ↔ Numeral cs := by
  constructor
  · intro h
    rw [ofTrimmed?.eq_def] at h
    split at h
    · exact .empty
    · obtain ⟨hsome, hdigits⟩ := ofHex?_isSome.mp h
      exact .hex (.inl rfl) hdigits hsome
    · obtain ⟨hsome, hdigits⟩ := ofHex?_isSome.mp h
      exact .hex (.inr rfl) hdigits hsome
    · obtain ⟨sign, hsign, hcs⟩ := sign_of_splitSign cs
      rcases hsplit : splitSign cs with ⟨negative, unsigned⟩
      simp only [hsplit] at h hcs
      split at h
      · next hinfinity =>
        rw [hcs, beq_iff_eq.mp hinfinity]
        exact .infinity hsign
      · split at h
        · next hfilter =>
          rw [← show (splitSign cs).2 = unsigned from congrArg Prod.snd hsplit] at hfilter
          obtain ⟨sign, mantissa, exponent, hsign, hm, he, rfl⟩ := filtered_iff.mp ⟨hfilter, h⟩
          exact .decimal hsign hm he
        · cases h
  · intro h
    cases h with
    | empty => rfl
    | hex letter digits nonempty =>
      rcases letter with rfl | rfl
      · exact ofHex?_isSome.mpr ⟨nonempty, digits⟩
      · exact ofHex?_isSome.mpr ⟨nonempty, digits⟩
    | infinity signed => cases signed <;> decide
    | @decimal sign mantissa exponent signed digits power =>
      obtain ⟨hfilter, hread⟩ := filtered_iff.mpr ⟨sign, mantissa, exponent, signed, digits, power, rfl⟩
      generalize sign ++ (mantissa ++ exponent) = cs at hfilter hread
      rw [ofTrimmed?.eq_def]
      split
      · rfl
      · rw [decimalChars_hex (.inl rfl)] at hfilter
        cases hfilter
      · rw [decimalChars_hex (.inr rfl)] at hfilter
        cases hfilter
      · simp only
        split
        · rfl
        · exact hread

/-! ## Values -/

/-- Setting the sign leaves the magnitude alone. -/
theorem magnitude_signed (bits : UInt64) : magnitude ⟨bits ||| signBit⟩ = magnitude ⟨bits⟩ := by
  have hdisjoint : signBit.toBitVec &&& (0x7fffffffffffffff : UInt64).toBitVec = 0 := by decide
  refine UInt64.toBitVec_inj.mp ?_
  ext i hi
  have hbit := congrArg (fun b : BitVec 64 => b[i]) hdisjoint
  simp only [BitVec.getElem_and, BitVec.ofNat_eq_ofNat, BitVec.getElem_zero] at hbit
  simp only [magnitude, UInt64.toBitVec_and, UInt64.toBitVec_or, BitVec.getElem_and, BitVec.getElem_or,
    Bool.and_or_distrib_right, hbit, Bool.or_false]

/-- **Rounding gives no NaN**: what is too large becomes an infinity. -/
theorem isNaN_ofRatio (negative : Bool) (num den : Nat) : (ofRatio negative num den).isNaN = false := by
  have hle : (ratioBits num den).toUInt64 ≤ infinityBits := by
    have hbits : ratioBits num den ≤ infinityBits.toNat := Nat.min_le_right ..
    have hinfinity : infinityBits.toNat < 2 ^ 64 := UInt64.toNat_lt_size _
    rw [UInt64.le_iff_toNat_le, UInt64.toNat_ofNat', Nat.mod_eq_of_lt (Nat.lt_of_le_of_lt hbits hinfinity)]
    exact hbits
  have hmagnitude : (ofRatio negative num den).magnitude = magnitude ⟨(ratioBits num den).toUInt64⟩ := by
    cases negative with
    | false => rfl
    | true => exact magnitude_signed _
  rw [isNaN, hmagnitude, decide_eq_false_iff_not, UInt64.not_lt]
  exact UInt64.le_trans UInt64.and_le_left hle

/-- Infinity of either sign is no NaN. -/
theorem isNaN_infinity (negative : Bool) : (if negative then negInfinity else infinity).isNaN = false := by
  cases negative <;> decide

/-- **A decimal literal stands for a number.** -/
theorem DecimalLiteral.isNaN_value (d : DecimalLiteral) : d.value.isNaN = false := by
  rw [value, ofDecimal]
  simp only
  split
  · exact isNaN_ofRatio ..
  · split
    · exact isNaN_infinity _
    · exact isNaN_ofRatio ..

/-- **So do hexadecimal digits**, as many as there are. -/
theorem isNaN_ofHex? {cs : List Char} {x : Number} (h : ofHex? cs = some x) : x.isNaN = false := by
  have hfold : ∀ (ds : List Nat) (x : Number), x.isNaN = false → (ds.foldl pushHexDigit x).isNaN = false := by
    intro ds
    induction ds with
    | nil => exact fun _ hx => hx
    | cons d ds ih =>
      intro x hx
      refine ih _ ?_
      rw [pushHexDigit]
      split
      · exact hx
      · exact isNaN_ofRatio ..
  rw [ofHex?] at h
  split at h
  · cases h
  · obtain ⟨ds, -, rfl⟩ := Option.map_eq_some_iff.mp h
    exact hfold ds zero (by decide)

/-- What is read is no NaN. -/
theorem isNaN_ofTrimmed? {cs : List Char} {x : Number} (h : ofTrimmed? cs = some x) : x.isNaN = false := by
  rw [ofTrimmed?.eq_def] at h
  split at h
  · cases h
    decide
  · exact isNaN_ofHex? h
  · exact isNaN_ofHex? h
  · simp only at h
    split at h
    · cases h
      exact isNaN_infinity _
    · split at h
      · next hfilter =>
        -- What has passed the filter is no word, and so none for a NaN.
        simp only [ofNotation?, ofWord?_of_decimal hfilter] at h
        obtain ⟨d, -, rfl⟩ := Option.map_eq_some_iff.mp h
        exact d.isNaN_value
      · cases h

end Number

/-- **Which texts have a numeric value.** The blanks around a text do not count. What is left, and there is
one way only to leave them out, has a value that is no NaN exactly if it spells a number: if it is empty, a
hexadecimal literal without a sign, infinity with at most one sign, or a decimal literal. -/
theorem Value.numeral_iff (s : String) :
    ∃ t, (∀ t', Text.Strips s.toList t' ↔ t' = t) ∧
      ((Value.string s).toNumber.isNaN = false ↔ Number.Numeral t) := by
  refine ⟨Text.trim s.toList, fun t' => Text.strips_iff, ?_⟩
  rw [← Number.ofTrimmed?_isSome]
  show (Number.ofText s).isNaN = false ↔ _
  rw [Number.ofText]
  rcases hread : Number.ofTrimmed? (Text.trim s.toList) with _ | x
  · have hnan : Number.nan.isNaN = true := by decide
    simp [hnan]
  · simp [Number.isNaN_ofTrimmed? hread]

end ScriptEngine
