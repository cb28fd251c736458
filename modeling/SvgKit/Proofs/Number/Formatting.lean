import SvgKit.Proofs.Number.Decimal

/-! Formatting the number that a token writes. It is read as the nearest floating point number, and
that is rounded to decimal places once: the text that comes of it writes the rounded number, and to
round before formatting or to format the text again changes nothing.
-/

namespace SvgKit.Numeral

-----------------------------------------------------------------------------------------
-- Reading a token
-----------------------------------------------------------------------------------------

section Parsing

variable {token : Text} {n : Numeral}

theorem isMargin_of_isNumeralChar {c : Char} (h : isNumeralChar c) : isMargin c = false := by
  have hblank := isBlank_of_isNumeralChar h
  unfold isMargin
  split
  · next hascii =>
      rw [Text.isBlank, if_pos hascii, Bool.or_eq_false_iff] at hblank
      exact hblank.1
  · exact hblank

/-- The letter is in all names of what is no finite number. -/
theorem toLower_ne_of_isNumeralChar {c : Char} (h : isNumeralChar c) : c.toLower ≠ 'n' := by
  cases hmark : isExponentMark c with
  | true =>
      rw [isExponentMark, Bool.or_eq_true, beq_iff_eq, beq_iff_eq] at hmark
      rcases hmark with rfl | rfl <;> decide
  | false =>
      have hletter := isAlpha_of_isNumeralChar h hmark
      have hupper : c.isUpper = false := (Bool.or_eq_false_iff.mp hletter).1
      rw [Char.toLower_eq_of_not_isUpper (Bool.eq_false_iff.mp hupper)]
      rintro rfl
      cases hletter

theorem dropUnderscores?_of_forall {s : Text} (h : ∀ c ∈ s, c ≠ '_') (afterDigit : Bool)
    : dropUnderscores? afterDigit s = some s := by
  induction s generalizing afterDigit with
  | nil => rfl
  | cons c s ih =>
      rw [List.forall_mem_cons] at h
      unfold dropUnderscores?
      split
      · next heq => cases heq
      · next heq => exact absurd (List.cons.inj heq).1 h.1
      · next heq =>
          cases heq
          rw [ih h.2]
          rfl

/-- A token has neither margins nor underscores, and it is not the name of what is no finite number.
-/
theorem IsToken.parse? (h : IsToken token n) : parse? token = some n.value := by
  have hchars := h.isNumeralText.isNumeralChar
  have hstart : token.dropWhile isMargin = token := Stops.dropWhile fun c hc =>
    isMargin_of_isNumeralChar (hchars c (List.mem_of_head? hc))
  have hend : Text.dropEndWhile isMargin token = token := by
    rw [Text.dropEndWhile, Stops.dropWhile fun c hc => isMargin_of_isNumeralChar
      (hchars c (List.mem_reverse.mp (List.mem_of_head? hc))), List.reverse_reverse]
  have hname {name : Text} (hn : 'n' ∈ name) : (readSign token).2.map Char.toLower ≠ name := by
    rintro rfl
    obtain ⟨c, hc, hlower⟩ := List.mem_map.mp hn
    exact toLower_ne_of_isNumeralChar (hchars c ((readSign_suffix token).subset hc)) hlower
  have hunderscores : ∀ c ∈ token, c ≠ '_' := by
    rintro c hc rfl
    exact absurd (hchars _ hc) (by decide)
  rw [Numeral.parse?, hstart, hend]
  dsimp only
  rw [decide_eq_false (hname (by decide +kernel)), decide_eq_false (hname (by decide +kernel)),
    Bool.or_false, if_neg Bool.false_ne_true, if_neg (hname (by decide +kernel)),
    dropUnderscores?_of_forall hunderscores, Option.bind_some, h.read?]

/-- A numeral is read as the nearest floating point number. -/
theorem isRounded_value (n : Numeral) : n.value.IsRounded n.toRat :=
  Binary64.isRounded_ofDecimal _ _ _

end Parsing

-----------------------------------------------------------------------------------------
-- The text of a rounded number
-----------------------------------------------------------------------------------------

/-- The text is the plain notation of a number: a minus sign in front of a negative one only, the
whole part as a natural number is written, and behind a point a fraction that does not end in a zero;
where there is no fraction, there is no point.
-/
def IsPlain (q : ℚ) (text : Text) : Prop :=
  ∃ (whole : Nat) (fraction : Text), (∀ c ∈ fraction, c.isDigit) ∧ fraction.getLast? ≠ some '0'
    ∧ toRat ⟨q < 0, Text.ofNat whole, fraction, 0⟩ = q
    ∧ text = decimalText (q < 0) (Text.ofNat whole) fraction

section Rounded

variable (places : Nat) {negative : Bool} {m : Nat} {e : Int}

/-- The decimal that a number is rounded to is written plainly. -/
theorem isPlain_roundedText
    : IsPlain (roundPlaces places (Binary64.sign negative * (m * 2 ^ e)))
      (roundedText places negative (Binary64.scaled places m e)) := by
  rw [roundPlaces_eq_sign_mul]
  generalize Binary64.scaled places m e = k
  have hdecimal := isDecimal_digits places k
  have hsign : decide (Binary64.sign (negative && k ≠ 0) * ((k : ℚ) / 10 ^ places) < 0)
      = (negative && decide (k ≠ 0)) := by
    cases hnegative : negative && decide (k ≠ 0) with
    | false =>
        have hle : (0 : ℚ) ≤ k / 10 ^ places := by positivity
        rw [Binary64.sign, if_neg Bool.false_ne_true, one_mul]
        exact decide_eq_false hle.not_gt
    | true =>
        have hne : k ≠ 0 := of_decide_eq_true (Bool.and_eq_true_iff.mp hnegative).2
        have hpos : (0 : ℚ) < k / 10 ^ places := by positivity
        rw [Binary64.sign, if_pos rfl, neg_one_mul]
        exact decide_eq_true (neg_neg_of_pos hpos)
  refine ⟨k / 10 ^ places, fractionDigits places k, hdecimal.fraction_digits, hdecimal.last, ?_, ?_⟩
  · rw [hsign, ← wholeDigits_eq, hdecimal.toRat_eq]
  · rw [hsign, ← wholeDigits_eq, roundedText]

/-- The text of a rounded number is read as a floating point number that is rounded to the same
decimal, because the number that was rounded is not nearer to the decimal.
-/
theorem format_roundedText (hrange : Binary64.InRange (.finite negative m e))
    (hbits : Binary64.HasBits (.finite negative m e))
    : format places (roundedText places negative (Binary64.scaled places m e))
      = .ok (roundedText places negative (Binary64.scaled places m e)) := by
  have hdecimal := isDecimal_digits places (Binary64.scaled places m e)
  have hbelow : Binary64.scaled places m e < Binary64.overflow * 10 ^ places :=
    Binary64.roundRatio_lt_overflow hrange places
  have hsame (isNegative : Bool) (m' : Nat) (e' : Int)
      (h : Binary64.IsClosest
        (Binary64.sign isNegative * (Binary64.scaled places m e / 10 ^ places))
        (.finite isNegative m' e'))
      : Binary64.scaled places m' e' = Binary64.scaled places m e :=
    Binary64.scaled_of_isClosest ⟨hbits.1, hbits.2⟩ h
  generalize Binary64.scaled places m e = k at *
  unfold roundedText
  generalize hnegative : (negative && decide (k ≠ 0)) = isNegative
  have hsign : (isNegative && decide (k ≠ 0)) = isNegative := by
    rw [← hnegative, Bool.and_assoc, Bool.and_self]
  have htoken : IsToken (decimalText isNegative (wholeDigits places k) (fractionDigits places k))
      ⟨isNegative, wholeDigits places k, fractionDigits places k, 0⟩ :=
    isToken_decimalText (fun c hc => isDigit_of_isDigit (hdecimal.whole_digits c hc))
      (fun c hc => isDigit_of_isDigit (hdecimal.fraction_digits c hc)) (.inl hdecimal.whole_ne_nil)
  have hvalue := isRounded_value ⟨isNegative, wholeDigits places k, fractionDigits places k, 0⟩
  rw [hdecimal.toRat_eq] at hvalue
  rw [format, htoken.parse?]
  dsimp only
  unfold value at hvalue ⊢
  rcases Binary64.ofDecimal_cases isNegative
    (digitsValue (wholeDigits places k ++ fractionDigits places k))
    (0 - (fractionDigits places k).length) with ⟨m', e', hfinite⟩ | hinfinite
  · rw [hfinite] at hvalue ⊢
    rw [shorten_finite places hvalue.inRange hvalue.hasBits, hsame _ _ _ hvalue.isClosest,
      roundedText, hsign]
  · rw [hinfinite] at hvalue
    have hreaches := hvalue.isClosest
    rw [Binary64.IsClosest, Binary64.sign_mul_sign, le_div_iff₀ (by positivity)] at hreaches
    exact absurd hbelow (not_lt.mpr (by exact_mod_cast hreaches))

end Rounded

/-- Whatever the places, every token has a text: it is read as the nearest floating point number, and
if that is finite, the text is the plain notation of the number rounded to the places, of two decimals
that are as near to the even one. Rounding the number before it is written with fixed places does not
change what is written, and the text comes out as it is when it is formatted again.
-/
theorem format_of_isToken (places : Nat) {token : Text} {n : Numeral} (h : IsToken token n)
    : ∃ x out, parse? token = some x ∧ x.IsRounded n.toRat ∧ format places token = .ok out
      ∧ ∀ q, x.toRat? = some q
        → IsPlain (roundPlaces places q) out
          ∧ (∃ y, x.roundTo? places = some y ∧ y.fixed places = x.fixed places)
          ∧ format places out = .ok out := by
  have hrounded := isRounded_value n
  rw [format, h.parse?]
  dsimp only
  generalize n.value = x at *
  cases x with
  | finite negative m e =>
      obtain ⟨m', e', hround, hscaled⟩ :=
        Binary64.exists_roundTo?_finite places hrounded.inRange hrounded.hasBits
      refine ⟨_, _, rfl, hrounded, shorten_finite places hrounded.inRange hrounded.hasBits, ?_⟩
      rintro _ ⟨⟩
      refine ⟨isPlain_roundedText places, ⟨_, hround, ?_⟩,
        format_roundedText places hrounded.inRange hrounded.hasBits⟩
      rw [fixed_finite, fixed_finite, hscaled]
  | infinite negative =>
      have hshorten : shorten places (.infinite negative)
          = .ok (dropZeros ((Binary64.infinite negative).fixed places)) := by
        have hround : (Binary64.infinite negative).roundTo? places = some (.infinite negative) := rfl
        rw [shorten, hround]
        dsimp only
        rw [if_neg (by omega), Int.toNat_natCast]
      refine ⟨_, _, rfl, hrounded, hshorten, ?_⟩
      rintro _ ⟨⟩
  | nan => exact hrounded.isClosest.elim

/-- A quarter, written with an Arabic digit, a sign and a power of ten, is half way between two decimals
of one place.
-/
theorem format_of_isToken_quarter
    : let token : Text := ['+', '\u0662', '.', '5', 'e', '-', '1']
      let n : Numeral := ⟨false, ['\u0662'], ['5'], -1⟩
      IsToken token n
      ∧ ∃ x out, parse? token = some x ∧ x.IsRounded n.toRat ∧ format 1 token = .ok out
        ∧ ∀ q, x.toRat? = some q
          → IsPlain (roundPlaces 1 q) out
            ∧ (∃ y, x.roundTo? 1 = some y ∧ y.fixed 1 = x.fixed 1)
            ∧ format 1 out = .ok out := by
  have hdigit {c : Char} (h : Text.isDigit c) : ∀ d ∈ [c], Text.isDigit d :=
    List.forall_mem_singleton.mpr h
  have hmantissa : IsMantissa ['\u0662', '.', '5'] ['\u0662'] ['5'] :=
    .point (hdigit (by decide)) (hdigit (by decide)) (.inl (by simp))
  have hpower : IsPower ['e', '-', '1'] (-1) :=
    .power (.inl rfl) .minus (hdigit (by decide)) (by simp)
  have htoken := IsToken.intro .plus hmantissa hpower
  exact ⟨htoken, format_of_isToken 1 htoken⟩

example : format 1 ['+', '\u0662', '.', '5', 'e', '-', '1'] = .ok ['0', '.', '2'] := by
  decide +kernel

end SvgKit.Numeral
