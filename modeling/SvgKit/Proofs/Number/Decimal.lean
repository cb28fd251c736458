import SvgKit.Proofs.Number.Nearest
import SvgKit.Proofs.Number.Numeral
import SvgKit.Proofs.Text.Ascii
import SvgKit.Proofs.Text.Members

/-! The shortest text of a number rounded to decimal places: it writes the nearest decimal, without
zeros at the end of its fraction and without the sign of a zero.
-/

namespace SvgKit

namespace Text

/-- What is dropped at the end of a text does not reach over a character of another class. -/
theorem dropEndWhile_append_cons {p : Char → Bool} {c : Char} (hc : p c = false) (front back : Text)
    : dropEndWhile p (front ++ c :: back) = front ++ c :: dropEndWhile p back := by
  have hfront : (c :: front.reverse).dropWhile p = c :: front.reverse :=
    List.dropWhile_cons_of_neg (Bool.eq_false_iff.mp hc)
  have hsplit : (front ++ c :: back).reverse = back.reverse ++ c :: front.reverse := by simp
  have hdrop : (back.reverse ++ c :: front.reverse).dropWhile p
      = back.reverse.dropWhile p ++ c :: front.reverse := by
    rw [List.dropWhile_append, hfront]
    split
    · next hempty => rw [List.isEmpty_iff.mp hempty, List.nil_append]
    · rfl
  rw [dropEndWhile, hsplit, hdrop, dropEndWhile]
  simp

end Text

namespace Numeral

open Nat (ofDigitChars)

-----------------------------------------------------------------------------------------
-- Digits
-----------------------------------------------------------------------------------------

section Digits

theorem isDigit_iff {c : Char} : c.isDigit ↔ 48 ≤ c.toNat ∧ c.toNat ≤ 57 := by
  delta Char.isDigit
  rw [Bool.and_eq_true, decide_eq_true_eq, decide_eq_true_eq, ge_iff_le, UInt32.le_iff_toNat_le,
    UInt32.le_iff_toNat_le]
  rfl

theorem lt_of_isDigit {c : Char} (h : c.isDigit) : c.val < 128 :=
  Text.lt_of_isAlphanum (Text.isAlphanum_of_isDigit h)

theorem digitValue?_of_isDigit {c : Char} (h : c.isDigit)
    : Text.digitValue? c = some (c.toNat - '0'.toNat) := by
  rw [Text.digitValue?, if_pos (lt_of_isDigit h), if_pos h]
  rfl

theorem isDigit_of_isDigit {c : Char} (h : c.isDigit) : Text.isDigit c := by
  rw [Text.isDigit, digitValue?_of_isDigit h]
  rfl

/-- The digits of ASCII have their usual values. -/
theorem digitsValue_eq {digits : Text} (h : ∀ c ∈ digits, c.isDigit)
    : digitsValue digits = ofDigitChars 10 digits 0 := by
  unfold digitsValue ofDigitChars
  suffices ∀ start : Nat, digits.foldl (fun n c => 10 * n + (Text.digitValue? c).getD 0) start
      = digits.foldl (fun n c => 10 * n + (c.toNat - '0'.toNat)) start from this 0
  intro start
  induction digits generalizing start with
  | nil => rfl
  | cons c digits ih =>
      rw [List.forall_mem_cons] at h
      rw [List.foldl_cons, List.foldl_cons, digitValue?_of_isDigit h.1, ih h.2]
      rfl

end Digits

-----------------------------------------------------------------------------------------
-- The text of a decimal
-----------------------------------------------------------------------------------------

/-- A minus sign in front of a negative number. -/
def signText (isNegative : Bool) : Text := if isNegative then ['-'] else []

/-- The text of a decimal, without a point if there is no fraction. -/
def decimalText (isNegative : Bool) (whole fraction : Text) : Text :=
  signText isNegative ++ (whole ++ if fraction.isEmpty then [] else '.' :: fraction)

/-- The digits of a decimal that is a number of units in the last of some places: the fraction is as
short as possible, and a single zero stands in front of it if the decimal is less than one.
-/
structure IsDecimal (places n : Nat) (whole fraction : Text) : Prop where
  whole_digits : ∀ c ∈ whole, c.isDigit
  fraction_digits : ∀ c ∈ fraction, c.isDigit
  whole_ne_nil : whole ≠ []
  length_le : fraction.length ≤ places
  value : 10 ^ (places - fraction.length) * ofDigitChars 10 (whole ++ fraction) 0 = n
  last : fraction.getLast? ≠ some '0'
  whole_eq : n < 10 ^ places → whole = ['0']

/-- The last digit of a fraction is not lost in the number. -/
theorem IsDecimal.fraction_eq_nil {places : Nat} {whole fraction : Text}
    (h : IsDecimal places 0 whole fraction)
    : fraction = [] := by
  cases hlast : fraction.getLast? with
  | none => exact List.getLast?_eq_none_iff.mp hlast
  | some c =>
      obtain ⟨front, rfl⟩ := List.getLast?_eq_some_iff.mp hlast
      have hvalue := h.value
      rw [Nat.mul_eq_zero, ← List.append_assoc, Nat.ofDigitChars_append, Nat.ofDigitChars_cons,
        Nat.ofDigitChars_nil] at hvalue
      have hzero : c.toNat - '0'.toNat = 0 := by
        have := hvalue.resolve_left (pow_pos (by norm_num) _).ne'
        omega
      have hbounds := isDigit_iff.mp (h.fraction_digits c (by simp))
      have hc : c.toNat = '0'.toNat := by
        have h : '0'.toNat = 48 := rfl
        omega
      exact absurd (hlast.trans (by rw [Char.toNat_inj.mp hc])) h.last

/-- The digits of a number that is a number of units in the last of some places, padded with zeros. -/
def paddedDigits (places n : Nat) : Text :=
  List.replicate (places + 1 - (Text.ofNat n).length) '0' ++ Text.ofNat n

/-- The digits in front of the last places. -/
def wholeDigits (places n : Nat) : Text :=
  (paddedDigits places n).take ((paddedDigits places n).length - places)

/-- The digits of the last places, without the zeros at their end. -/
def fractionDigits (places n : Nat) : Text :=
  Text.dropEndWhile (· = '0') ((paddedDigits places n).drop ((paddedDigits places n).length - places))

/-- The text of the decimal with these digits, without the sign of a zero. -/
def roundedText (places : Nat) (negative : Bool) (n : Nat) : Text :=
  decimalText (negative && n ≠ 0) (wholeDigits places n) (fractionDigits places n)

section Padded

variable (places n : Nat)

theorem isDigit_paddedDigits : ∀ c ∈ paddedDigits places n, c.isDigit := by
  refine List.forall_mem_append.mpr ⟨fun c hc => ?_, fun c hc => ?_⟩
  · rw [List.eq_of_mem_replicate hc]
    decide
  · exact Nat.isDigit_of_mem_toDigits (by decide) (by decide) hc

theorem ofDigitChars_paddedDigits : ofDigitChars 10 (paddedDigits places n) 0 = n := by
  rw [paddedDigits, Nat.ofDigitChars_append, Nat.ofDigitChars_replicate_zero, mul_zero, Text.ofNat,
    Nat.ofDigitChars_ten_toDigits]

theorem length_paddedDigits
    : (paddedDigits places n).length = max (places + 1) (Text.ofNat n).length := by
  rw [paddedDigits, List.length_append, List.length_replicate]
  omega

/-- The last digit comes with the last place. -/
theorem paddedDigits_succ
    : paddedDigits (places + 1) n = paddedDigits places (n / 10) ++ [(n % 10).digitChar] := by
  rw [paddedDigits, paddedDigits, Text.ofNat, Text.ofNat]
  rcases Nat.lt_or_ge n 10 with hlt | hle
  · rw [Nat.div_eq_of_lt hlt, Nat.mod_eq_of_lt hlt, Nat.toDigits_of_lt_base hlt, Nat.toDigits_zero,
      List.length_singleton, List.length_singleton, Nat.add_sub_cancel, Nat.add_sub_cancel,
      List.replicate_succ']
  · have hlength : (Nat.toDigits 10 n).length = (Nat.toDigits 10 (n / 10)).length + 1 := by
      rw [Nat.toDigits_of_base_le (by norm_num) hle, List.length_append, List.length_singleton]
    rw [hlength, Nat.add_sub_add_right, Nat.toDigits_of_base_le (by norm_num) hle,
      List.append_assoc]

/-- In front of the last places stands the whole part, by induction over the places. -/
theorem wholeDigits_eq : wholeDigits places n = Text.ofNat (n / 10 ^ places) := by
  induction places generalizing n with
  | zero =>
      have hpos : 0 < (Text.ofNat n).length := List.length_pos_iff.mpr Nat.toDigits_ne_nil
      have hnone : 0 + 1 - (Text.ofNat n).length = 0 := by omega
      rw [wholeDigits, Nat.sub_zero, List.take_length, paddedDigits, hnone, pow_zero, Nat.div_one]
      rfl
  | succ places ih =>
      rw [pow_succ', ← Nat.div_div_eq_div_mul, ← ih, wholeDigits, wholeDigits, paddedDigits_succ,
        List.length_append, List.length_singleton, Nat.add_sub_add_right,
        List.take_append_of_le_length (Nat.sub_le _ _)]

/-- A number below a power of ten has a zero in front of that many digits. -/
theorem wholeDigits_of_lt (hsmall : n < 10 ^ places) : wholeDigits places n = ['0'] := by
  rw [wholeDigits_eq, Nat.div_eq_of_lt hsmall]
  rfl

end Padded

/-- Dropping zeros at the end of a fraction leaves the number as it is. -/
theorem exists_dropEndWhile_zeros (fraction : Text)
    : ∃ zeros, fraction = Text.dropEndWhile (· = '0') fraction ++ List.replicate zeros '0'
      ∧ (Text.dropEndWhile (· = '0') fraction).getLast? ≠ some '0' := by
  have hzeros : fraction.reverse.takeWhile (· = '0')
      = List.replicate (fraction.reverse.takeWhile (· = '0')).length '0' :=
    List.eq_replicate_of_mem fun c hc => by simpa using List.mem_takeWhile_imp hc
  refine ⟨(fraction.reverse.takeWhile (· = '0')).length, ?_, fun hlast => ?_⟩
  · have hsplit := congrArg List.reverse
      (List.takeWhile_append_dropWhile (p := (· = '0')) (l := fraction.reverse))
    rw [List.reverse_append, List.reverse_reverse, hzeros, List.reverse_replicate] at hsplit
    exact hsplit.symm
  · rw [Text.dropEndWhile, List.getLast?_reverse] at hlast
    have hstops := stops_dropWhile (p := (· = '0')) (s := fraction.reverse) '0' hlast
    simp at hstops

/-- The digits around the point, without the zeros at the end, make up the decimal. -/
theorem isDecimal_digits (places n : Nat)
    : IsDecimal places n (wholeDigits places n) (fractionDigits places n) := by
  have hlength := length_paddedDigits places n
  have hdigits := isDigit_paddedDigits places n
  have hvalue := ofDigitChars_paddedDigits places n
  have hsmall := wholeDigits_of_lt places n
  unfold wholeDigits at hsmall ⊢
  unfold fractionDigits
  rw [← List.take_append_drop ((paddedDigits places n).length - places) (paddedDigits places n)]
    at hdigits hvalue
  have hfraction : ((paddedDigits places n).drop
      ((paddedDigits places n).length - places)).length = places := by
    rw [List.length_drop]
    omega
  have hwhole : (paddedDigits places n).take ((paddedDigits places n).length - places) ≠ [] := by
    rw [← List.length_pos_iff, List.length_take]
    omega
  generalize (paddedDigits places n).take _ = whole at *
  generalize (paddedDigits places n).drop _ = fraction at *
  obtain ⟨zeros, hzeros, hlast⟩ := exists_dropEndWhile_zeros fraction
  generalize Text.dropEndWhile (· = '0') fraction = short at *
  subst hzeros
  rw [List.forall_mem_append, List.forall_mem_append] at hdigits
  rw [List.length_append, List.length_replicate] at hfraction
  refine ⟨hdigits.1, hdigits.2.1, hwhole, by omega, ?_, hlast, hsmall⟩
  rw [← List.append_assoc, Nat.ofDigitChars_append, Nat.ofDigitChars_replicate_zero] at hvalue
  rw [← hvalue, ← hfraction, Nat.add_sub_cancel_left]

-----------------------------------------------------------------------------------------
-- Shortening
-----------------------------------------------------------------------------------------

theorem fixed_finite (places : Nat) (negative : Bool) (m : Nat) (e : Int)
    : (Binary64.finite negative m e).fixed places
      = signText negative ++ wholeDigits places (Binary64.scaled places m e)
        ++ (if places = 0 then [] else '.' :: (paddedDigits places (Binary64.scaled places m e)).drop
          ((paddedDigits places (Binary64.scaled places m e)).length - places)) := rfl

section DropZeros

variable {whole fraction : Text}

theorem ne_point_of_isDigit {c : Char} (h : c.isDigit) : c ≠ '.' := by
  rintro rfl
  cases h

/-- The point goes with an empty fraction, and the zeros at the end go with the fraction. -/
theorem dropEndWhile_decimal (sign : Text) (hwhole : ∀ c ∈ whole, c.isDigit) (hne : whole ≠ [])
    (hfraction : ∀ c ∈ fraction, c.isDigit)
    : Text.dropEndWhile (· = '.') (Text.dropEndWhile (· = '0') (sign ++ whole ++ '.' :: fraction))
      = sign ++ (whole ++ if (Text.dropEndWhile (· = '0') fraction).isEmpty then []
        else '.' :: Text.dropEndWhile (· = '0') fraction) := by
  have hzeros := Text.dropEndWhile_append_cons (p := (· = '0')) (c := '.') (by decide) (sign ++ whole)
    fraction
  rw [hzeros]
  have hshort : ∀ c ∈ Text.dropEndWhile (· = '0') fraction, c.isDigit := fun c hc =>
    hfraction c (Text.mem_of_mem_dropEndWhile hc)
  generalize Text.dropEndWhile (· = '0') fraction = short at *
  have hkeep {front : Text} {c : Char} (hc : c.isDigit)
      : Text.dropEndWhile (· = '.') (front ++ [c]) = front ++ [c] :=
    Text.dropEndWhile_append_cons (decide_eq_false (ne_point_of_isDigit hc)) front []
  cases hlast : short.getLast? with
  | none =>
      obtain rfl := List.getLast?_eq_none_iff.mp hlast
      obtain ⟨front, hfront⟩ := List.getLast?_eq_some_iff.mp (List.getLast?_eq_some_getLast hne)
      have hdigit := hwhole _ (List.getLast_mem hne)
      have hpoint : Text.dropEndWhile (· = '.') (sign ++ whole ++ ['.'])
          = Text.dropEndWhile (· = '.') (sign ++ whole) := by
        simp [Text.dropEndWhile]
      rw [hpoint, hfront, ← List.append_assoc, hkeep hdigit]
      simp
  | some c =>
      obtain ⟨front, rfl⟩ := List.getLast?_eq_some_iff.mp hlast
      have hdigit : c.isDigit := hshort c (by simp)
      have hsplit : sign ++ whole ++ '.' :: (front ++ [c])
          = (sign ++ whole ++ '.' :: front) ++ [c] := by simp
      rw [hsplit, hkeep hdigit]
      simp

end DropZeros

/-- Only the text of a negative zero is a minus sign and a zero. -/
theorem decimalText_eq_iff {places n : Nat} {whole fraction : Text}
    (h : IsDecimal places n whole fraction) (negative : Bool)
    : decimalText negative whole fraction = ['-', '0'] ↔ negative ∧ n = 0 := by
  constructor
  · intro heq
    obtain ⟨c, whole, rfl⟩ := List.exists_cons_of_ne_nil h.whole_ne_nil
    cases negative with
    | false =>
        have hc : c = '-' := (List.cons.inj heq).1
        have hdigit := h.whole_digits c List.mem_cons_self
        rw [hc] at hdigit
        cases hdigit
    | true =>
        have hrest := (List.cons.inj heq).2
        obtain ⟨rfl, htail⟩ := List.cons.inj hrest
        obtain ⟨rfl, hfraction⟩ := List.append_eq_nil_iff.mp htail
        have hempty : fraction = [] := by
          by_contra hne
          rw [List.isEmpty_eq_false_iff.mpr hne] at hfraction
          cases hfraction
        have hvalue := h.value
        subst hempty
        have hzero : ofDigitChars 10 (['0'] ++ []) 0 = 0 := by decide
        rw [hzero, mul_zero] at hvalue
        exact ⟨rfl, hvalue.symm⟩
  · rintro ⟨hnegative, rfl⟩
    rw [h.fraction_eq_nil, h.whole_eq (pow_pos (by norm_num) _), hnegative]
    rfl

/-- The text without the zeros at the end of its fraction, and without a point that nothing follows.
-/
def dropFractionZeros (s : Text) : Text :=
  if s.contains '.' then Text.dropEndWhile (· = '.') (Text.dropEndWhile (· = '0') s) else s

theorem dropZeros_eq (s : Text)
    : dropZeros s
      = if dropFractionZeros s = ['-', '0'] || (dropFractionZeros s).isEmpty then ['0']
        else dropFractionZeros s := rfl

section Fixed

variable (places : Nat) (negative : Bool) (m : Nat) (e : Int)

/-- What is left of a text with fixed places is the decimal. -/
theorem dropFractionZeros_fixed
    : dropFractionZeros ((Binary64.finite negative m e).fixed places)
      = decimalText negative (wholeDigits places (Binary64.scaled places m e))
        (fractionDigits places (Binary64.scaled places m e)) := by
  have hdecimal := isDecimal_digits places (Binary64.scaled places m e)
  rw [fixed_finite]
  generalize Binary64.scaled places m e = n at *
  unfold dropFractionZeros
  by_cases hplaces : places = 0
  · subst hplaces
    have hsign : ∀ c ∈ signText negative, c ≠ '.' := by cases negative <;> simp [signText]
    have hnone : (signText negative ++ wholeDigits 0 n ++ []).contains '.' = false := by
      rw [List.contains_eq_mem, decide_eq_false_iff_not, List.append_nil, List.mem_append, not_or]
      exact ⟨fun h => hsign _ h rfl,
        fun h => ne_point_of_isDigit (hdecimal.whole_digits _ h) rfl⟩
    have hfraction : fractionDigits 0 n = [] :=
      List.length_eq_zero_iff.mp (Nat.le_zero.mp hdecimal.length_le)
    rw [if_pos rfl, if_neg (Bool.eq_false_iff.mp hnone), hfraction]
    exact List.append_assoc _ _ _
  · have hsome : (signText negative ++ wholeDigits places n
        ++ '.' :: (paddedDigits places n).drop ((paddedDigits places n).length - places)).contains '.'
        := by simp
    rw [if_neg hplaces, if_pos hsome]
    exact dropEndWhile_decimal _ hdecimal.whole_digits hdecimal.whole_ne_nil fun c hc =>
      isDigit_paddedDigits places n c (List.mem_of_mem_drop hc)

/-- The text with fixed places is shortened to the decimal, without the sign of a zero. -/
theorem dropZeros_fixed
    : dropZeros ((Binary64.finite negative m e).fixed places)
      = roundedText places negative (Binary64.scaled places m e) := by
  have hdecimal := isDecimal_digits places (Binary64.scaled places m e)
  have htext := dropFractionZeros_fixed places negative m e
  generalize Binary64.scaled places m e = n at *
  have hnonempty : (decimalText negative (wholeDigits places n) (fractionDigits places n)).isEmpty
      = false := by
    simp [decimalText, hdecimal.whole_ne_nil]
  rw [dropZeros_eq, htext, hnonempty, Bool.or_false, roundedText]
  by_cases hzero : n = 0
  · subst hzero
    rw [hdecimal.fraction_eq_nil, hdecimal.whole_eq (pow_pos (by norm_num) _)]
    cases negative <;> rfl
  · have hne : decimalText negative (wholeDigits places n) (fractionDigits places n) ≠ ['-', '0'] :=
      fun h => hzero ((decimalText_eq_iff hdecimal negative).mp h).2
    rw [decide_eq_false hne, if_neg Bool.false_ne_true, decide_eq_true hzero, Bool.and_true]

/-- A finite number is shortened to the text of the nearest decimal. -/
theorem shorten_finite {negative : Bool} {m : Nat} {e : Int}
    (hrange : Binary64.InRange (.finite negative m e))
    (hbits : Binary64.HasBits (.finite negative m e))
    : shorten places (.finite negative m e)
      = .ok (roundedText places negative (Binary64.scaled places m e)) := by
  obtain ⟨m', e', hround, hscaled⟩ := Binary64.exists_roundTo?_finite places hrange hbits
  rw [shorten, hround]
  dsimp only
  rw [if_neg (by omega), Int.toNat_natCast, dropZeros_fixed, hscaled]

end Fixed

-----------------------------------------------------------------------------------------
-- Numbers
-----------------------------------------------------------------------------------------

/-- The number that a numeral writes. -/
def toRat (n : Numeral) : ℚ :=
  Binary64.sign n.negative
    * (digitsValue (n.whole ++ n.fraction) * 10 ^ (n.exponent - n.fraction.length))

section ToRat

variable {isNegative : Bool} {whole fraction : Text}

theorem toRat_append_zero
    : toRat ⟨isNegative, whole, fraction ++ ['0'], 0⟩ = toRat ⟨isNegative, whole, fraction, 0⟩ := by
  have hvalue : digitsValue (whole ++ (fraction ++ ['0'])) = 10 * digitsValue (whole ++ fraction) := by
    rw [← List.append_assoc, digitsValue, List.foldl_append]
    rfl
  unfold toRat
  dsimp only
  rw [hvalue, List.length_append, List.length_singleton]
  push_cast
  rw [zero_sub, zero_sub, neg_add, zpow_add₀ (by norm_num), zpow_neg_one]
  field_simp

theorem toRat_zero_cons
    : toRat ⟨isNegative, '0' :: whole, fraction, 0⟩ = toRat ⟨isNegative, whole, fraction, 0⟩ := rfl

theorem IsDecimal.toRat_eq {places n : Nat} (h : IsDecimal places n whole fraction)
    : toRat ⟨isNegative, whole, fraction, 0⟩
      = Binary64.sign isNegative * (n / 10 ^ places) := by
  have hdigits := List.forall_mem_append.mpr ⟨h.whole_digits, h.fraction_digits⟩
  have hpower : (10 : ℚ) ^ places = 10 ^ (places - fraction.length) * 10 ^ fraction.length := by
    rw [← pow_add, Nat.sub_add_cancel h.length_le]
  unfold toRat
  dsimp only
  rw [digitsValue_eq hdigits, ← h.value, zero_sub, zpow_neg, zpow_natCast, hpower]
  push_cast
  field_simp

end ToRat

/-- The number of the decimal is the rounded number. -/
theorem roundPlaces_eq_sign_mul (places : Nat) (negative : Bool) (m : Nat) (e : Int)
    : roundPlaces places (Binary64.sign negative * (m * 2 ^ e))
      = Binary64.sign (negative && Binary64.scaled places m e ≠ 0)
        * (Binary64.scaled places m e / 10 ^ places) := by
  rw [Binary64.roundPlaces_eq_scaled]
  by_cases hzero : Binary64.scaled places m e = 0
  · rw [hzero, Nat.cast_zero, zero_div, mul_zero, mul_zero]
  · rw [decide_eq_true hzero, Bool.and_true]

/-- A finite number is shortened to a decimal that is the rounded number. -/
theorem exists_shorten_eq (places : Nat) {x : Binary64} (hrange : x.InRange) (hbits : x.HasBits)
    {q : ℚ} (hx : x.toRat? = some q)
    : ∃ (isNegative : Bool) (n : Nat) (whole fraction : Text), IsDecimal places n whole fraction
      ∧ (isNegative → n ≠ 0)
      ∧ roundPlaces places q = Binary64.sign isNegative * (n / 10 ^ places)
      ∧ shorten places x = .ok (decimalText isNegative whole fraction) := by
  cases x with
  | infinite => cases hx
  | nan => cases hx
  | finite negative m e =>
      cases hx
      refine ⟨_, _, _, _, isDecimal_digits places (Binary64.scaled places m e), fun h => ?_,
        roundPlaces_eq_sign_mul places negative m e, shorten_finite places hrange hbits⟩
      exact of_decide_eq_true (Bool.and_eq_true_iff.mp h).2

-----------------------------------------------------------------------------------------
-- Reading back
-----------------------------------------------------------------------------------------

theorem isSign_signText (isNegative : Bool) : IsSign (signText isNegative) isNegative := by
  cases isNegative with
  | true => exact .minus
  | false => exact .none

section Reading

variable {isNegative : Bool} {whole fraction tail : Text}
  (hwhole : ∀ c ∈ whole, Text.isDigit c) (hfraction : ∀ c ∈ fraction, Text.isDigit c)
  (hne : whole ≠ [] ∨ fraction ≠ [])
include hwhole hfraction hne

theorem isMantissa_decimal
    : IsMantissa (whole ++ if fraction.isEmpty then [] else '.' :: fraction) whole fraction := by
  cases hempty : fraction.isEmpty with
  | true =>
      obtain rfl := List.isEmpty_iff.mp hempty
      rw [if_pos rfl, List.append_nil]
      exact .whole hwhole (hne.resolve_right (by simp))
  | false => exact .point hwhole hfraction hne

/-- The text of a decimal is a token. -/
theorem isToken_decimalText
    : IsToken (decimalText isNegative whole fraction) ⟨isNegative, whole, fraction, 0⟩ := by
  have htoken := IsToken.intro (isSign_signText isNegative) (isMantissa_decimal hwhole hfraction hne)
    .none
  rwa [List.append_nil] at htoken

/-- The text of a decimal is read back in front of a text that does not go on with it. -/
theorem read?_decimalText (hdigit : Stops Text.isDigit tail)
    (hpoint : fraction = [] → Stops (· == '.') tail) (hexponent : Stops isExponentMark tail)
    : read? (decimalText isNegative whole fraction ++ tail)
      = some (⟨isNegative, whole, fraction, 0⟩, tail) := by
  rw [decimalText, List.append_assoc,
    (isSign_signText isNegative).read? (isMantissa_decimal hwhole hfraction hne) hdigit hpoint,
    readExponent_of_stops hexponent]

end Reading

/-- A zero behind a fraction goes on with it, without another number coming of it. -/
theorem exists_read?_decimalText_zero {isNegative : Bool} {whole fraction tail : Text}
    (hwhole : ∀ c ∈ whole, Text.isDigit c) (hfraction : ∀ c ∈ fraction, Text.isDigit c)
    (hne : fraction ≠ []) (htail : tail.head? = some '.')
    : ∃ n, read? (decimalText isNegative whole fraction ++ '0' :: tail) = some (n, tail)
      ∧ n.toRat = toRat ⟨isNegative, whole, fraction, 0⟩ := by
  have htext : decimalText isNegative whole fraction ++ '0' :: tail
      = decimalText isNegative whole (fraction ++ ['0']) ++ tail := by
    simp [decimalText, hne]
  have hstops {p : Char → Bool} (hp : p '.' = false) : Stops p tail := by
    intro c hc
    rw [htail, Option.mem_def, Option.some.injEq] at hc
    rwa [← hc]
  refine ⟨⟨isNegative, whole, fraction ++ ['0'], 0⟩, ?_, toRat_append_zero⟩
  rw [htext]
  have hdigits : ∀ c ∈ fraction ++ ['0'], Text.isDigit c :=
    List.forall_mem_append.mpr
      ⟨hfraction, List.forall_mem_singleton.mpr (isDigit_of_isDigit (by decide))⟩
  exact read?_decimalText hwhole hdigits (.inr (by simp)) (hstops (by decide))
    (fun h => absurd h (by simp)) (hstops (by decide))

-----------------------------------------------------------------------------------------
-- Shortening in a text
-----------------------------------------------------------------------------------------

section ShortenAll

variable {precision : Int} {s out : Text}

theorem shortenAll_nil : shortenAll precision [] = .ok [] := by
  rw [shortenAll, Scanner.pieces_nil]
  rfl

theorem shortenAll_eq_ok
    : shortenAll precision s = .ok out
      ↔ ∃ parts, (scanner.pieces s).mapM (shortenPiece precision) = .ok parts
        ∧ parts.flatten = out := by
  rw [shortenAll]
  cases (scanner.pieces s).mapM (shortenPiece precision) <;> simp [Except.map]

/-- What is no numeral stays as it is. -/
theorem shortenAll_cons {c : Char} (hc : read? (c :: s) = none)
    (h : shortenAll precision s = .ok out)
    : shortenAll precision (c :: s) = .ok (c :: out) := by
  obtain ⟨parts, hparts, rfl⟩ := shortenAll_eq_ok.mp h
  refine shortenAll_eq_ok.mpr ⟨[c] :: parts, ?_, rfl⟩
  rw [scanner.pieces_of_read_none hc, List.mapM_cons, hparts]
  rfl

/-- A numeral is shortened. -/
theorem shortenAll_of_read? {n : Numeral} {rest text : Text} (hread : read? s = some (n, rest))
    (htext : shorten precision n.value = .ok text) (h : shortenAll precision rest = .ok out)
    : shortenAll precision s = .ok (text ++ out) := by
  obtain ⟨parts, hparts, rfl⟩ := shortenAll_eq_ok.mp h
  refine shortenAll_eq_ok.mpr ⟨text :: parts, ?_, rfl⟩
  rw [scanner.pieces_of_read hread, List.mapM_cons, hparts, shortenPiece, htext]
  rfl

end ShortenAll

end Numeral

end SvgKit
