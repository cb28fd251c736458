import Mathlib.Data.Bool.AllAny
import SvgKit.Number.Numeral
import SvgKit.Proofs.Text.Ascii
import SvgKit.Proofs.Text.Splitting

/-! Numerals at the head of a text. What is read as a numeral is a token: a sign, a mantissa and a power
of ten. It is read as far as it reaches, so what it is depends on what follows it only by the first
character there.
-/

namespace SvgKit.Numeral

-----------------------------------------------------------------------------------------
-- Characters
-----------------------------------------------------------------------------------------

/-- The letters that may stand in front of a power of ten. -/
def isExponentMark (c : Char) : Bool := c == 'e' || c == 'E'

/-- A character of numerals. -/
def isNumeralChar (c : Char) : Bool :=
  Text.isDigit c || c == '.' || c == '-' || c == '+' || isExponentMark c

/-- No digit is a blank or a letter. -/
theorem of_isDigit {c : Char} (h : Text.isDigit c) : Text.isBlank c = false ∧ c.isAlpha = false := by
  constructor
  · have hascii : ∀ n < 128, Text.isBlank (Char.ofNat n) → !Text.isDigit (Char.ofNat n) := by
      with_unfolding_all decide
    have hwide : Text.wideBlanks.all fun c => !Text.isDigit c := by decide
    refine Bool.eq_false_iff.mpr fun hblank => ?_
    have hdigit := Text.of_isBlank hascii hwide hblank
    rw [h] at hdigit
    cases hdigit
  · have hascii : ∀ n < 128, (Char.ofNat n).isAlpha → !Text.isDigit (Char.ofNat n) := by
      with_unfolding_all decide
    refine Bool.eq_false_iff.mpr fun hletter => ?_
    have hdigit := Text.forall_ascii (P := fun c => c.isAlpha → !Text.isDigit c) hascii
      (Text.lt_of_isAlpha hletter) hletter
    rw [h] at hdigit
    cases hdigit

theorem isAlpha_of_isNumeralChar {c : Char} (h : isNumeralChar c)
    (hmark : isExponentMark c = false)
    : c.isAlpha = false := by
  rw [isNumeralChar, hmark, Bool.or_false, Bool.or_eq_true, Bool.or_eq_true, Bool.or_eq_true,
    beq_iff_eq, beq_iff_eq, beq_iff_eq] at h
  rcases h with ((hdigit | rfl) | rfl) | rfl
  · exact (of_isDigit hdigit).2
  all_goals decide

theorem isBlank_of_isNumeralChar {c : Char} (h : isNumeralChar c)
    : Text.isBlank c = false := by
  rw [isNumeralChar, isExponentMark, Bool.or_eq_true, Bool.or_eq_true, Bool.or_eq_true,
    Bool.or_eq_true, Bool.or_eq_true, beq_iff_eq, beq_iff_eq, beq_iff_eq, beq_iff_eq, beq_iff_eq] at h
  rcases h with (((hdigit | rfl) | rfl) | rfl) | rfl | rfl
  · exact (of_isDigit hdigit).1
  all_goals decide

theorem readSign_append {s : Text} (hs : s ≠ []) (rest : Text)
    : readSign (s ++ rest) = ((readSign s).1, (readSign s).2 ++ rest) := by
  obtain ⟨c, s, rfl⟩ := List.exists_cons_of_ne_nil hs
  rw [List.cons_append]
  unfold readSign
  split
  · next heq =>
      cases heq
      rfl
  · next heq =>
      cases heq
      rfl
  · next hminus hplus =>
      split
      · next heq => exact absurd (congrArg (· ++ rest) heq) (hminus _)
      · next heq => exact absurd (congrArg (· ++ rest) heq) (hplus _)
      · rfl

theorem readSign_of_ne {c : Char} (hc : c ≠ '-' ∧ c ≠ '+') (s : Text)
    : readSign (c :: s) = (false, c :: s) := by
  unfold readSign
  split
  · next heq => exact absurd (List.cons.inj heq).1 hc.1
  · next heq => exact absurd (List.cons.inj heq).1 hc.2
  · rfl

/-- What does not begin with a sign, a digit or a point is no numeral. -/
theorem read?_eq_none {c : Char} (hsign : c ≠ '-' ∧ c ≠ '+') (hpoint : c ≠ '.')
    (hdigit : Text.isDigit c = false) (s : Text)
    : read? (c :: s) = none := by
  have hunsigned := readSign_of_ne hsign s
  have hdigits : readDigits (c :: s) = ([], c :: s) := by
    have hstops : Stops Text.isDigit (c :: s) := by
      rintro _ ⟨⟩
      exact hdigit
    rw [readDigits, hstops.takeWhile, hstops.dropWhile]
  have hmantissa : readMantissa? (c :: s) = none := by
    rw [readMantissa?, hdigits]
    dsimp only
    split
    · next heq => exact absurd (List.cons.inj heq).1 hpoint
    · rfl
  rw [read?, hunsigned]
  dsimp only
  rw [hmantissa]

theorem isNumeralChar_of_isDigit {c : Char} (h : Text.isDigit c) : isNumeralChar c := by
  simp [isNumeralChar, h]

/-- A digit is no sign. -/
theorem ne_sign_of_isDigit {c : Char} (h : Text.isDigit c) : c ≠ '-' ∧ c ≠ '+' := by
  constructor <;>
  · rintro rfl
    exact absurd h (by decide)

theorem eq_readDigits (s : Text) : s = (readDigits s).1 ++ (readDigits s).2 :=
  List.takeWhile_append_dropWhile.symm

theorem isDigit_of_mem_readDigits {s : Text} {c : Char} (h : c ∈ (readDigits s).1) : Text.isDigit c :=
  List.mem_takeWhile_imp h

theorem readDigits_of_stops {digits rest : Text} (h : ∀ c ∈ digits, Text.isDigit c)
    (hrest : Stops Text.isDigit rest)
    : readDigits (digits ++ rest) = (digits, rest) := by
  rw [readDigits, takeWhile_append_stops h hrest, dropWhile_append_stops h hrest]

/-- Characters of numerals, the last of which is a digit or a point. -/
structure IsNumeralText (s : Text) : Prop where
  isNumeralChar : ∀ c ∈ s, isNumeralChar c
  last : ∀ c ∈ s.getLast?, Text.isDigit c ∨ c = '.'

section NumeralText

variable {s t : Text}

theorem isNumeralText_of_isDigit (h : ∀ c ∈ s, Text.isDigit c) : IsNumeralText s :=
  ⟨fun c hc => isNumeralChar_of_isDigit (h c hc), fun c hc => .inl (h c (List.mem_of_getLast? hc))⟩

theorem IsNumeralText.append (hs : IsNumeralText s) (ht : IsNumeralText t) : IsNumeralText (s ++ t) := by
  refine ⟨List.forall_mem_append.mpr ⟨hs.isNumeralChar, ht.isNumeralChar⟩, fun c hc => ?_⟩
  rw [List.getLast?_append, Option.mem_def, Option.or_eq_some_iff] at hc
  exact hc.elim (ht.last c) fun h => hs.last c h.2

theorem IsNumeralText.append_left (hs : ∀ c ∈ s, Numeral.isNumeralChar c) (ht : IsNumeralText t)
    (hne : t ≠ [])
    : IsNumeralText (s ++ t) := by
  refine ⟨List.forall_mem_append.mpr ⟨hs, ht.isNumeralChar⟩, fun c hc => ht.last c ?_⟩
  rwa [List.getLast?_append_of_ne_nil _ hne] at hc

end NumeralText

-----------------------------------------------------------------------------------------
-- Tokens
-----------------------------------------------------------------------------------------

/-- A sign, or none, and whether it is a minus. -/
inductive IsSign : Text → Bool → Prop where
  | none : IsSign [] false
  | plus : IsSign ['+'] false
  | minus : IsSign ['-'] true

/-- Digits before and after a point: there may be none on one side, and without digits after it the
point may be left out.
-/
inductive IsMantissa : Text → Text → Text → Prop where
  | whole {whole : Text} (hwhole : ∀ c ∈ whole, Text.isDigit c) (hne : whole ≠ [])
    : IsMantissa whole whole []
  | point {whole fraction : Text} (hwhole : ∀ c ∈ whole, Text.isDigit c)
      (hfraction : ∀ c ∈ fraction, Text.isDigit c) (hne : whole ≠ [] ∨ fraction ≠ [])
    : IsMantissa (whole ++ '.' :: fraction) whole fraction

/-- A power of ten behind a mark, or none. -/
inductive IsPower : Text → Int → Prop where
  | none : IsPower [] 0
  | power {mark : Char} {sign digits : Text} {negative : Bool} (hmark : mark = 'e' ∨ mark = 'E')
      (hsign : IsSign sign negative) (hdigits : ∀ c ∈ digits, Text.isDigit c) (hne : digits ≠ [])
    : IsPower (mark :: (sign ++ digits))
      (if negative then -(digitsValue digits : Int) else digitsValue digits)

/-- The text of a numeral: it has a sign, a mantissa and a power of ten. -/
inductive IsToken : Text → Numeral → Prop where
  | intro {sign mantissa power whole fraction : Text} {negative : Bool} {exponent : Int}
      (hsign : IsSign sign negative) (hmantissa : IsMantissa mantissa whole fraction)
      (hpower : IsPower power exponent)
    : IsToken (sign ++ (mantissa ++ power)) ⟨negative, whole, fraction, exponent⟩

section Token

variable {sign mantissa power whole fraction token tail : Text} {negative : Bool} {exponent : Int}
  {n : Numeral}

theorem IsSign.readSign (h : IsSign sign negative) (htail : ∀ c ∈ tail.head?, c ≠ '-' ∧ c ≠ '+')
    : readSign (sign ++ tail) = (negative, tail) := by
  cases h with
  | none =>
      cases tail with
      | nil => rfl
      | cons c tail => exact readSign_of_ne (htail c rfl) tail
  | plus => rfl
  | minus => rfl

/-- A mantissa begins with a digit or a point. -/
theorem IsMantissa.head_append (h : IsMantissa mantissa whole fraction)
    : ∀ c ∈ (mantissa ++ tail).head?, c ≠ '-' ∧ c ≠ '+' := by
  cases h with
  | whole hwhole hne =>
      obtain ⟨d, whole, rfl⟩ := List.exists_cons_of_ne_nil hne
      rintro _ ⟨⟩
      exact ne_sign_of_isDigit (hwhole d List.mem_cons_self)
  | point hwhole =>
      cases whole with
      | nil =>
          rintro _ ⟨⟩
          decide
      | cons d whole =>
          rintro _ ⟨⟩
          exact ne_sign_of_isDigit (hwhole d List.mem_cons_self)

/-- A mantissa is read in front of a text that does not go on with it. -/
theorem IsMantissa.readMantissa? (h : IsMantissa mantissa whole fraction)
    (hdigit : Stops Text.isDigit tail) (hpoint : fraction = [] → Stops (· == '.') tail)
    : readMantissa? (mantissa ++ tail) = some ((whole, fraction), tail) := by
  cases h with
  | whole hwhole hne =>
      rw [Numeral.readMantissa?, readDigits_of_stops hwhole hdigit]
      dsimp only
      split
      · have hstops := hpoint rfl '.' rfl
        cases hstops
      · rw [if_neg (by simpa using hne)]
  | point hwhole hfraction hne =>
      have hstops : Stops Text.isDigit ('.' :: (fraction ++ tail)) := by
        rintro _ ⟨⟩
        decide
      rw [List.append_assoc, List.cons_append, Numeral.readMantissa?,
        readDigits_of_stops hwhole hstops]
      dsimp only
      split
      · next after heq =>
          obtain rfl : fraction ++ tail = after := (List.cons.inj heq).2
          rw [readDigits_of_stops hfraction hdigit]
          dsimp only
          rw [if_neg (by simpa [← not_and_or] using hne)]
      · next hpoint => exact absurd rfl (hpoint (fraction ++ tail))

/-- A sign and a mantissa are read in front of a text that does not go on with them. -/
theorem IsSign.read? (hsign : IsSign sign negative) (h : IsMantissa mantissa whole fraction)
    (hdigit : Stops Text.isDigit tail) (hpoint : fraction = [] → Stops (· == '.') tail)
    : read? (sign ++ (mantissa ++ tail))
      = some (⟨negative, whole, fraction, (readExponent tail).1⟩, (readExponent tail).2) := by
  rw [Numeral.read?, hsign.readSign h.head_append]
  dsimp only
  rw [h.readMantissa? hdigit hpoint]

theorem IsPower.stops {p : Char → Bool} (hp : p 'e' = false ∧ p 'E' = false)
    (h : IsPower power exponent)
    : Stops p power := by
  cases h with
  | none => simp [Stops]
  | power hmark =>
      rintro _ ⟨⟩
      rcases hmark with rfl | rfl
      · exact hp.1
      · exact hp.2

theorem IsPower.readExponent (h : IsPower power exponent) : readExponent power = (exponent, []) := by
  cases h with
  | none => rfl
  | @power mark sign digits negative hmark hsign hdigits hne =>
      have hhead : ∀ c ∈ digits.head?, c ≠ '-' ∧ c ≠ '+' := fun c hc =>
        ne_sign_of_isDigit (hdigits c (List.mem_of_head? hc))
      have hread : readDigits (digits ++ []) = (digits, []) :=
        readDigits_of_stops hdigits (by simp [Stops])
      rw [List.append_nil] at hread
      rw [Numeral.readExponent, if_pos (by simpa using hmark), hsign.readSign hhead]
      dsimp only
      rw [hread]
      dsimp only
      rw [if_neg (by simpa using hne)]

/-- A token is read in full. -/
theorem IsToken.read? (h : IsToken token n) : read? token = some (n, []) := by
  cases h with
  | intro hsign hmantissa hpower =>
      rw [hsign.read? hmantissa (hpower.stops (by decide)) fun _ => hpower.stops (by decide),
        hpower.readExponent]

theorem exists_of_readSign (s : Text)
    : ∃ sign, s = sign ++ (readSign s).2 ∧ IsSign sign (readSign s).1 := by
  unfold readSign
  split
  · exact ⟨['-'], rfl, .minus⟩
  · exact ⟨['+'], rfl, .plus⟩
  · exact ⟨[], rfl, .none⟩

theorem exists_of_readMantissa? {s : Text} (h : readMantissa? s = some ((whole, fraction), tail))
    : ∃ mantissa, s = mantissa ++ tail ∧ IsMantissa mantissa whole fraction := by
  have hs := eq_readDigits s
  unfold readMantissa? at h
  dsimp only at h
  split at h
  · next after hafter =>
      have hfraction := eq_readDigits after
      split at h
      · cases h
      · next hne =>
          cases h
          refine ⟨_, ?_, .point (fun _ => isDigit_of_mem_readDigits)
            (fun _ => isDigit_of_mem_readDigits) ?_⟩
          · rw [List.append_assoc, List.cons_append, ← hfraction, ← hafter, ← hs]
          · simpa [← not_and_or] using hne
  · split at h
    · cases h
    · next hne =>
        cases h
        exact ⟨_, hs, .whole (fun _ => isDigit_of_mem_readDigits) (by simpa using hne)⟩

theorem exists_of_readExponent (s : Text)
    : ∃ power, s = power ++ (readExponent s).2 ∧ IsPower power (readExponent s).1 := by
  have hnone : ∃ power, s = power ++ s ∧ IsPower power 0 := ⟨[], rfl, .none⟩
  unfold readExponent
  split
  · exact hnone
  · next c after =>
      split
      · next hc =>
          obtain ⟨sign, hsign, hsignText⟩ := exists_of_readSign after
          have hdigits := eq_readDigits (readSign after).2
          dsimp only
          split
          · exact hnone
          · next hne =>
              refine ⟨_, ?_, .power (by simpa using hc) hsignText
                (fun _ => isDigit_of_mem_readDigits) (by simpa using hne)⟩
              rw [List.cons_append, List.append_assoc, ← hdigits, ← hsign]
      · exact hnone

/-- What is read as a numeral is a token. -/
theorem exists_of_read? {s : Text} (h : read? s = some (n, tail))
    : ∃ token, s = token ++ tail ∧ IsToken token n := by
  unfold read? at h
  dsimp only at h
  split at h
  · cases h
  · next left hmantissa =>
      cases h
      obtain ⟨sign, hsign, hsignText⟩ := exists_of_readSign s
      obtain ⟨mantissa, hm, hmantissaText⟩ := exists_of_readMantissa? hmantissa
      obtain ⟨power, hpower, hpowerText⟩ := exists_of_readExponent left
      refine ⟨_, ?_, .intro hsignText hmantissaText hpowerText⟩
      rw [List.append_assoc, List.append_assoc, ← hpower, ← hm, ← hsign]

theorem read?_eq_some_iff : read? token = some (n, []) ↔ IsToken token n := by
  refine ⟨fun h => ?_, IsToken.read?⟩
  obtain ⟨token, rfl, htoken⟩ := exists_of_read? h
  rwa [List.append_nil]

theorem IsSign.isNumeralChar (h : IsSign sign negative) : ∀ c ∈ sign, isNumeralChar c := by
  cases h <;> simp [Numeral.isNumeralChar]

theorem IsMantissa.ne_nil (h : IsMantissa mantissa whole fraction) : mantissa ≠ [] := by
  cases h with
  | whole _ hne => exact hne
  | point => simp

theorem IsMantissa.isNumeralText (h : IsMantissa mantissa whole fraction)
    : IsNumeralText mantissa := by
  cases h with
  | whole hwhole => exact isNumeralText_of_isDigit hwhole
  | point hwhole hfraction =>
      have hpoint : IsNumeralText ['.'] := ⟨List.forall_mem_singleton.mpr (by decide), by simp⟩
      exact (isNumeralText_of_isDigit hwhole).append
        (hpoint.append (isNumeralText_of_isDigit hfraction))

theorem IsPower.isNumeralText (h : IsPower power exponent) : IsNumeralText power := by
  cases h with
  | none => exact ⟨by simp, by simp⟩
  | power hmark hsign hdigits hne =>
      rw [← List.cons_append]
      refine .append_left (List.forall_mem_cons.mpr ⟨?_, hsign.isNumeralChar⟩)
        (isNumeralText_of_isDigit hdigits) hne
      rcases hmark with rfl | rfl <;> decide

theorem IsToken.isNumeralText (h : IsToken token n) : IsNumeralText token := by
  cases h with
  | intro hsign hmantissa hpower =>
      exact .append_left hsign.isNumeralChar (hmantissa.isNumeralText.append hpower.isNumeralText)
        (by simp [hmantissa.ne_nil])

theorem isNumeralText_of_read? (h : read? (token ++ tail) = some (n, tail)) : IsNumeralText token := by
  obtain ⟨_, heq, htoken⟩ := exists_of_read? h
  rw [List.append_cancel_right heq]
  exact htoken.isNumeralText

end Token

-----------------------------------------------------------------------------------------
-- What follows
-----------------------------------------------------------------------------------------

/-- What ends a numeral in front of one text ends it in front of the other one. -/
structure EndsAlike (rest out : Text) : Prop where
  digit : Stops Text.isDigit rest → Stops Text.isDigit out
  point : Stops (· == '.') rest → Stops (· == '.') out
  exponent : Stops isExponentMark out

section Following

variable {text rest out left : Text}

theorem endsAlike_of_head (hhead : out.head? = rest.head?) (hexponent : Stops isExponentMark out)
    : EndsAlike rest out :=
  ⟨fun h => by rwa [Stops, hhead], fun h => by rwa [Stops, hhead], hexponent⟩

theorem endsAlike_of_stops (hdigit : Stops Text.isDigit out) (hpoint : Stops (· == '.') out)
    (hexponent : Stops isExponentMark out)
    : EndsAlike rest out :=
  ⟨fun _ => hdigit, fun _ => hpoint, hexponent⟩

theorem stops_append_of {p : Char → Bool} (hout : Stops p rest → Stops p out)
    (h : Stops p (left ++ rest))
    : Stops p (left ++ out) := by
  cases left with
  | nil => exact hout h
  | cons c left => exact fun d hd => h d hd

theorem readDigits_append (hdigit : Stops Text.isDigit rest → Stops Text.isDigit out)
    (h : (readDigits (text ++ rest)).2 = left ++ rest)
    : readDigits (text ++ out) = ((readDigits (text ++ rest)).1, left ++ out) := by
  have hsplit := eq_readDigits (text ++ rest)
  have hdigits : ∀ c ∈ (readDigits (text ++ rest)).1, Text.isDigit c := fun c hc =>
    List.mem_takeWhile_imp hc
  have hstops : Stops Text.isDigit (left ++ rest) := by
    rw [← h]
    exact stops_dropWhile
  rw [h, ← List.append_assoc] at hsplit
  generalize (readDigits (text ++ rest)).1 = digits at *
  obtain rfl := List.append_cancel_right hsplit
  rw [List.append_assoc, readDigits_of_stops hdigits (stops_append_of hdigit hstops)]

theorem readMantissa?_append {m : Text × Text} (hends : EndsAlike rest out)
    (h : readMantissa? (text ++ rest) = some (m, left ++ rest))
    : readMantissa? (text ++ out) = some (m, left ++ out) := by
  unfold readMantissa? at h ⊢
  dsimp only at h ⊢
  split at h
  · next after hafter =>
      split at h
      · cases h
      · next hne =>
          simp only [Option.some.injEq, Prod.mk.injEq] at h
          obtain ⟨hm, hleft⟩ := h
          -- The point belongs to the numeral, because what is left behind it contains the rest.
          obtain ⟨inner, hinner⟩ : ∃ inner, after = inner ++ rest := by
            obtain ⟨t, ht⟩ := readDigits_suffix after
            rw [hleft, ← List.append_assoc] at ht
            exact ⟨_, ht.symm⟩
          subst hinner
          have hwhole := @readDigits_append text rest out ('.' :: inner) hends.digit hafter
          rw [hwhole]
          dsimp only
          split
          · next after heq =>
              obtain rfl : inner ++ out = after := (List.cons.inj heq).2
              rw [readDigits_append hends.digit hleft, if_neg hne, ← hm]
          · next hpoint => exact absurd rfl (hpoint (inner ++ out))
  · next hpoint =>
      split at h
      · cases h
      · next hne =>
          simp only [Option.some.injEq, Prod.mk.injEq] at h
          obtain ⟨rfl, hleft⟩ := h
          have hstops : Stops (· == '.') (left ++ out) := by
            refine stops_append_of hends.point ?_
            rw [← hleft]
            intro c hc
            rw [beq_eq_false_iff_ne]
            rintro rfl
            obtain ⟨s, hs⟩ := List.head?_eq_some_iff.mp hc
            exact hpoint s hs
          rw [readDigits_append hends.digit hleft]
          dsimp only
          split
          · next after heq =>
              rw [heq] at hstops
              have := hstops '.' rfl
              cases this
          · rw [if_neg hne]

/-- No power of ten is read where nothing is left out. -/
theorem readExponent_of_eq {s : Text} {e : Int} (h : readExponent s = (e, s)) : e = 0 := by
  unfold readExponent at h
  split at h
  · cases h
    rfl
  · next c after =>
      split at h
      · dsimp only at h
        split at h
        · cases h
          rfl
        · simp only [Prod.mk.injEq] at h
          have hle := ((readDigits_suffix (readSign after).2).trans (readSign_suffix after)).length_le
          rw [h.2, List.length_cons] at hle
          omega
      · cases h
        rfl

theorem readExponent_of_stops {s : Text} (hs : Stops isExponentMark s) : readExponent s = (0, s) := by
  cases s with
  | nil => rfl
  | cons c s =>
      have hc := hs c rfl
      rw [isExponentMark, Bool.or_eq_false_iff, beq_eq_false_iff_ne, beq_eq_false_iff_ne] at hc
      rw [readExponent, if_neg (by simp [hc.1, hc.2])]

theorem readExponent_append {e : Int} (hends : EndsAlike rest out)
    (h : readExponent (text ++ rest) = (e, rest))
    : readExponent (text ++ out) = (e, out) := by
  cases text with
  | nil =>
      rw [List.nil_append] at h ⊢
      rw [readExponent_of_stops hends.exponent, readExponent_of_eq h]
  | cons c text =>
      have hlonger : c :: (text ++ rest) ≠ rest := fun heq => by
        have := congrArg List.length heq
        simp only [List.length_cons, List.length_append] at this
        omega
      rw [List.cons_append, readExponent] at h ⊢
      split at h
      · next hc =>
          rw [if_pos hc]
          dsimp only at h ⊢
          split at h
          · exact absurd (congrArg Prod.snd h) hlonger
          · next hne =>
              simp only [Prod.mk.injEq] at h
              obtain ⟨he, hrest⟩ := h
              have htext : text ≠ [] := by
                rintro rfl
                rw [List.nil_append] at hne hrest
                have hlt := length_readDigits_lt (by simpa using hne)
                have hle := (readSign_suffix rest).length_le
                rw [hrest] at hlt
                omega
              rw [readSign_append htext] at hne he hrest ⊢
              have hdigits := @readDigits_append _ rest out [] hends.digit hrest
              dsimp only at hne he hdigits ⊢
              rw [hdigits]
              dsimp only
              rw [if_neg hne, ← he]
              rfl
      · exact absurd (congrArg Prod.snd h) hlonger

/-- A numeral is read alike in front of texts that end it alike. -/
theorem read?_append {n : Numeral} (hends : EndsAlike rest out)
    (h : read? (text ++ rest) = some (n, rest))
    : read? (text ++ out) = some (n, out) := by
  have htext : text ≠ [] := by
    rintro rfl
    exact absurd (length_read? h) (Nat.lt_irrefl _)
  unfold read? at h ⊢
  rw [readSign_append htext] at h ⊢
  dsimp only at h ⊢
  split at h
  · cases h
  · next whole fraction left hmantissa =>
      simp only [Option.some.injEq, Prod.mk.injEq] at h
      obtain ⟨rfl, hrest⟩ := h
      obtain ⟨inner, hinner⟩ : ∃ inner, left = inner ++ rest := by
        obtain ⟨t, ht, -⟩ := exists_of_readExponent left
        exact ⟨t, by rw [hrest] at ht; exact ht⟩
      subst hinner
      have hexponent := readExponent_append hends (Prod.ext (rfl : _ = _) hrest)
      rw [readMantissa?_append hends hmantissa]
      dsimp only
      rw [hexponent]

end Following

end SvgKit.Numeral
