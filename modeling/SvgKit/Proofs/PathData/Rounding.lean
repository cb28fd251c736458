import SvgKit.Minify.Attributes
import SvgKit.Proofs.Number.Decimal
import SvgKit.Proofs.PathData.Arcs

/-! Rounding the numbers of path data and of lists of numbers. A rounded number is written without an
exponent and without zeros that it does not need, so that what ended it may be gone: numbers that
stand together without a separator are still told apart if the second one keeps its sign, or if both
keep a point and the second one is less than one.
-/

namespace SvgKit

namespace Numeral

open Nat (ofDigitChars)

/-- The number that a numeral is rounded to; none if it is beyond all floating point numbers. -/
def rounded? (places : Nat) (n : Numeral) : Option ℚ := n.value.toRat?.map (roundPlaces places)

/-- The text of a rounded number is a decimal with the digits of the number. -/
theorem exists_shorten_of_rounded? {places : Nat} {n : Numeral} {q : ℚ}
    (h : n.rounded? places = some q)
    : ∃ (isNegative : Bool) (k : Nat) (whole fraction : Text), IsDecimal places k whole fraction
      ∧ (isNegative → k ≠ 0) ∧ q = Binary64.sign isNegative * (k / 10 ^ places)
      ∧ shorten places n.value = .ok (decimalText isNegative whole fraction) := by
  obtain ⟨r, hr, rfl⟩ := Option.map_eq_some_iff.mp h
  exact exists_shorten_eq places (Binary64.inRange_ofDecimal _ _ _) (Binary64.hasBits_ofDecimal _ _ _) hr

section Shape

variable {places k : Nat} {isNegative : Bool} {whole fraction : Text}
  (hdecimal : IsDecimal places k whole fraction)
include hdecimal

/-- A number with a fraction keeps it. -/
theorem IsDecimal.fraction_ne_nil
    (hfraction : (Binary64.sign isNegative * (k / 10 ^ places)).isInt = false)
    : fraction ≠ [] := by
  rintro rfl
  have hwhole : (k : ℚ) / 10 ^ places = ofDigitChars 10 whole 0 := by
    have hvalue := hdecimal.value
    rw [List.append_nil, List.length_nil, Nat.sub_zero] at hvalue
    rw [← hvalue, Nat.cast_mul, Nat.cast_pow, Nat.cast_ofNat, mul_div_cancel_left₀ _ (by positivity)]
  have hint : Binary64.sign isNegative * (k / 10 ^ places)
      = ((if isNegative then -1 else 1) * ofDigitChars 10 whole 0 : ℤ) := by
    rw [hwhole, Binary64.sign]
    split <;> push_cast <;> rfl
  rw [hint, Rat.isInt, Rat.den_intCast] at hfraction
  cases hfraction

/-- A number between zero and one is written with a single zero in front of its fraction. -/
theorem IsDecimal.of_lt_one (hpos : 0 < Binary64.sign isNegative * ((k : ℚ) / 10 ^ places))
    (hone : Binary64.sign isNegative * ((k : ℚ) / 10 ^ places) < 1)
    : isNegative = false ∧ whole = ['0'] ∧ fraction ≠ [] := by
  have hscale : (0 : ℚ) < 10 ^ places := by positivity
  cases isNegative with
  | true =>
      have hle : (0 : ℚ) ≤ k / 10 ^ places := by positivity
      rw [Binary64.sign, if_pos rfl] at hpos
      linarith
  | false =>
      rw [Binary64.sign, if_neg Bool.false_ne_true, one_mul] at hpos hone
      rw [div_lt_one hscale] at hone
      have hwhole := hdecimal.whole_eq (by exact_mod_cast hone)
      refine ⟨rfl, hwhole, ?_⟩
      rintro rfl
      have hvalue := hdecimal.value
      have hzero : ofDigitChars 10 (['0'] ++ []) 0 = 0 := by decide
      rw [hwhole, hzero, mul_zero] at hvalue
      rw [← hvalue, Nat.cast_zero, zero_div] at hpos
      exact lt_irrefl _ hpos

omit hdecimal in
theorem mem_decimalText {c : Char} (hc : c ∈ decimalText isNegative whole fraction)
    : c = '-' ∨ c = '.' ∨ c ∈ whole ∨ c ∈ fraction := by
  have hsign : ∀ c ∈ signText isNegative, c = '-' := by cases isNegative <;> simp [signText]
  rw [decimalText, List.mem_append, List.mem_append] at hc
  rcases hc with hc | hc | hc
  · exact .inl (hsign c hc)
  · exact .inr (.inr (.inl hc))
  · split at hc
    · cases hc
    · exact .inr ((List.mem_cons.mp hc).imp_right .inr)

theorem lt_of_mem_decimalText : ∀ c ∈ decimalText isNegative whole fraction, c.val < 128 := by
  intro c hc
  rcases mem_decimalText hc with rfl | rfl | hc | hc
  · decide
  · decide
  · exact lt_of_isDigit (hdecimal.whole_digits c hc)
  · exact lt_of_isDigit (hdecimal.fraction_digits c hc)

end Shape

end Numeral

namespace PathData

open Numeral

-----------------------------------------------------------------------------------------
-- Compaction
-----------------------------------------------------------------------------------------

/-- What compaction puts for a separator in front of a character: a separator that is empty only if
there was none, if nothing but a letter stands in front, or if a letter or a minus sign follows.
-/
structure KeepsSeparator (last : Option Char) (separator : Text) (c : Char) (separator' : Text)
    : Prop where
  isSeparator : ∀ x ∈ separator', isSeparator x
  count_le : separator'.count ',' ≤ separator.count ','
  eq_nil : separator = [] → separator' = []
  of_eq_nil : separator' = [] → separator = [] ∨ last.all (·.isAlpha) ∨ c.isAlpha ∨ c = '-'

/-- Compaction changes separators only, and leaves none out that is needed. -/
structure Compacts (f : Option Char → Text → Text) : Prop where
  blank {last : Option Char} {s : Text} (hs : ∀ c ∈ s, isSeparator c) (hcount : s.count ',' = 0)
    : f last s = []
  word (last : Option Char) {separator : Text} {c : Char} {word : Text}
    (hseparator : ∀ x ∈ separator, isSeparator x)
    (hword : ∀ x ∈ c :: word, Minify.isSeparator x = false) (s : Text)
    : ∃ separator', f last (separator ++ (c :: word ++ s))
        = separator' ++ (c :: word ++ f (some ((c :: word).getLast (List.cons_ne_nil _ _))) s)
      ∧ KeepsSeparator last separator c separator'
  mem {last : Option Char} {s : Text} {c : Char} (h : c ∈ f last s) : c = ' ' ∨ c ∈ s

/-- Gaps for the separators of path data are as good as these. -/
theorem compacts_path
    : Compacts fun last => Minify.respace Minify.isSeparator Minify.keepsApart last false := by
  constructor
  · intro last s hs _
    exact Minify.respace_of_forall fun c hc => isSeparator_of_isSeparator (hs c hc)
  · intro last separator c word hseparator hword s
    refine ⟨_, Minify.respace_append_word
      (fun x hx => isSeparator_of_isSeparator (hseparator x hx)) hword s, fun x hx => ?_, ?_, ?_, ?_⟩
    · rcases gap_cases last (!separator.isEmpty) c with h | h <;> rw [h] at hx
      · cases hx
      · rw [List.mem_singleton.mp hx]
        decide
    · rw [count_gap]
      exact Nat.zero_le _
    · rintro rfl
      rfl
    · intro hgap
      cases last with
      | none => exact .inr (.inl rfl)
      | some l =>
          rw [Minify.gap, Option.any_some, Minify.keepsApart] at hgap
          by_contra hnot
          simp only [not_or, Option.all_some, Bool.not_eq_true] at hnot
          simp [hnot.1, hnot.2.1, hnot.2.2.1, hnot.2.2.2] at hgap
  · intro last s c h
    exact Minify.mem_respace h

theorem isBlank_or_of_isSeparator {c : Char} (h : isSeparator c) : Text.isBlank c ∨ c = ',' := by
  have h := isSeparator_of_isSeparator h
  rwa [Minify.isSeparator, Bool.or_eq_true, beq_iff_eq] at h

theorem isBlank_of_isSeparator_eq_false {c : Char} (h : Minify.isSeparator c = false)
    : Text.isBlank c = false :=
  (Bool.or_eq_false_iff.mp h).1

/-- Single spaces for the white space in a separator leave its comma where it is, by induction over
the separator.
-/
theorem exists_respace_separator {separator : Text} (hseparator : ∀ x ∈ separator, isSeparator x)
    {c : Char} (hc : Text.isBlank c = false) (last : Option Char) (separated : Bool) (s : Text)
    : ∃ separator', Minify.respace Text.isBlank (fun _ _ => true) last separated (separator ++ c :: s)
        = separator' ++ c :: Minify.respace Text.isBlank (fun _ _ => true) (some c) false s
      ∧ (∀ x ∈ separator', isSeparator x) ∧ separator'.count ',' = separator.count ','
      ∧ (separator = [] → separated = false → separator' = [])
      ∧ (separator' = [] → separator = [] ∧ separated = false ∨ last = none) := by
  have hgap (c : Char) : Minify.gap (fun _ _ => true) last separated c = []
        ∧ (separated = false ∨ last = none)
      ∨ Minify.gap (fun _ _ => true) last separated c = [' '] ∧ separated = true := by
    cases separated <;> cases last <;> simp [Minify.gap]
  have hcomma : Text.isBlank ',' = false := by decide
  induction separator generalizing last separated with
  | nil =>
      refine ⟨_, Minify.respace_cons hc s, ?_⟩
      rcases hgap c with ⟨h, hnone⟩ | ⟨h, hseparated⟩ <;> rw [h]
      · exact ⟨by simp, rfl, fun _ _ => rfl, fun _ => hnone.imp_left fun h => ⟨rfl, h⟩⟩
      · refine ⟨List.forall_mem_singleton.mpr (by decide), rfl, fun _ hno => ?_, fun h => by cases h⟩
        rw [hseparated] at hno
        cases hno
  | cons x separator ih =>
      rw [List.forall_mem_cons] at hseparator
      rcases isBlank_or_of_isSeparator hseparator.1 with hblank | rfl
      · obtain ⟨separator', hrespace, hchars, hcount, -, hempty⟩ := ih hseparator.2 last true
          fun c => by cases last <;> simp [Minify.gap]
        have hne : x ≠ ',' := by
          rintro rfl
          rw [hcomma] at hblank
          cases hblank
        refine ⟨separator', ?_, hchars, ?_, (by simp), fun h => ?_⟩
        · rw [List.cons_append, Minify.respace_separator hblank, hrespace]
        · rw [hcount, List.count_cons_of_ne hne]
        · exact .inr ((hempty h).resolve_left fun h => by cases h.2)
      · obtain ⟨separator', hrespace, hchars, hcount, -, -⟩ := ih hseparator.2 (some ',') false
          fun c => by simp [Minify.gap]
        refine ⟨Minify.gap (fun _ _ => true) last separated ',' ++ ',' :: separator', ?_, ?_, ?_,
          (by simp), (by simp)⟩
        · rw [List.cons_append, Minify.respace_cons hcomma, hrespace, List.append_assoc]
          rfl
        · rcases hgap ',' with ⟨h, -⟩ | ⟨h, -⟩ <;> rw [h]
          · exact List.forall_mem_cons.mpr ⟨by decide, hchars⟩
          · exact List.forall_mem_cons.mpr ⟨by decide, List.forall_mem_cons.mpr ⟨by decide, hchars⟩⟩
        · rcases hgap ',' with ⟨h, -⟩ | ⟨h, -⟩ <;> rw [h] <;> simp [hcount]

/-- Single spaces for the white space in a list of numbers are as good as this. -/
theorem compacts_list
    : Compacts fun last => Minify.respace Text.isBlank (fun _ _ => true) last false := by
  constructor
  · intro last s hs hcount
    refine Minify.respace_of_forall fun c hc => ?_
    refine (isBlank_or_of_isSeparator (hs c hc)).resolve_right ?_
    rintro rfl
    exact List.count_eq_zero.mp hcount hc
  · intro last separator c word hseparator hword s
    rw [List.forall_mem_cons] at hword
    have hc := isBlank_of_isSeparator_eq_false hword.1
    obtain ⟨separator', hrespace, hchars, hcount, heq, hempty⟩ :=
      exists_respace_separator hseparator hc last false (word ++ s)
    refine ⟨separator', ?_, hchars, hcount.le, fun h => heq h rfl, fun h => ?_⟩
    · rw [List.cons_append, hrespace,
        Minify.respace_word fun x hx => isBlank_of_isSeparator_eq_false (hword.2 x hx)]
      rfl
    · rcases hempty h with h | rfl
      · exact .inl h.1
      · exact .inr (.inl rfl)
  · intro last s c h
    exact Minify.mem_respace h

-----------------------------------------------------------------------------------------
-- Rounding
-----------------------------------------------------------------------------------------

/-- An item, and what it is rounded to. -/
inductive Rounds (places : Nat) : Item → Item → Prop where
  | command (letter : Char) : Rounds places (.command letter) (.command letter)
  | number {n m : Numeral} (h : n.rounded? places = some m.toRat)
    : Rounds places (.number n) (.number m)

/-- The number at the head that has no separator in front of it. -/
def joined? : List Lexeme → Option Numeral
  | ⟨[], .number n⟩ :: _ => some n
  | _ => none

/-- A number and what follows it can be told apart once they are rounded: a separator or a command
follows, or the number that follows has a minus sign, or that number begins with a zero and a point,
and there is another point in front of it.
-/
def StaysApart (places : Nat) (n : Numeral) (more : List Lexeme) : Prop :=
  ∀ m ∈ joined? more, ∀ q ∈ n.rounded? places, ∀ r ∈ m.rounded? places,
    r < 0 ∨ 0 < r ∧ r < 1 ∧ q.isInt = false

/-- The number that an item is. -/
def Item.numeral? : Item → Option Numeral
  | .number n => some n
  | _ => none

/-- All numbers can be rounded, and can be told apart then. -/
def Apart (places : Nat) : List Lexeme → Prop
  | [] => True
  | lexeme :: more =>
    (∀ n ∈ lexeme.item.numeral?, (n.rounded? places).isSome ∧ StaysApart places n more)
      ∧ Apart places more

instance (places : Nat) (n : Numeral) (more : List Lexeme) : Decidable (StaysApart places n more) := by
  unfold StaysApart
  infer_instance

instance decidableApart (places : Nat) : (lexemes : List Lexeme) → Decidable (Apart places lexemes)
  | [] => .isTrue trivial
  | _ :: more =>
    have := decidableApart places more
    inferInstanceAs (Decidable (_ ∧ _))

/-- The text is read at a place with rounded items. -/
def Reads (places : Nat) (p : Place) (lexemes : List Lexeme) (s : Text) : Prop :=
  ∃ lexemes', p.read? s = some lexemes'
    ∧ List.Forall₂ (Rounds places) (lexemes.map (·.item)) (lexemes'.map (·.item))

/-- Every numeral ends in front of the text. -/
structure Ends (s : Text) : Prop where
  digit : Stops Text.isDigit s
  point : Stops (· == '.') s
  exponent : Stops isExponentMark s

/-- What is made of a text that is read at a place, behind a last character. In front of a number
without a sign numerals may go on; of one that is less than one they may take the zero.
-/
structure RoundsTo (places : Nat) (p : Place) (last : Option Char) (lexemes : List Lexeme)
    (s : Text) : Prop where
  reads : Reads places p lexemes s
  ends : last.any (!·.isAlpha) → (∀ n ∈ joined? lexemes, ∀ r ∈ n.rounded? places, r < 0) → Ends s
  tail : ∀ n ∈ joined? lexemes, ∀ r ∈ n.rounded? places, 0 < r → r < 1 →
    ∃ tail, s = '0' :: tail ∧ tail.head? = some '.' ∧ Reads places p lexemes tail

/-- Only arguments that are numbers can be given next, and they may have signs. -/
structure Place.IsPlain (p : Place) : Prop where
  arguments : ∀ slot ∈ p.arguments, slot = .coordinate
  missing : ∀ slot ∈ p.missing, slot = .coordinate

section Rounding

variable {places : Nat} {p next : Place} {last : Option Char} {c : Char} {separator rest s out : Text}
  {lexemes more : List Lexeme} {n : Numeral} {f : Option Char → Text → Text}

theorem read?_eq_none_of_isNumeralChar (hc : isNumeralChar c = false) (s : Text)
    : Numeral.read? (c :: s) = none := by
  rw [isNumeralChar] at hc
  simp only [Bool.or_eq_false_iff, beq_eq_false_iff_ne] at hc
  exact read?_eq_none ⟨hc.1.1.2, hc.1.2⟩ hc.1.1.1.2 hc.1.1.1.1 s

theorem isNumeralChar_of_isSeparator (h : isSeparator c) : isNumeralChar c = false := by
  by_contra hnumeral
  rw [Bool.not_eq_false] at hnumeral
  rw [isSeparator_of_isNumeralChar hnumeral] at h
  cases h

/-- Nothing is rounded in front of a numeral. -/
theorem shortenAll_append {front : Text} (hfront : ∀ c ∈ front, isNumeralChar c = false)
    (h : shortenAll places s = .ok out)
    : shortenAll places (front ++ s) = .ok (front ++ out) := by
  induction front with
  | nil => exact h
  | cons c front ih =>
      rw [List.forall_mem_cons] at hfront
      exact shortenAll_cons (read?_eq_none_of_isNumeralChar hfront.1 _) (ih hfront.2)

theorem ends_cons (hc : isNumeralChar c = false ∨ c = '-') (s : Text) : Ends (c :: s) := by
  have hnot : Text.isDigit c = false ∧ (c == '.') = false ∧ isExponentMark c = false := by
    rcases hc with hc | rfl
    · rw [isNumeralChar] at hc
      simp only [Bool.or_eq_false_iff] at hc
      exact ⟨hc.1.1.1.1, hc.1.1.1.2, hc.2⟩
    · decide
  constructor <;> rintro _ ⟨⟩
  exacts [hnot.1, hnot.2.1, hnot.2.2]

/-- Every numeral ends at a separator, or at what ends numerals behind it. -/
theorem ends_append (hseparator : ∀ c ∈ separator, isSeparator c) (hs : separator = [] → Ends s)
    : Ends (separator ++ s) := by
  cases separator with
  | nil => exact hs rfl
  | cons c separator =>
      exact ends_cons (.inl (isNumeralChar_of_isSeparator (hseparator c List.mem_cons_self))) _

theorem joined?_command (separator : Text) (c : Char) (more : List Lexeme)
    : joined? (⟨separator, .command c⟩ :: more) = none := by
  cases separator <;> rfl

/-- Only arcs have other arguments. -/
theorem isPlain_of_slots? {slots : List Slot} (hslots : slots? c = some slots)
    (harc : c ≠ 'A' ∧ c ≠ 'a')
    : ∀ slot ∈ slots, slot = .coordinate := by
  have hall : commandLetters.all fun c => c == 'A' || c == 'a'
      || (slots? c).all (·.all (· = .coordinate)) := by decide
  have hc := List.all_eq_true.mp hall c (mem_commandLetters_of_slots? hslots)
  rw [hslots, beq_false_of_ne harc.1, beq_false_of_ne harc.2] at hc
  simpa using hc

theorem Place.IsPlain.command (h : p.command? c = some next) (harc : c ≠ 'A' ∧ c ≠ 'a')
    : next.IsPlain := by
  unfold Place.command? at h
  split at h
  · obtain ⟨slots, hslots, rfl⟩ := Option.map_eq_some_iff.mp h
    exact ⟨isPlain_of_slots? hslots harc, isPlain_of_slots? hslots harc⟩
  · cases h

theorem Place.IsPlain.argument {slot : Slot} (hp : p.IsPlain) (h : p.argument? = some (slot, next))
    : slot = .coordinate ∧ next.IsPlain := by
  have hall : ∀ slot ∈ if p.missing.isEmpty then p.arguments else p.missing, slot = .coordinate := by
    split
    · exact hp.arguments
    · exact hp.missing
  unfold Place.argument? at h
  split at h
  · next hslots =>
      cases h
      rw [hslots, List.forall_mem_cons] at hall
      exact ⟨hall.1, hp.arguments, hall.2⟩
  · cases h

-----------------------------------------------------------------------------------------
-- Steps
-----------------------------------------------------------------------------------------

/-- What is read at a place where only numbers and their commands can stand. -/
theorem Place.IsPlain.takes_cases {item : Item} {text : Text} (hp : p.IsPlain)
    (harc : item ≠ .command 'A' ∧ item ≠ .command 'a') (h : p.Takes separator item next text rest)
    : next.IsPlain ∧ ((∃ c, item = .command c ∧ text = [c] ∧ p.command? c = some next
          ∧ separator.count ',' = 0)
        ∨ ∃ n, item = .number n ∧ p.argument? = some (.coordinate, next)
          ∧ p.separates .coordinate separator ∧ Numeral.read? (text ++ rest) = some (n, rest)) := by
  cases h with
  | command h hseparator =>
      exact ⟨.command h ⟨fun heq => harc.1 (congrArg _ heq), fun heq => harc.2 (congrArg _ heq)⟩,
        .inl ⟨_, rfl, rfl, h, hseparator⟩⟩
  | argument h hseparator hread =>
      obtain ⟨rfl, hnext⟩ := hp.argument h
      obtain ⟨n, rfl, hn⟩ := readNumber?_eq_some_iff.mp hread
      exact ⟨hnext, .inr ⟨n, rfl, h, hseparator, hn⟩⟩

theorem Reads.command {separator separator' : Text} (h : p.command? c = some next)
    (hchars : ∀ c ∈ separator, isSeparator c) (hseparator : separator.count ',' = 0)
    (hmore : Reads places next more s)
    : Reads places p (⟨separator', .command c⟩ :: more) (separator ++ c :: s) := by
  obtain ⟨more', hread, hitems⟩ := hmore
  refine ⟨⟨separator, .command c⟩ :: more', Place.read?_eq_cons_iff.mpr ?_, .cons (.command c) hitems⟩
  exact ⟨next, [c], s, rfl, hchars, .command h hseparator, hread⟩

theorem Reads.number {m : Numeral} {separator separator' rest : Text}
    (h : p.argument? = some (.coordinate, next)) (hchars : ∀ c ∈ separator, isSeparator c)
    (hseparator : p.separates .coordinate separator)
    (hread : Numeral.read? s = some (m, rest)) (hm : n.rounded? places = some m.toRat)
    (hmore : Reads places next more rest)
    : Reads places p (⟨separator', .number n⟩ :: more) (separator ++ s) := by
  obtain ⟨more', hrest, hitems⟩ := hmore
  obtain ⟨text, rfl, -⟩ := Numeral.exists_of_read? hread
  refine ⟨⟨separator, .number m⟩ :: more', Place.read?_eq_cons_iff.mpr ?_, .cons (.number hm) hitems⟩
  exact ⟨next, text, rest, rfl, hchars,
    .argument h hseparator (readNumber?_eq_some_iff.mpr ⟨m, rfl, hread⟩), hrest⟩

/-- A separator that has no more commas is as good. -/
theorem Place.separates_of_count_le {separator separator' : Text}
    (h : p.separates .coordinate separator) (hle : separator'.count ',' ≤ separator.count ',')
    : p.separates .coordinate separator' := by
  unfold Place.separates at h ⊢
  split at h
  · rw [decide_eq_true_eq] at h
    simp only [*, if_true, decide_eq_true_eq]
    omega
  · simp only [ne_eq, reduceCtorEq, not_false_eq_true, decide_true, Bool.true_or, Bool.and_true,
      decide_eq_true_eq] at h
    simp only [*, if_false, ne_eq, reduceCtorEq, not_false_eq_true, decide_true, Bool.true_or,
      Bool.and_true, decide_eq_true_eq]
    omega

theorem RoundsTo.nil (hmissing : p.missing = []) : RoundsTo places p last [] [] where
  reads := ⟨[], Place.read?_eq_nil_iff.mpr ⟨hmissing, by simp, rfl⟩, .nil⟩
  ends _ _ := by constructor <;> rintro _ ⟨⟩
  tail _ h := by cases h

theorem RoundsTo.command {separator' : Text} {l : Option Char} (h : p.command? c = some next)
    (hseparator : separator.count ',' = 0) (hkeeps : KeepsSeparator last separator c separator')
    (hmore : RoundsTo places next l more out)
    : RoundsTo places p last (⟨separator, .command c⟩ :: more) (separator' ++ c :: out) where
  reads := .command h hkeeps.isSeparator (Nat.eq_zero_of_le_zero (hseparator ▸ hkeeps.count_le))
    hmore.reads
  ends _ _ := by
    have hc := (of_mem_commandLetters (Place.mem_of_command? h).2).2.2
    exact ends_append hkeeps.isSeparator fun _ => ends_cons (.inl hc) _
  tail _ h := by
    rw [joined?_command] at h
    cases h

/-- The text of a rounded number is the text of an item. -/
theorem exists_isItemText_decimal {k : Nat} {whole fraction : Text} (isNegative : Bool)
    (hdecimal : IsDecimal places k whole fraction)
    : ∃ c word, decimalText isNegative whole fraction = c :: word ∧ IsItemText false c word := by
  have hread : Numeral.read? (decimalText isNegative whole fraction ++ [])
      = some (⟨isNegative, whole, fraction, 0⟩, []) := by
    refine read?_decimalText (fun c hc => isDigit_of_isDigit (hdecimal.whole_digits c hc))
      (fun c hc => isDigit_of_isDigit (hdecimal.fraction_digits c hc)) (.inl hdecimal.whole_ne_nil)
      ?_ (fun _ => ?_) ?_ <;> rintro _ ⟨⟩
  have hnumber := readNumber?_eq_some_iff.mpr ⟨_, rfl, hread⟩
  have hslot {text rest : Text} {item : Item} (h : readNumber? (text ++ rest) = some (item, rest))
      : Slot.read? .coordinate (text ++ rest) = some (item, rest) :=
    h
  obtain ⟨c, word, htext⟩ := List.exists_cons_of_ne_nil (Slot.ne_nil_of_read? (hslot hnumber))
  rw [htext] at hnumber
  exact ⟨c, word, htext, Slot.isItemText_of_read? (hslot hnumber)⟩

section Number

variable {q : ℚ} {isNegative : Bool} {k : Nat} {whole fraction : Text} {l : Option Char}

/-- The text of a rounded number is read in front of what is made of the text behind it. -/
theorem exists_read?_of_roundsTo (hq : n.rounded? places = some q)
    (hwhole : ∀ c ∈ whole, c.isDigit) (hfraction : ∀ c ∈ fraction, c.isDigit)
    (hne : whole ≠ [] ∨ fraction ≠ []) (hint : q.isInt = false → fraction ≠ [])
    (hapart : StaysApart places n more) (hlast : last.any (!·.isAlpha))
    (hmore : RoundsTo places next last more out)
    : ∃ m rest, Numeral.read? (decimalText isNegative whole fraction ++ out) = some (m, rest)
      ∧ m.toRat = toRat ⟨isNegative, whole, fraction, 0⟩ ∧ Reads places next more rest := by
  have hwhole : ∀ c ∈ whole, Text.isDigit c := fun c hc => isDigit_of_isDigit (hwhole c hc)
  have hfraction : ∀ c ∈ fraction, Text.isDigit c := fun c hc => isDigit_of_isDigit (hfraction c hc)
  by_cases hneg : ∀ m ∈ joined? more, ∀ r ∈ m.rounded? places, r < 0
  · have hends := hmore.ends hlast hneg
    exact ⟨_, out, read?_decimalText hwhole hfraction hne hends.digit (fun _ => hends.point)
      hends.exponent, rfl, hmore.reads⟩
  · push Not at hneg
    obtain ⟨m, hm, r, hr, hnonneg⟩ := hneg
    obtain ⟨hpos, hone, hq⟩ := (hapart m hm q hq r hr).resolve_left hnonneg.not_gt
    obtain ⟨tail, rfl, htail, hreads⟩ := hmore.tail m hm r hr hpos hone
    obtain ⟨m, hread, hvalue⟩ := exists_read?_decimalText_zero hwhole hfraction (hint hq) htail
    exact ⟨m, tail, hread, hvalue, hreads⟩

theorem RoundsTo.number {separator' word : Text} (hargument : p.argument? = some (.coordinate, next))
    (hseparates : p.separates .coordinate separator) (hdecimal : IsDecimal places k whole fraction)
    (hq : n.rounded? places = some (Binary64.sign isNegative * (k / 10 ^ places)))
    (htext : decimalText isNegative whole fraction = c :: word) (hc : c.isAlpha = false)
    (hkeeps : KeepsSeparator last separator c separator') (hapart : StaysApart places n more)
    (hlast : l.any (!·.isAlpha)) (hmore : RoundsTo places next l more out)
    : RoundsTo places p last (⟨separator, .number n⟩ :: more)
      (separator' ++ (c :: word ++ out)) where
  reads := by
    rw [← htext]
    obtain ⟨m, rest, hread, hvalue, hreads⟩ := exists_read?_of_roundsTo hq hdecimal.whole_digits
      hdecimal.fraction_digits (.inl hdecimal.whole_ne_nil) hdecimal.fraction_ne_nil hapart hlast hmore
    exact .number hargument hkeeps.isSeparator
      (Place.separates_of_count_le hseparates hkeeps.count_le) hread
      (by rw [hq, hvalue, hdecimal.toRat_eq]) hreads
  ends hlast hneg := by
    have hminus (h : c = '-') : Ends (c :: word ++ out) := ends_cons (.inr h) _
    refine ends_append hkeeps.isSeparator fun hempty => ?_
    rcases hkeeps.of_eq_nil hempty with rfl | halpha | halpha | h
    · have hlt := hneg n rfl _ hq
      cases isNegative with
      | true => exact hminus (List.cons.inj htext).1.symm
      | false =>
          have hle : (0 : ℚ) ≤ k / 10 ^ places := by positivity
          rw [Binary64.sign, if_neg Bool.false_ne_true, one_mul] at hlt
          exact absurd hlt hle.not_gt
    · cases last with
      | none => cases hlast
      | some x =>
          rw [Option.all_some] at halpha
          rw [Option.any_some, halpha] at hlast
          cases hlast
    · rw [hc] at halpha
      cases halpha
    · exact hminus h
  tail m hm r hr hpos hone := by
    cases separator with
    | cons x separator => cases hm
    | nil =>
        obtain rfl : n = m := Option.some.inj hm
        obtain rfl : _ = r := Option.some.inj (hq.symm.trans hr)
        obtain ⟨rfl, rfl, hfraction⟩ := hdecimal.of_lt_one hpos hone
        obtain rfl := hkeeps.eq_nil rfl
        rw [← htext]
        have hshort : ∃ m rest, Numeral.read? (decimalText false [] fraction ++ out) = some (m, rest)
            ∧ m.toRat = toRat ⟨false, [], fraction, 0⟩ ∧ Reads places next more rest :=
          exists_read?_of_roundsTo hq (by simp) hdecimal.fraction_digits (.inr hfraction)
            hdecimal.fraction_ne_nil hapart hlast hmore
        obtain ⟨m, rest, hread, hvalue, hreads⟩ := hshort
        refine ⟨decimalText false [] fraction ++ out, rfl, ?_, ?_⟩
        · simp [decimalText, signText, hfraction]
        · have hvalue : n.rounded? places = some m.toRat := by
            rw [hr, hvalue, ← toRat_zero_cons, hdecimal.toRat_eq]
          have hnone : ∀ c ∈ ([] : Text), isSeparator c := by simp
          change Reads places p _ ([] ++ (decimalText false [] fraction ++ out))
          exact .number hargument hnone hseparates hread hvalue hreads

end Number

/-- Rounding and compaction of a text that is read at a place, by induction over what is read. -/
theorem Place.exists_roundsTo (hf : Compacts f) (hp : p.IsPlain) (h : p.read? s = some lexemes)
    (harc : ¬HasArc lexemes) (hapart : Apart places lexemes) (hascii : ∀ c ∈ s, c.val < 128)
    (last : Option Char)
    : ∃ out, shortenAll places s = .ok out ∧ RoundsTo places p last lexemes (f last out)
      ∧ ∀ c ∈ out, c.val < 128 := by
  induction lexemes generalizing p s last with
  | nil =>
      obtain ⟨hmissing, hblank, hcount⟩ := Place.read?_eq_nil_iff.mp h
      have hout := shortenAll_append (fun c hc => isNumeralChar_of_isSeparator (hblank c hc))
        (@shortenAll_nil places)
      rw [List.append_nil] at hout
      refine ⟨s, hout, ?_, hascii⟩
      rw [hf.blank hblank hcount]
      exact .nil hmissing
  | cons lexeme more ih =>
      obtain ⟨next, text, rest, rfl, hchars, htakes, hmore⟩ := Place.read?_eq_cons_iff.mp h
      obtain ⟨separator, item⟩ := lexeme
      rw [HasArc, List.map_cons, List.mem_cons, List.mem_cons, not_or, not_or, not_or] at harc
      rw [List.forall_mem_append, List.forall_mem_append] at hascii
      have hgap := fun c hc => isNumeralChar_of_isSeparator (hchars c hc)
      obtain ⟨hnext, ⟨c, rfl, rfl, hcommand, hcount⟩ | ⟨n, rfl, hargument, hseparates, hread⟩⟩ :=
        hp.takes_cases ⟨Ne.symm harc.1.1, Ne.symm harc.2.1⟩ htakes
      · obtain ⟨out, hout, hrounds, houtAscii⟩ := ih hnext hmore (not_or.mpr ⟨harc.1.2, harc.2.2⟩)
          hapart.2 hascii.2.2 (some c)
        have hc := of_mem_commandLetters (Place.mem_of_command? hcommand).2
        have hletter := shortenAll_cons (read?_eq_none_of_isNumeralChar hc.2.2 rest) hout
        obtain ⟨separator', hcompact, hkeeps⟩ := hf.word last hchars
          (isItemText_of_mem (Place.mem_of_command? hcommand).2).isSeparator out
        refine ⟨separator ++ ([c] ++ out), shortenAll_append hgap hletter, ?_, ?_⟩
        · rw [hcompact]
          exact hrounds.command hcommand hcount hkeeps
        · exact List.forall_mem_append.mpr
            ⟨hascii.1, List.forall_mem_cons.mpr ⟨hascii.2.1 c List.mem_cons_self, houtAscii⟩⟩
      · obtain ⟨hsome, hstays⟩ := hapart.1 n rfl
        obtain ⟨q, hq⟩ := Option.isSome_iff_exists.mp hsome
        obtain ⟨isNegative, k, whole, fraction, hdecimal, -, rfl, hshorten⟩ :=
          exists_shorten_of_rounded? hq
        obtain ⟨c, word, htext, hitem⟩ := exists_isItemText_decimal isNegative hdecimal
        have hlast : (some ((c :: word).getLast (List.cons_ne_nil _ _))).any (!·.isAlpha) := by
          simp [(hitem.isAlpha rfl).2]
        obtain ⟨out, hout, hrounds, houtAscii⟩ := ih hnext hmore (not_or.mpr ⟨harc.1.2, harc.2.2⟩)
          hapart.2 hascii.2.2 (some ((c :: word).getLast (List.cons_ne_nil _ _)))
        obtain ⟨separator', hcompact, hkeeps⟩ := hf.word last hchars hitem.isSeparator out
        refine ⟨separator ++ (c :: word ++ out), ?_, ?_, ?_⟩
        · rw [← htext]
          exact shortenAll_append hgap (shortenAll_of_read? hread hshorten hout)
        · rw [hcompact]
          exact .number hargument hseparates hdecimal hq htext (hitem.isAlpha rfl).1 hkeeps hstays hlast
            hrounds
        · rw [← htext]
          exact List.forall_mem_append.mpr
            ⟨hascii.1, List.forall_mem_append.mpr ⟨lt_of_mem_decimalText hdecimal, houtAscii⟩⟩

end Rounding

-----------------------------------------------------------------------------------------
-- Path data and lists
-----------------------------------------------------------------------------------------

/-- Path data are made of separators, numbers and commands. -/
theorem Place.mem_cases {p : Place} {s : Text} {lexemes : List Lexeme} (hp : p.IsPlain)
    (h : p.read? s = some lexemes) (harc : ¬HasArc lexemes) {c : Char} (hc : c ∈ s)
    : isSeparator c ∨ isNumeralChar c ∨ .command c ∈ lexemes.map (·.item) := by
  induction lexemes generalizing p s with
  | nil => exact .inl ((Place.read?_eq_nil_iff.mp h).2.1 c hc)
  | cons lexeme more ih =>
      obtain ⟨next, text, rest, rfl, hchars, htakes, hmore⟩ := Place.read?_eq_cons_iff.mp h
      rw [HasArc, List.map_cons, List.mem_cons, List.mem_cons, not_or, not_or, not_or] at harc
      obtain ⟨hnext, hitem⟩ := hp.takes_cases ⟨Ne.symm harc.1.1, Ne.symm harc.2.1⟩ htakes
      rw [List.mem_append, List.mem_append] at hc
      rcases hc with hc | hc | hc
      · exact .inl (hchars c hc)
      · rcases hitem with ⟨x, hx, rfl, -⟩ | ⟨n, -, -, -, hread⟩
        · rw [List.mem_singleton.mp hc, List.map_cons, hx]
          exact .inr (.inr List.mem_cons_self)
        · exact .inr (.inl ((isNumeralText_of_read? hread).isNumeralChar c hc))
      · refine (ih hnext hmore (not_or.mpr ⟨harc.1.2, harc.2.2⟩) hc).imp_right (.imp_right ?_)
        exact List.mem_cons_of_mem _

theorem isPlain_start : Place.start.IsPlain := ⟨by simp [Place.start], by simp [Place.start]⟩

theorem isPlain_list : Place.list.IsPlain := ⟨by simp [Place.list], by simp [Place.list]⟩

/-- There is no letter of an arc in path data without arcs. -/
theorem hasArc_eq_false {s : Text} {lexemes : List Lexeme} (h : Place.start.read? s = some lexemes)
    (harc : ¬HasArc lexemes)
    : Minify.hasArc s = false := by
  have hnone {c : Char} (hc : c ∈ commandLetters) (hitem : .command c ∉ lexemes.map (·.item))
      : c ∉ s := by
    intro hmem
    obtain ⟨-, hseparator, hnumeral⟩ := of_mem_commandLetters hc
    rcases Place.mem_cases isPlain_start h harc hmem with hchar | hchar | hchar
    · rw [hseparator] at hchar
      cases hchar
    · rw [hnumeral] at hchar
      cases hchar
    · exact hitem hchar
  rw [HasArc, not_or] at harc
  rw [Minify.hasArc, Bool.or_eq_false_iff, List.contains_eq_mem, List.contains_eq_mem,
    decide_eq_false_iff_not, decide_eq_false_iff_not]
  exact ⟨hnone (by decide) harc.1, hnone (by decide) harc.2⟩

/-- A list of numbers has no commands. -/
theorem Place.not_mem_of_letters {p : Place} {s : Text} {lexemes : List Lexeme} (hp : p.letters = [])
    (h : p.read? s = some lexemes) (c : Char)
    : .command c ∉ lexemes.map (·.item) := by
  induction lexemes generalizing p s with
  | nil => simp
  | cons lexeme more ih =>
      obtain ⟨next, text, rest, rfl, -, htakes, hmore⟩ := Place.read?_eq_cons_iff.mp h
      obtain ⟨separator, item⟩ := lexeme
      rw [List.map_cons, List.mem_cons, not_or]
      cases htakes with
      | command hcommand _ =>
          have hmem := (Place.mem_of_command? hcommand).1
          rw [hp] at hmem
          cases hmem
      | argument hargument _ hread =>
          refine ⟨fun heq => ?_, ih (Place.letters_of_argument? hargument ▸ hp) hmore⟩
          obtain rfl := heq
          rcases Slot.read?_cases hread with ⟨_, _, -, hflag, -⟩ | ⟨_, -, hnumber, -⟩
          · cases hflag
          · cases hnumber

theorem readList?_eq_some_iff {s : Text} {lexemes : List Lexeme}
    : readList? s = some lexemes ↔ (∀ c ∈ s, c.val < 128) ∧ Place.list.read? s = some lexemes := by
  rw [readList?]
  split
  · next h => exact (and_iff_right (by simpa using h)).symm
  · next h => exact iff_of_false (by simp) fun hs => h (by simpa using hs.1)

/-- No attribute with numbers has path data. -/
theorem isPathData_eq_false {name : Text} (h : Minify.isNumeric name) : Minify.isPathData name = false := by
  rw [Minify.isPathData, decide_eq_false_iff_not]
  rintro rfl
  have hnot : Minify.isNumeric "d" = false := by with_unfolding_all decide
  rw [hnot] at h
  cases h

/-- Characters of a compacted text are characters of the text, or spaces. -/
theorem Compacts.forall_mem {f : Option Char → Text → Text} (hf : Compacts f) {s : Text}
    (hascii : ∀ c ∈ s, c.val < 128) (last : Option Char)
    : ∀ c ∈ f last s, c.val < 128 := by
  intro c hc
  rcases hf.mem hc with rfl | hc
  · decide
  · exact hascii c hc

/-- Path data without arcs and lists of numbers are rounded to decimal places number by number, with
the same commands, if all numbers can be told apart once they are rounded.
-/
theorem rounds_of_apart (places : Nat)
    : (∀ {d : Text} {lexemes : List Lexeme}, read? d = some lexemes → ¬HasArc lexemes →
        Apart places lexemes → ∃ d' lexemes', Minify.compactPath places d = .ok d'
          ∧ read? d' = some lexemes'
          ∧ List.Forall₂ (Rounds places) (lexemes.map (·.item)) (lexemes'.map (·.item)))
      ∧ ∀ {a : Xml.Attribute} {lexemes : List Lexeme}, Minify.isNumeric a.name.base →
        readList? a.value = some lexemes → Apart places lexemes →
        ∃ value lexemes', Minify.roundAttribute places a = .ok ⟨a.name, value, none⟩
          ∧ readList? value = some lexemes'
          ∧ List.Forall₂ (Rounds places) (lexemes.map (·.item)) (lexemes'.map (·.item)) := by
  constructor
  · intro d lexemes h harc hapart
    obtain ⟨hascii, hd⟩ := read?_eq_some_iff.mp h
    obtain ⟨out, hout, hrounds, houtAscii⟩ :=
      Place.exists_roundsTo compacts_path isPlain_start hd harc hapart hascii none
    obtain ⟨lexemes', hread, hitems⟩ := hrounds.reads
    refine ⟨_, lexemes', ?_, read?_eq_some_iff.mpr ⟨compacts_path.forall_mem houtAscii none, hread⟩,
      hitems⟩
    rw [Minify.compactPath_eq, hasArc_eq_false hd harc, if_neg Bool.false_ne_true, hout]
    rfl
  · intro a lexemes hnumeric h hapart
    obtain ⟨hascii, hvalue⟩ := readList?_eq_some_iff.mp h
    have harc : ¬HasArc lexemes :=
      not_or.mpr ⟨Place.not_mem_of_letters rfl hvalue 'A', Place.not_mem_of_letters rfl hvalue 'a'⟩
    obtain ⟨out, hout, hrounds, houtAscii⟩ :=
      Place.exists_roundsTo compacts_list isPlain_list hvalue harc hapart hascii none
    obtain ⟨lexemes', hread, hitems⟩ := hrounds.reads
    refine ⟨_, lexemes', ?_, readList?_eq_some_iff.mpr ⟨compacts_list.forall_mem houtAscii none, hread⟩,
      hitems⟩
    rw [Minify.roundAttribute, isPathData_eq_false hnumeric, if_neg Bool.false_ne_true, if_pos hnumeric,
      Minify.compactNumbers, hout, ← Minify.squeeze_eq_respace]
    rfl

/-- Path data with numbers that stand together. -/
def sampleJoined : Text := "M1.5.5-2 3l.25-1e1"

/-- A list of numbers that stand together. -/
def sampleOffsets : Xml.Attribute := ⟨⟨none, "stroke-dasharray"⟩, "1.5.5 , 2e1-.04", none⟩

/-- These path data, rounded to one decimal place. -/
def sampleRoundedJoined : Text := "M1.50.5-2 3l0.2-10"

/-- These numbers, rounded to two decimal places. -/
def sampleRoundedOffsets : Text := "1.50.5 , 20-0.04"

theorem rounds_of_apart_sampleJoined
    : (∃ lexemes lexemes', read? sampleJoined = some lexemes
        ∧ Minify.compactPath 1 sampleJoined = .ok sampleRoundedJoined
        ∧ read? sampleRoundedJoined = some lexemes'
        ∧ List.Forall₂ (Rounds 1) (lexemes.map (·.item)) (lexemes'.map (·.item)))
      ∧ ∃ lexemes lexemes', readList? sampleOffsets.value = some lexemes
        ∧ Minify.roundAttribute 2 sampleOffsets = .ok ⟨sampleOffsets.name, sampleRoundedOffsets, none⟩
        ∧ readList? sampleRoundedOffsets = some lexemes'
        ∧ List.Forall₂ (Rounds 2) (lexemes.map (·.item)) (lexemes'.map (·.item)) := by
  constructor
  · have hsample : (read? sampleJoined).any fun lexemes => ¬HasArc lexemes ∧ Apart 1 lexemes := by
      decide +kernel
    have hcompact : (Minify.compactPath 1 sampleJoined).toOption = some sampleRoundedJoined := by
      decide +kernel
    obtain ⟨lexemes, hread, happly⟩ := (Option.any_eq_true _ _).mp hsample
    rw [decide_eq_true_eq] at happly
    obtain ⟨d', lexemes', hd, hread', hitems⟩ := (rounds_of_apart 1).1 hread happly.1 happly.2
    rw [Nat.cast_one] at hd
    rw [hd, Except.toOption, Option.some.injEq] at hcompact
    subst hcompact
    exact ⟨lexemes, lexemes', hread, hd, hread', hitems⟩
  · have hsample : (readList? sampleOffsets.value).any fun lexemes => Apart 2 lexemes := by
      decide +kernel
    have hcompact : (Minify.roundAttribute 2 sampleOffsets).toOption
        = some ⟨sampleOffsets.name, sampleRoundedOffsets, none⟩ := by
      decide +kernel
    have hnumeric : Minify.isNumeric sampleOffsets.name.base := by with_unfolding_all decide
    obtain ⟨lexemes, hread, hapart⟩ := (Option.any_eq_true _ _).mp hsample
    rw [decide_eq_true_eq] at hapart
    obtain ⟨value, lexemes', hvalue, hread', hitems⟩ := (rounds_of_apart 2).2 hnumeric hread hapart
    rw [Nat.cast_ofNat] at hvalue
    rw [hvalue, Except.toOption, Option.some.injEq] at hcompact
    obtain rfl : value = sampleRoundedOffsets := congrArg Xml.Attribute.value hcompact
    exact ⟨lexemes, lexemes', hread, hvalue, hread', hitems⟩

/-- A plus sign is all that keeps these two numbers apart, and a rounded number has none. -/
theorem compactPath_plus
    : ∃ lexemes, read? "M1+2" = some lexemes ∧ ¬HasArc lexemes
      ∧ (Minify.compactPath 3 "M1+2").toOption = some "M12" ∧ read? "M12" = none := by
  have hsample : (read? "M1+2").any fun lexemes => ¬HasArc lexemes := by decide +kernel
  obtain ⟨lexemes, hread, harc⟩ := (Option.any_eq_true _ _).mp hsample
  rw [decide_eq_true_eq] at harc
  exact ⟨lexemes, hread, harc, by decide +kernel, by decide +kernel⟩

end PathData

end SvgKit
