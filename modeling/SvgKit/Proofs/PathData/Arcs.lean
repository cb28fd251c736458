import SvgKit.Proofs.Minify.Spacing
import SvgKit.Proofs.PathData.Grammar
import SvgKit.Proofs.Text.Ascii

/-! Path data with arcs are compacted without loss: only separators change, and the items that they
stood between are still told apart.
-/

namespace SvgKit.PathData

open Minify (respace keepsApart gap)
open Numeral (of_isDigit isAlpha_of_isNumeralChar isBlank_of_isNumeralChar)

-----------------------------------------------------------------------------------------
-- Characters
-----------------------------------------------------------------------------------------

/-- The separators of path data are separators of compaction. -/
theorem isSeparator_of_isSeparator {c : Char} (h : isSeparator c) : Minify.isSeparator c := by
  have hmem : c ∈ [' ', '\t', '\n', '\r', ','] := by
    rw [isSeparator, Xml.isSpace] at h
    simpa only [List.mem_cons, List.not_mem_nil, or_false, Bool.or_eq_true, beq_iff_eq, or_assoc] using h
  have hall : ∀ c ∈ [' ', '\t', '\n', '\r', ','], Minify.isSeparator c :=
    List.all_iff_forall_prop.mp (by decide)
  exact hall c hmem

section Shape

variable {p next : Place} {separator text rest out s : Text} {item : Item}

/-- An argument does not begin with the mark of an exponent. -/
theorem Slot.isExponentMark_of_read? {slot : Slot} {c : Char}
    (h : slot.read? (c :: s) = some (item, rest))
    : Numeral.isExponentMark c = false := by
  by_contra hmark
  rw [Bool.not_eq_false, Numeral.isExponentMark, Bool.or_eq_true, beq_iff_eq, beq_iff_eq] at hmark
  rcases Slot.read?_cases h with ⟨_, isSet, -, -, heq⟩ | ⟨n, -, -, hread⟩
  · cases isSet <;> rcases hmark with rfl | rfl <;> cases heq
  · rw [Numeral.read?_eq_none] at hread
    · cases hread
    all_goals rcases hmark with rfl | rfl <;> decide

/-- The text of an item: it is not empty, has no separators, and does not begin like the rest of a
numeral. That of an argument neither begins nor ends with a letter.
-/
structure IsItemText (fresh : Bool) (c : Char) (text : Text) : Prop where
  isSeparator : ∀ x ∈ c :: text, Minify.isSeparator x = false
  isExponentMark : Numeral.isExponentMark c = false
  isAlpha : fresh = false → c.isAlpha = false
    ∧ ((c :: text).getLast (List.cons_ne_nil _ _)).isAlpha = false

theorem isItemText_of_mem {c : Char} (h : c ∈ commandLetters) : IsItemText true c [] := by
  have hall : ∀ c ∈ commandLetters, Minify.isSeparator c = false
      ∧ Numeral.isExponentMark c = false :=
    List.all_iff_forall_prop.mp (by decide)
  exact ⟨List.forall_mem_singleton.mpr (hall c h).1, (hall c h).2, fun h => by cases h⟩

theorem Slot.isItemText_of_read? {slot : Slot} {c : Char} {text : Text}
    (h : slot.read? (c :: text ++ rest) = some (item, rest))
    : IsItemText false c text := by
  have hmark := Slot.isExponentMark_of_read? h
  obtain ⟨hchars, hlast⟩ := Slot.isNumeralText_of_read? h
  refine ⟨fun x hx => ?_, hmark, fun _ => ⟨isAlpha_of_isNumeralChar (hchars c List.mem_cons_self) hmark,
    ?_⟩⟩
  · have hne : x ≠ ',' := by
      rintro rfl
      exact absurd (hchars _ hx) (by decide)
    rw [Minify.isSeparator, isBlank_of_isNumeralChar (hchars x hx)]
    simpa using hne
  · rcases hlast _ (List.getLast?_eq_some_getLast (List.cons_ne_nil c text)) with hdigit | hpoint
    · exact (of_isDigit hdigit).2
    · rw [hpoint]
      decide

theorem Place.Takes.exists_isItemText (h : p.Takes separator item next text rest)
    : ∃ c word, text = c :: word ∧ IsItemText next.fresh c word := by
  cases h with
  | command h _ =>
      rw [Place.fresh_of_command? h]
      exact ⟨_, [], rfl, isItemText_of_mem (Place.mem_of_command? h).2⟩
  | argument h _ hread =>
      obtain ⟨c, word, rfl⟩ := List.exists_cons_of_ne_nil (Slot.ne_nil_of_read? hread)
      rw [Place.fresh_of_argument? h]
      exact ⟨c, word, rfl, Slot.isItemText_of_read? hread⟩

/-- A letter or a minus sign is not the next character of a numeral, the mark of its exponent apart.
-/
theorem endsAlike_of_command {c : Char} (hc : c.isAlpha ∨ c = '-' ∨ c = ' ')
    (hmark : Numeral.isExponentMark c = false) (out : Text)
    : Numeral.EndsAlike rest (c :: out) := by
  refine Numeral.endsAlike_of_stops ?_ ?_ ?_ <;> rintro _ ⟨⟩
  · rcases hc with hletter | rfl | rfl
    · by_contra hdigit
      rw [Bool.not_eq_false] at hdigit
      rw [(of_isDigit hdigit).2] at hletter
      cases hletter
    all_goals decide
  · rw [beq_eq_false_iff_ne]
    rintro rfl
    revert hc
    decide
  · exact hmark

/-- A numeral in front of a text that is read ends alike in front of the respaced text: a character
stands where it stood, or a gap or a character that ends every numeral behind separators.
-/
theorem Place.endsAlike_respace {lexemes : List Lexeme} (h : p.read? rest = some lexemes) {l : Char}
    (hl : l.isAlpha = false)
    : Numeral.EndsAlike rest (respace Minify.isSeparator keepsApart (some l) false rest) := by
  cases lexemes with
  | nil =>
      obtain ⟨-, hblank, -⟩ := Place.read?_eq_nil_iff.mp h
      rw [Minify.respace_of_forall fun c hc => isSeparator_of_isSeparator (hblank c hc)]
      exact Numeral.endsAlike_of_stops (by rintro _ ⟨⟩) (by rintro _ ⟨⟩) (by rintro _ ⟨⟩)
  | cons lexeme more =>
      obtain ⟨next, text, rest, rfl, hseparator, htakes, -⟩ := Place.read?_eq_cons_iff.mp h
      obtain ⟨c, word, rfl, htext⟩ := htakes.exists_isItemText
      have hmark := htext.isExponentMark
      rw [Minify.respace_append_word (fun c hc => isSeparator_of_isSeparator (hseparator c hc))
        htext.isSeparator]
      cases hempty : lexeme.separator.isEmpty with
      | true =>
          rw [List.isEmpty_iff.mp hempty]
          exact Numeral.endsAlike_of_head rfl (by rintro _ ⟨⟩; exact hmark)
      | false =>
          rw [gap, Bool.not_false, Bool.true_and, Option.any_some]
          cases hkeep : keepsApart l c with
          | true => exact endsAlike_of_command (.inr (.inr rfl)) (by decide) _
          | false =>
              refine endsAlike_of_command ?_ hmark _
              rw [keepsApart, hl, Bool.not_false, Bool.true_and, Bool.and_eq_false_iff,
                Bool.not_eq_false', bne_eq_false_iff_eq] at hkeep
              exact hkeep.imp_right .inl

theorem gap_cases (last : Option Char) (separated : Bool) (c : Char)
    : gap keepsApart last separated c = [] ∨ gap keepsApart last separated c = [' '] := by
  unfold gap
  split
  · exact .inr rfl
  · exact .inl rfl

theorem count_gap (last : Option Char) (separated : Bool) (c : Char)
    : (gap keepsApart last separated c).count ',' = 0 := by
  rcases gap_cases last separated c with h | h <;> rw [h] <;> decide

/-- Behind another argument, a gap is left in front of a flag that has to stand apart. -/
theorem Place.separates_gap {slot : Slot} {c : Char} {last : Option Char}
    (hlast : p.fresh = false → last.any (!·.isAlpha)) (hseparator : p.separates slot separator)
    (hread : slot.read? (c :: s) = some (item, rest))
    : p.separates slot (gap keepsApart last (!separator.isEmpty) c) := by
  unfold Place.separates at hseparator ⊢
  rw [count_gap]
  cases hfresh : p.fresh with
  | true => rfl
  | false =>
      rw [hfresh, if_neg Bool.false_ne_true, Bool.and_eq_true, Bool.or_eq_true] at hseparator
      rw [if_neg Bool.false_ne_true, Bool.and_eq_true, Bool.or_eq_true]
      refine ⟨rfl, ?_⟩
      rcases Slot.read?_cases hread with ⟨apart, isSet, rfl, -, heq⟩ | ⟨n, hslot, -⟩
      · refine hseparator.2.imp_right fun hne => ?_
        obtain ⟨l, rfl, hl⟩ := (Option.any_eq_true _ _).mp (hlast hfresh)
        have hc : keepsApart l c := by
          rw [keepsApart, hl]
          cases isSet <;> cases heq <;> decide
        rw [gap, hne, Option.any_some, hc]
        rfl
      · left
        rcases hslot with rfl | ⟨rfl, -⟩ <;> decide

theorem Place.Takes.of_gap {c : Char} {word : Text} {last : Option Char}
    (hlast : p.fresh = false → last.any (!·.isAlpha))
    (hends : next.fresh = false → Numeral.EndsAlike rest out)
    (h : p.Takes separator item next (c :: word) rest)
    : p.Takes (gap keepsApart last (!separator.isEmpty) c) item next (c :: word) out := by
  cases h with
  | command h _ => exact .command h (count_gap _ _ _)
  | argument h hseparator hread =>
      exact .argument h (Place.separates_gap hlast hseparator hread)
        (Slot.read?_append (hends (Place.fresh_of_argument? h)) hread)

/-- What is read at a place is read from the respaced text as well, with other separators. The
induction is over what is read; behind an argument, the last character is no letter.
-/
theorem Place.exists_read?_respace {lexemes : List Lexeme} (h : p.read? s = some lexemes)
    {last : Option Char} (hlast : p.fresh = false → last.any (!·.isAlpha))
    : ∃ lexemes', p.read? (respace Minify.isSeparator keepsApart last false s) = some lexemes'
      ∧ lexemes'.map (·.item) = lexemes.map (·.item)
      ∧ ∀ lexeme ∈ lexemes', lexeme.separator = [] ∨ lexeme.separator = [' '] := by
  induction lexemes generalizing p s last with
  | nil =>
      obtain ⟨hmissing, hblank, -⟩ := Place.read?_eq_nil_iff.mp h
      rw [Minify.respace_of_forall fun c hc => isSeparator_of_isSeparator (hblank c hc)]
      exact ⟨[], Place.read?_eq_nil_iff.mpr ⟨hmissing, by simp, rfl⟩, rfl, by simp⟩
  | cons lexeme more ih =>
      obtain ⟨next, text, rest, rfl, hseparator, htakes, hmore⟩ := Place.read?_eq_cons_iff.mp h
      obtain ⟨c, word, rfl, htext⟩ := htakes.exists_isItemText
      have hletter (hfresh : next.fresh = false)
          : (some ((c :: word).getLast (List.cons_ne_nil _ _))).any (!·.isAlpha) = true := by
        simp [(htext.isAlpha hfresh).2]
      obtain ⟨more', hread, hitems, hseparators⟩ := ih hmore hletter
      have hgap := gap_cases last (!lexeme.separator.isEmpty) c
      rw [Minify.respace_append_word (fun c hc => isSeparator_of_isSeparator (hseparator c hc))
        htext.isSeparator]
      refine ⟨⟨gap keepsApart last (!lexeme.separator.isEmpty) c, lexeme.item⟩ :: more',
        Place.read?_eq_cons_iff.mpr ⟨next, c :: word, _, rfl, ?_,
          htakes.of_gap hlast fun hfresh => Place.endsAlike_respace hmore (htext.isAlpha hfresh).2,
          hread⟩, ?_, List.forall_mem_cons.mpr ⟨hgap, hseparators⟩⟩
      · rcases hgap with hgap | hgap <;> dsimp only <;> rw [hgap] <;> exact List.all_iff_forall_prop.mp (by decide)
      · rw [List.map_cons, List.map_cons, hitems]

/-- A command that is read stands in the text. -/
theorem Place.mem_of_read? {lexemes : List Lexeme} (h : p.read? s = some lexemes) {c : Char}
    (hc : .command c ∈ lexemes.map (·.item))
    : c ∈ s := by
  induction lexemes generalizing p s with
  | nil => cases hc
  | cons lexeme more ih =>
      obtain ⟨next, text, rest, rfl, -, htakes, hmore⟩ := Place.read?_eq_cons_iff.mp h
      rw [List.map_cons, List.mem_cons] at hc
      rcases hc with hc | hc
      · rw [← hc] at htakes
        cases htakes with
        | command => simp
        | argument _ _ hread =>
            rcases Slot.read?_cases hread with ⟨_, _, -, heq, -⟩ | ⟨_, -, heq, -⟩ <;> cases heq
      · exact List.mem_append_right _ (List.mem_append_right _ (ih hmore hc))

end Shape

-----------------------------------------------------------------------------------------
-- Compaction
-----------------------------------------------------------------------------------------

/-- There is an arc among the items of path data. -/
def HasArc (lexemes : List Lexeme) : Prop :=
  .command 'A' ∈ lexemes.map (·.item) ∨ .command 'a' ∈ lexemes.map (·.item)

instance (lexemes : List Lexeme) : Decidable (HasArc lexemes) :=
  inferInstanceAs (Decidable (_ ∨ _))

theorem hasArc_of_read? {p : Place} {s : Text} {lexemes : List Lexeme}
    (h : p.read? s = some lexemes) (harc : HasArc lexemes)
    : Minify.hasArc s := by
  rw [Minify.hasArc, Bool.or_eq_true, List.contains_iff_mem, List.contains_iff_mem]
  exact harc.imp (Place.mem_of_read? h) (Place.mem_of_read? h)

theorem read?_eq_some_iff {s : Text} {lexemes : List Lexeme}
    : read? s = some lexemes ↔ (∀ c ∈ s, c.val < 128) ∧ Place.start.read? s = some lexemes := by
  rw [read?]
  split
  · next h => exact (and_iff_right (by simpa using h)).symm
  · next h => exact iff_of_false (by simp) fun hs => h (by simpa using hs.1)

/-- Path data with an arc are compacted to path data with the same commands, numbers and flags in the
same order, in which every separator is a single space; compacted again, these stay as they are.
-/
theorem compactPath_of_hasArc (precision : Int) {d : Text} {lexemes : List Lexeme}
    (h : read? d = some lexemes) (harc : HasArc lexemes)
    : ∃ d' lexemes', Minify.compactPath precision d = .ok d' ∧ read? d' = some lexemes'
      ∧ lexemes'.map (·.item) = lexemes.map (·.item)
      ∧ (∀ lexeme ∈ lexemes', lexeme.separator = [] ∨ lexeme.separator = [' '])
      ∧ Minify.compactPath precision d' = .ok d' := by
  obtain ⟨hascii, hd⟩ := read?_eq_some_iff.mp h
  have hfirst (hfresh : Place.start.fresh = false) : (none : Option Char).any (!·.isAlpha) = true := by
    cases hfresh
  obtain ⟨lexemes', hread, hitems, hseparators⟩ := Place.exists_read?_respace hd hfirst
  have harc' : HasArc lexemes' := by rwa [HasArc, hitems]
  refine ⟨_, lexemes', ?_, read?_eq_some_iff.mpr ⟨fun c hc => ?_, hread⟩, hitems, hseparators, ?_⟩
  · rw [Minify.compactPath_eq, if_pos (hasArc_of_read? hd harc)]
    rfl
  · rcases Minify.mem_respace hc with rfl | hc
    · decide
    · exact hascii c hc
  · rw [Minify.compactPath_eq, if_pos (hasArc_of_read? hread harc')]
    exact congrArg Except.ok (Minify.respace_respace (by decide) d)

/-- Path data with arcs, the flags of which stand together with numbers. -/
def sampleArcs : Text := " M 1e2 , -.5 , 1. .5\ta1 1 0 011 1,1 2 0,1 0-1.5.5 Z "

/-- These path data once they are compacted. -/
def sampleCompactArcs : Text := "M1e2-.5 1. .5a1 1 0 011 1 1 2 0 1 0-1.5.5Z"

theorem compactPath_of_hasArc_sampleArcs
    : ∃ lexemes lexemes', read? sampleArcs = some lexemes ∧ HasArc lexemes
      ∧ Minify.compactPath (-1) sampleArcs = .ok sampleCompactArcs
      ∧ read? sampleCompactArcs = some lexemes'
      ∧ lexemes'.map (·.item) = lexemes.map (·.item)
      ∧ Minify.compactPath (-1) sampleCompactArcs = .ok sampleCompactArcs := by
  have hsample : (read? sampleArcs).any fun lexemes => HasArc lexemes := by decide +kernel
  have hcompact : (Minify.compactPath (-1) sampleArcs).toOption = some sampleCompactArcs := by
    decide +kernel
  obtain ⟨lexemes, hread, harc⟩ := (Option.any_eq_true _ _).mp hsample
  rw [decide_eq_true_eq] at harc
  obtain ⟨d', lexemes', hd, hread', hitems, -, hagain⟩ := compactPath_of_hasArc (-1) hread harc
  rw [hd, Except.toOption, Option.some.injEq] at hcompact
  subst hcompact
  exact ⟨lexemes, lexemes', hread, harc, hd, hread', hitems, hagain⟩

end SvgKit.PathData
