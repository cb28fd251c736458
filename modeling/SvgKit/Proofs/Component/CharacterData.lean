import SvgKit.Component.Registry
import SvgKit.Proofs.Markup.StartTag
import SvgKit.Proofs.Text.Occurrences
import SvgKit.Proofs.Text.Replacement
import SvgKit.Proofs.Text.Searching

/-! The character data of a drawing's content. The content is cut into marks, as tags, comments and
style elements are called here, and the characters between them; what is written into a component
can then be counted mark by mark.
-/

namespace SvgKit.Component

open Markup (StartTag)
open Text (occurrences)

-----------------------------------------------------------------------------------------
-- Marks
-----------------------------------------------------------------------------------------

/-- What stands between the character data of a content. A style element is one mark with its style
sheet; a CDATA section is a mark around character data.
-/
inductive Mark where
  | item (i : Markup.Item)
  | style (tag : StartTag) (sheet closing : Text)
  | endTag (body : Text)
  | instruction (body : Text)
  deriving Repr, DecidableEq

/-- The mark as it is written. -/
def Mark.text : Mark → Text
  | .item i => i.text
  | .style tag sheet closing => tag.text ++ sheet ++ closing
  | .endTag body => '<' :: '/' :: body ++ ['>']
  | .instruction body => '<' :: '?' :: body ++ ['?', '>']

/-- The character data that a mark holds. -/
def Mark.data : Mark → Text
  | .item (.data body) => body
  | _ => []

/-- The mark without the character data that it holds. -/
def Mark.emptied : Mark → Mark
  | .item (.data _) => .item (.data [])
  | mark => mark

/-- Only sections hold character data. -/
theorem Mark.data_eq_nil {mark : Mark} (h : ¬ ∃ body, mark = .item (.data body))
    : mark.data = [] ∧ mark.emptied = mark := by
  unfold Mark.data Mark.emptied
  split
  · next body => exact absurd ⟨body, rfl⟩ h
  · exact ⟨rfl, rfl⟩

/-- A start tag opens a style element: it has that name in any case, and does not end itself. -/
def opensStyle (t : StartTag) : Bool :=
  t.name.map Text.foldChar = ("style" : Text) && !t.close.contains '/'

/-- The end tag or the instruction at the head of a text, and the rest. -/
def readOther? : Text → Option (Mark × Text)
  | '<' :: '/' :: s => (Text.splitAtLiteral? ['>'] s).map fun (body, rest) => (.endTag body, rest)
  | '<' :: '?' :: s =>
    (Text.splitAtLiteral? ['?', '>'] s).map fun (body, rest) => (.instruction body, rest)
  | _ => none

/-- The mark at the head of a text, and the rest. The tag of a style element that does not end is a
mark of its own.
-/
def readMark? (s : Text) : Option (Mark × Text) :=
  match Markup.readItem? s with
  | none => readOther? s
  | some (.tag t, rest) =>
    match if opensStyle t then splitAtStyleEnd? [] rest else none with
    | some (sheet, closing, left) => some (.style t sheet closing, left)
    | none => some (.item (.tag t), rest)
  | some (item, rest) => some (.item item, rest)

/-- An end tag of a style element: the name in any case, perhaps with blanks behind it. -/
def IsStyleEnd (closing : Text) : Prop :=
  ∃ name blanks, name.map Text.foldChar = ("style" : Text) ∧ (∀ c ∈ blanks, Text.isBlank c)
    ∧ closing = '<' :: '/' :: (name ++ blanks ++ ['>'])

theorem readStyleEnd?_eq_some_iff {s closing rest : Text}
    : readStyleEnd? s = some (closing, rest) ↔ IsStyleEnd closing ∧ s = closing ++ rest := by
  have hliteral : ("</style" : Text) = '<' :: '/' :: ("style" : Text) := by with_unfolding_all decide
  have hlength : ("style" : Text).length = 5 := by with_unfolding_all decide
  constructor
  · intro h
    unfold readStyleEnd? at h
    split at h
    · cases h
    · next left hdrop =>
        split at h
        · next left' hblank =>
            cases h
            obtain ⟨hs, hfold⟩ := Text.exists_of_dropFolded? hdrop
            have hseven : ("</style" : Text).length = 7 := by rw [hliteral]; simp [hlength]
            rw [hseven] at hs hfold
            rw [hliteral] at hfold
            obtain ⟨c, more, htake, hc, hmore⟩ := List.map_eq_cons_iff.mp hfold
            obtain ⟨d, name, rfl, hd, hname⟩ := List.map_eq_cons_iff.mp hmore
            obtain rfl := Text.eq_of_foldChar_eq rfl hc
            obtain rfl := Text.eq_of_foldChar_eq rfl hd
            refine ⟨⟨name, _, hname, fun c hc => List.mem_takeWhile_imp hc, by rw [htake]; rfl⟩, ?_⟩
            rw [← List.takeWhile_append_dropWhile (p := Text.isBlank) (l := left), hblank] at hs
            conv_lhs => rw [hs]
            simp
        · cases h
  · rintro ⟨⟨name, blanks, hname, hblanks, rfl⟩, rfl⟩
    have hdrop : Text.dropFolded? "</style"
        ('<' :: '/' :: (name ++ blanks ++ ['>']) ++ rest) = some (blanks ++ '>' :: rest) := by
      have hfold : ("</style" : Text) = ('<' :: '/' :: name).map Text.foldChar := by
        rw [hliteral, List.map_cons, List.map_cons, hname]
        rfl
      have := Text.dropFolded?_append hfold (blanks ++ '>' :: rest)
      simpa using this
    have hstops : Stops Text.isBlank ('>' :: rest) := by
      intro c hc
      cases hc
      with_unfolding_all decide
    have hfive : name.length = 5 := by rw [← List.length_map (f := Text.foldChar), hname, hlength]
    rw [readStyleEnd?, hdrop]
    dsimp only
    rw [dropWhile_append_stops hblanks hstops, takeWhile_append_stops hblanks hstops]
    simp [List.take_left' hfive]

/-- Behind its first bracket an end tag holds none that opens. -/
theorem IsStyleEnd.exists_inner {closing : Text} (h : IsStyleEnd closing)
    : ∃ inner, closing = '<' :: '/' :: inner ∧ '<' ∉ '/' :: inner := by
  obtain ⟨name, blanks, hname, hblanks, hclosing⟩ := h
  refine ⟨_, hclosing, ?_⟩
  simp only [List.mem_cons, List.mem_append, List.not_mem_nil, or_false, not_or]
  refine ⟨by decide, ⟨fun hmem => ?_, fun hmem => ?_⟩, by decide⟩
  · have hfold : Text.foldChar '<' ∈ ("style" : Text) := hname ▸ List.mem_map_of_mem hmem
    revert hfold
    with_unfolding_all decide
  · exact absurd (hblanks _ hmem) (by with_unfolding_all decide)

/-- A style sheet, its end tag and the rest make up the text, by induction over the text. -/
theorem eq_of_splitAtStyleEnd? {s sheet closing rest : Text}
    (h : splitAtStyleEnd? [] s = some (sheet, closing, rest))
    : s = sheet ++ closing ++ rest ∧ IsStyleEnd closing := by
  suffices ∀ done, splitAtStyleEnd? done s = some (sheet, closing, rest) →
      done.reverse ++ s = sheet ++ closing ++ rest ∧ IsStyleEnd closing from this [] h
  clear h
  induction s with
  | nil => nofun
  | cons c s ih =>
      intro done h
      unfold splitAtStyleEnd? at h
      split at h
      · next closing' rest' hend =>
          cases h
          obtain ⟨hclosing, hs⟩ := readStyleEnd?_eq_some_iff.mp hend
          exact ⟨by rw [hs, List.append_assoc], hclosing⟩
      · obtain ⟨hs, hclosing⟩ := ih _ h
        exact ⟨by rw [← hs]; simp, hclosing⟩

/-- An end tag that begins in front of another one ends in front of it, and does not depend on what
stands behind.
-/
theorem isSome_readStyleEnd?_append {front closing rest : Text} (hfront : front ≠ [])
    (hclosing : IsStyleEnd closing) (h : (readStyleEnd? (front ++ (closing ++ rest))).isSome)
    (rest' : Text)
    : (readStyleEnd? (front ++ (closing ++ rest'))).isSome := by
  obtain ⟨⟨closing', left⟩, hread⟩ := Option.isSome_iff_exists.mp h
  obtain ⟨hclosing', heq⟩ := readStyleEnd?_eq_some_iff.mp hread
  obtain ⟨inner, rfl, -⟩ := hclosing.exists_inner
  obtain ⟨inner', hinner', hnot⟩ := hclosing'.exists_inner
  obtain ⟨more, hmore⟩ : ∃ more, front = closing' ++ more := by
    rcases List.append_eq_append_iff.mp heq with ⟨between, hbetween, hrest⟩ | ⟨more, hmore, -⟩
    · cases between with
      | nil => exact ⟨[], by rw [hbetween, List.append_nil, List.append_nil]⟩
      | cons c between =>
          -- the bracket of the second tag would stand inside the first one
          obtain ⟨x, front, rfl⟩ := List.exists_cons_of_ne_nil hfront
          rw [hinner', List.cons_append, List.cons.injEq] at hbetween
          rw [List.cons_append, List.cons_append, List.cons_append, List.cons.injEq] at hrest
          exact absurd (by rw [hbetween.2, ← hrest.1]; simp) hnot
    · exact ⟨more, hmore⟩
  rw [hmore, List.append_assoc, readStyleEnd?_eq_some_iff.mpr ⟨hclosing', rfl⟩]
  rfl

/-- A style sheet ends at the same place whatever stands behind its end tag. The induction is on the
style sheet.
-/
theorem splitAtStyleEnd?_append {s sheet closing rest : Text}
    (h : splitAtStyleEnd? [] s = some (sheet, closing, rest)) (rest' : Text)
    : splitAtStyleEnd? [] (sheet ++ closing ++ rest') = some (sheet, closing, rest') := by
  obtain ⟨hs, hclosing⟩ := eq_of_splitAtStyleEnd? h
  rw [hs] at h
  have hread (rest : Text) : readStyleEnd? (closing ++ rest) = some (closing, rest) :=
    readStyleEnd?_eq_some_iff.mpr ⟨hclosing, rfl⟩
  obtain ⟨inner, hinner, -⟩ := hclosing.exists_inner
  suffices ∀ done,
      splitAtStyleEnd? done (sheet ++ (closing ++ rest)) = some (done.reverse ++ sheet, closing, rest)
      → splitAtStyleEnd? done (sheet ++ (closing ++ rest'))
        = some (done.reverse ++ sheet, closing, rest') by
    rw [List.append_assoc] at h ⊢
    exact this [] h
  clear h hs
  induction sheet with
  | nil =>
      intro done _
      have := hread rest'
      rw [hinner, List.cons_append] at this
      rw [List.nil_append, hinner, List.cons_append, splitAtStyleEnd?, this, List.append_nil]
  | cons c sheet ih =>
      intro done h
      rw [List.cons_append, splitAtStyleEnd?] at h ⊢
      cases hend : readStyleEnd? (c :: (sheet ++ (closing ++ rest))) with
      | some found =>
          rw [hend] at h
          simp at h
      | none =>
          have hnone : readStyleEnd? (c :: (sheet ++ (closing ++ rest'))) = none := by
            by_contra hne
            have := isSome_readStyleEnd?_append (List.cons_ne_nil c sheet) hclosing
              (Option.isSome_iff_ne_none.mpr hne) rest
            rw [List.cons_append, hend] at this
            cases this
          rw [hend] at h
          rw [hnone]
          simpa using ih (c :: done) (by simpa using h)

theorem eq_of_readOther? {s rest : Text} {mark : Mark} (h : readOther? s = some (mark, rest))
    : s = mark.text ++ rest := by
  unfold readOther? at h
  split at h
  · obtain ⟨⟨body, left⟩, hsplit, heq⟩ := Option.map_eq_some_iff.mp h
    cases heq
    simp [Text.eq_of_splitAtLiteral? hsplit, Mark.text]
  · obtain ⟨⟨body, left⟩, hsplit, heq⟩ := Option.map_eq_some_iff.mp h
    cases heq
    simp [Text.eq_of_splitAtLiteral? hsplit, Mark.text]
  · cases h

theorem readOther?_cases {s rest : Text} {mark : Mark} (h : readOther? s = some (mark, rest))
    : (∃ body, mark = .endTag body) ∨ ∃ body, mark = .instruction body := by
  unfold readOther? at h
  split at h
  · obtain ⟨⟨body, left⟩, -, heq⟩ := Option.map_eq_some_iff.mp h
    cases heq
    exact .inl ⟨body, rfl⟩
  · obtain ⟨⟨body, left⟩, -, heq⟩ := Option.map_eq_some_iff.mp h
    cases heq
    exact .inr ⟨body, rfl⟩
  · cases h

/-- A mark is an item that is found, or a style element whose tag is found, or something that no
item begins.
-/
theorem readMark?_cases {s rest : Text} {mark : Mark} (h : readMark? s = some (mark, rest))
    : (∃ i, mark = .item i ∧ Markup.readItem? s = some (i, rest))
      ∨ (∃ t sheet closing left, mark = .style t sheet closing
        ∧ Markup.readItem? s = some (.tag t, left) ∧ opensStyle t
        ∧ splitAtStyleEnd? [] left = some (sheet, closing, rest))
      ∨ (Markup.readItem? s = none ∧ readOther? s = some (mark, rest)) := by
  unfold readMark? at h
  split at h
  · next hread => exact .inr (.inr ⟨hread, h⟩)
  · next t left hread =>
      split at h
      · next sheet closing left' hstyle =>
          cases h
          split at hstyle
          · next hopens => exact .inr (.inl ⟨t, sheet, closing, left, rfl, hread, hopens, hstyle⟩)
          · cases hstyle
      · cases h
        exact .inl ⟨_, rfl, hread⟩
  · next hread =>
      cases h
      exact .inl ⟨_, rfl, hread⟩

/-- A mark and the rest make up the text. -/
theorem eq_of_readMark? {s rest : Text} {mark : Mark} (h : readMark? s = some (mark, rest))
    : s = mark.text ++ rest := by
  rcases readMark?_cases h with
    ⟨i, rfl, hread⟩ | ⟨t, sheet, closing, left, rfl, hread, -, hstyle⟩ | ⟨-, hother⟩
  · exact Markup.eq_of_readItem? hread
  · rw [Markup.eq_of_readItem? hread, (eq_of_splitAtStyleEnd? hstyle).1]
    simp [Mark.text, Markup.Item.text]
  · exact eq_of_readOther? hother

theorem Mark.text_ne_nil (mark : Mark) : mark.text ≠ [] := by
  cases mark with
  | item i => exact List.length_pos_iff.mp i.length_text_pos
  | style => simp [Mark.text, StartTag.text]
  | endTag => simp [Mark.text]
  | instruction => simp [Mark.text]

/-- Finds the marks of a content. -/
def marks : Scanner Mark where
  read := readMark?
  shorter h := by
    rw [eq_of_readMark? h, List.length_append]
    exact Nat.lt_add_of_pos_left (List.length_pos_iff.mpr (Mark.text_ne_nil _))
  suffix h := ⟨_, (eq_of_readMark? h).symm⟩

/-- The character data of a content, with line breaks where marks stand. -/
def characterData (content : Text) : Text :=
  marks.replace (fun mark => '\n' :: mark.data ++ ['\n']) content

/-- Marks and the characters between them make up the content. -/
theorem replace_text (content : Text) : marks.replace Mark.text content = content := by
  induction content using marks.induction with
  | nil => exact Scanner.replace_nil
  | plain c s hread ih => rw [Scanner.replace_of_read_none hread, ih]
  | found s mark rest hread ih =>
      rw [Scanner.replace_of_read hread, ih]
      exact (eq_of_readMark? hread).symm

-----------------------------------------------------------------------------------------
-- Brackets around marks
-----------------------------------------------------------------------------------------

theorem exists_of_readItem? {s rest : Text} {i : Markup.Item}
    (h : Markup.readItem? s = some (i, rest))
    : ∃ inner, i.text = '<' :: (inner ++ ['>']) := by
  cases i with
  | comment body => exact ⟨"!--" ++ body ++ ['-', '-'], by simp [Markup.Item.text, Text.ofString]⟩
  | data body =>
      exact ⟨"![CDATA[" ++ body ++ [']', ']'], by simp [Markup.Item.text, Text.ofString]⟩
  | tag t => exact (Markup.isRead_of_readItem? h).exists_text

/-- A mark stands in brackets. -/
theorem exists_of_readMark? {s rest : Text} {mark : Mark} (h : readMark? s = some (mark, rest))
    : ∃ inner, mark.text = '<' :: (inner ++ ['>']) := by
  rcases readMark?_cases h with
    ⟨i, rfl, hread⟩ | ⟨t, sheet, closing, left, rfl, hread, -, hstyle⟩ | ⟨-, hother⟩
  · exact exists_of_readItem? hread
  · obtain ⟨inner, htag⟩ := (Markup.isRead_of_readItem? hread).exists_text
    obtain ⟨-, name, blanks, -, -, hclosing⟩ := eq_of_splitAtStyleEnd? hstyle
    exact ⟨inner ++ '>' :: (sheet ++ '<' :: '/' :: (name ++ blanks)), by
      simp [Mark.text, hclosing, htag]⟩
  · rcases readOther?_cases hother with ⟨body, rfl⟩ | ⟨body, rfl⟩
    · exact ⟨'/' :: body, rfl⟩
    · exact ⟨'?' :: body ++ ['?'], by simp [Mark.text]⟩

-----------------------------------------------------------------------------------------
-- Occurrences
-----------------------------------------------------------------------------------------

/-- A way of writing marks keeps the occurrences of a literal apart: those in the character data
that a mark holds, those in the rest of the mark, and those on its two sides.
-/
def Separates (literal : Text) (write : Mark → Text) (mark : Mark) : Prop :=
  ∀ before rest, occurrences literal (before ++ (write mark ++ rest))
    = occurrences literal before + occurrences literal mark.data
      + occurrences literal (write mark.emptied) + occurrences literal rest

section Occurrences

variable {literal : Text} (hne : literal ≠ []) (hbraces : ∀ c ∈ literal, c = '\x7b')
include hne hbraces

/-- The occurrences in a content are those in its character data and those in its marks, by
induction over the content behind what has been passed.
-/
theorem occurrences_replace {write : Mark → Text} {content : Text}
    (hwrite : ∀ mark ∈ marks.findAll content, Separates literal write mark)
    : occurrences literal (marks.replace write content)
      = occurrences literal (characterData content)
        + ((marks.findAll content).map fun mark => occurrences literal (write mark.emptied)).sum := by
  have hline : '\n' ∉ literal := fun h => absurd (hbraces _ h) (by decide)
  unfold characterData
  suffices ∀ before : Text, occurrences literal (before ++ marks.replace write content)
      = occurrences literal
          (before ++ marks.replace (fun mark => '\n' :: mark.data ++ ['\n']) content)
        + ((marks.findAll content).map fun mark => occurrences literal (write mark.emptied)).sum from
    this []
  induction content using marks.induction with
  | nil => simp
  | plain c s hread ih =>
      intro before
      rw [marks.findAll_of_read_none hread] at hwrite ⊢
      rw [Scanner.replace_of_read_none hread, Scanner.replace_of_read_none hread]
      simpa using ih hwrite (before ++ [c])
  | found s mark rest hread ih =>
      intro before
      rw [marks.findAll_of_read hread] at hwrite ⊢
      rw [Scanner.replace_of_read hread, Scanner.replace_of_read hread]
      obtain ⟨hmark, hrest⟩ := List.forall_mem_cons.mp hwrite
      have hlines (behind : Text) : occurrences literal
            (before ++ ('\n' :: mark.data ++ ['\n'] ++ behind))
          = occurrences literal before + occurrences literal mark.data
            + occurrences literal behind := by
        rw [List.append_assoc, List.cons_append, Text.occurrences_append_cons hline hne,
          List.singleton_append, Text.occurrences_append_cons hline hne, Nat.add_assoc]
      have ih := ih hrest []
      rw [List.nil_append, List.nil_append] at ih
      rw [hmark, hlines, ih, List.map_cons, List.sum_cons]
      omega

/-- Marks stand in brackets, so that no opening reaches over their ends. -/
theorem separates_text {mark : Mark} {s rest : Text} (h : readMark? s = some (mark, rest))
    : Separates literal Mark.text mark := by
  have hnot {c : Char} (hc : c ≠ '\x7b') : c ∉ literal := fun h => hc (hbraces _ h)
  intro before behind
  by_cases hdata : ∃ body, mark = .item (.data body)
  · obtain ⟨body, rfl⟩ := hdata
    have hopening : ∀ c ∈ ("<![CDATA[" : Text), c ∉ literal := fun c hc =>
      hnot (by rintro rfl; exact absurd hc (by with_unfolding_all decide))
    have hclosing : ∀ c ∈ ("]]>" : Text), c ∉ literal := fun c hc =>
      hnot (by rintro rfl; exact absurd hc (by with_unfolding_all decide))
    have hempty : occurrences literal (Mark.item (.data [])).text = 0 := by
      refine Text.occurrences_of_forall_not_mem hne fun c hc => ?_
      rw [Mark.text, Markup.Item.text, List.append_nil] at hc
      exact (List.mem_append.mp hc).elim (hopening c) (hclosing c)
    rw [Mark.emptied, hempty, Mark.text, Markup.Item.text, List.append_assoc, List.append_assoc,
      Text.occurrences_append_between hne (by with_unfolding_all decide) hopening,
      Text.occurrences_append_between hne (by with_unfolding_all decide) hclosing, Mark.data]
    omega
  · have hempty := Mark.data_eq_nil hdata
    obtain ⟨inner, hinner⟩ := exists_of_readMark? h
    have hinside : occurrences literal mark.text = occurrences literal inner := by
      rw [hinner, ← List.nil_append ('<' :: _), Text.occurrences_append_cons (hnot (by decide)) hne,
        Text.occurrences_append_cons (hnot (by decide)) hne]
      simp [occurrences]
    rw [hempty.1, hempty.2, hinside, hinner, List.cons_append,
      Text.occurrences_append_cons (hnot (by decide)) hne, List.append_assoc, List.singleton_append,
      Text.occurrences_append_cons (hnot (by decide)) hne]
    simp only [occurrences]
    omega

end Occurrences

end SvgKit.Component
