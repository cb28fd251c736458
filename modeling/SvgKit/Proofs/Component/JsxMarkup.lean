import SvgKit.Proofs.Component.Brackets
import SvgKit.Proofs.Component.CharacterData
import SvgKit.Proofs.Markup.Regular

/-! Content as JSX, mark by mark. The content passes through three rewritings, of attributes, of style
elements and of comments. Where no mark hides another one from them, each mark becomes what it would
become alone, and character data stays as it is.
-/

namespace SvgKit.Component

open Markup (StartTag attributesText)

-----------------------------------------------------------------------------------------
-- Regular content
-----------------------------------------------------------------------------------------

/-- A style element begins somewhere in the text, whatever its name goes on with. -/
def hidesStyle (s : Text) : Bool :=
  Text.anyEnd (fun s => (Sanitize.readOpening? "style" s).isSome) s

/-- A comment begins somewhere in the text. -/
def hidesComment (s : Text) : Bool := Text.anyEnd (Text.startsWith · "<!--") s

/-- A style sheet with its CDATA sections opened. -/
def openedSheet (sheet : Text) : Text := (betweenScanner "<![CDATA[" "]]>").replace id sheet

/-- What stands between the brackets of a tag. -/
def tagInner (t : StartTag) : Text := (t.text.drop 1).dropLast

/-- The mark hides no other one: comments and sections hold no beginnings of what is rewritten, and
everything else holds no brackets of its own.
-/
def Mark.isRegular : Mark → Bool
  | .item (.comment body) => !hidesStyle body
  | .item (.data body) => !hidesStyle body && !hidesComment body
  | .item (.tag t) => !(tagInner t).contains '<' && !hidesStyle ('<' :: t.name)
  | .style t sheet _ =>
    !(tagInner t).contains '<' && !(tagInner t).contains '>' && !(openedSheet sheet).contains '<'
  | .endTag body | .instruction body => !body.contains '<'

/-- A piece of content is a regular mark, or a character that begins no mark. -/
def IsRegularPiece : Piece Mark → Prop
  | .plain c => c ≠ '<'
  | .found mark => mark.isRegular

/-- All pieces are regular. Where documents are well formed, only comments, sections and instructions
can be irregular, style elements with other elements in them, and tags with brackets in values.
-/
def IsRegular (content : Text) : Prop := ∀ piece ∈ marks.pieces content, IsRegularPiece piece

instance : DecidablePred IsRegularPiece
  | .plain _ => inferInstanceAs (Decidable (_ ≠ _))
  | .found _ => inferInstanceAs (Decidable (_ = true))

instance (content : Text) : Decidable (IsRegular content) :=
  inferInstanceAs (Decidable (∀ piece ∈ marks.pieces content, IsRegularPiece piece))

-----------------------------------------------------------------------------------------
-- Marks in JSX
-----------------------------------------------------------------------------------------

/-- The mark with its attributes rewritten. -/
def Mark.rewritten : Mark → Text
  | .item i => i.rewrite jsxAttribute
  | .style t sheet closing => (t.rewrite jsxAttribute).text ++ sheet ++ closing
  | mark => mark.text

/-- The mark with its attributes rewritten, and its style sheet in braces. -/
def Mark.styled : Mark → Text
  | .style t sheet closing => StyleElement.jsx ⟨(t.rewrite jsxAttribute).text, sheet, closing⟩
  | mark => mark.rewritten

/-- The mark as it is written into JSX. -/
def Mark.jsx : Mark → Text
  | .item (.comment body) => jsxComment body
  | mark => mark.styled

-----------------------------------------------------------------------------------------
-- Tags
-----------------------------------------------------------------------------------------

/-- Behind the name of a tag no letter goes on. -/
theorem foldChar_not_mem_of_isTagChar {d : Char} (hd : Markup.isTagChar d = false)
    : Text.foldChar d ∉ ("style" : Text) := by
  intro hmem
  have hascii : ∀ n < 128, Text.foldChar (Char.ofNat n) ∈ ("style" : Text)
      → Markup.isTagChar (Char.ofNat n) := by
    with_unfolding_all decide
  by_cases hc : d.val < 128
  · have hname := Text.forall_ascii
      (P := fun d => Text.foldChar d ∈ ("style" : Text) → Markup.isTagChar d) hascii hc hmem
    rw [hd] at hname
    cases hname
  · have hwide : Markup.isTagChar '\u017F' := by with_unfolding_all decide
    unfold Text.foldChar at hmem
    rw [if_neg hc] at hmem
    split at hmem
    · revert hmem
      with_unfolding_all decide
    · split at hmem
      · next hd' =>
          rw [beq_iff_eq.mp hd'] at hd
          rw [hwide] at hd
          cases hd
      · split at hmem
        · revert hmem
          with_unfolding_all decide
        · have hall : ("style" : Text).all (·.val < 128) := by with_unfolding_all decide
          exact hc (of_decide_eq_true (List.all_eq_true.mp hall d hmem))

section Tags

variable {t : StartTag} (ht : t.IsRead)
include ht

/-- A rewritten tag holds a bracket inside only if it held it before. -/
theorem exists_text_rewrite {c : Char} (hc : IsBracket c) (hinner : c ∉ tagInner t)
    : ∃ inner, (t.rewrite jsxAttribute).text = '<' :: (t.name ++ (inner ++ ['>']))
      ∧ c ∉ t.name ++ inner := by
  obtain ⟨front, hfront⟩ : ∃ front, t.close = front ++ ['>'] := by
    obtain ⟨blanks, -, hclose | hclose⟩ := ht.close
    · exact ⟨blanks, hclose⟩
    · exact ⟨blanks ++ ['/'], by simp [hclose]⟩
  have htag : tagInner t = t.name ++ (attributesText t.attributes ++ front) := by
    simp [tagInner, StartTag.text, hfront, ← List.append_assoc]
  rw [htag] at hinner
  refine ⟨attributesText (t.rewrite jsxAttribute).attributes ++ front, ?_, ?_⟩
  · simp [StartTag.text, StartTag.rewrite, hfront]
  · simp only [List.mem_append, not_or] at hinner ⊢
    refine ⟨hinner.1, fun h => hinner.2.1 ?_, hinner.2.2⟩
    obtain ⟨a', ha', h⟩ := List.mem_flatMap.mp h
    obtain ⟨a, ha, rfl⟩ := List.mem_map.mp ha'
    refine List.mem_flatMap.mpr ⟨a, ha, ?_⟩
    rw [List.mem_append] at h ⊢
    exact h.imp_right (mem_of_mem_rewrite hc)

/-- A tag opens no style element if its name does not begin as that of one. -/
theorem readStyle?_of_isRead (hname : ¬ ("style" : Text) <+: t.name.map Text.foldChar) (rest : Text)
    : readStyle? (t.text ++ rest) = none := by
  obtain ⟨d, more, hbehind, hd⟩ := ht.exists_behind
  have hfolded : Sanitize.folded ("style" : Text) = ("style" : Text) := by with_unfolding_all decide
  have htext : t.text ++ rest = '<' :: (t.name ++ d :: (more ++ rest)) := by
    rw [StartTag.text, List.cons_append, List.cons_append, List.append_assoc t.name, hbehind]
    simp
  have hopening : Sanitize.readOpening? "style" (t.text ++ rest) = none := by
    rw [htext, Sanitize.readOpening?, hfolded,
      Text.dropFolded?_append_cons (foldChar_not_mem_of_isTagChar hd), if_neg hname]
  rw [readStyle?, Sanitize.readElementTag?, hopening]

end Tags

-----------------------------------------------------------------------------------------
-- Attributes
-----------------------------------------------------------------------------------------

theorem readItem?_eq_none_of_readMark? {s : Text} (h : readMark? s = none)
    : Markup.readItem? s = none := by
  unfold readMark? at h
  split at h
  · next hread => exact hread
  · split at h <;> cases h
  · cases h

/-- What stands between two literals is read up to the first place of the second one. -/
theorem splitAtLiteral?_of_readBetween? {opening closing s body rest : Text}
    (h : readBetween? opening closing s = some (body, rest))
    : s = opening ++ (body ++ closing ++ rest)
      ∧ ∀ rest', Text.splitAtLiteral? closing (body ++ closing ++ rest') = some (body, rest') := by
  unfold readBetween? at h
  split at h
  · cases h
  · obtain ⟨left, hdrop, hif⟩ := Option.bind_eq_some_iff.mp h
    split at hif
    · rw [Text.dropLiteral?_eq_some_iff.mp hdrop, ← Text.eq_of_splitAtLiteral? hif]
      exact ⟨rfl, Text.splitAtLiteral?_append hif⟩
    · cases hif

theorem readBetween?_append {opening closing body rest : Text} (hne : opening ≠ [])
    (h : Text.splitAtLiteral? closing (body ++ closing ++ rest) = some (body, rest))
    : readBetween? opening closing (opening ++ (body ++ closing ++ rest)) = some (body, rest) := by
  obtain ⟨c, opening, rfl⟩ := List.exists_cons_of_ne_nil hne
  rw [List.cons_append, readBetween?, ← List.cons_append, Text.dropLiteral?_eq_some_iff.mpr rfl,
    Option.bind_some, if_pos (by simp), h]

/-- A CDATA section passes as it is. -/
theorem passes_data (f : Markup.Rewriter) {body : Text}
    (h : ∀ rest, Text.splitAtLiteral? "]]>" (body ++ "]]>" ++ rest) = some (body, rest))
    : Markup.scanner.Passes (Markup.Item.rewrite f) (Markup.Item.data body).text
        (Markup.Item.data body).text := by
  refine @Scanner.passes_of_read _ _ _ _ (Markup.Item.data body) fun rest => ?_
  change Markup.readItem? ("<![CDATA[" ++ body ++ "]]>" ++ rest) = _
  rw [List.append_assoc, List.append_assoc, ← List.append_assoc body, Markup.readItem?_data, h]
  rfl

/-- A style sheet has nothing to rewrite, by induction over its CDATA sections. -/
theorem passes_sheet (f : Markup.Rewriter) {sheet : Text} (h : '<' ∉ openedSheet sheet)
    : Markup.scanner.Passes (Markup.Item.rewrite f) sheet sheet := by
  unfold openedSheet at h
  induction sheet using (betweenScanner "<![CDATA[" "]]>").induction with
  | nil => exact .nil
  | plain c s hread ih =>
      rw [Scanner.replace_of_read_none hread, List.mem_cons, not_or] at h
      have hc : Markup.scanner.Passes (Markup.Item.rewrite f) [c] [c] :=
        @Scanner.passes_plain _ _ _ '<' (fun c s hc => Markup.readItem?_eq_none hc s) _ (by simpa using h.1)
      exact hc.append (ih h.2)
  | found s body rest hread ih =>
      rw [Scanner.replace_of_read hread, List.mem_append, not_or] at h
      obtain ⟨hs, hsplit⟩ := splitAtLiteral?_of_readBetween? hread
      have htext : s = (Markup.Item.data body).text ++ rest := by
        simp [hs, Markup.Item.text]
      rw [htext]
      exact (passes_data f hsplit).append (ih h.2)

/-- End tags and instructions are left alone by all rewritings. -/
theorem exists_of_readOther? {s rest : Text} {mark : Mark} (h : readOther? s = some (mark, rest))
    (hregular : mark.isRegular)
    : ∃ c inner, mark.text = '<' :: c :: inner ∧ (c = '/' ∨ c = '?') ∧ '<' ∉ c :: inner
      ∧ mark.rewritten = mark.text ∧ mark.styled = mark.text ∧ mark.jsx = mark.text := by
  rcases readOther?_cases h with ⟨body, rfl⟩ | ⟨body, rfl⟩
  · exact ⟨'/', body ++ ['>'], rfl, .inl rfl, by simpa [Mark.isRegular] using hregular, rfl, rfl, rfl⟩
  · exact ⟨'?', body ++ ['?', '>'], rfl, .inr rfl, by simpa [Mark.isRegular] using hregular, rfl,
      rfl, rfl⟩

/-- The attributes of a mark are rewritten whatever stands behind it. -/
theorem replace_of_readMark? {s rest : Text} {mark : Mark} (h : readMark? s = some (mark, rest))
    (hregular : mark.isRegular)
    : Markup.rewriteAttributes jsxAttribute s
      = mark.rewritten ++ Markup.rewriteAttributes jsxAttribute rest := by
  have hplain {s : Text} (hs : '<' ∉ s)
      : Markup.scanner.Passes (Markup.Item.rewrite jsxAttribute) s s :=
    Scanner.passes_plain (fun c s hc => Markup.readItem?_eq_none hc s) hs
  rcases readMark?_cases h with
    ⟨i, rfl, hread⟩ | ⟨t, sheet, closing, left, rfl, hread, -, hstyle⟩ | ⟨hnone, hother⟩
  · exact Scanner.replace_of_read hread
  · obtain ⟨inner, hclosing, hinner⟩ := (eq_of_splitAtStyleEnd? hstyle).2.exists_inner
    have hsheet : '<' ∉ openedSheet sheet := by
      simp only [Mark.isRegular, Bool.and_eq_true, Bool.not_eq_true'] at hregular
      simpa using hregular.2
    have hend : Markup.scanner.Passes (Markup.Item.rewrite jsxAttribute) closing closing := by
      rw [hclosing]
      refine Scanner.passes_cons (fun c s hc => Markup.readItem?_eq_none hc s) hinner fun rest => ?_
      change Markup.readItem? ('<' :: '/' :: (inner ++ rest)) = none
      rw [Markup.readItem?_of_ne (by decide)]
      rfl
    have hrest := (passes_sheet jsxAttribute hsheet).append hend rest
    rw [← (eq_of_splitAtStyleEnd? hstyle).1] at hrest
    rw [Markup.rewriteAttributes, Scanner.replace_of_read hread, hrest]
    simp [Mark.rewritten, Markup.Item.rewrite, Markup.rewriteAttributes]
  · obtain ⟨c, inner, htext, -, hinner, hrewritten, -⟩ := exists_of_readOther? hother hregular
    have hs := eq_of_readMark? h
    rw [htext] at hs
    rw [hs, List.cons_append] at hnone
    rw [hrewritten, hs, htext, Markup.rewriteAttributes, List.cons_append,
      Scanner.replace_of_read_none hnone, hplain hinner]
    rfl

theorem rewriteAttributes_eq {content : Text} (h : IsRegular content)
    : Markup.rewriteAttributes jsxAttribute content = marks.replace Mark.rewritten content := by
  unfold IsRegular at h
  induction content using marks.induction with
  | nil => rw [Markup.rewriteAttributes, Scanner.replace_nil, Scanner.replace_nil]
  | plain c s hread ih =>
      rw [marks.pieces_of_read_none hread, List.forall_mem_cons] at h
      rw [Scanner.replace_of_read_none hread, ← ih h.2]
      exact Scanner.replace_of_read_none (readItem?_eq_none_of_readMark? hread)
  | found s mark rest hread ih =>
      rw [marks.pieces_of_read hread, List.forall_mem_cons] at h
      rw [Scanner.replace_of_read hread, ← ih h.2]
      exact replace_of_readMark? hread h.1

-----------------------------------------------------------------------------------------
-- Style elements
-----------------------------------------------------------------------------------------

theorem folded_style : Sanitize.folded ("style" : Text) = ("style" : Text) := by
  with_unfolding_all decide

theorem readStyle?_of_ne {c : Char} (s : Text) (hc : c ≠ '<') : readStyle? (c :: s) = none := by
  have hopening : Sanitize.readOpening? "style" (c :: s) = none := by
    unfold Sanitize.readOpening?
    split
    · next heq => exact absurd (List.cons.inj heq).1 hc
    · rfl
  rw [readStyle?, Sanitize.readElementTag?, hopening]

theorem readStyle?_of_dropFolded? {s : Text} (h : Text.dropFolded? "style" s = none)
    : readStyle? ('<' :: s) = none := by
  rw [readStyle?, Sanitize.readElementTag?, Sanitize.readOpening?, folded_style, h]

theorem not_prefix_of_hidesStyle {s t : Text} (h : hidesStyle s = false) (ht : '<' :: t <:+ s)
    : ¬ ("style" : Text) <+: t.map Text.foldChar := by
  have hnone := (Text.anyEnd_eq_false_iff rfl).mp h _ ht
  rw [Sanitize.readOpening?, folded_style, ← Bool.not_eq_true, Text.isSome_dropFolded?_iff] at hnone
  exact hnone

/-- A text in which no style element begins passes as it is, in front of a character that none
begins with.
-/
theorem passes_unopened {f : StyleElement → Text} {s : Text} (hs : hidesStyle s = false) {d : Char}
    (hopen : d ≠ '<') (hd : Text.foldChar d ∉ ("style" : Text))
    : styleScanner.Passes f (s ++ [d]) (s ++ [d]) := by
  refine Scanner.passes_of_read_none fun c t ht rest => ?_
  change readStyle? (c :: (t ++ rest)) = none
  by_cases hc : c = '<'
  · subst hc
    obtain ⟨front, heq, hfront⟩ := (List.suffix_concat_iff.mp ht).resolve_left (by simp)
    cases front with
    | nil => exact absurd (List.cons.inj heq).1.symm hopen
    | cons x front =>
        rw [List.cons_append, List.cons.injEq] at heq
        obtain ⟨rfl, rfl⟩ := heq
        refine readStyle?_of_dropFolded? ?_
        rw [List.append_assoc, List.singleton_append, Text.dropFolded?_append_cons hd,
          if_neg (not_prefix_of_hidesStyle hs hfront)]
  · exact readStyle?_of_ne _ hc

/-- The beginnings of comments and sections are no style elements. -/
theorem hidesStyle_append {front body : Text} (hfront : front = "<!--" ∨ front = "<![CDATA[")
    : hidesStyle (front ++ body) = hidesStyle body := by
  rcases hfront with rfl | rfl <;>
    simp [hidesStyle, Text.anyEnd, Text.ofString, Sanitize.readOpening?, Sanitize.folded,
      Text.dropFolded?, Text.foldChar]

/-- A style element whose tag holds no bracket inside is read with its style sheet. -/
theorem readStyle?_of_opensStyle {t : StartTag} (ht : t.IsRead) (hopens : opensStyle t)
    (hinner : '>' ∉ tagInner t) {left sheet closing rest : Text}
    (hstyle : splitAtStyleEnd? [] left = some (sheet, closing, rest)) (rest' : Text)
    : readStyle? ((t.rewrite jsxAttribute).text ++ sheet ++ closing ++ rest')
      = some (⟨(t.rewrite jsxAttribute).text, sheet, closing⟩, rest') := by
  obtain ⟨inner, htext, hbracket⟩ := exists_text_rewrite ht (.inr rfl) hinner
  rw [opensStyle, Bool.and_eq_true, decide_eq_true_eq] at hopens
  have hend : Text.atWordEnd (inner ++ '>' :: (sheet ++ closing ++ rest')) := by
    obtain ⟨d, more, hbehind, hd⟩ := (ht.rewrite jsxAttribute).exists_behind
    have hmore : inner ++ ['>'] = d :: more := by
      rw [StartTag.text, List.cons_append, List.cons_append, List.append_assoc, hbehind,
        List.cons.injEq] at htext
      exact (List.append_cancel_left htext.2).symm
    have hword : Text.isWord d = false := by
      simp only [Markup.isTagChar, Bool.or_eq_false_iff] at hd
      exact hd.1.1.1
    rw [← List.singleton_append, ← List.append_assoc, hmore, List.cons_append, Text.atWordEnd, hword]
    rfl
  have hfive : t.name.length = 5 := by
    rw [← List.length_map (f := Text.foldChar), hopens.1]
    with_unfolding_all decide
  have hread : Sanitize.readElementTag? "style"
      ('<' :: (t.name ++ (inner ++ '>' :: (sheet ++ closing ++ rest'))))
      = some (inner, sheet ++ closing ++ rest') := by
    rw [Sanitize.readElementTag?, Sanitize.readOpening?, folded_style,
      Text.dropFolded?_append hopens.1.symm]
    dsimp only
    rw [if_pos hend, Text.splitAtLiteral?_cons fun h => hbracket (List.mem_append_right _ h)]
  have hsplit : (t.rewrite jsxAttribute).text ++ sheet ++ closing ++ rest'
      = '<' :: (t.name ++ (inner ++ '>' :: (sheet ++ closing ++ rest'))) := by
    simp [htext]
  rw [hsplit, readStyle?, hread]
  dsimp only
  rw [splitAtStyleEnd?_append hstyle, htext]
  simp [List.take_left' hfive]

theorem passes_rewritten {s rest : Text} {mark : Mark} (h : readMark? s = some (mark, rest))
    (hregular : mark.isRegular)
    : styleScanner.Passes StyleElement.jsx mark.rewritten mark.styled := by
  have hmark : ∀ c s, c ≠ '<' → styleScanner.read (c :: s) = none := fun c s hc =>
    readStyle?_of_ne s hc
  rcases readMark?_cases h with
    ⟨i, rfl, hread⟩ | ⟨t, sheet, closing, left, rfl, hread, hopens, hstyle⟩ | ⟨hnone, hother⟩
  · cases i with
    | comment body =>
        have hbody : hidesStyle ("<!--" ++ body) = false := by
          simpa [Mark.isRegular, hidesStyle_append] using hregular
        have htext : (Mark.item (.comment body)).text = "<!--" ++ body ++ ['-'] ++ ['-', '>'] := by
          simp [Mark.text, Markup.Item.text, Text.ofString]
        change styleScanner.Passes _ (Mark.item (.comment body)).text (Mark.item (.comment body)).text
        rw [htext]
        exact (passes_unopened hbody (by decide) (by with_unfolding_all decide)).append
          (Scanner.passes_plain hmark (by decide))
    | data body =>
        have hbody : hidesStyle ("<![CDATA[" ++ body) = false := by
          rw [Mark.isRegular, Bool.and_eq_true, Bool.not_eq_true'] at hregular
          rw [hidesStyle_append (.inr rfl), hregular.1]
        have htext : (Mark.item (.data body)).text = "<![CDATA[" ++ body ++ [']'] ++ [']', '>'] := by
          simp [Mark.text, Markup.Item.text, Text.ofString]
        change styleScanner.Passes _ (Mark.item (.data body)).text (Mark.item (.data body)).text
        rw [htext]
        exact (passes_unopened hbody (by decide) (by with_unfolding_all decide)).append
          (Scanner.passes_plain hmark (by decide))
    | tag t =>
        have ht := Markup.isRead_of_readItem? hread
        simp only [Mark.isRegular, Bool.and_eq_true, Bool.not_eq_true', List.contains_eq_mem,
          decide_eq_false_iff_not] at hregular
        obtain ⟨inner, htext, hinner⟩ := exists_text_rewrite ht (.inl rfl) hregular.1
        have hname := not_prefix_of_hidesStyle hregular.2 List.suffix_rfl
        have hread (rest : Text) : readStyle? ('<' :: (t.name ++ (inner ++ ['>']) ++ rest)) = none := by
          rw [← List.cons_append, ← htext]
          exact readStyle?_of_isRead (ht.rewrite jsxAttribute) hname rest
        change styleScanner.Passes _ (t.rewrite jsxAttribute).text (t.rewrite jsxAttribute).text
        rw [htext]
        refine Scanner.passes_cons hmark ?_ hread
        simpa [← List.append_assoc] using hinner
  · have ht := Markup.isRead_of_readItem? hread
    simp only [Mark.isRegular, Bool.and_eq_true, Bool.not_eq_true', List.contains_eq_mem,
      decide_eq_false_iff_not] at hregular
    exact @Scanner.passes_of_read _ _ _ _ (StyleElement.mk _ sheet closing)
      (readStyle?_of_opensStyle ht hopens hregular.1.2 hstyle)
  · obtain ⟨c, inner, htext, hc, hinner, hrewritten, hstyled, -⟩ := exists_of_readOther? hother hregular
    rw [hrewritten, hstyled, htext]
    refine Scanner.passes_cons hmark hinner fun rest => readStyle?_of_dropFolded? ?_
    rcases hc with rfl | rfl <;> simp [Text.ofString, Text.dropFolded?, Text.foldChar]

-----------------------------------------------------------------------------------------
-- Comments
-----------------------------------------------------------------------------------------

theorem readComment?_eq_none {s : Text} (h : Text.startsWith s "<!--" = false)
    : readBetween? "<!--" "-->" s = none := by
  rw [Text.startsWith, Option.isSome_eq_false_iff, Option.isNone_iff_eq_none] at h
  unfold readBetween?
  split
  · rfl
  · rw [h]
    rfl

theorem readComment?_of_ne {c : Char} (hc : c ≠ '<') (s : Text)
    : readBetween? "<!--" "-->" (c :: s) = none := by
  refine readComment?_eq_none ?_
  simp [Text.startsWith, Text.ofString, Text.dropLiteral?, hc.symm]

theorem readComment?_of_ne_mark {c : Char} (hc : c ≠ '!') (s : Text)
    : readBetween? "<!--" "-->" ('<' :: c :: s) = none := by
  refine readComment?_eq_none ?_
  simp [Text.startsWith, Text.ofString, Text.dropLiteral?, hc.symm]

/-- A text in which no comment begins passes as it is, in front of a character that none holds at its
beginning.
-/
theorem passes_uncommented {f : Text → Text} {s : Text} (hs : hidesComment s = false) {d : Char}
    (hd : d ∉ ("<!--" : Text))
    : (betweenScanner "<!--" "-->").Passes f (s ++ [d]) (s ++ [d]) := by
  refine Scanner.passes_of_read_none fun c t ht rest => ?_
  change readBetween? "<!--" "-->" (c :: (t ++ rest)) = none
  refine readComment?_eq_none ?_
  obtain ⟨front, heq, hfront⟩ := (List.suffix_concat_iff.mp ht).resolve_left (by simp)
  rw [← List.cons_append, heq, List.append_assoc, List.singleton_append,
    Text.startsWith_append_cons hd]
  exact (Text.anyEnd_eq_false_iff (by with_unfolding_all decide)).mp hs _ hfront

/-- Escapes are backslashes, by induction over the text. -/
theorem mem_of_mem_escapeTemplate {s : Text} {c : Char} (hc : c ≠ '\\') (h : c ∈ escapeTemplate s)
    : c ∈ s := by
  induction s with
  | nil => exact h
  | cons x s ih =>
      have hstep : c = x ∨ c ∈ escapeTemplate s := by
        change c ∈ escapeTemplate.step x (escapeTemplate s) at h
        unfold escapeTemplate.step at h
        split at h
        · simpa [hc] using h
        · simpa using h
      exact List.mem_cons.mpr (hstep.imp_right ih)

theorem not_mem_templateLiteral {s : Text} (hs : '<' ∉ s) : '<' ∉ templateLiteral (Text.trim s) := by
  intro hmem
  simp only [templateLiteral, List.cons_append, List.mem_cons, List.mem_append,
    List.not_mem_nil, or_false] at hmem
  rcases hmem with hmem | hmem | hmem
  · exact absurd hmem (by decide)
  · exact hs (Text.mem_of_mem_trim (mem_of_mem_escapeTemplate (by decide) hmem))
  · exact absurd hmem (by decide)

theorem passes_styled {s rest : Text} {mark : Mark} (h : readMark? s = some (mark, rest))
    (hregular : mark.isRegular)
    : (betweenScanner "<!--" "-->").Passes jsxComment mark.styled mark.jsx := by
  have hmark : ∀ c s, c ≠ '<' → (betweenScanner "<!--" "-->").read (c :: s) = none := fun c s hc =>
    readComment?_of_ne hc s
  have htag {t : StartTag} (ht : t.IsRead) (hinner : '<' ∉ tagInner t)
      : (betweenScanner "<!--" "-->").Passes jsxComment (t.rewrite jsxAttribute).text
          (t.rewrite jsxAttribute).text := by
    obtain ⟨inner, htext, hbracket⟩ := exists_text_rewrite ht (.inl rfl) hinner
    obtain ⟨c, name, hname, hc⟩ := ht.name
    rw [htext]
    refine Scanner.passes_cons hmark (by simpa [← List.append_assoc] using hbracket) fun rest => ?_
    rw [hname]
    refine readComment?_of_ne_mark ?_ _
    rintro rfl
    exact absurd hc (by decide)
  rcases readMark?_cases h with
    ⟨i, rfl, hread⟩ | ⟨t, sheet, closing, left, rfl, hread, hopens, hstyle⟩ | ⟨hnone, hother⟩
  · cases i with
    | comment body =>
        refine @Scanner.passes_of_read _ _ _ _ body fun rest' => ?_
        have hne : ("<!--" : Text) ≠ [] := by with_unfolding_all decide
        have := readBetween?_append hne (Markup.splitAtLiteral?_of_comment hread rest')
        change readBetween? _ _ ("<!--" ++ body ++ "-->" ++ rest') = _
        rwa [List.append_assoc, List.append_assoc, ← List.append_assoc body]
    | data body =>
        have hbody : hidesComment ("<![CDATA[" ++ body) = false := by
          rw [Mark.isRegular, Bool.and_eq_true, Bool.not_eq_true', Bool.not_eq_true'] at hregular
          rw [← hregular.2]
          simp [hidesComment, Text.anyEnd, Text.ofString, Text.startsWith, Text.dropLiteral?]
        have htext : (Mark.item (.data body)).text = "<![CDATA[" ++ body ++ [']'] ++ [']', '>'] := by
          simp [Mark.text, Markup.Item.text, Text.ofString]
        change Scanner.Passes _ _ (Mark.item (.data body)).text (Mark.item (.data body)).text
        rw [htext]
        exact (passes_uncommented hbody (by with_unfolding_all decide)).append
          (Scanner.passes_plain hmark (by decide))
    | tag t =>
        simp only [Mark.isRegular, Bool.and_eq_true, Bool.not_eq_true', List.contains_eq_mem,
          decide_eq_false_iff_not] at hregular
        exact htag (Markup.isRead_of_readItem? hread) hregular.1
  · simp only [Mark.isRegular, Bool.and_eq_true, Bool.not_eq_true', List.contains_eq_mem,
      decide_eq_false_iff_not] at hregular
    obtain ⟨inner, hclosing, hinner⟩ := (eq_of_splitAtStyleEnd? hstyle).2.exists_inner
    have hsheet := not_mem_templateLiteral hregular.2
    have hend : (betweenScanner "<!--" "-->").Passes jsxComment closing closing := by
      rw [hclosing]
      exact Scanner.passes_cons hmark hinner fun rest => readComment?_of_ne_mark (by decide) _
    have hmiddle : '<' ∉ '\x7b' :: templateLiteral (Text.trim (openedSheet sheet)) ++ ['\x7d'] := by
      simpa using hsheet
    have := ((htag (Markup.isRead_of_readItem? hread) hregular.1.1).append
      (Scanner.passes_plain hmark hmiddle)).append hend
    simpa [Mark.jsx, Mark.styled, StyleElement.jsx, openedSheet] using this
  · obtain ⟨c, inner, htext, hc, hinner, -, hstyled, hjsx⟩ := exists_of_readOther? hother hregular
    rw [hstyled, hjsx, htext]
    refine Scanner.passes_cons hmark hinner fun rest => readComment?_of_ne_mark ?_ _
    rcases hc with rfl | rfl <;> decide

/-- Regular content becomes JSX mark by mark. -/
theorem jsxMarkup_eq {content : Text} (h : IsRegular content)
    : jsxMarkup content = marks.replace Mark.jsx content := by
  have hplain {c : Char} (hc : .plain c ∈ marks.pieces content) : '<' ∉ [c] := by
    have hne : c ≠ '<' := h _ hc
    simpa using hne.symm
  have hstyled : styleScanner.replace StyleElement.jsx (marks.replace Mark.rewritten content)
      = marks.replace Mark.styled content := by
    refine Scanner.replace_replace (fun c hc => ?_) fun mark hmark => ?_
    · exact Scanner.passes_plain (fun c s hc => readStyle?_of_ne s hc) (hplain hc)
    · obtain ⟨s, rest, hread⟩ := marks.exists_read_of_mem_pieces hmark
      exact passes_rewritten hread (h _ hmark)
  have hcommented : (betweenScanner "<!--" "-->").replace jsxComment (marks.replace Mark.styled content)
      = marks.replace Mark.jsx content := by
    refine Scanner.replace_replace (fun c hc => ?_) fun mark hmark => ?_
    · exact Scanner.passes_plain (fun c s hc => readComment?_of_ne hc s) (hplain hc)
    · obtain ⟨s, rest, hread⟩ := marks.exists_read_of_mem_pieces hmark
      exact passes_styled hread (h _ hmark)
  rw [jsxMarkup, rewriteAttributes_eq h, hstyled, hcommented]

end SvgKit.Component
