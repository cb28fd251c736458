import SvgKit.Proofs.Component.JsxMarkup
import SvgKit.Proofs.Markup.Renaming
import SvgKit.Proofs.Markup.Rewording

/-! Tags of trees as the three rewritings into JSX meet them. Attributes are rewritten tag by tag; a
tag is then taken for one of a style element by its name alone, up to the first character that no
word goes on with.
-/

namespace SvgKit.Component

open Markup (IsClose Item Rewriter StartTag rewriteAttributes)
open Xml (Tag)

-----------------------------------------------------------------------------------------
-- Names
-----------------------------------------------------------------------------------------

/-- The name of a style element, in any case. -/
def isSheetName (name : Text) : Bool := name.map Text.foldChar = ("style" : Text)

/-- A start tag with the name is taken for that of a style element. -/
def opensSheet (name : Text) : Bool :=
  ("style" : Text) <+: name.map Text.foldChar && Text.atWordEnd (name.drop 5)

/-- An end tag with the name is taken for that of a style element. -/
def closesSheet (name : Text) : Bool := (readStyleEnd? ('<' :: '/' :: (name ++ ['>']))).isSome

theorem length_style : ("style" : Text).length = 5 := by with_unfolding_all decide

theorem five_le_length {s : Text} (h : ("style" : Text) <+: s.map Text.foldChar)
    : 5 ≤ s.length := by
  have hlength := h.length_le
  rwa [length_style, List.length_map] at hlength

/-- What stands behind a name does not matter if no name goes on with it. -/
theorem opensSheet_append_cons {d : Char} (hd : Markup.isTagChar d = false) (s rest : Text)
    : opensSheet (s ++ d :: rest) = opensSheet s := by
  have hbegins : ("style" : Text) <+: (s ++ d :: rest).map Text.foldChar
      ↔ ("style" : Text) <+: s.map Text.foldChar := by
    rw [← Text.isSome_dropFolded?_iff,
      Text.dropFolded?_append_cons (foldChar_not_mem_of_isTagChar hd)]
    split <;> simp [*]
  unfold opensSheet
  by_cases hs : ("style" : Text) <+: s.map Text.foldChar
  · have hword : Text.isWord d = false := by
      simp only [Markup.isTagChar, Bool.or_eq_false_iff] at hd
      exact hd.1.1.1
    rw [decide_eq_true (hbegins.mpr hs), decide_eq_true hs,
      List.drop_append_of_le_length (five_le_length hs)]
    cases s.drop 5 with
    | nil => simp [Text.atWordEnd, hword]
    | cons c more => rfl
  · rw [decide_eq_false fun h => hs (hbegins.mp h), decide_eq_false hs, Bool.false_and,
      Bool.false_and]

/-- The tag of a style element is read up to its first bracket. -/
theorem readElementTag?_append {inner : Text} (hinner : '>' ∉ inner) (rest : Text)
    : Sanitize.readElementTag? "style" ('<' :: (inner ++ '>' :: rest))
      = if opensSheet inner then some (inner.drop 5, rest) else none := by
  have hbracket : Markup.isTagChar '>' = false := by with_unfolding_all decide
  rw [Sanitize.readElementTag?, Sanitize.readOpening?, folded_style,
    Text.dropFolded?_append_cons (foldChar_not_mem_of_isTagChar hbracket), length_style]
  by_cases hbegins : ("style" : Text) <+: inner.map Text.foldChar
  · have hword : Text.atWordEnd (inner.drop 5 ++ '>' :: rest) = opensSheet inner := by
      have hbegins' : ("style" : Text) <+: (inner ++ '>' :: rest).map Text.foldChar := by
        rw [List.map_append]
        exact hbegins.trans (List.prefix_append _ _)
      rw [← opensSheet_append_cons hbracket inner rest, opensSheet, decide_eq_true hbegins',
        Bool.true_and, List.drop_append_of_le_length (five_le_length hbegins)]
    rw [if_pos hbegins]
    dsimp only
    rw [hword, Text.splitAtLiteral?_cons fun hmem => hinner (List.mem_of_mem_drop hmem)]
  · rw [if_neg hbegins, opensSheet, decide_eq_false hbegins]
    rfl

section Closing

variable {name : Text} (hname : '>' ∉ name)

theorem opensSheet_of_isSheetName (h : isSheetName name) : opensSheet name := by
  have hfive : name.length = 5 := by
    rw [← List.length_map (f := Text.foldChar), of_decide_eq_true h, length_style]
  rw [opensSheet, Bool.and_eq_true, decide_eq_true_eq, of_decide_eq_true h]
  exact ⟨List.prefix_rfl, by rw [List.drop_eq_nil_of_le hfive.le]; rfl⟩

theorem readStyleEnd?_append {closing : Text} (h : IsStyleEnd closing) (rest : Text)
    : readStyleEnd? (closing ++ rest) = some (closing, rest) :=
  readStyleEnd?_eq_some_iff.mpr ⟨h, rfl⟩

theorem closesSheet_of_isStyleEnd (h : IsStyleEnd ('<' :: '/' :: (name ++ ['>'])))
    : closesSheet name := by
  have hread := readStyleEnd?_append h []
  rw [List.append_nil] at hread
  exact Option.isSome_of_eq_some hread

theorem isStyleEnd_of_isSheetName (h : isSheetName name)
    : IsStyleEnd ('<' :: '/' :: (name ++ ['>'])) :=
  ⟨name, [], of_decide_eq_true h, by simp, by simp⟩

theorem closesSheet_of_isSheetName (h : isSheetName name) : closesSheet name :=
  closesSheet_of_isStyleEnd (isStyleEnd_of_isSheetName h)

include hname

/-- An end tag is read as the one of a style element with the whole of its name, perhaps with what
stands for blanks in it.
-/
theorem exists_of_readStyleEnd? {closing left rest : Text}
    (h : readStyleEnd? ('<' :: '/' :: (name ++ '>' :: rest)) = some (closing, left))
    : ∃ n blanks, isSheetName n ∧ (∀ c ∈ blanks, Text.isBlank c) ∧ name = n ++ blanks
      ∧ closing = '<' :: '/' :: (name ++ ['>']) ∧ left = rest := by
  obtain ⟨⟨n, blanks, hn, hblanks, rfl⟩, htext⟩ := readStyleEnd?_eq_some_iff.mp h
  have hinside : '>' ∉ n ++ blanks := by
    rw [List.mem_append, not_or]
    refine ⟨fun hmem => ?_, fun hmem => absurd (hblanks _ hmem) (by decide)⟩
    have hfold : Text.foldChar '>' ∈ ("style" : Text) := hn ▸ List.mem_map_of_mem hmem
    revert hfold
    with_unfolding_all decide
  have heq : name ++ '>' :: rest = (n ++ blanks) ++ '>' :: left := by simpa using htext
  have hsplit := Text.splitAtLiteral?_cons hname rest
  rw [heq, Text.splitAtLiteral?_cons hinside] at hsplit
  simp only [Option.some.injEq, Prod.mk.injEq] at hsplit
  obtain ⟨rfl, rfl⟩ := hsplit
  exact ⟨n, blanks, decide_eq_true hn, hblanks, rfl, rfl, rfl⟩

/-- What follows an end tag does not matter to whether it is read. -/
theorem readStyleEnd?_finish (h : closesSheet name = false) (rest : Text)
    : readStyleEnd? ('<' :: '/' :: (name ++ '>' :: rest)) = none := by
  cases hread : readStyleEnd? ('<' :: '/' :: (name ++ '>' :: rest)) with
  | none => rfl
  | some found =>
      obtain ⟨n, blanks, hn, hblanks, rfl, -, -⟩ := exists_of_readStyleEnd? hname hread
      rw [closesSheet_of_isStyleEnd ⟨n, blanks, of_decide_eq_true hn, hblanks, rfl⟩] at h
      cases h

/-- What ends as a style element begins as one. -/
theorem opensSheet_of_closesSheet (h : closesSheet name) : opensSheet name := by
  obtain ⟨found, hread⟩ := Option.isSome_iff_exists.mp h
  obtain ⟨n, blanks, hn, hblanks, rfl, -, -⟩ := exists_of_readStyleEnd? hname hread
  have hopens := opensSheet_of_isSheetName hn
  cases blanks with
  | nil => rwa [List.append_nil]
  | cons d blanks =>
      have hd : Markup.isTagChar d = false := by
        by_contra htag
        have := Markup.isBlank_of_isTagChar (Bool.not_eq_false _ ▸ htag)
        rw [hblanks d List.mem_cons_self] at this
        cases this
      rwa [opensSheet_append_cons hd]

end Closing

-----------------------------------------------------------------------------------------
-- Ends of style elements
-----------------------------------------------------------------------------------------

/-- No end tag of a style element stands anywhere in the text. -/
def Unclosed (s : Text) : Prop := ∀ t, t <:+ s → readStyleEnd? t = none

theorem readStyleEnd?_of_ne {c : Char} (hc : c ≠ '<') (s : Text)
    : readStyleEnd? (c :: s) = none := by
  refine Option.eq_none_iff_forall_ne_some.mpr fun found hread => ?_
  obtain ⟨hclosing, heq⟩ := readStyleEnd?_eq_some_iff.mp hread
  obtain ⟨inner, hinner, -⟩ := hclosing.exists_inner
  rw [hinner] at heq
  exact hc (List.cons.inj heq).1

theorem readStyleEnd?_of_ne_slash {c : Char} (hc : c ≠ '/') (s : Text)
    : readStyleEnd? ('<' :: c :: s) = none := by
  refine Option.eq_none_iff_forall_ne_some.mpr fun found hread => ?_
  obtain ⟨hclosing, heq⟩ := readStyleEnd?_eq_some_iff.mp hread
  obtain ⟨inner, hinner, -⟩ := hclosing.exists_inner
  rw [hinner] at heq
  exact hc (List.cons.inj (List.cons.inj heq).2).1

theorem unclosed_nil : Unclosed [] := by
  intro t ht
  rw [List.suffix_nil.mp ht]
  with_unfolding_all decide

theorem Unclosed.cons {c : Char} {s : Text} (hread : readStyleEnd? (c :: s) = none)
    (hs : Unclosed s)
    : Unclosed (c :: s) := by
  intro t ht
  rcases List.suffix_cons_iff.mp ht with rfl | ht
  · exact hread
  · exact hs t ht

/-- Text in front of one without end tags, by induction over the text. -/
theorem Unclosed.append {s rest : Text} (hs : '<' ∉ s) (hrest : Unclosed rest)
    : Unclosed (s ++ rest) := by
  induction s with
  | nil => exact hrest
  | cons c s ih =>
      rw [List.mem_cons, not_or] at hs
      exact .cons (readStyleEnd?_of_ne (Ne.symm hs.1) _) (ih hs.2)

/-- Other end tags in front of it, too. -/
theorem Unclosed.finish {name rest : Text} (hname : ∀ d, IsBracket d → d ∉ name)
    (h : closesSheet name = false) (hrest : Unclosed rest)
    : Unclosed ('<' :: '/' :: (name ++ ['>']) ++ rest) := by
  simp only [List.cons_append, List.append_assoc, List.nil_append]
  exact .cons (readStyleEnd?_finish (hname _ (.inr rfl)) h _)
    (.cons (readStyleEnd?_of_ne (by decide) _) (.append (hname _ (.inl rfl))
      (.cons (readStyleEnd?_of_ne (by decide) _) hrest)))

theorem Unclosed.splitAtStyleEnd? {s : Text} (h : Unclosed s) (done : Text)
    : splitAtStyleEnd? done s = none := by
  induction s generalizing done with
  | nil => rfl
  | cons c s ih =>
      rw [Component.splitAtStyleEnd?, h _ List.suffix_rfl]
      exact ih (fun t ht => h t (ht.trans (List.suffix_cons _ _))) _

/-- A style sheet without brackets ends at the first end tag, by induction over it. -/
theorem splitAtStyleEnd?_of_not_mem {sheet closing : Text} (hsheet : '<' ∉ sheet)
    (hclosing : IsStyleEnd closing) (done rest : Text)
    : splitAtStyleEnd? done (sheet ++ (closing ++ rest))
      = some (done.reverse ++ sheet, closing, rest) := by
  induction sheet generalizing done with
  | nil =>
      obtain ⟨inner, hinner, -⟩ := hclosing.exists_inner
      have hread := readStyleEnd?_append hclosing rest
      rw [hinner, List.cons_append] at hread
      rw [List.nil_append, hinner, List.cons_append, splitAtStyleEnd?, hread, List.append_nil]
  | cons c sheet ih =>
      rw [List.mem_cons, not_or] at hsheet
      rw [List.cons_append, splitAtStyleEnd?, readStyleEnd?_of_ne (Ne.symm hsheet.1)]
      simpa using ih hsheet.2 (c :: done)

-----------------------------------------------------------------------------------------
-- Style sheets
-----------------------------------------------------------------------------------------

/-- A style sheet as a template literal in braces. -/
def sheetExpression (s : Text) : Text := '\x7b' :: templateLiteral (Text.trim s) ++ ['\x7d']

theorem not_mem_sheetExpression {s : Text} (hs : '<' ∉ s) : '<' ∉ sheetExpression s := by
  simpa [sheetExpression] using not_mem_templateLiteral hs

theorem readData?_of_ne {c : Char} (hc : c ≠ '<') (s : Text)
    : readBetween? "<![CDATA[" "]]>" (c :: s) = none := by
  simp [readBetween?, Text.ofString, Text.dropLiteral?, hc.symm]

-----------------------------------------------------------------------------------------
-- Start tags
-----------------------------------------------------------------------------------------

/-- The text of a start tag that is taken for one of a style element if its name is. -/
def IsTagText (name s : Text) : Prop :=
  ∃ c inner, s = '<' :: c :: (inner ++ ['>']) ∧ c ≠ '!' ∧ c ≠ '/'
    ∧ (∀ d, IsBracket d → d ∉ c :: inner) ∧ opensSheet (c :: inner) = opensSheet name

namespace IsTagText

variable {name s : Text} (h : IsTagText name s)
include h

/-- Up to its bracket it is read as the tag of a style element, whatever follows. -/
theorem readStyle?_eq (rest : Text)
    : readStyle? (s ++ rest)
      = if opensSheet name then
          (splitAtStyleEnd? [] rest).map fun (sheet, closing, left) => (⟨s, sheet, closing⟩, left)
        else none := by
  obtain ⟨c, inner, rfl, -, -, hinner, hopens⟩ := h
  have htag := readElementTag?_append (hinner '>' (.inr rfl)) rest
  have htext : '<' :: c :: (inner ++ ['>']) ++ rest = '<' :: (c :: inner ++ '>' :: rest) := by simp
  rw [htext, readStyle?, htag, hopens]
  by_cases hname : opensSheet name
  · have hlength : 5 ≤ (c :: inner).length := by
      rw [← hopens, opensSheet, Bool.and_eq_true, decide_eq_true_eq] at hname
      exact five_le_length hname.1
    have htake : ('<' :: (c :: inner ++ '>' :: rest)).take 6 ++ (c :: inner).drop 5 ++ ['>']
        = '<' :: c :: (inner ++ ['>']) := by
      rw [List.take_succ_cons, List.take_append_of_le_length hlength, List.cons_append,
        List.take_append_drop]
      rfl
    rw [if_pos hname, if_pos hname]
    dsimp only
    rw [htake]
  · rw [if_neg hname, if_neg hname]

/-- It stays as it is where no style element ends behind it. -/
theorem replace_unclosed {rest : Text} (hrest : opensSheet name → Unclosed rest)
    : styleScanner.replace StyleElement.jsx (s ++ rest)
      = s ++ styleScanner.replace StyleElement.jsx rest := by
  have hread := h.readStyle?_eq rest
  have hnone : readStyle? (s ++ rest) = none := by
    rw [hread]
    split
    · next hopens => rw [(hrest hopens).splitAtStyleEnd?, Option.map_none]
    · rfl
  obtain ⟨c, inner, rfl, -, -, hinner, -⟩ := h
  have hbracket : '<' ∉ c :: (inner ++ ['>']) := by
    have := hinner '<' (.inl rfl)
    simpa using this
  rw [List.cons_append] at hnone ⊢
  have hpasses : styleScanner.Passes StyleElement.jsx (c :: (inner ++ ['>']))
      (c :: (inner ++ ['>'])) :=
    Scanner.passes_plain (fun c s hc => readStyle?_of_ne s hc) hbracket
  rw [Scanner.replace_of_read_none hnone, hpasses]
  rfl

/-- With a style sheet and the end tag behind it, it becomes the element with an expression. -/
theorem replace_sheet (hname : isSheetName name) {sheet : Text} (hsheet : '<' ∉ sheet) (rest : Text)
    : styleScanner.replace StyleElement.jsx
        (s ++ (sheet ++ ('<' :: '/' :: (name ++ ['>']) ++ rest)))
      = s ++ (sheetExpression sheet
        ++ ('<' :: '/' :: (name ++ ['>']) ++ styleScanner.replace StyleElement.jsx rest)) := by
  have hend := isStyleEnd_of_isSheetName hname
  have hread := h.readStyle?_eq (sheet ++ ('<' :: '/' :: (name ++ ['>']) ++ rest))
  rw [if_pos (opensSheet_of_isSheetName hname), splitAtStyleEnd?_of_not_mem hsheet hend] at hread
  have hopened : (betweenScanner "<![CDATA[" "]]>").replace id sheet = sheet :=
    (Scanner.passes_plain (fun c s hc => readData?_of_ne hc s) hsheet).replace_eq
  rw [Scanner.replace_of_read hread, StyleElement.jsx]
  simp [sheetExpression, hopened]

/-- Nothing to be read as a comment is in it. -/
theorem passes_comment
    : (betweenScanner "<!--" "-->").Passes jsxComment s s := by
  obtain ⟨c, inner, rfl, hmark, -, hinner, -⟩ := h
  have hbracket : '<' ∉ c :: (inner ++ ['>']) := by
    have := hinner '<' (.inl rfl)
    simpa using this
  exact Scanner.passes_cons (fun c s hc => readComment?_of_ne hc s) hbracket fun rest =>
    readComment?_of_ne_mark hmark _

/-- It is no end tag and holds none. -/
theorem unclosed {rest : Text} (hrest : Unclosed rest) : Unclosed (s ++ rest) := by
  obtain ⟨c, inner, rfl, -, hslash, hinner, -⟩ := h
  have hbracket : '<' ∉ c :: (inner ++ ['>']) := by
    have := hinner '<' (.inl rfl)
    simpa using this
  exact .cons (readStyleEnd?_of_ne_slash hslash _) (.append hbracket hrest)

end IsTagText

-----------------------------------------------------------------------------------------
-- Rewritten start tags
-----------------------------------------------------------------------------------------

/-- A start tag that has been read stays one when its attributes are rewritten. -/
theorem isTagText_rewrite {t : StartTag} (ht : t.IsRead)
    (hinner : ∀ d, IsBracket d → d ∉ tagInner t)
    : IsTagText t.name (t.rewrite jsxAttribute).text := by
  obtain ⟨inner, htext, hopening⟩ := exists_text_rewrite ht (.inl rfl) (hinner '<' (.inl rfl))
  obtain ⟨inner', htext', hclosing⟩ := exists_text_rewrite ht (.inr rfl) (hinner '>' (.inr rfl))
  obtain rfl : inner = inner' := by
    rw [htext, List.cons.injEq] at htext'
    exact List.append_cancel_right (List.append_cancel_left htext'.2)
  obtain ⟨c, s, hname, hc⟩ := ht.name
  obtain ⟨d, more, hbehind, hd⟩ := (ht.rewrite jsxAttribute).exists_behind
  have hopens : opensSheet (t.name ++ inner) = opensSheet t.name := by
    have hmore : t.name ++ inner ++ '>' :: [] = t.name ++ d :: more := by
      rw [StartTag.text, List.cons_append, List.cons_append, List.append_assoc, hbehind,
        List.cons.injEq] at htext
      rw [List.append_assoc]
      exact htext.2.symm
    have hbracket : Markup.isTagChar '>' = false := by with_unfolding_all decide
    rw [← opensSheet_append_cons hbracket (t.name ++ inner) [], hmore, opensSheet_append_cons hd]
  rw [hname] at htext hopening hclosing hopens ⊢
  refine ⟨c, s ++ inner, by simpa using htext, ?_, ?_, ?_, hopens⟩
  · rintro rfl
    exact absurd hc (by decide)
  · rintro rfl
    exact absurd hc (by decide)
  · rintro d (rfl | rfl)
    · exact hopening
    · exact hclosing

section Rewriting

variable {t : Tag} (ht : t.Sound) {close : Text} (hclose : IsClose close)
include ht hclose

/-- A start tag that cannot be read passes as it is. -/
theorem passes_unread (f : Rewriter)
    (hnone : ∀ rest, Markup.readItem? ('<' :: (t.text ++ (close ++ rest))) = none)
    : Markup.scanner.Passes (Item.rewrite f) ('<' :: (t.text ++ close))
        ('<' :: (t.text ++ close)) := by
  have hplain : '<' ∉ t.text ++ close := by
    rcases hclose with rfl | rfl <;> simp [ht.not_mem_text (.inl rfl)]
  refine Scanner.passes_cons (fun c s hc => Markup.readItem?_eq_none hc s) hplain fun rest => ?_
  rw [List.append_assoc]
  exact hnone rest

/-- The attributes of a start tag are rewritten as if it stood alone. -/
theorem passes_tag (f : Rewriter)
    : Markup.scanner.Passes (Item.rewrite f) ('<' :: (t.text ++ close))
        (rewriteAttributes f ('<' :: (t.text ++ close))) := by
  have hpasses : ∃ s, Markup.scanner.Passes (Item.rewrite f) ('<' :: (t.text ++ close)) s := by
    rcases Markup.readItem?_text ht with hnone | ⟨read, -, -, -, hread⟩
    · exact ⟨_, passes_unread ht hclose f fun rest => hnone close rest hclose⟩
    · refine ⟨_, @Scanner.passes_of_read _ _ _ _ (.tag (read close)) fun rest => ?_⟩
      rw [List.cons_append, List.append_assoc]
      exact hread close rest hclose
  obtain ⟨s, hs⟩ := hpasses
  rwa [rewriteAttributes, hs.replace_eq]

omit ht in
/-- What stands behind the name of a tag ends the name. -/
theorem opensSheet_text : opensSheet (t.text ++ close) = opensSheet t.name.text := by
  rw [Markup.text_eq_assignments, List.append_assoc]
  cases t.given with
  | nil =>
      rcases hclose with rfl | rfl
      · exact opensSheet_append_cons (by with_unfolding_all decide) _ _
      · exact opensSheet_append_cons (by with_unfolding_all decide) _ _
  | cons a given => exact opensSheet_append_cons (by with_unfolding_all decide) _ _

/-- The text of a start tag stays that of one with its name. -/
theorem isTagText_rewriteAttributes
    : IsTagText t.name.text (rewriteAttributes jsxAttribute ('<' :: (t.text ++ close))) := by
  obtain ⟨front, hfront, hbrackets⟩ : ∃ front, close = front ++ ['>']
      ∧ ∀ d, IsBracket d → d ∉ front := by
    rcases hclose with rfl | rfl
    · exact ⟨[], rfl, by simp⟩
    · refine ⟨['/'], rfl, ?_⟩
      rintro d (rfl | rfl) <;> decide
  have hinner : ∀ d, IsBracket d → d ∉ t.text ++ front := fun d hd hmem =>
    (List.mem_append.mp hmem).elim (ht.not_mem_text hd) (hbrackets d hd)
  have hopens := @opensSheet_text t close hclose
  rcases Markup.readItem?_text ht with hnone | ⟨read, -, -, -, hread⟩
  · have hself : rewriteAttributes jsxAttribute ('<' :: (t.text ++ close))
        = '<' :: (t.text ++ close) :=
      (passes_unread ht hclose jsxAttribute fun rest => hnone close rest hclose).replace_eq
    obtain ⟨c, name, hname, hc⟩ := ht.name.text_eq_cons
    obtain ⟨inner, htag⟩ : ∃ inner, t.text ++ front = c :: inner := by
      rw [Markup.text_eq_assignments, hname]
      exact ⟨_, rfl⟩
    have hbracket : Markup.isTagChar '>' = false := by with_unfolding_all decide
    rw [hfront, ← List.append_assoc, opensSheet_append_cons hbracket, htag] at hopens
    rw [hself, hfront, ← List.append_assoc, htag]
    rw [htag] at hinner
    refine ⟨c, inner, by simp, ?_, ?_, hinner, hopens⟩
    · rintro rfl
      exact absurd hc (by with_unfolding_all decide)
    · rintro rfl
      exact absurd hc (by with_unfolding_all decide)
  · have hitem := hread close [] hclose
    rw [List.append_nil] at hitem
    have hisRead := Markup.isRead_of_readItem? hitem
    have hwritten : (read close).text = '<' :: (t.text ++ close) := by
      simpa [Item.text] using (Markup.eq_of_readItem? hitem).symm
    have hname : opensSheet (read close).name = opensSheet t.name.text := by
      obtain ⟨d, more, hbehind, hd⟩ := hisRead.exists_behind
      rw [StartTag.text, List.cons_append, List.cons_append, List.append_assoc, hbehind,
        List.cons.injEq] at hwritten
      rw [← hopens, ← hwritten.2, opensSheet_append_cons hd]
    have hinside : tagInner (read close) = t.text ++ front := by
      rw [tagInner, hwritten, hfront, ← List.append_assoc, List.drop_succ_cons, List.drop_zero,
        List.dropLast_concat]
    have hrewritten : rewriteAttributes jsxAttribute ('<' :: (t.text ++ close))
        = ((read close).rewrite jsxAttribute).text := by
      rw [rewriteAttributes, Scanner.replace_of_read hitem, Scanner.replace_nil, List.append_nil]
      rfl
    rw [hrewritten, IsTagText, ← hname]
    exact isTagText_rewrite hisRead (hinside ▸ hinner)

end Rewriting

end SvgKit.Component
