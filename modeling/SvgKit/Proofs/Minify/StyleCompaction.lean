import SvgKit.Proofs.Minify.NormalForm
import SvgKit.Proofs.Minify.References
import SvgKit.Proofs.Minify.StyleNesting
import SvgKit.Proofs.Text.Pieces

/-! What becomes of the declarations of a style in its compact form. The style is cut at every
semicolon, those inside of quotes and parentheses included, and every part is trimmed by itself; so
the declarations are kept exactly if each of them, written without white space around it, would stay
as it is.
-/

namespace SvgKit.Minify

open Text (splitOnChar trim)

-----------------------------------------------------------------------------------------
-- Parts
-----------------------------------------------------------------------------------------

/-- What a part of a style becomes. -/
def compactPart? (part : Text) : Option Text := (Declaration.ofText? part).map Declaration.text

/-- The compact form of a style, empty where nothing is declared. -/
def compactText (style : Text) : Text := (compactStyle? style).getD []

/-- Every part of the style stays as it is. -/
def IsCompact (style : Text) : Prop :=
  ∀ part ∈ splitOnChar (· == ';') style, compactPart? part = some part

theorem ofText?_eq_none {part : Text} (h : ':' ∉ part) : Declaration.ofText? part = none := by
  rw [Declaration.ofText?, Option.map_eq_none_iff]
  cases hsplit : Text.splitAtLiteral? [':'] part with
  | none => rfl
  | some found =>
      rw [Text.eq_of_splitAtLiteral? hsplit] at h
      simp at h

theorem ofText?_cons {property : Text} (h : ':' ∉ property) (value : Text)
    : Declaration.ofText? (property ++ ':' :: value) = some ⟨trim property, trim value⟩ := by
  rw [Declaration.ofText?, Text.splitAtLiteral?_cons h]
  rfl

theorem compactPart?_cons {property : Text} (h : ':' ∉ property) (value : Text)
    : compactPart? (property ++ ':' :: value) = some (trim property ++ ':' :: trim value) := by
  rw [compactPart?, ofText?_cons h]
  rfl

theorem map_text_declarations (style : Text)
    : (declarations style).map Declaration.text
      = (splitOnChar (· == ';') style).filterMap compactPart? := List.map_filterMap ..

theorem compactText_eq (style : Text)
    : compactText style
      = Text.join [';'] ((splitOnChar (· == ';') style).filterMap compactPart?) := by
  rw [compactText, compactStyle?, map_text_declarations]
  split
  · next hempty => rw [List.isEmpty_iff.mp hempty]; rfl
  · rfl

theorem compactText_eq_join (style : Text)
    : compactText style = Text.join [';'] ((declarations style).map Declaration.text) := by
  rw [compactText_eq, map_text_declarations]

theorem compactText_congr {s t : Text} (h : declarations s = declarations t)
    : compactText s = compactText t := by
  rw [compactText_eq_join, h, ← compactText_eq_join]

/-- A compact form is cut at the semicolons between its declarations. -/
theorem splitOnChar_compactText {style : Text} (hne : declarations style ≠ [])
    : splitOnChar (· == ';') (compactText style) = (declarations style).map Declaration.text := by
  rw [compactText_eq_join]
  exact Text.splitOnChar_join (by simpa using hne)
    (List.forall_mem_map.mpr fun d hd => (ofText?_text_of_mem_declarations hd).1) rfl

theorem isCompact_compactText {style : Text} (hne : declarations style ≠ [])
    : IsCompact (compactText style) := by
  intro part hpart
  rw [splitOnChar_compactText hne] at hpart
  obtain ⟨d, hd, rfl⟩ := List.mem_map.mp hpart
  rw [compactPart?, (ofText?_text_of_mem_declarations hd).2, Option.map_some]

theorem compactStyle?_eq_some_self_iff {style : Text}
    : compactStyle? style = some style ↔ IsCompact style := by
  constructor
  · intro h
    obtain ⟨hne, heq⟩ := compactStyle?_eq_some_iff.mp h
    rw [← compactText_eq_join] at heq
    exact heq ▸ isCompact_compactText hne
  · intro h
    have hparts : (splitOnChar (· == ';') style).filterMap compactPart?
        = splitOnChar (· == ';') style := by
      rw [List.filterMap_congr h]
      exact List.filterMap_some
    rw [← map_text_declarations] at hparts
    refine compactStyle?_eq_some_iff.mpr ⟨fun hnil => ?_, ?_⟩
    · rw [hnil] at hparts
      cases hparts
    · rw [hparts, Text.join_splitOnChar]

theorem length_compactText_le (style : Text) : (compactText style).length ≤ style.length := by
  rw [compactText_eq]
  conv_rhs => rw [← Text.join_splitOnChar ';' style]
  refine Text.length_join_filterMap_le (fun part text h => ?_) _
  obtain ⟨d, hd, rfl⟩ := Option.map_eq_some_iff.mp h
  obtain ⟨⟨property, value⟩, hsplit, rfl⟩ := Option.map_eq_some_iff.mp hd
  have hproperty := Text.length_trim_le property
  have hvalue := Text.length_trim_le value
  rw [Text.eq_of_splitAtLiteral? hsplit, Declaration.text]
  simp only [List.length_append, List.length_cons, List.length_nil]
  omega

-----------------------------------------------------------------------------------------
-- White space
-----------------------------------------------------------------------------------------

theorem not_mem_of_allSpace {c : Char} (hc : isStyleSpace c = false) {space : Text}
    (h : allSpace space)
    : c ∉ space := by
  intro hmem
  rw [h c hmem] at hc
  cases hc

section Space

variable {front back : Text} (hfront : allSpace front) (hback : allSpace back)
include hfront hback

/-- White space around a part makes no difference. -/
theorem ofText?_space (part : Text)
    : Declaration.ofText? (front ++ (part ++ back)) = Declaration.ofText? part := by
  have hcolon : ':' ∉ front := not_mem_of_allSpace (by decide) hfront
  have hcolon' : ':' ∉ back := not_mem_of_allSpace (by decide) hback
  by_cases hpart : ':' ∈ part
  · obtain ⟨property, value, rfl, hproperty⟩ := List.eq_append_cons_of_mem hpart
    have hassoc : front ++ (property ++ ':' :: value ++ back)
        = (front ++ property) ++ ':' :: (value ++ back) := by simp
    rw [hassoc, ofText?_cons (by simp [hcolon, hproperty]), ofText?_cons hproperty,
      Text.trim_append_left (allBlank_of_allSpace hfront),
      Text.trim_append_right (allBlank_of_allSpace hback)]
  · rw [ofText?_eq_none hpart, ofText?_eq_none (by simp [hcolon, hcolon', hpart])]

/-- White space around a style makes no difference. -/
theorem declarations_space (style : Text)
    : declarations (front ++ (style ++ back)) = declarations style := by
  have hsemicolon : ∀ c ∈ front, (c == ';') = false :=
    Text.beq_eq_false_of_not_mem (not_mem_of_allSpace (by decide) hfront)
  have hsemicolon' : ∀ c ∈ back, (c == ';') = false :=
    Text.beq_eq_false_of_not_mem (not_mem_of_allSpace (by decide) hback)
  have hleft (s : Text) : declarations (front ++ s) = declarations s := by
    have hfirst := ofText?_space hfront allSpace_nil ((splitOnChar (· == ';') s).headD [])
    rw [List.append_nil] at hfirst
    rw [declarations, declarations, Text.splitOnChar_append_left hsemicolon]
    conv_rhs => rw [Text.splitOnChar_eq_cons]
    rw [List.filterMap_cons, List.filterMap_cons, hfirst]
  obtain ⟨before, last, hsplit⟩ := Text.exists_splitOnChar_append (· == ';') style
  have hwhole := hsplit []
  rw [List.append_nil] at hwhole
  have hlast := ofText?_space allSpace_nil hback last
  rw [List.nil_append] at hlast
  rw [hleft, declarations, declarations, hsplit, hwhole, Text.splitOnChar_of_forall hsemicolon']
  simp only [List.headD_cons, List.tail_cons, List.filterMap_append, List.filterMap_cons, hlast,
    Text.splitOnChar, List.foldr_nil, List.append_nil]

end Space

theorem isBlank_of_dropBlank {c : Char} {s : Text} (h : Text.dropBlank (c :: s) = c :: s)
    : Text.isBlank c = false :=
  Bool.eq_false_iff.mpr (List.dropWhile_eq_self_iff.mp h (Nat.zero_lt_succ _))

theorem isBlank_of_rdropWhile {c : Char} {s : Text}
    (h : (s ++ [c]).rdropWhile Text.isBlank = s ++ [c])
    : Text.isBlank c = false := by
  have := List.rdropWhile_eq_self_iff.mp h (by simp)
  rw [List.getLast_concat] at this
  exact Bool.eq_false_iff.mpr this

/-- White space behind a text without blanks in front is dropped only if the text is empty. -/
theorem exists_dropBlank_append {s space : Text} (hs : Text.dropBlank s = s)
    (hspace : allSpace space)
    : ∃ rest, allSpace rest ∧ Text.dropBlank (s ++ space) = s ++ rest := by
  cases s with
  | nil =>
      refine ⟨[], allSpace_nil, ?_⟩
      exact List.dropWhile_eq_nil_iff.mpr (List.all_eq_true.mp (allBlank_of_allSpace hspace))
  | cons c s =>
      have hc := isBlank_of_dropBlank hs
      exact ⟨space, hspace, List.dropWhile_cons_of_neg (by simp [hc])⟩

theorem exists_rdropWhile_append {s space : Text} (hs : s.rdropWhile Text.isBlank = s)
    (hspace : allSpace space)
    : ∃ rest, allSpace rest ∧ (space ++ s).rdropWhile Text.isBlank = rest ++ s := by
  rcases List.eq_nil_or_concat' s with rfl | ⟨s, c, rfl⟩
  · refine ⟨[], allSpace_nil, ?_⟩
    rw [List.append_nil]
    exact List.rdropWhile_eq_nil_iff.mpr (List.all_eq_true.mp (allBlank_of_allSpace hspace))
  · have hc := isBlank_of_rdropWhile hs
    refine ⟨space, hspace, ?_⟩
    rw [← List.append_assoc]
    exact List.rdropWhile_concat_neg _ _ _ (by simp [hc])

/-- Two texts that get no longer stay as they are around a character only if each of them does. -/
theorem append_cons_eq_self_iff {f g : Text → Text} (hf : ∀ s, (f s).length ≤ s.length)
    (hg : ∀ s, (g s).length ≤ s.length) {front back : Text} {c : Char}
    : f front ++ c :: g back = front ++ c :: back ↔ f front = front ∧ g back = back := by
  constructor
  · intro heq
    have hfront := hf front
    have hback := hg back
    have hlength := congrArg List.length heq
    simp only [List.length_append, List.length_cons] at hlength
    obtain ⟨hfirst, hsecond⟩ := List.append_inj heq (by omega)
    exact ⟨hfirst, (List.cons.inj hsecond).2⟩
  · rintro ⟨hfront, hback⟩
    rw [hfront, hback]

theorem length_rdropWhile_le (s : Text) : (s.rdropWhile Text.isBlank).length ≤ s.length :=
  (List.rdropWhile_prefix Text.isBlank s).length_le

theorem length_dropBlank_le (s : Text) : (Text.dropBlank s).length ≤ s.length :=
  (List.dropWhile_suffix Text.isBlank).length_le

/-- A part stays as it is if its property and its value do. -/
theorem compactPart?_cons_eq_self_iff {property value : Text} (h : ':' ∉ property)
    : compactPart? (property ++ ':' :: value) = some (property ++ ':' :: value)
      ↔ trim property = property ∧ trim value = value := by
  rw [compactPart?_cons h, Option.some.injEq,
    append_cons_eq_self_iff Text.length_trim_le Text.length_trim_le]

/-- A text with a colon is trimmed if no blanks stand at its ends. -/
theorem trim_cons_eq_self_iff {front back : Text}
    : trim (front ++ ':' :: back) = front ++ ':' :: back
      ↔ Text.dropBlank front = front ∧ back.rdropWhile Text.isBlank = back := by
  rw [Text.trim_append_cons (by decide),
    append_cons_eq_self_iff length_dropBlank_le length_rdropWhile_le]

section Colon

variable {first last before behind : Text} (hbefore : allSpace before) (hbehind : allSpace behind)
include hbefore hbehind

/-- A part that stays as it is keeps both its sides if it gets white space around a colon. -/
theorem exists_compactPart?
    (h : compactPart? (first ++ ([':'] ++ last)) = some (first ++ ([':'] ++ last)))
    : ∃ before' behind', allSpace before' ∧ allSpace behind'
      ∧ compactPart? (first ++ ((before ++ ':' :: behind) ++ last))
        = some (first ++ ((before' ++ ':' :: behind') ++ last)) := by
  by_cases hfirst : ':' ∈ first
  · obtain ⟨property, front, rfl, hproperty⟩ := List.eq_append_cons_of_mem hfirst
    have hassoc (s : Text) : (property ++ ':' :: front) ++ s = property ++ ':' :: (front ++ s) := by
      simp
    rw [hassoc, compactPart?_cons_eq_self_iff hproperty, List.singleton_append,
      trim_cons_eq_self_iff] at h
    obtain ⟨htrim, hfront, hlast⟩ := h
    obtain ⟨before', hbefore', hdrop⟩ := exists_dropBlank_append hfront hbefore
    obtain ⟨behind', hbehind', hrdrop⟩ := exists_rdropWhile_append hlast hbehind
    have hvalue : front ++ (before ++ ':' :: behind ++ last)
        = (front ++ before) ++ ':' :: (behind ++ last) := by simp
    refine ⟨before', behind', hbefore', hbehind', ?_⟩
    rw [hassoc, compactPart?_cons hproperty, hvalue, Text.trim_append_cons (by decide), hdrop,
      hrdrop, htrim]
    simp
  · rw [List.singleton_append, compactPart?_cons_eq_self_iff hfirst] at h
    have hassoc : first ++ ((before ++ ':' :: behind) ++ last)
        = (first ++ before) ++ ':' :: (behind ++ last) := by simp
    have hcolon : ':' ∉ before := not_mem_of_allSpace (by decide) hbefore
    refine ⟨[], [], allSpace_nil, allSpace_nil, ?_⟩
    rw [hassoc, compactPart?_cons (by simp [hfirst, hcolon]),
      Text.trim_append_right (allBlank_of_allSpace hbefore),
      Text.trim_append_left (allBlank_of_allSpace hbehind), h.1, h.2]
    simp

/-- A part that stays as it is stays so without the white space around a colon. -/
theorem compactPart?_of_space
    (h : compactPart? (first ++ ((before ++ ':' :: behind) ++ last))
        = some (first ++ ((before ++ ':' :: behind) ++ last)))
    : compactPart? (first ++ ([':'] ++ last)) = some (first ++ ([':'] ++ last)) := by
  have hassoc : first ++ ((before ++ ':' :: behind) ++ last)
      = (first ++ before) ++ ':' :: (behind ++ last) := by simp
  by_cases hfirst : ':' ∈ first
  · obtain ⟨property, front, rfl, hproperty⟩ := List.eq_append_cons_of_mem hfirst
    have hcons (s : Text) : (property ++ ':' :: front) ++ s = property ++ ':' :: (front ++ s) := by
      simp
    have hvalue : front ++ (before ++ ':' :: behind ++ last)
        = (front ++ before) ++ ':' :: (behind ++ last) := by simp
    rw [hcons, compactPart?_cons_eq_self_iff hproperty, hvalue, trim_cons_eq_self_iff] at h
    rw [hcons, compactPart?_cons_eq_self_iff hproperty, List.singleton_append,
      trim_cons_eq_self_iff]
    obtain ⟨htrim, hfront, hlast⟩ := h
    refine ⟨htrim, ?_, ?_⟩
    · cases front with
      | nil => rfl
      | cons c front =>
          exact List.dropWhile_cons_of_neg (by simp [isBlank_of_dropBlank hfront])
    · rcases List.eq_nil_or_concat' last with rfl | ⟨last, c, rfl⟩
      · rfl
      · rw [← List.append_assoc] at hlast
        exact List.rdropWhile_concat_neg _ _ _ (by simp [isBlank_of_rdropWhile hlast])
  · have hcolon : ':' ∉ before := not_mem_of_allSpace (by decide) hbefore
    rw [hassoc, compactPart?_cons_eq_self_iff (by simp [hfirst, hcolon]),
      Text.trim_append_right (allBlank_of_allSpace hbefore),
      Text.trim_append_left (allBlank_of_allSpace hbehind)] at h
    rw [List.singleton_append, compactPart?_cons_eq_self_iff hfirst]
    have hleft := Text.length_trim_le first
    have hright := Text.length_trim_le last
    rw [h.1, List.length_append] at hleft
    rw [h.2, List.length_append] at hright
    have hnil : before = [] := List.length_eq_zero_iff.mp (by omega)
    have hnil' : behind = [] := List.length_eq_zero_iff.mp (by omega)
    rw [hnil, hnil', List.append_nil, List.nil_append] at h
    exact h

end Colon

/-- A text without semicolons between two others is in one part with what stands next to it. -/
theorem exists_splitOnChar_between (front back : Text)
    : ∃ parts first last more, ∀ middle : Text, ';' ∉ middle →
      splitOnChar (· == ';') (front ++ (middle ++ back))
        = parts ++ (first ++ (middle ++ last)) :: more := by
  obtain ⟨parts, first, hsplit⟩ := Text.exists_splitOnChar_append (· == ';') front
  refine ⟨parts, first, (splitOnChar (· == ';') back).headD [], (splitOnChar (· == ';') back).tail,
    fun middle hmiddle => ?_⟩
  rw [hsplit, Text.splitOnChar_append_left (Text.beq_eq_false_of_not_mem hmiddle)]
  rfl

section Colon

variable {front back before behind : Text} (hbefore : allSpace before) (hbehind : allSpace behind)
include hbefore hbehind

theorem semicolon_not_mem_spaced : ';' ∉ before ++ ':' :: behind := by
  simp [not_mem_of_allSpace (by decide : isStyleSpace ';' = false) hbefore,
    not_mem_of_allSpace (by decide : isStyleSpace ';' = false) hbehind]

/-- A style that stays as it is stays so without the white space around a colon. -/
theorem isCompact_of_space (h : IsCompact (front ++ ((before ++ ':' :: behind) ++ back)))
    : IsCompact (front ++ ([':'] ++ back)) := by
  obtain ⟨parts, first, last, more, hsplit⟩ := exists_splitOnChar_between front back
  rw [IsCompact, hsplit _ (semicolon_not_mem_spaced hbefore hbehind)] at h
  rw [IsCompact, hsplit _ (by simp)]
  intro part hpart
  rcases List.mem_append.mp hpart with hpart | hpart
  · exact h part (List.mem_append_left _ hpart)
  · rcases List.mem_cons.mp hpart with rfl | hpart
    · exact compactPart?_of_space hbefore hbehind
        (h _ (List.mem_append_right _ List.mem_cons_self))
    · exact h part (List.mem_append_right _ (List.mem_cons_of_mem _ hpart))

/-- A style that would stay as it is keeps both its sides if it has white space around a colon. -/
theorem exists_compactText (h : IsCompact (front ++ ([':'] ++ back)))
    : ∃ before' behind', allSpace before' ∧ allSpace behind'
      ∧ declarations (front ++ ((before ++ ':' :: behind) ++ back)) ≠ []
      ∧ compactText (front ++ ((before ++ ':' :: behind) ++ back))
        = front ++ ((before' ++ ':' :: behind') ++ back) := by
  obtain ⟨parts, first, last, more, hsplit⟩ := exists_splitOnChar_between front back
  rw [IsCompact, hsplit _ (by simp)] at h
  obtain ⟨before', behind', hbefore', hbehind', hmiddle⟩ :=
    exists_compactPart? hbefore hbehind (h _ (List.mem_append_right _ List.mem_cons_self))
  have hparts : parts.filterMap compactPart? = parts := by
    rw [List.filterMap_congr fun part hpart => h part (List.mem_append_left _ hpart)]
    exact List.filterMap_some
  have hmore : more.filterMap compactPart? = more := by
    rw [List.filterMap_congr fun part hpart =>
      h part (List.mem_append_right _ (List.mem_cons_of_mem _ hpart))]
    exact List.filterMap_some
  have hall : (splitOnChar (· == ';') (front ++ ((before ++ ':' :: behind) ++ back))).filterMap
        compactPart?
      = splitOnChar (· == ';') (front ++ ((before' ++ ':' :: behind') ++ back)) := by
    rw [hsplit _ (semicolon_not_mem_spaced hbefore hbehind),
      hsplit _ (semicolon_not_mem_spaced hbefore' hbehind'), List.filterMap_append,
      List.filterMap_cons_some hmiddle, hparts, hmore]
  refine ⟨before', behind', hbefore', hbehind', ?_, ?_⟩
  · rw [← map_text_declarations] at hall
    intro hnil
    rw [hnil] at hall
    cases hall
  · rw [compactText_eq, hall, Text.join_splitOnChar]

end Colon

-----------------------------------------------------------------------------------------
-- Pieces
-----------------------------------------------------------------------------------------

/-- A declaration as it is read: the property ends outside of everything and has no colon there, and
no white space stands around either part.
-/
structure IsDeclared (d : Declaration) : Prop where
  property : Misses ':' .top d.property
  afterProperty : Nesting.top.after d.property = .top
  trimProperty : ∃ s, d.property = trimOutside s
  trimValue : ∃ s, d.value = trimOutside s

/-- A declaration with white space around its property and around its value. -/
def spacedText (d : Declaration) (front before behind back : Text) : Text :=
  front ++ ((d.property ++ ((before ++ ':' :: behind) ++ d.value)) ++ back)

theorem exists_spacedText {piece : Text} {d : Declaration} (h : styleDeclaration? piece = some d)
    : IsDeclared d ∧ ∃ front before behind back, allSpace front ∧ allSpace before ∧ allSpace behind
      ∧ allSpace back ∧ piece = spacedText d front before behind back
      ∧ (back ≠ [] → Nesting.top.after d.value = .top) := by
  obtain ⟨⟨property, value⟩, hsplit, rfl⟩ := Option.map_eq_some_iff.mp h
  obtain ⟨rfl, hmisses, htop⟩ : piece = property ++ ':' :: value ∧ Misses ':' .top property
      ∧ Nesting.top.after property = .top := by
    rcases misses_or_exists ':' .top piece with hmisses | ⟨front, rest, rfl, hmisses, htop⟩
    · rw [splitOutside?_eq_none hmisses] at hsplit
      cases hsplit
    · rw [splitOutside?_append hmisses htop] at hsplit
      cases hsplit
      exact ⟨rfl, hmisses, htop⟩
  obtain ⟨front, before, hfront, hbefore, hproperty, hafter⟩ := exists_trimOutside property
  obtain ⟨behind, back, hbehind, hback, hvalue, hafter'⟩ := exists_trimOutside value
  refine ⟨⟨?_, ?_, ⟨_, rfl⟩, ⟨_, rfl⟩⟩, front, before, behind, back, hfront, hbefore, hbehind,
    hback, ?_, hafter'⟩
  · rw [hproperty, misses_append, misses_append, after_space hfront] at hmisses
    exact hmisses.2.1
  · by_cases hnil : before = []
    · rw [hproperty, hnil, List.append_nil, Nesting.after_append, after_space hfront] at htop
      exact htop
    · exact hafter hnil
  · conv_lhs => rw [hproperty, hvalue]
    simp [spacedText]

section Declared

variable {d : Declaration} (hd : IsDeclared d) {front before behind back : Text}
  (hfront : allSpace front) (hbefore : allSpace before) (hbehind : allSpace behind)
  (hback : allSpace back) (htop : back ≠ [] → Nesting.top.after d.value = .top)
include hd hfront hbefore hbehind hback htop

/-- White space makes no difference to what is read. -/
theorem styleDeclaration?_spacedText
    : styleDeclaration? (spacedText d front before behind back) = some d := by
  have hassoc : spacedText d front before behind back
      = (front ++ (d.property ++ before)) ++ ':' :: (behind ++ (d.value ++ back)) := by
    simp [spacedText]
  have hmisses : Misses ':' .top (front ++ (d.property ++ before)) := by
    rw [misses_append, misses_append, after_space hfront]
    exact ⟨misses_of_not_mem (not_mem_of_allSpace (by decide) hfront), hd.property,
      misses_of_not_mem (not_mem_of_allSpace (by decide) hbefore)⟩
  have hafter : Nesting.top.after (front ++ (d.property ++ before)) = .top := by
    rw [Nesting.after_append, after_space hfront, Nesting.after_append, hd.afterProperty,
      after_space hbefore]
  obtain ⟨property, hproperty⟩ := hd.trimProperty
  obtain ⟨value, hvalue⟩ := hd.trimValue
  have htrim : trimOutside (front ++ (d.property ++ before)) = d.property := by
    rw [hproperty]
    exact trimOutside_append hfront hbefore fun _ => hproperty ▸ hd.afterProperty
  have htrim' : trimOutside (behind ++ (d.value ++ back)) = d.value := by
    rw [hvalue]
    exact trimOutside_append hbehind hback fun h => hvalue ▸ htop h
  rw [hassoc, styleDeclaration?, splitOutside?_append hmisses hafter, Option.map_some, htrim,
    htrim']

theorem after_spacedText
    : Nesting.top.after (spacedText d front before behind back) = Nesting.top.after d.value := by
  have hcolon : Nesting.top.next ':' = .top := rfl
  have hlast : (Nesting.top.after d.value).after back = Nesting.top.after d.value := by
    by_cases hnil : back = []
    · rw [hnil]
      rfl
    · rw [htop hnil, after_space hback]
  simp only [spacedText, Nesting.after_append, Nesting.after_cons, after_space hfront,
    hd.afterProperty, after_space hbefore, hcolon, after_space hbehind, hlast]

omit htop in
theorem misses_spacedText
    : Misses ';' .top (spacedText d front before behind back)
      ↔ Misses ';' .top d.property ∧ Misses ';' .top d.value := by
  have hspace {n : Nesting} {s : Text} (hs : allSpace s) : Misses ';' n s :=
    misses_of_not_mem (not_mem_of_allSpace (by decide) hs)
  have hcolon : Nesting.top.next ':' = .top := rfl
  simp only [spacedText, misses_append, Misses, Nesting.after_append, Nesting.after_cons,
    after_space hfront, hd.afterProperty, after_space hbefore, hcolon, after_space hbehind,
    hspace hfront, hspace hbefore, hspace hbehind, hspace hback]
  simp

end Declared

/-- A declaration that would stay as it is stays the declaration of its piece. -/
theorem styleDeclaration?_compactText {piece : Text} {d : Declaration}
    (hpiece : Misses ';' .top piece) (hd : styleDeclaration? piece = some d)
    (hstays : compactStyle? d.text = some d.text)
    : declarations piece ≠ [] ∧ Misses ';' .top (compactText piece)
      ∧ Nesting.top.after (compactText piece) = Nesting.top.after piece
      ∧ styleDeclaration? (compactText piece) = some d := by
  obtain ⟨hdeclared, front, before, behind, back, hfront, hbefore, hbehind, hback, rfl, htop⟩ :=
    exists_spacedText hd
  have hcompact : IsCompact (d.property ++ ([':'] ++ d.value)) :=
    compactStyle?_eq_some_self_iff.mp hstays
  obtain ⟨before', behind', hbefore', hbehind', hne, htext⟩ :=
    exists_compactText hbefore hbehind hcompact
  have hsame : declarations (spacedText d front before behind back)
      = declarations (d.property ++ ((before ++ ':' :: behind) ++ d.value)) :=
    declarations_space hfront hback _
  have hspaced : compactText (spacedText d front before behind back)
      = spacedText d [] before' behind' [] := by
    rw [compactText_congr hsame, htext]
    simp [spacedText]
  rw [misses_spacedText hdeclared hfront hbefore hbehind hback] at hpiece
  rw [hsame, hspaced]
  refine ⟨hne, ?_, ?_, ?_⟩
  · exact (misses_spacedText hdeclared allSpace_nil hbefore' hbehind' allSpace_nil).mpr hpiece
  · rw [after_spacedText hdeclared hfront hbefore hbehind hback htop,
      after_spacedText hdeclared allSpace_nil hbefore' hbehind' allSpace_nil (by simp)]
  · exact styleDeclaration?_spacedText hdeclared allSpace_nil hbefore' hbehind' allSpace_nil
      (by simp)

/-- A declaration of a piece that stays as it is would stay as it is, too. -/
theorem isCompact_text {piece : Text} {d : Declaration} (hpiece : IsCompact piece)
    (hd : styleDeclaration? piece = some d)
    : compactStyle? d.text = some d.text := by
  obtain ⟨-, front, before, behind, back, hfront, hbefore, hbehind, hback, rfl, -⟩ :=
    exists_spacedText hd
  obtain ⟨inner, hinner⟩ : ∃ inner, inner = d.property ++ ((before ++ ':' :: behind) ++ d.value) :=
    ⟨_, rfl⟩
  have hself : compactText (front ++ (inner ++ back)) = front ++ (inner ++ back) := by
    rw [hinner, compactText]
    exact congrArg (·.getD []) (compactStyle?_eq_some_self_iff.mpr hpiece)
  have hlength := length_compactText_le inner
  rw [← compactText_congr (declarations_space hfront hback inner), hself] at hlength
  simp only [List.length_append] at hlength
  have hnil : front = [] := List.length_eq_zero_iff.mp (by omega)
  have hnil' : back = [] := List.length_eq_zero_iff.mp (by omega)
  subst hnil hnil'
  rw [spacedText, List.nil_append, List.append_nil] at hpiece
  exact compactStyle?_eq_some_self_iff.mpr (isCompact_of_space hbefore hbehind hpiece)

theorem colon_not_mem_of_declarations {style : Text} (h : declarations style = [])
    : ':' ∉ style := by
  intro hmem
  obtain ⟨part, hpart, hcolon⟩ := Text.exists_mem_splitOnChar (p := (· == ';')) hmem rfl
  obtain ⟨property, value, rfl, hproperty⟩ := List.eq_append_cons_of_mem hcolon
  have hnone := List.filterMap_eq_nil_iff.mp h _ hpart
  rw [ofText?_cons hproperty] at hnone
  cases hnone

theorem declarations_eq_nil {style : Text} (h : ':' ∉ style) : declarations style = [] :=
  List.filterMap_eq_nil_iff.mpr fun _ hpart => ofText?_eq_none fun hcolon =>
    h (Text.mem_of_mem_splitOnChar hpart hcolon)

theorem misses_of_styleDeclaration?_eq_none {piece : Text} (h : styleDeclaration? piece = none)
    : Misses ':' .top piece := by
  rcases misses_or_exists ':' .top piece with hmisses | ⟨front, rest, rfl, hmisses, htop⟩
  · exact hmisses
  · rw [styleDeclaration?, splitOutside?_append hmisses htop] at h
    cases h

theorem styleDeclaration?_eq_none {piece : Text} (h : Misses ':' .top piece)
    : styleDeclaration? piece = none := by
  rw [styleDeclaration?, splitOutside?_eq_none h, Option.map_none]

/-- What remains of the piece is read as the piece was, and leaves open what the piece left open. -/
structure IsKept (piece : Text) : Prop where
  pieces : Misses ';' .top (compactText piece)
  after : Nesting.top.after (compactText piece) = Nesting.top.after piece
  declaration : styleDeclaration? (compactText piece) = styleDeclaration? piece

/-- So does a piece without a declaration that would stay as it is. -/
theorem isKept_of_styleDeclaration?_eq_none {piece : Text} (hpiece : Misses ';' .top piece)
    (hd : styleDeclaration? piece = none)
    (hstays : compactStyle? (trimOutside piece) = some (trimOutside piece))
    : IsKept piece := by
  have hmisses := misses_of_styleDeclaration?_eq_none hd
  obtain ⟨front, back, hfront, hback, htext, htop⟩ := exists_trimOutside piece
  have hself : compactText piece = trimOutside piece := by
    conv_lhs => rw [htext, compactText_congr (declarations_space hfront hback _)]
    rw [compactText, hstays, Option.getD_some]
  rw [htext, misses_append, misses_append, after_space hfront] at hpiece hmisses
  refine ⟨hself ▸ hpiece.2.1, ?_, ?_⟩
  · conv_rhs => rw [htext, Nesting.after_append, after_space hfront, Nesting.after_append]
    rw [hself]
    by_cases hnil : back = []
    · rw [hnil]
      rfl
    · rw [htop hnil, after_space hback]
  · rw [hself, hd, styleDeclaration?_eq_none hmisses.2.1]

theorem compactText_of_declarations {style : Text} (h : declarations style = [])
    : compactText style = [] := by
  rw [compactText_eq_join, h]
  rfl

theorem declarations_append (front rest : Text)
    : declarations (front ++ ';' :: rest) = declarations front ++ declarations rest := by
  rw [declarations, Text.splitOnChar_append_cons (by decide), List.filterMap_append]
  rfl

theorem styleDeclarations_of_misses {style : Text} (h : Misses ';' .top style)
    : styleDeclarations style = (styleDeclaration? style).toList := by
  rw [styleDeclarations, stylePieces_of_misses h]
  cases hd : styleDeclaration? style <;> simp [hd]

theorem styleDeclarations_append {front : Text} (h : Misses ';' .top front)
    (htop : Nesting.top.after front = .top) (rest : Text)
    : styleDeclarations (front ++ ';' :: rest)
      = (styleDeclaration? front).toList ++ styleDeclarations rest := by
  rw [styleDeclarations, stylePieces_append h htop]
  cases hd : styleDeclaration? front <;> simp [hd, styleDeclarations]

theorem styleDeclarations_nil : styleDeclarations [] = [] := rfl

/-- If every piece with a colon is kept, so are the declarations, by induction over the pieces. -/
theorem styleDeclarations_compactText {style : Text}
    (h : ∀ piece ∈ stylePieces .top style, ':' ∈ piece → IsKept piece)
    : styleDeclarations (compactText style) = styleDeclarations style := by
  induction hlength : style.length using Nat.strongRecOn generalizing style with
  | _ length ih =>
    rcases misses_or_exists ';' .top style with hmisses | ⟨front, rest, rfl, hmisses, htop⟩
    · rw [stylePieces_of_misses hmisses, List.forall_mem_singleton] at h
      rw [styleDeclarations_of_misses hmisses]
      by_cases hcolon : ':' ∈ style
      · have hkept := h hcolon
        rw [styleDeclarations_of_misses hkept.pieces, hkept.declaration]
      · rw [compactText_of_declarations (declarations_eq_nil hcolon), styleDeclarations_nil,
          styleDeclaration?_eq_none (misses_of_not_mem hcolon)]
        rfl
    · rw [stylePieces_append hmisses htop, List.forall_mem_cons] at h
      have hrest := ih rest.length (by rw [← hlength]; simp; omega) h.2 rfl
      have hjoin := compactText_eq_join (front ++ ';' :: rest)
      rw [declarations_append] at hjoin
      rw [styleDeclarations_append hmisses htop, hjoin]
      by_cases hcolon : ':' ∈ front
      · have hkept := h.1 hcolon
        have hne : declarations front ≠ [] := fun hnil => colon_not_mem_of_declarations hnil hcolon
        by_cases hnil : declarations rest = []
        · rw [compactText_of_declarations hnil, styleDeclarations_nil] at hrest
          rw [hnil, List.append_nil, ← compactText_eq_join,
            styleDeclarations_of_misses hkept.pieces, hkept.declaration, ← hrest, List.append_nil]
        · rw [List.map_append, Text.join_append (by simpa using hne) (by simpa using hnil),
            ← compactText_eq_join, ← compactText_eq_join,
            styleDeclarations_append hkept.pieces (hkept.after.trans htop), hkept.declaration,
            hrest]
      · rw [declarations_eq_nil hcolon, List.nil_append, ← compactText_eq_join, hrest,
          styleDeclaration?_eq_none (misses_of_not_mem hcolon)]
        rfl

/-- Every part of a piece is a part of the style. -/
theorem isCompact_of_mem_stylePieces {style piece : Text} (h : IsCompact style)
    (hpiece : piece ∈ stylePieces .top style)
    : IsCompact piece := by
  intro part hpart
  refine h part ?_
  have hne : stylePieces .top style ≠ [] := List.ne_nil_of_mem hpiece
  rw [← join_stylePieces .top style, Text.splitOnChar_join_eq_flatMap (by decide) hne]
  exact List.mem_flatMap.mpr ⟨piece, hpiece, hpart⟩

/-- The declarations of a compact form would all stay as they are. -/
theorem compactStyle?_text_of_mem {style : Text} {d : Declaration}
    (hd : d ∈ styleDeclarations (compactText style))
    : compactStyle? d.text = some d.text := by
  by_cases hnil : declarations style = []
  · rw [compactText_of_declarations hnil] at hd
    cases hd
  · obtain ⟨piece, hpiece, hread⟩ := List.mem_filterMap.mp hd
    exact isCompact_text (isCompact_of_mem_stylePieces (isCompact_compactText hnil) hpiece) hread

theorem misses_of_mem_stylePieces {style piece : Text} (hpiece : piece ∈ stylePieces .top style)
    : Misses ';' .top piece := by
  obtain ⟨hfirst, hothers⟩ := misses_stylePieces .top style
  obtain ⟨first, others, heq⟩ := List.exists_cons_of_ne_nil (List.ne_nil_of_mem hpiece)
  rw [heq] at hpiece hfirst hothers
  rcases List.mem_cons.mp hpiece with rfl | hpiece
  · exact hfirst
  · exact hothers piece hpiece

/-- What is left of a style whose declarations would stay as they are declares the same, unless a
piece that declares nothing has colons inside of quotes or parentheses and would not stay as it is.
-/
theorem styleDeclarations_compactText_eq {style : Text}
    (hdeclared : ∀ d ∈ styleDeclarations style, compactStyle? d.text = some d.text)
    (hothers : ∀ piece ∈ stylePieces .top style, styleDeclaration? piece = none → ':' ∈ piece →
      compactStyle? (trimOutside piece) = some (trimOutside piece))
    : styleDeclarations (compactText style) = styleDeclarations style := by
  refine styleDeclarations_compactText fun piece hpiece hcolon => ?_
  have hmisses := misses_of_mem_stylePieces hpiece
  cases hread : styleDeclaration? piece with
  | none =>
      exact isKept_of_styleDeclaration?_eq_none hmisses hread (hothers piece hpiece hread hcolon)
  | some d =>
      have hd : d ∈ styleDeclarations style := List.mem_filterMap.mpr ⟨piece, hpiece, hread⟩
      obtain ⟨-, hpieces, hafter, hdeclaration⟩ :=
        styleDeclaration?_compactText hmisses hread (hdeclared d hd)
      exact ⟨hpieces, hafter, hdeclaration.trans hread.symm⟩

-----------------------------------------------------------------------------------------
-- Heads
-----------------------------------------------------------------------------------------

theorem get?_compactStyle_style {h : Xml.Head} {style : Text} (hstyle : h.get? "style" = some style)
    : (compactStyle h).get? "style" = compactStyle? style := by
  unfold compactStyle
  rw [hstyle]
  dsimp only
  split
  · next text htext => rw [get?_set hstyle, htext]
  · next hnone => rw [get?_erase, hnone]

/-- The style of an element is removed only if nothing is declared in it. Its declarations, read
with quotes and parentheses, are the same before and after only if each of them, written alone and
without white space around it, would stay as it is; and if they would, the declarations are the same,
unless a piece that declares nothing, but has colons in quotes or parentheses, would not stay as it
is.
-/
theorem styleDeclarations_compactStyle {h : Xml.Head} {style : Text}
    (hstyle : h.get? "style" = some style)
    : ((compactStyle h).get? "style" = none → styleDeclarations style = [])
      ∧ (styleDeclarations (((compactStyle h).get? "style").getD []) = styleDeclarations style
        → ∀ d ∈ styleDeclarations style, compactStyle? d.text = some d.text)
      ∧ ((∀ d ∈ styleDeclarations style, compactStyle? d.text = some d.text)
        → (∀ piece ∈ stylePieces .top style, styleDeclaration? piece = none → ':' ∈ piece →
            compactStyle? (trimOutside piece) = some (trimOutside piece))
        → styleDeclarations (((compactStyle h).get? "style").getD [])
          = styleDeclarations style) := by
  rw [get?_compactStyle_style hstyle, ← compactText]
  refine ⟨fun hnone => ?_, fun hsame d hd => ?_, styleDeclarations_compactText_eq⟩
  · have hnil : declarations style = [] := by simpa [compactStyle?] using hnone
    have hcolon := colon_not_mem_of_declarations hnil
    rw [← styleDeclarations_compactText fun piece hpiece hmem => absurd ?_ hcolon,
      compactText_of_declarations hnil, styleDeclarations_nil]
    rw [← join_stylePieces .top style]
    exact Text.mem_join_of_mem hpiece hmem
  · rw [← hsame] at hd
    exact compactStyle?_text_of_mem hd

/-- An element with a style. -/
private def styled (style : Text) : Xml.Head where
  name := .plain "rect"
  attributes := [⟨.plain "style", style, none⟩]

private theorem get?_styled (style : Text) : (styled style).get? "style" = some style := by
  simp [styled, Xml.Head.get?, Xml.Name.plain]

/-- A style with white space, with separators in quotes and parentheses and behind a backslash, and
with pieces that declare nothing.
-/
private def sampleStyle : Text :=
  " fill : url( '#a' );;(b:c) ; none; font:'x:y'\n;d:url(a;b:c)(\")\");--e:\\;f:g "

theorem styleDeclarations_compactStyle_sampleStyle
    : (styled sampleStyle).get? "style" = some sampleStyle
      ∧ styleDeclarations (((compactStyle (styled sampleStyle)).get? "style").getD [])
        = styleDeclarations sampleStyle
      ∧ styleDeclarations sampleStyle
        = [ ⟨"fill", "url( '#a' )"⟩, ⟨"font", "'x:y'"⟩, ⟨"d", "url(a;b:c)(\")\")"⟩,
            ⟨"--e", "\\;f:g"⟩ ] := by
  have hsample : styleDeclarations sampleStyle
        = [ ⟨"fill", "url( '#a' )"⟩, ⟨"font", "'x:y'"⟩, ⟨"d", "url(a;b:c)(\")\")"⟩,
            ⟨"--e", "\\;f:g"⟩ ]
      ∧ (∀ d ∈ styleDeclarations sampleStyle, compactStyle? d.text = some d.text)
      ∧ ∀ piece ∈ stylePieces .top sampleStyle, styleDeclaration? piece = none → ':' ∈ piece →
        compactStyle? (trimOutside piece) = some (trimOutside piece) := by
    decide +kernel
  obtain ⟨hdeclarations, hdeclared, hothers⟩ := hsample
  have hstyle := get?_styled sampleStyle
  exact ⟨hstyle, (styleDeclarations_compactStyle hstyle).2.2 hdeclared hothers, hdeclarations⟩

/-- Styles that do not keep their declarations: a semicolon in parentheses or in quotes cuts a
value, what is left of it takes in the next declaration, and a blank that is no white space of a
style is trimmed off.
-/
private def cutStyles : List Text :=
  ["fill:url(data:image/png;base64,xx)", "font-family:'a;b'", "a:(b;c);d:e", "fill:red\u00A0"]

theorem not_styleDeclarations_compactStyle_cutStyles
    : cutStyles.Forall fun style =>
      styleDeclarations (((compactStyle (styled style)).get? "style").getD [])
        ≠ styleDeclarations style := by
  have hall : ∀ style ∈ cutStyles,
      styleDeclarations (((compactStyle (styled style)).get? "style").getD [])
        ≠ styleDeclarations style := by
    decide +kernel
  exact List.forall_iff_forall_mem.mpr hall

end SvgKit.Minify
