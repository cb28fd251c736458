import SvgKit.Proofs.Text.Members
import SvgKit.Proofs.Text.Splitting
import SvgKit.Proofs.Xml.Markup
import Mathlib.Data.List.Basic

/-! How tags and attributes that are read are laid out in the text: white space, quotes, and the
spelling of values.
-/

namespace SvgKit.Xml

-----------------------------------------------------------------------------------------
-- Names
-----------------------------------------------------------------------------------------

theorem eq_of_readName? {s name rest : Text} (h : readName? s = some (name, rest))
    : s = name ++ rest ∧ Stops isNameChar rest := by
  unfold readName? at h
  split at h
  · cases h
  · split at h
    · cases h
      exact ⟨List.takeWhile_append_dropWhile.symm, stops_dropWhile⟩
    · cases h

/-- A spelled name ends where no character of names stands. -/
theorem eq_of_readSpelling? {s rest : Text} {name : Spelling}
    (h : readSpelling? s = some (name, rest))
    : s = name.text ++ rest ∧ Stops isNameChar rest := by
  unfold readSpelling? at h
  split at h
  · cases h
  · next first behind hfirst =>
      obtain ⟨rfl, -⟩ := eq_of_readName? hfirst
      split at h
      · cases h
      · cases h
      · next second rest hsecond =>
          cases h
          obtain ⟨rfl, hstops⟩ := eq_of_readName? hsecond
          exact ⟨by simp [Spelling.text], hstops⟩
  · next first rest hfirst =>
      cases h
      exact eq_of_readName? hfirst

theorem exists_space (s : Text) : ∃ space, s = space ++ dropSpace s ∧ ∀ c ∈ space, isSpace c :=
  ⟨s.takeWhile isSpace, List.takeWhile_append_dropWhile.symm, fun _ hc =>
    List.mem_takeWhile_imp hc⟩

/-- White space stands in front of what is behind all white space. -/
theorem exists_space_suffix {c : Char} (hc : isSpace c) (s : Text)
    : ∃ x, isSpace x ∧ x :: dropSpace s <:+ c :: s := by
  obtain ⟨space, hspace, hall⟩ := exists_space s
  have hne : c :: space ≠ [] := List.cons_ne_nil c space
  have hspaces : ∀ x ∈ c :: space, isSpace x := List.forall_mem_cons.mpr ⟨hc, hall⟩
  refine ⟨(c :: space).getLast hne, hspaces _ (List.getLast_mem hne), (c :: space).dropLast, ?_⟩
  have hlast := congrArg (· ++ dropSpace s) (List.dropLast_append_getLast hne)
  rwa [List.append_assoc, List.singleton_append, List.cons_append, ← hspace] at hlast

-----------------------------------------------------------------------------------------
-- References in values
-----------------------------------------------------------------------------------------

theorem eq_of_readFullName? {s name rest : Text} (h : readFullName? s = some (name, rest))
    : s = name ++ rest := by
  unfold readFullName? at h
  split at h
  · cases h
  · dsimp only at h
    split at h
    · cases h
      exact List.takeWhile_append_dropWhile.symm
    · cases h

theorem eq_of_readCode? {base : Nat} {isDigit : Char → Bool} {s rest : Text} {r : Reference}
    (h : readCode? base isDigit s = some (r, rest))
    : s = s.takeWhile isDigit ++ ';' :: rest := by
  unfold readCode? at h
  split at h
  · next left hs =>
      obtain ⟨c, -, heq⟩ := Option.map_eq_some_iff.mp h
      cases heq
      rw [← hs, List.takeWhile_append_dropWhile]
  · cases h

/-- A reference is a number or a name in front of a semicolon. -/
theorem exists_of_readReference? {s rest : Text} {r : Reference}
    (h : readReference? s = some (r, rest))
    : ∃ body, s = body ++ ';' :: rest ∧ '>' ∉ body
      ∧ (body.head? = some '#' ∨ (∃ c ∈ predefined.map (·.2), r = .char c)
        ∨ ∃ name, r = .entity name) := by
  have hcode (isDigit : Char → Bool) {s : Text} (hnot : isDigit '>' = false)
      : '>' ∉ s.takeWhile isDigit := by
    intro hmem
    have := List.mem_takeWhile_imp hmem
    rw [hnot] at this
    cases this
  unfold readReference? at h
  split at h
  · next s =>
      exact ⟨'#' :: 'x' :: s.takeWhile isHexDigit,
        congrArg ('#' :: 'x' :: ·) (eq_of_readCode? h),
        by simpa using hcode isHexDigit (by decide), .inl rfl⟩
  · next s _ =>
      exact ⟨'#' :: s.takeWhile Char.isDigit, congrArg ('#' :: ·) (eq_of_readCode? h),
        by simpa using hcode Char.isDigit (by decide), .inl rfl⟩
  · split at h
    · next name left hn =>
        have hname : '>' ∉ name := by
          intro hmem
          have := (isFullName_of_readFullName? hn).inside _ hmem
          revert this
          with_unfolding_all decide
        refine ⟨name, ?_, hname, .inr ?_⟩
        · split at h <;>
          · cases h
            exact eq_of_readFullName? hn
        · split at h
          · next c hc =>
              cases h
              exact .inl ⟨c, List.mem_map_of_mem (mem_of_lookup_eq_some hc), rfl⟩
          · cases h
            exact .inr ⟨name, rfl⟩
    · cases h

/-- How a text spells a value: a line end is a space, and a reference stands behind an
ampersand.
-/
inductive Spells : Text → Value → Prop where
  | nil : Spells [] []
  | lineEnd {s : Text} {value : Value} (h : Spells s value)
    : Spells ('\r' :: '\n' :: s) (.char ' ' :: value)
  | reference {s rest : Text} {r : Reference} {value : Value}
      (hread : readReference? s = some (r, rest)) (h : Spells rest value)
    : Spells ('&' :: s) (r :: value)
  | char (c : Char) {s : Text} {value : Value} (h : Spells s value)
    : Spells (c :: s) (.char (if isSpace c then ' ' else c) :: value)

theorem spells_of_readValueAfter? {done value : Value} {s : Text}
    (h : readValueAfter? done s = some value)
    : ∃ more, value = done.reverse ++ more ∧ Spells s more := by
  fun_induction readValueAfter? done s with
  | case1 done =>
      cases h
      exact ⟨[], by simp, .nil⟩
  | case2 done s ih =>
      obtain ⟨more, rfl, hmore⟩ := ih h
      exact ⟨_, by simp, .lineEnd hmore⟩
  | case3 => cases h
  | case4 done s r rest hread ih =>
      obtain ⟨more, rfl, hmore⟩ := ih h
      exact ⟨_, by simp, .reference hread hmore⟩
  | case5 => cases h
  | case6 done c s _ _ _ ih =>
      obtain ⟨more, rfl, hmore⟩ := ih h
      exact ⟨_, by simp, .char c hmore⟩

theorem spells_of_readValue? {s : Text} {value : Value} (h : readValue? s = some value)
    : Spells s value := by
  obtain ⟨more, rfl, hmore⟩ := spells_of_readValueAfter? h
  exact hmore

/-- A bracket in the spelling of a value is in the value, by induction over the spelling. -/
theorem Spells.mem_bracket {s : Text} {value : Value} (h : Spells s value) (hmem : '>' ∈ s)
    : .char '>' ∈ value := by
  induction h with
  | nil => cases hmem
  | lineEnd _ ih => exact List.mem_cons_of_mem _ (ih (by simpa using hmem))
  | reference hread _ ih =>
      obtain ⟨body, rfl, hbody, -⟩ := exists_of_readReference? hread
      exact List.mem_cons_of_mem _ (ih (by simpa [hbody] using hmem))
  | char c _ ih =>
      rcases List.mem_cons.mp hmem with rfl | hmem
      · exact List.mem_cons_self
      · exact List.mem_cons_of_mem _ (ih hmem)

-----------------------------------------------------------------------------------------
-- Attributes
-----------------------------------------------------------------------------------------

/-- An attribute as it stands in a text: white space around the equals sign, and the value
between quotes.
-/
structure Assignment where
  name : Spelling
  before : Text
  behind : Text
  quote : Char
  spelled : Text

/-- The text of an attribute. -/
def Assignment.text (a : Assignment) : Text :=
  a.name.text ++ (a.before ++ '=' :: (a.behind ++ a.quote :: (a.spelled ++ [a.quote])))

/-- An attribute as it may stand in a document. -/
structure Assignment.Sound (a : Assignment) : Prop where
  name : a.name.Sound
  before : ∀ c ∈ a.before, isSpace c
  behind : ∀ c ∈ a.behind, isSpace c
  quote : a.quote = '"' ∨ a.quote = '\''
  closed : a.quote ∉ a.spelled

theorem eq_of_readQuoted? {s spelled rest : Text} (h : readQuoted? s = some (spelled, rest))
    : ∃ quote, (quote = '"' ∨ quote = '\'') ∧ quote ∉ spelled
      ∧ s = quote :: (spelled ++ quote :: rest) := by
  unfold readQuoted? at h
  split at h
  · cases h
  · next quote s =>
      split at h
      · next hquote =>
          split at h
          · next c left hs =>
              cases h
              have hc : c = quote := by
                have := stops_dropWhile (p := (· ≠ quote)) (s := s) c (by rw [hs]; rfl)
                simpa using this
              refine ⟨quote, by simpa using hquote, fun hmem => ?_, ?_⟩
              · simpa using List.mem_takeWhile_imp hmem
              · rw [← hc, ← hs, hc, List.takeWhile_append_dropWhile]
          · cases h
      · cases h

theorem exists_assignment {s rest : Text} {n : Spelling} {value : Value}
    (h : readAttribute? s = some ((n, value), rest))
    : ∃ a : Assignment, a.Sound ∧ a.name = n ∧ Spells a.spelled value ∧ s = a.text ++ rest := by
  unfold readAttribute? at h
  split at h
  · cases h
  · next name behindName hname =>
      split at h
      · next behindEquals hequals =>
          split at h
          · cases h
          · next spelled left hquoted =>
              obtain ⟨_, hvalue, heq⟩ := Option.map_eq_some_iff.mp h
              cases heq
              obtain ⟨hs, -⟩ := eq_of_readSpelling? hname
              obtain ⟨before, hbefore, hspace⟩ := exists_space behindName
              obtain ⟨behind, hbehind, hspace'⟩ := exists_space behindEquals
              obtain ⟨quote, hquote, hclosed, hrest⟩ := eq_of_readQuoted? hquoted
              refine ⟨⟨n, before, behind, quote, spelled⟩,
                ⟨sound_of_readSpelling? hname, hspace, hspace', hquote, hclosed⟩, rfl,
                spells_of_readValue? hvalue, ?_⟩
              rw [hs, hbefore, hequals, hbehind, hrest]
              simp [Assignment.text]
      · cases h

-----------------------------------------------------------------------------------------
-- Start tags
-----------------------------------------------------------------------------------------

/-- What stands in a start tag behind its name: the attributes, each behind white space, and the
end of the tag.
-/
structure TagTail where
  attributes : List (Text × Assignment)
  space : Text
  isEmpty : Bool

namespace TagTail

/-- What stands in the tag behind its name, up to its end. -/
def body (t : TagTail) : Text := t.attributes.flatMap (fun x => x.1 ++ x.2.text) ++ t.space

/-- The end of the tag. -/
def close (t : TagTail) : Text := if t.isEmpty then ['/', '>'] else ['>']

/-- What stands in a tag fits what is read in it. -/
structure Fits (t : TagTail) (given : List (Spelling × Value)) (isEmpty : Bool) : Prop where
  spelled : List.Forall₂ (fun pair x => x.2.name = pair.1 ∧ Spells x.2.spelled pair.2) given
    t.attributes
  attributes : ∀ x ∈ t.attributes, (x.1 ≠ [] ∧ ∀ c ∈ x.1, isSpace c) ∧ x.2.Sound
  space : ∀ c ∈ t.space, isSpace c
  isEmpty : t.isEmpty = isEmpty

theorem Fits.cons {t : TagTail} {given : List (Spelling × Value)} {isEmpty : Bool}
    (h : t.Fits given isEmpty) {space : Text} (hne : space ≠ []) (hspace : ∀ c ∈ space, isSpace c)
    {a : Assignment} (ha : a.Sound) {value : Value} (hvalue : Spells a.spelled value)
    : Fits { t with attributes := (space, a) :: t.attributes } ((a.name, value) :: given) isEmpty :=
  ⟨.cons ⟨rfl, hvalue⟩ h.spelled, List.forall_mem_cons.mpr ⟨⟨⟨hne, hspace⟩, ha⟩, h.attributes⟩,
    h.space, h.isEmpty⟩

end TagTail

/-- The attributes that are read stand in front of the end of the tag, by induction over them. -/
theorem exists_of_readAttributesAfter? {done given : List (Spelling × Value)} {isEmpty : Bool}
    {s rest : Text} (h : readAttributesAfter? done s = some ((given, isEmpty), rest))
    : ∃ (more : List (Spelling × Value)) (t : TagTail), given = done.reverse ++ more
      ∧ t.Fits more isEmpty ∧ s = t.body ++ (t.close ++ rest) := by
  have hlast {done : List (Spelling × Value)} (space : Text) (isEmpty : Bool) (rest : Text)
      (hspace : ∀ c ∈ space, isSpace c)
      : ∃ (more : List (Spelling × Value)) (t : TagTail), done.reverse = done.reverse ++ more
        ∧ t.Fits more isEmpty
        ∧ space ++ ((if isEmpty then ['/', '>'] else ['>']) ++ rest)
          = t.body ++ (t.close ++ rest) :=
    ⟨[], ⟨[], space, isEmpty⟩, by simp, ⟨.nil, by simp, hspace, rfl⟩, by
      simp [TagTail.body, TagTail.close]⟩
  fun_induction readAttributesAfter? done s with
  | case1 done rest =>
      cases h
      exact hlast [] false rest (by simp)
  | case2 done rest =>
      cases h
      exact hlast [] true rest (by simp)
  | case3 done c s _ _ hc a left ha ih =>
      obtain ⟨more, t, rfl, hfits, hleft⟩ := ih h
      obtain ⟨written, hwritten, hname, hvalue, hs⟩ := exists_assignment (show _ = some ((a.1, a.2), _) from ha)
      obtain ⟨space, hspace, hall⟩ := exists_space s
      have hcons := hfits.cons (List.cons_ne_nil c space)
        (List.forall_mem_cons.mpr ⟨hc, hall⟩) hwritten hvalue
      rw [hname] at hcons
      refine ⟨a :: more, _, by simp, hcons, ?_⟩
      · rw [hspace, hs, hleft]
        simp [TagTail.body, TagTail.close]
  | case4 done c s _ _ hc ha left hs =>
      cases h
      obtain ⟨space, hspace, hall⟩ := exists_space s
      rw [hspace, hs]
      exact hlast (c :: space) false _ (List.forall_mem_cons.mpr ⟨hc, hall⟩)
  | case5 done c s _ _ hc ha left hs =>
      cases h
      obtain ⟨space, hspace, hall⟩ := exists_space s
      rw [hspace, hs]
      exact hlast (c :: space) true _ (List.forall_mem_cons.mpr ⟨hc, hall⟩)
  | case6 => cases h
  | case7 => cases h
  | case8 => cases h

/-- An attribute that is read stands in the text behind white space, by induction over those that
are read.
-/
theorem exists_readAttribute?_of_readAttributesAfter? {done given : List (Spelling × Value)}
    {isEmpty : Bool} {s rest : Text}
    (h : readAttributesAfter? done s = some ((given, isEmpty), rest)) {pair : Spelling × Value}
    (hpair : pair ∈ given)
    : pair ∈ done ∨ ∃ c u left, isSpace c ∧ c :: u <:+ s
      ∧ readAttribute? u = some (pair, left) := by
  fun_induction readAttributesAfter? done s with
  | case3 done c s _ _ hc a left ha ih =>
      obtain ⟨x, hx, hlast⟩ := exists_space_suffix hc s
      have hsuffix : left <:+ c :: s := by
        obtain ⟨b, -, -, -, hs⟩ := exists_assignment (show _ = some ((a.1, a.2), _) from ha)
        exact List.IsSuffix.trans ⟨b.text, hs.symm⟩
          ((List.suffix_cons _ _).trans hlast)
      rcases ih h with hmem | ⟨c', u, left', hc', hu, hread⟩
      · rcases List.mem_cons.mp hmem with rfl | hmem
        · exact .inr ⟨x, _, left, hx, hlast, ha⟩
        · exact .inl hmem
      · exact .inr ⟨c', u, left', hc', hu.trans hsuffix, hread⟩
  | case1 | case2 | case4 | case5 =>
      cases h
      exact .inl (List.mem_reverse.mp hpair)
  | case6 | case7 | case8 => cases h

theorem exists_readAttribute?_of_readStart? {s rest : Text} {name : Spelling}
    {given : List (Spelling × Value)} {isEmpty : Bool}
    (h : readStart? s = some (.start name given isEmpty, rest)) {pair : Spelling × Value}
    (hpair : pair ∈ given)
    : ∃ c u left, isSpace c ∧ c :: u <:+ s ∧ readAttribute? u = some (pair, left) := by
  unfold readStart? at h
  split at h
  · cases h
  · next name' behind hname =>
      obtain ⟨⟨⟨given, isEmpty⟩, left⟩, ha, heq⟩ := Option.map_eq_some_iff.mp h
      cases heq
      rcases exists_readAttribute?_of_readAttributesAfter? ha hpair with hnil
        | ⟨c, u, left, hc, hu, hread⟩
      · cases hnil
      · rw [(eq_of_readSpelling? hname).1]
        exact ⟨c, u, left, hc, hu.trans (List.suffix_append _ _), hread⟩

theorem exists_tagTail {s rest : Text} {name : Spelling} {given : List (Spelling × Value)}
    {isEmpty : Bool} (h : readStart? s = some (.start name given isEmpty, rest))
    : ∃ t : TagTail, t.Fits given isEmpty ∧ name.Sound
      ∧ s = name.text ++ (t.body ++ (t.close ++ rest)) := by
  unfold readStart? at h
  split at h
  · cases h
  · next hname =>
      obtain ⟨⟨⟨given, isEmpty⟩, left⟩, ha, heq⟩ := Option.map_eq_some_iff.mp h
      cases heq
      obtain ⟨more, t, hmore, hfits, hs⟩ := exists_of_readAttributesAfter? ha
      obtain rfl : given = more := by simpa using hmore
      exact ⟨t, hfits, sound_of_readSpelling? hname, by rw [(eq_of_readSpelling? hname).1, hs]⟩

/-- The end tag that is read is a name and white space. -/
theorem exists_of_readFinish? {s rest : Text} {token : Token}
    (h : readFinish? s = some (token, rest))
    : ∃ (name : Spelling) (space : Text), token = .finish name ∧ (∀ c ∈ space, isSpace c)
      ∧ s = name.text ++ (space ++ '>' :: rest) := by
  unfold readFinish? at h
  split at h
  · cases h
  · next name behind hname =>
      split at h
      · next left hleft =>
          cases h
          obtain ⟨space, hspace, hall⟩ := exists_space behind
          refine ⟨name, space, rfl, hall, ?_⟩
          rw [(eq_of_readSpelling? hname).1, hspace, hleft]
      · cases h

section Tails

variable {t : TagTail} {given : List (Spelling × Value)} {isEmpty : Bool}

/-- A bracket in a tag is in the value of an attribute. -/
theorem TagTail.Fits.mem_bracket (h : t.Fits given isEmpty) (hmem : '>' ∈ t.body)
    : ∃ pair ∈ given, .char '>' ∈ pair.2 := by
  have hspace {space : Text} (hall : ∀ c ∈ space, isSpace c) : '>' ∉ space := by
    intro hmem
    have := hall _ hmem
    revert this
    decide
  rcases List.mem_append.mp hmem with hmem | hmem
  · obtain ⟨⟨space, a⟩, hx, hmem⟩ := List.mem_flatMap.mp hmem
    obtain ⟨⟨-, hall⟩, ha⟩ := h.attributes _ hx
    obtain ⟨pair, hpair, -, hvalue⟩ := exists_mem_left_of_forall₂ h.spelled hx
    have hquote : '>' ≠ a.quote := by
      rcases ha.quote with hq | hq <;> rw [hq] <;> decide
    refine ⟨pair, hpair, hvalue.mem_bracket ?_⟩
    simpa [Assignment.text, hspace hall, hspace ha.before, hspace ha.behind, hquote,
      ha.name.not_mem_text (show '>' ∈ delimiters by decide)] using hmem
  · exact absurd hmem (hspace h.space)

end Tails

end SvgKit.Xml
