import SvgKit.Proofs.Markup.Extraction
import SvgKit.Proofs.Markup.RootTag
import SvgKit.Proofs.Text.Pieces

/-! How a text is cut where its root stands. There is a root in a text exactly if the text is made
up of what stands in front of the first tag of a root, of an opening tag, of content, of an end tag
and of what stands behind the last end tag; and the root is what stands between these cuts. The
words of the opening tag and the blanks between them are all that stands in it.
-/

namespace SvgKit.Markup

-----------------------------------------------------------------------------------------
-- Cuts
-----------------------------------------------------------------------------------------

/-- A character that ends the name in a tag of a root. -/
def endsRootName (c : Char) : Bool := Text.isBlank c || c == '/' || c == '>'

/-- A tag of a root begins at the head of the text, whether it ends or not. -/
def BeginsRoot (s : Text) : Prop :=
  ∃ name d rest, isRootName name ∧ endsRootName d ∧ s = '<' :: (name ++ d :: rest)

/-- An end tag of a root. -/
def IsRootEnd (closing : Text) : Prop :=
  ∃ name blanks, isRootName name ∧ (∀ c ∈ blanks, Text.isBlank c)
    ∧ closing = '<' :: '/' :: (name ++ (blanks ++ ['>']))

/-- A value as it is written: in quotes that it does not hold, or bare. -/
inductive IsWrittenAs : Text → Text → Prop where
  | quoted {quote : Char} {value : Text} (hquote : quote = '"' ∨ quote = '\'')
      (hvalue : quote ∉ value)
    : IsWrittenAs value (quote :: (value ++ [quote]))
  | bare {value : Text} (hne : value ≠ []) (hvalue : ∀ c ∈ value, isBareChar c)
    : IsWrittenAs value value

/-- The text that an attribute was read from is its name, or its name, an equals sign with blanks
around it and its value as it is written.
-/
inductive RootAttribute.IsWord : RootAttribute → Prop where
  | alone {name : Text} (hne : name ≠ []) (hname : ∀ c ∈ name, isNameChar c)
    : IsWord ⟨name, none, name⟩
  | assigned {name equals value written : Text} (hne : name ≠ [])
      (hname : ∀ c ∈ name, isNameChar c) (hequals : IsEquals equals)
      (hvalue : IsWrittenAs value written)
    : IsWord ⟨name, some value, name ++ equals ++ written⟩

/-- The text is made up of the words of the attributes, in order, and of blanks between them. -/
inductive Covers : Text → List RootAttribute → Prop where
  | nil : Covers [] []
  | last {a : RootAttribute} (ha : a.IsWord) : Covers a.raw [a]
  | cons {a next : RootAttribute} {blanks s : Text} {attributes : List RootAttribute}
      (ha : a.IsWord) (hne : blanks ≠ []) (hblanks : ∀ c ∈ blanks, Text.isBlank c)
      (h : Covers s (next :: attributes))
    : Covers (a.raw ++ (blanks ++ s)) (a :: next :: attributes)

/-- What stands in the opening tag of a root behind its name. A blank ends the name, and no slash
ends the tag.
-/
structure Root.StandsIn (root : Root) (inside : Text) : Prop where
  behind : Stops (!Text.isBlank ·) inside
  attributes : root.attributes = Text.trim inside
  covers : Covers root.attributes root.attributeList
  opens : inside.getLast? ≠ some '/'

/-- The opening tag of a root. -/
def Root.IsOpenedBy (root : Root) (opening : Text) : Prop :=
  ∃ name inside, isRootName name ∧ root.StandsIn inside
    ∧ opening = '<' :: (name ++ (inside ++ ['>']))

/-- The parts that a text is cut into around a root. -/
structure Root.IsCutFrom (root : Root) (s before opening closing behind : Text) : Prop where
  text : s = before ++ opening ++ root.content ++ closing ++ behind
  first : ∀ front rest, s = front ++ rest → BeginsRoot rest → before.length ≤ front.length
  opening : root.IsOpenedBy opening
  closing : IsRootEnd closing
  last : ∀ front closing' rest, behind = front ++ closing' ++ rest → ¬ IsRootEnd closing'

-----------------------------------------------------------------------------------------
-- The first tag
-----------------------------------------------------------------------------------------

theorem findRoot?_begins {name : Text} {d : Char} (hname : isRootName name) (hd : endsRootName d)
    (rest : Text)
    : findRoot? ('<' :: (name ++ d :: rest)) = some (d :: rest) := by
  have hfold : ("svg" : Text) = name.map Text.foldChar := (of_decide_eq_true hname).symm
  rw [findRoot?, dropFolded?_open, Text.dropFolded?_append hfold]
  exact if_pos hd

theorem exists_name_of_dropFolded? {s rest : Text} (h : Text.dropFolded? "svg" s = some rest)
    : ∃ name, isRootName name ∧ s = name ++ rest := by
  obtain ⟨hs, hfold⟩ := Text.exists_of_dropFolded? h
  exact ⟨_, decide_eq_true hfold, hs⟩

/-- Where no tag of a root begins the search goes on. -/
theorem findRoot?_cons {c : Char} {s : Text} (h : ¬ BeginsRoot (c :: s))
    : findRoot? (c :: s) = findRoot? s := by
  rw [findRoot?]
  by_cases hc : c = '<'
  · subst hc
    rw [dropFolded?_open]
    split
    · next d rest hdrop =>
        obtain ⟨name, hname, hs⟩ := exists_name_of_dropFolded? hdrop
        refine if_neg fun hd => h ⟨name, d, rest, hname, hd, ?_⟩
        rw [hs]
    · rfl
  · rw [dropFolded?_open_ne hc]

/-- What is found is what stands behind the name in the first tag of a root, by induction over the
text.
-/
theorem findRoot?_eq_some_iff {s found : Text}
    : findRoot? s = some found
      ↔ ∃ before name d rest, isRootName name ∧ endsRootName d ∧ found = d :: rest
        ∧ s = before ++ '<' :: (name ++ found)
        ∧ ∀ front rest, s = front ++ rest → BeginsRoot rest → before.length ≤ front.length := by
  induction s with
  | nil =>
      constructor
      · intro h
        cases h
      · rintro ⟨before, name, d, rest, -, -, -, hs, -⟩
        simp at hs
  | cons c s ih =>
      by_cases hbegins : BeginsRoot (c :: s)
      · constructor
        · intro h
          obtain ⟨name, d, rest, hname, hd, hs⟩ := hbegins
          rw [hs, findRoot?_begins hname hd] at h
          cases h
          exact ⟨[], name, d, rest, hname, hd, rfl, hs, by simp⟩
        · rintro ⟨before, name, d, rest, hname, hd, rfl, hs, hfirst⟩
          have hnil : before = [] := by simpa using hfirst [] _ rfl hbegins
          rw [hs, hnil, List.nil_append, findRoot?_begins hname hd]
      · rw [findRoot?_cons hbegins, ih]
        constructor
        · rintro ⟨before, name, d, rest, hname, hd, hfound, rfl, hfirst⟩
          refine ⟨c :: before, name, d, rest, hname, hd, hfound, rfl, fun front behind heq h => ?_⟩
          cases front with
          | nil =>
              rw [List.nil_append] at heq
              exact absurd (heq ▸ h) hbegins
          | cons x front =>
              exact Nat.succ_le_succ (hfirst front behind (List.cons.inj heq).2 h)
        · rintro ⟨before, name, d, rest, hname, hd, rfl, hs, hfirst⟩
          cases before with
          | nil => exact absurd ⟨name, d, rest, hname, hd, hs⟩ hbegins
          | cons x before =>
              refine ⟨before, name, d, rest, hname, hd, rfl, (List.cons.inj hs).2,
                fun front behind heq h => ?_⟩
              exact Nat.le_of_succ_le_succ (hfirst (c :: front) behind (by rw [heq]; rfl) h)

-----------------------------------------------------------------------------------------
-- The last end tag
-----------------------------------------------------------------------------------------

theorem isRootEnd_iff {s : Text}
    : isRootEnd s ↔ ∃ closing rest, IsRootEnd closing ∧ s = closing ++ rest := by
  have hliteral : ("</svg" : Text) = '<' :: '/' :: ("svg" : Text) := by with_unfolding_all decide
  constructor
  · intro h
    unfold isRootEnd at h
    split at h
    · next left hdrop =>
        obtain ⟨hs, hfold⟩ := Text.exists_of_dropFolded? hdrop
        obtain ⟨bracket, front, hbracket, hfront, hslash⟩ :=
          List.map_eq_cons_iff.mp (hfold.trans hliteral)
        obtain ⟨slash, name, hslash', hname, hfold⟩ := List.map_eq_cons_iff.mp hslash
        have hopen : bracket = '<' := Text.eq_of_foldChar_eq rfl hfront
        have hclose : slash = '/' := Text.eq_of_foldChar_eq rfl hname
        obtain ⟨rest, hrest⟩ := List.head?_eq_some_iff.mp (beq_iff_eq.mp h)
        refine ⟨'<' :: '/' :: (name ++ (left.takeWhile Text.isBlank ++ ['>'])), rest,
          ⟨name, left.takeWhile Text.isBlank, decide_eq_true hfold,
            fun _ hc => List.mem_takeWhile_imp hc, rfl⟩, ?_⟩
        have hleft := List.takeWhile_append_dropWhile (p := Text.isBlank) (l := left)
        rw [hrest] at hleft
        rw [hs, hbracket, hslash', hopen, hclose]
        conv_lhs => rw [← hleft]
        simp
    · cases h
  · rintro ⟨closing, rest, ⟨name, blanks, hname, hblanks, rfl⟩, rfl⟩
    have hfold : ("svg" : Text) = name.map Text.foldChar := (of_decide_eq_true hname).symm
    have hstops : Stops Text.isBlank ('>' :: rest) := by
      rintro _ ⟨⟩
      decide
    have htext : '<' :: '/' :: (name ++ (blanks ++ ['>'])) ++ rest
        = '<' :: '/' :: (name ++ (blanks ++ '>' :: rest)) := by simp
    rw [htext, isRootEnd, dropFolded?_close, Text.dropFolded?_append hfold]
    dsimp only
    rw [dropWhile_append_stops hblanks hstops]
    rfl

/-- No end tag of a root begins inside the text. -/
def HasNoRootEnd (s : Text) : Prop := ∀ rest, rest <:+ s → isRootEnd rest = false

theorem hasNoRootEnd_cons {c : Char} {s : Text}
    : HasNoRootEnd (c :: s) ↔ isRootEnd (c :: s) = false ∧ HasNoRootEnd s := by
  simp only [HasNoRootEnd, List.suffix_cons_iff]
  constructor
  · intro h
    exact ⟨h _ (.inl rfl), fun rest hrest => h rest (.inr hrest)⟩
  · rintro ⟨hhead, htail⟩ rest (rfl | hrest)
    · exact hhead
    · exact htail rest hrest

theorem hasNoRootEnd_iff {s : Text}
    : HasNoRootEnd s
      ↔ ∀ front closing rest, s = front ++ closing ++ rest → ¬ IsRootEnd closing := by
  constructor
  · rintro h front closing rest rfl hclosing
    have hend : isRootEnd (closing ++ rest) := isRootEnd_iff.mpr ⟨closing, rest, hclosing, rfl⟩
    rw [h _ ⟨front, by simp⟩] at hend
    cases hend
  · rintro h rest ⟨front, rfl⟩
    by_contra hend
    rw [Bool.not_eq_false] at hend
    obtain ⟨closing, behind, hclosing, rfl⟩ := isRootEnd_iff.mp hend
    exact h front closing behind (by simp) hclosing

theorem hasNoRootEnd_append {front : Text} (hfront : '<' ∉ front) (s : Text)
    : HasNoRootEnd (front ++ s) ↔ HasNoRootEnd s := by
  induction front with
  | nil => rfl
  | cons c front ih =>
      rw [List.mem_cons, not_or] at hfront
      rw [List.cons_append, hasNoRootEnd_cons, ih hfront.2, isRootEnd_of_ne (Ne.symm hfront.1)]
      exact and_iff_right rfl

/-- Inside an end tag no other one begins. -/
theorem IsRootEnd.exists_inner {closing : Text} (h : IsRootEnd closing)
    : ∃ inner, closing = '<' :: inner ∧ '<' ∉ inner := by
  obtain ⟨name, blanks, hname, hblanks, rfl⟩ := h
  refine ⟨_, rfl, fun hmem => ?_⟩
  simp only [List.mem_cons, List.mem_append, List.not_mem_nil, or_false] at hmem
  rcases hmem with hmem | hmem | hmem | hmem
  · cases hmem
  · have hfold : Text.foldChar '<' ∈ ("svg" : Text) :=
      of_decide_eq_true hname ▸ List.mem_map_of_mem hmem
    revert hfold
    with_unfolding_all decide
  · exact absurd (hblanks _ hmem) (by decide)
  · cases hmem

/-- A text has no end tag of a root, or a last one. -/
theorem hasNoRootEnd_or_exists_last (s : Text)
    : HasNoRootEnd s
      ∨ ∃ before c rest, s = before ++ c :: rest ∧ isRootEnd (c :: rest) ∧ HasNoRootEnd rest := by
  induction s with
  | nil =>
      refine .inl fun rest hrest => ?_
      rw [List.suffix_nil.mp hrest]
      with_unfolding_all decide
  | cons c s ih =>
      rcases ih with hnone | ⟨before, d, rest, rfl, hend, hnone⟩
      · cases hend : isRootEnd (c :: s) with
        | false => exact .inl (hasNoRootEnd_cons.mpr ⟨hend, hnone⟩)
        | true => exact .inr ⟨[], c, s, rfl, hend, hnone⟩
      · exact .inr ⟨c :: before, d, rest, rfl, hend, hnone⟩

theorem beforeLastEnd?_of_hasNoRootEnd {s : Text} (hs : HasNoRootEnd s) (passed : Text)
    (best : Option Text)
    : beforeLastEnd? passed best s = best.map List.reverse := by
  induction s generalizing passed with
  | nil => rfl
  | cons c s ih =>
      obtain ⟨hhead, htail⟩ := hasNoRootEnd_cons.mp hs
      rw [beforeLastEnd?, hhead, if_neg Bool.false_ne_true, ih htail]

/-- What stands before the last end tag is found, by induction over it. -/
theorem beforeLastEnd?_of_last {content rest : Text} {c : Char} (hend : isRootEnd (c :: rest))
    (hrest : HasNoRootEnd rest) (passed : Text) (best : Option Text)
    : beforeLastEnd? passed best (content ++ c :: rest) = some (passed.reverse ++ content) := by
  induction content generalizing passed best with
  | nil =>
      rw [List.nil_append, beforeLastEnd?, if_pos hend, beforeLastEnd?_of_hasNoRootEnd hrest,
        List.append_nil]
      rfl
  | cons d content ih =>
      rw [List.cons_append, beforeLastEnd?, ih, List.reverse_cons, List.append_assoc]
      rfl

theorem beforeLastEnd?_eq_some_iff {s content : Text}
    : beforeLastEnd? [] none s = some content
      ↔ ∃ closing behind, s = content ++ (closing ++ behind) ∧ IsRootEnd closing
        ∧ HasNoRootEnd behind := by
  constructor
  · intro h
    rcases hasNoRootEnd_or_exists_last s with hnone | ⟨before, c, rest, rfl, hend, hrest⟩
    · rw [beforeLastEnd?_of_hasNoRootEnd hnone] at h
      cases h
    · rw [beforeLastEnd?_of_last hend hrest] at h
      cases h
      obtain ⟨closing, behind, hclosing, heq⟩ := isRootEnd_iff.mp hend
      refine ⟨closing, behind, by rw [heq]; rfl, hclosing, ?_⟩
      obtain ⟨inner, rfl, hinner⟩ := hclosing.exists_inner
      rw [List.cons_append, List.cons.injEq] at heq
      rwa [heq.2, hasNoRootEnd_append hinner] at hrest
  · rintro ⟨closing, behind, rfl, hclosing, hbehind⟩
    have hend : isRootEnd (closing ++ behind) := isRootEnd_iff.mpr ⟨closing, behind, hclosing, rfl⟩
    obtain ⟨inner, rfl, hinner⟩ := hclosing.exists_inner
    exact beforeLastEnd?_of_last hend ((hasNoRootEnd_append hinner behind).mpr hbehind) [] none

-----------------------------------------------------------------------------------------
-- The words of the opening tag
-----------------------------------------------------------------------------------------

theorem isWrittenAs_iff {value written : Text}
    : IsWrittenAs value written ↔ IsValue [] written ∧ unquote written = value := by
  constructor
  · intro h
    cases h with
    | @quoted quote value hquote hvalue =>
        refine ⟨.quoted hquote hvalue, ?_⟩
        rcases hquote with rfl | rfl <;> simp [unquote]
    | bare hne hvalue =>
        refine ⟨.bare hne hvalue (by simp [Stops]), ?_⟩
        unfold unquote
        split
        · exact absurd (hvalue _ List.mem_cons_self) (by decide)
        · exact absurd (hvalue _ List.mem_cons_self) (by decide)
        · rfl
  · rintro ⟨h, rfl⟩
    cases h with
    | @quoted quote body hquote hbody =>
        have hunquote : unquote (quote :: (body ++ [quote])) = body := by
          rcases hquote with rfl | rfl <;> simp [unquote]
        rw [hunquote]
        exact .quoted hquote hbody
    | bare hne hvalue =>
        have hunquote : unquote written = written := by
          unfold unquote
          split
          · exact absurd (hvalue _ List.mem_cons_self) (by decide)
          · exact absurd (hvalue _ List.mem_cons_self) (by decide)
          · rfl
        rw [hunquote]
        exact .bare hne hvalue

/-- The words are the attributes that are read whatever stands behind them. -/
theorem RootAttribute.isWord_iff {a : RootAttribute}
    : a.IsWord ↔ ∃ b : Attribute, b.EndsBefore [] ∧ RootAttribute.ofAttribute b = a := by
  constructor
  · intro h
    cases h with
    | @alone name hne hname =>
        exact ⟨⟨name, none⟩, ⟨hne, hname, fun _ => by simp [Stops], by simp⟩, rfl⟩
    | @assigned name equals value written hne hname hequals hvalue =>
        obtain ⟨hwritten, rfl⟩ := isWrittenAs_iff.mp hvalue
        refine ⟨⟨name, some (equals, written)⟩, ⟨hne, hname, by simp, ?_⟩, rfl⟩
        rintro _ ⟨⟩
        exact ⟨hequals, hwritten⟩
  · rintro ⟨⟨name, value⟩, hb, rfl⟩
    cases value with
    | none => exact .alone hb.notEmpty hb.name
    | some assigned =>
        obtain ⟨hequals, hvalue⟩ := hb.assigned assigned rfl
        exact .assigned hb.notEmpty hb.name hequals (isWrittenAs_iff.mpr ⟨hvalue, rfl⟩)

section Words

variable {attributes : List (Text × Attribute)}

/-- Attributes behind blanks cover their text from the first one on, by induction over them. -/
theorem covers_of_forall {a : Attribute} (ha : a.EndsBefore [])
    (hblanks : ∀ b ∈ attributes, b.1 ≠ [] ∧ ∀ c ∈ b.1, Text.isBlank c)
    (hends : ∀ b ∈ attributes, b.2.EndsBefore [])
    : Covers (a.text ++ attributesText attributes)
        (.ofAttribute a :: attributes.map fun b => .ofAttribute b.2) := by
  have hword : (RootAttribute.ofAttribute a).IsWord := RootAttribute.isWord_iff.mpr ⟨a, ha, rfl⟩
  induction attributes generalizing a with
  | nil =>
      have htext : a.text ++ attributesText [] = a.text := by simp [attributesText]
      rw [htext]
      exact .last hword
  | cons b attributes ih =>
      rw [List.forall_mem_cons] at hblanks hends
      rw [attributesText_cons]
      exact .cons hword hblanks.1.1 hblanks.1.2
        (ih hends.1 hblanks.2 hends.2 (RootAttribute.isWord_iff.mpr ⟨b.2, hends.1, rfl⟩))

/-- Words that cover a text are attributes, behind whatever blanks. The induction is over the
words.
-/
theorem Covers.exists_attributes {s blanks : Text} {words : List RootAttribute} (h : Covers s words)
    (hwords : words ≠ []) (hne : blanks ≠ []) (hblanks : ∀ c ∈ blanks, Text.isBlank c)
    : ∃ attributes : List (Text × Attribute), attributesText attributes = blanks ++ s
      ∧ (attributes.map fun a => RootAttribute.ofAttribute a.2) = words
      ∧ (∀ a ∈ attributes, a.1 ≠ [] ∧ ∀ c ∈ a.1, Text.isBlank c)
      ∧ ∀ a ∈ attributes, a.2.EndsBefore [] := by
  induction h generalizing blanks with
  | nil => exact absurd rfl hwords
  | last ha =>
      obtain ⟨a, hends, rfl⟩ := RootAttribute.isWord_iff.mp ha
      refine ⟨[(blanks, a)], by simp [attributesText]; rfl, rfl, ?_, ?_⟩
      · simpa using ⟨hne, hblanks⟩
      · simpa using hends
  | cons ha hne' hblanks' _ ih =>
      obtain ⟨a, hends, rfl⟩ := RootAttribute.isWord_iff.mp ha
      obtain ⟨attributes, htext, hmap, hbehind, hall⟩ := ih (by simp) hne' hblanks'
      refine ⟨(blanks, a) :: attributes, ?_, by rw [List.map_cons, hmap],
        List.forall_mem_cons.mpr ⟨⟨hne, hblanks⟩, hbehind⟩,
        List.forall_mem_cons.mpr ⟨hends, hall⟩⟩
      rw [attributesText_cons, htext]
      rfl

end Words

-----------------------------------------------------------------------------------------
-- The end of the opening tag
-----------------------------------------------------------------------------------------

/-- A slash at the end of an attribute ends its value. -/
theorem Attribute.EndsBefore.getLast?_text {a : Attribute} (h : a.EndsBefore [])
    : a.text.getLast? = some '/' ↔ ∃ assigned ∈ a.value, assigned.2.getLast? = some '/' := by
  obtain ⟨name, value⟩ := a
  cases value with
  | none =>
      refine ⟨fun hlast => ?_, by simp⟩
      exact absurd (h.name '/' (List.mem_of_getLast? hlast)) (by decide)
  | some assigned =>
      have hne : assigned.2 ≠ [] := by
        obtain ⟨-, hvalue⟩ := h.assigned assigned rfl
        generalize assigned.2 = value at hvalue
        cases hvalue with
        | quoted => simp
        | bare hne => exact hne
      simp [Attribute.text, hne]

/-- The last character that is taken may stand in front of what is left. -/
theorem spanAhead_getLast? {p : Char → Text → Bool} {s : Text} {c : Char}
    (h : (Text.spanAhead p s).1.getLast? = some c)
    : p c (Text.spanAhead p s).2 := by
  induction s with
  | nil => cases h
  | cons d s ih =>
      rw [spanAhead_cons] at h ⊢
      split at h
      · next hd =>
          rw [if_pos hd]
          cases hfirst : (Text.spanAhead p s).1 with
          | nil =>
              have hall := Text.spanAhead_append p s
              rw [hfirst, List.nil_append] at hall
              rw [hfirst] at h
              cases h
              rwa [hall]
          | cons e first =>
              rw [hfirst] at h ih
              exact ih (by simpa using h)
      · cases h

/-- No value that is read of a root leaves a bracket behind a slash: a quoted one ends with its
quote, and a bare one does not take the slash.
-/
theorem getLast?_of_readValue? {s value rest : Text}
    (h : readValue? bareInRoot s = some (value, rest)) (hrest : rest.head? = some '>')
    : value.getLast? ≠ some '/' := by
  intro hlast
  unfold readValue? at h
  split at h
  · cases h
  · next quote inner =>
      split at h
      · next hquote =>
          obtain ⟨⟨body, left⟩, -, heq⟩ := Option.map_eq_some_iff.mp h
          cases heq
          rw [List.getLast?_concat] at hlast
          cases hlast
          exact absurd hquote (by decide)
      · dsimp only at h
        split at h
        · cases h
        · cases h
          have hslash := spanAhead_getLast? hlast
          rw [bareInRoot, hrest] at hslash
          exact absurd hslash (by decide)

theorem getLast?_of_readAttribute? {s rest : Text} {a : Attribute}
    (h : readAttribute? bareInRoot s = some (a, rest)) (hrest : rest.head? = some '>')
    : ∀ assigned ∈ a.value, assigned.2.getLast? ≠ some '/' := by
  unfold readAttribute? at h
  dsimp only at h
  split at h
  · cases h
  · split at h
    · next assigned left hassigned =>
        cases h
        rintro _ ⟨⟩
        unfold readAssigned? at hassigned
        split at hassigned
        · cases hassigned
        · obtain ⟨⟨value, left⟩, hvalue, heq⟩ := Option.map_eq_some_iff.mp hassigned
          cases heq
          exact getLast?_of_readValue? hvalue hrest
    · cases h
      simp

/-- So do no attributes that are read of a root. The induction follows the reading, with what is
known of the attribute that has been read last.
-/
theorem getLast?_of_readAttributesAfter (done : List (Text × Attribute)) (s : Text)
    (hdone : s.head? = some '>' →
      ∀ a ∈ done.head?, ∀ assigned ∈ a.2.value, assigned.2.getLast? ≠ some '/')
    (hrest : (readAttributesAfter bareInRoot done s).2.head? = some '>')
    : ∀ a ∈ (readAttributesAfter bareInRoot done s).1.getLast?,
        ∀ assigned ∈ a.2.value, assigned.2.getLast? ≠ some '/' := by
  fun_induction readAttributesAfter bareInRoot done s with
  | case1 done s =>
      rw [List.getLast?_reverse]
      exact hdone hrest
  | case2 done s blanks hne a rest hread ih =>
      refine ih (fun hhead => ?_) hrest
      rintro _ ⟨⟩
      exact getLast?_of_readAttribute? hread hhead
  | case3 done s =>
      rw [List.getLast?_reverse]
      exact hdone hrest

section Tag

variable {attributes : List (Text × Attribute)} {blanks rest : Text}

/-- What stands in front of the end of an opening tag ends with a slash only if a value does. -/
theorem getLast?_attributesText (hends : ∀ a ∈ attributes, a.2.EndsBefore [])
    (h : (attributesText attributes).getLast? = some '/')
    : ∃ a ∈ attributes.getLast?, ∃ assigned ∈ a.2.value, assigned.2.getLast? = some '/' := by
  by_cases hnil : attributes = []
  · subst hnil
    cases h
  · obtain ⟨front, a, rfl⟩ : ∃ front a, attributes = front ++ [a] :=
      ⟨_, _, (List.dropLast_append_getLast hnil).symm⟩
    have ha := hends a (by simp)
    have hne : a.2.text ≠ [] := by
      obtain ⟨assigned, htext⟩ := a.2.exists_text
      rw [htext a.2.name]
      simp [ha.notEmpty]
    have htext : attributesText (front ++ [a]) = attributesText front ++ a.1 ++ a.2.text := by
      simp [attributesText]
    rw [htext, List.getLast?_append_of_ne_nil _ hne] at h
    exact ⟨a, List.getLast?_concat, ha.getLast?_text.mp h⟩

theorem ne_slash_of_readAttributes {s : Text}
    (hread : AreRead (blanks ++ '>' :: rest) (readAttributes bareInRoot s).1)
    (hrest : (readAttributes bareInRoot s).2 = blanks ++ '>' :: rest)
    (hblanks : ∀ c ∈ blanks, Text.isBlank c)
    : (attributesText (readAttributes bareInRoot s).1 ++ blanks).getLast? ≠ some '/' := by
  intro hlast
  by_cases hnil : blanks = []
  · subst hnil
    rw [List.append_nil] at hlast
    obtain ⟨a, ha, assigned, hassigned, hslash⟩ :=
      getLast?_attributesText hread.forall_endsBefore hlast
    exact getLast?_of_readAttributesAfter [] s (by simp) (by rw [← readAttributes, hrest]; rfl) a ha
      assigned hassigned hslash
  · rw [List.getLast?_append_of_ne_nil _ hnil] at hlast
    exact absurd (hblanks '/' (List.mem_of_getLast? hlast)) (by decide)

theorem AreRead.eq_nil_of_head? (h : AreRead (blanks ++ '>' :: rest) attributes)
    (hblanks : ∀ c ∈ blanks, Text.isBlank c)
    (hhead : (attributesText attributes ++ (blanks ++ '>' :: rest)).head? = some '>')
    : attributes = [] ∧ blanks = [] := by
  have hstarts {s : Text} (hs : ∀ c ∈ s, Text.isBlank c) (s' : Text)
      (hhead : (s ++ s').head? = some '>') : s = [] := by
    cases s with
    | nil => rfl
    | cons c s =>
        cases hhead
        exact absurd (hs '>' List.mem_cons_self) (by decide)
  cases h with
  | nil => exact ⟨rfl, hstarts hblanks _ hhead⟩
  | @cons blanks' a attributes hne hblanks' =>
      rw [attributesText_cons, List.append_assoc] at hhead
      exact absurd (hstarts hblanks' _ hhead) hne

/-- Attributes of a root are read back in front of the end of its tag, by induction over them. -/
theorem AreRead.readAttributesAfter_root (h : AreRead (blanks ++ '>' :: rest) attributes)
    (hblanks : ∀ c ∈ blanks, Text.isBlank c)
    (hopens : (attributesText attributes ++ blanks).getLast? ≠ some '/')
    (done : List (Text × Attribute))
    : Markup.readAttributesAfter bareInRoot done
          (attributesText attributes ++ (blanks ++ '>' :: rest))
        = (done.reverse ++ attributes, blanks ++ '>' :: rest) := by
  have hclose : IsClose ['>'] := .inl rfl
  induction h generalizing done with
  | nil =>
      rw [attributesText, List.flatMap_nil, List.nil_append, List.append_nil]
      exact readAttributesAfter_left hblanks (hclose.endsStretch rest) done
  | @cons blanks' a attributes hne hblanks' ha h ih =>
      have hnothing := (h.readAttributesAfter hblanks hclose []).2
      have hstops := ha.stops fun _ hc => isBlank_of_isNameChar hc
      rw [attributesText_cons] at hopens
      have hslash : (attributesText attributes ++ (blanks ++ '>' :: rest)).head? = some '>' →
          ∀ assigned ∈ a.value, assigned.2.getLast? ≠ some '/' := by
        intro hhead assigned hassigned hlast
        obtain ⟨rfl, rfl⟩ := h.eq_nil_of_head? hblanks hhead
        have htext : a.text.getLast? = some '/' :=
          (ha.of_stops (by simp [Stops])).getLast?_text.mpr ⟨assigned, hassigned, hlast⟩
        refine hopens ?_
        simp [attributesText, List.getLast?_append, htext]
      have hread := readAttribute?_bareInRoot hslash hnothing (ha.readAttribute? hnothing)
      rw [attributesText_cons, List.append_assoc, List.append_assoc,
        readAttributesAfter_blanks hne hblanks' (hstops _), hread]
      dsimp only
      rw [ih]
      · simp
      · intro hlast
        refine hopens ?_
        rw [List.append_assoc, List.append_assoc, List.getLast?_append, List.getLast?_append, hlast]
        rfl

end Tag

theorem stops_bare_of_blanks {blanks : Text} (hblanks : ∀ c ∈ blanks, Text.isBlank c) (rest : Text)
    : Stops isBareChar (blanks ++ '>' :: rest) := by
  cases blanks with
  | nil =>
      rintro _ ⟨⟩
      decide
  | cons c blanks =>
      rintro _ ⟨⟩
      by_contra hbare
      rw [Bool.not_eq_false] at hbare
      have := hblanks c List.mem_cons_self
      rw [isBlank_of_isBareChar hbare] at this
      cases this

/-- Covered text begins with a word. -/
theorem Covers.stops {s : Text} {words : List RootAttribute} (h : Covers s words)
    (hwords : words ≠ []) (rest : Text)
    : s ≠ [] ∧ Stops Text.isBlank (s ++ rest) := by
  have hword {a : RootAttribute} (ha : a.IsWord) (s : Text)
      : a.raw ++ s ≠ [] ∧ Stops Text.isBlank (a.raw ++ s ++ rest) := by
    obtain ⟨b, hends, rfl⟩ := RootAttribute.isWord_iff.mp ha
    have hstops := hends.stops (fun _ hc => isBlank_of_isNameChar hc) (s ++ rest)
    obtain ⟨assigned, htext⟩ := b.exists_text
    refine ⟨?_, by rwa [List.append_assoc]⟩
    change b.text ++ s ≠ []
    rw [htext b.name]
    simp [hends.notEmpty]
  cases h with
  | nil => exact absurd rfl hwords
  | last ha => simpa using hword ha []
  | cons ha => exact hword ha _

/-- What stands in an opening tag are attributes behind blanks, and blanks. -/
theorem Root.StandsIn.exists_attributes {root : Root} {inside : Text} (h : root.StandsIn inside)
    : ∃ attributes blanks, inside = attributesText attributes ++ blanks
      ∧ (∀ c ∈ blanks, Text.isBlank c)
      ∧ (attributes.map fun a => RootAttribute.ofAttribute a.2) = root.attributeList
      ∧ (∀ a ∈ attributes, a.1 ≠ [] ∧ ∀ c ∈ a.1, Text.isBlank c)
      ∧ ∀ a ∈ attributes, a.2.EndsBefore [] := by
  obtain ⟨front, back, hfront, hback, hinside⟩ := Text.exists_eq_trim inside
  rw [← h.attributes] at hinside
  rw [Text.allBlank, List.all_eq_true] at hfront hback
  have hcovers := h.covers
  by_cases hwords : root.attributeList = []
  · rw [hwords] at hcovers
    generalize root.attributes = s at hcovers hinside
    cases hcovers
    refine ⟨[], inside, by simp [attributesText], ?_, by rw [hwords]; rfl, by simp, by simp⟩
    rw [hinside]
    intro c hc
    simp only [List.nil_append, List.mem_append] at hc
    exact hc.elim (hfront c) (hback c)
  · have hne : front ≠ [] := by
      rintro rfl
      obtain ⟨hne, hstops⟩ := hcovers.stops hwords back
      obtain ⟨c, s, hs⟩ := List.exists_cons_of_ne_nil hne
      have hblank : Text.isBlank c := by simpa using h.behind c (by rw [hinside, hs]; rfl)
      rw [hstops c (by rw [hs]; rfl)] at hblank
      cases hblank
    obtain ⟨attributes, htext, hmap, hbehind, hends⟩ :=
      hcovers.exists_attributes hwords hne hfront
    exact ⟨attributes, back, by rw [htext, List.append_assoc, ← hinside], hback, hmap, hbehind,
      hends⟩

/-- Attributes behind blanks do not stand close to what is in front of them. -/
theorem stops_attributesText {attributes : List (Text × Attribute)} {blanks : Text}
    (hbehind : ∀ a ∈ attributes, a.1 ≠ [] ∧ ∀ c ∈ a.1, Text.isBlank c)
    (hblanks : ∀ c ∈ blanks, Text.isBlank c)
    : Stops (!Text.isBlank ·) (attributesText attributes ++ blanks) := by
  have hstops {front : Text} (hfront : ∀ c ∈ front, Text.isBlank c) (hne : front ≠ []) (s : Text)
      : Stops (!Text.isBlank ·) (front ++ s) :=
    stops_of_forall (fun c hc => by simp [hc]) hne hfront s
  cases attributes with
  | nil =>
      by_cases hnil : blanks = []
      · simp [hnil, Stops, attributesText]
      · simpa [attributesText] using hstops hblanks hnil []
  | cons a attributes =>
      obtain ⟨hne, ha⟩ := hbehind a List.mem_cons_self
      rw [attributesText_cons, List.append_assoc]
      exact hstops ha hne _

/-- What is read of an opening tag stands in it. -/
theorem Root.standsIn_of_readRootTag? {root : Root} {s text behind : Text}
    (hread : readRootTag? s = some (text, behind)) (hattributes : root.attributes = Text.trim text)
    (hlist : root.attributeList = splitAttributes (Text.trim text))
    : ∃ inside, s = inside ++ '>' :: behind ∧ root.StandsIn inside := by
  have hnil : Stops isBareChar [] := by simp [Stops]
  obtain ⟨blanks, hrest, hblanks, rfl⟩ := exists_of_readRootTag? hread
  have hareRead := areRead_readAttributes hrest hblanks
  have hopens := ne_slash_of_readAttributes hareRead hrest hblanks
  have hsplit := readAttributes_append bareInRoot s
  have hbehind := hareRead.forall_blanks
  have hends := hareRead.forall_endsBefore
  have halone := areRead_of_forall hnil hbehind hends
  rw [hrest] at hsplit
  rw [halone.splitAttributes] at hlist
  rw [halone.trim_eq] at hattributes
  refine ⟨_, by rw [List.append_assoc]; exact hsplit.symm, stops_attributesText hbehind hblanks,
    ?_, ?_, hopens⟩
  · rw [hattributes, ← halone.trim_eq, Text.trim_append_right (List.all_eq_true.mpr hblanks)]
  · rw [hattributes, hlist]
    generalize (readAttributes bareInRoot s).1 = attributes at hbehind hends
    cases attributes with
    | nil => exact .nil
    | cons a attributes =>
        rw [List.forall_mem_cons] at hbehind hends
        have hstops := hends.1.stops (fun _ hc => isBlank_of_isNameChar hc)
          (attributesText attributes)
        rw [attributesText_cons, Text.dropBlank, dropWhile_append_stops hbehind.1.2 hstops]
        exact covers_of_forall hends.1 hbehind.2 hends.2

/-- What stands in an opening tag is read of it. -/
theorem Root.StandsIn.exists_readRootTag? {root : Root} {inside : Text} (h : root.StandsIn inside)
    (behind : Text)
    : ∃ text, readRootTag? (inside ++ '>' :: behind) = some (text, behind)
      ∧ root.attributes = Text.trim text
      ∧ root.attributeList = splitAttributes (Text.trim text) := by
  have hnil : Stops isBareChar [] := by simp [Stops]
  obtain ⟨attributes, blanks, rfl, hblanks, hmap, hbehind, hends⟩ := h.exists_attributes
  have hareRead := areRead_of_forall (stops_bare_of_blanks hblanks behind) hbehind hends
  have hread := hareRead.readAttributesAfter_root hblanks h.opens []
  have hstops : Stops Text.isBlank ('>' :: behind) := by
    rintro _ ⟨⟩
    decide
  have htrim : root.attributes = Text.trim (attributesText attributes) := by
    rw [h.attributes, Text.trim_append_right (List.all_eq_true.mpr hblanks)]
  refine ⟨attributesText attributes, ?_, htrim, ?_⟩
  · rw [List.append_assoc, readRootTag?, readAttributes, hread]
    dsimp only
    rw [dropWhile_append_stops hblanks hstops]
    rfl
  · rw [(areRead_of_forall hnil hbehind hends).splitAttributes, hmap]

-----------------------------------------------------------------------------------------
-- The whole text
-----------------------------------------------------------------------------------------

/-- A root is found in a text exactly if the text can be cut around it: into what stands in front of
the first tag of a root, the opening tag, in which the words of the attributes and the blanks
between them are all there is, the content, an end tag, and what stands behind the last end tag.
-/
theorem ofText_eq_ok_iff_isCutFrom {s : Text} {root : Root}
    : Root.ofText s = .ok root
      ↔ ∃ before opening closing behind, root.IsCutFrom s before opening closing behind := by
  rw [ofText_eq_ok_iff]
  constructor
  · rintro ⟨afterName, text, rest, hfind, hread, hend, hattributes, hlist⟩
    obtain ⟨before, name, d, rest', hname, hd, hfound, hs, hfirst⟩ := findRoot?_eq_some_iff.mp hfind
    obtain ⟨inside, hinside, hstands⟩ := Root.standsIn_of_readRootTag? hread hattributes hlist
    obtain ⟨closing, behind, hrest, hclosing, hbehind⟩ := beforeLastEnd?_eq_some_iff.mp hend
    refine ⟨before, _, closing, behind, ?_, hfirst, ⟨name, inside, hname, hstands, rfl⟩, hclosing,
      hasNoRootEnd_iff.mp hbehind⟩
    rw [hs, hinside, hrest]
    simp
  · rintro ⟨before, opening, closing, behind, h⟩
    obtain ⟨name, inside, hname, hstands, hopening⟩ := h.opening
    have hbehind := hasNoRootEnd_iff.mpr h.last
    obtain ⟨text, hread, hattributes, hlist⟩ :=
      hstands.exists_readRootTag? (root.content ++ (closing ++ behind))
    refine ⟨_, text, _, findRoot?_eq_some_iff.mpr ?_, hread,
      beforeLastEnd?_eq_some_iff.mpr ⟨closing, behind, rfl, h.closing, hbehind⟩, hattributes, hlist⟩
    have htext : s = before
        ++ '<' :: (name ++ (inside ++ '>' :: (root.content ++ (closing ++ behind)))) := by
      rw [h.text, hopening]
      simp
    cases hinside : inside with
    | nil =>
        rw [hinside] at htext
        exact ⟨before, name, '>', _, hname, rfl, rfl, htext, h.first⟩
    | cons d more =>
        rw [hinside] at htext
        have hd : Text.isBlank d := by simpa using hstands.behind d (by rw [hinside]; rfl)
        exact ⟨before, name, d, _, hname, by simp [endsRootName, hd], rfl, htext, h.first⟩

/-- A slash in front of a blank belongs to a bare value, and of two end tags the last one counts. -/
example : Root.ofText "<svgx/><SVG\ta=b/ c = 'd>' ><g/></svg\n></sVg>/"
    = .ok ⟨"a=b/ c = 'd>'", "<g/></svg\n>",
        [⟨"a", some "b/", "a=b/"⟩, ⟨"c", some "d>", "c = 'd>'"⟩]⟩ := by
  decide +kernel

end SvgKit.Markup
