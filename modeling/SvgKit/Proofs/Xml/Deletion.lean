import SvgKit.Proofs.Xml.OpenElements
import SvgKit.Proofs.Xml.UnclosedTag

/-! What may be deleted from the content of a document, so that a document is left: content in which
every tag has its partner, attributes that declare nothing, and what stands in comments.
-/

namespace SvgKit.Xml

-----------------------------------------------------------------------------------------
-- Tokens one after the other
-----------------------------------------------------------------------------------------

section Tokens

variable {d : Doctype} {p q : Progress}

theorem Progress.Same.symm (h : p.Same q) : q.Same p :=
  ⟨h.frames.flip.imp fun _ _ hsame => hsame.symm, h.root.symm⟩

theorem Progress.Same.ne_nil (h : p.Same q) (hne : p.frames ≠ []) : q.frames ≠ [] := by
  intro hnil
  have hlength := h.length_eq
  rw [hnil, List.length_nil] at hlength
  exact hne (List.length_eq_zero_iff.mp hlength.symm)

theorem foldlM_append_eq_some {before behind : List Token}
    : (before ++ behind).foldlM (Progress.take? d) p = some q
      ↔ ∃ p₁, before.foldlM (Progress.take? d) p = some p₁
        ∧ behind.foldlM (Progress.take? d) p₁ = some q := by
  rw [List.foldlM_append]
  exact Option.bind_eq_some_iff

/-- Character data leaves open what is open, by induction over its segments. -/
theorem AreText.same {text : List Token} (h : AreText text)
    (hfold : text.foldlM (Progress.take? d) p = some q)
    : p.Same q := by
  induction text generalizing p with
  | nil =>
      cases hfold
      exact .refl _
  | cons token text ih =>
      obtain ⟨hfirst, hrest⟩ := List.forall_mem_cons.mp h
      obtain ⟨s, ahead, rfl⟩ := hfirst
      obtain ⟨next, hnext, hfold⟩ := Option.bind_eq_some_iff.mp hfold
      cases Progress.moves_of_take? hnext with
      | text hsame => exact hsame.trans (ih hrest hfold)

/-- Inside an element character data is taken in. -/
theorem AreText.exists_foldlM {text : List Token} (h : AreText text) (hne : p.frames ≠ [])
    : ∃ q, text.foldlM (Progress.take? d) p = some q ∧ p.Same q := by
  induction text generalizing p with
  | nil => exact ⟨p, rfl, .refl p⟩
  | cons token text ih =>
      obtain ⟨hfirst, hrest⟩ := List.forall_mem_cons.mp h
      obtain ⟨s, ahead, rfl⟩ := hfirst
      obtain ⟨f, frames, hp⟩ := List.exists_cons_of_ne_nil hne
      have hnext : p.take? d (.text s ahead)
          = some { p with frames := f.addSegment s ahead :: frames } := by
        simp only [Progress.take?, hp]
      obtain ⟨q, hq, hsame⟩ :=
        ih (p := { p with frames := f.addSegment s ahead :: frames }) hrest (by simp)
      refine ⟨q, by rw [List.foldlM_cons, hnext]; exact hq, ?_⟩
      exact (Progress.Same.top hp (.addSegment f s ahead)).trans hsame

theorem AreText.foldl_openBehind {text : List Token} (h : AreText text) (opened : List Spelling)
    : text.foldl openBehind opened = opened := by
  induction text generalizing opened with
  | nil => rfl
  | cons token text ih =>
      obtain ⟨hfirst, hrest⟩ := List.forall_mem_cons.mp h
      obtain ⟨s, ahead, rfl⟩ := hfirst
      exact ih hrest opened

/-- Tags that have their partners leave open what is open. -/
theorem foldl_openBehind_of_isBalanced {tokens : List Token} {opened : List Spelling}
    (h : isBalanced opened tokens) (outer : List Spelling)
    : tokens.foldl openBehind (opened ++ outer) = outer := by
  induction tokens generalizing opened with
  | nil =>
      obtain rfl := List.isEmpty_iff.mp h
      rfl
  | cons token tokens ih =>
      cases token with
      | start name given isEmpty =>
          cases isEmpty with
          | false => exact @ih (name :: opened) h
          | true => exact @ih opened h
      | finish name =>
          cases opened with
          | nil => cases h
          | cons first opened =>
              rw [isBalanced, Bool.and_eq_true] at h
              exact ih h.2
      | text | literal | entity => exact @ih opened h

/-- What is behind a place inside an element can be taken in where the place is reached. -/
theorem Joined.exists_foldlM {before behind all : List Token} (h : Joined before behind all)
    (hopen : before.foldl openBehind (p.frames.map (·.spelling)) ≠ [])
    (hall : all.foldlM (Progress.take? d) p = some q)
    : ∃ p₁ q', before.foldlM (Progress.take? d) p = some p₁ ∧ p₁.frames ≠ []
      ∧ behind.foldlM (Progress.take? d) p₁ = some q' ∧ q.Same q' := by
  obtain ⟨front, text₁, text₂, text, back, rfl, rfl, rfl, htext₁, htext₂, htext⟩ := h
  obtain ⟨reached, hfront, hall⟩ := foldlM_append_eq_some.mp hall
  obtain ⟨p₂, hp₂, hback⟩ := foldlM_append_eq_some.mp hall
  rw [List.foldl_append, htext₁.foldl_openBehind, ← Progress.map_spelling_of_foldlM hfront] at hopen
  have hne : reached.frames ≠ [] := fun hnil => hopen (by rw [hnil]; rfl)
  obtain ⟨p₁, hp₁, hsame₁⟩ := htext₁.exists_foldlM (d := d) hne
  obtain ⟨p₃, hp₃, hsame₃⟩ := htext₂.exists_foldlM (d := d) (hsame₁.ne_nil hne)
  have hsame : p₂.Same p₃ := (htext.same hp₂).symm.trans (hsame₁.trans hsame₃)
  obtain ⟨q', hq', hsameq⟩ := hsame.foldlM hback
  exact ⟨p₁, q', foldlM_append_eq_some.mpr ⟨reached, hfront, hp₁⟩, hsame₁.ne_nil hne,
    foldlM_append_eq_some.mpr ⟨p₃, hp₃, hq'⟩, hsameq⟩

/-- What can be taken in inside an element is taken in there behind what is in front of it. -/
theorem Joined.exists_foldlM_all {before behind all : List Token} (h : Joined before behind all)
    {p₁ : Progress} (hbefore : before.foldlM (Progress.take? d) p = some p₁) (hne : p₁.frames ≠ [])
    (hbehind : behind.foldlM (Progress.take? d) p₁ = some q)
    : ∃ q', all.foldlM (Progress.take? d) p = some q' ∧ q.Same q' := by
  obtain ⟨front, text₁, text₂, text, back, rfl, rfl, rfl, htext₁, htext₂, htext⟩ := h
  obtain ⟨reached, hfront, hp₁⟩ := foldlM_append_eq_some.mp hbefore
  obtain ⟨p₃, hp₃, hback⟩ := foldlM_append_eq_some.mp hbehind
  have hsame₁ := htext₁.same hp₁
  obtain ⟨p₂, hp₂, hsame₂⟩ := htext.exists_foldlM (d := d) (hsame₁.symm.ne_nil hne)
  have hsame : p₃.Same p₂ := ((hsame₁.trans (htext₂.same hp₃)).symm).trans hsame₂
  obtain ⟨q', hq', hsameq⟩ := hsame.foldlM hback
  exact ⟨q', foldlM_append_eq_some.mpr
    ⟨reached, hfront, foldlM_append_eq_some.mpr ⟨p₂, hp₂, hq'⟩⟩, hsameq⟩

end Tokens

-----------------------------------------------------------------------------------------
-- Texts in the place of others
-----------------------------------------------------------------------------------------

section Texts

variable {d : Doctype} {p q : Progress}

theorem Progress.absorb?_eq_some {s : Text}
    : p.absorb? d s = some q
      ↔ ∃ tokens, tokens? s = some tokens ∧ tokens.foldlM (Progress.take? d) p = some q :=
  Option.bind_eq_some_iff

/-- A text that begins with an item has been absorbed once the item and what is behind it have. -/
theorem exists_of_absorb? {c : Char} {s : Text} (h : p.absorb? d (c :: s) = some q)
    : ∃ tokens rest p₁, readTokens? (c :: s) = some (tokens, rest)
      ∧ tokens.foldlM (Progress.take? d) p = some p₁ ∧ p₁.absorb? d rest = some q := by
  obtain ⟨all, hall, -⟩ := Progress.absorb?_eq_some.mp h
  obtain ⟨tokens, rest, -, hread, -, -⟩ := exists_readTokens?_of_tokens? hall
  rw [Progress.absorb?_of_readTokens? hread, Option.bind_eq_some_iff] at h
  obtain ⟨p₁, hp₁, hq⟩ := h
  exact ⟨tokens, rest, p₁, hread, hp₁, hq⟩

/-- Behind a place inside an element, one text can stand for another. -/
theorem exists_absorb?_append {front s s' : Text} {before : List Token}
    (hfront : tokens? front = some before) (hopen : openNames before ≠ [])
    (hcrosses : ¬ Text.Crosses "]]>" front s')
    (hs : ∀ p q, p.frames ≠ [] → Progress.absorb? d p s = some q
      → ∃ q', Progress.absorb? d p s' = some q' ∧ q.Same q')
    (h : Progress.absorb? d {} (front ++ s) = some q)
    : ∃ q', Progress.absorb? d {} (front ++ s') = some q' ∧ q.Same q' := by
  obtain ⟨all, hall, hq⟩ := Progress.absorb?_eq_some.mp h
  obtain ⟨behind, hbehind, hjoined⟩ := exists_joined_of_tokens? hfront hall
  obtain ⟨p₁, q₁, hp₁, hne, hq₁, hsame⟩ := hjoined.exists_foldlM (p := {}) hopen hq
  obtain ⟨q₂, hq₂, hsame₂⟩ := hs p₁ q₁ hne (Progress.absorb?_eq_some.mpr ⟨behind, hbehind, hq₁⟩)
  obtain ⟨behind', hbehind', hq₂⟩ := Progress.absorb?_eq_some.mp hq₂
  obtain ⟨all', hall', hjoined'⟩ := exists_tokens?_append hfront hbehind' hcrosses
  obtain ⟨q', hq', hsame'⟩ := hjoined'.exists_foldlM_all hp₁ hne hq₂
  exact ⟨q', Progress.absorb?_eq_some.mpr ⟨all', hall', hq'⟩, (hsame.trans hsame₂).trans hsame'⟩

/-- Inside an element, content in which all tags have their partners can be left out. -/
theorem exists_absorb?_without_content {s rest : Text} {inside : List Token}
    (hs : tokens? s = some inside) (hbalanced : isBalanced [] inside) (hne : p.frames ≠ [])
    (h : p.absorb? d (s ++ rest) = some q)
    : ∃ q', p.absorb? d rest = some q' ∧ q.Same q' := by
  obtain ⟨all, hall, hq⟩ := Progress.absorb?_eq_some.mp h
  obtain ⟨behind, hbehind, hjoined⟩ := exists_joined_of_tokens? hs hall
  have hopen : inside.foldl openBehind (p.frames.map (·.spelling)) ≠ [] := by
    have := foldl_openBehind_of_isBalanced hbalanced (p.frames.map (·.spelling))
    rw [List.nil_append] at this
    simpa [this] using hne
  obtain ⟨p₁, q₁, hp₁, -, hq₁, hsame⟩ := hjoined.exists_foldlM hopen hq
  obtain ⟨q', hq', hsame'⟩ := (Progress.Same.of_isBalanced hbalanced hp₁ hne).symm.foldlM hq₁
  exact ⟨q', Progress.absorb?_eq_some.mpr ⟨behind, hbehind, hq'⟩, hsame.trans hsame'⟩

/-- A tag keeps what has to be kept without an attribute that declares nothing and has no default. -/
theorem Doctype.Keeps.without {name n : Spelling} {given more : List (Spelling × Value)}
    (hdeclares : n.declares = false) (hdefault : (d.rule? name n).bind (·.default) = none)
    (value : Value)
    : d.Keeps name (given ++ (n, value) :: more) (given ++ more) := by
  refine ⟨(List.Sublist.refl given).append (List.sublist_cons_self _ _), ?_, ?_⟩
  · simp [List.filter_append, hdeclares]
  · unfold Doctype.defaults
    refine List.filterMap_congr fun r _ => ?_
    by_cases hr : r.name = n
    · -- a rule that counts and names the attribute has no default
      by_cases hrule : d.rule? name r.name = some r
      · rw [← hr, hrule, Option.bind_some] at hdefault
        simp [hdefault]
      · simp [hrule]
    · have hgiven : ((given ++ (n, value) :: more).any fun a => a.1 = r.name)
          = (given ++ more).any fun a => a.1 = r.name := by
        simp [Ne.symm hr]
      rw [hgiven]

/-- A start tag can be replaced by one with some of its attributes. -/
theorem exists_absorb?_start {s s' rest : Text} {name : Spelling}
    {given kept : List (Spelling × Value)} {isEmpty : Bool}
    (hs : readStart? s = some (.start name given isEmpty, rest))
    (hs' : readStart? s' = some (.start name kept isEmpty, rest))
    (hkeeps : d.Keeps name given kept) (h : p.absorb? d ('<' :: s) = some q)
    : ∃ q', p.absorb? d ('<' :: s') = some q' ∧ q.Same q' := by
  have hread {s : Text} {given : List (Spelling × Value)}
      (h : readStart? s = some (.start name given isEmpty, rest))
      : p.absorb? d ('<' :: s)
        = (p.take? d (.start name given isEmpty)).bind (·.absorb? d rest) := by
    obtain ⟨c, t, rfl, hc⟩ := exists_of_readStart? h
    have htokens : readTokens? ('<' :: c :: t) = some ([.start name given isEmpty], rest) := by
      rw [readTokens?_name hc, h]
      rfl
    rw [Progress.absorb?_of_readTokens? htokens, List.foldlM_cons]
    simp
  rw [hread hs, Option.bind_eq_some_iff] at h
  obtain ⟨p₁, hp₁, hq⟩ := h
  obtain ⟨p₂, hp₂, hsame⟩ := (Progress.Same.refl p).start hkeeps hp₁
  obtain ⟨tokens, htokens, hq⟩ := Progress.absorb?_eq_some.mp hq
  obtain ⟨q', hq', hsame'⟩ := hsame.foldlM hq
  exact ⟨q', by rw [hread hs', hp₂]; exact Progress.absorb?_eq_some.mpr ⟨tokens, htokens, hq'⟩,
    hsame'⟩

/-- A whole attribute that declares nothing and has no default can be left out of a tag. -/
theorem exists_absorb?_without_attribute {tag space rest : Text} {name : Spelling}
    {given : List (Spelling × Value)} {a : Assignment}
    (htag : readStart? (tag ++ ['>']) = some (.start name given false, []))
    (hspace : ∀ c ∈ space, isSpace c) (hne : space ≠ []) (ha : a.Sound)
    (hdeclares : a.name.declares = false)
    (hdefault : (d.rule? name a.name).bind (·.default) = none)
    (h : p.absorb? d ('<' :: (tag ++ (space ++ a.text ++ rest))) = some q)
    : ∃ q', p.absorb? d ('<' :: (tag ++ rest)) = some q' ∧ q.Same q' := by
  obtain ⟨tokens, left, -, hread, -, -⟩ := exists_of_absorb? h
  have hstart : readTokens? ('<' :: (tag ++ (space ++ a.text ++ rest)))
      = (readStart? (tag ++ (space ++ a.text ++ rest))).map fun read => ([read.1], read.2) := by
    obtain ⟨c, t, htext, hc⟩ := exists_of_readStart? htag
    cases tag with
    | nil =>
        obtain ⟨rfl, -⟩ := List.cons.inj htext
        cases hc
    | cons x tag =>
        obtain ⟨rfl, -⟩ := List.cons.inj htext
        exact readTokens?_name hc _
  rw [hstart, Option.map_eq_some_iff] at hread
  obtain ⟨⟨token, left⟩, hread, -⟩ := hread
  obtain ⟨value, more, isEmpty, rfl, hread'⟩ :=
    exists_readStart?_without htag hspace hne ha hread
  exact exists_absorb?_start hread hread' (.without hdeclares hdefault value) h

end Texts

-----------------------------------------------------------------------------------------
-- Comments and sections
-----------------------------------------------------------------------------------------

/-- Two texts stand in front of the first place of a literal, and so does the first one alone. -/
structure Hides (closing kept x rest : Text) : Prop where
  hasNone : ¬ Text.hasLiteral closing (kept ++ x)
  crosses : ¬ Text.Crosses closing (kept ++ x) rest
  crosses' : ¬ Text.Crosses closing kept rest

theorem Hides.exists_splitAtLiteral? {closing kept x rest content left : Text}
    (h : Hides closing kept x rest)
    (hsplit : Text.splitAtLiteral? closing (kept ++ (x ++ rest)) = some (content, left))
    : ∃ behind, content = kept ++ x ++ behind
      ∧ Text.splitAtLiteral? closing (kept ++ rest) = some (kept ++ behind, left) := by
  have hkept : ¬ Text.hasLiteral closing kept := by
    have hnone := h.hasNone
    rw [Text.hasLiteral_iff] at hnone ⊢
    exact fun hmore => hnone (hmore.trans (List.prefix_append _ _).isInfix)
  rw [← List.append_assoc, Text.splitAtLiteral?_append_left h.hasNone h.crosses,
    Option.map_eq_some_iff] at hsplit
  obtain ⟨⟨behind, left⟩, hrest, heq⟩ := hsplit
  cases heq
  exact ⟨behind, rfl, by rw [Text.splitAtLiteral?_append_left hkept h.crosses', hrest]; rfl⟩

theorem isChar_of_append {kept x behind : Text} (h : (kept ++ x ++ behind).all isChar)
    : (kept ++ behind).all isChar := by
  simp only [List.all_append, Bool.and_eq_true] at h ⊢
  exact ⟨h.1.1, h.2⟩

theorem Hides.afterComment? {kept x rest left : Text} (h : Hides "--" kept x rest)
    (hread : Xml.afterComment? (kept ++ (x ++ rest)) = some left)
    : Xml.afterComment? (kept ++ rest) = some left := by
  unfold Xml.afterComment? at hread
  split at hread
  · next content left hsplit =>
      obtain ⟨behind, rfl, hsplit'⟩ := h.exists_splitAtLiteral? hsplit
      split at hread
      · next hall =>
          cases hread
          rw [Xml.afterComment?, hsplit']
          exact if_pos (isChar_of_append hall)
      · cases hread
  · cases hread

theorem Hides.exists_readSection? {kept x rest left content : Text} (h : Hides "]]>" kept x rest)
    (hread : readSection? (kept ++ (x ++ rest)) = some (content, left))
    : ∃ content', readSection? (kept ++ rest) = some (content', left) := by
  unfold readSection? at hread
  split at hread
  · cases hread
  · next content left hsplit =>
      obtain ⟨behind, rfl, hsplit'⟩ := h.exists_splitAtLiteral? hsplit
      split at hread
      · next hall =>
          cases hread
          rw [readSection?, hsplit']
          exact ⟨_, if_pos (isChar_of_append hall)⟩
      · cases hread

section Hidden

variable {d : Doctype} {p q : Progress} {kept x rest : Text}

theorem commentOpening_append (s : Text) : "<!--" ++ s = '<' :: '!' :: '-' :: '-' :: s := by
  simp [Text.ofString]

theorem sectionOpening_append (s : Text) : "<![CDATA[" ++ s = '<' :: '!' :: ("[CDATA[" ++ s) := by
  simp [Text.ofString]

theorem Hides.absorb?_comment (h : Hides "--" kept x rest)
    (habsorb : p.absorb? d ("<!--" ++ (kept ++ (x ++ rest))) = some q)
    : p.absorb? d ("<!--" ++ (kept ++ rest)) = some q := by
  rw [commentOpening_append] at habsorb ⊢
  obtain ⟨tokens, left, p₁, hread, hp₁, hq⟩ := exists_of_absorb? habsorb
  obtain ⟨left, hcomment, heq⟩ := Option.map_eq_some_iff.mp (readTokens?_comment _ ▸ hread)
  cases heq
  have hread' := readTokens?_comment (kept ++ rest)
  rw [h.afterComment? hcomment] at hread'
  rw [Progress.absorb?_of_readTokens? hread', hp₁]
  exact hq

theorem Hides.exists_absorb?_section (h : Hides "]]>" kept x rest) (hne : p.frames ≠ [])
    (habsorb : p.absorb? d ("<![CDATA[" ++ (kept ++ (x ++ rest))) = some q)
    : ∃ q', p.absorb? d ("<![CDATA[" ++ (kept ++ rest)) = some q' ∧ q.Same q' := by
  rw [sectionOpening_append] at habsorb ⊢
  obtain ⟨tokens, left, p₁, hread, hp₁, hq⟩ := exists_of_absorb? habsorb
  obtain ⟨⟨content, left⟩, hsection, heq⟩ :=
    Option.map_eq_some_iff.mp (readTokens?_section _ ▸ hread)
  cases heq
  obtain ⟨content', hsection'⟩ := h.exists_readSection? hsection
  have hread' := readTokens?_section (kept ++ rest)
  rw [hsection'] at hread'
  rw [Progress.absorb?_of_readTokens? hread']
  obtain ⟨f, frames, hp⟩ := List.exists_cons_of_ne_nil hne
  have htake (content : Text) : p.take? d (.literal content)
      = some { p with frames := f.addText content :: frames } := by
    simp only [Progress.take?, hp]
  have hsame (content : Text) : p.Same { p with frames := f.addText content :: frames } :=
    .top hp (.addText f content)
  rw [List.foldlM_cons, htake] at hp₁
  cases hp₁
  obtain ⟨behind, hbehind, hq⟩ := Progress.absorb?_eq_some.mp hq
  obtain ⟨q', hq', hsame'⟩ := ((hsame content).symm.trans (hsame content')).foldlM hq
  refine ⟨q', ?_, hsame'⟩
  simp only [List.foldlM_cons, htake, List.foldlM_nil, Option.bind_eq_bind, Option.bind_some,
    Option.pure_def]
  exact Progress.absorb?_eq_some.mpr ⟨behind, hbehind, hq'⟩

end Hidden

-----------------------------------------------------------------------------------------
-- What may be left out
-----------------------------------------------------------------------------------------

/-- The text is read by itself, and leaves an element open. -/
def LeavesOpen (front : Text) : Prop :=
  ∃ before, tokens? front = some before ∧ openNames before ≠ []

/-- What stands between two texts, of which the first one begins with the root, may be left out:
content in which every tag has its partner, an attribute of a tag that declares no namespace and
has no default, or a part of a comment or of a section of character data.
-/
inductive IsWhole (d : Doctype) : Text → Text → Text → Prop
  | content {front x rest : Text} {inside : List Token} (hfront : LeavesOpen front)
      (hinside : tokens? x = some inside) (hbalanced : isBalanced [] inside)
      (hcrosses : ¬ Text.Crosses "]]>" front rest)
    : IsWhole d front x rest
  | assignment {front tag space rest : Text} {name : Spelling} {given : List (Spelling × Value)}
      {a : Assignment} (hfront : front = [] ∨ LeavesOpen front)
      (htag : readStart? (tag ++ ['>']) = some (.start name given false, []))
      (hspace : ∀ c ∈ space, isSpace c) (hne : space ≠ []) (ha : a.Sound)
      (hdeclares : a.name.declares = false)
      (hdefault : (d.rule? name a.name).bind (·.default) = none)
    : IsWhole d (front ++ '<' :: tag) (space ++ a.text) rest
  | comment {front kept x rest : Text} (hfront : LeavesOpen front) (hhides : Hides "--" kept x rest)
    : IsWhole d (front ++ ("<!--" ++ kept)) x rest
  | characterData {front kept x rest : Text} (hfront : LeavesOpen front)
      (hhides : Hides "]]>" kept x rest)
    : IsWhole d (front ++ ("<![CDATA[" ++ kept)) x rest

theorem LeavesOpen.exists_cons {front : Text} (h : LeavesOpen front) : ∃ a b t, front = a :: b :: t := by
  obtain ⟨before, hbefore, hopen⟩ := h
  rcases front with _ | ⟨a, _ | ⟨b, t⟩⟩
  · rw [tokens?_nil] at hbefore
    cases hbefore
    exact absurd rfl hopen
  · obtain ⟨-, text, back, rfl, htext, hback⟩ := exists_text_of_tokens? hbefore
    by_cases ha : isData a
    · rw [List.dropWhile_cons_of_pos ha, List.dropWhile_nil, tokens?_nil] at hback
      cases hback
      rw [openNames, List.append_nil, htext.foldl_openBehind] at hopen
      exact absurd rfl hopen
    · obtain ⟨_, _, _, hread, -⟩ := exists_readTokens?_of_tokens? hbefore
      rw [readTokens?_singleton (by simpa using ha)] at hread
      cases hread
  · exact ⟨a, b, t, rfl⟩

/-- Something of the root stands in front of a whole. -/
theorem IsWhole.exists_cons {d : Doctype} {front x rest : Text} (h : IsWhole d front x rest)
    : ∃ a b t, front = a :: b :: t := by
  have happend {front : Text} (hfront : LeavesOpen front) (more : Text)
      : ∃ a b t, front ++ more = a :: b :: t := by
    obtain ⟨a, b, t, rfl⟩ := hfront.exists_cons
    exact ⟨a, b, t ++ more, rfl⟩
  cases h with
  | content hfront => exact hfront.exists_cons
  | @assignment front tag _ _ name given _ hfront htag =>
      rcases hfront with rfl | hfront
      · obtain ⟨c, t, htext, hc⟩ := exists_of_readStart? htag
        cases tag with
        | nil =>
            rw [← (List.cons.inj htext).1] at hc
            cases hc
        | cons x tag => exact ⟨'<', x, tag, rfl⟩
      · exact happend hfront _
  | comment hfront | characterData hfront => exact happend hfront _

/-- No `]]>` reaches into markup. -/
theorem not_crosses_markup {front s : Text} : ¬ Text.Crosses "]]>" front ('<' :: s) :=
  Text.not_crosses_of_head (by
    rintro _ ⟨⟩
    with_unfolding_all decide)

theorem leavesOpen_iff {front : Text}
    : LeavesOpen front ↔ (tokens? front).any fun before => !(openNames before).isEmpty := by
  rw [Option.any_eq_true]
  simp [LeavesOpen]

instance (front : Text) : Decidable (LeavesOpen front) := decidable_of_iff _ leavesOpen_iff.symm

theorem isWhole_of_isBalanced {d : Doctype} {front x rest : Text} (hfront : LeavesOpen front)
    (hbalanced : (tokens? x).any (isBalanced [])) (hcrosses : ¬ Text.Crosses "]]>" front rest)
    : IsWhole d front x rest := by
  obtain ⟨inside, hinside, hbalanced⟩ := (Option.any_eq_true _ _).mp hbalanced
  exact .content hfront hinside hbalanced hcrosses

theorem isWhole_of_readAttribute? {d : Doctype} {front tag space s rest : Text} {name n : Spelling}
    {given : List (Spelling × Value)} {value : Value} (hfront : front = [] ∨ LeavesOpen front)
    (htag : readStart? (tag ++ ['>']) = some (.start name given false, []))
    (hspace : ∀ c ∈ space, isSpace c) (hne : space ≠ [])
    (hread : readAttribute? s = some ((n, value), [])) (hdeclares : n.declares = false)
    (hdefault : (d.rule? name n).bind (·.default) = none)
    : IsWhole d (front ++ '<' :: tag) (space ++ s) rest := by
  obtain ⟨a, ha, rfl, -, hs⟩ := exists_assignment hread
  rw [List.append_nil] at hs
  rw [hs]
  exact .assignment hfront htag hspace hne ha hdeclares hdefault

/-- What is whole can be left out: the same elements are open behind the text. -/
theorem IsWhole.exists_absorb? {d : Doctype} {front x rest : Text} {q : Progress}
    (h : IsWhole d front x rest) (habsorb : Progress.absorb? d {} (front ++ (x ++ rest)) = some q)
    : ∃ q', Progress.absorb? d {} (front ++ rest) = some q' ∧ q.Same q' := by
  cases h with
  | content hfront hinside hbalanced hcrosses =>
      obtain ⟨before, hbefore, hopen⟩ := hfront
      exact exists_absorb?_append hbefore hopen hcrosses
        (fun p q hne hq => exists_absorb?_without_content hinside hbalanced hne hq) habsorb
  | assignment hfront htag hspace hne ha hdeclares hdefault =>
      rw [List.append_assoc] at habsorb ⊢
      rcases hfront with rfl | ⟨before, hbefore, hopen⟩
      · exact exists_absorb?_without_attribute htag hspace hne ha hdeclares hdefault habsorb
      · exact exists_absorb?_append hbefore hopen not_crosses_markup
          (fun p q _ hq =>
            exists_absorb?_without_attribute htag hspace hne ha hdeclares hdefault hq) habsorb
  | comment hfront hhides =>
      obtain ⟨before, hbefore, hopen⟩ := hfront
      rw [List.append_assoc, List.append_assoc] at habsorb ⊢
      exact exists_absorb?_append hbefore hopen (commentOpening_append _ ▸ not_crosses_markup)
        (fun p q _ hq => ⟨q, hhides.absorb?_comment hq, .refl q⟩) habsorb
  | characterData hfront hhides =>
      obtain ⟨before, hbefore, hopen⟩ := hfront
      rw [List.append_assoc, List.append_assoc] at habsorb ⊢
      exact exists_absorb?_append hbefore hopen (sectionOpening_append _ ▸ not_crosses_markup)
        (fun p q hne hq => hhides.exists_absorb?_section hne hq) habsorb

end SvgKit.Xml
