import SvgKit.Lint.Basic
import SvgKit.Proofs.Text.Pieces
import SvgKit.Proofs.Text.Searching

/-! Findings on a document when text is appended to it. A pattern that is found in a text is found in
it whatever stands behind, so what a document has stays reported, and what it lacks is not lacking
for the first time.
-/

namespace SvgKit.Lint

-----------------------------------------------------------------------------------------
-- Patterns
-----------------------------------------------------------------------------------------

/-- The condition holds of a text with more behind it if it holds of the text. -/
def Persists (p : Text → Bool) : Prop := ∀ s more, p s → p (s ++ more)

/-- A pattern is found at the place where it was found, by induction over the text. -/
theorem Persists.anyEnd {p : Text → Bool} (h : Persists p) : Persists (Text.anyEnd p) := by
  intro s more
  induction s with
  | nil => intro hs; cases hs
  | cons c s ih =>
      rw [List.cons_append, Text.anyEnd, Text.anyEnd, Bool.or_eq_true, Bool.or_eq_true]
      exact Or.imp (h (c :: s) more) ih

theorem Persists.anyWordStart {p : Text → Bool} (h : Persists p) (afterWord : Bool)
    : Persists (anyWordStart p afterWord) := by
  intro s more
  induction s generalizing afterWord with
  | nil => intro hs; cases hs
  | cons c s ih =>
      rw [List.cons_append, Lint.anyWordStart, Lint.anyWordStart, Bool.or_eq_true,
        Bool.or_eq_true, Bool.and_eq_true, Bool.and_eq_true]
      exact Or.imp (And.imp_right (h (c :: s) more)) (ih _)

/-- What is missing from a text with more behind it is missing from the text. -/
theorem Persists.not {p : Text → Bool} (h : Persists p) {s more : Text} (hp : !p (s ++ more))
    : !p s := by
  rw [Bool.not_eq_true'] at hp ⊢
  exact Bool.eq_false_iff.mpr fun hs => Bool.eq_false_iff.mp hp (h s more hs)

section Elements

variable (name : Text)

theorem persists_hasLiteral : Persists (Text.hasLiteral name) := by
  intro s more
  rw [Text.hasLiteral_iff, Text.hasLiteral_iff]
  exact fun h => h.trans (List.prefix_append s more).isInfix

theorem persists_hasTag : Persists (hasTag name) := by
  intro s more h
  rw [hasTag] at h
  split at h
  · next before rest hsplit =>
      rw [hasTag, Text.splitAtLiteral?_extend hsplit]
      rw [List.contains_iff_mem] at h ⊢
      exact List.mem_append_left _ h
  · cases h

/-- The text up to the end of a tag grows if the tag does not end in it. -/
theorem persists_rootHasAttribute : Persists (rootHasAttribute name) := by
  intro s more h
  rw [rootHasAttribute] at h
  split at h
  · next rest hdrop =>
      rw [rootHasAttribute, Text.dropLiteral?_extend hdrop]
      rw [Text.hasLiteral_iff] at h ⊢
      refine h.trans (List.IsPrefix.isInfix ?_)
      rw [List.takeWhile_append]
      split
      · next hall =>
          rw [(List.takeWhile_prefix _).eq_of_length hall]
          exact List.prefix_append _ _
      · exact List.prefix_rfl
  · cases h

theorem persists_opensTag : Persists (opensTag name) := by
  intro s more h
  cases s with
  | nil => cases h
  | cons c s =>
      unfold opensTag at h
      split at h
      · next behind heq =>
          cases heq
          split at h
          · next d rest hdrop =>
              rw [List.cons_append, opensTag, Text.dropFolded?_append_right hdrop]
              exact h
          · cases h
      · cases h

theorem persists_mentions : Persists (mentions name) := (persists_opensTag name).anyEnd

theorem persists_hasRootAttribute : Persists (hasRootAttribute name) :=
  (persists_rootHasAttribute name).anyEnd

end Elements

section Attributes

variable {s rest : Text}

theorem readEquals?_extend {equals : Text} {c : Char}
    (h : Markup.readEquals? s = some (equals, c :: rest)) (more : Text)
    : Markup.readEquals? (s ++ more) = some (equals, c :: (rest ++ more)) := by
  unfold Markup.readEquals? at h
  dsimp only at h
  split at h
  · next value hsign =>
      simp only [Option.some.injEq, Prod.mk.injEq] at h
      obtain ⟨rfl, hvalue⟩ := h
      simp only [Markup.readEquals?, dropWhile_extend hsign, takeWhile_extend hsign,
        dropWhile_extend hvalue, takeWhile_extend hvalue]
  · cases h

theorem afterOpeningQuote?_extend (h : afterOpeningQuote? s = some rest) (more : Text)
    : afterOpeningQuote? (s ++ more) = some (rest ++ more) := by
  unfold afterOpeningQuote? at h
  split at h
  · next hequals =>
      rw [afterOpeningQuote?, readEquals?_extend hequals]
      split at h
      · next hquote =>
          cases h
          exact if_pos hquote
      · cases h
  · cases h

theorem persists_closesQuote (needsText : Bool) : Persists (closesQuote needsText) := by
  intro s more h
  cases s with
  | nil => cases h
  | cons c s =>
      rw [closesQuote, Bool.and_eq_true] at h
      rw [List.cons_append, closesQuote, Bool.and_eq_true, List.head?_cons]
      refine ⟨?_, h.2⟩
      cases hquote : (c :: s).dropWhile (!isQuote ·) with
      | nil =>
          rw [hquote] at h
          cases h.1
      | cons d rest =>
          rw [← List.cons_append, dropWhile_extend hquote]
          rfl

theorem persists_styleHere : Persists styleHere := by
  intro s more h
  rw [styleHere] at h
  split at h
  · next value hopen =>
      obtain ⟨behind, hname, hquote⟩ := Option.bind_eq_some_iff.mp hopen
      rw [styleHere, Text.dropLiteral?_extend hname, Option.bind_some,
        afterOpeningQuote?_extend hquote]
      exact persists_closesQuote true value more h
  · cases h

/-- The name of a handler ends in the text, because an equals sign follows it there. -/
theorem persists_handlerHere : Persists handlerHere := by
  intro s more h
  unfold handlerHere at h
  split at h
  · next name hname =>
      split at h
      · cases h
      · next c name =>
          obtain ⟨hword, hvalue⟩ := Bool.and_eq_true_iff.mp h
          split at hvalue
          · next value hquote =>
              obtain ⟨d, behind, hbehind⟩ :
                  ∃ d behind, (c :: name).dropWhile Text.isWord = d :: behind := by
                refine List.exists_cons_of_ne_nil fun hnil => ?_
                rw [hnil] at hquote
                cases hquote
              rw [hbehind] at hquote
              have hquote := afterOpeningQuote?_extend hquote more
              rw [List.cons_append, ← dropWhile_extend hbehind] at hquote
              rw [handlerHere, Text.dropFolded?_append_right hname]
              dsimp only [List.cons_append] at hquote ⊢
              rw [hquote, hword, Bool.true_and]
              exact persists_closesQuote false value more hvalue
          · cases hvalue
  · cases h

theorem persists_isSome_dropFolded? (literal : Text)
    : Persists fun s => (Text.dropFolded? literal s).isSome := by
  intro s more h
  obtain ⟨rest, hrest⟩ := Option.isSome_iff_exists.mp h
  exact Option.isSome_iff_exists.mpr ⟨_, Text.dropFolded?_append_right hrest more⟩

theorem persists_externalHere : Persists externalHere := by
  intro s more h
  unfold externalHere at h
  split at h
  · next value hopen =>
      obtain ⟨behind, hname, hquote⟩ := Option.bind_eq_some_iff.mp hopen
      split at h
      · next rest hscheme =>
          rw [externalHere, Text.dropFolded?_append_right hname, Option.bind_some,
            afterOpeningQuote?_extend hquote]
          dsimp only
          rw [Text.dropFolded?_append_right hscheme]
          rw [Bool.or_eq_true] at h
          exact Bool.or_eq_true_iff.mpr (h.imp (persists_isSome_dropFolded? _ rest more)
            (persists_isSome_dropFolded? _ rest more))
      · cases h
  · cases h

theorem persists_colorHere : Persists colorHere := by
  intro s more h
  unfold colorHere at h
  split at h
  · next value hopen =>
      obtain ⟨behind, hname, hquote⟩ := Option.bind_eq_some_iff.mp hopen
      obtain ⟨color, hcolor, hcloses⟩ := List.any_eq_true.mp h
      rw [colorHere, Text.dropFolded?_append_right hname, Option.bind_some,
        afterOpeningQuote?_extend hquote]
      refine List.any_eq_true.mpr ⟨color, hcolor, ?_⟩
      split at hcloses
      · next quote rest hvalue =>
          rw [Text.dropFolded?_append_right hvalue]
          exact hcloses
      · cases hcloses
  · cases h

end Attributes

-----------------------------------------------------------------------------------------
-- Findings
-----------------------------------------------------------------------------------------

/-- The codes of findings on what a document has. -/
def presenceCodes : List Text :=
  (["INLINE_STYLES", "EMBEDDED_STYLES", "SCRIPT_ELEMENT", "EVENT_HANDLERS",
    "EXTERNAL_REFERENCE", "HARDCODED_COLORS", "DEPRECATED_ELEMENT", "FOREIGN_OBJECT",
    "SMIL_ANIMATION", "FILTER_EFFECTS"] : List String).map Text.ofString

/-- The codes of findings on what a document lacks. The code of a missing view box is not among them,
because that is reported only where a root is found, and the root may be what is appended.
-/
def absenceCodes : List Text :=
  (["MISSING_TITLE", "MISSING_DESC", "MISSING_ROLE", "NO_ACCESSIBLE_NAME"]
    : List String).map Text.ofString

/-- Two issues report the same finding. They are equal, unless they report animations, of which a
report names one only.
-/
structure SameFinding (i j : Issue) : Prop where
  code : j.code = i.code
  severity : j.severity = i.severity
  eq : i.code ≠ "SMIL_ANIMATION" → j = i

theorem SameFinding.refl (i : Issue) : SameFinding i i := ⟨rfl, rfl, fun _ => rfl⟩

/-- The findings of some kind among some issues are found among others. -/
def Carries (p : Issue → Prop) (xs ys : List Issue) : Prop :=
  ∀ i ∈ xs, p i → ∃ j ∈ ys, SameFinding i j

section Carrying

variable {p : Issue → Prop} {xs xs' ys ys' : List Issue} {condition condition' : Bool}
  {issue : Issue}

theorem Carries.append (h : Carries p xs ys) (h' : Carries p xs' ys')
    : Carries p (xs ++ xs') (ys ++ ys') := by
  intro i hi hp
  rcases List.mem_append.mp hi with hi | hi
  · obtain ⟨j, hj, hsame⟩ := h i hi hp
    exact ⟨j, List.mem_append_left _ hj, hsame⟩
  · obtain ⟨j, hj, hsame⟩ := h' i hi hp
    exact ⟨j, List.mem_append_right _ hj, hsame⟩

theorem Carries.of_subset (h : xs ⊆ ys) : Carries p xs ys :=
  fun i hi _ => ⟨i, h hi, .refl i⟩

theorem Carries.of_forall_not (h : ∀ i ∈ xs, ¬ p i) : Carries p xs ys :=
  fun i hi hp => absurd hp (h i hi)

theorem Carries.when (h : condition → condition')
    : Carries p (Issue.when condition issue) (Issue.when condition' issue) := by
  refine .of_subset ?_
  cases condition with
  | false => exact List.nil_subset _
  | true =>
      rw [h rfl]
      exact List.Subset.refl _

theorem forall_mem_when {q : Issue → Prop} (h : q issue) : ∀ i ∈ Issue.when condition issue, q i := by
  cases condition with
  | false => simp [Issue.when]
  | true => simpa [Issue.when] using h

end Carrying

/-- An error, or a finding on what a document has. -/
def Lasts (i : Issue) : Prop := i.code ∈ presenceCodes ∨ i.severity = .error

/-- A finding on what a document lacks. -/
def Fades (i : Issue) : Prop := i.code ∈ absenceCodes

instance : DecidablePred Lasts := fun i =>
  inferInstanceAs (Decidable (i.code ∈ presenceCodes ∨ i.severity = .error))

instance : DecidablePred Fades := fun i => inferInstanceAs (Decidable (i.code ∈ absenceCodes))

/-- No finding is both on what a document has and on what it lacks. -/
theorem not_mem_absenceCodes {code : Text} (h : code ∈ presenceCodes) : code ∉ absenceCodes := by
  revert code
  decide +kernel

theorem Fades.not_lasts {i : Issue} (hcode : Fades i) (hseverity : i.severity ≠ .error)
    : ¬ Lasts i := by
  rintro (hpresent | herror)
  · exact not_mem_absenceCodes hpresent hcode
  · exact hseverity herror

/-- The code of a missing view box is neither kind. -/
theorem missingViewBox_not_mem
    : ("MISSING_VIEWBOX" : Text) ∉ presenceCodes ∧ ("MISSING_VIEWBOX" : Text) ∉ absenceCodes := by
  decide +kernel

section Checks

variable (s more : Text)

theorem not_lasts_of_mem_accessibility : ∀ i ∈ accessibility s, ¬ Lasts i := by
  simp only [accessibility, List.forall_mem_append]
  refine ⟨⟨⟨?_, ?_⟩, ?_⟩, ?_⟩ <;>
    exact forall_mem_when (Fades.not_lasts (by simp [Fades, absenceCodes]) nofun)

theorem not_fades_of_mem_bestPractices : ∀ i ∈ bestPractices s, ¬ Fades i := by
  simp only [bestPractices, List.forall_mem_append]
  refine ⟨⟨⟨⟨⟨⟨?_, ?_⟩, ?_⟩, ?_⟩, ?_⟩, forall_mem_when missingViewBox_not_mem.2⟩, ?_⟩ <;>
    exact forall_mem_when (not_mem_absenceCodes (by simp [presenceCodes]))

theorem not_fades_of_mem_deprecations : ∀ i ∈ deprecations s, ¬ Fades i := by
  intro i hi
  obtain ⟨entry, -, rfl⟩ := List.mem_map.mp hi
  exact not_mem_absenceCodes (by simp [deprecatedIssue, presenceCodes])

theorem not_fades_of_mem_compatibility : ∀ i ∈ compatibility s, ¬ Fades i := by
  simp only [compatibility, List.forall_mem_append]
  refine ⟨⟨forall_mem_when ?_, fun i hi => ?_⟩, forall_mem_when ?_⟩
  · exact not_mem_absenceCodes (by simp [presenceCodes])
  · obtain ⟨name, -, rfl⟩ := List.mem_map.mp hi
    exact not_mem_absenceCodes (by simp [presenceCodes])
  · exact not_mem_absenceCodes (by simp [presenceCodes])

/-- A missing name is reported where neither a title nor a label is found. -/
theorem carries_accessibility : Carries Fades (accessibility (s ++ more)) (accessibility s) := by
  have htitle : !hasTag "<title" (s ++ more) → !hasTag "<title" s := (persists_hasTag _).not
  refine .append (.append (.append ?_ ?_) ?_) ?_
  · exact .when htitle
  · exact .when (persists_hasTag _).not
  · exact .when (persists_hasRootAttribute _).not
  · refine .when fun h => ?_
    rw [Bool.and_eq_true] at h ⊢
    exact h.imp htitle (persists_hasRootAttribute _).not

/-- Only the lack of a size is not carried over. -/
theorem carries_bestPractices : Carries Lasts (bestPractices s) (bestPractices (s ++ more)) := by
  refine .append (.append (.append (.append (.append (.append ?_ ?_) ?_) ?_) ?_) ?_) ?_
  · exact .when (persists_styleHere.anyEnd s more)
  · exact .when (persists_mentions _ s more)
  · exact .when (persists_hasTag _ s more)
  · exact .when (persists_handlerHere.anyWordStart false s more)
  · exact .when (persists_externalHere.anyEnd s more)
  · refine .of_forall_not (forall_mem_when ?_)
    rintro (hpresent | ⟨⟨⟩⟩)
    exact missingViewBox_not_mem.1 hpresent
  · exact .when (persists_colorHere.anyEnd s more)

theorem carries_deprecations : Carries Lasts (deprecations s) (deprecations (s ++ more)) := by
  refine .of_subset (List.map_subset _ fun entry hentry => ?_)
  obtain ⟨hmem, hmentions⟩ := List.mem_filter.mp hentry
  exact List.mem_filter.mpr ⟨hmem, persists_mentions _ s more hmentions⟩

/-- Another animation may be the first one that is found, but there is one. -/
theorem carries_compatibility : Carries Lasts (compatibility s) (compatibility (s ++ more)) := by
  refine .append (.append ?_ ?_) ?_
  · exact .when (persists_hasTag _ s more)
  · intro i hi _
    obtain ⟨name, hname, rfl⟩ := List.mem_map.mp hi
    have hfound : (animationElements.find? (mentions · (s ++ more))).isSome := by
      have hsome := Option.isSome_of_mem (Option.mem_toList.mp hname)
      rw [List.find?_isSome] at hsome ⊢
      obtain ⟨element, helement, hmentions⟩ := hsome
      exact ⟨element, helement, persists_mentions _ s more hmentions⟩
    obtain ⟨other, hother⟩ := Option.isSome_iff_exists.mp hfound
    rw [hother]
    exact ⟨_, List.mem_map_of_mem (List.mem_singleton_self other), rfl, rfl,
      fun hne => absurd rfl hne⟩
  · exact .when (persists_hasTag _ s more)

end Checks

-----------------------------------------------------------------------------------------
-- Reports
-----------------------------------------------------------------------------------------

section Reports

variable {s : Text}

theorem issues_of_looksLikeSvg (h : looksLikeSvg s)
    : issues s = accessibility s ++ bestPractices s ++ deprecations s ++ compatibility s := by
  have hne : s.isEmpty = false := by
    cases s with
    | nil => revert h; decide +kernel
    | cons => rfl
  rw [issues, hne, h]
  rfl

theorem looksLikeSvg_iff : looksLikeSvg s ↔ ("<svg" : Text) <:+: s ∨ ("<?xml" : Text) <:+: s := by
  rw [looksLikeSvg, Bool.or_eq_true, Text.hasLiteral_iff, Text.hasLiteral_iff]

theorem persists_looksLikeSvg : Persists looksLikeSvg := by
  intro s more h
  rw [looksLikeSvg, Bool.or_eq_true] at h ⊢
  exact h.imp (persists_hasLiteral _ s more) (persists_hasLiteral _ s more)

theorem looksLikeSvg_trim (s : Text) : looksLikeSvg (Text.trim s) = looksLikeSvg s := by
  have htrim {literal : Text} (h : !literal.isEmpty && literal.all (!Text.isBlank ·))
      : Text.hasLiteral literal (Text.trim s) = Text.hasLiteral literal s := by
    obtain ⟨hne, hvisible⟩ := Bool.and_eq_true_iff.mp h
    exact Bool.eq_iff_iff.mpr (Text.hasLiteral_trim (by simpa using hne)
      (fun c hc => by simpa using List.all_eq_true.mp hvisible c hc) s)
  rw [looksLikeSvg, looksLikeSvg, htrim (by decide +kernel), htrim (by decide +kernel)]

theorem carries_issues (h : looksLikeSvg s) (more : Text)
    : Carries Lasts (issues s) (issues (s ++ more)) := by
  rw [issues_of_looksLikeSvg h, issues_of_looksLikeSvg (persists_looksLikeSvg s more h)]
  exact .append (.append (.append (.of_forall_not (not_lasts_of_mem_accessibility s))
    (carries_bestPractices s more)) (carries_deprecations s more)) (carries_compatibility s more)

theorem carries_issues_append (h : looksLikeSvg s) (more : Text)
    : Carries Fades (issues (s ++ more)) (issues s) := by
  rw [issues_of_looksLikeSvg h, issues_of_looksLikeSvg (persists_looksLikeSvg s more h)]
  exact .append (.append (.append (carries_accessibility s more)
    (.of_forall_not (not_fades_of_mem_bestPractices _)))
    (.of_forall_not (not_fades_of_mem_deprecations _)))
    (.of_forall_not (not_fades_of_mem_compatibility _))

theorem valid_iff {r : Report} : r.valid ↔ ∀ i ∈ r.issues, i.severity ≠ .error := by
  simp [Report.valid, Report.count, List.countP_eq_zero]

end Reports

/-- Whatever is appended to a text in which a root or a prolog begins: each finding on what it has is
reported of the longer text as well, as the same issue or, for animations, as one of the same code;
each finding on what the longer text lacks is an issue of the text; and the text is valid if the
longer one is.
-/
theorem check_append {content : Text}
    (h : ("<svg" : Text) <:+: content ∨ ("<?xml" : Text) <:+: content) (more : Text)
    : (∀ i ∈ (check content).issues, i.code ∈ presenceCodes
        → ∃ j ∈ (check (content ++ more)).issues, SameFinding i j)
      ∧ (∀ i ∈ (check (content ++ more)).issues, i.code ∈ absenceCodes
        → i ∈ (check content).issues)
      ∧ ((check (content ++ more)).valid → (check content).valid) := by
  have hanimation : ("SMIL_ANIMATION" : Text) ∉ absenceCodes :=
    not_mem_absenceCodes (by simp [presenceCodes])
  obtain ⟨behind, hbehind⟩ := Text.trim_prefix_trim_append content more
  have htrim : looksLikeSvg (Text.trim content) := by rwa [looksLikeSvg_trim, looksLikeSvg_iff]
  have hlasts := carries_issues htrim behind
  have hfades := carries_issues_append htrim behind
  rw [hbehind] at hlasts hfades
  refine ⟨fun i hi hcode => hlasts i hi (.inl hcode), fun i hi hcode => ?_, fun hvalid => ?_⟩
  · obtain ⟨j, hj, hsame⟩ := hfades i hi hcode
    rwa [hsame.eq fun heq => hanimation (heq ▸ hcode)] at hj
  · rw [valid_iff] at hvalid ⊢
    intro i hi herror
    obtain ⟨j, hj, hsame⟩ := hlasts i hi (.inr herror)
    exact hvalid j hj (hsame.severity.trans herror)

/-- A root that is not closed yet, with a blank at the end that is trimmed as long as nothing follows:
the text behind it closes the root, gives it a title and puts another animation in.
-/
theorem check_append_openRoot
    : let content : Text := "<svg onload='f()'><altGlyph/><set "
      let more : Text := "id='a'/><animate/><title>a</title></svg>"
      (("<svg" : Text) <:+: content ∨ ("<?xml" : Text) <:+: content)
      ∧ (∀ i ∈ (check content).issues, i.code ∈ presenceCodes
        → ∃ j ∈ (check (content ++ more)).issues, SameFinding i j)
      ∧ (∀ i ∈ (check (content ++ more)).issues, i.code ∈ absenceCodes
        → i ∈ (check content).issues)
      ∧ ((check (content ++ more)).valid → (check content).valid) :=
  ⟨.inl (by decide +kernel), check_append (.inl (by decide +kernel)) _⟩

end SvgKit.Lint
