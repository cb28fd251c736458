import SvgKit.Proofs.Sanitize.Settled

/-! What the warnings about a text say of its removals. Warnings and removals read a text by rules of
their own: they agree on event handlers, but not on where the name of an element ends, nor on letters
beyond ASCII in the scheme of a URL.
-/

namespace SvgKit

-----------------------------------------------------------------------------------------
-- Searching
-----------------------------------------------------------------------------------------

namespace Text

/-- The small letters found first stay in front, by induction over the rest of the text. -/
theorem lower_go_eq (done before s : Text) : lower.go done before s = done.reverse ++ lower.go [] before s := by
  induction s generalizing done before with
  | nil => simp [lower.go]
  | cons c s ih =>
      rw [lower.go, lower.go, ih, ih ((lowerChar before c s).reverse ++ [])]
      simp

/-- A text of ASCII letters becomes small letter by letter, whatever stands around it. -/
theorem exists_lower_append (front rest : Text) {word : Text} (hword : ∀ c ∈ word, c.val < 128)
    : ∃ front' rest', lower (front ++ (word ++ rest)) = front' ++ (word.map Char.toLower ++ rest') := by
  suffices hgo : ∀ before, ∃ front' rest',
      lower.go [] before (front ++ (word ++ rest)) = front' ++ (word.map Char.toLower ++ rest') from
    hgo []
  induction front with
  | nil =>
      intro before
      suffices hgo : ∀ before, ∃ rest',
          lower.go [] before (word ++ rest) = word.map Char.toLower ++ rest' by
        obtain ⟨rest', h⟩ := hgo before
        exact ⟨[], rest', h⟩
      induction word with
      | nil => exact fun before => ⟨_, rfl⟩
      | cons c word ih =>
          intro before
          obtain ⟨hc, hword⟩ := List.forall_mem_cons.mp hword
          obtain ⟨rest', h⟩ := ih hword (c :: before)
          refine ⟨rest', ?_⟩
          rw [List.cons_append, lower.go, lower_go_eq, h, lowerChar, if_pos hc]
          rfl
  | cons c front ih =>
      intro before
      obtain ⟨front', rest', h⟩ := ih (c :: before)
      refine ⟨lowerChar before c (front ++ (word ++ rest)) ++ front', rest', ?_⟩
      rw [List.cons_append, lower.go, lower_go_eq, h]
      simp

end Text

namespace Sanitize

-----------------------------------------------------------------------------------------
-- Removing nothing
-----------------------------------------------------------------------------------------

/-- Steps of which each changes nothing change nothing together, by induction over the steps. -/
theorem foldl_eq_of_forall {α : Type} {step : Outcome → α → Outcome} {items : List α} {o : Outcome}
    (h : ∀ a ∈ items, step o a = o)
    : items.foldl step o = o := by
  induction items with
  | nil => rfl
  | cons a items ih =>
      obtain ⟨hfirst, hrest⟩ := List.forall_mem_cons.mp h
      rw [List.foldl_cons, hfirst, ih hrest]

theorem handlerNames_eq_nil_iff {scanner : Scanner Text} {s : Text}
    : handlerNames scanner s = [] ↔ scanner.finds s = false := by
  constructor
  · refine fun h => Scanner.finds_eq_false_of_findAll (List.eq_nil_iff_forall_not_mem.mpr ?_)
    intro name hname
    have := mem_unique (List.mem_map_of_mem (f := Text.lower) hname)
    rw [← handlerNames, h] at this
    cases this
  · intro h
    rw [handlerNames, Scanner.findAll_eq_nil_of_finds h]
    rfl

/-- A text in which the scanners find nothing stays as it is, and nothing is told about it. -/
theorem sanitize_of_isSettled {s : Text} (h : IsSettled s) : sanitize {} s = ⟨s, []⟩ := by
  have helements : removeElements {} ⟨s, []⟩ = ⟨s, []⟩ := by
    refine foldl_eq_of_forall fun name hname => ?_
    obtain ⟨hempty, hpaired⟩ := h.elements name (List.mem_of_mem_filter hname)
    simp [removeElement, hempty, hpaired]
  have hhandlers : removeHandlers ⟨s, []⟩ = ⟨s, []⟩ := by
    simp [removeHandlers, handlerNames_eq_nil_iff.mpr h.handlers]
  have hurls : dangerousSchemes.foldl removeUrls ⟨s, []⟩ = ⟨s, []⟩ :=
    foldl_eq_of_forall fun scheme hscheme => by simp [removeUrls, h.urls scheme hscheme]
  unfold sanitize
  dsimp only
  rw [helements, if_pos rfl, hhandlers, if_pos rfl, hurls]

/-- Nothing is removed from a text exactly if the scanners find nothing in it. -/
theorem sanitize_eq_iff {s : Text} : sanitize {} s = ⟨s, []⟩ ↔ IsSettled s :=
  ⟨fun h => isSettled_of_issues (by rw [h]), sanitize_of_isSettled⟩

-----------------------------------------------------------------------------------------
-- Hidden content
-----------------------------------------------------------------------------------------

/-- An element of the name that is removed begins at the head of the text. -/
def isRemoved (name s : Text) : Bool := (readEmpty? name s).isSome || (readPaired? name s).isSome

/-- The name behind `<` at the head of the text ends as a word does, but in front of a character
that no warning looks for.
-/
def endsLoosely (name s : Text) : Bool :=
  match readOpening? name s with
  | some (c :: _) => !Text.isWord c && !(Text.isBlank c || c == '/' || c == '>')
  | _ => false

/-- What follows the first quote of the URL attribute at the head of a text, blanks aside. -/
def urlValue? (s : Text) : Option Text :=
  match dropAnyFolded? urlAttributes (s.dropWhile Text.isBlank) with
  | none => none
  | some rest =>
    match Markup.readEquals? rest with
    | some (_, _ :: value) => some (value.dropWhile Text.isBlank)
    | _ => none

/-- As many characters as the scheme has are not all in ASCII in the URL attribute at the head of
the text.
-/
def spellsWidely (scheme s : Text) : Bool :=
  (urlValue? s).any fun value => (value.take scheme.length).any fun c => 128 ≤ c.val

/-- An element is removed whose name ends where no warning looks for its end. -/
def hidesElement (s : Text) : Bool :=
  dangerousElements.any fun name => Text.anyEnd (fun t => endsLoosely name t && isRemoved name t) s

/-- A URL is removed whose scheme is spelled with letters beyond ASCII. -/
def hidesUrl (s : Text) : Bool :=
  dangerousSchemes.any fun scheme =>
    Text.anyEnd (fun t => spellsWidely scheme t && (readUrl? scheme t).isSome) s

-----------------------------------------------------------------------------------------
-- What warnings see
-----------------------------------------------------------------------------------------

/-- What the warnings about a text leave out when there are none. -/
theorem of_warnings_eq_nil {s : Text} (h : warnings s = [])
    : (∀ name ∈ dangerousElements, ∀ t, t <:+ s → opensElement name t = false)
      ∧ handlerNameScanner.finds s = false
      ∧ ∀ scheme ∈ dangerousSchemes, Text.hasLiteral scheme (Text.lower s) = false := by
  rw [warnings, List.append_eq_nil_iff, List.append_eq_nil_iff, List.map_eq_nil_iff,
    List.map_eq_nil_iff, List.map_eq_nil_iff, handlerNames_eq_nil_iff] at h
  obtain ⟨⟨helements, hhandlers⟩, hschemes⟩ := h
  refine ⟨fun name hname => ?_, hhandlers, fun scheme hscheme => ?_⟩
  · have hnone := List.filter_eq_nil_iff.mp helements name hname
    exact (Text.anyEnd_eq_false_iff rfl).mp (by simpa using hnone)
  · simpa using List.filter_eq_nil_iff.mp hschemes scheme hscheme

/-- A removed element begins with a tag, behind whose name no word goes on. -/
theorem opensElement_or_endsLoosely {name s : Text} (h : isRemoved name s)
    : opensElement name s ∨ endsLoosely name s := by
  have htag : (readElementTag? name s).isSome := by
    rw [isRemoved, Bool.or_eq_true, readEmpty?, readPaired?] at h
    cases hread : readElementTag? name s with
    | none => simp [hread] at h
    | some found => rfl
  unfold readElementTag? at htag
  split at htag
  · cases htag
  · next rest hopening =>
      split at htag
      · next hend =>
          cases rest with
          | nil => simp [Text.splitAtLiteral?, Text.splitAtLiteral?.go, Text.dropLiteral?] at htag
          | cons c rest =>
              rw [Text.atWordEnd] at hend
              simp only [opensElement, endsLoosely, hopening, hend, Bool.true_and]
              exact Bool.or_eq_true_iff.mp (Bool.or_not_self _)
      · cases htag

/-- A handler that is removed is one that a warning names. -/
theorem isSome_readHandlerName? {s : Text} (h : (readHandler? s).isSome)
    : (readHandlerName? s).isSome := by
  unfold readHandler? at h
  split at h
  · cases h
  · next hname => rw [hname]; rfl

/-- Behind the quote of a removed URL attribute stands its scheme, blanks aside. -/
theorem exists_of_isSome_readUrl? {scheme s : Text} (h : (readUrl? scheme s).isSome)
    : ∃ value rest, urlValue? s = some value ∧ Text.dropFolded? scheme value = some rest
      ∧ value <:+ s := by
  unfold readUrl? at h
  split at h
  · cases h
  · next afterName hname =>
      split at h
      · cases h
      · next equals afterEquals hequals =>
          rw [Option.isSome_map] at h
          unfold afterSchemeValue? at h
          split at h
          · cases h
          · next quote value =>
              split at h
              · split at h
                · next rest hdropped =>
                    have hsuffix : quote :: value <:+ s :=
                      List.IsSuffix.trans ⟨equals, (Markup.eq_of_readEquals? hequals).symm⟩
                        ((dropAnyFolded?_suffix hname).trans (List.dropWhile_suffix _))
                    refine ⟨_, rest, ?_, hdropped,
                      (List.dropWhile_suffix _).trans ((List.suffix_cons _ _).trans hsuffix)⟩
                    simp only [urlValue?, hname, hequals]
                · cases h
              · cases h

/-- A scheme in ASCII letters is found in the small form of a text. -/
theorem hasLiteral_lower {scheme s value rest : Text}
    (hsuffix : value <:+ s) (hdropped : Text.dropFolded? scheme value = some rest)
    (hascii : ∀ c ∈ value.take scheme.length, c.val < 128)
    : Text.hasLiteral scheme (Text.lower s) := by
  obtain ⟨front, rfl⟩ := hsuffix
  obtain ⟨hvalue, hfold⟩ := Text.exists_of_dropFolded? hdropped
  obtain ⟨front', rest', hlower⟩ := Text.exists_lower_append front rest hascii
  have hsmall : (value.take scheme.length).map Char.toLower = scheme := by
    conv_rhs => rw [← hfold]
    exact List.map_congr_left fun c hc => by rw [Text.foldChar, if_pos (hascii c hc)]
  rw [← hvalue, hsmall] at hlower
  rw [hlower]
  exact Text.hasLiteral_append front' scheme rest'

theorem hidesElement_eq_false_iff {s : Text}
    : hidesElement s = false ↔ ∀ name ∈ dangerousElements, ∀ t, t <:+ s → endsLoosely name t →
      isRemoved name t = false := by
  rw [hidesElement, List.any_eq_false]
  refine forall₂_congr fun name _ => ?_
  rw [Bool.not_eq_true, Text.anyEnd_eq_false_iff rfl]
  simp only [Bool.and_eq_false_imp]

theorem hidesUrl_eq_false_iff {s : Text}
    : hidesUrl s = false ↔ ∀ scheme ∈ dangerousSchemes, ∀ t, t <:+ s → spellsWidely scheme t →
      (readUrl? scheme t).isSome = false := by
  rw [hidesUrl, List.any_eq_false]
  refine forall₂_congr fun scheme _ => ?_
  have hnil : readUrl? scheme [] = none := (urlScanner scheme).read_nil
  rw [Bool.not_eq_true, Text.anyEnd_eq_false_iff (by simp [hnil])]
  simp only [Bool.and_eq_false_imp]

/-- If there is no warning about a text, then removing what is dangerous leaves it as it is, with
nothing to tell, exactly if the text hides nothing from the warnings: no element whose name ends in
front of a character such as a hyphen, and no scheme that is spelled with a letter beyond ASCII.
-/
theorem sanitize_eq_iff_of_warnings {s : Text} (h : warnings s = [])
    : sanitize {} s = ⟨s, []⟩ ↔ hidesElement s = false ∧ hidesUrl s = false := by
  obtain ⟨helements, hhandlers, hschemes⟩ := of_warnings_eq_nil h
  rw [sanitize_eq_iff, hidesElement_eq_false_iff, hidesUrl_eq_false_iff]
  constructor
  · refine fun hs => ⟨fun name hname t ht _ => ?_, fun scheme hscheme t ht _ => ?_⟩
    · obtain ⟨hempty, hpaired⟩ := hs.elements name hname
      have hempty : readEmpty? name t = none := Scanner.read_of_finds_eq_false hempty ht
      have hpaired : readPaired? name t = none := Scanner.read_of_finds_eq_false hpaired ht
      simp [isRemoved, hempty, hpaired]
    · have hnone : readUrl? scheme t = none :=
        Scanner.read_of_finds_eq_false (hs.urls scheme hscheme) ht
      rw [hnone]
      rfl
  · rintro ⟨hends, hspells⟩
    have hremoved : ∀ name ∈ dangerousElements, ∀ t, t <:+ s → isRemoved name t = false := by
      intro name hname t ht
      by_contra hremoved
      rw [Bool.not_eq_false] at hremoved
      rcases opensElement_or_endsLoosely hremoved with hopens | hloosely
      · rw [helements name hname t ht] at hopens
        cases hopens
      · rw [hends name hname t ht hloosely] at hremoved
        cases hremoved
    refine ⟨fun name hname => ?_, ?_, fun scheme hscheme => ?_⟩
    · have hnone (t : Text) (ht : t <:+ s) : readEmpty? name t = none ∧ readPaired? name t = none := by
        simpa [isRemoved] using hremoved name hname t ht
      exact ⟨Scanner.finds_eq_false_of_read fun t ht => (hnone t ht).1,
        Scanner.finds_eq_false_of_read fun t ht => (hnone t ht).2⟩
    · refine Scanner.finds_eq_false_of_read fun t ht => ?_
      by_contra hread
      have hname := isSome_readHandlerName? (Option.isSome_iff_ne_none.mpr hread)
      have hnone : readHandlerName? t = none := Scanner.read_of_finds_eq_false hhandlers ht
      rw [hnone] at hname
      cases hname
    · refine Scanner.finds_eq_false_of_read fun t ht => ?_
      by_contra hread
      have hread : (readUrl? scheme t).isSome := Option.isSome_iff_ne_none.mpr hread
      obtain ⟨value, rest, hvalue, hdropped, hsuffix⟩ := exists_of_isSome_readUrl? hread
      by_cases hwide : spellsWidely scheme t
      · rw [hspells scheme hscheme t ht hwide] at hread
        cases hread
      · have hascii : ∀ c ∈ value.take scheme.length, c.val < 128 := by
          simpa [spellsWidely, hvalue] using hwide
        have hfound := hasLiteral_lower (hsuffix.trans ht) hdropped hascii
        rw [hschemes scheme hscheme] at hfound
        cases hfound

/-- A drawing in whose names and values something dangerous only seems to begin. -/
def sampleSpelling : Text :=
  "<svg><link-x></link-x><linkage/><a href=\" #java\" on.x=\"1\">java\u017Fcript:</a></svg>"

/-- The sample is left as it is. -/
theorem sanitize_eq_iff_of_warnings_sampleSpelling
    : warnings sampleSpelling = [] ∧ hidesElement sampleSpelling = false
      ∧ hidesUrl sampleSpelling = false ∧ sanitize {} sampleSpelling = ⟨sampleSpelling, []⟩ := by
  have hwarnings : warnings sampleSpelling = [] := by decide +kernel
  have helement : hidesElement sampleSpelling = false := by decide +kernel
  have hurl : hidesUrl sampleSpelling = false := by decide +kernel
  exact ⟨hwarnings, helement, hurl, (sanitize_eq_iff_of_warnings hwarnings).mpr ⟨helement, hurl⟩⟩

/-- Drawings that hide an element or a URL from the warnings. -/
def unseenDrawings : List Text :=
  ["<svg><link-x/></svg>", "<svg><object.a></object></svg>",
    "<svg><a href=\"java\u017Fcript:x\"/></svg>"]

/-- There is no warning about them, but something is removed from them. -/
theorem sanitize_ne_of_warnings_unseenDrawings
    : List.Forall (fun s => warnings s = [] ∧ sanitize {} s ≠ ⟨s, []⟩) unseenDrawings := by
  have hall : unseenDrawings.all fun s =>
      (warnings s).isEmpty && decide (sanitize {} s ≠ ⟨s, []⟩) := by
    decide +kernel
  rw [List.forall_iff_forall_mem]
  intro s hs
  have hs := List.all_eq_true.mp hall s hs
  simpa only [Bool.and_eq_true, List.isEmpty_iff, decide_eq_true_eq] using hs

end Sanitize

end SvgKit
