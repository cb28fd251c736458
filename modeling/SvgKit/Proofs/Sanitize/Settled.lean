import SvgKit.Proofs.Text.Scanning
import SvgKit.Proofs.Text.Searching
import SvgKit.Proofs.Xml.Layout
import SvgKit.Sanitize.Basic

/-! A text from which nothing is removed. The scanners look at text, a reader of XML at tags: what
they do not find is not in the tags either, as far as both read the same.
-/

namespace SvgKit

namespace Sanitize

/-- A text in which the scanners find nothing that is removed. -/
structure IsSettled (s : Text) : Prop where
  elements : ∀ name ∈ dangerousElements,
    (emptyScanner name).finds s = false ∧ (pairedScanner name).finds s = false
  handlers : handlerScanner.finds s = false
  urls : ∀ scheme ∈ dangerousSchemes, (urlScanner scheme).finds s = false

/-- Steps that tell what they remove remove nothing when they tell nothing, by induction over the
steps.
-/
theorem eq_of_foldl_issues {α : Type} (absent : α → Text → Prop) {step : Outcome → α → Outcome}
    (hstep : ∀ o a, (step o a).issues = [] → step o a = o ∧ absent a o.text) {items : List α}
    {o : Outcome} (h : (items.foldl step o).issues = [])
    : items.foldl step o = o ∧ ∀ a ∈ items, absent a o.text := by
  induction items generalizing o with
  | nil => exact ⟨rfl, by simp⟩
  | cons a items ih =>
      rw [List.foldl_cons] at h ⊢
      obtain ⟨hrest, habsent⟩ := ih h
      rw [hrest] at h
      obtain ⟨hsame, hfirst⟩ := hstep o a h
      rw [hsame] at hrest habsent ⊢
      exact ⟨hrest, List.forall_mem_cons.mpr ⟨hfirst, habsent⟩⟩

theorem removeElement_eq_of_issues {o : Outcome} {name : Text}
    (h : (removeElement o name).issues = [])
    : removeElement o name = o
      ∧ (emptyScanner name).finds o.text = false ∧ (pairedScanner name).finds o.text = false := by
  unfold removeElement at h ⊢
  split at h
  · simp at h
  · next hnone =>
      rw [Bool.or_eq_true, not_or, Bool.not_eq_true, Bool.not_eq_true] at hnone
      simp [hnone.1, hnone.2]

/-- No item is lost. -/
theorem mem_unique {items : List Text} {item : Text} (h : item ∈ items) : item ∈ unique items := by
  suffices ∀ seen : List Text, item ∈ seen ∨ item ∈ items → item ∈ items.foldl
      (fun seen item => if seen.contains item then seen else item :: seen) seen from
    List.mem_reverse.mpr (this [] (.inr h))
  clear h
  induction items with
  | nil => simp
  | cons first items ih =>
      intro seen h
      rw [List.foldl_cons]
      refine ih _ ?_
      rw [List.mem_cons] at h
      by_cases hfirst : seen.contains first
      · rw [if_pos hfirst]
        rcases h with h | rfl | h
        · exact .inl h
        · exact .inl (List.contains_iff_mem.mp hfirst)
        · exact .inr h
      · rw [if_neg hfirst, List.mem_cons]
        tauto

/-- Where no handler has a name, none is found. -/
theorem finds_of_handlerNames {scanner : Scanner Text} {s : Text} (h : handlerNames scanner s = [])
    : scanner.finds s = false := by
  refine Scanner.finds_eq_false_of_findAll (List.eq_nil_iff_forall_not_mem.mpr fun name hname => ?_)
  have hmem := mem_unique (List.mem_map_of_mem (f := Text.lower) hname)
  rw [← handlerNames, h] at hmem
  cases hmem

theorem removeHandlers_eq_of_issues {o : Outcome} (h : (removeHandlers o).issues = [])
    : removeHandlers o = o ∧ handlerScanner.finds o.text = false := by
  unfold removeHandlers at h ⊢
  dsimp only at h ⊢
  split at h
  · next hnone =>
      rw [if_pos hnone]
      exact ⟨rfl, finds_of_handlerNames (List.isEmpty_iff.mp hnone)⟩
  · next hsome => simp [List.isEmpty_iff] at h hsome; exact absurd h.2 hsome

theorem removeUrls_eq_of_issues {o : Outcome} {scheme : Text}
    (h : (removeUrls o scheme).issues = [])
    : removeUrls o scheme = o ∧ (urlScanner scheme).finds o.text = false := by
  unfold removeUrls at h ⊢
  split at h
  · simp at h
  · next hnone => simp [hnone]

/-- Nothing is told about a text in which there is nothing to remove, and it stays as it is. -/
theorem isSettled_of_issues {s : Text} (h : (sanitize {} s).issues = []) : IsSettled s := by
  have hnames : dangerousElements.filter (Policy.removes {}) = dangerousElements := by
    with_unfolding_all decide
  unfold sanitize removeElements at h
  dsimp only at h
  simp only [↓reduceIte] at h
  rw [hnames] at h
  obtain ⟨hsame, hurls⟩ := eq_of_foldl_issues
    (fun scheme s => (urlScanner scheme).finds s = false) (fun _ _ => removeUrls_eq_of_issues) h
  rw [hsame] at h
  obtain ⟨hsame', hhandlers⟩ := removeHandlers_eq_of_issues h
  rw [hsame'] at h hurls
  obtain ⟨hsame'', helements⟩ := eq_of_foldl_issues
    (fun name s => (emptyScanner name).finds s = false ∧ (pairedScanner name).finds s = false)
    (fun _ _ => removeElement_eq_of_issues) h
  rw [hsame''] at hhandlers hurls
  exact ⟨helements, hhandlers, hurls⟩

-----------------------------------------------------------------------------------------
-- Dangerous names and values
-----------------------------------------------------------------------------------------

/-- The name is that of a dangerous element, whatever the case of letters. -/
def isDangerousElement (name : Text) : Bool :=
  dangerousElements.any fun dangerous => folded dangerous = name.map Text.foldChar

/-- The name is `on` with a Latin letter behind it, whatever their case. -/
def isHandlerName (name : Text) : Bool :=
  match name with
  | o :: n :: c :: _ => Text.foldChar o == 'o' && Text.foldChar n == 'n' && Text.isFoldedLetter c
  | _ => false

/-- The names of attributes whose values are URLs, prefixes apart. -/
def linkNames : List Text := ["href", "src", "action", "formaction"]

/-- The value begins with a dangerous scheme, blanks in front and the case of letters apart. -/
def isDangerousUrl (value : Text) : Bool :=
  dangerousSchemes.any fun scheme => (Text.dropFolded? scheme (Text.dropBlank value)).isSome

-----------------------------------------------------------------------------------------
-- Heads of texts
-----------------------------------------------------------------------------------------

theorem isBlank_of_isSpace {c : Char} (h : Xml.isSpace c) : Text.isBlank c := by
  simp only [Xml.isSpace, Bool.or_eq_true, beq_iff_eq] at h
  rcases h with ((rfl | rfl) | rfl) | rfl <;> with_unfolding_all decide

-----------------------------------------------------------------------------------------
-- Elements
-----------------------------------------------------------------------------------------

section Elements

variable {t : Xml.TagTail} {given : List (Xml.Spelling × Xml.Value)} {isEmpty : Bool}
  (hfits : t.Fits given isEmpty)
include hfits

/-- Behind the name of a tag no word goes on. -/
theorem atWordEnd_of_fits (rest : Text) : Text.atWordEnd (t.body ++ (t.close ++ rest)) := by
  have hspace {c : Char} (hc : Xml.isSpace c) (s : Text) : Text.atWordEnd (c :: s) := by
    simp only [Xml.isSpace, Bool.or_eq_true, beq_iff_eq] at hc
    rcases hc with ((rfl | rfl) | rfl) | rfl <;> simp [Text.atWordEnd] <;> with_unfolding_all decide
  have hclose : Text.atWordEnd (t.close ++ rest) := by
    unfold Xml.TagTail.close
    split <;> simp [Text.atWordEnd] <;> with_unfolding_all decide
  cases hattributes : t.attributes with
  | nil =>
      rw [Xml.TagTail.body, hattributes, List.flatMap_nil, List.nil_append]
      cases hs : t.space with
      | nil => exact hclose
      | cons c space => exact hspace (hfits.space c (by simp [hs])) _
  | cons x attributes =>
      obtain ⟨space, a⟩ := x
      obtain ⟨⟨hne, hall⟩, -⟩ := hfits.attributes (space, a) (by simp [hattributes])
      obtain ⟨c, space, rfl⟩ := List.exists_cons_of_ne_nil hne
      rw [Xml.TagTail.body, hattributes, List.flatMap_cons]
      exact hspace (hall c List.mem_cons_self) _

/-- A tag of a dangerous element is read up to its first bracket. -/
theorem readElementTag?_of_fits {dangerous base : Text}
    (hbase : folded dangerous = base.map Text.foldChar) (rest : Text)
    : readElementTag? dangerous ('<' :: (base ++ (t.body ++ (t.close ++ rest))))
      = Text.splitAtLiteral? ['>'] (t.body ++ (t.close ++ rest)) := by
  rw [readElementTag?, readOpening?, Text.dropFolded?_append hbase]
  exact if_pos (atWordEnd_of_fits hfits rest)

/-- A tag that closes its element itself is found if no bracket stands in it. -/
theorem isSome_readEmpty?_of_fits {dangerous base : Text}
    (hbase : folded dangerous = base.map Text.foldChar) (hempty : isEmpty = true)
    (hbracket : '>' ∉ t.body) (rest : Text)
    : (readEmpty? dangerous ('<' :: (base ++ (t.body ++ (t.close ++ rest))))).isSome := by
  have hsplit : Text.splitAtLiteral? ['>'] (t.body ++ (t.close ++ rest))
      = some (t.body ++ ['/'], rest) := by
    have hclose : t.body ++ (t.close ++ rest) = (t.body ++ ['/']) ++ '>' :: rest := by
      simp [Xml.TagTail.close, hfits.isEmpty, hempty]
    rw [hclose, Text.splitAtLiteral?_cons (by simp [hbracket])]
  rw [readEmpty?, readElementTag?_of_fits hfits hbase, hsplit]
  simp

end Elements

/-- An end tag is found at any place of a text. -/
theorem isSome_afterClosing?_of_suffix {name s t : Text} (hsuffix : t <:+ s)
    (h : (readClosing? name t).isSome)
    : (afterClosing? name s).isSome := by
  induction s with
  | nil =>
      obtain rfl := List.suffix_nil.mp hsuffix
      simp [readClosing?] at h
  | cons c s ih =>
      unfold afterClosing?
      split
      · rfl
      · next hnone =>
          rcases List.suffix_cons_iff.mp hsuffix with rfl | hsuffix
          · simp [hnone] at h
          · exact ih hsuffix

theorem isSome_readClosing?_of_readFinish? {dangerous s left : Text} {name : Xml.Spelling}
    (hbase : folded dangerous = name.base.map Text.foldChar) (hlabel : name.space = none)
    (h : Xml.readFinish? s = some (.finish name, left))
    : (readClosing? dangerous ('<' :: '/' :: s)).isSome := by
  obtain ⟨name', space, heq, hspace, rfl⟩ := Xml.exists_of_readFinish? h
  cases heq
  have hblank : (space ++ '>' :: left).dropWhile Text.isBlank = '>' :: left := by
    refine dropWhile_append_stops (fun c hc => isBlank_of_isSpace (hspace c hc)) ?_
    rintro _ ⟨⟩
    decide
  rw [Xml.Spelling.text, hlabel]
  simp only [readClosing?, Text.dropFolded?_append hbase, hblank, Option.isSome_some]

/-- In a text from which nothing is removed stands no tag of a dangerous element, unless the name
has a prefix, or a bracket in a value hides that the tag closes its element itself.
-/
theorem IsSettled.not_isDangerousElement {s t rest : Text} (hs : IsSettled s) {name : Xml.Spelling}
    {given : List (Xml.Spelling × Xml.Value)} {isEmpty : Bool} (hsuffix : '<' :: t <:+ s)
    (hstart : Xml.readStart? t = some (.start name given isEmpty, rest))
    (hfinish : isEmpty = false → ∃ u left, '<' :: '/' :: u <:+ rest
      ∧ Xml.readFinish? u = some (.finish name, left))
    (hlabel : name.space = none)
    (hbracket : isEmpty → ∀ pair ∈ given, .char '>' ∉ pair.2)
    : isDangerousElement name.base = false := by
  by_contra hdangerous
  rw [Bool.not_eq_false, isDangerousElement, List.any_eq_true] at hdangerous
  obtain ⟨dangerous, hmem, hbase⟩ := hdangerous
  have hbase : folded dangerous = name.base.map Text.foldChar := by simpa using hbase
  obtain ⟨tail, hfits, hname, rfl⟩ := Xml.exists_tagTail hstart
  rw [Xml.Spelling.text, hlabel] at hsuffix
  dsimp only at hsuffix
  cases isEmpty with
  | true =>
      have hnot : '>' ∉ tail.body := by
        intro hmem
        obtain ⟨pair, hpair, hchar⟩ := hfits.mem_bracket hmem
        exact hbracket rfl pair hpair hchar
      have hfinds := Scanner.finds_of_suffix (p := emptyScanner dangerous) hsuffix
        (isSome_readEmpty?_of_fits hfits hbase rfl hnot rest)
      rw [(hs.elements dangerous hmem).1] at hfinds
      cases hfinds
  | false =>
      obtain ⟨u, left, hbehind, hread⟩ := hfinish rfl
      obtain ⟨before, more, hsplit, hmore⟩ := Text.exists_splitAtLiteral? (c := '>') tail.body rest
      have htag := readElementTag?_of_fits hfits hbase rest
      have hclose : tail.close = ['>'] := by simp [Xml.TagTail.close, hfits.isEmpty]
      rw [hclose] at htag
      have hpaired : (readPaired? dangerous
          ('<' :: (name.base ++ (tail.body ++ (['>'] ++ rest))))).isSome := by
        rw [readPaired?, htag, List.singleton_append, hsplit]
        simpa using isSome_afterClosing?_of_suffix (hbehind.trans hmore)
          (isSome_readClosing?_of_readFinish? hbase hlabel hread)
      rw [hclose] at hsuffix
      have hfinds := Scanner.finds_of_suffix (p := pairedScanner dangerous) hsuffix hpaired
      rw [(hs.elements dangerous hmem).2] at hfinds
      cases hfinds

-----------------------------------------------------------------------------------------
-- Attributes
-----------------------------------------------------------------------------------------

/-- The text of an attribute with a text behind it. -/
theorem text_append (a : Xml.Assignment) (rest : Text)
    : a.text ++ rest
      = a.name.text ++ (a.before ++ '=' :: (a.behind ++ a.quote :: (a.spelled
        ++ a.quote :: rest))) := by
  simp [Xml.Assignment.text]

section Attributes

variable {a : Xml.Assignment} (ha : a.Sound)
include ha

/-- The equals sign of an attribute is read with the blanks around it. -/
theorem exists_readEquals? (rest : Text)
    : ∃ equals, Markup.readEquals? (a.before ++ '=' :: (a.behind ++ a.quote :: rest))
      = some (equals, a.quote :: rest) := by
  have hequals : Stops Text.isBlank ('=' :: (a.behind ++ a.quote :: rest)) := by
    rintro _ ⟨⟩
    decide
  have hquote : Stops Text.isBlank (a.quote :: rest) := by
    rintro _ ⟨⟩
    rcases ha.quote with hq | hq <;> rw [hq] <;> decide
  have hbefore := dropWhile_append_stops (p := Text.isBlank)
    (fun c hc => isBlank_of_isSpace (ha.before c hc)) hequals
  have hbehind := dropWhile_append_stops (p := Text.isBlank)
    (fun c hc => isBlank_of_isSpace (ha.behind c hc)) hquote
  simp only [Markup.readEquals?, hbefore, hbehind]
  exact ⟨_, rfl⟩

/-- The value of an attribute is read up to its second quote. -/
theorem afterQuoted?_spelled (rest : Text)
    : afterQuoted? (a.quote :: (a.spelled ++ a.quote :: rest)) = some rest := by
  have hquote : a.quote = '"' ∨ a.quote = '\'' := ha.quote
  rw [afterQuoted?, if_pos (by simpa using hquote), Text.splitAtLiteral?_cons ha.closed]
  rfl

/-- A handler attribute is found behind a blank if its name consists of letters. -/
theorem isSome_readHandler?_of_sound {c : Char} (hc : Text.isBlank c)
    (hlabel : a.name.space = none) (hname : isHandlerName a.name.base)
    (hletters : a.name.base.all Text.isFoldedLetter) (rest : Text)
    : (readHandler? (c :: (a.text ++ rest))).isSome := by
  unfold isHandlerName at hname
  split at hname
  · next o n letter letters hbase =>
      simp only [Bool.and_eq_true, beq_iff_eq] at hname
      obtain ⟨⟨ho, hn⟩, -⟩ := hname
      rw [hbase] at hletters
      have hall : ∀ x ∈ letter :: letters, Text.isFoldedLetter x := by
        simp only [List.all_cons, Bool.and_eq_true, List.all_eq_true] at hletters
        exact List.forall_mem_cons.mpr hletters.2.2
      have hstops : Stops Text.isFoldedLetter (a.before ++ '=' :: (a.behind ++ a.quote :: (a.spelled
          ++ a.quote :: rest))) := by
        intro x hx
        cases hbefore : a.before with
        | nil =>
            rw [hbefore] at hx
            cases hx
            decide
        | cons y before =>
            rw [hbefore] at hx
            cases hx
            have hspace := ha.before x (by simp [hbefore])
            simp only [Xml.isSpace, Bool.or_eq_true, beq_iff_eq] at hspace
            rcases hspace with ((rfl | rfl) | rfl) | rfl <;> decide
      obtain ⟨equals, hequals⟩ := exists_readEquals? ha (a.spelled ++ a.quote :: rest)
      have hread : readHandlerName? (c :: (a.text ++ rest))
          = some (o :: n :: letter :: letters, a.quote :: (a.spelled ++ a.quote :: rest)) := by
        rw [text_append, Xml.Spelling.text, hlabel]
        dsimp only
        rw [hbase, List.cons_append, List.cons_append, readHandlerName?, if_pos (by simp [hc, ho, hn]),
          takeWhile_append_stops hall hstops]
        dsimp only
        rw [dropWhile_append_stops hall hstops, hequals]
        rfl
      rw [readHandler?, hread]
      dsimp only
      rw [afterQuoted?_spelled ha]
      rfl
  · cases hname

/-- In a text from which nothing is removed stands no handler attribute, unless its name has a
prefix or more in it than letters.
-/
theorem IsSettled.not_isHandlerName {s : Text} (hs : IsSettled s) {c : Char}
    (hc : Text.isBlank c) {rest : Text} (hsuffix : c :: (a.text ++ rest) <:+ s)
    (hlabel : a.name.space = none) (hletters : a.name.base.all Text.isFoldedLetter)
    : isHandlerName a.name.base = false := by
  by_contra hname
  rw [Bool.not_eq_false] at hname
  have hfinds := Scanner.finds_of_suffix (p := handlerScanner) hsuffix
    (isSome_readHandler?_of_sound ha hc hlabel hname hletters rest)
  rw [hs.handlers] at hfinds
  cases hfinds

end Attributes

-----------------------------------------------------------------------------------------
-- URLs
-----------------------------------------------------------------------------------------

/-- Without references to numbers, what a reference in a value stands for has a name. -/
theorem mem_of_readReference? {s rest : Text} {c : Char}
    (h : Xml.readReference? s = some (.char c, rest)) (hplain : ¬ ['&', '#'] <:+: '&' :: s)
    : c ∈ Xml.predefined.map (·.2) := by
  obtain ⟨body, rfl, -, hbody | ⟨x, hx, heq⟩ | ⟨name, heq⟩⟩ := Xml.exists_of_readReference? h
  · obtain ⟨body, rfl⟩ := List.head?_eq_some_iff.mp hbody
    exact absurd (List.IsPrefix.isInfix ⟨body ++ ';' :: rest, by simp⟩) hplain
  · cases heq
    exact hx
  · cases heq

/-- How a value without references to numbers begins: with a space that white space stands for,
with a character as it is, or with one that a reference by name stands for.
-/
theorem exists_of_spells_cons {spelled : Text} {c : Char} {value : Xml.Value}
    (h : Xml.Spells spelled (.char c :: value)) (hplain : ¬ ['&', '#'] <:+: spelled)
    : ∃ piece behind, spelled = piece ++ behind ∧ Xml.Spells behind value
      ∧ ((c = ' ' ∧ ∀ x ∈ piece, Text.isBlank x) ∨ piece = [c]
        ∨ (piece.head? = some '&' ∧ c ∈ Xml.predefined.map (·.2))) := by
  cases h with
  | lineEnd h => exact ⟨['\r', '\n'], _, rfl, h, .inl ⟨rfl, by simp; decide⟩⟩
  | @reference s rest r value hread h =>
      obtain ⟨body, hs, -⟩ := Xml.exists_of_readReference? hread
      refine ⟨'&' :: (body ++ [';']), rest, by simp [hs], h,
        .inr (.inr ⟨rfl, mem_of_readReference? hread hplain⟩)⟩
  | @char x s value h =>
      by_cases hx : Xml.isSpace x
      · rw [if_pos hx]
        exact ⟨[x], s, rfl, h, .inl ⟨rfl, by simpa using isBlank_of_isSpace hx⟩⟩
      · rw [if_neg hx]
        exact ⟨[x], s, rfl, h, .inr (.inl rfl)⟩

/-- The blanks at the head of a value are blanks in its spelling, by induction over the value. -/
theorem spells_dropBlank {spelled value : Text} (h : Xml.Spells spelled (value.map .char))
    (hplain : ¬ ['&', '#'] <:+: spelled)
    : Xml.Spells (Text.dropBlank spelled) ((Text.dropBlank value).map .char) := by
  have hnames : (Xml.predefined.map (·.2)).all (!Text.isBlank ·) := by with_unfolding_all decide
  induction value generalizing spelled with
  | nil =>
      cases h
      exact .nil
  | cons c value ih =>
      obtain ⟨piece, behind, rfl, hbehind, hcases⟩ := exists_of_spells_cons h hplain
      have hrest := ih hbehind fun hoccurs => hplain (hoccurs.trans (List.suffix_append _ _).isInfix)
      have hsame {x : Char} (hx : x ∈ (piece ++ behind).head?) (hx' : Text.isBlank x = false)
          (hc : Text.isBlank c = false)
          : Xml.Spells (Text.dropBlank (piece ++ behind))
            ((Text.dropBlank (c :: value)).map .char) := by
        obtain ⟨s, hs⟩ := List.head?_eq_some_iff.mp hx
        rw [hs] at h ⊢
        rwa [Text.dropBlank, Text.dropBlank, List.dropWhile_cons_of_neg (by simp [hx']),
          List.dropWhile_cons_of_neg (by simp [hc])]
      have hblank (hpiece : Text.allBlank piece) (hc : Text.isBlank c)
          : Xml.Spells (Text.dropBlank (piece ++ behind))
            ((Text.dropBlank (c :: value)).map .char) := by
        have hrest' : Text.dropBlank (c :: value) = Text.dropBlank value :=
          List.dropWhile_cons_of_pos hc
        rwa [Text.dropBlank_append hpiece, hrest']
      rcases hcases with ⟨rfl, hpiece⟩ | rfl | ⟨hpiece, hc⟩
      · exact hblank (List.all_eq_true.mpr hpiece) (by decide)
      · by_cases hc : Text.isBlank c
        · exact hblank (by simpa [Text.allBlank] using hc) hc
        · rw [Bool.not_eq_true] at hc
          exact hsame rfl hc hc
      · obtain ⟨s, rfl⟩ := List.head?_eq_some_iff.mp hpiece
        exact hsame rfl (by decide) (by simpa using List.all_eq_true.mp hnames c hc)

/-- What a value begins with its spelling begins with, unless a reference by name or a space may
stand in it.
-/
theorem isSome_dropFolded?_of_spells {literal spelled value : Text}
    (hliteral : ∀ c ∈ ' ' :: Xml.predefined.map (·.2), Text.foldChar c ∉ literal)
    (h : Xml.Spells spelled (value.map .char)) (hplain : ¬ ['&', '#'] <:+: spelled)
    (hvalue : (Text.dropFolded? literal value).isSome)
    : (Text.dropFolded? literal spelled).isSome := by
  induction literal generalizing spelled value with
  | nil => rfl
  | cons p literal ih =>
      cases value with
      | nil => cases hvalue
      | cons c value =>
          obtain ⟨piece, behind, rfl, hbehind, hcases⟩ := exists_of_spells_cons h hplain
          unfold Text.dropFolded? at hvalue
          split at hvalue
          · next hc =>
              have hnot : c ∉ ' ' :: Xml.predefined.map (·.2) := fun hmem =>
                hliteral c hmem (by simp [hc])
              rw [List.mem_cons, not_or] at hnot
              rcases hcases with ⟨rfl, -⟩ | rfl | ⟨-, hmem⟩
              · exact absurd rfl hnot.1
              · rw [List.singleton_append, Text.dropFolded?, if_pos hc]
                exact ih (fun x hx hmem => hliteral x hx (List.mem_cons_of_mem _ hmem)) hbehind
                  (fun hoccurs => hplain (hoccurs.trans (List.suffix_cons _ _).isInfix)) hvalue
              · exact absurd hmem hnot.2
          · cases hvalue

/-- The name of an attribute whose value is a URL is found. -/
theorem dropAnyFolded?_append {base : Text} (hbase : base ∈ linkNames) (rest : Text)
    : dropAnyFolded? urlAttributes (base ++ rest) = some rest := by
  simp only [linkNames, List.mem_cons, List.not_mem_nil, or_false] at hbase
  rcases hbase with rfl | rfl | rfl | rfl <;> with_unfolding_all rfl

section Links

variable {a : Xml.Assignment} (ha : a.Sound)
include ha

/-- An attribute whose value is a dangerous URL is found from its base name on. -/
theorem isSome_readUrl?_of_sound (hbase : a.name.base ∈ linkNames) {value : Text}
    (hspells : Xml.Spells a.spelled (value.map .char)) (hplain : ¬ ['&', '#'] <:+: a.spelled)
    {scheme : Text} (hscheme : scheme ∈ dangerousSchemes)
    (hvalue : (Text.dropFolded? scheme (Text.dropBlank value)).isSome) (rest : Text)
    : (readUrl? scheme (a.name.base ++ (a.before ++ '=' :: (a.behind ++ a.quote :: (a.spelled
        ++ a.quote :: rest))))).isSome := by
  have hschemes : dangerousSchemes.all fun scheme => (' ' :: Xml.predefined.map (·.2)).all
      fun c => !scheme.contains (Text.foldChar c) := by with_unfolding_all decide
  have hliteral : ∀ c ∈ ' ' :: Xml.predefined.map (·.2), Text.foldChar c ∉ scheme := by
    intro c hc hmem
    have := List.all_eq_true.mp (List.all_eq_true.mp hschemes scheme hscheme) c hc
    simp [hmem] at this
  have hblank : (a.spelled ++ a.quote :: rest).dropWhile Text.isBlank
      = Text.dropBlank a.spelled ++ a.quote :: rest := by
    have hquote : Text.isBlank a.quote = false := by
      rcases ha.quote with hq | hq <;> rw [hq] <;> decide
    rw [List.dropWhile_append, List.dropWhile_cons_of_neg (by simp [hquote]), Text.dropBlank]
    split
    · next hempty => rw [List.isEmpty_iff.mp hempty, List.nil_append]
    · rfl
  have hsuffix : Text.dropBlank a.spelled <:+ a.spelled := List.dropWhile_suffix _
  obtain ⟨left, hleft⟩ := Option.isSome_iff_exists.mp (isSome_dropFolded?_of_spells hliteral
    (spells_dropBlank hspells hplain) (fun hoccurs => hplain (hoccurs.trans hsuffix.isInfix)) hvalue)
  have hdropped := Text.dropFolded?_append_right hleft (a.quote :: rest)
  obtain ⟨before, behind, hsplit, -⟩ := Text.exists_splitAtLiteral? (c := a.quote) left rest
  have hscheme : (afterSchemeValue? scheme (a.quote :: (a.spelled ++ a.quote :: rest))).isSome := by
    have hquote : a.quote = '"' ∨ a.quote = '\'' := ha.quote
    rw [afterSchemeValue?, if_pos (by simpa using hquote), hblank, hdropped]
    simp [hsplit]
  obtain ⟨equals, hequals⟩ := exists_readEquals? ha (a.spelled ++ a.quote :: rest)
  have hstart : (a.name.base ++ (a.before ++ '=' :: (a.behind ++ a.quote :: (a.spelled
      ++ a.quote :: rest)))).dropWhile Text.isBlank = a.name.base ++ (a.before ++ '=' :: (a.behind
        ++ a.quote :: (a.spelled ++ a.quote :: rest))) := by
    have hnames : linkNames.all fun name => name.head?.any (!Text.isBlank ·) := by with_unfolding_all decide
    obtain ⟨c, hc, hc'⟩ := Option.any_eq_true _ _ |>.mp (List.all_eq_true.mp hnames _ hbase)
    obtain ⟨base, hbase⟩ := List.head?_eq_some_iff.mp hc
    rw [hbase, List.cons_append, List.dropWhile_cons_of_neg (by simpa using hc')]
  rw [readUrl?, hstart, dropAnyFolded?_append hbase]
  dsimp only
  rw [hequals]
  dsimp only
  rwa [Option.isSome_map]

/-- In a text from which nothing is removed stands no dangerous URL, unless its spelling refers to
characters by number.
-/
theorem IsSettled.not_isDangerousUrl {s rest : Text} (hs : IsSettled s)
    (hsuffix : a.text ++ rest <:+ s) (hbase : a.name.base ∈ linkNames) {value : Text}
    (hspells : Xml.Spells a.spelled (value.map .char)) (hplain : ¬ ['&', '#'] <:+: a.spelled)
    : isDangerousUrl value = false := by
  by_contra hdangerous
  rw [Bool.not_eq_false, isDangerousUrl, List.any_eq_true] at hdangerous
  obtain ⟨scheme, hscheme, hvalue⟩ := hdangerous
  have hname : a.name.base ++ (a.before ++ '=' :: (a.behind ++ a.quote :: (a.spelled
      ++ a.quote :: rest))) <:+ s := by
    refine List.IsSuffix.trans ?_ hsuffix
    rw [text_append]
    unfold Xml.Spelling.text
    split
    · exact List.suffix_rfl
    · rw [List.append_assoc]
      exact (List.suffix_cons _ _).trans (List.suffix_append _ _)
  have hfinds := Scanner.finds_of_suffix (p := urlScanner scheme) hname
    (isSome_readUrl?_of_sound ha hbase hspells hplain hscheme hvalue rest)
  rw [hs.urls scheme hscheme] at hfinds
  cases hfinds

end Links

end Sanitize

end SvgKit
