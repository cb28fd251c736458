import SvgKit.Proofs.Markup.Stretches
import SvgKit.Proofs.Sanitize.Settled
import SvgKit.Proofs.Xml.Occurrence
import Mathlib.Data.List.Infix

/-! What is dangerous in a document, and how it may be hidden from scanners of its text. A document
that is read from a text from which nothing is removed is harmless if it hides nothing.
-/

namespace SvgKit.Sanitize

open Xml (Document Head Spelling Token Value)

-----------------------------------------------------------------------------------------
-- Harmless elements
-----------------------------------------------------------------------------------------

/-- Nothing in the start tag of an element is dangerous: neither its name nor that of an attribute
without a namespace, and no URL. The URLs are those without references to entities.
-/
structure IsHarmless (h : Head) : Prop where
  element : isDangerousElement h.name.base = false
  handlers : ∀ a ∈ h.attributes, a.name.binding = none → isHandlerName a.name.base = false
  urls : ∀ a ∈ h.attributes, a.spelling = none → a.name.base ∈ linkNames
    → isDangerousUrl a.value = false

instance (h : Head) : Decidable (IsHarmless h) :=
  decidable_of_iff (isDangerousElement h.name.base = false
      ∧ (∀ a ∈ h.attributes, a.name.binding = none → isHandlerName a.name.base = false)
      ∧ ∀ a ∈ h.attributes, a.spelling = none → a.name.base ∈ linkNames
        → isDangerousUrl a.value = false)
    ⟨fun h => ⟨h.1, h.2.1, h.2.2⟩, fun h => ⟨h.element, h.handlers, h.urls⟩⟩

-----------------------------------------------------------------------------------------
-- What scanners do not see
-----------------------------------------------------------------------------------------

/-- The start tag that begins at the head of a text. -/
def startTagAt? : Text → Option Token
  | '<' :: s => (Xml.readStart? s).map (·.1)
  | _ => none

/-- The start tags that can be read in a text. -/
def startTags (s : Text) : List Token := s.tails.filterMap startTagAt?

/-- The attribute behind white space at the head of a text, and how it is written. -/
def attributeAt? : Text → Option ((Spelling × Value) × Text)
  | c :: s =>
    if Xml.isSpace c then
      (Xml.readAttribute? s).map fun (a, rest) => (a, s.take (s.length - rest.length))
    else none
  | [] => none

/-- The attributes that can be read in a text, and how they are written. -/
def attributesAt (s : Text) : List ((Spelling × Value) × Text) := s.tails.filterMap attributeAt?

/-- A start tag of a dangerous element that closes the element itself has no bracket in a value. -/
def showsEnd : Token → Bool
  | .start name given true =>
    !isDangerousElement name.base || given.all fun (_, value) => !value.contains (.char '>')
  | _ => true

/-- The characters of a value. -/
def literalText (value : Value) : Text :=
  value.filterMap fun
    | .char c => some c
    | .entity _ => none

/-- The name of an attribute in the form with capitals: the word at its beginning has that form. -/
def capitalizedName (name : Text) : Text :=
  Markup.camelCaseWord (name.takeWhile Markup.isNameChar) ++ name.dropWhile Markup.isNameChar

/-- Nothing dangerous in a document that is read from a text is hidden from scanners of the text.
Where names get their form with capitals, nothing is hidden in names in that form either.
-/
structure HidesNothing (capitals : Bool) (source : Text) (d : Document) : Prop where
  /-- No attributes are declared, with defaults that stand in no tag. -/
  rules : Xml.attributeRules source = []
  /-- No dangerous element has a prefix. -/
  labels : ∀ h ∈ d.root.heads, isDangerousElement h.name.base → h.name.spelling.space = none
  /-- No bracket in a value hides the end of a tag. -/
  brackets : ∀ token ∈ startTags source, showsEnd token
  /-- The names of handlers consist of Latin letters. -/
  letters : ∀ h ∈ d.root.heads, ∀ a ∈ h.attributes, a.name.binding = none
    → isHandlerName a.name.base → a.name.base.all Text.isFoldedLetter
  /-- Dangerous URLs refer to no character by its number. -/
  numbers : ∀ x ∈ attributesAt source, x.1.1.base ∈ linkNames → isDangerousUrl (literalText x.1.2)
    → ¬ ['&', '#'] <:+: x.2
  /-- No other name becomes that of a handler. -/
  words : capitals → ∀ h ∈ d.root.heads, ∀ a ∈ h.attributes, a.name.binding = none
    → isHandlerName (capitalizedName a.name.base) → isHandlerName a.name.base

instance (capitals : Bool) (source : Text) (d : Document)
    : Decidable (HidesNothing capitals source d) :=
  decidable_of_iff (Xml.attributeRules source = []
      ∧ (∀ h ∈ d.root.heads, isDangerousElement h.name.base → h.name.spelling.space = none)
      ∧ (∀ token ∈ startTags source, showsEnd token)
      ∧ (∀ h ∈ d.root.heads, ∀ a ∈ h.attributes, a.name.binding = none
        → isHandlerName a.name.base → a.name.base.all Text.isFoldedLetter)
      ∧ (∀ x ∈ attributesAt source, x.1.1.base ∈ linkNames → isDangerousUrl (literalText x.1.2)
        → ¬ ['&', '#'] <:+: x.2)
      ∧ (capitals → ∀ h ∈ d.root.heads, ∀ a ∈ h.attributes, a.name.binding = none
        → isHandlerName (capitalizedName a.name.base) → isHandlerName a.name.base))
    ⟨fun h => ⟨h.1, h.2.1, h.2.2.1, h.2.2.2.1, h.2.2.2.2.1, h.2.2.2.2.2⟩, fun h =>
      ⟨h.rules, h.labels, h.brackets, h.letters, h.numbers, h.words⟩⟩

section Occurrences

variable {s t rest : Text}

theorem mem_startTags {token : Token} (hsuffix : '<' :: t <:+ s)
    (h : Xml.readStart? t = some (token, rest))
    : token ∈ startTags s :=
  List.mem_filterMap.mpr ⟨_, (List.mem_tails _ _).mpr hsuffix, by simp [startTagAt?, h]⟩

theorem mem_attributesAt {a : Spelling × Value} {written : Text} {c : Char} (hc : Xml.isSpace c)
    (hsuffix : c :: (written ++ rest) <:+ s)
    (h : Xml.readAttribute? (written ++ rest) = some (a, rest))
    : (a, written) ∈ attributesAt s :=
  List.mem_filterMap.mpr ⟨_, (List.mem_tails _ _).mpr hsuffix, by simp [attributeAt?, hc, h]⟩

theorem literalText_char (content : Text) : literalText (content.map .char) = content := by
  simp [literalText, List.filterMap_map]

end Occurrences

-----------------------------------------------------------------------------------------
-- Documents that hide nothing
-----------------------------------------------------------------------------------------

/-- A document that is read from a text from which nothing is removed is harmless, if it hides
nothing.
-/
theorem isHarmless_of_ofText? {capitals : Bool} {s source : Text} {d : Document}
    (hs : IsSettled s) (hsource : source <:+ s) (hd : Document.ofText? source = some d)
    (hhides : HidesNothing capitals source d)
    : ∀ h ∈ d.root.heads, IsHarmless h := by
  intro h hh
  obtain ⟨doctype, hrules, hheads⟩ := Xml.exists_readStart?_of_ofText? hd
  obtain ⟨t, rest, name, given, isEmpty, scope, mark, htag, hstart, hhead, hfinish⟩ := hheads h hh
  obtain ⟨hname, hattributes⟩ := Xml.exists_given_of_readHead? (hrules.trans hhides.rules) hhead
  have hbase : h.name.base = name.base := congrArg Spelling.base hname
  -- the attributes, as they are written
  have hwritten : ∀ a ∈ h.attributes, ∃ (c : Char) (b : Xml.Assignment) (value : Value)
      (left : Text), Xml.isSpace c ∧ b.Sound ∧ b.name = a.name.spelling
      ∧ Xml.Spells b.spelled value ∧ (a.spelling = none → value = a.value.map .char)
      ∧ c :: (b.text ++ left) <:+ source ∧ ((b.name, value), b.text) ∈ attributesAt source := by
    intro a ha
    obtain ⟨⟨n, value⟩, hpair, hspelling, hvalue⟩ := hattributes a ha
    obtain ⟨c, u, left, hc, hu, hread⟩ := Xml.exists_readAttribute?_of_readStart? hstart hpair
    obtain ⟨b, hb, rfl, hspells, rfl⟩ := Xml.exists_assignment hread
    have hsuffix := (hu.trans (List.suffix_cons _ _)).trans htag
    exact ⟨c, b, value, left, hc, hb, hspelling.symm, hspells, hvalue, hsuffix,
      mem_attributesAt hc hsuffix hread⟩
  refine ⟨?_, fun a ha hbinding => ?_, fun a ha hplain hlink => ?_⟩
  · by_contra hdangerous
    rw [Bool.not_eq_false] at hdangerous
    have hlabel := hhides.labels h hh hdangerous
    rw [hname] at hlabel
    rw [hbase] at hdangerous
    have hsafe := hs.not_isDangerousElement (htag.trans hsource) hstart hfinish hlabel
      fun hempty pair hpair hmem => by
        subst hempty
        have hshows := hhides.brackets _ (mem_startTags htag hstart)
        simp only [showsEnd, hdangerous, Bool.not_true, Bool.false_or, List.all_eq_true] at hshows
        simpa [hmem] using hshows pair hpair
    rw [hdangerous] at hsafe
    cases hsafe
  · obtain ⟨c, b, value, left, hc, hb, hb', -, -, hsuffix, -⟩ := hwritten a ha
    have hspace : b.name.space = none := by simp [hb', Xml.Name.spelling, hbinding]
    have hbase : b.name.base = a.name.base := by simp [hb', Xml.Name.spelling]
    by_contra hhandler
    rw [Bool.not_eq_false] at hhandler
    have hletters := hhides.letters h hh a ha hbinding hhandler
    rw [← hbase] at hhandler hletters
    rw [hs.not_isHandlerName hb (isBlank_of_isSpace hc) (hsuffix.trans hsource) hspace
      hletters] at hhandler
    cases hhandler
  · obtain ⟨c, b, value, left, hc, hb, hb', hspells, hvalue, hsuffix, hmem⟩ := hwritten a ha
    have hbase : b.name.base = a.name.base := by simp [hb', Xml.Name.spelling]
    obtain rfl := hvalue hplain
    by_contra hurl
    rw [Bool.not_eq_false] at hurl
    rw [← hbase] at hlink
    have hnumbers := hhides.numbers _ hmem hlink (by rwa [literalText_char])
    have hspelled : b.spelled <:+: b.text := by
      refine ⟨b.name.text ++ (b.before ++ '=' :: (b.behind ++ [b.quote])), [b.quote], ?_⟩
      simp [Xml.Assignment.text]
    have hsafe := hs.not_isDangerousUrl hb
      (((List.suffix_cons _ _).trans hsuffix).trans hsource) hlink hspells
      fun hoccurs => hnumbers (hoccurs.trans hspelled)
    rw [hurl] at hsafe
    cases hsafe

end SvgKit.Sanitize
