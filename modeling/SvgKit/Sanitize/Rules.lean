import SvgKit.Markup.Attribute
import SvgKit.Text.Case
import SvgKit.Text.Scanner
import SvgKit.Text.Word

/-! What is dangerous in the text of an SVG document: elements, event handler attributes and
URL schemes, each with the scanners that find it in raw text whatever the case of letters.
-/

namespace SvgKit.Sanitize

-----------------------------------------------------------------------------------------
-- Elements
-----------------------------------------------------------------------------------------

/-- The names of dangerous elements. -/
def dangerousElements : List Text :=
  ["script", "iframe", "object", "embed", "foreignObject", "applet", "frame", "frameset",
    "base", "link", "meta"]

/-- A name in small letters, as scanners compare it. -/
def folded (name : Text) : Text := name.map Char.toLower

/-- What follows `<` and an element name at the head of a text. -/
def readOpening? (name : Text) : Text → Option Text
  | '<' :: s => Text.dropFolded? (folded name) s
  | _ => none

/-- What follows an end tag of an element at the head of a text. -/
def readClosing? (name : Text) : Text → Option Text
  | '<' :: '/' :: s =>
    match Text.dropFolded? (folded name) s with
    | none => none
    | some rest =>
      match rest.dropWhile Text.isBlank with
      | '>' :: left => some left
      | _ => none
  | _ => none

/-- What follows the first end tag of an element. -/
def afterClosing? (name : Text) : Text → Option Text
  | [] => none
  | c :: s =>
    match readClosing? name (c :: s) with
    | some rest => some rest
    | none => afterClosing? name s

/-- What a tag of an element holds up to its `>`, and the rest. -/
def readElementTag? (name s : Text) : Option (Text × Text) :=
  match readOpening? name s with
  | none => none
  | some rest => if Text.atWordEnd rest then Text.splitAtLiteral? ['>'] rest else none

/-- A tag that closes its element itself, and the rest. -/
def readEmpty? (name s : Text) : Option (Unit × Text) :=
  match readElementTag? name s with
  | some (inner, rest) => if inner.getLast? = some '/' then some ((), rest) else none
  | none => none

/-- A tag and everything up to the next end tag of its element, and the rest. -/
def readPaired? (name s : Text) : Option (Unit × Text) :=
  match readElementTag? name s with
  | some (_, rest) => (afterClosing? name rest).map ((), ·)
  | none => none

/-- What follows `<` and a name is a shorter end of the text. -/
theorem readOpening?_suffix {name s rest : Text} (h : readOpening? name s = some rest)
    : rest <:+ s ∧ rest.length < s.length := by
  unfold readOpening? at h
  split at h
  · have hs := Text.dropFolded?_suffix h
    exact ⟨hs.trans (List.suffix_cons _ _), Nat.lt_succ_of_le hs.length_le⟩
  · cases h

/-- What follows an end tag is an end of the text. -/
theorem readClosing?_suffix {name s rest : Text} (h : readClosing? name s = some rest)
    : rest <:+ s := by
  unfold readClosing? at h
  split at h
  · next s =>
    split at h
    · cases h
    · next left hd =>
      split at h
      · next hb =>
        cases h
        have hleft := List.dropWhile_suffix (l := left) Text.isBlank
        rw [hb] at hleft
        have hs : left <:+ '<' :: '/' :: s :=
          (Text.dropFolded?_suffix hd).trans ⟨['<', '/'], rfl⟩
        exact (List.suffix_cons _ _).trans (hleft.trans hs)
      · cases h
  · cases h

/-- What follows the first end tag is an end of the text, by induction over the text. -/
theorem afterClosing?_suffix {name s rest : Text} (h : afterClosing? name s = some rest)
    : rest <:+ s := by
  induction s with
  | nil => cases h
  | cons c s ih =>
    unfold afterClosing? at h
    split at h
    · next hc => cases h; exact readClosing?_suffix hc
    · exact (ih h).trans (List.suffix_cons _ _)

/-- What follows a tag is an end of what follows its `<`. -/
theorem readElementTag?_suffix {name s inner rest : Text}
    (h : readElementTag? name s = some (inner, rest))
    : rest <:+ s ∧ rest.length < s.length := by
  unfold readElementTag? at h
  split at h
  · cases h
  · next left ho =>
    split at h
    · have hs := Text.splitAtLiteral?_suffix h
      have ⟨hsuffix, hlength⟩ := readOpening?_suffix ho
      have := hs.length_le
      exact ⟨hs.trans hsuffix, by omega⟩
    · cases h

/-- What follows an empty element is a shorter end of the text. -/
theorem readEmpty?_suffix {name s rest : Text} {u : Unit}
    (h : readEmpty? name s = some (u, rest))
    : rest <:+ s ∧ rest.length < s.length := by
  unfold readEmpty? at h
  split at h
  · next ht => split at h <;> cases h; exact readElementTag?_suffix ht
  · cases h

/-- What follows a paired element is a shorter end of the text. -/
theorem readPaired?_suffix {name s rest : Text} {u : Unit}
    (h : readPaired? name s = some (u, rest))
    : rest <:+ s ∧ rest.length < s.length := by
  unfold readPaired? at h
  split at h
  · next ht =>
    obtain ⟨left, hc, heq⟩ := Option.map_eq_some_iff.mp h
    cases heq
    have hs := afterClosing?_suffix hc
    have ⟨hsuffix, hlength⟩ := readElementTag?_suffix ht
    have := hs.length_le
    exact ⟨hs.trans hsuffix, by omega⟩
  · cases h

/-- Finds the elements of a name that close themselves. -/
def emptyScanner (name : Text) : Scanner Unit where
  read := readEmpty? name
  shorter h := (readEmpty?_suffix h).2
  suffix h := (readEmpty?_suffix h).1

/-- Finds the elements of a name that have an end tag. -/
def pairedScanner (name : Text) : Scanner Unit where
  read := readPaired? name
  shorter h := (readPaired?_suffix h).2
  suffix h := (readPaired?_suffix h).1

/-- A tag of the element begins at the head of the text. -/
def opensElement (name s : Text) : Bool :=
  match readOpening? name s with
  | some (c :: _) => Text.isBlank c || c == '/' || c == '>'
  | _ => false

-----------------------------------------------------------------------------------------
-- Event handlers
-----------------------------------------------------------------------------------------

/-- The name of a handler attribute and its equals sign, behind the blank before it, and the
rest.
-/
def readHandlerName? : Text → Option (Text × Text)
  | blank :: o :: n :: s =>
    if Text.isBlank blank && Text.foldChar o == 'o' && Text.foldChar n == 'n' then
      match s.takeWhile Text.isFoldedLetter with
      | [] => none
      | letters =>
        (Markup.readEquals? (s.dropWhile Text.isFoldedLetter)).map fun (_, rest) =>
          (o :: n :: letters, rest)
    else none
  | _ => none

/-- What follows the quoted value at the head of a text. -/
def afterQuoted? : Text → Option Text
  | [] => none
  | quote :: s =>
    if quote = '"' || quote = '\'' then (Text.splitAtLiteral? [quote] s).map (·.2) else none

/-- A handler attribute with its value in quotes, behind the blank before it, and the rest. -/
def readHandler? (s : Text) : Option (Text × Text) :=
  match readHandlerName? s with
  | none => none
  | some (name, rest) => (afterQuoted? rest).map (name, ·)

/-- What follows the name of a handler is a shorter end of the text. -/
theorem readHandlerName?_suffix {s name rest : Text}
    (h : readHandlerName? s = some (name, rest))
    : rest <:+ s ∧ rest.length < s.length := by
  unfold readHandlerName? at h
  split at h
  · next blank o n s =>
    split at h
    · split at h
      · cases h
      · obtain ⟨⟨equals, left⟩, he, heq⟩ := Option.map_eq_some_iff.mp h
        obtain ⟨_, rfl⟩ := Prod.mk.inj heq
        have hs : left <:+ s :=
          List.IsSuffix.trans ⟨equals, (Markup.eq_of_readEquals? he).symm⟩
            (List.dropWhile_suffix _)
        have := hs.length_le
        refine ⟨hs.trans ⟨[blank, o, n], rfl⟩, ?_⟩
        simp only [List.length_cons]
        omega
    · cases h
  · cases h

/-- What follows a quoted value is an end of the text. -/
theorem afterQuoted?_suffix {s rest : Text} (h : afterQuoted? s = some rest)
    : rest <:+ s := by
  unfold afterQuoted? at h
  split at h
  · cases h
  · split at h
    · obtain ⟨⟨body, left⟩, hs, heq⟩ := Option.map_eq_some_iff.mp h
      cases heq
      exact (Text.splitAtLiteral?_suffix hs).trans (List.suffix_cons _ _)
    · cases h

/-- What follows a handler is a shorter end of the text. -/
theorem readHandler?_suffix {s name rest : Text} (h : readHandler? s = some (name, rest))
    : rest <:+ s ∧ rest.length < s.length := by
  unfold readHandler? at h
  split at h
  · cases h
  · next hn =>
    obtain ⟨left, hq, heq⟩ := Option.map_eq_some_iff.mp h
    cases heq
    have hs := afterQuoted?_suffix hq
    have ⟨hsuffix, hlength⟩ := readHandlerName?_suffix hn
    have := hs.length_le
    exact ⟨hs.trans hsuffix, by omega⟩

/-- Finds handler attributes with quoted values, and gives their names. -/
def handlerScanner : Scanner Text where
  read := readHandler?
  shorter h := (readHandler?_suffix h).2
  suffix h := (readHandler?_suffix h).1

/-- Finds handler attributes with any value, and gives their names. -/
def handlerNameScanner : Scanner Text where
  read := readHandlerName?
  shorter h := (readHandlerName?_suffix h).2
  suffix h := (readHandlerName?_suffix h).1

-----------------------------------------------------------------------------------------
-- URL schemes
-----------------------------------------------------------------------------------------

/-- The beginnings of dangerous URLs. -/
def dangerousSchemes : List Text :=
  ["javascript:", "vbscript:", "data:text/html", "data:application/"]

/-- The attributes whose values are URLs. -/
def urlAttributes : List Text := ["xlink:href", "href", "src", "action", "formaction"]

/-- What follows the first of the names that stands at the head of a text. -/
def dropAnyFolded? (names : List Text) (s : Text) : Option Text :=
  names.findSome? (Text.dropFolded? · s)

/-- What follows the rest of a quoted value that begins with a scheme, blanks aside. -/
def afterSchemeValue? (scheme : Text) : Text → Option Text
  | [] => none
  | quote :: s =>
    if quote = '"' || quote = '\'' then
      match Text.dropFolded? scheme (s.dropWhile Text.isBlank) with
      | some rest => (Text.splitAtLiteral? [quote] rest).map (·.2)
      | none => none
    else none

/-- A URL attribute whose quoted value begins with a scheme, with the blanks before it, and the
rest.
-/
def readUrl? (scheme s : Text) : Option (Unit × Text) :=
  match dropAnyFolded? urlAttributes (s.dropWhile Text.isBlank) with
  | none => none
  | some rest =>
    match Markup.readEquals? rest with
    | none => none
    | some (_, rest) => (afterSchemeValue? scheme rest).map ((), ·)

/-- What follows one of the names is an end of the text. -/
theorem dropAnyFolded?_suffix {names : List Text} {s rest : Text}
    (h : dropAnyFolded? names s = some rest)
    : rest <:+ s := by
  obtain ⟨name, _, hd⟩ := List.exists_of_findSome?_eq_some h
  exact Text.dropFolded?_suffix hd

/-- What follows a value with a scheme is a shorter end of the text. -/
theorem afterSchemeValue?_suffix {scheme s rest : Text}
    (h : afterSchemeValue? scheme s = some rest)
    : rest <:+ s ∧ rest.length < s.length := by
  unfold afterSchemeValue? at h
  split at h
  · cases h
  · next quote s =>
    split at h
    · split at h
      · next hd =>
        obtain ⟨⟨body, left⟩, hs, heq⟩ := Option.map_eq_some_iff.mp h
        cases heq
        have hs' : left <:+ s :=
          (Text.splitAtLiteral?_suffix hs).trans
            ((Text.dropFolded?_suffix hd).trans (List.dropWhile_suffix _))
        exact ⟨hs'.trans (List.suffix_cons _ _), Nat.lt_succ_of_le hs'.length_le⟩
      · cases h
    · cases h

/-- What follows a URL attribute is a shorter end of the text. -/
theorem readUrl?_suffix {scheme s rest : Text} {u : Unit}
    (h : readUrl? scheme s = some (u, rest))
    : rest <:+ s ∧ rest.length < s.length := by
  unfold readUrl? at h
  split at h
  · cases h
  · next afterName hn =>
    split at h
    · cases h
    · next equals afterEquals he =>
      obtain ⟨left, hv, heq⟩ := Option.map_eq_some_iff.mp h
      cases heq
      have ⟨hsuffix, hlength⟩ := afterSchemeValue?_suffix hv
      have hs : afterEquals <:+ s :=
        List.IsSuffix.trans ⟨equals, (Markup.eq_of_readEquals? he).symm⟩
          ((dropAnyFolded?_suffix hn).trans (List.dropWhile_suffix _))
      have := hs.length_le
      exact ⟨hsuffix.trans hs, by omega⟩

/-- Finds URL attributes whose quoted value begins with a scheme. -/
def urlScanner (scheme : Text) : Scanner Unit where
  read := readUrl? scheme
  shorter h := (readUrl?_suffix h).2
  suffix h := (readUrl?_suffix h).1

end SvgKit.Sanitize
