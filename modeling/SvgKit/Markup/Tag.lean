import SvgKit.Markup.Attribute
import SvgKit.Text.Scanner
import SvgKit.Text.Word

/-! Start tags, comments and CDATA sections in the text of a document. They are found without
reading the document as XML, so that any text can be scanned; an attribute is read as a whole,
and nothing inside a quoted value is taken for markup.
-/

namespace SvgKit.Markup

/-- A start tag: its name, its attributes with the blanks before them, and its end. -/
structure StartTag where
  name : Text
  attributes : List (Text × Attribute)
  close : Text
  deriving Repr, DecidableEq

/-- The tag as it is written. -/
def StartTag.text (t : StartTag) : Text :=
  '<' :: t.name ++ attributesText t.attributes ++ t.close

/-- What a scan of markup stops at. -/
inductive Item where
  | comment (body : Text)
  | data (body : Text)
  | tag (t : StartTag)
  deriving Repr, DecidableEq

/-- The item as it is written. -/
def Item.text : Item → Text
  | .comment body => "<!--" ++ body ++ "-->"
  | .data body => "<![CDATA[" ++ body ++ "]]>"
  | .tag t => t.text

/-- A character that begins a tag name. -/
def isTagStart (c : Char) : Bool := c.isAlpha || c == '_'

/-- A character of a tag name. -/
def isTagChar (c : Char) : Bool := Text.isWord c || c == ':' || c == '.' || c == '-'

/-- The end of a start tag at the head of a text, with the blanks before it, and the rest. -/
def readTagEnd? (s : Text) : Option (Text × Text) :=
  let blanks := s.takeWhile Text.isBlank
  match s.dropWhile Text.isBlank with
  | '>' :: rest => some (blanks ++ ['>'], rest)
  | '/' :: '>' :: rest => some (blanks ++ ['/', '>'], rest)
  | _ => none

/-- The name at the head of a text and the rest; a name begins with a letter or underscore. -/
def readTagName? (s : Text) : Option (Text × Text) :=
  match s.head? with
  | none => none
  | some c =>
    if isTagStart c then some (s.takeWhile isTagChar, s.dropWhile isTagChar) else none

/-- The start tag whose `<` has been read, and the rest. -/
def readStartTag? (s : Text) : Option (StartTag × Text) :=
  match readTagName? s with
  | none => none
  | some (name, rest) =>
    match readTagEnd? (readAttributes bareInTag rest).2 with
    | none => none
    | some (close, left) => some (⟨name, (readAttributes bareInTag rest).1, close⟩, left)

/-- The comment, section or start tag at the head of a text, and the rest. -/
def readItem? (s : Text) : Option (Item × Text) :=
  match Text.dropLiteral? "<!--" s with
  | some inner =>
    (Text.splitAtLiteral? "-->" inner).map fun (body, rest) => (.comment body, rest)
  | none =>
    match Text.dropLiteral? "<![CDATA[" s with
    | some inner =>
      (Text.splitAtLiteral? "]]>" inner).map fun (body, rest) => (.data body, rest)
    | none =>
      match Text.dropLiteral? ['<'] s with
      | some inner => (readStartTag? inner).map fun (t, rest) => (.tag t, rest)
      | none => none

-----------------------------------------------------------------------------------------
-- What is read and what is left make up the text
-----------------------------------------------------------------------------------------

/-- A tag end and the rest make up the text. -/
theorem eq_of_readTagEnd? {s close rest : Text} (h : readTagEnd? s = some (close, rest))
    : s = close ++ rest := by
  have hs := List.takeWhile_append_dropWhile (p := Text.isBlank) (l := s)
  unfold readTagEnd? at h
  dsimp only at h
  split at h
  · next left hd => cases h; rw [hd] at hs; simpa using hs.symm
  · next left hd => cases h; rw [hd] at hs; simpa using hs.symm
  · cases h

/-- A tag name and the rest make up the text. -/
theorem eq_of_readTagName? {s name rest : Text} (h : readTagName? s = some (name, rest))
    : s = name ++ rest := by
  unfold readTagName? at h
  split at h
  · cases h
  · split at h
    · cases h; simp
    · cases h

/-- A start tag and the rest make up the text behind the `<`. -/
theorem eq_of_readStartTag? {s rest : Text} {t : StartTag}
    (h : readStartTag? s = some (t, rest))
    : '<' :: s = t.text ++ rest := by
  unfold readStartTag? at h
  split at h
  · cases h
  · next name afterName hn =>
    split at h
    · cases h
    · next close left he =>
      cases h
      have hs := readAttributes_append bareInTag afterName
      rw [eq_of_readTagEnd? he] at hs
      rw [eq_of_readTagName? hn]
      conv => lhs; rw [← hs]
      simp [StartTag.text]

/-- An item and the rest make up the text. -/
theorem eq_of_readItem? {s rest : Text} {item : Item} (h : readItem? s = some (item, rest))
    : s = item.text ++ rest := by
  unfold readItem? at h
  split at h
  · next inner hd =>
    obtain ⟨⟨body, left⟩, hs, heq⟩ := Option.map_eq_some_iff.mp h
    cases heq
    rw [Text.dropLiteral?_eq_some_iff.mp hd, Text.eq_of_splitAtLiteral? hs]
    simp [Item.text]
  · split at h
    · next inner hd =>
      obtain ⟨⟨body, left⟩, hs, heq⟩ := Option.map_eq_some_iff.mp h
      cases heq
      rw [Text.dropLiteral?_eq_some_iff.mp hd, Text.eq_of_splitAtLiteral? hs]
      simp [Item.text]
    · split at h
      · next inner hd =>
        obtain ⟨⟨t, left⟩, hs, heq⟩ := Option.map_eq_some_iff.mp h
        cases heq
        rw [Text.dropLiteral?_eq_some_iff.mp hd]
        exact eq_of_readStartTag? hs
      · cases h

/-- An item has a character at least. -/
theorem Item.length_text_pos (item : Item) : 0 < item.text.length := by
  cases item with
  | comment body =>
    have : "<!--".length = 4 := rfl
    simp only [Item.text, List.length_append, Text.length_ofString]
    omega
  | data body =>
    have : "]]>".length = 3 := rfl
    simp only [Item.text, List.length_append, Text.length_ofString]
    omega
  | tag t =>
    simp only [Item.text, StartTag.text, List.length_append, List.length_cons]
    omega

/-- Reading an item leaves less than there was. -/
theorem length_readItem? {s rest : Text} {item : Item} (h : readItem? s = some (item, rest))
    : rest.length < s.length := by
  have hs := congrArg List.length (eq_of_readItem? h)
  have := item.length_text_pos
  simp only [List.length_append] at hs
  omega

/-- Finds the comments, sections and start tags of a text. -/
def scanner : Scanner Item where
  read := readItem?
  shorter := length_readItem?
  suffix h := ⟨_, (eq_of_readItem? h).symm⟩

end SvgKit.Markup
