import SvgKit.Component.Context
import SvgKit.Component.Template
import SvgKit.Sanitize.Rules

/-! SVG markup as JSX: attribute names, style objects, style sheets and comments. -/

namespace SvgKit.Component

-----------------------------------------------------------------------------------------
-- Attributes
-----------------------------------------------------------------------------------------

/-- The JSX names of attributes with a colon. -/
def jsxNames : List (Text × Text) :=
  [("xlink:href", "xlinkHref"), ("xlink:title", "xlinkTitle"), ("xlink:show", "xlinkShow"),
    ("xlink:role", "xlinkRole"), ("xlink:arcrole", "xlinkArcrole"),
    ("xlink:actuate", "xlinkActuate"), ("xlink:type", "xlinkType"),
    ("xml:space", "xmlSpace"), ("xml:lang", "xmlLang"), ("xml:base", "xmlBase"),
    ("xmlns:xlink", "xmlnsXlink")]

/-- The key of a style property: custom properties stay as they are, in quotes. -/
def styleKey (property : Text) : Text :=
  if Text.startsWith property "--" then Json.asciiString property
  else Markup.camelCase (Text.lower property)

/-- The entry of a style object that a declaration becomes. -/
def styleEntry? (declaration : Text) : Option Text :=
  match Text.splitAtLiteral? [':'] declaration with
  | none => none
  | some (property, value) =>
    let property := Text.trim property
    if property.isEmpty then none
    else some (styleKey property ++ ": " ++ Json.asciiString (Text.trim value))

/-- The declarations of a style attribute as a style object in braces. -/
def styleObject (style : Text) : Text :=
  let entries := (Text.splitOnChar (· == ';') style).filterMap styleEntry?
  if entries.isEmpty then "\x7b\x7b\x7d\x7d"
  else "\x7b\x7b " ++ Text.join ", " entries ++ " \x7d\x7d"

/-- The value without its first and its last character. -/
def inner (value : Text) : Text := (value.drop 1).dropLast

/-- Gives an attribute its JSX name, and a quoted style its object. -/
def jsxAttribute : Markup.Rewriter := fun _ name value =>
  if name = ("class" : Text) then ("className", value)
  else
    match jsxNames.lookup name, value with
    | some jsxName, _ => (jsxName, value)
    | none, some v =>
      if name = ("style" : Text) && Markup.isQuoted v then (name, some (styleObject (inner v)))
      else (name, value)
    | none, none => (name, none)

-----------------------------------------------------------------------------------------
-- Style sheets and comments
-----------------------------------------------------------------------------------------

/-- A style element: its start tag, its content and its end tag. -/
structure StyleElement where
  opening : Text
  content : Text
  closing : Text
  deriving Repr, DecidableEq

/-- The end tag of a style element at the head of a text, and the rest. -/
def readStyleEnd? (s : Text) : Option (Text × Text) :=
  match Text.dropFolded? "</style" s with
  | none => none
  | some rest =>
    match rest.dropWhile Text.isBlank with
    | '>' :: left => some (s.take 7 ++ rest.takeWhile Text.isBlank ++ ['>'], left)
    | _ => none

/-- Splits at the first end tag of a style element, behind what has been read in reverse. -/
def splitAtStyleEnd? (done : Text) : Text → Option (Text × Text × Text)
  | [] => none
  | c :: s =>
    match readStyleEnd? (c :: s) with
    | some (closing, rest) => some (done.reverse, closing, rest)
    | none => splitAtStyleEnd? (c :: done) s

/-- The style element at the head of a text, and the rest. -/
def readStyle? (s : Text) : Option (StyleElement × Text) :=
  match Sanitize.readElementTag? "style" s with
  | none => none
  | some (attributes, afterTag) =>
    (splitAtStyleEnd? [] afterTag).map fun (content, closing, rest) =>
      (⟨s.take 6 ++ attributes ++ ['>'], content, closing⟩, rest)

/-- What follows an end tag is an end of the text. -/
theorem readStyleEnd?_suffix {s closing rest : Text}
    (h : readStyleEnd? s = some (closing, rest))
    : rest <:+ s := by
  unfold readStyleEnd? at h
  split at h
  · cases h
  · next left hd =>
    split at h
    · next hb =>
      cases h
      have := List.dropWhile_suffix (l := left) Text.isBlank
      rw [hb] at this
      exact (List.suffix_cons _ _).trans (this.trans (Text.dropFolded?_suffix hd))
    · cases h

/-- What follows the first end tag is an end of the text, by induction over the text. -/
theorem splitAtStyleEnd?_suffix {done s content closing rest : Text}
    (h : splitAtStyleEnd? done s = some (content, closing, rest))
    : rest <:+ s := by
  induction s generalizing done with
  | nil => cases h
  | cons c s ih =>
    unfold splitAtStyleEnd? at h
    split at h
    · next hc => cases h; exact readStyleEnd?_suffix hc
    · exact (ih h).trans (List.suffix_cons _ _)

/-- What follows a style element is a shorter end of the text. -/
theorem readStyle?_suffix {s rest : Text} {e : StyleElement}
    (h : readStyle? s = some (e, rest))
    : rest <:+ s ∧ rest.length < s.length := by
  unfold readStyle? at h
  split at h
  · cases h
  · next ht =>
    obtain ⟨⟨content, closing, left⟩, hc, heq⟩ := Option.map_eq_some_iff.mp h
    cases heq
    have hs := splitAtStyleEnd?_suffix hc
    have ⟨hsuffix, hlength⟩ := Sanitize.readElementTag?_suffix ht
    have := hs.length_le
    exact ⟨hs.trans hsuffix, by omega⟩

/-- Finds style elements. -/
def styleScanner : Scanner StyleElement where
  read := readStyle?
  shorter h := (readStyle?_suffix h).2
  suffix h := (readStyle?_suffix h).1

/-- What stands between two literals at the head of a text, and the rest. -/
def readBetween? (opening closing s : Text) : Option (Text × Text) :=
  match s with
  | [] => none
  | c :: s => (Text.dropLiteral? opening (c :: s)).bind fun rest =>
    if rest.length ≤ s.length then Text.splitAtLiteral? closing rest else none

/-- What follows the second literal is a shorter end of the text. -/
theorem readBetween?_suffix {opening closing s body rest : Text}
    (h : readBetween? opening closing s = some (body, rest))
    : rest <:+ s ∧ rest.length < s.length := by
  unfold readBetween? at h
  split at h
  · cases h
  · next c s =>
    obtain ⟨left, hd, hif⟩ := Option.bind_eq_some_iff.mp h
    split at hif
    · next hle =>
      have hs := Text.splitAtLiteral?_suffix hif
      have := hs.length_le
      refine ⟨hs.trans ⟨opening, (Text.dropLiteral?_eq_some_iff.mp hd).symm⟩, ?_⟩
      simp only [List.length_cons]
      omega
    · cases hif

/-- Finds texts between two literals. -/
def betweenScanner (opening closing : Text) : Scanner Text where
  read := readBetween? opening closing
  shorter h := (readBetween?_suffix h).2
  suffix h := (readBetween?_suffix h).1

/-- The style element with its content as a template literal in braces. CDATA sections in it
are opened.
-/
def StyleElement.jsx (e : StyleElement) : Text :=
  let css := Text.trim ((betweenScanner "<![CDATA[" "]]>").replace id e.content)
  e.opening ++ '\x7b' :: templateLiteral css ++ '\x7d' :: e.closing

/-- A comment in braces. An end of comment inside it is spaced out. -/
def jsxComment (body : Text) : Text :=
  let safe := body.foldr spaceEnd []
  "\x7b/*" ++ safe ++ "*/\x7d"
where
  spaceEnd (c : Char) (rest : Text) : Text :=
    if c = '*' && rest.head? = some '/' then '*' :: ' ' :: rest else c :: rest

/-- SVG markup as JSX: attributes first, then style elements, then comments. -/
def jsxMarkup (markup : Text) : Text :=
  let rewritten := Markup.rewriteAttributes jsxAttribute markup
  let styled := styleScanner.replace StyleElement.jsx rewritten
  (betweenScanner "<!--" "-->").replace jsxComment styled

end SvgKit.Component
