import SvgKit.Markup.CamelCase

/-! Names of components: derived from file names, and turned into custom element names. -/

namespace SvgKit.Component

/-- The part of a path behind its last slash. -/
def baseName (path : Text) : Text := (path.reverse.takeWhile (· != '/')).reverse

/-- A file name without its extension: the last dot and what follows it, if anything does. -/
def stem (name : Text) : Text :=
  let extension := (name.reverse.takeWhile (· != '.')).reverse
  if extension.isEmpty || extension.length = name.length then name
  else name.take (name.length - extension.length - 1)

/-- A character that separates the words of a file name. -/
def isSeparator (c : Char) : Bool := c == '-' || c == '_' || Text.isBlank c

/-- The words of a file name joined, every word behind a separator with its first character in
capitals.
-/
def joinWords (name : Text) : Text :=
  match Text.splitOnChar isSeparator name with
  | [] => []
  | first :: rest => first ++ rest.flatMap Markup.capitalize

/-- The name of a component made from a file name. It begins with a capital letter: a name
without a letter in front gets `Icon` before it.
-/
def nameOfFile (path : Text) : Text :=
  match Markup.capitalize ((joinWords (stem (baseName path))).filter Char.isAlphanum) with
  | [] => "Icon"
  | c :: name => if c.isAlpha then c :: name else "Icon" ++ (c :: name)

/-- A hyphen goes between a small letter or digit and a capital. -/
def hyphenAfterSmall (s : Text) : Text :=
  s.foldr step []
where
  step (c : Char) (rest : Text) : Text :=
    match rest with
    | d :: _ => if (c.isLower || c.isDigit) && d.isUpper then c :: '-' :: rest else c :: rest
    | [] => [c]

/-- A hyphen goes between a capital and a capital that a small letter follows. -/
def hyphenBeforeWord (s : Text) : Text :=
  s.foldr step []
where
  step (c : Char) (rest : Text) : Text :=
    match rest with
    | d :: e :: _ => if c.isUpper && d.isUpper && e.isLower then c :: '-' :: rest else c :: rest
    | _ => c :: rest

/-- A name of words with capitals in small letters with hyphens. -/
def kebabCase (name : Text) : Text := Text.lower (hyphenBeforeWord (hyphenAfterSmall name))

/-- The custom element name of a component, which has a hyphen at least. -/
def elementName (name : Text) : Text :=
  let kebab := kebabCase name
  if kebab.contains '-' then kebab else "svg-" ++ kebab

end SvgKit.Component
