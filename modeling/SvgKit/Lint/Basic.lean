import SvgKit.Markup.Attribute
import SvgKit.Text.Case
import SvgKit.Text.Word

/-! Lint checks on the text of an SVG document: accessibility, good practice, deprecated
elements and compatibility. They look for patterns and read no XML, so that a document which
is not well formed can be checked too.
-/

namespace SvgKit.Lint

/-- How serious an issue is. -/
inductive Severity where
  | error
  | warning
  | info
  deriving Repr, DecidableEq

/-- The name of a severity. -/
def Severity.name : Severity → Text
  | .error => "error"
  | .warning => "warning"
  | .info => "info"

/-- An issue found in a document. -/
structure Issue where
  severity : Severity
  code : Text
  message : Text
  suggestion : Option Text
  deriving Repr, DecidableEq

/-- The issues of a document, in the order of the checks. -/
structure Report where
  issues : List Issue
  deriving Repr, DecidableEq

/-- The number of issues of a severity. -/
def Report.count (r : Report) (severity : Severity) : Nat :=
  r.issues.countP (·.severity = severity)

/-- A document is valid when no issue is an error. -/
def Report.valid (r : Report) : Bool := r.count .error == 0

-----------------------------------------------------------------------------------------
-- Patterns
-----------------------------------------------------------------------------------------

/-- A `>` stands somewhere behind the first occurrence of the opening. -/
def hasTag (opening s : Text) : Bool :=
  match Text.splitAtLiteral? opening s with
  | some (_, rest) => rest.contains '>'
  | none => false

/-- An occurrence of `<svg` at the head of the text with the attribute before the next `>`. -/
def rootHasAttribute (name s : Text) : Bool :=
  match Text.dropLiteral? "<svg" s with
  | some rest => Text.hasLiteral name (rest.takeWhile (· != '>'))
  | none => false

/-- Some occurrence of `<svg` has the attribute before the next `>`. -/
def hasRootAttribute (name s : Text) : Bool := Text.anyEnd (rootHasAttribute name) s

/-- A tag of the element, ended by a blank or `>`, begins at the head of the text. -/
def opensTag (name : Text) : Text → Bool
  | '<' :: s =>
    match Text.dropFolded? (name.map Char.toLower) s with
    | some (c :: _) => Text.isBlank c || c == '>'
    | _ => false
  | _ => false

/-- A tag of the element begins somewhere in the text. -/
def mentions (name s : Text) : Bool := Text.anyEnd (opensTag name) s

/-- A quote of either kind. -/
def isQuote (c : Char) : Bool := c == '"' || c == '\''

/-- What follows an equals sign and an opening quote. -/
def afterOpeningQuote? (s : Text) : Option Text :=
  match Markup.readEquals? s with
  | some (_, quote :: rest) => if isQuote quote then some rest else none
  | _ => none

/-- Text without quotes and then a quote stand at the head of the text; the text must not be
empty when `some` is asked for.
-/
def closesQuote (needsText : Bool) (s : Text) : Bool :=
  (s.dropWhile (!isQuote ·)).isEmpty == false && !(needsText && (s.head?.any isQuote))

/-- A `style` attribute with a value begins at the head of the text. -/
def styleHere (s : Text) : Bool :=
  match (Text.dropLiteral? "style" s).bind afterOpeningQuote? with
  | some rest => closesQuote true rest
  | none => false

/-- An event handler attribute begins at the head of the text. -/
def handlerHere (s : Text) : Bool :=
  match Text.dropFolded? "on" s with
  | some rest =>
    match rest with
    | [] => false
    | c :: _ =>
      Text.isWord c &&
        match afterOpeningQuote? (rest.dropWhile Text.isWord) with
        | some value => closesQuote false value
        | none => false
  | none => false

/-- The condition holds at a place that no word character stands before. -/
def anyWordStart (p : Text → Bool) (afterWord : Bool) : Text → Bool
  | [] => false
  | c :: s => !afterWord && p (c :: s) || anyWordStart p (Text.isWord c) s

/-- An external reference begins at the head of the text. -/
def externalHere (s : Text) : Bool :=
  match (Text.dropFolded? "xlink:href" s).bind afterOpeningQuote? with
  | some value =>
    match Text.dropFolded? "http" value with
    | some rest =>
      (Text.dropFolded? "://" rest).isSome || (Text.dropFolded? "s://" rest).isSome
    | none => false
  | none => false

/-- The spellings of black and white. -/
def plainColors : List Text := ["#000", "#000000", "#fff", "#ffffff"]

/-- A fill with black or white begins at the head of the text. -/
def colorHere (s : Text) : Bool :=
  match (Text.dropFolded? "fill" s).bind afterOpeningQuote? with
  | some value =>
    plainColors.any fun color =>
      match Text.dropFolded? color value with
      | some (quote :: _) => isQuote quote
      | _ => false
  | none => false

-----------------------------------------------------------------------------------------
-- Checks
-----------------------------------------------------------------------------------------

/-- The issue, when the condition holds. -/
def Issue.when (condition : Bool) (issue : Issue) : List Issue :=
  if condition then [issue] else []

/-- The accessibility checks. A label attribute includes one that refers to a label. -/
def accessibility (s : Text) : List Issue :=
  let untitled := !hasTag "<title" s
  Issue.when untitled
    ⟨.warning, "MISSING_TITLE", "SVG is missing a <title> element",
      some "Add a <title> element for screen readers, e.g. <title>Icon description</title>"⟩
  ++ Issue.when (!hasTag "<desc" s)
    ⟨.info, "MISSING_DESC", "SVG is missing a <desc> element",
      some "Consider adding a <desc> element for a longer description of the SVG content"⟩
  ++ Issue.when (!hasRootAttribute "role=" s)
    ⟨.info, "MISSING_ROLE", "SVG is missing a role attribute",
      some "Add role=\"img\" for images or role=\"graphics-document\" for complex graphics"⟩
  ++ Issue.when (untitled && !hasRootAttribute "aria-label" s)
    ⟨.warning, "NO_ACCESSIBLE_NAME", "SVG has no accessible name",
      some "Add aria-label, aria-labelledby, or a <title> element"⟩

/-- The checks of good practice. -/
def bestPractices (s : Text) : List Issue :=
  Issue.when (Text.anyEnd styleHere s)
    ⟨.warning, "INLINE_STYLES", "SVG contains inline styles",
      some "Prefer CSS classes or presentation attributes over inline styles"⟩
  ++ Issue.when (mentions "style" s)
    ⟨.info, "EMBEDDED_STYLES", "SVG contains embedded <style> element",
      some "Embedded styles increase file size; extract them to external CSS if reused"⟩
  ++ Issue.when (hasTag "<script" s)
    ⟨.error, "SCRIPT_ELEMENT", "SVG contains <script> element",
      some "Remove script elements; SVG scripts can execute JavaScript"⟩
  ++ Issue.when (anyWordStart handlerHere false s)
    ⟨.error, "EVENT_HANDLERS", "SVG contains inline event handlers",
      some "Remove inline event handlers (onclick, onload, etc.)"⟩
  ++ Issue.when (Text.anyEnd externalHere s)
    ⟨.warning, "EXTERNAL_REFERENCE", "SVG contains external resource references",
      some "External references may not load in all contexts and can be a security concern"⟩
  ++ Issue.when (hasTag "<svg" s && !hasRootAttribute "viewBox" s)
    ⟨.warning, "MISSING_VIEWBOX", "SVG is missing viewBox attribute",
      some "Add a viewBox for proper scaling, e.g. viewBox=\"0 0 24 24\""⟩
  ++ Issue.when (Text.anyEnd colorHere s)
    ⟨.info, "HARDCODED_COLORS", "SVG contains hardcoded black/white colors",
      some "Consider fill=\"currentColor\" for better theme compatibility"⟩

/-- The deprecated elements and what to use in their place. -/
def deprecatedElements : List (Text × Option Text) :=
  [("altGlyph", some "text"), ("altGlyphDef", none), ("altGlyphItem", none),
    ("animateColor", some "animate"), ("cursor", some "CSS cursor"),
    ("font", some "CSS @font-face"), ("font-face", some "CSS @font-face"),
    ("font-face-format", some "CSS @font-face"), ("font-face-name", some "CSS @font-face"),
    ("font-face-src", some "CSS @font-face"), ("font-face-uri", some "CSS @font-face"),
    ("glyph", none), ("glyphRef", none), ("hkern", none), ("missing-glyph", none),
    ("tref", some "text"), ("vkern", none)]

/-- The issue of a deprecated element. -/
def deprecatedIssue (name : Text) (replacement : Option Text) : Issue :=
  ⟨.warning, "DEPRECATED_ELEMENT", "SVG contains deprecated <" ++ name ++ "> element",
    some (match replacement with
      | some other => "Use <" ++ other ++ "> instead"
      | none => "Remove deprecated <" ++ name ++ "> element")⟩

/-- The check for deprecated elements. -/
def deprecations (s : Text) : List Issue :=
  (deprecatedElements.filter fun entry => mentions entry.1 s).map fun entry =>
    deprecatedIssue entry.1 entry.2

/-- The animation elements. -/
def animationElements : List Text := ["animate", "animateMotion", "animateTransform", "set"]

/-- The compatibility checks; only the first animation element found is named. -/
def compatibility (s : Text) : List Issue :=
  Issue.when (hasTag "<foreignObject" s)
    ⟨.info, "FOREIGN_OBJECT", "SVG uses <foreignObject> element",
      some "foreignObject may not render consistently across browsers and contexts"⟩
  ++ ((animationElements.find? (mentions · s)).toList.map fun name =>
    (⟨.info, "SMIL_ANIMATION", "SVG uses SMIL animation (<" ++ name ++ ">)",
      some "Consider CSS animations for broader support"⟩ : Issue))
  ++ Issue.when (hasTag "<filter" s)
    ⟨.info, "FILTER_EFFECTS", "SVG uses filter effects",
      some "SVG filters can impact rendering performance, especially on mobile devices"⟩

/-- The text claims to be SVG or XML. -/
def looksLikeSvg (s : Text) : Bool := Text.hasLiteral "<svg" s || Text.hasLiteral "<?xml" s

/-- The issues of a text without blanks at its ends. -/
def issues (s : Text) : List Issue :=
  if s.isEmpty then [⟨.error, "EMPTY_CONTENT", "SVG content is empty", none⟩]
  else if !looksLikeSvg s then
    [⟨.error, "NOT_SVG", "Content does not appear to be SVG", none⟩]
  else accessibility s ++ bestPractices s ++ deprecations s ++ compatibility s

/-- The report on the text of a document. -/
def check (content : Text) : Report := ⟨issues (Text.trim content)⟩

end SvgKit.Lint
