import SvgKit.Component.Registry
import SvgKit.Proofs.Component.RootAttributes
import SvgKit.Proofs.Component.TemplateLiteral
import SvgKit.Proofs.Text.Members

/-! The constants of a custom element: its script declares the attributes of the root and the
content in template literals, and these stand for the texts that they were written from.
-/

namespace SvgKit.Component

open Markup (Attribute)

-----------------------------------------------------------------------------------------
-- Lines
-----------------------------------------------------------------------------------------

theorem mayEscape_of_mem_lineEnds {c : Char} (h : Text.lineEnds.contains c)
    : mayEscape c = false ∧ c ≠ '\x7b' := by
  have hall : Text.lineEnds.all fun c => !mayEscape c && c != '\x7b' := by
    with_unfolding_all decide
  simpa using List.all_eq_true.mp hall c (List.contains_iff_mem.mp h)

/-- Markup is escaped line by line. -/
theorem indentedLines_escapeTemplate {margin : Text} (hmargin : ∀ c ∈ margin, mayEscape c = false)
    (markup : Text)
    : indentedLines margin (escapeTemplate markup)
      = (indentedLines margin markup).map escapeTemplate := by
  have htrim : Text.trim ∘ escapeTemplate = escapeTemplate ∘ Text.trim :=
    funext trim_escapeTemplate
  have hempty : (fun line => !line.isEmpty) ∘ escapeTemplate = fun line => !line.isEmpty :=
    funext fun line => congrArg not (isEmpty_escapeTemplate line)
  have hfront : (margin ++ ·) ∘ escapeTemplate = escapeTemplate ∘ (margin ++ ·) :=
    funext fun line => (escapeTemplate_append_left hmargin line).symm
  unfold indentedLines Text.lines
  dsimp only
  rw [trim_escapeTemplate, splitOnChar_escapeTemplate fun _ => mayEscape_of_mem_lineEnds,
    List.map_map, htrim, ← List.map_map, List.filter_map, hempty, List.map_map, hfront,
    List.map_map]

theorem not_mem_of_mem_indentedLines {margin : Text} (hmargin : '\r' ∉ margin) (markup : Text)
    : ∀ line ∈ indentedLines margin markup, '\r' ∉ line := by
  intro line hline
  obtain ⟨trimmed, htrimmed, rfl⟩ := List.mem_map.mp hline
  obtain ⟨whole, hwhole, rfl⟩ := List.mem_map.mp (List.mem_filter.mp htrimmed).1
  intro hmem
  rcases List.mem_append.mp hmem with hmem | hmem
  · exact hmargin hmem
  · have := Text.eq_false_of_mem_splitOnChar hwhole (Text.mem_of_mem_trim hmem)
    exact absurd this (by decide)

-----------------------------------------------------------------------------------------
-- Constants
-----------------------------------------------------------------------------------------

/-- A constant of a script that is declared as a template literal, and what follows its declaration
and an empty line.
-/
def declaration (name literal rest : Text) : Text :=
  "const " ++ name ++ " = \x60" ++ (literal ++ '\x60' :: (";\n\n" ++ rest))

/-- The units of a constant of a script, and what follows its declaration and an empty line. -/
def readConstant? (name s : Text) : Option (List Nat × Text) :=
  (Text.dropLiteral? ("const " ++ name ++ " = \x60") s).bind fun inner =>
    (readTemplate? inner).bind fun found =>
      (Text.dropLiteral? ";\n\n" found.2).map fun rest => (found.1, rest)

theorem readConstant?_escapeTemplate {s : Text} (hs : '\r' ∉ s) (name rest : Text)
    : readConstant? name (declaration name (escapeTemplate s) rest) = some (s.units, rest) := by
  rw [readConstant?, declaration, Text.dropLiteral?_eq_some_iff.mpr rfl, Option.bind_some,
    readTemplate?_escapeTemplate hs, Option.bind_some, Text.dropLiteral?_eq_some_iff.mpr rfl]
  rfl

/-- The content of the root on lines of its own, unless there is nothing but blanks in it. -/
def contentMarkup (c : Context) : Text :=
  let markup := indent "  " c.content
  if markup.isEmpty then [] else '\n' :: (markup ++ ['\n'])

theorem not_mem_contentMarkup (c : Context) : '\r' ∉ contentMarkup c := by
  have hmargin : '\r' ∉ ("  " : Text) := by with_unfolding_all decide
  have hlines := not_mem_of_mem_indentedLines hmargin c.content
  unfold contentMarkup
  dsimp only
  split
  · exact List.not_mem_nil
  · intro hmem
    simp only [List.mem_cons, List.mem_append, List.not_mem_nil, or_false,
      Char.reduceEq, false_or] at hmem
    rcases Text.mem_join hmem with hmem | ⟨line, hline, hmem⟩
    · exact absurd hmem (by decide)
    · exact hlines line hline hmem

theorem rewrite_plainClass (a : Attribute) (tag : Text)
    : a.rewrite plainClass tag
      = ⟨if a.name = ("className" : Text) then "class" else a.name, a.value⟩ := by
  obtain ⟨name, value⟩ := a
  cases value <;> rfl

theorem not_mem_rewrittenAttributes {c : Context} {attributes : List Attribute}
    (hc : c.attributes = attributes.map .ofAttribute) (hends : ∀ a ∈ attributes, a.EndsBefore [])
    (hattributes : ∀ a ∈ c.attributes, '\r' ∉ a.raw)
    : '\r' ∉ c.rewrittenAttributes plainClass := by
  rw [Context.rewrittenAttributes_eq hc hends]
  intro hmem
  obtain ⟨a, ha, hmem⟩ := List.mem_flatMap.mp hmem
  have hraw : '\r' ∉ a.text := hattributes (.ofAttribute a) (hc ▸ List.mem_map_of_mem ha)
  have hclass : '\r' ∉ ("class" : Text) := by with_unfolding_all decide
  obtain ⟨assigned, htext⟩ := a.exists_text
  rw [show a.text = a.name ++ assigned from htext a.name, List.mem_append, not_or] at hraw
  rw [rewrite_plainClass, htext, List.mem_cons, List.mem_append] at hmem
  rcases hmem with hmem | hmem | hmem
  · cases hmem
  · split at hmem
    · exact hclass hmem
    · exact hraw.1 hmem
  · exact hraw.2 hmem

namespace WebComponent

/-- The script up to its constants, and the declaration of the default sizes. -/
def preamble (c : Context) : List Text :=
  description c ++ attributesInterface c ++ (constants c).take 2

/-- The script behind its constants. -/
def classLines (c : Context) : List Text :=
  escaping c ++ classStart c ++ accessors c "width" ++ accessors c "height"
    ++ callback c "connectedCallback" ++ callback c "attributeChangedCallback"
    ++ reflection c ++ rendering c ++ registration c ++ [c.exportLine, []]

theorem join_content (c : Context)
    : Text.join ['\n'] (content c ++ classLines c)
      = declaration "SVG_CONTENT" (escapeTemplate (contentMarkup c))
          (Text.join ['\n'] (classLines c)) := by
  have hmargin : ∀ d ∈ ("  " : Text), mayEscape d = false := by
    simpa using (by with_unfolding_all decide : ("  " : Text).all fun d => !mayEscape d)
  have hclass : classLines c ≠ [] := by simp [classLines]
  unfold content contentMarkup indent
  rw [indentedLines_escapeTemplate hmargin]
  cases hlines : indentedLines "  " c.content with
  | nil =>
      dsimp only
      rw [List.map_nil, List.isEmpty_nil, if_pos rfl,
        Text.join_append (List.cons_ne_nil _ _) hclass]
      simp [declaration, escapeTemplate, Text.join, Text.ofString]
  | cons line lines =>
      have hline : line ≠ [] := by
        have hmem : line ∈ indentedLines "  " c.content := hlines ▸ List.mem_cons_self
        obtain ⟨trimmed, -, rfl⟩ := List.mem_map.mp hmem
        simp [Text.ofString]
      have hmarkup : Text.join ['\n'] (line :: lines) ≠ [] := by
        by_cases hnil : lines = []
        · simpa [hnil, Text.join_singleton] using hline
        · rw [Text.join_cons _ _ hnil]
          simp
      have hescaped : escapeTemplate ('\n' :: (Text.join ['\n'] (line :: lines) ++ ['\n']))
          = '\n' :: (Text.join ['\n'] ((line :: lines).map escapeTemplate) ++ ['\n']) := by
        rw [escapeTemplate_cons, step_eq_cons (by decide), escapeTemplate_append _ (by decide),
          escapeTemplate_join]
        rfl
      dsimp only
      rw [if_neg (by simp), if_neg (by simpa using hmarkup), hescaped, List.append_assoc,
        List.append_assoc, Text.join_append (List.cons_ne_nil _ _) (by simp),
        Text.join_append (by simp) (by simp), Text.join_append (List.cons_ne_nil _ _) hclass]
      simp [declaration, Text.join, Text.ofString]

theorem code_source (c : Context)
    : (source c).code
      = Text.join ['\n'] (preamble c) ++ '\n' ::
        declaration "SVG_ATTRIBUTES" (escapeTemplate (c.rewrittenAttributes plainClass))
          (declaration "SVG_CONTENT" (escapeTemplate (contentMarkup c))
            (Text.join ['\n'] (classLines c))) := by
  have hlines : (source c).code
      = Text.join ['\n'] (preamble c ++ ((constants c).drop 2 ++ (content c ++ classLines c))) := by
    rw [preamble, List.append_assoc, ← List.append_assoc ((constants c).take 2),
      List.take_append_drop]
    simp [source, classLines]
  have hclass : content c ++ classLines c ≠ [] := by simp [classLines]
  rw [hlines, Text.join_append (by simp [preamble, description]) (by simp [hclass]),
    Text.join_append (by simp [constants]) hclass, join_content]
  simp [constants, declaration, Text.ofString, Text.join]

end WebComponent

/-- A component that can be generated from a text is generated as a custom element, and behind the
preamble of its script the attributes of the root and the content are declared. The literals of both
end at their closing backquotes and hold no substitutions; they stand for the attributes as they are
written into plain markup, and for the content on lines of its own.
-/
theorem readConstants_of_generate {svg filename : Text} {options : Options} {c : Context}
    (h : Context.ofSvg svg filename options = .ok c)
    (hattributes : ∀ a ∈ c.attributes, '\r' ∉ a.raw)
    : ∃ source declarations behind rest,
        generate Framework.webComponent.name svg filename options = .ok source
        ∧ source.code
          = Text.join ['\n'] (WebComponent.preamble c) ++ '\n' :: declarations
        ∧ readConstant? "SVG_ATTRIBUTES" declarations
          = some ((c.rewrittenAttributes plainClass).units, behind)
        ∧ readConstant? "SVG_CONTENT" behind = some ((contentMarkup c).units, rest) := by
  obtain ⟨attributes, blanks, behind, -, -, hread, hc⟩ := exists_areRead_of_ofSvg h
  have hends := endsBefore_of_mem_keptAttributes hread
  refine ⟨WebComponent.source c, _, _, _, ?_, WebComponent.code_source c,
    readConstant?_escapeTemplate (not_mem_rewrittenAttributes hc hends hattributes) _ _,
    readConstant?_escapeTemplate (not_mem_contentMarkup c) _ _⟩
  have hentry : ∃ description,
      Registry.standard.get Framework.webComponent.name = .ok ⟨.webComponent, description⟩ :=
    ⟨_, by with_unfolding_all rfl⟩
  obtain ⟨description, hentry⟩ := hentry
  rw [generate, hentry, h]
  rfl

/-- A root with everything that is escaped and much that is not, with line ends of several kinds. -/
private def sampleMarkup : Text :=
  "<svg id='\\' className=\"\x60$\x7ba\x7d\" d=$\\$\x7b xmlns=u>\r\n"
    ++ "  <style>a:after\x7bcontent:\"\\201C\"\x7d\r\t$$\x7b\\\x60$ \x7b\\\u2028</style>\n\n \\ </svg>"

private def sampleAttributes : Text := " id='\\' class=\"\x60$\x7ba\x7d\" d=$\\$\x7b"

private def sampleContent : Text :=
  "\n  <style>a:after\x7bcontent:\"\\201C\"\x7d\n  $$\x7b\\\x60$ \x7b\\\n  </style>\n  \\\n"

theorem readConstants_of_generate_sampleMarkup
    : ∃ c source declarations behind rest, Context.ofSvg sampleMarkup "a.svg" {} = .ok c
      ∧ (∀ a ∈ c.attributes, '\r' ∉ a.raw)
      ∧ generate Framework.webComponent.name sampleMarkup "a.svg" {} = .ok source
      ∧ source.code = Text.join ['\n'] (WebComponent.preamble c) ++ '\n' :: declarations
      ∧ readConstant? "SVG_ATTRIBUTES" declarations = some (sampleAttributes.units, behind)
      ∧ readConstant? "SVG_CONTENT" behind = some (sampleContent.units, rest) := by
  have hsample : (Context.ofSvg sampleMarkup "a.svg" {}).toOption.any fun c =>
      (∀ a ∈ c.attributes, '\r' ∉ a.raw) ∧ c.rewrittenAttributes plainClass = sampleAttributes
        ∧ contentMarkup c = sampleContent := by
    decide +kernel
  cases hc : Context.ofSvg sampleMarkup "a.svg" {} with
  | error failure =>
      rw [hc] at hsample
      cases hsample
  | ok c =>
      rw [hc] at hsample
      obtain ⟨hattributes, hplain, hcontent⟩ := of_decide_eq_true hsample
      obtain ⟨source, declarations, behind, rest, hgenerate, hcode, hfirst, hsecond⟩ :=
        readConstants_of_generate hc hattributes
      rw [hplain] at hfirst
      rw [hcontent] at hsecond
      exact ⟨c, source, declarations, behind, rest, rfl, hattributes, hgenerate, hcode, hfirst,
        hsecond⟩

end SvgKit.Component
