import SvgKit.Proofs.Component.JsxMarkup
import SvgKit.Proofs.Optimize.Run

/-! Where a generated component opens expressions. Every opening in the character data of a drawing is
written into the component as it stands, beside those of the frame and of the marks; nothing escapes
it.
-/

namespace SvgKit.Component

open Optimize (toOption_eq_some_iff)
open Text (occurrences)

/-- What opens an expression in the markup of a framework. -/
def opening : Framework → Text
  | .vue => ['\x7b', '\x7b']
  | _ => ['\x7b']

/-- Content as markup of a framework. -/
def markup : Framework → Text → Text
  | .react => jsxMarkup
  | _ => id

/-- A mark as it is written into the markup of a framework. -/
def Mark.markup : Framework → Mark → Text
  | .react => Mark.jsx
  | _ => Mark.text

/-- What stands in front of the lines of content in the source of a framework. -/
def margin : Framework → Text
  | .react => "      "
  | .vue => "    "
  | _ => "  "

theorem opening_ne_nil (framework : Framework) : opening framework ≠ [] := by
  cases framework <;> simp [opening]

theorem eq_of_mem_opening {framework : Framework} : ∀ c ∈ opening framework, c = '\x7b' := by
  cases framework <;> simp [opening]

-----------------------------------------------------------------------------------------
-- Lines
-----------------------------------------------------------------------------------------

section Lines

variable {literal : Text} (hne : literal ≠ []) (hbraces : ∀ c ∈ literal, c = '\x7b')
include hne hbraces

/-- The lines of markup hold the openings that the markup holds. -/
theorem occurrences_indentedLines {margin : Text} (hmargin : '\x7b' ∉ margin) (s : Text)
    : ((indentedLines margin s).map (occurrences literal)).sum = occurrences literal s := by
  have hother {c : Char} (hc : c ≠ '\x7b') : c ∉ literal := fun h => hc (hbraces c h)
  have hblank : ∀ c ∈ literal, Text.isBlank c = false := fun c hc => by
    rw [hbraces c hc]
    with_unfolding_all decide
  have hends : ∀ c, Text.lineEnds.contains c → c ∉ literal := fun c hc => hother (by
    rintro rfl
    revert hc
    decide)
  have hline (line : Text) : occurrences literal (margin ++ line) = occurrences literal line :=
    Text.occurrences_append_left hne (fun c hc => hother (by rintro rfl; exact hmargin hc)) line
  have hfilter (lines : List Text)
      : ((lines.filter (!·.isEmpty)).map (occurrences literal)).sum
        = (lines.map (occurrences literal)).sum := by
    induction lines with
    | nil => rfl
    | cons line lines ih =>
        cases line with
        | nil => simpa [occurrences] using ih
        | cons c line => simp [ih]
  rw [indentedLines, List.map_map]
  refine (congrArg List.sum (List.map_congr_left fun line _ => hline line)).trans ?_
  rw [hfilter]
  rw [List.map_map, ← Text.occurrences_trim hne hblank s,
    ← Text.occurrences_splitOnChar hne hends (Text.trim s)]
  exact congrArg List.sum (List.map_congr_left fun line _ => Text.occurrences_trim hne hblank line)

end Lines

-----------------------------------------------------------------------------------------
-- Sources
-----------------------------------------------------------------------------------------

/-- The source of a component is a frame of lines around the lines of its content. -/
theorem exists_frame {framework : Framework} (hframework : framework ≠ .webComponent) (c : Context)
    : ∃ before behind, behind ≠ [] ∧ ∀ content,
      (({ c with content } : Context).source framework).code
        = Text.join ['\n'] (before
            ++ indentedLines (margin framework) (markup framework content) ++ behind) := by
  cases framework with
  | react =>
      refine ⟨React.imports c.options ++ React.propsInterface c ++ [React.functionHead c]
        ++ React.elementStart c, React.elementEnd c ++ [c.exportLine, []], by simp,
        fun content => ?_⟩
      rw [← List.append_assoc]
      rfl
  | vue =>
      refine ⟨Vue.templateStart c,
        Vue.scriptStart c ++ Vue.propsInterface c ++ Vue.definition c, by simp [Vue.scriptStart],
        fun content => ?_⟩
      rw [← List.append_assoc, ← List.append_assoc]
      rfl
  | svelte =>
      exact ⟨Svelte.scriptStart c ++ Svelte.propsInterface c ++ Svelte.element c,
        ["</svg>", ""], by simp, fun content => rfl⟩
  | webComponent => exact absurd rfl hframework

/-- The source of a component holds the openings of its frame and those of its content. -/
theorem occurrences_source {framework : Framework} (hframework : framework ≠ .webComponent) (c : Context)
    : occurrences (opening framework) (c.source framework).code
      = occurrences (opening framework) (({ c with content := [] } : Context).source framework).code
        + occurrences (opening framework) (markup framework c.content) := by
  obtain ⟨before, behind, -, hsource⟩ := exists_frame hframework c
  have hmargin : '\x7b' ∉ margin framework := by
    cases framework <;> with_unfolding_all decide
  have hline : '\n' ∉ opening framework := fun h => absurd (eq_of_mem_opening _ h) (by decide)
  have hlines := occurrences_indentedLines (opening_ne_nil framework) eq_of_mem_opening hmargin
  have hempty : markup framework [] = [] := by
    cases framework with
    | react => simp [markup, jsxMarkup, Markup.rewriteAttributes]
    | vue | svelte | webComponent => rfl
  have hc := hsource c.content
  have hframe := hsource []
  rw [hempty] at hframe
  rw [show c.source framework = ({ c with content := c.content } : Context).source framework from rfl,
    hc, hframe, Text.occurrences_join (opening_ne_nil _) hline,
    Text.occurrences_join (opening_ne_nil _) hline]
  simp only [List.map_append, List.sum_append, hlines]
  simp only [occurrences]
  omega

-----------------------------------------------------------------------------------------
-- Marks
-----------------------------------------------------------------------------------------

theorem markup_eq {framework : Framework} {content : Text}
    (h : framework = .react → IsRegular content)
    : markup framework content = marks.replace (Mark.markup framework) content := by
  cases framework with
  | react => exact jsxMarkup_eq (h rfl)
  | vue | svelte | webComponent => exact (replace_text content).symm

/-- Openings do not reach over the ends of marks. -/
theorem separates_markup {framework : Framework} {mark : Mark} {s rest : Text}
    (h : readMark? s = some (mark, rest))
    : Separates (opening framework) (Mark.markup framework) mark := by
  have htext := separates_text (opening_ne_nil framework) eq_of_mem_opening h
  cases framework with
  | react =>
      by_cases hdata : ∃ body, mark = .item (.data body)
      · obtain ⟨body, rfl⟩ := hdata
        exact htext
      · have hempty := Mark.data_eq_nil hdata
        intro before behind
        rw [hempty.1, hempty.2]
        simp only [opening, Text.occurrences_append_of_singleton, occurrences]
        omega
  | vue | svelte | webComponent => exact htext

/-- Every opening in the character data of a content is written into the component, beside those of the
frame and of the marks: for Svelte and Vue whatever the content, for React where no mark hides
another one.
-/
theorem occurrences_code_of_generate {framework : Framework} (hframework : framework ≠ .webComponent)
    {svg filename : Text} {options : Options} {source : Source}
    (hgenerate : generate framework.name svg filename options = .ok source)
    : ∃ context, Context.ofSvg svg filename options = .ok context
      ∧ ((framework = .react → IsRegular context.content) →
        occurrences (opening framework) source.code
          = occurrences (opening framework)
              (({ context with content := [] } : Context).source framework).code
            + (occurrences (opening framework) (characterData context.content)
              + ((marks.findAll context.content).map fun mark =>
                  occurrences (opening framework) (mark.emptied.markup framework)).sum)) := by
  obtain ⟨description, hentry⟩ : ∃ description,
      Registry.standard.get framework.name = .ok ⟨framework, description⟩ := by
    cases framework <;> exact ⟨_, by with_unfolding_all rfl⟩
  unfold generate at hgenerate
  rw [hentry] at hgenerate
  cases hcontext : Context.ofSvg svg filename options with
  | error failure =>
      rw [hcontext] at hgenerate
      cases hgenerate
  | ok context =>
      rw [hcontext] at hgenerate
      cases hgenerate
      refine ⟨context, rfl, fun hregular => ?_⟩
      have hseparates : ∀ mark ∈ marks.findAll context.content,
          Separates (opening framework) (Mark.markup framework) mark := fun mark hmark => by
        obtain ⟨s, rest, hread⟩ := marks.exists_read_of_mem_findAll hmark
        exact separates_markup hread
      rw [occurrences_source hframework, markup_eq hregular,
        occurrences_replace (opening_ne_nil framework) eq_of_mem_opening hseparates]

/-- Character data with an opening, beside a style sheet and a comment with others. -/
private def sampleText : Text :=
  "<svg><style>a\x7bb:c\x7d</style><!-- \x7b --><text x-y='1'>\x7bx\x7d</text></svg>"

theorem occurrences_code_of_generate_sampleText
    : ∃ source context, generate "react" sampleText "a.svg" {} = .ok source
      ∧ Context.ofSvg sampleText "a.svg" {} = .ok context ∧ IsRegular context.content
      ∧ occurrences ['\x7b'] (characterData context.content) = 1
      ∧ occurrences ['\x7b'] source.code
        = occurrences ['\x7b'] (({ context with content := [] } : Context).source .react).code
          + (1 + 4) := by
  have hgenerate : (generate "react" sampleText "a.svg" {}).toOption.isSome := by decide +kernel
  have hcontext : ∀ context ∈ (Context.ofSvg sampleText "a.svg" {}).toOption,
      IsRegular context.content ∧ occurrences ['\x7b'] (characterData context.content) = 1
        ∧ ((marks.findAll context.content).map fun mark =>
            occurrences ['\x7b'] (mark.emptied.markup .react)).sum = 4 := by
    decide +kernel
  obtain ⟨source, hsource⟩ := Option.isSome_iff_exists.mp hgenerate
  rw [toOption_eq_some_iff] at hsource
  have hreact : Framework.react ≠ .webComponent := by decide
  obtain ⟨context, hofSvg, hopenings⟩ := occurrences_code_of_generate hreact hsource
  obtain ⟨hregular, hdata, hmarks⟩ := hcontext context (toOption_eq_some_iff.mpr hofSvg)
  have hopening : opening .react = ['\x7b'] := rfl
  have hopenings := hopenings fun _ => hregular
  rw [hopening, hdata, hmarks] at hopenings
  exact ⟨source, context, hsource, hofSvg, hregular, hdata, hopenings⟩

/-- Text that is taken for an expression by every framework. -/
theorem generate_unescapedText
    : ([.react, .vue, .svelte] : List Framework).Forall fun framework =>
      ∃ source, generate framework.name "<svg><text>\x7b\x7bx\x7d\x7d</text></svg>" "a.svg" {} = .ok source
        ∧ Text.hasLiteral "<text>\x7b\x7bx\x7d\x7d</text>" source.code := by
  have hall : ∀ framework ∈ ([.react, .vue, .svelte] : List Framework),
      (generate framework.name "<svg><text>\x7b\x7bx\x7d\x7d</text></svg>" "a.svg" {}).toOption.any
        fun source => Text.hasLiteral "<text>\x7b\x7bx\x7d\x7d</text>" source.code := by
    decide +kernel
  refine List.forall_iff_forall_mem.mpr fun framework hframework => ?_
  obtain ⟨source, hsource, hliteral⟩ := (Option.any_eq_true _ _).mp (hall framework hframework)
  exact ⟨source, toOption_eq_some_iff.mp hsource, hliteral⟩

end SvgKit.Component
