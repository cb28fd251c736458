import SvgKit.Component.Registry
import SvgKit.Proofs.Markup.Root
import SvgKit.Proofs.Optimize.Run
import SvgKit.Proofs.Optimize.Safety

/-! When a component can be generated from an optimized document: exactly if the element that is
taken for its root still has content.
-/

namespace SvgKit.Component

open Markup (Behind IsUnbroken Names Renamed drawnRoot?)
open Optimize (MayRename Request Result Says toOption_eq_some_iff)
open Xml (Element Head Spelling Tag)

-----------------------------------------------------------------------------------------
-- Names without blanks
-----------------------------------------------------------------------------------------

/-- The name holds no blank. -/
def IsPlainName (n : Spelling) : Prop := ∀ c ∈ n.text, Text.isBlank c = false

/-- No name that is written holds a blank. Of the characters of names, U+1680 counts as one. -/
def HasPlainNames (e : Element) : Prop :=
  ∀ h ∈ e.heads, IsPlainName h.tag.name ∧ ∀ a ∈ h.tag.given, IsPlainName a.1

instance (n : Spelling) : Decidable (IsPlainName n) :=
  decidable_of_iff (n.text.all (!Text.isBlank ·)) (by simp [IsPlainName])

instance (e : Element) : Decidable (HasPlainNames e) :=
  inferInstanceAs (Decidable (∀ h ∈ e.heads,
    IsPlainName h.tag.name ∧ ∀ a ∈ h.tag.given, IsPlainName a.1))

section Names

variable {n n' : Spelling} (hn : IsPlainName n)
include hn

theorem eq_of_behind (h : Behind n n') : n' = n := by
  cases h with
  | same => rfl
  | @blank space front c hc s s' =>
      have hmem : c ∈ (⟨space, front ++ c :: s⟩ : Spelling).text := by
        cases space <;> simp [Spelling.text]
      rw [hn c hmem] at hc
      cases hc

theorem isPlainName_of_renamed (h : Renamed n n') : IsPlainName n' := by
  cases h with
  | behind h => exact eq_of_behind hn h ▸ hn
  | first hkebab hword hafter =>
      intro c hc
      rcases List.mem_append.mp hc with hc | hc
      · exact (Markup.forall_mem_camelCase (Markup.not_mem_line hword) hkebab c hc).1
      · exact hn c (List.mem_append_right _ hc)

end Names

theorem names_of_says {capitals : Bool} {h : Head} {t : Tag} (hspell : Says capitals h t)
    (hsound : t.Sound)
    (hplain : IsPlainName h.tag.name ∧ ∀ a ∈ h.tag.given, IsPlainName a.1)
    : Names h t := by
  have hname : t.name = h.name.spelling := eq_of_behind hplain.1 hspell.name
  refine ⟨by rw [hname, Xml.Name.text_spelling], hsound, ?_, ?_⟩
  · rw [hname]
    exact hplain.1
  · intro a' ha'
    obtain ⟨a, ha, hrenamed, -⟩ := exists_mem_left_of_forall₂ hspell.given ha'
    exact isPlainName_of_renamed (hplain.2 a ha) hrenamed.renamed

-----------------------------------------------------------------------------------------
-- Generation
-----------------------------------------------------------------------------------------

theorem generate_eq_ok_iff {framework svg filename : Text} {options : Options}
    : (∃ source, generate framework svg filename options = .ok source)
      ↔ (∃ entry, Registry.standard.get framework = .ok entry)
        ∧ ∃ root, Markup.Root.ofText svg = .ok root := by
  unfold generate Context.ofSvg
  cases Registry.standard.get framework with
  | error failure => simp [bind, Except.bind]
  | ok entry =>
      cases Markup.Root.ofText svg with
      | error fault => simp [bind, Except.bind]
      | ok root => simp [bind, Except.bind, pure, Except.pure]

/-- A component that can be generated from a text can be generated from what the text is optimized
to if and only if the first element of the final tree that is written as `svg`, without a label
and in any case, has content. The names in the tree hold no blanks.
-/
theorem generate_of_run {framework filename : Text} {options : Options} {r : Request}
    {source : Source} {result : Result}
    (hgenerate : generate framework r.content filename options = .ok source)
    (hrun : Optimize.run r = .ok result)
    : ∃ f, Minify.finish true 3 r.checkedText = .ok f
      ∧ result.text = r.named f.text
      ∧ (HasPlainNames f.document.root
        → ((∃ again, generate framework result.text filename options = .ok again)
          ↔ ∃ p, drawnRoot? f.document.root = some p ∧ p.content ≠ [])) := by
  obtain ⟨-, f, hfinish, htext⟩ := Optimize.exists_finish_of_text hrun
  refine ⟨f, hfinish, htext, ?_⟩
  intro hplain
  obtain ⟨_, _, -, -, -, ⟨_, -, hf, -⟩, hwrite⟩ := Minify.exists_steps_of_finish hfinish
  obtain ⟨tagOf, hsoundTags, hspell, hwritten⟩ := Optimize.exists_says hf r.camelCase
  have hnames : ∀ h ∈ f.document.root.heads, Names h (tagOf h) := by
    intro h hh
    have hs := hf.tree.heads h (Element.heads_eq _ ▸ hh)
    exact names_of_says (hspell h (hs.tag hf.ledger)) (hsoundTags _ _ hf.ledger h hs) (hplain h hh)
  have hresult : result.text = Xml.Node.writeAllWith tagOf f.document.root.forest := by
    rw [htext, Request.named, ← hwrite, ← hwritten]
  obtain ⟨hentry, -⟩ := generate_eq_ok_iff.mp ⟨source, hgenerate⟩
  rw [generate_eq_ok_iff, hresult, ← Markup.exists_ofText_iff hf.tree hnames]
  exact and_iff_right hentry

/-- Its name with a hyphen is rewritten, and its empty group is removed. -/
private def sampleDrawing : Request where
  content := "<svg width=\"1\"><g/><path stroke-width=\"2.50\"/></svg>"

theorem generate_of_run_sampleDrawing
    : ∃ source result again, generate "react" sampleDrawing.content "a.svg" {} = .ok source
      ∧ Optimize.run sampleDrawing = .ok result
      ∧ result.text = ("<svg width=\"1\"><path strokeWidth=\"2.5\"/></svg>" : Text)
      ∧ generate "react" result.text "a.svg" {} = .ok again := by
  have hsource : (generate "react" sampleDrawing.content "a.svg" {}).toOption.isSome := by
    decide +kernel
  have hrun : (Optimize.run sampleDrawing).toOption.any
      (·.text = ("<svg width=\"1\"><path strokeWidth=\"2.5\"/></svg>" : Text)) := by
    decide +kernel
  have hfinal : ∀ f ∈ (Minify.finish true 3 sampleDrawing.checkedText).toOption,
      HasPlainNames f.document.root ∧ Markup.isRootName f.document.root.head.name.text
        ∧ f.document.root.content.isEmpty = false := by
    decide +kernel
  obtain ⟨source, hgenerate⟩ := Option.isSome_iff_exists.mp hsource
  obtain ⟨result, hresult, htext⟩ := (Option.any_eq_true _ _).mp hrun
  rw [toOption_eq_some_iff] at hgenerate hresult
  obtain ⟨f, hfinish, -, hiff⟩ := generate_of_run hgenerate hresult
  obtain ⟨hplain, hname, hcontent⟩ := hfinal f (toOption_eq_some_iff.mpr hfinish)
  obtain ⟨again, hagain⟩ := (hiff hplain).mpr
    ⟨_, Markup.drawnRoot?_of_isRootName hname, by simpa using hcontent⟩
  exact ⟨source, result, again, hgenerate, hresult, of_decide_eq_true htext, hagain⟩

/-- Drawings that generation takes and the optimized form of which it refuses: the root is left
without content, or with a label that a comment had hidden, or with a name that counts as a blank.
-/
def refusedDrawings : List Text :=
  [ "<svg></svg>",
    "<?xml version=\"1.0\"?><!--<svg></svg>--><p:svg xmlns:p=\"U\"><p:a/></p:svg>",
    "<?xml version=\"1.0\"?><!--<svg></svg>--><svg \u1680=\"1\"><a/></svg>" ]

/-- For every framework, generation fails on what the drawings are optimized to. -/
theorem not_generate_of_run_refusedDrawings
    : Framework.all.Forall fun framework => refusedDrawings.Forall fun content =>
      ∃ source result failure, generate framework.name content "a.svg" {} = .ok source
        ∧ Optimize.run { content, camelCase := framework = .react } = .ok result
        ∧ generate framework.name result.text "a.svg" {} = .error failure := by
  have hall : ∀ framework ∈ Framework.all, ∀ content ∈ refusedDrawings,
      (generate framework.name content "a.svg" {}).toOption.isSome
        ∧ (Optimize.run { content, camelCase := framework = .react }).toOption.any fun result =>
          (generate framework.name result.text "a.svg" {}).toOption.isNone := by
    decide +kernel
  refine List.forall_iff_forall_mem.mpr fun framework hframework => ?_
  refine List.forall_iff_forall_mem.mpr fun content hcontent => ?_
  obtain ⟨hgenerate, hrun⟩ := hall framework hframework content hcontent
  obtain ⟨source, hsource⟩ := Option.isSome_iff_exists.mp hgenerate
  obtain ⟨result, hresult, hnone⟩ := (Option.any_eq_true _ _).mp hrun
  rw [toOption_eq_some_iff] at hsource hresult
  cases hagain : generate framework.name result.text "a.svg" {} with
  | ok again =>
      rw [hagain] at hnone
      cases hnone
  | error failure => exact ⟨source, result, failure, hsource, hresult, hagain⟩

end SvgKit.Component
