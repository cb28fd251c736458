import SvgKit.Component.Jsx
import SvgKit.Proofs.Markup.RootTag

/-! The attributes of a root in a component. They are put together to a tag of their own, whose text
is read once more to rewrite them; every attribute of the root comes out of this as the attribute it
was.
-/

namespace SvgKit.Component

open Markup (Attribute AreRead RootAttribute StartTag attributesText)

-----------------------------------------------------------------------------------------
-- The tag
-----------------------------------------------------------------------------------------

/-- The tag of a root whose attributes stand behind a space each. -/
def rootTag (attributes : List Attribute) : StartTag :=
  ⟨"svg", attributes.map fun a => ([' '], a), ['>']⟩

theorem attributesText_spaced (attributes : List Attribute)
    : attributesText (attributes.map fun a => ([' '], a))
      = attributes.flatMap fun a => ' ' :: a.text := by
  simp [attributesText, List.flatMap_map]

/-- A space behind every separator but the first, by induction over the attributes. -/
theorem join_eq_flatMap {attributes : List Attribute} (hne : attributes ≠ [])
    : ' ' :: Text.join [' '] (attributes.map Attribute.text)
      = attributes.flatMap fun a => ' ' :: a.text := by
  induction attributes with
  | nil => exact absurd rfl hne
  | cons a attributes ih =>
      cases attributes with
      | nil => simp [Text.join_singleton]
      | cons next attributes =>
          rw [List.map_cons, Text.join_cons _ _ (by simp), List.flatMap_cons, ← ih (by simp)]
          simp

theorem rootTag_isRegular {attributes : List Attribute}
    (hends : ∀ a ∈ attributes, a.EndsBefore [])
    : (rootTag attributes).IsRegular where
  name := ⟨'s', ['v', 'g'], by rw [rootTag, Text.ofString]; rfl, by decide⟩
  behind := by
    rw [rootTag, attributesText_spaced]
    cases attributes <;> rintro _ ⟨⟩ <;> decide
  blanks := by simp [rootTag]
  close := ⟨[], by simp, .inl rfl⟩
  tagName :=
    List.all_eq_true.mp (by with_unfolding_all decide : ("svg" : Text).all Markup.isTagChar)
  attributes := by
    refine Markup.areRead_of_forall (by rintro _ ⟨⟩; decide) ?_ ?_
    · rintro _ ha
      obtain ⟨a, -, rfl⟩ := List.mem_map.mp ha
      exact ⟨by simp, fun c hc => by rw [List.mem_singleton.mp hc]; decide⟩
    · rintro _ ha
      obtain ⟨a, hmem, rfl⟩ := List.mem_map.mp ha
      exact hends a hmem

theorem rewriteAttributes_rootTag {attributes : List Attribute}
    (hends : ∀ a ∈ attributes, a.EndsBefore []) (f : Markup.Rewriter)
    : Markup.rewriteAttributes f (rootTag attributes).text
      = (rootTag (attributes.map (·.rewrite f "svg"))).text := by
  have hread := (rootTag_isRegular hends).readItem? []
  rw [List.append_nil] at hread
  rw [Markup.rewriteAttributes, Markup.scanner.replace_of_read hread,
    Markup.scanner.replace_nil, List.append_nil]
  simp [Markup.Item.rewrite, StartTag.rewrite, rootTag, Function.comp_def]

theorem text_rootTag (attributes : List Attribute)
    : (rootTag attributes).text = "<svg" ++ (attributes.flatMap fun a => ' ' :: a.text) ++ ">" := by
  rw [StartTag.text, rootTag, attributesText_spaced]
  simp [Text.ofString]

theorem Attribute.text_ne_nil {a : Attribute} (ha : a.name ≠ []) : a.text ≠ [] := by
  obtain ⟨assigned, htext⟩ := a.exists_text
  rw [htext a.name]
  simp [ha]

/-- Every attribute of a root is rewritten as the attribute it was read as. -/
theorem Context.rewrittenAttributes_eq {c : Context} {attributes : List Attribute}
    (hc : c.attributes = attributes.map .ofAttribute) (hends : ∀ a ∈ attributes, a.EndsBefore [])
    (f : Markup.Rewriter)
    : c.rewrittenAttributes f = attributes.flatMap fun a => ' ' :: (a.rewrite f "svg").text := by
  have hraw : c.attributes.map (·.raw) = attributes.map Attribute.text := by
    rw [hc, List.map_map]
    rfl
  rw [Context.rewrittenAttributes, hraw]
  dsimp only
  cases attributes with
  | nil => rfl
  | cons a rest =>
      have hjoin := @join_eq_flatMap (a :: rest) (by simp)
      have hne : Text.join [' '] ((a :: rest).map Attribute.text) ≠ [] := by
        intro hnil
        have htext := Attribute.text_ne_nil (hends a List.mem_cons_self).notEmpty
        rw [hnil, List.flatMap_cons] at hjoin
        simp [htext] at hjoin
      have htag : "<svg " ++ Text.join [' '] ((a :: rest).map Attribute.text) ++ ">"
          = (rootTag (a :: rest)).text := by
        rw [text_rootTag, ← hjoin]
        simp [Text.ofString]
      rw [if_neg (by simpa using hne), htag, rewriteAttributes_rootTag hends, text_rootTag,
        List.flatMap_map, List.flatMap_cons]
      simp [Text.ofString]

-----------------------------------------------------------------------------------------
-- The attributes of the text
-----------------------------------------------------------------------------------------

/-- The second attribute is the first one with the name and the value that a rewriter gives to an
attribute of an `svg` tag. What stands between the two is as it was.
-/
structure IsRewritten (f : Markup.Rewriter) (a b : Attribute) : Prop where
  name : b.name = (f "svg" a.name a.written).1
  value : b.written = (f "svg" a.name a.written).2
  equals : b.value.map (·.1) = a.value.map (·.1)

/-- A rewriter that gives a value to an attribute exactly if there was one. -/
def KeepsValues (f : Markup.Rewriter) : Prop :=
  ∀ tag name value, (f tag name value).2.isSome = value.isSome

theorem keepsValues_jsxAttribute : KeepsValues jsxAttribute := by
  intro tag name value
  unfold jsxAttribute
  split
  · rfl
  · split
    · rfl
    · split <;> rfl
    · rfl

theorem keepsValues_plainClass : KeepsValues plainClass := fun _ _ _ => rfl

theorem isRewritten_rewrite {f : Markup.Rewriter} (hf : KeepsValues f) (a : Attribute)
    : IsRewritten f a (a.rewrite f "svg") := by
  have hvalue := hf "svg" a.name a.written
  rw [Attribute.written, Option.isSome_map] at hvalue
  rw [Attribute.rewrite, Attribute.written]
  generalize hgiven : f "svg" a.name (a.value.map (·.2)) = given at hvalue
  obtain ⟨name, value⟩ := given
  cases value with
  | none =>
      have hnone : a.value = none := by simpa using hvalue.symm
      exact ⟨(congrArg Prod.fst hgiven).symm, (congrArg Prod.snd hgiven).symm, by rw [hnone]⟩
  | some value =>
      obtain ⟨assigned, hsome⟩ := Option.isSome_iff_exists.mp hvalue.symm
      exact ⟨(congrArg Prod.fst hgiven).symm, (congrArg Prod.snd hgiven).symm, by rw [hsome]; rfl⟩

/-- The attributes of a root that a component does not set itself. -/
def keptAttributes (attributes : List (Text × Attribute)) : List Attribute :=
  (attributes.map (·.2)).filter fun a => !managedAttributes.contains a.name

theorem endsBefore_of_mem_keptAttributes {behind : Text} {attributes : List (Text × Attribute)}
    (h : AreRead behind attributes)
    : ∀ a ∈ keptAttributes attributes, a.EndsBefore [] := by
  intro a ha
  obtain ⟨b, hb, rfl⟩ := List.mem_map.mp (List.mem_filter.mp ha).1
  exact h.forall_endsBefore b hb

theorem exists_areRead_of_ofSvg {svg filename : Text} {options : Options} {c : Context}
    (h : Context.ofSvg svg filename options = .ok c)
    : ∃ attributes blanks behind,
        Markup.findRoot? svg = some (attributesText attributes ++ (blanks ++ '>' :: behind))
        ∧ (∀ d ∈ blanks, Text.isBlank d)
        ∧ AreRead (blanks ++ '>' :: behind) attributes
        ∧ c.attributes = (keptAttributes attributes).map .ofAttribute := by
  unfold Context.ofSvg at h
  split at h
  · cases h
  · next root hroot =>
      cases h
      obtain ⟨attributes, blanks, behind, hfind, hblanks, hread, hlist⟩ :=
        Markup.exists_areRead_of_ofText hroot
      refine ⟨attributes, blanks, behind, hfind, hblanks, hread, ?_⟩
      dsimp only
      rw [hlist, keptAttributes, List.filter_map, List.filter_map, List.map_map]
      rfl

/-- A component carries over the attributes of the root that it does not set itself. They are those
that stand behind the first `<svg` of the text, each behind blanks and with nothing between them,
up to the end of the tag; each of them comes behind a space and with the name and the value
that the rewriter gives to it.
-/
theorem rewrittenAttributes_of_ofSvg {svg filename : Text} {options : Options} {c : Context}
    (h : Context.ofSvg svg filename options = .ok c)
    : ∃ attributes blanks behind,
        Markup.findRoot? svg = some (attributesText attributes ++ (blanks ++ '>' :: behind))
        ∧ (∀ d ∈ blanks, Text.isBlank d)
        ∧ AreRead (blanks ++ '>' :: behind) attributes
        ∧ ∀ f ∈ [jsxAttribute, plainClass], ∃ rewritten,
            List.Forall₂ (IsRewritten f) (keptAttributes attributes) rewritten
            ∧ c.rewrittenAttributes f = rewritten.flatMap fun a => ' ' :: a.text := by
  obtain ⟨attributes, blanks, behind, hfind, hblanks, hread, hc⟩ := exists_areRead_of_ofSvg h
  refine ⟨attributes, blanks, behind, hfind, hblanks, hread, fun f hf => ?_⟩
  have hkeeps : KeepsValues f := by
    rcases List.mem_pair.mp hf with rfl | rfl
    · exact keepsValues_jsxAttribute
    · exact keepsValues_plainClass
  refine ⟨(keptAttributes attributes).map (·.rewrite f "svg"), ?_, ?_⟩
  · exact List.forall₂_map_right_iff.mpr
      (List.forall₂_same.mpr fun a _ => isRewritten_rewrite hkeeps a)
  · rw [List.flatMap_map]
    exact Context.rewrittenAttributes_eq hc (endsBefore_of_mem_keptAttributes hread) f

/-- A root with attributes of every kind: with and without a value, in quotes of both kinds and in
none, with blanks around the equals sign, with brackets and slashes in them, and of odd names.
-/
private def sampleRoot : Text :=
  "<!--<a>--><SVG class=\"a>b\" xmlns=u  href = 'x/>'\tclassName\n=/a/b on width='1' :@.d=\"\"\n"
    ++ "style='Fill:red' last=a/ ><g/></svg>"

private def sampleJsx : Text :=
  " className=\"a>b\" href = 'x/>' className\n=/a/b on :@.d=\"\""
    ++ " style=\x7b\x7b fill: \"red\" \x7d\x7d last=a/"

private def samplePlain : Text :=
  " class=\"a>b\" href = 'x/>' class\n=/a/b on :@.d=\"\" style='Fill:red' last=a/"

theorem rewrittenAttributes_of_ofSvg_sampleRoot
    : ∃ c attributes blanks behind, Context.ofSvg sampleRoot "a.svg" {} = .ok c
      ∧ Markup.findRoot? sampleRoot = some (attributesText attributes ++ (blanks ++ '>' :: behind))
      ∧ AreRead (blanks ++ '>' :: behind) attributes
      ∧ (∀ f ∈ [jsxAttribute, plainClass], ∃ rewritten,
          List.Forall₂ (IsRewritten f) (keptAttributes attributes) rewritten
          ∧ c.rewrittenAttributes f = rewritten.flatMap fun a => ' ' :: a.text)
      ∧ c.rewrittenAttributes jsxAttribute = sampleJsx
      ∧ c.rewrittenAttributes plainClass = samplePlain := by
  have hsample : (Context.ofSvg sampleRoot "a.svg" {}).toOption.any fun c =>
      c.rewrittenAttributes jsxAttribute = sampleJsx
        ∧ c.rewrittenAttributes plainClass = samplePlain := by
    decide +kernel
  cases hc : Context.ofSvg sampleRoot "a.svg" {} with
  | error failure =>
      rw [hc] at hsample
      cases hsample
  | ok c =>
      rw [hc] at hsample
      obtain ⟨hjsx, hplain⟩ := of_decide_eq_true hsample
      obtain ⟨attributes, blanks, behind, hfind, -, hread, hrewritten⟩ :=
        rewrittenAttributes_of_ofSvg hc
      exact ⟨c, attributes, blanks, behind, rfl, hfind, hread, hrewritten, hjsx, hplain⟩

end SvgKit.Component
