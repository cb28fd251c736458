import SvgKit.Proofs.Markup.Written

/-! Rewriting the text of a tree is writing the tree with rewritten attributes. Hyphenated names
get their form with inner capitals where the names of the tree that have no prefix do.
-/

namespace SvgKit.Markup

open Xml (Head Node Element)

-----------------------------------------------------------------------------------------
-- Hyphenated words
-----------------------------------------------------------------------------------------

/-- A colon is part of no hyphenated word. -/
theorem isKebabCase_eq_false_of_colon {word : Text} (hcolon : ':' ∈ word)
    : isKebabCase word = false := by
  have hmem : ':' ∈ dropFinalLineFeed word := by
    unfold dropFinalLineFeed
    split
    · next hlast =>
        obtain ⟨front, rfl⟩ := List.getLast?_eq_some_iff.mp hlast
        simpa using hcolon
    · exact hcolon
  obtain ⟨piece, hpiece, hcolon⟩ :=
    Text.exists_mem_splitOnChar (p := (· == '-')) hmem (by decide)
  have hnone : isKebabChar ':' = false := by decide
  have hnotAll {s : Text} (hs : ':' ∈ s) : s.all isKebabChar = false :=
    List.all_eq_false.mpr ⟨':', hs, by simp [hnone]⟩
  unfold isKebabCase
  split
  · next c first part parts hsplit =>
      rw [hsplit, List.mem_cons] at hpiece
      rcases hpiece with rfl | hpiece
      · rcases List.mem_cons.mp hcolon with rfl | hcolon
        · rw [show Text.isFoldedLetter ':' = false by decide]
          rfl
        · rw [hnotAll hcolon, Bool.and_false, Bool.false_and]
      · rw [Bool.and_eq_false_iff]
        refine .inr (List.all_eq_false.mpr ⟨piece, hpiece, ?_⟩)
        simp [hnotAll hcolon]
  · rfl

-----------------------------------------------------------------------------------------
-- Names with capitals in a tree
-----------------------------------------------------------------------------------------

/-- The attribute with the form with capitals of its name, if that is a hyphenated word without
a prefix.
-/
def capitalized (a : Xml.Attribute) : Xml.Attribute :=
  if a.name.spelling.space.isNone && isKebabCase a.name.base then
    { a with name := { a.name with base := camelCase a.name.base } }
  else a

/-- The head with all hyphenated names of attributes in the form with capitals. -/
def capitalizedHead (h : Head) : Head := { h with attributes := h.attributes.map capitalized }

theorem rewrittenText_eq_pairText {tag : Text} {pair : Xml.Spelling × Text}
    (hname : isKebabCase pair.1.text = false)
    : rewrittenText camelCaseAttribute tag pair = Xml.pairText pair := by
  simp [rewrittenText, camelCaseAttribute, hname, quoted, Xml.pairText, Xml.attributeText]

theorem rewrittenText_declaration (tag : Text) (b : Xml.Binding) (value : Text)
    : rewrittenText camelCaseAttribute tag (b.spelling, value)
      = Xml.pairText (b.spelling, value) := by
  refine rewrittenText_eq_pairText ?_
  rw [Xml.Binding.text_spelling, Xml.Binding.name]
  split
  · with_unfolding_all decide
  · exact isKebabCase_eq_false_of_colon (by simp [Text.ofString])

theorem rewrittenText_attribute (tag : Text) (a : Xml.Attribute)
    : rewrittenText camelCaseAttribute tag (a.name.spelling, a.spelled)
      = Xml.pairText ((capitalized a).name.spelling, (capitalized a).spelled) := by
  cases hspace : a.name.spelling.space with
  | some space =>
      have hcolon : ':' ∈ a.name.spelling.text := by
        rw [Xml.Spelling.text, hspace]
        simp
      have hkept : capitalized a = a := by simp [capitalized, hspace]
      rw [hkept, rewrittenText_eq_pairText (isKebabCase_eq_false_of_colon hcolon)]
  | none =>
      have htext : a.name.spelling.text = a.name.base := by
        rw [Xml.Spelling.text, hspace]
        rfl
      cases hkebab : isKebabCase a.name.base with
      | false =>
          have hkept : capitalized a = a := by simp [capitalized, hkebab]
          rw [hkept, rewrittenText_eq_pairText (htext ▸ hkebab)]
      | true =>
          have hrenamed : capitalized a
              = { a with name := { a.name with base := camelCase a.name.base } } := by
            simp [capitalized, hspace, hkebab]
          have hname : (capitalized a).name.spelling.text = camelCase a.name.base := by
            have hplain : (capitalized a).name.spelling.space = none := by
              rw [hrenamed]
              exact hspace
            rw [Xml.Spelling.text, hplain, hrenamed]
            rfl
          have hvalue : (capitalized a).spelled = a.spelled := by
            rw [hrenamed]
            rfl
          rw [Xml.pairText, hname, hvalue]
          simp [rewrittenText, camelCaseAttribute, htext, hkebab, isQuoted, quoted,
            Xml.attributeText]

theorem rewrittenStart_camelCase (h : Head)
    : rewrittenStart camelCaseAttribute h = (capitalizedHead h).text := by
  rw [rewrittenStart, Xml.Head.text_eq, Xml.Name.text_spelling, Xml.Head.pairs, Xml.Head.pairs,
    capitalizedHead, List.map_map, List.flatMap_append, List.flatMap_append, List.flatMap_map,
    List.flatMap_map, List.flatMap_map, List.flatMap_map]
  simp only [rewrittenText_declaration, rewrittenText_attribute, Function.comp_apply]

/-- Rewriting names to their form with capitals is writing the forest with such names, by
induction over it.
-/
theorem writeRewritten_camelCase (nodes : List Node)
    : writeRewritten camelCaseAttribute nodes
      = Node.writeAll (Node.mapAllHeads capitalizedHead nodes) := by
  induction nodes using Node.forest_induction with
  | nil => simp [writeRewritten]
  | element h content nodes inside behind =>
      rw [writeRewritten, Node.mapAllHeads_element, rewrittenStart_camelCase, behind]
      cases content with
      | nil => simp [Node.writeAll_empty]
      | cons node content =>
          have hne : Node.mapAllHeads capitalizedHead (node :: content) ≠ [] := by
            rw [Node.mapAllHeads]
            simp
          rw [Node.writeAll_element _ hne, inside]
          simp [capitalizedHead]
  | text s nodes ih => rw [writeRewritten, Node.mapAllHeads_text, Node.writeAll_text, ih]
  | entity name nodes ih =>
      rw [writeRewritten, Node.mapAllHeads_entity, Node.writeAll_entity, ih]
      simp

-----------------------------------------------------------------------------------------
-- Texts of trees
-----------------------------------------------------------------------------------------

theorem scanner_pieces_write {e : Element} (hnames : HasAsciiNames e.forest)
    (hspelled : IsSpelled e.forest)
    : scanner.pieces e.write = writtenPieces e.forest := by
  have h := pieces_writeAll hnames hspelled []
  rwa [List.append_nil, scanner.pieces_nil, List.append_nil, ← Element.write_eq] at h

theorem rewriteAttributes_eq_writeRewritten {e : Element} (hnames : HasAsciiNames e.forest)
    (hspelled : IsSpelled e.forest) (f : Rewriter)
    : rewriteAttributes f e.write = writeRewritten f e.forest := by
  rw [rewriteAttributes, Scanner.replace, scanner_pieces_write hnames hspelled,
    ← flatMap_writtenPieces]
  congr 1
  funext piece
  cases piece <;> rfl

theorem camelCaseAttributes_write_eq {e : Element} (hnames : HasAsciiNames e.forest)
    (hspelled : IsSpelled e.forest)
    : camelCaseAttributes e.write = (e.mapHeads capitalizedHead).write := by
  rw [camelCaseAttributes, rewriteAttributes_eq_writeRewritten hnames hspelled,
    writeRewritten_camelCase, Element.write_eq]
  simp [Element.forest, Element.mapHeads]

/-- What is spelled in a sound forest is spelled without the marks that end it. -/
theorem isSpelled_of_allSound {made : List Xml.Binding} {nodes : List Node}
    (h : Node.AllSound made nodes)
    : IsSpelled nodes := by
  refine ⟨fun head hh a ha s hs => ?_, fun name hname => ?_⟩
  · have hquote := ((h.heads head hh).attributes a ha).not_mem_spelled (.inl rfl)
    rwa [Xml.Attribute.spelled, hs] at hquote
  · exact (h.leaves _ hname).not_mem_of_delimiter (by decide)

/-- Minification ends with a tree that is written as the minified text. -/
theorem write_of_finish {multipass : Bool} {precision : Int} {s : Text} {f : Minify.Finish}
    (h : Minify.finish multipass precision s = .ok f)
    : IsSpelled f.document.root.forest ∧ f.document.root.write = f.text := by
  obtain ⟨_, _, -, -, -, ⟨_, -, hf, -⟩, hwrite⟩ := Minify.exists_steps_of_finish h
  exact ⟨isSpelled_of_allSound hf.tree, hwrite⟩

/-- The scanner is exact on the texts of trees with ASCII names. Every rewriter makes of the text
of a tree the text with its declarations of namespaces and its attributes rewritten, and is asked
about each of them once, in the order of the document. In particular, of a minified text the
form with capitals is made by renaming the hyphenated attributes without a prefix in the tree
that minification ends with.
-/
theorem rewriteAttributes_write
    : (∀ e : Element, HasAsciiNames e.forest → IsSpelled e.forest →
        (∀ f, rewriteAttributes f e.write = writeRewritten f e.forest)
        ∧ attributes e.write = writtenAttributes e.forest)
      ∧ ∀ (multipass : Bool) (precision : Int) (s : Text) (f : Minify.Finish),
        Minify.finish multipass precision s = .ok f → HasAsciiNames f.document.root.forest →
          Minify.run multipass precision s = .ok ⟨f.text, f.passes⟩
          ∧ IsSpelled f.document.root.forest ∧ f.text = f.document.root.write
          ∧ camelCaseAttributes f.text = (f.document.root.mapHeads capitalizedHead).write := by
  refine ⟨fun e hnames hspelled => ⟨rewriteAttributes_eq_writeRewritten hnames hspelled, ?_⟩,
    fun multipass precision s f h hnames => ?_⟩
  · rw [attributes, Scanner.findAll, scanner_pieces_write hnames hspelled,
      ← attributes_writtenPieces]
    congr 2
    funext piece
    cases piece <;> rfl
  · obtain ⟨hspelled, hwrite⟩ := write_of_finish h
    refine ⟨by rw [Minify.run, h]; rfl, hspelled, hwrite.symm, ?_⟩
    rw [← hwrite]
    exact camelCaseAttributes_write_eq hnames hspelled

/-- A drawing whose values and texts look like markup. -/
def sampleMarkup : Text :=
  "<svg xmlns:p-q=\"U\" data-a=\"x&gt;='y\" p-q:c-d=\"&quot;/\">"
    ++ "<t-x stroke-width=\"1\">&lt;!-- &lt;a b-c=\"1\"></t-x></svg>"

/-- The attributes in that drawing, as they are written. -/
def sampleAttributes : List (Text × Text × Option Text) :=
  [("svg", "xmlns:p-q", some "\"U\""), ("svg", "data-a", some "\"x&gt;='y\""),
    ("svg", "p-q:c-d", some "\"&quot;/\""), ("t-x", "stroke-width", some "\"1\"")]

theorem rewriteAttributes_write_sampleMarkup
    : ∃ f, Minify.finish true 3 sampleMarkup = .ok f ∧ HasAsciiNames f.document.root.forest
      ∧ attributes f.document.root.write = sampleAttributes
      ∧ camelCaseAttributes f.text
        = ("<svg xmlns:p-q=\"U\" dataA=\"x&gt;='y\" p-q:c-d=\"&quot;/\">"
          ++ "<t-x strokeWidth=\"1\">&lt;!-- &lt;a b-c=\"1\"&gt;</t-x></svg>" : Text) := by
  have hfinish : (Minify.finish true 3 sampleMarkup).toOption.any fun f =>
      HasAsciiNames f.document.root.forest
        && writtenAttributes f.document.root.forest = sampleAttributes
        && (f.document.root.mapHeads capitalizedHead).write
          = ("<svg xmlns:p-q=\"U\" dataA=\"x&gt;='y\" p-q:c-d=\"&quot;/\">"
            ++ "<t-x strokeWidth=\"1\">&lt;!-- &lt;a b-c=\"1\"&gt;</t-x></svg>" : Text) := by
    decide +kernel
  cases hf : Minify.finish true 3 sampleMarkup with
  | error e =>
      rw [hf] at hfinish
      cases hfinish
  | ok f =>
      rw [hf] at hfinish
      simp only [Except.toOption, Option.any_some, Bool.and_eq_true, decide_eq_true_eq] at hfinish
      obtain ⟨⟨hnames, hattributes⟩, hwrite⟩ := hfinish
      obtain ⟨-, hspelled, -, hcamel⟩ := rewriteAttributes_write.2 true 3 sampleMarkup f hf hnames
      refine ⟨f, rfl, hnames, ?_, hcamel.trans hwrite⟩
      exact (rewriteAttributes_write.1 f.document.root hnames hspelled).2.trans hattributes

end SvgKit.Markup
