import SvgKit.Proofs.Markup.Renaming

/-! Where the scanner reads all names, giving the text of a tree its form with capitals is writing
the tree with hyphenated attribute names in that form, and doing it again changes nothing.
-/

namespace SvgKit.Markup

open Xml (Binding Element Head Ledger Node Spelling Tag)

-----------------------------------------------------------------------------------------
-- Attributes
-----------------------------------------------------------------------------------------

/-- An attribute keeps its name, or it has a hyphenated word without a prefix for one. -/
theorem capitalized_cases (a : Xml.Attribute)
    : capitalized a = a ∧ (a.name.spelling.space = none → isKebabCase a.name.base = false)
      ∨ capitalized a = { a with name := { a.name with base := camelCase a.name.base } }
        ∧ a.name.spelling.space = none ∧ isKebabCase a.name.base := by
  unfold capitalized
  split
  · next h =>
      simp only [Bool.and_eq_true, Option.isNone_iff_eq_none] at h
      exact .inr ⟨rfl, h⟩
  · next h =>
      simp only [Bool.and_eq_true, Option.isNone_iff_eq_none, not_and, Bool.not_eq_true] at h
      exact .inl ⟨rfl, h⟩

theorem value_capitalized (a : Xml.Attribute) : (capitalized a).value = a.value := by
  rcases capitalized_cases a with ⟨hsame, -⟩ | ⟨hrenamed, -⟩
  · rw [hsame]
  · rw [hrenamed]

theorem spelling_capitalized (a : Xml.Attribute) : (capitalized a).spelling = a.spelling := by
  rcases capitalized_cases a with ⟨hsame, -⟩ | ⟨hrenamed, -⟩
  · rw [hsame]
  · rw [hrenamed]

theorem binding_capitalized (a : Xml.Attribute)
    : (capitalized a).name.binding = a.name.binding := by
  rcases capitalized_cases a with ⟨hsame, -⟩ | ⟨hrenamed, -⟩
  · rw [hsame]
  · rw [hrenamed]

section Attributes

variable {made : List Binding} {a : Xml.Attribute}

theorem space_eq_none_iff (ha : a.Sound made)
    : a.name.spelling.space = none ↔ a.name.binding = none := by
  rw [Xml.Name.spelling]
  cases hbinding : a.name.binding with
  | none => simp
  | some b => simpa using ha.labelled b hbinding

variable (hname : isAttributeName a.name.spelling)
include hname

theorem not_mem_line_of_isAttributeName : '\n' ∉ a.name.base := by
  intro hmem
  have htext : '\n' ∈ a.name.spelling.text := by
    rw [Spelling.text]
    split
    · exact hmem
    · exact List.mem_append_right _ (List.mem_cons_of_mem _ hmem)
  exact absurd ((isAttributeName_iff.mp hname).2 _ htext) (by decide)

/-- A name that has its form with capitals keeps it. -/
theorem capitalized_capitalized : capitalized (capitalized a) = capitalized a := by
  rcases capitalized_cases a with ⟨hsame, -⟩ | ⟨hrenamed, -, hkebab⟩
  · rw [hsame, hsame]
  · have hagain := isKebabCase_camelCase (not_mem_line_of_isAttributeName hname) hkebab
    rw [hrenamed, capitalized, hagain, Bool.and_false]
    rfl

/-- A name of small letters is no form with capitals of another name. -/
theorem capitalized_eq_of_isLower {name : Text} (hlower : name.all (·.isLower))
    (hbase : (capitalized a).name.base = name)
    : capitalized a = a := by
  rcases capitalized_cases a with ⟨hsame, -⟩ | ⟨hrenamed, -, hkebab⟩
  · exact hsame
  · obtain ⟨c, hc, hupper⟩ :=
      exists_mem_camelCase (not_mem_line_of_isAttributeName hname) hkebab
    rw [hrenamed] at hbase
    subst hbase
    rw [List.all_eq_true.mp hlower c hc] at hupper
    cases hupper

/-- A name of small letters stays as it is. -/
theorem base_capitalized_eq_iff {name : Text} (hlower : name.all (·.isLower))
    : (capitalized a).name.base = name ↔ a.name.base = name := by
  constructor
  · intro hbase
    rw [← capitalized_eq_of_isLower hname hlower hbase]
    exact hbase
  · rintro rfl
    rcases capitalized_cases a with ⟨hsame, -⟩ | ⟨-, -, hkebab⟩
    · rw [hsame]
    · have hhyphen := mem_hyphen_of_isKebabCase (not_mem_line_of_isAttributeName hname) hkebab
      exact absurd (List.all_eq_true.mp hlower '-' hhyphen) (by decide)

theorem isAttributeName_capitalized : isAttributeName (capitalized a).name.spelling := by
  rcases capitalized_cases a with ⟨hsame, -⟩ | ⟨hrenamed, hspace, hkebab⟩
  · rw [hsame]
    exact hname
  · have hline := not_mem_line_of_isAttributeName hname
    have hsound : Spelling.Sound ⟨none, camelCase a.name.base⟩ :=
      ⟨isName_camelCase hline hkebab, fun _ h => by cases h⟩
    have hspelling : (capitalized a).name.spelling = ⟨none, camelCase a.name.base⟩ := by
      rw [hrenamed, ← hspace]
      rfl
    rw [hspelling]
    apply isAttributeName_iff.mpr
    constructor
    · obtain ⟨c, hc, -⟩ := exists_mem_camelCase hline hkebab
      exact List.ne_nil_of_mem hc
    · intro c hc
      have hblank := (forall_mem_camelCase hline hkebab c hc).1
      rcases isStretch_text hsound c hc with hc | hc
      · rw [hblank] at hc
        cases hc
      · exact hc

theorem sound_capitalized (ha : a.Sound made) : (capitalized a).Sound made := by
  rcases capitalized_cases a with ⟨hsame, -⟩ | ⟨hrenamed, hspace, hkebab⟩
  · rw [hsame]
    exact ha
  · have hline := not_mem_line_of_isAttributeName hname
    have hxmlns : (capitalized a).name.base ≠ ("xmlns" : Text) := by
      intro hbase
      have hsame := capitalized_eq_of_isLower hname (by with_unfolding_all decide) hbase
      rw [← hsame, hbase] at hkebab
      exact absurd hkebab (by with_unfolding_all decide)
    rw [hrenamed] at hxmlns ⊢
    exact ⟨⟨isName_camelCase hline hkebab, ha.name.binding⟩, ha.labelled, fun _ => hxmlns,
      ha.value, ha.spelling⟩

end Attributes

-----------------------------------------------------------------------------------------
-- Heads
-----------------------------------------------------------------------------------------

/-- The scanner reads the name of the element and those of its attributes and declarations as they
are written.
-/
def isScanned (h : Head) : Bool :=
  isTagName h.name.spelling && h.pairs.all fun pair => isAttributeName pair.1

theorem isScanned_iff {h : Head}
    : isScanned h ↔ isTagName h.name.spelling
      ∧ (∀ b ∈ h.bindings, isAttributeName b.spelling)
      ∧ ∀ a ∈ h.attributes, isAttributeName a.name.spelling := by
  rw [isScanned, Bool.and_eq_true, List.all_eq_true, Head.pairs, List.forall_mem_append,
    List.forall_mem_map, List.forall_mem_map]

section Heads

variable {made : List Binding} {h : Head} (hscanned : isScanned h)
include hscanned

theorem capitalizedHead_capitalizedHead
    : capitalizedHead (capitalizedHead h) = capitalizedHead h := by
  obtain ⟨-, -, hattributes⟩ := isScanned_iff.mp hscanned
  rw [capitalizedHead, capitalizedHead, List.map_map]
  congr 1
  apply List.map_congr_left
  intro a ha
  exact capitalized_capitalized (hattributes a ha)

theorem isScanned_capitalizedHead : isScanned (capitalizedHead h) := by
  obtain ⟨hname, hbindings, hattributes⟩ := isScanned_iff.mp hscanned
  apply isScanned_iff.mpr
  refine ⟨hname, hbindings, List.forall_mem_map.mpr ?_⟩
  intro a ha
  exact isAttributeName_capitalized (hattributes a ha)

/-- A head whose attributes still differ in the form with capitals is sound in that form. -/
theorem sound_capitalizedHead (hs : h.Sound made)
    (hdistinct : ((capitalizedHead h).attributes.map fun a => (a.name.uri?, a.name.base)).Nodup)
    : (capitalizedHead h).Sound made := by
  obtain ⟨-, -, hattributes⟩ := isScanned_iff.mp hscanned
  refine ⟨hs.name, hs.bindings, hs.labels, List.forall_mem_map.mpr ?_, hdistinct⟩
  intro a ha
  exact sound_capitalized (hattributes a ha) (hs.attributes a ha)

end Heads

-----------------------------------------------------------------------------------------
-- Trees
-----------------------------------------------------------------------------------------

/-- The scanner reads all names in the tree as they are written. -/
def HasScannedNames (e : Element) : Prop := ∀ h ∈ e.heads, isScanned h

instance (e : Element) : Decidable (HasScannedNames e) :=
  inferInstanceAs (Decidable (∀ h ∈ e.heads, isScanned h))

/-- The tree with all hyphenated names of attributes in the form with capitals. -/
def withCapitals (e : Element) : Element := e.mapHeads capitalizedHead

theorem heads_withCapitals (e : Element) : (withCapitals e).heads = e.heads.map capitalizedHead :=
  Element.heads_mapHeads capitalizedHead e

theorem forest_withCapitals (e : Element)
    : (withCapitals e).forest = Node.mapAllHeads capitalizedHead e.forest := by
  rw [withCapitals, Element.mapHeads, Element.forest, Element.forest,
    Node.mapAllHeads_element, Node.mapAllHeads_nil]

theorem camelCaseAttributes_startTag {made : List Binding} {h : Head} (hscanned : isScanned h)
    (hs : h.Sound made) {close : Text} (hclose : IsClose close) (rest : Text)
    : camelCaseAttributes ('<' :: (h.text ++ (close ++ rest)))
      = '<' :: ((capitalizedHead h).text ++ (close ++ camelCaseAttributes rest)) := by
  obtain ⟨hname, hpairs⟩ := Bool.and_eq_true_iff.mp hscanned
  have hspelled : IsSpelled [.element h []] :=
    isSpelled_of_allSound (Node.AllSound.element_iff.mpr ⟨hs, .nil, .nil⟩)
  have hread := readItem?_startTag hname (fun pair hpair =>
    ⟨List.all_eq_true.mp hpairs pair hpair, hspelled.element.1 pair hpair⟩) hclose rest
  rw [camelCaseAttributes_of_read hread, Item.rewrite, text_rewrite_startTag,
    rewrittenStart_camelCase]
  simp

/-- Writing with other tags is writing other heads. -/
theorem writeAllWith_mapAllHeads (f : Head → Head) (hname : ∀ h, (f h).name = h.name)
    (nodes : List Node)
    : Node.writeAllWith (fun h => (f h).tag) nodes
      = Node.writeAllWith Head.tag (Node.mapAllHeads f nodes) := by
  induction nodes using Node.forest_induction with
  | nil => simp
  | element h content nodes inside behind =>
      rw [Node.mapAllHeads_element]
      cases content with
      | nil => rw [Node.mapAllHeads_nil, Node.writeAllWith_empty, Node.writeAllWith_empty, behind]
      | cons node content =>
          have hne : Node.mapAllHeads f (node :: content) ≠ [] := by
            rw [Node.mapAllHeads]
            exact List.cons_ne_nil _ _
          rw [Node.writeAllWith_element _ _ (List.cons_ne_nil _ _),
            Node.writeAllWith_element _ _ hne, inside, behind, hname]
  | text s nodes ih =>
      rw [Node.mapAllHeads_text, Node.writeAllWith_text, Node.writeAllWith_text, ih]
  | entity name nodes ih =>
      rw [Node.mapAllHeads_entity, Node.writeAllWith_entity, Node.writeAllWith_entity, ih]

section Trees

variable {next : Nat} {made : List Binding} (hledger : Ledger next made) {e : Element}
  (hscanned : HasScannedNames e) (hsound : Node.AllSound made e.forest)
include hscanned

include hledger hsound in
/-- The form with capitals of the text of a tree is the text of the tree with capitals, if that is
sound.
-/
theorem camelCaseAttributes_write
    (hcapitals : Node.AllSound made (withCapitals e).forest)
    : camelCaseAttributes e.write = (withCapitals e).write := by
  have hheads : Node.allHeads (withCapitals e).forest
      = (Node.allHeads e.forest).map capitalizedHead := by
    rw [← Element.heads_eq, ← Element.heads_eq]
    exact heads_withCapitals e
  have htags : ∀ h ∈ Node.allHeads e.forest, ∀ close rest, IsClose close →
      camelCaseAttributes ('<' :: (h.text ++ (close ++ rest)))
        = '<' :: ((capitalizedHead h).tag.text ++ (close ++ camelCaseAttributes rest)) := by
    intro h hh close rest hclose
    have hcapital : capitalizedHead h ∈ Node.allHeads (withCapitals e).forest := by
      rw [hheads]
      exact List.mem_map_of_mem hh
    rw [(hcapitals.heads _ hcapital).text_tag]
    exact camelCaseAttributes_startTag (hscanned h (Element.heads_eq e ▸ hh))
      (hsound.heads h hh) hclose rest
  have hwrite := camelCaseAttributes_writeAll hledger hsound htags []
  rw [List.append_nil, camelCaseAttributes_nil, List.append_nil,
    writeAllWith_mapAllHeads capitalizedHead fun _ => rfl] at hwrite
  rw [Element.write_eq, Element.write_eq, hwrite, ← Node.writeAllWith_tag hcapitals,
    forest_withCapitals]

theorem withCapitals_withCapitals : withCapitals (withCapitals e) = withCapitals e := by
  apply Element.mapHeads_eq_self_iff.mpr
  intro h' hh'
  rw [heads_withCapitals] at hh'
  obtain ⟨h, hh, rfl⟩ := List.mem_map.mp hh'
  exact capitalizedHead_capitalizedHead (hscanned h hh)

theorem hasScannedNames_withCapitals : HasScannedNames (withCapitals e) := by
  intro h' hh'
  rw [heads_withCapitals] at hh'
  obtain ⟨h, hh, rfl⟩ := List.mem_map.mp hh'
  exact isScanned_capitalizedHead (hscanned h hh)

end Trees

end SvgKit.Markup
