import SvgKit.Proofs.Markup.Capitals
import SvgKit.Proofs.Minify.Correspondence

/-! A tree in normal form stays so when its attributes get names with capitals, if the new names
mean no more and no less to a pass than the old ones did.
-/

namespace SvgKit.Minify

open Markup (HasScannedNames capitalized capitalizedHead isScanned withCapitals)
open Xml

-----------------------------------------------------------------------------------------
-- Heads
-----------------------------------------------------------------------------------------

/-- Names with capitals agree with what they are made of in all names of small letters. -/
theorem headAgrees_capitalizedHead {h : Head} (hscanned : isScanned h)
    : HeadAgrees (fun name => name.all (·.isLower)) h (capitalizedHead h) := by
  obtain ⟨-, -, hattributes⟩ := Markup.isScanned_iff.mp hscanned
  refine ⟨.refl h.name, List.forall₂_map_right_iff.mpr (List.forall₂_same.mpr ?_)⟩
  intro a ha
  refine ⟨?_, Markup.value_capitalized a, ?_⟩
  · rw [Name.uri?, Name.uri?, Markup.binding_capitalized]
  · intro name hlower
    exact Markup.base_capitalized_eq_iff (hattributes a ha) hlower

/-- An attribute of a namespace keeps its name. -/
theorem capitalized_eq_of_bound {made : List Binding} {a : Attribute} (ha : a.Sound made)
    (hbound : a.name.binding ≠ none)
    : capitalized a = a := by
  rcases Markup.capitalized_cases a with ⟨hsame, -⟩ | ⟨-, hspace, -⟩
  · exact hsame
  · exact absurd ((Markup.space_eq_none_iff ha).mp hspace) hbound

theorem corresponds_capitalizedHead {made : List Binding} {h : Head} (hs : h.Sound made)
    : Head.Corresponds Eq h (capitalizedHead h) := by
  have hrel (o : Option Binding) : Option.Rel Eq o o := by
    cases o with
    | none => exact .none
    | some b => exact .some rfl
  refine ⟨hrel _, List.forall₂_same.mpr fun _ _ => rfl,
    List.forall₂_map_right_iff.mpr (List.forall₂_same.mpr ?_)⟩
  intro a ha
  rw [Markup.binding_capitalized]
  refine ⟨hrel _, ?_⟩
  intro hbound
  rw [capitalized_eq_of_bound (hs.attributes a ha) hbound]

/-- A name without a namespace is what its spelling means everywhere. -/
theorem attributeName?_of_plain (scope : List Binding) {n : Name} (hplain : n.binding = none)
    : attributeName? scope n.spelling = some n := by
  obtain ⟨binding, base⟩ := n
  obtain rfl : binding = none := hplain
  rfl

theorem isExact_capitalizedHead {made scope : List Binding} {h : Head} (hs : h.Sound made)
    (hexact : h.isExact scope)
    : (capitalizedHead h).isExact scope := by
  obtain ⟨hname, hattributes⟩ := Head.isExact_iff.mp hexact
  apply Head.isExact_iff.mpr
  refine ⟨hname, List.forall_mem_map.mpr ?_⟩
  intro a ha
  rcases Markup.capitalized_cases a with ⟨hsame, -⟩ | ⟨hrenamed, hspace, -⟩
  · rw [hsame]
    exact hattributes a ha
  · apply attributeName?_of_plain
    rw [Markup.binding_capitalized]
    exact (Markup.space_eq_none_iff (hs.attributes a ha)).mp hspace

-----------------------------------------------------------------------------------------
-- Trees
-----------------------------------------------------------------------------------------

/-- The names with capitals mean as much to a pass as the names that they are made of: the scanner
finds them all, they differ in each element, and they add no numbers to be rounded and take away
no references.
-/
structure TakesCapitals (precision : Int) (e : Element) : Prop where
  scanned : HasScannedNames e
  distinct : ∀ h ∈ (withCapitals e).heads,
    (h.attributes.map fun a => (a.name.uri?, a.name.base)).Nodup
  references : usedIds e ⊆ usedIds (withCapitals e)
  numbers : ∀ h ∈ (withCapitals e).heads, ∀ a ∈ h.attributes, isNumeric a.name.base →
    compactNumbers precision a.value = .ok a.value

instance (precision : Int) (e : Element) : Decidable (TakesCapitals precision e) :=
  decidable_of_iff (HasScannedNames e
      ∧ (∀ h ∈ (withCapitals e).heads,
        (h.attributes.map fun a => (a.name.uri?, a.name.base)).Nodup)
      ∧ (∀ id ∈ usedIds e, (usedIds (withCapitals e)).contains id)
      ∧ ∀ h ∈ (withCapitals e).heads, ∀ a ∈ h.attributes, isNumeric a.name.base →
        compactNumbers precision a.value = .ok a.value) (by
    simp only [List.contains_iff_mem]
    exact ⟨fun h => ⟨h.1, h.2.1, fun _ hid => h.2.2.1 _ hid, h.2.2.2⟩,
      fun h => ⟨h.scanned, h.distinct, fun _ hid => h.references hid, h.numbers⟩⟩)

theorem lookup_presentationDefaults {name : Text}
    (h : (presentationDefaults.lookup name).isSome)
    : name.all (·.isLower) ∨ Markup.isKebabCase name ∧ '-' ∈ name := by
  obtain ⟨value, hvalue⟩ := Option.isSome_iff_exists.mp h
  have hall : presentationDefaults.all fun entry => entry.1.all (·.isLower)
      || Markup.isKebabCase entry.1 && entry.1.contains '-' := by
    with_unfolding_all decide
  have hentry := List.all_eq_true.mp hall _ (mem_of_lookup_eq_some hvalue)
  simpa using hentry

section Trees

variable {made : List Binding} {precision : Int} {e : Element}

/-- A name with capitals is no name of a property with a default. -/
theorem isLower_of_default {h : Head} (hscanned : isScanned h) {a : Attribute}
    (ha : a ∈ h.attributes) (hplain : a.name.binding = none)
    (hdefault : (presentationDefaults.lookup (capitalized a).name.base).isSome)
    : (capitalized a).name.base.all (·.isLower) := by
  obtain ⟨-, -, hattributes⟩ := Markup.isScanned_iff.mp hscanned
  rcases lookup_presentationDefaults hdefault with hlower | ⟨hkebab, hhyphen⟩
  · exact hlower
  · rcases Markup.capitalized_cases a with ⟨hsame, hword⟩ | ⟨hrenamed, -, hword⟩
    · have hspace : a.name.spelling.space = none := by
        rw [Name.spelling, hplain]
        rfl
      rw [hsame, hword hspace] at hkebab
      cases hkebab
    · have hline := Markup.not_mem_line_of_isAttributeName (hattributes a ha)
      rw [hrenamed] at hhyphen
      exact absurd rfl (Markup.forall_mem_camelCase hline hword '-' hhyphen).2

theorem IsNormal.withCapitals (hn : IsNormal precision e) (ht : TakesCapitals precision e)
    : IsNormal precision (withCapitals e) := by
  have halike := alike_mapHeads e fun h hh => headAgrees_capitalizedHead (ht.scanned h hh)
  apply hn.of_agrees halike (by with_unfolding_all decide) _ ht.references ht.numbers
  intro h' hh' a' ha' hplain hdefault
  rw [Element.heads_mapHeads] at hh'
  obtain ⟨h, hh, rfl⟩ := List.mem_map.mp hh'
  obtain ⟨a, ha, rfl⟩ := List.mem_map.mp ha'
  rw [Markup.binding_capitalized] at hplain
  exact isLower_of_default (ht.scanned h hh) ha hplain hdefault

theorem HasFirstLabels.withCapitals (hs : Node.AllSound made e.forest) (hlabels : HasFirstLabels e)
    : HasFirstLabels (withCapitals e) := by
  apply hlabels.of_corresponds isCorrespondence_eq
  apply alike_mapHeads e
  intro h hh
  exact corresponds_capitalizedHead (hs.heads h (Element.heads_eq e ▸ hh))

/-- Names with capitals stay what their labels mean, by induction over the forest. -/
theorem areExact_capitalized {scope : List Binding} {nodes : List Node}
    (hs : Node.AllSound made nodes) (hexact : Node.areExact scope nodes)
    : Node.areExact scope (Node.mapAllHeads capitalizedHead nodes) := by
  induction nodes using Node.forest_induction generalizing scope with
  | nil => simp
  | element h content nodes inside behind =>
      obtain ⟨hh, hcontent, hnodes⟩ := Node.AllSound.element_iff.mp hs
      rw [Node.areExact_element, Bool.and_eq_true, Bool.and_eq_true] at hexact
      rw [Node.mapAllHeads_element, Node.areExact_element, Bool.and_eq_true, Bool.and_eq_true]
      exact ⟨⟨isExact_capitalizedHead hh hexact.1.1, inside hcontent hexact.1.2⟩,
        behind hnodes hexact.2⟩
  | text s nodes ih =>
      rw [Node.areExact_text] at hexact
      rw [Node.mapAllHeads_text, Node.areExact_text]
      exact ih (Node.AllSound.text_iff.mp hs).2 hexact
  | entity name nodes ih =>
      rw [Node.areExact_entity] at hexact
      rw [Node.mapAllHeads_entity, Node.areExact_entity]
      exact ih (Node.AllSound.entity_iff.mp hs).2 hexact

theorem allSound_withCapitals (hs : Node.AllSound made e.forest) (ht : TakesCapitals precision e)
    : Node.AllSound made (withCapitals e).forest := by
  constructor
  · intro h' hh'
    rw [← Element.heads_eq] at hh'
    have hdistinct := ht.distinct h' hh'
    rw [Markup.heads_withCapitals] at hh'
    obtain ⟨h, hh, rfl⟩ := List.mem_map.mp hh'
    exact Markup.sound_capitalizedHead (ht.scanned h hh)
      (hs.heads h (Element.heads_eq e ▸ hh)) hdistinct
  · rw [Markup.forest_withCapitals, Node.allLeaves_mapAllHeads]
    exact hs.leaves

theorem declared_withCapitals (e : Element)
    : Node.declared (withCapitals e).forest = Node.declared e.forest := by
  rw [Node.declared, Markup.forest_withCapitals, Node.allHeads_mapAllHeads, List.flatMap_map]
  rfl

theorem tidy_withCapitals {literal : Bool} {depth : Nat} (htidy : Tidy literal depth e.forest)
    : Tidy literal depth (withCapitals e).forest := by
  have halike := alike_mapHeads (R := fun h h' => h' = capitalizedHead h) e fun _ _ => rfl
  apply (tidy_of_alike halike _ htidy).1
  rintro h _ rfl hplain a' ha'
  obtain ⟨a, ha, rfl⟩ := List.mem_map.mp ha'
  exact (Markup.spelling_capitalized a).trans (hplain a ha)

/-- A final drawing stays final with capitals in its names. -/
theorem IsFinal.withCapitals {d : Document} (hd : IsFinal precision made d)
    (ht : TakesCapitals precision d.root)
    : IsFinal precision made { d with root := withCapitals d.root } where
  sound := ⟨hd.sound.ledger, allSound_withCapitals hd.sound.tree ht⟩
  marks := by
    rw [Document.HasOwnMarks, declared_withCapitals]
    exact hd.marks
  tidy := tidy_withCapitals hd.tidy
  base := hd.base
  names := by
    rw [Element.isExact, Markup.forest_withCapitals]
    exact areExact_capitalized hd.sound.tree hd.names
  normal := hd.normal.withCapitals ht
  labels := hd.labels.withCapitals hd.sound.tree

end Trees

end SvgKit.Minify
