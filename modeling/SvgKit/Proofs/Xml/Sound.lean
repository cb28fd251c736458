import SvgKit.Proofs.Xml.Name
import SvgKit.Proofs.Xml.Tree
import Mathlib.Data.List.Nodup

/-! What holds of every tree that is read and of all that is made of it. The declarations made
so far form a ledger, in which a mark stands for one declaration only; the names in the tree
belong to declarations in the ledger.
-/

namespace SvgKit.Xml

-----------------------------------------------------------------------------------------
-- Declarations
-----------------------------------------------------------------------------------------

/-- A declaration that may stand in a tag: that of the label `xml` need not. -/
structure Binding.Sound (b : Binding) : Prop where
  label : ∀ label, b.label = some label → IsName label
  notXml : b.label ≠ some ("xml" : Text)
  mayDeclare : mayDeclare b.label b.uri
  uri : ∀ c ∈ b.uri, isChar c

/-- The declarations made so far, all with a mark of their own below the next one. -/
structure Ledger (next : Nat) (made : List Binding) : Prop where
  xml : Binding.xml ∈ made
  marks : (made.map (·.mark)).Nodup
  below : ∀ b ∈ made, b.mark < next
  sound : ∀ b ∈ made, b = .xml ∨ b.Sound

theorem isName_xml : IsName ("xml" : Text) := by
  simp [IsName, Text.ofString]
  decide

theorem Binding.Sound.label_ne_xmlns {b : Binding} (h : b.Sound)
    : b.label ≠ some ("xmlns" : Text) := by
  intro hl
  have := h.mayDeclare
  rw [hl] at this
  have hne : ("xmlns" : Text) ≠ ("xml" : Text) := by simp [Text.ofString]
  simp [Xml.mayDeclare, hne] at this

namespace Ledger

variable {next : Nat} {made : List Binding}

/-- A mark stands for one declaration only. -/
theorem eq_of_mark_eq (h : Ledger next made) {b b' : Binding} (hb : b ∈ made)
    (hb' : b' ∈ made) (hm : b.mark = b'.mark)
    : b = b' :=
  List.inj_on_of_nodup_map h.marks hb hb' hm

theorem sound_of_mem (h : Ledger next made) {b : Binding} (hb : b ∈ made)
    (hlabel : b.label ≠ some ("xml" : Text))
    : b.Sound := by
  rcases h.sound b hb with rfl | hs
  · exact absurd rfl hlabel
  · exact hs

theorem isName_label (h : Ledger next made) {b : Binding} (hb : b ∈ made) {label : Text}
    (hl : b.label = some label)
    : IsName label := by
  rcases h.sound b hb with rfl | hs
  · cases hl
    exact isName_xml
  · exact hs.label label hl

theorem label_ne_xmlns (h : Ledger next made) {b : Binding} (hb : b ∈ made)
    : b.label ≠ some ("xmlns" : Text) := by
  rcases h.sound b hb with rfl | hs
  · simp [Binding.xml, Text.ofString]
  · exact hs.label_ne_xmlns

/-- A new declaration takes the next mark. -/
theorem append (h : Ledger next made) {b : Binding} (hm : b.mark = next) (hs : b.Sound)
    : Ledger (next + 1) (made ++ [b]) := by
  refine ⟨List.mem_append_left _ h.xml, ?_, ?_, ?_⟩
  · rw [List.map_append, List.map_singleton]
    refine List.nodup_append.mpr ⟨h.marks, List.nodup_singleton _, ?_⟩
    intro mark hmark _ hnew
    obtain ⟨b', hb', rfl⟩ := List.mem_map.mp hmark
    have := h.below b' hb'
    simp only [List.mem_singleton] at hnew
    omega
  · intro b' hb'
    rcases List.mem_append.mp hb' with hb' | hb'
    · exact Nat.lt_succ_of_lt (h.below b' hb')
    · rw [List.mem_singleton.mp hb', hm]
      exact Nat.lt_succ_self next
  · intro b' hb'
    rcases List.mem_append.mp hb' with hb' | hb'
    · exact h.sound b' hb'
    · rw [List.mem_singleton.mp hb']
      exact .inr hs

end Ledger

/-- Before anything is read there is only the declaration that every document has. -/
theorem ledger_nil : Ledger 1 [.xml] :=
  ⟨by simp, by simp, by simp [Binding.xml], by simp⟩

-----------------------------------------------------------------------------------------
-- Heads
-----------------------------------------------------------------------------------------

/-- A name that belongs to a declaration in the ledger, or to none. -/
structure Name.Sound (made : List Binding) (n : Name) : Prop where
  base : IsName n.base
  binding : ∀ b, n.binding = some b → b ∈ made ∧ b.uri ≠ []

/-- The spelling of a value with a reference to an entity in it. -/
def IsSpelling (s : Text) : Prop :=
  ∃ value : Value, (∀ r ∈ value, r.Sound) ∧ value.any Reference.isEntity
    ∧ s = value.flatMap Reference.spelled

/-- An attribute whose name has a label if it has a namespace, and does not declare one. -/
structure Attribute.Sound (made : List Binding) (a : Attribute) : Prop where
  name : a.name.Sound made
  labelled : ∀ b, a.name.binding = some b → b.label ≠ none
  plain : a.name.binding = none → a.name.base ≠ ("xmlns" : Text)
  value : ∀ c ∈ a.value, isChar c
  spelling : ∀ s, a.spelling = some s → IsSpelling s

/-- The head of an element whose declarations differ in their labels, and whose attributes
differ in their names.
-/
structure Head.Sound (made : List Binding) (h : Head) : Prop where
  name : h.name.Sound made
  bindings : ∀ b ∈ h.bindings, b ∈ made ∧ b.label ≠ some ("xml" : Text)
  labels : (h.bindings.map (·.label)).Nodup
  attributes : ∀ a ∈ h.attributes, a.Sound made
  distinct : (h.attributes.map fun a => (a.name.uri?, a.name.base)).Nodup

section Mono

variable {made more : List Binding}

theorem Name.Sound.mono {n : Name} (h : n.Sound made) (hsub : made ⊆ more) : n.Sound more :=
  ⟨h.base, fun b hb => ⟨hsub (h.binding b hb).1, (h.binding b hb).2⟩⟩

theorem Attribute.Sound.mono {a : Attribute} (h : a.Sound made) (hsub : made ⊆ more)
    : a.Sound more :=
  { h with name := h.name.mono hsub }

theorem Head.Sound.mono {h : Head} (hs : h.Sound made) (hsub : made ⊆ more)
    : h.Sound more :=
  { hs with
    name := hs.name.mono hsub
    bindings := fun b hb => ⟨hsub (hs.bindings b hb).1, (hs.bindings b hb).2⟩
    attributes := fun a ha => (hs.attributes a ha).mono hsub }

end Mono

/-- Fewer attributes are sound too. -/
theorem Head.Sound.sublist {made : List Binding} {h : Head} (hs : h.Sound made)
    {attributes : List Attribute} (hsub : attributes.Sublist h.attributes)
    : Head.Sound made { h with attributes } :=
  { hs with
    attributes := fun a ha => hs.attributes a (hsub.subset ha)
    distinct := (hsub.map _).nodup hs.distinct }

-----------------------------------------------------------------------------------------
-- Forests
-----------------------------------------------------------------------------------------

/-- Text, or a reference to an entity. -/
def Node.IsSoundLeaf : Node → Prop
  | .text s => ∀ c ∈ s, isChar c
  | .entity name => IsEntityName name
  | .element _ _ => False

/-- The heads and the leaves of a forest are sound. -/
structure Node.AllSound (made : List Binding) (nodes : List Node) : Prop where
  heads : ∀ h ∈ Node.allHeads nodes, h.Sound made
  leaves : ∀ leaf ∈ Node.allLeaves nodes, leaf.IsSoundLeaf

namespace Node.AllSound

variable {made more : List Binding} {nodes nodes' : List Node}

theorem nil : Node.AllSound made [] := ⟨by simp, by simp⟩

theorem element_iff {h : Head} {content : List Node}
    : Node.AllSound made (.element h content :: nodes)
      ↔ h.Sound made ∧ Node.AllSound made content ∧ Node.AllSound made nodes := by
  constructor
  · rintro ⟨hheads, hleaves⟩
    simp only [Node.allHeads_element, List.mem_cons, List.mem_append, Node.allLeaves]
      at hheads hleaves
    exact ⟨hheads h (.inl rfl),
      ⟨fun h hh => hheads h (.inr (.inl hh)), fun l hl => hleaves l (.inl hl)⟩,
      ⟨fun h hh => hheads h (.inr (.inr hh)), fun l hl => hleaves l (.inr hl)⟩⟩
  · rintro ⟨hh, hc, hn⟩
    constructor
    · intro h' hmem
      simp only [Node.allHeads_element, List.mem_cons, List.mem_append] at hmem
      rcases hmem with rfl | hmem | hmem
      · exact hh
      · exact hc.heads h' hmem
      · exact hn.heads h' hmem
    · intro l hmem
      simp only [Node.allLeaves, List.mem_append] at hmem
      rcases hmem with hmem | hmem
      · exact hc.leaves l hmem
      · exact hn.leaves l hmem

theorem text_iff {s : Text}
    : Node.AllSound made (.text s :: nodes)
      ↔ (∀ c ∈ s, isChar c) ∧ Node.AllSound made nodes := by
  constructor
  · rintro ⟨hheads, hleaves⟩
    simp only [Node.allHeads_text, Node.allLeaves, List.forall_mem_cons] at hheads hleaves
    exact ⟨hleaves.1, hheads, hleaves.2⟩
  · rintro ⟨hs, hn⟩
    exact ⟨by simpa using hn.heads, by simpa using ⟨hs, hn.leaves⟩⟩

theorem entity_iff {name : Text}
    : Node.AllSound made (.entity name :: nodes)
      ↔ IsEntityName name ∧ Node.AllSound made nodes := by
  constructor
  · rintro ⟨hheads, hleaves⟩
    simp only [Node.allHeads_entity, Node.allLeaves, List.forall_mem_cons] at hheads hleaves
    exact ⟨hleaves.1, hheads, hleaves.2⟩
  · rintro ⟨hs, hn⟩
    exact ⟨by simpa using hn.heads, by simpa using ⟨hs, hn.leaves⟩⟩

theorem append_iff
    : Node.AllSound made (nodes ++ nodes')
      ↔ Node.AllSound made nodes ∧ Node.AllSound made nodes' := by
  constructor
  · rintro ⟨hheads, hleaves⟩
    simp only [Node.allHeads_append, Node.allLeaves_append, List.mem_append]
      at hheads hleaves
    exact ⟨⟨fun h hh => hheads h (.inl hh), fun l hl => hleaves l (.inl hl)⟩,
      ⟨fun h hh => hheads h (.inr hh), fun l hl => hleaves l (.inr hl)⟩⟩
  · rintro ⟨hl, hr⟩
    constructor
    · intro h hh
      rw [Node.allHeads_append] at hh
      exact (List.mem_append.mp hh).elim (hl.heads h) (hr.heads h)
    · intro l hmem
      rw [Node.allLeaves_append] at hmem
      exact (List.mem_append.mp hmem).elim (hl.leaves l) (hr.leaves l)

theorem suffix {rest : List Node} (h : Node.AllSound made nodes) (hsuffix : rest <:+ nodes)
    : Node.AllSound made rest := by
  obtain ⟨before, rfl⟩ := hsuffix
  exact (append_iff.mp h).2

theorem mono (h : Node.AllSound made nodes) (hsub : made ⊆ more)
    : Node.AllSound more nodes :=
  ⟨fun head hh => (h.heads head hh).mono hsub, h.leaves⟩

/-- What holds of the heads of a forest that are related to sound ones. -/
theorem of_alike {R : Head → Head → Prop} (h : Node.AllSound made nodes)
    (halike : Alike R nodes nodes') (hR : ∀ h h', h.Sound made → R h h' → h'.Sound more)
    : Node.AllSound more nodes' := by
  constructor
  · have hall := halike.heads
    have hsound := h.heads
    generalize Node.allHeads nodes = heads at hall hsound
    generalize Node.allHeads nodes' = heads' at hall
    induction hall with
    | nil => simp
    | cons hrel _ ih =>
        simp only [List.forall_mem_cons] at hsound ⊢
        exact ⟨hR _ _ hsound.1 hrel, ih hsound.2⟩
  · rw [halike.leaves]
    exact h.leaves

end Node.AllSound

/-- An element as a forest of its own. -/
def Element.forest (e : Element) : List Node := [.element e.head e.content]

theorem Element.forest_injective {e e' : Element} (h : e.forest = e'.forest) : e = e' := by
  obtain ⟨head, content⟩ := e
  obtain ⟨head', content'⟩ := e'
  simpa [Element.forest] using h

theorem Element.heads_eq (e : Element) : e.heads = Node.allHeads e.forest := by
  simp [Element.heads, Element.forest]

theorem Document.eq_of_forest {d d' : Document} (hforest : d'.root.forest = d.root.forest)
    (hsupply : d'.supply = d.supply)
    : d' = d := by
  obtain ⟨root, supply⟩ := d
  obtain ⟨root', supply'⟩ := d'
  rw [Document.mk.injEq]
  exact ⟨Element.forest_injective hforest, hsupply⟩

/-- A document in which everything is sound. -/
structure Document.Sound (made : List Binding) (d : Document) : Prop where
  ledger : Ledger d.supply.mark made
  tree : Node.AllSound made d.root.forest

end SvgKit.Xml
