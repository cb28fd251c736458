import SvgKit.Proofs.Minify.Heads
import SvgKit.Proofs.Minify.Pruning

/-! Trees that differ only in which declarations their names belong to are treated alike by the
steps of a pass, relabelling and what follows it apart.
-/

namespace SvgKit.Minify

open Xml

-----------------------------------------------------------------------------------------
-- Heads that agree
-----------------------------------------------------------------------------------------

/-- Two attributes with the same value and namespace, which have any of the given names only
together.
-/
structure AttributeAgrees (P : Text → Prop) (a a' : Attribute) : Prop where
  uri : a'.name.uri? = a.name.uri?
  value : a'.value = a.value
  base : ∀ name, P name → (a'.name.base = name ↔ a.name.base = name)

/-- Two heads of the same name whose attributes agree in pairs. -/
structure HeadAgrees (P : Text → Prop) (h h' : Head) : Prop where
  name : h.name.Same h'.name
  attributes : List.Forall₂ (AttributeAgrees P) h.attributes h'.attributes

theorem attributeAgrees_of_same {a a' : Attribute} (ha : a.Same a')
    : AttributeAgrees (fun _ => True) a a' :=
  ⟨ha.name.uri, ha.value, fun name _ => by rw [ha.name.base]⟩

theorem headAgrees_of_same {h h' : Head} (hs : h.Same h') : HeadAgrees (fun _ => True) h h' :=
  ⟨hs.name, hs.attributes.imp fun _ _ => attributeAgrees_of_same⟩

theorem AttributeAgrees.isNone_binding {P : Text → Prop} {a a' : Attribute}
    (ha : AttributeAgrees P a a')
    : a'.name.binding.isNone = a.name.binding.isNone := by
  have huri := congrArg Option.isNone ha.uri
  rwa [Name.uri?, Name.uri?, Option.isNone_map, Option.isNone_map] at huri

theorem isNamed_of_agrees {P : Text → Prop} {a a' : Attribute} (ha : AttributeAgrees P a a')
    {name : Text} (hname : P name)
    : (a'.name.binding.isNone && a'.name.base = name)
      = (a.name.binding.isNone && a.name.base = name) := by
  rw [ha.isNone_binding, decide_eq_decide.mpr (ha.base name hname)]

theorem isEditorName_of_same {n n' : Name} (h : n.Same n') : isEditorName n' = isEditorName n := by
  rw [isEditorName, h.uri, isEditorName]

section Agreement

variable {P : Text → Prop} {h h' : Head} (hh : HeadAgrees P h h')
include hh

theorem get?_of_agrees {name : Text} (hname : P name) : h'.get? name = h.get? name := by
  have hall := hh.attributes
  unfold Head.get?
  generalize h.attributes = attributes at hall
  generalize h'.attributes = attributes' at hall
  induction hall with
  | nil => rfl
  | cons hfirst _ ih =>
      rw [List.find?_cons, List.find?_cons, isNamed_of_agrees hfirst hname]
      split
      · rw [Option.map_some, Option.map_some, hfirst.value]
      · exact ih

theorem setsProperty_of_agrees (hstyle : P "style") {property : Text} (hproperty : P property)
    : setsProperty property h' = setsProperty property h := by
  rw [setsProperty, setsProperty, get?_of_agrees hh hproperty, get?_of_agrees hh hstyle]

theorem isEditorElement_of_agrees : isEditorElement h' = isEditorElement h := by
  rw [isEditorElement, isEditorElement, hh.name.base, isEditorName_of_same hh.name]

theorem isDefs_of_agrees : isDefs h' = isDefs h := by
  rw [isDefs, isDefs, hh.name.base]

end Agreement

-----------------------------------------------------------------------------------------
-- Heads that are the same
-----------------------------------------------------------------------------------------

/-- Attributes that are the same in pairs. -/
abbrev SameAttributes : List Attribute → List Attribute → Prop := List.Forall₂ Attribute.Same

theorem isNamed_of_same {a a' : Attribute} (h : a.Same a') (name : Text)
    : (a'.name.binding.isNone && a'.name.base = name)
      = (a.name.binding.isNone && a.name.base = name) :=
  isNamed_of_agrees (attributeAgrees_of_same h) trivial

theorem get?_of_same {h h' : Head} (hs : h.Same h') (name : Text) : h'.get? name = h.get? name :=
  get?_of_agrees (headAgrees_of_same hs) trivial

/-- Attributes stay the same in pairs when a condition on what is the same picks them out. -/
theorem filter_of_same {attributes attributes' : List Attribute} {p p' : Attribute → Bool}
    (hall : SameAttributes attributes attributes')
    (hp : ∀ a a', a.Same a' → p' a' = p a)
    : SameAttributes (attributes.filter p) (attributes'.filter p') := by
  induction hall with
  | nil => exact .nil
  | @cons a a' _ _ hfirst _ ih =>
      rw [List.filter_cons, List.filter_cons, hp a a' hfirst]
      split
      · exact .cons hfirst ih
      · exact ih

theorem erase_of_same {h h' : Head} (hs : h.Same h') (name : Text)
    : (h.erase name).Same (h'.erase name) :=
  ⟨hs.name, filter_of_same hs.attributes fun _ _ ha => by rw [isNamed_of_same ha]⟩

theorem set_of_same {h h' : Head} (hs : h.Same h') (name value : Text)
    : (h.set name value).Same (h'.set name value) := by
  refine ⟨hs.name, ?_⟩
  simp only [Head.set, List.forall₂_map_left_iff, List.forall₂_map_right_iff]
  refine hs.attributes.imp fun a a' ha => ?_
  rw [isNamed_of_same ha]
  split
  · exact ⟨ha.name, rfl, rfl⟩
  · exact ha

theorem isEditorElement_of_same {h h' : Head} (hs : h.Same h')
    : isEditorElement h' = isEditorElement h :=
  isEditorElement_of_agrees (headAgrees_of_same hs)

theorem dropEditorAttributes_of_same {h h' : Head} (hs : h.Same h')
    : (dropEditorAttributes h).Same (dropEditorAttributes h') :=
  ⟨hs.name, filter_of_same hs.attributes fun _ _ ha => by rw [isEditorName_of_same ha.name]⟩

theorem dropUnusedId_of_same {h h' : Head} (hs : h.Same h') (used : List Text)
    : (dropUnusedId used h).Same (dropUnusedId used h') := by
  unfold dropUnusedId
  rw [get?_of_same hs]
  split
  · exact hs
  · split
    · exact hs
    · exact erase_of_same hs "id"

theorem setsProperty_of_same {h h' : Head} (hs : h.Same h') (property : Text)
    : setsProperty property h' = setsProperty property h :=
  setsProperty_of_agrees (headAgrees_of_same hs) trivial trivial

theorem any_setsProperty_of_same {outer outer' : List Head}
    (hout : List.Forall₂ Head.Same outer outer') (property : Text)
    : outer'.any (setsProperty property) = outer.any (setsProperty property) := by
  induction hout with
  | nil => rfl
  | cons hfirst _ ih =>
      rw [List.any_cons, List.any_cons, setsProperty_of_same hfirst, ih]

theorem dropDefaults_of_same {outer outer' : List Head} {h h' : Head}
    (hout : List.Forall₂ Head.Same outer outer') (hs : h.Same h')
    : (dropDefaults outer h).Same (dropDefaults outer' h') := by
  refine ⟨hs.name, filter_of_same hs.attributes fun a a' ha => ?_⟩
  rw [isRedundant, ha.name.isNone_binding, ha.name.base, ha.value,
    any_setsProperty_of_same hout, isRedundant]

theorem roundAttribute_of_same {precision : Int} {a a' b : Attribute} (ha : a.Same a')
    (h : roundAttribute precision a = .ok b)
    : ∃ b', roundAttribute precision a' = .ok b' ∧ b.Same b' := by
  unfold roundAttribute at h ⊢
  rw [ha.name.base, ha.value]
  by_cases hpath : isPathData a.name.base
  · rw [if_pos hpath] at h ⊢
    cases hv : compactPath precision a.value with
    | error e =>
        rw [hv] at h
        cases h
    | ok value =>
        rw [hv] at h
        cases h
        exact ⟨⟨a'.name, value, none⟩, rfl, ha.name, rfl, rfl⟩
  · rw [if_neg hpath] at h ⊢
    by_cases hnumeric : isNumeric a.name.base
    · rw [if_pos hnumeric] at h ⊢
      cases hv : compactNumbers precision a.value with
      | error e =>
          rw [hv] at h
          cases h
      | ok value =>
          rw [hv] at h
          cases h
          exact ⟨⟨a'.name, value, none⟩, rfl, ha.name, rfl, rfl⟩
    · rw [if_neg hnumeric] at h ⊢
      cases h
      exact ⟨a', rfl, ha⟩

theorem roundAttributes_of_same {precision : Int} {attributes attributes' done : List Attribute}
    (hall : SameAttributes attributes attributes')
    (hdone : List.Forall₂ (fun a b => roundAttribute precision a = .ok b) attributes done)
    : ∃ done', attributes'.mapM (roundAttribute precision) = .ok done'
      ∧ SameAttributes done done' := by
  induction hall generalizing done with
  | nil =>
      cases hdone
      exact ⟨[], rfl, .nil⟩
  | cons hfirst _ ih =>
      cases hdone with
      | cons hround hrest =>
          obtain ⟨b', hb', hsame⟩ := roundAttribute_of_same hfirst hround
          obtain ⟨done', hdone', hsames⟩ := ih hrest
          exact ⟨b' :: done', by rw [List.mapM_cons, hb', hdone']; rfl, .cons hsame hsames⟩

theorem roundNumbers_of_same {precision : Int} {h h' rounded : Head} (hs : h.Same h')
    (heq : roundNumbers precision h = .ok rounded)
    : ∃ rounded', roundNumbers precision h' = .ok rounded' ∧ rounded.Same rounded' := by
  unfold roundNumbers at heq ⊢
  cases hround : h.attributes.mapM (roundAttribute precision) with
  | error e =>
      rw [hround] at heq
      cases heq
  | ok attributes =>
      rw [hround] at heq
      cases heq
      obtain ⟨done', hdone', hsames⟩ :=
        roundAttributes_of_same hs.attributes (forall₂_of_mapM_eq_ok hround)
      exact ⟨{ h' with attributes := done' }, by rw [hdone']; rfl, hs.name, hsames⟩

theorem compactStyle_of_same {h h' : Head} (hs : h.Same h')
    : (compactStyle h).Same (compactStyle h') := by
  unfold compactStyle
  rw [get?_of_same hs]
  split
  · exact hs
  · split
    · exact set_of_same hs "style" _
    · exact erase_of_same hs "style"

theorem shortenHead_of_same {precision : Int} {outer outer' : List Head} {h h' short : Head}
    (hout : List.Forall₂ Head.Same outer outer') (hs : h.Same h')
    (heq : shortenHead precision outer h = .ok short)
    : ∃ short', shortenHead precision outer' h' = .ok short' ∧ short.Same short' := by
  unfold shortenHead at heq ⊢
  cases hround : roundNumbers precision (dropDefaults outer h) with
  | error e =>
      rw [hround] at heq
      cases heq
  | ok rounded =>
      rw [hround] at heq
      cases heq
      obtain ⟨rounded', hrounded', hsame⟩ :=
        roundNumbers_of_same (dropDefaults_of_same hout hs) hround
      exact ⟨_, by rw [hrounded']; rfl, compactStyle_of_same hsame⟩

-----------------------------------------------------------------------------------------
-- Forests
-----------------------------------------------------------------------------------------

section Forests

variable {nodes nodes' : List Node}

theorem mapAllHeads_of_same {f : Head → Head} (h : Alike Head.Same nodes nodes')
    (hf : ∀ h h', h.Same h' → (f h).Same (f h'))
    : Alike Head.Same (Node.mapAllHeads f nodes) (Node.mapAllHeads f nodes') := by
  induction h with
  | nil => simpa using .nil
  | element head _ _ inside behind => simpa using .element (hf _ _ head) inside behind
  | text s _ ih => simpa using .text s ih
  | entity name _ ih => simpa using .entity name ih

theorem any_heads_of_alike {R : Head → Head → Prop} {p : Head → Bool} (h : Alike R nodes nodes')
    (hp : ∀ h h', R h h' → p h' = p h)
    : (Node.allHeads nodes').any p = (Node.allHeads nodes).any p := by
  induction h with
  | nil => rfl
  | element head _ _ inside behind =>
      simp only [Node.allHeads_element, List.any_cons, List.any_append, hp _ _ head, inside,
        behind]
  | text s _ ih => simpa using ih
  | entity name _ ih => simpa using ih

theorem pruneNodes_of_same {p : Head → Head → Bool} {parent parent' : Head} {gone : Bool}
    (h : Alike Head.Same nodes nodes') (hparent : parent.Same parent')
    (hp : ∀ h h' head head', h.Same h' → head.Same head' → p h' head' = p h head)
    : Alike Head.Same (pruneNodes p parent gone nodes) (pruneNodes p parent' gone nodes') := by
  induction h generalizing parent parent' gone with
  | nil =>
      rw [pruneNodes, pruneNodes]
      exact .nil
  | element head _ _ inside behind =>
      rw [pruneNodes_element, pruneNodes_element, hp _ _ _ _ hparent head]
      split
      · exact behind hparent
      · exact .element head (inside head) (behind hparent)
  | text s _ ih =>
      rw [pruneNodes, pruneNodes]
      split
      · exact ih hparent
      · exact .text s (ih hparent)
  | entity name _ ih =>
      rw [pruneNodes, pruneNodes]
      exact .entity name (ih hparent)

theorem holdsUsedId_of_same {h h' : Head} (hs : h.Same h') (used : List Text)
    (hcontent : Alike Head.Same nodes nodes')
    : holdsUsedId used (.element h' nodes') = holdsUsedId used (.element h nodes) := by
  have hany := any_heads_of_alike (p := fun h => (h.get? "id").any used.contains) hcontent
    fun h h' hs => by rw [get?_of_same hs]
  rw [holdsUsedId, Node.heads, List.any_cons, get?_of_same hs, hany, holdsUsedId, Node.heads,
    List.any_cons]

theorem isDefs_of_same {h h' : Head} (hs : h.Same h') : isDefs h' = isDefs h :=
  isDefs_of_agrees (headAgrees_of_same hs)

theorem pruneAllDefs_of_same {inDefs gone : Bool} (h : Alike Head.Same nodes nodes')
    (used : List Text)
    : Alike Head.Same (pruneAllDefs used inDefs gone nodes)
      (pruneAllDefs used inDefs gone nodes') := by
  induction h generalizing inDefs gone with
  | nil =>
      rw [pruneAllDefs]
      exact .nil
  | element head hcontent _ inside behind =>
      rw [pruneAllDefs_element, pruneAllDefs_element, holdsUsedId_of_same head used hcontent]
      split
      · exact behind
      · rw [isDefs_of_same head]
        exact .element head inside behind
  | text s _ ih =>
      rw [pruneAllDefs, pruneAllDefs]
      split
      · exact ih
      · exact .text s ih
  | entity name _ ih =>
      rw [pruneAllDefs_entity, pruneAllDefs_entity]
      split
      · exact ih
      · exact .entity name ih

theorem flatMap_attributeReferences_of_same {attributes attributes' : List Attribute}
    (hall : SameAttributes attributes attributes')
    : attributes'.flatMap attributeReferences = attributes.flatMap attributeReferences := by
  induction hall with
  | nil => rfl
  | cons hfirst _ ih =>
      rw [List.flatMap_cons, List.flatMap_cons, ih, attributeReferences, hfirst.name.base,
        hfirst.value, attributeReferences]

/-- Shortening of trees that are the same gives such trees, by induction over the pair. -/
theorem shortenNodes_of_same {precision : Int} {outer outer' : List Head} {done : List Node}
    (h : Alike Head.Same nodes nodes') (hout : List.Forall₂ Head.Same outer outer')
    (heq : shortenNodes precision outer nodes = .ok done)
    : ∃ done', shortenNodes precision outer' nodes' = .ok done'
      ∧ Alike Head.Same done done' := by
  induction h generalizing outer outer' done with
  | nil =>
      rw [shortenNodes] at heq
      cases heq
      exact ⟨[], by rw [shortenNodes]; rfl, .nil⟩
  | element head _ _ inside behind =>
      obtain ⟨short, inner, rest, hshort, hinner, hrest, rfl⟩ := shortenNodes_element.mp heq
      obtain ⟨short', hshort', hsame⟩ := shortenHead_of_same hout head hshort
      obtain ⟨inner', hinner', halike⟩ := inside (.cons hsame hout) hinner
      obtain ⟨rest', hrest', halike'⟩ := behind hout hrest
      exact ⟨_, shortenNodes_element.mpr ⟨short', inner', rest', hshort', hinner', hrest', rfl⟩,
        .element hsame halike halike'⟩
  | text s _ ih =>
      obtain ⟨rest, hrest, rfl⟩ := shortenNodes_text.mp heq
      obtain ⟨rest', hrest', halike⟩ := ih hout hrest
      exact ⟨_, shortenNodes_text.mpr ⟨rest', hrest', rfl⟩, .text s halike⟩
  | entity name _ ih =>
      obtain ⟨rest, hrest, rfl⟩ := shortenNodes_entity.mp heq
      obtain ⟨rest', hrest', halike⟩ := ih hout hrest
      exact ⟨_, shortenNodes_entity.mpr ⟨rest', hrest', rfl⟩, .entity name halike⟩

end Forests

-----------------------------------------------------------------------------------------
-- Steps that change nothing
-----------------------------------------------------------------------------------------

theorem Rewrites.eq_of_same {a a' : Attribute} (hr : Rewrites a a') (hs : a.Same a')
    : a' = a := by
  obtain ⟨name, value, spelling⟩ := a
  obtain ⟨name', value', spelling'⟩ := a'
  obtain rfl : name' = name := hr.name
  obtain rfl : value' = value := hs.value
  obtain rfl : spelling' = spelling := hs.spelling
  rfl

/-- A head that is reduced to one that is the same stays as it is. -/
theorem Reduces.eq_of_same {h h' : Head} (hr : Reduces h h') (hs : h.Same h')
    : h' = h := by
  have hrewrites := hr.forall₂ hs.attributes.length_eq.symm
  have hsame := hs.attributes
  apply hr.eq_of_attributes_eq
  generalize h.attributes = attributes at hrewrites hsame
  generalize h'.attributes = attributes' at hrewrites hsame
  induction hrewrites with
  | nil => rfl
  | cons hfirst _ ih =>
      cases hsame with
      | cons hs hsames => rw [hfirst.eq_of_same hs, ih hsames]

theorem eq_of_reduces_of_same {nodes nodes' : List Node}
    (hr : Alike Reduces nodes nodes') (hs : Alike Head.Same nodes nodes')
    : nodes' = nodes := by
  induction hr with
  | nil => rfl
  | element head _ _ inside behind =>
      cases hs with
      | element head' inside' behind' =>
          rw [head.eq_of_same head', inside inside', behind behind']
  | text s _ ih =>
      cases hs with
      | text _ hs => rw [ih hs]
  | entity name _ ih =>
      cases hs with
      | entity _ hs => rw [ih hs]

end SvgKit.Minify
