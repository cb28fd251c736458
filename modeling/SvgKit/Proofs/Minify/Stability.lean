import SvgKit.Proofs.Minify.NormalForm
import SvgKit.Proofs.Xml.Markup

/-! A pass finds nothing to do in a document in normal form: it leaves the document as it is, if
each label that it would give is there already and each declaration is used.
-/

namespace SvgKit.Minify

open Xml

theorem Trims.eq_of_root_eq {d d' : Document} (h : Trims d d') (hroot : d'.root = d.root)
    : d' = d := by
  apply h.eq_of_same
  rw [hroot]
  exact Alike.refl .refl d.root.forest

-----------------------------------------------------------------------------------------
-- Removals
-----------------------------------------------------------------------------------------

theorem pruneNodes_eq_self {p : Head → Bool} {parent : Head} {nodes : List Node}
    (h : ∀ head ∈ Node.allHeads nodes, p head = false)
    : pruneNodes (fun _ h => p h) parent false nodes = nodes := by
  induction nodes using Node.forest_induction generalizing parent with
  | nil => rw [pruneNodes]
  | element head content nodes inside behind =>
      rw [Node.allHeads_element, List.forall_mem_cons, List.forall_mem_append] at h
      obtain ⟨hhead, hcontent, hnodes⟩ := h
      rw [pruneNodes_element, hhead, if_neg Bool.false_ne_true, inside hcontent, behind hnodes]
  | text s nodes ih =>
      rw [Node.allHeads_text] at h
      rw [pruneNodes, if_neg Bool.false_ne_true, ih h]
  | entity name nodes ih =>
      rw [Node.allHeads_entity] at h
      rw [pruneNodes, ih h]

/-- A document without content for drawing programs stays as it is when their content goes. -/
theorem removeEditorContent_eq_self {d : Document}
    (helements : ∀ h ∈ Node.allHeads d.root.content, isEditorElement h = false)
    (hattributes : ∀ h ∈ d.root.heads, ∀ a ∈ h.attributes, isEditorName a.name = false)
    : removeEditorContent d = d := by
  apply (trims_removeEditorContent d).eq_of_root_eq
  unfold removeEditorContent
  dsimp only
  rw [pruneNodes_eq_self helements]
  apply Element.mapHeads_eq_self_iff.mpr
  intro h hh
  have hkept : h.attributes.filter (fun a => !isEditorName a.name) = h.attributes := by
    apply List.filter_eq_self.mpr
    intro a ha
    rw [hattributes h hh a ha]
    rfl
  rw [dropEditorAttributes, hkept]

theorem erase_eq_self {h : Head} {name : Text} (hnone : h.get? name = none)
    : h.erase name = h := by
  have hkept : h.attributes.filter (fun a => !(a.name.binding.isNone && a.name.base = name))
      = h.attributes := by
    apply List.filter_eq_self.mpr
    intro a ha
    rw [Head.get?, Option.map_eq_none_iff, List.find?_eq_none] at hnone
    rw [Bool.eq_false_iff.mpr (hnone a ha)]
    rfl
  rw [Head.erase, hkept]

theorem dropVersion_eq_self {d : Document} (h : d.root.head.get? "version" = none)
    : dropVersion d = d := by
  rw [dropVersion, erase_eq_self h]

/-- Where each definition holds a used identifier, pruning leaves all of them, by induction over
the forest.
-/
theorem pruneAllDefs_eq_self {used : List Text} {inDefs : Bool} {outer : List Head}
    {nodes : List Node}
    (hchildren : inDefs → ∀ node ∈ nodes, node.isText = false → holdsUsedId used node)
    (hplaces : ∀ p ∈ places outer nodes, isDefs p.head →
      ∀ child ∈ p.content, child.isText = false → holdsUsedId used child)
    : pruneAllDefs used inDefs false nodes = nodes := by
  induction nodes using Node.forest_induction generalizing inDefs outer with
  | nil => rw [pruneAllDefs]
  | element head content nodes inside behind =>
      obtain ⟨hhere, hinside, hbehind⟩ := forall_mem_places_element.mp hplaces
      have hstays : (inDefs && !holdsUsedId used (.element head content)) = false := by
        cases hdefs : inDefs with
        | false => rfl
        | true => simp [hchildren hdefs _ List.mem_cons_self rfl]
      have hrest : inDefs → ∀ node ∈ nodes, node.isText = false → holdsUsedId used node :=
        fun hdefs node hnode => hchildren hdefs node (List.mem_cons_of_mem _ hnode)
      rw [pruneAllDefs_element, hstays, if_neg Bool.false_ne_true, inside hhere hinside,
        behind hrest hbehind]
  | text s nodes ih =>
      rw [places_text] at hplaces
      rw [pruneAllDefs, if_neg Bool.false_ne_true,
        ih (fun hdefs node hnode => hchildren hdefs node (List.mem_cons_of_mem _ hnode)) hplaces]
  | entity name nodes ih =>
      rw [places_entity] at hplaces
      obtain rfl : inDefs = false := by
        cases inDefs with
        | false => rfl
        | true =>
            have hholds := hchildren rfl _ List.mem_cons_self rfl
            simp [holdsUsedId, Node.heads] at hholds
      rw [pruneAllDefs_entity, if_neg Bool.false_ne_true, ih (fun h => by cases h) hplaces]

theorem dropUnusedId_eq_self {used : List Text} {h : Head}
    (hid : ∀ id, h.get? "id" = some id → id ∈ used)
    : dropUnusedId used h = h := by
  unfold dropUnusedId
  split
  · rfl
  · next id hsome => rw [if_pos (List.contains_iff_mem.mpr (hid id hsome))]

/-- A document whose identifiers and definitions are used keeps them. -/
theorem removeUnusedIds_eq_self {d : Document}
    (hids : isIdSensitive d.root = false →
      ∀ h ∈ Node.allHeads d.root.content, ∀ id, h.get? "id" = some id → id ∈ usedIds d.root)
    (hdefinitions : isIdSensitive d.root = false →
      ∀ p ∈ places [] d.root.forest, isDefs p.head →
        ∀ child ∈ p.content, child.isText = false → holdsUsedId (usedIds d.root) child)
    : removeUnusedIds d = d := by
  apply (trims_removeUnusedIds d).eq_of_root_eq
  unfold removeUnusedIds
  split
  · rfl
  · next hfree =>
      rw [Bool.not_eq_true] at hfree
      obtain ⟨hroot, hcontent, -⟩ := forall_mem_places_element.mp (hdefinitions hfree)
      dsimp only
      rw [pruneAllDefs_eq_self hroot hcontent]
      rw [Node.mapAllHeads_eq_self fun h hh => dropUnusedId_eq_self (hids hfree h hh)]

-----------------------------------------------------------------------------------------
-- Attributes
-----------------------------------------------------------------------------------------

theorem dropDefaults_eq_self {outer : List Head} {h : Head}
    (hset : ∀ a ∈ h.attributes, a.name.binding = none →
      presentationDefaults.lookup a.name.base = some a.value →
        ∃ head ∈ outer, setsProperty a.name.base head)
    : dropDefaults outer h = h := by
  have hkept : h.attributes.filter (fun a => !isRedundant outer a) = h.attributes := by
    apply List.filter_eq_self.mpr
    intro a ha
    rw [Bool.not_eq_true', Bool.eq_false_iff]
    intro hredundant
    simp only [isRedundant, Bool.and_eq_true, Option.isNone_iff_eq_none, decide_eq_true_eq]
      at hredundant
    obtain ⟨⟨hplain, hdefault⟩, hunset⟩ := hredundant
    obtain ⟨head, hhead, hsets⟩ := hset a ha hplain hdefault
    rw [List.any_eq_true.mpr ⟨head, hhead, hsets⟩] at hunset
    cases hunset
  rw [dropDefaults, hkept]

/-- An attribute whose value is rounded, and has no spelling of its own, stays as it is. -/
theorem roundAttribute_eq_self {precision : Int} {a : Attribute} (hplain : a.spelling = none)
    (hpath : isPathData a.name.base → compactPath precision a.value = .ok a.value)
    (hnumbers : isNumeric a.name.base → compactNumbers precision a.value = .ok a.value)
    : roundAttribute precision a = .ok a := by
  obtain ⟨name, value, spelling⟩ := a
  obtain rfl : spelling = none := hplain
  unfold roundAttribute
  split
  · next h =>
      rw [hpath h]
      rfl
  · split
    · next h =>
        rw [hnumbers h]
        rfl
    · rfl

theorem roundNumbers_eq_self {precision : Int} {h : Head}
    (hround : ∀ a ∈ h.attributes, roundAttribute precision a = .ok a)
    : roundNumbers precision h = .ok h := by
  have hall (attributes : List Attribute)
      (hround : ∀ a ∈ attributes, roundAttribute precision a = .ok a)
      : attributes.mapM (roundAttribute precision) = .ok attributes := by
    induction attributes with
    | nil => rfl
    | cons a attributes ih =>
        rw [List.forall_mem_cons] at hround
        rw [List.mapM_cons, hround.1, ih hround.2]
        rfl
  rw [roundNumbers, hall _ hround]
  rfl

/-- An attribute that is given the value that it has stays as it is. -/
theorem set_eq_self {made : List Binding} {h : Head} {name value : Text} (hs : h.Sound made)
    (hplain : h.Plain) (hvalue : h.get? name = some value)
    : h.set name value = h := by
  obtain ⟨found, hfound, rfl⟩ := Option.map_eq_some_iff.mp hvalue
  have hkept : (h.attributes.map fun a =>
      if a.name.binding.isNone && a.name.base = name then ⟨a.name, found.value, none⟩ else a)
      = h.attributes := by
    refine (List.map_congr_left fun a ha => ?_).trans (List.map_id _)
    split
    · next hnamed =>
        have hmem := List.mem_of_find?_eq_some hfound
        have hnamed' := List.find?_some hfound
        simp only [Bool.and_eq_true, Option.isNone_iff_eq_none, decide_eq_true_eq]
          at hnamed hnamed'
        have hsame : (a.name.uri?, a.name.base) = (found.name.uri?, found.name.base) := by
          rw [Name.uri?, Name.uri?, hnamed.1, hnamed'.1, hnamed.2, hnamed'.2]
        obtain rfl := List.inj_on_of_nodup_map hs.distinct ha hmem hsame
        have hspelling := hplain a ha
        obtain ⟨name, value, spelling⟩ := a
        obtain rfl : spelling = none := hspelling
        rfl
    · rfl
  rw [Head.set, hkept]

theorem compactStyle_eq_self {made : List Binding} {h : Head} (hs : h.Sound made)
    (hplain : h.Plain)
    (hstyle : ∀ style, h.get? "style" = some style → compactStyle? style = some style)
    : compactStyle h = h := by
  unfold compactStyle
  split
  · rfl
  · next style hget =>
      rw [hstyle style hget]
      exact set_eq_self hs hplain hget

theorem shortenHead_eq_ok_self {precision : Int} {outer : List Head} {h : Head}
    (hdefaults : dropDefaults outer h = h) (hround : roundNumbers precision h = .ok h)
    (hstyle : compactStyle h = h)
    : shortenHead precision outer h = .ok h := by
  rw [shortenHead, hdefaults, hround, Except.map, hstyle]

/-- Where shortening leaves each head as it is, it leaves the forest as it is, by induction over
the forest.
-/
theorem shortenNodes_eq_ok_self {precision : Int} {outer : List Head} {nodes : List Node}
    (h : ∀ p ∈ places outer nodes, shortenHead precision p.outer p.head = .ok p.head)
    : shortenNodes precision outer nodes = .ok nodes := by
  induction nodes using Node.forest_induction generalizing outer with
  | nil => rfl
  | element head content nodes inside behind =>
      obtain ⟨hhead, hinside, hbehind⟩ := forall_mem_places_element.mp h
      exact shortenNodes_element.mpr
        ⟨head, content, nodes, hhead, inside hinside, behind hbehind, rfl⟩
  | text s nodes ih =>
      rw [places_text] at h
      exact shortenNodes_text.mpr ⟨nodes, ih h, rfl⟩
  | entity name nodes ih =>
      rw [places_entity] at h
      exact shortenNodes_entity.mpr ⟨nodes, ih h, rfl⟩

theorem IsNormal.shortenElement {made : List Binding} {precision : Int} {e : Element}
    (hn : IsNormal precision e) (hs : Node.AllSound made e.forest)
    (hplain : ∀ h ∈ e.heads, h.Plain)
    : shortenElement precision e = .ok e := by
  apply shortenElement_eq_ok.mpr
  apply shortenNodes_eq_ok_self
  intro p hp
  have hforest := head_mem_of_mem_places hp
  have hh : p.head ∈ e.heads := Element.heads_eq e ▸ hforest
  apply shortenHead_eq_ok_self
  · exact dropDefaults_eq_self (hn.defaults p hp)
  · apply roundNumbers_eq_self
    intro a ha
    exact roundAttribute_eq_self (hplain p.head hh a ha) (hn.paths p.head hh a ha)
      (hn.numbers p.head hh a ha)
  · exact compactStyle_eq_self (hs.heads p.head hforest) (hplain p.head hh) (hn.styles p.head hh)

-----------------------------------------------------------------------------------------
-- Containers
-----------------------------------------------------------------------------------------

/-- Where no container would be collapsed, nothing is, by induction over the forest. -/
theorem collapseNodes_eq_self {outer : List Head} {nodes : List Node}
    (h : ∀ p ∈ places outer nodes, containerNames.contains p.head.name.base →
      beginsBlank p.behind →
        isEmptyContainer p.head p.content = false ∧ isBareGroup p.head p.content = false)
    (supply : Supply)
    : collapseNodes outer nodes supply = (nodes, supply) := by
  induction nodes using Node.forest_induction generalizing outer supply with
  | nil =>
      rw [collapseNodes]
      rfl
  | element head content nodes inside behind =>
      obtain ⟨hhere, hinside, hbehind⟩ := forall_mem_places_element.mp h
      rw [collapseNodes_eq, behind hbehind, inside hinside]
      split
      · rfl
      · next hcollapses =>
          simp only [Bool.or_eq_true, Bool.not_eq_true', not_or, Bool.not_eq_false]
            at hcollapses
          obtain ⟨hempty, hbare⟩ := hhere hcollapses.1 hcollapses.2
          rw [hempty, if_neg Bool.false_ne_true, hbare, if_neg Bool.false_ne_true]
  | text s nodes ih =>
      rw [places_text] at h
      rw [collapseNodes_text, ih h]
  | entity name nodes ih =>
      rw [places_entity] at h
      rw [collapseNodes_entity, ih h]

theorem IsNormal.collapseGroups {precision : Int} {d : Document} (hn : IsNormal precision d.root)
    : collapseGroups d = d := by
  rw [Minify.collapseGroups, collapseNodes_eq_self hn.containers]

-----------------------------------------------------------------------------------------
-- Labels
-----------------------------------------------------------------------------------------

/-- The labels and declarations that a pass leaves as they are. -/
structure HasFirstLabels (e : Element) : Prop where
  /-- A rewritten attribute of a namespace has the first label in scope for it. -/
  first : ∀ p ∈ places [] e.forest, ∀ a ∈ p.head.attributes, ∀ b, a.name.binding = some b →
    isPathData a.name.base || isNumeric a.name.base →
      usableBinding? (p.head :: p.outer) true b.uri = some b
  /-- A name uses the declaration. -/
  used : ∀ h ∈ e.heads, ∀ b ∈ h.bindings, b.mark ∈ e.heads.flatMap Head.marks

theorem usableBinding?_top (h : Head) (outer : List Head) (isAttribute : Bool) (uri : Text)
    : usableBinding? ({ name := .plain [], bindings := h.bindings } :: outer) isAttribute uri
      = usableBinding? (h :: outer) isAttribute uri :=
  rfl

/-- Relabelling leaves an attribute and the declarations as they are exactly if the attribute has
the first label.
-/
theorem relabelAttribute_eq_self_iff {outer : List Head} {a : Attribute} {bindings : List Binding}
    {supply : Supply}
    : relabelAttribute outer a (bindings, supply) = (a, bindings, supply)
      ↔ ∀ b, a.name.binding = some b → isPathData a.name.base || isNumeric a.name.base →
        usableBinding? ({ name := .plain [], bindings } :: outer) true b.uri = some b := by
  obtain ⟨⟨binding, base⟩, value, spelling⟩ := a
  unfold relabelAttribute
  cases binding with
  | none => simp
  | some old =>
      dsimp only
      cases hnumeric : isPathData base || isNumeric base with
      | false => simp
      | true =>
          rw [if_pos rfl]
          unfold findOrDeclare
          cases husable : usableBinding? ({ name := .plain [], bindings } :: outer) true
              old.uri with
          | none =>
              simp only [↓reduceIte, forall_const]
              constructor
              · intro h
                have hlength := congrArg (fun state => state.2.1.length) h
                simp at hlength
              · intro h
                rw [h old rfl] at husable
                cases husable
          | some b =>
              simp only [Bool.false_eq_true, ↓reduceIte, forall_const]
              constructor
              · intro h other hother
                have hb := congrArg (fun state => state.1.name.binding) h
                obtain rfl := Option.some.inj hother
                exact husable.trans hb
              · intro h
                obtain rfl := Option.some.inj ((h old rfl).symm.trans husable)
                rfl

/-- Relabelling leaves attributes and declarations as they are exactly if it leaves each attribute
so: what is declared once stays.
-/
theorem relabelAttributes_eq_self_iff {outer : List Head} {attributes : List Attribute}
    {bindings : List Binding} {supply : Supply}
    : attributes.mapM (relabelAttribute outer) (bindings, supply)
        = (attributes, bindings, supply)
      ↔ ∀ a ∈ attributes, relabelAttribute outer a (bindings, supply) = (a, bindings, supply) := by
  induction attributes with
  | nil =>
      simp only [List.not_mem_nil, false_implies, implies_true, iff_true]
      rfl
  | cons a attributes ih =>
      rw [List.forall_mem_cons, relabelAttributes_cons]
      dsimp only
      constructor
      · intro h
        rw [Prod.mk.injEq, List.cons.injEq] at h
        obtain ⟨⟨hfirst, hrest⟩, hstate⟩ := h
        rcases relabelAttribute_cases outer a bindings supply with ⟨new, hnew⟩ | ⟨hsame, -⟩
        · have hle := length_relabelAttributes outer attributes
            (relabelAttribute outer a (bindings, supply)).2.1
            (relabelAttribute outer a (bindings, supply)).2.2
          rw [hstate, hnew, List.length_append] at hle
          exact absurd hle (by simp)
        · rw [hsame] at hrest hstate
          exact ⟨Prod.ext hfirst hsame, ih.mp (Prod.ext hrest hstate)⟩
      · rintro ⟨hfirst, hrest⟩
        rw [hfirst, ih.mpr hrest]

theorem relabelHead_eq_self_iff {outer : List Head} {h : Head} {supply : Supply}
    : relabelHead outer h supply = (h, supply)
      ↔ ∀ a ∈ h.attributes, ∀ b, a.name.binding = some b →
        isPathData a.name.base || isNumeric a.name.base →
          usableBinding? (h :: outer) true b.uri = some b := by
  have hparts : relabelHead outer h supply = (h, supply)
      ↔ h.attributes.mapM (relabelAttribute outer) (h.bindings, supply)
        = (h.attributes, h.bindings, supply) := by
    obtain ⟨name, bindings, attributes⟩ := h
    rw [relabelHead_eq]
    generalize attributes.mapM (relabelAttribute outer) (bindings, supply) = result
    obtain ⟨done, declared, rest⟩ := result
    constructor
    · intro h
      obtain ⟨hhead, hsupply⟩ := Prod.mk.inj h
      obtain ⟨-, hbindings, hattributes⟩ := Head.mk.inj hhead
      exact congrArg₂ _ hattributes (congrArg₂ _ hbindings hsupply)
    · intro h
      obtain ⟨hattributes, hstate⟩ := Prod.mk.inj h
      obtain ⟨hbindings, hsupply⟩ := Prod.mk.inj hstate
      exact congrArg₂ _ (congrArg₂ (Head.mk name) hbindings hattributes) hsupply
  rw [hparts, relabelAttributes_eq_self_iff]
  simp only [relabelAttribute_eq_self_iff, usableBinding?_top]

/-- Relabelling leaves a forest as it is exactly if all rewritten attributes have the first labels,
by induction over the forest.
-/
theorem relabelNodes_eq_self_iff {outer : List Head} {nodes : List Node} {supply : Supply}
    : relabelNodes outer nodes supply = (nodes, supply)
      ↔ ∀ p ∈ places outer nodes, ∀ a ∈ p.head.attributes, ∀ b, a.name.binding = some b →
        isPathData a.name.base || isNumeric a.name.base →
          usableBinding? (p.head :: p.outer) true b.uri = some b := by
  induction nodes using Node.forest_induction generalizing outer with
  | nil => simp [relabelNodes_nil]
  | element h content nodes inside behind =>
      rw [forall_mem_places_element, ← inside, ← behind, ← @relabelHead_eq_self_iff outer h supply,
        relabelNodes_element]
      dsimp only
      constructor
      · intro heq
        obtain ⟨hnodes, hsupply⟩ := Prod.mk.inj heq
        obtain ⟨hfirst, hbehind⟩ := List.cons.inj hnodes
        obtain ⟨hhead, hinside⟩ := Node.element.inj hfirst
        -- what stays as it is declares nothing, so that the supply is the same all the way
        have hsupply₁ := (relabelHead_again outer h supply (by rw [hhead])).1
        rw [hhead, hsupply₁] at hinside hbehind hsupply
        have hsupply₂ := (relabelNodes_again (h :: outer) content supply (by rw [hinside])).1
        rw [hsupply₂] at hbehind hsupply
        exact ⟨Prod.ext hhead hsupply₁, Prod.ext hinside hsupply₂, Prod.ext hbehind hsupply⟩
      · rintro ⟨hhead, hinside, hbehind⟩
        rw [hhead, hinside, hbehind]
  | text s nodes ih =>
      rw [places_text, ← ih, relabelNodes_text]
      constructor
      · intro heq
        obtain ⟨hnodes, hsupply⟩ := Prod.mk.inj heq
        exact Prod.ext (List.cons.inj hnodes).2 hsupply
      · intro heq
        rw [heq]
  | entity name nodes ih =>
      rw [places_entity, ← ih, relabelNodes_entity]
      constructor
      · intro heq
        obtain ⟨hnodes, hsupply⟩ := Prod.mk.inj heq
        exact Prod.ext (List.cons.inj hnodes).2 hsupply
      · intro heq
        rw [heq]

theorem relabel_eq_self_iff {d : Document}
    : relabel d = d
      ↔ ∀ p ∈ places [] d.root.forest, ∀ a ∈ p.head.attributes, ∀ b, a.name.binding = some b →
        isPathData a.name.base || isNumeric a.name.base →
          usableBinding? (p.head :: p.outer) true b.uri = some b := by
  rw [← @relabelNodes_eq_self_iff [] d.root.forest d.supply, relabel_eq]
  constructor
  · intro h
    rw [h]
  · intro h
    obtain ⟨hforest, hsupply⟩ := Prod.mk.inj h
    exact Document.eq_of_forest hforest hsupply

theorem undeclare_eq_self_iff {d : Document}
    : undeclare d = d
      ↔ ∀ h ∈ d.root.heads, ∀ b ∈ h.bindings, b.mark ∈ d.root.heads.flatMap Head.marks := by
  have hhead (h : Head)
      : { h with bindings := h.bindings.filter fun b =>
            (d.root.heads.flatMap Head.marks).contains b.mark } = h
        ↔ ∀ b ∈ h.bindings, b.mark ∈ d.root.heads.flatMap Head.marks := by
    obtain ⟨name, bindings, attributes⟩ := h
    simp only [Head.mk.injEq, true_and, and_true, List.filter_eq_self, List.contains_iff_mem]
  have hroot : undeclare d = d ↔ d.root.dropUnused = d.root := by
    constructor
    · intro h
      exact congrArg Document.root h
    · intro h
      rw [undeclare, h]
  rw [hroot, Element.dropUnused, Element.mapHeads_eq_self_iff]
  simp only [hhead]

/-- A pass leaves the labels and declarations of a document as they are exactly if it has the first
labels and no unused declarations.
-/
theorem hasFirstLabels_iff {d : Document}
    : HasFirstLabels d.root ↔ relabel d = d ∧ undeclare d = d := by
  rw [relabel_eq_self_iff, undeclare_eq_self_iff]
  exact ⟨fun h => ⟨h.first, h.used⟩, fun h => ⟨h.1, h.2⟩⟩

-----------------------------------------------------------------------------------------
-- Passes
-----------------------------------------------------------------------------------------

/-- A document that a pass leaves as it is has the first labels. -/
theorem hasFirstLabels_of_pass {made : List Binding} {precision : Int} {d : Document}
    (hd : d.Sound made) (h : pass precision d = .ok d)
    : HasFirstLabels d.root := by
  obtain ⟨hsettled, hrelabel⟩ := settled_of_pass hd h rfl
  have hdeclarations := hsettled.declarations
  rw [← hrelabel] at hdeclarations
  exact hasFirstLabels_iff.mpr ⟨hrelabel.symm, hdeclarations⟩

/-- A pass leaves a document in normal form with the first labels as it is, if no attribute of it
refers to entities.
-/
theorem pass_eq_ok_self {made : List Binding} {precision : Int} {d : Document}
    (hd : d.Sound made) (hplain : ∀ h ∈ d.root.heads, h.Plain) (hn : IsNormal precision d.root)
    (hlabels : HasFirstLabels d.root)
    : pass precision d = .ok d := by
  obtain ⟨hrelabel, hundeclare⟩ := hasFirstLabels_iff.mp hlabels
  have hcleaned : removeUnusedIds (dropVersion (removeEditorContent d)) = d := by
    rw [removeEditorContent_eq_self hn.elements hn.attributes, dropVersion_eq_self hn.version,
      removeUnusedIds_eq_self hn.ids hn.definitions]
  apply pass_eq_ok.mpr
  refine ⟨d.root, ?_, ?_⟩
  · rw [hcleaned]
    exact hn.shortenElement hd.tree hplain
  · rw [hcleaned]
    change d = undeclare (collapseGroups (relabel d))
    rw [hrelabel, hn.collapseGroups, hundeclare]

end SvgKit.Minify
