import SvgKit.Proofs.Minify.Agreement

/-! What collapsing containers does to a tree, element by element. Which elements go is told by
what collapsing leaves in them; everything else stays in its order, and nothing is left that
would go.
-/

namespace SvgKit.Minify

open Xml

-----------------------------------------------------------------------------------------
-- Elements that go
-----------------------------------------------------------------------------------------

/-- A container without children, text and identifier, with no text behind it. -/
structure IsHollow (h : Head) (content behind : List Node) : Prop where
  container : containerNames.contains h.name.base
  childless : content.all Node.isText
  text : Text.allBlank (leadingText content)
  id : h.get? "id" = none
  behind : Text.allBlank (leadingText behind)

/-- A group without attributes and text of its own, with no text behind it. -/
structure IsSpare (h : Head) (content behind : List Node) : Prop where
  name : h.name.base = "g"
  attributes : h.attributes = []
  text : Text.allBlank (leadingText content)
  behind : Text.allBlank (leadingText behind)

theorem isHollow_iff {h : Head} {content behind : List Node}
    : IsHollow h content behind
      ↔ containerNames.contains h.name.base ∧ beginsBlank behind ∧ isEmptyContainer h content := by
  rw [isEmptyContainer, Bool.and_eq_true, Bool.and_eq_true, Option.isNone_iff_eq_none]
  constructor
  · rintro ⟨hname, hchildren, htext, hid, hbehind⟩
    exact ⟨hname, hbehind, ⟨hchildren, htext⟩, hid⟩
  · rintro ⟨hname, hbehind, ⟨hchildren, htext⟩, hid⟩
    exact ⟨hname, hchildren, htext, hid, hbehind⟩

theorem isSpare_iff {h : Head} {content behind : List Node}
    : IsSpare h content behind
      ↔ containerNames.contains h.name.base ∧ beginsBlank behind ∧ isBareGroup h content := by
  have hgroup : containerNames.contains (Text.ofString "g") := by with_unfolding_all decide
  rw [isBareGroup, Bool.and_eq_true, Bool.and_eq_true, decide_eq_true_eq, List.isEmpty_iff]
  constructor
  · rintro ⟨hname, hattributes, htext, hbehind⟩
    exact ⟨hname ▸ hgroup, hbehind, ⟨hname, hattributes⟩, htext⟩
  · rintro ⟨-, hbehind, ⟨hname, hattributes⟩, htext⟩
    exact ⟨hname, hattributes, htext, hbehind⟩

/-- Whether an element goes depends on its name and attributes and the shape of what is in it and
behind it.
-/
theorem isHollow_of_same {h h' : Head} (hh : h.Same h')
    {content content' behind behind' : List Node}
    (hcontent : Alike Head.Same content content')
    (hbehind : leadingText behind' = leadingText behind)
    : IsHollow h' content' behind' ↔ IsHollow h content behind := by
  rw [isHollow_iff, isHollow_iff, hh.name.base, beginsBlank, hbehind,
    isEmptyContainer_of_agrees (headAgrees_of_same hh) trivial hcontent, beginsBlank]

theorem isSpare_of_same {h h' : Head} (hh : h.Same h')
    {content content' behind behind' : List Node}
    (hcontent : Alike Head.Same content content')
    (hbehind : leadingText behind' = leadingText behind)
    : IsSpare h' content' behind' ↔ IsSpare h content behind := by
  rw [isSpare_iff, isSpare_iff, hh.name.base, beginsBlank, hbehind,
    isBareGroup_of_agrees (headAgrees_of_same hh) hcontent, beginsBlank]

/-- What becomes of an element: it stays, it goes with what is in it, or its children take its
place.
-/
inductive Verdict where
  | kept
  | removed
  | opened
  deriving Repr, DecidableEq

/-- A forest, what becomes of its elements in document order, and what is left of it. An element is
judged by what is left in it; of the children that take the place of one only the declarations are
adapted.
-/
inductive Collapses : List Node → List Verdict → List Node → Prop where
  | nil : Collapses [] [] []
  | keep {h : Head} {content inner nodes left : List Node} {vs ws : List Verdict}
      (inside : Collapses content vs inner) (behind : Collapses nodes ws left)
      (hollow : ¬ IsHollow h inner nodes) (spare : ¬ IsSpare h inner nodes)
      : Collapses (.element h content :: nodes) (.kept :: (vs ++ ws)) (.element h inner :: left)
  | remove {h : Head} {content inner nodes left : List Node} {vs ws : List Verdict}
      (inside : Collapses content vs inner) (behind : Collapses nodes ws left)
      (hollow : IsHollow h inner nodes)
      : Collapses (.element h content :: nodes) (.removed :: (vs ++ ws)) (dropText left)
  | unwrap {h : Head} {content inner moved nodes left : List Node} {vs ws : List Verdict}
      (inside : Collapses content vs inner) (behind : Collapses nodes ws left)
      (hollow : ¬ IsHollow h inner nodes) (spare : IsSpare h inner nodes)
      (adapted : Alike Head.Same (dropText inner) moved)
      : Collapses (.element h content :: nodes) (.opened :: (vs ++ ws)) (moved ++ dropText left)
  | text (s : Text) {nodes left : List Node} {vs : List Verdict} (behind : Collapses nodes vs left)
      : Collapses (.text s :: nodes) vs (.text s :: left)
  | entity (name : Text) {nodes left : List Node} {vs : List Verdict}
      (behind : Collapses nodes vs left)
      : Collapses (.entity name :: nodes) vs (.entity name :: left)

-----------------------------------------------------------------------------------------
-- Texts
-----------------------------------------------------------------------------------------

theorem leadingText_dropText (nodes : List Node) : leadingText (dropText nodes) = [] := by
  induction nodes with
  | nil => rfl
  | cons node nodes ih =>
      cases node with
      | text s => exact ih
      | element h content => rfl
      | entity name => rfl

theorem leadingText_append_dropText (nodes more : List Node)
    : leadingText (nodes ++ dropText more) = leadingText nodes := by
  induction nodes with
  | nil => exact leadingText_dropText more
  | cons node nodes ih =>
      cases node with
      | text s => rw [List.cons_append, leadingText, leadingText, ih]
      | element h content => rfl
      | entity name => rfl

/-- What is left of a forest begins with the same text. -/
theorem Collapses.leadingText_eq {nodes left : List Node} {vs : List Verdict}
    (h : Collapses nodes vs left)
    : leadingText left = leadingText nodes := by
  induction h with
  | nil => rfl
  | keep => rfl
  | remove => exact leadingText_dropText _
  | unwrap _ _ _ _ adapted =>
      rw [leadingText_append_dropText, leadingText_of_alike adapted, leadingText_dropText]
      rfl
  | text s _ ih => rw [leadingText, leadingText, ih]
  | entity => rfl

/-- Collapsing tells of every element what becomes of it, by induction over the forest. -/
theorem exists_collapses {made : List Binding} {outer : List Head} {nodes : List Node}
    {supply : Supply} (hout : PathSound made outer) (hledger : Ledger supply.mark made)
    (hnodes : Node.AllSound made nodes)
    : ∃ vs, Collapses nodes vs (collapseNodes outer nodes supply).1 := by
  induction nodes using Node.forest_induction generalizing made outer supply with
  | nil =>
      rw [collapseNodes]
      exact ⟨[], .nil⟩
  | element h content nodes inside behind =>
      obtain ⟨hhead, hcontent, hnodes⟩ := Node.AllSound.element_iff.mp hnodes
      obtain ⟨made₁, hsub₁, hledger₁, -⟩ := collapseNodes_spec hout hledger hnodes
      have hout₁ := PathSound.cons (hhead.mono hsub₁).mem_made (hout.mono hsub₁)
      have hcontent₁ := hcontent.mono hsub₁
      obtain ⟨made₂, hsub₂, hledger₂, hinner, -⟩ := collapseNodes_spec hout₁ hledger₁ hcontent₁
      obtain ⟨vs, hinside⟩ := inside hout₁ hledger₁ hcontent₁
      obtain ⟨ws, hbehind⟩ := behind hout hledger hnodes
      rw [collapseNodes_eq]
      generalize collapseNodes outer nodes supply = rest at *
      generalize collapseNodes (h :: outer) content rest.2 = inner at *
      have hblank : beginsBlank rest.1 = beginsBlank nodes := by
        rw [beginsBlank, hbehind.leadingText_eq, beginsBlank]
      rw [hblank]
      split
      · next hstays =>
          have hnot : ¬ (containerNames.contains h.name.base ∧ beginsBlank nodes) := by
            rintro ⟨hname, hblank⟩
            rw [hname, hblank] at hstays
            cases hstays
          exact ⟨_, .keep hinside hbehind (fun hh => hnot ⟨hh.container, hh.behind⟩)
            fun hs => hnot ⟨(isSpare_iff.mp hs).1, hs.behind⟩⟩
      · next hgoes =>
          have hplace : containerNames.contains h.name.base ∧ beginsBlank nodes := by
            simpa using hgoes
          split
          · next hempty =>
              exact ⟨_, .remove hinside hbehind (isHollow_iff.mpr ⟨hplace.1, hplace.2, hempty⟩)⟩
          · next hfull =>
              have hhollow : ¬ IsHollow h inner.1 nodes := fun hh =>
                hfull (isHollow_iff.mp hh).2.2
              split
              · next hbare =>
                  obtain ⟨_, -, -, -, halike⟩ := adaptAll_spec ((hout.mono hsub₁).mono hsub₂)
                    hledger₂ (hinner.suffix (dropText_suffix _))
                  exact ⟨_, .unwrap hinside hbehind hhollow
                    (isSpare_iff.mpr ⟨hplace.1, hplace.2, hbare⟩) halike⟩
              · next hnamed =>
                  exact ⟨_, .keep hinside hbehind hhollow fun hs =>
                    hnamed (isSpare_iff.mp hs).2.2⟩
  | text s nodes ih =>
      obtain ⟨vs, hvs⟩ := ih hout hledger (Node.AllSound.text_iff.mp hnodes).2
      rw [collapseNodes_text]
      exact ⟨vs, .text s hvs⟩
  | entity name nodes ih =>
      obtain ⟨vs, hvs⟩ := ih hout hledger (Node.AllSound.entity_iff.mp hnodes).2
      rw [collapseNodes_entity]
      exact ⟨vs, .entity name hvs⟩

-----------------------------------------------------------------------------------------
-- Nothing left to collapse
-----------------------------------------------------------------------------------------

/-- No element in the forest goes. -/
def NoneGoes (outer : List Head) (nodes : List Node) : Prop :=
  ∀ p ∈ places outer nodes,
    ¬ IsHollow p.head p.content p.behind ∧ ¬ IsSpare p.head p.content p.behind

theorem noneGoes_element {outer : List Head} {h : Head} {content nodes : List Node}
    : NoneGoes outer (.element h content :: nodes)
      ↔ (¬ IsHollow h content nodes ∧ ¬ IsSpare h content nodes)
        ∧ NoneGoes (h :: outer) content ∧ NoneGoes outer nodes :=
  forall_mem_places_element

theorem noneGoes_text {outer : List Head} {s : Text} {nodes : List Node}
    : NoneGoes outer (.text s :: nodes) ↔ NoneGoes outer nodes := by
  rw [NoneGoes, places_text, NoneGoes]

theorem noneGoes_entity {outer : List Head} {name : Text} {nodes : List Node}
    : NoneGoes outer (.entity name :: nodes) ↔ NoneGoes outer nodes := by
  rw [NoneGoes, places_entity, NoneGoes]

theorem noneGoes_dropText {outer : List Head} {nodes : List Node}
    : NoneGoes outer (dropText nodes) ↔ NoneGoes outer nodes := by
  induction nodes with
  | nil => rfl
  | cons node nodes ih =>
      cases node with
      | text s => rw [dropText, ih, noneGoes_text]
      | element h content => rfl
      | entity name => rfl

/-- Whether elements go depends on the shape of the forest only, not on where it stands. -/
theorem NoneGoes.of_alike {nodes nodes' : List Node} (halike : Alike Head.Same nodes nodes')
    {outer outer' : List Head} (h : NoneGoes outer nodes)
    : NoneGoes outer' nodes' := by
  induction halike generalizing outer outer' with
  | nil => simp [NoneGoes]
  | element head hcontent hnodes inside behind =>
      obtain ⟨⟨hhollow, hspare⟩, hinside, hbehind⟩ := noneGoes_element.mp h
      have htext := leadingText_of_alike hnodes
      refine noneGoes_element.mpr ⟨⟨?_, ?_⟩, inside hinside, behind hbehind⟩
      · rwa [isHollow_of_same head hcontent htext]
      · rwa [isSpare_of_same head hcontent htext]
  | text s _ ih => exact noneGoes_text.mpr (ih (noneGoes_text.mp h))
  | entity name _ ih => exact noneGoes_entity.mpr (ih (noneGoes_entity.mp h))

/-- Children that take the place of a group do not get text behind them, so none of them goes. -/
theorem NoneGoes.append_dropText {outer : List Head} {nodes more : List Node}
    (h : NoneGoes outer nodes) (hmore : NoneGoes outer more)
    : NoneGoes outer (nodes ++ dropText more) := by
  induction nodes with
  | nil => exact noneGoes_dropText.mpr hmore
  | cons node nodes ih =>
      cases node with
      | text s => exact noneGoes_text.mpr (ih (noneGoes_text.mp h))
      | entity name => exact noneGoes_entity.mpr (ih (noneGoes_entity.mp h))
      | element head content =>
          obtain ⟨⟨hhollow, hspare⟩, hinside, hbehind⟩ := noneGoes_element.mp h
          have htext := leadingText_append_dropText nodes more
          have hsame := Alike.refl Head.Same.refl content
          rw [List.cons_append]
          refine noneGoes_element.mpr ⟨⟨?_, ?_⟩, hinside, ih hbehind⟩
          · rwa [isHollow_of_same (.refl head) hsame htext]
          · rwa [isSpare_of_same (.refl head) hsame htext]

/-- No element that is left would go, by induction over what is collapsed. -/
theorem Collapses.noneGoes {nodes left : List Node} {vs : List Verdict}
    (h : Collapses nodes vs left) (outer : List Head)
    : NoneGoes outer left := by
  induction h generalizing outer with
  | nil => simp [NoneGoes]
  | @keep h _ inner _ _ _ _ _ hbehind hollow spare inside behind =>
      have hsame := Alike.refl Head.Same.refl inner
      have htext := hbehind.leadingText_eq
      refine noneGoes_element.mpr ⟨⟨?_, ?_⟩, inside (h :: outer), behind outer⟩
      · rwa [isHollow_of_same (.refl h) hsame htext]
      · rwa [isSpare_of_same (.refl h) hsame htext]
  | remove _ _ _ _ behind => exact noneGoes_dropText.mpr (behind outer)
  | unwrap _ _ _ _ adapted inside behind =>
      exact ((noneGoes_dropText.mpr (inside outer)).of_alike adapted).append_dropText
        (behind outer)
  | text s _ ih => exact noneGoes_text.mpr (ih outer)
  | entity name _ ih => exact noneGoes_entity.mpr (ih outer)

-----------------------------------------------------------------------------------------
-- Everything else
-----------------------------------------------------------------------------------------

/-- What can be found in a forest: an element, a reference to an entity, or text that is not blank.
-/
inductive Landmark where
  | element (h : Head)
  | entity (name : Text)
  | text (s : Text)
  deriving Repr, DecidableEq

/-- Elements of the same name with the same attributes, and equal texts and references. -/
inductive Landmark.Same : Landmark → Landmark → Prop where
  | element {h h' : Head} (head : h.Same h') : Landmark.Same (.element h) (.element h')
  | entity (name : Text) : Landmark.Same (.entity name) (.entity name)
  | text (s : Text) : Landmark.Same (.text s) (.text s)

/-- The text that a forest begins with, unless it is blank. -/
def leadingLandmark (nodes : List Node) : List Landmark :=
  if beginsBlank nodes then [] else [.text (leadingText nodes)]

/-- What can be found in a forest behind the text that it begins with, in document order: each
element is followed by the text that its content begins with, by what else is in it, and by the
text behind it.
-/
def landmarks : List Node → List Landmark
  | [] => []
  | .element h content :: nodes =>
    .element h :: (leadingLandmark content ++ landmarks content
      ++ (leadingLandmark nodes ++ landmarks nodes))
  | .text _ :: nodes => landmarks nodes
  | .entity name :: nodes => .entity name :: (leadingLandmark nodes ++ landmarks nodes)

theorem landmarks_element (h : Head) (content nodes : List Node)
    : landmarks (.element h content :: nodes)
      = .element h :: (leadingLandmark content ++ landmarks content
        ++ (leadingLandmark nodes ++ landmarks nodes)) := by
  rw [landmarks]

/-- The landmarks without the elements that do not stay. -/
def retain : List Landmark → List Verdict → List Landmark
  | .element h :: marks, v :: vs =>
    if v = .kept then .element h :: retain marks vs else retain marks vs
  | mark :: marks, vs => mark :: retain marks vs
  | [], _ => []

/-- The head of an element among the landmarks. -/
def Landmark.head? : Landmark → Option Head
  | .element h => some h
  | _ => none

theorem head?_leadingLandmark (nodes : List Node)
    : (leadingLandmark nodes).filterMap Landmark.head? = [] := by
  unfold leadingLandmark
  split <;> rfl

/-- All elements are landmarks. -/
theorem heads_landmarks (nodes : List Node)
    : (landmarks nodes).filterMap Landmark.head? = Node.allHeads nodes := by
  induction nodes using Node.forest_induction with
  | nil => simp [landmarks]
  | element h content nodes inside behind =>
      simp [landmarks, Landmark.head?, head?_leadingLandmark, inside, behind]
  | text s nodes ih => simpa [landmarks] using ih
  | entity name nodes ih =>
      rw [landmarks, List.filterMap_cons_none rfl, List.filterMap_append, head?_leadingLandmark, ih,
        Node.allHeads_entity, List.nil_append]

theorem Collapses.length_eq {nodes left : List Node} {vs : List Verdict}
    (h : Collapses nodes vs left)
    : vs.length = (Node.allHeads nodes).length := by
  induction h with
  | nil => simp
  | keep _ _ _ _ inside behind => simp [inside, behind]
  | remove _ _ _ inside behind => simp [inside, behind]
  | unwrap _ _ _ _ _ inside behind => simp [inside, behind]
  | text s _ ih => simpa using ih
  | entity name _ ih => simpa using ih

/-- Verdicts on the elements among the first landmarks concern these only. -/
theorem retain_append {marks more : List Landmark} {vs ws : List Verdict}
    (hlength : vs.length = (marks.filterMap Landmark.head?).length)
    : retain (marks ++ more) (vs ++ ws) = retain marks vs ++ retain more ws := by
  induction marks generalizing vs with
  | nil =>
      obtain rfl : vs = [] := List.length_eq_zero_iff.mp hlength
      rfl
  | cons mark marks ih =>
      cases mark with
      | element h =>
          cases vs with
          | nil => cases hlength
          | cons v vs =>
              have hrest := ih (Nat.succ_inj.mp hlength)
              simp only [List.cons_append, retain, hrest]
              split <;> rfl
      | entity name =>
          simp only [List.cons_append, retain, ih hlength]
      | text s =>
          simp only [List.cons_append, retain, ih hlength]

theorem retain_leadingLandmark (nodes : List Node) (marks : List Landmark) (vs : List Verdict)
    : retain (leadingLandmark nodes ++ marks) vs = leadingLandmark nodes ++ retain marks vs := by
  unfold leadingLandmark
  split
  · rfl
  · rw [List.singleton_append, retain]
    · rfl
    · simp

theorem leadingLandmark_congr {nodes nodes' : List Node}
    (h : leadingText nodes' = leadingText nodes)
    : leadingLandmark nodes' = leadingLandmark nodes := by
  rw [leadingLandmark, leadingLandmark, beginsBlank, beginsBlank, h]

theorem leadingLandmark_eq_nil {nodes : List Node} (h : Text.allBlank (leadingText nodes))
    : leadingLandmark nodes = [] :=
  if_pos h

theorem landmarks_dropText (nodes : List Node) : landmarks (dropText nodes) = landmarks nodes := by
  induction nodes with
  | nil => rfl
  | cons node nodes ih =>
      cases node with
      | text s => rw [dropText, ih, landmarks]
      | element h content => rfl
      | entity name => rfl

theorem landmarks_of_all_isText {nodes : List Node} (h : nodes.all Node.isText)
    : landmarks nodes = [] := by
  rw [← landmarks_dropText, dropText_eq_nil h, landmarks]

theorem landmarks_append_dropText (nodes more : List Node)
    : landmarks (nodes ++ dropText more) = landmarks nodes ++ landmarks more := by
  induction nodes with
  | nil => rw [List.nil_append, landmarks_dropText, landmarks, List.nil_append]
  | cons node nodes ih =>
      have hleading := leadingLandmark_congr (leadingText_append_dropText nodes more)
      rw [List.cons_append]
      cases node with
      | text s => rw [landmarks, landmarks, ih]
      | element h content =>
          rw [landmarks, landmarks, ih, hleading]
          simp
      | entity name =>
          rw [landmarks, landmarks, ih, hleading]
          simp

section Same

variable {marks marks' marks'' : List Landmark}

theorem same_refl (marks : List Landmark) : List.Forall₂ Landmark.Same marks marks := by
  refine List.forall₂_same.mpr fun mark _ => ?_
  cases mark with
  | element h => exact .element (.refl h)
  | entity name => exact .entity name
  | text s => exact .text s

theorem same_trans (h : List.Forall₂ Landmark.Same marks marks')
    (h' : List.Forall₂ Landmark.Same marks' marks'')
    : List.Forall₂ Landmark.Same marks marks'' := by
  induction h generalizing marks'' with
  | nil => exact h'
  | cons hfirst _ ih =>
      cases h' with
      | cons hfirst' hrest' =>
          refine .cons ?_ (ih hrest')
          cases hfirst with
          | element head =>
              cases hfirst' with
              | element head' => exact .element (head.trans head')
          | entity name => exact hfirst'
          | text s => exact hfirst'

end Same

theorem landmarks_of_alike {nodes nodes' : List Node} (h : Alike Head.Same nodes nodes')
    : List.Forall₂ Landmark.Same (landmarks nodes) (landmarks nodes') := by
  induction h with
  | nil =>
      rw [landmarks]
      exact .nil
  | element head hcontent hnodes inside behind =>
      rw [landmarks, landmarks, leadingLandmark_congr (leadingText_of_alike hcontent),
        leadingLandmark_congr (leadingText_of_alike hnodes)]
      exact .cons (.element head) (List.rel_append (List.rel_append (same_refl _) inside)
        (List.rel_append (same_refl _) behind))
  | text s _ ih =>
      rw [landmarks, landmarks]
      exact ih
  | entity name hnodes ih =>
      rw [landmarks, landmarks, leadingLandmark_congr (leadingText_of_alike hnodes)]
      exact .cons (.entity name) (List.rel_append (same_refl _) ih)

/-- The verdicts on an element, on what is in it and on what is behind it. -/
theorem retain_element {h : Head} {content nodes inner : List Node} {v : Verdict}
    {vs ws : List Verdict} (hinside : Collapses content vs inner)
    : retain (landmarks (.element h content :: nodes)) (v :: (vs ++ ws))
      = (if v = .kept then [.element h] else [])
        ++ (leadingLandmark content ++ retain (landmarks content) vs
          ++ (leadingLandmark nodes ++ retain (landmarks nodes) ws)) := by
  have hlength : vs.length = ((landmarks content).filterMap Landmark.head?).length := by
    rw [hinside.length_eq, heads_landmarks]
  rw [landmarks, retain, List.append_assoc, retain_leadingLandmark, retain_append hlength,
    retain_leadingLandmark, List.append_assoc]
  split <;> rfl

/-- Everything but the elements that do not stay is left in its order, by induction over what is
collapsed.
-/
theorem Collapses.landmarks_same {nodes left : List Node} {vs : List Verdict}
    (h : Collapses nodes vs left)
    : List.Forall₂ Landmark.Same (retain (landmarks nodes) vs) (landmarks left) := by
  induction h with
  | nil =>
      rw [landmarks, retain]
      exact .nil
  | @keep h _ _ _ _ _ _ hinside hbehind _ _ inside behind =>
      rw [retain_element hinside, if_pos rfl, landmarks,
        leadingLandmark_congr hinside.leadingText_eq,
        leadingLandmark_congr hbehind.leadingText_eq]
      exact .cons (.element (.refl h)) (List.rel_append (List.rel_append (same_refl _) inside)
        (List.rel_append (same_refl _) behind))
  | remove hinside hbehind hollow inside behind =>
      have hcontent := leadingLandmark_eq_nil hollow.text
      rw [leadingLandmark_congr hinside.leadingText_eq] at hcontent
      rw [landmarks_of_all_isText hollow.childless] at inside
      rw [retain_element hinside, if_neg (by decide), hcontent,
        List.forall₂_nil_right_iff.mp inside, leadingLandmark_eq_nil hollow.behind,
        landmarks_dropText]
      exact behind
  | unwrap hinside hbehind _ spare adapted inside behind =>
      have hcontent := leadingLandmark_eq_nil spare.text
      rw [leadingLandmark_congr hinside.leadingText_eq] at hcontent
      have hmoved := landmarks_of_alike adapted
      rw [landmarks_dropText] at hmoved
      rw [retain_element hinside, if_neg (by decide), hcontent,
        leadingLandmark_eq_nil spare.behind, landmarks_append_dropText]
      exact List.rel_append (same_trans inside hmoved) behind
  | text s _ ih =>
      rw [landmarks, landmarks]
      exact ih
  | @entity name _ _ vs hbehind ih =>
      rw [landmarks, landmarks, leadingLandmark_congr hbehind.leadingText_eq, retain,
        retain_leadingLandmark]
      · exact .cons (.entity name) (List.rel_append (same_refl _) ih)
      · simp

/-- Collapsing containers takes out of a document, below the root, hollow containers and spare
groups, as what is left in them tells. All other elements, the references to entities and all text
that is not blank stay as they are and in their order, and no element is left below the root that
is hollow or spare.
-/
theorem collapses_collapseGroups {made : List Binding} {d : Document} (hd : d.Sound made)
    : ∃ vs, Collapses d.root.content vs (collapseGroups d).root.content
      ∧ (collapseGroups d).root.head = d.root.head
      ∧ List.Forall₂ Landmark.Same (retain (landmarks d.root.forest) (.kept :: vs))
        (landmarks (collapseGroups d).root.forest)
      ∧ ∀ p ∈ places [d.root.head] (collapseGroups d).root.content,
        ¬ IsHollow p.head p.content p.behind ∧ ¬ IsSpare p.head p.content p.behind := by
  obtain ⟨hroot, hcontent, -⟩ := Node.AllSound.element_iff.mp hd.tree
  obtain ⟨vs, hcollapses⟩ := exists_collapses (.cons hroot.mem_made .nil) hd.ledger hcontent
  refine ⟨vs, hcollapses, rfl, ?_, hcollapses.noneGoes _⟩
  have hmarks : landmarks (collapseGroups d).root.forest
      = .element d.root.head :: (leadingLandmark d.root.content
        ++ landmarks (collapseGroups d).root.content
        ++ (leadingLandmark [] ++ landmarks [])) := by
    rw [← leadingLandmark_congr hcollapses.leadingText_eq]
    exact landmarks_element _ _ _
  rw [hmarks, Element.forest, ← List.append_nil vs, retain_element hcollapses, if_pos rfl, landmarks,
    retain]
  exact .cons (.element (.refl _)) (List.rel_append
    (List.rel_append (same_refl _) hcollapses.landmarks_same) (same_refl _))

/-- A drawing with hollow containers in groups, and with a group that is hollow but for a name. -/
private def sampleGroups : Text :=
  "<svg>a<g><g> <defs/></g> <a/>b<g/> <c><g id=\"x\"/></c></g> <g/>d<mask> <g><g/></g> </mask></svg>"

theorem collapses_collapseGroups_sampleGroups
    : ∃ d made vs, readDocument sampleGroups = .ok d ∧ d.Sound made
      ∧ Collapses d.root.content vs (collapseGroups d).root.content
      ∧ (collapseGroups d).root.write = ("<svg>a<a/>b<c><g id=\"x\"/></c><g/>d</svg>" : Text)
      ∧ List.Forall₂ Landmark.Same (retain (landmarks d.root.forest) (.kept :: vs))
        (landmarks (collapseGroups d).root.forest) := by
  have hwrite : ((readDocument sampleGroups).toOption.map fun d => (collapseGroups d).root.write)
      = some ("<svg>a<a/>b<c><g id=\"x\"/></c><g/>d</svg>" : Text) := by
    decide +kernel
  cases hread : readDocument sampleGroups with
  | error e =>
      rw [hread] at hwrite
      cases hwrite
  | ok d =>
      rw [hread] at hwrite
      obtain ⟨made, hd⟩ := sound_of_ofText? (readDocument_eq_ok.mp hread).2.1
      obtain ⟨vs, hcollapses, -, hmarks, -⟩ := collapses_collapseGroups hd
      exact ⟨d, made, vs, rfl, hd, hcollapses, Option.some.inj hwrite, hmarks⟩

end SvgKit.Minify
