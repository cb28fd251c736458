import SvgKit.Minify.Groups
import SvgKit.Proofs.Xml.Adaptation
import SvgKit.Proofs.Xml.Footprint

/-! Collapsing containers keeps a tree sound. It never adds weight, and a forest that keeps its
weight is left as it is.
-/

namespace SvgKit.Minify

open Xml

-----------------------------------------------------------------------------------------
-- What collapsing does
-----------------------------------------------------------------------------------------

/-- A forest and what its containers are collapsed to. The text behind a container that goes,
and in front of what is moved out of one, goes with it.
-/
inductive Collapsed : List Node → List Node → Prop where
  | nil : Collapsed [] []
  | keep (h : Head) {content inner nodes left : List Node} (inside : Collapsed content inner)
      (behind : Collapsed nodes left)
      : Collapsed (.element h content :: nodes) (.element h inner :: left)
  | drop (h : Head) {nodes left : List Node} (content : List Node)
      (behind : Collapsed nodes left)
      : Collapsed (.element h content :: nodes) (dropText left)
  | unwrap (h : Head) {content inner moved nodes left : List Node}
      (inside : Collapsed content inner) (adapted : Alike Head.Same (dropText inner) moved)
      (behind : Collapsed nodes left)
      : Collapsed (.element h content :: nodes) (moved ++ dropText left)
  | text (s : Text) {nodes left : List Node} (behind : Collapsed nodes left)
      : Collapsed (.text s :: nodes) (.text s :: left)
  | entity (name : Text) {nodes left : List Node} (behind : Collapsed nodes left)
      : Collapsed (.entity name :: nodes) (.entity name :: left)

theorem dropText_nil : dropText [] = [] := rfl

theorem dropText_suffix (nodes : List Node) : dropText nodes <:+ nodes := by
  induction nodes with
  | nil => exact List.suffix_rfl
  | cons node nodes ih =>
      cases node with
      | element h content => exact List.suffix_rfl
      | text s => exact ih.trans (List.suffix_cons _ _)
      | entity name => exact List.suffix_rfl

theorem allHeads_dropText (nodes : List Node)
    : Node.allHeads (dropText nodes) = Node.allHeads nodes := by
  induction nodes with
  | nil => rfl
  | cons node nodes ih =>
      cases node with
      | element h content => rfl
      | text s => rw [Node.allHeads_text, ← ih, dropText]
      | entity name => rfl

theorem dropText_eq_nil {nodes : List Node} (h : nodes.all Node.isText) : dropText nodes = [] := by
  induction nodes with
  | nil => rfl
  | cons node nodes ih =>
      rw [List.all_cons, Bool.and_eq_true] at h
      cases node with
      | element head content => exact absurd h.1 (by simp [Node.isText])
      | text s => exact ih h.2
      | entity name => exact absurd h.1 (by simp [Node.isText])

theorem weight_dropText (nodes : List Node) : Node.weight (dropText nodes) ≤ Node.weight nodes := by
  obtain ⟨before, hbefore⟩ := dropText_suffix nodes
  calc Node.weight (dropText nodes)
      ≤ Node.weight before + Node.weight (dropText nodes) := Nat.le_add_left _ _
    _ = Node.weight nodes := by rw [← Node.weight_append, hbefore]

theorem weight_drop_lt {h : Head} {content nodes left : List Node}
    (hbehind : Node.weight left ≤ Node.weight nodes)
    : Node.weight (dropText left) < Node.weight (.element h content :: nodes) := by
  have := weight_dropText left
  rw [Node.weight]
  split <;> omega

theorem weight_unwrap_lt {h : Head} {content inner moved nodes left : List Node}
    (hinside : Node.weight inner ≤ Node.weight content) (hempty : content = [] → inner = [])
    (hadapted : Alike Head.Same (dropText inner) moved)
    (hbehind : Node.weight left ≤ Node.weight nodes)
    : Node.weight (moved ++ dropText left) < Node.weight (.element h content :: nodes) := by
  have := weight_dropText left
  have := weight_dropText inner
  rw [Node.weight_append, hadapted.weight_eq, Node.weight]
  split
  · next hc =>
      rw [hempty (List.isEmpty_iff.mp hc), dropText_nil, Node.weight]
      omega
  · omega

namespace Collapsed

variable {nodes left : List Node}

theorem eq_nil (h : Collapsed nodes left) (hempty : nodes = []) : left = [] := by
  subst hempty
  cases h
  rfl

/-- Collapsing never adds weight. -/
theorem weight_le (h : Collapsed nodes left) : Node.weight left ≤ Node.weight nodes := by
  induction h with
  | nil => exact Nat.le_refl _
  | @keep h content inner nodes left hinside _ inside behind =>
      have hempty : content.isEmpty → inner.isEmpty := by
        intro hc
        simp [hinside.eq_nil (List.isEmpty_iff.mp hc)]
      simp only [Node.weight]
      cases hc : content.isEmpty <;> cases hi : inner.isEmpty <;> simp_all <;> omega
  | drop h content _ behind => exact Nat.le_of_lt (weight_drop_lt behind)
  | unwrap h hinside hadapted _ inside behind =>
      exact Nat.le_of_lt (weight_unwrap_lt inside hinside.eq_nil hadapted behind)
  | text s _ ih => simpa using ih
  | entity name _ ih => simpa using ih

/-- What keeps its weight is left as it is, by induction over what is collapsed. -/
theorem eq_of_weight_eq (h : Collapsed nodes left)
    (hweight : Node.weight left = Node.weight nodes)
    : left = nodes := by
  induction h with
  | nil => rfl
  | @keep h content inner nodes left hinside hbehind inside behind =>
      have hi := hinside.weight_le
      have hb := hbehind.weight_le
      simp only [Node.weight] at hweight
      have hboth : Node.weight inner = Node.weight content
          ∧ Node.weight left = Node.weight nodes := by
        by_cases hc : content = []
        · have hinner := hinside.eq_nil hc
          subst hc hinner
          exact ⟨rfl, by simpa using hweight⟩
        · by_cases hin : inner = []
          · simp [hc, hin] at hweight
            omega
          · simp only [List.isEmpty_iff, hc, hin, ↓reduceIte] at hweight
            exact ⟨by omega, by omega⟩
      rw [inside hboth.1, behind hboth.2]
  | drop h content hbehind _ =>
      exact absurd hweight (Nat.ne_of_lt (weight_drop_lt hbehind.weight_le))
  | unwrap h hinside hadapted hbehind _ _ =>
      exact absurd hweight (Nat.ne_of_lt
        (weight_unwrap_lt hinside.weight_le hinside.eq_nil hadapted hbehind.weight_le))
  | text s _ ih => rw [ih (by simpa using hweight)]
  | entity name _ ih => rw [ih (by simpa using hweight)]

end Collapsed

-----------------------------------------------------------------------------------------
-- Soundness
-----------------------------------------------------------------------------------------

theorem adaptAll_cons (outer : List Head) (node : Node) (nodes : List Node) (supply : Supply)
    : adaptAll outer (node :: nodes) supply
      = (let rest := adaptAll outer nodes supply
        let first := node.adapt outer rest.2
        (first.1 :: rest.1, first.2)) :=
  rfl

/-- Adapting nodes one after the other keeps them sound, by induction over the list. -/
theorem adaptAll_spec {made : List Binding} {outer : List Head} {nodes : List Node}
    {supply : Supply} (hout : PathSound made outer) (hledger : Ledger supply.mark made)
    (hnodes : Node.AllSound made nodes)
    : ∃ more, made ⊆ more ∧ Ledger (adaptAll outer nodes supply).2.mark more
      ∧ Node.AllSound more (adaptAll outer nodes supply).1
      ∧ Alike Head.Same nodes (adaptAll outer nodes supply).1 := by
  induction nodes with
  | nil => exact ⟨made, fun _ h => h, hledger, .nil, .nil⟩
  | cons node nodes ih =>
      have hsplit : Node.AllSound made ([node] ++ nodes) := hnodes
      rw [Node.AllSound.append_iff] at hsplit
      obtain ⟨made₁, hsub₁, hledger₁, hrest, halike⟩ := ih hsplit.2
      obtain ⟨made₂, hsub₂, hledger₂, hfirst, halike'⟩ := Node.adapt_spec (hout.mono hsub₁)
        hledger₁ (hsplit.1.mono hsub₁)
      rw [adaptAll_cons]
      refine ⟨made₂, List.Subset.trans hsub₁ hsub₂, hledger₂, ?_, halike'.append halike⟩
      exact Node.AllSound.append_iff.mpr ⟨hfirst, hrest.mono hsub₂⟩

/-- An element is collapsed once the nodes behind it and in it are. -/
theorem collapseNodes_eq (outer : List Head) (h : Head) (content nodes : List Node)
    (supply : Supply)
    : let rest := collapseNodes outer nodes supply
      let inside := collapseNodes (h :: outer) content rest.2
      let moved := adaptAll outer (dropText inside.1) inside.2
      collapseNodes outer (.element h content :: nodes) supply
        = if !containerNames.contains h.name.base || !beginsBlank rest.1 then
            (.element h inside.1 :: rest.1, inside.2)
          else if isEmptyContainer h inside.1 then
            (dropText rest.1, (Node.element h inside.1).discard (fun _ _ => false) inside.2)
          else if isBareGroup h inside.1 then
            (moved.1 ++ dropText rest.1, (Node.element h []).discard (fun _ _ => false) moved.2)
          else (.element h inside.1 :: rest.1, inside.2) := by
  intro rest inside moved
  have hcollapse : collapseNodes outer (.element h content :: nodes) supply
      = (if !containerNames.contains h.name.base || !beginsBlank rest.1 then
          pure (Node.element h inside.1 :: rest.1)
        else if isEmptyContainer h inside.1 then do
          discard (.element h inside.1)
          pure (dropText rest.1)
        else if isBareGroup h inside.1 then do
          let moved ← adaptAll outer (dropText inside.1)
          discard (.element h [])
          pure (moved ++ dropText rest.1)
        else pure (Node.element h inside.1 :: rest.1) : StateM Supply (List Node))
        inside.2 := by
    rw [collapseNodes, collapseNode]
    rfl
  rw [hcollapse]
  split
  · rfl
  · split
    · rfl
    · split <;> rfl

/-- The three fates of an element: it stays, it goes, or its content takes its place. -/
theorem collapseNodes_element (outer : List Head) (h : Head) (content nodes : List Node)
    (supply : Supply)
    : let rest := collapseNodes outer nodes supply
      let inside := collapseNodes (h :: outer) content rest.2
      let moved := adaptAll outer (dropText inside.1) inside.2
      collapseNodes outer (.element h content :: nodes) supply
          = (.element h inside.1 :: rest.1, inside.2)
        ∨ collapseNodes outer (.element h content :: nodes) supply
          = (dropText rest.1,
            (Node.element h inside.1).discard (fun _ _ => false) inside.2)
        ∨ collapseNodes outer (.element h content :: nodes) supply
          = (moved.1 ++ dropText rest.1,
            (Node.element h []).discard (fun _ _ => false) moved.2) := by
  intro rest inside moved
  rw [collapseNodes_eq]
  split
  · exact .inl rfl
  · split
    · exact .inr (.inl rfl)
    · split
      · exact .inr (.inr rfl)
      · exact .inl rfl

theorem collapseNodes_text (outer : List Head) (s : Text) (nodes : List Node)
    (supply : Supply)
    : collapseNodes outer (.text s :: nodes) supply
      = (.text s :: (collapseNodes outer nodes supply).1,
        (collapseNodes outer nodes supply).2) := by
  rw [collapseNodes, collapseNode]
  · rfl
  · simp

theorem collapseNodes_entity (outer : List Head) (name : Text) (nodes : List Node)
    (supply : Supply)
    : collapseNodes outer (.entity name :: nodes) supply
      = (.entity name :: (collapseNodes outer nodes supply).1,
        (collapseNodes outer nodes supply).2) := by
  rw [collapseNodes, collapseNode]
  · rfl
  · simp

/-- Collapsing keeps nodes sound, by induction over the forest. Where the weight stays, nothing
is declared either.
-/
theorem collapseNodes_spec {made : List Binding} {outer : List Head} {nodes : List Node}
    {supply : Supply} (hout : PathSound made outer) (hledger : Ledger supply.mark made)
    (hnodes : Node.AllSound made nodes)
    : ∃ more, made ⊆ more ∧ Ledger (collapseNodes outer nodes supply).2.mark more
      ∧ Node.AllSound more (collapseNodes outer nodes supply).1
      ∧ Collapsed nodes (collapseNodes outer nodes supply).1
      ∧ (Node.weight (collapseNodes outer nodes supply).1 = Node.weight nodes
        → (collapseNodes outer nodes supply).2 = supply) := by
  induction nodes using Node.forest_induction generalizing made outer supply with
  | nil =>
      rw [collapseNodes]
      exact ⟨made, fun _ h => h, hledger, .nil, .nil, fun _ => rfl⟩
  | element h content nodes inside behind =>
      obtain ⟨hh, hcontent, hnodes⟩ := Node.AllSound.element_iff.mp hnodes
      obtain ⟨made₁, hsub₁, hledger₁, hrest, hbehind, hsupply₁⟩ := behind hout hledger hnodes
      obtain ⟨made₂, hsub₂, hledger₂, hinner, hinside, hsupply₂⟩ := inside
        (.cons (hh.mono hsub₁).mem_made (hout.mono hsub₁)) hledger₁ (hcontent.mono hsub₁)
      have hsub := List.Subset.trans hsub₁ hsub₂
      have hleft := (hrest.mono hsub₂).suffix (dropText_suffix _)
      have hnode (content : List Node) (hcontent : Node.AllSound made₂ content)
          : Node.AllSound made₂ [.element h content] :=
        Node.AllSound.element_iff.mpr ⟨hh.mono hsub, hcontent, .nil⟩
      rcases collapseNodes_element outer h content nodes supply with heq | heq | heq
      · rw [heq]
        have hcollapsed := Collapsed.keep h hinside hbehind
        refine ⟨made₂, hsub, hledger₂, Node.AllSound.element_iff.mpr
          ⟨hh.mono hsub, hinner, hrest.mono hsub₂⟩, hcollapsed, fun hweight => ?_⟩
        have hsame := hcollapsed.eq_of_weight_eq hweight
        simp only [List.cons.injEq, Node.element.injEq, true_and] at hsame
        dsimp only
        rw [hsupply₂ (by rw [hsame.1]), hsupply₁ (by rw [hsame.2])]
      · obtain ⟨made₃, hsub₃, hledger₃⟩ := Node.discard_spec (p := fun _ _ => false) hledger₂
          (hnode _ hinner)
        rw [heq]
        refine ⟨made₃, List.Subset.trans hsub hsub₃, hledger₃, hleft.mono hsub₃, .drop h content hbehind,
          fun hweight => absurd hweight (Nat.ne_of_lt (weight_drop_lt hbehind.weight_le))⟩
      · obtain ⟨made₃, hsub₃, hledger₃, hmoved, halike⟩ := adaptAll_spec
          (hout.mono hsub) hledger₂ (hinner.suffix (dropText_suffix _))
        obtain ⟨made₄, hsub₄, hledger₄⟩ := Node.discard_spec (p := fun _ _ => false) hledger₃
          ((hnode [] .nil).mono hsub₃)
        rw [heq]
        refine ⟨made₄, List.Subset.trans hsub (List.Subset.trans hsub₃ hsub₄), hledger₄, ?_,
          .unwrap h hinside halike hbehind, fun hweight => absurd hweight (Nat.ne_of_lt
            (weight_unwrap_lt hinside.weight_le hinside.eq_nil halike hbehind.weight_le))⟩
        exact Node.AllSound.append_iff.mpr
          ⟨hmoved.mono hsub₄, hleft.mono (List.Subset.trans hsub₃ hsub₄)⟩
  | text s nodes ih =>
      obtain ⟨hs, hnodes⟩ := Node.AllSound.text_iff.mp hnodes
      obtain ⟨more, hsub, hmore, hall, hcollapsed, hsupply⟩ := ih hout hledger hnodes
      rw [collapseNodes_text]
      exact ⟨more, hsub, hmore, Node.AllSound.text_iff.mpr ⟨hs, hall⟩, .text s hcollapsed,
        fun h => hsupply (by simpa using h)⟩
  | entity name nodes ih =>
      obtain ⟨hs, hnodes⟩ := Node.AllSound.entity_iff.mp hnodes
      obtain ⟨more, hsub, hmore, hall, hcollapsed, hsupply⟩ := ih hout hledger hnodes
      rw [collapseNodes_entity]
      exact ⟨more, hsub, hmore, Node.AllSound.entity_iff.mpr ⟨hs, hall⟩,
        .entity name hcollapsed, fun h => hsupply (by simpa using h)⟩

end SvgKit.Minify
