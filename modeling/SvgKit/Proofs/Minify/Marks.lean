import SvgKit.Proofs.Minify.Soundness
import SvgKit.Proofs.Xml.Marks
import Mathlib.Data.List.Flatten

/-! Passes leave each declaration in a document with a mark of its own. -/

namespace SvgKit.Minify

open Xml

-----------------------------------------------------------------------------------------
-- Removals
-----------------------------------------------------------------------------------------

theorem declared_sublist_of_heads {nodes left : List Node}
    (h : (Node.allHeads left).Sublist (Node.allHeads nodes))
    : (Node.declared left).Sublist (Node.declared nodes) :=
  h.flatMap _

/-- Heads that declare less declare less in a forest. -/
theorem declared_sublist_of_alike {R : Head → Head → Prop}
    (hR : ∀ h h', R h h' → h'.bindings.Sublist h.bindings) {nodes nodes' : List Node}
    (h : Alike R nodes nodes')
    : (Node.declared nodes').Sublist (Node.declared nodes) := by
  have hheads := h.heads
  unfold Node.declared
  generalize Node.allHeads nodes = heads at hheads
  generalize Node.allHeads nodes' = heads' at hheads
  induction hheads with
  | nil => exact .slnil
  | cons hhead _ ih => exact (hR _ _ hhead).append ih

theorem declared_dropText (nodes : List Node)
    : Node.declared (dropText nodes) = Node.declared nodes := by
  rw [Node.declared, allHeads_dropText, Node.declared]

/-- What becomes of the declarations in a document. -/
def KeepsMarks (d d' : Document) : Prop :=
  Redeclares d.supply d'.supply (Node.declared d.root.forest) (Node.declared d'.root.forest)

theorem KeepsMarks.hasOwnMarks {d d' : Document} (h : KeepsMarks d d')
    (hd : d.HasOwnMarks)
    : d'.HasOwnMarks :=
  OwnMarks.redeclare hd h

theorem redeclares_removeEditorContent (d : Document)
    : KeepsMarks d (removeEditorContent d) := by
  apply Redeclares.of_sublist
  · exact mark_le_foldl (fun supply node => mark_le_discardTo _ _ node supply) _ _
  · have hpruned := pruned_pruneNodes (fun _ h => isEditorElement h) d.root.head false
      d.root.content
    have hkept := alike_mapHeads (R := fun h h' => h'.bindings.Sublist h.bindings)
      ⟨d.root.head, pruneNodes (fun _ h => isEditorElement h) d.root.head false d.root.content⟩
      (f := dropEditorAttributes) fun h _ => List.Sublist.refl h.bindings
    apply (declared_sublist_of_alike (fun _ _ h => h) hkept).trans
    rw [Element.forest, Element.forest, Node.declared_element, Node.declared_element]
    exact ((declared_sublist_of_heads hpruned.heads).append_right _).append_left _

theorem redeclares_dropVersion (d : Document) : KeepsMarks d (dropVersion d) :=
  .refl _ _

theorem redeclares_removeUnusedIds (d : Document)
    : KeepsMarks d (removeUnusedIds d) := by
  unfold removeUnusedIds
  split
  · exact .refl _ _
  · apply Redeclares.of_sublist
    · exact mark_le_foldl (fun supply node => mark_le_discardTo _ _ node supply) _ _
    · have hpruned := pruned_pruneAllDefs (usedIds d.root) (isDefs d.root.head) false
        d.root.content
      have hmapped := declared_sublist_of_alike (fun h h' heq => by
          rw [heq, (reduces_dropUnusedId _ h).bindings])
        (Alike.mapAllHeads (dropUnusedId (usedIds d.root))
          (pruneAllDefs (usedIds d.root) (isDefs d.root.head) false d.root.content))
      rw [Element.forest, Element.forest, Node.declared_element, Node.declared_element]
      have hcontent := hmapped.trans (declared_sublist_of_heads hpruned.heads)
      exact (hcontent.append_right _).append_left _

-----------------------------------------------------------------------------------------
-- Labels
-----------------------------------------------------------------------------------------

theorem redeclares_relabelAttribute (outer : List Head) (a : Attribute)
    (state : List Binding × Supply)
    : Redeclares state.2 (relabelAttribute outer a state).2.2 state.1
        (relabelAttribute outer a state).2.1 := by
  obtain ⟨bindings, supply⟩ := state
  unfold relabelAttribute
  dsimp only
  split
  · exact .refl supply bindings
  · next old _ =>
      split
      · exact redeclares_findOrDeclare _ true old.uri none supply bindings
      · exact .refl supply bindings

theorem redeclares_relabelAttributes (outer : List Head) (attributes : List Attribute)
    (state : List Binding × Supply)
    : Redeclares state.2 (attributes.mapM (relabelAttribute outer) state).2.2 state.1
        (attributes.mapM (relabelAttribute outer) state).2.1 := by
  induction attributes generalizing state with
  | nil => exact .refl _ _
  | cons a attributes ih =>
      rw [relabelAttributes_cons]
      exact (redeclares_relabelAttribute outer a state).trans (ih _)

/-- Relabelling nodes gives new marks to new declarations, by induction over the forest. -/
theorem redeclares_relabelNodes (outer : List Head) (nodes : List Node) (supply : Supply)
    : Redeclares supply (relabelNodes outer nodes supply).2 (Node.declared nodes)
        (Node.declared (relabelNodes outer nodes supply).1) := by
  induction nodes using Node.forest_induction generalizing outer supply with
  | nil =>
      rw [relabelNodes_nil]
      exact .refl _ _
  | element h content nodes inside behind =>
      rw [relabelNodes_element, Node.declared_element, Node.declared_element]
      have hhead := redeclares_relabelAttributes outer h.attributes (h.bindings, supply)
      exact hhead.append ((inside _ _).append (behind _ _))
  | text s nodes ih =>
      rw [relabelNodes_text, Node.declared_text, Node.declared_text]
      exact ih outer supply
  | entity name nodes ih =>
      rw [relabelNodes_entity, Node.declared_entity, Node.declared_entity]
      exact ih outer supply

theorem redeclares_relabel (d : Document) : KeepsMarks d (relabel d) := by
  have h := redeclares_relabelNodes [] d.root.forest d.supply
  rw [relabel_eq] at h
  exact h

-----------------------------------------------------------------------------------------
-- Containers
-----------------------------------------------------------------------------------------

theorem redeclares_adaptAll (outer : List Head) (nodes : List Node) (supply : Supply)
    : Redeclares supply (adaptAll outer nodes supply).2 (Node.declared nodes)
        (Node.declared (adaptAll outer nodes supply).1) := by
  induction nodes with
  | nil => exact .refl _ _
  | cons node nodes ih =>
      rw [adaptAll_cons]
      have hfirst := Node.redeclares_adapt outer node (adaptAll outer nodes supply).2
      have hsplit (node : Node) (nodes : List Node)
          : Node.declared (node :: nodes) = Node.declared [node] ++ Node.declared nodes :=
        Node.declared_append [node] nodes
      dsimp only
      rw [hsplit node, hsplit (node.adapt _ _).1]
      exact (ih.append_left _).trans (hfirst.append_right _)

/-- Collapsing gives new marks to new declarations, by induction over the forest. -/
theorem redeclares_collapseNodes (outer : List Head) (nodes : List Node) (supply : Supply)
    : Redeclares supply (collapseNodes outer nodes supply).2 (Node.declared nodes)
        (Node.declared (collapseNodes outer nodes supply).1) := by
  induction nodes using Node.forest_induction generalizing outer supply with
  | nil =>
      rw [collapseNodes]
      exact .refl _ _
  | element h content nodes inside behind =>
      have hbehind := behind outer supply
      have hinside := inside (h :: outer) (collapseNodes outer nodes supply).2
      have hboth := (hbehind.append_left (Node.declared content)).trans
        (hinside.append_right (Node.declared (collapseNodes outer nodes supply).1))
      rw [Node.declared_element]
      rcases collapseNodes_element outer h content nodes supply with heq | heq | heq
      · rw [heq, Node.declared_element]
        exact hboth.append_left h.bindings
      · rw [heq, declared_dropText]
        apply (hboth.append_left h.bindings).trans
        apply Redeclares.of_sublist (mark_le_discardTo _ _ _ _)
        exact (List.sublist_append_right _ _).trans (List.sublist_append_right _ _)
      · rw [heq, Node.declared_append, declared_dropText]
        have hmoved := redeclares_adaptAll outer
          (dropText (collapseNodes (h :: outer) content (collapseNodes outer nodes supply).2).1)
          (collapseNodes (h :: outer) content (collapseNodes outer nodes supply).2).2
        rw [declared_dropText] at hmoved
        apply (hboth.append_left h.bindings).trans
        apply ((hmoved.append_right _).append_left _).trans
        exact .of_sublist (mark_le_discardTo _ _ _ _) (List.sublist_append_right _ _)
  | text s nodes ih =>
      rw [collapseNodes_text, Node.declared_text, Node.declared_text]
      exact ih outer supply
  | entity name nodes ih =>
      rw [collapseNodes_entity, Node.declared_entity, Node.declared_entity]
      exact ih outer supply

theorem redeclares_collapseGroups (d : Document) : KeepsMarks d (collapseGroups d) := by
  have h := redeclares_collapseNodes [d.root.head] d.root.content d.supply
  unfold KeepsMarks
  rw [Element.forest, Element.forest, Node.declared_element, Node.declared_element,
    Node.declared_nil, List.append_nil, List.append_nil]
  exact h.append_left d.root.head.bindings

-----------------------------------------------------------------------------------------
-- Passes
-----------------------------------------------------------------------------------------

theorem redeclares_undeclare (d : Document) : KeepsMarks d (undeclare d) := by
  apply Redeclares.of_sublist (Nat.le_refl _)
  apply declared_sublist_of_alike _ (alike_dropUnused d.root)
  rintro h _ ⟨p, rfl, -⟩
  exact List.filter_sublist

/-- In what a pass makes of a document, each declaration has a mark of its own if it had before. -/
theorem hasOwnMarks_of_pass {precision : Int} {d d' : Document} (hd : d.HasOwnMarks)
    (h : pass precision d = .ok d')
    : d'.HasOwnMarks := by
  obtain ⟨root, hshort, rfl⟩ := pass_eq_ok.mp h
  have hcleaned := (redeclares_removeUnusedIds _).hasOwnMarks
    ((redeclares_dropVersion _).hasOwnMarks ((redeclares_removeEditorContent d).hasOwnMarks hd))
  generalize removeUnusedIds (dropVersion (removeEditorContent d)) = cleaned at hcleaned hshort ⊢
  have hshorter : KeepsMarks cleaned ⟨root, cleaned.supply⟩ := by
    apply Redeclares.of_sublist (Nat.le_refl _)
    apply declared_sublist_of_alike _ (alike_of_shortenNodes (shortenElement_eq_ok.mp hshort))
    intro h h' hreduces
    rw [hreduces.bindings]
  apply (redeclares_undeclare _).hasOwnMarks
  apply (redeclares_collapseGroups _).hasOwnMarks
  apply (redeclares_relabel _).hasOwnMarks
  exact hshorter.hasOwnMarks hcleaned

/-- Each declaration has a mark of its own where passes over a document end, by induction over
their number.
-/
theorem hasOwnMarks_of_runPasses {precision : Int} {done count : Nat} {d : Document}
    {text : Text} {f : Finish} (hd : d.HasOwnMarks)
    (h : runPasses precision done count d text = .ok f)
    : f.document.HasOwnMarks := by
  induction count generalizing done d text with
  | zero =>
      cases h
      exact hd
  | succ count ih =>
      rw [runPasses] at h
      cases hpass : pass precision d with
      | error e =>
          rw [hpass] at h
          cases h
      | ok next =>
          have hnext := hasOwnMarks_of_pass hd hpass
          rw [hpass] at h
          change (if next.root.write = text then _ else _) = _ at h
          split at h
          · cases h
            exact hnext
          · exact ih hnext h

end SvgKit.Minify
