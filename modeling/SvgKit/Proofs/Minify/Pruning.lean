import SvgKit.Minify.Identifiers
import SvgKit.Proofs.Xml.Adaptation
import SvgKit.Proofs.Xml.Footprint

/-! Pruning takes nodes out of a forest, each with the text directly behind it, and leaves the
rest as it is. A forest that keeps its weight keeps all its nodes.
-/

namespace SvgKit.Minify

open Xml

/-- A forest and what is left of it once nodes are taken out. Text goes only directly behind
what has gone; whether something has just gone is given.
-/
inductive Pruned : Bool → List Node → List Node → Prop where
  | nil {gone : Bool} : Pruned gone [] []
  | drop {gone : Bool} {node : Node} {nodes left : List Node} (notText : node.isText = false)
      (behind : Pruned true nodes left)
      : Pruned gone (node :: nodes) left
  | dropText (s : Text) {nodes left : List Node} (behind : Pruned true nodes left)
      : Pruned true (.text s :: nodes) left
  | element {gone : Bool} (h : Head) {content inner nodes left : List Node}
      (inside : Pruned false content inner) (behind : Pruned false nodes left)
      : Pruned gone (.element h content :: nodes) (.element h inner :: left)
  | text (s : Text) {nodes left : List Node} (behind : Pruned false nodes left)
      : Pruned false (.text s :: nodes) (.text s :: left)
  | entity {gone : Bool} (name : Text) {nodes left : List Node}
      (behind : Pruned false nodes left)
      : Pruned gone (.entity name :: nodes) (.entity name :: left)

-----------------------------------------------------------------------------------------
-- Both ways of pruning
-----------------------------------------------------------------------------------------

theorem pruneNodes_element (p : Head → Head → Bool) (parent h : Head) (gone : Bool)
    (content nodes : List Node)
    : pruneNodes p parent gone (.element h content :: nodes)
      = if p parent h then pruneNodes p parent true nodes
        else .element h (pruneNodes p h false content) :: pruneNodes p parent false nodes := by
  rw [pruneNodes, pruneNode]

theorem pruneAllDefs_element (used : List Text) (inDefs gone : Bool) (h : Head)
    (content nodes : List Node)
    : pruneAllDefs used inDefs gone (.element h content :: nodes)
      = if inDefs && !holdsUsedId used (.element h content) then
          pruneAllDefs used inDefs true nodes
        else
          .element h (pruneAllDefs used (isDefs h) false content)
            :: pruneAllDefs used inDefs false nodes := by
  rw [pruneAllDefs, pruneDefs]
  simp

theorem pruneAllDefs_entity (used : List Text) (inDefs gone : Bool) (name : Text)
    (nodes : List Node)
    : pruneAllDefs used inDefs gone (.entity name :: nodes)
      = if inDefs then pruneAllDefs used inDefs true nodes
        else .entity name :: pruneAllDefs used inDefs false nodes := by
  rw [pruneAllDefs, pruneDefs]
  · simp [holdsUsedId, Node.heads]
  · simp
  · simp

theorem pruned_pruneNodes (p : Head → Head → Bool) (parent : Head) (gone : Bool)
    (nodes : List Node)
    : Pruned gone nodes (pruneNodes p parent gone nodes) := by
  induction nodes using Node.forest_induction generalizing parent gone with
  | nil =>
      rw [pruneNodes]
      exact .nil
  | element h content nodes inside behind =>
      rw [pruneNodes_element]
      split
      · exact .drop rfl (behind parent true)
      · exact .element h (inside h false) (behind parent false)
  | text s nodes ih =>
      rw [pruneNodes]
      cases gone with
      | true => exact .dropText s (ih parent true)
      | false => exact .text s (ih parent false)
  | entity name nodes ih =>
      rw [pruneNodes]
      exact .entity name (ih parent false)

theorem pruned_pruneAllDefs (used : List Text) (inDefs gone : Bool) (nodes : List Node)
    : Pruned gone nodes (pruneAllDefs used inDefs gone nodes) := by
  induction nodes using Node.forest_induction generalizing inDefs gone with
  | nil =>
      rw [pruneAllDefs]
      exact .nil
  | element h content nodes inside behind =>
      rw [pruneAllDefs_element]
      split
      · exact .drop rfl (behind inDefs true)
      · exact .element h (inside (isDefs h) false) (behind inDefs false)
  | text s nodes ih =>
      rw [pruneAllDefs]
      cases gone with
      | true => exact .dropText s (ih inDefs true)
      | false => exact .text s (ih inDefs false)
  | entity name nodes ih =>
      rw [pruneAllDefs_entity]
      split
      · exact .drop rfl (ih inDefs true)
      · exact .entity name (ih inDefs false)

-----------------------------------------------------------------------------------------
-- What is left
-----------------------------------------------------------------------------------------

namespace Pruned

variable {gone : Bool} {nodes left : List Node}

theorem refl (nodes : List Node) : Pruned false nodes nodes := by
  induction nodes using Node.forest_induction with
  | nil => exact .nil
  | element h content nodes inside behind => exact .element h inside behind
  | text s nodes ih => exact .text s ih
  | entity name nodes ih => exact .entity name ih

theorem heads (h : Pruned gone nodes left)
    : (Node.allHeads left).Sublist (Node.allHeads nodes) := by
  induction h with
  | nil => simp
  | @drop _ node _ _ _ _ ih =>
      cases node with
      | element head content =>
          rw [Node.allHeads_element]
          exact ih.trans ((List.sublist_append_right _ _).cons _)
      | text s => simpa using ih
      | entity name => simpa using ih
  | dropText s _ ih => simpa using ih
  | element head _ _ inside behind =>
      rw [Node.allHeads_element, Node.allHeads_element]
      exact (inside.append behind).cons_cons head
  | text s _ ih => simpa using ih
  | entity name _ ih => simpa using ih

theorem leaves (h : Pruned gone nodes left)
    : (Node.allLeaves left).Sublist (Node.allLeaves nodes) := by
  induction h with
  | nil => simp
  | @drop _ node _ _ _ _ ih =>
      cases node with
      | element head content =>
          rw [Node.allLeaves]
          exact ih.trans (List.sublist_append_right _ _)
      | text s => simpa using ih.cons _
      | entity name => simpa using ih.cons _
  | dropText s _ ih => simpa using ih.cons _
  | element head _ _ inside behind => simpa using inside.append behind
  | text s _ ih => simpa using ih
  | entity name _ ih => simpa using ih

theorem sound {made : List Binding} (h : Pruned gone nodes left)
    (hnodes : Node.AllSound made nodes)
    : Node.AllSound made left :=
  ⟨fun head hh => hnodes.heads head (h.heads.subset hh),
    fun leaf hl => hnodes.leaves leaf (h.leaves.subset hl)⟩

/-- A node that is no text weighs something. -/
theorem weight_pos {node : Node} (h : node.isText = false) (nodes : List Node)
    : Node.weight nodes < Node.weight (node :: nodes) := by
  cases node with
  | element head content =>
      rw [Node.weight]
      split <;> omega
  | text s => cases h
  | entity name =>
      rw [Node.weight]
      omega

/-- Pruning never adds weight. -/
theorem weight_le (h : Pruned gone nodes left) : Node.weight left ≤ Node.weight nodes := by
  induction h with
  | nil => exact Nat.le_refl _
  | drop notText _ ih => exact Nat.le_trans ih (Nat.le_of_lt (weight_pos notText _))
  | dropText s _ ih =>
      rw [Node.weight]
      omega
  | @element _ head content inner _ _ hinside _ inside behind =>
      have hempty : content.isEmpty → inner.isEmpty := by
        intro hc
        obtain rfl := List.isEmpty_iff.mp hc
        cases hinside
        rfl
      simp only [Node.weight]
      cases hc : content.isEmpty <;> cases hi : inner.isEmpty <;> simp_all <;> omega
  | text s _ ih => simpa using ih
  | entity name _ ih => simpa using ih

/-- What keeps its weight keeps all its nodes, by induction over what is taken out. -/
theorem eq_of_weight_eq (h : Pruned gone nodes left) (hgone : gone = false)
    (hweight : Node.weight left = Node.weight nodes)
    : left = nodes := by
  induction h with
  | nil => rfl
  | @drop _ node nodes _ notText behind _ =>
      have := behind.weight_le
      have := weight_pos notText nodes
      omega
  | dropText s _ _ => cases hgone
  | @element _ head content inner nodes left hinside hbehind inside behind =>
      have hi := hinside.weight_le
      have hb := hbehind.weight_le
      simp only [Node.weight] at hweight
      have hboth : Node.weight inner = Node.weight content
          ∧ Node.weight left = Node.weight nodes := by
        cases hc : content with
        | nil =>
            subst hc
            cases hinside
            exact ⟨rfl, by simpa using hweight⟩
        | cons first rest =>
            rw [hc] at hweight hi
            cases hin : inner with
            | nil =>
                rw [hin] at hweight
                simp at hweight
                omega
            | cons first' rest' =>
                rw [hin] at hweight hi
                simp only [List.isEmpty_cons, Bool.false_eq_true, ↓reduceIte] at hweight
                exact ⟨by omega, by omega⟩
      rw [inside rfl hboth.1, behind rfl hboth.2]
  | text s _ ih => rw [ih rfl (by simpa using hweight)]
  | entity name _ ih => rw [ih rfl (by simpa using hweight)]

theorem length_le (h : Pruned gone nodes left) : left.length ≤ nodes.length := by
  induction h with
  | nil => exact Nat.le_refl _
  | drop _ _ ih => exact Nat.le_succ_of_le ih
  | dropText _ _ ih => exact Nat.le_succ_of_le ih
  | element _ _ _ _ behind => exact Nat.succ_le_succ behind
  | text _ _ ih => exact Nat.succ_le_succ ih
  | entity _ _ ih => exact Nat.succ_le_succ ih

end Pruned

end SvgKit.Minify
