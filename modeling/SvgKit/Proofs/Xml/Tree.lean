import SvgKit.Xml.Scope
import Mathlib.Data.List.Forall2

/-! Forests: induction over them, the nodes in them that have no content, and pairs of forests
that differ in the heads of their elements only.
-/

namespace SvgKit.Xml

/-- Forests are built by putting nodes in front of them; an element holds a forest itself. -/
@[elab_as_elim]
theorem Node.forest_induction {motive : List Node → Prop} (nil : motive [])
    (element : ∀ h content nodes, motive content → motive nodes
      → motive (.element h content :: nodes))
    (text : ∀ s nodes, motive nodes → motive (.text s :: nodes))
    (entity : ∀ name nodes, motive nodes → motive (.entity name :: nodes))
    : ∀ nodes, motive nodes
  | [] => nil
  | .element h content :: nodes =>
      element h content nodes
        (forest_induction nil element text entity content)
        (forest_induction nil element text entity nodes)
  | .text s :: nodes => text s nodes (forest_induction nil element text entity nodes)
  | .entity name :: nodes => entity name nodes (forest_induction nil element text entity nodes)

-----------------------------------------------------------------------------------------
-- Heads and leaves
-----------------------------------------------------------------------------------------

/-- The nodes in a forest that are no elements, in document order. -/
def Node.allLeaves : List Node → List Node
  | [] => []
  | .element _ content :: nodes => allLeaves content ++ allLeaves nodes
  | .text s :: nodes => .text s :: allLeaves nodes
  | .entity name :: nodes => .entity name :: allLeaves nodes

@[simp]
theorem Node.allHeads_nil : Node.allHeads [] = [] := by
  rw [allHeads]

@[simp]
theorem Node.allHeads_element (h : Head) (content nodes : List Node)
    : Node.allHeads (.element h content :: nodes)
      = h :: (Node.allHeads content ++ Node.allHeads nodes) := by
  simp [allHeads, heads]

@[simp]
theorem Node.allHeads_text (s : Text) (nodes : List Node)
    : Node.allHeads (.text s :: nodes) = Node.allHeads nodes := by
  simp [allHeads, heads]

@[simp]
theorem Node.allHeads_entity (name : Text) (nodes : List Node)
    : Node.allHeads (.entity name :: nodes) = Node.allHeads nodes := by
  simp [allHeads, heads]

@[simp]
theorem Node.allHeads_append (nodes more : List Node)
    : Node.allHeads (nodes ++ more) = Node.allHeads nodes ++ Node.allHeads more := by
  induction nodes with
  | nil => simp
  | cons node nodes ih => simp [allHeads, ih]

attribute [simp] Node.allLeaves

@[simp]
theorem Node.allLeaves_append (nodes more : List Node)
    : Node.allLeaves (nodes ++ more) = Node.allLeaves nodes ++ Node.allLeaves more := by
  induction nodes with
  | nil => simp
  | cons node nodes ih => cases node <;> simp [ih]

mutual

/-- The nodes in a node that are no elements, in document order. -/
def Node.leaves : Node → List Node
  | .element _ content => Node.leavesOf content
  | .text s => [.text s]
  | .entity name => [.entity name]

/-- `Node.allLeaves` node by node, which evaluates. -/
def Node.leavesOf : List Node → List Node
  | [] => []
  | node :: nodes => node.leaves ++ Node.leavesOf nodes

end

theorem Node.leavesOf_eq (nodes : List Node) : Node.leavesOf nodes = Node.allLeaves nodes := by
  induction nodes using Node.forest_induction with
  | nil => simp [leavesOf]
  | element h content nodes inside behind => simp [leavesOf, leaves, inside, behind]
  | text s nodes ih => simp [leavesOf, leaves, ih]
  | entity name nodes ih => simp [leavesOf, leaves, ih]

@[simp]
theorem Node.mapAllHeads_nil (f : Head → Head) : Node.mapAllHeads f [] = [] := by
  rw [mapAllHeads]

@[simp]
theorem Node.mapAllHeads_element (f : Head → Head) (h : Head) (content nodes : List Node)
    : Node.mapAllHeads f (.element h content :: nodes)
      = .element (f h) (Node.mapAllHeads f content) :: Node.mapAllHeads f nodes := by
  rw [mapAllHeads, mapHeads]

@[simp]
theorem Node.mapAllHeads_text (f : Head → Head) (s : Text) (nodes : List Node)
    : Node.mapAllHeads f (.text s :: nodes) = .text s :: Node.mapAllHeads f nodes := by
  simp [mapAllHeads, mapHeads]

@[simp]
theorem Node.mapAllHeads_entity (f : Head → Head) (name : Text) (nodes : List Node)
    : Node.mapAllHeads f (.entity name :: nodes)
      = .entity name :: Node.mapAllHeads f nodes := by
  simp [mapAllHeads, mapHeads]

-----------------------------------------------------------------------------------------
-- Pairs of forests
-----------------------------------------------------------------------------------------

/-- Two forests that differ in the heads of their elements only, and whose heads are related
in pairs.
-/
inductive Alike (R : Head → Head → Prop) : List Node → List Node → Prop where
  | nil : Alike R [] []
  | element {h h' : Head} {content content' nodes nodes' : List Node} (head : R h h')
      (inside : Alike R content content') (behind : Alike R nodes nodes')
      : Alike R (.element h content :: nodes) (.element h' content' :: nodes')
  | text (s : Text) {nodes nodes' : List Node} (behind : Alike R nodes nodes')
      : Alike R (.text s :: nodes) (.text s :: nodes')
  | entity (name : Text) {nodes nodes' : List Node} (behind : Alike R nodes nodes')
      : Alike R (.entity name :: nodes) (.entity name :: nodes')

namespace Alike

variable {R S : Head → Head → Prop} {nodes nodes' nodes'' : List Node}

theorem refl (hR : ∀ h, R h h) (nodes : List Node) : Alike R nodes nodes := by
  induction nodes using Node.forest_induction with
  | nil => exact .nil
  | element h content nodes inside behind => exact .element (hR h) inside behind
  | text s nodes ih => exact .text s ih
  | entity name nodes ih => exact .entity name ih

theorem imp_of_mem (h : Alike R nodes nodes')
    (hRS : ∀ h h', h ∈ Node.allHeads nodes → h' ∈ Node.allHeads nodes' → R h h' → S h h')
    : Alike S nodes nodes' := by
  induction h with
  | nil => exact .nil
  | element head _ _ inside behind =>
      simp only [Node.allHeads_element, List.mem_cons, List.mem_append] at hRS
      exact .element (hRS _ _ (.inl rfl) (.inl rfl) head)
        (inside fun h h' hh hh' => hRS h h' (.inr (.inl hh)) (.inr (.inl hh')))
        (behind fun h h' hh hh' => hRS h h' (.inr (.inr hh)) (.inr (.inr hh')))
  | text s _ ih => exact .text s (ih (by simpa using hRS))
  | entity name _ ih => exact .entity name (ih (by simpa using hRS))

theorem imp (h : Alike R nodes nodes') (hRS : ∀ h h', R h h' → S h h')
    : Alike S nodes nodes' :=
  h.imp_of_mem fun h h' _ _ => hRS h h'

theorem symm (h : Alike R nodes nodes') : Alike (fun h h' => R h' h) nodes' nodes := by
  induction h with
  | nil => exact .nil
  | element head _ _ inside behind => exact .element head inside behind
  | text s _ ih => exact .text s ih
  | entity name _ ih => exact .entity name ih

/-- Relations of heads in two steps compose, by induction over the first pair. -/
theorem trans (h : Alike R nodes nodes') (h' : Alike S nodes' nodes'')
    : Alike (fun h h'' => ∃ h', R h h' ∧ S h' h'') nodes nodes'' := by
  induction h generalizing nodes'' with
  | nil =>
      cases h'
      exact .nil
  | element head _ _ inside behind =>
      cases h' with
      | element head' inside' behind' =>
          exact .element ⟨_, head, head'⟩ (inside inside') (behind behind')
  | text s _ ih =>
      cases h' with
      | text _ behind' => exact .text s (ih behind')
  | entity name _ ih =>
      cases h' with
      | entity _ behind' => exact .entity name (ih behind')

theorem append {more more' : List Node} (h : Alike R nodes nodes')
    (hmore : Alike R more more')
    : Alike R (nodes ++ more) (nodes' ++ more') := by
  induction h with
  | nil => exact hmore
  | element head inside _ _ behind => exact .element head inside behind
  | text s _ ih => exact .text s ih
  | entity name _ ih => exact .entity name ih

/-- The heads are related in pairs. -/
theorem heads (h : Alike R nodes nodes')
    : List.Forall₂ R (Node.allHeads nodes) (Node.allHeads nodes') := by
  induction h with
  | nil => simp
  | element head _ _ inside behind =>
      simpa using ⟨head, List.rel_append inside behind⟩
  | text s _ ih => simpa using ih
  | entity name _ ih => simpa using ih

theorem leaves (h : Alike R nodes nodes')
    : Node.allLeaves nodes' = Node.allLeaves nodes := by
  induction h with
  | nil => rfl
  | element _ _ _ inside behind => simp [inside, behind]
  | text s _ ih => simp [ih]
  | entity name _ ih => simp [ih]

theorem isEmpty (h : Alike R nodes nodes') : nodes'.isEmpty = nodes.isEmpty := by
  cases h <;> rfl

/-- Two such forests are equal as soon as their heads are. -/
theorem eq_of_heads_eq (h : Alike R nodes nodes')
    (heads : Node.allHeads nodes' = Node.allHeads nodes)
    : nodes' = nodes := by
  induction h with
  | nil => rfl
  | element _ hinside _ inside behind =>
      simp only [Node.allHeads_element, List.cons.injEq] at heads
      obtain ⟨hi, hb⟩ := List.append_inj heads.2 hinside.heads.length_eq.symm
      rw [heads.1, inside hi, behind hb]
  | text s _ ih => rw [ih (by simpa using heads)]
  | entity name _ ih => rw [ih (by simpa using heads)]

theorem mapAllHeads (f : Head → Head) (nodes : List Node)
    : Alike (fun h h' => h' = f h) nodes (Node.mapAllHeads f nodes) := by
  induction nodes using Node.forest_induction with
  | nil => simpa using .nil
  | element h content nodes inside behind => simpa using .element rfl inside behind
  | text s nodes ih => simpa using .text s ih
  | entity name nodes ih => simpa using .entity name ih

end Alike

@[simp]
theorem Node.allHeads_mapAllHeads (f : Head → Head) (nodes : List Node)
    : Node.allHeads (Node.mapAllHeads f nodes) = (Node.allHeads nodes).map f := by
  induction nodes using Node.forest_induction with
  | nil => simp
  | element h content nodes inside behind => simp [inside, behind]
  | text s nodes ih => simpa using ih
  | entity name nodes ih => simpa using ih

@[simp]
theorem Node.allLeaves_mapAllHeads (f : Head → Head) (nodes : List Node)
    : Node.allLeaves (Node.mapAllHeads f nodes) = Node.allLeaves nodes :=
  (Alike.mapAllHeads f nodes).leaves

/-- Heads that do not change leave the forest as it is. -/
theorem Node.mapAllHeads_eq_self {f : Head → Head} {nodes : List Node}
    (h : ∀ head ∈ Node.allHeads nodes, f head = head)
    : Node.mapAllHeads f nodes = nodes := by
  apply (Alike.mapAllHeads f nodes).eq_of_heads_eq
  rw [allHeads_mapAllHeads]
  exact List.map_congr_left h |>.trans (List.map_id _)

theorem Element.heads_mapHeads (f : Head → Head) (e : Element)
    : (e.mapHeads f).heads = e.heads.map f := by
  simp [Element.heads, Element.mapHeads]

theorem Element.mapHeads_eq_self_iff {f : Head → Head} {e : Element}
    : e.mapHeads f = e ↔ ∀ head ∈ e.heads, f head = head := by
  constructor
  · intro h
    have hmap := Element.heads_mapHeads f e
    rw [h] at hmap
    exact List.map_inj_left.mp (hmap.symm.trans (List.map_id _).symm)
  · intro h
    obtain ⟨hhead, hcontent⟩ := List.forall_mem_cons.mp h
    rw [Element.mapHeads, hhead, Node.mapAllHeads_eq_self hcontent]

end SvgKit.Xml
