import SvgKit.Proofs.Minify.NormalForm
import SvgKit.Proofs.Text.Members

/-! The normal form of a tree depends on some names of attributes only: it carries over to trees
that agree in these.
-/

namespace SvgKit.Minify

open Xml

-----------------------------------------------------------------------------------------
-- Places
-----------------------------------------------------------------------------------------

/-- Two places whose surroundings and contents differ in heads only. -/
structure Place.Alike (R : Head → Head → Prop) (p p' : Place) : Prop where
  outer : List.Forall₂ R p.outer p'.outer
  head : R p.head p'.head
  content : Xml.Alike R p.content p'.content
  behind : Xml.Alike R p.behind p'.behind

/-- Forests that differ in heads only have places that do so in pairs. -/
theorem places_of_alike {R : Head → Head → Prop} {nodes nodes' : List Node}
    (h : Alike R nodes nodes') {outer outer' : List Head} (hout : List.Forall₂ R outer outer')
    : List.Forall₂ (Place.Alike R) (places outer nodes) (places outer' nodes') := by
  induction h generalizing outer outer' with
  | nil =>
      rw [places_nil, places_nil]
      exact .nil
  | element head hinside hbehind inside behind =>
      rw [places_element, places_element]
      exact .cons ⟨hout, head, hinside, hbehind⟩
        (List.rel_append (inside (.cons head hout)) (behind hout))
  | text s _ ih =>
      rw [places_text, places_text]
      exact ih hout
  | entity name _ ih =>
      rw [places_entity, places_entity]
      exact ih hout

-----------------------------------------------------------------------------------------
-- Nodes
-----------------------------------------------------------------------------------------

section Forests

variable {R : Head → Head → Prop} {nodes nodes' : List Node} (h : Alike R nodes nodes')
include h

theorem all_isText_of_alike : nodes'.all Node.isText = nodes.all Node.isText := by
  induction h with
  | nil => rfl
  | element _ _ _ _ _ => rfl
  | text s _ ih => rw [List.all_cons, List.all_cons, ih]
  | entity name _ _ => rfl

theorem leadingText_of_alike : leadingText nodes' = leadingText nodes := by
  induction h with
  | nil => rfl
  | element _ _ _ _ _ => rfl
  | text s _ ih => rw [leadingText, leadingText, ih]
  | entity name _ _ => rfl

/-- Each node has one in the other forest that holds an identifier if it does. -/
theorem exists_mem_of_agrees {P : Text → Prop} (hR : ∀ h h', R h h' → HeadAgrees P h h')
    (hid : P "id") {used : List Text} {child' : Node} (hchild : child' ∈ nodes')
    : ∃ child ∈ nodes, child.isText = child'.isText
      ∧ holdsUsedId used child' = holdsUsedId used child := by
  have hholds {h h' : Head} (hh : R h h')
      : (h'.get? "id").any used.contains = (h.get? "id").any used.contains := by
    rw [get?_of_agrees (hR h h' hh) hid]
  induction h with
  | nil => cases hchild
  | element head hcontent _ _ behind =>
      rcases List.mem_cons.mp hchild with rfl | hchild
      · refine ⟨_, List.mem_cons_self, rfl, ?_⟩
        rw [holdsUsedId, holdsUsedId, Node.heads, Node.heads, List.any_cons, List.any_cons,
          hholds head, any_heads_of_alike hcontent fun _ _ hh => hholds hh]
      · obtain ⟨child, hmem, hsame⟩ := behind hchild
        exact ⟨child, List.mem_cons_of_mem _ hmem, hsame⟩
  | text s _ ih =>
      rcases List.mem_cons.mp hchild with rfl | hchild
      · exact ⟨_, List.mem_cons_self, rfl, rfl⟩
      · obtain ⟨child, hmem, hsame⟩ := ih hchild
        exact ⟨child, List.mem_cons_of_mem _ hmem, hsame⟩
  | entity name _ ih =>
      rcases List.mem_cons.mp hchild with rfl | hchild
      · exact ⟨_, List.mem_cons_self, rfl, rfl⟩
      · obtain ⟨child, hmem, hsame⟩ := ih hchild
        exact ⟨child, List.mem_cons_of_mem _ hmem, hsame⟩

end Forests

theorem isBareGroup_of_agrees {P : Text → Prop} {R : Head → Head → Prop} {h h' : Head}
    (hh : HeadAgrees P h h') {content content' : List Node} (hcontent : Alike R content content')
    : isBareGroup h' content' = isBareGroup h content := by
  have hempty : h'.attributes.isEmpty = h.attributes.isEmpty := by
    have hlength := hh.attributes.length_eq
    rw [Bool.eq_iff_iff, List.isEmpty_iff_length_eq_zero, List.isEmpty_iff_length_eq_zero, hlength]
  rw [isBareGroup, isBareGroup, hh.name.base, hempty, beginsBlank, beginsBlank,
    leadingText_of_alike hcontent]

theorem isEmptyContainer_of_agrees {P : Text → Prop} {R : Head → Head → Prop} {h h' : Head}
    (hh : HeadAgrees P h h') (hid : P "id") {content content' : List Node}
    (hcontent : Alike R content content')
    : isEmptyContainer h' content' = isEmptyContainer h content := by
  rw [isEmptyContainer, isEmptyContainer, all_isText_of_alike hcontent, beginsBlank, beginsBlank,
    leadingText_of_alike hcontent, get?_of_agrees hh hid]

theorem holdsUsedId_mono {used used' : List Text} (hused : used ⊆ used') {node : Node}
    (h : holdsUsedId used node)
    : holdsUsedId used' node := by
  obtain ⟨head, hhead, hid⟩ := List.any_eq_true.mp h
  obtain ⟨id, hvalue, hmem⟩ := (Option.any_eq_true _ _).mp hid
  apply List.any_eq_true.mpr
  refine ⟨head, hhead, (Option.any_eq_true _ _).mpr ⟨id, hvalue, ?_⟩⟩
  exact List.contains_iff_mem.mpr (hused (List.contains_iff_mem.mp hmem))

-----------------------------------------------------------------------------------------
-- The normal form
-----------------------------------------------------------------------------------------

/-- A tree is in normal form if it agrees with one that is, in the names that matter for more
than numbers, and refers to the same identifiers, and if its numbers are short.
-/
theorem IsNormal.of_agrees {P : Text → Prop} {precision : Int} {e e' : Element}
    (hn : IsNormal precision e) (h : Alike (HeadAgrees P) e.forest e'.forest)
    (hnames : ∀ name ∈ (["version", "id", "style", "d"] : List Text), P name)
    (hdefaults : ∀ h ∈ e'.heads, ∀ a ∈ h.attributes, a.name.binding = none →
      (presentationDefaults.lookup a.name.base).isSome → P a.name.base)
    (hused : usedIds e ⊆ usedIds e')
    (hnumbers : ∀ h ∈ e'.heads, ∀ a ∈ h.attributes, isNumeric a.name.base →
      compactNumbers precision a.value = .ok a.value)
    : IsNormal precision e' := by
  have hsensitive : isIdSensitive e' = isIdSensitive e := by
    rw [isIdSensitive, isIdSensitive, Element.heads_eq, Element.heads_eq]
    exact any_heads_of_alike h fun _ _ hh => by rw [hh.name.base]
  have hplaces := h
  simp only [List.forall_mem_cons, List.not_mem_nil, false_implies, implies_true, and_true]
    at hnames
  obtain ⟨hversion, hid, hstyle, hpath⟩ := hnames
  cases h with
  | element hroot hcontent _ =>
      have hheads {h' : Head} (hh' : h' ∈ e'.heads) : ∃ h ∈ e.heads, HeadAgrees P h h' :=
        exists_mem_left_of_forall₂ (.cons hroot hcontent.heads) hh'
      have hinner {h' : Head} (hh' : h' ∈ Node.allHeads e'.content)
          : ∃ h ∈ Node.allHeads e.content, HeadAgrees P h h' :=
        exists_mem_left_of_forall₂ hcontent.heads hh'
      have hattribute {h' : Head} (hh' : h' ∈ e'.heads) {a' : Attribute} (ha' : a' ∈ h'.attributes)
          : ∃ h ∈ e.heads, ∃ a ∈ h.attributes, AttributeAgrees P a a' := by
        obtain ⟨h, hh, hagrees⟩ := hheads hh'
        obtain ⟨a, ha, hagrees⟩ := exists_mem_left_of_forall₂ hagrees.attributes ha'
        exact ⟨h, hh, a, ha, hagrees⟩
      exact {
        elements := by
          intro h' hh'
          obtain ⟨h, hh, hagrees⟩ := hinner hh'
          rw [isEditorElement_of_agrees hagrees]
          exact hn.elements h hh
        attributes := by
          intro h' hh' a' ha'
          obtain ⟨h, hh, a, ha, hagrees⟩ := hattribute hh' ha'
          rw [isEditorName, hagrees.uri]
          exact hn.attributes h hh a ha
        version := by
          rw [get?_of_agrees hroot hversion]
          exact hn.version
        ids := by
          intro hfree h' hh' id hvalue
          obtain ⟨h, hh, hagrees⟩ := hinner hh'
          rw [get?_of_agrees hagrees hid] at hvalue
          exact hused (hn.ids (hsensitive ▸ hfree) h hh id hvalue)
        definitions := by
          intro hfree p' hp' hdefs child' hchild' htext
          obtain ⟨p, hp, halike⟩ := exists_mem_left_of_forall₂ (places_of_alike hplaces .nil) hp'
          obtain ⟨child, hchild, hsameText, hholds⟩ :=
            exists_mem_of_agrees halike.content (fun _ _ hh => hh) hid hchild'
          rw [isDefs_of_agrees halike.head] at hdefs
          apply holdsUsedId_mono hused
          rw [hholds]
          exact hn.definitions (hsensitive ▸ hfree) p hp hdefs child hchild (hsameText.trans htext)
        defaults := by
          intro p' hp' a' ha' hplain hlookup
          obtain ⟨p, hp, halike⟩ := exists_mem_left_of_forall₂ (places_of_alike hplaces .nil) hp'
          obtain ⟨a, ha, hagrees⟩ := exists_mem_left_of_forall₂ halike.head.attributes ha'
          have hhead : p'.head ∈ e'.heads := Element.heads_eq e' ▸ head_mem_of_mem_places hp'
          have hname := hdefaults p'.head hhead a' ha' hplain (by rw [hlookup]; rfl)
          have hbase := (hagrees.base a'.name.base hname).mp rfl
          have hplain' : a.name.binding = none := by
            rw [← Option.isNone_iff_eq_none, ← hagrees.isNone_binding, hplain]
            rfl
          rw [← hbase, hagrees.value] at hlookup
          obtain ⟨h, hh, hsets⟩ := hn.defaults p hp a ha hplain' hlookup
          obtain ⟨h', hh', hagreesHead⟩ := exists_mem_right_of_forall₂ halike.outer hh
          refine ⟨h', hh', ?_⟩
          rw [setsProperty_of_agrees hagreesHead hstyle hname, ← hbase]
          exact hsets
        paths := by
          intro h' hh' a' ha' hname
          obtain ⟨h, hh, a, ha, hagrees⟩ := hattribute hh' ha'
          have hbase := (hagrees.base "d" hpath).mp (of_decide_eq_true hname)
          rw [hagrees.value]
          exact hn.paths h hh a ha (decide_eq_true hbase)
        numbers := hnumbers
        styles := by
          intro h' hh' style hvalue
          obtain ⟨h, hh, hagrees⟩ := hheads hh'
          rw [get?_of_agrees hagrees hstyle] at hvalue
          exact hn.styles h hh style hvalue
        containers := by
          intro p' hp' hname hblank
          obtain ⟨p, hp, halike⟩ :=
            exists_mem_left_of_forall₂ (places_of_alike hcontent (.cons hroot .nil)) hp'
          rw [halike.head.name.base] at hname
          rw [beginsBlank, leadingText_of_alike halike.behind] at hblank
          rw [isEmptyContainer_of_agrees halike.head hid halike.content,
            isBareGroup_of_agrees halike.head halike.content]
          exact hn.containers p hp hname hblank
      }

/-- A tree that is the same as one in normal form is in normal form. -/
theorem IsNormal.of_same {precision : Int} {e e' : Element} (hn : IsNormal precision e)
    (hs : Alike Head.Same e.forest e'.forest)
    : IsNormal precision e' := by
  apply hn.of_agrees (hs.imp fun _ _ hh => headAgrees_of_same hh) (fun _ _ => trivial)
    (fun _ _ _ _ _ _ => trivial) (usedIds_of_same hs ▸ List.Subset.refl _)
  intro h' hh' a' ha' hnumeric
  rw [Element.heads_eq] at hh'
  obtain ⟨h, hh, hsame⟩ := exists_mem_left_of_forall₂ hs.heads hh'
  obtain ⟨a, ha, hsame⟩ := exists_mem_left_of_forall₂ hsame.attributes ha'
  rw [hsame.name.base] at hnumeric
  rw [hsame.value]
  exact hn.numbers h (Element.heads_eq e ▸ hh) a ha hnumeric

end SvgKit.Minify
