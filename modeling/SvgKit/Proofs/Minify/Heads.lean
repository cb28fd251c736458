import SvgKit.Minify.Basic
import SvgKit.Proofs.Minify.Values
import SvgKit.Proofs.Xml.Adaptation

/-! What a pass does to heads: attributes go or get new values, and rewritten attributes of
namespaces get other labels.
-/

namespace SvgKit.Minify

open Xml

-----------------------------------------------------------------------------------------
-- Fewer attributes and new values
-----------------------------------------------------------------------------------------

/-- An attribute that stays as it is or gets a new value, which then has no spelling of its
own.
-/
def Rewrites (a a' : Attribute) : Prop := a' = a ∨ a'.name = a.name ∧ a'.spelling = none

theorem Rewrites.refl (a : Attribute) : Rewrites a a := .inl rfl

theorem Rewrites.name {a a' : Attribute} (h : Rewrites a a') : a'.name = a.name := by
  rcases h with rfl | ⟨h, -⟩
  · rfl
  · exact h

theorem Rewrites.trans {a a' a'' : Attribute} (h : Rewrites a a') (h' : Rewrites a' a'')
    : Rewrites a a'' := by
  rcases h' with rfl | ⟨hname', hspelling'⟩
  · exact h
  · exact .inr ⟨hname'.trans h.name, hspelling'⟩

instance : IsTrans Attribute fun a' a => Rewrites a a' := ⟨fun _ _ _ h h' => h'.trans h⟩

instance : Std.Refl fun a' a => Rewrites a a' := ⟨fun a => .refl a⟩

/-- The values of attributes consist of characters of documents. -/
def SoundValues (attributes : List Attribute) : Prop :=
  ∀ a ∈ attributes, ∀ c ∈ a.value, isChar c

/-- A head with the same name and declarations, and with some of the attributes, each as it was
or with a new value.
-/
structure Reduces (h h' : Head) : Prop where
  name : h'.name = h.name
  bindings : h'.bindings = h.bindings
  attributes : List.SublistForall₂ (fun a' a => Rewrites a a') h'.attributes h.attributes
  values : SoundValues h.attributes → SoundValues h'.attributes

theorem Reduces.refl (h : Head) : Reduces h h :=
  ⟨rfl, rfl, (List.Sublist.refl _).sublistForall₂, id⟩

theorem Reduces.trans {h h' h'' : Head} (hr : Reduces h h') (hr' : Reduces h' h'')
    : Reduces h h'' :=
  ⟨hr'.name.trans hr.name, hr'.bindings.trans hr.bindings,
    IsTrans.trans _ _ _ hr'.attributes hr.attributes, fun h => hr'.values (hr.values h)⟩

theorem Reduces.of_sublist {h : Head} {attributes : List Attribute}
    (hsub : attributes.Sublist h.attributes)
    : Reduces h { h with attributes } :=
  ⟨rfl, rfl, hsub.sublistForall₂, fun hvalues a ha => hvalues a (hsub.subset ha)⟩

theorem Reduces.of_forall₂ {h : Head} {attributes : List Attribute}
    (hall : List.Forall₂ Rewrites h.attributes attributes)
    (hvalues : SoundValues h.attributes → SoundValues attributes)
    : Reduces h { h with attributes } :=
  ⟨rfl, rfl, List.sublistForall₂_iff.mpr ⟨_, hall.flip, .refl _⟩, hvalues⟩

theorem Reduces.length_le {h h' : Head} (hr : Reduces h h')
    : h'.attributes.length ≤ h.attributes.length := by
  obtain ⟨kept, hall, hsub⟩ := List.sublistForall₂_iff.mp hr.attributes
  exact hall.length_eq ▸ hsub.length_le

/-- As long as no attribute goes, the attributes correspond in pairs. -/
theorem Reduces.forall₂ {h h' : Head} (hr : Reduces h h')
    (hlength : h'.attributes.length = h.attributes.length)
    : List.Forall₂ Rewrites h.attributes h'.attributes := by
  obtain ⟨kept, hall, hsub⟩ := List.sublistForall₂_iff.mp hr.attributes
  have := hsub.eq_of_length (hall.length_eq.symm.trans hlength)
  exact this ▸ hall.flip

theorem Reduces.eq_of_attributes_eq {h h' : Head} (hr : Reduces h h')
    (heq : h'.attributes = h.attributes)
    : h' = h := by
  obtain ⟨name, bindings, attributes⟩ := h
  obtain ⟨name', bindings', attributes'⟩ := h'
  rw [Head.mk.injEq]
  exact ⟨hr.name, hr.bindings, heq⟩

theorem Reduces.sound {made : List Binding} {h h' : Head} (hr : Reduces h h')
    (hs : h.Sound made)
    : h'.Sound made := by
  obtain ⟨kept, hall, hsub⟩ := List.sublistForall₂_iff.mp hr.attributes
  have hkept := hs.sublist hsub
  have hvalues := hr.values fun a ha => (hs.attributes a ha).value
  have key {kept attributes : List Attribute}
      (hall : List.Forall₂ (fun a' a => Rewrites a a') attributes kept)
      (hkept : ∀ a ∈ kept, a.Sound made) (hvalues : SoundValues attributes)
      : (∀ a ∈ attributes, a.Sound made)
        ∧ attributes.map (fun a => (a.name.uri?, a.name.base))
          = kept.map fun a => (a.name.uri?, a.name.base) := by
    induction hall with
    | nil => simp
    | @cons a' a _ _ hrewrites _ ih =>
        rw [List.forall_mem_cons] at hkept
        rw [SoundValues, List.forall_mem_cons] at hvalues
        obtain ⟨hattributes, hnames⟩ := ih hkept.2 hvalues.2
        refine ⟨List.forall_mem_cons.mpr ⟨?_, hattributes⟩, ?_⟩
        · have hspelling : ∀ s, a'.spelling = some s → IsSpelling s := by
            rcases hrewrites with rfl | ⟨-, hnone⟩
            · exact hkept.1.spelling
            · simp [hnone]
          exact ⟨hrewrites.name ▸ hkept.1.name, hrewrites.name ▸ hkept.1.labelled,
            hrewrites.name ▸ hkept.1.plain, hvalues.1, hspelling⟩
        · rw [List.map_cons, List.map_cons, hrewrites.name, hnames]
  obtain ⟨hattributes, hnames⟩ := key hall hkept.attributes hvalues
  exact ⟨hr.name ▸ hs.name, hr.bindings ▸ hs.bindings, hr.bindings ▸ hs.labels, hattributes,
    hnames ▸ hkept.distinct⟩

-----------------------------------------------------------------------------------------
-- The steps of a pass
-----------------------------------------------------------------------------------------

theorem reduces_dropEditorAttributes (h : Head) : Reduces h (dropEditorAttributes h) :=
  .of_sublist List.filter_sublist

theorem reduces_erase (h : Head) (name : Text) : Reduces h (h.erase name) :=
  .of_sublist List.filter_sublist

theorem reduces_dropUnusedId (used : List Text) (h : Head)
    : Reduces h (dropUnusedId used h) := by
  unfold dropUnusedId
  split
  · exact .refl h
  · split
    · exact .refl h
    · exact reduces_erase h "id"

theorem reduces_dropDefaults (outer : List Head) (h : Head)
    : Reduces h (dropDefaults outer h) :=
  .of_sublist List.filter_sublist

theorem rewrites_of_roundAttribute {precision : Int} {a a' : Attribute}
    (h : roundAttribute precision a = .ok a')
    : Rewrites a a' ∧ ((∀ c ∈ a.value, isChar c) → ∀ c ∈ a'.value, isChar c) := by
  unfold roundAttribute at h
  split at h
  · cases hv : compactPath precision a.value with
    | error e =>
        rw [hv] at h
        cases h
    | ok value =>
        rw [hv] at h
        cases h
        exact ⟨.inr ⟨rfl, rfl⟩, isChar_of_compactPath hv⟩
  · split at h
    · cases hv : compactNumbers precision a.value with
      | error e =>
          rw [hv] at h
          cases h
      | ok value =>
          rw [hv] at h
          cases h
          exact ⟨.inr ⟨rfl, rfl⟩, isChar_of_compactNumbers hv⟩
    · cases h
      exact ⟨.refl a, id⟩

/-- What all steps over a list give corresponds to it in pairs. -/
theorem forall₂_of_mapM_eq_ok {α β ε : Type} {f : α → Except ε β} {l : List α} {l' : List β}
    (h : l.mapM f = .ok l')
    : List.Forall₂ (fun a b => f a = .ok b) l l' := by
  induction l generalizing l' with
  | nil =>
      cases h
      exact .nil
  | cons a l ih =>
      rw [List.mapM_cons] at h
      cases hfirst : f a with
      | error e =>
          rw [hfirst] at h
          cases h
      | ok b =>
          cases hrest : l.mapM f with
          | error e =>
              rw [hfirst, hrest] at h
              cases h
          | ok rest =>
              rw [hfirst, hrest] at h
              cases h
              exact .cons hfirst (ih hrest)

/-- Rounding gives each attribute its rounded form. -/
theorem roundNumbers_eq_ok {precision : Int} {h h' : Head}
    (heq : roundNumbers precision h = .ok h')
    : List.Forall₂ (fun a a' => roundAttribute precision a = .ok a') h.attributes h'.attributes
      ∧ h' = { h with attributes := h'.attributes } := by
  unfold roundNumbers at heq
  cases hround : h.attributes.mapM (roundAttribute precision) with
  | error e =>
      rw [hround] at heq
      cases heq
  | ok attributes =>
      rw [hround] at heq
      cases heq
      exact ⟨forall₂_of_mapM_eq_ok hround, rfl⟩

theorem reduces_of_roundNumbers {precision : Int} {h h' : Head}
    (heq : roundNumbers precision h = .ok h')
    : Reduces h h' := by
  obtain ⟨hround, hsame⟩ := roundNumbers_eq_ok heq
  have hall := hround.imp fun _ _ => rewrites_of_roundAttribute
  rw [hsame]
  refine .of_forall₂ (hall.imp fun _ _ h => h.1) fun hvalues => ?_
  generalize h.attributes = before at hall hvalues
  generalize h'.attributes = behind at hall
  clear hround hsame
  induction hall with
  | nil => simp [SoundValues]
  | cons hfirst _ ih =>
      rw [SoundValues, List.forall_mem_cons] at hvalues ⊢
      exact ⟨hfirst.2 hvalues.1, ih hvalues.2⟩

theorem reduces_set {h : Head} {name value : Text}
    (hvalue : SoundValues h.attributes → ∀ c ∈ value, isChar c)
    : Reduces h (h.set name value) := by
  refine .of_forall₂ ?_ ?_
  · rw [List.forall₂_map_right_iff, List.forall₂_same]
    intro a _
    split
    · exact .inr ⟨rfl, rfl⟩
    · exact .refl a
  · intro hvalues
    refine List.forall_mem_map.mpr fun a ha => ?_
    split
    · exact hvalue hvalues
    · exact hvalues a ha

theorem reduces_compactStyle (h : Head) : Reduces h (compactStyle h) := by
  unfold compactStyle
  split
  · exact .refl h
  · next style hstyle =>
      split
      · next compact hcompact =>
          refine reduces_set fun hvalues => isChar_of_compactStyle? hcompact ?_
          obtain ⟨a, ha, rfl⟩ := Option.map_eq_some_iff.mp hstyle
          exact hvalues a (List.mem_of_find?_eq_some ha)
      · exact reduces_erase h "style"

/-- A head is shortened in three parts. -/
theorem shortenHead_eq_ok {precision : Int} {outer : List Head} {h h' : Head}
    (heq : shortenHead precision outer h = .ok h')
    : ∃ rounded, roundNumbers precision (dropDefaults outer h) = .ok rounded
      ∧ h' = compactStyle rounded := by
  unfold shortenHead at heq
  cases hround : roundNumbers precision (dropDefaults outer h) with
  | error e =>
      rw [hround] at heq
      cases heq
  | ok rounded =>
      rw [hround] at heq
      cases heq
      exact ⟨rounded, rfl, rfl⟩

theorem reduces_of_shortenHead {precision : Int} {outer : List Head} {h h' : Head}
    (heq : shortenHead precision outer h = .ok h')
    : Reduces h h' := by
  obtain ⟨rounded, hround, rfl⟩ := shortenHead_eq_ok heq
  exact ((reduces_dropDefaults outer h).trans (reduces_of_roundNumbers hround)).trans
    (reduces_compactStyle rounded)

-----------------------------------------------------------------------------------------
-- Shortening of trees
-----------------------------------------------------------------------------------------

/-- Shortening nodes succeeds when it succeeds for the parts of the first one and for the
others.
-/
theorem shortenNodes_element {precision : Int} {outer : List Head} {h : Head}
    {content nodes nodes' : List Node}
    : shortenNodes precision outer (.element h content :: nodes) = .ok nodes'
      ↔ ∃ head inside behind, shortenHead precision outer h = .ok head
        ∧ shortenNodes precision (head :: outer) content = .ok inside
        ∧ shortenNodes precision outer nodes = .ok behind
        ∧ nodes' = .element head inside :: behind := by
  rw [shortenNodes, shortenNode]
  cases hhead : shortenHead precision outer h with
  | error e => simp [bind, Except.bind]
  | ok head =>
      cases hinside : shortenNodes precision (head :: outer) content with
      | error e => simp [bind, Except.bind, hinside]
      | ok inside =>
          cases hbehind : shortenNodes precision outer nodes with
          | error e => simp [bind, Except.bind, pure, Except.pure, hinside]
          | ok behind => simp [bind, Except.bind, pure, Except.pure, hinside, eq_comm]

theorem shortenNodes_text {precision : Int} {outer : List Head} {s : Text}
    {nodes nodes' : List Node}
    : shortenNodes precision outer (.text s :: nodes) = .ok nodes'
      ↔ ∃ behind, shortenNodes precision outer nodes = .ok behind
        ∧ nodes' = .text s :: behind := by
  rw [shortenNodes, shortenNode]
  · cases hbehind : shortenNodes precision outer nodes with
    | error e => simp [bind, Except.bind, pure, Except.pure]
    | ok behind => simp [bind, Except.bind, pure, Except.pure, eq_comm]
  · simp

theorem shortenNodes_entity {precision : Int} {outer : List Head} {name : Text}
    {nodes nodes' : List Node}
    : shortenNodes precision outer (.entity name :: nodes) = .ok nodes'
      ↔ ∃ behind, shortenNodes precision outer nodes = .ok behind
        ∧ nodes' = .entity name :: behind := by
  rw [shortenNodes, shortenNode]
  · cases hbehind : shortenNodes precision outer nodes with
    | error e => simp [bind, Except.bind, pure, Except.pure]
    | ok behind => simp [bind, Except.bind, pure, Except.pure, eq_comm]
  · simp

/-- Shortening keeps all nodes and shortens their heads, by induction over the forest. -/
theorem alike_shortenHead_of_shortenNodes {precision : Int} {outer : List Head}
    {nodes nodes' : List Node} (h : shortenNodes precision outer nodes = .ok nodes')
    : Alike (fun h h' => ∃ outer, shortenHead precision outer h = .ok h') nodes nodes' := by
  induction nodes using Node.forest_induction generalizing outer nodes' with
  | nil =>
      rw [shortenNodes] at h
      cases h
      exact .nil
  | element head content nodes inside behind =>
      obtain ⟨head', inside', behind', hhead, hinside, hbehind, rfl⟩ :=
        shortenNodes_element.mp h
      exact .element ⟨outer, hhead⟩ (inside hinside) (behind hbehind)
  | text s nodes ih =>
      obtain ⟨behind, hbehind, rfl⟩ := shortenNodes_text.mp h
      exact .text s (ih hbehind)
  | entity name nodes ih =>
      obtain ⟨behind, hbehind, rfl⟩ := shortenNodes_entity.mp h
      exact .entity name (ih hbehind)

theorem alike_of_shortenNodes {precision : Int} {outer : List Head} {nodes nodes' : List Node}
    (h : shortenNodes precision outer nodes = .ok nodes')
    : Alike Reduces nodes nodes' :=
  (alike_shortenHead_of_shortenNodes h).imp fun _ _ hshort =>
    hshort.elim fun _ hshort => reduces_of_shortenHead hshort

/-- An element is shortened as a forest of its own. -/
theorem shortenElement_eq_ok {precision : Int} {e e' : Element}
    : shortenElement precision e = .ok e'
      ↔ shortenNodes precision [] e.forest = .ok e'.forest := by
  rw [Element.forest, shortenNodes_element]
  unfold shortenElement
  cases hhead : shortenHead precision [] e.head with
  | error err => simp [bind, Except.bind]
  | ok head =>
      cases hinside : shortenNodes precision [head] e.content with
      | error err => simp [bind, Except.bind, hinside]
      | ok inside =>
          obtain ⟨head', content'⟩ := e'
          simp [bind, Except.bind, pure, Except.pure, hinside, shortenNodes, Element.forest,
            eq_comm, and_comm]

end SvgKit.Minify
