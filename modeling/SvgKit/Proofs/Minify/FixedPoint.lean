import SvgKit.Proofs.Minify.Congruence
import SvgKit.Proofs.Minify.Soundness
import SvgKit.Proofs.Xml.RoundTrip

/-! Minification in several passes ends at a fixed point. A pass that leaves the text of a
document as it was gives a document that no pass changes, since trees that print alike are
treated alike.
-/

namespace SvgKit.Minify

open Xml

-----------------------------------------------------------------------------------------
-- Heads that print alike
-----------------------------------------------------------------------------------------

/-- An attribute with a new value prints differently, for a spelling with a reference to an
entity is never that of a value.
-/
theorem Rewrites.eq_of_spelled_eq {made made' : List Binding} {a a' : Attribute}
    (hr : Rewrites a a') (ha : a.Sound made) (ha' : a'.Sound made')
    (heq : a'.spelled = a.spelled)
    : a' = a := by
  rcases hr with rfl | ⟨hname, hnone⟩
  · rfl
  · have hread := readValue?_escapeValue ha'.value
    rw [Attribute.spelled, hnone, Option.getD_none] at heq
    rw [heq] at hread
    cases hspelling : a.spelling with
    | none =>
        rw [Attribute.spelled, hspelling, Option.getD_none, readValue?_escapeValue ha.value,
          Option.some.injEq, List.map_inj_right fun _ _ => by simp] at hread
        obtain ⟨name, value, spelling⟩ := a
        obtain ⟨name', value', spelling'⟩ := a'
        rw [Attribute.mk.injEq]
        exact ⟨hname, hread.symm, hnone.trans hspelling.symm⟩
    | some s =>
        obtain ⟨value, hvalue, hentity, rfl⟩ := ha.spelling s hspelling
        rw [Attribute.spelled, hspelling, Option.getD_some, readValue?_spelled hvalue,
          Option.some.injEq] at hread
        simp [hread, Reference.isEntity] at hentity

/-- A head that is reduced to one whose attributes print alike stays as it is. -/
theorem Reduces.eq_of_spelled_eq {made made' : List Binding} {h h' : Head}
    (hr : Reduces h h') (hs : h.Sound made) (hs' : h'.Sound made')
    (heq : h'.attributes.map Attribute.spelled = h.attributes.map Attribute.spelled)
    : h' = h := by
  have hrewrites := hr.forall₂ (by simpa using congrArg List.length heq)
  apply hr.eq_of_attributes_eq
  have hattributes := hs.attributes
  have hattributes' := hs'.attributes
  generalize h.attributes = attributes at hrewrites heq hattributes
  generalize h'.attributes = attributes' at hrewrites heq hattributes'
  induction hrewrites with
  | nil => rfl
  | cons hfirst _ ih =>
      rw [List.forall_mem_cons] at hattributes hattributes'
      rw [List.map_cons, List.map_cons, List.cons.injEq] at heq
      rw [hfirst.eq_of_spelled_eq hattributes.1 hattributes'.1 heq.1,
        ih hattributes.2 heq.2 hattributes'.2]

theorem map_spelled_of_same {attributes attributes' : List Attribute}
    (hall : SameAttributes attributes attributes')
    : attributes'.map Attribute.spelled = attributes.map Attribute.spelled := by
  induction hall with
  | nil => rfl
  | cons hfirst _ ih =>
      rw [List.map_cons, List.map_cons, ih, Attribute.spelled, hfirst.spelling, hfirst.value,
        Attribute.spelled]

/-- A head that a pass leaves with its text: it is neither reduced nor gets or loses a
declaration.
-/
theorem settled_head {next next' : Nat} {made made' : List Binding}
    {h reduced relabelled h' : Head} (hledger : Ledger next made)
    (hledger' : Ledger next' made') (hs : h.Sound made) (hs' : relabelled.Sound made')
    (hreduces : Reduces h reduced) (hrelabels : Relabels reduced relabelled)
    (hundeclares : Undeclares relabelled h') (heq : h.text = h'.text)
    : reduced = h ∧ relabelled.bindings = h.bindings ∧ h' = relabelled := by
  obtain ⟨-, hpairs⟩ :=
    hs.text_injective hledger hledger' (hundeclares.sound hs') heq
  obtain ⟨hbindings, hattributes⟩ :=
    hs.parts_eq hledger hledger' (hundeclares.sound hs') hpairs
  obtain ⟨p, rfl, hused⟩ := hundeclares
  obtain rfl : reduced = h := by
    refine hreduces.eq_of_spelled_eq hs (hreduces.sound hs) ?_
    have hspelled := congrArg (List.map Prod.snd) hattributes
    simp only [List.map_map, Function.comp_def] at hspelled
    exact (map_spelled_of_same hrelabels.attributes).symm.trans hspelled.symm
  obtain ⟨new, hnew, hnewUsed⟩ := hrelabels.bindings
  -- the labels that print are those of the old declarations, so that no new one is left
  have hlabels : (relabelled.bindings.filter p).map (·.label)
      = reduced.bindings.map (·.label) := by
    have := congrArg (List.filterMap fun pair : Spelling × Text =>
      RawAttribute.declares? ⟨pair.1, pair.2, none⟩) hbindings
    simpa [List.filterMap_map, Function.comp_def, Binding.declares?_spelling] using this.symm
  have hnone : new = [] := by
    refine List.eq_nil_iff_forall_not_mem.mpr fun b hb => ?_
    obtain ⟨a, ha, hab⟩ := hnewUsed b hb
    have hnodup := hs'.labels
    rw [hnew, List.map_append] at hnodup
    have hkept : b ∈ relabelled.bindings.filter p :=
      List.mem_filter.mpr ⟨hnew ▸ List.mem_append_right _ hb, hused a ha b hab⟩
    exact List.disjoint_of_nodup_append hnodup (hlabels ▸ List.mem_map_of_mem hkept)
      (List.mem_map_of_mem hb)
  rw [hnone, List.append_nil] at hnew
  refine ⟨rfl, hnew, ?_⟩
  have hlength := congrArg List.length hlabels
  rw [List.length_map, List.length_map, ← hnew] at hlength
  rw [List.filter_sublist.eq_of_length hlength]

theorem settled_heads {next next' : Nat} {made made' : List Binding}
    {heads reduced relabelled heads' : List Head} (hledger : Ledger next made)
    (hledger' : Ledger next' made') (hs : ∀ h ∈ heads, h.Sound made)
    (hs' : ∀ h ∈ relabelled, h.Sound made') (hreduces : List.Forall₂ Reduces heads reduced)
    (hrelabels : List.Forall₂ Relabels reduced relabelled)
    (hundeclares : List.Forall₂ Undeclares relabelled heads')
    (heq : List.Forall₂ (fun h h' => h.text = h'.text) heads heads')
    : reduced = heads ∧ relabelled.map (·.bindings) = heads.map (·.bindings)
      ∧ heads' = relabelled := by
  induction hreduces generalizing relabelled heads' with
  | nil =>
      cases hrelabels
      cases hundeclares
      exact ⟨rfl, rfl, rfl⟩
  | cons hreduces _ ih =>
      cases hrelabels with
      | cons hrelabels hrelabels' =>
          cases hundeclares with
          | cons hundeclares hundeclares' =>
              cases heq with
              | cons heq heq' =>
                  rw [List.forall_mem_cons] at hs hs'
                  obtain ⟨rfl, hbindings, rfl⟩ := settled_head hledger hledger' hs.1 hs'.1
                    hreduces hrelabels hundeclares heq
                  obtain ⟨rfl, hrest, rfl⟩ := ih hs.2 hs'.2 hrelabels' hundeclares' heq'
                  exact ⟨rfl, by rw [List.map_cons, List.map_cons, hbindings, hrest], rfl⟩

-----------------------------------------------------------------------------------------
-- Steps that take things out
-----------------------------------------------------------------------------------------

/-- A head without some of the attributes. -/
def Shrinks (h h' : Head) : Prop :=
  ∃ attributes, attributes.Sublist h.attributes ∧ h' = { h with attributes }

theorem Shrinks.refl (h : Head) : Shrinks h h := ⟨h.attributes, .refl _, rfl⟩

theorem Shrinks.reduces {h h' : Head} (hs : Shrinks h h') : Reduces h h' := by
  obtain ⟨attributes, hsub, rfl⟩ := hs
  exact .of_sublist hsub

/-- Attributes that are gone do not come back. -/
theorem Shrinks.eq_of_reduces {h h' : Head} (hs : Shrinks h h') (hr : Reduces h' h)
    : h' = h := by
  have hle := hr.length_le
  obtain ⟨attributes, hsub, rfl⟩ := hs
  rw [hsub.eq_of_length_le hle]

theorem eq_of_shrinks_of_reduces {nodes nodes' : List Node}
    (hs : Alike Shrinks nodes nodes') (hr : Alike Reduces nodes' nodes)
    : nodes' = nodes := by
  induction hs with
  | nil => rfl
  | element head _ _ inside behind =>
      cases hr with
      | element head' inside' behind' =>
          rw [head.eq_of_reduces head', inside inside', behind behind']
  | text s _ ih =>
      cases hr with
      | text _ hr => rw [ih hr]
  | entity name _ ih =>
      cases hr with
      | entity _ hr => rw [ih hr]

/-- A step in which a tree is pruned, and then loses attributes. New declarations are made only
for what is pruned.
-/
def Trims (d d' : Document) : Prop :=
  ∃ left : Element, Pruned false d.root.forest left.forest
    ∧ Alike Shrinks left.forest d'.root.forest ∧ (left = d.root → d'.supply = d.supply)

namespace Trims

variable {d d' : Document}

theorem weight_le (h : Trims d d')
    : Node.weight d'.root.forest ≤ Node.weight d.root.forest := by
  obtain ⟨left, hpruned, halike, -⟩ := h
  rw [halike.weight_eq]
  exact hpruned.weight_le

/-- A tree that keeps its weight keeps all its nodes. -/
theorem alike_of_weight_eq (h : Trims d d')
    (hweight : Node.weight d'.root.forest = Node.weight d.root.forest)
    : Alike Shrinks d.root.forest d'.root.forest ∧ d'.supply = d.supply := by
  obtain ⟨left, hpruned, halike, hsupply⟩ := h
  rw [halike.weight_eq] at hweight
  have hleft := hpruned.eq_of_weight_eq rfl hweight
  exact ⟨hleft ▸ halike, hsupply (Element.forest_injective hleft)⟩

/-- A step that gives the same tree up to declarations changes nothing. -/
theorem eq_of_same (h : Trims d d') (hs : Alike Head.Same d.root.forest d'.root.forest)
    : d' = d := by
  obtain ⟨halike, hsupply⟩ := h.alike_of_weight_eq hs.weight_eq
  exact Document.eq_of_forest
    (eq_of_reduces_of_same (halike.imp fun _ _ hs => hs.reduces) hs) hsupply

end Trims

theorem Pruned.root {h : Head} {content left : List Node} (hp : Pruned false content left)
    : Pruned false (Element.forest ⟨h, content⟩) (Element.forest ⟨h, left⟩) :=
  .element h hp .nil

/-- Nothing satisfies the condition in what pruning leaves as it is. -/
theorem allTopmost_eq_nil {p : Head → Head → Bool} {parent : Head} {nodes : List Node}
    (h : pruneNodes p parent false nodes = nodes)
    : Node.allTopmost p parent nodes = [] := by
  induction nodes using Node.forest_induction generalizing parent with
  | nil => rw [Node.allTopmost]
  | element head content nodes inside behind =>
      rw [pruneNodes_element] at h
      split at h
      · have := (pruned_pruneNodes p parent true nodes).length_le
        rw [h, List.length_cons] at this
        omega
      · next hp =>
          rw [List.cons.injEq, Node.element.injEq] at h
          rw [Node.allTopmost_element, if_neg hp, inside h.1.2, behind h.2, List.nil_append]
  | text s nodes ih =>
      rw [pruneNodes] at h
      rw [Node.allTopmost, Node.topmost, ih (List.cons.inj h).2, List.nil_append]
      simp
  | entity name nodes ih =>
      rw [pruneNodes] at h
      rw [Node.allTopmost, Node.topmost, ih (List.cons.inj h).2, List.nil_append]
      simp

theorem trims_removeEditorContent (d : Document) : Trims d (removeEditorContent d) := by
  refine ⟨_, (pruned_pruneNodes (fun _ h => isEditorElement h) d.root.head false
    d.root.content).root, alike_mapHeads _ fun h _ => ⟨_, List.filter_sublist, rfl⟩, ?_⟩
  intro hleft
  have hcontent := congrArg Element.content hleft
  unfold removeEditorContent
  dsimp only
  rw [allTopmost_eq_nil hcontent, List.foldl_nil]

theorem trims_dropVersion (d : Document) : Trims d (dropVersion d) :=
  ⟨d.root, (Pruned.refl d.root.content).root,
    .element ⟨_, List.filter_sublist, rfl⟩ (Alike.refl .refl d.root.content) .nil,
    fun _ => rfl⟩

/-- Only text counts as an unused definition in what pruning leaves as it is. -/
theorem isText_of_mem_allUnusedDefs {used : List Text} {inDefs : Bool} {nodes : List Node}
    (h : pruneAllDefs used inDefs false nodes = nodes)
    : ∀ node ∈ allUnusedDefs used inDefs nodes, node.isText := by
  induction nodes using Node.forest_induction generalizing inDefs with
  | nil => simp [allUnusedDefs]
  | element head content nodes inside behind =>
      rw [pruneAllDefs_element] at h
      split at h
      · have := (pruned_pruneAllDefs used inDefs true nodes).length_le
        rw [h, List.length_cons] at this
        omega
      · next hp =>
          rw [List.cons.injEq, Node.element.injEq] at h
          rw [allUnusedDefs_element, if_neg hp]
          exact List.forall_mem_append.mpr ⟨inside h.1.2, behind h.2⟩
  | text s nodes ih =>
      rw [pruneAllDefs] at h
      rw [allUnusedDefs_text]
      refine List.forall_mem_append.mpr ⟨?_, ih (List.cons.inj h).2⟩
      cases inDefs <;> simp [Node.isText]
  | entity name nodes ih =>
      rw [pruneAllDefs_entity] at h
      split at h
      · have := (pruned_pruneAllDefs used inDefs true nodes).length_le
        rw [h, List.length_cons] at this
        omega
      · next hdefs =>
          rw [allUnusedDefs_entity, if_neg hdefs, List.nil_append]
          exact ih (List.cons.inj h).2

/-- Discarding text makes no declaration. -/
theorem foldl_discard_of_isText {p : Head → Head → Bool} {nodes : List Node}
    (h : ∀ node ∈ nodes, node.isText) (supply : Supply)
    : nodes.foldl (fun supply node => node.discard p supply) supply = supply := by
  induction nodes with
  | nil => rfl
  | cons node nodes ih =>
      rw [List.forall_mem_cons] at h
      have hnode : node.discard p supply = supply := by
        cases node with
        | element head content => simp [Node.isText] at h
        | text s => rw [Node.discard, Node.heads, List.length_nil, discardTo]
        | entity name => simp [Node.isText] at h
      rw [List.foldl_cons, hnode, ih h.2]

theorem trims_removeUnusedIds (d : Document) : Trims d (removeUnusedIds d) := by
  unfold removeUnusedIds
  split
  · exact ⟨d.root, (Pruned.refl d.root.content).root, Alike.refl .refl d.root.forest,
      fun _ => rfl⟩
  · refine ⟨_, (pruned_pruneAllDefs (usedIds d.root) (isDefs d.root.head) false
      d.root.content).root, .element (.refl d.root.head) ?_ .nil, fun hleft => ?_⟩
    · refine (Alike.mapAllHeads _ _).imp fun h h' heq => heq ▸ ?_
      unfold dropUnusedId
      split
      · exact .refl h
      · split
        · exact .refl h
        · exact ⟨_, List.filter_sublist, rfl⟩
    · exact foldl_discard_of_isText
        (isText_of_mem_allUnusedDefs (congrArg Element.content hleft)) d.supply

theorem reduces_trans {nodes nodes' nodes'' : List Node} (h : Alike Reduces nodes nodes')
    (h' : Alike Reduces nodes' nodes'')
    : Alike Reduces nodes nodes'' :=
  (h.trans h').imp fun _ _ ⟨_, hr, hr'⟩ => hr.trans hr'

/-- Collapsing containers never adds weight, and changes nothing where the weight stays. -/
theorem collapseGroups_spec {made : List Binding} {d : Document} (hd : d.Sound made)
    : Node.weight (collapseGroups d).root.forest ≤ Node.weight d.root.forest
      ∧ (Node.weight (collapseGroups d).root.forest = Node.weight d.root.forest
        → collapseGroups d = d) := by
  obtain ⟨hroot, hcontent, -⟩ := Node.AllSound.element_iff.mp hd.tree
  obtain ⟨-, -, -, -, hcollapsed, hsupply⟩ := collapseNodes_spec
    (.cons hroot.mem_made .nil) hd.ledger hcontent
  have hforest := Collapsed.keep d.root.head hcollapsed .nil
  refine ⟨hforest.weight_le, fun hweight => ?_⟩
  have hsame := hforest.eq_of_weight_eq hweight
  have hnodes := hsame
  rw [List.cons.injEq, Node.element.injEq] at hnodes
  exact Document.eq_of_forest hsame (hsupply (by rw [hnodes.1.2]))

theorem relabel_again {d : Document}
    (h : (Node.allHeads (relabel d).root.forest).map (·.bindings)
      = (Node.allHeads d.root.forest).map (·.bindings))
    : (relabel d).supply = d.supply ∧ relabel (relabel d) = relabel d := by
  have hcount := congrArg (fun bindings => bindings.flatten.length) h
  simp only [← List.flatMap_def] at hcount
  have heq := relabel_eq d
  have hagain := relabelNodes_again [] d.root.forest d.supply (by
    rw [heq]
    exact Nat.le_of_eq hcount)
  rw [heq] at hagain
  dsimp only at hagain
  have hsupply := hagain.1
  refine ⟨hsupply, ?_⟩
  have heq' := relabel_eq (relabel d)
  rw [hsupply, hagain.2, Prod.mk.injEq] at heq'
  exact Document.eq_of_forest heq'.1.symm (heq'.2.symm)

-----------------------------------------------------------------------------------------
-- Fixed points
-----------------------------------------------------------------------------------------

/-- Trees that are the same as a third one are the same. -/
theorem same_of_common {nodes nodes' nodes'' : List Node} (h : Alike Head.Same nodes nodes')
    (h' : Alike Head.Same nodes nodes'')
    : Alike Head.Same nodes' nodes'' := by
  refine ((h.symm.imp fun _ _ => Head.Same.symm).trans h').imp fun _ _ hsame => ?_
  obtain ⟨_, hs, hs'⟩ := hsame
  exact hs.trans hs'

/-- Trees that are the same stay so when their editor content goes. -/
theorem removeEditorContent_of_same {d d' : Document}
    (hs : Alike Head.Same d.root.forest d'.root.forest)
    : Alike Head.Same (removeEditorContent d).root.forest
      (removeEditorContent d').root.forest := by
  cases hs with
  | element hhead hcontent _ =>
      refine .element (dropEditorAttributes_of_same hhead) ?_ .nil
      refine mapAllHeads_of_same ?_ fun _ _ => dropEditorAttributes_of_same
      exact pruneNodes_of_same hcontent hhead fun _ _ _ _ _ h => isEditorElement_of_same h

theorem dropVersion_of_same {d d' : Document}
    (hs : Alike Head.Same d.root.forest d'.root.forest)
    : Alike Head.Same (dropVersion d).root.forest (dropVersion d').root.forest := by
  cases hs with
  | element hhead hcontent _ => exact .element (erase_of_same hhead _) hcontent .nil

theorem usedIds_of_same {e e' : Element} (hs : Alike Head.Same e.forest e'.forest)
    : usedIds e' = usedIds e := by
  have hheads := hs.heads
  rw [usedIds, usedIds, Element.heads_eq, Element.heads_eq]
  generalize Node.allHeads e.forest = heads at hheads
  generalize Node.allHeads e'.forest = heads' at hheads
  induction hheads with
  | nil => rfl
  | cons hfirst _ ih =>
      rw [List.flatMap_cons, List.flatMap_cons, ih,
        flatMap_attributeReferences_of_same hfirst.attributes]

theorem removeUnusedIds_of_same {d d' : Document}
    (hs : Alike Head.Same d.root.forest d'.root.forest)
    : Alike Head.Same (removeUnusedIds d).root.forest (removeUnusedIds d').root.forest := by
  have hsensitive : isIdSensitive d'.root = isIdSensitive d.root := by
    rw [isIdSensitive, isIdSensitive, Element.heads_eq, Element.heads_eq]
    exact any_heads_of_alike hs fun _ _ h => by rw [h.name.base]
  unfold removeUnusedIds
  rw [hsensitive, usedIds_of_same hs]
  split
  · exact hs
  · cases hs with
    | element hhead hcontent _ =>
        refine .element hhead ?_ .nil
        refine mapAllHeads_of_same ?_ fun _ _ h => dropUnusedId_of_same h _
        rw [isDefs_of_same hhead]
        exact pruneAllDefs_of_same hcontent _

theorem shortenElement_of_same {precision : Int} {e e' : Element}
    (hs : Alike Head.Same e.forest e'.forest) (h : shortenElement precision e = .ok e)
    : shortenElement precision e' = .ok e' := by
  obtain ⟨done', hdone', halike⟩ :=
    shortenNodes_of_same hs .nil (shortenElement_eq_ok.mp h)
  have hdone := eq_of_reduces_of_same (alike_of_shortenNodes hdone')
    (same_of_common hs halike)
  exact shortenElement_eq_ok.mpr (hdone ▸ hdone')

/-- A step that changes nothing in a document changes nothing in one that is the same. -/
theorem Trims.eq_self_of_same {f : Document → Document} {d d' : Document} (htrims : Trims d' (f d'))
    (hf : Alike Head.Same (f d).root.forest (f d').root.forest) (hd : f d = d)
    (hs : Alike Head.Same d.root.forest d'.root.forest)
    : f d' = d' :=
  htrims.eq_of_same (same_of_common hs (hd ▸ hf))

/-- A document to which a pass does no more than to give other labels that are there. -/
structure Settled (precision : Int) (d : Document) : Prop where
  editorContent : removeEditorContent d = d
  version : dropVersion d = d
  ids : removeUnusedIds d = d
  attributes : shortenElement precision d.root = .ok d.root
  labels : (Node.allHeads (relabel d).root.forest).map (·.bindings)
    = (Node.allHeads d.root.forest).map (·.bindings)
  groups : collapseGroups (relabel d) = relabel d
  declarations : undeclare (relabel d) = relabel d

/-- A document whose text a pass leaves as it was is settled. -/
theorem settled_of_pass {made : List Binding} {precision : Int} {d d' : Document}
    (hd : d.Sound made) (h : pass precision d = .ok d') (heq : d'.root.write = d.root.write)
    : Settled precision d ∧ d' = relabel d := by
  obtain ⟨root, hshort, rfl⟩ := pass_eq_ok.mp h
  have htrims₁ := trims_removeEditorContent d
  have htrims₂ := trims_dropVersion (removeEditorContent d)
  have htrims₃ := trims_removeUnusedIds (dropVersion (removeEditorContent d))
  obtain ⟨made₁, -, hd₁, -⟩ := steps_removeEditorContent hd
  obtain ⟨made₂, -, hd₂, -⟩ := steps_dropVersion hd₁
  obtain ⟨made₃, -, hd₃, -⟩ := steps_removeUnusedIds hd₂
  generalize h₁ : removeEditorContent d = d₁ at *
  generalize h₂ : dropVersion d₁ = d₂ at *
  generalize h₃ : removeUnusedIds d₂ = d₃ at *
  have hreduces₃ := alike_of_shortenNodes (shortenElement_eq_ok.mp hshort)
  obtain ⟨made₄, -, hd₄, -⟩ := steps_of_reduces hd₃.ledger hd₃.tree hreduces₃
  obtain ⟨_, _, _, _, hrelabels⟩ := relabelNodes_spec .nil hd₄.ledger hd₄.tree
  rw [relabel_eq] at hrelabels
  obtain ⟨made₅, -, hd₅, -⟩ := steps_relabel hd₄
  generalize h₅ : relabel ⟨root, d₃.supply⟩ = d₅ at *
  obtain ⟨hle₆, hgroups⟩ := collapseGroups_spec hd₅
  obtain ⟨made₆, -, hd₆, -⟩ := steps_collapseGroups hd₅
  obtain ⟨made', -, hd', -⟩ := steps_undeclare hd₆
  have hundeclares : Alike Undeclares _ (undeclare (collapseGroups d₅)).root.forest :=
    alike_dropUnused (collapseGroups d₅).root
  -- texts that agree have the same weight, so that no step has taken anything out
  have hle₁ := htrims₁.weight_le
  have hle₂ := htrims₂.weight_le
  have hle₃ := htrims₃.weight_le
  have heq₄ := hreduces₃.weight_eq
  have heq₅ := hrelabels.weight_eq
  have heq' := hundeclares.weight_eq
  have hwhole := weight_eq_of_write_eq hd'.ledger hd.ledger hd'.tree hd.tree heq
  dsimp only at heq₅
  obtain ⟨hshrinks₁, hsupply₁⟩ := htrims₁.alike_of_weight_eq (by omega)
  obtain ⟨hshrinks₂, hsupply₂⟩ := htrims₂.alike_of_weight_eq (by omega)
  obtain ⟨hshrinks₃, hsupply₃⟩ := htrims₃.alike_of_weight_eq (by omega)
  have hgroups := hgroups (by omega)
  rw [hgroups] at hd' hundeclares heq ⊢
  -- heads that print alike have not been reduced
  have hreduces₂ := reduces_trans (hshrinks₃.imp fun _ _ => Shrinks.reduces) hreduces₃
  have hreduces₁ := reduces_trans (hshrinks₂.imp fun _ _ => Shrinks.reduces) hreduces₂
  have hreduces := reduces_trans (hshrinks₁.imp fun _ _ => Shrinks.reduces) hreduces₁
  have hany : Alike (fun _ _ => True) d.root.forest (undeclare d₅).root.forest :=
    ((hreduces.trans hrelabels).trans hundeclares).imp fun _ _ _ => trivial
  have hwrite : Node.writeAll d.root.forest ++ []
      = Node.writeAll (undeclare d₅).root.forest ++ [] := by
    rw [← Element.write_eq, ← Element.write_eq, heq]
  obtain ⟨htexts, -⟩ :=
    hany.text_eq_of_write_eq hd.ledger hd'.ledger hd.tree hd'.tree hwrite
  obtain ⟨hheads, hlabels, hheads'⟩ := settled_heads hd.ledger hd₅.ledger hd.tree.heads
    hd₅.tree.heads hreduces.heads hrelabels.heads hundeclares.heads
    (htexts.heads.imp fun _ _ h => h.2)
  obtain rfl : root = d.root := Element.forest_injective (hreduces.eq_of_heads_eq hheads)
  -- and what no step has changed is what there was
  obtain rfl : d₁ = d :=
    Document.eq_of_forest (eq_of_shrinks_of_reduces hshrinks₁ hreduces₁) hsupply₁
  obtain rfl : d₂ = d₁ :=
    Document.eq_of_forest (eq_of_shrinks_of_reduces hshrinks₂ hreduces₂) hsupply₂
  obtain rfl : d₃ = d₂ :=
    Document.eq_of_forest (eq_of_shrinks_of_reduces hshrinks₃ hreduces₃) hsupply₃
  obtain rfl : d₅ = relabel d₃ := h₅.symm
  have hundeclared : undeclare (relabel d₃) = relabel d₃ :=
    Document.eq_of_forest (hundeclares.eq_of_heads_eq hheads') rfl
  exact ⟨⟨h₁, h₂, h₃, hshort, hlabels, hgroups, hundeclared⟩, hundeclared⟩

/-- No pass changes what a pass makes of a settled document. -/
theorem Settled.pass_relabel {made : List Binding} {precision : Int} {d : Document}
    (h : Settled precision d) (hd : d.Sound made)
    : pass precision (relabel d) = .ok (relabel d) := by
  obtain ⟨hsupply, hagain⟩ := relabel_again h.labels
  have hsame : Alike Head.Same d.root.forest (relabel d).root.forest := by
    obtain ⟨_, _, _, _, hrelabels⟩ := relabelNodes_spec .nil hd.ledger hd.tree
    rw [relabel_eq] at hrelabels
    exact hrelabels.imp fun _ _ hr => ⟨hr.name ▸ .refl _, hr.attributes⟩
  have heditor := (trims_removeEditorContent (relabel d)).eq_self_of_same
    (removeEditorContent_of_same hsame) h.editorContent hsame
  have hversion := (trims_dropVersion (relabel d)).eq_self_of_same
    (dropVersion_of_same hsame) h.version hsame
  have hids := (trims_removeUnusedIds (relabel d)).eq_self_of_same
    (removeUnusedIds_of_same hsame) h.ids hsame
  refine pass_eq_ok.mpr ⟨(relabel d).root, ?_, ?_⟩
  · rw [heditor, hversion, hids]
    exact shortenElement_of_same hsame h.attributes
  · rw [heditor, hversion, hids]
    change _ = undeclare (collapseGroups (relabel (relabel d)))
    rw [hagain, h.groups, h.declarations]

-----------------------------------------------------------------------------------------
-- Runs
-----------------------------------------------------------------------------------------

/-- Passes over a document, one after the other. -/
def passes (precision : Int) : Nat → Document → Except Failure Document
  | 0, d => .ok d
  | count + 1, d => do
    let next ← pass precision d
    passes precision count next

theorem passes_eq_self {precision : Int} {d : Document} (h : pass precision d = .ok d)
    (count : Nat)
    : passes precision count d = .ok d := by
  induction count with
  | zero => rfl
  | succ count ih =>
      rw [passes, h]
      exact ih

/-- The document in which passes end is what as many passes make of the first one. -/
theorem passes_of_runPasses {precision : Int} {done count : Nat} {d : Document} {text : Text}
    {f : Finish} (h : runPasses precision done count d text = .ok f)
    : ∃ n, f.passes = done + n ∧ passes precision n d = .ok f.document := by
  induction count generalizing done d text with
  | zero =>
      cases h
      exact ⟨0, rfl, rfl⟩
  | succ count ih =>
      rw [runPasses] at h
      cases hpass : pass precision d with
      | error e =>
          rw [hpass] at h
          cases h
      | ok next =>
          rw [hpass] at h
          change (if next.root.write = text then _ else _) = _ at h
          split at h
          · cases h
            exact ⟨1, rfl, by rw [passes, hpass]; rfl⟩
          · obtain ⟨n, hcount, hpasses⟩ := ih h
            exact ⟨n + 1, by omega, by rw [passes, hpass]; exact hpasses⟩

/-- Passes that end because the text stays the same end with a document that no pass changes,
by induction over their number.
-/
theorem pass_of_runPasses {made : List Binding} {precision : Int} {done count : Nat}
    {d : Document} {text : Text} {f : Finish} (hd : d.Sound made)
    (htext : d.root.write = text) (h : runPasses precision done count d text = .ok f)
    (hsettled : f.settled)
    : pass precision f.document = .ok f.document := by
  induction count generalizing made done d text with
  | zero =>
      cases h
      cases hsettled
  | succ count ih =>
      rw [runPasses] at h
      cases hpass : pass precision d with
      | error e =>
          rw [hpass] at h
          cases h
      | ok next =>
          rw [hpass] at h
          change (if next.root.write = text then _ else _) = _ at h
          split at h
          · next heq =>
              cases h
              obtain ⟨hd', rfl⟩ := settled_of_pass hd hpass (heq.trans htext.symm)
              exact hd'.pass_relabel hd
          · obtain ⟨more, -, hnext, -⟩ := steps_of_pass hd hpass
            exact ih hnext rfl h

/-- Minification in several passes that ends because the text stays the same ends at a fixed
point: any number of further passes leaves the document, and with it the text that is told, as
they are.
-/
theorem passes_of_settled {precision : Int} {s : Text} {f : Finish}
    (h : finish true precision s = .ok f) (hsettled : f.settled) (count : Nat)
    : run true precision s = .ok ⟨f.document.root.write, f.passes⟩
      ∧ passes precision count f.document = .ok f.document := by
  have hrun : run true precision s = .ok f.outcome := by rw [run, h]; rfl
  unfold finish at h
  cases hread : readDocument s with
  | error e =>
      rw [hread] at h
      cases h
  | ok d =>
      rw [hread] at h
      obtain ⟨made, hd⟩ := sound_of_ofText? (readDocument_eq_ok.mp hread).2.1
      obtain ⟨-, hwrite⟩ := steps_of_runPasses hd rfl h
      refine ⟨by rw [hrun, Finish.outcome, hwrite], ?_⟩
      exact passes_eq_self (pass_of_runPasses hd rfl h hsettled) count

theorem passes_of_settled_labels
    : ∃ f, finish true 2 "<svg xmlns:p=\"U\" xmlns:q=\"U\"><g/><a q:x=\"1.00\"/></svg>" = .ok f
      ∧ f.settled ∧ f.text = ("<svg xmlns:p=\"U\"><a p:x=\"1\"/></svg>" : Text)
      ∧ passes 2 3 f.document = .ok f.document := by
  have hfinish : (finish true 2
      "<svg xmlns:p=\"U\" xmlns:q=\"U\"><g/><a q:x=\"1.00\"/></svg>").toOption.map
        (fun f => (f.settled, f.text))
      = some (true, ("<svg xmlns:p=\"U\"><a p:x=\"1\"/></svg>" : Text)) := by
    decide +kernel
  cases hf : finish true 2 "<svg xmlns:p=\"U\" xmlns:q=\"U\"><g/><a q:x=\"1.00\"/></svg>" with
  | error e =>
      rw [hf] at hfinish
      cases hfinish
  | ok f =>
      rw [hf] at hfinish
      obtain ⟨hsettled, htext⟩ := Prod.mk.inj (Option.some.inj hfinish)
      exact ⟨f, rfl, hsettled, htext, (passes_of_settled hf hsettled 3).2⟩

end SvgKit.Minify
