import SvgKit.Proofs.Minify.Groups
import SvgKit.Proofs.Minify.Labels
import SvgKit.Proofs.Minify.Pruning
import SvgKit.Proofs.Xml.Reading

/-! A pass keeps a document sound. All that it does to a tree is to prune it, to change heads
and to collapse containers.
-/

namespace SvgKit.Minify

open Xml

-----------------------------------------------------------------------------------------
-- Changes of a tree
-----------------------------------------------------------------------------------------

/-- A head of the same base name. Its attributes have no spelling of their own if those that
it is made of have none.
-/
structure Derives (h h' : Head) : Prop where
  base : h'.name.base = h.name.base
  plain : (∀ a ∈ h.attributes, a.spelling = none) → ∀ a ∈ h'.attributes, a.spelling = none

/-- A step in which a tree is pruned, or its heads change, or its containers are collapsed. -/
inductive Change : Element → Element → Prop where
  | prune (h : Head) {content left : List Node} (pruned : Pruned false content left)
      : Change ⟨h, content⟩ ⟨h, left⟩
  | heads {e e' : Element} (alike : Alike Derives e.forest e'.forest) : Change e e'
  | collapse (h : Head) {content left : List Node} (collapsed : Collapsed content left)
      : Change ⟨h, content⟩ ⟨h, left⟩

/-- Steps in which a tree changes. -/
abbrev Changes : Element → Element → Prop := Relation.ReflTransGen Change

theorem Reduces.derives {h h' : Head} (hr : Reduces h h') : Derives h h' := by
  refine ⟨by rw [hr.name], fun hplain => ?_⟩
  obtain ⟨kept, hall, hsub⟩ := List.sublistForall₂_iff.mp hr.attributes
  have hkept : ∀ a ∈ kept, a.spelling = none := fun a ha => hplain a (hsub.subset ha)
  generalize h'.attributes = attributes at hall
  clear hsub
  induction hall with
  | nil => simp
  | cons hrewrites _ ih =>
      rw [List.forall_mem_cons] at hkept
      refine List.forall_mem_cons.mpr ⟨?_, ih hkept.2⟩
      rcases hrewrites with rfl | ⟨-, hnone⟩
      · exact hkept.1
      · exact hnone

theorem derives_of_same {h h' : Head} (hbase : h'.name.base = h.name.base)
    (hsame : List.Forall₂ Attribute.Same h.attributes h'.attributes)
    : Derives h h' := by
  refine ⟨hbase, fun hplain => ?_⟩
  generalize h.attributes = attributes at hsame hplain
  generalize h'.attributes = attributes' at hsame
  induction hsame with
  | nil => simp
  | cons hfirst _ ih =>
      rw [List.forall_mem_cons] at hplain
      exact List.forall_mem_cons.mpr ⟨hfirst.spelling.trans hplain.1, ih hplain.2⟩

theorem Relabels.derives {h h' : Head} (hr : Relabels h h') : Derives h h' :=
  derives_of_same (by rw [hr.name]) hr.attributes

/-- A change never adds weight. -/
theorem Change.weight_le {e e' : Element} (h : Change e e')
    : Node.weight e'.forest ≤ Node.weight e.forest := by
  cases h with
  | prune head pruned =>
      exact Pruned.weight_le (.element head pruned .nil : Pruned false _ _)
  | heads alike => exact Nat.le_of_eq alike.weight_eq
  | collapse head collapsed => exact (Collapsed.keep head collapsed .nil).weight_le

theorem Changes.weight_le {e e' : Element} (h : Changes e e')
    : Node.weight e'.forest ≤ Node.weight e.forest := by
  induction h with
  | refl => exact Nat.le_refl _
  | tail _ hchange ih => exact Nat.le_trans hchange.weight_le ih

-----------------------------------------------------------------------------------------
-- Pruning
-----------------------------------------------------------------------------------------

/-- A result of a step: a sound document with a changed tree, in a ledger that may be larger. -/
def Steps (made : List Binding) (d d' : Document) : Prop :=
  ∃ more, made ⊆ more ∧ d'.Sound more ∧ Changes d.root d'.root

theorem Steps.trans {made : List Binding} {d d' d'' : Document} (h : Steps made d d')
    (h' : ∀ more, d'.Sound more → Steps more d' d'')
    : Steps made d d'' := by
  obtain ⟨more, hsub, hsound, hchanges⟩ := h
  obtain ⟨most, hsub', hsound', hchanges'⟩ := h' more hsound
  exact ⟨most, List.Subset.trans hsub hsub', hsound', hchanges.trans hchanges'⟩

/-- Heads that are reduced stay sound. -/
theorem steps_of_reduces {made : List Binding} {root root' : Element} {supply : Supply}
    (hledger : Ledger supply.mark made) (hroot : Node.AllSound made root.forest)
    (halike : Alike Reduces root.forest root'.forest)
    : Steps made ⟨root, supply⟩ ⟨root', supply⟩ :=
  ⟨made, fun _ h => h, ⟨hledger, hroot.of_alike halike fun _ _ hs hr => hr.sound hs⟩,
    .single (.heads (halike.imp fun _ _ hr => hr.derives))⟩

theorem alike_mapHeads {R : Head → Head → Prop} {f : Head → Head} (e : Element)
    (hf : ∀ h ∈ e.heads, R h (f h))
    : Alike R e.forest (e.mapHeads f).forest := by
  refine .element (hf e.head List.mem_cons_self) ?_ .nil
  refine (Alike.mapAllHeads f e.content).imp_of_mem fun h h' hmem _ heq => ?_
  exact heq ▸ hf h (List.mem_cons_of_mem _ hmem)

theorem steps_removeEditorContent {made : List Binding} {d : Document} (hd : d.Sound made)
    : Steps made d (removeEditorContent d) := by
  obtain ⟨hroot, hcontent, -⟩ := Node.AllSound.element_iff.mp hd.tree
  have hpruned := pruned_pruneNodes (fun _ h => isEditorElement h) d.root.head false
    d.root.content
  obtain ⟨more, hsub, hledger⟩ := foldl_ledger
    (fun supply node => node.discard (fun _ h => isEditorElement h) supply)
    Node.discard_spec hd.ledger
    (hcontent.topmost (fun _ h => isEditorElement h) d.root.head)
  have hleft : Node.AllSound made (Element.forest
      ⟨d.root.head, pruneNodes (fun _ h => isEditorElement h) d.root.head false
        d.root.content⟩) :=
    Node.AllSound.element_iff.mpr ⟨hroot, hpruned.sound hcontent, .nil⟩
  obtain ⟨most, hsub', hsound, hchanges⟩ := steps_of_reduces hledger (hleft.mono hsub)
    (alike_mapHeads _ fun h _ => reduces_dropEditorAttributes h)
  exact ⟨most, List.Subset.trans hsub hsub', hsound, .head (.prune d.root.head hpruned) hchanges⟩

theorem steps_dropVersion {made : List Binding} {d : Document} (hd : d.Sound made)
    : Steps made d (dropVersion d) :=
  steps_of_reduces hd.ledger hd.tree
    (.element (reduces_erase _ _) (Alike.refl .refl d.root.content) .nil)

theorem allUnusedDefs_element (used : List Text) (inDefs : Bool) (h : Head)
    (content nodes : List Node)
    : allUnusedDefs used inDefs (.element h content :: nodes)
      = (if inDefs && !holdsUsedId used (.element h content) then [.element h content]
          else allUnusedDefs used (isDefs h) content)
        ++ allUnusedDefs used inDefs nodes := by
  rw [allUnusedDefs, unusedDefs]

theorem allUnusedDefs_entity (used : List Text) (inDefs : Bool) (name : Text)
    (nodes : List Node)
    : allUnusedDefs used inDefs (.entity name :: nodes)
      = (if inDefs then [.entity name] else []) ++ allUnusedDefs used inDefs nodes := by
  rw [allUnusedDefs, unusedDefs]
  · simp [holdsUsedId, Node.heads]
  · simp

theorem allUnusedDefs_text (used : List Text) (inDefs : Bool) (s : Text)
    (nodes : List Node)
    : allUnusedDefs used inDefs (.text s :: nodes)
      = (if inDefs then [.text s] else []) ++ allUnusedDefs used inDefs nodes := by
  rw [allUnusedDefs, unusedDefs]
  · simp [holdsUsedId, Node.heads]
  · simp

/-- Unused definitions in sound nodes are sound, by induction over the forest. -/
theorem sound_of_mem_allUnusedDefs {made : List Binding} {nodes : List Node}
    (h : Node.AllSound made nodes) (used : List Text) (inDefs : Bool)
    : ∀ node ∈ allUnusedDefs used inDefs nodes, Node.AllSound made [node] := by
  induction nodes using Node.forest_induction generalizing inDefs with
  | nil => simp [allUnusedDefs]
  | element head content nodes inside behind =>
      obtain ⟨hh, hcontent, hnodes⟩ := Node.AllSound.element_iff.mp h
      intro node hnode
      rw [allUnusedDefs_element] at hnode
      rcases List.mem_append.mp hnode with hnode | hnode
      · split at hnode
        · obtain rfl := List.mem_singleton.mp hnode
          exact Node.AllSound.element_iff.mpr ⟨hh, hcontent, .nil⟩
        · exact inside hcontent (isDefs head) node hnode
      · exact behind hnodes inDefs node hnode
  | text s nodes ih =>
      obtain ⟨hs, hnodes⟩ := Node.AllSound.text_iff.mp h
      intro node hnode
      rw [allUnusedDefs_text] at hnode
      rcases List.mem_append.mp hnode with hnode | hnode
      · split at hnode
        · obtain rfl := List.mem_singleton.mp hnode
          exact Node.AllSound.text_iff.mpr ⟨hs, .nil⟩
        · cases hnode
      · exact ih hnodes inDefs node hnode
  | entity name nodes ih =>
      obtain ⟨hs, hnodes⟩ := Node.AllSound.entity_iff.mp h
      intro node hnode
      rw [allUnusedDefs_entity] at hnode
      rcases List.mem_append.mp hnode with hnode | hnode
      · split at hnode
        · obtain rfl := List.mem_singleton.mp hnode
          exact Node.AllSound.entity_iff.mpr ⟨hs, .nil⟩
        · cases hnode
      · exact ih hnodes inDefs node hnode

theorem steps_removeUnusedIds {made : List Binding} {d : Document} (hd : d.Sound made)
    : Steps made d (removeUnusedIds d) := by
  unfold removeUnusedIds
  split
  · exact ⟨made, fun _ h => h, hd, .refl⟩
  · obtain ⟨hroot, hcontent, -⟩ := Node.AllSound.element_iff.mp hd.tree
    have hpruned := pruned_pruneAllDefs (usedIds d.root) (isDefs d.root.head) false
      d.root.content
    obtain ⟨more, hsub, hledger⟩ := foldl_ledger
      (fun supply node => node.discard (fun parent _ => isDefs parent) supply)
      Node.discard_spec hd.ledger
      (sound_of_mem_allUnusedDefs hcontent (usedIds d.root) (isDefs d.root.head))
    have hleft : Node.AllSound made (Element.forest
        ⟨d.root.head, pruneAllDefs (usedIds d.root) (isDefs d.root.head) false
          d.root.content⟩) :=
      Node.AllSound.element_iff.mpr ⟨hroot, hpruned.sound hcontent, .nil⟩
    have halike : Alike Reduces
        (pruneAllDefs (usedIds d.root) (isDefs d.root.head) false d.root.content)
        (Node.mapAllHeads (dropUnusedId (usedIds d.root))
          (pruneAllDefs (usedIds d.root) (isDefs d.root.head) false d.root.content)) :=
      (Alike.mapAllHeads _ _).imp fun h h' heq => heq ▸ reduces_dropUnusedId _ h
    have hroot' : Alike Reduces
        [.element d.root.head
          (pruneAllDefs (usedIds d.root) (isDefs d.root.head) false d.root.content)]
        (Element.forest ⟨d.root.head, Node.mapAllHeads (dropUnusedId (usedIds d.root))
          (pruneAllDefs (usedIds d.root) (isDefs d.root.head) false d.root.content)⟩) :=
      .element (.refl d.root.head) halike .nil
    obtain ⟨most, hsub', hsound, hchanges⟩ :=
      steps_of_reduces hledger (hleft.mono hsub) hroot'
    exact ⟨most, List.Subset.trans hsub hsub', hsound, .head (.prune d.root.head hpruned) hchanges⟩

-----------------------------------------------------------------------------------------
-- Attributes, containers and declarations
-----------------------------------------------------------------------------------------

/-- The document with new labels. -/
def relabel (d : Document) : Document :=
  let head := relabelHead [] d.root.head d.supply
  let content := relabelNodes [head.1] d.root.content head.2
  ⟨⟨head.1, content.1⟩, content.2⟩

theorem shortenAttributes_eq (precision : Int) (d : Document)
    : shortenAttributes precision d
      = (shortenElement precision d.root).map fun root => relabel ⟨root, d.supply⟩ :=
  rfl

/-- Relabelling treats the root as a forest of its own. -/
theorem relabel_eq (d : Document)
    : relabelNodes [] d.root.forest d.supply
      = ((relabel d).root.forest, (relabel d).supply) := by
  rw [Element.forest, relabelNodes_element]
  dsimp only
  rw [relabelNodes_nil]
  rfl

theorem steps_relabel {made : List Binding} {d : Document} (hd : d.Sound made)
    : Steps made d (relabel d) := by
  obtain ⟨more, hsub, hledger, hall, halike⟩ := relabelNodes_spec .nil hd.ledger hd.tree
  rw [relabel_eq] at hledger hall halike
  exact ⟨more, hsub, ⟨hledger, hall⟩,
    .single (.heads (halike.imp fun _ _ hr => hr.derives))⟩

theorem steps_collapseGroups {made : List Binding} {d : Document} (hd : d.Sound made)
    : Steps made d (collapseGroups d) := by
  obtain ⟨hroot, hcontent, -⟩ := Node.AllSound.element_iff.mp hd.tree
  obtain ⟨more, hsub, hledger, hall, hcollapsed, -⟩ := collapseNodes_spec
    (.cons hroot.mem_made .nil) hd.ledger hcontent
  exact ⟨more, hsub,
    ⟨hledger, Node.AllSound.element_iff.mpr ⟨hroot.mono hsub, hall, .nil⟩⟩,
    .single (.collapse d.root.head hcollapsed)⟩

/-- A head with some of the declarations only, those that its attributes use among them. -/
def Undeclares (h h' : Head) : Prop :=
  ∃ p : Binding → Bool, h' = { h with bindings := h.bindings.filter p }
    ∧ ∀ a ∈ h.attributes, ∀ b, a.name.binding = some b → p b

theorem Undeclares.sound {made : List Binding} {h h' : Head} (hu : Undeclares h h')
    (hs : h.Sound made)
    : h'.Sound made := by
  obtain ⟨p, rfl, -⟩ := hu
  exact { hs with
    bindings := fun b hb => hs.bindings b (List.mem_of_mem_filter hb)
    labels := (List.filter_sublist.map _).nodup hs.labels }

theorem Undeclares.derives {h h' : Head} (hu : Undeclares h h') : Derives h h' := by
  obtain ⟨p, rfl, -⟩ := hu
  exact ⟨rfl, id⟩

theorem alike_dropUnused (e : Element) : Alike Undeclares e.forest e.dropUnused.forest := by
  refine alike_mapHeads e fun h hh => ⟨_, rfl, fun a ha b hb => ?_⟩
  rw [List.contains_iff_mem]
  refine List.mem_flatMap.mpr ⟨h, hh, List.mem_map_of_mem ?_⟩
  exact List.mem_append_right _ (List.mem_filterMap.mpr ⟨a, ha, hb⟩)

/-- The document without unused declarations. -/
def undeclare (d : Document) : Document := { d with root := d.root.dropUnused }

theorem steps_undeclare {made : List Binding} {d : Document} (hd : d.Sound made)
    : Steps made d (undeclare d) :=
  ⟨made, fun _ h => h,
    ⟨hd.ledger, hd.tree.of_alike (alike_dropUnused d.root) fun _ _ hs hu => hu.sound hs⟩,
    .single (.heads ((alike_dropUnused d.root).imp fun _ _ hu => hu.derives))⟩

/-- What a pass gives once the attributes are shortened. -/
theorem pass_eq_ok {precision : Int} {d d' : Document}
    : pass precision d = .ok d'
      ↔ ∃ root, shortenElement precision
          (removeUnusedIds (dropVersion (removeEditorContent d))).root = .ok root
        ∧ d' = undeclare (collapseGroups (relabel
          ⟨root, (removeUnusedIds (dropVersion (removeEditorContent d))).supply⟩)) := by
  unfold pass
  generalize removeUnusedIds (dropVersion (removeEditorContent d)) = before
  rw [shortenAttributes_eq]
  cases shortenElement precision before.root with
  | error e => simp [Except.map]
  | ok root => simp [Except.map, undeclare, eq_comm]

/-- The stages of a pass after the removals: heads get their shortest form and other labels,
containers are collapsed, and unused declarations go.
-/
theorem stages_of_pass {made : List Binding} {precision : Int} {d d' : Document}
    (hd : d.Sound made) (h : pass precision d = .ok d')
    : ∃ (root : Element) (labelled : Document) (more : List Binding),
      Alike (fun h h' => ∃ outer, shortenHead precision outer h = .ok h')
        (removeUnusedIds (dropVersion (removeEditorContent d))).root.forest root.forest
      ∧ Alike Relabels root.forest labelled.root.forest ∧ labelled.Sound more
      ∧ Alike Undeclares (collapseGroups labelled).root.forest d'.root.forest := by
  obtain ⟨root, hshort, rfl⟩ := pass_eq_ok.mp h
  obtain ⟨made₁, -, hd₁, -⟩ := steps_removeEditorContent hd
  obtain ⟨made₂, -, hd₂, -⟩ := steps_dropVersion hd₁
  obtain ⟨made₃, -, hd₃, -⟩ := steps_removeUnusedIds hd₂
  generalize removeUnusedIds (dropVersion (removeEditorContent d)) = cleaned at *
  have hshorter := alike_shortenHead_of_shortenNodes (shortenElement_eq_ok.mp hshort)
  obtain ⟨made₄, -, hd₄, -⟩ := steps_of_reduces hd₃.ledger hd₃.tree
    (alike_of_shortenNodes (shortenElement_eq_ok.mp hshort))
  obtain ⟨_, -, -, -, hrelabels⟩ := relabelNodes_spec .nil hd₄.ledger hd₄.tree
  rw [relabel_eq] at hrelabels
  obtain ⟨made₅, -, hd₅, -⟩ := steps_relabel hd₄
  exact ⟨root, relabel ⟨root, cleaned.supply⟩, made₅, hshorter, hrelabels, hd₅,
    alike_dropUnused _⟩

/-- A pass keeps a document sound, and changes its tree in steps. -/
theorem steps_of_pass {made : List Binding} {precision : Int} {d d' : Document}
    (hd : d.Sound made) (h : pass precision d = .ok d')
    : Steps made d d' := by
  have hbefore : Steps made d (removeUnusedIds (dropVersion (removeEditorContent d))) :=
    ((steps_removeEditorContent hd).trans fun _ => steps_dropVersion).trans
      fun _ => steps_removeUnusedIds
  obtain ⟨root, hshort, rfl⟩ := pass_eq_ok.mp h
  generalize removeUnusedIds (dropVersion (removeEditorContent d)) = before at hshort hbefore ⊢
  have halike := alike_of_shortenNodes (shortenElement_eq_ok.mp hshort)
  exact (((hbefore.trans fun more hmore =>
    steps_of_reduces hmore.ledger hmore.tree halike).trans
    fun _ => steps_relabel).trans fun _ => steps_collapseGroups).trans
    fun _ => steps_undeclare

-----------------------------------------------------------------------------------------
-- Runs
-----------------------------------------------------------------------------------------

/-- What holds where passes over a document end, by induction over their number. -/
theorem steps_of_runPasses {made : List Binding} {precision : Int} {done count : Nat}
    {d : Document} {text : Text} {f : Finish} (hd : d.Sound made)
    (htext : d.root.write = text) (h : runPasses precision done count d text = .ok f)
    : Steps made d f.document ∧ f.document.root.write = f.text := by
  induction count generalizing made done d text with
  | zero =>
      cases h
      exact ⟨⟨made, fun _ h => h, hd, .refl⟩, htext⟩
  | succ count ih =>
      rw [runPasses] at h
      cases hpass : pass precision d with
      | error e =>
          rw [hpass] at h
          cases h
      | ok next =>
          have hsteps := steps_of_pass hd hpass
          rw [hpass] at h
          change (if next.root.write = text then _ else _) = _ at h
          split at h
          · next heq =>
              cases h
              exact ⟨hsteps, heq⟩
          · obtain ⟨more, hsub, hnext, hchanges⟩ := hsteps
            obtain ⟨⟨most, hsub', hf, hchanges'⟩, hwrite⟩ := ih hnext rfl h
            exact ⟨⟨most, List.Subset.trans hsub hsub', hf, hchanges.trans hchanges'⟩, hwrite⟩

theorem readDocument_eq_ok {s : Text} {d : Document}
    : readDocument s = .ok d
      ↔ declaresEncoding (dropDeclaration s) = false
        ∧ Document.ofText? (dropDeclaration s) = some d
        ∧ d.root.head.name.base = ("svg" : Text) := by
  unfold readDocument
  dsimp only
  cases declaresEncoding (dropDeclaration s) with
  | true => simp
  | false =>
      cases Document.ofText? (dropDeclaration s) with
      | none => simp
      | some document =>
          by_cases hroot : document.root.head.name.base = ("svg" : Text)
          · simpa [hroot] using fun h : document = d => h ▸ hroot
          · simpa [hroot] using fun h : document = d => h ▸ hroot

/-- Minification reads a sound document, and its passes change that in steps to the one that is
written.
-/
theorem exists_steps_of_finish {multipass : Bool} {precision : Int} {s : Text} {f : Finish}
    (h : finish multipass precision s = .ok f)
    : ∃ d made, readDocument s = .ok d ∧ d.Sound made
      ∧ runPasses precision 0 (if multipass then maxPasses else 1) d d.root.write = .ok f
      ∧ Steps made d f.document ∧ f.document.root.write = f.text := by
  unfold finish at h
  cases hread : readDocument s with
  | error e =>
      rw [hread] at h
      cases h
  | ok d =>
      rw [hread] at h
      obtain ⟨made, hd⟩ := sound_of_ofText? (readDocument_eq_ok.mp hread).2.1
      obtain ⟨hsteps, hwrite⟩ := steps_of_runPasses hd rfl h
      exact ⟨d, made, rfl, hd, h, hsteps, hwrite⟩

end SvgKit.Minify
