import SvgKit.Proofs.Minify.FixedPoint
import SvgKit.Proofs.Minify.Readable

/-! What becomes of the visible characters of a document. Minification removes those in the
elements that it removes, and those directly behind one; all others stay, in their order.
-/

namespace SvgKit.Minify

open Xml

-----------------------------------------------------------------------------------------
-- Visible text
-----------------------------------------------------------------------------------------

/-- The visible characters of a text. -/
def visible (s : Text) : Text := s.filter fun c => !Text.isBlank c

mutual

/-- The visible characters of the text in a node. -/
def nodeText : Node → Text
  | .element _ content => visibleText content
  | .text s => visible s
  | .entity _ => []

/-- The visible characters of the text in nodes, in document order. -/
def visibleText : List Node → Text
  | [] => []
  | node :: nodes => nodeText node ++ visibleText nodes

end

@[simp]
theorem visibleText_nil : visibleText [] = [] := by
  rw [visibleText]

@[simp]
theorem visibleText_element (h : Head) (content nodes : List Node)
    : visibleText (.element h content :: nodes) = visibleText content ++ visibleText nodes := by
  rw [visibleText, nodeText]

@[simp]
theorem visibleText_text (s : Text) (nodes : List Node)
    : visibleText (.text s :: nodes) = visible s ++ visibleText nodes := by
  rw [visibleText, nodeText]

@[simp]
theorem visibleText_entity (name : Text) (nodes : List Node)
    : visibleText (.entity name :: nodes) = visibleText nodes := by
  rw [visibleText, nodeText, List.nil_append]

@[simp]
theorem visibleText_append (nodes more : List Node)
    : visibleText (nodes ++ more) = visibleText nodes ++ visibleText more := by
  induction nodes with
  | nil => simp
  | cons node nodes ih => rw [List.cons_append, visibleText, visibleText, ih, List.append_assoc]

theorem visibleText_of_alike {R : Head → Head → Prop} {nodes nodes' : List Node}
    (h : Alike R nodes nodes')
    : visibleText nodes' = visibleText nodes := by
  induction h with
  | nil => rfl
  | element _ _ _ inside behind => rw [visibleText_element, visibleText_element, inside, behind]
  | text s _ ih => rw [visibleText_text, visibleText_text, ih]
  | entity name _ ih => rw [visibleText_entity, visibleText_entity, ih]

@[simp]
theorem visibleText_forest (e : Element) : visibleText e.forest = visibleText e.content := by
  simp [Element.forest]

theorem visible_eq_nil {s : Text} (h : Text.allBlank s) : visible s = [] := by
  rw [visible, List.filter_eq_nil_iff]
  intro c hc
  simpa using List.all_eq_true.mp h c hc

-----------------------------------------------------------------------------------------
-- Traces
-----------------------------------------------------------------------------------------

/-- What becomes of a character. -/
inductive Fate where
  /-- It stays. -/
  | kept
  /-- It goes with a node that it stands in. -/
  | inside
  /-- It goes with a node that it stands directly behind. -/
  | behind
  deriving DecidableEq

/-- Characters, each with what becomes of it. -/
abbrev Trace := List (Char × Fate)

namespace Trace

/-- A text whose characters share their fate. -/
def all (fate : Fate) (s : Text) : Trace := s.map fun c => (c, fate)

/-- All characters of a trace. -/
def text (t : Trace) : Text := t.map Prod.fst

/-- The characters whose fate satisfies a condition. -/
def only (p : Fate → Bool) (t : Trace) : Text := text (t.filter fun x => p x.2)

/-- The characters that stay. -/
def kept (t : Trace) : Text := t.only fun fate => fate = .kept

/-- The characters that do not stand in a removed node. -/
def outside (t : Trace) : Text := t.only fun fate => fate ≠ .inside

/-- A trace with the later fates of the characters that it keeps. -/
def refine : Trace → Trace → Trace
  | (c, .kept) :: t, (_, fate) :: later => (c, fate) :: refine t later
  | x :: t, later => x :: refine t later
  | [], _ => []

/-- A trace leads from a text to what is left of it. -/
structure Leads (t : Trace) (before after : Text) : Prop where
  text : t.text = before
  kept : t.kept = after

@[simp]
theorem text_cons (x : Char × Fate) (t : Trace) : text (x :: t) = x.1 :: text t := rfl

@[simp]
theorem kept_cons (c : Char) (fate : Fate) (t : Trace)
    : kept ((c, fate) :: t) = if fate = .kept then c :: kept t else kept t := by
  rw [kept, only, List.filter_cons]
  split <;> simp_all [kept, only]

theorem leads_all_kept (s : Text) : Leads (all .kept s) s s := by
  induction s with
  | nil => exact ⟨rfl, rfl⟩
  | cons c s ih => exact ⟨congrArg (c :: ·) ih.text, congrArg (c :: ·) ih.kept⟩

theorem leads_all_lost {fate : Fate} (h : fate ≠ .kept) (s : Text) : Leads (all fate s) s [] := by
  induction s with
  | nil => exact ⟨rfl, rfl⟩
  | cons c s ih => exact ⟨congrArg (c :: ·) ih.text, by simpa [all, h] using ih.kept⟩

theorem Leads.append {t t' : Trace} {before before' after after' : Text}
    (h : Leads t before after) (h' : Leads t' before' after')
    : Leads (t ++ t') (before ++ before') (after ++ after') := by
  obtain ⟨rfl, rfl⟩ := h
  obtain ⟨rfl, rfl⟩ := h'
  constructor <;> simp [Trace.text, Trace.kept, only]

/-- Traces compose, by induction over the first one. -/
theorem Leads.refine {t later : Trace} {before between after : Text}
    (h : Leads t before between) (h' : Leads later between after)
    : Leads (t.refine later) before after := by
  obtain ⟨rfl, hkept⟩ := h
  obtain ⟨hlater, rfl⟩ := h'
  have heq : later.text = t.kept := hlater.trans hkept.symm
  clear hlater hkept
  induction t generalizing later with
  | nil =>
      obtain rfl : later = [] := List.map_eq_nil_iff.mp heq
      exact ⟨rfl, rfl⟩
  | cons x t ih =>
      obtain ⟨c, fate⟩ := x
      rw [kept_cons] at heq
      split at heq
      · next hfate =>
          subst hfate
          cases later with
          | nil => cases heq
          | cons y later =>
              obtain ⟨d, fate⟩ := y
              obtain ⟨rfl, hrest⟩ := List.cons.inj heq
              have hboth := ih hrest
              exact ⟨congrArg (d :: ·) hboth.text, by simp [Trace.refine, hboth.kept]⟩
      · next hfate =>
          have hboth := ih heq
          have hrefine : Trace.refine ((c, fate) :: t) later = (c, fate) :: Trace.refine t later := by
            cases fate with
            | kept => exact absurd rfl hfate
            | inside => rfl
            | behind => rfl
          rw [hrefine]
          exact ⟨congrArg (c :: ·) hboth.text, by simp [hfate, hboth.kept]⟩

/-- All that stands outside removed nodes stays exactly if nothing goes with a node that it
stands behind.
-/
theorem sublist_kept_iff (t : Trace)
    : t.outside.Sublist t.kept ↔ ∀ x ∈ t, x.2 ≠ .behind := by
  have hkept : t.kept = text ((t.filter fun x => x.2 ≠ .inside).filter fun x => x.2 = .kept) := by
    rw [List.filter_filter, kept, only]
    congr 2
    funext x
    cases x.2 <;> rfl
  have hall : (∀ x ∈ t.filter fun x => x.2 ≠ .inside, decide (x.2 = .kept))
      ↔ ∀ x ∈ t, x.2 ≠ .behind := by
    simp only [List.mem_filter, decide_eq_true_eq, and_imp]
    refine forall₂_congr fun x _ => ?_
    cases x.2 <;> simp
  rw [hkept, ← hall, outside, only]
  refine ⟨fun hsub => List.filter_eq_self.mp (List.filter_sublist.eq_of_length_le ?_),
    fun h => ?_⟩
  · simpa [text] using hsub.length_le
  · rw [List.filter_eq_self.mpr h]

end Trace

-----------------------------------------------------------------------------------------
-- Removed nodes
-----------------------------------------------------------------------------------------

mutual

/-- What becomes of the visible characters in a node that stays. -/
def nodeTrace (removed : Head → Node → Bool) : Node → Trace
  | .element h content => removalTrace removed h false content
  | _ => []

/-- What becomes of the visible characters of nodes when those nodes go that satisfy a condition
on the parent and themselves, each with the text directly behind it; whether one has just gone
is given.
-/
def removalTrace (removed : Head → Node → Bool) (parent : Head) (gone : Bool)
    : List Node → Trace
  | [] => []
  | .text s :: nodes =>
    .all (if gone then .behind else .kept) (visible s) ++ removalTrace removed parent gone nodes
  | node :: nodes =>
    if removed parent node then
      .all .inside (nodeText node) ++ removalTrace removed parent true nodes
    else nodeTrace removed node ++ removalTrace removed parent false nodes

end

@[simp]
theorem removalTrace_nil (removed : Head → Node → Bool) (parent : Head) (gone : Bool)
    : removalTrace removed parent gone [] = [] := by
  rw [removalTrace]

theorem removalTrace_element (removed : Head → Node → Bool) (parent : Head) (gone : Bool)
    (h : Head) (content nodes : List Node)
    : removalTrace removed parent gone (.element h content :: nodes)
      = if removed parent (.element h content) then
          .all .inside (visibleText content) ++ removalTrace removed parent true nodes
        else removalTrace removed h false content ++ removalTrace removed parent false nodes := by
  rw [removalTrace, nodeTrace, nodeText]
  simp

theorem removalTrace_text (removed : Head → Node → Bool) (parent : Head) (gone : Bool)
    (s : Text) (nodes : List Node)
    : removalTrace removed parent gone (.text s :: nodes)
      = .all (if gone then .behind else .kept) (visible s)
        ++ removalTrace removed parent gone nodes := by
  rw [removalTrace]

theorem removalTrace_entity (removed : Head → Node → Bool) (parent : Head) (gone : Bool)
    (name : Text) (nodes : List Node)
    : removalTrace removed parent gone (.entity name :: nodes)
      = removalTrace removed parent (removed parent (.entity name)) nodes := by
  rw [removalTrace, nodeTrace, nodeText, Trace.all, List.map_nil, List.nil_append,
    List.nil_append]
  · split <;> simp_all
  · simp
  · simp

/-- The node is an element for drawing programs. -/
def isEditorNode (_ : Head) : Node → Bool
  | .element h _ => isEditorElement h
  | _ => false

/-- The node is a definition without a used identifier. -/
def isUnusedDef (used : List Text) (parent : Head) (node : Node) : Bool :=
  isDefs parent && !holdsUsedId used node

/-- What becomes of text when content for drawing programs goes, by induction over the forest. -/
theorem leads_pruneNodes (parent : Head) (gone : Bool) (nodes : List Node)
    : (removalTrace isEditorNode parent gone nodes).Leads (visibleText nodes)
      (visibleText (pruneNodes (fun _ h => isEditorElement h) parent gone nodes)) := by
  induction nodes using Node.forest_induction generalizing parent gone with
  | nil =>
      rw [removalTrace_nil, pruneNodes, visibleText_nil]
      exact ⟨rfl, rfl⟩
  | element h content nodes inside behind =>
      rw [removalTrace_element, pruneNodes_element, visibleText_element, isEditorNode]
      split
      · exact (Trace.leads_all_lost (by simp) _).append (behind parent true)
      · rw [visibleText_element]
        exact (inside h false).append (behind parent false)
  | text s nodes ih =>
      rw [removalTrace_text, pruneNodes, visibleText_text]
      cases gone with
      | true => exact (Trace.leads_all_lost (by simp) _).append (ih parent true)
      | false =>
          rw [if_neg Bool.false_ne_true, if_neg Bool.false_ne_true, visibleText_text]
          exact (Trace.leads_all_kept _).append (ih parent false)
  | entity name nodes ih =>
      rw [removalTrace_entity, pruneNodes, visibleText_entity, visibleText_entity]
      exact ih parent false

/-- What becomes of text when unused definitions go, by induction over the forest. -/
theorem leads_pruneAllDefs (used : List Text) (parent : Head) (gone : Bool) (nodes : List Node)
    : (removalTrace (isUnusedDef used) parent gone nodes).Leads (visibleText nodes)
      (visibleText (pruneAllDefs used (isDefs parent) gone nodes)) := by
  induction nodes using Node.forest_induction generalizing parent gone with
  | nil =>
      rw [removalTrace_nil, pruneAllDefs, visibleText_nil]
      exact ⟨rfl, rfl⟩
  | element h content nodes inside behind =>
      rw [removalTrace_element, pruneAllDefs_element, visibleText_element, isUnusedDef]
      split
      · exact (Trace.leads_all_lost (by simp) _).append (behind parent true)
      · rw [visibleText_element]
        exact (inside h false).append (behind parent false)
  | text s nodes ih =>
      rw [removalTrace_text, pruneAllDefs, visibleText_text]
      cases gone with
      | true => exact (Trace.leads_all_lost (by simp) _).append (ih parent true)
      | false =>
          rw [if_neg Bool.false_ne_true, if_neg Bool.false_ne_true, visibleText_text]
          exact (Trace.leads_all_kept _).append (ih parent false)
  | entity name nodes ih =>
      have hunused : isUnusedDef used parent (.entity name) = isDefs parent := by
        simp [isUnusedDef, holdsUsedId, Node.heads]
      rw [removalTrace_entity, pruneAllDefs_entity, visibleText_entity, hunused]
      cases hdefs : isDefs parent with
      | true =>
          have hleft := ih parent true
          rw [hdefs] at hleft
          exact hleft
      | false =>
          have hleft := ih parent false
          rw [hdefs] at hleft
          rw [if_neg Bool.false_ne_true, visibleText_entity]
          exact hleft

-----------------------------------------------------------------------------------------
-- Containers
-----------------------------------------------------------------------------------------

theorem visibleText_dropText {nodes : List Node} (h : beginsBlank nodes)
    : visibleText (dropText nodes) = visibleText nodes := by
  induction nodes with
  | nil => rfl
  | cons node nodes ih =>
      cases node with
      | element head content => rfl
      | text s =>
          rw [beginsBlank, leadingText, Text.allBlank, List.all_append, Bool.and_eq_true] at h
          rw [dropText, ih h.2, visibleText_text, visible_eq_nil h.1, List.nil_append]
      | entity name => rfl

/-- An empty container holds no visible text. -/
theorem visibleText_of_isEmptyContainer {h : Head} {content : List Node}
    (hempty : isEmptyContainer h content)
    : visibleText content = [] := by
  rw [isEmptyContainer, Bool.and_eq_true, Bool.and_eq_true] at hempty
  obtain ⟨⟨htexts, hblank⟩, -⟩ := hempty
  rw [← visibleText_dropText hblank, dropText_eq_nil htexts, visibleText_nil]

/-- Collapsing containers keeps the visible text, by induction over the forest. -/
theorem visibleText_collapseNodes {made : List Binding} {outer : List Head} {nodes : List Node}
    {supply : Supply} (hout : PathSound made outer) (hledger : Ledger supply.mark made)
    (hnodes : Node.AllSound made nodes)
    : visibleText (collapseNodes outer nodes supply).1 = visibleText nodes := by
  induction nodes using Node.forest_induction generalizing made outer supply with
  | nil =>
      rw [collapseNodes]
      rfl
  | element h content nodes inside behind =>
      obtain ⟨hhead, hcontent, hnodes⟩ := Node.AllSound.element_iff.mp hnodes
      obtain ⟨made₁, hsub₁, hledger₁, -⟩ := collapseNodes_spec hout hledger hnodes
      have hout₁ := PathSound.cons (hhead.mono hsub₁).mem_made (hout.mono hsub₁)
      have hcontent₁ := hcontent.mono hsub₁
      obtain ⟨made₂, hsub₂, hledger₂, hinner, -⟩ := collapseNodes_spec hout₁ hledger₁ hcontent₁
      have hinside := inside hout₁ hledger₁ hcontent₁
      have hbehind := behind hout hledger hnodes
      rw [collapseNodes_eq, visibleText_element, ← hinside, ← hbehind]
      generalize collapseNodes outer nodes supply = rest at *
      generalize collapseNodes (h :: outer) content rest.2 = inner at *
      split
      · rw [visibleText_element]
      · next hgoes =>
          have hblank : beginsBlank rest.1 := by
            by_contra hblank
            simp [hblank] at hgoes
          split
          · next hempty =>
              rw [visibleText_of_isEmptyContainer hempty, List.nil_append,
                visibleText_dropText hblank]
          · split
            · next hbare =>
                rw [isBareGroup, Bool.and_eq_true] at hbare
                obtain ⟨_, -, -, -, halike⟩ := adaptAll_spec ((hout.mono hsub₁).mono hsub₂)
                  hledger₂ (hinner.suffix (dropText_suffix _))
                rw [visibleText_append, visibleText_of_alike halike,
                  visibleText_dropText hbare.2, visibleText_dropText hblank]
            · rw [visibleText_element]
  | text s nodes ih =>
      rw [collapseNodes_text, visibleText_text, visibleText_text,
        ih hout hledger (Node.AllSound.text_iff.mp hnodes).2]
  | entity name nodes ih =>
      rw [collapseNodes_entity, visibleText_entity, visibleText_entity,
        ih hout hledger (Node.AllSound.entity_iff.mp hnodes).2]

-----------------------------------------------------------------------------------------
-- Passes
-----------------------------------------------------------------------------------------

/-- What becomes of the text of a document when unused definitions go. -/
def definitionsTrace (d : Document) : Trace :=
  if isIdSensitive d.root then .all .kept (visibleText d.root.content)
  else removalTrace (isUnusedDef (usedIds d.root)) d.root.head false d.root.content

/-- What becomes of the text of a document in a pass. -/
def passTrace (d : Document) : Trace :=
  (removalTrace isEditorNode d.root.head false d.root.content).refine
    (definitionsTrace (dropVersion (removeEditorContent d)))

/-- What becomes of the text of a document in passes. -/
def passesTrace (precision : Int) : Nat → Document → Trace
  | 0, d => .all .kept (visibleText d.root.content)
  | count + 1, d =>
    match pass precision d with
    | .ok next => (passTrace d).refine (passesTrace precision count next)
    | .error _ => passTrace d

theorem leads_removeEditorContent (d : Document)
    : (removalTrace isEditorNode d.root.head false d.root.content).Leads
      (visibleText d.root.content) (visibleText (removeEditorContent d).root.content) := by
  have hleads := leads_pruneNodes d.root.head false d.root.content
  have halike := Alike.mapAllHeads dropEditorAttributes
    (pruneNodes (fun _ h => isEditorElement h) d.root.head false d.root.content)
  rw [← visibleText_of_alike halike] at hleads
  exact hleads

theorem leads_removeUnusedIds (d : Document)
    : (definitionsTrace d).Leads (visibleText d.root.content)
      (visibleText (removeUnusedIds d).root.content) := by
  unfold definitionsTrace removeUnusedIds
  split
  · exact Trace.leads_all_kept _
  · have hleads := leads_pruneAllDefs (usedIds d.root) d.root.head false d.root.content
    have halike := Alike.mapAllHeads (dropUnusedId (usedIds d.root))
      (pruneAllDefs (usedIds d.root) (isDefs d.root.head) false d.root.content)
    rw [← visibleText_of_alike halike] at hleads
    exact hleads

/-- After the removals, a pass keeps the visible text. -/
theorem visibleText_of_pass {made : List Binding} {precision : Int} {d d' : Document}
    (hd : d.Sound made) (h : pass precision d = .ok d')
    : visibleText d'.root.content
      = visibleText (removeUnusedIds (dropVersion (removeEditorContent d))).root.content := by
  obtain ⟨root, labelled, more, hshort, hrelabels, hlabelled, hundeclares⟩ := stages_of_pass hd h
  obtain ⟨hroot, hcontent, -⟩ := Node.AllSound.element_iff.mp hlabelled.tree
  have hcollapsed : visibleText (collapseGroups labelled).root.content
      = visibleText labelled.root.content :=
    visibleText_collapseNodes (.cons hroot.mem_made .nil) hlabelled.ledger hcontent
  calc visibleText d'.root.content
      = visibleText (collapseGroups labelled).root.content := by
        rw [← visibleText_forest, ← visibleText_forest, visibleText_of_alike hundeclares]
    _ = visibleText labelled.root.content := hcollapsed
    _ = visibleText root.content := by
        rw [← visibleText_forest, ← visibleText_forest, visibleText_of_alike hrelabels]
    _ = visibleText (removeUnusedIds (dropVersion (removeEditorContent d))).root.content := by
        rw [← visibleText_forest, ← visibleText_forest, visibleText_of_alike hshort]

theorem leads_passTrace {made : List Binding} {precision : Int} {d d' : Document}
    (hd : d.Sound made) (h : pass precision d = .ok d')
    : (passTrace d).Leads (visibleText d.root.content) (visibleText d'.root.content) := by
  rw [visibleText_of_pass hd h]
  exact (leads_removeEditorContent d).refine (leads_removeUnusedIds _)

/-- What becomes of text in passes, by induction over their number. -/
theorem leads_passesTrace {made : List Binding} {precision : Int} {count : Nat}
    {d d' : Document} (hd : d.Sound made) (h : passes precision count d = .ok d')
    : (passesTrace precision count d).Leads (visibleText d.root.content)
      (visibleText d'.root.content) := by
  induction count generalizing made d with
  | zero =>
      cases h
      exact Trace.leads_all_kept _
  | succ count ih =>
      rw [passes] at h
      rw [passesTrace]
      cases hpass : pass precision d with
      | error e =>
          rw [hpass] at h
          cases h
      | ok next =>
          rw [hpass] at h
          obtain ⟨made', -, hnext, -⟩ := steps_of_pass hd hpass
          exact (leads_passTrace hd hpass).refine (ih hnext h)

-----------------------------------------------------------------------------------------
-- Runs
-----------------------------------------------------------------------------------------

/-- What a forest is read back as has the same visible text. -/
theorem visibleText_of_reread {tagOf : Head → Tag} {scope : List Binding}
    {nodes nodes' : List Node} (h : Reread tagOf scope nodes nodes')
    : visibleText nodes' = visibleText nodes := by
  induction h with
  | nil => rfl
  | element _ _ _ inside behind => rw [visibleText_element, visibleText_element, inside, behind]
  | text s _ ih => rw [visibleText_text, visibleText_text, ih]
  | space s hs _ ih =>
      have hblank : Text.allBlank s := by
        refine List.all_eq_true.mpr fun c hc => ?_
        have hspace := List.all_eq_true.mp hs c hc
        simp only [isSpace, Bool.or_eq_true, beq_iff_eq] at hspace
        rcases hspace with ((rfl | rfl) | rfl) | rfl <;> decide
      rw [visibleText_text, visible_eq_nil hblank, ih, List.nil_append]

/-- A document that is read from the text of another one has the same visible text. -/
theorem visibleText_of_readDocument_write {made : List Binding} {d d' : Document}
    (hd : d.Sound made) {literal : Bool} (htidy : Tidy literal maxDepth d.root.forest)
    (h : readDocument d.root.write = .ok d')
    : visibleText d'.root.content = visibleText d.root.content := by
  obtain ⟨c, s, hwrite, hc⟩ := exists_writeAllWith soundTags_tag hd.ledger hd.tree
  have hread := ofText?_writeAllWith soundTags_tag hd.ledger hd.tree htidy
  rw [Element.write_eq, ← Node.writeAllWith_tag hd.tree, hwrite] at h
  rw [hwrite, ((readDocument_tag hc).mp h).1] at hread
  rcases hread with ⟨hnone, -⟩ | ⟨d'', hsome, hreread⟩
  · cases hnone
  · obtain rfl := Option.some.inj hsome
    rw [← visibleText_forest, ← visibleText_forest, visibleText_of_reread hreread]

/-- The visible text of a minified document is what the passes over the document keep: what does
not stand in a removed element or a removed reference, and not directly behind one. So all that
stands outside of what is removed is still there exactly if none of it stands directly behind.
-/
theorem visibleText_of_finish {multipass : Bool} {precision : Int} {s : Text} {d : Document}
    {f : Finish} (hread : readDocument s = .ok d) (h : finish multipass precision s = .ok f)
    : let t := passesTrace precision f.passes d
      run multipass precision s = .ok ⟨f.text, f.passes⟩
      ∧ t.text = visibleText d.root.content
      ∧ visibleText f.document.root.content = t.kept
      ∧ (t.outside.Sublist (visibleText f.document.root.content) ↔ ∀ x ∈ t, x.2 ≠ .behind)
      ∧ ∀ d', readDocument f.text = .ok d' →
        visibleText d'.root.content = visibleText f.document.root.content := by
  intro t
  have hrun : run multipass precision s = .ok ⟨f.text, f.passes⟩ := by
    rw [run, h]
    rfl
  unfold finish at h
  rw [hread] at h
  obtain ⟨-, htext, -⟩ := readDocument_eq_ok.mp hread
  obtain ⟨made, hd⟩ := sound_of_ofText? htext
  obtain ⟨⟨more, -, hf, hchanges⟩, hwrite⟩ := steps_of_runPasses hd rfl h
  obtain ⟨n, hcount, hpasses⟩ := passes_of_runPasses h
  obtain rfl : f.passes = n := hcount.trans (Nat.zero_add n)
  obtain ⟨hbefore, hafter⟩ := leads_passesTrace hd hpasses
  refine ⟨hrun, hbefore, hafter.symm, ?_, fun d' hd' => ?_⟩
  · rw [← hafter]
    exact t.sublist_kept_iff
  · rw [← hwrite] at hd'
    have htidy : Tidy false maxDepth d.root.forest := tidy_of_ofText? (by simp) htext
    exact visibleText_of_readDocument_write hf (hchanges.tidy htidy).1 hd'

/-- Text in every kind of place: in front of, in and behind what is removed and what stays. -/
def sampleText : Text :=
  "<svg>a<metadata>b</metadata><g>c</g>d<defs>e<x>f</x><y id=\"i\">g</y></defs>"
    ++ "<g>\n<h style=\"fill:url(#i)\">h</h></g> <g> </g></svg>"

theorem visibleText_of_finish_sampleText
    : ∃ d f, readDocument sampleText = .ok d ∧ finish true 3 sampleText = .ok f
      ∧ f.text = ("<svg>a<g>c</g>d<defs>e<y id=\"i\">g</y></defs>"
        ++ "<h style=\"fill:url(#i)\">h</h></svg>" : Text)
      ∧ (passesTrace 3 f.passes d).text = ("abcdefgh" : Text)
      ∧ (passesTrace 3 f.passes d).outside = ("acdegh" : Text)
      ∧ (passesTrace 3 f.passes d).outside.Sublist (visibleText f.document.root.content) := by
  have hread : (readDocument sampleText).toOption.map (fun d => passesTrace 3 2 d)
      = some [('a', .kept), ('b', .inside), ('c', .kept), ('d', .kept), ('e', .kept),
        ('f', .inside), ('g', .kept), ('h', .kept)] := by
    decide +kernel
  have hfinish : (finish true 3 sampleText).toOption.map (fun f => (f.passes, f.text))
      = some (2, ("<svg>a<g>c</g>d<defs>e<y id=\"i\">g</y></defs>"
        ++ "<h style=\"fill:url(#i)\">h</h></svg>" : Text)) := by
    decide +kernel
  cases hd : readDocument sampleText with
  | error e =>
      rw [hd] at hread
      cases hread
  | ok d =>
      cases hf : finish true 3 sampleText with
      | error e =>
          rw [hf] at hfinish
          cases hfinish
      | ok f =>
          rw [hd, Except.toOption, Option.map_some, Option.some.injEq] at hread
          rw [hf] at hfinish
          obtain ⟨hpasses, htext⟩ := Prod.mk.inj (Option.some.inj hfinish)
          obtain ⟨-, -, -, hiff, -⟩ := visibleText_of_finish hd hf
          refine ⟨d, f, rfl, rfl, htext, ?_⟩
          rw [hpasses, hread] at hiff ⊢
          exact ⟨by decide +kernel, by decide +kernel, hiff.mpr (by decide +kernel)⟩

/-- Text directly behind a removed element goes with it. -/
theorem visibleText_of_finish_behind
    : ∃ d f, readDocument "<svg><metadata/>hello</svg>" = .ok d
      ∧ finish true 3 "<svg><metadata/>hello</svg>" = .ok f ∧ f.text = ("<svg/>" : Text)
      ∧ (passesTrace 3 f.passes d).outside = ("hello" : Text)
      ∧ ¬ (passesTrace 3 f.passes d).outside.Sublist (visibleText f.document.root.content) := by
  have hread : (readDocument "<svg><metadata/>hello</svg>").toOption.map
      (fun d => (passesTrace 3 2 d).outside) = some ("hello" : Text) := by
    decide +kernel
  have hfinish : (finish true 3 "<svg><metadata/>hello</svg>").toOption.map
        (fun f => (f.passes, f.text, visibleText f.document.root.content))
      = some (2, ("<svg/>" : Text), []) := by
    decide +kernel
  cases hd : readDocument "<svg><metadata/>hello</svg>" with
  | error e =>
      rw [hd] at hread
      cases hread
  | ok d =>
      cases hf : finish true 3 "<svg><metadata/>hello</svg>" with
      | error e =>
          rw [hf] at hfinish
          cases hfinish
      | ok f =>
          rw [hd] at hread
          rw [hf] at hfinish
          simp only [Except.toOption, Option.map_some, Option.some.injEq, Prod.mk.injEq]
            at hfinish hread
          obtain ⟨hpasses, htext, hvisible⟩ := hfinish
          refine ⟨d, f, rfl, rfl, htext, ?_⟩
          rw [hpasses, hread, hvisible]
          exact ⟨rfl, by decide +kernel⟩

end SvgKit.Minify
