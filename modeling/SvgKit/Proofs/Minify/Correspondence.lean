import SvgKit.Proofs.Minify.Agreement
import SvgKit.Proofs.Minify.Marks
import SvgKit.Proofs.Minify.Readable
import SvgKit.Proofs.Minify.Stability
import SvgKit.Proofs.Xml.Correspondence

/-! The normal form of a tree carries over to trees that are the same, and its labels to trees whose
declarations correspond.
-/

namespace SvgKit.Minify

open Xml

-----------------------------------------------------------------------------------------
-- Labels
-----------------------------------------------------------------------------------------

section Labels

variable {C : Binding → Binding → Prop} (hC : IsCorrespondence C) {e e' : Element}
  (h : Alike (Head.Corresponds C) e.forest e'.forest)
include hC h

/-- A declaration that a name of a tree uses corresponds to one that a name of the other uses. -/
theorem mem_marks_of_corresponds {b b' : Binding} (hb : C b b')
    (hused : b.mark ∈ e.heads.flatMap Head.marks)
    : b'.mark ∈ e'.heads.flatMap Head.marks := by
  obtain ⟨head, hhead, hmark⟩ := List.mem_flatMap.mp hused
  rw [Element.heads_eq] at hhead
  obtain ⟨head', hhead', hcorresponds⟩ := exists_mem_right_of_forall₂ h.heads hhead
  refine List.mem_flatMap.mpr ⟨head', Element.heads_eq e' ▸ hhead', ?_⟩
  have hnames : List.Forall₂ C
      (head.name.binding.toList ++ head.attributes.filterMap (·.name.binding))
      (head'.name.binding.toList ++ head'.attributes.filterMap (·.name.binding)) := by
    apply List.rel_append (toList_rel hcorresponds.name)
    apply List.rel_filterMap _ hcorresponds.attributes
    intro a a' ha
    exact ha.1
  obtain ⟨c, hc, hmarks⟩ := List.mem_map.mp hmark
  obtain ⟨c', hc', hcc'⟩ := exists_mem_right_of_forall₂ hnames hc
  exact List.mem_map.mpr ⟨c', hc', (hC.mark hcc' hb).mp hmarks⟩

/-- The first labels of a tree correspond to the first labels of the other. -/
theorem HasFirstLabels.of_corresponds (hlabels : HasFirstLabels e) : HasFirstLabels e' where
  first := by
    intro p' hp' a' ha' b' hb' hnumeric
    obtain ⟨p, hp, halike⟩ := exists_mem_left_of_forall₂ (places_of_alike h .nil) hp'
    obtain ⟨a, ha, hbinding, hbase⟩ := exists_mem_left_of_forall₂ halike.head.attributes ha'
    rw [hb'] at hbinding
    obtain ⟨b, hb, hbb'⟩ : ∃ b, a.name.binding = some b ∧ C b b' := by
      generalize a.name.binding = binding at hbinding
      cases hbinding with
      | some hbb' => exact ⟨_, rfl, hbb'⟩
    rw [hbase (by rw [hb]; exact Option.some_ne_none b)] at hnumeric
    have husable := usableBinding?_rel hC (.cons halike.head halike.outer) true b.uri
    rw [hlabels.first p hp a ha b hb hnumeric] at husable
    rw [(hC.same hbb').uri]
    generalize usableBinding? (p'.head :: p'.outer) true b.uri = found at husable
    cases husable with
    | some hfound => rw [hC.unique hfound hbb']
  used := by
    intro head' hhead' b' hb'
    rw [Element.heads_eq] at hhead'
    obtain ⟨head, hhead, hcorresponds⟩ := exists_mem_left_of_forall₂ h.heads hhead'
    obtain ⟨b, hb, hbb'⟩ := exists_mem_left_of_forall₂ hcorresponds.bindings hb'
    apply mem_marks_of_corresponds hC h hbb'
    exact hlabels.used head (Element.heads_eq e ▸ hhead) b hb

end Labels

-----------------------------------------------------------------------------------------
-- Minified texts
-----------------------------------------------------------------------------------------

theorem plain_of_same {h h' : Head} (hs : h.Same h') (hplain : h.Plain) : h'.Plain := by
  intro a' ha'
  obtain ⟨a, ha, hsame⟩ := exists_mem_left_of_forall₂ hs.attributes ha'
  exact hsame.spelling.trans (hplain a ha)

/-- A drawing in which a pass finds nothing to do, with text for all of it: it refers to no
entities, and each name in it belongs to what its label means.
-/
structure IsFinal (precision : Int) (made : List Binding) (d : Document) : Prop where
  sound : d.Sound made
  marks : d.HasOwnMarks
  tidy : Tidy true maxDepth d.root.forest
  base : d.root.head.name.base = ("svg" : Text)
  names : d.root.isExact
  normal : IsNormal precision d.root
  labels : HasFirstLabels d.root

/-- Passes that leave the text as it was end with a final drawing, unless what they end with
refers to entities or has names that do not belong to what their labels mean.
-/
theorem isFinal_of_finish {precision : Int} {s : Text} {f : Finish}
    (h : finish true precision s = .ok f) (hsettled : f.settled)
    (hplain : ∀ h ∈ f.document.root.heads, h.Plain)
    (hleaves : ∀ leaf ∈ Node.allLeaves f.document.root.forest, leaf.isText)
    (hexact : f.document.root.isExact)
    : (∃ made, IsFinal precision made f.document) ∧ f.document.root.write = f.text := by
  obtain ⟨d, made, hread, hd, hrun, ⟨more, -, hf, hchanges⟩, hwrite⟩ := exists_steps_of_finish h
  obtain ⟨-, htext, hbase⟩ := readDocument_eq_ok.mp hread
  have hpass := pass_of_runPasses hd rfl hrun hsettled
  have hsource : Tidy false maxDepth d.root.forest :=
    tidy_of_ofText? (fun hliteral => absurd hliteral Bool.false_ne_true) htext
  obtain ⟨htidy, hname⟩ := hchanges.tidy hsource
  refine ⟨⟨more, ?_⟩, hwrite⟩
  exact {
    sound := hf
    marks := hasOwnMarks_of_runPasses (hasOwnMarks_of_ofText? htext) hrun
    tidy := htidy.literal_of_plain (fun h hh => hplain h (Element.heads_eq _ ▸ hh)) hleaves
    base := hname.trans hbase
    names := hexact
    normal := isNormal_of_pass hf hpass
    labels := hasFirstLabels_of_pass hf hpass
  }

/-- A final drawing is minified from its text to that text, if reading it loses no text in it. -/
theorem IsFinal.exists_finish {made : List Binding} {precision : Int} {d : Document}
    (hd : IsFinal precision made d)
    (hspace : ∀ d', readDocument d.root.write = .ok d' →
      (Node.allLeaves d.root.forest).length ≤ (Node.allLeaves d'.root.forest).length)
    : ∃ f, finish true precision d.root.write = .ok f ∧ f.text = d.root.write := by
  obtain ⟨d', hread, htext, hreread⟩ :=
    exists_readDocument_write hd.sound hd.tidy hd.base (Node.allResolve_of_areExact hd.names)
  obtain ⟨made', hd'⟩ := sound_of_ofText? htext
  -- the declarations of both documents, and with them all names
  obtain ⟨C, hC, hdeclared⟩ := exists_isCorrespondence
    (hreread.sameScope hd.sound.ledger hd.sound.tree hd.tidy.plain) (hd.marks.nodup hd.sound)
    ((hasOwnMarks_of_ofText? htext).nodup hd')
  have halike := hreread.corresponds hC hd.sound.ledger hd.sound.tree hd.tidy.plain hd.names .nil
    hdeclared (hspace d' hread)
  have hsame := halike.imp fun _ _ h => h.1
  have hplain : ∀ h ∈ d'.root.heads, h.Plain := by
    intro h' hh'
    rw [Element.heads_eq] at hh'
    obtain ⟨h, hh, hsameHead⟩ := exists_mem_left_of_forall₂ hsame.heads hh'
    exact plain_of_same hsameHead (hd.tidy.plain h hh)
  have hpass := pass_eq_ok_self hd' hplain (hd.normal.of_same hsame)
    (hd.labels.of_corresponds hC (halike.imp fun _ _ h => h.2))
  have hwrite : d'.root.write = d.root.write := by
    rw [Element.write_eq, Element.write_eq]
    exact writeAll_of_alike (halike.imp fun _ _ h => h.2.text hC h.1)
  have hrun : runPasses precision 0 maxPasses d' d'.root.write
      = .ok ⟨d', d'.root.write, 1, true⟩ := by
    rw [maxPasses, runPasses, hpass]
    exact if_pos rfl
  refine ⟨⟨d', d'.root.write, 1, true⟩, ?_, hwrite⟩
  rw [finish, hread]
  exact hrun

end SvgKit.Minify
