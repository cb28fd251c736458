import SvgKit.Proofs.Minify.Soundness
import SvgKit.Proofs.Xml.Document
import SvgKit.Proofs.Xml.Resolution

/-! The minified text is read again as the document whose text it is, exactly if the labels in
the document mean the namespaces of its names.
-/

namespace SvgKit.Minify

open Xml

-----------------------------------------------------------------------------------------
-- Changes of tidy forests
-----------------------------------------------------------------------------------------

/-- Changed heads leave a forest tidy, with text where it was. -/
theorem tidy_of_alike {R : Head → Head → Prop} {literal : Bool} {depth : Nat}
    {nodes nodes' : List Node} (h : Alike R nodes nodes')
    (hplain : ∀ h h', R h h' → h.Plain → h'.Plain) (htidy : Tidy literal depth nodes)
    : Tidy literal depth nodes' ∧ beginsWithText nodes' = beginsWithText nodes := by
  induction h generalizing depth with
  | nil => exact ⟨.nil, rfl⟩
  | element hR _ _ inside behind =>
      cases htidy with
      | element plain tidyInside tidyBehind =>
          exact ⟨.element (fun h => hplain _ _ hR (plain h)) (inside tidyInside).1
            (behind tidyBehind).1, rfl⟩
  | text s _ ih =>
      cases htidy with
      | text _ apart tidyBehind =>
          obtain ⟨htidy, hbegins⟩ := ih tidyBehind
          exact ⟨.text s (hbegins.trans apart) htidy, rfl⟩
  | entity name _ ih =>
      cases htidy with
      | entity _ free tidyBehind => exact ⟨.entity name free (ih tidyBehind).1, rfl⟩

/-- What is left of a tidy forest is tidy. Text begins it only where text began the forest. -/
theorem Pruned.tidy {gone literal : Bool} {depth : Nat} {nodes left : List Node}
    (h : Pruned gone nodes left) (htidy : Tidy literal depth nodes)
    : Tidy literal depth left ∧ (beginsWithText left → gone = false ∧ beginsWithText nodes) := by
  induction h generalizing depth with
  | nil => exact ⟨.nil, fun hbegins => by cases hbegins⟩
  | @drop gone node nodes left notText _ ih =>
      obtain ⟨hleft, hbegins⟩ := ih (htidy.suffix (List.suffix_cons node nodes))
      exact ⟨hleft, fun h => by cases (hbegins h).1⟩
  | @dropText s nodes left _ ih =>
      obtain ⟨hleft, hbegins⟩ := ih (htidy.suffix (List.suffix_cons _ nodes))
      exact ⟨hleft, fun h => by cases (hbegins h).1⟩
  | element head _ _ inside behind =>
      cases htidy with
      | element plain tidyInside tidyBehind =>
          exact ⟨.element plain (inside tidyInside).1 (behind tidyBehind).1,
            fun hbegins => by cases hbegins⟩
  | @text s nodes left _ ih =>
      cases htidy with
      | text _ apart tidyBehind =>
          obtain ⟨hleft, hbegins⟩ := ih tidyBehind
          exact ⟨.text s (by simpa [apart] using hbegins) hleft, fun _ => ⟨rfl, rfl⟩⟩
  | entity name _ ih =>
      cases htidy with
      | entity _ free tidyBehind =>
          exact ⟨.entity name free (ih tidyBehind).1, fun hbegins => by cases hbegins⟩

theorem beginsWithText_dropText (nodes : List Node) : beginsWithText (dropText nodes) = false := by
  induction nodes with
  | nil => rfl
  | cons node nodes ih =>
      cases node with
      | element h content => rfl
      | text s => exact ih
      | entity name => rfl

theorem tidy_dropText {literal : Bool} {depth : Nat} {nodes : List Node}
    (h : Tidy literal depth nodes)
    : Tidy literal depth (dropText nodes) :=
  h.suffix (dropText_suffix nodes)

/-- What the containers of a tidy forest are collapsed to is tidy. Text begins it only where
text began the forest.
-/
theorem Collapsed.tidy {literal : Bool} {depth : Nat} {nodes left : List Node}
    (h : Collapsed nodes left) (htidy : Tidy literal depth nodes)
    : Tidy literal depth left ∧ (beginsWithText left → beginsWithText nodes) := by
  induction h generalizing depth with
  | nil => exact ⟨.nil, id⟩
  | keep head _ _ inside behind =>
      cases htidy with
      | element plain tidyInside tidyBehind =>
          exact ⟨.element plain (inside tidyInside).1 (behind tidyBehind).1,
            fun hbegins => by cases hbegins⟩
  | @drop head nodes left content _ behind =>
      cases htidy with
      | element _ _ tidyBehind =>
          refine ⟨tidy_dropText (behind tidyBehind).1, fun hbegins => ?_⟩
          rw [beginsWithText_dropText] at hbegins
          cases hbegins
  | @unwrap head content inner moved nodes left _ adapted _ inside behind =>
      cases htidy with
      | element _ tidyInside tidyBehind =>
          obtain ⟨hmoved, hbegins⟩ := tidy_of_alike adapted
            (fun _ _ hsame => (derives_of_same hsame.name.base hsame.attributes).plain)
            (tidy_dropText (inside tidyInside).1)
          rw [beginsWithText_dropText] at hbegins
          have hbehind := beginsWithText_dropText left
          refine ⟨hmoved.succ.append (tidy_dropText (behind tidyBehind).1)
            (fun h => by rw [hbehind] at h; cases h), fun h => ?_⟩
          by_cases hnil : moved = []
          · rw [hnil, List.nil_append, hbehind] at h
            cases h
          · rw [beginsWithText_append hnil, hbegins] at h
            cases h
  | @text s nodes left _ ih =>
      cases htidy with
      | text _ apart tidyBehind =>
          obtain ⟨hleft, hbegins⟩ := ih tidyBehind
          exact ⟨.text s (by simpa [apart] using hbegins) hleft, fun _ => rfl⟩
  | entity name _ ih =>
      cases htidy with
      | entity _ free tidyBehind =>
          exact ⟨.entity name free (ih tidyBehind).1, fun hbegins => by cases hbegins⟩

/-- A change leaves a tree tidy, and the name of its root as it is but for its namespace. -/
theorem Change.tidy {literal : Bool} {depth : Nat} {e e' : Element} (h : Change e e')
    (htidy : Tidy literal depth e.forest)
    : Tidy literal depth e'.forest ∧ e'.head.name.base = e.head.name.base := by
  cases h with
  | prune head pruned =>
      cases htidy with
      | element plain inside _ => exact ⟨.element plain (pruned.tidy inside).1 .nil, rfl⟩
  | heads alike =>
      refine ⟨(tidy_of_alike alike (fun _ _ h => h.plain) htidy).1, ?_⟩
      cases alike with
      | element hderives _ _ => exact hderives.base
  | collapse head collapsed =>
      cases htidy with
      | element plain inside _ => exact ⟨.element plain (collapsed.tidy inside).1 .nil, rfl⟩

theorem Changes.tidy {literal : Bool} {depth : Nat} {e e' : Element} (h : Changes e e')
    (htidy : Tidy literal depth e.forest)
    : Tidy literal depth e'.forest ∧ e'.head.name.base = e.head.name.base := by
  induction h with
  | refl => exact ⟨htidy, rfl⟩
  | tail _ hchange ih =>
      obtain ⟨htidy', hbase⟩ := hchange.tidy ih.1
      exact ⟨htidy', hbase.trans ih.2⟩

-----------------------------------------------------------------------------------------
-- Reading again
-----------------------------------------------------------------------------------------

theorem dropDeclaration_tag {c : Char} (hc : isNameStart c) (s : Text)
    : dropDeclaration ('<' :: c :: s) = '<' :: c :: s := by
  have hblank : Text.dropBlank ('<' :: c :: s) = '<' :: c :: s :=
    List.dropWhile_cons_of_neg (by decide)
  rw [dropDeclaration, hblank, dropLiteral?_xml_tag hc]

theorem readDocument_tag {c : Char} (hc : isNameStart c) {s : Text} {d : Document}
    : readDocument ('<' :: c :: s) = .ok d
      ↔ Document.ofText? ('<' :: c :: s) = some d ∧ d.root.head.name.base = ("svg" : Text) := by
  have hencoding : declaresEncoding ('<' :: c :: s) = false := by
    rw [declaresEncoding, dropLiteral?_xml_tag hc]
  rw [readDocument_eq_ok, dropDeclaration_tag hc, hencoding]
  simp

/-- The text of a literal document is read again if its names resolve. -/
theorem exists_readDocument_write {made : List Binding} {d : Document} (hd : d.Sound made)
    (htidy : Tidy true maxDepth d.root.forest) (hbase : d.root.head.name.base = ("svg" : Text))
    (hresolves : d.root.resolves)
    : ∃ d', readDocument d.root.write = .ok d' ∧ Document.ofText? d.root.write = some d'
      ∧ Reread Head.tag [] d.root.forest d'.root.forest := by
  obtain ⟨c, s, hwrite, hc⟩ := exists_writeAllWith soundTags_tag hd.ledger hd.tree
  have hread := ofText?_writeAllWith soundTags_tag hd.ledger hd.tree htidy
  rw [Element.write_eq, ← Node.writeAllWith_tag hd.tree]
  rw [hwrite] at hread ⊢
  rcases hread with ⟨-, hunread⟩ | ⟨d', hsome, hreread⟩
  · have hnot := hunread.not_allResolve hd.ledger hd.tree htidy .nil
    rw [← Element.resolves, hresolves] at hnot
    cases hnot
  · have hsame := hreread.sameButSpace hd.ledger hd.tree htidy.plain .nil hresolves
    have hsvg : d'.root.head.name.base = ("svg" : Text) := by
      cases hsame with
      | element head _ _ => exact head.name.base.trans hbase
    exact ⟨d', (readDocument_tag hc).mpr ⟨hsome, hsvg⟩, hsome, hreread⟩

/-- The text of a literal document is read again as the same document, but for white space,
exactly if its names resolve.
-/
theorem readDocument_write_iff {made : List Binding} {d : Document} (hd : d.Sound made)
    (htidy : Tidy true maxDepth d.root.forest) (hbase : d.root.head.name.base = ("svg" : Text))
    : (∃ d', readDocument d.root.write = .ok d' ∧ d'.root.head.name.base = ("svg" : Text)
        ∧ SameButSpace d.root.forest d'.root.forest)
      ↔ d.root.resolves := by
  constructor
  · rintro ⟨d', hd', -, hsame⟩
    obtain ⟨c, s, hwrite, hc⟩ := exists_writeAllWith soundTags_tag hd.ledger hd.tree
    have hread := ofText?_writeAllWith soundTags_tag hd.ledger hd.tree htidy
    rw [Element.write_eq, ← Node.writeAllWith_tag hd.tree, hwrite] at hd'
    rw [hwrite] at hread
    rcases hread with ⟨hnone, -⟩ | ⟨d'', hsome, hreread⟩
    · rw [((readDocument_tag hc).mp hd').1] at hnone
      cases hnone
    · obtain rfl := Option.some.inj (hsome.symm.trans ((readDocument_tag hc).mp hd').1)
      exact hreread.allResolve hd.ledger hd.tree htidy.plain .nil hsame.heads
  · intro hresolves
    obtain ⟨d', hread, -, hreread⟩ := exists_readDocument_write hd htidy hbase hresolves
    exact ⟨d', hread, (readDocument_eq_ok.mp hread).2.2,
      hreread.sameButSpace hd.ledger hd.tree htidy.plain .nil hresolves⟩

/-- A document without a document type declaration is minified to a text that is read again as
the final tree, but for white space, exactly if the labels in that tree mean the namespaces of
its names.
-/
theorem readDocument_text_iff {multipass : Bool} {precision : Int} {s : Text} {f : Finish}
    (hdoctype : hasDoctype (dropDeclaration s) = false)
    (h : finish multipass precision s = .ok f)
    : run multipass precision s = .ok ⟨f.text, f.passes⟩
      ∧ ((∃ d, readDocument f.text = .ok d ∧ d.root.head.name.base = ("svg" : Text)
          ∧ SameButSpace f.document.root.forest d.root.forest)
        ↔ f.document.root.resolves) := by
  refine ⟨by rw [run, h]; rfl, ?_⟩
  unfold finish at h
  cases hread : readDocument s with
  | error e =>
      rw [hread] at h
      cases h
  | ok d =>
      rw [hread] at h
      obtain ⟨-, htext, hbase⟩ := readDocument_eq_ok.mp hread
      obtain ⟨made, hd⟩ := sound_of_ofText? htext
      obtain ⟨⟨more, -, hf, hchanges⟩, hwrite⟩ := steps_of_runPasses hd rfl h
      obtain ⟨htidy, hname⟩ := hchanges.tidy (tidy_of_ofText? (fun _ => hdoctype) htext)
      rw [← hwrite]
      exact readDocument_write_iff hf htidy (hname.trans hbase)

theorem readDocument_text_iff_references
    : ∃ f,
      finish true 3
          "<svg xmlns:p=\"U\"><g>\n<p:a p:b=\"&#10;\">x&lt;y&#13;</p:a></g> <b> </b></svg>"
        = .ok f
      ∧ f.text = ("<svg xmlns:p=\"U\"><p:a p:b=\"&#10;\">x&lt;y&#13;</p:a><b> </b></svg>" : Text)
      ∧ ∃ d, readDocument f.text = .ok d ∧ d.root.head.name.base = ("svg" : Text)
        ∧ SameButSpace f.document.root.forest d.root.forest := by
  have hfinish : (finish true 3
      "<svg xmlns:p=\"U\"><g>\n<p:a p:b=\"&#10;\">x&lt;y&#13;</p:a></g> <b> </b></svg>").toOption.map
        (fun f => (f.text, f.document.root.resolves))
      = some (("<svg xmlns:p=\"U\"><p:a p:b=\"&#10;\">x&lt;y&#13;</p:a><b> </b></svg>" : Text), true) := by
    decide +kernel
  cases hf : finish true 3
      "<svg xmlns:p=\"U\"><g>\n<p:a p:b=\"&#10;\">x&lt;y&#13;</p:a></g> <b> </b></svg>" with
  | error e =>
      rw [hf] at hfinish
      cases hfinish
  | ok f =>
      rw [hf] at hfinish
      obtain ⟨htext, hresolves⟩ := Prod.mk.inj (Option.some.inj hfinish)
      exact ⟨f, rfl, htext, (readDocument_text_iff (by decide +kernel) hf).2.mpr hresolves⟩

/-- Without the declaration that gives up the default namespace, the element that had it is read
again with another name.
-/
theorem readDocument_text_undeclared
    : hasDoctype (dropDeclaration "<svg xmlns=\"U\"><a xmlns=\"\"/></svg>") = false
      ∧ ∃ f, finish true 3 "<svg xmlns=\"U\"><a xmlns=\"\"/></svg>" = .ok f
        ∧ f.text = ("<svg xmlns=\"U\"><a/></svg>" : Text)
        ∧ ∀ d, readDocument f.text = .ok d
          → ¬ SameButSpace f.document.root.forest d.root.forest := by
  have hfinish : (finish true 3 "<svg xmlns=\"U\"><a xmlns=\"\"/></svg>").toOption.map
        (fun f => (f.text, f.document.root.heads.map (·.name.uri?)))
      = some (("<svg xmlns=\"U\"><a/></svg>" : Text), [some ("U" : Text), none]) := by
    decide +kernel
  have hread : (readDocument "<svg xmlns=\"U\"><a/></svg>").toOption.map
        (fun d => d.root.heads.map (·.name.uri?))
      = some [some ("U" : Text), some ("U" : Text)] := by
    decide +kernel
  refine ⟨by decide +kernel, ?_⟩
  cases hf : finish true 3 "<svg xmlns=\"U\"><a xmlns=\"\"/></svg>" with
  | error e =>
      rw [hf] at hfinish
      cases hfinish
  | ok f =>
      rw [hf] at hfinish
      obtain ⟨htext, huris⟩ := Prod.mk.inj (Option.some.inj hfinish)
      refine ⟨f, rfl, htext, fun d hd hsame => ?_⟩
      rw [htext] at hd
      rw [hd] at hread
      have hnames := hsame.uris
      have huris' : d.root.heads.map (·.name.uri?) = [some ("U" : Text), some ("U" : Text)] :=
        Option.some.inj hread
      rw [← Element.heads_eq, ← Element.heads_eq, huris, huris'] at hnames
      simp at hnames

end SvgKit.Minify
