import SvgKit.Proofs.Minify.NormalForm
import SvgKit.Proofs.Minify.References

/-! Which identifiers stay. A pass keeps every identifier that an attribute refers to, and makes
no new reference but by rounding a number or by cutting through one in a style.
-/

namespace SvgKit.Minify

open Xml

-----------------------------------------------------------------------------------------
-- Elements outside of content for drawing programs
-----------------------------------------------------------------------------------------

mutual

/-- The heads of the elements in a node that are neither for drawing programs nor in an element
that is, in document order.
-/
def drawnIn : Node → List Head
  | .element h content => if isEditorElement h then [] else h :: drawnHeads content
  | _ => []

/-- The heads of the elements in nodes that are neither for drawing programs nor in an element
that is, in document order.
-/
def drawnHeads : List Node → List Head
  | [] => []
  | node :: nodes => drawnIn node ++ drawnHeads nodes

end

@[simp]
theorem drawnHeads_nil : drawnHeads [] = [] := by
  rw [drawnHeads]

theorem drawnHeads_element (h : Head) (content nodes : List Node)
    : drawnHeads (.element h content :: nodes)
      = (if isEditorElement h then [] else h :: drawnHeads content) ++ drawnHeads nodes := by
  rw [drawnHeads, drawnIn]

@[simp]
theorem drawnHeads_text (s : Text) (nodes : List Node)
    : drawnHeads (.text s :: nodes) = drawnHeads nodes := by
  rw [drawnHeads, drawnIn, List.nil_append]
  simp

@[simp]
theorem drawnHeads_entity (name : Text) (nodes : List Node)
    : drawnHeads (.entity name :: nodes) = drawnHeads nodes := by
  rw [drawnHeads, drawnIn, List.nil_append]
  simp

theorem mem_drawnHeads_element {h head : Head} {content nodes : List Node}
    : h ∈ drawnHeads (.element head content :: nodes)
      ↔ (isEditorElement head = false ∧ (h = head ∨ h ∈ drawnHeads content))
        ∨ h ∈ drawnHeads nodes := by
  rw [drawnHeads_element, List.mem_append]
  cases isEditorElement head <;> simp

theorem drawnHeads_append (nodes more : List Node)
    : drawnHeads (nodes ++ more) = drawnHeads nodes ++ drawnHeads more := by
  induction nodes with
  | nil => simp
  | cons node nodes ih => rw [List.cons_append, drawnHeads, drawnHeads, ih, List.append_assoc]

theorem drawnHeads_subset (nodes : List Node) : drawnHeads nodes ⊆ Node.allHeads nodes := by
  induction nodes using Node.forest_induction with
  | nil => simp
  | element head content nodes inside behind =>
      intro h hh
      rw [Node.allHeads_element, List.mem_cons, List.mem_append]
      rcases mem_drawnHeads_element.mp hh with ⟨-, rfl | hh⟩ | hh
      · exact .inl rfl
      · exact .inr (.inl (inside hh))
      · exact .inr (.inr (behind hh))
  | text s nodes ih => simpa using ih
  | entity name nodes ih => simpa using ih

theorem drawnHeads_dropText (nodes : List Node) : drawnHeads (dropText nodes) = drawnHeads nodes := by
  induction nodes with
  | nil => rfl
  | cons node nodes ih =>
      cases node with
      | element head content => rfl
      | text s => rw [drawnHeads_text, ← ih, dropText]
      | entity name => rfl

theorem forall₂_drawnHeads {R : Head → Head → Prop} {nodes nodes' : List Node}
    (h : Alike R nodes nodes') (hR : ∀ h h', R h h' → isEditorElement h' = isEditorElement h)
    : List.Forall₂ R (drawnHeads nodes) (drawnHeads nodes') := by
  induction h with
  | nil => simp
  | element head _ _ inside behind =>
      rw [drawnHeads_element, drawnHeads_element, hR _ _ head]
      split
      · exact behind
      · exact .cons head (List.rel_append inside behind)
  | text s _ ih => simpa using ih
  | entity name _ ih => simpa using ih

/-- The root, or an element that is neither for drawing programs nor in an element that is, has
the identifier.
-/
def HasId (e : Element) (x : Text) : Prop :=
  e.head.get? "id" = some x ∨ ∃ h ∈ drawnHeads e.content, h.get? "id" = some x

instance (e : Element) (x : Text) : Decidable (HasId e x) :=
  inferInstanceAs (Decidable (_ ∨ _))

theorem HasId.exists_mem_heads {e : Element} {x : Text} (h : HasId e x)
    : ∃ head ∈ e.heads, head.get? "id" = some x := by
  rcases h with h | ⟨head, hhead, h⟩
  · exact ⟨e.head, List.mem_cons_self, h⟩
  · exact ⟨head, List.mem_cons_of_mem _ (drawnHeads_subset _ hhead), h⟩

/-- What keeps an identifier on a head keeps it on a tree. -/
theorem HasId.of_alike {R : Head → Head → Prop} {e e' : Element} {x : Text} (h : HasId e x)
    (halike : Alike R e.forest e'.forest)
    (hR : ∀ h h', R h h' → isEditorElement h' = isEditorElement h
      ∧ (h.get? "id" = some x → h'.get? "id" = some x))
    : HasId e' x := by
  cases halike with
  | element hhead hcontent _ =>
      rcases h with h | ⟨head, hmem, h⟩
      · exact .inl ((hR _ _ hhead).2 h)
      · have hdrawn := forall₂_drawnHeads hcontent fun h h' hh => (hR h h' hh).1
        obtain ⟨head', hmem', hhead'⟩ := exists_mem_right_of_forall₂ hdrawn hmem
        exact .inr ⟨head', hmem', (hR _ _ hhead').2 h⟩

-----------------------------------------------------------------------------------------
-- Identifiers through a pass
-----------------------------------------------------------------------------------------

/-- An attribute stays when only attributes of other names go. -/
theorem get?_filter {name : Text} {p : Attribute → Bool}
    (hp : ∀ a : Attribute, a.name.binding.isNone → a.name.base = name → p a) (h : Head)
    : ({ h with attributes := h.attributes.filter p } : Head).get? name = h.get? name := by
  unfold Head.get?
  rw [List.find?_filter]
  congr 2
  funext a
  by_cases hname : a.name.binding.isNone && a.name.base = name
  · have hboth := hname
    rw [Bool.and_eq_true, decide_eq_true_eq] at hboth
    rw [hname]
    simp [hp a hboth.1 hboth.2]
  · rw [Bool.not_eq_true] at hname
    simp [hname]

theorem get?_erase_ne {name other : Text} (hne : name ≠ other) (h : Head)
    : (h.erase other).get? name = h.get? name :=
  get?_filter (fun a _ hname => by simp [hname, hne]) h

theorem get?_set_ne {h : Head} {name other : Text} (hne : name ≠ other) (value : Text)
    : (h.set other value).get? name = h.get? name := by
  unfold Head.get? Head.set
  dsimp only
  induction h.attributes with
  | nil => rfl
  | cons a attributes ih =>
      rw [List.map_cons, List.find?_cons, List.find?_cons]
      by_cases hother : a.name.binding.isNone && a.name.base = other
      · have hname : (a.name.binding.isNone && decide (a.name.base = name)) = false := by
          simp only [Bool.and_eq_true, decide_eq_true_eq] at hother
          simp [hother.2, hne.symm]
        rw [if_pos hother, hname]
        exact ih
      · rw [if_neg hother]
        split
        · rfl
        · exact ih

theorem get?_dropEditorAttributes (h : Head) (name : Text)
    : (dropEditorAttributes h).get? name = h.get? name := by
  refine get?_filter (fun a hplain _ => ?_) h
  rw [Option.isNone_iff_eq_none] at hplain
  simp [isEditorName, Name.uri?, hplain]

/-- Rounding keeps an attribute that holds no numbers. -/
theorem get?_roundNumbers {precision : Int} {h rounded : Head} {name : Text}
    (hround : roundNumbers precision h = .ok rounded) (hnumeric : isNumeric name = false)
    (hpath : isPathData name = false)
    : rounded.get? name = h.get? name := by
  have hall := (roundNumbers_eq_ok hround).1
  unfold Head.get?
  generalize h.attributes = attributes at hall
  generalize rounded.attributes = attributes' at hall
  induction hall with
  | nil => rfl
  | @cons a a' _ _ hfirst _ ih =>
      rw [List.find?_cons, List.find?_cons, (rewrites_of_roundAttribute hfirst).1.name]
      split
      · next hname =>
          rw [Bool.and_eq_true, decide_eq_true_eq] at hname
          rw [roundAttribute, hname.2, hnumeric, hpath] at hfirst
          cases hfirst
          rfl
      · exact ih

theorem get?_shortenHead {precision : Int} {outer : List Head} {h h' : Head}
    (hshort : shortenHead precision outer h = .ok h')
    : h'.get? "id" = h.get? "id" := by
  have hstyle : ("id" : Text) ≠ "style" := by with_unfolding_all decide
  have hdefault : presentationDefaults.lookup (Text.ofString "id") = none := by with_unfolding_all decide
  obtain ⟨rounded, hround, rfl⟩ := shortenHead_eq_ok hshort
  calc (compactStyle rounded).get? "id"
      = rounded.get? "id" := by
        unfold compactStyle
        split
        · rfl
        · split
          · exact get?_set_ne hstyle _
          · exact get?_erase_ne hstyle rounded
    _ = (dropDefaults outer h).get? "id" :=
        get?_roundNumbers hround (by with_unfolding_all decide) (by with_unfolding_all decide)
    _ = h.get? "id" :=
        get?_filter (fun a _ hname => by simp [isRedundant, hname, hdefault]) h

/-- Pruning of content for drawing programs keeps the other elements. -/
theorem drawnHeads_pruneNodes (parent : Head) (gone : Bool) (nodes : List Node)
    : drawnHeads (pruneNodes (fun _ h => isEditorElement h) parent gone nodes)
      = drawnHeads nodes := by
  induction nodes using Node.forest_induction generalizing parent gone with
  | nil => rw [pruneNodes]
  | element head content nodes inside behind =>
      rw [pruneNodes_element, drawnHeads_element]
      split
      · exact behind parent true
      · next hkept => rw [drawnHeads_element, if_neg hkept, inside head false, behind parent false]
  | text s nodes ih =>
      rw [pruneNodes, drawnHeads_text]
      split
      · exact ih parent true
      · rw [drawnHeads_text]
        exact ih parent false
  | entity name nodes ih =>
      rw [pruneNodes, drawnHeads_entity, drawnHeads_entity]
      exact ih parent false

/-- Pruning of definitions keeps each element with a used identifier, by induction over the
forest.
-/
theorem mem_drawnHeads_pruneAllDefs {used : List Text} {inDefs gone : Bool} {nodes : List Node}
    {h : Head} {x : Text} (hh : h ∈ drawnHeads nodes) (hid : h.get? "id" = some x)
    (hx : x ∈ used)
    : h ∈ drawnHeads (pruneAllDefs used inDefs gone nodes) := by
  induction nodes using Node.forest_induction generalizing inDefs gone with
  | nil => simp at hh
  | element head content nodes inside behind =>
      rw [pruneAllDefs_element]
      split
      · next hgoes =>
          rcases mem_drawnHeads_element.mp hh with ⟨-, hhere⟩ | hh
          · have hholds : holdsUsedId used (.element head content) := by
              refine List.any_eq_true.mpr ⟨h, ?_, by simpa [hid] using hx⟩
              rw [Node.heads, List.mem_cons]
              exact hhere.imp_right fun hh => drawnHeads_subset _ hh
            simp [hholds] at hgoes
          · exact behind hh
      · rw [mem_drawnHeads_element]
        rcases mem_drawnHeads_element.mp hh with ⟨hdrawn, rfl | hh⟩ | hh
        · exact .inl ⟨hdrawn, .inl rfl⟩
        · exact .inl ⟨hdrawn, .inr (inside hh)⟩
        · exact .inr (behind hh)
  | text s nodes ih =>
      rw [drawnHeads_text] at hh
      rw [pruneAllDefs]
      split
      · exact ih hh
      · rw [drawnHeads_text]
        exact ih hh
  | entity name nodes ih =>
      rw [drawnHeads_entity] at hh
      rw [pruneAllDefs_entity]
      split
      · exact ih hh
      · rw [drawnHeads_entity]
        exact ih hh

/-- Collapsing containers keeps identifiers, by induction over the forest. -/
theorem exists_mem_drawnHeads_collapseNodes {made : List Binding} {outer : List Head}
    {nodes : List Node} {supply : Supply} (hout : PathSound made outer)
    (hledger : Ledger supply.mark made) (hnodes : Node.AllSound made nodes) {x : Text}
    (hx : ∃ h ∈ drawnHeads nodes, h.get? "id" = some x)
    : ∃ h ∈ drawnHeads (collapseNodes outer nodes supply).1, h.get? "id" = some x := by
  induction nodes using Node.forest_induction generalizing made outer supply with
  | nil => simp at hx
  | element head content nodes inside behind =>
      obtain ⟨hhead, hcontent, hnodes⟩ := Node.AllSound.element_iff.mp hnodes
      obtain ⟨made₁, hsub₁, hledger₁, -⟩ := collapseNodes_spec hout hledger hnodes
      have hout₁ := PathSound.cons (hhead.mono hsub₁).mem_made (hout.mono hsub₁)
      have hcontent₁ := hcontent.mono hsub₁
      obtain ⟨made₂, hsub₂, hledger₂, hinner, -⟩ := collapseNodes_spec hout₁ hledger₁ hcontent₁
      have hinside := inside hout₁ hledger₁ hcontent₁
      have hbehind := behind hout hledger hnodes
      rw [collapseNodes_eq]
      generalize collapseNodes outer nodes supply = rest at *
      generalize collapseNodes (head :: outer) content rest.2 = inner at *
      have hkept : ∃ h ∈ drawnHeads (.element head inner.1 :: rest.1), h.get? "id" = some x := by
        obtain ⟨h, hh, hid⟩ := hx
        rcases mem_drawnHeads_element.mp hh with ⟨hdrawn, rfl | hh⟩ | hh
        · exact ⟨h, mem_drawnHeads_element.mpr (.inl ⟨hdrawn, .inl rfl⟩), hid⟩
        · obtain ⟨h', hh', hid'⟩ := hinside ⟨h, hh, hid⟩
          exact ⟨h', mem_drawnHeads_element.mpr (.inl ⟨hdrawn, .inr hh'⟩), hid'⟩
        · obtain ⟨h', hh', hid'⟩ := hbehind ⟨h, hh, hid⟩
          exact ⟨h', mem_drawnHeads_element.mpr (.inr hh'), hid'⟩
      obtain ⟨h, hh, hid⟩ := hkept
      split
      · exact ⟨h, hh, hid⟩
      · split
        · next hempty =>
            -- neither the container nor the text in it has an identifier
            rw [isEmptyContainer, Bool.and_eq_true, Bool.and_eq_true] at hempty
            have hnone : drawnHeads inner.1 = [] := by
              rw [← drawnHeads_dropText, dropText_eq_nil hempty.1.1, drawnHeads_nil]
            rcases mem_drawnHeads_element.mp hh with ⟨-, rfl | hh⟩ | hh
            · rw [hid] at hempty
              cases hempty.2
            · rw [hnone] at hh
              cases hh
            · exact ⟨h, by rwa [drawnHeads_dropText], hid⟩
        · split
          · next hbare =>
              -- a group without attributes has no identifier
              rw [isBareGroup, Bool.and_eq_true, Bool.and_eq_true] at hbare
              obtain ⟨_, -, -, -, halike⟩ := adaptAll_spec ((hout.mono hsub₁).mono hsub₂)
                hledger₂ (hinner.suffix (dropText_suffix _))
              have hmoved := forall₂_drawnHeads halike fun _ _ => isEditorElement_of_same
              rw [drawnHeads_dropText] at hmoved
              simp only [drawnHeads_append, drawnHeads_dropText, List.mem_append]
              rcases mem_drawnHeads_element.mp hh with ⟨-, rfl | hh⟩ | hh
              · rw [Head.get?, List.isEmpty_iff.mp hbare.1.2] at hid
                cases hid
              · obtain ⟨h', hh', hsame⟩ := exists_mem_right_of_forall₂ hmoved hh
                exact ⟨h', .inl hh', (get?_of_same hsame "id").trans hid⟩
              · exact ⟨h, .inr hh, hid⟩
          · exact ⟨h, hh, hid⟩
  | text s nodes ih =>
      rw [drawnHeads_text] at hx
      simp only [collapseNodes_text, drawnHeads_text]
      exact ih hout hledger (Node.AllSound.text_iff.mp hnodes).2 hx
  | entity name nodes ih =>
      rw [drawnHeads_entity] at hx
      simp only [collapseNodes_entity, drawnHeads_entity]
      exact ih hout hledger (Node.AllSound.entity_iff.mp hnodes).2 hx

/-- A pass keeps an identifier that is used, and any where nothing is removed because elements
may refer to identifiers in other ways.
-/
theorem HasId.of_pass {made : List Binding} {precision : Int} {d d' : Document} {x : Text}
    (hid : HasId d.root x) (hd : d.Sound made) (h : pass precision d = .ok d')
    (hused : isIdSensitive (dropVersion (removeEditorContent d)).root
      ∨ x ∈ usedIds (dropVersion (removeEditorContent d)).root)
    : HasId d'.root x := by
  obtain ⟨root, labelled, more, hshort, hrelabels, hlabelled, hundeclares⟩ := stages_of_pass hd h
  -- removal
  have hdrawn : HasId (removeEditorContent d).root x := by
    unfold removeEditorContent
    dsimp only [Element.mapHeads]
    rcases hid with hid | ⟨head, hhead, hid⟩
    · exact .inl ((get?_dropEditorAttributes _ _).trans hid)
    · rw [← drawnHeads_pruneNodes d.root.head false] at hhead
      have halike := Alike.mapAllHeads dropEditorAttributes
        (pruneNodes (fun _ h => isEditorElement h) d.root.head false d.root.content)
      obtain ⟨_, hhead', rfl⟩ := exists_mem_right_of_forall₂
        (forall₂_drawnHeads halike (by rintro h _ rfl; rfl)) hhead
      exact .inr ⟨_, hhead', (get?_dropEditorAttributes _ _).trans hid⟩
  have hversion : HasId (dropVersion (removeEditorContent d)).root x :=
    hdrawn.imp_left (get?_erase_ne (by with_unfolding_all decide) _).trans
  generalize dropVersion (removeEditorContent d) = cleaned at *
  have hkept : HasId (removeUnusedIds cleaned).root x := by
    unfold removeUnusedIds
    split
    · exact hversion
    · next hsensitive =>
        have hx := hused.resolve_left hsensitive
        rcases hversion with hid | ⟨head, hhead, hid⟩
        · exact .inl hid
        · have hmem := @mem_drawnHeads_pruneAllDefs _ (isDefs cleaned.root.head) false _ _ _
            hhead hid hx
          have halike := Alike.mapAllHeads (dropUnusedId (usedIds cleaned.root))
            (pruneAllDefs (usedIds cleaned.root) (isDefs cleaned.root.head) false
              cleaned.root.content)
          obtain ⟨_, hhead', rfl⟩ := exists_mem_right_of_forall₂
            (forall₂_drawnHeads halike fun h h' heq => by
              rw [isEditorElement, isEditorElement, heq, (reduces_dropUnusedId _ h).name]) hmem
          refine .inr ⟨_, hhead', ?_⟩
          rw [dropUnusedId, hid]
          dsimp only
          rw [if_pos (by simpa using hx), hid]
  -- shortening and relabelling
  have hshortened : HasId root x := hkept.of_alike hshort fun h h' hhead => by
    obtain ⟨outer, heq⟩ := hhead
    exact ⟨by rw [isEditorElement, isEditorElement, (reduces_of_shortenHead heq).name],
      (get?_shortenHead heq).trans⟩
  have hrelabelled : HasId labelled.root x := hshortened.of_alike hrelabels fun h h' hr => by
    have hsame : h.Same h' := ⟨hr.name ▸ .refl _, hr.attributes⟩
    exact ⟨isEditorElement_of_same hsame, (get?_of_same hsame "id").trans⟩
  -- containers and declarations
  have hcollapsed : HasId (collapseGroups labelled).root x := by
    obtain ⟨hroot, hcontent, -⟩ := Node.AllSound.element_iff.mp hlabelled.tree
    exact hrelabelled.imp_right fun hid => exists_mem_drawnHeads_collapseNodes
      (.cons hroot.mem_made .nil) hlabelled.ledger hcontent hid
  exact hcollapsed.of_alike hundeclares fun h h' hhead => by
    obtain ⟨p, rfl, -⟩ := hhead
    exact ⟨rfl, id⟩

-----------------------------------------------------------------------------------------
-- References through a pass
-----------------------------------------------------------------------------------------

/-- What an attribute may become in passes: its numbers are rounded, or its style is compacted,
or its value stays. It keeps its base name, and gets no namespace and loses none.
-/
structure Becomes (a a' : Attribute) : Prop where
  base : a'.name.base = a.name.base
  bound : a'.name.binding.isNone = a.name.binding.isNone
  value : isNumeric a.name.base ∨ isPathData a.name.base
    ∨ (a'.value = a.value ∧ a'.spelling = a.spelling)
    ∨ a.name.base = ("style" : Text) ∧ compactStyle? a.value = some a'.value

theorem Becomes.refl (a : Attribute) : Becomes a a :=
  ⟨rfl, rfl, .inr (.inr (.inl ⟨rfl, rfl⟩))⟩

theorem Becomes.trans {a a' a'' : Attribute} (h : Becomes a a') (h' : Becomes a' a'')
    : Becomes a a'' := by
  refine ⟨h'.base.trans h.base, h'.bound.trans h.bound, ?_⟩
  have hvalue' := h'.value
  rw [h.base] at hvalue'
  rcases h.value with hn | hp | ⟨hv, hspelling⟩ | ⟨hs, hv⟩
  · exact .inl hn
  · exact .inr (.inl hp)
  · rwa [hv, hspelling] at hvalue'
  · rcases hvalue' with hn' | hp' | ⟨hv', -⟩ | ⟨-, hv'⟩
    · exact .inl hn'
    · exact .inr (.inl hp')
    · exact .inr (.inr (.inr ⟨hs, by rw [hv, hv']⟩))
    · rw [compactStyle?_again hv, Option.some.injEq] at hv'
      exact .inr (.inr (.inr ⟨hs, by rw [hv, hv']⟩))

theorem Becomes.of_same {a a' : Attribute} (h : a.Same a') : Becomes a a' := by
  refine ⟨h.name.base, ?_, .inr (.inr (.inl ⟨h.value, h.spelling⟩))⟩
  have huri := h.name.uri
  rw [Name.uri?, Name.uri?] at huri
  rw [← Option.isNone_map, huri, Option.isNone_map]

/-- Attributes each of which is what one of given attributes may become. -/
def StemFrom (attributes attributes' : List Attribute) : Prop :=
  ∀ a' ∈ attributes', ∃ a ∈ attributes, Becomes a a'

theorem StemFrom.of_subset {attributes attributes' : List Attribute}
    (h : attributes' ⊆ attributes)
    : StemFrom attributes attributes' :=
  fun a ha => ⟨a, h ha, .refl a⟩

theorem StemFrom.trans {attributes attributes' attributes'' : List Attribute}
    (h : StemFrom attributes attributes') (h' : StemFrom attributes' attributes'')
    : StemFrom attributes attributes'' := by
  intro a'' ha''
  obtain ⟨a', ha', hbecomes'⟩ := h' a'' ha''
  obtain ⟨a, ha, hbecomes⟩ := h a' ha'
  exact ⟨a, ha, hbecomes.trans hbecomes'⟩

theorem StemFrom.of_forall₂ {attributes attributes' : List Attribute}
    (h : List.Forall₂ Becomes attributes attributes')
    : StemFrom attributes attributes' :=
  fun _ ha => exists_mem_left_of_forall₂ h ha

theorem stemFrom_shortenHead {precision : Int} {outer : List Head} {h h' : Head}
    (hshort : shortenHead precision outer h = .ok h')
    : StemFrom h.attributes h'.attributes := by
  obtain ⟨rounded, hround, rfl⟩ := shortenHead_eq_ok hshort
  have hrounded : StemFrom (dropDefaults outer h).attributes rounded.attributes := by
    refine .of_forall₂ ((roundNumbers_eq_ok hround).1.imp fun a a' ha => ?_)
    have hname := (rewrites_of_roundAttribute ha).1.name
    refine ⟨by rw [hname], by rw [hname], ?_⟩
    by_cases hpath : isPathData a.name.base
    · exact .inr (.inl hpath)
    · by_cases hnumeric : isNumeric a.name.base
      · exact .inl hnumeric
      · rw [roundAttribute, if_neg hpath, if_neg hnumeric] at ha
        cases ha
        exact .inr (.inr (.inl ⟨rfl, rfl⟩))
  have hcompact : StemFrom rounded.attributes (compactStyle rounded).attributes := by
    unfold compactStyle
    split
    · exact .of_subset fun _ ha => ha
    · next style hstyle =>
        split
        · next compact hcompact =>
            obtain ⟨b, hb, rfl⟩ := Option.map_eq_some_iff.mp hstyle
            intro a' ha'
            obtain ⟨a, ha, rfl⟩ := List.mem_map.mp ha'
            split
            · next hname =>
                have hfound := List.find?_some hb
                simp only [Bool.and_eq_true, decide_eq_true_eq] at hname hfound
                exact ⟨b, List.mem_of_find?_eq_some hb, hname.2.trans hfound.2.symm,
                  hname.1.trans hfound.1.symm, .inr (.inr (.inr ⟨hfound.2, hcompact⟩))⟩
            · exact ⟨a, ha, .refl a⟩
        · exact .of_subset List.filter_sublist.subset
  have hdefaults : StemFrom h.attributes (dropDefaults outer h).attributes :=
    .of_subset List.filter_sublist.subset
  exact (hdefaults.trans hrounded).trans hcompact

/-- A head with the base name of another one, and with attributes that stem from its own. -/
structure HeadStems (h h' : Head) : Prop where
  base : h'.name.base = h.name.base
  attributes : StemFrom h.attributes h'.attributes

/-- Nodes each of whose heads stems from one of given nodes. -/
def AllStem (nodes nodes' : List Node) : Prop :=
  ∀ h' ∈ Node.allHeads nodes', ∃ h ∈ Node.allHeads nodes, HeadStems h h'

theorem HeadStems.refl (h : Head) : HeadStems h h := ⟨rfl, .of_subset fun _ ha => ha⟩

theorem HeadStems.trans {h h' h'' : Head} (hs : HeadStems h h') (hs' : HeadStems h' h'')
    : HeadStems h h'' :=
  ⟨hs'.base.trans hs.base, hs.attributes.trans hs'.attributes⟩

theorem HeadStems.of_same {h h' : Head} (hs : h.Same h') : HeadStems h h' :=
  ⟨hs.name.base, .of_forall₂ (hs.attributes.imp fun _ _ => .of_same)⟩

theorem AllStem.refl (nodes : List Node) : AllStem nodes nodes := fun h hh => ⟨h, hh, .refl h⟩

theorem AllStem.trans {nodes nodes' nodes'' : List Node} (h : AllStem nodes nodes')
    (h' : AllStem nodes' nodes'')
    : AllStem nodes nodes'' := by
  intro head'' hhead''
  obtain ⟨head', hhead', hstems'⟩ := h' head'' hhead''
  obtain ⟨head, hhead, hstems⟩ := h head' hhead'
  exact ⟨head, hhead, hstems.trans hstems'⟩

theorem AllStem.of_alike {R : Head → Head → Prop} {nodes nodes' : List Node}
    (h : Alike R nodes nodes') (hR : ∀ h h', R h h' → HeadStems h h')
    : AllStem nodes nodes' := by
  intro h' hh'
  obtain ⟨head, hhead, hrel⟩ := exists_mem_left_of_forall₂ h.heads hh'
  exact ⟨head, hhead, hR _ _ hrel⟩

/-- The attributes of the elements in nodes. -/
def attributesIn (nodes : List Node) : List Attribute :=
  (Node.allHeads nodes).flatMap (·.attributes)

theorem mem_attributesIn {nodes : List Node} {a : Attribute}
    : a ∈ attributesIn nodes ↔ ∃ h ∈ Node.allHeads nodes, a ∈ h.attributes :=
  List.mem_flatMap

theorem AllStem.attributes {nodes nodes' : List Node} (h : AllStem nodes nodes')
    : StemFrom (attributesIn nodes) (attributesIn nodes') := by
  intro a' ha'
  obtain ⟨h', hh', ha'⟩ := mem_attributesIn.mp ha'
  obtain ⟨head, hhead, hstems⟩ := h h' hh'
  obtain ⟨a, ha, hbecomes⟩ := hstems.attributes a' ha'
  exact ⟨a, mem_attributesIn.mpr ⟨head, hhead, ha⟩, hbecomes⟩

/-- Collapsing containers moves elements or removes them, by induction over what is collapsed. -/
theorem exists_same_of_collapsed {nodes left : List Node} (h : Collapsed nodes left) {head : Head}
    (hhead : head ∈ Node.allHeads left)
    : ∃ before ∈ Node.allHeads nodes, before.Same head := by
  induction h generalizing head with
  | nil => simp at hhead
  | keep h _ _ inside behind =>
      rw [Node.allHeads_element, List.mem_cons, List.mem_append] at hhead
      simp only [Node.allHeads_element, List.mem_cons, List.mem_append]
      rcases hhead with rfl | hhead | hhead
      · exact ⟨head, .inl rfl, .refl head⟩
      · obtain ⟨before, hbefore, hsame⟩ := inside hhead
        exact ⟨before, .inr (.inl hbefore), hsame⟩
      · obtain ⟨before, hbefore, hsame⟩ := behind hhead
        exact ⟨before, .inr (.inr hbefore), hsame⟩
  | drop h content _ behind =>
      rw [allHeads_dropText] at hhead
      obtain ⟨before, hbefore, hsame⟩ := behind hhead
      exact ⟨before, by simp [hbefore], hsame⟩
  | unwrap h _ adapted _ inside behind =>
      rw [Node.allHeads_append, allHeads_dropText, List.mem_append] at hhead
      simp only [Node.allHeads_element, List.mem_cons, List.mem_append]
      rcases hhead with hhead | hhead
      · obtain ⟨moved, hmoved, hsame⟩ := exists_mem_left_of_forall₂ adapted.heads hhead
        rw [allHeads_dropText] at hmoved
        obtain ⟨before, hbefore, hsame'⟩ := inside hmoved
        exact ⟨before, .inr (.inl hbefore), hsame'.trans hsame⟩
      · obtain ⟨before, hbefore, hsame⟩ := behind hhead
        exact ⟨before, .inr (.inr hbefore), hsame⟩
  | text s _ ih =>
      rw [Node.allHeads_text] at hhead ⊢
      exact ih hhead
  | entity name _ ih =>
      rw [Node.allHeads_entity] at hhead ⊢
      exact ih hhead

/-- A step that takes things out adds no head. -/
theorem Trims.allStem {d d' : Document} (h : Trims d d')
    : AllStem d.root.forest d'.root.forest := by
  obtain ⟨left, hpruned, halike, -⟩ := h
  intro h' hh'
  obtain ⟨head, hhead, _, hsub, rfl⟩ := exists_mem_left_of_forall₂ halike.heads hh'
  exact ⟨head, hpruned.heads.subset hhead, rfl, .of_subset hsub.subset⟩

theorem allStem_collapseGroups {made : List Binding} {d : Document} (hd : d.Sound made)
    : AllStem d.root.forest (collapseGroups d).root.forest := by
  obtain ⟨hroot, hcontent, -⟩ := Node.AllSound.element_iff.mp hd.tree
  obtain ⟨-, -, -, -, hcollapsed, -⟩ := collapseNodes_spec (.cons hroot.mem_made .nil)
    hd.ledger hcontent
  intro h' hh'
  obtain ⟨h, hh, hsame⟩ :=
    exists_same_of_collapsed (Collapsed.keep d.root.head hcollapsed .nil) hh'
  exact ⟨h, hh, .of_same hsame⟩

/-- Each head that there is after a pass stems from one that there was when references were
collected.
-/
theorem allStem_of_pass {made : List Binding} {precision : Int} {d d' : Document}
    (hd : d.Sound made) (h : pass precision d = .ok d')
    : AllStem (dropVersion (removeEditorContent d)).root.forest d'.root.forest := by
  obtain ⟨root, labelled, more, hshort, hrelabels, hlabelled, hundeclares⟩ := stages_of_pass hd h
  generalize dropVersion (removeEditorContent d) = cleaned at *
  have hids := (trims_removeUnusedIds cleaned).allStem
  have hshortened : AllStem (removeUnusedIds cleaned).root.forest root.forest :=
    .of_alike hshort fun _ _ hhead => hhead.elim fun _ heq =>
      ⟨by rw [(reduces_of_shortenHead heq).name], stemFrom_shortenHead heq⟩
  have hrelabelled : AllStem root.forest labelled.root.forest :=
    .of_alike hrelabels fun _ _ hr =>
      ⟨by rw [hr.name], .of_forall₂ (hr.attributes.imp fun _ _ => .of_same)⟩
  have hcollapsed := allStem_collapseGroups hlabelled
  have hundeclared : AllStem (collapseGroups labelled).root.forest d'.root.forest :=
    .of_alike hundeclares fun h h' hhead => by
      obtain ⟨p, rfl, -⟩ := hhead
      exact ⟨rfl, .of_subset fun _ ha => ha⟩
  exact (((hids.trans hshortened).trans hrelabelled).trans hcollapsed).trans hundeclared

/-- References are collected from heads that there were before the pass. -/
theorem allStem_cleaned (d : Document)
    : AllStem d.root.forest (dropVersion (removeEditorContent d)).root.forest :=
  (trims_removeEditorContent d).allStem.trans (trims_dropVersion _).allStem

/-- Each head that there is after passes stems from one before them, by induction over their
number.
-/
theorem allStem_of_passes {made : List Binding} {precision : Int} {count : Nat}
    {d d' : Document} (hd : d.Sound made) (h : passes precision count d = .ok d')
    : AllStem d.root.forest d'.root.forest := by
  induction count generalizing made d with
  | zero =>
      cases h
      exact .refl _
  | succ count ih =>
      rw [passes] at h
      cases hpass : pass precision d with
      | error e =>
          rw [hpass] at h
          cases h
      | ok next =>
          rw [hpass] at h
          obtain ⟨made', -, hnext, -⟩ := steps_of_pass hd hpass
          exact ((allStem_cleaned d).trans (allStem_of_pass hd hpass)).trans (ih hnext h)

-----------------------------------------------------------------------------------------
-- References that stay
-----------------------------------------------------------------------------------------

theorem mem_usedIds {e : Element} {x : Text}
    : x ∈ usedIds e ↔ ∃ a ∈ attributesIn e.forest, x ∈ attributeReferences a := by
  rw [usedIds, Element.heads_eq, ← List.flatMap_assoc]
  exact List.mem_flatMap

/-- A style that has no references but those that its compact form has. -/
def KeepsReferences (style : Text) : Prop :=
  IsUncut style ∨ compactStyle? style = some style

/-- The styles in nodes keep their references. -/
def AllKeepReferences (nodes : List Node) : Prop :=
  ∀ a ∈ attributesIn nodes, a.name.base = ("style" : Text) → KeepsReferences a.value

theorem style_not_numeric : isNumeric "style" = false ∧ isPathData "style" = false := by
  with_unfolding_all decide

/-- A style keeps its references in what it becomes. -/
theorem KeepsReferences.of_becomes {a a' : Attribute} (h : KeepsReferences a.value)
    (hbecomes : Becomes a a') (hbase : a.name.base = ("style" : Text))
    : KeepsReferences a'.value := by
  have hvalue := hbecomes.value
  rw [hbase, style_not_numeric.1, style_not_numeric.2] at hvalue
  rcases hvalue with hn | hp | hv | ⟨-, hv⟩
  · cases hn
  · cases hp
  · rwa [hv.1]
  · exact .inr (compactStyle?_again hv)

/-- What refers to an identifier after passes did so before, numbers apart. -/
theorem Becomes.attributeReferences_subset {a a' : Attribute} (h : Becomes a a')
    (hnumeric : isNumeric a.name.base = false) (hpath : isPathData a.name.base = false)
    (hstyle : a.name.base = ("style" : Text) → KeepsReferences a.value ∧ IsUncut a'.value)
    : attributeReferences a' ⊆ attributeReferences a := by
  have hsame (hv : a'.value = a.value) : attributeReferences a' ⊆ attributeReferences a := by
    rw [attributeReferences, attributeReferences, h.base, hv]
    exact fun _ hx => hx
  rcases h.value with hn | hp | hv | ⟨hs, hv⟩
  · rw [hnumeric] at hn
    cases hn
  · rw [hpath] at hp
    cases hp
  · exact hsame hv.1
  · obtain ⟨huncut | hcompact, huncut'⟩ := hstyle hs
    · have hnone (b : Attribute) (hb : b.name.base = ("style" : Text))
          : attributeReferences b = urlReferences b.value := by
        have hnames : ("style" : Text) ≠ "href" ∧ ("style" : Text) ≠ "aria-labelledby"
            ∧ ("style" : Text) ≠ "aria-describedby" := by
          with_unfolding_all decide
        simp [attributeReferences, hb, hnames, urlReferences]
      rw [hnone a hs, hnone a' (h.base.trans hs)]
      exact urlReferences_compactStyle? hv huncut huncut'
    · rw [hcompact, Option.some.injEq] at hv
      exact hsame hv.symm

theorem AllKeepReferences.of_stemFrom {nodes nodes' : List Node} (h : AllKeepReferences nodes)
    (hstems : StemFrom (attributesIn nodes) (attributesIn nodes'))
    : AllKeepReferences nodes' := by
  intro a' ha' hbase
  obtain ⟨a, ha, hbecomes⟩ := hstems a' ha'
  rw [hbecomes.base] at hbase
  exact (h a ha hbase).of_becomes hbecomes hbase

/-- An identifier to which an attribute refers after passes stays through them, by induction
over their number: the attribute stems from one that refers to it in each pass.
-/
theorem HasId.of_passes {made : List Binding} {precision : Int} {count : Nat} {d d' : Document}
    {x : Text} {a : Attribute} (hid : HasId d.root x) (hd : d.Sound made)
    (h : passes precision count d = .ok d') (ha : a ∈ attributesIn d'.root.forest)
    (hx : x ∈ attributeReferences a) (hnumeric : isNumeric a.name.base = false)
    (hpath : isPathData a.name.base = false)
    (hstyle : a.name.base = ("style" : Text) →
      AllKeepReferences d.root.forest ∧ IsUncut a.value)
    : HasId d'.root x := by
  induction count generalizing made d with
  | zero =>
      cases h
      exact hid
  | succ count ih =>
      rw [passes] at h
      cases hpass : pass precision d with
      | error e =>
          rw [hpass] at h
          cases h
      | ok next =>
          rw [hpass] at h
          obtain ⟨made', -, hnext, -⟩ := steps_of_pass hd hpass
          have hcleaned := (allStem_cleaned d).attributes
          have hstems := (allStem_of_pass hd hpass).attributes
          obtain ⟨a₀, ha₀, hbecomes⟩ := hstems.trans (allStem_of_passes hnext h).attributes a ha
          have hreferences := hbecomes.attributeReferences_subset (hbecomes.base ▸ hnumeric)
            (hbecomes.base ▸ hpath) fun hbase => by
              obtain ⟨hkeep, huncut⟩ := hstyle (hbecomes.base.trans hbase)
              exact ⟨hkeep.of_stemFrom hcleaned a₀ ha₀ hbase, huncut⟩
          have hused := mem_usedIds.mpr ⟨a₀, ha₀, hreferences hx⟩
          refine ih (hid.of_pass hd hpass (.inr hused)) hnext h fun hbase => ?_
          obtain ⟨hkeep, huncut⟩ := hstyle hbase
          exact ⟨hkeep.of_stemFrom (hcleaned.trans hstems), huncut⟩

-----------------------------------------------------------------------------------------
-- Runs
-----------------------------------------------------------------------------------------

/-- The reference of an attribute to an identifier is one that the collection of references and
the rewriting of attributes treat as such.
-/
structure IsPlainReference (e : Element) (x : Text) (a : Attribute) : Prop where
  /-- The attribute holds no numbers, which are rounded. -/
  numeric : isNumeric a.name.base = false
  path : isPathData a.name.base = false
  /-- A link has a target that begins with a letter of ASCII or an underscore and goes on with
  word characters, full stops, colons and hyphens.
  -/
  target : a.name.base = ("href" : Text) → isTarget x
  /-- No name in a `url` reference holds a parenthesis, and with it perhaps another reference. -/
  apart : ∀ name ∈ urlReferences a.value, '(' ∉ name
  /-- In a style, and in the styles of the tree to be minified, no name in a `url` reference
  holds a separator of declarations.
  -/
  style : a.name.base = ("style" : Text) → IsUncut a.value
    ∧ ∀ b ∈ attributesIn e.forest, b.name.base = ("style" : Text) → IsUncut b.value

theorem mem_attributeReferences_of_refers {e : Element} {x : Text} {a : Attribute}
    (hrefers : Refers x a) (hplain : IsPlainReference e x a) (hne : x ≠ [])
    (hchars : ∀ c ∈ x, isUrlChar c)
    : x ∈ attributeReferences a := by
  rw [attributeReferences, List.mem_append]
  cases hrefers with
  | url before behind hvalue =>
      have happart := hplain.apart
      rw [hvalue] at happart
      refine .inl ?_
      rw [hvalue]
      exact mem_urlReferences hne hchars happart
  | link hbase hvalue =>
      refine .inr ?_
      rw [if_pos hbase, linkTarget?_of_trim hvalue (hplain.target hbase)]
      exact List.mem_singleton_self x
  | label hbase hword =>
      have hlink : ("aria-labelledby" : Text) ≠ "href" ∧ ("aria-describedby" : Text) ≠ "href" := by
        with_unfolding_all decide
      refine .inr ?_
      rcases hbase with hbase | hbase
      · rw [hbase, if_neg hlink.1, if_pos (by simp)]
        exact hword
      · rw [hbase, if_neg hlink.2, if_pos (by simp)]
        exact hword

/-- Minification makes no plain reference dangle: what the minified document refers to by one is
still the identifier of an element there, if it was one before, outside of content for drawing
programs.
-/
theorem exists_id_of_refers {multipass : Bool} {precision : Int} {s x : Text} {d : Document}
    {f : Finish} {head : Head} {a : Attribute} (hread : readDocument s = .ok d)
    (h : finish multipass precision s = .ok f) (hne : x ≠ []) (hchars : ∀ c ∈ x, isUrlChar c)
    (hid : HasId d.root x) (hhead : head ∈ f.document.root.heads) (ha : a ∈ head.attributes)
    (hrefers : Refers x a) (hplain : IsPlainReference d.root x a)
    : run multipass precision s = .ok ⟨f.document.root.write, f.passes⟩
      ∧ ∃ head ∈ f.document.root.heads, head.get? "id" = some x := by
  have hrun : run multipass precision s = .ok f.outcome := by
    rw [run, h]
    rfl
  unfold finish at h
  rw [hread] at h
  obtain ⟨made, hd⟩ := sound_of_ofText? (readDocument_eq_ok.mp hread).2.1
  obtain ⟨-, hwrite⟩ := steps_of_runPasses hd rfl h
  obtain ⟨n, -, hpasses⟩ := passes_of_runPasses h
  rw [Element.heads_eq] at hhead
  refine ⟨by rw [hrun, Finish.outcome, hwrite], HasId.exists_mem_heads ?_⟩
  exact hid.of_passes hd hpasses (mem_attributesIn.mpr ⟨head, hhead, ha⟩)
    (mem_attributeReferences_of_refers hrefers hplain hne hchars) hplain.numeric hplain.path
    fun hbase => ⟨fun b hb hstyle => .inl ((hplain.style hbase).2 b hb hstyle),
      (hplain.style hbase).1⟩

/-- A definition in a group, used by a style that gets shorter. -/
def sampleReference : Text :=
  "<svg><metadata><a id=\"m\"/></metadata><defs><g><b id=\"i\"/></g><c id=\"m\"/></defs>"
    ++ "<h style=\" fill : url(#i) ; \"/></svg>"

theorem exists_id_of_refers_sampleReference
    : ∃ d f head a, readDocument sampleReference = .ok d ∧ finish true 3 sampleReference = .ok f
      ∧ f.text = ("<svg><defs><b id=\"i\"/></defs><h style=\"fill:url(#i)\"/></svg>" : Text)
      ∧ HasId d.root "i" ∧ head ∈ f.document.root.heads ∧ a ∈ head.attributes
      ∧ Refers "i" a ∧ IsPlainReference d.root "i" a
      ∧ ∃ head ∈ f.document.root.heads, head.get? "id" = some ("i" : Text) := by
  have hread : (readDocument sampleReference).toOption.map (fun d : Document =>
        decide (HasId d.root "i" ∧ ∀ b ∈ attributesIn d.root.forest,
          b.name.base = ("style" : Text) → IsUncut b.value))
      = some true := by
    decide +kernel
  have hfinish : (finish true 3 sampleReference).toOption.map
        (fun f => (f.text, f.document.root.heads))
      = some (("<svg><defs><b id=\"i\"/></defs><h style=\"fill:url(#i)\"/></svg>" : Text),
        [⟨.plain "svg", [], []⟩, ⟨.plain "defs", [], []⟩,
          ⟨.plain "b", [], [⟨.plain "id", "i", none⟩]⟩,
          ⟨.plain "h", [], [⟨.plain "style", "fill:url(#i)", none⟩]⟩]) := by
    decide +kernel
  cases hd : readDocument sampleReference with
  | error e =>
      rw [hd] at hread
      cases hread
  | ok d =>
      cases hf : finish true 3 sampleReference with
      | error e =>
          rw [hf] at hfinish
          cases hfinish
      | ok f =>
          rw [hd] at hread
          rw [hf] at hfinish
          obtain ⟨hid, hstyles⟩ := of_decide_eq_true (Option.some.inj hread)
          obtain ⟨htext, hheads⟩ := Prod.mk.inj (Option.some.inj hfinish)
          have hhead : (⟨.plain "h", [], [⟨.plain "style", "fill:url(#i)", none⟩]⟩ : Head)
              ∈ f.document.root.heads := by
            rw [hheads]
            simp
          have hrefers : Refers "i" ⟨.plain "style", "fill:url(#i)", none⟩ :=
            .url "fill:" [] (by decide +kernel)
          have hplain : IsPlainReference d.root "i" ⟨.plain "style", "fill:url(#i)", none⟩ :=
            ⟨by decide +kernel, by decide +kernel, by decide +kernel, by decide +kernel,
              fun _ => ⟨by decide +kernel, hstyles⟩⟩
          exact ⟨d, f, _, _, rfl, rfl, htext, hid, hhead, List.mem_cons_self, hrefers, hplain,
            (exists_id_of_refers hd hf (by decide +kernel)
              (List.all_eq_true.mp (by decide +kernel)) hid hhead List.mem_cons_self hrefers
              hplain).2⟩

/-- A link whose target begins with another letter dangles. -/
theorem exists_id_of_refers_wideTarget
    : ∃ d f head a, readDocument "<svg><rect id=\"é\"/><use href=\"#é\"/></svg>" = .ok d
      ∧ finish true 3 "<svg><rect id=\"é\"/><use href=\"#é\"/></svg>" = .ok f
      ∧ f.text = ("<svg><rect/><use href=\"#é\"/></svg>" : Text)
      ∧ HasId d.root "é" ∧ head ∈ f.document.root.heads ∧ a ∈ head.attributes ∧ Refers "é" a
      ∧ ∀ head ∈ f.document.root.heads, head.get? "id" ≠ some ("é" : Text) := by
  have hread : (readDocument "<svg><rect id=\"é\"/><use href=\"#é\"/></svg>").toOption.map
      (fun d : Document => decide (HasId d.root "é")) = some true := by
    decide +kernel
  have hfinish : (finish true 3 "<svg><rect id=\"é\"/><use href=\"#é\"/></svg>").toOption.map
        (fun f => (f.text, f.document.root.heads))
      = some (("<svg><rect/><use href=\"#é\"/></svg>" : Text),
        [⟨.plain "svg", [], []⟩, ⟨.plain "rect", [], []⟩,
          ⟨.plain "use", [], [⟨.plain "href", "#é", none⟩]⟩]) := by
    decide +kernel
  cases hd : readDocument "<svg><rect id=\"é\"/><use href=\"#é\"/></svg>" with
  | error e =>
      rw [hd] at hread
      cases hread
  | ok d =>
      cases hf : finish true 3 "<svg><rect id=\"é\"/><use href=\"#é\"/></svg>" with
      | error e =>
          rw [hf] at hfinish
          cases hfinish
      | ok f =>
          rw [hd] at hread
          rw [hf] at hfinish
          obtain ⟨htext, hheads⟩ := Prod.mk.inj (Option.some.inj hfinish)
          refine ⟨d, f, ⟨.plain "use", [], [⟨.plain "href", "#é", none⟩]⟩, _, rfl, rfl, htext,
            of_decide_eq_true (Option.some.inj hread), ?_, List.mem_cons_self,
            .link (by decide +kernel) (by decide +kernel), ?_⟩
          · rw [hheads]
            simp
          · rw [hheads]
            decide +kernel

end SvgKit.Minify
