import SvgKit.Proofs.Minify.FixedPoint

/-! The normal form of minified documents. A document that a pass leaves as it is has nothing in
it that any step of a pass would take out, shorten or collapse.
-/

namespace SvgKit.Minify

open Xml

-----------------------------------------------------------------------------------------
-- Places
-----------------------------------------------------------------------------------------

/-- An element where it stands: the heads of the elements around it, the innermost first, its
head and its content, and the nodes directly behind it.
-/
structure Place where
  outer : List Head
  head : Head
  content : List Node
  behind : List Node

/-- The places of the elements in a forest below outer elements, in document order. -/
def places (outer : List Head) : List Node → List Place
  | [] => []
  | .element h content :: nodes =>
    ⟨outer, h, content, nodes⟩ :: (places (h :: outer) content ++ places outer nodes)
  | .text _ :: nodes => places outer nodes
  | .entity _ :: nodes => places outer nodes

@[simp]
theorem places_nil (outer : List Head) : places outer [] = [] := by
  rw [places]

@[simp]
theorem places_element (outer : List Head) (h : Head) (content nodes : List Node)
    : places outer (.element h content :: nodes)
      = ⟨outer, h, content, nodes⟩ :: (places (h :: outer) content ++ places outer nodes) := by
  rw [places]

@[simp]
theorem places_text (outer : List Head) (s : Text) (nodes : List Node)
    : places outer (.text s :: nodes) = places outer nodes := by
  rw [places]

@[simp]
theorem places_entity (outer : List Head) (name : Text) (nodes : List Node)
    : places outer (.entity name :: nodes) = places outer nodes := by
  rw [places]

/-- What a forest below outer elements has in all places is what each element has, and what the
forests inside and behind it have.
-/
theorem forall_mem_places_element {P : Place → Prop} {outer : List Head} {h : Head}
    {content nodes : List Node}
    : (∀ p ∈ places outer (.element h content :: nodes), P p)
      ↔ P ⟨outer, h, content, nodes⟩ ∧ (∀ p ∈ places (h :: outer) content, P p)
        ∧ ∀ p ∈ places outer nodes, P p := by
  rw [places_element, List.forall_mem_cons, List.forall_mem_append]

theorem exists_place_of_mem_heads (outer : List Head) {nodes : List Node} {h : Head}
    (hh : h ∈ Node.allHeads nodes)
    : ∃ p ∈ places outer nodes, p.head = h := by
  induction nodes using Node.forest_induction generalizing outer with
  | nil => simp at hh
  | element head content nodes inside behind =>
      rw [Node.allHeads_element, List.mem_cons, List.mem_append] at hh
      rw [places_element]
      rcases hh with rfl | hh | hh
      · exact ⟨_, List.mem_cons_self, rfl⟩
      · obtain ⟨p, hp, rfl⟩ := inside (head :: outer) hh
        exact ⟨p, List.mem_cons_of_mem _ (List.mem_append_left _ hp), rfl⟩
      · obtain ⟨p, hp, rfl⟩ := behind outer hh
        exact ⟨p, List.mem_cons_of_mem _ (List.mem_append_right _ hp), rfl⟩
  | text s nodes ih => simpa using ih outer (by simpa using hh)
  | entity name nodes ih => simpa using ih outer (by simpa using hh)

theorem head_mem_of_mem_places {outer : List Head} {nodes : List Node} {p : Place}
    (hp : p ∈ places outer nodes)
    : p.head ∈ Node.allHeads nodes := by
  induction nodes using Node.forest_induction generalizing outer with
  | nil => simp at hp
  | element head content nodes inside behind =>
      rw [Node.allHeads_element, List.mem_cons, List.mem_append]
      rw [places_element, List.mem_cons, List.mem_append] at hp
      rcases hp with rfl | hp | hp
      · exact .inl rfl
      · exact .inr (.inl (inside hp))
      · exact .inr (.inr (behind hp))
  | text s nodes ih =>
      rw [Node.allHeads_text]
      exact ih (places_text outer s nodes ▸ hp)
  | entity name nodes ih =>
      rw [Node.allHeads_entity]
      exact ih (places_entity outer name nodes ▸ hp)

-----------------------------------------------------------------------------------------
-- The normal form
-----------------------------------------------------------------------------------------

/-- A tree in which a pass finds nothing to do. -/
structure IsNormal (precision : Int) (e : Element) : Prop where
  /-- No element below the root is there for drawing programs. -/
  elements : ∀ h ∈ Node.allHeads e.content, isEditorElement h = false
  /-- No attribute is there for drawing programs. -/
  attributes : ∀ h ∈ e.heads, ∀ a ∈ h.attributes, isEditorName a.name = false
  version : e.head.get? "version" = none
  /-- Below the root, every identifier is one that an attribute refers to. -/
  ids : isIdSensitive e = false →
    ∀ h ∈ Node.allHeads e.content, ∀ id, h.get? "id" = some id → id ∈ usedIds e
  /-- Every definition has an identifier on it or in it that an attribute refers to. -/
  definitions : isIdSensitive e = false →
    ∀ p ∈ places [] e.forest, isDefs p.head →
      ∀ child ∈ p.content, child.isText = false → holdsUsedId (usedIds e) child
  /-- A property that is set to its default is set by an outer element as well. -/
  defaults : ∀ p ∈ places [] e.forest, ∀ a ∈ p.head.attributes, a.name.binding = none →
    presentationDefaults.lookup a.name.base = some a.value →
      ∃ h ∈ p.outer, setsProperty a.name.base h
  /-- Path data and numbers are as short as rounding makes them. -/
  paths : ∀ h ∈ e.heads, ∀ a ∈ h.attributes, isPathData a.name.base →
    compactPath precision a.value = .ok a.value
  numbers : ∀ h ∈ e.heads, ∀ a ∈ h.attributes, isNumeric a.name.base →
    compactNumbers precision a.value = .ok a.value
  styles : ∀ h ∈ e.heads, ∀ style, h.get? "style" = some style →
    compactStyle? style = some style
  /-- A container below the root without text behind it holds something or has an identifier,
  and is not a group that says nothing.
  -/
  containers : ∀ p ∈ places [e.head] e.content, containerNames.contains p.head.name.base →
    beginsBlank p.behind →
      isEmptyContainer p.head p.content = false ∧ isBareGroup p.head p.content = false

-----------------------------------------------------------------------------------------
-- Editor content
-----------------------------------------------------------------------------------------

/-- No element that is left satisfies a condition on which elements are pruned, by induction
over the forest.
-/
theorem not_of_mem_pruneNodes {p : Head → Bool} {parent : Head} {gone : Bool}
    {nodes : List Node}
    : ∀ h ∈ Node.allHeads (pruneNodes (fun _ h => p h) parent gone nodes), p h = false := by
  induction nodes using Node.forest_induction generalizing parent gone with
  | nil => simp [pruneNodes]
  | element head content nodes inside behind =>
      rw [pruneNodes_element]
      split
      · exact behind
      · next hp =>
          rw [Node.allHeads_element, List.forall_mem_cons, List.forall_mem_append]
          exact ⟨Bool.eq_false_iff.mpr hp, inside, behind⟩
  | text s nodes ih =>
      rw [pruneNodes]
      split
      · exact ih
      · simpa using ih
  | entity name nodes ih =>
      rw [pruneNodes]
      simpa using ih

/-- Nothing for drawing programs is left where their content is removed. -/
theorem removeEditorContent_clean (d : Document)
    : (∀ h ∈ Node.allHeads (removeEditorContent d).root.content, isEditorElement h = false)
      ∧ ∀ h ∈ (removeEditorContent d).root.heads, ∀ a ∈ h.attributes,
        isEditorName a.name = false := by
  have hattributes (h : Head) : ∀ a ∈ (dropEditorAttributes h).attributes,
      isEditorName a.name = false := by
    intro a ha
    simpa using (List.mem_filter.mp ha).2
  unfold removeEditorContent
  refine ⟨fun h hh => ?_, fun h hh => ?_⟩
  · dsimp only [Element.mapHeads] at hh
    rw [Node.allHeads_mapAllHeads] at hh
    obtain ⟨before, hbefore, rfl⟩ := List.mem_map.mp hh
    exact not_of_mem_pruneNodes before hbefore
  · dsimp only [Element.mapHeads, Element.heads] at hh
    rw [Node.allHeads_mapAllHeads, List.mem_cons] at hh
    rcases hh with rfl | hh
    · exact hattributes _
    · obtain ⟨before, -, rfl⟩ := List.mem_map.mp hh
      exact hattributes before

-----------------------------------------------------------------------------------------
-- Identifiers
-----------------------------------------------------------------------------------------

@[simp]
theorem get?_erase (h : Head) (name : Text) : (h.erase name).get? name = none := by
  rw [Head.get?, Option.map_eq_none_iff, List.find?_eq_none]
  intro a ha hnamed
  have hkept := (List.mem_filter.mp ha).2
  rw [hnamed] at hkept
  cases hkept

theorem get?_set {h : Head} {name old : Text} (hold : h.get? name = some old) (value : Text)
    : (h.set name value).get? name = some value := by
  unfold Head.get? Head.set at *
  obtain ⟨a, ha, -⟩ := Option.map_eq_some_iff.mp hold
  rw [List.find?_map]
  have hnamed (b : Attribute)
      : ((fun a : Attribute => a.name.binding.isNone && decide (a.name.base = name)) ∘ fun a =>
          if a.name.binding.isNone && a.name.base = name then ⟨a.name, value, none⟩ else a) b
        = (b.name.binding.isNone && decide (b.name.base = name)) := by
    rw [Function.comp_apply]
    split <;> rfl
  rw [funext hnamed, ha]
  have hfound := List.find?_some ha
  simp only [Option.map_some, hfound, ↓reduceIte]

theorem mem_of_get?_dropUnusedId {used : List Text} {h : Head} {id : Text}
    (hid : (dropUnusedId used h).get? "id" = some id)
    : id ∈ used := by
  unfold dropUnusedId at hid
  split at hid
  · next hnone =>
      rw [hnone] at hid
      cases hid
  · next found hfound =>
      split at hid
      · next hused =>
          rw [hfound] at hid
          cases hid
          simpa using hused
      · rw [get?_erase] at hid
        cases hid

/-- Every identifier that is left below the root is a used one. -/
theorem mem_usedIds_of_removeUnusedIds {d : Document} (hd : isIdSensitive d.root = false)
    : ∀ h ∈ Node.allHeads (removeUnusedIds d).root.content, ∀ id, h.get? "id" = some id →
      id ∈ usedIds d.root := by
  intro h hh id hid
  rw [removeUnusedIds, hd] at hh
  rw [if_neg Bool.false_ne_true, Node.allHeads_mapAllHeads] at hh
  obtain ⟨before, -, rfl⟩ := List.mem_map.mp hh
  exact mem_of_get?_dropUnusedId hid

/-- Where pruning leaves definitions as they are, each of them holds a used identifier, by
induction over the forest.
-/
theorem holdsUsedId_of_pruneAllDefs {used : List Text} {inDefs : Bool} {nodes : List Node}
    (h : pruneAllDefs used inDefs false nodes = nodes) (outer : List Head)
    : (inDefs → ∀ node ∈ nodes, node.isText = false → holdsUsedId used node)
      ∧ ∀ p ∈ places outer nodes, isDefs p.head →
        ∀ child ∈ p.content, child.isText = false → holdsUsedId used child := by
  induction nodes using Node.forest_induction generalizing inDefs outer with
  | nil => simp
  | element head content nodes inside behind =>
      rw [pruneAllDefs_element] at h
      split at h
      · have := (pruned_pruneAllDefs used inDefs true nodes).length_le
        rw [h, List.length_cons] at this
        omega
      · next hkept =>
          rw [List.cons.injEq, Node.element.injEq] at h
          obtain ⟨hchildren, hinside⟩ := inside h.1.2 (head :: outer)
          obtain ⟨hsiblings, hbehind⟩ := behind h.2 outer
          refine ⟨fun hdefs => List.forall_mem_cons.mpr ⟨fun _ => ?_, hsiblings hdefs⟩,
            forall_mem_places_element.mpr ⟨hchildren, hinside, hbehind⟩⟩
          simpa [hdefs] using hkept
  | text s nodes ih =>
      rw [places_text]
      rw [pruneAllDefs] at h
      obtain ⟨hsiblings, hbehind⟩ := ih (List.cons.inj h).2 outer
      refine ⟨fun hdefs => List.forall_mem_cons.mpr ⟨fun hs => ?_, hsiblings hdefs⟩, hbehind⟩
      simp [Node.isText] at hs
  | entity name nodes ih =>
      rw [places_entity]
      rw [pruneAllDefs_entity] at h
      split at h
      · have := (pruned_pruneAllDefs used inDefs true nodes).length_le
        rw [h, List.length_cons] at this
        omega
      · next hdefs =>
          obtain ⟨-, hbehind⟩ := ih (List.cons.inj h).2 outer
          exact ⟨fun hdefs' => absurd hdefs' hdefs, hbehind⟩

/-- Where no identifier and no definition is removed, each definition holds a used identifier. -/
theorem holdsUsedId_of_removeUnusedIds {d : Document} (h : removeUnusedIds d = d)
    (hd : isIdSensitive d.root = false)
    : ∀ p ∈ places [] d.root.forest, isDefs p.head →
      ∀ child ∈ p.content, child.isText = false → holdsUsedId (usedIds d.root) child := by
  have hcontent : Node.mapAllHeads (dropUnusedId (usedIds d.root))
      (pruneAllDefs (usedIds d.root) (isDefs d.root.head) false d.root.content)
      = d.root.content := by
    have := congrArg (fun d => d.root.content) h
    rwa [removeUnusedIds, hd, if_neg Bool.false_ne_true] at this
  have hweight := congrArg Node.weight hcontent
  rw [(Alike.mapAllHeads _ _).weight_eq] at hweight
  have hpruned := (pruned_pruneAllDefs (usedIds d.root) (isDefs d.root.head) false
    d.root.content).eq_of_weight_eq rfl hweight
  obtain ⟨hchildren, hplaces⟩ := holdsUsedId_of_pruneAllDefs hpruned [d.root.head]
  exact forall_mem_places_element.mpr ⟨hchildren, hplaces, by simp⟩

-----------------------------------------------------------------------------------------
-- Attributes
-----------------------------------------------------------------------------------------

/-- Where shortening leaves a forest as it is, it leaves each head as it is, by induction over
the forest.
-/
theorem shortenHead_of_shortenNodes {precision : Int} {outer : List Head} {nodes : List Node}
    (h : shortenNodes precision outer nodes = .ok nodes)
    : ∀ p ∈ places outer nodes, shortenHead precision p.outer p.head = .ok p.head := by
  induction nodes using Node.forest_induction generalizing outer with
  | nil => simp
  | element head content nodes inside behind =>
      obtain ⟨head', content', nodes', hhead, hinside, hbehind, heq⟩ := shortenNodes_element.mp h
      rw [List.cons.injEq, Node.element.injEq] at heq
      obtain ⟨⟨rfl, rfl⟩, rfl⟩ := heq
      exact forall_mem_places_element.mpr ⟨hhead, inside hinside, behind hbehind⟩
  | text s nodes ih =>
      obtain ⟨nodes', hbehind, heq⟩ := shortenNodes_text.mp h
      obtain ⟨-, rfl⟩ := List.cons.inj heq
      simpa using ih hbehind
  | entity name nodes ih =>
      obtain ⟨nodes', hbehind, heq⟩ := shortenNodes_entity.mp h
      obtain ⟨-, rfl⟩ := List.cons.inj heq
      simpa using ih hbehind

/-- A compact style stands in the place of the one that was there. -/
theorem compactStyle_attributes {h : Head}
    (hlength : h.attributes.length ≤ (compactStyle h).attributes.length)
    : List.Forall₂
        (fun a a' => a' = a ∨ a.name.binding.isNone ∧ a.name.base = ("style" : Text))
        h.attributes (compactStyle h).attributes := by
  have hrefl : List.Forall₂
      (fun a a' : Attribute => a' = a ∨ a.name.binding.isNone ∧ a.name.base = ("style" : Text))
      h.attributes h.attributes :=
    List.forall₂_same.mpr fun a _ => .inl rfl
  unfold compactStyle at hlength ⊢
  split at hlength
  · exact hrefl
  · split at hlength
    · rw [Head.set, List.forall₂_map_right_iff, List.forall₂_same]
      intro a _
      by_cases hstyle : a.name.binding.isNone && a.name.base = ("style" : Text)
      · exact .inr (by simpa using hstyle)
      · exact .inl (if_neg hstyle)
    · have hkept : (h.erase "style").attributes = h.attributes :=
        List.filter_sublist.eq_of_length_le hlength
      rw [hkept]
      exact hrefl

theorem roundAttribute_style (precision : Int) {a : Attribute}
    (ha : a.name.base = ("style" : Text))
    : roundAttribute precision a = .ok a := by
  have hpath : isPathData "style" = false := by with_unfolding_all decide
  have hnumeric : isNumeric "style" = false := by with_unfolding_all decide
  rw [roundAttribute, ha, hpath, hnumeric]
  rfl

/-- A head that shortening leaves as it is is left so by each part of it: no attribute goes, for
none would come back, and a new value is made by one part at most.
-/
theorem shortenHead_eq_self {precision : Int} {outer : List Head} {h : Head}
    (hshort : shortenHead precision outer h = .ok h)
    : dropDefaults outer h = h ∧ (∀ a ∈ h.attributes, roundAttribute precision a = .ok a)
      ∧ compactStyle h = h := by
  unfold shortenHead at hshort
  cases hround : roundNumbers precision (dropDefaults outer h) with
  | error e =>
      rw [hround] at hshort
      cases hshort
  | ok rounded =>
      rw [hround] at hshort
      have hstyle : compactStyle rounded = h := Except.ok.inj hshort
      have hle := (reduces_of_roundNumbers hround).length_le
      have hle' := (reduces_compactStyle rounded).length_le
      rw [hstyle] at hle'
      have hdefaults : dropDefaults outer h = h := by
        have hattributes : (dropDefaults outer h).attributes = h.attributes :=
          List.filter_sublist.eq_of_length_le (Nat.le_trans hle' hle)
        exact (reduces_dropDefaults outer h).eq_of_attributes_eq hattributes
      rw [hdefaults] at hround hle
      have hrounds : List.Forall₂ (fun a b => roundAttribute precision a = .ok b) h.attributes
          rounded.attributes := by
        unfold roundNumbers at hround
        cases hmap : h.attributes.mapM (roundAttribute precision) with
        | error e =>
            rw [hmap] at hround
            cases hround
        | ok attributes =>
            rw [hmap] at hround
            cases hround
            exact forall₂_of_mapM_eq_ok hmap
      have hstyles := compactStyle_attributes (h := rounded) (by rw [hstyle]; exact hle)
      rw [hstyle] at hstyles
      -- a style is not rounded, and what is not a style stays as rounding has made it
      have hsame : rounded.attributes = h.attributes
          ∧ ∀ a ∈ h.attributes, roundAttribute precision a = .ok a := by
        generalize h.attributes = attributes at hrounds hstyles
        generalize rounded.attributes = attributes' at hrounds hstyles
        induction hrounds with
        | nil => simp
        | @cons a a' attributes attributes' hfirst _ ih =>
            cases hstyles with
            | cons hstyle hrest =>
                obtain ⟨heq, hall⟩ := ih hrest
                obtain rfl : a' = a := by
                  rcases hstyle with rfl | ⟨-, hname⟩
                  · rfl
                  · have hbase : a.name.base = ("style" : Text) :=
                      (rewrites_of_roundAttribute hfirst).1.name ▸ hname
                    rw [roundAttribute_style precision hbase] at hfirst
                    exact (Except.ok.inj hfirst).symm
                exact ⟨by rw [heq], List.forall_mem_cons.mpr ⟨hfirst, hall⟩⟩
      obtain rfl : rounded = h :=
        (reduces_of_roundNumbers hround).eq_of_attributes_eq hsame.1
      exact ⟨hdefaults, hsame.2, hstyle⟩

theorem compactPath_of_roundAttribute {precision : Int} {a : Attribute}
    (h : roundAttribute precision a = .ok a) (hpath : isPathData a.name.base)
    : compactPath precision a.value = .ok a.value := by
  rw [roundAttribute, if_pos hpath] at h
  cases hv : compactPath precision a.value with
  | error e =>
      rw [hv] at h
      cases h
  | ok value =>
      rw [hv] at h
      exact congrArg (fun a : Attribute => Except.ok a.value) (Except.ok.inj h)

theorem compactNumbers_of_roundAttribute {precision : Int} {a : Attribute}
    (h : roundAttribute precision a = .ok a) (hnumeric : isNumeric a.name.base)
    : compactNumbers precision a.value = .ok a.value := by
  have hpath : ¬ isPathData a.name.base := by
    intro hpath
    rw [of_decide_eq_true hpath] at hnumeric
    exact absurd hnumeric (by with_unfolding_all decide)
  rw [roundAttribute, if_neg hpath, if_pos hnumeric] at h
  cases hv : compactNumbers precision a.value with
  | error e =>
      rw [hv] at h
      cases h
  | ok value =>
      rw [hv] at h
      exact congrArg (fun a : Attribute => Except.ok a.value) (Except.ok.inj h)

/-- A default that is not dropped is set by an outer element. -/
theorem exists_setsProperty_of_dropDefaults {outer : List Head} {h : Head}
    (heq : dropDefaults outer h = h) {a : Attribute} (ha : a ∈ h.attributes)
    (hplain : a.name.binding = none)
    (hdefault : presentationDefaults.lookup a.name.base = some a.value)
    : ∃ head ∈ outer, setsProperty a.name.base head := by
  rw [← heq] at ha
  have hkept := (List.mem_filter.mp ha).2
  simpa [isRedundant, hplain, hdefault] using hkept

/-- A style that is left as it is is compact. -/
theorem compactStyle?_of_compactStyle {h : Head} (heq : compactStyle h = h) {style : Text}
    (hstyle : h.get? "style" = some style)
    : compactStyle? style = some style := by
  rw [compactStyle, hstyle] at heq
  dsimp only at heq
  split at heq
  · next compact hcompact =>
      have := get?_set hstyle compact
      rw [heq, hstyle] at this
      rw [hcompact, this]
  · rw [← heq, get?_erase] at hstyle
    cases hstyle

-----------------------------------------------------------------------------------------
-- Containers
-----------------------------------------------------------------------------------------

/-- Where collapsing leaves a forest as it is, no container in it would be collapsed, by
induction over the forest.
-/
theorem containers_of_collapseNodes {made : List Binding} {outer : List Head}
    {nodes : List Node} {supply : Supply} (hout : PathSound made outer)
    (hledger : Ledger supply.mark made) (hnodes : Node.AllSound made nodes)
    (h : (collapseNodes outer nodes supply).1 = nodes)
    : ∀ p ∈ places outer nodes, containerNames.contains p.head.name.base →
      beginsBlank p.behind →
        isEmptyContainer p.head p.content = false ∧ isBareGroup p.head p.content = false := by
  induction nodes using Node.forest_induction generalizing made outer supply with
  | nil => simp
  | element head content nodes inside behind =>
      obtain ⟨hhead, hcontent, hnodes⟩ := Node.AllSound.element_iff.mp hnodes
      obtain ⟨made₁, hsub₁, hledger₁, -, hbehind, -⟩ := collapseNodes_spec hout hledger hnodes
      have hout₁ := PathSound.cons (hhead.mono hsub₁).mem_made (hout.mono hsub₁)
      have hcontent₁ := hcontent.mono hsub₁
      obtain ⟨made₂, hsub₂, hledger₂, hinner, hinside, -⟩ :=
        collapseNodes_spec hout₁ hledger₁ hcontent₁
      rw [collapseNodes_eq] at h
      generalize hrest : collapseNodes outer nodes supply = rest at *
      generalize hin : collapseNodes (head :: outer) content rest.2 = inner at *
      have hkept (heq : Node.element head inner.1 :: rest.1 = .element head content :: nodes)
          : (containerNames.contains head.name.base → beginsBlank rest.1 →
              isEmptyContainer head inner.1 = false ∧ isBareGroup head inner.1 = false) →
            ∀ p ∈ places outer (.element head content :: nodes),
              containerNames.contains p.head.name.base → beginsBlank p.behind →
                isEmptyContainer p.head p.content = false
                ∧ isBareGroup p.head p.content = false := by
        rw [List.cons.injEq, Node.element.injEq] at heq
        obtain ⟨⟨-, hc⟩, hr⟩ := heq
        rw [hc, hr]
        intro hhere
        refine forall_mem_places_element.mpr ⟨hhere, ?_, behind hout hledger hnodes ?_⟩
        · exact inside hout₁ hledger₁ hcontent₁ (by rw [hin, hc])
        · rw [hrest, hr]
      split at h
      · next hstays =>
          refine hkept h fun hname hblank => ?_
          rw [hname, hblank] at hstays
          cases hstays
      · split at h
        · exact absurd (congrArg Node.weight h)
            (Nat.ne_of_lt (weight_drop_lt hbehind.weight_le))
        · next hempty =>
            split at h
            · obtain ⟨_, -, -, -, halike⟩ := adaptAll_spec ((hout.mono hsub₁).mono hsub₂)
                hledger₂ (hinner.suffix (dropText_suffix _))
              exact absurd (congrArg Node.weight h) (Nat.ne_of_lt (weight_unwrap_lt
                hinside.weight_le hinside.eq_nil halike hbehind.weight_le))
            · next hbare =>
                exact hkept h fun _ _ =>
                  ⟨Bool.eq_false_iff.mpr hempty, Bool.eq_false_iff.mpr hbare⟩
  | text s nodes ih =>
      rw [places_text]
      rw [collapseNodes_text] at h
      exact ih hout hledger (Node.AllSound.text_iff.mp hnodes).2 (List.cons.inj h).2
  | entity name nodes ih =>
      rw [places_entity]
      rw [collapseNodes_entity] at h
      exact ih hout hledger (Node.AllSound.entity_iff.mp hnodes).2 (List.cons.inj h).2

-----------------------------------------------------------------------------------------
-- Fixed points
-----------------------------------------------------------------------------------------

/-- A document that a pass leaves as it is is in normal form. -/
theorem isNormal_of_pass {made : List Binding} {precision : Int} {d : Document}
    (hd : d.Sound made) (h : pass precision d = .ok d)
    : IsNormal precision d.root := by
  obtain ⟨hsettled, hrelabel⟩ := settled_of_pass hd h rfl
  obtain ⟨helements, hattributes⟩ := removeEditorContent_clean d
  rw [hsettled.editorContent] at helements hattributes
  have hversion : (dropVersion d).root.head.get? "version" = none := get?_erase _ _
  rw [hsettled.version] at hversion
  have hids := mem_usedIds_of_removeUnusedIds (d := d)
  rw [hsettled.ids] at hids
  have hplaces := shortenHead_of_shortenNodes (shortenElement_eq_ok.mp hsettled.attributes)
  have hheads : ∀ h ∈ d.root.heads,
      (∀ a ∈ h.attributes, roundAttribute precision a = .ok a) ∧ compactStyle h = h := by
    intro h hh
    rw [Element.heads_eq] at hh
    obtain ⟨p, hp, rfl⟩ := exists_place_of_mem_heads [] hh
    exact (shortenHead_eq_self (hplaces p hp)).2
  have hgroups := hsettled.groups
  rw [← hrelabel] at hgroups
  obtain ⟨hroot, hcontent, -⟩ := Node.AllSound.element_iff.mp hd.tree
  have hcollapsed : (collapseNodes [d.root.head] d.root.content d.supply).1 = d.root.content :=
    congrArg (fun d => d.root.content) hgroups
  exact {
    elements := helements
    attributes := hattributes
    version := hversion
    ids := hids
    definitions := holdsUsedId_of_removeUnusedIds hsettled.ids
    defaults := fun p hp a ha =>
      exists_setsProperty_of_dropDefaults (shortenHead_eq_self (hplaces p hp)).1 ha
    paths := fun h hh a ha => compactPath_of_roundAttribute ((hheads h hh).1 a ha)
    numbers := fun h hh a ha => compactNumbers_of_roundAttribute ((hheads h hh).1 a ha)
    styles := fun h hh style => compactStyle?_of_compactStyle (hheads h hh).2
    containers := containers_of_collapseNodes (.cons hroot.mem_made .nil) hd.ledger hcontent
      hcollapsed
  }

/-- Minification in several passes that ends because the text stays the same ends with a
document in normal form.
-/
theorem isNormal_of_settled {precision : Int} {s : Text} {f : Finish}
    (h : finish true precision s = .ok f) (hsettled : f.settled)
    : IsNormal precision f.document.root := by
  unfold finish at h
  cases hread : readDocument s with
  | error e =>
      rw [hread] at h
      cases h
  | ok d =>
      rw [hread] at h
      obtain ⟨made, hd⟩ := sound_of_ofText? (readDocument_eq_ok.mp hread).2.1
      obtain ⟨⟨more, -, hf, -⟩, -⟩ := steps_of_runPasses hd rfl h
      exact isNormal_of_pass hf (pass_of_runPasses hd rfl h hsettled)

/-- A drawing in which each step of a pass finds something to do. -/
def sampleDrawing : Text :=
  "<svg version=\"1.1\" fill-rule=\"evenodd\"><metadata/>"
    ++ "<defs><a id=\"x\"/><a id=\"y\"/></defs>"
    ++ "<g><g><b fill-rule=\"nonzero\" style=\" c : url(#x); \"/></g>"
    ++ "<p d=\"M 1.0 2.5000\" opacity=\"1.0\"/></g></svg>"

theorem isNormal_of_settled_sampleDrawing
    : ∃ f, finish true 3 sampleDrawing = .ok f ∧ f.settled
      ∧ f.text = ("<svg fill-rule=\"evenodd\"><defs><a id=\"x\"/></defs>"
        ++ "<b fill-rule=\"nonzero\" style=\"c:url(#x)\"/><p d=\"M1 2.5\"/></svg>" : Text)
      ∧ IsNormal 3 f.document.root := by
  have hfinish : (finish true 3 sampleDrawing).toOption.map (fun f => (f.settled, f.text))
      = some (true, ("<svg fill-rule=\"evenodd\"><defs><a id=\"x\"/></defs>"
        ++ "<b fill-rule=\"nonzero\" style=\"c:url(#x)\"/><p d=\"M1 2.5\"/></svg>" : Text)) := by
    decide +kernel
  cases hf : finish true 3 sampleDrawing with
  | error e =>
      rw [hf] at hfinish
      cases hfinish
  | ok f =>
      rw [hf] at hfinish
      obtain ⟨hsettled, htext⟩ := Prod.mk.inj (Option.some.inj hfinish)
      exact ⟨f, rfl, hsettled, htext, isNormal_of_settled hf hsettled⟩

end SvgKit.Minify
