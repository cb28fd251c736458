import SvgKit.Proofs.Xml.Marks
import SvgKit.Proofs.Xml.Resolution

/-! Trees whose declarations of namespaces correspond to each other one to one. What a tree is read
back as corresponds to it if every name belongs to the very declaration that its label means.
-/

namespace SvgKit.Xml

-----------------------------------------------------------------------------------------
-- Names that belong to what their labels mean
-----------------------------------------------------------------------------------------

/-- Each name belongs to the declaration that its label means, by the declarations of the head and
those in scope.
-/
def Head.isExact (scope : List Binding) (h : Head) : Bool :=
  elementName? (h.bindings ++ scope) h.name.spelling = some h.name
    && h.attributes.all fun a => attributeName? (h.bindings ++ scope) a.name.spelling = some a.name

mutual

/-- In a node, each name belongs to the declaration that its label means. -/
def Node.isExact (scope : List Binding) : Node → Bool
  | .element h content => h.isExact scope && Node.areExact (h.bindings ++ scope) content
  | _ => true

/-- In nodes, each name belongs to the declaration that its label means. -/
def Node.areExact (scope : List Binding) : List Node → Bool
  | [] => true
  | node :: nodes => node.isExact scope && Node.areExact scope nodes

end

/-- In an element that is a root, each name belongs to the declaration that its label means. -/
def Element.isExact (e : Element) : Bool := Node.areExact [] e.forest

@[simp]
theorem Node.areExact_nil (scope : List Binding) : Node.areExact scope [] = true := by
  rw [areExact]

@[simp]
theorem Node.areExact_element (scope : List Binding) (h : Head) (content nodes : List Node)
    : Node.areExact scope (.element h content :: nodes)
      = (h.isExact scope && Node.areExact (h.bindings ++ scope) content
        && Node.areExact scope nodes) := by
  rw [areExact, isExact]

@[simp]
theorem Node.areExact_text (scope : List Binding) (s : Text) (nodes : List Node)
    : Node.areExact scope (.text s :: nodes) = Node.areExact scope nodes := by
  rw [areExact, isExact]
  · simp
  · simp

@[simp]
theorem Node.areExact_entity (scope : List Binding) (name : Text) (nodes : List Node)
    : Node.areExact scope (.entity name :: nodes) = Node.areExact scope nodes := by
  rw [areExact, isExact]
  · simp
  · simp

theorem Head.isExact_iff {scope : List Binding} {h : Head}
    : h.isExact scope
      ↔ elementName? (h.bindings ++ scope) h.name.spelling = some h.name
        ∧ ∀ a ∈ h.attributes,
          attributeName? (h.bindings ++ scope) a.name.spelling = some a.name := by
  simp only [isExact, Bool.and_eq_true, List.all_eq_true, decide_eq_true_eq]

theorem Head.resolves_of_isExact {scope : List Binding} {h : Head} (hexact : h.isExact scope)
    : h.resolves scope := by
  obtain ⟨hname, hattributes⟩ := Head.isExact_iff.mp hexact
  simp only [Head.resolves, Bool.and_eq_true, List.all_eq_true, decide_eq_true_eq]
  refine ⟨by rw [hname, Option.map_some], ?_⟩
  intro a ha
  rw [hattributes a ha, Option.map_some]

/-- Names that belong to the declarations that their labels mean resolve, by induction over the
forest.
-/
theorem Node.allResolve_of_areExact {scope : List Binding} {nodes : List Node}
    (h : Node.areExact scope nodes)
    : Node.allResolve scope nodes := by
  induction nodes using Node.forest_induction generalizing scope with
  | nil => exact allResolve_nil scope
  | element head content nodes inside behind =>
      rw [areExact_element, Bool.and_eq_true, Bool.and_eq_true] at h
      rw [allResolve_element, Bool.and_eq_true, Bool.and_eq_true]
      exact ⟨⟨Head.resolves_of_isExact h.1.1, inside h.1.2⟩, behind h.2⟩
  | text s nodes ih =>
      rw [areExact_text] at h
      rw [allResolve_text]
      exact ih h
  | entity name nodes ih =>
      rw [areExact_entity] at h
      rw [Node.allResolve, Node.resolves, ih h]
      · rfl
      · simp

-----------------------------------------------------------------------------------------
-- Declarations that correspond
-----------------------------------------------------------------------------------------

/-- A correspondence of declarations: what corresponds agrees in all but the mark, and stands for
the same declaration on one side exactly if it does on the other.
-/
structure IsCorrespondence (C : Binding → Binding → Prop) : Prop where
  same : ∀ {b b'}, C b b' → b.Same b'
  mark : ∀ {b b' c c'}, C b b' → C c c' → (b.mark = c.mark ↔ b'.mark = c'.mark)
  xml : C .xml .xml

/-- The names and declarations of two heads correspond. An attribute without a namespace may have
another name.
-/
structure Head.Corresponds (C : Binding → Binding → Prop) (h h' : Head) : Prop where
  name : Option.Rel C h.name.binding h'.name.binding
  bindings : List.Forall₂ C h.bindings h'.bindings
  attributes : List.Forall₂ (fun a a' : Attribute => Option.Rel C a.name.binding a'.name.binding
    ∧ (a.name.binding ≠ none → a'.name.base = a.name.base)) h.attributes h'.attributes

theorem isCorrespondence_eq : IsCorrespondence Eq where
  same := by
    rintro b _ rfl
    exact ⟨rfl, rfl⟩
  mark := by
    rintro b _ c _ rfl rfl
    rfl
  xml := rfl

/-- A declaration corresponds to one declaration only. -/
theorem IsCorrespondence.unique {C : Binding → Binding → Prop} (hC : IsCorrespondence C)
    {b b' c' : Binding} (hb : C b b') (hc : C b c')
    : b' = c' := by
  have hmark : b'.mark = c'.mark := (hC.mark hb hc).mp rfl
  have hlabel : b'.label = c'.label := (hC.same hb).label.trans (hC.same hc).label.symm
  have huri : b'.uri = c'.uri := (hC.same hb).uri.trans (hC.same hc).uri.symm
  obtain ⟨mark, label, uri⟩ := b'
  exact Binding.mk.injEq .. ▸ ⟨hmark, hlabel, huri⟩

/-- Where marks differ, they tell positions apart. -/
theorem mark_getElem_eq_iff {l : List Binding} (hmarks : (l.map (·.mark)).Nodup) {i j : Nat}
    (hi : i < l.length) (hj : j < l.length)
    : l[i].mark = l[j].mark ↔ i = j := by
  constructor
  · intro heq
    have hsame := List.inj_on_of_nodup_map hmarks (List.getElem_mem hi) (List.getElem_mem hj) heq
    exact hmarks.of_map.getElem_inj_iff.mp hsame
  · rintro rfl
    rfl

/-- Declarations with marks of their own correspond in their order. -/
theorem exists_isCorrespondence {l l' : List Binding} (hsame : SameScope l l')
    (hmarks : ((Binding.xml :: l).map (·.mark)).Nodup)
    (hmarks' : ((Binding.xml :: l').map (·.mark)).Nodup)
    : ∃ C, IsCorrespondence C ∧ List.Forall₂ C l l' := by
  have hall : SameScope (.xml :: l) (.xml :: l') := .cons ⟨rfl, rfl⟩ hsame
  refine ⟨fun b b' => (b, b') ∈ (Binding.xml :: l).zip (.xml :: l'), ⟨?_, ?_, ?_⟩, ?_⟩
  · intro b b' hmem
    exact List.forall₂_zip hall hmem
  · intro b b' c c' hb hc
    obtain ⟨i, hi, hib⟩ := List.mem_iff_getElem.mp hb
    obtain ⟨j, hj, hjc⟩ := List.mem_iff_getElem.mp hc
    rw [List.length_zip, ← hall.length_eq, Nat.min_self] at hi hj
    obtain ⟨rfl, rfl⟩ := Prod.mk.inj (List.getElem_zip.symm.trans hib)
    obtain ⟨rfl, rfl⟩ := Prod.mk.inj (List.getElem_zip.symm.trans hjc)
    rw [mark_getElem_eq_iff hmarks hi hj,
      mark_getElem_eq_iff hmarks' (hall.length_eq ▸ hi) (hall.length_eq ▸ hj)]
  · exact List.mem_cons_self
  · apply List.forall₂_iff_zip.mpr
    refine ⟨hsame.length_eq, ?_⟩
    intro b b' hmem
    exact List.mem_cons_of_mem _ hmem

-----------------------------------------------------------------------------------------
-- Lookups
-----------------------------------------------------------------------------------------

/-- The first members that satisfy conditions which agree are related, by induction over the
lists.
-/
theorem find?_rel {α β : Type} {R : α → β → Prop} {l : List α} {l' : List β} {p : α → Bool}
    {q : β → Bool} (h : List.Forall₂ R l l') (hpq : ∀ a b, R a b → q b = p a)
    : Option.Rel R (l.find? p) (l'.find? q) := by
  induction h with
  | nil => exact .none
  | @cons a b _ _ hfirst _ ih =>
      rw [List.find?_cons, List.find?_cons, hpq a b hfirst]
      split
      · exact .some hfirst
      · exact ih

theorem toList_rel {α β : Type} {R : α → β → Prop} {o : Option α} {o' : Option β}
    (h : Option.Rel R o o')
    : List.Forall₂ R o.toList o'.toList := by
  cases h with
  | some h => exact .cons h .nil
  | none => exact .nil

section Lookups

variable {C : Binding → Binding → Prop} (hC : IsCorrespondence C)
include hC

theorem uri?_of_rel {n n' : Name} (h : Option.Rel C n.binding n'.binding) : n'.uri? = n.uri? := by
  unfold Name.uri?
  generalize n.binding = binding at h
  generalize n'.binding = binding' at h
  cases h with
  | none => rfl
  | some hb => rw [Option.map_some, Option.map_some, (hC.same hb).uri]

section Scopes

variable {scope scope' : List Binding} (hscope : List.Forall₂ C scope scope')
include hscope

theorem lookupLabel?_rel (label : Option Text)
    : Option.Rel C (lookupLabel? scope label) (lookupLabel? scope' label) := by
  unfold lookupLabel?
  split
  · exact .some hC.xml
  · apply find?_rel hscope
    intro b b' hb
    rw [(hC.same hb).label]

/-- The names of elements that a spelling means in scopes that correspond do so too. -/
theorem elementName?_rel {n : Spelling} {name name' : Name}
    (h : elementName? scope n = some name) (h' : elementName? scope' n = some name')
    : Option.Rel C name.binding name'.binding ∧ name'.base = name.base := by
  refine ⟨?_, (base_of_elementName? h').trans (base_of_elementName? h).symm⟩
  have hlookup := lookupLabel?_rel hC hscope n.space
  unfold elementName? at h h'
  generalize lookupLabel? scope n.space = found at hlookup h
  generalize lookupLabel? scope' n.space = found' at hlookup h'
  cases hlookup with
  | none =>
      cases hspace : n.space with
      | none =>
          rw [hspace] at h h'
          cases h
          cases h'
          exact .none
      | some label =>
          rw [hspace] at h
          cases h
  | @some b b' hb =>
      cases hspace : n.space with
      | none =>
          rw [hspace] at h h'
          cases h
          cases h'
          dsimp only
          rw [(hC.same hb).uri]
          split
          · exact .none
          · exact .some hb
      | some label =>
          rw [hspace] at h h'
          cases h
          cases h'
          exact .some hb

/-- So do the names of attributes. -/
theorem attributeName?_rel {n : Spelling} {name name' : Name}
    (h : attributeName? scope n = some name) (h' : attributeName? scope' n = some name')
    : Option.Rel C name.binding name'.binding ∧ name'.base = name.base := by
  refine ⟨?_, (base_of_attributeName? h').trans (base_of_attributeName? h).symm⟩
  unfold attributeName? at h h'
  cases hspace : n.space with
  | none =>
      rw [hspace] at h h'
      cases h
      cases h'
      exact .none
  | some label =>
      rw [hspace] at h h'
      obtain ⟨b, hb, rfl⟩ := Option.map_eq_some_iff.mp h
      obtain ⟨b', hb', rfl⟩ := Option.map_eq_some_iff.mp h'
      have hlookup := lookupLabel?_rel hC hscope (some label)
      rwa [hb, hb'] at hlookup

end Scopes

section Paths

variable {path path' : List Head} (hpath : List.Forall₂ (Head.Corresponds C) path path')
include hpath

omit hC in
theorem bindingsOnPath_rel : List.Forall₂ C (bindingsOnPath path) (bindingsOnPath path') := by
  cases hpath with
  | nil => exact .nil
  | cons hfirst hrest =>
      apply List.rel_append hfirst.bindings
      apply List.rel_flatMap hrest
      intro h h' hh
      exact List.rel_append hh.bindings (toList_rel hh.name)

theorem labelOnPath?_rel (label : Option Text)
    : Option.Rel C (labelOnPath? path label) (labelOnPath? path' label) := by
  unfold labelOnPath?
  split
  · exact .some hC.xml
  · apply find?_rel (bindingsOnPath_rel hpath)
    intro b b' hb
    rw [(hC.same hb).label]

/-- The declarations that may be used for a namespace correspond. -/
theorem usableBinding?_rel (isAttribute : Bool) (uri : Text)
    : Option.Rel C (usableBinding? path isAttribute uri)
      (usableBinding? path' isAttribute uri) := by
  unfold usableBinding?
  split
  · exact .some hC.xml
  · apply find?_rel (bindingsOnPath_rel hpath)
    intro b b' hb
    have hlabel := labelOnPath?_rel hC hpath b.label
    rw [(hC.same hb).uri, (hC.same hb).label]
    congr 1
    generalize labelOnPath? path b.label = found at hlabel
    generalize labelOnPath? path' b.label = found' at hlabel
    cases hlabel with
    | none => rfl
    | some hfound =>
        rw [Option.any_some, Option.any_some, decide_eq_decide]
        exact (hC.mark hfound hb).symm

end Paths

end Lookups

-----------------------------------------------------------------------------------------
-- Texts
-----------------------------------------------------------------------------------------

/-- Pairs that are in both relations, by induction over the lists. -/
theorem forall₂_and {α β : Type} {R S : α → β → Prop} {l : List α} {l' : List β}
    (h : List.Forall₂ R l l') (h' : List.Forall₂ S l l')
    : List.Forall₂ (fun a b => R a b ∧ S a b) l l' := by
  induction h with
  | nil => exact .nil
  | cons hfirst _ ih =>
      cases h' with
      | cons hfirst' hrest' => exact .cons ⟨hfirst, hfirst'⟩ (ih hrest')

/-- What is made of related members is the same if it is so for each pair. -/
theorem flatMap_of_forall₂ {α β : Type} {R : α → α → Prop} {f : α → List β} {l l' : List α}
    (h : List.Forall₂ R l l') (hf : ∀ a a', R a a' → f a' = f a)
    : l'.flatMap f = l.flatMap f := by
  induction h with
  | nil => rfl
  | cons hfirst _ ih => rw [List.flatMap_cons, List.flatMap_cons, hf _ _ hfirst, ih]

/-- Heads with the same text make the same text of a forest, by induction over the pair. -/
theorem writeAll_of_alike {nodes nodes' : List Node}
    (h : Alike (fun h h' => h'.name.text = h.name.text ∧ h'.text = h.text) nodes nodes')
    : Node.writeAll nodes' = Node.writeAll nodes := by
  induction h with
  | nil => rfl
  | @element _ _ content content' _ _ head hinside _ inside behind =>
      obtain ⟨hname, htext⟩ := head
      rw [Node.writeAll, Node.writeAll, Node.write, Node.write, inside, behind,
        hinside.isEmpty, elementText, elementText, hname, htext]
  | text s _ ih => rw [Node.writeAll_text, Node.writeAll_text, ih]
  | entity name _ ih => rw [Node.writeAll_entity, Node.writeAll_entity, ih]

section Texts

variable {C : Binding → Binding → Prop} (hC : IsCorrespondence C)
include hC

theorem nameText_of_corresponds {n n' : Name} (h : Option.Rel C n.binding n'.binding)
    (hbase : n'.base = n.base)
    : n'.text = n.text := by
  have hlabel : n'.binding.bind (·.label) = n.binding.bind (·.label) := by
    generalize n.binding = binding at h
    generalize n'.binding = binding' at h
    cases h with
    | none => rfl
    | some hb => exact (hC.same hb).label
  rw [Name.text, Name.text, hlabel, hbase]

/-- Heads that are the same and correspond have the same text. -/
theorem Head.Corresponds.text {h h' : Head} (hc : h.Corresponds C h') (hs : h.Same h')
    : h'.name.text = h.name.text ∧ h'.text = h.text := by
  have hname := nameText_of_corresponds hC hc.name hs.name.base
  have hbindings : h'.bindings.flatMap (fun b => attributeText b.name (b.uri.flatMap escapeValue))
      = h.bindings.flatMap fun b => attributeText b.name (b.uri.flatMap escapeValue) := by
    apply flatMap_of_forall₂ hc.bindings
    intro b b' hb
    rw [Binding.name, Binding.name, (hC.same hb).label, (hC.same hb).uri]
  have hattributes : h'.attributes.flatMap (fun a => attributeText a.name.text a.spelled)
      = h.attributes.flatMap fun a => attributeText a.name.text a.spelled := by
    apply flatMap_of_forall₂ (forall₂_and hs.attributes hc.attributes)
    intro a a' ⟨hsame, hbinding, _⟩
    rw [nameText_of_corresponds hC hbinding hsame.name.base, Attribute.spelled,
      Attribute.spelled, hsame.value, hsame.spelling]
  exact ⟨hname, by rw [Head.text, Head.text, hname, hbindings, hattributes]⟩

end Texts

-----------------------------------------------------------------------------------------
-- Trees that are read back
-----------------------------------------------------------------------------------------

section Reading

variable {next : Nat} {made scope scope' : List Binding} {nodes nodes' : List Node}

/-- The declarations of a forest are read back with other marks, by induction over the pair. -/
theorem Reread.sameScope (hledger : Ledger next made) (h : Reread Head.tag scope' nodes nodes')
    (hsound : Node.AllSound made nodes) (hplain : ∀ head ∈ Node.allHeads nodes, head.Plain)
    : SameScope (Node.declared nodes) (Node.declared nodes') := by
  induction h with
  | nil => exact .nil
  | element hread _ _ inside behind =>
      obtain ⟨hh, hcontent, hnodes⟩ := Node.AllSound.element_iff.mp hsound
      rw [Node.allHeads_element, List.forall_mem_cons, List.forall_mem_append] at hplain
      obtain ⟨bindings, hsame, hiff⟩ := read?_tag hledger hh hplain.1 _ _
      obtain ⟨-, rfl, -⟩ := (hiff _).mp hread
      rw [Node.declared_element, Node.declared_element]
      exact List.rel_append hsame
        (List.rel_append (inside hcontent hplain.2.1) (behind hnodes hplain.2.2))
  | text s _ ih =>
      rw [Node.declared_text, Node.declared_text]
      exact ih (Node.AllSound.text_iff.mp hsound).2 (by simpa using hplain)
  | space s _ _ ih =>
      rw [Node.declared_text]
      exact ih (Node.AllSound.text_iff.mp hsound).2 (by simpa using hplain)

/-- Reading a forest back adds no leaves. -/
theorem Reread.length_leaves {tagOf : Head → Tag} (h : Reread tagOf scope nodes nodes')
    : (Node.allLeaves nodes').length ≤ (Node.allLeaves nodes).length := by
  induction h with
  | nil => exact Nat.le_refl _
  | element _ _ _ inside behind =>
      simp only [Node.allLeaves, List.length_append]
      exact Nat.add_le_add inside behind
  | text s _ ih => simpa using ih
  | space s _ _ ih => simpa using Nat.le_succ_of_le ih

/-- Each piece of text that is not read back takes weight with it, by induction over the pair. -/
theorem Reread.weight_add_length_le {tagOf : Head → Tag} (h : Reread tagOf scope nodes nodes')
    (hfull : Node.text [] ∉ Node.allLeaves nodes)
    : Node.weight nodes' + (Node.allLeaves nodes).length
      ≤ Node.weight nodes + (Node.allLeaves nodes').length := by
  induction h with
  | nil => exact Nat.le_refl _
  | @element _ _ _ content content' _ _ _ _ hinside _ inside behind =>
      simp only [Node.allLeaves, List.mem_append, not_or] at hfull
      have hle := inside hfull.1
      have hle' := behind hfull.2
      have hempty : content.isEmpty → content'.isEmpty := by
        intro hcontent
        obtain rfl := List.isEmpty_iff.mp hcontent
        cases hinside
        rfl
      simp only [Node.weight, Node.allLeaves, List.length_append]
      split
      · next hcontent' =>
          rw [List.isEmpty_iff.mp hcontent'] at hle ⊢
          simp only [Node.weight, Node.allLeaves, List.length_nil] at hle ⊢
          split
          · next hcontent =>
              rw [List.isEmpty_iff.mp hcontent]
              simp only [Node.allLeaves, List.length_nil]
              omega
          · omega
      · next hcontent' =>
          rw [if_neg fun hcontent => hcontent' (hempty hcontent)]
          omega
  | text s _ ih =>
      simp only [Node.allLeaves, List.mem_cons, not_or] at hfull
      have hle := ih hfull.2
      simp only [Node.weight, Node.allLeaves, List.length_cons]
      omega
  | space s _ _ ih =>
      simp only [Node.allLeaves, List.mem_cons, not_or] at hfull
      have hle := ih hfull.2
      have hpos : 0 < (s.flatMap escapeText).length := by
        cases s with
        | nil => exact absurd rfl hfull.1
        | cons c s =>
            rcases escapeText_cases c with ⟨body, hbody, -⟩ | ⟨hself, -⟩
            · simp [hbody]
            · simp [hself]
      simp only [Node.weight, Node.allLeaves, List.length_cons]
      omega

/-- A head that is read back in a scope that corresponds to its own does so itself, if each of its
names belongs to what its label means.
-/
theorem Head.Sound.corresponds_of_read? {C : Binding → Binding → Prop} (hC : IsCorrespondence C)
    (hledger : Ledger next made) {h h' : Head} (hs : h.Sound made) (hplain : h.Plain)
    (hexact : h.isExact scope) (hscope : List.Forall₂ C scope scope') {mark : Nat}
    (hread : h.tag.read? scope' mark = some h') (hbindings : List.Forall₂ C h.bindings h'.bindings)
    : h.Same h' ∧ h.Corresponds C h' := by
  obtain ⟨bindings, -, hiff⟩ := read?_tag hledger hs hplain scope' mark
  obtain ⟨-, rfl, helement, hattributes, -⟩ := (hiff h').mp hread
  obtain ⟨hname, hnames⟩ := Head.isExact_iff.mp hexact
  have hinner := List.rel_append hbindings hscope
  obtain ⟨hbinding, hbase⟩ := elementName?_rel hC hinner hname helement
  have hall : List.Forall₂ (fun a a' : Attribute => a.Same a'
        ∧ Option.Rel C a.name.binding a'.name.binding) h.attributes h'.attributes := by
    have hkept : ∀ a ∈ h.attributes,
        attributeName? (h.bindings ++ scope) a.name.spelling = some a.name ∧ a.spelling = none :=
      fun a ha => ⟨hnames a ha, hplain a ha⟩
    apply ((List.forall₂_and_left _ _).mpr ⟨hkept, mapM_eq_some_iff.mp hattributes⟩).imp
    rintro a a' ⟨⟨hname, hspelling⟩, heq⟩
    obtain ⟨name, hname', rfl⟩ := Option.map_eq_some_iff.mp heq
    obtain ⟨hbinding, hbase⟩ := attributeName?_rel hC hinner hname hname'
    exact ⟨⟨⟨hbase, uri?_of_rel hC hbinding⟩, rfl, hspelling.symm⟩, hbinding⟩
  refine ⟨⟨⟨hbase, uri?_of_rel hC hbinding⟩, hall.imp fun _ _ h => h.1⟩,
    ⟨hbinding, hbindings, hall.imp fun _ _ h => ⟨h.2, fun _ => h.1.name.base⟩⟩⟩

/-- A forest that is read back without loss of text corresponds to what it is read back as, if each
name in it belongs to what its label means. The induction is over the pair.
-/
theorem Reread.corresponds {C : Binding → Binding → Prop} (hC : IsCorrespondence C)
    (hledger : Ledger next made) (h : Reread Head.tag scope' nodes nodes')
    (hsound : Node.AllSound made nodes) (hplain : ∀ head ∈ Node.allHeads nodes, head.Plain)
    (hexact : Node.areExact scope nodes) (hscope : List.Forall₂ C scope scope')
    (hdeclared : List.Forall₂ C (Node.declared nodes) (Node.declared nodes'))
    (hleaves : (Node.allLeaves nodes).length ≤ (Node.allLeaves nodes').length)
    : Alike (fun h h' => h.Same h' ∧ h.Corresponds C h') nodes nodes' := by
  induction h generalizing scope with
  | nil => exact .nil
  | element hread hinside hbehind inside behind =>
      obtain ⟨hh, hcontent, hnodes⟩ := Node.AllSound.element_iff.mp hsound
      rw [Node.allHeads_element, List.forall_mem_cons, List.forall_mem_append] at hplain
      rw [Node.areExact_element, Bool.and_eq_true, Bool.and_eq_true] at hexact
      rw [Node.declared_element, Node.declared_element] at hdeclared
      simp only [Node.allLeaves, List.length_append] at hleaves
      have hle := hinside.length_leaves
      have hle' := hbehind.length_leaves
      obtain ⟨bindings, hsame, hiff⟩ := read?_tag hledger hh hplain.1 _ _
      obtain ⟨-, rfl, -⟩ := (hiff _).mp hread
      obtain ⟨hbindings, hrest⟩ := forall₂_append_inv hdeclared hsame.length_eq
      have hlength := (hinside.sameScope hledger hcontent hplain.2.1).length_eq
      obtain ⟨hdeclared, hdeclared'⟩ := forall₂_append_inv hrest hlength
      refine .element ?_ ?_ ?_
      · exact hh.corresponds_of_read? hC hledger hplain.1 hexact.1.1 hscope hread hbindings
      · exact inside hcontent hplain.2.1 hexact.1.2 (List.rel_append hbindings hscope) hdeclared
          (by omega)
      · exact behind hnodes hplain.2.2 hexact.2 hscope hdeclared' (by omega)
  | text s _ ih =>
      rw [Node.areExact_text] at hexact
      rw [Node.declared_text, Node.declared_text] at hdeclared
      exact .text s (ih (Node.AllSound.text_iff.mp hsound).2 (by simpa using hplain) hexact hscope
        hdeclared (by simpa using hleaves))
  | space s _ hrest _ =>
      have hle := hrest.length_leaves
      simp only [Node.allLeaves, List.length_cons] at hleaves
      omega

end Reading

end SvgKit.Xml
