import SvgKit.Proofs.Xml.Adaptation
import SvgKit.Proofs.Xml.RoundTrip

/-! The names of a tree as they are resolved when its text is read again. A name resolves when
its label means the namespace that it has; a head is read back exactly if its names resolve.
-/

namespace SvgKit.Xml

-----------------------------------------------------------------------------------------
-- Names that resolve
-----------------------------------------------------------------------------------------

/-- The labels of the names mean, by the declarations of the head and those in scope, the
namespaces that the names have.
-/
def Head.resolves (scope : List Binding) (h : Head) : Bool :=
  (elementName? (h.bindings ++ scope) h.name.spelling).map (·.uri?) = some h.name.uri?
    && h.attributes.all fun a =>
      (attributeName? (h.bindings ++ scope) a.name.spelling).map (·.uri?) = some a.name.uri?

mutual

/-- All names in a node resolve. -/
def Node.resolves (scope : List Binding) : Node → Bool
  | .element h content => h.resolves scope && Node.allResolve (h.bindings ++ scope) content
  | _ => true

/-- All names in nodes resolve. -/
def Node.allResolve (scope : List Binding) : List Node → Bool
  | [] => true
  | node :: nodes => node.resolves scope && Node.allResolve scope nodes

end

/-- All names in an element that is a root resolve. -/
def Element.resolves (e : Element) : Bool := Node.allResolve [] e.forest

@[simp]
theorem Node.allResolve_nil (scope : List Binding) : Node.allResolve scope [] = true := by
  rw [allResolve]

@[simp]
theorem Node.allResolve_element (scope : List Binding) (h : Head) (content nodes : List Node)
    : Node.allResolve scope (.element h content :: nodes)
      = (h.resolves scope && Node.allResolve (h.bindings ++ scope) content
        && Node.allResolve scope nodes) := by
  rw [allResolve, resolves]

@[simp]
theorem Node.allResolve_text (scope : List Binding) (s : Text) (nodes : List Node)
    : Node.allResolve scope (.text s :: nodes) = Node.allResolve scope nodes := by
  rw [allResolve, resolves]
  · simp
  · simp

-----------------------------------------------------------------------------------------
-- Scopes that agree
-----------------------------------------------------------------------------------------

/-- Two declarations of the same label for the same namespace. -/
structure Binding.Same (b b' : Binding) : Prop where
  label : b'.label = b.label
  uri : b'.uri = b.uri

/-- Declarations that are the same in pairs. -/
abbrev SameScope : List Binding → List Binding → Prop := List.Forall₂ Binding.Same

section Scopes

variable {scope scope' : List Binding}

theorem SameScope.lookupLabel? (h : SameScope scope scope') (label : Option Text)
    : (Xml.lookupLabel? scope' label).map (·.uri)
      = (Xml.lookupLabel? scope label).map (·.uri) := by
  unfold Xml.lookupLabel?
  split
  · rfl
  · induction h with
    | nil => rfl
    | cons hfirst _ ih =>
        rw [List.find?_cons, List.find?_cons, hfirst.label]
        split
        · rw [Option.map_some, Option.map_some, hfirst.uri]
        · exact ih

/-- The namespace of an element depends on the labels and namespaces in scope only. -/
theorem SameScope.elementName? (h : SameScope scope scope') (n : Spelling)
    : (Xml.elementName? scope' n).map (·.uri?) = (Xml.elementName? scope n).map (·.uri?) := by
  have hlookup := h.lookupLabel? n.space
  unfold Xml.elementName?
  cases hb : Xml.lookupLabel? scope n.space with
  | none =>
      rw [hb, Option.map_none, Option.map_eq_none_iff] at hlookup
      rw [hlookup]
  | some b =>
      rw [hb, Option.map_some, Option.map_eq_some_iff] at hlookup
      obtain ⟨b', hb', huri⟩ := hlookup
      rw [hb']
      cases n.space with
      | none =>
          dsimp only
          rw [huri]
          split <;> simp [Name.uri?, huri]
      | some label => simp [Name.uri?, huri]

theorem SameScope.attributeName? (h : SameScope scope scope') (n : Spelling)
    : (Xml.attributeName? scope' n).map (·.uri?)
      = (Xml.attributeName? scope n).map (·.uri?) := by
  unfold Xml.attributeName?
  cases n.space with
  | none => rfl
  | some label =>
      have hlookup := h.lookupLabel? (some label)
      simp only [Option.map_map, Function.comp_def, Name.uri?, Option.map_some]
      cases hb : Xml.lookupLabel? scope (some label) <;>
        cases hb' : Xml.lookupLabel? scope' (some label) <;> simp_all

end Scopes

theorem base_of_elementName? {scope : List Binding} {n : Spelling} {name : Name}
    (h : elementName? scope n = some name)
    : name.base = n.base := by
  unfold elementName? at h
  split at h <;> cases h <;> rfl

theorem base_of_attributeName? {scope : List Binding} {n : Spelling} {name : Name}
    (h : attributeName? scope n = some name)
    : name.base = n.base := by
  unfold attributeName? at h
  split at h
  · cases h
    rfl
  · obtain ⟨b, -, rfl⟩ := Option.map_eq_some_iff.mp h
    rfl

-----------------------------------------------------------------------------------------
-- Heads that are read back
-----------------------------------------------------------------------------------------

/-- What the start tag of a head gives, before names are resolved. -/
def Head.raw (h : Head) : List RawAttribute :=
  h.bindings.map (fun b => ⟨b.spelling, b.uri, none⟩)
    ++ h.attributes.map fun a => ⟨a.name.spelling, a.value, none⟩

theorem mapM_rawAttribute? (element : Spelling) {h : Head} (hplain : h.Plain)
    : (h.tag.given ++ Doctype.defaults {} element h.tag.given).mapM
        (Doctype.rawAttribute? {} element)
      = some h.raw := by
  have hdefaults : Doctype.defaults {} element h.tag.given = [] := rfl
  rw [hdefaults, List.append_nil, mapM_eq_some_iff, Head.tag, Head.raw]
  refine List.rel_append ?_ ?_
  · rw [List.forall₂_map_left_iff, List.forall₂_map_right_iff, List.forall₂_same]
    exact fun b _ => rawAttribute?_char rfl element b.spelling b.uri
  · rw [List.forall₂_map_left_iff, List.forall₂_map_right_iff, List.forall₂_same]
    intro a ha
    rw [Attribute.references_of_plain (hplain a ha)]
    exact rawAttribute?_char rfl element a.name.spelling a.value

/-- Declarations are read back with other marks, by induction over them. -/
theorem bindingsOf?_append {bindings : List Binding} {others : List RawAttribute}
    (hbindings : ∀ b ∈ bindings, mayDeclare b.label b.uri ∧ b.label ≠ some ("xml" : Text))
    (hothers : ∀ a ∈ others, a.declares? = none) (mark : Nat)
    : ∃ bindings', SameScope bindings bindings'
      ∧ bindingsOf? mark (bindings.map (fun b => ⟨b.spelling, b.uri, none⟩) ++ others)
        = some bindings' := by
  induction bindings generalizing mark with
  | nil =>
      refine ⟨[], .nil, ?_⟩
      rw [List.map_nil, List.nil_append]
      induction others with
      | nil => rfl
      | cons a others ih =>
          rw [List.forall_mem_cons] at hothers
          rw [bindingsOf?, hothers.1]
          exact ih hothers.2
  | cons b bindings ih =>
      rw [List.forall_mem_cons] at hbindings
      obtain ⟨bindings', hsame, hread⟩ := ih hbindings.2 (mark + 1)
      refine ⟨⟨mark, b.label, b.uri⟩ :: bindings', .cons ⟨rfl, rfl⟩ hsame, ?_⟩
      rw [List.map_cons, List.cons_append, bindingsOf?, Binding.declares?_spelling]
      simp [hbindings.1.1, hbindings.1.2, hread]

theorem exists_forall₂ {α β : Type} {R : α → β → Prop} {l : List α}
    (h : ∀ a ∈ l, ∃ b, R a b)
    : ∃ l', List.Forall₂ R l l' := by
  induction l with
  | nil => exact ⟨[], .nil⟩
  | cons a l ih =>
      rw [List.forall_mem_cons] at h
      obtain ⟨b, hb⟩ := h.1
      obtain ⟨l', hl'⟩ := ih h.2
      exact ⟨b :: l', .cons hb hl'⟩

section Heads

variable {next : Nat} {made scope scope' : List Binding} {h h' : Head}

theorem Head.Sound.mayDeclare (hledger : Ledger next made) (hs : h.Sound made)
    : ∀ b ∈ h.bindings, Xml.mayDeclare b.label b.uri ∧ b.label ≠ some ("xml" : Text) :=
  fun b hb => ⟨(hledger.sound_of_mem (hs.bindings b hb).1 (hs.bindings b hb).2).mayDeclare,
    (hs.bindings b hb).2⟩

/-- The parts from which the head of an element is read back. -/
theorem read?_tag (hledger : Ledger next made) (hs : h.Sound made) (hplain : h.Plain)
    (scope' : List Binding) (mark : Nat)
    : ∃ bindings, SameScope h.bindings bindings
      ∧ ∀ h', h.tag.read? scope' mark = some h'
        ↔ (h.raw.map (·.name)).Nodup
          ∧ h'.bindings = bindings
          ∧ elementName? (bindings ++ scope') h.name.spelling = some h'.name
          ∧ h.attributes.mapM (fun a =>
            (attributeName? (bindings ++ scope') a.name.spelling).map fun name =>
              (⟨name, a.value, none⟩ : Attribute)) = some h'.attributes
          ∧ (h'.attributes.map fun a => (a.name.uri?, a.name.base)).Nodup := by
  have hothers : ∀ a ∈ h.attributes.map fun a =>
      (⟨a.name.spelling, a.value, none⟩ : RawAttribute), a.declares? = none :=
    List.forall_mem_map.mpr fun a ha =>
      (hs.attributes a ha).declares?_spelling hledger _ _
  obtain ⟨bindings, hsame, hread⟩ := bindingsOf?_append (hs.mayDeclare hledger) hothers mark
  have hfilter : h.raw.filter (·.declares?.isNone)
      = h.attributes.map fun a => ⟨a.name.spelling, a.value, none⟩ := by
    rw [Head.raw, List.filter_append, List.filter_eq_nil_iff.mpr, List.nil_append,
      List.filter_eq_self.mpr]
    · intro a ha
      rw [hothers a ha]
      rfl
    · refine List.forall_mem_map.mpr fun b _ => ?_
      simp [Binding.declares?_spelling]
  refine ⟨bindings, hsame, fun h' => ?_⟩
  rw [Tag.read?, readHead?_eq_some_iff]
  constructor
  · rintro ⟨raw, hraw, hnames, hbindings, helement, hattributes, hdistinct⟩
    rw [mapM_rawAttribute? _ hplain, Option.some.injEq] at hraw
    subst hraw
    rw [Head.raw, hread, Option.some.injEq] at hbindings
    rw [hfilter, List.mapM_map] at hattributes
    subst hbindings
    exact ⟨hnames, rfl, helement, hattributes, hdistinct⟩
  · rintro ⟨hnames, rfl, helement, hattributes, hdistinct⟩
    refine ⟨h.raw, mapM_rawAttribute? _ hplain, hnames, hread, helement, ?_, hdistinct⟩
    rw [hfilter, List.mapM_map]
    exact hattributes

/-- Attributes whose names resolve differ in their spelling. -/
theorem Head.Sound.nodup_raw (hledger : Ledger next made) (hs : h.Sound made)
    (hresolves : h.resolves scope)
    : (h.raw.map (·.name)).Nodup := by
  simp only [Head.resolves, Bool.and_eq_true, List.all_eq_true, decide_eq_true_eq] at hresolves
  rw [Head.raw, List.map_append, List.map_map, List.map_map]
  refine List.nodup_append.mpr ⟨?_, ?_, ?_⟩
  · refine List.Nodup.of_map (fun n => RawAttribute.declares? ⟨n, [], none⟩) ?_
    rw [List.map_map]
    have hlabels := hs.labels.map (Option.some_injective _)
    simpa [List.map_map, Function.comp_def, Binding.declares?_spelling] using hlabels
  · refine List.Nodup.of_map (fun n =>
      ((attributeName? (h.bindings ++ scope) n).map (·.uri?), n.base)) ?_
    have hnames := hs.distinct.map (f := fun n => (some n.1, n.2))
      fun n n' heq => by simpa [Prod.ext_iff] using heq
    rw [List.map_map] at hnames ⊢
    refine (List.map_congr_left fun a ha => ?_) ▸ hnames
    exact Prod.ext (hresolves.2 a ha).symm rfl
  · intro n hn n' hn'
    obtain ⟨b, -, rfl⟩ := List.mem_map.mp hn
    obtain ⟨a, ha, rfl⟩ := List.mem_map.mp hn'
    intro heq
    have hnone := (hs.attributes a ha).declares?_spelling hledger [] none
    have hsome := b.declares?_spelling [] none
    dsimp only [Function.comp_apply] at heq
    rw [heq, hnone] at hsome
    cases hsome

/-- A head whose names resolve is read back. -/
theorem Head.Sound.read?_of_resolves (hledger : Ledger next made) (hs : h.Sound made)
    (hplain : h.Plain) (hscope : SameScope scope scope') (hresolves : h.resolves scope)
    (mark : Nat)
    : ∃ h', h.tag.read? scope' mark = some h' ∧ h.Same h' := by
  obtain ⟨bindings, hsame, hread⟩ := read?_tag hledger hs hplain scope' mark
  have hinner : SameScope (h.bindings ++ scope) (bindings ++ scope') :=
    List.rel_append hsame hscope
  have hnodup := hs.nodup_raw hledger hresolves
  simp only [Head.resolves, Bool.and_eq_true, List.all_eq_true, decide_eq_true_eq] at hresolves
  have helement := (hinner.elementName? h.name.spelling).trans hresolves.1
  obtain ⟨name, hname, huri⟩ := Option.map_eq_some_iff.mp helement
  have hattribute : ∀ a ∈ h.attributes, ∃ a' : Attribute,
      (attributeName? (bindings ++ scope') a.name.spelling).map
        (fun name => (⟨name, a.value, none⟩ : Attribute)) = some a' ∧ a.Same a' := by
    intro a ha
    obtain ⟨name, hname, huri⟩ := Option.map_eq_some_iff.mp
      ((hinner.attributeName? a.name.spelling).trans (hresolves.2 a ha))
    exact ⟨⟨name, a.value, none⟩, by rw [hname]; rfl,
      ⟨base_of_attributeName? hname, huri⟩, rfl, (hplain a ha).symm⟩
  obtain ⟨attributes, hattributes⟩ := exists_forall₂ hattribute
  have hsames : List.Forall₂ Attribute.Same h.attributes attributes :=
    hattributes.imp fun _ _ h => h.2
  refine ⟨⟨name, bindings, attributes⟩, (hread _).mpr ⟨hnodup, rfl, hname,
    mapM_eq_some_iff.mpr (hattributes.imp fun _ _ h => h.1), ?_⟩,
    ⟨base_of_elementName? hname, huri⟩, hsames⟩
  dsimp only
  rw [map_name_of_same hsames]
  exact hs.distinct

/-- What a head is read back as has the same declarations, and has the same names only if the
names of the head resolve.
-/
theorem Head.Sound.resolves_of_read? (hledger : Ledger next made) (hs : h.Sound made)
    (hplain : h.Plain) (hscope : SameScope scope scope') {mark : Nat}
    (hread : h.tag.read? scope' mark = some h')
    : SameScope h.bindings h'.bindings ∧ (h.Same h' → h.resolves scope) := by
  obtain ⟨bindings, hsame, hiff⟩ := read?_tag hledger hs hplain scope' mark
  obtain ⟨-, rfl, helement, hattributes, -⟩ := (hiff h').mp hread
  refine ⟨hsame, fun hsames => ?_⟩
  have hinner : SameScope (h.bindings ++ scope) (h'.bindings ++ scope') :=
    List.rel_append hsame hscope
  have hname := hinner.elementName? h.name.spelling
  rw [helement, Option.map_some, hsames.name.uri] at hname
  simp only [Head.resolves, Bool.and_eq_true, List.all_eq_true, decide_eq_true_eq]
  refine ⟨hname.symm, ?_⟩
  have hall := mapM_eq_some_iff.mp hattributes
  have hpairs := hsames.attributes
  generalize h.attributes = attributes at hall hpairs
  generalize h'.attributes = attributes' at hall hpairs
  induction hall with
  | nil => simp
  | @cons a a' _ _ hfirst _ ih =>
      cases hpairs with
      | cons hsame hpairs =>
          refine List.forall_mem_cons.mpr ⟨?_, ih hpairs⟩
          obtain ⟨name, hname, rfl⟩ := Option.map_eq_some_iff.mp hfirst
          have hattribute := hinner.attributeName? a.name.spelling
          rw [hname, Option.map_some] at hattribute
          exact hattribute.symm.trans (congrArg some hsame.name.uri)

end Heads

-----------------------------------------------------------------------------------------
-- Forests that are read back
-----------------------------------------------------------------------------------------

/-- Two forests that are the same but for white space: text that is all white space may be
missing from the second one.
-/
inductive SameButSpace : List Node → List Node → Prop where
  | nil : SameButSpace [] []
  | element {h h' : Head} {content content' nodes nodes' : List Node} (head : h.Same h')
      (inside : SameButSpace content content') (behind : SameButSpace nodes nodes')
      : SameButSpace (.element h content :: nodes) (.element h' content' :: nodes')
  | text (s : Text) {nodes nodes' : List Node} (behind : SameButSpace nodes nodes')
      : SameButSpace (.text s :: nodes) (.text s :: nodes')
  | entity (name : Text) {nodes nodes' : List Node} (behind : SameButSpace nodes nodes')
      : SameButSpace (.entity name :: nodes) (.entity name :: nodes')
  | space (s : Text) {nodes nodes' : List Node} (hs : s.all isSpace)
      (behind : SameButSpace nodes nodes')
      : SameButSpace (.text s :: nodes) nodes'

theorem SameButSpace.heads {nodes nodes' : List Node} (h : SameButSpace nodes nodes')
    : List.Forall₂ Head.Same (Node.allHeads nodes) (Node.allHeads nodes') := by
  induction h with
  | nil => simp
  | element head _ _ inside behind =>
      simpa using ⟨head, List.rel_append inside behind⟩
  | text s _ ih => simpa using ih
  | entity name _ ih => simpa using ih
  | space s _ _ ih => simpa using ih

theorem SameButSpace.uris {nodes nodes' : List Node} (h : SameButSpace nodes nodes')
    : (Node.allHeads nodes').map (·.name.uri?) = (Node.allHeads nodes).map (·.name.uri?) := by
  have hheads := h.heads
  generalize Node.allHeads nodes = heads at hheads
  generalize Node.allHeads nodes' = heads' at hheads
  induction hheads with
  | nil => rfl
  | cons hfirst _ ih => rw [List.map_cons, List.map_cons, hfirst.name.uri, ih]

theorem forall₂_append_inv {α β : Type} {R : α → β → Prop} {l more : List α}
    {l' more' : List β} (h : List.Forall₂ R (l ++ more) (l' ++ more'))
    (hlength : l.length = l'.length)
    : List.Forall₂ R l l' ∧ List.Forall₂ R more more' := by
  have htake := List.forall₂_take l.length h
  have hdrop := List.forall₂_drop l.length h
  rw [List.take_left, hlength, List.take_left] at htake
  rw [List.drop_left, hlength, List.drop_left] at hdrop
  exact ⟨htake, hdrop⟩

/-- A forest that is read back has as many heads as what it is read back as. -/
theorem Reread.length_heads {tagOf : Head → Tag} {scope : List Binding} {nodes nodes' : List Node}
    (h : Reread tagOf scope nodes nodes')
    : (Node.allHeads nodes).length = (Node.allHeads nodes').length := by
  induction h with
  | nil => rfl
  | element _ _ _ inside behind => simp [inside, behind]
  | text s _ ih => simpa using ih
  | space s _ _ ih => simpa using ih

section Forests

variable {next : Nat} {made scope scope' : List Binding} {nodes nodes' : List Node}

/-- A forest that is read back with the same heads resolves, by induction over the pair. -/
theorem Reread.allResolve (hledger : Ledger next made) (h : Reread Head.tag scope' nodes nodes')
    (hsound : Node.AllSound made nodes) (hplain : ∀ head ∈ Node.allHeads nodes, head.Plain)
    (hscope : SameScope scope scope')
    (hheads : List.Forall₂ Head.Same (Node.allHeads nodes) (Node.allHeads nodes'))
    : Node.allResolve scope nodes := by
  induction h generalizing scope with
  | nil => simp
  | element hread hinside _ inside behind =>
      obtain ⟨hh, hcontent, hnodes⟩ := Node.AllSound.element_iff.mp hsound
      rw [Node.allHeads_element, List.forall_mem_cons, List.forall_mem_append] at hplain
      rw [Node.allHeads_element, Node.allHeads_element, List.forall₂_cons] at hheads
      obtain ⟨hsame, hrest⟩ := hheads
      obtain ⟨hheads, hheads'⟩ := forall₂_append_inv hrest hinside.length_heads
      obtain ⟨hbindings, hresolves⟩ := hh.resolves_of_read? hledger hplain.1 hscope hread
      rw [Node.allResolve_element, hresolves hsame,
        inside hcontent hplain.2.1 (List.rel_append hbindings hscope) hheads,
        behind hnodes hplain.2.2 hscope hheads']
      rfl
  | text s _ ih =>
      rw [Node.allResolve_text]
      exact ih (Node.AllSound.text_iff.mp hsound).2 (by simpa using hplain) hscope
        (by simpa using hheads)
  | space s _ _ ih =>
      rw [Node.allResolve_text]
      exact ih (Node.AllSound.text_iff.mp hsound).2 (by simpa using hplain) hscope
        (by simpa using hheads)

/-- A forest that resolves is read back as the same but for white space, by induction over the
pair.
-/
theorem Reread.sameButSpace (hledger : Ledger next made)
    (h : Reread Head.tag scope' nodes nodes') (hsound : Node.AllSound made nodes)
    (hplain : ∀ head ∈ Node.allHeads nodes, head.Plain) (hscope : SameScope scope scope')
    (hresolve : Node.allResolve scope nodes)
    : SameButSpace nodes nodes' := by
  induction h generalizing scope with
  | nil => exact .nil
  | @element _ head head' _ _ _ _ mark hread _ _ inside behind =>
      obtain ⟨hh, hcontent, hnodes⟩ := Node.AllSound.element_iff.mp hsound
      rw [Node.allHeads_element, List.forall_mem_cons, List.forall_mem_append] at hplain
      rw [Node.allResolve_element, Bool.and_eq_true, Bool.and_eq_true] at hresolve
      obtain ⟨⟨hhead, hinside⟩, hbehind⟩ := hresolve
      obtain ⟨hbindings, -⟩ := hh.resolves_of_read? hledger hplain.1 hscope hread
      obtain ⟨_, hread', hsame⟩ := hh.read?_of_resolves hledger hplain.1 hscope hhead mark
      obtain rfl := Option.some.inj (hread'.symm.trans hread)
      exact .element hsame
        (inside hcontent hplain.2.1 (List.rel_append hbindings hscope) hinside)
        (behind hnodes hplain.2.2 hscope hbehind)
  | text s _ ih =>
      rw [Node.allResolve_text] at hresolve
      exact .text s (ih (Node.AllSound.text_iff.mp hsound).2 (by simpa using hplain) hscope
        hresolve)
  | space s hs _ ih =>
      rw [Node.allResolve_text] at hresolve
      exact .space s hs (ih (Node.AllSound.text_iff.mp hsound).2 (by simpa using hplain) hscope
        hresolve)

/-- A literal forest that is not read back does not resolve, by induction over the reason. -/
theorem Unread.not_allResolve {depth : Nat} (hledger : Ledger next made)
    (h : Unread Head.tag scope' nodes) (hsound : Node.AllSound made nodes)
    (htidy : Tidy true depth nodes) (hscope : SameScope scope scope')
    : Node.allResolve scope nodes = false := by
  induction h generalizing scope depth with
  | @head _ head mark content nodes hread =>
      obtain ⟨hh, -⟩ := Node.AllSound.element_iff.mp hsound
      by_contra hresolve
      rw [Bool.not_eq_false, Node.allResolve_element, Bool.and_eq_true, Bool.and_eq_true]
        at hresolve
      have hplain := htidy.plain head (by simp)
      obtain ⟨_, hread', -⟩ := hh.read?_of_resolves hledger hplain hscope hresolve.1.1 mark
      rw [hread] at hread'
      cases hread'
  | finish content nodes hname => exact absurd rfl hname
  | @inside _ head _ _ _ nodes hread _ ih =>
      obtain ⟨hh, hcontent, -⟩ := Node.AllSound.element_iff.mp hsound
      have hplain := htidy.plain head (by simp)
      obtain ⟨hbindings, -⟩ := hh.resolves_of_read? hledger hplain hscope hread
      cases htidy with
      | element _ tidyInside _ =>
          rw [Node.allResolve_element,
            ih hcontent tidyInside (List.rel_append hbindings hscope), Bool.and_false,
            Bool.false_and]
  | @behind _ node nodes _ ih =>
      rw [Node.allResolve, ih (hsound.suffix (List.suffix_cons node nodes))
        (htidy.suffix (List.suffix_cons node nodes)) hscope, Bool.and_false]
  | entity name nodes =>
      cases htidy with
      | entity _ free _ => cases free

end Forests

end SvgKit.Xml
