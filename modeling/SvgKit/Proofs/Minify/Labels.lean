import SvgKit.Proofs.Minify.Heads

/-! Relabelling keeps a tree sound. Where it declares nothing new, doing it again changes
nothing.
-/

namespace SvgKit.Minify

open Xml

-----------------------------------------------------------------------------------------
-- Soundness
-----------------------------------------------------------------------------------------

/-- A head in which attributes of namespaces may have other labels. What is new among its
declarations is used by its attributes.
-/
structure Relabels (h h' : Head) : Prop where
  name : h'.name = h.name
  attributes : List.Forall₂ Attribute.Same h.attributes h'.attributes
  bindings : ∃ new, h'.bindings = h.bindings ++ new
    ∧ ∀ b ∈ new, ∃ a ∈ h'.attributes, a.name.binding = some b

/-- Declarations in the ledger, with labels of their own. -/
structure DistinctLabels (made bindings : List Binding) : Prop where
  mem : ∀ b ∈ bindings, b ∈ made ∧ b.label ≠ some ("xml" : Text)
  labels : (bindings.map (·.label)).Nodup

theorem DistinctLabels.mono {made more bindings : List Binding}
    (h : DistinctLabels made bindings) (hsub : made ⊆ more)
    : DistinctLabels more bindings :=
  ⟨fun b hb => ⟨hsub (h.mem b hb).1, (h.mem b hb).2⟩, h.labels⟩

theorem DistinctLabels.append {made more bindings outer : List Binding} {new : Binding}
    (h : DistinctLabels made bindings) (hsub : made ⊆ more) (hnew : new ∈ more)
    (hxml : new.label ≠ some ("xml" : Text))
    (hfresh : new.label ∉ (bindings ++ outer).map (·.label))
    : DistinctLabels more (bindings ++ [new]) := by
  refine ⟨List.forall_mem_append.mpr ⟨(h.mono hsub).mem, by simpa using ⟨hnew, hxml⟩⟩, ?_⟩
  rw [List.map_append]
  refine List.nodup_append.mpr ⟨h.labels, List.nodup_singleton _, ?_⟩
  intro label hlabel _ hlast
  obtain rfl := List.mem_singleton.mp hlast
  rintro rfl
  exact hfresh (by rw [List.map_append]; exact List.mem_append_left _ hlabel)

/-- What relabelling gives for attributes of a head that makes the declarations given. -/
structure RelabelSpec (made bindings : List Binding) (attributes : List Attribute)
    (result : List Attribute × List Binding × Supply) (more : List Binding) : Prop where
  sub : made ⊆ more
  ledger : Ledger result.2.2.mark more
  declared : DistinctLabels more result.2.1
  sound : ∀ a ∈ result.1, a.Sound more
  same : List.Forall₂ Attribute.Same attributes result.1
  new : ∃ new, result.2.1 = bindings ++ new
    ∧ ∀ b ∈ new, ∃ a ∈ result.1, a.name.binding = some b

theorem relabelAttribute_spec {made bindings : List Binding} {outer : List Head}
    {a : Attribute} {supply : Supply} (hout : PathSound made outer)
    (hledger : Ledger supply.mark made) (hb : DistinctLabels made bindings)
    (ha : a.Sound made)
    : ∃ more, RelabelSpec made bindings [a]
        (([(relabelAttribute outer a (bindings, supply)).1],
          (relabelAttribute outer a (bindings, supply)).2)) more := by
  have hstay : RelabelSpec made bindings [a] ([a], bindings, supply) made :=
    ⟨fun _ h => h, hledger, hb, by simpa using ha, .cons (.refl a) .nil, [], by simp⟩
  unfold relabelAttribute
  dsimp only
  split
  · exact ⟨made, hstay⟩
  · next old hold =>
      split
      · obtain ⟨hmem, hne⟩ := ha.name.binding old hold
        have hpath : PathSound made ({ name := .plain [], bindings } :: outer) :=
          .cons (by simpa [Name.plain] using fun b h => (hb.mem b h).1) hout
        obtain ⟨more, hspec⟩ := findOrDeclare_spec true none hledger hpath
          hmem hne (by simp)
        generalize findOrDeclare _ true old.uri none supply = result at hspec ⊢
        obtain ⟨new, isNew, supply'⟩ := result
        have hsame : a.Same { a with name := { a.name with binding := some new } } :=
          ⟨⟨rfl, by simpa [Name.uri?, hold] using hspec.uri⟩, rfl, rfl⟩
        refine ⟨more, hspec.sub, hspec.ledger, ?_, ?_, .cons hsame .nil, ?_⟩
        · cases isNew with
          | false => exact hb.mono hspec.sub
          | true =>
              obtain ⟨hxml, hfresh⟩ := hspec.fresh rfl
              exact hb.append hspec.sub hspec.mem hxml hfresh
        · refine List.forall_mem_singleton.mpr (ha.of_same hsame ?_)
          rintro _ ⟨⟩
          exact ⟨hspec.mem, fun h => hne (hspec.uri.symm.trans h), hspec.labelled rfl⟩
        · cases isNew with
          | false => exact ⟨[], by simp⟩
          | true => exact ⟨[new], by simp⟩
      · exact ⟨made, hstay⟩

/-- Relabelling the attributes of a head keeps them sound, by induction over them. -/
theorem relabelAttributes_spec {made bindings : List Binding} {outer : List Head}
    {attributes : List Attribute} {supply : Supply} (hout : PathSound made outer)
    (hledger : Ledger supply.mark made) (hb : DistinctLabels made bindings)
    (hattributes : ∀ a ∈ attributes, a.Sound made)
    : ∃ more, RelabelSpec made bindings attributes
        (attributes.mapM (relabelAttribute outer) (bindings, supply)) more := by
  induction attributes generalizing made bindings supply with
  | nil =>
      have hnil : [].mapM (relabelAttribute outer) (bindings, supply) = ([], bindings, supply) :=
        rfl
      rw [hnil]
      exact ⟨made, fun _ h => h, hledger, hb, by simp, .nil, [], by simp⟩
  | cons a attributes ih =>
      rw [List.forall_mem_cons] at hattributes
      obtain ⟨more, hfirst⟩ := relabelAttribute_spec hout hledger hb hattributes.1
      obtain ⟨most, hrest⟩ := ih (hout.mono hfirst.sub) hfirst.ledger hfirst.declared
        fun a ha => (hattributes.2 a ha).mono hfirst.sub
      obtain ⟨new, hnew, hused⟩ := hfirst.new
      obtain ⟨new', hnew', hused'⟩ := hrest.new
      have hsound := List.forall_mem_singleton.mp hfirst.sound
      have hsame := (List.forall₂_cons.mp hfirst.same).1
      rw [List.mapM_cons]
      refine ⟨most, List.Subset.trans hfirst.sub hrest.sub, hrest.ledger, hrest.declared,
        List.forall_mem_cons.mpr ⟨hsound.mono hrest.sub, hrest.sound⟩,
        .cons hsame hrest.same, new ++ new', ?_, ?_⟩
      · exact hnew'.trans (by rw [hnew, List.append_assoc])
      · intro b hmem
        rcases List.mem_append.mp hmem with hmem | hmem
        · obtain ⟨x, hx, hbinding⟩ := hused b hmem
          obtain rfl := List.mem_singleton.mp hx
          exact ⟨_, List.mem_cons_self, hbinding⟩
        · obtain ⟨x, hx, hbinding⟩ := hused' b hmem
          exact ⟨x, List.mem_cons_of_mem _ hx, hbinding⟩

theorem relabelHead_spec {made : List Binding} {outer : List Head} {h : Head}
    {supply : Supply} (hout : PathSound made outer) (hledger : Ledger supply.mark made)
    (hh : h.Sound made)
    : ∃ more, made ⊆ more ∧ Ledger (relabelHead outer h supply).2.mark more
      ∧ (relabelHead outer h supply).1.Sound more
      ∧ Relabels h (relabelHead outer h supply).1 := by
  obtain ⟨more, hspec⟩ := relabelAttributes_spec hout hledger
    ⟨hh.bindings, hh.labels⟩ hh.attributes
  refine ⟨more, hspec.sub, hspec.ledger, ?_, rfl, hspec.same, hspec.new⟩
  exact hh.of_same (hh.name.mono hspec.sub) hspec.declared.mem hspec.declared.labels
    hspec.sound hspec.same

theorem relabelNodes_nil (outer : List Head) (supply : Supply)
    : relabelNodes outer [] supply = ([], supply) := by
  rw [relabelNodes]
  rfl

theorem relabelNodes_element (outer : List Head) (h : Head) (content nodes : List Node)
    (supply : Supply)
    : relabelNodes outer (.element h content :: nodes) supply
      = (let head := relabelHead outer h supply
        let inside := relabelNodes (head.1 :: outer) content head.2
        let behind := relabelNodes outer nodes inside.2
        (.element head.1 inside.1 :: behind.1, behind.2)) := by
  rw [relabelNodes, relabelNode]
  rfl

theorem relabelNodes_text (outer : List Head) (s : Text) (nodes : List Node)
    (supply : Supply)
    : relabelNodes outer (.text s :: nodes) supply
      = (.text s :: (relabelNodes outer nodes supply).1,
        (relabelNodes outer nodes supply).2) := by
  rw [relabelNodes, relabelNode]
  · rfl
  · simp

theorem relabelNodes_entity (outer : List Head) (name : Text) (nodes : List Node)
    (supply : Supply)
    : relabelNodes outer (.entity name :: nodes) supply
      = (.entity name :: (relabelNodes outer nodes supply).1,
        (relabelNodes outer nodes supply).2) := by
  rw [relabelNodes, relabelNode]
  · rfl
  · simp

/-- Relabelling keeps nodes sound, by induction over the forest. -/
theorem relabelNodes_spec {made : List Binding} {outer : List Head} {nodes : List Node}
    {supply : Supply} (hout : PathSound made outer) (hledger : Ledger supply.mark made)
    (hnodes : Node.AllSound made nodes)
    : ∃ more, made ⊆ more ∧ Ledger (relabelNodes outer nodes supply).2.mark more
      ∧ Node.AllSound more (relabelNodes outer nodes supply).1
      ∧ Alike Relabels nodes (relabelNodes outer nodes supply).1 := by
  induction nodes using Node.forest_induction generalizing made outer supply with
  | nil =>
      rw [relabelNodes]
      exact ⟨made, fun _ h => h, hledger, .nil, .nil⟩
  | element h content nodes inside behind =>
      obtain ⟨hh, hcontent, hnodes⟩ := Node.AllSound.element_iff.mp hnodes
      obtain ⟨made₁, hsub₁, hledger₁, hhead, hrelabels⟩ := relabelHead_spec hout hledger hh
      obtain ⟨made₂, hsub₂, hledger₂, hinside, halike⟩ := inside
        (.cons hhead.mem_made (hout.mono hsub₁)) hledger₁ (hcontent.mono hsub₁)
      have hsub := List.Subset.trans hsub₁ hsub₂
      obtain ⟨made₃, hsub₃, hledger₃, hbehind, halike'⟩ := behind (hout.mono hsub) hledger₂
        (hnodes.mono hsub)
      rw [relabelNodes_element]
      refine ⟨made₃, List.Subset.trans hsub hsub₃, hledger₃, ?_, .element hrelabels halike halike'⟩
      exact Node.AllSound.element_iff.mpr
        ⟨hhead.mono (List.Subset.trans hsub₂ hsub₃), hinside.mono hsub₃, hbehind⟩
  | text s nodes ih =>
      obtain ⟨hs, hnodes⟩ := Node.AllSound.text_iff.mp hnodes
      obtain ⟨more, hsub, hmore, hall, halike⟩ := ih hout hledger hnodes
      rw [relabelNodes_text]
      exact ⟨more, hsub, hmore, Node.AllSound.text_iff.mpr ⟨hs, hall⟩, .text s halike⟩
  | entity name nodes ih =>
      obtain ⟨hs, hnodes⟩ := Node.AllSound.entity_iff.mp hnodes
      obtain ⟨more, hsub, hmore, hall, halike⟩ := ih hout hledger hnodes
      rw [relabelNodes_entity]
      exact ⟨more, hsub, hmore, Node.AllSound.entity_iff.mpr ⟨hs, hall⟩, .entity name halike⟩

-----------------------------------------------------------------------------------------
-- Relabelling again
-----------------------------------------------------------------------------------------

theorem usableBinding?_uri {path : List Head} {isAttribute : Bool} {uri : Text} {b : Binding}
    (h : usableBinding? path isAttribute uri = some b)
    : b.uri = uri := by
  unfold usableBinding? at h
  split at h
  · next huri =>
      cases h
      exact huri.symm
  · have hb := List.find?_some h
    simp only [Bool.and_eq_true, decide_eq_true_eq] at hb
    exact hb.1.1

/-- Relabelling an attribute declares at most one namespace. Where it declares none, doing it
again gives the same.
-/
theorem relabelAttribute_cases (outer : List Head) (a : Attribute) (bindings : List Binding)
    (supply : Supply)
    : (∃ new, (relabelAttribute outer a (bindings, supply)).2.1 = bindings ++ [new])
      ∨ (relabelAttribute outer a (bindings, supply)).2 = (bindings, supply)
        ∧ relabelAttribute outer (relabelAttribute outer a (bindings, supply)).1
          (bindings, supply) = relabelAttribute outer a (bindings, supply) := by
  unfold relabelAttribute
  cases hbinding : a.name.binding with
  | none =>
      refine .inr ⟨rfl, ?_⟩
      simp [hbinding]
  | some old =>
      by_cases hname : (isPathData a.name.base || isNumeric a.name.base) = true
      · simp only [hname, ↓reduceIte]
        unfold findOrDeclare
        cases husable : usableBinding? ({ name := .plain [], bindings } :: outer) true old.uri with
        | none => exact .inl ⟨_, rfl⟩
        | some b =>
            have huri := usableBinding?_uri husable
            refine .inr ⟨rfl, ?_⟩
            simp [huri, husable]
      · simp [hname, hbinding]

theorem relabelAttributes_cons (outer : List Head) (a : Attribute)
    (attributes : List Attribute) (state : List Binding × Supply)
    : (a :: attributes).mapM (relabelAttribute outer) state
      = (let first := relabelAttribute outer a state
        let rest := attributes.mapM (relabelAttribute outer) first.2
        (first.1 :: rest.1, rest.2)) := by
  rw [List.mapM_cons]
  rfl

theorem length_relabelAttributes (outer : List Head) (attributes : List Attribute)
    (bindings : List Binding) (supply : Supply)
    : bindings.length
      ≤ (attributes.mapM (relabelAttribute outer) (bindings, supply)).2.1.length := by
  induction attributes generalizing bindings supply with
  | nil => exact Nat.le_refl _
  | cons a attributes ih =>
      rw [relabelAttributes_cons]
      dsimp only
      refine Nat.le_trans ?_ (ih (relabelAttribute outer a (bindings, supply)).2.1
        (relabelAttribute outer a (bindings, supply)).2.2)
      rcases relabelAttribute_cases outer a bindings supply with ⟨new, hnew⟩ | ⟨hsame, -⟩
      · rw [hnew, List.length_append]
        exact Nat.le_add_right _ _
      · rw [hsame]

/-- Where relabelling attributes declares nothing, doing it again gives the same, by induction
over them.
-/
theorem relabelAttributes_again (outer : List Head) (attributes : List Attribute)
    (bindings : List Binding) (supply : Supply)
    (h : (attributes.mapM (relabelAttribute outer) (bindings, supply)).2.1.length
      ≤ bindings.length)
    : (attributes.mapM (relabelAttribute outer) (bindings, supply)).2 = (bindings, supply)
      ∧ (attributes.mapM (relabelAttribute outer) (bindings, supply)).1.mapM
          (relabelAttribute outer) (bindings, supply)
        = attributes.mapM (relabelAttribute outer) (bindings, supply) := by
  induction attributes with
  | nil => exact ⟨rfl, rfl⟩
  | cons a attributes ih =>
      rw [relabelAttributes_cons] at h ⊢
      dsimp only at h ⊢
      rcases relabelAttribute_cases outer a bindings supply with ⟨new, hnew⟩ | ⟨hsame, hagain⟩
      · have hle := Nat.le_trans (length_relabelAttributes outer attributes
          (relabelAttribute outer a (bindings, supply)).2.1
          (relabelAttribute outer a (bindings, supply)).2.2) h
        rw [hnew, List.length_append] at hle
        exact absurd hle (by simp)
      · rw [hsame] at h ⊢
        obtain ⟨hstate, hrest⟩ := ih h
        refine ⟨hstate, ?_⟩
        rw [relabelAttributes_cons, hagain]
        dsimp only
        rw [hsame, hrest]

/-- The declarations in a forest, in document order. -/
def declarationCount (nodes : List Node) : Nat :=
  ((Node.allHeads nodes).flatMap (·.bindings)).length

theorem relabelHead_eq (outer : List Head) (h : Head) (supply : Supply)
    : relabelHead outer h supply
      = (let result := h.attributes.mapM (relabelAttribute outer) (h.bindings, supply)
        ({ h with bindings := result.2.1, attributes := result.1 }, result.2.2)) :=
  rfl

theorem relabelHead_again (outer : List Head) (h : Head) (supply : Supply)
    (hle : (relabelHead outer h supply).1.bindings.length ≤ h.bindings.length)
    : (relabelHead outer h supply).2 = supply
      ∧ relabelHead outer (relabelHead outer h supply).1 supply
        = relabelHead outer h supply := by
  obtain ⟨hstate, hagain⟩ := relabelAttributes_again outer h.attributes h.bindings supply hle
  rw [relabelHead_eq]
  dsimp only
  rw [hstate]
  refine ⟨rfl, ?_⟩
  rw [relabelHead_eq]
  dsimp only
  rw [hagain, hstate]

theorem declarationCount_element (h : Head) (content nodes : List Node)
    : declarationCount (.element h content :: nodes)
      = h.bindings.length + (declarationCount content + declarationCount nodes) := by
  simp [declarationCount]

theorem declarationCount_relabelNodes (outer : List Head) (nodes : List Node)
    (supply : Supply)
    : declarationCount nodes ≤ declarationCount (relabelNodes outer nodes supply).1 := by
  induction nodes using Node.forest_induction generalizing outer supply with
  | nil => simp [declarationCount]
  | element h content nodes inside behind =>
      rw [relabelNodes_element, declarationCount_element]
      dsimp only
      rw [declarationCount_element]
      exact Nat.add_le_add (length_relabelAttributes outer h.attributes h.bindings supply)
        (Nat.add_le_add (inside _ _) (behind _ _))
  | text s nodes ih =>
      rw [relabelNodes_text]
      simpa [declarationCount] using ih outer supply
  | entity name nodes ih =>
      rw [relabelNodes_entity]
      simpa [declarationCount] using ih outer supply

/-- Where relabelling nodes declares nothing, doing it again gives the same, by induction over
the forest.
-/
theorem relabelNodes_again (outer : List Head) (nodes : List Node) (supply : Supply)
    (h : declarationCount (relabelNodes outer nodes supply).1 ≤ declarationCount nodes)
    : (relabelNodes outer nodes supply).2 = supply
      ∧ relabelNodes outer (relabelNodes outer nodes supply).1 supply
        = relabelNodes outer nodes supply := by
  induction nodes using Node.forest_induction generalizing outer supply with
  | nil =>
      rw [relabelNodes_nil]
      exact ⟨rfl, rfl⟩
  | element head content nodes inside behind =>
      simp only [relabelNodes_element, declarationCount_element] at h
      have hhead := length_relabelAttributes outer head.attributes head.bindings supply
      have hinside := declarationCount_relabelNodes
        ((relabelHead outer head supply).1 :: outer) content (relabelHead outer head supply).2
      have hbehind := declarationCount_relabelNodes outer nodes
        (relabelNodes ((relabelHead outer head supply).1 :: outer) content
          (relabelHead outer head supply).2).2
      have hlength : (relabelHead outer head supply).1.bindings.length
          = (head.attributes.mapM (relabelAttribute outer) (head.bindings, supply)).2.1.length :=
        rfl
      obtain ⟨hsupply₁, hagain₁⟩ := relabelHead_again outer head supply (by omega)
      rw [hsupply₁] at h hinside hbehind
      obtain ⟨hsupply₂, hagain₂⟩ := inside ((relabelHead outer head supply).1 :: outer)
        supply (by omega)
      rw [hsupply₂] at h hbehind
      obtain ⟨hsupply₃, hagain₃⟩ := behind outer supply (by omega)
      rw [relabelNodes_element]
      dsimp only
      rw [hsupply₁, hsupply₂]
      refine ⟨hsupply₃, ?_⟩
      rw [relabelNodes_element]
      dsimp only
      rw [hagain₁, hsupply₁, hagain₂, hsupply₂, hagain₃]
  | text s nodes ih =>
      rw [relabelNodes_text] at h
      obtain ⟨hsupply, hagain⟩ := ih outer supply
        (by simpa [declarationCount] using h)
      rw [relabelNodes_text]
      refine ⟨hsupply, ?_⟩
      rw [relabelNodes_text, hagain]
  | entity name nodes ih =>
      rw [relabelNodes_entity] at h
      obtain ⟨hsupply, hagain⟩ := ih outer supply
        (by simpa [declarationCount] using h)
      rw [relabelNodes_entity]
      refine ⟨hsupply, ?_⟩
      rw [relabelNodes_entity, hagain]

end SvgKit.Minify
