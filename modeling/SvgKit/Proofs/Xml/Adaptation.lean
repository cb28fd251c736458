import SvgKit.Proofs.Xml.Declaring

/-! Adapting a subtree to a new place keeps it sound, and changes nothing but the declarations
that its names belong to.
-/

namespace SvgKit.Xml

-----------------------------------------------------------------------------------------
-- What stays the same
-----------------------------------------------------------------------------------------

/-- Two names of the same namespace and the same base. -/
structure Name.Same (n n' : Name) : Prop where
  base : n'.base = n.base
  uri : n'.uri? = n.uri?

/-- Two attributes of the same name and value. -/
structure Attribute.Same (a a' : Attribute) : Prop where
  name : a.name.Same a'.name
  value : a'.value = a.value
  spelling : a'.spelling = a.spelling

/-- Two heads of the same name and with the same attributes. -/
structure Head.Same (h h' : Head) : Prop where
  name : h.name.Same h'.name
  attributes : List.Forall₂ Attribute.Same h.attributes h'.attributes

theorem Name.Same.refl (n : Name) : n.Same n := ⟨rfl, rfl⟩

theorem Attribute.Same.refl (a : Attribute) : a.Same a := ⟨.refl _, rfl, rfl⟩

theorem Head.Same.refl (h : Head) : h.Same h :=
  ⟨.refl _, List.forall₂_same.mpr fun a _ => .refl a⟩

theorem Head.Same.symm {h h' : Head} (hs : h.Same h') : h'.Same h :=
  ⟨⟨hs.name.base.symm, hs.name.uri.symm⟩, hs.attributes.flip.imp fun _ _ ha =>
    ⟨⟨ha.name.base.symm, ha.name.uri.symm⟩, ha.value.symm, ha.spelling.symm⟩⟩

theorem Name.Same.trans {n n' n'' : Name} (h : n.Same n') (h' : n'.Same n'') : n.Same n'' :=
  ⟨h'.base.trans h.base, h'.uri.trans h.uri⟩

theorem Attribute.Same.trans {a a' a'' : Attribute} (h : a.Same a') (h' : a'.Same a'')
    : a.Same a'' :=
  ⟨h.name.trans h'.name, h'.value.trans h.value, h'.spelling.trans h.spelling⟩

theorem Head.Same.trans {h h' h'' : Head} (hs : h.Same h') (hs' : h'.Same h'') : h.Same h'' := by
  refine ⟨hs.name.trans hs'.name, ?_⟩
  have hall := hs.attributes
  have hall' := hs'.attributes
  generalize h.attributes = attributes at hall
  generalize h'.attributes = attributes' at hall hall'
  generalize h''.attributes = attributes'' at hall'
  induction hall generalizing attributes'' with
  | nil => exact hall'
  | cons hfirst _ ih =>
      cases hall' with
      | cons hfirst' hrest' => exact .cons (hfirst.trans hfirst') (ih _ hrest')

theorem Name.Same.binding_eq_none_iff {n n' : Name} (h : n.Same n')
    : n'.binding = none ↔ n.binding = none := by
  have huri := h.uri
  simp only [Name.uri?] at huri
  cases hb : n.binding <;> cases hb' : n'.binding <;> simp_all

theorem Name.Same.isNone_binding {n n' : Name} (h : n.Same n')
    : n'.binding.isNone = n.binding.isNone := by
  rw [Bool.eq_iff_iff, Option.isNone_iff_eq_none, Option.isNone_iff_eq_none,
    h.binding_eq_none_iff]

/-- Attributes that are the same in pairs have the same names. -/
theorem map_name_of_same {attributes attributes' : List Attribute}
    (h : List.Forall₂ Attribute.Same attributes attributes')
    : attributes'.map (fun a => (a.name.uri?, a.name.base))
      = attributes.map (fun a => (a.name.uri?, a.name.base)) := by
  induction h with
  | nil => rfl
  | cons hsame _ ih => simp [hsame.name.base, hsame.name.uri, ih]

/-- An attribute whose name belongs to another declaration of the same namespace is sound. -/
theorem Attribute.Sound.of_same {made more : List Binding} {a a' : Attribute}
    (h : a.Sound made) (hsame : a.Same a')
    (hbinding : ∀ b, a'.name.binding = some b → b ∈ more ∧ b.uri ≠ [] ∧ b.label ≠ none)
    : a'.Sound more where
  name := {
    base := by rw [hsame.name.base]; exact h.name.base
    binding := fun b hb => ⟨(hbinding b hb).1, (hbinding b hb).2.1⟩ }
  labelled := fun b hb => (hbinding b hb).2.2
  plain := by
    intro hnone
    rw [hsame.name.base]
    exact h.plain (hsame.name.binding_eq_none_iff.mp hnone)
  value := by rw [hsame.value]; exact h.value
  spelling := by rw [hsame.spelling]; exact h.spelling

-----------------------------------------------------------------------------------------
-- Steps that may add to the ledger
-----------------------------------------------------------------------------------------

/-- Steps over a list that each keep an invariant, with a ledger that may grow, keep it
together, by induction over the list.
-/
theorem mapM_ledger {α β σ : Type} {f : α → StateM σ β}
    {I : List Binding → σ → Prop} {P : List Binding → α → Prop}
    {Q : List Binding → α → β → Prop}
    (hP : ∀ {made more a}, made ⊆ more → P made a → P more a)
    (hQ : ∀ {made more a b}, made ⊆ more → Q made a b → Q more a b)
    (step : ∀ made s a, I made s → P made a
      → ∃ more, made ⊆ more ∧ I more (f a s).2 ∧ Q more a (f a s).1)
    {made : List Binding} {s : σ} {l : List α} (hs : I made s) (hl : ∀ a ∈ l, P made a)
    : ∃ more, made ⊆ more ∧ I more (l.mapM f s).2
      ∧ List.Forall₂ (Q more) l (l.mapM f s).1 := by
  induction l generalizing made s with
  | nil => exact ⟨made, fun _ h => h, hs, .nil⟩
  | cons a l ih =>
      rw [List.forall_mem_cons] at hl
      obtain ⟨more, hsub, hI, hfirst⟩ := step made s a hs hl.1
      obtain ⟨most, hsub', hI', hrest⟩ := ih hI (fun a ha => hP hsub (hl.2 a ha))
      refine ⟨most, List.Subset.trans hsub hsub', ?_, ?_⟩
      · rw [List.mapM_cons]
        exact hI'
      · rw [List.mapM_cons]
        exact .cons (hQ hsub' hfirst) hrest

-----------------------------------------------------------------------------------------
-- Names
-----------------------------------------------------------------------------------------

/-- An adaptation in which every declaration has become one of the same namespace. -/
structure Adaptation.Sound (made : List Binding) (a : Adaptation) : Prop where
  ledger : Ledger a.supply.mark made
  declared : ∀ b ∈ a.declared, b ∈ made ∧ b.label ≠ some ("xml" : Text)
  labels : (a.declared.map (·.label)).Nodup
  become : ∀ entry ∈ a.become, entry.2 ∈ made
    ∧ ∃ old ∈ made, old.mark = entry.1 ∧ old.uri = entry.2.uri

/-- What a declaration has become declares the same namespace. -/
theorem Adaptation.Sound.find? {made : List Binding} {a : Adaptation} (h : a.Sound made)
    {isAttribute : Bool} {old new : Binding} (hold : old ∈ made)
    (hfind : a.find? isAttribute old = some new)
    : new ∈ made ∧ new.uri = old.uri
      ∧ (isAttribute → old.label ≠ none → new.label ≠ none) := by
  obtain ⟨⟨mark, new⟩, hfound, rfl⟩ := Option.map_eq_some_iff.mp hfind
  have hmatch := List.find?_some hfound
  simp only [Bool.and_eq_true, decide_eq_true_eq] at hmatch
  obtain ⟨hnew, old', hold', hmark, huri⟩ := h.become _ (List.mem_of_find?_eq_some hfound)
  obtain rfl := h.ledger.eq_of_mark_eq hold' hold (hmark.trans hmatch.1)
  refine ⟨hnew, huri.symm, ?_⟩
  rintro rfl hlabel hnone
  rw [hnone] at hmatch
  simp [Option.isSome_iff_ne_none.mpr hlabel] at hmatch

/-- The adaptation stays sound with a declaration that is found or made for another. -/
theorem Adaptation.Sound.declare {made more : List Binding} {a : Adaptation}
    {outer : List Head} {isAttribute isNew : Bool} {old new : Binding} {supply : Supply}
    (ha : a.Sound made) (hold : old ∈ made)
    (hspec : Declares made ({ name := .plain [], bindings := a.declared } :: outer)
      isAttribute old.uri a.supply (new, isNew, supply) more)
    : Adaptation.Sound more {
        become := a.become ++ [(old.mark, new)]
        declared := if isNew then a.declared ++ [new] else a.declared
        supply } := by
  have hdeclared : ∀ b ∈ a.declared, b ∈ more ∧ b.label ≠ some ("xml" : Text) :=
    fun b hb => ⟨hspec.sub (ha.declared b hb).1, (ha.declared b hb).2⟩
  have hbecome : ∀ entry ∈ a.become ++ [(old.mark, new)], entry.2 ∈ more
      ∧ ∃ old ∈ more, old.mark = entry.1 ∧ old.uri = entry.2.uri := by
    intro entry hentry
    rcases List.mem_append.mp hentry with hentry | hentry
    · obtain ⟨hnew, old', hold', hmark, huri⟩ := ha.become entry hentry
      exact ⟨hspec.sub hnew, old', hspec.sub hold', hmark, huri⟩
    · obtain rfl := List.mem_singleton.mp hentry
      exact ⟨hspec.mem, old, hspec.sub hold, rfl, hspec.uri.symm⟩
  cases isNew with
  | false => exact ⟨hspec.ledger, hdeclared, ha.labels, hbecome⟩
  | true =>
      obtain ⟨hxml, hfresh⟩ := hspec.fresh rfl
      refine ⟨hspec.ledger, ?_, ?_, hbecome⟩
      · intro b hb
        rcases List.mem_append.mp hb with hb | hb
        · exact hdeclared b hb
        · obtain rfl := List.mem_singleton.mp hb
          exact ⟨hspec.mem, hxml⟩
      · rw [if_pos rfl, List.map_append]
        refine List.nodup_append.mpr ⟨ha.labels, List.nodup_singleton _, ?_⟩
        intro label hlabel _ hnew
        obtain rfl := List.mem_singleton.mp hnew
        rintro rfl
        simp only [bindingsOnPath, List.map_append, List.mem_append] at hfresh
        exact hfresh (.inl hlabel)

/-- Adapting a name keeps its namespace. -/
theorem adaptName_spec {made : List Binding} {outer : List Head} {n : Name}
    {a : Adaptation} (isAttribute : Bool) (hout : PathSound made outer) (ha : a.Sound made)
    (hn : n.Sound made)
    (hlabel : isAttribute → ∀ b, n.binding = some b → b.label ≠ none)
    : ∃ more, made ⊆ more ∧ (adaptName outer isAttribute n a).2.Sound more
      ∧ (adaptName outer isAttribute n a).1.Sound more
      ∧ n.Same (adaptName outer isAttribute n a).1
      ∧ (isAttribute
        → ∀ b, (adaptName outer isAttribute n a).1.binding = some b → b.label ≠ none) := by
  unfold adaptName
  split
  · next hnone => exact ⟨made, fun _ h => h, ha, hn, .refl n, by simp [hnone]⟩
  · next old hold =>
      obtain ⟨hmem, hne⟩ := hn.binding old hold
      split
      · next new hnew =>
          obtain ⟨hnewMem, hnewUri, hnewLabel⟩ := ha.find? hmem hnew
          refine ⟨made, fun _ h => h, ha, ⟨hn.base, ?_⟩, ⟨rfl, ?_⟩, ?_⟩
          · rintro _ ⟨⟩
            exact ⟨hnewMem, hnewUri ▸ hne⟩
          · simp [Name.uri?, hold, hnewUri]
          · rintro hattribute _ ⟨⟩
            exact hnewLabel hattribute (hlabel hattribute old hold)
      · have hpath : PathSound made ({ name := .plain [], bindings := a.declared } :: outer) :=
          .cons (by simpa [Name.plain] using fun b hb => (ha.declared b hb).1) hout
        obtain ⟨more, hspec⟩ := findOrDeclare_spec isAttribute old.label ha.ledger hpath
          hmem hne (fun label hl => ha.ledger.isLabel hmem hl)
        dsimp only
        generalize findOrDeclare _ isAttribute old.uri old.label a.supply = result at hspec ⊢
        obtain ⟨new, isNew, supply⟩ := result
        refine ⟨more, hspec.sub, ha.declare hmem hspec, ⟨hn.base, ?_⟩, ⟨rfl, ?_⟩, ?_⟩
        · rintro _ ⟨⟩
          exact ⟨hspec.mem, fun h => hne (hspec.uri.symm.trans h)⟩
        · simpa [Name.uri?, hold] using hspec.uri
        · rintro hattribute _ ⟨⟩
          exact hspec.labelled hattribute

/-- Adapting an attribute keeps everything but the declaration that its name belongs to. -/
theorem adaptAttribute_spec {outer : List Head} (made : List Binding) (a : Adaptation)
    (x : Attribute) (ha : PathSound made outer ∧ a.Sound made) (hx : x.Sound made)
    : ∃ more, made ⊆ more
      ∧ (PathSound more outer ∧ (adaptAttribute outer x a).2.Sound more)
      ∧ (adaptAttribute outer x a).1.Sound more
        ∧ x.Same (adaptAttribute outer x a).1 := by
  obtain ⟨more, hsub, hstate, hname, hsame, hlabel⟩ :=
    adaptName_spec true ha.1 ha.2 hx.name (fun _ => hx.labelled)
  have hsame' : x.Same (adaptAttribute outer x a).1 := ⟨hsame, rfl, rfl⟩
  refine ⟨more, hsub, ⟨ha.1.mono hsub, hstate⟩, hx.of_same hsame' ?_, hsame'⟩
  intro b hb
  exact ⟨(hname.binding b hb).1, (hname.binding b hb).2, hlabel rfl b hb⟩

/-- Members on the right of related lists are related to members on the left. -/
theorem forall_right_of_forall₂ {α β : Type} {R : α → β → Prop} {P : β → Prop} {l : List α}
    {l' : List β} (h : List.Forall₂ R l l') (hP : ∀ a b, R a b → P b)
    : ∀ b ∈ l', P b := by
  induction h with
  | nil => simp
  | cons hab _ ih => exact List.forall_mem_cons.mpr ⟨hP _ _ hab, ih⟩

theorem adaptAttributes_spec {made : List Binding} {outer : List Head} {a : Adaptation}
    {attributes : List Attribute} (hout : PathSound made outer) (ha : a.Sound made)
    (hattributes : ∀ x ∈ attributes, x.Sound made)
    : ∃ more, made ⊆ more ∧ (attributes.mapM (adaptAttribute outer) a).2.Sound more
      ∧ (∀ x ∈ (attributes.mapM (adaptAttribute outer) a).1, x.Sound more)
      ∧ List.Forall₂ Attribute.Same attributes
        (attributes.mapM (adaptAttribute outer) a).1 := by
  obtain ⟨more, hsub, hstate, hall⟩ := mapM_ledger
    (I := fun made (a : Adaptation) => PathSound made outer ∧ a.Sound made)
    (P := fun made (x : Attribute) => x.Sound made)
    (Q := fun made (x x' : Attribute) => x'.Sound made ∧ x.Same x')
    (fun hsub h => h.mono hsub) (fun hsub h => ⟨h.1.mono hsub, h.2⟩)
    adaptAttribute_spec ⟨hout, ha⟩ hattributes
  exact ⟨more, hsub, hstate.2, forall_right_of_forall₂ hall fun _ _ h => h.1,
    hall.imp fun _ _ h => h.2⟩

-----------------------------------------------------------------------------------------
-- Nodes
-----------------------------------------------------------------------------------------

/-- What given-up declarations become is in the ledger and declares the same namespaces. -/
theorem stripBindings_spec {made : List Binding} {path : List Head} {bindings : List Binding}
    (hpath : PathSound made path) (hb : ∀ b ∈ bindings, b ∈ made)
    : (stripBindings path bindings).1.Sublist bindings
      ∧ ∀ entry ∈ (stripBindings path bindings).2, entry.2 ∈ made
        ∧ ∃ old ∈ made, old.mark = entry.1 ∧ old.uri = entry.2.uri := by
  refine ⟨List.filter_sublist, ?_⟩
  intro entry hentry
  obtain ⟨b, hmem, rfl⟩ := List.mem_map.mp hentry
  cases hd : declared? path b.uri with
  | none => exact ⟨hb b hmem, b, hb b hmem, rfl, rfl⟩
  | some outer =>
      obtain ⟨houter, huri⟩ := declared?_spec hpath hd
      exact ⟨houter, b, hb b hmem, rfl, huri.symm⟩

theorem Adaptation.Sound.become_append {made : List Binding} {a : Adaptation}
    {entries : List (Nat × Binding)} (h : a.Sound made)
    (hentries : ∀ entry ∈ entries, entry.2 ∈ made
      ∧ ∃ old ∈ made, old.mark = entry.1 ∧ old.uri = entry.2.uri)
    : Adaptation.Sound made { a with become := a.become ++ entries } :=
  { h with
    become := fun entry hentry =>
      (List.mem_append.mp hentry).elim (h.become entry) (hentries entry) }

/-- A head with fewer declarations, and a name and attributes that are the same but for their
declarations, is sound.
-/
theorem Head.Sound.of_same {made more : List Binding} {h : Head} (hs : h.Sound made)
    {name : Name} {bindings : List Binding} {attributes : List Attribute}
    (hname : name.Sound more)
    (hbindings : ∀ b ∈ bindings, b ∈ more ∧ b.label ≠ some ("xml" : Text))
    (hlabels : (bindings.map (·.label)).Nodup)
    (hattributes : ∀ x ∈ attributes, x.Sound more)
    (hsame : List.Forall₂ Attribute.Same h.attributes attributes)
    : Head.Sound more { name, bindings, attributes } :=
  ⟨hname, hbindings, hlabels, hattributes, by
    show (attributes.map fun a => (a.name.uri?, a.name.base)).Nodup
    rw [map_name_of_same hsame]
    exact hs.distinct⟩

theorem adaptNodes_element (outer : List Head) (top : Name) (inner : List Head) (h : Head)
    (content nodes : List Node) (a : Adaptation)
    : adaptNodes outer top inner (.element h content :: nodes) a
      = (let strip := stripBindings
          (inner ++ { name := top, bindings := a.declared } :: outer) h.bindings
        let named := adaptName outer false h.name { a with become := a.become ++ strip.2 }
        let attributed := h.attributes.mapM (adaptAttribute outer) named.2
        let head : Head := { name := named.1, bindings := strip.1, attributes := attributed.1 }
        let inside := adaptNodes outer top (head :: inner) content attributed.2
        let behind := adaptNodes outer top inner nodes inside.2
        (.element head inside.1 :: behind.1, behind.2)) := by
  rw [adaptNodes, adaptNode]
  rfl

/-- Adapting nodes keeps them sound and changes no names, by induction over the forest. The
ledger grows by what is declared on the topmost element.
-/
theorem adaptNodes_spec {outer : List Head} {top : Name} {nodes : List Node}
    {inner : List Head} {made : List Binding} {a : Adaptation} (hout : PathSound made outer)
    (htop : ∀ b, top.binding = some b → b ∈ made) (hinner : PathSound made inner)
    (ha : a.Sound made) (hnodes : Node.AllSound made nodes)
    : ∃ more, made ⊆ more ∧ (adaptNodes outer top inner nodes a).2.Sound more
      ∧ Node.AllSound more (adaptNodes outer top inner nodes a).1
      ∧ Alike Head.Same nodes (adaptNodes outer top inner nodes a).1 := by
  induction nodes using Node.forest_induction generalizing inner made a with
  | nil =>
      rw [adaptNodes]
      exact ⟨made, fun _ h => h, ha, .nil, .nil⟩
  | element h content nodes inside behind =>
      obtain ⟨hh, hcontent, hnodes⟩ := Node.AllSound.element_iff.mp hnodes
      have hpath :
          PathSound made (inner ++ { name := top, bindings := a.declared } :: outer) := by
        intro head hhead b hb
        rcases List.mem_append.mp hhead with hhead | hhead
        · exact hinner head hhead b hb
        · refine PathSound.cons ?_ hout head hhead b hb
          intro b hb
          rcases List.mem_append.mp hb with hb | hb
          · exact (ha.declared b hb).1
          · exact htop b (Option.mem_toList.mp hb)
      obtain ⟨hkept, hbecome⟩ := stripBindings_spec hpath (fun b hb => (hh.bindings b hb).1)
      obtain ⟨made₁, hsub₁, hstate₁, hname, hsame, -⟩ := adaptName_spec false hout
        (ha.become_append hbecome) hh.name (by simp)
      obtain ⟨made₂, hsub₂, hstate₂, hattributes, hsames⟩ := adaptAttributes_spec
        (hout.mono hsub₁) hstate₁ (fun x hx => (hh.attributes x hx).mono hsub₁)
      have hsub := List.Subset.trans hsub₁ hsub₂
      have hhead := hh.of_same (hname.mono hsub₂)
        (fun b hb => ⟨hsub (hh.bindings b (hkept.subset hb)).1,
          (hh.bindings b (hkept.subset hb)).2⟩)
        ((hkept.map _).nodup hh.labels) hattributes hsames
      obtain ⟨made₃, hsub₃, hstate₃, hinside, halike⟩ := inside (hout.mono hsub)
        (fun b hb => hsub (htop b hb)) (.cons hhead.mem_made (hinner.mono hsub)) hstate₂
        (hcontent.mono hsub)
      have hsub := List.Subset.trans hsub hsub₃
      obtain ⟨made₄, hsub₄, hstate₄, hbehind, halike'⟩ := behind (hout.mono hsub)
        (fun b hb => hsub (htop b hb)) (hinner.mono hsub) hstate₃ (hnodes.mono hsub)
      rw [adaptNodes_element]
      refine ⟨made₄, List.Subset.trans hsub hsub₄, hstate₄, ?_, .element ⟨hsame, hsames⟩ halike halike'⟩
      exact Node.AllSound.element_iff.mpr
        ⟨hhead.mono (List.Subset.trans hsub₃ hsub₄), hinside.mono hsub₄, hbehind⟩
  | text s nodes ih =>
      obtain ⟨hs, hnodes⟩ := Node.AllSound.text_iff.mp hnodes
      obtain ⟨more, hsub, hstate, hall, halike⟩ := ih hout htop hinner ha hnodes
      rw [adaptNodes]
      exact ⟨more, hsub, hstate, Node.AllSound.text_iff.mpr ⟨hs, hall⟩, .text s halike⟩
  | entity name nodes ih =>
      obtain ⟨hs, hnodes⟩ := Node.AllSound.entity_iff.mp hnodes
      obtain ⟨more, hsub, hstate, hall, halike⟩ := ih hout htop hinner ha hnodes
      rw [adaptNodes]
      exact ⟨more, hsub, hstate, Node.AllSound.entity_iff.mpr ⟨hs, hall⟩, .entity name halike⟩

/-- Adapting a node to another place keeps it sound and changes no names. -/
theorem Node.adapt_spec {made : List Binding} {outer : List Head} {node : Node}
    {supply : Supply} (hout : PathSound made outer) (hledger : Ledger supply.mark made)
    (hnode : Node.AllSound made [node])
    : ∃ more, made ⊆ more ∧ Ledger (node.adapt outer supply).2.mark more
      ∧ Node.AllSound more [(node.adapt outer supply).1]
      ∧ Alike Head.Same [node] [(node.adapt outer supply).1] := by
  cases node with
  | text s => exact ⟨made, fun _ h => h, hledger, hnode, .text s .nil⟩
  | entity name => exact ⟨made, fun _ h => h, hledger, hnode, .entity name .nil⟩
  | element h content =>
      obtain ⟨hh, hcontent, -⟩ := Node.AllSound.element_iff.mp hnode
      obtain ⟨hkept, hbecome⟩ := stripBindings_spec hout (fun b hb => (hh.bindings b hb).1)
      have ha : Adaptation.Sound made {
          become := (stripBindings outer h.bindings).2
          declared := (stripBindings outer h.bindings).1
          supply } := {
        ledger := hledger
        declared := fun b hb => hh.bindings b (hkept.subset hb)
        labels := (hkept.map _).nodup hh.labels
        become := hbecome }
      obtain ⟨made₁, hsub₁, hstate₁, hname, hsame, -⟩ := adaptName_spec false hout
        ha hh.name (by simp)
      obtain ⟨made₂, hsub₂, hstate₂, hattributes, hsames⟩ := adaptAttributes_spec
        (hout.mono hsub₁) hstate₁ (fun x hx => (hh.attributes x hx).mono hsub₁)
      have hsub := List.Subset.trans hsub₁ hsub₂
      obtain ⟨made₃, hsub₃, hstate₃, hinside, halike⟩ := adaptNodes_spec (hout.mono hsub)
        (fun b hb => hsub₂ (hname.binding b hb).1) .nil hstate₂
        (hcontent.mono hsub)
      refine ⟨made₃, List.Subset.trans hsub hsub₃, hstate₃.ledger, ?_,
        .element ⟨hsame, hsames⟩ halike .nil⟩
      refine Node.AllSound.element_iff.mpr ⟨?_, hinside, .nil⟩
      exact hh.of_same (hname.mono (List.Subset.trans hsub₂ hsub₃)) hstate₃.declared hstate₃.labels
        (fun x hx => (hattributes x hx).mono hsub₃) hsames

-----------------------------------------------------------------------------------------
-- Discarded nodes
-----------------------------------------------------------------------------------------

theorem Node.allTopmost_element (p : Head → Head → Bool) (parent h : Head)
    (content nodes : List Node)
    : Node.allTopmost p parent (.element h content :: nodes)
      = (if p parent h then [.element h content] else Node.allTopmost p h content)
        ++ Node.allTopmost p parent nodes := by
  rw [allTopmost, topmost]

/-- Elements taken out of sound nodes are sound, by induction over the forest. -/
theorem Node.AllSound.topmost {made : List Binding} {nodes : List Node}
    (h : Node.AllSound made nodes) (p : Head → Head → Bool) (parent : Head)
    : ∀ node ∈ Node.allTopmost p parent nodes, Node.AllSound made [node] := by
  induction nodes using Node.forest_induction generalizing parent with
  | nil => simp [Node.allTopmost]
  | element head content nodes inside behind =>
      obtain ⟨hh, hcontent, hnodes⟩ := Node.AllSound.element_iff.mp h
      intro node hnode
      rw [Node.allTopmost_element] at hnode
      rcases List.mem_append.mp hnode with hnode | hnode
      · split at hnode
        · obtain rfl := List.mem_singleton.mp hnode
          exact Node.AllSound.element_iff.mpr ⟨hh, hcontent, .nil⟩
        · exact inside hcontent head node hnode
      · exact behind hnodes parent node hnode
  | text s nodes ih =>
      simpa [Node.allTopmost, Node.topmost] using ih (Node.AllSound.text_iff.mp h).2 parent
  | entity name nodes ih =>
      simpa [Node.allTopmost, Node.topmost] using ih (Node.AllSound.entity_iff.mp h).2 parent

/-- Steps over sound nodes that each keep a ledger keep one together. -/
theorem foldl_ledger (step : Supply → Node → Supply)
    (hstep : ∀ {made : List Binding} {supply : Supply} {node : Node},
      Ledger supply.mark made → Node.AllSound made [node]
      → ∃ more, made ⊆ more ∧ Ledger (step supply node).mark more)
    {made : List Binding} {supply : Supply} {nodes : List Node}
    (hledger : Ledger supply.mark made) (hnodes : ∀ node ∈ nodes, Node.AllSound made [node])
    : ∃ more, made ⊆ more ∧ Ledger (nodes.foldl step supply).mark more := by
  induction nodes generalizing made supply with
  | nil => exact ⟨made, fun _ h => h, hledger⟩
  | cons node nodes ih =>
      rw [List.forall_mem_cons] at hnodes
      obtain ⟨more, hsub, hmore⟩ := hstep hledger hnodes.1
      obtain ⟨most, hsub', hmost⟩ := ih hmore (fun n hn => (hnodes.2 n hn).mono hsub)
      exact ⟨most, List.Subset.trans hsub hsub', hmost⟩

/-- Discarding a node keeps a ledger, by induction over the depth. -/
theorem discardTo_spec {p : Head → Head → Bool} {depth : Nat} {made : List Binding}
    {supply : Supply} {node : Node} (hledger : Ledger supply.mark made)
    (hnode : Node.AllSound made [node])
    : ∃ more, made ⊆ more ∧ Ledger (discardTo p depth node supply).mark more := by
  induction depth generalizing made supply node with
  | zero => exact ⟨made, fun _ h => h, hledger⟩
  | succ depth ih =>
      obtain ⟨more, hsub, hmore, hadapted, -⟩ := Node.adapt_spec .nil hledger hnode
      rw [discardTo]
      split
      · next h content supply' heq =>
          rw [heq] at hmore hadapted
          obtain ⟨-, hcontent, -⟩ := Node.AllSound.element_iff.mp hadapted
          obtain ⟨most, hsub', hmost⟩ := foldl_ledger _ ih hmore (hcontent.topmost p h)
          exact ⟨most, List.Subset.trans hsub hsub', hmost⟩
      · next supply' _ heq =>
          rw [heq] at hmore
          exact ⟨more, hsub, hmore⟩

theorem Node.discard_spec {p : Head → Head → Bool} {made : List Binding} {supply : Supply}
    {node : Node} (hledger : Ledger supply.mark made) (hnode : Node.AllSound made [node])
    : ∃ more, made ⊆ more ∧ Ledger (node.discard p supply).mark more :=
  discardTo_spec hledger hnode

end SvgKit.Xml
