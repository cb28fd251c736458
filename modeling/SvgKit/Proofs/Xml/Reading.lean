import SvgKit.Proofs.Text.Members
import SvgKit.Proofs.Xml.Declaring
import SvgKit.Proofs.Xml.Doctype
import SvgKit.Proofs.Xml.Tokens
import Mathlib.Data.Option.Basic

/-! A document that is read is sound: by what its tags declare the ledger grows, and the names
in them are resolved to declarations in it.
-/

namespace SvgKit.Xml

-----------------------------------------------------------------------------------------
-- Lists
-----------------------------------------------------------------------------------------

/-- What all steps over a list give corresponds to it in pairs. -/
theorem mapM_eq_some_iff {α β : Type} {f : α → Option β} {l : List α} {l' : List β}
    : l.mapM f = some l' ↔ List.Forall₂ (fun a b => f a = some b) l l' := by
  induction l generalizing l' with
  | nil => cases l' <;> simp
  | cons a l ih =>
      rw [List.mapM_cons]
      cases l' with
      | nil => cases f a <;> cases l.mapM f <;> simp
      | cons b l' =>
          rw [List.forall₂_cons, ← ih]
          cases f a <;> cases l.mapM f <;> simp

/-- What a step over a list gives comes from an item of it. -/
theorem exists_of_mem_mapM {α β : Type} {f : α → Option β} {l : List α} {l' : List β}
    (h : l.mapM f = some l') {b : β} (hb : b ∈ l')
    : ∃ a ∈ l, f a = some b :=
  exists_mem_left_of_forall₂ (mapM_eq_some_iff.mp h) hb

theorem allDistinct_iff {α : Type} [DecidableEq α] {l : List α}
    : allDistinct l = true ↔ l.Nodup := by
  induction l with
  | nil => simp [allDistinct]
  | cons a l ih => simp [allDistinct, ih]

-----------------------------------------------------------------------------------------
-- Start tags
-----------------------------------------------------------------------------------------

/-- An attribute with a sound name and a value of characters of documents. -/
structure RawAttribute.Sound (a : RawAttribute) : Prop where
  name : a.name.Sound
  value : ∀ c ∈ a.value, isChar c
  spelling : ∀ s, a.spelling = some s → IsSpelling s

theorem Doctype.Sound.rawAttribute? {d : Doctype} {element : Spelling}
    {a : Spelling × Value} {raw : RawAttribute} (ha : SoundPair a)
    (h : d.rawAttribute? element a = some raw)
    : raw.Sound := by
  obtain ⟨value, hvalue, rfl⟩ := Option.map_eq_some_iff.mp h
  have hchar := isChar_of_valueText? ha.2 hvalue
  refine ⟨ha.1, ?_, ?_⟩
  · dsimp only
    split
    · intro c hc
      rcases Text.mem_join_of_splitOnChar List.filter_sublist.subset hc with hc | hc
      · obtain rfl := List.mem_singleton.mp hc
        decide
      · exact hchar c hc
    · exact hchar
  · dsimp only
    intro s hs
    split at hs
    · next hentity =>
        cases hs
        exact ⟨a.2, ha.2, hentity, rfl⟩
    · cases hs

/-- A value without references to entities is its own text. -/
theorem valueText?_char (d : Doctype) (s : Text) : d.valueText? (s.map .char) = some s := by
  have hall (expand? : Value → Option Text)
      : (s.map Reference.char).mapM (d.replacement? expand?) = some (s.map ([·])) := by
    rw [mapM_eq_some_iff, List.forall₂_map_left_iff, List.forall₂_map_right_iff,
      List.forall₂_same]
    exact fun c _ => rfl
  rw [Doctype.valueText?]
  cases d.entities.length with
  | zero => rw [Doctype.expand?, hall, Option.map_some, ← List.flatMap_def, List.flatMap_singleton']
  | succ depth =>
      rw [Doctype.expand?, hall, Option.map_some, ← List.flatMap_def, List.flatMap_singleton']

theorem rawAttribute?_char {d : Doctype} (hd : d.rules = []) (element n : Spelling) (s : Text)
    : d.rawAttribute? element (n, s.map .char) = some ⟨n, s, none⟩ := by
  have hentity : (s.map Reference.char).any Reference.isEntity = false := by
    simp [Reference.isEntity]
  simp [Doctype.rawAttribute?, valueText?_char, hentity, Doctype.rule?, hd]

theorem exists_eq_map_char {value : Value} (h : value.any Reference.isEntity = false)
    : ∃ s : Text, value = s.map .char := by
  induction value with
  | nil => exact ⟨[], rfl⟩
  | cons r value ih =>
      rw [List.any_cons, Bool.or_eq_false_iff] at h
      obtain ⟨s, rfl⟩ := ih h.2
      cases r with
      | char c => exact ⟨c :: s, rfl⟩
      | entity name => cases h.1

theorem Doctype.Sound.defaults {d : Doctype} {element : Spelling}
    {given : List (Spelling × Value)} (hd : d.Sound)
    : ∀ a ∈ d.defaults element given, SoundPair a := by
  intro a ha
  obtain ⟨r, hr, hsome⟩ := List.mem_filterMap.mp ha
  split at hsome
  · obtain ⟨value, hvalue, rfl⟩ := Option.map_eq_some_iff.mp hsome
    exact ⟨(hd r hr).name, (hd r hr).default value hvalue⟩
  · cases hsome

/-- The label that an attribute declares determines its name. -/
theorem RawAttribute.name_of_declares? {a : RawAttribute} {label : Option Text}
    (h : a.declares? = some label)
    : a.name = ⟨label.map fun _ => "xmlns", label.getD "xmlns"⟩ := by
  obtain ⟨⟨space, base⟩, value, spelling⟩ := a
  cases space with
  | none =>
      by_cases hbase : base = ("xmlns" : Text)
      · obtain rfl : none = label := by simpa [declares?, hbase] using h
        simp [hbase]
      · simp [declares?, hbase] at h
  | some space =>
      by_cases hspace : space = ("xmlns" : Text)
      · obtain rfl : some base = label := by simpa [declares?, hspace] using h
        simp [hspace]
      · simp [declares?, hspace] at h

/-- The declarations of a tag go into the ledger, by induction over its attributes. -/
theorem bindingsOf?_spec {raw : List RawAttribute} {made bindings : List Binding}
    {mark : Nat} (h : bindingsOf? mark raw = some bindings) (hraw : ∀ a ∈ raw, a.Sound)
    (hnames : (raw.map (·.name)).Nodup) (hledger : Ledger mark made)
    : Ledger (mark + bindings.length) (made ++ bindings)
      ∧ (bindings.map (·.label)).Nodup
      ∧ ∀ b ∈ bindings, b.label ≠ some ("xml" : Text)
        ∧ ∃ a ∈ raw, a.declares? = some b.label := by
  induction raw generalizing made mark bindings with
  | nil =>
      cases h
      simpa using hledger
  | cons a raw ih =>
      rw [List.forall_mem_cons] at hraw
      rw [List.map_cons, List.nodup_cons] at hnames
      have skip (h : bindingsOf? mark raw = some bindings)
          : Ledger (mark + bindings.length) (made ++ bindings)
            ∧ (bindings.map (·.label)).Nodup
            ∧ ∀ b ∈ bindings, b.label ≠ some ("xml" : Text)
              ∧ ∃ a' ∈ a :: raw, a'.declares? = some b.label := by
        obtain ⟨hmade, hlabels, hall⟩ := ih h hraw.2 hnames.2 hledger
        refine ⟨hmade, hlabels, fun b hb => ⟨(hall b hb).1, ?_⟩⟩
        obtain ⟨a', ha', hdeclares⟩ := (hall b hb).2
        exact ⟨a', List.mem_cons_of_mem _ ha', hdeclares⟩
      rw [bindingsOf?] at h
      split at h
      · exact skip h
      · next label hlabel =>
          split at h
          · cases h
          · next hmay =>
              split at h
              · exact skip h
              · next hnotXml =>
                  obtain ⟨rest, hrest, rfl⟩ := Option.map_eq_some_iff.mp h
                  have hmay : mayDeclare label a.value = true := by simpa using hmay
                  have hname : ∀ l, label = some l → IsName l := by
                    rintro l rfl
                    have hbase := hraw.1.name.base
                    rwa [RawAttribute.name_of_declares? hlabel] at hbase
                  have hsound : Binding.Sound ⟨mark, label, a.value⟩ :=
                    ⟨hname, hnotXml, hmay, hraw.1.value⟩
                  obtain ⟨hmade, hlabels, hall⟩ :=
                    ih hrest hraw.2 hnames.2 (hledger.append rfl hsound)
                  refine ⟨?_, ?_, ?_⟩
                  · simpa [Nat.add_comm, Nat.add_left_comm, Nat.add_assoc] using hmade
                  · rw [List.map_cons, List.nodup_cons]
                    refine ⟨?_, hlabels⟩
                    intro hmem
                    obtain ⟨b, hb, heq⟩ := List.mem_map.mp hmem
                    obtain ⟨a', ha', hdeclares⟩ := (hall b hb).2
                    rw [heq] at hdeclares
                    refine hnames.1 (List.mem_map.mpr ⟨a', ha', ?_⟩)
                    rw [RawAttribute.name_of_declares? hdeclares,
                      RawAttribute.name_of_declares? hlabel]
                  · refine List.forall_mem_cons.mpr ⟨⟨hnotXml, a, by simp, hlabel⟩, ?_⟩
                    intro b hb
                    obtain ⟨a', ha', hdeclares⟩ := (hall b hb).2
                    exact ⟨(hall b hb).1, a', List.mem_cons_of_mem _ ha', hdeclares⟩

/-- A label means a declaration in the ledger. -/
theorem lookupLabel?_spec {made scope : List Binding} {label : Option Text} {b : Binding}
    (hxml : .xml ∈ made) (hscope : ∀ b ∈ scope, b ∈ made)
    (h : lookupLabel? scope label = some b)
    : b ∈ made ∧ b.label = label := by
  unfold lookupLabel? at h
  split at h
  · next hlabel =>
      cases h
      exact ⟨hxml, hlabel.symm⟩
  · exact ⟨hscope b (List.mem_of_find?_eq_some h), by simpa using List.find?_some h⟩

/-- Only the default namespace may have an empty name. -/
theorem Ledger.uri_ne_nil {next : Nat} {made : List Binding} (h : Ledger next made)
    {b : Binding} (hb : b ∈ made) (hlabel : b.label ≠ none)
    : b.uri ≠ [] := by
  rcases h.sound b hb with rfl | hs
  · simp [Binding.xml, xmlUri, Text.ofString]
  · have hmay := hs.mayDeclare
    obtain ⟨l, hl⟩ := Option.ne_none_iff_exists'.mp hlabel
    rw [hl, mayDeclare, if_neg (by rintro rfl; exact hs.notXml hl)] at hmay
    simp only [Bool.and_eq_true, Bool.not_eq_true', List.isEmpty_eq_false_iff] at hmay
    exact hmay.1.2

theorem sound_of_elementName? {next : Nat} {made scope : List Binding} {n : Spelling}
    {name : Name} (hledger : Ledger next made) (hscope : ∀ b ∈ scope, b ∈ made)
    (hn : n.Sound) (h : elementName? scope n = some name)
    : name.Sound made := by
  unfold elementName? at h
  split at h
  · next b hspace hlookup =>
      cases h
      refine ⟨hn.base, ?_⟩
      intro b' hb'
      split at hb'
      · cases hb'
      · next hne =>
          cases hb'
          exact ⟨(lookupLabel?_spec hledger.xml hscope hlookup).1, by simpa using hne⟩
  · cases h
    exact ⟨hn.base, by simp⟩
  · next label b hspace hlookup =>
      cases h
      obtain ⟨hmem, hlabel⟩ := lookupLabel?_spec hledger.xml hscope hlookup
      refine ⟨hn.base, ?_⟩
      rintro _ ⟨⟩
      exact ⟨hmem, hledger.uri_ne_nil hmem (by simp [hlabel, hspace])⟩
  · cases h

theorem sound_of_attributeName? {next : Nat} {made scope : List Binding}
    {a : RawAttribute} {name : Name} (hledger : Ledger next made)
    (hscope : ∀ b ∈ scope, b ∈ made) (ha : a.Sound) (hdeclares : a.declares? = none)
    (h : attributeName? scope a.name = some name)
    : Attribute.Sound made ⟨name, a.value, a.spelling⟩ := by
  unfold attributeName? at h
  split at h
  · next hspace =>
      cases h
      refine ⟨⟨ha.name.base, by simp⟩, by simp, fun _ => ?_, ha.value, ha.spelling⟩
      intro hbase
      have hbase : a.name.base = ("xmlns" : Text) := hbase
      simp [RawAttribute.declares?, hspace, hbase] at hdeclares
  · next label hspace =>
      obtain ⟨b, hlookup, rfl⟩ := Option.map_eq_some_iff.mp h
      obtain ⟨hmem, hlabel⟩ := lookupLabel?_spec hledger.xml hscope hlookup
      have hne : b.label ≠ none := by simp [hlabel]
      refine ⟨⟨ha.name.base, ?_⟩, ?_, by simp, ha.value, ha.spelling⟩
      · rintro _ ⟨⟩
        exact ⟨hmem, hledger.uri_ne_nil hmem hne⟩
      · rintro _ ⟨⟩
        exact hne

/-- The parts from which the head of an element is read. -/
theorem readHead?_eq_some_iff {d : Doctype} {scope : List Binding} {mark : Nat}
    {name : Spelling} {given : List (Spelling × Value)} {head : Head}
    : readHead? d scope mark name given = some head
      ↔ ∃ raw, (given ++ d.defaults name given).mapM (d.rawAttribute? name) = some raw
        ∧ (raw.map (·.name)).Nodup
        ∧ bindingsOf? mark raw = some head.bindings
        ∧ elementName? (head.bindings ++ scope) name = some head.name
        ∧ (raw.filter (·.declares?.isNone)).mapM (fun a =>
          (attributeName? (head.bindings ++ scope) a.name).map fun name =>
            (⟨name, a.value, a.spelling⟩ : Attribute)) = some head.attributes
        ∧ (head.attributes.map fun a => (a.name.uri?, a.name.base)).Nodup := by
  simp only [← allDistinct_iff]
  constructor
  · intro h
    simp only [readHead?, Option.bind_eq_bind, Option.bind_eq_some_iff, Option.guard_eq_some',
      Option.pure_def, Option.some.injEq] at h
    obtain ⟨raw, hraw, _, hnames, bindings, hbindings, elementName, helement, attributes,
      hattributes, _, hdistinct, rfl⟩ := h
    exact ⟨raw, hraw, hnames, hbindings, helement, hattributes, hdistinct⟩
  · rintro ⟨raw, hraw, hnames, hbindings, helement, hattributes, hdistinct⟩
    simp only [readHead?, Option.bind_eq_bind, Option.bind_eq_some_iff, Option.guard_eq_some',
      Option.pure_def, Option.some.injEq]
    exact ⟨raw, hraw, (), hnames, _, hbindings, _, helement, _, hattributes, (), hdistinct,
      rfl⟩

/-- A head that is read is sound, with its declarations in the ledger. -/
theorem sound_of_readHead? {d : Doctype} {scope made : List Binding} {mark : Nat}
    {name : Spelling} {given : List (Spelling × Value)} {head : Head} (hd : d.Sound)
    (hledger : Ledger mark made) (hscope : ∀ b ∈ scope, b ∈ made) (hname : name.Sound)
    (hgiven : ∀ a ∈ given, SoundPair a)
    (h : readHead? d scope mark name given = some head)
    : Ledger (mark + head.bindings.length) (made ++ head.bindings)
      ∧ head.Sound (made ++ head.bindings) := by
  obtain ⟨raw, hraw, hnames, hbindings, helement, hattributes, hdistinct⟩ :=
    readHead?_eq_some_iff.mp h
  have hpairs : ∀ a ∈ given ++ d.defaults name given, SoundPair a :=
    List.forall_mem_append.mpr ⟨hgiven, hd.defaults⟩
  have hsound : ∀ a ∈ raw, a.Sound := by
    intro a ha
    obtain ⟨pair, hpair, hread⟩ := exists_of_mem_mapM hraw ha
    exact Doctype.Sound.rawAttribute? (hpairs pair hpair) hread
  obtain ⟨hmade, hlabels, hall⟩ := bindingsOf?_spec hbindings hsound hnames hledger
  have hinner : ∀ b ∈ head.bindings ++ scope, b ∈ made ++ head.bindings :=
    List.forall_mem_append.mpr ⟨fun b hb => List.mem_append_right _ hb,
      fun b hb => List.mem_append_left _ (hscope b hb)⟩
  refine ⟨hmade, sound_of_elementName? hmade hinner hname helement,
    fun b hb => ⟨List.mem_append_right _ hb, (hall b hb).1⟩, hlabels, ?_, hdistinct⟩
  intro a ha
  obtain ⟨b, hb, hread⟩ := exists_of_mem_mapM hattributes ha
  obtain ⟨n, hn, rfl⟩ := Option.map_eq_some_iff.mp hread
  rw [List.mem_filter] at hb
  exact sound_of_attributeName? hmade hinner (hsound b hb.1)
    (Option.isNone_iff_eq_none.mp hb.2) hn

-----------------------------------------------------------------------------------------
-- Trees
-----------------------------------------------------------------------------------------

theorem Node.AllSound.reverse {made : List Binding} {nodes : List Node}
    (h : Node.AllSound made nodes)
    : Node.AllSound made nodes.reverse := by
  induction nodes with
  | nil => exact h
  | cons node nodes ih =>
      have hsplit : Node.AllSound made ([node] ++ nodes) := h
      rw [Node.AllSound.append_iff] at hsplit
      rw [List.reverse_cons, Node.AllSound.append_iff]
      exact ⟨ih hsplit.2, hsplit.1⟩

/-- An open element in which everything so far is sound. -/
structure Frame.Sound (made : List Binding) (f : Frame) : Prop where
  head : f.head.Sound made
  scope : ∀ b ∈ f.scope, b ∈ made
  done : Node.AllSound made f.done
  pending : ∀ s, f.pending = some s → ∀ c ∈ s, isChar c

/-- Open elements in which everything so far is sound, with what they declare in the ledger. -/
structure Progress.Sound (made : List Binding) (p : Progress) : Prop where
  ledger : Ledger p.mark made
  frames : ∀ f ∈ p.frames, f.Sound made
  root : ∀ e, p.root = some e → Node.AllSound made e.forest

namespace Frame.Sound

variable {made : List Binding} {f : Frame}

theorem mono {more : List Binding} (h : f.Sound made) (hsub : made ⊆ more) : f.Sound more :=
  ⟨h.head.mono hsub, fun b hb => hsub (h.scope b hb), h.done.mono hsub, h.pending⟩

theorem nodes (h : f.Sound made) : Node.AllSound made f.nodes := by
  unfold Frame.nodes
  split
  · exact h.done
  · next s hs => exact Node.AllSound.text_iff.mpr ⟨by simpa using h.pending s hs, h.done⟩

theorem addText {s : Text} (h : f.Sound made) (hs : ∀ c ∈ s, isChar c)
    : (f.addText s).Sound made := by
  refine { h with pending := ?_ }
  rintro _ ⟨⟩
  refine List.forall_mem_append.mpr ⟨by simpa using hs, ?_⟩
  cases hp : f.pending with
  | none => simp
  | some t => exact h.pending t hp

theorem addSegment {s : Text} {ahead : Ahead} (h : f.Sound made) (hs : ∀ c ∈ s, isChar c)
    : (f.addSegment s ahead).Sound made := by
  unfold Frame.addSegment
  split
  · exact h
  · exact { h.addText hs with }

theorem addNode {node : Node} (h : f.Sound made) (hnode : Node.AllSound made [node])
    : (f.addNode node).Sound made := by
  have hsplit : Node.AllSound made ([node] ++ f.nodes) :=
    Node.AllSound.append_iff.mpr ⟨hnode, h.nodes⟩
  exact ⟨h.head, h.scope, hsplit, by simp [Frame.addNode]⟩

end Frame.Sound

namespace Progress.Sound

variable {made : List Binding} {p : Progress}

theorem addElement {e : Element} (h : p.Sound made) (he : Node.AllSound made e.forest)
    : (p.addElement e).Sound made := by
  unfold Progress.addElement
  split
  · refine { h with root := ?_ }
    rintro _ ⟨⟩
    exact he
  · next f frames hframes =>
      have hall := h.frames
      rw [hframes, List.forall_mem_cons] at hall
      exact { h with frames := List.forall_mem_cons.mpr ⟨hall.1.addNode he, hall.2⟩ }

theorem open? {d : Doctype} {p' : Progress} {name : Spelling}
    {given : List (Spelling × Value)} (hd : d.Sound) (h : p.Sound made) (hname : name.Sound)
    (hgiven : ∀ a ∈ given, SoundPair a) (hopen : p.open? d name given = some p')
    : ∃ more, made ⊆ more ∧ p'.Sound more := by
  unfold Progress.open? at hopen
  split at hopen
  · cases hopen
  · obtain ⟨head, hhead, rfl⟩ := Option.map_eq_some_iff.mp hopen
    have hscope : ∀ b ∈ (p.frames.head?.map (·.scope)).getD [], b ∈ made := by
      cases hframes : p.frames with
      | nil => simp
      | cons f frames => exact (h.frames f (by rw [hframes]; exact List.mem_cons_self)).scope
    obtain ⟨hledger, hsound⟩ := sound_of_readHead? hd h.ledger hscope hname hgiven hhead
    have hsub := List.subset_append_left made head.bindings
    refine ⟨made ++ head.bindings, hsub, hledger, ?_, fun e he => (h.root e he).mono hsub⟩
    refine List.forall_mem_cons.mpr ⟨⟨hsound, ?_, .nil, by simp⟩, fun f hf =>
      (h.frames f hf).mono hsub⟩
    exact List.forall_mem_append.mpr ⟨fun b hb => List.mem_append_right _ hb,
      fun b hb => hsub (hscope b hb)⟩

theorem close? {p' : Progress} {name : Spelling} (h : p.Sound made)
    (hclose : p.close? name = some p')
    : p'.Sound made := by
  unfold Progress.close? at hclose
  split at hclose
  · cases hclose
  · next f frames hframes =>
      split at hclose
      · cases hclose
        have hall := h.frames
        rw [hframes, List.forall_mem_cons] at hall
        refine addElement { h with frames := hall.2 } ?_
        exact Node.AllSound.element_iff.mpr ⟨hall.1.head, hall.1.nodes.reverse, .nil⟩
      · cases hclose

/-- Taking in a sound token keeps everything sound. -/
theorem take? {d : Doctype} {p' : Progress} {token : Token} (hd : d.Sound)
    (h : p.Sound made) (htoken : token.Sound) (htake : p.take? d token = some p')
    : ∃ more, made ⊆ more ∧ p'.Sound more := by
  have hfirst {f f' : Frame} {frames : List Frame} (hframes : p.frames = f :: frames)
      (hf : f.Sound made → f'.Sound made)
      : Progress.Sound made { p with frames := f' :: frames } := by
    have hall := h.frames
    rw [hframes, List.forall_mem_cons] at hall
    exact { h with frames := List.forall_mem_cons.mpr ⟨hf hall.1, hall.2⟩ }
  unfold Progress.take? at htake
  split at htake
  · next name attributes isEmpty _ =>
      obtain ⟨opened, hopen, hclose⟩ := Option.bind_eq_some_iff.mp htake
      obtain ⟨more, hsub, hmore⟩ := h.open? hd htoken.1 htoken.2 hopen
      refine ⟨more, hsub, ?_⟩
      split at hclose
      · exact hmore.close? hclose
      · cases hclose
        exact hmore
  · exact ⟨made, fun _ h => h, h.close? htake⟩
  · next s ahead f frames hframes =>
      cases htake
      exact ⟨made, fun _ h => h, hfirst hframes fun hf => hf.addSegment htoken⟩
  · split at htake
    · cases htake
      exact ⟨made, fun _ h => h, h⟩
    · cases htake
  · next s f frames hframes =>
      cases htake
      exact ⟨made, fun _ h => h, hfirst hframes fun hf => hf.addText htoken⟩
  · cases htake
  · next name f frames hframes =>
      split at htake
      · cases htake
        exact ⟨made, fun _ h => h, hfirst hframes fun hf =>
          hf.addNode (Node.AllSound.entity_iff.mpr ⟨htoken, .nil⟩)⟩
      · cases htake
  · cases htake

/-- Taking in sound tokens keeps everything sound, by induction over them. -/
theorem foldlM {d : Doctype} {p' : Progress} {tokens : List Token} (hd : d.Sound)
    (h : p.Sound made) (htokens : ∀ token ∈ tokens, token.Sound)
    (hfold : tokens.foldlM (Progress.take? d) p = some p')
    : ∃ more, made ⊆ more ∧ p'.Sound more := by
  induction tokens generalizing made p with
  | nil =>
      cases hfold
      exact ⟨made, fun _ h => h, h⟩
  | cons token tokens ih =>
      rw [List.forall_mem_cons] at htokens
      obtain ⟨next, hnext, hrest⟩ := Option.bind_eq_some_iff.mp hfold
      obtain ⟨more, hsub, hmore⟩ := h.take? hd htokens.1 hnext
      obtain ⟨most, hsub', hmost⟩ := ih hmore htokens.2 hrest
      exact ⟨most, List.Subset.trans hsub hsub', hmost⟩

end Progress.Sound

theorem sound_of_ofTokens? {d : Doctype} {tokens : List Token} {document : Document}
    (hd : d.Sound) (htokens : ∀ token ∈ tokens, token.Sound)
    (h : Document.ofTokens? d tokens = some document)
    : ∃ made, document.Sound made := by
  unfold Document.ofTokens? at h
  split at h
  · next p hp =>
      have hstart : Progress.Sound [.xml] {} := ⟨ledger_nil, by simp, by simp⟩
      obtain ⟨made, -, hmade⟩ := hstart.foldlM hd htokens hp
      split at h
      · obtain ⟨root, hroot, rfl⟩ := Option.map_eq_some_iff.mp h
        exact ⟨made, hmade.ledger, hmade.root root hroot⟩
      · cases h
  · cases h

/-- The declaration of the document type in front of what tokens build. -/
theorem ofText?_eq_some {s : Text} {document : Document}
    (h : Document.ofText? s = some document)
    : ∃ (d : Doctype) (before after : Text) (tokens : List Token) (incomplete : Bool),
      readDoctypeOrNone? before = some (d, after)
      ∧ tokens? ((dropMisc? after).getD []) = some tokens
      ∧ Document.ofTokens? { d with incomplete } tokens = some document := by
  unfold Document.ofText? at h
  simp only [Option.bind_eq_bind, Option.bind_eq_some_iff] at h
  obtain ⟨⟨alone, rest⟩, -, before, -, ⟨d, after⟩, hdoctype, body, hbody, tokens, htokens,
    hdocument⟩ := h
  exact ⟨d, before, after, tokens, _, hdoctype, by simpa [hbody] using htokens, hdocument⟩

/-- A document that is read is sound. -/
theorem sound_of_ofText? {s : Text} {document : Document}
    (h : Document.ofText? s = some document)
    : ∃ made, document.Sound made := by
  obtain ⟨d, before, after, tokens, incomplete, hdoctype, htokens, hdocument⟩ :=
    ofText?_eq_some h
  have hd : d.Sound := by
    unfold readDoctypeOrNone? at hdoctype
    split at hdoctype
    · exact sound_of_readDoctype? hdoctype
    · cases hdoctype
      simp [Doctype.Sound]
  exact sound_of_ofTokens? (d := { d with incomplete }) hd (sound_of_tokens? htokens) hdocument

end SvgKit.Xml
