import SvgKit.Proofs.Xml.Sound
import SvgKit.Xml.Writer

/-! What the text of a start tag says: a spelled name, and pairs of spelled names and spelled
values. It can be told from the text which pairs they are.
-/

namespace SvgKit.Xml

-----------------------------------------------------------------------------------------
-- Spelled names
-----------------------------------------------------------------------------------------

/-- The name as it is spelled. -/
def Name.spelling (n : Name) : Spelling := ⟨n.binding.bind (·.label), n.base⟩

/-- The name of the attribute that declares a namespace, as it is spelled. -/
def Binding.spelling (b : Binding) : Spelling :=
  ⟨b.label.map fun _ => "xmlns", b.label.getD "xmlns"⟩

theorem Name.text_spelling (n : Name) : n.spelling.text = n.text := by
  unfold spelling Spelling.text text
  cases n.binding.bind (·.label) <;> rfl

theorem Binding.text_spelling (b : Binding) : b.spelling.text = b.name := by
  unfold spelling Spelling.text name
  cases b.label with
  | none => rfl
  | some label => simp [Text.ofString]

theorem isName_xmlns : IsName ("xmlns" : Text) := by
  simp [IsName, Text.ofString]
  decide

theorem Name.Sound.spelling {next : Nat} {made : List Binding} {n : Name}
    (hledger : Ledger next made) (hn : n.Sound made)
    : n.spelling.Sound := by
  refine ⟨hn.base, fun label hl => ?_⟩
  obtain ⟨b, hb, hlabel⟩ := Option.bind_eq_some_iff.mp hl
  exact hledger.isName_label (hn.binding b hb).1 hlabel

theorem Ledger.sound_spelling {next : Nat} {made : List Binding} {b : Binding}
    (hledger : Ledger next made) (hb : b ∈ made)
    : b.spelling.Sound := by
  unfold Binding.spelling
  cases hl : b.label with
  | none => exact ⟨isName_xmlns, by simp⟩
  | some label =>
      refine ⟨hledger.isName_label hb hl, ?_⟩
      rintro _ ⟨⟩
      exact isName_xmlns

-----------------------------------------------------------------------------------------
-- Pairs
-----------------------------------------------------------------------------------------

/-- The declarations of a head and its attributes, as they are spelled. -/
def Head.pairs (h : Head) : List (Spelling × Text) :=
  h.bindings.map (fun b => (b.spelling, b.uri.flatMap escapeValue))
    ++ h.attributes.map fun a => (a.name.spelling, a.spelled)

/-- The text of a pair. -/
def pairText (pair : Spelling × Text) : Text := attributeText pair.1.text pair.2

theorem Head.text_eq (h : Head)
    : h.text = h.name.spelling.text ++ h.pairs.flatMap pairText := by
  simp [Head.text, pairs, pairText, List.flatMap_append, List.flatMap_map,
    Name.text_spelling, Binding.text_spelling]

theorem not_mem_flatMap_escapeValue {s : Text} {d : Char}
    (hd : d = '"' ∨ d = '<' ∨ d = '>')
    : d ∉ s.flatMap escapeValue := by
  intro hmem
  obtain ⟨c, _, hc⟩ := List.mem_flatMap.mp hmem
  exact not_mem_escapeValue hd hc

theorem Attribute.Sound.not_mem_spelled {made : List Binding} {a : Attribute} {d : Char}
    (ha : a.Sound made) (hd : d = '"' ∨ d = '<' ∨ d = '>')
    : d ∉ a.spelled := by
  unfold spelled
  cases hs : a.spelling with
  | none => exact not_mem_flatMap_escapeValue hd
  | some s =>
      obtain ⟨value, hvalue, -, rfl⟩ := ha.spelling s hs
      intro hmem
      obtain ⟨r, hr, hc⟩ := List.mem_flatMap.mp hmem
      exact (hvalue r hr).not_mem_spelled hd hc

/-- The pairs of a sound head: names, and values without quotes and brackets of tags. -/
theorem Head.Sound.pairs {next : Nat} {made : List Binding} {h : Head}
    (hledger : Ledger next made) (hs : h.Sound made)
    : ∀ pair ∈ h.pairs, pair.1.Sound
      ∧ ∀ d : Char, d = '"' ∨ d = '<' ∨ d = '>' → d ∉ pair.2 := by
  refine List.forall_mem_append.mpr ⟨?_, ?_⟩
  · refine List.forall_mem_map.mpr fun b hb => ?_
    exact ⟨hledger.sound_spelling (hs.bindings b hb).1, fun d hd =>
      not_mem_flatMap_escapeValue hd⟩
  · refine List.forall_mem_map.mpr fun a ha => ?_
    exact ⟨(hs.attributes a ha).name.spelling hledger, fun d hd =>
      (hs.attributes a ha).not_mem_spelled hd⟩

theorem not_mem_pairText {pair : Spelling × Text} {d : Char} (hname : pair.1.Sound)
    (hvalue : d ∉ pair.2) (hd : d = '<' ∨ d = '>')
    : d ∉ pairText pair := by
  have hmem : d ∈ delimiters := by rcases hd with rfl | rfl <;> decide
  have hname := hname.not_mem_text hmem
  rcases hd with rfl | rfl <;> simp [pairText, attributeText, hname, hvalue]

/-- A start tag holds no bracket of a tag inside. -/
theorem Head.Sound.not_mem_text {next : Nat} {made : List Binding} {h : Head} {d : Char}
    (hledger : Ledger next made) (hs : h.Sound made) (hd : d = '<' ∨ d = '>')
    : d ∉ h.text := by
  rw [Head.text_eq]
  intro hmem
  rcases List.mem_append.mp hmem with hmem | hmem
  · refine (hs.name.spelling hledger).not_mem_text ?_ hmem
    rcases hd with rfl | rfl <;> decide
  · obtain ⟨pair, hpair, hmem⟩ := List.mem_flatMap.mp hmem
    obtain ⟨hname, hvalue⟩ := hs.pairs hledger pair hpair
    exact not_mem_pairText hname (hvalue d (.inr hd)) hd hmem

-----------------------------------------------------------------------------------------
-- Telling pairs apart
-----------------------------------------------------------------------------------------

/-- What stands in front of the first occurrence of a character is determined. -/
theorem eq_of_append_cons_eq {α : Type} {x : α} {l l' rest rest' : List α} (hl : x ∉ l)
    (hl' : x ∉ l') (h : l ++ x :: rest = l' ++ x :: rest')
    : l = l' ∧ rest = rest' := by
  induction l generalizing l' with
  | nil =>
      cases l' with
      | nil => simpa using h
      | cons y l' =>
          simp only [List.nil_append, List.cons_append, List.cons.injEq] at h
          simp [h.1] at hl'
  | cons y l ih =>
      cases l' with
      | nil =>
          simp only [List.nil_append, List.cons_append, List.cons.injEq] at h
          simp [h.1] at hl
      | cons y' l' =>
          simp only [List.cons_append, List.cons.injEq, List.mem_cons, not_or] at h hl hl'
          obtain ⟨rfl, hrest⟩ := ih hl.2 hl'.2 h.2
          exact ⟨by rw [h.1], hrest⟩

/-- Pairs whose texts agree are the same, by induction over the pairs. -/
theorem pairs_injective {pairs pairs' : List (Spelling × Text)}
    (hpairs : ∀ pair ∈ pairs, pair.1.Sound ∧ '"' ∉ pair.2)
    (hpairs' : ∀ pair ∈ pairs', pair.1.Sound ∧ '"' ∉ pair.2)
    (h : pairs.flatMap pairText = pairs'.flatMap pairText)
    : pairs = pairs' := by
  induction pairs generalizing pairs' with
  | nil =>
      cases pairs' with
      | nil => rfl
      | cons => simp [pairText, attributeText] at h
  | cons pair pairs ih =>
      cases pairs' with
      | nil => simp [pairText, attributeText] at h
      | cons pair' pairs' =>
          rw [List.forall_mem_cons] at hpairs hpairs'
          simp only [List.flatMap_cons, pairText, attributeText, List.cons_append,
            List.append_assoc, List.cons.injEq, true_and] at h
          have hequals : '=' ∈ delimiters := by decide
          obtain ⟨hname, h⟩ := eq_of_append_cons_eq (hpairs.1.1.not_mem_text hequals)
            (hpairs'.1.1.not_mem_text hequals) h
          simp only [List.cons.injEq, true_and] at h
          obtain ⟨hvalue, h⟩ := eq_of_append_cons_eq hpairs.1.2 hpairs'.1.2 h
          rw [ih hpairs.2 hpairs'.2 h]
          exact congrArg (· :: pairs')
            (Prod.ext (hpairs.1.1.text_injective hpairs'.1.1 hname) hvalue)

/-- Start tags whose texts agree have the same name and the same pairs. -/
theorem Head.Sound.text_injective {next next' : Nat} {made made' : List Binding} {h h' : Head}
    (hledger : Ledger next made) (hledger' : Ledger next' made') (hs : h.Sound made)
    (hs' : h'.Sound made') (heq : h.text = h'.text)
    : h.name.spelling = h'.name.spelling ∧ h.pairs = h'.pairs := by
  have hpairs := fun pair hpair =>
    And.imp_right (fun h => h '"' (.inl rfl)) (hs.pairs hledger pair hpair)
  have hpairs' := fun pair hpair =>
    And.imp_right (fun h => h '"' (.inl rfl)) (hs'.pairs hledger' pair hpair)
  have hspace : ' ' ∈ delimiters := by decide
  have hname := (hs.name.spelling hledger).not_mem_text hspace
  have hname' := (hs'.name.spelling hledger').not_mem_text hspace
  have hsplit (pairs : List (Spelling × Text))
      : pairs.flatMap pairText = [] ∨ ∃ rest, pairs.flatMap pairText = ' ' :: rest := by
    cases pairs with
    | nil => exact .inl rfl
    | cons pair pairs => exact .inr ⟨_, by simp [pairText, attributeText]; rfl⟩
  rw [Head.text_eq, Head.text_eq] at heq
  have key : h.name.spelling.text = h'.name.spelling.text
      ∧ h.pairs.flatMap pairText = h'.pairs.flatMap pairText := by
    rcases hsplit h.pairs with hp | ⟨rest, hp⟩ <;>
      rcases hsplit h'.pairs with hp' | ⟨rest', hp'⟩
    · simpa [hp, hp'] using heq
    · rw [hp, hp', List.append_nil] at heq
      exact absurd (heq ▸ hname) (by simp)
    · rw [hp, hp', List.append_nil] at heq
      exact absurd (heq ▸ hname') (by simp)
    · rw [hp, hp'] at heq
      obtain ⟨htext, rfl⟩ := eq_of_append_cons_eq hname hname' heq
      exact ⟨htext, by rw [hp, hp']⟩
  exact ⟨(hs.name.spelling hledger).text_injective (hs'.name.spelling hledger') key.1,
    pairs_injective hpairs hpairs' key.2⟩

-----------------------------------------------------------------------------------------
-- Declarations among pairs
-----------------------------------------------------------------------------------------

theorem Binding.declares?_spelling (b : Binding) (value : Text) (spelling : Option Text)
    : RawAttribute.declares? ⟨b.spelling, value, spelling⟩ = some b.label := by
  unfold Binding.spelling
  cases b.label with
  | none => simp [RawAttribute.declares?]
  | some label => simp [RawAttribute.declares?]

/-- The name of a sound attribute declares nothing. -/
theorem Attribute.Sound.declares?_spelling {next : Nat} {made : List Binding} {a : Attribute}
    (hledger : Ledger next made) (ha : a.Sound made) (value : Text) (spelling : Option Text)
    : RawAttribute.declares? ⟨a.name.spelling, value, spelling⟩ = none := by
  unfold Name.spelling
  cases hbinding : a.name.binding with
  | none => simp [RawAttribute.declares?, ha.plain hbinding]
  | some b =>
      obtain ⟨label, hlabel⟩ := Option.ne_none_iff_exists'.mp (ha.labelled b hbinding)
      have hne := hledger.label_ne_xmlns (ha.name.binding b hbinding).1
      rw [hlabel] at hne
      have hne : label ≠ ("xmlns" : Text) := fun h => hne (congrArg some h)
      simp [RawAttribute.declares?, hlabel, hne]

/-- Sound heads with the same pairs have the same declarations and attributes, as these are
spelled.
-/
theorem Head.Sound.parts_eq {next next' : Nat} {made made' : List Binding} {h h' : Head}
    (hledger : Ledger next made) (hledger' : Ledger next' made') (hs : h.Sound made)
    (hs' : h'.Sound made') (heq : h.pairs = h'.pairs)
    : h.bindings.map (fun b => (b.spelling, b.uri.flatMap escapeValue))
        = h'.bindings.map (fun b => (b.spelling, b.uri.flatMap escapeValue))
      ∧ h.attributes.map (fun a => (a.name.spelling, a.spelled))
        = h'.attributes.map fun a => (a.name.spelling, a.spelled) := by
  let declares (pair : Spelling × Text) : Bool :=
    (RawAttribute.declares? ⟨pair.1, pair.2, none⟩).isSome
  have hbindings (h : Head)
      : (h.bindings.map fun b => (b.spelling, b.uri.flatMap escapeValue)).filter declares
          = h.bindings.map (fun b => (b.spelling, b.uri.flatMap escapeValue))
        ∧ (h.bindings.map fun b => (b.spelling, b.uri.flatMap escapeValue)).filter
          (!declares ·) = [] := by
    simp [declares, Binding.declares?_spelling]
  have hattributes {next : Nat} {made : List Binding} {h : Head} (hledger : Ledger next made)
      (hs : h.Sound made)
      : (h.attributes.map fun a => (a.name.spelling, a.spelled)).filter declares = []
        ∧ (h.attributes.map fun a => (a.name.spelling, a.spelled)).filter (!declares ·)
          = h.attributes.map fun a => (a.name.spelling, a.spelled) := by
    have hnone : ∀ a ∈ h.attributes, declares (a.name.spelling, a.spelled) = false := by
      intro a ha
      simp [declares, (hs.attributes a ha).declares?_spelling hledger]
    simpa using hnone
  have hyes := congrArg (List.filter declares) heq
  have hno := congrArg (List.filter (!declares ·)) heq
  simp only [Head.pairs, List.filter_append, (hbindings _).1, (hbindings _).2,
    (hattributes hledger hs).1, (hattributes hledger hs).2, (hattributes hledger' hs').1,
    (hattributes hledger' hs').2, List.append_nil, List.nil_append] at hyes hno
  exact ⟨hyes, hno⟩

end SvgKit.Xml
