import SvgKit.Proofs.Xml.Tag

/-! The text of a forest, the weight of forests and the footprint of texts. Forests that differ in
the heads of their elements only, and whose texts agree, agree in what their start tags say.
-/

namespace SvgKit.Xml

-----------------------------------------------------------------------------------------
-- Texts of forests
-----------------------------------------------------------------------------------------

@[simp]
theorem Node.writeAll_nil : Node.writeAll [] = [] := by
  rw [writeAll]

@[simp]
theorem Node.writeAll_text (s : Text) (nodes : List Node)
    : Node.writeAll (.text s :: nodes) = s.flatMap escapeText ++ Node.writeAll nodes := by
  rw [writeAll, write]

@[simp]
theorem Node.writeAll_entity (name : Text) (nodes : List Node)
    : Node.writeAll (.entity name :: nodes) = '&' :: name ++ [';'] ++ Node.writeAll nodes := by
  rw [writeAll, write]

theorem Node.writeAll_empty (h : Head) (nodes : List Node)
    : Node.writeAll (.element h [] :: nodes)
      = '<' :: (h.text ++ '/' :: '>' :: Node.writeAll nodes) := by
  rw [writeAll, write]
  simp [elementText]

theorem Node.writeAll_element (h : Head) {content : List Node} (hne : content ≠ [])
    (nodes : List Node)
    : Node.writeAll (.element h content :: nodes)
      = '<' :: (h.text ++ '>' :: (Node.writeAll content
        ++ '<' :: '/' :: (h.name.text ++ '>' :: Node.writeAll nodes))) := by
  rw [writeAll, write]
  simp [elementText, hne]

theorem Element.write_eq (e : Element) : e.write = Node.writeAll e.forest := by
  rw [write, forest, Node.writeAll, Node.write, Node.writeAll_nil, List.append_nil]

theorem Name.Sound.not_mem_text {next : Nat} {made : List Binding} {n : Name} {c : Char}
    (hledger : Ledger next made) (hn : n.Sound made) (hc : c ∈ delimiters)
    : c ∉ n.text := by
  rw [← Name.text_spelling]
  exact (hn.spelling hledger).not_mem_text hc

-----------------------------------------------------------------------------------------
-- Weights
-----------------------------------------------------------------------------------------

/-- The weight of a forest: its tags and the characters outside them. -/
def Node.weight : List Node → Nat
  | [] => 0
  | .element _ content :: nodes =>
    (if content.isEmpty then 1 else weight content + 2) + weight nodes
  | .text s :: nodes => (s.flatMap escapeText).length + weight nodes
  | .entity name :: nodes => name.length + 2 + weight nodes

/-- The number of opened brackets of tags in a text and of characters outside tags. -/
def footprint (inTag : Bool) : Text → Nat
  | [] => 0
  | c :: s =>
    if c = '<' then footprint true s + 1
    else if c = '>' then footprint false s
    else if inTag then footprint true s
    else footprint false s + 1

attribute [simp] Node.weight

@[simp]
theorem Node.weight_append (nodes more : List Node)
    : Node.weight (nodes ++ more) = Node.weight nodes + Node.weight more := by
  induction nodes with
  | nil => simp
  | cons node nodes ih => cases node <;> simp [ih, Nat.add_assoc]

theorem Alike.weight_eq {R : Head → Head → Prop} {nodes nodes' : List Node}
    (h : Alike R nodes nodes')
    : Node.weight nodes' = Node.weight nodes := by
  induction h with
  | nil => rfl
  | element _ hinside _ inside behind => simp [hinside.isEmpty, inside, behind]
  | text s _ ih => simp [ih]
  | entity name _ ih => simp [ih]

/-- Outside tags every character counts. -/
theorem footprint_outside {s rest : Text} (hs : ∀ c ∈ s, c ≠ '<' ∧ c ≠ '>')
    : footprint false (s ++ rest) = s.length + footprint false rest := by
  induction s with
  | nil => simp
  | cons c s ih =>
      rw [List.forall_mem_cons] at hs
      simp only [List.cons_append, footprint, hs.1, ↓reduceIte, Bool.false_eq_true, ih hs.2,
        List.length_cons]
      omega

/-- The inside of a tag does not count. -/
theorem footprint_inside {s rest : Text} (hs : ∀ c ∈ s, c ≠ '<' ∧ c ≠ '>')
    : footprint true (s ++ '>' :: rest) = footprint false rest := by
  induction s with
  | nil => simp [footprint]
  | cons c s ih =>
      rw [List.forall_mem_cons] at hs
      simp only [List.cons_append, footprint, hs.1, ↓reduceIte, ih hs.2]

theorem ne_brackets_of_not_mem {s : Text} (h : ∀ d : Char, d = '<' ∨ d = '>' → d ∉ s)
    : ∀ c ∈ s, c ≠ '<' ∧ c ≠ '>' := by
  intro c hc
  constructor
  · rintro rfl
    exact h '<' (.inl rfl) hc
  · rintro rfl
    exact h '>' (.inr rfl) hc

-----------------------------------------------------------------------------------------
-- Start tags
-----------------------------------------------------------------------------------------

/-- Forests that differ in the heads of their elements only, and whose texts agree, agree in
the texts of their heads, by induction over the pair.
-/
theorem Alike.text_eq_of_write_eq {R : Head → Head → Prop} {next next' : Nat}
    {made made' : List Binding} {nodes nodes' : List Node} {rest rest' : Text}
    (hledger : Ledger next made) (hledger' : Ledger next' made') (halike : Alike R nodes nodes')
    (h : Node.AllSound made nodes) (h' : Node.AllSound made' nodes')
    (heq : Node.writeAll nodes ++ rest = Node.writeAll nodes' ++ rest')
    : Alike (fun h h' => R h h' ∧ h.text = h'.text) nodes nodes' ∧ rest = rest' := by
  have hbracket : '>' ∈ delimiters := by decide
  induction halike generalizing rest rest' with
  | nil => exact ⟨.nil, by simpa using heq⟩
  | @element head head' content content' nodes nodes' hrel hcontent _ inside behind =>
      obtain ⟨hh, hc, hn⟩ := Node.AllSound.element_iff.mp h
      obtain ⟨hh', hc', hn'⟩ := Node.AllSound.element_iff.mp h'
      have htag := hh.not_mem_text hledger (d := '>') (.inr rfl)
      have htag' := hh'.not_mem_text hledger' (d := '>') (.inr rfl)
      have hname := hh.name.not_mem_text hledger hbracket
      have hname' := hh'.name.not_mem_text hledger' hbracket
      by_cases hempty : content = []
      · subst hempty
        cases hcontent
        rw [Node.writeAll_empty, Node.writeAll_empty] at heq
        simp only [List.cons_append, List.append_assoc, List.cons.injEq, true_and] at heq
        have hend {head : Head} (h : '>' ∉ head.text) : '>' ∉ head.text ++ ['/'] := by
          simp [h]
        have heq : (head.text ++ ['/']) ++ '>' :: (Node.writeAll nodes ++ rest)
            = (head'.text ++ ['/']) ++ '>' :: (Node.writeAll nodes' ++ rest') := by
          simpa using heq
        obtain ⟨htext, heq⟩ := eq_of_append_cons_eq (hend htag) (hend htag') heq
        obtain ⟨hbehind, hrest⟩ := behind hn hn' heq
        exact ⟨.element ⟨hrel, List.append_cancel_right htext⟩ .nil hbehind, hrest⟩
      · have hempty' : content' ≠ [] := by
          intro hnil
          have := hcontent.isEmpty
          simp [hnil, hempty] at this
        rw [Node.writeAll_element head hempty, Node.writeAll_element head' hempty'] at heq
        simp only [List.cons_append, List.append_assoc, List.cons.injEq, true_and] at heq
        obtain ⟨htext, heq⟩ := eq_of_append_cons_eq htag htag' heq
        obtain ⟨hinside, heq⟩ := inside hc hc' heq
        simp only [List.cons.injEq, true_and] at heq
        obtain ⟨-, heq⟩ := eq_of_append_cons_eq hname hname' heq
        obtain ⟨hbehind, hrest⟩ := behind hn hn' heq
        exact ⟨.element ⟨hrel, htext⟩ hinside hbehind, hrest⟩
  | text s _ ih =>
      rw [Node.writeAll_text, Node.writeAll_text, List.append_assoc, List.append_assoc] at heq
      obtain ⟨hrest, heq⟩ := ih (Node.AllSound.text_iff.mp h).2 (Node.AllSound.text_iff.mp h').2
        (List.append_cancel_left heq)
      exact ⟨.text s hrest, heq⟩
  | entity name _ ih =>
      simp only [Node.writeAll_entity, List.append_assoc] at heq
      obtain ⟨hrest, heq⟩ := ih (Node.AllSound.entity_iff.mp h).2
        (Node.AllSound.entity_iff.mp h').2
        (List.append_cancel_left (List.append_cancel_left heq))
      exact ⟨.entity name hrest, heq⟩

end SvgKit.Xml
