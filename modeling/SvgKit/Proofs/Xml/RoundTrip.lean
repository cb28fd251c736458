import SvgKit.Proofs.Xml.Absorption
import SvgKit.Proofs.Xml.Footprint
import SvgKit.Proofs.Xml.Tidy

/-! The text of a forest has its weight and is read back tag by tag, whatever its start tags say:
either every start tag is read as a head, or the text cannot be read.
-/

namespace SvgKit.Xml

-----------------------------------------------------------------------------------------
-- Start tags that say other things
-----------------------------------------------------------------------------------------

/-- The head that a start tag is read as where nothing is declared. -/
def Tag.read? (scope : List Binding) (mark : Nat) (t : Tag) : Option Head :=
  readHead? {} scope mark t.name t.given

mutual

/-- The text of a node whose start tags say what is given for their heads. -/
def Node.writeWith (tagOf : Head → Tag) : Node → Text
  | .element h content =>
    if content.isEmpty then '<' :: ((tagOf h).text ++ ['/', '>'])
    else
      '<' :: ((tagOf h).text ++ '>' :: (Node.writeAllWith tagOf content
        ++ '<' :: '/' :: (h.name.text ++ ['>'])))
  | .text s => s.flatMap escapeText
  | .entity name => '&' :: (name ++ [';'])

/-- The text of nodes whose start tags say what is given for their heads. -/
def Node.writeAllWith (tagOf : Head → Tag) : List Node → Text
  | [] => []
  | node :: nodes => node.writeWith tagOf ++ Node.writeAllWith tagOf nodes

end

@[simp]
theorem Node.writeAllWith_nil (tagOf : Head → Tag) : Node.writeAllWith tagOf [] = [] := by
  rw [writeAllWith]

theorem Node.writeAllWith_empty (tagOf : Head → Tag) (h : Head) (nodes : List Node)
    : Node.writeAllWith tagOf (.element h [] :: nodes)
      = '<' :: ((tagOf h).text ++ '/' :: '>' :: Node.writeAllWith tagOf nodes) := by
  rw [writeAllWith, writeWith]
  simp

theorem Node.writeAllWith_element (tagOf : Head → Tag) (h : Head) {content : List Node}
    (hne : content ≠ []) (nodes : List Node)
    : Node.writeAllWith tagOf (.element h content :: nodes)
      = '<' :: ((tagOf h).text ++ '>' :: (Node.writeAllWith tagOf content
        ++ '<' :: '/' :: (h.name.text ++ '>' :: Node.writeAllWith tagOf nodes))) := by
  rw [writeAllWith, writeWith]
  simp [hne]

@[simp]
theorem Node.writeAllWith_text (tagOf : Head → Tag) (s : Text) (nodes : List Node)
    : Node.writeAllWith tagOf (.text s :: nodes)
      = s.flatMap escapeText ++ Node.writeAllWith tagOf nodes := by
  rw [writeAllWith, writeWith]

@[simp]
theorem Node.writeAllWith_entity (tagOf : Head → Tag) (name : Text) (nodes : List Node)
    : Node.writeAllWith tagOf (.entity name :: nodes)
      = '&' :: (name ++ ';' :: Node.writeAllWith tagOf nodes) := by
  rw [writeAllWith, writeWith]
  simp

/-- The tags of the heads make the text of a sound forest, by induction over the forest. -/
theorem Node.writeAllWith_tag {made : List Binding} {nodes : List Node}
    (h : Node.AllSound made nodes)
    : Node.writeAllWith Head.tag nodes = Node.writeAll nodes := by
  induction nodes using Node.forest_induction with
  | nil => simp
  | element head content nodes inside behind =>
      obtain ⟨hhead, hcontent, hnodes⟩ := Node.AllSound.element_iff.mp h
      cases content with
      | nil => rw [writeAllWith_empty, writeAll_empty, hhead.text_tag, behind hnodes]
      | cons node content =>
          rw [writeAllWith_element _ _ (by simp), writeAll_element _ (by simp), hhead.text_tag,
            inside hcontent, behind hnodes]
  | text s nodes ih => rw [writeAllWith_text, writeAll_text, ih (Node.AllSound.text_iff.mp h).2]
  | entity name nodes ih =>
      rw [writeAllWith_entity, writeAll_entity, ih (Node.AllSound.entity_iff.mp h).2]
      simp

/-- The footprint of the text of a forest is its weight, whatever its start tags say, by induction
over the forest.
-/
theorem footprint_writeAllWith {tagOf : Head → Tag} {next : Nat} {made : List Binding}
    {nodes : List Node} (hledger : Ledger next made) (h : Node.AllSound made nodes)
    (htags : ∀ head ∈ Node.allHeads nodes, (tagOf head).Sound) (rest : Text)
    : footprint false (Node.writeAllWith tagOf nodes ++ rest)
      = Node.weight nodes + footprint false rest := by
  induction nodes using Node.forest_induction generalizing rest with
  | nil => simp
  | element head content nodes inside behind =>
      obtain ⟨hh, hcontent, hnodes⟩ := Node.AllSound.element_iff.mp h
      rw [Node.allHeads_element, List.forall_mem_cons, List.forall_mem_append] at htags
      have htag := ne_brackets_of_not_mem fun d hd => htags.1.not_mem_text hd
      have hname := ne_brackets_of_not_mem fun d hd =>
        hh.name.not_mem_text (c := d) hledger (by rcases hd with rfl | rfl <;> decide)
      cases content with
      | nil =>
          have hend : ∀ c ∈ (tagOf head).text ++ ['/'], c ≠ '<' ∧ c ≠ '>' :=
            List.forall_mem_append.mpr ⟨htag, by simp⟩
          calc footprint false (Node.writeAllWith tagOf (.element head [] :: nodes) ++ rest)
              = footprint true (((tagOf head).text ++ ['/'])
                  ++ '>' :: (Node.writeAllWith tagOf nodes ++ rest)) + 1 := by
                rw [Node.writeAllWith_empty]
                simp [footprint]
            _ = Node.weight (.element head [] :: nodes) + footprint false rest := by
                rw [footprint_inside hend, behind hnodes htags.2.2]
                simp
                omega
      | cons first content =>
          have hend : ∀ c ∈ '/' :: head.name.text, c ≠ '<' ∧ c ≠ '>' :=
            List.forall_mem_cons.mpr ⟨by decide, hname⟩
          calc footprint false
                (Node.writeAllWith tagOf (.element head (first :: content) :: nodes) ++ rest)
              = footprint true ((tagOf head).text
                  ++ '>' :: (Node.writeAllWith tagOf (first :: content)
                    ++ '<' :: (('/' :: head.name.text)
                      ++ '>' :: (Node.writeAllWith tagOf nodes ++ rest)))) + 1 := by
                rw [Node.writeAllWith_element tagOf head (by simp)]
                simp [footprint]
            _ = Node.weight (first :: content)
                + footprint true (('/' :: head.name.text)
                  ++ '>' :: (Node.writeAllWith tagOf nodes ++ rest)) + 2 := by
                rw [footprint_inside htag, inside hcontent htags.2.1]
                simp [footprint]
                omega
            _ = Node.weight (.element head (first :: content) :: nodes)
                + footprint false rest := by
                rw [footprint_inside hend, behind hnodes htags.2.2]
                simp
                omega
  | text s nodes ih =>
      obtain ⟨-, hnodes⟩ := Node.AllSound.text_iff.mp h
      rw [Node.allHeads_text] at htags
      have hs := ne_brackets_of_not_mem (s := s.flatMap escapeText) fun d hd hmem => by
        obtain ⟨c, _, hc⟩ := List.mem_flatMap.mp hmem
        exact not_mem_escapeText hd hc
      rw [Node.writeAllWith_text, List.append_assoc, footprint_outside hs, ih hnodes htags,
        Node.weight, Nat.add_assoc]
  | entity name nodes ih =>
      obtain ⟨hname, hnodes⟩ := Node.AllSound.entity_iff.mp h
      rw [Node.allHeads_entity] at htags
      have hs : ∀ c ∈ '&' :: name ++ [';'], c ≠ '<' ∧ c ≠ '>' := by
        refine List.forall_mem_append.mpr ⟨List.forall_mem_cons.mpr ⟨by decide, ?_⟩, by simp⟩
        exact ne_brackets_of_not_mem fun d hd =>
          hname.not_mem_of_delimiter (by rcases hd with rfl | rfl <;> decide)
      have hwrite : Node.writeAllWith tagOf (.entity name :: nodes) ++ rest
          = ('&' :: name ++ [';']) ++ (Node.writeAllWith tagOf nodes ++ rest) := by
        simp
      rw [hwrite, footprint_outside hs, ih hnodes htags, Node.weight]
      simp
      omega

/-- The footprint of the text of a tree is its weight. -/
theorem footprint_write {next : Nat} {made : List Binding} {e : Element}
    (hledger : Ledger next made) (he : Node.AllSound made e.forest)
    : footprint false e.write = Node.weight e.forest := by
  have htags : ∀ h ∈ Node.allHeads e.forest, h.tag.Sound := fun h hh =>
    (he.heads h hh).tag hledger
  have hfootprint := footprint_writeAllWith hledger he htags []
  rwa [Node.writeAllWith_tag he, List.append_nil, ← Element.write_eq] at hfootprint

/-- Sound trees whose texts agree have the same weight. -/
theorem weight_eq_of_write_eq {next next' : Nat} {made made' : List Binding} {e e' : Element}
    (hledger : Ledger next made) (hledger' : Ledger next' made')
    (he : Node.AllSound made e.forest) (he' : Node.AllSound made' e'.forest)
    (h : e.write = e'.write)
    : Node.weight e.forest = Node.weight e'.forest := by
  rw [← footprint_write hledger he, ← footprint_write hledger' he', h]

/-- A forest and what it is read back as in a scope, by what its start tags say. -/
inductive Reread (tagOf : Head → Tag) : List Binding → List Node → List Node → Prop where
  | nil {scope : List Binding} : Reread tagOf scope [] []
  | element {scope : List Binding} {h h' : Head} {content content' nodes nodes' : List Node}
      {mark : Nat} (head : (tagOf h).read? scope mark = some h')
      (inside : Reread tagOf (h'.bindings ++ scope) content content')
      (behind : Reread tagOf scope nodes nodes')
      : Reread tagOf scope (.element h content :: nodes) (.element h' content' :: nodes')
  | text {scope : List Binding} (s : Text) {nodes nodes' : List Node}
      (behind : Reread tagOf scope nodes nodes')
      : Reread tagOf scope (.text s :: nodes) (.text s :: nodes')
  | space {scope : List Binding} (s : Text) {nodes nodes' : List Node} (hs : s.all isSpace)
      (behind : Reread tagOf scope nodes nodes')
      : Reread tagOf scope (.text s :: nodes) nodes'

/-- A reason why a forest is not read back in a scope: a start tag that is no head there or does
not have the name of its end tag, or a reference to an entity.
-/
inductive Unread (tagOf : Head → Tag) : List Binding → List Node → Prop where
  | head {scope : List Binding} {h : Head} {mark : Nat} (content nodes : List Node)
      (head : (tagOf h).read? scope mark = none)
      : Unread tagOf scope (.element h content :: nodes)
  | finish {scope : List Binding} {h : Head} (content nodes : List Node)
      (name : (tagOf h).name ≠ h.name.spelling)
      : Unread tagOf scope (.element h content :: nodes)
  | inside {scope : List Binding} {h h' : Head} {mark : Nat} {content : List Node}
      (nodes : List Node) (head : (tagOf h).read? scope mark = some h')
      (inside : Unread tagOf (h'.bindings ++ scope) content)
      : Unread tagOf scope (.element h content :: nodes)
  | behind {scope : List Binding} (node : Node) {nodes : List Node}
      (behind : Unread tagOf scope nodes)
      : Unread tagOf scope (node :: nodes)
  | entity {scope : List Binding} (name : Text) (nodes : List Node)
      : Unread tagOf scope (.entity name :: nodes)

-----------------------------------------------------------------------------------------
-- Open elements
-----------------------------------------------------------------------------------------

/-- The element has taken in nodes behind what it held. -/
structure Frame.Extends (f : Frame) (nodes : List Node) (f' : Frame) : Prop where
  spelling : f'.spelling = f.spelling
  head : f'.head = f.head
  scope : f'.scope = f.scope
  elementOnly : f'.elementOnly = f.elementOnly
  nodes : f'.nodes = nodes.reverse ++ f.nodes

namespace Frame

variable {f f' f'' : Frame} {nodes nodes' : List Node}

theorem Extends.refl (f : Frame) : f.Extends [] f := ⟨rfl, rfl, rfl, rfl, rfl⟩

theorem Extends.trans (h : f.Extends nodes f') (h' : f'.Extends nodes' f'')
    : f.Extends (nodes ++ nodes') f'' where
  spelling := h'.spelling.trans h.spelling
  head := h'.head.trans h.head
  scope := h'.scope.trans h.scope
  elementOnly := h'.elementOnly.trans h.elementOnly
  nodes := by rw [h'.nodes, h.nodes]; simp

theorem extends_addNode (f : Frame) {node : Node} : f.Extends [node] (f.addNode node) :=
  ⟨rfl, rfl, rfl, rfl, rfl⟩

theorem Holds.extends {s : Text} (h : f.Holds s f') (hpending : f.pending = none)
    : f.Extends [.text s] f' := by
  refine ⟨h.spelling, h.head, h.scope, h.elementOnly, ?_⟩
  simp [Frame.nodes, h.pending, hpending, h.done]

end Frame

/-- The declarations in scope of the innermost element. -/
def Progress.scope (p : Progress) : List Binding := (p.frames.head?.map (·.scope)).getD []

/-- Opening an element fails if its head cannot be read. -/
theorem Progress.open?_cases {p : Progress} (hroot : p.root = none)
    (hdepth : p.frames.length < maxDepth) (t : Tag)
    : t.read? p.scope p.mark = none ∧ p.open? {} t.name t.given = none
      ∨ ∃ (f : Frame) (mark : Nat), t.read? p.scope p.mark = some f.head
        ∧ p.open? {} t.name t.given = some { p with frames := f :: p.frames, mark := mark }
        ∧ f.spelling = t.name ∧ f.scope = f.head.bindings ++ p.scope
        ∧ f.elementOnly = none ∧ f.pending = none ∧ f.done = [] := by
  unfold open?
  rw [if_neg (by simp [hroot, hdepth])]
  change t.read? p.scope p.mark = none ∧ (t.read? p.scope p.mark).map _ = none ∨ _
  cases hread : t.read? p.scope p.mark with
  | none => exact .inl ⟨rfl, rfl⟩
  | some h =>
      exact .inr ⟨⟨t.name, h, h.bindings ++ p.scope, _, none, false, [], none⟩, _, rfl,
        by dsimp only; rw [← scope, ← Tag.read?, hread]; rfl, rfl, rfl, rfl, rfl, rfl⟩

/-- An element that has taken in nodes is closed. -/
theorem Progress.close?_of_extends {p : Progress} {f f' : Frame} {frames : List Frame}
    {content : List Node} (hframes : p.frames = f' :: frames) (hextends : f.Extends content f')
    (hdone : f.done = []) (hpending : f.pending = none)
    : p.close? f.spelling
      = some (({ p with frames } : Progress).addElement ⟨f.head, content⟩) := by
  have hnodes : f.nodes = [] := by rw [Frame.nodes, hpending, hdone]
  have hclose : f'.close = ⟨f.head, content⟩ := by
    rw [Frame.close, hextends.head, hextends.nodes, hnodes, List.append_nil,
      List.reverse_reverse]
  rw [close?, hframes]
  simp only [hextends.spelling, ↓reduceIte, hclose]

theorem absorb?_start {t : Tag} (ht : t.Sound) (p : Progress) (rest : Text)
    : p.absorb? {} ('<' :: (t.text ++ '>' :: rest))
      = (p.open? {} t.name t.given).bind (·.absorb? {} rest) := by
  rw [Progress.absorb?_of_readTokens? (readTokens?_start ht rest)]
  simp [Progress.take?]

theorem absorb?_empty {t : Tag} (ht : t.Sound) (p : Progress) (rest : Text)
    : p.absorb? {} ('<' :: (t.text ++ '/' :: '>' :: rest))
      = (p.open? {} t.name t.given).bind fun p =>
        (p.close? t.name).bind (·.absorb? {} rest) := by
  rw [Progress.absorb?_of_readTokens? (readTokens?_empty ht rest)]
  simp [Progress.take?, Option.bind_assoc]

theorem absorb?_finish {n : Spelling} (hn : n.Sound) (p : Progress) (rest : Text)
    : p.absorb? {} ('<' :: '/' :: (n.text ++ '>' :: rest))
      = (p.close? n).bind (·.absorb? {} rest) := by
  rw [Progress.absorb?_of_readTokens? (readTokens?_finish hn rest)]
  simp [Progress.take?]

/-- Where nothing is declared, no reference to an entity is read. -/
theorem absorb?_entity {name : Text} (hname : IsEntityName name) (p : Progress) (rest : Text)
    : p.absorb? {} ('&' :: (name ++ ';' :: rest)) = none := by
  rw [Progress.absorb?_of_readTokens? (readTokens?_entity hname rest)]
  cases hframes : p.frames <;> simp [Progress.take?, hframes, Doctype.mayRefer]

-----------------------------------------------------------------------------------------
-- Forests
-----------------------------------------------------------------------------------------

/-- Nodes are read back behind what the innermost element holds, in front of a tag, if elements
inside each other to a depth may stand there. Otherwise there is a reason why not.
-/
def ReadsBack (tagOf : Head → Tag) (depth : Nat) (nodes : List Node) : Prop :=
  ∀ (p : Progress) (f : Frame) (frames : List Frame) (rest : Text),
    p.frames = f :: frames → p.root = none → f.elementOnly = none
    → (beginsWithText nodes → f.pending = none) → p.frames.length + depth ≤ maxDepth
    → p.absorb? {} (Node.writeAllWith tagOf nodes ++ '<' :: rest) = none
          ∧ Unread tagOf f.scope nodes
        ∨ ∃ (f' : Frame) (mark : Nat) (nodes' : List Node), f.Extends nodes' f'
          ∧ Reread tagOf f.scope nodes nodes'
          ∧ p.absorb? {} (Node.writeAllWith tagOf nodes ++ '<' :: rest)
            = Progress.absorb? {} { p with frames := f' :: frames, mark } ('<' :: rest)

/-- Behind text that ends stands markup or a reference. -/
theorem Tidy.exists_endsData (tagOf : Head → Tag) {literal : Bool} {depth : Nat}
    {nodes : List Node} (h : Tidy literal depth nodes) (hbegins : beginsWithText nodes = false)
    (rest : Text)
    : ∃ c more, EndsData c ∧ Node.writeAllWith tagOf nodes ++ '<' :: rest = c :: more := by
  cases h with
  | nil => exact ⟨'<', rest, .inl rfl, by rw [Node.writeAllWith_nil]; rfl⟩
  | @element _ head content nodes _ _ _ =>
      cases content with
      | nil => exact ⟨'<', _, .inl rfl, by rw [Node.writeAllWith_empty]; rfl⟩
      | cons first content =>
          exact ⟨'<', _, .inl rfl, by rw [Node.writeAllWith_element tagOf head (by simp)]; rfl⟩
  | text s _ _ => cases hbegins
  | entity name _ _ => exact ⟨'&', _, .inr rfl, by rw [Node.writeAllWith_entity]; rfl⟩

/-- Start tags that say names and references of documents for sound heads. -/
def SoundTags (tagOf : Head → Tag) : Prop :=
  ∀ made : List Binding, ∀ next, Ledger next made → ∀ h : Head, h.Sound made → (tagOf h).Sound

theorem soundTags_tag : SoundTags Head.tag := fun _ _ hledger _ hs => hs.tag hledger

section Forests

variable {tagOf : Head → Tag} (hsoundTags : SoundTags tagOf) {next : Nat}
  {made : List Binding} (hledger : Ledger next made)
include hsoundTags hledger

/-- An element whose content is read back is read back itself. -/
theorem absorb?_element {h : Head} (hs : h.Sound made) {depth : Nat} {content : List Node}
    (hcontent : ReadsBack tagOf depth content) (p : Progress) (hroot : p.root = none)
    (hdepth : p.frames.length + (depth + 1) ≤ maxDepth) (rest : Text)
    : p.absorb? {} ((Node.element h content).writeWith tagOf ++ rest) = none
        ∧ (∀ nodes, Unread tagOf p.scope (.element h content :: nodes))
      ∨ ∃ (h' : Head) (content' : List Node) (mark : Nat),
        (tagOf h).read? p.scope p.mark = some h'
        ∧ Reread tagOf (h'.bindings ++ p.scope) content content'
        ∧ p.absorb? {} ((Node.element h content).writeWith tagOf ++ rest)
          = (({ p with mark } : Progress).addElement ⟨h', content'⟩).absorb? {} rest := by
  have ht := hsoundTags made next hledger h hs
  have hempty : (Node.element h []).writeWith tagOf ++ rest
      = '<' :: ((tagOf h).text ++ '/' :: '>' :: rest) := by
    simp [Node.writeWith]
  have hfull (hne : content ≠ []) : (Node.element h content).writeWith tagOf ++ rest
      = '<' :: ((tagOf h).text ++ '>' :: (Node.writeAllWith tagOf content
        ++ '<' :: '/' :: (h.name.spelling.text ++ '>' :: rest))) := by
    simp [Node.writeWith, hne, Name.text_spelling]
  rcases p.open?_cases hroot (by omega) (tagOf h) with
    ⟨hread, hopen⟩ | ⟨f, mark, hread, hopen, hspelling, hscope, honly, hpending, hdone⟩
  · refine .inl ⟨?_, fun nodes => .head content nodes hread⟩
    by_cases hne : content = []
    · subst hne
      rw [hempty, absorb?_empty ht, hopen, Option.bind_none]
    · rw [hfull hne, absorb?_start ht, hopen, Option.bind_none]
  · by_cases hne : content = []
    · subst hne
      refine .inr ⟨f.head, [], mark, hread, .nil, ?_⟩
      rw [hempty, absorb?_empty ht, hopen, Option.bind_some, ← hspelling,
        Progress.close?_of_extends rfl (.refl f) hdone hpending]
      rfl
    · rcases hcontent { p with frames := f :: p.frames, mark } f p.frames
          ('/' :: (h.name.spelling.text ++ '>' :: rest)) rfl hroot honly (fun _ => hpending)
          (by simp only [List.length_cons]; omega) with
        ⟨habsorb, hunread⟩ | ⟨f', mark', content', hextends, hreread, habsorb⟩
      · refine .inl ⟨?_, fun nodes => .inside nodes hread (hscope ▸ hunread)⟩
        rw [hfull hne, absorb?_start ht, hopen, Option.bind_some, habsorb]
      · have hfinish := absorb?_finish (hs.name.spelling hledger)
          { p with frames := f' :: p.frames, mark := mark' } rest
        by_cases hname : (tagOf h).name = h.name.spelling
        · refine .inr ⟨f.head, content', mark', hread, hscope ▸ hreread, ?_⟩
          rw [hfull hne, absorb?_start ht, hopen, Option.bind_some, habsorb, hfinish, ← hname,
            ← hspelling, Progress.close?_of_extends rfl hextends hdone hpending]
          rfl
        · refine .inl ⟨?_, fun nodes => .finish content nodes hname⟩
          rw [hfull hne, absorb?_start ht, hopen, Option.bind_some, habsorb, hfinish,
            Progress.close?]
          simp [hextends.spelling, hspelling, hname]

/-- Tidy nodes are read back, by induction over them. -/
theorem Tidy.readsBack {literal : Bool} {depth : Nat} {nodes : List Node}
    (h : Tidy literal depth nodes) (hsound : Node.AllSound made nodes)
    : ReadsBack tagOf depth nodes := by
  induction h with
  | nil =>
      intro p f frames rest hframes _ _ _ _
      exact .inr ⟨f, p.mark, [], .refl f, .nil, by rw [← hframes, Node.writeAllWith_nil]; rfl⟩
  | @element depth head content nodes _ _ _ inside behind =>
      intro p f frames rest hframes hroot honly _ hdepth
      obtain ⟨hh, hcontent, hnodes⟩ := Node.AllSound.element_iff.mp hsound
      have hscope : p.scope = f.scope := by rw [Progress.scope, hframes]; rfl
      rw [Node.writeAllWith, List.append_assoc]
      rcases absorb?_element hsoundTags hledger hh (inside hcontent) p hroot hdepth
          (Node.writeAllWith tagOf nodes ++ '<' :: rest) with
        ⟨habsorb, hunread⟩ | ⟨h', content', mark, hread, hreread, habsorb⟩
      · exact .inl ⟨habsorb, hscope ▸ hunread nodes⟩
      · rw [hscope] at hread hreread
        have hadd : ({ p with mark } : Progress).addElement ⟨h', content'⟩
            = { p with frames := f.addNode (.element h' content') :: frames, mark } := by
          simp only [Progress.addElement, hframes]
        rw [habsorb, hadd]
        rw [hframes, List.length_cons] at hdepth
        rcases behind hnodes { p with frames := f.addNode (.element h' content') :: frames, mark }
            _ frames rest rfl hroot honly (fun _ => rfl) hdepth with
          ⟨habsorb, hunread⟩ | ⟨f', mark', nodes', hextends, hreread', habsorb⟩
        · exact .inl ⟨habsorb, .behind _ hunread⟩
        · exact .inr ⟨f', mark', _, f.extends_addNode.trans hextends,
            .element hread hreread hreread', habsorb⟩
  | @text depth s nodes apart tidy behind =>
      intro p f frames rest hframes hroot honly hbegins hdepth
      obtain ⟨hs, hnodes⟩ := Node.AllSound.text_iff.mp hsound
      obtain ⟨c, more, hc, hmore⟩ := tidy.exists_endsData tagOf apart rest
      obtain ⟨f₁, hf₁, habsorb⟩ := absorb?_text hs {} p hframes honly hc more
      rw [Node.writeAllWith_text, List.append_assoc, hmore, habsorb, ← hmore]
      have hpending := hbegins rfl
      have hbehind {f₁ : Frame} (honly : f₁.elementOnly = none) :=
        behind hnodes { p with frames := f₁ :: frames } f₁ frames rest rfl hroot honly
          (fun h => by rw [apart] at h; cases h) (by simpa [hframes] using hdepth)
      rcases hf₁ with hholds | ⟨rfl, -, hspace⟩
      · rcases hbehind (hholds.elementOnly.trans honly) with
          ⟨hnone, hunread⟩ | ⟨f', mark, nodes', hextends, hreread, hread⟩
        · exact .inl ⟨hnone, .behind _ (hholds.scope ▸ hunread)⟩
        · exact .inr ⟨f', mark, _, (hholds.extends hpending).trans hextends,
            .text s (hholds.scope ▸ hreread), hread⟩
      · rcases hbehind honly with
          ⟨hnone, hunread⟩ | ⟨f', mark, nodes', hextends, hreread, hread⟩
        · exact .inl ⟨hnone, .behind _ hunread⟩
        · exact .inr ⟨f', mark, nodes', hextends, .space s hspace hreread, hread⟩
  | @entity depth name nodes _ _ _ =>
      intro p f frames rest _ _ _ _ _
      obtain ⟨hname, -⟩ := Node.AllSound.entity_iff.mp hsound
      refine .inl ⟨?_, .entity name nodes⟩
      rw [Node.writeAllWith_entity, List.cons_append, List.append_assoc, List.cons_append]
      exact absorb?_entity hname p _

end Forests

end SvgKit.Xml
