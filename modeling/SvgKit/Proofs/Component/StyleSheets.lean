import SvgKit.Proofs.Component.SheetTags

/-! Style elements of trees in JSX. Where what is taken for a style element is one, and holds no
elements, the text of a tree becomes JSX element by element: the content of every style element is
an expression, and everything else has its attributes rewritten.
-/

namespace SvgKit.Component

open Markup (IsClose Item Rewriter rewriteAttributes)
open Xml (Binding Element Head Ledger Node)

-----------------------------------------------------------------------------------------
-- Style elements of trees
-----------------------------------------------------------------------------------------

mutual

/-- The elements of a node whose start tags are taken for those of style elements, in document
order.
-/
def takenIn : Node → List (Head × List Node)
  | .element h content =>
    (if opensSheet h.name.text then [(h, content)] else []) ++ takenSheets content
  | .text _ => []
  | .entity _ => []

/-- The elements of nodes whose start tags are taken for those of style elements, in document
order.
-/
def takenSheets : List Node → List (Head × List Node)
  | [] => []
  | node :: nodes => takenIn node ++ takenSheets nodes

end

/-- The element has an end tag that is taken for that of a style element. -/
def endsSheet (s : Head × List Node) : Bool := !s.2.isEmpty && closesSheet s.1.name.text

/-- A style element that holds something, but no elements. -/
def isSheet (s : Head × List Node) : Bool :=
  isSheetName s.1.name.text && !s.2.isEmpty && (Node.allHeads s.2).isEmpty

/-- What ends as a style element is one that holds no elements, and only such ones are taken for
style elements in front of it.
-/
structure HasPlainSheets (nodes : List Node) : Prop where
  ended : ∀ s ∈ takenSheets nodes, endsSheet s → isSheet s
  order : (takenSheets nodes).Pairwise fun s t => endsSheet t → isSheet s

theorem hasPlainSheets_iff {nodes : List Node}
    : HasPlainSheets nodes
      ↔ (∀ s ∈ takenSheets nodes, endsSheet s → isSheet s)
        ∧ (takenSheets nodes).Pairwise fun s t => endsSheet t → isSheet s :=
  ⟨fun h => ⟨h.ended, h.order⟩, fun h => ⟨h.1, h.2⟩⟩

instance (nodes : List Node) : Decidable (HasPlainSheets nodes) :=
  decidable_of_iff' _ hasPlainSheets_iff

theorem isSheet_iff {s : Head × List Node}
    : isSheet s ↔ isSheetName s.1.name.text ∧ s.2 ≠ [] ∧ Node.allHeads s.2 = [] := by
  simp [isSheet, and_assoc]

theorem endsSheet_iff {s : Head × List Node}
    : endsSheet s ↔ s.2 ≠ [] ∧ closesSheet s.1.name.text := by
  simp [endsSheet]

section Elements

variable {h : Head} {content nodes : List Node}

@[simp]
theorem takenSheets_nil : takenSheets [] = [] := by
  rw [takenSheets]

@[simp]
theorem takenSheets_element
    : takenSheets (.element h content :: nodes)
      = (if opensSheet h.name.text then [(h, content)] else [])
        ++ (takenSheets content ++ takenSheets nodes) := by
  rw [takenSheets, takenIn, List.append_assoc]

@[simp]
theorem takenSheets_text (s : Text) : takenSheets (.text s :: nodes) = takenSheets nodes := by
  rw [takenSheets, takenIn, List.nil_append]

@[simp]
theorem takenSheets_entity (name : Text)
    : takenSheets (.entity name :: nodes) = takenSheets nodes := by
  rw [takenSheets, takenIn, List.nil_append]

theorem mem_takenSheets_element {s : Head × List Node}
    : s ∈ takenSheets (.element h content :: nodes)
      ↔ (s = (h, content) ∧ opensSheet h.name.text) ∨ s ∈ takenSheets content
        ∨ s ∈ takenSheets nodes := by
  rw [takenSheets_element, List.mem_append, List.mem_append]
  split <;> simp [*]

theorem mem_takenSheets_of_opensSheet (hopens : opensSheet h.name.text)
    : (h, content) ∈ takenSheets (.element h content :: nodes) :=
  mem_takenSheets_element.mpr (.inl ⟨rfl, hopens⟩)

theorem mem_takenSheets_content {s : Head × List Node} (hs : s ∈ takenSheets content)
    : s ∈ takenSheets (.element h content :: nodes) :=
  mem_takenSheets_element.mpr (.inr (.inl hs))

theorem mem_takenSheets_behind {s : Head × List Node} (hs : s ∈ takenSheets nodes)
    : s ∈ takenSheets (.element h content :: nodes) :=
  mem_takenSheets_element.mpr (.inr (.inr hs))

/-- An element whose end tag is not taken for that of a style element. -/
theorem closesSheet_eq_false (hname : '>' ∉ h.name.text) (hne : content ≠ [])
    (hends : (h, content) ∈ takenSheets (.element h content :: nodes) →
      endsSheet (h, content) = false)
    : closesSheet h.name.text = false := by
  by_contra hcloses
  rw [Bool.not_eq_false] at hcloses
  have hopens := opensSheet_of_closesSheet hname hcloses
  have hends := hends (mem_takenSheets_of_opensSheet hopens)
  rw [endsSheet_iff.mpr ⟨hne, hcloses⟩] at hends
  cases hends

/-- What is known of an element, of its content and of the nodes behind it. -/
theorem HasPlainSheets.element (hs : HasPlainSheets (.element h content :: nodes))
    : HasPlainSheets content ∧ HasPlainSheets nodes
      ∧ (opensSheet h.name.text → isSheet (h, content) = false →
        ∀ t, t ∈ takenSheets content ∨ t ∈ takenSheets nodes → endsSheet t = false)
      ∧ ∀ s ∈ takenSheets content, isSheet s = false →
        ∀ t ∈ takenSheets nodes, endsSheet t = false := by
  obtain ⟨hended, horder⟩ := hs
  rw [takenSheets_element] at horder
  obtain ⟨-, hmore, hacross⟩ := List.pairwise_append.mp horder
  obtain ⟨hinside, hbehind, hbetween⟩ := List.pairwise_append.mp hmore
  have hnot {s t : Head × List Node} (himp : endsSheet t → isSheet s) (hs : isSheet s = false)
      : endsSheet t = false := by
    rw [← Bool.not_eq_true] at hs ⊢
    exact mt himp hs
  refine ⟨⟨fun s hs => hended s (mem_takenSheets_content hs), hinside⟩,
    ⟨fun s hs => hended s (mem_takenSheets_behind hs), hbehind⟩,
    fun hopens hsheet t ht => ?_, fun s hs hsheet t ht => hnot (hbetween s hs t ht) hsheet⟩
  exact hnot (hacross (h, content) (by simp [hopens]) t (List.mem_append.mpr ht)) hsheet

/-- An element that holds something without being a style sheet has other tags. -/
theorem HasPlainSheets.other (hs : HasPlainSheets (.element h content :: nodes))
    (hname : '>' ∉ h.name.text) (hne : content ≠ []) (hsheet : isSheet (h, content) = false)
    : closesSheet h.name.text = false ∧ isSheetName h.name.text = false := by
  have hcloses : closesSheet h.name.text = false := closesSheet_eq_false hname hne fun hmem =>
    Bool.eq_false_of_not_eq_true fun hends => by
      have := hs.ended (h, content) hmem hends
      rw [hsheet] at this
      cases this
  refine ⟨hcloses, Bool.eq_false_of_not_eq_true fun hother => ?_⟩
  rw [closesSheet_of_isSheetName hother] at hcloses
  cases hcloses

theorem hasPlainSheets_text {s : Text}
    : HasPlainSheets (.text s :: nodes) ↔ HasPlainSheets nodes := by
  rw [hasPlainSheets_iff, hasPlainSheets_iff, takenSheets_text]

theorem hasPlainSheets_entity {name : Text}
    : HasPlainSheets (.entity name :: nodes) ↔ HasPlainSheets nodes := by
  rw [hasPlainSheets_iff, hasPlainSheets_iff, takenSheets_entity]

end Elements

-----------------------------------------------------------------------------------------
-- Texts of trees with other start tags and style sheets
-----------------------------------------------------------------------------------------

section Writing

variable (start : Head → Text → Text) (sheet : Text → Text)

mutual

/-- The text of a node with other start tags, and with other texts between the tags of style
elements.
-/
def writeSheetsIn : Node → Text
  | .element h content =>
    if content.isEmpty then start h ['/', '>']
    else
      start h ['>']
        ++ ((if isSheetName h.name.text then sheet (writeSheets content) else writeSheets content)
          ++ '<' :: '/' :: (h.name.text ++ ['>']))
  | .text s => s.flatMap Xml.escapeText
  | .entity name => '&' :: (name ++ [';'])

/-- The text of nodes with other start tags, and with other texts between the tags of style
elements.
-/
def writeSheets : List Node → Text
  | [] => []
  | node :: nodes => writeSheetsIn node ++ writeSheets nodes

end

end Writing

/-- The start tag of an element with its attributes rewritten, as if it stood alone. -/
def startText (f : Rewriter) (h : Head) (close : Text) : Text :=
  rewriteAttributes f ('<' :: (h.text ++ close))

section Writing

variable {start : Head → Text → Text} {sheet : Text → Text} {h : Head} {content nodes : List Node}

@[simp]
theorem writeSheets_nil : writeSheets start sheet [] = [] := by
  rw [writeSheets]

theorem writeSheets_empty
    : writeSheets start sheet (.element h [] :: nodes)
      = start h ['/', '>'] ++ writeSheets start sheet nodes := by
  rw [writeSheets, writeSheetsIn, List.isEmpty_nil, if_pos rfl]

theorem writeSheets_element (hne : content ≠ [])
    : writeSheets start sheet (.element h content :: nodes)
      = start h ['>']
        ++ ((if isSheetName h.name.text then sheet (writeSheets start sheet content)
            else writeSheets start sheet content)
          ++ ('<' :: '/' :: (h.name.text ++ ['>']) ++ writeSheets start sheet nodes)) := by
  rw [writeSheets, writeSheetsIn, if_neg (by simpa using hne), List.append_assoc, List.append_assoc]

@[simp]
theorem writeSheets_text (s : Text)
    : writeSheets start sheet (.text s :: nodes)
      = s.flatMap Xml.escapeText ++ writeSheets start sheet nodes := by
  rw [writeSheets, writeSheetsIn]

@[simp]
theorem writeSheets_entity (name : Text)
    : writeSheets start sheet (.entity name :: nodes)
      = '&' :: (name ++ [';']) ++ writeSheets start sheet nodes := by
  rw [writeSheets, writeSheetsIn]

/-- Without other start tags and texts it is the text of the nodes, by induction over them. -/
theorem writeSheets_id (nodes : List Node)
    : writeSheets (fun h close => '<' :: (h.text ++ close)) id nodes = Node.writeAll nodes := by
  induction nodes using Node.forest_induction with
  | nil => rw [writeSheets_nil, Node.writeAll_nil]
  | element h content nodes inside behind =>
      by_cases hempty : content = []
      · subst hempty
        rw [writeSheets_empty, Node.writeAll_empty, behind]
        simp
      · rw [writeSheets_element hempty, Node.writeAll_element h hempty, behind, id, inside]
        simp
  | text s nodes ih => rw [writeSheets_text, Node.writeAll_text, ih]
  | entity name nodes ih =>
      rw [writeSheets_entity, Node.writeAll_entity, ih]
      simp

/-- Nodes without elements are written as they are, by induction over them. -/
theorem writeSheets_of_allHeads (hheads : Node.allHeads nodes = [])
    : writeSheets start sheet nodes = Node.writeAll nodes := by
  induction nodes using Node.forest_induction with
  | nil => rw [writeSheets_nil, Node.writeAll_nil]
  | element h content nodes _ _ => simp at hheads
  | text s nodes ih => rw [writeSheets_text, Node.writeAll_text, ih (by simpa using hheads)]
  | entity name nodes ih =>
      rw [writeSheets_entity, Node.writeAll_entity, ih (by simpa using hheads)]
      simp

end Writing

-----------------------------------------------------------------------------------------
-- Passing element by element
-----------------------------------------------------------------------------------------

theorem not_mem_escaped {c : Char} (hc : c = '<' ∨ c = '\r') (s : Text)
    : c ∉ s.flatMap Xml.escapeText := by
  intro hmem
  obtain ⟨d, -, hd⟩ := List.mem_flatMap.mp hmem
  unfold Xml.escapeText at hd
  rcases hc with rfl | rfl <;> split_ifs at hd <;> simp_all [Text.ofString, eq_comm]

theorem not_mem_entity {c : Char} (hc : c = '<' ∨ c = '\r') {name : Text}
    (hname : Xml.IsEntityName name)
    : c ∉ '&' :: (name ++ [';']) := by
  have := hname.not_mem_of_delimiter (c := c) (by rcases hc with rfl | rfl <;> decide)
  rcases hc with rfl | rfl <;> simpa using this

/-- No style element begins with an end tag. -/
theorem passes_finish {name : Text} (hname : '<' ∉ name)
    : styleScanner.Passes StyleElement.jsx ('<' :: '/' :: (name ++ ['>']))
        ('<' :: '/' :: (name ++ ['>'])) := by
  refine Scanner.passes_cons (fun c s hc => readStyle?_of_ne s hc) (by simpa using hname)
    fun rest => readStyle?_of_dropFolded? ?_
  simp [Text.ofString, Text.dropFolded?, Text.foldChar]

theorem passes_comment_plain {s : Text} (hs : '<' ∉ s)
    : (betweenScanner "<!--" "-->").Passes jsxComment s s :=
  Scanner.passes_plain (fun _ s hc => readComment?_of_ne hc s) hs

/-- No comment begins with an end tag. -/
theorem passes_comment_finish {name : Text} (hname : '<' ∉ name)
    : (betweenScanner "<!--" "-->").Passes jsxComment ('<' :: '/' :: (name ++ ['>']))
        ('<' :: '/' :: (name ++ ['>'])) :=
  Scanner.passes_cons (fun _ s hc => readComment?_of_ne hc s) (by simpa using hname)
    fun _ => readComment?_of_ne_mark (by decide) _

section Sound

variable {next : Nat} {made : List Binding} (hledger : Ledger next made) {nodes : List Node}
  (hsound : Node.AllSound made nodes)
include hsound

theorem not_mem_writeAll (hheads : Node.allHeads nodes = []) {c : Char} (hc : c = '<' ∨ c = '\r')
    : c ∉ Node.writeAll nodes := by
  induction nodes using Node.forest_induction with
  | nil => simp
  | element h content nodes _ _ => simp at hheads
  | text s nodes ih =>
      obtain ⟨-, hnodes⟩ := Node.AllSound.text_iff.mp hsound
      rw [Node.writeAll_text, List.mem_append, not_or]
      exact ⟨not_mem_escaped hc s, ih hnodes (by simpa using hheads)⟩
  | entity name nodes ih =>
      obtain ⟨hname, hnodes⟩ := Node.AllSound.entity_iff.mp hsound
      rw [Node.writeAll_entity, List.mem_append, not_or]
      exact ⟨not_mem_entity hc hname, ih hnodes (by simpa using hheads)⟩

theorem allSound_of_mem_takenSheets {s : Head × List Node} (hs : s ∈ takenSheets nodes)
    : Node.AllSound made s.2 := by
  induction nodes using Node.forest_induction with
  | nil => simp [takenSheets] at hs
  | element h content nodes inside behind =>
      obtain ⟨-, hcontent, hnodes⟩ := Node.AllSound.element_iff.mp hsound
      rcases mem_takenSheets_element.mp hs with ⟨rfl, -⟩ | hs | hs
      · exact hcontent
      · exact inside hcontent hs
      · exact behind hnodes hs
  | text s nodes ih =>
      rw [takenSheets_text] at hs
      exact ih (Node.AllSound.text_iff.mp hsound).2 hs
  | entity name nodes ih =>
      rw [takenSheets_entity] at hs
      exact ih (Node.AllSound.entity_iff.mp hsound).2 hs

/-- The texts of a tree pass a scanner if its tags and its style sheets do, by induction over the
nodes.
-/
theorem passes_writeSheets {α : Type} {p : Scanner α} {f : α → Text}
    {start start' : Head → Text → Text} {sheet sheet' : Text → Text}
    (hplain : ∀ s, '<' ∉ s → p.Passes f s s)
    (hstart : ∀ h ∈ Node.allHeads nodes, ∀ close, IsClose close →
      p.Passes f (start h close) (start' h close))
    (hfinish : ∀ h ∈ Node.allHeads nodes,
      p.Passes f ('<' :: '/' :: (h.name.text ++ ['>'])) ('<' :: '/' :: (h.name.text ++ ['>'])))
    (hsheet : ∀ s ∈ takenSheets nodes, isSheetName s.1.name.text → s.2 ≠ [] →
      p.Passes f (writeSheets start sheet s.2) (writeSheets start' sheet' s.2) →
      p.Passes f (sheet (writeSheets start sheet s.2)) (sheet' (writeSheets start' sheet' s.2)))
    : p.Passes f (writeSheets start sheet nodes) (writeSheets start' sheet' nodes) := by
  induction nodes using Node.forest_induction with
  | nil =>
      rw [writeSheets_nil, writeSheets_nil]
      exact .nil
  | element h content nodes inside behind =>
      obtain ⟨-, hcontent, hnodes⟩ := Node.AllSound.element_iff.mp hsound
      rw [Node.allHeads_element, List.forall_mem_cons, List.forall_mem_append] at hstart hfinish
      have hbehind := behind hnodes hstart.2.2 hfinish.2.2 fun s hs =>
        hsheet s (mem_takenSheets_behind hs)
      by_cases hempty : content = []
      · subst hempty
        rw [writeSheets_empty, writeSheets_empty]
        exact (hstart.1 _ (.inr rfl)).append hbehind
      · have hinside := inside hcontent hstart.2.1 hfinish.2.1 fun s hs =>
          hsheet s (mem_takenSheets_content hs)
        rw [writeSheets_element hempty, writeSheets_element hempty]
        refine (hstart.1 _ (.inl rfl)).append (.append ?_ (hfinish.1.append hbehind))
        split
        · next hname =>
            have hopens := opensSheet_of_isSheetName hname
            exact hsheet (h, content) (mem_takenSheets_of_opensSheet hopens) hname hempty hinside
        · exact hinside
  | text s nodes ih =>
      obtain ⟨-, hnodes⟩ := Node.AllSound.text_iff.mp hsound
      rw [Node.allHeads_text] at hstart hfinish
      rw [takenSheets_text] at hsheet
      rw [writeSheets_text, writeSheets_text]
      exact (hplain _ (not_mem_escaped (.inl rfl) s)).append (ih hnodes hstart hfinish hsheet)
  | entity name nodes ih =>
      obtain ⟨hname, hnodes⟩ := Node.AllSound.entity_iff.mp hsound
      rw [Node.allHeads_entity] at hstart hfinish
      rw [takenSheets_entity] at hsheet
      rw [writeSheets_entity, writeSheets_entity]
      exact (hplain _ (not_mem_entity (.inl rfl) hname)).append (ih hnodes hstart hfinish hsheet)

include hledger

theorem not_mem_name {h : Head} (hh : h ∈ Node.allHeads nodes)
    : ∀ d, IsBracket d → d ∉ h.name.text := by
  intro d hd
  rw [← Xml.Name.text_spelling]
  refine ((hsound.heads h hh).name.spelling hledger).not_mem_text ?_
  rcases hd with rfl | rfl <;> decide

theorem isTagText_startText {h : Head} (hh : h ∈ Node.allHeads nodes) {close : Text}
    (hclose : IsClose close)
    : IsTagText h.name.text (startText jsxAttribute h close) := by
  have hs := hsound.heads h hh
  have htag := isTagText_rewriteAttributes (hs.tag hledger) hclose
  rw [hs.text_tag] at htag
  rw [← Xml.Name.text_spelling]
  exact htag

/-- Every rewriting of attributes is one of start tags, whatever stands between them. -/
theorem passes_rewriteAttributes (f : Rewriter)
    : Markup.scanner.Passes (Item.rewrite f) (Node.writeAll nodes)
        (writeSheets (startText f) id nodes) := by
  have hmark : ∀ c s, c ≠ '<' → Markup.scanner.read (c :: s) = none := fun c s hc =>
    Markup.readItem?_eq_none hc s
  rw [← writeSheets_id nodes]
  refine passes_writeSheets hsound (fun s hs => Scanner.passes_plain hmark hs)
    (fun h hh close hclose => ?_) (fun h hh => ?_) fun _ _ _ _ hinside => hinside
  · have hs := hsound.heads h hh
    have htag := passes_tag (hs.tag hledger) hclose f
    rwa [hs.text_tag] at htag
  · have hname := not_mem_name hledger hsound hh '<' (.inl rfl)
    refine Scanner.passes_cons hmark (by simpa using hname) fun rest => ?_
    change Markup.readItem? _ = none
    rw [List.cons_append, Markup.readItem?_of_ne (by decide)]
    rfl

/-- No comment arises when style sheets are put in braces. -/
theorem passes_comments (hsheets : HasPlainSheets nodes)
    : (betweenScanner "<!--" "-->").Passes jsxComment
        (writeSheets (startText jsxAttribute) sheetExpression nodes)
        (writeSheets (startText jsxAttribute) sheetExpression nodes) := by
  refine passes_writeSheets hsound (fun s hs => passes_comment_plain hs)
    (fun h hh close hclose => (isTagText_startText hledger hsound hh hclose).passes_comment)
    (fun h hh => passes_comment_finish (not_mem_name hledger hsound hh '<' (.inl rfl)))
    fun s hs hname hne _ => ?_
  have hsheet := hsheets.ended s hs (endsSheet_iff.mpr ⟨hne, closesSheet_of_isSheetName hname⟩)
  obtain ⟨-, -, hheads⟩ := isSheet_iff.mp hsheet
  rw [writeSheets_of_allHeads hheads]
  refine passes_comment_plain (not_mem_sheetExpression ?_)
  exact not_mem_writeAll (allSound_of_mem_takenSheets hsound hs) hheads (.inl rfl)

/-- Where no style element ends in the nodes, none ends in their text. -/
theorem unclosed_writeSheets (hno : ∀ s ∈ takenSheets nodes, endsSheet s = false) {rest : Text}
    (hrest : Unclosed rest)
    : Unclosed (writeSheets (startText jsxAttribute) id nodes ++ rest) := by
  induction nodes using Node.forest_induction generalizing rest with
  | nil =>
      rw [writeSheets_nil]
      exact hrest
  | element h content nodes inside behind =>
      have hname := not_mem_name hledger hsound (h := h) (by simp)
      obtain ⟨-, hcontent, hnodes⟩ := Node.AllSound.element_iff.mp hsound
      have hstart {close : Text} (hclose : IsClose close) :=
        isTagText_startText hledger hsound (h := h) (by simp) hclose
      have hbehind := behind hnodes (fun s hs => hno s (mem_takenSheets_behind hs)) hrest
      by_cases hempty : content = []
      · subst hempty
        rw [writeSheets_empty, List.append_assoc]
        exact (hstart (.inr rfl)).unclosed hbehind
      · have hcloses := closesSheet_eq_false (hname _ (.inr rfl)) hempty (hno (h, content))
        rw [writeSheets_element hempty, id, ite_self, List.append_assoc, List.append_assoc,
          List.append_assoc]
        exact (hstart (.inl rfl)).unclosed (inside hcontent
          (fun s hs => hno s (mem_takenSheets_content hs))
          (hbehind.finish hname hcloses))
  | text s nodes ih =>
      obtain ⟨-, hnodes⟩ := Node.AllSound.text_iff.mp hsound
      rw [takenSheets_text] at hno
      rw [writeSheets_text, List.append_assoc]
      exact .append (not_mem_escaped (.inl rfl) s) (ih hnodes hno hrest)
  | entity name nodes ih =>
      obtain ⟨hname, hnodes⟩ := Node.AllSound.entity_iff.mp hsound
      rw [takenSheets_entity] at hno
      rw [writeSheets_entity, List.append_assoc]
      exact .append (not_mem_entity (.inl rfl) hname) (ih hnodes hno hrest)

/-- Style elements become expressions one by one, by induction over the nodes. An element whose
start tag is taken for that of a style element, but which is none with an end tag, stays as it is
since no style element ends behind it.
-/
theorem replace_writeSheets (hsheets : HasPlainSheets nodes) {rest : Text}
    (hrest : ∀ s ∈ takenSheets nodes, isSheet s = false → Unclosed rest)
    : styleScanner.replace StyleElement.jsx (writeSheets (startText jsxAttribute) id nodes ++ rest)
      = writeSheets (startText jsxAttribute) sheetExpression nodes
        ++ styleScanner.replace StyleElement.jsx rest := by
  have hplain {s : Text} (hs : '<' ∉ s) : styleScanner.Passes StyleElement.jsx s s :=
    Scanner.passes_plain (fun c s hc => readStyle?_of_ne s hc) hs
  induction nodes using Node.forest_induction generalizing rest with
  | nil =>
      rw [writeSheets_nil, writeSheets_nil]
      rfl
  | element h content nodes inside behind =>
      have hname := not_mem_name hledger hsound (h := h) (by simp)
      have hstart {close : Text} (hclose : IsClose close) :=
        isTagText_startText hledger hsound (h := h) (by simp) hclose
      obtain ⟨-, hcontent, hnodes⟩ := Node.AllSound.element_iff.mp hsound
      obtain ⟨hinside, hbehind, hfirst, hbetween⟩ := hsheets.element
      have hleft := behind hnodes hbehind fun s hs =>
        hrest s (mem_takenSheets_behind hs)
      by_cases hsheet : isSheet (h, content)
      · obtain ⟨hsheetName, hne, hheads⟩ := isSheet_iff.mp hsheet
        have hread := (hstart (.inl rfl)).replace_sheet hsheetName
          (not_mem_writeAll hcontent hheads (.inl rfl))
        rw [writeSheets_element hne, writeSheets_element hne, if_pos hsheetName, if_pos hsheetName,
          id, writeSheets_of_allHeads hheads, writeSheets_of_allHeads hheads]
        simp only [List.append_assoc]
        rw [← List.append_assoc ('<' :: _) _ rest, List.append_assoc]
        rw [hread, hleft]
      · rw [Bool.not_eq_true] at hsheet
        have hfollows (hopens : opensSheet h.name.text)
            : Unclosed (writeSheets (startText jsxAttribute) id nodes ++ rest) := by
          have hnone := hrest _ (mem_takenSheets_of_opensSheet hopens) hsheet
          exact unclosed_writeSheets hledger hnodes
            (fun s hs => hfirst hopens hsheet s (.inr hs)) hnone
        by_cases hempty : content = []
        · subst hempty
          rw [writeSheets_empty, writeSheets_empty, List.append_assoc, List.append_assoc,
            (hstart (.inr rfl)).replace_unclosed hfollows, hleft]
        · obtain ⟨hcloses, hother⟩ := hsheets.other (hname _ (.inr rfl)) hempty hsheet
          have hfinish := passes_finish (hname _ (.inl rfl))
          have hclosed (hnone : Unclosed (writeSheets (startText jsxAttribute) id nodes ++ rest))
              : Unclosed ('<' :: '/' :: (h.name.text ++ ['>'])
                ++ (writeSheets (startText jsxAttribute) id nodes ++ rest)) :=
            hnone.finish hname hcloses
          have hcontentRest : ∀ s ∈ takenSheets content, isSheet s = false →
              Unclosed (writeSheets (startText jsxAttribute) id nodes ++ rest) := fun s hs hnot =>
            unclosed_writeSheets hledger hnodes (hbetween s hs hnot)
              (hrest s (mem_takenSheets_content hs) hnot)
          have hcontentText := inside hcontent hinside fun s hs hnot =>
            hclosed (hcontentRest s hs hnot)
          rw [writeSheets_element hempty, writeSheets_element hempty, id, ite_self, hother,
            if_neg (by decide)]
          simp only [List.append_assoc]
          rw [(hstart (.inl rfl)).replace_unclosed fun hopens => ?_, hcontentText, hfinish, hleft]
          exact unclosed_writeSheets hledger hcontent (fun s hs => hfirst hopens hsheet s (.inl hs))
            (hclosed (hfollows hopens))
  | text s nodes ih =>
      obtain ⟨-, hnodes⟩ := Node.AllSound.text_iff.mp hsound
      rw [takenSheets_text] at hrest
      rw [writeSheets_text, writeSheets_text, List.append_assoc, List.append_assoc,
        hplain (not_mem_escaped (.inl rfl) s), ih hnodes (hasPlainSheets_text.mp hsheets) hrest]
  | entity name nodes ih =>
      obtain ⟨hname, hnodes⟩ := Node.AllSound.entity_iff.mp hsound
      rw [takenSheets_entity] at hrest
      rw [writeSheets_entity, writeSheets_entity, List.append_assoc, List.append_assoc,
        hplain (not_mem_entity (.inl rfl) hname), ih hnodes (hasPlainSheets_entity.mp hsheets) hrest]

end Sound

end SvgKit.Component
