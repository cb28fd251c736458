import SvgKit.Proofs.Component.StyleSheets
import SvgKit.Proofs.Component.TemplateLiteral

/-! Start tags that are paired with end tags of style elements. Behind a start tag that is paired
stands an expression; up to the next bracket it has one backquote more than what stood there. So a
text that becomes JSX element by element has no pairs but style elements.
-/

namespace SvgKit.Component

open Markup (IsClose)
open Xml (Binding Head Ledger Node)

-----------------------------------------------------------------------------------------
-- Up to the next bracket
-----------------------------------------------------------------------------------------

/-- What stands in front of the first opening bracket. -/
def lead (s : Text) : Text := s.takeWhile (· != '<')

@[simp]
theorem lead_bracket (s : Text) : lead ('<' :: s) = [] := rfl

theorem lead_finish (name rest rest' : Text)
    : lead ('<' :: '/' :: (name ++ ['>']) ++ rest)
      = lead ('<' :: '/' :: (name ++ ['>']) ++ rest') := rfl

theorem lead_append {s : Text} (hs : '<' ∉ s) (rest : Text) : lead (s ++ rest) = s ++ lead rest :=
  List.takeWhile_append_of_pos fun c hc => by
    simpa using fun h : c = '<' => hs (h ▸ hc)

theorem lead_of_not_mem {s : Text} (hs : '<' ∉ s) : lead s = s := by
  have h := lead_append hs []
  rwa [List.append_nil, show lead [] = [] from rfl, List.append_nil] at h

theorem bracket_not_mem_lead (s : Text) : '<' ∉ lead s := by
  intro hmem
  simpa using List.mem_takeWhile_imp hmem

theorem exists_eq_lead (s : Text) : ∃ rest, s = lead s ++ rest :=
  ⟨s.dropWhile (· != '<'), List.takeWhile_append_dropWhile.symm⟩

theorem lead_append_bracket (s rest : Text) : lead (s ++ '<' :: rest) = lead s := by
  by_cases hs : '<' ∈ s
  · obtain ⟨front, back, rfl, hfront⟩ := List.eq_append_cons_of_mem hs
    rw [List.append_assoc, List.cons_append, lead_append hfront, lead_append hfront, lead_bracket,
      lead_bracket]
  · rw [lead_append hs, lead_bracket, List.append_nil, lead_of_not_mem hs]

/-- There are no fewer backquotes in the first text up to its first bracket. -/
def LeadsFewer (s t : Text) : Prop := (lead s).count '\x60' ≤ (lead t).count '\x60'

theorem LeadsFewer.trans {s t u : Text} (h : LeadsFewer s t) (h' : LeadsFewer t u)
    : LeadsFewer s u := Nat.le_trans h h'

theorem leadsFewer_append (s rest : Text) : LeadsFewer s (s ++ rest) := by
  obtain ⟨more, hs⟩ := exists_eq_lead s
  have hlead : lead (s ++ rest) = lead s ++ lead (more ++ rest) := by
    conv_lhs => rw [hs, List.append_assoc, lead_append (bracket_not_mem_lead s)]
  rw [LeadsFewer, hlead, List.count_append]
  exact Nat.le_add_right _ _

/-- A scanner that reads nothing in front of brackets leaves what stands there as it is. -/
theorem leadsFewer_replace {α : Type} {p : Scanner α} {f : α → Text}
    (hplain : ∀ s, '<' ∉ s → p.Passes f s s) (s : Text)
    : LeadsFewer s (p.replace f s) := by
  obtain ⟨more, hs⟩ := exists_eq_lead s
  have hreplace : p.replace f s = lead s ++ p.replace f more := by
    conv_lhs => rw [hs, hplain _ (bracket_not_mem_lead s)]
  have hfewer := leadsFewer_append (lead s) (p.replace f more)
  rwa [LeadsFewer, lead_of_not_mem (bracket_not_mem_lead s), ← hreplace] at hfewer

theorem leadsFewer_trim (s : Text) : LeadsFewer s (Text.trim s) := by
  obtain ⟨front, back, hfront, hback, hs⟩ := Text.exists_eq_trim s
  have hnot {blanks : Text} (hblanks : Text.allBlank blanks) {c : Char} (hc : Text.isBlank c = false)
      : c ∉ blanks := by
    intro hmem
    rw [List.all_eq_true.mp hblanks c hmem] at hc
    cases hc
  have hcount {blanks : Text} (hblanks : Text.allBlank blanks) : blanks.count '\x60' = 0 :=
    List.count_eq_zero.mpr (hnot hblanks (by decide))
  have hbracket {blanks : Text} (hblanks : Text.allBlank blanks) : '<' ∉ blanks :=
    hnot hblanks (by decide)
  unfold LeadsFewer
  conv_lhs => rw [hs, lead_append (hbracket hfront), List.count_append, hcount hfront, Nat.zero_add]
  by_cases hmem : '<' ∈ Text.trim s
  · obtain ⟨first, more, htrim, -⟩ := List.eq_append_cons_of_mem hmem
    rw [htrim, List.append_assoc, List.cons_append, lead_append_bracket, lead_append_bracket]
  · rw [lead_append hmem, lead_of_not_mem (hbracket hback), List.count_append, hcount hback,
      lead_of_not_mem hmem]
    exact Nat.le_refl _

/-- Escapes add backslashes only, by induction over the text. -/
theorem leadsFewer_escapeTemplate (s : Text) : LeadsFewer s (escapeTemplate s) := by
  induction s with
  | nil => exact Nat.le_refl _
  | cons c s ih =>
      obtain ⟨front, hfront, hstep⟩ := exists_step c (escapeTemplate s)
      have hbackslashes : '<' ∉ front := fun hmem => absurd (hfront _ hmem) (by decide)
      rw [LeadsFewer, escapeTemplate_cons, hstep _ Iff.rfl, lead_append hbackslashes,
        List.count_append]
      by_cases hc : c = '<'
      · subst hc
        rw [lead_bracket]
        exact Nat.zero_le _
      · have hsingle : '<' ∉ [c] := by simpa using Ne.symm hc
        have hcons (t : Text) : lead (c :: t) = [c] ++ lead t := lead_append hsingle t
        rw [hcons, hcons, List.count_append, List.count_append]
        unfold LeadsFewer at ih
        omega

-----------------------------------------------------------------------------------------
-- Pairs
-----------------------------------------------------------------------------------------

/-- A text whose style elements and then whose comments become JSX. -/
def convertMarks (s : Text) : Text :=
  (betweenScanner "<!--" "-->").replace jsxComment (styleScanner.replace StyleElement.jsx s)

/-- A stretch that both rewritings leave as it is. -/
theorem convertMarks_append {s : Text} (hstyle : styleScanner.Passes StyleElement.jsx s s)
    (hcomment : (betweenScanner "<!--" "-->").Passes jsxComment s s) (rest : Text)
    : convertMarks (s ++ rest) = s ++ convertMarks rest := by
  rw [convertMarks, hstyle, hcomment, convertMarks]

theorem convertMarks_plain {s : Text} (hs : '<' ∉ s) (rest : Text)
    : convertMarks (s ++ rest) = s ++ convertMarks rest :=
  convertMarks_append (Scanner.passes_plain (fun _ s hc => readStyle?_of_ne s hc) hs)
    (passes_comment_plain hs) rest

theorem convertMarks_finish {name : Text} (hname : '<' ∉ name) (rest : Text)
    : convertMarks ('<' :: '/' :: (name ++ ['>']) ++ rest)
      = '<' :: '/' :: (name ++ ['>']) ++ convertMarks rest :=
  convertMarks_append (passes_finish hname) (passes_comment_finish hname) rest

theorem IsTagText.convertMarks_sheet {name s : Text} (h : IsTagText name s)
    (hname : isSheetName name) (hbracket : '<' ∉ name) {sheet : Text} (hsheet : '<' ∉ sheet)
    (rest : Text)
    : convertMarks (s ++ (sheet ++ ('<' :: '/' :: (name ++ ['>']) ++ rest)))
      = s ++ (sheetExpression sheet
        ++ ('<' :: '/' :: (name ++ ['>']) ++ convertMarks rest)) := by
  have hexpression := passes_comment_plain (not_mem_sheetExpression hsheet)
  rw [convertMarks, h.replace_sheet hname hsheet, h.passes_comment, hexpression,
    passes_comment_finish hbracket, convertMarks]

theorem unclosed_of_splitAtStyleEnd? {done s : Text} (h : splitAtStyleEnd? done s = none)
    : Unclosed s := by
  induction s generalizing done with
  | nil => exact unclosed_nil
  | cons c s ih =>
      rw [splitAtStyleEnd?] at h
      split at h
      · cases h
      · next hread => exact .cons hread (ih h)

theorem Unclosed.behind {s rest : Text} (h : Unclosed (s ++ rest)) : Unclosed rest :=
  fun t ht => h t (ht.trans (List.suffix_append s rest))

theorem closesSheet_eq_false_of_unclosed {name rest : Text}
    (h : Unclosed ('<' :: '/' :: (name ++ ['>']) ++ rest))
    : closesSheet name = false := by
  refine Bool.eq_false_of_not_eq_true fun hcloses => ?_
  obtain ⟨⟨closing, left⟩, hread⟩ := Option.isSome_iff_exists.mp hcloses
  obtain ⟨hclosing, htext⟩ := readStyleEnd?_eq_some_iff.mp hread
  have hnone := h _ List.suffix_rfl
  rw [htext, List.append_assoc, readStyleEnd?_append hclosing] at hnone
  cases hnone

/-- Up to the next bracket, an expression has a backquote more than what it is made of. -/
theorem lead_lt_of_pair {closing : Text} (hclosing : IsStyleEnd closing) (sheet left more : Text)
    : (lead (sheet ++ (closing ++ left))).count '\x60'
      < (lead (sheetExpression (openedSheet sheet) ++ more)).count '\x60' := by
  obtain ⟨inner, hinner, -⟩ := hclosing.exists_inner
  have hsheet : lead (sheet ++ (closing ++ left)) = lead sheet := by
    rw [hinner, List.cons_append, lead_append_bracket]
  have hopened : LeadsFewer sheet (openedSheet sheet) :=
    leadsFewer_replace (fun _ hs => Scanner.passes_plain (fun _ s hc => readData?_of_ne hc s) hs) _
  have hescaped := (hopened.trans (leadsFewer_trim _)).trans (leadsFewer_escapeTemplate _)
  have hfewer := hescaped.trans (leadsFewer_append _ ('\x60' :: '\x7d' :: more))
  have hexpression : sheetExpression (openedSheet sheet) ++ more
      = ['\x7b', '\x60']
        ++ (escapeTemplate (Text.trim (openedSheet sheet)) ++ '\x60' :: '\x7d' :: more) := by
    simp [sheetExpression, templateLiteral]
  rw [hsheet, hexpression, lead_append (by decide), List.count_append,
    show ['\x7b', '\x60'].count '\x60' = 1 from rfl]
  unfold LeadsFewer at hfewer
  omega

/-- A start tag that is followed by what stood behind it has not been paired. -/
theorem IsTagText.unclosed_of_convertMarks {name s : Text} (h : IsTagText name s)
    {rest rest' : Text} (hlead : lead rest = lead rest')
    (heq : convertMarks (s ++ rest) = s ++ rest')
    : (opensSheet name → Unclosed rest) ∧ convertMarks rest = rest' := by
  have hunpaired (hrest : opensSheet name → Unclosed rest)
      : (opensSheet name → Unclosed rest) ∧ convertMarks rest = rest' := by
    refine ⟨hrest, ?_⟩
    rw [convertMarks, h.replace_unclosed hrest, h.passes_comment] at heq
    exact List.append_cancel_left heq
  by_cases hopens : opensSheet name
  · cases hsplit : splitAtStyleEnd? [] rest with
    | none => exact hunpaired fun _ => unclosed_of_splitAtStyleEnd? hsplit
    | some found =>
        obtain ⟨sheet, closing, left⟩ := found
        obtain ⟨hrest, hclosing⟩ := eq_of_splitAtStyleEnd? hsplit
        have hread := h.readStyle?_eq rest
        rw [if_pos hopens, hsplit, Option.map_some] at hread
        have hstyled : styleScanner.replace StyleElement.jsx (s ++ rest)
            = s ++ (sheetExpression (openedSheet sheet)
              ++ (closing ++ styleScanner.replace StyleElement.jsx left)) := by
          rw [Scanner.replace_of_read hread, StyleElement.jsx]
          simp [sheetExpression, openedSheet]
        rw [convertMarks, hstyled, h.passes_comment] at heq
        have hexpression := List.append_cancel_left heq
        have hlt := lead_lt_of_pair hclosing sheet left
          (closing ++ styleScanner.replace StyleElement.jsx left)
        have hle : LeadsFewer (sheetExpression (openedSheet sheet)
            ++ (closing ++ styleScanner.replace StyleElement.jsx left)) rest' :=
          hexpression ▸ leadsFewer_replace (fun _ hs => passes_comment_plain hs) _
        rw [← List.append_assoc, ← hrest, hlead] at hlt
        exact absurd hle (Nat.not_le_of_lt hlt)
  · exact hunpaired fun hopens' => absurd hopens' hopens

-----------------------------------------------------------------------------------------
-- Trees
-----------------------------------------------------------------------------------------

/-- Style elements hold no elements. -/
def HasTextSheets (nodes : List Node) : Prop :=
  ∀ s ∈ takenSheets nodes, isSheetName s.1.name.text → Node.allHeads s.2 = []

theorem HasPlainSheets.hasTextSheets {nodes : List Node} (hs : HasPlainSheets nodes)
    : HasTextSheets nodes := by
  intro s hmem hname
  by_cases hempty : s.2 = []
  · rw [hempty, Node.allHeads_nil]
  · have hends := endsSheet_iff.mpr ⟨hempty, closesSheet_of_isSheetName hname⟩
    exact (isSheet_iff.mp (hs.ended s hmem hends)).2.2

section Elements

variable {h : Head} {content nodes : List Node}

theorem HasTextSheets.element (hs : HasTextSheets (.element h content :: nodes))
    : HasTextSheets content ∧ HasTextSheets nodes :=
  ⟨fun s hmem => hs s (mem_takenSheets_content hmem),
    fun s hmem => hs s (mem_takenSheets_behind hmem)⟩

theorem takenSheets_of_allHeads (hheads : Node.allHeads nodes = []) : takenSheets nodes = [] := by
  induction nodes using Node.forest_induction with
  | nil => exact takenSheets_nil
  | element h content nodes _ _ => simp at hheads
  | text s nodes ih => rw [takenSheets_text, ih (by simpa using hheads)]
  | entity name nodes ih => rw [takenSheets_entity, ih (by simpa using hheads)]

theorem hasPlainSheets_nil : HasPlainSheets [] := by
  constructor <;> simp

/-- What makes up the sheets of an element and of the nodes behind it. -/
theorem hasPlainSheets_element (hcontent : HasPlainSheets content) (hnodes : HasPlainSheets nodes)
    (hfirst : opensSheet h.name.text → isSheet (h, content) = false →
      endsSheet (h, content) = false
      ∧ ∀ t, t ∈ takenSheets content ∨ t ∈ takenSheets nodes → endsSheet t = false)
    (hbetween : ∀ s ∈ takenSheets content, isSheet s = false →
      ∀ t ∈ takenSheets nodes, endsSheet t = false)
    : HasPlainSheets (.element h content :: nodes) := by
  have himp {s t : Head × List Node} (hnot : isSheet s = false → endsSheet t = false)
      (ht : endsSheet t) : isSheet s := by
    by_contra hs
    rw [hnot (Bool.eq_false_of_not_eq_true hs)] at ht
    cases ht
  constructor
  · intro s hs
    rcases mem_takenSheets_element.mp hs with ⟨rfl, hopens⟩ | hs | hs
    · exact himp fun hnot => (hfirst hopens hnot).1
    · exact hcontent.ended s hs
    · exact hnodes.ended s hs
  · rw [takenSheets_element]
    refine List.pairwise_append.mpr ⟨?_, List.pairwise_append.mpr ⟨hcontent.order, hnodes.order,
      fun s hs t ht => himp fun hnot => hbetween s hs hnot t ht⟩, ?_⟩
    · split <;> simp
    · intro s hs t ht
      split at hs
      · next hopens =>
          rw [List.mem_singleton.mp hs]
          exact himp fun hnot => (hfirst hopens hnot).2 t (List.mem_append.mp ht)
      · cases hs

/-- Behind the start tag of a sheet only the nodes behind it matter. -/
theorem mem_takenSheets_of_isSheet (hsheet : isSheet (h, content)) {s : Head × List Node}
    (hs : s ∈ takenSheets (.element h content :: nodes)) (hnot : isSheet s = false)
    : s ∈ takenSheets nodes := by
  rcases mem_takenSheets_element.mp hs with ⟨rfl, -⟩ | hs | hs
  · rw [hsheet] at hnot
    cases hnot
  · rw [takenSheets_of_allHeads (isSheet_iff.mp hsheet).2.2] at hs
    cases hs
  · exact hs

theorem hasPlainSheets_of_isSheet (hsheet : isSheet (h, content)) (hnodes : HasPlainSheets nodes)
    : HasPlainSheets (.element h content :: nodes) := by
  have hnone := takenSheets_of_allHeads (isSheet_iff.mp hsheet).2.2
  have hcontent : HasPlainSheets content := by
    rw [hasPlainSheets_iff, hnone]
    simp
  refine hasPlainSheets_element hcontent hnodes (fun _ hnot => ?_) (by simp [hnone])
  rw [hsheet] at hnot
  cases hnot

end Elements

/-- Where no end tag of a style element stands in the text of nodes, no style element ends in them,
by induction over them.
-/
theorem endsSheet_eq_false_of_unclosed {start : Head → Text → Text} {nodes : List Node} {rest : Text}
    (h : Unclosed (writeSheets start id nodes ++ rest))
    : ∀ s ∈ takenSheets nodes, endsSheet s = false := by
  induction nodes using Node.forest_induction generalizing rest with
  | nil => simp
  | element head content nodes inside behind =>
      by_cases hempty : content = []
      · subst hempty
        rw [writeSheets_empty, List.append_assoc] at h
        intro s hs
        rcases mem_takenSheets_element.mp hs with ⟨rfl, -⟩ | hs | hs
        · rfl
        · simp at hs
        · exact behind h.behind s hs
      · rw [writeSheets_element hempty, id, ite_self] at h
        simp only [List.append_assoc] at h
        have hcontent := h.behind
        have hfinish := hcontent.behind
        intro s hs
        rcases mem_takenSheets_element.mp hs with ⟨rfl, -⟩ | hs | hs
        · rw [endsSheet, closesSheet_eq_false_of_unclosed hfinish, Bool.and_false]
        · exact inside hcontent s hs
        · exact behind hfinish.behind s hs
  | text s nodes ih =>
      rw [writeSheets_text, List.append_assoc] at h
      rw [takenSheets_text]
      exact ih h.behind
  | entity name nodes ih =>
      rw [writeSheets_entity, List.append_assoc] at h
      rw [takenSheets_entity]
      exact ih h.behind

section Sound

variable {next : Nat} {made : List Binding} (hledger : Ledger next made) {nodes : List Node}
  (hsound : Node.AllSound made nodes)
include hledger hsound

/-- Up to the first bracket the text of nodes is the same with expressions in it, by induction over
the nodes.
-/
theorem lead_writeSheets {rest rest' : Text} (hlead : lead rest = lead rest')
    : lead (writeSheets (startText jsxAttribute) id nodes ++ rest)
      = lead (writeSheets (startText jsxAttribute) sheetExpression nodes ++ rest') := by
  induction nodes using Node.forest_induction with
  | nil => rwa [writeSheets_nil, writeSheets_nil]
  | element h content nodes _ _ =>
      have hstart {close : Text} (hclose : IsClose close) :=
        isTagText_startText hledger hsound (h := h) (by simp) hclose
      by_cases hempty : content = []
      · subst hempty
        obtain ⟨c, inner, htext, -⟩ := hstart (.inr rfl)
        rw [writeSheets_empty, writeSheets_empty, htext]
        rfl
      · obtain ⟨c, inner, htext, -⟩ := hstart (.inl rfl)
        rw [writeSheets_element hempty, writeSheets_element hempty, htext]
        rfl
  | text s nodes ih =>
      obtain ⟨-, hnodes⟩ := Node.AllSound.text_iff.mp hsound
      have hs := not_mem_escaped (.inl rfl) s
      rw [writeSheets_text, writeSheets_text, List.append_assoc, List.append_assoc, lead_append hs,
        lead_append hs, ih hnodes]
  | entity name nodes ih =>
      obtain ⟨hname, hnodes⟩ := Node.AllSound.entity_iff.mp hsound
      have hentity := not_mem_entity (.inl rfl) hname
      rw [writeSheets_entity, writeSheets_entity, List.append_assoc, List.append_assoc,
        lead_append hentity, lead_append hentity, ih hnodes]

/-- Nodes that become JSX element by element, and what follows them, have plain sheets. The induction
is over the nodes, and what follows them is kept in the statement.
-/
theorem hasPlainSheets_of_convertMarks (htexts : HasTextSheets nodes) {rest rest' : Text}
    (hlead : lead rest = lead rest')
    (heq : convertMarks (writeSheets (startText jsxAttribute) id nodes ++ rest)
      = writeSheets (startText jsxAttribute) sheetExpression nodes ++ rest')
    : HasPlainSheets nodes ∧ (∀ s ∈ takenSheets nodes, isSheet s = false → Unclosed rest)
      ∧ convertMarks rest = rest' := by
  induction nodes using Node.forest_induction generalizing rest rest' with
  | nil =>
      rw [writeSheets_nil, writeSheets_nil] at heq
      exact ⟨hasPlainSheets_nil, by simp, heq⟩
  | element h content nodes inside behind =>
      have hname := not_mem_name hledger hsound (h := h) (by simp)
      have hstart {close : Text} (hclose : IsClose close) :=
        isTagText_startText hledger hsound (h := h) (by simp) hclose
      obtain ⟨-, hcontent, hnodes⟩ := Node.AllSound.element_iff.mp hsound
      obtain ⟨htextsInside, htextsBehind⟩ := htexts.element
      by_cases hempty : content = []
      · subst hempty
        rw [writeSheets_empty, writeSheets_empty, List.append_assoc, List.append_assoc] at heq
        obtain ⟨hunclosed, hleft⟩ :=
          (hstart (.inr rfl)).unclosed_of_convertMarks (lead_writeSheets hledger hnodes hlead) heq
        obtain ⟨hplain, hrest, hrest'⟩ := behind hnodes htextsBehind hlead hleft
        refine ⟨hasPlainSheets_element hasPlainSheets_nil hplain (fun hopens _ => ⟨rfl, ?_⟩)
          (by simp), fun s hs hnot => ?_, hrest'⟩
        · have hnone := endsSheet_eq_false_of_unclosed (hunclosed hopens)
          simpa using hnone
        · rcases mem_takenSheets_element.mp hs with ⟨rfl, hopens⟩ | hs | hs
          · exact (hunclosed hopens).behind
          · simp at hs
          · exact hrest s hs hnot
      · rw [writeSheets_element hempty, writeSheets_element hempty] at heq
        by_cases hsheetName : isSheetName h.name.text
        · have hopens := opensSheet_of_isSheetName hsheetName
          have hheads := htexts (h, content) (mem_takenSheets_of_opensSheet hopens) hsheetName
          have hsheet : isSheet (h, content) := isSheet_iff.mpr ⟨hsheetName, hempty, hheads⟩
          rw [if_pos hsheetName, if_pos hsheetName, id, writeSheets_of_allHeads hheads,
            writeSheets_of_allHeads hheads] at heq
          simp only [List.append_assoc] at heq
          rw [(hstart (.inl rfl)).convertMarks_sheet hsheetName (hname _ (.inl rfl))
            (not_mem_writeAll hcontent hheads (.inl rfl))] at heq
          have hleft := List.append_cancel_left
            (List.append_cancel_left (List.append_cancel_left heq))
          obtain ⟨hplain, hrest, hrest'⟩ := behind hnodes htextsBehind hlead hleft
          exact ⟨hasPlainSheets_of_isSheet hsheet hplain,
            fun s hs hnot => hrest s (mem_takenSheets_of_isSheet hsheet hs hnot) hnot, hrest'⟩
        · rw [if_neg hsheetName, if_neg hsheetName] at heq
          simp only [List.append_assoc] at heq
          have hfinishLead := lead_finish h.name.text
            (writeSheets (startText jsxAttribute) id nodes ++ rest)
            (writeSheets (startText jsxAttribute) sheetExpression nodes ++ rest')
          obtain ⟨hunclosed, hleft⟩ := (hstart (.inl rfl)).unclosed_of_convertMarks
            (lead_writeSheets hledger hcontent hfinishLead) heq
          obtain ⟨hplainInside, hrestInside, hfinish⟩ :=
            inside hcontent htextsInside hfinishLead hleft
          rw [convertMarks_finish (hname _ (.inl rfl))] at hfinish
          obtain ⟨hplain, hrest, hrest'⟩ :=
            behind hnodes htextsBehind hlead (List.append_cancel_left hfinish)
          refine ⟨hasPlainSheets_element hplainInside hplain (fun hopens _ => ⟨?_, ?_⟩)
            fun s hs hnot => endsSheet_eq_false_of_unclosed (hrestInside s hs hnot).behind,
            fun s hs hnot => ?_, hrest'⟩
          · rw [endsSheet, closesSheet_eq_false_of_unclosed (hunclosed hopens).behind,
              Bool.and_false]
          · rintro t (ht | ht)
            · exact endsSheet_eq_false_of_unclosed (hunclosed hopens) t ht
            · exact endsSheet_eq_false_of_unclosed (hunclosed hopens).behind.behind t ht
          · rcases mem_takenSheets_element.mp hs with ⟨rfl, hopens⟩ | hs | hs
            · exact (hunclosed hopens).behind.behind.behind
            · exact (hrestInside s hs hnot).behind.behind
            · exact hrest s hs hnot
  | text s nodes ih =>
      obtain ⟨-, hnodes⟩ := Node.AllSound.text_iff.mp hsound
      rw [HasTextSheets, takenSheets_text] at htexts
      rw [writeSheets_text, writeSheets_text, List.append_assoc, List.append_assoc,
        convertMarks_plain (not_mem_escaped (.inl rfl) s)] at heq
      obtain ⟨hplain, hrest, hrest'⟩ := ih hnodes htexts hlead (List.append_cancel_left heq)
      exact ⟨hasPlainSheets_text.mpr hplain, by rwa [takenSheets_text], hrest'⟩
  | entity name nodes ih =>
      obtain ⟨hname, hnodes⟩ := Node.AllSound.entity_iff.mp hsound
      rw [HasTextSheets, takenSheets_entity] at htexts
      rw [writeSheets_entity, writeSheets_entity, List.append_assoc, List.append_assoc,
        convertMarks_plain (not_mem_entity (.inl rfl) hname)] at heq
      obtain ⟨hplain, hrest, hrest'⟩ := ih hnodes htexts hlead (List.append_cancel_left heq)
      exact ⟨hasPlainSheets_entity.mpr hplain, by rwa [takenSheets_entity], hrest'⟩

end Sound

end SvgKit.Component
