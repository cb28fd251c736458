import SvgKit.Proofs.Xml.RoundTrip

/-! Documents: what is read is tidy, and the text of a tidy tree is read back as a document. -/

namespace SvgKit.Xml

-----------------------------------------------------------------------------------------
-- In front of the root
-----------------------------------------------------------------------------------------

/-- The text without a byte order mark at its head. -/
def dropByteOrderMark : Text → Text
  | '\uFEFF' :: s => s
  | s => s

/-- A document type declaration stands behind the declaration of XML, comments and
instructions.
-/
def hasDoctype (s : Text) : Bool :=
  match (afterXmlDeclaration? (dropByteOrderMark s)).bind fun (_, rest) => dropMisc? rest with
  | some rest => Text.startsWith rest "<!DOCTYPE"
  | none => false

/-- The parts from which a document is read. -/
theorem ofText?_eq (s : Text)
    : Document.ofText? s
      = (afterXmlDeclaration? (dropByteOrderMark s)).bind fun (alone, s) =>
        (dropMisc? s).bind fun s => (readDoctypeOrNone? s).bind fun (d, s) =>
        (dropMisc? s).bind fun s => (tokens? s).bind fun tokens =>
          Document.ofTokens? { d with incomplete := d.incomplete && !alone } tokens :=
  rfl

/-- Without a document type declaration nothing is declared. -/
theorem exists_ofTokens?_of_ofText? {s : Text} {d : Document} (hdoctype : hasDoctype s = false)
    (h : Document.ofText? s = some d)
    : ∃ tokens, Document.ofTokens? {} tokens = some d := by
  rw [ofText?_eq] at h
  simp only [Option.bind_eq_some_iff] at h
  obtain ⟨⟨alone, after⟩, hxml, before, hmisc, ⟨declared, behind⟩, hread, body, -, tokens, -,
    hdocument⟩ := h
  simp only [hasDoctype, hxml, Option.bind_some, hmisc, Text.startsWith,
    Option.isSome_eq_false_iff, Option.isNone_iff_eq_none] at hdoctype
  rw [readDoctypeOrNone?, hdoctype] at hread
  cases hread
  exact ⟨tokens, hdocument⟩

/-- A document is tidy, and literal if there is no document type declaration. -/
theorem tidy_of_ofText? {literal : Bool} {s : Text} {d : Document}
    (hdoctype : literal → hasDoctype s = false) (h : Document.ofText? s = some d)
    : Tidy literal maxDepth d.root.forest := by
  cases literal with
  | false =>
      obtain ⟨_, _, _, _, _, -, -, htokens⟩ := ofText?_eq_some h
      exact tidy_of_ofTokens? (fun h => by cases h) htokens
  | true =>
      obtain ⟨tokens, htokens⟩ := exists_ofTokens?_of_ofText? (hdoctype rfl) h
      exact tidy_of_ofTokens? (fun _ => rfl) htokens

-----------------------------------------------------------------------------------------
-- Texts that begin with a tag
-----------------------------------------------------------------------------------------

section Tag

variable {c : Char} (hc : isNameStart c)
include hc

theorem ne_of_isNameStart {d : Char} (hd : d ∈ delimiters) : d ≠ c := by
  rintro rfl
  exact not_mem_delimiters_of_isNameStart hc hd

theorem dropLiteral?_xml_tag (s : Text) : Text.dropLiteral? "<?xml" ('<' :: c :: s) = none := by
  have hquestion := ne_of_isNameStart hc (d := '?') (by decide)
  simp [Text.dropLiteral?, Text.ofString, hquestion]

theorem dropLiteral?_doctype_tag (s : Text)
    : Text.dropLiteral? "<!DOCTYPE" ('<' :: c :: s) = none := by
  have hexclamation := ne_of_isNameStart hc (d := '!') (by decide)
  simp [Text.dropLiteral?, Text.ofString, hexclamation]

theorem dropMisc?_tag (s : Text) : dropMisc? ('<' :: c :: s) = some ('<' :: c :: s) := by
  have hquestion := ne_of_isNameStart hc (d := '?') (by decide)
  have hexclamation := ne_of_isNameStart hc (d := '!') (by decide)
  rw [dropMisc?, if_neg (by decide)]
  · simpa using hquestion.symm
  · simp [hexclamation.symm]

theorem ofText?_tag (s : Text)
    : Document.ofText? ('<' :: c :: s)
      = (tokens? ('<' :: c :: s)).bind (Document.ofTokens? {}) := by
  have hxml : afterXmlDeclaration? ('<' :: c :: s) = some (false, '<' :: c :: s) := by
    rw [afterXmlDeclaration?, dropLiteral?_xml_tag hc]
  have hdoctype : readDoctypeOrNone? ('<' :: c :: s) = some ({}, '<' :: c :: s) := by
    rw [readDoctypeOrNone?, dropLiteral?_doctype_tag hc]
  have hmark : dropByteOrderMark ('<' :: c :: s) = '<' :: c :: s := by
    rw [dropByteOrderMark]
    simp
  simp only [ofText?_eq, hmark, hxml, Option.bind_some, dropMisc?_tag hc, hdoctype,
    Bool.false_and]

end Tag

-----------------------------------------------------------------------------------------
-- Texts of documents
-----------------------------------------------------------------------------------------

/-- The document that tokens build is what is open once its text has been read. -/
theorem bind_ofTokens? (d : Doctype) (s : Text)
    : (tokens? s).bind (Document.ofTokens? d)
      = (Progress.absorb? d {} s).bind fun p =>
        if p.frames.isEmpty then p.root.map fun root => ⟨root, { mark := p.mark }⟩ else none := by
  rw [Progress.absorb?, Option.bind_assoc]
  congr 1
  funext tokens
  rw [Document.ofTokens?]
  cases tokens.foldlM (Progress.take? d) {} <;> rfl

section Texts

variable {tagOf : Head → Tag} (hsoundTags : SoundTags tagOf) {next : Nat}
  {made : List Binding} (hledger : Ledger next made) {e : Element}
  (hsound : Node.AllSound made e.forest)
include hsoundTags hledger hsound

theorem exists_writeAllWith
    : ∃ c s, Node.writeAllWith tagOf e.forest = '<' :: c :: s ∧ isNameStart c := by
  have hhead := (Node.AllSound.element_iff.mp hsound).1
  obtain ⟨c, s, htext, hc⟩ := (hsoundTags made next hledger e.head hhead).text_eq_cons
  rw [Element.forest, Node.writeAllWith, Node.writeWith]
  split
  · exact ⟨c, _, by rw [htext]; rfl, hc⟩
  · exact ⟨c, _, by rw [htext]; rfl, hc⟩

/-- The text of a tidy tree is read back, or there is a reason why not. -/
theorem ofText?_writeAllWith {literal : Bool} (htidy : Tidy literal maxDepth e.forest)
    : Document.ofText? (Node.writeAllWith tagOf e.forest) = none ∧ Unread tagOf [] e.forest
      ∨ ∃ d, Document.ofText? (Node.writeAllWith tagOf e.forest) = some d
        ∧ Reread tagOf [] e.forest d.root.forest := by
  obtain ⟨c, s, hwrite, hc⟩ := exists_writeAllWith hsoundTags hledger hsound
  have hread : Document.ofText? (Node.writeAllWith tagOf e.forest)
      = (Progress.absorb? {} {} ((Node.element e.head e.content).writeWith tagOf ++ [])).bind
        fun p =>
          if p.frames.isEmpty then p.root.map fun root => ⟨root, { mark := p.mark }⟩
          else none := by
    rw [hwrite, ofText?_tag hc, bind_ofTokens?, ← hwrite, Element.forest, Node.writeAllWith,
      Node.writeAllWith_nil]
  obtain ⟨hhead, hcontent, -⟩ := Node.AllSound.element_iff.mp hsound
  cases htidy with
  | element _ inside _ =>
      rcases absorb?_element hsoundTags hledger hhead
          (inside.readsBack hsoundTags hledger hcontent) {} rfl (Nat.le_of_eq rfl) [] with
        ⟨habsorb, hunread⟩ | ⟨h', content', mark, hhead', hreread, habsorb⟩
      · exact .inl ⟨by rw [hread, habsorb]; rfl, hunread []⟩
      · refine .inr ⟨⟨⟨h', content'⟩, { mark }⟩, ?_, ?_⟩
        · rw [hread, habsorb, Progress.absorb?_nil]
          rfl
        · exact .element hhead' (by simpa [Progress.scope] using hreread) .nil

end Texts

end SvgKit.Xml
