import SvgKit.Proofs.Component.SheetPairing

/-! Trees as JSX. The text of a tree becomes JSX element by element exactly where only style elements
are taken for style elements. The expressions in them stand for their content as it is written,
which is their text where nothing in it is escaped, and only there.
-/

namespace SvgKit.Component

open Markup (rewriteAttributes)
open Xml (Binding Element Head Ledger Node)

-----------------------------------------------------------------------------------------
-- Expressions
-----------------------------------------------------------------------------------------

/-- Reads the units of a template literal that stands alone in braces, and what follows it. -/
def readExpression? : Text → Option (List Nat × Text)
  | '\x7b' :: '\x60' :: s =>
    (readTemplate? s).bind fun (units, rest) =>
      match rest with
      | '\x7d' :: left => some (units, left)
      | _ => none
  | _ => none

theorem readExpression?_sheetExpression {s : Text} (hs : '\r' ∉ s) (rest : Text)
    : readExpression? (sheetExpression s ++ rest) = some ((Text.trim s).units, rest) := by
  have htext : sheetExpression s ++ rest
      = '\x7b' :: '\x60' :: (escapeTemplate (Text.trim s) ++ '\x60' :: '\x7d' :: rest) := by
    simp [sheetExpression, templateLiteral]
  have hread := readTemplate?_escapeTemplate (fun hmem => hs (Text.mem_of_mem_trim hmem))
    ('\x7d' :: rest)
  rw [htext, readExpression?, hread]
  rfl

/-- Every escape ends with a semicolon of its own, by induction over the text. -/
theorem count_escaped (s : Text)
    : (s.flatMap Xml.escapeText).count ';'
      = s.count ';' + s.countP fun c => Xml.escapeText c ≠ [c] := by
  have hchar (c : Char) : (Xml.escapeText c).count ';'
      = [c].count ';' + if Xml.escapeText c ≠ [c] then 1 else 0 := by
    unfold Xml.escapeText
    split_ifs <;> simp_all [Text.ofString]
  induction s with
  | nil => rfl
  | cons c s ih =>
      have hcons : (c :: s).count ';' = [c].count ';' + s.count ';' := by
        rw [← List.count_append]
        rfl
      rw [List.flatMap_cons, List.count_append, ih, hchar, hcons, List.countP_cons]
      simp only [decide_eq_true_eq]
      omega

/-- A text is what is written for it, blanks around it aside, where nothing in it is escaped, and
only there.
-/
theorem trim_escaped_eq_iff (s : Text)
    : Text.trim (s.flatMap Xml.escapeText) = Text.trim s ↔ ∀ c ∈ s, Xml.escapeText c = [c] := by
  constructor
  · intro htrim
    have hcount := congrArg (List.count ';') htrim
    rw [Text.count_trim (by decide), Text.count_trim (by decide), count_escaped] at hcount
    have hnone : s.countP (fun c => Xml.escapeText c ≠ [c]) = 0 := by omega
    simpa using hnone
  · intro hplain
    have hself : s.flatMap Xml.escapeText = s.flatMap fun c => [c] := List.flatMap_congr hplain
    rw [hself, List.flatMap_singleton']

/-- Text is written escaped, by induction over the nodes. -/
theorem writeAll_of_isText {nodes : List Node} (h : nodes.all Node.isText)
    : Node.writeAll nodes = (Minify.leadingText nodes).flatMap Xml.escapeText := by
  induction nodes using Node.forest_induction with
  | nil => rw [Node.writeAll_nil]; rfl
  | element h content nodes _ _ => simp [Node.isText] at h
  | text s nodes ih =>
      have hnodes : nodes.all Node.isText := by simpa [Node.isText] using h
      rw [Node.writeAll_text, Minify.leadingText, List.flatMap_append, ih hnodes]
  | entity name nodes _ => simp [Node.isText] at h

-----------------------------------------------------------------------------------------
-- Markup
-----------------------------------------------------------------------------------------

/-- What stands between the tags of a style element in JSX. -/
def expressionOf (s : Head × List Node) : Text :=
  sheetExpression (writeSheets (startText jsxAttribute) sheetExpression s.2)

/-- The markup becomes JSX as the nodes say: outside style elements only attributes are rewritten,
and each style element holds an expression. It stands for the content of the element as it is
written, trimmed, and for the text of the element where nothing in the text is escaped, and only
there.
-/
structure ConvertsSheets (nodes : List Node) (markup : Text) : Prop where
  rewritten : rewriteAttributes jsxAttribute markup = writeSheets (startText jsxAttribute) id nodes
  converted : jsxMarkup markup = writeSheets (startText jsxAttribute) sheetExpression nodes
  written : ∀ s ∈ takenSheets nodes, isSheet s → ∀ rest,
    readExpression? (expressionOf s ++ rest) = some ((Text.trim (Node.writeAll s.2)).units, rest)
  exact : ∀ s ∈ takenSheets nodes, isSheet s → s.2.all Node.isText → ∀ rest,
    readExpression? (expressionOf s ++ rest)
        = some ((Text.trim (Minify.leadingText s.2)).units, rest)
      ↔ ∀ c ∈ Minify.leadingText s.2, Xml.escapeText c = [c]

theorem convertsSheets {next : Nat} {made : List Binding} (hledger : Ledger next made)
    {nodes : List Node} (hsound : Node.AllSound made nodes) (hsheets : HasPlainSheets nodes)
    : ConvertsSheets nodes (Node.writeAll nodes) := by
  have hwritten : ∀ s ∈ takenSheets nodes, isSheet s → ∀ rest,
      readExpression? (expressionOf s ++ rest)
        = some ((Text.trim (Node.writeAll s.2)).units, rest) := by
    intro s hs hsheet rest
    obtain ⟨-, -, hheads⟩ := isSheet_iff.mp hsheet
    rw [expressionOf, writeSheets_of_allHeads hheads]
    exact readExpression?_sheetExpression
      (not_mem_writeAll (allSound_of_mem_takenSheets hsound hs) hheads (.inr rfl)) rest
  have hrewritten : rewriteAttributes jsxAttribute (Node.writeAll nodes)
      = writeSheets (startText jsxAttribute) id nodes :=
    (passes_rewriteAttributes hledger hsound jsxAttribute).replace_eq
  refine ⟨hrewritten, ?_, hwritten, fun s hs hsheet htext rest => ?_⟩
  · have hstyled := @replace_writeSheets _ _ hledger _ hsound hsheets [] fun _ _ _ => unclosed_nil
    rw [Scanner.replace_nil, List.append_nil, List.append_nil] at hstyled
    rw [jsxMarkup, hrewritten, hstyled, (passes_comments hledger hsound hsheets).replace_eq]
  · rw [hwritten s hs hsheet, writeAll_of_isText htext, ← trim_escaped_eq_iff, Option.some.injEq,
      Prod.mk.injEq, Text.units_injective.eq_iff]
    simp

/-- The text of nodes whose style elements hold no elements becomes JSX element by element only if
nothing but style elements is taken for them.
-/
theorem hasPlainSheets_of_convertsSheets {next : Nat} {made : List Binding}
    (hledger : Ledger next made) {nodes : List Node} (hsound : Node.AllSound made nodes)
    (h : ConvertsSheets nodes (Node.writeAll nodes)) (htexts : HasTextSheets nodes)
    : HasPlainSheets nodes := by
  have hconverted := h.converted
  rw [jsxMarkup, h.rewritten, ← convertMarks] at hconverted
  refine (hasPlainSheets_of_convertMarks hledger hsound htexts (rfl : lead [] = lead []) ?_).1
  rwa [List.append_nil, List.append_nil]

/-- The text of a tree whose style elements hold no elements, and a minified text in particular,
becomes JSX element by element exactly if nothing but style elements is taken for them. The escapes
of markup stay in the style sheets.
-/
theorem convertsSheets_write (e : Element)
    : (∀ (next : Nat) (made : List Binding), Ledger next made → Node.AllSound made e.forest →
        (ConvertsSheets e.forest e.write ∧ HasTextSheets e.forest ↔ HasPlainSheets e.forest))
      ∧ ∀ (multipass : Bool) (precision : Int) (s : Text) (f : Minify.Finish),
        Minify.finish multipass precision s = .ok f → f.document.root = e →
          f.text = e.write
          ∧ (ConvertsSheets e.forest f.text ∧ HasTextSheets e.forest
            ↔ HasPlainSheets e.forest) := by
  have hexact (next : Nat) (made : List Binding) (hledger : Ledger next made)
      (hsound : Node.AllSound made e.forest)
      : ConvertsSheets e.forest e.write ∧ HasTextSheets e.forest ↔ HasPlainSheets e.forest := by
    rw [Element.write_eq]
    exact ⟨fun ⟨hconverts, htexts⟩ =>
        hasPlainSheets_of_convertsSheets hledger hsound hconverts htexts,
      fun hsheets => ⟨convertsSheets hledger hsound hsheets, hsheets.hasTextSheets⟩⟩
  refine ⟨hexact, fun multipass precision s f h hroot => ?_⟩
  subst hroot
  obtain ⟨_, _, -, -, -, ⟨_, -, hf, -⟩, hwrite⟩ := Minify.exists_steps_of_finish h
  exact ⟨hwrite.symm, hwrite ▸ hexact _ _ hf.ledger hf.tree⟩

/-- A drawing with a style sheet of marks that literals escape, and with tags that look like those
of style elements.
-/
def sampleSheet : Text :=
  "<svg><styles/><Style a=\"1\"> .a\x7bcontent:\"\\201c\x60$\x7b\"\x7d</Style>"
    ++ "<é-x stroke-width=\"1\"/><style/><style-x>b</style-x></svg>"

/-- That drawing as JSX. -/
def sampleSheetJsx : Text :=
  "<svg><styles/><Style a=\"1\">\x7b\x60.a\x7bcontent:\"\\\\201c\\\x60\\$\x7b\"\x7d\x60\x7d</Style>"
    ++ "<é-x stroke-width=\"1\"/><style/><style-x>b</style-x></svg>"

theorem convertsSheets_write_sampleSheet
    : ∃ f, Minify.finish true 3 sampleSheet = .ok f ∧ HasPlainSheets f.document.root.forest
      ∧ ConvertsSheets f.document.root.forest f.text ∧ jsxMarkup f.text = sampleSheetJsx := by
  have hfinish : (Minify.finish true 3 sampleSheet).toOption.any fun f =>
      decide (HasPlainSheets f.document.root.forest)
        && writeSheets (startText jsxAttribute) sheetExpression f.document.root.forest
          = sampleSheetJsx := by
    decide +kernel
  cases hf : Minify.finish true 3 sampleSheet with
  | error e =>
      rw [hf] at hfinish
      cases hfinish
  | ok f =>
      rw [hf] at hfinish
      simp only [Except.toOption, Option.any_some, Bool.and_eq_true, decide_eq_true_eq] at hfinish
      obtain ⟨hsheets, hwrite⟩ := hfinish
      obtain ⟨-, hexact⟩ := (convertsSheets_write f.document.root).2 true 3 sampleSheet f hf rfl
      obtain ⟨hconverts, -⟩ := hexact.mpr hsheets
      exact ⟨f, rfl, hsheets, hconverts, hconverts.converted.trans hwrite⟩

/-- A drawing with a style sheet that has to be escaped. -/
def escapedSheet : Text := "<svg><style>a&gt;b\x7b\x7d</style></svg>"

/-- A drawing with an element between an empty style element and another one. -/
def absorbedElement : Text := "<svg><style/><rect/><style>a\x7b\x7d</style></svg>"

/-- A drawing with an element whose name goes on behind that of a style element. -/
def absorbedName : Text := "<svg><style-x>a</style-x><rect/><style>b\x7b\x7d</style></svg>"

/-- These drawings are minified texts. In JSX, the first one holds a literal that stands for the
escaped style sheet; the others hold in the literal what stands in front of the last style sheet.
-/
theorem not_convertsSheets_minified
    : ((Minify.finish true 3 escapedSheet).toOption.any fun f =>
        f.text = escapedSheet
          && (takenSheets f.document.root.forest).map (Minify.leadingText ·.2)
            = [("a>b\x7b\x7d" : Text)])
      ∧ jsxMarkup escapedSheet
        = "<svg><style>" ++ (("\x7b\x60a&gt;b\x7b\x7d\x60\x7d" : Text) ++ "</style></svg>")
      ∧ readExpression? (("\x7b\x60a&gt;b\x7b\x7d\x60\x7d" : Text) ++ "</style></svg>")
        ≠ some (Text.units (Text.trim "a>b\x7b\x7d"), ("</style></svg>" : Text))
      ∧ ([absorbedElement, absorbedName].all fun s =>
        (Minify.finish true 3 s).toOption.any fun f => f.text = s)
      ∧ jsxMarkup absorbedElement
        = "<svg><style/>\x7b\x60<rect/><style>a\x7b\x7d\x60\x7d</style></svg>"
      ∧ jsxMarkup absorbedName
        = "<svg><style-x>\x7b\x60a</style-x><rect/><style>b\x7b\x7d\x60\x7d</style></svg>" := by
  refine ⟨by decide +kernel, by decide +kernel, ?_, by decide +kernel, by decide +kernel,
    by decide +kernel⟩
  have hexpression : ("\x7b\x60a&gt;b\x7b\x7d\x60\x7d" : Text)
      = sheetExpression "a&gt;b\x7b\x7d" := by
    decide +kernel
  rw [hexpression, readExpression?_sheetExpression (by decide +kernel)]
  decide +kernel

end SvgKit.Component
