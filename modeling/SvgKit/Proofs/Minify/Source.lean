import SvgKit.Proofs.Minify.Readable
import SvgKit.Proofs.Xml.Root

/-! The text that is minified: what is made of its declaration depends on the prolog, and hardly on
what begins with the root.
-/

namespace SvgKit.Minify

open Xml

-----------------------------------------------------------------------------------------
-- Encodings
-----------------------------------------------------------------------------------------

section Encoding

variable {front left left' : Text} (hsub : left' ⊆ left)
include hsub

/-- Of what is behind a `>` it only counts whether a quote is in it. -/
theorem givesEncoding_of_subset (h : givesEncoding (front ++ '>' :: left'))
    : givesEncoding (front ++ '>' :: left) := by
  have hblank (s left : Text) : Text.dropBlank (s ++ '>' :: left) = Text.dropBlank s ++ '>' :: left :=
    dropWhile_append_stop s (by decide) left
  have hliteral (s left : Text) : Text.dropLiteral? "encoding" (s ++ '>' :: left)
      = (Text.dropLiteral? "encoding" s).map (· ++ '>' :: left) :=
    Text.dropLiteral?_append_cons (by with_unfolding_all decide) s left
  cases front with
  | nil => cases h
  | cons c front =>
      rw [List.cons_append] at h ⊢
      unfold givesEncoding at h ⊢
      dsimp only at h ⊢
      split at h
      · cases h
      · next hc =>
          rw [if_neg hc]
          rw [← List.cons_append, hblank, hliteral] at h ⊢
          cases hbehind : Text.dropLiteral? "encoding" (Text.dropBlank (c :: front)) with
          | none =>
              rw [hbehind] at h
              cases h
          | some behind =>
              rw [hbehind, Option.map_some, Option.map_some, hblank] at h
              rw [Option.map_some, Option.map_some, hblank]
              cases hequals : Text.dropBlank behind with
              | nil =>
                  rw [hequals] at h
                  cases h
              | cons x behind =>
                  rw [hequals] at h
                  by_cases hx : x = '='
                  · subst hx
                    simp only [List.cons_append, hblank] at h ⊢
                    cases hquote : Text.dropBlank behind with
                    | nil =>
                        rw [hquote] at h
                        cases h
                    | cons quote value =>
                        rw [hquote] at h
                        simp only [List.cons_append, Bool.and_eq_true, List.any_append, List.any_cons,
                          Bool.or_eq_true] at h ⊢
                        refine h.imp_right (.imp_right (.imp_right fun hmore => ?_))
                        obtain ⟨y, hy, hy'⟩ := List.any_eq_true.mp hmore
                        exact List.any_eq_true.mpr ⟨y, hsub hy, hy'⟩
                  · simp [hx] at h

/-- The first `>` ends the search for an encoding, which does not look at much behind it. The
induction is over the text in front of it.
-/
theorem givesEncodingInTag_of_subset (h : givesEncodingInTag (front ++ '>' :: left'))
    : givesEncodingInTag (front ++ '>' :: left) := by
  induction front with
  | nil =>
      have hblank : Text.isBlank '>' = false := by decide
      simp [givesEncodingInTag, givesEncoding, hblank] at h
  | cons c front ih =>
      rw [List.cons_append, givesEncodingInTag, Bool.or_eq_true, Bool.and_eq_true] at h ⊢
      refine h.imp (fun h => ?_) (.imp_right ih)
      rw [← List.cons_append] at h ⊢
      exact givesEncoding_of_subset hsub h

end Encoding

-----------------------------------------------------------------------------------------
-- Declarations
-----------------------------------------------------------------------------------------

/-- A declaration of XML is dropped in front of any text. -/
theorem dropDeclaration_append {blanks inner : Text} (hblanks : Text.allBlank blanks)
    (hinner : ∀ c ∈ inner, c ≠ '>') (hlast : inner.getLast? = some '?') (after : Text)
    : dropDeclaration (blanks ++ ("<?xml" ++ (inner ++ '>' :: after))) = after := by
  have hopening : ("<?xml" : Text) = '<' :: ("?xml" : Text) := by simp [Text.ofString]
  have hblank : Text.dropBlank (blanks ++ ("<?xml" ++ (inner ++ '>' :: after)))
      = "<?xml" ++ (inner ++ '>' :: after) := by
    rw [Text.dropBlank_append hblanks, hopening, List.cons_append]
    exact List.dropWhile_cons_of_neg (by decide)
  have hstops : Stops (· ≠ '>') ('>' :: after) := by
    rintro _ ⟨⟩
    decide
  have hinner' : ∀ c ∈ inner, decide (c ≠ '>') = true := fun c hc => decide_eq_true (hinner c hc)
  rw [dropDeclaration, hblank, Text.dropLiteral?_eq_some_iff.mpr rfl]
  dsimp only
  rw [dropWhile_append_stops hinner' hstops, takeWhile_append_stops hinner' hstops]
  exact if_pos hlast

theorem dropDeclaration_cases {s source : Text} (h : dropDeclaration s = source)
    : s = source ∨ ∃ t, s = t ++ source ∧ ∀ after, dropDeclaration (t ++ after) = after := by
  unfold dropDeclaration at h
  split at h
  · exact .inl h
  · next rest hdrop =>
      split at h
      · next x after hbehind =>
          split at h
          · next hlast =>
              subst h
              have hx : x = '>' := by
                have hstop := stops_dropWhile (p := (· ≠ '>')) (s := rest) x (by rw [hbehind]; rfl)
                simpa using hstop
              obtain ⟨blanks, hs, hblanks⟩ : ∃ blanks, s = blanks ++ Text.dropBlank s ∧ Text.allBlank blanks :=
                ⟨_, List.takeWhile_append_dropWhile.symm,
                  List.all_eq_true.mpr fun c hc => List.mem_takeWhile_imp hc⟩
              have hsplit := List.takeWhile_append_dropWhile (p := (· ≠ '>')) (l := rest)
              rw [hbehind, hx] at hsplit
              obtain ⟨inner, hrest, hinner, hlast⟩ : ∃ inner, inner ++ '>' :: after = rest
                  ∧ (∀ c ∈ inner, c ≠ '>') ∧ inner.getLast? = some '?' :=
                ⟨_, hsplit, fun c hc => by simpa using List.mem_takeWhile_imp hc, hlast⟩
              rw [Text.dropLiteral?_eq_some_iff.mp hdrop, ← hrest] at hs
              refine .inr ⟨blanks ++ ("<?xml" ++ (inner ++ ['>'])), by rw [hs]; simp, fun after => ?_⟩
              simpa using dropDeclaration_append hblanks hinner hlast after
          · exact .inl h
      · exact .inl h

section Declaration

variable {prolog body : Text} {c : Char} (hclosed : IsClosed prolog) (hc : isNameStart c)
include hclosed

/-- What is opened in front of the root is closed there. -/
theorem mem_of_dropLiteral?_xml {rest : Text} (h : Text.dropLiteral? "<?xml" prolog = some rest)
    : '>' ∈ rest := by
  have hmem := hclosed [] ("?xml" ++ rest) (by
    rw [Text.dropLiteral?_eq_some_iff.mp h]
    simp [Text.ofString])
  rw [List.mem_append] at hmem
  exact hmem.resolve_left (by with_unfolding_all decide)

include hc

/-- No encoding is declared by a prolog behind which no other quotes stand. -/
theorem declaresEncoding_of_subset {left : Text} (hsub : left ⊆ body)
    (h : declaresEncoding (prolog ++ '<' :: c :: body) = false)
    : declaresEncoding (prolog ++ '<' :: c :: left) = false := by
  rw [← Bool.not_eq_true] at h ⊢
  refine mt (fun hdeclares => ?_) h
  unfold declaresEncoding at hdeclares ⊢
  rw [dropLiteral?_xml_append hc] at hdeclares ⊢
  cases hdrop : Text.dropLiteral? "<?xml" prolog with
  | none =>
      rw [hdrop] at hdeclares
      cases hdeclares
  | some rest =>
      have hmem := mem_of_dropLiteral?_xml hclosed hdrop
      cases rest with
      | nil => cases hmem
      | cons x rest =>
          rw [hdrop, Option.map_some, List.cons_append] at hdeclares
          rw [Option.map_some, List.cons_append]
          simp only [Bool.and_eq_true, decide_eq_true_eq] at hdeclares ⊢
          refine hdeclares.imp_right fun hgives => ?_
          obtain ⟨front, behind, rfl⟩ :=
            List.append_of_mem ((List.mem_cons.mp hmem).resolve_left (Ne.symm hdeclares.1))
          rw [List.append_assoc, List.cons_append] at hgives ⊢
          refine givesEncodingInTag_of_subset (fun y hy => ?_) hgives
          simp only [List.mem_append, List.mem_cons] at hy ⊢
          exact hy.imp_right (.imp_right (.imp_right (hsub ·)))

theorem dropDeclaration_prolog (more : Text)
    : dropDeclaration (prolog ++ '<' :: c :: more)
      = match Text.dropLiteral? "<?xml" (Text.dropBlank prolog) with
        | none => prolog ++ '<' :: c :: more
        | some rest =>
          if (rest.takeWhile (· ≠ '>')).getLast? = some '?' then
            (rest.dropWhile (· ≠ '>')).tail ++ '<' :: c :: more
          else prolog ++ '<' :: c :: more := by
  have hblank : Text.dropBlank (prolog ++ '<' :: c :: more)
      = Text.dropBlank prolog ++ '<' :: c :: more :=
    dropWhile_append_stop prolog (by decide) _
  rw [dropDeclaration, hblank, dropLiteral?_xml_append hc]
  cases hdrop : Text.dropLiteral? "<?xml" (Text.dropBlank prolog) with
  | none => rfl
  | some rest =>
      have hmem := mem_of_dropLiteral?_xml (hclosed.suffix (List.dropWhile_suffix _)) hdrop
      obtain ⟨inner, after, rfl, hinner⟩ := List.eq_append_cons_of_mem hmem
      have hinner' : ∀ c ∈ inner, decide (c ≠ '>') = true := by
        rintro x hx
        exact decide_eq_true (by rintro rfl; exact hinner hx)
      have hstops (after : Text) : Stops (· ≠ '>') ('>' :: after) := by
        rintro _ ⟨⟩
        decide
      simp only [Option.map_some, List.append_assoc, List.cons_append,
        dropWhile_append_stops hinner' (hstops _), takeWhile_append_stops hinner' (hstops _),
        List.tail_cons]

/-- The text in front of the root is read in front of any root. -/
theorem exists_text_of_dropDeclaration {s : Text} (h : dropDeclaration s = prolog ++ '<' :: c :: body)
    : ∃ t, s = t ++ (prolog ++ '<' :: c :: body)
      ∧ ∀ more, dropDeclaration (t ++ (prolog ++ '<' :: c :: more)) = prolog ++ '<' :: c :: more := by
  rcases dropDeclaration_cases h with rfl | ⟨t, hs, hdrop⟩
  · refine ⟨[], rfl, fun more => ?_⟩
    rw [dropDeclaration_prolog hclosed hc] at h
    rw [List.nil_append, dropDeclaration_prolog hclosed hc]
    split at h
    · rfl
    · next rest hrest =>
        split at h
        · -- the text would be shorter than it is
          have hlength := congrArg List.length h
          have hleft := ((List.tail_sublist _).trans
            (List.dropWhile_sublist (· ≠ '>') (l := rest))).length_le
          have hblank := (List.dropWhile_suffix Text.isBlank (l := prolog)).length_le
          have hopening : 0 < ("<?xml" : Text).length := by simp [Text.ofString]
          rw [← Text.dropBlank, Text.dropLiteral?_eq_some_iff.mp hrest] at hblank
          simp only [List.length_append] at hlength hblank
          omega
        · next hlast => exact if_neg hlast
  · exact ⟨t, hs, fun more => hdrop _⟩

end Declaration

-----------------------------------------------------------------------------------------
-- Documents
-----------------------------------------------------------------------------------------

theorem exists_readDocument_iff {s : Text}
    : (∃ document, readDocument s = .ok document) ↔ (readDocument s).toOption.isSome := by
  cases readDocument s with
  | error => simp [Except.toOption]
  | ok => simp [Except.toOption]

/-- What is left of the text of a document is the text of one, if the same elements are open behind it
and no other characters are in it.
-/
theorem exists_readDocument_of_same {s : Text} {document : Document} (h : readDocument s = .ok document)
    : ∃ d front c body q, s = front ++ '<' :: c :: body ∧ isNameStart c
      ∧ readProlog? (dropDeclaration s) = some (d, '<' :: c :: body)
      ∧ Progress.absorb? d {} ('<' :: c :: body) = some q
      ∧ ∀ left q', left ⊆ body → Progress.absorb? d {} ('<' :: c :: left) = some q' → q.Same q' →
        ∃ document', readDocument (front ++ '<' :: c :: left) = .ok document' := by
  obtain ⟨hencoding, htext, hbase⟩ := readDocument_eq_ok.mp h
  obtain ⟨d, prolog, c, body, q, hsource, hc, hclosed, hprolog, hq, hleft⟩ :=
    exists_ofText?_of_same htext
  rw [hsource] at hencoding
  obtain ⟨t, hs, hdrop⟩ := exists_text_of_dropDeclaration hclosed hc hsource
  refine ⟨d, t ++ prolog, c, body, q, by rw [hs, List.append_assoc], hc, hprolog, hq,
    fun left q' hsub hq' hsame => ?_⟩
  obtain ⟨document', hdocument', hbase'⟩ := hleft left q' hq' hsame
  refine ⟨document', readDocument_eq_ok.mpr ?_⟩
  rw [List.append_assoc, hdrop]
  exact ⟨declaresEncoding_of_subset hclosed hc hsub hencoding, hdocument', hbase'.trans hbase⟩

end SvgKit.Minify
