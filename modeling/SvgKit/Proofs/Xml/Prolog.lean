import Mathlib.Data.Bool.AllAny
import SvgKit.Proofs.Xml.Deletion

/-! What stands in front of the root: it is read up to the root, whatever that is, and tells nothing
of it. Every tag that is opened there is closed there.
-/

namespace SvgKit

/-- A literal without a character is looked for up to this character only. -/
theorem Text.dropLiteral?_append_cons {literal : Text} {c : Char} (hc : c ∉ literal) (s rest : Text)
    : dropLiteral? literal (s ++ c :: rest) = (dropLiteral? literal s).map (· ++ c :: rest) := by
  induction literal generalizing s with
  | nil => rfl
  | cons x literal ih =>
      rw [List.mem_cons, not_or] at hc
      cases s with
      | nil => simp [dropLiteral?, Ne.symm hc.1]
      | cons y s =>
          rw [List.cons_append, dropLiteral?, dropLiteral?]
          split
          · exact ih hc.2 s
          · rfl

namespace Xml

-----------------------------------------------------------------------------------------
-- Closed texts
-----------------------------------------------------------------------------------------

/-- Behind every `<` there is a `>`. -/
def IsClosed (t : Text) : Prop := ∀ front back, t = front ++ '<' :: back → '>' ∈ back

section Closed

variable {s t : Text}

theorem IsClosed.append (hs : IsClosed s) (ht : IsClosed t) : IsClosed (s ++ t) := by
  intro front back heq
  obtain ⟨more, hfront, ht'⟩ | ⟨more, hs', hback⟩ := List.append_eq_append_iff.mp heq
  · exact ht more back ht'
  · cases more with
    | nil => exact ht [] back hback.symm
    | cons c more =>
        obtain ⟨rfl, rfl⟩ := List.cons.inj hback
        exact List.mem_append_left _ (hs front more hs')

theorem IsClosed.suffix (ht : IsClosed t) (hsuffix : s <:+ t) : IsClosed s := by
  rintro front back rfl
  obtain ⟨more, rfl⟩ := hsuffix
  exact ht (more ++ front) back (by simp)

theorem isClosed_of_not_mem (h : '<' ∉ s) : IsClosed s := by
  rintro front back rfl
  exact absurd (by simp) h

theorem isClosed_append_gt (s : Text) : IsClosed (s ++ ['>']) := by
  intro front back heq
  cases back using List.reverseRecOn with
  | nil =>
      obtain ⟨-, hlast⟩ := List.append_inj' heq rfl
      cases hlast
  | append_singleton back c =>
      rw [← List.cons_append, ← List.append_assoc] at heq
      obtain ⟨-, hlast⟩ := List.append_inj' heq rfl
      cases hlast
      simp

theorem isClosed_of_isSpace (h : ∀ c ∈ s, isSpace c) : IsClosed s :=
  isClosed_of_not_mem fun hmem => by cases h '<' hmem

end Closed

-----------------------------------------------------------------------------------------
-- Comments and instructions
-----------------------------------------------------------------------------------------

section Misc

variable {s rest : Text}

theorem exists_text_of_afterComment? (h : afterComment? s = some rest)
    : ∃ t, s = t ++ '>' :: rest ∧ ∀ more, afterComment? (t ++ '>' :: more) = some more := by
  unfold afterComment? at h
  split at h
  · next content left hsplit =>
      split at h
      · next hcontent =>
          cases h
          refine ⟨content ++ "--", Text.eq_of_splitAtLiteral? hsplit, fun more => ?_⟩
          rw [afterComment?, Text.splitAtLiteral?_append hsplit]
          exact if_pos hcontent
      · cases h
  · cases h

theorem exists_text_of_afterInstruction? (h : afterInstruction? s = some rest)
    : ∃ t, s = t ++ '>' :: rest ∧ ∀ more, afterInstruction? (t ++ '>' :: more) = some more := by
  unfold afterInstruction? at h
  split at h
  · cases h
  · next target behind htarget =>
      split at h
      · cases h
      · next hreserved =>
          split at h
          · cases h
          · next content left hsplit =>
              split at h
              · next hcontent =>
                  cases h
                  have hs := eq_of_readFullName? htarget
                  rw [Text.eq_of_splitAtLiteral? hsplit] at hs
                  refine ⟨target ++ (content ++ ['?']), by rw [hs]; simp [Text.ofString],
                    fun more => ?_⟩
                  have hmore : target ++ (content ++ ['?']) ++ '>' :: more
                      = target ++ (content ++ "?>" ++ more) := by simp [Text.ofString]
                  have hdelimiter : ∃ c t, c ∈ delimiters ∧ content ++ "?>" ++ more = c :: t := by
                    cases content with
                    | nil => exact ⟨'?', '>' :: more, by decide, by simp [Text.ofString]⟩
                    | cons c content =>
                        rw [isInstructionContent, Bool.and_eq_true] at hcontent
                        exact ⟨c, _, isSpace_mem_delimiters hcontent.1, rfl⟩
                  obtain ⟨c, t, hc, ht⟩ := hdelimiter
                  rw [hmore, afterInstruction?, ht,
                    readFullName?_append (isFullName_of_readFullName? htarget) hc, ← ht]
                  dsimp only
                  rw [if_neg hreserved, Text.splitAtLiteral?_append hsplit]
                  exact if_pos hcontent
              · cases h

theorem dropMisc?_space {c : Char} (hc : isSpace c) (s : Text) : dropMisc? (c :: s) = dropMisc? s := by
  have hne : c ≠ '<' := by
    rintro rfl
    cases hc
  rw [dropMisc?]
  · exact if_pos hc
  all_goals simp [hne]

theorem dropMisc?_instruction (s : Text)
    : dropMisc? ('<' :: '?' :: s) = (afterInstruction? s).bind dropMisc? := by
  rw [dropMisc?]
  split <;> simp [*]

theorem dropMisc?_comment (s : Text)
    : dropMisc? ('<' :: '!' :: '-' :: '-' :: s) = (afterComment? s).bind dropMisc? := by
  rw [dropMisc?]
  split <;> simp [*]

/-- White space, comments and instructions are dropped in front of any text. -/
theorem exists_text_of_dropMisc? (h : dropMisc? s = some rest)
    : ∃ t, s = t ++ rest ∧ IsClosed t ∧ ∀ more, dropMisc? (t ++ more) = dropMisc? more := by
  have hnone : ∃ t, rest = t ++ rest ∧ IsClosed t ∧ ∀ more, dropMisc? (t ++ more) = dropMisc? more :=
    ⟨[], rfl, isClosed_of_not_mem (by simp), fun _ => rfl⟩
  fun_induction dropMisc? s with
  | case1 s left hleft ih =>
      obtain ⟨t, rfl, hclosed, hdrop⟩ := ih h
      obtain ⟨t', rfl, hread⟩ := exists_text_of_afterInstruction? hleft
      refine ⟨'<' :: '?' :: t' ++ ['>'] ++ t, by simp, (isClosed_append_gt _).append hclosed,
        fun more => ?_⟩
      have htext : '<' :: '?' :: t' ++ ['>'] ++ t ++ more = '<' :: '?' :: (t' ++ '>' :: (t ++ more)) := by
        simp
      rw [htext, dropMisc?_instruction, hread]
      exact hdrop more
  | case3 s left hleft ih =>
      obtain ⟨t, rfl, hclosed, hdrop⟩ := ih h
      obtain ⟨t', rfl, hread⟩ := exists_text_of_afterComment? hleft
      refine ⟨'<' :: '!' :: '-' :: '-' :: t' ++ ['>'] ++ t, by simp,
        (isClosed_append_gt _).append hclosed, fun more => ?_⟩
      have htext : '<' :: '!' :: '-' :: '-' :: t' ++ ['>'] ++ t ++ more
          = '<' :: '!' :: '-' :: '-' :: (t' ++ '>' :: (t ++ more)) := by
        simp
      rw [htext, dropMisc?_comment, hread]
      exact hdrop more
  | case5 c s _ _ hc ih =>
      obtain ⟨t, rfl, hclosed, hdrop⟩ := ih h
      have hspace : IsClosed [c] := isClosed_of_isSpace (List.forall_mem_singleton.mpr hc)
      exact ⟨c :: t, rfl, hspace.append hclosed, fun more =>
        (dropMisc?_space hc _).trans (hdrop more)⟩
  | case6 c s _ _ _ =>
      cases h
      exact hnone
  | case7 =>
      cases h
      exact hnone
  | case2 | case4 => cases h

end Misc

-----------------------------------------------------------------------------------------
-- The document type declaration
-----------------------------------------------------------------------------------------

section Doctype

variable {s rest : Text}

/-- One character of a declaration goes into a word or fails, or it ends the words. -/
theorem readWords?_cons (words : List Word) (state : WordState) (c : Char)
    : (∃ words' state', ∀ s, readWords? words state (c :: s) = readWords? words' state' s)
      ∨ (∀ s, readWords? words state (c :: s) = none)
      ∨ (c = '>' ∨ c = '[') ∧ ∃ found, ∀ s, readWords? words state (c :: s) = some (found, c :: s) := by
  have hstep (words' : List Word) (state' : WordState)
      : (∃ words state, ∀ s, readWords? words' state' s = readWords? words state s)
        ∨ (∀ s, readWords? words' state' s = none)
        ∨ (c = '>' ∨ c = '[') ∧ ∃ found, ∀ s, readWords? words' state' s = some (found, c :: s) :=
    .inl ⟨words', state', fun _ => rfl⟩
  cases state with
  | between | plain =>
      simp only [readWords?]
      split_ifs with hend
      · exact .inr (.inr ⟨by simpa using hend, _, fun _ => rfl⟩)
      · exact hstep _ _
      · exact hstep _ _
      · exact hstep _ _
      · exact .inr (.inl fun _ => rfl)
      · exact hstep _ _
  | quoted =>
      simp only [readWords?]
      split_ifs
      · exact hstep _ _
      · exact hstep _ _
      · exact .inr (.inl fun _ => rfl)
  | group =>
      simp only [readWords?]
      split_ifs
      · exact hstep _ _
      · exact hstep _ _
      · exact hstep _ _
      · exact .inr (.inl fun _ => rfl)
      · exact hstep _ _

/-- Words are read up to their end, whatever stands behind it, by induction over the text. -/
theorem exists_text_of_readWords? {words found : List Word} {state : WordState}
    (h : readWords? words state s = some (found, rest))
    : ∃ t c left, rest = c :: left ∧ (c = '>' ∨ c = '[') ∧ s = t ++ c :: left
      ∧ ∀ more, readWords? words state (t ++ c :: more) = some (found, c :: more) := by
  induction s generalizing words state with
  | nil => cases h
  | cons c s ih =>
      rcases readWords?_cons words state c with ⟨words', state', hstep⟩ | hfail | ⟨hc, found', hend⟩
      · obtain ⟨t, d, left, hrest, hd, rfl, hread⟩ := ih ((hstep s).symm.trans h)
        exact ⟨c :: t, d, left, hrest, hd, rfl, fun more => (hstep _).trans (hread more)⟩
      · cases (hfail s).symm.trans h
      · cases (hend s).symm.trans h
        exact ⟨[], c, s, rfl, hc, rfl, hend⟩

theorem exists_text_of_readDeclaration? {d d' : Doctype} (h : readDeclaration? d s = some (d', rest))
    : ∃ t, s = t ++ '>' :: rest ∧ ∀ more, readDeclaration? d (t ++ '>' :: more) = some (d', more) := by
  unfold readDeclaration? at h
  split at h
  · next words left hwords =>
      obtain ⟨next, hnext, heq⟩ := Option.map_eq_some_iff.mp h
      cases heq
      obtain ⟨t, c, left, hrest, -, rfl, hread⟩ := exists_text_of_readWords? hwords
      cases hrest
      refine ⟨t, rfl, fun more => ?_⟩
      rw [readDeclaration?, hread]
      exact Option.map_eq_some_iff.mpr ⟨_, hnext, rfl⟩
  · cases h

theorem readSubset?_space {c : Char} (hc : isSpace c) (d : Doctype) (s : Text)
    : readSubset? d (c :: s) = readSubset? d s := by
  have hne {x : Char} (hx : isSpace x = false) : c ≠ x := by
    rintro rfl
    rw [hx] at hc
    cases hc
  have hbracket : c ≠ ']' := hne (by decide)
  have hpercent : c ≠ '%' := hne (by decide)
  have hlt : c ≠ '<' := hne (by decide)
  rw [readSubset?]
  · exact if_pos hc
  all_goals simp [hbracket, hpercent, hlt]

theorem readSubset?_instruction (d : Doctype) (s : Text)
    : readSubset? d ('<' :: '?' :: s) = (afterInstruction? s).bind (readSubset? d) := by
  rw [readSubset?]
  split <;> simp [*]

theorem readSubset?_comment (d : Doctype) (s : Text)
    : readSubset? d ('<' :: '!' :: '-' :: '-' :: s) = (afterComment? s).bind (readSubset? d) := by
  rw [readSubset?]
  split <;> simp [*]

theorem readSubset?_declaration (d : Doctype) {s : Text} (hs : ∀ t, s ≠ '-' :: '-' :: t)
    : readSubset? d ('<' :: '!' :: s)
      = (readDeclaration? d s).bind fun (d, rest) => readSubset? d rest := by
  rw [readSubset?]
  · split <;> simp [*]
  · exact hs

theorem readSubset?_parameter (d : Doctype) {name : Text} (hname : IsName name) (s : Text)
    : readSubset? d ('%' :: (name ++ ';' :: s)) = readSubset? { d with incomplete := true } s := by
  have hread := readName?_append hname (isNameChar_of_mem_delimiters (c := ';') (by decide)) (s := s)
  rw [readSubset?]
  split
  · next heq =>
      rw [hread] at heq
      cases heq
      rfl
  · next hnone => exact absurd hread (hnone name s)

/-- Declarations are read up to their end, whatever stands behind it. -/
theorem exists_text_of_readSubset? {d d' : Doctype} (h : readSubset? d s = some (d', rest))
    : ∃ t, s = t ++ rest ∧ ∀ more, readSubset? d (t ++ more) = some (d', more) := by
  fun_induction readSubset? d s with
  | case1 d left =>
      cases h
      exact ⟨[']'], rfl, fun more => by rw [List.singleton_append, readSubset?]⟩
  | case2 d s name left hname ih =>
      obtain ⟨t, rfl, hread⟩ := ih h
      refine ⟨'%' :: (name ++ ';' :: t), by rw [(eq_of_readName? hname).1]; simp, fun more => ?_⟩
      rw [← hread more, ← readSubset?_parameter d (isName_of_readName? hname)]
      simp
  | case4 d s left hleft ih =>
      obtain ⟨t, rfl, hread⟩ := ih h
      obtain ⟨t', rfl, hread'⟩ := exists_text_of_afterInstruction? hleft
      refine ⟨'<' :: '?' :: (t' ++ '>' :: t), by simp, fun more => ?_⟩
      have htext : '<' :: '?' :: (t' ++ '>' :: t) ++ more = '<' :: '?' :: (t' ++ '>' :: (t ++ more)) := by
        simp
      rw [htext, readSubset?_instruction, hread']
      exact hread more
  | case6 d s left hleft ih =>
      obtain ⟨t, rfl, hread⟩ := ih h
      obtain ⟨t', rfl, hread'⟩ := exists_text_of_afterComment? hleft
      refine ⟨'<' :: '!' :: '-' :: '-' :: (t' ++ '>' :: t), by simp, fun more => ?_⟩
      have htext : '<' :: '!' :: '-' :: '-' :: (t' ++ '>' :: t) ++ more
          = '<' :: '!' :: '-' :: '-' :: (t' ++ '>' :: (t ++ more)) := by
        simp
      rw [htext, readSubset?_comment, hread']
      exact hread more
  | case8 d s hcomment next left hnext ih =>
      obtain ⟨t, rfl, hread⟩ := ih h
      obtain ⟨t', rfl, hread'⟩ := exists_text_of_readDeclaration? hnext
      refine ⟨'<' :: '!' :: (t' ++ '>' :: t), by simp, fun more => ?_⟩
      have htext : '<' :: '!' :: (t' ++ '>' :: t) ++ more = '<' :: '!' :: (t' ++ '>' :: (t ++ more)) := by
        simp
      -- what is no comment does not become one
      have hnone (u : Text) : t' ++ '>' :: (t ++ more) ≠ '-' :: '-' :: u := by
        intro heq
        cases t' with
        | nil => cases heq
        | cons c t' =>
            obtain ⟨rfl, hbehind⟩ := List.cons.inj heq
            cases t' with
            | nil => cases hbehind
            | cons c t' =>
                obtain ⟨rfl, -⟩ := List.cons.inj hbehind
                exact hcomment _ rfl
      rw [htext, readSubset?_declaration d hnone, hread']
      exact hread more
  | case10 d c s _ _ _ _ _ hc ih =>
      obtain ⟨t, rfl, hread⟩ := ih h
      exact ⟨c :: t, rfl, fun more => (readSubset?_space hc d _).trans (hread more)⟩
  | case3 | case5 | case7 | case9 | case11 | case12 => cases h

/-- What is declared behind the words of a document type declaration, and the rest. -/
def readDeclared? (name : Text) (words : List Word) (s : Text) : Option (Doctype × Text) :=
  let external := if words.isEmpty then some false else (dropExternal? words).bind fun left =>
    if left.isEmpty then some true else none
  match readFullName? name, external, s with
  | some (_, []), some incomplete, '>' :: rest => some ({ incomplete }, rest)
  | some (_, []), some incomplete, '[' :: rest =>
    match readSubset? { incomplete } rest with
    | some (d, rest) =>
      match dropSpace rest with
      | '>' :: rest => some (d, rest)
      | _ => none
    | none => none
  | _, _, _ => none

theorem readDoctype?_of_words {c : Char} (hc : isSpace c) {name : Text} {words : List Word}
    (h : readWords? [] .between (c :: s) = some (.plain name :: words, rest))
    : readDoctype? (c :: s) = readDeclared? name words rest := by
  rw [readDoctype?, if_neg (by simp [hc]), h]
  rfl

theorem exists_text_of_readDeclared? {name : Text} {words : List Word} {d : Doctype}
    (h : readDeclared? name words s = some (d, rest))
    : ∃ t, s = t ++ '>' :: rest
      ∧ ∀ more, readDeclared? name words (t ++ '>' :: more) = some (d, more) := by
  unfold readDeclared? at h
  dsimp only at h
  split at h
  · next hname hexternal =>
      cases h
      exact ⟨[], rfl, fun more => by simp only [readDeclared?, hname, hexternal, List.nil_append]⟩
  · next hname hexternal =>
      split at h
      · next d left hsubset =>
          split at h
          · next hspace =>
              cases h
              obtain ⟨t, rfl, hread⟩ := exists_text_of_readSubset? hsubset
              have hsplit := List.takeWhile_append_dropWhile (p := isSpace) (l := left)
              have hdrop (more : Text)
                  : dropSpace (left.takeWhile isSpace ++ '>' :: more) = '>' :: more := by
                rw [dropSpace_append fun c hc => List.mem_takeWhile_imp hc, dropSpace_cons (by decide)]
              rw [dropSpace] at hspace
              rw [hspace] at hsplit
              refine ⟨'[' :: (t ++ left.takeWhile isSpace), by simp [hsplit], fun more => ?_⟩
              have htext : '[' :: (t ++ left.takeWhile isSpace) ++ '>' :: more
                  = '[' :: (t ++ (left.takeWhile isSpace ++ '>' :: more)) := by
                simp
              rw [htext]
              simp only [readDeclared?, hname, hexternal, hread, hdrop]
          · cases h
      · cases h
  · cases h

/-- A document type declaration is read up to its end, whatever stands behind it. -/
theorem exists_text_of_readDoctype? {d : Doctype} (h : readDoctype? s = some (d, rest))
    : ∃ t, s = t ++ '>' :: rest ∧ ∀ more, readDoctype? (t ++ '>' :: more) = some (d, more) := by
  cases s with
  | nil => cases h
  | cons c s =>
      have hc : isSpace c := by
        by_contra hc
        rw [readDoctype?, if_pos (by simpa using hc)] at h
        cases h
      cases hwords : readWords? [] .between (c :: s) with
      | none =>
          rw [readDoctype?, if_neg (by simp [hc]), hwords] at h
          cases h
      | some found =>
          obtain ⟨found, left⟩ := found
          rcases found with _ | ⟨⟨name⟩ | _ | _, words⟩
          case cons.plain =>
            rw [readDoctype?_of_words hc hwords] at h
            obtain ⟨front, x, behind, rfl, hx, hs, hread⟩ := exists_text_of_readWords? hwords
            obtain ⟨t, ht, hread'⟩ := exists_text_of_readDeclared? h
            refine ⟨front ++ t, by rw [hs, ht, List.append_assoc], fun more => ?_⟩
            obtain ⟨u, hu⟩ : ∃ u, t ++ '>' :: more = x :: u := by
              cases t with
              | nil => exact ⟨more, by rw [(List.cons.inj ht).1]; rfl⟩
              | cons y t => exact ⟨t ++ '>' :: more, by rw [(List.cons.inj ht).1]; rfl⟩
            have hwords' := hread u
            rw [← hu, ← List.append_assoc] at hwords'
            cases front with
            | nil =>
                rw [(List.cons.inj hs).1] at hc
                rcases hx with rfl | rfl <;> cases hc
            | cons y front =>
                obtain ⟨rfl, -⟩ := List.cons.inj hs
                exact (readDoctype?_of_words hc hwords').trans (hread' more)
          all_goals
            rw [readDoctype?, if_neg (by simp [hc]), hwords] at h
            cases h

end Doctype

-----------------------------------------------------------------------------------------
-- The declaration of XML
-----------------------------------------------------------------------------------------

section XmlDeclaration

variable {s rest : Text}

section Part

variable {key : Text} (hkey : ∀ c ∈ key.head?, isSpace c = false) (hne : key ≠ [])
include hkey hne

theorem readPart?_append {c : Char} (hc : isSpace c) {space before behind : Text}
    (hspace : ∀ c ∈ space, isSpace c) (hbefore : ∀ c ∈ before, isSpace c)
    (hbehind : ∀ c ∈ behind, isSpace c) {quote : Char} (hquote : quote = '"' ∨ quote = '\'')
    {value : Text} (hclosed : quote ∉ value) (rest : Text)
    : readPart? key (c :: (space ++ (key ++ (before ++ '=' :: (behind
        ++ quote :: (value ++ quote :: rest))))))
      = some (some value, rest) := by
  obtain ⟨k, ks, rfl⟩ := List.exists_cons_of_ne_nil hne
  have hdrop (s : Text) : dropSpace (c :: (space ++ (k :: ks ++ s))) = k :: ks ++ s := by
    rw [← List.cons_append, dropSpace_append (List.forall_mem_cons.mpr ⟨hc, hspace⟩), List.cons_append,
      dropSpace_cons (hkey k rfl)]
  have hequals (s : Text) : dropSpace (before ++ '=' :: s) = '=' :: s := by
    rw [dropSpace_append hbefore, dropSpace_cons (by decide)]
  have hvalue : dropSpace (behind ++ quote :: (value ++ quote :: rest))
      = quote :: (value ++ quote :: rest) := by
    rw [dropSpace_append hbehind, dropSpace_cons (isSpace_eq_false_of_quote hquote)]
  have hread := readQuoted?_cons hquote hclosed rest
  rw [readPart?, hdrop, Text.dropLiteral?_eq_some_iff.mpr rfl]
  simp only [hequals, if_pos hc, hvalue, hread, Option.map_some]

/-- A part of the declaration of XML is read, or is missing, in front of a question mark whatever
stands behind that.
-/
theorem exists_text_of_readPart? {u : Text} {v : Option Text} (hquestion : '?' ∉ key) (hu : '?' ∈ u)
    (h : readPart? key s = some (v, u ++ rest))
    : ∃ t, s = t ++ (u ++ rest) ∧ ∀ more, readPart? key (t ++ (u ++ more)) = some (v, u ++ more) := by
  unfold readPart? at h
  split at h
  · next hnone =>
      cases h
      refine ⟨[], rfl, fun more => ?_⟩
      obtain ⟨a, b, rfl⟩ := List.append_of_mem hu
      have hdrop (more : Text) : Text.dropLiteral? key (dropSpace (a ++ '?' :: b ++ more))
          = (Text.dropLiteral? key (dropSpace a)).map (· ++ '?' :: (b ++ more)) := by
        rw [List.append_assoc, List.cons_append, dropSpace, dropWhile_append_stop a (by decide),
          Text.dropLiteral?_append_cons hquestion]
        rfl
      rw [hdrop, Option.map_eq_none_iff] at hnone
      rw [List.nil_append, readPart?, hdrop, hnone]
      rfl
  · next behind hbehind =>
      split at h
      · next c s left hequals =>
          split at h
          · next hspace =>
              obtain ⟨⟨value, behindValue⟩, hquoted, heq⟩ := Option.map_eq_some_iff.mp h
              cases heq
              obtain ⟨quote, hquote, hclosed, hvalue⟩ := eq_of_readQuoted? hquoted
              obtain ⟨space, hs, hfirst⟩ := exists_space s
              obtain ⟨before, hbefore, hbeforeSpace⟩ := exists_space behind
              obtain ⟨after, hafter, hafterSpace⟩ := exists_space left
              have hdrop : dropSpace s = key ++ behind := by
                rw [dropSpace, List.dropWhile_cons_of_pos hspace] at hbehind
                exact Text.dropLiteral?_eq_some_iff.mp hbehind
              rw [hvalue] at hafter
              rw [hequals, hafter] at hbefore
              rw [hdrop, hbefore] at hs
              refine ⟨c :: (space ++ (key ++ (before ++ '=' :: (after ++ quote :: (value ++ [quote]))))),
                by rw [hs]; simp, fun more => ?_⟩
              have hread := readPart?_append hkey hne hspace hfirst hbeforeSpace hafterSpace hquote hclosed
                (u ++ more)
              simpa using hread
          · cases h
      · cases h

end Part

/-- Whether a document stands alone, by what its declaration says. -/
def isAlone? : Option Text → Option Bool
  | none => some false
  | some answer =>
    if answer = ("yes" : Text) then some true
    else if answer = ("no" : Text) then some false
    else none

theorem readXmlDeclaration?_eq_some_iff {alone : Bool}
    : readXmlDeclaration? s = some (alone, rest)
      ↔ ∃ version s₁ encoding s₂ standalone s₃, readPart? "version" s = some (some version, s₁)
        ∧ isVersion version ∧ readPart? "encoding" s₁ = some (encoding, s₂)
        ∧ readPart? "standalone" s₂ = some (standalone, s₃) ∧ isAlone? standalone = some alone
        ∧ dropSpace s₃ = '?' :: '>' :: rest := by
  unfold readXmlDeclaration?
  simp only [Option.bind_eq_bind, Option.bind_eq_some_iff]
  constructor
  · rintro ⟨⟨version, s₁⟩, hversion, v, rfl, _, hguard, ⟨encoding, s₂⟩, hencoding, ⟨standalone, s₃⟩,
      hstandalone, h⟩
    refine ⟨v, s₁, encoding, s₂, standalone, s₃, hversion, by simpa [guard] using hguard, hencoding,
      hstandalone, ?_⟩
    cases standalone with
    | none =>
        dsimp only at h
        split at h
        · next hend =>
            cases h
            exact ⟨rfl, hend⟩
        · cases h
    | some answer =>
        rw [isAlone?]
        dsimp only at h
        split_ifs at h ⊢
        · split at h
          · next hend =>
              cases h
              exact ⟨rfl, hend⟩
          · cases h
        · split at h
          · next hend =>
              cases h
              exact ⟨rfl, hend⟩
          · cases h
        · cases h
  · rintro ⟨v, s₁, encoding, s₂, standalone, s₃, hversion, hguard, hencoding, hstandalone, halone, hend⟩
    refine ⟨_, hversion, v, rfl, (), by simp [guard, hguard], _, hencoding, _, hstandalone, ?_⟩
    cases standalone with
    | none =>
        cases halone
        dsimp only
        rw [hend]
        rfl
    | some answer =>
        rw [isAlone?] at halone
        dsimp only
        split_ifs at halone ⊢
        · cases halone
          rw [hend]
          rfl
        · cases halone
          rw [hend]
          rfl

/-- The declaration of XML is read up to its end, whatever stands behind it. -/
theorem exists_text_of_readXmlDeclaration? {alone : Bool}
    (h : readXmlDeclaration? s = some (alone, rest))
    : ∃ t, s = t ++ '>' :: rest ∧ ∀ more, readXmlDeclaration? (t ++ '>' :: more) = some (alone, more) := by
  obtain ⟨version, s₁, encoding, s₂, standalone, s₃, hversion, hguard, hencoding, hstandalone, halone,
    hend⟩ := readXmlDeclaration?_eq_some_iff.mp h
  obtain ⟨space, hs₃, hspace⟩ := exists_space s₃
  rw [hend] at hs₃
  have hpart {key s u : Text} {v : Option Text}
      (hkey : ∀ c ∈ key, isSpace c = false ∧ c ≠ '?') (hne : key ≠ []) (hu : '?' ∈ u)
      (h : readPart? key s = some (v, u ++ rest)) :=
    exists_text_of_readPart? (fun c hc => (hkey c (List.mem_of_mem_head? hc)).1) hne
      (fun hquestion => (hkey '?' hquestion).2 rfl) hu h
  -- each part stands in front of the question mark that ends the declaration
  obtain ⟨t₂, hs₂, hread₂⟩ := hpart (List.all_iff_forall_prop.mp (by with_unfolding_all decide))
    (by with_unfolding_all decide) (by simp) (show readPart? "standalone" s₂ = some (standalone, space ++ ['?', '>'] ++ rest) by
      rw [hstandalone, hs₃]
      simp)
  obtain ⟨t₁, hs₁, hread₁⟩ := hpart (List.all_iff_forall_prop.mp (by with_unfolding_all decide))
    (by with_unfolding_all decide) (by simp) (show readPart? "encoding" s₁ = some (encoding, t₂ ++ (space ++ ['?', '>']) ++ rest) by
      rw [hencoding, hs₂]
      simp)
  obtain ⟨t₀, hs₀, hread₀⟩ := hpart (List.all_iff_forall_prop.mp (by with_unfolding_all decide))
    (by with_unfolding_all decide) (by simp) (show readPart? "version" s
        = some (some version, t₁ ++ (t₂ ++ (space ++ ['?', '>'])) ++ rest) by
      rw [hversion, hs₁]
      simp)
  refine ⟨t₀ ++ (t₁ ++ (t₂ ++ (space ++ ['?']))), by rw [hs₀]; simp, fun more => ?_⟩
  have htext : t₀ ++ (t₁ ++ (t₂ ++ (space ++ ['?']))) ++ '>' :: more
      = t₀ ++ (t₁ ++ (t₂ ++ (space ++ ['?', '>'])) ++ more) := by
    simp
  rw [htext]
  refine readXmlDeclaration?_eq_some_iff.mpr ⟨version, _, encoding, t₂ ++ (space ++ ['?', '>'] ++ more),
    standalone, space ++ ['?', '>'] ++ more, hread₀ more, hguard, ?_, hread₂ more, halone, ?_⟩
  · simpa using hread₁ more
  · rw [List.append_assoc, dropSpace_append hspace]
    exact dropSpace_cons (by decide) _

end XmlDeclaration

-----------------------------------------------------------------------------------------
-- The prolog
-----------------------------------------------------------------------------------------

/-- What is declared in front of the root, and what begins with the root. -/
def readProlog? (s : Text) : Option (Doctype × Text) :=
  (afterXmlDeclaration? (dropByteOrderMark s)).bind fun (alone, s) =>
    (dropMisc? s).bind fun s => (readDoctypeOrNone? s).bind fun (d, s) =>
      (dropMisc? s).map fun s => ({ d with incomplete := d.incomplete && !alone }, s)

/-- A document is read from its prolog, and from what begins with the root. -/
theorem ofText?_eq_readProlog? (s : Text)
    : Document.ofText? s
      = (readProlog? s).bind fun (d, s) => (tokens? s).bind (Document.ofTokens? d) := by
  simp only [ofText?_eq, readProlog?, Option.bind_assoc, Option.bind_map, Function.comp_def]

/-- A byte order mark is dropped in front of a tag whatever the tag is. -/
theorem exists_text_of_dropByteOrderMark {s front rest : Text}
    (h : dropByteOrderMark s = front ++ '<' :: rest)
    : ∃ t, s = t ++ (front ++ '<' :: rest) ∧ IsClosed t
      ∧ ∀ more, dropByteOrderMark (t ++ (front ++ '<' :: more)) = front ++ '<' :: more := by
  unfold dropByteOrderMark at h
  split at h
  · exact ⟨['\uFEFF'], by rw [h]; rfl, isClosed_of_not_mem (by decide), fun more => rfl⟩
  · next s hnone =>
      refine ⟨[], h, isClosed_of_not_mem (by simp), fun more => ?_⟩
      rw [List.nil_append]
      unfold dropByteOrderMark
      split
      · next behind heq =>
          cases front with
          | nil => cases heq
          | cons x front =>
              obtain ⟨rfl, -⟩ := List.cons.inj heq
              exact absurd h (hnone _)
      · rfl

section Prolog

variable {c : Char} (hc : isNameStart c)
include hc

theorem dropLiteral?_xml_append (front rest : Text)
    : Text.dropLiteral? "<?xml" (front ++ '<' :: c :: rest)
      = (Text.dropLiteral? "<?xml" front).map (· ++ '<' :: c :: rest) := by
  cases front with
  | nil =>
      rw [List.nil_append, dropLiteral?_xml_tag hc]
      simp [Text.dropLiteral?, Text.ofString]
  | cons x front =>
      have hliteral : ("<?xml" : Text) = '<' :: ("?xml" : Text) := by simp [Text.ofString]
      rw [hliteral, List.cons_append, Text.dropLiteral?, Text.dropLiteral?]
      split
      · exact Text.dropLiteral?_append_cons (by with_unfolding_all decide) front _
      · rfl

/-- The declaration of XML is read in front of a tag whatever the tag is. -/
theorem exists_text_of_afterXmlDeclaration? {s front body : Text} {alone : Bool}
    (h : afterXmlDeclaration? s = some (alone, front ++ '<' :: c :: body))
    : ∃ t, s = t ++ (front ++ '<' :: c :: body) ∧ IsClosed t
      ∧ ∀ more, afterXmlDeclaration? (t ++ (front ++ '<' :: c :: more))
        = some (alone, front ++ '<' :: c :: more) := by
  have hundeclared (hnot : ∀ x rest, Text.dropLiteral? "<?xml" s = some (x :: rest) → ¬ isSpace x)
      (heq : some (false, s) = some (alone, front ++ '<' :: c :: body))
      : ∃ t, s = t ++ (front ++ '<' :: c :: body) ∧ IsClosed t
        ∧ ∀ more, afterXmlDeclaration? (t ++ (front ++ '<' :: c :: more))
          = some (alone, front ++ '<' :: c :: more) := by
    cases heq
    refine ⟨[], rfl, isClosed_of_not_mem (by simp), fun more => ?_⟩
    rw [dropLiteral?_xml_append hc] at hnot
    rw [List.nil_append, afterXmlDeclaration?, dropLiteral?_xml_append hc]
    cases hfront : Text.dropLiteral? "<?xml" front with
    | none => rfl
    | some rest =>
        cases rest with
        | nil => rfl
        | cons x rest => exact if_neg (hnot x _ (by rw [hfront]; rfl))
  unfold afterXmlDeclaration? at h
  split at h
  · next x rest hdrop =>
      split at h
      · next hx =>
          obtain ⟨t, ht, hread⟩ := exists_text_of_readXmlDeclaration? h
          rw [ht] at hdrop
          refine ⟨"<?xml" ++ t ++ ['>'], by rw [Text.dropLiteral?_eq_some_iff.mp hdrop]; simp,
            isClosed_append_gt _, fun more => ?_⟩
          have htext : "<?xml" ++ t ++ ['>'] ++ (front ++ '<' :: c :: more)
              = "<?xml" ++ (t ++ '>' :: (front ++ '<' :: c :: more)) := by
            simp
          rw [htext, afterXmlDeclaration?, Text.dropLiteral?_eq_some_iff.mpr rfl]
          cases t with
          | nil =>
              rw [(List.cons.inj ht).1] at hx
              cases hx
          | cons y t =>
              rw [(List.cons.inj ht).1] at hx
              exact (if_pos hx).trans (hread _)
      · next hx => exact hundeclared (fun y rest hy => by cases hdrop.symm.trans hy; exact hx) h
  · next hnone => exact hundeclared (fun y rest hy => absurd hy (hnone y rest)) h

/-- Behind comments and instructions the document type declaration is read in front of a tag,
whatever the tag is.
-/
theorem exists_text_of_readDoctypeOrNone? {s left body : Text} {d : Doctype}
    (hstop : dropMisc? s = some s) (h : readDoctypeOrNone? s = some (d, left))
    (hmisc : dropMisc? left = some ('<' :: c :: body))
    : ∃ t t', s = t ++ (t' ++ '<' :: c :: body) ∧ IsClosed (t ++ t')
      ∧ ∀ more, dropMisc? (t ++ (t' ++ '<' :: c :: more)) = some (t ++ (t' ++ '<' :: c :: more))
        ∧ readDoctypeOrNone? (t ++ (t' ++ '<' :: c :: more)) = some (d, t' ++ '<' :: c :: more)
        ∧ dropMisc? (t' ++ '<' :: c :: more) = some ('<' :: c :: more) := by
  obtain ⟨t', rfl, hclosed, hmore⟩ := exists_text_of_dropMisc? hmisc
  have hbody (more : Text) : dropMisc? (t' ++ '<' :: c :: more) = some ('<' :: c :: more) :=
    (hmore _).trans (dropMisc?_tag hc more)
  unfold readDoctypeOrNone? at h
  split at h
  · next behind hdrop =>
      obtain ⟨t, rfl, hread⟩ := exists_text_of_readDoctype? h
      refine ⟨"<!DOCTYPE" ++ t ++ ['>'], t', by rw [Text.dropLiteral?_eq_some_iff.mp hdrop]; simp,
        (isClosed_append_gt _).append hclosed, fun more => ⟨?_, ?_, hbody more⟩⟩
      · have htext : "<!DOCTYPE" ++ t ++ ['>'] ++ (t' ++ '<' :: c :: more)
            = '<' :: '!' :: 'D' :: ("OCTYPE" ++ (t ++ '>' :: (t' ++ '<' :: c :: more))) := by
          simp [Text.ofString]
        rw [htext, dropMisc?]
        · exact if_neg (by decide)
        all_goals simp
      · have htext : "<!DOCTYPE" ++ t ++ ['>'] ++ (t' ++ '<' :: c :: more)
            = "<!DOCTYPE" ++ (t ++ '>' :: (t' ++ '<' :: c :: more)) := by
          simp
        rw [htext, readDoctypeOrNone?, Text.dropLiteral?_eq_some_iff.mpr rfl]
        exact hread _
  · next hnone =>
      cases h
      -- without a declaration nothing is left to be dropped
      rw [hmisc] at hstop
      obtain rfl : t' = [] := by simpa using Option.some.inj hstop
      refine ⟨[], [], rfl, hclosed, fun more => ⟨hbody more, ?_, hbody more⟩⟩
      rw [List.nil_append, List.nil_append, readDoctypeOrNone?, dropLiteral?_doctype_tag hc]

/-- The prolog is read in front of a tag, whatever the tag is. -/
theorem exists_text_of_readProlog? {s body : Text} {d : Doctype}
    (h : readProlog? s = some (d, '<' :: c :: body))
    : ∃ prolog, s = prolog ++ '<' :: c :: body ∧ IsClosed prolog
      ∧ ∀ more, readProlog? (prolog ++ '<' :: c :: more) = some (d, '<' :: c :: more) := by
  unfold readProlog? at h
  simp only [Option.bind_eq_some_iff, Option.map_eq_some_iff] at h
  obtain ⟨⟨alone, behind⟩, hxml, stopped, hmisc, ⟨declared, left⟩, hdoctype, body', hmisc', heq⟩ := h
  cases heq
  obtain ⟨space, rfl, hclosed, hdrop⟩ := exists_text_of_dropMisc? hmisc
  obtain ⟨t, t', rfl, hclosed', hread⟩ :=
    exists_text_of_readDoctypeOrNone? hc ((hdrop _).symm.trans hmisc) hdoctype hmisc'
  have htext (more : Text) : space ++ (t ++ (t' ++ '<' :: c :: more))
      = space ++ (t ++ t') ++ '<' :: c :: more := by
    simp
  rw [htext] at hxml
  obtain ⟨declaration, hs, hclosed'', hafter⟩ := exists_text_of_afterXmlDeclaration? hc hxml
  obtain ⟨mark, rfl, hmark, hdropMark⟩ := exists_text_of_dropByteOrderMark (by rw [hs, ← List.append_assoc])
  refine ⟨mark ++ (declaration ++ (space ++ (t ++ t'))), by simp,
    hmark.append (hclosed''.append (hclosed.append hclosed')), fun more => ?_⟩
  obtain ⟨hstop, hdoctype, hbody⟩ := hread more
  have hwhole : mark ++ (declaration ++ (space ++ (t ++ t'))) ++ '<' :: c :: more
      = mark ++ (declaration ++ (space ++ (t ++ t')) ++ '<' :: c :: more) := by
    simp
  rw [readProlog?, hwhole, hdropMark, List.append_assoc, hafter, ← htext]
  simp only [Option.bind_some, hdrop, hstop, hdoctype, hbody, Option.map_some]

end Prolog

end Xml

end SvgKit
