import SvgKit.Proofs.Xml.Prolog

/-! The root of a document: what stands behind the prolog begins with its start tag, and whether the
text is that of a document depends on the prolog and on what is open behind the rest.
-/

namespace SvgKit.Xml

-----------------------------------------------------------------------------------------
-- Character data outside of elements
-----------------------------------------------------------------------------------------

/-- White space apart, no character is lost where lines are unified. -/
theorem mem_unifyLines_of_mem {s : Text} {c : Char} (h : c ∈ s) (hspace : isSpace c = false)
    : c ∈ Text.unifyLines s := by
  have hne {x : Char} (hx : isSpace x) : c ≠ x := by
    rintro rfl
    rw [hx] at hspace
    cases hspace
  suffices ∀ done : Text × Bool, c ∈ done.1 ∨ c ∈ s → c ∈ (s.foldl Text.unifyLines.step done).1 from
    List.mem_reverse.mpr (this ([], false) (.inr h))
  clear h
  induction s with
  | nil => simp
  | cons x s ih =>
      intro done h
      refine ih _ ?_
      rw [List.mem_cons] at h
      unfold Text.unifyLines.step
      split
      · next hx =>
          have hcr : c ≠ '\r' := hne (by decide)
          rw [List.mem_cons]
          exact h.imp .inr fun h => h.resolve_left (hx ▸ hcr)
      · split
        · next hx =>
            rw [Bool.and_eq_true, decide_eq_true_eq] at hx
            have hlf : c ≠ '\n' := hne (by decide)
            exact h.imp_right fun h => h.resolve_left (hx.1 ▸ hlf)
        · rw [List.mem_cons]
          tauto

theorem exists_mem_of_textToken? {s rest : Text} {tokens : List Token}
    (h : textToken? s rest = some tokens) {c : Char} (hc : c ∈ s) (hspace : isSpace c = false)
    : ∃ t ahead, .text t ahead ∈ tokens ∧ c ∈ t := by
  unfold textToken? at h
  split at h
  · next hempty => simp [List.isEmpty_iff.mp hempty] at hc
  · split at h
    · cases h
    · cases h
      exact ⟨_, _, List.mem_singleton_self _, mem_unifyLines_of_mem hc hspace⟩

/-- The tokens that have been read are kept, and the characters of data, white space apart. -/
structure KeepsData (done : List (List Token)) (data : Text) (tokens : List Token) : Prop where
  done : ∀ read ∈ done, read ⊆ tokens
  data : ∀ c ∈ data, isSpace c = false → ∃ t ahead, .text t ahead ∈ tokens ∧ c ∈ t

theorem keepsData_of_last {done : List (List Token)} {s rest : Text} {tokens : List Token}
    (h : readDataAfter?.last done s = some (tokens, rest))
    : KeepsData done (s.takeWhile isData) tokens := by
  obtain ⟨segment, hsegment, heq⟩ := Option.map_eq_some_iff.mp h
  cases heq
  refine ⟨fun read hread => ?_, fun c hc hspace => ?_⟩
  · exact fun token htoken => List.mem_flatten_of_mem (by simp [hread]) htoken
  · obtain ⟨t, ahead, htoken, hct⟩ := exists_mem_of_textToken? hsegment hc hspace
    exact ⟨t, ahead, List.mem_flatten_of_mem (by simp) htoken, hct⟩

/-- A segment is kept, and so is what stands behind it. -/
theorem KeepsData.segment {done : List (List Token)} {segmentTokens tokens : List Token}
    {s left behind : Text} (hsegment : textToken? (s.takeWhile isPlain) left = some segmentTokens)
    (hbehind : ∀ c ∈ (s.dropWhile isPlain).takeWhile isData, isSpace c = false →
      c ∈ behind.takeWhile isData)
    (h : KeepsData (segmentTokens :: done) (behind.takeWhile isData) tokens)
    : KeepsData done (s.takeWhile isData) tokens := by
  have hdone := List.forall_mem_cons.mp h.done
  refine ⟨hdone.2, fun c hc hspace => ?_⟩
  rw [takeWhile_isData_eq, List.mem_append] at hc
  rcases hc with hc | hc
  · obtain ⟨t, ahead, htoken, hct⟩ := exists_mem_of_textToken? hsegment hc hspace
    exact ⟨t, ahead, hdone.1 htoken, hct⟩
  · exact h.data c (hbehind c hc hspace) hspace

/-- White space apart, no character of character data is lost. The induction is over its segments. -/
theorem keepsData_of_readDataAfter? {done : List (List Token)} {s rest : Text} {tokens : List Token}
    (h : readDataAfter? done s = some (tokens, rest))
    : KeepsData done (s.takeWhile isData) tokens := by
  have hreturn {s more : Text} (hs : s.dropWhile isPlain = '\r' :: '\n' :: more)
      : ∀ c ∈ (s.dropWhile isPlain).takeWhile isData, isSpace c = false →
        c ∈ ('\n' :: more).takeWhile isData := by
    intro c hc hspace
    rw [hs, List.takeWhile_cons_of_pos (by decide), List.mem_cons] at hc
    refine hc.resolve_left ?_
    rintro rfl
    cases hspace
  fun_induction readDataAfter? done s with
  | case1 | case4 => cases h
  | case2 done s segment more hs segmentTokens hsegment _ ih =>
      exact .segment hsegment (hreturn hs) (ih h)
  | case3 done s segment more hs segmentTokens hsegment _ =>
      exact .segment hsegment (hreturn hs) (keepsData_of_last h)
  | case5 done s segment _ _ hsegment => exact .segment hsegment (fun _ hc _ => hc) (keepsData_of_last h)

section Outside

variable {d : Doctype} {p q : Progress}

/-- Where no element is open, character data is white space. -/
theorem AreText.isSpace_of_foldlM {tokens : List Token} (h : AreText tokens) (hp : p.frames = [])
    (hfold : tokens.foldlM (Progress.take? d) p = some q)
    : ∀ s ahead, .text s ahead ∈ tokens → s.all isSpace := by
  induction tokens generalizing p with
  | nil => simp
  | cons token tokens ih =>
      obtain ⟨hfirst, hrest⟩ := List.forall_mem_cons.mp h
      obtain ⟨t, ahead, rfl⟩ := hfirst
      obtain ⟨next, hnext, hfold⟩ := Option.bind_eq_some_iff.mp hfold
      simp only [Progress.take?, hp] at hnext
      split at hnext
      · next hspace =>
          cases hnext
          intro s ahead' hmem
          rcases List.mem_cons.mp hmem with heq | hmem
          · cases heq
            exact hspace
          · exact ih hrest hp hfold s ahead' hmem
      · cases hnext

/-- Only a start tag, white space, a comment or an instruction begins a text where no element is
open.
-/
theorem exists_start_of_absorb? {c : Char} {s : Text} (hp : p.frames = [])
    (h : p.absorb? d (c :: s) = some q)
    : (∃ x t, c :: s = '<' :: x :: t ∧ isNameStart x) ∨ isSpace c ∨ (∃ t, c :: s = '<' :: '?' :: t)
      ∨ ∃ t, c :: s = '<' :: '!' :: '-' :: '-' :: t := by
  obtain ⟨tokens, rest, p₁, hread, hp₁, -⟩ := exists_of_absorb? h
  have hfail (token : Token) (hnone : p.take? d token = none) (htokens : tokens = [token]) : False := by
    rw [htokens, List.foldlM_cons, hnone] at hp₁
    cases hp₁
  unfold readTokens? at hread
  split at hread
  · next t heq => exact .inr (.inr (.inl ⟨t, heq⟩))
  · next t heq => exact .inr (.inr (.inr ⟨t, heq⟩))
  · split at hread
    · cases hread
    · obtain ⟨⟨content, left⟩, -, heq⟩ := Option.map_eq_some_iff.mp hread
      cases heq
      exact (hfail _ (by simp [Progress.take?, hp]) rfl).elim
  · next t heq =>
      obtain ⟨⟨token, left⟩, hfinish, heq⟩ := Option.map_eq_some_iff.mp hread
      cases heq
      obtain ⟨name, _, rfl, -⟩ := exists_of_readFinish? hfinish
      exact (hfail _ (by simp [Progress.take?, Progress.close?, hp]) rfl).elim
  · next t _ _ _ heq =>
      obtain ⟨⟨token, left⟩, hstart, -⟩ := Option.map_eq_some_iff.mp hread
      obtain ⟨x, t', rfl, hx⟩ := exists_of_readStart? hstart
      exact .inl ⟨x, t', heq, hx⟩
  · obtain ⟨⟨r, left⟩, -, heq⟩ := Option.map_eq_some_iff.mp hread
    cases r with
    | char c =>
        cases heq
        exact (hfail _ (by simp [Progress.take?, hp]) rfl).elim
    | entity name =>
        cases heq
        exact (hfail _ (by simp [Progress.take?, hp]) rfl).elim
  · next heq =>
      cases heq
      split at hread
      · next hdata =>
          by_cases hspace : isSpace c
          · exact .inr (.inl hspace)
          · obtain ⟨t, ahead, htoken, hct⟩ := (keepsData_of_readDataAfter? hread).data c
              (by rw [List.takeWhile_cons_of_pos hdata]; exact List.mem_cons_self) (by simpa using hspace)
            have htext : AreText tokens := eq_text_of_mem_readDataAfter? hread (by simp)
            exact absurd (List.all_eq_true.mp (htext.isSpace_of_foldlM hp hp₁ t ahead htoken) c hct) hspace
      · cases hread
  · cases hread

end Outside

-----------------------------------------------------------------------------------------
-- The root
-----------------------------------------------------------------------------------------

/-- White space, comments and instructions are dropped as a whole. -/
theorem dropMisc?_stop {s rest : Text} (h : dropMisc? s = some rest) : dropMisc? rest = some rest := by
  obtain ⟨t, rfl, -, hdrop⟩ := exists_text_of_dropMisc? h
  exact (hdrop rest).symm.trans h

theorem length_dropMisc? {s rest : Text} (h : dropMisc? s = some rest) : rest.length ≤ s.length := by
  obtain ⟨t, rfl, -, -⟩ := exists_text_of_dropMisc? h
  simp

section Root

variable {d : Doctype} {s body : Text} {q : Progress}

/-- Behind the prolog of a document stands the start tag of its root. -/
theorem exists_root_of_readProlog? (hprolog : readProlog? s = some (d, body))
    (h : Progress.absorb? d {} body = some q) (hroot : q.root.isSome)
    : ∃ c t, body = '<' :: c :: t ∧ isNameStart c := by
  unfold readProlog? at hprolog
  simp only [Option.bind_eq_some_iff, Option.map_eq_some_iff] at hprolog
  obtain ⟨_, -, _, -, _, -, _, hmisc, heq⟩ := hprolog
  cases heq
  have hstop := dropMisc?_stop hmisc
  cases body with
  | nil =>
      rw [Progress.absorb?_nil] at h
      cases h
      cases hroot
  | cons c s =>
      rcases exists_start_of_absorb? rfl h with htag | hspace | ⟨t, heq⟩ | ⟨t, heq⟩
      · exact htag
      · rw [dropMisc?_space hspace] at hstop
        exact absurd (length_dropMisc? hstop) (by simp)
      · rw [heq, dropMisc?_instruction, Option.bind_eq_some_iff] at hstop
        obtain ⟨left, hleft, hstop⟩ := hstop
        have hshorter := length_afterInstruction? hleft
        have hlonger := length_dropMisc? hstop
        simp only [List.length_cons] at hlonger
        omega
      · rw [heq, dropMisc?_comment, Option.bind_eq_some_iff] at hstop
        obtain ⟨left, hleft, hstop⟩ := hstop
        have hshorter := length_afterComment? hleft
        have hlonger := length_dropMisc? hstop
        simp only [List.length_cons] at hlonger
        omega

/-- A text is that of a document if its prolog is read, and nothing but a closed element is left
behind the rest.
-/
theorem ofText?_eq_some_iff {document : Document}
    : Document.ofText? s = some document
      ↔ ∃ d body q, readProlog? s = some (d, body) ∧ Progress.absorb? d {} body = some q
        ∧ q.frames = [] ∧ q.root = some document.root ∧ document.supply = { mark := q.mark } := by
  simp only [ofText?_eq_readProlog?, bind_ofTokens?, Option.bind_eq_some_iff, Prod.exists]
  refine exists_congr fun d => exists_congr fun body => ?_
  constructor
  · rintro ⟨hprolog, q, hq, hdocument⟩
    split at hdocument
    · next hframes =>
        obtain ⟨root, hroot, rfl⟩ := Option.map_eq_some_iff.mp hdocument
        exact ⟨q, hprolog, hq, List.isEmpty_iff.mp hframes, hroot, rfl⟩
    · cases hdocument
  · rintro ⟨q, hprolog, hq, hframes, hroot, hsupply⟩
    refine ⟨hprolog, q, hq, ?_⟩
    rw [if_pos (List.isEmpty_iff.mpr hframes), hroot, ← hsupply]
    rfl

/-- What is left of the text of a document is the text of one with a root of the same name, if the
same elements are open behind it.
-/
theorem exists_ofText?_of_same {document : Document} (h : Document.ofText? s = some document)
    : ∃ d prolog c body q, s = prolog ++ '<' :: c :: body ∧ isNameStart c ∧ IsClosed prolog
      ∧ readProlog? s = some (d, '<' :: c :: body)
      ∧ Progress.absorb? d {} ('<' :: c :: body) = some q
      ∧ ∀ left q', Progress.absorb? d {} ('<' :: c :: left) = some q' → q.Same q' →
        ∃ document', Document.ofText? (prolog ++ '<' :: c :: left) = some document'
          ∧ document'.root.head.name.base = document.root.head.name.base := by
  obtain ⟨d, body, q, hprolog, hq, hframes, hroot, -⟩ := ofText?_eq_some_iff.mp h
  obtain ⟨c, body, rfl, hc⟩ := exists_root_of_readProlog? hprolog hq (by rw [hroot]; rfl)
  obtain ⟨prolog, hs, hclosed, hread⟩ := exists_text_of_readProlog? hc hprolog
  refine ⟨d, prolog, c, body, q, hs, hc, hclosed, hprolog, hq, fun left q' hq' hsame => ?_⟩
  have hroot' := hsame.root
  rw [hroot, Option.map_some, Option.map_eq_some_iff] at hroot'
  obtain ⟨root, hroot', hbase⟩ := hroot'
  have hframes' : q'.frames = [] := by
    have hlength := hsame.length_eq
    rwa [hframes, List.length_nil, List.length_eq_zero_iff] at hlength
  exact ⟨⟨root, { mark := q'.mark }⟩, ofText?_eq_some_iff.mpr
    ⟨d, _, q', hread left, hq', hframes', hroot', rfl⟩, hbase⟩

end Root

end SvgKit.Xml
