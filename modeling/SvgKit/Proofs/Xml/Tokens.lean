import SvgKit.Proofs.Xml.Name

/-! The tokens of a text are sound: they hold names, references and characters of documents. -/

namespace SvgKit.Xml

/-- A token made of names, references and characters of documents. -/
def Token.Sound : Token → Prop
  | .text s _ => ∀ c ∈ s, isChar c
  | .literal s => ∀ c ∈ s, isChar c
  | .entity name => IsEntityName name
  | .start name attributes _ =>
      name.Sound ∧ ∀ a ∈ attributes, a.1.Sound ∧ ∀ r ∈ a.2, r.Sound
  | .finish _ => True

-----------------------------------------------------------------------------------------
-- Character data
-----------------------------------------------------------------------------------------

/-- Only line feeds are put into a text whose lines are unified, by induction over the
characters.
-/
theorem mem_unifyLines {s : Text} {c : Char} (h : c ∈ Text.unifyLines s)
    : c = '\n' ∨ c ∈ s := by
  suffices ∀ done : Text × Bool,
      c ∈ (s.foldl Text.unifyLines.step done).1 → c ∈ done.1 ∨ c = '\n' ∨ c ∈ s by
    simpa using this ([], false) (List.mem_reverse.mp h)
  intro done hc
  clear h
  induction s generalizing done with
  | nil => exact .inl hc
  | cons x s ih =>
      rcases ih _ hc with hstep | hlf | hs
      · unfold Text.unifyLines.step at hstep
        split at hstep
        · rcases List.mem_cons.mp hstep with rfl | hstep
          · exact .inr (.inl rfl)
          · exact .inl hstep
        · split at hstep
          · exact .inl hstep
          · rcases List.mem_cons.mp hstep with rfl | hstep
            · exact .inr (.inr List.mem_cons_self)
            · exact .inl hstep
      · exact .inr (.inl hlf)
      · exact .inr (.inr (List.mem_cons_of_mem _ hs))

theorem isChar_unifyLines {s : Text} (h : ∀ c ∈ s, isChar c)
    : ∀ c ∈ Text.unifyLines s, isChar c := by
  intro c hc
  rcases mem_unifyLines hc with rfl | hc
  · decide
  · exact h c hc

theorem isChar_of_isPlain {c : Char} (h : isPlain c) : isChar c := by
  unfold isPlain at h
  simp only [Bool.or_eq_true, Bool.and_eq_true, decide_eq_true_eq, beq_iff_eq] at h
  rcases h with (rfl | rfl) | ⟨⟨⟨h20, h7f⟩, -⟩, -⟩
  · decide
  · decide
  · have hbig {n : UInt32} (hn : 0x7F < n.toNat) : c.val ≠ n := by
      rintro rfl
      exact Nat.not_lt.mpr (show c.val.toNat ≤ 0x7F from h7f) hn
    simp only [isChar, Bool.or_eq_true, Bool.and_eq_true, decide_eq_true_eq, bne_iff_ne]
    exact .inl (.inl (.inl ⟨⟨h20, hbig (by decide)⟩, hbig (by decide)⟩))

theorem isChar_of_isData {c : Char} (h : isData c) : isChar c := by
  simp only [isData, Bool.and_eq_true] at h
  exact h.1.1

theorem sound_of_textToken? {s rest : Text} {tokens : List Token}
    (h : textToken? s rest = some tokens) (hs : ∀ c ∈ s, isChar c)
    : ∀ token ∈ tokens, token.Sound := by
  unfold textToken? at h
  split at h
  · cases h
    simp
  · split at h
    · cases h
    · cases h
      simpa [Token.Sound] using isChar_unifyLines hs

theorem sound_of_last {done : List (List Token)} {s rest : Text} {tokens : List Token}
    (h : readDataAfter?.last done s = some (tokens, rest))
    (hdone : ∀ read ∈ done, ∀ token ∈ read, token.Sound)
    : ∀ token ∈ tokens, token.Sound := by
  obtain ⟨segment, hsegment, heq⟩ := Option.map_eq_some_iff.mp h
  cases heq
  have hlast := sound_of_textToken? hsegment
    fun c hc => isChar_of_isData (List.mem_takeWhile_imp hc)
  intro token htoken
  simp only [List.mem_flatten, List.mem_reverse, List.mem_cons] at htoken
  obtain ⟨read, rfl | hread, htoken⟩ := htoken
  · exact hlast token htoken
  · exact hdone read hread token htoken

/-- Character data consists of sound tokens, by induction over its segments. -/
theorem sound_of_readDataAfter? {done : List (List Token)} {s rest : Text}
    {tokens : List Token} (h : readDataAfter? done s = some (tokens, rest))
    (hdone : ∀ read ∈ done, ∀ token ∈ read, token.Sound)
    : ∀ token ∈ tokens, token.Sound := by
  have hsegment {s rest : Text} {tokens : List Token}
      (h : textToken? (s.takeWhile isPlain) rest = some tokens)
      : ∀ token ∈ tokens, token.Sound :=
    sound_of_textToken? h fun c hc => isChar_of_isPlain (List.mem_takeWhile_imp hc)
  fun_induction readDataAfter? done s with
  | case1 => cases h
  | case2 done s segment more hs tokens' htokens _ ih =>
      exact ih h (List.forall_mem_cons.mpr ⟨hsegment htokens, hdone⟩)
  | case3 done s segment more hs tokens' htokens _ =>
      exact sound_of_last h (List.forall_mem_cons.mpr ⟨hsegment htokens, hdone⟩)
  | case4 => cases h
  | case5 done s segment _ tokens' htokens =>
      exact sound_of_last h (List.forall_mem_cons.mpr ⟨hsegment htokens, hdone⟩)

-----------------------------------------------------------------------------------------
-- Tags
-----------------------------------------------------------------------------------------

theorem sound_of_readAttribute? {s rest : Text} {a : Spelling × Value}
    (h : readAttribute? s = some (a, rest))
    : a.1.Sound ∧ ∀ r ∈ a.2, r.Sound := by
  unfold readAttribute? at h
  split at h
  · cases h
  · next name afterName hname =>
      split at h
      · split at h
        · cases h
        · obtain ⟨value, hvalue, heq⟩ := Option.map_eq_some_iff.mp h
          cases heq
          exact ⟨sound_of_readSpelling? hname, sound_of_readValue? hvalue⟩
      · cases h

/-- The attributes of a tag are sound, by induction over them. -/
theorem sound_of_readAttributesAfter? {done attributes : List (Spelling × Value)}
    {isEmpty : Bool} {s rest : Text}
    (h : readAttributesAfter? done s = some ((attributes, isEmpty), rest))
    (hdone : ∀ a ∈ done, a.1.Sound ∧ ∀ r ∈ a.2, r.Sound)
    : ∀ a ∈ attributes, a.1.Sound ∧ ∀ r ∈ a.2, r.Sound := by
  fun_induction readAttributesAfter? done s with
  | case3 done c s _ _ hc a left ha ih =>
      exact ih h (List.forall_mem_cons.mpr ⟨sound_of_readAttribute? ha, hdone⟩)
  | case1 | case2 | case4 | case5 =>
      cases h
      simpa using hdone
  | case6 | case7 | case8 => cases h

theorem sound_of_readStart? {s rest : Text} {token : Token}
    (h : readStart? s = some (token, rest))
    : token.Sound := by
  unfold readStart? at h
  split at h
  · cases h
  · next hname =>
      obtain ⟨⟨⟨attributes, isEmpty⟩, left⟩, ha, heq⟩ := Option.map_eq_some_iff.mp h
      cases heq
      exact ⟨sound_of_readSpelling? hname, sound_of_readAttributesAfter? ha (by simp)⟩

theorem sound_of_readFinish? {s rest : Text} {token : Token}
    (h : readFinish? s = some (token, rest))
    : token.Sound := by
  unfold readFinish? at h
  split at h
  · cases h
  · split at h
    · cases h
      trivial
    · cases h

-----------------------------------------------------------------------------------------
-- All tokens
-----------------------------------------------------------------------------------------

theorem isChar_of_readSection? {s content rest : Text}
    (h : readSection? s = some (content, rest))
    : ∀ c ∈ content, isChar c := by
  unfold readSection? at h
  split at h
  · cases h
  · split at h
    · next hall =>
        cases h
        exact isChar_unifyLines (List.all_eq_true.mp hall)
    · cases h

/-- What begins at the head of a text consists of sound tokens. -/
theorem sound_of_readTokens? {s rest : Text} {tokens : List Token}
    (h : readTokens? s = some (tokens, rest))
    : ∀ token ∈ tokens, token.Sound := by
  unfold readTokens? at h
  split at h
  · obtain ⟨_, _, heq⟩ := Option.map_eq_some_iff.mp h
    cases heq
    simp
  · obtain ⟨_, _, heq⟩ := Option.map_eq_some_iff.mp h
    cases heq
    simp
  · split at h
    · cases h
    · obtain ⟨_, hsection, heq⟩ := Option.map_eq_some_iff.mp h
      cases heq
      simpa [Token.Sound] using isChar_of_readSection? hsection
  · obtain ⟨_, hfinish, heq⟩ := Option.map_eq_some_iff.mp h
    cases heq
    simpa using sound_of_readFinish? hfinish
  · obtain ⟨_, hstart, heq⟩ := Option.map_eq_some_iff.mp h
    cases heq
    simpa using sound_of_readStart? hstart
  · obtain ⟨⟨r, left⟩, hr, heq⟩ := Option.map_eq_some_iff.mp h
    have hsound := sound_of_readReference? hr
    cases r with
    | char c =>
        cases heq
        simpa [Token.Sound, Reference.Sound] using hsound
    | entity name =>
        cases heq
        simpa [Token.Sound, Reference.Sound] using hsound
  · split at h
    · exact sound_of_readDataAfter? h (by simp)
    · cases h
  · cases h

/-- The tokens of a text are sound, by induction over what begins in it. -/
theorem sound_of_tokens? {s : Text} {tokens : List Token} (h : tokens? s = some tokens)
    : ∀ token ∈ tokens, token.Sound := by
  suffices ∀ done : List (List Token), (∀ read ∈ done, ∀ token ∈ read, token.Sound)
      → tokensAfter? done s = some tokens → ∀ token ∈ tokens, token.Sound from
    this [] (by simp) h
  intro done hdone hafter
  clear h
  fun_induction tokensAfter? done s with
  | case1 done s _ =>
      cases hafter
      intro token htoken
      obtain ⟨read, hread, htoken⟩ := List.mem_flatten.mp htoken
      exact hdone read (List.mem_reverse.mp hread) token htoken
  | case2 done s _ read rest hread ih =>
      exact ih (List.forall_mem_cons.mpr ⟨sound_of_readTokens? hread, hdone⟩) hafter
  | case3 => cases hafter

end SvgKit.Xml
