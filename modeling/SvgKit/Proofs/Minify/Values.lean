import SvgKit.Minify.Attributes
import SvgKit.Proofs.Text.Members
import SvgKit.Proofs.Xml.Tokens

/-! Rounded and compacted values consist of characters of documents, as the values did that
they are made of.
-/

namespace SvgKit

open Xml

-----------------------------------------------------------------------------------------
-- Numbers
-----------------------------------------------------------------------------------------

theorem isChar_of_isDigit {c : Char} (h : c.isDigit) : isChar c := by
  apply isChar_of_isPlain
  have hne : c ≠ '<' ∧ c ≠ '&' := by
    constructor <;>
    · rintro rfl
      exact absurd h (by decide)
  simp only [Char.isDigit, Bool.and_eq_true, decide_eq_true_eq] at h
  have hlow : 48 ≤ c.val.toNat := h.1
  have hhigh : c.val.toNat ≤ 57 := h.2
  simp only [isPlain, Bool.or_eq_true, Bool.and_eq_true, decide_eq_true_eq, bne_iff_ne]
  refine .inr ⟨⟨⟨?_, ?_⟩, hne.1⟩, hne.2⟩
  · show 32 ≤ c.val.toNat
    omega
  · show c.val.toNat ≤ 127
    omega

theorem Binary64.isChar_fixed {places : Nat} {x : Binary64}
    : ∀ c ∈ x.fixed places, isChar c := by
  cases x with
  | finite negative m e =>
      simp only [Binary64.fixed]
      generalize roundRatio _ _ = n
      have hdigits : ∀ c ∈ Text.ofNat n, isChar c := fun c hc =>
        isChar_of_isDigit (Nat.isDigit_of_mem_toDigits (by decide) (by decide) hc)
      have hpadded : ∀ c ∈
          List.replicate (places + 1 - (Text.ofNat n).length) '0' ++ Text.ofNat n,
          isChar c := by
        refine List.forall_mem_append.mpr ⟨?_, hdigits⟩
        intro c hc
        rw [List.eq_of_mem_replicate hc]
        decide
      generalize List.replicate _ '0' ++ Text.ofNat n = padded at hpadded
      refine List.forall_mem_append.mpr ⟨List.forall_mem_append.mpr ⟨?_, ?_⟩, ?_⟩
      · split
        · exact List.forall_mem_singleton.mpr (by decide)
        · simp
      · exact fun c hc => hpadded c (List.mem_of_mem_take hc)
      · split
        · simp
        · exact List.forall_mem_cons.mpr
            ⟨by decide, fun c hc => hpadded c (List.mem_of_mem_drop hc)⟩
  | infinite negative => cases negative <;> (simp [Binary64.fixed, Text.ofString]; decide)
  | nan =>
      simp [Binary64.fixed, Text.ofString]
      decide

namespace Numeral

theorem isChar_dropZeros {s : Text} (h : ∀ c ∈ s, isChar c)
    : ∀ c ∈ dropZeros s, isChar c := by
  have hshort : ∀ c ∈ (if s.contains '.' then
      Text.dropEndWhile (· = '.') (Text.dropEndWhile (· = '0') s) else s), isChar c := by
    split
    · exact fun c hc => h c (Text.mem_of_mem_dropEndWhile (Text.mem_of_mem_dropEndWhile hc))
    · exact h
  unfold dropZeros
  dsimp only
  generalize (if s.contains '.' then
    Text.dropEndWhile (· = '.') (Text.dropEndWhile (· = '0') s) else s) = short at hshort
  split
  · exact List.forall_mem_singleton.mpr (by decide)
  · exact hshort

theorem isChar_of_shorten {precision : Int} {x : Binary64} {text : Text}
    (h : shorten precision x = .ok text)
    : ∀ c ∈ text, isChar c := by
  unfold shorten at h
  split at h
  · cases h
  · split at h
    · cases h
    · cases h
      exact isChar_dropZeros Binary64.isChar_fixed

/-- Numbers in a text are shortened to characters of documents, piece by piece. -/
theorem isChar_of_shortenAll {precision : Int} {s text : Text}
    (h : shortenAll precision s = .ok text) (hs : ∀ c ∈ s, isChar c)
    : ∀ c ∈ text, isChar c := by
  unfold shortenAll at h
  have hplain : ∀ c, .plain c ∈ scanner.pieces s → isChar c :=
    fun c hc => hs c (scanner.mem_of_plain_mem_pieces hc)
  generalize scanner.pieces s = pieces at h hplain
  induction pieces generalizing text with
  | nil =>
      cases h
      simp
  | cons piece pieces ih =>
      rw [List.mapM_cons] at h
      cases hfirst : shortenPiece precision piece with
      | error e =>
          rw [hfirst] at h
          cases h
      | ok first =>
          cases hrest : pieces.mapM (shortenPiece precision) with
          | error e =>
              rw [hfirst, hrest] at h
              cases h
          | ok rest =>
              rw [hfirst, hrest] at h
              cases h
              rw [List.flatten_cons]
              refine List.forall_mem_append.mpr ⟨?_, ih (by rw [hrest]; rfl)
                fun c hc => hplain c (List.mem_cons_of_mem _ hc)⟩
              cases piece with
              | plain c =>
                  cases hfirst
                  exact List.forall_mem_singleton.mpr (hplain c List.mem_cons_self)
              | found n => exact isChar_of_shorten hfirst

end Numeral

-----------------------------------------------------------------------------------------
-- Values
-----------------------------------------------------------------------------------------

namespace Minify

/-- Tightening only takes characters away, by induction over the text. -/
theorem mem_of_mem_tighten {s : Text} {c : Char} (h : c ∈ tighten s) : c ∈ s := by
  suffices ∀ done : Text, c ∈ s.foldl tightenStep done → c ∈ done ∨ c ∈ s by
    simpa using this [] (List.mem_reverse.mp h)
  intro done hc
  clear h
  induction s generalizing done with
  | nil => exact .inl hc
  | cons x s ih =>
      rcases ih _ hc with hstep | hs
      · have hmem : c ∈ done ∨ c = x := by
          unfold tightenStep at hstep
          split at hstep
          · next hspace =>
              split at hstep
              · exact .inr ((List.mem_singleton.mp hstep).trans hspace.symm)
              · split at hstep
                · exact .inl hstep
                · exact (List.mem_cons.mp hstep).symm.imp_right (·.trans hspace.symm)
          · split at hstep
            · split at hstep
              · rcases List.mem_cons.mp hstep with h | h
                · exact .inr h
                · exact .inl (List.mem_cons_of_mem _ h)
              · exact (List.mem_cons.mp hstep).symm
            · exact (List.mem_cons.mp hstep).symm
        exact hmem.imp_right fun (h : c = x) => h ▸ List.mem_cons_self
      · exact .inr (List.mem_cons_of_mem _ hs)

theorem isChar_of_compactPath {precision : Int} {value text : Text}
    (h : compactPath precision value = .ok text) (hvalue : ∀ c ∈ value, isChar c)
    : ∀ c ∈ text, isChar c := by
  have htight {rounded : Text} (hrounded : ∀ c ∈ rounded, isChar c)
      : ∀ c ∈ tighten (Text.join [' ']
        ((Text.splitOnChar isSeparator rounded).filter (!·.isEmpty))), isChar c := by
    intro c hc
    rcases Text.mem_join_of_splitOnChar List.filter_sublist.subset (mem_of_mem_tighten hc)
      with hc | hc
    · obtain rfl := List.mem_singleton.mp hc
      decide
    · exact hrounded c hc
  unfold compactPath at h
  split at h
  · cases h
    exact htight hvalue
  · cases hround : Numeral.shortenAll precision value with
    | error e =>
        rw [hround] at h
        cases h
    | ok rounded =>
        rw [hround] at h
        cases h
        exact htight (Numeral.isChar_of_shortenAll hround hvalue)

theorem isChar_of_compactNumbers {precision : Int} {value text : Text}
    (h : compactNumbers precision value = .ok text) (hvalue : ∀ c ∈ value, isChar c)
    : ∀ c ∈ text, isChar c := by
  unfold compactNumbers at h
  cases hround : Numeral.shortenAll precision value with
  | error e =>
      rw [hround] at h
      cases h
  | ok rounded =>
      rw [hround] at h
      cases h
      intro c hc
      rcases Text.mem_join_of_splitOnChar List.filter_sublist.subset hc with hc | hc
      · obtain rfl := List.mem_singleton.mp hc
        decide
      · exact Numeral.isChar_of_shortenAll hround hvalue c hc

theorem Declaration.isChar_of_ofText? {s : Text} {d : Declaration}
    (h : Declaration.ofText? s = some d) (hs : ∀ c ∈ s, isChar c)
    : ∀ c ∈ d.text, isChar c := by
  obtain ⟨⟨property, value⟩, hsplit, rfl⟩ := Option.map_eq_some_iff.mp h
  have hmem := Text.eq_of_splitAtLiteral? hsplit
  subst hmem
  rw [List.forall_mem_append, List.forall_mem_append] at hs
  refine List.forall_mem_append.mpr ⟨fun c hc => hs.1.1 c (Text.mem_of_mem_trim hc), ?_⟩
  exact List.forall_mem_cons.mpr ⟨by decide, fun c hc => hs.2 c (Text.mem_of_mem_trim hc)⟩

theorem isChar_of_compactStyle? {style text : Text} (h : compactStyle? style = some text)
    (hstyle : ∀ c ∈ style, isChar c)
    : ∀ c ∈ text, isChar c := by
  unfold compactStyle? at h
  dsimp only at h
  split at h
  · cases h
  · cases h
    intro c hc
    rcases Text.mem_join hc with hc | ⟨part, hpart, hc⟩
    · obtain rfl := List.mem_singleton.mp hc
      decide
    · obtain ⟨d, hd, rfl⟩ := List.mem_map.mp hpart
      obtain ⟨piece, hpiece, hread⟩ := List.mem_filterMap.mp hd
      exact Declaration.isChar_of_ofText? hread
        (fun c hc => hstyle c (Text.mem_of_mem_splitOnChar hpiece hc)) c hc

end Minify

end SvgKit
