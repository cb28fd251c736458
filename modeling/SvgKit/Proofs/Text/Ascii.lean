import SvgKit.Text.Case

/-! Letters and digits of ASCII, and what holds of all its characters because it holds of the first
128 code points; blanks, which are in ASCII or among the wide ones.
-/

namespace SvgKit.Text

variable {c : Char}

/-- What holds of the first 128 code points holds of the ASCII characters. -/
theorem forall_ascii {P : Char → Prop} (h : ∀ n < 128, P (Char.ofNat n)) (hc : c.val < 128)
    : P c := by
  have hofNat := h c.toNat (UInt32.lt_iff_toNat_lt.mp hc)
  rwa [Char.ofNat_toNat] at hofNat

/-- What holds of the blanks of ASCII and of the wide blanks holds of all blanks. -/
theorem of_isBlank {p : Char → Bool} (hascii : ∀ n < 128, isBlank (Char.ofNat n) → p (Char.ofNat n))
    (hwide : wideBlanks.all p) (h : isBlank c)
    : p c := by
  by_cases hc : c.val < 128
  · exact forall_ascii (P := fun c => isBlank c → p c) hascii hc h
  · rw [isBlank, if_neg hc] at h
    exact List.all_eq_true.mp hwide c (List.contains_iff_mem.mp h)

theorem lt_of_isAlphanum (h : c.isAlphanum) : c.val < 128 := by
  delta Char.isAlphanum Char.isAlpha Char.isUpper Char.isLower Char.isDigit at h
  simp only [Bool.or_eq_true, Bool.and_eq_true, decide_eq_true_eq, ge_iff_le,
    UInt32.le_iff_toNat_le] at h
  rw [UInt32.lt_iff_toNat_lt]
  have hupper : 'Z'.val.toNat = 90 := rfl
  have hlower : 'z'.val.toNat = 122 := rfl
  have hdigit : '9'.val.toNat = 57 := rfl
  have hbound : (128 : UInt32).toNat = 128 := rfl
  omega

theorem isAlpha_of_isUpper (h : c.isUpper) : c.isAlpha := Bool.or_eq_true_iff.mpr (.inl h)

theorem isAlphanum_of_isAlpha (h : c.isAlpha) : c.isAlphanum := Bool.or_eq_true_iff.mpr (.inl h)

theorem isAlphanum_of_isDigit (h : c.isDigit) : c.isAlphanum := Bool.or_eq_true_iff.mpr (.inr h)

theorem lt_of_isAlpha (h : c.isAlpha) : c.val < 128 := lt_of_isAlphanum (isAlphanum_of_isAlpha h)

theorem upperChar_of_isAlphanum (h : c.isAlphanum) : upperChar c = [c.toUpper] :=
  if_pos (lt_of_isAlphanum h)

theorem lower_eq_map {s : Text} (hs : ∀ c ∈ s, c.val < 128)
    : Text.lower s = s.map Char.toLower := by
  suffices ∀ done before, Text.lower.go done before s = done.reverse ++ s.map Char.toLower from
    this [] []
  induction s with
  | nil => simp [Text.lower.go]
  | cons c s ih =>
      intro done before
      rw [List.forall_mem_cons] at hs
      rw [Text.lower.go, Text.lowerChar, if_pos hs.1, ih hs.2]
      simp

end SvgKit.Text
