import Mathlib
import SvgKit.Number.ByteCount

/-! Which numbers are finite. A ratio is beyond every finite number from half a unit above the
greatest of them on; rounding a finite number to decimal places never gets there.
-/

namespace SvgKit

-----------------------------------------------------------------------------------------
-- Rounding a ratio to an integer
-----------------------------------------------------------------------------------------

section Ratio

variable {num den : Nat}

/-- The nearest integer is at most half away. -/
theorem roundRatio_bounds (num : Nat) (hden : 0 < den)
    : 2 * (roundRatio num den * den) ≤ 2 * num + den
      ∧ 2 * num ≤ 2 * (roundRatio num den * den) + den := by
  have hsum := Nat.div_add_mod num den
  have hlt := Nat.mod_lt num hden
  unfold roundRatio
  dsimp only
  generalize num / den = q at *
  generalize num % den = r at *
  rw [mul_comm] at hsum
  split
  · omega
  · split
    · rw [Nat.add_mul, Nat.one_mul]
      omega
    · rcases Nat.mod_two_eq_zero_or_one q with hq | hq
      · rw [hq, Nat.add_zero]
        omega
      · rw [hq, Nat.add_mul, Nat.one_mul]
        omega

/-- What is at most an integer is not rounded beyond it. -/
theorem roundRatio_le {n : Nat} (hden : 0 < den) (h : num ≤ n * den) : roundRatio num den ≤ n := by
  have hbounds := (roundRatio_bounds num hden).1
  by_contra hlt
  have := Nat.mul_le_mul_right den (Nat.not_le.mp hlt)
  rw [Nat.succ_mul] at this
  omega

/-- What is at least an integer is not rounded below it. -/
theorem le_roundRatio {n : Nat} (hden : 0 < den) (h : n * den ≤ num) : n ≤ roundRatio num den := by
  have hbounds := (roundRatio_bounds num hden).2
  by_contra hlt
  have := Nat.mul_le_mul_right den (Nat.not_le.mp hlt)
  rw [Nat.succ_mul] at this
  omega

/-- Half a unit above an odd integer is rounded up. -/
theorem succ_le_roundRatio {n : Nat} (hden : 0 < den) (hodd : n % 2 = 1)
    (h : (2 * n + 1) * den ≤ 2 * num)
    : n + 1 ≤ roundRatio num den := by
  have hsum := Nat.div_add_mod num den
  have hlt := Nat.mod_lt num hden
  have hq : n ≤ num / den := by
    rw [Nat.le_div_iff_mul_le hden]
    rw [Nat.add_mul, Nat.mul_assoc, Nat.one_mul] at h
    omega
  rcases hq.eq_or_lt with hq | hq
  · unfold roundRatio
    dsimp only
    rw [← hq] at hsum ⊢
    rw [mul_comm den] at hsum
    rw [Nat.add_mul, Nat.mul_assoc, Nat.one_mul] at h
    rw [if_neg (by omega)]
    split <;> omega
  · refine le_roundRatio hden ?_
    exact (Nat.le_div_iff_mul_le hden).mp hq

/-- A ratio is rounded to `2 ^ 53` units or beyond from half a unit below on. -/
theorem two_pow_le_roundRatio_iff {c : Nat} (hden : 0 < den)
    : 2 ^ 53 ≤ roundRatio num (den * 2 ^ (c + 1)) ↔ (2 ^ 54 - 1) * (2 ^ c * den) ≤ num := by
  have hpos : 0 < den * 2 ^ (c + 1) := by positivity
  have hdouble : den * 2 ^ (c + 1) = 2 * (2 ^ c * den) := by ring
  constructor
  · intro hfull
    have hbounds := (roundRatio_bounds num hpos).1
    have hmul := Nat.mul_le_mul_right (den * 2 ^ (c + 1)) hfull
    rw [hdouble] at hmul hbounds
    generalize 2 ^ c * den = unit at *
    omega
  · intro hnum
    refine succ_le_roundRatio (n := 2 ^ 53 - 1) hpos (by norm_num) ?_
    rw [hdouble]
    generalize 2 ^ c * den = unit at *
    omega

end Ratio

namespace Binary64

-----------------------------------------------------------------------------------------
-- Powers of two
-----------------------------------------------------------------------------------------

theorem natPow_eq (n : Nat) : Nat.pow 2 n = 2 ^ n := rfl

theorem zpow_toNat {b : ℚ} (hb : b ≠ 0) (k : Int) : b ^ k.toNat = b ^ k * b ^ (-k).toNat := by
  rcases le_total 0 k with hk | hk
  · rw [Int.toNat_of_nonpos (Int.neg_nonpos_of_nonneg hk), pow_zero, mul_one, ← zpow_natCast,
      Int.toNat_of_nonneg hk]
  · rw [Int.toNat_of_nonpos hk, pow_zero, ← zpow_natCast,
      Int.toNat_of_nonneg (Int.neg_nonneg_of_nonpos hk), ← zpow_add₀ hb, add_neg_cancel,
      zpow_zero]

theorem pow_toNat (k : Int) : (2 : ℚ) ^ k.toNat = 2 ^ k * 2 ^ (-k).toNat :=
  zpow_toNat two_ne_zero k

/-- A ratio of two numbers is compared with a power of two by whole numbers. -/
theorem mul_pow_lt_iff {a b : Nat} {k : Int}
    : a * Nat.pow 2 (-k).toNat < b * Nat.pow 2 k.toNat ↔ (a : ℚ) < b * 2 ^ k := by
  have hpos : (0 : ℚ) < 2 ^ (-k).toNat := by positivity
  rw [← Nat.cast_lt (α := ℚ), Nat.cast_mul, Nat.cast_mul, Nat.pow_eq, Nat.pow_eq, Nat.cast_pow,
    Nat.cast_pow, Nat.cast_ofNat, pow_toNat k, ← mul_assoc, mul_lt_mul_iff_left₀ hpos]

theorem mul_pow_le_iff {a b : Nat} {k : Int}
    : b * Nat.pow 2 k.toNat ≤ a * Nat.pow 2 (-k).toNat ↔ (b : ℚ) * 2 ^ k ≤ a := by
  rw [← not_lt, ← not_lt, mul_pow_lt_iff]

theorem le_mul_pow_iff {a b : Nat} {k : Int}
    : a * Nat.pow 2 (-k).toNat ≤ b * Nat.pow 2 k.toNat ↔ (a : ℚ) ≤ b * 2 ^ k := by
  have hpos : (0 : ℚ) < 2 ^ (-k).toNat := by positivity
  rw [← Nat.cast_le (α := ℚ), Nat.cast_mul, Nat.cast_mul, Nat.pow_eq, Nat.pow_eq, Nat.cast_pow,
    Nat.cast_pow, Nat.cast_ofNat, pow_toNat k, ← mul_assoc, mul_le_mul_iff_left₀ hpos]

section Ratio

variable {num den : Nat} (hnum : 0 < num) (hden : 0 < den)
include hnum hden

/-- A ratio lies between a power of two and the next one. -/
theorem log2Ratio_bounds
    : (den : ℚ) * 2 ^ log2Ratio num den ≤ num ∧ (num : ℚ) < den * 2 ^ (log2Ratio num den + 1) := by
  have hnumLow : (2 : ℚ) ^ (Nat.log2 num : Int) ≤ num := by
    exact_mod_cast Nat.log2_self_le hnum.ne'
  have hnumHigh : (num : ℚ) < 2 ^ ((Nat.log2 num : Int) + 1) := by
    exact_mod_cast Nat.lt_log2_self (n := num)
  have hdenLow : (2 : ℚ) ^ (Nat.log2 den : Int) ≤ den := by
    exact_mod_cast Nat.log2_self_le hden.ne'
  have hdenHigh : (den : ℚ) < 2 ^ ((Nat.log2 den : Int) + 1) := by
    exact_mod_cast Nat.lt_log2_self (n := den)
  unfold log2Ratio
  dsimp only
  generalize (Nat.log2 num : Int) = a at *
  generalize (Nat.log2 den : Int) = b at *
  split
  · next hlt =>
      rw [mul_pow_lt_iff] at hlt
      refine ⟨?_, by rwa [sub_add_cancel]⟩
      calc (den : ℚ) * 2 ^ (a - b - 1) ≤ 2 ^ (b + 1) * 2 ^ (a - b - 1) := by gcongr
        _ = 2 ^ a := by rw [← zpow_add₀ two_ne_zero]; congr 1; ring
        _ ≤ num := hnumLow
  · next hle =>
      rw [mul_pow_lt_iff, not_lt] at hle
      refine ⟨hle, ?_⟩
      calc (num : ℚ) < 2 ^ (a + 1) := hnumHigh
        _ = 2 ^ b * 2 ^ (a - b + 1) := by rw [← zpow_add₀ two_ne_zero]; congr 1; ring
        _ ≤ den * 2 ^ (a - b + 1) := by gcongr

/-- A ratio is rounded to 53 bits. -/
theorem roundRatio_le_of_log2Ratio {e : Int} (he : log2Ratio num den - 52 ≤ e)
    : roundRatio (num * Nat.pow 2 (-e).toNat) (den * Nat.pow 2 e.toNat) ≤ 2 ^ 53 := by
  refine roundRatio_le (Nat.mul_pos hden (Nat.pow_pos two_pos)) ?_
  rw [← mul_assoc, le_mul_pow_iff]
  have hpow : (2 : ℚ) ^ (log2Ratio num den + 1) ≤ 2 ^ (e + 53) :=
    zpow_le_zpow_right₀ one_le_two (by omega)
  calc (num : ℚ) ≤ den * 2 ^ (log2Ratio num den + 1) := (log2Ratio_bounds hnum hden).2.le
    _ ≤ den * 2 ^ (e + 53) := by gcongr
    _ = (2 ^ 53 * den : Nat) * 2 ^ e := by
      rw [zpow_add₀ two_ne_zero, Nat.cast_mul, Nat.cast_pow, Nat.cast_ofNat, mul_comm (2 ^ e),
        ← mul_assoc, mul_comm (den : ℚ)]
      rfl

/-- A ratio is rounded to at least 52 bits unless it is very small. -/
theorem le_roundRatio_of_log2Ratio {e : Int} (he : e = log2Ratio num den - 52)
    : 2 ^ 52 ≤ roundRatio (num * Nat.pow 2 (-e).toNat) (den * Nat.pow 2 e.toNat) := by
  refine le_roundRatio (Nat.mul_pos hden (Nat.pow_pos two_pos)) ?_
  rw [← mul_assoc, mul_pow_le_iff]
  calc ((2 ^ 52 * den : Nat) : ℚ) * 2 ^ e = den * 2 ^ log2Ratio num den := by
        rw [he, zpow_sub₀ two_ne_zero]
        push_cast
        field_simp
    _ ≤ num := (log2Ratio_bounds hnum hden).1

/-- A ratio is rounded to a power of two or beyond it from half a unit below the power on. -/
theorem pow_le_rounded_iff (c : Nat) {e : Int} (he : e = max (log2Ratio num den - 52) (-1074))
    : 2 ^ (54 + c) ≤ roundRatio (num * Nat.pow 2 (-e).toNat) (den * Nat.pow 2 e.toNat) * 2 ^ e.toNat
      ↔ (2 ^ 54 - 1) * (2 ^ c * den) ≤ num := by
  obtain ⟨hlow, hhigh⟩ := log2Ratio_bounds hnum hden
  rcases lt_trichotomy (log2Ratio num den) (53 + c : Nat) with hlog | hlog | hlog
  · refine iff_of_false (Nat.not_le.mpr ?_) (Nat.not_le.mpr ?_)
    · calc _ ≤ 2 ^ 53 * 2 ^ e.toNat :=
            Nat.mul_le_mul_right _ (roundRatio_le_of_log2Ratio hnum hden (he ▸ le_max_left _ _))
        _ = 2 ^ (53 + e.toNat) := (pow_add 2 53 _).symm
        _ < 2 ^ (54 + c) := Nat.pow_lt_pow_right one_lt_two (by omega)
    · have hpow : (num : ℚ) < (den * 2 ^ (53 + c) : Nat) := by
        refine hhigh.trans_le ?_
        push_cast
        gcongr
        rw [← zpow_natCast]
        exact zpow_le_zpow_right₀ one_le_two (by omega)
      rw [Nat.cast_lt, pow_add, mul_left_comm, mul_comm den] at hpow
      exact hpow.trans_le (Nat.mul_le_mul_right _ (by norm_num))
  · obtain rfl : e = (c + 1 : Nat) := by omega
    rw [← two_pow_le_roundRatio_iff hden, show 54 + c = 53 + (c + 1) by omega, pow_add]
    have hnonpos : (-((c + 1 : Nat) : Int)).toNat = 0 := by omega
    rw [hnonpos, Int.toNat_natCast, natPow_eq, natPow_eq, pow_zero, mul_one]
    exact Nat.mul_le_mul_right_iff (by positivity)
  · refine iff_of_true ?_ ?_
    · have he : e = log2Ratio num den - 52 := by omega
      calc 2 ^ (54 + c) ≤ 2 ^ (52 + e.toNat) := Nat.pow_le_pow_right two_pos (by omega)
        _ = 2 ^ 52 * 2 ^ e.toNat := pow_add 2 52 _
        _ ≤ _ := Nat.mul_le_mul_right _ (le_roundRatio_of_log2Ratio hnum hden he)
    · have hpow : ((den * 2 ^ (54 + c) : Nat) : ℚ) ≤ num := by
        refine le_trans ?_ hlow
        push_cast
        gcongr
        rw [← zpow_natCast]
        exact zpow_le_zpow_right₀ one_le_two (by omega)
      rw [Nat.cast_le, pow_add, mul_left_comm, mul_comm den] at hpow
      exact le_trans (Nat.mul_le_mul_right _ (by omega)) hpow

end Ratio

-----------------------------------------------------------------------------------------
-- The finite numbers
-----------------------------------------------------------------------------------------

/-- The exponent of half a unit in the last place of the greatest finite number. -/
@[irreducible]
def halfPlace : Nat := 970

/-- Half a unit in the last place of the greatest finite number. -/
def halfUnit : Nat := 2 ^ halfPlace

/-- The least whole number that no finite number is near enough to: it lies half a unit above the
greatest of them.
-/
def overflow : Nat := (2 ^ 54 - 1) * halfUnit

/-- A finite number has at most 53 significant bits and lies below `2 ^ 1024`. -/
def InRange : Binary64 → Prop
  | .finite _ m e => m ≤ 2 ^ 53 ∧ m * 2 ^ e.toNat < 2 ^ 54 * halfUnit
  | _ => True

/-- The number is neither infinite nor no number. -/
def IsFinite : Binary64 → Prop
  | .finite .. => True
  | _ => False

theorem overflow_le : overflow ≤ 10 ^ 311 := by
  have hexponent : 54 + halfPlace = 93 * 11 + 1 := by rw [halfPlace]
  calc overflow ≤ 2 ^ 54 * halfUnit := Nat.mul_le_mul_right _ (Nat.sub_le _ _)
    _ = (2 ^ 93) ^ 11 * 2 := by rw [halfUnit, ← pow_add, hexponent, pow_succ, pow_mul]
    _ ≤ (10 ^ 28) ^ 11 * 10 ^ 3 :=
        Nat.mul_le_mul (Nat.pow_le_pow_left (by norm_num) 11) (by norm_num)
    _ = 10 ^ 311 := by rw [← pow_mul, ← pow_add]

theorem natPow_1024 : Nat.pow 2 1024 = 2 ^ 54 * halfUnit := by
  have hsum : 1024 = 54 + halfPlace := by rw [halfPlace]
  rw [hsum, natPow_eq, pow_add, halfUnit]

theorem halfUnit_pos : 0 < halfUnit := pow_pos two_pos _

theorem inRange_zero (negative : Bool) : InRange (.finite negative 0 0) :=
  ⟨Nat.zero_le _, by rw [Nat.zero_mul]; exact Nat.mul_pos (by norm_num) halfUnit_pos⟩

/-- The number nearest to a ratio, if it is finite. -/
theorem ofRatio_eq (negative : Bool) {num : Nat} (hnum : 0 < num) (den : Nat)
    : ∃ m e, e = max (log2Ratio num den - 52) (-1074)
      ∧ m = roundRatio (num * Nat.pow 2 (-e).toNat) (den * Nat.pow 2 e.toNat)
      ∧ ofRatio negative num den
        = if 2 ^ 54 * halfUnit ≤ m * 2 ^ e.toNat then .infinite negative
          else .finite negative m e := by
  refine ⟨_, _, rfl, rfl, ?_⟩
  rw [ofRatio, if_neg hnum.ne', natPow_1024]
  rfl

/-- A ratio has a finite number near enough if it does not reach the overflow. -/
theorem isFinite_ofRatio_iff (negative : Bool) {num den : Nat} (hden : 0 < den)
    : (ofRatio negative num den).IsFinite ↔ num < overflow * den := by
  rcases Nat.eq_zero_or_pos num with rfl | hnum
  · rw [ofRatio, if_pos rfl]
    exact iff_of_true trivial (Nat.mul_pos (Nat.mul_pos (by norm_num) halfUnit_pos) hden)
  · obtain ⟨m, e, he, rfl, heq⟩ := ofRatio_eq negative hnum den
    rw [heq, overflow, mul_assoc, halfUnit, ← Nat.not_le,
      ← pow_le_rounded_iff hnum hden halfPlace he, ← pow_add]
    split
    · next h => exact iff_of_false id (not_not.mpr h)
    · next h => exact iff_of_true trivial h

theorem inRange_ofRatio (negative : Bool) (num : Nat) {den : Nat} (hden : 0 < den)
    : (ofRatio negative num den).InRange := by
  rcases Nat.eq_zero_or_pos num with rfl | hnum
  · rw [ofRatio, if_pos rfl]
    exact inRange_zero negative
  · obtain ⟨m, e, he, hm, heq⟩ := ofRatio_eq negative hnum den
    rw [heq]
    split
    · trivial
    · next h =>
        exact ⟨hm ▸ roundRatio_le_of_log2Ratio hnum hden (he ▸ le_max_left _ _), Nat.not_le.mp h⟩

theorem inRange_ofDecimal (negative : Bool) (significand : Nat) (scale : Int)
    : (ofDecimal negative significand scale).InRange := by
  unfold ofDecimal
  split
  · exact inRange_zero negative
  · split
    · trivial
    · split
      · exact inRange_zero negative
      · refine inRange_ofRatio _ _ ?_
        exact Nat.mul_pos (Nat.pow_pos two_pos) (Nat.pow_pos (by norm_num))

/-- A finite number does not reach the overflow. -/
theorem lt_overflow {m x : Nat} (hm : m ≤ 2 ^ 53) (h : m * 2 ^ x < 2 ^ 54 * halfUnit)
    : m * 2 ^ x < overflow := by
  rw [overflow, halfUnit]
  rw [halfUnit] at h
  generalize halfPlace = c at *
  rcases Nat.lt_or_ge c x with hx | hx
  · obtain ⟨d, rfl⟩ := Nat.exists_eq_add_of_lt hx
    have hsplit : m * 2 ^ (c + d + 1) = m * 2 ^ d * (2 * 2 ^ c) := by ring
    have hbound : 2 ^ 54 * 2 ^ c = 2 ^ 53 * (2 * 2 ^ c) := by ring
    rw [hsplit, hbound] at h
    have hle := Nat.mul_le_mul_right (2 * 2 ^ c) (Nat.le_sub_one_of_lt (Nat.lt_of_mul_lt_mul_right h))
    have hpos : 0 < 2 ^ c := by positivity
    rw [hsplit]
    refine hle.trans_lt ?_
    generalize 2 ^ c = unit at *
    omega
  · calc m * 2 ^ x ≤ 2 ^ 53 * 2 ^ c := Nat.mul_le_mul hm (Nat.pow_le_pow_right two_pos hx)
      _ < (2 ^ 54 - 1) * 2 ^ c := Nat.mul_lt_mul_of_pos_right (by norm_num) (by positivity)

/-- A decimal that lies below the overflow has a finite number near enough. -/
theorem isFinite_ofDecimal (negative : Bool) {significand places : Nat}
    (h : significand < overflow * 10 ^ places)
    : (ofDecimal negative significand (-places)).IsFinite := by
  unfold ofDecimal
  split
  · trivial
  · rw [if_neg (by omega)]
    split
    · trivial
    · have hratio : ratio significand 0 (-places) = (significand, 10 ^ places) := by
        simp [ratio]
      rw [hratio]
      exact (isFinite_ofRatio_iff negative (by positivity)).mpr h

/-- A finite number is rounded to a decimal below the overflow. -/
theorem roundRatio_lt_overflow {negative : Bool} {m : Nat} {e : Int}
    (h : InRange (.finite negative m e)) (digits : Nat)
    : roundRatio (ratio m e digits).1 (ratio m e digits).2 < overflow * 10 ^ digits := by
  have hratio : ratio m e digits = (m * 2 ^ e.toNat * 10 ^ digits, 2 ^ (-e).toNat) := by
    simp [ratio]
  rw [hratio]
  calc _ ≤ m * 2 ^ e.toNat * 10 ^ digits :=
        roundRatio_le (by positivity) (Nat.le_mul_of_pos_right _ (by positivity))
    _ < overflow * 10 ^ digits :=
        Nat.mul_lt_mul_of_pos_right (lt_overflow h.1 h.2) (by positivity)

/-- Rounding to decimal places never leads beyond the finite numbers. -/
theorem exists_roundTo? {places : Int} (hplaces : 0 ≤ places) {x : Binary64} (hx : x.InRange)
    : ∃ y, x.roundTo? places = some y := by
  cases x with
  | infinite negative => exact ⟨_, rfl⟩
  | nan => exact ⟨_, rfl⟩
  | finite negative m e =>
      obtain ⟨digits, rfl⟩ := Int.eq_ofNat_of_zero_le hplaces
      have hfinite := isFinite_ofDecimal negative (roundRatio_lt_overflow hx digits)
      rw [← Option.isSome_iff_exists, roundTo?]
      split
      · rfl
      · split
        · rfl
        · dsimp only
          split
          · next hdecimal =>
              rw [hdecimal] at hfinite
              exact hfinite.elim
          · rfl

end Binary64

/-- The counts that can be told lie below the overflow. -/
theorem isCountable_iff {n : Int} : isCountable n ↔ n.natAbs < Binary64.overflow := by
  rw [← Nat.mul_one Binary64.overflow, ← Binary64.isFinite_ofRatio_iff (n < 0) one_pos,
    isCountable, Binary64.ofQuotient]
  cases Binary64.ofRatio (n < 0) n.natAbs 1 <;> simp [Binary64.IsFinite]

end SvgKit
