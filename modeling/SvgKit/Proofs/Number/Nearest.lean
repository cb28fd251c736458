import SvgKit.Proofs.Number.Range

/-! The nearest floating point number. What is made of a decimal is the number of 64 bits that is
nearest to it, and because none is nearer, rounding to decimal places and then to the nearest floating
point number does not lose the places: rounding the result again leads to the same decimal.
-/

namespace SvgKit

-----------------------------------------------------------------------------------------
-- The nearest integer
-----------------------------------------------------------------------------------------

/-- No integer is nearer, and of two that are as near this is the even one. -/
def IsNearest (q : ℚ) (k : ℤ) : Prop := |q - k| < 1 / 2 ∨ |q - k| = 1 / 2 ∧ Even k

theorem IsNearest.le {q : ℚ} {k : ℤ} (h : IsNearest q k) : |q - k| ≤ 1 / 2 :=
  h.elim le_of_lt fun h => h.1.le

theorem IsNearest.neg {q : ℚ} {k : ℤ} (h : IsNearest q k) : IsNearest (-q) (-k) := by
  have hsymm : -q - (-k : ℤ) = -(q - k) := by push_cast; ring
  rw [IsNearest, hsymm, abs_neg, even_neg]
  exact h

/-- What lies as near to an integer as another number does that is rounded to it, is rounded to it.
-/
theorem IsNearest.of_le {q r : ℚ} {k : ℤ} (h : IsNearest q k) (hle : |r - k| ≤ |q - k|)
    : IsNearest r k := by
  rcases h with hlt | ⟨heq, heven⟩
  · exact .inl (hle.trans_lt hlt)
  · exact (heq ▸ hle).lt_or_eq.imp_right fun h => ⟨h, heven⟩

/-- Every other integer is at least as far away, and if it is not farther it is odd. -/
theorem IsNearest.le_dist {q : ℚ} {k : ℤ} (h : IsNearest q k) {l : ℤ} (hne : l ≠ k)
    : 1 / 2 ≤ |q - l| := by
  have hone : (1 : ℚ) ≤ |(k : ℚ) - l| := by
    have : (1 : ℤ) ≤ |k - l| := Int.one_le_abs (sub_ne_zero.mpr hne.symm)
    exact_mod_cast this
  have htri := abs_sub_le (k : ℚ) q l
  have hle := h.le
  rw [abs_sub_comm (k : ℚ) q] at htri
  linarith

/-- There is one nearest integer only. -/
theorem IsNearest.unique {q : ℚ} {k l : ℤ} (hk : IsNearest q k) (hl : IsNearest q l) : k = l := by
  by_contra hne
  have hkfar := hl.le_dist hne
  have hlfar := hk.le_dist (Ne.symm hne)
  obtain ⟨hkeq, hkeven⟩ := hk.resolve_left hkfar.not_gt
  obtain ⟨hleq, hleven⟩ := hl.resolve_left hlfar.not_gt
  -- Two integers half a unit away on either side are neighbours, so one of them is odd.
  have hdist : |(k : ℚ) - l| ≤ 1 := by
    have htri := abs_sub_le (k : ℚ) q l
    rw [abs_sub_comm (k : ℚ) q] at htri
    linarith
  have hle : |k - l| ≤ 1 := by exact_mod_cast hdist
  obtain ⟨a, rfl⟩ := hkeven
  obtain ⟨b, rfl⟩ := hleven
  rw [abs_le] at hle
  omega

/-- The nearest integer, of two the even one. -/
def roundEven (q : ℚ) : ℤ :=
  let k := ⌊q⌋
  if q - k < 1 / 2 then k else if 1 / 2 < q - k then k + 1 else k + k % 2

theorem isNearest_roundEven (q : ℚ) : IsNearest q (roundEven q) := by
  have hlow := Int.floor_le q
  have hhigh := Int.lt_floor_add_one q
  unfold roundEven IsNearest
  dsimp only
  generalize ⌊q⌋ = k at *
  split
  · next h => exact .inl (by rw [abs_of_nonneg (by linarith)]; exact h)
  · split
    · next h =>
        left
        push_cast
        rw [abs_of_neg (by linarith)]
        linarith
    · next hlt hgt =>
        have hhalf : q - k = 1 / 2 := le_antisymm (not_lt.mp hgt) (not_lt.mp hlt)
        rcases Int.emod_two_eq_zero_or_one k with hk | hk
        · exact .inr ⟨by rw [hk, add_zero, hhalf, abs_of_pos one_half_pos], Int.even_iff.mpr (by omega)⟩
        · refine .inr ⟨?_, Int.even_iff.mpr (by omega)⟩
          rw [hk]
          push_cast
          rw [← sub_sub, hhalf, abs_of_neg (by norm_num)]
          norm_num

theorem roundEven_eq_iff {q : ℚ} {k : ℤ} : roundEven q = k ↔ IsNearest q k :=
  ⟨fun h => h ▸ isNearest_roundEven q, fun h => (isNearest_roundEven q).unique h⟩

theorem roundEven_neg (q : ℚ) : roundEven (-q) = -roundEven q :=
  roundEven_eq_iff.mpr (isNearest_roundEven q).neg

/-- A number rounded to decimal places, of two decimals that are as near to the even one. -/
def roundPlaces (places : Nat) (q : ℚ) : ℚ := roundEven (q * 10 ^ places) / 10 ^ places

/-- A ratio of natural numbers is rounded by division with remainder. -/
theorem isNearest_roundRatio (num : Nat) {den : Nat} (hden : 0 < den)
    : IsNearest (num / den) (roundRatio num den) := by
  have hpos : (0 : ℚ) < den := Nat.cast_pos.mpr hden
  have hsum : (num : ℚ) / den - (num / den : Nat) = (num % den : Nat) / den := by
    have h : ((den * (num / den) + num % den : Nat) : ℚ) = num := by rw [Nat.div_add_mod]
    field_simp
    push_cast at h
    linarith
  have hlt : num % den < den := Nat.mod_lt num hden
  unfold roundRatio IsNearest
  dsimp only
  generalize num / den = q at *
  generalize num % den = r at *
  have hr : (0 : ℚ) ≤ r / den := by positivity
  split
  · next h =>
      left
      rw [Int.cast_natCast, hsum, abs_of_nonneg hr, div_lt_iff₀ hpos]
      have : (2 * r : ℚ) < den := by exact_mod_cast h
      linarith
  · split
    · next h =>
        left
        have hbelow : (r : ℚ) / den < 1 := by
          rw [div_lt_one hpos]
          exact_mod_cast hlt
        have hhalf : (1 / 2 : ℚ) < r / den := by
          rw [lt_div_iff₀ hpos]
          have : (den : ℚ) < 2 * r := by exact_mod_cast h
          linarith
        push_cast
        rw [← sub_sub, hsum, abs_of_neg (by linarith)]
        linarith
    · next hge hle =>
        have hhalf : (r : ℚ) / den = 1 / 2 := by
          rw [div_eq_iff hpos.ne']
          have : (2 * r : ℚ) = den := by exact_mod_cast (show 2 * r = den by omega)
          linarith
        rcases Nat.mod_two_eq_zero_or_one q with hq | hq
        · refine .inr ⟨?_, Int.even_iff.mpr (by omega)⟩
          rw [hq, add_zero, Int.cast_natCast, hsum, hhalf, abs_of_pos one_half_pos]
        · refine .inr ⟨?_, Int.even_iff.mpr (by omega)⟩
          rw [hq]
          push_cast
          rw [← sub_sub, hsum, hhalf, abs_of_neg (by norm_num)]
          norm_num

/-- Distances on a lattice are distances between integers, times the unit. -/
theorem abs_mul_sub_eq {unit : ℚ} (hunit : 0 < unit) (a x : ℚ)
    : |a * unit - x| = |x / unit - a| * unit := by
  rw [abs_sub_comm, ← abs_of_pos hunit, ← abs_mul, abs_of_pos hunit, sub_mul,
    div_mul_cancel₀ _ hunit.ne']

/-- On a lattice no point is nearer than the one that rounding leads to. -/
theorem abs_sub_le_of_isNearest {x unit : ℚ} (hunit : 0 < unit) {k : ℤ}
    (h : IsNearest (x / unit) k) (l : ℤ)
    : |k * unit - x| ≤ |l * unit - x| := by
  rw [abs_mul_sub_eq hunit, abs_mul_sub_eq hunit]
  refine mul_le_mul_of_nonneg_right ?_ hunit.le
  by_cases hne : l = k
  · rw [hne]
  · exact h.le.trans (h.le_dist hne)

namespace Binary64

-----------------------------------------------------------------------------------------
-- The nearest floating point number
-----------------------------------------------------------------------------------------

/-- A factor for the sign of a number. -/
def sign (isNegative : Bool) : ℚ := if isNegative then -1 else 1

/-- The number that a finite floating point number is. -/
def toRat? : Binary64 → Option ℚ
  | .finite negative m e => some (sign negative * (m * 2 ^ e))
  | _ => none

/-- The mantissa has at most 53 bits, and the unit is none below the least one. -/
def HasBits : Binary64 → Prop
  | .finite _ m e => m ≤ 2 ^ 53 ∧ -1074 ≤ e
  | _ => True

theorem hasBits_zero (negative : Bool) : HasBits (.finite negative 0 0) := ⟨by norm_num, by norm_num⟩

theorem hasBits_ofRatio (negative : Bool) (num : Nat) {den : Nat} (hden : 0 < den)
    : (ofRatio negative num den).HasBits := by
  rcases Nat.eq_zero_or_pos num with rfl | hnum
  · rw [ofRatio, if_pos rfl]
    exact hasBits_zero negative
  · obtain ⟨m, e, he, hm, heq⟩ := ofRatio_eq negative hnum den
    rw [heq]
    split
    · trivial
    · exact ⟨hm ▸ roundRatio_le_of_log2Ratio hnum hden (he ▸ le_max_left _ _), he ▸ le_max_right _ _⟩

theorem hasBits_ofDecimal (negative : Bool) (significand : Nat) (scale : Int)
    : (ofDecimal negative significand scale).HasBits := by
  unfold ofDecimal
  split
  · exact hasBits_zero negative
  · split
    · trivial
    · split
      · exact hasBits_zero negative
      · refine hasBits_ofRatio _ _ ?_
        exact Nat.mul_pos (Nat.pow_pos two_pos) (Nat.pow_pos (by norm_num))

/-- The mantissa of the number nearest to a ratio is the nearest one for its unit. -/
theorem isNearest_mantissa (num : Nat) {den : Nat} (hden : 0 < den) (e : Int)
    : IsNearest (num / den / 2 ^ e)
      (roundRatio (num * Nat.pow 2 (-e).toNat) (den * Nat.pow 2 e.toNat)) := by
  have hscale : (num : ℚ) / den / 2 ^ e
      = (num * Nat.pow 2 (-e).toNat : Nat) / (den * Nat.pow 2 e.toNat : Nat) := by
    have hpos : (0 : ℚ) < den := Nat.cast_pos.mpr hden
    rw [natPow_eq, natPow_eq]
    push_cast
    rw [pow_toNat e]
    field_simp
  rw [hscale]
  exact isNearest_roundRatio _ (Nat.mul_pos hden (Nat.pow_pos two_pos))

section Bits

variable {num den : Nat} (hnum : 0 < num) (hden : 0 < den) {e : Int}
  (he : e = max (log2Ratio num den - 52) (-1074)) {m' : Nat} {e' : Int} (hm' : m' ≤ 2 ^ 53)
  (he' : -1074 ≤ e')
include hnum hden he hm' he'

/-- A number of 53 bits is a multiple of the unit of the one that is made of a ratio, or it is
farther from the ratio, because with a smaller unit it lies below a power of two that is not above
the ratio.
-/
theorem exists_multiple_or_lt
    : (∃ l : ℤ, (m' : ℚ) * 2 ^ e' = l * 2 ^ e)
      ∨ |(roundRatio (num * Nat.pow 2 (-e).toNat) (den * Nat.pow 2 e.toNat) : ℚ) * 2 ^ e
          - num / den|
        < |(m' : ℚ) * 2 ^ e' - num / den| := by
  have hunit : (0 : ℚ) < 2 ^ e := by positivity
  have hbest := abs_sub_le_of_isNearest hunit (isNearest_mantissa num hden e)
  rw [Int.cast_natCast] at hbest
  rcases le_or_gt e e' with hle | hlt
  · refine .inl ⟨m' * 2 ^ (e' - e).toNat, ?_⟩
    push_cast
    rw [mul_assoc, ← zpow_natCast, Int.toNat_of_nonneg (by omega), ← zpow_add₀ two_ne_zero,
      sub_add_cancel]
  · have hpos : (0 : ℚ) < den := Nat.cast_pos.mpr hden
    have hlog : e = log2Ratio num den - 52 := by omega
    have hpower : ((2 ^ 52 : Int) : ℚ) * 2 ^ e ≤ num / den := by
      rw [le_div_iff₀ hpos]
      calc ((2 ^ 52 : Int) : ℚ) * 2 ^ e * den = den * 2 ^ log2Ratio num den := by
            rw [hlog, zpow_sub₀ two_ne_zero]
            push_cast
            field_simp
        _ ≤ num := (log2Ratio_bounds hnum hden).1
    have hbelow : (m' : ℚ) * 2 ^ e' ≤ ((2 ^ 52 : Int) : ℚ) * 2 ^ e := by
      calc (m' : ℚ) * 2 ^ e' ≤ 2 ^ 53 * 2 ^ (e - 1) := by
            gcongr
            · exact_mod_cast hm'
            · exact one_le_two
            · omega
        _ = ((2 ^ 52 : Int) : ℚ) * 2 ^ e := by
            rw [zpow_sub_one₀ two_ne_zero]
            push_cast
            ring
    rcases hbelow.eq_or_lt with heq | hlt
    · exact .inl ⟨_, heq⟩
    · refine .inr ((hbest (2 ^ 52)).trans_lt ?_)
      rw [abs_of_nonpos (sub_nonpos.mpr hpower),
        abs_of_nonpos (sub_nonpos.mpr (hbelow.trans hpower))]
      exact neg_lt_neg (sub_lt_sub_right hlt _)

/-- No number of 53 bits is nearer to a ratio than the one that is made of it. -/
theorem abs_sub_le_of_bits
    : |(roundRatio (num * Nat.pow 2 (-e).toNat) (den * Nat.pow 2 e.toNat) : ℚ) * 2 ^ e - num / den|
      ≤ |(m' : ℚ) * 2 ^ e' - num / den| := by
  rcases exists_multiple_or_lt hnum hden he hm' he' with ⟨l, hl⟩ | hlt
  · have hbest := abs_sub_le_of_isNearest (by positivity) (isNearest_mantissa num hden e) l
    rwa [Int.cast_natCast, ← hl] at hbest
  · exact hlt.le

/-- If another number of 53 bits is as near to a ratio, the mantissa of the one that is made of it
is even.
-/
theorem even_of_bits
    (heq : |(m' : ℚ) * 2 ^ e' - num / den|
      = |(roundRatio (num * Nat.pow 2 (-e).toNat) (den * Nat.pow 2 e.toNat) : ℚ) * 2 ^ e
          - num / den|)
    : (m' : ℚ) * 2 ^ e'
        = (roundRatio (num * Nat.pow 2 (-e).toNat) (den * Nat.pow 2 e.toNat) : ℚ) * 2 ^ e
      ∨ Even (roundRatio (num * Nat.pow 2 (-e).toNat) (den * Nat.pow 2 e.toNat)) := by
  have hunit : (0 : ℚ) < 2 ^ e := by positivity
  have hnearest := isNearest_mantissa num hden e
  rcases exists_multiple_or_lt hnum hden he hm' he' with ⟨l, hl⟩ | hlt
  · rw [hl] at heq ⊢
    generalize roundRatio _ _ = m at *
    by_cases hlm : l = m
    · exact .inl (by rw [hlm, Int.cast_natCast])
    · have hscale (a : ℚ) : |a * 2 ^ e - num / den| = |num / den / 2 ^ e - a| * 2 ^ e :=
        abs_mul_sub_eq hunit _ _
      rw [hscale, hscale, mul_right_cancel_iff_of_pos hunit] at heq
      have hfar := hnearest.le_dist hlm
      rw [heq] at hfar
      exact .inr ((Int.even_coe_nat _).mp (hnearest.resolve_left hfar.not_gt).2)
  · exact absurd heq hlt.ne'

end Bits

/-- The number is the nearest one to a rational number. No number of 53 bits is nearer than a finite
one, and if another one is as near, its mantissa is even; and what is nearest to an infinite one lies
beyond all finite numbers.
-/
def IsClosest (q : ℚ) : Binary64 → Prop
  | .finite negative m e =>
    ∀ y r, HasBits y → y.toRat? = some r
      → |sign negative * (m * 2 ^ e) - q| ≤ |r - q|
        ∧ (|r - q| = |sign negative * (m * 2 ^ e) - q| → r = sign negative * (m * 2 ^ e) ∨ Even m)
  | .infinite negative => overflow ≤ sign negative * q
  | .nan => False

theorem sign_mul_sign (isNegative : Bool) (a : ℚ)
    : sign isNegative * (sign isNegative * a) = a := by
  cases isNegative <;> simp [sign]

theorem abs_sign_mul_sub (isNegative : Bool) (a b : ℚ)
    : |sign isNegative * a - sign isNegative * b| = |a - b| := by
  have hsign : |sign isNegative| = 1 := by cases isNegative <;> simp [sign]
  rw [← mul_sub, abs_mul, hsign, one_mul]

/-- It is enough to compare a number with those of its own sign, because zero is nearer than any of
the other ones.
-/
theorem isClosest_finite (negative : Bool) {m : Nat} {e : Int} {q : ℚ} (hq : 0 ≤ q)
    (h : ∀ (m' : Nat) (e' : Int), m' ≤ 2 ^ 53 → -1074 ≤ e'
      → |(m : ℚ) * 2 ^ e - q| ≤ |(m' : ℚ) * 2 ^ e' - q|
        ∧ (|(m' : ℚ) * 2 ^ e' - q| = |(m : ℚ) * 2 ^ e - q|
          → (m' : ℚ) * 2 ^ e' = m * 2 ^ e ∨ Even m))
    : IsClosest (sign negative * q) (.finite negative m e) := by
  intro y r hbits hr
  cases y with
  | infinite => cases hr
  | nan => cases hr
  | finite negative' m' e' =>
      cases hr
      by_cases hsame : negative' = negative
      · subst hsame
        obtain ⟨hle, heven⟩ := h m' e' hbits.1 hbits.2
        rw [abs_sign_mul_sub, abs_sign_mul_sub]
        exact ⟨hle, fun heq => (heven heq).imp_left (congrArg (sign negative' * ·))⟩
      · have hother : sign negative' = -sign negative := by
          cases negative' <;> cases negative <;> simp_all [sign]
        have hmagnitude : (0 : ℚ) ≤ m' * 2 ^ e' := by positivity
        have hfar : |sign negative' * (m' * 2 ^ e') - sign negative * q| = m' * 2 ^ e' + q := by
          have hsum : sign negative' * (m' * 2 ^ e') - sign negative * q
              = sign negative * -(m' * 2 ^ e') - sign negative * q := by
            rw [hother]
            ring
          rw [hsum, abs_sign_mul_sub, abs_of_nonpos (by linarith)]
          ring
        obtain ⟨hle, heven⟩ := h 0 0 (Nat.zero_le _) (by norm_num)
        rw [Nat.cast_zero, zero_mul, zero_sub, abs_neg, abs_of_nonneg hq] at hle heven
        rw [hfar, abs_sign_mul_sub]
        refine ⟨by linarith, fun heq => ?_⟩
        have hzero : (m' : ℚ) * 2 ^ e' = 0 := by linarith
        rw [hzero, zero_add] at heq
        rw [hzero, mul_zero]
        exact (heven heq).imp_left fun hv => by rw [← hv, mul_zero]

/-- Zero is nearest to what is less than half of the least unit. -/
theorem isClosest_zero (negative : Bool) {q : ℚ} (hq : 0 ≤ q) (hsmall : q < 2 ^ (-1075 : ℤ))
    : IsClosest (sign negative * q) (.finite negative 0 0) := by
  refine isClosest_finite negative hq fun m' e' _ he' => ⟨?_, fun _ => .inr ⟨0, rfl⟩⟩
  rw [Nat.cast_zero, zero_mul, zero_sub, abs_neg, abs_of_nonneg hq]
  rcases Nat.eq_zero_or_pos m' with rfl | hm'
  · rw [Nat.cast_zero, zero_mul, zero_sub, abs_neg, abs_of_nonneg hq]
  · have hone : (1 : ℚ) ≤ m' := by exact_mod_cast hm'
    have hunit : (2 : ℚ) * 2 ^ (-1075 : ℤ) ≤ m' * 2 ^ e' := by
      calc (2 : ℚ) * 2 ^ (-1075 : ℤ) = 2 ^ (-1074 : ℤ) := by
            rw [← zpow_one_add₀ two_ne_zero]
            norm_num
        _ ≤ 2 ^ e' := zpow_le_zpow_right₀ one_le_two he'
        _ ≤ m' * 2 ^ e' := le_mul_of_one_le_left (by positivity) hone
    rw [abs_of_nonneg (by linarith)]
    linarith

theorem isClosest_ofRatio (negative : Bool) (num : Nat) {den : Nat} (hden : 0 < den)
    : IsClosest (sign negative * (num / den)) (ofRatio negative num den) := by
  rcases Nat.eq_zero_or_pos num with rfl | hnum
  · rw [ofRatio, if_pos rfl, Nat.cast_zero, zero_div]
    exact isClosest_zero negative le_rfl (by positivity)
  · have hfinite : (ofRatio negative num den).IsFinite ↔ num < overflow * den :=
      isFinite_ofRatio_iff negative hden
    obtain ⟨m, e, he, hm, heq⟩ := ofRatio_eq negative hnum den
    rw [heq] at hfinite ⊢
    split
    · next hlarge =>
        rw [if_pos hlarge] at hfinite
        have hle := not_lt.mp (hfinite.not.mp id)
        rw [IsClosest, sign_mul_sign, le_div_iff₀ (Nat.cast_pos.mpr hden)]
        exact_mod_cast hle
    · refine isClosest_finite negative (by positivity) fun m' e' hm' he' => ?_
      rw [hm]
      exact ⟨abs_sub_le_of_bits hnum hden he hm' he', even_of_bits hnum hden he hm' he'⟩

/-- Half of the least unit is not below the powers of ten that are settled as zero. -/
theorem ten_zpow_lt : (10 : ℚ) ^ (-331 : ℤ) < 2 ^ (-1075 : ℤ) := by
  have hpow : (2 : ℚ) ^ 1075 < 10 ^ 331 := by
    calc (2 : ℚ) ^ 1075 = (2 ^ 215) ^ 5 := by rw [← pow_mul]
      _ < (10 ^ 65) ^ 5 := by
          gcongr
          norm_num
      _ ≤ 10 ^ 331 := by
          rw [← pow_mul]
          exact pow_le_pow_right₀ (by norm_num) (by norm_num)
  rw [zpow_neg, zpow_neg, inv_lt_inv₀ (by positivity) (by positivity)]
  exact hpow

/-- The numbers that are settled without computing the power are settled right. -/
theorem isClosest_ofDecimal (negative : Bool) (significand : Nat) (scale : Int)
    : IsClosest (sign negative * (significand * 10 ^ scale))
      (ofDecimal negative significand scale) := by
  unfold ofDecimal
  split
  · next hzero =>
      rw [hzero, Nat.cast_zero, zero_mul]
      exact isClosest_zero negative le_rfl (by positivity)
  · next hne =>
      split
      · next hlarge =>
          have hone : (1 : ℚ) ≤ significand := by exact_mod_cast Nat.one_le_iff_ne_zero.mpr hne
          rw [IsClosest, sign_mul_sign]
          calc (overflow : ℚ) ≤ 10 ^ (311 : ℤ) := by exact_mod_cast overflow_le
            _ ≤ 10 ^ scale := zpow_le_zpow_right₀ (by norm_num) (by omega)
            _ ≤ significand * 10 ^ scale := le_mul_of_one_le_left (by positivity) hone
      · split
        · next hsmall =>
            refine isClosest_zero negative (by positivity) ?_
            have hlog : (significand : ℚ) < 10 ^ ((Nat.log2 significand : ℤ) + 1) := by
              have hlt : (significand : ℚ) < 2 ^ (Nat.log2 significand + 1) := by
                exact_mod_cast Nat.lt_log2_self
              refine hlt.trans_le ?_
              rw [← Nat.cast_succ, zpow_natCast]
              gcongr
              norm_num
            calc (significand : ℚ) * 10 ^ scale
                < 10 ^ ((Nat.log2 significand : ℤ) + 1) * 10 ^ scale := by gcongr
              _ = 10 ^ ((Nat.log2 significand : ℤ) + 1 + scale) :=
                  (zpow_add₀ (by norm_num) _ _).symm
              _ ≤ 10 ^ (-331 : ℤ) := zpow_le_zpow_right₀ (by norm_num) (by omega)
              _ < 2 ^ (-1075 : ℤ) := ten_zpow_lt
        · dsimp only
          have hratio : ratio significand 0 scale
              = (significand * 10 ^ scale.toNat, 10 ^ (-scale).toNat) := by
            simp [ratio]
          have hvalue : (significand : ℚ) * 10 ^ scale
              = (significand * 10 ^ scale.toNat : Nat) / (10 ^ (-scale).toNat : Nat) := by
            push_cast
            rw [zpow_toNat (by norm_num) scale]
            field_simp
          rw [hratio, hvalue]
          exact isClosest_ofRatio negative _ (by positivity)

/-- The number is one of 64 bits, and of those it is the nearest one to a rational number. -/
structure IsRounded (q : ℚ) (x : Binary64) : Prop where
  hasBits : x.HasBits
  inRange : x.InRange
  isClosest : x.IsClosest q

theorem isRounded_ofDecimal (negative : Bool) (significand : Nat) (scale : Int)
    : IsRounded (sign negative * (significand * 10 ^ scale)) (ofDecimal negative significand scale) :=
  ⟨hasBits_ofDecimal _ _ _, inRange_ofDecimal _ _ _, isClosest_ofDecimal _ _ _⟩

-----------------------------------------------------------------------------------------
-- Decimal places
-----------------------------------------------------------------------------------------

/-- A number times a power of ten, rounded to the nearest integer. -/
def scaled (places m : Nat) (e : Int) : Nat :=
  roundRatio (ratio m e places).1 (ratio m e places).2

theorem isNearest_scaled (places m : Nat) (e : Int)
    : IsNearest (m * 2 ^ e * 10 ^ places) (scaled places m e) := by
  have hratio : ratio m e places = (m * 2 ^ e.toNat * 10 ^ places, 2 ^ (-e).toNat) := by
    simp [ratio]
  have hvalue : (m : ℚ) * 2 ^ e * 10 ^ places
      = ((m * 2 ^ e.toNat * 10 ^ places : Nat) : ℚ) / (2 ^ (-e).toNat : Nat) := by
    push_cast
    rw [pow_toNat e]
    field_simp
  rw [hvalue, scaled, hratio]
  exact isNearest_roundRatio _ (by positivity)

theorem roundPlaces_eq_scaled (places : Nat) (negative : Bool) (m : Nat) (e : Int)
    : roundPlaces places (sign negative * (m * 2 ^ e))
      = sign negative * (scaled places m e / 10 ^ places) := by
  have hround := roundEven_eq_iff.mpr (isNearest_scaled places m e)
  cases negative with
  | false => rw [sign, if_neg Bool.false_ne_true, one_mul, one_mul, roundPlaces, hround]; rfl
  | true =>
      rw [sign, if_pos rfl, neg_one_mul, neg_one_mul, roundPlaces, neg_mul, roundEven_neg, hround]
      push_cast
      rw [neg_div]

/-- A decimal that is not too great has a finite number of its sign. -/
theorem ofDecimal_cases (negative : Bool) (significand : Nat) (scale : Int)
    : (∃ m e, ofDecimal negative significand scale = .finite negative m e)
      ∨ ofDecimal negative significand scale = .infinite negative := by
  unfold ofDecimal
  split
  · exact .inl ⟨_, _, rfl⟩
  · split
    · exact .inr rfl
    · split
      · exact .inl ⟨_, _, rfl⟩
      · dsimp only
        unfold ofRatio
        split
        · exact .inl ⟨_, _, rfl⟩
        · dsimp only
          split
          · exact .inr rfl
          · exact .inl ⟨_, _, rfl⟩

/-- A decimal is not changed by going to the nearest floating point number and rounding that to the
same places, because a floating point number is already as near to it.
-/
theorem scaled_of_isClosest {places m m' : Nat} {e e' : Int} {negative : Bool}
    (hbits : HasBits (.finite negative m e))
    (h : IsClosest (sign negative * (scaled places m e / 10 ^ places)) (.finite negative m' e'))
    : scaled places m' e' = scaled places m e := by
  have hbest := (h (.finite negative m e) _ hbits rfl).1
  rw [abs_sign_mul_sub, abs_sign_mul_sub] at hbest
  have hnearest := isNearest_scaled places m e
  generalize scaled places m e = k at *
  have hscale (y : ℚ) : |y * 10 ^ places - (k : Int)| = |y - k / 10 ^ places| * 10 ^ places := by
    have hpos : (0 : ℚ) < 10 ^ places := by positivity
    rw [← abs_of_pos hpos, ← abs_mul, abs_of_pos hpos, sub_mul, div_mul_cancel₀ _ hpos.ne',
      Int.cast_natCast]
  have hle : |(m' : ℚ) * 2 ^ e' * 10 ^ places - (k : Int)|
      ≤ |(m : ℚ) * 2 ^ e * 10 ^ places - (k : Int)| := by
    rw [hscale, hscale]
    exact mul_le_mul_of_nonneg_right hbest (by positivity)
  exact Int.ofNat_inj.mp ((isNearest_scaled places m' e').unique (hnearest.of_le hle))

/-- Rounding a finite number to decimal places leads to one that is rounded to the same decimal. -/
theorem exists_roundTo?_finite (places : Nat) {negative : Bool} {m : Nat} {e : Int}
    (hrange : InRange (.finite negative m e)) (hbits : HasBits (.finite negative m e))
    : ∃ m' e', roundTo? places (.finite negative m e) = some (.finite negative m' e')
      ∧ scaled places m' e' = scaled places m e := by
  obtain ⟨y, hy⟩ := exists_roundTo? (Int.natCast_nonneg places) hrange
  rw [hy]
  rw [roundTo?] at hy
  split at hy
  · cases hy
    exact ⟨m, e, rfl, rfl⟩
  · rw [if_neg (by omega)] at hy
    dsimp only at hy
    have hclosest := isClosest_ofDecimal negative (scaled places m e) (-places)
    rw [zpow_neg, zpow_natCast, ← div_eq_mul_inv] at hclosest
    rcases ofDecimal_cases negative (scaled places m e) (-places) with ⟨m', e', hdecimal⟩ | hinfinite
    · rw [← scaled, hdecimal] at hy
      cases hy
      rw [hdecimal] at hclosest
      exact ⟨m', e', rfl, scaled_of_isClosest hbits hclosest⟩
    · rw [← scaled, hinfinite] at hy
      cases hy

end Binary64

end SvgKit
