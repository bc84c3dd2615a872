import Mathlib.Data.Int.Log
import Mathlib.Data.Rat.Floor
import Simorgh.Lib.Int64

/-!
# float64 by its exact values

A float64 is the rational it stands for.  An operation on two of them is the
exact operation followed by `float64`, which rounds to 53 significant bits, ties
to even.  Infinities, NaNs and the sign of zero are not represented.
-/

namespace Simorgh.Lib

/-- Nearest integer, ties to even. -/
def roundEven (q : ℚ) : ℤ :=
  if q - ⌊q⌋ < 1 / 2 then ⌊q⌋
  else if 1 / 2 < q - ⌊q⌋ then ⌊q⌋ + 1
  else if ⌊q⌋ % 2 = 0 then ⌊q⌋ else ⌊q⌋ + 1

/-- The float64 nearest to a number: 53 significant bits, ties to even. -/
def float64 (q : ℚ) : ℚ :=
  let e := max (Int.log 2 |q| - 52) (-1074)
  roundEven (q / 2 ^ e) * 2 ^ e

theorem roundEven_le {q : ℚ} {n : ℤ} (h : q ≤ n) : roundEven q ≤ n := by
  have hfloor : ⌊q⌋ ≤ n := Int.floor_le_iff.2 (by linarith)
  unfold roundEven
  split
  · exact hfloor
  case isFalse hhalf =>
    have hlt : ⌊q⌋ < n := by
      have hq : (⌊q⌋ : ℚ) < n := by linarith
      exact_mod_cast hq
    split
    · omega
    · split <;> omega

theorem roundEven_nonneg {q : ℚ} (h : 0 ≤ q) : 0 ≤ roundEven q := by
  have hfloor : 0 ≤ ⌊q⌋ := Int.floor_nonneg.2 h
  unfold roundEven
  split
  · exact hfloor
  · split
    · omega
    · split <;> omega

theorem float64_nonneg {q : ℚ} (h : 0 ≤ q) : 0 ≤ float64 q := by
  unfold float64
  have hdiv : 0 ≤ q / 2 ^ max (Int.log 2 |q| - 52) (-1074) := div_nonneg h (zpow_nonneg (by norm_num) _)
  have hround : (0 : ℚ) ≤ roundEven (q / 2 ^ max (Int.log 2 |q| - 52) (-1074)) := by
    exact_mod_cast roundEven_nonneg hdiv
  exact mul_nonneg hround (zpow_nonneg (by norm_num) _)

/-- Rounding does not pass an integer below `2^53`. -/
theorem float64_le_natCast {q : ℚ} {m : ℕ} (hq : 0 ≤ q) (hle : q ≤ m) (hm : m < 2 ^ 53) :
    float64 q ≤ m := by
  have hexp : max (Int.log 2 |q| - 52) (-1074) ≤ 0 := by
    rw [max_le_iff]
    refine ⟨?_, by decide⟩
    rcases eq_or_lt_of_le hq with rfl | hpos
    · simp
    · have hlt : |q| < (2 : ℚ) ^ (53 : ℤ) := by
        rw [abs_of_nonneg hq]
        have : (m : ℚ) < 2 ^ 53 := by exact_mod_cast hm
        calc q ≤ m := hle
          _ < 2 ^ 53 := this
          _ = (2 : ℚ) ^ (53 : ℤ) := by norm_num
      have hlog : Int.log 2 |q| < 53 :=
        (Int.lt_zpow_iff_log_lt (by decide) (abs_pos.2 hpos.ne')).1 (by exact_mod_cast hlt)
      omega
  obtain ⟨k, hk⟩ : ∃ k : ℕ, max (Int.log 2 |q| - 52) (-1074) = -(k : ℤ) :=
    ⟨(-max (Int.log 2 |q| - 52) (-1074)).toNat, by omega⟩
  have hpow : (0 : ℚ) < 2 ^ k := by positivity
  simp only [float64, hk, zpow_neg, zpow_natCast, div_inv_eq_mul]
  have hscaled : q * 2 ^ k ≤ ((m * 2 ^ k : ℕ) : ℤ) := by
    push_cast
    exact mul_le_mul_of_nonneg_right hle hpow.le
  have hround : (roundEven (q * 2 ^ k) : ℚ) ≤ m * 2 ^ k := by
    have := roundEven_le hscaled
    exact_mod_cast this
  calc (roundEven (q * 2 ^ k) : ℚ) * (2 ^ k)⁻¹ ≤ m * 2 ^ k * (2 ^ k)⁻¹ :=
        mul_le_mul_of_nonneg_right hround (inv_nonneg.2 hpow.le)
    _ = m := mul_inv_cancel_right₀ hpow.ne' _

theorem le_roundEven {q : ℚ} {n : ℤ} (h : (n : ℚ) ≤ q) : n ≤ roundEven q := by
  have hfloor : n ≤ ⌊q⌋ := Int.le_floor.2 h
  unfold roundEven
  split
  · exact hfloor
  · split
    · omega
    · split <;> omega

theorem roundEven_intCast (n : ℤ) : roundEven n = n :=
  le_antisymm (roundEven_le le_rfl) (le_roundEven le_rfl)

/-- What is less than half above an integer is not rounded past it. -/
theorem roundEven_le_of_lt {q : ℚ} {n : ℤ} (h : q < n + 1 / 2) : roundEven q ≤ n := by
  unfold roundEven
  split
  case isTrue hhalf =>
    have hlt : ((⌊q⌋ : ℤ) : ℚ) < n + 1 := by
      have hle := Int.floor_le q
      linarith
    have hint : ⌊q⌋ < n + 1 := by exact_mod_cast hlt
    omega
  case isFalse hhalf =>
    have hlt : ((⌊q⌋ : ℤ) : ℚ) < n := by linarith
    have hint : ⌊q⌋ < n := by exact_mod_cast hlt
    split
    · omega
    · split <;> omega

theorem le_roundEven_of_lt {q : ℚ} {n : ℤ} (h : (n : ℚ) - 1 / 2 < q) : n ≤ roundEven q := by
  have hlt : (n : ℚ) - 1 < (⌊q⌋ : ℤ) + (1 / 2 : ℚ) := by
    have hfloor := Int.lt_floor_add_one q
    linarith
  unfold roundEven
  split
  case isTrue hhalf =>
    have hlt : (n : ℚ) < (⌊q⌋ : ℤ) + 1 := by linarith
    have hint : n < ⌊q⌋ + 1 := by exact_mod_cast hlt
    omega
  case isFalse hhalf =>
    have hle : n ≤ ⌊q⌋ + 1 := by
      have hfloor := Int.lt_floor_add_one q
      have hq : (n : ℚ) < ((⌊q⌋ + 2 : ℤ) : ℚ) := by
        push_cast
        linarith
      have hint : n < ⌊q⌋ + 2 := by exact_mod_cast hq
      omega
    split
    · exact hle
    case isFalse hupper =>
      have hq : (n : ℚ) < ((⌊q⌋ + 1 : ℤ) : ℚ) := by
        push_cast
        linarith
      have hint : n < ⌊q⌋ + 1 := by exact_mod_cast hq
      split <;> omega

theorem sub_half_le_roundEven (q : ℚ) : q - 1 / 2 ≤ roundEven q := by
  have hlt := Int.lt_floor_add_one q
  unfold roundEven
  split
  · linarith
  · split
    · push_cast
      linarith
    · split
      · linarith
      · push_cast
        linarith

theorem roundEven_le_two_mul {q : ℚ} (h : 0 ≤ q) : (roundEven q : ℚ) ≤ 2 * q := by
  have hle := Int.floor_le q
  have hfloor : (0 : ℚ) ≤ (⌊q⌋ : ℤ) := by exact_mod_cast Int.floor_nonneg.2 h
  unfold roundEven
  split
  · linarith
  · split
    · push_cast
      linarith
    case isFalse hlow hhigh =>
      have hhalf : q - ⌊q⌋ = 1 / 2 := le_antisymm (not_lt.1 hhigh) (not_lt.1 hlow)
      split
      · linarith
      · push_cast
        linarith

/-- Rounding takes at most one part in `2^53` of a normal number away. -/
theorem le_float64 {q : ℚ} (h : q = 0 ∨ 2 ^ (-1022 : ℤ) ≤ q) : q * (1 - 1 / 2 ^ 53) ≤ float64 q := by
  rcases h with rfl | h
  · rw [zero_mul]
    exact float64_nonneg le_rfl
  have hpos : 0 < q := lt_of_lt_of_le (zpow_pos (by norm_num) _) h
  have hlog : -1022 ≤ Int.log 2 |q| := by
    rw [abs_of_pos hpos]
    exact (Int.zpow_le_iff_le_log (by decide) hpos).1 (by exact_mod_cast h)
  have hunit : (2 : ℚ) ^ (Int.log 2 |q| - 52) ≤ q / 2 ^ 52 := by
    have hle : (2 : ℚ) ^ Int.log 2 |q| ≤ q := by
      rw [abs_of_pos hpos]
      exact_mod_cast Int.zpow_log_le_self (b := 2) (by decide) hpos
    rw [zpow_sub₀ (by norm_num)]
    exact div_le_div_of_nonneg_right hle (by positivity)
  unfold float64
  simp only [max_eq_left (by omega : (-1074 : ℤ) ≤ Int.log 2 |q| - 52)]
  generalize (Int.log 2 |q| - 52) = e at hunit
  have hscale : (0 : ℚ) < 2 ^ e := zpow_pos (by norm_num) e
  have hround := mul_le_mul_of_nonneg_right (sub_half_le_roundEven (q / 2 ^ e)) hscale.le
  rw [sub_mul, div_mul_cancel₀ _ hscale.ne'] at hround
  linarith

theorem float64_le_two_mul {q : ℚ} (h : 0 ≤ q) : float64 q ≤ 2 * q := by
  unfold float64
  simp only
  generalize max (Int.log 2 |q| - 52) (-1074) = e
  have hscale : (0 : ℚ) < 2 ^ e := zpow_pos (by norm_num) e
  have hround := mul_le_mul_of_nonneg_right (roundEven_le_two_mul (div_nonneg h hscale.le)) hscale.le
  rwa [mul_assoc, div_mul_cancel₀ _ hscale.ne'] at hround

theorem float64_nonpos {q : ℚ} (h : q ≤ 0) : float64 q ≤ 0 := by
  unfold float64
  have hscale : (0 : ℚ) < 2 ^ max (Int.log 2 |q| - 52) (-1074) := zpow_pos (by norm_num) _
  have hround : roundEven (q / 2 ^ max (Int.log 2 |q| - 52) (-1074)) ≤ 0 :=
    roundEven_le (by rw [Int.cast_zero]; exact div_nonpos_of_nonpos_of_nonneg h hscale.le)
  exact mul_nonpos_of_nonpos_of_nonneg (by exact_mod_cast hround) hscale.le

theorem float64_zero : float64 0 = 0 := by
  unfold float64
  simp only [zero_div]
  rw [← Int.cast_zero, roundEven_intCast, Int.cast_zero, zero_mul]

/-- Rounding does not pass a power of two. -/
theorem float64_le_zpow {q : ℚ} {k : ℤ} (hq : 0 ≤ q) (hle : q ≤ 2 ^ k) (hk : -1074 ≤ k) : float64 q ≤ 2 ^ k := by
  rcases eq_or_lt_of_le hq with rfl | hpos
  · rw [float64_zero]
    positivity
  have hlog : Int.log 2 |q| ≤ k := by
    rw [abs_of_pos hpos]
    have hpow : Int.log 2 q ≤ Int.log 2 ((2 : ℕ) ^ k : ℚ) := Int.log_mono_right hpos (by exact_mod_cast hle)
    rwa [Int.log_zpow (by decide)] at hpow
  have hexp : max (Int.log 2 |q| - 52) (-1074) ≤ k := by
    rw [max_le_iff]
    exact ⟨by omega, hk⟩
  obtain ⟨j, hj⟩ : ∃ j : ℕ, k = max (Int.log 2 |q| - 52) (-1074) + j :=
    ⟨(k - max (Int.log 2 |q| - 52) (-1074)).toNat, by omega⟩
  unfold float64
  simp only
  generalize max (Int.log 2 |q| - 52) (-1074) = e at hj
  have hscale : (0 : ℚ) < 2 ^ e := zpow_pos (by norm_num) e
  have hsplit : (2 : ℚ) ^ k = ((2 ^ j : ℕ) : ℤ) * 2 ^ e := by
    rw [hj, zpow_add₀ (by norm_num), zpow_natCast, mul_comm]
    push_cast
    rfl
  rw [hsplit] at hle ⊢
  have hround : roundEven (q / 2 ^ e) ≤ ((2 ^ j : ℕ) : ℤ) := roundEven_le ((div_le_iff₀ hscale).2 hle)
  exact mul_le_mul_of_nonneg_right (by exact_mod_cast hround) hscale.le

/-- A number of 53 bits is its own float64. -/
theorem float64_of_lt {m e : ℤ} (hm : |m| < 2 ^ 53) (he : -1074 ≤ e) : float64 (m * 2 ^ e) = m * 2 ^ e := by
  rcases eq_or_ne m 0 with rfl | hne
  · rw [Int.cast_zero, zero_mul, float64_zero]
  have htwo : (2 : ℚ) ≠ 0 := by norm_num
  have hexp : max (Int.log 2 |(m : ℚ) * 2 ^ e| - 52) (-1074) ≤ e := by
    refine max_le ?_ he
    have hpos : 0 < |(m : ℚ) * 2 ^ e| := abs_pos.2 (mul_ne_zero (by exact_mod_cast hne) (zpow_ne_zero e htwo))
    have hlt : |(m : ℚ) * 2 ^ e| < (2 : ℚ) ^ (53 + e) := by
      rw [abs_mul, abs_of_pos (zpow_pos (by norm_num : (0 : ℚ) < 2) e), zpow_add₀ htwo]
      have hcast : |(m : ℚ)| < 2 ^ (53 : ℤ) := by exact_mod_cast hm
      exact mul_lt_mul_of_pos_right hcast (zpow_pos (by norm_num) e)
    have hlog : Int.log 2 |(m : ℚ) * 2 ^ e| < 53 + e :=
      (Int.lt_zpow_iff_log_lt (by decide) hpos).1 (by exact_mod_cast hlt)
    omega
  obtain ⟨k, hk⟩ : ∃ k : ℕ, e = max (Int.log 2 |(m : ℚ) * 2 ^ e| - 52) (-1074) + k :=
    ⟨(e - max (Int.log 2 |(m : ℚ) * 2 ^ e| - 52) (-1074)).toNat, by omega⟩
  unfold float64
  simp only
  generalize max (Int.log 2 |(m : ℚ) * 2 ^ e| - 52) (-1074) = d at hk
  have hquot : (m : ℚ) * 2 ^ e / 2 ^ d = ((m * 2 ^ k : ℤ) : ℚ) := by
    rw [hk, zpow_add₀ htwo, zpow_natCast]
    field_simp
    push_cast
    ring
  rw [hquot, roundEven_intCast, ← hquot, div_mul_cancel₀ _ (zpow_ne_zero d htwo)]

/-- Rounding keeps to 53 bits, or gives the power of two after them. -/
theorem abs_roundEven_le (q : ℚ) :
    |roundEven (q / 2 ^ max (Int.log 2 |q| - 52) (-1074))| ≤ 2 ^ 53 := by
  have hpow : (0 : ℚ) < 2 ^ max (Int.log 2 |q| - 52) (-1074) := zpow_pos (by norm_num) _
  have hlt : |q / 2 ^ max (Int.log 2 |q| - 52) (-1074)| ≤ 2 ^ 53 := by
    rw [abs_div, abs_of_pos hpow, div_le_iff₀ hpow]
    calc |q| ≤ (2 : ℚ) ^ (Int.log 2 |q| + 1) := (Int.lt_zpow_succ_log_self (by decide) |q|).le
      _ ≤ 2 ^ (53 + max (Int.log 2 |q| - 52) (-1074)) := zpow_le_zpow_right₀ (by norm_num) (by omega)
      _ = 2 ^ 53 * 2 ^ max (Int.log 2 |q| - 52) (-1074) := by
          rw [zpow_add₀ (by norm_num)]
          norm_num
  rw [abs_le] at hlt ⊢
  refine ⟨le_roundEven ?_, roundEven_le ?_⟩
  · exact_mod_cast hlt.1
  · exact_mod_cast hlt.2

theorem float64_float64 (q : ℚ) : float64 (float64 q) = float64 q := by
  have hbits := abs_roundEven_le q
  have hexp : -1074 ≤ max (Int.log 2 |q| - 52) (-1074) := le_max_right _ _
  have hval : float64 q = roundEven (q / 2 ^ max (Int.log 2 |q| - 52) (-1074)) * 2 ^ max (Int.log 2 |q| - 52) (-1074) :=
    rfl
  rw [hval]
  generalize max (Int.log 2 |q| - 52) (-1074) = e at hbits hexp
  generalize roundEven (q / 2 ^ e) = m at hbits
  rcases hbits.lt_or_eq with hlt | heq
  · exact float64_of_lt hlt hexp
  · -- the power of two is half as many units of the next exponent
    obtain ⟨n, hn, habs⟩ : ∃ n : ℤ, m = n * 2 ∧ |n| < 2 ^ 53 := by
      rcases abs_eq (by norm_num) |>.1 heq with rfl | rfl
      · exact ⟨2 ^ 52, by norm_num, by norm_num⟩
      · exact ⟨-2 ^ 52, by norm_num, by norm_num⟩
    have hsame : (m : ℚ) * 2 ^ e = n * 2 ^ (e + 1) := by
      rw [hn, zpow_add₀ (by norm_num), zpow_one]
      push_cast
      ring
    rw [hsame]
    exact float64_of_lt habs (by omega)

theorem abs_roundEven_le_of_lt {q : ℚ} {n : ℤ} (h : |q| < n + 1 / 2) : |roundEven q| ≤ n := by
  rw [abs_lt] at h
  refine abs_le.2 ⟨le_roundEven_of_lt ?_, roundEven_le_of_lt h.2⟩
  push_cast
  linarith [h.1]

/-- The number rounds to a finite float64. -/
def FitsFloat64 (q : ℚ) : Prop := |q| < 2 ^ 1024 - 2 ^ 970

instance (q : ℚ) : Decidable (FitsFloat64 q) := inferInstanceAs (Decidable (_ < _))

theorem fits_float64 {q : ℚ} (h : FitsFloat64 q) : FitsFloat64 (float64 q) := by
  have hunit : (0 : ℚ) < 2 ^ (970 : ℤ) := zpow_pos (by norm_num) _
  have hlast : (2 : ℚ) ^ (971 : ℤ) = 2 * 2 ^ (970 : ℤ) := by
    rw [show (971 : ℤ) = 1 + 970 from rfl, zpow_add₀ (by norm_num), zpow_one]
  have hbound : (2 : ℚ) ^ 1024 - 2 ^ 970 = (2 ^ 54 - 1) * 2 ^ (970 : ℤ) := by
    rw [show (2 : ℚ) ^ 1024 = 2 ^ 54 * 2 ^ 970 from by rw [← pow_add]]
    rw [show (2 : ℚ) ^ 970 = 2 ^ (970 : ℤ) from (zpow_natCast 2 970).symm]
    ring
  have hval : float64 q = roundEven (q / 2 ^ max (Int.log 2 |q| - 52) (-1074)) * 2 ^ max (Int.log 2 |q| - 52) (-1074) :=
    rfl
  have hbits := abs_roundEven_le q
  have hexp : max (Int.log 2 |q| - 52) (-1074) ≤ 971 := by
    refine max_le ?_ (by norm_num)
    rcases eq_or_ne q 0 with rfl | hne
    · simp
    · have hlt : |q| < (2 : ℚ) ^ (1024 : ℤ) := by
        have hbig : (2 : ℚ) ^ 1024 - 2 ^ 970 < 2 ^ 1024 := sub_lt_self _ (by positivity)
        exact_mod_cast h.trans hbig
      have hlog : Int.log 2 |q| < 1024 :=
        (Int.lt_zpow_iff_log_lt (by decide) (abs_pos.2 hne)).1 (by exact_mod_cast hlt)
      omega
  unfold FitsFloat64 at h ⊢
  rw [hbound] at h ⊢
  rw [hval, abs_mul, abs_of_pos (zpow_pos (by norm_num : (0 : ℚ) < 2) _)]
  generalize max (Int.log 2 |q| - 52) (-1074) = e at hbits hexp
  rcases hexp.lt_or_eq with hlt | rfl
  · have hcast : |(roundEven (q / 2 ^ e) : ℚ)| ≤ 2 ^ 53 := by exact_mod_cast hbits
    calc |(roundEven (q / 2 ^ e) : ℚ)| * 2 ^ e
        ≤ 2 ^ 53 * 2 ^ (970 : ℤ) :=
          mul_le_mul hcast (zpow_le_zpow_right₀ (by norm_num) (by omega)) (zpow_nonneg (by norm_num) _) (by norm_num)
      _ < (2 ^ 54 - 1) * 2 ^ (970 : ℤ) := mul_lt_mul_of_pos_right (by norm_num) hunit
  · -- in the last binade half a unit is missing to the power of two
    have hhalf : |q / 2 ^ (971 : ℤ)| < ((2 ^ 53 - 1 : ℤ) : ℚ) + 1 / 2 := by
      rw [abs_div, abs_of_pos (zpow_pos (by norm_num : (0 : ℚ) < 2) _), div_lt_iff₀ (zpow_pos (by norm_num) _), hlast]
      refine h.trans_eq ?_
      rw [← mul_assoc]
      norm_num
    have hround := abs_roundEven_le_of_lt hhalf
    have hcast : |(roundEven (q / 2 ^ (971 : ℤ)) : ℚ)| ≤ 2 ^ 53 - 1 := by exact_mod_cast hround
    calc |(roundEven (q / 2 ^ (971 : ℤ)) : ℚ)| * 2 ^ (971 : ℤ)
        ≤ (2 ^ 53 - 1) * 2 ^ (971 : ℤ) := mul_le_mul_of_nonneg_right hcast (zpow_nonneg (by norm_num) _)
      _ < (2 ^ 54 - 1) * 2 ^ (970 : ℤ) := by
          rw [hlast, ← mul_assoc]
          exact mul_lt_mul_of_pos_right (by norm_num) hunit

theorem fits_of_lt {q : ℚ} (h : |q| < 2 ^ 53) : FitsFloat64 q := by
  have hsmall : (2 : ℚ) ^ 53 ≤ 2 ^ 970 := pow_le_pow_right₀ (by norm_num) (by norm_num)
  have hdouble : (2 : ℚ) ^ 970 + 2 ^ 970 ≤ 2 ^ 1024 := by
    rw [← two_mul, ← pow_succ']
    exact pow_le_pow_right₀ (by norm_num) (by norm_num)
  exact h.trans_le (hsmall.trans (le_sub_iff_add_le.2 hdouble))

/-- The integer whose digits `FormatFloat` prints for an integral float64: of the
decimals that read back as the same float64, the one with the fewest digits. -/
def shortestInt (n : ℤ) : ℤ :=
  let candidate (k : ℕ) : ℤ := roundEven (n / 10 ^ k) * 10 ^ k
  match (List.range 22).reverse.find? fun k => decide (float64 (candidate k) = n) with
  | some k => candidate k
  | none => n

/-- What is printed for a float64 reads back as it. -/
theorem float64_shortestInt {n : ℤ} (h : float64 n = n) : float64 (shortestInt n) = n := by
  unfold shortestInt
  simp only
  split
  case h_1 k hk => simpa using List.find?_some hk
  case h_2 => exact h

/-- The decimal of this many digits and one that is nearest to a number. -/
def nearestDecimal (d : ℕ) (q : ℚ) : ℚ := roundEven (q / 10 ^ (Int.log 10 |q| - d)) * 10 ^ (Int.log 10 |q| - d)

/-- The decimal that is printed for a float64: the one with the fewest digits of those that
are read as it. -/
def shortest (q : ℚ) : ℚ :=
  match (List.range 17).find? fun d => decide (FitsFloat64 (nearestDecimal d q)) && decide
    (float64 (nearestDecimal d q) = q) with
  | some d => nearestDecimal d q
  | none => q

theorem float64_shortest {q : ℚ} (h : float64 q = q) : float64 (shortest q) = q := by
  unfold shortest
  split
  case h_1 d hd =>
    have hfound := List.find?_some hd
    rw [Bool.and_eq_true] at hfound
    exact of_decide_eq_true hfound.2
  case h_2 => exact h

theorem fits_shortest {q : ℚ} (h : FitsFloat64 q) : FitsFloat64 (shortest q) := by
  unfold shortest
  split
  case h_1 d hd =>
    have hfound := List.find?_some hd
    rw [Bool.and_eq_true] at hfound
    exact of_decide_eq_true hfound.1
  case h_2 => exact h

theorem fits_shortestInt {n : ℤ} (h : |(n : ℚ)| < 10 ^ 21) : FitsFloat64 (shortestInt n) := by
  have hbig : (10 : ℚ) ^ 21 * 10 ^ 21 < 2 ^ 1024 - 2 ^ 970 := by
    have hlt : (10 : ℚ) ^ 21 * 10 ^ 21 < 2 ^ 970 := by
      calc (10 : ℚ) ^ 21 * 10 ^ 21 < 2 ^ 140 := by norm_num
        _ ≤ 2 ^ 970 := pow_le_pow_right₀ (by norm_num) (by norm_num)
    have hle : (2 : ℚ) ^ 970 + 2 ^ 970 ≤ 2 ^ 1024 := by
      rw [← two_mul, ← pow_succ']
      exact pow_le_pow_right₀ (by norm_num) (by norm_num)
    exact hlt.trans_le (le_sub_iff_add_le.2 hle)
  have hcandidate : ∀ k < 22, |((roundEven ((n : ℚ) / 10 ^ k) * 10 ^ k : ℤ) : ℚ)| ≤ 10 ^ 21 * 10 ^ 21 := by
    intro k hk
    have hquot : |(n : ℚ) / 10 ^ k| ≤ ((10 ^ 21 : ℤ) : ℚ) := by
      rw [abs_div, abs_of_pos (by positivity : (0 : ℚ) < 10 ^ k)]
      refine (div_le_self (abs_nonneg _) (one_le_pow₀ (by norm_num))).trans ?_
      push_cast
      exact h.le
    rw [abs_le] at hquot
    have hround : |roundEven ((n : ℚ) / 10 ^ k)| ≤ 10 ^ 21 :=
      abs_le.2 ⟨le_roundEven (by push_cast at hquot ⊢; exact hquot.1), roundEven_le hquot.2⟩
    have hcast : |(roundEven ((n : ℚ) / 10 ^ k) : ℚ)| ≤ 10 ^ 21 := by exact_mod_cast hround
    push_cast
    rw [abs_mul, abs_of_pos (by positivity : (0 : ℚ) < 10 ^ k)]
    exact mul_le_mul hcast (pow_le_pow_right₀ (by norm_num) (by omega)) (by positivity) (by positivity)
  unfold FitsFloat64 shortestInt
  simp only
  split
  case h_1 k hk =>
    have hmem := List.mem_of_find?_eq_some hk
    rw [List.mem_reverse, List.mem_range] at hmem
    exact (hcandidate k hmem).trans_lt hbig
  case h_2 =>
    refine h.trans_le ((le_mul_of_one_le_right (by norm_num) (by norm_num)).trans hbig.le)

/-- Truncation toward zero. -/
def truncate (q : ℚ) : ℤ := if 0 ≤ q then ⌊q⌋ else ⌈q⌉

/-- The conversion of a float64 to int64: truncation, and the least int64 for a
value outside the range, as amd64 has it. -/
def floatToInt64 (q : ℚ) : ℤ := if FitsInt64 (truncate q) then truncate q else minInt64

theorem floatToInt64_intCast {n : ℤ} (h : FitsInt64 n) : floatToInt64 n = n := by
  have htruncate : truncate n = n := by
    unfold truncate
    split
    · exact Int.floor_intCast n
    · exact Int.ceil_intCast n
  rw [floatToInt64, htruncate, if_pos h]

example : shortestInt (2 ^ 60) = 1152921504606847000 := by decide +kernel

/-! ## float64 with infinities and NaN -/

/-- A float64: a finite one by its value, an infinity by its sign, or NaN. -/
inductive Double where
  | num (q : ℚ)
  | inf (negative : Bool)
  | nan
  deriving DecidableEq

namespace Double

/-- The result of an operation, from the exact one. -/
def ofRat (q : ℚ) : Double := if FitsFloat64 q then num (float64 q) else inf (decide (q < 0))

/-- The sign changes. -/
def neg : Double → Double
  | num a => num (-a)
  | inf s => inf !s
  | nan => nan

/-- The sum, rounded. -/
def add : Double → Double → Double
  | num a, num b => ofRat (a + b)
  | inf s, inf t => if s = t then inf s else nan
  | inf s, num _ => inf s
  | num _, inf s => inf s
  | _, _ => nan

/-- The difference, rounded. -/
def sub (x y : Double) : Double := x.add y.neg

/-- The product, rounded. -/
def mul : Double → Double → Double
  | num a, num b => ofRat (a * b)
  | inf s, inf t => inf (s ^^ t)
  | num a, inf s => if a = 0 then nan else inf (s ^^ decide (a < 0))
  | inf s, num a => if a = 0 then nan else inf (s ^^ decide (a < 0))
  | _, _ => nan

/-- The quotient, rounded. -/
def div : Double → Double → Double
  | num a, num b => if b = 0 then if a = 0 then nan else inf (decide (a < 0)) else ofRat (a / b)
  | num _, inf _ => num 0
  | inf s, num b => inf (s ^^ decide (b < 0))
  | _, _ => nan

/-- NaN is less than nothing, and nothing is less than it. -/
def lt : Double → Double → Bool
  | num a, num b => decide (a < b)
  | num _, inf s => !s
  | inf s, num _ => s
  | inf s, inf t => s && !t
  | _, _ => false

/-- The comparison; nothing compares with a NaN. -/
def le : Double → Double → Bool
  | nan, _ => false
  | _, nan => false
  | x, y => !lt y x

/-- The conversion to int64. -/
def toInt64 : Double → ℤ
  | num q => floatToInt64 q
  | _ => minInt64

/-- The value is this number at least. -/
def AtLeast (x : ℚ) (d : Double) : Prop := d = inf false ∨ ∃ q, d = num q ∧ x ≤ q

theorem ofRat_natCast {n : ℕ} (h : n < 2 ^ 53) : ofRat n = num n := by
  have hfits : FitsFloat64 n := fits_of_lt (by rw [Nat.abs_cast]; exact_mod_cast h)
  have hexact := float64_of_lt (m := n) (e := 0) (by rw [Nat.abs_cast]; exact_mod_cast h) (by decide)
  rw [zpow_zero, mul_one, Int.cast_natCast] at hexact
  rw [ofRat, if_pos hfits, hexact]

/-- What an operation gives when it does not overflow is a float64. -/
theorem eq_of_ofRat {q r : ℚ} (h : ofRat q = num r) : r = float64 q ∧ float64 r = r ∧ FitsFloat64 r := by
  unfold ofRat at h
  split at h
  · cases h
    exact ⟨rfl, float64_float64 q, fits_float64 ‹_›⟩
  · cases h

theorem atLeast_ofRat {x q : ℚ} (hq : q = 0 ∨ 2 ^ (-1022 : ℤ) ≤ q) (hx : x ≤ q * (1 - 1 / 2 ^ 53)) :
    AtLeast x (ofRat q) := by
  have hnonneg : 0 ≤ q := hq.elim (fun h => h.ge) fun h => (zpow_pos (by norm_num) _).le.trans h
  unfold ofRat
  split
  · exact Or.inr ⟨_, rfl, hx.trans (le_float64 hq)⟩
  · exact Or.inl (by rw [decide_eq_false (not_lt.2 hnonneg)])

theorem AtLeast.add {x y : ℚ} {a b : Double} (ha : AtLeast x a) (hb : AtLeast y b)
    (hsum : 2 ^ (-1022 : ℤ) ≤ x + y) : AtLeast ((x + y) * (1 - 1 / 2 ^ 53)) (a.add b) := by
  rcases ha with rfl | ⟨q, rfl, hq⟩ <;> rcases hb with rfl | ⟨r, rfl, hr⟩
  · exact Or.inl rfl
  · exact Or.inl rfl
  · exact Or.inl rfl
  · have hle : x + y ≤ q + r := add_le_add hq hr
    exact atLeast_ofRat (Or.inr (hsum.trans hle)) (mul_le_mul_of_nonneg_right hle (by norm_num))

theorem AtLeast.mul {x c : ℚ} {a : Double} (ha : AtLeast x a) (hc : 0 < c)
    (hprod : 2 ^ (-1022 : ℤ) ≤ x * c) : AtLeast (x * c * (1 - 1 / 2 ^ 53)) (a.mul (num c)) := by
  rcases ha with rfl | ⟨q, rfl, hq⟩
  · exact Or.inl (by simp [Double.mul, hc.ne', not_lt.2 hc.le])
  · have hle : x * c ≤ q * c := mul_le_mul_of_nonneg_right hq hc.le
    exact atLeast_ofRat (Or.inr (hprod.trans hle)) (mul_le_mul_of_nonneg_right hle (by norm_num))

end Double

end Simorgh.Lib
