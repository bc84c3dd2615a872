import Mathlib.Data.Nat.ModEq
import Simorgh.Lib.Bytes

/-!
# Sums in one's complement

The words of a message are added, and what goes beyond sixteen bits is added again at the
low end until nothing does.  The complement of the result, added to the message, makes it
come out as all ones.

* `foldCarry_modEq` — folding a carry changes nothing modulo `2 ^ 16 - 1`.
* `foldCarry_eq_ones` — a positive multiple of `2 ^ 16 - 1` folds to all ones.
* `foldCarry_add_complement` — the law of the checksum.
-/

namespace Simorgh.Lib

/-- The sum of the words of a message, high byte first.  An odd byte at the end is the high
byte of a word. -/
def wordSum : Bytes → ℕ
  | [] => 0
  | [a] => uint16 a 0
  | a :: b :: rest => uint16 a b + wordSum rest

theorem uint16_lt (a b : UInt8) : uint16 a b < 2 ^ 16 := by
  have ha := a.toNat_lt
  have hb := b.toNat_lt
  unfold uint16
  omega

/-- A message of at most `2 ^ 16` bytes does not reach `2 ^ 31`. -/
theorem wordSum_le (bytes : Bytes) : wordSum bytes ≤ (bytes.length + 1) / 2 * (2 ^ 16 - 1) := by
  induction bytes using wordSum.induct with
  | case1 => exact Nat.zero_le _
  | case2 a =>
      have ha := uint16_lt a 0
      simp only [wordSum, List.length_singleton]
      omega
  | case3 a b rest ih =>
      have hab := uint16_lt a b
      have hlength : ((a :: b :: rest).length + 1) / 2 = (rest.length + 1) / 2 + 1 := by
        simp only [List.length_cons]
        omega
      rw [hlength, wordSum, Nat.succ_mul]
      omega

/-- Carries are added at the low end until there are none. -/
def foldCarry (sum : ℕ) : ℕ :=
  if 0 < sum / 2 ^ 16 then foldCarry (sum % 2 ^ 16 + sum / 2 ^ 16) else sum
termination_by sum
decreasing_by omega

theorem foldCarry_lt (sum : ℕ) : foldCarry sum < 2 ^ 16 := by
  induction sum using foldCarry.induct with
  | case1 sum hcarry ih =>
      rw [foldCarry, if_pos hcarry]
      exact ih
  | case2 sum hnone =>
      rw [foldCarry, if_neg hnone]
      omega

theorem foldCarry_pos {sum : ℕ} (hsum : 0 < sum) : 0 < foldCarry sum := by
  induction sum using foldCarry.induct with
  | case1 sum hcarry ih =>
      rw [foldCarry, if_pos hcarry]
      exact ih (by omega)
  | case2 sum hnone =>
      rw [foldCarry, if_neg hnone]
      exact hsum

theorem foldCarry_modEq (sum : ℕ) : foldCarry sum ≡ sum [MOD 2 ^ 16 - 1] := by
  induction sum using foldCarry.induct with
  | case1 sum hcarry ih =>
      rw [foldCarry, if_pos hcarry]
      refine ih.trans ?_
      show (sum % 2 ^ 16 + sum / 2 ^ 16) % (2 ^ 16 - 1) = sum % (2 ^ 16 - 1)
      omega
  | case2 sum hnone =>
      rw [foldCarry, if_neg hnone]

theorem foldCarry_eq_ones {sum : ℕ} (hpos : 0 < sum) (hsum : sum ≡ 0 [MOD 2 ^ 16 - 1]) :
    foldCarry sum = 2 ^ 16 - 1 := by
  have hmod : foldCarry sum % (2 ^ 16 - 1) = 0 := (foldCarry_modEq sum).trans hsum
  have hlt := foldCarry_lt sum
  have hfold := foldCarry_pos hpos
  omega

/-- Adding the complement of the folded sum gives all ones. -/
theorem foldCarry_add_complement {sum : ℕ} (hpos : 0 < sum) :
    foldCarry (sum + (2 ^ 16 - 1 - foldCarry sum)) = 2 ^ 16 - 1 := by
  have hlt := foldCarry_lt sum
  refine foldCarry_eq_ones (by omega) ?_
  have hmod : foldCarry sum % (2 ^ 16 - 1) = sum % (2 ^ 16 - 1) := foldCarry_modEq sum
  show (sum + (2 ^ 16 - 1 - foldCarry sum)) % (2 ^ 16 - 1) = 0 % (2 ^ 16 - 1)
  omega

end Simorgh.Lib
