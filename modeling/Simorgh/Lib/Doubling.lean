import Mathlib.Data.Nat.Basic
import Mathlib.Algebra.Order.Group.Nat
import Mathlib.Tactic.Ring

/-!
# Doubling until it is enough

`for !enough(p) { p *= 2 }`, with a bound on the number of rounds.

* `doubleUntil_eq` — the result is the start times a power of two.
* `doubleUntil_enough` — it is enough, when everything from some bound on is and the
  rounds reach that bound.
* `doubleUntil_first` — it is the first that is enough.
-/

namespace Simorgh.Lib

/-- Double `p` until it is enough, in at most so many rounds. -/
def doubleUntil (enough : ℕ → Bool) : ℕ → ℕ → ℕ
  | 0, p => p
  | rounds + 1, p => if enough p then p else doubleUntil enough rounds (2 * p)

variable {enough : ℕ → Bool}

theorem doubleUntil_eq (rounds p : ℕ) : ∃ k, doubleUntil enough rounds p = 2 ^ k * p := by
  induction rounds generalizing p with
  | zero => exact ⟨0, by simp [doubleUntil]⟩
  | succ rounds ih =>
      rw [doubleUntil]
      split
      · exact ⟨0, by simp⟩
      · obtain ⟨k, hk⟩ := ih (2 * p)
        exact ⟨k + 1, by rw [hk]; ring⟩

theorem doubleUntil_enough {n : ℕ} (henough : ∀ q, n ≤ q → enough q = true) {rounds p : ℕ}
    (hreach : n ≤ 2 ^ rounds * p) : enough (doubleUntil enough rounds p) = true := by
  induction rounds generalizing p with
  | zero => exact henough p (by simpa using hreach)
  | succ rounds ih =>
      rw [doubleUntil]
      split
      · assumption
      · refine ih ?_
        calc n ≤ 2 ^ (rounds + 1) * p := hreach
          _ = 2 ^ rounds * (2 * p) := by ring

/-- The doubling stops at the first that is enough. -/
theorem doubleUntil_first {j rounds p : ℕ} (henough : enough (2 ^ j * p) = true)
    (hbelow : ∀ i < j, enough (2 ^ i * p) = false) (hrounds : j ≤ rounds) :
    doubleUntil enough rounds p = 2 ^ j * p := by
  induction j generalizing rounds p with
  | zero =>
      rw [pow_zero, one_mul] at henough ⊢
      cases rounds with
      | zero => rfl
      | succ rounds => rw [doubleUntil, if_pos henough]
  | succ j ih =>
      obtain ⟨rounds, rfl⟩ : ∃ r, rounds = r + 1 := ⟨rounds - 1, by omega⟩
      have hnot : enough p = false := by
        have h := hbelow 0 (Nat.succ_pos j)
        rwa [pow_zero, one_mul] at h
      have hdouble : ∀ i, 2 ^ i * (2 * p) = 2 ^ (i + 1) * p := fun i => by ring
      rw [doubleUntil, hnot, if_neg Bool.false_ne_true, ih ?_ (fun i hi => ?_) (Nat.le_of_succ_le_succ hrounds),
        hdouble]
      · rw [hdouble]
        exact henough
      · rw [hdouble]
        exact hbelow (i + 1) (Nat.succ_lt_succ hi)

/-- The smallest power of two that is enough for `n`. -/
def nextPow2 (n : ℕ) : ℕ := doubleUntil (fun p => decide (n ≤ p)) n 1

theorem le_nextPow2 (n : ℕ) : n ≤ nextPow2 n := by
  have hreach : n ≤ 2 ^ n * 1 := by
    rw [mul_one]
    exact Nat.lt_two_pow_self.le
  have henough : ∀ q, n ≤ q → decide (n ≤ q) = true := fun q hq => decide_eq_true hq
  exact of_decide_eq_true (doubleUntil_enough henough hreach)

end Simorgh.Lib
