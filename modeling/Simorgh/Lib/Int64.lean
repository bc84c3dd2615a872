import Mathlib.Tactic.Linarith

/-!
# Signed 64-bit arithmetic on integers

Machine integers are kept as `Int`; a sum that the machine computes is passed
through `int64`, which wraps it into the signed 64-bit range.

* `int64_of_fits` — a value inside the range is left alone.
* `int64_fits` — a wrapped value is inside the range.
* `int64_add_left`, `int64_add_right` — a sum may be wrapped once, at the end.
-/

namespace Simorgh.Lib

/-- The signed 64-bit integer a value wraps to. -/
def int64 (x : Int) : Int := Int.bmod x (2 ^ 64)

/-- The value lies in the signed 64-bit range. -/
def FitsInt64 (x : Int) : Prop := -2 ^ 63 ≤ x ∧ x < 2 ^ 63

instance (x : Int) : Decidable (FitsInt64 x) := inferInstanceAs (Decidable (_ ∧ _))

/-- The largest signed 64-bit integer. -/
def maxInt64 : Int := 2 ^ 63 - 1

/-- The least signed 64-bit integer. -/
def minInt64 : Int := -2 ^ 63

theorem int64_of_fits {x : Int} (h : FitsInt64 x) : int64 x = x := by
  obtain ⟨h₁, h₂⟩ := h
  exact Int.bmod_eq_of_le (by omega) (by omega)

theorem int64_fits (x : Int) : FitsInt64 (int64 x) := by
  have h₁ := Int.le_bmod (x := x) (m := 2 ^ 64) (by decide)
  have h₂ := Int.bmod_lt (x := x) (m := 2 ^ 64) (by decide)
  constructor
  · simp only [int64]
    omega
  · simp only [int64]
    omega

/-- The difference of two non-negative machine integers does not wrap. -/
theorem int64_sub_of_nonneg {x y : Int} (hx : 0 ≤ x) (hx' : x < 2 ^ 63) (hy : 0 ≤ y)
    (hy' : y < 2 ^ 63) : int64 (x - y) = x - y :=
  int64_of_fits ⟨by omega, by omega⟩

/-- A value not below the range is left alone exactly when it is in the range. -/
theorem int64_eq_iff {x : Int} (hlow : -2 ^ 63 ≤ x) : int64 x = x ↔ x < 2 ^ 63 := by
  constructor
  · intro h
    rw [← h]
    exact (int64_fits x).2
  · exact fun h => int64_of_fits ⟨hlow, h⟩

/-- A sum that wraps upwards comes out negative. -/
theorem int64_neg_of_wraps {x : Int} (hlow : 2 ^ 63 ≤ x) (hhigh : x < 2 ^ 64) : int64 x < 0 := by
  have hwrap : int64 x = x - 2 ^ 64 := by
    unfold int64
    rw [Int.bmod_def]
    omega
  omega

theorem int64_add_left (x y : Int) : int64 (int64 x + y) = int64 (x + y) := Int.bmod_add_bmod

theorem int64_add_right (x y : Int) : int64 (x + int64 y) = int64 (x + y) := Int.add_bmod_bmod

@[simp] theorem int64_int64 (x : Int) : int64 (int64 x) = int64 x := Int.bmod_bmod

end Simorgh.Lib
