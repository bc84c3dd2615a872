import Mathlib.Algebra.Order.BigOperators.Group.List
import Mathlib.Data.Option.Basic
import Simorgh.Lib.Int64

/-!
# Taking from a list within a limit

Items are taken in order, each if the running total stays within a limit.  The total is
an int64, so a cost that carries it past the largest one brings it back below the limit.

* `const_le_of_takeWithin` — items of one cost are taken up to the limit, as long as one
  more than the limit pays for is still an int64.
* `takeWithin_const_wraps` — past that, more is taken than an int64 holds.
-/

namespace Simorgh.Lib

section

variable {α : Type} {cost : α → Int} {limit total c k : Int}

/-- The items taken from a list, without a limit or with one. -/
def takeWithin (limit : Option Int) (cost : α → Int) : Int → List α → List α
  | _, [] => []
  | total, x :: xs =>
      if ∀ l ∈ limit, int64 (total + cost x) ≤ l then
        x :: takeWithin limit cost (int64 (total + cost x)) xs
      else takeWithin limit cost total xs

theorem takeWithin_sublist (limit : Option Int) (cost : α → Int) (total : Int) (xs : List α) :
    (takeWithin limit cost total xs).Sublist xs := by
  induction xs generalizing total with
  | nil => exact List.Sublist.refl []
  | cons x xs ih =>
      unfold takeWithin
      split
      · exact (ih _).cons_cons x
      · exact (ih _).cons x

theorem takeWithin_none (cost : α → Int) (total : Int) (xs : List α) :
    takeWithin none cost total xs = xs := by
  induction xs generalizing total with
  | nil => rfl
  | cons x xs ih =>
      rw [takeWithin, if_pos (by simp), ih]

/-! ## Items of one cost -/

/-- Paying for one item more than the limit holds is the largest total that is ever
formed. -/
theorem const_le_of_takeWithin {xs : List α} (hc : 0 < c) (hcost : ∀ x ∈ xs, cost x = c) (hk : c * k ≤ limit)
    (hroom : c * min (k + xs.length) (limit / c + 1) < 2 ^ 63) (hnonneg : 0 ≤ k) :
    c * (k + (takeWithin (some limit) cost (c * k) xs).length) ≤ limit := by
  induction xs generalizing k with
  | nil => simpa [takeWithin] using hk
  | cons x xs ih =>
      have hx : cost x = c := hcost x List.mem_cons_self
      have hrest : ∀ y ∈ xs, cost y = c := fun y hy => hcost y (List.mem_cons_of_mem x hy)
      have hpaid : k ≤ limit / c := by
        rw [Int.le_ediv_iff_mul_le hc, Int.mul_comm]
        exact hk
      rw [List.length_cons, Nat.cast_succ] at hroom
      have hnext : c * k + c = c * (k + 1) := by rw [Int.mul_add, Int.mul_one]
      have hpos : 0 ≤ c * k := Int.mul_nonneg hc.le hnonneg
      have hexact : int64 (c * k + c) = c * (k + 1) := by
        rw [hnext]
        refine int64_of_fits ⟨by omega, lt_of_le_of_lt ?_ hroom⟩
        exact Int.mul_le_mul_of_nonneg_left (by omega) hc.le
      rw [takeWithin, hx, hexact]
      split
      · rename_i htaken
        have hstep := ih hrest (htaken limit rfl) (k := k + 1) (by
          rw [Int.add_assoc, Int.add_comm 1]
          exact hroom) (by omega)
        rw [List.length_cons, Nat.cast_succ, Int.add_comm _ 1, ← Int.add_assoc]
        exact hstep
      · refine ih hrest hk (lt_of_le_of_lt ?_ hroom) hnonneg
        exact Int.mul_le_mul_of_nonneg_left (by omega) hc.le

theorem takeWithin_const_wraps {xs : List α} (hc : 0 < c) (hcost : ∀ x ∈ xs, cost x = c) (hlimit : limit < 2 ^ 63)
    (hone : c ≤ limit) (hk : c * k ≤ limit) (hover : 2 ^ 63 ≤ c * min (k + xs.length) (limit / c + 1))
    (hnonneg : 0 ≤ k) : 2 ^ 63 ≤ c * (k + (takeWithin (some limit) cost (c * k) xs).length) := by
  induction xs generalizing k with
  | nil =>
      have hle : c * min (k + ([] : List α).length) (limit / c + 1) ≤ c * k :=
        Int.mul_le_mul_of_nonneg_left (by simp) hc.le
      omega
  | cons x xs ih =>
      have hx : cost x = c := hcost x List.mem_cons_self
      have hrest : ∀ y ∈ xs, cost y = c := fun y hy => hcost y (List.mem_cons_of_mem x hy)
      have hnext : c * k + c = c * (k + 1) := by rw [Int.mul_add, Int.mul_one]
      have hpos : 0 ≤ c * k := Int.mul_nonneg hc.le hnonneg
      rw [List.length_cons, Nat.cast_succ] at hover
      by_cases hfits : c * (k + 1) ≤ limit
      · have hexact : int64 (c * k + c) = c * (k + 1) := by
          rw [hnext]
          exact int64_of_fits ⟨by omega, by omega⟩
        have htaken : ∀ l ∈ some limit, int64 (c * k + cost x) ≤ l := by
          rintro l ⟨⟩
          rw [hx, hexact]
          exact hfits
        have hstep := ih hrest hfits (k := k + 1) (by
          rw [Int.add_assoc, Int.add_comm 1]
          exact hover) (by omega)
        rw [takeWithin, if_pos htaken, hx, hexact, List.length_cons, Nat.cast_succ, Int.add_comm _ 1,
          ← Int.add_assoc]
        exact hstep
      · -- the limit pays for k items and no more, and one more wraps below it
        have hlast : limit / c < k + 1 := by
          rw [Int.ediv_lt_iff_lt_mul hc, Int.mul_comm]
          omega
        have hwraps : 2 ^ 63 ≤ c * (k + 1) :=
          le_trans hover (Int.mul_le_mul_of_nonneg_left (by omega) hc.le)
        have hneg : int64 (c * k + c) < 0 := int64_neg_of_wraps (by omega) (by omega)
        have htaken : ∀ l ∈ some limit, int64 (c * k + cost x) ≤ l := by
          rintro l ⟨⟩
          rw [hx]
          omega
        rw [takeWithin, if_pos htaken, List.length_cons, Nat.cast_succ]
        refine le_trans hwraps (Int.mul_le_mul_of_nonneg_left ?_ hc.le)
        omega

end

end Simorgh.Lib
