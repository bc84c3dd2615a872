import Mathlib.Algebra.Order.Group.Defs
import Mathlib.Algebra.BigOperators.Group.List.Basic
import Mathlib.Order.Lattice

/-!
# Steps that are clamped from below

A quantity moves by one amount after another and is lifted to a floor whenever it
falls below.  What is lifted is never taken back, so the steps no longer add up.

* `add_sum_le_clamped` — the quantity is never behind the sum of the steps.
* `clamped_eq_add_sum_iff` — it is the sum of the steps exactly when no initial part of
  them would have taken it below the floor.
-/

namespace Simorgh.Lib

section

variable {α : Type} [AddCommGroup α] [LinearOrder α] [IsOrderedAddMonoid α] {floor x : α} {steps : List α}

/-- The quantity after the steps. -/
def clamped (floor : α) (x : α) (steps : List α) : α := steps.foldl (fun x d => max floor (x + d)) x

omit [IsOrderedAddMonoid α] in
theorem clamped_append (floor x : α) (steps more : List α) :
    clamped floor x (steps ++ more) = clamped floor (clamped floor x steps) more :=
  List.foldl_append

omit [IsOrderedAddMonoid α] in
theorem floor_le_clamped (h : floor ≤ x) (steps : List α) : floor ≤ clamped floor x steps := by
  induction steps generalizing x with
  | nil => exact h
  | cons d steps ih => exact ih (le_max_left floor (x + d))

theorem add_sum_le_clamped (floor x : α) (steps : List α) : x + steps.sum ≤ clamped floor x steps := by
  induction steps generalizing x with
  | nil => simp [clamped]
  | cons d steps ih =>
      calc x + (d :: steps).sum = x + d + steps.sum := by rw [List.sum_cons, add_assoc]
        _ ≤ max floor (x + d) + steps.sum := by
          apply add_le_add_left
          exact le_max_right floor (x + d)
        _ ≤ clamped floor (max floor (x + d)) steps := ih _

omit [IsOrderedAddMonoid α] in
/-- Without a clamp the steps add up. -/
theorem clamped_of_forall_le (h : ∀ p, p <+: steps → floor ≤ x + p.sum) : clamped floor x steps = x + steps.sum := by
  induction steps generalizing x with
  | nil => simp [clamped]
  | cons d steps ih =>
      have hd : floor ≤ x + d := by
        have hfirst := h [d] ⟨steps, rfl⟩
        rwa [List.sum_singleton] at hfirst
      have hrest : ∀ p, p <+: steps → floor ≤ x + d + p.sum := by
        intro p hp
        have hlonger := h (d :: p) (List.cons_prefix_cons.2 ⟨rfl, hp⟩)
        rwa [List.sum_cons, ← add_assoc] at hlonger
      show clamped floor (max floor (x + d)) steps = x + (d :: steps).sum
      rw [max_eq_right hd, ih hrest, List.sum_cons, add_assoc]

/-- A clamp puts the quantity ahead of the steps for good. -/
theorem add_sum_lt_clamped (hx : floor ≤ x) {p : List α} (hp : p <+: steps) (h : x + p.sum < floor) :
    x + steps.sum < clamped floor x steps := by
  obtain ⟨rest, rfl⟩ := hp
  calc x + (p ++ rest).sum = x + p.sum + rest.sum := by rw [List.sum_append, add_assoc]
    _ < floor + rest.sum := by
      apply add_lt_add_left
      exact h
    _ ≤ clamped floor x p + rest.sum := by
      apply add_le_add_left
      exact floor_le_clamped hx p
    _ ≤ clamped floor (clamped floor x p) rest := add_sum_le_clamped floor _ rest
    _ = clamped floor x (p ++ rest) := (clamped_append floor x p rest).symm

theorem clamped_eq_add_sum_iff (hx : floor ≤ x) :
    clamped floor x steps = x + steps.sum ↔ ∀ p, p <+: steps → floor ≤ x + p.sum := by
  constructor
  · intro h p hp
    by_contra hlt
    exact absurd h (add_sum_lt_clamped hx hp (not_le.1 hlt)).ne'
  · exact clamped_of_forall_le

end

end Simorgh.Lib
