import Mathlib.Data.Finset.Fold

/-!
# One parity for a set of values

`parity` combines the values at a set of places with a commutative, associative
operation.  When every value is its own inverse, the parity of all places and
the parity of all but one give the value at the place that is missing.
-/

namespace Simorgh.Lib

variable {α ι : Type} (op : α → α → α) [Std.Commutative op] [Std.Associative op] (e : α)

/-- The values at the places of `s`, combined. -/
def parity (f : ι → α) (s : Finset ι) : α := s.fold op e f

variable {op e} {f g : ι → α} {s : Finset ι}

@[simp] theorem parity_empty : parity op e f ∅ = e := rfl

theorem parity_congr (h : ∀ i ∈ s, f i = g i) : parity op e f s = parity op e g s :=
  Finset.fold_congr h

theorem parity_insert [DecidableEq ι] {j : ι} (hj : j ∉ s) :
    parity op e f (insert j s) = op (f j) (parity op e f s) :=
  Finset.fold_insert hj

/-- The parity of all places and that of all but one give the missing value. -/
theorem parity_recover [DecidableEq ι] (hunit : ∀ x, op e x = x) (hself : ∀ x, op x x = e)
    {j : ι} (hj : j ∉ s) : op (parity op e f s) (parity op e f (insert j s)) = f j := by
  have hcomm : ∀ x y, op x y = op y x := Std.Commutative.comm
  have hassoc : ∀ x y z, op (op x y) z = op x (op y z) := Std.Associative.assoc
  rw [parity_insert hj, hcomm (f j), ← hassoc, hself, hunit]

end Simorgh.Lib
