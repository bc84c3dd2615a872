import Mathlib.Order.WithBot
import Mathlib.Order.Lattice
import Mathlib.Order.MinMax
import Mathlib.Data.List.Perm.Basic

/-!
# The least limit, zero being none

Limits are merged by taking the smaller of two, where zero stands for no limit, that is for
one above all others.

* `lesser_right_comm` — the order in which limits are merged does not matter.
* `least_mem`, `least_le` — what a whole list is merged to.
* `leastPositive_least_map` — limits that pass through a lossy function are merged rightly
  exactly if the least of them is kept and none falls below it.
-/

namespace Simorgh.Lib

section

variable {α : Type} [LinearOrder α] [Zero α] {a b m v x : α} {l : List α}

/-- The smaller of two limits; zero is none. -/
def lesser (a b : α) : α := if a = 0 then b else if b = 0 then a else min a b

/-- No limit is above every limit. -/
def asTop (a : α) : WithTop α := if a = 0 then ⊤ else a

theorem asTop_le_iff (hx : x ≠ 0) : asTop a ≤ asTop x ↔ a ≠ 0 ∧ a ≤ x := by
  unfold asTop
  rw [if_neg hx]
  by_cases ha : a = 0
  · simp [ha]
  · simp [ha]

theorem asTop_injective : Function.Injective (asTop : α → WithTop α) := by
  intro a b h
  unfold asTop at h
  by_cases ha : a = 0
  · by_cases hb : b = 0
    · rw [ha, hb]
    · simp [ha, hb] at h
  · by_cases hb : b = 0
    · simp [ha, hb] at h
    · simpa [ha, hb] using h

/-- Merging is the minimum. -/
theorem asTop_lesser (a b : α) : asTop (lesser a b) = min (asTop a) (asTop b) := by
  unfold lesser
  by_cases ha : a = 0
  · simp [asTop, ha]
  by_cases hb : b = 0
  · simp [asTop, ha, hb]
  have hmin : min a b ≠ 0 := by
    obtain h | h := min_choice a b
    · rwa [h]
    · rwa [h]
  rw [if_neg ha, if_neg hb]
  simp [asTop, ha, hb, hmin]

@[simp] theorem lesser_zero (a : α) : lesser a 0 = a := by
  refine asTop_injective ?_
  rw [asTop_lesser]
  simp [asTop]

/-- Two limits are merged into a third in either order. -/
theorem lesser_right_comm (a b c : α) : lesser (lesser a b) c = lesser (lesser a c) b := by
  refine asTop_injective ?_
  simp only [asTop_lesser]
  exact min_right_comm _ _ _

theorem lesser_choice (a b : α) : lesser a b = a ∨ lesser a b = b := by
  unfold lesser
  split
  · exact .inr rfl
  split
  · exact .inl rfl
  exact min_choice a b

/-- A whole list merged into one limit. -/
def least (l : List α) : α := l.foldl lesser 0

theorem foldl_lesser_mem (a : α) (l : List α) : l.foldl lesser a ∈ a :: l := by
  induction l generalizing a with
  | nil => exact List.mem_cons_self
  | cons b l ih =>
      rw [List.foldl_cons]
      obtain hhead | htail := List.mem_cons.1 (ih (lesser a b))
      · rw [hhead]
        obtain h | h := lesser_choice a b
        · rw [h]
          exact List.mem_cons_self
        · rw [h]
          exact List.mem_cons_of_mem _ List.mem_cons_self
      · exact List.mem_cons_of_mem _ (List.mem_cons_of_mem _ htail)

theorem asTop_foldl_lesser_le (a : α) (l : List α) : ∀ x ∈ a :: l, asTop (l.foldl lesser a) ≤ asTop x := by
  induction l generalizing a with
  | nil => simp
  | cons b l ih =>
      have hhead := ih (lesser a b) _ List.mem_cons_self
      rw [asTop_lesser, le_min_iff] at hhead
      rintro x (_ | ⟨_, _ | ⟨_, hx⟩⟩)
      · exact hhead.1
      · exact hhead.2
      · exact ih (lesser a b) x (List.mem_cons_of_mem _ hx)

theorem least_mem (h : least l ≠ 0) : least l ∈ l := by
  obtain hzero | hmem := List.mem_cons.1 (foldl_lesser_mem 0 l)
  · exact absurd hzero h
  · exact hmem

theorem least_le (hx : x ∈ l) (hne : x ≠ 0) : least l ≠ 0 ∧ least l ≤ x :=
  (asTop_le_iff hne).1 (asTop_foldl_lesser_le 0 l x (List.mem_cons_of_mem 0 hx))

/-- The least of the positive members; zero if there are none. -/
def LeastPositive (l : List α) (v : α) : Prop :=
  (v = 0 ∧ ∀ x ∈ l, ¬0 < x) ∨ 0 < v ∧ v ∈ l ∧ ∀ x ∈ l, 0 < x → v ≤ x

theorem LeastPositive.unique (h : LeastPositive l v) (h' : LeastPositive l m) : v = m := by
  obtain ⟨rfl, hnone⟩ | ⟨hpos, hmem, hle⟩ := h
  · obtain ⟨rfl, -⟩ | ⟨hpos', hmem', -⟩ := h'
    · rfl
    · exact absurd hpos' (hnone m hmem')
  · obtain ⟨rfl, hnone'⟩ | ⟨hpos', hmem', hle'⟩ := h'
    · exact absurd hpos (hnone' v hmem)
    · exact le_antisymm (hle m hmem' hpos') (hle' v hmem hpos)

theorem LeastPositive.ne_zero_iff (h : LeastPositive l v) : v ≠ 0 ↔ ∃ x ∈ l, 0 < x := by
  obtain ⟨rfl, hnone⟩ | ⟨hpos, hmem, -⟩ := h
  · refine iff_of_false (fun hne => hne rfl) ?_
    rintro ⟨x, hx, hpos⟩
    exact hnone x hx hpos
  · exact iff_of_true (ne_of_gt hpos) ⟨v, hmem, hpos⟩

theorem LeastPositive.nonneg (h : LeastPositive l v) : 0 ≤ v := by
  obtain ⟨rfl, -⟩ | ⟨hpos, -⟩ := h
  · exact le_refl 0
  · exact le_of_lt hpos

variable (hl : ∀ x ∈ l, 0 ≤ x)
include hl

theorem leastPositive_least : LeastPositive l (least l) := by
  by_cases hzero : least l = 0
  · refine .inl ⟨hzero, fun x hx hpos => ?_⟩
    exact (least_le hx (ne_of_gt hpos)).1 hzero
  · have hmem := least_mem hzero
    refine .inr ⟨lt_of_le_of_ne (hl _ hmem) (Ne.symm hzero), hmem, fun x hx hpos => ?_⟩
    exact (least_le hx (ne_of_gt hpos)).2

/-- The limits pass through `f` before they are merged. -/
theorem leastPositive_least_map {f : α → α} (hzero : f 0 = 0) (hf : ∀ x, f (f x) = f x) :
    LeastPositive l (least (l.map f)) ↔
      ∀ m, LeastPositive l m → f m = m ∧ ∀ x ∈ l, f x = 0 ∨ m ≤ f x := by
  constructor
  · intro h m hm
    obtain rfl := h.unique hm
    constructor
    · by_cases hnone : least (l.map f) = 0
      · rw [hnone, hzero]
      · obtain ⟨x, -, hx⟩ := List.mem_map.1 (least_mem hnone)
        rw [← hx, hf]
    · intro x hx
      by_cases hfx : f x = 0
      · exact .inl hfx
      · exact .inr (least_le (List.mem_map_of_mem hx) hfx).2
  · intro h
    have hleast := leastPositive_least hl
    obtain ⟨hkept, habove⟩ := h _ hleast
    have hsame : least (l.map f) = least l := by
      by_cases hnone : least l = 0
      · by_contra hne
        rw [hnone] at hne
        obtain ⟨x, hx, hfx⟩ := List.mem_map.1 (least_mem hne)
        obtain ⟨-, hall⟩ | ⟨hpos, -⟩ := hleast
        · have hx0 : x = 0 := le_antisymm (not_lt.1 (hall x hx)) (hl x hx)
          rw [hx0, hzero] at hfx
          exact hne hfx.symm
        · exact absurd hnone (ne_of_gt hpos)
      · have hmem : f (least l) ∈ l.map f := List.mem_map_of_mem (least_mem hnone)
        rw [hkept] at hmem
        obtain ⟨hne, hle⟩ := least_le hmem hnone
        obtain ⟨x, hx, hfx⟩ := List.mem_map.1 (least_mem hne)
        refine le_antisymm hle ?_
        obtain hx0 | hge := habove x hx
        · exact absurd (hfx.symm.trans hx0) hne
        · rwa [hfx] at hge
    rw [hsame]
    exact hleast

end

end Simorgh.Lib
