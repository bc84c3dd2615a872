import Mathlib.Order.PiLex
import Mathlib.Order.MinMax
import Mathlib.Data.List.Basic

/-!
# Lists continued by a filler

Lists of different lengths are compared place by place, with a filler where one of them has
ended: the lexicographic order of the sequences `padded` makes of them.

* `padded_cons_lt`, `padded_append_lt` — the order along the lists.
* `scan_eq_true_iff` — a loop that stops at the first difference decides the order.
* `padded_map_lt` — a strictly increasing map changes nothing.
* `padded_min_lt_iff` — neither does a ceiling on both, when the greater list stops at it;
  `padded_min_of_over`, `padded_min_of_rest` — where it does not, some list is misplaced.
-/

namespace Simorgh.Lib

section

variable {α : Type} [LinearOrder α] {z : α}

/-- The list, and then the filler for ever. -/
def padded (z : α) (l : List α) : Lex (ℕ → α) := toLex fun i => l.getD i z

theorem padded_lt_iff {l l' : List α} :
    padded z l < padded z l' ↔
      ∃ i, (∀ j, j < i → l.getD j z = l'.getD j z) ∧ l.getD i z < l'.getD i z :=
  Iff.rfl

omit [LinearOrder α] in
/-- A filler at the end is not seen. -/
theorem padded_singleton_self (z : α) : padded z [z] = padded z [] := by
  refine congrArg toLex (funext fun i => ?_)
  cases i <;> rfl

theorem padded_cons_lt {x y : α} {l l' : List α} :
    padded z (x :: l) < padded z (y :: l') ↔ x < y ∨ (x = y ∧ padded z l < padded z l') := by
  rw [padded_lt_iff, padded_lt_iff]
  constructor
  · rintro ⟨i, hbefore, hlt⟩
    cases i with
    | zero => exact .inl hlt
    | succ i =>
        refine .inr ⟨hbefore 0 (Nat.succ_pos i), i, ?_, hlt⟩
        intro j hj
        exact hbefore (j + 1) (Nat.succ_lt_succ hj)
  · rintro (hlt | ⟨rfl, i, hbefore, hlt⟩)
    · exact ⟨0, fun j hj => absurd hj (Nat.not_lt_zero j), hlt⟩
    · refine ⟨i + 1, ?_, hlt⟩
      intro j hj
      cases j with
      | zero => rfl
      | succ j => exact hbefore j (Nat.lt_of_succ_lt_succ hj)

/-- What the lists begin with in common does not matter. -/
theorem padded_append_lt (pre : List α) {l l' : List α} :
    padded z (pre ++ l) < padded z (pre ++ l') ↔ padded z l < padded z l' := by
  induction pre with
  | nil => exact Iff.rfl
  | cons x pre ih =>
      rw [List.cons_append, List.cons_append, padded_cons_lt, ih]
      exact ⟨fun h => (h.resolve_left (lt_irrefl x)).2, fun h => .inr ⟨rfl, h⟩⟩

/-- A list that goes on below the filler. -/
theorem padded_append_singleton_lt {w : α} (l : List α) :
    padded z (l ++ [w]) < padded z l ↔ w < z := by
  have hself : padded z (l ++ [w]) < padded z (l ++ []) ↔ padded z [w] < padded z [] := padded_append_lt l
  rw [List.append_nil, ← padded_singleton_self, padded_cons_lt] at hself
  rw [hself]
  exact ⟨fun h => h.resolve_right fun h => lt_irrefl _ h.2, .inl⟩

/-- A list that is above the filler somewhere and below it nowhere. -/
theorem padded_nil_lt {l : List α} (hle : ∀ y ∈ l, z ≤ y) (hne : ∃ y ∈ l, y ≠ z) :
    padded z [] < padded z l := by
  induction l with
  | nil =>
      obtain ⟨y, hy, -⟩ := hne
      exact absurd hy List.not_mem_nil
  | cons x l ih =>
      rw [← padded_singleton_self, padded_cons_lt]
      rcases (hle x List.mem_cons_self).lt_or_eq with hlt | rfl
      · exact .inl hlt
      · refine .inr ⟨rfl, ih (fun y hy => hle y (List.mem_cons_of_mem _ hy)) ?_⟩
        obtain ⟨y, hy, hyz⟩ := hne
        exact ⟨y, (List.mem_cons.1 hy).resolve_left hyz, hyz⟩

/-! ## Scanning -/

/-- A loop over the places that answers at the first difference. -/
def scan (x y : ℕ → α) : ℕ → ℕ → Bool
  | _, 0 => false
  | i, left + 1 => if x i ≠ y i then decide (y i < x i) else scan x y (i + 1) left

theorem scan_from_eq_true_iff {x y : ℕ → α} {i left : ℕ} (h : ∀ j, i + left ≤ j → x j = y j) :
    scan x y i left = true ↔ ∃ k, i ≤ k ∧ (∀ j, i ≤ j → j < k → y j = x j) ∧ y k < x k := by
  induction left generalizing i with
  | zero =>
      refine iff_of_false Bool.false_ne_true ?_
      rintro ⟨k, hk, -, hlt⟩
      exact absurd (h k hk) hlt.ne'
  | succ left ih =>
      rw [scan]
      split_ifs with hne
      · rw [decide_eq_true_eq]
        constructor
        · intro hlt
          exact ⟨i, le_rfl, fun j hij hji => absurd hij hji.not_ge, hlt⟩
        · rintro ⟨k, hk, hbefore, hlt⟩
          rcases hk.lt_or_eq with hik | rfl
          · exact absurd (hbefore i le_rfl hik).symm hne
          · exact hlt
      · have heq : x i = y i := not_not.1 hne
        rw [ih (fun j hj => h j (by omega))]
        constructor
        · rintro ⟨k, hk, hbefore, hlt⟩
          refine ⟨k, by omega, ?_, hlt⟩
          intro j hij hjk
          rcases hij.lt_or_eq with hij | rfl
          · exact hbefore j hij hjk
          · exact heq.symm
        · rintro ⟨k, hk, hbefore, hlt⟩
          have hik : i ≠ k := by
            rintro rfl
            exact absurd heq hlt.ne'
          exact ⟨k, by omega, fun j hij hjk => hbefore j (by omega) hjk, hlt⟩

/-- A scan over all places at which the sequences can differ decides their order. -/
theorem scan_eq_true_iff {x y : ℕ → α} {n : ℕ} (h : ∀ j, n ≤ j → x j = y j) :
    scan x y 0 n = true ↔ toLex y < toLex x := by
  rw [scan_from_eq_true_iff (fun j hj => h j (by omega))]
  constructor
  · rintro ⟨k, -, hbefore, hlt⟩
    exact ⟨k, fun j hj => hbefore j (Nat.zero_le j) hj, hlt⟩
  · rintro ⟨k, hbefore, hlt⟩
    exact ⟨k, Nat.zero_le k, fun j _ hj => hbefore j hj, hlt⟩

end

/-! ## Maps and ceilings -/

theorem padded_map {α β : Type} (f : α → β) (z : α) (l : List α) :
    padded (f z) (l.map f) = toLex fun i => f (l.getD i z) := by
  refine congrArg toLex (funext fun i => ?_)
  rw [List.getD_eq_getElem?_getD, List.getD_eq_getElem?_getD, List.getElem?_map, Option.getD_map]

theorem padded_map_lt {α β : Type} [LinearOrder α] [LinearOrder β] {f : α → β} (hf : StrictMono f)
    {z : α} {l l' : List α} :
    padded (f z) (l.map f) < padded (f z) (l'.map f) ↔ padded z l < padded z l' := by
  rw [padded_map, padded_map]
  constructor
  · rintro ⟨i, hbefore, hlt⟩
    exact ⟨i, fun j hj => hf.injective (hbefore j hj), hf.lt_iff_lt.1 hlt⟩
  · rintro ⟨i, hbefore, hlt⟩
    exact ⟨i, fun j hj => congrArg f (hbefore j hj), hf hlt⟩

section Ceiling

variable {α : Type} [LinearOrder α] {z top : α}

/-- The list stops at a ceiling: what reaches it does not exceed it, and only fillers follow. -/
def StopsAt (z top : α) (l : List α) : Prop :=
  ∀ pre x post, l = pre ++ x :: post → top ≤ x → x = top ∧ ∀ y ∈ post, y = z

omit [LinearOrder α] in
theorem getD_eq_of_forall {l : List α} (h : ∀ y ∈ l, y = z) (i : ℕ) : l.getD i z = z := by
  rw [List.getD_eq_getElem?_getD]
  cases hget : l[i]? with
  | none => rfl
  | some y => exact h y (List.mem_of_getElem? hget)

theorem StopsAt.getD {l : List α} (h : StopsAt z top l) (hz : z < top) {i : ℕ}
    (hi : top ≤ l.getD i z) : l.getD i z = top ∧ ∀ j, i < j → l.getD j z = z := by
  have hlen : i < l.length := by
    by_contra hlen
    rw [List.getD_eq_getElem?_getD, List.getElem?_eq_none (not_lt.1 hlen)] at hi
    exact absurd hi hz.not_ge
  have hget : l.getD i z = l[i] := by rw [List.getD_eq_getElem?_getD, List.getElem?_eq_getElem hlen]; rfl
  have hsplit : l = l.take i ++ l[i] :: l.drop (i + 1) := by simp
  rw [hget] at hi ⊢
  obtain ⟨htop, hrest⟩ := h _ _ _ hsplit hi
  refine ⟨htop, ?_⟩
  intro j hj
  have hdrop : l.getD j z = (l.drop (i + 1)).getD (j - (i + 1)) z := by
    rw [List.getD_eq_getElem?_getD, List.getD_eq_getElem?_getD, List.getElem?_drop]
    congr 3
    omega
  rw [hdrop]
  exact getD_eq_of_forall hrest _

/-- A ceiling leaves the order alone when the greater list stops at it. -/
theorem padded_min_lt_iff {l l' : List α} (hz : ∀ w, z ≤ w) (hzt : z < top) (h : StopsAt z top l) :
    padded z (l'.map (min top)) < padded z (l.map (min top)) ↔ padded z l' < padded z l := by
  have hmin : min top z = z := min_eq_right hzt.le
  have hmap : ∀ l : List α, padded z (l.map (min top)) = toLex fun i => min top (l.getD i z) := by
    intro l
    rw [← padded_map, hmin]
  rw [hmap, hmap]
  constructor
  · rintro ⟨i, hbefore, hlt⟩
    change min top (l'.getD i z) < min top (l.getD i z) at hlt
    refine ⟨i, ?_, lt_of_not_ge fun hle => absurd (min_le_min_left top hle) hlt.not_ge⟩
    intro j hj
    -- before the last place nothing is at the ceiling
    have hlow : l.getD j z < top := by
      by_contra htop
      have hend : l.getD i z = z := (h.getD hzt (not_lt.1 htop)).2 i hj
      rw [hend, hmin] at hlt
      exact absurd hlt (hz _).not_gt
    have hsame : min top (l'.getD j z) = min top (l.getD j z) := hbefore j hj
    rw [min_eq_right hlow.le] at hsame
    have hlow' : l'.getD j z ≤ top := by
      by_contra htop
      rw [min_eq_left (not_le.1 htop).le] at hsame
      exact absurd hsame.symm hlow.ne
    rw [min_eq_right hlow'] at hsame
    exact hsame
  · rintro ⟨i, hbefore, hlt⟩
    change l'.getD i z < l.getD i z at hlt
    have hlow : l'.getD i z < top := by
      by_contra htop
      have hle : top ≤ l'.getD i z := not_lt.1 htop
      exact absurd (h.getD hzt (hle.trans hlt.le)).1 (hle.trans_lt hlt).ne'
    refine ⟨i, fun j hj => congrArg (min top) (hbefore j hj), ?_⟩
    show min top (l'.getD i z) < min top (l.getD i z)
    rw [min_eq_right hlow.le]
    exact lt_min hlow hlt

/-- A list that goes over the ceiling, and a smaller one that is as large under it. -/
theorem padded_min_of_over {x w : α} (pre post : List α) (hz : ∀ w, z ≤ w) (hx : top < x) :
    padded z ((pre ++ top :: post) ++ [w]) < padded z (pre ++ x :: post) ∧
      ¬ padded z (((pre ++ top :: post) ++ [w]).map (min top)) <
        padded z ((pre ++ x :: post).map (min top)) := by
  constructor
  · rw [List.append_assoc, padded_append_lt, List.cons_append, padded_cons_lt]
    exact .inl hx
  · have hsame : (pre ++ x :: post).map (min top) = (pre ++ top :: post).map (min top) := by
      rw [List.map_append, List.map_append, List.map_cons, List.map_cons, min_eq_left hx.le, min_self]
    rw [hsame, List.map_append, List.map_singleton, padded_append_singleton_lt]
    exact (hz _).not_gt

/-- A list that goes on after the ceiling, and a larger one that is smaller under it. -/
theorem padded_min_of_rest {y : α} (pre : List α) {post : List α} (hz : ∀ w, z ≤ w) (hzt : z < top)
    (hy : top < y) (hpost : ∃ m ∈ post, m ≠ z) :
    ¬ padded z (pre ++ [y]) < padded z (pre ++ top :: post) ∧
      padded z ((pre ++ [y]).map (min top)) < padded z ((pre ++ top :: post).map (min top)) := by
  constructor
  · rw [padded_append_lt, padded_cons_lt]
    rintro (hlt | ⟨heq, -⟩)
    · exact lt_asymm hlt hy
    · exact hy.ne' heq
  · rw [List.map_append, List.map_append, List.map_singleton, List.map_cons, min_eq_left hy.le, min_self,
      padded_append_lt, padded_cons_lt]
    refine .inr ⟨rfl, padded_nil_lt (fun _ _ => hz _) ?_⟩
    obtain ⟨m, hm, hmz⟩ := hpost
    refine ⟨min top m, List.mem_map_of_mem hm, ?_⟩
    intro hmin
    rcases min_choice top m with h | h
    · exact hzt.ne' (h.symm.trans hmin)
    · exact hmz (h.symm.trans hmin)

end Ceiling

end Simorgh.Lib
