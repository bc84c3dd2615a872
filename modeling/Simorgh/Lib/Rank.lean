import Mathlib

/-!
# Ranks

The first and the last of a list in the order of a stable sort, told without sorting: by how
many come before, or after.

* `take_eq_filter`, `drop_eq_filter` — in a list in strict order, the first `k` are those with
  fewer than `k` before them, the last `k` those with fewer than `k` after them.
* `Precedes` — by the key, and by the place where the keys are equal.
* `pairwise_precedes` — a stable sort puts the elements into that order.
* `stableSort_eq_of_perm` — it does not matter in which order they were, if no keys are equal.
* `flatMap_filter_perm` — a list falls apart into the parts with one key each.
-/

namespace Simorgh.Lib

/-! ## Lists in strict order -/

section Strict

variable {α : Type} {r : α → α → Prop} [DecidableRel r]

/-- How many of the list come before. -/
def rank (r : α → α → Prop) [DecidableRel r] (l : List α) (x : α) : ℕ := l.countP fun y => decide (r y x)

theorem rank_perm {l l' : List α} (h : l.Perm l') (x : α) : rank r l x = rank r l' x := h.countP_eq _

/-- The first ones are those of a low rank. -/
theorem take_eq_filter (hasymm : ∀ a b, r a b → ¬r b a) {l : List α} (hl : l.Pairwise r) (k : ℕ) :
    l.take k = l.filter fun x => decide (rank r l x < k) := by
  induction l generalizing k with
  | nil => rw [List.take_nil, List.filter_nil]
  | cons a l ih =>
      obtain ⟨ha, hl⟩ := List.pairwise_cons.1 hl
      cases k with
      | zero => simp
      | succ k =>
          -- nothing comes before the head, and the head comes before everything else
          have hhead : rank r (a :: l) a = 0 := by
            rw [rank, List.countP_eq_zero]
            intro b hb
            rw [decide_eq_true_eq]
            obtain rfl | hb := List.mem_cons.1 hb
            · exact fun h => hasymm _ _ h h
            · exact hasymm _ _ (ha b hb)
          have htail : ∀ b ∈ l, decide (rank r (a :: l) b < k + 1) = decide (rank r l b < k) := by
            intro b hb
            rw [rank, List.countP_cons_of_pos (by simpa using ha b hb)]
            exact decide_eq_decide.2 Nat.add_lt_add_iff_right
          rw [List.take_succ_cons, List.filter_cons_of_pos (by simp [hhead]), ih hl, List.filter_congr htail]

/-- The last ones are those of a low rank from behind. -/
theorem drop_eq_filter (hasymm : ∀ a b, r a b → ¬r b a) {l : List α} (hl : l.Pairwise r) (k : ℕ) :
    l.drop (l.length - k) = l.filter fun x => decide (rank (fun a b => r b a) l x < k) := by
  have htake := take_eq_filter (r := fun a b => r b a) (fun a b h => hasymm b a h) (List.pairwise_reverse.2 hl) k
  rw [List.take_reverse, List.filter_reverse] at htake
  rw [List.reverse_injective htake]
  refine List.filter_congr fun x _ => ?_
  rw [rank_perm l.reverse_perm]

/-- Something of the list is not before an element of it. -/
theorem rank_lt_length (hasymm : ∀ a b, r a b → ¬r b a) {l : List α} {x : α} (hx : x ∈ l) :
    rank r l x < l.length := by
  refine lt_of_le_of_ne List.countP_le_length fun h => ?_
  have hself := List.countP_eq_length.1 h x hx
  rw [decide_eq_true_eq] at hself
  exact hasymm x x hself hself

end Strict

/-! ## A stable sort -/

section Stable

variable {α β : Type} [LinearOrder β] (key : α → β)

/-- The order of a stable sort: by the key, and by the place where the keys are equal. -/
def Precedes (x y : α × ℕ) : Prop := key x.1 < key y.1 ∨ key x.1 = key y.1 ∧ x.2 < y.2

instance : DecidableRel (Precedes key) := fun _ _ => inferInstanceAs (Decidable (_ ∨ _))

theorem Precedes.asymm (x y : α × ℕ) (h : Precedes key x y) : ¬Precedes key y x := by
  rintro (h' | ⟨heq, h'⟩)
  · obtain h | ⟨heq, -⟩ := h
    · exact lt_asymm h h'
    · exact h'.ne heq.symm
  · obtain h | ⟨-, h⟩ := h
    · exact h.ne heq.symm
    · exact lt_asymm h h'

/-- `sort.SliceStable` by the key. -/
def stableSort (l : List α) : List α := l.mergeSort fun a b => decide (key a ≤ key b)

theorem stableSort_perm (l : List α) : (stableSort key l).Perm l := List.mergeSort_perm l _

theorem stableSort_map_fst (z : List (α × ℕ)) :
    stableSort key (z.map Prod.fst) = (stableSort (fun x => key x.1) z).map Prod.fst := by
  unfold stableSort
  rw [List.map_mergeSort]
  exact fun _ _ _ _ => rfl

theorem key_le_trans (a b c : α) (hab : decide (key a ≤ key b) = true) (hbc : decide (key b ≤ key c) = true) :
    decide (key a ≤ key c) = true := by
  rw [decide_eq_true_eq] at *
  exact hab.trans hbc

theorem key_le_total (a b : α) : (decide (key a ≤ key b) || decide (key b ≤ key a)) = true := by
  rw [Bool.or_eq_true, decide_eq_true_eq, decide_eq_true_eq]
  exact le_total _ _

theorem pairwise_stableSort (l : List α) : (stableSort key l).Pairwise fun a b => key a ≤ key b := by
  refine (List.pairwise_mergeSort (key_le_trans key) (key_le_total key) l).imp ?_
  exact fun h => of_decide_eq_true h

/-- Where no two elements have one key, only the elements matter. -/
theorem stableSort_eq_of_perm {l l' : List α} (h : l.Perm l') (hkeys : (l.map key).Nodup) :
    stableSort key l = stableSort key l' := by
  refine List.Perm.eq_of_pairwise (fun a b ha hb hab hba => ?_) (pairwise_stableSort key l)
    (pairwise_stableSort key l') (((stableSort_perm key l).trans h).trans (stableSort_perm key l').symm)
  have ha' := (stableSort_perm key l).subset ha
  have hb' := h.symm.subset ((stableSort_perm key l').subset hb)
  exact List.inj_on_of_nodup_map hkeys ha' hb' (le_antisymm hab hba)

/-- The elements with one key stay as they were. -/
theorem filter_stableSort (l : List α) (c : β) :
    (stableSort key l).filter (fun a => decide (key a = c)) = l.filter fun a => decide (key a = c) := by
  have hequal : (l.filter fun a => decide (key a = c)).Pairwise fun a b => decide (key a ≤ key b) = true := by
    refine List.pairwise_of_forall_mem_list fun a ha b hb => ?_
    have hca : key a = c := by simpa using (List.mem_filter.1 ha).2
    have hcb : key b = c := by simpa using (List.mem_filter.1 hb).2
    rw [decide_eq_true_eq, hca, hcb]
  have hsublist := (List.sublist_mergeSort (key_le_trans key) (key_le_total key) hequal List.filter_sublist).filter
    (fun a => decide (key a = c))
  simp only [List.filter_filter, Bool.and_self] at hsublist
  refine (hsublist.eq_of_length ?_).symm
  exact ((stableSort_perm key l).filter _).length_eq.symm

/-- The sorted list is in the order of `Precedes`. -/
theorem pairwise_precedes {z : List (α × ℕ)} (hz : z.Pairwise fun x y => x.2 < y.2) :
    (stableSort (fun x : α × ℕ => key x.1) z).Pairwise (Precedes key) := by
  have hsorted := List.pairwise_mergeSort (key_le_trans fun x : α × ℕ => key x.1)
    (key_le_total fun x : α × ℕ => key x.1) z
  rw [List.pairwise_iff_forall_sublist] at hsorted hz ⊢
  intro a b hab
  have hle : key a.1 ≤ key b.1 := by simpa using hsorted hab
  refine hle.lt_or_eq.imp_right fun heq => ⟨heq, ?_⟩
  have hpair := hab.filter fun x => decide (key x.1 = key b.1)
  rw [filter_stableSort fun x : α × ℕ => key x.1, List.filter_cons_of_pos (by simpa using heq),
    List.filter_cons_of_pos (by simp), List.filter_nil] at hpair
  exact hz (hpair.trans List.filter_sublist)

end Stable

/-! ## Parts -/

/-- The parts of a list with one key each make up the list. -/
theorem flatMap_filter_perm {α κ : Type} [DecidableEq κ] (f : α → κ) {keys : List κ} (hkeys : keys.Nodup)
    {l : List α} (hl : ∀ x ∈ l, f x ∈ keys) : (keys.flatMap fun k => l.filter fun x => decide (f x = k)).Perm l := by
  induction keys generalizing l with
  | nil =>
      cases l with
      | nil => rfl
      | cons x l => cases hl x List.mem_cons_self
  | cons k keys ih =>
      obtain ⟨hk, hkeys⟩ := List.nodup_cons.1 hkeys
      have hrest : ∀ x ∈ l.filter (fun x => !decide (f x = k)), f x ∈ keys := by
        intro x hx
        obtain ⟨hx, hne⟩ := List.mem_filter.1 hx
        exact (List.mem_cons.1 (hl x hx)).resolve_left (by simpa using hne)
      have hparts : (keys.flatMap fun k => l.filter fun x => decide (f x = k)) =
          keys.flatMap fun k' => (l.filter fun x => !decide (f x = k)).filter fun x => decide (f x = k') := by
        refine List.flatMap_congr fun k' hk' => ?_
        rw [List.filter_filter]
        refine List.filter_congr fun x _ => ?_
        by_cases hx : f x = k'
        · have hne : k' ≠ k := fun h => hk (h ▸ hk')
          simp [hx, hne]
        · simp [hx]
      rw [List.flatMap_cons, hparts]
      exact ((ih hkeys hrest).append_left _).trans (List.filter_append_perm _ l)

end Simorgh.Lib
