import Mathlib.Data.List.Sort
import Mathlib.Data.List.Perm.Subperm
import Mathlib.Data.List.Range

/-!
# Moving some members of a list among their places

Some members of a list are put into a new order, in the places that they hold between
them; the others stay.  `place` says where each member goes.

* `insertionSort_idxOf` — the places of the moved members, sorted, are those they hold.
* `place_inj`, `place_lt` — every member has a place of its own.
* `getElem?_place` — in a rearrangement that is sorted by place, each member is at its place.
-/

namespace Simorgh.Lib

section

variable {α : Type} [DecidableEq α] {l l' moved : List α} {a b : α}

/-- The places some members hold in a list, in ascending order. -/
def held (l moved : List α) : List Nat :=
  (List.range l.length).filter fun i => (l[i]?).any fun a => decide (a ∈ moved)

/-- The place a member goes to. -/
def place (l moved : List α) (a : α) : Nat :=
  if a ∈ moved then (held l moved).getD (moved.idxOf a) 0 else l.idxOf a

theorem mem_held {i : Nat} : i ∈ held l moved ↔ ∃ a ∈ moved, l[i]? = some a := by
  unfold held
  rw [List.mem_filter, List.mem_range, Option.any_eq_true]
  constructor
  · rintro ⟨-, a, ha, hmoved⟩
    exact ⟨a, of_decide_eq_true hmoved, ha⟩
  · rintro ⟨a, hmoved, ha⟩
    obtain ⟨hi, -⟩ := List.getElem?_eq_some_iff.1 ha
    exact ⟨hi, a, ha, decide_eq_true hmoved⟩

theorem held_pairwise (l moved : List α) : (held l moved).Pairwise (· < ·) :=
  List.pairwise_lt_range.filter _

/-- Two lists of places with the same members are one. -/
theorem held_eq_of_mem_iff (h : ∀ i, i ∈ held l moved ↔ i ∈ held l' moved) : held l moved = held l' moved := by
  have hnodup : ∀ l : List α, (held l moved).Nodup := fun l => (held_pairwise l moved).imp fun h => ne_of_lt h
  have hperm := (List.perm_ext_iff_of_nodup (hnodup l) (hnodup l')).2 h
  have hsorted : ∀ l : List α, (held l moved).Pairwise (· ≤ ·) := fun l =>
    (held_pairwise l moved).imp fun h => le_of_lt h
  exact hperm.eq_of_pairwise' (hsorted l) (hsorted l')

theorem getElem?_idxOf (ha : a ∈ l) : l[l.idxOf a]? = some a := by
  rw [List.getElem?_eq_getElem (List.idxOf_lt_length_iff.2 ha), List.getElem_idxOf]

theorem idxOf_eq_of_getElem? (hl : l.Nodup) {i : Nat} (h : l[i]? = some a) : l.idxOf a = i := by
  obtain ⟨hi, rfl⟩ := List.getElem?_eq_some_iff.1 h
  exact hl.idxOf_getElem i hi

theorem idxOf_inj_of_mem (ha : a ∈ l) (hb : b ∈ l) (h : l.idxOf a = l.idxOf b) : a = b := by
  have hsame := getElem?_idxOf ha
  rw [h, getElem?_idxOf hb] at hsame
  exact (Option.some_inj.1 hsame).symm

/-- The places of the moved members are the ones they hold. -/
theorem perm_held (hl : l.Nodup) (hmoved : moved.Nodup) (hsub : ∀ a ∈ moved, a ∈ l) :
    (moved.map l.idxOf).Perm (held l moved) := by
  have hnodup : (moved.map l.idxOf).Nodup :=
    List.Nodup.map_on (fun a ha b hb h => idxOf_inj_of_mem (hsub a ha) (hsub b hb) h) hmoved
  rw [List.perm_ext_iff_of_nodup hnodup ((held_pairwise l moved).imp fun h => ne_of_lt h)]
  intro i
  rw [mem_held, List.mem_map]
  constructor
  · rintro ⟨a, ha, rfl⟩
    exact ⟨a, ha, getElem?_idxOf (hsub a ha)⟩
  · rintro ⟨a, ha, hi⟩
    exact ⟨a, ha, idxOf_eq_of_getElem? hl hi⟩

theorem insertionSort_idxOf (hl : l.Nodup) (hmoved : moved.Nodup) (hsub : ∀ a ∈ moved, a ∈ l) :
    (moved.map l.idxOf).insertionSort (· ≤ ·) = held l moved := by
  refine List.Perm.eq_of_pairwise' (List.pairwise_insertionSort (· ≤ ·) _) ?_ ?_
  · exact (held_pairwise l moved).imp fun h => le_of_lt h
  · exact (List.perm_insertionSort _ _).trans (perm_held hl hmoved hsub)

theorem length_held (hl : l.Nodup) (hmoved : moved.Nodup) (hsub : ∀ a ∈ moved, a ∈ l) :
    (held l moved).length = moved.length := by
  rw [← (perm_held hl hmoved hsub).length_eq, List.length_map]

/-- A moved member goes to one of the places they hold. -/
theorem getElem?_held (hl : l.Nodup) (hmoved : moved.Nodup) (hsub : ∀ a ∈ moved, a ∈ l) (ha : a ∈ moved) :
    (held l moved)[moved.idxOf a]? = some (place l moved a) := by
  have hi : moved.idxOf a < (held l moved).length := by
    rw [length_held hl hmoved hsub]
    exact List.idxOf_lt_length_iff.2 ha
  rw [place, if_pos ha, List.getD_eq_getElem?_getD, List.getElem?_eq_getElem hi]
  rfl

theorem place_of_notMem (ha : a ∉ moved) : place l moved a = l.idxOf a := if_neg ha

theorem place_mem_held_iff (hl : l.Nodup) (hmoved : moved.Nodup) (hsub : ∀ a ∈ moved, a ∈ l) (ha : a ∈ l) :
    place l moved a ∈ held l moved ↔ a ∈ moved := by
  constructor
  · intro hplace
    by_contra hstays
    rw [place_of_notMem hstays, mem_held] at hplace
    obtain ⟨b, hb, hi⟩ := hplace
    rw [getElem?_idxOf ha, Option.some_inj] at hi
    exact hstays (hi ▸ hb)
  · intro hmem
    exact List.mem_of_getElem? (getElem?_held hl hmoved hsub hmem)

theorem place_lt (hl : l.Nodup) (hmoved : moved.Nodup) (hsub : ∀ a ∈ moved, a ∈ l) (ha : a ∈ l) :
    place l moved a < l.length := by
  by_cases hmem : a ∈ moved
  · have hplace := (place_mem_held_iff hl hmoved hsub ha).2 hmem
    exact List.mem_range.1 (List.mem_filter.1 hplace).1
  · rw [place_of_notMem hmem]
    exact List.idxOf_lt_length_iff.2 ha

/-- No two members go to the same place. -/
theorem place_inj (hl : l.Nodup) (hmoved : moved.Nodup) (hsub : ∀ a ∈ moved, a ∈ l) (ha : a ∈ l) (hb : b ∈ l)
    (h : place l moved a = place l moved b) : a = b := by
  have hboth : a ∈ moved ↔ b ∈ moved := by
    rw [← place_mem_held_iff hl hmoved hsub ha, ← place_mem_held_iff hl hmoved hsub hb, h]
  by_cases hmem : a ∈ moved
  · have hmem' := hboth.1 hmem
    have hi := getElem?_held hl hmoved hsub hmem
    have hj := getElem?_held hl hmoved hsub hmem'
    rw [← h] at hj
    have hnodup : (held l moved).Nodup := (held_pairwise l moved).imp fun h => ne_of_lt h
    have hidx := (idxOf_eq_of_getElem? hnodup hi).symm.trans (idxOf_eq_of_getElem? hnodup hj)
    exact idxOf_inj_of_mem hmem hmem' hidx
  · rw [place_of_notMem hmem, place_of_notMem fun hb => hmem (hboth.2 hb)] at h
    exact idxOf_inj_of_mem ha hb h

omit [DecidableEq α] in
/-- Numbers that increase along a list and stay below its length count it. -/
theorem map_eq_range {f : α → Nat} (hinc : l.Pairwise fun a b => f a < f b) (hlt : ∀ a ∈ l, f a < l.length) :
    l.map f = List.range l.length := by
  have hsorted : (l.map f).Pairwise (· < ·) := List.pairwise_map.2 hinc
  have hnodup : (l.map f).Nodup := hsorted.imp fun h => ne_of_lt h
  have hsub : l.map f ⊆ List.range l.length := by
    intro i hi
    obtain ⟨a, ha, rfl⟩ := List.mem_map.1 hi
    exact List.mem_range.2 (hlt a ha)
  have hperm : (l.map f).Perm (List.range l.length) :=
    (hnodup.subperm hsub).perm_of_length_le (by simp)
  exact hperm.eq_of_pairwise' (hsorted.imp fun h => le_of_lt h) List.pairwise_le_range

/-- A rearrangement sorted by place has each member at its place. -/
theorem getElem?_place (hl : l.Nodup) (hmoved : moved.Nodup) (hsub : ∀ a ∈ moved, a ∈ l) (hperm : l'.Perm l)
    (hsorted : l'.Pairwise fun a b => place l moved a < place l moved b) (ha : a ∈ l) :
    l'[place l moved a]? = some a := by
  have hcount := map_eq_range hsorted fun b hb => by
    rw [hperm.length_eq]
    exact place_lt hl hmoved hsub (hperm.mem_iff.1 hb)
  obtain ⟨i, hi, hat⟩ := List.getElem_of_mem (hperm.mem_iff.2 ha)
  have hplace : place l moved a = i := by
    have hith : (l'.map (place l moved))[i]? = (List.range l'.length)[i]? := by rw [hcount]
    rw [List.getElem?_map, List.getElem?_eq_getElem hi, List.getElem?_range hi, hat] at hith
    exact Option.some_inj.1 hith
  rw [hplace, List.getElem?_eq_getElem hi, hat]

end

end Simorgh.Lib
