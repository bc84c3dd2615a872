import Mathlib.Data.List.Infix

/-!
# Separators

Texts that are put together with a separator that some of their parts do not have.

* `infix_append_cons_iff` — what has no separator in it is found on one side of one.
* `append_cons_inj` — the part before the first separator, and the rest, can be told.
* `not_mem_splitOn` — the pieces of a text between its separators.
-/

namespace Simorgh.Lib

variable {α : Type} {a : α}

/-- What has no separator in it is on one side of the separator. -/
theorem infix_append_cons_iff {w l l' : List α} (ha : a ∉ w) :
    w <:+: l ++ a :: l' ↔ w <:+: l ∨ w <:+: l' := by
  constructor
  · rintro ⟨s, t, h⟩
    obtain ⟨u, hl, -⟩ | ⟨u, hsw, hrest⟩ := List.append_eq_append_iff.1 h
    · exact .inl ⟨s, u, hl.symm⟩
    · cases u with
      | nil => exact .inl ⟨s, [], by rw [List.append_nil, hsw, List.append_nil]⟩
      | cons c u =>
          obtain ⟨rfl, hl'⟩ := List.cons.inj hrest
          obtain ⟨v, -, hw⟩ | ⟨v, hs, hv⟩ := List.append_eq_append_iff.1 hsw
          · exact absurd (hw ▸ List.mem_append_right v List.mem_cons_self) ha
          · cases v with
            | nil =>
                rw [List.nil_append] at hv
                exact absurd (hv ▸ List.mem_cons_self) ha
            | cons c v =>
                obtain ⟨-, rfl⟩ := List.cons.inj hv
                exact .inr ⟨v, t, hl'.symm⟩
  · rintro (h | h)
    · exact h.trans List.infix_append_left
    · exact (h.trans (List.infix_cons (List.infix_refl l'))).trans List.infix_append_right

/-- Two texts that agree have the same first field. -/
theorem append_cons_inj {u u' v v' : List α} (hu : a ∉ u) (hu' : a ∉ u')
    (h : u ++ a :: v = u' ++ a :: v') : u = u' ∧ v = v' := by
  induction u generalizing u' with
  | nil =>
      cases u' with
      | nil => exact ⟨rfl, (List.cons.inj h).2⟩
      | cons c u' =>
          have hc : a = c := (List.cons.inj h).1
          exact absurd (hc ▸ List.mem_cons_self) hu'
  | cons c u ih =>
      cases u' with
      | nil =>
          have hc : c = a := (List.cons.inj h).1
          exact absurd (hc ▸ List.mem_cons_self) hu
      | cons c' u' =>
          obtain ⟨rfl, htail⟩ := List.cons.inj h
          obtain ⟨rfl, rfl⟩ := ih (fun hm => hu (List.mem_cons_of_mem c hm))
            (fun hm => hu' (List.mem_cons_of_mem c hm)) htail
          exact ⟨rfl, rfl⟩

/-! ## Pieces -/

variable [DecidableEq α]

/-- No piece has a separator in it. -/
theorem not_mem_splitOn (l : List α) : ∀ piece ∈ l.splitOn a, a ∉ piece := by
  rw [List.splitOn_eq_splitOnP]
  induction l with
  | nil =>
      intro piece hpiece
      rw [List.splitOnP_nil, List.mem_singleton] at hpiece
      rw [hpiece]
      exact List.not_mem_nil
  | cons c l ih =>
      intro piece hpiece
      rw [List.splitOnP_cons_eq_if_modifyHead] at hpiece
      split at hpiece
      · rcases List.mem_cons.1 hpiece with rfl | hpiece
        · exact List.not_mem_nil
        · exact ih piece hpiece
      case isFalse hc =>
        cases hsplit : l.splitOnP (· == a) with
        | nil => exact absurd hsplit (List.splitOnP_ne_nil _ l)
        | cons first rest =>
            rw [hsplit, List.modifyHead_cons] at hpiece
            rcases List.mem_cons.1 hpiece with rfl | hpiece
            · rw [List.mem_cons, not_or]
              refine ⟨fun heq => hc (beq_iff_eq.2 heq.symm), ih first ?_⟩
              rw [hsplit]
              exact List.mem_cons_self
            · apply ih
              rw [hsplit]
              exact List.mem_cons_of_mem first hpiece

end Simorgh.Lib
