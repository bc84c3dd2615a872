import Mathlib.Data.List.Basic

/-!
# Scanners

A scanner goes over a list of lines with a state and finds a token in some of them.

* `Scanner.tokens_append` — what is found in the second part depends on the first part only
  through the state it leaves.
* `Scanner.tokens_rewrite` — a pass that changes lines so that each keeps its effect on the state
  and loses its token or keeps it leaves the tokens that are kept.
-/

namespace Simorgh.Lib

/-- One line at a time: the next state, and the token of the line. -/
structure Scanner (σ L T : Type) where
  next : σ → L → σ
  token : σ → L → Option T

namespace Scanner

variable {σ L T T' : Type} (m : Scanner σ L T)

/-- The state after some lines. -/
def after (s : σ) (ls : List L) : σ := ls.foldl m.next s

/-- The tokens of some lines. -/
def tokens : σ → List L → List T
  | _, [] => []
  | s, l :: ls => (m.token s l).toList ++ tokens (m.next s l) ls

/-- A pass over the lines: each is replaced by what the state says. -/
def rewrite (f : σ → L → L) : σ → List L → List L
  | _, [] => []
  | s, l :: ls => f s l :: rewrite f (m.next s l) ls

@[simp] theorem after_cons (s : σ) (l : L) (ls : List L) : m.after s (l :: ls) = m.after (m.next s l) ls := rfl

theorem tokens_append (s : σ) (ls ls' : List L) :
    m.tokens s (ls ++ ls') = m.tokens s ls ++ m.tokens (m.after s ls) ls' := by
  induction ls generalizing s with
  | nil => rfl
  | cons l ls ih => rw [List.cons_append, tokens, tokens, ih, List.append_assoc, after_cons]

section Rewriting

variable {m} {f : σ → L → L} {keep : T → Bool}

theorem after_rewrite (hnext : ∀ s l, m.next s (f s l) = m.next s l) (s : σ) (ls : List L) :
    m.after s (m.rewrite f s ls) = m.after s ls := by
  induction ls generalizing s with
  | nil => rfl
  | cons l ls ih => rw [rewrite, after_cons, after_cons, hnext, ih]

theorem tokens_rewrite (hnext : ∀ s l, m.next s (f s l) = m.next s l)
    (htoken : ∀ s l, m.token s (f s l) = (m.token s l).filter keep) (s : σ) (ls : List L) :
    m.tokens s (m.rewrite f s ls) = (m.tokens s ls).filter keep := by
  induction ls generalizing s with
  | nil => rfl
  | cons l ls ih =>
      rw [rewrite, tokens, tokens, List.filter_append, hnext, htoken, ih]
      cases m.token s l with
      | none => rfl
      | some t => cases hkeep : keep t <;> simp [hkeep, Option.filter]

theorem mem_rewrite {s : σ} {ls : List L} {l' : L} (h : l' ∈ m.rewrite f s ls) :
    ∃ t, ∃ l ∈ ls, l' = f t l := by
  induction ls generalizing s with
  | nil => cases h
  | cons l ls ih =>
      rcases List.mem_cons.1 h with rfl | h
      · exact ⟨s, l, List.mem_cons_self, rfl⟩
      · obtain ⟨t, l, hl, rfl⟩ := ih h
        exact ⟨t, l, List.mem_cons_of_mem _ hl, rfl⟩

end Rewriting

/-- Another scanner with the same states sees the same in a pass that keeps its tokens. -/
theorem tokens_rewrite_other (m : Scanner σ L T) (m' : Scanner σ L T') {f : σ → L → L}
    (hstates : m'.next = m.next) (hnext : ∀ s l, m.next s (f s l) = m.next s l)
    (htoken : ∀ s l, m'.token s (f s l) = m'.token s l) (s : σ) (ls : List L) :
    m'.tokens s (m.rewrite f s ls) = m'.tokens s ls := by
  induction ls generalizing s with
  | nil => rfl
  | cons l ls ih => rw [rewrite, tokens, tokens, htoken, hstates, hnext, ih]

end Scanner

end Simorgh.Lib
