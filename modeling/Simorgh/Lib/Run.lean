/-!
# Runs of a step function

A system is a step function `step : σ → α → σ`; a run is what a list of actions
does to a state.  A condition on steps is read at the state each step starts
from.

* `AllSteps.invariant` — what the start satisfies and every allowed step keeps
  holds in every state the run reaches.
* `AllSteps.congr` — conditions that agree on the invariant agree on the runs.
* `AllSteps.transitions` — what is true of every allowed step from a state that
  satisfies the invariant is true of every transition of the run.
* `AllSteps.of_states` — what the states of a run say about its steps.
* `run_rel` — a simulation of one step function by another, along runs.
* `exists_step_of_run` — the step at which something became true.
* `run_stepAt` — a member of a family goes through its own actions only.
-/

namespace Simorgh.Lib

variable {σ α : Type}

/-- The state a list of actions leads to. -/
def run (step : σ → α → σ) (s : σ) (as : List α) : σ := as.foldl step s

/-- The states a run passes through, the first and the last included. -/
def states (step : σ → α → σ) (s : σ) : List α → List σ
  | [] => [s]
  | a :: as => s :: states step (step s a) as

/-- Every action of the run meets a condition at the state it is taken in. -/
def AllSteps (step : σ → α → σ) (ok : σ → α → Prop) (s : σ) : List α → Prop
  | [] => True
  | a :: as => ok s a ∧ AllSteps step ok (step s a) as

instance AllSteps.decidable (step : σ → α → σ) (ok : σ → α → Prop)
    [∀ s a, Decidable (ok s a)] (s : σ) : (as : List α) → Decidable (AllSteps step ok s as)
  | [] => isTrue trivial
  | a :: as =>
      have := AllSteps.decidable step ok (step s a) as
      inferInstanceAs (Decidable (ok s a ∧ AllSteps step ok (step s a) as))

variable {step : σ → α → σ} {ok ok' : σ → α → Prop}

@[simp] theorem run_nil (s : σ) : run step s [] = s := rfl

@[simp] theorem run_cons (s : σ) (a : α) (as : List α) :
    run step s (a :: as) = run step (step s a) as := rfl

theorem AllSteps.of_forall (h : ∀ s a, ok s a) (s : σ) (as : List α) : AllSteps step ok s as := by
  induction as generalizing s with
  | nil => trivial
  | cons a as ih => exact ⟨h s a, ih (step s a)⟩

/-- An invariant of the allowed steps holds in every state of a run. -/
theorem AllSteps.invariant {Inv : σ → Prop} (hstep : ∀ s a, Inv s → ok s a → Inv (step s a))
    {s : σ} {as : List α} (h : AllSteps step ok s as) (hs : Inv s) :
    ∀ t ∈ states step s as, Inv t := by
  induction as generalizing s with
  | nil =>
      intro t ht
      rw [states, List.mem_singleton] at ht
      exact ht ▸ hs
  | cons a as ih =>
      intro t ht
      rw [states, List.mem_cons] at ht
      rcases ht with rfl | ht
      · exact hs
      · exact ih h.2 (hstep s a hs h.1) t ht

/-- A condition every allowed step from an invariant state meets is met by every
step of the run. -/
theorem AllSteps.transitions {Inv : σ → Prop}
    (hstep : ∀ s a, Inv s → ok s a → Inv (step s a) ∧ ok' s a) {s : σ} {as : List α}
    (h : AllSteps step ok s as) (hs : Inv s) : AllSteps step ok' s as := by
  induction as generalizing s with
  | nil => trivial
  | cons a as ih =>
      obtain ⟨hinv, hok⟩ := hstep s a hs h.1
      exact ⟨hok, ih h.2 hinv⟩

/-- A condition that follows from what the next state satisfies is met by every step of a
run all of whose states satisfy it. -/
theorem AllSteps.of_states {Inv good : σ → Prop} (hstep : ∀ s a, Inv s → Inv (step s a))
    (hok : ∀ s a, Inv s → good s → good (step s a) → ok s a) {s : σ} {as : List α} (hs : Inv s)
    (h : ∀ t ∈ states step s as, good t) : AllSteps step ok s as := by
  induction as generalizing s with
  | nil => trivial
  | cons a as ih =>
      have hhere : good s := h s (List.mem_cons_self)
      have hrest : ∀ t ∈ states step (step s a) as, good t := fun t ht => h t (List.mem_cons_of_mem s ht)
      have hnext : good (step s a) := by
        cases as with
        | nil => exact hrest _ (List.mem_singleton_self _)
        | cons b bs => exact hrest _ List.mem_cons_self
      exact ⟨hok s a hs hhere hnext, ih (hstep s a hs) hrest⟩

/-- Two conditions that say the same from every state of an invariant they keep say
the same of every run. -/
theorem AllSteps.congr {Inv : σ → Prop} (hiff : ∀ s a, Inv s → (ok s a ↔ ok' s a))
    (hkeep : ∀ s a, Inv s → ok s a → Inv (step s a)) {s : σ} {as : List α} (hs : Inv s) :
    AllSteps step ok s as ↔ AllSteps step ok' s as := by
  induction as generalizing s with
  | nil => exact Iff.rfl
  | cons a as ih =>
      constructor
      · rintro ⟨hok, hrest⟩
        exact ⟨(hiff s a hs).1 hok, (ih (hkeep s a hs hok)).1 hrest⟩
      · rintro ⟨hok, hrest⟩
        have hok := (hiff s a hs).2 hok
        exact ⟨hok, (ih (hkeep s a hs hok)).2 hrest⟩

/-- A relation that paired steps keep holds at the end of paired runs. -/
theorem run_rel {τ : Type} {step' : τ → α → τ} {R : σ → τ → Prop}
    (hstep : ∀ s t a, R s t → R (step s a) (step' t a)) {s : σ} {t : τ} (h : R s t)
    (as : List α) : R (run step s as) (run step' t as) := by
  induction as generalizing s t with
  | nil => exact h
  | cons a as ih => exact ih (hstep s t a h)

theorem run_append (s : σ) (as bs : List α) :
    run step s (as ++ bs) = run step (run step s as) bs :=
  List.foldl_append

theorem AllSteps.append_iff {s : σ} {as bs : List α} :
    AllSteps step ok s (as ++ bs) ↔ AllSteps step ok s as ∧ AllSteps step ok (run step s as) bs := by
  induction as generalizing s with
  | nil => exact ⟨fun h => ⟨trivial, h⟩, And.right⟩
  | cons a as ih =>
      rw [List.cons_append, AllSteps, AllSteps, ih, and_assoc]
      rfl

/-- What is false at the start of a run and true at its end became true at some step. -/
theorem exists_step_of_run {p : σ → Prop} {s : σ} {as : List α} (hs : ¬ p s)
    (h : p (run step s as)) :
    ∃ pre a post, as = pre ++ a :: post ∧ ¬ p (run step s pre) ∧ p (step (run step s pre) a) := by
  induction as generalizing s with
  | nil => exact absurd h hs
  | cons a as ih =>
      by_cases ha : p (step s a)
      · exact ⟨[], a, as, rfl, hs, ha⟩
      · obtain ⟨pre, b, post, rfl, hpre, hb⟩ := ih ha h
        exact ⟨a :: pre, b, post, rfl, hpre, hb⟩

theorem start_mem_states (s : σ) (as : List α) : s ∈ states step s as := by
  cases as <;> simp [states]

theorem run_mem_states (s : σ) (as : List α) : run step s as ∈ states step s as := by
  induction as generalizing s with
  | nil => simp [states]
  | cons a as ih =>
      rw [states, List.mem_cons, run_cons]
      exact Or.inr (ih (step s a))

/-! ## Families -/

section Family

variable {κ : Type} [DecidableEq κ]

/-- A step of one member of a family, the one the action names. -/
def stepAt (step : κ → σ → α → σ) (s : κ → Option σ) (a : κ × α) : κ → Option σ :=
  fun k => if a.1 = k then (s k).map fun x => step k x a.2 else s k

/-- The actions of one member. -/
def actionsOf (k : κ) (as : List (κ × α)) : List α :=
  as.filterMap fun a => if a.1 = k then some a.2 else none

/-- Each member of a family sees its own actions only. -/
theorem run_stepAt (step : κ → σ → α → σ) (s : κ → Option σ) (as : List (κ × α)) (k : κ) :
    run (stepAt step) s as k = (s k).map fun x => run (step k) x (actionsOf k as) := by
  induction as generalizing s with
  | nil => simp [actionsOf]
  | cons a as ih =>
      rw [run_cons, ih]
      by_cases hk : a.1 = k
      · simp only [stepAt, actionsOf, List.filterMap_cons, if_pos hk, Option.map_map]
        rfl
      · simp only [stepAt, actionsOf, List.filterMap_cons, if_neg hk]

end Family

end Simorgh.Lib
