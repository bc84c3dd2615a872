import Mathlib.Algebra.Order.Ring.Int
import Simorgh.Lib.Run

/-!
# The generations of a node's desired state

A node is sent the whole of what it should run, under a generation that rises.  The
handler compares the generation with the last one it has recorded, applies the
state and records it, each on its own; what is recorded is in memory only.

* `Server.step` — one step of a handler, the arrival of a request, or a restart.
* `InOrder` — generations are handed over in rising order, and the highest one
  accepted is in force whenever no request is under way.
* `Orderly` — no request passes the check while another is under way, or with a
  generation of which the node has lost the record.
* `applied_in_order` — every orderly run is in order.
* `replayed_after_restart` — a recorded request is applied again after a restart.
-/

namespace Simorgh.Node

open Simorgh.Lib

variable {C : Type}

/-- What a node should be running: the content, under its generation. -/
structure DesiredState (C : Type) where
  generation : ℤ
  content : C
  deriving DecidableEq

/-! ## Replies -/

/-- `itoa`.  The least `int64` has no negative. -/
def itoa (v : ℤ) : String := if v = -2 ^ 63 then "-" else toString v

/-- The answers of `handleApply`. -/
inductive Reply where
  | badRequest
  | conflict (text : String)
  | failed
  | ok
  deriving DecidableEq

/-- The error that names both generations. -/
def staleText (got last : ℤ) : String :=
  "node: refusing a desired state whose generation does not advance (got " ++ itoa got ++
    ", already at " ++ itoa last ++ ")"

/-! ## The handler -/

/-- Where a request stands: past the check, with the runner, or applied and about to be
recorded. -/
inductive Phase where
  | checked | applying | applied
  deriving DecidableEq

/-- One call of `handleApply`. -/
structure Handler (C : Type) where
  state : DesiredState C
  phase : Phase := .checked
  deriving DecidableEq

/-- A node.  What was handed to the runner, what it accepted and which generations were
handed over without a record that is left are kept beside the server; it does not have
them. -/
structure Server (C : Type) where
  lastGeneration : ℤ := 0
  handlers : List (Handler C) := []
  inForce : Option (DesiredState C) := none
  replies : List Reply := []
  handed : List (DesiredState C) := []
  accepted : List (DesiredState C) := []
  unrecorded : List ℤ := []

/-- Requests, and the steps of their handlers. -/
inductive Event (C : Type) where
  | garbled
  | receive (state : DesiredState C)
  | call (k : ℕ)
  | finish (k : ℕ) (ok : Bool)
  | record (k : ℕ)
  | restart

/-- `handleApply`, up to the check. -/
def Server.receive (s : Server C) (state : DesiredState C) : Server C :=
  if state.generation ≤ s.lastGeneration then
    { s with replies := s.replies ++ [.conflict (staleText state.generation s.lastGeneration)] }
  else { s with handlers := s.handlers ++ [{ state := state }] }

/-- `runner.Apply` returns.  The runner returns its error before it has changed anything,
and the generation is not advanced. -/
def Server.finish (s : Server C) (k : ℕ) (h : Handler C) : Bool → Server C
  | true =>
      { s with
        handlers := s.handlers.set k { h with phase := .applied }
        inForce := some h.state
        accepted := s.accepted ++ [h.state] }
  | false =>
      { s with
        handlers := s.handlers.eraseIdx k
        replies := s.replies ++ [.failed]
        unrecorded := h.state.generation :: s.unrecorded }

/-- The second critical section. -/
def Server.record (s : Server C) (k : ℕ) (h : Handler C) : Server C :=
  { s with
    handlers := s.handlers.eraseIdx k
    lastGeneration := max s.lastGeneration h.state.generation
    replies := s.replies ++ [.ok] }

/-- One step.  Each request goes through its phases, in whatever order they come in; a
restart ends them all and leaves what is in force. -/
def Server.step (s : Server C) : Event C → Server C
  | .garbled => { s with replies := s.replies ++ [.badRequest] }
  | .receive state => s.receive state
  | .call k =>
      match s.handlers[k]? with
      | some ⟨state, .checked⟩ =>
          { s with handlers := s.handlers.set k ⟨state, .applying⟩, handed := s.handed ++ [state] }
      | _ => s
  | .finish k ok =>
      match s.handlers[k]? with
      | some ⟨state, .applying⟩ => s.finish k ⟨state, .applying⟩ ok
      | _ => s
  | .record k =>
      match s.handlers[k]? with
      | some ⟨state, .applied⟩ => s.record k ⟨state, .applied⟩
      | _ => s
  | .restart =>
      { s with
        lastGeneration := 0
        handlers := []
        unrecorded := s.lastGeneration :: (s.handlers.map (·.state.generation) ++ s.unrecorded) }

/-! ## What is asked of a run -/

/-- Of the states accepted so far, the one with the highest generation is in force. -/
def HighestInForce (s : Server C) : Prop :=
  match s.inForce with
  | none => s.accepted = []
  | some state => state ∈ s.accepted ∧ ∀ a ∈ s.accepted, a.generation ≤ state.generation

/-- States are handed to the runner in the order of their generations, and whenever no
request is under way the highest one accepted is in force. -/
def InOrder (s : Server C) : Prop :=
  (s.handed.map (·.generation)).Pairwise (· < ·) ∧ (s.handlers = [] → HighestInForce s)

/-- A request that passes the check finds no other under way, and its generation is above
those that were handed over and have no record any more. -/
def Orderly (s : Server C) : Event C → Prop
  | .receive state =>
      state.generation ≤ s.lastGeneration ∨
        s.handlers = [] ∧ ∀ g ∈ s.unrecorded, g < state.generation
  | _ => True

instance Orderly.decidable [DecidableEq C] (s : Server C) : (e : Event C) → Decidable (Orderly s e)
  | .receive state => inferInstanceAs (Decidable (state.generation ≤ s.lastGeneration ∨ _ ∧ _))
  | .garbled | .call _ | .finish _ _ | .record _ | .restart => isTrue trivial

/-- A request on its own, from its arrival to its record. -/
def applyAlone (state : DesiredState C) : List (Event C) :=
  [.receive state, .call 0, .finish 0 true, .record 0]

/-- A captured request is sent again after the node has been restarted, and the revoked
state is back in force; of two requests at once, the one with the lower generation passes
the check first and is handed over last. -/
theorem replayed_after_restart :
    ¬ InOrder (run Server.step {} (applyAlone ⟨1, "revoked"⟩ ++ applyAlone ⟨2, "current"⟩ ++
        [.restart] ++ applyAlone ⟨1, "revoked"⟩)) ∧
      ¬ InOrder (run Server.step {} [.receive ⟨1, "revoked"⟩, .receive ⟨2, "current"⟩, .call 1,
        .finish 1 true, .record 1, .call 0, .finish 0 true, .record 0]) := by
  constructor
  · rintro ⟨hrising, -⟩
    revert hrising
    decide
  · rintro ⟨-, hforce⟩
    have hlow := (hforce (by decide)).2 ⟨2, "current"⟩ (by decide)
    revert hlow
    decide

/-! ## Orderly runs -/

/-- What every orderly step keeps. -/
structure Tidy (s : Server C) : Prop where
  rising : (s.handed.map (·.generation)).Pairwise (· < ·)
  highest : HighestInForce s
  one : s.handlers.length ≤ 1
  acceptedHanded : ∀ a ∈ s.accepted, a ∈ s.handed
  -- what was handed over is recorded, known to have no record, or under way
  known : ∀ a ∈ s.handed, a.generation ≤ s.lastGeneration ∨ (∃ u ∈ s.unrecorded, a.generation ≤ u) ∨
    ∃ h ∈ s.handlers, h.phase ≠ .checked ∧ a.generation ≤ h.state.generation
  waiting : ∀ h ∈ s.handlers, h.phase = .checked → ∀ a ∈ s.handed, a.generation < h.state.generation
  applying : ∀ h ∈ s.handlers, h.phase = .applying →
    ∀ a ∈ s.accepted, a.generation ≤ h.state.generation
  begun : ∀ h ∈ s.handlers, h.phase ≠ .checked → h.state ∈ s.handed

theorem Tidy.start : Tidy ({} : Server C) where
  rising := List.Pairwise.nil
  highest := rfl
  one := Nat.zero_le 1
  acceptedHanded _ ha := absurd ha List.not_mem_nil
  known _ ha := absurd ha List.not_mem_nil
  waiting _ hh := absurd hh List.not_mem_nil
  applying _ hh := absurd hh List.not_mem_nil
  begun _ hh := absurd hh List.not_mem_nil

theorem Tidy.inOrder {s : Server C} (hs : Tidy s) : InOrder s := ⟨hs.rising, fun _ => hs.highest⟩

/-- A handler that is under way is the only one. -/
theorem Tidy.alone {s : Server C} (hs : Tidy s) {k : ℕ} {h : Handler C} (hk : s.handlers[k]? = some h) :
    k = 0 ∧ s.handlers = [h] := by
  have hone := hs.one
  cases hlist : s.handlers with
  | nil =>
      rw [hlist] at hk
      cases hk
  | cons x rest =>
      rw [hlist, List.length_cons] at hone
      have hrest : rest = [] := List.eq_nil_of_length_eq_zero (by omega)
      subst hrest
      rw [hlist] at hk
      cases k with
      | zero =>
          cases hk
          exact ⟨rfl, rfl⟩
      | succ k => cases hk

theorem Tidy.receive {s : Server C} (hs : Tidy s) {state : DesiredState C}
    (horderly : Orderly s (.receive state)) : Tidy (s.receive state) := by
  unfold Server.receive
  split
  · exact { hs with }
  · rename_i hnew
    obtain ⟨hnone, hlost⟩ := horderly.resolve_left hnew
    have habove : ∀ a ∈ s.handed, a.generation < state.generation := by
      intro a ha
      rcases hs.known a ha with hlast | ⟨u, hu, hle⟩ | ⟨h, hh, -⟩
      · omega
      · exact lt_of_le_of_lt hle (hlost u hu)
      · rw [hnone] at hh
        cases hh
    have honly : ∀ h ∈ s.handlers ++ [{ state := state }], h = ({ state := state } : Handler C) := by
      rw [hnone]
      exact fun h hh => List.mem_singleton.1 hh
    refine ⟨hs.rising, hs.highest, by simp [hnone], hs.acceptedHanded, ?_, ?_, ?_, ?_⟩
    · intro a ha
      rcases hs.known a ha with hlast | hu | ⟨h, hh, -⟩
      · exact Or.inl hlast
      · exact Or.inr (Or.inl hu)
      · rw [hnone] at hh
        cases hh
    · intro h hh _ a ha
      rw [honly h hh]
      exact habove a ha
    · intro h hh hphase
      rw [honly h hh] at hphase
      cases hphase
    · intro h hh hphase
      rw [honly h hh] at hphase
      exact absurd rfl hphase

theorem Tidy.call {s : Server C} (hs : Tidy s) {state : DesiredState C}
    (hlist : s.handlers = [⟨state, .checked⟩]) :
    Tidy { s with handlers := [⟨state, .applying⟩], handed := s.handed ++ [state] } := by
  have habove : ∀ a ∈ s.handed, a.generation < state.generation :=
    hs.waiting ⟨state, .checked⟩ (by simp [hlist]) rfl
  refine ⟨?_, hs.highest, le_rfl, ?_, ?_, ?_, ?_, ?_⟩
  · rw [List.map_append, List.pairwise_append]
    refine ⟨hs.rising, List.pairwise_singleton _ _, fun g hg g' hg' => ?_⟩
    obtain ⟨a, ha, rfl⟩ := List.mem_map.1 hg
    rw [List.map_singleton, List.mem_singleton] at hg'
    rw [hg']
    exact habove a ha
  · exact fun a ha => List.mem_append_left _ (hs.acceptedHanded a ha)
  · intro a ha
    refine Or.inr (Or.inr ⟨⟨state, .applying⟩, List.mem_singleton_self _, by simp, ?_⟩)
    rcases List.mem_append.1 ha with ha | ha
    · exact (habove a ha).le
    · rw [List.mem_singleton.1 ha]
  · intro h hh hphase
    rw [List.mem_singleton.1 hh] at hphase
    cases hphase
  · intro h hh _ a ha
    rw [List.mem_singleton.1 hh]
    exact (habove a (hs.acceptedHanded a ha)).le
  · intro h hh _
    rw [List.mem_singleton.1 hh]
    exact List.mem_append_right _ (List.mem_singleton_self _)

theorem Tidy.finish {s : Server C} (hs : Tidy s) {state : DesiredState C}
    (hlist : s.handlers = [⟨state, .applying⟩]) (ok : Bool) :
    Tidy (s.finish 0 ⟨state, .applying⟩ ok) := by
  have hmem : (⟨state, .applying⟩ : Handler C) ∈ s.handlers := by simp [hlist]
  have hbelow : ∀ a ∈ s.accepted, a.generation ≤ state.generation := hs.applying _ hmem rfl
  have hknown : ∀ a ∈ s.handed, a.generation ≤ s.lastGeneration ∨
      (∃ u ∈ s.unrecorded, a.generation ≤ u) ∨ a.generation ≤ state.generation := by
    intro a ha
    rcases hs.known a ha with hlast | hu | ⟨h, hh, -, hle⟩
    · exact Or.inl hlast
    · exact Or.inr (Or.inl hu)
    · rw [hlist, List.mem_singleton] at hh
      rw [hh] at hle
      exact Or.inr (Or.inr hle)
  cases ok with
  | true =>
      have hset : s.handlers.set 0 ⟨state, .applied⟩ = [⟨state, .applied⟩] := by rw [hlist]; rfl
      simp only [Server.finish, hset]
      refine ⟨hs.rising, ⟨by simp, ?_⟩, le_rfl, ?_, ?_, ?_, ?_, ?_⟩
      · intro a ha
        rcases List.mem_append.1 ha with ha | ha
        · exact hbelow a ha
        · rw [List.mem_singleton.1 ha]
      · intro a ha
        rcases List.mem_append.1 ha with ha | ha
        · exact hs.acceptedHanded a ha
        · rw [List.mem_singleton.1 ha]
          exact hs.begun _ hmem (by simp)
      · intro a ha
        rcases hknown a ha with hlast | hu | hle
        · exact Or.inl hlast
        · exact Or.inr (Or.inl hu)
        · exact Or.inr (Or.inr ⟨_, List.mem_singleton_self _, by simp, hle⟩)
      · intro h hh hphase
        rw [List.mem_singleton.1 hh] at hphase
        cases hphase
      · intro h hh hphase
        rw [List.mem_singleton.1 hh] at hphase
        cases hphase
      · intro h hh _
        rw [List.mem_singleton.1 hh]
        exact hs.begun ⟨state, .applying⟩ hmem (by simp)
  | false =>
      have herase : s.handlers.eraseIdx 0 = [] := by rw [hlist]; rfl
      simp only [Server.finish, herase]
      refine ⟨hs.rising, hs.highest, Nat.zero_le 1, hs.acceptedHanded, ?_, by simp, by simp, by simp⟩
      intro a ha
      rcases hknown a ha with hlast | ⟨u, hu, hle⟩ | hle
      · exact Or.inl hlast
      · exact Or.inr (Or.inl ⟨u, List.mem_cons_of_mem _ hu, hle⟩)
      · exact Or.inr (Or.inl ⟨_, List.mem_cons_self, hle⟩)

theorem Tidy.record {s : Server C} (hs : Tidy s) {state : DesiredState C}
    (hlist : s.handlers = [⟨state, .applied⟩]) : Tidy (s.record 0 ⟨state, .applied⟩) := by
  have herase : s.handlers.eraseIdx 0 = [] := by rw [hlist]; rfl
  simp only [Server.record, herase]
  refine ⟨hs.rising, hs.highest, Nat.zero_le 1, hs.acceptedHanded, ?_, by simp, by simp, by simp⟩
  intro a ha
  rcases hs.known a ha with hlast | hu | ⟨h, hh, -, hle⟩
  · exact Or.inl (hlast.trans (le_max_left _ _))
  · exact Or.inr (Or.inl hu)
  · rw [hlist, List.mem_singleton] at hh
    rw [hh] at hle
    exact Or.inl (hle.trans (le_max_right _ _))

theorem Tidy.restart {s : Server C} (hs : Tidy s) : Tidy (s.step .restart) := by
  refine ⟨hs.rising, hs.highest, Nat.zero_le 1, hs.acceptedHanded, ?_, by simp [Server.step],
    by simp [Server.step], by simp [Server.step]⟩
  intro a ha
  refine Or.inr (Or.inl ?_)
  rcases hs.known a ha with hlast | ⟨u, hu, hle⟩ | ⟨h, hh, -, hle⟩
  · exact ⟨s.lastGeneration, List.mem_cons_self, hlast⟩
  · exact ⟨u, List.mem_cons_of_mem _ (List.mem_append_right _ hu), hle⟩
  · exact ⟨h.state.generation, List.mem_cons_of_mem _
      (List.mem_append_left _ (List.mem_map_of_mem hh)), hle⟩

theorem Tidy.step {s : Server C} (hs : Tidy s) (e : Event C) (horderly : Orderly s e) :
    Tidy (s.step e) := by
  cases e with
  | garbled => exact { hs with }
  | receive state => exact hs.receive horderly
  | call k =>
      simp only [Server.step]
      split
      · rename_i state hk
        obtain ⟨rfl, hlist⟩ := hs.alone hk
        have hset : s.handlers.set 0 ⟨state, .applying⟩ = [⟨state, .applying⟩] := by rw [hlist]; rfl
        rw [hset]
        exact hs.call hlist
      · exact hs
  | finish k ok =>
      simp only [Server.step]
      split
      · rename_i state hk
        obtain ⟨rfl, hlist⟩ := hs.alone hk
        exact hs.finish hlist ok
      · exact hs
  | record k =>
      simp only [Server.step]
      split
      · rename_i state hk
        obtain ⟨rfl, hlist⟩ := hs.alone hk
        exact hs.record hlist
      · exact hs
  | restart => exact hs.restart

/-- As long as requests do not overlap and none passes the check whose generation the
node handed over before and has no record of, the states handed to the runner rise and
the highest one accepted is in force. -/
theorem applied_in_order (events : List (Event C)) (h : AllSteps Server.step Orderly {} events) :
    ∀ s ∈ states Server.step ({} : Server C) events, InOrder s := fun s hs =>
  (h.invariant (fun _ e ht horderly => Tidy.step ht e horderly) Tidy.start s hs).inOrder

/-- A request that is recorded, a copy of it, one that fails, a restart and the one after
it. -/
theorem applied_in_order_across_restart :
    InOrder (run Server.step {} (applyAlone ⟨1, "first"⟩ ++ [.receive ⟨1, "first"⟩,
        .receive ⟨2, "second"⟩, .call 0, .finish 0 false, .restart] ++ applyAlone ⟨3, "third"⟩)) ∧
      (run Server.step {} (applyAlone ⟨1, "first"⟩ ++ [.receive ⟨1, "first"⟩,
        .receive ⟨2, "second"⟩, .call 0, .finish 0 false, .restart] ++
          applyAlone ⟨3, "third"⟩)).inForce = some ⟨3, "third"⟩ :=
  ⟨applied_in_order _ (by decide) _ (run_mem_states _ _), by decide⟩

end Simorgh.Node
