import Mathlib.Algebra.Order.Ring.Rat
import Simorgh.Lib.Run

/-!
# Switching between servers

A client with several servers probes the idle ones every few seconds.  A server that
beats the active path by a margin, some rounds in a row, becomes the active one; when the
link goes quiet the client takes the first server that answers.

* `switch_confirmed` — while every round finds a measurement of the active path, no silent
  server scores below the margin, and a reconnect that changes the server finds all
  counters at zero, a switch is confirmed by that many rounds.
* `unmeasured_round_counts` — a round before the first measurement counts as one.
-/

namespace Simorgh.Tunnel

open Simorgh.Lib

/-! ## The rounds -/

/-- `SWITCH_MARGIN_MS` and `SWITCH_CONFIRM_ROUNDS`. -/
structure SwitchConfig where
  switchMarginMs : Int
  switchConfirmRounds : Int

/-- What is kept of a server. -/
structure Candidate where
  consecutiveBetter : Nat := 0
  lastScore : ℚ := 0

/-- Lower is better. -/
def pathScore (rttMs lossPct : ℚ) : ℚ := rttMs + lossPct * 20

/-- What a health check finds: the snapshot of the active path, the milliseconds in which
each server answers its probe, and whether the handshake of a switch is answered. -/
structure Round where
  activeRTT : ℚ
  activeLoss : ℚ
  probes : Nat → Option Nat
  handshake : Bool := true

namespace Round

/-- The score of the active server. -/
def activeScore (r : Round) : ℚ := pathScore r.activeRTT r.activeLoss

/-- Nothing has been measured yet. -/
def freshLink (r : Round) : Bool := decide (r.activeRTT = 0)

/-- The score to be below. -/
def threshold (cfg : SwitchConfig) (r : Round) : ℚ := r.activeScore - cfg.switchMarginMs

end Round

/-- The candidates and the active one. -/
structure Failover where
  candidates : List Candidate
  activeIdx : Nat

namespace Failover

/-- A probe of an idle server. -/
def probe (r : Round) (i : Nat) (c : Candidate) : Candidate :=
  match r.probes i with
  | none => ⟨0, pathScore 2000 100⟩
  | some ms => { c with lastScore := pathScore ms 0 }

/-- The candidates once the idle ones are probed. -/
def probed (s : Failover) (r : Round) : List Candidate :=
  s.candidates.mapIdx fun i c => if i = s.activeIdx then c else probe r i c

/-- The loop looks at one candidate. -/
def consider (cfg : SwitchConfig) (s : Failover) (r : Round) (best : Option Nat × ℚ)
    (x : Candidate × Nat) : Option Nat × ℚ :=
  if x.2 = s.activeIdx then best
  else if r.freshLink = true ∨ x.1.lastScore < r.threshold cfg then
    if best.1 = none ∨ x.1.lastScore < best.2 then (some x.2, x.1.lastScore) else best
  else best

/-- The candidate that is counted. -/
def bestIdx (cfg : SwitchConfig) (s : Failover) (r : Round) : Option Nat :=
  ((s.probed r).zipIdx.foldl (s.consider cfg r) (none, r.activeScore)).1

/-- The candidates once the best of them is counted. -/
def counted (cfg : SwitchConfig) (s : Failover) (r : Round) : List Candidate :=
  (s.probed r).mapIdx fun i c =>
    if some i = s.bestIdx cfg r then { c with consecutiveBetter := c.consecutiveBetter + 1 }
    else if i ≠ s.activeIdx then { c with consecutiveBetter := 0 }
    else c

/-- For how many rounds it was better. -/
def consecutiveBetter (candidates : List Candidate) (i : Nat) : Nat :=
  (candidates[i]?.map Candidate.consecutiveBetter).getD 0

/-- One round of probes. -/
def runHealthChecks (cfg : SwitchConfig) (s : Failover) (r : Round) : Failover :=
  match s.bestIdx cfg r with
  | none => ⟨s.counted cfg r, s.activeIdx⟩
  | some best =>
      if r.freshLink = true ∨
          (consecutiveBetter (s.counted cfg r) best : Int) < cfg.switchConfirmRounds then
        ⟨s.counted cfg r, s.activeIdx⟩
      else if r.handshake then
        ⟨(s.counted cfg r).modify best fun c => { c with consecutiveBetter := 0 }, best⟩
      else ⟨s.counted cfg r, s.activeIdx⟩

/-- One pass over the servers, with those that answer.  Without an answer the next pass
follows. -/
def activateFirstReachable (s : Failover) (answers : Nat → Bool) : Failover :=
  match (List.range s.candidates.length).find? answers with
  | none => s
  | some i => ⟨s.candidates, i⟩

end Failover

/-- A round of probes, or a reconnect. -/
inductive FailoverEvent where
  | round (r : Round)
  | reconnect (answers : Nat → Bool)

/-- The client and its rounds so far, the last one first, each with the server that was
active. -/
structure FailoverRun where
  client : Failover
  rounds : List (Nat × Round) := []

namespace FailoverRun

/-- One event. -/
def step (cfg : SwitchConfig) (s : FailoverRun) : FailoverEvent → FailoverRun
  | .round r => ⟨s.client.runHealthChecks cfg r, (s.client.activeIdx, r) :: s.rounds⟩
  | .reconnect answers => ⟨s.client.activateFirstReachable answers, s.rounds⟩

/-- A client of `n` servers. -/
def start (n : Nat) : FailoverRun := { client := ⟨List.replicate n {}, 0⟩ }

end FailoverRun

/-- The server answered its probe, and its score is below the active one by the margin. -/
def Round.Beats (cfg : SwitchConfig) (r : Round) (i : Nat) : Prop :=
  ∃ ms ∈ r.probes i, pathScore ms 0 < r.threshold cfg

instance (cfg : SwitchConfig) (r : Round) (i : Nat) : Decidable (r.Beats cfg i) :=
  match h : r.probes i with
  | none => isFalse fun ⟨_, hms, _⟩ => by rw [h] at hms; cases hms
  | some ms => decidable_of_iff (pathScore ms 0 < r.threshold cfg)
      ⟨fun hlt => ⟨ms, h, hlt⟩, fun ⟨_, hms, hlt⟩ => by rw [h] at hms; cases hms; exact hlt⟩

/-- In each of the last `m` rounds the server beat the active one, which was the same in all
of them. -/
def Streak (cfg : SwitchConfig) (rounds : List (Nat × Round)) (active i m : Nat) : Prop :=
  m ≤ rounds.length ∧ ∀ x ∈ rounds.take m, x.1 = active ∧ x.2.Beats cfg i

/-- A round that switches does so after `SWITCH_CONFIRM_ROUNDS` rounds, this one included. -/
def Confirmed (cfg : SwitchConfig) (s : FailoverRun) : FailoverEvent → Prop
  | .round r => (s.step cfg (.round r)).client.activeIdx ≠ s.client.activeIdx →
      Streak cfg (s.step cfg (.round r)).rounds s.client.activeIdx
        (s.step cfg (.round r)).client.activeIdx cfg.switchConfirmRounds.toNat
  | .reconnect _ => True

/-- The active path has been measured, or some server beats it anyway, and a server that
does not answer is not below the margin.  A reconnect stays on the active server or finds
all counters at zero. -/
def Measured (cfg : SwitchConfig) (s : FailoverRun) : FailoverEvent → Prop
  | .round r =>
      (r.activeRTT ≠ 0 ∨ ∃ i < s.client.candidates.length, i ≠ s.client.activeIdx ∧ r.Beats cfg i) ∧
        ∀ i < s.client.candidates.length, i ≠ s.client.activeIdx → r.probes i = none →
          r.threshold cfg ≤ pathScore 2000 100
  | .reconnect answers =>
      (s.client.activateFirstReachable answers).activeIdx = s.client.activeIdx ∨
        ∀ c ∈ s.client.candidates, c.consecutiveBetter = 0

/-! ## The candidate that is counted -/

namespace Failover

variable {cfg : SwitchConfig} {s : Failover} {r : Round}

/-- A candidate the loop may take. -/
def Eligible (cfg : SwitchConfig) (s : Failover) (r : Round) (x : Candidate × Nat) : Prop :=
  x.2 ≠ s.activeIdx ∧ (r.freshLink = true ∨ x.1.lastScore < r.threshold cfg)

theorem consider_of_not {best : Option Nat × ℚ} {x : Candidate × Nat} (h : ¬Eligible cfg s r x) :
    s.consider cfg r best x = best := by
  unfold consider
  split
  · rfl
  case isFalse hidle => rw [if_neg fun hlow => h ⟨hidle, hlow⟩]

theorem consider_of {best : Option Nat × ℚ} {x : Candidate × Nat} (h : Eligible cfg s r x) :
    s.consider cfg r best x =
      if best.1 = none ∨ x.1.lastScore < best.2 then (some x.2, x.1.lastScore) else best := by
  rw [consider, if_neg h.1, if_pos h.2]

/-- What the loop has when it has seen some candidates: what it had, or an eligible one of
them; and once it has one, none of those seen is better. -/
theorem foldl_consider (cfg : SwitchConfig) (s : Failover) (r : Round) (l : List (Candidate × Nat))
    (best : Option Nat × ℚ) :
    (l.foldl (s.consider cfg r) best = best ∨
      ∃ x ∈ l, Eligible cfg s r x ∧ l.foldl (s.consider cfg r) best = (some x.2, x.1.lastScore)) ∧
    (best.1 ≠ none → (l.foldl (s.consider cfg r) best).2 ≤ best.2) ∧
    ∀ x ∈ l, Eligible cfg s r x → (l.foldl (s.consider cfg r) best).2 ≤ x.1.lastScore := by
  induction l generalizing best with
  | nil => exact ⟨Or.inl rfl, fun _ => le_refl _, fun x hx => absurd hx List.not_mem_nil⟩
  | cons y l ih =>
      rw [List.foldl_cons]
      obtain ⟨hwhich, hmono, hleast⟩ := ih (s.consider cfg r best y)
      by_cases hy : Eligible cfg s r y
      · -- the candidate is taken, or there is one that is no worse
        have hnext : (s.consider cfg r best y).1 ≠ none ∧
            (best.1 ≠ none → (s.consider cfg r best y).2 ≤ best.2) ∧
            (s.consider cfg r best y).2 ≤ y.1.lastScore := by
          rw [consider_of hy]
          split
          case isTrue hlow =>
            exact ⟨Option.some_ne_none _, fun hne => (hlow.resolve_left hne).le, le_refl _⟩
          case isFalse hlow =>
            rw [not_or, not_lt] at hlow
            exact ⟨hlow.1, fun _ => le_refl _, hlow.2⟩
        obtain ⟨hsome, hbest, hle⟩ := hnext
        refine ⟨?_, fun hne => (hmono hsome).trans (hbest hne), fun x hx hxe => ?_⟩
        · rcases hwhich with heq | ⟨x, hx, hxe, heq⟩
          · rw [heq, consider_of hy]
            split
            · exact Or.inr ⟨y, List.mem_cons_self, hy, rfl⟩
            · exact Or.inl rfl
          · exact Or.inr ⟨x, List.mem_cons_of_mem y hx, hxe, heq⟩
        · rcases List.mem_cons.1 hx with rfl | hx
          · exact (hmono hsome).trans hle
          · exact hleast x hx hxe
      · rw [consider_of_not hy] at hwhich hmono hleast ⊢
        refine ⟨hwhich.imp id fun ⟨x, hx, hxe, heq⟩ => ⟨x, List.mem_cons_of_mem y hx, hxe, heq⟩,
          hmono, fun x hx hxe => ?_⟩
        rcases List.mem_cons.1 hx with rfl | hx
        · exact absurd hxe hy
        · exact hleast x hx hxe

theorem getElem?_probed_active : (s.probed r)[s.activeIdx]? = s.candidates[s.activeIdx]? := by
  rw [probed, List.getElem?_mapIdx]
  simp only [if_pos, Option.map_id']

theorem getElem?_probed_idle {i : Nat} (hi : i ≠ s.activeIdx) :
    (s.probed r)[i]? = s.candidates[i]?.map (probe r i) := by
  rw [probed, List.getElem?_mapIdx]
  simp only [if_neg hi]

theorem lastScore_probe_none {i : Nat} (h : r.probes i = none) (c : Candidate) :
    (probe r i c).lastScore = pathScore 2000 100 := by
  rw [probe, h]

theorem lastScore_probe_some {i ms : Nat} (h : r.probes i = some ms) (c : Candidate) :
    (probe r i c).lastScore = pathScore ms 0 := by
  rw [probe, h]

/-- The candidate that is counted is an idle one, and no server that could be counted has a
lower score. -/
theorem bestIdx_eq_some {i : Nat} (h : s.bestIdx cfg r = some i) :
    ∃ c, (s.probed r)[i]? = some c ∧ Eligible cfg s r (c, i) ∧
      ∀ j c', (s.probed r)[j]? = some c' → Eligible cfg s r (c', j) → c.lastScore ≤ c'.lastScore := by
  unfold bestIdx at h
  obtain ⟨hwhich, -, hleast⟩ := foldl_consider cfg s r (s.probed r).zipIdx (none, r.activeScore)
  rcases hwhich with heq | ⟨⟨c, j⟩, hx, hxe, heq⟩
  · rw [heq] at h
    cases h
  · rw [heq] at h hleast
    cases h
    refine ⟨c, List.mk_mem_zipIdx_iff_getElem?.1 hx, hxe, fun k c' hk hke => ?_⟩
    exact hleast (c', k) (List.mk_mem_zipIdx_iff_getElem?.2 hk) hke

theorem consecutiveBetter_probe (i : Nat) (c : Candidate) :
    (probe r i c).consecutiveBetter ≤ c.consecutiveBetter := by
  unfold probe
  cases r.probes i with
  | none => exact Nat.zero_le _
  | some ms => exact le_refl _

/-- A server that is counted in such a round beats the active one. -/
theorem beats_of_bestIdx {rounds : List (Nat × Round)} {i : Nat}
    (hok : Measured cfg ⟨s, rounds⟩ (.round r)) (h : s.bestIdx cfg r = some i) :
    i ≠ s.activeIdx ∧ r.Beats cfg i := by
  obtain ⟨hmeasured, hsilent⟩ := hok
  obtain ⟨c, hc, ⟨hi, hlow⟩, hleast⟩ := bestIdx_eq_some h
  simp only at hmeasured hsilent hi hlow
  refine ⟨hi, ?_⟩
  have hbelow : c.lastScore < r.threshold cfg := by
    rcases hmeasured with hrtt | ⟨j, hj, hja, ms, hms, hlt⟩
    · refine hlow.resolve_left ?_
      rw [Round.freshLink, decide_eq_true_iff]
      exact hrtt
    · -- the server that beats the active one is no better than the one counted
      have hprobed : (s.probed r)[j]? = some (probe r j s.candidates[j]) := by
        rw [getElem?_probed_idle hja, List.getElem?_eq_getElem hj, Option.map_some]
      rw [← lastScore_probe_some hms s.candidates[j]] at hlt
      exact (hleast j _ hprobed ⟨hja, Or.inr hlt⟩).trans_lt hlt
  rw [getElem?_probed_idle hi, Option.map_eq_some_iff] at hc
  obtain ⟨c', hc', rfl⟩ := hc
  cases hp : r.probes i with
  | none =>
      rw [lastScore_probe_none hp] at hbelow
      exact absurd hbelow (not_lt.2 (hsilent i (List.getElem?_eq_some_iff.1 hc').1 hi hp))
  | some ms =>
      rw [lastScore_probe_some hp] at hbelow
      exact ⟨ms, hp, hbelow⟩

theorem consecutiveBetter_counted (cfg : SwitchConfig) (s : Failover) (r : Round) (i : Nat) :
    consecutiveBetter (s.counted cfg r) i ≤
      (if some i = s.bestIdx cfg r then consecutiveBetter s.candidates i + 1
        else if i ≠ s.activeIdx then 0 else consecutiveBetter s.candidates i) := by
  rw [consecutiveBetter, counted, List.getElem?_mapIdx]
  cases hc : (s.probed r)[i]? with
  | none => exact Nat.zero_le _
  | some c =>
      have hle : c.consecutiveBetter ≤ consecutiveBetter s.candidates i := by
        by_cases hi : i = s.activeIdx
        · rw [hi, getElem?_probed_active] at hc
          rw [consecutiveBetter, hi, hc]
          exact le_refl _
        · rw [getElem?_probed_idle hi, Option.map_eq_some_iff] at hc
          obtain ⟨c', hc', rfl⟩ := hc
          rw [consecutiveBetter, hc']
          exact consecutiveBetter_probe i c'
      simp only [Option.map_some, Option.getD_some]
      split
      · exact Nat.succ_le_succ hle
      · split
        · exact le_refl _
        · exact hle

end Failover

/-! ## What the counters count -/

section Streaks

variable {cfg : SwitchConfig} {rounds : List (Nat × Round)} {active i m : Nat}

theorem Streak.zero : Streak cfg rounds active i 0 :=
  ⟨Nat.zero_le _, fun _ hx => absurd hx List.not_mem_nil⟩

theorem Streak.mono {m' : Nat} (h : Streak cfg rounds active i m) (hm : m' ≤ m) :
    Streak cfg rounds active i m' :=
  ⟨hm.trans h.1, fun x hx => h.2 x (List.take_subset_take_left rounds hm hx)⟩

theorem Streak.cons {r : Round} (h : Streak cfg rounds active i m) (hr : r.Beats cfg i) :
    Streak cfg ((active, r) :: rounds) active i (m + 1) := by
  refine ⟨Nat.succ_le_succ h.1, fun x hx => ?_⟩
  rw [List.take_succ_cons, List.mem_cons] at hx
  rcases hx with rfl | hx
  · exact ⟨rfl, hr⟩
  · exact h.2 x hx

end Streaks

/-- A counter counts rounds the server won, and the active server's is zero. -/
structure Counting (cfg : SwitchConfig) (s : FailoverRun) : Prop where
  active : Failover.consecutiveBetter s.client.candidates s.client.activeIdx = 0
  streak : ∀ i, Streak cfg s.rounds s.client.activeIdx i
    (Failover.consecutiveBetter s.client.candidates i)

namespace Counting

open Failover

variable {cfg : SwitchConfig} {s : FailoverRun} {r : Round}

theorem start (n : Nat) : Counting cfg (.start n) := by
  have hzero : ∀ i, consecutiveBetter (List.replicate n {}) i = 0 := by
    intro i
    rw [consecutiveBetter, List.getElem?_replicate]
    split <;> rfl
  refine ⟨hzero 0, fun i => ?_⟩
  rw [FailoverRun.start, hzero i]
  exact .zero

/-- The counters of a round. -/
theorem counted (h : Counting cfg s) (hok : Measured cfg s (.round r)) :
    Counting cfg ⟨⟨s.client.counted cfg r, s.client.activeIdx⟩, (s.client.activeIdx, r) :: s.rounds⟩ := by
  constructor
  · have hle := consecutiveBetter_counted cfg s.client r s.client.activeIdx
    rw [if_neg fun hbest => (beats_of_bestIdx hok hbest.symm).1 rfl, if_neg (not_not_intro rfl),
      h.active] at hle
    exact Nat.le_zero.1 hle
  · intro i
    refine Streak.mono ?_ (consecutiveBetter_counted cfg s.client r i)
    split
    case isTrue hbest => exact (h.streak i).cons (beats_of_bestIdx hok hbest.symm).2
    case isFalse =>
      split
      · exact .zero
      case isFalse hi =>
        rw [not_not.1 hi, h.active]
        exact .zero

/-- After a switch every counter is zero. -/
theorem switched (h : Counting cfg s) (hok : Measured cfg s (.round r)) {best : Nat}
    (hbest : s.client.bestIdx cfg r = some best) (rounds : List (Nat × Round)) :
    Counting cfg ⟨⟨(s.client.counted cfg r).modify best fun c => { c with consecutiveBetter := 0 }, best⟩,
      rounds⟩ := by
  have hzero : ∀ i, consecutiveBetter
      ((s.client.counted cfg r).modify best fun c => { c with consecutiveBetter := 0 }) i = 0 := by
    intro i
    rw [consecutiveBetter, List.getElem?_modify]
    by_cases hi : best = i
    · simp only [if_pos hi]
      cases (s.client.counted cfg r)[i]? <;> rfl
    · have hle := consecutiveBetter_counted cfg s.client r i
      rw [hbest, if_neg fun heq => hi (Option.some.inj heq).symm] at hle
      have hidle : consecutiveBetter (s.client.counted cfg r) i = 0 := by
        by_cases hactive : i = s.client.activeIdx
        · rw [hactive]
          exact (h.counted hok).active
        · rw [if_pos hactive] at hle
          exact Nat.le_zero.1 hle
      simp only [if_neg hi, Option.map_eq_map, Option.map_id']
      exact hidle
  refine ⟨hzero best, fun i => ?_⟩
  rw [hzero i]
  exact .zero

theorem step (h : Counting cfg s) {e : FailoverEvent} (hok : Measured cfg s e) :
    Counting cfg (s.step cfg e) ∧ Confirmed cfg s e := by
  cases e with
  | reconnect answers =>
      refine ⟨?_, trivial⟩
      simp only [FailoverRun.step, Measured, activateFirstReachable] at hok ⊢
      split
      · exact h
      case h_2 i hi =>
        rw [hi] at hok
        rcases hok with hsame | hzero
        · simp only at hsame
          rw [hsame]
          exact h
        · have hcounter : ∀ i, consecutiveBetter s.client.candidates i = 0 := by
            intro i
            rw [consecutiveBetter]
            cases hc : s.client.candidates[i]? with
            | none => rfl
            | some c => exact hzero c (List.mem_of_getElem? hc)
          refine ⟨hcounter i, fun j => ?_⟩
          rw [hcounter j]
          exact .zero
  | round r =>
      have hcounted := h.counted hok
      simp only [FailoverRun.step, Confirmed, runHealthChecks]
      cases hbest : s.client.bestIdx cfg r with
      | none => exact ⟨hcounted, fun hne => absurd rfl hne⟩
      | some best =>
          simp only
          split
          · exact ⟨hcounted, fun hne => absurd rfl hne⟩
          case isFalse hconfirmed =>
            split
            · refine ⟨h.switched hok hbest _, fun _ => (hcounted.streak best).mono ?_⟩
              rw [not_or, not_lt] at hconfirmed
              simp only
              omega
            · exact ⟨hcounted, fun hne => absurd rfl hne⟩

end Counting

/-- In every run in which the rounds find the active path measured, no silent server scores
below the margin, and a reconnect that changes the server finds the counters at zero, every
switch is confirmed. -/
theorem switch_confirmed (cfg : SwitchConfig) (n : Nat) (events : List FailoverEvent)
    (hok : AllSteps (FailoverRun.step cfg) (Measured cfg) (.start n) events) :
    AllSteps (FailoverRun.step cfg) (Confirmed cfg) (.start n) events :=
  hok.transitions (fun _ _ h hstep => h.step hstep) (Counting.start n)

/-! ## Rounds that should not count -/

/-- The margin and the rounds in use unless set. -/
def defaultSwitch : SwitchConfig := ⟨15, 3⟩

/-- The second of two servers answers after `ms` milliseconds. -/
def secondAnswers (rtt : ℚ) (ms : Nat) : FailoverEvent :=
  .round { activeRTT := rtt, activeLoss := 0, probes := fun i => if i = 1 then some ms else none }

instance (cfg : SwitchConfig) (s : FailoverRun) : (e : FailoverEvent) → Decidable (Measured cfg s e)
  | .round r => inferInstanceAs (Decidable ((r.activeRTT ≠ 0 ∨
      ∃ i < s.client.candidates.length, i ≠ s.client.activeIdx ∧ r.Beats cfg i) ∧
        ∀ i < s.client.candidates.length, i ≠ s.client.activeIdx → r.probes i = none →
          r.threshold cfg ≤ pathScore 2000 100))
  | .reconnect _ => inferInstanceAs (Decidable (_ ∨ _))

/-- Three rounds with the active path at 100 ms and the other at 40 ms. -/
theorem switch_confirmed_third_round :
    (run (FailoverRun.step defaultSwitch) (.start 2)
        (List.replicate 3 (secondAnswers 100 40))).client.activeIdx = 1 ∧
      AllSteps (FailoverRun.step defaultSwitch) (Confirmed defaultSwitch) (.start 2)
        (List.replicate 3 (secondAnswers 100 40)) :=
  ⟨by decide +kernel, switch_confirmed defaultSwitch 2 _ (by decide +kernel)⟩

/-- Two rounds before the first measurement, with the other server at 500 ms, and one round
in which it is better: the client switches. -/
theorem unmeasured_round_counts :
    ¬AllSteps (FailoverRun.step defaultSwitch) (Confirmed defaultSwitch) (.start 2)
      [secondAnswers 0 500, secondAnswers 0 500, secondAnswers 100 40] := by
  rintro ⟨-, -, hconfirmed, -⟩
  have hstreak := hconfirmed (by decide +kernel)
  have hbeats := (hstreak.2 (0, _) (List.mem_of_getElem? (i := 1) rfl)).2
  revert hbeats
  decide +kernel

end Simorgh.Tunnel
