import Mathlib.Algebra.Order.Field.Rat
import Mathlib.Tactic.Ring
import Mathlib.Tactic.Linarith
import Simorgh.Lib.Run

/-!
# The bandwidth cap

`tokenBucket.wait` lets a packet through once the bucket holds as many tokens as the packet
has bytes.  A caller that does not find them sleeps and tries again; each try is one
critical section.  How long a caller sleeps is up to the host.

* `Arith` — the numbers of a bucket: `exact` ones here, those of the machine in `Stall`.
* `TokenBucket.attempt` — one critical section of `wait`.
* `Callers.step` — any number of callers, one critical section at a time.
* `Metered.attempt` — the bytes let through in an interval and the tokens left are paid for
  by the capacity and by the time that has passed in the interval.
* `bandwidth_capped` — in every interval of every run, no more than the rate allows.
-/

namespace Simorgh.Tunnel

open Simorgh.Lib

/-- The numbers a bucket is made of, with their operations. -/
structure Arith (F : Type) where
  ofNat : ℕ → F
  add : F → F → F
  sub : F → F → F
  mul : F → F → F
  div : F → F → F
  lt : F → F → Bool
  le : F → F → Bool
  /-- a time in seconds, by `Duration.Seconds` -/
  seconds : ℚ → F
  /-- the sleep of so many seconds -/
  sleep : F → ℚ

/-- Rational numbers, without rounding. -/
def exact : Arith ℚ where
  ofNat n := n
  add := (· + ·)
  sub := (· - ·)
  mul := (· * ·)
  div := (· / ·)
  lt a b := decide (a < b)
  le a b := decide (a ≤ b)
  seconds d := d
  sleep q := q

/-- The bucket, over a number format. -/
structure TokenBucket (F : Type) where
  capacity : F
  tokens : F
  fillPerSec : F
  last : ℚ

section

variable {F : Type} (N : Arith F)

/-- A full bucket. -/
def newTokenBucket (mbps : F) (now : ℚ) : TokenBucket F :=
  let bytesPerSec := N.div (N.mul mbps (N.ofNat 1000000)) (N.ofNat 8)
  ⟨bytesPerSec, bytesPerSec, bytesPerSec, now⟩

namespace TokenBucket

/-- The tokens that have come in since the last look, up to the capacity. -/
def refill (b : TokenBucket F) (now : ℚ) : TokenBucket F :=
  let tokens := N.add b.tokens (N.mul (N.seconds (now - b.last)) b.fillPerSec)
  { b with tokens := if N.lt b.capacity tokens then b.capacity else tokens, last := now }

/-- A quarter of a second. -/
def longestSleep : F := N.div (N.ofNat 1) (N.ofNat 4)

/-- One round of `wait`: the bucket it leaves, and how long to sleep if the packet has to
wait. -/
def attempt (b : TokenBucket F) (now : ℚ) (n : ℕ) : TokenBucket F × Option ℚ :=
  let b := b.refill N now
  if N.le (N.ofNat n) b.tokens then ({ b with tokens := N.sub b.tokens (N.ofNat n) }, none)
  else
    let sleepFor := N.div (N.sub (N.ofNat n) b.tokens) b.fillPerSec
    (b, some (N.sleep (if N.lt (longestSleep N) sleepFor then longestSleep N else sleepFor)))

theorem attempt_last (b : TokenBucket F) (now : ℚ) (n : ℕ) : (b.attempt N now n).1.last = now := by
  unfold attempt
  simp only
  split
  · rfl
  · rfl

theorem attempt_capacity (b : TokenBucket F) (now : ℚ) (n : ℕ) :
    (b.attempt N now n).1.capacity = b.capacity ∧ (b.attempt N now n).1.fillPerSec = b.fillPerSec := by
  unfold attempt
  simp only
  split
  · exact ⟨rfl, rfl⟩
  · exact ⟨rfl, rfl⟩

end TokenBucket

end

/-! ## Exact numbers -/

namespace TokenBucket

/-- The tokens are between none and the capacity. -/
def Level (b : TokenBucket ℚ) : Prop := 0 ≤ b.tokens ∧ b.tokens ≤ b.capacity ∧ 0 ≤ b.fillPerSec

variable {b : TokenBucket ℚ} {now : ℚ} {n : ℕ}

theorem refill_tokens (b : TokenBucket ℚ) (now : ℚ) :
    (b.refill exact now).tokens = min (b.tokens + (now - b.last) * b.fillPerSec) b.capacity := by
  show (if decide (b.capacity < b.tokens + (now - b.last) * b.fillPerSec) = true then _ else _) = _
  rw [min_def]
  split
  case isTrue hfull => rw [if_neg (not_le.2 (of_decide_eq_true hfull))]
  case isFalse hroom =>
    rw [if_pos (not_lt.1 (of_decide_eq_false (by simpa using hroom)))]
    rfl

/-- A round lets the packet through, or leaves what the refill has brought. -/
theorem attempt_exact (b : TokenBucket ℚ) (now : ℚ) (n : ℕ) :
    ((n : ℚ) ≤ (b.refill exact now).tokens ∧
        b.attempt exact now n =
          ({ b.refill exact now with tokens := (b.refill exact now).tokens - n }, none)) ∨
      ((b.refill exact now).tokens < n ∧
        ∃ sleep, b.attempt exact now n = (b.refill exact now, some sleep)) := by
  by_cases hpaid : (n : ℚ) ≤ (b.refill exact now).tokens
  · exact Or.inl ⟨hpaid, if_pos (decide_eq_true hpaid)⟩
  · exact Or.inr ⟨not_le.1 hpaid, _, if_neg (by simpa [exact] using hpaid)⟩

theorem Level.refill (h : Level b) (hclock : b.last ≤ now) : Level (b.refill exact now) := by
  obtain ⟨htokens, hcapacity, hfill⟩ := h
  have hcome : 0 ≤ (now - b.last) * b.fillPerSec := mul_nonneg (by linarith) hfill
  unfold Level
  rw [refill_tokens]
  refine ⟨le_min ?_ ?_, min_le_right _ _, hfill⟩
  · linarith
  · linarith

theorem Level.attempt (h : Level b) (hclock : b.last ≤ now) :
    Level (b.attempt exact now n).1 := by
  obtain ⟨htokens, hcapacity, hfill⟩ := h.refill hclock
  rcases attempt_exact b now n with ⟨hpaid, hround⟩ | ⟨-, sleep, hround⟩
  · rw [hround]
    have hn : (0 : ℚ) ≤ n := Nat.cast_nonneg n
    exact ⟨by simp only; linarith, by simp only; linarith, hfill⟩
  · rw [hround]
    exact ⟨htokens, hcapacity, hfill⟩

/-- The bytes that a round lets through. -/
def passed (b : TokenBucket ℚ) (now : ℚ) (n : ℕ) : ℕ :=
  if (b.attempt exact now n).2 = none then n else 0

/-- What is let through is taken from the bucket, which has gained at most what the time
brings. -/
theorem passed_add_tokens_le (b : TokenBucket ℚ) (now : ℚ) (n : ℕ) :
    (b.passed now n : ℚ) + (b.attempt exact now n).1.tokens
        ≤ b.tokens + (now - b.last) * b.fillPerSec ∧
      (b.passed now n : ℚ) + (b.attempt exact now n).1.tokens ≤ b.capacity := by
  have hcome : (b.refill exact now).tokens ≤ b.tokens + (now - b.last) * b.fillPerSec :=
    (refill_tokens b now).trans_le (min_le_left _ _)
  have hfull : (b.refill exact now).tokens ≤ b.capacity :=
    (refill_tokens b now).trans_le (min_le_right _ _)
  unfold passed
  rcases attempt_exact b now n with ⟨hpaid, hround⟩ | ⟨-, sleep, hround⟩
  · rw [hround, if_pos rfl]
    constructor
    · linarith
    · linarith
  · rw [hround, if_neg (by simp), Nat.cast_zero]
    constructor
    · linarith
    · linarith

end TokenBucket

/-! ## Callers -/

/-- The bucket, what each caller waits to send, and what was let through and when. -/
structure Callers (F ι : Type) where
  bucket : TokenBucket F
  waiting : ι → Option ℕ := fun _ => none
  log : List (ℚ × ℕ) := []

/-- The steps of the callers. -/
inductive CallerStep (ι : Type) where
  /-- A caller that is idle calls `wait`. -/
  | call (i : ι) (n : ℕ)
  /-- A caller gets the mutex. -/
  | turn (i : ι) (now : ℚ)

section

variable {F ι : Type} [DecidableEq ι]

/-- One step. -/
def Callers.step (N : Arith F) (s : Callers F ι) : CallerStep ι → Callers F ι
  | .call i n => match s.waiting i with
    | none => { s with waiting := Function.update s.waiting i (some n) }
    | some _ => s
  | .turn i now => match s.waiting i with
    | none => s
    | some n => match s.bucket.attempt N now n with
      | (b, none) =>
          { bucket := b, waiting := Function.update s.waiting i none, log := s.log ++ [(now, n)] }
      | (b, some _) => { s with bucket := b }

/-- The clock does not go back. -/
def Ticks (s : Callers F ι) : CallerStep ι → Prop
  | .call _ _ => True
  | .turn _ now => s.bucket.last ≤ now

instance (s : Callers F ι) : (a : CallerStep ι) → Decidable (Ticks s a)
  | .call _ _ => isTrue trivial
  | .turn _ now => inferInstanceAs (Decidable (s.bucket.last ≤ now))

/-- The bytes let through in an interval. -/
def admitted (log : List (ℚ × ℕ)) (s t : ℚ) : ℕ :=
  ((log.filter fun e => decide (s ≤ e.1 ∧ e.1 ≤ t)).map (·.2)).sum

omit [DecidableEq ι] in
theorem admitted_append (log : List (ℚ × ℕ)) (now : ℚ) (n : ℕ) (s t : ℚ) :
    admitted (log ++ [(now, n)]) s t = admitted log s t + if s ≤ now ∧ now ≤ t then n else 0 := by
  unfold admitted
  rw [List.filter_append, List.map_append, List.sum_append]
  by_cases hin : s ≤ now ∧ now ≤ t
  · simp [hin]
  · simp [hin]

/-- All that a step can do: nothing to the bucket and the log, or one round of `wait`. -/
theorem step_cases (N : Arith F) (c : Callers F ι) (a : CallerStep ι) :
    ((c.step N a).bucket = c.bucket ∧ (c.step N a).log = c.log) ∨
      ∃ i now n, a = .turn i now ∧ (c.step N a).bucket = (c.bucket.attempt N now n).1 ∧
        ∀ s t, admitted (c.step N a).log s t = admitted c.log s t +
          if s ≤ now ∧ now ≤ t then if (c.bucket.attempt N now n).2 = none then n else 0 else 0 := by
  cases a with
  | call i n =>
      left
      unfold Callers.step
      simp only
      split
      · exact ⟨rfl, rfl⟩
      · exact ⟨rfl, rfl⟩
  | turn i now =>
      unfold Callers.step
      simp only
      split
      case h_1 => exact Or.inl ⟨rfl, rfl⟩
      case h_2 n hn =>
        refine Or.inr ⟨i, now, n, rfl, ?_⟩
        cases hround : c.bucket.attempt N now n with
        | mk b sleep =>
            cases sleep with
            | none => exact ⟨rfl, fun s t => by rw [admitted_append]; rfl⟩
            | some _ => exact ⟨rfl, fun s t => by simp⟩

/-- What the interval has let through is paid for. -/
structure Metered (rate s t : ℚ) (b : TokenBucket ℚ) (log : List (ℚ × ℕ)) : Prop where
  level : b.Level
  capacity : b.capacity = rate
  fill : b.fillPerSec = rate
  before : b.last < s → admitted log s t = 0
  during : s ≤ b.last → b.last ≤ t → (admitted log s t : ℚ) + b.tokens ≤ rate + rate * (b.last - s)
  after : t < b.last → (admitted log s t : ℚ) ≤ rate + rate * (t - s)

variable {rate s t : ℚ} {b : TokenBucket ℚ} {log : List (ℚ × ℕ)}

omit [DecidableEq ι] in
theorem Metered.start {mbps : ℚ} (hrate : 0 < mbps) (now : ℚ) (hst : s ≤ t) :
    Metered (mbps * 1000000 / 8) s t (newTokenBucket exact mbps now) [] := by
  have hpos : 0 < mbps * 1000000 / 8 := by linarith
  refine ⟨⟨hpos.le, le_refl _, hpos.le⟩, rfl, rfl, fun _ => rfl, ?_, ?_⟩
  · intro hs _
    have hgain : 0 ≤ mbps * 1000000 / 8 * (now - s) := mul_nonneg hpos.le (sub_nonneg.2 hs)
    show ((0 : ℕ) : ℚ) + mbps * 1000000 / 8 ≤ mbps * 1000000 / 8 + mbps * 1000000 / 8 * (now - s)
    rw [Nat.cast_zero]
    linarith
  · intro _
    have hgain : 0 ≤ mbps * 1000000 / 8 * (t - s) := mul_nonneg hpos.le (sub_nonneg.2 hst)
    show ((0 : ℕ) : ℚ) ≤ mbps * 1000000 / 8 + mbps * 1000000 / 8 * (t - s)
    rw [Nat.cast_zero]
    linarith

omit [DecidableEq ι] in
/-- At the end of the interval at the latest, the rate has paid for it. -/
theorem Metered.admitted_le (hst : s ≤ t) (h : Metered rate s t b log) :
    (admitted log s t : ℚ) ≤ rate + rate * (t - s) := by
  have hrate : 0 ≤ rate := h.fill ▸ h.level.2.2
  have hgain : 0 ≤ rate * (t - s) := mul_nonneg hrate (sub_nonneg.2 hst)
  rcases lt_or_ge b.last s with hbefore | hs
  · rw [h.before hbefore, Nat.cast_zero]
    linarith
  · rcases le_or_gt b.last t with ht | hafter
    · have hduring := h.during hs ht
      have htokens := h.level.1
      have hless : rate * (b.last - s) ≤ rate * (t - s) := mul_le_mul_of_nonneg_left (by linarith) hrate
      linarith
    · exact h.after hafter

omit [DecidableEq ι] in
theorem Metered.attempt {log' : List (ℚ × ℕ)} {now : ℚ} {n : ℕ} (hst : s ≤ t) (h : Metered rate s t b log)
    (hclock : b.last ≤ now) (hlog : admitted log' s t =
      admitted log s t + if s ≤ now ∧ now ≤ t then b.passed now n else 0) :
    Metered rate s t (b.attempt exact now n).1 log' := by
  have hrate : 0 ≤ rate := h.fill ▸ h.level.2.2
  obtain ⟨hcapacity, hfill⟩ := b.attempt_capacity exact now n
  obtain ⟨hround, hfull⟩ := b.passed_add_tokens_le now n
  rw [h.fill] at hround
  rw [h.capacity] at hfull
  refine ⟨h.level.attempt hclock, hcapacity.trans h.capacity, hfill.trans h.fill, ?_, ?_, ?_⟩
  · rw [b.attempt_last exact]
    intro hbefore
    rw [hlog, if_neg fun hin => absurd hin.1 (not_le.2 hbefore), Nat.add_zero]
    exact h.before (lt_of_le_of_lt hclock hbefore)
  · rw [b.attempt_last exact]
    intro hs ht
    rw [hlog, if_pos ⟨hs, ht⟩, Nat.cast_add]
    rcases lt_or_ge b.last s with hbefore | hs'
    · -- the first look in the interval finds a full bucket at most
      have hgain : 0 ≤ rate * (now - s) := mul_nonneg hrate (sub_nonneg.2 hs)
      rw [h.before hbefore, Nat.cast_zero]
      linarith
    · have hduring := h.during hs' (hclock.trans ht)
      have hsplit : rate * (now - s) = rate * (b.last - s) + (now - b.last) * rate := by ring
      linarith
  · rw [b.attempt_last exact]
    intro hafter
    rw [hlog, if_neg fun hin => absurd hin.2 (not_le.2 hafter), Nat.add_zero]
    exact h.admitted_le hst

theorem Metered.step {c : Callers ℚ ι} (hst : s ≤ t) (h : Metered rate s t c.bucket c.log)
    (a : CallerStep ι) (htick : Ticks c a) :
    Metered rate s t (c.step exact a).bucket (c.step exact a).log := by
  rcases step_cases exact c a with ⟨hbucket, hlog⟩ | ⟨i, now, n, rfl, hbucket, hlog⟩
  · rw [hbucket, hlog]
    exact h
  · rw [hbucket]
    exact h.attempt hst htick (hlog s t)

/-- In a run of any callers from a new bucket of a positive rate, with a clock that does
not go back, the tokens stay between none and the capacity, and no interval lets through
more than the capacity and what the rate allows in its time. -/
theorem bandwidth_capped {mbps start : ℚ} (hrate : 0 < mbps) (actions : List (CallerStep ι))
    (hclock : AllSteps (Callers.step exact) Ticks { bucket := newTokenBucket exact mbps start } actions) :
    (∀ c ∈ states (Callers.step exact) { bucket := newTokenBucket exact mbps start } actions,
      0 ≤ c.bucket.tokens ∧ c.bucket.tokens ≤ c.bucket.capacity) ∧
      ∀ c ∈ states (Callers.step exact) { bucket := newTokenBucket exact mbps start } actions, ∀ s t, s ≤ t →
        (admitted c.log s t : ℚ) ≤ mbps * 1000000 / 8 * (t - s) + (newTokenBucket exact mbps start).capacity := by
  have hmetered : ∀ s t, s ≤ t →
      ∀ c ∈ states (Callers.step exact) { bucket := newTokenBucket exact mbps start } actions,
      Metered (mbps * 1000000 / 8) s t c.bucket c.log := by
    intro s t hst
    have hstep : ∀ (c : Callers ℚ ι) a, Metered (mbps * 1000000 / 8) s t c.bucket c.log → Ticks c a →
        Metered (mbps * 1000000 / 8) s t (c.step exact a).bucket (c.step exact a).log :=
      fun c a h htick => h.step hst a htick
    exact hclock.invariant hstep (Metered.start hrate start hst)
  refine ⟨fun c hc => ?_, fun c hc s t hst => ?_⟩
  · obtain ⟨htokens, hcapacity, -⟩ := (hmetered 0 0 (le_refl 0) c hc).level
    exact ⟨htokens, hcapacity⟩
  · have hle := (hmetered s t hst c hc).admitted_le hst
    show _ ≤ mbps * 1000000 / 8 * (t - s) + mbps * 1000000 / 8
    linarith

end

/-- Two callers share a bucket of 8 megabits a second, a million bytes.  The first takes
600000 of them at once, and the second waits for the same number. -/
def twoCallers : List (CallerStep Bool) :=
  [.call true 600000, .turn true 0, .call false 600000, .turn false 0, .turn false (1 / 4)]

theorem twoCallers_capped :
    (run (Callers.step exact) { bucket := newTokenBucket exact 8 0 } twoCallers).log = [(0, 600000), (1 / 4, 600000)] ∧
      ∀ c ∈ states (Callers.step exact) { bucket := newTokenBucket exact 8 0 } twoCallers,
        (admitted c.log 0 (1 / 4) : ℚ) ≤ 8 * 1000000 / 8 * (1 / 4 - 0) + (newTokenBucket exact 8 0).capacity := by
  have hclock : AllSteps (Callers.step exact) Ticks { bucket := newTokenBucket exact 8 0 } twoCallers := by
    decide +kernel
  refine ⟨by decide +kernel, fun c hc => ?_⟩
  exact (bandwidth_capped (by norm_num) twoCallers hclock).2 c hc 0 (1 / 4) (by norm_num)

end Simorgh.Tunnel
