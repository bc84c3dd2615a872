import Mathlib.Algebra.BigOperators.Group.List.Basic
import Mathlib.Data.Fintype.Pi
import Mathlib.Data.List.Dedup
import Simorgh.Lib.Run
import Simorgh.Lib.Table
import Simorgh.Panel.Model

/-!
# The usage of MTProto accounts

Each inbound's telemt counts what every account has moved since the process started.  The
panel scrapes the counters and adds to the accounts what they have grown by since the last
scrape; a counter that went back tells it that the process was restarted.

* `delta`, `collectUser`, `collectTraffic` — the code.
* `Usage.step` — accounts that move bytes, processes that restart and scrapes that may fail.
* `collectAll_spec` — a scrape deals with each account on its own.
* `usage_conserved_iff` — the deltas of an account add up to what its process lives have
  counted, exactly when every first reading of a life that is not zero is less than the reading
  remembered, or there was nothing to remember.
-/

namespace Simorgh.Vpn.Mtproto

open Simorgh.Lib
open Simorgh.Panel (trimSpace)

/-- `[2]int64`: up and down. -/
abbrev Pair := Fin 2 → ℤ

/-- `delta`, from what `mtprotoCounters` has of the account. -/
def delta (prev : Option Pair) (r : Pair) : Pair :=
  match prev with
  | none => r
  | some p => fun d => if r d - p d < 0 then r d else r d - p d

/-- What `CollectTraffic` does for an account: what is remembered of it, and what is added
to it. -/
def collectUser (prev : Option Pair) (r : Pair) : Option Pair × Option Pair :=
  if r = 0 then (prev, none)
  else (some r, if delta prev r = 0 then none else some (delta prev r))

/-- An account: the inbound's id and the telemt user, which is the email.  `"%d/%s"` of the
two is the key in `mtprotoCounters`. -/
abbrev Key := ℕ × String

/-- An MTProto inbound. -/
structure Inbound where
  id : ℕ
  enable : Bool := true
  /-- the emails of its clients, if the settings parse -/
  emails : Option (List String)

/-- The accounts `CollectTraffic` goes through. -/
def accountsOf (inbounds : Table Inbound.id) : List Key :=
  (inbounds.rows.filter (·.enable)).flatMap fun i =>
    (((i.emails.getD []).filter fun e => decide (trimSpace e ≠ "")).dedup).map fun e => (i.id, e)

/-- The loops of `CollectTraffic`: what is remembered, and what is added to which account. -/
def collectAll (reading : Key → Pair) : List Key → (Key → Option Pair) → (Key → Option Pair) × List (Key × Pair)
  | [], m => (m, [])
  | k :: ks, m =>
      let one := collectUser (m k) (reading k)
      let rest := collectAll reading ks (Function.update m k one.1)
      (rest.1, (one.2.toList.map fun p => (k, p)) ++ rest.2)

/-- What is billed, and the readings kept. -/
def collectTraffic (inbounds : Table Inbound.id) (reading : Key → Pair) (m : Key → Option Pair) :
    (Key → Option Pair) × List (Key × Pair) :=
  collectAll reading (accountsOf inbounds) m

/-! ## Processes and scrapes -/

/-- The counters of telemt and what was billed. -/
structure Usage where
  /-- what the running telemt of the inbound has counted -/
  counted : Key → Pair := fun _ => 0
  /-- `mtprotoCounters` -/
  remembered : Key → Option Pair := fun _ => none
  /-- what was added to the accounts -/
  out : List (Key × Pair) := []
  /-- the last value scraped in this process life -/
  last : Key → Pair := fun _ => 0
  /-- the last values scraped in the lives that are over, added up -/
  lives : Key → Pair := fun _ => 0

/-- Traffic, restarts and readings. -/
inductive UsageEvent where
  /-- an account moves bytes -/
  | move (k : Key) (bytes : Fin 2 → ℕ)
  /-- an inbound's telemt is restarted -/
  | restart (id : ℕ)
  /-- `CollectTraffic`; the scrapes of some inbounds fail -/
  | collect (inbounds : Table Inbound.id) (answers : ℕ → Bool)

/-- What a scrape reads of an account; one that fails reads nothing. -/
def Usage.reading (u : Usage) (answers : ℕ → Bool) (k : Key) : Pair := if answers k.1 then u.counted k else 0

/-- One event. -/
def Usage.step (u : Usage) : UsageEvent → Usage
  | .move k bytes =>
      { u with counted := Function.update u.counted k fun d => u.counted k d + bytes d }
  | .restart id =>
      { u with
        counted := fun k => if k.1 = id then 0 else u.counted k
        last := fun k => if k.1 = id then 0 else u.last k
        lives := fun k => if k.1 = id then fun d => u.lives k d + u.last k d else u.lives k }
  | .collect inbounds answers =>
      let swept := collectTraffic inbounds (u.reading answers) u.remembered
      { u with
        remembered := swept.1
        out := u.out ++ swept.2
        last := fun k => if k ∈ accountsOf inbounds ∧ answers k.1 then u.counted k else u.last k }

/-- All that was added to an account. -/
def Usage.emitted (u : Usage) (k : Key) (d : Fin 2) : ℤ :=
  ((u.out.filter fun e => decide (e.1 = k)).map fun e => e.2 d).sum

/-- What was added to an account is what its process lives have counted, and it was never
negative. -/
def Usage.Conserved (k : Key) (u : Usage) : Prop :=
  (∀ d, u.emitted k d = u.lives k d + u.last k d) ∧ ∀ e ∈ u.out, e.1 = k → ∀ d, 0 ≤ e.2 d

/-- When a scrape of the account is the first of a life to read something, what it reads is
less than what is remembered, or nothing is. -/
def Usage.TellsRestart (k : Key) (u : Usage) : UsageEvent → Prop
  | .collect inbounds answers =>
      k ∈ accountsOf inbounds → answers k.1 = true → u.counted k ≠ 0 → u.last k = 0 →
        ∀ p ∈ u.remembered k, ∀ d, u.counted k d < p d ∨ p d = 0
  | _ => True

/-! ## One account -/

theorem nodup_accountsOf (inbounds : Table Inbound.id) : (accountsOf inbounds).Nodup := by
  unfold accountsOf
  rw [List.nodup_flatMap]
  constructor
  · intro i _
    exact (List.nodup_dedup _).map fun e e' h => (Prod.mk.inj h).2
  · have hids : ((inbounds.rows.filter (·.enable)).map Inbound.id).Nodup :=
      inbounds.unique.sublist (List.filter_sublist.map _)
    refine (List.pairwise_map.1 hids).imp fun {i j} hij => ?_
    intro k hi hj
    obtain ⟨e, -, rfl⟩ := List.mem_map.1 hi
    obtain ⟨e', -, heq⟩ := List.mem_map.1 hj
    exact hij (Prod.mk.inj heq).1.symm

/-- A scrape deals with each account on its own. -/
theorem collectAll_spec (reading : Key → Pair) {keys : List Key} (hkeys : keys.Nodup)
    (m : Key → Option Pair) (k : Key) :
    (collectAll reading keys m).1 k = (if k ∈ keys then (collectUser (m k) (reading k)).1 else m k) ∧
      ((collectAll reading keys m).2.filter fun e => decide (e.1 = k)) =
        if k ∈ keys then (collectUser (m k) (reading k)).2.toList.map fun p => (k, p) else [] := by
  induction keys generalizing m with
  | nil => exact ⟨rfl, rfl⟩
  | cons k' ks ih =>
      obtain ⟨hnot, hks⟩ := List.nodup_cons.1 hkeys
      obtain ⟨hm, hout⟩ := ih hks (Function.update m k' (collectUser (m k') (reading k')).1)
      simp only [collectAll]
      by_cases hk : k = k'
      · subst hk
        rw [if_neg hnot, Function.update_self] at hm
        rw [if_neg hnot] at hout
        rw [hm, List.filter_append, hout, if_pos List.mem_cons_self, if_pos List.mem_cons_self, List.append_nil]
        refine ⟨rfl, List.filter_eq_self.2 fun e he => ?_⟩
        obtain ⟨p, -, rfl⟩ := List.mem_map.1 he
        exact decide_eq_true rfl
      · have hmem : k ∈ k' :: ks ↔ k ∈ ks := by simp [hk]
        rw [Function.update_of_ne hk] at hm hout
        rw [hm, List.filter_append, hout]
        have hnone : (((collectUser (m k') (reading k')).2.toList.map fun p => (k', p)).filter
            fun e => decide (e.1 = k)) = [] := by
          refine List.filter_eq_nil_iff.2 fun e he => ?_
          obtain ⟨p, -, rfl⟩ := List.mem_map.1 he
          simpa using fun h => hk h.symm
        simp only [hnone, hmem, List.nil_append, true_and]

/-- What a scrape adds to an account. -/
def gain (prev : Option Pair) (r : Pair) : Pair := if r = 0 then 0 else delta prev r

theorem getD_collectUser (prev : Option Pair) (r : Pair) : (collectUser prev r).2.getD 0 = gain prev r := by
  unfold collectUser gain
  by_cases hr : r = 0
  · rw [if_pos hr, if_pos hr]
    rfl
  · rw [if_neg hr, if_neg hr]
    by_cases hdelta : delta prev r = 0
    · simp only [hdelta, if_true]
      rfl
    · simp only [hdelta, if_false]
      rfl

theorem delta_nonneg {prev : Option Pair} {r : Pair} (hr : ∀ d, 0 ≤ r d) (d : Fin 2) : 0 ≤ delta prev r d := by
  unfold delta
  cases prev with
  | none => exact hr d
  | some p =>
      have := hr d
      simp only
      split
      · exact this
      · omega

namespace Usage

variable {u : Usage} {k : Key} {inbounds : Table Inbound.id} {answers : ℕ → Bool}

theorem emitted_collect (u : Usage) (k : Key) (inbounds : Table Inbound.id) (answers : ℕ → Bool) (d : Fin 2) :
    (u.step (.collect inbounds answers)).emitted k d =
      u.emitted k d + if k ∈ accountsOf inbounds then gain (u.remembered k) (u.reading answers k) d else 0 := by
  have hout := (collectAll_spec (u.reading answers) (nodup_accountsOf inbounds) u.remembered k).2
  show (((u.out ++ (collectAll (u.reading answers) (accountsOf inbounds) u.remembered).2).filter
    fun e => decide (e.1 = k)).map fun e => e.2 d).sum = _
  rw [List.filter_append, List.map_append, List.sum_append, hout, ← getD_collectUser]
  unfold emitted
  congr 1
  split
  · cases (collectUser (u.remembered k) (u.reading answers k)).2 with
    | none => rfl
    | some p => simp
  · rfl

theorem remembered_collect (u : Usage) (k : Key) (inbounds : Table Inbound.id) (answers : ℕ → Bool) :
    (u.step (.collect inbounds answers)).remembered k =
      if k ∈ accountsOf inbounds ∧ u.reading answers k ≠ 0 then some (u.reading answers k) else u.remembered k := by
  refine (collectAll_spec (u.reading answers) (nodup_accountsOf inbounds) u.remembered k).1.trans ?_
  unfold collectUser
  by_cases hk : k ∈ accountsOf inbounds
  · by_cases hr : u.reading answers k = 0
    · simp [hk, hr]
    · simp [hk, hr]
  · simp [hk]

/-- What holds of an account in every run. -/
structure Kept (k : Key) (u : Usage) : Prop where
  last_nonneg : ∀ d, 0 ≤ u.last k d
  last_le : ∀ d, u.last k d ≤ u.counted k d
  remembered : u.last k ≠ 0 → u.remembered k = some (u.last k)
  out_nonneg : ∀ e ∈ u.out, e.1 = k → ∀ d, 0 ≤ e.2 d

theorem Kept.start : Kept k {} :=
  ⟨fun _ => le_refl 0, fun _ => le_refl 0, fun h => absurd rfl h, fun _ he => absurd he List.not_mem_nil⟩

theorem Kept.counted_nonneg (h : Kept k u) (d : Fin 2) : 0 ≤ u.counted k d := (h.last_nonneg d).trans (h.last_le d)

theorem Kept.reading_nonneg (h : Kept k u) (d : Fin 2) : 0 ≤ u.reading answers k d := by
  unfold reading
  split
  · exact h.counted_nonneg d
  · exact le_refl 0

theorem Kept.collect (h : Kept k u) : Kept k (u.step (.collect inbounds answers)) := by
  refine ⟨?_, ?_, ?_, ?_⟩
  · intro d
    simp only [step]
    split
    · exact h.counted_nonneg d
    · exact h.last_nonneg d
  · intro d
    simp only [step]
    split
    · exact le_refl _
    · exact h.last_le d
  · rw [remembered_collect]
    simp only [step]
    by_cases hk : k ∈ accountsOf inbounds ∧ answers k.1 = true
    · have hread : u.reading answers k = u.counted k := if_pos hk.2
      rw [if_pos hk]
      intro hne
      rw [if_pos ⟨hk.1, hread ▸ hne⟩, hread]
    · rw [if_neg hk]
      intro hne
      rw [if_neg]
      · exact h.remembered hne
      · rintro ⟨hmem, hread⟩
        have hsilent : ¬ answers k.1 = true := fun hanswers => hk ⟨hmem, hanswers⟩
        exact hread (if_neg hsilent)
  · intro e he hek d
    rcases List.mem_append.1 he with he | he
    · exact h.out_nonneg e he hek d
    · have hmem := List.mem_filter (p := fun e => decide (e.1 = k)).2 ⟨he, decide_eq_true hek⟩
      rw [collectTraffic, (collectAll_spec (u.reading answers) (nodup_accountsOf inbounds) u.remembered k).2] at hmem
      split at hmem
      · obtain ⟨p, hp, rfl⟩ := List.mem_map.1 hmem
        unfold collectUser at hp
        split at hp
        · cases hp
        · simp only at hp
          split at hp
          · cases hp
          · rw [Option.mem_toList, Option.some.injEq] at hp
            subst hp
            exact delta_nonneg (fun d => h.reading_nonneg d) d
      · cases hmem

theorem Kept.step (h : Kept k u) (a : UsageEvent) : Kept k (u.step a) := by
  cases a with
  | move k' bytes =>
      refine ⟨h.last_nonneg, fun d => ?_, h.remembered, h.out_nonneg⟩
      have hle := h.last_le d
      simp only [Usage.step]
      by_cases hk : k = k'
      · subst hk
        rw [Function.update_self]
        have : (0 : ℤ) ≤ bytes d := Int.natCast_nonneg _
        omega
      · rw [Function.update_of_ne hk]
        exact hle
  | restart id =>
      by_cases hid : k.1 = id
      · refine ⟨fun d => ?_, fun d => ?_, fun hne => ?_, h.out_nonneg⟩
        · simp only [Usage.step, if_pos hid]
          exact le_refl 0
        · simp only [Usage.step, if_pos hid]
          exact le_refl _
        · simp only [Usage.step, if_pos hid] at hne
          exact absurd rfl hne
      · refine ⟨fun d => ?_, fun d => ?_, ?_, h.out_nonneg⟩
        · simp only [Usage.step, if_neg hid]
          exact h.last_nonneg d
        · simp only [Usage.step, if_neg hid]
          exact h.last_le d
        · simp only [Usage.step, if_neg hid]
          exact h.remembered
  | collect inbounds answers => exact h.collect

/-- A reading of a life in which something was read before adds what the counter has grown
by. -/
theorem gain_of_last (h : Kept k u) (hlast : u.last k ≠ 0) (hcounted : u.counted k ≠ 0) (d : Fin 2) :
    gain (u.remembered k) (u.counted k) d = u.counted k d - u.last k d := by
  have hle := h.last_le d
  rw [gain, if_neg hcounted, h.remembered hlast]
  simp only [delta]
  rw [if_neg (by omega)]

/-- The first reading of a life adds all of it, exactly when the life can be told from the one
before. -/
theorem gain_of_first_iff (hcounted : u.counted k ≠ 0) (hnonneg : ∀ d, 0 ≤ u.counted k d) :
    (∀ d, gain (u.remembered k) (u.counted k) d = u.counted k d) ↔
      ∀ p ∈ u.remembered k, ∀ d, u.counted k d < p d ∨ p d = 0 := by
  unfold gain
  rw [if_neg hcounted]
  cases u.remembered k with
  | none => exact ⟨fun _ p hp => absurd hp (by simp), fun _ _ => rfl⟩
  | some p =>
      simp only [delta, Option.mem_some_iff]
      constructor
      · rintro hgain _ rfl d
        have := hgain d
        split at this
        · left
          omega
        · right
          omega
      · intro htold d
        rcases htold p rfl d with hlt | hzero
        · rw [if_pos (by omega)]
        · have := hnonneg d
          rw [hzero, Int.sub_zero, ite_self]

/-- After a step the books are right exactly when the step could tell a restart. -/
theorem conserved_step_iff (h : Kept k u) (hu : u.Conserved k) (a : UsageEvent) :
    (u.step a).Conserved k ↔ u.TellsRestart k a := by
  have hout := (h.step a).out_nonneg
  cases a with
  | move k' bytes => exact ⟨fun _ => trivial, fun _ => ⟨hu.1, hout⟩⟩
  | restart id =>
      refine ⟨fun _ => trivial, fun _ => ⟨fun d => ?_, hout⟩⟩
      refine (hu.1 d).trans ?_
      simp only [step]
      by_cases hid : k.1 = id
      · rw [if_pos hid, if_pos hid]
        exact (Int.add_zero _).symm
      · rw [if_neg hid, if_neg hid]
  | collect inbounds answers =>
      have hbooks : (u.step (.collect inbounds answers)).Conserved k ↔
          ∀ d, (if k ∈ accountsOf inbounds then gain (u.remembered k) (u.reading answers k) d else 0) =
            (u.step (.collect inbounds answers)).last k d - u.last k d := by
        constructor
        · intro hcons d
          have hd := hcons.1 d
          rw [emitted_collect, hu.1 d] at hd
          simp only [step] at hd ⊢
          omega
        · intro hgain
          refine ⟨fun d => ?_, hout⟩
          rw [emitted_collect, hgain d, hu.1 d]
          simp only [step]
          omega
      rw [hbooks]
      simp only [TellsRestart, step, reading]
      by_cases hk : k ∈ accountsOf inbounds
      · by_cases hanswers : answers k.1 = true
        · simp only [hk, hanswers, and_self, if_true, true_implies]
          by_cases hcounted : u.counted k = 0
          · have hlast : u.last k = 0 := by
              funext d
              have hle := h.last_le d
              have hge := h.last_nonneg d
              rw [hcounted] at hle
              exact le_antisymm hle hge
            refine ⟨fun _ hne => absurd hcounted hne, fun _ d => ?_⟩
            rw [gain, if_pos hcounted, hcounted, hlast]
            rfl
          · by_cases hlast : u.last k = 0
            · rw [← gain_of_first_iff hcounted fun d => h.counted_nonneg d]
              simp only [hlast, Pi.zero_apply, Int.sub_zero, true_implies, ne_eq, hcounted, not_false_eq_true]
            · exact ⟨fun _ _ hzero => absurd hzero hlast, fun _ d => gain_of_last h hlast hcounted d⟩
        · refine ⟨fun _ _ hyes => absurd hyes hanswers, fun _ d => ?_⟩
          rw [if_pos hk, if_neg hanswers, gain, if_pos rfl, if_neg fun hboth => hanswers hboth.2]
          exact (Int.sub_self _).symm
      · refine ⟨fun _ hyes => absurd hyes hk, fun _ d => ?_⟩
        rw [if_neg hk, if_neg fun hboth => hk hboth.1]
        exact (Int.sub_self _).symm

end Usage

/-- Along every run of accounts, restarts and scrapes that may fail, what was added to an account
up to any point is what was last scraped in each of its process lives, and nothing negative was
added, exactly when each scrape that is the first of a life to read something of it reads, in each
direction, less than what is remembered, or nothing is remembered there. -/
theorem usage_conserved_iff (k : Key) (events : List UsageEvent) :
    (∀ u ∈ states Usage.step {} events, u.Conserved k) ↔
      AllSteps Usage.step (Usage.TellsRestart k) {} events := by
  have hstart : Usage.Conserved k {} := ⟨fun _ => rfl, fun _ he => absurd he List.not_mem_nil⟩
  constructor
  · intro hall
    exact AllSteps.of_states (fun u a h => h.step a)
      (fun u a h hu hnext => (Usage.conserved_step_iff h hu a).1 hnext) Usage.Kept.start hall
  · intro hsteps u hu
    have hboth := hsteps.invariant
      (fun u a (h : Usage.Kept k u ∧ u.Conserved k) htells =>
        ⟨h.1.step a, (Usage.conserved_step_iff h.1 h.2 a).2 htells⟩) ⟨Usage.Kept.start, hstart⟩ u hu
    exact hboth.2

/-- The inbound of one account. -/
def oneAccount : Table Inbound.id := Table.single { id := 1, emails := some ["alice"] }

def alice : Key := (1, "alice")

def upDown (up down : ℕ) : Fin 2 → ℕ := fun d => if d = 0 then up else down

/-- What alice's telemt has counted is 100 and 50; after a restart it is scraped before alice has moved anything,
and again when it has counted 120 and 60. -/
def zeroReading : List UsageEvent :=
  [.move alice (upDown 100 50), .collect oneAccount fun _ => true, .restart 1, .collect oneAccount fun _ => true,
    .move alice (upDown 120 60), .collect oneAccount fun _ => true]

/-- The first scrape after the restart reads no more than the one before it, and a hundred bytes up are lost. -/
theorem zeroReading_lost :
    (run Usage.step {} (zeroReading.take 2)).last alice = (fun d => (upDown 100 50 d : ℤ)) ∧
      (run Usage.step {} (zeroReading.take 3)).counted alice = 0 ∧
      (run Usage.step {} zeroReading).emitted alice 0 = 120 ∧
      (run Usage.step {} zeroReading).lives alice 0 + (run Usage.step {} zeroReading).last alice 0 = 220 := by
  decide +kernel

end Simorgh.Vpn.Mtproto
