import Mathlib.Algebra.Order.Field.Rat
import Mathlib.Tactic.FieldSimp
import Simorgh.Lib.Clamped
import Simorgh.Panel.Quote

/-!
# Time that follows traffic

A reseller with days per GB sells time with traffic: a top-up moves the deadline
of an account on and a deduct moves it back, by the days that the charge stands
for.  Here the days are exact.

* `exactExpiry` — the deadline after a charge.
* `runEdits` — several edits of one account at one moment.
* `deadline_kept_iff` — edits that cost nothing together leave the deadline where it
  was exactly when it would not have fallen before the present on the way.
* `free_days` — a deduct and a top-up that give an account nine days for nothing.
-/

namespace Simorgh.Panel

open Simorgh.Lib

/-! ## Exact days -/

/-- The milliseconds that a charge stands for. -/
def exactMs (daysPerGB deltaSpent : Int) : ℚ := deltaSpent / oneGB * daysPerGB * 24 * 60 * 60 * 1000

/-- `forcedExpiry` with exact days and no century; without a forced deadline the old one stays. -/
def exactExpiry (p : ResellerProfile) (newTotal : Int) (now : Int) (deadline : ℚ) (deltaSpent : Int) : ℚ :=
  if p.daysPerGB ≤ 0 ∨ deltaSpent = 0 then deadline
  else if newTotal ≤ 0 then deadline
  else max (max deadline now + exactMs p.daysPerGB deltaSpent) now

theorem exactMs_add (daysPerGB x y : Int) : exactMs daysPerGB (x + y) = exactMs daysPerGB x + exactMs daysPerGB y := by
  unfold exactMs
  push_cast
  ring

theorem exactMs_zero (daysPerGB : Int) : exactMs daysPerGB 0 = 0 := by
  simp [exactMs]

theorem exactMs_sum (daysPerGB : Int) (deltas : List Int) :
    (deltas.map (exactMs daysPerGB)).sum = exactMs daysPerGB deltas.sum := by
  induction deltas with
  | nil => exact (exactMs_zero daysPerGB).symm
  | cons d deltas ih => rw [List.map_cons, List.sum_cons, List.sum_cons, ih, exactMs_add]

/-! ## Edits of one account -/

/-- What a price looks at, and the deadline. -/
structure SoldAccount where
  total : Int
  charged : Int
  deadline : ℚ
  deriving DecidableEq

/-- A top-up or a deduct, and how the reseller stands when it is priced. -/
structure QuotaEdit where
  profile : ResellerProfile
  newTotal : Int

/-- The price of an edit at this moment. -/
def QuotaEdit.input (consumed now : Int) (a : SoldAccount) (e : QuotaEdit) : QuoteInput where
  profile := e.profile
  oldTotal := a.total
  newTotal := e.newTotal
  oldCharged := a.charged
  consumed := consumed
  currentExpiry := ⌊a.deadline⌋
  nowMillis := now

/-- One edit: what it costs, and the account afterwards. -/
def runEdit (consumed now : Int) (a : SoldAccount) (e : QuotaEdit) : Except LedgerError (Int × SoldAccount) :=
  (quote (e.input consumed now a)).map fun q =>
    (q.deltaSpent, ⟨e.newTotal, q.newCharged, exactExpiry e.profile e.newTotal now a.deadline q.deltaSpent⟩)

/-- One edit after another, if all are accepted. -/
def runEdits (consumed now : Int) : SoldAccount → List QuotaEdit → Except LedgerError (List Int × SoldAccount)
  | a, [] => .ok ([], a)
  | a, e :: es => do
      let (delta, b) ← runEdit consumed now a e
      let (deltas, c) ← runEdits consumed now b es
      .ok (delta :: deltas, c)

/-- What an edit moves the charge by. -/
def QuotaEdit.moved (consumed : Int) (a : SoldAccount) (e : QuotaEdit) : Int :=
  if a.total < e.newTotal then int64 (e.newTotal - a.total)
  else if e.newTotal < a.total then int64 (min (max e.newTotal consumed) a.charged - a.charged)
  else 0

/-- No edit takes back more time than the account has left when it is made. -/
def Paced (daysPerGB consumed now : Int) : SoldAccount → List QuotaEdit → Prop
  | _, [] => True
  | a, e :: es =>
      now ≤ a.deadline + exactMs daysPerGB (e.moved consumed a) ∧
        ∀ delta b, runEdit consumed now a e = .ok (delta, b) → Paced daysPerGB consumed now b es

/-- No edit uncaps an account whose stored quota is negative. -/
def Capped (a : SoldAccount) (edits : List QuotaEdit) : Prop := 0 ≤ a.total ∨ ∀ e ∈ edits, e.newTotal ≠ 0

section

variable {consumed now daysPerGB delta : Int} {a b : SoldAccount} {e : QuotaEdit}
  {edits : List QuotaEdit} {deltas : List Int}

/-- All that an accepted edit does. -/
theorem runEdit_ok (h : runEdit consumed now a e = .ok (delta, b)) :
    delta = e.moved consumed a ∧ 0 ≤ e.newTotal ∧ b.total = e.newTotal ∧
      b.deadline = exactExpiry e.profile e.newTotal now a.deadline delta ∧
      (e.newTotal = 0 → 0 ≤ a.total → delta = 0) := by
  unfold runEdit at h
  cases hq : quote (e.input consumed now a) with
  | error err =>
      rw [hq] at h
      cases h
  | ok q =>
      rw [hq] at h
      cases h
      unfold QuotaEdit.moved
      cases quote_cases hq with
      | reset hr => cases hr
      | create _ hc => cases hc
      | topUp hr hc h0 hlt =>
          change a.total < e.newTotal at hlt
          refine ⟨(if_pos hlt).symm, h0, rfl, rfl, fun hzero htotal => ?_⟩
          omega
      | deduct hr hc h0 hz hlt =>
          change e.newTotal < a.total at hlt
          refine ⟨?_, h0, rfl, rfl, fun hzero htotal => ?_⟩
          · rw [if_neg (not_lt.2 hlt.le), if_pos hlt]
            rfl
          · -- an account without a charge has nothing to give back
            have hcharged : a.charged ≤ 0 := (hz hzero).2
            have hkept : min (max e.newTotal consumed) a.charged = a.charged := by omega
            show int64 (min (max e.newTotal consumed) a.charged - a.charged) = 0
            rw [hkept, sub_self]
            rfl
      | unchanged hr hc h0 heq =>
          change e.newTotal = a.total at heq
          refine ⟨?_, h0, rfl, rfl, fun _ _ => rfl⟩
          rw [if_neg (by omega), if_neg (by omega)]
          rfl

theorem exactExpiry_live {p : ResellerProfile} {newTotal : Int} {deadline : ℚ}
    (hd : 0 < p.daysPerGB) (hlive : now ≤ deadline)
    (hcoupled : delta = 0 ∨ 0 < newTotal) :
    exactExpiry p newTotal now deadline delta = max (now : ℚ) (deadline + exactMs p.daysPerGB delta) := by
  unfold exactExpiry
  by_cases hzero : delta = 0
  · rw [if_pos (Or.inr hzero), hzero, exactMs_zero, add_zero, max_eq_right hlive]
  · rw [if_neg (not_or.2 ⟨not_le.2 hd, hzero⟩), if_neg (not_le.2 (hcoupled.resolve_left hzero)), max_eq_left hlive,
      max_comm]

/-- One edit of a live account moves the deadline by what it moves the charge by, but not into the past. -/
theorem runEdit_deadline (h : runEdit consumed now a e = .ok (delta, b)) (hd : 0 < e.profile.daysPerGB)
    (hlive : now ≤ a.deadline) (hcapped : 0 ≤ a.total ∨ e.newTotal ≠ 0) :
    b.deadline = max (now : ℚ) (a.deadline + exactMs e.profile.daysPerGB delta) := by
  obtain ⟨hdelta, h0, htotal, hdeadline, hzero⟩ := runEdit_ok h
  rw [hdeadline]
  apply exactExpiry_live hd hlive
  rcases hcapped with hquota | hpos
  · by_cases hempty : e.newTotal = 0
    · exact Or.inl (hzero hempty hquota)
    · exact Or.inr (by omega)
  · exact Or.inr (by omega)

theorem runEdits_cons (h : runEdits consumed now a (e :: edits) = .ok (deltas, b)) :
    ∃ delta c rest, runEdit consumed now a e = .ok (delta, c) ∧ runEdits consumed now c edits = .ok (rest, b) ∧
      deltas = delta :: rest := by
  unfold runEdits at h
  cases hfirst : runEdit consumed now a e with
  | error err =>
      rw [hfirst] at h
      cases h
  | ok first =>
      rw [hfirst] at h
      obtain ⟨delta, c⟩ := first
      cases hrest : runEdits consumed now c edits with
      | error err =>
          simp only [bind, Except.bind, hrest] at h
          cases h
      | ok rest =>
          simp only [bind, Except.bind, hrest] at h
          cases h
          exact ⟨delta, c, rest.1, rfl, hrest, rfl⟩

/-- The quota is not negative after an edit, so the rest of the edits are capped. -/
theorem Capped.rest (h : runEdit consumed now a e = .ok (delta, b)) : Capped b edits := by
  obtain ⟨-, h0, htotal, -⟩ := runEdit_ok h
  exact Or.inl (htotal.symm ▸ h0)

theorem Capped.head (h : Capped a (e :: edits)) : 0 ≤ a.total ∨ e.newTotal ≠ 0 :=
  h.imp_right fun hall => hall e List.mem_cons_self

/-- The deadline after the edits, as steps that are clamped at the present. -/
theorem deadline_eq_clamped (hd : 0 < daysPerGB) (hrate : ∀ e ∈ edits, e.profile.daysPerGB = daysPerGB)
    (hlive : now ≤ a.deadline) (hcapped : Capped a edits) (hrun : runEdits consumed now a edits = .ok (deltas, b)) :
    b.deadline = clamped (now : ℚ) a.deadline (deltas.map (exactMs daysPerGB)) := by
  induction edits generalizing a deltas with
  | nil =>
      cases hrun
      rfl
  | cons e edits ih =>
      obtain ⟨delta, c, rest, hfirst, hrest, rfl⟩ := runEdits_cons hrun
      have hrate' : e.profile.daysPerGB = daysPerGB := hrate e List.mem_cons_self
      have hc := runEdit_deadline hfirst (hrate'.symm ▸ hd) hlive hcapped.head
      rw [hrate'] at hc
      have hlive' : (now : ℚ) ≤ c.deadline := hc.symm ▸ le_max_left _ _
      rw [ih (fun e he => hrate e (List.mem_cons_of_mem _ he)) hlive' (Capped.rest hfirst) hrest, hc]
      rfl

/-- The pace is that of the sums of what was charged so far. -/
theorem paced_iff_prefixes (hd : 0 < daysPerGB) (hrate : ∀ e ∈ edits, e.profile.daysPerGB = daysPerGB)
    (hlive : now ≤ a.deadline) (hcapped : Capped a edits) (hrun : runEdits consumed now a edits = .ok (deltas, b)) :
    Paced daysPerGB consumed now a edits ↔
      ∀ p, p <+: deltas.map (exactMs daysPerGB) → (now : ℚ) ≤ a.deadline + p.sum := by
  induction edits generalizing a deltas with
  | nil =>
      cases hrun
      refine ⟨fun _ p hp => ?_, fun _ => trivial⟩
      rw [List.prefix_nil.1 hp, List.sum_nil, add_zero]
      exact hlive
  | cons e edits ih =>
      obtain ⟨delta, c, rest, hfirst, hrest, rfl⟩ := runEdits_cons hrun
      have hrate' : e.profile.daysPerGB = daysPerGB := hrate e List.mem_cons_self
      have hdelta : delta = e.moved consumed a := (runEdit_ok hfirst).1
      have hc := runEdit_deadline hfirst (hrate'.symm ▸ hd) hlive hcapped.head
      rw [hrate'] at hc
      have hlive' : (now : ℚ) ≤ c.deadline := hc.symm ▸ le_max_left _ _
      have ihc := ih (fun e he => hrate e (List.mem_cons_of_mem _ he)) hlive' (Capped.rest hfirst) hrest
      rw [Paced, ← hdelta]
      constructor
      · rintro ⟨hnow, hnext⟩ p hp
        rw [max_eq_right hnow] at hc
        rcases List.prefix_cons_iff.1 hp with rfl | ⟨p', rfl, hp'⟩
        · rw [List.sum_nil, add_zero]
          exact hlive
        · have hstep := ihc.1 (hnext delta c hfirst) p' hp'
          rw [hc, add_assoc] at hstep
          rw [List.sum_cons]
          exact hstep
      · intro hall
        have hnow : (now : ℚ) ≤ a.deadline + exactMs daysPerGB delta := by
          have hone := hall [exactMs daysPerGB delta] ⟨rest.map (exactMs daysPerGB), rfl⟩
          rwa [List.sum_singleton] at hone
        rw [max_eq_right hnow] at hc
        refine ⟨hnow, fun delta' c' hfirst' => ?_⟩
        have hsame := hfirst.symm.trans hfirst'
        cases hsame
        refine ihc.2 fun p hp => ?_
        have hlonger := hall (exactMs daysPerGB delta :: p) (List.cons_prefix_cons.2 ⟨rfl, hp⟩)
        rw [List.sum_cons, ← add_assoc, ← hc] at hlonger
        exact hlonger

end

/-- Edits of a live account that cost nothing together leave its deadline where it was exactly when none of
them would have taken it into the past. -/
theorem deadline_kept_iff (daysPerGB consumed now : Int) (a b : SoldAccount)
    (edits : List QuotaEdit) (deltas : List Int)
    (hd : 0 < daysPerGB) (hrate : ∀ e ∈ edits, e.profile.daysPerGB = daysPerGB) (hlive : now ≤ a.deadline)
    (hcapped : Capped a edits) (hrun : runEdits consumed now a edits = .ok (deltas, b)) (hfree : deltas.sum = 0) :
    b.deadline = a.deadline ↔ Paced daysPerGB consumed now a edits := by
  have hsum : a.deadline + (deltas.map (exactMs daysPerGB)).sum = a.deadline := by
    rw [exactMs_sum, hfree, exactMs_zero, add_zero]
  rw [paced_iff_prefixes hd hrate hlive hcapped hrun, ← clamped_eq_add_sum_iff hlive, hsum,
    deadline_eq_clamped hd hrate hlive hcapped hrun]

/-- A reseller who sells a day with each GB. -/
def dailyReseller : ResellerProfile := { userId := 1, allowanceBytes := 100 * oneGB, daysPerGB := 1 }

/-- Ten GB taken back and given again. -/
def backAndForth : List QuotaEdit := [⟨dailyReseller, 10 * oneGB⟩, ⟨dailyReseller, 20 * oneGB⟩]

/-- Twenty GB, with this many days left at the start of time. -/
def soldForDays (days : ℚ) : SoldAccount := ⟨20 * oneGB, 20 * oneGB, days * 24 * 60 * 60 * 1000⟩

theorem backAndForth_kept :
    runEdits 0 0 (soldForDays 30) backAndForth = .ok ([-10 * oneGB, 10 * oneGB], soldForDays 30) ∧
      Paced 1 0 0 (soldForDays 30) backAndForth := by
  have hrun : runEdits 0 0 (soldForDays 30) backAndForth = .ok ([-10 * oneGB, 10 * oneGB], soldForDays 30) := by
    decide +kernel
  refine ⟨hrun, ?_⟩
  have hkept := deadline_kept_iff 1 0 0 (soldForDays 30) (soldForDays 30) backAndForth _ (by decide) (by decide)
    (by decide +kernel) (Or.inl (by decide)) hrun (by decide)
  exact hkept.1 rfl

/-- With one day left, ten GB taken back and given again leave ten days. -/
theorem free_days :
    0 < dailyReseller.daysPerGB ∧ (0 : ℚ) ≤ (soldForDays 1).deadline ∧
      runEdits 0 0 (soldForDays 1) backAndForth = .ok ([-10 * oneGB, 10 * oneGB], soldForDays 10) ∧
      [-10 * oneGB, 10 * oneGB].sum = 0 ∧ (soldForDays 1).deadline < (soldForDays 10).deadline := by
  refine ⟨?_, ?_, ?_, ?_, ?_⟩ <;> decide +kernel

end Simorgh.Panel
