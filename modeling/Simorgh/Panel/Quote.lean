import Simorgh.Lib.Float64

/-!
# Pricing one client mutation

`quote` decides what a create, an edit or a counter reset costs a reseller, from
the profile, the quota before and after, the charge the account holds and what
it has consumed.  It reads no store.

* `quote_cases` — everything an accepted quote can be, one case per rule.
* `quote_delta` — away from wrap-around, the balance moves by what the charge
  moves by.
-/

namespace Simorgh.Panel

open Simorgh.Lib

/-- What a ledger operation is refused with. -/
inductive LedgerError where
  | notAReseller
  | insufficientBalance (short : Option Int)
  | resetNotOwned
  | belowMinCreate (gb : Int)
  | belowMinAdd (gb : Int)
  | unlimitedAccount
  | invalidQuota
  | clientNotOwned
  | emailRequired
  | expectedOneClient
  | malformedBody
  | duplicateEmail (email : String)
  | bulkNoSubDays
  | bulkDaysAreDerived
  | bulkAmount
  | constraint
  deriving DecidableEq, Repr

/-- A reseller's standing: what an admin granted, what is committed, and the
limits on what may be sold.  All amounts are bytes except the two minimums. -/
structure ResellerProfile where
  userId : Nat
  allowanceBytes : Int := 0
  spentBytes : Int := 0
  unlimited : Bool := false
  daysPerGB : Int := 0
  minCreateGB : Int := 0
  minAddGB : Int := 0
  allowExternalProxy : Bool := false
  deriving DecidableEq, Repr

/-- A GB in bytes. -/
def oneGB : Int := 1024 * 1024 * 1024

/-- A whole-GB setting in bytes, saturating. -/
def gbToBytes (gb : Int) : Int :=
  if gb ≤ 0 then 0
  else if maxInt64 / oneGB < gb then maxInt64
  else gb * oneGB

/-- What a reseller may still commit; zero for an unlimited one. -/
def availableBytes (p : ResellerProfile) : Int :=
  if p.unlimited then 0
  else max 0 (int64 (p.allowanceBytes - max 0 p.spentBytes))

/-- The refusal that names the deficit. -/
def shortBy (want available : Int) : LedgerError :=
  .insufficientBalance (some (max 0 (int64 (want - available))))

/-- Everything one client mutation needs to be priced. -/
structure QuoteInput where
  profile : ResellerProfile
  create : Bool := false
  oldTotal : Int := 0
  newTotal : Int := 0
  oldCharged : Int := 0
  consumed : Int := 0
  currentExpiry : Int := 0
  nowMillis : Int := 0
  reset : Bool := false
  clearedBytes : Int := 0
  deriving DecidableEq, Repr

/-- The decided effect of one mutation. -/
structure ChargeQuote where
  deltaSpent : Int := 0
  newCharged : Int := 0
  forceExpiry : Bool := false
  expiryTime : Int := 0
  deriving DecidableEq, Repr

/-- A century in milliseconds. -/
def maxOffsetMs : Int := 100 * 365 * 24 * 60 * 60 * 1000

/-- The milliseconds a charge change buys, in float64 arithmetic. -/
def offsetMs (p : ResellerProfile) (deltaSpent : Int) : ℚ :=
  let days := float64 (float64 (float64 deltaSpent / oneGB) * float64 p.daysPerGB)
  float64 (float64 (float64 (float64 (days * 24) * 60) * 60) * 1000)

/-- The deadline days-per-GB derives from the traffic just moved. -/
def forcedExpiry (p : ResellerProfile) (i : QuoteInput) (deltaSpent : Int) : Bool × Int :=
  if p.daysPerGB ≤ 0 ∨ deltaSpent = 0 then (false, 0)
  else if i.newTotal ≤ 0 then (false, 0)
  else
    let base := max i.currentExpiry i.nowMillis
    let ms := offsetMs p deltaSpent
    let out :=
      if (maxOffsetMs : ℚ) < ms then int64 (base + maxOffsetMs)
      else if ms < (-maxOffsetMs : ℚ) then int64 (base - maxOffsetMs)
      else int64 (base + floatToInt64 ms)
    (true, max out i.nowMillis)

/-- A quote with the deadline its balance move forces. -/
def withExpiry (i : QuoteInput) (deltaSpent newCharged : Int) : ChargeQuote :=
  let expiry := forcedExpiry i.profile i deltaSpent
  ⟨deltaSpent, newCharged, expiry.1, expiry.2⟩

/-- Price one client mutation against a reseller's limits. -/
def quote (i : QuoteInput) : Except LedgerError ChargeQuote :=
  let p := i.profile
  let available := availableBytes p
  if i.reset then
    let cleared := max 0 i.clearedBytes
    if !p.unlimited && decide (available < cleared) then .error (shortBy cleared available)
    else .ok (withExpiry i cleared (int64 (i.oldCharged + cleared)))
  else if i.newTotal < 0 then .error .invalidQuota
  else if i.newTotal = 0 ∧ (p.unlimited = false ∨ 0 < i.oldCharged) then .error .unlimitedAccount
  else if i.create then
    if 0 < gbToBytes p.minCreateGB ∧ i.newTotal < gbToBytes p.minCreateGB then
      .error (.belowMinCreate p.minCreateGB)
    else if !p.unlimited && decide (available < i.newTotal) then
      .error (shortBy i.newTotal available)
    else .ok (withExpiry i i.newTotal i.newTotal)
  else if i.oldTotal < i.newTotal then
    -- top up
    let delta := int64 (i.newTotal - i.oldTotal)
    if 0 < gbToBytes p.minAddGB ∧ delta < gbToBytes p.minAddGB then
      .error (.belowMinAdd p.minAddGB)
    else if !p.unlimited && decide (available < delta) then .error (shortBy delta available)
    else .ok (withExpiry i delta (int64 (i.oldCharged + delta)))
  else if i.newTotal < i.oldTotal then
    -- deduct: the clamp at what was consumed, then the clamp at what was charged
    let newCharged := min (max i.newTotal i.consumed) i.oldCharged
    .ok (withExpiry i (int64 (newCharged - i.oldCharged)) newCharged)
  else .ok (withExpiry i 0 i.oldCharged)

/-! ## What an accepted quote can be -/

/-- The rule an accepted quote was made by. -/
inductive Priced (i : QuoteInput) : ChargeQuote → Prop where
  | reset (hr : i.reset = true)
      (hfit : i.profile.unlimited = false → max 0 i.clearedBytes ≤ availableBytes i.profile) :
      Priced i (withExpiry i (max 0 i.clearedBytes) (int64 (i.oldCharged + max 0 i.clearedBytes)))
  | create (hr : i.reset = false) (hc : i.create = true) (h0 : 0 ≤ i.newTotal)
      (hz : i.newTotal = 0 → i.profile.unlimited = true ∧ i.oldCharged ≤ 0) :
      Priced i (withExpiry i i.newTotal i.newTotal)
  | topUp (hr : i.reset = false) (hc : i.create = false) (h0 : 0 ≤ i.newTotal)
      (hlt : i.oldTotal < i.newTotal) :
      Priced i (withExpiry i (int64 (i.newTotal - i.oldTotal))
        (int64 (i.oldCharged + int64 (i.newTotal - i.oldTotal))))
  | deduct (hr : i.reset = false) (hc : i.create = false) (h0 : 0 ≤ i.newTotal)
      (hz : i.newTotal = 0 → i.profile.unlimited = true ∧ i.oldCharged ≤ 0)
      (hlt : i.newTotal < i.oldTotal) :
      Priced i (withExpiry i (int64 (min (max i.newTotal i.consumed) i.oldCharged - i.oldCharged))
        (min (max i.newTotal i.consumed) i.oldCharged))
  | unchanged (hr : i.reset = false) (hc : i.create = false) (h0 : 0 ≤ i.newTotal)
      (heq : i.newTotal = i.oldTotal) : Priced i (withExpiry i 0 i.oldCharged)

theorem quote_cases {i : QuoteInput} {q : ChargeQuote} (h : quote i = .ok q) : Priced i q := by
  unfold quote at h
  by_cases hr : i.reset = true
  · simp only [hr, if_true] at h
    split at h
    · cases h
    · rename_i hfit
      cases h
      refine Priced.reset hr fun hu => ?_
      simpa [hu] using hfit
  · replace hr : i.reset = false := by simpa using hr
    simp only [hr, Bool.false_eq_true, if_false] at h
    split at h
    · cases h
    rename_i hneg
    have h0 : 0 ≤ i.newTotal := not_lt.1 hneg
    split at h
    · cases h
    rename_i hzero
    have hz : i.newTotal = 0 → i.profile.unlimited = true ∧ i.oldCharged ≤ 0 := by
      intro hn
      have := fun h => hzero ⟨hn, h⟩
      simpa [not_or] using this
    split at h
    · rename_i hc
      split at h
      · cases h
      split at h
      · cases h
      cases h
      exact Priced.create hr hc h0 hz
    · rename_i hc
      replace hc : i.create = false := by simpa using hc
      split at h
      · rename_i hlt
        split at h
        · cases h
        split at h
        · cases h
        cases h
        exact Priced.topUp hr hc h0 hlt
      · split at h
        · rename_i hlt
          cases h
          exact Priced.deduct hr hc h0 hz hlt
        · rename_i h₁ h₂
          cases h
          exact Priced.unchanged hr hc h0 (by omega)

@[simp] theorem withExpiry_deltaSpent (i : QuoteInput) (d c : Int) :
    (withExpiry i d c).deltaSpent = d := rfl

@[simp] theorem withExpiry_newCharged (i : QuoteInput) (d c : Int) :
    (withExpiry i d c).newCharged = c := rfl

/-- The sums of one quote stay inside int64: the quotas and the charge are
machine integers, and so are the charge plus what a top-up or a reset adds. -/
structure QuoteFits (i : QuoteInput) : Prop where
  newTotal : i.newTotal < 2 ^ 63
  oldTotal : 0 ≤ i.oldTotal ∧ i.oldTotal < 2 ^ 63
  oldCharged : 0 ≤ i.oldCharged ∧ i.oldCharged < 2 ^ 63
  consumed : 0 ≤ i.consumed
  topUp : i.reset = false → i.oldCharged + (i.newTotal - i.oldTotal) < 2 ^ 63
  reset : i.reset = true → i.oldCharged + max 0 i.clearedBytes < 2 ^ 63

instance (i : QuoteInput) : Decidable (QuoteFits i) :=
  decidable_of_iff
    (i.newTotal < 2 ^ 63 ∧ (0 ≤ i.oldTotal ∧ i.oldTotal < 2 ^ 63) ∧
      (0 ≤ i.oldCharged ∧ i.oldCharged < 2 ^ 63) ∧ 0 ≤ i.consumed ∧
      (i.reset = false → i.oldCharged + (i.newTotal - i.oldTotal) < 2 ^ 63) ∧
      (i.reset = true → i.oldCharged + max 0 i.clearedBytes < 2 ^ 63))
    ⟨fun ⟨h₁, h₂, h₃, h₄, h₅, h₆⟩ => ⟨h₁, h₂, h₃, h₄, h₅, h₆⟩,
      fun ⟨h₁, h₂, h₃, h₄, h₅, h₆⟩ => ⟨h₁, h₂, h₃, h₄, h₅, h₆⟩⟩

/-- Away from wrap-around, an edit or a reset moves the balance by exactly what
it moves the charge by. -/
theorem quote_delta {i : QuoteInput} {q : ChargeQuote} (h : quote i = .ok q)
    (hc : i.create = false) (hfit : QuoteFits i) :
    q.deltaSpent = q.newCharged - i.oldCharged := by
  obtain ⟨hn, ⟨ho0, ho⟩, ⟨hch0, hch⟩, hcons, htop, hres⟩ := hfit
  cases quote_cases h with
  | reset hr =>
      have hsum := hres hr
      clear htop hres
      have : int64 (i.oldCharged + max 0 i.clearedBytes) = i.oldCharged + max 0 i.clearedBytes :=
        int64_of_fits ⟨by omega, by omega⟩
      simp only [withExpiry_deltaSpent, withExpiry_newCharged, this]
      omega
  | create _ hc' => simp [hc] at hc'
  | topUp hr _ h0 hlt =>
      have hsum := htop hr
      clear htop hres
      have hsub : int64 (i.newTotal - i.oldTotal) = i.newTotal - i.oldTotal :=
        int64_sub_of_nonneg h0 hn ho0 ho
      have hadd : int64 (i.oldCharged + (i.newTotal - i.oldTotal)) =
          i.oldCharged + (i.newTotal - i.oldTotal) := int64_of_fits ⟨by omega, by omega⟩
      simp only [withExpiry_deltaSpent, withExpiry_newCharged, hsub, hadd]
      omega
  | deduct _ _ h0 _ hlt =>
      clear htop hres
      simp only [withExpiry_deltaSpent, withExpiry_newCharged]
      exact int64_of_fits ⟨by omega, by omega⟩
  | unchanged =>
      simp

/-- An edit moves the balance by no more than the charge held and the quota asked
for, and leaves a charge that is not negative. -/
theorem quote_bound {i : QuoteInput} {q : ChargeQuote} (h : quote i = .ok q)
    (hc : i.create = false) (hr : i.reset = false) (hfit : QuoteFits i) :
    -i.oldCharged ≤ q.deltaSpent ∧ q.deltaSpent ≤ i.newTotal ∧ 0 ≤ i.newTotal ∧
      0 ≤ q.newCharged := by
  have hdelta := quote_delta h hc hfit
  obtain ⟨hn, ⟨ho0, ho⟩, ⟨hch0, hch⟩, hcons, htop, hres⟩ := hfit
  cases quote_cases h with
  | reset hr' => simp [hr] at hr'
  | create _ hc' => simp [hc] at hc'
  | topUp hr _ h0 hlt =>
      have hsum := htop hr
      clear htop hres
      have hsub : int64 (i.newTotal - i.oldTotal) = i.newTotal - i.oldTotal :=
        int64_sub_of_nonneg h0 hn ho0 ho
      have hadd : int64 (i.oldCharged + (i.newTotal - i.oldTotal)) =
          i.oldCharged + (i.newTotal - i.oldTotal) := int64_of_fits ⟨by omega, by omega⟩
      simp only [withExpiry_deltaSpent, withExpiry_newCharged, hsub, hadd]
      omega
  | deduct _ _ h0 _ hlt =>
      clear htop hres
      simp only [withExpiry_deltaSpent, withExpiry_newCharged] at hdelta ⊢
      omega
  | unchanged _ _ h0 =>
      clear htop hres
      simp only [withExpiry_deltaSpent, withExpiry_newCharged]
      omega

theorem quote_create {i : QuoteInput} {q : ChargeQuote} (h : quote i = .ok q)
    (hr : i.reset = false) (hc : i.create = true) :
    q.deltaSpent = i.newTotal ∧ q.newCharged = i.newTotal ∧ 0 ≤ i.newTotal := by
  cases quote_cases h with
  | reset hr' => simp [hr] at hr'
  | create _ _ h0 => exact ⟨rfl, rfl, h0⟩
  | topUp _ hc' => simp [hc] at hc'
  | deduct _ hc' => simp [hc] at hc'
  | unchanged _ hc' => simp [hc] at hc'

end Simorgh.Panel
