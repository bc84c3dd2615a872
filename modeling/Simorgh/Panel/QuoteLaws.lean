import Simorgh.Panel.Quote

/-!
# What a price may be

`quote` computes with machine integers.  The laws of a price are meant for the
numbers they stand for, so they break where a sum wraps.

* `QuoteLaws` — no more than the balance, only a deduct refunds, and the balance
  moves by what the charge moves by.
* `quoteLaws_iff` — an accepted price keeps the laws exactly when neither the
  quota that is added nor the charge afterwards leaves the 64 bits.
* `topUp_refunds` — a top-up of a negative quota that pays the reseller.
-/

namespace Simorgh.Panel

open Simorgh.Lib

/-! ## The laws -/

/-- Every number of the input is a machine integer. -/
structure QuoteInput.Fits (i : QuoteInput) : Prop where
  allowance : FitsInt64 i.profile.allowanceBytes
  spent : FitsInt64 i.profile.spentBytes
  daysPerGB : FitsInt64 i.profile.daysPerGB
  minCreateGB : FitsInt64 i.profile.minCreateGB
  minAddGB : FitsInt64 i.profile.minAddGB
  oldTotal : FitsInt64 i.oldTotal
  newTotal : FitsInt64 i.newTotal
  oldCharged : FitsInt64 i.oldCharged
  consumed : FitsInt64 i.consumed
  currentExpiry : FitsInt64 i.currentExpiry
  nowMillis : FitsInt64 i.nowMillis
  clearedBytes : FitsInt64 i.clearedBytes

/-- An edit of an existing account that raises its quota. -/
def QuoteInput.topsUp (i : QuoteInput) : Prop := i.reset = false ∧ i.create = false ∧ i.oldTotal < i.newTotal

/-- An edit of an existing account that lowers its quota. -/
def QuoteInput.deducts (i : QuoteInput) : Prop := i.reset = false ∧ i.create = false ∧ i.newTotal < i.oldTotal

/-- What a quote is held to. -/
structure QuoteLaws (i : QuoteInput) (q : ChargeQuote) : Prop where
  solvent : i.profile.unlimited = false → q.deltaSpent ≤ availableBytes i.profile
  costs : i.reset = true ∨ i.create = true ∨ i.topsUp → 0 ≤ q.deltaSpent
  returns : i.deducts → q.deltaSpent ≤ 0
  /-- An edit or a reset moves the balance by what it moves the charge by. -/
  charge : i.reset = true ∨ i.create = false → q.newCharged = i.oldCharged + q.deltaSpent
  charge_nonneg : 0 ≤ i.oldCharged → 0 ≤ q.newCharged
  /-- No more is refunded than was charged and is neither kept nor used. -/
  refund : max 0 (-q.deltaSpent) ≤ max 0 (i.oldCharged - max i.newTotal i.consumed)
  expiry : q.forceExpiry = true → i.nowMillis ≤ q.expiryTime

/-- Nothing that is added up leaves the 64 bits. -/
structure QuoteInput.Unwrapped (i : QuoteInput) : Prop where
  reset : i.reset = true → i.oldCharged + max 0 i.clearedBytes < 2 ^ 63
  topUp : i.topsUp → i.newTotal - i.oldTotal < 2 ^ 63 ∧ i.oldCharged + (i.newTotal - i.oldTotal) < 2 ^ 63

/-! ## What holds of every price -/

section

variable {i : QuoteInput} {q : ChargeQuote}

theorem availableBytes_nonneg (p : ResellerProfile) : 0 ≤ availableBytes p := by
  unfold availableBytes
  split
  · exact le_refl 0
  · exact le_max_left 0 _

theorem forcedExpiry_ge_now (p : ResellerProfile) (i : QuoteInput) (deltaSpent : Int)
    (h : (forcedExpiry p i deltaSpent).1 = true) : i.nowMillis ≤ (forcedExpiry p i deltaSpent).2 := by
  by_cases hfree : p.daysPerGB ≤ 0 ∨ deltaSpent = 0
  · rw [forcedExpiry, if_pos hfree] at h
    cases h
  · by_cases hempty : i.newTotal ≤ 0
    · rw [forcedExpiry, if_neg hfree, if_pos hempty] at h
      cases h
    · rw [forcedExpiry, if_neg hfree, if_neg hempty]
      exact le_max_right _ _

/-- A deduct lowers the charge, but not below zero. -/
theorem deducted_charge (h0 : 0 ≤ i.newTotal) :
    min (max i.newTotal i.consumed) i.oldCharged ≤ i.oldCharged ∧
      min 0 i.oldCharged ≤ min (max i.newTotal i.consumed) i.oldCharged := by
  omega

/-- A limited reseller pays for a new account out of the balance. -/
theorem create_fits (h : quote i = .ok q) (hlimited : i.profile.unlimited = false) (hr : i.reset = false)
    (hc : i.create = true) : i.newTotal ≤ availableBytes i.profile := by
  unfold quote at h
  simp only [hr, hc, hlimited, Bool.false_eq_true, if_false, if_true, Bool.not_false, Bool.true_and,
    decide_eq_true_eq] at h
  split at h
  · cases h
  split at h
  · cases h
  split at h
  · cases h
  split at h
  · cases h
  case isFalse hfit => exact not_lt.1 hfit

/-- And for what a top-up comes out as. -/
theorem topUp_fits (h : quote i = .ok q) (hlimited : i.profile.unlimited = false) (htop : i.topsUp) :
    int64 (i.newTotal - i.oldTotal) ≤ availableBytes i.profile := by
  obtain ⟨hr, hc, hlt⟩ := htop
  unfold quote at h
  simp only [hr, hc, hlimited, hlt, Bool.false_eq_true, if_false, if_true, Bool.not_false, Bool.true_and,
    decide_eq_true_eq] at h
  split at h
  · cases h
  split at h
  · cases h
  split at h
  · cases h
  split at h
  · cases h
  case isFalse hfit => exact not_lt.1 hfit

/-- A deduct moves the balance by what it moves the charge by. -/
theorem deduct_delta (h0 : 0 ≤ i.newTotal) (hfits : i.Fits) :
    int64 (min (max i.newTotal i.consumed) i.oldCharged - i.oldCharged) =
      min (max i.newTotal i.consumed) i.oldCharged - i.oldCharged := by
  obtain ⟨hle, hge⟩ := deducted_charge h0
  have hcharged := hfits.oldCharged.2
  exact int64_of_fits ⟨by omega, by omega⟩

/-- The balance is never exceeded, wrap or not. -/
theorem quote_solvent (h : quote i = .ok q) (hlimited : i.profile.unlimited = false) (hfits : i.Fits) :
    q.deltaSpent ≤ availableBytes i.profile := by
  have havail := availableBytes_nonneg i.profile
  cases quote_cases h with
  | reset hr hfit => exact hfit hlimited
  | create hr hc => exact create_fits h hlimited hr hc
  | topUp hr hc h0 hlt => exact topUp_fits h hlimited ⟨hr, hc, hlt⟩
  | deduct hr hc h0 hz hlt =>
      have hbound := deducted_charge (i := i) h0
      rw [withExpiry_deltaSpent, deduct_delta h0 hfits]
      omega
  | unchanged => exact havail

theorem quote_expiry (h : quote i = .ok q) (hforce : q.forceExpiry = true) : i.nowMillis ≤ q.expiryTime := by
  have hwith : ∀ d c, (withExpiry i d c).forceExpiry = true → i.nowMillis ≤ (withExpiry i d c).expiryTime :=
    fun d c hd => forcedExpiry_ge_now i.profile i d hd
  cases quote_cases h <;> exact hwith _ _ hforce

/-! ## When the laws hold -/

/-- The laws of a price that was made without a wrap. -/
theorem quoteLaws_of_unwrapped (h : quote i = .ok q) (hfits : i.Fits) (hw : i.Unwrapped) : QuoteLaws i q := by
  have hsolvent := fun hlimited => quote_solvent h hlimited hfits
  have hexpiry := quote_expiry h
  have hcharged := hfits.oldCharged
  cases quote_cases h with
  | reset hr hfit =>
      have hsum : int64 (i.oldCharged + max 0 i.clearedBytes) = i.oldCharged + max 0 i.clearedBytes :=
        int64_of_fits ⟨by have := hcharged.1; omega, hw.reset hr⟩
      rw [hsum] at hsolvent hexpiry ⊢
      refine ⟨hsolvent, fun _ => le_max_left _ _, fun hd => ?_, fun _ => rfl, fun hnn => ?_, ?_, hexpiry⟩
      · exact absurd (hr.symm.trans hd.1) (by simp)
      · rw [withExpiry_newCharged]
        omega
      · rw [withExpiry_deltaSpent]
        omega
  | create hr hc h0 hz =>
      refine ⟨hsolvent, fun _ => h0, fun hd => ?_, fun hop => ?_, fun _ => h0, ?_, hexpiry⟩
      · exact absurd (hc.symm.trans hd.2.1) (by simp)
      · rcases hop with hop | hop
        · exact absurd (hr.symm.trans hop) (by simp)
        · exact absurd (hc.symm.trans hop) (by simp)
      · rw [withExpiry_deltaSpent]
        omega
  | topUp hr hc h0 hlt =>
      obtain ⟨hquota, hcharge⟩ := hw.topUp ⟨hr, hc, hlt⟩
      have hdelta : int64 (i.newTotal - i.oldTotal) = i.newTotal - i.oldTotal := int64_of_fits ⟨by omega, hquota⟩
      have hsum : int64 (i.oldCharged + (i.newTotal - i.oldTotal)) = i.oldCharged + (i.newTotal - i.oldTotal) :=
        int64_of_fits ⟨by have := hcharged.1; omega, hcharge⟩
      rw [hdelta, hsum] at hsolvent hexpiry ⊢
      refine ⟨hsolvent, fun _ => ?_, fun hd => ?_, fun _ => rfl, fun hnn => ?_, ?_, hexpiry⟩
      · rw [withExpiry_deltaSpent]
        omega
      · exact absurd hlt (not_lt.2 hd.2.2.le)
      · rw [withExpiry_newCharged]
        omega
      · rw [withExpiry_deltaSpent]
        omega
  | deduct hr hc h0 hz hlt =>
      obtain ⟨hle, hge⟩ := deducted_charge (i := i) h0
      rw [deduct_delta h0 hfits] at hsolvent hexpiry ⊢
      refine ⟨hsolvent, fun hop => ?_, fun _ => ?_, fun _ => ?_, fun hnn => ?_, ?_, hexpiry⟩
      · rcases hop with hop | hop | hop
        · exact absurd (hr.symm.trans hop) (by simp)
        · exact absurd (hc.symm.trans hop) (by simp)
        · exact absurd hlt (not_lt.2 hop.2.2.le)
      · rw [withExpiry_deltaSpent]
        omega
      · rw [withExpiry_deltaSpent, withExpiry_newCharged]
        omega
      · rw [withExpiry_newCharged]
        omega
      · rw [withExpiry_deltaSpent]
        omega
  | unchanged hr hc h0 heq =>
      refine ⟨hsolvent, fun _ => le_refl 0, fun _ => le_refl 0, fun _ => ?_, fun hnn => hnn, ?_, hexpiry⟩
      · exact (add_zero i.oldCharged).symm
      · exact le_max_left 0 _

/-- A sum that wrapped breaks one of them. -/
theorem unwrapped_of_quoteLaws (h : quote i = .ok q) (hfits : i.Fits) (hlaws : QuoteLaws i q) : i.Unwrapped := by
  have hcharged := hfits.oldCharged
  cases quote_cases h with
  | reset hr hfit =>
      refine ⟨fun _ => ?_, fun htop => absurd (hr.symm.trans htop.1) (by simp)⟩
      have hcharge := hlaws.charge (Or.inl hr)
      rw [withExpiry_deltaSpent, withExpiry_newCharged] at hcharge
      exact (int64_eq_iff (by have := hcharged.1; omega)).1 hcharge
  | create hr hc h0 hz =>
      refine ⟨fun hr' => absurd (hr.symm.trans hr') (by simp), fun htop => absurd (hc.symm.trans htop.2.1) (by simp)⟩
  | topUp hr hc h0 hlt =>
      refine ⟨fun hr' => absurd (hr.symm.trans hr') (by simp), fun htop => ?_⟩
      have hcosts := hlaws.costs (Or.inr (Or.inr htop))
      have hcharge := hlaws.charge (Or.inr hc)
      rw [withExpiry_deltaSpent] at hcosts hcharge
      rw [withExpiry_newCharged] at hcharge
      have hquota : i.newTotal - i.oldTotal < 2 ^ 63 := by
        by_contra hwraps
        have hold := hfits.oldTotal.1
        have hnew := hfits.newTotal.2
        have hneg := int64_neg_of_wraps (not_lt.1 hwraps) (by omega)
        omega
      have hdelta : int64 (i.newTotal - i.oldTotal) = i.newTotal - i.oldTotal := int64_of_fits ⟨by omega, hquota⟩
      rw [hdelta] at hcharge
      exact ⟨hquota, (int64_eq_iff (by have := hcharged.1; omega)).1 hcharge⟩
  | deduct hr hc h0 hz hlt =>
      exact ⟨fun hr' => absurd (hr.symm.trans hr') (by simp), fun htop => absurd hlt (not_lt.2 htop.2.2.le)⟩
  | unchanged hr hc h0 heq =>
      refine ⟨fun hr' => absurd (hr.symm.trans hr') (by simp), fun htop => ?_⟩
      exact absurd htop.2.2 (by rw [heq]; exact lt_irrefl _)

end

/-- An accepted price keeps the laws exactly when no sum in it wraps. -/
theorem quoteLaws_iff (i : QuoteInput) (q : ChargeQuote) (hfits : i.Fits) (h : quote i = .ok q) :
    QuoteLaws i q ↔ i.Unwrapped :=
  ⟨unwrapped_of_quoteLaws h hfits, quoteLaws_of_unwrapped h hfits⟩

/-- Ten bytes more for an account of ten. -/
def plainTopUp : QuoteInput where
  profile := { userId := 1, allowanceBytes := 100 * oneGB }
  oldTotal := 10
  newTotal := 20
  oldCharged := 10

theorem plainTopUp_fits : plainTopUp.Fits := by
  refine ⟨?_, ?_, ?_, ?_, ?_, ?_, ?_, ?_, ?_, ?_, ?_, ?_⟩ <;> decide

theorem plainTopUp_keeps_laws : quote plainTopUp = .ok ⟨10, 20, false, 0⟩ ∧
    QuoteLaws plainTopUp ⟨10, 20, false, 0⟩ := by
  refine ⟨rfl, (quoteLaws_iff plainTopUp _ plainTopUp_fits rfl).2 ⟨?_, fun _ => ?_⟩⟩
  · exact fun h => absurd h (by decide)
  · constructor <;> decide

/-- The largest quota for an account whose stored quota is negative. -/
def wrappedTopUp : QuoteInput where
  profile := { userId := 1, allowanceBytes := 100 * oneGB }
  oldTotal := -1
  newTotal := maxInt64

theorem wrappedTopUp_fits : wrappedTopUp.Fits := by
  refine ⟨?_, ?_, ?_, ?_, ?_, ?_, ?_, ?_, ?_, ?_, ?_, ?_⟩ <;> decide

/-- The top-up pays the reseller, and the charge is negative. -/
theorem topUp_refunds :
    wrappedTopUp.Fits ∧ quote wrappedTopUp = .ok ⟨-2 ^ 63, -2 ^ 63, false, 0⟩ ∧
      ¬QuoteLaws wrappedTopUp ⟨-2 ^ 63, -2 ^ 63, false, 0⟩ := by
  refine ⟨wrappedTopUp_fits, rfl, fun hlaws => ?_⟩
  exact absurd (hlaws.charge_nonneg (le_refl 0)) (by decide)

end Simorgh.Panel
