import Mathlib.Algebra.Order.BigOperators.Group.List
import Simorgh.Panel.Bulk
import Simorgh.Panel.Ledger

/-!
# Pricing a batch

What `PrepareBulk` decides before it reserves: which operations a reseller may
run, which targets are theirs, which of those the applier will really change,
and what the batch costs.

* `priceBulk_ok` — the ticket's balance move is the sum of its charges', one for
  each account it changes.
* `oncePerAccount_priceEntries` — no account is priced twice.
-/

namespace Simorgh.Panel

open Simorgh.Lib Simorgh.Lib.Json

/-- The operations a reseller must not run at all. -/
def bulkOpAllowed (p : ResellerProfile) (req : BulkClientUpdateRequest) : Except LedgerError Unit :=
  match req.op with
  | .subDays => .error .bulkNoSubDays
  | .addDays => if 0 < p.daysPerGB then .error .bulkDaysAreDerived else .ok ()
  | .addTraffic | .subTraffic => if req.amountBytes ≤ 0 then .error .bulkAmount else .ok ()
  | _ => .ok ()

/-- One target the applier will change, with what its price is computed from. -/
structure BulkPriceable where
  email : String
  oldTotal : Int
  newTotal : Int
  charged : Int
  consumed : Int
  expiry : Int
  deriving DecidableEq, Repr

/-- What one account of a batch is priced from. -/
def BulkPriceable.quoteInput (p : ResellerProfile) (now : Int) (it : BulkPriceable) : QuoteInput :=
  { profile := p, oldTotal := it.oldTotal, newTotal := it.newTotal, oldCharged := it.charged,
    consumed := it.consumed, currentExpiry := it.expiry, nowMillis := now }

/-- The amount times the number of accounts, refused when it would wrap. -/
def bulkTotalCost (amount n : Int) : Except LedgerError Int :=
  if amount ≤ 0 ∨ n ≤ 0 then .ok 0
  else if maxInt64 / n < amount then .error .invalidQuota
  else .ok (amount * n)

/-- The ticket with one more account priced into it. -/
def priceItem (p : ResellerProfile) (now : Int) (ticket : BulkTicket) (it : BulkPriceable) :
    Except LedgerError BulkTicket :=
  match quote (it.quoteInput p now) with
  | .error e => .error e
  | .ok q =>
      if q.deltaSpent = 0 ∧ q.newCharged = it.charged then .ok ticket
      else .ok { ticket with
        deltaSpent := int64 (ticket.deltaSpent + q.deltaSpent)
        charges := ticket.charges ++ [
          { email := it.email, newCharged := q.newCharged, prevCharged := it.charged,
            forceExpiry := q.forceExpiry, expiryTime := q.expiryTime }] }

/-- Turn the affected accounts into one reservation. -/
def priceBulk (p : ResellerProfile) (req : BulkClientUpdateRequest) (items : List BulkPriceable)
    (now : Int) : Except LedgerError BulkTicket :=
  if items = [] then .ok {}
  else
    let batch : Except LedgerError Unit :=
      if req.op = .addTraffic then
        match bulkTotalCost req.amountBytes items.length with
        | .error e => .error e
        | .ok want =>
            if !p.unlimited && decide (availableBytes p < want) then
              .error (shortBy want (availableBytes p))
            else .ok ()
      else .ok ()
    match batch with
    | .error e => .error e
    | .ok _ =>
        match items.foldlM (priceItem p now) {} with
        | .error e => .error e
        | .ok ticket => .ok { ticket with active := !ticket.charges.isEmpty }

/-! ## What a priced batch is -/

/-- What one charge of a batch moves. -/
def BulkCharge.delta (c : BulkCharge) : Int := c.newCharged - c.prevCharged

/-- The sums of a batch stay inside int64. -/
structure BulkFits (p : ResellerProfile) (items : List BulkPriceable) (now : Int) : Prop where
  quotes : ∀ it ∈ items, QuoteFits (it.quoteInput p now)
  sum : (items.map fun it => it.charged + max 0 it.newTotal).sum < 2 ^ 63

instance (p : ResellerProfile) (items : List BulkPriceable) (now : Int) :
    Decidable (BulkFits p items now) :=
  decidable_of_iff
    ((∀ it ∈ items, QuoteFits (it.quoteInput p now)) ∧
      (items.map fun it => it.charged + max 0 it.newTotal).sum < 2 ^ 63)
    ⟨fun ⟨h₁, h₂⟩ => ⟨h₁, h₂⟩, fun ⟨h₁, h₂⟩ => ⟨h₁, h₂⟩⟩

/-- The books of a ticket: its balance move is the sum of its charges' moves. -/
def BulkTicket.Balanced (t : BulkTicket) : Prop := t.deltaSpent = (t.charges.map BulkCharge.delta).sum

/-- Pricing one more account keeps the ticket balanced and adds at most one
charge, of that account. -/
theorem priceItem_ok {p : ResellerProfile} {now : Int} {t t' : BulkTicket} {it : BulkPriceable}
    (h : priceItem p now t it = .ok t') (hfit : QuoteFits (it.quoteInput p now))
    (hroom : |t.deltaSpent| + (it.charged + max 0 it.newTotal) < 2 ^ 63) (hbal : t.Balanced) :
    t'.Balanced ∧ |t'.deltaSpent| ≤ |t.deltaSpent| + (it.charged + max 0 it.newTotal) ∧
      (t'.charges = t.charges ∨
        ∃ c : BulkCharge, c.email = it.email ∧ c.prevCharged = it.charged ∧
          t'.charges = t.charges ++ [c]) := by
  unfold priceItem at h
  split at h
  · cases h
  · rename_i q hq
    have hdelta := quote_delta hq rfl hfit
    obtain ⟨hlo, hhi, hnew, -⟩ := quote_bound hq rfl rfl hfit
    have hch : 0 ≤ it.charged := hfit.oldCharged.1
    simp only [BulkPriceable.quoteInput] at hdelta hlo hhi hnew
    split at h
    · cases h
      exact ⟨hbal, by omega, Or.inl rfl⟩
    · cases h
      have hsum : int64 (t.deltaSpent + q.deltaSpent) = t.deltaSpent + q.deltaSpent :=
        int64_of_fits ⟨by rcases abs_cases t.deltaSpent with h | h <;> omega,
          by rcases abs_cases t.deltaSpent with h | h <;> omega⟩
      refine ⟨?_, ?_, Or.inr ⟨_, rfl, rfl, rfl⟩⟩
      · simp only [BulkTicket.Balanced, List.map_append, List.sum_append, List.map_cons,
          List.map_nil, List.sum_cons, List.sum_nil, BulkCharge.delta, hsum] at hbal ⊢
        omega
      · simp only [hsum]
        rcases abs_cases t.deltaSpent with h | h <;>
          rcases abs_cases (t.deltaSpent + q.deltaSpent) with h' | h' <;> omega

/-- Pricing a whole list keeps the ticket balanced; its charges are those of a
sublist of the accounts. -/
theorem foldlM_priceItem {p : ResellerProfile} {now : Int} {items : List BulkPriceable}
    {t t' : BulkTicket} (h : items.foldlM (priceItem p now) t = .ok t')
    (hfit : ∀ it ∈ items, QuoteFits (it.quoteInput p now))
    (hroom : |t.deltaSpent| + (items.map fun it => it.charged + max 0 it.newTotal).sum < 2 ^ 63)
    (hbal : t.Balanced) :
    t'.Balanced ∧ |t'.deltaSpent| < 2 ^ 63 ∧
      ∃ cs, t'.charges = t.charges ++ cs ∧
        (cs.map fun c => (c.email, c.prevCharged)).Sublist
          (items.map fun it => (it.email, it.charged)) := by
  induction items generalizing t with
  | nil =>
      cases h
      exact ⟨hbal, by simpa using hroom, [], by simp, by simp⟩
  | cons it items ih =>
      rw [List.foldlM_cons] at h
      cases ht : priceItem p now t it with
      | error e =>
          rw [ht] at h
          cases h
      | ok t₁ =>
          rw [ht] at h
          simp only [List.map_cons, List.sum_cons] at hroom
          have hnonneg : 0 ≤ (items.map fun it => it.charged + max 0 it.newTotal).sum := by
            refine List.sum_nonneg fun x hx => ?_
            obtain ⟨j, hj, rfl⟩ := List.mem_map.1 hx
            have : 0 ≤ j.charged := (hfit j (List.mem_cons_of_mem _ hj)).oldCharged.1
            omega
          obtain ⟨hbal₁, habs, hcs⟩ := priceItem_ok ht (hfit it List.mem_cons_self) (by omega) hbal
          obtain ⟨hbal', habs', cs, hcs', hsub⟩ :=
            ih h (fun j hj => hfit j (List.mem_cons_of_mem _ hj)) (by omega) hbal₁
          refine ⟨hbal', habs', ?_⟩
          rcases hcs with hcs | ⟨c, hce, hcp, hcs⟩
          · exact ⟨cs, by rw [hcs', hcs], hsub.cons _⟩
          · refine ⟨c :: cs, by rw [hcs', hcs]; simp, ?_⟩
            simp only [List.map_cons, hce, hcp]
            exact hsub.cons_cons _

/-- A batch that changes no charge moves no balance. -/
theorem priceBulk_inactive {p : ResellerProfile} {req : BulkClientUpdateRequest}
    {items : List BulkPriceable} {now : Int} {t : BulkTicket}
    (h : priceBulk p req items now = .ok t) (hinactive : t.active = false) : t.deltaSpent = 0 := by
  have hfold : ∀ (items : List BulkPriceable) (t t' : BulkTicket),
      items.foldlM (priceItem p now) t = .ok t' → (t.charges = [] → t.deltaSpent = 0) →
      t'.charges = [] → t'.deltaSpent = 0 := by
    intro items
    induction items with
    | nil =>
        intro t t' h ht
        cases h
        exact ht
    | cons it items ih =>
        intro t t' h ht
        rw [List.foldlM_cons] at h
        cases hp : priceItem p now t it with
        | error e =>
            rw [hp] at h
            cases h
        | ok t₁ =>
            rw [hp] at h
            refine ih t₁ t' h ?_
            unfold priceItem at hp
            split at hp
            · cases hp
            · split at hp
              · cases hp
                exact ht
              · cases hp
                intro hnil
                simp at hnil
  unfold priceBulk at h
  split at h
  · cases h
    rfl
  · simp only at h
    split at h
    · cases h
    · split at h
      · cases h
      · rename_i t₁ ht₁
        cases h
        exact hfold items {} t₁ ht₁ (fun _ => rfl) (by simpa using hinactive)

/-- A priced batch is balanced and its charges are those of distinct accounts,
each under the charge it was read with. -/
theorem priceBulk_ok {p : ResellerProfile} {req : BulkClientUpdateRequest}
    {items : List BulkPriceable} {now : Int} {t : BulkTicket}
    (h : priceBulk p req items now = .ok t) (hfit : BulkFits p items now) :
    t.Balanced ∧ |t.deltaSpent| < 2 ^ 63 ∧
      (t.charges.map fun c => (c.email, c.prevCharged)).Sublist
        (items.map fun it => (it.email, it.charged)) := by
  unfold priceBulk at h
  split at h
  · cases h
    exact ⟨rfl, by norm_num, by simp⟩
  · simp only at h
    split at h
    · cases h
    · split at h
      · cases h
      · rename_i t₁ ht₁
        cases h
        obtain ⟨hbal, habs, cs, hcs, hsub⟩ :=
          foldlM_priceItem ht₁ hfit.quotes (by simpa using hfit.sum) rfl
        refine ⟨hbal, habs, ?_⟩
        rw [hcs]
        exact hsub

/-- The charge a batch gives an account, `held` if it does not change it. -/
def chargeIn (charges : List BulkCharge) (email : String) (held : Int) : Int :=
  ((charges.find? fun c => decide (c.email = email)).map (·.newCharged)).getD held

/-- Every account of a priced list has a quote, and its charge is the quoted one. -/
theorem foldlM_priceItem_quote {p : ResellerProfile} {now : Int} {items : List BulkPriceable}
    {t t' : BulkTicket} (h : items.foldlM (priceItem p now) t = .ok t')
    (hnodup : (items.map BulkPriceable.email).Nodup) :
    ∃ cs, t'.charges = t.charges ++ cs ∧ (∀ c ∈ cs, c.email ∈ items.map BulkPriceable.email) ∧
      ∀ it ∈ items, ∃ q, quote (it.quoteInput p now) = .ok q ∧
        chargeIn cs it.email it.charged = q.newCharged := by
  induction items generalizing t with
  | nil =>
      cases h
      exact ⟨[], by simp, by simp, by simp⟩
  | cons it items ih =>
      rw [List.foldlM_cons] at h
      rw [List.map_cons, List.nodup_cons] at hnodup
      cases ht : priceItem p now t it with
      | error e =>
          rw [ht] at h
          cases h
      | ok t₁ =>
          rw [ht] at h
          obtain ⟨cs, hcs, hmem, hquote⟩ := ih h hnodup.2
          have hfresh : cs.find? (fun c => decide (c.email = it.email)) = none := by
            rw [List.find?_eq_none]
            intro c hc heq
            exact hnodup.1 (of_decide_eq_true heq ▸ hmem c hc)
          unfold priceItem at ht
          split at ht
          · cases ht
          · rename_i q hq
            split at ht
            · rename_i hsame
              cases ht
              refine ⟨cs, hcs, fun c hc => List.mem_cons_of_mem _ (hmem c hc), ?_⟩
              rintro j (_ | ⟨_, hj⟩)
              · exact ⟨q, hq, by simp [chargeIn, hfresh, hsame.2]⟩
              · exact hquote j hj
            · cases ht
              refine ⟨_ :: cs, by rw [hcs]; simp only [List.append_assoc]; rfl, ?_, ?_⟩
              · rintro c (_ | ⟨_, hc⟩)
                · exact List.mem_cons_self
                · exact List.mem_cons_of_mem _ (hmem c hc)
              · rintro j (_ | ⟨_, hj⟩)
                · exact ⟨q, hq, by simp [chargeIn]⟩
                · obtain ⟨q', hq', hch⟩ := hquote j hj
                  refine ⟨q', hq', ?_⟩
                  have hne : it.email ≠ j.email := by
                    intro heq
                    exact hnodup.1 (heq ▸ List.mem_map_of_mem hj)
                  rw [← hch]
                  simp [chargeIn, hne]

theorem priceBulk_quote {p : ResellerProfile} {req : BulkClientUpdateRequest}
    {items : List BulkPriceable} {now : Int} {t : BulkTicket}
    (h : priceBulk p req items now = .ok t) (hnodup : (items.map BulkPriceable.email).Nodup) :
    t.active = !t.charges.isEmpty ∧
      (∀ c ∈ t.charges, c.email ∈ items.map BulkPriceable.email) ∧
      ∀ it ∈ items, ∃ q, quote (it.quoteInput p now) = .ok q ∧
        chargeIn t.charges it.email it.charged = q.newCharged := by
  unfold priceBulk at h
  split at h
  · rename_i hnil
    cases h
    exact ⟨rfl, by simp, by simp [hnil]⟩
  · simp only at h
    split at h
    · cases h
    · split at h
      · cases h
      · rename_i t₁ ht₁
        cases h
        obtain ⟨cs, hcs, hmem, hquote⟩ := foldlM_priceItem_quote ht₁ hnodup
        simp only [List.nil_append] at hcs
        exact ⟨rfl, hcs ▸ hmem, hcs ▸ hquote⟩

section

variable [Runtime]

/-- The accounts a reseller owns, lower-cased but not trimmed. -/
def ownedEmails (clients : Table ResellerClient.email) (userId : Nat) : OwnedEmails :=
  (clients.rows.filter fun rc => decide (rc.userId = userId)).map fun rc => toLower rc.email

/-- Drop every target this reseller does not own. -/
def scopeBulkTargets (owned : OwnedEmails) (req : BulkClientUpdateRequest) :
    BulkClientUpdateRequest :=
  { req with targets := req.targets.filter fun t => resellerOwnsEmail owned t.email }

/-- Drop the targets that have moved everything their quota allows. -/
def dropDepletedTargets (traffics : Table ClientTraffic.email) (req : BulkClientUpdateRequest) :
    BulkClientUpdateRequest :=
  let spent := traffics.rows.filter fun ct =>
    decide (ct.email ∈ req.targets.map (·.email)) && decide (0 < ct.total) &&
      decide (ct.total ≤ ct.up + ct.down)
  let drop := spent.map fun ct => emailKey ct.email
  { req with targets := req.targets.filter fun t => decide (emailKey t.email ∉ drop) }

/-- A map filled row by row under the account's identity: the last row stays. -/
def lastUnder {ρ : Type} (email : ρ → String) (rows : List ρ) (key : String) : Option ρ :=
  rows.reverse.find? fun row => decide (emailKey (email row) = key)

/-- The item one settings entry makes, if the applier will change it and the
account has not been priced already. -/
def priceEntry (ledger : List ResellerClient) (usage : List ClientTraffic)
    (req : BulkClientUpdateRequest) (now : Int) (emails : List String) (seen : List String)
    (d : Doc) : Option BulkPriceable :=
  let cm := Doc.toMap d
  let email := d.str "email"
  if email = "" ∨ email ∉ emails then none
  else match lastUnder ResellerClient.email ledger (emailKey email) with
    | none => none
    | some rc =>
        if emailKey email ∈ seen ∨ bulkClientSkipped cm req = true then none
        else match applyBulkClientOp cm req now with
          | none => none
          | some next =>
              let ct := lastUnder ClientTraffic.email usage (emailKey email)
              some {
                email := rc.email
                oldTotal := cm.int64 "totalGB"
                newTotal := next.int64 "totalGB"
                charged := rc.chargedBytes
                consumed := max 0 (int64 ((ct.map (·.allTime)).getD 0 - rc.allTimeBase))
                expiry := (ct.map (·.expiryTime)).getD 0 }

/-- The items of one inbound's entries, and the accounts priced so far. -/
def priceEntries (ledger : List ResellerClient) (usage : List ClientTraffic)
    (req : BulkClientUpdateRequest) (now : Int) (emails : List String) :
    List String → List Doc → List BulkPriceable × List String
  | seen, [] => ([], seen)
  | seen, d :: ds =>
      match priceEntry ledger usage req now emails seen d with
      | none => priceEntries ledger usage req now emails seen ds
      | some it =>
          let rest := priceEntries ledger usage req now emails (emailKey (d.str "email") :: seen) ds
          (it :: rest.1, rest.2)

/-! ## One item per account -/

theorem lastUnder_key {ρ : Type} {email : ρ → String} {rows : List ρ} {key : String} {row : ρ}
    (h : lastUnder email rows key = some row) : row ∈ rows ∧ emailKey (email row) = key := by
  have hmem := List.mem_of_find?_eq_some h
  have hkey := List.find?_some h
  exact ⟨by simpa using hmem, by simpa using hkey⟩

/-- An item is priced under the identity of its entry, from a row of the ledger. -/
theorem priceEntry_some {ledger : List ResellerClient} {usage : List ClientTraffic}
    {req : BulkClientUpdateRequest} {now : Int} {emails seen : List String} {d : Doc}
    {it : BulkPriceable} (h : priceEntry ledger usage req now emails seen d = some it) :
    emailKey it.email = emailKey (d.str "email") ∧ emailKey (d.str "email") ∉ seen := by
  unfold priceEntry at h
  simp only at h
  split at h
  · cases h
  · split at h
    · cases h
    · rename_i rc hrc
      split at h
      · cases h
      · rename_i hseen
        split at h
        · cases h
        · cases h
          rw [not_or] at hseen
          exact ⟨(lastUnder_key hrc).2, hseen.1⟩

/-- The items priced so far have distinct identities, and all of them are seen. -/
def OncePerAccount (items : List BulkPriceable) (seen : List String) : Prop :=
  (items.map fun it => emailKey it.email).Nodup ∧ ∀ it ∈ items, emailKey it.email ∈ seen

theorem oncePerAccount_priceEntries {ledger : List ResellerClient} {usage : List ClientTraffic}
    {req : BulkClientUpdateRequest} {now : Int} {emails : List String} (ds : List Doc)
    {items : List BulkPriceable} {seen : List String} (h : OncePerAccount items seen) :
    OncePerAccount (items ++ (priceEntries ledger usage req now emails seen ds).1)
      (priceEntries ledger usage req now emails seen ds).2 := by
  induction ds generalizing items seen with
  | nil => simpa [priceEntries] using h
  | cons d ds ih =>
      simp only [priceEntries]
      split
      · exact ih h
      · rename_i it hit
        obtain ⟨hkey, hnew⟩ := priceEntry_some hit
        have hstep : OncePerAccount (items ++ [it]) (emailKey (d.str "email") :: seen) := by
          refine ⟨?_, ?_⟩
          · rw [List.map_append, List.nodup_append']
            refine ⟨h.1, by simp, ?_⟩
            intro k hk hk'
            obtain ⟨j, hj, rfl⟩ := List.mem_map.1 hk
            simp only [List.map_cons, List.map_nil, List.mem_singleton, hkey] at hk'
            exact hnew (hk' ▸ h.2 j hj)
          · intro j hj
            rw [List.mem_append, List.mem_singleton] at hj
            rcases hj with hj | rfl
            · exact List.mem_cons_of_mem _ (h.2 j hj)
            · rw [hkey]
              exact List.mem_cons_self
        simpa using ih hstep

theorem OncePerAccount.nodup_emails {items : List BulkPriceable} {seen : List String}
    (h : OncePerAccount items seen) : (items.map (·.email)).Nodup := by
  have hkeys : ((items.map (·.email)).map emailKey).Nodup := by
    rw [List.map_map]
    exact h.1
  exact List.Nodup.of_map _ hkeys

end

end Simorgh.Panel
