import Simorgh.Panel.Entitlements

/-!
# A batch is priced for what it changes

`PrepareBulk` goes over the settings documents once to price a batch and
`BulkUpdateClients` a second time to apply it.  The two are compared account by
account.

* `mem_bulkItems` — an account is priced exactly when it is in the ledger and the
  applier edits an entry of it.
* `priceBulk_charges` — the ticket charges every account its quote, and moves the
  balance by the sum of the quotes.
* `batch_priced_as_applied` — the two together, for a batch that is accepted.
-/

namespace Simorgh.Panel

open Simorgh.Lib Simorgh.Lib.Json

/-! ## What the ticket holds -/

/-- What the quote of an account moves the balance by. -/
def BulkPriceable.quotedDelta (p : ResellerProfile) (now : Int) (it : BulkPriceable) : Int :=
  match quote (it.quoteInput p now) with
  | .error _ => 0
  | .ok q => q.deltaSpent

/-- The charge an account's quote makes, none when it moves nothing. -/
def BulkPriceable.charge? (p : ResellerProfile) (now : Int) (it : BulkPriceable) : Option BulkCharge :=
  match quote (it.quoteInput p now) with
  | .error _ => none
  | .ok q =>
      if q.deltaSpent = 0 ∧ q.newCharged = it.charged then none
      else some {
        email := it.email, newCharged := q.newCharged, prevCharged := it.charged
        forceExpiry := q.forceExpiry, expiryTime := q.expiryTime }

theorem foldlM_priceItem_charges {p : ResellerProfile} {now : Int} {items : List BulkPriceable}
    {t t' : BulkTicket} {sum : Int} (h : items.foldlM (priceItem p now) t = .ok t')
    (hsum : t.deltaSpent = int64 sum) :
    t'.charges = t.charges ++ items.filterMap (·.charge? p now) ∧
      t'.deltaSpent = int64 (sum + (items.map (·.quotedDelta p now)).sum) := by
  induction items generalizing t sum with
  | nil =>
      cases h
      simp [hsum]
  | cons it items ih =>
      rw [List.foldlM_cons] at h
      cases ht : priceItem p now t it with
      | error e =>
          rw [ht] at h
          cases h
      | ok t₁ =>
          rw [ht] at h
          rw [List.filterMap_cons, List.map_cons, List.sum_cons, ← Int.add_assoc]
          unfold priceItem at ht
          cases hq : quote (it.quoteInput p now) with
          | error e =>
              rw [hq] at ht
              cases ht
          | ok q =>
              have hdelta : it.quotedDelta p now = q.deltaSpent := by
                rw [BulkPriceable.quotedDelta, hq]
              rw [hq] at ht
              simp only at ht
              rw [hdelta, BulkPriceable.charge?, hq]
              simp only
              split at ht
              · rename_i hnone
                cases ht
                rw [if_pos hnone, hnone.1, Int.add_zero]
                exact ih h hsum
              · rename_i hsome
                cases ht
                have hstep : int64 (t.deltaSpent + q.deltaSpent) = int64 (sum + q.deltaSpent) := by
                  rw [hsum, int64_add_left]
                obtain ⟨hcharges, hspent⟩ := ih h hstep
                rw [if_neg hsome]
                refine ⟨?_, hspent⟩
                rw [hcharges, List.append_assoc]
                rfl

/-- The ticket charges each account of the batch its quote. -/
theorem priceBulk_charges {p : ResellerProfile} {req : BulkClientUpdateRequest}
    {items : List BulkPriceable} {now : Int} {t : BulkTicket}
    (h : priceBulk p req items now = .ok t) :
    t.charges = items.filterMap (·.charge? p now) ∧
      t.deltaSpent = int64 (items.map (·.quotedDelta p now)).sum := by
  unfold priceBulk at h
  split at h
  · rename_i hnil
    cases h
    rw [hnil]
    exact ⟨rfl, rfl⟩
  · simp only at h
    split at h
    · cases h
    · split at h
      · cases h
      · rename_i t₁ ht₁
        cases h
        have hzero : ({} : BulkTicket).deltaSpent = int64 0 := rfl
        have hfold := foldlM_priceItem_charges ht₁ hzero
        rw [Int.zero_add] at hfold
        exact hfold

/-! ## What is priced -/

section

variable [Runtime] {ledger : List ResellerClient} {req : BulkClientUpdateRequest} {now : Int}
  {r : Roster}

/-- The item is priced from this entry, which the applier edits: under its account in the
ledger, with the quota before and after. -/
structure PricedFrom (ledger : List ResellerClient) (req : BulkClientUpdateRequest) (now : Int)
    (emails : List String) (d : Doc) (it : BulkPriceable) : Prop where
  row : ∃ rc ∈ ledger, rc.email = it.email ∧ rc.chargedBytes = it.charged ∧
    emailKey rc.email = emailKey (d.str "email")
  oldTotal : (Doc.toMap d).int64 "totalGB" = it.oldTotal
  edit : (bulkEdit req now emails d).map (·.int64 "totalGB") = some it.newTotal

theorem PricedFrom.key {emails : List String} {d : Doc} {it : BulkPriceable}
    (h : PricedFrom ledger req now emails d it) : emailKey it.email = emailKey (d.str "email") := by
  obtain ⟨rc, -, hemail, -, hkey⟩ := h.row
  rw [← hemail, hkey]

/-- An entry is priced when the applier edits it, the ledger has its account, and the
account has not been priced yet. -/
theorem priceEntry_cases (ledger : List ResellerClient) (usage : List ClientTraffic)
    (req : BulkClientUpdateRequest) (now : Int) (emails seen : List String) (d : Doc) :
    (∃ it, priceEntry ledger usage req now emails seen d = some it ∧
        PricedFrom ledger req now emails d it ∧ emailKey (d.str "email") ∉ seen) ∨
      (priceEntry ledger usage req now emails seen d = none ∧
        (bulkEdit req now emails d = none ∨
          lastUnder ResellerClient.email ledger (emailKey (d.str "email")) = none ∨
          emailKey (d.str "email") ∈ seen)) := by
  unfold priceEntry bulkEdit
  simp only
  by_cases htarget : d.str "email" = "" ∨ d.str "email" ∉ emails
  · rw [if_pos htarget]
    refine Or.inr ⟨rfl, Or.inl ?_⟩
    rw [if_pos]
    rcases htarget with hempty | hother
    · exact Or.inl hempty
    · exact Or.inr (Or.inl hother)
  rw [if_neg htarget]
  cases hrow : lastUnder ResellerClient.email ledger (emailKey (d.str "email")) with
  | none => exact Or.inr ⟨rfl, Or.inr (Or.inl rfl)⟩
  | some rc =>
      simp only
      by_cases hseen : emailKey (d.str "email") ∈ seen
      · rw [if_pos (Or.inl hseen)]
        exact Or.inr ⟨rfl, Or.inr (Or.inr hseen)⟩
      by_cases hskip : bulkClientSkipped (Doc.toMap d) req = true
      · rw [if_pos (Or.inr hskip), if_pos (Or.inr (Or.inr hskip))]
        exact Or.inr ⟨rfl, Or.inl rfl⟩
      have hedit : ¬(d.str "email" = "" ∨ d.str "email" ∉ emails ∨
          bulkClientSkipped (Doc.toMap d) req = true) := by
        rw [not_or] at htarget
        rintro (h | h | h)
        · exact htarget.1 h
        · exact htarget.2 h
        · exact hskip h
      rw [if_neg (not_or.2 ⟨hseen, hskip⟩), if_neg hedit]
      cases hcm : applyBulkClientOp (Doc.toMap d) req now with
      | none => exact Or.inr ⟨rfl, Or.inl rfl⟩
      | some cm =>
          refine Or.inl ⟨_, rfl, ?_, hseen⟩
          obtain ⟨hmem, hkey⟩ := lastUnder_key hrow
          refine ⟨⟨rc, hmem, rfl, rfl, hkey⟩, rfl, ?_⟩
          rw [bulkEdit]
          simp only
          rw [if_neg hedit, hcm]
          rfl

/-- The items of one inbound: each comes from an entry the applier edits, the accounts
seen are those priced, and every edited account of the ledger has been seen. -/
theorem priceEntries_spec (ledger : List ResellerClient) (usage : List ClientTraffic)
    (req : BulkClientUpdateRequest) (now : Int) (emails : List String) (ds : List Doc)
    (seen : List String) :
    (∀ it ∈ (priceEntries ledger usage req now emails seen ds).1,
        ∃ d ∈ ds, PricedFrom ledger req now emails d it) ∧
      (∀ key, key ∈ (priceEntries ledger usage req now emails seen ds).2 ↔ key ∈ seen ∨
        ∃ it ∈ (priceEntries ledger usage req now emails seen ds).1, emailKey it.email = key) ∧
      ∀ d ∈ ds, (bulkEdit req now emails d).isSome →
        (lastUnder ResellerClient.email ledger (emailKey (d.str "email"))).isSome →
        emailKey (d.str "email") ∈ (priceEntries ledger usage req now emails seen ds).2 := by
  induction ds generalizing seen with
  | nil => exact ⟨by simp [priceEntries], by simp [priceEntries], by simp⟩
  | cons d ds ih =>
      unfold priceEntries
      obtain ⟨it, hit, hfrom, -⟩ | ⟨hit, hwhy⟩ := priceEntry_cases ledger usage req now emails seen d
      · obtain ⟨hitems, hkeys, hall⟩ := ih (emailKey (d.str "email") :: seen)
        rw [hit]
        simp only
        refine ⟨?_, ?_, ?_⟩
        · rintro it' (_ | ⟨_, hit'⟩)
          · exact ⟨d, List.mem_cons_self, hfrom⟩
          · obtain ⟨d', hd', hfrom'⟩ := hitems it' hit'
            exact ⟨d', List.mem_cons_of_mem _ hd', hfrom'⟩
        · intro key
          rw [hkeys key]
          simp only [List.mem_cons, exists_eq_or_imp, hfrom.key, eq_comm (a := key), or_assoc]
          exact or_left_comm
        · rintro d' (_ | ⟨_, hd'⟩) hedit hrow
          · exact (hkeys _).2 (Or.inl List.mem_cons_self)
          · exact hall d' hd' hedit hrow
      · obtain ⟨hitems, hkeys, hall⟩ := ih seen
        rw [hit]
        simp only
        refine ⟨?_, hkeys, ?_⟩
        · intro it' hit'
          obtain ⟨d', hd', hfrom'⟩ := hitems it' hit'
          exact ⟨d', List.mem_cons_of_mem _ hd', hfrom'⟩
        · rintro d' (_ | ⟨_, hd'⟩) hedit hrow
          · rcases hwhy with hnone | hnone | hseen
            · rw [hnone] at hedit
              cases hedit
            · rw [hnone] at hrow
              cases hrow
            · exact (hkeys _).2 (Or.inl hseen)
          · exact hall d' hd' hedit hrow

/-- The item is priced from an entry of one of these inbounds. -/
def PricedOn (ledger : List ResellerClient) (req : BulkClientUpdateRequest) (now : Int) (r : Roster)
    (ids : List Nat) (it : BulkPriceable) : Prop :=
  ∃ id ∈ ids, ∃ i ∈ r.inbounds.find? id, ∃ d ∈ i.settings.clients,
    PricedFrom ledger req now (req.emailsOn id) d it

/-- The items of a batch, inbound by inbound.  `seen` are the accounts priced so far. -/
theorem bulkItems_spec (r : Roster) (ledger : List ResellerClient) (req : BulkClientUpdateRequest)
    (now : Int) (ids : List Nat) (items : List BulkPriceable) (seen : List String)
    (hseen : ∀ key, key ∈ seen ↔ ∃ it ∈ items, emailKey it.email = key) :
    (∀ it ∈ bulkItems r ledger req now ids items seen, it ∈ items ∨ PricedOn ledger req now r ids it) ∧
      (∀ it ∈ items, it ∈ bulkItems r ledger req now ids items seen) ∧
      ∀ id ∈ ids, ∀ i ∈ r.inbounds.find? id, ∀ d ∈ i.settings.clients,
        (bulkEdit req now (req.emailsOn id) d).isSome →
        (lastUnder ResellerClient.email ledger (emailKey (d.str "email"))).isSome →
        ∃ it ∈ bulkItems r ledger req now ids items seen, emailKey it.email = emailKey (d.str "email") := by
  induction ids generalizing items seen with
  | nil => exact ⟨fun it hit => Or.inl hit, fun it hit => hit, by simp⟩
  | cons id ids ih =>
      unfold bulkItems
      cases hi : r.inbounds.find? id with
      | none =>
          obtain ⟨hitems, hkept, hall⟩ := ih items seen hseen
          simp only
          refine ⟨fun it hit => ?_, hkept, ?_⟩
          · refine (hitems it hit).imp_right ?_
            rintro ⟨id', hid', hrest⟩
            exact ⟨id', List.mem_cons_of_mem _ hid', hrest⟩
          · rintro id' (_ | ⟨_, hid'⟩) i' hi'
            · rw [hi] at hi'
              cases hi'
            · exact hall id' hid' i' hi'
      | some i =>
          simp only
          obtain ⟨hpriced, hkeys, hedited⟩ := priceEntries_spec ledger
            (r.traffics.rows.filter fun ct => decide (ct.inboundId = id)) req now (req.emailsOn id)
            i.settings.clients seen
          generalize priceEntries ledger (r.traffics.rows.filter fun ct => decide (ct.inboundId = id)) req
            now (req.emailsOn id) seen i.settings.clients = priced at hpriced hkeys hedited ⊢
          have hseen' : ∀ key, key ∈ priced.2 ↔ ∃ it ∈ items ++ priced.1, emailKey it.email = key := by
            intro key
            simp only [hkeys key, hseen key, List.mem_append, or_and_right, exists_or]
          obtain ⟨hitems, hkept, hall⟩ := ih (items ++ priced.1) priced.2 hseen'
          refine ⟨fun it hit => ?_, fun it hit => hkept it (List.mem_append_left _ hit), ?_⟩
          · rcases hitems it hit with hmem | ⟨id', hid', hrest⟩
            · rcases List.mem_append.1 hmem with hmem | hmem
              · exact Or.inl hmem
              · obtain ⟨d, hd, hfrom⟩ := hpriced it hmem
                exact Or.inr ⟨id, List.mem_cons_self, i, hi, d, hd, hfrom⟩
            · exact Or.inr ⟨id', List.mem_cons_of_mem _ hid', hrest⟩
          · rintro id' (_ | ⟨_, hid'⟩) i' hi' d hd hedit hrow
            · rw [hi] at hi'
              cases hi'
              rcases (hkeys _).1 (hedited d hd hedit hrow) with hmem | ⟨it, hit, hkey⟩
              · obtain ⟨it, hit, hkey⟩ := (hseen _).1 hmem
                exact ⟨it, hkept it (List.mem_append_left _ hit), hkey⟩
              · exact ⟨it, hkept it (List.mem_append_right _ hit), hkey⟩
            · exact hall id' hid' i' hi' d hd hedit hrow

theorem oncePerAccount_bulkItems (ids : List Nat) {items : List BulkPriceable} {seen : List String}
    (h : OncePerAccount items seen) :
    ((bulkItems r ledger req now ids items seen).map fun it => emailKey it.email).Nodup := by
  induction ids generalizing items seen with
  | nil => exact h.1
  | cons id ids ih =>
      unfold bulkItems
      cases r.inbounds.find? id with
      | none => exact ih h
      | some i => exact ih (oncePerAccount_priceEntries _ h)

theorem isSome_lastUnder {key : String} :
    (lastUnder ResellerClient.email ledger key).isSome ↔ ∃ rc ∈ ledger, emailKey rc.email = key := by
  simp [lastUnder, List.find?_isSome]

/-- An account is priced exactly when the ledger has it and the applier edits an entry
of it. -/
theorem mem_bulkItems (order walk : MapOrder) (key : String) :
    (∃ it ∈ bulkItems r ledger req now (order.ids req.inboundIds) [] [], emailKey it.email = key) ↔
      (∃ rc ∈ ledger, emailKey rc.email = key) ∧
        ∃ edit ∈ bulkEdits walk req now r, emailKey edit.1 = key := by
  obtain ⟨hitems, -, hall⟩ := bulkItems_spec r ledger req now (order.ids req.inboundIds) [] []
    (by simp)
  constructor
  · rintro ⟨it, hit, rfl⟩
    rcases hitems it hit with hnil | ⟨id, hid, i, hi, d, hd, hfrom⟩
    · cases hnil
    · obtain ⟨cm, hcm, -⟩ := Option.map_eq_some_iff.1 hfrom.edit
      obtain ⟨rc, hrc, hemail, -, -⟩ := hfrom.row
      refine ⟨⟨rc, hrc, by rw [hemail]⟩, (d.str "email", cm), ?_, hfrom.key.symm⟩
      exact mem_bulkEdits.2 ⟨id, (order.ids_perm _).mem_iff.1 hid, i, hi, d, hd, hcm, rfl⟩
  · rintro ⟨hrow, edit, hedit, rfl⟩
    obtain ⟨id, hid, i, hi, d, hd, hcm, hemail⟩ := mem_bulkEdits.1 hedit
    rw [← hemail] at hrow ⊢
    exact hall id ((order.ids_perm _).mem_iff.2 hid) i hi d hd (by rw [hcm]; rfl)
      (isSome_lastUnder.2 hrow)

/-- The row of an account with one edit takes the quota of that edit. -/
theorem row_of_only_edit {order : MapOrder} {s : Roster} {key : String} {edit : String × Map}
    {ct' : ClientTraffic} (hop : req.op ≠ .delete)
    (happlied : bulkUpdateClients order r req now = (s, .ok ()))
    (honly : (bulkEdits order req now r).filter (fun a => decide (emailKey a.1 = key)) = [edit])
    (hrow : s.traffics.find? edit.1 = some ct') : ct'.total = edit.2.int64 "totalGB" := by
  have hkey : emailKey edit.1 = key := by
    have hmem : edit ∈ (bulkEdits order req now r).filter (fun a => decide (emailKey a.1 = key)) := by
      rw [honly]
      exact List.mem_singleton_self _
    exact of_decide_eq_true (List.mem_filter.1 hmem).2
  -- the edits under this very email are among those of the account
  have hsame : (bulkEdits order req now r).filter (fun a => decide (a.1 = edit.1)) = [edit] := by
    have hsub : ((bulkEdits order req now r).filter (fun a => decide (emailKey a.1 = key))).filter
        (fun a => decide (a.1 = edit.1)) =
          (bulkEdits order req now r).filter (fun a => decide (a.1 = edit.1)) := by
      rw [List.filter_filter]
      refine List.filter_congr fun a _ => ?_
      by_cases ha : a.1 = edit.1
      · simp [ha, hkey]
      · simp [ha]
    rw [← hsub, honly]
    simp
  rw [bulk_rows hop happlied, lastEdit, hsame] at hrow
  obtain ⟨ct, -, rfl⟩ := Option.map_eq_some_iff.1 hrow
  rfl

variable {w : World} {userId : Nat} {order : MapOrder} {sent : BulkClientUpdateRequest} {l : Ledger}
  {t : BulkTicket}

/-- The rows of the ledger a reseller's batch is priced from. -/
def World.rowsOf (w : World) (userId : Nat) : List ResellerClient :=
  w.ledger.clients.rows.filter fun rc => decide (rc.userId = userId)

/-- `bulkPriceables` of a request. -/
def World.priceables (w : World) (userId : Nat) (order : MapOrder) (req : BulkClientUpdateRequest)
    (now : Int) : List BulkPriceable :=
  bulkItems w.roster (w.rowsOf userId) req now (order.ids req.inboundIds) [] []

theorem pricedOn_of_mem {it : BulkPriceable} (h : it ∈ w.priceables userId order req now) :
    PricedOn (w.rowsOf userId) req now w.roster req.inboundIds it := by
  rcases (bulkItems_spec w.roster (w.rowsOf userId) req now (order.ids req.inboundIds) [] []
    (by simp)).1 it h with hnil | ⟨id, hid, hrest⟩
  · cases hnil
  · exact ⟨id, (order.ids_perm _).mem_iff.1 hid, hrest⟩

theorem prepareBulk_priced (hop : req.op = .addTraffic ∨ req.op = .subTraffic)
    (h : w.prepareBulk userId order req now = .ok (l, sent, t)) :
    sent.op ≠ .delete ∧ ∃ p t₀, w.ledger.profiles.find? userId = some p ∧
      priceBulk p sent (w.priceables userId order sent now) now = .ok t₀ ∧
      t = { t₀ with userId := userId } := by
  unfold World.prepareBulk at h
  split at h
  · cases h
  rename_i p hp
  split at h
  · cases h
  have hcosts : ¬((scopeBulkTargets (ownedEmails w.ledger.clients userId) req).op ≠ .addTraffic ∧
      (scopeBulkTargets (ownedEmails w.ledger.clients userId) req).op ≠ .subTraffic) := by
    rintro ⟨hadd, hsub⟩
    rcases hop with hop | hop
    · exact hadd hop
    · exact hsub hop
  simp only at h
  rw [if_neg hcosts] at h
  split at h
  · cases h
  rename_i t₀ ht₀
  split at h
  · cases h
  cases h
  refine ⟨?_, p, t₀, hp, ht₀, rfl⟩
  show req.op ≠ .delete
  rcases hop with hop | hop <;> rw [hop] <;> decide

/-- A batch of traffic that is accepted prices each account once, and exactly the
accounts of the ledger that the applier edits; each from an entry it edits, at the quota
of that entry before and after.  The ticket charges every account its quote and moves
the balance by their sum.  The row of an account edited in one place ends at the quota
that was priced.  The two walks over the inbounds may take them in different orders. -/
theorem batch_priced_as_applied (hop : req.op = .addTraffic ∨ req.op = .subTraffic)
    (walk : MapOrder) (haccepted : w.prepareBulk userId order req now = .ok (l, sent, t)) :
    ∃ p ∈ w.ledger.profiles.find? userId,
      ((w.priceables userId order sent now).map fun it => emailKey it.email).Nodup ∧
      (∀ key, (∃ it ∈ w.priceables userId order sent now, emailKey it.email = key) ↔
        (∃ rc ∈ w.rowsOf userId, emailKey rc.email = key) ∧
          ∃ edit ∈ bulkEdits walk sent now w.roster, emailKey edit.1 = key) ∧
      (∀ it ∈ w.priceables userId order sent now,
        PricedOn (w.rowsOf userId) sent now w.roster sent.inboundIds it) ∧
      t.charges = (w.priceables userId order sent now).filterMap (·.charge? p now) ∧
      t.deltaSpent = int64 ((w.priceables userId order sent now).map (·.quotedDelta p now)).sum ∧
      ∀ s, bulkUpdateClients walk w.roster sent now = (s, .ok ()) →
        ∀ it ∈ w.priceables userId order sent now, ∀ edit,
          (bulkEdits walk sent now w.roster).filter
              (fun a => decide (emailKey a.1 = emailKey it.email)) = [edit] →
          ∀ ct' ∈ s.traffics.find? edit.1, ct'.total = it.newTotal := by
  obtain ⟨hkept, p, t₀, hp, ht₀, rfl⟩ := prepareBulk_priced hop haccepted
  refine ⟨p, hp, oncePerAccount_bulkItems _ ⟨by simp, by simp⟩, mem_bulkItems order walk,
    fun it hit => pricedOn_of_mem hit, (priceBulk_charges ht₀).1, (priceBulk_charges ht₀).2, ?_⟩
  intro s happlied it hit edit honly ct' hct'
  obtain ⟨id, hid, i, hi, d, hd, hfrom⟩ := pricedOn_of_mem hit
  obtain ⟨cm, hcm, hnew⟩ := Option.map_eq_some_iff.1 hfrom.edit
  have hmem : (d.str "email", cm) ∈ (bulkEdits walk sent now w.roster).filter
      (fun a => decide (emailKey a.1 = emailKey it.email)) := by
    refine List.mem_filter.2 ⟨?_, decide_eq_true hfrom.key.symm⟩
    exact mem_bulkEdits.2 ⟨id, hid, i, hi, d, hd, hcm, rfl⟩
  rw [honly, List.mem_singleton] at hmem
  rw [row_of_only_edit hkept happlied honly hct', ← hmem, ← hnew]

end

/-- Kim's entry says 20 bytes, the row enforces 10. -/
def kimDrifted : World where
  roster := {
    inbounds := .single { id := 1, settings := { clients := [stored [("email", .str "kim"),
      ("id", .str "u"), ("totalGB", .num ⟨20, true⟩), ("enable", .bool true)]] } }
    traffics := .single { email := "kim", inboundId := 1, enable := true, total := 10 } }
  ledger := {
    profiles := .single { userId := 1, allowanceBytes := 100, spentBytes := 10 }
    clients := .single { email := "kim", inboundId := 1, userId := 1, chargedBytes := 10 } }

/-- Five bytes more for kim. -/
def fiveForKim : BulkClientUpdateRequest :=
  { op := .addTraffic, amountBytes := 5, targets := [⟨1, "kim"⟩] }

/-- The batch is accepted and moves the balance by kim's quote. -/
theorem fiveForKim_priced : ∃ l sent t,
    @World.prepareBulk Runtime.ascii kimDrifted 1 .inserted fiveForKim 0 = .ok (l, sent, t) ∧
      ∃ p ∈ kimDrifted.ledger.profiles.find? 1, t.deltaSpent =
        int64 ((@World.priceables Runtime.ascii kimDrifted 1 .inserted sent 0).map
          (·.quotedDelta p 0)).sum := by
  have hok : (@World.prepareBulk Runtime.ascii kimDrifted 1 .inserted fiveForKim 0).toOption.isSome := by
    decide +kernel
  cases haccepted : @World.prepareBulk Runtime.ascii kimDrifted 1 .inserted fiveForKim 0 with
  | error e =>
      rw [haccepted] at hok
      cases hok
  | ok out =>
      obtain ⟨l, sent, t⟩ := out
      obtain ⟨p, hp, -, -, -, -, hspent, -⟩ := @batch_priced_as_applied Runtime.ascii fiveForKim 0
        kimDrifted 1 .inserted sent l t (Or.inl rfl) .inserted haccepted
      exact ⟨l, sent, t, rfl, p, hp, hspent⟩

/-- Kim is priced from the 20 bytes of the entry, and the row goes from 10 to 25. -/
theorem priced_off_the_settings :
    ((@World.prepareBulk Runtime.ascii kimDrifted 1 .inserted fiveForKim 0).toOption.map
        fun out => (out.2.1, out.2.2.deltaSpent)) = some (fiveForKim, 5) ∧
      (@World.priceables Runtime.ascii kimDrifted 1 .inserted fiveForKim 0).map
        (fun it => (it.email, it.oldTotal, it.newTotal)) = [("kim", 20, 25)] ∧
      (kimDrifted.roster.traffics.find? "kim").map (·.total) = some 10 ∧
      ((bulkUpdateClients .inserted kimDrifted.roster fiveForKim 0).1.traffics.find? "kim").map
        (·.total) = some 25 := by
  refine ⟨by decide +kernel, by decide +kernel, by decide +kernel, by decide +kernel⟩

end Simorgh.Panel
