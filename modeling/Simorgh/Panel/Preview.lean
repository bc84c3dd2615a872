import Mathlib.Algebra.BigOperators.Group.Finset.Basic
import Mathlib.Algebra.Order.BigOperators.Group.Finset
import Mathlib.Data.List.Sort
import Simorgh.Lib.Budget
import Simorgh.Panel.Priced
import Simorgh.Panel.QuoteLaws

/-!
# What a batch would cost

`PreviewBulk` prices a batch without reserving anything and offers the accounts that fit
inside the balance.  The confirmed run is posted again with the targets of the offer and
`PrepareBulk` prices it from scratch.

* `mem_entryItems_of_mem`, `exists_priceable` — whatever order the inbounds are walked in, each
  account is priced once, from one of its entries.
* `previewBulk_offers` — the offer is what `takeWithin` takes from the accounts in the order of
  their emails.
* `prepareBulk_reserves` — accounts that are quoted and fit are reserved at the sum of their
  quotes.
* `exists_lead` — an account is priced as one of its targets would be on its own.
* `previewHonest_iff` — the offer can be taken exactly when the amount times the accounts, or
  times one account more than the balance pays for, is an int64, its targets are quoted, and
  what it gives back is an int64.
-/

namespace Simorgh.Panel

open Simorgh.Lib Simorgh.Lib.Json

/-- What a batch would do, priced without writing anything. -/
structure BulkPreview where
  isReseller : Bool := false
  op : BulkOp := .unknown ""
  totalTargets : Nat := 0
  eligible : Nat := 0
  affordable : Bool := false
  costBytes : Int := 0
  availableBytes : Int := 0
  shortBytes : Int := 0
  canProcess : Nat := 0
  processEmails : List String := []
  deriving DecidableEq, Repr

/-- The preview with one more account priced into it, and the running total of the
accounts that fit. -/
def previewItem (p : ResellerProfile) (now : Int) (st : BulkPreview × Int) (it : BulkPriceable) :
    Except LedgerError (BulkPreview × Int) :=
  match quote (it.quoteInput p now) with
  | .error e => .error e
  | .ok q =>
      let out := { st.1 with costBytes := int64 (st.1.costBytes + q.deltaSpent) }
      if p.unlimited = true ∨ int64 (st.2 + q.deltaSpent) ≤ out.availableBytes then
        .ok ({ out with
          canProcess := out.canProcess + 1
          processEmails := out.processEmails ++ [it.email] }, int64 (st.2 + q.deltaSpent))
      else .ok (out, st.2)

/-- The order the offer is made in; no two accounts of a batch share an email. -/
def byEmail (items : List BulkPriceable) : List BulkPriceable :=
  items.insertionSort fun a b => a.email ≤ b.email

/-- The request with some of its targets. -/
def BulkClientUpdateRequest.keeping (req : BulkClientUpdateRequest) (keep : BulkClientTarget → Bool) :
    BulkClientUpdateRequest :=
  { req with targets := req.targets.filter keep }

section

variable [Runtime]

/-- `PreviewBulk`. -/
def World.previewBulk (w : World) (isReseller : Bool) (userId : Nat) (order : MapOrder)
    (req : BulkClientUpdateRequest) (now : Int) : Except LedgerError BulkPreview :=
  if isReseller = false then .ok {}
  else match w.ledger.profiles.find? userId with
    | none => .error .notAReseller
    | some p => match bulkOpAllowed p req with
      | .error e => .error e
      | .ok _ =>
          let sent := scopeBulkTargets (ownedEmails w.ledger.clients userId) req
          let out : BulkPreview := {
            isReseller := true, op := req.op, totalTargets := req.targets.length
            availableBytes := Panel.availableBytes p }
          if sent.op ≠ .addTraffic ∧ sent.op ≠ .subTraffic then
            .ok { out with
              eligible := sent.targets.length
              canProcess := sent.targets.length
              affordable := true
              processEmails := sent.targets.map (·.email) }
          else
            let items := byEmail (w.priceables userId order sent now)
            match items.foldlM (previewItem p now) ({ out with eligible := items.length }, 0) with
            | .error e => .error e
            | .ok (out, _) =>
                let short := int64 (out.costBytes - out.availableBytes)
                .ok { out with
                  affordable := decide (out.canProcess = out.eligible)
                  shortBytes := if 0 < short ∧ p.unlimited = false then short else 0 }

/-- `PrepareBulk`, which reserves nothing for a user who is not a reseller. -/
def World.prepareBulkAs (w : World) (isReseller : Bool) (userId : Nat) (order : MapOrder)
    (req : BulkClientUpdateRequest) (now : Int) :
    Except LedgerError (Ledger × BulkClientUpdateRequest × BulkTicket) :=
  if isReseller = false then .ok (w.ledger, req, {}) else w.prepareBulk userId order req now

/-! ## The entries of a batch -/

/-- The usage rows of one inbound. -/
def usageOn (r : Roster) (id : Nat) : List ClientTraffic :=
  r.traffics.rows.filter fun ct => decide (ct.inboundId = id)

/-- The item a settings entry makes on its own. -/
def World.entryItem (w : World) (userId : Nat) (req : BulkClientUpdateRequest) (now : Int) (id : Nat)
    (d : Doc) : Option BulkPriceable :=
  priceEntry (w.rowsOf userId) (usageOn w.roster id) req now (req.emailsOn id) [] d

/-- Every entry of a batch, priced on its own.  An account has as many items as entries. -/
def World.entryItems (w : World) (userId : Nat) (req : BulkClientUpdateRequest) (now : Int) :
    List BulkPriceable :=
  req.inboundIds.flatMap fun id => match w.roster.inbounds.find? id with
    | none => []
    | some i => i.settings.clients.filterMap (w.entryItem userId req now id)

variable {w : World} {userId : Nat} {order : MapOrder} {req : BulkClientUpdateRequest} {now : Int}
  {it it' : BulkPriceable} {ledger : List ResellerClient} {usage : List ClientTraffic}
  {emails seen : List String} {d : Doc}

theorem mem_entryItems : it ∈ w.entryItems userId req now ↔
    ∃ id ∈ req.inboundIds, ∃ i ∈ w.roster.inbounds.find? id, ∃ d ∈ i.settings.clients,
      w.entryItem userId req now id d = some it := by
  unfold World.entryItems
  rw [List.mem_flatMap]
  refine exists_congr fun id => and_congr_right fun _ => ?_
  cases w.roster.inbounds.find? id with
  | none => simp
  | some i => simp [List.mem_filterMap]

/-- What an item is made from. -/
structure ItemOf (ledger : List ResellerClient) (req : BulkClientUpdateRequest) (now : Int)
    (emails : List String) (d : Doc) (it : BulkPriceable) : Prop where
  named : d.str "email" ≠ "" ∧ d.str "email" ∈ emails
  row : ∃ rc, lastUnder ResellerClient.email ledger (emailKey (d.str "email")) = some rc ∧
    it.email = rc.email ∧ it.charged = rc.chargedBytes
  oldTotal : it.oldTotal = (Doc.toMap d).int64 "totalGB"
  edit : ∃ cm, applyBulkClientOp (Doc.toMap d) req now = some cm ∧ it.newTotal = cm.int64 "totalGB"

/-- The quota an item is priced with is the one the operation leaves. -/
theorem ItemOf.quota {ledger : List ResellerClient} {emails : List String} {d : Doc}
    (h : ItemOf ledger req now emails d it) :
    FitsInt64 it.oldTotal ∧ it.newTotal = req.leavesQuota (Doc.toMap d) := by
  obtain ⟨cm, hcm, hnew⟩ := h.edit
  rw [h.oldTotal, hnew]
  exact ⟨toMap_int64_fits d "totalGB", (applyBulkClientOp_leaves hcm).2⟩

theorem itemOf_of_priceEntry (h : priceEntry ledger usage req now emails seen d = some it) :
    ItemOf ledger req now emails d it := by
  unfold priceEntry at h
  simp only at h
  split at h
  · cases h
  rename_i htarget
  split at h
  · cases h
  rename_i rc hrc
  split at h
  · cases h
  split at h
  · cases h
  rename_i cm hcm
  cases h
  rw [not_or, not_not] at htarget
  exact ⟨htarget, ⟨rc, hrc, rfl, rfl⟩, rfl, cm, hcm, rfl⟩

theorem ItemOf.key (h : ItemOf ledger req now emails d it) :
    emailKey it.email = emailKey (d.str "email") := by
  obtain ⟨rc, hrc, hemail, -⟩ := h.row
  rw [hemail]
  exact (lastUnder_key hrc).2

/-- The entry makes the same item for every list of targets it is on and every account
priced before, its own apart. -/
theorem priceEntry_congr {emails' seen' : List String} {targets : List BulkClientTarget}
    (h : priceEntry ledger usage req now emails seen d = some it)
    (hnamed : d.str "email" ∈ emails') (hfresh : emailKey (d.str "email") ∉ seen') :
    priceEntry ledger usage { req with targets := targets } now emails' seen' d = some it := by
  have hskips : bulkClientSkipped (Doc.toMap d) { req with targets := targets } =
      bulkClientSkipped (Doc.toMap d) req := rfl
  have happly : applyBulkClientOp (Doc.toMap d) { req with targets := targets } now =
      applyBulkClientOp (Doc.toMap d) req now := rfl
  obtain ⟨hne, -⟩ := (itemOf_of_priceEntry h).named
  unfold priceEntry at h ⊢
  simp only [hskips, happly] at h ⊢
  split at h
  · cases h
  rw [if_neg (not_or.2 ⟨hne, not_not.2 hnamed⟩)]
  split at h
  · cases h
  split at h
  · cases h
  rename_i hskip
  rw [not_or] at hskip
  rw [if_neg (not_or.2 ⟨hfresh, hskip.2⟩)]
  exact h

theorem priceEntry_fresh {seen' : List String} (h : priceEntry ledger usage req now emails seen d = some it)
    (hfresh : emailKey (d.str "email") ∉ seen') : priceEntry ledger usage req now emails seen' d = some it :=
  priceEntry_congr h (itemOf_of_priceEntry h).named.2 hfresh

/-- The item is that of the first entry of its account that makes one. -/
def MadeFirst (make : Doc → Option BulkPriceable) (ds : List Doc) (it : BulkPriceable) : Prop :=
  ∃ before d after, ds = before ++ d :: after ∧ make d = some it ∧
    ∀ d' ∈ before, emailKey (d'.str "email") = emailKey it.email → make d' = none

theorem mem_priceEntries {ds : List Doc}
    (h : it ∈ (priceEntries ledger usage req now emails seen ds).1) :
    MadeFirst (priceEntry ledger usage req now emails []) ds it ∧ emailKey it.email ∉ seen := by
  induction ds generalizing seen with
  | nil => cases h
  | cons d ds ih =>
      unfold priceEntries at h
      cases hd : priceEntry ledger usage req now emails seen d with
      | none =>
          rw [hd] at h
          obtain ⟨⟨before, d', after, rfl, hit, hfirst⟩, hfresh⟩ := ih h
          refine ⟨⟨d :: before, d', after, rfl, hit, ?_⟩, hfresh⟩
          rintro e (_ | ⟨_, he⟩) hkey
          · cases hmade : priceEntry ledger usage req now emails [] d with
            | none => rfl
            | some made =>
                -- it would have been priced here
                rw [← hkey] at hfresh
                rw [priceEntry_fresh hmade hfresh] at hd
                cases hd
          · exact hfirst e he hkey
      | some made =>
          rw [hd] at h
          rcases List.mem_cons.1 h with rfl | h
          · obtain ⟨hkey, hfresh⟩ := priceEntry_some hd
            rw [← hkey] at hfresh
            exact ⟨⟨[], d, ds, rfl, priceEntry_fresh hd List.not_mem_nil, by simp⟩, hfresh⟩
          · obtain ⟨⟨before, d', after, rfl, hit, hfirst⟩, hfresh⟩ := ih h
            rw [List.mem_cons, not_or] at hfresh
            refine ⟨⟨d :: before, d', after, rfl, hit, ?_⟩, hfresh.2⟩
            rintro e (_ | ⟨_, he⟩) hkey
            · exact absurd hkey.symm hfresh.1
            · exact hfirst e he hkey

theorem mem_bulkItems_made {r : Roster} {ids : List Nat} {items : List BulkPriceable}
    (h : it ∈ bulkItems r ledger req now ids items seen) :
    it ∈ items ∨ ∃ id ∈ ids, ∃ i ∈ r.inbounds.find? id,
      MadeFirst (priceEntry ledger (usageOn r id) req now (req.emailsOn id) []) i.settings.clients it := by
  induction ids generalizing items seen with
  | nil => exact Or.inl h
  | cons id ids ih =>
      have hlater : ∀ {made : List BulkPriceable}, it ∈ made ∨ (∃ id ∈ ids, ∃ i ∈ r.inbounds.find? id,
            MadeFirst (priceEntry ledger (usageOn r id) req now (req.emailsOn id) []) i.settings.clients it) →
          it ∈ made ∨ ∃ id' ∈ id :: ids, ∃ i ∈ r.inbounds.find? id',
            MadeFirst (priceEntry ledger (usageOn r id') req now (req.emailsOn id') []) i.settings.clients it := by
        rintro made (hmade | ⟨id', hid', hrest⟩)
        · exact Or.inl hmade
        · exact Or.inr ⟨id', List.mem_cons_of_mem id hid', hrest⟩
      unfold bulkItems at h
      cases hi : r.inbounds.find? id with
      | none =>
          rw [hi] at h
          exact hlater (ih h)
      | some i =>
          rw [hi] at h
          rcases hlater (ih h) with hmade | hmade
          · rcases List.mem_append.1 hmade with hmade | hmade
            · exact Or.inl hmade
            · exact Or.inr ⟨id, List.mem_cons_self, i, hi, (mem_priceEntries hmade).1⟩
          · exact Or.inr hmade

/-- An account of the batch is priced from the first of its entries in an inbound. -/
theorem madeFirst_of_mem (h : it ∈ w.priceables userId order req now) :
    ∃ id ∈ req.inboundIds, ∃ i ∈ w.roster.inbounds.find? id,
      MadeFirst (w.entryItem userId req now id) i.settings.clients it := by
  rcases mem_bulkItems_made h with hnil | ⟨id, hid, hrest⟩
  · cases hnil
  · exact ⟨id, (order.ids_perm _).mem_iff.1 hid, hrest⟩

theorem mem_entryItems_of_mem (h : it ∈ w.priceables userId order req now) :
    it ∈ w.entryItems userId req now := by
  obtain ⟨id, hid, i, hi, before, d, after, hds, hit, -⟩ := madeFirst_of_mem h
  exact mem_entryItems.2 ⟨id, hid, i, hi, d, by rw [hds]; simp, hit⟩

theorem email_eq_of_key {req' : BulkClientUpdateRequest} (h : it ∈ w.entryItems userId req now)
    (h' : it' ∈ w.entryItems userId req' now) (hkey : emailKey it.email = emailKey it'.email) :
    it.email = it'.email := by
  obtain ⟨id, -, i, -, d, -, hit⟩ := mem_entryItems.1 h
  obtain ⟨id', -, i', -, d', -, hit'⟩ := mem_entryItems.1 h'
  have hmade := itemOf_of_priceEntry hit
  have hmade' := itemOf_of_priceEntry hit'
  obtain ⟨rc, hrc, hemail, -⟩ := hmade.row
  obtain ⟨rc', hrc', hemail', -⟩ := hmade'.row
  rw [← hmade.key, hkey, hmade'.key, hrc'] at hrc
  cases hrc
  rw [hemail, hemail']

/-- Whatever the order of the walk, every account with an entry in the batch is priced. -/
theorem exists_priceable (order : MapOrder) (h : it ∈ w.entryItems userId req now) :
    ∃ it' ∈ w.priceables userId order req now, it'.email = it.email := by
  obtain ⟨id, hid, i, hi, d, hd, hit⟩ := mem_entryItems.1 h
  have hmade := itemOf_of_priceEntry hit
  obtain ⟨rc, hrc, -⟩ := hmade.row
  have hedit : (bulkEdit req now (req.emailsOn id) d).isSome := by
    rcases priceEntry_cases (w.rowsOf userId) (usageOn w.roster id) req now (req.emailsOn id) [] d with
      ⟨_, _, hfrom, _⟩ | ⟨hnone, -⟩
    · have hsome := hfrom.edit
      cases hcm : bulkEdit req now (req.emailsOn id) d with
      | none =>
          rw [hcm] at hsome
          cases hsome
      | some cm => rfl
    · rw [World.entryItem, hnone] at hit
      cases hit
  obtain ⟨-, -, hall⟩ := bulkItems_spec w.roster (w.rowsOf userId) req now (order.ids req.inboundIds) [] []
    (by simp)
  obtain ⟨it', hit', hkey⟩ := hall id ((order.ids_perm _).mem_iff.2 hid) i hi d hd hedit
    (by rw [hrc]; rfl)
  refine ⟨it', hit', email_eq_of_key (mem_entryItems_of_mem hit') h ?_⟩
  rw [hkey, hmade.key]

theorem nodup_priceables (w : World) (userId : Nat) (order : MapOrder) (req : BulkClientUpdateRequest)
    (now : Int) : ((w.priceables userId order req now).map BulkPriceable.email).Nodup := by
  have hkeys : ((w.priceables userId order req now).map fun it => emailKey it.email).Nodup :=
    oncePerAccount_bulkItems _ ⟨by simp, by simp⟩
  rw [show (fun it : BulkPriceable => emailKey it.email) = emailKey ∘ BulkPriceable.email from rfl,
    ← List.map_map] at hkeys
  exact hkeys.of_map

/-- The accounts of the reseller that the batch changes. -/
def World.accounts (w : World) (userId : Nat) (req : BulkClientUpdateRequest) (now : Int) :
    Finset String :=
  ((w.entryItems userId req now).map BulkPriceable.email).toFinset

theorem mem_accounts {email : String} :
    email ∈ w.accounts userId req now ↔ ∃ it ∈ w.entryItems userId req now, it.email = email := by
  simp [World.accounts]

theorem toFinset_priceables (w : World) (userId : Nat) (order : MapOrder) (req : BulkClientUpdateRequest)
    (now : Int) :
    ((w.priceables userId order req now).map BulkPriceable.email).toFinset = w.accounts userId req now := by
  ext email
  rw [mem_accounts, List.mem_toFinset, List.mem_map]
  constructor
  · rintro ⟨it, hit, rfl⟩
    exact ⟨it, mem_entryItems_of_mem hit, rfl⟩
  · rintro ⟨it, hit, rfl⟩
    exact exists_priceable order hit

/-- In every order of the walk as many accounts are priced. -/
theorem length_priceables (w : World) (userId : Nat) (order : MapOrder) (req : BulkClientUpdateRequest)
    (now : Int) : (w.priceables userId order req now).length = (w.accounts userId req now).card := by
  rw [← toFinset_priceables w userId order, List.toFinset_card_of_nodup (nodup_priceables ..),
    List.length_map]

/-! ## Some of the targets -/

/-- The request cut down to the reseller's own accounts. -/
def World.own (w : World) (userId : Nat) (req : BulkClientUpdateRequest) : BulkClientUpdateRequest :=
  scopeBulkTargets (ownedEmails w.ledger.clients userId) req

omit [Runtime] in
theorem mem_emailsOn {id : Nat} {email : String} : email ∈ req.emailsOn id ↔
    ∃ t ∈ req.targets, t.email ≠ "" ∧ t.inboundId = id ∧ t.email = email := by
  simp [BulkClientUpdateRequest.emailsOn, and_assoc]

omit [Runtime] in
theorem mem_inboundIds {id : Nat} : id ∈ req.inboundIds ↔
    ∃ t ∈ req.targets, t.email ≠ "" ∧ t.inboundId = id := by
  simp [BulkClientUpdateRequest.inboundIds, and_assoc]

theorem mem_own {t : BulkClientTarget} : t ∈ (w.own userId req).targets ↔
    t ∈ req.targets ∧ resellerOwnsEmail (ownedEmails w.ledger.clients userId) t.email = true :=
  List.mem_filter

variable {keep : BulkClientTarget → Bool}

theorem mem_own_keeping {t : BulkClientTarget} : t ∈ (w.own userId (req.keeping keep)).targets ↔
    t ∈ (w.own userId req).targets ∧ keep t = true := by
  rw [mem_own, mem_own, BulkClientUpdateRequest.keeping, List.mem_filter]
  exact and_right_comm

/-- An entry of the narrowed batch is one of the batch, and one of its targets was kept. -/
theorem entryItems_keeping (h : it ∈ w.entryItems userId (w.own userId (req.keeping keep)) now) :
    it ∈ w.entryItems userId (w.own userId req) now ∧
      ∃ t ∈ req.targets, keep t = true ∧ emailKey t.email = emailKey it.email := by
  obtain ⟨id, hid, i, hi, d, hd, hit⟩ := mem_entryItems.1 h
  have hmade := itemOf_of_priceEntry hit
  obtain ⟨t, ht, hne, hon, hemail⟩ := mem_emailsOn.1 hmade.named.2
  obtain ⟨hown, hkeep⟩ := mem_own_keeping.1 ht
  have hnamed : d.str "email" ∈ (w.own userId req).emailsOn id :=
    mem_emailsOn.2 ⟨t, hown, hne, hon, hemail⟩
  refine ⟨mem_entryItems.2 ⟨id, mem_inboundIds.2 ⟨t, hown, hne, hon⟩, i, hi, d, hd, ?_⟩, t,
    (mem_own.1 hown).1, hkeep, ?_⟩
  · exact priceEntry_congr hit hnamed List.not_mem_nil
  · rw [hemail, hmade.key]

/-- An entry all of whose account's targets are kept stays in the batch. -/
theorem mem_entryItems_keeping (h : it ∈ w.entryItems userId (w.own userId req) now)
    (hkeep : ∀ t ∈ req.targets, emailKey t.email = emailKey it.email → keep t = true) :
    it ∈ w.entryItems userId (w.own userId (req.keeping keep)) now := by
  obtain ⟨id, hid, i, hi, d, hd, hit⟩ := mem_entryItems.1 h
  have hmade := itemOf_of_priceEntry hit
  obtain ⟨t, ht, hne, hon, hemail⟩ := mem_emailsOn.1 hmade.named.2
  have hkept : keep t = true := by
    refine hkeep t (mem_own.1 ht).1 ?_
    rw [hemail, hmade.key]
  have ht' : t ∈ (w.own userId (req.keeping keep)).targets := mem_own_keeping.2 ⟨ht, hkept⟩
  refine mem_entryItems.2 ⟨id, mem_inboundIds.2 ⟨t, ht', hne, hon⟩, i, hi, d, hd, ?_⟩
  exact priceEntry_congr hit (mem_emailsOn.2 ⟨t, ht', hne, hon, hemail⟩) List.not_mem_nil

/-! ## Targets one by one -/

/-- The item a target makes on its own: that of the first entry of its email that makes one. -/
def World.lead (w : World) (userId : Nat) (req : BulkClientUpdateRequest) (now : Int)
    (t : BulkClientTarget) : Option BulkPriceable :=
  (w.roster.inbounds.find? t.inboundId).bind fun i =>
    (i.settings.clients.filter fun d => d.str "email" = t.email).findSome?
      (w.entryItem userId req now t.inboundId)

/-- The items of the targets. -/
def World.leads (w : World) (userId : Nat) (req : BulkClientUpdateRequest) (now : Int) : List BulkPriceable :=
  req.targets.filterMap (w.lead userId req now)

theorem mem_leads : it ∈ w.leads userId req now ↔ ∃ t ∈ req.targets, w.lead userId req now t = some it :=
  List.mem_filterMap

theorem entry_of_lead {t : BulkClientTarget} (h : w.lead userId req now t = some it) :
    ∃ i ∈ w.roster.inbounds.find? t.inboundId, ∃ d ∈ i.settings.clients, d.str "email" = t.email ∧
      w.entryItem userId req now t.inboundId d = some it := by
  obtain ⟨i, hi, hfirst⟩ := Option.bind_eq_some_iff.1 h
  obtain ⟨d, hd, hit⟩ := List.exists_of_findSome?_eq_some hfirst
  rw [List.mem_filter] at hd
  exact ⟨i, hi, d, hd.1, of_decide_eq_true hd.2, hit⟩

/-- A target that is kept makes its item in the narrowed batch too. -/
theorem lead_keeping {t : BulkClientTarget} (ht : t ∈ (w.own userId req).targets) (hkeep : keep t = true)
    (h : w.lead userId (w.own userId req) now t = some it) :
    it ∈ w.entryItems userId (w.own userId (req.keeping keep)) now ∧ emailKey t.email = emailKey it.email := by
  obtain ⟨i, hi, d, hd, hemail, hit⟩ := entry_of_lead h
  have hmade := itemOf_of_priceEntry hit
  have hne : t.email ≠ "" := hemail ▸ hmade.named.1
  have ht' : t ∈ (w.own userId (req.keeping keep)).targets := mem_own_keeping.2 ⟨ht, hkeep⟩
  refine ⟨mem_entryItems.2 ⟨_, mem_inboundIds.2 ⟨t, ht', hne, rfl⟩, i, hi, d, hd, ?_⟩, ?_⟩
  · exact priceEntry_congr hit (mem_emailsOn.2 ⟨t, ht', hne, rfl, hemail.symm⟩) List.not_mem_nil
  · rw [← hemail, hmade.key]

/-- Each account of a narrowed batch is priced as one of the targets kept. -/
theorem exists_lead (h : it ∈ w.priceables userId order (w.own userId (req.keeping keep)) now) :
    ∃ t ∈ (w.own userId req).targets, keep t = true ∧ w.lead userId (w.own userId req) now t = some it := by
  obtain ⟨id, hid, i, hi, before, d, after, hds, hit, hfirst⟩ := madeFirst_of_mem h
  have hmade := itemOf_of_priceEntry hit
  obtain ⟨t, ht, hne, rfl, hemail⟩ := mem_emailsOn.1 hmade.named.2
  obtain ⟨hown, hkeep⟩ := mem_own_keeping.1 ht
  have hnamed : d.str "email" ∈ (w.own userId req).emailsOn t.inboundId :=
    mem_emailsOn.2 ⟨t, hown, hne, rfl, hemail⟩
  have hitem : w.entryItem userId (w.own userId req) now t.inboundId d = some it :=
    priceEntry_congr hit hnamed List.not_mem_nil
  -- no entry of this email before it makes an item
  have hbefore : (before.filter fun d' => d'.str "email" = t.email).findSome?
      (w.entryItem userId (w.own userId req) now t.inboundId) = none := by
    refine List.findSome?_eq_none_iff.2 fun d' hd' => ?_
    obtain ⟨hd', hsame⟩ := List.mem_filter.1 hd'
    have hsame' : d'.str "email" = d.str "email" := (of_decide_eq_true hsame).trans hemail
    have hnone := hfirst d' hd' (by rw [hsame', hmade.key])
    cases hsome : w.entryItem userId (w.own userId req) now t.inboundId d' with
    | none => rfl
    | some made =>
        have hkept : w.entryItem userId (w.own userId (req.keeping keep)) now t.inboundId d' = some made :=
          priceEntry_congr hsome (hsame' ▸ hmade.named.2) List.not_mem_nil
        exact absurd (hkept.symm.trans hnone) (by simp)
  refine ⟨t, hown, hkeep, ?_⟩
  rw [World.lead, hi, Option.bind_some, hds, List.filter_append, List.findSome?_append, hbefore, Option.none_or,
    List.filter_cons_of_pos (by simp [hemail]), List.findSome?_cons, hitem]

theorem mem_leads_of_priceable (h : it ∈ w.priceables userId order (w.own userId (req.keeping keep)) now) :
    it ∈ w.leads userId (w.own userId req) now := by
  obtain ⟨t, ht, -, hlead⟩ := exists_lead h
  exact mem_leads.2 ⟨t, ht, hlead⟩

theorem mem_entryItems_of_priceable
    (h : it ∈ w.priceables userId order (w.own userId (req.keeping keep)) now) :
    it ∈ w.entryItems userId (w.own userId req) now :=
  (entryItems_keeping (mem_entryItems_of_mem h)).1

/-! ## What an entry is quoted -/

/-- The quote of an account is accepted. -/
def BulkPriceable.Quoted (p : ResellerProfile) (now : Int) (it : BulkPriceable) : Prop :=
  ∃ q, quote (it.quoteInput p now) = .ok q

variable {p : ResellerProfile}

/-- A quota that wraps is negative, and no negative quota is quoted. -/
theorem addTraffic_raises (hop : req.op = .addTraffic) (hpos : 0 < req.amountBytes)
    (hfits : FitsInt64 req.amountBytes) (hit : it ∈ w.entryItems userId (w.own userId req) now) (hq : it.Quoted p now) :
    it.newTotal = it.oldTotal + req.amountBytes := by
  obtain ⟨id, -, i, -, d, -, hit⟩ := mem_entryItems.1 hit
  have hmade := itemOf_of_priceEntry hit
  obtain ⟨htotal, hquota⟩ := hmade.quota
  rw [BulkClientUpdateRequest.leavesQuota, show (w.own userId req).op = _ from hop] at hquota
  simp only [← hmade.oldTotal] at hquota
  obtain ⟨q, hq⟩ := hq
  have hnonneg : 0 ≤ it.newTotal := by
    cases quote_cases hq with
    | reset hr => cases hr
    | create _ hc => cases hc
    | topUp _ _ h0 => exact h0
    | deduct _ _ h0 => exact h0
    | unchanged _ _ h0 => exact h0
  replace hquota : it.newTotal = int64 (it.oldTotal + req.amountBytes) := hquota
  rw [hquota]
  by_cases hwraps : it.oldTotal + req.amountBytes < 2 ^ 63
  · exact int64_of_fits ⟨by have := htotal.1; omega, hwraps⟩
  · have hneg := int64_neg_of_wraps (not_lt.1 hwraps) (by have := htotal.2; have := hfits.2; omega)
    omega

/-- Traffic added costs the amount, from whichever entry it is quoted, and a limited
reseller has the amount. -/
theorem quotedDelta_addTraffic (hop : req.op = .addTraffic) (hpos : 0 < req.amountBytes)
    (hfits : FitsInt64 req.amountBytes) (hit : it ∈ w.entryItems userId (w.own userId req) now) (hq : it.Quoted p now) :
    it.quotedDelta p now = req.amountBytes ∧
      (p.unlimited = false → req.amountBytes ≤ availableBytes p) := by
  have hraised := addTraffic_raises hop hpos hfits hit hq
  have htop : (it.quoteInput p now).topsUp :=
    ⟨rfl, rfl, show it.oldTotal < it.newTotal by omega⟩
  have hamount : int64 (it.newTotal - it.oldTotal) = req.amountBytes := by
    rw [hraised, add_sub_cancel_left]
    exact int64_of_fits hfits
  obtain ⟨q, hq⟩ := hq
  rw [BulkPriceable.quotedDelta, hq, ← hamount]
  refine ⟨?_, fun hlimited => topUp_fits hq hlimited htop⟩
  show q.deltaSpent = _
  cases quote_cases hq with
  | reset hr => cases hr
  | create _ hc => cases hc
  | topUp => rfl
  | deduct _ _ _ _ hlt => exact absurd hlt (not_lt.2 htop.2.2.le)
  | unchanged _ _ _ heq => exact absurd heq (ne_of_gt htop.2.2)

omit [Runtime] in
/-- A quota that is left and not raised is always quoted. -/
theorem quote_of_not_raised {i : QuoteInput} (hreset : i.reset = false) (hcreate : i.create = false)
    (hleft : 0 < i.newTotal) (hle : i.newTotal ≤ i.oldTotal) :
    ∃ q, quote i = .ok q ∧
      (q.deltaSpent = int64 (min (max i.newTotal i.consumed) i.oldCharged - i.oldCharged) ∨
        q.deltaSpent = 0) := by
  have hzero : ¬(i.newTotal = 0 ∧ (i.profile.unlimited = false ∨ 0 < i.oldCharged)) := by
    rintro ⟨h, -⟩
    omega
  unfold quote
  simp only [hreset, hcreate, Bool.false_eq_true, if_false]
  rw [if_neg (by omega), if_neg hzero, if_neg (by omega)]
  split
  · exact ⟨_, rfl, Or.inl rfl⟩
  · exact ⟨_, rfl, Or.inr rfl⟩

/-- Traffic taken off is always quoted, as a refund. -/
theorem quote_subTraffic (hop : req.op = .subTraffic) (hpos : 0 < req.amountBytes)
    (hfits : FitsInt64 req.amountBytes) (hrows : ∀ rc ∈ w.rowsOf userId, FitsInt64 rc.chargedBytes)
    (hit : it ∈ w.entryItems userId (w.own userId req) now) : it.Quoted p now ∧ it.quotedDelta p now ≤ 0 := by
  obtain ⟨id, -, i, -, d, -, hit⟩ := mem_entryItems.1 hit
  have hmade := itemOf_of_priceEntry hit
  obtain ⟨htotal, hquota⟩ := hmade.quota
  obtain ⟨-, ⟨rc, hrc, -, hcharged⟩, hold, cm, hcm, -⟩ := hmade
  have hfitsCharged : FitsInt64 it.charged := by
    rw [hcharged]
    exact hrows rc (lastUnder_key hrc).1
  have hlimited : 0 < it.oldTotal := by
    unfold applyBulkClientOp at hcm
    rw [show (w.own userId req).op = _ from hop] at hcm
    simp only at hcm
    split at hcm
    · cases hcm
    · omega
  rw [BulkClientUpdateRequest.leavesQuota, show (w.own userId req).op = _ from hop] at hquota
  simp only [← hold] at hquota
  have hless : it.newTotal = max 1 (it.oldTotal - req.amountBytes) := by
    obtain ⟨-, hahigh⟩ := hfits
    obtain ⟨-, hthigh⟩ := htotal
    replace hquota : it.newTotal = int64 (max 1 (int64 (it.oldTotal - req.amountBytes))) := hquota
    rw [hquota, int64_of_fits (x := it.oldTotal - req.amountBytes) ⟨by omega, by omega⟩]
    exact int64_of_fits ⟨by omega, by omega⟩
  obtain ⟨q, hq, hdelta⟩ : ∃ q, quote (it.quoteInput p now) = .ok q ∧
      (q.deltaSpent = int64 (min (max it.newTotal it.consumed) it.charged - it.charged) ∨
        q.deltaSpent = 0) :=
    quote_of_not_raised rfl rfl (show 0 < it.newTotal by omega) (show it.newTotal ≤ it.oldTotal by omega)
  refine ⟨⟨q, hq⟩, ?_⟩
  rw [BulkPriceable.quotedDelta, hq]
  show q.deltaSpent ≤ 0
  rcases hdelta with hdelta | hdelta
  · obtain ⟨hclow, hchigh⟩ := hfitsCharged
    rw [hdelta, int64_of_fits ⟨by omega, by omega⟩]
    omega
  · exact hdelta.le

/-! ## The offer -/

omit [Runtime] in
/-- The balance an offer is kept within. -/
def ResellerProfile.limit (p : ResellerProfile) : Option Int :=
  if p.unlimited then none else some (availableBytes p)

omit [Runtime] in
theorem forall_limit {x : Int} :
    (p.unlimited = true ∨ x ≤ availableBytes p) ↔ ∀ l ∈ p.limit, x ≤ l := by
  unfold ResellerProfile.limit
  cases p.unlimited <;> simp

omit [Runtime] in
/-- One account is quoted, and is offered if the running total stays within the balance. -/
theorem previewItem_ok {out out' : BulkPreview} {running running' : Int}
    (h : previewItem p now (out, running) it = .ok (out', running'))
    (havailable : out.availableBytes = availableBytes p) :
    (it.Quoted p now ∧ out'.availableBytes = availableBytes p ∧ out'.eligible = out.eligible) ∧
      ((∀ l ∈ p.limit, int64 (running + it.quotedDelta p now) ≤ l) ∧
          running' = int64 (running + it.quotedDelta p now) ∧ out'.canProcess = out.canProcess + 1 ∧
          out'.processEmails = out.processEmails ++ [it.email] ∨
        (¬∀ l ∈ p.limit, int64 (running + it.quotedDelta p now) ≤ l) ∧ running' = running ∧
          out'.canProcess = out.canProcess ∧ out'.processEmails = out.processEmails) := by
  unfold previewItem at h
  cases hq : quote (it.quoteInput p now) with
  | error e =>
      rw [hq] at h
      cases h
  | ok q =>
      have hdelta : it.quotedDelta p now = q.deltaSpent := by
        rw [BulkPriceable.quotedDelta, hq]
      rw [hq] at h
      simp only at h
      rw [hdelta, ← forall_limit, ← havailable]
      split at h
      · rename_i htaken
        cases h
        exact ⟨⟨⟨q, hq⟩, rfl, rfl⟩, Or.inl ⟨htaken, rfl, rfl, rfl⟩⟩
      · rename_i hleft
        cases h
        exact ⟨⟨⟨q, hq⟩, rfl, rfl⟩, Or.inr ⟨hleft, rfl, rfl, rfl⟩⟩

omit [Runtime] in
/-- All accounts are quoted, and those offered are what is taken within the balance. -/
theorem foldlM_previewItem {items : List BulkPriceable} {out out' : BulkPreview} {running running' : Int}
    (h : items.foldlM (previewItem p now) (out, running) = .ok (out', running'))
    (havailable : out.availableBytes = availableBytes p) :
    (∀ it ∈ items, it.Quoted p now) ∧ out'.availableBytes = availableBytes p ∧
      out'.eligible = out.eligible ∧
      out'.canProcess = out.canProcess + (takeWithin p.limit (·.quotedDelta p now) running items).length ∧
      out'.processEmails = out.processEmails ++
        (takeWithin p.limit (·.quotedDelta p now) running items).map BulkPriceable.email := by
  induction items generalizing out running with
  | nil =>
      cases h
      simp [takeWithin, havailable]
  | cons it items ih =>
      rw [List.foldlM_cons] at h
      cases hstep : previewItem p now (out, running) it with
      | error e =>
          rw [hstep] at h
          cases h
      | ok st =>
          obtain ⟨out₁, running₁⟩ := st
          rw [hstep] at h
          obtain ⟨⟨hquoted, havailable₁, heligible₁⟩, hoffer⟩ := previewItem_ok hstep havailable
          obtain ⟨hitems, hav, heligible, hcan, hemails⟩ := ih h havailable₁
          refine ⟨?_, hav, heligible.trans heligible₁, ?_⟩
          · rintro j (_ | ⟨_, hj⟩)
            · exact hquoted
            · exact hitems j hj
          unfold takeWithin
          rcases hoffer with ⟨htaken, rfl, hcan₁, hemails₁⟩ | ⟨hleft, rfl, hcan₁, hemails₁⟩
          · rw [if_pos htaken, hcan, hemails, hcan₁, hemails₁, List.length_cons, List.append_assoc]
            exact ⟨by omega, rfl⟩
          · rw [if_neg hleft, hcan, hemails, hcan₁, hemails₁]
            exact ⟨rfl, rfl⟩

/-- The accounts that are offered. -/
def World.offered (w : World) (userId : Nat) (order : MapOrder) (req : BulkClientUpdateRequest) (now : Int)
    (p : ResellerProfile) : List BulkPriceable :=
  takeWithin p.limit (·.quotedDelta p now) 0 (byEmail (w.priceables userId order (w.own userId req) now))

theorem offered_sublist (w : World) (userId : Nat) (order : MapOrder) (req : BulkClientUpdateRequest)
    (now : Int) (p : ResellerProfile) : (w.offered userId order req now p).Sublist
      (byEmail (w.priceables userId order (w.own userId req) now)) :=
  takeWithin_sublist _ _ _ _

omit [Runtime] in
theorem perm_byEmail (items : List BulkPriceable) : (byEmail items).Perm items :=
  List.perm_insertionSort _ _

/-- The operations that move bytes. -/
def BulkClientUpdateRequest.Costs (req : BulkClientUpdateRequest) : Prop :=
  req.op = .addTraffic ∨ req.op = .subTraffic

theorem scope_free {owned : OwnedEmails} :
    ((scopeBulkTargets owned req).op ≠ .addTraffic ∧ (scopeBulkTargets owned req).op ≠ .subTraffic) ↔
      ¬req.Costs :=
  not_or.symm

variable {pv : BulkPreview}

/-- What a reseller is told. -/
theorem previewBulk_profile (h : w.previewBulk true userId order req now = .ok pv) :
    ∃ p, w.ledger.profiles.find? userId = some p ∧ bulkOpAllowed p req = .ok () ∧
      pv.availableBytes = availableBytes p := by
  unfold World.previewBulk at h
  rw [if_neg (by decide)] at h
  split at h
  · cases h
  rename_i p hp
  split at h
  · cases h
  rename_i hallowed
  refine ⟨p, hp, hallowed, ?_⟩
  simp only at h
  split at h
  · cases h
    rfl
  · split at h
    · cases h
    rename_i hfold
    cases h
    exact (foldlM_previewItem hfold rfl).2.1

theorem previewBulk_offers (hcosts : req.Costs) (hp : w.ledger.profiles.find? userId = some p)
    (h : w.previewBulk true userId order req now = .ok pv) :
    (∀ it ∈ w.priceables userId order (w.own userId req) now, it.Quoted p now) ∧
      pv.processEmails = (w.offered userId order req now p).map BulkPriceable.email ∧
      (pv.affordable = true →
        (w.offered userId order req now p).Perm (w.priceables userId order (w.own userId req) now)) := by
  unfold World.previewBulk at h
  rw [if_neg (by decide), hp] at h
  simp only at h
  split at h
  · cases h
  rw [if_neg (mt scope_free.1 (not_not.2 hcosts))] at h
  split at h
  · cases h
  rename_i hfold
  cases h
  obtain ⟨hquoted, -, heligible, hcan, hemails⟩ := foldlM_previewItem hfold rfl
  refine ⟨fun it hit => hquoted it ((perm_byEmail _).mem_iff.2 hit), hemails, fun haffordable => ?_⟩
  -- as many are offered as were priced, so all of them are
  have hall : (w.offered userId order req now p).length =
      (byEmail (w.priceables userId order (w.own userId req) now)).length := by
    rw [of_decide_eq_true haffordable, heligible, Nat.zero_add] at hcan
    exact hcan.symm
  rw [(offered_sublist w userId order req now p).eq_of_length hall]
  exact perm_byEmail _

/-! ## The reservation -/

omit [Runtime] in
theorem bulkTotalCost_of_le {amount n : Int} (hamount : 0 < amount) (hn : 0 < n)
    (hfits : amount * n ≤ maxInt64) : bulkTotalCost amount n = .ok (amount * n) := by
  have hroom : amount ≤ maxInt64 / n := (Int.le_ediv_iff_mul_le hn).2 hfits
  rw [bulkTotalCost, if_neg (by omega), if_neg (by omega)]

omit [Runtime] in
theorem bulkTotalCost_of_lt {amount n : Int} (hamount : 0 < amount) (hn : 0 < n)
    (hover : maxInt64 < amount * n) : bulkTotalCost amount n = .error .invalidQuota := by
  have hroom : maxInt64 / n < amount := (Int.ediv_lt_iff_lt_mul hn).2 hover
  rw [bulkTotalCost, if_neg (by omega), if_pos hroom]

omit [Runtime] in
theorem foldlM_priceItem_of_quoted {items : List BulkPriceable} (h : ∀ it ∈ items, it.Quoted p now)
    (t : BulkTicket) : ∃ t', items.foldlM (priceItem p now) t = .ok t' := by
  induction items generalizing t with
  | nil => exact ⟨t, rfl⟩
  | cons it items ih =>
      obtain ⟨q, hq⟩ := h it List.mem_cons_self
      have hrest : ∀ j ∈ items, j.Quoted p now := fun j hj => h j (List.mem_cons_of_mem it hj)
      rw [List.foldlM_cons]
      unfold priceItem
      rw [hq]
      simp only
      split
      · exact ih hrest _
      · exact ih hrest _

omit [Runtime] in
/-- Accounts that are all quoted are priced, unless the amount does not fit their number. -/
theorem priceBulk_of_quoted {items : List BulkPriceable} (hquoted : ∀ it ∈ items, it.Quoted p now)
    (hpos : 0 < req.amountBytes)
    (hroom : req.op = .addTraffic → req.amountBytes * items.length ≤ maxInt64 ∧
      (p.unlimited = false → req.amountBytes * items.length ≤ availableBytes p)) :
    ∃ t, priceBulk p req items now = .ok t := by
  unfold priceBulk
  split
  · exact ⟨_, rfl⟩
  rename_i hitems
  have hn : 0 < (items.length : Int) := by
    have := List.length_pos_iff.2 hitems
    omega
  obtain ⟨t, ht⟩ := foldlM_priceItem_of_quoted hquoted {}
  by_cases hop : req.op = .addTraffic
  · obtain ⟨hfits, hbalance⟩ := hroom hop
    have hwithin : (!p.unlimited && decide (availableBytes p < req.amountBytes * items.length)) = false := by
      cases hu : p.unlimited with
      | true => rfl
      | false => exact decide_eq_false (not_lt.2 (hbalance hu))
    simp only [hop, if_true, bulkTotalCost_of_le hpos hn hfits, hwithin, Bool.false_eq_true, if_false, ht]
    exact ⟨_, rfl⟩
  · simp only [hop, if_false, ht]
    exact ⟨_, rfl⟩

omit [Runtime] in
theorem priceBulk_of_lt {items : List BulkPriceable} (hop : req.op = .addTraffic)
    (hpos : 0 < req.amountBytes) (hover : maxInt64 < req.amountBytes * items.length) :
    priceBulk p req items now = .error .invalidQuota := by
  have hitems : items ≠ [] := by
    rintro rfl
    rw [List.length_nil, Nat.cast_zero, Int.mul_zero] at hover
    exact absurd hover (by decide)
  have hn : 0 < (items.length : Int) := by
    have := List.length_pos_iff.2 hitems
    omega
  unfold priceBulk
  rw [if_neg hitems]
  simp only [hop, if_true, bulkTotalCost_of_lt hpos hn hover]

/-- The accounts of a batch that are quoted and fit are reserved at the sum of their
quotes. -/
theorem prepareBulk_reserves {sum : Int} (hcosts : req.Costs)
    (hp : w.ledger.profiles.find? userId = some p) (hallowed : bulkOpAllowed p req = .ok ())
    (hpos : 0 < req.amountBytes)
    (hquoted : ∀ it ∈ w.priceables userId order (w.own userId req) now, it.Quoted p now)
    (hsum : ((w.priceables userId order (w.own userId req) now).map (·.quotedDelta p now)).sum = sum)
    (hfits : FitsInt64 sum)
    (hroom : req.op = .addTraffic →
      req.amountBytes * (w.priceables userId order (w.own userId req) now).length ≤ maxInt64 ∧
      (p.unlimited = false →
        req.amountBytes * (w.priceables userId order (w.own userId req) now).length ≤ availableBytes p))
    (hbalance : 0 < sum → p.unlimited = true ∨ p.spentBytes + sum ≤ p.allowanceBytes) :
    ∃ l t, w.prepareBulk userId order req now = .ok (l, w.own userId req, t) ∧
      l.spentOf userId = w.ledger.spentOf userId + sum := by
  have hpriceable : ∃ t, priceBulk p (w.own userId req)
      (w.priceables userId order (w.own userId req) now) now = .ok t :=
    priceBulk_of_quoted hquoted hpos hroom
  obtain ⟨t, ht⟩ := hpriceable
  obtain ⟨-, hdelta⟩ := priceBulk_charges ht
  rw [hsum, int64_of_fits hfits] at hdelta
  have hreserved : ∃ l, w.ledger.reserveBulk { t with userId := userId } = .ok l ∧
      l.spentOf userId = w.ledger.spentOf userId + sum := by
    unfold Ledger.reserveBulk
    split
    · rename_i hinactive
      refine ⟨w.ledger, rfl, ?_⟩
      rw [← hdelta, priceBulk_inactive ht hinactive, Int.add_zero]
    · have hmoved : w.ledger.addSpent userId t.deltaSpent =
          .ok (w.ledger.restoreSpent userId t.deltaSpent) := by
        unfold Ledger.addSpent
        rw [hdelta, hp]
        split
        · rename_i hdebit
          simp only
          rw [if_pos (hbalance hdebit)]
        · rfl
      simp only
      rw [hmoved]
      refine ⟨_, rfl, ?_⟩
      rw [Ledger.spentOf, Ledger.writeBulkCharges_profiles]
      show (w.ledger.restoreSpent userId t.deltaSpent).spentOf userId = _
      rw [Ledger.spentOf_restoreSpent (by rw [hp]; rfl), if_pos rfl, hdelta]
  obtain ⟨l, hl, hspent⟩ := hreserved
  refine ⟨l, { t with userId := userId }, ?_, hspent⟩
  unfold World.prepareBulk
  rw [hp]
  simp only
  rw [hallowed]
  simp only
  rw [if_neg (mt scope_free.1 (not_not.2 hcosts))]
  have hticket : priceBulk p (scopeBulkTargets (ownedEmails w.ledger.clients userId) req)
      (w.priceables userId order (w.own userId req) now) now = .ok t := ht
  unfold World.priceables World.rowsOf World.own at hticket
  rw [hticket]
  simp only
  rw [hl]
  rfl

/-! ## When the offer can be taken -/

/-- What an account is given back at most, over its targets. -/
def World.largestRefund (w : World) (userId : Nat) (req : BulkClientUpdateRequest) (now : Int) (p : ResellerProfile)
    (email : String) : Nat :=
  ((w.leads userId req now).toFinset.filter (·.email = email)).sup
    fun it => (-it.quotedDelta p now).toNat

/-- The columns a batch reads are int64s. -/
structure World.Columns (w : World) (userId : Nat) : Prop where
  charged : ∀ rc ∈ w.rowsOf userId, FitsInt64 rc.chargedBytes
  allowance : ∀ p ∈ w.ledger.profiles.find? userId, FitsInt64 p.allowanceBytes

/-- Every target of these accounts is quoted. -/
def World.AllQuoted (w : World) (userId : Nat) (req : BulkClientUpdateRequest) (now : Int)
    (emails : List String) : Prop :=
  req.op = .addTraffic → ∀ p ∈ w.ledger.profiles.find? userId,
    ∀ it ∈ w.leads userId (w.own userId req) now, it.email ∈ emails → it.Quoted p now

/-- What these accounts are given back is an int64. -/
def World.RefundsFit (w : World) (userId : Nat) (req : BulkClientUpdateRequest) (now : Int)
    (emails : List String) : Prop :=
  req.op = .subTraffic → ∀ p ∈ w.ledger.profiles.find? userId,
    ∑ email ∈ emails.toFinset, w.largestRefund userId (w.own userId req) now p email ≤ 2 ^ 63

/-- The price of the batch, or of one account more than the balance pays for, is an
int64; and so is the balance. -/
def World.RoomFor (w : World) (userId : Nat) (req : BulkClientUpdateRequest) (now : Int) : Prop :=
  req.op = .addTraffic → ∀ p ∈ w.ledger.profiles.find? userId,
    let n := (w.accounts userId (w.own userId req) now).card
    0 < n →
      if p.unlimited then req.amountBytes * n ≤ maxInt64
      else -2 ^ 63 ≤ p.allowanceBytes - max 0 p.spentBytes ∧
        req.amountBytes * min (n : Int) (availableBytes p / req.amountBytes + 1) ≤ maxInt64

/-- What the accounts of a request are quoted together. -/
def World.quotedSum (w : World) (isReseller : Bool) (userId : Nat) (order : MapOrder)
    (req : BulkClientUpdateRequest) (now : Int) : Int :=
  match w.ledger.profiles.find? userId with
  | none => 0
  | some p =>
      if isReseller ∧ (req.op = .addTraffic ∨ req.op = .subTraffic) then
        ((w.priceables userId order req now).map (·.quotedDelta p now)).sum
      else 0

/-- The preview is an offer that can be taken: any of the targets of the accounts it
names are accepted, and the balance moves by what their accounts are quoted, within what
was available; all of those targets are exactly these accounts.  A batch that is said to
be affordable is accepted. -/
structure PreviewHonest (w : World) (isReseller : Bool) (userId : Nat) (order : MapOrder)
    (req : BulkClientUpdateRequest) (now : Int) (pv : BulkPreview) : Prop where
  offer : ∀ keep : BulkClientTarget → Bool,
    (∀ t ∈ req.targets, keep t = true → emailKey t.email ∈ pv.processEmails.map emailKey) →
      ∃ l sent ticket, w.prepareBulkAs isReseller userId order (req.keeping keep) now = .ok (l, sent, ticket) ∧
        l.spentOf userId = w.ledger.spentOf userId + w.quotedSum isReseller userId order sent now ∧
        (∀ p ∈ w.ledger.profiles.find? userId, p.unlimited = false →
          w.quotedSum isReseller userId order sent now ≤ pv.availableBytes) ∧
        (isReseller = true → req.Costs →
          (∀ t ∈ req.targets, emailKey t.email ∈ pv.processEmails.map emailKey → keep t = true) →
          ((w.priceables userId order sent now).map BulkPriceable.email).Perm pv.processEmails)
  whole : pv.affordable = true →
    ∃ out, w.prepareBulkAs isReseller userId order req now = .ok out

omit [Runtime] in
theorem int64_le_self {x : Int} (hlow : -2 ^ 63 ≤ x) : int64 x ≤ x := by
  by_cases hhigh : x < 2 ^ 63
  · exact (int64_of_fits ⟨hlow, hhigh⟩).le
  · have := (int64_fits x).2
    omega

theorem refund_sum_le {picks : List BulkPriceable} {offer : List String}
    (hpicks : ∀ it ∈ picks, it ∈ w.leads userId req now) (hoffer : ∀ it ∈ picks, it.email ∈ offer)
    (hnodup : (picks.map BulkPriceable.email).Nodup) :
    (picks.map fun it => (-it.quotedDelta p now).toNat).sum ≤
      ∑ email ∈ offer.toFinset, w.largestRefund userId req now p email := by
  calc (picks.map fun it => (-it.quotedDelta p now).toNat).sum
      ≤ (picks.map fun it => w.largestRefund userId req now p it.email).sum := by
        refine List.sum_le_sum fun it hit => ?_
        refine Finset.le_sup (f := fun it : BulkPriceable => (-it.quotedDelta p now).toNat) ?_
        exact Finset.mem_filter.2 ⟨List.mem_toFinset.2 (hpicks it hit), rfl⟩
    _ = ∑ email ∈ (picks.map BulkPriceable.email).toFinset, w.largestRefund userId req now p email := by
        rw [List.sum_toFinset _ hnodup, List.map_map]
        rfl
    _ ≤ ∑ email ∈ offer.toFinset, w.largestRefund userId req now p email := by
        refine Finset.sum_le_sum_of_subset fun email hemail => ?_
        obtain ⟨it, hit, rfl⟩ := List.mem_map.1 (List.mem_toFinset.1 hemail)
        exact List.mem_toFinset.2 (hoffer it hit)

omit [Runtime] in
theorem neg_sum_of_nonpos {picks : List BulkPriceable} (h : ∀ it ∈ picks, it.quotedDelta p now ≤ 0) :
    (picks.map (·.quotedDelta p now)).sum = -((picks.map fun it => (-it.quotedDelta p now).toNat).sum : Nat) := by
  induction picks with
  | nil => rfl
  | cons it picks ih =>
      have hit := h it List.mem_cons_self
      have hrest := ih fun j hj => h j (List.mem_cons_of_mem it hj)
      simp only [List.map_cons, List.sum_cons, hrest]
      omega

omit [Runtime] in
theorem sum_of_const {picks : List BulkPriceable} {amount : Int}
    (h : ∀ it ∈ picks, it.quotedDelta p now = amount) :
    (picks.map (·.quotedDelta p now)).sum = amount * picks.length := by
  induction picks with
  | nil => simp
  | cons it picks ih =>
      have hrest := ih fun j hj => h j (List.mem_cons_of_mem it hj)
      rw [List.map_cons, List.sum_cons, hrest, h it List.mem_cons_self, List.length_cons, Nat.cast_succ,
        Int.mul_add, Int.mul_one, Int.add_comm]

omit [Runtime] in
theorem amount_pos (hcosts : req.Costs) (hallowed : bulkOpAllowed p req = .ok ()) : 0 < req.amountBytes := by
  unfold bulkOpAllowed at hallowed
  rcases hcosts with hop | hop
  · rw [hop] at hallowed
    simp only at hallowed
    split at hallowed
    · cases hallowed
    · omega
  · rw [hop] at hallowed
    simp only at hallowed
    split at hallowed
    · cases hallowed
    · omega

theorem mem_priceables_of_offered (h : it ∈ w.offered userId order req now p) :
    it ∈ w.priceables userId order (w.own userId req) now :=
  (perm_byEmail _).mem_iff.1 ((offered_sublist w userId order req now p).subset h)

theorem nodup_offered (w : World) (userId : Nat) (order : MapOrder) (req : BulkClientUpdateRequest)
    (now : Int) (p : ResellerProfile) : ((w.offered userId order req now p).map BulkPriceable.email).Nodup := by
  refine List.Nodup.sublist ((offered_sublist w userId order req now p).map _) ?_
  exact ((perm_byEmail _).map _).nodup_iff.2 (nodup_priceables ..)

/-- At most as many accounts as were priced are offered, and they cost no more than the
balance. -/
theorem offered_le (hop : req.op = .addTraffic) (hpos : 0 < req.amountBytes) (hfits : FitsInt64 req.amountBytes)
    (hquoted : ∀ it ∈ w.priceables userId order (w.own userId req) now, it.Quoted p now)
    (hp : w.ledger.profiles.find? userId = some p) (hroom : w.RoomFor userId req now)
    (hsome : 0 < (w.accounts userId (w.own userId req) now).card) :
    req.amountBytes * (w.offered userId order req now p).length ≤ maxInt64 ∧
      (p.unlimited = false → req.amountBytes * (w.offered userId order req now p).length ≤ availableBytes p) := by
  have hlength : (byEmail (w.priceables userId order (w.own userId req) now)).length =
      (w.accounts userId (w.own userId req) now).card := by
    rw [(perm_byEmail _).length_eq, length_priceables]
  have hcost : ∀ it ∈ byEmail (w.priceables userId order (w.own userId req) now),
      it.quotedDelta p now = req.amountBytes := by
    intro it hit
    replace hit := (perm_byEmail _).mem_iff.1 hit
    exact (quotedDelta_addTraffic hop hpos hfits (mem_entryItems_of_mem hit) (hquoted it hit)).1
  have hwithin := hroom hop p hp hsome
  cases hu : p.unlimited with
  | true =>
      rw [if_pos hu] at hwithin
      refine ⟨le_trans (Int.mul_le_mul_of_nonneg_left ?_ hpos.le) hwithin, by simp⟩
      have := (offered_sublist w userId order req now p).length_le
      omega
  | false =>
      rw [if_neg (by simp [hu])] at hwithin
      have hle : req.amountBytes * (0 + (w.offered userId order req now p).length) ≤ availableBytes p := by
        unfold World.offered
        rw [ResellerProfile.limit, if_neg (by simp [hu])]
        have hzero : (0 : Int) = req.amountBytes * 0 := (Int.mul_zero _).symm
        nth_rewrite 2 [hzero]
        refine const_le_of_takeWithin hpos hcost ?_ ?_ (le_refl 0)
        · rw [Int.mul_zero]
          exact availableBytes_nonneg p
        · rw [hlength, Int.zero_add]
          have := hwithin.2
          unfold maxInt64 at this
          omega
      rw [Int.zero_add] at hle
      refine ⟨le_trans hle ?_, fun _ => hle⟩
      unfold availableBytes maxInt64
      rw [if_neg (by simp [hu])]
      have := (int64_fits (p.allowanceBytes - max 0 p.spentBytes)).2
      omega

/-- So it is with any number of them, and the counter has room for what they cost. -/
theorem fits_of_le_offered {n : Nat} (hop : req.op = .addTraffic) (hpos : 0 < req.amountBytes)
    (hfits : FitsInt64 req.amountBytes)
    (hquoted : ∀ it ∈ w.priceables userId order (w.own userId req) now, it.Quoted p now)
    (hp : w.ledger.profiles.find? userId = some p) (hroom : w.RoomFor userId req now)
    (hn : n ≤ (w.offered userId order req now p).length) :
    (req.amountBytes * n ≤ maxInt64 ∧ (p.unlimited = false → req.amountBytes * n ≤ availableBytes p)) ∧
      (0 < req.amountBytes * n → p.unlimited = true ∨ p.spentBytes + req.amountBytes * n ≤ p.allowanceBytes) := by
  rcases Nat.eq_zero_or_pos n with rfl | hsold
  · rw [Nat.cast_zero, Int.mul_zero]
    exact ⟨⟨by decide, fun _ => availableBytes_nonneg p⟩, fun h => absurd h (lt_irrefl 0)⟩
  have hsome : 0 < (w.accounts userId (w.own userId req) now).card := by
    have hall := (offered_sublist w userId order req now p).length_le
    rw [(perm_byEmail _).length_eq, length_priceables] at hall
    omega
  obtain ⟨hmax, hbalance⟩ := offered_le hop hpos hfits hquoted hp hroom hsome
  have hle : req.amountBytes * (n : Int) ≤ req.amountBytes * (w.offered userId order req now p).length :=
    Int.mul_le_mul_of_nonneg_left (by omega) hpos.le
  refine ⟨⟨hle.trans hmax, fun hu => hle.trans (hbalance hu)⟩, fun hdebit => ?_⟩
  cases hu : p.unlimited with
  | true => exact Or.inl rfl
  | false =>
      right
      have hwithin := hroom hop p hp hsome
      rw [if_neg (by simp [hu])] at hwithin
      have hexact := int64_le_self hwithin.1
      have hpaid := hle.trans (hbalance hu)
      unfold availableBytes at hpaid
      rw [if_neg (by simp [hu])] at hpaid
      omega

variable {order' : MapOrder}

/-- A batch is accepted, and what its accounts are quoted is booked, within the balance. -/
def World.Reserves (w : World) (userId : Nat) (order : MapOrder) (req : BulkClientUpdateRequest) (now : Int)
    (p : ResellerProfile) : Prop :=
  ∃ l t, w.prepareBulk userId order req now = .ok (l, w.own userId req, t) ∧
    l.spentOf userId = w.ledger.spentOf userId +
      ((w.priceables userId order (w.own userId req) now).map (·.quotedDelta p now)).sum ∧
    (p.unlimited = false →
      ((w.priceables userId order (w.own userId req) now).map (·.quotedDelta p now)).sum ≤ availableBytes p)

/-- Targets of accounts that were offered traffic are reserved, in whatever order the
second walk goes. -/
theorem reserves_addTraffic (hop : req.op = .addTraffic) (hamount : FitsInt64 req.amountBytes)
    (hp : w.ledger.profiles.find? userId = some p)
    (hpv : w.previewBulk true userId order req now = .ok pv)
    (hall : w.AllQuoted userId req now pv.processEmails) (hroom : w.RoomFor userId req now)
    (hoffered : ∀ it ∈ w.entryItems userId (w.own userId (req.keeping keep)) now,
      it.email ∈ pv.processEmails) :
    w.Reserves userId order' (req.keeping keep) now p := by
  obtain ⟨p', hp', hallowed, -⟩ := previewBulk_profile hpv
  rw [hp] at hp'
  cases hp'
  have hpos := amount_pos (Or.inl hop) hallowed
  obtain ⟨hpreviewed, hemails, -⟩ := previewBulk_offers (Or.inl hop) hp hpv
  have hoffer : ∀ it ∈ w.priceables userId order' (w.own userId (req.keeping keep)) now,
      it.email ∈ (w.offered userId order req now p).map BulkPriceable.email := by
    intro it hit
    rw [← hemails]
    exact hoffered it (mem_entryItems_of_mem hit)
  have hquoted : ∀ it ∈ w.priceables userId order' (w.own userId (req.keeping keep)) now,
      it.Quoted p now := by
    intro it hit
    exact hall hop p hp it (mem_leads_of_priceable hit) (hoffered it (mem_entryItems_of_mem hit))
  have hsum := sum_of_const fun it hit =>
    (quotedDelta_addTraffic hop hpos hamount (mem_entryItems_of_priceable hit) (hquoted it hit)).1
  -- no more accounts are priced than were offered
  have hlength : (w.priceables userId order' (w.own userId (req.keeping keep)) now).length ≤
      (w.offered userId order req now p).length := by
    have hsubset : (w.priceables userId order' (w.own userId (req.keeping keep)) now).map
        BulkPriceable.email ⊆ (w.offered userId order req now p).map BulkPriceable.email := by
      intro email hemail
      obtain ⟨it, hit, rfl⟩ := List.mem_map.1 hemail
      exact hoffer it hit
    have hle := ((nodup_priceables ..).subperm hsubset).length_le
    rwa [List.length_map, List.length_map] at hle
  obtain ⟨hfit, hbalance⟩ := fits_of_le_offered hop hpos hamount hpreviewed hp hroom hlength
  have hfits : FitsInt64 (req.amountBytes * (w.priceables userId order'
      (w.own userId (req.keeping keep)) now).length) := by
    have hnonneg : 0 ≤ req.amountBytes * ((w.priceables userId order'
        (w.own userId (req.keeping keep)) now).length : Int) := Int.mul_nonneg hpos.le (by omega)
    have hmax := hfit.1
    unfold maxInt64 at hmax
    exact ⟨by omega, by omega⟩
  have hkept : (req.keeping keep).Costs := Or.inl hop
  obtain ⟨l, t, hprepared, hspent⟩ := prepareBulk_reserves hkept hp hallowed hpos hquoted hsum hfits
    (fun _ => hfit) hbalance
  refine ⟨l, t, hprepared, ?_, ?_⟩
  · rw [hspent, hsum]
  · rw [hsum]
    exact hfit.2

/-- Traffic taken off any of the accounts offered is reserved. -/
theorem reserves_subTraffic (hop : req.op = .subTraffic) (hamount : FitsInt64 req.amountBytes)
    (hcolumns : w.Columns userId) (hp : w.ledger.profiles.find? userId = some p)
    (hpv : w.previewBulk true userId order req now = .ok pv)
    (hrefunds : w.RefundsFit userId req now pv.processEmails)
    (hoffered : ∀ it ∈ w.entryItems userId (w.own userId (req.keeping keep)) now,
      it.email ∈ pv.processEmails) :
    w.Reserves userId order' (req.keeping keep) now p := by
  obtain ⟨p', hp', hallowed, -⟩ := previewBulk_profile hpv
  rw [hp] at hp'
  cases hp'
  have hpos := amount_pos (Or.inr hop) hallowed
  have hquotes : ∀ it ∈ w.priceables userId order' (w.own userId (req.keeping keep)) now,
      it.Quoted p now ∧ it.quotedDelta p now ≤ 0 := fun it hit =>
    quote_subTraffic hop hpos hamount hcolumns.charged (mem_entryItems_of_priceable hit)
  have hsum := neg_sum_of_nonpos fun it hit => (hquotes it hit).2
  have hleads : ∀ it ∈ w.priceables userId order' (w.own userId (req.keeping keep)) now,
      it ∈ w.leads userId (w.own userId req) now := fun it hit => mem_leads_of_priceable hit
  have hlow := (refund_sum_le (p := p) hleads (fun it hit => hoffered it (mem_entryItems_of_mem hit))
    (nodup_priceables ..)).trans (hrefunds hop p hp)
  have hkept : (req.keeping keep).Costs := Or.inr hop
  have hnotadd : (req.keeping keep).op ≠ .addTraffic := by
    show req.op ≠ _
    rw [hop]
    decide
  obtain ⟨l, t, hprepared, hspent⟩ := prepareBulk_reserves hkept hp hallowed hpos
    (fun it hit => (hquotes it hit).1) hsum ⟨by omega, by omega⟩ (fun hadd => absurd hadd hnotadd) (by omega)
  refine ⟨l, t, hprepared, ?_, fun _ => ?_⟩
  · rw [hspent, hsum]
  · rw [hsum]
    exact le_trans (by omega) (availableBytes_nonneg p)

/-! ## The accounts of the offer -/

/-- The accounts of the targets that may be kept are those of the offer. -/
theorem email_mem_offer (hcosts : req.Costs) (hp : w.ledger.profiles.find? userId = some p)
    (hpv : w.previewBulk true userId order req now = .ok pv)
    (hkeep : ∀ t ∈ req.targets, keep t = true → emailKey t.email ∈ pv.processEmails.map emailKey)
    (hit : it ∈ w.entryItems userId (w.own userId (req.keeping keep)) now) : it.email ∈ pv.processEmails := by
  obtain ⟨-, hemails, -⟩ := previewBulk_offers hcosts hp hpv
  obtain ⟨hentry, t, ht, hkept, hkey⟩ := entryItems_keeping hit
  have hnamed := hkeep t ht hkept
  rw [hkey, List.mem_map] at hnamed
  obtain ⟨email, hemail, hsame⟩ := hnamed
  have hoffered := hemail
  rw [hemails] at hoffered
  obtain ⟨it', hit', rfl⟩ := List.mem_map.1 hoffered
  have hentry' := mem_entryItems_of_mem (mem_priceables_of_offered hit')
  rwa [email_eq_of_key hentry hentry' hsame.symm]

/-- With all their targets kept, the accounts of the offer are the ones priced again. -/
theorem perm_offer (hcosts : req.Costs) (hp : w.ledger.profiles.find? userId = some p)
    (hpv : w.previewBulk true userId order req now = .ok pv)
    (hkeep : ∀ t ∈ req.targets, keep t = true → emailKey t.email ∈ pv.processEmails.map emailKey)
    (hall : ∀ t ∈ req.targets, emailKey t.email ∈ pv.processEmails.map emailKey → keep t = true) :
    ((w.priceables userId order' (w.own userId (req.keeping keep)) now).map BulkPriceable.email).Perm
      pv.processEmails := by
  obtain ⟨-, hemails, -⟩ := previewBulk_offers hcosts hp hpv
  have hnodup : pv.processEmails.Nodup := hemails ▸ nodup_offered w userId order req now p
  refine List.perm_of_nodup_nodup_toFinset_eq (nodup_priceables ..) hnodup ?_
  rw [toFinset_priceables]
  ext email
  rw [mem_accounts, List.mem_toFinset]
  constructor
  · rintro ⟨it, hit, rfl⟩
    exact email_mem_offer hcosts hp hpv hkeep hit
  · intro hemail
    have hoffered := hemail
    rw [hemails] at hoffered
    obtain ⟨it, hit, rfl⟩ := List.mem_map.1 hoffered
    refine ⟨it, mem_entryItems_keeping (mem_entryItems_of_mem (mem_priceables_of_offered hit)) ?_, rfl⟩
    intro t ht hkey
    refine hall t ht ?_
    rw [hkey]
    exact List.mem_map_of_mem hemail

/-- An accepted batch was priced, and its ticket reserved. -/
theorem prepareBulk_ok {l : Ledger} {sent : BulkClientUpdateRequest} {ticket : BulkTicket} (hcosts : req.Costs)
    (hp : w.ledger.profiles.find? userId = some p)
    (h : w.prepareBulk userId order req now = .ok (l, sent, ticket)) :
    sent = w.own userId req ∧ ∃ t,
      priceBulk p (w.own userId req) (w.priceables userId order (w.own userId req) now) now = .ok t ∧
        w.ledger.reserveBulk { t with userId := userId } = .ok l := by
  unfold World.prepareBulk at h
  rw [hp] at h
  simp only at h
  split at h
  · cases h
  rw [if_neg (mt scope_free.1 (not_not.2 hcosts))] at h
  split at h
  · cases h
  rename_i t ht
  split at h
  · cases h
  rename_i hl
  cases h
  exact ⟨rfl, t, ht, hl⟩

/-- A batch that costs nothing is accepted. -/
theorem prepareBulk_free (hfree : ¬req.Costs) (hp : w.ledger.profiles.find? userId = some p)
    (hallowed : bulkOpAllowed p req = .ok ()) :
    ∃ sent t, w.prepareBulk userId order req now = .ok (w.ledger, sent, t) ∧ ¬sent.Costs := by
  unfold World.prepareBulk
  rw [hp]
  simp only
  rw [hallowed]
  simp only
  rw [if_pos (scope_free.2 hfree)]
  split
  · exact ⟨_, _, rfl, hfree⟩
  · exact ⟨_, _, rfl, hfree⟩

theorem quotedSum_of_free {isReseller : Bool} (h : ¬(isReseller = true ∧ req.Costs)) :
    w.quotedSum isReseller userId order req now = 0 := by
  unfold World.quotedSum
  split
  · rfl
  · exact if_neg h

theorem quotedSum_of_costs (hcosts : req.Costs) (hp : w.ledger.profiles.find? userId = some p) :
    w.quotedSum true userId order req now =
      ((w.priceables userId order req now).map (·.quotedDelta p now)).sum := by
  unfold World.quotedSum
  rw [hp]
  exact if_pos ⟨rfl, hcosts⟩

/-! ## The offer can be taken -/

/-- A batch that is priced is accepted in every part that was offered. -/
theorem reserves_offer (hamount : FitsInt64 req.amountBytes) (hcolumns : w.Columns userId) (hcosts : req.Costs)
    (hp : w.ledger.profiles.find? userId = some p)
    (hpv : w.previewBulk true userId order req now = .ok pv) (hroom : w.RoomFor userId req now)
    (hall : w.AllQuoted userId req now pv.processEmails)
    (hrefunds : w.RefundsFit userId req now pv.processEmails)
    (hoffered : ∀ it ∈ w.entryItems userId (w.own userId (req.keeping keep)) now,
      it.email ∈ pv.processEmails) :
    ∃ l t, w.prepareBulk userId order' (req.keeping keep) now =
        .ok (l, w.own userId (req.keeping keep), t) ∧
      l.spentOf userId = w.ledger.spentOf userId +
        w.quotedSum true userId order' (w.own userId (req.keeping keep)) now ∧
      (p.unlimited = false →
        w.quotedSum true userId order' (w.own userId (req.keeping keep)) now ≤ availableBytes p) := by
  rw [quotedSum_of_costs (show (w.own userId (req.keeping keep)).Costs from hcosts) hp]
  rcases hcosts with hop | hop
  · exact reserves_addTraffic hop hamount hp hpv hall hroom hoffered
  · exact reserves_subTraffic hop hamount hcolumns hp hpv hrefunds hoffered

theorem honest_of_room {isReseller : Bool} (hamount : FitsInt64 req.amountBytes)
    (hcolumns : w.Columns userId) (hpv : w.previewBulk isReseller userId order req now = .ok pv)
    (hroom : isReseller = true → w.RoomFor userId req now ∧ w.AllQuoted userId req now pv.processEmails ∧
      w.RefundsFit userId req now pv.processEmails) :
    PreviewHonest w isReseller userId order' req now pv := by
  cases isReseller with
  | false =>
      cases hpv
      refine ⟨fun keep _ => ⟨w.ledger, _, _, rfl, ?_, ?_, ?_⟩, ?_⟩
      · rw [quotedSum_of_free (by simp), Int.add_zero]
      · intro p hp hu
        rw [quotedSum_of_free (by simp)]
      · intro h
        cases h
      · intro h
        cases h
  | true =>
      obtain ⟨p, hp, hallowed, havailable⟩ := previewBulk_profile hpv
      obtain ⟨hspace, hquoted, hrefunds⟩ := hroom rfl
      by_cases hcosts : req.Costs
      · constructor
        · intro keep hkeep
          obtain ⟨l, t, hprepared, hspent, hwithin⟩ := reserves_offer hamount hcolumns hcosts hp hpv hspace
            hquoted hrefunds fun it hit => email_mem_offer hcosts hp hpv hkeep hit
          refine ⟨l, _, t, hprepared, hspent, ?_, fun _ _ hall => perm_offer hcosts hp hpv hkeep hall⟩
          intro p' hp' hu
          rw [hp] at hp'
          cases hp'
          rw [havailable]
          exact hwithin hu
        · intro haffordable
          obtain ⟨-, hemails, hall⟩ := previewBulk_offers hcosts hp hpv
          have hwhole : req.keeping (fun _ => true) = req := by
            rw [BulkClientUpdateRequest.keeping, List.filter_true]
          -- every account was offered
          have hoffered : ∀ it ∈ w.entryItems userId (w.own userId (req.keeping fun _ => true)) now,
              it.email ∈ pv.processEmails := by
            intro it hit
            rw [hwhole] at hit
            obtain ⟨it', hit', hemail⟩ := exists_priceable order hit
            rw [← hemail, hemails]
            exact List.mem_map_of_mem ((hall haffordable).mem_iff.2 hit')
          obtain ⟨l, t, hprepared, -⟩ := reserves_offer hamount hcolumns hcosts hp hpv hspace hquoted hrefunds
            hoffered
          rw [hwhole] at hprepared
          exact ⟨_, hprepared⟩
      · constructor
        · intro keep _
          obtain ⟨sent, t, hprepared, hfree⟩ := prepareBulk_free (show ¬(req.keeping keep).Costs from hcosts)
            hp hallowed
          refine ⟨w.ledger, sent, t, hprepared, ?_, ?_, fun _ h => absurd h hcosts⟩
          · rw [quotedSum_of_free fun h => hfree h.2, Int.add_zero]
          · intro p' hp' hu
            rw [quotedSum_of_free fun h => hfree h.2, havailable]
            exact availableBytes_nonneg p
        · intro _
          obtain ⟨sent, t, hprepared, -⟩ := prepareBulk_free hcosts hp hallowed
          exact ⟨_, hprepared⟩

/-! ## Past the largest int64 it cannot -/

omit [Runtime] in
/-- A reservation that debits found room for itself. -/
theorem room_of_reserveBulk {l : Ledger} {t : BulkTicket} {items : List BulkPriceable}
    (hp : w.ledger.profiles.find? userId = some p) (ht : priceBulk p req items now = .ok t)
    (hdebit : 0 < t.deltaSpent) (h : w.ledger.reserveBulk { t with userId := userId } = .ok l) :
    p.unlimited = true ∨ p.spentBytes + t.deltaSpent ≤ p.allowanceBytes := by
  have hactive : t.active = true := by
    by_contra hinactive
    rw [priceBulk_inactive ht (by simpa using hinactive)] at hdebit
    exact lt_irrefl 0 hdebit
  have hticket : ({ t with userId := userId } : BulkTicket).active = true := hactive
  obtain ⟨l₁, hmoved, -⟩ := Ledger.reserveBulk_ok hticket h
  obtain ⟨p', hp', hroom⟩ := (Ledger.addSpent_ok hmoved).2 hdebit
  rw [hp] at hp'
  cases hp'
  exact hroom

/-- Where the first account is paid for, an account is offered. -/
theorem offered_pos (hfits : FitsInt64 req.amountBytes)
    (hcost : ∀ it ∈ byEmail (w.priceables userId order (w.own userId req) now),
      it.quotedDelta p now = req.amountBytes)
    (hone : req.amountBytes ≤ availableBytes p)
    (hsome : 0 < (byEmail (w.priceables userId order (w.own userId req) now)).length) :
    0 < (w.offered userId order req now p).length := by
  unfold World.offered
  cases hitems : byEmail (w.priceables userId order (w.own userId req) now) with
  | nil =>
      rw [hitems] at hsome
      exact absurd hsome (lt_irrefl 0)
  | cons it items =>
      have hfirst : it.quotedDelta p now = req.amountBytes := by
        refine hcost it ?_
        rw [hitems]
        exact List.mem_cons_self
      have htaken : ∀ l ∈ p.limit, int64 (0 + it.quotedDelta p now) ≤ l := by
        rw [← forall_limit, hfirst, Int.zero_add, int64_of_fits hfits]
        exact Or.inr hone
      rw [takeWithin, if_pos htaken, List.length_cons]
      exact Nat.succ_pos _

/-- The ticket of an accepted offer is the amount for each of its accounts, and an int64. -/
theorem offer_cost {t : BulkTicket} (hop : req.op = .addTraffic) (hpos : 0 < req.amountBytes)
    (hamount : FitsInt64 req.amountBytes)
    (ht : priceBulk p (w.own userId (req.keeping keep))
      (w.priceables userId order' (w.own userId (req.keeping keep)) now) now = .ok t) :
    req.amountBytes * (w.priceables userId order' (w.own userId (req.keeping keep)) now).length ≤ maxInt64 ∧
      t.deltaSpent =
        req.amountBytes * (w.priceables userId order' (w.own userId (req.keeping keep)) now).length := by
  have hmax : req.amountBytes *
      (w.priceables userId order' (w.own userId (req.keeping keep)) now).length ≤ maxInt64 := by
    by_contra hover
    have hadd : (w.own userId (req.keeping keep)).op = .addTraffic := hop
    rw [priceBulk_of_lt hadd hpos (not_le.1 hover)] at ht
    cases ht
  refine ⟨hmax, ?_⟩
  obtain ⟨-, -, hquoted⟩ := priceBulk_quote ht (nodup_priceables ..)
  have hsum := sum_of_const fun it hit => (quotedDelta_addTraffic hop hpos hamount
    (mem_entryItems_of_priceable hit) ((hquoted it hit).imp fun _ h => h.1)).1
  have hnonneg : 0 ≤ req.amountBytes *
      ((w.priceables userId order' (w.own userId (req.keeping keep)) now).length : Int) :=
    Int.mul_nonneg hpos.le (by omega)
  unfold maxInt64 at hmax
  rw [(priceBulk_charges ht).2, hsum]
  exact int64_of_fits ⟨by omega, by omega⟩

/-- Where one more account than the balance pays for wraps, more are offered than an
int64 holds the price of. -/
theorem offered_wraps (hpos : 0 < req.amountBytes) (hlimited : p.unlimited = false)
    (hcost : ∀ it ∈ byEmail (w.priceables userId order (w.own userId req) now),
      it.quotedDelta p now = req.amountBytes)
    (hone : req.amountBytes ≤ availableBytes p)
    (hover : maxInt64 < req.amountBytes * min
      ((byEmail (w.priceables userId order (w.own userId req) now)).length : Int)
      (availableBytes p / req.amountBytes + 1)) :
    maxInt64 < req.amountBytes * (w.offered userId order req now p).length := by
  have hlimit : availableBytes p < 2 ^ 63 := by
    unfold availableBytes
    rw [if_neg (by simp [hlimited])]
    have := (int64_fits (p.allowanceBytes - max 0 p.spentBytes)).2
    omega
  have hwraps := takeWithin_const_wraps (k := 0) hpos hcost hlimit hone
    (by rw [Int.mul_zero]; exact availableBytes_nonneg p)
    (by rw [Int.zero_add]; unfold maxInt64 at hover; omega) (le_refl 0)
  rw [Int.zero_add, Int.mul_zero] at hwraps
  unfold World.offered maxInt64
  rw [ResellerProfile.limit, if_neg (by simp [hlimited])]
  exact lt_of_lt_of_le (by norm_num) hwraps

theorem room_of_honest (hamount : FitsInt64 req.amountBytes) (hcolumns : w.Columns userId)
    (hpv : w.previewBulk true userId order req now = .ok pv)
    (h : PreviewHonest w true userId order' req now pv) : w.RoomFor userId req now := by
  intro hop p hp n hsome
  have hcosts : req.Costs := Or.inl hop
  obtain ⟨p', hp', hallowed, -⟩ := previewBulk_profile hpv
  rw [hp] at hp'
  cases hp'
  have hpos := amount_pos hcosts hallowed
  obtain ⟨hpreviewed, hemails, -⟩ := previewBulk_offers hcosts hp hpv
  have hcard : (byEmail (w.priceables userId order (w.own userId req) now)).length = n := by
    rw [(perm_byEmail _).length_eq, length_priceables]
  have hcost : ∀ it ∈ byEmail (w.priceables userId order (w.own userId req) now),
      it.quotedDelta p now = req.amountBytes ∧ (p.unlimited = false → req.amountBytes ≤ availableBytes p) := by
    intro it hit
    replace hit := (perm_byEmail _).mem_iff.1 hit
    exact quotedDelta_addTraffic hop hpos hamount (mem_entryItems_of_mem hit) (hpreviewed it hit)
  -- the offer taken as a whole
  obtain ⟨keep, hkeep, hall⟩ : ∃ keep : BulkClientTarget → Bool,
      (∀ t ∈ req.targets, keep t = true → emailKey t.email ∈ pv.processEmails.map emailKey) ∧
        ∀ t ∈ req.targets, emailKey t.email ∈ pv.processEmails.map emailKey → keep t = true :=
    ⟨fun t => decide (emailKey t.email ∈ pv.processEmails.map emailKey),
      fun t _ ht => of_decide_eq_true ht, fun t _ ht => decide_eq_true ht⟩
  obtain ⟨l, sent, ticket, hprepared, -, -, hperm⟩ := h.offer keep hkeep
  have hkept : (req.keeping keep).Costs := hcosts
  obtain ⟨rfl, t, ht, hreserved⟩ := prepareBulk_ok hkept hp hprepared
  obtain ⟨hmax, hdelta⟩ := offer_cost hop hpos hamount ht
  have hlength : (w.priceables userId order' (w.own userId (req.keeping keep)) now).length =
      (w.offered userId order req now p).length := by
    have := (hperm rfl hcosts hall).length_eq
    rwa [hemails, List.length_map, List.length_map] at this
  rw [hlength] at hmax hdelta
  cases hu : p.unlimited with
  | true =>
      rw [if_pos rfl, ← hcard]
      unfold World.offered at hmax
      rw [ResellerProfile.limit, if_pos hu, takeWithin_none] at hmax
      exact hmax
  | false =>
      rw [if_neg (by decide)]
      obtain ⟨it, hit⟩ := List.exists_mem_of_length_pos (hcard.symm ▸ hsome)
      have hone := (hcost it hit).2 hu
      constructor
      · have hsold := offered_pos hamount (fun it hit => (hcost it hit).1) hone (hcard.symm ▸ hsome)
        have hdebit : 0 < t.deltaSpent := by
          rw [hdelta]
          exact Int.mul_pos hpos (by omega)
        have hallowance := (hcolumns.allowance p hp).1
        rcases room_of_reserveBulk hp ht hdebit hreserved with h | h
        · rw [hu] at h
          cases h
        · omega
      · by_contra hover
        rw [← hcard] at hover
        have hwraps := offered_wraps hpos hu (fun it hit => (hcost it hit).1) hone (not_le.1 hover)
        omega

/-! ## Nor where a target is not quoted, or the refunds wrap -/

/-- A target that is taken alone is priced. -/
theorem allQuoted_of_honest (h : PreviewHonest w true userId order' req now pv) :
    w.AllQuoted userId req now pv.processEmails := by
  intro hop p hp it hit hemail
  obtain ⟨t, ht, hlead⟩ := mem_leads.1 hit
  have hself : decide (t = t) = true := decide_eq_true rfl
  obtain ⟨hentry, hkey⟩ : it ∈ w.entryItems userId (w.own userId (req.keeping fun t' => decide (t' = t))) now ∧
      emailKey t.email = emailKey it.email := lead_keeping ht hself hlead
  have hkeep : ∀ t' ∈ req.targets, decide (t' = t) = true →
      emailKey t'.email ∈ pv.processEmails.map emailKey := by
    intro t' _ hsame
    rw [of_decide_eq_true hsame, hkey]
    exact List.mem_map_of_mem hemail
  obtain ⟨l, sent, ticket, hprepared, -⟩ := h.offer (fun t' => decide (t' = t)) hkeep
  have hkept : (req.keeping fun t' => decide (t' = t)).Costs := Or.inl hop
  obtain ⟨rfl, priced, hpriced, -⟩ := prepareBulk_ok hkept hp hprepared
  obtain ⟨-, -, hquoted⟩ := priceBulk_quote hpriced (nodup_priceables ..)
  -- the account is priced as this target, the only one
  obtain ⟨it', hit', -⟩ := exists_priceable order' hentry
  obtain ⟨t', -, hsame, hlead'⟩ := exists_lead hit'
  rw [of_decide_eq_true hsame, hlead] at hlead'
  cases hlead'
  exact (hquoted it hit').imp fun _ hq => hq.1

omit [Runtime] in
/-- A reservation moves the balance by what its ticket says. -/
theorem spentOf_reserveBulk {l : Ledger} {t : BulkTicket} {items : List BulkPriceable}
    (hp : w.ledger.profiles.find? userId = some p) (ht : priceBulk p req items now = .ok t)
    (h : w.ledger.reserveBulk { t with userId := userId } = .ok l) :
    l.spentOf userId = w.ledger.spentOf userId + t.deltaSpent := by
  by_cases hactive : t.active = true
  · have hticket : ({ t with userId := userId } : BulkTicket).active = true := hactive
    obtain ⟨l₁, hmoved, rfl⟩ := Ledger.reserveBulk_ok hticket h
    obtain ⟨rfl, -⟩ := Ledger.addSpent_ok hmoved
    rw [Ledger.spentOf, Ledger.writeBulkCharges_profiles]
    show (w.ledger.restoreSpent userId t.deltaSpent).spentOf userId = _
    rw [Ledger.spentOf_restoreSpent (by rw [hp]; rfl), if_pos rfl]
  · have hinactive : t.active = false := by simpa using hactive
    unfold Ledger.reserveBulk at h
    rw [if_pos (by simp [hinactive])] at h
    cases h
    rw [priceBulk_inactive ht (by simp [hinactive]), Int.add_zero]

/-- Of the targets of an account in the offer one gives back the most. -/
theorem exists_largestRefund (hcosts : req.Costs) (hp : w.ledger.profiles.find? userId = some p)
    (hpv : w.previewBulk true userId order req now = .ok pv) {email : String} (hemail : email ∈ pv.processEmails) :
    ∃ t ∈ (w.own userId req).targets, ∃ it, w.lead userId (w.own userId req) now t = some it ∧
      it.email = email ∧
      (-it.quotedDelta p now).toNat = w.largestRefund userId (w.own userId req) now p email := by
  obtain ⟨-, hemails, -⟩ := previewBulk_offers hcosts hp hpv
  rw [hemails] at hemail
  obtain ⟨it, hit, rfl⟩ := List.mem_map.1 hemail
  have hwhole : req.keeping (fun _ => true) = req := by
    rw [BulkClientUpdateRequest.keeping, List.filter_true]
  have hpriced : it ∈ w.priceables userId order (w.own userId (req.keeping fun _ => true)) now := by
    rw [hwhole]
    exact mem_priceables_of_offered hit
  obtain ⟨t, ht, -, hlead⟩ := exists_lead hpriced
  have hsome : ((w.leads userId (w.own userId req) now).toFinset.filter (·.email = it.email)).Nonempty :=
    ⟨it, Finset.mem_filter.2 ⟨List.mem_toFinset.2 (mem_leads.2 ⟨t, ht, hlead⟩), rfl⟩⟩
  obtain ⟨best, hbest, hsup⟩ := Finset.exists_mem_eq_sup _ hsome
    fun it : BulkPriceable => (-it.quotedDelta p now).toNat
  obtain ⟨hmem, hsame⟩ := Finset.mem_filter.1 hbest
  obtain ⟨t', ht', hlead'⟩ := mem_leads.1 (List.mem_toFinset.1 hmem)
  exact ⟨t', ht', best, hlead', hsame, hsup.symm⟩

/-- The targets that give back the most can be taken, one for each account. -/
theorem refundsFit_of_honest (hamount : FitsInt64 req.amountBytes) (hcolumns : w.Columns userId)
    (hpv : w.previewBulk true userId order req now = .ok pv)
    (h : PreviewHonest w true userId order' req now pv) : w.RefundsFit userId req now pv.processEmails := by
  intro hop p hp
  have hcosts : req.Costs := Or.inr hop
  obtain ⟨p', hp', hallowed, -⟩ := previewBulk_profile hpv
  rw [hp] at hp'
  cases hp'
  have hpos := amount_pos hcosts hallowed
  have hlargest : ∀ email ∈ pv.processEmails, ∃ t ∈ (w.own userId req).targets, ∃ it,
      w.lead userId (w.own userId req) now t = some it ∧ it.email = email ∧
      (-it.quotedDelta p now).toNat = w.largestRefund userId (w.own userId req) now p email :=
    fun email hemail => exists_largestRefund hcosts hp hpv hemail
  have : Nonempty BulkClientTarget := ⟨⟨0, ""⟩⟩
  choose! best hbest using hlargest
  obtain ⟨keep, hkept⟩ : ∃ keep : BulkClientTarget → Bool, ∀ t, keep t = true ↔ t ∈ pv.processEmails.map best :=
    ⟨fun t => decide (t ∈ pv.processEmails.map best), fun t => decide_eq_true_iff⟩
  -- an account is priced as its best target
  have hpicked : ∀ it ∈ w.priceables userId order' (w.own userId (req.keeping keep)) now,
      it.email ∈ pv.processEmails ∧
        (-it.quotedDelta p now).toNat = w.largestRefund userId (w.own userId req) now p it.email := by
    intro it hit
    obtain ⟨t, -, ht, hlead⟩ := exists_lead hit
    obtain ⟨email, hemail, rfl⟩ := List.mem_map.1 ((hkept t).1 ht)
    obtain ⟨-, it', hlead', rfl, hmost⟩ := hbest email hemail
    rw [hlead] at hlead'
    cases hlead'
    exact ⟨hemail, hmost⟩
  have hthere : ∀ email ∈ pv.processEmails, email ∈
      (w.priceables userId order' (w.own userId (req.keeping keep)) now).map BulkPriceable.email := by
    intro email hemail
    obtain ⟨ht, it, hlead, rfl, -⟩ := hbest email hemail
    obtain ⟨hentry, -⟩ := lead_keeping ht ((hkept _).2 (List.mem_map_of_mem hemail)) hlead
    obtain ⟨it', hit', hsame⟩ := exists_priceable order' hentry
    exact List.mem_map.2 ⟨it', hit', hsame⟩
  have hkeep : ∀ t ∈ req.targets, keep t = true → emailKey t.email ∈ pv.processEmails.map emailKey := by
    intro t _ ht
    obtain ⟨email, hemail, rfl⟩ := List.mem_map.1 ((hkept t).1 ht)
    obtain ⟨hown, it, hlead, rfl, -⟩ := hbest email hemail
    rw [(lead_keeping hown ht hlead).2]
    exact List.mem_map_of_mem hemail
  obtain ⟨l, sent, ticket, hprepared, hspent, -⟩ := h.offer keep hkeep
  obtain ⟨rfl, t, ht, hreserved⟩ := prepareBulk_ok (show (req.keeping keep).Costs from hcosts) hp hprepared
  rw [quotedSum_of_costs (show (w.own userId (req.keeping keep)).Costs from hcosts) hp,
    spentOf_reserveBulk hp ht hreserved, (priceBulk_charges ht).2] at hspent
  have hback : ∀ it ∈ w.priceables userId order' (w.own userId (req.keeping keep)) now,
      it.quotedDelta p now ≤ 0 := fun it hit =>
    (quote_subTraffic hop hpos hamount hcolumns.charged (mem_entryItems_of_priceable hit)).2
  have hsum := neg_sum_of_nonpos hback
  have hrefunds : ((w.priceables userId order' (w.own userId (req.keeping keep)) now).map
      fun it => (-it.quotedDelta p now).toNat).sum =
        ∑ email ∈ pv.processEmails.toFinset, w.largestRefund userId (w.own userId req) now p email := by
    have haccounts : ((w.priceables userId order' (w.own userId (req.keeping keep)) now).map
        BulkPriceable.email).toFinset = pv.processEmails.toFinset := by
      ext email
      rw [List.mem_toFinset, List.mem_toFinset]
      refine ⟨fun hemail => ?_, hthere email⟩
      obtain ⟨it, hit, rfl⟩ := List.mem_map.1 hemail
      exact (hpicked it hit).1
    rw [← haccounts, List.sum_toFinset _ (nodup_priceables ..), List.map_map]
    exact congrArg List.sum (List.map_congr_left fun it hit => (hpicked it hit).2)
  have hlow := (int64_fits ((w.priceables userId order' (w.own userId (req.keeping keep)) now).map
    (·.quotedDelta p now)).sum).1
  omega

end

/-- A reseller has sold kim and ada 20 bytes each and has 10 left. -/
def twoSold (unlimited : Bool) : World where
  roster := {
    inbounds := .single { id := 1, settings := { clients := [
      stored [("email", .str "kim"), ("id", .str "u"), ("totalGB", .num ⟨20, true⟩), ("enable", .bool true)],
      stored [("email", .str "ada"), ("id", .str "v"), ("totalGB", .num ⟨20, true⟩), ("enable", .bool true)]] } }
    traffics := .empty }
  ledger := {
    profiles := .single { userId := 1, unlimited := unlimited, allowanceBytes := 50, spentBytes := 40 }
    clients := ⟨[
      { email := "kim", inboundId := 1, userId := 1, chargedBytes := 20 },
      { email := "ada", inboundId := 1, userId := 1, chargedBytes := 20 }], by decide⟩ }

/-- More traffic for both. -/
def moreForBoth (amount : Int) : BulkClientUpdateRequest :=
  { op := .addTraffic, amountBytes := amount, targets := [⟨1, "kim"⟩, ⟨1, "ada"⟩] }

/-- What the reseller is told about seven bytes each: they pay for ada alone. -/
def sevenForAda : BulkPreview where
  isReseller := true
  op := .addTraffic
  totalTargets := 2
  eligible := 2
  costBytes := 14
  availableBytes := 10
  shortBytes := 4
  canProcess := 1
  processEmails := ["ada"]

/-- What a reseller without a limit is told about 2⁶² bytes each. -/
def bothForFree : BulkPreview where
  isReseller := true
  op := .addTraffic
  totalTargets := 2
  eligible := 2
  affordable := true
  costBytes := -2 ^ 63
  canProcess := 2
  processEmails := ["ada", "kim"]

end Simorgh.Panel
