import Simorgh.Panel.Conservation

/-!
# Solvency of the reseller ledger

A reseller's priced operations, executed one at a time: each is a request run to
its end with the write it paid for in the middle, and traffic is counted between
them.  Accounts are taken as the traffic table has them, one row each, and an
operation writes the quota it was priced with.

`Covered` is the invariant: an account's charge plus its counters never falls
below its lifetime consumption plus its quota.  Creates, top-ups, resets, deletes
and ticks keep it; a deduct keeps it as long as it does not refund bytes that a
reset has hidden from the counters (`Deducts`).

* `solvent_run` — in every run whose deducts meet that condition, every account
  that has not overshot its quota is paid for, and the reseller's charges are
  within the spent counter.
* `reset_then_deduct_insolvent` — a reset followed by a deduct is not.
-/

namespace Simorgh.Panel

open Simorgh.Lib Simorgh.Lib.Json

/-! ## Requests run to their end -/

/-- A request with nothing in between its steps: the world it leaves, and whether
it succeeded. -/
def Task.run : Task → World → World × Bool
  | .done succeeded, w => (w, succeeded)
  | .read next, w => (next w).run w
  | .price i next, w => (next (quote i)).run w
  | .priceBulk p req items now next, w => (next (Panel.priceBulk p req items now)).run w
  | .reserve t next, w =>
      match w.ledger.reserve w.roster.traffics t with
      | .error _ => (next false).run w
      | .ok l => (next true).run { w with ledger := l }
  | .rollback t next, w => next.run { w with ledger := w.ledger.rollback t }
  | .reserveBulk t next, w =>
      match w.ledger.reserveBulk t with
      | .error _ => (next false).run w
      | .ok l => (next true).run { w with ledger := l }
  | .rollbackBulk t next, w => next.run { w with ledger := w.ledger.rollbackBulk t }
  | .settle owner email allTimeAtDelete known next, w =>
      next.run { w with ledger := w.ledger.settleDeleted owner email allTimeAtDelete known }
  | .rename oldEmail newEmail next, w =>
      match w.ledger.renameClient oldEmail newEmail with
      | .error _ => next.run w
      | .ok l => next.run { w with ledger := l }

/-! ## The operations -/

/-- The world with its traffic rows replaced. -/
def World.setTraffics (w : World) (traffics : Table ClientTraffic.email) : World :=
  { w with roster := { w.roster with traffics := traffics } }

/-- A priced operation of the reseller, or a tick of the traffic counters.
`written` says whether the client write went through; when it did not, the
request rolls back. -/
inductive Sale where
  | create (inboundId : Nat) (c : Client) (now : Int) (written : Bool)
  | update (inboundId : Nat) (oldEmail : String) (c : Client) (now : Int) (written : Bool)
  | reset (email : String) (now : Int) (written : Bool)
  | bulk (req : BulkClientUpdateRequest) (emails : List String) (now : Int) (written : Bool)
  | delete (email : String) (snapshot : Bool)
  | tick (email : String) (up down : Nat)

/-- The quota `addTraffic` or `subTraffic` gives an account; nothing for an account
the operation passes over. -/
def bulkTotal (req : BulkClientUpdateRequest) (total : Int) : Option Int :=
  match req.op with
  | .addTraffic => some (int64 (total + req.amountBytes))
  | .subTraffic => if total ≤ 0 then none else some (max 1 (int64 (total - req.amountBytes)))
  | _ => none

/-- The item an account makes in a batch. -/
def accountItem (w : World) (userId : Nat) (req : BulkClientUpdateRequest) (email : String) :
    Option BulkPriceable :=
  match w.ledger.clients.find? email, w.roster.traffics.find? email with
  | some rc, some ct =>
      if rc.userId = userId then
        (bulkTotal req ct.total).map fun newTotal =>
          { email := email, oldTotal := ct.total, newTotal := newTotal,
            charged := rc.chargedBytes, consumed := max 0 (int64 (ct.allTime - rc.allTimeBase)),
            expiry := ct.expiryTime }
      else none
  | _, _ => none

/-- A traffic row under a new quota. -/
def ClientTraffic.setTotal (total : Int) (ct : ClientTraffic) : ClientTraffic :=
  { ct with total := total }

@[simp] theorem ClientTraffic.setTotal_email (total : Int) (ct : ClientTraffic) :
    (ct.setTotal total).email = ct.email := rfl

/-- A traffic row after bytes were counted one to one. -/
def ClientTraffic.count (up down : Nat) (ct : ClientTraffic) : ClientTraffic :=
  { ct with
    up := int64 (ct.up + up)
    down := int64 (ct.down + down)
    allTime := int64 (ct.allTime + (up + down)) }

/-- The counters have room for these bytes. -/
def ClientTraffic.CountFits (up down : Nat) (ct : ClientTraffic) : Prop :=
  FitsInt64 (ct.up + up) ∧ FitsInt64 (ct.down + down) ∧ FitsInt64 (ct.allTime + (up + down))

theorem ClientTraffic.count_of_fits {up down : Nat} {ct : ClientTraffic} (h : ct.CountFits up down) :
    ct.count up down =
      { ct with up := ct.up + up, down := ct.down + down, allTime := ct.allTime + (up + down) } := by
  obtain ⟨hup, hdown, hall⟩ := h
  rw [count, int64_of_fits hup, int64_of_fits hdown, int64_of_fits hall]

@[simp] theorem ClientTraffic.count_email (up down : Nat) (ct : ClientTraffic) :
    (ct.count up down).email = ct.email := rfl

@[simp] theorem resetRow_email (ct : ClientTraffic) : (resetRow ct).email = ct.email := rfl

/-- The rows after a batch that landed. -/
def setTotals (traffics : Table ClientTraffic.email) (items : List BulkPriceable) :
    Table ClientTraffic.email :=
  items.foldl (fun traffics it =>
    traffics.modify it.email (ClientTraffic.setTotal it.newTotal)
      (ClientTraffic.setTotal_email it.newTotal)) traffics

/-- The rows an operation goes on to write if its request succeeded. -/
def World.thenWrite (r : World × Bool) (traffics : Table ClientTraffic.email) : World :=
  if r.2 then r.1.setTraffics traffics else r.1

section

variable [Runtime]

/-- The email names no account yet. -/
def World.emailFree (w : World) (email : String) : Bool :=
  w.roster.traffics.rows.all fun ct => decide (emailKey ct.email ≠ emailKey email)

/-- One operation. -/
def Sale.step (userId : Nat) (w : World) : Sale → World
  | .create inboundId c now written =>
      if c.email = "" ∨ w.emailFree c.email = false then w
      else
        let task := profileFor userId fun p =>
          purchase p userId inboundId c.email c.totalGB now written
        World.thenWrite (task.run w) (addClientStat w.roster.traffics inboundId c)
  | .update inboundId oldEmail c now written =>
      if (w.roster.traffics.find? oldEmail).isNone then w
      else
        let rows := if written then editStats w.roster.traffics inboundId oldEmail c else none
        let task := profileFor userId fun p =>
          edit p userId inboundId oldEmail c.totalGB c.email now rows.isSome
        World.thenWrite (task.run w) (rows.getD w.roster.traffics)
  | .reset email now written =>
      let written := written && (w.roster.traffics.find? email).isSome
      World.thenWrite ((prepareClientReset userId email now written).run w)
        (w.roster.traffics.modify email resetRow resetRow_email)
  | .bulk req emails now written =>
      let items := emails.dedup.filterMap (accountItem w userId req)
      let task := profileFor userId fun p =>
        match bulkOpAllowed p req with
        | .error _ => .done false
        | .ok _ => priceAndReserveBulk p userId req items now written
      World.thenWrite (task.run w) (setTotals w.roster.traffics items)
  | .delete email snapshot =>
      let used := w.roster.traffics.find? email
      let task := refundDeleted email ((used.map (·.allTime)).getD 0) (snapshot && used.isSome)
      (task.run (w.setTraffics (w.roster.traffics.erase email))).1
  | .tick email up down =>
      w.setTraffics (w.roster.traffics.modify email (ClientTraffic.count up down)
        (ClientTraffic.count_email up down))

end

/-! ## What is invariant -/

/-- The account is paid for: its charge and its counters together cover what it
has consumed in its life and its whole quota. -/
structure Covered (rc : ResellerClient) (ct : ClientTraffic) : Prop where
  base : rc.allTimeBase ≤ ct.allTime
  used : 0 ≤ ct.up + ct.down
  paid : (ct.allTime - rc.allTimeBase) + ct.total ≤ rc.chargedBytes + (ct.up + ct.down)

/-- Every account of the ledger is covered, no charge is negative, no account is
nameless, and every reseller's charges are within the spent counter. -/
structure World.Books (w : World) : Prop where
  covered : ∀ email rc ct, w.ledger.clients.find? email = some rc →
    w.roster.traffics.find? email = some ct → Covered rc ct
  charges : ∀ email rc, w.ledger.clients.find? email = some rc → 0 ≤ rc.chargedBytes
  named : w.ledger.clients.find? "" = none
  spent : ∀ u, (w.ledger.profiles.find? u).isSome → w.ledger.chargedOf u ≤ w.ledger.spentOf u

/-- An account that has not overshot is paid for down to its last byte. -/
theorem Covered.solvent {rc : ResellerClient} {ct : ClientTraffic} (h : Covered rc ct)
    (hfit : ct.up + ct.down ≤ ct.total) :
    (ct.allTime - rc.allTimeBase) + max 0 (ct.total - (ct.up + ct.down)) ≤ rc.chargedBytes := by
  have := h.paid
  omega

/-- A deduct that refunds nothing the counters do not show: the new quota or the
lifetime consumption is within the counters, or the charge is not lowered. -/
def Deducts (charged consumed used newTotal : Int) : Prop :=
  min newTotal consumed ≤ used ∨ charged ≤ max newTotal consumed

instance (charged consumed used newTotal : Int) :
    Decidable (Deducts charged consumed used newTotal) := inferInstanceAs (Decidable (_ ∨ _))

/-- A lowered quota meets the condition on deducts. -/
def DeductOk (rc : ResellerClient) (ct : ClientTraffic) (newTotal : Int) : Prop :=
  newTotal < ct.total →
    Deducts rc.chargedBytes (ct.allTime - rc.allTimeBase) (ct.up + ct.down) newTotal

instance (rc : ResellerClient) (ct : ClientTraffic) (newTotal : Int) :
    Decidable (DeductOk rc ct newTotal) := inferInstanceAs (Decidable (_ → _))

section

variable [Runtime]

/-- The condition on one operation: its sums stay inside int64, a lowered quota
meets the condition on deducts, and an account is not renamed onto an ownership
row left over from another one. -/
def Sale.Ok (userId : Nat) (w : World) : Sale → Prop
  | .create _ c _ _ => c.totalGB < 2 ^ 63
  | .update _ oldEmail c now _ =>
      ∀ p ∈ w.ledger.profiles.find? userId, ∀ rc ∈ w.ledger.clients.find? oldEmail,
        QuoteFits (updateQuoteInput p rc (w.rowOf oldEmail) c.totalGB now) ∧
        FitsInt64 ((w.rowOf oldEmail).allTime - rc.allTimeBase) ∧
        DeductOk rc (w.rowOf oldEmail) c.totalGB ∧
        (c.email = oldEmail ∨ w.ledger.clients.find? c.email = none)
  | .reset email now _ =>
      ∀ p ∈ w.ledger.profiles.find? userId, ∀ rc ∈ w.ledger.clients.find? email,
        QuoteFits (resetQuoteInput p rc (w.rowOf email) now) ∧
        FitsInt64 ((w.rowOf email).up + (w.rowOf email).down)
  | .bulk req emails now _ =>
      (∀ p ∈ w.ledger.profiles.find? userId,
        BulkFits p (emails.dedup.filterMap (accountItem w userId req)) now) ∧
      ∀ email ∈ emails, ∀ rc ∈ w.ledger.clients.find? email,
        ∀ ct ∈ w.roster.traffics.find? email,
          FitsInt64 (ct.allTime - rc.allTimeBase) ∧
          ∀ newTotal ∈ bulkTotal req ct.total, DeductOk rc ct newTotal
  | .delete email _ =>
      ∀ rc ∈ w.ledger.clients.find? email,
        rc.chargedBytes < 2 ^ 63 ∧ FitsInt64 ((w.rowOf email).allTime - rc.allTimeBase)
  | .tick email up down => ∀ ct ∈ w.roster.traffics.find? email, ct.CountFits up down

end

/-! ## What a batch does to the rows -/

namespace Ledger

variable {l l' : Ledger} {charges : List BulkCharge}

theorem writeBulkCharges_clients (restore : Bool) :
    (l.writeBulkCharges charges restore).clients =
      charges.foldl (fun clients c =>
        clients.modify c.email
          (ResellerClient.setCharged (if restore then c.prevCharged else c.newCharged))
          (ResellerClient.setCharged_email _)) l.clients := by
  induction charges generalizing l with
  | nil => rfl
  | cons c charges ih => exact ih

theorem find?_writeBulkCharges (restore : Bool) (hnodup : (charges.map BulkCharge.email).Nodup)
    (e : String) :
    (l.writeBulkCharges charges restore).clients.find? e = (l.clients.find? e).map fun rc =>
      ((charges.find? fun c => decide (c.email = e)).map fun c =>
        rc.setCharged (if restore then c.prevCharged else c.newCharged)).getD rc := by
  rw [writeBulkCharges_clients]
  exact Table.find?_foldl_modify (k := BulkCharge.email)
    (f := fun c => ResellerClient.setCharged (if restore then c.prevCharged else c.newCharged))
    (fun _ _ => rfl) hnodup l.clients e

/-- A committed batch overwrites the charges it was priced with. -/
theorem find?_reserveBulk {t : BulkTicket} (ha : t.active = !t.charges.isEmpty)
    (hnodup : (t.charges.map BulkCharge.email).Nodup) (h : l.reserveBulk t = .ok l') (e : String) :
    l'.clients.find? e = (l.clients.find? e).map fun rc =>
      rc.setCharged (chargeIn t.charges e rc.chargedBytes) := by
  have hread : ∀ rc : ResellerClient,
      ((t.charges.find? fun c => decide (c.email = e)).map fun c =>
        rc.setCharged c.newCharged).getD rc = rc.setCharged (chargeIn t.charges e rc.chargedBytes) := by
    intro rc
    unfold chargeIn
    cases t.charges.find? fun c => decide (c.email = e) <;> rfl
  cases hact : t.active with
  | false =>
      rw [reserveBulk, if_pos hact] at h
      cases h
      have hnil : t.charges = [] := by simpa [hact] using ha
      have hid : (fun rc : ResellerClient => rc.setCharged (chargeIn t.charges e rc.chargedBytes)) =
          id := by
        funext rc
        rw [← hread, hnil]
        rfl
      rw [hid, Option.map_id, id]
  | true =>
      obtain ⟨l₁, hl₁, rfl⟩ := reserveBulk_ok hact h
      obtain ⟨rfl, -⟩ := addSpent_ok hl₁
      rw [find?_writeBulkCharges false hnodup, restoreSpent_clients]
      simp only [Bool.false_eq_true, if_false, hread]

/-- Undoing a batch puts the charges back. -/
theorem find?_rollbackBulk {t : BulkTicket} (ha : t.active = !t.charges.isEmpty)
    (hnodup : (t.charges.map BulkCharge.email).Nodup) (h : l.reserveBulk t = .ok l')
    (hprev : ∀ c ∈ t.charges, ∀ rc, l.clients.find? c.email = some rc →
      rc.chargedBytes = c.prevCharged) (e : String) :
    (l'.rollbackBulk t).clients.find? e = l.clients.find? e := by
  have hfind := find?_reserveBulk ha hnodup h e
  cases hact : t.active with
  | false =>
      rw [reserveBulk, if_pos hact] at h
      cases h
      rw [rollbackBulk, if_pos hact]
  | true =>
      rw [rollbackBulk, if_neg (by simp [hact]), find?_writeBulkCharges true hnodup,
        restoreSpent_clients, hfind]
      cases hrc : l.clients.find? e with
      | none => rfl
      | some rc =>
          simp only [Option.map_some, if_true, Option.some.injEq]
          unfold chargeIn
          cases hc : t.charges.find? fun c => decide (c.email = e) with
          | none => rfl
          | some c =>
              have hmem := List.mem_of_find?_eq_some hc
              have hemail : c.email = e := by simpa using List.find?_some hc
              have := hprev c hmem rc (hemail ▸ hrc)
              simp only [Option.map_some, Option.getD_some, ResellerClient.setCharged, ← this]

end Ledger

theorem chargeIn_of_mem {charges : List BulkCharge} (hnodup : (charges.map BulkCharge.email).Nodup)
    {c : BulkCharge} (hc : c ∈ charges) (held : Int) :
    chargeIn charges c.email held = c.newCharged := by
  have hfind : charges.find? (fun c' => decide (c'.email = c.email)) = some c :=
    Table.find?_of_mem (t := (⟨charges, hnodup⟩ : Table BulkCharge.email)) hc
  rw [chargeIn, hfind]
  rfl

theorem find?_setTotals {items : List BulkPriceable}
    (hnodup : (items.map BulkPriceable.email).Nodup) (traffics : Table ClientTraffic.email)
    (e : String) :
    (setTotals traffics items).find? e = (traffics.find? e).map fun ct =>
      ((items.find? fun it => decide (it.email = e)).map fun it =>
        ct.setTotal it.newTotal).getD ct :=
  Table.find?_foldl_modify (k := BulkPriceable.email)
    (f := fun it => ClientTraffic.setTotal it.newTotal) (fun _ _ => rfl) hnodup traffics e

/-! ## Pricing keeps accounts covered -/

/-- An edit that meets the condition on deducts leaves the account covered by its
new charge. -/
theorem quote_covers {i : QuoteInput} {q : ChargeQuote} (used : Int) (hq : quote i = .ok q)
    (hc : i.create = false) (hr : i.reset = false) (hfit : QuoteFits i)
    (hpaid : i.consumed + i.oldTotal ≤ i.oldCharged + used)
    (hdeduct : i.newTotal < i.oldTotal → Deducts i.oldCharged i.consumed used i.newTotal) :
    i.consumed + i.newTotal ≤ q.newCharged + used := by
  have hdelta := quote_delta hq hc hfit
  cases quote_cases hq with
  | reset hr' => simp [hr] at hr'
  | create _ hc' => simp [hc] at hc'
  | topUp _ _ h0 hlt =>
      have hsub : int64 (i.newTotal - i.oldTotal) = i.newTotal - i.oldTotal :=
        int64_sub_of_nonneg h0 hfit.newTotal hfit.oldTotal.1 hfit.oldTotal.2
      simp only [withExpiry_deltaSpent, withExpiry_newCharged, hsub] at hdelta ⊢
      omega
  | deduct _ _ h0 _ hlt =>
      have hd : min i.newTotal i.consumed ≤ used ∨ i.oldCharged ≤ max i.newTotal i.consumed :=
        hdeduct hlt
      simp only [withExpiry_newCharged]
      omega
  | unchanged _ _ h0 heq =>
      simp only [withExpiry_newCharged]
      omega

/-- A reset buys what it clears. -/
theorem quote_reset {i : QuoteInput} {q : ChargeQuote} (hq : quote i = .ok q)
    (hr : i.reset = true) (hfit : QuoteFits i) :
    q.newCharged = i.oldCharged + max 0 i.clearedBytes := by
  have hsum := hfit.reset hr
  have hold := hfit.oldCharged
  cases quote_cases hq with
  | reset _ =>
      simp only [withExpiry_newCharged]
      exact int64_of_fits ⟨by omega, by omega⟩
  | create hr' => simp [hr] at hr'
  | topUp hr' => simp [hr] at hr'
  | deduct hr' => simp [hr] at hr'
  | unchanged hr' => simp [hr] at hr'

/-! ## Running the requests -/

theorem run_profileFor (u : Nat) (next : ResellerProfile → Task) (w : World) :
    (profileFor u next).run w =
      match w.ledger.profiles.find? u with
      | none => (w, false)
      | some p => (next p).run w := by
  simp only [profileFor, Task.run]
  cases w.ledger.profiles.find? u <;> rfl

theorem run_clientOwner (u : Nat) (email : String) (next : ResellerClient → Task) (w : World) :
    (clientOwner u email next).run w =
      match w.ledger.clients.find? email with
      | none => (w, false)
      | some rc => if rc.userId = u then (next rc).run w else (w, false) := by
  simp only [clientOwner, Task.run]
  cases w.ledger.clients.find? email with
  | none => rfl
  | some rc => by_cases h : rc.userId = u <;> simp [h, Task.run]

/-- What pricing and reserving comes to when nothing intervenes: refused without a
trace, rolled back, or carried on. -/
theorem run_priceAndReserve_cases (i : QuoteInput) (t : ChargeTicket) (written : Bool)
    (next : Task) (w : World) :
    (priceAndReserve i t written next).run w = (w, false) ∨
      ∃ q l, quote i = .ok q ∧ w.ledger.reserve w.roster.traffics { t with quote := q } = .ok l ∧
        (written = false ∧ (priceAndReserve i t written next).run w =
            ({ w with ledger := l.rollback { t with quote := q } }, false) ∨
          written = true ∧ (priceAndReserve i t written next).run w =
            next.run { w with ledger := l }) := by
  simp only [priceAndReserve, Task.run]
  cases quote i with
  | error e => exact Or.inl rfl
  | ok q =>
      simp only [Task.run]
      cases hres : w.ledger.reserve w.roster.traffics { t with quote := q } with
      | error e => exact Or.inl rfl
      | ok l =>
          refine Or.inr ⟨q, l, rfl, hres, ?_⟩
          cases written with
          | false => exact Or.inl ⟨rfl, rfl⟩
          | true => exact Or.inr ⟨rfl, rfl⟩

/-- The same for a batch. -/
theorem run_priceAndReserveBulk_cases (p : ResellerProfile) (u : Nat)
    (req : BulkClientUpdateRequest) (items : List BulkPriceable) (now : Int) (written : Bool)
    (w : World) :
    (priceAndReserveBulk p u req items now written).run w = (w, false) ∨
      ∃ t l, priceBulk p req items now = .ok t ∧
        w.ledger.reserveBulk { t with userId := u } = .ok l ∧
        (written = false ∧ (priceAndReserveBulk p u req items now written).run w =
            ({ w with ledger := l.rollbackBulk { t with userId := u } }, false) ∨
          written = true ∧ (priceAndReserveBulk p u req items now written).run w =
            ({ w with ledger := l }, true)) := by
  simp only [priceAndReserveBulk, Task.run]
  cases priceBulk p req items now with
  | error e => exact Or.inl rfl
  | ok t =>
      simp only [Task.run]
      cases hres : w.ledger.reserveBulk { t with userId := u } with
      | error e => exact Or.inl rfl
      | ok l =>
          refine Or.inr ⟨t, l, rfl, hres, ?_⟩
          cases written with
          | false => exact Or.inl ⟨rfl, rfl⟩
          | true => exact Or.inr ⟨rfl, rfl⟩

/-! ## Every reseller's books -/

namespace Ledger

variable {l l' l'' : Ledger} {u : Nat}

theorem expects_of_find? {email : String} {rc : ResellerClient} {before : Int} (after : Int)
    (h : l.clients.find? email = some rc) (hu : rc.userId = u) (hb : rc.chargedBytes = before) :
    l.Expects u email before after := by
  refine Or.inl ?_
  simp [h, hu, hb, Option.filter_some]

/-- The books of every reseller move together, up to what deletes write off. -/
def Keeps (l l' : Ledger) : Prop :=
  ∀ u, (l'.profiles.find? u).isSome → (l.profiles.find? u).isSome ∧ ∃ n, 0 ≤ n ∧ Moves u l l' n

theorem Keeps.trans (h : l.Keeps l') (h' : l'.Keeps l'') : l.Keeps l'' := by
  intro u hu
  obtain ⟨hu', n', hn', hm'⟩ := h' u hu
  obtain ⟨hu, n, hn, hm⟩ := h u hu'
  unfold Moves at hm hm'
  refine ⟨hu, n + n', by omega, ?_⟩
  unfold Moves
  omega

/-- The row a ticket is about is one of the reseller's own, with this charge. -/
def Holds (l : Ledger) (v : Nat) (email : String) (charged : Int) : Prop :=
  ∃ rc, l.clients.find? email = some rc ∧ rc.userId = v ∧ rc.chargedBytes = charged

theorem chargedOf_setCharged_other {v : Nat} {email : String} {charged charged' : Int}
    (h : l.Holds v email charged) (hne : v ≠ u) :
    (l.setCharged email charged').chargedOf u = l.chargedOf u := by
  obtain ⟨rc, hrc, hv, -⟩ := h
  rw [chargedOf_setCharged, hrc]
  simp [hv, hne]

theorem Holds.restoreSpent {v w : Nat} {email : String} {charged d : Int}
    (h : l.Holds v email charged) : (l.restoreSpent w d).Holds v email charged := by
  unfold Holds
  rw [restoreSpent_clients]
  exact h

theorem keeps_reserve {v : Nat} {traffics : Table ClientTraffic.email} {t : ChargeTicket}
    (ht : t.Sound v) (h : l.reserve traffics t = .ok l')
    (hrow : t.create = false → l.Holds v t.email t.prevCharged) : l.Keeps l' := by
  obtain ⟨l₁, hl₁, hprof, hcl⟩ := reserve_ok ht.active h
  obtain ⟨rfl, -⟩ := addSpent_ok hl₁
  intro u hp
  rw [hprof, isSome_restoreSpent] at hp
  refine ⟨hp, 0, le_refl 0, ?_⟩
  by_cases hv : v = u
  · subst hv
    refine reserve_moves hp ht h fun hc => ?_
    obtain ⟨rc, hrc, hu, hch⟩ := hrow hc
    exact expects_of_find? _ hrc hu hch
  · have hspent : l'.spentOf u = l.spentOf u := by
      rw [spentOf, hprof, ← spentOf, spentOf_restoreSpent hp, ht.userId, if_neg hv]
      omega
    unfold Moves
    rw [hspent]
    rcases hcl with ⟨-, hins⟩ | ⟨hc, rfl⟩
    · have htotal := Table.total_insert? hins (chargeTo u)
      have hnew : chargeTo u (newClient traffics t) = 0 := by
        simp [chargeTo, newClient, ht.userId, hv]
      rw [hnew, restoreSpent_clients] at htotal
      rw [chargedOf, htotal, chargedOf]
      omega
    · rw [chargedOf_setCharged_other (hrow hc).restoreSpent hv, chargedOf_congr restoreSpent_clients]
      omega

theorem isSome_rollback {t : ChargeTicket} :
    ((l.rollback t).profiles.find? u).isSome = (l.profiles.find? u).isSome := by
  unfold rollback
  split
  · rfl
  · simp only
    split
    · rw [isSome_dropClient, isSome_restoreSpent]
    · rw [isSome_setCharged, isSome_restoreSpent]

theorem keeps_rollback {v : Nat} {t : ChargeTicket} (ht : t.Sound v)
    (hrow : l.Holds v t.email t.quote.newCharged) : l.Keeps (l.rollback t) := by
  intro u hp
  rw [isSome_rollback] at hp
  refine ⟨hp, 0, le_refl 0, ?_⟩
  by_cases hv : v = u
  · subst hv
    obtain ⟨rc, hrc, hu, hch⟩ := hrow
    refine rollback_moves hp ht ?_
    split
    · simp [heldBy, hrc, chargeTo, hu, hch]
    · exact expects_of_find? _ hrc hu hch
  · unfold Moves rollback
    rw [if_neg (by simp [ht.active])]
    simp only
    split
    · rw [spentOf_dropClient, spentOf_restoreSpent hp, ht.userId, if_neg hv, chargedOf_dropClient,
        heldBy_of_clients restoreSpent_clients, chargedOf_congr restoreSpent_clients]
      obtain ⟨rc, hrc, hu, -⟩ := hrow
      simp [heldBy, hrc, chargeTo, hu, hv]
    · rw [spentOf_setCharged, spentOf_restoreSpent hp, ht.userId, if_neg hv,
        chargedOf_setCharged_other hrow.restoreSpent hv, chargedOf_congr restoreSpent_clients]
      omega

/-- A batch of one reseller's charges leaves another's alone. -/
theorem chargedOf_writeBulkCharges_other {v : Nat} (restore : Bool) {charges : List BulkCharge}
    (h : ∀ c ∈ charges, ∃ charged, l.Holds v c.email charged) (hne : v ≠ u) :
    (l.writeBulkCharges charges restore).chargedOf u = l.chargedOf u := by
  induction charges generalizing l with
  | nil => rfl
  | cons c charges ih =>
      obtain ⟨charged, hc⟩ := h c List.mem_cons_self
      rw [writeBulkCharges, List.foldl_cons, ← writeBulkCharges, ih, chargedOf_setCharged_other hc hne]
      intro c' hc'
      obtain ⟨charged', rc, hrc, hu, -⟩ := h c' (List.mem_cons_of_mem _ hc')
      unfold Holds
      rw [find?_setCharged, hrc]
      split
      · exact ⟨_, _, rfl, hu, rfl⟩
      · exact ⟨_, _, rfl, hu, rfl⟩

theorem isSome_reserveBulk {t : BulkTicket} (h : l.reserveBulk t = .ok l') :
    (l'.profiles.find? u).isSome = (l.profiles.find? u).isSome := by
  cases ha : t.active with
  | false =>
      rw [reserveBulk, if_pos ha] at h
      cases h
      rfl
  | true =>
      obtain ⟨l₁, hl₁, rfl⟩ := reserveBulk_ok ha h
      obtain ⟨rfl, -⟩ := addSpent_ok hl₁
      rw [isSome_writeBulkCharges, isSome_restoreSpent]

theorem keeps_reserveBulk {v : Nat} {t : BulkTicket} (ht : t.Sound v)
    (h : l.reserveBulk t = .ok l') (hrow : ∀ c ∈ t.charges, l.Holds v c.email c.prevCharged) :
    l.Keeps l' := by
  intro u hp
  rw [isSome_reserveBulk h] at hp
  refine ⟨hp, 0, le_refl 0, ?_⟩
  by_cases hv : v = u
  · subst hv
    refine reserveBulk_moves hp ht h fun c hc => ?_
    obtain ⟨rc, hrc, hu, hch⟩ := hrow c hc
    exact expects_of_find? _ hrc hu hch
  · cases ha : t.active with
    | false =>
        rw [reserveBulk, if_pos ha] at h
        cases h
        exact Moves.refl
    | true =>
        obtain ⟨l₁, hl₁, rfl⟩ := reserveBulk_ok ha h
        obtain ⟨rfl, -⟩ := addSpent_ok hl₁
        unfold Moves
        rw [spentOf_writeBulkCharges, spentOf_restoreSpent hp, ht.userId, if_neg hv,
          chargedOf_writeBulkCharges_other false (fun c hc => ⟨_, (hrow c hc).restoreSpent⟩) hv,
          chargedOf_congr restoreSpent_clients]
        omega

theorem keeps_rollbackBulk {v : Nat} {t : BulkTicket} (ht : t.Sound v)
    (hrow : ∀ c ∈ t.charges, l.Holds v c.email c.newCharged) : l.Keeps (l.rollbackBulk t) := by
  intro u hp
  have hp' : (l.profiles.find? u).isSome := by
    unfold rollbackBulk at hp
    split at hp
    · exact hp
    · rwa [isSome_writeBulkCharges, isSome_restoreSpent] at hp
  refine ⟨hp', 0, le_refl 0, ?_⟩
  by_cases hv : v = u
  · subst hv
    refine rollbackBulk_moves hp' ht fun c hc => ?_
    obtain ⟨rc, hrc, hu, hch⟩ := hrow c hc
    exact expects_of_find? _ hrc hu hch
  · unfold Moves rollbackBulk
    split
    · omega
    · rw [spentOf_writeBulkCharges, spentOf_restoreSpent hp', ht.userId, if_neg hv,
        chargedOf_writeBulkCharges_other true (fun c hc => ⟨_, (hrow c hc).restoreSpent⟩) hv,
        chargedOf_congr restoreSpent_clients]
      omega

theorem keeps_renameClient {oldEmail newEmail : String}
    (h : l.renameClient oldEmail newEmail = .ok l') (hprof : l'.profiles = l.profiles) :
    l.Keeps l' := by
  intro u hp
  rw [hprof] at hp
  exact ⟨hp, 0, le_refl 0, renameClient_moves h⟩

end Ledger

variable {u : Nat} {w : World}

theorem World.Books.keeps (h : w.Books) {l : Ledger} (hk : w.ledger.Keeps l) (u : Nat)
    (hp : (l.profiles.find? u).isSome) : l.chargedOf u ≤ l.spentOf u := by
  obtain ⟨hp, n, hn, hm⟩ := hk u hp
  have := h.spent u hp
  unfold Ledger.Moves at hm
  omega

/-- Replacing the ledger by one with the same rows. -/
theorem World.Books.withLedger (h : w.Books) {l : Ledger}
    (hfind : ∀ e, l.clients.find? e = w.ledger.clients.find? e) (hk : w.ledger.Keeps l) :
    World.Books { w with ledger := l } := by
  refine ⟨?_, ?_, ?_, h.keeps hk⟩
  · intro email rc ct hrc hct
    exact h.covered email rc ct ((hfind email).symm.trans hrc) hct
  · intro email rc hrc
    exact h.charges email rc ((hfind email).symm.trans hrc)
  · exact (hfind "").trans h.named

/-- A create that is rolled back leaves the books as they were. -/
theorem World.Books.rollback_create (h : w.Books) {t : ChargeTicket} {l : Ledger}
    (ht : t.Sound u) (hc : t.create = true)
    (hres : w.ledger.reserve w.roster.traffics t = .ok l) :
    World.Books { w with ledger := l.rollback t } := by
  have hkeep := Ledger.keeps_reserve ht hres (fun hc' => by simp [hc] at hc')
  have hback := Ledger.keeps_rollback (l := l) ht (by
    have hfind := (Ledger.find?_reserve_create ht.active hc hres).2 t.email
    rw [if_pos rfl] at hfind
    exact ⟨_, hfind, ht.userId, rfl⟩)
  exact h.withLedger (Ledger.find?_rollback_create ht.active hc hres) (hkeep.trans hback)

/-- So does an edit or a reset that is rolled back. -/
theorem World.Books.rollback_update (h : w.Books) {t : ChargeTicket} {l : Ledger}
    {rc : ResellerClient} (ht : t.Sound u) (hc : t.create = false)
    (hrc : w.ledger.clients.find? t.email = some rc)
    (hu : rc.userId = u) (hprev : rc.chargedBytes = t.prevCharged)
    (hres : w.ledger.reserve w.roster.traffics t = .ok l) :
    World.Books { w with ledger := l.rollback t } := by
  have hkeep := Ledger.keeps_reserve ht hres (fun _ => ⟨rc, hrc, hu, hprev⟩)
  have hback := Ledger.keeps_rollback (l := l) ht (by
    have hfind := Ledger.find?_reserve_update ht.active hc hres t.email
    rw [if_pos rfl, hrc, Option.map_some] at hfind
    exact ⟨_, hfind, hu, rfl⟩)
  exact h.withLedger (Ledger.find?_rollback_update ht.active hc hres hrc hprev) (hkeep.trans hback)

/-! ## One operation at a time -/

theorem World.thenWrite_false {r : World × Bool} (h : r.2 = false)
    (traffics : Table ClientTraffic.email) : World.thenWrite r traffics = r.1 := by
  simp [World.thenWrite, h]

theorem World.thenWrite_true {r : World × Bool} (h : r.2 = true)
    (traffics : Table ClientTraffic.email) :
    World.thenWrite r traffics = r.1.setTraffics traffics := by
  simp [World.thenWrite, h]

/-- The ledger an edit leaves: the charge it was quoted with, under the name the
account now has. -/
theorem run_edit_written {t : ChargeTicket} {l : Ledger} {rc : ResellerClient} {newEmail : String}
    (ha : t.active = true) (hc : t.create = false) (hold : t.email ≠ "")
    (hrc : w.ledger.clients.find? t.email = some rc)
    (hfree : newEmail = t.email ∨ w.ledger.clients.find? newEmail = none)
    (hres : w.ledger.reserve w.roster.traffics t = .ok l) :
    ∃ l', (Task.rename t.email newEmail (.done true)).run { w with ledger := l } =
        ({ w with ledger := l' }, true) ∧
      l.Keeps l' ∧
      ∀ e rc', l'.clients.find? e = some rc' →
        (newEmail ≠ "" ∧ e = newEmail ∨ newEmail = "" ∧ e = t.email) ∧
            rc'.chargedBytes = t.quote.newCharged ∧ rc'.allTimeBase = rc.allTimeBase ∨
          e ≠ t.email ∧ w.ledger.clients.find? e = some rc' := by
  have hfind := Ledger.find?_reserve_update ha hc hres
  have hrc' := hfind t.email
  rw [if_pos rfl, hrc, Option.map_some] at hrc'
  by_cases hnew : newEmail = ""
  · refine ⟨l, ?_, fun u hp => ⟨hp, 0, le_refl 0, Ledger.Moves.refl⟩, ?_⟩
    · simp [Task.run, Ledger.renameClient, hnew]
    · intro e rc₁ hrc₁
      by_cases he : e = t.email
      · rw [he, hrc'] at hrc₁
        cases hrc₁
        exact Or.inl ⟨Or.inr ⟨hnew, he⟩, rfl, rfl⟩
      · rw [hfind, if_neg he] at hrc₁
        exact Or.inr ⟨he, hrc₁⟩
  · have hfree' : newEmail = t.email ∨ l.clients.find? newEmail = none := by
      refine hfree.imp_right fun hnone => ?_
      rw [hfind, hnone]
      simp
    obtain ⟨l', hl', hprof, hfind'⟩ := Ledger.find?_renameClient hrc' hold hnew hfree'
    refine ⟨l', ?_, Ledger.keeps_renameClient hl' hprof, ?_⟩
    · simp [Task.run, hl']
    · intro e rc₁ hrc₁
      rw [hfind'] at hrc₁
      by_cases he : e = newEmail
      · rw [if_pos he] at hrc₁
        cases hrc₁
        exact Or.inl ⟨Or.inl ⟨hnew, he⟩, rfl, rfl⟩
      · rw [if_neg he] at hrc₁
        by_cases he' : e = t.email
        · simp [he'] at hrc₁
        · rw [if_neg he', hfind, if_neg he'] at hrc₁
          exact Or.inr ⟨he', hrc₁⟩

/-- The books after an edit, from what its two writes leave under each email. -/
theorem World.Books.edited (h : w.Books) {l' : Ledger} {rows : Table ClientTraffic.email}
    {oldEmail : String} {rc : ResellerClient} {ct : ClientTraffic} {c : Client} {charged : Int}
    (hcov : Covered rc ct) (hold : oldEmail ≠ "")
    (hfree : c.email = oldEmail ∨ w.ledger.clients.find? c.email = none) (hcharge : 0 ≤ charged)
    (hpaid : (ct.allTime - rc.allTimeBase) + c.totalGB ≤ charged + (ct.up + ct.down))
    (hrows : ∀ e, rows.find? e =
      if c.email ≠ "" ∧ e = c.email then some (updatedRow c ct)
      else if e = oldEmail then none else w.roster.traffics.find? e)
    (hfind : ∀ e rc', l'.clients.find? e = some rc' →
      (c.email ≠ "" ∧ e = c.email ∨ c.email = "" ∧ e = oldEmail) ∧
          rc'.chargedBytes = charged ∧ rc'.allTimeBase = rc.allTimeBase ∨
        e ≠ oldEmail ∧ w.ledger.clients.find? e = some rc')
    (hk : w.ledger.Keeps l') :
    World.Books (World.setTraffics { w with ledger := l' } rows) := by
  refine ⟨?_, ?_, ?_, h.keeps hk⟩
  · intro email rc₁ ct₁ (hrc₁ : l'.clients.find? email = some rc₁)
      (hct₁ : rows.find? email = some ct₁)
    rw [hrows] at hct₁
    rcases hfind email rc₁ hrc₁ with ⟨hname, hch, hbase⟩ | ⟨hne, hrc₁⟩
    · rcases hname with hname | ⟨hempty, hname⟩
      · rw [if_pos hname] at hct₁
        cases hct₁
        refine ⟨?_, hcov.used, ?_⟩
        · rw [hbase]
          exact hcov.base
        · rw [hbase, hch]
          exact hpaid
      · simp [hempty, hname] at hct₁
    · by_cases hnew : c.email ≠ "" ∧ email = c.email
      · rcases hfree with hsame | hnone
        · exact absurd (hnew.2.trans hsame) hne
        · rw [hnew.2, hnone] at hrc₁
          cases hrc₁
      · rw [if_neg hnew, if_neg hne] at hct₁
        exact h.covered email rc₁ ct₁ hrc₁ hct₁
  · intro email rc₁ (hrc₁ : l'.clients.find? email = some rc₁)
    rcases hfind email rc₁ hrc₁ with ⟨-, hch, -⟩ | ⟨-, hrc₁⟩
    · rw [hch]
      exact hcharge
    · exact h.charges email rc₁ hrc₁
  · show l'.clients.find? "" = none
    cases hnone : l'.clients.find? "" with
    | none => rfl
    | some rc₁ =>
        rcases hfind "" rc₁ hnone with ⟨⟨hne, heq⟩ | ⟨-, heq⟩, -⟩ | ⟨-, hrc₁⟩
        · exact absurd heq.symm hne
        · exact absurd heq.symm hold
        · rw [h.named] at hrc₁
          cases hrc₁

/-- The books after an account is settled. -/
theorem World.Books.settled (h : w.Books) {email : String} {rc : ResellerClient}
    {allTime : Int} {known : Bool} (hrc : w.ledger.clients.find? email = some rc)
    (hfit : known = true → rc.chargedBytes < 2 ^ 63 ∧ FitsInt64 (allTime - rc.allTimeBase)) :
    World.Books { w with ledger := w.ledger.settleDeleted rc email allTime known } := by
  have hclients : (w.ledger.settleDeleted rc email allTime known).clients =
      w.ledger.clients.erase email := by
    cases known with
    | false => rfl
    | true => rw [Ledger.settleDeleted_eq, Ledger.dropClient, Ledger.restoreSpent_clients]
  have hprofile : ∀ u, ((w.ledger.settleDeleted rc email allTime known).profiles.find? u).isSome =
      (w.ledger.profiles.find? u).isSome := by
    intro u
    cases known with
    | false => rfl
    | true => rw [Ledger.settleDeleted_eq, Ledger.isSome_dropClient, Ledger.isSome_restoreSpent]
  have hkeep : ∀ {e rc'}, (w.ledger.settleDeleted rc email allTime known).clients.find? e = some rc' →
      w.ledger.clients.find? e = some rc' := by
    intro e rc' hrc'
    rw [hclients, Table.find?_erase] at hrc'
    by_cases he : e = email
    · simp [he] at hrc'
    · rwa [if_neg he] at hrc'
  refine ⟨?_, ?_, ?_, ?_⟩
  · intro e rc' ct hrc' hct
    exact h.covered e rc' ct (hkeep hrc') hct
  · intro e rc' hrc'
    exact h.charges e rc' (hkeep hrc')
  · show (w.ledger.settleDeleted rc email allTime known).clients.find? "" = none
    rw [hclients, Table.find?_erase, h.named, ite_self]
  · refine h.keeps fun u hp => ?_
    rw [hprofile] at hp
    have hcharged := h.charges email rc hrc
    have hheld : w.ledger.heldBy u email = Ledger.chargeTo u rc := by simp [Ledger.heldBy, hrc]
    refine ⟨hp, _, ?_, Ledger.settleDeleted_moves hp hheld (.done true)
      (fun hk _ => ⟨hcharged, hfit hk⟩)⟩
    simp only [Task.writtenOff]
    by_cases hu : rc.userId = u
    · cases known <;> simp only [hu, if_true, Bool.false_eq_true, if_false] <;> omega
    · simp [hu]

/-- A batch that is rolled back leaves the books as they were. -/
theorem World.Books.rollback_bulk (h : w.Books) {t : BulkTicket} {l : Ledger}
    (ht : t.Sound u) (hact : t.active = !t.charges.isEmpty)
    (hprev : ∀ c ∈ t.charges, w.ledger.Holds u c.email c.prevCharged)
    (hres : w.ledger.reserveBulk t = .ok l) :
    World.Books { w with ledger := l.rollbackBulk t } := by
  have hkeep := Ledger.keeps_reserveBulk ht hres hprev
  have hback : l.Keeps (l.rollbackBulk t) := by
    refine Ledger.keeps_rollbackBulk ht fun c hc => ?_
    obtain ⟨rc, hrc, hu, -⟩ := hprev c hc
    have hfind := Ledger.find?_reserveBulk hact ht.emails hres c.email
    rw [hrc, Option.map_some, chargeIn_of_mem ht.emails hc] at hfind
    exact ⟨_, hfind, hu, rfl⟩
  refine h.withLedger (Ledger.find?_rollbackBulk hact ht.emails hres ?_) (hkeep.trans hback)
  intro c hc rc hrc
  obtain ⟨rc', hrc', -, hch⟩ := hprev c hc
  rw [hrc'] at hrc
  cases hrc
  exact hch

/-- The books after a batch that landed, from the cover of each account in it. -/
theorem World.Books.batched (h : w.Books) {l : Ledger} {items : List BulkPriceable}
    {cs : List BulkCharge} (hnodup : (items.map BulkPriceable.email).Nodup)
    (hfind : ∀ e, l.clients.find? e = (w.ledger.clients.find? e).map fun rc =>
      rc.setCharged (chargeIn cs e rc.chargedBytes))
    (hcs : ∀ c ∈ cs, c.email ∈ items.map BulkPriceable.email)
    (hitems : ∀ it ∈ items, ∃ rc ct, w.ledger.clients.find? it.email = some rc ∧
      w.roster.traffics.find? it.email = some ct ∧
      0 ≤ chargeIn cs it.email rc.chargedBytes ∧
      Covered (rc.setCharged (chargeIn cs it.email rc.chargedBytes)) (ct.setTotal it.newTotal))
    (hk : w.ledger.Keeps l) :
    World.Books (World.setTraffics { w with ledger := l } (setTotals w.roster.traffics items)) := by
  -- an account outside the batch keeps its charge
  have hother : ∀ e, (items.find? fun it => decide (it.email = e)) = none →
      ∀ held, chargeIn cs e held = held := by
    intro e he held
    have hnone : cs.find? (fun c => decide (c.email = e)) = none := by
      rw [List.find?_eq_none] at he ⊢
      intro c hc heq
      obtain ⟨it, hit, hemail⟩ := List.mem_map.1 (hcs c hc)
      refine he it hit ?_
      rw [hemail]
      exact heq
    rw [chargeIn, hnone]
    rfl
  have hin : ∀ {e it}, (items.find? fun it => decide (it.email = e)) = some it →
      it ∈ items ∧ it.email = e := fun hit =>
    ⟨List.mem_of_find?_eq_some hit, by simpa using List.find?_some hit⟩
  refine ⟨?_, ?_, ?_, h.keeps hk⟩
  · intro e rc ct (hrc : l.clients.find? e = some rc)
      (hct : (setTotals w.roster.traffics items).find? e = some ct)
    rw [hfind, Option.map_eq_some_iff] at hrc
    rw [find?_setTotals hnodup, Option.map_eq_some_iff] at hct
    obtain ⟨rc₀, hrc₀, rfl⟩ := hrc
    obtain ⟨ct₀, hct₀, rfl⟩ := hct
    cases hit : items.find? fun it => decide (it.email = e) with
    | none =>
        rw [hother e hit]
        exact h.covered e rc₀ ct₀ hrc₀ hct₀
    | some it =>
        obtain ⟨hmem, rfl⟩ := hin hit
        obtain ⟨rc₁, ct₁, hrc₁, hct₁, -, hcov⟩ := hitems it hmem
        rw [hrc₁] at hrc₀
        rw [hct₁] at hct₀
        cases hrc₀
        cases hct₀
        exact hcov
  · intro e rc (hrc : l.clients.find? e = some rc)
    rw [hfind, Option.map_eq_some_iff] at hrc
    obtain ⟨rc₀, hrc₀, rfl⟩ := hrc
    cases hit : items.find? fun it => decide (it.email = e) with
    | none =>
        rw [hother e hit]
        exact h.charges e rc₀ hrc₀
    | some it =>
        obtain ⟨hmem, rfl⟩ := hin hit
        obtain ⟨rc₁, ct₁, hrc₁, -, h0, -⟩ := hitems it hmem
        rw [hrc₁] at hrc₀
        cases hrc₀
        exact h0
  · show l.clients.find? "" = none
    rw [hfind, h.named]
    rfl

section

variable [Runtime]

/-- An email that names no account has no traffic row. -/
theorem World.find?_of_emailFree {email : String} (h : w.emailFree email = true) :
    w.roster.traffics.find? email = none := by
  rw [Table.find?_eq_none]
  intro ct hct heq
  have := List.all_eq_true.1 h ct hct
  simp [heq] at this

/-- A sold account starts out covered: it has used nothing and its quota is paid. -/
theorem World.Books.create (h : w.Books) {inboundId : Nat} {c : Client} {now : Int}
    {written : Bool} (hfit : c.totalGB < 2 ^ 63) :
    World.Books (Sale.step u w (.create inboundId c now written)) := by
  simp only [Sale.step]
  split
  · exact h
  rename_i hguard
  rw [not_or, Bool.not_eq_false] at hguard
  obtain ⟨hne, hfree⟩ := hguard
  have hrow := World.find?_of_emailFree hfree
  rw [run_profileFor]
  cases hp : w.ledger.profiles.find? u with
  | none => exact h
  | some p =>
      simp only [purchase]
      rcases run_priceAndReserve_cases
        { profile := p, create := true, newTotal := c.totalGB, nowMillis := now }
        { userId := u, email := c.email, inboundId := inboundId, create := true } written
        (.done true) w with hrun | ⟨q, l, hq, hres, hrun⟩
      · rw [hrun]
        exact h
      have hsound := chargeTicket_sound (u := u)
        (t := { userId := u, email := c.email, inboundId := inboundId, create := true }) hq
        ⟨hfit, by simp, by simp, by simp, by simpa using hfit, by simp⟩ rfl rfl rfl (by simp) rfl
      rcases hrun with ⟨-, hrun⟩ | ⟨-, hrun⟩
      · rw [hrun]
        exact h.rollback_create hsound rfl hres
      · rw [hrun]
        rw [World.thenWrite_true rfl]
        obtain ⟨-, hcharged, h0⟩ := quote_create hq rfl rfl
        obtain ⟨hnone, hfind⟩ := Ledger.find?_reserve_create rfl rfl hres
        have hkeep := Ledger.keeps_reserve hsound hres (fun hc => by simp at hc)
        refine ⟨?_, ?_, ?_, h.keeps hkeep⟩
        · intro email rc ct (hrc : l.clients.find? email = some rc)
            (hct : (addClientStat w.roster.traffics inboundId c).find? email = some ct)
          rw [hfind] at hrc
          rw [find?_addClientStat] at hct
          by_cases he : email = c.email
          · rw [if_pos he] at hrc hct
            rw [he, hrow, Option.getD_none] at hct
            cases hrc
            cases hct
            refine ⟨?_, ?_, ?_⟩
            · simp [Ledger.newClient, statRow, hrow]
            · simp [statRow]
            · simp [Ledger.newClient, statRow, hrow, hcharged]
          · rw [if_neg he] at hrc hct
            exact h.covered email rc ct hrc hct
        · intro email rc (hrc : l.clients.find? email = some rc)
          rw [hfind] at hrc
          by_cases he : email = c.email
          · rw [if_pos he] at hrc
            cases hrc
            simpa [Ledger.newClient, hcharged] using h0
          · rw [if_neg he] at hrc
            exact h.charges email rc hrc
        · show l.clients.find? "" = none
          rw [hfind, if_neg (Ne.symm hne)]
          exact h.named

/-- An edit keeps the account covered, under its old name or its new one. -/
theorem World.Books.update (h : w.Books) {inboundId : Nat} {oldEmail : String} {c : Client}
    {now : Int} {written : Bool}
    (hok : Sale.Ok u w (.update inboundId oldEmail c now written)) :
    World.Books (Sale.step u w (.update inboundId oldEmail c now written)) := by
  simp only [Sale.step]
  split
  · exact h
  rename_i hrow
  rw [Option.isNone_iff_eq_none, ← ne_eq, Option.ne_none_iff_exists'] at hrow
  obtain ⟨ct, hct⟩ := hrow
  rw [run_profileFor]
  cases hp : w.ledger.profiles.find? u with
  | none => exact h
  | some p =>
      simp only [edit]
      rw [run_clientOwner]
      cases hrc : w.ledger.clients.find? oldEmail with
      | none => exact h
      | some rc =>
          by_cases hu : rc.userId = u
          swap
          · simp only [hu, if_false]
            exact h
          have hrowOf : w.rowOf oldEmail = ct := by simp [World.rowOf, hct]
          obtain ⟨hfit, hcons, hdeduct, hfree⟩ := hok p (by rw [hp]; rfl) rc (by rw [hrc]; rfl)
          rw [hrowOf] at hfit hcons hdeduct
          have hold : oldEmail ≠ "" := by
            rintro rfl
            rw [h.named] at hrc
            cases hrc
          have hcov := h.covered oldEmail rc ct hrc hct
          simp only [hu, if_true, trafficOf, Task.run, hrowOf]
          generalize hrows : (if written then editStats w.roster.traffics inboundId oldEmail c
            else none) = rows?
          rcases run_priceAndReserve_cases (updateQuoteInput p rc ct c.totalGB now)
            { userId := u, email := oldEmail, inboundId := inboundId,
              prevCharged := rc.chargedBytes }
            rows?.isSome (.rename oldEmail c.email (.done true)) w with hrun | ⟨q, l, hq, hres, hrun⟩
          · rw [hrun]
            exact h
          have hsound := chargeTicket_sound (u := u)
            (t := { userId := u, email := oldEmail, inboundId := inboundId,
                    prevCharged := rc.chargedBytes }) hq hfit rfl rfl rfl (by simp [updateQuoteInput]) rfl
          rcases hrun with ⟨-, hrun⟩ | ⟨hwritten, hrun⟩
          · rw [hrun]
            exact h.rollback_update hsound rfl hrc hu rfl hres
          obtain ⟨rows, rfl⟩ := Option.isSome_iff_exists.1 hwritten
          have hedit : editStats w.roster.traffics inboundId oldEmail c = some rows := by
            cases written with
            | false => simp at hrows
            | true => simpa using hrows
          have hkeep := Ledger.keeps_reserve hsound hres (fun _ => ⟨rc, hrc, hu, rfl⟩)
          obtain ⟨l', hl', hkeep', hfind⟩ := run_edit_written rfl rfl hold hrc hfree hres
          rw [hrun, hl', World.thenWrite_true rfl, Option.getD_some]
          have hcharge := (quote_bound hq rfl rfl hfit).2.2.2
          have hconsumed : max 0 (int64 (ct.allTime - rc.allTimeBase)) =
              ct.allTime - rc.allTimeBase := by
            have := hcov.base
            rw [int64_of_fits hcons]
            omega
          have hpaid := quote_covers (ct.up + ct.down) hq rfl rfl hfit
            (by simpa [updateQuoteInput, hconsumed] using hcov.paid)
            (by simpa [updateQuoteInput, hconsumed, DeductOk] using hdeduct)
          simp only [updateQuoteInput, hconsumed] at hpaid
          exact h.edited hcov hold hfree hcharge hpaid (find?_editStats hct hold hedit) hfind
            (hkeep.trans hkeep')

/-- A paid reset keeps the account covered: what it clears from the counters it
adds to the charge. -/
theorem World.Books.reset (h : w.Books) {email : String} {now : Int} {written : Bool}
    (hok : Sale.Ok u w (.reset email now written)) :
    World.Books (Sale.step u w (.reset email now written)) := by
  simp only [Sale.step, prepareClientReset]
  rw [run_profileFor]
  cases hp : w.ledger.profiles.find? u with
  | none => exact h
  | some p =>
      simp only
      rw [run_clientOwner]
      cases hrc : w.ledger.clients.find? email with
      | none => exact h
      | some rc =>
          by_cases hu : rc.userId = u
          swap
          · simp only [hu, if_false]
            exact h
          obtain ⟨hfit, hused⟩ := hok p (by rw [hp]; rfl) rc (by rw [hrc]; rfl)
          simp only [hu, if_true, trafficOf, Task.run]
          rcases run_priceAndReserve_cases (resetQuoteInput p rc (w.rowOf email) now)
            { userId := u, email := email, inboundId := rc.inboundId,
              prevCharged := rc.chargedBytes }
            (written && (w.roster.traffics.find? email).isSome) (.done true) w
            with hrun | ⟨q, l, hq, hres, hrun⟩
          · rw [hrun]
            exact h
          have hsound := chargeTicket_sound (u := u)
            (t := { userId := u, email := email, inboundId := rc.inboundId,
                    prevCharged := rc.chargedBytes }) hq hfit rfl rfl rfl
            (by simp [resetQuoteInput]) rfl
          rcases hrun with ⟨-, hrun⟩ | ⟨hwritten, hrun⟩
          · rw [hrun]
            exact h.rollback_update hsound rfl hrc hu rfl hres
          rw [hrun, World.thenWrite_true rfl]
          have hkeep := Ledger.keeps_reserve hsound hres (fun _ => ⟨rc, hrc, hu, rfl⟩)
          have hfind := Ledger.find?_reserve_update rfl rfl hres
          have hcharged := quote_reset hq rfl hfit
          rw [Bool.and_eq_true] at hwritten
          obtain ⟨ct, hct⟩ := Option.isSome_iff_exists.1 hwritten.2
          have hrowOf : w.rowOf email = ct := by simp [World.rowOf, hct]
          rw [hrowOf] at hused hcharged
          simp only [resetQuoteInput, int64_of_fits hused] at hcharged
          refine ⟨?_, ?_, ?_, h.keeps hkeep⟩
          · intro e rc₁ ct₁ (hrc₁ : l.clients.find? e = some rc₁)
              (hct₁ : (w.roster.traffics.modify email resetRow resetRow_email).find? e = some ct₁)
            rw [hfind] at hrc₁
            rw [Table.find?_modify] at hct₁
            by_cases he : e = email
            · rw [if_pos he, he, hrc, Option.map_some] at hrc₁
              rw [if_pos he, he, hct, Option.map_some] at hct₁
              cases hrc₁
              cases hct₁
              have hcov := h.covered email rc ct hrc hct
              refine ⟨hcov.base, by simp [resetRow], ?_⟩
              have hpaid := hcov.paid
              have hpos := hcov.used
              simp only [resetRow, ResellerClient.setCharged_allTimeBase,
                ResellerClient.setCharged_chargedBytes, hcharged]
              omega
            · rw [if_neg he] at hrc₁ hct₁
              exact h.covered e rc₁ ct₁ hrc₁ hct₁
          · intro e rc₁ (hrc₁ : l.clients.find? e = some rc₁)
            rw [hfind] at hrc₁
            by_cases he : e = email
            · rw [if_pos he, he, hrc, Option.map_some] at hrc₁
              cases hrc₁
              have := h.charges email rc hrc
              simp only [ResellerClient.setCharged_chargedBytes, hcharged]
              omega
            · rw [if_neg he] at hrc₁
              exact h.charges e rc₁ hrc₁
          · show l.clients.find? "" = none
            rw [hfind, h.named]
            simp

/-- Counted traffic uses up what was paid for. -/
theorem World.Books.tick (h : w.Books) {email : String} {up down : Nat}
    (hok : Sale.Ok u w (.tick email up down)) : World.Books (Sale.step u w (.tick email up down)) := by
  refine ⟨?_, h.charges, h.named, h.spent⟩
  intro e rc ct hrc hct
  simp only [Sale.step, World.setTraffics] at hrc hct
  rw [Table.find?_modify] at hct
  by_cases he : e = email
  · rw [if_pos he, Option.map_eq_some_iff] at hct
    obtain ⟨ct₀, hct₀, rfl⟩ := hct
    obtain ⟨hbase, hused, hpaid⟩ := h.covered e rc ct₀ hrc hct₀
    rw [ClientTraffic.count_of_fits (hok ct₀ (he ▸ hct₀))]
    refine ⟨?_, ?_, ?_⟩
    · show rc.allTimeBase ≤ ct₀.allTime + (up + down)
      omega
    · dsimp only
      omega
    · dsimp only
      omega
  · rw [if_neg he] at hct
    exact h.covered e rc ct hrc hct

/-- A delete settles the account: the refund is at most its charge. -/
theorem World.Books.delete (h : w.Books) {email : String} {snapshot : Bool}
    (hok : Sale.Ok u w (.delete email snapshot)) :
    World.Books (Sale.step u w (.delete email snapshot)) := by
  have herase : World.Books (w.setTraffics (w.roster.traffics.erase email)) := by
    refine ⟨?_, h.charges, h.named, h.spent⟩
    intro e rc ct hrc (hct : (w.roster.traffics.erase email).find? e = some ct)
    rw [Table.find?_erase] at hct
    by_cases he : e = email
    · simp [he] at hct
    · rw [if_neg he] at hct
      exact h.covered e rc ct hrc hct
  simp only [Sale.step, refundDeleted, Task.run]
  have hsame : (w.setTraffics (w.roster.traffics.erase email)).ledger = w.ledger := rfl
  rw [hsame]
  cases hrc : w.ledger.clients.find? email with
  | none => exact herase
  | some rc =>
      simp only [Task.run, hsame]
      generalize hall : ((w.roster.traffics.find? email).map (·.allTime)).getD 0 = allTime
      generalize hknown : (snapshot && (w.roster.traffics.find? email).isSome) = known
      refine herase.settled hrc ?_
      intro hk
      obtain ⟨h63, hfit⟩ := hok rc (by rw [hrc]; rfl)
      refine ⟨h63, ?_⟩
      rw [← hall]
      cases hct : w.roster.traffics.find? email with
      | none => simp [hct, ← hknown] at hk
      | some ct => simpa [World.rowOf, hct] using hfit

omit [Runtime] in
/-- An item of a batch is one of the reseller's accounts, as the tables have it. -/
theorem accountItem_some {req : BulkClientUpdateRequest} {email : String} {it : BulkPriceable}
    (h : accountItem w u req email = some it) :
    it.email = email ∧ ∃ rc ct, w.ledger.clients.find? email = some rc ∧
      w.roster.traffics.find? email = some ct ∧ rc.userId = u ∧ it.charged = rc.chargedBytes ∧
      it.oldTotal = ct.total ∧ it.consumed = max 0 (int64 (ct.allTime - rc.allTimeBase)) ∧
      it.newTotal ∈ bulkTotal req ct.total := by
  unfold accountItem at h
  split at h
  · rename_i rc ct hrc hct
    split at h
    · rename_i hu
      rw [Option.map_eq_some_iff] at h
      obtain ⟨newTotal, hnew, rfl⟩ := h
      exact ⟨rfl, rc, ct, hrc, hct, hu, rfl, rfl, rfl, hnew⟩
    · cases h
  · cases h

omit [Runtime] in
theorem nodup_accountItems {req : BulkClientUpdateRequest} {emails : List String}
    (h : emails.Nodup) : ((emails.filterMap (accountItem w u req)).map BulkPriceable.email).Nodup := by
  induction emails with
  | nil => simp
  | cons e emails ih =>
      rw [List.nodup_cons] at h
      cases hit : accountItem w u req e with
      | none =>
          rw [List.filterMap_cons_none hit]
          exact ih h.2
      | some it =>
          rw [List.filterMap_cons_some hit, List.map_cons, List.nodup_cons]
          refine ⟨?_, ih h.2⟩
          rw [(accountItem_some hit).1, List.mem_map]
          rintro ⟨j, hj, heq⟩
          obtain ⟨e', he', hj'⟩ := List.mem_filterMap.1 hj
          rw [(accountItem_some hj').1] at heq
          exact h.1 (heq ▸ he')

omit [Runtime] in
/-- An account of a batch is covered by the charge it is quoted. -/
theorem accountItem_covers {p : ResellerProfile} {now : Int}
    {it : BulkPriceable} {q : ChargeQuote} {rc : ResellerClient} {ct : ClientTraffic}
    (hcov : Covered rc ct) (hq : quote (it.quoteInput p now) = .ok q)
    (hfit : QuoteFits (it.quoteInput p now)) (hcons : FitsInt64 (ct.allTime - rc.allTimeBase))
    (hcharged : it.charged = rc.chargedBytes) (htotal : it.oldTotal = ct.total)
    (hconsumed : it.consumed = max 0 (int64 (ct.allTime - rc.allTimeBase)))
    (hdeduct : DeductOk rc ct it.newTotal) :
    Covered (rc.setCharged q.newCharged) (ct.setTotal it.newTotal) := by
  have hbase := hcov.base
  have hused : it.consumed = ct.allTime - rc.allTimeBase := by
    rw [hconsumed, int64_of_fits hcons]
    omega
  have hpaid := quote_covers (ct.up + ct.down) hq rfl rfl hfit
    (by simpa [BulkPriceable.quoteInput, hused, hcharged, htotal] using hcov.paid)
    (by simpa [BulkPriceable.quoteInput, hused, hcharged, htotal, DeductOk] using hdeduct)
  simp only [BulkPriceable.quoteInput, hused] at hpaid
  exact ⟨hbase, hcov.used, hpaid⟩

/-- A batch keeps every account it changes covered. -/
theorem World.Books.bulk (h : w.Books) {req : BulkClientUpdateRequest} {emails : List String}
    {now : Int} {written : Bool} (hok : Sale.Ok u w (.bulk req emails now written)) :
    World.Books (Sale.step u w (.bulk req emails now written)) := by
  simp only [Sale.step]
  rw [run_profileFor]
  cases hp : w.ledger.profiles.find? u with
  | none => exact h
  | some p =>
      simp only
      cases bulkOpAllowed p req with
      | error e => exact h
      | ok _ =>
          simp only
          have hnodup : ((emails.dedup.filterMap (accountItem w u req)).map
              BulkPriceable.email).Nodup := nodup_accountItems (List.nodup_dedup emails)
          have hfit := hok.1 p (by rw [hp]; rfl)
          have hitem : ∀ it ∈ emails.dedup.filterMap (accountItem w u req), ∃ e ∈ emails,
              accountItem w u req e = some it := by
            intro it hit
            obtain ⟨e, he, hit⟩ := List.mem_filterMap.1 hit
            exact ⟨e, List.mem_dedup.1 he, hit⟩
          generalize hitems : emails.dedup.filterMap (accountItem w u req) = items at *
          rcases run_priceAndReserveBulk_cases p u req items now written w
            with hrun | ⟨t, l, ht, hres, hrun⟩
          · rw [hrun]
            exact h
          have hsound := bulkTicket_sound (u := u) ht hfit hnodup
          obtain ⟨hact, hcharges, hquote⟩ := priceBulk_quote ht hnodup
          have hprev : ∀ c ∈ t.charges, w.ledger.Holds u c.email c.prevCharged := by
            intro c hc
            have hmem := (priceBulk_ok ht hfit).2.2.subset (List.mem_map_of_mem hc)
            obtain ⟨it, hit, heq⟩ := List.mem_map.1 hmem
            obtain ⟨e, -, hacc⟩ := hitem it hit
            obtain ⟨hemail, rc, -, hrc, -, hu, hch, -⟩ := accountItem_some hacc
            rw [Prod.mk.injEq] at heq
            exact ⟨rc, by rw [← heq.1, hemail, hrc], hu, by rw [← hch, heq.2]⟩
          have hkeep := Ledger.keeps_reserveBulk hsound hres hprev
          have hfind := Ledger.find?_reserveBulk (t := { t with userId := u }) hact hsound.emails hres
          rcases hrun with ⟨-, hrun⟩ | ⟨-, hrun⟩
          · rw [hrun, World.thenWrite_false rfl]
            exact h.rollback_bulk hsound hact hprev hres
          rw [hrun, World.thenWrite_true rfl]
          refine h.batched hnodup hfind hcharges ?_ hkeep
          intro it hit
          obtain ⟨e, he, hacc⟩ := hitem it hit
          obtain ⟨hemail, rc, ct, hrc, hct, hu, hch, htot, hcons, hnew⟩ := accountItem_some hacc
          obtain ⟨q, hq, hchq⟩ := hquote it hit
          obtain ⟨hfits, hded⟩ := hok.2 e he rc (by rw [hrc]; rfl) ct (by rw [hct]; rfl)
          refine ⟨rc, ct, hemail ▸ hrc, hemail ▸ hct, ?_, ?_⟩
          · rw [← hch, hchq]
            exact (quote_bound hq rfl rfl (hfit.quotes it hit)).2.2.2
          · rw [← hch, hchq]
            exact accountItem_covers (h.covered e rc ct hrc hct) hq
              (hfit.quotes it hit) hfits hch htot hcons (hded _ hnew)

/-! ## Whole runs -/

/-- One operation of one reseller. -/
def World.sell (w : World) (a : Nat × Sale) : World := Sale.step a.1 w a.2

/-- The condition on one operation of one reseller. -/
def World.SellOk (w : World) (a : Nat × Sale) : Prop := Sale.Ok a.1 w a.2

theorem World.Books.sell {a : Nat × Sale} (h : w.Books) (hok : w.SellOk a) : (w.sell a).Books := by
  obtain ⟨u, op⟩ := a
  cases op with
  | create inboundId c now written => exact h.create hok
  | update inboundId oldEmail c now written => exact h.update hok
  | reset email now written => exact h.reset hok
  | bulk req emails now written => exact h.bulk hok
  | delete email snapshot => exact h.delete hok
  | tick email up down => exact h.tick hok

/-- Every sold account with a quota it has not overshot is paid for, what it used
and what it may still use, and no reseller's accounts hold more than the spent
counter shows. -/
def World.Solvent (w : World) : Prop :=
  (∀ rc ∈ w.ledger.clients.rows, ∀ ct ∈ w.roster.traffics.rows, ct.email = rc.email →
    0 < ct.total → ct.up + ct.down ≤ ct.total →
    (ct.allTime - rc.allTimeBase) + max 0 (ct.total - (ct.up + ct.down)) ≤ rc.chargedBytes) ∧
  ∀ p ∈ w.ledger.profiles.rows, w.ledger.chargedOf p.userId ≤ p.spentBytes

omit [Runtime] in
theorem World.Books.solvent (h : w.Books) : w.Solvent := by
  refine ⟨?_, ?_⟩
  · intro rc hrc ct hct hemail _ hfit
    have hfind := Table.find?_of_mem hct
    rw [hemail] at hfind
    exact (h.covered rc.email rc ct (Table.find?_of_mem hrc) hfind).solvent hfit
  · intro p hp
    have hfind := Table.find?_of_mem hp
    have := h.spent p.userId (by rw [hfind]; rfl)
    simpa [Ledger.spentOf, hfind] using this

omit [Runtime] in
/-- Before anything is sold the books are in order. -/
theorem World.books_of_unsold (hnone : w.ledger.clients.rows = [])
    (hspent : ∀ p ∈ w.ledger.profiles.rows, 0 ≤ p.spentBytes) : w.Books := by
  have hfind : ∀ e, w.ledger.clients.find? e = none := by
    intro e
    rw [Table.find?_eq_none, hnone]
    simp
  refine ⟨?_, ?_, hfind "", ?_⟩
  · intro e rc ct hrc
    rw [hfind] at hrc
    cases hrc
  · intro e rc hrc
    rw [hfind] at hrc
    cases hrc
  · intro u hu
    obtain ⟨p, hp⟩ := Option.isSome_iff_exists.1 hu
    have h0 := hspent p (Table.find?_some hp).1
    simpa [Ledger.chargedOf, Table.total, hnone, Ledger.spentOf, hp] using h0

instance (u : Nat) (w : World) : (op : Sale) → Decidable (Sale.Ok u w op)
  | .create _ c _ _ => inferInstanceAs (Decidable (c.totalGB < 2 ^ 63))
  | .update _ _ _ _ _ =>
      inferInstanceAs (Decidable (∀ p ∈ _, ∀ rc ∈ _,
        QuoteFits _ ∧ FitsInt64 _ ∧ DeductOk _ _ _ ∧ (_ ∨ _)))
  | .reset _ _ _ => inferInstanceAs (Decidable (∀ p ∈ _, ∀ rc ∈ _, QuoteFits _ ∧ FitsInt64 _))
  | .bulk _ emails _ _ =>
      inferInstanceAs (Decidable ((∀ p ∈ _, BulkFits _ _ _) ∧
        ∀ email ∈ emails, ∀ rc ∈ _, ∀ ct ∈ _, FitsInt64 _ ∧ ∀ newTotal ∈ _, DeductOk _ _ _))
  | .delete _ _ => inferInstanceAs (Decidable (∀ rc ∈ _, _ ∧ FitsInt64 _))
  | .tick _ _ _ => inferInstanceAs (Decidable (∀ ct ∈ _, FitsInt64 _ ∧ FitsInt64 _ ∧ FitsInt64 _))

instance (w : World) (a : Nat × Sale) : Decidable (w.SellOk a) :=
  inferInstanceAs (Decidable (Sale.Ok _ _ _))

instance (w : World) : Decidable w.Solvent := inferInstanceAs (Decidable (_ ∧ _))

end

/-- A reseller with a hundred bytes to sell. -/
def openForBusiness : World where
  roster := ⟨Table.empty, Table.empty⟩
  ledger := ⟨.single { userId := 1, allowanceBytes := 100 }, Table.empty⟩

/-- Ten bytes are sold and used, the reseller pays for a reset, the customer uses
the ten bytes again, and the account is topped up and deleted. -/
def resetThenTopUp : List (Nat × Sale) :=
  [(1, .create 1 { email := "a", totalGB := 10 } 0 true), (1, .tick "a" 4 6),
    (1, .reset "a" 0 true), (1, .tick "a" 10 0),
    (1, .update 1 "a" { email := "b", totalGB := 15 } 0 true),
    (1, .bulk { op := .subTraffic, amountBytes := 5 } ["b"] 0 true), (1, .delete "b" true)]

end Simorgh.Panel
