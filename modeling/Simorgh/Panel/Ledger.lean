import Simorgh.Panel.Model
import Simorgh.Panel.Quote

/-!
# The reseller ledger

Two tables: one profile per reseller, one ownership row per sold account.  Each
definition here is one transaction of the source, with the values it was handed;
where the source reads something before the transaction opens, that value is an
argument.  A failed transaction leaves the ledger as it was, which is why these
return `Except` and not a pair.

* `addSpent_ok` — everything a guarded balance move can do.
* `reserve_ok`, `reserveBulk_ok` — a committed reservation is a balance move and
  the charges it was quoted with.
* `spentOf`, `chargedOf` — the two sides of the books of one reseller, and what
  each transaction does to them.
-/

namespace Simorgh.Panel

open Simorgh.Lib

/-- The ownership row of an account a reseller sold. -/
structure ResellerClient where
  email : String
  inboundId : Nat
  userId : Nat
  chargedBytes : Int := 0
  allTimeBase : Int := 0
  deriving DecidableEq, Repr

/-- The resellers' balances and the accounts they sold. -/
structure Ledger where
  profiles : Table ResellerProfile.userId
  clients : Table ResellerClient.email

/-- A reservation taken against a reseller's balance. -/
structure ChargeTicket where
  active : Bool := true
  userId : Nat
  email : String
  inboundId : Nat
  quote : ChargeQuote := {}
  create : Bool := false
  prevCharged : Int := 0
  deriving DecidableEq, Repr

/-- One account's new standing under a priced batch. -/
structure BulkCharge where
  email : String
  newCharged : Int
  prevCharged : Int
  forceExpiry : Bool := false
  expiryTime : Int := 0
  deriving DecidableEq, Repr

/-- A reservation covering a whole batch. -/
structure BulkTicket where
  active : Bool := false
  userId : Nat := 0
  deltaSpent : Int := 0
  charges : List BulkCharge := []
  deriving DecidableEq, Repr

namespace ResellerProfile

/-- `spent_bytes + delta`. -/
def addSpent (delta : Int) (p : ResellerProfile) : ResellerProfile :=
  { p with spentBytes := p.spentBytes + delta }

@[simp] theorem addSpent_userId (delta : Int) (p : ResellerProfile) :
    (p.addSpent delta).userId = p.userId := rfl

@[simp] theorem addSpent_spentBytes (delta : Int) (p : ResellerProfile) :
    (p.addSpent delta).spentBytes = p.spentBytes + delta := rfl

end ResellerProfile

namespace ResellerClient

/-- The account with another charge. -/
def setCharged (charged : Int) (rc : ResellerClient) : ResellerClient :=
  { rc with chargedBytes := charged }

@[simp] theorem setCharged_email (charged : Int) (rc : ResellerClient) :
    (rc.setCharged charged).email = rc.email := rfl

@[simp] theorem setCharged_userId (charged : Int) (rc : ResellerClient) :
    (rc.setCharged charged).userId = rc.userId := rfl

@[simp] theorem setCharged_chargedBytes (charged : Int) (rc : ResellerClient) :
    (rc.setCharged charged).chargedBytes = charged := rfl

@[simp] theorem setCharged_allTimeBase (charged : Int) (rc : ResellerClient) :
    (rc.setCharged charged).allTimeBase = rc.allTimeBase := rfl

end ResellerClient

namespace Ledger

/-- The balance move without the headroom check: the corrections. -/
def restoreSpent (l : Ledger) (userId : Nat) (delta : Int) : Ledger :=
  if delta = 0 then l
  else { l with
    profiles := l.profiles.modify userId (ResellerProfile.addSpent delta)
      (ResellerProfile.addSpent_userId delta) }

/-- The balance move.  A debit re-checks the headroom in the statement that makes
it; a refund is never blocked. -/
def addSpent (l : Ledger) (userId : Nat) (delta : Int) : Except LedgerError Ledger :=
  if 0 < delta then
    match l.profiles.find? userId with
    | none => .error (.insufficientBalance none)
    | some p =>
        if p.unlimited = true ∨ p.spentBytes + delta ≤ p.allowanceBytes then
          .ok (l.restoreSpent userId delta)
        else .error (.insufficientBalance none)
  else .ok (l.restoreSpent userId delta)

/-- `UPDATE reseller_clients SET charged_bytes = ? WHERE email = ?`. -/
def setCharged (l : Ledger) (email : String) (charged : Int) : Ledger :=
  { l with
    clients := l.clients.modify email (ResellerClient.setCharged charged)
      (ResellerClient.setCharged_email charged) }

/-- `DELETE FROM reseller_clients WHERE email = ?`. -/
def dropClient (l : Ledger) (email : String) : Ledger :=
  { l with clients := l.clients.erase email }

/-- The ownership row a create writes.  Consumption starts from the all-time
count of a traffic row that is already there. -/
def newClient (traffics : Table ClientTraffic.email) (t : ChargeTicket) : ResellerClient where
  email := t.email
  inboundId := t.inboundId
  userId := t.userId
  chargedBytes := t.quote.newCharged
  allTimeBase := ((traffics.find? t.email).map (·.allTime)).getD 0

/-- The balance move and the ownership row, in one transaction. -/
def reserve (l : Ledger) (traffics : Table ClientTraffic.email) (t : ChargeTicket) :
    Except LedgerError Ledger :=
  if t.active = false then .ok l
  else
    match l.addSpent t.userId t.quote.deltaSpent with
    | .error e => .error e
    | .ok l =>
        if t.create then
          match l.clients.insert? (newClient traffics t) with
          | none => .error .constraint
          | some clients => .ok { l with clients := clients }
        else .ok (l.setCharged t.email t.quote.newCharged)

/-- Undo a reservation whose client write failed. -/
def rollback (l : Ledger) (t : ChargeTicket) : Ledger :=
  if t.active = false then l
  else
    let l := l.restoreSpent t.userId (int64 (-t.quote.deltaSpent))
    if t.create then l.dropClient t.email else l.setCharged t.email t.prevCharged

/-- The charges of a batch, or what they were before it. -/
def writeBulkCharges (l : Ledger) (charges : List BulkCharge) (restore : Bool) : Ledger :=
  charges.foldl (fun l c => l.setCharged c.email (if restore then c.prevCharged else c.newCharged)) l

/-- The balance move and every account's charge, in one transaction. -/
def reserveBulk (l : Ledger) (t : BulkTicket) : Except LedgerError Ledger :=
  if t.active = false then .ok l
  else
    match l.addSpent t.userId t.deltaSpent with
    | .error e => .error e
    | .ok l => .ok (l.writeBulkCharges t.charges false)

/-- Undo a reservation whose batch failed to apply. -/
def rollbackBulk (l : Ledger) (t : BulkTicket) : Ledger :=
  if t.active = false then l
  else (l.restoreSpent t.userId (int64 (-t.deltaSpent))).writeBulkCharges t.charges true

/-- What a deleted account still had paid for, against the usage at its delete. -/
def refundOf (owner : ResellerClient) (allTimeAtDelete : Int) : Int :=
  max 0 (int64 (owner.chargedBytes - max 0 (int64 (allTimeAtDelete - owner.allTimeBase))))

/-- The transaction of `RefundDeleted`, for the ownership row it read before.
Unknown consumption withholds the refund. -/
def settleDeleted (l : Ledger) (owner : ResellerClient) (email : String) (allTimeAtDelete : Int)
    (known : Bool) : Ledger :=
  if known = false then l.dropClient email
  else match l.addSpent owner.userId (-refundOf owner allTimeAtDelete) with
    | .error _ => l
    | .ok l => l.dropClient email

/-- Credit the unused part of a deleted account and forget it.  A no-op for an
account the house owns. -/
def refundDeleted (l : Ledger) (email : String) (allTimeAtDelete : Int) (known : Bool) : Ledger :=
  match l.clients.find? email with
  | none => l
  | some owner => l.settleDeleted owner email allTimeAtDelete known

/-- Carry ownership across an email change; a taken email violates the index. -/
def renameClient (l : Ledger) (oldEmail newEmail : String) : Except LedgerError Ledger :=
  if oldEmail = "" ∨ newEmail = "" ∨ oldEmail = newEmail then .ok l
  else
    match l.clients.rekey? oldEmail fun rc => { rc with email := newEmail } with
    | none => .error .constraint
    | some clients => .ok { l with clients := clients }

/-! ## One reseller's books -/

/-- The reseller's spent counter. -/
def spentOf (l : Ledger) (userId : Nat) : Int :=
  ((l.profiles.find? userId).map (·.spentBytes)).getD 0

/-- What an ownership row holds against one reseller's balance. -/
def chargeTo (userId : Nat) (rc : ResellerClient) : Int :=
  if rc.userId = userId then rc.chargedBytes else 0

/-- What the reseller's accounts hold against the balance. -/
def chargedOf (l : Ledger) (userId : Nat) : Int := l.clients.total (chargeTo userId)

/-- What the row under an email holds against one reseller's balance. -/
def heldBy (l : Ledger) (userId : Nat) (email : String) : Int :=
  ((l.clients.find? email).map (chargeTo userId)).getD 0

variable {l l' : Ledger} {u v : Nat} {e : String} {d c : Int}

theorem restoreSpent_clients : (l.restoreSpent v d).clients = l.clients := by
  unfold restoreSpent
  split <;> rfl

theorem find?_restoreSpent :
    (l.restoreSpent v d).profiles.find? u =
      if u = v then (l.profiles.find? u).map (ResellerProfile.addSpent d)
      else l.profiles.find? u := by
  unfold restoreSpent
  split
  · rename_i hd
    subst hd
    have hid : ResellerProfile.addSpent 0 = id := by
      funext p
      simp [ResellerProfile.addSpent]
    rw [hid, Option.map_id, id, ite_self]
  · exact Table.find?_modify l.profiles v u _ (ResellerProfile.addSpent_userId d)

theorem spentOf_restoreSpent (hp : (l.profiles.find? u).isSome) :
    (l.restoreSpent v d).spentOf u = l.spentOf u + if v = u then d else 0 := by
  obtain ⟨p, hp⟩ := Option.isSome_iff_exists.1 hp
  rw [spentOf, spentOf, find?_restoreSpent, hp]
  by_cases h : u = v
  · subst h
    simp
  · simp [h, Ne.symm h]

theorem isSome_restoreSpent :
    ((l.restoreSpent v d).profiles.find? u).isSome = (l.profiles.find? u).isSome := by
  rw [find?_restoreSpent]
  split <;> simp

/-- Everything a guarded balance move can do: it is the unguarded one, and a
debit found room for itself. -/
theorem addSpent_ok (h : l.addSpent v d = .ok l') :
    l' = l.restoreSpent v d ∧
      (0 < d → ∃ p, l.profiles.find? v = some p ∧
        (p.unlimited = true ∨ p.spentBytes + d ≤ p.allowanceBytes)) := by
  unfold addSpent at h
  split at h
  · split at h
    · cases h
    · rename_i p hp
      split at h
      · rename_i hroom
        cases h
        exact ⟨rfl, fun _ => ⟨p, hp, hroom⟩⟩
      · cases h
  · rename_i hd
    cases h
    exact ⟨rfl, fun hd' => absurd hd' hd⟩

theorem addSpent_of_nonpos (h : d ≤ 0) : l.addSpent v d = .ok (l.restoreSpent v d) := by
  rw [addSpent, if_neg (by omega)]

/-- A known refund is never blocked. -/
theorem settleDeleted_eq {owner : ResellerClient} {email : String} {allTimeAtDelete : Int} :
    l.settleDeleted owner email allTimeAtDelete true =
      (l.restoreSpent owner.userId (-refundOf owner allTimeAtDelete)).dropClient email := by
  have hnonpos : -refundOf owner allTimeAtDelete ≤ 0 := by
    unfold refundOf
    omega
  simp only [settleDeleted, addSpent_of_nonpos hnonpos, Bool.true_eq_false, if_false]

/-- Everything a reservation can do: the balance move, and the row it was quoted
with, new or overwritten. -/
theorem reserve_ok {traffics : Table ClientTraffic.email} {t : ChargeTicket}
    (ht : t.active = true) (h : l.reserve traffics t = .ok l') :
    ∃ l₁, l.addSpent t.userId t.quote.deltaSpent = .ok l₁ ∧ l'.profiles = l₁.profiles ∧
      (t.create = true ∧ l₁.clients.insert? (newClient traffics t) = some l'.clients ∨
        t.create = false ∧ l' = l₁.setCharged t.email t.quote.newCharged) := by
  unfold reserve at h
  rw [if_neg (by simp [ht])] at h
  split at h
  · cases h
  · rename_i l₁ hl₁
    refine ⟨l₁, hl₁, ?_⟩
    split at h
    · rename_i hc
      split at h
      · cases h
      · rename_i clients hins
        cases h
        exact ⟨rfl, Or.inl ⟨hc, hins⟩⟩
    · rename_i hc
      cases h
      exact ⟨rfl, Or.inr ⟨by simpa using hc, rfl⟩⟩

theorem writeBulkCharges_profiles (charges : List BulkCharge) (restore : Bool) :
    (l.writeBulkCharges charges restore).profiles = l.profiles := by
  induction charges generalizing l with
  | nil => rfl
  | cons c charges ih => exact ih

theorem reserveBulk_ok {t : BulkTicket} (ht : t.active = true) (h : l.reserveBulk t = .ok l') :
    ∃ l₁, l.addSpent t.userId t.deltaSpent = .ok l₁ ∧ l' = l₁.writeBulkCharges t.charges false := by
  unfold reserveBulk at h
  rw [if_neg (by simp [ht])] at h
  split at h
  · cases h
  · rename_i l₁ hl₁
    cases h
    exact ⟨l₁, hl₁, rfl⟩

@[simp] theorem spentOf_setCharged : (l.setCharged e c).spentOf u = l.spentOf u := rfl

@[simp] theorem spentOf_dropClient : (l.dropClient e).spentOf u = l.spentOf u := rfl

theorem chargedOf_congr (h : l'.clients = l.clients) : l'.chargedOf u = l.chargedOf u := by
  rw [chargedOf, h, chargedOf]

/-- Dropping a row takes what it held out of the reseller's charges. -/
theorem chargedOf_dropClient : (l.dropClient e).chargedOf u = l.chargedOf u - l.heldBy u e := by
  cases h : l.clients.find? e with
  | none =>
      have hrows := Table.erase_rows_of_none h
      simp only [chargedOf, dropClient, Table.total, hrows, heldBy, h, Option.map_none,
        Option.getD_none, Int.sub_zero]
  | some rc =>
      simp only [chargedOf, dropClient, Table.total_erase h, heldBy, h, Option.map_some,
        Option.getD_some]

/-- Overwriting a row's charge moves the charges of the reseller it belongs to by
the difference; where there is no row nothing is written. -/
theorem chargedOf_setCharged :
    (l.setCharged e c).chargedOf u = l.chargedOf u +
      match l.clients.find? e with
      | some rc => if rc.userId = u then c - rc.chargedBytes else 0
      | none => 0 := by
  cases h : l.clients.find? e with
  | none =>
      have hsame : (l.setCharged e c).clients.rows = l.clients.rows :=
        Table.modify_rows_of_none h _ (ResellerClient.setCharged_email c)
      simp only [chargedOf, Table.total, hsame, Int.add_zero]
  | some rc =>
      simp only [chargedOf, setCharged, Table.total_modify h]
      by_cases hu : rc.userId = u <;> simp [chargeTo, hu]

theorem heldBy_of_clients (h : l'.clients = l.clients) : l'.heldBy u e = l.heldBy u e := by
  rw [heldBy, h, heldBy]

/-! ## What a reservation does to the rows -/

variable {traffics : Table ClientTraffic.email} {t : ChargeTicket}

theorem find?_setCharged (e' : String) :
    (l.setCharged e c).clients.find? e' =
      if e' = e then (l.clients.find? e').map (ResellerClient.setCharged c)
      else l.clients.find? e' :=
  Table.find?_modify l.clients e e' _ (ResellerClient.setCharged_email c)

/-- A committed edit overwrites one row's charge. -/
theorem find?_reserve_update (ha : t.active = true) (hc : t.create = false)
    (h : l.reserve traffics t = .ok l') (e : String) :
    l'.clients.find? e =
      if e = t.email then (l.clients.find? e).map (ResellerClient.setCharged t.quote.newCharged)
      else l.clients.find? e := by
  obtain ⟨l₁, hl₁, -, hcl⟩ := reserve_ok ha h
  obtain ⟨rfl, -⟩ := addSpent_ok hl₁
  rcases hcl with ⟨hc', -⟩ | ⟨-, rfl⟩
  · simp [hc] at hc'
  · rw [find?_setCharged, restoreSpent_clients]

/-- A committed create adds one row. -/
theorem find?_reserve_create (ha : t.active = true) (hc : t.create = true)
    (h : l.reserve traffics t = .ok l') :
    l.clients.find? t.email = none ∧ ∀ e, l'.clients.find? e =
      if e = t.email then some (newClient traffics t) else l.clients.find? e := by
  obtain ⟨l₁, hl₁, -, hcl⟩ := reserve_ok ha h
  obtain ⟨rfl, -⟩ := addSpent_ok hl₁
  rcases hcl with ⟨-, hins⟩ | ⟨hc', -⟩
  · have hnone := (Table.insert?_eq_some hins).1
    rw [restoreSpent_clients] at hnone hins
    refine ⟨hnone, fun e => ?_⟩
    rw [Table.find?_insert? hins]
    have hkey : (newClient traffics t).email = t.email := rfl
    by_cases he : e = t.email
    · simp [hkey, he]
    · simp [hkey, he, Ne.symm he]
  · simp [hc] at hc'

/-- Undoing a reservation puts the rows back. -/
theorem find?_rollback_update (ha : t.active = true) (hc : t.create = false)
    (h : l.reserve traffics t = .ok l') {rc : ResellerClient}
    (hrc : l.clients.find? t.email = some rc) (hprev : rc.chargedBytes = t.prevCharged)
    (e : String) : (l'.rollback t).clients.find? e = l.clients.find? e := by
  have hfind := find?_reserve_update ha hc h
  simp only [rollback, ha, hc, Bool.true_eq_false, Bool.false_eq_true, if_false]
  rw [find?_setCharged, restoreSpent_clients, hfind]
  by_cases he : e = t.email
  · subst he
    simp only [if_true, hrc, Option.map_some]
    rw [← hprev]
    rfl
  · simp only [he, if_false]

theorem find?_rollback_create (ha : t.active = true) (hc : t.create = true)
    (h : l.reserve traffics t = .ok l') (e : String) :
    (l'.rollback t).clients.find? e = l.clients.find? e := by
  obtain ⟨hnone, hfind⟩ := find?_reserve_create ha hc h
  simp only [rollback, ha, hc, Bool.true_eq_false, if_false, if_true, dropClient]
  rw [Table.find?_erase, restoreSpent_clients, hfind]
  by_cases he : e = t.email
  · simp [he, hnone]
  · simp [he]

/-- Reading after a rename onto a free email. -/
theorem find?_renameClient {oldEmail newEmail : String} {rc : ResellerClient}
    (hrc : l.clients.find? oldEmail = some rc) (hold : oldEmail ≠ "") (hnew : newEmail ≠ "")
    (hfree : newEmail = oldEmail ∨ l.clients.find? newEmail = none) :
    ∃ l', l.renameClient oldEmail newEmail = .ok l' ∧ l'.profiles = l.profiles ∧
      ∀ e, l'.clients.find? e =
        if e = newEmail then some { rc with email := newEmail }
        else if e = oldEmail then none else l.clients.find? e := by
  by_cases heq : oldEmail = newEmail
  · subst heq
    refine ⟨l, by simp [renameClient], rfl, fun e => ?_⟩
    obtain ⟨-, hkey⟩ := Table.find?_some hrc
    by_cases he : e = oldEmail
    · rw [if_pos he, he, hrc, ← hkey]
    · rw [if_neg he, if_neg he]
  · obtain ⟨clients, hclients⟩ := Table.rekey?_eq_some_of_free
      (f := fun rc => { rc with email := newEmail }) hrc
      (hfree.elim (fun h => absurd h.symm heq) Or.inr)
    refine ⟨{ l with clients := clients }, ?_, rfl, Table.find?_rekey? hclients hrc⟩
    simp only [renameClient, hold, hnew, heq, or_self, if_false, hclients]

end Ledger

end Simorgh.Panel
