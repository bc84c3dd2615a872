import Simorgh.Panel.BulkPrice

/-!
# Reseller requests, read by read

A request is a `Task`: a sequence of database reads, pricing decisions and ledger
transactions, each of them one step that another request may come between.
Between its reads and its transactions a request keeps what it read; nothing
locks the rows it read them from.

The write a reservation pays for belongs to another store; `written` says
whether it succeeded, and a request whose write failed goes on to roll back.
-/

namespace Simorgh.Panel

open Simorgh.Lib Simorgh.Lib.Json

/-- The database: the roster and the ledger. -/
structure World where
  roster : Roster
  ledger : Ledger

/-- What a request still has to do.  Every constructor but `done`, which says
whether the request succeeded, is one step. -/
inductive Task where
  | done (succeeded : Bool)
  | read (next : World → Task)
  | price (i : QuoteInput) (next : Except LedgerError ChargeQuote → Task)
  | priceBulk (p : ResellerProfile) (req : BulkClientUpdateRequest) (items : List BulkPriceable)
      (now : Int) (next : Except LedgerError BulkTicket → Task)
  | reserve (t : ChargeTicket) (next : Bool → Task)
  | rollback (t : ChargeTicket) (next : Task)
  | reserveBulk (t : BulkTicket) (next : Bool → Task)
  | rollbackBulk (t : BulkTicket) (next : Task)
  | settle (owner : ResellerClient) (email : String) (allTimeAtDelete : Int) (known : Bool)
      (next : Task)
  | rename (oldEmail newEmail : String) (next : Task)

/-- `ProfileFor`: read the reseller's profile, or stop. -/
def profileFor (userId : Nat) (next : ResellerProfile → Task) : Task :=
  .read fun w => match w.ledger.profiles.find? userId with
    | none => .done false
    | some p => next p

/-- `ClientOwner`: read the ownership row of an account this reseller owns, or stop. -/
def clientOwner (userId : Nat) (email : String) (next : ResellerClient → Task) : Task :=
  .read fun w => match w.ledger.clients.find? email with
    | none => .done false
    | some owner => if owner.userId = userId then next owner else .done false

/-- The traffic row of an account; a missing one reads as zeroes. -/
def World.rowOf (w : World) (email : String) : ClientTraffic :=
  (w.roster.traffics.find? email).getD { email := "", inboundId := 0, enable := false }

/-- Read the traffic row of an account. -/
def trafficOf (email : String) (next : ClientTraffic → Task) : Task :=
  .read fun w => next (w.rowOf email)

/-- Price, reserve, and undo the reservation if the write it paid for failed. -/
def priceAndReserve (i : QuoteInput) (t : ChargeTicket) (written : Bool) (next : Task) : Task :=
  .price i fun
    | .error _ => .done false
    | .ok q =>
        let t := { t with quote := q }
        .reserve t fun committed =>
          if committed = false then .done false else if written then next else .rollback t (.done false)

/-- The same for a batch. -/
def priceAndReserveBulk (p : ResellerProfile) (userId : Nat) (req : BulkClientUpdateRequest)
    (items : List BulkPriceable) (now : Int) (written : Bool) : Task :=
  .priceBulk p req items now fun
    | .error _ => .done false
    | .ok t =>
        let t := { t with userId := userId }
        .reserveBulk t fun committed =>
          if committed = false then .done false else if written then .done true else .rollbackBulk t (.done false)

section

variable [Runtime]

/-- What a create does once its email is known to be free. -/
def purchase (profile : ResellerProfile) (userId inboundId : Nat) (email : String)
    (newTotal now : Int) (written : Bool) : Task :=
  priceAndReserve { profile := profile, create := true, newTotal := newTotal, nowMillis := now }
    { userId := userId, email := email, inboundId := inboundId, create := true } written
    (.done true)

/-- `PrepareClientCreate` and what follows it. -/
def prepareClientCreate (userId inboundId : Nat) (cm : Map) (now : Int) (written : Bool) : Task :=
  profileFor userId fun profile =>
    let email := cm.str "email"
    if email = "" then .done false
    else .read fun w =>
      if checkEmailsExistForClients w.roster [{ email := email }] ≠ none then .done false
      else purchase profile userId inboundId email (cm.int64 "totalGB") now written

/-- The stored email behind a route's client id. -/
def storedClientEmail (r : Roster) (inboundId : Nat) (clientId : String) : Option String :=
  if clientId = "" then none
  else match r.inbounds.find? inboundId with
    | none => none
    | some i =>
        ((getClients i).find? fun c => decide (clientIdentity i.protocol c = clientId)).map (·.email)

/-- What an edit is priced from. -/
def updateQuoteInput (profile : ResellerProfile) (owner : ResellerClient) (ct : ClientTraffic)
    (newTotal now : Int) : QuoteInput :=
  { profile := profile, newTotal := newTotal, oldTotal := ct.total,
    oldCharged := owner.chargedBytes, currentExpiry := ct.expiryTime, nowMillis := now,
    consumed := max 0 (int64 (ct.allTime - owner.allTimeBase)) }

/-- What an edit of a stored account does: a written edit carries the ownership
row to the email it was written under. -/
def edit (profile : ResellerProfile) (userId inboundId : Nat) (oldEmail : String)
    (newTotal : Int) (newEmail : String) (now : Int) (written : Bool) : Task :=
  clientOwner userId oldEmail fun owner =>
    trafficOf oldEmail fun ct =>
      priceAndReserve (updateQuoteInput profile owner ct newTotal now)
        { userId := userId, email := oldEmail, inboundId := inboundId,
          prevCharged := owner.chargedBytes } written (.rename oldEmail newEmail (.done true))

/-- `PrepareClientUpdate` and what follows it. -/
def prepareClientUpdate (userId inboundId : Nat) (clientId : String) (cm : Map)
    (newEmail : String) (now : Int) (written : Bool) : Task :=
  profileFor userId fun profile =>
    .read fun w => match storedClientEmail w.roster inboundId clientId with
      | none => .done false
      | some oldEmail =>
          edit profile userId inboundId oldEmail (cm.int64 "totalGB") newEmail now written

/-- What a counter reset is priced from. -/
def resetQuoteInput (profile : ResellerProfile) (owner : ResellerClient) (ct : ClientTraffic)
    (now : Int) : QuoteInput :=
  { profile := profile, reset := true, clearedBytes := int64 (ct.up + ct.down),
    oldCharged := owner.chargedBytes, newTotal := ct.total, currentExpiry := ct.expiryTime,
    nowMillis := now }

/-- `PrepareClientReset` and what follows it. -/
def prepareClientReset (userId : Nat) (email : String) (now : Int) (written : Bool) : Task :=
  profileFor userId fun profile =>
    clientOwner userId email fun owner =>
      trafficOf email fun ct =>
        priceAndReserve (resetQuoteInput profile owner ct now)
          { userId := userId, email := email, inboundId := owner.inboundId,
            prevCharged := owner.chargedBytes } written (.done true)

/-- The reads of `bulkPriceables`, inbound by inbound, with the items so far. -/
def bulkPriceables (ledger : List ResellerClient) (req : BulkClientUpdateRequest) (now : Int)
    (next : List BulkPriceable → Task) :
    List Nat → List BulkPriceable → List String → Task
  | [], items, _ => next items
  | id :: ids, items, seen =>
      .read fun w => match w.roster.inbounds.find? id with
        | none => bulkPriceables ledger req now next ids items seen
        | some i =>
          .read fun w =>
            let usage := w.roster.traffics.rows.filter fun ct => decide (ct.inboundId = id)
            let priced := priceEntries ledger usage req now (req.emailsOn id) seen
              i.settings.clients
            bulkPriceables ledger req now next ids (items ++ priced.1) priced.2

/-- `PrepareBulk` and what follows it.  Operations that move no bytes reserve
nothing. -/
def prepareBulk (order : MapOrder) (userId : Nat) (req : BulkClientUpdateRequest) (now : Int)
    (written : Bool) : Task :=
  profileFor userId fun profile =>
    match bulkOpAllowed profile req with
    | .error _ => .done false
    | .ok _ =>
      .read fun w =>
        let req := scopeBulkTargets (ownedEmails w.ledger.clients userId) req
        if req.op ≠ .addTraffic ∧ req.op ≠ .subTraffic then .done true
        else .read fun w =>
          let ledger := w.ledger.clients.rows.filter fun rc => decide (rc.userId = userId)
          bulkPriceables ledger req now
            (fun items => priceAndReserveBulk profile userId req items now written)
            (order.ids req.inboundIds) [] []

/-- `RefundDeleted`, for a usage figure taken before the delete. -/
def refundDeleted (email : String) (allTimeAtDelete : Int) (known : Bool) : Task :=
  .read fun w => match w.ledger.clients.find? email with
    | none => .done false
    | some owner => .settle owner email allTimeAtDelete known (.done true)

/-- A request of one reseller, with everything the outside decides about it. -/
inductive Request where
  | create (inboundId : Nat) (cm : Map) (now : Int) (written : Bool)
  | update (inboundId : Nat) (clientId : String) (cm : Map) (newEmail : String) (now : Int)
      (written : Bool)
  | reset (email : String) (now : Int) (written : Bool)
  | bulk (order : MapOrder) (req : BulkClientUpdateRequest) (now : Int) (written : Bool)
  | refund (email : String) (allTimeAtDelete : Int) (known : Bool)

/-- The steps of a request. -/
def Request.task (userId : Nat) : Request → Task
  | .create inboundId cm now written => prepareClientCreate userId inboundId cm now written
  | .update inboundId clientId cm newEmail now written =>
      prepareClientUpdate userId inboundId clientId cm newEmail now written
  | .reset email now written => prepareClientReset userId email now written
  | .bulk order req now written => prepareBulk order userId req now written
  | .refund email allTimeAtDelete known => refundDeleted email allTimeAtDelete known

/-! ## A rule for properties of requests -/

/-- A property of tasks that reads keep, and that holds of each way a request of
this reseller ends. -/
structure TaskRule (userId : Nat) (P : Task → Prop) : Prop where
  done : ∀ succeeded, P (.done succeeded)
  read : ∀ next, (∀ w, P (next w)) → P (.read next)
  rename : ∀ oldEmail newEmail, P (.rename oldEmail newEmail (.done true))
  settle : ∀ owner email allTimeAtDelete known,
    P (.settle owner email allTimeAtDelete known (.done true))
  charge : ∀ i (t : ChargeTicket) written next, t.active = true → t.userId = userId →
    t.create = i.create →
    (i.create = true → i.reset = false ∧ i.oldCharged = 0) → t.prevCharged = i.oldCharged →
    P next → P (priceAndReserve i t written next)
  chargeBulk : ∀ p req items now written, (items.map BulkPriceable.email).Nodup →
    P (priceAndReserveBulk p userId req items now written)

section Rule

variable {userId : Nat} {P : Task → Prop} (h : TaskRule userId P)

include h

omit [Runtime] in
theorem TaskRule.profileFor {next : ResellerProfile → Task} (hnext : ∀ p, P (next p)) :
    P (profileFor userId next) := by
  refine h.read _ fun w => ?_
  cases w.ledger.profiles.find? userId with
  | none => exact h.done _
  | some p => exact hnext p

omit [Runtime] in
theorem TaskRule.clientOwner {email : String} {next : ResellerClient → Task}
    (hnext : ∀ owner, P (next owner)) : P (clientOwner userId email next) := by
  refine h.read _ fun w => ?_
  cases w.ledger.clients.find? email with
  | none => exact h.done _
  | some owner =>
      by_cases ho : owner.userId = userId
      · simpa [ho] using hnext owner
      · simpa [ho] using h.done _

omit [Runtime] in
theorem TaskRule.trafficOf {email : String} {next : ClientTraffic → Task}
    (hnext : ∀ ct, P (next ct)) : P (trafficOf email next) :=
  h.read _ fun _ => hnext _

theorem TaskRule.bulkPriceables {ledger : List ResellerClient} {req : BulkClientUpdateRequest}
    {now : Int} {next : List BulkPriceable → Task}
    (hnext : ∀ items, (items.map BulkPriceable.email).Nodup → P (next items)) (ids : List Nat)
    {items : List BulkPriceable} {seen : List String} (hitems : OncePerAccount items seen) :
    P (bulkPriceables ledger req now next ids items seen) := by
  induction ids generalizing items seen with
  | nil => exact hnext items hitems.nodup_emails
  | cons id ids ih =>
      refine h.read _ fun w => ?_
      cases w.roster.inbounds.find? id with
      | none => exact ih hitems
      | some i => exact h.read _ fun w' => ih (oncePerAccount_priceEntries _ hitems)

/-- A property that the rule covers holds of every request of the reseller. -/
theorem TaskRule.request (r : Request) : P (r.task userId) := by
  cases r with
  | create inboundId cm now written =>
      refine h.profileFor fun profile => ?_
      by_cases he : cm.str "email" = ""
      · simpa [he] using h.done _
      · simp only [he, if_false]
        refine h.read _ fun w => ?_
        by_cases ht : checkEmailsExistForClients w.roster [{ email := cm.str "email" }] ≠ none
        · simpa [ht] using h.done _
        · simp only [ht, if_false]
          exact h.charge _ _ _ _ rfl rfl rfl (fun _ => ⟨rfl, rfl⟩) rfl (h.done _)
  | update inboundId clientId cm newEmail now written =>
      refine h.profileFor fun profile => h.read _ fun w => ?_
      cases storedClientEmail w.roster inboundId clientId with
      | none => exact h.done _
      | some oldEmail =>
          refine h.clientOwner fun owner => h.trafficOf fun ct => ?_
          exact h.charge _ _ _ _ rfl rfl rfl (fun hc => by simp [updateQuoteInput] at hc) rfl
            (h.rename _ _)
  | reset email now written =>
      refine h.profileFor fun profile => h.clientOwner fun owner => h.trafficOf fun ct => ?_
      exact h.charge _ _ _ _ rfl rfl rfl (fun hc => by simp [resetQuoteInput] at hc) rfl (h.done _)
  | bulk order req now written =>
      refine h.profileFor fun profile => ?_
      cases bulkOpAllowed profile req with
      | error e => exact h.done _
      | ok _ =>
          refine h.read _ fun w => ?_
          simp only
          split
          · exact h.done _
          · refine h.read _ fun w' => h.bulkPriceables (fun items hitems => ?_) _ ⟨by simp, by simp⟩
            exact h.chargeBulk _ _ _ _ _ hitems
  | refund email allTimeAtDelete known =>
      refine h.read _ fun w => ?_
      cases w.ledger.clients.find? email with
      | none => exact h.done _
      | some owner => exact h.settle _ _ _ _

end Rule

end

end Simorgh.Panel
