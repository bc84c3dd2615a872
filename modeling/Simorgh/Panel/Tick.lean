import Simorgh.Lib.Float64
import Simorgh.Lib.Program
import Simorgh.Panel.Bulk
import Simorgh.Panel.Store

/-!
# The traffic tick

`AddTraffic` books a batch of records in one transaction: it counts the bytes,
renews the accounts whose period is over and switches off what is used up or
expired.

* `addTraffic` — the tick, statement by statement.
* `complete` — what a tick leaves when every statement of it goes through.
-/

namespace Simorgh.Panel

open Simorgh.Lib Simorgh.Lib.Json

/-! ## What a tick is given -/

/-- `xray.Traffic`. -/
structure Traffic where
  isInbound : Bool := true
  tag : String
  up : Int
  down : Int

/-- A client's record. -/
structure ClientRecord where
  email : String
  up : Int
  down : Int

/-- The figures of one tick. -/
structure Batch where
  inbounds : List Traffic := []
  clients : List ClientRecord := []

/-- What the running Xray answers to a removal. -/
inductive ApiAnswer where
  | ok | notFound | failed
  deriving DecidableEq

/-- The API of the running Xray. -/
structure XrayApi where
  init : Bool := true
  addUser : Protocol → String → Map → Bool := fun _ _ _ => true
  removeUser : String → String → ApiAnswer := fun _ _ => .ok
  delInbound : String → Bool := fun _ => true

/-- The clock in milliseconds, and Xray when it has been started. -/
structure Host where
  now : Int
  xray : Option XrayApi := some {}

/-! ## The multiplier -/

/-- `math.Round`: half away from zero. -/
def mathRound (q : ℚ) : ℤ := if 0 ≤ q then ⌊q + 1 / 2⌋ else -⌊-q + 1 / 2⌋

/-- The greatest multiplier. -/
def maxTrafficMultiplier : ℚ := 1000

/-- A multiplier that is applied. -/
def validMultiplier (m : Option ℚ) : Bool := m.any fun q => decide (1 < q ∧ q ≤ maxTrafficMultiplier)

/-- `multiplyDelta`: a raw delta weighted by the policy of the owning inbound. -/
def multiplyDelta (inb : Option InboundRow) (currentUpDown deltaUp deltaDown : Int) : Int × Int :=
  match inb with
  | none => (deltaUp, deltaDown)
  | some i =>
      if i.multiplierEnable = false ∨ validMultiplier i.multiplier = false then (deltaUp, deltaDown)
      else
        let raw := int64 (deltaUp + deltaDown)
        if raw ≤ 0 then (deltaUp, deltaDown)
        else
          let pre := max 0 (int64 (i.multiplierAfter - max 0 currentUpDown))
          if raw ≤ pre then (deltaUp, deltaDown)
          else
            let weighted := float64 (float64 (int64 (raw - pre)) * i.multiplier.getD 1)
            let billed := int64 (pre + floatToInt64 (mathRound weighted))
            let share := float64 (float64 deltaUp / float64 raw)
            let up := floatToInt64 (mathRound (float64 (float64 billed * share)))
            (up, int64 (billed - up))

/-! ## Counting bytes -/

/-- The update one inbound record makes. -/
def countInbound (t : Traffic) (i : InboundRow) : InboundRow :=
  { i with up := i.up + t.up, down := i.down + t.down, allTime := i.allTime + int64 (t.up + t.down) }

/-- The traffic of an inbound. -/
def Db.countInbound (t : Traffic) (db : Db) : Db :=
  { db with
    inbounds := db.inbounds.updateWhere (fun i => decide (i.base.tag = t.tag)) (Panel.countInbound t)
      fun _ => rfl }

/-- The rows a batch of client records is for. -/
def batchRows (records : List ClientRecord) (db : Db) : List ClientTraffic :=
  db.traffics.rows.filter fun ct => decide (ct.email ∈ records.map (·.email))

/-- One entry of `adjustTraffics`: the first row with a delayed start under the entry's
email starts now, for as long as the entry says.  An entry without a number there
panics.  The stamps `created_at` and `updated_at`, which nothing here reads, are left out. -/
def startEntry (now : Int) (rows : List ClientTraffic) (d : Doc) :
    Option (List ClientTraffic × Doc) :=
  match rows.findIdx? fun ct =>
      decide (ct.expiryTime < 0) && decide (d.get? "email" = some (.str ct.email)) with
  | none => some (rows, rewrite d)
  | some k =>
      match (Doc.toMap d).get? "expiryTime" with
      | some (.num n) =>
          let expiry := int64 (now - n.toInt64)
          some (rows.modify k fun ct => { ct with expiryTime := expiry },
            Map.marshal ((Doc.toMap d).set "expiryTime" (.num (.int expiry))))
      | _ => none

/-- A list of entries, one after another. -/
def startEntries (now : Int) : List ClientTraffic → List Doc → Option (List ClientTraffic × List Doc)
  | rows, [] => some (rows, [])
  | rows, d :: ds => do
      let (rows, d) ← startEntry now rows d
      let (rows, ds) ← startEntries now rows ds
      some (rows, d :: ds)

/-- The row with other entries. -/
def InboundRow.setClients (i : InboundRow) (clients : List Doc) : InboundRow :=
  { i with base := i.base.setClients clients }

/-- The loaded inbounds, one after another. -/
def startInbounds (now : Int) :
    List ClientTraffic → List InboundRow → Option (List ClientTraffic × List InboundRow)
  | rows, [] => some (rows, [])
  | rows, i :: is => do
      let (rows, clients) ← startEntries now rows i.base.settings.clients
      let (rows, is) ← startInbounds now rows is
      some (rows, i.setClients clients :: is)

/-- The inbounds of the rows with a delayed start. -/
def delayedIds (rows : List ClientTraffic) : List Nat :=
  (rows.filter fun ct => decide (ct.expiryTime < 0)).map (·.inboundId)

/-- `WHERE id IN ?`. -/
def loadInbounds (ids : List Nat) (db : Db) : List InboundRow :=
  db.inbounds.rows.filter fun i => decide (i.id ∈ ids)

/-- A record booked on a row. -/
def billRow (policy : Option InboundRow) (ct : ClientTraffic) (t : ClientRecord) : ClientTraffic :=
  let billed := multiplyDelta policy (int64 (ct.up + ct.down)) t.up t.down
  { ct with up := int64 (ct.up + billed.1), down := int64 (ct.down + billed.2),
            allTime := int64 (ct.allTime + int64 (t.up + t.down)) }

/-- Every record of the batch booked on the rows under its email. -/
def billRows (policy : Nat → Option InboundRow) (records : List ClientRecord)
    (rows : List ClientTraffic) : List ClientTraffic :=
  rows.map fun ct => (records.filter fun t => decide (t.email = ct.email)).foldl
    (billRow (policy ct.inboundId)) ct

/-! ## Renewing -/

/-- The account is renewed in this tick. -/
def Host.dueForRenewal (h : Host) (ct : ClientTraffic) : Bool :=
  decide (0 < ct.reset) && decide (0 < ct.expiryTime) && decide (ct.expiryTime ≤ h.now)

/-- The expiry after the loop that adds whole periods until it has caught up, as long as the
sums stay in int64 and the period is positive; then `autoRenewed_eq_run` has the loop. -/
def nextExpiry (now expiryTime reset : Int) : Int :=
  let period := reset * bulkMsPerDay
  if expiryTime < now then expiryTime + period * ((now - expiryTime + period - 1) / period)
  else expiryTime

/-- A renewed row. -/
def renewRow (now : Int) (ct : ClientTraffic) : ClientTraffic :=
  { ct with expiryTime := nextExpiry now ct.expiryTime ct.reset, up := 0, down := 0, enable := true }

/-- A user the API is asked to add. -/
structure UserToAdd where
  protocol : Protocol
  tag : String
  client : Map

/-- One entry of `autoRenewClients`.  An entry without an email panics. -/
def renewEntry (now : Int) (i : InboundRow) (rows : List ClientTraffic) (d : Doc) :
    Option (List ClientTraffic × Doc × List UserToAdd) :=
  match d.get? "email" with
  | some (.str email) =>
      match rows.find? fun ct => decide (ct.email = email) with
      | none => some (rows, rewrite d, [])
      | some ct =>
          let m := (Doc.toMap d).set "expiryTime" (.num (.int (nextExpiry now ct.expiryTime ct.reset)))
          some (rows.map fun r => if r.email = email then renewRow now r else r, Map.marshal m,
            if ct.enable then [] else [⟨i.base.protocol, i.base.tag, m⟩])
  | _ => none

/-- The entries of an inbound, renewed. -/
def renewEntries (now : Int) (i : InboundRow) :
    List ClientTraffic → List Doc → Option (List ClientTraffic × List Doc × List UserToAdd)
  | rows, [] => some (rows, [], [])
  | rows, d :: ds => do
      let (rows, d, users) ← renewEntry now i rows d
      let (rows, ds, more) ← renewEntries now i rows ds
      some (rows, d :: ds, users ++ more)

/-- The inbounds, renewed. -/
def renewInbounds (now : Int) :
    List ClientTraffic → List InboundRow → Option (List ClientTraffic × List InboundRow × List UserToAdd)
  | rows, [] => some (rows, [], [])
  | rows, i :: is => do
      let (rows, clients, users) ← renewEntries now i rows i.base.settings.clients
      let (rows, is, more) ← renewInbounds now rows is
      some (rows, i.setClients clients :: is, users ++ more)

/-- The columns a renewal owns. -/
def writeRenewal (ct old : ClientTraffic) : ClientTraffic :=
  { old with expiryTime := ct.expiryTime, up := 0, down := 0, enable := ct.enable }

theorem writeRenewal_email (ct old : ClientTraffic) : (writeRenewal ct old).email = old.email := rfl

/-- A renewed row is saved. -/
def Db.writeRenewal (ct : ClientTraffic) (db : Db) : Db :=
  { db with traffics := db.traffics.modify ct.email (Panel.writeRenewal ct) (writeRenewal_email ct) }

/-! ## Switching off -/

/-- Used up or expired. -/
def Host.invalid (h : Host) (total up down expiryTime : Int) : Bool :=
  (decide (0 < total) && decide (total ≤ up + down)) ||
    (decide (0 < expiryTime) && decide (expiryTime ≤ h.now))

/-- The account is used up or over. -/
def Host.invalidClient (h : Host) (ct : ClientTraffic) : Bool :=
  h.invalid ct.total ct.up ct.down ct.expiryTime && ct.enable

/-- The inbound is used up or over. -/
def Host.invalidInbound (h : Host) (i : InboundRow) : Bool :=
  h.invalid i.total i.up i.down i.expiryTime && i.base.enable

/-- An invalid client with the inbound its row points to. -/
structure Invalid where
  tag : String
  email : String
  protocol : Protocol

/-- The join of `inbounds` and `client_traffics`. -/
def Host.invalidClients (h : Host) (db : Db) : List Invalid :=
  db.inbounds.rows.flatMap fun i =>
    (db.traffics.rows.filter fun ct => decide (ct.inboundId = i.id) && h.invalidClient ct).map fun ct =>
      ⟨i.base.tag, ct.email, i.base.protocol⟩

/-- Such accounts are switched off. -/
def Db.disableClients (h : Host) (db : Db) : Db :=
  { db with
    traffics := db.traffics.updateWhere h.invalidClient (fun ct => { ct with enable := false })
      fun _ => rfl }

/-- Such inbounds are switched off. -/
def Db.disableInbounds (h : Host) (db : Db) : Db :=
  { db with
    inbounds := db.inbounds.updateWhere h.invalidInbound
      (fun i => { i with base := { i.base with enable := false } }) fun _ => rfl }

/-- The protocols whose daemon, not Xray, has to drop a client. -/
def Protocol.hasOwnDaemon : Protocol → Bool
  | .l2tp | .pptp | .openvpn => true
  | _ => false

/-- The protocols Xray serves itself. -/
def Protocol.native : Protocol → Bool
  | .l2tp | .pptp | .openvpn | .openconnect | .sstp | .ikev2 | .wgc | .awg | .gre | .mtproto | .ssh =>
      false
  | _ => true

/-! ## The tick, statement by statement -/

/-- Where a statement of the tick stands. -/
inductive TickPlace where
  | begin
  | countInbound (k : Nat)
  | findRows | loadDelayed | saveDelayed | loadMultipliers | saveRows
  | findDue | loadDue | saveDue
  | renewRow (k : Nat)
  | findInvalid | disableClients
  | findInvalidInbounds | disableInbounds
  | commit
  deriving DecidableEq

/-- How a function of the program ends. -/
inductive Outcome (α : Type) where
  | ok (a : α)
  | error
  | panicked
  deriving DecidableEq

/-- It ends in an error. -/
def Outcome.isError {α : Type} : Outcome α → Bool
  | .error => true
  | _ => false

/-- A part of the tick as database statements. -/
abbrev Tick (α : Type) := Prog Db TickPlace α

/-- `addInboundTraffic`; false is its error. -/
def addInboundTraffic : List Traffic → Nat → Tick Bool
  | [], _ => pure true
  | t :: ts, k =>
      if t.isInbound then do
        let ok ← Prog.update (.countInbound k) (Db.countInbound t)
        if ok then addInboundTraffic ts (k + 1) else pure false
      else addInboundTraffic ts (k + 1)

/-- `adjustTraffics`. -/
def adjustTraffics (h : Host) (rows : List ClientTraffic) : Tick (Outcome (List ClientTraffic)) :=
  if delayedIds rows = [] then pure (.ok rows)
  else do
    match ← Prog.select .loadDelayed (loadInbounds (delayedIds rows)) with
    | none => pure .error
    | some inbounds =>
        match startInbounds h.now rows inbounds with
        | none => pure .panicked
        | some (rows, inbounds) =>
            -- a failed save is logged
            let _ ← Prog.update .saveDelayed fun db =>
              { db with inbounds := saveInbounds db.inbounds inbounds }
            pure (.ok rows)

/-- `loadMultiplierInbounds`; a failure bills everything 1:1. -/
def loadMultiplierInbounds (rows : List ClientTraffic) : Tick (Nat → Option InboundRow) :=
  if rows.all fun ct => decide (ct.inboundId = 0) then pure fun _ => none
  else do
    let inbounds? ← Prog.select .loadMultipliers fun db id =>
      if id = 0 then none else db.inbounds.find? id
    pure (inbounds?.getD fun _ => none)

/-- `addClientTraffic`. -/
def addClientTraffic (h : Host) (records : List ClientRecord) : Tick (Outcome Unit) :=
  if records = [] then pure (.ok ())
  else do
    match ← Prog.select .findRows (batchRows records) with
    | none => pure .error
    | some [] => pure (.ok ())
    | some rows =>
        match ← adjustTraffics h rows with
        | .error => pure .error
        | .panicked => pure .panicked
        | .ok rows =>
            let policy ← loadMultiplierInbounds rows
            -- a failed save is logged
            let _ ← Prog.update .saveRows fun db =>
              { db with traffics := saveRows db.traffics (billRows policy records rows) }
            pure (.ok ())

/-- The row updates of `autoRenewClients`. -/
def writeRenewals : List ClientTraffic → Nat → Tick Bool
  | [], _ => pure true
  | ct :: rows, k => do
      let ok ← Prog.update (.renewRow k) (Db.writeRenewal ct)
      if ok then writeRenewals rows (k + 1) else pure false

/-- Ask the API to add the renewed users again; whether a restart is needed. -/
def Host.addUsers (h : Host) (users : List UserToAdd) : Bool :=
  match h.xray with
  | none => false
  | some api => !api.init || users.any fun u => !api.addUser u.protocol u.tag u.client

/-- `autoRenewClients`: whether a restart is needed.  A `Save` of no rows is an
error. -/
def autoRenewClients (h : Host) : Tick (Outcome Bool) := do
  match ← Prog.select .findDue fun db => db.traffics.rows.filter h.dueForRenewal with
  | none => pure .error
  | some [] => pure (.ok false)
  | some due =>
      match ← Prog.select .loadDue (loadInbounds (due.map (·.inboundId))) with
      | none => pure .error
      | some inbounds =>
          match renewInbounds h.now due inbounds with
          | none => pure .panicked
          | some (rows, renewed, users) =>
              if renewed = [] then pure .error
              else do
                let saved ← Prog.update .saveDue fun db =>
                  { db with inbounds := saveInbounds db.inbounds renewed }
                if saved = false then pure .error
                else do
                  let written ← writeRenewals rows 0
                  pure (if written then .ok (h.addUsers users) else .error)

/-- What `disableInvalidClients` reports. -/
structure Disabled where
  restart : Bool := false
  removed : List (String × String) := []
  l2tp : List String := []
  pptp : List String := []
  openvpn : List String := []

/-- The calls to the API for the invalid clients, and the emails left to a daemon. -/
def disabledBy (api : XrayApi) (results : List Invalid) : Disabled :=
  let native := results.filter fun r => !r.protocol.hasOwnDaemon
  let under (p : Protocol) := (results.filter fun r => decide (r.protocol = p)).map (·.email)
  { restart := native.any fun r => decide (api.removeUser r.tag r.email = .failed)
    removed := native.map fun r => (r.tag, r.email)
    l2tp := under .l2tp
    pptp := under .pptp
    openvpn := under .openvpn }

/-- `disableInvalidClients`: what it reports, and whether it succeeded.  A failed update
does not take back what was asked of the API. -/
def disableInvalidClients (h : Host) : Tick (Disabled × Bool) := do
  match h.xray with
  | none =>
      let ok ← Prog.update .disableClients (Db.disableClients h)
      pure ({}, ok)
  | some api =>
      match ← Prog.select .findInvalid h.invalidClients with
      | none => pure ({}, false)
      | some results =>
          let ok ← Prog.update .disableClients (Db.disableClients h)
          pure (disabledBy api results, ok)

/-- The tags of the invalid inbounds. -/
def Host.invalidTags (h : Host) (db : Db) : List String :=
  (db.inbounds.rows.filter h.invalidInbound).map (·.base.tag)

/-- `disableInvalidInbounds`: whether a restart is needed, and whether it succeeded. -/
def disableInvalidInbounds (h : Host) : Tick (Bool × Bool) := do
  match h.xray with
  | none =>
      let ok ← Prog.update .disableInbounds (Db.disableInbounds h)
      pure (false, ok)
  | some api =>
      match ← Prog.select .findInvalidInbounds h.invalidTags with
      | none => pure (false, false)
      | some tags =>
          let ok ← Prog.update .disableInbounds (Db.disableInbounds h)
          pure (tags.any fun tag => !api.delInbound tag, ok)

/-- What the stages after the counting do.  Their errors are logged; the transaction is
kept or dropped by the error of the last one. -/
def renewAndDisable (h : Host) : Tick (Outcome Disabled) := do
  match ← autoRenewClients h with
  | .panicked =>
      Prog.finish .commit
      pure .panicked
  | renewed =>
      let disabled ← disableInvalidClients h
      let inbounds ← disableInvalidInbounds h
      if inbounds.2 then Prog.finish .commit else Prog.abandon
      pure (.ok { disabled.1 with
        restart := decide (renewed = .ok true) || disabled.1.restart || inbounds.1 })

/-- `AddTraffic`. -/
def addTraffic (h : Host) (b : Batch) : Tick (Outcome Disabled) := do
  Prog.start .begin
  let counted ← addInboundTraffic b.inbounds 0
  if counted then
    match ← addClientTraffic h b.clients with
    | .ok _ => renewAndDisable h
    | .error =>
        Prog.abandon
        pure .error
    | .panicked =>
        Prog.finish .commit
        pure .panicked
  else
    Prog.abandon
    pure .error

/-! ## The complete tick -/

/-- The bytes of the inbound records. -/
def Db.countInbounds (ts : List Traffic) (db : Db) : Db :=
  (ts.filter (·.isInbound)).foldl (fun db t => db.countInbound t) db

/-- The bytes of the client records, billed 1:1 or by the multipliers; nothing when an
entry makes it panic. -/
def Db.bookClients (raw : Bool) (h : Host) (records : List ClientRecord) (db : Db) : Option Db := do
  let rows := batchRows records db
  let (rows, inbounds) ← startInbounds h.now rows (loadInbounds (delayedIds rows) db)
  let db := { db with inbounds := saveInbounds db.inbounds inbounds }
  let policy := fun id => if raw || decide (id = 0) then none else db.inbounds.find? id
  some { db with traffics := saveRows db.traffics (billRows policy records rows) }

/-- The renewal of every account whose period is over. -/
def Db.renewClients (h : Host) (db : Db) : Option Db := do
  let due := db.traffics.rows.filter h.dueForRenewal
  let (rows, inbounds, _) ← renewInbounds h.now due (loadInbounds (due.map (·.inboundId)) db)
  let db := { db with inbounds := saveInbounds db.inbounds inbounds }
  some (rows.foldl (fun db ct => db.writeRenewal ct) db)

/-- Every record's bytes, and a complete renewal and disable pass. -/
def Db.complete (raw : Bool) (h : Host) (b : Batch) (db : Db) : Option Db := do
  let db ← (db.countInbounds b.inbounds).bookClients raw h b.clients
  let db ← db.renewClients h
  some ((db.disableClients h).disableInbounds h)

end Simorgh.Panel
