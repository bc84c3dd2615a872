import Simorgh.Lib.Table
import Simorgh.Panel.Model

/-!
# The session tables

The RADIUS server keeps three tables under one lock: the live sessions, the
addresses that were handed out and not yet confirmed, and the address each
station last had.

* `Tables.allocateBlockIP` — the address a dial is given.
* `Tables.handleAcct` — what an accounting packet does to the tables.
* `Tables.cleanStaleSessions`, `Tables.resetAllocations` — the sweep and the reset.

Time is counted in nanoseconds.  What `lookupEmail` finds and what the liveness
probes answer is part of the request.
-/

namespace Simorgh.Radius

open Simorgh.Lib Simorgh.Panel

/-! ## The tables -/

/-- The times in nanoseconds. -/
def second : ℕ := 1000000000

/-- How long an address is held for a device that has not come. -/
def pendingLeaseTTL : ℕ := 90 * second

/-- How long it is not taken over. -/
def pendingReclaimGrace : ℕ := 15 * second

/-- How long a session without a heartbeat is spared. -/
def ocStaleReclaimGrace : ℕ := 15 * second

/-- How long a heartbeat lasts. -/
def ocHeartbeatGrace : ℕ := 150 * second

/-- What a dialling device is known by, where its dial says so. -/
structure StationKey where
  protocol : Protocol
  inboundId : ℕ
  accountSlot : ℕ
  station : String
  nasPort : ℕ
  deriving DecidableEq

/-- The device at the other end.  The server does not know it: where its station and port
do not tell it, only the line it dials on does. -/
inductive Device where
  | keyed (key : StationKey)
  | line (n : ℕ)
  deriving DecidableEq

/-- `radiusSession`, under its key.  The device is not recorded by the server. -/
structure Session where
  sid : String
  email : String
  ip : String
  protocol : Protocol
  started : ℕ
  heard : Option ℕ := none
  acctID : String := ""
  device : Device
  deriving DecidableEq

/-- An address that was handed out and when, until its session starts. -/
structure Lease where
  ip : String
  since : ℕ
  device : Device
  deriving DecidableEq

/-- The address a station has, and when it was last seen: `stationIP` and `stationSeen`,
which are written together. -/
structure Claim where
  key : StationKey
  ip : String
  seen : ℕ
  deriving DecidableEq

/-- The server's tables. -/
structure Tables where
  sessions : Table Session.sid := Table.empty
  pending : Table Lease.ip := Table.empty
  claims : Table Claim.key := Table.empty

/-- The key of an OpenConnect session. -/
def ocSessionKey (ip : String) : String := "oc:" ++ ip

/-- The session is old enough to be probed. -/
def ocProbeReady (s : Session) (now : ℕ) : Bool :=
  !decide (now - s.started < ocStaleReclaimGrace) &&
    s.heard.all fun heard => !decide (now - heard < ocHeartbeatGrace)

/-! ## Dialling -/

/-- The first of the elements with the least time. -/
def earliest {α : Type} (time : α → ℕ) (l : List α) : Option α :=
  l.foldl (fun best a => match best with
    | none => some a
    | some b => if time a < time b then some a else some b) none

/-- A dial, of a device on a line, at a time, with what the route probe says of each
address. -/
structure Dial where
  inboundId : ℕ
  accountSlot : ℕ
  blockIPs : List String
  protocol : Protocol
  accept : Bool
  station : String
  nasPort : ℕ := 0
  email : String
  now : ℕ
  ocActive : String → Bool := fun _ => true
  line : ℕ := 0

/-- Where the dial-in comes from. -/
def Dial.skey (d : Dial) : Option StationKey :=
  if d.station = "" then none
  else some ⟨d.protocol, d.inboundId, d.accountSlot, d.station, d.nasPort⟩

/-- The protocols a redial keeps its address on. -/
def redials : Protocol → Bool
  | .openconnect | .sstp | .ikev2 => false
  | _ => true

/-- The device that dials: behind one station there may be several where ports do not tell
them apart. -/
def Dial.device (d : Dial) : Device :=
  match d.skey with
  | none => .line d.line
  | some key => if redials d.protocol then .keyed key else .line d.line

namespace Tables

/-- `recordOC`: an OpenConnect session starts with its dial. -/
def recordOC (t : Tables) (d : Dial) (ip : String) : Tables :=
  if d.protocol = .openconnect then
    { t with
      pending := t.pending.erase ip
      sessions :=
        if (t.sessions.find? (ocSessionKey ip)).isSome then
          t.sessions.modify (ocSessionKey ip)
            (fun s => { s with email := if d.email = "" then s.email else d.email }) fun _ => rfl
        else t.sessions.put ⟨ocSessionKey ip, d.email, ip, d.protocol, d.now, none, "", d.device⟩ }
  else t

/-- `assign`: the address is the station's, and nobody else's. -/
def assign (t : Tables) (d : Dial) (ip : String) : Tables :=
  let claims := match d.skey with
    | none => t.claims
    | some key =>
        (t.claims.deleteWhere fun c => decide (c.ip = ip) && decide (c.key ≠ key)).put ⟨key, ip, d.now⟩
  recordOC { t with claims, pending := t.pending.put ⟨ip, d.now, d.device⟩ } d ip

/-- The address a redial keeps. -/
def redialIP (t : Tables) (d : Dial) : Option String :=
  match d.skey with
  | none => none
  | some key =>
      if redials d.protocol then ((t.claims.find? key).map (·.ip)).filter fun ip => decide (ip ∈ d.blockIPs)
      else none

/-- The address is claimed again. -/
def refresh (t : Tables) (d : Dial) (ip : String) : Tables :=
  recordOC
    { t with
      claims := t.claims.updateWhere (fun c => decide (some c.key = d.skey)) (fun c => { c with seen := d.now })
        fun _ => rfl
      pending := t.pending.put ⟨ip, d.now, d.device⟩ } d ip

/-- What is dropped before an address is looked for: claims and leases that have run out,
and the OpenConnect sessions of the block whose tunnel is gone. -/
def settle (t : Tables) (d : Dial) : Tables where
  claims := t.claims.deleteWhere fun c => decide (pendingLeaseTTL < d.now - c.seen)
  sessions :=
    if d.protocol = .openconnect then
      t.sessions.deleteWhere fun s => d.blockIPs.any fun ip =>
        decide (s.sid = ocSessionKey ip) && ocProbeReady s d.now && !d.ocActive ip
    else t.sessions
  pending := t.pending.deleteWhere fun p => decide (pendingLeaseTTL < d.now - p.since)

/-- The address is taken. -/
def used (t : Tables) (ip : String) : Bool :=
  t.sessions.rows.any (fun s => decide (s.ip = ip)) || (t.pending.find? ip).isSome

/-- A free address of the block. -/
def freeIP (t : Tables) (d : Dial) : Option String := d.blockIPs.find? fun ip => !t.used ip

/-- The oldest lease of the block that is past the grace. -/
def ghostIP (t : Tables) (d : Dial) : Option String :=
  (earliest Lease.since ((d.blockIPs.filterMap t.pending.find?).filter fun p =>
    decide (pendingReclaimGrace < d.now - p.since))).map (·.ip)

/-- `oldestBlockSession`.  Of sessions that started at the same instant the table's order
decides. -/
def oldestBlockSession (t : Tables) (blockIPs : List String) : Option Session :=
  earliest Session.started (t.sessions.rows.filter fun s => decide (s.ip ∈ blockIPs))

/-- `allocateBlockIP`: the tables after a dial, and the address it is given, if it is not
denied. -/
def allocateBlockIP (t : Tables) (d : Dial) : Tables × Option String :=
  match t.redialIP d with
  | some ip => (t.refresh d ip, some ip)
  | none =>
      let t := t.settle d
      match t.freeIP d with
      | some ip => (t.assign d ip, some ip)
      | none =>
          match t.ghostIP d with
          | some ip => (t.assign d ip, some ip)
          | none =>
              match if d.accept then t.oldestBlockSession d.blockIPs else none with
              | some victim =>
                  (assign { t with sessions := t.sessions.erase victim.sid } d victim.ip, some victim.ip)
              | none => (t, none)

end Tables

/-! ## Accounting -/

/-- The kinds of accounting packets. -/
inductive AcctStatus where
  | start | stop | interim
  deriving DecidableEq

/-- An accounting packet of a device, at a time: the email is that of its user name, empty
if there is none. -/
structure AcctPacket where
  sessionId : String
  framedIP : Option String
  email : String
  protocol : Protocol
  now : ℕ
  device : Device

namespace Tables

/-- `handleOcservAcct`. -/
def handleOcservAcct (t : Tables) (status : AcctStatus) (p : AcctPacket) : Tables :=
  match p.framedIP with
  | none => t
  | some ip =>
      match status, t.sessions.find? (ocSessionKey ip) with
      | .start, _ => t
      | .interim, some _ =>
          { t with
            sessions := t.sessions.modify (ocSessionKey ip)
              (fun s => { s with heard := some p.now, acctID := p.sessionId }) fun _ => rfl }
      | .interim, none =>
          if p.email = "" then t
          else { t with
            sessions := t.sessions.put
              ⟨ocSessionKey ip, p.email, ip, .openconnect, p.now, some p.now, p.sessionId, p.device⟩ }
      | .stop, none => t
      | .stop, some s =>
          if s.acctID ≠ "" ∧ p.sessionId ≠ "" ∧ s.acctID ≠ p.sessionId then t
          else if s.acctID = "" ∧ p.now - s.started < ocStaleReclaimGrace then t
          else { t with sessions := t.sessions.erase (ocSessionKey ip) }

/-- `handleAcct`, as far as the tables go. -/
def handleAcct (t : Tables) (status : AcctStatus) (p : AcctPacket) : Tables :=
  if p.protocol = .openconnect then t.handleOcservAcct status p
  else
    match status, p.framedIP with
    | .start, none => t
    | .start, some ip =>
        if p.email = "" then t
        else { t with
          sessions := t.sessions.put ⟨p.sessionId, p.email, ip, p.protocol, p.now, none, "", p.device⟩
          pending := t.pending.erase ip }
    | .stop, _ => { t with sessions := t.sessions.erase p.sessionId }
    | .interim, none => t
    | .interim, some ip =>
        if (t.sessions.find? p.sessionId).isSome ∨ p.email = "" then t
        else { t with
          sessions := t.sessions.put ⟨p.sessionId, p.email, ip, p.protocol, p.now, none, "", p.device⟩ }

/-! ## Sweeping -/

/-- A session that `ReconcileLocalSessions` owns. -/
def isLocal (s : Session) : Bool := "cp:".toList.isPrefixOf s.sid.toList

/-- `CleanStaleSessions`: the sessions whose tunnel is down are dropped. -/
def cleanStaleSessions (t : Tables) (now : ℕ) (sessionActive : Session → Bool) : Tables :=
  { t with
    sessions := t.sessions.deleteWhere fun s =>
      !isLocal s && !(decide (s.protocol = .openconnect) && !ocProbeReady s now) && !sessionActive s }

/-- `ResetAllocations`. -/
def resetAllocations (t : Tables) (protocol : Protocol) : Tables :=
  { t with
    claims := t.claims.deleteWhere fun c => decide (c.key.protocol = protocol)
    pending := Table.empty }

end Tables

end Simorgh.Radius
