import Mathlib.Data.String.Basic
import Simorgh.Lib.Republish
import Simorgh.Vpn.Routing

/-!
# Publishing rates and address caps

The core reads every account's rates and its cap on addresses from a file.  The panel
works them out of the inbounds and the traffic table and writes the file again when it
changes: a flag that is raised by every statement on the inbounds, and passes that lower
it, read, and write.

* `computeSpeedLimits`, `speedLimitDocument` — what is published.
* `writeSpeedLimits` — a pass, query by query; `eval_writeSpeedLimits`.
* `limits_not_stranded` — with nothing under way the flag is up or the file is right, in
  runs of steps that `Republish.Ok` allows.
* `limits_stranded` — a change that is committed after a pass, and a query that fails.
-/

namespace Simorgh.Panel.SpeedLimits

open Simorgh.Lib Simorgh.Lib.Republish Simorgh.Vpn.Routing

/-! ## What is published -/

/-- One account's published limits, in bytes a second; zero is unlimited. -/
structure SpeedLimitUser where
  email : String
  downBps : Int
  upBps : Int
  ipLimit : Int
  /-- The column's word, if it is not the default. -/
  strategy : String
  ips : List String
  deriving DecidableEq, Repr

/-- The file the core reads. -/
abbrev SpeedLimitDoc := List SpeedLimitUser

/-- A client with its IP limit. -/
structure SpeedLimitClient where
  email : String
  ipLimit : Int
  deriving DecidableEq, Repr

/-- A row of the inbounds, with what is read of it here. -/
structure InboundRow where
  protocol : Protocol
  enable : Bool := true
  speedLimitEnable : Bool := false
  speedLimitSeparate : Bool := false
  speedLimitDown : Int := 0
  speedLimitUp : Int := 0
  speedLimitAfter : Int := 0
  ipLimit : Int := 0
  ipLimitStrategy : String := ""
  /-- The clients in the settings; none if they do not decode. -/
  clients : Option (List SpeedLimitClient) := none
  /-- The settings of a tunnel, if they decode. -/
  tunnel : Option Vpn.Routing.Inbound := none

/-- The limits of an inbound. -/
structure SpeedLimitPolicy where
  inbound : InboundRow
  clients : List SpeedLimitClient

/-- A KB in bytes. -/
def bytesPerKB : Int := 1024

/-- A rate in bytes a second. -/
def kbpsToBps (kbps : Int) : Int := if kbps ≤ 0 then 0 else int64 (kbps * bytesPerKB)

/-- The rates of an inbound.  Unless they are separate one caps each direction. -/
def inboundSpeedLimitRates (inb : InboundRow) : Int × Int :=
  if inb.speedLimitEnable = false then (0, 0)
  else
    let down := kbpsToBps inb.speedLimitDown
    if inb.speedLimitSeparate then (down, kbpsToBps inb.speedLimitUp) else (down, down)

/-- The limit applies from this usage on. -/
def speedLimitArmed (inb : InboundRow) (usage : Int) : Bool := decide (inb.speedLimitAfter ≤ usage)

/-- The smaller of two limits; zero is none. -/
def minNonZero (a b : Int) : Int := if a = 0 then b else if b = 0 then a else min a b

/-- The client's own limit, or the inbound's. -/
def resolveIPLimit (inb : InboundRow) (c : SpeedLimitClient) : Int :=
  if 0 < c.ipLimit then c.ipLimit else if 0 < inb.ipLimit then inb.ipLimit else 0

/-- The protocols that are no part of Xray. -/
def isVpnProtocol : Protocol → Bool
  | .l2tp | .pptp | .openvpn | .openconnect | .sstp | .ikev2 | .wgc | .awg | .gre => true
  | _ => false

/-- The core counts the addresses. -/
def ipLimitEnforcedInCore (inb : InboundRow) : Bool :=
  !isVpnProtocol inb.protocol && decide (inb.protocol ≠ .ssh) && decide (inb.protocol ≠ .mtproto)

/-- A device past the limit is turned away. -/
def ipLimitStrategyReject : String := "reject"

/-- A device past the limit takes an older one's place. -/
def ipLimitStrategyAccept : String := "accept"

/-- The strategy, rejecting unless it accepts. -/
def normIPLimitStrategy (inb : InboundRow) : String :=
  if inb.ipLimitStrategy = ipLimitStrategyAccept then ipLimitStrategyAccept else ipLimitStrategyReject

/-- Two inbounds' strategies for one account.  The empty text is no opinion. -/
def mergeIPLimitStrategy (a b : String) : String :=
  if a = "" then b
  else if b = "" then a
  else if a = ipLimitStrategyReject ∨ b = ipLimitStrategyReject then ipLimitStrategyReject
  else ipLimitStrategyAccept

/-- The routes of an account as texts, sorted and each once.  A lone address is a /32. -/
def speedLimitIPs (routes : List Route) : List String :=
  (routes.map fun r =>
    toString r.addr.subnet.a ++ "." ++ toString r.addr.subnet.b ++ "." ++ toString r.addr.subnet.c ++ "." ++
      toString r.addr.host ++ "/" ++ toString r.prefixLen).dedup.mergeSort fun a b => decide (a ≤ b)

/-- The limits of an account. -/
structure Limits where
  email : String
  down : Int := 0
  up : Int := 0
  ipLimit : Int := 0
  strategy : String := ""

/-- One client of a policy put into the limits of its account. -/
def mergeClient (usage : String → Int) (p : SpeedLimitPolicy) (merged : Table Limits.email)
    (c : SpeedLimitClient) : Table Limits.email :=
  if c.email = "" then merged
  else
    let (down, up) := inboundSpeedLimitRates p.inbound
    let m := (merged.find? c.email).getD { email := c.email }
    let m := if speedLimitArmed p.inbound (usage c.email) then
        { m with down := minNonZero m.down down, up := minNonZero m.up up }
      else m
    let ipCap := resolveIPLimit p.inbound c
    let m := if ipLimitEnforcedInCore p.inbound && decide (0 < ipCap) then
        { m with
          ipLimit := minNonZero m.ipLimit ipCap
          strategy := mergeIPLimitStrategy m.strategy (normIPLimitStrategy p.inbound) }
      else m
    merged.put { m with email := c.email }

/-- The limits of one inbound more. -/
def mergePolicy (usage : String → Int) (merged : Table Limits.email) (p : SpeedLimitPolicy) :
    Table Limits.email :=
  let (down, up) := inboundSpeedLimitRates p.inbound
  if down = 0 ∧ up = 0 ∧ ipLimitEnforcedInCore p.inbound = false then merged
  else p.clients.foldl (mergeClient usage p) merged

/-- The accounts with a limit, by email. -/
def computeSpeedLimits (policies : List SpeedLimitPolicy) (usage : String → Int)
    (ipMap : String → List Route) : List SpeedLimitUser :=
  let merged := policies.foldl (mergePolicy usage) Table.empty
  let limited := merged.rows.filter fun r => !(decide (r.down = 0) && decide (r.up = 0) && decide (r.ipLimit = 0))
  (limited.map fun r =>
    { email := r.email, downBps := r.down, upBps := r.up, ipLimit := r.ipLimit
      strategy := if r.strategy = ipLimitStrategyReject then "" else r.strategy
      ips := speedLimitIPs (ipMap r.email) }).mergeSort fun a b => decide (a.email ≤ b.email)

/-- The document that is written. -/
def speedLimitDocument (policies : List SpeedLimitPolicy) (usage : String → Int)
    (ipMap : String → List Route) : SpeedLimitDoc :=
  computeSpeedLimits policies usage ipMap

/-! ## A pass -/

/-- The tables a pass reads. -/
structure Database where
  inbounds : List InboundRow
  traffics : Table ClientTraffic.email

/-- What one inbound contributes, if anything. -/
def policyOf (inb : InboundRow) : Option SpeedLimitPolicy :=
  let coreIPCap := ipLimitEnforcedInCore inb
  if inb.speedLimitEnable = false ∧ coreIPCap = false then none
  else match inb.clients with
    | none => none
    | some entries =>
        let clients := entries.filter fun c => decide (trimSpace c.email ≠ "")
        let capped := (coreIPCap && decide (0 < inb.ipLimit)) || clients.any fun c => decide (0 < c.ipLimit)
        if inb.speedLimitEnable = false ∧ capped = false then none else some ⟨inb, clients⟩

/-- Nothing, if the query fails. -/
def loadSpeedLimitPolicies (db : Option Database) : List SpeedLimitPolicy :=
  match db with
  | none => []
  | some db => (db.inbounds.filter (·.enable)).filterMap policyOf

/-- Bytes moved; none, if the query fails. -/
def loadSpeedLimitUsage (db : Option Database) (email : String) : Int :=
  ((db.bind fun db => db.traffics.find? email).map fun ct => int64 (ct.up + ct.down)).getD 0

/-- The tunnels `BuildVpnEmailToIPMap` asks for first, and those it asks for next. -/
def tunnelInbounds (openvpn : Bool) (db : Option Database) : List Vpn.Routing.Inbound :=
  match db with
  | none => []
  | some db => ((db.inbounds.filterMap (·.tunnel)).filter fun i => i.enable).filter fun i =>
      if openvpn then decide (i.protocol = .openvpn)
      else slotPoolProtocol i.protocol && decide (i.protocol ≠ .openvpn)

/-- `WriteSpeedLimits`, once the flag is down and up to what is written. -/
def writeSpeedLimits : Reader Database SpeedLimitDoc :=
  .query fun db =>
    let policies := loadSpeedLimitPolicies db
    if policies.isEmpty then .done (speedLimitDocument policies (fun _ => 0) fun _ => [])
    else .query fun db =>
      let usage := loadSpeedLimitUsage db
      .query fun db =>
        let ppp := tunnelInbounds false db
        .query fun db =>
          .done (speedLimitDocument policies usage fun email =>
            (ppp ++ tunnelInbounds true db).flatMap (inboundRoutes email))

/-- The document of a database. -/
def published (db : Database) : SpeedLimitDoc :=
  speedLimitDocument (loadSpeedLimitPolicies (some db)) (loadSpeedLimitUsage (some db))
    (buildVpnEmailToIPMap (db.inbounds.filterMap (·.tunnel)))

/-- A pass that sees one database throughout arrives at its document. -/
theorem eval_writeSpeedLimits (db : Database) : writeSpeedLimits.eval db = published db := by
  rw [writeSpeedLimits, Reader.eval]
  simp only
  split
  · rename_i hempty
    -- without policies neither the usage nor the addresses matter
    rw [Reader.eval, published, List.isEmpty_iff.1 hempty]
    rfl
  · rfl

/-! ## Runs -/

/-- The panel has started: `RegisterSpeedLimitInvalidation` has raised the flag. -/
def started (db : Database) (file : Option SpeedLimitDoc) : State Database SpeedLimitDoc :=
  { store := db, dirty := true, file }

/-- The limit is as strict as the other, zero being none. -/
def AsStrict (a b : Int) : Prop := b = 0 ∨ a ≠ 0 ∧ a ≤ b

/-- Some account's limit in the one document is not in the other. -/
def Lifts (old new : SpeedLimitDoc) : Prop :=
  ∃ u ∈ old, ∀ u' ∈ new, u'.email = u.email →
    ¬(AsStrict u'.downBps u.downBps ∧ AsStrict u'.upBps u.upBps ∧ AsStrict u'.ipLimit u.ipLimit)

theorem inv_started (db : Database) (file : Option SpeedLimitDoc) : Inv writeSpeedLimits (started db file) :=
  Inv.of_dirty rfl (by simp [started]) (by simp [started])

/-- In every state a run of allowed steps reaches, the flag is up or the file is the
document of the committed database if nothing is under way; and no pass with a failed query
is about to lift a limit. -/
theorem limits_not_stranded (db : Database) (file : Option SpeedLimitDoc) (events : List (Republish.Event Database))
    (h : AllSteps (step writeSpeedLimits) Ok (started db file) events) :
    ∀ s ∈ states (step writeSpeedLimits) (started db file) events,
      (s.passes = [] → s.txs = [] → s.dirty = true ∨ s.file = some (published s.store)) ∧
        ∀ p ∈ s.passes, p.failed = true → ∀ doc, p.rest = .done doc → ∀ old ∈ s.file, ¬Lifts old doc := by
  have hinv : ∀ s ∈ states (step writeSpeedLimits) (started db file) events, Inv writeSpeedLimits s :=
    AllSteps.invariant (fun s e hs hok => hs.step ⟨_, rfl⟩ hok) h (inv_started db file)
  intro s hs
  refine ⟨fun hpasses _ => ?_, fun p hp hfailed => ?_⟩
  · rw [← eval_writeSpeedLimits]
    exact (hinv s hs).settled_or_dirty hpasses
  · rw [(hinv s hs).sound p hp] at hfailed
    cases hfailed

/-- Kim on an inbound that caps its accounts at so many addresses. -/
def kimOn (ipLimit : Int) : Database where
  inbounds := [{ protocol := .vless, ipLimit, clients := some [⟨"kim", 0⟩] }]
  traffics := Table.empty

def kimCapped : SpeedLimitUser :=
  { email := "kim", downBps := 0, upBps := 0, ipLimit := 1, strategy := "", ips := [] }

/-- A pass that does not fail, the first under way.  Without a cap one query is enough. -/
def onePass (queries : Nat) : List (Republish.Event Database) :=
  .pass :: List.replicate queries (.read 0 true) ++ [.publish 0 true]

/-- Kim is capped between two passes. -/
def cappedInTime : List (Republish.Event Database) :=
  onePass 1 ++ [.opened, .statement 0, .commit 0 fun _ => kimOn 1] ++ onePass 4

/-- Kim is capped by a statement that is committed after the pass it announced itself to. -/
def cappedTooLate : List (Republish.Event Database) :=
  onePass 1 ++ [.opened, .statement 0] ++ onePass 1 ++ [.commit 0 fun _ => kimOn 1]

theorem capped_in_time :
    (run (step writeSpeedLimits) (started (kimOn 0) none) cappedInTime).dirty = true ∨
      (run (step writeSpeedLimits) (started (kimOn 0) none) cappedInTime).file =
        some (published (run (step writeSpeedLimits) (started (kimOn 0) none) cappedInTime).store) := by
  have hok : AllSteps (step writeSpeedLimits) Ok (started (kimOn 0) none) cappedInTime := by
    decide +kernel
  have hpasses : (run (step writeSpeedLimits) (started (kimOn 0) none) cappedInTime).passes.isEmpty = true := by
    decide +kernel
  exact (limits_not_stranded (kimOn 0) none cappedInTime hok _ (run_mem_states _ _)).1
    (List.isEmpty_iff.1 hpasses) (by decide +kernel)

/-- A cap committed after the pass that lowered its flag is not published and nothing says
so; and a failed query takes a published cap away. -/
theorem limits_stranded :
    ((run (step writeSpeedLimits) (started (kimOn 0) none) cappedTooLate).passes.isEmpty = true ∧
      (run (step writeSpeedLimits) (started (kimOn 0) none) cappedTooLate).txs = [] ∧
      (run (step writeSpeedLimits) (started (kimOn 0) none) cappedTooLate).dirty = false ∧
      (run (step writeSpeedLimits) (started (kimOn 0) none) cappedTooLate).file = some [] ∧
      published (run (step writeSpeedLimits) (started (kimOn 0) none) cappedTooLate).store = [kimCapped]) ∧
    ((run (step writeSpeedLimits) (started (kimOn 1) (some [kimCapped]))
        [.pass, .read 0 false, .publish 0 true]).file = some [] ∧ Lifts [kimCapped] []) := by
  refine ⟨⟨by decide +kernel, by decide +kernel, by decide +kernel, by decide +kernel, by decide +kernel⟩,
    by decide +kernel, kimCapped, List.mem_singleton_self _, fun u' hu' => ?_⟩
  cases hu'

end Simorgh.Panel.SpeedLimits
