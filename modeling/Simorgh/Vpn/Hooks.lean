import Mathlib.Data.List.Nodup
import Simorgh.Lib.Table

/-!
# The OpenVPN connect hooks

OpenVPN runs a short-lived hook for every client that connects or leaves.  The
hooks share files: the addresses published for an account, the status file of each
transport, and a directory each for leases and for releases.  The connect hooks of
one transport wait for its lock; nothing else does.

* `View` — what a hook has read of its own transport.
* `Hook.next` — `ovpnLeaseBlockIP`, one file operation at a time.
* `Leaving.next` — the hook of a client that leaves.
* `Daemon.step` — clients come and go, OpenVPN rewrites its status files, and the hooks
  take their steps.

Time is counted in nanoseconds.  A status file is modelled by its client rows.
-/

namespace Simorgh.Vpn

open Simorgh.Lib

/-! ## The files -/

/-- OpenVPN's transports. -/
inductive Transport where
  | udp | tcp
  deriving DecidableEq

/-- The other one. -/
def Transport.other : Transport → Transport
  | .udp => .tcp
  | .tcp => .udp

/-- The transport, guessed from the address of the pool. -/
def ovpnTransport (poolIP : String) : Transport :=
  if "10.3.".toList.isPrefixOf poolIP.toList then .tcp else .udp

/-- The times in nanoseconds. -/
def seconds (n : ℤ) : ℤ := n * 1000000000

/-- How long a lease is not taken for abandoned. -/
def ovpnLeaseReclaimGrace : ℤ := seconds 10

/-- How long a lease lasts. -/
def ovpnLeaseTTL : ℤ := seconds 30

/-- How long a release is remembered. -/
def ovpnReleaseTTL : ℤ := seconds 15

/-- A client row of a status file; the time may not parse. -/
structure StatusRow where
  realAddr : String
  ip : String
  since : Option ℤ
  deriving DecidableEq

/-- A lease is named by its address and holds the key of its session. -/
structure LeaseFile where
  ip : String
  key : String
  mtime : ℤ
  deriving DecidableEq

/-- A file that says a lease was given up. -/
structure Marker where
  ip : String
  mtime : ℤ
  deriving DecidableEq

/-- The files the hooks share. -/
structure Files where
  status : Transport → List StatusRow
  leases : Transport → Table LeaseFile.ip
  released : Transport → Table Marker.ip

/-- What the panel publishes: the mask and the addresses of every account, and the strategy. -/
structure OvpnConfig where
  block : Transport → String → Option (String × List String)
  accept : Transport → Bool

/-- The addresses published for an account; a file without any is none. -/
def OvpnConfig.candidates (cfg : OvpnConfig) (t : Transport) (user : String) : List String :=
  ((cfg.block t user).map (·.2)).getD []

/-- `ovpnStatusIPs`. -/
def ovpnStatusIPs (rows : List StatusRow) : List String := (rows.map (·.ip)).filter fun ip => decide (ip ≠ "")

/-- The entry with the greatest value above a floor, the first of them. -/
def greatest {α : Type} (floor : ℤ) (l : List (α × ℤ)) : Option α :=
  (l.foldl (fun (best : Option α × ℤ) e => if best.2 < e.2 then (some e.1, e.2) else best) (none, floor)).1

/-! ## What a hook has read -/

/-- What a hook has read of its own transport: the addresses in the status file, the
releases, and the leases at a time. -/
structure View where
  live : List String
  released : List String
  leases : Table LeaseFile.ip
  now : ℤ

namespace View

/-- How old a lease is. -/
def age (v : View) (l : LeaseFile) : ℤ := v.now - l.mtime

/-- The address has a lease. -/
def leased (v : View) (ip : String) : Bool := (v.leases.find? ip).isSome

/-- A device has the address. -/
def inUse (v : View) (ip : String) : Bool :=
  v.leased ip || decide (ip ∈ v.live) && !decide (ip ∈ v.released)

/-- The address of a device that is connected, as far as the files say. -/
def liveStatus (v : View) (ip : String) : Bool :=
  decide (ip ∈ v.live) && (!decide (ip ∈ v.released) || v.leased ip)

/-- The oldest lease past the grace with nobody behind it. -/
def ghostIP (v : View) (candidates : List String) : Option String :=
  greatest 0 (((candidates.filter fun ip => !v.liveStatus ip).filterMap fun ip =>
    (v.leases.find? ip).map fun l => (ip, v.age l)).filter fun e => decide (ovpnLeaseReclaimGrace < e.2))

/-- `oldestLeasedIP`, over every lease of the directory. -/
def oldestLeasedIP (v : View) : Option String := greatest (-1) (v.leases.rows.map fun l => (l.ip, v.age l))

/-- How many addresses of the block are in use. -/
def used (v : View) (candidates : List String) : ℕ := (candidates.filter v.inUse).length

end View

/-- `ovpnOldestFromStatus`: the client of the block that has been connected longest. -/
def ovpnOldestFromStatus (rows : List StatusRow) (candidates : List String) : Option StatusRow :=
  greatest (-2 ^ 62) ((rows.filter fun r => decide (r.ip ∈ candidates)).filterMap fun r =>
    r.since.map fun since => (r, -since))

/-! ## The connect hook -/

/-- How an address comes to be handed out: it is free, its lease is abandoned, or whoever has
it is handed to the evictor, by real address if one is known. -/
inductive Grant where
  | free (ip : String)
  | ghost (ip : String)
  | evict (ip realAddr : String)
  deriving DecidableEq

/-- The address that is given. -/
def Grant.ip : Grant → String
  | .free ip | .ghost ip | .evict ip _ => ip

/-- Where a hook is: what it does next, with what it knows. -/
inductive Phase where
  | status
  | released (live : List String)
  | leases (live released : List String)
  | otherStatus (v : View)
  | otherLeases (v : View) (live : List String)
  | victim (v : View) (others : List String)
  | lease (v : View) (others : List String) (g : Grant)
  | clear (ip : String)

/-- A connect hook under way; the transport the client is really on is not known to it. -/
structure Hook where
  user : String
  key : String
  client : Transport
  phase : Phase

/-- The files with the lease directory of a transport changed. -/
def Files.setLeases (f : Files) (t : Transport) (table : Table LeaseFile.ip) : Files :=
  { f with leases := Function.update f.leases t table }

/-- The markers of a transport. -/
def Files.setReleased (f : Files) (t : Transport) (table : Table Marker.ip) : Files :=
  { f with released := Function.update f.released t table }

/-- A free address if the account has room, else an abandoned one, else a victim's if the
strategy accepts. -/
def decideLease (cfg : OvpnConfig) (t : Transport) (user : String) (v : View) (others : List String) :
    Option Phase :=
  let candidates := cfg.candidates t user
  let free := if v.used candidates + others.length < candidates.length then candidates.find? fun ip => !v.inUse ip
    else none
  match free with
  | some ip => some (.lease v others (.free ip))
  | none =>
      match v.ghostIP candidates with
      | some ip => some (.lease v others (.ghost ip))
      | none => if cfg.accept t then some (.victim v others) else none

/-- The next operation of a hook on a transport, at a time: the files after it, and where the
hook is then. -/
def Hook.next (cfg : OvpnConfig) (t : Transport) (h : Hook) (now : ℤ) (f : Files) : Files × Option Phase :=
  match h.phase with
  | .status => (f, some (.released (ovpnStatusIPs (f.status t))))
  | .released live =>
      -- markers past their time are removed on the way
      let fresh := (f.released t).deleteWhere fun m => decide (ovpnReleaseTTL < now - m.mtime)
      (f.setReleased t fresh, some (.leases live (fresh.rows.map (·.ip))))
  | .leases live released =>
      let fresh := (f.leases t).deleteWhere fun l => decide (ovpnLeaseTTL < now - l.mtime)
      (f.setLeases t fresh, some (.otherStatus ⟨live, released, fresh, now⟩))
  | .otherStatus v =>
      -- an account without a block on the other transport has nothing there to count
      if cfg.candidates t.other h.user = [] then (f, decideLease cfg t h.user v [])
      else (f, some (.otherLeases v (ovpnStatusIPs (f.status t.other))))
  | .otherLeases v live =>
      let leased := ((f.leases t.other).rows.filter fun l => !decide (ovpnLeaseTTL < now - l.mtime)).map (·.ip)
      (f, decideLease cfg t h.user v
        ((cfg.candidates t.other h.user).filter fun ip => decide (ip ∈ live) || decide (ip ∈ leased)))
  | .victim v others =>
      match ovpnOldestFromStatus (f.status t) (cfg.candidates t h.user) with
      | some r => (f, some (.lease v others (.evict r.ip r.realAddr)))
      | none => (f, v.oldestLeasedIP.map fun ip => .lease v others (.evict ip ""))
  | .lease _ _ g => (f.setLeases t ((f.leases t).put ⟨g.ip, h.key, now⟩), some (.clear g.ip))
  | .clear ip => (f.setReleased t ((f.released t).erase ip), none)

/-! ## The disconnect hook -/

/-- The hook of a client that left: it looks for its lease, removes it, and marks the address
as released. -/
inductive LeavePhase where
  | find
  | remove (ip : String)
  | release (ip : String)

/-- A device that is leaving. -/
structure Leaving where
  transport : Transport
  key : String
  phase : LeavePhase

/-- One step of leaving. -/
def Leaving.next (l : Leaving) (now : ℤ) (f : Files) : Files × Option LeavePhase :=
  match l.phase with
  | .find =>
      (f, ((f.leases l.transport).rows.find? fun file => decide (l.key ≠ "") && decide (file.key = l.key)).map
        fun file => .remove file.ip)
  | .remove ip => (f.setLeases l.transport ((f.leases l.transport).erase ip), some (.release ip))
  | .release ip => (f.setReleased l.transport ((f.released l.transport).put ⟨ip, now⟩), none)

/-! ## The daemon -/

/-- A device that was let in and has not left, nor been handed to the evictor. -/
structure OvpnDevice where
  user : String
  transport : Transport
  ip : String
  key : String
  deriving DecidableEq

/-- OpenVPN, its hooks and their files. -/
structure Daemon where
  files : Files
  devices : List OvpnDevice := []
  hooks : Transport → Option Hook := fun _ => none
  leaving : List Leaving := []

/-- The steps of the daemon and its hooks. -/
inductive DaemonEvent where
  | connect (client : Transport) (user poolIP key : String)
  | hook (t : Transport) (now : ℤ)
  | status (t : Transport) (rows : List StatusRow)
  | disconnect (client : Transport) (poolIP key : String)
  | leave (n : ℕ) (now : ℤ)

/-- The devices an address is taken from: what the evictor is told to kill. -/
def Grant.evicts (t : Transport) (g : Grant) (d : OvpnDevice) : Bool :=
  match g with
  | .evict ip realAddr =>
      decide (d.transport = t) && if realAddr = "" then decide (d.ip = ip) else decide (d.key = realAddr)
  | _ => false

/-- The devices after a hook's step: a lease lets its device in, and hands its victim to the
evictor. -/
def Hook.admits (t : Transport) (h : Hook) (devices : List OvpnDevice) : List OvpnDevice :=
  match h.phase with
  | .lease _ _ g => (devices.filter fun d => !g.evicts t d) ++ [⟨h.user, h.client, g.ip, h.key⟩]
  | _ => devices

/-- One event. -/
def Daemon.step (cfg : OvpnConfig) (s : Daemon) : DaemonEvent → Daemon
  | .connect client user poolIP key =>
      let t := ovpnTransport poolIP
      -- the hook waits for the lock of its transport
      if (s.hooks t).isSome ∨ cfg.candidates t user = [] then s
      else { s with hooks := Function.update s.hooks t (some ⟨user, key, client, .status⟩) }
  | .hook t now =>
      match s.hooks t with
      | none => s
      | some h =>
          let r := h.next cfg t now s.files
          { s with
            files := r.1
            devices := h.admits t s.devices
            hooks := Function.update s.hooks t (r.2.map fun phase => { h with phase }) }
  | .status t rows => { s with files := { s.files with status := Function.update s.files.status t rows } }
  | .disconnect client poolIP key =>
      { s with
        devices := s.devices.filter fun d => !(decide (d.transport = client) && decide (d.key = key))
        leaving := s.leaving ++ [⟨ovpnTransport poolIP, key, .find⟩] }
  | .leave n now =>
      match s.leaving[n]? with
      | none => s
      | some l =>
          let r := l.next now s.files
          { s with
            files := r.1
            leaving := match r.2 with
              | none => s.leaving.eraseIdx n
              | some phase => s.leaving.set n { l with phase } }

end Simorgh.Vpn
