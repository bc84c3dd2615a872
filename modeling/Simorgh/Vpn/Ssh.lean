import Mathlib.Data.Finset.Card
import Mathlib.Data.List.Dedup
import Mathlib.Data.List.Sort
import Simorgh.Lib.Run
import Simorgh.Lib.Table
import Simorgh.Panel.Model

/-!
# The SSH gateway

The gateway keeps a listener for each inbound and a table of live sessions by account.
A tick closes the sessions of accounts whose traffic row is off and trims the others to
the User Limit; the listeners are reconciled when an inbound is saved.

* `lookupAccount`, `admitSession` — a login.
* `enforce`, `reconcile`, `stopAll` — what the panel does to what is running.
* `distinct_trim` — after trimming at most K source addresses are left.
* `live_sessions_admissible` — what has to hold of every step for the sessions that are
  open after a tick, a reconcile or a stop to be ones the gateway would admit.
-/

namespace Simorgh.Vpn.Ssh

open Simorgh.Lib
open Simorgh.Panel (trimSpace)

/-! ## Inbounds and accounts -/

/-- A client of an SSH inbound. -/
structure Client where
  id : String
  password : String
  email : String
  enable : Bool := true
  deriving DecidableEq

/-- The settings of an SSH inbound. -/
structure Settings where
  userLimit : Option ℤ := none
  /-- `normUserLimitStrategy` gives "accept" -/
  accept : Bool := true
  hostKey : String := ""
  clients : List Client := []

/-- An SSH inbound. -/
structure Inbound where
  id : ℕ
  enable : Bool := true
  port : ℕ := 22
  /-- what `parseSettings` gives -/
  settings : Option Settings

/-- The rows the service reads. -/
structure Db where
  inbounds : Table Inbound.id
  /-- the emails whose traffic row is off -/
  disabled : List String := []

/-- There is nothing but blanks. -/
def blank (s : String) : Bool := decide (trimSpace s = "")

/-- `activeClients`. -/
def activeClients (o : Settings) : List Client :=
  o.clients.filter fun c => !blank c.id && !blank c.password && !blank c.email && c.enable

/-- `effectiveSshK`, with 0 for no limit. -/
def effectiveSshK : Option ℤ → ℕ
  | none => 1
  | some u => if u ≤ 0 then 0 else if 64 < u then 64 else u.toNat

/-- `lookupAccount`. -/
def lookupAccount (db : Db) (inboundId : ℕ) (username password : String) : Option Client :=
  match db.inbounds.find? inboundId with
  | none => none
  | some i =>
      if i.enable then
        match i.settings with
        | none => none
        | some o =>
            match (activeClients o).find? fun c => decide (c.id = username) with
            | none => none
            | some c => if c.password = password ∧ c.email ∉ db.disabled then some c else none
      else none

/-- `inboundLimit`: the User Limit, and whether a new device evicts the oldest. -/
def inboundLimit (db : Db) (inboundId : ℕ) : ℕ × Bool :=
  match (db.inbounds.find? inboundId).bind (·.settings) with
  | none => (1, false)
  | some o => (effectiveSshK o.userLimit, o.accept)

/-! ## The gateway -/

/-- An admitted login. -/
structure Session where
  key : ℕ
  inboundId : ℕ
  email : String
  srcIP : String
  since : ℤ
  /-- it has not been told to close -/
  isOpen : Bool := true
  deriving DecidableEq

/-- A connection that was accepted and is not authenticated yet. -/
structure Conn where
  inboundId : ℕ
  srcIP : String

/-- A login that is authenticated and not yet admitted. -/
structure Handshake where
  inboundId : ℕ
  email : String
  srcIP : String

/-- A listener for an inbound. -/
structure Server where
  inboundId : ℕ
  port : ℕ
  hostKey : String

/-- The database, the listeners and the logins. -/
structure Gateway where
  db : Db
  servers : Table Server.inboundId := Table.empty
  conns : List Conn := []
  handshakes : List Handshake := []
  sessions : List Session := []
  next : ℕ := 0

/-- When an address was first seen. -/
def earliest (set : List Session) (ip : String) : ℤ :=
  match (set.filter fun x => decide (x.srcIP = ip)).map (·.since) with
  | [] => 0
  | t :: ts => ts.foldl min t

/-- `ipFirst`: the source addresses, each with the time it was first seen. -/
def ipFirst (set : List Session) : List (String × ℤ) :=
  (set.map (·.srcIP)).dedup.map fun ip => (ip, earliest set ip)

/-- The addresses, the oldest first.  Among addresses of one time the map decides; here it is
the one that connected first. -/
def byAge (set : List Session) : List String := ((ipFirst set).insertionSort fun a b => a.2 ≤ b.2).map (·.1)

/-- The sessions of an account. -/
def Gateway.sessionsOf (g : Gateway) (email : String) : List Session :=
  g.sessions.filter fun x => decide (x.email = email)

/-- `admit`. -/
def Gateway.admitSession (g : Gateway) (h : Handshake) (now : ℤ) : Gateway :=
  let set := g.sessionsOf h.email
  let limit := inboundLimit g.db h.inboundId
  let session : Session :=
    { key := g.next, inboundId := h.inboundId, email := h.email, srcIP := h.srcIP, since := now }
  if limit.1 = 0 ∨ h.srcIP ∈ set.map (·.srcIP) ∨ (ipFirst set).length < limit.1 then
    { g with sessions := g.sessions ++ [session], next := g.next + 1 }
  else if limit.2 then
    -- the oldest device goes, with all its sessions
    { g with
      sessions := (g.sessions.filter fun x =>
        decide (¬ (x.email = h.email ∧ (byAge set).head? = some x.srcIP))) ++ [session]
      next := g.next + 1 }
  else g

/-- The addresses of an account a tick closes, at User Limit `k`. -/
def evicted (set : List Session) (k : ℕ) : List String :=
  if k = 0 then [] else (byAge set).take ((ipFirst set).length - k)

/-- The inbound whose User Limit a tick applies to an account: that of one of its sessions,
whichever the map gives last. -/
def Gateway.limitedBy (g : Gateway) (pick : String → ℕ) (email : String) : ℕ :=
  if pick email ∈ (g.sessionsOf email).map (·.inboundId) then pick email
  else ((g.sessionsOf email).map (·.inboundId)).headD 0

/-- A tick closes the session. -/
def Gateway.closes (g : Gateway) (pick : String → ℕ) (x : Session) : Bool :=
  decide (x.email ∈ g.db.disabled) ||
    decide (x.srcIP ∈ evicted (g.sessionsOf x.email) (inboundLimit g.db (g.limitedBy pick x.email)).1)

/-- `enforce`. -/
def Gateway.enforce (g : Gateway) (pick : String → ℕ) : Gateway :=
  { g with sessions := g.sessions.map fun x => if g.closes pick x then { x with isOpen := false } else x }

/-- The inbound of a server is gone, or its port or host key changed. -/
def Db.stops (db : Db) (srv : Server) : Bool :=
  match db.inbounds.find? srv.inboundId with
  | none => true
  | some i =>
      if i.enable then
        match i.settings with
        | none => false
        | some o => decide (i.port ≠ srv.port) || decide (o.hostKey ≠ srv.hostKey)
      else true

/-- `startServer`, for an inbound that is not running.  A port may fail to bind and a host key
may fail to parse. -/
def startServer (binds : ℕ → Bool) (servers : Table Server.inboundId) (i : Inbound) : Table Server.inboundId :=
  match i.settings with
  | none => servers
  | some o =>
      if i.enable && (servers.find? i.id).isNone && binds i.id then servers.put ⟨i.id, i.port, o.hostKey⟩
      else servers

/-- `reconcile`. -/
def Gateway.reconcile (g : Gateway) (binds : ℕ → Bool) : Gateway :=
  { g with servers := g.db.inbounds.rows.foldl (startServer binds) (g.servers.deleteWhere g.db.stops) }

/-- `stopAll`. -/
def Gateway.stopAll (g : Gateway) : Gateway := { g with servers := Table.empty }

/-- The steps of clients and of the service. -/
inductive Event where
  | db (db : Db)
  | connect (inboundId : ℕ) (srcIP : String)
  | auth (n : ℕ) (username password : String)
  | admitSession (n : ℕ) (now : ℤ)
  | leave (key : ℕ)
  | enforce (pick : String → ℕ)
  | reconcile (binds : ℕ → Bool)
  | stopAll

/-- One event. -/
def Gateway.step (g : Gateway) : Event → Gateway
  | .db db => { g with db := db }
  | .connect inboundId srcIP =>
      if (g.servers.find? inboundId).isSome then { g with conns := g.conns ++ [⟨inboundId, srcIP⟩] } else g
  | .auth n username password =>
      -- the listener may be gone by now
      match g.conns[n]? with
      | none => g
      | some conn =>
          match lookupAccount g.db conn.inboundId username password with
          | none => g
          | some c =>
              { g with
                conns := g.conns.eraseIdx n
                handshakes := g.handshakes ++ [⟨conn.inboundId, c.email, conn.srcIP⟩] }
  | .admitSession n now =>
      match g.handshakes[n]? with
      | some h => { g.admitSession h now with handshakes := g.handshakes.eraseIdx n }
      | none => g
  | .leave key => { g with sessions := g.sessions.filter fun x => decide (x.key ≠ key) }
  | .enforce pick => g.enforce pick
  | .reconcile binds => g.reconcile binds
  | .stopAll => g.stopAll

/-! ## What should be open -/

/-- The gateway would admit the account on the inbound. -/
def Admissible (db : Db) (inboundId : ℕ) (email : String) : Prop :=
  ∃ username password c, lookupAccount db inboundId username password = some c ∧ c.email = email

/-- The source addresses of an account's open sessions on an inbound. -/
def Gateway.openIPs (g : Gateway) (inboundId : ℕ) (email : String) : Finset String :=
  ((g.sessions.filter fun x => x.isOpen && decide (x.inboundId = inboundId) && decide (x.email = email)).map
    (·.srcIP)).toFinset

/-- No account has open sessions from more addresses than the User Limit. -/
def Gateway.WithinLimit (g : Gateway) : Prop :=
  ∀ id ∈ g.db.inbounds.rows.map (·.id), 0 < (inboundLimit g.db id).1 → ∀ email,
    (g.openIPs id email).card ≤ (inboundLimit g.db id).1

/-- Every open session is on an enabled inbound that has a listener and of an account the
gateway would admit, and no account is over the User Limit of its inbound. -/
structure Gateway.Live (g : Gateway) : Prop where
  inbound : ∀ x ∈ g.sessions, x.isOpen = true → ∃ i, g.db.inbounds.find? x.inboundId = some i ∧ i.enable = true
  listener : ∀ x ∈ g.sessions, x.isOpen = true → (g.servers.find? x.inboundId).isSome = true
  account : ∀ x ∈ g.sessions, x.isOpen = true → Admissible g.db x.inboundId x.email
  limit : g.WithinLimit

/-- The inbound of an account is enabled, and the account is one of its active clients, found
by its username. -/
def Db.Lists (db : Db) (inboundId : ℕ) (email : String) : Prop :=
  ∃ i o c, db.inbounds.find? inboundId = some i ∧ i.enable = true ∧ i.settings = some o ∧
    ((activeClients o).find? fun d => decide (d.id = c.id)) = some c ∧ c.email = email

theorem Db.Lists.admissible {db : Db} {inboundId : ℕ} {email : String} (h : db.Lists inboundId email)
    (hon : email ∉ db.disabled) : Admissible db inboundId email := by
  obtain ⟨i, o, c, hi, henable, ho, hc, rfl⟩ := h
  refine ⟨c.id, c.password, c, ?_, rfl⟩
  simp [lookupAccount, hi, henable, ho, hc, hon]

/-! ## Trimming -/

section Trimming

variable (set : List Session)

theorem perm_byAge : (byAge set).Perm (set.map (·.srcIP)).dedup := by
  have hperm := (List.perm_insertionSort (fun a b : String × ℤ => a.2 ≤ b.2) (ipFirst set)).map (·.1)
  refine hperm.trans ?_
  rw [ipFirst, List.map_map]
  exact (List.map_id _).symm ▸ List.Perm.refl _

theorem length_byAge : (byAge set).length = (ipFirst set).length := by
  rw [byAge, List.length_map, List.length_insertionSort]

/-- **After trimming at most `k` addresses are left.** -/
theorem distinct_trim {k : ℕ} (hk : 0 < k) {ips : Finset String} (hips : ∀ ip ∈ ips, ip ∈ set.map (·.srcIP))
    (hkept : ∀ ip ∈ ips, ip ∉ evicted set k) : ips.card ≤ k := by
  have hsub : ips ⊆ ((byAge set).drop ((ipFirst set).length - k)).toFinset := by
    intro ip hip
    have hmem : ip ∈ byAge set := (perm_byAge set).mem_iff.2 (List.mem_dedup.2 (hips ip hip))
    have hnot := hkept ip hip
    rw [evicted, if_neg hk.ne'] at hnot
    rw [← List.take_append_drop ((ipFirst set).length - k) (byAge set), List.mem_append] at hmem
    exact List.mem_toFinset.2 (hmem.resolve_left hnot)
  calc ips.card ≤ ((byAge set).drop ((ipFirst set).length - k)).toFinset.card := Finset.card_le_card hsub
    _ ≤ ((byAge set).drop ((ipFirst set).length - k)).length := List.toFinset_card_le _
    _ ≤ k := by
      rw [List.length_drop, length_byAge]
      omega

end Trimming

/-! ## Every run -/

/-- What has to hold of a step.  An edit leaves the inbound and the account of every open
session in place.  A login is admitted where they still are and there is a listener, with all
sessions of its account on one inbound.  The listeners are reconciled when no account with open
sessions is off or over its limit, and the ones that are stopped can be started again; they are
all stopped when no session is open. -/
def Gateway.Timely (g : Gateway) : Event → Prop
  | .db db => ∀ x ∈ g.sessions, x.isOpen = true → db.Lists x.inboundId x.email
  | .admitSession n _ => ∀ h, g.handshakes[n]? = some h →
      g.db.Lists h.inboundId h.email ∧ (g.servers.find? h.inboundId).isSome = true ∧
        ∀ x ∈ g.sessions, x.email = h.email → x.inboundId = h.inboundId
  | .reconcile binds =>
      (∀ x ∈ g.sessions, x.isOpen = true → x.email ∉ g.db.disabled ∧
        ∀ srv, g.servers.find? x.inboundId = some srv → g.db.stops srv = true → binds x.inboundId = true) ∧
      g.WithinLimit
  | .stopAll => ∀ x ∈ g.sessions, x.isOpen = false
  | _ => True

/-- The event is one after which the sessions are looked at. -/
def Event.checks : Event → Bool
  | .enforce _ | .reconcile _ | .stopAll => true
  | _ => false

/-- What every state of a timely run keeps. -/
structure Gateway.Kept (g : Gateway) : Prop where
  listed : ∀ x ∈ g.sessions, x.isOpen = true → g.db.Lists x.inboundId x.email
  listener : ∀ x ∈ g.sessions, x.isOpen = true → (g.servers.find? x.inboundId).isSome = true
  single : ∀ x ∈ g.sessions, ∀ y ∈ g.sessions, x.email = y.email → x.inboundId = y.inboundId

section Steps

variable {g : Gateway}

/-- A session after a login is an old one or the one that is new. -/
theorem mem_admit {h : Handshake} {now : ℤ} {x : Session} (hx : x ∈ (g.admitSession h now).sessions) :
    x ∈ g.sessions ∨ x.inboundId = h.inboundId ∧ x.email = h.email := by
  simp only [Gateway.admitSession] at hx
  split at hx
  · rcases List.mem_append.1 hx with hx | hx
    · exact .inl hx
    · rw [List.mem_singleton.1 hx]
      exact .inr ⟨rfl, rfl⟩
  · split at hx
    · rcases List.mem_append.1 hx with hx | hx
      · exact .inl (List.mem_filter.1 hx).1
      · rw [List.mem_singleton.1 hx]
        exact .inr ⟨rfl, rfl⟩
    · exact .inl hx

theorem admit_eq (h : Handshake) (now : ℤ) : (g.admitSession h now).db = g.db ∧
    (g.admitSession h now).servers = g.servers := by
  simp only [Gateway.admitSession]
  split
  · exact ⟨rfl, rfl⟩
  · split
    · exact ⟨rfl, rfl⟩
    · exact ⟨rfl, rfl⟩

/-- A session after a tick. -/
theorem mem_enforce {pick : String → ℕ} {x : Session} (hx : x ∈ (g.enforce pick).sessions) :
    ∃ y ∈ g.sessions, x.inboundId = y.inboundId ∧ x.email = y.email ∧ x.srcIP = y.srcIP ∧
      (x.isOpen = true → y.isOpen = true ∧ g.closes pick y = false) := by
  obtain ⟨y, hy, rfl⟩ := List.mem_map.1 hx
  refine ⟨y, hy, ?_⟩
  by_cases hcloses : g.closes pick y = true
  · simp [hcloses]
  · simp [hcloses]

section Starting

variable {binds : ℕ → Bool} {servers : Table Server.inboundId} {id : ℕ}

/-- Starting a server keeps the ones there are. -/
theorem isSome_startServer (i : Inbound) (hsrv : (servers.find? id).isSome = true) :
    ((startServer binds servers i).find? id).isSome = true := by
  rw [startServer]
  split
  · exact hsrv
  · split
    · rw [Table.find?_put]
      split
      · rfl
      · exact hsrv
    · exact hsrv

theorem isSome_startServer_self {i : Inbound} {o : Settings} (ho : i.settings = some o) (henable : i.enable = true)
    (hbinds : binds i.id = true) : ((startServer binds servers i).find? i.id).isSome = true := by
  cases hrun : servers.find? i.id with
  | some srv => exact isSome_startServer i (by rw [hrun]; rfl)
  | none =>
      have hstart : startServer binds servers i = servers.put ⟨i.id, i.port, o.hostKey⟩ := by
        simp [startServer, ho, henable, hbinds, hrun]
      rw [hstart, Table.find?_put, if_pos rfl]
      rfl

theorem isSome_foldl_startServer (rows : List Inbound) (hsrv : (servers.find? id).isSome = true) :
    ((rows.foldl (startServer binds) servers).find? id).isSome = true := by
  induction rows generalizing servers with
  | nil => exact hsrv
  | cons i rows ih => exact ih (isSome_startServer i hsrv)

/-- An enabled inbound whose port binds has a server when all were looked at. -/
theorem isSome_foldl_startServer_of_mem {rows : List Inbound} {i : Inbound} (hi : i ∈ rows) {o : Settings}
    (ho : i.settings = some o) (henable : i.enable = true) (hbinds : binds i.id = true) :
    ((rows.foldl (startServer binds) servers).find? i.id).isSome = true := by
  induction rows generalizing servers with
  | nil => cases hi
  | cons j rows ih =>
      rcases List.mem_cons.1 hi with rfl | hi
      · exact isSome_foldl_startServer rows (isSome_startServer_self ho henable hbinds)
      · exact ih hi

end Starting

/-- A session keeps its listener through a reconcile, unless the listener is stopped and does
not start again. -/
theorem isSome_reconcile {binds : ℕ → Bool} {x : Session} (hlists : g.db.Lists x.inboundId x.email)
    (hsrv : (g.servers.find? x.inboundId).isSome = true)
    (hbinds : ∀ srv, g.servers.find? x.inboundId = some srv → g.db.stops srv = true → binds x.inboundId = true) :
    ((g.reconcile binds).servers.find? x.inboundId).isSome = true := by
  obtain ⟨srv, hsrv⟩ := Option.isSome_iff_exists.1 hsrv
  rw [Gateway.reconcile]
  by_cases hstops : g.db.stops srv = true
  · obtain ⟨i, o, -, hi, henable, ho, -⟩ := hlists
    obtain ⟨hmem, hid⟩ := Table.find?_some hi
    have hb := hbinds srv hsrv hstops
    rw [← hid] at hb ⊢
    exact isSome_foldl_startServer_of_mem hmem ho henable hb
  · refine isSome_foldl_startServer _ ?_
    rw [Table.find?_deleteWhere, hsrv, Option.filter_some, if_pos]
    · rfl
    · simp [hstops]

theorem Gateway.Kept.step (hg : g.Kept) {e : Event} (hok : g.Timely e) : (g.step e).Kept := by
  cases e with
  | db db => exact ⟨hok, hg.listener, hg.single⟩
  | connect inboundId srcIP =>
      simp only [Gateway.step]
      split
      · exact ⟨hg.listed, hg.listener, hg.single⟩
      · exact hg
  | auth n username password =>
      simp only [Gateway.step]
      split
      · exact hg
      · split
        · exact hg
        · exact ⟨hg.listed, hg.listener, hg.single⟩
  | admitSession n now =>
      simp only [Gateway.step]
      cases hn : g.handshakes[n]? with
      | none => exact hg
      | some h =>
          obtain ⟨hlists, hlistener, hsame⟩ := hok h hn
          obtain ⟨hdb, hservers⟩ := @admit_eq g h now
          refine ⟨fun x hx hopen => ?_, fun x hx hopen => ?_, fun x hx y hy hemail => ?_⟩
          · simp only [hdb]
            rcases mem_admit hx with hx | ⟨hid, hemail⟩
            · exact hg.listed x hx hopen
            · rw [hid, hemail]
              exact hlists
          · simp only [hservers]
            rcases mem_admit hx with hx | ⟨hid, -⟩
            · exact hg.listener x hx hopen
            · rw [hid]
              exact hlistener
          · rcases mem_admit hx with hx | ⟨hxid, hxemail⟩ <;> rcases mem_admit hy with hy | ⟨hyid, hyemail⟩
            · exact hg.single x hx y hy hemail
            · rw [hyid]
              exact hsame x hx (hemail.trans hyemail)
            · rw [hxid]
              exact (hsame y hy (hemail.symm.trans hxemail)).symm
            · rw [hxid, hyid]
  | leave key =>
      exact ⟨fun x hx => hg.listed x (List.mem_filter.1 hx).1, fun x hx => hg.listener x (List.mem_filter.1 hx).1,
        fun x hx y hy => hg.single x (List.mem_filter.1 hx).1 y (List.mem_filter.1 hy).1⟩
  | enforce pick =>
      refine ⟨fun x hx hopen => ?_, fun x hx hopen => ?_, fun x hx y hy hemail => ?_⟩
      · obtain ⟨x', hx', hid, hemail, -, hx'open⟩ := mem_enforce hx
        rw [hid, hemail]
        exact hg.listed x' hx' (hx'open hopen).1
      · obtain ⟨x', hx', hid, -, -, hx'open⟩ := mem_enforce hx
        rw [hid]
        exact hg.listener x' hx' (hx'open hopen).1
      · obtain ⟨x', hx', hxid, hxemail, -⟩ := mem_enforce hx
        obtain ⟨y', hy', hyid, hyemail, -⟩ := mem_enforce hy
        rw [hxid, hyid]
        exact hg.single x' hx' y' hy' (hxemail.symm.trans (hemail.trans hyemail))
  | reconcile binds =>
      refine ⟨hg.listed, fun x hx hopen => ?_, hg.single⟩
      exact isSome_reconcile (hg.listed x hx hopen) (hg.listener x hx hopen) (hok.1 x hx hopen).2
  | stopAll =>
      refine ⟨hg.listed, fun x hx hopen => ?_, hg.single⟩
      rw [hok x hx] at hopen
      exact absurd hopen (by decide)

/-- The parts of `Live` a kept state has by itself. -/
theorem Gateway.Kept.live (hg : g.Kept) (hon : ∀ x ∈ g.sessions, x.isOpen = true → x.email ∉ g.db.disabled)
    (hlimit : g.WithinLimit) : g.Live where
  inbound x hx hopen := by
    obtain ⟨i, -, -, hi, henable, -⟩ := hg.listed x hx hopen
    exact ⟨i, hi, henable⟩
  listener := hg.listener
  account x hx hopen := (hg.listed x hx hopen).admissible (hon x hx hopen)
  limit := hlimit

/-- With all sessions of an account on one inbound, a tick trims it to the limit of that
inbound. -/
theorem withinLimit_enforce (hg : g.Kept) (pick : String → ℕ) : (g.enforce pick).WithinLimit := by
  intro id _ hpos email
  rcases Finset.eq_empty_or_nonempty ((g.enforce pick).openIPs id email) with hempty | ⟨ip, hip⟩
  · rw [hempty]
    exact Nat.zero_le _
  -- the address is that of a session, and the session is on the inbound
  have hopen : ∀ ip ∈ (g.enforce pick).openIPs id email, ∃ y ∈ g.sessions, y.inboundId = id ∧ y.email = email ∧
      y.srcIP = ip ∧ g.closes pick y = false := by
    intro ip hip
    obtain ⟨x, hx, rfl⟩ := List.mem_map.1 (List.mem_toFinset.1 hip)
    simp only [List.mem_filter, Bool.and_eq_true, decide_eq_true_eq] at hx
    obtain ⟨hx, ⟨hxopen, hxid⟩, hxemail⟩ := hx
    obtain ⟨y, hy, hid, hemail, hsrc, hyopen⟩ := mem_enforce hx
    exact ⟨y, hy, hid.symm.trans hxid, hemail.symm.trans hxemail, hsrc.symm, (hyopen hxopen).2⟩
  have hlimited : g.limitedBy pick email = id := by
    obtain ⟨y, hy, hyid, hyemail, -⟩ := hopen ip hip
    have hall : ∀ n ∈ (g.sessionsOf email).map (·.inboundId), n = id := by
      intro n hn
      obtain ⟨z, hz, rfl⟩ := List.mem_map.1 hn
      obtain ⟨hz, hzemail⟩ := List.mem_filter.1 hz
      rw [← hyid]
      exact hg.single z hz y hy ((of_decide_eq_true hzemail).trans hyemail.symm)
    rw [Gateway.limitedBy]
    split
    · next hpick => exact hall _ hpick
    · have hmem : y ∈ g.sessionsOf email := List.mem_filter.2 ⟨hy, decide_eq_true hyemail⟩
      cases hlist : g.sessionsOf email with
      | nil => rw [hlist] at hmem; cases hmem
      | cons z zs => exact hall z.inboundId (by simp [hlist])
  refine distinct_trim (g.sessionsOf email) hpos (fun ip hip => ?_) (fun ip hip => ?_)
  · obtain ⟨y, hy, -, hyemail, rfl, -⟩ := hopen ip hip
    exact List.mem_map.2 ⟨y, List.mem_filter.2 ⟨hy, decide_eq_true hyemail⟩, rfl⟩
  · obtain ⟨y, -, -, rfl, rfl, hcloses⟩ := hopen ip hip
    rw [Gateway.closes, hlimited, Bool.or_eq_false_iff] at hcloses
    exact of_decide_eq_false hcloses.2

theorem Gateway.Kept.live_step (hg : g.Kept) {e : Event} (hok : g.Timely e) (hchecks : e.checks = true) :
    (g.step e).Live := by
  have hkept : (g.step e).Kept := hg.step hok
  cases e with
  | enforce pick =>
      refine hkept.live (fun x hx hopen => ?_) (withinLimit_enforce hg pick)
      obtain ⟨y, -, -, hemail, -, hyopen⟩ := mem_enforce hx
      have hcloses := (hyopen hopen).2
      rw [Gateway.closes, Bool.or_eq_false_iff] at hcloses
      rw [hemail]
      exact of_decide_eq_false hcloses.1
  | reconcile binds => exact hkept.live (fun x hx hopen => (hok.1 x hx hopen).1) hok.2
  | stopAll =>
      refine hkept.live (fun x hx hopen => ?_) (fun id _ _ email => ?_)
      · rw [hok x hx] at hopen
        exact absurd hopen (by decide)
      · have hnone : g.stopAll.openIPs id email = ∅ := by
          refine Finset.eq_empty_of_forall_notMem fun ip hip => ?_
          obtain ⟨x, hx, -⟩ := List.mem_map.1 (List.mem_toFinset.1 hip)
          simp only [List.mem_filter, Bool.and_eq_true, decide_eq_true_eq] at hx
          have hclosed := hok x hx.1
          rw [hx.2.1.1] at hclosed
          exact absurd hclosed (by decide)
        rw [Gateway.step, hnone]
        exact Nat.zero_le _
  | db db => cases hchecks
  | connect inboundId srcIP => cases hchecks
  | auth n username password => cases hchecks
  | admitSession n now => cases hchecks
  | leave key => cases hchecks

end Steps

/-- **After a tick, a reconcile or a stop the open sessions are ones the gateway would admit**,
in every run whose steps are timely. -/
theorem live_sessions_admissible (db : Db) {events : List Event}
    (hall : AllSteps Gateway.step Gateway.Timely { db := db } events) :
    AllSteps Gateway.step (fun g e => e.checks = true → (g.step e).Live) { db := db } events := by
  have hstep : ∀ (g : Gateway) (e : Event), g.Kept → g.Timely e →
      (g.step e).Kept ∧ (e.checks = true → (g.step e).Live) :=
    fun g e hg hok => ⟨hg.step hok, fun hchecks => hg.live_step hok hchecks⟩
  refine hall.transitions hstep ⟨?_, ?_, ?_⟩
  · intro x hx
    cases hx
  · intro x hx
    cases hx
  · intro x hx
    cases hx

/-- An inbound with the given accounts, and the emails that are off. -/
def annDb (clients : List Client) (disabled : List String) : Db where
  inbounds := Table.single { id := 1, settings := some { clients := clients } }
  disabled := disabled

def ann : Client := ⟨"ann", "secret", "ann@x", true⟩

/-- The listener is bound and ann logs in. -/
def annLogin : List Event :=
  [.reconcile fun _ => true, .connect 1 "10.0.0.1", .auth 0 "ann" "secret", .admitSession 0 0]

/-- Her row is switched off; the tick closes her session, which then leaves. -/
theorem ann_sessions_admissible :
    AllSteps Gateway.step (fun g e => e.checks = true → (g.step e).Live) { db := annDb [ann] [] }
      (annLogin ++ [.db (annDb [ann] ["ann@x"]), .enforce fun _ => 1, .stopAll, .leave 0]) := by
  have hlists : ∀ disabled, (annDb [ann] disabled).Lists 1 "ann@x" :=
    fun disabled => ⟨_, _, ann, rfl, rfl, rfl, by decide +kernel, rfl⟩
  refine live_sessions_admissible _ ⟨⟨?_, ?_⟩, trivial, trivial, ?_, ?_, trivial, ?_, trivial, trivial⟩
  · intro x hx
    cases hx
  · intro id _ _ email
    exact Nat.zero_le _
  · rintro h ⟨⟩
    exact ⟨hlists [], rfl, fun x hx => by cases hx⟩
  · intro x hx _
    obtain rfl := List.mem_singleton.1 hx
    exact hlists ["ann@x"]
  · intro x hx
    obtain rfl := List.mem_singleton.1 hx
    rfl

/-- Ann is deleted: no tick looks for her, and her session stays open; so it does when the
listeners are stopped. -/
theorem deleted_account_stays :
    ¬ (run Gateway.step { db := annDb [ann] [] } (annLogin ++ [.db (annDb [] []), .enforce fun _ => 1])).Live ∧
      ¬ (run Gateway.step { db := annDb [ann] [] } (annLogin ++ [.stopAll])).Live := by
  refine ⟨fun h => ?_, fun h => ?_⟩
  · obtain ⟨username, password, c, hc, -⟩ := h.account _ (List.mem_singleton.2 rfl) rfl
    have hnone : lookupAccount (annDb [] []) 1 username password = none := rfl
    cases hnone.symm.trans hc
  · have hlistener := h.listener _ (List.mem_singleton.2 rfl) rfl
    exact absurd hlistener (by decide +kernel)

end Simorgh.Vpn.Ssh
