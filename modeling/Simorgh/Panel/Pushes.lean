import Simorgh.Lib.Run
import Simorgh.Panel.Scoping
import Simorgh.Panel.Tick

/-!
# What is pushed to the browsers

An open page holds a socket, tagged with the user it was opened for.  The traffic tick
pushes to each connected user the accounts on the inbounds it was granted; a request that
changed an inbound pushes the list of inbounds to its own user.

* `broadcastTrafficScoped`, `tickPushes` — the tick.
* `requestPushes` — the end of a request.
* `MaySee` — what a user may see, as the database stands.
* `PushClear` — nobody connected is gone, disabled or a reseller among other people's
  accounts, and a request's user is still what it was.
* `pushes_scoped_iff` — in a run everything pushed may be seen exactly if every push is so.
* `house_account_pushed` — a reseller is pushed the accounts beside its own, and a
  disabled admin goes on being pushed.
-/

namespace Simorgh.Panel

open Simorgh.Lib Simorgh.Lib.Json

/-! ## Data -/

/-- What the pushes are made from. -/
structure PushDb extends ListDb where
  users : Table User.id

/-- A connected browser. -/
structure Socket where
  id : Nat
  userId : Nat
  deriving DecidableEq

/-- A Go map from emails to times. -/
abbrev LastOnline := Table (Prod.fst : String × Int → String)

/-- What is pushed. -/
inductive Message where
  | traffic (traffics : Option (List Traffic)) (clientTraffics : List ClientRecord) (onlineClients : List String)
      (lastOnlineMap : LastOnline)
  | inbounds (list : Option (List ListedInbound))
  | invalidate

/-- A message that reaches a socket. -/
structure Delivery where
  socket : Socket
  message : Message

/-- The queries a push can fail at. -/
inductive PushPlace where
  | lastOnline | supers | access
  deriving DecidableEq

/-- What a tick has collected, which of its reads fail and which sockets are full. -/
structure PushTick where
  batch : Batch
  onlineClients : List String
  fails : PushPlace → Bool
  full : Nat → Bool

/-- A request that changed an inbound: its user, as it was loaded when the request came. -/
structure PushRequest where
  user : User
  fails : ListPlace → Bool
  full : Nat → Bool

/-- The database and the open sockets. -/
structure PushState where
  db : PushDb
  sockets : Table Socket.id

/-! ## The hub -/

/-- The users with a socket. -/
def connectedUserIds (sockets : Table Socket.id) : List Nat :=
  ((sockets.rows.map (·.userId)).filter fun userId => decide (0 < userId)).dedup

/-- `BroadcastToUser`.  A full socket is dropped. -/
def broadcastToUser (full : Nat → Bool) (sockets : Table Socket.id) (userId : Nat) (message : Message) :
    List Delivery :=
  if userId = 0 then []
  else (sockets.rows.filter fun s => decide (s.userId = userId) && !full s.id).map fun s => ⟨s, message⟩

/-- Everybody is told to load again. -/
def broadcastInvalidate (full : Nat → Bool) (sockets : Table Socket.id) : List Delivery :=
  (sockets.rows.filter fun s => !full s.id).map fun s => ⟨s, .invalidate⟩

/-! ## The tick -/

/-- The super admins that are enabled. -/
def superAdminIds (db : PushDb) : List Nat := (db.users.rows.filter User.standing).map User.id

/-- `ClientEmailAccess`, as the pairs of the join. -/
def clientEmailAccess (db : PushDb) : List (String × Nat) :=
  db.stats.rows.flatMap fun stat =>
    (db.access.rows.filter fun a => decide (a.inboundId = stat.inboundId)).map fun a => (stat.email, a.userId)

/-- `GetClientsLastOnline`. -/
def getClientsLastOnline (db : PushDb) : LastOnline :=
  db.stats.rows.foldl (fun seen stat => seen.put (stat.email, stat.lastOnline)) Table.empty

/-- The map of a tick; empty when it cannot be read. -/
def PushTick.lastOnlineMap (db : PushDb) (t : PushTick) : LastOnline :=
  if t.fails .lastOnline then Table.empty else getClientsLastOnline db

/-- The part of a tick one user is granted. -/
def scopedTraffic (access : List (String × Nat)) (userId : Nat) (clientTraffics : List ClientRecord)
    (onlineClients : List String) (lastOnlineMap : LastOnline) : Message :=
  .traffic none (clientTraffics.filter fun ct => decide ((ct.email, userId) ∈ access))
    (onlineClients.filter fun email => decide ((email, userId) ∈ access))
    (lastOnlineMap.deleteWhere fun m => !decide ((m.1, userId) ∈ access))

/-- Whom the tick is pushed to, and what. -/
def broadcastTrafficScoped (fails : PushPlace → Bool) (db : PushDb) (sockets : Table Socket.id)
    (traffics : List Traffic)
    (clientTraffics : List ClientRecord) (onlineClients : List String) (lastOnlineMap : LastOnline) :
    List (Nat × Message) :=
  let userIds := connectedUserIds sockets
  let supers := superAdminIds db
  if fails .supers then []
  else if userIds.any (fun userId => decide (userId ∉ supers)) && fails .access then []
  else userIds.map fun userId =>
    if userId ∈ supers then (userId, .traffic (some traffics) clientTraffics onlineClients lastOnlineMap)
    else (userId, scopedTraffic (clientEmailAccess db) userId clientTraffics onlineClients lastOnlineMap)

/-- What a tick pushes, once it has booked its bytes. -/
def tickPushes (st : PushState) (t : PushTick) : List Delivery :=
  if t.batch.inbounds = [] ∧ t.batch.clients = [] then []
  else
    ((broadcastTrafficScoped t.fails st.db st.sockets t.batch.inbounds t.batch.clients t.onlineClients
        (t.lastOnlineMap st.db)).flatMap fun m => broadcastToUser t.full st.sockets m.1 m.2) ++
      broadcastInvalidate t.full st.sockets

section

variable [Runtime]

/-! ## A request -/

/-- What a request pushes that has changed an inbound; `null` when the list cannot be read. -/
def requestPushes (st : PushState) (r : PushRequest) : List Delivery :=
  broadcastToUser r.full st.sockets r.user.id
    (.inbounds (getInboundsFor r.fails (some r.user) st.db.toListDb).toOption)

/-! ## Runs -/

/-- Sockets, changes and pushes. -/
inductive PushEvent where
  | connect (socket : Socket)
  | disconnect (id : Nat)
  /-- Any change to the database, by anybody. -/
  | write (db : PushDb)
  | tick (t : PushTick)
  | request (r : PushRequest)

omit [Runtime] in
/-- `GetLoginUser`. -/
def getLoginUser (db : PushDb) (id : Nat) : Option User := (db.users.find? id).filter (·.enable)

omit [Runtime] in
/-- Nothing but the browser closes a socket. -/
def pushStep (st : PushState) : PushEvent → PushState
  | .connect socket =>
      if (getLoginUser st.db socket.userId).isSome then { st with sockets := st.sockets.put socket } else st
  | .disconnect id => { st with sockets := st.sockets.erase id }
  | .write db => { st with db := db }
  | .tick _ | .request _ => st

/-- What an event sends. -/
def pushes (st : PushState) : PushEvent → List Delivery
  | .tick t => tickPushes st t
  | .request r => requestPushes st r
  | .connect _ | .disconnect _ | .write _ => []

/-! ## What a user may see -/

omit [Runtime] in
/-- The accounts of a client list.  An entry whose email is no text names nobody. -/
def settingsAccounts (settings : Blob) : List String :=
  ((entriesOf settings).filter fun item => item.decodes "email").map fun item => item.text "email"

omit [Runtime] in
/-- The accounts an inbound names. -/
def ListedInbound.accounts (i : ListedInbound) : List String :=
  i.clientStats.map (·.email) ++ settingsAccounts i.settings

omit [Runtime] in
/-- The accounts a message says something about. -/
def Message.accounts : Message → List String
  | .traffic _ clientTraffics onlineClients lastOnlineMap =>
      clientTraffics.map (·.email) ++ onlineClients ++ lastOnlineMap.rows.map (·.1)
  | .inbounds list => (list.getD []).flatMap ListedInbound.accounts
  | .invalidate => []

omit [Runtime] in
/-- The account has a row or an entry on this inbound. -/
def OnInbound (db : PushDb) (inboundId : Nat) (email : String) : Prop :=
  (∃ stat ∈ db.stats.rows, stat.inboundId = inboundId ∧ stat.email = email) ∨
    ∃ i ∈ db.inbounds.rows, i.id = inboundId ∧ email ∈ settingsAccounts i.settings

omit [Runtime] in
/-- The user may open an inbound of the account. -/
def Granted (db : PushDb) (userId : Nat) (email : String) : Prop :=
  ∃ a ∈ db.access.rows, a.userId = userId ∧ OnInbound db a.inboundId email

/-- The user has sold the account. -/
def Owns (db : PushDb) (userId : Nat) (email : String) : Prop :=
  resellerOwnsEmail (ownedEmails db.sold userId) email = true

/-- What the role of a user lets it see: a super admin everything, an admin the accounts on its
inbounds, a reseller its own among them. -/
def User.Reaches (db : PushDb) (u : User) (email : String) : Prop :=
  u.isSuperAdmin = true ∨ Granted db u.id email ∧ (u.isReseller = true → Owns db u.id email)

/-- There is such a user, it is enabled, and its role lets it see the account. -/
def MaySee (db : PushDb) (userId : Nat) (email : String) : Prop :=
  ∃ u, getLoginUser db userId = some u ∧ u.Reaches db email

/-- The user may see what is delivered. -/
def Scoped (db : PushDb) (d : Delivery) : Prop := ∀ email ∈ d.message.accounts, MaySee db d.socket.userId email

/-! ## The condition -/

omit [Runtime] in
/-- The accounts a tick names. -/
def PushTick.named (db : PushDb) (t : PushTick) : List String :=
  t.batch.clients.map (·.email) ++ t.onlineClients ++
    if t.fails .lastOnline then [] else db.stats.rows.map (·.email)

omit [Runtime] in
/-- The account has a row on an inbound this user still has a grant for. -/
def RowGranted (db : PushDb) (userId : Nat) (email : String) : Prop :=
  ∃ stat ∈ db.stats.rows, stat.email = email ∧ ∃ a ∈ db.access.rows, a.userId = userId ∧ a.inboundId = stat.inboundId

omit [Runtime] in
/-- The tick has something to push and can read what it needs. -/
def PushTick.Goes (t : PushTick) : Prop :=
  ¬ (t.batch.inbounds = [] ∧ t.batch.clients = []) ∧ t.fails .supers = false ∧ t.fails .access = false

/-- Of the users with a socket, one that is gone or disabled has no grant left for the inbound
of an account the tick names, and a reseller has sold all of those on its inbounds. -/
def TickClear (st : PushState) (t : PushTick) : Prop :=
  t.Goes → ∀ s ∈ st.sockets.rows, 0 < s.userId → t.full s.id = false → s.userId ∉ superAdminIds st.db →
    ∀ email ∈ t.named st.db, RowGranted st.db s.userId email →
      ∃ u, getLoginUser st.db s.userId = some u ∧ (u.isReseller = true → Owns st.db u.id email)

omit [Runtime] in
/-- The list of inbounds can be read for this user. -/
def PushRequest.Goes (r : PushRequest) : Prop :=
  r.fails .inbounds = false ∧ r.fails .stats = false ∧
    (r.user.isSuperAdmin = false → r.fails .grants = false ∧ (r.user.isReseller = true → r.fails .owned = false))

/-- What the row of a user lets it see of an inbound. -/
def User.Lists (db : PushDb) (user : User) (i : StoredInbound) (email : String) : Prop :=
  user.isSuperAdmin = true ∨ i.id ∈ accessibleInboundIds db.toListDb user.id ∧
    (user.isReseller = true → Owns db user.id email)

/-- What the row the request loaded lets its user see of the inbounds, the row of now does too. -/
def RequestClear (st : PushState) (r : PushRequest) : Prop :=
  r.Goes → 0 < r.user.id → (∃ s ∈ st.sockets.rows, s.userId = r.user.id ∧ r.full s.id = false) →
    ∀ i ∈ st.db.inbounds.rows, ∀ email, OnInbound st.db i.id email → r.user.Lists st.db i email →
      MaySee st.db r.user.id email

/-- The condition on one event. -/
def PushClear (st : PushState) : PushEvent → Prop
  | .tick t => TickClear st t
  | .request r => RequestClear st r
  | .connect _ | .disconnect _ | .write _ => True

/-! ## One tick -/

section Tick

omit [Runtime] in
theorem mem_clientEmailAccess {db : PushDb} {email : String} {userId : Nat} :
    (email, userId) ∈ clientEmailAccess db ↔ RowGranted db userId email := by
  simp only [clientEmailAccess, RowGranted, List.mem_flatMap, List.mem_map, List.mem_filter, decide_eq_true_eq,
    Prod.mk.injEq]
  constructor
  · rintro ⟨stat, hstat, a, ⟨ha, hid⟩, hemail, huser⟩
    exact ⟨stat, hstat, hemail, a, ha, huser, hid⟩
  · rintro ⟨stat, hstat, hemail, a, ha, huser, hid⟩
    exact ⟨stat, hstat, a, ⟨ha, hid⟩, hemail, huser⟩

omit [Runtime] in
theorem RowGranted.granted {db : PushDb} {userId : Nat} {email : String} (h : RowGranted db userId email) :
    Granted db userId email := by
  obtain ⟨stat, hstat, hemail, a, ha, huser, hid⟩ := h
  exact ⟨a, ha, huser, Or.inl ⟨stat, hstat, hid.symm, hemail⟩⟩

omit [Runtime] in
theorem mem_superAdminIds {db : PushDb} {userId : Nat} :
    userId ∈ superAdminIds db ↔ ∃ u, getLoginUser db userId = some u ∧ u.isSuperAdmin = true := by
  simp only [superAdminIds, getLoginUser, List.mem_map, List.mem_filter, User.standing, Bool.and_eq_true,
    Option.filter_eq_some_iff, Table.find?_eq_some]
  constructor
  · rintro ⟨u, ⟨hu, hsuper, henable⟩, hid⟩
    exact ⟨u, ⟨⟨hu, hid⟩, henable⟩, hsuper⟩
  · rintro ⟨u, ⟨⟨hu, hid⟩, henable⟩, hsuper⟩
    exact ⟨u, ⟨hu, hsuper, henable⟩, hid⟩

omit [Runtime] in
theorem getLoginUser_id {db : PushDb} {userId : Nat} {u : User} (h : getLoginUser db userId = some u) : u.id = userId :=
  (Table.find?_some (Option.filter_eq_some_iff.1 h).1).2

omit [Runtime] in
/-- The keys of a map that is filled row by row. -/
theorem mem_keys_foldl_put (stats : List ClientStat) (seen : LastOnline) (email : String) :
    email ∈ (stats.foldl (fun seen stat => seen.put (stat.email, stat.lastOnline)) seen).rows.map Prod.fst ↔
      email ∈ seen.rows.map Prod.fst ∨ email ∈ stats.map (·.email) := by
  induction stats generalizing seen with
  | nil => simp
  | cons stat stats ih =>
      have hput : email ∈ (seen.put (stat.email, stat.lastOnline)).rows.map Prod.fst ↔
          email = stat.email ∨ email ∈ seen.rows.map Prod.fst := by
        simp only [List.mem_map, Table.mem_put]
        constructor
        · rintro ⟨m, ⟨hm, -⟩ | rfl, rfl⟩
          · exact Or.inr ⟨m, hm, rfl⟩
          · exact Or.inl rfl
        · rintro (rfl | ⟨m, hm, rfl⟩)
          · exact ⟨_, Or.inr rfl, rfl⟩
          · by_cases hkey : m.1 = stat.email
            · exact ⟨_, Or.inr rfl, hkey.symm⟩
            · exact ⟨m, Or.inl ⟨hm, hkey⟩, rfl⟩
      rw [List.foldl_cons, ih, hput, List.map_cons, List.mem_cons, or_assoc, or_left_comm]

omit [Runtime] in
theorem mem_keys_lastOnlineMap {db : PushDb} {t : PushTick} {email : String} :
    email ∈ (t.lastOnlineMap db).rows.map Prod.fst ↔
      email ∈ if t.fails .lastOnline then [] else db.stats.rows.map (·.email) := by
  rw [PushTick.lastOnlineMap]
  cases t.fails .lastOnline with
  | true => simp [Table.empty]
  | false =>
      simp only [Bool.false_eq_true, if_false, getClientsLastOnline, mem_keys_foldl_put]
      simp [Table.empty]

omit [Runtime] in
/-- The accounts in the part of a tick one user is granted. -/
theorem mem_accounts_scopedTraffic {db : PushDb} {t : PushTick} {userId : Nat} {email : String} :
    email ∈ (scopedTraffic (clientEmailAccess db) userId t.batch.clients t.onlineClients
      (t.lastOnlineMap db)).accounts ↔
      email ∈ t.named db ∧ RowGranted db userId email := by
  rw [← mem_clientEmailAccess, PushTick.named, List.mem_append, ← mem_keys_lastOnlineMap]
  simp only [scopedTraffic, Message.accounts, List.mem_append, List.mem_map, List.mem_filter, Table.deleteWhere,
    Bool.not_not, decide_eq_true_eq]
  constructor
  · rintro ((⟨ct, ⟨hct, haccess⟩, rfl⟩ | ⟨honline, haccess⟩) | ⟨m, ⟨hm, haccess⟩, rfl⟩)
    · exact ⟨Or.inl (Or.inl ⟨ct, hct, rfl⟩), haccess⟩
    · exact ⟨Or.inl (Or.inr honline), haccess⟩
    · exact ⟨Or.inr ⟨m, hm, rfl⟩, haccess⟩
  · rintro ⟨(⟨ct, hct, rfl⟩ | honline) | ⟨m, hm, rfl⟩, haccess⟩
    · exact Or.inl (Or.inl ⟨ct, ⟨hct, haccess⟩, rfl⟩)
    · exact Or.inl (Or.inr ⟨honline, haccess⟩)
    · exact Or.inr ⟨m, ⟨hm, haccess⟩, rfl⟩

omit [Runtime] in
theorem mem_broadcastToUser {full : Nat → Bool} {sockets : Table Socket.id} {userId : Nat} {message : Message}
    {d : Delivery} :
    d ∈ broadcastToUser full sockets userId message ↔
      0 < userId ∧ d.socket ∈ sockets.rows ∧ d.socket.userId = userId ∧ full d.socket.id = false ∧
        d.message = message := by
  rw [broadcastToUser]
  split
  next hzero => simp [hzero]
  next hzero =>
    simp only [List.mem_map, List.mem_filter, Bool.and_eq_true, decide_eq_true_eq, Bool.not_eq_true']
    constructor
    · rintro ⟨s, ⟨hs, huser, hfull⟩, rfl⟩
      exact ⟨Nat.pos_of_ne_zero hzero, hs, huser, hfull, rfl⟩
    · rintro ⟨-, hs, huser, hfull, rfl⟩
      exact ⟨d.socket, ⟨hs, huser, hfull⟩, rfl⟩

omit [Runtime] in
theorem mem_connectedUserIds {sockets : Table Socket.id} {userId : Nat} :
    userId ∈ connectedUserIds sockets ↔ 0 < userId ∧ ∃ s ∈ sockets.rows, s.userId = userId := by
  simp only [connectedUserIds, List.mem_dedup, List.mem_filter, List.mem_map, decide_eq_true_eq, and_comm]

omit [Runtime] in
/-- What a user who is no super admin is pushed by a tick. -/
theorem scoped_mem_tickPushes {st : PushState} {t : PushTick} (hgoes : t.Goes) {s : Socket} (hs : s ∈ st.sockets.rows)
    (hpos : 0 < s.userId) (hfull : t.full s.id = false) (hsuper : s.userId ∉ superAdminIds st.db) :
    ⟨s, scopedTraffic (clientEmailAccess st.db) s.userId t.batch.clients t.onlineClients (t.lastOnlineMap st.db)⟩ ∈
      tickPushes st t := by
  obtain ⟨hbatch, hsupers, haccess⟩ := hgoes
  rw [tickPushes, if_neg hbatch, broadcastTrafficScoped, hsupers, haccess]
  simp only [Bool.false_eq_true, if_false, Bool.and_false, List.mem_append, List.mem_flatMap, List.mem_map]
  refine Or.inl ⟨_, ⟨s.userId, mem_connectedUserIds.2 ⟨hpos, s, hs, rfl⟩, rfl⟩, ?_⟩
  rw [if_neg hsuper]
  exact mem_broadcastToUser.2 ⟨hpos, hs, rfl, hfull, rfl⟩

omit [Runtime] in
/-- Whatever a tick pushes says nothing, goes to a super admin, or is such a part. -/
theorem tickPushes_cases {st : PushState} {t : PushTick} {d : Delivery} (h : d ∈ tickPushes st t) :
    d.message = .invalidate ∨ d.socket.userId ∈ superAdminIds st.db ∨
      t.Goes ∧ d.socket ∈ st.sockets.rows ∧ 0 < d.socket.userId ∧ t.full d.socket.id = false ∧
        d.socket.userId ∉ superAdminIds st.db ∧
        d.message = scopedTraffic (clientEmailAccess st.db) d.socket.userId t.batch.clients t.onlineClients
          (t.lastOnlineMap st.db) := by
  rw [tickPushes] at h
  split at h
  next => cases h
  next hbatch =>
    rcases List.mem_append.1 h with h | h
    · obtain ⟨m, hm, hd⟩ := List.mem_flatMap.1 h
      rw [broadcastTrafficScoped] at hm
      split at hm
      next => cases hm
      next hsupers =>
        split at hm
        next => cases hm
        next haccess =>
          obtain ⟨userId, huser, rfl⟩ := List.mem_map.1 hm
          by_cases hsuper : userId ∈ superAdminIds st.db
          · rw [if_pos hsuper, mem_broadcastToUser] at hd
            exact Or.inr (Or.inl (hd.2.2.1.symm ▸ hsuper))
          · rw [if_neg hsuper, mem_broadcastToUser] at hd
            obtain ⟨hpos, hs, rfl, hfull, hmessage⟩ := hd
            have hread : t.fails .access = false := by
              rw [Bool.and_eq_true, not_and, Bool.not_eq_true, List.any_eq_true] at haccess
              exact haccess ⟨_, huser, decide_eq_true hsuper⟩
            exact Or.inr (Or.inr ⟨⟨hbatch, Bool.eq_false_of_not_eq_true hsupers, hread⟩, hs, hpos, hfull, hsuper,
              hmessage⟩)
    · obtain ⟨s, -, rfl⟩ := List.mem_map.1 h
      exact Or.inl rfl

/-- Somebody who is no super admin sees a granted account if it is there, enabled, and owns the
account where it has to. -/
theorem maySee_iff_of_granted {db : PushDb} {userId : Nat} {email : String} (hsuper : userId ∉ superAdminIds db)
    (hgranted : Granted db userId email) :
    MaySee db userId email ↔
      ∃ u, getLoginUser db userId = some u ∧ (u.isReseller = true → Owns db u.id email) := by
  constructor
  · rintro ⟨u, hu, hall | ⟨-, howns⟩⟩
    · exact absurd (mem_superAdminIds.2 ⟨u, hu, hall⟩) hsuper
    · exact ⟨u, hu, howns⟩
  · rintro ⟨u, hu, howns⟩
    exact ⟨u, hu, Or.inr ⟨(getLoginUser_id hu).symm ▸ hgranted, howns⟩⟩

theorem tick_scoped_iff (st : PushState) (t : PushTick) :
    (∀ d ∈ tickPushes st t, Scoped st.db d) ↔ TickClear st t := by
  constructor
  · intro h hgoes s hs hpos hfull hsuper email hnamed hgrant
    have hscoped := h _ (scoped_mem_tickPushes hgoes hs hpos hfull hsuper)
    have hsee := hscoped email (mem_accounts_scopedTraffic.2 ⟨hnamed, hgrant⟩)
    exact (maySee_iff_of_granted hsuper hgrant.granted).1 hsee
  · intro h d hd email hemail
    rcases tickPushes_cases hd with hmessage | hsuper | ⟨hgoes, hs, hpos, hfull, hsuper, hmessage⟩
    · rw [hmessage] at hemail
      cases hemail
    · obtain ⟨u, hu, hall⟩ := mem_superAdminIds.1 hsuper
      exact ⟨u, hu, Or.inl hall⟩
    · rw [hmessage, mem_accounts_scopedTraffic] at hemail
      obtain ⟨hnamed, hgrant⟩ := hemail
      exact (maySee_iff_of_granted hsuper hgrant.granted).2 (h hgoes _ hs hpos hfull hsuper email hnamed hgrant)

end Tick

/-! ## One request -/

section Request

omit [Runtime] in
theorem mem_accountsOn {db : PushDb} {i : StoredInbound} (hi : i ∈ db.inbounds.rows) {email : String} :
    OnInbound db i.id email ↔
      email ∈ (db.stats.rows.filter fun stat => decide (stat.inboundId = i.id)).map (·.email) ++
        settingsAccounts i.settings := by
  simp only [OnInbound, List.mem_append, List.mem_map, List.mem_filter, decide_eq_true_eq]
  constructor
  · rintro (⟨stat, hstat, hid, hemail⟩ | ⟨i', hi', hid, hemail⟩)
    · exact Or.inl ⟨stat, ⟨hstat, hid⟩, hemail⟩
    · obtain rfl := Table.eq_of_key_eq hi' hi hid
      exact Or.inr hemail
  · rintro (⟨stat, ⟨hstat, hid⟩, hemail⟩ | hemail)
    · exact Or.inl ⟨stat, hstat, hid, hemail⟩
    · exact Or.inr ⟨i, hi, rfl, hemail⟩

theorem mem_accounts_loadInbound {db : PushDb} {i : StoredInbound} (hi : i ∈ db.inbounds.rows) {email : String} :
    email ∈ (loadInbound db.toListDb i).accounts ↔ OnInbound db i.id email := by
  rw [mem_accountsOn hi, ListedInbound.accounts, loadInbound, List.map_map]
  have hemail : (fun stat : ClientStat => stat.email) ∘ enrich (entriesOf i.settings) = fun stat => stat.email := by
    funext stat
    simp [enrich_email]
  rw [hemail]

/-- Of a client list the reseller's entries are left. -/
theorem entriesOf_scopedSettings (owned : OwnedEmails) (settings : Blob) :
    entriesOf (scopedSettings owned settings) = (entriesOf settings).filter (ownsEntry owned) := by
  cases settings with
  | junk text => rfl
  | json t =>
      cases t with
      | obj members =>
          cases hlookup : Tree.lookup "clients" members with
          | none => simp [scopedSettings, filterSettingsClients, entriesOf, hlookup]
          | some clients =>
              cases clients with
              | arr items =>
                  rw [scopedSettings_list hlookup]
                  obtain ⟨out, hout, hread⟩ := @filterList_lookup _ owned members items hlookup
                  rw [hout]
                  simp [entriesOf, hlookup, hread]
              | null =>
                  have hkept : scopedSettings owned (.json (.obj members)) = .json (.obj members) := by
                    simp [scopedSettings, filterSettingsClients, filterList, hlookup]
                  rw [hkept]
                  simp [entriesOf, hlookup]
              | bool | num | str | obj =>
                  have hcut : scopedSettings owned (.json (.obj members)) = emptyClientSettings := by
                    simp [scopedSettings, filterSettingsClients, hlookup]
                  rw [hcut, entriesOf, hlookup]
                  rfl
      | null => rfl
      | bool | num | str | arr => rfl

theorem settingsAccounts_scopedSettings (owned : OwnedEmails) (settings : Blob) (email : String) :
    email ∈ settingsAccounts (scopedSettings owned settings) ↔
      email ∈ settingsAccounts settings ∧ resellerOwnsEmail owned email = true := by
  simp only [settingsAccounts, entriesOf_scopedSettings, List.mem_map, List.mem_filter, ownsEntry, Bool.and_eq_true]
  constructor
  · rintro ⟨item, ⟨⟨hitem, -, howns⟩, hdecodes⟩, rfl⟩
    exact ⟨⟨item, ⟨hitem, hdecodes⟩, rfl⟩, howns⟩
  · rintro ⟨⟨item, ⟨hitem, hdecodes⟩, rfl⟩, howns⟩
    exact ⟨item, ⟨⟨hitem, hdecodes, howns⟩, hdecodes⟩, rfl⟩

theorem mem_accounts_filterInboundForReseller {owned : OwnedEmails} {i : ListedInbound} {email : String} :
    email ∈ (filterInboundForReseller owned i).accounts ↔
      email ∈ i.accounts ∧ resellerOwnsEmail owned email = true := by
  rw [filterInboundForReseller_eq]
  simp only [ListedInbound.accounts, rescopeInboundTraffic, filterClientTrafficsForReseller, List.mem_append,
    settingsAccounts_scopedSettings, List.mem_map, List.mem_filter]
  constructor
  · rintro (⟨stat, ⟨hstat, howns⟩, rfl⟩ | ⟨hemail, howns⟩)
    · exact ⟨Or.inl ⟨stat, hstat, rfl⟩, howns⟩
    · exact ⟨Or.inr hemail, howns⟩
  · rintro ⟨⟨stat, hstat, rfl⟩ | hemail, howns⟩
    · exact Or.inl ⟨stat, ⟨hstat, howns⟩, rfl⟩
    · exact Or.inr ⟨hemail, howns⟩

omit [Runtime] in
/-- The accounts in a list made from some of the inbounds. -/
theorem mem_accounts_list {rows : List StoredInbound} {p : StoredInbound → Bool} {f : StoredInbound → ListedInbound}
    {email : String} :
    email ∈ (Message.inbounds (some (((rows.filter p).insertionSort fun a b => a.key ≤ b.key).map f))).accounts ↔
      ∃ i ∈ rows, p i = true ∧ email ∈ (f i).accounts := by
  simp only [Message.accounts, Option.getD_some, List.mem_flatMap, List.mem_map, List.mem_insertionSort,
    List.mem_filter]
  constructor
  · rintro ⟨_, ⟨i, ⟨hi, hp⟩, rfl⟩, hemail⟩
    exact ⟨i, hi, hp, hemail⟩
  · rintro ⟨i, hi, hp, hemail⟩
    exact ⟨_, ⟨i, ⟨hi, hp⟩, rfl⟩, hemail⟩

/-- The list of a user who is no super admin. -/
theorem getInboundsFor_granted {user : User} (hsuper : user.isSuperAdmin = false) (fails : ListPlace → Bool)
    (db : ListDb) :
    getInboundsFor fails (some user) db =
      if fails .grants then .error ()
      else if accessibleInboundIds db user.id = [] then .ok []
      else if fails .inbounds || fails .stats || (user.isReseller && fails .owned) then .error ()
      else .ok (((granted user db).insertionSort fun a b => a.key ≤ b.key).map fun i =>
        if user.isReseller then filterInboundForReseller (ownedEmails db.sold user.id) (loadInbound db i)
        else loadInbound db i) := by
  cases hreseller : user.isReseller with
  | true =>
      simp only [getInboundsFor_reseller hsuper hreseller, if_true, Bool.true_and]
  | false =>
      simp only [getInboundsFor, hsuper, hreseller, getInboundsWhere, Bool.false_eq_true, if_false, Bool.not_false,
        if_true, Bool.false_and, Bool.or_false]
      cases fails .grants with
      | true => rfl
      | false =>
          simp only [Bool.false_eq_true, if_false]
          split
          · rfl
          · cases fails .inbounds <;> cases fails .stats <;> simp [bind, Except.bind, granted]

theorem mem_accounts_super {db : PushDb} {r : PushRequest} {email : String} (hsuper : r.user.isSuperAdmin = true) :
    email ∈ (Message.inbounds (getInboundsFor r.fails (some r.user) db.toListDb).toOption).accounts ↔
      r.Goes ∧ ∃ i ∈ db.inbounds.rows, OnInbound db i.id email ∧ r.user.Lists db i email := by
  have hgoes : r.Goes ↔ r.fails .inbounds = false ∧ r.fails .stats = false := by
    simp [PushRequest.Goes, hsuper]
  simp only [getInboundsFor, hsuper, if_true, getInboundsWhere, hgoes]
  cases r.fails .inbounds with
  | true => simp [Except.toOption, Message.accounts]
  | false =>
      cases r.fails .stats with
      | true => simp [Except.toOption, Message.accounts]
      | false =>
          simp only [Bool.or_self, Bool.false_eq_true, if_false, Except.toOption, mem_accounts_list]
          constructor
          · rintro ⟨i, hi, -, hemail⟩
            exact ⟨⟨trivial, trivial⟩, i, hi, (mem_accounts_loadInbound hi).1 hemail, Or.inl hsuper⟩
          · rintro ⟨-, i, hi, hon, -⟩
            exact ⟨i, hi, rfl, (mem_accounts_loadInbound hi).2 hon⟩

/-- The accounts one inbound is shown with. -/
theorem mem_accounts_shown {db : PushDb} {user : User} {i : StoredInbound}
    (hi : i ∈ db.inbounds.rows) {email : String} :
    email ∈ (if user.isReseller then filterInboundForReseller (ownedEmails db.sold user.id) (loadInbound db.toListDb i)
        else loadInbound db.toListDb i).accounts ↔
      OnInbound db i.id email ∧ (user.isReseller = true → Owns db user.id email) := by
  cases user.isReseller with
  | true => simp [mem_accounts_filterInboundForReseller, mem_accounts_loadInbound hi, Owns]
  | false => simp [mem_accounts_loadInbound hi]

theorem mem_accounts_granted {db : PushDb} {r : PushRequest} {email : String} (hsuper : r.user.isSuperAdmin = false) :
    email ∈ (Message.inbounds (getInboundsFor r.fails (some r.user) db.toListDb).toOption).accounts ↔
      r.Goes ∧ ∃ i ∈ db.inbounds.rows, OnInbound db i.id email ∧ r.user.Lists db i email := by
  have hlists : ∀ i, r.user.Lists db i email ↔ i.id ∈ accessibleInboundIds db.toListDb r.user.id ∧
      (r.user.isReseller = true → Owns db r.user.id email) := by
    intro i
    simp [User.Lists, hsuper]
  rw [getInboundsFor_granted hsuper]
  split
  next hgrants =>
    constructor
    · intro h
      cases h
    · rintro ⟨hgoes, -⟩
      rw [(hgoes.2.2 hsuper).1] at hgrants
      cases hgrants
  next hgrants =>
    split
    next hnone =>
      constructor
      · intro h
        cases h
      · rintro ⟨-, i, -, -, hl⟩
        rw [hlists, hnone] at hl
        cases hl.1
    next =>
      split
      next hfails =>
        constructor
        · intro h
          cases h
        · rintro ⟨⟨hinbounds, hstats, hgoes⟩, -⟩
          rw [hinbounds, hstats, Bool.or_self, Bool.false_or, Bool.and_eq_true] at hfails
          rw [(hgoes hsuper).2 hfails.1] at hfails
          cases hfails.2
      next hfails =>
        have hgoes : r.Goes := by
          simp only [Bool.not_eq_true, Bool.or_eq_false_iff] at hfails
          obtain ⟨⟨hinbounds, hstats⟩, howned⟩ := hfails
          refine ⟨hinbounds, hstats, fun _ => ⟨Bool.eq_false_of_not_eq_true hgrants, fun hreseller => ?_⟩⟩
          rwa [hreseller, Bool.true_and] at howned
        simp only [Except.toOption, granted, mem_accounts_list, decide_eq_true_eq, hlists]
        constructor
        · rintro ⟨i, hi, hgranted, hemail⟩
          obtain ⟨hon, howns⟩ := (mem_accounts_shown hi).1 hemail
          exact ⟨hgoes, i, hi, hon, hgranted, howns⟩
        · rintro ⟨-, i, hi, hon, hgranted, howns⟩
          exact ⟨i, hi, hgranted, (mem_accounts_shown hi).2 ⟨hon, howns⟩⟩

/-- The accounts a list is pushed with. -/
theorem mem_accounts_getInboundsFor {db : PushDb} {r : PushRequest} {email : String} :
    email ∈ (Message.inbounds (getInboundsFor r.fails (some r.user) db.toListDb).toOption).accounts ↔
      r.Goes ∧ ∃ i ∈ db.inbounds.rows, OnInbound db i.id email ∧ r.user.Lists db i email := by
  cases hsuper : r.user.isSuperAdmin with
  | true => exact mem_accounts_super hsuper
  | false => exact mem_accounts_granted hsuper

theorem request_scoped_iff (st : PushState) (r : PushRequest) :
    (∀ d ∈ requestPushes st r, Scoped st.db d) ↔ RequestClear st r := by
  constructor
  · rintro h hgoes hpos ⟨s, hs, huser, hfull⟩ i hi email hon hlists
    have hpushed := h ⟨s, _⟩ (mem_broadcastToUser.2 ⟨hpos, hs, huser, hfull, rfl⟩)
    rw [← huser]
    exact hpushed email (mem_accounts_getInboundsFor.2 ⟨hgoes, i, hi, hon, hlists⟩)
  · intro h d hd email hemail
    obtain ⟨hpos, hs, huser, hfull, hmessage⟩ := mem_broadcastToUser.1 hd
    rw [hmessage, mem_accounts_getInboundsFor] at hemail
    obtain ⟨hgoes, i, hi, hon, hlists⟩ := hemail
    rw [huser]
    exact h hgoes hpos ⟨_, hs, huser, hfull⟩ i hi email hon hlists

end Request

/-! ## Runs -/

/-- Everything an event pushes may be seen by whom it is pushed to, as the database stands. -/
def PushesScoped (st : PushState) (e : PushEvent) : Prop := ∀ d ∈ pushes st e, Scoped st.db d

theorem pushesScoped_iff (st : PushState) (e : PushEvent) : PushesScoped st e ↔ PushClear st e := by
  cases e with
  | tick t => exact tick_scoped_iff st t
  | request r => exact request_scoped_iff st r
  | connect | disconnect | write => exact ⟨fun _ => trivial, fun _ d hd => by cases hd⟩

/-- Whoever connects and disconnects and however the database changes in between, what is
pushed may be seen exactly if every push finds nobody connected who is gone, disabled or a
reseller among other people's accounts, and every request's user as it was. -/
theorem pushes_scoped_iff (st : PushState) (events : List PushEvent) :
    AllSteps pushStep PushesScoped st events ↔ AllSteps pushStep PushClear st events := by
  exact @AllSteps.congr _ _ pushStep PushesScoped PushClear (fun _ => True) (fun st e _ => pushesScoped_iff st e)
    (fun _ _ _ _ => trivial) st events trivial

end

/-! ## A shared inbound -/

/-- A reseller and an admin hold the inbound on which ann was sold and bob is the house's. -/
def sharedDb (adminEnabled : Bool) : PushDb where
  access := (Table.single ⟨2, 1⟩).put ⟨3, 1⟩
  inbounds := .single { id := 1, settings := settingsOf (.arr [entryFor "bob" "b1", entryFor "ann" "a1"]) }
  stats := (Table.single { id := 3, email := "bob", inboundId := 1, up := 500 }).put annsStat
  sold := .single { email := "ann", inboundId := 1, userId := 2 }
  users := (Table.single seller).put { id := 3, username := "admin", enable := adminEnabled }

def bobsTick : PushTick where
  batch := { clients := [⟨"bob", 5, 6⟩] }
  onlineClients := ["bob"]
  fails := fun _ => false
  full := fun _ => false

/-- A reseller is pushed bob, who is not its own; an admin who was disabled with its page
open is pushed him too. -/
theorem house_account_pushed :
    ¬ AllSteps pushStep (@PushesScoped Runtime.ascii) ⟨sharedDb true, Table.empty⟩ [.connect ⟨1, 2⟩, .tick bobsTick] ∧
      ¬ AllSteps pushStep (@PushesScoped Runtime.ascii) ⟨sharedDb true, Table.empty⟩
        [.connect ⟨2, 3⟩, .write (sharedDb false), .tick bobsTick] := by
  have hgoes : bobsTick.Goes := by
    refine ⟨?_, rfl, rfl⟩
    rintro ⟨-, hnone⟩
    cases hnone
  have hbob : ∀ adminEnabled userId, (⟨userId, 1⟩ : InboundAccess) ∈ (sharedDb adminEnabled).access.rows →
      RowGranted (sharedDb adminEnabled) userId "bob" := by
    intro adminEnabled userId hgrant
    exact ⟨_, List.mem_cons_self, rfl, _, hgrant, rfl, rfl⟩
  have hnamed : ∀ adminEnabled, "bob" ∈ bobsTick.named (sharedDb adminEnabled) := fun _ => List.mem_cons_self
  constructor
  · rintro ⟨-, hpushed, -⟩
    have hclear := (@tick_scoped_iff Runtime.ascii _ _).1 hpushed
    obtain ⟨u, hu, howns⟩ := hclear hgoes ⟨1, 2⟩ List.mem_cons_self (by decide) rfl (by decide) "bob" (hnamed true)
      (hbob true 2 (by decide))
    obtain rfl : seller = u := by
      have hlogin : getLoginUser (sharedDb true) 2 = some seller := by decide
      exact Option.some.inj (hlogin.symm.trans hu)
    have hnot : @resellerOwnsEmail Runtime.ascii (@ownedEmails Runtime.ascii (sharedDb true).sold 2) "bob" ≠ true := by
      decide
    exact hnot (howns rfl)
  · rintro ⟨-, -, hpushed, -⟩
    have hclear := (@tick_scoped_iff Runtime.ascii _ _).1 hpushed
    obtain ⟨u, hu, -⟩ := hclear hgoes ⟨2, 3⟩ List.mem_cons_self (by decide) rfl (by decide) "bob" (hnamed false)
      (hbob false 3 (by decide))
    have hnobody : getLoginUser (sharedDb false) 3 = none := by decide
    cases hnobody.symm.trans hu

end Simorgh.Panel
