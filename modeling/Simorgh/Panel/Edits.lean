import Simorgh.Panel.Slots
import Simorgh.Panel.Tick

/-!
# Edits of inbounds and clients, statement by statement

What the inbound service does to the database when a client is added, edited or
deleted and when an inbound is edited or deleted.  Every operation reads the
inbound's row first and writes the whole row back at its end; some of them put the
writes into a transaction.

* `Edit.addInboundClient`, `Edit.updateInboundClient`, `Edit.delInboundClient`
* `Edit.updateInbound`, `Edit.delInbound`
-/

namespace Simorgh.Panel

open Simorgh.Lib Simorgh.Lib.Json

/-- Where a statement of an edit stands. -/
inductive EditPlace where
  | peers | emails | load | checks
  | begin
  | stat (k : Nat)
  | ips | findStat | runtime | save | commit
  | revoke | findTag | dropRows
  | dropIps (k : Nat)
  | dropInbound
  deriving DecidableEq

/-- An edit ends with a reply. -/
abbrev Edit := Prog Db EditPlace Reply

/-- The error of a statement that failed. -/
def dbError : Reply := .error (.refused "database error")

/-- The error of a missing row. -/
def recordNotFound : Reply := .error (.refused "record not found")

/-! ## Writes -/

/-- The tag is another inbound's. -/
def Db.tagTaken (db : Db) (row : InboundRow) : Bool :=
  db.inbounds.rows.any fun r => decide (r.id ≠ row.id) && decide (r.base.tag = row.base.tag)

/-- `Save` of an inbound.  A tag that changes must be free; a row that is gone is put
back. -/
def Db.saveInbound? (row : InboundRow) (db : Db) : Option Db :=
  match db.inbounds.find? row.id with
  | none => if db.tagTaken row then none
      else (db.inbounds.insert? row).map fun inbounds => { db with inbounds := inbounds }
  | some old =>
      if row.base.tag ≠ old.base.tag ∧ db.tagTaken row = true then none
      else some { db with inbounds := db.inbounds.modify row.id row.over (InboundRow.over_id row) }

/-- `AddClientStat`. -/
def Db.insertStat? (inboundId : Nat) (c : Client) (db : Db) : Option Db :=
  (db.traffics.insert? (statRow inboundId c)).map fun traffics => { db with traffics := traffics }

/-- `UpdateClientStat`. -/
def Db.updateStat? (email : String) (c : Client) (db : Db) : Option Db :=
  (updateClientStat db.traffics email c).map fun traffics => { db with traffics := traffics }

/-- `UpdateClientIPs`. -/
def Db.renameIps? (oldEmail newEmail : String) (db : Db) : Option Db :=
  (db.clientIps.rekey? oldEmail fun r => { r with email := newEmail }).map fun clientIps =>
    { db with clientIps := clientIps }

/-- `DelClientStat`. -/
def Db.dropStat (email : String) (db : Db) : Db := { db with traffics := db.traffics.erase email }

/-- `DelClientIPs`. -/
def Db.dropIps (email : String) (db : Db) : Db := { db with clientIps := db.clientIps.erase email }

/-- The traffic rows of an inbound, deleted. -/
def Db.dropRows (id : Nat) (db : Db) : Db :=
  { db with traffics := db.traffics.deleteWhere fun ct => decide (ct.inboundId = id) }

/-- The inbound's row is gone. -/
def Db.dropInbound (id : Nat) (db : Db) : Db := { db with inbounds := db.inbounds.erase id }

/-- The inbound is saved, whatever becomes of it the transaction is committed, and the
error of the save is returned. -/
def Edit.saveAndCommit (row : InboundRow) : Edit := do
  let saved ← Prog.update? .save (Db.saveInbound? row)
  Prog.finish .commit
  pure (if saved then .ok () else dbError)

/-- Writes that are rolled back when one of them fails, and what follows them. -/
def Edit.transaction (writes : List (EditPlace × (Db → Option Db))) (rest : Edit) : Edit := do
  Prog.start .begin
  let written ← Prog.updates writes
  if written then rest
  else do
    Prog.abandon
    pure dbError

/-- The deferred commit of a function that panics. -/
def Edit.commitAndPanic : Edit := do
  Prog.finish .commit
  pure (.error .panicked)

section

variable [Runtime]

/-! ## Adding clients -/

/-- The timestamps of an added client. -/
def stampAdded (now : Int) (t : Text) : Map :=
  let m := Text.toMap t
  let m := if (m.get? "created_at").isNone then m.set "created_at" (.num (.int now)) else m
  m.set "updated_at" (.num (.int now))

/-- The entries an add appends. -/
def addedEntries (now : Int) (i : Inbound) (posted : List Text) : List Doc :=
  (assignSlotsToClientMaps i.protocol i.settings.clients (posted.map (stampAdded now))).map Map.marshal

/-- The inbound with the added clients. -/
def InboundRow.added (row : InboundRow) (now : Int) (posted : List Text) : InboundRow :=
  row.setClients (row.base.settings.clients.map rewrite ++ addedEntries now row.base posted)

/-- The traffic rows of added clients; false when announcing one panics.  The error of a
row is not looked at. -/
def Edit.addStats (i : Inbound) : List Client → Nat → Prog Db EditPlace Bool
  | [], _ => pure true
  | c :: cs, k =>
      if c.email = "" then Edit.addStats i cs (k + 1)
      else do
        let _ ← Prog.update? (.stat k) (Db.insertStat? i.id c)
        if cipherPanics i c then pure false else Edit.addStats i cs (k + 1)

/-- The transaction of an add.  It panics when Xray has never been started. -/
def Edit.addTransaction (h : Host) (now : Int) (row : InboundRow) (posted : List Text) : Edit := do
  Prog.start .begin
  match h.xray with
  | none => Edit.commitAndPanic
  | some _ =>
      let announced ← Edit.addStats row.base (posted.map Client.decode) 0
      if announced then Edit.saveAndCommit (row.added now posted) else Edit.commitAndPanic

/-- An add, once the inbound is loaded. -/
def Edit.addTo (h : Host) (now : Int) (pool : Inbound → Option String) (posted : List Text)
    (row : InboundRow) : Edit := do
  match ← Prog.select .checks fun db =>
      addInboundClientCheck db.roster row.base (posted.map Client.decode) (pool row.base) with
  | none => pure dbError
  | some (.error e) => pure (.error e)
  | some (.ok _) => Edit.addTransaction h now row posted

/-- An add, once its emails are found free. -/
def Edit.loadAndAdd (h : Host) (now : Int) (pool : Inbound → Option String) (inboundId : Nat)
    (posted : List Text) : Edit := do
  match ← Prog.select .load fun db => db.inbounds.find? inboundId with
  | none => pure dbError
  | some none => pure recordNotFound
  | some (some row) => Edit.addTo h now pool posted row

/-- `AddInboundClient`. -/
def Edit.addInboundClient (h : Host) (now : Int) (pool : Inbound → Option String) (inboundId : Nat)
    (posted : List Text) : Edit :=
  let posted := normalizeClientEmails posted
  if !posted.all Text.inRange then pure (.error (.refused "json: cannot unmarshal number"))
  else do
    match ← Prog.select .emails fun db =>
        checkEmailsExistForClients db.roster (posted.map Client.decode) with
    | none => pure dbError
    | some (some email) => pure (duplicateEmailError email)
    | some none => Edit.loadAndAdd h now pool inboundId posted

/-! ## Editing a client -/

/-- The slot of the entry that is replaced. -/
def preservedSlot (d : Doc) (index : Nat) : ℤ := (postedSlot (Doc.toMap d)).getD index

/-- The entry an edit leaves: the posted one, with the old entry's creation time and
slot. -/
def editedEntry (now : Int) (i : Inbound) (index : Nat) (t : Text) : Doc :=
  let old := i.settings.clients.getD index Obj.empty
  let created := match (Doc.toMap old).get? "created_at" with
    | some .null | none => .num (.int now)
    | some v => v
  let m := ((Text.toMap t).set "created_at" created).set "updated_at" (.num (.int now))
  Map.marshal (if slotPoolProtocol i.protocol then m.set "slot" (.num (.int (preservedSlot old index)))
    else m)

/-- The inbound with the client at this place edited. -/
def InboundRow.edited (row : InboundRow) (now : Int) (index : Nat) (t : Text) : InboundRow :=
  row.setClients ((row.base.settings.clients.map rewrite).set index
    (editedEntry now row.base index t))

/-- The client with this identity, if the posted one has an identity too. -/
def editTarget (i : Inbound) (clientId : String) (t : Text) : Option Nat :=
  if clientIdentity i.protocol (Client.decode t) = "" then none
  else (getClients i).findIdx? fun c => decide (clientIdentity i.protocol c = clientId)

/-- The writes an edit makes to the other tables. -/
def editWrites (oldEmail : String) (c : Client) : List (EditPlace × (Db → Option Db)) :=
  if c.email ≠ "" then
    [(.stat 0, Db.updateStat? oldEmail c), (.ips, Db.renameIps? oldEmail c.email)]
  else
    [(.stat 0, fun db => some (db.dropStat oldEmail)), (.ips, fun db => some (db.dropIps oldEmail))]

/-- What follows the writes of an edit. -/
def Edit.announceAndEdit (h : Host) (now : Int) (row : InboundRow) (index : Nat) (t : Text) : Edit :=
  if ((getClients row.base).getD index {}).email ≠ "" ∧
      (h.xray = none ∨ cipherPanics row.base (Client.decode t) = true) then Edit.commitAndPanic
  else Edit.saveAndCommit (row.edited now index t)

/-- The transaction of an edit.  The error of a row that is new is not looked at. -/
def Edit.editTransaction (h : Host) (now : Int) (row : InboundRow) (index : Nat) (t : Text) : Edit :=
  let oldEmail := ((getClients row.base).getD index {}).email
  if (Client.decode t).email ≠ "" ∧ oldEmail = "" then do
    Prog.start .begin
    let _ ← Prog.update? (.stat 0) (Db.insertStat? row.id (Client.decode t))
    Edit.announceAndEdit h now row index t
  else Edit.transaction (editWrites oldEmail (Client.decode t)) (Edit.announceAndEdit h now row index t)

/-- The edit has to look at the other accounts. -/
def editNeedsCheck (i : Inbound) (old c : Client) : Bool :=
  decide (c.email ≠ "" ∧ sameEmail c.email old.email = false) ||
    decide (i.protocol.usernamesUnique = true ∧ c.id ≠ old.id)

/-- An edit, once the inbound is loaded. -/
def Edit.edit (h : Host) (now : Int) (posted : List Text) (clientId : String) (row : InboundRow) : Edit :=
  match posted with
  | [] => pure (.error .panicked)
  | t :: _ =>
      match editTarget row.base clientId t with
      | none => pure (.error (.refused "empty client ID\n"))
      | some index => do
          let old := (getClients row.base).getD index {}
          let check (r : Roster) := updateInboundClientCheck r row.base old index
            (posted.map Client.decode) (Client.decode t)
          let checked ← if editNeedsCheck row.base old (Client.decode t)
            then Prog.select .checks fun db => check db.roster
            else pure (some (check ⟨Table.empty, Table.empty⟩))
          match checked with
          | none => pure dbError
          | some (.error e) => pure (.error e)
          | some (.ok _) => Edit.editTransaction h now row index t

/-- `UpdateInboundClient`. -/
def Edit.updateInboundClient (h : Host) (now : Int) (inboundId : Nat) (posted : List Text)
    (clientId : String) : Edit :=
  let posted := normalizeClientEmails posted
  if !posted.all Text.inRange then pure (.error (.refused "json: cannot unmarshal number"))
  else do
    match ← Prog.select .load fun db => db.inbounds.find? inboundId with
    | none => pure dbError
    | some none => pure recordNotFound
    | some (some row) => Edit.edit h now posted clientId row

/-! ## Deleting a client -/

/-- The inbound without the clients of this identity. -/
def InboundRow.without (row : InboundRow) (clientId : String) : InboundRow :=
  row.setClients
    ((row.base.settings.clients.filter fun d => !hasIdentity row.base.protocol clientId d).map rewrite)

/-- The last statement of a deletion. -/
def Edit.saveRow (row : InboundRow) : Edit := do
  let saved ← Prog.update? .save (Db.saveInbound? row)
  pure (if saved then .ok () else dbError)

/-- The traffic row of a deleted client goes, and the inbound is saved. -/
def Edit.delStat (h : Host) (row : InboundRow) (clientId : String) (last : Doc) (ct : ClientTraffic) :
    Edit := do
  let dropped ← Prog.update (.stat 0) (Db.dropStat (last.str "email"))
  if dropped = false then pure dbError
  else if last.bool "enable" = true ∧ ct.enable = true ∧ h.xray = none then pure (.error .panicked)
  else Edit.saveRow (row.without clientId)

/-- A deletion, once the addresses are gone. -/
def Edit.delRow (h : Host) (row : InboundRow) (clientId : String) (last : Doc) : Edit := do
  match ← Prog.select .findStat fun db => db.traffics.find? (last.str "email") with
  | none => pure dbError
  | some none => pure recordNotFound
  | some (some ct) => Edit.delStat h row clientId last ct

/-- The writes of a deletion, each on its own. -/
def Edit.delWrites (h : Host) (row : InboundRow) (clientId : String) (last : Doc) : Edit := do
  let cleared ← Prog.update .ips (Db.dropIps (last.str "email"))
  if cleared = false then pure dbError
  else if last.str "email" = "" then Edit.saveRow (row.without clientId)
  else Edit.delRow h row clientId last

/-- A deletion, once the inbound is loaded. -/
def Edit.del (h : Host) (clientId : String) (row : InboundRow) : Edit :=
  match (row.base.settings.clients.filter (hasIdentity row.base.protocol clientId)).getLast? with
  | none => pure (newError "client not found:" clientId)
  | some last =>
      if (row.without clientId).base.settings.clients = [] then
        pure (.error (.refused "no client remained in Inbound\n"))
      else Edit.delWrites h row clientId last

/-- `DelInboundClient`. -/
def Edit.delInboundClient (h : Host) (inboundId : Nat) (clientId : String) : Edit := do
  match ← Prog.select .load fun db => db.inbounds.find? inboundId with
  | none => pure dbError
  | some none => pure recordNotFound
  | some (some row) => Edit.del h clientId row

/-! ## Editing an inbound -/

/-- What is posted for an inbound.  The id and `allTime` are stored for a new one only. -/
structure InboundForm where
  id : Nat
  protocol : Protocol := .vmess
  enable : Bool := true
  listen : String := ""
  port : Nat
  clients : List Text := []
  method : Option String := none
  authMode : String := ""
  up : Int := 0
  down : Int := 0
  total : Int := 0
  allTime : Int := 0
  expiryTime : Int := 0
  multiplierEnable : Bool := false
  multiplierAfter : Int := 0
  multiplier : Option ℚ := some 1

/-- The tag of an inbound that listens here. -/
def inboundTag (listen : String) (port : Nat) : String :=
  if listen = "" ∨ listen = "0.0.0.0" ∨ listen = "::" ∨ listen = "::0" then "inbound-" ++ toString port
  else "inbound-" ++ listen ++ ":" ++ toString port

/-- A timestamp of the entry of this email, the last one that has one. -/
def carriedStamp (clients : List Doc) (key email : String) : Option ℤ :=
  ((clients.filter fun d => decide (d.get? "email" = some (.str email))).filterMap fun d =>
    match (Doc.toMap d).get? key with
    | some (.num n) => some n.toInt64
    | _ => none).getLast?

/-- The timestamps of a client posted with its inbound. -/
def stampUpdated (now : Int) (old : List Doc) (t : Text) : Map :=
  let m := Text.toMap t
  let email := m.str "email"
  let m := if (m.get? "created_at").isNone then
      m.set "created_at" (.num (.int
        (((carriedStamp old "created_at" email).filter fun v => decide (0 < v)).getD now)))
    else m
  if (m.get? "updated_at").isNone then
    match (carriedStamp old "updated_at" email).filter fun v => decide (0 < v) with
    | some v => m.set "updated_at" (.num (.int v))
    | none => m
  else m

/-- A posted entry stored as it stands. -/
def verbatim (t : Text) : Doc := t.foldl (fun d a => d.set a.1 a.2) Obj.empty

/-- The entries the inbound is left with.  A document with a number beyond the float64
range is stored as it was posted. -/
def formEntries (now : Int) (old : Inbound) (p : Protocol) (posted : List Text) : List Doc :=
  if posted.all Text.inRange then
    (assignSlotsToClientMaps p old.settings.clients
      (posted.map (stampUpdated now old.settings.clients))).map Map.marshal
  else posted.map verbatim

/-- The row after the edit.  What the form does not have stays as it was read. -/
def InboundRow.updated (row : InboundRow) (now : Int) (form : InboundForm) : InboundRow :=
  { row with
    base := { row.base with
      tag := inboundTag form.listen form.port
      protocol := form.protocol
      enable := form.enable
      settings :=
        { clients := formEntries now row.base form.protocol (normalizeClientEmails form.clients)
          method := form.method, authMode := form.authMode } }
    up := form.up, down := form.down, total := form.total, expiryTime := form.expiryTime
    multiplierEnable := form.multiplierEnable, multiplierAfter := form.multiplierAfter
    multiplier := form.multiplier }

/-- The writes of `updateClientTraffics`: the rows of clients that are gone, then those of
new ones. -/
def trafficWrites (row : InboundRow) (clients : List Client) : List (Db → Option Db) :=
  let old := getClients row.base
  let gone := old.filter fun o => !clients.any fun c => decide (o.email = c.email)
  let new := clients.filter fun c => !old.any fun o => decide (c.email = o.email)
  (gone.map fun o db => some (Db.dropStat o.email db)) ++ new.map (Db.insertStat? row.id)

/-- The statements of `updateClientTraffics` for a form. -/
def formWrites (form : InboundForm) (row : InboundRow) : List (EditPlace × (Db → Option Db)) :=
  (trafficWrites row ((normalizeClientEmails form.clients).map Client.decode)).zipIdx.map fun w =>
    (.stat w.2, w.1)

/-- What follows the writes of an inbound's edit.  For a protocol Xray serves itself it
panics when Xray has never been started; the read for the running Xray may fail. -/
def Edit.announceAndUpdate (h : Host) (now : Int) (form : InboundForm) (row : InboundRow) : Edit :=
  if form.protocol.native = true ∧ h.xray = none then Edit.commitAndPanic
  else if form.protocol.native = true ∧ form.enable = true then do
    let _ ← Prog.select .runtime fun db => db.traffics
    Edit.saveAndCommit (row.updated now form)
  else Edit.saveAndCommit (row.updated now form)

/-- The posted inbound, as far as its clients are checked against it. -/
def InboundForm.inbound (form : InboundForm) : Inbound :=
  { id := form.id, tag := inboundTag form.listen form.port, protocol := form.protocol,
    enable := form.enable }

/-- An inbound's edit, once its emails are found free. -/
def Edit.loadAndUpdate (h : Host) (now : Int) (form : InboundForm) : Edit :=
  match protocolFault form.inbound ((normalizeClientEmails form.clients).map Client.decode) with
  | .error e => pure (.error e)
  | .ok _ => do
      match ← Prog.select .load fun db => db.inbounds.find? form.id with
      | none => pure dbError
      | some none => pure recordNotFound
      | some (some row) =>
          Edit.transaction (formWrites form row) (Edit.announceAndUpdate h now form row)

/-- An inbound's edit, once the form is found valid. -/
def Edit.checkAndUpdate (h : Host) (now : Int) (form : InboundForm) : Edit := do
  match ← Prog.select .emails fun db => checkEmailsExistExcludingInbound db.roster
      ((normalizeClientEmails form.clients).map Client.decode) form.id with
  | none => pure dbError
  | some (some email) => pure (duplicateEmailError email)
  | some none => Edit.loadAndUpdate h now form

/-- `UpdateInbound`.  `validate` stands for what refuses a form for its own settings, for
its port or for a daemon it shares. -/
def Edit.updateInbound (h : Host) (now : Int) (validate : Db → Option String) (form : InboundForm) :
    Edit := do
  match ← Prog.select .peers validate with
  | none => pure dbError
  | some (some text) => pure (.error (.refused text))
  | some none => Edit.checkAndUpdate h now form

/-! ## Deleting an inbound -/

/-- The addresses of the inbound's clients, then the inbound. -/
def delInboundWrites (row : InboundRow) : List (EditPlace × (Db → Option Db)) :=
  ((getClients row.base).zipIdx.map fun c =>
    (.dropIps c.2, fun db => some (Db.dropIps c.1.email db))) ++
  [(.dropInbound, fun db => some (Db.dropInbound row.id db))]

/-- The writes of a delete, each on its own. -/
def Edit.dropEverything (id : Nat) : Edit := do
  let dropped ← Prog.update .dropRows (Db.dropRows id)
  if dropped = false then pure dbError
  else do
    match ← Prog.select .load fun db => db.inbounds.find? id with
    | none => pure dbError
    | some none => pure recordNotFound
    | some (some row) =>
        let deleted ← Prog.updates (delInboundWrites row)
        pure (if deleted then .ok () else dbError)

/-- `DelInbound`.  The grants it revokes first are not among the tables here. -/
def Edit.delInbound (h : Host) (id : Nat) : Edit := do
  let _ ← Prog.update .revoke fun db => db
  let tag ← Prog.select .findTag fun db => (db.inbounds.find? id).filter (·.base.enable)
  if tag.join.isSome = true ∧ h.xray = none then pure (.error .panicked) else Edit.dropEverything id

end

end Simorgh.Panel
