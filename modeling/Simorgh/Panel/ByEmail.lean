import Simorgh.Panel.Atomic
import Simorgh.Panel.Removal
import Simorgh.Panel.Writers

/-!
# Edits that name an account by its email

The bot's edits start from a traffic row.  They take the identity of the first client its
inbound lists under the email, change the entries under the email in the map decoder's view,
and hand them to `UpdateInboundClient`, which looks the client up again, by identity, and
writes the whole traffic row from the entry.

* `Edit.byEmail` — what the edits share.
* `touchesOnly_of_addressed` — in every state of every run, an edit whose account is found again
  and whose row agrees with its entry changes the field it names and nothing else.
* `toggle_overwrites` — a client that shares the identity is overwritten.
-/

namespace Simorgh.Panel

open Simorgh.Lib Simorgh.Lib.Json

section

variable [Runtime]

/-! ## The edits -/

/-- The entries under the email, changed, as they are posted. -/
def changedClients (now : Int) (email : String) (change : Map → Map) (clients : List Doc) : List Text :=
  (clients.filter (hasEmail email)).map fun d =>
    (Map.marshal ((change (Doc.toMap d)).set "updated_at" (.num (.int now)))).members

/-- The client is looked up, changed and posted. -/
def Edit.changeClient (h : Host) (now : Int) (email : String) (change : Client → Map → Map)
    (row : InboundRow) : Edit :=
  match (getClients row.base).find? fun c => decide (c.email = email) with
  | none => pure (newError "Client Not Found For Email:" email)
  | some old =>
      if clientIdentity row.base.protocol old = "" then
        pure (newError "Client Not Found For Email:" email)
      else if !row.base.settings.clients.all fun d => Text.inRange d.members then
        pure (.error (.refused "json: cannot unmarshal number"))
      else Edit.updateInboundClient h now row.id
        (changedClients now email (change old) row.base.settings.clients)
        (clientIdentity row.base.protocol old)

/-- What the edits share: the traffic row leads to the inbound. -/
def Edit.byEmail (h : Host) (now : Int) (missing : Reply) (email : String)
    (change : Client → Map → Map) : Edit := do
  match ← Prog.select .findStat fun db => db.traffics.find? email with
  | none => pure dbError
  | some none => pure missing
  | some (some ct) =>
      match ← Prog.select .load fun db => db.inbounds.find? ct.inboundId with
      | none => pure dbError
      | some none => pure recordNotFound
      | some (some row) => Edit.changeClient h now email change row

/-- `ToggleClientEnableByEmail`. -/
def Edit.toggleClientEnableByEmail (h : Host) (now : Int) (email : String) : Edit :=
  Edit.byEmail h now (newError "Inbound Not Found For Email:" email) email fun old m =>
    m.set "enable" (.bool !old.enable)

/-- `ResetClientIpLimitByEmail`. -/
def Edit.resetClientIpLimitByEmail (h : Host) (now : Int) (email : String) (count : Int) : Edit :=
  Edit.byEmail h now (newError "Inbound Not Found For Email:" email) email fun _ m =>
    m.set "limitIp" (.num (.int count))

/-- `ResetClientExpiryTimeByEmail`. -/
def Edit.resetClientExpiryTimeByEmail (h : Host) (now : Int) (email : String) (expiryTime : Int) :
    Edit :=
  Edit.byEmail h now (newError "Inbound Not Found For Email:" email) email fun _ m =>
    m.set "expiryTime" (.num (.int expiryTime))

/-- `ResetClientTrafficLimitByEmail`. -/
def Edit.resetClientTrafficLimitByEmail (h : Host) (now : Int) (email : String) (totalGB : Int) : Edit :=
  if totalGB < 0 then pure (.error (.refused "totalGB must be >= 0\n"))
  else Edit.byEmail h now (newError "Inbound Not Found For Email:" email) email fun _ m =>
    m.set "totalGB" (.num (.int (int64 (totalGB * 1024 * 1024 * 1024))))

/-- The counters of an account at zero, and its row on. -/
def Db.resetTraffic (email : String) (db : Db) : Db :=
  { db with traffics := db.traffics.modify email resetRow fun ct => (rfl : ct.email = ct.email) }

/-- `ResetClientTrafficByEmail`. -/
def Edit.resetClientTrafficByEmail (email : String) : Edit := do
  let saved ← Prog.update (.stat 0) (Db.resetTraffic email)
  pure (if saved then .ok () else dbError)

/-- `SetClientTelegramUserID`.  `named` is the email of the traffic row under the id, if there
is one. -/
def Edit.setClientTelegramUserID (h : Host) (now : Int) (trafficId : Int) (named : Option String)
    (tgId : Int) : Edit :=
  match named with
  | none => pure (newError "Inbound Not Found For Traffic ID:" (toString trafficId))
  | some email =>
      Edit.byEmail h now (newError "Inbound Not Found For Traffic ID:" (toString trafficId)) email
        fun _ m => m.set "tgId" (.num (.int tgId))

/-- An edit that names its account by email. -/
inductive EmailEdit where
  | toggle (email : String)
  | ipLimit (email : String) (count : Int)
  | expiryTime (email : String) (deadline : Int)
  | trafficLimit (email : String) (totalGB : Int)
  | traffic (email : String)
  | telegram (trafficId : Int) (named : Option String) (tgId : Int)

/-- The statements of an edit. -/
def EmailEdit.prog (h : Host) (now : Int) : EmailEdit → Edit
  | .toggle email => Edit.toggleClientEnableByEmail h now email
  | .ipLimit email count => Edit.resetClientIpLimitByEmail h now email count
  | .expiryTime email deadline => Edit.resetClientExpiryTimeByEmail h now email deadline
  | .trafficLimit email totalGB => Edit.resetClientTrafficLimitByEmail h now email totalGB
  | .traffic email => Edit.resetClientTrafficByEmail email
  | .telegram trafficId named tgId => Edit.setClientTelegramUserID h now trafficId named tgId

/-- The account the edit is for. -/
def EmailEdit.email : EmailEdit → String
  | .toggle email | .ipLimit email _ | .expiryTime email _ | .trafficLimit email _ | .traffic email => email
  | .telegram _ named _ => named.getD ""

/-- The member of the entry the edit names, if it names one. -/
def EmailEdit.field? : EmailEdit → Option String
  | .toggle _ => some "enable"
  | .ipLimit _ _ => some "limitIp"
  | .expiryTime _ _ => some "expiryTime"
  | .trafficLimit _ _ => some "totalGB"
  | .traffic _ => none
  | .telegram _ _ _ => some "tgId"

/-- The row differs in the columns the edit names at most. -/
def EmailEdit.SameRow (edit : EmailEdit) (ct ct' : ClientTraffic) : Prop :=
  match edit with
  | .toggle _ => ct' = { ct with enable := ct'.enable }
  | .expiryTime _ _ => ct' = { ct with expiryTime := ct'.expiryTime }
  | .trafficLimit _ _ => ct' = { ct with total := ct'.total }
  | .traffic _ => ct' = { ct with enable := ct'.enable, up := ct'.up, down := ct'.down }
  | .ipLimit _ _ | .telegram _ _ _ => ct' = ct

/-- One entry under the email was written, and it differs in the member the edit names and the
time of the edit at most. -/
def EmailEdit.EntryOnly (edit : EmailEdit) (db db' : Db) : Prop :=
  ∃ id row index d d', db.inbounds.find? id = some row ∧
    row.base.settings.clients[index]? = some d ∧ d.get? "email" = some (.str edit.email) ∧
    (∀ k, some k ≠ edit.field? → k ≠ "updated_at" → d'.get? k = d.get? k) ∧
    ∀ id', db'.inbounds.find? id' =
      if id' = id then some (row.setClients (row.base.settings.clients.set index d'))
      else db.inbounds.find? id'

/-- The edit changes the field it names, of the account it names. -/
structure EmailEdit.TouchesOnly (edit : EmailEdit) (db db' : Db) : Prop where
  entries : (∀ id, db'.inbounds.find? id = db.inbounds.find? id) ∨ edit.EntryOnly db db'
  others : ∀ e, e ≠ edit.email → db'.traffics.find? e = db.traffics.find? e
  row : db'.traffics.find? edit.email = db.traffics.find? edit.email ∨
    ∃ ct ct', db.traffics.find? edit.email = some ct ∧ db'.traffics.find? edit.email = some ct' ∧
      edit.SameRow ct ct'
  ips : ∀ e, db'.clientIps.find? e = db.clientIps.find? e

/-- The account is found again and its row and entry agree: the first client with the identity
of the first one under the email is the entry under the email, which is what the edit takes it
for; but for what the edit names, the row has what the entry says; and what the edit stamps is
there. -/
structure Addressed (edit : EmailEdit) (row : InboundRow) (ct : ClientTraffic) (old : Client)
    (index : Nat) (d : Doc) : Prop where
  named : edit.email ≠ "" ∧ trimSpace edit.email = edit.email
  own : ((getClients row.base).findIdx? fun c =>
    decide (clientIdentity row.base.protocol c = clientIdentity row.base.protocol old)) = some index
  agrees : edit.SameRow ct (updatedRow (Client.decode d.members) ct)
  created : d.get? "created_at" ≠ none ∧ d.get? "created_at" ≠ some .null
  slot : slotPoolProtocol row.base.protocol = true →
    d.get? "slot" = some (.num ⟨preservedSlot d index, true⟩)
  prints : ∀ d ∈ row.base.settings.clients, Prints d

/-- The condition on an edit, at the state it starts from. -/
def EmailEdit.Exact (edit : EmailEdit) (db : Db) : Prop :=
  edit.field?.isSome → ∀ ct ∈ db.traffics.find? edit.email,
    ∀ row ∈ db.inbounds.find? ct.inboundId,
    ∀ old ∈ (getClients row.base).find? fun c => decide (c.email = edit.email),
    clientIdentity row.base.protocol old ≠ "" →
    ∀ index ∈ row.base.settings.clients.findIdx? (hasEmail edit.email),
    ∀ d ∈ row.base.settings.clients[index]?, Addressed edit row ct old index d

/-! ## The entry that is posted -/

omit [Runtime] in
/-- The entry an edit leaves when the old one has a creation time. -/
theorem editedEntry_eq {i : Inbound} {index : Nat} {d : Doc} (hd : i.settings.clients[index]? = some d)
    {stamp : Val Lit} (hstamp : d.get? "created_at" = some stamp) (hnull : stamp ≠ .null) (now : Int)
    (t : Text) :
    editedEntry now i index t =
      let m := ((Text.toMap t).set "created_at" (stamp.map Lit.toNum)).set "updated_at" (.num (.int now))
      Map.marshal (if slotPoolProtocol i.protocol then m.set "slot" (.num (.int (preservedSlot d index)))
        else m) := by
  have hold : i.settings.clients.getD index Obj.empty = d := by
    rw [List.getD_eq_getElem?_getD, hd, Option.getD_some]
  have hget : (Doc.toMap d).get? "created_at" = some (stamp.map Lit.toNum) := by
    rw [Doc.toMap, Obj.get?_mapNum, hstamp]
    rfl
  simp only [editedEntry, hold, hget]
  cases stamp with
  | null => exact absurd rfl hnull
  | bool b => rfl
  | num l => rfl
  | str s => rfl
  | other s => rfl

section Posted

variable {d : Doc} (hprints : Prints d) (field : String) (v : Val Json.Num) (now : Int)

/-- An entry with a member set, as it is posted. -/
def changedEntry (d : Doc) (field : String) (v : Val Json.Num) (now : Int) : Doc :=
  Map.marshal (((Doc.toMap d).set field v).set "updated_at" (.num (.int now)))

include hprints

omit [Runtime] in
theorem Prints.get? (k : String) :
    ((d.get? k).map (Val.map Lit.toNum)).map (Val.map Num.print) = d.get? k := by
  have hsame := congrArg (fun o : Doc => o.get? k) ((rewrite_eq_self_iff d).2 hprints)
  simp only [rewrite, Map.marshal, Doc.toMap, Obj.get?_mapNum] at hsame
  exact hsame

omit [Runtime] in
/-- The members that are not set stay. -/
theorem get?_changedEntry {k : String} (hk : k ≠ field) (hstamp : k ≠ "updated_at") :
    (changedEntry d field v now).get? k = d.get? k := by
  rw [changedEntry, Map.marshal, Obj.get?_mapNum, Obj.get?_set, if_neg (Ne.symm hstamp), Obj.get?_set,
    if_neg (Ne.symm hk), Doc.toMap, Obj.get?_mapNum]
  exact hprints.get? k

omit [Runtime] in
/-- The struct decoder reads every other field as before. -/
theorem field_changedEntry {β : Type} {name : String} {read : Val Lit → Option β}
    (hfield : sameName field name = false) (hstamp : sameName "updated_at" name = false) (zero : β) :
    Json.field name read zero (changedEntry d field v now).members =
      Json.field name read zero d.members := by
  refine field_eq_of_spellings ?_ zero
  have hsame := congrArg (fun o : Doc => o.spellings name) ((rewrite_eq_self_iff d).2 hprints)
  simp only [rewrite, Map.marshal, Obj.spellings_mapNum] at hsame
  rw [changedEntry, Map.marshal, Obj.spellings_mapNum, Obj.spellings_set, hstamp,
    if_neg (by simp), Obj.spellings_set, hfield, if_neg (by simp)]
  exact hsame

omit [Runtime] in
/-- The stored entry has the members of the old one, but for the one that was set and the time
of the edit. -/
theorem get?_editedEntry {i : Inbound} {index : Nat} (hd : i.settings.clients[index]? = some d)
    (hcreated : d.get? "created_at" ≠ none ∧ d.get? "created_at" ≠ some .null)
    (hslot : slotPoolProtocol i.protocol = true → d.get? "slot" = some (.num ⟨preservedSlot d index, true⟩))
    {k : String} (hk : k ≠ field) (hstamp : k ≠ "updated_at") :
    (editedEntry now i index (changedEntry d field v now).members).get? k = d.get? k := by
  have hposted : ((Text.toMap (changedEntry d field v now).members).get? k).map (Val.map Num.print) =
      d.get? k := by
    rw [toMap_members, Doc.toMap, Obj.get?_mapNum, get?_changedEntry hprints field v now hk hstamp]
    exact hprints.get? k
  obtain ⟨stamp, hstamp'⟩ := Option.ne_none_iff_exists'.1 hcreated.1
  have hnull : stamp ≠ .null := fun hnull => hcreated.2 (by rw [hstamp', hnull])
  have hkept : Option.map (Val.map Num.print) (some (stamp.map Lit.toNum)) = d.get? "created_at" := by
    rw [← hprints.get? "created_at", hstamp']
    rfl
  rw [editedEntry_eq hd hstamp' hnull]
  simp only [Map.marshal, Obj.get?_mapNum]
  split
  · rename_i hpool
    rw [Obj.get?_set]
    by_cases hkslot : "slot" = k
    · rw [if_pos hkslot, ← hkslot, hslot hpool]
      rfl
    · rw [if_neg hkslot, Obj.get?_set, if_neg (Ne.symm hstamp), Obj.get?_set]
      by_cases hkcreated : "created_at" = k
      · rw [if_pos hkcreated, ← hkcreated]
        exact hkept
      · rw [if_neg hkcreated]
        exact hposted
  · rw [Obj.get?_set, if_neg (Ne.symm hstamp), Obj.get?_set]
    by_cases hkcreated : "created_at" = k
    · rw [if_pos hkcreated, ← hkcreated]
      exact hkept
    · rw [if_neg hkcreated]
      exact hposted

end Posted

/-! ## The transaction -/

section Transaction

variable {h : Host} {now : Int} {row : InboundRow} {index : Nat} {t : Text} {db : Db} {email : String}
  {ct : ClientTraffic}

omit [Runtime] in
/-- The writes of an edit that keeps its email go through. -/
theorem applied_editWrites_own {c : Client} (hne : email ≠ "") (hc : c.email = email)
    (hct : db.traffics.find? email = some ct) :
    ∃ work, Prog.applied none (editWrites email c) db = (work, true) ∧
      work.inbounds = db.inbounds ∧
      (∀ e, work.traffics.find? e = if e = email then some (updatedRow c ct) else db.traffics.find? e) ∧
      ∀ e, work.clientIps.find? e = db.clientIps.find? e := by
  have hkey : (updatedRow c ct).email = email := hc
  obtain ⟨traffics, htraffics⟩ := Table.rekey?_eq_some_of_free hct (f := updatedRow c) (Or.inl hkey)
  have hrows := Table.find?_rekey? htraffics hct
  obtain ⟨ips, hips, hsame⟩ : ∃ ips, db.clientIps.rekey? email (fun r => { r with email := email }) = some ips ∧
      ∀ e, ips.find? e = db.clientIps.find? e := by
    cases hfound : db.clientIps.find? email with
    | none => exact ⟨db.clientIps, Table.rekey?_of_none hfound _, fun _ => rfl⟩
    | some r =>
        obtain ⟨-, hr⟩ := Table.find?_some hfound
        obtain ⟨ips, hips⟩ := Table.rekey?_eq_some_of_free hfound
          (f := fun r : ClientIps => { r with email := email }) (Or.inl rfl)
        refine ⟨ips, hips, fun e => ?_⟩
        have hself : ({ r with email := email } : ClientIps) = r := by
          obtain ⟨e, ips⟩ := r
          cases hr
          rfl
        rw [Table.find?_rekey? hips hfound e, hself, hr]
        by_cases he : e = email
        · rw [if_pos he, he, hfound]
        · rw [if_neg he, if_neg he]
  refine ⟨{ db with traffics := traffics, clientIps := ips }, ?_, rfl, fun e => ?_, hsame⟩
  · simp only [editWrites, hne, ne_eq, not_false_eq_true, if_true, Prog.applied, Db.updateStat?,
      updateClientStat, htraffics,
      Option.map_some, Db.renameIps?, hc, hips, reduceCtorEq, if_false]
  · rw [hrows e, hkey]
    by_cases he : e = email
    · rw [if_pos he, if_pos he]
    · rw [if_neg he, if_neg he, if_neg he]

omit [Runtime] in
/-- A save over the row that was loaded. -/
theorem saveInbound_own {work : Db} {row' : InboundRow} (hrow : work.inbounds.find? row.id = some row)
    (hid : row'.id = row.id) (htag : row'.base.tag = row.base.tag) :
    ∃ db', work.saveInbound? row' = some db' ∧ db'.traffics = work.traffics ∧
      db'.clientIps = work.clientIps ∧
      ∀ id, db'.inbounds.find? id = if id = row.id then some row' else work.inbounds.find? id := by
  have hfind : work.inbounds.find? row'.id = some row := by rw [hid, hrow]
  refine ⟨{ work with inbounds := work.inbounds.modify row'.id row'.over (InboundRow.over_id row') },
    ?_, rfl, rfl, fun id => ?_⟩
  · simp [Db.saveInbound?, hfind, htag]
  · rw [Table.find?_modify, hid]
    by_cases hid' : id = row.id
    · rw [if_pos hid', if_pos hid', hid', hrow, Option.map_some, InboundRow.over_self hid]
    · rw [if_neg hid', if_neg hid']

omit [Runtime] in
/-- An edit that keeps its email writes its own row and its own entry; it writes the row alone
when announcing the client panics. -/
theorem run_editTransaction_own (hrow : db.inbounds.find? row.id = some row)
    (hct : db.traffics.find? email = some ct) (hne : email ≠ "")
    (hold : ((getClients row.base).getD index {}).email = email) (ht : (Client.decode t).email = email) :
    ∃ db', ((Edit.editTransaction h now row index t).run none ⟨db, .none⟩).1.saved = db' ∧
      (∀ e, db'.traffics.find? e =
        if e = email then some (updatedRow (Client.decode t) ct) else db.traffics.find? e) ∧
      (∀ e, db'.clientIps.find? e = db.clientIps.find? e) ∧
      ((∀ id, db'.inbounds.find? id = db.inbounds.find? id) ∨
        ∀ id, db'.inbounds.find? id =
          if id = row.id then some (row.edited now index t) else db.inbounds.find? id) := by
  obtain ⟨work, happlied, hinb, hrows, hips⟩ := applied_editWrites_own hne ht hct
  have hnamed : ¬ ((Client.decode t).email ≠ "" ∧ ((getClients row.base).getD index {}).email = "") := by
    rw [hold]
    exact fun hblank => hne hblank.2
  have hplain : Edit.editTransaction h now row index t =
      Edit.transaction (editWrites email (Client.decode t)) (Edit.announceAndEdit h now row index t) := by
    simp only [Edit.editTransaction]
    rw [if_neg hnamed, hold]
  rw [hplain]
  simp only [Edit.transaction, Prog.run_do, Prog.run_start, Prog.run_updates_opened, happlied,
    reduceCtorEq, if_false, if_true, Edit.announceAndEdit]
  split
  · simp only [Edit.commitAndPanic, Prog.run_do, Prog.run_finish_opened, Prog.run_pure, reduceCtorEq, if_false]
    exact ⟨work, rfl, hrows, hips, Or.inl fun id => by rw [hinb]⟩
  · have hloaded : work.inbounds.find? row.id = some row := by rw [hinb, hrow]
    have hid : (row.edited now index t).id = row.id := rfl
    obtain ⟨db', hsave, htraffics, hclientIps, hfind⟩ := saveInbound_own hloaded hid rfl
    simp only [Edit.saveAndCommit, Prog.run_do, Prog.run_update?_opened, Prog.applied, hsave,
      Prog.run_finish_opened, Prog.run_pure, reduceCtorEq, if_false, if_true]
    refine ⟨db', rfl, ?_, ?_, Or.inr ?_⟩
    · rw [htraffics]
      exact hrows
    · rw [hclientIps]
      exact hips
    · rw [← hinb]
      exact hfind

end Transaction

/-! ## One edit -/

section OneEdit

variable {h : Host} {now : Int} {db : Db} {email field : String} {d : Doc} {v : Val Json.Num}

omit [Runtime] in
/-- The trimmed emails of the posted entries are left alone. -/
theorem normalizeClientEmails_changed (htrim : trimSpace email = email) (change : Map → Map)
    (clients : List Doc) (hemail : ∀ d, hasEmail email d = true → ((change (Doc.toMap d)).get? "email") =
      some (.str email)) :
    normalizeClientEmails (changedClients now email change clients) =
      changedClients now email change clients := by
  have hposted : ∀ t ∈ changedClients now email change clients,
      (Text.toMap t).get? "email" = some (.str email) := by
    intro t ht
    obtain ⟨d, hd, rfl⟩ := List.mem_map.1 ht
    rw [toMap_members, Doc.toMap, Obj.get?_mapNum, Map.marshal, Obj.get?_mapNum, Obj.get?_set,
      if_neg (by decide), hemail d (List.mem_filter.1 hd).2]
    rfl
  unfold normalizeClientEmails
  simp only
  rw [if_neg]
  rw [List.any_eq_true]
  rintro ⟨t, ht, huntrimmed⟩
  rw [hposted t ht] at huntrimmed
  simp [htrim] at huntrimmed

omit [Runtime] in
/-- The first of the posted entries. -/
theorem changedClients_head {clients : List Doc} {index : Nat}
    (hindex : clients.findIdx? (hasEmail email) = some index) (hd : clients[index]? = some d) :
    ∃ ts, changedClients now email (fun m => m.set field v) clients =
      (changedEntry d field v now).members :: ts ∧ hasEmail email d = true := by
  obtain ⟨hlt, hhas, hbefore⟩ := List.findIdx?_eq_some_iff_getElem.1 hindex
  rw [List.getElem?_eq_getElem hlt, Option.some.injEq] at hd
  have hfind : clients.find? (hasEmail email) = some d := by
    rw [List.find?_eq_some_iff_getElem]
    exact ⟨hd ▸ hhas, index, hlt, hd, fun j hj => by simpa using hbefore j hj⟩
  have hhead : (clients.filter (hasEmail email)).head? = some d := by rw [List.head?_filter, hfind]
  obtain ⟨rest, hrest⟩ := List.head?_eq_some_iff.1 hhead
  exact ⟨_, by rw [changedClients, hrest, List.map_cons]; rfl, hd ▸ hhas⟩

omit [Runtime] in
theorem EmailEdit.TouchesOnly.refl (edit : EmailEdit) (db : Db) : edit.TouchesOnly db db :=
  ⟨Or.inl fun _ => rfl, fun _ _ => rfl, Or.inl rfl, fun _ => rfl⟩

/-- An edit that is not refused on the way is one edit of the client its traffic row leads to. -/
theorem run_byEmail (missing : Reply) (change : Client → Map → Map) :
    ((Edit.byEmail h now missing email change).run none ⟨db, .none⟩).1.saved = db ∨
      ∃ ct row old, db.traffics.find? email = some ct ∧ db.inbounds.find? ct.inboundId = some row ∧
        ((getClients row.base).find? fun c => decide (c.email = email)) = some old ∧
        clientIdentity row.base.protocol old ≠ "" ∧
        (Edit.byEmail h now missing email change).run none ⟨db, .none⟩ =
          (Edit.updateInboundClient h now row.id
            (changedClients now email (change old) row.base.settings.clients)
            (clientIdentity row.base.protocol old)).run none ⟨db, .none⟩ := by
  simp only [Edit.byEmail, Prog.run_do, Prog.run_select_none, reduceCtorEq, if_false]
  cases hct : db.traffics.find? email with
  | none => exact Or.inl rfl
  | some ct =>
      simp only [Prog.run_do, Prog.run_select_none, reduceCtorEq, if_false]
      cases hrow : db.inbounds.find? ct.inboundId with
      | none => exact Or.inl rfl
      | some row =>
          simp only [Edit.changeClient]
          split
          · exact Or.inl rfl
          · rename_i old hold
            split
            · exact Or.inl rfl
            · rename_i hid
              split
              · exact Or.inl rfl
              · exact Or.inr ⟨ct, row, old, rfl, hrow, hold, hid, rfl⟩

/-- The fields that identify a client are not the ones these edits name. -/
def Apart (field : String) : Prop :=
  ∀ name ∈ ["id", "password", "auth", "email", "updated_at"], sameName field name = false

instance (field : String) : Decidable (Apart field) :=
  inferInstanceAs (Decidable (∀ name ∈ ["id", "password", "auth", "email", "updated_at"], _))

omit [Runtime] in
theorem clientIdentity_changedEntry (hprints : Prints d) (hapart : Apart field) (p : Protocol) :
    clientIdentity p (Client.decode (changedEntry d field v now).members) =
      clientIdentity p (Client.decode d.members) := by
  have hid : (Client.decode (changedEntry d field v now).members).id = (Client.decode d.members).id :=
    field_changedEntry hprints field v now (hapart "id" (by simp)) (by decide) ""
  have hpassword : (Client.decode (changedEntry d field v now).members).password =
      (Client.decode d.members).password :=
    field_changedEntry hprints field v now (hapart "password" (by simp)) (by decide) ""
  have hauth : (Client.decode (changedEntry d field v now).members).auth = (Client.decode d.members).auth :=
    field_changedEntry hprints field v now (hapart "auth" (by simp)) (by decide) ""
  have hemail : (Client.decode (changedEntry d field v now).members).email =
      (Client.decode d.members).email :=
    field_changedEntry hprints field v now (hapart "email" (by simp)) (by decide) ""
  cases p with
  | trojan | l2tp | pptp | openvpn | openconnect | sstp | ikev2 | anytls | naive => exact hpassword
  | shadowsocks => exact hemail
  | hysteria | hysteria2 => exact hauth
  | _ => exact hid

/-- The edit of an account that is found again is made to its own entry. -/
theorem editCheck_own {edit : EmailEdit} {row row' : InboundRow} {ct : ClientTraffic} {old : Client}
    {index index' : Nat} {t : Text} (hapart : Apart field) (hrow : db.inbounds.find? row.id = some row)
    (hid : clientIdentity row.base.protocol old ≠ "")
    (hindex : row.base.settings.clients.findIdx? (hasEmail edit.email) = some index)
    (hd : row.base.settings.clients[index]? = some d) (haddr : Addressed edit row ct old index d)
    (hcheck : editCheck row.id (changedClients now edit.email (fun m => m.set field v)
      row.base.settings.clients) (clientIdentity row.base.protocol old) db = some (row', index', t)) :
    row' = row ∧ index' = index ∧ t = (changedEntry d field v now).members := by
  have hprints := haddr.prints d (List.mem_of_getElem? hd)
  have hhead : ∃ ts, changedClients now edit.email (fun m => m.set field v) row.base.settings.clients =
      (changedEntry d field v now).members :: ts ∧ hasEmail edit.email d = true :=
    changedClients_head hindex hd
  obtain ⟨ts, hposted, -⟩ := hhead
  have hfield : field ≠ "email" := by
    rintro rfl
    have hself := hapart "email" (by simp)
    simp [sameName] at hself
  have hnorm : normalizeClientEmails (changedClients now edit.email (fun m => m.set field v)
      row.base.settings.clients) = changedClients now edit.email (fun m => m.set field v)
        row.base.settings.clients := by
    refine normalizeClientEmails_changed haddr.named.2 _ _ fun d hd => ?_
    rw [Obj.get?_set, if_neg hfield, Doc.toMap, Obj.get?_mapNum, of_decide_eq_true hd]
    rfl
  have hclient : (getClients row.base)[index]? = some (Client.decode d.members) := by
    rw [getClients, List.getElem?_map, hd, Option.map_some]
  have hsame : clientIdentity row.base.protocol (Client.decode d.members) =
      clientIdentity row.base.protocol old := by
    obtain ⟨hlt, hown, -⟩ := List.findIdx?_eq_some_iff_getElem.1 haddr.own
    rw [List.getElem?_eq_getElem hlt, Option.some.injEq] at hclient
    rw [← hclient]
    exact of_decide_eq_true hown
  have htarget : editTarget row.base (clientIdentity row.base.protocol old)
      (changedEntry d field v now).members = some index := by
    rw [editTarget, clientIdentity_changedEntry hprints hapart, hsame, if_neg hid]
    exact haddr.own
  unfold editCheck at hcheck
  rw [hnorm, hposted] at hcheck
  simp only [hrow, htarget] at hcheck
  split at hcheck
  · cases hcheck
  split at hcheck
  · cases hcheck
  cases hcheck
  exact ⟨rfl, rfl, rfl⟩

/-- What the edits share, on an account that is found again. -/
theorem byEmail_touches (edit : EmailEdit) (missing : Reply) (value : Client → Val Json.Num)
    (hfield : edit.field? = some field) (hapart : Apart field)
    (hcolumns : ∀ ct d v, Prints d → edit.SameRow ct (updatedRow (Client.decode d.members) ct) →
      edit.SameRow ct (updatedRow (Client.decode (changedEntry d field v now).members) ct))
    (hexact : edit.Exact db) :
    edit.TouchesOnly db ((Edit.byEmail h now missing edit.email fun old m =>
      m.set field (value old)).run none ⟨db, .none⟩).1.saved := by
  rcases run_byEmail missing fun old m => m.set field (value old) with
    hsame | ⟨ct, row, old, hct, hrow, hold, hid, hrun⟩
  · rw [hsame]
    exact .refl edit db
  rw [hrun]
  have hloaded : db.inbounds.find? row.id = some row := by
    rw [show row.id = ct.inboundId from (Table.find?_some hrow).2, hrow]
  rcases run_updateInboundClient h now row.id (changedClients now edit.email
      (fun m => m.set field (value old)) row.base.settings.clients)
      (clientIdentity row.base.protocol old) db none with
    ⟨e, hrun', -⟩ | ⟨row', index', t, hcheck, -, -, hrun'⟩
  · rw [hrun']
    exact .refl edit db
  rw [hrun']
  cases hindex : row.base.settings.clients.findIdx? (hasEmail edit.email) with
  | none =>
      -- nothing is posted, and the edit panics before it writes
      have hnone : changedClients now edit.email (fun m => m.set field (value old))
          row.base.settings.clients = [] := by
        rw [changedClients, List.map_eq_nil_iff, List.filter_eq_nil_iff]
        intro d hd
        simpa using List.findIdx?_eq_none_iff.1 hindex d hd
      rw [hnone] at hcheck
      simp [editCheck, normalizeClientEmails, hloaded] at hcheck
  | some index =>
      obtain ⟨hlt, hhas, -⟩ := List.findIdx?_eq_some_iff_getElem.1 hindex
      have hd : row.base.settings.clients[index]? = some row.base.settings.clients[index] :=
        List.getElem?_eq_getElem hlt
      generalize hdoc : row.base.settings.clients[index] = d at hd hhas
      have haddr := hexact (by rw [hfield]; rfl) ct hct row hrow old hold hid index hindex d hd
      have hprints := haddr.prints d (List.mem_of_getElem? hd)
      obtain ⟨hrow', hindex', ht⟩ := editCheck_own hapart hloaded hid hindex hd haddr hcheck
      rw [hrow', hindex', ht]
      have hemail : (Client.decode d.members).email = edit.email :=
        entryEmail_of_get? (of_decide_eq_true hhas)
      have hold' : ((getClients row.base).getD index {}).email = edit.email := by
        rw [List.getD_eq_getElem?_getD, getClients, List.getElem?_map, hd]
        exact hemail
      have hposted : (Client.decode (changedEntry d field (value old) now).members).email = edit.email := by
        rw [← hemail]
        exact field_changedEntry hprints field (value old) now (hapart "email" (by simp)) (by decide) ""
      obtain ⟨db', hdb', hrows, hips, hinb⟩ :=
        run_editTransaction_own hloaded hct haddr.named.1 hold' hposted
      rw [hdb']
      refine ⟨hinb.imp_right fun hsaved => ?_, fun e he => ?_, Or.inr ?_, hips⟩
      · refine ⟨row.id, row, index, d, editedEntry now row.base index
          (changedEntry d field (value old) now).members, hloaded, hd, of_decide_eq_true hhas, ?_, ?_⟩
        · intro k hk hstamp
          rw [hfield] at hk
          exact get?_editedEntry hprints field (value old) now hd haddr.created haddr.slot
            (fun he => hk (by rw [he])) hstamp
        · intro id
          have hkept : row.base.settings.clients.map rewrite = row.base.settings.clients := by
            rw [map_eq_self_iff]
            exact fun d hd => (rewrite_eq_self_iff d).2 (haddr.prints d hd)
          rw [hsaved id, InboundRow.edited, hkept]
      · rw [hrows, if_neg he]
      · refine ⟨ct, _, hct, ?_, hcolumns ct d (value old) hprints haddr.agrees⟩
        rw [hrows, if_pos rfl]

/-! ## Every edit, in every run -/

omit [Runtime] in
/-- What the row gets from the changed entry, it gets from the old one, but for what is named. -/
theorem sameRow_changedEntry (edit : EmailEdit) (hfield : edit.field? = some field) (ct : ClientTraffic)
    (d : Doc) (v : Val Json.Num) (hprints : Prints d)
    (hsame : edit.SameRow ct (updatedRow (Client.decode d.members) ct)) :
    edit.SameRow ct (updatedRow (Client.decode (changedEntry d field v now).members) ct) := by
  have hread : ∀ {β : Type} (name : String) (read : Val Lit → Option β) (zero : β),
      sameName field name = false → sameName "updated_at" name = false →
      Json.field name read zero (changedEntry d field v now).members =
        Json.field name read zero d.members :=
    fun name read zero hname hstamp => field_changedEntry hprints field v now hname hstamp zero
  have hemail := hread "email" Val.str? ""
  have htotal := hread "totalGB" Val.int64? 0
  have hexpiry := hread "expiryTime" Val.int64? 0
  have henable := hread "enable" Val.bool? false
  have hreset := hread "reset" Val.int64? 0
  cases edit with
  | traffic email => cases hfield
  | toggle email =>
      cases hfield
      simp only [EmailEdit.SameRow, updatedRow, Client.decode] at hsame ⊢
      rw [hemail (by decide) (by decide), htotal (by decide) (by decide),
        hexpiry (by decide) (by decide), hreset (by decide) (by decide)]
      simp only [ClientTraffic.mk.injEq, true_and] at hsame ⊢
      exact hsame
  | ipLimit email count =>
      cases hfield
      simp only [EmailEdit.SameRow, updatedRow, Client.decode] at hsame ⊢
      rw [hemail (by decide) (by decide), htotal (by decide) (by decide),
        hexpiry (by decide) (by decide), henable (by decide) (by decide), hreset (by decide) (by decide)]
      exact hsame
  | expiryTime email deadline =>
      cases hfield
      simp only [EmailEdit.SameRow, updatedRow, Client.decode] at hsame ⊢
      rw [hemail (by decide) (by decide), htotal (by decide) (by decide),
        henable (by decide) (by decide), hreset (by decide) (by decide)]
      simp only [ClientTraffic.mk.injEq, true_and] at hsame ⊢
      exact hsame
  | trafficLimit email totalGB =>
      cases hfield
      simp only [EmailEdit.SameRow, updatedRow, Client.decode] at hsame ⊢
      rw [hemail (by decide) (by decide), hexpiry (by decide) (by decide),
        henable (by decide) (by decide), hreset (by decide) (by decide)]
      simp only [ClientTraffic.mk.injEq, true_and] at hsame ⊢
      exact hsame
  | telegram trafficId named tgId =>
      cases hfield
      simp only [EmailEdit.SameRow, updatedRow, Client.decode] at hsame ⊢
      rw [hemail (by decide) (by decide), htotal (by decide) (by decide),
        hexpiry (by decide) (by decide), henable (by decide) (by decide), hreset (by decide) (by decide)]
      exact hsame

/-- Any of the edits, on an account that is found again. -/
theorem touchesOnly_of_exact (edit : EmailEdit) (hexact : edit.Exact db) :
    edit.TouchesOnly db ((edit.prog h now).run none ⟨db, .none⟩).1.saved := by
  cases edit with
  | toggle email =>
      exact byEmail_touches (.toggle email) _ (fun old => .bool !old.enable) rfl
        (by decide) (sameRow_changedEntry _ rfl) hexact
  | ipLimit email count =>
      exact byEmail_touches (.ipLimit email count) _ (fun _ => .num (.int count)) rfl
        (by decide) (sameRow_changedEntry _ rfl) hexact
  | expiryTime email deadline =>
      exact byEmail_touches (.expiryTime email deadline) _ (fun _ => .num (.int deadline)) rfl
        (by decide) (sameRow_changedEntry _ rfl) hexact
  | trafficLimit email totalGB =>
      simp only [EmailEdit.prog, Edit.resetClientTrafficLimitByEmail]
      split
      · exact .refl _ db
      · exact byEmail_touches (.trafficLimit email totalGB) _
          (fun _ => .num (.int (int64 (totalGB * 1024 * 1024 * 1024)))) rfl
          (by decide) (sameRow_changedEntry _ rfl) hexact
  | traffic email =>
      have hrun : (((EmailEdit.traffic email).prog h now).run none ⟨db, .none⟩).1.saved =
          db.resetTraffic email := rfl
      have hfind : (db.resetTraffic email).traffics.find? email =
          (db.traffics.find? email).map resetRow := Table.find?_modify_self db.traffics email resetRow fun _ => rfl
      rw [hrun]
      refine ⟨Or.inl fun _ => rfl, fun e he => ?_, ?_, fun _ => rfl⟩
      · exact (Table.find?_modify db.traffics email e resetRow fun _ => rfl).trans (if_neg he)
      cases hct : db.traffics.find? email with
      | none =>
          refine Or.inl ?_
          rw [EmailEdit.email, hfind, hct]
          rfl
      | some ct =>
          refine Or.inr ⟨ct, resetRow ct, hct, ?_, rfl⟩
          rw [EmailEdit.email, hfind, hct]
          rfl
  | telegram trafficId named tgId =>
      cases named with
      | none => exact .refl _ db
      | some email =>
          exact byEmail_touches (.telegram trafficId (some email) tgId) _ (fun _ => .num (.int tgId)) rfl
            (by decide) (sameRow_changedEntry _ rfl) hexact

end OneEdit

/-- A write of the panel, these edits among them. -/
inductive PanelMove where
  | write (w : PanelWrite)
  | byEmail (h : Host) (now : Int) (edit : EmailEdit)

/-- One move. -/
def PanelMove.step (db : Db) : PanelMove → Db
  | .write w => w.step db
  | .byEmail h now edit => ((edit.prog h now).run none ⟨db, .none⟩).1.saved

/-- In every state a run of the panel reaches, whatever it started from, an edit whose account is
found again and whose row agrees with its entry changes the field it names and nothing else. -/
theorem touchesOnly_of_addressed (start : Db) (moves : List PanelMove) :
    ∀ db ∈ states PanelMove.step start moves, ∀ (h : Host) (now : Int) (edit : EmailEdit),
      edit.Exact db → edit.TouchesOnly db (PanelMove.step db (.byEmail h now edit)) :=
  fun _ _ _ _ edit hexact => touchesOnly_of_exact edit hexact

end

/-! ## Two accounts of one password -/

instance (d : Doc) : Decidable (Prints d) := decidable_of_iff _ (rewrite_eq_self_iff d)

instance (edit : EmailEdit) (ct ct' : ClientTraffic) : Decidable (edit.SameRow ct ct') := by
  cases edit <;> exact inferInstanceAs (Decidable (_ = _))

instance (edit : EmailEdit) (row : InboundRow) (ct : ClientTraffic) (old : Client) (index : Nat) (d : Doc) :
    Decidable (Addressed edit row ct old index d) :=
  decidable_of_iff (_ ∧ _ ∧ _ ∧ _ ∧ _ ∧ _)
    ⟨fun h => ⟨h.1, h.2.1, h.2.2.1, h.2.2.2.1, h.2.2.2.2.1, h.2.2.2.2.2⟩,
      fun h => ⟨h.named, h.own, h.agrees, h.created, h.slot, h.prints⟩⟩

instance (edit : EmailEdit) (db : Db) : Decidable (edit.Exact db) :=
  inferInstanceAs (Decidable (_ → ∀ ct ∈ db.traffics.find? edit.email, _))

/-- A new Trojan inbound with two accounts, the first one without an email. -/
def newTrojan (password : String) : PanelMove :=
  .write (.addInbound ⟨5000, some {}⟩ 5000 (fun _ => none)
    { id := 0, port := 443, protocol := .trojan,
      clients := [[("password", .str "1234"), ("enable", .bool true)],
        [("password", .str password), ("email", .str "bob"), ("subId", .str "s"), ("enable", .bool true)]] })

/-- The panel after it. -/
def trojanPanel (password : String) : Db :=
  run (@PanelMove.step Runtime.ascii) ⟨Table.empty, Table.empty, Table.empty⟩ [newTrojan password]

/-- With a password of his own bob is switched off, and nothing else changes. -/
theorem toggle_bob :
    (EmailEdit.toggle "bob").TouchesOnly (trojanPanel "abcd") (@PanelMove.step Runtime.ascii
      (trojanPanel "abcd") (.byEmail ⟨6000, some {}⟩ 6000 (.toggle "bob"))) :=
  @touchesOnly_of_addressed Runtime.ascii _ [newTrojan "abcd"] (trojanPanel "abcd")
    (run_mem_states _ _) ⟨6000, some {}⟩ 6000 (.toggle "bob") (by decide +kernel)

/-- The panel after bob was switched off. -/
def afterToggle (password : String) : Db :=
  @PanelMove.step Runtime.ascii (trojanPanel password) (.byEmail ⟨6000, some {}⟩ 6000 (.toggle "bob"))

/-- With the password of the other account, bob's entry is written over that one. -/
theorem toggle_overwrites :
    trojanPanel "1234" ∈ states (@PanelMove.step Runtime.ascii) ⟨Table.empty, Table.empty, Table.empty⟩
        [newTrojan "1234"] ∧
      ¬ (EmailEdit.toggle "bob").TouchesOnly (trojanPanel "1234") (afterToggle "1234") := by
  refine ⟨run_mem_states _ _, fun h => ?_⟩
  have hfound : ((trojanPanel "1234").inbounds.find? 1).isSome = true := by decide +kernel
  have hfirst : ∀ row ∈ (trojanPanel "1234").inbounds.find? 1,
      (row.base.settings.clients[0]?.any (hasEmail "bob")) = false ∧
        ((afterToggle "1234").inbounds.find? 1).map (·.base.settings.clients[0]?) ≠
          some row.base.settings.clients[0]? := by
    decide +kernel
  obtain ⟨row, hrow⟩ := Option.isSome_iff_exists.1 hfound
  obtain ⟨hnameless, hother⟩ := hfirst row hrow
  rcases h.entries with hsame | ⟨id, row', index, d, d', hrow', hd, hemail, -, hfind⟩
  · rw [hsame, hrow] at hother
    exact hother rfl
  · rw [hfind 1] at hother
    by_cases hid : 1 = id
    · subst hid
      obtain rfl : row = row' := by
        rw [hrow, Option.some.injEq] at hrow'
        exact hrow'
      rw [if_pos rfl] at hother
      cases index with
      | zero =>
          rw [hd] at hnameless
          simp [hasEmail, hemail, EmailEdit.email] at hnameless
      | succ k => exact hother (by simp [InboundRow.setClients, Inbound.setClients])
    · rw [if_neg hid, hrow] at hother
      exact hother rfl

end Simorgh.Panel
