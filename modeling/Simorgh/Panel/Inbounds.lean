import Simorgh.Panel.Model

/-!
# Client operations of the inbound service

Each operation reads the roster and answers with the roster it leaves behind and
a reply.  An operation that is refused leaves the roster alone, with one
exception the source has: a panic after the first statement of a transaction
still commits it (`addStats`, `updateInboundClient`).

Whatever the operations ask of the running Xray or of the address pools only
decides a reply, never a row; where an answer of theirs can refuse an operation
it is an argument (`pool`).
-/

namespace Simorgh.Panel

open Simorgh.Lib Simorgh.Lib.Json

/-- An operation that did not go through: refused with a text, or ended by a panic. -/
inductive Fault where
  | refused (text : String)
  | panicked
  deriving DecidableEq

/-- How a call ends. -/
abbrev Reply := Except Fault Unit

/-- `common.NewError`, which prints its arguments as `Sprintln` does. -/
def newError (a b : String) : Reply := .error (.refused (a ++ " " ++ b ++ "\n"))

section

variable [Runtime]

/-! ## Checks -/

/-- Two clients belong to one subscription; an empty id is no match. -/
def sameSubscription (a b : String) : Bool :=
  decide (trimSpace a ≠ "") && decide (trimSpace a = trimSpace b)

/-- Every stored email with its subscription, in store order. -/
def getAllEmailOwnersExcludingInbound (r : Roster) (ignoreInboundId : Nat) :
    List (String × String) :=
  (r.inbounds.rows.filter fun i => decide (i.id ≠ ignoreInboundId)).flatMap fun i =>
    i.settings.clients.map fun t => (jsonExtract t "email", jsonExtract t "subId")

/-- The first email of the batch that names an account under another
subscription.  `owner` lists what is taken, the latest entry of a key first. -/
def firstTaken (owner : List (String × String)) : List Client → Option String
  | [] => none
  | c :: cs =>
      if trimSpace c.email = "" then firstTaken owner cs
      else
        let taken := match owner.lookup (emailKey c.email) with
          | some prev => !sameSubscription prev c.subId
          | none => false
        if taken then some (trimSpace c.email)
        else firstTaken ((emailKey c.email, c.subId) :: owner) cs

/-- The first email another inbound has. -/
def checkEmailsExistExcludingInbound (r : Roster) (clients : List Client)
    (ignoreInboundId : Nat) : Option String :=
  let existing := getAllEmailOwnersExcludingInbound r ignoreInboundId
  firstTaken ((existing.map fun e => (emailKey e.1, e.2)).filter fun e => decide (e.1 ≠ "")) clients

/-- The first email that is taken. -/
def checkEmailsExistForClients (r : Roster) (clients : List Client) : Option String :=
  checkEmailsExistExcludingInbound r clients 0

/-- The refusal of a taken email. -/
def duplicateEmailError (email : String) : Reply :=
  .error (.refused ("Duplicate email: \"" ++ email ++
    "\" is already used by another client. Emails must be unique across all inbounds."))

/-- The stored usernames of one protocol. -/
def getAllPPPUsernames (r : Roster) (p : Protocol) : List String :=
  (r.inbounds.rows.filter fun i => decide (i.protocol = p)).flatMap fun i =>
    i.settings.clients.map fun t => jsonExtract t "id"

/-- The list has the text in some case. -/
def containsFold (l : List String) (s : String) : Bool := l.any fun x => decide (toLower x = toLower s)

/-- The first username that is repeated in the batch or taken by a stored client. -/
def firstDuplicateUsername (all : List String) (seen : List String) : List Client → Option String
  | [] => none
  | c :: cs =>
      if c.id = "" then firstDuplicateUsername all seen cs
      else if containsFold seen c.id || containsFold all c.id then some c.id
      else firstDuplicateUsername all (seen ++ [c.id]) cs

/-- The first username that is taken. -/
def checkPPPUsernamesForDuplicates (r : Roster) (p : Protocol) (clients : List Client) :
    Option String :=
  firstDuplicateUsername (getAllPPPUsernames r p) [] clients

/-- The protocols whose usernames are unique across the panel. -/
def Protocol.usernamesUnique : Protocol → Bool
  | .l2tp | .pptp | .openvpn | .sstp | .ikev2 | .wgc | .awg | .gre | .ssh => true
  | _ => false

/-- The email of the first account that shares its password with an earlier one. -/
def firstAnytlsPasswordCollision (seen : List String) : List Client → String
  | [] => ""
  | c :: cs =>
      if c.password = "" then firstAnytlsPasswordCollision seen cs
      else if c.password ∈ seen then c.email
      else firstAnytlsPasswordCollision (c.password :: seen) cs

/-- The username, or else the email. -/
def naiveAuthUsername (c : Client) : String := if c.username ≠ "" then c.username else c.email

/-- The email of the first account whose Basic-auth username is unusable, and why. -/
def firstNaiveUsernameFault (seen : List String) : List Client → String × String
  | [] => ("", "")
  | c :: cs =>
      if ':' ∈ c.username.toList then (c.email, "a naive username cannot contain a colon")
      else if naiveAuthUsername c = "" then firstNaiveUsernameFault seen cs
      else if naiveAuthUsername c ∈ seen then (c.email, "duplicate naive username")
      else firstNaiveUsernameFault (naiveAuthUsername c :: seen) cs

/-- The IKEv2 authentication mode, its default filled in. -/
def ikev2AuthMode (i : Inbound) : String :=
  if i.protocol ≠ .ikev2 then ""
  else if trimSpace i.settings.authMode ≠ "" then trimSpace i.settings.authMode
  else "eap-mschapv2"

/-- The per-protocol checks a list of accounts must pass together. -/
def protocolFault (i : Inbound) (clients : List Client) : Reply :=
  if i.protocol = .anytls ∧ firstAnytlsPasswordCollision [] clients ≠ "" then
    newError "Duplicate AnyTLS password on client:" (firstAnytlsPasswordCollision [] clients)
  else if i.protocol = .naive ∧ (firstNaiveUsernameFault [] clients).1 ≠ "" then
    newError ((firstNaiveUsernameFault [] clients).2 ++ "  on client:")
      (firstNaiveUsernameFault [] clients).1
  else .ok ()

/-! ## Entries -/

/-- A stored entry read into a map and written back. -/
def rewrite (d : Doc) : Doc := Map.marshal (Doc.toMap d)

omit [Runtime] in
/-- Only numbers change in an entry that is written back. -/
theorem members_rewrite (d : Doc) :
    (rewrite d).members = d.members.map fun a => (a.1, a.2.map (Num.print ∘ Lit.toNum)) := by
  simp only [rewrite, Map.marshal, Doc.toMap, Obj.mapNum, List.map_map]
  refine List.map_congr_left fun a _ => ?_
  obtain ⟨k, v⟩ := a
  cases v <;> rfl

omit [Runtime] in
theorem get?_rewrite {d : Doc} {k e : String} (h : d.get? k = some (.str e)) :
    (rewrite d).get? k = some (.str e) := by
  rw [rewrite, Map.marshal, Obj.get?_mapNum, Doc.toMap, Obj.get?_mapNum, h]
  rfl

/-- A posted entry as it is stored. -/
def stored (t : Text) : Doc := Map.marshal (Text.toMap t)

/-- The posted entries with trimmed emails.  The document is rewritten only when
some email changes, and then as a whole. -/
def normalizeClientEmails (posted : List Text) : List Text :=
  let untrimmed (m : Map) : Bool := match m.get? "email" with
    | some (.str e) => decide (trimSpace e ≠ e)
    | _ => false
  if posted.any fun t => untrimmed (Text.toMap t) then
    posted.map fun t =>
      let m := Text.toMap t
      (Map.marshal
        (if untrimmed m then m.set "email" (.str (trimSpace (m.str "email"))) else m)).members
  else posted

/-- The traffic row a new client starts with. -/
def statRow (inboundId : Nat) (c : Client) : ClientTraffic :=
  { email := c.email, inboundId := inboundId, enable := c.enable, total := c.totalGB,
    expiryTime := c.expiryTime, reset := c.reset }

/-- `AddClientStat`; the caller ignores a violated index. -/
def addClientStat (traffics : Table ClientTraffic.email) (inboundId : Nat) (c : Client) :
    Table ClientTraffic.email :=
  (traffics.insert? (statRow inboundId c)).getD traffics

omit [Runtime] in
/-- Afterwards the email has a row: the one it had, or a fresh one. -/
theorem find?_addClientStat (traffics : Table ClientTraffic.email) (inboundId : Nat) (c : Client)
    (email : String) :
    (addClientStat traffics inboundId c).find? email =
      if email = c.email then some ((traffics.find? email).getD (statRow inboundId c))
      else traffics.find? email := by
  have hkey : (statRow inboundId c).email = c.email := rfl
  unfold addClientStat
  cases hins : traffics.insert? (statRow inboundId c) with
  | none =>
      obtain ⟨ct, hct⟩ := Option.isSome_iff_exists.1 (Table.insert?_eq_none.1 hins)
      rw [hkey] at hct
      by_cases he : email = c.email
      · simp [he, hct]
      · simp [he]
  | some traffics' =>
      have hnone := (Table.insert?_eq_some hins).1
      rw [hkey] at hnone
      rw [Option.getD_some, Table.find?_insert? hins, hkey]
      by_cases he : email = c.email
      · simp [he, hnone]
      · simp [he, Ne.symm he]

omit [Runtime] in
theorem rows_addClientStat (traffics : Table ClientTraffic.email) (inboundId : Nat) (c : Client) :
    (addClientStat traffics inboundId c).rows =
      if (traffics.find? c.email).isSome then traffics.rows
      else traffics.rows ++ [statRow inboundId c] := by
  unfold addClientStat
  cases hins : traffics.insert? (statRow inboundId c) with
  | none =>
      have htaken : (traffics.find? c.email).isSome := Table.insert?_eq_none.1 hins
      rw [if_pos htaken, Option.getD_none]
  | some traffics' =>
      obtain ⟨hnone, hrows⟩ := Table.insert?_eq_some hins
      have hfree : traffics.find? c.email = none := hnone
      rw [Option.getD_some, hrows, hfree]
      rfl

/-- The row of `email` after an edit. -/
def updatedRow (c : Client) (ct : ClientTraffic) : ClientTraffic :=
  { ct with enable := c.enable, email := c.email, total := c.totalGB, expiryTime := c.expiryTime,
            reset := c.reset }

/-- `UpdateClientStat`; a taken email violates the index. -/
def updateClientStat (traffics : Table ClientTraffic.email) (email : String) (c : Client) :
    Option (Table ClientTraffic.email) :=
  traffics.rekey? email (updatedRow c)

/-- Announcing this client to Xray panics: a Shadowsocks inbound without a cipher. -/
def cipherPanics (i : Inbound) (c : Client) : Bool :=
  c.enable && decide (i.protocol = .shadowsocks) && i.settings.method.isNone

/-- The inbound with its client entries replaced. -/
def Inbound.setClients (i : Inbound) (clients : List Doc) : Inbound :=
  { i with settings := { i.settings with clients := clients } }

omit [Runtime] in
@[simp] theorem Inbound.setClients_id (i : Inbound) (clients : List Doc) :
    (i.setClients clients).id = i.id := rfl

/-- Write an inbound's entries back. -/
def saveClients (inbounds : Table Inbound.id) (id : Nat) (clients : List Doc) : Table Inbound.id :=
  inbounds.modify id (·.setClients clients) (Inbound.setClients_id · clients)

omit [Runtime] in
theorem find?_saveClients (inbounds : Table Inbound.id) (id id' : Nat) (clients : List Doc) :
    (saveClients inbounds id clients).find? id' =
      if id' = id then (inbounds.find? id').map (·.setClients clients) else inbounds.find? id' :=
  Table.find?_modify inbounds id id' _ (Inbound.setClients_id · clients)

/-! ## Adding -/

/-- The traffic rows of added clients, and whether the loop ran to its end. -/
def addStats (i : Inbound) (traffics : Table ClientTraffic.email) :
    List Client → Table ClientTraffic.email × Bool
  | [] => (traffics, true)
  | c :: cs =>
      if c.email = "" then addStats i traffics cs
      else if cipherPanics i c then (addClientStat traffics i.id c, false)
      else addStats i (addClientStat traffics i.id c) cs

/-- The refusals of `AddInboundClient`, in order. -/
def addInboundClientCheck (r : Roster) (i : Inbound) (clients : List Client) (pool : Option String) :
    Reply :=
  if pool ≠ none then .error (.refused (pool.getD ""))
  else if (ikev2AuthMode i = "psk" ∨ ikev2AuthMode i = "eap-tls") ∧ getClients i ≠ [] then
    .error (.refused "PSK and EAP-TLS IKEv2 inbounds allow only one account\n")
  else if clients.any fun c => decide (clientIdentity i.protocol c = "") then
    .error (.refused "empty client ID\n")
  else if i.protocol.usernamesUnique ∧ checkPPPUsernamesForDuplicates r i.protocol clients ≠ none
  then newError "Duplicate username:" ((checkPPPUsernamesForDuplicates r i.protocol clients).getD "")
  else protocolFault i (getClients i ++ clients)

/-- `AddInboundClient`. -/
def addInboundClient (r : Roster) (inboundId : Nat) (posted : List Text)
    (pool : Option String) : Roster × Reply :=
  let posted := normalizeClientEmails posted
  let clients := posted.map Client.decode
  if !posted.all Text.inRange then (r, .error (.refused "json: cannot unmarshal number"))
  else match checkEmailsExistForClients r clients with
    | some email => (r, duplicateEmailError email)
    | none =>
      match r.inbounds.find? inboundId with
      | none => (r, .error (.refused "record not found"))
      | some i =>
        match addInboundClientCheck r i clients pool with
        | .error e => (r, .error e)
        | .ok _ =>
          let stats := addStats i r.traffics clients
          if stats.2 then
            let entries := i.settings.clients.map rewrite ++ posted.map stored
            (⟨saveClients r.inbounds i.id entries, stats.1⟩, .ok ())
          else (⟨r.inbounds, stats.1⟩, .error .panicked)

/-- Everything an add that went through did. -/
theorem addInboundClient_ok {r r' : Roster} {inboundId : Nat} {posted : List Text}
    {pool : Option String} (h : addInboundClient r inboundId posted pool = (r', .ok ())) :
    ∃ i, r.inbounds.find? inboundId = some i ∧
      checkEmailsExistForClients r ((normalizeClientEmails posted).map Client.decode) = none ∧
      addInboundClientCheck r i ((normalizeClientEmails posted).map Client.decode) pool = .ok () ∧
      (addStats i r.traffics ((normalizeClientEmails posted).map Client.decode)).2 = true ∧
      r' = ⟨saveClients r.inbounds i.id
          (i.settings.clients.map rewrite ++ (normalizeClientEmails posted).map stored),
        (addStats i r.traffics ((normalizeClientEmails posted).map Client.decode)).1⟩ := by
  unfold addInboundClient at h
  simp only at h
  split at h
  · cases h
  split at h
  · cases h
  rename_i hfree
  split at h
  · cases h
  rename_i i hi
  split at h
  · cases h
  rename_i hcheck
  split at h
  · rename_i hstats
    cases h
    exact ⟨i, hi, hfree, hcheck, hstats, rfl⟩
  · cases h

omit [Runtime] in
/-- The rows of a single added client. -/
theorem addStats_singleton {i : Inbound} {traffics : Table ClientTraffic.email} {c : Client}
    (h : (addStats i traffics [c]).2 = true) :
    (addStats i traffics [c]).1 =
      if c.email = "" then traffics else addClientStat traffics i.id c := by
  simp only [addStats] at h ⊢
  split
  · rfl
  · rename_i hne
    rw [if_neg hne] at h
    split
    · rename_i hpanic
      simp [hpanic] at h
    · rfl

/-- `model.Client` written as JSON, in the order of its fields. -/
def Client.encode (c : Client) : Text :=
  let text (k v : String) : Text := if v = "" then [] else [(k, .str v)]
  let number (n : Int) : Val Lit := .num ⟨n, true⟩
  text "id" c.id ++ text "password" c.password ++ text "auth" c.auth ++
    [("email", .str c.email), ("totalGB", number c.totalGB),
      ("expiryTime", number c.expiryTime), ("enable", .bool c.enable), ("subId", .str c.subId),
      ("reset", number c.reset)] ++ text "username" c.username

/-- The integer fields are machine integers. -/
structure Client.InRange (c : Client) : Prop where
  totalGB : FitsInt64 c.totalGB
  expiryTime : FitsInt64 c.expiryTime
  reset : FitsInt64 c.reset

omit [Runtime] in
/-- What the struct decoder fills in is in range. -/
theorem decode_inRange (t : Text) : (Client.decode t).InRange := by
  have hfield : ∀ name, FitsInt64 (field name Val.int64? 0 t) := by
    intro name
    rw [field_eq_lastSpelling]
    cases hlast : lastSpelling name Val.int64? t with
    | none => exact ⟨by simp, by simp⟩
    | some n =>
        obtain ⟨a, -, ha⟩ := List.mem_filterMap.1 (List.mem_of_getLast? hlast)
        split at ha
        · cases hv : a.2 with
          | num l =>
              rw [hv, Val.int64?, Lit.int64?] at ha
              split at ha
              · rename_i hl
                cases ha
                simp only [Bool.and_eq_true, decide_eq_true_eq] at hl
                exact hl.2
              · cases ha
          | null => simp [hv, Val.int64?] at ha
          | bool b => simp [hv, Val.int64?] at ha
          | str s => simp [hv, Val.int64?] at ha
          | other s => simp [hv, Val.int64?] at ha
        · cases ha
  exact ⟨hfield _, hfield _, hfield _⟩

omit [Runtime] in
theorem field_text {β : Type} {name : String} {read : Val Lit → Option β} (k v : String) (zero : β) :
    field name read zero (if v = "" then [] else [(k, .str v)]) =
      if v ≠ "" ∧ sameName k name = true then (read (.str v)).getD zero else zero := by
  by_cases hv : v = "" <;> by_cases hk : sameName k name = true <;> simp [hv, hk, field]

omit [Runtime] in
/-- A client written and read back is the same client. -/
theorem decode_encode {c : Client} (h : c.InRange) : Client.decode c.encode = c := by
  obtain ⟨id, password, auth, username, email, subId, totalGB, expiryTime, enable, reset⟩ := c
  have htotal := int64?_of_fits h.totalGB
  have hexpiry := int64?_of_fits h.expiryTime
  have hreset := int64?_of_fits h.reset
  simp only [Client.decode, Client.encode, field_append, field_cons, field_nil, field_text]
  simp [sameName, Val.str?, Val.bool?, htotal, hexpiry, hreset, foldChar]

omit [Runtime] in
theorem inRange_encode {c : Client} (h : c.InRange) : c.encode.inRange = true := by
  have htotal := inRange_of_fits h.totalGB
  have hexpiry := inRange_of_fits h.expiryTime
  have hreset := inRange_of_fits h.reset
  have htext : ∀ k v : String, Text.inRange (if v = "" then [] else [(k, .str v)]) = true := by
    intro k v
    split <;> rfl
  simp only [Client.encode, Text.inRange, List.all_append, List.all_cons, List.all_nil,
    Bool.and_true, Bool.and_eq_true, Bool.true_and] at htext ⊢
  exact ⟨⟨⟨⟨htext _ _, htext _ _⟩, htext _ _⟩, htotal, hexpiry, hreset⟩, htext _ _⟩

omit [Runtime] in
theorem get?_email_encode (c : Client) : (Text.toMap c.encode).get? "email" = some (.str c.email) := by
  simp only [Client.encode, List.append_assoc, List.cons_append]
  rw [← List.append_assoc, ← List.append_assoc]
  refine get?_toMap_append_cons _ _ "email" _ ?_
  intro a ha
  by_cases hu : c.username = ""
  · simp only [hu, if_true, List.append_nil, List.mem_cons, List.not_mem_nil, or_false] at ha
    rcases ha with rfl | rfl | rfl | rfl | rfl <;> simp
  · simp only [hu, if_false, List.nil_append, List.mem_cons, List.not_mem_nil, or_false] at ha
    rcases ha with rfl | rfl | rfl | rfl | rfl | rfl <;> simp

omit [Runtime] in
/-- A client with a trimmed email is left as it is written. -/
theorem normalizeClientEmails_encode {c : Client} (h : trimSpace c.email = c.email) :
    normalizeClientEmails [c.encode] = [c.encode] := by
  simp [normalizeClientEmails, get?_email_encode, h]

/-- The copy of the client one inbound of a multi-inbound create is handed. -/
def multiClient (client : Client) : Client :=
  { client with email := trimSpace client.email, id := "", password := "" }

/-- One inbound of `CreateAcrossInbounds`.  A customer that is already there counts
as created. -/
def createOn (client : Client) (pool : Nat → Option String) (r : Roster) (id : Nat) :
    Roster × Reply :=
  match r.inbounds.find? id with
  | none => (r, .error (.refused "no such inbound"))
  | some i =>
      if (getClients i).any fun c => equalFold (trimSpace c.email) (trimSpace client.email) then
        (r, .ok ())
      else addInboundClient r id [(multiClient client).encode] (pool id)

/-- The loop over the inbounds.  What is refused on one of them does not undo the
others; a panic ends the request where it is. -/
def createOnEach (client : Client) (pool : Nat → Option String) (r : Roster) (created : Bool) :
    List Nat → Roster × Reply
  | [] =>
      if created then (r, .ok ())
      else (r, .error (.refused
        "the account could not be created on any of the selected inbounds"))
  | id :: ids =>
      match createOn client pool r id with
      | (r', .ok _) => createOnEach client pool r' true ids
      | (r', .error (.refused _)) => createOnEach client pool r' created ids
      | (r', .error .panicked) => (r', .error .panicked)

/-- `CreateAcrossInbounds`: a customer on every inbound given. -/
def createAcrossInbounds (r : Roster) (inboundIds : List Nat) (client : Client)
    (pool : Nat → Option String) : Roster × Reply :=
  if inboundIds = [] then (r, .error (.refused "pick at least one inbound to create the account on"))
  else if trimSpace client.email = "" then
    (r, .error (.refused
      "the account needs an email; it is the identity quota and expiry are keyed on"))
  else if trimSpace client.subId = "" then
    (r, .error (.refused
      "the account needs a subscription id, or its configs cannot be served as one subscription"))
  else createOnEach client pool r false inboundIds

/-! ## Editing and deleting one client -/

/-- The refusals of `UpdateInboundClient` past the identity check, in order. -/
def updateInboundClientCheck (r : Roster) (i : Inbound) (old : Client) (index : Nat)
    (clients : List Client) (c : Client) : Reply :=
  let taken := if c.email ≠ "" ∧ sameEmail c.email old.email = false
    then checkEmailsExistForClients r clients else none
  match taken with
  | some email => duplicateEmailError email
  | none =>
    let dupUser := if i.protocol.usernamesUnique ∧ c.id ≠ old.id
      then checkPPPUsernamesForDuplicates r i.protocol clients else none
    match dupUser with
    | some user => newError "Duplicate username:" user
    | none => protocolFault i ((getClients i).set index c)

/-- The rows after an edit of `oldEmail` to `c`; a taken email violates the index. -/
def editStats (traffics : Table ClientTraffic.email) (inboundId : Nat) (oldEmail : String)
    (c : Client) : Option (Table ClientTraffic.email) :=
  if c.email ≠ "" then
    if oldEmail ≠ "" then updateClientStat traffics oldEmail c
    else some (addClientStat traffics inboundId c)
  else some (traffics.erase oldEmail)

omit [Runtime] in
/-- The rows an edit writes: one fewer when it takes the name away, the edited one
under its new name otherwise. -/
theorem find?_editStats {traffics rows : Table ClientTraffic.email} {inboundId : Nat}
    {oldEmail : String} {c : Client} {ct : ClientTraffic}
    (hct : traffics.find? oldEmail = some ct) (hold : oldEmail ≠ "")
    (h : editStats traffics inboundId oldEmail c = some rows) (e : String) :
    rows.find? e =
      if c.email ≠ "" ∧ e = c.email then some (updatedRow c ct)
      else if e = oldEmail then none else traffics.find? e := by
  unfold editStats at h
  by_cases hc : c.email = ""
  · simp only [hc, ne_eq, not_true_eq_false, if_false, Option.some.injEq] at h
    subst h
    simp only [hc, ne_eq, not_true_eq_false, false_and, if_false]
    exact Table.find?_erase traffics oldEmail e
  · simp only [ne_eq, hc, not_false_eq_true, if_true, hold, updateClientStat] at h
    simp only [ne_eq, hc, not_false_eq_true, true_and]
    exact Table.find?_rekey? h hct e

/-- `UpdateInboundClient`. -/
def updateInboundClient (r : Roster) (inboundId : Nat) (posted : List Text) (clientId : String) :
    Roster × Reply :=
  let posted := normalizeClientEmails posted
  let clients := posted.map Client.decode
  if !posted.all Text.inRange then (r, .error (.refused "json: cannot unmarshal number"))
  else match r.inbounds.find? inboundId with
    | none => (r, .error (.refused "record not found"))
    | some i =>
      match posted, (getClients i).findIdx? fun c => decide (clientIdentity i.protocol c = clientId) with
      | [], _ => (r, .error .panicked)
      | t :: _, index? =>
        let c := Client.decode t
        if clientIdentity i.protocol c = "" then (r, .error (.refused "empty client ID\n"))
        else match index? with
          | none => (r, .error (.refused "empty client ID\n"))
          | some index =>
            let old := (getClients i).getD index {}
            match updateInboundClientCheck r i old index clients c with
            | .error e => (r, .error e)
            | .ok _ =>
              match editStats r.traffics inboundId old.email c with
              | none => (r, .error (.refused "UNIQUE constraint failed: client_traffics.email"))
              | some traffics =>
                if old.email ≠ "" ∧ cipherPanics i c then (⟨r.inbounds, traffics⟩, .error .panicked)
                else
                  let entries := (i.settings.clients.map rewrite).set index (stored t)
                  (⟨saveClients r.inbounds i.id entries, traffics⟩, .ok ())

/-- Everything an edit that went through did. -/
theorem updateInboundClient_ok {r r' : Roster} {inboundId : Nat} {posted : List Text}
    {clientId : String} (h : updateInboundClient r inboundId posted clientId = (r', .ok ())) :
    ∃ i t ts index traffics, r.inbounds.find? inboundId = some i ∧
      normalizeClientEmails posted = t :: ts ∧
      ((getClients i).findIdx? fun c => decide (clientIdentity i.protocol c = clientId)) =
        some index ∧
      clientIdentity i.protocol (Client.decode t) ≠ "" ∧
      updateInboundClientCheck r i ((getClients i).getD index {}) index
        ((t :: ts).map Client.decode) (Client.decode t) = .ok () ∧
      editStats r.traffics inboundId ((getClients i).getD index {}).email (Client.decode t) =
        some traffics ∧
      r' = ⟨saveClients r.inbounds i.id ((i.settings.clients.map rewrite).set index (stored t)),
        traffics⟩ := by
  unfold updateInboundClient at h
  simp only at h
  split at h
  · cases h
  split at h
  · cases h
  rename_i i hi
  split at h
  · cases h
  rename_i index? t ts hposted
  split at h
  · cases h
  rename_i hid
  split at h
  · cases h
  rename_i index hindex
  split at h
  · cases h
  rename_i hcheck
  split at h
  · cases h
  rename_i traffics htraffics
  split at h
  · cases h
  cases h
  refine ⟨i, t, ts, index, traffics, hi, hposted, hindex, hid, ?_, htraffics, rfl⟩
  rw [← hposted]
  exact hcheck

/-- The entry's identity member is this id. -/
def hasIdentity (p : Protocol) (clientId : String) (d : Doc) : Bool :=
  decide (d.str (clientIdentityKey p) ≠ "") && decide (d.str (clientIdentityKey p) = clientId)

/-- `DelInboundClient`: drop every entry under the identity, and the row of the
last one's email. -/
def delInboundClient (r : Roster) (inboundId : Nat) (clientId : String) : Roster × Reply :=
  match r.inbounds.find? inboundId with
  | none => (r, .error (.refused "record not found"))
  | some i =>
    match (i.settings.clients.filter (hasIdentity i.protocol clientId)).getLast? with
    | none => (r, newError "client not found:" clientId)
    | some last =>
      let kept := i.settings.clients.filter fun d => !hasIdentity i.protocol clientId d
      if kept = [] then (r, .error (.refused "no client remained in Inbound\n"))
      else
        let email := last.str "email"
        let inbounds := saveClients r.inbounds i.id (kept.map rewrite)
        if email = "" then (⟨inbounds, r.traffics⟩, .ok ())
        else if (r.traffics.find? email).isNone then (r, .error (.refused "record not found"))
        else (⟨inbounds, r.traffics.erase email⟩, .ok ())

/-- `GetClientTrafficByEmail`: the row, if its own inbound lists the email. -/
def getClientTrafficByEmail (r : Roster) (email : String) : Except Fault ClientTraffic :=
  match r.traffics.find? email with
  | none => .error (.refused ("Inbound Not Found For Email: " ++ email ++ "\n"))
  | some ct =>
      match r.inbounds.find? ct.inboundId with
      | none => .error (.refused "record not found")
      | some i =>
          if (getClients i).any fun c => decide (c.email = email) then .ok ct
          else .error (.refused ("Client Not Found In Inbound For Email: " ++ email ++ "\n"))

/-- The entry's email member is this string. -/
def hasEmail (email : String) (d : Doc) : Bool := decide (d.get? "email" = some (.str email))

/-- `DelInboundClientByEmail`. -/
def delInboundClientByEmail (r : Roster) (inboundId : Nat) (email : String) : Roster × Reply :=
  match r.inbounds.find? inboundId with
  | none => (r, .error (.refused "record not found"))
  | some i =>
    let kept := i.settings.clients.filter fun d => !hasEmail email d
    if !i.settings.clients.any (hasEmail email) then
      (r, .error (.refused ("client with email " ++ email ++ " not found\n")))
    else if kept = [] then (r, .error (.refused "no client remained in Inbound\n"))
    else
      let inbounds := saveClients r.inbounds i.id (kept.map rewrite)
      if email = "" then (⟨inbounds, r.traffics⟩, .ok ())
      else match getClientTrafficByEmail r email with
        | .error e => (r, .error e)
        | .ok _ => (⟨inbounds, r.traffics.erase email⟩, .ok ())

/-- `ResetClientTraffic`: zero the counters and switch the row on.  The lifetime
count stays. -/
def resetRow (ct : ClientTraffic) : ClientTraffic := { ct with up := 0, down := 0, enable := true }

/-- `DelInbound`: the rows under its id go with it. -/
def delInbound (r : Roster) (id : Nat) : Roster :=
  ⟨r.inbounds.erase id, r.traffics.deleteWhere fun ct => decide (ct.inboundId = id)⟩

end

end Simorgh.Panel
