import Simorgh.Lib.JsonText
import Simorgh.Panel.Listing

/-!
# The LDAP sync job

A directory says of each user name whether it is allowed.  The job compares it with the
accounts of the panel and makes its changes on every configured inbound: it adds clients
through the hand-written JSON of `clientsToJSON`, it asks for a change of `enable` by adding
a client again, and it deletes by the member it takes for the client's key.

* `ldapRun` — one run.
* `postedClients_clientsToJSON` — the JSON is read back as the clients it was written from,
  when no text in it needs an escape.
-/

namespace Simorgh.Panel

open Simorgh.Lib Simorgh.Lib.Json

/-! ## The JSON the job writes -/

/-- The members of `model.Client` the job writes. -/
structure LdapClient where
  id : String := ""
  password : String := ""
  email : String
  enable : Bool
  limitIP : ℤ := 0
  totalGB : ℤ := 0
  expiryTime : ℤ := 0
  deriving DecidableEq

/-- A client as the job writes it. -/
def clientToJSON (c : LdapClient) : String :=
  "\x7b" ++
    (if c.id ≠ "" then "\"id\":\"" ++ c.id ++ "\"," else "") ++
    (if c.password ≠ "" then "\"password\":\"" ++ c.password ++ "\"," else "") ++
    "\"email\":\"" ++ c.email ++ "\"," ++
    "\"enable\":" ++ (if c.enable then "true" else "false") ++ "," ++
    "\"limitIp\":" ++ toString c.limitIP ++ "," ++
    "\"totalGB\":" ++ toString c.totalGB ++
    (if 0 < c.expiryTime then ",\"expiryTime\":" ++ toString c.expiryTime else "") ++
    "\x7d"

/-- The clients with a comma before each but the first. -/
def joinClients : List LdapClient → String
  | [] => ""
  | [c] => clientToJSON c
  | c :: cs => clientToJSON c ++ "," ++ joinClients cs

/-- The settings the job posts. -/
def clientsToJSON (cs : List LdapClient) : String := "\x7b\"clients\":[" ++ joinClients cs ++ "]\x7d"

/-- A client entry of a posted document. -/
def readEntry : Val Lit → Option Text
  | .other s => readDocument s
  | _ => none

/-- The client entries `AddInboundClient` finds in the settings text it is given.  An entry that
is no object decodes to a client without an identity, which is refused. -/
def postedClients (settings : String) : Except Fault (List Text) :=
  match readDocument settings with
  | none => .error (.refused "invalid character")
  | some t =>
      match (Text.toMap t).get? "clients" with
      | some (.other s) =>
          match readArray s with
          | none => .error .panicked
          | some entries =>
              match entries.mapM readEntry with
              | none => .error (.refused "empty client ID\n")
              | some posted => .ok posted
      | _ => .error .panicked

section Written

variable {c : LdapClient}

/-- A member that is left out when empty. -/
def optionalMember (key value : String) : List Written :=
  if value ≠ "" then [⟨key, quote value, .str value⟩] else []

/-- The members every client has, and the expiry if there is one. -/
def LdapClient.required (c : LdapClient) : List Written :=
  [⟨"email", quote c.email, .str c.email⟩,
    ⟨"enable", if c.enable then "true".toList else "false".toList, .bool c.enable⟩,
    ⟨"limitIp", (toString c.limitIP).toList, .num ⟨c.limitIP, true⟩⟩,
    ⟨"totalGB", (toString c.totalGB).toList, .num ⟨c.totalGB, true⟩⟩] ++
    (if 0 < c.expiryTime then [⟨"expiryTime", (toString c.expiryTime).toList, .num ⟨c.expiryTime, true⟩⟩] else [])

/-- The members of a client, as they are written and as they are read. -/
def LdapClient.members (c : LdapClient) : List Written :=
  optionalMember "id" c.id ++ (optionalMember "password" c.password ++ c.required)

/-- No text of the client needs an escape. -/
structure LdapClient.Bare (c : LdapClient) : Prop where
  id : Json.Bare c.id
  password : Json.Bare c.password
  email : Json.Bare c.email

/-- An optional text of the client, as the job writes it and as a member. -/
theorem flatMap_optionalMember {key : String} (lead : String)
    (hlead : lead.toList = '"' :: (key.toList ++ ['"', ':', '"']))
    (value : String) :
    ((Written.texts (optionalMember key value)).flatMap fun t => t ++ [',']) =
      (if value ≠ "" then lead ++ value ++ "\"," else "").toList := by
  by_cases hvalue : value = ""
  · simp [hvalue, optionalMember, Written.texts]
  · simp [hvalue, optionalMember, Written.texts, member, quote, hlead]

theorem commaSep_required (c : LdapClient) :
    commaSep (Written.texts c.required) =
      ("\"email\":\"" ++ c.email ++ "\"," ++ "\"enable\":" ++ (if c.enable then "true" else "false") ++ "," ++
        "\"limitIp\":" ++ toString c.limitIP ++ "," ++ "\"totalGB\":" ++ toString c.totalGB ++
        (if 0 < c.expiryTime then ",\"expiryTime\":" ++ toString c.expiryTime else "")).toList := by
  have hbool : (if c.enable then "true".toList else "false".toList) =
    (if c.enable then "true" else "false").toList := by
    split <;> rfl
  rw [LdapClient.required, hbool]
  generalize (if c.enable then "true" else "false") = enable
  by_cases hexpiry : 0 < c.expiryTime
  · simp [hexpiry, Written.texts, commaSep, member, quote]
  · simp [hexpiry, Written.texts, commaSep, member, quote]

theorem texts_append (ms ms' : List Written) : Written.texts (ms ++ ms') = Written.texts ms ++ Written.texts ms' :=
  List.map_append

theorem toList_clientToJSON (c : LdapClient) :
    (clientToJSON c).toList = object (Written.texts c.members) := by
  have hne : Written.texts c.required ≠ [] := List.cons_ne_nil _ _
  have hne' : Written.texts (optionalMember "password" c.password) ++ Written.texts c.required ≠ [] := by
    intro h
    exact hne (List.append_eq_nil_iff.1 h).2
  have hid := flatMap_optionalMember "\"id\":\"" (by rfl : _ = '"' :: ("id".toList ++ _)) c.id
  have hpassword := flatMap_optionalMember "\"password\":\"" (by rfl : _ = '"' :: ("password".toList ++ _)) c.password
  have hrequired := commaSep_required c
  simp only [String.toList_append, List.append_assoc] at hrequired
  rw [object, LdapClient.members, texts_append, texts_append]
  rw [commaSep_append _ hne', commaSep_append _ hne]
  rw [hid, hpassword, hrequired]
  unfold clientToJSON
  simp only [String.toList_append, List.append_assoc]
  exact congrArg (List.cons '\x7b') rfl

theorem ok_optionalMember {key value : String} (hkey : Json.Bare key) (hvalue : Json.Bare value) :
    ∀ m ∈ optionalMember key value, m.Ok := by
  intro m hm
  rw [optionalMember] at hm
  split at hm
  · rw [List.mem_singleton.1 hm]
    exact Written.ok hkey (.quote hvalue)
  · cases hm

theorem ok_required (hemail : Json.Bare c.email) : ∀ m ∈ c.required, m.Ok := by
  intro m hm
  simp only [LdapClient.required, List.mem_append, List.mem_cons, List.not_mem_nil, or_false] at hm
  rcases hm with (rfl | rfl | rfl | rfl) | hm
  · exact Written.ok (by decide) (.quote hemail)
  · exact Written.ok (by decide) (.bool _)
  · exact Written.ok (by decide) (.int _)
  · exact Written.ok (by decide) (.int _)
  · split at hm
    · rw [List.mem_singleton.1 hm]
      exact Written.ok (by decide) (.int _)
    · cases hm

theorem LdapClient.Bare.members_ok (h : c.Bare) : ∀ m ∈ c.members, m.Ok := by
  intro m hm
  rw [LdapClient.members, List.mem_append, List.mem_append] at hm
  rcases hm with hm | hm | hm
  · exact ok_optionalMember (by decide) h.id m hm
  · exact ok_optionalMember (by decide) h.password m hm
  · exact ok_required h.email m hm

/-- The entry a client is read as. -/
def LdapClient.toText (c : LdapClient) : Text := Written.toText c.members

theorem toList_joinClients (cs : List LdapClient) :
    (joinClients cs).toList = commaSep (cs.map fun c => (clientToJSON c).toList) := by
  induction cs with
  | nil => rfl
  | cons c cs ih =>
      cases cs with
      | nil => rfl
      | cons c' cs =>
          rw [joinClients, String.toList_append, String.toList_append, ih, List.append_assoc]
          · rfl
          · simp

/-- The entries of the array, each with the value it is read as. -/
def arrayEntries (cs : List LdapClient) : List (List Char × Val Lit) :=
  cs.map fun c => ((clientToJSON c).toList, .other (clientToJSON c))

theorem reads_clientToJSON (h : c.Bare) : Reads (clientToJSON c).toList (.other (clientToJSON c)) := by
  have hreads := Reads.object h.members_ok
  rw [← toList_clientToJSON, String.ofList_toList] at hreads
  exact hreads

theorem readEntry_clientToJSON (h : c.Bare) : readEntry (.other (clientToJSON c)) = some c.toText := by
  have hread := readDocument_object h.members_ok
  rw [← toList_clientToJSON, String.ofList_toList] at hread
  exact hread

theorem mapM_readEntry {cs : List LdapClient} (hcs : ∀ c ∈ cs, c.Bare) :
    ((arrayEntries cs).map (·.2)).mapM readEntry = some (cs.map LdapClient.toText) := by
  induction cs with
  | nil => rfl
  | cons c cs ih =>
      have htail := ih fun d hd => hcs d (List.mem_cons_of_mem _ hd)
      rw [arrayEntries] at htail ⊢
      rw [List.map_cons, List.map_cons, List.mapM_cons, readEntry_clientToJSON (hcs c List.mem_cons_self), htail]
      rfl

/-- **The JSON is read back as the clients it was written from**, when no text needs an escape. -/
theorem postedClients_clientsToJSON {cs : List LdapClient} (hcs : ∀ c ∈ cs, c.Bare) :
    postedClients (clientsToJSON cs) = .ok (cs.map LdapClient.toText) := by
  have hentries : ∀ t ∈ arrayEntries cs, Reads t.1 t.2 := by
    intro t ht
    obtain ⟨c, hc, rfl⟩ := List.mem_map.1 ht
    dsimp only
    exact reads_clientToJSON (hcs c hc)
  have htexts : (arrayEntries cs).map (·.1) = cs.map fun c => (clientToJSON c).toList := by
    simp [arrayEntries]
  have harray := readArray_array hentries
  have hreads := Reads.array hentries
  rw [htexts] at harray hreads
  generalize htext : array (cs.map fun c => (clientToJSON c).toList) = text at harray hreads
  -- the document has one member
  have hdocument : clientsToJSON cs =
      String.ofList (object (Written.texts [⟨"clients", text, .other (String.ofList text)⟩])) := by
    refine String.ofList_toList.symm.trans (congrArg String.ofList ?_)
    unfold clientsToJSON
    rw [String.toList_append, String.toList_append, toList_joinClients, ← htext]
    simp [object, Written.texts, commaSep, member, quote, array]
  have hok : ∀ m ∈ [(⟨"clients", text, .other (String.ofList text)⟩ : Written)], m.Ok := by
    intro m hm
    rw [List.mem_singleton.1 hm]
    exact Written.ok (by decide) hreads
  have hget : (Text.toMap (Written.toText [⟨"clients", text, .other (String.ofList text)⟩])).get? "clients" =
      some (.other (String.ofList text)) := rfl
  rw [hdocument]
  simp only [postedClients, readDocument_object hok, hget, harray, mapM_readEntry hcs]

end Written

/-! ## The job -/

/-- The settings of the job. -/
structure LdapConfig where
  inboundTags : List String
  autoCreate : Bool := false
  autoDelete : Bool := false
  defTotalGB : ℤ := 0
  defExpiryDays : ℤ := 0
  defLimitIP : ℤ := 0

/-- What the host decides: the time in nanoseconds, the identifiers it draws, whether the
address pool of an inbound refuses so many more accounts, and the order it walks a map's keys
in. -/
structure LdapHost where
  now : ℤ
  /-- `uuid.NewString()`, for a user on the inbound of the nth tag -/
  uuid : String → ℕ → String
  pool : Roster → ℕ → ℕ → Option String
  walk : List String → List String
  walk_perm : ∀ l, (walk l).Perm l

/-- `FetchVlessFlags`: what the directory says of each user name, in the order the map is
walked in. -/
abbrev Flags := Table (Prod.fst : String × Bool → String)

/-- The flag of a user. -/
def Flags.get? (flags : Flags) (email : String) : Option Bool := (flags.find? email).map (·.2)

/-- `allClients`: of two clients under one email the later stays. -/
def client? (r : Roster) (email : String) : Option Client :=
  (r.inbounds.rows.flatMap getClients).reverse.find? fun c => decide (c.email = email)

/-- `inboundMap`. -/
def tagged? (r : Roster) (tag : String) : Option Inbound :=
  r.inbounds.rows.reverse.find? fun i => decide (i.tag = tag)

/-- `buildClient`. -/
def buildClient (h : LdapHost) (cfg : LdapConfig) (i : Inbound) (email : String) (n : ℕ) : LdapClient :=
  let secret := h.uuid email n
  let byPassword := i.protocol = .trojan ∨ i.protocol = .shadowsocks
  { id := if byPassword then "" else secret
    password := if byPassword then secret else ""
    email := email
    enable := true
    limitIP := int64 cfg.defLimitIP
    totalGB := int64 cfg.defTotalGB
    expiryTime := if 0 < cfg.defExpiryDays then
        int64 ((h.now + int64 (cfg.defExpiryDays * (24 * 3600 * 10 ^ 9))) / 10 ^ 6) else 0 }

section Job

variable (h : LdapHost) (cfg : LdapConfig) (flags : Flags) (r : Roster)

/-- `clientsToCreate`, for one tag: once for each time the tag is configured. -/
def clientsToCreate (tag : String) : List LdapClient :=
  flags.rows.flatMap fun f =>
    cfg.inboundTags.zipIdx.filterMap fun t =>
      if client? r f.1 = none ∧ f.2 = true ∧ cfg.autoCreate = true ∧ t.1 = tag then
        (tagged? r tag).map fun i => buildClient h cfg i f.1 t.2
      else none

/-- `clientsToEnable` and `clientsToDisable`, for one tag. -/
def clientsToSwitch (enable : Bool) (tag : String) : List String :=
  flags.rows.flatMap fun f =>
    (cfg.inboundTags.filter fun t => decide (t = tag)).filterMap fun _ =>
      if f.2 = enable ∧ (client? r f.1).map (·.enable) = some (!enable) then some f.1 else none

/-- Building a client for a tag that names no inbound panics. -/
def planPanics : Bool :=
  cfg.autoCreate && (flags.rows.any fun f => f.2 && (client? r f.1).isNone) &&
    cfg.inboundTags.any fun tag => (tagged? r tag).isNone

/-- The keys of a map from tags to batches, as they are walked. -/
def batchTags {α : Type} (batch : String → List α) : List String :=
  h.walk (cfg.inboundTags.dedup.filter fun tag => !(batch tag).isEmpty)

section

variable [Runtime]

/-- `AddInboundClient`, from the settings text. -/
def addFromText (s : Roster) (inboundId : ℕ) (settings : String) (pool : Option String) : Roster × Reply :=
  match postedClients settings with
  | .error fault => (s, .error fault)
  | .ok posted => addInboundClient s inboundId posted pool

/-- One batch for the inbound of a tag. -/
def addBatch (batch : String → List LdapClient) (s : Roster) (tag : String) : Roster × Reply :=
  match tagged? r tag with
  | none => (s, .error .panicked)
  | some i => addFromText s i.id (clientsToJSON (batch tag)) (h.pool s i.id (batch tag).length)

/-- The batches in turn; what is refused is logged, and a panic ends the run. -/
def addBatches (batch : String → List LdapClient) : Roster → List String → Roster × Bool
  | s, [] => (s, true)
  | s, tag :: tags =>
      match addBatch h r batch s tag with
      | (s', .error .panicked) => (s', false)
      | (s', _) => addBatches batch s' tags

end

/-- The client `batchSetEnable` posts for an email. -/
def switchClient (enable : Bool) (email : String) : LdapClient := { email := email, enable := enable }

/-- `batchSetEnable`: the clients again, with nothing but their email and `enable`. -/
def switchBatch (enable : Bool) (tag : String) : List LdapClient :=
  (clientsToSwitch cfg flags r enable tag).map (switchClient enable)

/-- The key the job deletes a client by. -/
def ldapKey (p : Protocol) (c : Client) : String :=
  match p with
  | .trojan => c.password
  | .shadowsocks => c.email
  | _ => c.id

/-- The clients of an inbound that the directory does not have. -/
def clientsToDelete (i : Inbound) : List Client :=
  (getClients i).filter fun c => (flags.get? c.email).isNone

/-- `deleteClientsNotInLDAP`. -/
def deleteClientsNotInLDAP (s : Roster) (tag : String) : Roster :=
  (s.inbounds.rows.filter fun i => decide (i.tag = tag)).foldl (fun s i =>
    (clientsToDelete flags i).foldl (fun s c => (delInboundClient s i.id (ldapKey i.protocol c)).1) s) s

/-- `LdapSyncJob.Run`, past the fetch. -/
def ldapRun [Runtime] : Roster :=
  if planPanics cfg flags r then r
  else
    let created := addBatches h r (clientsToCreate h cfg flags r) r
      (batchTags h cfg (clientsToCreate h cfg flags r))
    if created.2 = false then created.1
    else
      let enabled := addBatches h r (switchBatch cfg flags r true) created.1
        (batchTags h cfg (switchBatch cfg flags r true))
      if enabled.2 = false then enabled.1
      else
        let disabled := addBatches h r (switchBatch cfg flags r false) enabled.1
          (batchTags h cfg (switchBatch cfg flags r false))
        if disabled.2 = false ∨ cfg.autoDelete = false then disabled.1
        else cfg.inboundTags.foldl (deleteClientsNotInLDAP flags) disabled.1

end Job

end Simorgh.Panel
