import Simorgh.Panel.Requests

/-!
# What is priced and what is stored

The two handlers a reseller writes clients through.  The posted client is read
three times: as a map, to price it; by the struct decoder of the inbound service,
to store it; and, after an edit, by a small struct decoder that looks only for the
email, to carry the ownership row along.

* `enforced_iff` — exactly when a request that goes through stores the quota it
  was priced with, no auto-renew period, and the email the ledger has.
* `othercase_quota_unpriced` — a second spelling of `totalGB` is stored and never
  priced.
-/

namespace Simorgh.Panel

open Simorgh.Lib Simorgh.Lib.Json

/-! ## The request body -/

/-- A member of the posted settings whose key is another spelling of `clients`. -/
inductive Part where
  | array (clients : List Text)
  | null
  | other

/-- The posted settings: the client list, and what stands under other spellings of
its key, before and after it in key order. -/
structure Body where
  clients : List Text
  before : List Part := []
  after : List Part := []

/-- `postedClient`: exactly one client, decoded into a map. -/
def postedClient (body : Body) : Except LedgerError Map :=
  if !body.clients.all Text.inRange then .error .malformedBody
  else match body.clients with
    | [t] => .ok (Text.toMap t)
    | _ => .error .expectedOneClient

/-- `applyToSettings`: the posted client under the priced decisions. -/
def applyToSettings (p : ResellerProfile) (q : ChargeQuote) (cm : Map) : Map :=
  let cm := if q.forceExpiry then cm.set "expiryTime" (.num (.int q.expiryTime)) else cm
  let cm := if p.allowExternalProxy then cm else cm.delete "externalProxy"
  cm.delete "reset"

/-- The account has used up this quota. -/
def depletedAfter (ct : ClientTraffic) (total : Int) : Bool :=
  decide (0 < total) && decide (total ≤ int64 (ct.up + ct.down))

/-- A depleted account is not switched on by an edit. -/
def keepOff (ct : ClientTraffic) (total : Int) (cm : Map) : Map :=
  if cm.bool "enable" && depletedAfter ct total then cm.set "enable" (.bool false) else cm

/-! ## Reading the email back -/

/-- A value the email field refuses. -/
def mistyped? : Val Lit → Option Bool
  | .str _ => none
  | .null => none
  | _ => some true

/-- Some member taken for the email does not fit it. -/
def mistypedEmail (t : Text) : Bool := field "email" mistyped? false t

/-- A decoded slice of clients: its length, the email of its first element, and
whether decoding has met an error. -/
structure Slice where
  length : Nat := 0
  email : String := ""
  failed : Bool := false

/-- One more member decoded into the slice.  An array is decoded into the elements
that are already there. -/
def Slice.decode (s : Slice) : Part → Slice
  | .null => { failed := s.failed }
  | .other => { s with failed := true }
  | .array [] => { failed := s.failed }
  | .array (t :: ts) =>
      { length := ts.length + 1
        email := field "email" Val.str? (if s.length = 0 then "" else s.email) t
        failed := s.failed || (t :: ts).any mistypedEmail }

/-- `postedClientEmail`. -/
def postedClientEmail (before : List Part) (clients : List Text) (after : List Part) : String :=
  let s := (before ++ .array clients :: after).foldl Slice.decode {}
  if s.failed || decide (s.length ≠ 1) then "" else s.email

/-! ## The handlers -/

/-- Why a posted form is refused. -/
inductive Refusal where
  | ledger (e : LedgerError)
  | inbound (f : Fault)
  deriving DecidableEq

/-- What a request that went through priced, handed to the traffic table, and left
in the ledger. -/
structure Sold where
  priced : Int
  stored : Client
  owner : String
  deriving DecidableEq

/-- The quota, the auto-renew period and the email that are stored are the priced
one, none, and the one of the ownership row. -/
def Sold.Enforced (s : Sold) : Prop :=
  s.stored.totalGB = s.priced ∧ s.stored.reset = 0 ∧ s.stored.email = s.owner

/-- The email an ownership row is under after a rename was asked for. -/
def Ledger.carriedTo (l : Ledger) (oldEmail newEmail : String) : String :=
  if oldEmail = "" ∨ newEmail = "" ∨ oldEmail = newEmail then oldEmail
  else if (l.clients.find? newEmail).isSome then oldEmail else newEmail

section

variable [Runtime]

/-- The client the inbound service decodes from a document it was handed. -/
def received (t : Text) : Client :=
  ((normalizeClientEmails [t]).map Client.decode).headD {}

/-- `addInboundClient` for a reseller. -/
def addClient (w : World) (userId inboundId : Nat) (body : Body) (now : Int)
    (pool : Option String) : World × Except Refusal Sold :=
  match w.ledger.profiles.find? userId with
  | none => (w, .error (.ledger .notAReseller))
  | some p =>
    match postedClient body with
    | .error e => (w, .error (.ledger e))
    | .ok cm =>
      if cm.str "email" = "" then (w, .error (.ledger .emailRequired))
      else match checkEmailsExistForClients w.roster [{ email := cm.str "email" }] with
        | some email => (w, .error (.ledger (.duplicateEmail email)))
        | none =>
          let i : QuoteInput :=
            { profile := p, create := true, newTotal := cm.int64 "totalGB", nowMillis := now }
          match quote i with
          | .error e => (w, .error (.ledger e))
          | .ok q =>
            let ticket : ChargeTicket :=
              { userId := userId, email := cm.str "email", inboundId := inboundId, quote := q,
                create := true }
            match w.ledger.reserve w.roster.traffics ticket with
            | .error e => (w, .error (.ledger e))
            | .ok l =>
              let t := (Map.marshal (applyToSettings p q cm)).members
              match addInboundClient w.roster inboundId [t] pool with
              | (r, .error .panicked) => (⟨r, l⟩, .error (.inbound .panicked))
              | (r, .error e) => (⟨r, l.rollback ticket⟩, .error (.inbound e))
              | (r, .ok _) => (⟨r, l⟩, .ok ⟨i.newTotal, received t, ticket.email⟩)

/-- `updateInboundClient` for a reseller. -/
def updateClient (w : World) (userId inboundId : Nat) (clientId : String) (body : Body)
    (now : Int) : World × Except Refusal Sold :=
  match w.ledger.profiles.find? userId with
  | none => (w, .error (.ledger .notAReseller))
  | some p =>
    match postedClient body with
    | .error e => (w, .error (.ledger e))
    | .ok cm =>
      match storedClientEmail w.roster inboundId clientId with
      | none => (w, .error (.ledger .clientNotOwned))
      | some oldEmail =>
        match w.ledger.clients.find? oldEmail with
        | none => (w, .error (.ledger .clientNotOwned))
        | some owner =>
          if owner.userId ≠ userId then (w, .error (.ledger .clientNotOwned))
          else
            let ct := w.rowOf oldEmail
            let i := updateQuoteInput p owner ct (cm.int64 "totalGB") now
            match quote i with
            | .error e => (w, .error (.ledger e))
            | .ok q =>
              let ticket : ChargeTicket :=
                { userId := userId, email := oldEmail, inboundId := inboundId, quote := q,
                  prevCharged := owner.chargedBytes }
              match w.ledger.reserve w.roster.traffics ticket with
              | .error e => (w, .error (.ledger e))
              | .ok l =>
                let t := (Map.marshal (applyToSettings p q (keepOff ct i.newTotal cm))).members
                match updateInboundClient w.roster inboundId [t] clientId with
                | (r, .error .panicked) => (⟨r, l⟩, .error (.inbound .panicked))
                | (r, .error e) => (⟨r, l.rollback ticket⟩, .error (.inbound e))
                | (r, .ok _) =>
                  let newEmail :=
                    postedClientEmail body.before (normalizeClientEmails [t]) body.after
                  let l' := match l.renameClient oldEmail newEmail with
                    | .error _ => l
                    | .ok l' => l'
                  (⟨r, l'⟩, .ok ⟨i.newTotal, received t, l.carriedTo oldEmail newEmail⟩)

/-! ## What the documents hold -/

/-- A client document as the inbound service normalises it. -/
def normalized (m : Map) : Doc :=
  match m.get? "email" with
  | some (.str e) =>
      if trimSpace e ≠ e then
        Map.marshal ((Doc.toMap (Map.marshal m)).set "email" (.str (trimSpace e)))
      else Map.marshal m
  | _ => Map.marshal m

omit [Runtime] in
theorem normalizeClientEmails_marshal (m : Map) :
    normalizeClientEmails [(Map.marshal m).members] = [(normalized m).members] := by
  have hget : (Doc.toMap (Map.marshal m)).get? "email" =
      (m.get? "email").map fun v => (v.map Num.print).map Lit.toNum := by
    rw [Doc.toMap, Obj.get?_mapNum, Map.marshal, Obj.get?_mapNum, Option.map_map]
    rfl
  simp only [normalizeClientEmails, normalized, List.any_cons, List.any_nil, Bool.or_false,
    List.map_cons, List.map_nil, toMap_members, hget]
  cases hm : m.get? "email" with
  | none => simp
  | some v =>
      cases v with
      | str e =>
          by_cases he : trimSpace e = e
          · simp [Val.map, he]
          · simp [Val.map, he, Obj.str, hget, hm, Val.str?]
      | null => simp [Val.map]
      | bool b => simp [Val.map]
      | num n => simp [Val.map]
      | other t => simp [Val.map]

omit [Runtime] in
/-- What the normalised document holds for a field is decided by the field's
spellings and by the email. -/
theorem spellings_normalized {m m' : Map} {name : String}
    (hs : m.spellings name = m'.spellings name) (he : m.get? "email" = m'.get? "email") :
    (normalized m).spellings name = (normalized m').spellings name := by
  have hmarshal : (Map.marshal m).spellings name = (Map.marshal m').spellings name := by
    rw [Map.marshal, Map.marshal, Obj.spellings_mapNum, Obj.spellings_mapNum, hs]
  unfold normalized
  rw [he]
  split
  · split
    · simp only [Map.marshal, Doc.toMap, Obj.spellings_mapNum, Obj.spellings_set, hs]
    · exact hmarshal
  · exact hmarshal

omit [Runtime] in
/-- The patch leaves alone what it does not name. -/
theorem spellings_applyToSettings {name : String} (hexp : sameName "expiryTime" name = false)
    (hproxy : sameName "externalProxy" name = false) (p : ResellerProfile) (q : ChargeQuote)
    (cm : Map) :
    (applyToSettings p q cm).spellings name = (cm.delete "reset").spellings name := by
  simp only [applyToSettings, Obj.spellings_delete cm "reset", Obj.spellings_delete _ "reset"]
  congr 1
  split
  · split
    · rw [Obj.spellings_set, hexp]
      rfl
    · rfl
  · rw [Obj.spellings_delete_of_not hproxy]
    split
    · rw [Obj.spellings_set, hexp]
      rfl
    · rfl

omit [Runtime] in
theorem get?_applyToSettings {k : String} (hexp : k ≠ "expiryTime") (hproxy : k ≠ "externalProxy")
    (hreset : k ≠ "reset") (p : ResellerProfile) (q : ChargeQuote) (cm : Map) :
    (applyToSettings p q cm).get? k = cm.get? k := by
  have h₁ : ("expiryTime" = k) = False := eq_false (Ne.symm hexp)
  have h₂ : ("externalProxy" = k) = False := eq_false (Ne.symm hproxy)
  have h₃ : ("reset" = k) = False := eq_false (Ne.symm hreset)
  simp only [applyToSettings]
  split <;> split <;>
    simp only [Obj.get?_delete, Obj.get?_set, h₁, h₂, h₃, if_false]

omit [Runtime] in
theorem spellings_keepOff {name : String} (h : sameName "enable" name = false) (ct : ClientTraffic)
    (total : Int) (cm : Map) : (keepOff ct total cm).spellings name = cm.spellings name := by
  unfold keepOff
  split
  · rw [Obj.spellings_set, h]
    rfl
  · rfl

omit [Runtime] in
theorem get?_keepOff {k : String} (h : k ≠ "enable") (ct : ClientTraffic) (total : Int) (cm : Map) :
    (keepOff ct total cm).get? k = cm.get? k := by
  unfold keepOff
  split
  · rw [Obj.get?_set, if_neg (Ne.symm h)]
  · rfl

/-- The posted client as it reaches the struct decoders, whatever the price made of
its other members: without the exact `reset`, its email trimmed. -/
def entry (cm : Map) : Text := (normalized (cm.delete "reset")).members

omit [Runtime] in
theorem field_applyToSettings {β : Type} {name : String} {read : Val Lit → Option β}
    (hexp : sameName "expiryTime" name = false) (hproxy : sameName "externalProxy" name = false)
    (p : ResellerProfile) (q : ChargeQuote) (cm : Map) (zero : β) :
    field name read zero (normalized (applyToSettings p q cm)).members =
      field name read zero (entry cm) := by
  refine field_eq_of_spellings (spellings_normalized ?_ ?_) zero
  · exact spellings_applyToSettings hexp hproxy p q cm
  · rw [get?_applyToSettings (by decide) (by decide) (by decide), Obj.get?_delete,
      if_neg (by decide)]

omit [Runtime] in
theorem field_keepOff {β : Type} {name : String} {read : Val Lit → Option β}
    (henable : sameName "enable" name = false) (ct : ClientTraffic) (total : Int) (cm : Map)
    (zero : β) :
    field name read zero (entry (keepOff ct total cm)) = field name read zero (entry cm) := by
  refine field_eq_of_spellings (spellings_normalized ?_ ?_) zero
  · rw [Obj.spellings_delete, Obj.spellings_delete, spellings_keepOff henable]
  · rw [Obj.get?_delete, Obj.get?_delete, get?_keepOff (by decide)]

omit [Runtime] in
theorem received_marshal (m : Map) :
    received (Map.marshal m).members = Client.decode (normalized m).members := by
  rw [received, normalizeClientEmails_marshal]
  rfl

omit [Runtime] in
/-- The email of a posted client that has one is stored trimmed. -/
theorem email_entry {cm : Map} (h : cm.str "email" ≠ "") :
    field "email" Val.str? "" (entry cm) = trimSpace (cm.str "email") := by
  have hget : ∃ e, cm.get? "email" = some (.str e) ∧ cm.str "email" = e := by
    unfold Obj.str at h ⊢
    cases hv : cm.get? "email" with
    | none => simp [hv] at h
    | some v =>
        cases v with
        | str e => exact ⟨e, rfl, rfl⟩
        | null => simp [hv, Val.str?] at h
        | bool b => simp [hv, Val.str?] at h
        | num n => simp [hv, Val.str?] at h
        | other t => simp [hv, Val.str?] at h
  obtain ⟨e, hget, hstr⟩ := hget
  have hdel : (cm.delete "reset").get? "email" = some (.str e) := by
    rw [Obj.get?_delete, if_neg (by decide), hget]
  rw [hstr]
  unfold entry normalized
  simp only [hdel]
  split
  · have hset : ∀ m : Map, (Map.marshal (m.set "email" (.str (trimSpace e)))).get? "email" =
        some (.str (trimSpace e)) := by
      intro m
      rw [Map.marshal, Obj.get?_mapNum, Obj.get?_set, if_pos rfl]
      rfl
    exact entryEmail_of_get? (hset _)
  · rename_i htrim
    rw [not_not] at htrim
    rw [htrim]
    refine entryEmail_of_get? ?_
    rw [Map.marshal, Obj.get?_mapNum, hdel]
    rfl

/-! ## Requests that go through -/

/-- Everything a create that went through did. -/
theorem addClient_ok {w w' : World} {userId inboundId : Nat} {body : Body} {now : Int}
    {pool : Option String} {s : Sold}
    (h : addClient w userId inboundId body now pool = (w', .ok s)) :
    ∃ t p q l r, body.clients = [t] ∧ w.ledger.profiles.find? userId = some p ∧
      (Text.toMap t).str "email" ≠ "" ∧
      checkEmailsExistForClients w.roster [{ email := (Text.toMap t).str "email" }] = none ∧
      quote { profile := p, create := true, newTotal := (Text.toMap t).int64 "totalGB",
              nowMillis := now } = .ok q ∧
      w.ledger.reserve w.roster.traffics
        { userId := userId, email := (Text.toMap t).str "email", inboundId := inboundId, quote := q,
          create := true } = .ok l ∧
      addInboundClient w.roster inboundId
        [(Map.marshal (applyToSettings p q (Text.toMap t))).members] pool = (r, .ok ()) ∧
      w' = ⟨r, l⟩ ∧
      s = ⟨(Text.toMap t).int64 "totalGB",
        Client.decode (normalized (applyToSettings p q (Text.toMap t))).members,
        (Text.toMap t).str "email"⟩ := by
  unfold addClient at h
  split at h
  · cases h
  rename_i p hp
  split at h
  · cases h
  rename_i cm hcm
  split at h
  · cases h
  rename_i hne
  split at h
  · cases h
  rename_i hfree
  simp only at h
  split at h
  · cases h
  rename_i q hq
  split at h
  · cases h
  rename_i l hl
  split at h
  · cases h
  · cases h
  rename_i r u hr
  cases h
  unfold postedClient at hcm
  split at hcm
  · cases hcm
  split at hcm
  · rename_i t ht
    cases hcm
    exact ⟨t, p, q, l, r, ht, hp, hne, hfree, hq, hl, hr, rfl, by rw [received_marshal]⟩
  · cases hcm

/-- Everything an edit that went through did. -/
theorem updateClient_ok {w w' : World} {userId inboundId : Nat} {clientId : String} {body : Body}
    {now : Int} {s : Sold}
    (h : updateClient w userId inboundId clientId body now = (w', .ok s)) :
    ∃ t p q l oldEmail owner m, body.clients = [t] ∧
      w.ledger.profiles.find? userId = some p ∧
      storedClientEmail w.roster inboundId clientId = some oldEmail ∧
      w.ledger.clients.find? oldEmail = some owner ∧ owner.userId = userId ∧
      quote (updateQuoteInput p owner (w.rowOf oldEmail) ((Text.toMap t).int64 "totalGB") now) =
        .ok q ∧
      w.ledger.reserve w.roster.traffics
        { userId := userId, email := oldEmail, inboundId := inboundId, quote := q,
          prevCharged := owner.chargedBytes } = .ok l ∧
      m = applyToSettings p q
        (keepOff (w.rowOf oldEmail) ((Text.toMap t).int64 "totalGB") (Text.toMap t)) ∧
      updateInboundClient w.roster inboundId [(Map.marshal m).members] clientId =
        (w'.roster, .ok ()) ∧
      (∀ l', l.renameClient oldEmail
          (postedClientEmail body.before [(normalized m).members] body.after) = .ok l' →
        w'.ledger = l') ∧
      s = ⟨(Text.toMap t).int64 "totalGB", Client.decode (normalized m).members,
        l.carriedTo oldEmail (postedClientEmail body.before [(normalized m).members] body.after)⟩ := by
  unfold updateClient at h
  split at h
  · cases h
  rename_i p hp
  split at h
  · cases h
  rename_i cm hcm
  split at h
  · cases h
  rename_i oldEmail hold
  split at h
  · cases h
  rename_i owner howner
  split at h
  · cases h
  rename_i hu
  simp only at h
  split at h
  · cases h
  rename_i q hq
  split at h
  · cases h
  rename_i l hl
  split at h
  · cases h
  · cases h
  rename_i r u hr
  cases h
  unfold postedClient at hcm
  split at hcm
  · cases hcm
  split at hcm
  · rename_i t ht
    cases hcm
    refine ⟨t, p, q, l, oldEmail, owner, _, ht, hp, hold, howner, not_not.1 hu, hq, hl, rfl, hr,
      ?_, ?_⟩
    · intro l' hl'
      simp only [updateQuoteInput, normalizeClientEmails_marshal, hl']
    · simp only [updateQuoteInput, received_marshal, normalizeClientEmails_marshal]
  · cases hcm

/-- A create hands the traffic table the client it decoded, and records the account
it priced. -/
theorem addClient_rows {w w' : World} {userId inboundId : Nat} {body : Body} {now : Int}
    {pool : Option String} {s : Sold}
    (h : addClient w userId inboundId body now pool = (w', .ok s)) :
    w'.roster.traffics =
        (if s.stored.email = "" then w.roster.traffics
          else addClientStat w.roster.traffics inboundId s.stored) ∧
      ∃ rc, w'.ledger.clients.find? s.owner = some rc ∧ rc.userId = userId := by
  obtain ⟨t, p, q, l, r, -, -, -, -, -, hl, hr, rfl, rfl⟩ := addClient_ok h
  obtain ⟨i, hi, -, -, hstats, rfl⟩ := addInboundClient_ok hr
  rw [normalizeClientEmails_marshal] at hstats
  obtain ⟨-, rfl⟩ := Table.find?_some hi
  refine ⟨?_, ?_⟩
  · simp only [normalizeClientEmails_marshal]
    exact addStats_singleton hstats
  · have hfind := (Ledger.find?_reserve_create rfl rfl hl).2
    exact ⟨_, (hfind _).trans (if_pos rfl), rfl⟩

/-- An edit hands the traffic table the client it decoded. -/
theorem updateClient_rows {w w' : World} {userId inboundId : Nat} {clientId : String} {body : Body}
    {now : Int} {s : Sold} (h : updateClient w userId inboundId clientId body now = (w', .ok s)) :
    ∃ oldEmail, storedClientEmail w.roster inboundId clientId = some oldEmail ∧
      editStats w.roster.traffics inboundId oldEmail s.stored = some w'.roster.traffics := by
  obtain ⟨t, p, q, l, oldEmail, owner, m, -, -, hold, -, -, -, -, -, hr, -, rfl⟩ :=
    updateClient_ok h
  obtain ⟨i, t', ts, index, traffics, hi, hposted, hindex, -, -, hedit, hr⟩ :=
    updateInboundClient_ok hr
  rw [normalizeClientEmails_marshal, List.cons.injEq] at hposted
  obtain ⟨rfl, -⟩ := hposted
  refine ⟨oldEmail, hold, ?_⟩
  have hsame : ((getClients i).getD index {}).email = oldEmail := by
    unfold storedClientEmail at hold
    split at hold
    · cases hold
    · rw [hi] at hold
      simp only [List.find?_eq_bind_findIdx?_getElem?, hindex, Option.bind_some,
        Option.map_eq_some_iff] at hold
      obtain ⟨c, hc, rfl⟩ := hold
      rw [List.getD_eq_getElem?_getD, hc, Option.getD_some]
  rw [← hsame, hr]
  exact hedit

/-! ## Exactly when the price is enforced -/

/-- The posted client, decoded into a map. -/
def Body.posted (body : Body) : Map := Text.toMap (body.clients.headD [])

/-- Of the members spelled like `totalGB`, the last in key order that holds an int64
has the value the price was computed from; none of them does and that is zero. -/
def QuotaAgrees (cm : Map) : Prop :=
  (lastSpelling "totalGB" Val.int64? (entry cm)).getD 0 = cm.int64 "totalGB"

/-- Of the members spelled like `reset` but not exactly so, the last that holds an
int64 has zero, or none does. -/
def RenewAbsent (cm : Map) : Prop :=
  (lastSpelling "reset" Val.int64? (entry cm)).getD 0 = 0

/-- The email that is stored is the one the ownership row is carried to. -/
def EmailCarried (w : World) (inboundId : Nat) (clientId : String) (body : Body) : Prop :=
  ∀ oldEmail ∈ storedClientEmail w.roster inboundId clientId,
    (lastSpelling "email" Val.str? (entry body.posted)).getD "" =
      w.ledger.carriedTo oldEmail
        (postedClientEmail body.before [entry body.posted] body.after)

omit [Runtime] in
/-- Reading the email back sees only the email's spellings. -/
theorem postedClientEmail_congr {t t' : Text}
    (hstr : ∀ zero, field "email" Val.str? zero t = field "email" Val.str? zero t')
    (hbad : mistypedEmail t = mistypedEmail t') (before after : List Part) :
    postedClientEmail before [t] after = postedClientEmail before [t'] after := by
  have hdecode : ∀ s : Slice, s.decode (.array [t]) = s.decode (.array [t']) := by
    intro s
    simp only [Slice.decode, hstr, List.any_cons, hbad]
  simp only [postedClientEmail, List.foldl_append, List.foldl_cons, hdecode]

omit [Runtime] in
/-- A committed edit leaves a row under the same emails. -/
theorem carriedTo_reserve {l l' : Ledger} {traffics : Table ClientTraffic.email} {t : ChargeTicket}
    (ha : t.active = true) (hc : t.create = false) (h : l.reserve traffics t = .ok l')
    (oldEmail newEmail : String) : l'.carriedTo oldEmail newEmail = l.carriedTo oldEmail newEmail := by
  have hsome : (l'.clients.find? newEmail).isSome = (l.clients.find? newEmail).isSome := by
    rw [Ledger.find?_reserve_update ha hc h]
    split
    · rw [Option.isSome_map]
    · rfl
  simp only [Ledger.carriedTo, hsome]

/-- Exactly when a request that goes through stores what it was priced with. -/
theorem enforced_iff :
    (∀ w w' userId inboundId body now pool s,
      addClient w userId inboundId body now pool = (w', .ok s) →
      (s.Enforced ↔ QuotaAgrees body.posted ∧ RenewAbsent body.posted ∧
        trimSpace (body.posted.str "email") = body.posted.str "email")) ∧
    ∀ w w' userId inboundId clientId body now s,
      updateClient w userId inboundId clientId body now = (w', .ok s) →
      (s.Enforced ↔ QuotaAgrees body.posted ∧ RenewAbsent body.posted ∧
        EmailCarried w inboundId clientId body) := by
  refine ⟨?_, ?_⟩
  · intro w w' userId inboundId body now pool s h
    obtain ⟨t, p, q, l, r, ht, -, hne, -, -, -, -, -, rfl⟩ := addClient_ok h
    have hposted : body.posted = Text.toMap t := by rw [Body.posted, ht]; rfl
    rw [hposted]
    simp only [Sold.Enforced, Client.decode, QuotaAgrees, RenewAbsent]
    rw [field_applyToSettings (by decide) (by decide), field_applyToSettings (by decide) (by decide),
      field_applyToSettings (by decide) (by decide), email_entry hne, field_eq_lastSpelling,
      field_eq_lastSpelling]
  · intro w w' userId inboundId clientId body now s h
    obtain ⟨t, p, q, l, oldEmail, owner, m, ht, -, hold, -, -, -, hl, rfl, -, -, rfl⟩ :=
      updateClient_ok h
    have hposted : body.posted = Text.toMap t := by rw [Body.posted, ht]; rfl
    have hfield : ∀ {β : Type} (name : String) (read : Val Lit → Option β) (zero : β),
        sameName "expiryTime" name = false → sameName "externalProxy" name = false →
        sameName "enable" name = false →
        field name read zero (normalized (applyToSettings p q (keepOff (w.rowOf oldEmail)
          ((Text.toMap t).int64 "totalGB") (Text.toMap t)))).members =
          field name read zero (entry (Text.toMap t)) := by
      intro β name read zero h₁ h₂ h₃
      rw [field_applyToSettings h₁ h₂, field_keepOff h₃]
    have hemail := postedClientEmail_congr
      (fun zero => hfield "email" Val.str? zero (by decide) (by decide) (by decide))
      (hfield "email" mistyped? false (by decide) (by decide) (by decide)) body.before body.after
    rw [hposted]
    simp only [Sold.Enforced, Client.decode, QuotaAgrees, RenewAbsent, EmailCarried, hposted, hold,
      Option.mem_some_iff, forall_eq', hemail, carriedTo_reserve rfl rfl hl]
    rw [hfield _ _ _ (by decide) (by decide) (by decide),
      hfield _ _ _ (by decide) (by decide) (by decide),
      hfield _ _ _ (by decide) (by decide) (by decide), field_eq_lastSpelling,
      field_eq_lastSpelling, field_eq_lastSpelling]

instance (s : Sold) : Decidable s.Enforced := inferInstanceAs (Decidable (_ ∧ _ ∧ _))

instance (cm : Map) : Decidable (QuotaAgrees cm) := inferInstanceAs (Decidable (_ = _))

instance (cm : Map) : Decidable (RenewAbsent cm) := inferInstanceAs (Decidable (_ = _))

instance (w : World) (inboundId : Nat) (clientId : String) (body : Body) :
    Decidable (EmailCarried w inboundId clientId body) :=
  inferInstanceAs (Decidable (∀ e ∈ storedClientEmail _ _ _, _ = _))

end

/-- One inbound with the account `a` of ten bytes, sold by reseller 1. -/
def shop : World where
  roster := ⟨.single { id := 1, settings := { clients := [⟨[("email", .str "a"), ("id", .str "u")],
      by decide⟩] } },
    .single { email := "a", inboundId := 1, total := 10 }⟩
  ledger := ⟨.single { userId := 1, allowanceBytes := 100, spentBytes := 10 },
    .single { email := "a", inboundId := 1, userId := 1, chargedBytes := 10 }⟩

/-- A posted client under this email and quota, with more members after them. -/
def posting (email : String) (totalGB : Int) (more : Text) : Body :=
  { clients := [[("id", .str "v"), ("email", .str email), ("totalGB", .num ⟨totalGB, true⟩)] ++ more] }

/-- A create and a rename that say everything once. -/
theorem plain_bodies_enforced :
    (∃ w' s, @addClient Runtime.ascii shop 1 1 (posting "b" 20 [("reset", .num ⟨1, true⟩)]) 0 none =
        (w', .ok s) ∧ s.Enforced) ∧
      ∃ w' s, @updateClient Runtime.ascii shop 1 1 "u" (posting "c" 30 []) 0 = (w', .ok s) ∧
        s.Enforced := by
  refine ⟨?_, ?_⟩
  · have h : @addClient Runtime.ascii shop 1 1 (posting "b" 20 [("reset", .num ⟨1, true⟩)]) 0 none =
        ((@addClient Runtime.ascii shop 1 1 (posting "b" 20 [("reset", .num ⟨1, true⟩)]) 0 none).1,
          .ok ⟨20, { id := "v", email := "b", totalGB := 20 }, "b"⟩) :=
      Prod.ext rfl (by decide +kernel)
    exact ⟨_, _, h, ((@enforced_iff Runtime.ascii).1 _ _ _ _ _ _ _ _ h).2 (by decide +kernel)⟩
  · have h : @updateClient Runtime.ascii shop 1 1 "u" (posting "c" 30 []) 0 =
        ((@updateClient Runtime.ascii shop 1 1 "u" (posting "c" 30 []) 0).1,
          .ok ⟨30, { id := "v", email := "c", totalGB := 30 }, "c"⟩) :=
      Prod.ext rfl (by decide +kernel)
    exact ⟨_, _, h, ((@enforced_iff Runtime.ascii).2 _ _ _ _ _ _ _ _ h).2 (by decide +kernel)⟩

/-- A client with a second spelling of its quota: one byte is paid for and a
thousand are stored. -/
theorem othercase_quota_unpriced :
    ∃ s, (@addClient Runtime.ascii shop 1 1
        (posting "b" 1 [("totalgb", .num ⟨1000, true⟩)]) 0 none).2 = .ok s ∧
      s.priced = 1 ∧ s.stored.totalGB = 1000 ∧ ¬ s.Enforced :=
  ⟨⟨1, { id := "v", email := "b", totalGB := 1000 }, "b"⟩, by decide +kernel⟩

end Simorgh.Panel
