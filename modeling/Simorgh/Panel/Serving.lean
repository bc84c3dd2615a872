import Simorgh.Panel.Carry

/-!
# A depleted account is served nowhere

An account may be listed on several inbounds under one email; its traffic row
names one of them.  A tick that switches the row off must take the account off
all of them: out of the next configuration, and out of the running Xray.

* `getXrayConfig` — the native inbounds of the configuration, with their clients.
* `served_nowhere_iff` — the accounts a tick takes off everywhere.
* `second_inbound_keeps_serving` — an account on a second inbound is not.
-/

namespace Simorgh.Panel

open Simorgh.Lib Simorgh.Lib.Json

/-! ## The configuration -/

/-- The `enable` of an account's row, as the rows under an inbound's id have it. -/
def enableMap (db : Db) (i : InboundRow) (email : String) : Option Bool :=
  ((db.traffics.find? email).filter fun ct => decide (ct.inboundId = i.id)).map (·.enable)

/-- An entry that goes into the configuration: its row is not switched off, and neither
is the entry itself. -/
def keepsClient (db : Db) (i : InboundRow) (d : Doc) : Bool :=
  decide (enableMap db i (d.str "email") ≠ some false) &&
    decide ((d.get? "enable").bind Val.bool? ≠ some false)

/-- The members Xray is handed. -/
def configKeys : List String := ["email", "id", "password", "flow", "method", "auth", "username"]

/-- An entry as it is handed to Xray. -/
def cleanClient (d : Doc) : Doc :=
  let kept : Doc := ⟨d.members.filter fun a => decide (a.1 ∈ configKeys), d.sorted.filter _⟩
  if kept.str "flow" = "xtls-rprx-vision-udp443" then kept.set "flow" (.str "xtls-rprx-vision") else kept

/-- One native inbound of the configuration. -/
structure InboundConfig where
  tag : String
  clients : List Doc

/-- The native inbounds of the configuration, read off the database. -/
def xrayInbounds (db : Db) : List InboundConfig :=
  (db.inbounds.rows.filter fun i => i.base.enable && i.base.protocol.native).map fun i =>
    ⟨i.base.tag, (i.base.settings.clients.filter (keepsClient db i)).map cleanClient⟩

/-- `GetXrayConfig`: a tick without records, then the inbounds.  Nothing comes out of it
when the tick panics. -/
def getXrayConfig (h : Host) (db : Db) : Db × Option (List InboundConfig) :=
  match tickOutcome h {} db none with
  | (db, .panicked) => (db, none)
  | (db, _) => (db, some (xrayInbounds db))

/-- The account is among the clients of an inbound of the configuration. -/
def Lists (config : List InboundConfig) (email : String) : Prop :=
  ∃ i ∈ config, ∃ c ∈ i.clients, c.str "email" = email

/-- The row of the account is there and switched off. -/
def Db.isOff (db : Db) (email : String) : Prop := ∃ ct ∈ db.traffics.find? email, ct.enable = false

/-- The account stands on the inbound. -/
def InboundRow.holds (i : InboundRow) (email : String) : Prop :=
  ∃ d ∈ i.base.settings.clients, d.str "email" = email

/-- After the tick the account is in no configuration as long as its row is off, and each
of its native inbounds was told to drop it or Xray is to be restarted. -/
structure DropsEverywhere (db db' : Db) (d : Disabled) (email : String) : Prop where
  unlisted : ¬Lists (xrayInbounds db') email
  unlistedLater : ∀ (h : Host) (config : List InboundConfig),
    (getXrayConfig h db').2 = some config → (getXrayConfig h db').1.isOff email → ¬Lists config email
  removed : ∀ i ∈ db.inbounds.rows, i.base.protocol.native = true → i.holds email →
    (i.base.tag, email) ∈ d.removed ∨ d.restart = true

/-- The account stands on one inbound, as far as serving goes: every other native inbound
that would list it is off, used up or expired, and the inbound its row names is the one
Xray knows each of its native inbounds by. -/
structure OneInbound (now : Int) (started : Bool) (b : Batch) (db : Db) (ct : ClientTraffic) : Prop where
  serving : ∀ i ∈ (db.countInbounds b.inbounds).inbounds.rows, i.base.protocol.native = true →
    i.base.enable = true → (⟨now, none⟩ : Host).invalidInbound i = false →
    (∃ d ∈ i.base.settings.clients, d.str "email" = ct.email ∧
      (d.get? "enable").bind Val.bool? ≠ some false) → i.id = ct.inboundId
  removed : ∀ i ∈ db.inbounds.rows, i.base.protocol.native = true → i.holds ct.email →
    started = true ∧ ∃ j ∈ db.inbounds.find? ct.inboundId,
      j.base.tag = i.base.tag ∧ j.base.protocol.hasOwnDaemon = false

/-! ## What the configuration is made from -/

/-- What the configuration is made from, in an inbound. -/
structure Face where
  id : Nat
  tag : String
  protocol : Protocol
  enable : Bool
  total : Int
  expiryTime : Int
  up : Int
  down : Int
  entries : List (String × Option Bool)

/-- The email of an entry, and whether it is switched off by hand. -/
def entryFace (d : Doc) : String × Option Bool := (d.str "email", (d.get? "enable").bind Val.bool?)

/-- What a row serves. -/
def InboundRow.face (i : InboundRow) : Face where
  id := i.id
  tag := i.base.tag
  protocol := i.base.protocol
  enable := i.base.enable
  total := i.total
  expiryTime := i.expiryTime
  up := i.up
  down := i.down
  entries := i.base.settings.clients.map entryFace

/-! ### Faces -/

theorem Rewritten.face {d d' : Doc} (h : Rewritten d d') : entryFace d' = entryFace d := by
  have hemail : (d'.get? "email").bind Val.str? = (d.get? "email").bind Val.str? :=
    h.get? (by decide) fun v f => by cases v <;> rfl
  have henable : (d'.get? "enable").bind Val.bool? = (d.get? "enable").bind Val.bool? :=
    h.get? (by decide) fun v f => by cases v <;> rfl
  simp only [entryFace, Obj.str, hemail, henable]

theorem RewrittenRow.face {i i' : InboundRow} (h : RewrittenRow i i') : i'.face = i.face := by
  obtain ⟨ds, hds, rfl⟩ := h
  have hentries : ds.map entryFace = i.base.settings.clients.map entryFace :=
    map_of_forall₂ hds fun _ _ => Rewritten.face
  unfold InboundRow.face InboundRow.setClients
  simp only [InboundRow.id, Inbound.setClients, hentries]

theorem Carries.faces {db db' : Db} (h : Carries db db') :
    db'.inbounds.rows.map InboundRow.face = db.inbounds.rows.map InboundRow.face :=
  map_of_forall₂ h.inbounds fun _ _ => RewrittenRow.face

/-! ## The whole tick -/

section Ticks

variable {now : Int} {b : Batch} {db : Db} {email : String} {ct : ClientTraffic}

/-- An enabled native inbound lists the account under a name it is not barred by. -/
structure Face.serves (f : Face) (inboundId : Nat) (email : String) : Prop where
  enable : f.enable = true
  native : f.protocol.native = true
  other : f.id ≠ inboundId
  entry : ∃ a ∈ f.entries, a.1 = email ∧ a.2 ≠ some false

theorem str_email_cleanClient (d : Doc) : (cleanClient d).str "email" = d.str "email" := by
  have hkept : (⟨d.members.filter fun a => decide (a.1 ∈ configKeys), d.sorted.filter _⟩ : Doc).str
      "email" = d.str "email" := by
    simp only [Obj.str, Obj.get?, List.find?_filter]
    congr 4
    funext a
    by_cases ha : a.1 = "email"
    · simp [ha, configKeys]
    · simp [ha]
  unfold cleanClient
  simp only
  split
  · rw [Obj.str, Obj.get?_set, if_neg (by decide)]
    exact hkept
  · exact hkept

/-- With its row off, the account is listed exactly where the row does not point. -/
theorem config_lists_iff (hoff : ct ∈ db.traffics.find? email) (hct : ct.enable = false) :
    Lists (xrayInbounds db) email ↔
      ∃ f ∈ db.inbounds.rows.map InboundRow.face, f.serves ct.inboundId email := by
  have hmap : ∀ i : InboundRow, enableMap db i email ≠ some false ↔ i.id ≠ ct.inboundId := by
    intro i
    rw [enableMap, Option.mem_def.1 hoff]
    by_cases hid : ct.inboundId = i.id
    · simp [hid, hct]
    · simp [hid, Ne.symm hid]
  constructor
  · rintro ⟨c, hc, cleaned, hcleaned, hemail⟩
    obtain ⟨i, hi, rfl⟩ := List.mem_map.1 hc
    obtain ⟨hrow, hserved⟩ := List.mem_filter.1 hi
    obtain ⟨d, hd, rfl⟩ := List.mem_map.1 hcleaned
    obtain ⟨hclient, hkeeps⟩ := List.mem_filter.1 hd
    rw [str_email_cleanClient] at hemail
    rw [keepsClient, hemail, Bool.and_eq_true, decide_eq_true_iff, decide_eq_true_iff, hmap] at hkeeps
    rw [Bool.and_eq_true] at hserved
    refine ⟨i.face, List.mem_map_of_mem hrow, hserved.1, hserved.2, hkeeps.1, ?_⟩
    exact ⟨entryFace d, List.mem_map_of_mem hclient, hemail, hkeeps.2⟩
  · rintro ⟨f, hf, henable, hnative, hother, a, ha, hemail, hentry⟩
    obtain ⟨i, hi, rfl⟩ := List.mem_map.1 hf
    obtain ⟨d, hd, rfl⟩ := List.mem_map.1 ha
    refine ⟨_, List.mem_map_of_mem (List.mem_filter.2 ⟨hi, ?_⟩), cleanClient d,
      List.mem_map_of_mem (List.mem_filter.2 ⟨hd, ?_⟩), ?_⟩
    · rw [Bool.and_eq_true]
      exact ⟨henable, hnative⟩
    · have hstr : d.str "email" = email := hemail
      rw [keepsClient, hstr, Bool.and_eq_true, decide_eq_true_iff, decide_eq_true_iff, hmap]
      exact ⟨hother, hentry⟩
    · rw [str_email_cleanClient]
      exact hemail

/-- Used up or expired, as a face shows it. -/
def Face.invalid (now : Int) (f : Face) : Bool :=
  (⟨now, none⟩ : Host).invalid f.total f.up f.down f.expiryTime && f.enable

/-- The face after the last stage of a tick. -/
def Face.switched (now : Int) (f : Face) : Face :=
  if f.invalid now then { f with enable := false } else f

theorem faces_disable (now : Int) (xray : Option XrayApi) (renewed : Db) :
    ((renewed.disableClients ⟨now, xray⟩).disableInbounds ⟨now, xray⟩).inbounds.rows.map InboundRow.face =
      (renewed.inbounds.rows.map InboundRow.face).map (Face.switched now) := by
  simp only [Db.disableInbounds, Db.disableClients, Table.updateWhere, List.map_map]
  refine List.map_congr_left fun i _ => ?_
  have hinvalid : Host.invalidInbound ⟨now, xray⟩ i = i.face.invalid now := rfl
  simp only [Function.comp_apply, hinvalid, Face.switched]
  split <;> rfl

/-- A switched face serves when the face did and is valid. -/
theorem switched_serves_iff {f : Face} {inboundId : Nat} :
    (f.switched now).serves inboundId email ↔ f.serves inboundId email ∧ f.invalid now = false := by
  unfold Face.switched
  cases hinvalid : f.invalid now with
  | false => simp
  | true =>
      simp only [if_true, Bool.true_eq_false, and_false, iff_false]
      exact fun hserves => by cases hserves.enable

/-- The row after the last stage: followed, and off when it was found invalid. -/
theorem isOff_disable_iff {xray : Option XrayApi} {renewed : Db} (hct : ct ∈ renewed.traffics.find? email)
    (hon : ct.enable = true) :
    ((renewed.disableClients ⟨now, xray⟩).disableInbounds ⟨now, xray⟩).isOff email ↔
      Host.invalidClient ⟨now, xray⟩ ct = true := by
  simp only [Db.isOff, Db.disableInbounds, Db.disableClients, Table.find?_updateWhere,
    Option.mem_def.1 hct, Option.map_some, Option.mem_def, Option.some.injEq, exists_eq_left']
  cases hinvalid : Host.invalidClient ⟨now, xray⟩ ct with
  | false => simp [hon]
  | true => simp

/-- A later configuration lists no account the tick's own does not, as long as the row is
off. -/
theorem unlisted_later (hct : ct ∈ db.traffics.find? email) (hoff : ct.enable = false)
    (hunlisted : ¬Lists (xrayInbounds db) email) (h : Host) (config : List InboundConfig)
    (hconfig : (getXrayConfig h db).2 = some config) (hlater : (getXrayConfig h db).1.isOff email) :
    ¬Lists config email := by
  obtain ⟨later, xray⟩ := h
  unfold getXrayConfig at hconfig hlater
  rcases tick_cases later {} db with hpanic | ⟨booked, renewed, hcarries, htick⟩
  · obtain ⟨db', -, hpanicked⟩ := hpanic
    rw [hpanicked] at hconfig
    cases hconfig
  · rw [htick] at hconfig hlater
    cases hconfig
    obtain ⟨ct', hct', hoff'⟩ := hlater
    have hid : ct'.inboundId = ct.inboundId := by
      obtain ⟨r, hr, hfollows⟩ := hcarries.rows email ct hct
      simp only [Db.disableInbounds, Db.disableClients, Table.find?_updateWhere,
        Option.mem_def.1 hr, Option.map_some, Option.mem_def, Option.some.injEq] at hct'
      rw [← hct', ← hfollows.inboundId]
      split <;> rfl
    have hfaces : renewed.inbounds.rows.map InboundRow.face = db.inbounds.rows.map InboundRow.face :=
      hcarries.faces
    rw [config_lists_iff hct' hoff', faces_disable, hfaces, hid]
    rw [config_lists_iff hct hoff] at hunlisted
    rintro ⟨switched, hswitched, hserves⟩
    obtain ⟨f, hf, rfl⟩ := List.mem_map.1 hswitched
    exact hunlisted ⟨f, hf, (switched_serves_iff.1 hserves).1⟩

/-! ## Where Xray was told -/

/-- The name of an inbound, its protocol and its accounts, which counting leaves alone. -/
theorem countInbounds_base (ts : List Traffic) (db : Db) :
    (db.countInbounds ts).inbounds.rows.map InboundRow.base = db.inbounds.rows.map InboundRow.base := by
  unfold Db.countInbounds
  induction ts.filter (·.isInbound) generalizing db with
  | nil => rfl
  | cons t ts ih =>
      refine (ih (db.countInbound t)).trans ?_
      simp only [Db.countInbound, Table.updateWhere, List.map_map]
      refine List.map_congr_left fun i _ => ?_
      simp only [Function.comp_apply]
      split <;> rfl

/-- The removals a tick asks for: under the tag of the inbound the row names. -/
theorem mem_removed_iff {api : XrayApi} {renewed booked : Db} {tag : String}
    (hct : ct ∈ renewed.traffics.find? email) (hinvalid : Host.invalidClient ⟨now, some api⟩ ct = true) :
    (tag, email) ∈ (Host.reply ⟨now, some api⟩ booked renewed).removed ↔
      ∃ f ∈ renewed.inbounds.rows.map InboundRow.face,
        f.id = ct.inboundId ∧ f.tag = tag ∧ f.protocol.hasOwnDaemon = false := by
  obtain ⟨hmem, hemail⟩ := Table.find?_some hct
  simp only [Host.reply, Host.disabled, disabledBy, Host.invalidClients, List.mem_map, List.mem_filter,
    List.mem_flatMap, Bool.not_eq_true', Prod.mk.injEq, Bool.and_eq_true, decide_eq_true_iff]
  constructor
  · rintro ⟨r, ⟨⟨i, hi, ct', ⟨hct', hid, -⟩, rfl⟩, hown⟩, htag, hmail⟩
    have hsame : ct' = ct := Table.eq_of_key_eq hct' hmem (hmail.trans hemail.symm)
    exact ⟨i.face, ⟨i, hi, rfl⟩, by rw [← hsame, hid]; rfl, htag, hown⟩
  · rintro ⟨f, ⟨i, hi, rfl⟩, hid, htag, hown⟩
    exact ⟨⟨i.base.tag, ct.email, i.base.protocol⟩, ⟨⟨i, hi, ct, ⟨hmem, hid.symm, hinvalid⟩, rfl⟩, hown⟩,
      htag, hemail⟩

/-- Before Xray has been started no restart is asked for. -/
theorem reply_restart_down (now : Int) (booked renewed : Db) :
    (Host.reply ⟨now, none⟩ booked renewed).restart = false := by
  have hrenewal : Host.renewalRestart ⟨now, none⟩ booked = false := by
    unfold Host.renewalRestart Host.addUsers
    split
    · simp
    · rfl
  simp [Host.reply, hrenewal, Host.disabled, Host.inboundRestart]

/-- An API that refuses nothing causes no restart. -/
theorem reply_restart_ok (now : Int) (booked renewed : Db) :
    (Host.reply ⟨now, some {}⟩ booked renewed).restart = false := by
  have hrenewal : Host.renewalRestart ⟨now, some {}⟩ booked = false := by
    unfold Host.renewalRestart Host.addUsers
    split
    · simp
    · rfl
  simp [Host.reply, hrenewal, Host.disabled, disabledBy, Host.inboundRestart]

/-- The row as the stages before the last leave it: it follows the stored one and is
found invalid. -/
theorem row_of_isOff {xray : Option XrayApi} {renewed : Db} (hct : ct ∈ db.traffics.find? email)
    (hon : ct.enable = true) (hcarries : Carries (db.countInbounds b.inbounds) renewed)
    (hoff : ((renewed.disableClients ⟨now, xray⟩).disableInbounds ⟨now, xray⟩).isOff email) :
    ∃ r ∈ renewed.traffics.find? email, r.inboundId = ct.inboundId ∧
      ∀ xray, Host.invalidClient ⟨now, xray⟩ r = true ∧
        ((renewed.disableClients ⟨now, xray⟩).disableInbounds ⟨now, xray⟩).traffics.find? email =
          some { r with enable := false } := by
  obtain ⟨r, hr, hfollows⟩ := hcarries.rows email ct (by rw [countInbounds_traffics]; exact hct)
  have hinvalid := (isOff_disable_iff hr (hfollows.enable hon)).1 hoff
  refine ⟨r, hr, hfollows.inboundId, fun xray => ⟨hinvalid, ?_⟩⟩
  have hinvalid' : Host.invalidClient ⟨now, xray⟩ r = true := hinvalid
  simp [Db.disableInbounds, Db.disableClients, Option.mem_def.1 hr, hinvalid']

/-- The tick's own configuration lists the account exactly when a second inbound serves
it. -/
theorem unlisted_iff {xray : Option XrayApi} {renewed : Db} {r : ClientTraffic}
    (hemail : ct.email = email) (hcarries : Carries (db.countInbounds b.inbounds) renewed)
    (hid : r.inboundId = ct.inboundId)
    (hrow : ((renewed.disableClients ⟨now, xray⟩).disableInbounds ⟨now, xray⟩).traffics.find? email =
      some { r with enable := false }) :
    ¬Lists (xrayInbounds ((renewed.disableClients ⟨now, xray⟩).disableInbounds ⟨now, xray⟩)) email ↔
      ∀ i ∈ (db.countInbounds b.inbounds).inbounds.rows, i.base.protocol.native = true →
        i.base.enable = true → (⟨now, none⟩ : Host).invalidInbound i = false →
        (∃ d ∈ i.base.settings.clients, d.str "email" = ct.email ∧
          (d.get? "enable").bind Val.bool? ≠ some false) → i.id = ct.inboundId := by
  rw [config_lists_iff hrow rfl, faces_disable, hcarries.faces]
  constructor
  · intro hnone i hi hnative henable hvalid hentry
    by_contra hother
    obtain ⟨d, hd, hmail, hmanual⟩ := hentry
    refine hnone ⟨_, List.mem_map_of_mem (List.mem_map_of_mem hi), switched_serves_iff.2 ⟨?_, hvalid⟩⟩
    exact ⟨henable, hnative, hid ▸ hother,
      ⟨entryFace d, List.mem_map_of_mem hd, hmail.trans hemail, hmanual⟩⟩
  · rintro hserving ⟨switched, hswitched, hserves⟩
    obtain ⟨f, hf, rfl⟩ := List.mem_map.1 hswitched
    obtain ⟨i, hi, rfl⟩ := List.mem_map.1 hf
    obtain ⟨⟨henable, hnative, hother, a, ha, hmail, hmanual⟩, hvalid⟩ := switched_serves_iff.1 hserves
    obtain ⟨d, hd, rfl⟩ := List.mem_map.1 ha
    exact hother ((hserving i hi hnative henable hvalid ⟨d, hd, hmail.trans hemail.symm, hmanual⟩).trans
      hid.symm)

/-- The faces after the counting name the stored inbounds. -/
theorem named_face_iff {renewed : Db} (hcarries : Carries (db.countInbounds b.inbounds) renewed)
    (id : Nat) (tag : String) :
    (∃ f ∈ renewed.inbounds.rows.map InboundRow.face,
        f.id = id ∧ f.tag = tag ∧ f.protocol.hasOwnDaemon = false) ↔
      ∃ j ∈ db.inbounds.find? id, j.base.tag = tag ∧ j.base.protocol.hasOwnDaemon = false := by
  have hbase := countInbounds_base b.inbounds db
  rw [hcarries.faces]
  constructor
  · rintro ⟨f, hf, hid, htag, hown⟩
    obtain ⟨i, hi, rfl⟩ := List.mem_map.1 hf
    have hmem : i.base ∈ db.inbounds.rows.map InboundRow.base := hbase ▸ List.mem_map_of_mem hi
    obtain ⟨j, hj, hsame⟩ := List.mem_map.1 hmem
    refine ⟨j, Table.find?_eq_some.2 ⟨hj, ?_⟩, hsame ▸ htag, hsame ▸ hown⟩
    rw [← hid, InboundRow.id, hsame]
    rfl
  · rintro ⟨j, hj, htag, hown⟩
    obtain ⟨hmem, hid⟩ := Table.find?_some hj
    have hmem' : j.base ∈ (db.countInbounds b.inbounds).inbounds.rows.map InboundRow.base :=
      hbase.symm ▸ List.mem_map_of_mem hmem
    obtain ⟨i, hi, hsame⟩ := List.mem_map.1 hmem'
    refine ⟨i.face, List.mem_map_of_mem hi, ?_, ?_, ?_⟩
    · exact (congrArg Inbound.id hsame).trans hid
    · exact (congrArg Inbound.tag hsame).trans htag
    · exact (congrArg (fun i => i.protocol.hasOwnDaemon) hsame).trans hown

end Ticks

/-! ## One inbound -/

/-- A tick switches an account's row off.  Whatever the running Xray answers, the account
is then dropped everywhere exactly when it stood on one inbound. -/
theorem served_nowhere_iff (now : Int) (started : Bool) (b : Batch) (db : Db) (ct : ClientTraffic)
    (hct : db.traffics.find? ct.email = some ct) (hon : ct.enable = true)
    (htick : ∃ xray db' d, tickOutcome ⟨now, xray⟩ b db none = (db', .ok d) ∧ db'.isOff ct.email) :
    (∀ (xray : Option XrayApi) (db' : Db) (d : Disabled), xray.isSome = started →
      tickOutcome ⟨now, xray⟩ b db none = (db', .ok d) → DropsEverywhere db db' d ct.email) ↔
      OneInbound now started b db ct := by
  obtain ⟨xray₀, db₀, d₀, htick₀, hoff⟩ := htick
  rcases tick_cases now b db with hpanic | ⟨booked, renewed, hcarries, htick⟩
  · obtain ⟨db', -, hpanicked⟩ := hpanic
    rw [hpanicked] at htick₀
    cases htick₀
  rw [htick] at htick₀
  cases htick₀
  obtain ⟨r, hr, hid, hrow⟩ := row_of_isOff hct hon hcarries hoff
  constructor
  · intro hdrops
    -- the API that refuses nothing shows both parts
    let xray : Option XrayApi := if started then some {} else none
    have hstarted : xray.isSome = started := by cases started <;> rfl
    have hdrop := hdrops xray _ _ hstarted (htick xray)
    refine ⟨(unlisted_iff rfl hcarries hid (hrow xray).2).1 hdrop.unlisted, fun i hi hnative hholds => ?_⟩
    have htold := hdrop.removed i hi hnative hholds
    cases started with
    | false =>
        rcases htold with hmem | hrestart
        · cases hmem
        · rw [show xray = none from rfl, reply_restart_down] at hrestart
          cases hrestart
    | true =>
        rcases htold with hmem | hrestart
        · have hnamed := (mem_removed_iff hr (hrow (some {})).1).1 hmem
          rw [hid] at hnamed
          exact ⟨rfl, (named_face_iff hcarries _ _).1 hnamed⟩
        · rw [show xray = some {} from rfl, reply_restart_ok] at hrestart
          cases hrestart
  · rintro ⟨hserving, hremoved⟩ xray db' d hstarted hrun
    rw [htick] at hrun
    cases hrun
    have hunlisted := (unlisted_iff rfl hcarries hid (hrow xray).2).2 hserving
    refine ⟨hunlisted, unlisted_later (hrow xray).2 rfl hunlisted, fun i hi hnative hholds => ?_⟩
    obtain ⟨hup, hnamed⟩ := hremoved i hi hnative hholds
    rw [hup, Option.isSome_iff_exists] at hstarted
    obtain ⟨api, rfl⟩ := hstarted
    refine Or.inl ((mem_removed_iff hr (hrow (some api)).1).2 ?_)
    rw [hid]
    exact (named_face_iff hcarries _ _).2 hnamed

/-! ## Two inbounds -/

/-- Kim on the given inbounds, with one byte of her quota left and her row under the
first of them. -/
def kimOn (inbounds : Table InboundRow.id) : Db where
  inbounds := inbounds
  traffics := .single { email := "kim", inboundId := 1, total := 5, up := 4 }

def kimsEntry : Doc := stored [("email", .str "kim"), ("subId", .str "s1"), ("enable", .bool true)]

def firstInbound : InboundRow :=
  { base := { id := 1, tag := "in-1", protocol := .vless, settings := { clients := [kimsEntry] } } }

def secondInbound : InboundRow :=
  { base := { id := 2, tag := "in-2", protocol := .trojan, settings := { clients := [kimsEntry] } } }

def kimsBytes : Batch where
  clients := [⟨"kim", 1, 0⟩]

/-- On one inbound alone kim is dropped. -/
theorem served_nowhere_alone :
    (∃ xray db' d, tickOutcome ⟨5000, xray⟩ kimsBytes (kimOn ⟨[firstInbound], by decide⟩) none
        = (db', .ok d) ∧ db'.isOff "kim") ∧
      ∀ (xray : Option XrayApi) (db' : Db) (d : Disabled), xray.isSome = true →
        tickOutcome ⟨5000, xray⟩ kimsBytes (kimOn ⟨[firstInbound], by decide⟩) none = (db', .ok d) →
        DropsEverywhere (kimOn ⟨[firstInbound], by decide⟩) db' d "kim" := by
  have htick : ∃ xray db' d, tickOutcome ⟨5000, xray⟩ kimsBytes (kimOn ⟨[firstInbound], by decide⟩) none
      = (db', .ok d) ∧ db'.isOff "kim" :=
    ⟨none, _, _, rfl, { email := "kim", inboundId := 1, total := 5, up := 5, allTime := 1, enable := false },
      by decide +kernel, rfl⟩
  refine ⟨htick, (served_nowhere_iff 5000 true kimsBytes (kimOn ⟨[firstInbound], by decide⟩)
    { email := "kim", inboundId := 1, total := 5, up := 4 } (by decide +kernel) rfl htick).2 ⟨?_, ?_⟩⟩
  · intro i hi _ _ _ _
    rw [List.mem_singleton.1 hi]
    rfl
  · intro i hi _ _
    rw [List.mem_singleton.1 hi]
    exact ⟨rfl, firstInbound, rfl, rfl, rfl⟩

deriving instance DecidableEq for Disabled

instance Lists.decidable (config : List InboundConfig) (email : String) : Decidable (Lists config email) :=
  inferInstanceAs (Decidable (∃ i ∈ config, ∃ c ∈ i.clients, c.str "email" = email))

/-- Kim on both of them. -/
def kimOnBoth : Db := kimOn ⟨[firstInbound, secondInbound], by decide⟩

/-- Kim stands on two inbounds.  The tick switches her row off, tells the first to drop
her and asks for no restart; the configuration still lists her, on the second. -/
theorem second_inbound_keeps_serving :
    (tickOutcome ⟨5000, some {}⟩ kimsBytes kimOnBoth none).2 = .ok { removed := [("in-1", "kim")] } ∧
      ((tickOutcome ⟨5000, some {}⟩ kimsBytes kimOnBoth none).1.traffics.find? "kim").map (·.enable) =
        some false ∧
      Lists (xrayInbounds (tickOutcome ⟨5000, some {}⟩ kimsBytes kimOnBoth none).1) "kim" ∧
      (∃ config ∈ (getXrayConfig ⟨5000, some {}⟩
        (tickOutcome ⟨5000, some {}⟩ kimsBytes kimOnBoth none).1).2, Lists config "kim") ∧
      ¬DropsEverywhere kimOnBoth (tickOutcome ⟨5000, some {}⟩ kimsBytes kimOnBoth none).1
        { removed := [("in-1", "kim")] } "kim" := by
  have hlists : Lists (xrayInbounds (tickOutcome ⟨5000, some {}⟩ kimsBytes kimOnBoth none).1) "kim" := by
    decide +kernel
  refine ⟨by decide +kernel, by decide +kernel, hlists, ⟨_, rfl, by decide +kernel⟩, ?_⟩
  intro hdrops
  exact hdrops.unlisted hlists

end Simorgh.Panel
