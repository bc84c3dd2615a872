import Mathlib.Algebra.Order.BigOperators.Group.List
import Mathlib.Data.List.Forall2
import Mathlib.Data.List.Sort
import Simorgh.Lib.Separators
import Simorgh.Lib.Toml
import Simorgh.Panel.Model
import Simorgh.Vpn.Ranges

/-!
# The config of an MTProto proxy

Each inbound's telemt reads a `config.toml` that the panel writes, and reports what the accounts
have moved on a page of metrics that the panel reads.  The email of an account is its name in
both.

* `buildServerConfig` — the config, line by line.  The strings of an account are escaped for TOML
  (`tomlEscape`) and then printed with `%q`, which escapes once more.
* `askedTables` — what was asked for: the tables of the config, each with one entry for each
  usable account.
* `parsePromUserMetric` — one line of the metrics.
* `config_means_asked_iff` — the config is decoded as what was asked for exactly when no account
  has a quote, a backslash or one of the control characters `%q` and TOML disagree on; a line of
  the metrics gives back the email exactly when it has no comma, quote, backslash or line break.
-/

namespace Simorgh.Vpn.Mtproto

open Simorgh.Lib
open Simorgh.Panel (isSpace trimSpace)

/-- `mtprotoClient` -/
structure Client where
  email : String
  secret : String
  enable : Bool
  modeClassic : Bool
  modeSecure : Bool
  modeTls : Bool
  tlsDomain : String := ""
  adtagEnable : Bool := false
  adtag : String := ""
  userLimit : Option ℤ := none
deriving DecidableEq

/-- What the config has of an inbound's own row. -/
structure InboundRow where
  id : ℕ
  port : ℤ
  tag : String

/-! ## The accounts -/

/-- The modes of a client. -/
def Client.modes (c : Client) : List String :=
  (if c.modeClassic then ["classic"] else []) ++ (if c.modeSecure then ["secure"] else []) ++
    (if c.modeTls then ["tls"] else [])

/-- Whether `activeClients` keeps a client. -/
def Client.usable (c : Client) : Bool :=
  decide (trimSpace c.email ≠ "" ∧ trimSpace c.secret ≠ "" ∧ c.modes ≠ [])

/-- The clients that are served. -/
def activeClients (clients : List Client) : List Client :=
  (clients.filter (·.usable)).mergeSort fun a b => decide (a.email ≤ b.email)

/-- Whether a client carries an ad tag. -/
def Client.tagged (c : Client) : Bool := c.adtagEnable && decide (trimSpace c.adtag ≠ "")

/-- A client has an ad tag. -/
def anyAdtag (clients : List Client) : Bool := clients.any (·.tagged)

/-- Traffic goes through Xray. -/
def usingRouting (clients : List Client) : Bool := !anyAdtag clients

/-- The modes of any client. -/
def unionModes (clients : List Client) : Bool × Bool × Bool :=
  ((activeClients clients).any (·.modeClassic), (activeClients clients).any (·.modeSecure),
    (activeClients clients).any (·.modeTls))

/-- The first domain a client has. -/
def firstTlsDomain (clients : List Client) : String :=
  match (activeClients clients).find? fun c => c.modeTls && decide (trimSpace c.tlsDomain ≠ "") with
  | some c => trimSpace c.tlsDomain
  | none => "www.google.com"

/-- The port of the paired inbound. -/
def socksPort (i : InboundRow) : ℤ := 12300 + i.id

/-- The port of the metrics. -/
def mtprotoMetricsPort (i : InboundRow) : ℤ := 14300 + i.id

/-- The name and password the proxy gives Xray. -/
def mtprotoSystemAccount : String := "telemt-system"

/-! ## The config -/

/-- A character is replaced everywhere. -/
def replaceAll (c : Char) (text : List Char) (s : List Char) : List Char :=
  s.flatMap fun x => if x = c then text else [x]

/-- Backslashes and quotes are escaped. -/
def tomlEscape (v : List Char) : List Char := replaceAll '"' ['\\', '"'] (replaceAll '\\' ['\\', '\\'] v)

/-- `key = value` -/
def entryLine (key : String) (value : List Char) : List Char := key.toList ++ (" = ".toList ++ value)

/-- `"127.0.0.1:%d"` -/
def loopback (port : ℤ) : List Char := "127.0.0.1:".toList ++ goInt port

/-- A text in quotes, as the source has it. -/
def quoted (s : List Char) : List Char := '"' :: (s ++ ['"'])

section Config

variable (printable : Char → Bool) (disabled : String → Bool) (i : InboundRow) (clients : List Client)

/-- `%q` of an escaped string. -/
def escaped (s : String) : List Char := goQuote printable (tomlEscape s.toList)

/-- The sections before the mask. -/
def generalLines : List (List Char) :=
  ["# Auto-generated by vpn-ui (MTProto Proxy). Do not edit.".toList,
    "# Regenerated on every inbound/client change; edits are lost.".toList, [],
    "[general]".toList,
    entryLine "use_middle_proxy" (goBool (anyAdtag clients)),
    "me_socks_kdf_policy = \"strict\"".toList,
    "log_level = \"normal\"".toList,
    "disable_colors = true".toList, [],
    "[general.modes]".toList,
    entryLine "classic" (goBool (unionModes clients).1),
    entryLine "secure" (goBool (unionModes clients).2.1),
    entryLine "tls" (goBool (unionModes clients).2.2), [],
    "[server]".toList,
    entryLine "port" (goInt i.port),
    entryLine "metrics_listen" (quoted (loopback (mtprotoMetricsPort i))),
    "metrics_whitelist = [\"127.0.0.1/32\"]".toList, [],
    "[server.api]".toList,
    "enabled = false".toList, [],
    "[censorship]".toList]

/-- The fixed part of the section on the mask. -/
def emulationLines : List (List Char) :=
  ["unknown_sni_action = \"accept\"".toList,
    "mask = true".toList,
    "tls_emulation = true".toList, []]

/-- The section on the mask. -/
def censorshipLines : List (List Char) :=
  entryLine "tls_domain" (escaped printable (firstTlsDomain clients)) :: emulationLines

/-- The comment that has the inbound's tag in it. -/
def tagComment : List Char :=
  "# Egress through the panel's Xray socks inbound (tag: ".toList ++ (i.tag.toList ++ "),".toList)

/-- The way out through Xray. -/
def socksLines : List (List Char) :=
  ["# so operator routing rules apply to this inbound.".toList,
    "[[upstreams]]".toList,
    "type = \"socks5\"".toList,
    entryLine "address" (quoted (loopback (socksPort i))),
    "socks_user_from_account = true".toList,
    entryLine "username" (goQuote printable mtprotoSystemAccount.toList),
    entryLine "password" (goQuote printable mtprotoSystemAccount.toList), []]

/-- The way out without Xray. -/
def directLines : List (List Char) :=
  ["# adtag is on: middle-proxy mode requires a direct egress whose TCP".toList,
    "# 4-tuple reaches Telegram unchanged, so no upstream is configured.".toList,
    "[[upstreams]]".toList,
    "type = \"direct\"".toList, []]

/-- A table with a line for each account. -/
def accountLines (table : String) (value : Client → List Char) (accounts : List Client) : List (List Char) :=
  table.toList :: (accounts.map (fun c => escaped printable c.email ++ (" = ".toList ++ value c)) ++ [[]])

/-- The modes with commas. -/
def modesText (c : Client) : String := ",".intercalate c.modes

/-- The lines of the accounts. -/
def accessLines : List (List Char) :=
  let accounts := activeClients clients
  accountLines printable "[access.users]" (fun c => escaped printable c.secret) accounts ++
    accountLines printable "[access.user_enabled]" (fun c => goBool (c.enable && !disabled c.email)) accounts ++
    accountLines printable "[access.user_max_unique_ips]" (fun c => goInt (effectiveUserLimit c.userLimit)) accounts ++
    accountLines printable "[access.user_modes]" (fun c => goQuote printable (modesText c).toList) accounts ++
    if anyAdtag clients then
      accountLines printable "[access.user_ad_tags]" (fun c => escaped printable (trimSpace c.adtag))
        (accounts.filter (·.tagged))
    else []

/-- The lines of the config. -/
def buildServerConfig : List (List Char) :=
  generalLines i clients ++ censorshipLines printable clients ++
    (if usingRouting clients then tagComment i :: socksLines printable i else directLines) ++
    accessLines printable disabled clients

end Config

/-! ## What was asked for -/

/-- The same table, its entries in any order. -/
def SameTable (t u : TomlTable) : Prop := t.path = u.path ∧ t.array = u.array ∧ t.entries.Perm u.entries

/-- An entry with a text. -/
def textEntry (key value : String) : List Char × TomlValue := (key.toList, .str value.toList)

section Tables

variable (text : List Char → List Char) (disabled : String → Bool) (i : InboundRow) (clients : List Client)

/-- The tables before the one with the domain. -/
def generalTables : List TomlTable :=
  [rootTable,
    ⟨["general".toList], false, [("use_middle_proxy".toList, .bool (anyAdtag clients)),
      textEntry "me_socks_kdf_policy" "strict", textEntry "log_level" "normal", ("disable_colors".toList, .bool true)]⟩,
    ⟨["general".toList, "modes".toList], false, [("classic".toList, .bool (unionModes clients).1),
      ("secure".toList, .bool (unionModes clients).2.1), ("tls".toList, .bool (unionModes clients).2.2)]⟩,
    ⟨["server".toList], false, [("port".toList, .int i.port),
      ("metrics_listen".toList, .str (loopback (mtprotoMetricsPort i))),
      ("metrics_whitelist".toList, .strs ["127.0.0.1/32".toList])]⟩,
    ⟨["server".toList, "api".toList], false, [("enabled".toList, .bool false)]⟩]

/-- The table of the domain. -/
def censorshipTable (domain : List Char) : TomlTable :=
  ⟨["censorship".toList], false, [("tls_domain".toList, .str domain), textEntry "unknown_sni_action" "accept",
    ("mask".toList, .bool true), ("tls_emulation".toList, .bool true)]⟩

/-- The table of the upstream. -/
def upstreamTable : TomlTable :=
  ⟨["upstreams".toList], true,
    if usingRouting clients then
      [textEntry "type" "socks5", ("address".toList, .str (loopback (socksPort i))),
        ("socks_user_from_account".toList, .bool true), textEntry "username" mtprotoSystemAccount,
        textEntry "password" mtprotoSystemAccount]
    else [textEntry "type" "direct"]⟩

/-- A table with one entry for each account. -/
def accountTable (name : String) (value : Client → TomlValue) (accounts : List Client) : TomlTable :=
  ⟨["access".toList, name.toList], false, accounts.map fun c => (text c.email.toList, value c)⟩

/-- The tables of the accounts. -/
def accessTables (accounts : List Client) : List TomlTable :=
  [accountTable text "users" (fun c => .str (text c.secret.toList)) accounts,
    accountTable text "user_enabled" (fun c => .bool (c.enable && !disabled c.email)) accounts,
    accountTable text "user_max_unique_ips" (fun c => .int (effectiveUserLimit c.userLimit)) accounts,
    accountTable text "user_modes" (fun c => .str (modesText c).toList) accounts] ++
    if anyAdtag clients then
      [accountTable text "user_ad_tags" (fun c => .str (text (trimSpace c.adtag).toList)) (accounts.filter (·.tagged))]
    else []

/-- The tables of a config, the strings of the accounts under `text`. -/
def telemtTables (domain : List Char) (accounts : List Client) : List TomlTable :=
  generalTables i clients ++
    (censorshipTable domain :: upstreamTable i clients :: accessTables text disabled clients accounts)

end Tables

/-- What is asked for: every usable account under its email, with its own secret, state, device
cap, modes and ad tag, and nothing else.  The domain that telemt copies its handshake from is not
an account's own. -/
def askedTables (disabled : String → Bool) (i : InboundRow) (clients : List Client)
    (domain : List Char) : List TomlTable :=
  telemtTables id disabled i clients domain (clients.filter (·.usable))

/-- The config is decoded as what was asked for. -/
def MeansAsked (printable : Char → Bool) (disabled : String → Bool) (i : InboundRow) (clients : List Client) : Prop :=
  ∃ domain tables, decodeToml (unlines (buildServerConfig printable disabled i clients)) = some tables ∧
    List.Forall₂ SameTable tables (askedTables disabled i clients domain)

theorem activeClients_perm (clients : List Client) : (activeClients clients).Perm (clients.filter (·.usable)) :=
  List.mergeSort_perm _ _

theorem mem_activeClients {clients : List Client} {c : Client} :
    c ∈ activeClients clients ↔ c ∈ clients ∧ c.usable = true := by
  rw [(activeClients_perm clients).mem_iff, List.mem_filter]

/-- Where no account fronts a domain, telemt copies its handshake from one of its own. -/
theorem firstTlsDomain_default {clients : List Client} (h : ∀ c ∈ clients, trimSpace c.tlsDomain = "") :
    firstTlsDomain clients = "www.google.com" := by
  have hnone : (activeClients clients).find? (fun c => c.modeTls && decide (trimSpace c.tlsDomain ≠ "")) = none := by
    rw [List.find?_eq_none]
    intro c hc
    rw [h c (mem_activeClients.1 hc).1]
    simp
  rw [firstTlsDomain, hnone]

/-! ## Escaping -/

/-- What becomes of a character. -/
theorem tomlEscape_eq (v : List Char) :
    tomlEscape v = v.flatMap fun c => if c = '"' ∨ c = '\\' then ['\\', c] else [c] := by
  rw [tomlEscape, replaceAll, replaceAll, List.flatMap_assoc]
  congr 1
  funext c
  by_cases hslash : c = '\\'
  · subst hslash
    rfl
  · by_cases hquote : c = '"'
    · subst hquote
      rfl
    · simp [hslash, hquote]

theorem any_unreadable_tomlEscape (v : List Char) : (tomlEscape v).any unreadable = v.any unreadable := by
  rw [tomlEscape_eq]
  induction v with
  | nil => rfl
  | cons c v ih =>
      rw [List.flatMap_cons, List.any_append, ih, List.any_cons]
      split_ifs with hc
      · obtain rfl | rfl := hc <;> rfl
      · rw [List.any_cons, List.any_nil, Bool.or_false]

/-- A string that escaping leaves as it is. -/
def Unescaped (v : List Char) : Prop := ∀ c ∈ v, c ≠ '"' ∧ c ≠ '\\'

instance (v : List Char) : Decidable (Unescaped v) := List.decidableBAll _ v

theorem tomlEscape_of_unescaped {v : List Char} (h : Unescaped v) : tomlEscape v = v := by
  rw [tomlEscape_eq]
  induction v with
  | nil => rfl
  | cons c v ih =>
      obtain ⟨hquote, hslash⟩ := h c List.mem_cons_self
      rw [List.flatMap_cons, ih fun x hx => h x (List.mem_cons_of_mem c hx), if_neg (not_or.2 ⟨hquote, hslash⟩)]
      rfl

/-- Escaping makes a string longer, unless it leaves it as it is. -/
theorem length_le_tomlEscape (v : List Char) : v.length ≤ (tomlEscape v).length := by
  rw [tomlEscape_eq]
  induction v with
  | nil => exact Nat.le_refl 0
  | cons c v ih =>
      rw [List.flatMap_cons, List.length_append, List.length_cons]
      split_ifs
      · simp only [List.length_cons, List.length_nil]
        omega
      · simp only [List.length_cons, List.length_nil]
        omega

theorem unescaped_of_length {v : List Char} (h : (tomlEscape v).length ≤ v.length) : Unescaped v := by
  induction v with
  | nil => exact fun c hc => absurd hc List.not_mem_nil
  | cons c v ih =>
      have hcons : tomlEscape (c :: v) = (if c = '"' ∨ c = '\\' then ['\\', c] else [c]) ++ tomlEscape v := by
        rw [tomlEscape_eq, tomlEscape_eq, List.flatMap_cons]
      have hle := length_le_tomlEscape v
      rw [hcons, List.length_append, List.length_cons] at h
      by_cases hc : c = '"' ∨ c = '\\'
      · rw [if_pos hc] at h
        simp only [List.length_cons, List.length_nil] at h
        omega
      · rw [if_neg hc] at h
        simp only [List.length_cons, List.length_nil] at h
        exact List.forall_mem_cons.2 ⟨not_or.1 hc, ih (by omega)⟩

/-! ## Reading the config back -/

section Parse

variable (printable : Char → Bool) (disabled : String → Bool) (i : InboundRow) (clients : List Client)

theorem parses_entryLine {key : String} {value : List Char} {v : TomlValue} (hne : key.toList ≠ [])
    (hkey : key.toList.all bareKeyChar = true) (hone : OneLine value) (hv : wholeValue value = some v) :
    Parses (entryLine key value) (.entry key.toList v) := by
  refine ⟨OneLine.append ?_ (OneLine.append (by decide) hone), ?_⟩
  · intro c hc
    have hbare := List.all_eq_true.1 hkey c hc
    constructor <;> rintro rfl <;> exact absurd hbare (by decide)
  · rw [entryLine, parseLine_bareKey hne hkey, hv]
    rfl

theorem parses_loopback {key : String} (hne : key.toList ≠ []) (hkey : key.toList.all bareKeyChar = true)
    (port : ℤ) : Parses (entryLine key (quoted (loopback port))) (.entry key.toList (.str (loopback port))) := by
  have hquote : OneLine ['"'] := by decide
  have hhost : OneLine "127.0.0.1:".toList := by decide
  have hone : OneLine (quoted (loopback port)) := hquote.append ((hhost.append (goInt_oneLine port)).append hquote)
  refine parses_entryLine hne hkey hone (wholeValue_text fun c hc => ?_)
  obtain hc | hc := List.mem_append.1 hc
  · have hall : ("127.0.0.1:".toList.all fun x => decide (x ≠ '"' ∧ x ≠ '\\' ∧ tomlControl x = false)) = true := by
      decide
    exact of_decide_eq_true (List.all_eq_true.1 hall c hc)
  · exact goInt_text port c hc

/-- What the lines before the domain say. -/
def generalParsed : List TomlLine :=
  [.blank, .blank, .blank,
    .header ["general".toList] false, .entry "use_middle_proxy".toList (.bool (anyAdtag clients)),
    .entry "me_socks_kdf_policy".toList (.str "strict".toList), .entry "log_level".toList (.str "normal".toList),
    .entry "disable_colors".toList (.bool true), .blank,
    .header ["general".toList, "modes".toList] false, .entry "classic".toList (.bool (unionModes clients).1),
    .entry "secure".toList (.bool (unionModes clients).2.1),
      .entry "tls".toList (.bool (unionModes clients).2.2), .blank,
    .header ["server".toList] false, .entry "port".toList (.int i.port),
    .entry "metrics_listen".toList (.str (loopback (mtprotoMetricsPort i))),
    .entry "metrics_whitelist".toList (.strs ["127.0.0.1/32".toList]), .blank,
    .header ["server".toList, "api".toList] false, .entry "enabled".toList (.bool false), .blank,
    .header ["censorship".toList] false]

theorem parses_generalLines : List.Forall₂ Parses (generalLines i clients) (generalParsed i clients) := by
  have hbool : ∀ (key : String) (b : Bool), key.toList ≠ [] → key.toList.all bareKeyChar = true →
      Parses (entryLine key (goBool b)) (.entry key.toList (.bool b)) :=
    fun key b hne hkey => parses_entryLine hne hkey (goBool_oneLine b) (wholeValue_goBool b)
  refine .cons (by decide +kernel) <| .cons (by decide +kernel) <| .cons (by decide +kernel) <|
    .cons (by decide +kernel) <| .cons (hbool _ _ (by decide) (by decide)) <| .cons (by decide +kernel) <|
    .cons (by decide +kernel) <| .cons (by decide +kernel) <| .cons (by decide +kernel) <|
    .cons (by decide +kernel) <| .cons (hbool _ _ (by decide) (by decide)) <|
    .cons (hbool _ _ (by decide) (by decide)) <| .cons (hbool _ _ (by decide) (by decide)) <|
    .cons (by decide +kernel) <| .cons (by decide +kernel) <| .cons ?_ <|
    .cons (parses_loopback (by decide) (by decide) _) <| .cons (by decide +kernel) <|
    .cons (by decide +kernel) <| .cons (by decide +kernel) <| .cons (by decide +kernel) <|
    .cons (by decide +kernel) <| .cons (by decide +kernel) .nil
  exact parses_entryLine (by decide) (by decide) (goInt_oneLine i.port) (wholeValue_goInt i.port)

/-- What the lines of the upstream say. -/
def socksParsed : List TomlLine :=
  [.blank, .header ["upstreams".toList] true, .entry "type".toList (.str "socks5".toList),
    .entry "address".toList (.str (loopback (socksPort i))), .entry "socks_user_from_account".toList (.bool true),
    .entry "username".toList (.str mtprotoSystemAccount.toList),
    .entry "password".toList (.str mtprotoSystemAccount.toList), .blank]

theorem parses_socksLines : List.Forall₂ Parses (socksLines printable i) (socksParsed i) := by
  have hsystem : wholeValue (goQuote printable mtprotoSystemAccount.toList) =
      some (.str mtprotoSystemAccount.toList) := by
    rw [wholeValue_goQuote, if_neg (by decide)]
  have haccount : ∀ key : String, key.toList ≠ [] → key.toList.all bareKeyChar = true →
      Parses (entryLine key (goQuote printable mtprotoSystemAccount.toList))
        (.entry key.toList (.str mtprotoSystemAccount.toList)) :=
    fun key hne hkey => parses_entryLine hne hkey (goQuote_oneLine printable _) hsystem
  exact .cons (by decide +kernel) <| .cons (by decide +kernel) <| .cons (by decide +kernel) <|
    .cons (parses_loopback (by decide) (by decide) _) <| .cons (by decide +kernel) <|
    .cons (haccount _ (by decide) (by decide)) <| .cons (haccount _ (by decide) (by decide)) <|
    .cons (by decide +kernel) .nil

def directParsed : List TomlLine :=
  [.blank, .blank, .header ["upstreams".toList] true, .entry "type".toList (.str "direct".toList), .blank]

theorem parses_directLines : List.Forall₂ Parses directLines directParsed :=
  .cons (by decide +kernel) <| .cons (by decide +kernel) <| .cons (by decide +kernel) <|
    .cons (by decide +kernel) <| .cons (by decide +kernel) .nil

theorem escaped_oneLine (s : String) : OneLine (escaped printable s) := goQuote_oneLine printable _

theorem wholeValue_escaped (s : String) :
    wholeValue (escaped printable s) = if s.toList.any unreadable then none else some (.str (tomlEscape s.toList)) := by
  rw [escaped, wholeValue_goQuote, any_unreadable_tomlEscape]

def emulationParsed : List TomlLine :=
  [.entry "unknown_sni_action".toList (.str "accept".toList), .entry "mask".toList (.bool true),
    .entry "tls_emulation".toList (.bool true), .blank]

theorem parses_emulationLines : List.Forall₂ Parses emulationLines emulationParsed :=
  .cons (by decide) <| .cons (by decide) <| .cons (by decide) <| .cons (by decide) .nil

/-- What the lines from the domain on say. -/
def censorshipParsed : List TomlLine :=
  .entry "tls_domain".toList (.str (tomlEscape (firstTlsDomain clients).toList)) :: emulationParsed

theorem domainLine_oneLine : OneLine (entryLine "tls_domain" (escaped printable (firstTlsDomain clients))) :=
  OneLine.append (by decide) (OneLine.append (by decide) (escaped_oneLine printable _))

theorem parseAll_censorshipLines {ls : List TomlLine} :
    parseAll (censorshipLines printable clients) = some ls ↔
      (firstTlsDomain clients).toList.any unreadable = false ∧ ls = censorshipParsed clients := by
  rw [censorshipLines, parseAll_cons, parseAll_line (domainLine_oneLine printable clients), entryLine,
    parseLine_bareKey (by decide) (by decide), wholeValue_escaped, parseAll_of_parses parses_emulationLines]
  cases (firstTlsDomain clients).toList.any unreadable with
  | true => simp
  | false => simp [censorshipParsed, eq_comm]

/-! The lines of the accounts. -/

/-- What a table of accounts says. -/
def accountParsed (name : String) (v : Client → TomlValue) (accounts : List Client) : List TomlLine :=
  let entries := accounts.map fun c => TomlLine.entry (tomlEscape c.email.toList) (v c)
  .header ["access".toList, name.toList] false :: (entries ++ [.blank])

section Account

variable {printable} {value : Client → List Char} (hone : ∀ c, OneLine (value c))

include hone in
theorem accountLine_oneLine (c : Client) : OneLine (escaped printable c.email ++ (" = ".toList ++ value c)) :=
  (escaped_oneLine printable c.email).append (OneLine.append (by decide) (hone c))

variable {v : Client → TomlValue} {unread : Client → Bool}
  (hv : ∀ c, wholeValue (value c) = if unread c then none else some (v c))

include hone hv in
/-- The lines of the accounts are read if all of their strings are. -/
theorem parseAll_accounts {accounts : List Client} {ls : List TomlLine} :
    parseAll (accounts.map fun c => escaped printable c.email ++ (" = ".toList ++ value c)) = some ls ↔
      (∀ c ∈ accounts, c.email.toList.any unreadable = false ∧ unread c = false) ∧
        ls = accounts.map fun c => TomlLine.entry (tomlEscape c.email.toList) (v c) := by
  induction accounts generalizing ls with
  | nil =>
      constructor
      · intro h
        exact ⟨fun c hc => absurd hc List.not_mem_nil, (Option.some.inj h).symm⟩
      · rintro ⟨-, rfl⟩
        rfl
  | cons c accounts ih =>
      have hline : parseAll [escaped printable c.email ++ (" = ".toList ++ value c)] =
          if c.email.toList.any unreadable then none
          else if unread c then none else some [.entry (tomlEscape c.email.toList) (v c)] := by
        rw [parseAll_line (accountLine_oneLine hone c), escaped, parseLine_goQuote, any_unreadable_tomlEscape, hv]
        split_ifs <;> rfl
      rw [List.map_cons, ← List.singleton_append, parseAll_append_eq_some, hline]
      simp only [ih, List.forall_mem_cons]
      split_ifs with hemail hunread
      · simp [hemail]
      · simp [hunread]
      · rw [Bool.not_eq_true] at hemail hunread
        simp [hemail, hunread]

include hone hv in
theorem parseAll_accountLines {table name : String} {accounts : List Client}
    (htable : Parses table.toList (.header ["access".toList, name.toList] false)) {ls : List TomlLine} :
    parseAll (accountLines printable table value accounts) = some ls ↔
      (∀ c ∈ accounts, c.email.toList.any unreadable = false ∧ unread c = false) ∧
        ls = accountParsed name v accounts := by
  have hhead : parseAll [table.toList] = some [.header ["access".toList, name.toList] false] :=
    parseAll_of_parses (.cons htable .nil)
  have hblank : parseAll [[]] = some [.blank] := by decide
  rw [accountLines, ← List.singleton_append, parseAll_append_eq_some]
  simp only [parseAll_append_eq_some, parseAll_accounts hone hv, hhead, hblank]
  constructor
  · rintro ⟨a, b, ha, ⟨x, y, ⟨hall, rfl⟩, hy, rfl⟩, rfl⟩
    rw [← Option.some.inj ha, ← Option.some.inj hy]
    exact ⟨hall, rfl⟩
  · rintro ⟨hall, rfl⟩
    exact ⟨_, _, rfl, ⟨_, _, ⟨hall, rfl⟩, rfl, rfl⟩, rfl⟩

include hone in
theorem accountLines_oneLine {table : String} (htable : OneLine table.toList) (accounts : List Client) :
    ∀ l ∈ accountLines printable table value accounts, OneLine l := by
  refine List.forall_mem_cons.2 ⟨htable, fun l hl => ?_⟩
  obtain hl | hl := List.mem_append.1 hl
  · obtain ⟨c, -, rfl⟩ := List.mem_map.1 hl
    exact accountLine_oneLine hone c
  · rw [List.mem_singleton.1 hl]
    decide

end Account

/-- The strings of the accounts have none of the characters that make the file invalid. -/
def Readable : Prop :=
  ∀ c ∈ activeClients clients, c.email.toList.any unreadable = false ∧ c.secret.toList.any unreadable = false ∧
    (c.tagged = true → (trimSpace c.adtag).toList.any unreadable = false)

/-- What the tables of the accounts say. -/
def accessParsed : List TomlLine :=
  let accounts := activeClients clients
  accountParsed "users" (fun c => .str (tomlEscape c.secret.toList)) accounts ++
    accountParsed "user_enabled" (fun c => .bool (c.enable && !disabled c.email)) accounts ++
    accountParsed "user_max_unique_ips" (fun c => .int (effectiveUserLimit c.userLimit)) accounts ++
    accountParsed "user_modes" (fun c => .str (modesText c).toList) accounts ++
    if anyAdtag clients then
      accountParsed "user_ad_tags" (fun c => .str (tomlEscape (trimSpace c.adtag).toList)) (accounts.filter (·.tagged))
    else []

theorem modesText_readable (c : Client) : (modesText c).toList.any unreadable = false := by
  unfold modesText Client.modes
  cases c.modeClassic <;> cases c.modeSecure <;> cases c.modeTls <;> decide

theorem parseAll_accessLines {ls : List TomlLine} :
    parseAll (accessLines printable disabled clients) = some ls ↔
      Readable clients ∧ ls = accessParsed disabled clients := by
  have husers := @parseAll_accountLines printable _ (fun c => escaped_oneLine printable c.secret) _ _
    (fun c => wholeValue_escaped printable c.secret) "[access.users]" "users" (activeClients clients) (by decide)
  have henabled := @parseAll_accountLines printable _ (fun c => goBool_oneLine (c.enable && !disabled c.email)) _
    (fun _ => false) (fun c => wholeValue_goBool _) "[access.user_enabled]" "user_enabled" (activeClients clients)
    (by decide)
  have hlimits := @parseAll_accountLines printable _ (fun c => goInt_oneLine (effectiveUserLimit c.userLimit)) _
    (fun _ => false) (fun c => wholeValue_goInt _) "[access.user_max_unique_ips]" "user_max_unique_ips"
    (activeClients clients) (by decide)
  have hmodes := @parseAll_accountLines printable _ (fun c => goQuote_oneLine printable (modesText c).toList) _
    (fun c => (modesText c).toList.any unreadable) (fun c => wholeValue_goQuote printable _) "[access.user_modes]"
    "user_modes" (activeClients clients) (by decide)
  have htags := @parseAll_accountLines printable _ (fun c => escaped_oneLine printable (trimSpace c.adtag)) _ _
    (fun c => wholeValue_escaped printable (trimSpace c.adtag)) "[access.user_ad_tags]" "user_ad_tags"
    ((activeClients clients).filter (·.tagged)) (by decide)
  have hshape : ∀ {ls}, parseAll (if anyAdtag clients then
        accountLines printable "[access.user_ad_tags]" (fun c => escaped printable (trimSpace c.adtag))
          ((activeClients clients).filter (·.tagged))
      else []) = some ls ↔
      (∀ c ∈ activeClients clients, c.tagged = true →
        c.email.toList.any unreadable = false ∧ (trimSpace c.adtag).toList.any unreadable = false) ∧
      ls = if anyAdtag clients then accountParsed "user_ad_tags" (fun c => .str (tomlEscape (trimSpace c.adtag).toList))
          ((activeClients clients).filter (·.tagged)) else [] := by
    intro ls
    by_cases hany : anyAdtag clients = true
    · simp only [if_pos hany, htags, List.mem_filter, and_imp]
    · have hnone : ∀ c ∈ activeClients clients, ¬ c.tagged = true := by
        intro c hc htagged
        exact hany (List.any_eq_true.2 ⟨c, (mem_activeClients.1 hc).1, htagged⟩)
      rw [if_neg hany, if_neg hany]
      constructor
      · intro h
        exact ⟨fun c hc htagged => absurd htagged (hnone c hc), (Option.some.inj h).symm⟩
      · rintro ⟨-, rfl⟩
        rfl
  rw [accessLines]
  simp only [parseAll_append_eq_some, husers, henabled, hlimits, hmodes, hshape]
  constructor
  · rintro ⟨_, _, ⟨_, _, ⟨_, _, ⟨_, _, ⟨hread, rfl⟩, ⟨-, rfl⟩, rfl⟩, ⟨-, rfl⟩, rfl⟩, ⟨-, rfl⟩, rfl⟩,
      ⟨hadtags, rfl⟩, rfl⟩
    exact ⟨fun c hc => ⟨(hread c hc).1, (hread c hc).2, fun htagged => (hadtags c hc htagged).2⟩, rfl⟩
  · rintro ⟨hread, rfl⟩
    have hemail : ∀ c ∈ activeClients clients, c.email.toList.any unreadable = false ∧ True :=
      fun c hc => ⟨(hread c hc).1, trivial⟩
    exact ⟨_, _, ⟨_, _, ⟨_, _, ⟨_, _, ⟨fun c hc => ⟨(hread c hc).1, (hread c hc).2.1⟩, rfl⟩, ⟨hemail, rfl⟩, rfl⟩,
      ⟨hemail, rfl⟩, rfl⟩, ⟨fun c hc => ⟨(hread c hc).1, modesText_readable c⟩, rfl⟩, rfl⟩,
      ⟨fun c hc htagged => ⟨(hread c hc).1, (hread c hc).2.2 htagged⟩, rfl⟩, rfl⟩

/-! The lines before the tables of the accounts. -/

/-- The comment on routing. -/
def tagLines : List (List Char) := if usingRouting clients then [tagComment i] else []

/-- The lines of the upstream. -/
def upstreamLines : List (List Char) := if usingRouting clients then socksLines printable i else directLines

/-- What they are read as. -/
def upstreamParsed : List TomlLine := if usingRouting clients then socksParsed i else directParsed

theorem parses_upstreamLines :
    List.Forall₂ Parses (upstreamLines printable i clients) (upstreamParsed i clients) := by
  rw [upstreamLines, upstreamParsed]
  split_ifs
  · exact parses_socksLines printable i
  · exact parses_directLines

theorem buildServerConfig_eq :
    buildServerConfig printable disabled i clients =
      generalLines i clients ++ (censorshipLines printable clients ++ (tagLines i clients ++
        (upstreamLines printable i clients ++ accessLines printable disabled clients))) := by
  rw [buildServerConfig, tagLines, upstreamLines]
  split_ifs
  · simp
  · simp

theorem getLast?_tagComment : (tagComment i).getLast? = some ',' := by
  have hcomma : ∀ l l' : List Char, (l ++ (l' ++ "),".toList)).getLast? = some ',' := by
    intro l l'
    have htext : "),".toList = [')', ','] := by decide
    rw [htext]
    simp
  unfold tagComment
  exact hcomma _ _

/-- No line of the config ends with a carriage return. -/
theorem getLast?_buildServerConfig :
    ∀ l ∈ buildServerConfig printable disabled i clients, l.getLast? ≠ some '\r' := by
  have haccess : ∀ l ∈ accessLines printable disabled clients, OneLine l := by
    intro l hl
    rw [accessLines] at hl
    simp only [List.mem_append] at hl
    obtain (((hl | hl) | hl) | hl) | hl := hl
    · exact accountLines_oneLine (fun c => escaped_oneLine printable c.secret) (by decide) _ l hl
    · exact accountLines_oneLine (fun c => goBool_oneLine _) (by decide) _ l hl
    · exact accountLines_oneLine (fun c => goInt_oneLine _) (by decide) _ l hl
    · exact accountLines_oneLine (fun c => goQuote_oneLine printable _) (by decide) _ l hl
    · split_ifs at hl
      · exact accountLines_oneLine (fun c => escaped_oneLine printable _) (by decide) _ l hl
      · cases hl
  intro l hl
  rw [buildServerConfig_eq] at hl
  simp only [List.mem_append] at hl
  obtain hl | hl | hl | hl | hl := hl
  · exact (oneLine_of_parses (parses_generalLines i clients) l hl).getLast?_ne
  · obtain rfl | hl := List.mem_cons.1 hl
    · exact (domainLine_oneLine printable clients).getLast?_ne
    · exact (oneLine_of_parses parses_emulationLines l hl).getLast?_ne
  · rw [tagLines] at hl
    split_ifs at hl
    · rw [List.mem_singleton.1 hl, getLast?_tagComment]
      decide
    · cases hl
  · exact (oneLine_of_parses (parses_upstreamLines printable i clients) l hl).getLast?_ne
  · exact (haccess l hl).getLast?_ne

/-- What the whole config says, with what is read of the comment with the tag. -/
def configParsed (tag : List TomlLine) : List TomlLine :=
  generalParsed i clients ++ (censorshipParsed clients ++
    (tag ++ (upstreamParsed i clients ++ accessParsed disabled clients)))

theorem parseAll_buildServerConfig {ls : List TomlLine} :
    parseAll (buildServerConfig printable disabled i clients) = some ls ↔
      ((firstTlsDomain clients).toList.any unreadable = false ∧ Readable clients) ∧
        ∃ tag, parseAll (tagLines i clients) = some tag ∧ ls = configParsed disabled i clients tag := by
  rw [buildServerConfig_eq]
  simp only [parseAll_append_eq_some, parseAll_of_parses (parses_generalLines i clients), parseAll_censorshipLines,
    parseAll_of_parses (parses_upstreamLines printable i clients), parseAll_accessLines, Option.some.injEq]
  constructor
  · rintro ⟨_, _, rfl, ⟨_, _, ⟨hdomain, rfl⟩, ⟨tag, _, htag, ⟨_, _, rfl, ⟨hread, rfl⟩, rfl⟩, rfl⟩, rfl⟩, rfl⟩
    exact ⟨⟨hdomain, hread⟩, tag, htag, rfl⟩
  · rintro ⟨⟨hdomain, hread⟩, tag, htag, rfl⟩
    exact ⟨_, _, rfl, ⟨_, _, ⟨hdomain, rfl⟩, ⟨tag, _, htag, ⟨_, _, rfl, ⟨hread, rfl⟩, rfl⟩, rfl⟩, rfl⟩, rfl⟩

theorem tablesOf_accountParsed (t : TomlTable) (name : String) (v : Client → TomlValue) (accounts : List Client)
    (lines : List TomlLine) :
    tablesOf t (accountParsed name v accounts ++ lines) =
      t :: tablesOf (accountTable tomlEscape name v accounts) lines := by
  have hentries : (accounts.map fun c => TomlLine.entry (tomlEscape c.email.toList) (v c)) =
      (accounts.map fun c => (tomlEscape c.email.toList, v c)).map fun e => .entry e.1 e.2 := by
    rw [List.map_map]
    rfl
  rw [accountParsed, hentries, List.cons_append, tablesOf, List.append_assoc, tablesOf_entries]
  rfl

/-- The tables of a config whose comments are comments. -/
theorem tablesOf_configParsed {tag : List TomlLine} (htag : tag.countP (· ≠ .blank) = 0) :
    tablesOf rootTable (configParsed disabled i clients tag) =
      telemtTables tomlEscape disabled i clients (tomlEscape (firstTlsDomain clients).toList)
        (activeClients clients) := by
  have hupstream : ∀ t lines, tablesOf t (upstreamParsed i clients ++ lines) =
    t :: tablesOf (upstreamTable i clients) lines := by
    intro t lines
    rw [upstreamParsed, upstreamTable]
    split_ifs
    · rfl
    · rfl
  have haccess : ∀ t, tablesOf t (accessParsed disabled clients) =
      t :: accessTables tomlEscape disabled clients (activeClients clients) := by
    intro t
    rw [accessParsed, accessTables]
    split_ifs
    · simp only [List.append_assoc, tablesOf_accountParsed]
      rw [← List.append_nil (accountParsed "user_ad_tags" _ _), tablesOf_accountParsed]
      rfl
    · simp only [List.append_assoc, tablesOf_accountParsed]
      rfl
  show (generalTables i clients) ++ tablesOf (censorshipTable (tomlEscape (firstTlsDomain clients).toList))
    (tag ++ (upstreamParsed i clients ++ accessParsed disabled clients)) = _
  rw [tablesOf_blanks _ htag, hupstream, haccess]
  rfl

end Parse

/-! ## Nothing is defined twice -/

/-- The headers of a config. -/
def telemtHeaders (adtag : Bool) : List (List (List Char) × Bool) :=
  [([], false), (["general".toList], false), (["general".toList, "modes".toList], false), (["server".toList], false),
    (["server".toList, "api".toList], false), (["censorship".toList], false), (["upstreams".toList], true),
    (["access".toList, "users".toList], false), (["access".toList, "user_enabled".toList], false),
    (["access".toList, "user_max_unique_ips".toList], false), (["access".toList, "user_modes".toList], false)] ++
    if adtag then [(["access".toList, "user_ad_tags".toList], false)] else []

section DefinesOnce

variable (disabled : String → Bool) (i : InboundRow) (clients : List Client) (domain : List Char)
  (accounts : List Client)

theorem headers_telemtTables (text : List Char → List Char) :
    (telemtTables text disabled i clients domain accounts).map (fun t => (t.path, t.array)) =
      telemtHeaders (anyAdtag clients) := by
  unfold telemtTables accessTables telemtHeaders
  cases anyAdtag clients <;> rfl

theorem mem_accessTables {t : TomlTable} (ht : t ∈ accessTables id disabled clients accounts) :
    t.path.length = 2 ∧ ∃ f : Client → TomlValue, ∃ l : List Client, l.Sublist accounts ∧
      t.entries = l.map fun c => (c.email.toList, f c) := by
  have hentry : ∀ (name : String) (f : Client → TomlValue) (l : List Client), l.Sublist accounts →
      (accountTable id name f l).path.length = 2 ∧ ∃ f' : Client → TomlValue, ∃ l' : List Client, l'.Sublist accounts ∧
        (accountTable id name f l).entries = l'.map fun c => (c.email.toList, f' c) :=
    fun name f l hl => ⟨rfl, f, l, hl, rfl⟩
  unfold accessTables at ht
  obtain ht | ht := List.mem_append.1 ht
  · simp only [List.mem_cons, List.not_mem_nil, or_false] at ht
    obtain rfl | rfl | rfl | rfl := ht
    · exact hentry _ _ accounts (List.Sublist.refl _)
    · exact hentry _ _ accounts (List.Sublist.refl _)
    · exact hentry _ _ accounts (List.Sublist.refl _)
    · exact hentry _ _ accounts (List.Sublist.refl _)
  · split_ifs at ht
    · rw [List.mem_singleton.1 ht]
      exact hentry _ _ _ List.filter_sublist
    · cases ht

/-- The keys of the other tables. -/
def telemtKeys : List (List (List Char) × List (List Char)) :=
  [([], []), (["general".toList], ["use_middle_proxy", "me_socks_kdf_policy", "log_level",
    "disable_colors"].map String.toList),
    (["general".toList, "modes".toList], ["classic", "secure", "tls"].map String.toList),
    (["server".toList], ["port", "metrics_listen", "metrics_whitelist"].map String.toList),
    (["server".toList, "api".toList], ["enabled"].map String.toList),
    (["censorship".toList], ["tls_domain", "unknown_sni_action", "mask", "tls_emulation"].map String.toList),
    (["upstreams".toList], ["type", "address", "socks_user_from_account", "username", "password"].map String.toList),
    (["upstreams".toList], ["type"].map String.toList)]

theorem mem_telemtTables {t : TomlTable} (ht : t ∈ telemtTables id disabled i clients domain accounts) :
    (t.path, t.entries.map Prod.fst) ∈ telemtKeys ∨ t ∈ accessTables id disabled clients accounts := by
  unfold telemtTables at ht
  obtain ht | ht := List.mem_append.1 ht
  · unfold generalTables at ht
    simp only [List.mem_cons, List.not_mem_nil, or_false] at ht
    left
    obtain rfl | rfl | rfl | rfl | rfl := ht <;> simp [telemtKeys, textEntry, rootTable]
  · obtain rfl | ht := List.mem_cons.1 ht
    · left
      simp [telemtKeys, censorshipTable, textEntry]
    obtain rfl | ht := List.mem_cons.1 ht
    · left
      unfold upstreamTable
      split_ifs <;> simp [telemtKeys, textEntry]
    · exact .inr ht

theorem definesOnce_telemtTables (hemails : (accounts.map (·.email)).Nodup) :
    DefinesOnce (telemtTables id disabled i clients domain accounts) := by
  have hkeys : ∀ k ∈ telemtKeys, k.2.Nodup := by decide
  have hclash : ∀ k ∈ telemtKeys, ∀ b : Bool, ∀ u ∈ telemtHeaders b, ∀ e ∈ k.2, ¬ k.1 ++ [e] <+: u.1 := by decide
  have hheaders : ∀ b : Bool, (telemtHeaders b).Pairwise (fun t u => t.1 = u.1 → t.2 = true ∧ u.2 = true) := by decide
  have hlength : ∀ b : Bool, ∀ u ∈ telemtHeaders b, u.1.length ≤ 2 := by decide
  refine ⟨fun t ht => ?_, ?_, fun t ht u hu e he hprefix => ?_⟩
  · obtain hfixed | haccess := mem_telemtTables disabled i clients domain accounts ht
    · exact hkeys _ hfixed
    · obtain ⟨-, f, l, hl, hentries⟩ := mem_accessTables disabled clients accounts haccess
      rw [hentries, List.map_map]
      have hnodup : (l.map (·.email)).Nodup := hemails.sublist (hl.map _)
      have hlists : ((l.map (·.email)).map String.toList).Nodup := hnodup.map fun _ _ h => String.toList_injective h
      rw [List.map_map] at hlists
      exact hlists
  · rw [headers_telemtTables]
    exact hheaders _
  · have hheader : (u.path, u.array) ∈ telemtHeaders (anyAdtag clients) := by
      rw [← headers_telemtTables disabled i clients domain accounts id]
      exact List.mem_map_of_mem hu
    obtain hfixed | haccess := mem_telemtTables disabled i clients domain accounts ht
    · exact hclash _ hfixed _ _ hheader e.1 (List.mem_map_of_mem he) hprefix
    · have htwo := (mem_accessTables disabled clients accounts haccess).1
      have hle : u.path.length ≤ 2 := hlength _ _ hheader
      have hlong := hprefix.length_le
      rw [List.length_append, htwo, List.length_singleton] at hlong
      omega

end DefinesOnce

/-! ## When the config means what was asked -/

/-- A string that is printed and read as it is. -/
def PlainText (s : String) : Prop := ∀ c ∈ s.toList, c ≠ '"' ∧ c ≠ '\\' ∧ unreadable c = false

instance (s : String) : Decidable (PlainText s) := List.decidableBAll _ s.toList

/-- The strings of the usable accounts. -/
def PlainAccounts (clients : List Client) : Prop :=
  ∀ c ∈ clients, c.usable = true →
    PlainText c.email ∧ PlainText c.secret ∧ (c.tagged = true → PlainText (trimSpace c.adtag))

/-- The comment with the inbound's tag is nothing but comments. -/
def StaysComment (i : InboundRow) (clients : List Client) : Prop :=
  ∀ comment ∈ tagLines i clients, ∀ l ∈ splitLines comment, parseLine l = some .blank

theorem plainText_iff {s : String} : PlainText s ↔ Unescaped s.toList ∧ s.toList.any unreadable = false := by
  rw [List.any_eq_false]
  constructor
  · intro h
    exact ⟨fun c hc => ⟨(h c hc).1, (h c hc).2.1⟩, fun c hc => by rw [(h c hc).2.2]; decide⟩
  · rintro ⟨hunescaped, hreadable⟩ c hc
    exact ⟨(hunescaped c hc).1, (hunescaped c hc).2, Bool.not_eq_true _ ▸ hreadable c hc⟩

theorem countP_of_staysComment {i : InboundRow} {clients : List Client} :
    (∃ tag, parseAll (tagLines i clients) = some tag ∧ tag.countP (· ≠ .blank) = 0) ↔ StaysComment i clients := by
  constructor
  · rintro ⟨tag, htag, hblank⟩ comment hcomment l hl
    have hmem : l ∈ (tagLines i clients).flatMap splitLines := List.mem_flatMap.2 ⟨comment, hcomment, hl⟩
    obtain ⟨line, hline, hparse⟩ := mem_of_mapM htag hmem
    have heq := List.countP_eq_zero.1 hblank line hline
    rw [hparse]
    simpa using heq
  · intro h
    have hall : ∀ l ∈ (tagLines i clients).flatMap splitLines, parseLine l = some .blank := by
      intro l hl
      obtain ⟨comment, hcomment, hl⟩ := List.mem_flatMap.1 hl
      exact h comment hcomment l hl
    refine ⟨((tagLines i clients).flatMap splitLines).map fun _ => .blank, ?_, ?_⟩
    · rw [parseAll, mapM_eq_some_iff, List.map_map]
      exact List.map_congr_left hall
    · rw [List.countP_eq_zero]
      intro line hline
      obtain ⟨-, -, rfl⟩ := List.mem_map.1 hline
      decide

/-- A measure that a rearrangement could only raise is kept by it. -/
theorem eq_of_perm_map {α β : Type} {l : List α} {f g : α → β} (m : β → ℕ) (hle : ∀ a ∈ l, m (g a) ≤ m (f a))
    (h : (l.map f).Perm (l.map g)) : ∀ a ∈ l, m (f a) = m (g a) := by
  have hsum : ((l.map f).map m).sum = ((l.map g).map m).sum := (h.map m).sum_eq
  rw [List.map_map, List.map_map] at hsum
  intro a ha
  by_contra hne
  have hlt := List.sum_lt_sum (m ∘ g) (m ∘ f) hle ⟨a, ha, lt_of_le_of_ne (hle a ha) fun h => hne h.symm⟩
  omega

/-- How long an entry with a text is. -/
def entryLength : List Char × TomlValue → ℕ
  | (key, .str s) => key.length + s.length
  | _ => 0

/-- A table whose texts are read back as they were has no text that escaping changes. -/
theorem unescaped_of_perm {accounts asked : List Client} (hperm : accounts.Perm asked) (value : Client → List Char)
    (h : (accounts.map fun c => (tomlEscape c.email.toList, TomlValue.str (tomlEscape (value c)))).Perm
      (asked.map fun c => (c.email.toList, TomlValue.str (value c)))) :
    ∀ c ∈ accounts, Unescaped c.email.toList ∧ Unescaped (value c) := by
  have hsame := h.trans (hperm.symm.map fun c : Client => (c.email.toList, TomlValue.str (value c)))
  have hle : ∀ c ∈ accounts, entryLength (c.email.toList, TomlValue.str (value c)) ≤
      entryLength (tomlEscape c.email.toList, TomlValue.str (tomlEscape (value c))) :=
    fun c _ => Nat.add_le_add (length_le_tomlEscape c.email.toList) (length_le_tomlEscape (value c))
  have hlengths := eq_of_perm_map entryLength hle hsame
  intro c hc
  have hlength : (tomlEscape c.email.toList).length + (tomlEscape (value c)).length =
      c.email.toList.length + (value c).length := hlengths c hc
  have hemail := length_le_tomlEscape c.email.toList
  have hvalue := length_le_tomlEscape (value c)
  exact ⟨unescaped_of_length (by omega), unescaped_of_length (by omega)⟩

theorem weight_of_sameTable {tables asked : List TomlTable} (h : List.Forall₂ SameTable tables asked) :
    (tables.map TomlTable.weight).sum = (asked.map TomlTable.weight).sum := by
  induction h with
  | nil => rfl
  | cons hhead _ ih =>
      rw [List.map_cons, List.map_cons, List.sum_cons, List.sum_cons, ih, TomlTable.weight, TomlTable.weight,
        hhead.2.2.length_eq]

section Config

variable (printable : Char → Bool) (disabled : String → Bool) (i : InboundRow) (clients : List Client)

theorem weight_accountTable (text : List Char → List Char) (name : String) (f : Client → TomlValue) (l : List Client) :
    (accountTable text name f l).weight = 1 + l.length := by
  rw [TomlTable.weight, accountTable, List.length_map]

/-- The number of entries does not depend on the strings or the order. -/
theorem weight_telemtTables (text : List Char → List Char) (domain domain' : List Char) {accounts asked : List Client}
    (hperm : accounts.Perm asked) :
    ((telemtTables text disabled i clients domain accounts).map TomlTable.weight).sum =
      ((telemtTables id disabled i clients domain' asked).map TomlTable.weight).sum := by
  have hdomain : (censorshipTable domain).weight = (censorshipTable domain').weight := rfl
  have haccess : ((accessTables text disabled clients accounts).map TomlTable.weight).sum =
      ((accessTables id disabled clients asked).map TomlTable.weight).sum := by
    unfold accessTables
    split_ifs
    · simp only [List.map_append, List.map_cons, List.map_nil, weight_accountTable, hperm.length_eq,
        (hperm.filter _).length_eq]
    · simp only [List.map_append, List.map_cons, List.map_nil, weight_accountTable, hperm.length_eq]
  unfold telemtTables
  rw [List.map_append, List.map_append, List.sum_append, List.sum_append, List.map_cons, List.map_cons, List.map_cons,
    List.map_cons, List.sum_cons, List.sum_cons, List.sum_cons, List.sum_cons, hdomain, haccess]

/-- The tables of the accounts are the same when escaping changes nothing. -/
theorem sameTable_telemtTables {accounts asked : List Client} (hperm : accounts.Perm asked) (domain : List Char) :
    List.Forall₂ SameTable (telemtTables id disabled i clients domain accounts)
      (telemtTables id disabled i clients domain asked) := by
  have hrefl : ∀ t : TomlTable, SameTable t t := fun t => ⟨rfl, rfl, List.Perm.refl _⟩
  have htable : ∀ (name : String) (f : Client → TomlValue) {l l' : List Client}, l.Perm l' →
      SameTable (accountTable id name f l) (accountTable id name f l') :=
    fun name f l l' hl => ⟨rfl, rfl, hl.map _⟩
  have haccess : List.Forall₂ SameTable (accessTables id disabled clients accounts)
      (accessTables id disabled clients asked) := by
    unfold accessTables
    split_ifs
    · exact .cons (htable _ _ hperm) <| .cons (htable _ _ hperm) <| .cons (htable _ _ hperm) <|
        .cons (htable _ _ hperm) <| .cons (htable _ _ (hperm.filter _)) .nil
    · exact .cons (htable _ _ hperm) <| .cons (htable _ _ hperm) <| .cons (htable _ _ hperm) <|
        .cons (htable _ _ hperm) .nil
  unfold telemtTables
  exact List.rel_append (List.forall₂_same.2 fun t _ => hrefl t) (.cons (hrefl _) (.cons (hrefl _) haccess))

/-- Where escaping changes no string, the tables are the same with and without it. -/
theorem telemtTables_of_unescaped {accounts : List Client} (domain : List Char)
    (h : ∀ c ∈ accounts, Unescaped c.email.toList ∧ Unescaped c.secret.toList ∧
      (c.tagged = true → Unescaped (trimSpace c.adtag).toList)) :
    telemtTables tomlEscape disabled i clients domain accounts =
      telemtTables id disabled i clients domain accounts := by
  have htable : ∀ (name : String) (f g : Client → TomlValue) {l : List Client}, (∀ c ∈ l, c ∈ accounts ∧ f c = g c) →
      accountTable tomlEscape name f l = accountTable id name g l := by
    intro name f g l hl
    unfold accountTable
    congr 1
    refine List.map_congr_left fun c hc => ?_
    rw [tomlEscape_of_unescaped (h c (hl c hc).1).1, (hl c hc).2]
    rfl
  unfold telemtTables accessTables
  rw [htable "users" _ (fun c => .str c.secret.toList) fun c hc =>
      ⟨hc, by rw [tomlEscape_of_unescaped (h c hc).2.1]⟩,
    htable "user_enabled" _ _ fun c hc => ⟨hc, rfl⟩, htable "user_max_unique_ips" _ _ fun c hc => ⟨hc, rfl⟩,
    htable "user_modes" _ _ fun c hc => ⟨hc, rfl⟩,
    htable "user_ad_tags" _ (fun c => .str (trimSpace c.adtag).toList) fun c hc =>
      ⟨(List.mem_filter.1 hc).1, by
        rw [tomlEscape_of_unescaped ((h c (List.mem_filter.1 hc).1).2.2 (List.mem_filter.1 hc).2)]⟩]
  rfl

/-- Tables that are the same have no string that escaping changes. -/
theorem unescaped_of_sameTable {accounts asked : List Client} (hperm : accounts.Perm asked) {domain domain' : List Char}
    (h : List.Forall₂ SameTable (telemtTables tomlEscape disabled i clients domain accounts)
      (telemtTables id disabled i clients domain' asked)) :
    (∀ c ∈ accounts, Unescaped c.email.toList ∧ Unescaped c.secret.toList) ∧
      (anyAdtag clients = true → ∀ c ∈ accounts, c.tagged = true → Unescaped (trimSpace c.adtag).toList) := by
  have haccess : List.Forall₂ SameTable (accessTables tomlEscape disabled clients accounts)
      (accessTables id disabled clients asked) := List.forall₂_drop 7 h
  unfold accessTables at haccess
  have husers := (List.forall₂_cons.1 haccess).1.2.2
  refine ⟨unescaped_of_perm hperm (fun c => c.secret.toList) husers, fun hany c hc htagged => ?_⟩
  rw [if_pos hany, if_pos hany] at haccess
  have htags := (List.forall₂_cons.1 (List.forall₂_drop 4 haccess)).1.2.2
  exact (unescaped_of_perm (hperm.filter _) (fun c => (trimSpace c.adtag).toList) htags c
    (List.mem_filter.2 ⟨hc, htagged⟩)).2

/-- The config means what was asked exactly when no string of an account is changed on the way. -/
theorem meansAsked_iff (hemails : (clients.map (·.email)).Nodup) :
    MeansAsked printable disabled i clients ↔
      StaysComment i clients ∧ (firstTlsDomain clients).toList.any unreadable = false ∧ PlainAccounts clients := by
  have hperm := activeClients_perm clients
  rw [MeansAsked, decodeToml_unlines (getLast?_buildServerConfig printable disabled i clients)]
  constructor
  · rintro ⟨domain, tables, hdecode, hsame⟩
    obtain ⟨ls, hparse, hguard⟩ := Option.bind_eq_some_iff.1 hdecode
    obtain ⟨⟨hdomain, hread⟩, tag, htag, rfl⟩ := (parseAll_buildServerConfig printable disabled i clients).1 hparse
    split_ifs at hguard
    obtain rfl := Option.some.inj hguard
    -- the comment with the tag adds nothing to the tables, so it says nothing
    have hblank : tag.countP (· ≠ .blank) = 0 := by
      have hweight := weight_of_sameTable hsame
      have hnone := weight_tablesOf rootTable (configParsed disabled i clients [])
      rw [tablesOf_configParsed disabled i clients rfl,
        weight_telemtTables disabled i clients tomlEscape _ domain hperm] at hnone
      rw [weight_tablesOf, askedTables, hnone] at hweight
      simp only [configParsed, List.countP_append, List.countP_nil] at hweight
      omega
    rw [tablesOf_configParsed disabled i clients hblank] at hsame
    obtain ⟨husers, htags⟩ := unescaped_of_sameTable disabled i clients hperm hsame
    refine ⟨countP_of_staysComment.1 ⟨tag, htag, hblank⟩, hdomain, fun c hc husable => ?_⟩
    have hactive : c ∈ activeClients clients := mem_activeClients.2 ⟨hc, husable⟩
    obtain ⟨hemail, hsecret, hadtag⟩ := hread c hactive
    refine ⟨plainText_iff.2 ⟨(husers c hactive).1, hemail⟩,
      plainText_iff.2 ⟨(husers c hactive).2, hsecret⟩, fun h => ?_⟩
    exact plainText_iff.2 ⟨htags (List.any_eq_true.2 ⟨c, hc, h⟩) c hactive h, hadtag h⟩
  · rintro ⟨hcomment, hdomain, hplain⟩
    obtain ⟨tag, htag, hblank⟩ := countP_of_staysComment.2 hcomment
    have hread : Readable clients := by
      intro c hc
      obtain ⟨hemail, hsecret, hadtag⟩ := hplain c (mem_activeClients.1 hc).1 (mem_activeClients.1 hc).2
      exact ⟨(plainText_iff.1 hemail).2, (plainText_iff.1 hsecret).2, fun h => (plainText_iff.1 (hadtag h)).2⟩
    have hunescaped : ∀ c ∈ activeClients clients, Unescaped c.email.toList ∧ Unescaped c.secret.toList ∧
        (c.tagged = true → Unescaped (trimSpace c.adtag).toList) := by
      intro c hc
      obtain ⟨hemail, hsecret, hadtag⟩ := hplain c (mem_activeClients.1 hc).1 (mem_activeClients.1 hc).2
      exact ⟨(plainText_iff.1 hemail).1, (plainText_iff.1 hsecret).1, fun h => (plainText_iff.1 (hadtag h)).1⟩
    have htables := (tablesOf_configParsed disabled i clients hblank).trans
      (telemtTables_of_unescaped disabled i clients _ hunescaped)
    have hnodup : ((activeClients clients).map (·.email)).Nodup :=
      (hperm.map _).nodup_iff.2 (hemails.sublist (List.filter_sublist.map _))
    have hparse := (parseAll_buildServerConfig printable disabled i clients).2 ⟨⟨hdomain, hread⟩, tag, htag, rfl⟩
    refine ⟨_, _, ?_, sameTable_telemtTables disabled i clients hperm (tomlEscape (firstTlsDomain clients).toList)⟩
    rw [hparse, Option.bind_some, htables,
      if_pos (definesOnce_telemtTables disabled i clients _ (activeClients clients) hnodup)]

end Config

/-! ## A line of the metrics -/

/-- A text at the first `c` in it. -/
def cutFirst (c : Char) (l : List Char) : Option (List Char × List Char) :=
  if c ∈ l then some (l.takeWhile (· ≠ c), (l.dropWhile (· ≠ c)).tail) else none

/-- A text at the last `c` in it. -/
def cutLast (c : Char) (l : List Char) : Option (List Char × List Char) :=
  (cutFirst c l.reverse).map fun r => (r.2.reverse, r.1.reverse)

/-- `strings.TrimRight`. -/
def trimEnd (p : Char → Bool) (l : List Char) : List Char := (l.reverse.dropWhile p).reverse

/-- `strings.Trim`, with a set of characters. -/
def trimSet (p : Char → Bool) (l : List Char) : List Char := trimEnd p (l.dropWhile p)

/-- What the user is after another label. -/
def userLabel (user part : List Char) : List Char :=
  match cutFirst '=' (trimSet isSpace part) with
  | some (key, value) => if key = "user".toList ∨ key = "username".toList then trimSet (· == '"') value else user
  | none => user

section Metrics

/- `strconv.ParseFloat`, and then `int64`. -/
variable (parseValue : List Char → Option ℤ)

/-- A line of the metrics. -/
def parsePromUserMetric (line : List Char) : Option (List Char × List Char × ℤ) :=
  (cutFirst '{' line).bind fun first =>
    (cutLast '}' line).bind fun last =>
      if last.1.length < first.1.length then none
      else
        (parseValue (trimSet isSpace last.2)).bind fun val =>
          let labels := last.1.drop (first.1.length + 1)
          let user := (labels.splitOn ',').foldl userLabel []
          if user = [] then none else some (first.1, user, val)

/-- The escapes of a label's value in the metrics. -/
def promEscape (s : List Char) : List Char :=
  s.flatMap fun c => if c = '\\' then ['\\', '\\'] else if c = '"' then ['\\', '"'] else if c =
    '\n' then ['\\', 'n'] else [c]

/-- The labels of an account. -/
def userLabels (email : String) : List Char := "user=\"".toList ++ (promEscape email.toList ++ ['"'])

/-- The line of an account. -/
def metricLine (name : List Char) (email : String) (value : List Char) : List Char :=
  name ++ '{' :: (userLabels email ++ '}' :: value)

example : parsePromUserMetric (fun _ => some 7) (metricLine "octets".toList "alice" " 7".toList) =
    some ("octets".toList, "alice".toList, 7) := by decide

theorem cutFirst_append {c : Char} {l : List Char} (hl : c ∉ l) (rest : List Char) :
    cutFirst c (l ++ c :: rest) = some (l, rest) := by
  have hne : ∀ x ∈ l, decide (x ≠ c) = true := by
    intro x hx
    refine decide_eq_true fun heq => hl ?_
    rw [← heq]
    exact hx
  rw [cutFirst, if_pos (List.mem_append_right l List.mem_cons_self), List.takeWhile_append_of_pos hne,
    List.dropWhile_append_of_pos hne, List.takeWhile_cons_of_neg (by simp), List.dropWhile_cons_of_neg (by simp),
    List.append_nil, List.tail_cons]

theorem cutLast_append {c : Char} {rest : List Char} (hrest : c ∉ rest) (l : List Char) :
    cutLast c (l ++ c :: rest) = some (l, rest) := by
  have hrev : (l ++ c :: rest).reverse = rest.reverse ++ c :: l.reverse := by simp
  rw [cutLast, hrev, cutFirst_append (by simpa using hrest), Option.map_some, List.reverse_reverse,
    List.reverse_reverse]

/-- What is read of an account's line. -/
theorem parsePromUserMetric_metricLine {name value : List Char} (hname : '{' ∉ name) (hvalue : '}' ∉ value)
    (email : String) {v : ℤ} (hv : parseValue (trimSet isSpace value) = some v) :
    parsePromUserMetric parseValue (metricLine name email value) =
      let user := ((userLabels email).splitOn ',').foldl userLabel []
      if user = [] then none else some (name, user, v) := by
  have hfirst : cutFirst '{' (metricLine name email value) = some (name, userLabels email ++ '}' :: value) :=
    cutFirst_append hname _
  have hlast : cutLast '}' (metricLine name email value) = some (name ++ '{' :: userLabels email, value) := by
    have hline : metricLine name email value = (name ++ '{' :: userLabels email) ++ '}' :: value := by
      rw [metricLine, List.append_assoc, List.cons_append]
    rw [hline, cutLast_append hvalue]
  have hle : ¬ (name ++ '{' :: userLabels email).length < name.length := by
    rw [List.length_append]
    omega
  have hlabels : (name ++ '{' :: userLabels email).drop (name.length + 1) = userLabels email := by
    simp [List.drop_append]
  rw [parsePromUserMetric, hfirst, Option.bind_some, hlast, Option.bind_some, if_neg hle, hv, Option.bind_some, hlabels]

/-- The characters that an email cannot have if it is to come back. -/
def labelSafe (c : Char) : Bool := c ≠ ',' && c ≠ '"' && c ≠ '\\' && c ≠ '\n'

theorem mem_trimSet {p : Char → Bool} {l : List Char} {c : Char} (h : c ∈ trimSet p l) : c ∈ l := by
  rw [trimSet, trimEnd, List.mem_reverse] at h
  have hdrop := (List.dropWhile_sublist p).mem h
  rw [List.mem_reverse] at hdrop
  exact (List.dropWhile_sublist p).mem hdrop

/-- A label's value is a part of the label. -/
theorem not_mem_userLabel {c : Char} {user part : List Char} (huser : c ∉ user) (hpart : c ∉ part) :
    c ∉ userLabel user part := by
  rw [userLabel, cutFirst]
  split_ifs with heq
  · dsimp only
    split_ifs
    · intro hmem
      have hcut := List.mem_of_mem_tail (mem_trimSet hmem)
      exact hpart (mem_trimSet ((List.dropWhile_sublist _).mem hcut))
    · exact huser
  · exact huser

/-- Whatever is read as the user has no comma in it. -/
theorem comma_not_mem_user (labels : List Char) : ',' ∉ (labels.splitOn ',').foldl userLabel [] := by
  have hfold : ∀ (parts : List (List Char)) (user : List Char), (∀ part ∈ parts, ',' ∉ part) → ',' ∉ user →
      ',' ∉ parts.foldl userLabel user := by
    intro parts
    induction parts with
    | nil => exact fun user _ huser => huser
    | cons part parts ih =>
        intro user hparts huser
        exact ih _ (fun x hx => hparts x (List.mem_cons_of_mem part hx))
          (not_mem_userLabel huser (hparts part List.mem_cons_self))
  exact hfold _ [] (not_mem_splitOn labels) List.not_mem_nil

theorem trimEnd_cons (p : Char → Bool) (c : Char) (l : List Char) :
    trimEnd p (c :: l) = if trimEnd p l = [] ∧ p c = true then [] else c :: trimEnd p l := by
  rw [trimEnd, trimEnd, List.reverse_cons, List.dropWhile_append]
  cases hl : l.reverse.dropWhile p with
  | nil =>
      cases hc : p c with
      | true => simp [hc]
      | false => simp [hc]
  | cons x xs => simp

/-- The quotes at the end of a label's value. -/
def unquoteEnd (l : List Char) : List Char := trimEnd (· == '"') l

theorem unquoteEnd_cons {c : Char} (hc : c ≠ '"') (l : List Char) : unquoteEnd (c :: l) = c :: unquoteEnd l := by
  rw [unquoteEnd, trimEnd_cons, if_neg fun h => hc (beq_iff_eq.1 h.2)]
  rfl

theorem promEscape_cons (c : Char) (l : List Char) :
    promEscape (c :: l) = (if c = '\\' then ['\\', '\\'] else if c = '"' then ['\\', '"']
      else if c = '\n' then ['\\', 'n'] else [c]) ++ promEscape l := List.flatMap_cons

theorem head?_promEscape (l : List Char) : (promEscape l).head? ≠ some '"' := by
  cases l with
  | nil => exact fun h => absurd h (by decide)
  | cons c l =>
      rw [promEscape_cons]
      split_ifs with hslash hquote
      · exact fun h => absurd (Option.some.inj h) (by decide)
      · exact fun h => absurd (Option.some.inj h) (by decide)
      · exact fun h => absurd (Option.some.inj h) (by decide)
      · exact fun h => hquote (Option.some.inj h)

theorem comma_not_mem_promEscape {l : List Char} (h : ',' ∉ l) : ',' ∉ promEscape l := by
  intro hmem
  obtain ⟨c, hc, hmem⟩ := List.mem_flatMap.1 hmem
  split_ifs at hmem
  · exact absurd hmem (by decide)
  · exact absurd hmem (by decide)
  · exact absurd hmem (by decide)
  · rw [List.mem_singleton] at hmem
    exact h (hmem ▸ hc)

/-- What stands between two quotes, without those it ends with. -/
theorem trimSet_quoted {l : List Char} (hl : l.head? ≠ some '"') :
    trimSet (· == '"') ('"' :: (l ++ ['"'])) = unquoteEnd l := by
  have hend : ∀ l : List Char, trimEnd (· == '"') (l ++ ['"']) = unquoteEnd l := by
    intro l
    rw [trimEnd, List.reverse_append]
    rfl
  rw [trimSet, List.dropWhile_cons_of_pos (by rfl)]
  cases l with
  | nil => rfl
  | cons c l =>
      have hc : ¬ (c == '"') = true := fun h => hl (by rw [List.head?_cons, beq_iff_eq.1 h])
      rw [List.cons_append, List.dropWhile_cons_of_neg (p := (· == '"')) hc, ← List.cons_append, hend]

/-- The email is read, escaped, without the quotes that it may end with. -/
theorem user_of_userLabels {email : String} (hcomma : ',' ∉ email.toList) :
    ((userLabels email).splitOn ',').foldl userLabel [] = unquoteEnd (promEscape email.toList) := by
  have hone : ',' ∉ userLabels email := by
    unfold userLabels
    rw [List.mem_append, List.mem_append, not_or, not_or]
    exact ⟨by decide, comma_not_mem_promEscape hcomma, by decide⟩
  have htrim : trimSet isSpace (userLabels email) = userLabels email := by
    have hend : ∀ l : List Char, trimEnd isSpace (l ++ ['"']) = l ++ ['"'] := by
      intro l
      rw [trimEnd, List.reverse_append, List.reverse_singleton, List.singleton_append,
        List.dropWhile_cons_of_neg (by decide), List.reverse_cons, List.reverse_reverse]
    have htext : "user=\"".toList = 'u' :: "ser=\"".toList := by decide
    have hstart : ∀ l : List Char, ("user=\"".toList ++ l).dropWhile isSpace = "user=\"".toList ++ l := by
      intro l
      rw [htext, List.cons_append]
      exact List.dropWhile_cons_of_neg (by decide)
    unfold trimSet userLabels
    rw [hstart, ← List.append_assoc, hend]
  have hcut : cutFirst '=' (userLabels email) = some ("user".toList, '"' :: (promEscape email.toList ++ ['"'])) :=
    cutFirst_append (c := '=') (l := "user".toList) (by decide) _
  have huser : userLabel [] (userLabels email) = trimSet (· == '"') ('"' :: (promEscape email.toList ++ ['"'])) := by
    unfold userLabel
    rw [htrim, hcut]
    rfl
  rw [List.splitOn_eq_singleton hone, List.foldl_cons, List.foldl_nil, huser]
  exact trimSet_quoted (head?_promEscape _)

theorem length_le_unquoteEnd (l : List Char) : l.length ≤ (unquoteEnd (promEscape l)).length := by
  induction l with
  | nil => exact Nat.zero_le _
  | cons c l ih =>
      rw [promEscape_cons]
      split_ifs with hslash hquote hline
      · show _ ≤ (unquoteEnd ('\\' :: '\\' :: promEscape l)).length
        rw [unquoteEnd_cons (by decide), unquoteEnd_cons (by decide), List.length_cons,
          List.length_cons, List.length_cons]
        omega
      · show _ ≤ (unquoteEnd ('\\' :: '"' :: promEscape l)).length
        rw [unquoteEnd_cons (by decide), List.length_cons, List.length_cons]
        rw [unquoteEnd, trimEnd_cons]
        change l.length ≤ (trimEnd (· == '"') (promEscape l)).length at ih
        split_ifs with hnil
        · rw [hnil.1] at ih
          simp only [List.length_nil] at ih ⊢
          omega
        · rw [List.length_cons]
          omega
      · show _ ≤ (unquoteEnd ('\\' :: 'n' :: promEscape l)).length
        rw [unquoteEnd_cons (by decide), unquoteEnd_cons (by decide), List.length_cons,
          List.length_cons, List.length_cons]
        omega
      · show _ ≤ (unquoteEnd (c :: promEscape l)).length
        rw [unquoteEnd_cons hquote, List.length_cons, List.length_cons]
        omega

/-- An email that is read as it is has nothing to escape. -/
theorem plain_of_unquoteEnd {l : List Char} (h : unquoteEnd (promEscape l) = l) :
    ∀ c ∈ l, c ≠ '"' ∧ c ≠ '\\' ∧ c ≠ '\n' := by
  induction l with
  | nil => exact fun c hc => absurd hc List.not_mem_nil
  | cons c l ih =>
      rw [promEscape_cons] at h
      split_ifs at h with hslash hquote hline
      · -- a backslash is read twice, and the rest is not shorter for it
        change unquoteEnd ('\\' :: '\\' :: promEscape l) = c :: l at h
        rw [unquoteEnd_cons (by decide), unquoteEnd_cons (by decide)] at h
        have hlength := congrArg List.length (List.cons.inj h).2
        have hle := length_le_unquoteEnd l
        rw [List.length_cons] at hlength
        omega
      · change unquoteEnd ('\\' :: '"' :: promEscape l) = c :: l at h
        rw [unquoteEnd_cons (by decide)] at h
        exact absurd (List.cons.inj h).1.symm hslash
      · change unquoteEnd ('\\' :: 'n' :: promEscape l) = c :: l at h
        rw [unquoteEnd_cons (by decide)] at h
        exact absurd (List.cons.inj h).1.symm hslash
      · change unquoteEnd (c :: promEscape l) = c :: l at h
        rw [unquoteEnd_cons hquote] at h
        exact List.forall_mem_cons.2 ⟨⟨hquote, hslash, hline⟩, ih (List.cons.inj h).2⟩

theorem unquoteEnd_of_plain {l : List Char} (h : ∀ c ∈ l, c ≠ '"' ∧ c ≠ '\\' ∧ c ≠ '\n') :
    unquoteEnd (promEscape l) = l := by
  induction l with
  | nil => rfl
  | cons c l ih =>
      obtain ⟨hquote, hslash, hline⟩ := h c List.mem_cons_self
      rw [promEscape_cons, if_neg hslash, if_neg hquote, if_neg hline, List.singleton_append, unquoteEnd_cons hquote,
        ih fun x hx => h x (List.mem_cons_of_mem c hx)]

/-- An account's line gives back its email exactly when there is nothing in it to escape and no
comma. -/
theorem parsePromUserMetric_iff {name value : List Char} (hname : '{' ∉ name) (hvalue : '}' ∉ value) {email : String}
    (hemail : email ≠ "") {v : ℤ} (hv : parseValue (trimSet isSpace value) = some v) :
    parsePromUserMetric parseValue (metricLine name email value) = some (name, email.toList, v) ↔
      ∀ c ∈ email.toList, labelSafe c = true := by
  rw [parsePromUserMetric_metricLine parseValue hname hvalue email hv]
  have hne : email.toList ≠ [] := fun h => hemail (String.toList_eq_nil_iff.1 h)
  have hsafe : (∀ c ∈ email.toList, labelSafe c = true) ↔
      ',' ∉ email.toList ∧ ∀ c ∈ email.toList, c ≠ '"' ∧ c ≠ '\\' ∧ c ≠ '\n' := by
    simp only [labelSafe, Bool.and_eq_true, decide_eq_true_eq]
    constructor
    · intro h
      exact ⟨fun hmem => (h ',' hmem).1.1.1 rfl, fun c hc => ⟨(h c hc).1.1.2, (h c hc).1.2, (h c hc).2⟩⟩
    · rintro ⟨hcomma, h⟩ c hc
      exact ⟨⟨⟨fun heq => hcomma (heq ▸ hc), (h c hc).1⟩, (h c hc).2.1⟩, (h c hc).2.2⟩
  rw [hsafe]
  by_cases hcomma : ',' ∈ email.toList
  · -- the pieces of the labels have no comma, so the email is not among them
    have huser := comma_not_mem_user (userLabels email)
    constructor
    · intro h
      dsimp only at h
      split_ifs at h
      have heq := congrArg (fun r => r.2.1) (Option.some.inj h)
      dsimp only at heq
      exact absurd hcomma (heq ▸ huser)
    · exact fun h => absurd hcomma h.1
  · rw [user_of_userLabels hcomma]
    constructor
    · intro h
      dsimp only at h
      split_ifs at h
      exact ⟨hcomma, plain_of_unquoteEnd (congrArg (fun r => r.2.1) (Option.some.inj h))⟩
    · rintro ⟨-, hplain⟩
      rw [unquoteEnd_of_plain hplain]
      dsimp only
      rw [if_neg hne]

end Metrics

/-- The config of an inbound is decoded as what was asked for exactly when the comment with its
tag stays a comment, the domain can be read, and no string of a usable account has a quote, a
backslash or one of the control characters of `%q`; and a line of the metrics gives back the
email of a usable account exactly when it has no comma, quote, backslash or line break. -/
theorem config_means_asked_iff (printable : Char → Bool) (disabled : String → Bool) (parseValue : List Char → Option ℤ)
    (i : InboundRow) (clients : List Client) (hemails : (clients.map (·.email)).Nodup) :
    (MeansAsked printable disabled i clients ↔
      StaysComment i clients ∧ (firstTlsDomain clients).toList.any unreadable = false ∧ PlainAccounts clients) ∧
    ∀ c ∈ clients, c.usable = true → ∀ (name value : List Char) (v : ℤ), '{' ∉ name → '}' ∉ value →
      parseValue (trimSet isSpace value) = some v →
      (parsePromUserMetric parseValue (metricLine name c.email value) = some (name, c.email.toList, v) ↔
        ∀ x ∈ c.email.toList, labelSafe x = true) := by
  refine ⟨meansAsked_iff printable disabled i clients hemails, fun c _ husable name value v hname hvalue hv => ?_⟩
  refine parsePromUserMetric_iff parseValue hname hvalue ?_ hv
  intro hempty
  have htrim := (of_decide_eq_true husable).1
  rw [hempty] at htrim
  exact htrim (by decide)

/-- Two accounts whose strings are plain. -/
def plainClients : List Client :=
  [{ email := "bob@example.org", secret := "0123456789abcdef0123456789abcdef", enable := true, modeClassic := false,
      modeSecure := true, modeTls := true, userLimit := some 3 },
    { email := "alice", secret := "00112233445566778899aabbccddeeff", enable := false, modeClassic := true,
      modeSecure := false, modeTls := false, adtagEnable := true, adtag := " 00ff " }]

theorem plainClients_mean_asked :
    MeansAsked (fun _ => true) (fun _ => false) ⟨3, 443, "inbound-443"⟩ plainClients ∧
      parsePromUserMetric (fun _ => some 7) (metricLine "octets".toList "alice" " 7".toList) =
        some ("octets".toList, "alice".toList, 7) := by
  have h := config_means_asked_iff (fun _ => true) (fun _ => false) (fun _ => some 7) ⟨3, 443, "inbound-443"⟩
    plainClients (by decide)
  have hdomain : (firstTlsDomain plainClients).toList.any unreadable = false := by
    rw [firstTlsDomain_default (by decide)]
    decide
  refine ⟨h.1.2 ⟨by unfold StaysComment; decide, hdomain, by unfold PlainAccounts; decide⟩, ?_⟩
  exact (h.2 plainClients[1] (by decide) (by decide) "octets".toList " 7".toList 7 (by decide) (by decide) rfl).2
    (List.all_eq_true.1 (by decide))

/-- The account is asked for as `a"b` and is in the config as `a\"b`; and usage of `a,b` is that of
`a`. -/
theorem quotedClient_not_asked :
    ¬ MeansAsked (fun _ => true) (fun _ => false) ⟨3, 443, "inbound-443"⟩
        [{ email := "a\"b", secret := "0123456789abcdef0123456789abcdef", enable := true, modeClassic := true,
            modeSecure := false, modeTls := false }] ∧
      parsePromUserMetric (fun _ => some 7) (metricLine "octets".toList "a,b" " 7".toList) =
        some ("octets".toList, "a".toList, 7) := by
  refine ⟨fun h => ?_, by decide⟩
  have hplain := ((meansAsked_iff _ _ _ _ (by decide)).1 h).2.2 _ List.mem_cons_self (by decide)
  exact absurd hplain.1 (by decide)

end Simorgh.Vpn.Mtproto
