import Simorgh.Lib.Json
import Simorgh.Lib.Table

/-!
# The panel's stored data

An inbound keeps its customers in a settings document, one JSON object per
client; the traffic table keeps one row per email across all inbounds.  A client
entry is stored as the document it is, since it is read by two decoders that need
not agree: `Client.decode` is the struct one, `Doc.toMap` the map one.

Members that no modelled function reads (timestamps, pool slots, comments) are
carried along in the entry's text and are not stamped by the model.
-/

namespace Simorgh.Panel

open Simorgh.Lib Simorgh.Lib.Json

/-! ## Text -/

/-- What the host decides about text: Unicode's lower-case mapping, a
representative of each character's simple-folding orbit, and how the SQL driver
renders a number.  On ASCII both mappings are the usual ones. -/
class Runtime where
  toLower : Char → Char
  toLower_ascii : ∀ c : Char, c.val < 128 → toLower c = c.toLower
  simpleFold : Char → Char
  simpleFold_ascii : ∀ c : Char, c.val < 128 → simpleFold c = c.toLower
  numText : ℚ → String

/-- Only ASCII letters have a case. -/
@[reducible] def Runtime.ascii : Runtime where
  toLower := Char.toLower
  toLower_ascii _ _ := rfl
  simpleFold := Char.toLower
  simpleFold_ascii _ _ := rfl
  numText q := toString q.num

/-- The white space `strings.TrimSpace` removes. -/
def isSpace (c : Char) : Bool :=
  let n := c.toNat
  (9 ≤ n && n ≤ 13) || n == 0x20 || n == 0x85 || n == 0xA0 || n == 0x1680 ||
    (0x2000 ≤ n && n ≤ 0x200A) || n == 0x2028 || n == 0x2029 || n == 0x202F || n == 0x205F ||
    n == 0x3000

theorem isSpace_of_isDigit {c : Char} (h : c.isDigit = true) : isSpace c = false := by
  have hrange : 48 ≤ c.toNat ∧ c.toNat ≤ 57 := by
    simpa [Char.isDigit, UInt32.le_iff_toNat_le] using h
  unfold isSpace
  simp only [Bool.or_eq_false_iff, Bool.and_eq_false_iff, decide_eq_false_iff_not, beq_eq_false_iff_ne]
  omega

/-- `strings.TrimSpace`. -/
def trimSpace (s : String) : String :=
  String.ofList ((s.toList.dropWhile isSpace).reverse.dropWhile isSpace).reverse

theorem dropWhile_of_initial {l l' : List Char} (h : l' <+: l.dropWhile isSpace) :
    l'.dropWhile isSpace = l' := by
  cases l' with
  | nil => rfl
  | cons c l' =>
      obtain ⟨rest, hrest⟩ := h
      have hc : isSpace c = false := by
        have hne : l.dropWhile isSpace ≠ [] := by simp [← hrest]
        have hhead := List.head_dropWhile_not isSpace hne
        simpa [← hrest] using hhead
      simp [hc]

theorem trimSpace_idem (s : String) : trimSpace (trimSpace s) = trimSpace s := by
  have hpre : ((s.toList.dropWhile isSpace).reverse.dropWhile isSpace).reverse <+:
      s.toList.dropWhile isSpace := by
    have hsuffix := List.dropWhile_suffix (l := (s.toList.dropWhile isSpace).reverse) isSpace
    simpa using List.reverse_prefix.2 hsuffix
  have hright : ((s.toList.dropWhile isSpace).reverse.dropWhile isSpace).dropWhile isSpace =
      (s.toList.dropWhile isSpace).reverse.dropWhile isSpace :=
    dropWhile_of_initial (List.prefix_refl _)
  simp only [trimSpace, String.toList_ofList]
  rw [dropWhile_of_initial hpre, List.reverse_reverse, hright]

section Text

variable [Runtime]

/-- `strings.ToLower`. -/
def toLower (s : String) : String := String.ofList (s.toList.map Runtime.toLower)

/-- The case- and space-insensitive identity of an account. -/
def emailKey (email : String) : String := toLower (trimSpace email)

/-- `strings.EqualFold`. -/
def equalFold (a b : String) : Bool :=
  decide (a.toList.map Runtime.simpleFold = b.toList.map Runtime.simpleFold)

/-- Emails are compared without blanks and case. -/
def sameEmail (a b : String) : Bool := equalFold (trimSpace a) (trimSpace b)

/-- `COALESCE(JSON_EXTRACT(entry, '$.k'), '')` as the driver scans it into a string. -/
def jsonExtract (d : Doc) (k : String) : String :=
  match d.get? k with
  | some (.str s) => s
  | some (.num l) => Runtime.numText l.value
  | some (.bool b) => if b then "1" else "0"
  | some (.other s) => s
  | some .null => ""
  | none => ""

end Text

/-! ## Clients and inbounds -/

/-- `model.Client` as the struct decoder fills it. -/
structure Client where
  id : String := ""
  password : String := ""
  auth : String := ""
  username : String := ""
  email : String := ""
  subId : String := ""
  totalGB : Int := 0
  expiryTime : Int := 0
  enable : Bool := false
  reset : Int := 0
  deriving DecidableEq, Repr

/-- The struct decoder.  A member of the wrong type leaves its field alone, and
the error that makes is ignored by every caller modelled here. -/
def Client.decode (t : Text) : Client where
  id := field "id" Val.str? "" t
  password := field "password" Val.str? "" t
  auth := field "auth" Val.str? "" t
  username := field "username" Val.str? "" t
  email := field "email" Val.str? "" t
  subId := field "subId" Val.str? "" t
  totalGB := field "totalGB" Val.int64? 0 t
  expiryTime := field "expiryTime" Val.int64? 0 t
  enable := field "enable" Val.bool? false t
  reset := field "reset" Val.int64? 0 t

/-- The protocols of an inbound. -/
inductive Protocol where
  | vmess | vless | tunnel | http | trojan | shadowsocks | mixed | wireguard
  | l2tp | pptp | openvpn | openconnect | sstp | ikev2 | wgc | awg | gre
  | mtproto | ssh | anytls | tuic | naive | hysteria | hysteria2
  deriving DecidableEq, Repr

/-- The settings document: its client entries, the Shadowsocks cipher and the
IKEv2 authentication mode. -/
structure Settings where
  clients : List Doc := []
  method : Option String := none
  authMode : String := ""
  deriving DecidableEq

/-- An inbound with its settings. -/
structure Inbound where
  id : Nat
  tag : String := ""
  protocol : Protocol := .vless
  enable : Bool := true
  settings : Settings := {}
  deriving DecidableEq

/-- `GetClients`: the struct decoding of every entry. -/
def getClients (inbound : Inbound) : List Client :=
  inbound.settings.clients.map fun d => Client.decode d.members

/-- The email the struct decoder finds in an entry. -/
def entryEmail (d : Doc) : String := (Client.decode d.members).email

/-- Every spelling of `email` sorts before the exact one. -/
theorem email_greatest (k : String) (h : sameName k "email" = true) : k ≤ "email" :=
  le_of_sameName h (by decide)

/-- A string under the exact key is the email. -/
theorem entryEmail_of_get? {d : Doc} {e : String} (h : d.get? "email" = some (.str e)) :
    entryEmail d = e :=
  field_of_greatest email_greatest h (by rfl) ""

/-- One row of `client_traffics`. -/
structure ClientTraffic where
  email : String
  inboundId : Nat
  enable : Bool := true
  up : Int := 0
  down : Int := 0
  allTime : Int := 0
  expiryTime : Int := 0
  total : Int := 0
  reset : Int := 0
  deriving DecidableEq, Repr

/-- The two stores client operations write: settings documents, one per inbound,
and the traffic table under its unique email index. -/
structure Roster where
  inbounds : Table Inbound.id
  traffics : Table ClientTraffic.email

/-! ## Identity -/

/-- The member a protocol's clients are identified by. -/
def clientIdentityKey : Protocol → String
  | .trojan | .l2tp | .pptp | .openvpn | .openconnect | .sstp | .ikev2 => "password"
  | .anytls | .naive => "password"
  | .shadowsocks => "email"
  | .hysteria | .hysteria2 => "auth"
  | _ => "id"

/-- What a protocol knows a client by. -/
def clientIdentity (p : Protocol) (c : Client) : String :=
  match p with
  | .trojan | .l2tp | .pptp | .openvpn | .openconnect | .sstp | .ikev2 => c.password
  | .anytls | .naive => c.password
  | .shadowsocks => c.email
  | .hysteria | .hysteria2 => c.auth
  | _ => c.id

end Simorgh.Panel
