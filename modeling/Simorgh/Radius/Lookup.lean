import Simorgh.Panel.Inbounds

/-!
# Who is dialling

The RADIUS server knows an account by the user name of a dial: the `id` or the
`email` of a client entry.  Three lookups resolve it, each with its own decoder
of the settings document and its own scope.

* `lookupClientEntry` — the entry whose password is checked, on one inbound.
* `lookupEmail` — the email accounting is attributed to, over every inbound of the
  protocol.
* `findClientInbound` — the inbound of a dial that names only its protocol.
-/

namespace Simorgh.Radius

open Simorgh.Lib Simorgh.Lib.Json Simorgh.Panel

/-! ## Typed decoding -/

/-- What a string field takes. -/
def isText : Val Lit → Bool
  | .str _ | .null => true
  | _ => false

/-- What a boolean field takes. -/
def isSwitch : Val Lit → Bool
  | .bool _ | .null => true
  | _ => false

/-- What an integer field takes. -/
def isInteger : Val Lit → Bool
  | .num l => l.int64?.isSome
  | .null => true
  | _ => false

/-- Every member taken for a field of this name has its type. -/
def typed (name : String) (takes : Val Lit → Bool) (d : Doc) : Bool :=
  d.members.all fun a => !sameName a.1 name || takes a.2

/-- The decoders fail as a whole on one member of the wrong type. -/
def parsesAs (fields : List (String × (Val Lit → Bool))) (i : Inbound) : Bool :=
  i.settings.clients.all fun d => fields.all fun f => typed f.1 f.2 d

/-- The struct that checks a password. -/
def passwordFields : List (String × (Val Lit → Bool)) :=
  [("id", isText), ("password", isText), ("email", isText), ("enable", isSwitch)]

/-- The struct that finds an inbound. -/
def nameFields : List (String × (Val Lit → Bool)) := [("id", isText), ("email", isText)]

/-- The struct that attributes traffic. -/
def slotFields : List (String × (Val Lit → Bool)) :=
  [("id", isText), ("email", isText), ("slot", isInteger)]

/-! ## The lookups -/

/-- The user name is the entry's `id` or its `email`. -/
def named (username : String) (c : Client) : Bool :=
  decide (c.id = username) || decide (c.email = username)

/-- The first entry of an inbound under a user name. -/
def entryNamed (i : Inbound) (username : String) : Option Client :=
  (getClients i).find? (named username)

/-- `findClientInbound`: the first enabled inbound of the protocol that lists the name. -/
def findClientInbound (r : Roster) (p : Protocol) (username : String) : Option Inbound :=
  r.inbounds.rows.find? fun i => decide (i.protocol = p) && i.enable && parsesAs nameFields i &&
    (entryNamed i username).isSome

/-- The inbound a dial is on: the one its NAS names, or the first that lists the name. -/
def dialledInbound (r : Roster) (p : Protocol) (inboundId : Int) (username : String) :
    Option Inbound :=
  if 0 < inboundId then r.inbounds.find? inboundId.toNat else findClientInbound r p username

/-- Why a dial is refused before its password is looked at. -/
inductive LookupError where
  | noInbound
  | inboundDisabled
  | protocolMismatch
  | unparsable
  | clientDisabled
  | trafficLimit
  | notFound
  deriving DecidableEq, Repr

/-- The traffic row of the account is switched off. -/
def switchedOff (r : Roster) (email : String) : Bool :=
  decide (email ≠ "") && (r.traffics.find? email).any fun ct => !ct.enable

/-- The entry `lookupClient` takes the password from. -/
def lookupClientEntry (r : Roster) (p : Protocol) (inboundId : Int) (username : String) :
    Except LookupError Client :=
  match dialledInbound r p inboundId username with
  | none => .error .noInbound
  | some i =>
      if i.enable = false then .error .inboundDisabled
      else if i.protocol ≠ p then .error .protocolMismatch
      else if parsesAs passwordFields i = false then .error .unparsable
      else match entryNamed i username with
        | none => .error .notFound
        | some c =>
            if c.enable = false then .error .clientDisabled
            else if switchedOff r c.email then .error .trafficLimit
            else .ok c

/-- `lookupClient`. -/
def lookupClient (r : Roster) (p : Protocol) (inboundId : Int) (username : String) :
    Except LookupError String :=
  (lookupClientEntry r p inboundId username).map (·.password)

/-- `lookupEmail`: the first entry under the name on any inbound of the protocol. -/
def lookupEmail (r : Roster) (p : Protocol) (username : String) : String :=
  ((r.inbounds.rows.findSome? fun i =>
    if decide (i.protocol = p) && parsesAs slotFields i then entryNamed i username else none).map
      (·.email)).getD ""

end Simorgh.Radius
