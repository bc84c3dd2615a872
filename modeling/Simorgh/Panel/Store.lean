import Mathlib.Data.Rat.Floor
import Simorgh.Panel.Inbounds

/-!
# The database, with every column a tick or an edit writes

The roster leaves out the counters of an inbound and the addresses seen per
account.  Here they are, since a whole row is what the program reads and saves.

* `Db.roster` — the roster inside the database.
* `saveInbounds`, `saveRows` — a save of loaded rows.
-/

namespace Simorgh.Panel

open Simorgh.Lib Simorgh.Lib.Json

/-- One row of `inbounds`.  A multiplier that is not finite is `none`. -/
structure InboundRow where
  base : Inbound
  up : Int := 0
  down : Int := 0
  total : Int := 0
  allTime : Int := 0
  expiryTime : Int := 0
  multiplierEnable : Bool := false
  multiplierAfter : Int := 0
  multiplier : Option ℚ := some 1
  deriving DecidableEq

/-- The id of a row. -/
def InboundRow.id (i : InboundRow) : Nat := i.base.id

/-- One row of `inbound_client_ips`. -/
structure ClientIps where
  email : String
  ips : String
  deriving DecidableEq

/-- The tables a tick works on. -/
structure Db where
  inbounds : Table InboundRow.id
  traffics : Table ClientTraffic.email
  clientIps : Table ClientIps.email := Table.empty

/-- The roster inside the database. -/
def Db.roster (db : Db) : Roster where
  inbounds := ⟨db.inbounds.rows.map InboundRow.base, by
    rw [List.map_map]
    exact db.inbounds.unique⟩
  traffics := db.traffics

theorem find?_roster (db : Db) (id : Nat) :
    db.roster.inbounds.find? id = (db.inbounds.find? id).map InboundRow.base := by
  simp only [Table.find?, Db.roster, List.find?_map]
  rfl

/-! ## Saving loaded rows -/

/-- The row written over the one with its id. -/
def InboundRow.over (i old : InboundRow) : InboundRow :=
  { i with base := { i.base with id := old.base.id } }

theorem InboundRow.over_id (i old : InboundRow) : (i.over old).id = old.id := rfl

theorem InboundRow.over_self {i old : InboundRow} (h : i.id = old.id) : i.over old = i := by
  obtain ⟨⟨id, tag, protocol, enable, settings⟩, up, down, total, allTime, expiryTime, _, _, _⟩ := i
  have hid : id = old.base.id := h
  simp [InboundRow.over, hid]

/-- `Save` of loaded inbounds.  Each is written over the row under its id. -/
def saveInbounds (inbounds : Table InboundRow.id) (loaded : List InboundRow) : Table InboundRow.id :=
  loaded.foldl (fun t i => t.modify i.id i.over (InboundRow.over_id i)) inbounds

/-- The row written over the one with its email. -/
def ClientTraffic.over (ct old : ClientTraffic) : ClientTraffic := { ct with email := old.email }

theorem ClientTraffic.over_email (ct old : ClientTraffic) : (ct.over old).email = old.email := rfl

/-- `Save` of loaded traffic rows. -/
def saveRows (traffics : Table ClientTraffic.email) (loaded : List ClientTraffic) :
    Table ClientTraffic.email :=
  loaded.foldl (fun t ct => t.modify ct.email ct.over (ClientTraffic.over_email ct)) traffics

end Simorgh.Panel
