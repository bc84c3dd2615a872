import Mathlib.Data.List.Dedup
import Simorgh.Panel.Inbounds

/-!
# Bulk client operations and the sweep of depleted accounts

`bulkUpdateClients` applies one operation to many clients, inbound by inbound,
inside one transaction; the order a Go map is walked in is an argument
(`MapOrder`).  `delDepletedClientsScoped` removes every depleted account, of all
owners or of one reseller.
-/

namespace Simorgh.Panel

open Simorgh.Lib Simorgh.Lib.Json

/-- An order to walk a map's keys in: any rearrangement, and the host chooses. -/
structure MapOrder where
  ids : List Nat → List Nat
  ids_perm : ∀ l, (ids l).Perm l
  emails : List String → List String
  emails_perm : ∀ l, (emails l).Perm l

/-- Walk the keys in the order they were inserted. -/
def MapOrder.inserted : MapOrder where
  ids := id
  ids_perm _ := List.Perm.refl _
  emails := id
  emails_perm _ := List.Perm.refl _

/-- An account in an inbound. -/
structure BulkClientTarget where
  inboundId : Nat
  email : String
  deriving DecidableEq, Repr

/-- The bulk operations. -/
inductive BulkOp where
  | addDays | subDays | addTraffic | subTraffic | enable | disable | delete | freeze | unfreeze
  | unknown (name : String)
  deriving DecidableEq, Repr

/-- A bulk request as posted. -/
structure BulkClientUpdateRequest where
  op : BulkOp
  days : Int := 0
  amountBytes : Int := 0
  skipFirstUse : Bool := false
  skipUnlimited : Bool := false
  skipDisabled : Bool := false
  targets : List BulkClientTarget := []
  deriving DecidableEq, Repr

/-- Milliseconds of a day. -/
def bulkMsPerDay : Int := 86400000

/-- The mark a frozen account without an expiry carries. -/
def frozenNoExpiry : Int := -1

/-- The client is excluded by the request's skip toggles. -/
def bulkClientSkipped (cm : Map) (req : BulkClientUpdateRequest) : Bool :=
  let expiry := cm.int64 "expiryTime"
  let total := cm.int64 "totalGB"
  let unlimited : Bool := match req.op with
    | .addDays | .subDays => decide (expiry = 0)
    | _ => decide (total = 0)
  (req.skipFirstUse && decide (expiry < 0)) || (req.skipDisabled && !cm.bool "enable") ||
    (req.skipUnlimited && unlimited)

/-- One client's map after the operation; nothing when the operation is a no-op
for it. -/
def applyBulkClientOp (cm : Map) (req : BulkClientUpdateRequest) (now : Int) : Option Map :=
  let expiry := cm.int64 "expiryTime"
  let total := cm.int64 "totalGB"
  let enable := cm.bool "enable"
  let int (n : Int) : Val Json.Num := .num (.int (int64 n))
  match req.op with
  | .freeze =>
      if enable = false ∧ expiry < 0 then none
      else
        let cm :=
          if 0 < expiry then cm.set "expiryTime" (int (now - expiry))
          else if expiry = 0 then cm.set "expiryTime" (int frozenNoExpiry)
          else cm
        some (cm.set "enable" (.bool false))
  | .unfreeze =>
      if enable then none
      else
        let cm :=
          if expiry = frozenNoExpiry then cm.set "expiryTime" (int 0)
          else if expiry < 0 then cm.set "expiryTime" (int (now - expiry))
          else cm
        some (cm.set "enable" (.bool true))
  | .addDays =>
      let ms := int64 (req.days * bulkMsPerDay)
      let expiry :=
        if 0 < expiry then expiry + ms else if expiry < 0 then expiry - ms else now + ms
      some (cm.set "expiryTime" (int expiry))
  | .subDays =>
      let ms := int64 (req.days * bulkMsPerDay)
      if expiry = 0 then none
      else if 0 < expiry then some (cm.set "expiryTime" (int (expiry - ms)))
      else some (cm.set "expiryTime" (int (min 0 (int64 (expiry + ms)))))
  | .addTraffic => some (cm.set "totalGB" (int (total + req.amountBytes)))
  | .subTraffic =>
      if total ≤ 0 then none
      else some (cm.set "totalGB" (int (max 1 (int64 (total - req.amountBytes)))))
  | .enable => if enable then none else some (cm.set "enable" (.bool true))
  | .disable => if enable then some (cm.set "enable" (.bool false)) else none
  | .delete | .unknown _ => some cm

/-- The emails the request targets on one inbound. -/
def BulkClientUpdateRequest.emailsOn (req : BulkClientUpdateRequest) (inboundId : Nat) :
    List String :=
  (req.targets.filter fun t => decide (t.email ≠ "") && decide (t.inboundId = inboundId)).map (·.email)

/-- The inbounds the request targets, each once. -/
def BulkClientUpdateRequest.inboundIds (req : BulkClientUpdateRequest) : List Nat :=
  ((req.targets.filter fun t => decide (t.email ≠ "")).map (·.inboundId)).dedup

/-- The row of a client after a bulk edit: the enforcement columns are rewritten
from the entry, whatever the operation was.  A member that is not a boolean is
read back as false. -/
def bulkRow (cm : Map) (ct : ClientTraffic) : ClientTraffic :=
  { ct with enable := cm.bool "enable", total := cm.int64 "totalGB",
            expiryTime := cm.int64 "expiryTime" }

@[simp] theorem bulkRow_email (cm : Map) (ct : ClientTraffic) : (bulkRow cm ct).email = ct.email := rfl

/-- One entry under an operation other than delete: its map when the operation
applies to it. -/
def bulkEdit (req : BulkClientUpdateRequest) (now : Int) (emails : List String) (d : Doc) :
    Option Map :=
  let cm := Doc.toMap d
  if d.str "email" = "" ∨ d.str "email" ∉ emails ∨ bulkClientSkipped cm req = true then none
  else applyBulkClientOp cm req now

/-- The entry as it is written back. -/
def bulkEntry (req : BulkClientUpdateRequest) (now : Int) (emails : List String) (d : Doc) : Doc :=
  match bulkEdit req now emails d with
  | none => rewrite d
  | some cm => Map.marshal cm

/-- The rows after the edits of one inbound, in entry order. -/
def bulkRows (req : BulkClientUpdateRequest) (now : Int) (emails : List String)
    (traffics : Table ClientTraffic.email) (clients : List Doc) : Table ClientTraffic.email :=
  clients.foldl (fun traffics d =>
    match bulkEdit req now emails d with
    | none => traffics
    | some cm => traffics.modify (d.str "email") (bulkRow cm) (bulkRow_email cm)) traffics

/-- The emails a bulk delete takes off one inbound.  An inbound is never emptied:
when every client is targeted one is kept back. -/
def bulkDeleted (order : MapOrder) (req : BulkClientUpdateRequest) (emails : List String)
    (clients : List Doc) : List String :=
  let hit (d : Doc) : Bool :=
    decide (d.str "email" ≠ "") && decide (d.str "email" ∈ emails) &&
      !bulkClientSkipped (Doc.toMap d) req
  let del := ((clients.filter hit).map (·.str "email")).dedup
  if clients.length ≠ 0 ∧ clients.length ≤ del.length then (order.emails del).tail else del

/-- One inbound of a bulk operation; nothing when the inbound is not found. -/
def bulkInbound (order : MapOrder) (req : BulkClientUpdateRequest) (now : Int) (r : Roster)
    (id : Nat) : Option Roster :=
  match r.inbounds.find? id with
  | none => none
  | some i =>
      let clients := i.settings.clients
      let emails := req.emailsOn id
      if req.op = .delete then
        let del := bulkDeleted order req emails clients
        if clients.any fun d => decide (d.str "email" ∈ del) then
          let kept := clients.filter fun d => decide (d.str "email" ∉ del)
          some ⟨saveClients r.inbounds id (kept.map rewrite), del.foldl Table.erase r.traffics⟩
        else some r
      else if clients.any fun d => (bulkEdit req now emails d).isSome then
        some ⟨saveClients r.inbounds id (clients.map (bulkEntry req now emails)),
          bulkRows req now emails r.traffics clients⟩
      else some r

/-- `BulkUpdateClients`: one transaction over all targeted inbounds. -/
def bulkUpdateClients (order : MapOrder) (r : Roster) (req : BulkClientUpdateRequest) (now : Int) :
    Roster × Reply :=
  match req.op with
  | .unknown name => (r, newError "unknown bulk operation:" name)
  | _ =>
      match (order.ids req.inboundIds).foldlM (bulkInbound order req now) r with
      | none => (r, .error (.refused "record not found"))
      | some r' => (r', .ok ())

/-! ## Depleted accounts -/

/-- The account has spent its quota or passed its deadline. -/
def ClientTraffic.depleted (ct : ClientTraffic) (now : Int) : Bool :=
  (decide (0 < ct.total) && decide (ct.total ≤ ct.up + ct.down)) ||
    (decide (0 < ct.expiryTime) && decide (ct.expiryTime ≤ now))

/-- The rows a sweep of inbound `id` selects; a negative id sweeps them all. -/
def sweepable (id now : Int) (ct : ClientTraffic) : Bool :=
  decide (ct.reset = 0) && decide (if id < 0 then id < ct.inboundId else ct.inboundId = id) &&
    ct.depleted now

/-- `strings.Split(GROUP_CONCAT(email), ",")`. -/
def splitConcat (emails : List String) : List String :=
  ((List.intercalate [','] (emails.map String.toList)).splitOn ',').map String.ofList

/-- A sweep under way: the roster other connections see, the roster inside the
transaction, whether the transaction has written, and the emails taken. -/
structure Sweep where
  outside : Roster
  inside : Roster
  wrote : Bool := false
  deleted : List String := []

section

variable [Runtime]

/-- A reseller's own accounts, by `emailKey`. -/
abbrev OwnedEmails := List String

/-- The reseller has sold the account. -/
def resellerOwnsEmail (owned : OwnedEmails) (email : String) : Bool := decide (emailKey email ∈ owned)

/-- The inbounds a sweep visits, in the order of the grouping. -/
def sweepIds (traffics : Table ClientTraffic.email) (id now : Int) : List Nat :=
  ((traffics.rows.filter (sweepable id now)).map (·.inboundId)).dedup.mergeSort

/-- The emails a sweep takes off one inbound: the depleted ones, or only the
reseller's own. -/
def sweptEmails (traffics : Table ClientTraffic.email) (id now : Int) (only : Option OwnedEmails)
    (inboundId : Nat) : List String :=
  let depleted := traffics.rows.filter fun ct =>
    sweepable id now ct && decide (ct.inboundId = inboundId)
  (splitConcat (depleted.map (·.email))).filter fun e => only.all (resellerOwnsEmail · e)

/-- The entries a sweep of these emails leaves. -/
def sweepKept (emails : List String) (i : Inbound) : List Doc :=
  i.settings.clients.filter fun d => decide (d.str "email" ∉ emails)

/-- One inbound of the sweep.  An emptied inbound is deleted through another
connection, which the transaction's own lock refuses once it has written; the
refusal is ignored. -/
def sweepInbound (id now : Int) (only : Option OwnedEmails) (s : Sweep) (inboundId : Nat) :
    Except Roster Sweep :=
  let emails := sweptEmails s.outside.traffics id now only inboundId
  if emails = [] then .ok s
  else match s.outside.inbounds.find? inboundId with
    | none => .error s.outside
    | some i =>
        if sweepKept emails i = [] ∧ only = none then
          if s.wrote then .ok { s with deleted := s.deleted ++ emails }
          else
            .ok { outside := delInbound s.outside inboundId, inside := delInbound s.inside inboundId,
                  deleted := s.deleted ++ emails }
        else
          .ok { s with
            inside := { s.inside with
              inbounds := saveClients s.inside.inbounds inboundId ((sweepKept emails i).map rewrite) }
            wrote := true
            deleted := s.deleted ++ emails }

/-- `DelDepletedClientsScoped`.  Without `only` every owner's depleted accounts go. -/
def delDepletedClientsScoped (r : Roster) (id now : Int) (only : Option OwnedEmails) :
    Roster × Except Fault (List String) :=
  match (sweepIds r.traffics id now).foldlM (sweepInbound id now only) ⟨r, r, false, []⟩ with
  | .error r' => (r', .error (.refused "record not found"))
  | .ok s =>
      let gone (ct : ClientTraffic) : Bool :=
        sweepable id now ct && (only.isNone || decide (ct.email ∈ s.deleted))
      ({ s.inside with traffics := s.inside.traffics.deleteWhere gone }, .ok s.deleted)

end

end Simorgh.Panel
