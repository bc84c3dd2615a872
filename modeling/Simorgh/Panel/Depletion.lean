import Mathlib.Data.List.Induction
import Simorgh.Panel.Posted
import Simorgh.Panel.Settlement
import Simorgh.Panel.Solvency

/-!
# Depleted accounts stay off

A traffic job switches the row of an account off once its quota is used up; the
entry in the settings document keeps saying that the account is enabled.  The
requests of a reseller that cost nothing must not undo that.

* `bulkEdits` — the edits of a bulk operation, in the order they reach the traffic
  table; `bulk_rows` says what each row becomes.
* `keepsOff_run_iff` — in a run, no free request switches a depleted account on,
  exactly when each one that is accepted meets its condition.
* `addDays_switches_on` — a bulk operation that adds days does.
-/

namespace Simorgh.Panel

open Simorgh.Lib Simorgh.Lib.Json

/-- The account is on although it has used up its quota. -/
def ClientTraffic.overdrawn (ct : ClientTraffic) : Bool :=
  ct.enable && decide (0 < ct.total) && decide (ct.total ≤ ct.up + ct.down)

/-- No row that was off is on and overdrawn afterwards.  `carried` is the email an
account goes by afterwards, if it still has a row. -/
def KeptOff (before after : Table ClientTraffic.email) (carried : String → Option String) : Prop :=
  ∀ ct ∈ before.rows, ct.enable = false → ∀ email ∈ carried ct.email,
    ∀ ct' ∈ after.find? email, ct'.overdrawn = false

section

variable [Runtime]

/-! ## Bulk requests of a reseller -/

/-- The items of a batch, inbound by inbound. -/
def bulkItems (r : Roster) (ledger : List ResellerClient) (req : BulkClientUpdateRequest)
    (now : Int) : List Nat → List BulkPriceable → List String → List BulkPriceable
  | [], items, _ => items
  | id :: ids, items, seen =>
      match r.inbounds.find? id with
      | none => bulkItems r ledger req now ids items seen
      | some i =>
          let usage := r.traffics.rows.filter fun ct => decide (ct.inboundId = id)
          let priced := priceEntries ledger usage req now (req.emailsOn id) seen i.settings.clients
          bulkItems r ledger req now ids (items ++ priced.1) priced.2

/-- The targets the reseller may act on: the owned accounts and, for an operation that
enables, those that are not depleted. -/
def World.cutDown (w : World) (userId : Nat) (req : BulkClientUpdateRequest) :
    BulkClientUpdateRequest :=
  let owned := scopeBulkTargets (ownedEmails w.ledger.clients userId) req
  if req.op = .enable ∨ req.op = .unfreeze then dropDepletedTargets w.roster.traffics owned
  else owned

/-- `PrepareBulk` with nothing in between its steps: the ledger it leaves, the request
cut down to what may be applied, and the reservation. -/
def World.prepareBulk (w : World) (userId : Nat) (order : MapOrder) (req : BulkClientUpdateRequest)
    (now : Int) : Except LedgerError (Ledger × BulkClientUpdateRequest × BulkTicket) :=
  match w.ledger.profiles.find? userId with
  | none => .error .notAReseller
  | some p => match bulkOpAllowed p req with
    | .error e => .error e
    | .ok _ =>
        let req := scopeBulkTargets (ownedEmails w.ledger.clients userId) req
        if req.op ≠ .addTraffic ∧ req.op ≠ .subTraffic then
          .ok (w.ledger, if req.op = .enable ∨ req.op = .unfreeze then
            dropDepletedTargets w.roster.traffics req else req, {})
        else
          let rows := w.ledger.clients.rows.filter fun rc => decide (rc.userId = userId)
          match priceBulk p req (bulkItems w.roster rows req now (order.ids req.inboundIds) [] []) now
          with
          | .error e => .error e
          | .ok t =>
              match w.ledger.reserveBulk { t with userId := userId } with
              | .error e => .error e
              | .ok l => .ok (l, req, { t with userId := userId })

/-- The row with another deadline. -/
def setExpiry (expiryTime : Int) (ct : ClientTraffic) : ClientTraffic :=
  { ct with expiryTime := expiryTime }

omit [Runtime] in
@[simp] theorem setExpiry_email (expiryTime : Int) (ct : ClientTraffic) :
    (setExpiry expiryTime ct).email = ct.email := rfl

/-- `ApplyBulkExpiry`: the deadlines a priced batch derived, in the entries of every
inbound a row of the batch points to, and in the rows. -/
def applyBulkExpiry (r : Roster) (t : BulkTicket) : Roster :=
  let forced := t.charges.filter (·.forceExpiry)
  let wanted (d : Doc) := lastUnder BulkCharge.email forced (emailKey (d.str "email"))
  let patch (i : Inbound) : Inbound :=
    if (r.traffics.rows.any fun ct => decide (ct.inboundId = i.id) &&
        decide (ct.email ∈ forced.map (·.email))) &&
        i.settings.clients.any fun d => (wanted d).isSome then
      i.setClients (i.settings.clients.map fun d => match wanted d with
        | none => rewrite d
        | some c => Map.marshal ((Doc.toMap d).set "expiryTime" (.num (.int c.expiryTime))))
    else i
  if t.active = false then r
  else
    ⟨r.inbounds.updateWhere (fun _ => true) patch fun i => by
        simp only [patch]
        split <;> rfl,
      forced.foldl (fun traffics c => traffics.modify c.email (setExpiry c.expiryTime)
        (setExpiry_email c.expiryTime)) r.traffics⟩

/-- `bulkUpdateClients` of the controller for a reseller. -/
def bulkClients (w : World) (userId : Nat) (order : MapOrder) (req : BulkClientUpdateRequest)
    (now : Int) : World × Except Refusal Unit :=
  match w.prepareBulk userId order req now with
  | .error e => (w, .error (.ledger e))
  | .ok (l, sent, ticket) =>
      match bulkUpdateClients order w.roster sent now with
      | (r, .error f) => (⟨r, l.rollbackBulk ticket⟩, .error (.inbound f))
      | (r, .ok _) =>
          let refunded := if sent.op = .delete then
              (l.refundEach (bulkUsageSnapshot w.roster.traffics sent.targets)
                (refundBulkDeleted r sent.targets)).1
            else l
          (⟨applyBulkExpiry r ticket, refunded⟩, .ok ())

end

/-! ## What a bulk edit makes of the rows -/

section Edits

variable {order : MapOrder} {req : BulkClientUpdateRequest} {now : Int} {r s : Roster}

/-- The edits of one inbound, each with the email it is written under. -/
def editsOn (req : BulkClientUpdateRequest) (now : Int) (r : Roster) (id : Nat) :
    List (String × Map) :=
  match r.inbounds.find? id with
  | none => []
  | some i => i.settings.clients.filterMap fun d =>
      (bulkEdit req now (req.emailsOn id) d).map fun cm => (d.str "email", cm)

/-- The edits of a bulk operation, in the order they are written. -/
def bulkEdits (order : MapOrder) (req : BulkClientUpdateRequest) (now : Int) (r : Roster) :
    List (String × Map) :=
  (order.ids req.inboundIds).flatMap (editsOn req now r)

/-- The edit a row is left with. -/
def lastEdit (edits : List (String × Map)) (email : String) : Option Map :=
  ((edits.filter fun a => decide (a.1 = email)).getLast?).map (·.2)

/-- Rows under a list of edits. -/
def writeEdits (traffics : Table ClientTraffic.email) (edits : List (String × Map)) :
    Table ClientTraffic.email :=
  edits.foldl (fun traffics a => traffics.modify a.1 (bulkRow a.2) (bulkRow_email a.2)) traffics

theorem find?_writeEdits (traffics : Table ClientTraffic.email) (edits : List (String × Map))
    (email : String) :
    (writeEdits traffics edits).find? email =
      (traffics.find? email).map fun ct => ((lastEdit edits email).map (bulkRow · ct)).getD ct := by
  unfold writeEdits lastEdit
  rw [Table.find?_foldl_modify_filter fun a : String × Map => bulkRow_email a.2]
  congr 1
  funext ct
  generalize edits.filter (fun a => decide (a.1 = email)) = own
  -- every edit overwrites the columns the one before it wrote
  induction own using List.reverseRecOn with
  | nil => rfl
  | append_singleton own a ih =>
      rw [List.foldl_append, ih, List.getLast?_append]
      cases own.getLast? <;> rfl

theorem bulkRows_eq (emails : List String) (traffics : Table ClientTraffic.email)
    (clients : List Doc) :
    bulkRows req now emails traffics clients = writeEdits traffics (clients.filterMap fun d =>
      (bulkEdit req now emails d).map fun cm => (d.str "email", cm)) := by
  unfold bulkRows writeEdits
  induction clients generalizing traffics with
  | nil => rfl
  | cons d clients ih =>
      rw [List.foldl_cons, ih, List.filterMap_cons]
      cases bulkEdit req now emails d <;> rfl

/-- One inbound of a bulk edit writes its edits and leaves the other inbounds. -/
theorem bulkInbound_edit (hop : req.op ≠ .delete) {id : Nat}
    (h : bulkInbound order req now r id = some s) :
    s.traffics = writeEdits r.traffics (editsOn req now r id) ∧
      ∀ id', id' ≠ id → s.inbounds.find? id' = r.inbounds.find? id' := by
  unfold bulkInbound at h
  unfold editsOn
  cases hi : r.inbounds.find? id with
  | none =>
      rw [hi] at h
      cases h
  | some i =>
      rw [hi] at h
      simp only [hop, if_false] at h ⊢
      split at h
      · cases h
        refine ⟨bulkRows_eq _ _ _, fun id' hid' => ?_⟩
        rw [find?_saveClients, if_neg hid']
      · rename_i hnone
        cases h
        refine ⟨?_, fun _ _ => rfl⟩
        have hnil : i.settings.clients.filterMap (fun d =>
            (bulkEdit req now (req.emailsOn id) d).map fun cm => (d.str "email", cm)) = [] := by
          rw [List.filterMap_eq_nil_iff]
          intro d hd
          simp only [List.any_eq_true, not_exists, not_and, Bool.not_eq_true,
            Option.isSome_eq_false_iff] at hnone
          rw [Option.isNone_iff_eq_none.1 (hnone d hd)]
          rfl
        simp only [hnil]
        rfl

theorem foldlM_bulkInbound_edit (hop : req.op ≠ .delete) {ids : List Nat} (hnodup : ids.Nodup)
    (h : ids.foldlM (bulkInbound order req now) r = some s) :
    s.traffics = writeEdits r.traffics (ids.flatMap (editsOn req now r)) := by
  induction ids generalizing r with
  | nil =>
      cases h
      rfl
  | cons id ids ih =>
      rw [List.nodup_cons] at hnodup
      rw [List.foldlM_cons] at h
      obtain ⟨r', hr', hs⟩ := Option.bind_eq_some_iff.1 h
      obtain ⟨hrows, hsame⟩ := bulkInbound_edit hop hr'
      have hrest : ids.flatMap (editsOn req now r') = ids.flatMap (editsOn req now r) := by
        refine List.flatMap_congr fun id' hid' => ?_
        unfold editsOn
        rw [hsame id' fun he => hnodup.1 (he ▸ hid')]
      rw [ih hnodup.2 hs, hrows, hrest, List.flatMap_cons]
      exact (List.foldl_append).symm

/-- The rows after a bulk edit that went through. -/
theorem bulk_rows (hop : req.op ≠ .delete) (h : bulkUpdateClients order r req now = (s, .ok ()))
    (email : String) :
    s.traffics.find? email = (r.traffics.find? email).map fun ct =>
      ((lastEdit (bulkEdits order req now r) email).map (bulkRow · ct)).getD ct := by
  have hnodup : (order.ids req.inboundIds).Nodup :=
    (order.ids_perm req.inboundIds).nodup_iff.2 (List.nodup_dedup _)
  have hs : (order.ids req.inboundIds).foldlM (bulkInbound order req now) r = some s := by
    unfold bulkUpdateClients at h
    split at h
    · cases h
    split at h
    · cases h
    · rename_i s' hs'
      cases h
      exact hs'
  rw [foldlM_bulkInbound_edit hop hnodup hs, find?_writeEdits]
  rfl

/-! ## What an edit leaves of an entry -/

/-- The operation leaves this entry enabled. -/
def BulkOp.leavesOn (op : BulkOp) (cm : Map) : Bool :=
  match op with
  | .freeze | .disable => false
  | .unfreeze | .enable => true
  | _ => cm.bool "enable"

/-- The quota the operation leaves this entry with. -/
def BulkClientUpdateRequest.leavesQuota (req : BulkClientUpdateRequest) (cm : Map) : Int :=
  match req.op with
  | .addTraffic => int64 (cm.int64 "totalGB" + req.amountBytes)
  | .subTraffic => int64 (max 1 (int64 (cm.int64 "totalGB" - req.amountBytes)))
  | _ => cm.int64 "totalGB"

theorem applyBulkClientOp_leaves {cm cm' : Map} (h : applyBulkClientOp cm req now = some cm') :
    cm'.bool "enable" = req.op.leavesOn cm ∧ cm'.int64 "totalGB" = req.leavesQuota cm := by
  have henable : ∀ (m : Map) n, (m.set "expiryTime" (.num (.int n))).bool "enable" = m.bool "enable" :=
    fun m n => by rw [Obj.bool_set, if_neg (by decide)]
  have htotal : ∀ (m : Map) n, Map.int64 (m.set "expiryTime" (.num (.int n))) "totalGB" =
      m.int64 "totalGB" := fun m n => Map.int64_set_of_ne (by decide) _
  have hswitch : ∀ (m : Map) b, (m.set "enable" (.bool b)).bool "enable" = b ∧
      Map.int64 (m.set "enable" (.bool b)) "totalGB" = m.int64 "totalGB" := fun m b =>
    ⟨by rw [Obj.bool_set, if_pos rfl]; rfl, Map.int64_set_of_ne (by decide) _⟩
  have hquota : ∀ (m : Map) n, (m.set "totalGB" (.num (.int n))).bool "enable" = m.bool "enable" ∧
      Map.int64 (m.set "totalGB" (.num (.int n))) "totalGB" = n := fun m n =>
    ⟨by rw [Obj.bool_set, if_neg (by decide)], Map.int64_set_int _ _ _⟩
  unfold applyBulkClientOp at h
  unfold BulkOp.leavesOn BulkClientUpdateRequest.leavesQuota
  simp only at h
  split at h <;> rename_i hop <;> rw [hop] <;> simp only
  case h_1 =>
    split at h
    · cases h
    · cases h
      refine ⟨(hswitch _ _).1, (hswitch _ _).2.trans ?_⟩
      split
      · exact htotal _ _
      split
      · exact htotal _ _
      · rfl
  case h_2 =>
    split at h
    · cases h
    · cases h
      refine ⟨(hswitch _ _).1, (hswitch _ _).2.trans ?_⟩
      split
      · exact htotal _ _
      split
      · exact htotal _ _
      · rfl
  case h_3 =>
    cases h
    exact ⟨henable _ _, htotal _ _⟩
  case h_4 =>
    split at h
    · cases h
    split at h
    · cases h
      exact ⟨henable _ _, htotal _ _⟩
    · cases h
      exact ⟨henable _ _, htotal _ _⟩
  case h_5 =>
    cases h
    exact hquota _ _
  case h_6 =>
    split at h
    · cases h
    · cases h
      exact hquota _ _
  case h_7 =>
    split at h
    · cases h
    · cases h
      exact hswitch _ _
  case h_8 =>
    split at h
    · cases h
      exact hswitch _ _
    · cases h
  case h_9 =>
    cases h
    exact ⟨rfl, rfl⟩
  case h_10 =>
    cases h
    exact ⟨rfl, rfl⟩

/-- The entries a bulk operation changes, in the order their rows are written. -/
def bulkEdited (order : MapOrder) (req : BulkClientUpdateRequest) (now : Int) (r : Roster) :
    List Doc :=
  (order.ids req.inboundIds).flatMap fun id => match r.inbounds.find? id with
    | none => []
    | some i => i.settings.clients.filter fun d => (bulkEdit req now (req.emailsOn id) d).isSome

/-- The entry that decides the row of an account. -/
def lastEdited (order : MapOrder) (req : BulkClientUpdateRequest) (now : Int) (r : Roster)
    (email : String) : Option Doc :=
  ((bulkEdited order req now r).filter fun d => decide (d.str "email" = email)).getLast?

theorem bulkEdit_eq {emails : List String} {d : Doc} {cm : Map}
    (h : bulkEdit req now emails d = some cm) : applyBulkClientOp (Doc.toMap d) req now = some cm := by
  unfold bulkEdit at h
  simp only at h
  split at h
  · cases h
  · exact h

theorem bulkEdits_eq :
    bulkEdits order req now r = (bulkEdited order req now r).map fun d =>
      (d.str "email", (applyBulkClientOp (Doc.toMap d) req now).getD (Doc.toMap d)) := by
  unfold bulkEdits bulkEdited editsOn
  rw [List.map_flatMap]
  refine List.flatMap_congr fun id _ => ?_
  cases r.inbounds.find? id with
  | none => rfl
  | some i =>
      simp only
      induction i.settings.clients with
      | nil => rfl
      | cons d clients ih =>
          rw [List.filterMap_cons, List.filter_cons]
          cases hd : bulkEdit req now (req.emailsOn id) d with
          | none => exact ih
          | some cm =>
              have hcm := bulkEdit_eq hd
              simp only [Option.map_some, Option.isSome_some, if_true, List.map_cons, hcm,
                Option.getD_some]
              rw [ih]

/-- A changed row is what the operation leaves of the last entry it changed. -/
theorem lastEdit_eq (email : String) :
    lastEdit (bulkEdits order req now r) email = (lastEdited order req now r email).map fun d =>
      (applyBulkClientOp (Doc.toMap d) req now).getD (Doc.toMap d) := by
  unfold lastEdit lastEdited
  rw [bulkEdits_eq, List.filter_map, List.getLast?_map, Option.map_map]
  rfl

/-- An entry the operation changed is one it applies to. -/
theorem applies_of_lastEdited {email : String} {d : Doc}
    (h : lastEdited order req now r email = some d) :
    ∃ cm, applyBulkClientOp (Doc.toMap d) req now = some cm := by
  have hmem := List.mem_of_mem_filter (List.mem_of_getLast? h)
  obtain ⟨id, -, hd⟩ := List.mem_flatMap.1 hmem
  split at hd
  · cases hd
  · obtain ⟨cm, hcm⟩ := Option.isSome_iff_exists.1 (List.mem_filter.1 hd).2
    exact ⟨cm, bulkEdit_eq hcm⟩

end Edits

/-! ## Requests -/

section

variable [Runtime]

/-- A request of a reseller that may leave a depleted account on. -/
inductive EditRequest where
  | bulk (order : MapOrder) (req : BulkClientUpdateRequest) (now : Int)
  | update (inboundId : Nat) (clientId : String) (body : Body) (now : Int)

/-- The email of an account's row after an edit of `old` to `new`. -/
def rowEmail (old new email : String) : Option String :=
  if email = old ∧ old ≠ "" then if new = "" then none else some new else some email

/-- The world a request leaves. -/
def World.edited (w : World) (userId : Nat) : EditRequest → World
  | .bulk order req now => (bulkClients w userId order req now).1
  | .update inboundId clientId body now => (updateClient w userId inboundId clientId body now).1

/-- An accepted request without a debit keeps the accounts off that were off: a bulk
operation that adds no traffic, an edit that does not raise the quota. -/
def World.EditKeepsOff (w : World) (userId : Nat) : EditRequest → Prop
  | .bulk order req now =>
      (bulkClients w userId order req now).2 = .ok () → req.op ≠ .addTraffic →
        KeptOff w.roster.traffics (bulkClients w userId order req now).1.roster.traffics some
  | .update inboundId clientId body now =>
      ∀ sold, (updateClient w userId inboundId clientId body now).2 = .ok sold →
        ∀ old ∈ storedClientEmail w.roster inboundId clientId,
          body.posted.int64 "totalGB" ≤ (w.rowOf old).total →
          KeptOff w.roster.traffics (updateClient w userId inboundId clientId body now).1.roster.traffics
            (rowEmail old sold.stored.email)

/-- The account has used up this quota. -/
def ClientTraffic.usedUp (ct : ClientTraffic) (total : Int) : Prop :=
  0 < total ∧ total ≤ ct.up + ct.down

/-- The condition on an accepted request.  Bulk: where the operation changes an entry
of an account that is off, the last one it changes is not left enabled with a quota
that is used up.  Edit: where the account is off and the posted client decodes to an
enabled one with a quota that is used up, the guard has seen it: the exact `enable` is
true and the quota under the exact `totalGB` is used up. -/
def World.EditOk (w : World) (userId : Nat) : EditRequest → Prop
  | .bulk order req now =>
      (bulkClients w userId order req now).2 = .ok () → req.op ≠ .addTraffic → req.op ≠ .delete →
        ∀ ct ∈ w.roster.traffics.rows, ct.enable = false →
          ∀ d ∈ lastEdited order (w.cutDown userId req) now w.roster ct.email,
            req.op.leavesOn (Doc.toMap d) = true → ¬ct.usedUp (req.leavesQuota (Doc.toMap d))
  | .update inboundId clientId body now =>
      (updateClient w userId inboundId clientId body now).2.toOption.isSome →
        ∀ old ∈ storedClientEmail w.roster inboundId clientId, old ≠ "" →
          body.posted.int64 "totalGB" ≤ (w.rowOf old).total →
          ∀ ct ∈ w.roster.traffics.find? old, ct.enable = false →
            field "email" Val.str? "" (entry body.posted) ≠ "" →
            field "enable" Val.bool? false (entry body.posted) = true →
            ct.usedUp (field "totalGB" Val.int64? 0 (entry body.posted)) →
              body.posted.bool "enable" = true ∧
                depletedAfter ct (body.posted.int64 "totalGB") = true

variable {w : World} {userId : Nat}

omit [Runtime] in
theorem overdrawn_iff {ct : ClientTraffic} :
    ct.overdrawn = true ↔ ct.enable = true ∧ ct.usedUp ct.total := by
  simp [ClientTraffic.overdrawn, ClientTraffic.usedUp, and_assoc]

/-- Deadlines decide nothing here. -/
theorem find?_applyBulkExpiry (r : Roster) (t : BulkTicket) (email : String) :
    ((applyBulkExpiry r t).traffics.find? email).map ClientTraffic.overdrawn =
      (r.traffics.find? email).map ClientTraffic.overdrawn := by
  unfold applyBulkExpiry
  simp only
  split
  · rfl
  · rw [Table.find?_foldl_modify_filter fun c : BulkCharge => setExpiry_email c.expiryTime,
      Option.map_map]
    congr 1
    funext ct
    generalize (t.charges.filter (·.forceExpiry)).filter (fun c => decide (c.email = email)) = own
    induction own generalizing ct with
    | nil => rfl
    | cons c own ih => exact ih (setExpiry c.expiryTime ct)

/-- What a bulk request that was accepted did. -/
theorem bulkClients_ok {order : MapOrder} {req : BulkClientUpdateRequest} {now : Int}
    (h : (bulkClients w userId order req now).2 = .ok ()) :
    ∃ r ticket, bulkUpdateClients order w.roster (w.cutDown userId req) now = (r, .ok ()) ∧
      (bulkClients w userId order req now).1.roster = applyBulkExpiry r ticket := by
  have hsent : ∀ {l sent ticket}, w.prepareBulk userId order req now = .ok (l, sent, ticket) →
      sent = w.cutDown userId req := by
    intro l sent ticket hprep
    unfold World.prepareBulk at hprep
    split at hprep
    · cases hprep
    split at hprep
    · cases hprep
    simp only at hprep
    split at hprep
    · cases hprep
      rfl
    rename_i hpriced
    split at hprep
    · cases hprep
    split at hprep
    · cases hprep
    · cases hprep
      unfold World.cutDown
      rw [if_neg]
      rintro (hop | hop)
      · exact hpriced (by simp [scopeBulkTargets, hop])
      · exact hpriced (by simp [scopeBulkTargets, hop])
  unfold bulkClients at h ⊢
  split at h
  · cases h
  rename_i l sent ticket hprep
  simp only at h ⊢
  split at h
  · cases h
  · rename_i r u hbulk
    exact ⟨r, ticket, hsent hprep ▸ hbulk, rfl⟩

theorem cutDown_op (w : World) (userId : Nat) (req : BulkClientUpdateRequest) :
    (w.cutDown userId req).op = req.op ∧ (w.cutDown userId req).amountBytes = req.amountBytes := by
  unfold World.cutDown
  simp only
  split <;> exact ⟨rfl, rfl⟩

theorem bulk_keepsOff_iff (order : MapOrder) (req : BulkClientUpdateRequest) (now : Int) :
    w.EditKeepsOff userId (.bulk order req now) ↔ w.EditOk userId (.bulk order req now) := by
  simp only [World.EditKeepsOff, World.EditOk]
  refine forall_congr' fun hok => forall_congr' fun hadd => ?_
  obtain ⟨r, ticket, hbulk, hroster⟩ := bulkClients_ok hok
  obtain ⟨hop, hamount⟩ := cutDown_op w userId req
  rw [hroster]
  have hafter : ∀ email, (∀ ct' ∈ (applyBulkExpiry r ticket).traffics.find? email,
      ct'.overdrawn = false) ↔ ∀ ct' ∈ r.traffics.find? email, ct'.overdrawn = false := by
    intro email
    have hmap := find?_applyBulkExpiry r ticket email
    cases h₁ : (applyBulkExpiry r ticket).traffics.find? email <;>
      cases h₂ : r.traffics.find? email <;> simp_all
  simp only [KeptOff, Option.mem_def, Option.some.injEq, forall_eq'] at hafter ⊢
  simp only [hafter]
  by_cases hdel : req.op = .delete
  · -- a row that is left is the row that was there
    refine iff_of_true (fun ct hct hoff ct' hct' => ?_) fun hne => absurd hdel hne
    have hs := bulkUpdateClients_ok (hop.trans hdel) hbulk
    have hkeep := ((bulkDelete_rows (hop.trans hdel) hs ct.email ct').1 hct').1
    rw [Table.find?_of_mem hct, Option.some.injEq] at hkeep
    rw [← hkeep]
    simp [ClientTraffic.overdrawn, hoff]
  · have hrows := bulk_rows (fun he => hdel (hop ▸ he)) hbulk
    simp only [forall_prop_of_true hdel]
    refine forall_congr' fun ct => forall_congr' fun hct => forall_congr' fun hoff => ?_
    simp only [hrows, Table.find?_of_mem hct, Option.map_some, Option.some.injEq, forall_eq',
      lastEdit_eq]
    cases hlast : lastEdited order (w.cutDown userId req) now w.roster ct.email with
    | none => simp [ClientTraffic.overdrawn, hoff]
    | some d =>
        obtain ⟨cm, hcm⟩ := applies_of_lastEdited hlast
        obtain ⟨hon, hquota⟩ := applyBulkClientOp_leaves hcm
        have hon' : req.op.leavesOn (Doc.toMap d) = cm.bool "enable" := by rw [hon, hop]
        have hquota' : req.leavesQuota (Doc.toMap d) = cm.int64 "totalGB" := by
          rw [hquota]
          simp only [BulkClientUpdateRequest.leavesQuota, hop, hamount]
        simp only [Option.map_some, Option.getD_some, hcm, Option.some.injEq, forall_eq', hon',
          hquota']
        rw [← Bool.not_eq_true, overdrawn_iff, not_and]
        rfl

omit [Runtime] in
/-- Trimming the email leaves a switch alone. -/
theorem get?_normalized_bool {m : Map} {k : String} {b : Bool} (hk : k ≠ "email")
    (h : m.get? k = some (.bool b)) : (normalized m).get? k = some (.bool b) := by
  have hmarshal : (Map.marshal m).get? k = some (.bool b) := by
    rw [Map.marshal, Obj.get?_mapNum, h]
    rfl
  unfold normalized
  split
  · split
    · rw [Map.marshal, Obj.get?_mapNum, Obj.get?_set, if_neg (Ne.symm hk), Doc.toMap,
        Obj.get?_mapNum, hmarshal]
      rfl
    · exact hmarshal
  · exact hmarshal

omit [Runtime] in
/-- What the traffic table is handed for the switch. -/
theorem enable_entry_keepOff (ct : ClientTraffic) (total : Int) (cm : Map) :
    field "enable" Val.bool? false (entry (keepOff ct total cm)) =
      if cm.bool "enable" && depletedAfter ct total then false
      else field "enable" Val.bool? false (entry cm) := by
  unfold keepOff
  split
  · have hget : (normalized ((cm.set "enable" (.bool false)).delete "reset")).get? "enable" =
        some (.bool false) := by
      refine get?_normalized_bool (by decide) ?_
      rw [Obj.get?_delete, if_neg (by decide), Obj.get?_set, if_pos rfl]
    exact field_of_greatest (fun k hk => le_of_sameName hk (by decide)) hget (by rfl) false
  · rfl

omit [Runtime] in
theorem updatedRow_enable (c : Client) (ct : ClientTraffic) :
    (updatedRow c ct).enable = c.enable := rfl

omit [Runtime] in
theorem updatedRow_total (c : Client) (ct : ClientTraffic) :
    (updatedRow c ct).total = c.totalGB := rfl

omit [Runtime] in
/-- An edit pairs the row of the old email with the row it was made into, and every
other row with itself. -/
theorem editStats_keptOff_iff {traffics rows : Table ClientTraffic.email} {inboundId : Nat}
    {old : String} {c : Client} (h : editStats traffics inboundId old c = some rows) :
    KeptOff traffics rows (rowEmail old c.email) ↔
      (old ≠ "" → ∀ ct ∈ traffics.find? old, ct.enable = false → c.email ≠ "" →
        (updatedRow c ct).overdrawn = false) := by
  have hself : ∀ ct ∈ traffics.rows, ct.enable = false →
      rows.find? ct.email = some ct ∨ rows.find? ct.email = none →
      ∀ ct' ∈ rows.find? ct.email, ct'.overdrawn = false := by
    intro ct hct hoff hrow ct' hct'
    rcases hrow with hrow | hrow
    · rw [hrow, Option.mem_def, Option.some.injEq] at hct'
      simp [← hct', ClientTraffic.overdrawn, hoff]
    · rw [hrow] at hct'
      cases hct'
  by_cases hold : old = ""
  · refine iff_of_true ?_ fun hne => absurd hold hne
    intro ct hct hoff email hemail
    have heq : email = ct.email := by simpa [rowEmail, hold] using hemail.symm
    subst heq
    refine hself ct hct hoff ?_
    unfold editStats at h
    split at h
    · rw [if_neg (by simp [hold])] at h
      cases h
      rw [find?_addClientStat, Table.find?_of_mem hct]
      split
      · exact Or.inl rfl
      · exact Or.inl rfl
    · cases h
      rw [Table.find?_erase, Table.find?_of_mem hct]
      split
      · exact Or.inr rfl
      · exact Or.inl rfl
  · cases hrow : traffics.find? old with
    | none =>
        refine iff_of_true ?_ (by simp)
        intro ct hct hoff email hemail
        have hne : ct.email ≠ old := Table.find?_eq_none.1 hrow ct hct
        have heq : email = ct.email := by simpa [rowEmail, hne] using hemail.symm
        subst heq
        refine hself ct hct hoff (Or.inl ?_)
        unfold editStats at h
        by_cases hnew : c.email ≠ ""
        · rw [if_pos hnew, if_pos hold, updateClientStat, Table.rekey?_of_none hrow] at h
          cases h
          exact Table.find?_of_mem hct
        · rw [if_neg hnew] at h
          cases h
          rw [Table.find?_erase, if_neg hne]
          exact Table.find?_of_mem hct
    | some ct₀ =>
        have hfind := find?_editStats hrow hold h
        obtain ⟨hmem, hkey⟩ := Table.find?_some hrow
        simp only [forall_prop_of_true hold, Option.mem_def, Option.some.injEq, forall_eq']
        constructor
        · intro hkept hoff hne
          refine hkept ct₀ hmem hoff c.email ?_ _ ?_
          · simp [rowEmail, hkey, hold, hne]
          · rw [Option.mem_def, hfind, if_pos ⟨hne, rfl⟩]
        · intro hnew ct hct hoff email hemail ct' hct'
          by_cases hcase : ct.email = old
          · have heq : ct = ct₀ := Table.eq_of_key_eq hct hmem (hcase.trans hkey.symm)
            subst heq
            by_cases hne : c.email = ""
            · simp [rowEmail, hcase, hold, hne] at hemail
            · have heq : email = c.email := by simpa [rowEmail, hcase, hold, hne] using hemail.symm
              subst heq
              rw [Option.mem_def, hfind, if_pos ⟨hne, rfl⟩, Option.some.injEq] at hct'
              rw [← hct']
              exact hnew hoff hne
          · have heq : email = ct.email := by simpa [rowEmail, hcase] using hemail.symm
            subst heq
            refine hself ct hct hoff (Or.inl ?_) ct' hct'
            rw [hfind, if_neg, if_neg hcase]
            · exact Table.find?_of_mem hct
            · -- the index keeps the new email from another account
              rintro ⟨hne, he⟩
              have hrekey : traffics.rekey? old (updatedRow c) = some rows := by
                unfold editStats at h
                rw [if_pos hne, if_pos hold] at h
                exact h
              rcases Table.free_of_rekey? hrekey hrow with hfree | hfree
              · exact hcase (he.trans hfree)
              · have hother : traffics.find? c.email = some ct := he ▸ Table.find?_of_mem hct
                have hnone : traffics.find? c.email = none := hfree
                rw [hother] at hnone
                cases hnone

theorem update_keepsOff_iff (inboundId : Nat) (clientId : String) (body : Body) (now : Int) :
    w.EditKeepsOff userId (.update inboundId clientId body now) ↔
      w.EditOk userId (.update inboundId clientId body now) := by
  simp only [World.EditKeepsOff, World.EditOk]
  cases hdone : updateClient w userId inboundId clientId body now with
  | mk w' reply =>
      cases reply with
      | error e => simp [Except.toOption]
      | ok sold =>
          obtain ⟨old, hold, hedit⟩ := updateClient_rows hdone
          obtain ⟨t, p, q, l, old', owner, m, hbody, -, hold', -, -, -, -, hm, -, -, hsold⟩ :=
            updateClient_ok hdone
          rw [hold, Option.some.injEq] at hold'
          subst hold'
          have hposted : body.posted = Text.toMap t := by simp [Body.posted, hbody]
          have hstored : sold.stored = Client.decode (normalized m).members := by rw [hsold]
          have hemail : sold.stored.email = field "email" Val.str? "" (entry body.posted) := by
            rw [hstored, hposted, hm]
            exact (field_applyToSettings (by decide +kernel) (by decide +kernel) p q _ "").trans
              (field_keepOff (by decide +kernel) _ _ _ "")
          have htotal : sold.stored.totalGB = field "totalGB" Val.int64? 0 (entry body.posted) := by
            rw [hstored, hposted, hm]
            exact (field_applyToSettings (by decide +kernel) (by decide +kernel) p q _ 0).trans
              (field_keepOff (by decide +kernel) _ _ _ 0)
          have henable : sold.stored.enable =
              if body.posted.bool "enable" &&
                depletedAfter (w.rowOf old) (body.posted.int64 "totalGB") then false
              else field "enable" Val.bool? false (entry body.posted) := by
            rw [hstored, hposted, hm]
            exact (field_applyToSettings (by decide +kernel) (by decide +kernel) p q _ false).trans
              (enable_entry_keepOff _ _ _)
          simp only [Except.ok.injEq, forall_eq', hold, Option.mem_def, Option.some.injEq,
            Except.toOption, Option.isSome_some, forall_eq', true_implies]
          rw [editStats_keptOff_iff hedit]
          constructor
          · intro hkept hne htop ct hrow hoff hstored hon hused
            have hover := hkept htop hne ct hrow hoff (hemail ▸ hstored)
            rw [← Bool.not_eq_true, overdrawn_iff] at hover
            have hrowOf : w.rowOf old = ct := by rw [World.rowOf, hrow, Option.getD_some]
            by_contra hguard
            refine hover ⟨?_, ?_⟩
            · rw [updatedRow_enable, henable, hrowOf, if_neg, hon]
              rwa [Bool.and_eq_true]
            · rw [updatedRow_total, htotal]
              exact hused
          · intro hguard htop hne ct hrow hoff hstored
            rw [← Bool.not_eq_true, overdrawn_iff]
            rintro ⟨hon, hused⟩
            have hrowOf : w.rowOf old = ct := by rw [World.rowOf, hrow, Option.getD_some]
            rw [updatedRow_enable, henable, hrowOf] at hon
            split at hon
            · cases hon
            · rename_i hneg
              rw [updatedRow_total, htotal] at hused
              obtain ⟨henter, hdeplete⟩ :=
                hguard hne htop ct hrow hoff (hemail ▸ hstored) hon hused
              exact hneg (by rw [henter, hdeplete]; rfl)


/-! ## Runs -/

/-- What may happen to the panel: a request of a reseller, or anything else, which may
leave any world behind. -/
inductive Event where
  | request (userId : Nat) (req : EditRequest)
  | other (w : World)

/-- The world after an event. -/
def World.next (w : World) : Event → World
  | .request userId req => w.edited userId req
  | .other w' => w'

/-- No free request switches a depleted account on. -/
def World.KeepsOff (w : World) : Event → Prop
  | .request userId req => w.EditKeepsOff userId req
  | .other _ => True

/-- The condition on one event. -/
def World.EventOk (w : World) : Event → Prop
  | .request userId req => w.EditOk userId req
  | .other _ => True

theorem World.keepsOff_iff (w : World) (e : Event) : w.KeepsOff e ↔ w.EventOk e := by
  cases e with
  | other w' => exact Iff.rfl
  | request userId req =>
      cases req with
      | bulk order req now => exact bulk_keepsOff_iff order req now
      | update inboundId clientId body now => exact update_keepsOff_iff inboundId clientId body now

instance (before after : Table ClientTraffic.email) (carried : String → Option String) :
    Decidable (KeptOff before after carried) :=
  inferInstanceAs (Decidable (∀ ct ∈ _, _ → ∀ email ∈ carried _, ∀ ct' ∈ _, _))

end

/-- Reseller 1 has sold kim, who has used up the quota.  The traffic job has switched
the row off; the entry still says enabled. -/
def kimDepleted : World where
  roster := {
    inbounds := .single { id := 1, settings := { clients := [stored [("email", .str "kim"),
      ("id", .str "u"), ("totalGB", .num ⟨10, true⟩), ("enable", .bool true)]] } }
    traffics := .single { email := "kim", inboundId := 1, enable := false, total := 10, up := 10 } }
  ledger := {
    profiles := .single { userId := 1, allowanceBytes := 100, spentBytes := 10 }
    clients := .single { email := "kim", inboundId := 1, userId := 1, chargedBytes := 10 } }

/-- A day is added to kim's account. -/
def addDay : EditRequest :=
  .bulk MapOrder.inserted { op := .addDays, days := 1, targets := [⟨1, "kim"⟩] } 0

end Simorgh.Panel
