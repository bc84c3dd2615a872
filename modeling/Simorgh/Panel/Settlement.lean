import Mathlib.Data.List.Infix
import Simorgh.Lib.Run
import Simorgh.Panel.Listing
import Simorgh.Panel.Requests

/-!
# Settling deleted accounts

Deleting an account a reseller sold has two halves: the inbound service takes the
account off, and the handler that asked for it credits the unused part and drops
the ownership row.  Every delete path repeats snapshot, delete and refund in its
own way.

* `Roster.stands`, with one `takes` per path, is what is left on the inbounds; the
  accounts a path settles are a list of its own.
* `settles_run_iff` — a run of deletes settles every account it takes away and
  refunds none that is left exactly when each step meets its condition.
* `admin_sweep_unsettled` — an administrator's sweep settles nothing.
-/

namespace Simorgh.Panel

open Simorgh.Lib Simorgh.Lib.Json

/-- Who is logged in. -/
inductive Actor where
  | admin
  | reseller (userId : Nat)
  deriving DecidableEq, Repr

/-- What `DeleteReseller` does with the accounts of the reseller. -/
inductive DeleteMode where
  | keep | cascade
  | other (name : String)
  deriving DecidableEq, Repr

/-! ## Refunds -/

namespace Ledger

/-- What a refund of this account credits; an unknown usage withholds it. -/
def credit (l : Ledger) (email : String) (usage : Option Int) : Int :=
  match l.clients.find? email, usage with
  | some owner, some used => refundOf owner used
  | _, _ => 0

/-- `RefundDeleted` for each account in turn, and what each was credited. -/
def refundEach (l : Ledger) (usage : String → Option Int) :
    List String → Ledger × List (String × Int)
  | [] => (l, [])
  | email :: emails =>
      let rest := (l.refundDeleted email ((usage email).getD 0) (usage email).isSome).refundEach
        usage emails
      (rest.1, (email, l.credit email (usage email)) :: rest.2)

end Ledger

section

variable [Runtime]

/-- `UsageSnapshot`: the all-time counts of some accounts, by identity. -/
def usageSnapshot (traffics : Table ClientTraffic.email) (emails : List String) (email : String) :
    Option Int :=
  (lastUnder ClientTraffic.email (traffics.rows.filter fun ct => decide (ct.email ∈ emails))
    (emailKey email)).map (·.allTime)

/-- `BulkUsageSnapshot`: the same for all accounts of the targeted inbounds. -/
def bulkUsageSnapshot (traffics : Table ClientTraffic.email) (targets : List BulkClientTarget)
    (email : String) : Option Int :=
  let ids := (targets.filter fun t => decide (t.email ≠ "")).map (·.inboundId)
  (lastUnder ClientTraffic.email (traffics.rows.filter fun ct => decide (ct.inboundId ∈ ids))
    (emailKey email)).map (·.allTime)

/-- The accounts a bulk delete settles: the targets whose inbound is there and lists
no spelling of the email any more. -/
def refundBulkDeleted (r : Roster) (targets : List BulkClientTarget) : List String :=
  (targets.filter fun t => decide (t.email ≠ "") && match r.inbounds.find? t.inboundId with
    | none => false
    | some i => (getClients i).all fun c => decide (emailKey c.email ≠ emailKey t.email)).map (·.email)

/-! ## The delete paths -/

/-- The one email that answers to a client id; none when two do. -/
def emailOf (clientId : String) (found : String) : List Client → String
  | [] => found
  | c :: cs =>
      if c.id ≠ clientId ∧ c.password ≠ clientId ∧ c.email ≠ clientId ∧ c.auth ≠ clientId then
        emailOf clientId found cs
      else if found ≠ "" ∧ found ≠ c.email then ""
      else emailOf clientId c.email cs

/-- The email of a client of an inbound. -/
def clientEmailOnInbound (r : Roster) (inboundId : Nat) (clientId : String) : String :=
  match r.inbounds.find? inboundId with
  | none => ""
  | some i => if clientId = "" then "" else emailOf clientId "" (getClients i)

/-- The caller may change the account. -/
def callerMayTouchClient (l : Ledger) (email : String) : Actor → Bool
  | .admin => true
  | .reseller userId =>
      decide (email ≠ "") && (l.clients.find? email).any fun rc => decide (rc.userId = userId)

/-- `refundDeletedClient`, which passes over an empty email. -/
def refundable (emails : List String) : List String := emails.filter fun e => decide (e ≠ "")

/-- Settle some accounts in the ledger of a roster that has already changed. -/
def World.refund (w : World) (r : Roster) (usage : String → Option Int) (emails : List String) :
    World × List (String × Int) :=
  let refunded := w.ledger.refundEach usage emails
  (⟨r, refunded.1⟩, refunded.2)

/-- `delInboundClient` and `delInboundClientByEmail` of the controller. -/
def World.delOne (w : World) (actor : Actor) (email : String) (del : Roster × Reply) :
    World × List (String × Int) :=
  if callerMayTouchClient w.ledger email actor = false then (w, [])
  else match del with
    | (r, .error _) => (⟨r, w.ledger⟩, [])
    | (r, .ok _) => w.refund r (usageSnapshot w.roster.traffics [email]) (refundable [email])

/-- The request a bulk delete is carried out for: a reseller's is cut down to the
reseller's own accounts, or refused. -/
def World.bulkRequest (w : World) (req : BulkClientUpdateRequest) :
    Actor → Option BulkClientUpdateRequest
  | .admin => some req
  | .reseller userId =>
      match w.ledger.profiles.find? userId with
      | none => none
      | some p => match bulkOpAllowed p req with
        | .error _ => none
        | .ok _ => some (scopeBulkTargets (ownedEmails w.ledger.clients userId) req)

/-- `bulkUpdateClients` of the controller, for a delete. -/
def World.delBulk (w : World) (actor : Actor) (order : MapOrder) (req : BulkClientUpdateRequest)
    (now : Int) : World × List (String × Int) :=
  match w.bulkRequest { req with op := .delete } actor with
  | none => (w, [])
  | some req => match bulkUpdateClients order w.roster req now with
    | (r, .error _) => (⟨r, w.ledger⟩, [])
    | (r, .ok _) => w.refund r (bulkUsageSnapshot w.roster.traffics req.targets)
        (refundBulkDeleted r req.targets)

/-- `delDepletedClients` of the controller.  Only a reseller's sweep is settled. -/
def World.delDepleted (w : World) (id now : Int) : Actor → World × List (String × Int)
  | .admin => (⟨(delDepletedClientsScoped w.roster id now none).1, w.ledger⟩, [])
  | .reseller userId =>
      let owned := ownedEmails w.ledger.clients userId
      match delDepletedClientsScoped w.roster id now (some owned) with
      | (r, .error _) => (⟨r, w.ledger⟩, [])
      | (r, .ok deleted) => w.refund r (usageSnapshot w.roster.traffics owned) (refundable deleted)

/-- `delInbound` of the controller: `DropInbound` settles the accounts that were
created on it. -/
def World.delInbound (w : World) (id : Nat) : World × List (String × Int) :=
  let owned := (w.ledger.clients.rows.filter fun rc => decide (rc.inboundId = id)).map (·.email)
  if (w.roster.inbounds.find? id).isNone then (⟨Panel.delInbound w.roster id, w.ledger⟩, [])
  else w.refund (Panel.delInbound w.roster id) (usageSnapshot w.roster.traffics owned) owned

/-- `strings.Contains`. -/
def contains (s sub : String) : Bool := decide (sub.toList <:+: s.toList)

/-- One account of a cascade, and whether the cascade goes on. -/
def World.cascadeOne (w : World) (rc : ResellerClient) : World × Bool :=
  let dropped : World := ⟨w.roster, w.ledger.dropClient rc.email⟩
  if (w.roster.inbounds.find? rc.inboundId).isNone then (dropped, true)
  else match delInboundClientByEmail w.roster rc.inboundId rc.email with
    | (r, .ok _) => (⟨r, w.ledger.dropClient rc.email⟩, true)
    | (_, .error (.refused text)) =>
        if contains text "no client remained" ∨ contains text "not found" then (dropped, true)
        else (w, false)
    | (_, .error .panicked) => (w, false)

/-- The accounts are deleted one by one. -/
def World.cascadeClients (w : World) : List ResellerClient → World × Bool
  | [] => (w, true)
  | rc :: rows =>
      match w.cascadeOne rc with
      | (w', true) => w'.cascadeClients rows
      | (w', false) => (w', false)

/-- The reseller's profile is removed. -/
def World.dropReseller (w : World) (userId : Nat) : World :=
  ⟨w.roster, { w.ledger with profiles := w.ledger.profiles.erase userId }⟩

/-- `DeleteReseller`. -/
def World.deleteReseller (w : World) (userId : Nat) (mode : DeleteMode) : World :=
  if (w.ledger.profiles.find? userId).isNone then w
  else
    let rows := w.ledger.clients.rows.filter fun rc => decide (rc.userId = userId)
    if rows = [] then w.dropReseller userId
    else match mode with
      | .keep =>
          World.dropReseller ⟨w.roster, { w.ledger with
            clients := w.ledger.clients.deleteWhere fun rc => decide (rc.userId = userId) }⟩ userId
      | .cascade =>
          match w.cascadeClients rows with
          | (w', true) => w'.dropReseller userId
          | (w', false) => w'
      | .other _ => w

/-- A delete as a request makes it. -/
inductive DeleteOp where
  | client (actor : Actor) (inboundId : Nat) (clientId : String)
  | byEmail (actor : Actor) (inboundId : Nat) (email : String)
  | bulk (actor : Actor) (order : MapOrder) (req : BulkClientUpdateRequest) (now : Int)
  | depleted (actor : Actor) (id now : Int)
  | inbound (id : Nat)
  | reseller (userId : Nat) (mode : DeleteMode)

/-- What a delete leaves, and the refunds it credited. -/
def World.delete (w : World) : DeleteOp → World × List (String × Int)
  | .client actor inboundId clientId =>
      w.delOne actor (clientEmailOnInbound w.roster inboundId clientId)
        (delInboundClient w.roster inboundId clientId)
  | .byEmail actor inboundId email =>
      w.delOne actor email (delInboundClientByEmail w.roster inboundId email)
  | .bulk actor order req now => w.delBulk actor order req now
  | .depleted actor id now => w.delDepleted id now actor
  | .inbound id => w.delInbound id
  | .reseller userId mode => (w.deleteReseller userId mode, [])

/-! ## What a delete must leave -/

/-- Every account the ledger knows stands on some inbound. -/
def World.Housed (w : World) : Prop := ∀ rc ∈ w.ledger.clients.rows, w.roster.lists rc.email

/-- No ownership row is left without its account, and no refund was credited for an
account that is still there. -/
structure World.Settled (w : World) (credits : List (String × Int)) : Prop where
  housed : w.Housed
  gone : ∀ c ∈ credits, 0 < c.2 → ¬w.roster.lists c.1

/-- The condition on a delete that takes some entries and settles some accounts:
a sold account it takes an entry of is settled or still stands, and one that has a
refund due does not. -/
def World.SettleOk (w : World) (takes : Inbound → Doc → Bool) (settled : List String)
    (usage : String → Option Int) : Prop :=
  (∀ i ∈ w.roster.inbounds.rows, ∀ d ∈ i.settings.clients, takes i d = true →
    (w.ledger.clients.find? (entryEmail d)).isSome →
    entryEmail d ∈ settled ∨ w.roster.stands takes (entryEmail d)) ∧
  ∀ email ∈ settled, 0 < w.ledger.credit email (usage email) → ¬w.roster.stands takes email

end

namespace Ledger

variable {l : Ledger}

theorem find?_refundDeleted (email email' : String) (used : Int) (known : Bool) :
    (l.refundDeleted email used known).clients.find? email' =
      if email' = email then none else l.clients.find? email' := by
  unfold refundDeleted
  cases howner : l.clients.find? email with
  | none =>
      by_cases he : email' = email
      · simp [he, howner]
      · simp [he]
  | some owner =>
      cases known with
      | false =>
          simp only [settleDeleted, if_true, dropClient]
          exact Table.find?_erase _ _ _
      | true =>
          simp only [settleDeleted_eq, dropClient, restoreSpent_clients]
          exact Table.find?_erase _ _ _

theorem credit_refundDeleted (email email' : String) (used : Int) (known : Bool)
    (usage : Option Int) :
    (l.refundDeleted email used known).credit email' usage =
      if email' = email then 0 else l.credit email' usage := by
  unfold credit
  rw [find?_refundDeleted]
  by_cases he : email' = email <;> simp [he]

theorem find?_refundEach (usage : String → Option Int) (emails : List String) (email : String) :
    (l.refundEach usage emails).1.clients.find? email =
      if email ∈ emails then none else l.clients.find? email := by
  induction emails generalizing l with
  | nil => simp [refundEach]
  | cons e emails ih =>
      simp only [refundEach]
      rw [ih, find?_refundDeleted]
      by_cases he : email = e <;> by_cases hmem : email ∈ emails <;> simp [he, hmem]

/-- An account is credited once, the first time it is settled. -/
theorem credited_refundEach (usage : String → Option Int) (emails : List String)
    (P : String → Prop) :
    (∀ c ∈ (l.refundEach usage emails).2, 0 < c.2 → P c.1) ↔
      ∀ email ∈ emails, 0 < l.credit email (usage email) → P email := by
  induction emails generalizing l with
  | nil => simp [refundEach]
  | cons e emails ih =>
      simp only [refundEach, List.forall_mem_cons, ih, credit_refundDeleted]
      refine and_congr_right fun hfirst => forall₂_congr fun email _ => ?_
      by_cases he : email = e
      · subst he
        simpa using hfirst
      · simp [he]

end Ledger

section

variable [Runtime] {w : World} {r : Roster} {takes : Inbound → Doc → Bool}

omit [Runtime] in
theorem World.refund_settled_iff (h : w.Housed)
    (hlists : ∀ email, r.lists email ↔ w.roster.stands takes email) (usage : String → Option Int)
    (settled : List String) :
    (w.refund r usage settled).1.Settled (w.refund r usage settled).2 ↔
      w.SettleOk takes settled usage := by
  have hrows : ∀ rc, rc ∈ (w.ledger.refundEach usage settled).1.clients.rows ↔
      rc ∈ w.ledger.clients.rows ∧ rc.email ∉ settled := by
    intro rc
    have hfind : ∀ l : Ledger, rc ∈ l.clients.rows ↔ l.clients.find? rc.email = some rc :=
      fun l => ⟨Table.find?_of_mem, fun hrc => (Table.find?_some hrc).1⟩
    rw [hfind, hfind, Ledger.find?_refundEach]
    by_cases hmem : rc.email ∈ settled <;> simp [hmem]
  constructor
  · rintro ⟨hhoused, hgone⟩
    refine ⟨fun i hi d hd htakes hrow => ?_, ?_⟩
    · obtain ⟨rc, hrc, hemail⟩ := Table.isSome_find?.1 hrow
      rw [← hemail, ← hlists]
      by_cases hmem : rc.email ∈ settled
      · exact Or.inl hmem
      · exact Or.inr (hhoused rc ((hrows rc).2 ⟨hrc, hmem⟩))
    · simp only [← hlists]
      exact (Ledger.credited_refundEach usage settled fun email => ¬r.lists email).1 hgone
  · rintro ⟨htaken, hdue⟩
    refine ⟨fun rc hrc => ?_, ?_⟩
    · obtain ⟨hrc, hmem⟩ := (hrows rc).1 hrc
      obtain ⟨i, hi, d, hd, he⟩ := h rc hrc
      refine (hlists rc.email).2 ?_
      by_cases ht : takes i d = true
      · have hrow : (w.ledger.clients.find? (entryEmail d)).isSome := by
          rw [he, Table.find?_of_mem hrc]
          rfl
        rw [← he]
        exact (htaken i hi d hd ht hrow).resolve_left (he ▸ hmem)
      · exact ⟨i, hi, d, hd, by simpa using ht, he⟩
    · simp only [← hlists] at hdue
      exact (Ledger.credited_refundEach usage settled fun email => ¬r.lists email).2 hdue

omit [Runtime] in
/-- A delete that is refused leaves everything settled. -/
theorem World.Housed.unchanged (h : w.Housed) : w.Settled [] := ⟨h, by simp⟩

/-! ## One condition for each path -/

/-- The accounts a bulk delete settles, read off the roster before it. -/
def bulkSettled (order : MapOrder) (r : Roster) (req : BulkClientUpdateRequest) : List String :=
  (req.targets.filter fun t => decide (t.email ≠ "") && match r.inbounds.find? t.inboundId with
    | none => false
    | some i => i.settings.clients.all fun d =>
        bulkTakes order req i d || decide (emailKey (entryEmail d) ≠ emailKey t.email)).map (·.email)

/-- The condition on a delete. -/
def World.DeleteOk (w : World) : DeleteOp → Prop
  | .client actor inboundId clientId =>
      let email := clientEmailOnInbound w.roster inboundId clientId
      callerMayTouchClient w.ledger email actor = true → DelAccepts w.roster inboundId clientId →
        w.SettleOk (delTakes inboundId clientId) (refundable [email])
          (usageSnapshot w.roster.traffics [email])
  | .byEmail actor inboundId email =>
      callerMayTouchClient w.ledger email actor = true → DelByEmailAccepts w.roster inboundId email →
        w.SettleOk (delByEmailTakes inboundId email) (refundable [email])
          (usageSnapshot w.roster.traffics [email])
  | .bulk actor order req _ =>
      ∀ sent ∈ w.bulkRequest { req with op := .delete } actor,
        (∀ id ∈ sent.inboundIds, (w.roster.inbounds.find? id).isSome) →
        w.SettleOk (bulkTakes order sent) (bulkSettled order w.roster sent)
          (bulkUsageSnapshot w.roster.traffics sent.targets)
  | .depleted .admin id now => w.SettleOk (sweepTakes w.roster id now none) [] fun _ => none
  | .depleted (.reseller userId) id now =>
      let owned := ownedEmails w.ledger.clients userId
      SweepFinds w.roster id now (some owned) →
        w.SettleOk (sweepTakes w.roster id now (some owned))
          (refundable ((sweepIds w.roster.traffics id now).flatMap
            (sweptEmails w.roster.traffics id now (some owned))))
          (usageSnapshot w.roster.traffics owned)
  | .inbound id =>
      let owned := (w.ledger.clients.rows.filter fun rc => decide (rc.inboundId = id)).map (·.email)
      (w.roster.inbounds.find? id).isSome →
        w.SettleOk (fun i _ => decide (i.id = id)) owned (usageSnapshot w.roster.traffics owned)
  | .reseller _ _ => True

theorem World.delOne_settled_iff (h : w.Housed) (actor : Actor) (email : String) {accepts : Prop}
    {del : Roster × Reply} (hdel : Carried w.roster accepts takes del) :
    (w.delOne actor email del).1.Settled (w.delOne actor email del).2 ↔
      (callerMayTouchClient w.ledger email actor = true → accepts →
        w.SettleOk takes (refundable [email]) (usageSnapshot w.roster.traffics [email])) := by
  obtain ⟨r, reply⟩ := del
  unfold World.delOne
  cases hmay : callerMayTouchClient w.ledger email actor with
  | false => simpa using h.unchanged
  | true =>
      simp only [Bool.true_eq_false, if_false, forall_const]
      rcases hdel with ⟨hacc, hok, hlists⟩ | ⟨hacc, hsame, fault, herror⟩
      · simp only at hok hlists
        subst hok
        simp only [hacc, forall_const]
        exact World.refund_settled_iff h hlists _ _
      · simp only at hsame herror
        subst hsame herror
        simp only [hacc, false_imp_iff, iff_true]
        exact h.unchanged

/-- What a bulk delete settles is what it was bound to settle. -/
theorem refundBulkDeleted_eq {order : MapOrder} {req : BulkClientUpdateRequest} {now : Int}
    {s : Roster} (hop : req.op = .delete) (hs : bulkUpdateClients order r req now = (s, .ok ())) :
    refundBulkDeleted s req.targets = bulkSettled order r req := by
  have hperm := order.ids_perm req.inboundIds
  have hnodup : (order.ids req.inboundIds).Nodup := hperm.nodup_iff.2 (List.nodup_dedup _)
  obtain ⟨hinb, -⟩ := foldlM_bulkInbound_delete hop hnodup (bulkUpdateClients_ok hop hs)
  simp only [hperm.mem_iff] at hinb
  unfold refundBulkDeleted bulkSettled
  congr 1
  refine List.filter_congr fun t ht => ?_
  by_cases hne : t.email = ""
  · simp [hne]
  · have hid : t.inboundId ∈ req.inboundIds := by
      rw [BulkClientUpdateRequest.inboundIds, List.mem_dedup]
      exact List.mem_map.2 ⟨t, List.mem_filter.2 ⟨ht, by simpa using hne⟩, rfl⟩
    congr 1
    rw [hinb]
    cases hi : r.inbounds.find? t.inboundId with
    | none => rfl
    | some i =>
        obtain ⟨-, heq⟩ := Table.find?_some hi
        have hleft : ∀ email, (∃ d ∈ (afterBulkDelete order req i).settings.clients,
            entryEmail d = email) ↔ ∃ d ∈ i.settings.clients,
              d.str "email" ∉ bulkGone order req i ∧ entryEmail d = email :=
          exists_mem_afterBulkDelete i
        simp only [Option.map_some, hid, if_true]
        rw [Bool.eq_iff_iff]
        simp only [getClients, List.all_map, List.all_eq_true, Function.comp_def, decide_eq_true_eq,
          bulkTakes, heq, hid, decide_true, Bool.true_and, Bool.or_eq_true]
        constructor
        · intro hall d hd
          by_cases hgone : d.str "email" ∈ bulkGone order req i
          · exact Or.inl hgone
          · obtain ⟨d', hd', he⟩ := (hleft (entryEmail d)).2 ⟨d, hd, hgone, rfl⟩
            refine Or.inr ?_
            rw [← he]
            exact hall d' hd'
        · intro hall d hd
          obtain ⟨d', hd', hgone, he⟩ := (hleft (entryEmail d)).1 ⟨d, hd, rfl⟩
          have := (hall d' hd').resolve_left hgone
          rw [he] at this
          exact this

theorem World.delBulk_settled_iff (h : w.Housed) (actor : Actor) (order : MapOrder)
    (req : BulkClientUpdateRequest) (now : Int) :
    (w.delBulk actor order req now).1.Settled (w.delBulk actor order req now).2 ↔
      w.DeleteOk (.bulk actor order req now) := by
  simp only [World.delBulk, World.DeleteOk]
  cases hreq : w.bulkRequest { req with op := .delete } actor with
  | none => simpa using h.unchanged
  | some req' =>
      have hop : req'.op = .delete := by
        cases actor with
        | admin =>
            cases hreq
            rfl
        | reseller userId =>
            simp only [World.bulkRequest] at hreq
            split at hreq
            · cases hreq
            · split at hreq <;> cases hreq
              rfl
      simp only [Option.mem_def, Option.some.injEq, forall_eq']
      have hcarried := bulkDelete_carried hop order w.roster now
      cases hdel : bulkUpdateClients order w.roster req' now with
      | mk r reply =>
          rw [hdel] at hcarried
          rcases hcarried with ⟨hacc, hok, hlists⟩ | ⟨hacc, hsame, fault, herror⟩
          · simp only at hok hlists
            subst hok
            simp only [refundBulkDeleted_eq hop hdel, forall_prop_of_true hacc]
            exact World.refund_settled_iff h hlists _ _
          · simp only at hsame herror
            subst hsame herror
            simp only [forall_prop_of_false hacc, iff_true]
            exact h.unchanged

theorem World.delDepleted_settled_iff (h : w.Housed) (actor : Actor) (id now : Int) :
    (w.delDepleted id now actor).1.Settled (w.delDepleted id now actor).2 ↔
      w.DeleteOk (.depleted actor id now) := by
  cases actor with
  | admin => exact World.refund_settled_iff h (sweep_lists w.roster id now none) (fun _ => none) []
  | reseller userId =>
      simp only [World.delDepleted, World.DeleteOk]
      generalize ownedEmails w.ledger.clients userId = owned
      have hlists := sweep_lists w.roster id now (some owned)
      rcases delDepletedClientsScoped_cases w.roster id now (some owned) with
        ⟨hfinds, s, hat, hs⟩ | ⟨hfinds, s, pre, hat, hdrop, hs⟩
      · rw [hs] at hlists ⊢
        simp only [forall_prop_of_true hfinds, ← hat.deleted]
        exact World.refund_settled_iff h hlists _ _
      · -- a reseller's sweep deletes no inbound, so one that stops has done nothing
        have hnone : ∀ i d, sweepTakes w.roster id now (some owned) i d = false := by
          intro i d
          have hmem : i.id ∉ dropped w.roster id now (some owned)
              (sweepIds w.roster.traffics id now) := fun hd => by cases (mem_dropped hd).2.1
          simp [sweepTakes, hmem, hfinds]
        rw [hs] at hlists ⊢
        simp only [forall_prop_of_false hfinds, iff_true]
        refine ⟨fun rc hrc => (hlists rc.email).2 ?_, by simp⟩
        obtain ⟨i, hi, d, hd, he⟩ := h rc hrc
        exact ⟨i, hi, d, hd, hnone i d, he⟩

omit [Runtime] in
theorem delInbound_lists (r : Roster) (id : Nat) (email : String) :
    (delInbound r id).lists email ↔ r.stands (fun i _ => decide (i.id = id)) email := by
  simp only [Roster.lists, Roster.stands, delInbound, Table.mem_erase, decide_eq_false_iff_not]
  constructor
  · rintro ⟨i, ⟨hi, hne⟩, d, hd, he⟩
    exact ⟨i, hi, d, hd, hne, he⟩
  · rintro ⟨i, hi, d, hd, hne, he⟩
    exact ⟨i, ⟨hi, hne⟩, d, hd, he⟩

theorem World.delInbound_settled_iff (h : w.Housed) (id : Nat) :
    (w.delInbound id).1.Settled (w.delInbound id).2 ↔ w.DeleteOk (.inbound id) := by
  simp only [World.delInbound, World.DeleteOk]
  have hlists := delInbound_lists w.roster id
  cases hi : w.roster.inbounds.find? id with
  | none =>
      simp only [Option.isNone_none, if_true, Option.isSome_none, Bool.false_eq_true, false_imp_iff,
        iff_true]
      refine ⟨fun rc hrc => (hlists rc.email).2 ?_, by simp⟩
      obtain ⟨i, hi', d, hd, he⟩ := h rc hrc
      exact ⟨i, hi', d, hd, by simpa using Table.find?_eq_none.1 hi i hi', he⟩
  | some i =>
      simp only [Option.isNone_some, Bool.false_eq_true, if_false, Option.isSome_some, forall_const]
      exact World.refund_settled_iff h hlists _ _

/-! ### Cascades -/

omit [Runtime] in
theorem World.Housed.drop (h : w.Housed) (email : String)
    (hlists : ∀ e, e ≠ email → w.roster.lists e → r.lists e) :
    World.Housed ⟨r, w.ledger.dropClient email⟩ := by
  intro rc hrc
  obtain ⟨hrc, hne⟩ := Table.mem_erase.1 hrc
  exact hlists rc.email hne (h rc hrc)

omit [Runtime] in
/-- One account of a cascade takes only entries of the account it forgets. -/
theorem World.Housed.cascadeOne (h : w.Housed) (rc : ResellerClient) :
    (w.cascadeOne rc).1.Housed := by
  have hsame := h.drop rc.email fun _ _ hl => hl
  have hcarried := delInboundClientByEmail_carried w.roster rc.inboundId rc.email
  unfold World.cascadeOne
  simp only
  split
  · exact hsame
  split
  · rename_i r u hdel
    rw [hdel] at hcarried
    rcases hcarried with ⟨-, -, hlists⟩ | ⟨-, -, fault, herror⟩
    · refine h.drop rc.email ?_
      rintro e hne ⟨i, hi, d, hd, rfl⟩
      refine (hlists _).2 ⟨i, hi, d, hd, ?_, rfl⟩
      rw [← Bool.not_eq_true, delByEmailTakes, Bool.and_eq_true, hasEmail, decide_eq_true_eq]
      rintro ⟨-, hget⟩
      exact hne (entryEmail_of_get? (of_decide_eq_true hget))
    · cases herror
  · split
    · exact hsame
    · exact h
  · exact h

omit [Runtime] in
theorem World.Housed.cascadeClients (h : w.Housed) (rows : List ResellerClient) :
    (w.cascadeClients rows).1.Housed := by
  induction rows generalizing w with
  | nil => exact h
  | cons rc rows ih =>
      have hone := h.cascadeOne rc
      simp only [World.cascadeClients]
      split
      · rename_i w' hw'
        rw [hw'] at hone
        exact ih hone
      · rename_i w' hw'
        rw [hw'] at hone
        exact hone

omit [Runtime] in
theorem World.Housed.deleteReseller (h : w.Housed) (userId : Nat) (mode : DeleteMode) :
    (w.deleteReseller userId mode).Housed := by
  have hdrop : ∀ {w : World}, w.Housed → (w.dropReseller userId).Housed := fun hw => hw
  unfold World.deleteReseller
  split
  · exact h
  simp only
  split
  · exact hdrop h
  cases mode with
  | keep =>
      refine hdrop ?_
      intro rc hrc
      exact h rc (List.mem_of_mem_filter hrc)
  | cascade =>
      simp only
      have hall := h.cascadeClients
        (w.ledger.clients.rows.filter fun rc => decide (rc.userId = userId))
      split
      · rename_i w' hw'
        rw [hw'] at hall
        exact hdrop hall
      · rename_i w' hw'
        rw [hw'] at hall
        exact hall
  | other name => exact h

/-! ## Runs -/

/-- A delete that settles what it takes. -/
def World.Settles (w : World) (op : DeleteOp) : Prop := (w.delete op).1.Settled (w.delete op).2

/-- The world after a delete. -/
def World.afterDelete (w : World) (op : DeleteOp) : World := (w.delete op).1

theorem World.settles_iff (h : w.Housed) (op : DeleteOp) : w.Settles op ↔ w.DeleteOk op := by
  cases op with
  | client actor inboundId clientId =>
      exact w.delOne_settled_iff h actor _ (delInboundClient_carried w.roster inboundId clientId)
  | byEmail actor inboundId email =>
      exact w.delOne_settled_iff h actor email
        (delInboundClientByEmail_carried w.roster inboundId email)
  | bulk actor order req now => exact w.delBulk_settled_iff h actor order req now
  | depleted actor id now => exact w.delDepleted_settled_iff h actor id now
  | inbound id => exact w.delInbound_settled_iff h id
  | reseller userId mode =>
      exact iff_of_true ⟨h.deleteReseller userId mode, by simp [World.delete]⟩ trivial

/-- A run of deletes settles every account it takes away, and refunds none that is
still there, exactly when every step meets its condition. -/
theorem settles_run_iff (w : World) (ops : List DeleteOp) (h : w.Housed) :
    AllSteps World.afterDelete World.Settles w ops ↔
      AllSteps World.afterDelete World.DeleteOk w ops := by
  have hiff : ∀ (w : World) op, w.Housed → (w.Settles op ↔ w.DeleteOk op) :=
    fun w op hw => World.settles_iff hw op
  have hkeep : ∀ (w : World) op, w.Housed → w.Settles op → (w.afterDelete op).Housed :=
    fun w op _ hs => hs.housed
  exact AllSteps.congr hiff hkeep h

instance (w : World) : Decidable w.Housed :=
  inferInstanceAs (Decidable (∀ rc ∈ w.ledger.clients.rows, _))

instance (w : World) (credits : List (String × Int)) : Decidable (w.Settled credits) :=
  decidable_of_iff (w.Housed ∧ ∀ c ∈ credits, 0 < c.2 → ¬w.roster.lists c.1)
    ⟨fun h => ⟨h.1, h.2⟩, fun h => ⟨h.housed, h.gone⟩⟩

instance (w : World) (op : DeleteOp) : Decidable (w.Settles op) :=
  inferInstanceAs (Decidable (World.Settled _ _))

instance (w : World) (takes : Inbound → Doc → Bool) (settled : List String)
    (usage : String → Option Int) : Decidable (w.SettleOk takes settled usage) :=
  inferInstanceAs (Decidable ((∀ i ∈ w.roster.inbounds.rows, ∀ d ∈ i.settings.clients, _ → _ → _ ∨ _) ∧
    ∀ email ∈ settled, _ → ¬_))

instance (r : Roster) (inboundId : Nat) (clientId : String) :
    Decidable (DelAccepts r inboundId clientId) :=
  inferInstanceAs (Decidable (∃ i ∈ _, ∃ last ∈ _, _ ∧ (_ ∨ _)))

instance (r : Roster) (inboundId : Nat) (email : String) :
    Decidable (DelByEmailAccepts r inboundId email) :=
  inferInstanceAs (Decidable (∃ i ∈ _, _ ∧ _ ∧ (_ ∨ _)))

instance (w : World) : (op : DeleteOp) → Decidable (w.DeleteOk op)
  | .client _ _ _ => inferInstanceAs (Decidable (_ → DelAccepts _ _ _ → World.SettleOk _ _ _ _))
  | .byEmail _ _ _ => inferInstanceAs (Decidable (_ → DelByEmailAccepts _ _ _ → World.SettleOk _ _ _ _))
  | .bulk _ _ _ _ =>
      inferInstanceAs (Decidable (∀ sent ∈ _, (∀ id ∈ _, _) → World.SettleOk _ _ _ _))
  | .depleted .admin _ _ => inferInstanceAs (Decidable (World.SettleOk _ _ _ _))
  | .depleted (.reseller _) _ _ =>
      inferInstanceAs (Decidable (SweepFinds _ _ _ _ → World.SettleOk _ _ _ _))
  | .inbound _ => inferInstanceAs (Decidable (_ → World.SettleOk _ _ _ _))
  | .reseller _ _ => isTrue trivial

end

/-- An entry under its id and email. -/
def listed (id email : String) : Doc := stored [("email", .str email), ("id", .str id)]

/-- Two inbounds.  Reseller 1 has sold kim, on both, and lee and max, on the first;
lee has used up what was sold. -/
def soldOut : World where
  roster := {
    inbounds := ⟨[
      { id := 1, settings := { clients := [listed "u1" "ann", listed "u2" "kim", listed "u3" "lee",
        listed "u4" "max"] } },
      { id := 2, settings := { clients := [listed "u5" "bob", listed "u6" "kim"] } }], by decide⟩
    traffics := ⟨[{ email := "ann", inboundId := 1 }, { email := "bob", inboundId := 2 },
      { email := "kim", inboundId := 1, total := 10, up := 4, allTime := 4 },
      { email := "lee", inboundId := 1, total := 10, up := 10, allTime := 10 },
      { email := "max", inboundId := 1, total := 10, up := 4, allTime := 4 }], by decide⟩ }
  ledger := {
    profiles := .single { userId := 1, allowanceBytes := 100, spentBytes := 30 }
    clients := ⟨[{ email := "kim", inboundId := 1, userId := 1, chargedBytes := 10 },
      { email := "lee", inboundId := 1, userId := 1, chargedBytes := 10 },
      { email := "max", inboundId := 1, userId := 1, chargedBytes := 10 }], by decide⟩ }

/-- The reseller deletes kim from both inbounds and max from the only one, and sweeps
lee; an administrator deletes what is left. -/
theorem deletes_settled :
    soldOut.Housed ∧ AllSteps (@World.afterDelete Runtime.ascii) (@World.Settles Runtime.ascii) soldOut
      [.bulk (.reseller 1) MapOrder.inserted
          { op := .delete, targets := [⟨1, "kim"⟩, ⟨2, "kim"⟩] } 0,
        .client (.reseller 1) 1 "u4", .depleted (.reseller 1) (-1) 0, .inbound 2,
        .reseller 1 .cascade] :=
  ⟨by decide +kernel, (@settles_run_iff Runtime.ascii soldOut _ (by decide +kernel)).2
    (by decide +kernel)⟩

/-- An administrator's sweep takes lee away and leaves the ownership row; a delete of
kim from the first inbound is refunded while the second still serves the account. -/
theorem admin_sweep_unsettled :
    soldOut.Housed ∧ ¬@World.Settles Runtime.ascii soldOut (.depleted .admin (-1) 0) ∧
      ¬@World.Settles Runtime.ascii soldOut (.client (.reseller 1) 1 "u2") := by
  decide +kernel

end Simorgh.Panel
