import Simorgh.Lib.Run
import Simorgh.Panel.TickSound

/-!
# Enforcement on the nodes

The master books what every node has counted and sends back the accounts a node
has to stop serving.  A node may be out of reach for a while; the set is meant
to be the whole one every time, so that a node that missed a tick is put right
by the next.

* `Round.run` — one tick of the traffic job, and what it sends.
* `account`, `settle` — the tick cut in two where it comes to switching off.
* `run_settle_ok`, `mem_named_disabled` — what the second half leaves off, and what
  it names.
* `nodes_told_iff` — the runs in which every node in reach is told every account
  that is off.
-/

namespace Simorgh.Panel

open Simorgh.Lib Simorgh.Lib.Json

/-! ## The nodes -/

/-- The columns of `nodes` that the job reads. -/
structure Node where
  id : Nat
  enable : Bool := true
  isLocal : Bool := false

/-- What a node sends when it is collected from. -/
structure CollectResult where
  node : Nat
  batch : Batch

/-- The accounts a node must stop serving. -/
structure DisabledSet where
  emails : List String
  deriving DecidableEq

/-- The panel's database and the nodes. -/
structure Fleet where
  db : Db
  nodes : Table Node.id

/-- The enabled nodes that are not this host. -/
def remoteNodes (nodes : Table Node.id) : List Node :=
  nodes.rows.filter fun n => n.enable && !n.isLocal

/-- `unionEmails`. -/
def unionEmails (lists : List (List String)) : List String :=
  lists.flatten.foldl (fun out e => if e ∈ out then out else out ++ [e]) []

/-- What one tick meets: the bytes counted on this host, the nodes' results in the order
they come in, a statement of the accounting that fails, whether the two queries for
the nodes succeed, and the nodes that an order reaches. -/
structure Round where
  host : Host
  own : Batch := {}
  arrivals : Table CollectResult.node := Table.empty
  fault : Option TickPlace := none
  collects : Bool := true
  enforces : Bool := true
  reachable : Nat → Bool := fun _ => true

/-- `collectFromNodes`: a node that fails contributes nothing. -/
def Round.collectFromNodes (r : Round) (nodes : Table Node.id) : Batch :=
  if r.collects then
    let results := r.arrivals.rows.filter fun a => decide (a.node ∈ (remoteNodes nodes).map (·.id))
    { inbounds := results.flatMap (·.batch.inbounds), clients := results.flatMap (·.batch.clients) }
  else {}

/-- `enforceOnNodes`: the orders that arrive. -/
def Round.enforceOnNodes (r : Round) (nodes : Table Node.id) (emails : List String) :
    List (Nat × DisabledSet) :=
  if r.enforces then
    ((remoteNodes nodes).filter fun n => r.reachable n.id).map fun n => (n.id, ⟨emails⟩)
  else []

/-- Everything the tick has to book. -/
def Round.batch (r : Round) (w : Fleet) : Batch where
  inbounds := r.own.inbounds ++ (r.collectFromNodes w.nodes).inbounds
  clients := r.own.clients ++ (r.collectFromNodes w.nodes).clients

/-- There is nothing to book. -/
def Batch.idle (b : Batch) : Bool := b.inbounds.isEmpty && b.clients.isEmpty

/-- The part of the job's `Run` that concerns accounts: what is left, and the orders. -/
def Round.run (r : Round) (w : Fleet) : Fleet × List (Nat × DisabledSet) :=
  -- an idle tick returns before anything is sent
  if (r.batch w).idle then (w, [])
  else
    let outcome := tickOutcome r.host (r.batch w) w.db r.fault
    ({ w with db := outcome.1 },
      match outcome.2 with
      | .ok d => r.enforceOnNodes w.nodes (unionEmails [d.l2tp, d.pptp, d.openvpn])
      | .error => r.enforceOnNodes w.nodes (unionEmails [])
      | .panicked => [])

/-- A tick, or anything else that changes the database or the nodes. -/
inductive FleetEvent where
  | tick (r : Round)
  | edit (w : Fleet)

/-- One event. -/
def Fleet.step (w : Fleet) : FleetEvent → Fleet
  | .tick r => (r.run w).1
  | .edit w => w

/-- The accounts whose row is off. -/
def Db.off (db : Db) : List String := (db.traffics.rows.filter fun ct => !ct.enable).map (·.email)

/-- Every node in reach is told every account that is off after the tick. -/
def NodesTold (w : Fleet) : FleetEvent → Prop
  | .tick r => ∀ n ∈ remoteNodes w.nodes, r.reachable n.id = true →
      ∀ email ∈ (r.run w).1.db.off, ∃ order ∈ (r.run w).2, order.1 = n.id ∧ email ∈ order.2.emails
  | .edit _ => True

theorem mem_foldl_union (es out : List String) (email : String) :
    email ∈ es.foldl (fun out e => if e ∈ out then out else out ++ [e]) out ↔ email ∈ out ∨ email ∈ es := by
  induction es generalizing out with
  | nil => simp
  | cons e es ih =>
      rw [List.foldl_cons, ih, List.mem_cons]
      split
      · rename_i hmem
        constructor
        · rintro (hout | hes)
          · exact Or.inl hout
          · exact Or.inr (Or.inr hes)
        · rintro (hout | rfl | hes)
          · exact Or.inl hout
          · exact Or.inl hmem
          · exact Or.inr hes
      · rw [List.mem_append, List.mem_singleton, or_assoc]

@[simp] theorem mem_unionEmails (lists : List (List String)) (email : String) :
    email ∈ unionEmails lists ↔ ∃ l ∈ lists, email ∈ l := by
  simp [unionEmails, mem_foldl_union]

theorem mem_off {db : Db} {email : String} :
    email ∈ db.off ↔ ∃ ct ∈ db.traffics.rows, ct.email = email ∧ ct.enable = false := by
  simp only [Db.off, List.mem_map, List.mem_filter, Bool.not_eq_true']
  constructor
  · rintro ⟨ct, ⟨hct, hoff⟩, hemail⟩
    exact ⟨ct, hct, hemail, hoff⟩
  · rintro ⟨ct, hct, hemail, hoff⟩
    exact ⟨ct, ⟨hct, hoff⟩, hemail⟩

/-! ## The tick cut in two -/

/-- The tick up to the switching off, inside its transaction. -/
def account (h : Host) (b : Batch) : Tick (Outcome Bool) := do
  let counted ← addInboundTraffic b.inbounds 0
  if counted then
    match ← addClientTraffic h b.clients with
    | .ok _ =>
        match ← autoRenewClients h with
        | .panicked => pure .panicked
        | renewed => pure (.ok (decide (renewed = .ok true)))
    | .error => pure .error
    | .panicked => pure .panicked
  else pure .error

/-- The rest of the tick. -/
def settle (h : Host) : Outcome Bool → Tick (Outcome Disabled)
  | .error => do
      Prog.abandon
      pure .error
  | .panicked => do
      Prog.finish .commit
      pure .panicked
  | .ok renewed => do
      let disabled ← disableInvalidClients h
      let inbounds ← disableInvalidInbounds h
      if inbounds.2 then Prog.finish .commit else Prog.abandon
      pure (.ok { disabled.1 with restart := renewed || disabled.1.restart || inbounds.1 })

section Tick

variable {h : Host} {b : Batch} {fault : Option TickPlace} {s work : Db}

theorem run_addTraffic_eq (c : Conn Db) :
    (addTraffic h b).run fault c =
      ((Prog.start .begin >>= fun _ => account h b) >>= settle h).run fault c := by
  unfold addTraffic account
  simp only [Prog.run_do]
  generalize ((Prog.start TickPlace.begin : Tick Unit).run fault c).1 = c
  generalize (addInboundTraffic b.inbounds 0).run fault c = counted
  obtain ⟨c, counted⟩ := counted
  cases counted with
  | false => rfl
  | true =>
      simp only [if_true, Prog.run_do]
      generalize (addClientTraffic h b.clients).run fault c = booked
      obtain ⟨c, booked⟩ := booked
      cases booked with
      | error => rfl
      | panicked => rfl
      | ok _ =>
          simp only [renewAndDisable, Prog.run_do]
          generalize (autoRenewClients h).run fault c = renewed
          obtain ⟨c, renewed⟩ := renewed
          cases renewed <;> rfl

theorem plain_addInboundTraffic (ts : List Traffic) (k : Nat) : (addInboundTraffic ts k).Plain := by
  induction ts generalizing k with
  | nil => exact Prog.plain_pure _
  | cons t ts ih =>
      rw [addInboundTraffic]
      split
      · refine (Prog.plain_update _ _).bind fun ok => ?_
        cases ok
        · exact Prog.plain_pure _
        · exact ih (k + 1)
      · exact ih (k + 1)

theorem plain_addClientTraffic (records : List ClientRecord) : (addClientTraffic h records).Plain := by
  have hadjust (rows : List ClientTraffic) : (adjustTraffics h rows).Plain := by
    unfold adjustTraffics
    split
    · exact Prog.plain_pure _
    · refine (Prog.plain_select _ _).bind fun inbounds? => ?_
      cases inbounds? with
      | none => exact Prog.plain_pure _
      | some inbounds =>
          simp only
          cases startInbounds h.now rows inbounds with
          | none => exact Prog.plain_pure _
          | some started => exact (Prog.plain_update _ _).bind fun _ => Prog.plain_pure _
  have hload (rows : List ClientTraffic) : (loadMultiplierInbounds rows).Plain := by
    unfold loadMultiplierInbounds
    split
    · exact Prog.plain_pure _
    · exact (Prog.plain_select _ _).bind fun _ => Prog.plain_pure _
  unfold addClientTraffic
  split
  · exact Prog.plain_pure _
  · refine (Prog.plain_select _ _).bind fun rows? => ?_
    split
    · exact Prog.plain_pure _
    · exact Prog.plain_pure _
    · refine (hadjust _).bind fun adjusted => ?_
      cases adjusted with
      | error => exact Prog.plain_pure _
      | panicked => exact Prog.plain_pure _
      | ok rows =>
          refine (hload rows).bind fun policy => ?_
          exact (Prog.plain_update _ _).bind fun _ => Prog.plain_pure _

theorem plain_autoRenewClients : (autoRenewClients h).Plain := by
  have hwrite (rows : List ClientTraffic) : ∀ k, (writeRenewals rows k).Plain := by
    induction rows with
    | nil => exact fun k => Prog.plain_pure _
    | cons ct rows ih =>
        intro k
        refine (Prog.plain_update _ _).bind fun ok => ?_
        cases ok
        · exact Prog.plain_pure _
        · exact ih (k + 1)
  unfold autoRenewClients
  refine (Prog.plain_select _ _).bind fun due? => ?_
  split
  · exact Prog.plain_pure _
  · exact Prog.plain_pure _
  · refine (Prog.plain_select _ _).bind fun inbounds? => ?_
    split
    · exact Prog.plain_pure _
    · split
      · exact Prog.plain_pure _
      · split
        · exact Prog.plain_pure _
        · refine (Prog.plain_update _ _).bind fun saved => ?_
          split
          · exact Prog.plain_pure _
          · exact (hwrite _ 0).bind fun _ => Prog.plain_pure _

/-- Nothing before the switching off begins or ends a transaction. -/
theorem plain_account : (account h b).Plain := by
  refine (plain_addInboundTraffic b.inbounds 0).bind fun counted => ?_
  split
  · refine (plain_addClientTraffic b.clients).bind fun booked => ?_
    split
    · refine plain_autoRenewClients.bind fun renewed => ?_
      split
      · exact Prog.plain_pure _
      · exact Prog.plain_pure _
    · exact Prog.plain_pure _
    · exact Prog.plain_pure _
  · exact Prog.plain_pure _

/-! ## What the second half does -/

/-- The query for the invalid accounts succeeds. -/
def Host.finds (h : Host) (fault : Option TickPlace) : Bool :=
  h.xray.isSome && decide (fault ≠ some .findInvalid)

/-- The update that switches the invalid accounts off is reached and succeeds. -/
def Host.switches (h : Host) (fault : Option TickPlace) : Bool :=
  (h.xray.isNone || decide (fault ≠ some .findInvalid)) && decide (fault ≠ some .disableClients)

/-- What the second half has written is kept. -/
def Host.keeps (h : Host) (fault : Option TickPlace) : Bool :=
  (h.xray.isNone || decide (fault ≠ some .findInvalidInbounds)) &&
    decide (fault ≠ some .disableInbounds) && decide (fault ≠ some .commit)

/-- The account's inbound is one whose own daemon drops its clients. -/
def Db.ownDaemon (db : Db) (ct : ClientTraffic) : Bool :=
  (db.inbounds.find? ct.inboundId).any fun i => i.base.protocol.hasOwnDaemon

/-- The accounts the three lists name. -/
def Disabled.named (d : Disabled) : List String := unionEmails [d.l2tp, d.pptp, d.openvpn]

theorem run_settle_ok (renewed : Bool) :
    ∃ d : Disabled, (settle h (.ok renewed)).run fault ⟨s, .opened work⟩ =
        (⟨if h.keeps fault then
            ((if h.switches fault then work.disableClients h else work).disableInbounds h) else s,
          .none⟩, .ok d) ∧
      d.named = if h.finds fault then (h.disabled work).named else [] := by
  unfold settle disableInvalidClients disableInvalidInbounds Host.keeps Host.switches Host.finds
    Host.disabled
  cases h.xray with
  | none =>
      by_cases hin : fault = some .disableInbounds
      · simp [hin, Disabled.named, unionEmails]
      · by_cases hcommit : fault = some .commit <;> simp [hin, hcommit, Disabled.named, unionEmails]
  | some api =>
      by_cases hfind : fault = some .findInvalid
      · simp [hfind, Disabled.named, unionEmails]
      · by_cases hfindIn : fault = some .findInvalidInbounds
        · simp [hfindIn, Disabled.named]
        · by_cases hin : fault = some .disableInbounds
          · simp [hin, Disabled.named]
          · by_cases hcommit : fault = some .commit <;>
              simp [hfind, hfindIn, hin, hcommit, Disabled.named]

@[simp] theorem off_disableInbounds (db : Db) : (db.disableInbounds h).off = db.off := rfl

/-- Off after the update: off before it, or invalid. -/
theorem mem_off_disableClients {email : String} :
    email ∈ (work.disableClients h).off ↔
      email ∈ work.off ∨ ∃ ct ∈ work.traffics.rows, ct.email = email ∧ h.invalidClient ct = true := by
  simp only [mem_off, Db.disableClients, Table.updateWhere, List.mem_map]
  constructor
  · rintro ⟨-, ⟨ct, hct, rfl⟩, hemail, hoff⟩
    by_cases hinvalid : h.invalidClient ct = true
    · rw [if_pos hinvalid] at hemail
      exact Or.inr ⟨ct, hct, hemail, hinvalid⟩
    · rw [if_neg hinvalid] at hemail hoff
      exact Or.inl ⟨ct, hct, hemail, hoff⟩
  · rintro (⟨ct, hct, hemail, hoff⟩ | ⟨ct, hct, hemail, hinvalid⟩)
    · have hvalid : ¬h.invalidClient ct = true := by simp [Host.invalidClient, hoff]
      exact ⟨ct, ⟨ct, hct, if_neg hvalid⟩, hemail, hoff⟩
    · exact ⟨{ ct with enable := false }, ⟨ct, hct, if_pos hinvalid⟩, hemail, rfl⟩

/-- An invalid account is on, so it is none of those that are off. -/
theorem not_mem_off_of_invalid {ct : ClientTraffic} (hct : ct ∈ work.traffics.rows)
    (hinvalid : h.invalidClient ct = true) : ct.email ∉ work.off := by
  rw [mem_off]
  rintro ⟨ct', hct', hemail, hoff⟩
  rw [Table.eq_of_key_eq hct' hct hemail] at hoff
  simp [Host.invalidClient, hoff] at hinvalid

/-- The lists name the invalid accounts of the three protocols. -/
theorem mem_named_disabled {email : String} :
    email ∈ (h.disabled work).named ↔ h.xray.isSome = true ∧
      ∃ ct ∈ work.traffics.rows, ct.email = email ∧ h.invalidClient ct = true ∧
        work.ownDaemon ct = true := by
  unfold Host.disabled
  cases h.xray with
  | none => simp [Disabled.named]
  | some api =>
      have hunder (p : Protocol) :
          email ∈ ((h.invalidClients work).filter fun r => decide (r.protocol = p)).map (·.email) ↔
            ∃ ct ∈ work.traffics.rows, ct.email = email ∧ h.invalidClient ct = true ∧
              ∃ i ∈ work.inbounds.rows, ct.inboundId = i.id ∧ i.base.protocol = p := by
        simp only [Host.invalidClients, List.mem_map, List.mem_filter, List.mem_flatMap,
          Bool.and_eq_true, decide_eq_true_eq]
        constructor
        · rintro ⟨-, ⟨⟨i, hi, ct, ⟨hct, hid, hinvalid⟩, rfl⟩, hp⟩, hemail⟩
          exact ⟨ct, hct, hemail, hinvalid, i, hi, hid, hp⟩
        · rintro ⟨ct, hct, hemail, hinvalid, i, hi, hid, hp⟩
          exact ⟨_, ⟨⟨i, hi, ct, ⟨hct, hid, hinvalid⟩, rfl⟩, hp⟩, hemail⟩
      have hdaemon (ct : ClientTraffic) : work.ownDaemon ct = true ↔
          ∃ i ∈ work.inbounds.rows, ct.inboundId = i.id ∧ i.base.protocol.hasOwnDaemon = true := by
        unfold Db.ownDaemon
        rw [Option.any_eq_true]
        constructor
        · rintro ⟨i, hi, hp⟩
          obtain ⟨hmem, hid⟩ := Table.find?_some hi
          exact ⟨i, hmem, hid.symm, hp⟩
        · rintro ⟨i, hi, hid, hp⟩
          exact ⟨i, Table.find?_eq_some.2 ⟨hi, hid.symm⟩, hp⟩
      have hprotocol (p : Protocol) :
          p.hasOwnDaemon = true ↔ p = .l2tp ∨ p = .pptp ∨ p = .openvpn := by
        cases p <;> simp [Protocol.hasOwnDaemon]
      simp only [Disabled.named, disabledBy, mem_unionEmails, List.mem_cons, List.not_mem_nil, or_false,
        exists_eq_or_imp, exists_eq_left, hunder, hdaemon, hprotocol, Option.isSome_some, true_and]
      constructor
      · rintro (⟨ct, hct, hemail, hinvalid, i, hi, hid, hp⟩ | ⟨ct, hct, hemail, hinvalid, i, hi, hid, hp⟩ |
          ⟨ct, hct, hemail, hinvalid, i, hi, hid, hp⟩)
        · exact ⟨ct, hct, hemail, hinvalid, i, hi, hid, Or.inl hp⟩
        · exact ⟨ct, hct, hemail, hinvalid, i, hi, hid, Or.inr (Or.inl hp)⟩
        · exact ⟨ct, hct, hemail, hinvalid, i, hi, hid, Or.inr (Or.inr hp)⟩
      · rintro ⟨ct, hct, hemail, hinvalid, i, hi, hid, hp | hp | hp⟩
        · exact Or.inl ⟨ct, hct, hemail, hinvalid, i, hi, hid, hp⟩
        · exact Or.inr (Or.inl ⟨ct, hct, hemail, hinvalid, i, hi, hid, hp⟩)
        · exact Or.inr (Or.inr ⟨ct, hct, hemail, hinvalid, i, hi, hid, hp⟩)

/-! ## The tick from where it comes to switching off -/

/-- How the accounting ended, and the copy the transaction works on then; there is none
when it could not be begun. -/
def stage (h : Host) (b : Batch) (db : Db) (fault : Option TickPlace) : Outcome Bool × Option Db :=
  let r := (Prog.start .begin >>= fun _ => account h b).run fault ⟨db, .none⟩
  (r.2, r.1.view)

theorem stage_cases (h : Host) (b : Batch) (db : Db) (fault : Option TickPlace) :
    (∃ o, stage h b db fault = (o, none) ∧
      tickOutcome h b db fault = (((settle h o).run fault ⟨db, .broken⟩).1.saved,
        ((settle h o).run fault ⟨db, .broken⟩).2)) ∨
    ∃ o work, stage h b db fault = (o, some work) ∧
      tickOutcome h b db fault = (((settle h o).run fault ⟨db, .opened work⟩).1.saved,
        ((settle h o).run fault ⟨db, .opened work⟩).2) := by
  simp only [stage, tickOutcome, run_addTraffic_eq, Prog.run_do, Prog.run_start]
  by_cases hbegin : fault = some .begin
  · obtain ⟨o, hrun⟩ := (plain_account (h := h) (b := b)).run_broken fault db
    refine Or.inl ⟨o, ?_⟩
    rw [if_pos hbegin, hrun]
    exact ⟨rfl, rfl⟩
  · obtain ⟨work, o, hrun⟩ := (plain_account (h := h) (b := b)).run_opened fault db db
    refine Or.inr ⟨o, work, ?_⟩
    rw [if_neg hbegin, hrun]
    exact ⟨rfl, rfl⟩

/-- Nothing is reported or saved without a transaction. -/
theorem run_settle_broken (renewed : Bool) :
    ∃ d : Disabled, (settle h (.ok renewed)).run fault ⟨s, .broken⟩ = (⟨s, .none⟩, .ok d) ∧
      d.named = [] := by
  unfold settle disableInvalidClients disableInvalidInbounds
  cases h.xray with
  | none => simp [Disabled.named, unionEmails]
  | some api => simp [Disabled.named, unionEmails]

end Tick

/-! ## The runs in which every node is told -/

/-- An order reaches some node. -/
def Round.Reaches (r : Round) (nodes : Table Node.id) : Prop :=
  ∃ n ∈ remoteNodes nodes, r.reachable n.id = true

/-- An invalid account is named to the nodes: it is one of the three protocols', and both
queries succeed. -/
def Round.Names (r : Round) (work : Db) (ct : ClientTraffic) : Prop :=
  r.enforces = true ∧ r.host.finds r.fault = true ∧ work.ownDaemon ct = true

/-- No account is off when the tick comes to switching off, and those it switches off are
named.  A tick that saves nothing is to find no account off. -/
def Round.Fresh (r : Round) (db : Db) : Outcome Bool × Option Db → Prop
  | (.ok _, some work) =>
      if r.host.keeps r.fault = true then
        work.off = [] ∧ (r.host.switches r.fault = true →
          ∀ ct ∈ work.traffics.rows, r.host.invalidClient ct = true → r.Names work ct)
      else
        -- the lists are sent although the transaction is dropped
        ∀ email ∈ db.off, ∃ ct ∈ work.traffics.rows,
          ct.email = email ∧ r.host.invalidClient ct = true ∧ r.Names work ct
  | (.panicked, some work) => (if r.fault = some .commit then db else work).off = []
  | _ => db.off = []

/-- No node is in reach, or the tick is fresh; an idle tick sends nothing. -/
def NodesFresh (w : Fleet) : FleetEvent → Prop
  | .tick r => r.Reaches w.nodes →
      if (r.batch w).idle = true then w.db.off = []
      else r.Fresh w.db (stage r.host (r.batch w) w.db r.fault)
  | .edit _ => True

section Runs

variable {r : Round} {nodes : Table Node.id}

theorem told_iff (off emails : List String) :
    (∀ n ∈ remoteNodes nodes, r.reachable n.id = true → ∀ email ∈ off,
      ∃ order ∈ r.enforceOnNodes nodes emails, order.1 = n.id ∧ email ∈ order.2.emails) ↔
    (r.Reaches nodes → ∀ email ∈ off, r.enforces = true ∧ email ∈ emails) := by
  unfold Round.enforceOnNodes
  constructor
  · rintro htold ⟨n, hn, hreach⟩ email hoff
    obtain ⟨order, horder, -, hemail⟩ := htold n hn hreach email hoff
    split at horder
    · rename_i henforces
      obtain ⟨n', -, rfl⟩ := List.mem_map.1 horder
      exact ⟨henforces, hemail⟩
    · cases horder
  · intro htold n hn hreach email hoff
    obtain ⟨henforces, hemail⟩ := htold ⟨n, hn, hreach⟩ email hoff
    rw [if_pos henforces]
    exact ⟨(n.id, ⟨emails⟩), List.mem_map.2 ⟨n, List.mem_filter.2 ⟨hn, hreach⟩, rfl⟩, rfl, hemail⟩

theorem told_nothing_iff (off : List String) :
    (∀ n ∈ remoteNodes nodes, r.reachable n.id = true → ∀ email ∈ off,
      ∃ order ∈ ([] : List (Nat × DisabledSet)), order.1 = n.id ∧ email ∈ order.2.emails) ↔
    (r.Reaches nodes → off = []) := by
  simp only [List.not_mem_nil, false_and, exists_false, List.eq_nil_iff_forall_not_mem, Round.Reaches]
  constructor
  · rintro htold ⟨n, hn, hreach⟩ email hoff
    exact htold n hn hreach email hoff
  · intro htold n hn hreach email hoff
    exact htold ⟨n, hn, hreach⟩ email hoff

/-- A tick that ends with its lists sent. -/
theorem fresh_ok_iff {db work : Db} {d : Disabled} (renewed : Bool)
    (hnamed : d.named = if r.host.finds r.fault then (r.host.disabled work).named else []) :
    (∀ email ∈ (if r.host.keeps r.fault then
        ((if r.host.switches r.fault then work.disableClients r.host else work).disableInbounds r.host)
        else db).off, r.enforces = true ∧ email ∈ d.named) ↔
      r.Fresh db (.ok renewed, some work) := by
  have hnames (email : String) : (r.enforces = true ∧ email ∈ d.named) ↔
      ∃ ct ∈ work.traffics.rows, ct.email = email ∧ r.host.invalidClient ct = true ∧
        r.Names work ct := by
    rw [hnamed]
    unfold Round.Names
    cases hfinds : r.host.finds r.fault with
    | false => simp
    | true =>
        have hxray : r.host.xray.isSome = true := (Bool.and_eq_true_iff.1 hfinds).1
        simp only [if_true, mem_named_disabled, hxray, true_and]
        constructor
        · rintro ⟨henforces, ct, hct, hemail, hinvalid, hdaemon⟩
          exact ⟨ct, hct, hemail, hinvalid, henforces, hdaemon⟩
        · rintro ⟨ct, hct, hemail, hinvalid, henforces, hdaemon⟩
          exact ⟨henforces, ct, hct, hemail, hinvalid, hdaemon⟩
  simp only [hnames, Round.Fresh]
  cases r.host.keeps r.fault with
  | false => simp
  | true =>
      -- an account that is off already is not among those that are named
      have hoff : (∀ email ∈ work.off, ∃ ct ∈ work.traffics.rows,
          ct.email = email ∧ r.host.invalidClient ct = true ∧ r.Names work ct) ↔ work.off = [] := by
        rw [List.eq_nil_iff_forall_not_mem]
        constructor
        · intro hall email hemail
          obtain ⟨ct, hct, rfl, hinvalid, -⟩ := hall email hemail
          exact not_mem_off_of_invalid hct hinvalid hemail
        · intro hnone email hemail
          exact absurd hemail (hnone email)
      simp only [if_true, off_disableInbounds]
      cases r.host.switches r.fault with
      | false => simp [hoff]
      | true =>
          simp only [if_true, mem_off_disableClients, or_imp, forall_and, hoff, true_imp_iff]
          refine and_congr_right fun _ => ?_
          constructor
          · intro hall ct hct hinvalid
            obtain ⟨ct', hct', hemail, -, hnamed⟩ := hall ct.email ⟨ct, hct, rfl, hinvalid⟩
            rw [Table.eq_of_key_eq hct' hct hemail] at hnamed
            exact hnamed
          · rintro hall email ⟨ct, hct, hemail, hinvalid⟩
            exact ⟨ct, hct, hemail, hinvalid, hall ct hct hinvalid⟩

/-- A tick that has something to book. -/
theorem told_iff_fresh {w : Fleet} (hbusy : (r.batch w).idle = false) :
    NodesTold w (.tick r) ↔
      (r.Reaches w.nodes → r.Fresh w.db (stage r.host (r.batch w) w.db r.fault)) := by
  simp only [NodesTold, Round.run, hbusy, Bool.false_eq_true, if_false]
  rcases stage_cases r.host (r.batch w) w.db r.fault with
    ⟨o, hstage, houtcome⟩ | ⟨o, work, hstage, houtcome⟩
  · rw [hstage]
    cases o with
    | ok renewed =>
        obtain ⟨d, hrun, hnamed⟩ := @run_settle_broken r.host r.fault w.db renewed
        rw [houtcome, hrun]
        simp only [told_iff]
        refine imp_congr_right fun _ => ?_
        rw [show unionEmails [d.l2tp, d.pptp, d.openvpn] = [] from hnamed]
        simp [Round.Fresh, List.eq_nil_iff_forall_not_mem]
    | error =>
        rw [houtcome]
        simp only [settle, Prog.run_do, Prog.run_abandon, Prog.run_pure, told_iff]
        refine imp_congr_right fun _ => ?_
        simp [Round.Fresh, List.eq_nil_iff_forall_not_mem]
    | panicked =>
        rw [houtcome]
        simp only [settle, Prog.run_do, Prog.run_finish_broken, Prog.run_pure]
        exact told_nothing_iff _
  · rw [hstage]
    cases o with
    | ok renewed =>
        obtain ⟨d, hrun, hnamed⟩ := @run_settle_ok r.host r.fault w.db work renewed
        rw [houtcome, hrun]
        simp only [told_iff]
        exact imp_congr_right fun _ => fresh_ok_iff renewed hnamed
    | error =>
        rw [houtcome]
        simp only [settle, Prog.run_do, Prog.run_abandon, Prog.run_pure, told_iff]
        refine imp_congr_right fun _ => ?_
        simp [Round.Fresh, List.eq_nil_iff_forall_not_mem]
    | panicked =>
        rw [houtcome]
        simp only [settle, Prog.run_do, Prog.run_finish_opened, Prog.run_pure]
        exact told_nothing_iff _

theorem nodesTold_iff (w : Fleet) (e : FleetEvent) : NodesTold w e ↔ NodesFresh w e := by
  cases e with
  | edit w' => exact Iff.rfl
  | tick r =>
      cases hidle : (r.batch w).idle with
      | false =>
          rw [told_iff_fresh hidle]
          simp [NodesFresh, hidle]
      | true =>
          simp only [NodesTold, NodesFresh, Round.run, hidle, if_true]
          exact told_nothing_iff _

/-- In a run, every node in reach is told at every tick every account that is off exactly
when every tick that reaches a node is fresh: no account was off before it, or all of
them were renewed by it, and what it switches off is served by L2TP, PPTP or
OpenVPN. -/
theorem nodes_told_iff (w : Fleet) (events : List FleetEvent) :
    AllSteps Fleet.step NodesTold w events ↔ AllSteps Fleet.step NodesFresh w events :=
  AllSteps.congr (fun w e (_ : True) => nodesTold_iff w e) (fun _ _ (_ : True) _ => trivial) trivial

end Runs

instance (w : Fleet) : (e : FleetEvent) → Decidable (NodesTold w e)
  | .tick _ => inferInstanceAs (Decidable (∀ n ∈ _, _ → ∀ email ∈ _, ∃ order ∈ _, _ ∧ _))
  | .edit _ => inferInstanceAs (Decidable True)

/-- Ann's L2TP account and zoe's VLESS account, each one byte from its quota. -/
def twoAccounts : Fleet where
  db :=
    { inbounds := (Table.single { base := { id := 1, tag := "l2tp", protocol := .l2tp } }).put
        { base := { id := 2, tag := "vless", protocol := .vless } }
      traffics := (Table.single { email := "ann", inboundId := 1, total := 10, up := 9 }).put
        { email := "zoe", inboundId := 2, total := 10, up := 9 } }
  nodes := Table.single { id := 7 }

/-- A tick that books one byte of an account. -/
def oneByte (email : String) (inReach : Bool) : Round where
  host := ⟨5000, some {}⟩
  own := { clients := [⟨email, 1, 0⟩] }
  reachable _ := inReach

/-- In reach, the node is told about ann in the tick that uses up her quota. -/
example : AllSteps Fleet.step NodesTold twoAccounts [.tick (oneByte "ann" true)] := by decide +kernel

/-- Out of reach in that tick, the node is sent an empty set at the next one and nothing
at an idle one, and ann is still off.  About zoe it is told in no tick. -/
theorem node_missed_tick_not_corrected :
    (Fleet.step twoAccounts (.tick (oneByte "ann" false))).db.off = ["ann"] ∧
      ((oneByte "bob" true).run (Fleet.step twoAccounts (.tick (oneByte "ann" false)))).2 = [(7, ⟨[]⟩)] ∧
      ¬AllSteps Fleet.step NodesTold twoAccounts
        [.tick (oneByte "ann" false), .tick (oneByte "bob" true)] ∧
      ¬AllSteps Fleet.step NodesTold twoAccounts
        [.tick (oneByte "ann" false), .tick { host := ⟨5000, some {}⟩ }] ∧
      ¬AllSteps Fleet.step NodesTold twoAccounts [.tick (oneByte "zoe" true)] := by
  decide +kernel

end Simorgh.Panel
