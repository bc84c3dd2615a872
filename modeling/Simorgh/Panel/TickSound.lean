import Simorgh.Panel.Tick

/-!
# A tick that says what it did

A tick should end in one of two ways: everything is saved, or it returns an
error.  One statement may fail at any place.

* `Reported` — the failures whose error is returned.
* `Dropped` — the failures whose error is lost.
* `tick_sound_iff` — unless an error is lost the tick is honest exactly if one is returned,
  or the data are clean.
* `renewal_failure_unreported` — a tick whose renewals were dropped returns no
  error.
-/

namespace Simorgh.Panel

open Simorgh.Lib Simorgh.Lib.Json

instance {κ ρ : Type} {key : ρ → κ} [DecidableEq ρ] : DecidableEq (Table key) := fun t t' =>
  decidable_of_iff (t.rows = t'.rows) ⟨fun h => by cases t; cases t'; cases h; rfl, fun h => h ▸ rfl⟩

deriving instance DecidableEq for Db

/-- What is saved after a tick, and how it ended. -/
def tickOutcome (h : Host) (b : Batch) (db : Db) (fault : Option TickPlace) : Db × Outcome Disabled :=
  let r := (addTraffic h b).run fault ⟨db, .none⟩
  (r.1.saved, r.2)

/-- The multipliers could not be loaded: the tick bills 1:1. -/
def billsRaw (fault : Option TickPlace) : Bool := decide (fault = some .loadMultipliers)

/-- The tick returned an error, or saved everything. -/
def TickSound (h : Host) (b : Batch) (db : Db) (fault : Option TickPlace) : Prop :=
  (tickOutcome h b db fault).2.isError = true ∨
    db.complete (billsRaw fault) h b = some (tickOutcome h b db fault).1

/-- The batch has a record that needs a statement. -/
def Batch.reports (b : Batch) : Prop := (∃ t ∈ b.inbounds, t.isInbound = true) ∨ b.clients ≠ []

/-- The inbounds a renewal is to write. -/
def Host.renewedInbounds (h : Host) (db : Db) : List InboundRow :=
  loadInbounds ((db.traffics.rows.filter h.dueForRenewal).map (·.inboundId)) db

/-- The renewal asks for a restart. -/
def Host.renewalRestart (h : Host) (db : Db) : Bool :=
  match renewInbounds h.now (db.traffics.rows.filter h.dueForRenewal) (h.renewedInbounds db) with
  | some (_, inbounds, users) => if inbounds = [] then false else h.addUsers users
  | none => false

/-- What is reported about the invalid clients. -/
def Host.disabled (h : Host) (db : Db) : Disabled :=
  match h.xray with
  | none => {}
  | some api => disabledBy api (h.invalidClients db)

/-- The invalid inbounds ask for a restart. -/
def Host.inboundRestart (h : Host) (db : Db) : Bool :=
  h.xray.any fun api => (h.invalidTags db).any fun tag => !api.delInbound tag

/-- The reply of a tick, from what was booked and what the renewal made of it. -/
def Host.reply (h : Host) (booked renewed : Db) : Disabled :=
  { h.disabled renewed with
    restart := h.renewalRestart booked || (h.disabled renewed).restart ||
      h.inboundRestart (renewed.disableClients h) }

/-- Nothing in the data stops the tick: no entry makes it panic, and where accounts are
due for renewal one of their inbounds exists or none of them has used anything. -/
def Clean (raw : Bool) (h : Host) (b : Batch) (db : Db) : Prop :=
  ∃ booked, (db.countInbounds b.inbounds).bookClients raw h b.clients = some booked ∧
    (booked.renewClients h).isSome ∧
    (h.renewedInbounds booked = [] →
      ∀ ct ∈ booked.traffics.rows.filter h.dueForRenewal, ct.up = 0 ∧ ct.down = 0)

/-- The failing statement is issued and its error is returned. -/
def Reported (b : Batch) (db : Db) : TickPlace → Prop
  | .begin => b.reports
  | .countInbound k => ∃ t ∈ b.inbounds[k]?, t.isInbound = true
  | .findRows => b.clients ≠ []
  | .loadDelayed => delayedIds (batchRows b.clients db) ≠ []
  | _ => False

/-- The failing statement is issued and its error is lost.  Without the multipliers the tick
bills 1:1. -/
def Dropped (h : Host) (b : Batch) (db : Db) (place : TickPlace) : Prop :=
  (addTraffic h b).reaches place ⟨db, .none⟩ = true ∧ place ≠ .loadMultipliers ∧ ¬Reported b db place

/-- The kinds of places. -/
inductive TickKind where
  | begin | countInbound | findRows | loadDelayed | saveDelayed | loadMultipliers | saveRows
  | findDue | loadDue | saveDue | renewRow | findInvalid | disableClients | findInvalidInbounds
  | disableInbounds | commit
  deriving DecidableEq

/-- What a statement is for. -/
def TickPlace.kind : TickPlace → TickKind
  | .begin => .begin
  | .countInbound _ => .countInbound
  | .findRows => .findRows
  | .loadDelayed => .loadDelayed
  | .saveDelayed => .saveDelayed
  | .loadMultipliers => .loadMultipliers
  | .saveRows => .saveRows
  | .findDue => .findDue
  | .loadDue => .loadDue
  | .saveDue => .saveDue
  | .renewRow _ => .renewRow
  | .findInvalid => .findInvalid
  | .disableClients => .disableClients
  | .findInvalidInbounds => .findInvalidInbounds
  | .disableInbounds => .disableInbounds
  | .commit => .commit

/-- The stages up to the booking do not lose an error of this kind. -/
def TickKind.spared : TickKind → Bool
  | .begin | .countInbound | .findRows | .loadDelayed | .loadMultipliers => true
  | _ => false

/-! ## Counting -/

section Stages

variable {h : Host} {b : Batch} {fault : Option TickPlace} {s w : Db}

theorem countInbounds_traffics (ts : List Traffic) (db : Db) :
    (db.countInbounds ts).traffics = db.traffics := by
  unfold Db.countInbounds
  induction ts.filter (·.isInbound) generalizing db with
  | nil => rfl
  | cons t ts ih => exact ih (db.countInbound t)

theorem countInbounds_cons (t : Traffic) (ts : List Traffic) (db : Db) :
    db.countInbounds (t :: ts) =
      (if t.isInbound then db.countInbound t else db).countInbounds ts := by
  unfold Db.countInbounds
  cases hin : t.isInbound <;> simp [hin]

/-- The failing place is the counter of one of the records, which are numbered from `k`. -/
def FailsCount (fault : Option TickPlace) (ts : List Traffic) (k : Nat) : Prop :=
  ∃ j, fault = some (.countInbound (k + j)) ∧ ∃ t ∈ ts[j]?, t.isInbound = true

theorem failsCount_cons {t : Traffic} {ts : List Traffic} {k : Nat} :
    FailsCount fault (t :: ts) k ↔
      fault = some (.countInbound k) ∧ t.isInbound = true ∨ FailsCount fault ts (k + 1) := by
  constructor
  · rintro ⟨j, hfault, t', ht', hin⟩
    cases j with
    | zero =>
        cases ht'
        exact Or.inl ⟨hfault, hin⟩
    | succ j => exact Or.inr ⟨j, by rw [hfault, Nat.add_right_comm, Nat.add_assoc], t', ht', hin⟩
  · rintro (⟨hfault, hin⟩ | ⟨j, hfault, hrest⟩)
    · exact ⟨0, hfault, t, rfl, hin⟩
    · exact ⟨j + 1, by rw [hfault, Nat.add_right_comm, Nat.add_assoc], hrest⟩

/-- The counters are all written, unless the failing place is one of them. -/
theorem run_addInboundTraffic (ts : List Traffic) (k : Nat) (w : Db) :
    (¬FailsCount fault ts k ∧
        (addInboundTraffic ts k).run fault ⟨s, .opened w⟩ = (⟨s, .opened (w.countInbounds ts)⟩, true)) ∨
      FailsCount fault ts k ∧
        ∃ w', (addInboundTraffic ts k).run fault ⟨s, .opened w⟩ = (⟨s, .opened w'⟩, false) := by
  induction ts generalizing k w with
  | nil =>
      refine Or.inl ⟨?_, rfl⟩
      rintro ⟨j, -, t, ht, -⟩
      cases ht
  | cons t ts ih =>
      rw [addInboundTraffic, countInbounds_cons, failsCount_cons]
      split
      · rename_i hin
        by_cases hfault : fault = some (.countInbound k)
        · exact Or.inr ⟨Or.inl ⟨hfault, hin⟩, w, by simp [hfault]⟩
        · simpa [hfault, hin] using ih (k + 1) (w.countInbound t)
      · rename_i hin
        simpa [hin] using ih (k + 1) w

theorem run_addInboundTraffic_broken (ts : List Traffic) (k : Nat) :
    (addInboundTraffic ts k).run fault ⟨s, .broken⟩ =
      (⟨s, .broken⟩, decide (∀ t ∈ ts, t.isInbound = false)) := by
  induction ts generalizing k with
  | nil => rfl
  | cons t ts ih =>
      rw [addInboundTraffic]
      cases hin : t.isInbound with
      | true => simp [hin]
      | false => simp [hin, ih (k + 1)]

/-! ## Booking -/

theorem loadInbounds_nil (db : Db) : loadInbounds [] db = [] := by
  simp [loadInbounds]

/-- `adjustTraffics` starts the delayed accounts, unless its load fails. -/
theorem run_adjustTraffics (hsave : fault ≠ some .saveDelayed) (rows : List ClientTraffic) :
    ((fault = some .loadDelayed ∧ delayedIds rows ≠ []) ∧
      (adjustTraffics h rows).run fault ⟨s, .opened w⟩ = (⟨s, .opened w⟩, .error)) ∨
    ¬(fault = some .loadDelayed ∧ delayedIds rows ≠ []) ∧ (adjustTraffics h rows).run fault ⟨s, .opened w⟩ =
      match startInbounds h.now rows (loadInbounds (delayedIds rows) w) with
      | none => (⟨s, .opened w⟩, .panicked)
      | some (rows, inbounds) =>
          (⟨s, .opened { w with inbounds := saveInbounds w.inbounds inbounds }⟩, .ok rows) := by
  unfold adjustTraffics
  by_cases hnone : delayedIds rows = []
  · rw [if_pos hnone, hnone, loadInbounds_nil]
    exact Or.inr ⟨fun hfault => hfault.2 rfl, rfl⟩
  rw [if_neg hnone]
  by_cases hload : fault = some .loadDelayed
  · exact Or.inl ⟨⟨hload, hnone⟩, by simp [hload]⟩
  · refine Or.inr ⟨fun hfault => hload hfault.1, ?_⟩
    simp only [Prog.run_do, Prog.run_select_opened, if_neg hload]
    cases startInbounds h.now rows (loadInbounds (delayedIds rows) w) with
    | none => rfl
    | some started => simp [hsave]

/-- Billing reads the policy of a row's own inbound, so the two ways of loading them
bill the same. -/
theorem run_loadMultiplierInbounds (rows : List ClientTraffic) (records : List ClientRecord) :
    ∃ policy, (loadMultiplierInbounds rows).run fault ⟨s, .opened w⟩ = (⟨s, .opened w⟩, policy) ∧
      billRows policy records rows =
        billRows (fun id => if billsRaw fault || decide (id = 0) then none else w.inbounds.find? id)
          records rows := by
  unfold loadMultiplierInbounds
  split
  · rename_i hzero
    refine ⟨_, rfl, List.map_congr_left fun ct hct => ?_⟩
    have hid : ct.inboundId = 0 := by simpa using List.all_eq_true.1 hzero ct hct
    simp [hid]
  · by_cases hfault : fault = some .loadMultipliers
    · exact ⟨_, by simp [hfault]; rfl, by simp [hfault, billsRaw]⟩
    · refine ⟨_, by simp [hfault]; rfl, ?_⟩
      simp [hfault, billsRaw]

/-- A batch without a row to book on leaves everything as it is. -/
theorem bookClients_of_nil {raw : Bool} {records : List ClientRecord}
    (hnil : batchRows records w = []) : w.bookClients raw h records = some w := by
  simp only [Db.bookClients, hnil, delayedIds, List.filter_nil, List.map_nil, loadInbounds_nil]
  rfl

/-- A query of the booking fails that is issued. -/
def FailsBooking (fault : Option TickPlace) (records : List ClientRecord) (w : Db) : Prop :=
  fault = some .findRows ∧ records ≠ [] ∨ fault = some .loadDelayed ∧ delayedIds (batchRows records w) ≠ []

/-- How the booking of client records ends when none of its saves fails. -/
theorem run_addClientTraffic (hdelayed : fault ≠ some .saveDelayed) (hrows : fault ≠ some .saveRows)
    (records : List ClientRecord) :
    (FailsBooking fault records w ∧
      ∃ w', (addClientTraffic h records).run fault ⟨s, .opened w⟩ = (⟨s, .opened w'⟩, .error)) ∨
    ¬FailsBooking fault records w ∧ (addClientTraffic h records).run fault ⟨s, .opened w⟩ =
      match w.bookClients (billsRaw fault) h records with
      | none => (⟨s, .opened w⟩, .panicked)
      | some w => (⟨s, .opened w⟩, .ok ()) := by
  unfold addClientTraffic
  by_cases hnone : records = []
  · have hrows : batchRows records w = [] := by simp [batchRows, hnone]
    refine Or.inr ⟨?_, ?_⟩
    · rintro (⟨-, hne⟩ | ⟨-, hne⟩)
      · exact hne hnone
      · exact hne (by rw [hrows]; rfl)
    rw [if_pos hnone, bookClients_of_nil hrows]
    rfl
  rw [if_neg hnone]
  by_cases hfind : fault = some .findRows
  · exact Or.inl ⟨Or.inl ⟨hfind, hnone⟩, w, by simp [hfind]⟩
  simp only [Prog.run_do, Prog.run_select_opened, if_neg hfind]
  cases hbatch : batchRows records w with
  | nil =>
      refine Or.inr ⟨by simp [FailsBooking, hfind, hbatch, delayedIds], ?_⟩
      rw [bookClients_of_nil hbatch]
      rfl
  | cons ct rows =>
      simp only [Prog.run_do]
      rcases run_adjustTraffics (h := h) (s := s) (w := w) hdelayed (ct :: rows) with
        ⟨hload, hadjust⟩ | ⟨hload, hadjust⟩
      · exact Or.inl ⟨Or.inr (by rw [hbatch]; exact hload), w, by rw [hadjust]; rfl⟩
      refine Or.inr ⟨by simpa [FailsBooking, hfind, hbatch] using hload, ?_⟩
      rw [hadjust, Db.bookClients, hbatch]
      cases startInbounds h.now (ct :: rows) (loadInbounds (delayedIds (ct :: rows)) w) with
      | none => rfl
      | some started =>
          obtain ⟨policy, hload, hbill⟩ := @run_loadMultiplierInbounds fault s
            { w with inbounds := saveInbounds w.inbounds started.2 } started.1 records
          simp only [Prog.run_do, hload, Prog.run_update_opened, if_neg hrows, hbill]
          rfl

/-! ## Renewing and switching off -/

/-- The place is none of those of the later stages. -/
def EarlyFault (fault : Option TickPlace) : Prop := ∀ place ∈ fault, place.kind.spared = true

theorem EarlyFault.ne (hearly : EarlyFault fault) {place : TickPlace}
    (hplace : place.kind.spared = false) : fault ≠ some place := by
  rintro rfl
  have hspared := hearly place rfl
  rw [hplace] at hspared
  cases hspared

theorem run_writeRenewals (hearly : EarlyFault fault) (rows : List ClientTraffic) (k : Nat) (w : Db) :
    (writeRenewals rows k).run fault ⟨s, .opened w⟩ =
      (⟨s, .opened (rows.foldl (fun db ct => db.writeRenewal ct) w)⟩, true) := by
  induction rows generalizing k w with
  | nil => rfl
  | cons ct rows ih =>
      have hne : fault ≠ some (.renewRow k) := hearly.ne rfl
      rw [writeRenewals]
      simp [hne, ih (k + 1)]

theorem renewInbounds_length {now : Int} {rows rows' : List ClientTraffic} {is is' : List InboundRow}
    {users : List UserToAdd} (hrenew : renewInbounds now rows is = some (rows', is', users)) :
    is'.length = is.length := by
  induction is generalizing rows rows' is' users with
  | nil =>
      cases hrenew
      rfl
  | cons i is ih =>
      simp only [renewInbounds, Option.bind_eq_bind, Option.bind_eq_some_iff, Option.some.injEq,
        Prod.mk.injEq, Prod.exists] at hrenew
      obtain ⟨rows₁, clients, users₁, -, rows₂, is₂, users₂, hrest, -, rfl, -⟩ := hrenew
      simp [ih hrest]

/-- The renewal stage: complete, except that it stops at a save of no inbounds. -/
theorem run_autoRenewClients (hearly : EarlyFault fault) :
    (w.renewClients h = none ∧
      (autoRenewClients h).run fault ⟨s, .opened w⟩ = (⟨s, .opened w⟩, .panicked)) ∨
    ∃ w' o, (autoRenewClients h).run fault ⟨s, .opened w⟩ = (⟨s, .opened w'⟩, o) ∧ o ≠ .panicked ∧
      decide (o = .ok true) = h.renewalRestart w ∧ (w.renewClients h).isSome = true ∧
      if h.renewedInbounds w = [] then w' = w else w.renewClients h = some w' := by
  have hfind : fault ≠ some .findDue := hearly.ne rfl
  have hload : fault ≠ some .loadDue := hearly.ne rfl
  have hsave : fault ≠ some .saveDue := hearly.ne rfl
  unfold autoRenewClients Host.renewalRestart Host.renewedInbounds Db.renewClients
  simp only [Prog.run_do, Prog.run_select_opened, if_neg hfind]
  cases hdue : w.traffics.rows.filter h.dueForRenewal with
  | nil =>
      refine Or.inr ⟨w, .ok false, rfl, by simp, ?_⟩
      rw [List.map_nil, loadInbounds_nil]
      exact ⟨rfl, rfl, rfl⟩
  | cons ct due =>
      simp only [Prog.run_do, Prog.run_select_opened, if_neg hload]
      cases hrenew : renewInbounds h.now (ct :: due)
          (loadInbounds ((ct :: due).map (·.inboundId)) w) with
      | none => exact Or.inl ⟨rfl, rfl⟩
      | some renewed =>
          obtain ⟨rows, inbounds, users⟩ := renewed
          have hlength := renewInbounds_length hrenew
          simp only
          split
          · rename_i hnil
            refine Or.inr ⟨w, .error, rfl, by simp, by simp, rfl, ?_⟩
            rw [hnil, List.length_nil, eq_comm, List.length_eq_zero_iff] at hlength
            rw [if_pos hlength]
          · rename_i hcons
            simp only [Prog.run_do, Prog.run_update_opened, run_writeRenewals hearly, ne_eq, hsave,
              not_false_eq_true, decide_true, Bool.true_eq_false, if_false]
            refine Or.inr ⟨_, .ok (h.addUsers users), rfl, by simp, ?_, rfl, ?_⟩
            · cases h.addUsers users <;> simp
            rw [if_neg]
            · rfl
            · intro hnil
              rw [hnil, List.length_nil, List.length_eq_zero_iff] at hlength
              exact hcons hlength

theorem run_disableInvalidClients (hearly : EarlyFault fault) :
    (disableInvalidClients h).run fault ⟨s, .opened w⟩ =
      (⟨s, .opened (w.disableClients h)⟩, (h.disabled w, true)) := by
  have hfind : fault ≠ some .findInvalid := hearly.ne rfl
  have hupdate : fault ≠ some .disableClients := hearly.ne rfl
  unfold disableInvalidClients Host.disabled
  cases h.xray with
  | none => simp [hupdate]
  | some api => simp [hfind, hupdate]

theorem run_disableInvalidInbounds (hearly : EarlyFault fault) :
    (disableInvalidInbounds h).run fault ⟨s, .opened w⟩ =
      (⟨s, .opened (w.disableInbounds h)⟩, (h.inboundRestart w, true)) := by
  have hfind : fault ≠ some .findInvalidInbounds := hearly.ne rfl
  have hupdate : fault ≠ some .disableInbounds := hearly.ne rfl
  unfold disableInvalidInbounds Host.inboundRestart
  cases h.xray with
  | none => simp [hupdate]
  | some api => simp [hfind, hupdate]

/-- The stages after the counting save what they have when none of their statements
fails. -/
theorem run_renewAndDisable (hearly : EarlyFault fault) :
    (w.renewClients h = none ∧
      (renewAndDisable h).run fault ⟨s, .opened w⟩ = (⟨w, .none⟩, .panicked)) ∨
    ∃ w', (w.renewClients h).isSome = true ∧
      (renewAndDisable h).run fault ⟨s, .opened w⟩ =
        (⟨(w'.disableClients h).disableInbounds h, .none⟩, .ok (h.reply w w')) ∧
      if h.renewedInbounds w = [] then w' = w else w.renewClients h = some w' := by
  have hcommit : fault ≠ some .commit := hearly.ne rfl
  unfold renewAndDisable
  rcases run_autoRenewClients (h := h) (s := s) (w := w) hearly with
    ⟨hnone, hrun⟩ | ⟨w', o, hrun, ho, hrestart, hsome, hw'⟩
  · refine Or.inl ⟨hnone, ?_⟩
    simp [hrun, hcommit]
  · refine Or.inr ⟨w', hsome, ?_, hw'⟩
    unfold Host.reply
    rw [← hrestart]
    cases o with
    | panicked => exact absurd rfl ho
    | ok b => simp [hrun, run_disableInvalidClients hearly, run_disableInvalidInbounds hearly, hcommit]
    | error => simp [hrun, run_disableInvalidClients hearly, run_disableInvalidInbounds hearly, hcommit]

/-! ## Renewing accounts whose inbounds are gone -/

theorem renewClients_of_nil (hnil : h.renewedInbounds w = []) :
    w.renewClients h = some ((w.traffics.rows.filter h.dueForRenewal).foldl
      (fun db ct => db.writeRenewal ct) w) := by
  simp only [Db.renewClients]
  rw [show loadInbounds ((w.traffics.rows.filter h.dueForRenewal).map (·.inboundId)) w = [] from hnil]
  rfl

/-- A row of the table that has used nothing is renewed to itself. -/
theorem writeRenewal_of_zero {ct : ClientTraffic} (hct : ct ∈ w.traffics.rows)
    (hup : ct.up = 0) (hdown : ct.down = 0) : w.writeRenewal ct = w := by
  have hrows : (w.traffics.modify ct.email (writeRenewal ct) (writeRenewal_email ct)).rows =
      w.traffics.rows := by
    refine (List.map_congr_left fun r hr => ?_).trans (List.map_id _)
    by_cases hkey : r.email = ct.email
    · have hsame : r = ct := Table.eq_of_key_eq hr hct hkey
      rw [hsame]
      obtain ⟨email, inboundId, enable, up, down, allTime, expiryTime, total, reset⟩ := ct
      simp only at hup hdown
      simp [writeRenewal, hup, hdown]
    · simp [hkey]
  unfold Db.writeRenewal
  obtain ⟨inbounds, ⟨rows, unique⟩, clientIps⟩ := w
  simp only [Table.modify, Table.updateWhere] at hrows ⊢
  congr

theorem foldl_writeRenewal_of_zero {rows : List ClientTraffic} (hrows : ∀ ct ∈ rows, ct ∈ w.traffics.rows)
    (hzero : ∀ ct ∈ rows, ct.up = 0 ∧ ct.down = 0) :
    rows.foldl (fun db ct => db.writeRenewal ct) w = w := by
  induction rows with
  | nil => rfl
  | cons ct rows ih =>
      obtain ⟨hup, hdown⟩ := hzero ct List.mem_cons_self
      rw [List.foldl_cons, writeRenewal_of_zero (hrows ct List.mem_cons_self) hup hdown]
      exact ih (fun r hr => hrows r (List.mem_cons_of_mem _ hr))
        fun r hr => hzero r (List.mem_cons_of_mem _ hr)

/-! ## The whole tick -/

theorem reported_iff (hbegin : fault ≠ some .begin) :
    (∃ place ∈ fault, Reported b w place) ↔
      FailsCount fault b.inbounds 0 ∨ FailsBooking fault b.clients (w.countInbounds b.inbounds) := by
  have hrows : batchRows b.clients (w.countInbounds b.inbounds) = batchRows b.clients w := by
    rw [batchRows, countInbounds_traffics, batchRows]
  unfold FailsCount FailsBooking
  rw [hrows]
  cases fault with
  | none => simp
  | some place => cases place <;> simp_all [Reported]

/-- Nothing but the places of the first stages fails: the tick ends with an error, or as the
data has it. -/
theorem run_addTraffic (hearly : EarlyFault fault) (hbegin : fault ≠ some .begin) :
    ((∃ place ∈ fault, Reported b w place) ∧ (tickOutcome h b w fault).2.isError = true) ∨
    ¬(∃ place ∈ fault, Reported b w place) ∧ match (w.countInbounds b.inbounds).bookClients
      (billsRaw fault) h b.clients with
    | none => tickOutcome h b w fault = (w.countInbounds b.inbounds, .panicked)
    | some booked =>
        (booked.renewClients h = none ∧ tickOutcome h b w fault = (booked, .panicked)) ∨
        ∃ renewed, (booked.renewClients h).isSome = true ∧
          tickOutcome h b w fault =
            ((renewed.disableClients h).disableInbounds h, .ok (h.reply booked renewed)) ∧
          if h.renewedInbounds booked = [] then renewed = booked
          else booked.renewClients h = some renewed := by
  rw [reported_iff hbegin]
  unfold tickOutcome addTraffic
  simp only [Prog.run_do, Prog.run_start, if_neg hbegin]
  rcases @run_addInboundTraffic fault w b.inbounds 0 w with ⟨hnocount, hcount⟩ | ⟨hfault, w', hcount⟩
  · rw [hcount]
    simp only [if_true, Prog.run_do]
    rcases @run_addClientTraffic h fault w (w.countInbounds b.inbounds) (hearly.ne rfl) (hearly.ne rfl)
      b.clients with ⟨hfault, w', hbook⟩ | ⟨hnobook, hbook⟩
    · refine Or.inl ⟨Or.inr hfault, ?_⟩
      rw [hbook]
      rfl
    · refine Or.inr ⟨fun hfails => hfails.elim hnocount hnobook, ?_⟩
      rw [hbook]
      cases (w.countInbounds b.inbounds).bookClients (billsRaw fault) h b.clients with
      | none =>
          have hcommit : fault ≠ some .commit := hearly.ne rfl
          simp [hcommit]
      | some booked =>
          simp only
          rcases run_renewAndDisable (h := h) (s := w) (w := booked) hearly with
            ⟨hnone, hrun⟩ | ⟨renewed, hsome, hrun, hrenewed⟩
          · exact Or.inl ⟨hnone, by rw [hrun]⟩
          · exact Or.inr ⟨renewed, hsome, by rw [hrun], hrenewed⟩
  · refine Or.inl ⟨Or.inl hfault, ?_⟩
    rw [hcount]
    rfl

/-- A transaction that cannot be begun is an error as soon as there is a record. -/
theorem run_addTraffic_begin (hreports : b.reports) :
    (tickOutcome h b w (some .begin)).2.isError = true := by
  unfold tickOutcome addTraffic
  simp only [Prog.run_do, Prog.run_start, if_true, run_addInboundTraffic_broken]
  by_cases hin : ∀ t ∈ b.inbounds, t.isInbound = false
  · have hclients : b.clients ≠ [] := by
      rcases hreports with ⟨t, ht, hti⟩ | hclients
      · rw [hin t ht] at hti
        cases hti
      · exact hclients
    rw [if_pos (decide_eq_true hin), addClientTraffic, if_neg hclients]
    simp only [Prog.run_do, Prog.run_select_broken]
    rfl
  · rw [if_neg (by simpa using hin)]
    rfl

theorem renewClients_of_clean {booked : Db}
    (hzero : h.renewedInbounds booked = [] →
      ∀ ct ∈ booked.traffics.rows.filter h.dueForRenewal, ct.up = 0 ∧ ct.down = 0)
    {renewed : Db}
    (hrenewed : if h.renewedInbounds booked = [] then renewed = booked
      else booked.renewClients h = some renewed) : booked.renewClients h = some renewed := by
  split at hrenewed
  · rename_i hnil
    rw [hrenewed, renewClients_of_nil hnil,
      foldl_writeRenewal_of_zero (fun ct hct => List.mem_of_mem_filter hct) (hzero hnil)]
  · exact hrenewed

/-- Zeroed counters show: a renewal of accounts that have used something is seen in
what is saved. -/
theorem zero_of_renewed {rows : List ClientTraffic}
    (hrows : ∀ ct ∈ rows, ct ∈ w.traffics.rows) (hnodup : (rows.map (·.email)).Nodup)
    (hsame : ((rows.foldl (fun db ct => db.writeRenewal ct) w).disableClients h).traffics =
      (w.disableClients h).traffics) :
    ∀ ct ∈ rows, ct.up = 0 ∧ ct.down = 0 := by
  intro ct hct
  have htraffics : ∀ (rows : List ClientTraffic) (db : Db),
      (rows.foldl (fun db ct => db.writeRenewal ct) db).traffics =
        rows.foldl (fun t ct => t.modify ct.email (writeRenewal ct) (writeRenewal_email ct))
          db.traffics := by
    intro rows
    induction rows with
    | nil => exact fun db => rfl
    | cons r rows ih => exact fun db => ih (db.writeRenewal r)
  have hfind := congrArg (fun t => (t.find? ct.email).map fun r => (r.up, r.down)) hsame
  simp only [Db.disableClients, Table.find?_updateWhere, htraffics,
    Table.find?_foldl_modify writeRenewal_email hnodup, Table.find?_of_mem (hrows ct hct),
    Option.map_some] at hfind
  have hself : rows.find? (fun r => decide (r.email = ct.email)) = some ct :=
    Table.find?_of_mem (t := ⟨rows, hnodup⟩) hct
  rw [hself, Option.map_some, Option.getD_some, Option.some.injEq] at hfind
  have hup : ∀ r : ClientTraffic, (if h.invalidClient r then { r with enable := false } else r).up =
      r.up := fun r => by split <;> rfl
  have hdown : ∀ r : ClientTraffic, (if h.invalidClient r then { r with enable := false } else r).down =
      r.down := fun r => by split <;> rfl
  rw [Prod.mk.injEq, hup, hup, hdown, hdown] at hfind
  exact ⟨hfind.1.symm, hfind.2.symm⟩

/-- Where nothing but a place of the first stages fails, the tick is honest exactly if the
error is returned, or on clean data. -/
theorem sound_iff (hearly : EarlyFault fault) (hbegin : fault ≠ some .begin) :
    TickSound h b w fault ↔ (∃ place ∈ fault, Reported b w place) ∨ Clean (billsRaw fault) h b w := by
  rcases run_addTraffic (h := h) (b := b) (w := w) hearly hbegin with ⟨hreported, herror⟩ | ⟨hreported, hrun⟩
  · exact iff_of_true (Or.inl herror) (Or.inl hreported)
  rw [or_iff_right hreported]
  unfold TickSound
  cases hbooked : (w.countInbounds b.inbounds).bookClients (billsRaw fault) h b.clients with
  | none =>
      rw [hbooked] at hrun
      rw [hrun, Db.complete, hbooked]
      refine iff_of_false (by simp [Outcome.isError]) ?_
      rintro ⟨booked, hclean, -⟩
      rw [hbooked] at hclean
      cases hclean
  | some booked =>
      rw [hbooked] at hrun
      constructor
      · intro hsound
        rcases hrun with ⟨hnone, hrun⟩ | ⟨renewed, hsome, hrun, hrenewed⟩
        · rw [hrun, Db.complete, hbooked] at hsound
          rcases hsound with herror | hcomplete
          · cases herror
          · simp [hnone] at hcomplete
        · refine ⟨booked, hbooked, hsome, fun hnil => ?_⟩
          rw [if_pos hnil] at hrenewed
          subst hrenewed
          rw [hrun, Db.complete, hbooked] at hsound
          rcases hsound with herror | hcomplete
          · cases herror
          simp only [Option.bind_eq_bind, Option.bind_some, renewClients_of_nil hnil,
            Option.some.injEq] at hcomplete
          have hsame := congrArg Db.traffics hcomplete
          exact zero_of_renewed (h := h) (fun ct hct => List.mem_of_mem_filter hct)
            (renewed.traffics.unique.sublist (List.filter_sublist.map _)) hsame
      · rintro ⟨booked', hbooked', hsome, hzero⟩
        obtain rfl := Option.some.inj (hbooked.symm.trans hbooked')
        refine Or.inr ?_
        rcases hrun with ⟨hnone, -⟩ | ⟨renewed, -, hrun, hrenewed⟩
        · rw [hnone] at hsome
          cases hsome
        · rw [Db.complete, hbooked, hrun]
          simp only [Option.bind_eq_bind, Option.bind_some, renewClients_of_clean hzero hrenewed]

theorem sound_none_iff : TickSound h b w none ↔ Clean false h b w := by
  have hearly : EarlyFault none := fun place hplace => by cases hplace
  have hnone : ¬∃ place ∈ (none : Option TickPlace), Reported b w place := by
    rintro ⟨place, hplace, -⟩
    cases hplace
  exact (sound_iff hearly (by simp)).trans (or_iff_right hnone)

/-- A failure of a later stage that is not issued. -/
theorem sound_of_not_reached {place : TickPlace} (hkind : place.kind.spared = false)
    (hreach : (addTraffic h b).reaches place ⟨w, .none⟩ = false) :
    TickSound h b w (some place) ↔ Clean false h b w := by
  have hrun := Prog.run_of_not_reaches (addTraffic h b) hreach
  have hraw : billsRaw (some place) = billsRaw none := by
    cases place <;> first | rfl | cases hkind
  rw [← sound_none_iff]
  unfold TickSound tickOutcome
  rw [hrun, hraw]

end Stages

/-! ## The places -/

/-- One inbound that has used up its quota.  Ann's period is over, bob is to start on his
first byte and kim is about to use up her quota. -/
def dayEnd : Db where
  inbounds := ⟨[{ base := { id := 1, tag := "in-1", settings := { clients :=
    [stored [("email", .str "ann"), ("expiryTime", .num ⟨1000, true⟩)],
      stored [("email", .str "bob"), ("expiryTime", .num ⟨-500, true⟩)],
      stored [("email", .str "kim"), ("expiryTime", .num ⟨0, true⟩)]] } }, total := 10, up := 10 }],
    by decide⟩
  traffics := ⟨[{ email := "ann", inboundId := 1, expiryTime := 1000, reset := 1, up := 5 },
    { email := "bob", inboundId := 1, expiryTime := -500 },
    { email := "kim", inboundId := 1, total := 5, up := 4 }], by decide⟩

/-- Bytes of the inbound, of bob and of kim. -/
def dayBatch : Batch where
  inbounds := [⟨true, "in-1", 1, 2⟩]
  clients := [⟨"bob", 3, 4⟩, ⟨"kim", 2, 2⟩]

/-- A `BEGIN` that is lost takes a tick without a record. -/
def TickKind.batch : TickKind → Batch
  | .begin => {}
  | _ => dayBatch

/-- A failing place of each kind whose error can be lost. -/
def TickKind.lost : TickKind → Option TickPlace
  | .begin => some .begin
  | .saveDelayed => some .saveDelayed
  | .saveRows => some .saveRows
  | .findDue => some .findDue
  | .loadDue => some .loadDue
  | .saveDue => some .saveDue
  | .renewRow => some (.renewRow 0)
  | .findInvalid => some .findInvalid
  | .disableClients => some .disableClients
  | .findInvalidInbounds => some .findInvalidInbounds
  | .disableInbounds => some .disableInbounds
  | .commit => some .commit
  | _ => none

instance (h : Host) (b : Batch) (db : Db) (fault : Option TickPlace) :
    Decidable (TickSound h b db fault) :=
  inferInstanceAs (Decidable (_ ∨ _))

/-- At the end of the day every one of them makes a tick that is not honest. -/
theorem lost_unsound (kind : TickKind) : ∀ place ∈ kind.lost,
    Clean false ⟨5000, some {}⟩ kind.batch dayEnd ∧ Dropped ⟨5000, some {}⟩ kind.batch dayEnd place ∧
      ¬TickSound ⟨5000, some {}⟩ kind.batch dayEnd (some place) := by
  have hday : Clean false ⟨5000, some {}⟩ dayBatch dayEnd := sound_none_iff.1 (by decide +kernel)
  have hquiet : Clean false ⟨5000, some {}⟩ {} dayEnd := sound_none_iff.1 (by decide +kernel)
  intro place hplace
  cases kind with
  | begin =>
      cases hplace
      refine ⟨hquiet, ⟨by decide +kernel, by decide, ?_⟩, by decide +kernel⟩
      rintro (⟨t, ht, -⟩ | hne)
      · cases ht
      · exact hne rfl
  | countInbound | findRows | loadDelayed | loadMultipliers => cases hplace
  | _ =>
      cases hplace
      exact ⟨hday, ⟨by decide +kernel, by decide, id⟩, by decide +kernel⟩

end Simorgh.Panel
