import Simorgh.Panel.Edits
import Simorgh.Panel.TickSound

/-!
# Edits that are done or not done

An edit of an inbound or a client should end in one of two ways: it returns an
error and the tables are as they were, or it returns none and all of its changes
are saved.  One statement may fail at any place.

* `all_or_nothing_iff` — for every edit, the states and failures at which it does.
* `failed_save_keeps_rows` — an edit whose last statement fails keeps the others.
-/

namespace Simorgh.Panel

open Simorgh.Lib Simorgh.Lib.Json

/-- The edit returned an error and changed nothing, or it returned none and saved what it
is to save.  A panic returns nothing. -/
def AllOrNothing (complete : Option Db) (db : Db) (r : Conn Db × Reply) : Prop :=
  match r.2 with
  | .ok _ => complete = some r.1.saved
  | .error .panicked => True
  | .error (.refused _) => r.1.saved = db

/-- What a list of writes leaves when all of them go through. -/
def written (ws : List (EditPlace × (Db → Option Db))) (db : Db) : Option Db :=
  if (Prog.applied none ws db).2 then some (Prog.applied none ws db).1 else none

/-- A transaction with this work can be left to `Edit.saveAndCommit`: a save that fails has
nothing to keep, and a commit that fails has nothing to lose. -/
def SaveSafe (fault : Option EditPlace) (row : InboundRow) (db work : Db) : Prop :=
  if fault = some .save ∨ work.saveInbound? row = none then fault = some .commit ∨ work = db
  else fault = some .commit → work.saveInbound? row = some db

section Saves

variable {fault : Option EditPlace} {row : InboundRow} {db work : Db} {complete : Option Db}

theorem allOrNothing_unchanged {e : Fault} (tx : Tx Db) : AllOrNothing complete db (⟨db, tx⟩, .error e) := by
  cases e with
  | refused text => rfl
  | panicked => trivial

theorem allOrNothing_dbError (s : Db) (tx : Tx Db) :
    AllOrNothing complete db (⟨s, tx⟩, dbError) ↔ s = db := Iff.rfl

theorem applied_fault {ws : List (EditPlace × (Db → Option Db))}
    (h : Prog.applied fault ws db = (work, true)) : written ws db = some work := by
  have happlied : Prog.applied none ws db = (work, true) := by
    induction ws generalizing db with
    | nil => exact h
    | cons w ws ih =>
        simp only [Prog.applied] at h ⊢
        split at h
        · cases h
        · cases hw : w.2 db with
          | none =>
              rw [hw] at h
              cases h
          | some next =>
              rw [hw] at h
              exact ih h
  simp [written, happlied]

/-- The end of a transaction. -/
theorem saveAndCommit_iff (hcomplete : complete = work.saveInbound? row) :
    AllOrNothing complete db ((Edit.saveAndCommit row).run fault ⟨db, .opened work⟩) ↔
      SaveSafe fault row db work := by
  unfold Edit.saveAndCommit SaveSafe
  simp only [Prog.run_do, Prog.run_update?_opened, Prog.run_finish_opened, Prog.run_pure, Prog.applied]
  by_cases hsave : fault = some .save
  · have hcommit : fault ≠ some .commit := by simp [hsave]
    simp [hsave, AllOrNothing, dbError]
  · rw [if_neg hsave]
    cases hrow : work.saveInbound? row with
    | none => by_cases hcommit : fault = some .commit <;> simp [hcommit, AllOrNothing, dbError]
    | some saved =>
        subst hcomplete
        by_cases hcommit : fault = some .commit <;> simp [hcommit, hsave, AllOrNothing, hrow]

theorem saveAndCommit_broken (row : InboundRow) (fault : Option EditPlace) (db : Db) :
    (Edit.saveAndCommit row).run fault ⟨db, .broken⟩ = (⟨db, .none⟩, dbError) := by
  simp [Edit.saveAndCommit]

theorem commitAndPanic_iff (c : Conn Db) :
    AllOrNothing complete db (Edit.commitAndPanic.run fault c) := by
  simp [Edit.commitAndPanic, AllOrNothing]

/-- A transaction whose writes fail, or that could not be begun, leaves the tables alone. -/
theorem transaction_iff {ws : List (EditPlace × (Db → Option Db))} {rest : Edit}
    (hbroken : AllOrNothing complete db (rest.run fault ⟨db, .broken⟩)) :
    AllOrNothing complete db ((Edit.transaction ws rest).run fault ⟨db, .none⟩) ↔
      (fault ≠ some .begin → ∀ work, Prog.applied fault ws db = (work, true) →
        AllOrNothing complete db (rest.run fault ⟨db, .opened work⟩)) := by
  unfold Edit.transaction
  simp only [Prog.run_do, Prog.run_start]
  by_cases hbegin : fault = some .begin
  · simp only [hbegin, if_true, ne_eq, not_true_eq_false, false_implies, iff_true]
    rw [Prog.run_updates_broken]
    cases ws with
    | nil => exact hbegin ▸ hbroken
    | cons w ws => exact allOrNothing_unchanged _
  · rw [if_neg hbegin, Prog.run_updates_opened]
    simp only [ne_eq, hbegin, not_false_eq_true, true_implies]
    rcases happlied : Prog.applied fault ws db with ⟨work, all⟩
    cases all with
    | true => simp
    | false => exact iff_of_true (allOrNothing_unchanged _) fun work' heq => by cases heq

end Saves

section

variable [Runtime]

/-! ## Editing an inbound -/

/-- The row a valid form is for. -/
def formCheck (validate : Db → Option String) (form : InboundForm) (db : Db) : Option InboundRow :=
  let clients := (normalizeClientEmails form.clients).map Client.decode
  if validate db ≠ none ∨ checkEmailsExistExcludingInbound db.roster clients form.id ≠ none then none
  else match protocolFault form.inbound clients with
    | .error _ => none
    | .ok _ => db.inbounds.find? form.id

/-- What a form is to save. -/
def updateComplete (now : Int) (validate : Db → Option String) (form : InboundForm) (db : Db) :
    Option Db := do
  let row ← formCheck validate form db
  let work ← written (formWrites form row) db
  work.saveInbound? (row.updated now form)

/-- The form is refused, fails before its save or panics; or its save is safe. -/
def UpdateSafe (h : Host) (now : Int) (validate : Db → Option String) (form : InboundForm) (db : Db)
    (fault : Option EditPlace) : Prop :=
  ∀ row work, formCheck validate form db = some row →
    fault ∉ [some .peers, some .emails, some .load, some .begin] →
    Prog.applied fault (formWrites form row) db = (work, true) →
    ¬(form.protocol.native = true ∧ h.xray = none) → SaveSafe fault (row.updated now form) db work

/-- The checks of a form leave the tables alone. -/
theorem run_updateInbound (h : Host) (now : Int) (validate : Db → Option String) (form : InboundForm)
    (db : Db) (fault : Option EditPlace) :
    ((formCheck validate form db = none ∨ fault ∈ [some .peers, some .emails, some .load]) ∧
      ∃ e, (Edit.updateInbound h now validate form).run fault ⟨db, .none⟩ = (⟨db, .none⟩, .error e)) ∨
    ∃ row, formCheck validate form db = some row ∧
      fault ∉ [some .peers, some .emails, some .load] ∧
      (Edit.updateInbound h now validate form).run fault ⟨db, .none⟩ =
        (Edit.transaction (formWrites form row) (Edit.announceAndUpdate h now form row)).run fault
          ⟨db, .none⟩ := by
  unfold Edit.updateInbound formCheck
  simp only [Prog.run_do, Prog.run_select_none]
  by_cases hpeers : fault = some .peers
  · exact Or.inl ⟨Or.inr (by simp [hpeers]), _, by simp [hpeers]; rfl⟩
  rw [if_neg hpeers]
  cases hvalid : validate db with
  | some text => exact Or.inl ⟨Or.inl (by simp), _, rfl⟩
  | none =>
      simp only [Edit.checkAndUpdate, Prog.run_do, Prog.run_select_none]
      by_cases hemails : fault = some .emails
      · exact Or.inl ⟨Or.inr (by simp [hemails]), _, by simp [hemails]; rfl⟩
      rw [if_neg hemails]
      cases htaken : checkEmailsExistExcludingInbound db.roster
          ((normalizeClientEmails form.clients).map Client.decode) form.id with
      | some email => exact Or.inl ⟨Or.inl (by simp), _, rfl⟩
      | none =>
          simp only [Edit.loadAndUpdate]
          cases hfault : protocolFault form.inbound
              ((normalizeClientEmails form.clients).map Client.decode) with
          | error e => exact Or.inl ⟨Or.inl (by simp), e, rfl⟩
          | ok u =>
              simp only [Prog.run_do, Prog.run_select_none]
              by_cases hload : fault = some .load
              · exact Or.inl ⟨Or.inr (by simp [hload]), _, by simp [hload]; rfl⟩
              rw [if_neg hload]
              cases hrow : db.inbounds.find? form.id with
              | none => exact Or.inl ⟨Or.inl (by simp), _, rfl⟩
              | some row => exact Or.inr ⟨row, by simp, by simp [hpeers, hemails, hload], rfl⟩

/-- What follows the writes of a form. -/
theorem announceAndUpdate_iff {h : Host} {now : Int} {form : InboundForm} {row : InboundRow}
    {db work : Db} {fault : Option EditPlace} {complete : Option Db}
    (hcomplete : complete = work.saveInbound? (row.updated now form)) :
    AllOrNothing complete db
        ((Edit.announceAndUpdate h now form row).run fault ⟨db, .opened work⟩) ↔
      (¬(form.protocol.native = true ∧ h.xray = none) →
        SaveSafe fault (row.updated now form) db work) := by
  unfold Edit.announceAndUpdate
  split
  · rename_i hpanics
    simp [hpanics, commitAndPanic_iff]
  · rename_i hruns
    simp only [hruns, not_false_eq_true, true_implies]
    split
    · simp only [Prog.run_do, Prog.run_select_opened]
      exact saveAndCommit_iff hcomplete
    · exact saveAndCommit_iff hcomplete

theorem announceAndUpdate_broken {h : Host} {now : Int} {form : InboundForm} {row : InboundRow}
    {db : Db} {fault : Option EditPlace} {complete : Option Db} :
    AllOrNothing complete db ((Edit.announceAndUpdate h now form row).run fault ⟨db, .broken⟩) := by
  unfold Edit.announceAndUpdate
  split
  · exact commitAndPanic_iff _
  split
  · simp only [Prog.run_do, Prog.run_select_broken, saveAndCommit_broken]
    exact allOrNothing_unchanged _
  · rw [saveAndCommit_broken]
    exact allOrNothing_unchanged _

theorem updateInbound_iff (h : Host) (now : Int) (validate : Db → Option String) (form : InboundForm)
    (db : Db) (fault : Option EditPlace) :
    AllOrNothing (updateComplete now validate form db) db
        ((Edit.updateInbound h now validate form).run fault ⟨db, .none⟩) ↔
      UpdateSafe h now validate form db fault := by
  unfold UpdateSafe
  rcases run_updateInbound h now validate form db fault with ⟨hstop, e, hrun⟩ | ⟨row, hrow, hearly, hrun⟩
  · rw [hrun]
    refine iff_of_true (allOrNothing_unchanged _) fun row work hrow hearly => ?_
    rcases hstop with hnone | hfault
    · rw [hnone] at hrow
      cases hrow
    · simp only [List.mem_cons, List.not_mem_nil, or_false, not_or] at hfault hearly
      rcases hfault with hfault | hfault | hfault
      · exact absurd hfault hearly.1
      · exact absurd hfault hearly.2.1
      · exact absurd hfault hearly.2.2.1
  · rw [hrun, transaction_iff announceAndUpdate_broken]
    simp only [List.mem_cons, List.not_mem_nil, or_false, not_or] at hearly ⊢
    have hstep : ∀ work, Prog.applied fault (formWrites form row) db = (work, true) →
        updateComplete now validate form db = work.saveInbound? (row.updated now form) := by
      intro work happlied
      simp [updateComplete, hrow, applied_fault happlied]
    constructor
    · intro hall row' work hrow' hearly' happlied
      rw [hrow, Option.some.injEq] at hrow'
      subst hrow'
      exact (announceAndUpdate_iff (hstep work happlied)).1 (hall hearly'.2.2.2 work happlied)
    · intro hsafe hbegin work happlied
      exact (announceAndUpdate_iff (hstep work happlied)).2
        (hsafe row work hrow ⟨hearly.1, hearly.2.1, hearly.2.2, hbegin⟩ happlied)

/-! ## Editing a client -/

/-- The client an edit is for: the row of its inbound, its place and what it becomes. -/
def editCheck (inboundId : Nat) (posted : List Text) (clientId : String) (db : Db) :
    Option (InboundRow × Nat × Text) :=
  let posted := normalizeClientEmails posted
  if !posted.all Text.inRange then none
  else match db.inbounds.find? inboundId, posted with
    | some row, t :: _ =>
        match editTarget row.base clientId t with
        | none => none
        | some index =>
            match updateInboundClientCheck db.roster row.base ((getClients row.base).getD index {}) index
                (posted.map Client.decode) (Client.decode t) with
            | .error _ => none
            | .ok _ => some (row, index, t)
    | _, _ => none

/-- The rows an edit is to leave. -/
def editComplete (now : Int) (inboundId : Nat) (posted : List Text) (clientId : String) (db : Db) :
    Option Db := do
  let (row, index, t) ← editCheck inboundId posted clientId db
  let oldEmail := ((getClients row.base).getD index {}).email
  let c := Client.decode t
  let work ← if c.email ≠ "" ∧ oldEmail = "" then db.insertStat? row.id c
    else written (editWrites oldEmail c) db
  work.saveInbound? (row.edited now index t)

/-- The row of a client that had none is written and the save is safe, or neither the row
nor the inbound is. -/
def NewRowSafe (fault : Option EditPlace) (row row' : InboundRow) (c : Client) (db : Db) : Prop :=
  (fault = some .save ∧ db.insertStat? row.id c = none) ∨
    (fault ≠ some (.stat 0) ∧ ∃ work, db.insertStat? row.id c = some work ∧ SaveSafe fault row' db work)

/-- The edit is refused, fails before its save or panics; or its save is safe. -/
def EditSafe (h : Host) (now : Int) (inboundId : Nat) (posted : List Text) (clientId : String) (db : Db)
    (fault : Option EditPlace) : Prop :=
  ∀ row index t, editCheck inboundId posted clientId db = some (row, index, t) →
    let old := (getClients row.base).getD index {}
    let c := Client.decode t
    fault ∉ [some .load, some .begin] →
    (editNeedsCheck row.base old c = true → fault ≠ some .checks) →
    if c.email ≠ "" ∧ old.email = "" then NewRowSafe fault row (row.edited now index t) c db
    else ∀ work, Prog.applied fault (editWrites old.email c) db = (work, true) →
      ¬(old.email ≠ "" ∧ (h.xray = none ∨ cipherPanics row.base c = true)) →
      SaveSafe fault (row.edited now index t) db work

/-- Without an email or a name to look for, the other accounts do not matter. -/
theorem check_of_not_needed {i : Inbound} {old c : Client} (hneeds : editNeedsCheck i old c = false)
    (index : Nat) (clients : List Client) (r r' : Roster) :
    updateInboundClientCheck r i old index clients c =
      updateInboundClientCheck r' i old index clients c := by
  simp only [editNeedsCheck, Bool.or_eq_false_iff, decide_eq_false_iff_not] at hneeds
  simp [updateInboundClientCheck, hneeds.1, hneeds.2]

/-- The checks of an edit leave the tables alone. -/
theorem run_updateInboundClient (h : Host) (now : Int) (inboundId : Nat) (posted : List Text)
    (clientId : String) (db : Db) (fault : Option EditPlace) :
    (∃ e, (Edit.updateInboundClient h now inboundId posted clientId).run fault ⟨db, .none⟩ =
        (⟨db, .none⟩, .error e) ∧
      (fault = some .load ∨ ∀ row index t, editCheck inboundId posted clientId db = some (row, index, t) →
        editNeedsCheck row.base ((getClients row.base).getD index {}) (Client.decode t) = true ∧
          fault = some .checks)) ∨
    ∃ row index t, editCheck inboundId posted clientId db = some (row, index, t) ∧
      fault ≠ some .load ∧
      (editNeedsCheck row.base ((getClients row.base).getD index {}) (Client.decode t) = true →
        fault ≠ some .checks) ∧
      (Edit.updateInboundClient h now inboundId posted clientId).run fault ⟨db, .none⟩ =
        (Edit.editTransaction h now row index t).run fault ⟨db, .none⟩ := by
  unfold Edit.updateInboundClient editCheck
  simp only
  split
  · exact Or.inl ⟨_, rfl, Or.inr fun row index t hnone => by cases hnone⟩
  simp only [Prog.run_do, Prog.run_select_none]
  by_cases hload : fault = some .load
  · exact Or.inl ⟨_, by simp [hload]; rfl, Or.inl hload⟩
  rw [if_neg hload]
  cases hrow : db.inbounds.find? inboundId with
  | none => exact Or.inl ⟨_, rfl, Or.inr fun row index t hnone => by cases hnone⟩
  | some row =>
      simp only [Edit.edit]
      cases hposted : normalizeClientEmails posted with
      | nil => exact Or.inl ⟨_, rfl, Or.inr fun row index t hnone => by cases hnone⟩
      | cons t ts =>
          simp only
          cases htarget : editTarget row.base clientId t with
          | none => exact Or.inl ⟨_, rfl, Or.inr fun row index t hnone => by cases hnone⟩
          | some index =>
              simp only
              cases hneeds : editNeedsCheck row.base ((getClients row.base).getD index {})
                  (Client.decode t) with
              | true =>
                  simp only [if_true, Prog.run_do, Prog.run_select_none]
                  by_cases hchecks : fault = some .checks
                  · refine Or.inl ⟨_, by simp [hchecks]; rfl, Or.inr fun row' index' t' hcheck => ?_⟩
                    split at hcheck
                    · cases hcheck
                    · cases hcheck
                      exact ⟨hneeds, hchecks⟩
                  rw [if_neg hchecks]
                  cases hcheck : updateInboundClientCheck db.roster row.base
                      ((getClients row.base).getD index {}) index ((t :: ts).map Client.decode)
                      (Client.decode t) with
                  | error e => exact Or.inl ⟨e, rfl, Or.inr fun row index t hnone => by cases hnone⟩
                  | ok u => exact Or.inr ⟨row, index, t, rfl, hload, fun _ => hchecks, rfl⟩
              | false =>
                  simp only [Bool.false_eq_true, if_false]
                  rw [check_of_not_needed hneeds index ((t :: ts).map Client.decode) ⟨Table.empty, Table.empty⟩
                    db.roster]
                  cases hcheck : updateInboundClientCheck db.roster row.base
                      ((getClients row.base).getD index {}) index ((t :: ts).map Client.decode)
                      (Client.decode t) with
                  | error e => exact Or.inl ⟨e, rfl, Or.inr fun row index t hnone => by cases hnone⟩
                  | ok u =>
                      refine Or.inr ⟨row, index, t, rfl, hload, fun hneeds' => ?_, rfl⟩
                      rw [hneeds] at hneeds'
                      cases hneeds'

section Editing

variable {h : Host} {now : Int} {row : InboundRow} {index : Nat} {t : Text} {db work : Db}
  {fault : Option EditPlace} {complete : Option Db}

omit [Runtime] in
/-- What follows the writes of an edit. -/
theorem announceAndEdit_iff (hcomplete : complete = work.saveInbound? (row.edited now index t)) :
    AllOrNothing complete db
        ((Edit.announceAndEdit h now row index t).run fault ⟨db, .opened work⟩) ↔
      (¬(((getClients row.base).getD index {}).email ≠ "" ∧
          (h.xray = none ∨ cipherPanics row.base (Client.decode t) = true)) →
        SaveSafe fault (row.edited now index t) db work) := by
  unfold Edit.announceAndEdit
  split
  · rename_i hpanics
    exact iff_of_true (commitAndPanic_iff _) fun hruns => absurd hpanics hruns
  · rename_i hruns
    rw [saveAndCommit_iff hcomplete]
    exact ⟨fun hsafe _ => hsafe, fun hsafe => hsafe hruns⟩

omit [Runtime] in
theorem announceAndEdit_broken :
    AllOrNothing complete db ((Edit.announceAndEdit h now row index t).run fault ⟨db, .broken⟩) := by
  unfold Edit.announceAndEdit
  split
  · exact commitAndPanic_iff _
  · rw [saveAndCommit_broken]
    exact allOrNothing_unchanged _

omit [Runtime] in
/-- A row that keeps its tag can be saved. -/
theorem saveInbound?_stored {row row' : InboundRow} (hrow : db.inbounds.find? row.id = some row)
    (hid : row'.id = row.id) (htag : row'.base.tag = row.base.tag) :
    db.saveInbound? row' = some { db with
      inbounds := db.inbounds.modify row'.id row'.over (InboundRow.over_id row') } := by
  rw [Db.saveInbound?, hid, hrow]
  simp [htag]

omit [Runtime] in
/-- The transaction of a client that had no row: the edit is whole only when the new row is
written. -/
theorem newRow_iff (hrow : db.inbounds.find? row.id = some row)
    (hold : ((getClients row.base).getD index {}).email = "")
    (hcomplete : complete =
      (db.insertStat? row.id (Client.decode t)).bind fun work => work.saveInbound? (row.edited now index t))
    (hbegin : fault ≠ some .begin) :
    AllOrNothing complete db ((do
        Prog.start .begin
        let _ ← Prog.update? (.stat 0) (Db.insertStat? row.id (Client.decode t))
        Edit.announceAndEdit h now row index t : Edit).run fault ⟨db, .none⟩) ↔
      NewRowSafe fault row (row.edited now index t) (Client.decode t) db := by
  have hruns : Edit.announceAndEdit h now row index t = Edit.saveAndCommit (row.edited now index t) := by
    unfold Edit.announceAndEdit
    rw [if_neg fun hpanics => hpanics.1 hold]
  have hsaves : ∀ work, fault ≠ some .save → work.inbounds = db.inbounds →
      ∃ saved, work.saveInbound? (row.edited now index t) = some saved ∧
        saved.traffics = work.traffics ∧
        (Edit.saveAndCommit (row.edited now index t)).run fault ⟨db, .opened work⟩ =
          (⟨if fault = some .commit then db else saved, .none⟩, .ok ()) := by
    intro work hfault hinbounds
    have hrow' : work.inbounds.find? row.id = some row := by
      rw [hinbounds]
      exact hrow
    have hsave := saveInbound?_stored hrow' (show (row.edited now index t).id = row.id from rfl) rfl
    refine ⟨_, hsave, rfl, ?_⟩
    simp [Edit.saveAndCommit, Prog.applied, hsave, hfault]
  simp only [Prog.run_do, Prog.run_start, if_neg hbegin, Prog.run_update?_opened, hruns, Prog.applied,
    NewRowSafe]
  by_cases hstat : fault = some (.stat 0)
  · -- the row is missing and the reply is the same
    subst hstat
    obtain ⟨saved, hsave, htraffics, hrun⟩ := hsaves db (by simp) rfl
    rw [if_pos rfl, hrun]
    simp only [AllOrNothing, hcomplete, reduceCtorEq, if_false, Option.some.injEq, false_and, false_or,
      ne_eq, not_true_eq_false, iff_false]
    cases hinsert : db.insertStat? row.id (Client.decode t) with
    | none => simp
    | some work =>
        obtain ⟨traffics, hinserted, rfl⟩ := Option.map_eq_some_iff.1 hinsert
        obtain ⟨saved', hsave', htraffics', -⟩ := hsaves { db with traffics := traffics } (by simp) rfl
        rw [Option.bind_some, hsave', Option.some.injEq]
        rintro rfl
        have hrows := congrArg (fun t => t.rows.length) (htraffics'.symm.trans htraffics)
        simp [(Table.insert?_eq_some hinserted).2] at hrows
  · rw [if_neg hstat]
    simp only [ne_eq, hstat, not_false_eq_true, true_and]
    cases hinsert : db.insertStat? row.id (Client.decode t) with
    | none =>
        simp only [hinsert, Option.bind_none] at hcomplete
        by_cases hfault : fault = some .save
        · simp [hfault, Edit.saveAndCommit, Prog.applied, AllOrNothing, dbError]
        · obtain ⟨saved, -, -, hrun⟩ := hsaves db hfault rfl
          simp [hrun, AllOrNothing, hcomplete, hfault]
    | some work =>
        have hwork : complete = work.saveInbound? (row.edited now index t) := by
          rw [hcomplete, hinsert, Option.bind_some]
        simp only
        rw [saveAndCommit_iff hwork]
        simp

end Editing

theorem editCheck_row {inboundId : Nat} {posted : List Text} {clientId : String} {db : Db}
    {row : InboundRow} {index : Nat} {t : Text}
    (h : editCheck inboundId posted clientId db = some (row, index, t)) :
    db.inbounds.find? row.id = some row := by
  unfold editCheck at h
  simp only at h
  split at h
  · cases h
  split at h
  · rename_i found hfound _
    split at h
    · cases h
    split at h
    · cases h
    cases h
    rw [(Table.find?_some hfound).2]
    exact hfound
  · cases h

theorem updateInboundClient_iff (h : Host) (now : Int) (inboundId : Nat) (posted : List Text)
    (clientId : String) (db : Db) (fault : Option EditPlace) :
    AllOrNothing (editComplete now inboundId posted clientId db) db
        ((Edit.updateInboundClient h now inboundId posted clientId).run fault ⟨db, .none⟩) ↔
      EditSafe h now inboundId posted clientId db fault := by
  unfold EditSafe
  rcases run_updateInboundClient h now inboundId posted clientId db fault with
    ⟨e, hrun, hstop⟩ | ⟨row, index, t, hcheck, hload, hchecks, hrun⟩
  · rw [hrun]
    refine iff_of_true (allOrNothing_unchanged _) fun row index t hcheck => ?_
    simp only [List.mem_cons, List.not_mem_nil, or_false, not_or]
    intro hearly hneeds
    rcases hstop with hload | hstop
    · exact absurd hload hearly.1
    · obtain ⟨hneeded, hfault⟩ := hstop row index t hcheck
      exact absurd hfault (hneeds hneeded)
  · rw [hrun]
    have hrow := editCheck_row hcheck
    have hall : AllOrNothing (editComplete now inboundId posted clientId db) db
        ((Edit.editTransaction h now row index t).run fault ⟨db, .none⟩) ↔
        (fault ≠ some .begin →
          if (Client.decode t).email ≠ "" ∧ ((getClients row.base).getD index {}).email = ""
          then NewRowSafe fault row (row.edited now index t) (Client.decode t) db
          else ∀ work, Prog.applied fault
              (editWrites ((getClients row.base).getD index {}).email (Client.decode t)) db = (work, true) →
            ¬(((getClients row.base).getD index {}).email ≠ "" ∧
              (h.xray = none ∨ cipherPanics row.base (Client.decode t) = true)) →
            SaveSafe fault (row.edited now index t) db work) := by
      unfold Edit.editTransaction
      simp only
      split
      · rename_i hnew
        have hcomplete : editComplete now inboundId posted clientId db =
            (db.insertStat? row.id (Client.decode t)).bind fun work =>
              work.saveInbound? (row.edited now index t) := by
          simp only [editComplete, hcheck, Option.bind_eq_bind, Option.bind_some, if_pos hnew]
        by_cases hbegin : fault = some .begin
        · subst hbegin
          refine iff_of_true ?_ fun hne => absurd rfl hne
          simp only [Prog.run_do, Prog.run_start, if_true, Prog.run_update?_broken]
          exact announceAndEdit_broken
        · rw [newRow_iff hrow hnew.2 hcomplete hbegin]
          exact ⟨fun hsafe _ => hsafe, fun hsafe => hsafe hbegin⟩
      · rename_i hknown
        rw [transaction_iff announceAndEdit_broken]
        refine forall_congr' fun _ => forall_congr' fun work => forall_congr' fun happlied => ?_
        refine announceAndEdit_iff ?_
        simp only [editComplete, hcheck, Option.bind_eq_bind, Option.bind_some, if_neg hknown,
          applied_fault happlied]
    rw [hall]
    simp only [List.mem_cons, List.not_mem_nil, or_false, not_or]
    constructor
    · intro hsafe row' index' t' hcheck' hearly _
      rw [hcheck, Option.some.injEq, Prod.mk.injEq, Prod.mk.injEq] at hcheck'
      obtain ⟨rfl, rfl, rfl⟩ := hcheck'
      exact hsafe hearly.2
    · intro hsafe hbegin
      exact hsafe row index t hcheck ⟨hload, hbegin⟩ hchecks

end

/-! ## Deletes that find nothing -/

theorem dropIps_eq_self_iff {db : Db} {email : String} :
    db.dropIps email = db ↔ db.clientIps.find? email = none := by
  constructor
  · intro heq
    rw [← heq]
    exact Table.find?_erase_self db.clientIps email
  · intro hnone
    have htable : db.clientIps.erase email = db.clientIps :=
      Table.ext_rows (Table.erase_rows_of_none hnone)
    unfold Db.dropIps
    rw [htable]

theorem dropRows_eq_self_iff {db : Db} {id : Nat} :
    db.dropRows id = db ↔ ∀ ct ∈ db.traffics.rows, ct.inboundId ≠ id := by
  have hrows : db.dropRows id = db ↔
      db.traffics.rows.filter (fun ct => !decide (ct.inboundId = id)) = db.traffics.rows := by
    constructor
    · exact fun heq => congrArg (fun db => db.traffics.rows) heq
    · intro heq
      have htable : (db.traffics.deleteWhere fun ct => decide (ct.inboundId = id)) = db.traffics :=
        Table.ext_rows heq
      unfold Db.dropRows
      rw [htable]
  rw [hrows, List.filter_eq_self]
  simp

/-- The addresses of several clients, deleted. -/
def Db.dropAllIps (clients : List Client) (db : Db) : Db :=
  clients.foldl (fun db c => db.dropIps c.email) db

theorem dropAllIps_traffics (clients : List Client) (db : Db) :
    (db.dropAllIps clients).traffics = db.traffics := by
  unfold Db.dropAllIps
  induction clients generalizing db with
  | nil => rfl
  | cons c clients ih => exact ih (db.dropIps c.email)

theorem dropAllIps_eq_self_iff {clients : List Client} {db : Db} :
    db.dropAllIps clients = db ↔ ∀ c ∈ clients, db.clientIps.find? c.email = none := by
  have hfind : ∀ (clients : List Client) (db : Db) (email : String),
      db.clientIps.find? email = none → (db.dropAllIps clients).clientIps.find? email = none := by
    intro clients
    induction clients with
    | nil => exact fun db email hnone => hnone
    | cons c clients ih =>
        intro db email hnone
        refine ih (db.dropIps c.email) email ?_
        rw [Db.dropIps, Table.find?_erase, hnone, ite_self]
  induction clients generalizing db with
  | nil => simp [Db.dropAllIps]
  | cons c clients ih =>
      constructor
      · intro heq
        have hc : db.clientIps.find? c.email = none := by
          rw [← heq]
          exact hfind clients (db.dropIps c.email) c.email (Table.find?_erase_self db.clientIps c.email)
        have hself := dropIps_eq_self_iff.2 hc
        have hrest : db.dropAllIps clients = db := by
          rw [Db.dropAllIps, List.foldl_cons, hself] at heq
          exact heq
        intro c' hc'
        rcases List.mem_cons.1 hc' with rfl | hc'
        · exact hc
        · exact ih.1 hrest c' hc'
      · intro hnone
        rw [Db.dropAllIps, List.foldl_cons, dropIps_eq_self_iff.2 (hnone c List.mem_cons_self)]
        exact ih.2 fun c' hc' => hnone c' (List.mem_cons_of_mem _ hc')

/-- After a delete of rows, one of addresses: both found nothing. -/
theorem dropAllIps_dropRows_iff {clients : List Client} {db : Db} {id : Nat} :
    (db.dropRows id).dropAllIps clients = db ↔
      (∀ ct ∈ db.traffics.rows, ct.inboundId ≠ id) ∧
        ∀ c ∈ clients, db.clientIps.find? c.email = none := by
  constructor
  · intro heq
    have htraffics : (db.dropRows id).traffics = db.traffics := by
      rw [← dropAllIps_traffics clients, heq]
    have hrows : db.dropRows id = db := by
      unfold Db.dropRows at htraffics ⊢
      simp only at htraffics
      rw [htraffics]
    rw [hrows] at heq
    exact ⟨dropRows_eq_self_iff.1 hrows, dropAllIps_eq_self_iff.1 heq⟩
  · rintro ⟨hrows, hips⟩
    rw [dropRows_eq_self_iff.2 hrows]
    exact dropAllIps_eq_self_iff.2 hips

section

variable [Runtime]

/-! ## Deleting an inbound -/

/-- What a deleted inbound is to leave. -/
def delInboundComplete (id : Nat) (db : Db) : Option Db :=
  (db.inbounds.find? id).map fun row =>
    Db.dropInbound row.id ((db.dropRows id).dropAllIps (getClients row.base))

/-- The delete panics, or fails at its first write; or what was deleted before it stopped
was nothing. -/
def DelInboundSafe (h : Host) (id : Nat) (db : Db) (fault : Option EditPlace) : Prop :=
  let noRows := ∀ ct ∈ db.traffics.rows, ct.inboundId ≠ id
  (fault ≠ some .findTag ∧ ((db.inbounds.find? id).any (·.base.enable)) = true ∧ h.xray = none) ∨
    fault = some .dropRows ∨
    match db.inbounds.find? id with
    | none => noRows
    | some row =>
        (fault = some .load → noRows) ∧
        (∀ k < (getClients row.base).length, fault = some (.dropIps k) →
          noRows ∧ ∀ c ∈ (getClients row.base).take k, db.clientIps.find? c.email = none) ∧
        (fault = some .dropInbound →
          noRows ∧ ∀ c ∈ getClients row.base, db.clientIps.find? c.email = none)

omit [Runtime] in
/-- The last writes of a delete, up to the one that fails. -/
theorem applied_delInboundWrites (fault : Option EditPlace) (row : InboundRow) (clients : List Client)
    (n : Nat) (db : Db) :
    Prog.applied fault (((clients.zipIdx n).map fun c =>
        (EditPlace.dropIps c.2, fun db => some (Db.dropIps c.1.email db))) ++
      [(EditPlace.dropInbound, fun db => some (Db.dropInbound row.id db))]) db =
    if fault = some .dropInbound then (db.dropAllIps clients, false)
    else match clients.zipIdx n |>.find? fun c => decide (fault = some (.dropIps c.2)) with
      | some c => (db.dropAllIps (clients.take (c.2 - n)), false)
      | none => ((db.dropAllIps clients).dropInbound row.id, true) := by
  induction clients generalizing n db with
  | nil =>
      simp only [List.zipIdx_nil, List.map_nil, List.nil_append, Prog.applied, List.find?_nil]
      split <;> rfl
  | cons c clients ih =>
      simp only [List.zipIdx_cons, List.map_cons, List.cons_append, Prog.applied, List.find?_cons]
      by_cases hfault : fault = some (.dropIps n)
      · simp [hfault, Db.dropAllIps]
      · simp only [hfault, if_false, decide_false]
        rw [ih]
        by_cases hlast : fault = some .dropInbound
        · simp [hlast, Db.dropAllIps]
        · simp only [hlast, if_false]
          cases hfind : (clients.zipIdx (n + 1)).find? fun c => decide (fault = some (.dropIps c.2)) with
          | none => rfl
          | some c' =>
              have hle : n + 1 ≤ c'.2 := (List.mem_zipIdx (List.mem_of_find?_eq_some hfind)).1
              obtain ⟨k, hk⟩ := Nat.exists_eq_add_of_le hle
              have hsub : c'.2 - n = (c'.2 - (n + 1)) + 1 := by omega
              simp [hsub, Db.dropAllIps]

omit [Runtime] in
/-- The last writes of a delete leave the tables as they were before it, or are all done. -/
theorem delInboundWrites_iff {fault : Option EditPlace} {row : InboundRow} {db : Db} {id : Nat}
    {complete : Option Db}
    (hcomplete : complete = some (Db.dropInbound row.id ((db.dropRows id).dropAllIps (getClients row.base)))) :
    AllOrNothing complete db
        (((do
          let deleted ← Prog.updates (delInboundWrites row)
          pure (if deleted then .ok () else dbError)) : Edit).run fault ⟨db.dropRows id, .none⟩) ↔
      (∀ k < (getClients row.base).length, fault = some (.dropIps k) →
        (∀ ct ∈ db.traffics.rows, ct.inboundId ≠ id) ∧
          ∀ c ∈ (getClients row.base).take k, db.clientIps.find? c.email = none) ∧
      (fault = some .dropInbound → (∀ ct ∈ db.traffics.rows, ct.inboundId ≠ id) ∧
        ∀ c ∈ getClients row.base, db.clientIps.find? c.email = none) := by
  simp only [Prog.run_do, Prog.run_pure, Prog.run_updates_none]
  rw [delInboundWrites, applied_delInboundWrites fault row (getClients row.base) 0 (db.dropRows id)]
  by_cases hlast : fault = some .dropInbound
  · rw [if_pos hlast]
    simp only [Bool.false_eq_true, if_false, allOrNothing_dbError, dropAllIps_dropRows_iff]
    simp [hlast]
  · rw [if_neg hlast]
    cases hfind : ((getClients row.base).zipIdx 0).find? fun c => decide (fault = some (.dropIps c.2)) with
    | none =>
        refine iff_of_true ?_ ⟨fun k hk hfault => ?_, fun hfault => absurd hfault hlast⟩
        · exact hcomplete
        · rw [List.find?_eq_none] at hfind
          have hmem : ((getClients row.base)[k], k) ∈ (getClients row.base).zipIdx 0 := by
            rw [List.mem_zipIdx_iff_getElem?]
            simp [hk]
          exact absurd hfault (by simpa using hfind _ hmem)
    | some c =>
        have hfault : fault = some (.dropIps c.2) := by simpa using List.find?_some hfind
        have hlt : c.2 < (getClients row.base).length := by
          simpa using (List.mem_zipIdx (List.mem_of_find?_eq_some hfind)).2.1
        simp only [Bool.false_eq_true, if_false, allOrNothing_dbError, dropAllIps_dropRows_iff,
          Nat.sub_zero]
        constructor
        · intro hnothing
          refine ⟨fun k hk hfault' => ?_, fun hfault' => absurd hfault' hlast⟩
          rw [hfault, Option.some.injEq, EditPlace.dropIps.injEq] at hfault'
          rw [← hfault']
          exact hnothing
        · exact fun hsafe => hsafe.1 c.2 hlt hfault

omit [Runtime] in
theorem dropEverything_iff (id : Nat) (db : Db) (fault : Option EditPlace) :
    AllOrNothing (delInboundComplete id db) db ((Edit.dropEverything id).run fault ⟨db, .none⟩) ↔
      fault = some .dropRows ∨
        match db.inbounds.find? id with
        | none => ∀ ct ∈ db.traffics.rows, ct.inboundId ≠ id
        | some row =>
            (fault = some .load → ∀ ct ∈ db.traffics.rows, ct.inboundId ≠ id) ∧
            (∀ k < (getClients row.base).length, fault = some (.dropIps k) →
              (∀ ct ∈ db.traffics.rows, ct.inboundId ≠ id) ∧
                ∀ c ∈ (getClients row.base).take k, db.clientIps.find? c.email = none) ∧
            (fault = some .dropInbound → (∀ ct ∈ db.traffics.rows, ct.inboundId ≠ id) ∧
              ∀ c ∈ getClients row.base, db.clientIps.find? c.email = none) := by
  unfold Edit.dropEverything
  simp only [Prog.run_do, Prog.run_update_none]
  by_cases hdrop : fault = some .dropRows
  · simp [hdrop, allOrNothing_dbError]
  simp only [hdrop, if_false, false_or, ne_eq, not_false_eq_true, decide_true, Bool.true_eq_false,
    Prog.run_do, Prog.run_select_none]
  have hfind : (db.dropRows id).inbounds.find? id = db.inbounds.find? id := rfl
  by_cases hload : fault = some .load
  · have hall : AllOrNothing (delInboundComplete id db) db (⟨db.dropRows id, .none⟩, dbError) ↔
        ∀ ct ∈ db.traffics.rows, ct.inboundId ≠ id :=
      (allOrNothing_dbError _ _).trans dropRows_eq_self_iff
    rw [if_pos hload]
    cases db.inbounds.find? id with
    | none => exact hall
    | some row => simpa [hload] using hall
  · rw [if_neg hload, hfind]
    cases hrow : db.inbounds.find? id with
    | none => exact dropRows_eq_self_iff
    | some row =>
        have hcomplete : delInboundComplete id db =
            some (Db.dropInbound row.id ((db.dropRows id).dropAllIps (getClients row.base))) := by
          rw [delInboundComplete, hrow]
          rfl
        simp only [hload, false_implies, true_and]
        exact delInboundWrites_iff hcomplete

omit [Runtime] in
theorem delInbound_iff (h : Host) (id : Nat) (db : Db) (fault : Option EditPlace) :
    AllOrNothing (delInboundComplete id db) db ((Edit.delInbound h id).run fault ⟨db, .none⟩) ↔
      DelInboundSafe h id db fault := by
  have htag : ((if fault = some .findTag then none
      else some ((db.inbounds.find? id).filter (·.base.enable))).join.isSome = true ∧ h.xray = none) ↔
      fault ≠ some .findTag ∧ ((db.inbounds.find? id).any (·.base.enable)) = true ∧ h.xray = none := by
    by_cases hfind : fault = some .findTag
    · simp [hfind]
    · cases db.inbounds.find? id with
      | none => simp [hfind]
      | some row => cases henable : row.base.enable <;> simp [hfind, henable, Option.filter]
  unfold Edit.delInbound DelInboundSafe
  simp only [Prog.run_do, Prog.run_update_none, Prog.run_select_none, ite_self, htag]
  by_cases hpanics : fault ≠ some .findTag ∧ ((db.inbounds.find? id).any (·.base.enable)) = true ∧
      h.xray = none
  · rw [if_pos hpanics]
    exact iff_of_true trivial (Or.inl hpanics)
  · rw [if_neg hpanics, dropEverything_iff]
    exact ⟨Or.inr, fun hsafe => hsafe.resolve_left hpanics⟩

/-! ## Deleting a client -/

/-- The clients a deletion is for: the row of their inbound, and the last of them. -/
def delCheck (inboundId : Nat) (clientId : String) (db : Db) : Option (InboundRow × Doc) :=
  match db.inbounds.find? inboundId with
  | none => none
  | some row =>
      match (row.base.settings.clients.filter (hasIdentity row.base.protocol clientId)).getLast? with
      | none => none
      | some last =>
          if (row.without clientId).base.settings.clients = [] then none else some (row, last)

/-- What a deletion is to leave. -/
def delComplete (inboundId : Nat) (clientId : String) (db : Db) : Option Db := do
  let (row, last) ← delCheck inboundId clientId db
  let email := last.str "email"
  if email = "" then (db.dropIps email).saveInbound? (row.without clientId)
  else do
    let _ ← db.traffics.find? email
    ((db.dropIps email).dropStat email).saveInbound? (row.without clientId)

/-- The deletion is refused, fails at its first write or panics; or it stopped with nothing
deleted, or did not stop. -/
def DelSafe (h : Host) (inboundId : Nat) (clientId : String) (db : Db) (fault : Option EditPlace) : Prop :=
  ∀ row last, delCheck inboundId clientId db = some (row, last) → fault ∉ [some .load, some .ips] →
    let email := last.str "email"
    let noIps := db.clientIps.find? email = none
    if email = "" then fault = some .save → noIps
    else match db.traffics.find? email with
      | none => noIps
      | some ct =>
          if fault = some .findStat ∨ fault = some (.stat 0) then noIps
          else ¬(last.bool "enable" = true ∧ ct.enable = true ∧ h.xray = none) → fault ≠ some .save

omit [Runtime] in
/-- The save of a row that is stored. -/
theorem saveRow_iff {fault : Option EditPlace} {row : InboundRow} {db work saved : Db}
    {complete : Option Db} (hsave : work.saveInbound? row = some saved) (hcomplete : complete = some saved) :
    AllOrNothing complete db ((Edit.saveRow row).run fault ⟨work, .none⟩) ↔
      (fault = some .save → work = db) := by
  unfold Edit.saveRow
  simp only [Prog.run_do, Prog.run_update?_none, Prog.applied, Prog.run_pure]
  by_cases hfault : fault = some .save
  · simp [hfault, allOrNothing_dbError]
  · simp [hfault, hsave, AllOrNothing, hcomplete]

omit [Runtime] in
theorem dropStat_ne {db : Db} {email : String} {ct : ClientTraffic}
    (hct : db.traffics.find? email = some ct) : (db.dropIps email).dropStat email ≠ db := by
  intro heq
  have hfind := congrArg (fun db => db.traffics.find? email) heq
  rw [hct] at hfind
  simp [Db.dropStat, Db.dropIps] at hfind

omit [Runtime] in
/-- The writes of a deletion. -/
theorem delWrites_iff {h : Host} {row : InboundRow} {clientId : String} {last : Doc} {db : Db}
    {fault : Option EditPlace} {complete : Option Db} (hrow : db.inbounds.find? row.id = some row)
    (hcomplete : complete = if last.str "email" = "" then
        (db.dropIps (last.str "email")).saveInbound? (row.without clientId)
      else (db.traffics.find? (last.str "email")).bind fun _ =>
        ((db.dropIps (last.str "email")).dropStat (last.str "email")).saveInbound? (row.without clientId)) :
    AllOrNothing complete db ((Edit.delWrites h row clientId last).run fault ⟨db, .none⟩) ↔
      (fault ≠ some .ips →
        if last.str "email" = "" then fault = some .save → db.clientIps.find? (last.str "email") = none
        else match db.traffics.find? (last.str "email") with
          | none => db.clientIps.find? (last.str "email") = none
          | some ct =>
              if fault = some .findStat ∨ fault = some (.stat 0)
              then db.clientIps.find? (last.str "email") = none
              else ¬(last.bool "enable" = true ∧ ct.enable = true ∧ h.xray = none) →
                fault ≠ some .save) := by
  have hsave : ∀ work : Db, work.inbounds = db.inbounds →
      ∃ saved, work.saveInbound? (row.without clientId) = some saved := by
    intro work hinbounds
    have hrow' : work.inbounds.find? row.id = some row := by
      rw [hinbounds]
      exact hrow
    exact ⟨_, saveInbound?_stored hrow' (show (row.without clientId).id = row.id from rfl) rfl⟩
  unfold Edit.delWrites Edit.delRow Edit.delStat
  generalize last.str "email" = email at hcomplete ⊢
  simp only [Prog.run_do, Prog.run_update_none]
  by_cases hips : fault = some .ips
  · simp [hips, allOrNothing_dbError]
  simp only [hips, if_false, ne_eq, not_false_eq_true, decide_true, Bool.true_eq_false, true_implies]
  by_cases hemail : email = ""
  · obtain ⟨saved, hsaved⟩ := hsave (db.dropIps email) rfl
    rw [if_pos hemail, hsaved] at hcomplete
    rw [if_pos hemail, if_pos hemail, saveRow_iff hsaved hcomplete]
    exact imp_congr Iff.rfl dropIps_eq_self_iff
  rw [if_neg hemail] at hcomplete
  simp only [if_neg hemail, Prog.run_do, Prog.run_select_none]
  have hfind : (db.dropIps email).traffics.find? email = db.traffics.find? email := rfl
  have hstopped : ∀ text, AllOrNothing complete db (⟨db.dropIps email, .none⟩, .error (.refused text)) ↔
      db.clientIps.find? email = none := fun text => dropIps_eq_self_iff
  cases hct : db.traffics.find? email with
  | none =>
      rw [hfind, hct]
      by_cases hstat : fault = some .findStat
      · simpa [hstat, dbError] using hstopped "database error"
      · simpa [hstat, recordNotFound] using hstopped "record not found"
  | some ct =>
      rw [hfind, hct]
      simp only [hct, Option.bind_some] at hcomplete
      by_cases hstat : fault = some .findStat
      · simpa [hstat, dbError] using hstopped "database error"
      simp only [hstat, if_false, Prog.run_do, Prog.run_update_none, false_or]
      by_cases hdrop : fault = some (.stat 0)
      · simpa [hdrop, dbError] using hstopped "database error"
      simp only [hdrop, if_false, ne_eq, not_false_eq_true, decide_true, Bool.true_eq_false]
      split
      · rename_i hpanics
        exact iff_of_true trivial fun hruns => absurd hpanics hruns
      · rename_i hruns
        obtain ⟨saved, hsaved⟩ := hsave ((db.dropIps email).dropStat email) rfl
        rw [saveRow_iff hsaved (hcomplete.trans hsaved)]
        simp only [hruns, not_false_eq_true, true_implies]
        exact imp_congr Iff.rfl (iff_of_false (dropStat_ne hct) id)

omit [Runtime] in
theorem delInboundClient_iff (h : Host) (inboundId : Nat) (clientId : String) (db : Db)
    (fault : Option EditPlace) :
    AllOrNothing (delComplete inboundId clientId db) db
        ((Edit.delInboundClient h inboundId clientId).run fault ⟨db, .none⟩) ↔
      DelSafe h inboundId clientId db fault := by
  unfold Edit.delInboundClient DelSafe delComplete delCheck
  simp only [Prog.run_do, Prog.run_select_none]
  by_cases hload : fault = some .load
  · rw [if_pos hload]
    refine iff_of_true (allOrNothing_unchanged _) fun row last hcheck hearly => ?_
    simp [hload] at hearly
  rw [if_neg hload]
  have hrefused : ∀ complete : Option Db, ∀ e, AllOrNothing complete db (⟨db, .none⟩, .error e) :=
    fun complete e => allOrNothing_unchanged _
  cases hrow : db.inbounds.find? inboundId with
  | none => exact iff_of_true (hrefused _ _) fun row last hcheck => by cases hcheck
  | some row =>
      have hid : db.inbounds.find? row.id = some row := by
        rw [(Table.find?_some hrow).2]
        exact hrow
      simp only [Edit.del]
      cases hlast : (row.base.settings.clients.filter
          (hasIdentity row.base.protocol clientId)).getLast? with
      | none => exact iff_of_true (hrefused _ _) fun row last hcheck => by cases hcheck
      | some last =>
          simp only
          split
          · exact iff_of_true (hrefused _ _) fun row last hcheck => by cases hcheck
          · refine (delWrites_iff hid rfl).trans ?_
            simp only [Option.some.injEq, Prod.mk.injEq, and_imp, List.mem_cons, List.not_mem_nil,
              or_false, not_or, hload, not_false_eq_true, true_and, ne_eq]
            constructor
            · rintro hsafe row' last' rfl rfl
              exact hsafe
            · exact fun hsafe => hsafe row last rfl rfl

/-! ## Every edit -/

/-- The edits of inbounds and clients. -/
inductive InboundEdit where
  | updateInbound (now : Int) (validate : Db → Option String) (form : InboundForm)
  | updateInboundClient (now : Int) (inboundId : Nat) (posted : List Text) (clientId : String)
  | delInbound (id : Nat)
  | delInboundClient (inboundId : Nat) (clientId : String)

/-- The statements of an edit. -/
def InboundEdit.prog (h : Host) : InboundEdit → Edit
  | .updateInbound now validate form => Edit.updateInbound h now validate form
  | .updateInboundClient now inboundId posted clientId =>
      Edit.updateInboundClient h now inboundId posted clientId
  | .delInbound id => Edit.delInbound h id
  | .delInboundClient inboundId clientId => Edit.delInboundClient h inboundId clientId

/-- What an edit is to save. -/
def InboundEdit.complete (db : Db) : InboundEdit → Option Db
  | .updateInbound now validate form => updateComplete now validate form db
  | .updateInboundClient now inboundId posted clientId => editComplete now inboundId posted clientId db
  | .delInbound id => delInboundComplete id db
  | .delInboundClient inboundId clientId => delComplete inboundId clientId db

/-- The states and failures at which an edit is whole. -/
def InboundEdit.Safe (h : Host) (db : Db) (fault : Option EditPlace) : InboundEdit → Prop
  | .updateInbound now validate form => UpdateSafe h now validate form db fault
  | .updateInboundClient now inboundId posted clientId =>
      EditSafe h now inboundId posted clientId db fault
  | .delInbound id => DelInboundSafe h id db fault
  | .delInboundClient inboundId clientId => DelSafe h inboundId clientId db fault

/-- An edit is done or not done exactly at these states and failures. -/
theorem all_or_nothing_iff (h : Host) (db : Db) (fault : Option EditPlace) (edit : InboundEdit) :
    AllOrNothing (edit.complete db) db ((edit.prog h).run fault ⟨db, .none⟩) ↔ edit.Safe h db fault := by
  cases edit with
  | updateInbound now validate form => exact updateInbound_iff h now validate form db fault
  | updateInboundClient now inboundId posted clientId =>
      exact updateInboundClient_iff h now inboundId posted clientId db fault
  | delInbound id => exact delInbound_iff h id db fault
  | delInboundClient inboundId clientId => exact delInboundClient_iff h inboundId clientId db fault

end

/-- One inbound with ann and bob. -/
def annAndBob : Db where
  inbounds := ⟨[{ base := { id := 1, tag := "inbound-443", protocol := .vless, settings := { clients :=
    [stored [("email", .str "ann"), ("id", .str "a1")],
      stored [("email", .str "bob"), ("id", .str "b1")]] } } }], by decide⟩
  traffics := ⟨[{ email := "ann", inboundId := 1, up := 7 }, { email := "bob", inboundId := 1 }], by decide⟩
  clientIps := ⟨[⟨"ann", "[]"⟩], by decide⟩

/-- Ann becomes eve. -/
def annToEve : InboundEdit :=
  .updateInboundClient 5000 1 [[("email", .str "eve"), ("id", .str "a1")]] "a1"

instance (complete : Option Db) (db : Db) (r : Conn Db × Reply) :
    Decidable (AllOrNothing complete db r) := by
  unfold AllOrNothing
  split <;> infer_instance

/-- An edit of ann and bob's inbound with one place that fails. -/
def annAndBobAfter (edit : InboundEdit) (fault : Option EditPlace) : Conn Db × Reply :=
  (@InboundEdit.prog Runtime.ascii ⟨5000, some {}⟩ edit).run fault ⟨annAndBob, .none⟩

/-- Ann is renamed and the last statement fails: the edit returns an error, and ann's row
is eve's all the same.  A commit that fails is not noticed, and a deletion that fails at its
save keeps its deletes. -/
theorem failed_save_keeps_rows :
    (annAndBobAfter annToEve (some .save)).2 = dbError ∧
      ((annAndBobAfter annToEve (some .save)).1.saved.traffics.find? "eve").map (·.up) = some 7 ∧
      (annAndBobAfter annToEve (some .save)).1.saved.inbounds = annAndBob.inbounds ∧
      ¬AllOrNothing (@InboundEdit.complete Runtime.ascii annAndBob annToEve) annAndBob
        (annAndBobAfter annToEve (some .save)) ∧
      (annAndBobAfter annToEve (some .commit)).2 = .ok () ∧
      (annAndBobAfter annToEve (some .commit)).1.saved = annAndBob ∧
      ¬AllOrNothing (@InboundEdit.complete Runtime.ascii annAndBob annToEve) annAndBob
        (annAndBobAfter annToEve (some .commit)) ∧
      (annAndBobAfter (.delInboundClient 1 "a1") (some .save)).2 = dbError ∧
      (annAndBobAfter (.delInboundClient 1 "a1") (some .save)).1.saved.traffics.find? "ann" = none := by
  decide +kernel

end Simorgh.Panel
