import Simorgh.Panel.Overlap

/-!
# The writers of the rosters

A new inbound is stored with the accounts it is posted with, normalized through
the client struct.  Here the writers run one after another: each either leaves the
inbounds as they were or saves one row.

* `Edit.addInbound` — a new inbound.
* `PanelWrite.step` — one writer, run alone.
* `step_savesRow`, `mem_step` — the row it saves.
-/

namespace Simorgh.Panel

open Simorgh.Lib Simorgh.Lib.Json

section

variable [Runtime]

/-! ## A new inbound -/

/-- The entry a new inbound stores for a posted one: the client struct written back, with
its timestamps and, on a pool protocol, a slot. -/
def newEntry (now : Int) (p : Protocol) (index : Nat) (t : Text) : Doc :=
  let number (n : Int) : Val Lit := .num ⟨n, true⟩
  let created := field "created_at" Val.int64? 0 t
  let slot := match field "slot" Val.slot? none t with
    | some s => some s
    | none => if slotPoolProtocol p then some (index : ℤ) else none
  verbatim ((Client.decode t).encode ++ slot.toList.map (fun s => ("slot", number s)) ++
    [("created_at", number (if created = 0 then now else created)), ("updated_at", number now)])

/-- The entries of a new inbound.  A document with a number beyond the float64 range is
stored as it was posted. -/
def newEntries (now : Int) (p : Protocol) (posted : List Text) : List Doc :=
  if posted.all Text.inRange then posted.zipIdx.map fun a => newEntry now p a.2 a.1
  else posted.map verbatim

/-- The row of a new inbound. -/
def InboundForm.newRow (form : InboundForm) (now : Int) (id : Nat) : InboundRow where
  base :=
    { id := id, tag := inboundTag form.listen form.port, protocol := form.protocol, enable := form.enable
      settings :=
        { clients := newEntries now form.protocol (normalizeClientEmails form.clients)
          method := form.method, authMode := form.authMode } }
  up := form.up
  down := form.down
  total := form.total
  allTime := form.allTime
  expiryTime := form.expiryTime
  multiplierEnable := form.multiplierEnable
  multiplierAfter := form.multiplierAfter
  multiplier := form.multiplier

/-- An id above every one in use. -/
def Db.freshId (db : Db) : Nat := (db.inbounds.rows.map InboundRow.id).foldl max 0 + 1

/-- The id an inbound is saved under: the posted one, or a fresh one in place of zero. -/
def Db.newId (db : Db) (form : InboundForm) : Nat := if form.id = 0 then db.freshId else form.id

/-- The refusals of a new inbound for its accounts, once their emails are found free. -/
def newClientsFault (r : Roster) (form : InboundForm) : Reply :=
  let clients := (normalizeClientEmails form.clients).map Client.decode
  if clients.any fun c => decide (clientIdentity form.protocol c = "") then
    .error (.refused "empty client ID\n")
  else if form.protocol.usernamesUnique ∧ checkPPPUsernamesForDuplicates r form.protocol clients ≠ none
  then newError "Duplicate username:" ((checkPPPUsernamesForDuplicates r form.protocol clients).getD "")
  else protocolFault form.inbound clients

/-- The traffic rows of the new accounts.  The errors are not looked at. -/
def Edit.newStats (id : Nat) : List Client → Nat → Prog Db EditPlace Unit
  | [], _ => pure ()
  | c :: cs, k => do
      let _ ← Prog.update? (.stat k) (Db.insertStat? id c)
      Edit.newStats id cs (k + 1)

/-- The transaction of a new inbound.  For a protocol Xray serves itself it panics when Xray
has never been started, and what it has written is kept. -/
def Edit.insertInbound (h : Host) (now : Int) (form : InboundForm) (id : Nat) : Edit := do
  let saved ← Prog.update? .save (Db.saveInbound? (form.newRow now id))
  if saved then do
    Edit.newStats id ((normalizeClientEmails form.clients).map Client.decode) 0
    Prog.finish .commit
    if form.enable = true ∧ form.protocol.native = true ∧ h.xray = none then pure (.error .panicked)
    else pure (.ok ())
  else do
    Prog.abandon
    pure dbError

/-- `AddInbound`.  `validate` stands for what refuses a form for its own settings, for its
port or for a daemon it shares. -/
def Edit.addInbound (h : Host) (now : Int) (validate : Db → Option String) (form : InboundForm) :
    Edit := do
  match ← Prog.select .peers validate with
  | none => pure dbError
  | some (some text) => pure (.error (.refused text))
  | some none =>
      match ← Prog.select .emails fun db => checkEmailsExistExcludingInbound db.roster
          ((normalizeClientEmails form.clients).map Client.decode) 0 with
      | none => pure dbError
      | some (some email) => pure (duplicateEmailError email)
      | some none =>
          match ← Prog.select .checks fun db => newClientsFault db.roster form with
          | none => pure dbError
          | some (.error e) => pure (.error e)
          | some (.ok _) => do
              Prog.start .begin
              match ← Prog.select .load fun db => db.newId form with
              | none => do
                  Prog.abandon
                  pure dbError
              | some id => Edit.insertInbound h now form id

/-! ## One writer alone -/

/-- A write to the rosters. -/
inductive PanelWrite where
  | addInbound (h : Host) (now : Int) (validate : Db → Option String) (form : InboundForm)
  | edit (h : Host) (id : Nat) (op : InboundOp)

/-- The statements of a write. -/
def PanelWrite.prog : PanelWrite → Edit
  | .addInbound h now validate form => Edit.addInbound h now validate form
  | .edit h id op => op.prog h id

/-- The database after the write. -/
def PanelWrite.step (db : Db) (w : PanelWrite) : Db := (w.prog.run none ⟨db, .none⟩).1.saved

/-- The row the write would save. -/
def PanelWrite.row? (db : Db) : PanelWrite → Option InboundRow
  | .addInbound _ now _ form => some (form.newRow now (db.newId form))
  | .edit _ id op => (db.inbounds.find? id).bind op.result

/-- Nothing was saved, or one row was. -/
def SavesRow (db : Db) (row : Option InboundRow) (db' : Db) : Prop :=
  db'.inbounds = db.inbounds ∨
    ∃ row' work saved, row = some row' ∧ work.inbounds = db.inbounds ∧
      Db.saveInbound? row' work = some saved ∧ db'.inbounds = saved.inbounds

omit [Runtime] in
theorem run_newStats (id : Nat) (clients : List Client) (k : Nat) (saved work : Db) :
    ∃ work' : Db, work'.inbounds = work.inbounds ∧
      (Edit.newStats id clients k).run none ⟨saved, .opened work⟩ = (⟨saved, .opened work'⟩, ()) := by
  induction clients generalizing k work with
  | nil => exact ⟨work, rfl, rfl⟩
  | cons c clients ih =>
      rw [Edit.newStats, Prog.run_do, Prog.run_update?_opened]
      obtain ⟨work', hwork', hrun⟩ := ih (k + 1)
        (Prog.applied none [(EditPlace.stat k, Db.insertStat? id c)] work).1
      refine ⟨work', hwork'.trans ?_, hrun⟩
      refine applied_inbounds (fun w hw => ?_) work
      rw [List.mem_singleton.1 hw]
      exact fun db db' h => insertStat_inbounds id c db db' h

/-- A new inbound is stored as the form has it, or nothing is. -/
theorem addInbound_savesRow (h : Host) (now : Int) (validate : Db → Option String) (form : InboundForm)
    (db : Db) :
    SavesRow db (some (form.newRow now (db.newId form)))
      ((Edit.addInbound h now validate form).run none ⟨db, .none⟩).1.saved := by
  unfold Edit.addInbound
  simp only [Prog.run_do, Prog.run_select_none, reduceCtorEq, if_false]
  cases validate db with
  | some text => exact Or.inl rfl
  | none =>
      simp only [Prog.run_do, Prog.run_select_none, reduceCtorEq, if_false]
      cases checkEmailsExistExcludingInbound db.roster
        ((normalizeClientEmails form.clients).map Client.decode) 0 with
      | some email => exact Or.inl rfl
      | none =>
          simp only [Prog.run_do, Prog.run_select_none, reduceCtorEq, if_false]
          cases newClientsFault db.roster form with
          | error e => exact Or.inl rfl
          | ok u =>
              simp only [Prog.run_do, Prog.run_start, Prog.run_select_opened, reduceCtorEq, if_false,
                Edit.insertInbound, Prog.run_update?_opened, Prog.applied]
              cases hsave : Db.saveInbound? (form.newRow now (db.newId form)) db with
              | none => exact Or.inl rfl
              | some saved =>
                  obtain ⟨work, hwork, hrun⟩ := run_newStats (db.newId form)
                    ((normalizeClientEmails form.clients).map Client.decode) 0 db saved
                  refine Or.inr ⟨_, db, saved, rfl, rfl, hsave, ?_⟩
                  simp only [if_true, Prog.run_do, hrun, Prog.run_finish_opened, reduceCtorEq, if_false]
                  split <;> exact hwork

/-- Where an operation that runs alone can be: what it has read is what is stored. -/
def Alone (h : Host) (id : Nat) (op : InboundOp) (start : Db) (db : Db) (prog : Edit) : Prop :=
  (∃ loaded, Underway h id op loaded prog ∧ prog.acked = false ∧ db.inbounds = start.inbounds ∧
    ∀ row, loaded = some row → start.inbounds.find? id = some row) ∨
  prog = pure (.ok ()) ∧ SavesRow start ((start.inbounds.find? id).bind op.result) db

theorem alone_turn {h : Host} {id : Nat} {op : InboundOp} {start : Db} (db : Db) (prog : Edit)
    (halone : Alone h id op start db prog) : Alone h id op start (prog.turn db).1 (prog.turn db).2 := by
  rcases halone with ⟨loaded, hunder, hacked, hinbounds, hloaded⟩ | ⟨rfl, hsaved⟩
  · obtain ⟨hunder', heffect⟩ := turn_effect hunder db
    generalize (prog.turn db).1 = db' at heffect
    generalize (prog.turn db).2 = prog' at heffect hunder'
    cases heffect with
    | other _ hsame hstill =>
        refine Or.inl ⟨_, hunder', ?_, hsame.trans hinbounds, fun row hrow => ?_⟩
        · by_contra hdone
          rw [Bool.not_eq_false] at hdone
          rw [hstill hdone] at hacked
          cases hacked
        · split at hrow
          · rw [← hinbounds]
            exact hrow
          · exact hloaded row hrow
    | saved row row' work hsaves _ hread hid hresult hwork hsave =>
        refine Or.inr ⟨rfl, Or.inr ⟨row', work, db', ?_, hwork.trans hinbounds, hsave, rfl⟩⟩
        rw [hloaded row hread]
        exact hresult
  · exact Or.inr ⟨rfl, hsaved⟩

theorem start_not_acked (h : Host) (id : Nat) (op : InboundOp) : (op.prog h id).acked = false := by
  cases op with
  | add now pool posted =>
      simp only [InboundOp.prog, Edit.addInboundClient]
      split <;> rfl
  | edit now posted clientId =>
      simp only [InboundOp.prog, Edit.updateInboundClient]
      split <;> rfl
  | del clientId => rfl
  | update now validate form => rfl

/-- A writer saves the row it makes of the database it starts from, or none. -/
theorem step_savesRow (db : Db) (w : PanelWrite) : SavesRow db (w.row? db) (w.step db) := by
  cases w with
  | addInbound h now validate form => exact addInbound_savesRow h now validate form db
  | edit h id op =>
      have hend := (Prog.run_of_turn alone_turn (op.prog h id)).1 db
        (Or.inl ⟨none, .start op none, start_not_acked h id op, rfl, fun row hrow => by cases hrow⟩)
      rcases hend with ⟨-, -, -, hinbounds, -⟩ | ⟨-, hsaved⟩
      · exact Or.inl hinbounds
      · exact hsaved

omit [Runtime] in
/-- The inbounds after a save: the row that was saved, and the others as they were. -/
theorem mem_saveInbound {db db' : Db} {row : InboundRow} (hsave : Db.saveInbound? row db = some db')
    {i : InboundRow} (hi : i ∈ db'.inbounds.rows) : i = row ∨ i ∈ db.inbounds.rows ∧ i.id ≠ row.id := by
  unfold Db.saveInbound? at hsave
  cases hfind : db.inbounds.find? row.id with
  | none =>
      simp only [hfind] at hsave
      split at hsave
      · cases hsave
      · obtain ⟨inbounds, hinsert, rfl⟩ := Option.map_eq_some_iff.1 hsave
        rw [(Table.insert?_eq_some hinsert).2, List.mem_append, List.mem_singleton] at hi
        rcases hi with hi | rfl
        · exact Or.inr ⟨hi, Table.find?_eq_none.1 hfind i hi⟩
        · exact Or.inl rfl
  | some old =>
      simp only [hfind] at hsave
      split at hsave
      · cases hsave
      · cases hsave
        obtain ⟨i₀, hi₀, rfl⟩ := List.mem_map.1 hi
        by_cases hid : i₀.id = row.id
        · simp only [hid, decide_true, if_true]
          exact Or.inl (InboundRow.over_self hid.symm)
        · simp only [hid, decide_false, Bool.false_eq_true, if_false]
          exact Or.inr ⟨hi₀, hid⟩

/-- Every inbound after a write is the row that was saved, or one that was not touched. -/
theorem mem_step {db : Db} {w : PanelWrite} {i : InboundRow} (hi : i ∈ (w.step db).inbounds.rows) :
    i ∈ db.inbounds.rows ∨ w.row? db = some i := by
  rcases step_savesRow db w with hsame | ⟨row', work, saved, hrow, hwork, hsave, hsaved⟩
  · exact Or.inl (hsame ▸ hi)
  · rw [hsaved] at hi
    rcases mem_saveInbound hsave hi with rfl | ⟨hmem, -⟩
    · exact Or.inr hrow
    · exact Or.inl (hwork ▸ hmem)

end

end Simorgh.Panel
