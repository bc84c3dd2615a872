import Simorgh.Lib.Run
import Simorgh.Panel.Carry
import Simorgh.Panel.Edits

/-!
# Edits that overlap

Several operations on the clients of one inbound run beside each other and beside
the ticks.  Each takes its turns one statement, or one transaction, at a time; it
reads the inbound's row in one turn and writes the whole row in a later one.

* `Underway` — the programs an operation can be left with between its turns.
* `no_lost_update` — when every save finds the row its operation has read, nothing
  that was acknowledged is lost and no counter is set back.
* `second_save_loses_client` — otherwise both happen.
-/

namespace Simorgh.Panel

open Simorgh.Lib Simorgh.Lib.Json

/-- An operation on the clients of an inbound. -/
inductive InboundOp where
  | add (now : Int) (pool : Inbound → Option String) (posted : List Text)
  | edit (now : Int) (posted : List Text) (clientId : String)
  | del (clientId : String)
  | update (now : Int) (validate : Db → Option String) (form : InboundForm)

/-- The program is about to read the inbound's row. -/
def Edit.loads : Edit → Bool
  | .read .load _ => true
  | _ => false

/-- The program is about to write the inbound's row. -/
def Edit.saves : Edit → Bool
  | .begin _ _ => true
  | .write .save _ _ => true
  | _ => false

/-- The operation has returned without an error. -/
def Edit.acked : Edit → Bool
  | .done (.ok _) => true
  | _ => false

/-- The identity of an entry, as an edit looks for it. -/
def entryIdentity (p : Protocol) (d : Doc) : String := clientIdentity p (Client.decode d.members)

section

variable [Runtime]

/-- The statements of an operation on the inbound with this id. -/
def InboundOp.prog (h : Host) (id : Nat) : InboundOp → Edit
  | .add now pool posted => Edit.addInboundClient h now pool id posted
  | .edit now posted clientId => Edit.updateInboundClient h now id posted clientId
  | .del clientId => Edit.delInboundClient h id clientId
  | .update now validate form => Edit.updateInbound h now validate { form with id := id }

/-- The row an operation makes of the row it has read. -/
def InboundOp.result (row : InboundRow) : InboundOp → Option InboundRow
  | .add now _ posted => some (row.added now (normalizeClientEmails posted))
  | .edit now posted clientId =>
      match normalizeClientEmails posted with
      | [] => none
      | t :: _ => (editTarget row.base clientId t).map fun index => row.edited now index t
  | .del clientId => some (row.without clientId)
  | .update now _ form => some (row.updated now form)

/-- The entries that must be there once the operation has been acknowledged.  An edit and
a deletion settle the entries of their client, an edit of the inbound settles all. -/
def InboundOp.present (row : InboundRow) (present : List Doc) : InboundOp → List Doc
  | .add now _ posted => present ++ addedEntries now row.base (normalizeClientEmails posted)
  | .edit now posted clientId =>
      match normalizeClientEmails posted with
      | [] => present
      | t :: _ =>
          (present.filter fun d => decide (entryIdentity row.base.protocol d ≠ clientId)) ++
            ((editTarget row.base clientId t).map fun index => editedEntry now row.base index t).toList
  | .del clientId => present.filter fun d => !hasIdentity row.base.protocol clientId d
  | .update now _ form => (row.updated now form).base.settings.clients

/-- The identities that must be gone once the operation has been acknowledged. -/
def InboundOp.gone (row : InboundRow) (gone : List String) : InboundOp → List String
  | .add now _ posted => gone.filter fun clientId =>
      !(addedEntries now row.base (normalizeClientEmails posted)).any
        (hasIdentity row.base.protocol clientId)
  | .edit now posted clientId =>
      match normalizeClientEmails posted with
      | [] => gone
      | t :: _ => gone.filter fun other => !((editTarget row.base clientId t).any fun index =>
          hasIdentity row.base.protocol other (editedEntry now row.base index t))
  | .del clientId => clientId :: gone
  | .update now _ form =>
      (gone ++ row.base.settings.clients.map (·.str (clientIdentityKey row.base.protocol))).filter
        fun clientId => !(row.updated now form).base.settings.clients.any
          (hasIdentity form.protocol clientId)

/-! ## The system -/

/-- An operation under way, and the row it has read. -/
structure Thread where
  op : InboundOp
  prog : Edit
  loaded : Option InboundRow := none

/-- The database, the operations on it, and what has been acknowledged. -/
structure Shared where
  db : Db
  threads : List Thread
  present : List Doc := []
  gone : List String := []

/-- A turn of a request, or a tick. -/
inductive InboundEvent where
  | turn (k : Nat)
  | tick (h : Host) (b : Batch)

/-- All the operations, none of them begun. -/
def Shared.start (id : Nat) (db : Db) (ops : List (Host × InboundOp)) : Shared where
  db := db
  threads := ops.map fun op => { op := op.2, prog := op.2.prog op.1 id }

/-- The thread after its turn. -/
def Thread.turned (id : Nat) (db : Db) (th : Thread) : Thread :=
  { th with
    prog := (th.prog.turn db).2
    loaded := if th.prog.loads then db.inbounds.find? id else th.loaded }

/-- One operation takes a turn, or a tick comes. -/
def Shared.step (id : Nat) (s : Shared) : InboundEvent → Shared
  | .tick h b => { s with db := (tickOutcome h b s.db none).1 }
  | .turn k =>
      match s.threads[k]? with
      | none => s
      | some th =>
          let moved : Shared :=
            { s with db := (th.prog.turn s.db).1, threads := s.threads.set k (th.turned id s.db) }
          if (th.turned id s.db).prog.acked && !th.prog.acked then
            match th.loaded with
            | none => moved
            | some row =>
                { moved with present := th.op.present row s.present, gone := th.op.gone row s.gone }
          else moved

/-- The inbound has the entries that must be there, and none of those that must not. -/
structure Keeps (row : InboundRow) (present : List Doc) (gone : List String) : Prop where
  present : ∀ d ∈ present, ∃ d' ∈ row.base.settings.clients, Rewritten d d'
  gone : ∀ clientId ∈ gone, ∀ d' ∈ row.base.settings.clients,
    hasIdentity row.base.protocol clientId d' = false

/-- What was acknowledged is there. -/
def Shared.Kept (id : Nat) (s : Shared) : Prop :=
  ∀ row ∈ s.db.inbounds.find? id, Keeps row s.present s.gone

/-- The counters of the inbound are not set back by the turn of an operation. -/
def Shared.CountersKept (id : Nat) (s : Shared) : InboundEvent → Prop
  | .tick _ _ => True
  | .turn k => ∀ row ∈ s.db.inbounds.find? id, ∀ row' ∈ (s.step id (.turn k)).db.inbounds.find? id,
      row.up ≤ row'.up ∧ row.down ≤ row'.down ∧ row.allTime ≤ row'.allTime

/-- The form does not reset the counters. -/
def InboundOp.keepsCounters (row : Option InboundRow) : InboundOp → Bool
  | .update _ _ form => row.all fun row => decide (row.up ≤ form.up) && decide (row.down ≤ form.down)
  | _ => true

/-- An operation that saves finds the row it has read. -/
def Shared.undisturbed (id : Nat) (s : Shared) : InboundEvent → Bool
  | .tick _ _ => true
  | .turn k => (s.threads[k]?).all fun th =>
      !th.prog.saves ||
        (decide (th.loaded = s.db.inbounds.find? id) && th.op.keepsCounters th.loaded)

/-! ## Where an operation can be -/

/-- What an operation can be left with between its turns, and the row it has read. -/
inductive Underway (h : Host) (id : Nat) : InboundOp → Option InboundRow → Edit → Prop where
  | start (op : InboundOp) (loaded : Option InboundRow) : Underway h id op loaded (op.prog h id)
  | done (op : InboundOp) (loaded : Option InboundRow) (r : Reply) : Underway h id op loaded (pure r)
  | addLoad (now : Int) (pool : Inbound → Option String) (posted : List Text)
      (loaded : Option InboundRow) :
      Underway h id (.add now pool posted) loaded
        (Edit.loadAndAdd h now pool id (normalizeClientEmails posted))
  | addCheck (now : Int) (pool : Inbound → Option String) (posted : List Text) (row : InboundRow)
      (hid : row.id = id) :
      Underway h id (.add now pool posted) (some row)
        (Edit.addTo h now pool (normalizeClientEmails posted) row)
  | addSave (now : Int) (pool : Inbound → Option String) (posted : List Text) (row : InboundRow)
      (hid : row.id = id) :
      Underway h id (.add now pool posted) (some row)
        (Edit.addTransaction h now row (normalizeClientEmails posted))
  | editCheck (now : Int) (posted : List Text) (clientId : String) (row : InboundRow)
      (hid : row.id = id) :
      Underway h id (.edit now posted clientId) (some row)
        (Edit.edit h now (normalizeClientEmails posted) clientId row)
  | editSave (now : Int) (posted : List Text) (clientId : String) (row : InboundRow) (hid : row.id = id)
      (t : Text) (ts : List Text) (index : Nat) (hposted : normalizeClientEmails posted = t :: ts)
      (htarget : editTarget row.base clientId t = some index) :
      Underway h id (.edit now posted clientId) (some row) (Edit.editTransaction h now row index t)
  | delCheck (clientId : String) (row : InboundRow) (hid : row.id = id) :
      Underway h id (.del clientId) (some row) (Edit.del h clientId row)
  | delRow (clientId : String) (row : InboundRow) (hid : row.id = id) (last : Doc) :
      Underway h id (.del clientId) (some row) (Edit.delRow h row clientId last)
  | delStat (clientId : String) (row : InboundRow) (hid : row.id = id) (last : Doc) (ct : ClientTraffic) :
      Underway h id (.del clientId) (some row) (Edit.delStat h row clientId last ct)
  | delSave (clientId : String) (row : InboundRow) (hid : row.id = id) :
      Underway h id (.del clientId) (some row) (Edit.saveRow (row.without clientId))
  | updateCheck (now : Int) (validate : Db → Option String) (form : InboundForm)
      (loaded : Option InboundRow) :
      Underway h id (.update now validate form) loaded
        (Edit.checkAndUpdate h now { form with id := id })
  | updateLoad (now : Int) (validate : Db → Option String) (form : InboundForm)
      (loaded : Option InboundRow) :
      Underway h id (.update now validate form) loaded
        (Edit.loadAndUpdate h now { form with id := id })
  | updateSave (now : Int) (validate : Db → Option String) (form : InboundForm) (row : InboundRow)
      (hid : row.id = id) :
      Underway h id (.update now validate form) (some row)
        (Edit.transaction (formWrites { form with id := id } row)
          (Edit.announceAndUpdate h now { form with id := id } row))

/-- What one turn of an operation does to the inbounds: nothing that is acknowledged, or
the save of its result, which is. -/
inductive TurnEffect (id : Nat) (op : InboundOp) (loaded : Option InboundRow) (prog : Edit) (db : Db) :
    Db → Edit → Prop where
  | other (db' : Db) (prog' : Edit) (hinbounds : db'.inbounds = db.inbounds)
      (hacked : prog'.acked = true → prog.acked = true) : TurnEffect id op loaded prog db db' prog'
  | saved (db' : Db) (row row' : InboundRow) (work : Db) (hsaves : prog.saves = true)
      (hacked : prog.acked = false) (hloaded : loaded = some row) (hid : row.id = id)
      (hresult : op.result row = some row') (hwork : work.inbounds = db.inbounds)
      (hsave : work.saveInbound? row' = some db') : TurnEffect id op loaded prog db db' (pure (.ok ()))

section Turns

variable {h : Host} {id : Nat} {op : InboundOp} {loaded : Option InboundRow} {prog : Edit} {db work : Db}
  {row row' : InboundRow}

/-- A program that is done, or is refused here, does nothing. -/
theorem TurnEffect.refused (r : Reply) (hr : r ≠ .ok ()) :
    TurnEffect id op loaded prog db db (pure r) := by
  refine .other db (pure r) rfl fun hacked => ?_
  cases r with
  | error e => cases hacked
  | ok u => exact absurd rfl hr

omit [Runtime] in
theorem transact_saveAndCommit (saved work : Db) (row : InboundRow) :
    (Edit.saveAndCommit row).transact saved work =
      match work.saveInbound? row with
      | none => (work, pure dbError)
      | some work => (work, pure (.ok ())) := by
  rw [Edit.saveAndCommit, Prog.transact_update?]
  cases work.saveInbound? row <;> rfl

/-- The end of a transaction: its save is acknowledged, or nothing is. -/
theorem TurnEffect.saveAndCommit (hsaves : prog.saves = true) (hacked : prog.acked = false)
    (hloaded : loaded = some row) (hid : row.id = id) (hresult : op.result row = some row')
    (hwork : work.inbounds = db.inbounds) :
    TurnEffect id op loaded prog db ((Edit.saveAndCommit row').transact db work).1
      ((Edit.saveAndCommit row').transact db work).2 := by
  rw [transact_saveAndCommit]
  cases hsave : work.saveInbound? row' with
  | none => exact .other work (pure dbError) hwork fun hok => by cases hok
  | some db' => exact .saved db' row row' work hsaves hacked hloaded hid hresult hwork hsave

theorem underway_saveAndCommit (saved work : Db) (row : InboundRow) :
    Underway h id op loaded ((Edit.saveAndCommit row).transact saved work).2 := by
  rw [transact_saveAndCommit]
  cases work.saveInbound? row with
  | none => exact .done op loaded dbError
  | some db' => exact .done op loaded (.ok ())

theorem TurnEffect.commitAndPanic (hwork : work.inbounds = db.inbounds) :
    TurnEffect id op loaded prog db (Edit.commitAndPanic.transact db work).1
      (Edit.commitAndPanic.transact db work).2 :=
  .other work (pure (.error .panicked)) hwork fun hok => by cases hok

/-- The write leaves the inbounds alone. -/
def KeepsInbounds (f : Db → Option Db) : Prop := ∀ db db', f db = some db' → db'.inbounds = db.inbounds

omit [Runtime] in
theorem keepsInbounds_map {β : Type} {read : Db → Option β} {write : β → Db → Db}
    (hwrite : ∀ b db, (write b db).inbounds = db.inbounds) :
    KeepsInbounds fun db => (read db).map fun b => write b db := by
  intro db db' hdb
  obtain ⟨b, -, rfl⟩ := Option.map_eq_some_iff.1 hdb
  exact hwrite b db

omit [Runtime] in
theorem applied_inbounds {ws : List (EditPlace × (Db → Option Db))} (hws : ∀ w ∈ ws, KeepsInbounds w.2)
    (db : Db) : (Prog.applied none ws db).1.inbounds = db.inbounds := by
  induction ws generalizing db with
  | nil => rfl
  | cons w ws ih =>
      simp only [Prog.applied, reduceCtorEq, if_false]
      cases hw : w.2 db with
      | none => rfl
      | some next =>
          refine (ih (fun w' hw' => hws w' (List.mem_cons_of_mem _ hw')) next).trans ?_
          exact hws w List.mem_cons_self db next hw

omit [Runtime] in
theorem insertStat_inbounds (inboundId : Nat) (c : Client) : KeepsInbounds (Db.insertStat? inboundId c) :=
  keepsInbounds_map fun _ _ => rfl

omit [Runtime] in
theorem editWrites_inbounds (oldEmail : String) (c : Client) :
    ∀ w ∈ editWrites oldEmail c, KeepsInbounds w.2 := by
  intro w hw
  unfold editWrites at hw
  split at hw
  · rcases List.mem_cons.1 hw with rfl | hw
    · exact keepsInbounds_map fun _ _ => rfl
    · rw [List.mem_singleton.1 hw]
      exact keepsInbounds_map fun _ _ => rfl
  · rcases List.mem_cons.1 hw with rfl | hw
    · intro db db' hdb
      cases hdb
      rfl
    · rw [List.mem_singleton.1 hw]
      intro db db' hdb
      cases hdb
      rfl

omit [Runtime] in
theorem formWrites_inbounds (form : InboundForm) (row : InboundRow) :
    ∀ w ∈ formWrites form row, KeepsInbounds w.2 := by
  intro w hw
  obtain ⟨⟨f, k⟩, hf, rfl⟩ := List.mem_map.1 hw
  have hmem : f ∈ trafficWrites row ((normalizeClientEmails form.clients).map Client.decode) :=
    (List.mem_zipIdx hf).2.2 ▸ List.getElem_mem _
  rcases List.mem_append.1 hmem with hf | hf
  · obtain ⟨c, -, rfl⟩ := List.mem_map.1 hf
    intro db db' hdb
    cases hdb
    rfl
  · obtain ⟨c, -, rfl⟩ := List.mem_map.1 hf
    exact insertStat_inbounds row.id c

omit [Runtime] in
/-- A transaction with its writes, and what follows them. -/
theorem turn_transaction (ws : List (EditPlace × (Db → Option Db))) (rest : Edit) (db : Db) :
    (Edit.transaction ws rest).turn db =
      if (Prog.applied none ws db).2 then rest.transact db (Prog.applied none ws db).1
      else (db, pure dbError) := by
  unfold Edit.transaction
  rw [Prog.turn_start, Prog.transact_updates]
  cases (Prog.applied none ws db).2 <;> rfl

omit [Runtime] in
/-- The rows of added clients. -/
theorem transact_addStats (i : Inbound) (cs : List Client) (k : Nat) (saved work : Db)
    (cont : Bool → Edit) :
    ∃ work' b, work'.inbounds = work.inbounds ∧
      (Edit.addStats i cs k >>= cont).transact saved work = (cont b).transact saved work' := by
  induction cs generalizing k work with
  | nil => exact ⟨work, true, rfl, rfl⟩
  | cons c cs ih =>
      unfold Edit.addStats
      split
      · exact ih (k + 1) work
      · -- whatever becomes of the row, the loop goes on
        have htail : ∀ work : Db, ∃ work' b, work'.inbounds = work.inbounds ∧
            ((if cipherPanics i c = true then pure false else Edit.addStats i cs (k + 1)) >>=
              cont).transact saved work = (cont b).transact saved work' := by
          intro work
          split
          · exact ⟨work, false, rfl, rfl⟩
          · exact ih (k + 1) work
        rw [Prog.bind_assoc, Prog.transact_update?]
        cases hinsert : work.insertStat? i.id c with
        | none => exact htail work
        | some work₁ =>
            obtain ⟨work', b, hwork', htransact⟩ := htail work₁
            exact ⟨work', b, hwork'.trans (insertStat_inbounds _ _ _ _ hinsert), htransact⟩

/-- The transaction of an add. -/
theorem addTransaction_turn {now : Int} {pool : Inbound → Option String} {posted : List Text}
    (hid : row.id = id) (db : Db) :
    Underway h id (.add now pool posted) (some row)
        ((Edit.addTransaction h now row (normalizeClientEmails posted)).turn db).2 ∧
      TurnEffect id (.add now pool posted) (some row)
        (Edit.addTransaction h now row (normalizeClientEmails posted)) db
        ((Edit.addTransaction h now row (normalizeClientEmails posted)).turn db).1
        ((Edit.addTransaction h now row (normalizeClientEmails posted)).turn db).2 := by
  have hsaves : (Edit.addTransaction h now row (normalizeClientEmails posted)).saves = true := rfl
  have hacked : (Edit.addTransaction h now row (normalizeClientEmails posted)).acked = false := rfl
  generalize hprog : Edit.addTransaction h now row (normalizeClientEmails posted) = prog at *
  cases hx : h.xray with
  | none =>
      have hturn : prog.turn db = Edit.commitAndPanic.transact db db := by
        rw [← hprog, Edit.addTransaction, hx]
        rfl
      rw [hturn]
      exact ⟨.done _ _ _, .commitAndPanic rfl⟩
  | some api =>
      obtain ⟨work, b, hwork, htransact⟩ := transact_addStats row.base
        ((normalizeClientEmails posted).map Client.decode) 0 db db fun announced =>
          if announced then Edit.saveAndCommit (row.added now (normalizeClientEmails posted))
          else Edit.commitAndPanic
      have hturn : prog.turn db =
          (Edit.addStats row.base ((normalizeClientEmails posted).map Client.decode) 0 >>= fun announced =>
            if announced then Edit.saveAndCommit (row.added now (normalizeClientEmails posted))
            else Edit.commitAndPanic).transact db db := by
        rw [← hprog, Edit.addTransaction, hx]
        rfl
      rw [hturn, htransact]
      cases b with
      | true => exact ⟨underway_saveAndCommit _ _ _, .saveAndCommit hsaves hacked rfl hid rfl hwork⟩
      | false => exact ⟨.done _ _ _, .commitAndPanic hwork⟩

omit [Runtime] in
theorem editTransaction_kind (h : Host) (now : Int) (row : InboundRow) (index : Nat) (t : Text) :
    (Edit.editTransaction h now row index t).saves = true ∧
      (Edit.editTransaction h now row index t).acked = false ∧
      (Edit.editTransaction h now row index t).loads = false := by
  unfold Edit.editTransaction
  simp only
  split <;> exact ⟨rfl, rfl, rfl⟩

/-- The transaction of an edit. -/
theorem editTransaction_turn {now : Int} {posted : List Text} {clientId : String} {t : Text}
    {ts : List Text} {index : Nat} (hid : row.id = id) (hposted : normalizeClientEmails posted = t :: ts)
    (htarget : editTarget row.base clientId t = some index) (db : Db) :
    Underway h id (.edit now posted clientId) (some row)
        ((Edit.editTransaction h now row index t).turn db).2 ∧
      TurnEffect id (.edit now posted clientId) (some row) (Edit.editTransaction h now row index t) db
        ((Edit.editTransaction h now row index t).turn db).1
        ((Edit.editTransaction h now row index t).turn db).2 := by
  obtain ⟨hsaves, hacked, -⟩ := editTransaction_kind h now row index t
  have hresult : (InboundOp.edit now posted clientId).result row = some (row.edited now index t) := by
    simp [InboundOp.result, hposted, htarget]
  have hrest : ∀ work : Db, work.inbounds = db.inbounds →
      Underway h id (.edit now posted clientId) (some row)
          ((Edit.announceAndEdit h now row index t).transact db work).2 ∧
        TurnEffect id (.edit now posted clientId) (some row) (Edit.editTransaction h now row index t) db
          ((Edit.announceAndEdit h now row index t).transact db work).1
          ((Edit.announceAndEdit h now row index t).transact db work).2 := by
    intro work hwork
    unfold Edit.announceAndEdit
    split
    · exact ⟨.done _ _ _, .commitAndPanic hwork⟩
    · exact ⟨underway_saveAndCommit _ _ _, .saveAndCommit hsaves hacked rfl hid hresult hwork⟩
  generalize hprog : Edit.editTransaction h now row index t = prog at *
  unfold Edit.editTransaction at hprog
  simp only at hprog
  split at hprog
  · rw [← hprog, Prog.turn_start, Prog.transact_update?, hprog]
    cases hinsert : db.insertStat? row.id (Client.decode t) with
    | none => exact hrest db rfl
    | some work => exact hrest work (insertStat_inbounds _ _ _ _ hinsert)
  · rw [← hprog, turn_transaction, hprog]
    split
    · exact hrest _ (applied_inbounds (editWrites_inbounds _ _) db)
    · exact ⟨.done _ _ _, .refused _ (by simp [dbError])⟩

/-- The transaction of an inbound's edit. -/
theorem updateTransaction_turn {now : Int} {validate : Db → Option String} {form : InboundForm}
    (hid : row.id = id) (db : Db) :
    let prog := Edit.transaction (formWrites { form with id := id } row)
      (Edit.announceAndUpdate h now { form with id := id } row)
    Underway h id (.update now validate form) (some row) (prog.turn db).2 ∧
      TurnEffect id (.update now validate form) (some row) prog db (prog.turn db).1 (prog.turn db).2 := by
  intro prog
  have hsaves : prog.saves = true := rfl
  have hacked : prog.acked = false := rfl
  have hresult : (InboundOp.update now validate form).result row =
      some (row.updated now { form with id := id }) := rfl
  have hturn : prog.turn db = _ := turn_transaction (formWrites { form with id := id } row)
    (Edit.announceAndUpdate h now { form with id := id } row) db
  generalize prog = prog at *
  rw [hturn]
  split
  · have hwork := applied_inbounds (formWrites_inbounds { form with id := id } row) db
    generalize (Prog.applied none (formWrites { form with id := id } row) db).1 = work at hwork
    unfold Edit.announceAndUpdate
    split
    · exact ⟨.done _ _ _, .commitAndPanic hwork⟩
    split
    · rw [Prog.transact_select]
      exact ⟨underway_saveAndCommit _ _ _, .saveAndCommit hsaves hacked rfl hid hresult hwork⟩
    · exact ⟨underway_saveAndCommit _ _ _, .saveAndCommit hsaves hacked rfl hid hresult hwork⟩
  · exact ⟨.done _ _ _, .refused _ (by simp [dbError])⟩

omit [Runtime] in
/-- A deletion is refused, or goes on to its writes. -/
theorem del_cases (h : Host) (clientId : String) (row : InboundRow) :
    (∃ r, r ≠ .ok () ∧ Edit.del h clientId row = pure r) ∨
      ∃ last, Edit.del h clientId row = Edit.delWrites h row clientId last := by
  unfold Edit.del
  split
  · exact Or.inl ⟨_, by simp [newError], rfl⟩
  · split
    · exact Or.inl ⟨_, by simp, rfl⟩
    · exact Or.inr ⟨_, rfl⟩

/-- An edit is refused, looks at the other accounts or goes on to its transaction. -/
theorem edit_turn {now : Int} {posted : List Text} {clientId : String} (hid : row.id = id) (db : Db) :
    (Edit.edit h now (normalizeClientEmails posted) clientId row).loads = false ∧
    Underway h id (.edit now posted clientId) (some row)
        ((Edit.edit h now (normalizeClientEmails posted) clientId row).turn db).2 ∧
      TurnEffect id (.edit now posted clientId) (some row)
        (Edit.edit h now (normalizeClientEmails posted) clientId row) db
        ((Edit.edit h now (normalizeClientEmails posted) clientId row).turn db).1
        ((Edit.edit h now (normalizeClientEmails posted) clientId row).turn db).2 := by
  unfold Edit.edit
  cases hposted : normalizeClientEmails posted with
  | nil => exact ⟨rfl, .done _ _ _, .refused _ (by simp)⟩
  | cons t ts =>
      simp only
      cases htarget : editTarget row.base clientId t with
      | none => exact ⟨rfl, .done _ _ _, .refused _ (by simp)⟩
      | some index =>
          obtain ⟨-, hacked, hloads⟩ := editTransaction_kind h now row index t
          simp only
          cases editNeedsCheck row.base ((getClients row.base).getD index {}) (Client.decode t) with
          | true =>
              refine ⟨rfl, ?_⟩
              simp only [if_true, Prog.turn_select]
              split
              · exact ⟨.done _ _ _, .refused _ (by simp [dbError])⟩
              · exact ⟨.done _ _ _, .refused _ (by simp)⟩
              · exact ⟨.editSave now posted clientId row hid t ts index hposted htarget,
                  .other _ _ rfl fun hok => by rw [hacked] at hok; cases hok⟩
          | false =>
              simp only [Bool.false_eq_true, if_false, Prog.pure_bind]
              split
              · exact ⟨rfl, .done _ _ _, .refused _ (by simp [dbError])⟩
              · exact ⟨rfl, .done _ _ _, .refused _ (by simp)⟩
              · exact ⟨hloads, editTransaction_turn hid hposted htarget db⟩

omit [Runtime] in
/-- What is refused is not acknowledged. -/
theorem acked_refused {r : Reply} (hr : r ≠ .ok ()) : Edit.acked (pure r) = false := by
  cases r with
  | error e => rfl
  | ok u => exact absurd rfl hr

theorem edit_not_acked (h : Host) (now : Int) (posted : List Text) (clientId : String) (row : InboundRow) :
    (Edit.edit h now posted clientId row).acked = false := by
  unfold Edit.edit
  split
  · exact acked_refused (by simp)
  · split
    · exact acked_refused (by simp)
    · simp only
      split
      · rfl
      · rw [Prog.pure_bind]
        split
        · exact acked_refused (by simp [dbError])
        · exact acked_refused (by simp)
        · exact (editTransaction_kind h now row _ _).2.1

omit [Runtime] in
theorem del_not_acked (h : Host) (clientId : String) (row : InboundRow) :
    (Edit.del h clientId row).acked = false := by
  rcases del_cases h clientId row with ⟨r, hr, hdel⟩ | ⟨last, hdel⟩
  · rw [hdel]
    exact acked_refused hr
  · rw [hdel]
    rfl

/-- An edit of the inbound is refused for its protocol, or reads the row. -/
theorem loadAndUpdate_cases (h : Host) (now : Int) (form : InboundForm) :
    (∃ e, Edit.loadAndUpdate h now form = pure (.error e)) ∨
      Edit.loadAndUpdate h now form = (do
        match ← Prog.select .load fun db => db.inbounds.find? form.id with
        | none => pure dbError
        | some none => pure recordNotFound
        | some (some row) => Edit.transaction (formWrites form row) (Edit.announceAndUpdate h now form row) :
          Edit) := by
  unfold Edit.loadAndUpdate
  split
  · exact Or.inl ⟨_, rfl⟩
  · exact Or.inr rfl

theorem loadAndUpdate_not_acked (h : Host) (now : Int) (form : InboundForm) :
    (Edit.loadAndUpdate h now form).acked = false := by
  rcases loadAndUpdate_cases h now form with ⟨e, hload⟩ | hload <;> rw [hload] <;> rfl

omit [Runtime] in
/-- A row that is found is the one looked for. -/
theorem id_of_find? (hrow : db.inbounds.find? id = some row) : row.id = id := (Table.find?_some hrow).2

/-- The first turn of an operation. -/
theorem start_turn (op : InboundOp) (loaded : Option InboundRow) (db : Db) :
    Underway h id op (if (op.prog h id).loads then db.inbounds.find? id else loaded)
        ((op.prog h id).turn db).2 ∧
      TurnEffect id op loaded (op.prog h id) db ((op.prog h id).turn db).1 ((op.prog h id).turn db).2 := by
  cases op with
  | add now pool posted =>
      simp only [InboundOp.prog, Edit.addInboundClient]
      split
      · exact ⟨.done _ _ _, .refused _ (by simp)⟩
      · rw [Prog.turn_select]
        cases checkEmailsExistForClients db.roster ((normalizeClientEmails posted).map Client.decode) with
        | some email => exact ⟨.done _ _ _, .refused _ (by simp [duplicateEmailError])⟩
        | none => exact ⟨.addLoad now pool posted _, .other _ _ rfl fun hok => by cases hok⟩
  | edit now posted clientId =>
      simp only [InboundOp.prog, Edit.updateInboundClient]
      split
      · exact ⟨.done _ _ _, .refused _ (by simp)⟩
      · rw [Prog.turn_select]
        cases hrow : db.inbounds.find? id with
        | none => exact ⟨.done _ _ _, .refused _ (by simp [recordNotFound])⟩
        | some row =>
            refine ⟨.editCheck now posted clientId row (id_of_find? hrow), .other _ _ rfl fun hok => ?_⟩
            exact absurd hok (by simp [edit_not_acked])
  | del clientId =>
      simp only [InboundOp.prog, Edit.delInboundClient]
      rw [Prog.turn_select]
      cases hrow : db.inbounds.find? id with
      | none => exact ⟨.done _ _ _, .refused _ (by simp [recordNotFound])⟩
      | some row =>
          refine ⟨.delCheck clientId row (id_of_find? hrow), .other _ _ rfl fun hok => ?_⟩
          exact absurd hok (by simp [del_not_acked])
  | update now validate form =>
      simp only [InboundOp.prog, Edit.updateInbound]
      rw [Prog.turn_select]
      cases validate db with
      | some text => exact ⟨.done _ _ _, .refused _ (by simp)⟩
      | none => exact ⟨.updateCheck now validate form _, .other _ _ rfl fun hok => by cases hok⟩

/-- One turn of an operation: where it is then, and what it did to the inbounds. -/
theorem turn_effect (hunder : Underway h id op loaded prog) (db : Db) :
    Underway h id op (if prog.loads then db.inbounds.find? id else loaded) (prog.turn db).2 ∧
      TurnEffect id op loaded prog db (prog.turn db).1 (prog.turn db).2 := by
  cases hunder with
  | start => exact start_turn op loaded db
  | done _ _ r => exact ⟨.done op _ r, .other db (pure r) rfl fun hok => hok⟩
  | addLoad now pool posted =>
      simp only [Edit.loadAndAdd]
      rw [Prog.turn_select]
      cases hrow : db.inbounds.find? id with
      | none => exact ⟨.done _ _ _, .refused _ (by simp [recordNotFound])⟩
      | some row =>
          exact ⟨.addCheck now pool posted row (id_of_find? hrow), .other _ _ rfl fun hok => by cases hok⟩
  | addCheck now pool posted row hid =>
      simp only [Edit.addTo]
      rw [Prog.turn_select]
      cases addInboundClientCheck db.roster row.base ((normalizeClientEmails posted).map Client.decode)
        (pool row.base) with
      | error e => exact ⟨.done _ _ _, .refused _ (by simp)⟩
      | ok u => exact ⟨.addSave now pool posted row hid, .other _ _ rfl fun hok => by cases hok⟩
  | addSave now pool posted row hid => exact addTransaction_turn hid db
  | editCheck now posted clientId row hid =>
      have hturn := @edit_turn _ h id row now posted clientId hid db
      rw [hturn.1]
      exact hturn.2
  | editSave now posted clientId row hid t ts index hposted htarget =>
      rw [(editTransaction_kind h now row index t).2.2]
      exact editTransaction_turn hid hposted htarget db
  | delCheck clientId row hid =>
      rcases del_cases h clientId row with ⟨r, hr, hdel⟩ | ⟨last, hdel⟩
      · rw [hdel]
        exact ⟨.done _ _ _, .refused _ hr⟩
      · rw [hdel]
        simp only [Edit.delWrites]
        rw [Prog.turn_update]
        simp only [Bool.true_eq_false, if_false]
        split
        · exact ⟨.delSave clientId row hid, .other _ _ rfl fun hok => by cases hok⟩
        · exact ⟨.delRow clientId row hid last, .other _ _ rfl fun hok => by cases hok⟩
  | delRow clientId row hid last =>
      simp only [Edit.delRow]
      rw [Prog.turn_select]
      cases db.traffics.find? (last.str "email") with
      | none => exact ⟨.done _ _ _, .refused _ (by simp [recordNotFound])⟩
      | some ct => exact ⟨.delStat clientId row hid last ct, .other _ _ rfl fun hok => by cases hok⟩
  | delStat clientId row hid last ct =>
      simp only [Edit.delStat]
      rw [Prog.turn_update]
      simp only [Bool.true_eq_false, if_false]
      split
      · exact ⟨.done _ _ _, .other _ _ rfl fun hok => by cases hok⟩
      · exact ⟨.delSave clientId row hid, .other _ _ rfl fun hok => by cases hok⟩
  | delSave clientId row hid =>
      simp only [Edit.saveRow]
      rw [Prog.turn_update?]
      cases hsave : db.saveInbound? (row.without clientId) with
      | none => exact ⟨.done _ _ _, .refused _ (by simp [dbError])⟩
      | some db' => exact ⟨.done _ _ _, .saved db' row _ db rfl rfl rfl hid rfl rfl hsave⟩
  | updateCheck now validate form =>
      simp only [Edit.checkAndUpdate]
      rw [Prog.turn_select]
      cases checkEmailsExistExcludingInbound db.roster
        ((normalizeClientEmails form.clients).map Client.decode) id with
      | some email => exact ⟨.done _ _ _, .refused _ (by simp [duplicateEmailError])⟩
      | none =>
          refine ⟨.updateLoad now validate form _, .other _ _ rfl fun hok => ?_⟩
          exact absurd hok (by simp [loadAndUpdate_not_acked])
  | updateLoad now validate form =>
      rcases loadAndUpdate_cases h now { form with id := id } with ⟨e, hload⟩ | hload
      · rw [hload]
        exact ⟨.done _ _ _, .refused _ (by simp)⟩
      · rw [hload, Prog.turn_select]
        cases hrow : db.inbounds.find? id with
        | none => exact ⟨.done _ _ _, .refused _ (by simp [recordNotFound])⟩
        | some row =>
            exact ⟨.updateSave now validate form row (id_of_find? hrow), .other _ _ rfl fun hok => by cases hok⟩
  | updateSave now validate form row hid => exact updateTransaction_turn hid db

end Turns

/-! ## The obligations -/

/-- The inbound is the same one, with its entries written back. -/
structure Kin (i i' : InboundRow) : Prop where
  id : i'.id = i.id
  protocol : i'.base.protocol = i.base.protocol
  entries : List.Forall₂ Rewritten i.base.settings.clients i'.base.settings.clients

omit [Runtime] in
theorem Kin.of_base {i i' : InboundRow} (hid : i'.id = i.id) (hprotocol : i'.base.protocol = i.base.protocol)
    (hsettings : i'.base.settings = i.base.settings) : Kin i i' :=
  ⟨hid, hprotocol, by rw [hsettings]; exact List.forall₂_same.2 fun d _ => Rewritten.refl d⟩

omit [Runtime] in
theorem Kin.trans {i i' i'' : InboundRow} (h : Kin i i') (h' : Kin i' i'') : Kin i i'' :=
  ⟨h'.id.trans h.id, h'.protocol.trans h.protocol,
    forall₂_trans h.entries h'.entries fun _ _ _ => Rewritten.trans⟩

omit [Runtime] in
theorem RewrittenRow.kin {i i' : InboundRow} (h : RewrittenRow i i') : Kin i i' := by
  obtain ⟨ds, hds, rfl⟩ := h
  exact ⟨rfl, rfl, hds⟩

/-- Every inbound is one that was there before. -/
def Descends (db db' : Db) : Prop := ∀ i' ∈ db'.inbounds.rows, ∃ i ∈ db.inbounds.rows, Kin i i'

omit [Runtime] in
theorem Descends.trans {db db' db'' : Db} (h : Descends db db') (h' : Descends db' db'') :
    Descends db db'' := by
  intro i'' hi''
  obtain ⟨i', hi', hkin'⟩ := h' i'' hi''
  obtain ⟨i, hi, hkin⟩ := h i' hi'
  exact ⟨i, hi, hkin.trans hkin'⟩

omit [Runtime] in
/-- A statement that changes the inbounds one by one. -/
theorem descends_of_map {db db' : Db} {f : InboundRow → InboundRow}
    (hrows : db'.inbounds.rows = db.inbounds.rows.map f) (hf : ∀ i, Kin i (f i)) : Descends db db' := by
  intro i' hi'
  rw [hrows] at hi'
  obtain ⟨i, hi, rfl⟩ := List.mem_map.1 hi'
  exact ⟨i, hi, hf i⟩

omit [Runtime] in
theorem countInbounds_descends (ts : List Traffic) (db : Db) : Descends db (db.countInbounds ts) := by
  unfold Db.countInbounds
  induction ts.filter (·.isInbound) generalizing db with
  | nil => exact descends_of_map (List.map_id _).symm fun i => Kin.of_base rfl rfl rfl
  | cons t ts ih =>
      refine Descends.trans (descends_of_map rfl fun i => ?_) (ih (db.countInbound t))
      split <;> exact Kin.of_base rfl rfl rfl

omit [Runtime] in
theorem disable_descends (h : Host) (db : Db) :
    Descends db ((db.disableClients h).disableInbounds h) := by
  refine descends_of_map rfl fun i => ?_
  split <;> exact Kin.of_base rfl rfl rfl

omit [Runtime] in
theorem Carries.descends {db db' : Db} (h : Carries db db') : Descends db db' := by
  intro i' hi'
  obtain ⟨i, hi, hrow⟩ := exists_of_forall₂ h.inbounds hi'
  exact ⟨i, hi, hrow.kin⟩

omit [Runtime] in
/-- A tick writes the entries of the inbounds back, and that is all it does to them. -/
theorem tick_descends (h : Host) (b : Batch) (db : Db) : Descends db (tickOutcome h b db none).1 := by
  obtain ⟨now, xray⟩ := h
  have hcount := countInbounds_descends b.inbounds db
  rcases tick_cases now b db with ⟨db', hcarries, htick⟩ | ⟨booked, renewed, hcarries, htick⟩
  · rw [htick]
    exact hcount.trans hcarries.descends
  · rw [htick]
    exact (hcount.trans hcarries.descends).trans (disable_descends _ _)

omit [Runtime] in
theorem Descends.find? {db db' : Db} (h : Descends db db') {id : Nat} {row' : InboundRow}
    (hrow' : row' ∈ db'.inbounds.find? id) : ∃ row ∈ db.inbounds.find? id, Kin row row' := by
  obtain ⟨hmem, hid⟩ := Table.find?_some hrow'
  obtain ⟨row, hrow, hkin⟩ := h row' hmem
  exact ⟨row, Table.find?_eq_some.2 ⟨hrow, hkin.id.symm.trans hid⟩, hkin⟩

section Entries

variable {d d' : Doc} (p : Protocol)

omit [Runtime] in
/-- Writing an entry back keeps the member it is identified by. -/
theorem Rewritten.hasIdentity (h : Rewritten d d') (clientId : String) :
    Panel.hasIdentity p clientId d' = Panel.hasIdentity p clientId d := by
  have hstr : d'.str (clientIdentityKey p) = d.str (clientIdentityKey p) := by
    have hkey : clientIdentityKey p ≠ "expiryTime" := by cases p <;> decide
    have hget : (d'.get? (clientIdentityKey p)).bind Val.str? =
        (d.get? (clientIdentityKey p)).bind Val.str? := h.get? hkey fun v f => by cases v <;> rfl
    simp only [Obj.str, hget]
  rw [Panel.hasIdentity, Panel.hasIdentity, hstr]

omit [Runtime] in
theorem Rewritten.entryIdentity (h : Rewritten d d') :
    Panel.entryIdentity p d' = Panel.entryIdentity p d := by
  have hfield : ∀ name, sameName "expiryTime" name = false →
      Json.field name Val.str? "" d'.members = Json.field name Val.str? "" d.members :=
    fun name hname => h.field hname (fun v f => by cases v <;> rfl) ""
  have hid := hfield "id" (by decide)
  have hpassword := hfield "password" (by decide)
  have hauth := hfield "auth" (by decide)
  have hemail := hfield "email" (by decide)
  simp only [Panel.entryIdentity, clientIdentity, Client.decode, hid, hpassword, hauth, hemail]

end Entries

section Obligations

variable {row row' : InboundRow} {present : List Doc} {gone : List String}

omit [Runtime] in
/-- Writing the entries back keeps every obligation. -/
theorem Keeps.kin (h : Keeps row present gone) (hkin : Kin row row') : Keeps row' present gone := by
  refine ⟨fun d hd => ?_, fun clientId hclientId d' hd' => ?_⟩
  · obtain ⟨d₁, hd₁, hrewritten⟩ := h.present d hd
    obtain ⟨d', hd', hrewritten'⟩ := exists_of_forall₂ hkin.entries.flip hd₁
    exact ⟨d', hd', hrewritten.trans hrewritten'⟩
  · obtain ⟨d, hd, hrewritten⟩ := exists_of_forall₂ hkin.entries hd'
    rw [hkin.protocol, hrewritten.hasIdentity]
    exact h.gone clientId hclientId d hd

omit [Runtime] in
/-- The entries an operation does not touch are written back. -/
theorem Keeps.rewrites (h : Keeps row present gone) {d : Doc} (hd : d ∈ present) :
    ∃ d' ∈ row.base.settings.clients, Rewritten d d' ∧ Rewritten d (rewrite d') := by
  obtain ⟨d', hd', hrewritten⟩ := h.present d hd
  exact ⟨d', hd', hrewritten, .rewrites hrewritten⟩

omit [Runtime] in
theorem Keeps.not_rewritten (h : Keeps row present gone) {clientId : String} (hgone : clientId ∈ gone)
    {d : Doc} (hd : d ∈ row.base.settings.clients) :
    hasIdentity row.base.protocol clientId (rewrite d) = false := by
  rw [(Rewritten.rewrite d).hasIdentity]
  exact h.gone clientId hgone d hd

theorem keeps_added (h : Keeps row present gone) (now : Int) (pool : Inbound → Option String)
    (posted : List Text) :
    Keeps (row.added now (normalizeClientEmails posted))
      ((InboundOp.add now pool posted).present row present) ((InboundOp.add now pool posted).gone row gone) := by
  have hclients : (row.added now (normalizeClientEmails posted)).base.settings.clients =
      row.base.settings.clients.map rewrite ++ addedEntries now row.base (normalizeClientEmails posted) := rfl
  refine ⟨fun d hd => ?_, fun clientId hgone d' hd' => ?_⟩
  · rw [hclients]
    rcases List.mem_append.1 hd with hold | hnew
    · obtain ⟨d', hd', -, hrewritten⟩ := h.rewrites hold
      exact ⟨rewrite d', List.mem_append_left _ (List.mem_map_of_mem hd'), hrewritten⟩
    · exact ⟨d, List.mem_append_right _ hnew, Rewritten.refl d⟩
  · obtain ⟨hold, hunlisted⟩ := List.mem_filter.1 hgone
    rw [hclients] at hd'
    rcases List.mem_append.1 hd' with hd' | hd'
    · obtain ⟨d, hd, rfl⟩ := List.mem_map.1 hd'
      exact h.not_rewritten hold hd
    · rw [Bool.not_eq_true', List.any_eq_false] at hunlisted
      exact eq_false_of_ne_true (hunlisted d' hd')

theorem keeps_without (h : Keeps row present gone) (clientId : String) :
    Keeps (row.without clientId) ((InboundOp.del clientId).present row present)
      ((InboundOp.del clientId).gone row gone) := by
  have hclients : (row.without clientId).base.settings.clients =
      (row.base.settings.clients.filter fun d => !hasIdentity row.base.protocol clientId d).map rewrite := rfl
  refine ⟨fun d hd => ?_, fun other hother d' hd' => ?_⟩
  · obtain ⟨hold, hkept⟩ := List.mem_filter.1 hd
    obtain ⟨d', hd', hsame, hrewritten⟩ := h.rewrites hold
    rw [← hsame.hasIdentity] at hkept
    exact ⟨rewrite d', hclients ▸ List.mem_map_of_mem (List.mem_filter.2 ⟨hd', hkept⟩), hrewritten⟩
  · rw [hclients] at hd'
    obtain ⟨d, hd, rfl⟩ := List.mem_map.1 hd'
    obtain ⟨hmem, hkept⟩ := List.mem_filter.1 hd
    rcases List.mem_cons.1 hother with rfl | hother
    · exact ((Rewritten.rewrite d).hasIdentity _ _).trans (Bool.not_eq_true' _ ▸ hkept)
    · exact h.not_rewritten hother hmem

theorem keeps_edited (h : Keeps row present gone) {now : Int} {posted : List Text} {clientId : String}
    {t : Text} {ts : List Text} {index : Nat} (hposted : normalizeClientEmails posted = t :: ts)
    (htarget : editTarget row.base clientId t = some index) :
    Keeps (row.edited now index t) ((InboundOp.edit now posted clientId).present row present)
      ((InboundOp.edit now posted clientId).gone row gone) := by
  have hclients : (row.edited now index t).base.settings.clients =
      (row.base.settings.clients.map rewrite).set index (editedEntry now row.base index t) := rfl
  -- the entry that is replaced has the identity the edit was called with
  obtain ⟨d₀, hd₀, hidentity⟩ : ∃ d, row.base.settings.clients[index]? = some d ∧
      entryIdentity row.base.protocol d = clientId := by
    unfold editTarget at htarget
    split at htarget
    · cases htarget
    · obtain ⟨hlt, hfound, -⟩ := List.findIdx?_eq_some_iff_getElem.1 htarget
      rw [getClients, List.length_map] at hlt
      refine ⟨row.base.settings.clients[index], List.getElem?_eq_getElem hlt, ?_⟩
      simpa [getClients, entryIdentity] using hfound
  simp only [InboundOp.present, InboundOp.gone, hposted, htarget]
  refine ⟨fun d hd => ?_, fun other hother d' hd' => ?_⟩
  · rw [hclients]
    rcases List.mem_append.1 hd with hold | hnew
    · obtain ⟨hmem, hother⟩ := List.mem_filter.1 hold
      obtain ⟨d', hd', hsame, hrewritten⟩ := h.rewrites hmem
      obtain ⟨n, hn⟩ := List.mem_iff_getElem?.1 hd'
      have hne : index ≠ n := by
        rintro rfl
        rw [hd₀, Option.some.injEq] at hn
        rw [decide_eq_true_iff, ← hsame.entryIdentity, ← hn] at hother
        exact hother hidentity
      refine ⟨rewrite d', List.mem_iff_getElem?.2 ⟨n, ?_⟩, hrewritten⟩
      rw [List.getElem?_set_ne hne, List.getElem?_map, hn]
      rfl
    · refine ⟨d, List.mem_iff_getElem?.2 ⟨index, ?_⟩, Rewritten.refl d⟩
      have hlt : index < (row.base.settings.clients.map rewrite).length := by
        rw [List.length_map]
        exact (List.getElem?_eq_some_iff.1 hd₀).1
      rw [List.getElem?_set_self hlt, List.mem_singleton.1 hnew]
  · obtain ⟨hold, hunlisted⟩ := List.mem_filter.1 hother
    rw [hclients] at hd'
    rcases List.mem_or_eq_of_mem_set hd' with hd' | rfl
    · obtain ⟨d, hd, rfl⟩ := List.mem_map.1 hd'
      exact h.not_rewritten hold hd
    · change hasIdentity row.base.protocol other _ = false
      simpa using hunlisted

theorem keeps_updated (now : Int) (validate : Db → Option String) (form : InboundForm) :
    Keeps (row.updated now form) ((InboundOp.update now validate form).present row present)
      ((InboundOp.update now validate form).gone row gone) := by
  refine ⟨fun d hd => ⟨d, hd, Rewritten.refl d⟩, fun clientId hgone d' hd' => ?_⟩
  obtain ⟨-, hunlisted⟩ := List.mem_filter.1 hgone
  rw [Bool.not_eq_true', List.any_eq_false] at hunlisted
  exact eq_false_of_ne_true (hunlisted d' hd')

/-- An operation meets what it is acknowledged for, and what was acknowledged before. -/
theorem Keeps.result (h : Keeps row present gone) {op : InboundOp} (hresult : op.result row = some row') :
    Keeps row' (op.present row present) (op.gone row gone) := by
  cases op with
  | add now pool posted =>
      cases hresult
      exact keeps_added h now pool posted
  | edit now posted clientId =>
      cases hposted : normalizeClientEmails posted with
      | nil => simp [InboundOp.result, hposted] at hresult
      | cons t ts =>
          simp only [InboundOp.result, hposted, Option.map_eq_some_iff] at hresult
          obtain ⟨index, htarget, rfl⟩ := hresult
          exact keeps_edited h hposted htarget
  | del clientId =>
      cases hresult
      exact keeps_without h clientId
  | update now validate form =>
      cases hresult
      exact keeps_updated now validate form

/-- An operation on clients replaces the entries; an edit of the inbound all but the id. -/
theorem result_cases {op : InboundOp} (hresult : op.result row = some row') :
    (∃ entries, row' = row.setClients entries) ∨
      ∃ now validate form, op = .update now validate form ∧ row' = row.updated now form := by
  cases op with
  | add now pool posted =>
      cases hresult
      exact Or.inl ⟨_, rfl⟩
  | edit now posted clientId =>
      cases hposted : normalizeClientEmails posted with
      | nil => simp [InboundOp.result, hposted] at hresult
      | cons t ts =>
          simp only [InboundOp.result, hposted, Option.map_eq_some_iff] at hresult
          obtain ⟨index, -, rfl⟩ := hresult
          exact Or.inl ⟨_, rfl⟩
  | del clientId =>
      cases hresult
      exact Or.inl ⟨_, rfl⟩
  | update now validate form =>
      cases hresult
      exact Or.inr ⟨now, validate, form, rfl, rfl⟩

theorem result_id {op : InboundOp} (hresult : op.result row = some row') : row'.id = row.id := by
  rcases result_cases hresult with ⟨entries, rfl⟩ | ⟨now, validate, form, -, rfl⟩ <;> rfl

/-- The row an operation makes keeps the counters, unless its form resets them. -/
theorem result_counters {op : InboundOp} (hresult : op.result row = some row')
    (hkeeps : op.keepsCounters (some row) = true) :
    row.up ≤ row'.up ∧ row.down ≤ row'.down ∧ row.allTime ≤ row'.allTime := by
  rcases result_cases hresult with ⟨entries, rfl⟩ | ⟨now, validate, form, rfl, rfl⟩
  · exact ⟨le_rfl, le_rfl, le_rfl⟩
  · simp only [InboundOp.keepsCounters, Option.all_some, Bool.and_eq_true, decide_eq_true_iff] at hkeeps
    exact ⟨hkeeps.1, hkeeps.2, le_rfl⟩

end Obligations

/-! ## Whole runs -/

omit [Runtime] in
/-- A save over the row with its id. -/
theorem find?_saveInbound {db db' : Db} {old row : InboundRow} (hold : db.inbounds.find? row.id = some old)
    (hsave : db.saveInbound? row = some db') : db'.inbounds.find? row.id = some row := by
  rw [Db.saveInbound?, hold] at hsave
  simp only at hsave
  split at hsave
  · cases hsave
  · cases hsave
    have hid : row.id = old.id := (id_of_find? hold).symm
    rw [Table.find?_modify_self, hold, Option.map_some, InboundRow.over_self hid]

/-- Every operation is somewhere in its program, and what was acknowledged is there. -/
structure Shared.Inv (id : Nat) (s : Shared) : Prop where
  threads : ∀ th ∈ s.threads, ∃ h, Underway h id th.op th.loaded th.prog
  kept : s.Kept id

/-- A turn in which the operation saves nothing that is acknowledged. -/
theorem step_other (id : Nat) {s : Shared} {k : Nat} {th : Thread} (hth : s.threads[k]? = some th)
    (hinbounds : (th.prog.turn s.db).1.inbounds = s.db.inbounds)
    (hacked : (th.turned id s.db).prog.acked = true → th.prog.acked = true) :
    (s.step id (.turn k)).db.inbounds = s.db.inbounds ∧ (s.step id (.turn k)).present = s.present ∧
      (s.step id (.turn k)).gone = s.gone := by
  have hno : ((th.turned id s.db).prog.acked && !th.prog.acked) = false := by
    cases hprog : (th.turned id s.db).prog.acked with
    | false => rfl
    | true => rw [hacked hprog]; rfl
  simp only [Shared.step, hth, hno, Bool.false_eq_true, if_false]
  exact ⟨hinbounds, trivial, trivial⟩

theorem step_threads {id : Nat} {s : Shared} (hs : ∀ th ∈ s.threads, ∃ h, Underway h id th.op th.loaded th.prog)
    (k : Nat) : ∀ th ∈ (s.step id (.turn k)).threads, ∃ h, Underway h id th.op th.loaded th.prog := by
  simp only [Shared.step]
  cases hth : s.threads[k]? with
  | none => exact hs
  | some th =>
      have hset : ∀ th' ∈ s.threads.set k (th.turned id s.db),
          ∃ h, Underway h id th'.op th'.loaded th'.prog := by
        intro th' hth'
        rcases List.mem_or_eq_of_mem_set hth' with hmem | rfl
        · exact hs th' hmem
        · obtain ⟨h, hunder⟩ := hs th (List.mem_of_getElem? hth)
          exact ⟨h, (turn_effect hunder s.db).1⟩
      simp only
      split
      · split <;> exact hset
      · exact hset

/-- One undisturbed turn. -/
theorem step_turn {id : Nat} {s : Shared} {k : Nat} (hs : s.Inv id)
    (hundisturbed : s.undisturbed id (.turn k) = true) :
    (s.step id (.turn k)).Kept id ∧ s.CountersKept id (.turn k) := by
  cases hth : s.threads[k]? with
  | none =>
      have hstep : s.step id (.turn k) = s := by simp only [Shared.step, hth]
      refine ⟨hstep.symm ▸ hs.kept, fun row hrow row' hrow' => ?_⟩
      rw [hstep, Option.mem_def.1 hrow, Option.mem_def, Option.some.injEq] at hrow'
      exact hrow' ▸ ⟨le_rfl, le_rfl, le_rfl⟩
  | some th =>
      obtain ⟨h, hunder⟩ := hs.threads th (List.mem_of_getElem? hth)
      have heffect := (turn_effect hunder s.db).2
      generalize hdb : (th.prog.turn s.db).1 = db' at heffect
      generalize hprog : (th.prog.turn s.db).2 = prog' at heffect
      cases heffect with
      | other _ hinbounds hacked =>
          obtain ⟨hsame, hpresent, hgone⟩ := step_other id hth (hdb ▸ hinbounds)
            (by rw [Thread.turned, hprog]; exact hacked)
          refine ⟨fun row hrow => ?_, fun row hrow row' hrow' => ?_⟩
          · rw [hpresent, hgone]
            exact hs.kept row (hsame ▸ hrow)
          · rw [hsame, Option.mem_def.1 hrow, Option.mem_def, Option.some.injEq] at hrow'
            exact hrow' ▸ ⟨le_rfl, le_rfl, le_rfl⟩
      | saved row row' work hsaves hacked hloaded hid hresult hwork hsave =>
          -- the row that is saved was made of the one that is stored
          simp only [Shared.undisturbed, hth, Option.all_some, hsaves, Bool.not_true, Bool.false_or,
            Bool.and_eq_true, decide_eq_true_iff] at hundisturbed
          obtain ⟨hstored, hkeeps⟩ := hundisturbed
          rw [hloaded] at hstored hkeeps
          have hid' := result_id hresult
          have hcounters := result_counters hresult hkeeps
          have hfind : db'.inbounds.find? id = some row' := by
            have hold : work.inbounds.find? row'.id = some row := by
              rw [hwork, hid', hid]
              exact hstored.symm
            rw [← hid, ← hid']
            exact find?_saveInbound hold hsave
          have hstep : s.step id (.turn k) =
              ⟨db', s.threads.set k (th.turned id s.db), th.op.present row s.present,
                th.op.gone row s.gone⟩ := by
            have hyes : ((th.turned id s.db).prog.acked && !th.prog.acked) = true := by
              rw [hacked, Thread.turned, hprog]
              rfl
            simp only [Shared.step, hth, hyes, if_true, hloaded, hdb]
          refine ⟨fun r hr => ?_, fun r hr r' hr' => ?_⟩
          · rw [hstep] at hr ⊢
            rw [hfind, Option.mem_def, Option.some.injEq] at hr
            exact hr ▸ (hs.kept row hstored.symm).result hresult
          · rw [hstep, hfind, Option.mem_def, Option.some.injEq] at hr'
            rw [← hstored, Option.mem_def, Option.some.injEq] at hr
            exact hr ▸ hr' ▸ hcounters

/-- One undisturbed step. -/
theorem step_inv {id : Nat} {s : Shared} {e : InboundEvent} (hs : s.Inv id)
    (hundisturbed : s.undisturbed id e = true) : (s.step id e).Inv id ∧ s.CountersKept id e := by
  cases e with
  | tick h b =>
      refine ⟨⟨hs.threads, fun row' hrow' => ?_⟩, trivial⟩
      obtain ⟨row, hrow, hkin⟩ := (tick_descends h b s.db).find? hrow'
      exact (hs.kept row hrow).kin hkin
  | turn k =>
      obtain ⟨hkept, hcounters⟩ := step_turn hs hundisturbed
      exact ⟨⟨step_threads hs.threads k, hkept⟩, hcounters⟩

/-- In every run in which each save finds the row its operation has read, and no form
puts counters back, what was acknowledged is there in every state and no turn sets a
counter back. -/
theorem no_lost_update (id : Nat) (db : Db) (ops : List (Host × InboundOp)) (es : List InboundEvent)
    (hundisturbed : AllSteps (Shared.step id) (fun s e => s.undisturbed id e = true)
      (Shared.start id db ops) es) :
    (∀ s ∈ states (Shared.step id) (Shared.start id db ops) es, s.Kept id) ∧
      AllSteps (Shared.step id) (fun s e => s.CountersKept id e) (Shared.start id db ops) es := by
  have hstart : (Shared.start id db ops).Inv id := by
    refine ⟨fun th hth => ?_, fun row _ => ⟨fun d hd => ?_, fun clientId hgone => ?_⟩⟩
    · obtain ⟨op, -, rfl⟩ := List.mem_map.1 hth
      exact ⟨op.1, .start op.2 none⟩
    · cases hd
    · cases hgone
  refine ⟨fun s hs => (hundisturbed.invariant (fun s e hinv hok => (step_inv hinv hok).1) hstart s hs).kept, ?_⟩
  exact hundisturbed.transitions (fun s e hinv hok => step_inv hinv hok) hstart

end

/-! ## Two administrators -/

/-- One inbound with ann. -/
def annsInbound : Db where
  inbounds := ⟨[{ base := { id := 1, tag := "inbound-443", protocol := .vless, settings := { clients :=
    [stored [("email", .str "ann"), ("id", .str "a1")]] } } }], by decide⟩
  traffics := .single { email := "ann", inboundId := 1 }

/-- An addition of one client, with Xray running. -/
def adds (email id : String) : Host × InboundOp :=
  (⟨5000, some {}⟩, .add 5000 (fun _ => none) [[("email", .str email), ("id", .str id)]])

/-- Bob and carol are added, in this order of turns. -/
def twoAdds (es : List InboundEvent) : Shared :=
  run (@Shared.step Runtime.ascii 1) (@Shared.start Runtime.ascii 1 annsInbound
    [adds "bob" "b1", adds "carol" "c1"]) es

/-- Bytes of the inbound. -/
def annsBytes : Batch where
  inbounds := [{ isInbound := true, tag := "inbound-443", up := 100, down := 0 }]

/-- The second addition begins when the first is done. -/
def oneAfterTheOther : List InboundEvent :=
  [.turn 0, .turn 0, .turn 0, .turn 0, .tick ⟨5000, some {}⟩ annsBytes,
    .turn 1, .turn 1, .turn 1, .turn 1]

/-- Both read before either saves. -/
def bothRead : List InboundEvent :=
  [.turn 0, .turn 0, .turn 0, .turn 1, .turn 1, .turn 1, .turn 0, .turn 1]

instance (s : Shared) (e : InboundEvent) : Decidable (@Shared.CountersKept Runtime.ascii 1 s e) := by
  cases e <;> unfold Shared.CountersKept <;> infer_instance

/-- One after the other both are there, and the bytes are. -/
theorem both_there_in_turn :
    (twoAdds oneAfterTheOther).Kept 1 ∧
      ((twoAdds oneAfterTheOther).db.inbounds.find? 1).map (·.up) = some 100 ∧
      (twoAdds oneAfterTheOther).present.map entryEmail = ["bob", "carol"] := by
  have hkept := (@no_lost_update Runtime.ascii 1 annsInbound [adds "bob" "b1", adds "carol" "c1"]
    oneAfterTheOther (by decide +kernel)).1
  refine ⟨hkept _ (run_mem_states _ _), by decide +kernel, by decide +kernel⟩

/-- Both have read before either saves: both are acknowledged, and bob is not there.  A tick
between a read and its save is undone by the save. -/
theorem second_save_loses_client :
    (twoAdds bothRead).threads.map (fun th => th.prog.acked) = [true, true] ∧
      ((twoAdds bothRead).db.inbounds.find? 1).map (fun row => row.base.settings.clients.map entryEmail) =
        some ["ann", "carol"] ∧
      ¬(twoAdds bothRead).Kept 1 ∧
      ¬@Shared.CountersKept Runtime.ascii 1
        (twoAdds [.turn 0, .turn 0, .turn 0, .tick ⟨5000, some {}⟩ annsBytes]) (.turn 0) := by
  refine ⟨by decide +kernel, by decide +kernel, fun hkept => ?_, by decide +kernel⟩
  have hadded : ∃ d ∈ (twoAdds bothRead).present, entryIdentity .vless d = "b1" := by decide +kernel
  have hlost : ∀ row ∈ (twoAdds bothRead).db.inbounds.find? 1, ∀ d' ∈ row.base.settings.clients,
      entryIdentity .vless d' ≠ "b1" := by decide +kernel
  obtain ⟨d, hd, hbob⟩ := hadded
  obtain ⟨row, hrow⟩ : ∃ row, row ∈ (twoAdds bothRead).db.inbounds.find? 1 :=
    Option.isSome_iff_exists.1 (by decide +kernel)
  obtain ⟨d', hd', hrewritten⟩ := (hkept row hrow).present d hd
  exact hlost row hrow d' hd' ((hrewritten.entryIdentity .vless).trans hbob)

end Simorgh.Panel
