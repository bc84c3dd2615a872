/-!
# Programs over a database

A program issues statements one after another.  Every statement has a place, and
any one place may fail: a failed read yields nothing, a failed write leaves the
store alone.  Between `begin` and `commit` the writes go to a copy.

* `Prog.run` — a program on one connection, with one place that fails.
* `Prog.reaches` — the places at which a failure matters.
* `Prog.run_bind` — a program is run stage by stage.
* `Prog.Plain` — a program of reads and writes: it stays in the transaction it is run in.
* `Prog.turn` — what a program does at once when others run beside it: one
  statement, or one transaction as a whole.
* `Prog.run_of_turn` — what every turn keeps is true at the end of a run alone.
-/

namespace Simorgh.Lib

/-- A program with statements at places `ι` that ends with an `α`. -/
inductive Prog (σ ι α : Type) where
  | done (a : α)
  | read (place : ι) (next : Option σ → Prog σ ι α)
  | write (place : ι) (f : σ → Option σ) (next : Bool → Prog σ ι α)
  | begin (place : ι) (next : Prog σ ι α)
  | commit (place : ι) (next : Bool → Prog σ ι α)
  | rollback (next : Prog σ ι α)

namespace Prog

variable {σ ι α β : Type}

/-- One program after another. -/
def bind : Prog σ ι α → (α → Prog σ ι β) → Prog σ ι β
  | .done a, k => k a
  | .read place next, k => .read place fun s => (next s).bind k
  | .write place f next, k => .write place f fun ok => (next ok).bind k
  | .begin place next, k => .begin place (next.bind k)
  | .commit place next, k => .commit place fun ok => (next ok).bind k
  | .rollback next, k => .rollback (next.bind k)

instance : Monad (Prog σ ι) where
  pure := .done
  bind := bind

@[simp] theorem pure_bind (a : α) (f : α → Prog σ ι β) : pure a >>= f = f a := rfl

theorem bind_assoc {γ : Type} (p : Prog σ ι α) (f : α → Prog σ ι β) (g : β → Prog σ ι γ) :
    p >>= f >>= g = p >>= fun a => f a >>= g := by
  change (p.bind f).bind g = p.bind fun a => (f a).bind g
  induction p with
  | done a => rfl
  | read place next ih => simp only [bind, ih]
  | write place w next ih => simp only [bind, ih]
  | begin place next ih => simp only [bind, ih]
  | commit place next ih => simp only [bind, ih]
  | rollback next ih => simp only [bind, ih]

/-- Read something off the store. -/
def select (place : ι) (f : σ → β) : Prog σ ι (Option β) := .read place fun s => .done (s.map f)

/-- A write that goes through unless its statement fails. -/
def update (place : ι) (f : σ → σ) : Prog σ ι Bool := .write place (fun s => some (f s)) .done

/-- A write that a constraint may refuse. -/
def update? (place : ι) (f : σ → Option σ) : Prog σ ι Bool := .write place f .done

/-- Writes one after another, up to the first that does not go through. -/
def updates : List (ι × (σ → Option σ)) → Prog σ ι Bool
  | [] => .done true
  | w :: ws => .write w.1 w.2 fun ok => if ok then updates ws else .done false

/-- A transaction begins. -/
def start (place : ι) : Prog σ ι Unit := .begin place (.done ())

/-- The error of a commit is not looked at. -/
def finish (place : ι) : Prog σ ι Unit := .commit place fun _ => .done ()

/-- The transaction is rolled back. -/
def abandon : Prog σ ι Unit := .rollback (.done ())

end Prog

/-! ## One connection -/

/-- The transaction of a connection.  After a `begin` that failed every statement
fails. -/
inductive Tx (σ : Type) where
  | none
  | opened (work : σ)
  | broken

/-- A connection: what is saved, and its transaction. -/
structure Conn (σ : Type) where
  saved : σ
  tx : Tx σ := .none

namespace Conn

variable {σ : Type}

/-- What a read sees. -/
def view (c : Conn σ) : Option σ :=
  match c.tx with
  | .none => some c.saved
  | .opened work => some work
  | .broken => Option.none

/-- The connection after a write. -/
def put (c : Conn σ) (s : σ) : Conn σ :=
  match c.tx with
  | .none => ⟨s, .none⟩
  | .opened _ => ⟨c.saved, .opened s⟩
  | .broken => c

/-- The transaction kept, if it is one. -/
def commit (c : Conn σ) : Option (Conn σ) :=
  match c.tx with
  | .opened work => some ⟨work, .none⟩
  | _ => Option.none

end Conn

namespace Prog

variable {σ ι α β : Type} [DecidableEq ι]

/-- A program on one connection, with the statement at one place failing. -/
def run (fault : Option ι) : Prog σ ι α → Conn σ → Conn σ × α
  | .done a, c => (c, a)
  | .read place next, c => if fault = some place then (next none).run fault c else (next c.view).run fault c
  | .write place f next, c =>
      if fault = some place then (next false).run fault c
      else match c.view.bind f with
        | none => (next false).run fault c
        | some s => (next true).run fault (c.put s)
  | .begin place next, c =>
      if fault = some place then next.run fault ⟨c.saved, .broken⟩
      else next.run fault ⟨c.saved, .opened c.saved⟩
  | .commit place next, c =>
      if fault = some place then (next false).run fault ⟨c.saved, .none⟩
      else match c.commit with
        | none => (next false).run fault ⟨c.saved, .none⟩
        | some c => (next true).run fault c
  | .rollback next, c => next.run fault ⟨c.saved, .none⟩

section

variable (fault : Option ι) (place : ι) (c : Conn σ)

@[simp] theorem run_done (a : α) : (done a : Prog σ ι α).run fault c = (c, a) := rfl

theorem run_read (next : Option σ → Prog σ ι α) :
    (read place next).run fault c = (next (if fault = some place then none else c.view)).run fault c := by
  change (if fault = some place then (next none).run fault c else (next c.view).run fault c) = _
  split <;> rfl

theorem run_write (f : σ → Option σ) (next : Bool → Prog σ ι α) :
    (write place f next).run fault c =
      if fault = some place then (next false).run fault c
      else match c.view.bind f with
        | none => (next false).run fault c
        | some s => (next true).run fault (c.put s) := rfl

theorem run_begin (next : Prog σ ι α) :
    (begin place next).run fault c =
      if fault = some place then next.run fault ⟨c.saved, .broken⟩
      else next.run fault ⟨c.saved, .opened c.saved⟩ := rfl

theorem run_commit (next : Bool → Prog σ ι α) :
    (commit place next).run fault c =
      if fault = some place then (next false).run fault ⟨c.saved, .none⟩
      else match c.commit with
        | none => (next false).run fault ⟨c.saved, .none⟩
        | some c => (next true).run fault c := rfl

end

/-- The statement at a place is issued when none fails. -/
def reaches (place : ι) : Prog σ ι α → Conn σ → Bool
  | .done _, _ => false
  | .read p next, c => decide (p = place) || (next c.view).reaches place c
  | .write p f next, c => decide (p = place) ||
      match c.view.bind f with
      | none => (next false).reaches place c
      | some s => (next true).reaches place (c.put s)
  | .begin p next, c => decide (p = place) || next.reaches place ⟨c.saved, .opened c.saved⟩
  | .commit p next, c => decide (p = place) ||
      match c.commit with
      | none => (next false).reaches place ⟨c.saved, .none⟩
      | some c => (next true).reaches place c
  | .rollback next, c => next.reaches place ⟨c.saved, .none⟩

/-- A failure at a place that is not reached changes nothing. -/
theorem run_of_not_reaches {place : ι} (p : Prog σ ι α) {c : Conn σ} (h : p.reaches place c = false) :
    p.run (some place) c = p.run none c := by
  induction p generalizing c with
  | done a => rfl
  | read p next ih =>
      rw [reaches, Bool.or_eq_false_iff, decide_eq_false_iff_not] at h
      rw [run_read, run_read, if_neg fun heq => h.1 (Option.some.inj heq).symm, if_neg (by simp)]
      exact ih _ h.2
  | write p f next ih =>
      rw [reaches, Bool.or_eq_false_iff, decide_eq_false_iff_not] at h
      obtain ⟨hne, h⟩ := h
      rw [run_write, run_write, if_neg fun heq => hne (Option.some.inj heq).symm, if_neg (by simp)]
      split at h
      · exact ih _ h
      · exact ih _ h
  | begin p next ih =>
      rw [reaches, Bool.or_eq_false_iff, decide_eq_false_iff_not] at h
      rw [run_begin, run_begin, if_neg fun heq => h.1 (Option.some.inj heq).symm, if_neg (by simp)]
      exact ih h.2
  | commit p next ih =>
      rw [reaches, Bool.or_eq_false_iff, decide_eq_false_iff_not] at h
      obtain ⟨hne, h⟩ := h
      rw [run_commit, run_commit, if_neg fun heq => hne (Option.some.inj heq).symm, if_neg (by simp)]
      split at h
      · exact ih _ h
      · exact ih _ h
  | rollback next ih => exact ih h

/-- A program is run stage by stage. -/
theorem run_bind (fault : Option ι) (p : Prog σ ι α) (k : α → Prog σ ι β) (c : Conn σ) :
    (p.bind k).run fault c = (k (p.run fault c).2).run fault (p.run fault c).1 := by
  induction p generalizing c with
  | done a => rfl
  | read place next ih =>
      simp only [bind, run_read]
      exact ih _ c
  | write place f next ih =>
      simp only [bind, run_write]
      split
      · exact ih false c
      · split
        · exact ih false c
        · exact ih true _
  | begin place next ih =>
      simp only [bind, run_begin]
      split
      · exact ih _
      · exact ih _
  | commit place next ih =>
      simp only [bind, run_commit]
      split
      · exact ih false _
      · split
        · exact ih false _
        · exact ih true _
  | rollback next ih => exact ih _

@[simp] theorem run_do (fault : Option ι) (p : Prog σ ι α) (k : α → Prog σ ι β) (c : Conn σ) :
    (p >>= k).run fault c = (k (p.run fault c).2).run fault (p.run fault c).1 :=
  run_bind fault p k c

@[simp] theorem run_pure (fault : Option ι) (a : α) (c : Conn σ) :
    (pure a : Prog σ ι α).run fault c = (c, a) := rfl

/-! ### Statements of a transaction -/

@[simp] theorem run_start (fault : Option ι) (place : ι) (s : σ) :
    (start place : Prog σ ι Unit).run fault ⟨s, .none⟩ =
      (⟨s, if fault = some place then .broken else .opened s⟩, ()) := by
  simp only [start, run_begin]
  split <;> rfl

@[simp] theorem run_abandon (fault : Option ι) (c : Conn σ) :
    (abandon : Prog σ ι Unit).run fault c = (⟨c.saved, .none⟩, ()) := rfl

@[simp] theorem run_finish_opened (fault : Option ι) (place : ι) (s work : σ) :
    (finish place : Prog σ ι Unit).run fault ⟨s, .opened work⟩ =
      (⟨if fault = some place then s else work, .none⟩, ()) := by
  simp only [finish, run_commit, Conn.commit]
  split <;> rfl

@[simp] theorem run_select_opened (fault : Option ι) (place : ι) (f : σ → β) (s work : σ) :
    (select place f).run fault ⟨s, .opened work⟩ =
      (⟨s, .opened work⟩, if fault = some place then none else some (f work)) := by
  simp only [select, run_read, Conn.view]
  split <;> rfl

@[simp] theorem run_select_broken (fault : Option ι) (place : ι) (f : σ → β) (s : σ) :
    (select place f).run fault ⟨s, .broken⟩ = (⟨s, .broken⟩, none) := by
  simp only [select, run_read, Conn.view]
  split <;> rfl

@[simp] theorem run_update_opened (fault : Option ι) (place : ι) (f : σ → σ) (s work : σ) :
    (update place f).run fault ⟨s, .opened work⟩ =
      (⟨s, .opened (if fault = some place then work else f work)⟩, decide (fault ≠ some place)) := by
  simp only [update, run_write, Conn.view, Option.bind_some, Conn.put]
  split <;> simp [*]

@[simp] theorem run_update_broken (fault : Option ι) (place : ι) (f : σ → σ) (s : σ) :
    (update place f).run fault ⟨s, .broken⟩ = (⟨s, .broken⟩, false) := by
  simp only [update, run_write, Conn.view]
  split <;> rfl

@[simp] theorem run_finish_broken (fault : Option ι) (place : ι) (s : σ) :
    (finish place : Prog σ ι Unit).run fault ⟨s, .broken⟩ = (⟨s, .none⟩, ()) := by
  simp only [finish, run_commit, Conn.commit]
  split <;> rfl

/-! ### Writes a constraint may refuse -/

/-- Writes on a store, up to the first that does not go through, and whether all did. -/
def applied (fault : Option ι) : List (ι × (σ → Option σ)) → σ → σ × Bool
  | [], s => (s, true)
  | w :: ws, s =>
      if fault = some w.1 then (s, false)
      else match w.2 s with
        | none => (s, false)
        | some s => applied fault ws s

@[simp] theorem run_update?_opened (fault : Option ι) (place : ι) (f : σ → Option σ) (s work : σ) :
    (update? place f).run fault ⟨s, .opened work⟩ =
      (⟨s, .opened (applied fault [(place, f)] work).1⟩, (applied fault [(place, f)] work).2) := by
  simp only [update?, run_write, Conn.view, Option.bind_some, applied]
  split
  · rfl
  · cases f work <;> rfl

@[simp] theorem run_update?_broken (fault : Option ι) (place : ι) (f : σ → Option σ) (s : σ) :
    (update? place f).run fault ⟨s, .broken⟩ = (⟨s, .broken⟩, false) := by
  simp only [update?, run_write, Conn.view]
  split <;> rfl

theorem run_updates_opened (fault : Option ι) (ws : List (ι × (σ → Option σ))) (s work : σ) :
    (updates ws).run fault ⟨s, .opened work⟩ =
      (⟨s, .opened (applied fault ws work).1⟩, (applied fault ws work).2) := by
  induction ws generalizing work with
  | nil => rfl
  | cons w ws ih =>
      simp only [updates, run_write, Conn.view, Option.bind_some, applied]
      split
      · rfl
      · cases w.2 work with
        | none => rfl
        | some next => exact ih next

theorem run_updates_broken (fault : Option ι) (ws : List (ι × (σ → Option σ))) (s : σ) :
    (updates ws).run fault ⟨s, .broken⟩ = (⟨s, .broken⟩, ws.isEmpty) := by
  cases ws with
  | nil => rfl
  | cons w ws =>
      simp only [updates, run_write, Conn.view]
      split <;> rfl

/-! ### Programs of reads and writes -/

/-- A program that neither begins nor ends a transaction. -/
def Plain : Prog σ ι α → Prop
  | .done _ => True
  | .read _ next => ∀ s, (next s).Plain
  | .write _ _ next => ∀ ok, (next ok).Plain
  | _ => False

omit [DecidableEq ι] in
theorem plain_pure (a : α) : (pure a : Prog σ ι α).Plain := trivial

omit [DecidableEq ι] in
theorem plain_select (place : ι) (f : σ → β) : (select place f).Plain := fun _ => trivial

omit [DecidableEq ι] in
theorem plain_update (place : ι) (f : σ → σ) : (update place f).Plain := fun _ => trivial

omit [DecidableEq ι] in
theorem Plain.bind {p : Prog σ ι α} {k : α → Prog σ ι β} (hp : p.Plain) (hk : ∀ a, (k a).Plain) :
    (p >>= k).Plain := by
  change (Prog.bind p k).Plain
  induction p with
  | done a => exact hk a
  | read place next ih => exact fun s => ih s (hp s)
  | write place f next ih => exact fun ok => ih ok (hp ok)
  | begin place next => exact hp.elim
  | commit place next => exact hp.elim
  | rollback next => exact hp.elim

/-- What is saved stays, and so does the transaction. -/
theorem Plain.run_opened {p : Prog σ ι α} (hp : p.Plain) (fault : Option ι) (s work : σ) :
    ∃ work' a, p.run fault ⟨s, .opened work⟩ = (⟨s, .opened work'⟩, a) := by
  induction p generalizing work with
  | done a => exact ⟨work, a, rfl⟩
  | read place next ih =>
      rw [run_read]
      exact ih _ (hp _) work
  | write place f next ih =>
      rw [run_write]
      split
      · exact ih false (hp false) work
      · simp only [Conn.view, Option.bind_some]
        cases f work with
        | none => exact ih false (hp false) work
        | some next => exact ih true (hp true) next
  | begin place next => exact hp.elim
  | commit place next => exact hp.elim
  | rollback next => exact hp.elim

theorem Plain.run_broken {p : Prog σ ι α} (hp : p.Plain) (fault : Option ι) (s : σ) :
    ∃ a, p.run fault ⟨s, .broken⟩ = (⟨s, .broken⟩, a) := by
  induction p with
  | done a => exact ⟨a, rfl⟩
  | read place next ih =>
      rw [run_read]
      exact ih _ (hp _)
  | write place f next ih =>
      rw [run_write]
      split
      · exact ih false (hp false)
      · exact ih false (hp false)
  | begin place next => exact hp.elim
  | commit place next => exact hp.elim
  | rollback next => exact hp.elim

/-! ### Statements on their own -/

@[simp] theorem run_select_none (fault : Option ι) (place : ι) (f : σ → β) (s : σ) :
    (select place f).run fault ⟨s, .none⟩ =
      (⟨s, .none⟩, if fault = some place then none else some (f s)) := by
  simp only [select, run_read, Conn.view]
  split <;> rfl

@[simp] theorem run_update_none (fault : Option ι) (place : ι) (f : σ → σ) (s : σ) :
    (update place f).run fault ⟨s, .none⟩ =
      (⟨if fault = some place then s else f s, .none⟩, decide (fault ≠ some place)) := by
  simp only [update, run_write, Conn.view, Option.bind_some, Conn.put]
  split <;> simp [*]

@[simp] theorem run_update?_none (fault : Option ι) (place : ι) (f : σ → Option σ) (s : σ) :
    (update? place f).run fault ⟨s, .none⟩ =
      (⟨(applied fault [(place, f)] s).1, .none⟩, (applied fault [(place, f)] s).2) := by
  simp only [update?, run_write, Conn.view, Option.bind_some, applied]
  split
  · rfl
  · cases f s <;> rfl

theorem run_updates_none (fault : Option ι) (ws : List (ι × (σ → Option σ))) (s : σ) :
    (updates ws).run fault ⟨s, .none⟩ =
      (⟨(applied fault ws s).1, .none⟩, (applied fault ws s).2) := by
  induction ws generalizing s with
  | nil => rfl
  | cons w ws ih =>
      simp only [updates, run_write, Conn.view, Option.bind_some, applied]
      split
      · rfl
      · cases w.2 s with
        | none => rfl
        | some next => exact ih next

end Prog

/-! ## Programs beside each other -/

namespace Prog

variable {σ ι α β : Type}

/-- The rest of a transaction: what is saved after it, and what is left to do. -/
def transact (saved : σ) : σ → Prog σ ι α → σ × Prog σ ι α
  | _, .done a => (saved, .done a)
  | work, .read _ next => transact saved work (next (some work))
  | work, .write _ f next =>
      match f work with
      | none => transact saved work (next false)
      | some work => transact saved work (next true)
  | _, .begin _ next => transact saved saved next
  | work, .commit _ next => (work, next true)
  | _, .rollback next => (saved, next)

/-- What a program does at once: one statement, or one whole transaction. -/
def turn (s : σ) : Prog σ ι α → σ × Prog σ ι α
  | .done a => (s, .done a)
  | .read _ next => (s, next (some s))
  | .write _ f next =>
      match f s with
      | none => (s, next false)
      | some s => (s, next true)
  | .begin _ next => transact s s next
  | .commit _ next => (s, next false)
  | .rollback next => (s, next)

section

variable (s saved work : σ) (place : ι)

@[simp] theorem turn_pure (a : α) : (pure a : Prog σ ι α).turn s = (s, pure a) := rfl

@[simp] theorem turn_select (f : σ → β) (k : Option β → Prog σ ι α) :
    (select place f >>= k).turn s = (s, k (some (f s))) := rfl

@[simp] theorem turn_update (f : σ → σ) (k : Bool → Prog σ ι α) :
    (update place f >>= k).turn s = (f s, k true) := rfl

theorem turn_update? (f : σ → Option σ) (k : Bool → Prog σ ι α) :
    (update? place f >>= k).turn s =
      match f s with
      | none => (s, k false)
      | some s => (s, k true) := rfl

@[simp] theorem turn_start (k : Unit → Prog σ ι α) :
    (start place >>= k).turn s = (k ()).transact s s := rfl

@[simp] theorem transact_pure (a : α) :
    (pure a : Prog σ ι α).transact saved work = (saved, pure a) := rfl

@[simp] theorem transact_select (f : σ → β) (k : Option β → Prog σ ι α) :
    (select place f >>= k).transact saved work = (k (some (f work))).transact saved work := rfl

theorem transact_update? (f : σ → Option σ) (k : Bool → Prog σ ι α) :
    (update? place f >>= k).transact saved work =
      match f work with
      | none => (k false).transact saved work
      | some work => (k true).transact saved work := rfl

@[simp] theorem transact_finish (k : Unit → Prog σ ι α) :
    (finish place >>= k).transact saved work = (work, k ()) := rfl

@[simp] theorem transact_abandon (k : Unit → Prog σ ι α) :
    (abandon >>= k).transact saved work = (saved, k ()) := rfl

theorem transact_updates [DecidableEq ι] (ws : List (ι × (σ → Option σ))) (k : Bool → Prog σ ι α) :
    (updates ws >>= k).transact saved work =
      (k (applied none ws work).2).transact saved (applied none ws work).1 := by
  induction ws generalizing work with
  | nil => rfl
  | cons w ws ih =>
      have hbind : (updates (w :: ws) >>= k).transact saved work =
          match w.2 work with
          | none => (k false).transact saved work
          | some work => (updates ws >>= k).transact saved work := by
        change transact saved work (bind (.write w.1 w.2 _) k) = _
        simp only [bind, transact]
        cases w.2 work <;> rfl
      rw [hbind]
      simp only [applied, reduceCtorEq, if_false]
      cases w.2 work with
      | none => rfl
      | some next => exact ih next

end

/-- What every turn keeps is true at the end of a program that runs alone. -/
theorem run_of_turn [DecidableEq ι] {R : σ → Prog σ ι α → Prop}
    (hR : ∀ s p, R s p → R (turn s p).1 (turn s p).2) (p : Prog σ ι α) :
    (∀ s, R s p → R (p.run none ⟨s, .none⟩).1.saved (pure (p.run none ⟨s, .none⟩).2)) ∧
      ∀ saved work, R (transact saved work p).1 (transact saved work p).2 →
        R (p.run none ⟨saved, .opened work⟩).1.saved (pure (p.run none ⟨saved, .opened work⟩).2) := by
  induction p with
  | done a => exact ⟨fun s h => h, fun saved work h => h⟩
  | read place next ih =>
      exact ⟨fun s h => (ih (some s)).1 s (hR _ _ h), fun saved work h => (ih (some work)).2 saved work h⟩
  | write place f next ih =>
      constructor
      · intro s h
        have hturn := hR _ _ h
        simp only [turn] at hturn
        simp only [run_write, reduceCtorEq, if_false, Conn.view, Option.bind_some]
        cases hf : f s with
        | none =>
            rw [hf] at hturn
            exact (ih false).1 s hturn
        | some s' =>
            rw [hf] at hturn
            exact (ih true).1 s' hturn
      · intro saved work h
        simp only [transact] at h
        simp only [run_write, reduceCtorEq, if_false, Conn.view, Option.bind_some]
        cases hf : f work with
        | none =>
            rw [hf] at h
            exact (ih false).2 saved work h
        | some work' =>
            rw [hf] at h
            exact (ih true).2 saved work' h
  | begin place next ih =>
      exact ⟨fun s h => ih.2 s s (hR _ _ h), fun saved work h => ih.2 saved saved h⟩
  | commit place next ih =>
      exact ⟨fun s h => (ih false).1 s (hR _ _ h), fun saved work h => (ih true).1 work h⟩
  | rollback next ih =>
      exact ⟨fun s h => ih.1 s (hR _ _ h), fun saved work h => ih.1 saved h⟩

end Prog

end Simorgh.Lib
