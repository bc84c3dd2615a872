import Simorgh.Lib.Run
import Simorgh.Panel.Requests

/-!
# Concurrent requests against one ledger

Any number of requests run against the database, one read or one transaction at
a time, in any order; between their steps traffic is counted, client writes land
and an admin changes a profile's limits.

* `reserve_no_overdraft` — no debit that commits overdraws a limited reseller, and
  a debit that does not fit commits nothing, in every interleaving.
-/

namespace Simorgh.Panel

open Simorgh.Lib Simorgh.Lib.Json

/-- One step of one request. -/
def Task.step (w : World) : Task → World × Task
  | .done succeeded => (w, .done succeeded)
  | .read next => (w, next w)
  | .price i next => (w, next (quote i))
  | .priceBulk p req items now next => (w, next (Panel.priceBulk p req items now))
  | .reserve t next =>
      match w.ledger.reserve w.roster.traffics t with
      | .error _ => (w, next false)
      | .ok l => ({ w with ledger := l }, next true)
  | .rollback t next => ({ w with ledger := w.ledger.rollback t }, next)
  | .reserveBulk t next =>
      match w.ledger.reserveBulk t with
      | .error _ => (w, next false)
      | .ok l => ({ w with ledger := l }, next true)
  | .rollbackBulk t next => ({ w with ledger := w.ledger.rollbackBulk t }, next)
  | .settle owner email allTimeAtDelete known next =>
      ({ w with ledger := w.ledger.settleDeleted owner email allTimeAtDelete known }, next)
  | .rename oldEmail newEmail next =>
      match w.ledger.renameClient oldEmail newEmail with
      | .error _ => (w, next)
      | .ok l => ({ w with ledger := l }, next)

/-- The database and the requests under way. -/
structure System where
  world : World
  tasks : List Task

/-- One step of the system: of a request, of the traffic and client stores, or of
an admin who changes a profile's limits. -/
inductive Action where
  | run (index : Nat)
  | panel (roster : Roster)
  | levers (profile : ResellerProfile)

/-- The profile with its limits replaced; the spent counter is not a limit. -/
def ResellerProfile.setLevers (new old : ResellerProfile) : ResellerProfile :=
  { new with userId := old.userId, spentBytes := old.spentBytes }

/-- One action. -/
def System.step (s : System) : Action → System
  | .run index =>
      match s.tasks[index]? with
      | none => s
      | some t => ⟨(t.step s.world).1, s.tasks.set index (t.step s.world).2⟩
  | .panel roster => ⟨{ s.world with roster := roster }, s.tasks⟩
  | .levers p =>
      ⟨{ s.world with
          ledger := { s.world.ledger with
            profiles := s.world.ledger.profiles.modify p.userId p.setLevers fun _ => rfl } },
        s.tasks⟩

/-- The request whose step an action is. -/
def System.task (s : System) : Action → Task
  | .run index => (s.tasks[index]?).getD (.done false)
  | _ => .done false

/-- The requests of one reseller, none of them begun. -/
def System.start [Runtime] (w : World) (userId : Nat) (requests : List Request) : System :=
  ⟨w, requests.map (Request.task userId)⟩

/-! ## No overdraft -/

/-- What a step that debits a limited reseller must do: when the debit does not
fit the allowance in force, nothing at all, and the request is over; when it
commits, the spent counter stays within that allowance. -/
def Task.Guards (w : World) (t : Task) (userId : Nat) (delta : Int) : Prop :=
  ∀ p, w.ledger.profiles.find? userId = some p → p.unlimited = false → 0 < delta →
    (p.allowanceBytes < p.spentBytes + delta → t.step w = (w, .done false)) ∧
    (t.step w = (w, .done false) ∨
      ∃ p', (t.step w).1.ledger.profiles.find? userId = some p' ∧
        p'.allowanceBytes = p.allowanceBytes ∧ p'.spentBytes = p.spentBytes + delta ∧
        p'.spentBytes ≤ p'.allowanceBytes)

/-- No reservation overdraws: neither a single one nor that of a batch. -/
def System.NoOverdraft (s : System) (a : Action) : Prop :=
  match s.task a with
  | .reserve t next => (Task.reserve t next).Guards s.world t.userId t.quote.deltaSpent
  | .reserveBulk t next => (Task.reserveBulk t next).Guards s.world t.userId t.deltaSpent
  | _ => True

/-- A failed reservation is the end of its request, and one that reserves nothing
debits nothing. -/
def Task.Orderly : Task → Prop
  | .done _ => True
  | .read next => ∀ w, (next w).Orderly
  | .price i next => (next (quote i)).Orderly
  | .priceBulk p req items now next => (next (Panel.priceBulk p req items now)).Orderly
  | .reserve t next => t.active = true ∧ next false = .done false ∧ ∀ b, (next b).Orderly
  | .rollback _ next => next.Orderly
  | .reserveBulk t next =>
      (t.active = false → t.deltaSpent = 0) ∧ next false = .done false ∧ ∀ b, (next b).Orderly
  | .rollbackBulk _ next => next.Orderly
  | .settle _ _ _ _ next => next.Orderly
  | .rename _ _ next => next.Orderly

theorem Task.Orderly.step {t : Task} (h : t.Orderly) (w : World) : (t.step w).2.Orderly := by
  cases t with
  | done b => exact h
  | read next => exact h w
  | price i next => exact h
  | priceBulk p req items now next => exact h
  | reserve t next =>
      simp only [Task.step]
      split
      · exact h.2.2 false
      · exact h.2.2 true
  | rollback t next => exact h
  | reserveBulk t next =>
      simp only [Task.step]
      split
      · exact h.2.2 false
      · exact h.2.2 true
  | rollbackBulk t next => exact h
  | settle owner email allTimeAtDelete known next => exact h
  | rename oldEmail newEmail next =>
      simp only [Task.step]
      split
      · exact h
      · exact h

/-- Every request is orderly. -/
theorem orderly_rule (userId : Nat) : TaskRule userId Task.Orderly where
  done _ := trivial
  read _ h := h
  rename _ _ := trivial
  settle _ _ _ _ := trivial
  charge i t written next ha _ _ _ _ hnext := by
    simp only [priceAndReserve, Task.Orderly]
    cases quote i with
    | error e => exact trivial
    | ok q =>
        refine ⟨ha, rfl, fun b => ?_⟩
        cases b with
        | false => exact trivial
        | true =>
            cases written with
            | false => exact trivial
            | true => exact hnext
  chargeBulk p req items now written _ := by
    simp only [priceAndReserveBulk, Task.Orderly]
    cases hp : Panel.priceBulk p req items now with
    | error e => exact trivial
    | ok t =>
        refine ⟨fun hi => priceBulk_inactive (t := t) hp hi, rfl, fun b => ?_⟩
        cases b with
        | false => exact trivial
        | true =>
            cases written with
            | false => exact trivial
            | true => exact trivial

/-- A guarded balance move that lands leaves the counter within the allowance. -/
theorem addSpent_guards {l l' : Ledger} {u : Nat} {d : Int} {p : ResellerProfile}
    (h : l.addSpent u d = .ok l') (hp : l.profiles.find? u = some p)
    (hlim : p.unlimited = false) (hd : 0 < d) :
    p.spentBytes + d ≤ p.allowanceBytes ∧
      l'.profiles.find? u = some (p.addSpent d) := by
  obtain ⟨rfl, hroom⟩ := Ledger.addSpent_ok h
  obtain ⟨p', hp', hroom⟩ := hroom hd
  rw [hp, Option.some.injEq] at hp'
  subst hp'
  refine ⟨by simpa [hlim] using hroom, ?_⟩
  rw [Ledger.find?_restoreSpent, if_pos rfl, hp]
  rfl

theorem Task.Orderly.reserve_guards {t : ChargeTicket} {next : Bool → Task}
    (h : (Task.reserve t next).Orderly) (w : World) :
    (Task.reserve t next).Guards w t.userId t.quote.deltaSpent := by
  obtain ⟨hactive, hfalse, -⟩ := h
  intro p hp hlim hd
  cases hres : w.ledger.reserve w.roster.traffics t with
  | error e =>
      have hstep : (Task.reserve t next).step w = (w, .done false) := by
        simp only [Task.step, hres, hfalse]
      exact ⟨fun _ => hstep, Or.inl hstep⟩
  | ok l =>
      obtain ⟨l₁, hl₁, hprof, -⟩ := Ledger.reserve_ok hactive hres
      obtain ⟨hroom, hp'⟩ := addSpent_guards hl₁ hp hlim hd
      refine ⟨fun hover => absurd hroom (by omega), Or.inr ⟨p.addSpent t.quote.deltaSpent, ?_, rfl, rfl, hroom⟩⟩
      simp only [Task.step, hres, hprof]
      exact hp'

theorem Task.Orderly.reserveBulk_guards {t : BulkTicket} {next : Bool → Task}
    (h : (Task.reserveBulk t next).Orderly) (w : World) :
    (Task.reserveBulk t next).Guards w t.userId t.deltaSpent := by
  obtain ⟨hinactive, hfalse, -⟩ := h
  intro p hp hlim hd
  have hactive : t.active = true := by
    by_contra hne
    exact absurd (hinactive (by simpa using hne)) (by omega)
  cases hres : w.ledger.reserveBulk t with
  | error e =>
      have hstep : (Task.reserveBulk t next).step w = (w, .done false) := by
        simp only [Task.step, hres, hfalse]
      exact ⟨fun _ => hstep, Or.inl hstep⟩
  | ok l =>
      obtain ⟨l₁, hl₁, rfl⟩ := Ledger.reserveBulk_ok hactive hres
      obtain ⟨hroom, hp'⟩ := addSpent_guards hl₁ hp hlim hd
      refine ⟨fun hover => absurd hroom (by omega), Or.inr ⟨p.addSpent t.deltaSpent, ?_, rfl, rfl, hroom⟩⟩
      simp only [Task.step, hres, Ledger.writeBulkCharges_profiles]
      exact hp'

/-- A property every step of a task keeps is kept by every step of the system. -/
theorem System.forall_tasks_step {P : Task → Prop} {s : System} {a : Action}
    (h : ∀ t ∈ s.tasks, P t) (hstep : P (s.task a) → P ((s.task a).step s.world).2) :
    ∀ t ∈ (s.step a).tasks, P t := by
  cases a with
  | run index =>
      simp only [System.step]
      cases ht : s.tasks[index]? with
      | none => exact h
      | some t =>
          have htask : s.task (.run index) = t := by simp [System.task, ht]
          rw [htask] at hstep
          intro t' ht'
          rcases List.mem_or_eq_of_mem_set ht' with ht' | rfl
          · exact h t' ht'
          · exact hstep (h t (List.mem_of_getElem? ht))
  | panel roster => exact h
  | levers p => exact h

theorem System.task_of_forall {P : Task → Prop} {s : System} (h : ∀ t ∈ s.tasks, P t)
    (hdone : P (.done false)) (a : Action) : P (s.task a) := by
  cases a with
  | run index =>
      cases ht : s.tasks[index]? with
      | none => simpa [System.task, ht] using hdone
      | some t => simpa [System.task, ht] using h t (List.mem_of_getElem? ht)
  | panel roster => exact hdone
  | levers p => exact hdone

section

variable [Runtime]

theorem System.start_forall {P : Task → Prop} {userId : Nat} (h : TaskRule userId P) (w : World)
    (requests : List Request) : ∀ t ∈ (System.start w userId requests).tasks, P t := by
  intro t ht
  obtain ⟨r, -, rfl⟩ := List.mem_map.1 ht
  exact h.request r

/-- In every interleaving of a reseller's requests, with limits and traffic
changing between their steps, no debit that commits leaves the spent counter
above the allowance in force at that commit, and a debit that does not fit ends
its request with nothing committed. -/
theorem reserve_no_overdraft (w : World) (userId : Nat) (requests : List Request)
    (actions : List Action) :
    AllSteps System.step System.NoOverdraft (System.start w userId requests) actions := by
  have hstep : ∀ (s : System) (a : Action), (∀ t ∈ s.tasks, t.Orderly) → True →
      (∀ t ∈ (s.step a).tasks, t.Orderly) ∧ s.NoOverdraft a := by
    intro s a hs _
    refine ⟨System.forall_tasks_step hs fun ht => ht.step s.world, ?_⟩
    have ht := System.task_of_forall hs trivial a
    unfold System.NoOverdraft
    split
    · rename_i t next htask
      exact (htask ▸ ht).reserve_guards s.world
    · rename_i t next htask
      exact (htask ▸ ht).reserveBulk_guards s.world
    · trivial
  exact AllSteps.transitions hstep (AllSteps.of_forall (fun _ _ => trivial) _ _)
    (System.start_forall (orderly_rule userId) w requests)

end

end Simorgh.Panel
