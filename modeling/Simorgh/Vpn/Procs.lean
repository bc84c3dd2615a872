import Mathlib.Data.List.Nodup
import Simorgh.Lib.Run

/-!
# Supervised daemons

The panel runs each daemon as a child process.  A supervisor waits for the process to exit and
has it restarted after a while, unless the daemon was stopped or started anew in the meantime,
which a counter tells.  Starting and stopping signal the process group of the last instance and
wait for it to be gone.

* `Daemon.step` — the lock regions of the manager, the processes and their exits, in any order.
* `Daemon.Supervised` — the counter identifies the last instance; whoever is about to launch
  has seen it exit.
* `supervision_exclusive` — no two instances run at once, none is started once `Stop` has
  returned, and every signal goes to the group of the last instance.
* `orphans_signalled` — which may have been reaped by then.
-/

namespace Simorgh.Vpn.Procs

open Simorgh.Lib

/-! ## Processes -/

/-- The states of a process. -/
inductive ProcState where
  | running
  /-- it has exited, and nobody has waited for it yet -/
  | exited
  | reaped
  deriving DecidableEq

/-- An instance of the daemon. -/
structure Instance where
  pid : ℕ := 0
  state : ProcState := .reaped
  /-- children of it are left in its process group -/
  orphans : Bool := false
  /-- `gen` when it was launched -/
  gen : ℕ := 0
  /-- its supervisor has not looked at its exit yet -/
  supervised : Bool := false

/-- The leader of a process group. -/
inductive Leader where
  | launched (i : ℕ)
  | unrelated
  deriving DecidableEq

/-- A signal to a process group. -/
structure Signal where
  pid : ℕ
  leader : Option Leader
  /-- the instance in `p.cmd`, and whether it had been reaped -/
  target : ℕ
  reaped : Bool
  /-- how many instances had been launched -/
  launched : ℕ
  deriving DecidableEq

/-- What the lock is held for. -/
inductive Holder where
  | starting
  | stopping
  deriving DecidableEq

/-- A `managedProc` and the processes of the host. -/
structure Daemon where
  /-- the instance of `p.cmd` -/
  cmd : Option ℕ := none
  stopped : Bool := false
  gen : ℕ := 0
  /-- the instances that were launched; one after the last is `next` -/
  instances : ℕ → Instance := fun _ => {}
  next : ℕ := 0
  /-- `restartGen` of the restarts that are to come -/
  timers : List ℕ := []
  holder : Option Holder := none
  /-- the pids of groups that have nothing to do with the daemon -/
  unrelated : List ℕ := []
  signals : List Signal := []
  /-- `Stop` has returned, and `Start` was not called since -/
  halted : Bool := false
  /-- for each launch, whether it was `halted` -/
  launches : List Bool := []

/-- The steps of the supervisor and the kernel. -/
inductive DaemonEvent where
  /-- `Start` gets the lock -/
  | start
  /-- it has waited for the old instance, and launches the new one with this pid, or fails to -/
  | launch (pid : Option ℕ)
  /-- `Stop` gets the lock, and returns -/
  | stop
  | stopReturns
  /-- `waitProcessExit` finds the pid in use after a second -/
  | escalate
  /-- `kill`, for `StopAll` -/
  | kill
  /-- an instance exits, and may leave children behind -/
  | exits (i : ℕ) (orphans : Bool)
  /-- `cmd.Wait()` returns -/
  | reap (i : ℕ)
  /-- the supervisor of an instance gets the lock -/
  | supervise (i : ℕ)
  /-- a restart gets the lock, and launches with this pid, or fails to -/
  | restart (restartGen : ℕ) (pid : Option ℕ)
  /-- the children of an instance are gone -/
  | orphansGone (i : ℕ)
  /-- an unrelated process group starts or ends -/
  | otherStarts (pid : ℕ)
  | otherEnds (pid : ℕ)

namespace Daemon

/-- The instance has not been reaped. -/
def unreaped (s : Daemon) (i : ℕ) : Bool := decide ((s.instances i).state ≠ .reaped)

/-- The instance that leads a group. -/
def leaderInstance (s : Daemon) (pid : ℕ) : Option ℕ :=
  (List.range s.next).find? fun i => s.unreaped i && decide ((s.instances i).pid = pid)

/-- Who leads the process group. -/
def leaderOf (s : Daemon) (pid : ℕ) : Option Leader :=
  match s.leaderInstance pid with
  | some i => some (.launched i)
  | none => if pid ∈ s.unrelated then some .unrelated else none

/-- Somebody is in the process group. -/
def inUse (s : Daemon) (pid : ℕ) : Bool :=
  (s.leaderOf pid).isSome ||
    (List.range s.next).any fun i => (s.instances i).orphans && decide ((s.instances i).pid = pid)

/-- `syscall.Kill(-pid, ..)` for the process in `p.cmd`.  With nobody in the group nothing is
sent, and the process itself is done by then. -/
def signal (s : Daemon) : Daemon :=
  match s.cmd with
  | none => s
  | some i =>
      let pid := (s.instances i).pid
      if s.inUse pid then
        { s with signals := s.signals ++ [⟨pid, s.leaderOf pid, i, !s.unreaped i, s.next⟩] }
      else s

/-- The process in `p.cmd` is gone, if there is one. -/
def gone (s : Daemon) : Bool :=
  match s.cmd with
  | none => true
  | some i => decide ((s.instances i).state ≠ .running)

/-- `kill(pid, 0)` for the process in `p.cmd` does not say that there is no such process. -/
def pidExists (s : Daemon) : Bool := s.cmd.any fun i => (s.leaderOf (s.instances i).pid).isSome

/-- `launchLocked`. -/
def launchLocked (s : Daemon) : Option ℕ → Daemon
  | none => s
  | some pid =>
      { s with
        cmd := some s.next
        instances := Function.update s.instances s.next
          { pid := pid, state := .running, gen := s.gen, supervised := true }
        next := s.next + 1
        launches := s.launches ++ [s.halted] }

/-- The pid a launch was given was free. -/
def free (s : Daemon) (pid : Option ℕ) : Bool := pid.all fun p => !s.inUse p

/-- An instance changes. -/
def setInstance (s : Daemon) (i : ℕ) (f : Instance → Instance) : Daemon :=
  { s with instances := Function.update s.instances i (f (s.instances i)) }

/-- One event. -/
def step (s : Daemon) : DaemonEvent → Daemon
  | .start =>
      if s.holder = none then
        signal { s with gen := s.gen + 1, holder := some .starting, halted := false }
      else s
  | .launch pid =>
      -- a process that was signalled is gone when the wait is over
      if s.holder = some .starting ∧ s.gone = true ∧ s.free pid = true then
        launchLocked { s with stopped := false, holder := none } pid
      else s
  | .stop =>
      if s.holder = none then
        signal { s with stopped := true, gen := s.gen + 1, holder := some .stopping }
      else s
  | .stopReturns =>
      if s.holder = some .stopping ∧ s.gone = true then { s with holder := none, halted := true } else s
  | .escalate => if s.holder.isSome && s.pidExists then s.signal else s
  | .kill => if s.holder = none then s.signal else s
  | .exits i orphans =>
      if (s.instances i).state = .running then
        s.setInstance i fun x => { x with state := .exited, orphans := orphans }
      else s
  | .reap i =>
      if (s.instances i).state = .exited then s.setInstance i fun x => { x with state := .reaped } else s
  | .supervise i =>
      if s.holder = none ∧ (s.instances i).supervised = true ∧ (s.instances i).state = .reaped then
        let seen := s.setInstance i fun x => { x with supervised := false }
        if (s.instances i).gen ≠ s.gen ∨ s.stopped = true then seen else { seen with timers := s.gen :: s.timers }
      else s
  | .restart restartGen pid =>
      if s.holder = none ∧ restartGen ∈ s.timers ∧ s.free pid = true then
        let fired := { s with timers := s.timers.erase restartGen }
        if s.stopped = true ∨ s.gen ≠ restartGen then fired
        else launchLocked (signal { fired with gen := s.gen + 1 }) pid
      else s
  | .orphansGone i => s.setInstance i fun x => { x with orphans := false }
  | .otherStarts pid => if s.inUse pid then s else { s with unrelated := pid :: s.unrelated }
  | .otherEnds pid => { s with unrelated := s.unrelated.filter fun p => decide (p ≠ pid) }

/-! ## What every run keeps -/

/-- Nothing that is still to come knows the counter as it is. -/
def Fresh (s : Daemon) : Prop := (∀ i, i < s.next → (s.instances i).gen < s.gen) ∧ ∀ g ∈ s.timers, g < s.gen

/-- A signal was for the group of the last instance, and the instance led it unless it had been reaped. -/
def Aimed (s : Daemon) (σ : Signal) : Prop :=
  σ.target < s.next ∧ σ.target + 1 = σ.launched ∧ σ.pid = (s.instances σ.target).pid ∧
    (σ.reaped = false → σ.leader = some (.launched σ.target))

/-- The counter identifies the last instance, and whoever may launch has seen it exit. -/
structure Supervised (s : Daemon) : Prop where
  made : ∀ i, s.unreaped i = true → i < s.next
  watched : ∀ i, (s.instances i).supervised = true → i < s.next
  last : ∀ i, s.cmd = some i → i + 1 = s.next
  running : ∀ i, (s.instances i).state = .running → s.cmd = some i
  counted : ∀ i, i < s.next → (s.instances i).gen ≤ s.gen ∧ ((s.instances i).gen = s.gen → s.cmd = some i)
  starting : s.holder = some .starting → s.halted = false ∧ s.Fresh
  stopping : s.holder = some .stopping → s.stopped = true
  timers : ∀ g ∈ s.timers, g ≤ s.gen ∧ (g = s.gen → ∃ i, s.cmd = some i ∧ (s.instances i).state = .reaped)
  pids : ∀ i j, s.unreaped i = true → s.unreaped j = true → (s.instances i).pid = (s.instances j).pid → i = j
  halted : s.halted = true → s.stopped = true
  launches : ∀ l ∈ s.launches, l = false
  signals : ∀ σ ∈ s.signals, s.Aimed σ

variable {s : Daemon}

theorem Supervised.start : Supervised {} := by
  refine ⟨?_, ?_, ?_, ?_, ?_, ?_, ?_, ?_, ?_, ?_, ?_, ?_⟩
  · intro i hi
    cases hi
  · intro i hi
    cases hi
  · intro i hi
    cases hi
  · intro i hi
    cases hi
  · intro i hi
    cases hi
  · intro hholder
    cases hholder
  · intro hholder
    cases hholder
  · intro g hg
    cases hg
  · intro i j hi
    cases hi
  · intro hhalted
    cases hhalted
  · intro l hl
    cases hl
  · intro σ hσ
    cases hσ

/-! ### Signals -/

/-- An instance that has not been reaped leads the group of its pid. -/
theorem Supervised.leaderOf_eq (h : Supervised s) {i : ℕ} (hi : s.unreaped i = true) :
    s.leaderOf (s.instances i).pid = some (.launched i) := by
  have hfind : s.leaderInstance (s.instances i).pid = some i := by
    cases hfind : s.leaderInstance (s.instances i).pid with
    | none =>
        have hnone := List.find?_eq_none.1 hfind i (List.mem_range.2 (h.made i hi))
        simp [hi] at hnone
    | some j =>
        have hj := List.find?_some hfind
        simp only [Bool.and_eq_true, decide_eq_true_eq] at hj
        rw [h.pids j i hj.1 hi hj.2]
  rw [leaderOf, hfind]

theorem Supervised.signal (h : Supervised s) : Supervised s.signal := by
  unfold Daemon.signal
  split
  · exact h
  case h_2 i hcmd =>
    simp only
    split
    · refine ⟨h.made, h.watched, h.last, h.running, h.counted, h.starting, h.stopping, h.timers, h.pids, h.halted,
        h.launches, ?_⟩
      intro σ hσ
      rcases List.mem_append.1 hσ with hσ | hσ
      · exact h.signals σ hσ
      · rw [List.mem_singleton.1 hσ]
        have hlast := h.last i hcmd
        refine ⟨by simp only; omega, hlast, rfl, fun hreaped => h.leaderOf_eq ?_⟩
        simpa using hreaped
    · exact h

/-! ### Starting and stopping -/

/-- Whoever takes the counter on makes it fresh. -/
theorem Supervised.advance (h : Supervised s) (stopped halted : Bool) (holder : Option Holder)
    (hhalted : halted = true → stopped = true) (hstarting : holder = some .starting → halted = false)
    (hstopping : holder = some .stopping → stopped = true) :
    Supervised { s with gen := s.gen + 1, stopped := stopped, holder := holder, halted := halted } ∧
      Fresh { s with gen := s.gen + 1, stopped := stopped, holder := holder, halted := halted } := by
  have hfresh : Fresh { s with gen := s.gen + 1, stopped := stopped, holder := holder, halted := halted } := by
    refine ⟨fun i hi => ?_, fun g hg => ?_⟩
    · exact Nat.lt_succ_of_le (h.counted i hi).1
    · exact Nat.lt_succ_of_le (h.timers g hg).1
  refine ⟨⟨h.made, h.watched, h.last, h.running, fun i hi => ?_, fun hholder => ⟨hstarting hholder, hfresh⟩, hstopping,
    fun g hg => ?_, h.pids, hhalted, h.launches, h.signals⟩, hfresh⟩
  · have hlt := hfresh.1 i hi
    exact ⟨Nat.le_of_lt hlt, fun heq => absurd heq (Nat.ne_of_lt hlt)⟩
  · have hlt := hfresh.2 g hg
    exact ⟨Nat.le_of_lt hlt, fun heq => absurd heq (Nat.ne_of_lt hlt)⟩

/-- A launch with a free pid, when no instance runs and the counter is fresh. -/
theorem Supervised.launchLocked (h : Supervised s) (hfresh : s.Fresh) (hidle : ∀ i, (s.instances i).state ≠ .running)
    (hhalted : s.halted = false) (hholder : s.holder = none) {pid : Option ℕ} (hfree : s.free pid = true) :
    Supervised (s.launchLocked pid) := by
  cases pid with
  | none => exact h
  | some pid =>
      have hold : ∀ i, i < s.next → (s.launchLocked (some pid)).instances i = s.instances i :=
        fun i hi => Function.update_of_ne (Nat.ne_of_lt hi) _ _
      have hnew : (s.launchLocked (some pid)).instances s.next =
          { pid := pid, state := .running, gen := s.gen, supervised := true } := Function.update_self _ _ _
      have hother : ∀ i, i ≠ s.next → (s.launchLocked (some pid)).instances i = s.instances i :=
        fun i hi => Function.update_of_ne hi _ _
      -- nobody that has not been reaped has the pid
      have hfreepid : ∀ i, s.unreaped i = true → (s.instances i).pid ≠ pid := by
        intro i hi hpid
        have hlead := h.leaderOf_eq hi
        rw [hpid] at hlead
        simp [free, inUse, hlead] at hfree
      have hunreaped : ∀ i, (s.launchLocked (some pid)).unreaped i = true →
          i = s.next ∨ (i ≠ s.next ∧ s.unreaped i = true) := by
        intro i hi
        by_cases hthis : i = s.next
        · exact Or.inl hthis
        · unfold unreaped at hi
          rw [hother i hthis] at hi
          exact Or.inr ⟨hthis, hi⟩
      refine ⟨?_, ?_, ?_, ?_, ?_, ?_, ?_, ?_, ?_, ?_, ?_, ?_⟩
      · intro i hi
        rcases hunreaped i hi with rfl | ⟨-, hi⟩
        · exact Nat.lt_succ_self _
        · exact Nat.lt_succ_of_lt (h.made i hi)
      · intro i hi
        by_cases hthis : i = s.next
        · rw [hthis]
          exact Nat.lt_succ_self _
        · rw [hother i hthis] at hi
          exact Nat.lt_succ_of_lt (h.watched i hi)
      · intro i hi
        cases hi
        rfl
      · intro i hi
        by_cases hthis : i = s.next
        · rw [hthis]
          rfl
        · rw [hother i hthis] at hi
          exact absurd hi (hidle i)
      · intro i hi
        by_cases hthis : i = s.next
        · subst hthis
          rw [hnew]
          exact ⟨Nat.le_refl _, fun _ => rfl⟩
        · rw [hother i hthis]
          have hlt : i < s.next := by
            have : i < s.next + 1 := hi
            omega
          have hgen := hfresh.1 i hlt
          exact ⟨Nat.le_of_lt hgen, fun heq => absurd heq (Nat.ne_of_lt hgen)⟩
      · intro hstarting
        rw [show (s.launchLocked (some pid)).holder = s.holder from rfl, hholder] at hstarting
        cases hstarting
      · intro hstopping
        rw [show (s.launchLocked (some pid)).holder = s.holder from rfl, hholder] at hstopping
        cases hstopping
      · intro g hg
        have hlt := hfresh.2 g hg
        exact ⟨Nat.le_of_lt hlt, fun heq => absurd heq (Nat.ne_of_lt hlt)⟩
      · intro i j hi hj hpid
        rcases hunreaped i hi with rfl | ⟨hine, hi⟩
        · rcases hunreaped j hj with rfl | ⟨hjne, hj⟩
          · rfl
          · rw [hnew, hother j hjne] at hpid
            exact absurd hpid.symm (hfreepid j hj)
        · rcases hunreaped j hj with rfl | ⟨hjne, hj⟩
          · rw [hnew, hother i hine] at hpid
            exact absurd hpid (hfreepid i hi)
          · rw [hother i hine, hother j hjne] at hpid
            exact h.pids i j hi hj hpid
      · exact h.halted
      · intro l hl
        rcases List.mem_append.1 hl with hl | hl
        · exact h.launches l hl
        · rw [List.mem_singleton.1 hl]
          exact hhalted
      · intro σ hσ
        obtain ⟨hlt, hlatest, hpid, hleader⟩ := h.signals σ hσ
        refine ⟨Nat.lt_succ_of_lt hlt, hlatest, ?_, hleader⟩
        rw [hold _ hlt]
        exact hpid

/-- The lock is released. -/
theorem Supervised.release (h : Supervised s) (stopped halted : Bool) (hhalted : halted = true → stopped = true) :
    Supervised { s with stopped := stopped, holder := none, halted := halted } := by
  refine ⟨h.made, h.watched, h.last, h.running, h.counted, fun hno => ?_, fun hno => ?_, h.timers, h.pids, hhalted,
    h.launches, h.signals⟩
  · cases hno
  · cases hno

/-- With the last instance gone, none runs. -/
theorem Supervised.idle (h : Supervised s) (hgone : s.gone = true) (i : ℕ) : (s.instances i).state ≠ .running := by
  intro hrunning
  rw [gone, h.running i hrunning] at hgone
  simp [hrunning] at hgone

/-! ### Exits -/

/-- What happens to a process, other than its being launched. -/
theorem Supervised.setInstance (h : Supervised s) (i : ℕ) {f : Instance → Instance}
    (hpid : (f (s.instances i)).pid = (s.instances i).pid) (hgen : (f (s.instances i)).gen = (s.instances i).gen)
    (hrunning : (f (s.instances i)).state = .running → (s.instances i).state = .running)
    (hreaped : (s.instances i).state = .reaped → (f (s.instances i)).state = .reaped)
    (hwatched : (f (s.instances i)).supervised = true → (s.instances i).supervised = true) :
    Supervised (s.setInstance i f) := by
  have hsame : ∀ j, ((s.setInstance i f).instances j).pid = (s.instances j).pid ∧
      ((s.setInstance i f).instances j).gen = (s.instances j).gen ∧
      (((s.setInstance i f).instances j).state = .running → (s.instances j).state = .running) ∧
      ((s.instances j).state = .reaped → ((s.setInstance i f).instances j).state = .reaped) ∧
      (((s.setInstance i f).instances j).supervised = true → (s.instances j).supervised = true) := by
    intro j
    by_cases hj : j = i
    · subst hj
      have hself : (s.setInstance j f).instances j = f (s.instances j) := Function.update_self _ _ _
      rw [hself]
      exact ⟨hpid, hgen, hrunning, hreaped, hwatched⟩
    · have hother : (s.setInstance i f).instances j = s.instances j := Function.update_of_ne hj _ _
      rw [hother]
      exact ⟨rfl, rfl, id, id, id⟩
  have hunreaped : ∀ j, (s.setInstance i f).unreaped j = true → s.unreaped j = true := by
    intro j hj
    simp only [unreaped, decide_eq_true_eq] at hj ⊢
    exact fun hold => hj ((hsame j).2.2.2.1 hold)
  refine ⟨fun j hj => h.made j (hunreaped j hj), fun j hj => h.watched j ((hsame j).2.2.2.2 hj), h.last,
    fun j hj => h.running j ((hsame j).2.2.1 hj), fun j hj => ?_,
    fun hholder => ⟨(h.starting hholder).1, fun j hj => ?_, (h.starting hholder).2.2⟩, h.stopping, fun g hg => ?_,
    fun j k hj hk heq => ?_, h.halted, h.launches, fun σ hσ => ?_⟩
  · rw [(hsame j).2.1]
    exact h.counted j hj
  · rw [(hsame j).2.1]
    exact (h.starting hholder).2.1 j hj
  · obtain ⟨hle, hlast⟩ := h.timers g hg
    refine ⟨hle, fun heq => ?_⟩
    obtain ⟨j, hcmd, hstate⟩ := hlast heq
    exact ⟨j, hcmd, (hsame j).2.2.2.1 hstate⟩
  · rw [(hsame j).1, (hsame k).1] at heq
    exact h.pids j k (hunreaped j hj) (hunreaped k hk) heq
  · obtain ⟨hlt, hlatest, hσpid, hleader⟩ := h.signals σ hσ
    exact ⟨hlt, hlatest, hσpid.trans (hsame σ.target).1.symm, hleader⟩

/-- A supervisor that finds its instance the last one schedules a restart. -/
theorem Supervised.schedule (h : Supervised s) (hholder : s.holder = none) {i : ℕ} (hcmd : s.cmd = some i)
    (hreaped : (s.instances i).state = .reaped) : Supervised { s with timers := s.gen :: s.timers } := by
  refine ⟨h.made, h.watched, h.last, h.running, h.counted, fun hstarting => ?_, h.stopping, fun g hg => ?_, h.pids,
    h.halted, h.launches, h.signals⟩
  · rw [show s.holder = some .starting from hstarting] at hholder
    cases hholder
  · rcases List.mem_cons.1 hg with rfl | hg
    · exact ⟨Nat.le_refl _, fun _ => ⟨i, hcmd, hreaped⟩⟩
    · exact h.timers g hg

theorem Supervised.dropTimer (h : Supervised s) (g : ℕ) : Supervised { s with timers := s.timers.erase g } :=
  ⟨h.made, h.watched, h.last, h.running, h.counted,
    fun hholder => ⟨(h.starting hholder).1, (h.starting hholder).2.1,
      fun g' hg' => (h.starting hholder).2.2 g' (List.mem_of_mem_erase hg')⟩,
    h.stopping, fun g' hg' => h.timers g' (List.mem_of_mem_erase hg'), h.pids, h.halted, h.launches, h.signals⟩

/-- A signal is all that `signal` adds. -/
theorem signal_eq (s : Daemon) : ∃ signals, s.signal = { s with signals := signals } := by
  unfold Daemon.signal
  split
  · exact ⟨s.signals, rfl⟩
  · simp only
    split
    · exact ⟨_, rfl⟩
    · exact ⟨s.signals, rfl⟩

theorem Supervised.restart (h : Supervised s) (hholder : s.holder = none) (hstopped : s.stopped = false) {g : ℕ}
    (hg : g ∈ s.timers) (hgen : s.gen = g) {pid : Option ℕ} (hfree : s.free pid = true) :
    Supervised (Daemon.launchLocked (Daemon.signal { s with timers := s.timers.erase g, gen := s.gen + 1 }) pid) := by
  obtain ⟨i, hcmd, hreaped⟩ := (h.timers g hg).2 hgen.symm
  have hhalted : s.halted = false := by
    cases hhalted : s.halted with
    | false => rfl
    | true => rw [h.halted hhalted] at hstopped; cases hstopped
  have hnotstarting : s.holder = some .starting → s.halted = false := fun _ => hhalted
  obtain ⟨hadvanced, hfresh⟩ := (h.dropTimer g).advance s.stopped s.halted s.holder h.halted hnotstarting h.stopping
  have hgone : s.gone = true := by
    rw [gone, hcmd]
    simp [hreaped]
  have hidle := h.idle hgone
  have hsignalled := hadvanced.signal
  obtain ⟨signals, hsignals⟩ :=
    signal_eq { s with timers := s.timers.erase g, gen := s.gen + 1 }
  rw [hsignals]
  change Supervised (Daemon.signal { s with timers := s.timers.erase g, gen := s.gen + 1 }) at hsignalled
  rw [hsignals] at hsignalled
  exact hsignalled.launchLocked hfresh hidle hhalted hholder hfree

theorem Supervised.step (h : Supervised s) (a : DaemonEvent) : Supervised (s.step a) := by
  cases a with
  | start =>
      simp only [Daemon.step]
      split
      · refine (h.advance s.stopped false (some .starting) (fun hno => Bool.noConfusion hno) (fun _ => rfl) ?_).1.signal
        intro hno
        cases hno
      · exact h
  | launch pid =>
      simp only [Daemon.step]
      split
      case isTrue hready =>
        obtain ⟨hholder, hgone, hfree⟩ := hready
        obtain ⟨hhalted, hfresh⟩ := h.starting hholder
        have hreleased : Supervised { s with stopped := false, holder := none } := by
          refine h.release false s.halted fun hyes => ?_
          rw [hyes] at hhalted
          cases hhalted
        exact hreleased.launchLocked hfresh (h.idle hgone) hhalted rfl hfree
      case isFalse => exact h
  | stop =>
      simp only [Daemon.step]
      split
      · refine (h.advance true s.halted (some .stopping) (fun _ => rfl) ?_ fun _ => rfl).1.signal
        intro hno
        cases hno
      · exact h
  | stopReturns =>
      simp only [Daemon.step]
      split
      case isTrue hready => exact h.release s.stopped true fun _ => h.stopping hready.1
      case isFalse => exact h
  | escalate =>
      simp only [Daemon.step]
      split
      · exact h.signal
      · exact h
  | kill =>
      simp only [Daemon.step]
      split
      · exact h.signal
      · exact h
  | exits i orphans =>
      simp only [Daemon.step]
      split
      case isTrue hrunning =>
        refine h.setInstance i rfl rfl (fun hno => ProcState.noConfusion hno) (fun hreaped => ?_) id
        rw [hrunning] at hreaped
        cases hreaped
      case isFalse => exact h
  | reap i =>
      simp only [Daemon.step]
      split
      · exact h.setInstance i rfl rfl (fun hno => ProcState.noConfusion hno) (fun _ => rfl) id
      · exact h
  | supervise i =>
      simp only [Daemon.step]
      split
      case isTrue hready =>
        obtain ⟨hholder, hsupervised, hreaped⟩ := hready
        have hseen : Supervised (s.setInstance i fun x => { x with supervised := false }) :=
          h.setInstance i rfl rfl id id fun hno => Bool.noConfusion hno
        split
        case isTrue => exact hseen
        case isFalse hlast =>
          have hgen : (s.instances i).gen = s.gen := by
            by_contra hne
            exact hlast (Or.inl hne)
          have hcmd := (h.counted i (h.watched i hsupervised)).2 hgen
          have hstill : ((s.setInstance i fun x => { x with supervised := false }).instances i).state = .reaped := by
            rw [Daemon.setInstance]
            simp only [Function.update_self]
            exact hreaped
          exact hseen.schedule hholder hcmd hstill
      case isFalse => exact h
  | restart g pid =>
      simp only [Daemon.step]
      split
      case isTrue hready =>
        obtain ⟨hholder, hg, hfree⟩ := hready
        split
        case isTrue => exact h.dropTimer g
        case isFalse hlast =>
          rw [not_or, Bool.not_eq_true, not_not] at hlast
          exact h.restart hholder hlast.1 hg hlast.2 hfree
      case isFalse => exact h
  | orphansGone i => exact h.setInstance (f := fun x => { x with orphans := false }) i rfl rfl id id id
  | otherStarts pid =>
      simp only [Daemon.step]
      split
      · exact h
      · exact ⟨h.made, h.watched, h.last, h.running, h.counted, h.starting, h.stopping, h.timers, h.pids, h.halted,
        h.launches, h.signals⟩
  | otherEnds pid =>
      exact ⟨h.made, h.watched, h.last, h.running, h.counted, h.starting, h.stopping, h.timers, h.pids, h.halted,
        h.launches, h.signals⟩

end Daemon

/-- In every run of starts, stops, exits, supervisors and restarts, whatever pids the host gives out: no two
instances run at once; none is launched once `Stop` has returned, until `Start` is called again; and every signal
is for the process group of the instance launched last, which leads the group as long as it has not been reaped. -/
theorem supervision_exclusive (events : List DaemonEvent) :
    ∀ s ∈ states Daemon.step {} events,
      (∀ i j, (s.instances i).state = .running → (s.instances j).state = .running → i = j) ∧
        (∀ haltedAtLaunch ∈ s.launches, haltedAtLaunch = false) ∧
        ∀ σ ∈ s.signals, σ.target + 1 = σ.launched ∧ σ.pid = (s.instances σ.target).pid ∧
          (σ.reaped = false → σ.leader = some (.launched σ.target)) := by
  have hsteps : AllSteps Daemon.step (fun _ _ => True) {} events := AllSteps.of_forall (fun _ _ => trivial) _ events
  intro s hs
  have h := hsteps.invariant (fun s a (h : Daemon.Supervised s) _ => h.step a) Daemon.Supervised.start s hs
  refine ⟨fun i j hi hj => ?_, h.launches, fun σ hσ => (h.signals σ hσ).2⟩
  exact Option.some.inj ((h.running i hi).symm.trans (h.running j hj))

/-- The daemon crashes, leaving a child behind, and is restarted. -/
def crash : List DaemonEvent :=
  [.start, .launch (some 100), .exits 0 true, .reap 0, .supervise 0, .restart 1 (some 101)]

/-- After the restart one instance is left. -/
theorem crash_exclusive :
    run Daemon.step {} crash ∈ states Daemon.step {} crash ∧
      ((run Daemon.step {} crash).instances 0).state ≠ .running := by
  have hmem : run Daemon.step {} crash ∈ states Daemon.step {} crash := run_mem_states _ crash
  obtain ⟨hone, -⟩ := supervision_exclusive crash _ hmem
  have hrestarted : ((run Daemon.step {} crash).instances 1).state = .running := by decide +kernel
  exact ⟨hmem, fun hrunning => Nat.zero_ne_one (hone 0 1 hrunning hrestarted)⟩

/-- The restart signals a group whose leader has been reaped. -/
theorem orphans_signalled :
    (run Daemon.step {} crash).signals = [⟨100, none, 0, true, 1⟩] ∧
      ((run Daemon.step {} crash).instances 1).state = .running := by
  decide +kernel

end Simorgh.Vpn.Procs
