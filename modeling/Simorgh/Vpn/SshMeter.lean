import Simorgh.Vpn.Ssh

/-!
# What the SSH gateway meters

A login takes its account's counter before it is registered as a session; what its channels
carry is added to that counter without the manager's lock; `collect` reads and resets every
counter in the table and drops the ones that read nothing and whose account has no session.
Each lock region is a step and so is each operation on a counter; the lock is held as long
as `collect` is under way.

* `Meter.step` — logins, sessions, traffic and the steps of `collect`, in any order.
* `Meter.KeepsCounter` — `collect` drops no counter that is still in somebody's hands.
* `Metered` — every byte added is in a report, in the hands of `collect` or in the counter of
  its account that is in the table.
* `metered_once` — so it is in every run in which no such counter is dropped.
-/

namespace Simorgh.Vpn.Ssh

open Simorgh.Lib

/-- The direction of bytes. -/
inductive Dir where
  | up
  | down
  deriving DecidableEq

/-- What `collect` reports of an account. -/
structure ClientTraffic where
  email : String
  up : ℕ
  down : ℕ

/-- The bytes in a direction. -/
def ClientTraffic.amount (t : ClientTraffic) : Dir → ℕ
  | .up => t.up
  | .down => t.down

/-- An entry of `m.counters`: the counter object of an account. -/
structure Counter where
  email : String
  acct : ℕ
  deriving DecidableEq

/-- How far a login has come. -/
inductive Phase where
  /-- it has its counter and is not admitted yet -/
  | waiting
  /-- it was admitted, and its channels are served -/
  | serving
  /-- `removeSession` is done, and a copy may still be about to count what it has moved -/
  | removed
  /-- it was refused, or nothing of it runs any more -/
  | gone
  deriving DecidableEq

/-- An `sshSession` from `acctFor` on. -/
structure Login where
  email : String
  srcIP : String
  since : ℤ
  acct : ℕ
  phase : Phase := .waiting

/-- The account `collect` is looking at. -/
structure Hand where
  email : String
  acct : ℕ
  up : ℕ
  /-- the download, once it is read -/
  down : Option ℕ := none

/-- The bytes in a direction. -/
def Hand.amount (h : Hand) : Dir → ℕ
  | .up => h.up
  | .down => h.down.getD 0

/-- A `collect` under way. -/
structure Sweep where
  visited : List String := []
  out : List ClientTraffic := []
  hand : Option Hand := none
  /-- all that had been added when it began -/
  begun : String → Dir → ℕ

/-- What a `collect` has returned, and all that had been added when it began. -/
structure Report where
  out : List ClientTraffic
  begun : String → Dir → ℕ

/-- The counters, which stay below `2 ^ 63`, and the logins that hold them. -/
structure Meter where
  counters : Table Counter.email := Table.empty
  /-- the counter objects, those no longer in the table too -/
  value : ℕ → Dir → ℕ := fun _ _ => 0
  next : ℕ := 0
  logins : List Login := []
  /-- `m.sessions`; the key of a session is the place of its login -/
  registered : List Session := []
  sweep : Option Sweep := none
  /-- the latest first -/
  reports : List Report := []
  /-- all that sessions of an account have added -/
  added : String → Dir → ℕ := fun _ _ => 0

/-- Logins, traffic and collections. -/
inductive MeterEvent where
  | login (email srcIP : String) (since : ℤ)
  /-- `admit`, with the User Limit and whether it evicts -/
  | admitLogin (n inboundId : ℕ) (k : ℤ) (accept : Bool)
  /-- a copy of the session counts what it has moved -/
  | add (n : ℕ) (dir : Dir) (bytes : ℕ)
  /-- `removeSession` -/
  | remove (n : ℕ)
  /-- the last copy of the session is over -/
  | finish (n : ℕ)
  | beginCollect
  /-- the next account of the table, and `a.up.Swap(0)` -/
  | swapUp (email : String)
  /-- `a.down.Swap(0)` -/
  | swapDown
  /-- what `collect` does with what it has read -/
  | settle
  | endCollect

namespace Meter

/-- `acctFor`, for a login. -/
def login (s : Meter) (email srcIP : String) (since : ℤ) : Meter :=
  match s.counters.find? email with
  | some c => { s with logins := s.logins ++ [⟨email, srcIP, since, c.acct, .waiting⟩] }
  | none =>
      { s with
        counters := s.counters.put ⟨email, s.next⟩
        next := s.next + 1
        logins := s.logins ++ [⟨email, srcIP, since, s.next, .waiting⟩] }

/-- A login comes further. -/
def setPhase (s : Meter) (n : ℕ) (l : Login) (phase : Phase) : Meter :=
  { s with logins := s.logins.set n { l with phase := phase } }

/-- `admit`. -/
def admitLogin (s : Meter) (n : ℕ) (l : Login) (inboundId : ℕ) (k : ℤ) (accept : Bool) : Meter :=
  let set := s.registered.filter fun x => decide (x.email = l.email)
  let session : Session :=
    { key := n, inboundId := inboundId, email := l.email, srcIP := l.srcIP, since := l.since }
  if k ≤ 0 ∨ l.srcIP ∈ set.map (·.srcIP) ∨ (ipFirst set).length < k then
    { s.setPhase n l .serving with registered := s.registered ++ [session] }
  else if accept then
    -- the oldest device goes, with all its sessions; their connections are closed later
    { s.setPhase n l .serving with
      registered := (s.registered.filter fun x =>
        decide (¬ (x.email = l.email ∧ (byAge set).head? = some x.srcIP))) ++ [session] }
  else s.setPhase n l .gone

/-- The values with one counter at zero. -/
def resetCounter (s : Meter) (acct : ℕ) (dir : Dir) : ℕ → Dir → ℕ :=
  fun a d => if a = acct ∧ d = dir then 0 else s.value a d

/-- Bytes of a login. -/
def add (s : Meter) (l : Login) (dir : Dir) (bytes : ℕ) : Meter :=
  { s with
    value := fun a d => if a = l.acct ∧ d = dir then s.value a d + bytes else s.value a d
    added := fun e d => if e = l.email ∧ d = dir then s.added e d + bytes else s.added e d }

/-- `collect` reads nothing of the account, which has no session. -/
def drops (s : Meter) (h : Hand) : Prop :=
  h.up = 0 ∧ h.down = some 0 ∧ ∀ x ∈ s.registered, x.email ≠ h.email

instance (s : Meter) (h : Hand) : Decidable (s.drops h) :=
  inferInstanceAs (Decidable (_ ∧ _ ∧ _))

/-- What is done with what was read of an account. -/
def settle (s : Meter) (w : Sweep) (h : Hand) (down : ℕ) : Meter :=
  if h.up = 0 ∧ down = 0 then
    { s with
      counters := if s.drops h then s.counters.erase h.email else s.counters
      sweep := some { w with hand := none } }
  else { s with sweep := some { w with hand := none, out := w.out ++ [⟨h.email, h.up, down⟩] } }

/-- One event. -/
def step (s : Meter) : MeterEvent → Meter
  | .login email srcIP since => if s.sweep.isSome then s else s.login email srcIP since
  | .admitLogin n inboundId k accept =>
      if s.sweep.isSome then s
      else
        match s.logins[n]? with
        | some l => if l.phase = .waiting then s.admitLogin n l inboundId k accept else s
        | none => s
  | .add n dir bytes =>
      match s.logins[n]? with
      | some l => if l.phase = .serving ∨ l.phase = .removed then s.add l dir bytes else s
      | none => s
  | .remove n =>
      if s.sweep.isSome then s
      else
        match s.logins[n]? with
        | some l =>
            if l.phase = .serving then
              { s.setPhase n l .removed with registered := s.registered.filter fun x => decide (x.key ≠ n) }
            else s
        | none => s
  | .finish n =>
      match s.logins[n]? with
      | some l => if l.phase = .removed then s.setPhase n l .gone else s
      | none => s
  | .beginCollect => if s.sweep.isSome then s else { s with sweep := some { begun := s.added } }
  | .swapUp email =>
      match s.sweep, s.counters.find? email with
      | some w, some c =>
          if w.hand.isSome ∨ email ∈ w.visited then s
          else
            { s with
              value := s.resetCounter c.acct .up
              sweep := some { w with
                visited := email :: w.visited
                hand := some { email := email, acct := c.acct, up := s.value c.acct .up } } }
      | _, _ => s
  | .swapDown =>
      match s.sweep with
      | some w =>
          match w.hand with
          | some h =>
              if h.down.isSome then s
              else
                { s with
                  value := s.resetCounter h.acct .down
                  sweep := some { w with hand := some { h with down := some (s.value h.acct .down) } } }
          | none => s
      | none => s
  | .settle =>
      match s.sweep with
      | some w =>
          match w.hand with
          | some h =>
              match h.down with
              | some down => s.settle w h down
              | none => s
          | none => s
      | none => s
  | .endCollect =>
      match s.sweep with
      | some w =>
          if w.hand = none ∧ ∀ c ∈ s.counters.rows, c.email ∈ w.visited then
            { s with sweep := none, reports := ⟨w.out, w.begun⟩ :: s.reports }
          else s
      | none => s

/-! ## Where the bytes are -/

end Meter

/-- What a list of reports on accounts says of one account. -/
def reportedOf (out : List ClientTraffic) (e : String) (d : Dir) : ℕ :=
  ((out.filter fun t => decide (t.email = e)).map fun t => t.amount d).sum

/-- All that was returned under an email. -/
def returnedOf (reports : List Report) (e : String) (d : Dir) : ℕ :=
  (reports.map fun r => reportedOf r.out e d).sum

/-- What `collect` has read of an account and not returned yet. -/
def Sweep.swept (w : Sweep) (e : String) (d : Dir) : ℕ :=
  reportedOf w.out e d + ((w.hand.filter fun h => decide (h.email = e)).map fun h => h.amount d).getD 0

/-- `collect` has read the account's counter in that direction. -/
def Sweep.Passed (w : Sweep) (e : String) (d : Dir) : Prop :=
  e ∈ w.visited ∧ ∀ h ∈ w.hand, h.email = e → h.down = none → d = .up

namespace Meter

/-- What is in the account's counter in the table. -/
def pending (s : Meter) (e : String) (d : Dir) : ℕ :=
  ((s.counters.find? e).map fun c => s.value c.acct d).getD 0

/-- What a collection under way has read. -/
def swept (s : Meter) (e : String) (d : Dir) : ℕ := (s.sweep.map fun w => w.swept e d).getD 0

/-- When `collect` drops a counter, nothing was added to it since it was read, and no login
and no connection has it. -/
def KeepsCounter (s : Meter) : MeterEvent → Prop
  | .settle => ∀ w ∈ s.sweep, ∀ h ∈ w.hand, s.drops h →
      (∀ d, s.value h.acct d = 0) ∧ ∀ l ∈ s.logins, l.phase ≠ .gone → l.acct ≠ h.acct
  | _ => True

end Meter

/-- Every byte is in one place, and what a `collect` finds it returns. -/
structure Metered (s : Meter) : Prop where
  fresh : ∀ a, s.next ≤ a → ∀ d, s.value a d = 0
  taken : ∀ c ∈ s.counters.rows, c.acct < s.next
  apart : ∀ c ∈ s.counters.rows, ∀ c' ∈ s.counters.rows, c.acct = c'.acct → c = c'
  held : ∀ l ∈ s.logins, l.phase ≠ .gone → ⟨l.email, l.acct⟩ ∈ s.counters.rows
  hand : ∀ w ∈ s.sweep, ∀ h ∈ w.hand, ⟨h.email, h.acct⟩ ∈ s.counters.rows
  conserved : ∀ e d, returnedOf s.reports e d + s.swept e d + s.pending e d = s.added e d
  caught : ∀ w ∈ s.sweep, ∀ e d, w.begun e d ≤ s.added e d ∧
    (w.Passed e d → s.pending e d + w.begun e d ≤ s.added e d)
  reported : ∀ r older, (r :: older) <:+ s.reports → ∀ e d, r.begun e d ≤ returnedOf (r :: older) e d

theorem reportedOf_append (out : List ClientTraffic) (t : ClientTraffic) (e : String) (d : Dir) :
    reportedOf (out ++ [t]) e d = reportedOf out e d + if t.email = e then t.amount d else 0 := by
  unfold reportedOf
  rw [List.filter_append, List.map_append, List.sum_append]
  by_cases he : t.email = e
  · simp [he]
  · simp [he]

theorem Sweep.swept_free {w : Sweep} (hfree : w.hand = none) (e : String) (d : Dir) :
    w.swept e d = reportedOf w.out e d := by
  rw [swept, hfree]
  rfl

theorem Sweep.swept_hand {w : Sweep} {hand : Hand} (hhand : w.hand = some hand) (e : String) (d : Dir) :
    w.swept e d = reportedOf w.out e d + if hand.email = e then hand.amount d else 0 := by
  rw [swept, hhand, Option.filter_some]
  by_cases he : hand.email = e
  · simp [he]
  · simp [he]

namespace Meter

variable {s : Meter}

theorem pending_of_mem {c : Counter} (hc : c ∈ s.counters.rows) (d : Dir) :
    s.pending c.email d = s.value c.acct d := by
  rw [pending, Table.find?_of_mem hc]
  rfl

theorem pending_of_none {e : String} (he : s.counters.find? e = none) (d : Dir) : s.pending e d = 0 := by
  rw [pending, he]
  rfl

end Meter

namespace Metered

variable {s : Meter}

/-- A counter in the table is told by its object. -/
theorem acct_eq_iff (h : Metered s) {c c' : Counter} (hc : c ∈ s.counters.rows) (hc' : c' ∈ s.counters.rows) :
    c.acct = c'.acct ↔ c.email = c'.email := by
  constructor
  · intro hacct
    rw [h.apart c hc c' hc' hacct]
  · intro hemail
    rw [Table.eq_of_key_eq hc hc' hemail]

theorem start : Metered {} := by
  refine ⟨fun _ _ _ => rfl, ?_, ?_, ?_, ?_, fun _ _ => rfl, ?_, ?_⟩
  · intro c hc
    cases hc
  · intro c hc
    cases hc
  · intro l hl
    cases hl
  · intro w hw
    cases hw
  · intro w hw
    cases hw
  · intro r older hsuffix
    exact absurd (List.suffix_nil.1 hsuffix) (List.cons_ne_nil r older)

/-! ### Logins and sessions -/

/-- What happens to logins and sessions moves no byte. -/
theorem sessions (h : Metered s) {logins : List Login} (registered : List Session)
    (hheld : ∀ l ∈ logins, l.phase ≠ .gone → ⟨l.email, l.acct⟩ ∈ s.counters.rows) :
    Metered { s with logins := logins, registered := registered } :=
  ⟨h.fresh, h.taken, h.apart, hheld, h.hand, h.conserved, h.caught, h.reported⟩

theorem setPhase (h : Metered s) {n : ℕ} {l : Login} (hl : s.logins[n]? = some l) (hphase : l.phase ≠ .gone)
    (phase : Phase) (registered : List Session) :
    Metered { s.setPhase n l phase with registered := registered } := by
  refine h.sessions registered fun x hx hgone => ?_
  rcases List.mem_or_eq_of_mem_set hx with hx | rfl
  · exact h.held x hx hgone
  · exact h.held l (List.mem_of_getElem? hl) hphase

theorem admitLogin (h : Metered s) {n : ℕ} {l : Login} (hl : s.logins[n]? = some l) (hphase : l.phase = .waiting)
    (inboundId : ℕ) (k : ℤ) (accept : Bool) : Metered (s.admitLogin n l inboundId k accept) := by
  have hhas : l.phase ≠ .gone := by
    rw [hphase]
    decide
  unfold Meter.admitLogin
  simp only
  split
  · exact h.setPhase hl hhas .serving _
  · split
    · exact h.setPhase hl hhas .serving _
    · exact h.setPhase hl hhas .gone s.registered

/-- A login gets the counter in the table, or a new one that holds nothing. -/
theorem login (h : Metered s) (hlock : s.sweep = none) (email srcIP : String) (since : ℤ) :
    Metered (s.login email srcIP since) := by
  unfold Meter.login
  split
  case h_1 c hc =>
    obtain ⟨hmem, rfl⟩ := Table.find?_some hc
    refine h.sessions s.registered fun l hl hgone => ?_
    rcases List.mem_append.1 hl with hl | hl
    · exact h.held l hl hgone
    · rw [List.mem_singleton.1 hl]
      exact hmem
  case h_2 hnone =>
    have hrows : ∀ c, c ∈ (s.counters.put ⟨email, s.next⟩).rows ↔
        c = ⟨email, s.next⟩ ∨ c ∈ s.counters.rows := by
      intro c
      rw [Table.mem_put]
      constructor
      · rintro (hc | hc)
        · exact Or.inr hc.1
        · exact Or.inl hc
      · rintro (hc | hc)
        · exact Or.inr hc
        · exact Or.inl ⟨hc, Table.find?_eq_none.1 hnone c hc⟩
    have hpending : ∀ e d, Meter.pending { s with counters := s.counters.put ⟨email, s.next⟩ } e d =
        s.pending e d := by
      intro e d
      unfold Meter.pending
      rw [Table.find?_put]
      by_cases he : email = e
      · subst he
        rw [if_pos rfl, hnone]
        exact h.fresh s.next (Nat.le_refl _) d
      · rw [if_neg he]
    refine ⟨fun a ha => h.fresh a (by simp only at ha; omega), ?_, ?_, ?_, ?_, ?_, ?_, h.reported⟩
    · intro c hc
      rcases (hrows c).1 hc with rfl | hc
      · exact Nat.lt_succ_self _
      · exact Nat.lt_succ_of_lt (h.taken c hc)
    · intro c hc c' hc' hacct
      rcases (hrows c).1 hc with rfl | hc
      · rcases (hrows c').1 hc' with rfl | hc'
        · rfl
        · exact absurd hacct (h.taken c' hc').ne'
      · rcases (hrows c').1 hc' with rfl | hc'
        · exact absurd hacct (h.taken c hc).ne
        · exact h.apart c hc c' hc' hacct
    · intro l hl hgone
      refine (hrows _).2 ?_
      rcases List.mem_append.1 hl with hl | hl
      · exact Or.inr (h.held l hl hgone)
      · rw [List.mem_singleton.1 hl]
        exact Or.inl rfl
    · intro w hw
      rw [hlock] at hw
      cases hw
    · intro e d
      exact (congrArg (returnedOf s.reports e d + s.swept e d + ·) (hpending e d)).trans (h.conserved e d)
    · intro w hw
      rw [hlock] at hw
      cases hw

/-! ### Traffic -/

theorem pending_add (h : Metered s) {l : Login} (hl : l ∈ s.logins) (hphase : l.phase ≠ .gone) (dir : Dir)
    (bytes : ℕ) (e : String) (d : Dir) :
    (s.add l dir bytes).pending e d = s.pending e d + if e = l.email ∧ d = dir then bytes else 0 := by
  have hmem := h.held l hl hphase
  cases hfind : s.counters.find? e with
  | none =>
      have hne : e ≠ l.email := fun he => Table.find?_eq_none.1 hfind _ hmem he.symm
      rw [Meter.pending_of_none hfind, if_neg fun hboth => hne hboth.1]
      exact Meter.pending_of_none (s := s.add l dir bytes) hfind d
  | some c =>
      obtain ⟨hc, rfl⟩ := Table.find?_some hfind
      have hsame : c.acct = l.acct ↔ c.email = l.email := h.acct_eq_iff hc hmem
      rw [Meter.pending_of_mem hc, Meter.pending_of_mem (s := s.add l dir bytes) hc]
      simp only [Meter.add, hsame]
      split
      · rfl
      · rfl

/-- What a session adds is in the counter that is in the table. -/
theorem add (h : Metered s) {l : Login} (hl : l ∈ s.logins) (hphase : l.phase ≠ .gone) (dir : Dir) (bytes : ℕ) :
    Metered (s.add l dir bytes) := by
  have hadded : ∀ e d, (s.add l dir bytes).added e d =
      s.added e d + if e = l.email ∧ d = dir then bytes else 0 := by
    intro e d
    simp only [Meter.add]
    split
    · rfl
    · rfl
  refine ⟨?_, h.taken, h.apart, h.held, h.hand, ?_, ?_, h.reported⟩
  · intro a ha d
    have hacct : a ≠ l.acct := by
      have := h.taken _ (h.held l hl hphase)
      simp only [Meter.add] at ha this
      omega
    simp only [Meter.add]
    rw [if_neg fun hboth => hacct hboth.1]
    exact h.fresh a ha d
  · intro e d
    have hbefore := h.conserved e d
    rw [hadded, h.pending_add hl hphase]
    show returnedOf s.reports e d + s.swept e d + _ = _
    omega
  · intro w hw e d
    obtain ⟨hbegun, hpassed⟩ := h.caught w hw e d
    rw [hadded, h.pending_add hl hphase]
    constructor
    · omega
    · intro hp
      have := hpassed hp
      omega

/-! ### Collecting -/

theorem beginCollect (h : Metered s) (hlock : s.sweep = none) :
    Metered { s with sweep := some { begun := s.added } } := by
  refine ⟨h.fresh, h.taken, h.apart, h.held, ?_, ?_, ?_, h.reported⟩
  · intro w hw
    cases hw
    intro hand hhand
    cases hhand
  · intro e d
    have hbefore := h.conserved e d
    rw [Meter.swept, hlock] at hbefore
    exact hbefore
  · intro w hw e d
    cases hw
    exact ⟨Nat.le_refl _, fun hpassed => absurd hpassed.1 List.not_mem_nil⟩

/-- A counter in the table that is read and reset. -/
theorem pending_reset (h : Metered s) {c : Counter} (hc : c ∈ s.counters.rows) (dir : Dir) (sweep : Option Sweep)
    (e : String) (d : Dir) :
    Meter.pending { s with value := s.resetCounter c.acct dir, sweep := sweep } e d =
      if e = c.email ∧ d = dir then 0 else s.pending e d := by
  cases hfind : s.counters.find? e with
  | none =>
      have hne : e ≠ c.email := fun he => Table.find?_eq_none.1 hfind c hc he.symm
      rw [if_neg fun hboth => hne hboth.1, Meter.pending_of_none hfind]
      exact Meter.pending_of_none (s := { s with value := s.resetCounter c.acct dir, sweep := sweep }) hfind d
  | some c' =>
      obtain ⟨hc', rfl⟩ := Table.find?_some hfind
      have hsame : c'.acct = c.acct ↔ c'.email = c.email := h.acct_eq_iff hc' hc
      rw [Meter.pending_of_mem hc',
        Meter.pending_of_mem (s := { s with value := s.resetCounter c.acct dir, sweep := sweep }) hc']
      simp only [Meter.resetCounter, hsame]

/-- What is read out of a counter in the table goes into the hands of `collect`. -/
theorem swap (h : Metered s) {w w' : Sweep} (hw : s.sweep = some w) {c : Counter} (hc : c ∈ s.counters.rows)
    (dir : Dir) (hbegun : w'.begun = w.begun) (hhand : ∀ hand ∈ w'.hand, ⟨hand.email, hand.acct⟩ ∈ s.counters.rows)
    (hswept : ∀ e d, w'.swept e d = w.swept e d + if e = c.email ∧ d = dir then s.value c.acct dir else 0)
    (hpassed : ∀ e d, w'.Passed e d → w.Passed e d ∨ (e = c.email ∧ d = dir)) :
    Metered { s with value := s.resetCounter c.acct dir, sweep := some w' } := by
  refine ⟨?_, h.taken, h.apart, h.held, ?_, ?_, ?_, h.reported⟩
  · intro a ha d
    simp only [Meter.resetCounter]
    split
    · rfl
    · exact h.fresh a ha d
  · intro x hx
    cases hx
    exact hhand
  · intro e d
    have hbefore := h.conserved e d
    rw [Meter.swept, hw] at hbefore
    simp only [Option.map_some, Option.getD_some] at hbefore
    rw [h.pending_reset hc]
    show returnedOf s.reports e d + w'.swept e d + _ = s.added e d
    rw [hswept]
    by_cases hthis : e = c.email ∧ d = dir
    · obtain ⟨rfl, rfl⟩ := hthis
      rw [if_pos ⟨rfl, rfl⟩, if_pos ⟨rfl, rfl⟩]
      rw [Meter.pending_of_mem hc] at hbefore
      omega
    · rw [if_neg hthis, if_neg hthis]
      omega
  · intro x hx e d
    cases hx
    obtain ⟨hold, hthen⟩ := h.caught w (hw ▸ rfl) e d
    rw [hbegun, h.pending_reset hc]
    refine ⟨hold, fun hp => ?_⟩
    by_cases hthis : e = c.email ∧ d = dir
    · rw [if_pos hthis]
      show 0 + w.begun e d ≤ s.added e d
      omega
    · rw [if_neg hthis]
      exact hthen ((hpassed e d hp).resolve_right hthis)

theorem swapUp (h : Metered s) {w : Sweep} (hw : s.sweep = some w) {c : Counter} (hc : c ∈ s.counters.rows)
    (hfree : w.hand = none) :
    Metered { s with
      value := s.resetCounter c.acct .up
      sweep := some { w with
        visited := c.email :: w.visited
        hand := some { email := c.email, acct := c.acct, up := s.value c.acct .up } } } := by
  refine h.swap hw hc .up rfl ?_ ?_ ?_
  · intro hand hhand
    cases hhand
    exact hc
  · intro e d
    rw [Sweep.swept_hand rfl, Sweep.swept_free hfree]
    by_cases he : c.email = e
    · subst he
      cases d with
      | up => simp [Hand.amount]
      | down => simp [Hand.amount]
    · have he' : ¬ e = c.email := fun h => he h.symm
      simp [he, he']
  · rintro e d ⟨hvisited, hdir⟩
    rcases List.mem_cons.1 hvisited with rfl | hvisited
    · exact Or.inr ⟨rfl, hdir _ rfl rfl rfl⟩
    · refine Or.inl ⟨hvisited, fun hand hhand => ?_⟩
      rw [hfree] at hhand
      cases hhand

theorem swapDown (h : Metered s) {w : Sweep} (hw : s.sweep = some w) {hand : Hand} (hhand : w.hand = some hand)
    (hfirst : hand.down = none) :
    Metered { s with
      value := s.resetCounter hand.acct .down
      sweep := some { w with hand := some { hand with down := some (s.value hand.acct .down) } } } := by
  have hmem : ⟨hand.email, hand.acct⟩ ∈ s.counters.rows := h.hand w (hw ▸ rfl) hand (hhand ▸ rfl)
  refine h.swap (c := ⟨hand.email, hand.acct⟩) hw hmem .down rfl ?_ ?_ ?_
  · intro x hx
    cases hx
    exact hmem
  · intro e d
    rw [Sweep.swept_hand rfl, Sweep.swept_hand hhand]
    by_cases he : hand.email = e
    · subst he
      cases d with
      | up => simp [Hand.amount]
      | down => simp [Hand.amount, hfirst]
    · have he' : ¬ e = hand.email := fun h => he h.symm
      simp [he, he']
  · rintro e d ⟨hvisited, -⟩
    by_cases he : e = hand.email
    · cases d with
      | up => exact Or.inl ⟨hvisited, fun _ _ _ _ => rfl⟩
      | down => exact Or.inr ⟨he, rfl⟩
    · refine Or.inl ⟨hvisited, fun x hx hemail => ?_⟩
      rw [hhand] at hx
      cases hx
      exact absurd hemail.symm he

/-- A counter that holds nothing and is in nobody's hands can be dropped. -/
theorem erase (h : Metered s) {c : Counter} (hc : c ∈ s.counters.rows) (hempty : ∀ d, s.value c.acct d = 0)
    (hfree : ∀ l ∈ s.logins, l.phase ≠ .gone → l.acct ≠ c.acct) (hnohand : ∀ w ∈ s.sweep, w.hand = none) :
    Metered { s with counters := s.counters.erase c.email } := by
  have hrows : ∀ x ∈ (s.counters.erase c.email).rows, x ∈ s.counters.rows :=
    fun x hx => (Table.mem_erase.1 hx).1
  have hpending : ∀ e d, Meter.pending { s with counters := s.counters.erase c.email } e d = s.pending e d := by
    intro e d
    by_cases he : e = c.email
    · subst he
      rw [Meter.pending_of_mem hc, hempty]
      exact Meter.pending_of_none (s := { s with counters := s.counters.erase c.email })
        (Table.find?_erase_self _ _) d
    · unfold Meter.pending
      rw [Table.find?_erase_of_ne he]
  refine ⟨h.fresh, fun x hx => h.taken x (hrows x hx), fun x hx y hy => h.apart x (hrows x hx) y (hrows y hy),
    ?_, ?_, ?_, ?_, h.reported⟩
  · intro l hl hgone
    have hmem := h.held l hl hgone
    refine Table.mem_erase.2 ⟨hmem, fun hemail => hfree l hl hgone ?_⟩
    exact (h.acct_eq_iff hmem hc).2 hemail
  · intro w hw hand hhand
    rw [hnohand w hw] at hhand
    cases hhand
  · intro e d
    rw [hpending]
    exact h.conserved e d
  · intro w hw e d
    rw [hpending]
    exact h.caught w hw e d

theorem settle (h : Metered s) (hkeeps : s.KeepsCounter .settle) {w : Sweep} (hw : s.sweep = some w) {hand : Hand}
    (hhand : w.hand = some hand) {down : ℕ} (hdown : hand.down = some down) : Metered (s.settle w hand down) := by
  have hmem : ⟨hand.email, hand.acct⟩ ∈ s.counters.rows := h.hand w (hw ▸ rfl) hand (hhand ▸ rfl)
  -- what was in the hands of `collect` is in its report, or was nothing
  have hput : ∀ out : List ClientTraffic, (∀ e d, reportedOf out e d =
      reportedOf w.out e d + if hand.email = e then hand.amount d else 0) →
      Metered { s with sweep := some { w with hand := none, out := out } } := by
    intro out hout
    refine ⟨h.fresh, h.taken, h.apart, h.held, ?_, ?_, ?_, h.reported⟩
    · intro x hx
      cases hx
      intro y hy
      cases hy
    · intro e d
      have hbefore := h.conserved e d
      rw [Meter.swept, hw] at hbefore
      simp only [Option.map_some, Option.getD_some] at hbefore
      rw [Sweep.swept_hand hhand, ← hout] at hbefore
      exact hbefore
    · intro x hx e d
      cases hx
      obtain ⟨hbegun, hthen⟩ := h.caught w (hw ▸ rfl) e d
      refine ⟨hbegun, fun hp => hthen ⟨hp.1, fun y hy _ hnone => ?_⟩⟩
      rw [hhand] at hy
      cases hy
      rw [hdown] at hnone
      cases hnone
  unfold Meter.settle
  split
  case isTrue hzero =>
    have hnothing : Metered { s with sweep := some { w with hand := none } } := by
      refine hput w.out fun e d => ?_
      cases d with
      | up => simp [Hand.amount, hzero.1]
      | down => simp [Hand.amount, hdown, hzero.2]
    split
    case isTrue hdrops =>
      obtain ⟨hempty, hfree⟩ := hkeeps w (hw ▸ rfl) hand (hhand ▸ rfl) hdrops
      refine hnothing.erase (c := ⟨hand.email, hand.acct⟩) hmem hempty hfree fun x hx => ?_
      cases hx
      rfl
    case isFalse => exact hnothing
  case isFalse =>
    refine hput _ fun e d => ?_
    rw [reportedOf_append]
    cases d with
    | up => rfl
    | down => simp only [ClientTraffic.amount, Hand.amount, hdown, Option.getD_some]

/-- When every counter was read, all that had been added before is in the reports. -/
theorem endCollect (h : Metered s) {w : Sweep} (hw : s.sweep = some w) (hfree : w.hand = none)
    (hall : ∀ c ∈ s.counters.rows, c.email ∈ w.visited) :
    Metered { s with sweep := none, reports := ⟨w.out, w.begun⟩ :: s.reports } := by
  have hswept : ∀ e d, s.swept e d = reportedOf w.out e d := by
    intro e d
    rw [Meter.swept, hw]
    exact Sweep.swept_free hfree e d
  have hreturned : ∀ e d, returnedOf (⟨w.out, w.begun⟩ :: s.reports) e d =
      reportedOf w.out e d + returnedOf s.reports e d := fun _ _ => rfl
  refine ⟨h.fresh, h.taken, h.apart, h.held, ?_, ?_, ?_, ?_⟩
  · intro x hx
    cases hx
  · intro e d
    have hbefore := h.conserved e d
    rw [hswept] at hbefore
    show returnedOf (⟨w.out, w.begun⟩ :: s.reports) e d + 0 + s.pending e d = s.added e d
    rw [hreturned]
    omega
  · intro x hx
    cases hx
  · intro r older hsuffix e d
    rcases List.suffix_cons_iff.1 hsuffix with hlast | hearlier
    · obtain ⟨rfl, rfl⟩ := List.cons.inj hlast
      have hbefore := h.conserved e d
      obtain ⟨hbegun, hthen⟩ := h.caught w (hw ▸ rfl) e d
      rw [hreturned]
      rw [hswept] at hbefore
      cases hfind : s.counters.find? e with
      | none =>
          rw [Meter.pending_of_none hfind] at hbefore
          show w.begun e d ≤ _
          omega
      | some c =>
          obtain ⟨hc, rfl⟩ := Table.find?_some hfind
          have hpassed : w.Passed c.email d := by
            refine ⟨hall c hc, fun y hy => ?_⟩
            rw [hfree] at hy
            cases hy
          have := hthen hpassed
          show w.begun c.email d ≤ _
          omega
    · exact h.reported r older hearlier e d

/-! ### Every step -/

theorem step (h : Metered s) (a : MeterEvent) (hkeeps : s.KeepsCounter a) : Metered (s.step a) := by
  have hunlocked : ¬ s.sweep.isSome = true → s.sweep = none := fun hlock => by simpa using hlock
  cases a with
  | login email srcIP since =>
      simp only [Meter.step]
      split
      · exact h
      · exact h.login (hunlocked ‹_›) email srcIP since
  | admitLogin n inboundId k accept =>
      simp only [Meter.step]
      split
      · exact h
      · split
        · split
          · exact h.admitLogin ‹_› ‹_› inboundId k accept
          · exact h
        · exact h
  | add n dir bytes =>
      simp only [Meter.step]
      split
      case h_1 l hl =>
        split
        case isTrue hphase =>
          refine h.add (List.mem_of_getElem? hl) ?_ dir bytes
          rcases hphase with hphase | hphase
          · rw [hphase]
            decide
          · rw [hphase]
            decide
        case isFalse => exact h
      case h_2 => exact h
  | remove n =>
      simp only [Meter.step]
      split
      · exact h
      · split
        case h_1 l hl =>
          split
          case isTrue hphase =>
            refine h.setPhase hl ?_ .removed _
            rw [hphase]
            decide
          case isFalse => exact h
        case h_2 => exact h
  | finish n =>
      simp only [Meter.step]
      split
      case h_1 l hl =>
        split
        case isTrue hphase =>
          refine h.setPhase hl ?_ .gone s.registered
          rw [hphase]
          decide
        case isFalse => exact h
      case h_2 => exact h
  | beginCollect =>
      simp only [Meter.step]
      split
      · exact h
      · exact h.beginCollect (hunlocked ‹_›)
  | swapUp email =>
      simp only [Meter.step]
      split
      case h_1 w c hw hc =>
        obtain ⟨hmem, rfl⟩ := Table.find?_some hc
        split
        case isTrue => exact h
        case isFalse hfree => exact h.swapUp hw hmem (by simpa using (not_or.1 hfree).1)
      case h_2 => exact h
  | swapDown =>
      simp only [Meter.step]
      split
      case h_1 w hw =>
        split
        case h_1 hand hhand =>
          split
          case isTrue => exact h
          case isFalse hfirst => exact h.swapDown hw hhand (by simpa using hfirst)
        case h_2 => exact h
      case h_2 => exact h
  | settle =>
      simp only [Meter.step]
      split
      case h_1 w hw =>
        split
        case h_1 hand hhand =>
          split
          case h_1 down hdown => exact h.settle hkeeps hw hhand hdown
          case h_2 => exact h
        case h_2 => exact h
      case h_2 => exact h
  | endCollect =>
      simp only [Meter.step]
      split
      case h_1 w hw =>
        split
        case isTrue hdone => exact h.endCollect hw hdone.1 hdone.2
        case isFalse => exact h
      case h_2 => exact h

end Metered

/-- In every run in which `collect` drops no counter that was added to since it was read or that a login
or a connection still has, every byte added under an email is, at any time, in exactly one place: in what
was returned under that email, in the hands of `collect`, or in the counter in the table; and when a
`collect` returns, all that had been added when it began has been returned. -/
theorem metered_once (events : List MeterEvent) (hkeeps : AllSteps Meter.step Meter.KeepsCounter {} events) :
    ∀ s ∈ states Meter.step {} events,
      (∀ e d, returnedOf s.reports e d + s.swept e d + s.pending e d = s.added e d) ∧
        ∀ r older, (r :: older) <:+ s.reports → ∀ e d, r.begun e d ≤ returnedOf (r :: older) e d := by
  intro s hs
  have hmetered := hkeeps.invariant (fun s a (h : Metered s) hkeeps => h.step a hkeeps) Metered.start s hs
  exact ⟨hmetered.conserved, hmetered.reported⟩

/-- A session that carries 100 bytes up, is closed, and is collected twice. -/
def oneSession : List MeterEvent :=
  [.login "alice" "192.0.2.1" 0, .admitLogin 0 1 1 true, .add 0 .up 100, .remove 0, .finish 0,
    .beginCollect, .swapUp "alice", .swapDown, .settle, .endCollect,
    .beginCollect, .swapUp "alice", .swapDown, .settle, .endCollect]

theorem oneSession_metered :
    (run Meter.step {} oneSession).reports.map (fun r => reportedOf r.out "alice" .up) = [0, 100] ∧
      (run Meter.step {} oneSession).counters.rows = [] ∧
      returnedOf (run Meter.step {} oneSession).reports "alice" .up + (run Meter.step {} oneSession).swept "alice" .up +
        (run Meter.step {} oneSession).pending "alice" .up = (run Meter.step {} oneSession).added "alice" .up := by
  have hkeeps : AllSteps Meter.step Meter.KeepsCounter {} oneSession := by
    refine ⟨trivial, trivial, trivial, trivial, trivial, trivial, trivial, trivial, ?_, trivial, trivial, trivial,
      trivial, ?_, trivial, trivial⟩
    · -- the first `collect` has bytes to report
      intro w hw h hh hdrops
      cases hw
      cases hh
      exact absurd hdrops.1 (by decide)
    · intro w hw h hh _
      cases hw
      cases hh
      refine ⟨fun d => ?_, fun l hl hgone => ?_⟩
      · cases d with
        | up => rfl
        | down => rfl
      · rw [List.mem_singleton.1 hl] at hgone
        exact absurd rfl hgone
  exact ⟨by decide +kernel, by decide +kernel,
    (metered_once oneSession hkeeps _ (run_mem_states _ oneSession)).1 "alice" .up⟩

/-- The counter of a login is dropped before the login is admitted. -/
def droppedAtLogin : List MeterEvent :=
  [.login "alice" "192.0.2.1" 0, .beginCollect, .swapUp "alice", .swapDown, .settle, .endCollect,
    .admitLogin 0 1 1 true, .add 0 .up 100, .remove 0, .finish 0, .beginCollect, .endCollect]

theorem droppedAtLogin_lost :
    (run Meter.step {} droppedAtLogin).added "alice" .up = 100 ∧
      (run Meter.step {} droppedAtLogin).reports.map (fun r => (r.begun "alice" .up, reportedOf r.out "alice" .up)) =
        [(100, 0), (0, 0)] ∧
      (run Meter.step {} droppedAtLogin).swept "alice" .up = 0 ∧
      (run Meter.step {} droppedAtLogin).pending "alice" .up = 0 := by
  decide +kernel

end Simorgh.Vpn.Ssh
