import Mathlib.Data.List.Basic
import Simorgh.Lib.Run

/-!
# A copy that is published again when its source changes

A store is changed by transactions, and a document derived from it is kept in a file.
Whoever runs a statement on the store raises a flag; a pass lowers the flag, reads the
store by one query after another, and puts what comes of it into the file.  Passes may
overlap one another and the transactions, whose changes are seen when they commit.

* `Reader` — the queries of a pass and the document at their end.
* `step`, `Ok` — the steps, and which of them keep the file from falling behind: no query
  and no write fails, no pass starts while another holds what it has read, and none starts
  to read while a statement that the flag does not show is uncommitted.
* `Inv.step`, `Inv.settled_or_dirty` — with such steps, the flag is up or the file is the document
  whenever nothing is under way.
-/

namespace Simorgh.Lib.Republish

/-- What a pass has to do yet.  A query sees the store of its moment, or fails. -/
inductive Reader (D F : Type) where
  | done (f : F)
  | query (next : Option D → Reader D F)

variable {D F : Type}

/-- The document, if all queries see the same store. -/
def Reader.eval (d : D) : Reader D F → F
  | .done f => f
  | .query next => (next (some d)).eval d

/-- A publisher under way. -/
structure Pass (D F : Type) where
  /-- It has read something. -/
  begun : Bool := false
  /-- A query of it has failed. -/
  failed : Bool := false
  rest : Reader D F

/-- The store, its flag and the published file. -/
structure State (D F : Type) where
  store : D
  dirty : Bool
  file : Option F
  passes : List (Pass D F) := []
  /-- The open transactions: whether a statement of theirs has been run. -/
  txs : List Bool := []

/-- What happens to the store and the file. -/
inductive Event (D : Type) where
  | opened
  /-- A statement of a transaction; it raises the flag. -/
  | statement (t : Nat)
  | commit (t : Nat) (change : D → D)
  | rollback (t : Nat)
  | pass
  /-- A pass, if the flag is up. -/
  | passIfDirty
  | read (p : Nat) (ok : Bool)
  | publish (p : Nat) (ok : Bool)

/-- The flag is lowered first. -/
def State.start (job : Reader D F) (s : State D F) : State D F :=
  { s with dirty := false, passes := s.passes ++ [{ rest := job }] }

/-- One event. -/
def step [DecidableEq F] (job : Reader D F) (s : State D F) : Event D → State D F
  | .opened => { s with txs := s.txs ++ [false] }
  | .statement t =>
      match s.txs[t]? with
      | none => s
      | some _ => { s with txs := s.txs.set t true, dirty := true }
  | .commit t change =>
      match s.txs[t]? with
      | none => s
      | some changed =>
          { s with txs := s.txs.eraseIdx t, store := if changed then change s.store else s.store }
  | .rollback t => { s with txs := s.txs.eraseIdx t }
  | .pass => s.start job
  | .passIfDirty => if s.dirty then s.start job else s
  | .read p ok =>
      match s.passes[p]? with
      | some ⟨_, failed, .query next⟩ =>
          let rest := next (if ok then some s.store else none)
          { s with passes := s.passes.set p ⟨true, failed || !ok, rest⟩ }
      | _ => s
  | .publish p ok =>
      match s.passes[p]? with
      | some ⟨_, _, .done f⟩ =>
          { s with
            passes := s.passes.eraseIdx p
            file := if s.file = some f then s.file else if ok then some f else s.file }
      | _ => s

/-- No pass holds what it has read. -/
def State.Idle (s : State D F) : Prop := ∀ p ∈ s.passes, p.begun = false

/-- No transaction has run a statement. -/
def State.Calm (s : State D F) : Prop := ∀ t ∈ s.txs, t = false

/-- The steps that are allowed. -/
def Ok (s : State D F) : Event D → Prop
  | .pass => s.Idle
  | .passIfDirty => s.dirty = true → s.Idle
  | .read p ok => ok = true ∧ ∀ pass ∈ s.passes[p]?, pass.begun = false → s.dirty = true ∨ s.Calm
  | .publish _ ok => ok = true
  | _ => True

instance (s : State D F) : Decidable s.Idle := inferInstanceAs (Decidable (∀ p ∈ s.passes, p.begun = false))

instance (s : State D F) : Decidable s.Calm := inferInstanceAs (Decidable (∀ t ∈ s.txs, t = false))

instance (s : State D F) : (e : Event D) → Decidable (Ok s e)
  | .pass => inferInstanceAs (Decidable s.Idle)
  | .passIfDirty => inferInstanceAs (Decidable (s.dirty = true → s.Idle))
  | .read p ok => inferInstanceAs (Decidable
      (ok = true ∧ ∀ pass ∈ s.passes[p]?, pass.begun = false → s.dirty = true ∨ s.Calm))
  | .publish _ ok => inferInstanceAs (Decidable (ok = true))
  | .opened | .statement _ | .commit _ _ | .rollback _ => inferInstanceAs (Decidable True)

/-- A pass that has not read holds the whole job and one that has read without a failure;
and while the flag is down, whatever has been read is up to date, and without a pass the
file is. -/
structure Inv (job : Reader D F) (s : State D F) : Prop where
  whole : ∀ p ∈ s.passes, p.begun = false → p.rest = job
  sound : ∀ p ∈ s.passes, p.failed = false
  fresh : s.dirty = false → ∀ p ∈ s.passes, p.begun = true → p.rest.eval s.store = job.eval s.store ∧ s.Calm
  settled : s.dirty = false → s.passes = [] → s.file = some (job.eval s.store) ∧ s.Calm

section

variable {job : Reader D F} {s : State D F}

/-- While the flag is up only what holds of the passes themselves has to be shown. -/
theorem Inv.of_dirty (hdirty : s.dirty = true) (whole : ∀ p ∈ s.passes, p.begun = false → p.rest = job)
    (sound : ∀ p ∈ s.passes, p.failed = false) : Inv job s where
  whole := whole
  sound := sound
  fresh := by
    intro h
    rw [hdirty] at h
    cases h
  settled := by
    intro h
    rw [hdirty] at h
    cases h

theorem Inv.start (h : Inv job s) (hidle : s.Idle) : Inv job (s.start job) where
  whole := by
    intro p hp hbegun
    rcases List.mem_append.1 hp with hp | hp
    · exact h.whole p hp hbegun
    · rw [List.mem_singleton.1 hp]
  sound := by
    intro p hp
    rcases List.mem_append.1 hp with hp | hp
    · exact h.sound p hp
    · rw [List.mem_singleton.1 hp]
  fresh := by
    intro _ p hp hbegun
    rcases List.mem_append.1 hp with hp | hp
    · rw [hidle p hp] at hbegun
      cases hbegun
    · rw [List.mem_singleton.1 hp] at hbegun
      cases hbegun
  settled := by
    intro _ hnil
    exact absurd hnil (List.append_ne_nil_of_right_ne_nil _ (List.cons_ne_nil _ _))

/-- Transactions that leave, and those that have run no statement, change nothing. -/
theorem Inv.of_txs (h : Inv job s) {txs : List Bool} (hcalm : s.Calm → ∀ t ∈ txs, t = false) :
    Inv job { s with txs := txs } where
  whole := h.whole
  sound := h.sound
  fresh hdirty p hp hbegun := ⟨(h.fresh hdirty p hp hbegun).1, hcalm (h.fresh hdirty p hp hbegun).2⟩
  settled hdirty hnil := ⟨(h.settled hdirty hnil).1, hcalm (h.settled hdirty hnil).2⟩

theorem Inv.commit (h : Inv job s) {t : Nat} {changed : Bool} (ht : s.txs[t]? = some changed) (change : D → D) :
    Inv job { s with
      txs := s.txs.eraseIdx t, store := if changed then change s.store else s.store } := by
  have hleft : s.Calm → ∀ t' ∈ s.txs.eraseIdx t, t' = false :=
    fun hcalm t' ht' => hcalm t' (List.mem_of_mem_eraseIdx ht')
  cases changed with
  | false => exact h.of_txs hleft
  | true =>
      -- the statement was run, so neither a begun pass nor the file was up to date
      have hrun : ¬s.Calm := fun hcalm => Bool.noConfusion (hcalm true (List.mem_of_getElem? ht))
      refine ⟨h.whole, h.sound, fun hdirty p hp hbegun => ?_, fun hdirty hnil => ?_⟩
      · exact absurd (h.fresh hdirty p hp hbegun).2 hrun
      · exact absurd (h.settled hdirty hnil).2 hrun

theorem Inv.read (h : Inv job s) {p : Nat} {begun failed : Bool} {next : Option D → Reader D F}
    (hp : s.passes[p]? = some ⟨begun, failed, .query next⟩)
    (hfirst : begun = false → s.dirty = true ∨ s.Calm) :
    Inv job { s with passes := s.passes.set p ⟨true, failed, next (some s.store)⟩ } := by
  have hmem := List.mem_of_getElem? hp
  have hsame : s.dirty = false → (next (some s.store)).eval s.store = job.eval s.store ∧ s.Calm := by
    intro hdirty
    cases begun with
    | false =>
        have hjob : Reader.query next = job := h.whole _ hmem rfl
        refine ⟨by rw [← hjob]; rfl, (hfirst rfl).resolve_left ?_⟩
        rw [hdirty]
        exact Bool.false_ne_true
    | true => exact h.fresh hdirty _ hmem rfl
  refine ⟨fun q hq hbegun => ?_, fun q hq => ?_, fun hdirty q hq hbegun => ?_, fun hdirty hnil => ?_⟩
  · rcases List.mem_or_eq_of_mem_set hq with hq | rfl
    · exact h.whole q hq hbegun
    · cases hbegun
  · rcases List.mem_or_eq_of_mem_set hq with hq | rfl
    · exact h.sound q hq
    · exact h.sound ⟨begun, failed, .query next⟩ hmem
  · rcases List.mem_or_eq_of_mem_set hq with hq | rfl
    · exact h.fresh hdirty q hq hbegun
    · exact hsame hdirty
  · have hlen := congrArg List.length hnil
    rw [List.length_set] at hlen
    rw [List.eq_nil_of_length_eq_zero hlen] at hmem
    cases hmem

theorem Inv.publish (h : Inv job s) {p : Nat} {begun failed : Bool} {f : F}
    (hp : s.passes[p]? = some ⟨begun, failed, .done f⟩) (hquery : ∃ next, job = .query next) :
    Inv job { s with passes := s.passes.eraseIdx p, file := some f } := by
  have hmem := List.mem_of_getElem? hp
  have hbegun : begun = true := by
    cases begun with
    | true => rfl
    | false =>
        obtain ⟨next, rfl⟩ := hquery
        cases h.whole _ hmem rfl
  refine ⟨fun q hq => h.whole q (List.mem_of_mem_eraseIdx hq), fun q hq => h.sound q (List.mem_of_mem_eraseIdx hq),
    fun hdirty q hq => h.fresh hdirty q (List.mem_of_mem_eraseIdx hq), fun hdirty _ => ?_⟩
  obtain ⟨hf, hcalm⟩ := h.fresh hdirty _ hmem hbegun
  exact ⟨congrArg some hf, hcalm⟩

/-- The allowed steps keep the invariant. -/
theorem Inv.step [DecidableEq F] (hquery : ∃ next, job = .query next) (h : Inv job s) {e : Event D} (hok : Ok s e) :
    Inv job (Republish.step job s e) := by
  cases e with
  | opened =>
      refine h.of_txs fun hcalm t ht => ?_
      rcases List.mem_append.1 ht with ht | ht
      · exact hcalm t ht
      · exact List.mem_singleton.1 ht
  | statement t =>
      rw [Republish.step]
      split
      · exact h
      · exact Inv.of_dirty rfl h.whole h.sound
  | commit t change =>
      rw [Republish.step]
      split
      · exact h
      · rename_i changed ht
        exact h.commit ht change
  | rollback t => exact h.of_txs fun hcalm t' ht' => hcalm t' (List.mem_of_mem_eraseIdx ht')
  | pass => exact h.start hok
  | passIfDirty =>
      rw [Republish.step]
      split
      · rename_i hdirty
        exact h.start (hok hdirty)
      · exact h
  | read p ok =>
      obtain ⟨rfl, hfirst⟩ := hok
      rw [Republish.step]
      split
      · rename_i begun failed next hp
        have hread := h.read hp fun hbegun => hfirst _ hp hbegun
        simpa using hread
      · exact h
  | publish p ok =>
      obtain rfl : ok = true := hok
      rw [Republish.step]
      split
      · rename_i begun failed f hp
        have hfile : (if s.file = some f then s.file else if true = true then some f else s.file) = some f := by
          split
          · assumption
          · rfl
        rw [hfile]
        exact h.publish hp hquery
      · exact h

/-- With nothing under way, the flag is up or the file is the document of the store. -/
theorem Inv.settled_or_dirty (h : Inv job s) (hpasses : s.passes = []) :
    s.dirty = true ∨ s.file = some (job.eval s.store) := by
  cases hdirty : s.dirty with
  | true => exact Or.inl rfl
  | false => exact Or.inr (h.settled hdirty hpasses).1

end

end Simorgh.Lib.Republish
