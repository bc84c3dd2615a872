import Mathlib.Data.List.Permutation
import Simorgh.Lib.Run
import Simorgh.Panel.Admins
import Simorgh.Panel.QuoteLaws

/-!
# Recharging a reseller

`Recharge` reads the profile of a reseller, adds to the allowance and writes the sum
back.  The sum is a machine integer and is clamped at zero; the write does not look
at what is stored by then.

* `recharged` — the allowance after a grant or a deduction.
* `rechargedRight_iff` — a grant does not lower it and a deduction does not raise it,
  unless the sum wraps or the allowance was negative.
* `Till.step` — one statement of one of the requests under way.
* `Current` — nobody else has written since the request read the allowance.
* `recharge_adds_up` — both: what one request does, and that requests whose writes are
  all current come to the same as one after the other.
* `grants_lost` — a grant that empties the allowance, and two grants of which one is lost.
-/

namespace Simorgh.Panel

open Simorgh.Lib

/-! ## One request -/

/-- The errors of a recharge. -/
inductive RechargeError where
  | outOfRange
  | resellerNotFound
  | database
  deriving DecidableEq

/-- The texts of the errors the panel makes itself. -/
def RechargeError.text : RechargeError → Option String
  | .outOfRange => some "that recharge amount is out of range"
  | .resellerNotFound => some "reseller not found"
  | .database => none

/-- The most that is added at once. -/
def maxRechargeGB : Int := 2 ^ 30

/-- The amount of the form, in bytes. -/
def deltaBytes (gb : Int) : Except RechargeError Int :=
  if maxRechargeGB < gb ∨ gb < -maxRechargeGB then .error .outOfRange else .ok (gb * oneGB)

/-- The allowance that `Recharge` writes. -/
def recharged (allowance deltaBytes : Int) : Int := max 0 (int64 (allowance + deltaBytes))

/-- A grant does not lower the allowance, a deduction does not raise it. -/
def RechargedRight (allowance delta : Int) : Prop :=
  (0 < delta → allowance ≤ recharged allowance delta) ∧ (delta < 0 → recharged allowance delta ≤ allowance)

theorem granted_iff {allowance delta : Int} (ha : FitsInt64 allowance) (hd : FitsInt64 delta) (hpos : 0 < delta) :
    allowance ≤ recharged allowance delta ↔ allowance + delta < 2 ^ 63 := by
  have hlow := ha.1
  unfold recharged
  constructor
  · intro h
    by_contra hwraps
    have hneg := int64_neg_of_wraps (not_lt.1 hwraps) (by have := ha.2; have := hd.2; omega)
    have hlt := hd.2
    omega
  · intro hfits
    rw [int64_of_fits ⟨by omega, hfits⟩]
    omega

theorem deducted_iff {allowance delta : Int} (ha : FitsInt64 allowance) (hd : FitsInt64 delta) (hneg : delta < 0) :
    recharged allowance delta ≤ allowance ↔ 0 ≤ allowance := by
  have hhigh := ha.2
  have hlow := hd.1
  unfold recharged
  constructor
  · exact fun h => (le_max_left 0 _).trans h
  · intro h0
    rw [int64_of_fits ⟨by omega, by omega⟩]
    omega

theorem rechargedRight_iff {allowance delta : Int} (ha : FitsInt64 allowance) (hd : FitsInt64 delta) :
    RechargedRight allowance delta ↔ (0 < delta → allowance + delta < 2 ^ 63) ∧ (delta < 0 → 0 ≤ allowance) :=
  and_congr (forall_congr' fun hpos => granted_iff ha hd hpos) (forall_congr' fun hneg => deducted_iff ha hd hneg)

/-! ## Requests beside each other -/

/-- A profile and the admin who made the reseller. -/
structure ManagedProfile where
  profile : ResellerProfile
  createdBy : Nat := 0

/-- The reseller of a profile. -/
def ManagedProfile.userId (p : ManagedProfile) : Nat := p.profile.userId

/-- The rows a recharge reads and writes. -/
structure ResellerDb where
  users : Table User.id
  profiles : Table ManagedProfile.userId

/-- The allowance of a reseller. -/
def ResellerDb.allowance? (db : ResellerDb) (id : Nat) : Option Int :=
  (db.profiles.find? id).map (·.profile.allowanceBytes)

/-- Another allowance, in the columns as they are. -/
def ManagedProfile.setAllowance (next : Int) (p : ManagedProfile) : ManagedProfile :=
  { p with profile := { p.profile with allowanceBytes := next } }

theorem ManagedProfile.setAllowance_userId (next : Int) (p : ManagedProfile) :
    (p.setAllowance next).userId = p.userId := rfl

/-- The allowance of a reseller is written. -/
def ResellerDb.setAllowance (db : ResellerDb) (id : Nat) (next : Int) : ResellerDb :=
  { db with
    profiles := db.profiles.modify id (ManagedProfile.setAllowance next)
      (ManagedProfile.setAllowance_userId next) }

theorem ResellerDb.allowance?_setAllowance (db : ResellerDb) (id : Nat) (next : Int) :
    (db.setAllowance id next).allowance? id = (db.allowance? id).map fun _ => next := by
  unfold allowance? setAllowance
  simp only [Table.find?_modify_self, Option.map_map]
  rfl

/-- How far a request has come. -/
inductive RechargeStage where
  | begun
  /-- The account is a reseller's. -/
  | known
  /-- The profile as it was read, which the caller may manage. -/
  | held (profile : ResellerProfile)
  | finished (r : Except RechargeError Unit)

/-- A recharge under way. -/
structure RechargeCall where
  caller : Option User
  delta : Int
  stage : RechargeStage := .begun

/-- The call ends. -/
def RechargeCall.finish (c : RechargeCall) (r : Except RechargeError Unit) : RechargeCall :=
  { c with stage := .finished r }

/-- `manageable`, its first query. -/
def RechargeCall.findUser (c : RechargeCall) (id : Nat) (db : ResellerDb) (fails : Bool) : RechargeCall :=
  if c.caller.isNone || fails then c.finish (.error .resellerNotFound)
  else match db.users.find? id with
    | none => c.finish (.error .resellerNotFound)
    | some user => if user.isReseller then { c with stage := .known } else c.finish (.error .resellerNotFound)

/-- May this caller manage the reseller? -/
def manages (caller : Option User) (p : ManagedProfile) : Bool :=
  match caller with
  | none => false
  | some u => u.isSuperAdmin || p.createdBy == u.id

/-- `manageable`, its second query. -/
def RechargeCall.findProfile (c : RechargeCall) (id : Nat) (db : ResellerDb) (fails : Bool) : RechargeCall :=
  if fails then c.finish (.error .resellerNotFound)
  else match db.profiles.find? id with
    | none => c.finish (.error .resellerNotFound)
    | some p => if manages c.caller p then { c with stage := .held p.profile } else c.finish (.error .resellerNotFound)

/-- The next statement of a request, which may fail. -/
def RechargeCall.next (c : RechargeCall) (id : Nat) (db : ResellerDb) (fails : Bool) : ResellerDb × RechargeCall :=
  match c.stage with
  | .begun => (db, c.findUser id db fails)
  | .known => (db, c.findProfile id db fails)
  | .held p =>
      if fails then (db, c.finish (.error .database))
      else (db.setAllowance id (recharged p.allowanceBytes c.delta), c.finish (.ok ()))
  | .finished _ => (db, c)

/-- The rows, and the recharges of one reseller that are under way. -/
structure Till where
  db : ResellerDb
  calls : List RechargeCall

/-- One of the requests takes its next statement. -/
def Till.step (id : Nat) (s : Till) (a : Nat × Bool) : Till :=
  match s.calls[a.1]? with
  | none => s
  | some c => ⟨(c.next id s.db a.2).1, s.calls.set a.1 (c.next id s.db a.2).2⟩

/-- What a request that went through has granted. -/
def RechargeCall.granted? (c : RechargeCall) : Option Int :=
  match c.stage with
  | .finished (.ok ()) => some c.delta
  | _ => none

/-- What was added. -/
def Till.granted (s : Till) : List Int := s.calls.filterMap RechargeCall.granted?

/-- A write that goes through finds the allowance as its request has read it. -/
def Current (id : Nat) (s : Till) (a : Nat × Bool) : Prop :=
  ∀ c p, s.calls[a.1]? = some c → c.stage = .held p → a.2 = false → s.db.allowance? id = some p.allowanceBytes

/-- The allowance is what the requests that went through make of it one after the other. -/
def AddedUp (id : Nat) (start : Option Int) (s : Till) : Prop :=
  ∃ order : List Int, order.Perm s.granted ∧ s.db.allowance? id = start.map fun a => order.foldl recharged a

section

variable {id : Nat} {s : Till} {c : RechargeCall} {db : ResellerDb} {fails : Bool} {start : Option Int}

theorem RechargeCall.granted?_findUser : (c.findUser id db fails).granted? = none := by
  unfold RechargeCall.findUser
  split
  · rfl
  · split
    · rfl
    · split <;> rfl

theorem RechargeCall.granted?_findProfile : (c.findProfile id db fails).granted? = none := by
  unfold RechargeCall.findProfile
  split
  · rfl
  · split
    · rfl
    · split <;> rfl

variable (id db) in
/-- A request that is not at its write, or whose write fails, grants nothing and leaves the rows alone. -/
theorem RechargeCall.next_idle (h : ∀ p, c.stage = .held p → fails = true) :
    (c.next id db fails).1 = db ∧ (c.next id db fails).2.granted? = c.granted? := by
  unfold RechargeCall.next
  cases hstage : c.stage with
  | begun =>
      refine ⟨rfl, c.granted?_findUser.trans ?_⟩
      rw [RechargeCall.granted?, hstage]
  | known =>
      refine ⟨rfl, c.granted?_findProfile.trans ?_⟩
      rw [RechargeCall.granted?, hstage]
  | held p =>
      simp only [h p hstage, if_true]
      refine ⟨trivial, ?_⟩
      rw [RechargeCall.granted?, RechargeCall.granted?, hstage]
      rfl
  | finished r => exact ⟨rfl, rfl⟩

variable (id db) in
/-- A write that goes through. -/
theorem RechargeCall.next_held {p : ResellerProfile} (h : c.stage = .held p) :
    (c.next id db false).1 = db.setAllowance id (recharged p.allowanceBytes c.delta) ∧
      (c.next id db false).2.granted? = some c.delta ∧ c.granted? = none := by
  unfold RechargeCall.next RechargeCall.granted?
  rw [h]
  exact ⟨rfl, rfl, rfl⟩

/-- A member put in the place of one that says the same. -/
theorem filterMap_set_same {α β : Type} {f : α → Option β} {l : List α} {k : Nat} {x y : α} (hk : l[k]? = some x)
    (hf : f y = f x) : (l.set k y).filterMap f = l.filterMap f := by
  induction l generalizing k with
  | nil => cases hk
  | cons z l ih =>
      cases k with
      | zero =>
          rw [List.getElem?_cons_zero] at hk
          cases hk
          rw [List.set_cons_zero, List.filterMap_cons, List.filterMap_cons, hf]
      | succ k =>
          rw [List.set_cons_succ, List.filterMap_cons, List.filterMap_cons, ih hk]

/-- A member that says something in the place of one that does not. -/
theorem filterMap_set_perm {α β : Type} {f : α → Option β} {l : List α} {k : Nat} {x y : α} {b : β}
    (hk : l[k]? = some x) (hx : f x = none) (hy : f y = some b) : ((l.set k y).filterMap f).Perm
      (b :: l.filterMap f) := by
  induction l generalizing k with
  | nil => cases hk
  | cons z l ih =>
      cases k with
      | zero =>
          rw [List.getElem?_cons_zero] at hk
          cases hk
          rw [List.set_cons_zero, List.filterMap_cons_some hy, List.filterMap_cons_none hx]
      | succ k =>
          rw [List.set_cons_succ]
          cases hz : f z with
          | none =>
              rw [List.filterMap_cons_none hz, List.filterMap_cons_none hz]
              exact ih hk
          | some b' =>
              rw [List.filterMap_cons_some hz, List.filterMap_cons_some hz]
              exact ((ih hk).cons b').trans (List.Perm.swap b b' _)

/-- A statement at a time, the allowance stays what the grants add up to. -/
theorem AddedUp.step (h : AddedUp id start s) (a : Nat × Bool) (hcurrent : Current id s a) :
    AddedUp id start (s.step id a) := by
  obtain ⟨order, hperm, hallowance⟩ := h
  unfold Till.step
  cases hk : s.calls[a.1]? with
  | none => exact ⟨order, hperm, hallowance⟩
  | some c =>
      by_cases hwrites : ∀ p, c.stage = .held p → a.2 = true
      · obtain ⟨hdb, hsame⟩ := RechargeCall.next_idle id s.db hwrites
        refine ⟨order, ?_, ?_⟩
        · unfold Till.granted
          rw [filterMap_set_same hk hsame]
          exact hperm
        · show ((c.next id s.db a.2).1).allowance? id = _
          rw [hdb]
          exact hallowance
      · push Not at hwrites
        obtain ⟨p, hstage, hgoes⟩ := hwrites
        replace hgoes : a.2 = false := by simpa using hgoes
        have hread := hcurrent c p hk hstage hgoes
        obtain ⟨hdb, hdone, hnot⟩ := RechargeCall.next_held id s.db hstage
        rw [hgoes]
        refine ⟨order ++ [c.delta], ?_, ?_⟩
        · refine (List.perm_append_singleton c.delta order).trans ?_
          exact (hperm.cons c.delta).trans (filterMap_set_perm hk hnot hdone).symm
        · show ((c.next id s.db false).1).allowance? id = _
          rw [hdb, ResellerDb.allowance?_setAllowance, hread]
          rw [hread] at hallowance
          obtain ⟨a₀, rfl, hfold⟩ := Option.map_eq_some_iff.1 hallowance.symm
          rw [Option.map_some, Option.map_some, List.foldl_append, List.foldl_cons, List.foldl_nil, hfold]

end

/-- One request changes the allowance the way its sign says exactly when the sum does not wrap and a deduction
finds something to deduct from.  Requests beside each other come to the same as one after the other as long as
no write overtakes another request between its read and its write. -/
theorem recharge_adds_up (id : Nat) (s : Till) (schedule : List (Nat × Bool)) :
    (∀ allowance delta, FitsInt64 allowance → FitsInt64 delta →
      (RechargedRight allowance delta ↔ (0 < delta → allowance + delta < 2 ^ 63) ∧ (delta < 0 → 0 ≤ allowance))) ∧
    ((∀ c ∈ s.calls, c.stage = .begun) → AllSteps (Till.step id) (Current id) s schedule →
      ∀ t ∈ states (Till.step id) s schedule, AddedUp id (s.db.allowance? id) t) := by
  refine ⟨fun allowance delta ha hd => rechargedRight_iff ha hd, fun hbegun hsteps => ?_⟩
  refine hsteps.invariant (fun s a (h : AddedUp id _ s) hcurrent => h.step a hcurrent) ⟨[], ?_, ?_⟩
  · have hnone : s.granted = [] := by
      apply List.filterMap_eq_nil_iff.2
      intro c hc
      unfold RechargeCall.granted?
      rw [hbegun c hc]
    rw [hnone]
  · simp only [List.foldl_nil, Option.map_id']

/-- A reseller without an allowance, and an admin who grants one byte and two bytes at once. -/
def twoGrants : Till where
  db := ⟨.single { id := 1, username := "r", isReseller := true }, .single ⟨{ userId := 1 }, 0⟩⟩
  calls := [⟨some { id := 7, username := "a", isSuperAdmin := true }, 1, .begun⟩,
    ⟨some { id := 7, username := "a", isSuperAdmin := true }, 2, .begun⟩]

/-- One request after the other. -/
def inTurn : List (Nat × Bool) := [(0, false), (0, false), (0, false), (1, false), (1, false), (1, false)]

/-- Both requests read before either writes. -/
def inStep : List (Nat × Bool) := [(0, false), (1, false), (0, false), (1, false), (0, false), (1, false)]

theorem twoGrants_begun : ∀ c ∈ twoGrants.calls, c.stage = .begun := by
  intro c hc
  rcases List.mem_pair.1 hc with rfl | rfl <;> rfl

theorem inTurn_current : AllSteps (Till.step 1) (Current 1) twoGrants inTurn := by
  refine ⟨?_, ?_, ?_, ?_, ?_, ?_, trivial⟩ <;> intro c p hk hstage _ <;> cases hk <;> cases hstage <;> rfl

theorem grants_in_turn :
    (run (Till.step 1) twoGrants inTurn).granted = [1, 2] ∧
      (run (Till.step 1) twoGrants inTurn).db.allowance? 1 = some 3 ∧
      AddedUp 1 (some 0) (run (Till.step 1) twoGrants inTurn) := by
  refine ⟨by decide +kernel, by decide +kernel, ?_⟩
  exact (recharge_adds_up 1 twoGrants inTurn).2 twoGrants_begun inTurn_current _ (run_mem_states twoGrants inTurn)

/-- An allowance as large as the form can make it is emptied by a grant of one GB.  Of two grants at once, the
first is lost, whatever order they are put in. -/
theorem grants_lost :
    (gbToBytes (maxInt64 / oneGB + 1) = maxInt64 ∧ deltaBytes 1 = .ok oneGB ∧ recharged maxInt64 oneGB = 0) ∧
      (run (Till.step 1) twoGrants inStep).granted = [1, 2] ∧
      (run (Till.step 1) twoGrants inStep).db.allowance? 1 = some 2 ∧
      ∀ order : List Int, order.Perm [1, 2] → order.foldl recharged 0 ≠ 2 := by
  refine ⟨⟨by decide, rfl, by decide⟩, by decide +kernel, by decide +kernel, fun order horder => ?_⟩
  rcases List.perm_pair.1 horder with rfl | rfl <;> decide

end Simorgh.Panel
