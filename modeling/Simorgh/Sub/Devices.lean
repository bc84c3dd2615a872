import Mathlib.Algebra.Order.Ring.Int
import Simorgh.Lib.Run
import Simorgh.Lib.Threads
import Simorgh.Panel.Model

/-!
# The devices of a subscription

`Admit` looks a device up, counts the account's devices and records the new one,
each in a statement of its own; the index on the pair is not unique.  The account
itself is read off the inbounds that carry the subscription id.

* `admits` — `Admit`, statement by statement.
* `GateSound` — one row for each device, no account over the limit, and no device
  refused that was admitted and not forgotten.
* `InTime` — a call under which the account's devices have changed still finds what
  it relies on.
* `accountForSub` — the account a subscription id stands for.
* `devices_limited` — a run is sound exactly if every call is in time, and the
  account stays the same exactly if every inbound names the same one.
* `two_devices_admitted` — two calls at once exceed the limit.
-/

namespace Simorgh.Sub

open Simorgh.Lib Simorgh.Panel

/-! ## Data -/

/-- One row of `client_devices`. -/
structure ClientDevice where
  id : Nat
  email : String
  fingerprint : String
  name : String := ""
  firstSeen : Int := 0
  lastSeen : Int := 0
  lastIP : String := ""
  deriving DecidableEq

/-- The table of devices. -/
structure DeviceDb where
  rows : List ClientDevice := []
  nextId : Nat := 1

/-- The arguments of `Admit`, and the time of the call. -/
structure AdmitCall where
  email : String
  fingerprint : String
  name : String := ""
  ip : String := ""
  now : Int := 0

/-- What a device is known by. -/
def ClientDevice.key (d : ClientDevice) : String × String := (d.email, d.fingerprint)

/-- What an admission is for. -/
def AdmitCall.key (a : AdmitCall) : String × String := (a.email, a.fingerprint)

/-- The fingerprints recorded for an account. -/
def DeviceDb.prints (db : DeviceDb) (email : String) : List String :=
  (db.rows.filter fun d => decide (d.email = email)).map ClientDevice.fingerprint

/-- The device was seen again. -/
def DeviceDb.touch (a : AdmitCall) (id : Nat) (db : DeviceDb) : DeviceDb :=
  { db with rows := db.rows.map fun d =>
      if d.id = id then { d with lastSeen := a.now, lastIP := a.ip, name := a.name } else d }

/-- A new device. -/
def DeviceDb.create (a : AdmitCall) (db : DeviceDb) : DeviceDb where
  rows := db.rows ++ [{
    id := db.nextId
    email := a.email
    fingerprint := a.fingerprint
    name := a.name
    firstSeen := a.now
    lastSeen := a.now
    lastIP := a.ip }]
  nextId := db.nextId + 1

/-- `Forget`. -/
def DeviceDb.forget (id : Nat) (db : DeviceDb) : DeviceDb :=
  { db with rows := db.rows.filter fun d => decide (d.id ≠ id) }

/-- `ForgetAll`. -/
def DeviceDb.forgetAll (email : String) (db : DeviceDb) : DeviceDb :=
  { db with rows := db.rows.filter fun d => decide (d.email ≠ email) }

/-! ## `Admit` -/

/-- The statements an admission can fail at. -/
inductive DevicePlace where
  | lookup | touch | count | create
  deriving DecidableEq

/-- Whether the device may proceed, and whether there was an error. -/
abbrev AdmitProg := Prog DeviceDb DevicePlace (Bool × Bool)

/-- The device is inserted. -/
def createDevice (a : AdmitCall) : AdmitProg := do
  let ok ← Prog.update .create (DeviceDb.create a)
  pure (true, !ok)

/-- A limit that is not positive is none; a count that fails lets the device in. -/
def countDevices (limit : ℤ) (a : AdmitCall) : AdmitProg :=
  if 0 < limit then do
    match ← Prog.select .count fun db => (db.prints a.email).length with
    | none => pure (true, true)
    | some count => if limit ≤ (count : ℤ) then pure (false, false) else createDevice a
  else createDevice a

/-- The error of the update is not looked at. -/
def touchDevice (a : AdmitCall) (id : Nat) : AdmitProg := do
  let _ ← Prog.update .touch (DeviceDb.touch a id)
  pure (true, false)

/-- `Admit`.  A lookup that fails is taken for an unknown device. -/
def admits (limit : ℤ) (a : AdmitCall) : AdmitProg :=
  if a.email = "" ∨ a.fingerprint = "" then pure (true, false)
  else do
    match ← Prog.select .lookup fun db => db.rows.find? fun d => decide (d.key = a.key) with
    | some (some existing) => touchDevice a existing.id
    | _ => countDevices limit a

/-! ## Runs -/

/-- What a call relies on: the devices of its account. -/
def SamePrints (a : AdmitCall) (s t : DeviceDb) : Prop := s.prints a.email = t.prints a.email

instance (a : AdmitCall) (s t : DeviceDb) : Decidable (SamePrints a s t) :=
  inferInstanceAs (Decidable (s.prints a.email = t.prints a.email))

/-- Admissions under way. -/
abbrev AdmitPool := Pool AdmitCall DeviceDb DevicePlace (Bool × Bool)

/-- The devices and the calls under way.  Which devices were admitted and not forgotten
since, and which of these were refused, is kept beside them. -/
structure Gate where
  pool : AdmitPool
  admitted : List (String × String)
  refusedAgain : List (String × String) := []

/-- Requests, their turns and removals. -/
inductive GateEvent where
  | request (a : AdmitCall)
  | turn (k : Nat)
  | forget (id : Nat)
  | forgetAll (email : String)

/-- A table of devices, all of them admitted earlier. -/
def Gate.start (db : DeviceDb) : Gate where
  pool := { store := db }
  admitted := db.rows.map ClientDevice.key

/-- The account has the device. -/
def Known (db : DeviceDb) (a : AdmitCall) : Prop := a.fingerprint ∈ db.prints a.email

instance (db : DeviceDb) (a : AdmitCall) : Decidable (Known db a) :=
  inferInstanceAs (Decidable (a.fingerprint ∈ db.prints a.email))

/-- What the next statement of a call decides. -/
def Gate.decided (limit : ℤ) (g : Gate) (th : Lib.Thread AdmitCall DeviceDb DevicePlace (Bool × Bool)) :
    Gate :=
  match th.prog.place? with
  | some .lookup =>
      if Known g.pool.store th.op then { g with admitted := th.op.key :: g.admitted } else g
  | some .create => { g with admitted := th.op.key :: g.admitted }
  | some .count =>
      if limit ≤ ((g.pool.store.prints th.op.email).length : ℤ) ∧ th.op.key ∈ g.admitted then
        { g with refusedAgain := th.op.key :: g.refusedAgain }
      else g
  | _ => g

/-- A call comes in or takes its next turn, or devices are forgotten. -/
def Gate.step (limit : ℤ) (g : Gate) : GateEvent → Gate
  | .request a => { g with pool := g.pool.spawn a (admits limit a) }
  | .turn k =>
      match g.pool.threads[k]? with
      | none => g
      | some th => { g.decided limit th with pool := g.pool.move SamePrints k fun _ => false }
  | .forget id =>
      { g with
        pool := g.pool.change SamePrints (g.pool.store.forget id)
        admitted := g.admitted.filter fun key =>
          !(g.pool.store.rows.any fun d => decide (d.id = id ∧ d.key = key)) }
  | .forgetAll email =>
      { g with
        pool := g.pool.change SamePrints (g.pool.store.forgetAll email)
        admitted := g.admitted.filter fun key => decide (key.1 ≠ email) }

/-- One row for each device, and no account with more than the limit. -/
structure Limited (limit : ℤ) (db : DeviceDb) : Prop where
  unique : (db.rows.map ClientDevice.key).Nodup
  within : ∀ email, ((db.prints email).length : ℤ) ≤ limit

/-- The devices are within the limit and none was refused that had been admitted. -/
structure GateSound (limit : ℤ) (g : Gate) : Prop where
  limited : Limited limit g.pool.store
  readmits : g.refusedAgain = []

/-- A call whose account has had devices recorded or forgotten since it came in: when it
counts, its device has not been admitted or there is room, and when it records its device,
that is not there and there is room. -/
def InTime (limit : ℤ) (g : Gate) : GateEvent → Prop
  | .turn k => ∀ th ∈ g.pool.threads[k]?, th.undisturbed = false →
      (th.prog.place? = some .count → th.op.key ∈ g.admitted →
        ((g.pool.store.prints th.op.email).length : ℤ) < limit) ∧
      (th.prog.place? = some .create → ¬ Known g.pool.store th.op ∧
        ((g.pool.store.prints th.op.email).length : ℤ) < limit)
  | _ => True

/-! ## Devices after a write -/

theorem known_iff {db : DeviceDb} {a : AdmitCall} :
    Known db a ↔ a.key ∈ db.rows.map ClientDevice.key := by
  simp only [Known, DeviceDb.prints, List.mem_map, List.mem_filter, decide_eq_true_eq]
  constructor
  · rintro ⟨d, ⟨hd, hemail⟩, hprint⟩
    exact ⟨d, hd, Prod.ext hemail hprint⟩
  · rintro ⟨d, hd, hkey⟩
    exact ⟨d, ⟨hd, congrArg Prod.fst hkey⟩, congrArg Prod.snd hkey⟩

theorem find?_eq_none {db : DeviceDb} {a : AdmitCall} :
    (db.rows.find? fun d => decide (d.key = a.key)) = none ↔ ¬ Known db a := by
  rw [known_iff, List.find?_eq_none, List.mem_map]
  simp

@[simp] theorem keys_touch (a : AdmitCall) (id : Nat) (db : DeviceDb) :
    (db.touch a id).rows.map ClientDevice.key = db.rows.map ClientDevice.key := by
  rw [DeviceDb.touch, List.map_map]
  refine List.map_congr_left fun d _ => ?_
  simp only [Function.comp_apply]
  split <;> rfl

theorem keys_create (a : AdmitCall) (db : DeviceDb) :
    (db.create a).rows.map ClientDevice.key = db.rows.map ClientDevice.key ++ [a.key] := by
  simp [DeviceDb.create, ClientDevice.key, AdmitCall.key]

/-- The fingerprints of an account, read off the keys. -/
theorem prints_eq (db : DeviceDb) (email : String) :
    db.prints email =
      ((db.rows.map ClientDevice.key).filter fun key => decide (key.1 = email)).map Prod.snd := by
  rw [List.filter_map, List.map_map]
  rfl

@[simp] theorem prints_touch (a : AdmitCall) (id : Nat) (db : DeviceDb) (email : String) :
    (db.touch a id).prints email = db.prints email := by
  rw [prints_eq, prints_eq, keys_touch]

theorem prints_create (a : AdmitCall) (db : DeviceDb) (email : String) :
    (db.create a).prints email =
      db.prints email ++ if a.email = email then [a.fingerprint] else [] := by
  rw [prints_eq, prints_eq, keys_create, List.filter_append, List.map_append]
  by_cases h : a.email = email <;> simp [AdmitCall.key, h]

section

variable {limit : ℤ} {db : DeviceDb} {a : AdmitCall}

theorem Limited.touch (h : Limited limit db) (id : Nat) : Limited limit (db.touch a id) where
  unique := by
    rw [keys_touch]
    exact h.unique
  within email := by
    rw [prints_touch]
    exact h.within email

theorem Limited.create_iff (h : Limited limit db) :
    Limited limit (db.create a) ↔ ¬ Known db a ∧ ((db.prints a.email).length : ℤ) < limit := by
  constructor
  · intro hcreated
    have hunique := hcreated.unique
    have hwithin := hcreated.within a.email
    rw [keys_create, List.nodup_append] at hunique
    rw [prints_create, if_pos rfl, List.length_append] at hwithin
    refine ⟨fun hknown => ?_, ?_⟩
    · exact hunique.2.2 a.key (known_iff.1 hknown) a.key (List.mem_singleton_self _) rfl
    · simp only [List.length_singleton, Nat.cast_add, Nat.cast_one] at hwithin
      omega
  · rintro ⟨hknown, hroom⟩
    constructor
    · rw [keys_create, List.nodup_append]
      refine ⟨h.unique, List.nodup_singleton _, fun key hkey other hother heq => ?_⟩
      rw [List.mem_singleton] at hother
      exact hknown (known_iff.2 (hother ▸ heq ▸ hkey))
    · intro email
      rw [prints_create]
      have hhere := h.within email
      split
      · rename_i hemail
        subst hemail
        rw [List.length_append, List.length_singleton]
        push_cast
        omega
      · rw [List.append_nil]
        exact hhere

/-- Rows that go leave the rest within the limit. -/
theorem Limited.filter (h : Limited limit db) {p : ClientDevice → Bool} :
    Limited limit { db with rows := db.rows.filter p } where
  unique := h.unique.sublist (List.filter_sublist.map _)
  within email := by
    have hle : (({ db with rows := db.rows.filter p } : DeviceDb).prints email).length ≤
        (db.prints email).length := by
      simp only [DeviceDb.prints, List.length_map]
      exact (List.filter_sublist.filter _).length_le
    have hhere := h.within email
    omega

end

/-! ## Where a call stands -/

/-- The programs a call can be left with, and what it knows if it was left alone. -/
inductive Stands (limit : ℤ) (a : AdmitCall) (db : DeviceDb) (undisturbed : Bool) : AdmitProg → Prop
  | start : Stands limit a db undisturbed (admits limit a)
  | touch (id : Nat) : Stands limit a db undisturbed (touchDevice a id)
  | count (h : undisturbed = true → ¬ Known db a) : Stands limit a db undisturbed (countDevices limit a)
  | create (h : undisturbed = true → ¬ Known db a ∧ ((db.prints a.email).length : ℤ) < limit) :
      Stands limit a db undisturbed (createDevice a)
  | done (r : Bool × Bool) : Stands limit a db undisturbed (pure r)

theorem Known.of_same {a : AdmitCall} {s t : DeviceDb} (h : SamePrints a s t) : Known t a ↔ Known s a := by
  unfold Known
  rw [show t.prints a.email = s.prints a.email from h.symm]

theorem Stands.disturb {limit : ℤ} {a : AdmitCall} {s t : DeviceDb} {undisturbed : Bool} {p : AdmitProg}
    (h : Stands limit a s undisturbed p) :
    Stands limit a t (undisturbed && decide (SamePrints a s t)) p := by
  cases h with
  | start => exact .start
  | touch id => exact .touch id
  | count h =>
      refine .count fun hund => ?_
      rw [Bool.and_eq_true, decide_eq_true_eq] at hund
      rw [Known.of_same hund.2]
      exact h hund.1
  | create h =>
      refine .create fun hund => ?_
      rw [Bool.and_eq_true, decide_eq_true_eq] at hund
      rw [Known.of_same hund.2, show t.prints a.email = s.prints a.email from hund.2.symm]
      exact h hund.1
  | done r => exact .done r

/-- No statement of the turn fails. -/
def smooth (_ : DevicePlace) : Bool := false

/-- What a turn of a call does to the devices. -/
inductive Turned (a : AdmitCall) (db : DeviceDb) (p : AdmitProg) : DeviceDb → Prop
  | read (h : p.place? ≠ some .create) : Turned a db p db
  | touch (id : Nat) (h : p.place? ≠ some .create) : Turned a db p (db.touch a id)
  | create (h : p.place? = some .create) : Turned a db p (db.create a)

theorem Stands.turn {limit : ℤ} {a : AdmitCall} {db : DeviceDb} {undisturbed : Bool} {p : AdmitProg}
    (hlimit : 1 ≤ limit) (h : Stands limit a db undisturbed p) :
    Stands limit a (p.attempt smooth db).1 undisturbed (p.attempt smooth db).2 ∧
      Turned a db p (p.attempt smooth db).1 := by
  cases h with
  | start =>
      unfold admits
      split
      · exact ⟨.done _, .read (by simp [Prog.place?, pure])⟩
      · rw [Prog.attempt_select]
        refine ⟨?_, .read (by simp [Prog.place?, Prog.select, bind, Prog.bind])⟩
        cases hfind : db.rows.find? fun d => decide (d.key = a.key) with
        | none => exact .count fun _ => find?_eq_none.1 hfind
        | some d => exact .touch d.id
  | touch id =>
      rw [touchDevice, Prog.attempt_update]
      exact ⟨.done _, .touch id (by simp [Prog.place?, Prog.update, bind, Prog.bind])⟩
  | count h =>
      rw [countDevices, if_pos (by omega), Prog.attempt_select]
      refine ⟨?_, .read (by simp [Prog.place?, Prog.select, bind, Prog.bind])⟩
      show Stands limit a db undisturbed (if limit ≤ ((db.prints a.email).length : ℤ) then _ else _)
      split
      · exact .done _
      · rename_i hroom
        exact .create fun hund => ⟨h hund, by omega⟩
  | create h =>
      rw [createDevice, Prog.attempt_update]
      exact ⟨.done _, .create rfl⟩
  | done r => exact ⟨.done r, .read (by simp [Prog.place?, pure])⟩

/-! ## Every run -/

/-- Where every call stands. -/
def Gate.Standing (limit : ℤ) (g : Gate) : Prop :=
  ∀ th ∈ g.pool.threads, Stands limit th.op g.pool.store th.undisturbed th.prog

/-- What was admitted has its row. -/
def Gate.Recorded (g : Gate) : Prop :=
  ∀ key ∈ g.admitted, key ∈ g.pool.store.rows.map ClientDevice.key

theorem step_turn {limit : ℤ} {g : Gate} {k : Nat}
    {th : Lib.Thread AdmitCall DeviceDb DevicePlace (Bool × Bool)} (hk : g.pool.threads[k]? = some th) :
    g.step limit (.turn k) = { g.decided limit th with pool := g.pool.move SamePrints k smooth } := by
  simp only [Gate.step, hk]
  rfl

theorem Gate.Standing.step {limit : ℤ} (hlimit : 1 ≤ limit) {g : Gate} (hg : g.Standing limit)
    (e : GateEvent) : (g.step limit e).Standing limit := by
  have hchange : ∀ t, ∀ th ∈ (g.pool.change SamePrints t).threads,
      Stands limit th.op t th.undisturbed th.prog := by
    intro t th hth
    obtain ⟨old, hold, rfl⟩ := List.mem_map.1 hth
    exact (hg old hold).disturb
  cases e with
  | request a =>
      intro th hth
      rcases List.mem_append.1 hth with hth | hth
      · exact hg th hth
      · rw [List.mem_singleton] at hth
        subst hth
        exact .start
  | forget id => exact hchange _
  | forgetAll email => exact hchange _
  | turn k =>
      cases hk : g.pool.threads[k]? with
      | none => simpa only [Gate.step, hk] using hg
      | some th =>
          rw [step_turn hk]
          simp only [Gate.Standing, Pool.move_eq hk]
          intro mover hmover
          rcases List.mem_or_eq_of_mem_set hmover with hmover | rfl
          · exact hchange _ mover hmover
          · exact ((hg th (List.mem_of_getElem? hk)).turn hlimit).1

theorem Turned.mem_keys {a : AdmitCall} {db db' : DeviceDb} {p : AdmitProg} (h : Turned a db p db')
    {key : String × String} (hkey : key ∈ db.rows.map ClientDevice.key) :
    key ∈ db'.rows.map ClientDevice.key := by
  cases h with
  | read => exact hkey
  | touch id =>
      rw [keys_touch]
      exact hkey
  | create =>
      rw [keys_create]
      exact List.mem_append_left _ hkey

theorem Turned.created {a : AdmitCall} {db db' : DeviceDb} {p : AdmitProg} (h : Turned a db p db')
    (hplace : p.place? = some .create) : db' = db.create a := by
  cases h with
  | read h => exact absurd hplace h
  | touch id h => exact absurd hplace h
  | create => rfl

theorem Turned.limited {limit : ℤ} {a : AdmitCall} {db db' : DeviceDb} {p : AdmitProg}
    (h : Turned a db p db') (hdb : Limited limit db)
    (hcreate : p.place? = some .create → ¬ Known db a ∧ ((db.prints a.email).length : ℤ) < limit) :
    Limited limit db' := by
  cases h with
  | read => exact hdb
  | touch id => exact hdb.touch id
  | create hplace => exact hdb.create_iff.2 (hcreate hplace)

/-- What a call knows that was left alone. -/
theorem Stands.knows {limit : ℤ} {a : AdmitCall} {db : DeviceDb} {p : AdmitProg} (hlimit : 1 ≤ limit)
    (h : Stands limit a db true p) : (p.place? = some .count → ¬ Known db a) ∧
      (p.place? = some .create → ¬ Known db a ∧ ((db.prints a.email).length : ℤ) < limit) := by
  cases h with
  | start =>
      unfold admits
      split <;> simp [Prog.place?, Prog.select, bind, Prog.bind, pure]
  | touch id => simp [touchDevice, Prog.place?, Prog.update, bind, Prog.bind]
  | count h =>
      rw [countDevices, if_pos (by omega)]
      refine ⟨fun _ => h rfl, fun hplace => ?_⟩
      simp [Prog.place?, Prog.select, bind, Prog.bind] at hplace
  | create h =>
      refine ⟨fun hplace => ?_, fun _ => h rfl⟩
      simp [createDevice, Prog.place?, Prog.update, bind, Prog.bind] at hplace
  | done r => simp [Prog.place?, pure]

theorem Gate.Recorded.step {limit : ℤ} (hlimit : 1 ≤ limit) {g : Gate} (hg : g.Recorded)
    (hstanding : g.Standing limit) (e : GateEvent) : (g.step limit e).Recorded := by
  cases e with
  | request a => exact hg
  | forget id =>
      intro key hkey
      obtain ⟨hadmitted, hkept⟩ := List.mem_filter.1 hkey
      obtain ⟨d, hd, rfl⟩ := List.mem_map.1 (hg key hadmitted)
      refine List.mem_map_of_mem (List.mem_filter.2 ⟨hd, ?_⟩)
      rw [Bool.not_eq_true', List.any_eq_false] at hkept
      have hother := hkept d hd
      simp only [and_true, decide_eq_true_eq] at hother
      exact decide_eq_true hother
  | forgetAll email =>
      intro key hkey
      obtain ⟨hadmitted, hkept⟩ := List.mem_filter.1 hkey
      obtain ⟨d, hd, rfl⟩ := List.mem_map.1 (hg key hadmitted)
      exact List.mem_map_of_mem (List.mem_filter.2 ⟨hd, hkept⟩)
  | turn k =>
      cases hk : g.pool.threads[k]? with
      | none => simpa only [Gate.step, hk] using hg
      | some th =>
          have hturned := ((hstanding th (List.mem_of_getElem? hk)).turn hlimit).2
          rw [step_turn hk]
          simp only [Gate.Recorded, Pool.move_eq hk]
          intro key hkey
          unfold Gate.decided at hkey
          split at hkey
          · split at hkey
            · rename_i hknown
              rcases List.mem_cons.1 hkey with rfl | hkey
              · exact hturned.mem_keys (known_iff.1 hknown)
              · exact hturned.mem_keys (hg key hkey)
            · exact hturned.mem_keys (hg key hkey)
          · rename_i hplace
            rcases List.mem_cons.1 hkey with rfl | hkey
            · rw [hturned.created hplace, keys_create]
              exact List.mem_append_right _ (List.mem_singleton_self _)
            · exact hturned.mem_keys (hg key hkey)
          · split at hkey <;> exact hturned.mem_keys (hg key hkey)
          · exact hturned.mem_keys (hg key hkey)

/-- A refusal of an admitted device is what the count decides. -/
theorem refusedAgain_decided {limit : ℤ} {g : Gate}
    {th : Lib.Thread AdmitCall DeviceDb DevicePlace (Bool × Bool)} (hg : g.refusedAgain = []) :
    (g.decided limit th).refusedAgain = [] ↔ (th.prog.place? = some .count → th.op.key ∈ g.admitted →
      ((g.pool.store.prints th.op.email).length : ℤ) < limit) := by
  unfold Gate.decided
  split
  · rename_i hplace
    split <;> simp [hg, hplace]
  · rename_i hplace
    simp [hg, hplace]
  · rename_i hplace
    split
    · rename_i hrefused
      simp [hplace, hrefused.1, hrefused.2]
    · rename_i hrefused
      simp only [hg, hplace, true_iff, forall_const]
      intro hkey
      by_contra hfull
      exact hrefused ⟨by omega, hkey⟩
  · rename_i hlookup hcreate hcount
    simp only [hg, true_iff]
    exact fun hplace => absurd hplace hcount

theorem GateSound.step {limit : ℤ} (hlimit : 1 ≤ limit) {g : Gate} (hg : GateSound limit g)
    (hstanding : g.Standing limit) (hrecorded : g.Recorded) {e : GateEvent} (hok : InTime limit g e) :
    GateSound limit (g.step limit e) := by
  cases e with
  | request a => exact ⟨hg.limited, hg.readmits⟩
  | forget id => exact ⟨hg.limited.filter, hg.readmits⟩
  | forgetAll email => exact ⟨hg.limited.filter, hg.readmits⟩
  | turn k =>
      cases hk : g.pool.threads[k]? with
      | none => simpa only [Gate.step, hk] using hg
      | some th =>
          have hstands := hstanding th (List.mem_of_getElem? hk)
          have hturned := (hstands.turn hlimit).2
          have hcount : th.prog.place? = some .count → th.op.key ∈ g.admitted →
              ((g.pool.store.prints th.op.email).length : ℤ) < limit := by
            intro hplace hkey
            cases hund : th.undisturbed with
            | false => exact (hok th hk hund).1 hplace hkey
            | true =>
                rw [hund] at hstands
                exact absurd (known_iff.2 (hrecorded _ hkey)) ((hstands.knows hlimit).1 hplace)
          have hcreate : th.prog.place? = some .create → ¬ Known g.pool.store th.op ∧
              ((g.pool.store.prints th.op.email).length : ℤ) < limit := by
            intro hplace
            cases hund : th.undisturbed with
            | false => exact (hok th hk hund).2 hplace
            | true =>
                rw [hund] at hstands
                exact (hstands.knows hlimit).2 hplace
          rw [step_turn hk]
          refine ⟨?_, (refusedAgain_decided hg.readmits).2 hcount⟩
          simp only [Pool.move_eq hk]
          exact hturned.limited hg.limited hcreate

theorem inTime_of_sound {limit : ℤ} (hlimit : 1 ≤ limit) {g : Gate} (hstanding : g.Standing limit)
    (hg : GateSound limit g) {e : GateEvent} (hnext : GateSound limit (g.step limit e)) :
    InTime limit g e := by
  cases e with
  | request a => trivial
  | forget id => trivial
  | forgetAll email => trivial
  | turn k =>
      intro th hk _
      have hturned := ((hstanding th (List.mem_of_getElem? hk)).turn hlimit).2
      rw [step_turn hk] at hnext
      refine ⟨(refusedAgain_decided hg.readmits).1 hnext.readmits, fun hplace => ?_⟩
      have hlimited := hnext.limited
      simp only [Pool.move_eq hk] at hlimited
      rw [hturned.created hplace] at hlimited
      exact hg.limited.create_iff.1 hlimited

/-- A run is sound in every state exactly if every call in it is in time. -/
theorem gate_sound_iff {limit : ℤ} (hlimit : 1 ≤ limit) {db : DeviceDb} (hdb : Limited limit db)
    (events : List GateEvent) :
    (∀ g ∈ states (Gate.step limit) (Gate.start db) events, GateSound limit g) ↔
      AllSteps (Gate.step limit) (InTime limit) (Gate.start db) events := by
  have hstart : (Gate.start db).Standing limit := fun _ hth => absurd hth List.not_mem_nil
  constructor
  · have hstep : ∀ g e, Gate.Standing limit g → Gate.Standing limit (g.step limit e) :=
      fun g e hg => hg.step hlimit e
    have hback : ∀ g e, Gate.Standing limit g → GateSound limit g → GateSound limit (g.step limit e) →
        InTime limit g e := fun g e hstanding hg hnext => inTime_of_sound hlimit hstanding hg hnext
    exact AllSteps.of_states hstep hback hstart
  · intro hsteps g hmem
    have hkeep : ∀ g e, Gate.Standing limit g ∧ g.Recorded ∧ GateSound limit g → InTime limit g e →
        Gate.Standing limit (g.step limit e) ∧ (g.step limit e).Recorded ∧ GateSound limit (g.step limit e) :=
      fun g e ⟨hstanding, hrecorded, hg⟩ hok => ⟨hstanding.step hlimit e, hrecorded.step hlimit hstanding e,
        hg.step hlimit hstanding hrecorded hok⟩
    exact (hsteps.invariant hkeep ⟨hstart, fun _ hkey => hkey, hdb, rfl⟩ g hmem).2.2

/-! ## The account of a subscription -/

/-- The kinds of a form's fields. -/
inductive FieldKind where
  | text | int | flag | list

/-- The fields of `model.Client`. -/
def clientFields : List (String × FieldKind) :=
  [("id", .text), ("security", .text), ("password", .text), ("flow", .text), ("auth", .text),
    ("email", .text), ("limitIp", .int), ("limitDevices", .int), ("totalGB", .int),
    ("expiryTime", .int), ("enable", .flag), ("tgId", .int), ("subId", .text), ("comment", .text),
    ("reset", .int), ("username", .text), ("slot", .int), ("secret", .text), ("modeClassic", .flag),
    ("modeSecure", .flag), ("modeTls", .flag), ("tlsDomain", .text), ("adtagEnable", .flag),
    ("adtag", .text), ("userLimit", .int), ("externalProxy", .list), ("peers", .list),
    ("created_at", .int), ("updated_at", .int)]

open Simorgh.Lib.Json

section

variable (lists : String → String → Bool)

/-- The value is taken by a field of this name; whether a list is, `lists` says. -/
def FieldKind.fits (name : String) : FieldKind → Val Lit → Bool
  | _, .null => true
  | .text, v => v.str?.isSome
  | .int, v => v.int64?.isSome
  | .flag, v => v.bool?.isSome
  | .list, .other t => lists name t
  | .list, _ => false

/-- The entry decodes into a `model.Client`. -/
def decodes (d : Doc) : Bool :=
  d.members.all fun m => clientFields.all fun f => !sameName m.1 f.1 || f.2.fits lists f.1 m.2

/-- What the gate reads of a client. -/
structure SubClient where
  email : String
  subId : String
  limitDevices : ℤ

/-- The fields of an entry. -/
def SubClient.decode (d : Doc) : SubClient where
  email := field "email" Val.str? "" d.members
  subId := field "subId" Val.str? "" d.members
  limitDevices := field "limitDevices" Val.int64? 0 d.members

/-- The query: some entry of the inbound has this subscription id. -/
def carries (subId : String) (i : Inbound) : Bool :=
  i.settings.clients.any fun d => decide (d.get? "subId" = some (.str subId))

/-- One client of the loop: the first email, the greatest limit. -/
def countClient (subId : String) (acc : String × ℤ × Bool) (c : SubClient) : String × ℤ × Bool :=
  if c.subId = subId then
    (if acc.1 = "" then c.email else acc.1,
      if acc.2.1 < c.limitDevices then c.limitDevices else acc.2.1, true)
  else acc

/-- One inbound of the loop.  Settings that do not decode are passed over. -/
def countInbound (subId : String) (acc : String × ℤ × Bool) (i : Inbound) : String × ℤ × Bool :=
  if i.settings.clients.all (decodes lists) then
    (i.settings.clients.map SubClient.decode).foldl (countClient subId) acc
  else acc

/-- `accountForSub`: the email, the limit, and whether there is any. -/
def accountForSub (inbounds : List Inbound) (subId : String) : String × ℤ × Bool :=
  (inbounds.filter fun i => i.enable && carries subId i).foldl (countInbound lists subId) ("", 0, false)

/-! ### Which account it is -/

/-- The first text that is not empty. -/
def firstNonEmpty : List String → String
  | [] => ""
  | s :: rest => if s = "" then firstNonEmpty rest else s

theorem firstNonEmpty_mem {l : List String} (h : firstNonEmpty l ≠ "") : firstNonEmpty l ∈ l := by
  induction l with
  | nil => exact absurd rfl h
  | cons s rest ih =>
      unfold firstNonEmpty at h ⊢
      split
      · rename_i hs
        rw [if_pos hs] at h
        exact List.mem_cons_of_mem _ (ih h)
      · exact List.mem_cons_self

theorem firstNonEmpty_ne {l : List String} {s : String} (hs : s ∈ l) (hne : s ≠ "") :
    firstNonEmpty l ≠ "" := by
  induction l with
  | nil => cases hs
  | cons s' rest ih =>
      unfold firstNonEmpty
      split
      · rename_i hs'
        rcases List.mem_cons.1 hs with rfl | hs
        · exact absurd hs' hne
        · exact ih hs
      · assumption

/-- The email an inbound gives for a subscription id. -/
def inboundAccount (subId : String) (i : Inbound) : String :=
  if i.settings.clients.all (decodes lists) then
    firstNonEmpty ((i.settings.clients.map SubClient.decode).map fun c => if c.subId = subId then c.email else "")
  else ""

theorem foldl_countClient (subId : String) (clients : List SubClient) (acc : String × ℤ × Bool) :
    (clients.foldl (countClient subId) acc).1 = if acc.1 = "" then
      firstNonEmpty (clients.map fun c => if c.subId = subId then c.email else "") else acc.1 := by
  induction clients generalizing acc with
  | nil => by_cases h : acc.1 = "" <;> simp [firstNonEmpty, h]
  | cons c clients ih =>
      rw [List.foldl_cons, ih, List.map_cons, firstNonEmpty]
      by_cases hsub : c.subId = subId
      · by_cases hacc : acc.1 = "" <;> by_cases hemail : c.email = "" <;>
          simp [countClient, hsub, hacc, hemail]
      · simp [countClient, hsub]

theorem foldl_countInbound (subId : String) (inbounds : List Inbound) (acc : String × ℤ × Bool) :
    (inbounds.foldl (countInbound lists subId) acc).1 = if acc.1 = "" then
      firstNonEmpty (inbounds.map (inboundAccount lists subId)) else acc.1 := by
  have hone : ∀ acc i, (countInbound lists subId acc i).1 =
      if acc.1 = "" then inboundAccount lists subId i else acc.1 := by
    intro acc i
    unfold countInbound inboundAccount
    split
    · exact foldl_countClient subId _ acc
    · split
      · assumption
      · rfl
  induction inbounds generalizing acc with
  | nil => by_cases h : acc.1 = "" <;> simp [firstNonEmpty, h]
  | cons i inbounds ih =>
      rw [List.foldl_cons, ih, hone, List.map_cons, firstNonEmpty]
      by_cases hacc : acc.1 = ""
      · rw [if_pos hacc, if_pos hacc]
      · rw [if_neg hacc, if_neg hacc, if_neg hacc]

theorem accountForSub_email (inbounds : List Inbound) (subId : String) :
    (accountForSub lists inbounds subId).1 = firstNonEmpty
      ((inbounds.filter fun i => i.enable && carries subId i).map (inboundAccount lists subId)) := by
  rw [accountForSub, foldl_countInbound, if_pos rfl]

/-- The inbound with its switch on. -/
def switchedOn (i : Inbound) : Inbound := { i with enable := true }

/-- The same inbounds in another order, some of them switched on or off. -/
def Rearranged (inbounds other : List Inbound) : Prop :=
  (other.map switchedOn).Perm (inbounds.map switchedOn)

/-- Whatever is switched on or off and in whatever order, the account that is found is the
same. -/
def SettledAccount (inbounds : List Inbound) (subId : String) : Prop :=
  ∀ one other, Rearranged inbounds one → Rearranged inbounds other →
    (accountForSub lists one subId).1 ≠ "" → (accountForSub lists other subId).1 ≠ "" →
      (accountForSub lists one subId).1 = (accountForSub lists other subId).1

/-- All the inbounds that have clients under the subscription id give the same email first. -/
def OneAccount (inbounds : List Inbound) (subId : String) : Prop :=
  ∀ i ∈ inbounds, ∀ j ∈ inbounds, carries subId i = true → carries subId j = true →
    inboundAccount lists subId i ≠ "" → inboundAccount lists subId j ≠ "" →
      inboundAccount lists subId i = inboundAccount lists subId j

/-- The account found is that of some inbound that carries the id. -/
theorem accountForSub_source {inbounds other : List Inbound} {subId : String}
    (h : Rearranged inbounds other) (hne : (accountForSub lists other subId).1 ≠ "") :
    ∃ i ∈ inbounds, carries subId i = true ∧ inboundAccount lists subId i = (accountForSub lists other subId).1 := by
  rw [accountForSub_email] at hne ⊢
  obtain ⟨j, hj, heq⟩ := List.mem_map.1 (firstNonEmpty_mem hne)
  obtain ⟨hmem, hon⟩ := List.mem_filter.1 hj
  rw [Bool.and_eq_true] at hon
  obtain ⟨i, hi, hsame⟩ := List.mem_map.1 (h.mem_iff.1 (List.mem_map_of_mem hmem))
  have hsettings : (switchedOn i).settings = (switchedOn j).settings := by rw [hsame]
  change i.settings = j.settings at hsettings
  refine ⟨i, hi, ?_, ?_⟩
  · unfold carries
    rw [hsettings]
    exact hon.2
  · rw [← heq]
    unfold inboundAccount
    rw [hsettings]

/-- One inbound on, all others off. -/
theorem accountForSub_only {inbounds : List Inbound} {subId : String} {i : Inbound} (hi : i ∈ inbounds)
    (hcarries : carries subId i = true) (hne : inboundAccount lists subId i ≠ "") :
    Rearranged inbounds (inbounds.map fun j => { j with enable := decide (j = i) }) ∧
      (accountForSub lists (inbounds.map fun j => { j with enable := decide (j = i) }) subId).1 =
        inboundAccount lists subId i := by
  constructor
  · unfold Rearranged
    rw [List.map_map]
    exact List.Perm.refl _
  · rw [accountForSub_email]
    have honly : ∀ s ∈ ((inbounds.map fun j => { j with enable := decide (j = i) }).filter
        fun j => j.enable && carries subId j).map (inboundAccount lists subId),
        s = inboundAccount lists subId i := by
      intro s hs
      obtain ⟨j', hj', rfl⟩ := List.mem_map.1 hs
      obtain ⟨hmem, hon⟩ := List.mem_filter.1 hj'
      obtain ⟨j, -, rfl⟩ := List.mem_map.1 hmem
      rw [Bool.and_eq_true, decide_eq_true_eq] at hon
      rw [hon.1]
      rfl
    have hthere : inboundAccount lists subId i ∈ ((inbounds.map fun j => { j with enable := decide (j = i) }).filter
        fun j => j.enable && carries subId j).map (inboundAccount lists subId) := by
      refine List.mem_map.2 ⟨{ i with enable := decide (i = i) }, List.mem_filter.2 ⟨?_, ?_⟩, rfl⟩
      · exact List.mem_map_of_mem hi
      · rw [Bool.and_eq_true, decide_eq_true_eq]
        exact ⟨rfl, hcarries⟩
    exact honly _ (firstNonEmpty_mem (firstNonEmpty_ne hthere hne))

theorem settledAccount_iff (inbounds : List Inbound) (subId : String) :
    SettledAccount lists inbounds subId ↔ OneAccount lists inbounds subId := by
  constructor
  · intro h i hi j hj hicarries hjcarries hine hjne
    obtain ⟨hione, hiaccount⟩ := accountForSub_only lists hi hicarries hine
    obtain ⟨hjone, hjaccount⟩ := accountForSub_only lists hj hjcarries hjne
    have hsame := h _ _ hione hjone (hiaccount ▸ hine) (hjaccount ▸ hjne)
    rw [hiaccount, hjaccount] at hsame
    exact hsame
  · intro h one other hone hother hne hne'
    obtain ⟨i, hi, hicarries, hiaccount⟩ := accountForSub_source lists hone hne
    obtain ⟨j, hj, hjcarries, hjaccount⟩ := accountForSub_source lists hother hne'
    rw [← hiaccount, ← hjaccount]
    exact h i hi j hj hicarries hjcarries (hiaccount ▸ hne) (hjaccount ▸ hne')

end

/-! ## Both together -/

/-- There is one row for each device, no account exceeds the limit and no admitted device
is refused, in every state of a run, exactly if its calls are in time; and switching or
reordering the inbounds leaves the account of a subscription alone exactly if they all name
the same one. -/
theorem devices_limited (limit : ℤ) (hlimit : 1 ≤ limit) (db : DeviceDb) (hdb : Limited limit db)
    (events : List GateEvent) (lists : String → String → Bool) (inbounds : List Inbound) (subId : String) :
    ((∀ g ∈ states (Gate.step limit) (Gate.start db) events, GateSound limit g) ↔
        AllSteps (Gate.step limit) (InTime limit) (Gate.start db) events) ∧
      (SettledAccount lists inbounds subId ↔ OneAccount lists inbounds subId) :=
  ⟨gate_sound_iff hlimit hdb events, settledAccount_iff lists inbounds subId⟩

/-! ### Two calls, and two inbounds -/

/-- A call for the account `kim`. -/
def kimsCall (fingerprint : String) : AdmitCall := { email := "kim", fingerprint := fingerprint }

/-- An inbound with one client under the subscription id `s1`. -/
def subInbound (id : Nat) (email : String) : Inbound where
  id := id
  settings := { clients := [(Obj.empty.set "email" (.str email)).set "subId" (.str "s1")] }

theorem limited_empty (limit : ℤ) (h : 0 ≤ limit) : Limited limit {} :=
  ⟨List.nodup_nil, fun _ => h⟩

/-- Two new devices are looked up and counted before either is recorded; and with two emails
under one subscription id, switching the first inbound off moves the account. -/
theorem two_devices_admitted :
    ¬ GateSound 1 (run (Gate.step 1) (Gate.start {}) [.request (kimsCall "phone"),
        .request (kimsCall "tablet"), .turn 0, .turn 0, .turn 1, .turn 1, .turn 0, .turn 1]) ∧
      ¬ SettledAccount (fun _ _ => true) [subInbound 1 "kim", subInbound 2 "kim-2"] "s1" := by
  constructor
  · intro hsound
    have hwithin := hsound.limited.within "kim"
    revert hwithin
    decide
  · rw [settledAccount_iff]
    intro hone
    have hsame := hone (subInbound 1 "kim") (by simp) (subInbound 2 "kim-2") (by simp)
      (by decide) (by decide) (by decide) (by decide)
    revert hsame
    decide

/-- A device is recorded, another one refused, the first forgotten and the other recorded. -/
def oneByOne : List GateEvent :=
  [.request (kimsCall "phone"), .turn 0, .turn 0, .turn 0, .request (kimsCall "tablet"), .turn 1, .turn 1,
    .forget 1, .request (kimsCall "tablet"), .turn 2, .turn 2, .turn 2]

theorem one_by_one_limited :
    GateSound 1 (run (Gate.step 1) (Gate.start {}) oneByOne) ∧
      (run (Gate.step 1) (Gate.start {}) oneByOne).pool.store.prints "kim" = ["tablet"] ∧
      SettledAccount (fun _ _ => true) [subInbound 1 "kim", subInbound 2 "kim"] "s1" := by
  have hboth := devices_limited 1 le_rfl {} (limited_empty 1 Int.one_nonneg) oneByOne
    (fun _ _ => true) [subInbound 1 "kim", subInbound 2 "kim"] "s1"
  refine ⟨hboth.1.2 ?_ _ (run_mem_states _ _), by decide, hboth.2.2 ?_⟩
  · refine ⟨trivial, ?_, ?_, ?_, trivial, ?_, ?_, trivial, trivial, ?_, ?_, ?_, trivial⟩ <;>
    · intro th hth hund
      revert hund
      cases hth
      decide
  · unfold OneAccount
    decide

end Simorgh.Sub
