import Mathlib.Logic.Function.Basic
import Simorgh.Lib.Run

/-!
# Restarting Xray

A change that the running core did not take over its API asks for a restart.  A job
takes the request, builds the configuration anew and replaces the process, unless the
process was started from that configuration already.

* `Config.equals` — the comparison, which leaves two sections out.
* `step` — requests, the job, `RestartXray` statement by statement, API calls and writes.
* `InLine` — a restart that ends with nothing pending leaves the core running what the
  database yielded when the request was taken.
* `RestartClear` — the restart goes through, and where it is skipped the core has not
  been changed since its start.
* `restart_in_line` — a run of such steps keeps the core in line.
* `removed_user_stays` — bob, whose removal the core refused, stays in it.
-/

namespace Simorgh.Xray

open Simorgh.Lib

/-! ## Configurations -/

/-- `InboundConfig`; sections are kept as text. -/
structure InboundConfig where
  listen : String := ""
  port : Int := 0
  protocol : String := ""
  settings : String := ""
  streamSettings : String := ""
  tag : String
  sniffing : String := ""
  deriving DecidableEq

/-- Nothing the core looks at differs. -/
def InboundConfig.equals (c other : InboundConfig) : Bool :=
  c.listen == other.listen && c.port == other.port && c.protocol == other.protocol && c.settings == other.settings &&
    c.streamSettings == other.streamSettings && c.tag == other.tag && c.sniffing == other.sniffing

/-- The parts of the core's configuration. -/
structure Config where
  log : String := ""
  routing : String := ""
  dns : String := ""
  inbounds : List InboundConfig := []
  outbounds : String := ""
  transport : String := ""
  policy : String := ""
  api : String := ""
  stats : String := ""
  reverse : String := ""
  fakedns : String := ""
  observatory : String := ""
  burstObservatory : String := ""
  metrics : String := ""
  deriving DecidableEq

/-- `Config.Equals`.  `observatory` and `burstObservatory` are not looked at. -/
def Config.equals (c other : Config) : Bool :=
  c.inbounds.length == other.inbounds.length &&
    (List.zipWith InboundConfig.equals c.inbounds other.inbounds).all id &&
    c.log == other.log && c.routing == other.routing && c.dns == other.dns && c.outbounds == other.outbounds &&
    c.transport == other.transport && c.policy == other.policy && c.api == other.api && c.stats == other.stats &&
    c.reverse == other.reverse && c.fakedns == other.fakedns && c.metrics == other.metrics

/-! ## The running core -/

/-- An inbound of the running core: its users by email, and the rest of its settings. -/
structure LiveInbound where
  listen : String
  port : Int
  protocol : String
  rest : String
  users : String → Option String
  streamSettings : String
  sniffing : String

/-- What the core runs.  The sections other than the inbounds are those it was started with. -/
structure Live where
  sections : Config
  inbounds : String → Option LiveInbound

/-- A call of the handler API. -/
inductive ApiCall where
  | addInbound (inbound : InboundConfig)
  | delInbound (tag : String)
  | addUser (tag email account : String)
  | removeUser (tag email : String)

section

-- How the core reads the settings of an inbound: its users by email, and the rest.
variable (settingsOf : String → (String → Option String) × String)

/-- The core takes an inbound up. -/
def loadInbound (c : InboundConfig) : LiveInbound where
  listen := c.listen
  port := c.port
  protocol := c.protocol
  rest := (settingsOf c.settings).2
  users := (settingsOf c.settings).1
  streamSettings := c.streamSettings
  sniffing := c.sniffing

/-- The core, right after it was started from a configuration. -/
def load (c : Config) : Live where
  sections := { c with inbounds := [] }
  inbounds := fun tag => (c.inbounds.find? fun i => decide (i.tag = tag)).map (loadInbound settingsOf)

/-- The users of one inbound changed. -/
def Live.alterInbound (live : Live) (tag : String) (f : (String → Option String) → String → Option String) : Live :=
  { live with
    inbounds := Function.update live.inbounds tag
      ((live.inbounds tag).map fun i => { i with users := f i.users }) }

/-- A call the core has carried out. -/
def Live.apply (live : Live) : ApiCall → Live
  | .addInbound c => { live with inbounds := Function.update live.inbounds c.tag (some (loadInbound settingsOf c)) }
  | .delInbound tag => { live with inbounds := Function.update live.inbounds tag none }
  | .addUser tag email account => live.alterInbound tag fun users => Function.update users email (some account)
  | .removeUser tag email => live.alterInbound tag fun users => Function.update users email none

/-! ## The service -/

/-- A running process: the configuration it was started from, and what it runs by now. -/
structure Process where
  config : Config
  live : Live

/-- How far a restart has come. -/
inductive Stage where
  /-- The lock is held. -/
  | locked
  /-- The configuration has been built. -/
  | built (config : Config)
  /-- The old process, if there was one, has been stopped. -/
  | stopped (config : Config)

/-- A call of `RestartXray`; the job's calls come with the database their request was taken at. -/
structure Call (Db : Type) where
  isForce : Bool
  taken : Option Db

/-- The database and the running core. -/
structure State (Db : Type) where
  db : Db
  p : Option Process
  isNeedXrayRestart : Bool := false
  xrayRestartReqAt : Int := 0
  xrayRestartFirstAt : Int := 0
  /-- The jobs that have found a restart due and not cleared the flag yet. -/
  due : Nat := 0
  waiting : List (Call Db) := []
  lock : Option (Call Db × Stage) := none

/-- Changes, calls and restarts. -/
inductive Event (Db : Type) where
  /-- Any change to the database, by anybody. -/
  | write (db : Db)
  /-- An API call, and whether the core carried it out. -/
  | api (call : ApiCall) (done : Bool)
  /-- `SetToNeedRestart`, its two halves. -/
  | setNeed (now : Int)
  | setReqAt (now : Int)
  /-- `IsRestartDueAndSetFalse`, its two halves. -/
  | checkDue (now : Int)
  | setFalse
  /-- `RestartXray` is called by somebody else. -/
  | call (isForce : Bool)
  /-- One of the calls gets the lock. -/
  | enter (n : Nat)
  /-- `GetXrayConfig`; it may fail for other reasons than the database. -/
  | build (fails : Bool)
  | compare
  | start (ok : Bool)
  /-- `StopXray`. -/
  | stop
  | crash

/-- The times in nanoseconds. -/
def xrayRestartDebounce : Int := 2000000000
/-- The longest a restart is put off. -/
def xrayRestartMaxWait : Int := 30000000000

variable {Db : Type} (getXrayConfig : Db → Except Unit Config)

/-- The restart is due. -/
def State.isDue (st : State Db) (now : Int) : Bool :=
  st.isNeedXrayRestart &&
    (decide (xrayRestartDebounce ≤ now - st.xrayRestartReqAt) || decide
      (xrayRestartMaxWait ≤ now - st.xrayRestartFirstAt))

/-- The shortcut of `RestartXray`. -/
def State.unneeded (st : State Db) (isForce : Bool) (config : Config) : Bool :=
  st.p.any fun p => !isForce && p.config.equals config && !st.isNeedXrayRestart

/-- One event. -/
def step (st : State Db) : Event Db → State Db
  | .write db => { st with db := db }
  | .api call done =>
      if done then { st with p := st.p.map fun p => { p with live := p.live.apply settingsOf call } } else st
  | .setNeed now =>
      if st.isNeedXrayRestart then st else { st with isNeedXrayRestart := true, xrayRestartFirstAt := now }
  | .setReqAt now => { st with xrayRestartReqAt := now }
  | .checkDue now => if st.isDue now then { st with due := st.due + 1 } else st
  | .setFalse =>
      if st.due = 0 then st
      else if st.isNeedXrayRestart then
        { st with due := st.due - 1, isNeedXrayRestart := false, waiting := st.waiting ++ [⟨false, some st.db⟩] }
      else { st with due := st.due - 1 }
  | .call isForce => { st with waiting := st.waiting ++ [⟨isForce, none⟩] }
  | .enter n =>
      match st.lock, st.waiting[n]? with
      | none, some c => { st with lock := some (c, .locked), waiting := st.waiting.eraseIdx n }
      | _, _ => st
  | .build fails =>
      match st.lock with
      | some (c, .locked) =>
          match fails, getXrayConfig st.db with
          | false, .ok config => { st with lock := some (c, .built config) }
          | _, _ => { st with lock := none }
      | _ => st
  | .compare =>
      match st.lock with
      | some (c, .built config) =>
          if st.unneeded c.isForce config then { st with lock := none }
          else { st with p := none, lock := some (c, .stopped config) }
      | _ => st
  | .start ok =>
      match st.lock with
      | some (_, .stopped config) =>
          { st with p := if ok then some ⟨config, load settingsOf config⟩ else none, lock := none }
      | _ => st
  | .stop => if st.lock.isNone then { st with p := none } else st
  | .crash => { st with p := none }

/-! ## In line -/

/-- The core runs what this database yields. -/
def Matches (st : State Db) (db : Db) : Prop :=
  ∃ config p, getXrayConfig db = .ok config ∧ st.p = some p ∧ p.live = load settingsOf config

/-- If the step ends the restart of a request, and no request is pending, the core runs what
the database yielded when the request was taken. -/
def InLine (st : State Db) (e : Event Db) : Prop :=
  ∀ c stage, st.lock = some (c, stage) → (step settingsOf getXrayConfig st e).lock = none →
    (step settingsOf getXrayConfig st e).isNeedXrayRestart = false →
      ∀ db, c.taken = some db → Matches settingsOf getXrayConfig (step settingsOf getXrayConfig st e) db

/-- With nothing pending, the steps of a request's restart go through: there is a configuration,
it is still the one of the database the request was taken at, the process starts; and a process
that need not be replaced has the same observatories and runs what it was started from. -/
def RestartClear (st : State Db) (e : Event Db) : Prop :=
  ∀ c stage db, st.lock = some (c, stage) → c.taken = some db → st.isNeedXrayRestart = false →
    match e, stage with
    | .build fails, .locked => fails = false ∧ ∃ config, getXrayConfig st.db = .ok config
    | .compare, .built config =>
        ∀ p, st.p = some p → c.isForce = false → p.config.equals config = true →
          getXrayConfig db = .ok config ∧ p.config.observatory = config.observatory ∧
            p.config.burstObservatory = config.burstObservatory ∧ p.live = load settingsOf p.config
    | .start ok, .stopped config => ok = true ∧ getXrayConfig db = .ok config
    | _, _ => True

/-! ## Steps -/

section Steps

theorem InboundConfig.eq_of_equals {c other : InboundConfig} (h : c.equals other = true) : c = other := by
  cases c
  cases other
  simp only [InboundConfig.equals, Bool.and_eq_true, beq_iff_eq] at h
  obtain ⟨⟨⟨⟨⟨⟨rfl, rfl⟩, rfl⟩, rfl⟩, rfl⟩, rfl⟩, rfl⟩ := h
  rfl

theorem eq_of_zipWith_equals {cs others : List InboundConfig} (hlength : cs.length = others.length)
    (h : (List.zipWith InboundConfig.equals cs others).all id = true) : cs = others := by
  induction cs generalizing others with
  | nil => exact (List.eq_nil_of_length_eq_zero hlength.symm).symm
  | cons c cs ih =>
      cases others with
      | nil => cases hlength
      | cons other others =>
          rw [List.zipWith_cons_cons, List.all_cons, Bool.and_eq_true] at h
          rw [InboundConfig.eq_of_equals h.1, ih (Nat.succ.inj hlength) h.2]

/-- Equal in the eyes of `Equals`, and with the same observatories: equal. -/
theorem Config.eq_of_equals {c other : Config} (h : c.equals other = true) (hobs : c.observatory = other.observatory)
    (hburst : c.burstObservatory = other.burstObservatory) : c = other := by
  cases c
  cases other
  simp only [Config.equals, Bool.and_eq_true, beq_iff_eq] at h hobs hburst
  obtain ⟨⟨⟨⟨⟨⟨⟨⟨⟨⟨⟨⟨hlength, hinbounds⟩, rfl⟩, rfl⟩, rfl⟩, rfl⟩, rfl⟩, rfl⟩, rfl⟩, rfl⟩, rfl⟩, rfl⟩, rfl⟩ := h
  obtain rfl := eq_of_zipWith_equals hlength hinbounds
  rw [hobs, hburst]

variable {settingsOf getXrayConfig} {st : State Db} {c : Call Db} {stage : Stage}

/-- Only three statements give the lock back. -/
theorem releases {e : Event Db} (hlock : st.lock = some (c, stage))
    (hfree : (step settingsOf getXrayConfig st e).lock = none) :
    (∃ fails, e = .build fails ∧ stage = .locked ∧ ¬ (fails = false ∧ ∃ config, getXrayConfig st.db = .ok config)) ∨
      (∃ config, e = .compare ∧ stage = .built config ∧ st.unneeded c.isForce config = true) ∨
      ∃ ok config, e = .start ok ∧ stage = .stopped config := by
  cases e with
  | build fails =>
      cases stage with
      | locked =>
          refine Or.inl ⟨fails, rfl, rfl, ?_⟩
          rintro ⟨rfl, config, hconfig⟩
          simp [step, hlock, hconfig] at hfree
      | built | stopped => simp [step, hlock] at hfree
  | compare =>
      cases stage with
      | built config =>
          refine Or.inr (Or.inl ⟨config, rfl, rfl, ?_⟩)
          by_contra hneeded
          simp [step, hlock, hneeded] at hfree
      | locked | stopped => simp [step, hlock] at hfree
  | start ok =>
      cases stage with
      | stopped config => exact Or.inr (Or.inr ⟨ok, config, rfl, rfl⟩)
      | locked | built => simp [step, hlock] at hfree
  | api call done => cases done <;> simp [step, hlock] at hfree
  | setNeed now => cases hneed : st.isNeedXrayRestart <;> simp [step, hlock, hneed] at hfree
  | checkDue now => cases hdue : st.isDue now <;> simp [step, hlock, hdue] at hfree
  | setFalse =>
      simp only [step] at hfree
      split at hfree
      · simp [hlock] at hfree
      · split at hfree <;> simp [hlock] at hfree
  | enter n => simp [step, hlock] at hfree
  | write | setReqAt | call | stop | crash => simp [step, hlock] at hfree

/-- A step of a restart that goes through leaves the core in line. -/
theorem RestartClear.inLine {e : Event Db} (h : RestartClear settingsOf getXrayConfig st e) :
    InLine settingsOf getXrayConfig st e := by
  intro c stage hlock hfree hpending db htaken
  rcases releases hlock hfree with ⟨fails, rfl, rfl, hfails⟩ | ⟨config, rfl, rfl, hskip⟩ | ⟨ok, config, rfl, rfl⟩
  · have hnone : st.isNeedXrayRestart = false := by
      rw [← hpending]
      simp only [step, hlock]
      split <;> rfl
    exact absurd (h c _ db hlock htaken hnone) hfails
  · have hstep : step settingsOf getXrayConfig st .compare = { st with lock := none } := by
      simp [step, hlock, hskip]
    rw [hstep] at hpending ⊢
    obtain ⟨p, hp, hunneeded⟩ := Option.any_eq_true _ _ |>.1 hskip
    simp only [Bool.and_eq_true, Bool.not_eq_true'] at hunneeded
    obtain ⟨⟨hforce, hequals⟩, -⟩ := hunneeded
    obtain ⟨hconfig, hobs, hburst, hlive⟩ := h c _ db hlock htaken hpending p hp hforce hequals
    rw [Config.eq_of_equals hequals hobs hburst] at hlive
    exact ⟨config, p, hconfig, hp, hlive⟩
  · have hstep : step settingsOf getXrayConfig st (.start ok) =
        { st with p := if ok then some ⟨config, load settingsOf config⟩ else none, lock := none } := by
      simp only [step, hlock]
    rw [hstep] at hpending ⊢
    obtain ⟨rfl, hconfig⟩ := h c _ db hlock htaken hpending
    exact ⟨config, _, hconfig, rfl, rfl⟩

end Steps

/-! ## Runs -/

/-- Whatever is requested, written and called in between, in whichever order: if the steps of
every restart go through, each restart leaves the core running what the database yielded when
its request was taken. -/
theorem restart_in_line (st : State Db) (events : List (Event Db))
    (h : AllSteps (step settingsOf getXrayConfig) (RestartClear settingsOf getXrayConfig) st events) :
    AllSteps (step settingsOf getXrayConfig) (InLine settingsOf getXrayConfig) st events := by
  exact @AllSteps.transitions _ _ _ _ _ (fun _ => True) (fun _ _ _ hclear => ⟨trivial, hclear.inLine⟩) _ _ h trivial

end

/-! ## One inbound -/

def annOnly : String := "\x7b\"clients\":[\x7b\"email\":\"ann\",\"id\":\"a1\"\x7d]\x7d"

def annAndBob : String :=
  "\x7b\"clients\":[\x7b\"email\":\"ann\",\"id\":\"a1\"\x7d,\x7b\"email\":\"bob\",\"id\":\"b1\"\x7d]\x7d"

/-- What the core reads from these two texts. -/
def readSettings (text : String) : (String → Option String) × String :=
  (fun email =>
    (if text = annAndBob then [("ann", "a1"), ("bob", "b1")] else if text = annOnly then [("ann", "a1")] else []).lookup
      email, "\x7b\x7d")

/-- The configuration of a database with one inbound, by the settings of that inbound. -/
def configOf (settings : String) : Config :=
  { inbounds := [{ port := 443, protocol := "vless", settings := settings, tag := "in-443" }] }

/-- The core was started when there was only ann. -/
def annsCore : State String :=
  { db := annOnly, p := some ⟨configOf annOnly, load readSettings (configOf annOnly)⟩ }

/-- Bob is added over the API.  He is removed again, the core refuses that, and the restart asked
for instead finds the configuration the core was started from. -/
theorem removed_user_stays :
    ¬ AllSteps (step readSettings fun settings => .ok (configOf settings))
        (InLine readSettings fun settings => .ok (configOf settings)) annsCore
        [.write annAndBob, .api (.addUser "in-443" "bob" "b1") true, .write annOnly,
          .api (.removeUser "in-443" "bob") false, .setNeed 0, .setReqAt 0, .checkDue 3000000000, .setFalse, .enter 0,
          .build false, .compare] := by
  rintro ⟨-, -, -, -, -, -, -, -, -, -, h, -⟩
  obtain ⟨config, p, hconfig, hp, hlive⟩ := h ⟨false, some annOnly⟩ (.built (configOf annOnly)) rfl rfl rfl annOnly rfl
  cases hconfig
  cases hp
  have hbob := congrArg (fun live : Live => (live.inbounds "in-443").bind fun i => i.users "bob") hlive
  cases hbob

/-- Bob is added without the API, and the restart brings him in. -/
theorem added_user_arrives :
    AllSteps (step readSettings fun settings => .ok (configOf settings))
      (InLine readSettings fun settings => .ok (configOf settings)) annsCore
      [.write annAndBob, .setNeed 0, .setReqAt 0, .checkDue 3000000000, .setFalse, .enter 0, .build false, .compare,
        .start true] := by
  have hfree : ∀ (st : State String) (e : Event String), st.lock = none →
      RestartClear readSettings (fun settings => .ok (configOf settings)) st e := by
    intro st e hlock c stage db hlock'
    cases hlock.symm.trans hlock'
  refine restart_in_line readSettings _ annsCore _
    ⟨hfree _ _ rfl, hfree _ _ rfl, hfree _ _ rfl, hfree _ _ rfl, hfree _ _ rfl, hfree _ _ rfl, ?_, ?_, ?_, trivial⟩
  · intro c stage db hlock htaken _
    cases hlock
    exact ⟨rfl, _, rfl⟩
  · intro c stage db hlock htaken _
    cases hlock
    intro p hp _ hequals
    cases hp
    cases hequals
  · intro c stage db hlock htaken _
    cases hlock
    cases htaken
    exact ⟨rfl, rfl⟩

end Simorgh.Xray
