import Mathlib.Data.Finset.Basic
import Mathlib.Data.Finset.Lattice.Lemmas
import Mathlib.Data.String.Basic
import Simorgh.Lib.Run
import Simorgh.Lib.Table

/-!
# IKEv2 admission

Accounts of the psk and eap-tls modes authenticate at charon, so an account that is off
must have no connection there.  Every tick compares a signature of the admission
decisions with the one last written, and rewrites and reloads only when it moved.

* `admissionSig` — the signature, and `sigText_inj`, that it tells the decisions apart.
* `reconcileDisabled` — a tick, with every write and the reload free to fail.
* `admission_enforced` — what has to hold of every tick for the connections to be right
  after it whenever its own reload did not fail.
-/

namespace Simorgh.Vpn.Ikev2

open Simorgh.Lib

/-! ## Inbounds -/

/-- A client of an IKEv2 inbound. -/
structure Client where
  email : String
  enable : Bool := true

/-- The settings of an IKEv2 inbound. -/
structure Settings where
  /-- without blanks -/
  authMode : String := ""
  clients : List Client := []

/-- An IKEv2 inbound. -/
structure Inbound where
  id : ℕ
  enable : Bool := true
  /-- what `parseSettings` gives -/
  settings : Option Settings

/-- The rows the service reads. -/
structure Db where
  inbounds : Table Inbound.id
  /-- the emails whose traffic row is off -/
  disabled : List String := []
  /-- charon is needed by L2TP, by GRE or by an outbound -/
  others : Bool := false

/-- The mode authenticates at charon. -/
def Settings.isLocal (o : Settings) : Bool := decide (o.authMode = "psk") || decide (o.authMode = "eap-tls")

/-- `ikev2Admissible`. -/
def ikev2Admissible (o : Settings) (disabled : List String) : Bool :=
  if o.isLocal then
    match o.clients with
    | [] => true
    | c :: _ => c.enable && decide (c.email ∉ disabled)
  else true

/-! ## The signature -/

/-- What the signature says of an account. -/
inductive Mark where
  | on
  | off
  | err
  deriving DecidableEq

/-- The mark as text. -/
def Mark.text : Mark → String
  | .on => ":on;"
  | .off => ":off;"
  | .err => ":err;"

/-- The mark of an inbound. -/
def Inbound.mark (disabled : List String) (i : Inbound) : Mark :=
  if i.enable then
    match i.settings with
    | none => .err
    | some o => if ikev2Admissible o disabled then .on else .off
  else .off

/-- The decisions, in the order of the inbounds. -/
def Db.marks (db : Db) : List (ℕ × Mark) := db.inbounds.rows.map fun i => (i.id, i.mark db.disabled)

/-- The signature. -/
def sigText : List (ℕ × Mark) → String
  | [] => ""
  | m :: ms => toString m.1 ++ m.2.text ++ sigText ms

/-- `admissionSig`. -/
def admissionSig (db : Db) : String := sigText db.marks

/-- Digits up to a colon. -/
theorem digits_append_colon {l l' r r' : List Char} (hl : ∀ c ∈ l, c.isDigit = true) (hl' : ∀ c ∈ l', c.isDigit = true)
    (heq : l ++ ':' :: r = l' ++ ':' :: r') : l = l' ∧ r = r' := by
  have htake : ∀ {l r : List Char}, (∀ c ∈ l, c.isDigit = true) → (l ++ ':' :: r).takeWhile Char.isDigit = l := by
    intro l r hl
    rw [List.takeWhile_append_of_pos hl, List.takeWhile_cons_of_neg (by decide), List.append_nil]
  have hll' : l = l' := by
    rw [← htake hl (r := r), heq, htake hl']
  subst hll'
  exact ⟨rfl, (List.cons.inj (List.append_cancel_left heq)).2⟩

theorem text_append_inj {m m' : Mark} {r r' : List Char} (heq : m.text.toList ++ r = m'.text.toList ++ r') :
    m = m' ∧ r = r' := by
  cases m <;> cases m' <;> simp_all [Mark.text]

theorem text_eq_cons (m : Mark) : ∃ t, m.text.toList = ':' :: t := by
  cases m
  · exact ⟨['o', 'n', ';'], by decide⟩
  · exact ⟨['o', 'f', 'f', ';'], by decide⟩
  · exact ⟨['e', 'r', 'r', ';'], by decide⟩

theorem toList_sigText_cons (m : ℕ × Mark) (ms : List (ℕ × Mark)) :
    (sigText (m :: ms)).toList = Nat.toDigits 10 m.1 ++ (m.2.text.toList ++ (sigText ms).toList) := by
  simp [sigText, List.append_assoc]

theorem sigText_cons_ne (m : ℕ × Mark) (ms : List (ℕ × Mark)) : sigText (m :: ms) ≠ "" := by
  intro heq
  have hlist := congrArg String.toList heq
  rw [toList_sigText_cons] at hlist
  obtain ⟨t, ht⟩ := text_eq_cons m.2
  simp [ht] at hlist

/-- **The signature tells the decisions apart.** -/
theorem sigText_inj {ms ms' : List (ℕ × Mark)} (heq : sigText ms = sigText ms') : ms = ms' := by
  induction ms generalizing ms' with
  | nil =>
      cases ms' with
      | nil => rfl
      | cons m ms' => exact absurd heq.symm (sigText_cons_ne m ms')
  | cons m ms ih =>
      cases ms' with
      | nil => exact absurd heq (sigText_cons_ne m ms)
      | cons m' ms' =>
          have hlist := congrArg String.toList heq
          rw [toList_sigText_cons, toList_sigText_cons] at hlist
          have hdigits : ∀ n : ℕ, ∀ c ∈ Nat.toDigits 10 n, c.isDigit = true := fun n c hc =>
            Nat.isDigit_of_mem_toDigits (by decide) (by decide) hc
          obtain ⟨t, ht⟩ := text_eq_cons m.2
          obtain ⟨t', ht'⟩ := text_eq_cons m'.2
          have hsplit := hlist
          rw [ht, ht', List.cons_append, List.cons_append] at hsplit
          obtain ⟨hid, -⟩ := digits_append_colon (hdigits _) (hdigits _) hsplit
          rw [hid] at hlist
          obtain ⟨hmark, hrest⟩ := text_append_inj (List.append_cancel_left hlist)
          have hid' : m.1 = m'.1 := by
            rw [← Nat.ofDigitChars_ten_toDigits (n := m.1), hid, Nat.ofDigitChars_ten_toDigits]
          rw [Prod.ext hid' hmark, ih (String.toList_inj.1 hrest)]

/-! ## Files and connections -/

/-- The inbounds that have a connection. -/
def onIds (ms : List (ℕ × Mark)) : Finset ℕ := ((ms.filter fun m => decide (m.2 = .on)).map (·.1)).toFinset

/-- The inbounds with a connection file, those with a connection in charon, and the
signature last written. -/
structure Charon where
  files : Finset ℕ
  loaded : Finset ℕ
  sig : String

/-- Which of the operations of a tick succeed. -/
structure Io where
  strongswanConf : Bool := true
  removed : ℕ → Bool := fun _ => true
  written : ℕ → Bool := fun _ => true
  charonConf : Bool := true
  started : Bool := true
  stopped : Bool := true
  reloaded : Bool := true

/-- `GenerateAllConfigs`.  A file that is not removed stays, and one that is not written is
missing; the signature is recorded all the same. -/
def generateAllConfigs (c : Charon) (db : Db) (io : Io) : Option Charon :=
  if db.inbounds.rows = [] then some c
  else if io.strongswanConf then
    some { c with
           files := (c.files.filter fun id => io.removed id = false) ∪
             (onIds db.marks).filter fun id => io.written id = true
           sig := admissionSig db }
  else none

/-- `charonNeeded`. -/
def charonNeeded (db : Db) : Bool := db.others || db.inbounds.rows.any fun i => i.enable

/-- `RestartServices`, with the outcome of the reload if there is one.  A reload that fails is
not reported. -/
def restartServices (c : Charon) (db : Db) (io : Io) : Charon × Option Bool :=
  if charonNeeded db then
    if io.charonConf && io.started then
      if io.reloaded then ({ c with loaded := c.files }, some true) else (c, some false)
    else (c, none)
  else if io.stopped then ({ c with loaded := ∅ }, none)
  else (c, none)

/-- `ReconcileDisabled`. -/
def reconcileDisabled (c : Charon) (db : Db) (io : Io) : Charon × Option Bool :=
  if db.inbounds.rows = [] then (c, none)
  else if admissionSig db = c.sig then (c, none)
  else
    match generateAllConfigs c db io with
    | none => (c, none)
    | some c' => restartServices c' db io

/-- `ikev2Changed`: the panel saved an inbound.  An error is logged. -/
def ikev2Changed (c : Charon) (db : Db) (io : Io) : Charon :=
  (restartServices ((generateAllConfigs c db io).getD c) db io).1

/-! ## Admission -/

/-- The enabled inbounds of the two modes whose account is admitted. -/
def localIds (db : Db) : Finset ℕ :=
  ((db.inbounds.rows.filter fun i => i.enable && i.settings.any fun o =>
    o.isLocal && ikev2Admissible o db.disabled).map (·.id)).toFinset

/-- The inbounds whose accounts RADIUS admits. -/
def radiusIds (db : Db) : Finset ℕ :=
  ((db.inbounds.rows.filter fun i => i.settings.any fun o => !o.isLocal).map (·.id)).toFinset

/-- The connections in charon, but for those of RADIUS, are those of the inbounds whose
account is admitted. -/
def Enforced (c : Charon) (db : Db) : Prop :=
  ∀ id, id ∉ radiusIds db → (id ∈ c.loaded ↔ id ∈ localIds db)

theorem mem_onIds {db : Db} {id : ℕ} :
    id ∈ onIds db.marks ↔ ∃ i ∈ db.inbounds.rows, i.id = id ∧ i.enable = true ∧
      ∃ o, i.settings = some o ∧ ikev2Admissible o db.disabled = true := by
  simp only [onIds, Db.marks, List.mem_toFinset, List.mem_map, List.mem_filter, decide_eq_true_eq]
  constructor
  · rintro ⟨m, ⟨⟨i, hi, rfl⟩, hon⟩, rfl⟩
    refine ⟨i, hi, rfl, ?_⟩
    cases henable : i.enable with
    | false => simp [Inbound.mark, henable] at hon
    | true =>
        cases hsettings : i.settings with
        | none => simp [Inbound.mark, henable, hsettings] at hon
        | some o => exact ⟨rfl, o, rfl, by simpa [Inbound.mark, henable, hsettings] using hon⟩
  · rintro ⟨i, hi, rfl, henable, o, hsettings, hadmit⟩
    exact ⟨_, ⟨⟨i, hi, rfl⟩, by simp [Inbound.mark, henable, hsettings, hadmit]⟩, rfl⟩

/-- Charon has the connections of the admitted inbounds. -/
theorem enforced_of_loaded {c : Charon} {db : Db} (hloaded : c.loaded = onIds db.marks) : Enforced c db := by
  intro id hradius
  rw [hloaded, mem_onIds]
  simp only [localIds, radiusIds, List.mem_toFinset, List.mem_map, List.mem_filter, Option.any_eq_true,
    Bool.and_eq_true, Bool.not_eq_true'] at hradius ⊢
  constructor
  · rintro ⟨i, hi, rfl, henable, o, ho, hadmit⟩
    refine ⟨i, ⟨hi, henable, o, ho, ?_, hadmit⟩, rfl⟩
    by_contra hlocal
    exact hradius ⟨i, ⟨hi, o, ho, by simpa using hlocal⟩, rfl⟩
  · rintro ⟨i, ⟨hi, henable, o, ho, -, hadmit⟩, rfl⟩
    exact ⟨i, hi, rfl, henable, o, ho, hadmit⟩

/-! ## Every run -/

/-- A tick or a save. -/
inductive Event where
  | tick (db : Db) (io : Io)
  | save (db : Db) (io : Io)

/-- Charon, with what is recorded of failures: the files of the signature were all written,
and charon was reloaded since they changed. -/
structure Watched where
  charon : Charon
  written : Bool := false
  reloaded : Bool := false

/-- The files of a signature: the old ones are removed and the new ones written. -/
def Io.writes (io : Io) (c : Charon) (db : Db) : Bool :=
  decide (∀ id ∈ c.files, io.removed id = true) && decide (∀ id ∈ onIds db.marks, io.written id = true)

/-- The files are written. -/
def Watched.generate (w : Watched) (db : Db) (io : Io) : Watched :=
  if db.inbounds.rows = [] then w
  else if io.strongswanConf then
    { charon := (generateAllConfigs w.charon db io).getD w.charon, written := io.writes w.charon db }
  else w

/-- The daemon starts again. -/
def Watched.restart (w : Watched) (db : Db) (io : Io) : Watched :=
  { w with
    charon := (restartServices w.charon db io).1
    reloaded :=
      if charonNeeded db then w.reloaded || (restartServices w.charon db io).2 = some true
      -- a stopped charon has no connections
      else if io.stopped then decide (w.charon.files = ∅) else w.reloaded }

/-- One event. -/
def Watched.step (w : Watched) : Event → Watched
  | .tick db io =>
      if db.inbounds.rows = [] ∨ admissionSig db = w.charon.sig ∨ io.strongswanConf = false then w
      else (w.generate db io).restart db io
  | .save db io => (w.generate db io).restart db io

/-- What has to hold of a tick: with no inbounds left charon has no connections; a signature
that did not move is one whose files were all written and then loaded; and when it moved
every file is written and charon is started, or stopped if nobody needs it. -/
def Watched.Sheltered (w : Watched) : Event → Prop
  | .tick db io =>
      if db.inbounds.rows = [] then w.charon.loaded = ∅
      else if admissionSig db = w.charon.sig then w.written = true ∧ w.reloaded = true
      else io.strongswanConf = true ∧ io.writes w.charon db = true ∧
        if charonNeeded db then io.charonConf = true ∧ io.started = true else io.stopped = true
  | .save _ _ => True

instance (w : Watched) (e : Event) : Decidable (w.Sheltered e) :=
  match e with
  | .tick db io =>
      inferInstanceAs (Decidable (if db.inbounds.rows = [] then w.charon.loaded = ∅
        else if admissionSig db = w.charon.sig then w.written = true ∧ w.reloaded = true
        else io.strongswanConf = true ∧ io.writes w.charon db = true ∧
          if charonNeeded db then io.charonConf = true ∧ io.started = true else io.stopped = true))
  | .save _ _ => inferInstanceAs (Decidable True)

/-- After a tick whose own reload, if it issued one, succeeded, admission is enforced. -/
def Watched.Obeyed (w : Watched) : Event → Prop
  | .tick db io => (reconcileDisabled w.charon db io).2 ≠ some false →
      Enforced (reconcileDisabled w.charon db io).1 db
  | .save _ _ => True

/-- What every run keeps. -/
structure Watched.Sound (w : Watched) : Prop where
  files : w.written = true → ∃ ms, w.charon.sig = sigText ms ∧ w.charon.files = onIds ms
  loaded : w.reloaded = true → w.charon.loaded = w.charon.files

section Steps

variable {w : Watched} {db : Db} {io : Io}

theorem files_generate (hne : db.inbounds.rows ≠ []) (hconf : io.strongswanConf = true) {c : Charon}
    (hwrites : io.writes c db = true) :
    generateAllConfigs c db io = some { c with files := onIds db.marks, sig := admissionSig db } := by
  simp only [Io.writes, Bool.and_eq_true, decide_eq_true_eq] at hwrites
  have hold : (c.files.filter fun id => io.removed id = false) = ∅ := by
    refine Finset.filter_eq_empty_iff.2 fun id hid => ?_
    simp [hwrites.1 id hid]
  have hnew : (onIds db.marks).filter (fun id => io.written id = true) = onIds db.marks :=
    Finset.filter_eq_self.2 hwrites.2
  rw [generateAllConfigs, if_neg hne, if_pos hconf, hold, hnew, Finset.empty_union]

theorem Watched.Sound.generate (hw : w.Sound) : (w.generate db io).Sound := by
  rw [Watched.generate]
  by_cases hempty : db.inbounds.rows = []
  · rwa [if_pos hempty]
  · rw [if_neg hempty]
    by_cases hconf : io.strongswanConf = true
    · rw [if_pos hconf]
      refine ⟨fun hwritten => ⟨db.marks, ?_⟩, fun hreloaded => absurd hreloaded (by simp)⟩
      rw [files_generate hempty hconf hwritten]
      exact ⟨rfl, rfl⟩
    · rwa [if_neg hconf]

/-- A restart writes no file and no signature. -/
theorem restartServices_eq (c : Charon) :
    ∃ loaded, (restartServices c db io).1 = { c with loaded := loaded } := by
  rw [restartServices]
  split
  · split
    · split
      · exact ⟨_, rfl⟩
      · exact ⟨_, rfl⟩
    · exact ⟨_, rfl⟩
  · split
    · exact ⟨_, rfl⟩
    · exact ⟨_, rfl⟩

theorem Watched.Sound.restart (hw : w.Sound) : (w.restart db io).Sound := by
  refine ⟨fun hwritten => ?_, fun hreloaded => ?_⟩
  · obtain ⟨loaded, heq⟩ := @restartServices_eq db io w.charon
    simp only [Watched.restart, heq]
    exact hw.files hwritten
  · simp only [Watched.restart] at hreloaded ⊢
    rw [restartServices] at hreloaded ⊢
    by_cases hneeded : charonNeeded db = true
    · cases hstart : io.charonConf && io.started <;> cases hio : io.reloaded <;>
        simp [hneeded, hstart, hio] at hreloaded ⊢ <;> exact hw.loaded hreloaded
    · by_cases hstopped : io.stopped = true
      · simp only [hneeded, hstopped, if_true, if_false, decide_eq_true_eq, Bool.false_eq_true] at hreloaded ⊢
        exact hreloaded.symm
      · simp only [hneeded, hstopped, if_false, Bool.false_eq_true] at hreloaded ⊢
        exact hw.loaded hreloaded

theorem Watched.Sound.step (hw : w.Sound) (e : Event) : (w.step e).Sound := by
  cases e with
  | tick db io =>
      rw [Watched.step]
      split
      · exact hw
      · exact hw.generate.restart
  | save db io => exact hw.generate.restart

/-- A sheltered tick whose reload does not fail leaves charon with the admitted inbounds. -/
theorem Watched.Sound.obeyed (hw : w.Sound) {e : Event} (hok : w.Sheltered e) : w.Obeyed e := by
  cases e with
  | save db io => trivial
  | tick db io =>
      intro hreload
      rw [Watched.Sheltered] at hok
      rw [reconcileDisabled] at hreload ⊢
      by_cases hempty : db.inbounds.rows = []
      · rw [if_pos hempty] at hok ⊢
        refine enforced_of_loaded ?_
        rw [hok, Db.marks, hempty]
        rfl
      · rw [if_neg hempty] at hok hreload ⊢
        by_cases hsig : admissionSig db = w.charon.sig
        · rw [if_pos hsig] at hok ⊢
          obtain ⟨ms, hms, hfiles⟩ := hw.files hok.1
          have hmarks : db.marks = ms := sigText_inj (hsig.trans hms)
          refine enforced_of_loaded ?_
          rw [hw.loaded hok.2, hfiles, hmarks]
        · rw [if_neg hsig] at hok hreload ⊢
          obtain ⟨hconf, hwrites, hcharon⟩ := hok
          rw [files_generate hempty hconf hwrites] at hreload ⊢
          simp only [restartServices] at hreload ⊢
          refine enforced_of_loaded ?_
          by_cases hneeded : charonNeeded db = true
          · rw [if_pos hneeded] at hcharon
            cases hio : io.reloaded with
            | true => simp [hneeded, hcharon.1, hcharon.2]
            | false => simp [hneeded, hcharon.1, hcharon.2, hio] at hreload
          · rw [if_neg hneeded] at hcharon
            -- nobody needs charon, so no inbound is enabled
            have hnone : onIds db.marks = ∅ := by
              refine Finset.eq_empty_of_forall_notMem fun id hid => hneeded ?_
              obtain ⟨i, hi, -, henable, -⟩ := mem_onIds.1 hid
              rw [charonNeeded, Bool.or_eq_true_iff]
              exact .inr (List.any_eq_true.2 ⟨i, hi, henable⟩)
            simp [hneeded, hcharon, hnone]

/-- **Admission is enforced in spite of failed reloads**, in every run whose ticks are
sheltered, from whatever files and connections the panel finds. -/
theorem admission_enforced (files loaded : Finset ℕ) {events : List Event}
    (hall : AllSteps Watched.step Watched.Sheltered { charon := ⟨files, loaded, ""⟩ } events) :
    AllSteps Watched.step Watched.Obeyed { charon := ⟨files, loaded, ""⟩ } events := by
  have hstep : ∀ (w : Watched) (e : Event), w.Sound → w.Sheltered e → (w.step e).Sound ∧ w.Obeyed e :=
    fun w e hw hok => ⟨hw.step e, hw.obeyed hok⟩
  refine hall.transitions hstep ?_
  exact ⟨fun hwritten => absurd hwritten (by simp), fun hreloaded => absurd hreloaded (by simp)⟩

end Steps

/-- A psk inbound with one account. -/
def pskDb (disabled : List String) : Db where
  inbounds := Table.single { id := 5, settings := some { authMode := "psk", clients := [{ email := "ann" }] } }
  disabled := disabled

/-- A reload fails, and the decisions change again before the next tick. -/
def shelteredEvents : List Event :=
  [.tick (pskDb []) {}, .tick (pskDb ["ann"]) { reloaded := false }, .tick (pskDb []) {}, .tick (pskDb ["ann"]) {},
    .tick (pskDb ["ann"]) {}]

theorem pskDb_obeyed :
    AllSteps Watched.step Watched.Obeyed { charon := ⟨∅, ∅, ""⟩ } shelteredEvents ∧
      (run Watched.step { charon := ⟨∅, ∅, ""⟩ } shelteredEvents).charon.loaded = ∅ := by
  refine ⟨admission_enforced ∅ ∅ ⟨?_, ?_, ?_, ?_, ?_, trivial⟩, by decide +kernel⟩ <;> decide +kernel

/-- Charon after the account was switched off and the reload failed. -/
def afterFailedReload : Charon :=
  (run Watched.step { charon := ⟨∅, ∅, ""⟩ } [.tick (pskDb []) {}, .tick (pskDb ["ann"]) { reloaded := false }]).charon

/-- The next tick finds the signature unmoved and issues no reload, and the connection of an
account that is off stays. -/
theorem failed_reload_forgotten :
    (reconcileDisabled afterFailedReload (pskDb ["ann"]) {}).2 = none ∧
      ¬ Enforced (reconcileDisabled afterFailedReload (pskDb ["ann"]) {}).1 (pskDb ["ann"]) := by
  refine ⟨by decide +kernel, fun h => ?_⟩
  have hfive := (h 5 (by decide +kernel)).1 (by decide +kernel)
  exact absurd hfive (by decide +kernel)

end Simorgh.Vpn.Ikev2
