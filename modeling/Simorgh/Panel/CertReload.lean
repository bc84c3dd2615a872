import Simorgh.Lib.Run

/-!
# Certificates that are replaced on disk

A handshake looks at the two files at most every ten seconds and loads them when they look
different.  The files are written one after the other, at any time, also while a handshake is
between two of its system calls.

* `step` — what a write, a handshake or the next call of a check does.
* `renewal_served` — the first check that nothing comes between serves what is on disk, after any run
  in which no write gives a file back the look that was recorded of it.
* `served_from_disk` — what is served was loaded, from files that were put on disk.
* `renewal_missed` — what is written while the reloader is made, after it has read the files and
  before it has recorded their look, is not served until the next write.
-/

namespace Simorgh.Panel.CertReload

open Simorgh.Lib

section

variable {Stamp Content Cert : Type} [DecidableEq Stamp]

/-! ## The code -/

/-- A file: its size and time of change, and what is in it. -/
structure File (Stamp Content : Type) where
  stamp : Stamp
  content : Content

/-- The certificate file and the key file. -/
structure Disk (Stamp Content : Type) where
  cert : Option (File Stamp Content)
  key : Option (File Stamp Content)

/-- Where the handshake is that holds the lock. -/
inductive Phase (Stamp Content : Type) where
  | idle
  | statCert
  | statKey (cert : Stamp)
  | readCert
  | readKey (cert : Content)

/-- The reloader, and the files it reads. -/
structure Reloader (Stamp Content Cert : Type) where
  disk : Disk Stamp Content
  current : Cert
  /-- What the pair looked like when it was last read; `none` before the first look. -/
  seen : Option (Stamp × Stamp)
  nextCheck : Int
  phase : Phase Stamp Content := .idle

/-- Ten seconds. -/
def certCheckInterval : Int := 10000000000

/-- Writes to the files and steps of the reloader. -/
inductive Event (Stamp Content : Type) where
  | writeCert (file : Option (File Stamp Content))
  | writeKey (file : Option (File Stamp Content))
  /-- A handshake comes to `maybeReload`, tests the time and tries the lock. -/
  | handshake (now : Int)
  /-- One that passed the test some time ago tries the lock. -/
  | late (now : Int)
  /-- The next call of the handshake that holds it. -/
  | proceed

/-- A call of `maybeReload`.  `pair` is `loadCertPair` on what was read. -/
def Reloader.proceed (pair : Content → Content → Option Cert) (r : Reloader Stamp Content Cert) :
    Reloader Stamp Content Cert :=
  match r.phase with
  | .idle => r
  | .statCert =>
      match r.disk.cert with
      | none => { r with phase := .idle }
      | some f => { r with phase := .statKey f.stamp }
  | .statKey cert =>
      match r.disk.key with
      | none => { r with phase := .idle }
      | some g =>
          if r.seen = some (cert, g.stamp) then { r with phase := .idle }
          else { r with seen := some (cert, g.stamp), phase := .readCert }
  | .readCert =>
      match r.disk.cert with
      | none => { r with phase := .idle }
      | some f => { r with phase := .readKey f.content }
  | .readKey cert =>
      match r.disk.key.bind fun g => pair cert g.content with
      | none => { r with phase := .idle }
      | some loaded => { r with current := loaded, phase := .idle }

/-- `TryLock`, and the next look is put off at once. -/
def Reloader.tryLock (r : Reloader Stamp Content Cert) (now : Int) : Reloader Stamp Content Cert :=
  match r.phase with
  | .idle => { r with nextCheck := now + certCheckInterval, phase := .statCert }
  | _ => r

/-- One event. -/
def step (pair : Content → Content → Option Cert) (r : Reloader Stamp Content Cert) :
    Event Stamp Content → Reloader Stamp Content Cert
  | .writeCert file => { r with disk := { r.disk with cert := file } }
  | .writeKey file => { r with disk := { r.disk with key := file } }
  | .handshake now => if now < r.nextCheck then r else r.tryLock now
  | .late now => r.tryLock now
  | .proceed => r.proceed pair

/-- `NewCertReloader`: the pair is loaded first and looked at then. -/
def newCertReloader (pair : Content → Content → Option Cert) (loaded looked : Disk Stamp Content) (now : Int) :
    Option (Reloader Stamp Content Cert) := do
  let cert ← pair (← loaded.cert).content (← loaded.key).content
  return { disk := looked, current := cert, nextCheck := now + certCheckInterval,
           seen := looked.cert.bind fun f => looked.key.map fun g => (f.stamp, g.stamp) }

/-- A handshake that checks and is not interrupted. -/
def check (now : Int) : List (Event Stamp Content) :=
  [.handshake now, .proceed, .proceed, .proceed, .proceed]

/-! ## What a run keeps -/

variable {pair : Content → Content → Option Cert} {r : Reloader Stamp Content Cert}

/-- A write does not give a file back the look that was recorded of it. -/
def Fresh (r : Reloader Stamp Content Cert) : Event Stamp Content → Prop
  | .writeCert (some f) => r.seen.map Prod.fst ≠ some f.stamp
  | .writeKey (some g) => r.seen.map Prod.snd ≠ some g.stamp
  | _ => True

/-- If the files look as they did, what they hold is served. -/
def UpToDate (pair : Content → Content → Option Cert) (r : Reloader Stamp Content Cert) : Prop :=
  ∀ f g cert, r.disk.cert = some f → r.disk.key = some g → r.seen = some (f.stamp, g.stamp) →
    pair f.content g.content = some cert → r.current = cert

/-- The same in the middle of a check: once the look has been recorded, it is of what is read. -/
def Sound (pair : Content → Content → Option Cert) (r : Reloader Stamp Content Cert) : Prop :=
  match r.phase with
  | .readCert => True
  | .readKey cert => ∀ f, r.disk.cert = some f → r.seen.map Prod.fst = some f.stamp → f.content = cert
  | _ => UpToDate pair r

omit [DecidableEq Stamp] in
theorem sound_of_upToDate (h : UpToDate pair r)
    (hphase : ∀ cert, r.phase ≠ .readKey cert) : Sound pair r := by
  unfold Sound
  split
  · trivial
  next cert hread => exact absurd hread (hphase cert)
  · exact h

omit [DecidableEq Stamp] in
/-- A file that was written looks other than what was recorded. -/
theorem sound_write (h : Sound pair r) {disk : Disk Stamp Content}
    (hcert : disk.cert = r.disk.cert ∨ ∀ f, disk.cert = some f → r.seen.map Prod.fst ≠ some f.stamp)
    (hkey : disk.key = r.disk.key ∨ ∀ g, disk.key = some g → r.seen.map Prod.snd ≠ some g.stamp) :
    Sound pair { r with disk := disk } := by
  have hup : UpToDate pair r → UpToDate pair { r with disk := disk } := by
    intro hup f g cert hf hg hseen hpair
    have hseen : r.seen = some (f.stamp, g.stamp) := hseen
    rcases hcert with hcert | hcert
    · rcases hkey with hkey | hkey
      · exact hup f g cert (hcert ▸ hf) (hkey ▸ hg) hseen hpair
      · exact absurd (by rw [hseen]; rfl) (hkey g hg)
    · exact absurd (by rw [hseen]; rfl) (hcert f hf)
  unfold Sound at h ⊢
  cases hphase : r.phase with
  | readCert => trivial
  | readKey cert =>
      rw [hphase] at h
      intro f hf hseen
      rcases hcert with hcert | hcert
      · exact h f (hcert ▸ hf) hseen
      · exact absurd hseen (hcert f hf)
  | idle => exact hup (by rwa [hphase] at h)
  | statCert => exact hup (by rwa [hphase] at h)
  | statKey cert => exact hup (by rwa [hphase] at h)

theorem sound_proceed (h : Sound pair r) : Sound pair (r.proceed pair) := by
  cases hphase : r.phase with
  | idle => simpa only [Reloader.proceed, hphase] using h
  | statCert =>
      have hup : UpToDate pair r := by simpa [Sound, hphase] using h
      simp only [Reloader.proceed, hphase]
      cases hcert : r.disk.cert <;> exact sound_of_upToDate hup (by simp)
  | statKey cert =>
      have hup : UpToDate pair r := by simpa [Sound, hphase] using h
      simp only [Reloader.proceed, hphase]
      cases hkey : r.disk.key with
      | none => exact sound_of_upToDate hup (by simp)
      | some g =>
          dsimp only
          split
          · exact sound_of_upToDate hup (by simp)
          · trivial
  | readCert =>
      simp only [Reloader.proceed, hphase]
      cases hcert : r.disk.cert with
      | none =>
          intro f g cert hf
          rw [hcert] at hf
          cases hf
      | some f =>
          intro f' hf' _
          rw [hcert] at hf'
          cases hf'
          rfl
  | readKey cert =>
      simp only [Sound, hphase] at h
      simp only [Reloader.proceed, hphase]
      -- what was read is what is on disk, if the files look as recorded
      have hload : ∀ f g loaded, r.disk.cert = some f → r.disk.key = some g → r.seen = some (f.stamp, g.stamp) →
          pair f.content g.content = some loaded → (r.disk.key.bind fun g => pair cert g.content) = some loaded := by
        intro f g loaded hf hg hseen hpair
        rw [hg, Option.bind_some, ← h f hf (by rw [hseen]; rfl)]
        exact hpair
      cases hread : r.disk.key.bind fun g => pair cert g.content with
      | none =>
          intro f g loaded hf hg hseen hpair
          cases hread.symm.trans (hload f g loaded hf hg hseen hpair)
      | some read =>
          intro f g loaded hf hg hseen hpair
          exact Option.some.inj (hread.symm.trans (hload f g loaded hf hg hseen hpair))

omit [DecidableEq Stamp] in
theorem tryLock_cases (r : Reloader Stamp Content Cert) (now : Int) :
    r.tryLock now = r ∨
      r.phase = .idle ∧ r.tryLock now = { r with nextCheck := now + certCheckInterval, phase := .statCert } := by
  unfold Reloader.tryLock
  split
  next hidle => exact .inr ⟨hidle, rfl⟩
  · exact .inl rfl

omit [DecidableEq Stamp] in
theorem sound_tryLock (h : Sound pair r) (now : Int) : Sound pair (r.tryLock now) := by
  rcases tryLock_cases r now with hsame | ⟨hidle, hlocked⟩
  · rwa [hsame]
  · rw [hlocked]
    simp only [Sound, hidle] at h
    exact h

theorem sound_step {e : Event Stamp Content} (h : Sound pair r)
    (hfresh : Fresh r e) : Sound pair (step pair r e) := by
  cases e with
  | writeCert file =>
      refine sound_write h (.inr fun f hf => ?_) (.inl rfl)
      obtain rfl : file = some f := hf
      exact hfresh
  | writeKey file =>
      refine sound_write h (.inl rfl) (.inr fun g hg => ?_)
      obtain rfl : file = some g := hg
      exact hfresh
  | handshake now =>
      rw [step]
      split
      · exact h
      · exact sound_tryLock h now
  | late now => exact sound_tryLock h now
  | proceed => exact sound_proceed h

/-! ## What is served -/

variable {loaded looked : Disk Stamp Content} {started now : Int} {f g : File Stamp Content} {cert : Cert}
  {events : List (Event Stamp Content)}

/-- A check of an idle reloader that nothing comes between. -/
theorem current_check (h : UpToDate pair r) (hidle : r.phase = .idle) (hdue : r.nextCheck ≤ now)
    (hf : r.disk.cert = some f) (hg : r.disk.key = some g)
    (hpair : pair f.content g.content = some cert) : (run (step pair) r (check now)).current = cert := by
  have hlock : step pair r (.handshake now) =
      { r with nextCheck := now + certCheckInterval, phase := .statCert } := by
    rw [step, if_neg (Int.not_lt.2 hdue), Reloader.tryLock, hidle]
  rw [check, run_cons, hlock]
  by_cases hseen : r.seen = some (f.stamp, g.stamp)
  · have hcurrent := h f g cert hf hg hseen hpair
    simpa [run, step, Reloader.proceed, hf, hg, hseen] using hcurrent
  · simp [run, step, Reloader.proceed, hf, hg, hseen, hpair]

omit [DecidableEq Stamp] in
/-- What `NewCertReloader` has read and recorded. -/
theorem newCertReloader_eq_some (h : newCertReloader pair loaded looked started = some r) :
    (∃ f g, loaded.cert = some f ∧ loaded.key = some g ∧ pair f.content g.content = some r.current) ∧
      r.disk = looked ∧ r.phase = .idle ∧
      ∀ f g, looked.cert = some f → looked.key = some g → r.seen = some (f.stamp, g.stamp) := by
  obtain ⟨f, hf, h⟩ := Option.bind_eq_some_iff.1 h
  obtain ⟨g, hg, h⟩ := Option.bind_eq_some_iff.1 h
  obtain ⟨cert, hpair, h⟩ := Option.bind_eq_some_iff.1 h
  cases h
  refine ⟨⟨f, g, hf, hg, hpair⟩, rfl, rfl, fun f' g' hf' hg' => ?_⟩
  simp [hf', hg']

/-- After any run in which no write gives a file back the look that was recorded of it, the first
check that nothing comes between serves what is on disk. -/
theorem renewal_served (hnew : newCertReloader pair loaded loaded started = some r)
    (hfresh : AllSteps (step pair) Fresh r events) {s : Reloader Stamp Content Cert}
    (hs : run (step pair) r events = s) (hidle : s.phase = .idle) (hdue : s.nextCheck ≤ now)
    (hf : s.disk.cert = some f) (hg : s.disk.key = some g) (hpair : pair f.content g.content = some cert) :
    (run (step pair) s (check now)).current = cert := by
  obtain ⟨⟨f₀, g₀, hf₀, hg₀, hcurrent⟩, hdisk, hphase, -⟩ := newCertReloader_eq_some hnew
  have hstart : Sound pair r := by
    refine sound_of_upToDate (fun f g cert hf hg _ hpair => ?_) (by simp [hphase])
    rw [hdisk, hf₀] at hf
    rw [hdisk, hg₀] at hg
    cases hf
    cases hg
    exact Option.some.inj (hcurrent.symm.trans hpair)
  have hsound := hfresh.invariant (fun r e h hfresh => sound_step h hfresh) hstart s
    (hs ▸ run_mem_states r events)
  exact current_check (by simpa [Sound, hidle] using hsound) hidle hdue hf hg hpair

/-- What is on disk, half read and served comes from files of a kind. -/
structure From (P Q : File Stamp Content → Prop) (pair : Content → Content → Option Cert)
    (r : Reloader Stamp Content Cert) : Prop where
  cert : ∀ f ∈ r.disk.cert, P f
  key : ∀ g ∈ r.disk.key, Q g
  read : ∀ c, r.phase = .readKey c → ∃ f, P f ∧ f.content = c
  served : ∃ f g, P f ∧ Q g ∧ pair f.content g.content = some r.current

theorem From.proceed {P Q : File Stamp Content → Prop} (h : From P Q pair r) : From P Q pair (r.proceed pair) := by
  unfold Reloader.proceed
  split
  · exact h
  · split <;> exact { h with read := by simp }
  · split
    · exact { h with read := by simp }
    · split <;> exact { h with read := by simp }
  · split
    · exact { h with read := by simp }
    next f hf => exact { h with read := fun c hc => ⟨f, h.cert f hf, Phase.readKey.inj hc⟩ }
  next c hc =>
    split
    · exact { h with read := by simp }
    next hload =>
      obtain ⟨g, hg, hpair⟩ := Option.bind_eq_some_iff.1 hload
      obtain ⟨f, hf, rfl⟩ := h.read c hc
      exact { h with read := by simp, served := ⟨f, g, hf, h.key g hg, hpair⟩ }

theorem From.step {P Q : File Stamp Content → Prop} {e : Event Stamp Content} (h : From P Q pair r)
    (hcert : ∀ f, e = .writeCert (some f) → P f) (hkey : ∀ g, e = .writeKey (some g) → Q g) :
    From P Q pair (step pair r e) := by
  have hlock : ∀ now, From P Q pair (r.tryLock now) := by
    intro now
    rcases tryLock_cases r now with hsame | ⟨-, hlocked⟩
    · rwa [hsame]
    · rw [hlocked]
      exact { h with read := by simp }
  cases e with
  | writeCert file => exact { h with cert := fun f hf => hcert f (congrArg _ hf) }
  | writeKey file => exact { h with key := fun g hg => hkey g (congrArg _ hg) }
  | handshake now =>
      rw [CertReload.step]
      split
      · exact h
      · exact hlock now
  | late now => exact hlock now
  | proceed => exact h.proceed

/-- Whatever comes between the calls of a check, what is served is a pair that loaded, of a
certificate and a key that were put on disk. -/
theorem served_from_disk (hnew : newCertReloader pair loaded looked started = some r) :
    ∃ f g, (f ∈ loaded.cert ∨ f ∈ looked.cert ∨ .writeCert (some f) ∈ events) ∧
      (g ∈ loaded.key ∨ g ∈ looked.key ∨ .writeKey (some g) ∈ events) ∧
      pair f.content g.content = some (run (step pair) r events).current := by
  obtain ⟨⟨f, g, hf, hg, hpair⟩, rfl, hphase, -⟩ := newCertReloader_eq_some hnew
  suffices h : ∀ P Q s, From P Q pair s → (∀ f, .writeCert (some f) ∈ events → P f) →
      (∀ g, .writeKey (some g) ∈ events → Q g) → From P Q pair (run (step pair) s events) from
    (h _ _ r ⟨fun f hf => .inr (.inl hf), fun g hg => .inr (.inl hg), by simp [hphase],
      f, g, .inl hf, .inl hg, hpair⟩ (fun _ h => .inr (.inr h)) fun _ h => .inr (.inr h)).served
  intro P Q
  clear hnew hphase hpair
  induction events with
  | nil => exact fun s h _ _ => h
  | cons e events ih =>
      intro s h hcert hkey
      refine ih _ (h.step ?_ ?_) (fun f hf => hcert f (List.mem_cons_of_mem _ hf)) fun g hg =>
        hkey g (List.mem_cons_of_mem _ hg)
      · exact fun f he => hcert f (he ▸ List.mem_cons_self)
      · exact fun g he => hkey g (he ▸ List.mem_cons_self)

/-- What is written while the reloader is made, between the load and the look, is not served before
something is written again. -/
theorem renewal_missed (hnew : newCertReloader pair loaded looked started = some r)
    (hf : looked.cert = some f) (hg : looked.key = some g)
    (hquiet : ∀ e ∈ events, ∀ file, e ≠ .writeCert file ∧ e ≠ .writeKey file) :
    (run (step pair) r events).current = r.current := by
  obtain ⟨-, hdisk, hphase, hseen⟩ := newCertReloader_eq_some hnew
  suffices h : ∀ s : Reloader Stamp Content Cert, s.disk = looked → s.seen = some (f.stamp, g.stamp) →
      (s.phase = .idle ∨ s.phase = .statCert ∨ s.phase = .statKey f.stamp) →
      (run (step pair) s events).current = s.current from
    h r hdisk (hseen f g hf hg) (.inl hphase)
  clear hnew hdisk hphase hseen
  induction events with
  | nil => exact fun s _ _ _ => rfl
  | cons e events ih =>
      intro s hdisk hseen hphase
      have ih := ih fun e he => hquiet e (List.mem_cons_of_mem _ he)
      have hlock : ∀ now, (run (step pair) (s.tryLock now) events).current = s.current := by
        intro now
        rcases tryLock_cases s now with hsame | ⟨-, hlocked⟩
        · rw [hsame]
          exact ih s hdisk hseen hphase
        · rw [hlocked]
          exact ih _ hdisk hseen (.inr (.inl rfl))
      rw [run_cons]
      cases e with
      | writeCert file => exact absurd rfl (hquiet _ List.mem_cons_self file).1
      | writeKey file => exact absurd rfl (hquiet _ List.mem_cons_self file).2
      | handshake now =>
          rw [step]
          split
          · exact ih s hdisk hseen hphase
          · exact hlock now
      | late now => exact hlock now
      | proceed =>
          rcases hphase with hphase | hphase | hphase
          · simp only [step, Reloader.proceed, hphase]
            exact ih s hdisk hseen (.inl hphase)
          · simp only [step, Reloader.proceed, hphase, hdisk, hf]
            exact ih _ rfl hseen (.inr (.inr rfl))
          · -- the files look as recorded, so they are not read
            simp only [step, Reloader.proceed, hphase, hdisk, hg, hseen, if_true]
            exact ih _ rfl rfl (.inl rfl)

end

/-! ## An example -/

/-- Certificates and keys that are numbers and match when they are equal. -/
def matching (cert key : Nat) : Option Nat := if cert = key then some cert else none

def pairOnDisk (n : Nat) : Disk Nat Nat := ⟨some ⟨n, n⟩, some ⟨n, n⟩⟩

def serving (n m : Nat) : Reloader Nat Nat Nat :=
  { disk := pairOnDisk m, current := n, seen := some (m, m), nextCheck := certCheckInterval }

theorem new_serving (n m : Nat) :
    newCertReloader matching (pairOnDisk n) (pairOnDisk m) 0 = some (serving n m) := by
  simp [newCertReloader, pairOnDisk, matching, serving]

/-- The two writes of a renewal with a check between them, which does not load. -/
def renewal : List (Event Nat Nat) :=
  .writeCert (some ⟨8, 8⟩) :: check certCheckInterval ++ [.writeKey (some ⟨8, 8⟩)]

theorem renewal_served_between :
    (run (step matching) (run (step matching) (serving 7 7) renewal) (check (2 * certCheckInterval))).current = 8 := by
  have hfresh : AllSteps (step matching) Fresh (serving 7 7) renewal := by
    refine ⟨?_, trivial, trivial, trivial, trivial, trivial, ?_, trivial⟩
    · show some 7 ≠ some 8
      decide
    · show some 7 ≠ some 8
      decide
  exact renewal_served (new_serving 7 7) hfresh rfl rfl (by decide) rfl rfl rfl

theorem served_in_renewal :
    ∃ f g, (f ∈ some ⟨7, 7⟩ ∨ f ∈ some ⟨7, 7⟩ ∨ .writeCert (some f) ∈ renewal) ∧
      (g ∈ some ⟨7, 7⟩ ∨ g ∈ some ⟨7, 7⟩ ∨ .writeKey (some g) ∈ renewal) ∧
      matching f.content g.content = some (run (step matching) (serving 7 7) renewal).current :=
  served_from_disk (new_serving 7 7)

theorem renewal_missed_at_start :
    (run (step matching) (serving 7 8) (check certCheckInterval)).current = 7 := by
  exact renewal_missed (new_serving 7 8) rfl rfl (by simp [check])

end Simorgh.Panel.CertReload
