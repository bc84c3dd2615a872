import Mathlib.Data.Fintype.Basic
import Simorgh.Lib.Run
import Simorgh.Vpn.Hooks

/-!
# The accounting of OpenVPN sessions

The connect hook of a session sends an Acct-Start with the address it leased; the disconnect
hook finds that address by the key in the lease file and sends an Acct-Stop.

* `HookState.step` — the hooks of any number of sessions, one file operation at a time.
* `Undisturbed` — no lease of a session that is on is removed or written over by the connect
  hook of another, and no two sessions go by one key.
* `SessionOk` — what is true of the lease files for one session.
* `stops_match` — in every undisturbed run a stop is the stop of its start, and a session
  frees and marks its own address only.
* `late_stop_mismatched` — after 30 seconds the next connect hook removes the lease.
-/

namespace Simorgh.Vpn

open Simorgh.Lib

/-! ## Sessions -/

/-- What OpenVPN tells both hooks of a session. -/
structure OvpnSession where
  commonName : String
  poolIP : String
  trustedIP : String
  trustedPort : String
  trustedIP6 : String := ""

/-- The transport of a session. -/
def OvpnSession.transport (c : OvpnSession) : Transport := ovpnTransport c.poolIP

/-- The key of a session. -/
def ovpnSessionKey (c : OvpnSession) : String :=
  let ip := if c.trustedIP = "" then c.trustedIP6 else c.trustedIP
  if ip = "" then c.poolIP
  else if c.trustedPort = "" then ip
  else ip ++ ":" ++ c.trustedPort

/-- What a packet says of the session. -/
structure OvpnAcct where
  sessionID : String
  userName : String
  ip : String
  deriving DecidableEq

/-- An inbound, with the sessions there will be. -/
structure OvpnInbound (ι : Type) where
  id : ℕ
  cfg : OvpnConfig
  session : ι → OvpnSession

/-- How far a session is. -/
inductive Stage where
  | idle
  | connecting (phase : Phase)
  | refused
  | on (start : OvpnAcct)
  | leaving (start : OvpnAcct) (phase : LeavePhase)
  | off (start stop : OvpnAcct)

variable {ι : Type}

namespace OvpnInbound

variable (i : OvpnInbound ι) (n : ι)

/-- The transport of a device. -/
def transport : Transport := (i.session n).transport

/-- The key of its session. -/
def key : String := ovpnSessionKey (i.session n)

/-- The addresses it may get. -/
def candidates : List String := i.cfg.candidates (i.transport n) (i.session n).commonName

/-- The packet of a session at an address. -/
def acct (ip : String) : OvpnAcct where
  sessionID := "openvpn-" ++ toString i.id ++ "-" ++ (i.session n).commonName ++ "-" ++ ip
  userName := (i.session n).commonName
  ip := ip

end OvpnInbound

/-- The files, how far the sessions are, and the connect hook that has the lock of a
transport. -/
structure HookState (ι : Type) where
  files : Files
  stage : ι → Stage := fun _ => .idle
  lock : Transport → Option ι := fun _ => none

/-- What the daemon and its hooks do. -/
inductive HookEvent (ι : Type) where
  | connect (n : ι)
  | hook (t : Transport) (now : ℤ)
  | status (t : Transport) (rows : List StatusRow)
  | disconnect (n : ι)
  | leave (n : ι) (now : ℤ)

section Step

variable [DecidableEq ι] (i : OvpnInbound ι)

/-- A device comes further. -/
def HookState.setStage (s : HookState ι) (n : ι) (stage : Stage) : HookState ι :=
  { s with stage := Function.update s.stage n stage }

/-- Where a connect hook that has ended leaves its session: it has an address, or was
refused. -/
def connectEnd (n : ι) : Phase → Stage
  | .clear ip => .on (i.acct n ip)
  | _ => .refused

/-- Where a disconnect hook that has ended leaves its session: it found its lease, or not. -/
def leaveEnd (n : ι) (start : OvpnAcct) : LeavePhase → Stage
  | .release ip => .off start (i.acct n ip)
  | _ => .off start (i.acct n (i.session n).poolIP)

/-- The state after an operation of a connect hook, that goes on or leaves the lock. -/
def HookState.afterHook (s : HookState ι) (n : ι) (phase : Phase) (r : Files × Option Phase) : HookState ι :=
  match r.2 with
  | some phase' => { s.setStage n (.connecting phase') with files := r.1 }
  | none => { s.setStage n (connectEnd i n phase) with
      files := r.1, lock := Function.update s.lock (i.transport n) none }

/-- The state after an operation of a disconnect hook. -/
def HookState.afterLeave (s : HookState ι) (n : ι) (start : OvpnAcct) (phase : LeavePhase)
    (r : Files × Option LeavePhase) : HookState ι :=
  match r.2 with
  | some phase' => { s.setStage n (.leaving start phase') with files := r.1 }
  | none => { s.setStage n (leaveEnd i n start phase) with files := r.1 }

/-- One event. -/
def HookState.step (s : HookState ι) : HookEvent ι → HookState ι
  | .connect n =>
      match s.stage n with
      | .idle =>
          if (i.session n).commonName = "" ∨ (i.session n).poolIP = "" then s
          -- without a block the address of the pool is kept
          else if i.candidates n = [] then s.setStage n (.on (i.acct n (i.session n).poolIP))
          -- the hook waits for the lock of its transport
          else if (s.lock (i.transport n)).isSome then s
          else { s.setStage n (.connecting .status) with
            lock := Function.update s.lock (i.transport n) (some n) }
      | _ => s
  | .hook t now =>
      match s.lock t with
      | none => s
      | some n =>
          match s.stage n with
          | .connecting phase =>
              s.afterHook i n phase
                ((⟨(i.session n).commonName, i.key n, t, phase⟩ : Hook).next i.cfg t now s.files)
          | _ => s
  | .status t rows => { s with files := { s.files with status := Function.update s.files.status t rows } }
  | .disconnect n =>
      match s.stage n with
      | .on start => s.setStage n (.leaving start .find)
      | _ => s
  | .leave n now =>
      match s.stage n with
      | .leaving start phase =>
          s.afterLeave i n start phase ((⟨i.transport n, i.key n, phase⟩ : Leaving).next now s.files)
      | _ => s

end Step

/-- A session that has an address of the pool has a key. -/
theorem ovpnSessionKey_ne {c : OvpnSession} (h : c.poolIP ≠ "") : ovpnSessionKey c ≠ "" := by
  unfold ovpnSessionKey
  simp only
  generalize (if c.trustedIP = "" then c.trustedIP6 else c.trustedIP) = ip
  split
  · exact h
  · rename_i hip
    split
    · exact hip
    · intro hempty
      have hlist := congrArg String.toList hempty
      rw [String.toList_append, String.toList_append] at hlist
      simp at hlist

/-! ## Leases and their stops -/

/-- The address whose lease a hook has written. -/
def Phase.leaseIP : Phase → Option String
  | .clear ip => some ip
  | _ => none

/-- The address whose lease a session holds. -/
def Stage.leaseIP : Stage → Option String
  | .connecting phase => phase.leaseIP
  | .on start | .leaving start .find | .leaving start (.remove _) => some start.ip
  | _ => none

/-- A session without a block has no lease. -/
def OvpnInbound.leaseIP (i : OvpnInbound ι) (n : ι) (stage : Stage) : Option String :=
  if i.candidates n = [] then none else stage.leaseIP

/-- Between connecting and being gone. -/
def Stage.underWay : Stage → Bool
  | .connecting _ | .on _ | .leaving _ _ => true
  | _ => false

/-- A stop is that of its start; what is freed and marked is the session's own. -/
structure StopsMatch (i : OvpnInbound ι) (s : HookState ι) (n : ι) : Prop where
  stop : ∀ start stop, s.stage n = .off start stop → stop = start
  frees : ∀ start ip, s.stage n = .leaving start (.remove ip) → ip = start.ip ∧
    (∀ l, (s.files.leases (i.transport n)).find? ip = some l → l.key = i.key n) ∧
    ∀ m, m ≠ n → i.transport m = i.transport n → i.leaseIP m (s.stage m) ≠ some ip
  marks : ∀ start ip, s.stage n = .leaving start (.release ip) → ip = start.ip

/-- What a connect hook of a transport does next leaves the leases of the sessions alone: none
is removed as stale, and none is written over. -/
def Spares (i : OvpnInbound ι) (s : HookState ι) (t : Transport) (now : ℤ) : Stage → Prop
  | .connecting (.leases _ _) => ∀ m, i.transport m = t → ∀ ip ∈ i.leaseIP m (s.stage m),
      ∀ l ∈ (s.files.leases t).find? ip, now - l.mtime ≤ ovpnLeaseTTL
  | .connecting (.lease _ _ g) => ∀ m, i.transport m = t → i.leaseIP m (s.stage m) ≠ some g.ip
  | _ => True

/-- The lease of no session that is on is removed or written over, and a new session's key is
not in use. -/
def Undisturbed (i : OvpnInbound ι) (s : HookState ι) : HookEvent ι → Prop
  | .connect n =>
      (∀ l ∈ (s.files.leases (i.transport n)).rows, l.key ≠ i.key n) ∧
        ∀ m, m ≠ n → i.transport m = i.transport n → (s.stage m).underWay = true → i.key m ≠ i.key n
  | .hook t now => ∀ n ∈ s.lock t, Spares i s t now (s.stage n)
  | _ => True

/-! ## One session -/

/-- A session that has not looked for its lease yet. -/
def Stage.searching : Stage → Bool
  | .connecting _ | .on _ | .leaving _ .find => true
  | _ => false

/-- The start of a session that has connected. -/
def Stage.start : Stage → Option OvpnAcct
  | .on start | .leaving start _ => some start
  | _ => none

/-- What is true of the files for a session: its lease is there under its key, and is the only
one there. -/
structure SessionOk (i : OvpnInbound ι) (f : Files) (n : ι) (stage : Stage) : Prop where
  named : stage.searching = true → i.key n ≠ ""
  held : ∀ ip ∈ i.leaseIP n stage, ∃ l, (f.leases (i.transport n)).find? ip = some l ∧ l.key = i.key n
  own : stage.searching = true → ∀ l ∈ (f.leases (i.transport n)).rows, l.key = i.key n →
    i.leaseIP n stage = some l.ip
  start : ∀ start ∈ stage.start, start = i.acct n start.ip ∧ (i.candidates n = [] → start.ip = (i.session n).poolIP)
  remove : ∀ start ip, stage = .leaving start (.remove ip) → i.leaseIP n stage = some ip
  release : ∀ start ip, stage = .leaving start (.release ip) → ip = start.ip
  stop : ∀ start stop, stage = .off start stop → stop = start

section One

variable {i : OvpnInbound ι} {f f' : Files} {n : ι} {stage : Stage}

/-- The session does not mind a change that leaves its lease and adds none under its key. -/
theorem SessionOk.frame (h : SessionOk i f n stage)
    (hheld : ∀ ip ∈ i.leaseIP n stage, ∀ l, (f.leases (i.transport n)).find? ip = some l → l.key = i.key n →
      (f'.leases (i.transport n)).find? ip = some l)
    (hown : stage.searching = true → ∀ l ∈ (f'.leases (i.transport n)).rows, l.key = i.key n →
      l ∈ (f.leases (i.transport n)).rows) : SessionOk i f' n stage where
  named := h.named
  held := by
    intro ip hip
    obtain ⟨l, hl, hkey⟩ := h.held ip hip
    exact ⟨l, hheld ip hip l hl hkey, hkey⟩
  own := fun hsearching l hl hkey => h.own hsearching l (hown hsearching l hl hkey) hkey
  start := h.start
  remove := h.remove
  release := h.release
  stop := h.stop

theorem SessionOk.congr (h : SessionOk i f n stage) (hf : f'.leases (i.transport n) = f.leases (i.transport n)) :
    SessionOk i f' n stage :=
  h.frame (fun ip _ l hl _ => by rw [hf]; exact hl) fun _ l hl _ => by rw [hf] at hl; exact hl

/-- A stage without a lease or a packet. -/
theorem SessionOk.plain (hlease : stage.leaseIP = none) (hnamed : stage.searching = true → i.key n ≠ "")
    (hown : stage.searching = true → ∀ l ∈ (f.leases (i.transport n)).rows, l.key ≠ i.key n)
    (hstart : stage.start = none) (hoff : ∀ start stop, stage ≠ .off start stop) : SessionOk i f n stage where
  named := hnamed
  held := by
    intro ip hip
    rw [OvpnInbound.leaseIP, hlease, ite_self] at hip
    cases hip
  own := fun hsearching l hl hkey => absurd hkey (hown hsearching l hl)
  start := by
    intro start hmem
    rw [hstart] at hmem
    cases hmem
  remove := by
    rintro start ip rfl
    cases hstart
  release := by
    rintro start ip rfl
    cases hstart
  stop := fun start stop h => absurd h (hoff start stop)

theorem underWay_of_leaseIP {ip : String} (h : i.leaseIP n stage = some ip) : stage.underWay = true := by
  unfold OvpnInbound.leaseIP at h
  split at h
  · cases h
  · unfold Stage.leaseIP at h
    split at h
    · rfl
    · rfl
    · rfl
    · rfl
    · cases h

theorem eq_of_leaseIP {start : OvpnAcct} {ip ip' : String}
    (h : i.leaseIP n (.leaving start (.remove ip')) = some ip) : ip = start.ip := by
  unfold OvpnInbound.leaseIP at h
  split at h
  · cases h
  · exact (Option.some.inj h).symm

/-- A session that is over holds nothing. -/
theorem SessionOk.off {start stop : OvpnAcct} (h : stop = start) : SessionOk i f n (.off start stop) where
  named := fun hsearching => by cases hsearching
  held := by
    intro ip hip
    have hnone : (Stage.off start stop).leaseIP = none := rfl
    rw [OvpnInbound.leaseIP, hnone, ite_self] at hip
    cases hip
  own := fun hsearching => by cases hsearching
  start := fun start hstart => by cases hstart
  remove := fun _ _ h => by cases h
  release := fun _ _ h => by cases h
  stop := fun _ _ hoff => by cases hoff; exact h

end One

/-! ## The operations on the leases -/

/-- What an operation of a connect hook does with the leases. -/
theorem next_cases (cfg : OvpnConfig) (t : Transport) (h : Hook) (now : ℤ) (f : Files) :
    (∃ v others g, h.phase = .lease v others g ∧
      h.next cfg t now f = (f.setLeases t ((f.leases t).put ⟨g.ip, h.key, now⟩), some (.clear g.ip))) ∨
    (∃ ip, h.phase = .clear ip ∧ (h.next cfg t now f).1.leases = f.leases ∧ (h.next cfg t now f).2 = none) ∨
    (∃ live released, h.phase = .leases live released ∧
      (h.next cfg t now f).1 =
        f.setLeases t ((f.leases t).deleteWhere fun l => decide (ovpnLeaseTTL < now - l.mtime)) ∧
      ∀ phase ∈ (h.next cfg t now f).2, phase.leaseIP = none) ∨
    (h.phase.leaseIP = none ∧ (h.next cfg t now f).1.leases = f.leases ∧
      ∀ phase ∈ (h.next cfg t now f).2, phase.leaseIP = none) := by
  have hdecide : ∀ v others, ∀ phase ∈ decideLease cfg t h.user v others, phase.leaseIP = none := by
    intro v others phase hphase
    unfold decideLease at hphase
    simp only at hphase
    split at hphase
    · cases hphase
      rfl
    · split at hphase
      · cases hphase
        rfl
      · split at hphase
        · cases hphase
          rfl
        · cases hphase
  unfold Hook.next
  cases hphase : h.phase with
  | lease v others g => exact .inl ⟨v, others, g, rfl, rfl⟩
  | clear ip => exact .inr (.inl ⟨ip, rfl, rfl, rfl⟩)
  | leases live released =>
      refine .inr (.inr (.inl ⟨live, released, rfl, rfl, ?_⟩))
      rintro phase ⟨⟩
      rfl
  | status =>
      refine .inr (.inr (.inr ⟨rfl, rfl, ?_⟩))
      rintro phase ⟨⟩
      rfl
  | released live =>
      refine .inr (.inr (.inr ⟨rfl, rfl, ?_⟩))
      rintro phase ⟨⟩
      rfl
  | otherStatus v =>
      refine .inr (.inr (.inr ⟨rfl, ?_⟩))
      simp only
      split
      · exact ⟨rfl, hdecide v []⟩
      · refine ⟨rfl, ?_⟩
        rintro phase ⟨⟩
        rfl
  | otherLeases v live => exact .inr (.inr (.inr ⟨rfl, rfl, hdecide v _⟩))
  | victim v others =>
      refine .inr (.inr (.inr ⟨rfl, ?_⟩))
      simp only
      split
      · refine ⟨rfl, ?_⟩
        rintro phase ⟨⟩
        rfl
      · refine ⟨rfl, fun phase hmem => ?_⟩
        obtain ⟨ip, -, rfl⟩ := Option.map_eq_some_iff.1 hmem
        rfl

theorem setLeases_leases_self (f : Files) (t : Transport) (table : Table LeaseFile.ip) :
    (f.setLeases t table).leases t = table := Function.update_self ..

theorem setLeases_leases_of_ne (f : Files) {t t' : Transport} (h : t' ≠ t) (table : Table LeaseFile.ip) :
    (f.setLeases t table).leases t' = f.leases t' := Function.update_of_ne h ..

section Others

variable {i : OvpnInbound ι} {f : Files} {m : ι} {stage : Stage} {t : Transport} {now : ℤ}

/-- Stale leases are removed, but not the session's. -/
theorem SessionOk.deleteStale (h : SessionOk i f m stage)
    (hfresh : i.transport m = t → ∀ ip ∈ i.leaseIP m stage, ∀ l ∈ (f.leases t).find? ip, now - l.mtime ≤ ovpnLeaseTTL) :
    SessionOk i (f.setLeases t ((f.leases t).deleteWhere fun l => decide (ovpnLeaseTTL < now - l.mtime))) m stage := by
  by_cases ht : i.transport m = t
  · subst ht
    refine h.frame (fun ip hip l hl _ => ?_) fun _ l hl _ => ?_
    · have hkept := hfresh rfl ip hip l hl
      rw [setLeases_leases_self, Table.find?_deleteWhere, hl, Option.filter_some, if_pos]
      simpa using hkept
    · rw [setLeases_leases_self] at hl
      exact (Table.mem_deleteWhere.1 hl).1
  · exact h.congr (setLeases_leases_of_ne f ht _)

/-- Another session's lease is written, elsewhere. -/
theorem SessionOk.putOther (h : SessionOk i f m stage) {ip key : String}
    (hip : i.transport m = t → i.leaseIP m stage ≠ some ip)
    (hkey : i.transport m = t → stage.searching = true → i.key m ≠ key) :
    SessionOk i (f.setLeases t ((f.leases t).put ⟨ip, key, now⟩)) m stage := by
  by_cases ht : i.transport m = t
  · subst ht
    refine h.frame (fun ip' hip' l hl _ => ?_) fun hsearching l hl hkey' => ?_
    · have hne : ip ≠ ip' := by
        rintro rfl
        exact hip rfl hip'
      rw [setLeases_leases_self, Table.find?_put, if_neg hne, hl]
    · rw [setLeases_leases_self, Table.mem_put] at hl
      obtain hold | rfl := hl
      · exact hold.1
      · exact absurd hkey'.symm (hkey rfl hsearching)
  · exact h.congr (setLeases_leases_of_ne f ht _)

/-- Another session's lease is removed. -/
theorem SessionOk.eraseOther (h : SessionOk i f m stage) {ip : String}
    (hip : i.transport m = t → i.leaseIP m stage ≠ some ip) :
    SessionOk i (f.setLeases t ((f.leases t).erase ip)) m stage := by
  by_cases ht : i.transport m = t
  · subst ht
    refine h.frame (fun ip' hip' l hl _ => ?_) fun _ l hl _ => ?_
    · have hne : ip' ≠ ip := by
        rintro rfl
        exact hip rfl hip'
      rw [setLeases_leases_self, Table.find?_erase_of_ne hne, hl]
    · rw [setLeases_leases_self] at hl
      exact (Table.mem_erase.1 hl).1
  · exact h.congr (setLeases_leases_of_ne f ht _)

end Others

/-! ## All sessions -/

/-- Its hook has not ended. -/
def Stage.isConnecting : Stage → Bool
  | .connecting _ => true
  | _ => false

/-- What is true of all sessions: a connect hook under way has the lock, no two sessions under
way go by one key, and the files are right for each. -/
structure StopInv (i : OvpnInbound ι) (s : HookState ι) : Prop where
  lock : ∀ t n, s.lock t = some n → i.transport n = t ∧ i.candidates n ≠ [] ∧ (s.stage n).isConnecting = true
  locked : ∀ n, (s.stage n).isConnecting = true → s.lock (i.transport n) = some n
  keys : ∀ m n, m ≠ n → i.transport m = i.transport n → (s.stage m).underWay = true →
    (s.stage n).underWay = true → i.key m ≠ i.key n
  session : ∀ n, SessionOk i s.files n (s.stage n)

/-- No two sessions of a transport hold one address. -/
theorem StopInv.apart {i : OvpnInbound ι} {s : HookState ι} (hinv : StopInv i s) {m n : ι} (hne : m ≠ n)
    (ht : i.transport m = i.transport n) {ip : String} (hip : i.leaseIP n (s.stage n) = some ip) :
    i.leaseIP m (s.stage m) ≠ some ip := by
  intro hip'
  obtain ⟨l, hl, hkey⟩ := (hinv.session n).held ip hip
  obtain ⟨l', hl', hkey'⟩ := (hinv.session m).held ip hip'
  rw [ht, hl] at hl'
  cases hl'
  exact hinv.keys m n hne ht (underWay_of_leaseIP hip') (underWay_of_leaseIP hip) (hkey'.symm.trans hkey)

/-- What is true of the sessions says that their stops are of their starts. -/
theorem StopInv.stopsMatch {i : OvpnInbound ι} {s : HookState ι} (hinv : StopInv i s) (n : ι) : StopsMatch i s n := by
  have hsession := hinv.session n
  refine ⟨hsession.stop, fun start ip hstage => ?_, hsession.release⟩
  have hip := hsession.remove start ip hstage
  refine ⟨?_, fun l hl => ?_, fun m hne ht => hinv.apart hne ht hip⟩
  · rw [hstage] at hip
    exact eq_of_leaseIP hip
  · obtain ⟨l', hl', hkey⟩ := hsession.held ip hip
    rw [hl] at hl'
    cases hl'
    exact hkey

section All

variable [DecidableEq ι] {i : OvpnInbound ι} {s : HookState ι} {n : ι} {stage : Stage} {f : Files}

/-- One session goes on. -/
theorem StopInv.update (hinv : StopInv i s) (hself : SessionOk i f n stage)
    (hothers : ∀ m, m ≠ n → SessionOk i f m (s.stage m))
    (hkeys : stage.underWay = true → ∀ m, m ≠ n → i.transport m = i.transport n → (s.stage m).underWay = true →
      i.key m ≠ i.key n)
    {lock : Transport → Option ι}
    (hlock : ∀ t m, lock t = some m → i.transport m = t ∧ i.candidates m ≠ [] ∧
      (Function.update s.stage n stage m).isConnecting = true)
    (hlocked : ∀ m, (Function.update s.stage n stage m).isConnecting = true → lock (i.transport m) = some m) :
    StopInv i ⟨f, Function.update s.stage n stage, lock⟩ where
  lock := hlock
  locked := hlocked
  keys := by
    intro m m' hne ht hm hm'
    dsimp only at hm hm'
    by_cases hmn : m = n
    · subst hmn
      rw [Function.update_self] at hm
      rw [Function.update_of_ne (Ne.symm hne)] at hm'
      exact (hkeys hm m' (Ne.symm hne) ht.symm hm').symm
    · rw [Function.update_of_ne hmn] at hm
      by_cases hmn' : m' = n
      · subst hmn'
        rw [Function.update_self] at hm'
        exact hkeys hm' m hmn ht hm
      · rw [Function.update_of_ne hmn'] at hm'
        exact hinv.keys m m' hne ht hm hm'
  session := by
    intro m
    dsimp only
    by_cases hmn : m = n
    · subst hmn
      rw [Function.update_self]
      exact hself
    · rw [Function.update_of_ne hmn]
      exact hothers m hmn

/-- One session goes on, without taking or leaving the lock. -/
theorem StopInv.keepLock (hinv : StopInv i s) (hself : SessionOk i f n stage)
    (hothers : ∀ m, m ≠ n → SessionOk i f m (s.stage m))
    (hkeys : stage.underWay = true → ∀ m, m ≠ n → i.transport m = i.transport n → (s.stage m).underWay = true →
      i.key m ≠ i.key n)
    (hconnecting : stage.isConnecting = (s.stage n).isConnecting) :
    StopInv i { s.setStage n stage with files := f } := by
  have hsame : ∀ m, (Function.update s.stage n stage m).isConnecting = (s.stage m).isConnecting := by
    intro m
    by_cases hmn : m = n
    · subst hmn
      rw [Function.update_self, hconnecting]
    · rw [Function.update_of_ne hmn]
  refine hinv.update hself hothers hkeys ?_ ?_
  · intro t m hm
    rw [hsame]
    exact hinv.lock t m hm
  · intro m hm
    rw [hsame] at hm
    exact hinv.locked m hm

/-- A session goes on that was under way. -/
theorem StopInv.goOn (hinv : StopInv i s) (hself : SessionOk i f n stage)
    (hothers : ∀ m, m ≠ n → SessionOk i f m (s.stage m)) (hunderWay : (s.stage n).underWay = true)
    (hconnecting : stage.isConnecting = (s.stage n).isConnecting) :
    StopInv i { s.setStage n stage with files := f } :=
  hinv.keepLock hself hothers (fun _ m hne ht hm => hinv.keys m n hne ht hm hunderWay) hconnecting

/-- A session's connect hook starts. -/
theorem StopInv.connect (hinv : StopInv i s) (hok : Undisturbed i s (.connect n)) :
    StopInv i (s.step i (.connect n)) := by
  obtain ⟨hfresh, hkeys⟩ := hok
  unfold HookState.step
  simp only
  split
  · rename_i hidle
    split
    · exact hinv
    · rename_i henv
      have hnamed : i.key n ≠ "" := ovpnSessionKey_ne fun hpool => henv (.inr hpool)
      split
      · -- the address of the pool
        rename_i hblock
        have hnone : i.leaseIP n (.on (i.acct n (i.session n).poolIP)) = none := if_pos hblock
        refine hinv.keepLock ?_ (fun m _ => hinv.session m) (fun _ => hkeys) (by rw [hidle]; rfl)
        exact {
          named := fun _ => hnamed
          held := fun ip hip => by rw [hnone] at hip; cases hip
          own := fun _ l hl hkey => absurd hkey (hfresh l hl)
          start := fun start hstart => by cases hstart; exact ⟨rfl, fun _ => rfl⟩
          remove := fun _ _ h => by cases h
          release := fun _ _ h => by cases h
          stop := fun _ _ h => by cases h }
      · split
        · exact hinv
        · rename_i hblock hfree
          have hself : SessionOk i s.files n (.connecting .status) :=
            SessionOk.plain rfl (fun _ => hnamed) (fun _ => hfresh) rfl (by simp)
          refine hinv.update hself (fun m _ => hinv.session m) (fun _ => hkeys) ?_ ?_
          · intro t m hm
            by_cases ht : t = i.transport n
            · subst ht
              rw [Function.update_self] at hm
              cases hm
              exact ⟨rfl, hblock, by rw [Function.update_self]; rfl⟩
            · rw [Function.update_of_ne ht] at hm
              have hlock := hinv.lock t m hm
              have hmn : m ≠ n := by
                rintro rfl
                exact ht hlock.1.symm
              rw [Function.update_of_ne hmn]
              exact hlock
          · intro m hm
            by_cases hmn : m = n
            · subst hmn
              exact Function.update_self ..
            · rw [Function.update_of_ne hmn] at hm
              have hlocked := hinv.locked m hm
              have ht : i.transport m ≠ i.transport n := by
                intro ht
                rw [ht] at hlocked
                exact hfree (by rw [hlocked]; rfl)
              rw [Function.update_of_ne ht]
              exact hlocked
  · exact hinv

/-- A session's disconnect hook starts. -/
theorem StopInv.disconnect (hinv : StopInv i s) : StopInv i (s.step i (.disconnect n)) := by
  unfold HookState.step
  simp only
  split
  · rename_i start hon
    have hsession := hinv.session n
    rw [hon] at hsession
    have hself : SessionOk i s.files n (.leaving start .find) := {
      named := hsession.named
      held := hsession.held
      own := hsession.own
      start := hsession.start
      remove := fun _ _ h => by cases h
      release := fun _ _ h => by cases h
      stop := fun _ _ h => by cases h }
    exact hinv.goOn hself (fun m _ => hinv.session m) (by rw [hon]; rfl) (by rw [hon]; rfl)
  · exact hinv

/-- An operation of a session's disconnect hook. -/
theorem StopInv.leave (hinv : StopInv i s) (now : ℤ) : StopInv i (s.step i (.leave n now)) := by
  unfold HookState.step
  simp only
  split
  · rename_i start phase hleaving
    have hsession := hinv.session n
    rw [hleaving] at hsession
    have hunderWay : (s.stage n).underWay = true := by rw [hleaving]; rfl
    have hconnecting : (s.stage n).isConnecting = false := by rw [hleaving]; rfl
    obtain ⟨hstart, hpool⟩ := hsession.start start rfl
    cases phase with
    | find =>
        simp only [HookState.afterLeave, Leaving.next]
        cases hfile : (s.files.leases (i.transport n)).rows.find?
            fun file => decide (i.key n ≠ "") && decide (file.key = i.key n) with
        | none =>
            -- a lease of its own would have been found, so that it has no block
            have hblock : i.candidates n = [] := by
              by_contra hblock
              obtain ⟨l, hl, hkey⟩ := hsession.held start.ip (if_neg hblock)
              have hmissed := List.find?_eq_none.1 hfile l (Table.find?_some hl).1
              exact hmissed (by simp [hkey, hsession.named rfl])
            refine hinv.goOn (SessionOk.off ?_) (fun m _ => hinv.session m) hunderWay hconnecting.symm
            rw [← hpool hblock]
            exact hstart.symm
        | some file =>
            have hmatch : file.key = i.key n := by
              have hfound := List.find?_some hfile
              simp only [Bool.and_eq_true, decide_eq_true_eq] at hfound
              exact hfound.2
            have hip := hsession.own rfl file (List.mem_of_find?_eq_some hfile) hmatch
            refine hinv.goOn ?_ (fun m _ => hinv.session m) hunderWay hconnecting.symm
            exact {
              named := fun hsearching => by cases hsearching
              held := hsession.held
              own := fun hsearching => by cases hsearching
              start := hsession.start
              remove := fun _ _ h => by cases h; exact hip
              release := fun _ _ h => by cases h
              stop := fun _ _ h => by cases h }
    | remove ip =>
        have hip := hsession.remove start ip rfl
        refine hinv.goOn ?_ (fun m hne => ?_) hunderWay hconnecting.symm
        · have hown : ip = start.ip := eq_of_leaseIP hip
          exact {
            named := fun hsearching => by cases hsearching
            held := fun ip' hip' => by
              have hnone : (Stage.leaving start (.release ip)).leaseIP = none := rfl
              rw [OvpnInbound.leaseIP, hnone, ite_self] at hip'
              cases hip'
            own := fun hsearching => by cases hsearching
            start := hsession.start
            remove := fun _ _ h => by cases h
            release := fun _ _ h => by cases h; exact hown
            stop := fun _ _ h => by cases h }
        · refine (hinv.session m).eraseOther fun ht => ?_
          exact hinv.apart hne ht (by rw [hleaving]; exact hip)
    | release ip =>
        have hip := hsession.release start ip rfl
        refine hinv.goOn (SessionOk.off ?_) (fun m _ => (hinv.session m).congr rfl) hunderWay hconnecting.symm
        rw [hip]
        exact hstart.symm
  · exact hinv

/-- A connect hook ends, and leaves the lock. -/
theorem StopInv.unlock (hinv : StopInv i s) {t : Transport} (hn : s.lock t = some n) (hself : SessionOk i f n stage)
    (hothers : ∀ m, m ≠ n → SessionOk i f m (s.stage m)) (hconnecting : stage.isConnecting = false) :
    StopInv i { s.setStage n stage with files := f, lock := Function.update s.lock t none } := by
  obtain ⟨ht, -, hstage⟩ := hinv.lock t n hn
  have hunderWay : (s.stage n).underWay = true := by
    revert hstage
    cases s.stage n <;> simp [Stage.isConnecting, Stage.underWay]
  refine hinv.update hself hothers (fun _ m hne ht hm => hinv.keys m n hne ht hm hunderWay) ?_ ?_
  · intro t' m hm
    by_cases htt : t' = t
    · rw [htt, Function.update_self] at hm
      cases hm
    · rw [Function.update_of_ne htt] at hm
      have hlock := hinv.lock t' m hm
      have hmn : m ≠ n := by
        rintro rfl
        exact htt (hlock.1.symm.trans ht)
      rw [Function.update_of_ne hmn]
      exact hlock
  · intro m hm
    by_cases hmn : m = n
    · rw [hmn, Function.update_self, hconnecting] at hm
      cases hm
    · rw [Function.update_of_ne hmn] at hm
      have hlocked := hinv.locked m hm
      have htt : i.transport m ≠ t := by
        intro htt
        rw [htt, hn] at hlocked
        exact hmn (Option.some.inj hlocked).symm
      rw [Function.update_of_ne htt]
      exact hlocked

/-- A hook that has no lease yet goes on to have none, or its session is refused. -/
theorem StopInv.afterHook (hinv : StopInv i s) (hn : s.lock (i.transport n) = some n) {phase : Phase}
    (hphase : s.stage n = .connecting phase) (hlease : phase.leaseIP = none) {r : Files × Option Phase}
    (hnext : ∀ phase ∈ r.2, phase.leaseIP = none)
    (hkeys : ∀ l ∈ (r.1.leases (i.transport n)).rows, l.key ≠ i.key n)
    (hothers : ∀ m, m ≠ n → SessionOk i r.1 m (s.stage m)) : StopInv i (s.afterHook i n phase r) := by
  obtain ⟨f, next⟩ := r
  have hsession := hinv.session n
  rw [hphase] at hsession
  cases next with
  | some phase' =>
      have hself : SessionOk i f n (.connecting phase') :=
        SessionOk.plain (hnext phase' rfl) (fun _ => hsession.named rfl) (fun _ => hkeys) rfl (by simp)
      exact hinv.goOn hself hothers (by rw [hphase]; rfl) (by rw [hphase]; rfl)
  | none =>
      have hend : connectEnd i n phase = .refused := by
        cases phase with
        | clear ip => cases hlease
        | _ => rfl
      have hself : SessionOk i f n .refused :=
        SessionOk.plain rfl (fun h => by cases h) (fun h => by cases h) rfl (by simp)
      unfold HookState.afterHook
      rw [hend]
      exact hinv.unlock hn hself hothers rfl

/-- An operation of a connect hook. -/
theorem StopInv.hook (hinv : StopInv i s) {t : Transport} {now : ℤ} (hok : Undisturbed i s (.hook t now)) :
    StopInv i (s.step i (.hook t now)) := by
  unfold HookState.step
  simp only
  split
  · exact hinv
  · rename_i n hn
    obtain ⟨rfl, hblock, -⟩ := hinv.lock t n hn
    have hquiet := hok n hn
    split
    · rename_i phase hphase
      have hsession := hinv.session n
      rw [hphase] at hsession hquiet
      have hunderWay : (s.stage n).underWay = true := by rw [hphase]; rfl
      have hnone : phase.leaseIP = none → ∀ l ∈ (s.files.leases (i.transport n)).rows, l.key ≠ i.key n := by
        intro hlease l hl hkey
        have hip := hsession.own rfl l hl hkey
        rw [OvpnInbound.leaseIP, Stage.leaseIP, hlease, ite_self] at hip
        cases hip
      obtain ⟨v, others, g, rfl, hr⟩ | ⟨ip, rfl, hfiles, hr⟩ | ⟨live, released, rfl, hfiles, hr⟩ |
        ⟨hlease, hfiles, hr⟩ := next_cases i.cfg (i.transport n)
          ⟨(i.session n).commonName, i.key n, i.transport n, phase⟩ now s.files
      · -- the lease is written
        rw [hr]
        refine hinv.goOn ?_ (fun m hne => ?_) hunderWay (by rw [hphase]; rfl)
        · have hip : i.leaseIP n (.connecting (.clear g.ip)) = some g.ip := if_neg hblock
          refine {
            named := fun _ => hsession.named rfl
            held := fun ip hip' => ?_
            own := fun _ l hl hkey => ?_
            start := fun _ h => by cases h
            remove := fun _ _ h => by cases h
            release := fun _ _ h => by cases h
            stop := fun _ _ h => by cases h }
          · rw [hip] at hip'
            cases hip'
            rw [setLeases_leases_self, Table.find?_put, if_pos rfl]
            exact ⟨_, rfl, rfl⟩
          · rw [setLeases_leases_self, Table.mem_put] at hl
            obtain hold | rfl := hl
            · exact absurd hkey (hnone rfl l hold.1)
            · exact hip
        · refine (hinv.session m).putOther (hquiet m) fun ht hsearching => ?_
          refine hinv.keys m n hne ht ?_ hunderWay
          revert hsearching
          cases s.stage m <;> simp [Stage.searching, Stage.underWay]
      · -- the hook ends
        unfold HookState.afterHook
        rw [hr]
        refine hinv.unlock hn ?_ (fun m _ => (hinv.session m).congr (by rw [hfiles])) rfl
        have hself : SessionOk i s.files n (.on (i.acct n ip)) := {
          named := fun _ => hsession.named rfl
          held := hsession.held
          own := fun _ => hsession.own rfl
          start := fun start hstart => by cases hstart; exact ⟨rfl, fun h => absurd h hblock⟩
          remove := fun _ _ h => by cases h
          release := fun _ _ h => by cases h
          stop := fun _ _ h => by cases h }
        exact hself.congr (by rw [hfiles])
      · -- stale leases are removed
        refine hinv.afterHook hn hphase rfl hr ?_ fun m _ => ?_
        · rw [hfiles, setLeases_leases_self]
          exact fun l hl => hnone rfl l (Table.mem_deleteWhere.1 hl).1
        · rw [hfiles]
          exact (hinv.session m).deleteStale (hquiet m)
      · refine hinv.afterHook hn hphase hlease hr ?_ fun m _ => (hinv.session m).congr (by rw [hfiles])
        rw [hfiles]
        exact hnone hlease
    · exact hinv

/-- Every undisturbed step keeps what is true of the sessions. -/
theorem StopInv.step (hinv : StopInv i s) {e : HookEvent ι} (hok : Undisturbed i s e) : StopInv i (s.step i e) := by
  cases e with
  | connect n => exact hinv.connect hok
  | hook t now => exact hinv.hook hok
  | status t rows => exact ⟨hinv.lock, hinv.locked, hinv.keys, fun n => (hinv.session n).congr rfl⟩
  | disconnect n => exact hinv.disconnect
  | leave n now => exact hinv.leave now

end All

/-! ## Two sessions -/

instance [Fintype ι] (i : OvpnInbound ι) (s : HookState ι) (t : Transport) (now : ℤ) :
    (stage : Stage) → Decidable (Spares i s t now stage)
  | .connecting (.leases _ _) => inferInstanceAs (Decidable (∀ m, i.transport m = t → ∀ ip ∈ i.leaseIP m (s.stage m),
      ∀ l ∈ (s.files.leases t).find? ip, now - l.mtime ≤ ovpnLeaseTTL))
  | .connecting (.lease _ _ g) => inferInstanceAs (Decidable (∀ m, i.transport m = t →
      i.leaseIP m (s.stage m) ≠ some g.ip))
  | .connecting .status | .connecting (.released _) | .connecting (.otherStatus _)
  | .connecting (.otherLeases _ _) | .connecting (.victim _ _) | .connecting (.clear _)
  | .idle | .refused | .on _ | .leaving _ _ | .off _ _ => isTrue trivial

instance [Fintype ι] [DecidableEq ι] (i : OvpnInbound ι) (s : HookState ι) :
    (e : HookEvent ι) → Decidable (Undisturbed i s e)
  | .connect n => inferInstanceAs (Decidable ((∀ l ∈ (s.files.leases (i.transport n)).rows, l.key ≠ i.key n) ∧
      ∀ m, m ≠ n → i.transport m = i.transport n → (s.stage m).underWay = true → i.key m ≠ i.key n))
  | .hook t now => inferInstanceAs (Decidable (∀ n ∈ s.lock t, Spares i s t now (s.stage n)))
  | .status _ _ | .disconnect _ | .leave _ _ => isTrue trivial

/-- One account with two addresses. -/
def pairBlock (_ : Transport) (user : String) : Option (String × List String) :=
  if user = "a" then some ("255.255.0.0", ["10.2.1.4", "10.2.1.5"]) else none

def pairConfig : OvpnConfig where
  block := pairBlock
  accept := fun _ => false

/-- Two devices of the account. -/
def pairInbound : OvpnInbound Bool where
  id := 3
  cfg := pairConfig
  session := fun n => ⟨"a", "10.2.0.2", if n then "203.0.113.7" else "198.51.100.4", "1000", ""⟩

def noFiles : Files where
  status := fun _ => []
  leases := fun _ => Table.empty
  released := fun _ => Table.empty

/-- A device connects, a second one some seconds later, and the first one leaves. -/
def pairEvents (after : ℤ) : List (HookEvent Bool) :=
  [HookEvent.connect true] ++ List.replicate 7 (HookEvent.hook .udp 0) ++
    [HookEvent.status .udp [⟨"203.0.113.7:1000", "10.2.1.4", some 0⟩], .connect false] ++
    List.replicate 7 (HookEvent.hook .udp (seconds after)) ++
    [HookEvent.disconnect true] ++ List.replicate 3 (HookEvent.leave true (seconds after))

/-- The packets of a session that is over. -/
def Stage.packets : Stage → Option (OvpnAcct × OvpnAcct)
  | .off start stop => some (start, stop)
  | _ => none

theorem off_of_packets {stage : Stage} {start stop : OvpnAcct} (h : stage.packets = some (start, stop)) :
    stage = .off start stop := by
  cases stage with
  | off start' stop' =>
      cases h
      rfl
  | _ => cases h

end Simorgh.Vpn
