import Simorgh.Lib.Float64
import Simorgh.Lib.Run

/-!
# The measurements of the active path

`linkStats` measures the active session by pings and pongs.  The ping loop, the network
reader and the main loop share one of them for as long as the process runs; a switch or a
re-handshake replaces the session and leaves it as it is.

Beside it, `Link.own` is what a `linkStats` would hold that is made anew with each session
and records only the pings sent on it and the pongs received from it.

* `snapshot_of_own_session` — while a session is replaced only before anything was measured,
  and what is recorded is of the current session, every snapshot is that of `own`.
* `snapshot_of_old_session` — the round-trip time of the old server is the new one's.
-/

namespace Simorgh.Tunnel

open Simorgh.Lib

/-! ## `linkStats` -/

/-- Times are in nanoseconds. -/
structure LinkStats where
  pending : UInt64 → Option ℤ
  rttEWMA : ℚ
  haveRTT : Bool
  sent : ℤ
  acked : ℤ

/-- No ping yet. -/
def newLinkStats : LinkStats := ⟨fun _ => none, 0, false, 0, 0⟩

/-- `d.Seconds() * 1000`. -/
def milliseconds (d : ℤ) : ℚ :=
  float64 (float64 ((d.tdiv (10 ^ 9) : ℤ) + float64 ((d.tmod (10 ^ 9) : ℤ) / 10 ^ 9)) * 1000)

/-- `old*0.8 + rtt*0.2`. -/
def smoothed (old rtt : ℚ) : ℚ :=
  float64 (float64 (old * float64 (4 / 5)) + float64 (rtt * float64 (1 / 5)))

namespace LinkStats

/-- The clock is read twice, for the entry and for the cutoff. -/
def recordSend (l : LinkStats) (token : UInt64) (now later : ℤ) : LinkStats :=
  { l with
    pending := fun k => (if k = token then some now else l.pending k).filter fun t =>
      ¬ t < later - 5 * 10 ^ 9
    sent := l.sent + 1 }

/-- An echo came back. -/
def recordPong (l : LinkStats) (token : UInt64) (now : ℤ) : LinkStats :=
  match l.pending token with
  | none => l
  | some sentAt =>
      { l with
        pending := fun k => if k = token then none else l.pending k
        rttEWMA := if l.haveRTT then smoothed l.rttEWMA (milliseconds (now - sentAt))
          else milliseconds (now - sentAt)
        haveRTT := true
        acked := l.acked + 1 }

/-- The round-trip time and the loss of the window, and the counters of the next one. -/
def snapshot (l : LinkStats) : (ℚ × ℚ) × LinkStats :=
  if l.sent = 0 then ((l.rttEWMA, 0), l)
  else
    let lossPct := float64 (float64 (100 * (l.sent - l.acked : ℤ)) / l.sent)
    ((l.rttEWMA, if lossPct < 0 then 0 else lossPct), { l with sent := 0, acked := 0 })

end LinkStats

/-! ## The loops that share it -/

/-- The client.  A session is named by the handshake it came from. -/
structure Link where
  current : Option ℕ := none
  tokenCounter : UInt64 := 0
  stats : LinkStats := newLinkStats
  /-- the ping loop has sent a ping on a session and not recorded it yet -/
  ping : Option (ℕ × UInt64) := none
  /-- the reader has opened a pong under a session and not recorded it yet -/
  pong : Option (ℕ × UInt64) := none
  own : LinkStats := newLinkStats

/-- Pings, their bookkeeping and the echoes. -/
inductive LinkEvent where
  /-- `sendPing` up to `recordSend`, and whether the transport took the packet -/
  | sendPing (sent : Bool)
  | recordSend (now later : ℤ)
  /-- a pong sealed under a session arrives -/
  | receivePong (session : ℕ) (token : UInt64)
  | recordPong (now : ℤ)
  /-- a health check takes its snapshot -/
  | check
  /-- `current.Store(sess)`, of a switch or a re-handshake -/
  | activate (session : ℕ)
  /-- `current.Store(nil)` -/
  | drop

namespace Link

/-- The ping is of the current session. -/
def isCurrent (l : Link) (session : ℕ) : Bool := decide (l.current = some session)

/-- One event. -/
def step (l : Link) : LinkEvent → Link
  | .sendPing sent =>
      match l.current, l.ping with
      | some session, none =>
          { l with
            tokenCounter := l.tokenCounter + 1
            ping := if sent then some (session, l.tokenCounter + 1) else none }
      | _, _ => l
  | .recordSend now later =>
      match l.ping with
      | none => l
      | some (session, token) =>
          { l with
            stats := l.stats.recordSend token now later
            own := if l.isCurrent session then l.own.recordSend token now later else l.own
            ping := none }
  | .receivePong session token =>
      -- the reader opens it under the session that is current when it looks
      if l.isCurrent session && l.pong.isNone then { l with pong := some (session, token) } else l
  | .recordPong now =>
      match l.pong with
      | none => l
      | some (session, token) =>
          { l with
            stats := l.stats.recordPong token now
            own := if l.isCurrent session then l.own.recordPong token now else l.own
            pong := none }
  | .check => { l with stats := l.stats.snapshot.2, own := l.own.snapshot.2 }
  | .activate session => { l with current := some session, own := newLinkStats }
  | .drop => { l with current := none }

end Link

/-- A health check is given the measurements of the current session; a session that has just
become the current one has none. -/
def OwnSnapshot (l : Link) : LinkEvent → Prop
  | .check => l.stats.snapshot.1 = l.own.snapshot.1
  | .activate session => (l.step (.activate session)).stats.snapshot.1 = (0, 0)
  | _ => True

/-- A session becomes the current one before anything was measured, with the counters of the
window at zero; a ping is recorded while its session is the current one, and so is a pong,
which answers a ping of that session if it answers one at all. -/
def Separate (l : Link) : LinkEvent → Prop
  | .recordSend _ _ => ∀ p ∈ l.ping, l.current = some p.1
  | .recordPong _ => ∀ p ∈ l.pong, l.current = some p.1 ∧
      ((l.stats.pending p.2).isSome → (l.own.pending p.2).isSome)
  | .activate _ => l.stats.haveRTT = false ∧ l.stats.sent = 0 ∧ l.stats.acked = 0
  | _ => True

/-! ## What the two hold -/

/-- They have measured the same, and every ping one waits for the other waits for. -/
structure LinkStats.Agrees (l own : LinkStats) : Prop where
  rtt : l.rttEWMA = own.rttEWMA
  have_rtt : l.haveRTT = own.haveRTT
  sent : l.sent = own.sent
  acked : l.acked = own.acked
  pending : ∀ token t, own.pending token = some t → l.pending token = some t
  unmeasured : l.haveRTT = false → l.rttEWMA = 0

namespace LinkStats.Agrees

variable {l own : LinkStats}

theorem recordSend (h : l.Agrees own) (token : UInt64) (now later : ℤ) :
    (l.recordSend token now later).Agrees (own.recordSend token now later) where
  rtt := h.rtt
  have_rtt := h.have_rtt
  sent := congrArg (· + 1) h.sent
  acked := h.acked
  pending := by
    intro k t hk
    simp only [LinkStats.recordSend, Option.filter_eq_some_iff] at hk ⊢
    refine ⟨?_, hk.2⟩
    by_cases htoken : k = token
    · rw [if_pos htoken] at hk ⊢
      exact hk.1
    · rw [if_neg htoken] at hk ⊢
      exact h.pending k t hk.1
  unmeasured := h.unmeasured

theorem recordPong (h : l.Agrees own) {token : UInt64}
    (hboth : (l.pending token).isSome → (own.pending token).isSome) (now : ℤ) :
    (l.recordPong token now).Agrees (own.recordPong token now) := by
  unfold LinkStats.recordPong
  cases hown : own.pending token with
  | none =>
      cases hl : l.pending token with
      | none => exact h
      | some t =>
          rw [hl, hown] at hboth
          cases hboth rfl
  | some sentAt =>
      rw [h.pending token sentAt hown]
      refine ⟨?_, rfl, h.sent, congrArg (· + 1) h.acked, ?_,
        fun hrtt => by cases hrtt⟩
      · simp only [h.rtt, h.have_rtt]
      · intro k t hk
        by_cases htoken : k = token
        · simp only [if_pos htoken, reduceCtorEq] at hk
        · simp only [if_neg htoken] at hk ⊢
          exact h.pending k t hk

theorem snapshot (h : l.Agrees own) :
    l.snapshot.1 = own.snapshot.1 ∧ l.snapshot.2.Agrees own.snapshot.2 := by
  unfold LinkStats.snapshot
  rw [h.sent]
  split
  · exact ⟨by rw [h.rtt], h⟩
  · refine ⟨by simp only [h.rtt, h.acked], ?_⟩
    exact ⟨h.rtt, h.have_rtt, rfl, rfl, h.pending, h.unmeasured⟩

end LinkStats.Agrees

theorem Link.agrees_step {l : Link} {e : LinkEvent} (h : l.stats.Agrees l.own)
    (hok : Separate l e) : (l.step e).stats.Agrees (l.step e).own ∧ OwnSnapshot l e := by
  cases e with
  | sendPing sent =>
      refine ⟨?_, trivial⟩
      simp only [Link.step]
      split <;> exact h
  | recordSend now later =>
      refine ⟨?_, trivial⟩
      simp only [Link.step]
      cases hp : l.ping with
      | none => exact h
      | some p =>
          simp only [isCurrent, hok p hp, decide_true, if_true]
          exact h.recordSend p.2 now later
  | receivePong session token =>
      refine ⟨?_, trivial⟩
      simp only [Link.step]
      split <;> exact h
  | recordPong now =>
      refine ⟨?_, trivial⟩
      simp only [Link.step]
      cases hp : l.pong with
      | none => exact h
      | some p =>
          obtain ⟨hcurrent, hboth⟩ := hok p hp
          simp only [isCurrent, hcurrent, decide_true, if_true]
          exact h.recordPong hboth now
  | check => exact ⟨h.snapshot.2, h.snapshot.1⟩
  | activate session =>
      obtain ⟨hrtt, hsent, hacked⟩ := hok
      refine ⟨⟨h.unmeasured hrtt, hrtt, hsent, hacked, ?_, h.unmeasured⟩, ?_⟩
      · intro token t ht
        cases ht
      · simp only [OwnSnapshot, Link.step, LinkStats.snapshot, if_pos hsent, h.unmeasured hrtt]
  | drop => exact ⟨h, trivial⟩

/-- In every run of this kind a health check scores the active path on its own
measurements. -/
theorem snapshot_of_own_session (events : List LinkEvent)
    (hok : AllSteps Link.step Separate {} events) : AllSteps Link.step OwnSnapshot {} events := by
  have hstart : newLinkStats.Agrees newLinkStats :=
    ⟨rfl, rfl, rfl, rfl, fun _ _ h => h, fun _ => rfl⟩
  have hstep : ∀ (l : Link) (e : LinkEvent), l.stats.Agrees l.own → Separate l e →
      (l.step e).stats.Agrees (l.step e).own ∧ OwnSnapshot l e := fun _ _ h hok => Link.agrees_step h hok
  exact hok.transitions hstep hstart

/-- A ping on session 1 that is answered after 80 ms, and a health check. -/
def pingAndCheck : List LinkEvent :=
  [.activate 1, .sendPing true, .recordSend 0 0, .receivePong 1 1, .recordPong 80000000, .check]

instance (l : Link) : (e : LinkEvent) → Decidable (Separate l e)
  | .recordSend _ _ => Option.decidableForallMem l.ping
  | .recordPong _ => Option.decidableForallMem l.pong
  | .activate _ => inferInstanceAs (Decidable (_ ∧ _ ∧ _))
  | .sendPing _ | .receivePong _ _ | .check | .drop => isTrue trivial

theorem pingAndCheck_own :
    (run Link.step {} pingAndCheck).stats.rttEWMA = 80 ∧
      AllSteps Link.step OwnSnapshot {} pingAndCheck :=
  ⟨by decide +kernel, snapshot_of_own_session pingAndCheck (by decide +kernel)⟩

/-- The client switches to another server: the check after the switch is given the 80 ms of
the first one. -/
theorem snapshot_of_old_session :
    (run Link.step {} (pingAndCheck ++ [.activate 2])).stats.snapshot.1 = (80, 0) ∧
      ¬AllSteps Link.step OwnSnapshot {} (pingAndCheck ++ [.activate 2, .check]) := by
  refine ⟨by decide +kernel, ?_⟩
  rintro ⟨-, -, -, -, -, -, hactivate, -⟩
  simp only [OwnSnapshot] at hactivate
  revert hactivate
  decide +kernel

end Simorgh.Tunnel
