import Simorgh.Tunnel.Isolation

/-!
# Coming back after a ban or a restart

A customer's link quality outlives its sessions.  After a new handshake the first
packet is measured against the last sequence number of the session before.

* `survives_iff_judgements` — a session is kept exactly when none of its packets is
  judged banned, however the customer's goroutines are interleaved.
* `comeback_iff` — packets in order after a handshake are all accepted exactly when
  the quality that earlier sessions have left, with the jump to the first of them
  counted as loss, is not below `BAN_QUALITY`.
-/

namespace Simorgh.Tunnel

open Simorgh.Lib

section Comeback

variable {A : Aead} {P : Primitives} {cfg : Config} {c : Customer}

/-! ## What the goroutines leave alone -/

/-- The sequence number of a packet. -/
def CustomerEvent.seq? : CustomerEvent → Option UInt16
  | .packet _ seq .. => some seq
  | _ => none

/-- The session after an access. -/
def RecvOp.apply (current : Option Session) : RecvOp → Option Session
  | .storeSession sess => some sess
  | .dropSession => none
  | _ => current

/-- The session once the receive loop is done with the packet at hand. -/
def Served.settled (l : Served) : Option Session := l.recv.foldl RecvOp.apply l.state.current

/-- The accesses that follow from one neither store nor drop a session. -/
theorem recvOp_follow (s : CustomerState) (op : RecvOp) :
    (s.recvOp c op).1.quality = s.quality ∧
      (s.recvOp c op).1.current = op.apply s.current ∧
      ∀ o ∈ (s.recvOp c op).2, o ≠ .dropSession ∧ ∀ current, o.apply current = current := by
  cases op with
  | decode plain now =>
      refine ⟨rfl, rfl, fun o ho => ?_⟩
      obtain ⟨frame, -, rfl⟩ := List.mem_map.1 ho
      exact ⟨nofun, fun _ => rfl⟩
  | nextSeq dest body =>
      refine ⟨rfl, rfl, fun o ho => ?_⟩
      rw [List.mem_singleton.1 ho]
      exact ⟨nofun, fun _ => rfl⟩
  | _ => exact ⟨rfl, rfl, fun o ho => nomatch ho⟩

theorem foldl_apply_of_same {ops : List RecvOp}
    (h : ∀ o ∈ ops, ∀ current, o.apply current = current) (current : Option Session) :
    ops.foldl RecvOp.apply current = current := by
  induction ops with
  | nil => rfl
  | cons op ops ih =>
      rw [List.forall_mem_cons] at h
      rw [List.foldl_cons, h.1, ih h.2]

/-- Between packets the quality stays, the session to come stays, and none is dropped. -/
theorem between_packets {l : Served} {e : CustomerEvent} (he : e.seq? = none) :
    (l.step A P cfg c e).state.quality = l.state.quality ∧
      (l.step A P cfg c e).settled = l.settled ∧
      (.dropSession ∉ l.recv → .dropSession ∉ (l.step A P cfg c e).recv) := by
  cases e with
  | packet src seq body priv nonce now => cases he
  | frame frame nonce parityNonce =>
      simp only [Served.step]
      split <;> exact ⟨rfl, rfl, id⟩
  | readError nonce =>
      simp only [Served.step]
      split <;> exact ⟨rfl, rfl, id⟩
  | tick nonce now =>
      simp only [Served.step]
      split <;> exact ⟨rfl, rfl, id⟩
  | turn thread =>
      cases thread with
      | recv =>
          cases hl : l.recv with
          | nil => simp [Served.step, hl]
          | cons op rest =>
              obtain ⟨hq, hcur, hops⟩ := @recvOp_follow c l.state op
              simp only [Served.step, hl, Served.settled, List.foldl_append, List.foldl_cons]
              refine ⟨hq, ?_, fun hnot hmem => ?_⟩
              · rw [hcur, foldl_apply_of_same fun o ho => (hops o ho).2]
              · rcases List.mem_append.1 hmem with hmem | hmem
                · exact (hops _ hmem).1 rfl
                · exact hnot (List.mem_cons_of_mem _ hmem)
      | reader =>
          cases hl : l.reader with
          | nil => simp [Served.step, hl]
          | cons op rest =>
              obtain ⟨hcur, hq, -⟩ := @outOp_frame A cfg c l.state op
              simp only [Served.step, hl, Served.settled, hcur, hq]
              exact ⟨trivial, trivial, id⟩
      | ticker =>
          cases hl : l.ticker with
          | nil => simp [Served.step, hl]
          | cons op rest =>
              obtain ⟨hcur, hq, -⟩ := @outOp_frame A cfg c l.state op
              simp only [Served.step, hl, Served.settled, hcur, hq]
              exact ⟨trivial, trivial, id⟩

/-! ## The quality of every reachable state -/

/-- The tracker counts a window and keeps the threshold it was made with. -/
def Tracked (cfg : Config) (l : Served) : Prop :=
  l.state.quality.Counts ∧ l.state.quality.banPct = cfg.banQuality

theorem Tracked.step {l : Served} (h : Tracked cfg l) (e : CustomerEvent) :
    Tracked cfg (l.step A P cfg c e) := by
  cases he : e.seq? with
  | none =>
      rw [Tracked, (between_packets he).1]
      exact h
  | some seq =>
      cases e with
      | packet src seq body priv nonce now =>
          simp only [Served.step]
          split
          · rcases @judge_cases A P c l.state src seq body priv nonce now with
              hj | hj | ⟨sess, plain, -, -, -, hj⟩
            · rw [hj]
              exact h
            · rw [hj]
              exact h
            · rw [hj]
              exact ⟨h.1.observe seq, h.2⟩
          · exact h
      | _ => cases he

theorem tracked_start (cfg : Config) : Tracked cfg (Served.start cfg) :=
  ⟨LinkQuality.counts_new cfg.banQuality, rfl⟩

theorem tracked_run (events : List CustomerEvent) :
    Tracked cfg (run (Served.step A P cfg c) (Served.start cfg) events) := by
  have hall : AllSteps (Served.step A P cfg c) (fun _ _ => True) (Served.start cfg) events :=
    AllSteps.of_forall (fun _ _ => trivial) _ _
  exact hall.invariant (fun l e hl _ => hl.step e) (tracked_start cfg) _ (run_mem_states _ _)

/-! ## The packets of a session -/

/-- A packet, if it is one, was sealed by the session's peer and comes from its address.
Its nonce does not start with the tag of a Hello. -/
def OfSession (A : Aead) (sess : Session) : CustomerEvent → Prop
  | .packet src _ body _ _ _ => src = sess.peer ∧ ∃ nonce plain, nonce.length = nonceSize ∧
      nonce.head? ≠ some msgHello ∧ body = sealBody A sess.key nonce plain
  | _ => True

/-- The loop takes a packet when it is done with the last one. -/
def TakenWhenIdle (l : Served) (e : CustomerEvent) : Prop := e.seq?.isSome = true → l.recv = []

instance (l : Served) (e : CustomerEvent) : Decidable (TakenWhenIdle l e) :=
  inferInstanceAs (Decidable (_ → _))

/-- The session is kept: no drop of it is due, and it is the one the loop settles on. -/
def Survives (sess : Session) (l : Served) : Prop :=
  .dropSession ∉ l.recv ∧ l.settled = some sess

theorem handleSessionPlain_keeps (sess : Session) (plain nonce : Bytes) (now : Int) :
    ∀ op ∈ handleSessionPlain A sess plain nonce now,
      op ≠ .dropSession ∧ ∀ current, op.apply current = current := by
  cases plain with
  | nil => simp [handleSessionPlain]
  | cons kind rest =>
      simp only [handleSessionPlain]
      repeat' split
      all_goals simp [RecvOp.apply]

/-- A packet of the session is judged by its sequence number. -/
theorem packet_step {l : Served} {sess : Session} (hidle : l.recv = [])
    (hcur : l.settled = some sess) {src : Addr} {seq : UInt16} {body priv nonce : Bytes} {now : Int}
    (he : OfSession A sess (.packet src seq body priv nonce now)) :
    (l.step A P cfg c (.packet src seq body priv nonce now)).state.quality
        = (l.state.quality.observe seq).1 ∧
      (Survives sess (l.step A P cfg c (.packet src seq body priv nonce now)) ↔
        (l.state.quality.observe seq).2.2 = false) := by
  obtain ⟨rfl, n, plain, hn, htag, rfl⟩ := he
  rw [Served.settled, hidle, List.foldl_nil] at hcur
  have hne : sealBody A sess.key n plain ≠ [] := by
    intro h
    have := congrArg List.length h
    rw [sealBody, List.length_append, hn] at this
    simp [nonceSize] at this
  have hhead : (sealBody A sess.key n plain).head? ≠ some msgHello := by
    cases n with
    | nil => cases hn
    | cons b n => exact htag
  have hj := @judge_of_open A P c l.state sess seq _ plain hcur hne hhead
    (openBody_sealBody A sess.key plain hn) priv nonce now
  simp only [Served.step, hidle, if_true, hj, CustomerState.judgeOpened]
  refine ⟨trivial, ?_⟩
  cases hban : (l.state.quality.observe seq).2.2 with
  | true => simp [Survives]
  | false =>
      have hops := @handleSessionPlain_keeps A sess plain nonce now
      simp only [Bool.false_eq_true, if_false, Survives, Served.settled, List.mem_cons,
        reduceCtorEq, false_or, List.foldl_cons, RecvOp.apply, iff_true]
      exact ⟨fun h => (hops _ h).1 rfl,
        (foldl_apply_of_same (fun o ho => (hops o ho).2) _).trans hcur⟩

/-- A session is kept exactly when none of its packets is judged banned. -/
theorem survives_iff_judgements {sess : Session} {l : Served} (hl : Survives sess l)
    {events : List CustomerEvent} (he : ∀ e ∈ events, OfSession A sess e)
    (hidle : AllSteps (Served.step A P cfg c) TakenWhenIdle l events) :
    (∀ m ∈ states (Served.step A P cfg c) l events, Survives sess m) ↔
      ∀ b ∈ l.state.quality.judgements (events.filterMap CustomerEvent.seq?), b = false := by
  induction events generalizing l with
  | nil => simp [states, LinkQuality.judgements, hl]
  | cons e events ih =>
      rw [List.forall_mem_cons] at he
      rw [states, List.forall_mem_cons, List.filterMap_cons]
      cases hseq : e.seq? with
      | none =>
          -- the other goroutines, or the loop at work on a packet already judged
          obtain ⟨hq, hset, hdrop⟩ := @between_packets A P cfg c l e hseq
          have hkept : Survives sess (l.step A P cfg c e) := ⟨hdrop hl.1, hset.trans hl.2⟩
          simp only [ih hkept he.2 hidle.2, hq, hl, true_and]
      | some seq =>
          cases e with
          | packet src seq' body priv nonce now =>
              cases hseq
              obtain ⟨hq, hiff⟩ := @packet_step A P cfg c l sess (hidle.1 rfl) hl.2 _ _ _ _ _ _ he.1
              simp only [LinkQuality.judgements, List.forall_mem_cons, hl, true_and]
              constructor
              · intro hall
                have hkept := hall _ (start_mem_states _ _)
                refine ⟨hiff.1 hkept, ?_⟩
                rw [← hq]
                exact (ih hkept he.2 hidle.2).1 hall
              · rintro ⟨hok, hrest⟩
                rw [← hq] at hrest
                exact (ih (hiff.2 hok) he.2 hidle.2).2 hrest
          | _ => cases hseq

/-- The state right after the loop has taken an accepted Hello: the quality is what it
was. -/
theorem hello_step {l : Served} (hidle : l.recv = []) {src : Addr} {seq : UInt16}
    {body priv nonce clientPub key : Bytes} {now : Int}
    (hans : answerHello P c.password body priv = some (clientPub, key)) :
    (l.step A P cfg c (.packet src seq (msgHello :: body) priv nonce now)).state = l.state ∧
      Survives ⟨key, src⟩
        (l.step A P cfg c (.packet src seq (msgHello :: body) priv nonce now)) := by
  simp [Served.step, hidle, CustomerState.judge, receive, handleCustomerHello, hans, Survives,
    Served.settled, RecvOp.apply]

/-- After an accepted handshake in any reachable state, and whatever the sink reader and the
ticker do in between, a run of the new session's packets that arrive in order, none missing,
keeps the session exactly when there is no threshold or the quality at the first of them is
not below it. -/
theorem comeback_iff (A : Aead) (P : Primitives) (cfg : Config) (c : Customer)
    (before : List CustomerEvent)
    (hidle : (run (Served.step A P cfg c) (Served.start cfg) before).recv = [])
    {src : Addr} {helloSeq : UInt16} {body priv nonce clientPub key : Bytes} {now : Int}
    (hans : answerHello P c.password body priv = some (clientPub, key))
    {events : List CustomerEvent} (he : ∀ e ∈ events, OfSession A ⟨key, src⟩ e)
    (htaken : AllSteps (Served.step A P cfg c) TakenWhenIdle
      (run (Served.step A P cfg c) (Served.start cfg)
        (before ++ [.packet src helloSeq (msgHello :: body) priv nonce now])) events)
    {seq : UInt16} {n : Nat}
    (hseqs : events.filterMap CustomerEvent.seq? = LinkQuality.consecutive seq (n + 1)) :
    (∀ l ∈ states (Served.step A P cfg c)
        (run (Served.step A P cfg c) (Served.start cfg)
          (before ++ [.packet src helloSeq (msgHello :: body) priv nonce now])) events,
      Survives ⟨key, src⟩ l) ↔
      cfg.banQuality ≤ 0 ∨
        cfg.banQuality ≤
          (run (Served.step A P cfg c) (Served.start cfg) before).state.quality.firstPct seq := by
  obtain ⟨hcounts, hban⟩ := @tracked_run A P cfg c before
  rw [run_append, run_cons, run_nil] at htaken ⊢
  obtain ⟨hstate, hkept⟩ := @hello_step A P cfg c _ hidle src helloSeq body priv nonce clientPub
    key now hans
  rw [survives_iff_judgements hkept he htaken, hstate, hseqs,
    LinkQuality.judgements_consecutive hcounts seq n, hban]

end Comeback

/-! ## A client that restarts -/

def banConfig : Config := ⟨false, 0, 50⟩

/-- A datagram of alice's, taken by the loop and served to its end. -/
def takes (seq : UInt16) (body priv : Bytes) : List CustomerEvent :=
  .packet home seq body priv [] 0 :: List.replicate 3 (.turn .recv)

def keepaliveOf (sess : Session) : Bytes := sealBody sampleAead sess.key (nonceFrom 0) keepalive

/-- Alice's client connects, and its counter reaches 60000 without a packet lost. -/
def firstSession : List CustomerEvent :=
  takes 59999 (buildHello samplePrimitives alice.password [7]) [9] ++
    takes 60000 (keepaliveOf (sessionOf [7] [9])) []

/-- A new handshake, the client's counter at `seq`. -/
def helloAt (seq : UInt16) : CustomerEvent :=
  .packet home seq (buildHello samplePrimitives alice.password [8]) [11] [] 0

/-- The handshake is completed and a keepalive follows. -/
def keepaliveAt (seq : UInt16) : List CustomerEvent :=
  List.replicate 3 (.turn .recv) ++ takes seq (keepaliveOf (sessionOf [8] [11])) []

/-- The states from a new handshake at `seq` to the keepalive that follows it. -/
def reconnects (seq : UInt16) : List Served :=
  states (Served.step sampleAead samplePrimitives banConfig alice)
    (run (Served.step sampleAead samplePrimitives banConfig alice) (Served.start banConfig)
      (firstSession ++ [helloAt seq])) (keepaliveAt (seq + 1))

/-- The client restarts and counts from 1: the new session is dropped at its first
packet. -/
theorem restarted_client_is_dropped : ∃ l ∈ reconnects 1, .dropSession ∈ l.recv := by
  decide +kernel

/-- A client that reconnects without a restart keeps its session. -/
theorem comeback_resumed :
    reconnects 60001 ≠ [] ∧ ∀ l ∈ reconnects 60001, Survives (sessionOf [8] [11]) l := by
  have he : ∀ e ∈ keepaliveAt 60002, OfSession sampleAead (sessionOf [8] [11]) e := by
    simp only [keepaliveAt, takes, List.replicate, List.cons_append, List.nil_append,
      List.forall_mem_cons, OfSession, true_and]
    exact ⟨⟨rfl, nonceFrom 0, keepalive, rfl, by decide, rfl⟩, nofun⟩
  have hans : answerHello samplePrimitives alice.password
      (signedKey samplePrimitives alice.password [8] []) [11]
        = some (pad32 [8], (sessionOf [8] [11]).key) := by decide +kernel
  exact ⟨by decide +kernel,
    (comeback_iff sampleAead samplePrimitives banConfig alice firstSession (by decide +kernel)
      hans he (by decide +kernel) (n := 0) rfl).2 (by decide +kernel)⟩

end Simorgh.Tunnel
