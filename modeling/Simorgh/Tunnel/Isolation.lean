import Simorgh.Tunnel.Customers

/-!
# Customers of one server do not affect each other

* `run_customer` — along every run a customer goes through its own events only, as if
  the server had no other customer.
* `Justified` — what the receive loop is about to write was decoded just now, from a
  packet that opens under the customer's session.
* `customer_isolation` — two runs that agree on a customer's events leave it in one
  state, with the same writes.
-/

namespace Simorgh.Tunnel

open Simorgh.Lib

section Isolation

variable {A : Aead} {P : Primitives} {cfg : Config}

/-! ## One customer's events -/

/-- The events of the customer with a session id. -/
def eventsOf (sessID : UInt16) (events : List ServerEvent) : List CustomerEvent :=
  actionsOf sessID (events.filterMap ServerEvent.route)

theorem run_route (s : ServerState) (events : List ServerEvent) :
    run (runServerMulti A P cfg) s events
      = run (stepAt fun _ => serve A P cfg) s (events.filterMap ServerEvent.route) := by
  induction events generalizing s with
  | nil => rfl
  | cons e events ih =>
      rw [run_cons, ih, List.filterMap_cons, runServerMulti]
      cases e.route with
      | none => rfl
      | some a => rfl

/-- A customer is served from its own events. -/
theorem run_serve (c : Customer) (l : Served) (events : List CustomerEvent) :
    run (serve A P cfg) (c, l) events = (c, run (Served.step A P cfg c) l events) := by
  induction events generalizing l with
  | nil => rfl
  | cons e events ih => exact ih _

/-- A server's customer, as if there were no other. -/
theorem run_customer {list : List (Option Entry)} {customers : List Customer}
    (h : loadCustomers P list = .ok customers) {c : Customer} (hc : c ∈ customers)
    (events : List ServerEvent) :
    run (runServerMulti A P cfg) (startServer cfg customers) events c.sessID
      = some (c, run (Served.step A P cfg c) (Served.start cfg) (eventsOf c.sessID events)) := by
  rw [run_route, run_stepAt, startServer_sessID cfg (sessID_injective h) hc, Option.map_some,
    run_serve]
  rfl

/-- What an event does to a customer: nothing, or the step of one of its events. -/
theorem customer_step {s : ServerState} {e : ServerEvent} {id : UInt16} {c : Customer}
    {l' : Served} (h : runServerMulti A P cfg s e id = some (c, l')) :
    ∃ l, s id = some (c, l) ∧ (l' = l ∨ ∃ e', l' = l.step A P cfg c e') := by
  rw [runServerMulti] at h
  cases hroute : e.route with
  | none =>
      rw [hroute] at h
      exact ⟨l', h, Or.inl rfl⟩
  | some a =>
      rw [hroute] at h
      simp only [stepAt] at h
      split at h
      · obtain ⟨x, hx, heq⟩ := Option.map_eq_some_iff.1 h
        cases heq
        exact ⟨x.2, hx, Or.inr ⟨a.2, rfl⟩⟩
      · exact ⟨l', h, Or.inl rfl⟩

/-! ## Envelopes bear the customer's session id -/

/-- The session id an envelope bears. -/
def sessIDOf (envelope : Bytes) : Option UInt16 := (splitEnvelope envelope).map fun e => e.1

theorem sessIDOf_build (sessID seq : UInt16) (body : Bytes) :
    sessIDOf (buildEnvelope sessID seq body) = some sessID := by
  rw [sessIDOf, splitEnvelope_build, Option.map_some]

/-- What it sends has this session id. -/
def RecvOp.Stamped (sessID : UInt16) : RecvOp → Prop
  | .send _ envelope => sessIDOf envelope = some sessID
  | _ => True

/-- What it sends has this session id. -/
def OutOp.Stamped (sessID : UInt16) : OutOp → Prop
  | .send _ envelope => sessIDOf envelope = some sessID
  | _ => True

/-- Everything sent or about to be sent for a customer bears its session id. -/
structure Stamped (c : Customer) (l : Served) : Prop where
  sent : ∀ d ∈ l.state.sent, sessIDOf d.2 = some c.sessID
  recv : ∀ op ∈ l.recv, op.Stamped c.sessID
  reader : ∀ op ∈ l.reader, op.Stamped c.sessID
  ticker : ∀ op ∈ l.ticker, op.Stamped c.sessID

/-- What is sent goes out as it was handed to `send`, and `nextSeq` puts the customer's
session id on it. -/
theorem outOp_sent (A : Aead) (cfg : Config) (c : Customer) (s : CustomerState) (op : OutOp) :
    ((s.outOp A cfg c op).1.sent = s.sent ∨
        ∃ dest envelope, op = .send dest envelope ∧
          (s.outOp A cfg c op).1.sent = s.sent ++ [(dest, envelope)]) ∧
      ∀ o ∈ (s.outOp A cfg c op).2, o.Stamped c.sessID := by
  cases op with
  | nextSeq dest body =>
      refine ⟨Or.inl rfl, fun o ho => ?_⟩
      rw [List.mem_singleton.1 ho]
      exact sessIDOf_build ..
  | send dest envelope => exact ⟨Or.inr ⟨dest, envelope, rfl, rfl⟩, fun o ho => nomatch ho⟩
  | stamp sess groupID index complete frame nonce parityNonce =>
      simp only [CustomerState.outOp]
      split
      · exact ⟨Or.inl rfl, fun o ho => nomatch ho⟩
      · cases complete <;> exact ⟨Or.inl rfl, by simp [OutOp.Stamped]⟩
  | countOut n => exact ⟨Or.inl rfl, fun o ho => nomatch ho⟩
  | setGroupSize n => exact ⟨Or.inl rfl, fun o ho => nomatch ho⟩
  | gc now => exact ⟨Or.inl rfl, fun o ho => nomatch ho⟩
  | loadRecvQuality nonce => exact ⟨Or.inl rfl, by simp [CustomerState.outOp, OutOp.Stamped]⟩
  | loadForData frame nonce parityNonce =>
      simp only [CustomerState.outOp]
      split <;> exact ⟨Or.inl rfl, by simp [OutOp.Stamped]⟩
  | add sess frame nonce parityNonce =>
      simp only [CustomerState.outOp]
      split <;> exact ⟨Or.inl rfl, by simp [OutOp.Stamped]⟩
  | flush sess nonce =>
      simp only [CustomerState.outOp]
      split <;> exact ⟨Or.inl rfl, by simp [OutOp.Stamped]⟩
  | loadForClose nonce =>
      simp only [CustomerState.outOp]
      split <;> exact ⟨Or.inl rfl, by simp [OutOp.Stamped]⟩
  | loadForKeepalive pct nonce =>
      simp only [CustomerState.outOp]
      split <;> exact ⟨Or.inl rfl, by simp [OutOp.Stamped]⟩
  | loadPeerQuality =>
      simp only [CustomerState.outOp]
      split <;> exact ⟨Or.inl rfl, by simp [OutOp.Stamped]⟩

theorem stamped_send {s : CustomerState} {id : UInt16} {dest : Addr} {envelope : Bytes}
    (hs : ∀ d ∈ s.sent, sessIDOf d.2 = some id) (h : sessIDOf envelope = some id) :
    ∀ d ∈ (s.send dest envelope).sent, sessIDOf d.2 = some id := by
  intro d hd
  rcases List.mem_append.1 hd with hd | hd
  · exact hs d hd
  · rw [List.mem_singleton.1 hd]
    exact h

theorem recvOp_stamped {c : Customer} {s : CustomerState} {op : RecvOp}
    (hs : ∀ d ∈ s.sent, sessIDOf d.2 = some c.sessID) (hop : op.Stamped c.sessID) :
    (∀ d ∈ (s.recvOp c op).1.sent, sessIDOf d.2 = some c.sessID) ∧
      ∀ o ∈ (s.recvOp c op).2, o.Stamped c.sessID := by
  cases op with
  | nextSeq dest body =>
      refine ⟨hs, fun o ho => ?_⟩
      rw [List.mem_singleton.1 ho]
      exact sessIDOf_build ..
  | send dest envelope => exact ⟨stamped_send hs hop, fun o ho => nomatch ho⟩
  | decode plain now =>
      refine ⟨hs, fun o ho => ?_⟩
      obtain ⟨frame, -, rfl⟩ := List.mem_map.1 ho
      trivial
  | storeSession sess => exact ⟨hs, fun o ho => nomatch ho⟩
  | dropSession => exact ⟨hs, fun o ho => nomatch ho⟩
  | storeRecvQuality pct => exact ⟨hs, fun o ho => nomatch ho⟩
  | storePeerQuality pct => exact ⟨hs, fun o ho => nomatch ho⟩
  | closeSink => exact ⟨hs, fun o ho => nomatch ho⟩
  | writeFrame frame => exact ⟨hs, fun o ho => nomatch ho⟩

theorem outOp_stamped {c : Customer} {s : CustomerState} {op : OutOp}
    (hs : ∀ d ∈ s.sent, sessIDOf d.2 = some c.sessID) (hop : op.Stamped c.sessID) :
    (∀ d ∈ (s.outOp A cfg c op).1.sent, sessIDOf d.2 = some c.sessID) ∧
      ∀ o ∈ (s.outOp A cfg c op).2, o.Stamped c.sessID := by
  obtain ⟨hsent, hops⟩ := outOp_sent A cfg c s op
  refine ⟨?_, hops⟩
  rcases hsent with hsent | ⟨dest, envelope, rfl, hsent⟩
  · rw [hsent]
    exact hs
  · exact stamped_send hs hop

theorem handleSessionPlain_stamped (sess : Session) (plain nonce : Bytes) (now : Int)
    (id : UInt16) : ∀ op ∈ handleSessionPlain A sess plain nonce now, op.Stamped id := by
  cases plain with
  | nil => simp [handleSessionPlain]
  | cons kind rest =>
      simp only [handleSessionPlain]
      repeat' split
      all_goals simp [RecvOp.Stamped]

theorem judge_stamped {c : Customer} (s : CustomerState) (src : Addr) (seq : UInt16)
    (body priv nonce : Bytes) (now : Int) :
    (s.judge A P c src seq body priv nonce now).1.sent = s.sent ∧
      ∀ op ∈ (s.judge A P c src seq body priv nonce now).2, op.Stamped c.sessID := by
  rcases @judge_cases A P c s src seq body priv nonce now with h | h | ⟨sess, plain, -, -, -, h⟩
  · rw [h]
    exact ⟨rfl, fun op hop => nomatch hop⟩
  · rw [h, handleCustomerHello]
    refine ⟨rfl, ?_⟩
    split <;> simp [RecvOp.Stamped]
  · rw [h, CustomerState.judgeOpened]
    refine ⟨rfl, ?_⟩
    rw [List.forall_mem_cons]
    refine ⟨trivial, ?_⟩
    split
    · simp [RecvOp.Stamped]
    · exact handleSessionPlain_stamped sess plain nonce now c.sessID

theorem Stamped.step {c : Customer} {l : Served} (h : Stamped c l) (e : CustomerEvent) :
    Stamped c (l.step A P cfg c e) := by
  cases e with
  | packet src seq body priv nonce now =>
      simp only [Served.step]
      split
      · obtain ⟨hsent, hops⟩ := @judge_stamped A P c l.state src seq body priv nonce now
        exact ⟨by rw [hsent]; exact h.sent, hops, h.reader, h.ticker⟩
      · exact h
  | frame frame nonce parityNonce =>
      simp only [Served.step]
      split
      · exact ⟨h.sent, h.recv, by simp [OutOp.Stamped], h.ticker⟩
      · exact h
  | readError nonce =>
      simp only [Served.step]
      split
      · exact ⟨h.sent, h.recv, by simp [OutOp.Stamped], h.ticker⟩
      · exact h
  | tick nonce now =>
      simp only [Served.step]
      split
      · exact ⟨h.sent, h.recv, h.reader, by simp [OutOp.Stamped]⟩
      · exact h
  | turn thread =>
      cases thread with
      | recv =>
          cases hl : l.recv with
          | nil => simpa only [Served.step, hl] using h
          | cons op rest =>
              have hrecv := h.recv
              rw [hl, List.forall_mem_cons] at hrecv
              obtain ⟨hsent, hops⟩ := recvOp_stamped h.sent hrecv.1
              simp only [Served.step, hl]
              exact ⟨hsent, List.forall_mem_append.2 ⟨hops, hrecv.2⟩, h.reader, h.ticker⟩
      | reader =>
          cases hl : l.reader with
          | nil => simpa only [Served.step, hl] using h
          | cons op rest =>
              have hreader := h.reader
              rw [hl, List.forall_mem_cons] at hreader
              obtain ⟨hsent, hops⟩ := @outOp_stamped A cfg _ _ _ h.sent hreader.1
              simp only [Served.step, hl]
              exact ⟨hsent, h.recv, List.forall_mem_append.2 ⟨hops, hreader.2⟩, h.ticker⟩
      | ticker =>
          cases hl : l.ticker with
          | nil => simpa only [Served.step, hl] using h
          | cons op rest =>
              have hticker := h.ticker
              rw [hl, List.forall_mem_cons] at hticker
              obtain ⟨hsent, hops⟩ := @outOp_stamped A cfg _ _ _ h.sent hticker.1
              simp only [Served.step, hl]
              exact ⟨hsent, h.recv, h.reader, List.forall_mem_append.2 ⟨hops, hticker.2⟩⟩

theorem stamped_start (c : Customer) (cfg : Config) : Stamped c (Served.start cfg) := by
  constructor <;> simp [Served.start, newCustomerState]

/-! ## What is written came in a packet of the session -/

/-- The frame of a data packet, or the one the decoder recovers with a parity packet. -/
def Carries (fecDec : Option FecDecoder) (plain frame : Bytes) : Prop :=
  (∃ rest groupID index groupSize, plain = pktData :: rest ∧
      parseData rest = some (groupID, index, groupSize, frame)) ∨
    ∃ d rest groupID groupSize parity, fecDec = some d ∧ plain = pktParity :: rest ∧
      parseParity rest = some (groupID, groupSize, parity) ∧
      (d.onParity groupID groupSize parity).2 = some frame

theorem carries_of_handlePlain {plain frame : Bytes} {fecDec : Option FecDecoder} {now : Int}
    (h : (handlePlain plain fecDec now).2 = some frame) : Carries fecDec plain frame := by
  cases plain with
  | nil => cases h
  | cons kind rest =>
      simp only [handlePlain] at h
      split at h
      · cases h
      split at h
      case isTrue hkind =>
        cases hp : parseData rest with
        | none =>
            rw [hp] at h
            cases h
        | some r =>
            obtain ⟨groupID, index, groupSize, f⟩ := r
            rw [hp] at h
            cases h
            exact Or.inl ⟨rest, groupID, index, groupSize, by rw [hkind], hp⟩
      case isFalse =>
        split at h
        case isTrue hkind =>
          cases fecDec with
          | none => cases h
          | some d =>
              cases hp : parseParity rest with
              | none =>
                  rw [hp] at h
                  cases h
              | some r =>
                  obtain ⟨groupID, groupSize, parity⟩ := r
                  rw [hp] at h
                  exact Or.inr ⟨d, rest, groupID, groupSize, parity, rfl, by rw [hkind], hp, h⟩
        · cases h

/-- The datagram the loop holds opens to a plaintext under a session and comes from the
session's peer. -/
def Opened (A : Aead) (current : Option Session) (handling : Option (Addr × Bytes))
    (plain : Bytes) : Prop :=
  ∃ sess body, current = some sess ∧ handling = some (sess.peer, body) ∧
    openBody A sess.key body = some plain

/-- The access writes nothing to the sink. -/
def RecvOp.Harmless : RecvOp → Prop
  | .decode .. => False
  | .writeFrame _ => False
  | _ => True

/-- The access leaves the session alone, and decodes nothing but the datagram at hand. -/
def RecvOp.Backed (A : Aead) (current : Option Session) (handling : Option (Addr × Bytes)) :
    RecvOp → Prop
  | .storeSession _ => False
  | .dropSession => False
  | .decode plain _ => Opened A current handling plain
  | .writeFrame _ => False
  | _ => True

section History

variable (A P cfg) (c : Customer)

/-- The customer after its events. -/
def servedBy (events : List CustomerEvent) : Served :=
  run (Served.step A P cfg c) (Served.start cfg) events

/-- The last access of the receive loop decoded the plaintext, and the frame is what the
decoder of that moment made of it. -/
def DecodedLast (past : List CustomerEvent) (plain frame : Bytes) : Prop :=
  ∃ earlier later now rest, past = earlier ++ .turn .recv :: later ∧ .turn .recv ∉ later ∧
    (servedBy A P cfg c earlier).recv = .decode plain now :: rest ∧
    Carries (servedBy A P cfg c earlier).state.fecDec plain frame

/-- What the loop has left to do: nothing that reaches the sink, or what a packet of the
session asks, the writing of the frame just decoded first. -/
def Justified (past : List CustomerEvent) (l : Served) : Prop :=
  (∀ op ∈ l.recv, op.Harmless) ∨ (∀ op ∈ l.recv, op.Backed A l.state.current l.handling) ∨
    ∃ frame plain rest, l.recv = .writeFrame frame :: rest ∧
      Opened A l.state.current l.handling plain ∧ DecodedLast A P cfg c past plain frame ∧
      ∀ op ∈ rest, op.Backed A l.state.current l.handling

end History

theorem servedBy_append (c : Customer) (past : List CustomerEvent) (e : CustomerEvent) :
    servedBy A P cfg c (past ++ [e]) = (servedBy A P cfg c past).step A P cfg c e :=
  run_append _ _ _

theorem DecodedLast.append {c : Customer} {past : List CustomerEvent} {plain frame : Bytes}
    (h : DecodedLast A P cfg c past plain frame) {e : CustomerEvent} (he : e ≠ .turn .recv) :
    DecodedLast A P cfg c (past ++ [e]) plain frame := by
  obtain ⟨earlier, later, now, rest, rfl, hlater, hrecv, hcarries⟩ := h
  refine ⟨earlier, later ++ [e], now, rest, by simp, ?_, hrecv, hcarries⟩
  simp [hlater, he.symm]

/-- An event that is none of the loop's accesses, and leaves the session, the datagram at
hand and the loop's accesses alone. -/
theorem Justified.append {c : Customer} {past : List CustomerEvent} {l l' : Served}
    (h : Justified A P cfg c past l) {e : CustomerEvent} (he : e ≠ .turn .recv)
    (hrecv : l'.recv = l.recv) (hhandling : l'.handling = l.handling)
    (hcur : l'.state.current = l.state.current) :
    Justified A P cfg c (past ++ [e]) l' := by
  rw [Justified, hrecv, hhandling, hcur]
  rcases h with h | h | ⟨frame, plain, rest, hl, hopened, hdecoded, hrest⟩
  · exact Or.inl h
  · exact Or.inr (Or.inl h)
  · exact Or.inr (Or.inr ⟨frame, plain, rest, hl, hopened, hdecoded.append he, hrest⟩)

/-- The sink reader and the ticker leave the session, the quality and the sink alone. -/
theorem outOp_frame (c : Customer) (s : CustomerState) (op : OutOp) :
    (s.outOp A cfg c op).1.current = s.current ∧ (s.outOp A cfg c op).1.quality = s.quality ∧
      (s.outOp A cfg c op).1.sink = s.sink := by
  cases op
  case loadForData | add | stamp | flush | loadForClose | loadForKeepalive | loadPeerQuality =>
    simp only [CustomerState.outOp]
    split <;> exact ⟨rfl, rfl, rfl⟩
  all_goals exact ⟨rfl, rfl, rfl⟩

theorem harmless_recvOp {c : Customer} (s : CustomerState) {op : RecvOp} (h : op.Harmless) :
    ∀ o ∈ (s.recvOp c op).2, o.Harmless := by
  cases op with
  | decode plain now => cases h
  | writeFrame frame => cases h
  | nextSeq dest body => simp [CustomerState.recvOp, RecvOp.Harmless]
  | _ => simp [CustomerState.recvOp]

/-- A backed access that decodes nothing leads to backed ones. -/
theorem backed_recvOp {c : Customer} {s : CustomerState} {handling : Option (Addr × Bytes)}
    {op : RecvOp} (h : op.Backed A s.current handling) (hop : ∀ plain now, op ≠ .decode plain now) :
    (s.recvOp c op).1.current = s.current ∧
      ∀ o ∈ (s.recvOp c op).2, o.Backed A s.current handling := by
  cases op with
  | storeSession sess => cases h
  | dropSession => cases h
  | decode plain now => exact absurd rfl (hop plain now)
  | writeFrame frame => cases h
  | nextSeq dest body => exact ⟨rfl, by simp [CustomerState.recvOp, RecvOp.Backed]⟩
  | _ => exact ⟨rfl, by simp [CustomerState.recvOp]⟩

theorem handleSessionPlain_backed {sess : Session} {body plain : Bytes}
    (ho : openBody A sess.key body = some plain) (nonce : Bytes) (now : Int) :
    ∀ op ∈ handleSessionPlain A sess plain nonce now,
      op.Backed A (some sess) (some (sess.peer, body)) := by
  have hopened : Opened A (some sess) (some (sess.peer, body)) plain := ⟨sess, body, rfl, rfl, ho⟩
  cases plain with
  | nil => simp [handleSessionPlain]
  | cons kind rest =>
      simp only [handleSessionPlain]
      repeat' split
      all_goals simp [RecvOp.Backed, hopened]

/-- An access of the receive loop. -/
theorem Justified.turn {c : Customer} {past : List CustomerEvent} {op : RecvOp}
    {rest : List RecvOp} (hl : (servedBy A P cfg c past).recv = op :: rest)
    (h : Justified A P cfg c past (servedBy A P cfg c past)) :
    Justified A P cfg c (past ++ [.turn .recv]) (servedBy A P cfg c (past ++ [.turn .recv])) := by
  have hnext : servedBy A P cfg c (past ++ [.turn .recv])
      = { servedBy A P cfg c past with
          state := ((servedBy A P cfg c past).state.recvOp c op).1
          recv := ((servedBy A P cfg c past).state.recvOp c op).2 ++ rest } := by
    simp only [servedBy_append, Served.step, hl]
  rw [Justified, hl] at h
  rw [hnext]
  rcases h with h | h | ⟨frame, plain, rest', heq, -, -, hrest⟩
  · rw [List.forall_mem_cons] at h
    exact Or.inl (List.forall_mem_append.2 ⟨harmless_recvOp _ h.1, h.2⟩)
  · rw [List.forall_mem_cons] at h
    by_cases hop : ∃ plain now, op = .decode plain now
    · obtain ⟨plain, now, rfl⟩ := hop
      -- the decoder gives a frame, which is written next, or nothing
      cases hframe : (handlePlain plain (servedBy A P cfg c past).state.fecDec now).2 with
      | none => exact Or.inr (Or.inl (by simpa [CustomerState.recvOp, hframe] using h.2))
      | some frame =>
          refine Or.inr (Or.inr ⟨frame, plain, rest, ?_, h.1, ?_, h.2⟩)
          · simp [CustomerState.recvOp, hframe]
          · exact ⟨past, [], now, rest, rfl, List.not_mem_nil, hl, carries_of_handlePlain hframe⟩
    · obtain ⟨hcur, hops⟩ := @backed_recvOp A c _ _ _ h.1 fun plain now heq => hop ⟨plain, now, heq⟩
      refine Or.inr (Or.inl ?_)
      simp only [hcur]
      exact List.forall_mem_append.2 ⟨hops, h.2⟩
  · cases heq
    exact Or.inr (Or.inl hrest)

theorem Justified.step {c : Customer} {past : List CustomerEvent}
    (h : Justified A P cfg c past (servedBy A P cfg c past)) (e : CustomerEvent) :
    Justified A P cfg c (past ++ [e]) (servedBy A P cfg c (past ++ [e])) := by
  cases e with
  | packet src seq body priv nonce now =>
      rw [servedBy_append]
      simp only [Served.step]
      split
      · rcases @judge_cases A P c (servedBy A P cfg c past).state src seq body priv nonce now with
          hj | hj | ⟨sess, plain, hc, rfl, ho, hj⟩
        · rw [hj]
          exact Or.inl fun op hop => nomatch hop
        · rw [hj, handleCustomerHello]
          refine Or.inl ?_
          split <;> simp [RecvOp.Harmless]
        · rw [hj, CustomerState.judgeOpened]
          by_cases hban : ((servedBy A P cfg c past).state.quality.observe seq).2.2 = true
          · refine Or.inl ?_
            simp [hban, RecvOp.Harmless]
          · refine Or.inr (Or.inl ?_)
            simp only [hban, Bool.false_eq_true, if_false, hc]
            rw [List.forall_mem_cons]
            exact ⟨trivial, handleSessionPlain_backed ho nonce now⟩
      · exact h.append (by simp) rfl rfl rfl
  | frame frame nonce parityNonce =>
      rw [servedBy_append]
      refine h.append (by simp) ?_ ?_ ?_ <;> simp only [Served.step] <;> split <;> rfl
  | readError nonce =>
      rw [servedBy_append]
      refine h.append (by simp) ?_ ?_ ?_ <;> simp only [Served.step] <;> split <;> rfl
  | tick nonce now =>
      rw [servedBy_append]
      refine h.append (by simp) ?_ ?_ ?_ <;> simp only [Served.step] <;> split <;> rfl
  | turn thread =>
      cases thread with
      | recv =>
          cases hl : (servedBy A P cfg c past).recv with
          | nil =>
              rw [servedBy_append]
              exact Or.inl (by simp [Served.step, hl])
          | cons op rest => exact h.turn hl
      | reader =>
          rw [servedBy_append]
          cases hl : (servedBy A P cfg c past).reader with
          | nil =>
              exact h.append (by simp) (by simp only [Served.step, hl])
                (by simp only [Served.step, hl]) (by simp only [Served.step, hl])
          | cons op rest =>
              exact h.append (by simp) (by simp only [Served.step, hl])
                (by simp only [Served.step, hl])
                (by simpa only [Served.step, hl] using (@outOp_frame A cfg c _ op).1)
      | ticker =>
          rw [servedBy_append]
          cases hl : (servedBy A P cfg c past).ticker with
          | nil =>
              exact h.append (by simp) (by simp only [Served.step, hl])
                (by simp only [Served.step, hl]) (by simp only [Served.step, hl])
          | cons op rest =>
              exact h.append (by simp) (by simp only [Served.step, hl])
                (by simp only [Served.step, hl])
                (by simpa only [Served.step, hl] using (@outOp_frame A cfg c _ op).1)

/-- Along every run of a customer what the loop is about to write is justified. -/
theorem justified_servedBy (c : Customer) (past : List CustomerEvent) :
    Justified A P cfg c past (servedBy A P cfg c past) := by
  induction past using List.reverseRecOn with
  | nil => exact Or.inl fun op hop => absurd hop List.not_mem_nil
  | append_singleton past e ih => exact ih.step e

/-- From `l` to `l'` the sink is left alone or told to close, or a frame is written: that
of a packet opened under the current session, from its peer, as the loop's last access
decoded it. -/
def WrittenFromSession (A : Aead) (P : Primitives) (cfg : Config) (c : Customer)
    (past : List CustomerEvent) (l l' : Served) : Prop :=
  l'.state.sink = l.state.sink ∨ l'.state.sink = l.state.sink ++ [.closeCurrent] ∨
    ∃ frame plain, l'.state.sink = l.state.sink ++ [.write frame] ∧
      Opened A l.state.current l.handling plain ∧ DecodedLast A P cfg c past plain frame

theorem Justified.written {c : Customer} {past : List CustomerEvent} {l : Served}
    (h : Justified A P cfg c past l) (e : CustomerEvent) :
    WrittenFromSession A P cfg c past l (l.step A P cfg c e) := by
  cases e with
  | packet src seq body priv nonce now =>
      simp only [Served.step]
      split
      · rcases @judge_cases A P c l.state src seq body priv nonce now with
          hj | hj | ⟨sess, plain, -, -, -, hj⟩ <;> rw [hj] <;> exact Or.inl rfl
      · exact Or.inl rfl
  | frame frame nonce parityNonce =>
      simp only [Served.step]
      split <;> exact Or.inl rfl
  | readError nonce =>
      simp only [Served.step]
      split <;> exact Or.inl rfl
  | tick nonce now =>
      simp only [Served.step]
      split <;> exact Or.inl rfl
  | turn thread =>
      cases thread with
      | recv =>
          cases hl : l.recv with
          | nil => exact Or.inl (by simp only [Served.step, hl])
          | cons op rest =>
              simp only [Served.step, hl]
              cases op with
              | closeSink => exact Or.inr (Or.inl rfl)
              | writeFrame frame =>
                  refine Or.inr (Or.inr ?_)
                  rw [Justified, hl] at h
                  rcases h with h | h | ⟨frame', plain, rest', heq, hopened, hdecoded, -⟩
                  · exact (h (.writeFrame frame) List.mem_cons_self).elim
                  · exact (h (.writeFrame frame) List.mem_cons_self).elim
                  · cases heq
                    exact ⟨frame, plain, rfl, hopened, hdecoded⟩
              | _ => exact Or.inl rfl
      | reader =>
          refine Or.inl ?_
          cases hl : l.reader with
          | nil => simp only [Served.step, hl]
          | cons op rest => simpa only [Served.step, hl] using (@outOp_frame A cfg c l.state op).2.2
      | ticker =>
          refine Or.inl ?_
          cases hl : l.ticker with
          | nil => simp only [Served.step, hl]
          | cons op rest => simpa only [Served.step, hl] using (@outOp_frame A cfg c l.state op).2.2

/-! ## The server -/

/-- Every customer is kept under its own session id, with what it sends stamped. -/
def Kept (s : ServerState) : Prop := ∀ id c l, s id = some (c, l) → c.sessID = id ∧ Stamped c l

theorem kept_start (cfg : Config) (customers : List Customer) :
    Kept (startServer cfg customers) := by
  have hfold : ∀ (states : ServerState), Kept states →
      Kept (customers.foldl (addCustomer cfg) states) := by
    induction customers with
    | nil => exact fun _ h => h
    | cons d customers ih =>
        intro states hstates
        refine ih _ fun id c l hl => ?_
        rw [addCustomer] at hl
        split at hl
        case isTrue hid =>
          cases hl
          exact ⟨hid, stamped_start d cfg⟩
        · exact hstates id c l hl
  exact hfold _ fun id c l hl => by cases hl

theorem Kept.step {s : ServerState} (h : Kept s) (e : ServerEvent) :
    Kept (runServerMulti A P cfg s e) := by
  intro id c l' hl'
  obtain ⟨l, hl, heq⟩ := customer_step hl'
  obtain ⟨hid, hst⟩ := h id c l hl
  rcases heq with rfl | ⟨e', rfl⟩
  · exact ⟨hid, hst⟩
  · exact ⟨hid, hst.step e'⟩

/-- What an address has been sent, for whichever customer. -/
def datagramsTo (customers : List Customer) (s : ServerState) (addr : Addr) : List Bytes :=
  customers.flatMap fun c =>
    match s c.sessID with
    | none => []
    | some x => (x.2.state.sent.filter fun d => d.1 = addr).map Prod.snd

/-- The datagrams of one member of a family, picked out of all by their mark. -/
theorem flatMap_of_mark {ι β : Type} [DecidableEq ι] {list : List ι} {f : ι → List β} {i : ι}
    (hnd : list.Nodup) (hi : i ∈ list) (hf : ∀ j ∈ list, j ≠ i → f j = []) :
    list.flatMap f = f i := by
  obtain ⟨pre, post, rfl⟩ := List.append_of_mem hi
  rw [List.nodup_middle, List.nodup_cons, List.mem_append, not_or] at hnd
  have hpre : pre.flatMap f = [] := by
    rw [List.flatMap_eq_nil_iff]
    exact fun j hj => hf j (List.mem_append_left _ hj) fun h => hnd.1.1 (h ▸ hj)
  have hpost : post.flatMap f = [] := by
    rw [List.flatMap_eq_nil_iff]
    exact fun j hj => hf j (List.mem_append_right _ (List.mem_cons_of_mem _ hj))
      fun h => hnd.1.2 (h ▸ hj)
  rw [List.flatMap_append, List.flatMap_cons, hpre, hpost, List.nil_append, List.append_nil]

/-- Of what an address has been sent, the datagrams that bear a customer's id are those
sent for the customer. -/
theorem Kept.datagramsTo_filter {s : ServerState} (h : Kept s) {customers : List Customer}
    (hnd : (customers.map Customer.sessID).Nodup) {c : Customer} (hc : c ∈ customers)
    {l : Served} (hl : s c.sessID = some (c, l)) (addr : Addr) :
    (datagramsTo customers s addr).filter (fun d => sessIDOf d = some c.sessID)
      = (l.state.sent.filter fun d => d.1 = addr).map Prod.snd := by
  have hstamp : ∀ id d m, s id = some (d, m) →
      ∀ x ∈ (m.state.sent.filter fun d => d.1 = addr).map Prod.snd, sessIDOf x = some id := by
    intro id d m hm x hx
    obtain ⟨hid, hst⟩ := h id d m hm
    obtain ⟨y, hy, rfl⟩ := List.mem_map.1 hx
    rw [← hid]
    exact hst.sent y (List.mem_of_mem_filter hy)
  rw [datagramsTo, List.filter_flatMap, flatMap_of_mark (List.Nodup.of_map _ hnd) hc]
  · simp only [hl]
    rw [List.filter_eq_self]
    exact fun x hx => decide_eq_true (hstamp _ _ _ hl x hx)
  · intro d hd hne
    rw [List.filter_eq_nil_iff]
    intro x hx heq
    cases hs : s d.sessID with
    | none =>
        rw [hs] at hx
        cases hx
    | some y =>
        rw [hs] at hx
        have hid := hstamp _ _ _ hs x hx
        rw [of_decide_eq_true heq] at hid
        exact hne (List.inj_on_of_nodup_map hnd hd hc (Option.some.inj hid).symm)

/-- One more event of the server is one more of the customer's, or none. -/
theorem eventsOf_append (id : UInt16) (past : List ServerEvent) (e : ServerEvent) :
    eventsOf id (past ++ [e]) = eventsOf id past ∨
      ∃ e', eventsOf id (past ++ [e]) = eventsOf id past ++ [e'] := by
  simp only [eventsOf, actionsOf, List.filterMap_append, List.filterMap_cons, List.filterMap_nil]
  cases e.route with
  | none => exact Or.inl (by simp)
  | some a =>
      by_cases ha : a.1 = id
      · exact Or.inr ⟨a.2, by simp [ha]⟩
      · exact Or.inl (by simp [ha])

/-- Two runs of a server that agree on the events of a customer leave it in one state, with
the same writes to its sink and the same datagrams, whatever happens to the others; and in
every run a frame is written to a customer's sink only while the loop holds a packet that
opened under the customer's current session, from its peer, and just decoded to the
frame. -/
theorem customer_isolation (A : Aead) (P : Primitives) (cfg : Config)
    {list : List (Option Entry)} {customers : List Customer}
    (h : loadCustomers P list = .ok customers) :
    (∀ c ∈ customers, ∀ events events', eventsOf c.sessID events = eventsOf c.sessID events' →
      run (runServerMulti A P cfg) (startServer cfg customers) events c.sessID
          = run (runServerMulti A P cfg) (startServer cfg customers) events' c.sessID ∧
        ∀ addr,
          (datagramsTo customers
              (run (runServerMulti A P cfg) (startServer cfg customers) events) addr).filter
              (fun d => sessIDOf d = some c.sessID)
            = (datagramsTo customers
                (run (runServerMulti A P cfg) (startServer cfg customers) events') addr).filter
                (fun d => sessIDOf d = some c.sessID)) ∧
      ∀ c ∈ customers, ∀ past e l l',
        run (runServerMulti A P cfg) (startServer cfg customers) past c.sessID = some (c, l) →
        run (runServerMulti A P cfg) (startServer cfg customers) (past ++ [e]) c.sessID
          = some (c, l') →
        WrittenFromSession A P cfg c (eventsOf c.sessID past) l l' := by
  have hall : ∀ events,
      AllSteps (runServerMulti A P cfg) (fun _ _ => True) (startServer cfg customers) events :=
    fun events => AllSteps.of_forall (fun _ _ => trivial) _ _
  have hkeep : ∀ events, Kept (run (runServerMulti A P cfg) (startServer cfg customers) events) :=
    fun events => (hall events).invariant (fun s e hs _ => hs.step e) (kept_start cfg customers) _
      (run_mem_states _ _)
  refine ⟨fun c hc events events' heq => ⟨?_, fun addr => ?_⟩, fun c hc past e l l' hl hl' => ?_⟩
  · rw [run_customer h hc, run_customer h hc, heq]
  · have hnd := sessID_injective h
    have h₁ := @run_customer A P cfg list customers h c hc events
    have h₂ := @run_customer A P cfg list customers h c hc events'
    rw [(hkeep events).datagramsTo_filter hnd hc h₁, (hkeep events').datagramsTo_filter hnd hc h₂,
      heq]
  · rw [run_customer h hc] at hl hl'
    cases hl
    cases hl'
    rcases eventsOf_append c.sessID past e with heq | ⟨e', heq⟩
    · rw [heq]
      exact Or.inl rfl
    · rw [heq, run_append]
      exact (justified_servedBy c _).written e'

end Isolation

/-! ## Two customers -/

def twoEntries : List (Option Entry) := [some ⟨"alice", "alpha"⟩, some ⟨"bob", "beta"⟩]

def alice : Customer := ⟨"alice", "alpha", sessionIDFromPassword samplePrimitives "alpha"⟩
def bob : Customer := ⟨"bob", "beta", sessionIDFromPassword samplePrimitives "beta"⟩

theorem load_twoEntries : loadCustomers samplePrimitives twoEntries = .ok [alice, bob] := by
  decide +kernel

def fecConfig : Config := ⟨true, 2, 0⟩

/-- A datagram of a customer from an address, served to its end. -/
def served (c : Customer) (src : Addr) (seq : UInt16) (body priv : Bytes) : List ServerEvent :=
  .datagram src (buildEnvelope c.sessID seq body) priv [] 0 ::
    List.replicate 3 (.turn c.sessID .recv)

def home : Addr := "203.0.113.7"

/-- A customer connects from an address that the other one may share. -/
def connects (c : Customer) : List ServerEvent :=
  served c home 1 (buildHello samplePrimitives c.password [7]) [9]

/-- The session of an exchange between two private keys. -/
def sessionOf (clientPriv serverPriv : Bytes) : Session :=
  ⟨deriveSessionKey samplePrimitives (List.zipWith (· + ·) (pad32 serverPriv) (pad32 clientPriv))
    (pad32 clientPriv) (pad32 serverPriv), home⟩

/-- The first frame of a group of two and the parity of the group. -/
def groupPlains : List Bytes :=
  [(Packet.data 1 0 2 [1]).plain, (Packet.parity 1 2 (0 :: 0 :: 3 :: List.replicate 2045 0)).plain]

/-- Alice connects, and sends a group whose second data packet is lost. -/
def lossyGroup : List ServerEvent :=
  connects alice ++ groupPlains.flatMap fun plain =>
    served alice home 2 (sealBody sampleAead (sessionOf [7] [9]).key (nonceFrom 0) plain) []

def serveTwo (events : List ServerEvent) : ServerState :=
  run (runServerMulti sampleAead samplePrimitives fecConfig) (startServer fecConfig [alice, bob])
    events

/-- When bob connects from the address alice uses, that address receives bob's datagrams
too; and a frame that FEC recovers is written, though no packet carried it. -/
theorem shared_address_and_recovered_frame :
    (eventsOf alice.sessID (connects alice)
        = eventsOf alice.sessID (connects alice ++ connects bob) ∧
      (datagramsTo [alice, bob] (serveTwo (connects alice)) home).length
        ≠ (datagramsTo [alice, bob] (serveTwo (connects alice ++ connects bob)) home).length) ∧
      (serveTwo lossyGroup alice.sessID).map (fun x => x.2.state.sink)
          = some [.write [1], .write [2]] ∧
        ∀ plain ∈ groupPlains, (parseData plain.tail).map (fun r => r.2.2.2) ≠ some [2] := by
  decide +kernel

theorem customer_isolation_two :
    serveTwo (connects alice) alice.sessID
      = serveTwo (connects alice ++ connects bob) alice.sessID :=
  ((customer_isolation sampleAead samplePrimitives fecConfig load_twoEntries).1 alice
    List.mem_cons_self _ _ (by decide +kernel)).1

end Simorgh.Tunnel
