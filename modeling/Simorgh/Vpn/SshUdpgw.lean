import Simorgh.Lib.Bytes
import Simorgh.Lib.Run
import Simorgh.Lib.Table

/-!
# UDP over SSH

A channel to the udpgw port carries datagrams.  Each connection id of the client has a flow: a
socket to the relay and a reader that brings the replies back.  The flows are in a table; a
packet makes the flow it needs, a reaper closes the idle ones, and the end of the channel
closes them all.

* `parseUdpgw`, `Udpgw.forward`, `Udpgw.reap` — the code.
* `Udpgw.step` — packets, readers that stop, the reaper and the end, in any order.
* `Udpgw.Kept` — what holds in every run.
* `flows_alive_iff` — every flow in the table has its reader, in every state of a run, exactly
  when no reader stops while its flow is in the table of a channel that is open.
-/

namespace Simorgh.Vpn.Ssh

open Simorgh.Lib

/-! ## Messages -/

/-- The flags of a message. -/
def udpgwFlagKeepalive : UInt8 := 0x01
/-- The flags of a packet, and the limits of flows. -/
def udpgwFlagRebind : UInt8 := 0x02
def udpgwFlagIPv6 : UInt8 := 0x08
def udpgwFlowIdle : ℤ := 60
def udpgwMaxFlows : ℕ := 256

/-- A message of the client. -/
structure UdpgwPacket where
  rebind : Bool
  conid : UInt8 × UInt8
  destIP : Bytes
  destPort : ℕ
  payload : Bytes

/-- The address of a message and what follows it. -/
def splitAddr (size : ℕ) (rest : Bytes) : Option (Bytes × ℕ × Bytes) :=
  if rest.length < size + 2 then none
  else some (rest.take size, uint16 (rest.getD size 0) (rest.getD (size + 1) 0), rest.drop (size + 2))

/-- What `forwardUdpgw` reads in a message; a keepalive carries no datagram. -/
def parseUdpgw : Bytes → Option UdpgwPacket
  | flags :: c0 :: c1 :: rest =>
      if flags &&& udpgwFlagKeepalive ≠ 0 then none
      else
        (splitAddr (if flags &&& udpgwFlagIPv6 ≠ 0 then 16 else 4) rest).map fun (destIP, destPort, payload) =>
          { rebind := decide (flags &&& udpgwFlagRebind ≠ 0), conid := (c0, c1), destIP := destIP,
            destPort := destPort, payload := payload }
  | _ => none

/-- `binary.LittleEndian.Uint16(conid[:])` -/
def conidKey (conid : UInt8 × UInt8) : ℕ := conid.1.toNat + conid.2.toNat * 2 ^ 8

/-- `buildUdpgwReply`, for the source address as `ParseIP` and `To4` give it. -/
def buildUdpgwReply (conid : UInt8 × UInt8) (v6 : Bool) (addr : Bytes) (srcPort : ℕ) (payload : Bytes) : Bytes :=
  (if v6 then udpgwFlagIPv6 else 0) :: conid.1 :: conid.2 :: (addr ++ putUint16 srcPort ++ payload)

/-- The connection id a reply carries. -/
def replyKey : Bytes → Option ℕ
  | _ :: c0 :: c1 :: _ => some (conidKey (c0, c1))
  | _ => none

/-! ## Flows -/

/-- A flow of the gateway. -/
structure UdpFlow where
  conid : UInt8 × UInt8 := (0, 0)
  lastUse : ℤ := 0
  /-- its sockets have not been closed -/
  isOpen : Bool := false
  /-- `readReplies` is running -/
  reading : Bool := false

/-- An entry of `flows`. -/
structure FlowEntry where
  key : ℕ
  flow : ℕ
  deriving DecidableEq

/-- The gateway of a channel. -/
structure Udpgw where
  table : Table FlowEntry.key := Table.empty
  /-- the flows that were made -/
  flow : ℕ → UdpFlow := fun _ => {}
  next : ℕ := 0
  /-- the loop of `handleUdpgw` is over -/
  ended : Bool := false
  /-- the deferred close of all flows has run -/
  closed : Bool := false

/-- Messages, replies and failures. -/
inductive UdpgwEvent where
  /-- a message, the time, and whether an association can be had for a new flow -/
  | packet (pkt : Bytes) (now : ℤ) (associated : Bool)
  /-- `readReplies` returns: its read or its write has failed -/
  | readerStops (id : ℕ)
  | reap (now : ℤ)
  | endLoop
  | closeFlows

namespace Udpgw

/-- The sockets of a flow are closed. -/
def closeFlow (u : Udpgw) (id : ℕ) : ℕ → UdpFlow :=
  Function.update u.flow id { u.flow id with isOpen := false }

/-- `flags&udpgwFlagRebind`: the flow of the connection id is closed and forgotten. -/
def rebind (u : Udpgw) (p : UdpgwPacket) : Udpgw :=
  match u.table.find? (conidKey p.conid) with
  | some e =>
      if p.rebind then { u with table := u.table.erase e.key, flow := u.closeFlow e.flow } else u
  | none => u

/-- `newUdpFlow` under the key of the connection id. -/
def newUdpFlow (u : Udpgw) (conid : UInt8 × UInt8) (now : ℤ) : Udpgw :=
  { u with
    table := u.table.put ⟨conidKey conid, u.next⟩
    flow := Function.update u.flow u.next { conid := conid, lastUse := now, isOpen := true, reading := true }
    next := u.next + 1 }

/-- `forwardUdpgw`, up to the write to the relay. -/
def forward (u : Udpgw) (p : UdpgwPacket) (now : ℤ) (associated : Bool) : Udpgw :=
  let u := u.rebind p
  match u.table.find? (conidKey p.conid) with
  | some e => { u with flow := Function.update u.flow e.flow { u.flow e.flow with lastUse := now } }
  | none =>
      if udpgwMaxFlows ≤ u.table.rows.length then u
      else if associated then u.newUdpFlow p.conid now else u

/-- The flow was not used for long. -/
def idle (u : Udpgw) (now : ℤ) (e : FlowEntry) : Bool := decide (udpgwFlowIdle < now - (u.flow e.flow).lastUse)

/-- A tick of the reaper. -/
def reap (u : Udpgw) (now : ℤ) : Udpgw :=
  { u with
    table := u.table.deleteWhere (u.idle now)
    flow := fun id =>
      if ∃ e ∈ u.table.rows, u.idle now e = true ∧ e.flow = id then { u.flow id with isOpen := false } else u.flow id }

/-- What `handleUdpgw` does with the flows when it returns. -/
def closeFlows (u : Udpgw) : Udpgw :=
  { u with
    closed := true
    flow := fun id => if ∃ e ∈ u.table.rows, e.flow = id then { u.flow id with isOpen := false } else u.flow id }

/-- One event. -/
def step (u : Udpgw) : UdpgwEvent → Udpgw
  | .packet pkt now associated =>
      if u.ended then u
      else
        match parseUdpgw pkt with
        | some p => u.forward p now associated
        | none => u
  | .readerStops id => { u with flow := Function.update u.flow id { u.flow id with reading := false } }
  | .reap now => u.reap now
  | .endLoop => { u with ended := true }
  | .closeFlows => if u.ended then u.closeFlows else u

/-- Every flow in the table of an open channel has an open socket and a running reader, whose
replies carry the connection id of the entry. -/
def Alive (u : Udpgw) : Prop :=
  u.ended = false → ∀ e ∈ u.table.rows,
    (u.flow e.flow).isOpen = true ∧ (u.flow e.flow).reading = true ∧
      ∀ v6 addr srcPort payload,
        replyKey (buildUdpgwReply (u.flow e.flow).conid v6 addr srcPort payload) = some e.key

/-- When the channel is closed, so are the sockets of all flows there ever were. -/
def Shut (u : Udpgw) : Prop := u.closed = true → ∀ id, (u.flow id).isOpen = false

/-- A reader stops when its flow is not in the table any more, or the channel is at its end. -/
def StopsAfterFlow (u : Udpgw) : UdpgwEvent → Prop
  | .readerStops id => u.ended = false → ∀ e ∈ u.table.rows, e.flow ≠ id
  | _ => True

/-! ## Every run -/

/-- What every run keeps. -/
structure Kept (u : Udpgw) : Prop where
  made : ∀ e ∈ u.table.rows, e.flow < u.next
  apart : ∀ e ∈ u.table.rows, ∀ e' ∈ u.table.rows, e.flow = e'.flow → e = e'
  conid : ∀ e ∈ u.table.rows, conidKey (u.flow e.flow).conid = e.key
  entryOpen : u.closed = false → ∀ e ∈ u.table.rows, (u.flow e.flow).isOpen = true
  openEntry : u.closed = false → ∀ id, (u.flow id).isOpen = true → ∃ e ∈ u.table.rows, e.flow = id
  shut : u.Shut
  ended : u.closed = true → u.ended = true

variable {u : Udpgw}

theorem Kept.start : Kept {} := by
  refine ⟨?_, ?_, ?_, ?_, ?_, ?_, ?_⟩
  · intro e he
    cases he
  · intro e he
    cases he
  · intro e he
    cases he
  · intro _ e he
    cases he
  · intro _ id hopen
    cases hopen
  · intro hclosed
    cases hclosed
  · intro hclosed
    cases hclosed

/-- A change of a flow that leaves its sockets and its connection id alone. -/
theorem Kept.touch (h : Kept u) (id : ℕ) {f : UdpFlow} (hconid : f.conid = (u.flow id).conid)
    (hopen : f.isOpen = (u.flow id).isOpen) : Kept { u with flow := Function.update u.flow id f } := by
  have hsame : ∀ i, (Function.update u.flow id f i).conid = (u.flow i).conid ∧
      (Function.update u.flow id f i).isOpen = (u.flow i).isOpen := by
    intro i
    by_cases hi : i = id
    · subst hi
      rw [Function.update_self]
      exact ⟨hconid, hopen⟩
    · rw [Function.update_of_ne hi]
      exact ⟨rfl, rfl⟩
  refine ⟨h.made, h.apart, fun e he => ?_, fun hclosed e he => ?_, fun hclosed i hi => ?_, fun hclosed i => ?_,
    h.ended⟩
  · exact (congrArg conidKey (hsame e.flow).1).trans (h.conid e he)
  · exact (hsame e.flow).2.trans (h.entryOpen hclosed e he)
  · exact h.openEntry hclosed i ((hsame i).2.symm.trans hi)
  · exact (hsame i).2.trans (h.shut hclosed i)

/-- Flows that are closed and forgotten together. -/
theorem Kept.drop (h : Kept u) (gone : FlowEntry → Bool) :
    Kept { u with
      table := u.table.deleteWhere gone
      flow := fun id =>
        if ∃ e ∈ u.table.rows, gone e = true ∧ e.flow =
          id then { u.flow id with isOpen := false } else u.flow id } := by
  have hstays : ∀ e ∈ (u.table.deleteWhere gone).rows, e ∈ u.table.rows ∧
      ¬ ∃ e' ∈ u.table.rows, gone e' = true ∧ e'.flow = e.flow := by
    intro e he
    obtain ⟨hmem, hkept⟩ := Table.mem_deleteWhere.1 he
    refine ⟨hmem, ?_⟩
    rintro ⟨e', he', hgone, hflow⟩
    rw [h.apart e' he' e hmem hflow, hkept] at hgone
    cases hgone
  refine ⟨fun e he => h.made e (hstays e he).1, fun e he e' he' => h.apart e (hstays e he).1 e' (hstays e' he').1,
    fun e he => ?_, fun hclosed e he => ?_, fun hclosed id hid => ?_, fun hclosed id => ?_, h.ended⟩
  · simp only [if_neg (hstays e he).2]
    exact h.conid e (hstays e he).1
  · simp only [if_neg (hstays e he).2]
    exact h.entryOpen hclosed e (hstays e he).1
  · simp only at hid
    split at hid
    · cases hid
    case isFalse hkept =>
      obtain ⟨e, he, rfl⟩ := h.openEntry hclosed id hid
      refine ⟨e, Table.mem_deleteWhere.2 ⟨he, ?_⟩, rfl⟩
      by_contra hgone
      exact hkept ⟨e, he, by simpa using hgone, rfl⟩
  · simp only
    split
    · rfl
    · exact h.shut hclosed id

theorem Kept.rebind (h : Kept u) (p : UdpgwPacket) : Kept (u.rebind p) := by
  unfold Udpgw.rebind
  split
  case h_1 e he =>
    obtain ⟨hmem, hkey⟩ := Table.find?_some he
    split
    · have hflow : u.closeFlow e.flow = fun id =>
          if ∃ e' ∈ u.table.rows, decide (e'.key = e.key) = true ∧ e'.flow = id then { u.flow id with isOpen := false }
          else u.flow id := by
        funext id
        have hthis : (∃ e' ∈ u.table.rows, decide (e'.key = e.key) = true ∧ e'.flow = id) ↔ id = e.flow := by
          constructor
          · rintro ⟨e', he', hkey, rfl⟩
            rw [Table.eq_of_key_eq he' hmem (of_decide_eq_true hkey)]
          · rintro rfl
            exact ⟨e, hmem, decide_eq_true rfl, rfl⟩
        by_cases hid : id = e.flow
        · rw [if_pos (hthis.2 hid)]
          subst hid
          exact Function.update_self _ _ _
        · rw [if_neg fun hex => hid (hthis.1 hex)]
          exact Function.update_of_ne hid _ _
      rw [hflow]
      exact h.drop _
    · exact h
  case h_2 => exact h

theorem Kept.newUdpFlow (h : Kept u) (hopen : u.ended = false) {conid : UInt8 × UInt8} (now : ℤ)
    (hfree : u.table.find? (conidKey conid) = none) : Kept (u.newUdpFlow conid now) := by
  have hnotclosed : u.closed = false := by
    cases hclosed : u.closed with
    | false => rfl
    | true => rw [h.ended hclosed] at hopen; cases hopen
  have hrows : ∀ e, e ∈ (u.newUdpFlow conid now).table.rows ↔ e = ⟨conidKey conid, u.next⟩ ∨ e ∈ u.table.rows := by
    intro e
    refine Table.mem_put.trans ?_
    constructor
    · rintro (he | he)
      · exact Or.inr he.1
      · exact Or.inl he
    · rintro (he | he)
      · exact Or.inr he
      · exact Or.inl ⟨he, Table.find?_eq_none.1 hfree e he⟩
  have hold : ∀ e ∈ u.table.rows, (u.newUdpFlow conid now).flow e.flow = u.flow e.flow :=
    fun e he => Function.update_of_ne (h.made e he).ne _ _
  have hnew : (u.newUdpFlow conid now).flow u.next =
      { conid := conid, lastUse := now, isOpen := true, reading := true } := Function.update_self _ _ _
  refine ⟨?_, ?_, ?_, ?_, ?_, ?_, h.ended⟩
  · intro e he
    rcases (hrows e).1 he with rfl | he
    · exact Nat.lt_succ_self _
    · exact Nat.lt_succ_of_lt (h.made e he)
  · intro e he e' he' hflow
    rcases (hrows e).1 he with rfl | he
    · rcases (hrows e').1 he' with rfl | he'
      · rfl
      · exact absurd hflow (h.made e' he').ne'
    · rcases (hrows e').1 he' with rfl | he'
      · exact absurd hflow (h.made e he).ne
      · exact h.apart e he e' he' hflow
  · intro e he
    rcases (hrows e).1 he with rfl | he
    · rw [hnew]
    · rw [hold e he]
      exact h.conid e he
  · intro hclosed e he
    rcases (hrows e).1 he with rfl | he
    · rw [hnew]
    · rw [hold e he]
      exact h.entryOpen hclosed e he
  · intro hclosed id hid
    by_cases hthis : id = u.next
    · exact ⟨_, (hrows _).2 (Or.inl rfl), hthis.symm⟩
    · have hflow : (u.newUdpFlow conid now).flow id = u.flow id := Function.update_of_ne hthis _ _
      rw [hflow] at hid
      obtain ⟨e, he, rfl⟩ := h.openEntry hclosed id hid
      exact ⟨e, (hrows e).2 (Or.inr he), rfl⟩
  · intro hclosed
    exact absurd (show u.closed = true from hclosed) (by rw [hnotclosed]; decide)

theorem rebind_ended (u : Udpgw) (p : UdpgwPacket) : (u.rebind p).ended = u.ended := by
  unfold Udpgw.rebind
  split
  · split
    · rfl
    · rfl
  · rfl

theorem Kept.forward (h : Kept u) (hopen : u.ended = false) (p : UdpgwPacket) (now : ℤ) (associated : Bool) :
    Kept (u.forward p now associated) := by
  have hrebind := h.rebind p
  have hopen' : (u.rebind p).ended = false := (rebind_ended u p).trans hopen
  unfold Udpgw.forward
  simp only
  split
  case h_1 e _ => exact hrebind.touch e.flow rfl rfl
  case h_2 hfree =>
    split
    · exact hrebind
    · split
      · exact hrebind.newUdpFlow hopen' now hfree
      · exact hrebind

theorem Kept.closeFlows (h : Kept u) (hended : u.ended = true) : Kept u.closeFlows := by
  refine ⟨h.made, h.apart, fun e he => ?_, fun hclosed => absurd hclosed (by simp [Udpgw.closeFlows]),
    fun hclosed => absurd hclosed (by simp [Udpgw.closeFlows]), fun _ id => ?_, fun _ => hended⟩
  · have hthis : ∃ e' ∈ u.table.rows, e'.flow = e.flow := ⟨e, he, rfl⟩
    simp only [Udpgw.closeFlows, if_pos hthis]
    exact h.conid e he
  · simp only [Udpgw.closeFlows]
    split
    · rfl
    case isFalse hnone =>
      cases hclosed : u.closed with
      | true => exact h.shut hclosed id
      | false =>
          by_contra hid
          exact hnone (h.openEntry hclosed id (by simpa using hid))

theorem Kept.step (h : Kept u) (a : UdpgwEvent) : Kept (u.step a) := by
  cases a with
  | packet pkt now associated =>
      simp only [Udpgw.step]
      split
      · exact h
      · split
        · exact h.forward (by simpa using ‹¬ u.ended = true›) _ now associated
        · exact h
  | readerStops id => exact h.touch id rfl rfl
  | reap now => exact h.drop (u.idle now)
  | endLoop => exact ⟨h.made, h.apart, h.conid, h.entryOpen, h.openEntry, h.shut, fun _ => rfl⟩
  | closeFlows =>
      simp only [Udpgw.step]
      split
      · exact h.closeFlows ‹_›
      · exact h

/-! ## Readers -/

/-- Every flow in the table has a running reader. -/
def Read (u : Udpgw) : Prop := ∀ e ∈ u.table.rows, (u.flow e.flow).reading = true

/-- Sockets and connection ids are right in every run. -/
theorem Kept.alive_iff (h : Kept u) : u.Alive ↔ (u.ended = false → u.Read) := by
  constructor
  · intro halive hopen e he
    exact (halive hopen e he).2.1
  · intro hread hopen e he
    have hnotclosed : u.closed = false := by
      cases hclosed : u.closed with
      | false => rfl
      | true => rw [h.ended hclosed] at hopen; cases hopen
    exact ⟨h.entryOpen hnotclosed e he, hread hopen e he, fun _ _ _ _ => congrArg some (h.conid e he)⟩

theorem Read.rebind (h : u.Read) (p : UdpgwPacket) : (u.rebind p).Read := by
  unfold Udpgw.rebind
  split
  · split
    · intro e he
      have hread := h e (Table.mem_erase.1 he).1
      simp only [Udpgw.closeFlow, Function.update_apply]
      split
      case isTrue hflow => rw [← hflow]; exact hread
      case isFalse => exact hread
    · exact h
  · exact h

theorem Read.forward (h : u.Read) (p : UdpgwPacket) (now : ℤ) (associated : Bool) :
    (u.forward p now associated).Read := by
  have hrebind := h.rebind p
  unfold Udpgw.forward
  simp only
  split
  · intro e he
    have hread := hrebind e he
    simp only [Function.update_apply]
    split
    case isTrue hflow => rw [← hflow]; exact hread
    case isFalse => exact hread
  · split
    · exact hrebind
    · split
      · intro e he
        simp only [Udpgw.newUdpFlow, Function.update_apply]
        split
        · rfl
        case isFalse hne =>
          rcases Table.mem_put.1 he with he | rfl
          · exact hrebind e he.1
          · exact absurd rfl hne
      · exact hrebind

theorem Read.reap (h : u.Read) (now : ℤ) : (u.reap now).Read := by
  intro e he
  have hread := h e (Table.mem_deleteWhere.1 he).1
  simp only [Udpgw.reap]
  split
  · exact hread
  · exact hread

/-- After a step every flow in the table is alive exactly when the step stopped no reader it
should not have. -/
theorem alive_step_iff (h : Kept u) (halive : u.Alive) (a : UdpgwEvent) :
    (u.step a).Alive ↔ u.StopsAfterFlow a := by
  rw [(h.step a).alive_iff]
  have hread := h.alive_iff.1 halive
  cases a with
  | packet pkt now associated =>
      refine ⟨fun _ => trivial, fun _ => ?_⟩
      simp only [step]
      split
      · exact hread
      case isFalse hopen =>
        split
        · exact fun _ => (hread (by simpa using hopen)).forward _ now associated
        · exact hread
  | readerStops id =>
      constructor
      · intro hafter hopen e he hflow
        have hstopped := hafter hopen e he
        simp only [step, hflow, Function.update_self] at hstopped
        cases hstopped
      · intro hstops hopen e he
        have hne := hstops hopen e he
        simp only [step, Function.update_of_ne hne]
        exact hread hopen e he
  | reap now => exact ⟨fun _ => trivial, fun _ hopen => (hread hopen).reap now⟩
  | endLoop => exact ⟨fun _ => trivial, fun _ hopen => absurd hopen (by simp [step])⟩
  | closeFlows =>
      refine ⟨fun _ => trivial, fun _ hopen => ?_⟩
      simp only [step] at hopen ⊢
      split at hopen
      case isTrue hended =>
        exact absurd (show u.ended = false from hopen) (by rw [hended]; decide)
      case isFalse hended =>
        rw [if_neg hended]
        exact hread hopen

end Udpgw

/-- Along every run of packets, readers that stop, the reaper and the end of the channel, every
flow in the table of the open channel has an open socket and a running reader whose replies carry
its connection id, and no socket is open when the channel is closed, exactly when no reader stops
while its flow is in the table and the channel is not at its end. -/
theorem flows_alive_iff (events : List UdpgwEvent) :
    (∀ u ∈ states Udpgw.step {} events, u.Alive ∧ u.Shut) ↔
      AllSteps Udpgw.step Udpgw.StopsAfterFlow {} events := by
  have hstart : Udpgw.Alive {} := fun _ e he => absurd he List.not_mem_nil
  constructor
  · intro hall
    exact AllSteps.of_states (fun u a h => h.step a)
      (fun u a h hu hnext => (Udpgw.alive_step_iff h hu a).1 hnext) Udpgw.Kept.start fun u hu => (hall u hu).1
  · intro hsteps u hu
    have hboth := hsteps.invariant
      (fun u a (h : Udpgw.Kept u ∧ u.Alive) hstops => ⟨h.1.step a, (Udpgw.alive_step_iff h.1 h.2 a).2 hstops⟩)
      ⟨Udpgw.Kept.start, hstart⟩ u hu
    exact ⟨hboth.2, hboth.1.shut⟩

/-- A datagram to port 53 of 192.0.2.1 under connection id 7. -/
def dnsPacket : Bytes := [0, 7, 0, 192, 0, 2, 1, 0, 53, 1, 2, 3]

/-- The relay refuses the datagram, the read of the flow's socket fails, and the next packet
finds the flow in the table. -/
def refused : List UdpgwEvent := [.packet dnsPacket 0 true, .readerStops 0, .packet dnsPacket 30 true]

theorem refused_dead :
    ((run Udpgw.step {} refused).table.rows = [⟨7, 0⟩] ∧ (run Udpgw.step {} refused).ended = false) ∧
      ((run Udpgw.step {} refused).flow 0).lastUse = 30 ∧ ((run Udpgw.step {} refused).flow 0).reading = false := by
  decide +kernel

end Simorgh.Vpn.Ssh
