import Simorgh.Tunnel.Recover

/-!
# FEC groups across sessions

A handshake replaces the session and leaves the decoder as it is, and a peer that
restarted numbers its groups from one again.

* `session_isolated` — while no packet of the new session falls into a group that
  still holds a packet of an earlier one, the writes are those of a new decoder,
  and every frame written is one the peer sent in this session.
* `old_group_mixed` — a packet that does.
-/

namespace Simorgh.Tunnel.Restart

open Simorgh.Lib

/-- The receiver, and for each group whether it holds a packet of an earlier
session. -/
structure Endpoint where
  receiver : Receiver
  stale : UInt32 → Bool

/-- What reaches the receiver. -/
inductive Event where
  /-- a handshake: the packets to come are opened under a new key -/
  | install
  | arrival (a : Arrival)

/-- The decoder has packets of the group. -/
def holdsGroup (r : Receiver) (id : UInt32) : Bool :=
  match r.fecDec with
  | some d => (d.groups id).isSome
  | none => false

/-- A handshake makes all that the decoder holds old; a group that is dropped holds
nothing any more. -/
def step (s : Endpoint) : Event → Endpoint
  | .install => ⟨s.receiver, holdsGroup s.receiver⟩
  | .arrival a =>
      ⟨s.receiver.step a, fun id => s.stale id && holdsGroup (s.receiver.step a) id⟩

/-- Nothing has arrived. -/
def start : Endpoint := ⟨Receiver.start, fun _ => false⟩

/-- The group a plaintext belongs to. -/
def fecGroup : Bytes → Option UInt32
  | [] => none
  | kind :: rest =>
      if kind = pktData then (parseData rest).map Prod.fst
      else if kind = pktParity then (parseParity rest).map Prod.fst
      else none

/-- The packet's group holds nothing of an earlier session. -/
def Fresh (s : Endpoint) : Event → Prop
  | .arrival (.packet plain _) => ∀ id ∈ fecGroup plain, s.stale id = false
  | _ => True

instance (s : Endpoint) : (e : Event) → Decidable (Fresh s e)
  | .install => isTrue trivial
  | .arrival (.gc _) => isTrue trivial
  | .arrival (.packet plain _) => Option.decidableForallMem (fecGroup plain)

/-! ## One packet and two decoders -/

theorem onData_congr {d d' : FecDecoder} {id : UInt32} (h : d.groups id = d'.groups id)
    (i n : Nat) (frame : Bytes) (now : Int) :
    (d.onData id i n frame now).groups id = (d'.onData id i n frame now).groups id := by
  by_cases hok : n = 0 ∨ 64 ≤ i
  · rw [FecDecoder.onData, FecDecoder.onData, if_pos hok, if_pos hok]
    exact h
  · rw [FecDecoder.onData_self hok, FecDecoder.onData_self hok, FecDecoder.group,
      FecDecoder.group, h]

/-- What a plaintext does to two decoders that agree on its group: the same write, the
same state of that group, and no other group touched. -/
structure Agrees (plain : Bytes) (d d' e e' : FecDecoder) : Prop where
  group : ∀ id ∈ fecGroup plain, e.groups id = e'.groups id
  rest : ∀ id, id ∉ fecGroup plain → e.groups id = d.groups id ∧ e'.groups id = d'.groups id

theorem Agrees.refl {plain : Bytes} {d d' : FecDecoder}
    (h : ∀ id ∈ fecGroup plain, d.groups id = d'.groups id) : Agrees plain d d' d d' :=
  ⟨h, fun _ _ => ⟨rfl, rfl⟩⟩

theorem handlePlain_agree {d d' : FecDecoder} {plain : Bytes}
    (h : ∀ id ∈ fecGroup plain, d.groups id = d'.groups id) (now : Int) :
    ∃ e e' written, handlePlain plain (some d) now = (some e, written) ∧
      handlePlain plain (some d') now = (some e', written) ∧ Agrees plain d d' e e' := by
  cases plain with
  | nil => exact ⟨d, d', none, rfl, rfl, .refl h⟩
  | cons kind rest =>
      by_cases hk : kind = pktKeepalive
      · exact ⟨d, d', none, by simp [handlePlain, hk], by simp [handlePlain, hk], .refl h⟩
      by_cases hd : kind = pktData
      · subst hd
        cases hparse : parseData rest with
        | none =>
            exact ⟨d, d', none, by simp [handlePlain, hk, hparse],
              by simp [handlePlain, hk, hparse], .refl h⟩
        | some header =>
            obtain ⟨id, i, n, frame⟩ := header
            have hgroup : fecGroup (pktData :: rest) = some id := by simp [fecGroup, hparse]
            by_cases hn : n > 0
            · refine ⟨d.onData id i n frame now, d'.onData id i n frame now, some frame,
                by simp [handlePlain, hk, hparse, hn],
                by simp [handlePlain, hk, hparse, hn], ?_, ?_⟩
              · intro id' hid
                rw [hgroup] at hid
                cases hid
                exact onData_congr (h id (by rw [hgroup]; rfl)) i n frame now
              · intro id' hid
                have hne : id' ≠ id := fun heq => hid (by rw [hgroup, heq]; rfl)
                exact ⟨FecDecoder.onData_of_ne hne, FecDecoder.onData_of_ne hne⟩
            · exact ⟨d, d', some frame, by simp [handlePlain, hk, hparse, hn],
                by simp [handlePlain, hk, hparse, hn], .refl h⟩
      by_cases hp : kind = pktParity
      · subst hp
        cases hparse : parseParity rest with
        | none =>
            exact ⟨d, d', none, by simp [handlePlain, hk, hd, hparse],
              by simp [handlePlain, hk, hd, hparse], .refl h⟩
        | some header =>
            obtain ⟨id, n, slot⟩ := header
            have hgroup : fecGroup (pktParity :: rest) = some id := by simp [fecGroup, hd, hparse]
            have hsame : (d'.onParity id n slot).2 = (d.onParity id n slot).2 := by
              rw [FecDecoder.onParity, FecDecoder.onParity, h id (by rw [hgroup]; rfl)]
            refine ⟨(d.onParity id n slot).1, (d'.onParity id n slot).1, (d.onParity id n slot).2,
              by simp [handlePlain, hk, hd, hparse],
              by simp [handlePlain, hk, hd, hparse, hsame], ?_, ?_⟩
            · intro id' hid
              rw [hgroup] at hid
              cases hid
              rw [FecDecoder.onParity_self, FecDecoder.onParity_self]
            · intro id' hid
              have hne : id' ≠ id := fun heq => hid (by rw [hgroup, heq]; rfl)
              exact ⟨FecDecoder.onParity_of_ne hne, FecDecoder.onParity_of_ne hne⟩
      · exact ⟨d, d', none, by simp [handlePlain, hk, hd, hp], by simp [handlePlain, hk, hd, hp],
          .refl h⟩

/-! ## The new session beside a new decoder -/

/-- The endpoint and a receiver that saw the new session only. -/
structure Beside (written₀ : List Bytes) (s : Endpoint) (r : Receiver) : Prop where
  decoders : ∃ d d', s.receiver.fecDec = some d ∧ r.fecDec = some d' ∧
    (∀ id, s.stale id = false → d.groups id = d'.groups id) ∧
    ∀ id, s.stale id = true → d'.groups id = none
  written : s.receiver.written = written₀ ++ r.written

theorem beside_install {s : Endpoint} {d : FecDecoder} (hd : s.receiver.fecDec = some d) :
    Beside s.receiver.written (step s .install) Receiver.start where
  decoders := by
    refine ⟨d, newFECDecoder, hd, rfl, ?_, fun _ _ => rfl⟩
    intro id hid
    simpa [step, holdsGroup, hd, newFECDecoder] using hid
  written := (List.append_nil _).symm

theorem Beside.step {written₀ : List Bytes} {s : Endpoint} {r : Receiver}
    (h : Beside written₀ s r) {a : Arrival} (hfresh : Fresh s (.arrival a)) :
    Beside written₀ (Restart.step s (.arrival a)) (r.step a) := by
  obtain ⟨d, d', hd, hd', hsame, hnone⟩ := h.decoders
  cases a with
  | gc now =>
      refine ⟨⟨d.gc gcAge now, d'.gc gcAge now, by simp [Restart.step, Receiver.step, hd],
        by simp [Receiver.step, hd'], ?_, ?_⟩, h.written⟩
      · intro id hid
        cases hst : s.stale id with
        | false => simp only [FecDecoder.gc, hsame id hst]
        | true =>
            -- dropped by the sweep
            have hdrop : (d.gc gcAge now).groups id = none := by
              simpa [Restart.step, hst, holdsGroup, Receiver.step, hd] using hid
            rw [hdrop]
            simp only [FecDecoder.gc, hnone id hst, Option.filter_none]
      · intro id hid
        have hst : s.stale id = true := (Bool.and_eq_true_iff.1 hid).1
        simp only [FecDecoder.gc, hnone id hst, Option.filter_none]
  | packet plain now =>
      obtain ⟨e, e', w, he, he', hagree⟩ :=
        handlePlain_agree (fun id hid => hsame id (hfresh id hid)) now
      refine ⟨⟨e, e', by simp [Restart.step, Receiver.step, hd, he],
        by simp [Receiver.step, hd', he'], ?_, ?_⟩, ?_⟩
      · intro id hid
        by_cases hg : id ∈ fecGroup plain
        · exact hagree.group id hg
        · obtain ⟨hrest, hrest'⟩ := hagree.rest id hg
          cases hst : s.stale id with
          | false => rw [hrest, hrest', hsame id hst]
          | true =>
              have hdrop : e.groups id = none := by
                simpa [Restart.step, hst, holdsGroup, Receiver.step, hd, he] using hid
              rw [hdrop, hrest', hnone id hst]
      · intro id hid
        have hst : s.stale id = true := (Bool.and_eq_true_iff.1 hid).1
        have hg : id ∉ fecGroup plain := by
          intro hg
          rw [hfresh id hg] at hst
          cases hst
        rw [(hagree.rest id hg).2, hnone id hst]
      · simp only [Restart.step, Receiver.step, hd, hd', he, he', h.written, List.append_assoc]

theorem Beside.run {written₀ : List Bytes} {s : Endpoint} {r : Receiver}
    (h : Beside written₀ s r) {arrivals : List Arrival}
    (hfresh : AllSteps Restart.step Fresh s (arrivals.map .arrival)) :
    Beside written₀ (Lib.run Restart.step s (arrivals.map .arrival))
      (Lib.run Receiver.step r arrivals) := by
  induction arrivals generalizing s r with
  | nil => exact h
  | cons a arrivals ih => exact ih (h.step hfresh.1) hfresh.2

/-- FEC stays on. -/
theorem fecDec_run (history : List Event) :
    ∃ d, (run step start history).receiver.fecDec = some d := by
  have hstep : ∀ (s : Endpoint) (e : Event), (∃ d, s.receiver.fecDec = some d) →
      ∃ d, (step s e).receiver.fecDec = some d := by
    rintro s e ⟨d, hd⟩
    cases e with
    | install => exact ⟨d, hd⟩
    | arrival a =>
        cases a with
        | gc now => exact ⟨d.gc gcAge now, by simp [step, Receiver.step, hd]⟩
        | packet plain now =>
            have hrefl : ∀ id ∈ fecGroup plain, d.groups id = d.groups id := fun _ _ => rfl
            obtain ⟨e, -, w, he, -⟩ := handlePlain_agree hrefl now
            exact ⟨e, by simp [step, Receiver.step, hd, he]⟩
  have hall : AllSteps step (fun _ _ => True) start history :=
    AllSteps.of_forall (fun _ _ => trivial) start history
  exact hall.invariant (fun s e h _ => hstep s e h) ⟨newFECDecoder, rfl⟩ _ (run_mem_states ..)

/-- Whatever earlier sessions left behind, as long as every packet of the new session
falls into a group that holds nothing of theirs: the frames written are those a new
decoder would write, and they are frames the peer sent in this session. -/
theorem session_isolated (history : List Event) (arrivals : List Arrival)
    (hfresh : AllSteps step Fresh (step (run step start history) .install)
      (arrivals.map .arrival)) :
    (run step (step (run step start history) .install) (arrivals.map .arrival)).receiver.written
        = (run step start history).receiver.written
          ++ (run Receiver.step Receiver.start arrivals).written ∧
      ∀ (groupSize : Int) (ops : List SendOp),
        completedGroups (run Sender.step (Sender.start groupSize) ops).sent < 2 ^ 32 →
        (∀ plain now, Arrival.packet plain now ∈ arrivals →
          ∃ p ∈ (run Sender.step (Sender.start groupSize) ops).sent, p.plain = plain) →
        ∀ frame ∈ (run Receiver.step Receiver.start arrivals).written,
          ∃ f ∈ ops.filterMap SendOp.frame?, f.1 = frame := by
  obtain ⟨d, hd⟩ := fecDec_run history
  refine ⟨((beside_install hd).run hfresh).written, ?_⟩
  intro groupSize ops hgroups harr frame hframe
  have hstart : Receiver.start.fecDec = some newFECDecoder := rfl
  obtain ⟨-, -, -, hw⟩ := holds_run (consistent_run hgroups) harr hstart (holds_new _)
  rcases hw frame hframe with hnone | ⟨id, i, n, hdata⟩
  · cases hnone
  · exact mem_frames_of_sent hdata

/-- What the peer sends once it has restarted. -/
def newFrames : List SendOp := [.frame (byteFrame 1), .frame (byteFrame 2)]

/-- The packets of the new session that arrive: the second data packet is lost. -/
def newArrivals : List Arrival :=
  ((run Sender.step (Sender.start 2) newFrames).sent.eraseIdx 1).map fun p => .packet p.plain 0

/-- An earlier session of which the first packet of a group of two arrived. -/
def leftover : List Event :=
  [.install, .arrival (.packet (Packet.data 1 0 2 [7]).plain 0)]

/-- The parity of the new group is XORed with a frame of the old one, and a frame is
written that the peer never sent. -/
theorem old_group_mixed :
    (run step (step (run step start leftover) .install) (newArrivals.map .arrival)).receiver.written
        = (run step start leftover).receiver.written ++ [[1], [4]] ∧
      ∀ f ∈ newFrames.filterMap SendOp.frame?, f.1 ≠ [4] := by
  decide +kernel

/-- The same earlier session, with the parity of its group. -/
def resolved : List Event := leftover ++ [.arrival (.packet (Packet.parity 1 2 []).plain 0)]

theorem isolated_after_parity :
    AllSteps step Fresh (step (run step start resolved) .install) (newArrivals.map .arrival) ∧
      (run step (step (run step start resolved) .install)
          (newArrivals.map .arrival)).receiver.written
        = (run step start resolved).receiver.written
          ++ (run Receiver.step Receiver.start newArrivals).written := by
  have hfresh : AllSteps step Fresh (step (run step start resolved) .install)
      (newArrivals.map .arrival) := by decide +kernel
  exact ⟨hfresh, (session_isolated resolved newArrivals hfresh).1⟩

end Simorgh.Tunnel.Restart
