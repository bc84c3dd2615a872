import Simorgh.Tunnel.Groups

/-!
# Group sizes under concurrent resizing

`sendData` takes the encoder's lock three times for the frame that completes a
group: in `add`, in the read of the group size for the header, and in
`flushParity`.  The keepalive tick may call `SetGroupSize` between them.

* `agreement_run` — as long as no call changes the size between the `add` that
  completes a group and its `flushParity`, every packet of a group carries the
  number of frames the group's parity covers.
* `resized_before_stamp` — a call in that window that does change it.
-/

namespace Simorgh.Tunnel.Resize

open Simorgh.Lib

/-- Where the sender is inside `sendData`. -/
inductive Phase where
  | idle
  /-- after `add`, before the size is stamped -/
  | stamping (groupID : UInt32) (index : Nat) (complete : Bool) (frame : Frame)
  /-- after the data packet of a complete group, before `flushParity` -/
  | flushing

/-- A packet sent, with the number of its group and of the frames folded into the
accumulator by then. -/
structure Sent where
  group : Nat
  folded : Nat
  packet : Packet

/-- The encoder, the sender's place in `sendData` and what was sent.  `group` counts
the calls of `flushParity`, `folded` those of `add` since the last of them. -/
structure State where
  enc : FecEncoder
  phase : Phase := .idle
  group : Nat := 0
  folded : Nat := 0
  sent : List Sent := []

/-- The steps of the sender and of the keepalive tick, one lock region each. -/
inductive Event where
  | add (frame : Frame)
  | stamp
  | flush
  | setGroupSize (n : Int)

/-- One event. -/
def step (s : State) : Event → State
  | .add frame =>
      match s.phase with
      | .idle =>
          match s.enc.add frame.1 with
          | (enc, groupID, index, complete) =>
              { s with
                enc := enc, phase := .stamping groupID index complete frame
                folded := s.folded + 1 }
      | _ => s
  | .stamp =>
      match s.phase with
      | .stamping groupID index complete frame =>
          { s with
            phase := if complete then .flushing else .idle
            sent := s.sent ++
              [⟨s.group, s.folded, .data groupID index s.enc.groupSize.1 frame.1⟩] }
      | _ => s
  | .flush =>
      match s.phase with
      | .flushing =>
          match s.enc.flushParity with
          | (enc, groupID, groupSize, parity) =>
              { s with
                enc := enc, phase := .idle, group := s.group + 1, folded := 0
                sent := s.sent ++ [⟨s.group, s.folded, .parity groupID groupSize parity⟩] }
      | _ => s
  | .setGroupSize n => { s with enc := s.enc.setGroupSize n }

/-- Nothing has been sent. -/
def start (groupSize : Int) : State := { enc := newFECEncoder groupSize }

/-! ## Agreement -/

/-- The packets of a group carry one id and one size, and a parity carries the number
of frames it covers. -/
def Agreement (sent : List Sent) : Prop :=
  (∀ p ∈ sent, ∀ q ∈ sent, p.group = q.group →
      p.packet.groupID = q.packet.groupID ∧ p.packet.groupSize = q.packet.groupSize) ∧
    ∀ p ∈ sent, p.packet.isParity = true → p.packet.groupSize = p.folded

instance (sent : List Sent) : Decidable (Agreement sent) :=
  inferInstanceAs (Decidable (_ ∧ _))

/-- The sender is between the `add` that completed a group and its `flushParity`. -/
def Phase.completing : Phase → Bool
  | .stamping _ _ complete _ => complete
  | .flushing => true
  | .idle => false

/-- `SetGroupSize` does not change the size while a group is being completed. -/
def Quiet (s : State) : Event → Prop
  | .setGroupSize n => s.phase.completing = true → clampGroupSize n = s.enc.groupSize
  | _ => True

instance (s : State) : (e : Event) → Decidable (Quiet s e)
  | .setGroupSize _ => inferInstanceAs (Decidable (_ → _))
  | .add _ => isTrue trivial
  | .stamp => isTrue trivial
  | .flush => isTrue trivial

/-- What the phase says of the encoder. -/
def PhaseInv (s : State) : Prop :=
  match s.phase with
  | .idle =>
      s.folded = s.enc.index ∧ (s.enc.index = 0 → ∀ p ∈ s.sent, p.group ≠ s.group)
  | .stamping groupID _ complete _ =>
      groupID = s.enc.groupID ∧
        if complete then s.enc.index = 0 ∧ s.folded = s.enc.groupSize.1
        else s.enc.index ≠ 0 ∧ s.folded = s.enc.index
  | .flushing => s.enc.index = 0 ∧ s.folded = s.enc.groupSize.1

/-- The packets of the group in progress carry the encoder's size, and what was sent
agrees. -/
structure Inv (s : State) : Prop where
  id : s.enc.groupID = groupIDAt s.group
  le : ∀ p ∈ s.sent, p.group ≤ s.group
  ids : ∀ p ∈ s.sent, p.packet.groupID = groupIDAt p.group
  current : ∀ p ∈ s.sent, p.group = s.group → p.packet.groupSize = s.enc.groupSize.1
  agree : ∀ p ∈ s.sent, ∀ q ∈ s.sent, p.group = q.group → p.packet.groupSize = q.packet.groupSize
  parities : ∀ p ∈ s.sent, p.packet.isParity = true → p.packet.groupSize = p.folded
  phase : PhaseInv s

theorem Inv.agreement {s : State} (h : Inv s) : Agreement s.sent := by
  refine ⟨?_, h.parities⟩
  intro p hp q hq hpq
  refine ⟨?_, h.agree p hp q hq hpq⟩
  rw [h.ids p hp, h.ids q hq, hpq]

theorem inv_start (groupSize : Int) : Inv (start groupSize) where
  id := rfl
  le := by simp [start]
  ids := by simp [start]
  current := by simp [start]
  agree := by simp [start]
  parities := by simp [start]
  phase := ⟨rfl, by simp [start]⟩

/-- A packet of the group in progress, added to what was sent. -/
theorem Inv.append {s : State} (h : Inv s) {p : Sent} (hg : p.group = s.group)
    (hid : p.packet.groupID = s.enc.groupID) (hsize : p.packet.groupSize = s.enc.groupSize.1)
    (hpar : p.packet.isParity = true → p.packet.groupSize = p.folded) :
    (∀ q ∈ s.sent ++ [p], q.group ≤ s.group) ∧
    (∀ q ∈ s.sent ++ [p], q.packet.groupID = groupIDAt q.group) ∧
    (∀ q ∈ s.sent ++ [p], q.group = s.group → q.packet.groupSize = s.enc.groupSize.1) ∧
    (∀ q ∈ s.sent ++ [p], ∀ r ∈ s.sent ++ [p], q.group = r.group →
      q.packet.groupSize = r.packet.groupSize) ∧
    ∀ q ∈ s.sent ++ [p], q.packet.isParity = true → q.packet.groupSize = q.folded := by
  simp only [List.forall_mem_append, List.forall_mem_singleton]
  have hcur : ∀ q ∈ s.sent, q.group = p.group → q.packet.groupSize = p.packet.groupSize := by
    intro q hq hqp
    rw [hsize]
    exact h.current q hq (hqp.trans hg)
  refine ⟨⟨h.le, Nat.le_of_eq hg⟩, ⟨h.ids, ?_⟩, ⟨h.current, fun _ => hsize⟩, ⟨?_, ?_⟩,
    h.parities, hpar⟩
  · rw [hid, hg]
    exact h.id
  · intro q hq
    exact ⟨h.agree q hq, hcur q hq⟩
  · exact ⟨fun q hq hpq => (hcur q hq hpq.symm).symm, fun _ => trivial⟩

theorem inv_setGroupSize {s : State} (h : Inv s) {n : Int} (hq : Quiet s (.setGroupSize n)) :
    Inv (step s (.setGroupSize n)) := by
  by_cases hi : s.enc.index = 0
  · have henc : s.enc.setGroupSize n
        = { s.enc with
            groupSize := clampGroupSize n
            index_lt := by have := (clampGroupSize n).2.1; omega } := by
      simp [FecEncoder.setGroupSize, hi]
    have hphase := h.phase
    cases hp : s.phase with
    | idle =>
        -- no packet of the group in progress is out yet
        simp only [PhaseInv, hp] at hphase
        have hnone := hphase.2 hi
        exact {
          id := by simpa only [step, henc] using h.id
          le := h.le
          ids := h.ids
          current := fun p hps hpg => absurd hpg (hnone p hps)
          agree := h.agree
          parities := h.parities
          phase := by
            simp only [PhaseInv, step, hp, henc]
            exact hphase }
    | stamping groupID index complete frame =>
        simp only [PhaseInv, hp] at hphase
        cases complete with
        | false =>
            simp only [Bool.false_eq_true, if_false] at hphase
            exact absurd hi hphase.2.1
        | true =>
            have hsame : clampGroupSize n = s.enc.groupSize := hq (by simp [Phase.completing, hp])
            have hsame' : s.enc.setGroupSize n = s.enc := by simp [henc, hsame]
            simpa only [step, hsame'] using h
    | flushing =>
        have hsame : clampGroupSize n = s.enc.groupSize := hq (by simp [Phase.completing, hp])
        have hsame' : s.enc.setGroupSize n = s.enc := by simp [henc, hsame]
        simpa only [step, hsame'] using h
  · have henc : s.enc.setGroupSize n = s.enc := by simp [FecEncoder.setGroupSize, hi]
    simpa only [step, henc] using h

theorem inv_add {s : State} (h : Inv s) (frame : Frame) : Inv (step s (.add frame)) := by
  have hphase := h.phase
  cases hp : s.phase with
  | idle =>
      simp only [PhaseInv, hp] at hphase
      by_cases hc : s.enc.index + 1 ≥ s.enc.groupSize.1
      · have hsize : s.enc.index + 1 = s.enc.groupSize.1 := by
          have := s.enc.index_lt
          omega
        simp only [step, hp, FecEncoder.add, dif_pos hc]
        exact {
          id := h.id, le := h.le, ids := h.ids, current := h.current, agree := h.agree
          parities := h.parities
          phase := ⟨rfl, by rw [if_pos rfl]; exact ⟨rfl, by rw [← hsize, hphase.1]⟩⟩ }
      · simp only [step, hp, FecEncoder.add, dif_neg hc]
        exact {
          id := h.id, le := h.le, ids := h.ids, current := h.current, agree := h.agree
          parities := h.parities
          phase := ⟨rfl, by simp [hphase.1]⟩ }
  | stamping groupID index complete frame' => simpa only [step, hp] using h
  | flushing => simpa only [step, hp] using h

theorem inv_stamp {s : State} (h : Inv s) : Inv (step s .stamp) := by
  have hphase := h.phase
  cases hp : s.phase with
  | stamping groupID index complete frame =>
      simp only [PhaseInv, hp] at hphase
      obtain ⟨hle, hids, hcur, hagree, hpar⟩ :=
        h.append (p := ⟨s.group, s.folded, .data groupID index s.enc.groupSize.1 frame.1⟩) rfl
          hphase.1 rfl (by simp [Packet.isParity])
      simp only [step, hp]
      refine { id := h.id, le := hle, ids := hids, current := hcur, agree := hagree,
               parities := hpar, phase := ?_ }
      cases complete with
      | true => simpa [PhaseInv] using hphase.2
      | false =>
          have hidx := hphase.2
          simp only [Bool.false_eq_true, if_false] at hidx ⊢
          exact ⟨hidx.2, fun h0 => absurd h0 hidx.1⟩
  | idle => simpa only [step, hp] using h
  | flushing => simpa only [step, hp] using h

theorem inv_flush {s : State} (h : Inv s) : Inv (step s .flush) := by
  have hphase := h.phase
  cases hp : s.phase with
  | flushing =>
      simp only [PhaseInv, hp] at hphase
      obtain ⟨hle, hids, -, hagree, hpar⟩ :=
        h.append (p := ⟨s.group, s.folded, .parity s.enc.groupID s.enc.groupSize.1
          (List.ofFn s.enc.accum)⟩) rfl rfl rfl (fun _ => hphase.2.symm)
      simp only [step, hp, FecEncoder.flushParity]
      have hlt : ∀ p ∈ s.sent ++ [⟨s.group, s.folded, .parity s.enc.groupID s.enc.groupSize.1
          (List.ofFn s.enc.accum)⟩], p.group ≠ s.group + 1 := by
        intro p hps
        have := hle p hps
        omega
      exact {
        id := by rw [h.id, groupIDAt_succ]
        le := fun p hps => Nat.le_succ_of_le (hle p hps)
        ids := hids
        current := fun p hps hpg => absurd hpg (hlt p hps)
        agree := hagree
        parities := hpar
        phase := ⟨hphase.1.symm, fun _ => hlt⟩ }
  | idle => simpa only [step, hp] using h
  | stamping groupID index complete frame => simpa only [step, hp] using h

/-- In every run in which no resize falls between the `add` that completes a group and
its `flushParity`, the packets of each group agree on the group's size, which is the
number of frames its parity covers. -/
theorem agreement_run (groupSize : Int) {events : List Event}
    (h : AllSteps step Quiet (start groupSize) events) :
    ∀ s ∈ states step (start groupSize) events, Agreement s.sent := by
  have hstep : ∀ s e, Inv s → Quiet s e → Inv (step s e) := by
    intro s e hs hq
    cases e with
    | add frame => exact inv_add hs frame
    | stamp => exact inv_stamp hs
    | flush => exact inv_flush hs
    | setGroupSize n => exact inv_setGroupSize hs hq
  intro s hs
  exact (h.invariant hstep (inv_start groupSize) s hs).agreement

/-- A group of two, with the size raised to eight before the second packet is
stamped. -/
def resized : List Event :=
  [.add ⟨[1], by decide⟩, .stamp, .add ⟨[2], by decide⟩, .setGroupSize 8, .stamp, .flush]

theorem resized_before_stamp : ¬ Agreement (run step (start 2) resized).sent := by
  decide +kernel

/-- The same group, with the size raised once its parity is out. -/
def resizedAfter : List Event :=
  [.add ⟨[1], by decide⟩, .stamp, .add ⟨[2], by decide⟩, .stamp, .flush, .setGroupSize 8]

theorem agreement_resizedAfter :
    AllSteps step Quiet (start 2) resizedAfter ∧
      ∀ s ∈ states step (start 2) resizedAfter, Agreement s.sent :=
  have h : AllSteps step Quiet (start 2) resizedAfter := by decide +kernel
  ⟨h, agreement_run 2 h⟩

end Simorgh.Tunnel.Resize
