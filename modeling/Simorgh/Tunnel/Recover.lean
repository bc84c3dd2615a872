import Simorgh.Tunnel.Groups

/-!
# What a parity packet recovers

The receiver of one session gets the packets sent in any order, some of them not
at all and some more than once, and drops old groups in between.

* `GroupHolds` — a group's state is the XOR of the slots whose bits are set.
* `onParity_eq_some_iff` — a parity gives the one frame that is missing from its
  group, and nothing in every other case.
-/

namespace Simorgh.Tunnel

open Simorgh.Lib

/-! ## Slots and masks -/

namespace Slot

theorem len_ofFrame {frame : Bytes} (h : frame.length ≤ fecSlotSize - 2) :
    (ofFrame frame).len = frame.length := by
  have hlt : frame.length < 2 ^ 16 := by
    simp only [fecSlotSize] at h
    omega
  exact uint16_put hlt

theorem payload_ofFrame {frame : Bytes} {n : Nat} (hn : n ≤ fecSlotSize - 2)
    (h : n = frame.length) : (ofFrame frame).payload n hn = frame := by
  subst h
  apply List.ext_getElem
  · simp [payload]
  · intro i _ _
    simp [payload, ofFrame]

end Slot

theorem and_bit_ne_zero {m : BitVec 64} {i : Nat} (hi : i < 64) :
    m &&& (1#64 <<< i) ≠ 0 ↔ m.getLsbD i = true := by
  rw [← BitVec.twoPow_eq, BitVec.and_twoPow]
  by_cases h : m.getLsbD i = true
  · simp only [h, if_true, iff_true]
    intro h0
    have hbit := congrArg (fun b => b.getLsbD i) h0
    simp [hi] at hbit
  · simp [h]

theorem getLsbD_or_bit {m : BitVec 64} {i j : Nat} (hj : j < 64) :
    (m ||| (1#64 <<< i)).getLsbD j = true ↔ j = i ∨ m.getLsbD j = true := by
  rw [← BitVec.twoPow_eq, BitVec.getLsbD_or, BitVec.getLsbD_twoPow]
  simp only [Bool.or_eq_true, Bool.and_eq_true, decide_eq_true_eq]
  constructor
  · rintro (h | ⟨-, h⟩)
    · exact Or.inr h
    · exact Or.inl h.symm
  · rintro (rfl | h)
    · exact Or.inr ⟨hj, rfl⟩
    · exact Or.inl h

/-! ## The receiver -/

/-- What reaches the decoder: an opened packet, or the sweep of the keepalive tick. -/
inductive Arrival where
  | packet (plain : Bytes) (now : Int)
  | gc (now : Int)

/-- The decoder and the frames written to the sink. -/
structure Receiver where
  fecDec : Option FecDecoder
  written : List Bytes

/-- Five seconds, in nanoseconds. -/
def gcAge : Int := 5 * 10 ^ 9

/-- Nothing has arrived. -/
def Receiver.start : Receiver := ⟨some newFECDecoder, []⟩

/-- One arrival. -/
def Receiver.step (r : Receiver) : Arrival → Receiver
  | .packet plain now =>
      ⟨(handlePlain plain r.fecDec now).1, r.written ++ (handlePlain plain r.fecDec now).2.toList⟩
  | .gc now => ⟨r.fecDec.map fun d => d.gc gcAge now, r.written⟩

/-- The indexes of a group's data packets that the decoder holds. -/
def FecDecoder.held (d : FecDecoder) (groupID : UInt32) : Finset Nat :=
  match d.groups groupID with
  | some g => (Finset.range 64).filter fun i => g.mask.getLsbD i = true
  | none => ∅

/-! ## The invariant -/

/-- The state of a group is that of the frames at a set of places. -/
structure GroupHolds (sent : List Packet) (id : UInt32) (g : FecGroupState) (places : Finset Nat)
    (frames : Nat → Bytes) : Prop where
  data : ∀ i ∈ places, Packet.data id i g.size (frames i) ∈ sent
  nonempty : places.Nonempty
  mask : ∀ i < 64, g.mask.getLsbD i = true ↔ i ∈ places
  seen : g.seen = places.card
  accum : g.accum = parityOf (fun i => Slot.ofFrame (frames i)) places

/-- Every group of the decoder holds frames that were sent with its id. -/
def Holds (sent : List Packet) (d : FecDecoder) : Prop :=
  ∀ id g, d.groups id = some g → ∃ places frames, GroupHolds sent id g places frames

theorem holds_new (sent : List Packet) : Holds sent newFECDecoder := by
  intro id g hg
  cases hg

theorem Holds.gc {sent : List Packet} {d : FecDecoder} (h : Holds sent d) (maxAge now : Int) :
    Holds sent (d.gc maxAge now) := by
  intro id g hg
  exact h id g (Option.filter_eq_some_iff.1 hg).1

theorem Holds.onParity {sent : List Packet} {d : FecDecoder} (h : Holds sent d) (id : UInt32)
    (n : Nat) (slot : Bytes) : Holds sent (d.onParity id n slot).1 := by
  intro id' g hg
  by_cases hid : id' = id
  · rw [hid, FecDecoder.onParity_self] at hg
    cases hg
  · rw [FecDecoder.onParity_of_ne hid] at hg
    exact h id' g hg

/-- A frame folded into a group that holds some frames already. -/
theorem GroupHolds.fold {sent : List Packet} (hsent : Consistent sent) {id : UInt32}
    {g : FecGroupState} {places : Finset Nat} {frames : Nat → Bytes}
    (h : GroupHolds sent id g places frames) {i n : Nat} {frame : Bytes} (now : Int)
    (hp : Packet.data id i n frame ∈ sent) :
    ∃ frames', GroupHolds sent id (g.fold i frame now) (insert i places) frames' := by
  obtain ⟨hin, hn, hlen⟩ := hsent.data_lt hp
  have hi : i < 64 := by omega
  obtain ⟨j, hj⟩ := h.nonempty
  obtain ⟨rfl, -⟩ := hsent.data_eq hp (h.data j hj)
  by_cases hm : i ∈ places
  · have hbit := (and_bit_ne_zero hi).2 ((h.mask i hi).2 hm)
    rw [Finset.insert_eq_of_mem hm, FecGroupState.fold, if_pos hbit]
    exact ⟨frames, h⟩
  · have hbit : ¬ g.mask &&& (1#64 <<< i) ≠ 0 := fun hb =>
      hm ((h.mask i hi).1 ((and_bit_ne_zero hi).1 hb))
    have hne : ∀ k ∈ places, k ≠ i := fun k hk hki => hm (hki ▸ hk)
    refine ⟨Function.update frames i frame, ?_⟩
    rw [FecGroupState.fold, if_neg hbit]
    exact {
      data := by
        intro k hk
        rcases Finset.mem_insert.1 hk with rfl | hk
        · rw [Function.update_self]
          exact hp
        · rw [Function.update_of_ne (hne k hk)]
          exact h.data k hk
      nonempty := Finset.insert_nonempty i places
      mask := by
        intro k hk
        rw [getLsbD_or_bit hk, h.mask k hk, Finset.mem_insert]
      seen := by rw [Finset.card_insert_of_notMem hm, h.seen]
      accum := by
        have hrest : parityOf (fun k => Slot.ofFrame (Function.update frames i frame k)) places
            = parityOf (fun k => Slot.ofFrame (frames k)) places := by
          apply parity_congr
          intro k hk
          rw [Function.update_of_ne (hne k hk)]
        have hfold : frame.length ≤ fecSlotSize - 2 := Nat.le_trans hlen (by decide)
        rw [parityOf, parity_insert hm, Function.update_self, ← parityOf, hrest, ← h.accum,
          FecEncoder.foldSlot, if_pos hfold, Slot.xor_comm] }

/-- The first frame of a group. -/
theorem groupHolds_first {sent : List Packet} (hsent : Consistent sent) {id : UInt32} {i n : Nat}
    {frame : Bytes} (now : Int) (hp : Packet.data id i n frame ∈ sent) :
    GroupHolds sent id (FecGroupState.fold ⟨0, Slot.zero, n, 0, 0⟩ i frame now) {i}
      fun _ => frame := by
  obtain ⟨hin, hn, hlen⟩ := hsent.data_lt hp
  have hfold : frame.length ≤ fecSlotSize - 2 := Nat.le_trans hlen (by decide)
  have hnew : FecGroupState.fold ⟨0, Slot.zero, n, 0, 0⟩ i frame now
      = ⟨0 ||| (1#64 <<< i), FecEncoder.foldSlot Slot.zero frame, n, 1, now⟩ := by
    simp [FecGroupState.fold]
  rw [hnew]
  exact {
    data := by
      intro k hk
      rw [Finset.mem_singleton.1 hk]
      exact hp
    nonempty := Finset.singleton_nonempty i
    mask := by
      intro k hk
      rw [getLsbD_or_bit hk, Finset.mem_singleton]
      simp
    seen := rfl
    accum := by
      have hone : parityOf (fun _ => Slot.ofFrame frame) {i}
          = Slot.xor (Slot.ofFrame frame) Slot.zero := by
        rw [parityOf, ← insert_empty_eq, parity_insert (Finset.notMem_empty i), parity_empty]
      rw [hone, FecEncoder.foldSlot, if_pos hfold, Slot.xor_comm] }

theorem held_eq {sent : List Packet} (hsent : Consistent sent) {d : FecDecoder} {id : UInt32}
    {g : FecGroupState} {places : Finset Nat} {frames : Nat → Bytes} (hg : d.groups id = some g)
    (h : GroupHolds sent id g places frames) : d.held id = places := by
  ext i
  simp only [FecDecoder.held, hg, Finset.mem_filter, Finset.mem_range]
  constructor
  · rintro ⟨hi, hbit⟩
    exact (h.mask i hi).1 hbit
  · intro hi
    obtain ⟨hlt, hle, -⟩ := hsent.data_lt (h.data i hi)
    have hi64 : i < 64 := by omega
    exact ⟨hi64, (h.mask i hi64).2 hi⟩

/-- A data packet: the decoder holds its index, and the rest as before. -/
theorem Holds.onData {sent : List Packet} (hsent : Consistent sent) {d : FecDecoder}
    (h : Holds sent d) {id : UInt32} {i n : Nat} {frame : Bytes} (now : Int)
    (hp : Packet.data id i n frame ∈ sent) :
    Holds sent (d.onData id i n frame now) ∧
      ∀ id', (d.onData id i n frame now).held id'
        = if id' = id then insert i (d.held id') else d.held id' := by
  obtain ⟨hin, hn, -⟩ := hsent.data_lt hp
  have hok : ¬ (n = 0 ∨ 64 ≤ i) := by omega
  -- the state of the packet's group afterwards
  have hgroup : ∃ places frames, GroupHolds sent id ((d.group id n).fold i frame now) places frames ∧
      places = insert i (d.held id) := by
    cases hg : d.groups id with
    | none =>
        refine ⟨{i}, fun _ => frame, ?_, by simp [FecDecoder.held, hg]⟩
        have hnew : d.group id n = ⟨0, Slot.zero, n, 0, 0⟩ := by simp [FecDecoder.group, hg]
        rw [hnew]
        exact groupHolds_first hsent now hp
    | some g =>
        obtain ⟨places, frames, hh⟩ := h id g hg
        obtain ⟨frames', hh'⟩ := hh.fold hsent now hp
        have hsome : d.group id n = g := by simp [FecDecoder.group, hg]
        rw [hsome]
        exact ⟨_, frames', hh', by rw [held_eq hsent hg hh]⟩
  obtain ⟨places, frames, hh, hplaces⟩ := hgroup
  constructor
  · intro id' g hg
    by_cases hid : id' = id
    · subst hid
      rw [FecDecoder.onData_self hok] at hg
      cases hg
      exact ⟨places, frames, hh⟩
    · rw [FecDecoder.onData_of_ne hid] at hg
      exact h id' g hg
  · intro id'
    by_cases hid : id' = id
    · subst hid
      rw [if_pos rfl, ← hplaces]
      exact held_eq hsent (FecDecoder.onData_self hok) hh
    · rw [if_neg hid, FecDecoder.held, FecDecoder.held, FecDecoder.onData_of_ne hid]

/-! ## Recovery -/

theorem slot_getD_ofFn (slot : Slot) :
    (fun i : Fin fecSlotSize => (List.ofFn slot).getD i.val 0) = slot := by
  funext i
  simp [List.getD_eq_getElem?_getD]

/-- With the slot of one frame left, the group gives that frame; an empty frame is not
told from no frame. -/
theorem recover_ofFrame {g : FecGroupState} {n : Nat} {parity frame : Bytes} (hsize : g.size = n)
    (hparity : parity.length = fecSlotSize) (hseen : n = g.seen + 1)
    (hslot : (g.accum.xor fun i => parity.getD i.val 0) = Slot.ofFrame frame)
    (hlen : frame.length ≤ fecSlotSize - 2) :
    g.recover n parity = if frame = [] then none else some frame := by
  have h1 : ¬ (g.size ≠ n ∨ parity.length ≠ fecSlotSize) := by
    rintro (h | h)
    · exact h hsize
    · exact h hparity
  have h2 : ¬ (n ≠ g.seen + 1) := fun h => h hseen
  simp only [FecGroupState.recover, if_neg h1, if_neg h2, hslot, Slot.len_ofFrame hlen, dif_pos hlen,
    Slot.payload_ofFrame hlen rfl, List.length_eq_zero_iff]

/-- A parity of the session gives the frame at the one place the group lacks. -/
theorem GroupHolds.recover_iff {sent : List Packet} (hsent : Consistent sent) {id : UInt32}
    {g : FecGroupState} {places : Finset Nat} {frames : Nat → Bytes}
    (h : GroupHolds sent id g places frames) {n : Nat} {slot frame : Bytes}
    (hp : Packet.parity id n slot ∈ sent) :
    g.recover n slot = some frame ↔ frame ≠ [] ∧
      ∃ j < n, places = (Finset.range n).erase j ∧ Packet.data id j n frame ∈ sent := by
  obtain ⟨h2, h64, sentAt, hdata, hslot⟩ := hsent.parity_eq hp
  obtain ⟨i₀, hi₀⟩ := h.nonempty
  obtain ⟨hsize, -⟩ := hsent.data_eq (h.data i₀ hi₀) (hdata 0 (by omega))
  have hsub : places ⊆ Finset.range n := by
    intro i hi
    rw [Finset.mem_range, ← hsize]
    exact (hsent.data_lt (h.data i hi)).1
  have hlenSlot : slot.length = fecSlotSize := by rw [hslot, List.length_ofFn]
  by_cases hseen : n = g.seen + 1
  · -- exactly one place is missing
    have hcard : (Finset.range n \ places).card = 1 := by
      rw [Finset.card_sdiff_of_subset hsub, Finset.card_range, ← h.seen]
      omega
    obtain ⟨j, hj⟩ := Finset.card_eq_one.1 hcard
    have hjmem : j ∈ Finset.range n \ places := by
      rw [hj]
      exact Finset.mem_singleton_self j
    obtain ⟨hjn, hjp⟩ := Finset.mem_sdiff.1 hjmem
    rw [Finset.mem_range] at hjn
    have hall : insert j places = Finset.range n := by
      rw [Finset.insert_eq, ← hj, Finset.sdiff_union_of_subset hsub]
    have herase : places = (Finset.range n).erase j := by
      rw [← hall, Finset.erase_insert hjp]
    have hsame : parityOf (fun i => Slot.ofFrame (frames i)) places
        = parityOf (fun i => Slot.ofFrame (sentAt i)) places := by
      apply parity_congr
      intro i hi
      have hin : i < n := Finset.mem_range.1 (hsub hi)
      rw [(hsent.data_eq (h.data i hi) (hdata i hin)).2 rfl]
    have hrec : g.recover n slot = if sentAt j = [] then none else some (sentAt j) := by
      obtain ⟨-, -, hlen⟩ := hsent.data_lt (hdata j hjn)
      apply recover_ofFrame hsize hlenSlot hseen ?_ (Nat.le_trans hlen (by decide))
      rw [hslot, slot_getD_ofFn, h.accum, hsame, ← hall]
      exact parity_recover Slot.zero_xor Slot.xor_self hjp
    rw [hrec]
    constructor
    · intro hsome
      by_cases h0 : sentAt j = []
      · rw [if_pos h0] at hsome
        cases hsome
      · rw [if_neg h0] at hsome
        cases hsome
        exact ⟨h0, j, hjn, herase, hdata j hjn⟩
    · rintro ⟨h0, j', hj'n, hplaces, hdata'⟩
      have hjj : j = j' := by
        by_contra hne'
        apply hjp
        rw [hplaces, Finset.mem_erase, Finset.mem_range]
        exact ⟨hne', hjn⟩
      rw [(hsent.data_eq (hdata j hjn) hdata').2 hjj, if_neg h0]
  · -- none or several are missing
    have hnone : g.recover n slot = none := by
      simp [FecGroupState.recover, hseen]
    rw [hnone]
    constructor
    · intro h
      cases h
    · rintro ⟨-, j, hjn, hplaces, -⟩
      exfalso
      apply hseen
      rw [h.seen, hplaces, Finset.card_erase_of_mem (Finset.mem_range.2 hjn), Finset.card_range]
      omega

/-- What a parity of the session gives, in terms of what the decoder holds. -/
theorem Holds.onParity_iff {sent : List Packet} (hsent : Consistent sent) {d : FecDecoder}
    (h : Holds sent d) {id : UInt32} {n : Nat} {slot : Bytes}
    (hp : Packet.parity id n slot ∈ sent) (frame : Bytes) :
    (d.onParity id n slot).2 = some frame ↔ frame ≠ [] ∧
      ∃ j < n, d.held id = (Finset.range n).erase j ∧ Packet.data id j n frame ∈ sent := by
  obtain ⟨h2, -⟩ := hsent.parity_eq hp
  rw [FecDecoder.onParity]
  cases hg : d.groups id with
  | none =>
      have hheld : d.held id = ∅ := by rw [FecDecoder.held, hg]
      constructor
      · intro h
        cases h
      · rintro ⟨-, j, hj, hall, -⟩
        -- a group has two places at least, so nothing held is never all but one
        have hcard := congrArg Finset.card hall
        rw [hheld, Finset.card_erase_of_mem (Finset.mem_range.2 hj), Finset.card_range,
          Finset.card_empty] at hcard
        omega
  | some g =>
      obtain ⟨places, frames, hh⟩ := h id g hg
      rw [held_eq hsent hg hh]
      exact hh.recover_iff hsent hp

/-! ## Runs -/

/-- What one arrival keeps: the decoder's groups are of the session, and so is every
frame it writes. -/
theorem Holds.step {sent : List Packet} (hsent : Consistent sent) {r : Receiver} {d : FecDecoder}
    (hd : r.fecDec = some d) (h : Holds sent d) {a : Arrival}
    (ha : ∀ plain now, a = .packet plain now → ∃ p ∈ sent, p.plain = plain) :
    ∃ d', (r.step a).fecDec = some d' ∧ Holds sent d' ∧
      ∀ frame ∈ (r.step a).written,
        frame ∈ r.written ∨ ∃ id i n, Packet.data id i n frame ∈ sent := by
  cases a with
  | gc now =>
      exact ⟨_, by rw [Receiver.step, hd]; rfl, h.gc gcAge now, fun _ hf => Or.inl hf⟩
  | packet plain now =>
      obtain ⟨p, hp, rfl⟩ := ha plain now rfl
      cases p with
      | data id i n frame =>
          obtain ⟨hin, hn, -⟩ := hsent.data_lt hp
          rw [Receiver.step, hd, handlePlain_data d id frame now (by omega) ⟨by omega, hn⟩]
          refine ⟨_, rfl, (h.onData hsent now hp).1, ?_⟩
          intro frame' hf
          rcases List.mem_append.1 hf with hf | hf
          · exact Or.inl hf
          · rw [List.mem_singleton.1 hf]
            exact Or.inr ⟨id, i, n, hp⟩
      | parity id n slot =>
          obtain ⟨-, hn, -⟩ := hsent.parity_eq hp
          rw [Receiver.step, hd, handlePlain_parity d id slot now hn]
          refine ⟨_, rfl, h.onParity id n slot, ?_⟩
          intro frame hf
          rcases List.mem_append.1 hf with hf | hf
          · exact Or.inl hf
          · obtain ⟨-, j, -, -, hdata⟩ :=
              (h.onParity_iff hsent hp frame).1 (Option.mem_toList.1 hf)
            exact Or.inr ⟨id, j, n, hdata⟩

theorem holds_run {sent : List Packet} (hsent : Consistent sent) {arrivals : List Arrival}
    (harr : ∀ plain now, Arrival.packet plain now ∈ arrivals → ∃ p ∈ sent, p.plain = plain)
    {r : Receiver} {d : FecDecoder} (hd : r.fecDec = some d) (h : Holds sent d) :
    ∃ d', (run Receiver.step r arrivals).fecDec = some d' ∧ Holds sent d' ∧
      ∀ frame ∈ (run Receiver.step r arrivals).written,
        frame ∈ r.written ∨ ∃ id i n, Packet.data id i n frame ∈ sent := by
  induction arrivals generalizing r d with
  | nil => exact ⟨d, hd, h, fun _ hf => Or.inl hf⟩
  | cons a arrivals ih =>
      obtain ⟨d', hd', h', hw'⟩ := h.step hsent hd (a := a) fun plain now ha =>
        harr plain now (ha ▸ List.mem_cons_self)
      obtain ⟨d'', hd'', h'', hw''⟩ :=
        ih (fun plain now hm => harr plain now (List.mem_cons_of_mem a hm)) hd' h'
      refine ⟨d'', hd'', h'', ?_⟩
      intro frame hf
      rcases hw'' frame hf with hf | hf
      · exact hw' frame hf
      · exact Or.inr hf

/-- Whatever group sizes the sender used and whatever order, loss and repetition its
packets met, a parity gives the frame stamped with the one index its group lacks, and
nothing unless exactly one is lacking. -/
theorem onParity_eq_some_iff (groupSize : Int) (ops : List SendOp)
    (hne : ∀ f ∈ ops.filterMap SendOp.frame?, f.1 ≠ [])
    (hgroups : completedGroups (run Sender.step (Sender.start groupSize) ops).sent < 2 ^ 32)
    (arrivals : List Arrival)
    (harr : ∀ plain now, Arrival.packet plain now ∈ arrivals →
      ∃ p ∈ (run Sender.step (Sender.start groupSize) ops).sent, p.plain = plain) :
    ∃ d, (run Receiver.step Receiver.start arrivals).fecDec = some d ∧
      (∀ {id i n frame}, Packet.data id i n frame
            ∈ (run Sender.step (Sender.start groupSize) ops).sent →
        ∀ now, (d.onData id i n frame now).held id = insert i (d.held id)) ∧
      ∀ {id n slot}, Packet.parity id n slot
            ∈ (run Sender.step (Sender.start groupSize) ops).sent →
        ∀ frame, (d.onParity id n slot).2 = some frame ↔
          ∃ j < n, d.held id = (Finset.range n).erase j ∧
            Packet.data id j n frame ∈ (run Sender.step (Sender.start groupSize) ops).sent := by
  have hsent := consistent_run hgroups
  have hstart : Receiver.start.fecDec = some newFECDecoder := rfl
  obtain ⟨d, hd, h, -⟩ := holds_run hsent harr hstart (holds_new _)
  refine ⟨d, hd, ?_, ?_⟩
  · intro id i n frame hp now
    rw [(h.onData hsent now hp).2, if_pos rfl]
  · intro id n slot hp frame
    rw [h.onParity_iff hsent hp frame]
    constructor
    · exact fun hframe => hframe.2
    · rintro ⟨j, hj, hall, hdata⟩
      obtain ⟨f, hf, rfl⟩ := mem_frames_of_sent hdata
      exact ⟨hne f hf, j, hj, hall, hdata⟩

/-- Two frames in a group of two, the first received. -/
theorem onParity_second_of_two :
    ∃ d, (run Receiver.step Receiver.start
        [.packet (Packet.data 1 0 2 [7]).plain 0]).fecDec = some d ∧
      (∀ {id i n frame}, Packet.data id i n frame
            ∈ (run Sender.step (Sender.start 2) [.frame ⟨[7], by decide⟩, .frame ⟨[8, 9], by decide⟩]).sent →
        ∀ now, (d.onData id i n frame now).held id = insert i (d.held id)) ∧
      ∀ {id n slot}, Packet.parity id n slot
            ∈ (run Sender.step (Sender.start 2) [.frame ⟨[7], by decide⟩, .frame ⟨[8, 9], by decide⟩]).sent →
        ∀ frame, (d.onParity id n slot).2 = some frame ↔
          ∃ j < n, d.held id = (Finset.range n).erase j ∧
            Packet.data id j n frame
              ∈ (run Sender.step (Sender.start 2)
                  [.frame ⟨[7], by decide⟩, .frame ⟨[8, 9], by decide⟩]).sent := by
  apply onParity_eq_some_iff 2 [.frame ⟨[7], by decide⟩, .frame ⟨[8, 9], by decide⟩]
  · decide
  · decide +kernel
  · intro plain now h
    cases List.mem_singleton.1 h
    exact ⟨Packet.data 1 0 2 [7], by decide +kernel, rfl⟩

end Simorgh.Tunnel
