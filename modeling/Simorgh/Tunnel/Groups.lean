import Mathlib.Data.Finset.Card
import Mathlib.Data.Finset.Range
import Simorgh.Lib.Parity
import Simorgh.Lib.Run
import Simorgh.Tunnel.Fec

/-!
# What a sender puts on the wire

Whatever the frames and the calls of `SetGroupSize` between them, the packets
sent are those of a list of groups, numbered from one: the data packets of each
group in order, then its parity once it is full.

* `Cut` — how the frames are cut into groups.
* `Sender.follows_run` — the encoder follows the cut, and the packets sent are the
  layout of its groups.
* `Consistent` — what the receiver relies on, in terms of the packets alone.
-/

namespace Simorgh.Tunnel

open Simorgh.Lib

/-- A frame as `ReadFrame` returns it. -/
abbrev Frame := { b : Bytes // b.length ≤ maxSinkReadSize }

/-- A frame of one byte. -/
def byteFrame (b : UInt8) : Frame := ⟨[b], by simp [maxSinkReadSize]⟩

/-! ## Groups -/

/-- The frames stamped with one group number so far. -/
structure Group where
  size : GroupSize
  frames : List Frame
  frames_le : frames.length ≤ size.1

/-- The id of the `k`-th group. -/
def groupIDAt (k : Nat) : UInt32 := UInt32.ofNat (k + 1)

theorem groupIDAt_succ (k : Nat) : groupIDAt k + 1 = groupIDAt (k + 1) := by
  simp [groupIDAt]

theorem groupIDAt_sub_one {k : Nat} (hk : k < 2 ^ 32) : (groupIDAt k - 1).toNat = k := by
  have h : groupIDAt k - 1 = UInt32.ofNat k := by simp [groupIDAt]
  rw [h, UInt32.toNat_ofNat']
  omega

theorem groupIDAt_toNat_sub_one (id : UInt32) : groupIDAt (id - 1).toNat = id := by
  have h : groupIDAt (id - 1).toNat = UInt32.ofNat (id - 1).toNat + 1 := by simp [groupIDAt]
  rw [h, UInt32.ofNat_toNat, UInt32.sub_add_cancel]

/-- The slots of the frames at a set of places, XORed. -/
def parityOf (slots : Nat → Slot) (places : Finset Nat) : Slot :=
  parity Slot.xor Slot.zero slots places

namespace Group

/-- The slot of the frame at a place. -/
def slotAt (frames : List Frame) (i : Nat) : Slot :=
  match frames[i]? with
  | some frame => Slot.ofFrame frame.1
  | none => Slot.zero

/-- The accumulator of the frames so far. -/
def accum (frames : List Frame) : Slot := parityOf (slotAt frames) (Finset.range frames.length)

/-- The data packets of a group. -/
def dataPackets (groupID : UInt32) (size : GroupSize) (frames : List Frame) : List Packet :=
  frames.mapIdx fun i frame => .data groupID i size.1 frame.1

/-- The packets of a group: its data packets, and the parity of a full group. -/
def packets (groupID : UInt32) (g : Group) : List Packet :=
  dataPackets groupID g.size g.frames ++
    if g.frames.length = g.size.1 then [.parity groupID g.size.1 (List.ofFn (accum g.frames))]
    else []

end Group

/-- The packets of a list of groups, numbered from zero. -/
def layout (groups : List Group) : List Packet :=
  groups.zipIdx.flatMap fun g => g.1.packets (groupIDAt g.2)

theorem layout_append (groups : List Group) (g : Group) :
    layout (groups ++ [g]) = layout groups ++ g.packets (groupIDAt groups.length) := by
  simp [layout, List.zipIdx_append, List.flatMap_append]

theorem mem_layout {groups : List Group} {p : Packet} :
    p ∈ layout groups ↔
      ∃ (k : Nat) (g : Group), groups[k]? = some g ∧ p ∈ g.packets (groupIDAt k) := by
  simp only [layout, List.mem_flatMap, Prod.exists, List.mem_zipIdx_iff_getElem?]
  constructor
  · rintro ⟨g, k, hg, hp⟩
    exact ⟨k, g, hg, hp⟩
  · rintro ⟨k, g, hg, hp⟩
    exact ⟨g, k, hg, hp⟩

namespace Group

theorem accum_append (frames : List Frame) (frame : Frame) :
    accum (frames ++ [frame]) = FecEncoder.foldSlot (accum frames) frame.1 := by
  have hlen : frame.1.length ≤ fecSlotSize - 2 := Nat.le_trans frame.2 (by decide)
  have hlast : slotAt (frames ++ [frame]) frames.length = Slot.ofFrame frame.1 := by
    simp [slotAt]
  have hrest : parityOf (slotAt (frames ++ [frame])) (Finset.range frames.length) = accum frames := by
    apply parity_congr
    intro i hi
    rw [Finset.mem_range] at hi
    simp [slotAt, List.getElem?_append_left hi]
  rw [accum, List.length_append, List.length_singleton, parityOf, Finset.range_add_one,
    parity_insert Finset.notMem_range_self, hlast, ← parityOf, hrest, FecEncoder.foldSlot,
    if_pos hlen, Slot.xor_comm]

theorem dataPackets_append (groupID : UInt32) (size : GroupSize) (frames : List Frame)
    (frame : Frame) :
    dataPackets groupID size (frames ++ [frame])
      = dataPackets groupID size frames ++ [.data groupID frames.length size.1 frame.1] := by
  simp [dataPackets, List.mapIdx_append]

end Group

/-! ## The sender -/

/-- What a sender does between and with its frames. -/
inductive SendOp where
  | frame (frame : Frame)
  | setGroupSize (n : Int)

/-- The frame of a call of `sendData`. -/
def SendOp.frame? : SendOp → Option Frame
  | .frame f => some f
  | .setGroupSize _ => none

/-- The encoder and what it has sent. -/
structure Sender where
  enc : FecEncoder
  sent : List Packet

namespace Sender

def start (groupSize : Int) : Sender := ⟨newFECEncoder groupSize, []⟩

/-- One operation. -/
def step (s : Sender) : SendOp → Sender
  | .frame f => ⟨(sendGrouped s.enc f.1).1, s.sent ++ (sendGrouped s.enc f.1).2⟩
  | .setGroupSize n => ⟨s.enc.setGroupSize n, s.sent⟩

/-- A frame that leaves the group open. -/
theorem sendGrouped_open {enc : FecEncoder} (frame : Bytes)
    (h : enc.index + 1 < enc.groupSize.1) :
    sendGrouped enc frame =
      ({ enc with
          accum := FecEncoder.foldSlot enc.accum frame, index := enc.index + 1, index_lt := h },
        [.data enc.groupID enc.index enc.groupSize.1 frame]) := by
  have hc : ¬ (enc.index + 1 ≥ enc.groupSize.1) := by omega
  simp [sendGrouped, FecEncoder.add, hc]

/-- A frame that completes the group. -/
theorem sendGrouped_full {enc : FecEncoder} (frame : Bytes)
    (h : enc.index + 1 = enc.groupSize.1) :
    sendGrouped enc frame =
      ({ enc with
          groupID := enc.groupID + 1, accum := Slot.zero, index := 0
          index_lt := Nat.lt_of_lt_of_le (by decide) enc.groupSize.2.1 },
        [.data enc.groupID enc.index enc.groupSize.1 frame,
          .parity enc.groupID enc.groupSize.1
            (List.ofFn (FecEncoder.foldSlot enc.accum frame))]) := by
  have hc : enc.index + 1 ≥ enc.groupSize.1 := by omega
  simp [sendGrouped, FecEncoder.add, FecEncoder.flushParity, hc]

theorem packets_open {g : Group} (h : g.frames.length < g.size.1) (groupID : UInt32) :
    g.packets groupID = Group.dataPackets groupID g.size g.frames := by
  rw [Group.packets, if_neg (by omega), List.append_nil]

end Sender

/-! ## The groups of a run -/

theorem GroupSize.pos (size : GroupSize) : 0 < size.1 := Nat.lt_of_lt_of_le (by decide) size.2.1

/-- A group without a frame. -/
def Group.empty (size : GroupSize) : Group := ⟨size, [], Nat.zero_le _⟩

/-- How the frames so far are cut into groups: the complete ones and the one in
progress. -/
structure Cut where
  groups : List Group
  cur : Group
  full : ∀ g ∈ groups, g.frames.length = g.size.1
  cur_lt : cur.frames.length < cur.size.1

namespace Cut

def start (groupSize : Int) : Cut :=
  ⟨[], Group.empty (clampGroupSize groupSize), by simp, GroupSize.pos _⟩

/-- The group in progress with one more frame. -/
def grown (c : Cut) (frame : Frame) : Group :=
  ⟨c.cur.size, c.cur.frames ++ [frame], by
    have := c.cur_lt
    rw [List.length_append, List.length_singleton]
    omega⟩

/-- A frame joins the group in progress; a full group is followed by a new one of the
same size, and a new size applies to an empty group only. -/
def step (c : Cut) : SendOp → Cut
  | .frame f =>
      if h : (c.grown f).frames.length = (c.grown f).size.1 then
        ⟨c.groups ++ [c.grown f], Group.empty c.cur.size, by
          intro g hg
          rcases List.mem_append.1 hg with hg | hg
          · exact c.full g hg
          · rw [List.mem_singleton.1 hg]
            exact h, GroupSize.pos _⟩
      else ⟨c.groups, c.grown f, c.full, Nat.lt_of_le_of_ne (c.grown f).frames_le h⟩
  | .setGroupSize n =>
      if c.cur.frames = [] then
        ⟨c.groups, Group.empty (clampGroupSize n), c.full, GroupSize.pos _⟩
      else c

/-- All groups, the one in progress last. -/
def all (c : Cut) : List Group := c.groups ++ [c.cur]

theorem frames_step (c : Cut) (op : SendOp) :
    (c.step op).all.flatMap Group.frames = c.all.flatMap Group.frames ++ op.frame?.toList := by
  cases op with
  | frame f =>
      simp only [step]
      split <;> simp [all, grown, Group.empty, SendOp.frame?]
  | setGroupSize n =>
      simp only [step]
      split
      case isTrue hnil => simp [all, Group.empty, SendOp.frame?, hnil]
      case isFalse => simp [SendOp.frame?]

/-- The groups hold the frames passed to `sendData`, in order. -/
theorem frames_run (groupSize : Int) (ops : List SendOp) :
    (run step (start groupSize) ops).all.flatMap Group.frames = ops.filterMap SendOp.frame? := by
  suffices h : ∀ c : Cut, (run step c ops).all.flatMap Group.frames
      = c.all.flatMap Group.frames ++ ops.filterMap SendOp.frame? by
    rw [h (start groupSize)]
    rfl
  induction ops with
  | nil =>
      intro c
      simp
  | cons op ops ih =>
      intro c
      rw [run_cons, ih, frames_step, List.filterMap_cons, List.append_assoc]
      cases op.frame? <;> rfl

end Cut

namespace Sender

/-- The sender has sent the packets of the groups, and its encoder holds the one in
progress. -/
structure Follows (s : Sender) (c : Cut) : Prop where
  sent : s.sent = layout c.all
  id : s.enc.groupID = groupIDAt c.groups.length
  size : s.enc.groupSize = c.cur.size
  index : s.enc.index = c.cur.frames.length
  accum : s.enc.accum = Group.accum c.cur.frames

theorem packets_empty (size : GroupSize) (id : UInt32) : (Group.empty size).packets id = [] :=
  packets_open (g := Group.empty size) size.pos id

theorem follows_start (groupSize : Int) : Follows (start groupSize) (Cut.start groupSize) where
  sent := by
    show [] = layout ([] ++ [Group.empty (clampGroupSize groupSize)])
    rw [layout_append, packets_empty]
    rfl
  id := rfl
  size := rfl
  index := rfl
  accum := rfl

theorem Follows.setGroupSize {s : Sender} {c : Cut} (h : Follows s c) (n : Int) :
    Follows (s.step (.setGroupSize n)) (c.step (.setGroupSize n)) := by
  by_cases hi : s.enc.index = 0
  · have hnil : c.cur.frames = [] := List.length_eq_zero_iff.1 (h.index ▸ hi)
    have henc : s.enc.setGroupSize n
        = { s.enc with
            groupSize := clampGroupSize n
            index_lt := hi ▸ GroupSize.pos _ } := by
      simp [FecEncoder.setGroupSize, hi]
    simp only [Sender.step, Cut.step, if_pos hnil, henc]
    exact {
      sent := by
        rw [h.sent, Cut.all, Cut.all, layout_append, layout_append, packets_empty,
          packets_open c.cur_lt, hnil]
        rfl
      id := h.id
      size := rfl
      index := hi
      accum := by
        rw [h.accum, hnil]
        rfl }
  · have hcur : c.cur.frames ≠ [] := by
      intro hnil
      rw [h.index, hnil] at hi
      exact hi rfl
    have henc : s.enc.setGroupSize n = s.enc := by simp [FecEncoder.setGroupSize, hi]
    simpa only [Sender.step, Cut.step, if_neg hcur, henc] using h

theorem Follows.frame {s : Sender} {c : Cut} (h : Follows s c) (f : Frame) :
    Follows (s.step (.frame f)) (c.step (.frame f)) := by
  have hgrown : (c.grown f).frames.length = s.enc.index + 1 := by
    rw [h.index]
    simp [Cut.grown]
  have hsize : (c.grown f).size.1 = s.enc.groupSize.1 := by rw [h.size]; rfl
  have hlt := s.enc.index_lt
  by_cases hfull : (c.grown f).frames.length = (c.grown f).size.1
  · have hlast : s.enc.index + 1 = s.enc.groupSize.1 := by rw [← hgrown, ← hsize, hfull]
    simp only [Sender.step, Cut.step, dif_pos hfull, sendGrouped_full f.1 hlast]
    exact {
      sent := by
        show s.sent ++ _ = layout (c.groups ++ [c.grown f] ++ [Group.empty c.cur.size])
        rw [layout_append (c.groups ++ [c.grown f]), packets_empty, List.append_nil, layout_append,
          h.sent, Cut.all, layout_append, packets_open c.cur_lt, Group.packets, if_pos hfull,
          List.append_assoc]
        simp only [Cut.grown, Group.dataPackets_append, Group.accum_append, h.id, h.index, h.size,
          h.accum, List.append_assoc, List.singleton_append]
      id := by
        rw [List.length_append, List.length_singleton, ← groupIDAt_succ, ← h.id]
      size := h.size
      index := rfl
      accum := rfl }
  · have hopen : s.enc.index + 1 < s.enc.groupSize.1 := by omega
    simp only [Sender.step, Cut.step, dif_neg hfull, sendGrouped_open f.1 hopen]
    have hopen' : (c.grown f).frames.length < (c.grown f).size.1 := by omega
    exact {
      sent := by
        show s.sent ++ [.data s.enc.groupID s.enc.index s.enc.groupSize.1 f.1] = _
        rw [Cut.all, layout_append, h.sent, Cut.all, layout_append, packets_open c.cur_lt,
          packets_open hopen', List.append_assoc, h.id, h.index, h.size]
        simp only [Cut.grown, Group.dataPackets_append]
      id := h.id
      size := h.size
      index := hgrown.symm
      accum := by
        rw [h.accum]
        simp only [Cut.grown, Group.accum_append] }

/-- The packets of every run are those of its groups. -/
theorem follows_run (groupSize : Int) (ops : List SendOp) :
    Follows (run step (start groupSize) ops) (run Cut.step (Cut.start groupSize) ops) := by
  have hstep : ∀ s c op, Follows s c → Follows (s.step op) (c.step op) := by
    intro s c op h
    cases op with
    | frame f => exact h.frame f
    | setGroupSize n => exact h.setGroupSize n
  exact run_rel hstep (follows_start groupSize) ops

end Sender

/-! ## The packets alone -/

namespace Group

theorem mem_packets_data {g : Group} {groupID id : UInt32} {i n : Nat} {frame : Bytes} :
    Packet.data id i n frame ∈ g.packets groupID ↔
      id = groupID ∧ n = g.size.1 ∧ ∃ f, g.frames[i]? = some f ∧ frame = f.1 := by
  rw [packets, List.mem_append, dataPackets, List.mem_mapIdx]
  constructor
  · rintro (⟨j, hj, heq⟩ | hp)
    · cases heq
      exact ⟨rfl, rfl, _, List.getElem?_eq_getElem hj, rfl⟩
    · split at hp <;> simp at hp
  · rintro ⟨rfl, rfl, f, hf, rfl⟩
    obtain ⟨hi, rfl⟩ := List.getElem?_eq_some_iff.1 hf
    exact Or.inl ⟨i, hi, rfl⟩

theorem mem_packets_parity {g : Group} {groupID id : UInt32} {n : Nat} {slot : Bytes} :
    Packet.parity id n slot ∈ g.packets groupID ↔
      id = groupID ∧ n = g.size.1 ∧ g.frames.length = g.size.1 ∧
        slot = List.ofFn (accum g.frames) := by
  rw [packets, List.mem_append, dataPackets, List.mem_mapIdx]
  constructor
  · rintro (⟨j, hj, heq⟩ | hp)
    · cases heq
    · split at hp
      case isTrue hfull =>
        cases List.mem_singleton.1 hp
        exact ⟨rfl, rfl, hfull, rfl⟩
      case isFalse => simp at hp
  · rintro ⟨rfl, rfl, hfull, hslot⟩
    rw [if_pos hfull, hslot]
    exact Or.inr (List.mem_singleton_self _)

theorem groupID_of_mem {g : Group} {id : UInt32} {p : Packet} (hp : p ∈ g.packets id) :
    p.groupID = id := by
  cases p with
  | data id' i n frame => exact (mem_packets_data.1 hp).1
  | parity id' n slot => exact (mem_packets_parity.1 hp).1

end Group

/-- A parity packet. -/
def Packet.isParity : Packet → Bool
  | .data .. => false
  | .parity .. => true

/-- How many groups the packets complete. -/
def completedGroups (packets : List Packet) : Nat := packets.countP Packet.isParity

theorem completedGroups_packets (g : Group) (groupID : UInt32) :
    completedGroups (g.packets groupID) = if g.frames.length = g.size.1 then 1 else 0 := by
  have hdata : List.countP Packet.isParity (Group.dataPackets groupID g.size g.frames) = 0 := by
    rw [List.countP_eq_zero]
    intro p hp
    obtain ⟨i, hi, rfl⟩ := List.mem_mapIdx.1 hp
    simp [Packet.isParity]
  rw [completedGroups, Group.packets, List.countP_append, hdata]
  split <;> simp [Packet.isParity]

theorem completedGroups_layout {groups : List Group} (h : ∀ g ∈ groups, g.frames.length = g.size.1) :
    completedGroups (layout groups) = groups.length := by
  induction groups using List.reverseRecOn with
  | nil => rfl
  | append_singleton groups g ih =>
      have hg : g.frames.length = g.size.1 := h g (by simp)
      have hgs : completedGroups (layout groups) = groups.length :=
        ih fun g hg => h g (List.mem_append_left _ hg)
      rw [layout_append, completedGroups, List.countP_append, ← completedGroups, ← completedGroups,
        hgs, completedGroups_packets, if_pos hg, List.length_append, List.length_singleton]

theorem Sender.Follows.completedGroups {s : Sender} {c : Cut} (h : s.Follows c) :
    completedGroups s.sent = c.groups.length := by
  have hopen : c.cur.frames.length ≠ c.cur.size.1 := Nat.ne_of_lt c.cur_lt
  have hcur := completedGroups_packets c.cur (groupIDAt c.groups.length)
  rw [if_neg hopen] at hcur
  rw [h.sent, Cut.all, layout_append, Tunnel.completedGroups, List.countP_append,
    ← Tunnel.completedGroups, ← Tunnel.completedGroups, hcur, completedGroups_layout c.full,
    Nat.add_zero]

/-- The frame of a data packet is one that was passed to `sendData`. -/
theorem mem_frames_of_sent {groupSize : Int} {ops : List SendOp} {id : UInt32} {i n : Nat}
    {frame : Bytes}
    (hp : Packet.data id i n frame ∈ (run Sender.step (Sender.start groupSize) ops).sent) :
    ∃ f ∈ ops.filterMap SendOp.frame?, f.1 = frame := by
  rw [(Sender.follows_run groupSize ops).sent] at hp
  obtain ⟨k, g, hk, hp⟩ := mem_layout.1 hp
  obtain ⟨-, -, f, hf, rfl⟩ := Group.mem_packets_data.1 hp
  refine ⟨f, ?_, rfl⟩
  rw [← Cut.frames_run groupSize ops]
  exact List.mem_flatMap.2 ⟨g, List.mem_of_getElem? hk, List.mem_of_getElem? hf⟩

/-- What the packets of a session have to do with each other. -/
structure Consistent (sent : List Packet) : Prop where
  data_lt : ∀ {id i n frame}, Packet.data id i n frame ∈ sent →
    i < n ∧ n ≤ 64 ∧ frame.length ≤ maxSinkReadSize
  data_eq : ∀ {id i n frame i' n' frame'}, Packet.data id i n frame ∈ sent →
    Packet.data id i' n' frame' ∈ sent → n = n' ∧ (i = i' → frame = frame')
  parity_eq : ∀ {id n slot}, Packet.parity id n slot ∈ sent → 2 ≤ n ∧ n ≤ 64 ∧
    ∃ frames : Nat → Bytes, (∀ i < n, Packet.data id i n (frames i) ∈ sent) ∧
      slot = List.ofFn (parityOf (fun i => Slot.ofFrame (frames i)) (Finset.range n))

/-- Packets that are those of one group for each id. -/
theorem consistent_of_groups {sent : List Packet} (groupOf : UInt32 → Option Group)
    (h : ∀ p, p ∈ sent ↔ ∃ g, groupOf p.groupID = some g ∧ p ∈ g.packets p.groupID) :
    Consistent sent where
  data_lt := by
    intro id i n frame hp
    obtain ⟨g, -, hp⟩ := (h _).1 hp
    obtain ⟨-, rfl, f, hf, rfl⟩ := Group.mem_packets_data.1 hp
    obtain ⟨hi, -⟩ := List.getElem?_eq_some_iff.1 hf
    exact ⟨Nat.lt_of_lt_of_le hi g.frames_le, g.size.2.2, f.2⟩
  data_eq := by
    intro id i n frame i' n' frame' hp hp'
    obtain ⟨g, hg, hp⟩ := (h _).1 hp
    obtain ⟨g', hg', hp'⟩ := (h _).1 hp'
    obtain ⟨-, rfl, f, hf, rfl⟩ := Group.mem_packets_data.1 hp
    obtain ⟨-, rfl, f', hf', rfl⟩ := Group.mem_packets_data.1 hp'
    obtain rfl : g = g' := Option.some_inj.1 (hg.symm.trans hg')
    refine ⟨rfl, ?_⟩
    rintro rfl
    rw [Option.some_inj.1 (hf.symm.trans hf')]
  parity_eq := by
    intro id n slot hp
    obtain ⟨g, hg, hp⟩ := (h _).1 hp
    obtain ⟨-, rfl, hfull, hslot⟩ := Group.mem_packets_parity.1 hp
    refine ⟨g.size.2.1, g.size.2.2, fun i => (g.frames[i]?.map Subtype.val).getD [], ?_, ?_⟩
    · intro i hi
      have hi' : i < g.frames.length := by omega
      refine (h _).2 ⟨g, hg, Group.mem_packets_data.2 ⟨rfl, rfl, g.frames[i], ?_, ?_⟩⟩
      · exact List.getElem?_eq_getElem hi'
      · simp [List.getElem?_eq_getElem hi']
    · rw [hslot, Group.accum, hfull]
      congr 1
      apply parity_congr
      intro i hi
      have hi' : i < g.frames.length := by
        rw [Finset.mem_range] at hi
        omega
      simp [Group.slotAt, List.getElem?_eq_getElem hi']

theorem consistent_packets (g : Group) (id : UInt32) : Consistent (g.packets id) := by
  apply consistent_of_groups fun id' => if id' = id then some g else none
  intro p
  constructor
  · intro hp
    have hid := Group.groupID_of_mem hp
    exact ⟨g, by rw [if_pos hid], by rwa [hid]⟩
  · rintro ⟨g', hg, hp⟩
    by_cases hid : p.groupID = id
    · rw [if_pos hid] at hg
      rw [hid] at hp
      rwa [Option.some_inj.1 hg]
    · rw [if_neg hid] at hg
      cases hg

/-- Up to 2^32 groups have distinct ids. -/
theorem consistent_layout {groups : List Group} (hlen : groups.length ≤ 2 ^ 32) :
    Consistent (layout groups) := by
  apply consistent_of_groups fun id => groups[(id - 1).toNat]?
  intro p
  rw [mem_layout]
  constructor
  · rintro ⟨k, g, hk, hp⟩
    have hid := Group.groupID_of_mem hp
    obtain ⟨hlt, -⟩ := List.getElem?_eq_some_iff.1 hk
    refine ⟨g, ?_, by rwa [hid]⟩
    rw [hid, groupIDAt_sub_one (by omega)]
    exact hk
  · rintro ⟨g, hg, hp⟩
    refine ⟨_, g, hg, ?_⟩
    rwa [groupIDAt_toNat_sub_one]

theorem consistent_run {groupSize : Int} {ops : List SendOp}
    (h : completedGroups (run Sender.step (Sender.start groupSize) ops).sent < 2 ^ 32) :
    Consistent (run Sender.step (Sender.start groupSize) ops).sent := by
  have hf := Sender.follows_run groupSize ops
  rw [hf.completedGroups] at h
  rw [hf.sent]
  apply consistent_layout
  rw [Cut.all, List.length_append, List.length_singleton]
  omega

end Simorgh.Tunnel
