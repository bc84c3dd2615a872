import Mathlib.Logic.Function.Basic
import Mathlib.Data.Fintype.Basic
import Simorgh.Lib.Bytes

/-!
# The FEC encoder and decoder

`fec.go`, with the parts of `sendData` and `handlePlain` that write and read its
packets.  A slot is the frame's length, the frame and zeros up to `fecSlotSize`;
a parity is the XOR of the slots of a group.

* `Packet.plain` — the plaintext `sendData` seals for a packet.
* `handlePlain_data`, `handlePlain_parity` — what the receiver does with it.
-/

namespace Simorgh.Tunnel

open Simorgh.Lib

/-! ## Packet types -/

/-- The packet types. -/
def pktData : UInt8 := 0x01
def pktKeepalive : UInt8 := 0x02
def pktParity : UInt8 := 0x03
def pktPing : UInt8 := 0x04
def pktPong : UInt8 := 0x05
def pktClose : UInt8 := 0x06

/-- Bound of every frame that FEC protects. -/
def fecSlotSize : Nat := 2048

/-- Bound of one read from a sink. -/
def maxSinkReadSize : Nat := 1400

/-! ## Slots -/

/-- `[fecSlotSize]byte` -/
abbrev Slot := Fin fecSlotSize → UInt8

namespace Slot

/-- No bytes. -/
def zero : Slot := fun _ => 0

/-- Byte by byte. -/
def xor (a b : Slot) : Slot := fun i => a i ^^^ b i

theorem xor_comm (a b : Slot) : xor a b = xor b a :=
  funext fun i => UInt8.xor_comm (a i) (b i)

instance : Std.Commutative xor := ⟨xor_comm⟩

instance : Std.Associative xor := ⟨fun a b c => funext fun i => UInt8.xor_assoc (a i) (b i) (c i)⟩

theorem zero_xor (a : Slot) : xor zero a = a := funext fun _ => UInt8.zero_xor

theorem xor_self (a : Slot) : xor a a = zero := funext fun _ => UInt8.xor_self

/-- The slot of a frame: its length in two bytes, the frame, zeros. -/
def ofFrame (frame : Bytes) : Slot := fun i =>
  if i.val = 0 then UInt8.ofNat (frame.length / 2 ^ 8)
  else if i.val = 1 then UInt8.ofNat frame.length
  else frame.getD (i.val - 2) 0

/-- The length in the first two bytes. -/
def len (slot : Slot) : Nat :=
  uint16 (slot ⟨0, by decide⟩) (slot ⟨1, by decide⟩)

/-- `slot[2 : 2+n]` -/
def payload (slot : Slot) (n : Nat) (hn : n ≤ fecSlotSize - 2) : Bytes :=
  List.ofFn fun i : Fin n => slot ⟨i.val + 2, by have := i.isLt; simp only [fecSlotSize] at *; omega⟩

end Slot

/-! ## The encoder -/

/-- A group size as the constructor and `SetGroupSize` keep it. -/
abbrev GroupSize := { n : Nat // 2 ≤ n ∧ n ≤ 64 }

/-- The bounds both setters apply. -/
def clampGroupSize (n : Int) : GroupSize :=
  if h : n < 2 then ⟨2, by decide⟩
  else if h' : n > 64 then ⟨64, by decide⟩
  else ⟨n.toNat, by omega⟩

/-- The sender's open group. -/
structure FecEncoder where
  groupSize : GroupSize
  groupID : UInt32
  index : Nat
  accum : Slot
  index_lt : index < groupSize.1

/-- An encoder without an open group. -/
def newFECEncoder (groupSize : Int) : FecEncoder where
  groupSize := clampGroupSize groupSize
  groupID := 1
  index := 0
  accum := Slot.zero
  index_lt := Nat.lt_of_lt_of_le (by decide) (clampGroupSize groupSize).2.1

namespace FecEncoder

/-- `SetGroupSize`: takes effect between groups only. -/
def setGroupSize (f : FecEncoder) (n : Int) : FecEncoder :=
  if h : f.index = 0 then
    { f with
      groupSize := clampGroupSize n
      index_lt := by have := (clampGroupSize n).2.1; omega }
  else f

/-- XORs a frame into a group's accumulator, if it fits a slot. -/
def foldSlot (accum : Slot) (frame : Bytes) : Slot :=
  if frame.length ≤ fecSlotSize - 2 then accum.xor (Slot.ofFrame frame) else accum

/-- `add`: the group id and index to stamp, and whether the group is complete. -/
def add (f : FecEncoder) (frame : Bytes) : FecEncoder × UInt32 × Nat × Bool :=
  if h : f.index + 1 ≥ f.groupSize.1 then
    ({ f with
        accum := foldSlot f.accum frame, index := 0
        index_lt := Nat.lt_of_lt_of_le (by decide) f.groupSize.2.1 },
      f.groupID, f.index, true)
  else
    ({ f with accum := foldSlot f.accum frame, index := f.index + 1, index_lt := by omega },
      f.groupID, f.index, false)

/-- `flushParity`: group id, size and parity of the group just completed. -/
def flushParity (f : FecEncoder) : FecEncoder × UInt32 × Nat × Bytes :=
  ({ f with groupID := f.groupID + 1, accum := Slot.zero },
    f.groupID, f.groupSize.1, List.ofFn f.accum)

end FecEncoder

/-- `adaptiveGroupSize` -/
def adaptiveGroupSize (configured peerQualityPct : Int) : Int :=
  if peerQualityPct ≤ 0 then configured
  else if peerQualityPct < 80 then 4
  else if peerQualityPct < 95 then 8
  else 16

/-! ## Packets -/

/-- The packets `sendData` builds. -/
inductive Packet where
  | data (groupID : UInt32) (index groupSize : Nat) (frame : Bytes)
  | parity (groupID : UInt32) (groupSize : Nat) (slot : Bytes)
deriving DecidableEq

/-- The plaintext of a packet: header and contents. -/
def Packet.plain : Packet → Bytes
  | .data groupID index groupSize frame =>
      pktData :: (putUint32 groupID ++ UInt8.ofNat index :: UInt8.ofNat groupSize :: frame)
  | .parity groupID groupSize slot =>
      pktParity :: (putUint32 groupID ++ UInt8.ofNat groupSize :: slot)

/-- The group of a packet. -/
def Packet.groupID : Packet → UInt32
  | .data id .. => id
  | .parity id .. => id

/-- The size a packet carries. -/
def Packet.groupSize : Packet → Nat
  | .data _ _ n _ => n
  | .parity _ n _ => n

/-- The packets of one frame with FEC on: the data packet at once, the parity when the
group is complete. -/
def sendGrouped (enc : FecEncoder) (frame : Bytes) : FecEncoder × List Packet :=
  match enc.add frame with
  | (enc, groupID, index, complete) =>
      let packet := Packet.data groupID index enc.groupSize.1 frame
      if complete then
        match enc.flushParity with
        | (enc, gid, gsize, parity) => (enc, [packet, .parity gid gsize parity])
      else (enc, [packet])

/-- `sendData`, up to the sealing of its packets. -/
def sendData (fecEnc : Option FecEncoder) (frame : Bytes) : Option FecEncoder × List Packet :=
  match fecEnc with
  | some enc => (some (sendGrouped enc frame).1, (sendGrouped enc frame).2)
  | none => (none, [.data 0 0 0 frame])

/-! ## The decoder -/

/-- What has arrived of a group. -/
structure FecGroupState where
  mask : BitVec 64
  accum : Slot
  size : Nat
  seen : Nat
  lastSeen : Int

/-- The state of a group once a data slot is folded in. -/
def FecGroupState.fold (g : FecGroupState) (index : Nat) (frame : Bytes) (now : Int) :
    FecGroupState :=
  if g.mask &&& (1#64 <<< index) ≠ 0 then g
  else
    { g with
      mask := g.mask ||| (1#64 <<< index)
      accum := FecEncoder.foldSlot g.accum frame
      seen := g.seen + 1
      lastSeen := now }

/-- The frame a parity gives when one slot of the group is missing. -/
def FecGroupState.recover (g : FecGroupState) (groupSize : Nat) (parity : Bytes) : Option Bytes :=
  if g.size ≠ groupSize ∨ parity.length ≠ fecSlotSize then none
  else if groupSize ≠ g.seen + 1 then none
  else
    let recovered : Slot := g.accum.xor fun i => parity.getD i.val 0
    if hn : recovered.len ≤ fecSlotSize - 2 then
      -- an empty append to a nil slice stays nil
      if recovered.len = 0 then none else some (recovered.payload recovered.len hn)
    else none

/-- The receiver's groups. -/
structure FecDecoder where
  groups : UInt32 → Option FecGroupState

/-- A decoder without groups. -/
def newFECDecoder : FecDecoder := ⟨fun _ => none⟩

namespace FecDecoder

/-- `group`: the state of a group, a new one if there is none. -/
def group (d : FecDecoder) (groupID : UInt32) (groupSize : Nat) : FecGroupState :=
  (d.groups groupID).getD ⟨0, Slot.zero, groupSize, 0, 0⟩

/-- `onData` -/
def onData (d : FecDecoder) (groupID : UInt32) (index groupSize : Nat) (frame : Bytes)
    (now : Int) : FecDecoder :=
  if groupSize = 0 ∨ 64 ≤ index then d
  else ⟨Function.update d.groups groupID (some ((d.group groupID groupSize).fold index frame now))⟩

/-- `onParity`: drops the group and returns the frame it recovers, if any. -/
def onParity (d : FecDecoder) (groupID : UInt32) (groupSize : Nat) (parity : Bytes) :
    FecDecoder × Option Bytes :=
  (⟨Function.update d.groups groupID none⟩,
    (d.groups groupID).bind fun g => g.recover groupSize parity)

/-- `gc`: drops the groups last seen more than `maxAge` ago. -/
def gc (d : FecDecoder) (maxAge now : Int) : FecDecoder :=
  ⟨fun id => (d.groups id).filter fun g => ¬ (now - g.lastSeen > maxAge)⟩

theorem onData_self {d : FecDecoder} {groupID : UInt32} {index groupSize : Nat} {frame : Bytes}
    {now : Int} (hok : ¬ (groupSize = 0 ∨ 64 ≤ index)) :
    (d.onData groupID index groupSize frame now).groups groupID
      = some ((d.group groupID groupSize).fold index frame now) := by
  rw [onData, if_neg hok]
  exact Function.update_self ..

theorem onData_of_ne {d : FecDecoder} {groupID id : UInt32} {index groupSize : Nat}
    {frame : Bytes} {now : Int} (hid : id ≠ groupID) :
    (d.onData groupID index groupSize frame now).groups id = d.groups id := by
  rw [onData]
  split
  · rfl
  · exact Function.update_of_ne hid ..

theorem onParity_self {d : FecDecoder} {groupID : UInt32} {groupSize : Nat} {parity : Bytes} :
    (d.onParity groupID groupSize parity).1.groups groupID = none :=
  Function.update_self ..

theorem onParity_of_ne {d : FecDecoder} {groupID id : UInt32} {groupSize : Nat} {parity : Bytes}
    (hid : id ≠ groupID) : (d.onParity groupID groupSize parity).1.groups id = d.groups id :=
  Function.update_of_ne hid ..

end FecDecoder

/-! ## The receive path -/

/-- Group id, index, group size and frame of a data packet. -/
def parseData : Bytes → Option (UInt32 × Nat × Nat × Bytes)
  | b0 :: b1 :: b2 :: b3 :: index :: groupSize :: frame =>
      some (uint32 b0 b1 b2 b3, index.toNat, groupSize.toNat, frame)
  | _ => none

/-- Group id, group size and slot of a parity packet. -/
def parseParity : Bytes → Option (UInt32 × Nat × Bytes)
  | b0 :: b1 :: b2 :: b3 :: groupSize :: parity =>
      some (uint32 b0 b1 b2 b3, groupSize.toNat, parity)
  | _ => none

/-- `handlePlain`: the decoder it leaves and the frame it writes to the sink. -/
def handlePlain (plain : Bytes) (fecDec : Option FecDecoder) (now : Int) :
    Option FecDecoder × Option Bytes :=
  match plain with
  | [] => (fecDec, none)
  | kind :: rest =>
      if kind = pktKeepalive then (fecDec, none)
      else if kind = pktData then
        match parseData rest with
        | some (groupID, index, groupSize, frame) =>
            (if groupSize > 0 then fecDec.map fun d => d.onData groupID index groupSize frame now
              else fecDec, some frame)
        | none => (fecDec, none)
      else if kind = pktParity then
        match fecDec, parseParity rest with
        | some d, some (groupID, groupSize, parity) =>
            (some (d.onParity groupID groupSize parity).1, (d.onParity groupID groupSize parity).2)
        | _, _ => (fecDec, none)
      else (fecDec, none)

theorem parseData_put (groupID : UInt32) {index groupSize : Nat} (frame : Bytes)
    (hi : index < 2 ^ 8) (hs : groupSize < 2 ^ 8) :
    parseData (putUint32 groupID ++ UInt8.ofNat index :: UInt8.ofNat groupSize :: frame)
      = some (groupID, index, groupSize, frame) := by
  obtain ⟨b0, b1, b2, b3, hput, hget⟩ := putUint32_eq groupID
  have hi8 : (UInt8.ofNat index).toNat = index := by
    rw [UInt8.toNat_ofNat']
    omega
  have hs8 : (UInt8.ofNat groupSize).toNat = groupSize := by
    rw [UInt8.toNat_ofNat']
    omega
  simp only [hput, List.cons_append, List.nil_append, parseData, hget, hi8, hs8]

theorem parseParity_put (groupID : UInt32) {groupSize : Nat} (slot : Bytes)
    (hs : groupSize < 2 ^ 8) :
    parseParity (putUint32 groupID ++ UInt8.ofNat groupSize :: slot)
      = some (groupID, groupSize, slot) := by
  obtain ⟨b0, b1, b2, b3, hput, hget⟩ := putUint32_eq groupID
  have hs8 : (UInt8.ofNat groupSize).toNat = groupSize := by
    rw [UInt8.toNat_ofNat']
    omega
  simp only [hput, List.cons_append, List.nil_append, parseParity, hget, hs8]

/-- A data packet is folded into its group and its frame is written. -/
theorem handlePlain_data (d : FecDecoder) (groupID : UInt32) {index groupSize : Nat}
    (frame : Bytes) (now : Int) (hi : index < 64) (hs : 0 < groupSize ∧ groupSize ≤ 64) :
    handlePlain (Packet.data groupID index groupSize frame).plain (some d) now
      = (some (d.onData groupID index groupSize frame now), some frame) := by
  have hparse := parseData_put groupID frame (show index < 2 ^ 8 by omega)
    (show groupSize < 2 ^ 8 by omega)
  have hk : pktData ≠ pktKeepalive := by decide
  simp only [Packet.plain, handlePlain, if_neg hk, if_true, hparse, gt_iff_lt, hs.1,
    Option.map_some]

/-- A parity packet is handed to the decoder, and what it recovers is written. -/
theorem handlePlain_parity (d : FecDecoder) (groupID : UInt32) {groupSize : Nat}
    (slot : Bytes) (now : Int) (hs : groupSize ≤ 64) :
    handlePlain (Packet.parity groupID groupSize slot).plain (some d) now
      = (some (d.onParity groupID groupSize slot).1, (d.onParity groupID groupSize slot).2) := by
  have hparse := parseParity_put groupID slot (show groupSize < 2 ^ 8 by omega)
  have hk : pktParity ≠ pktKeepalive := by decide
  have hd : pktParity ≠ pktData := by decide
  simp only [Packet.plain, handlePlain, if_neg hk, if_neg hd, if_true, hparse]

end Simorgh.Tunnel
