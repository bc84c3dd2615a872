import Simorgh.Lib.OnesComplement

/-!
# Envelopes as ICMP echo requests

The ICMP transport carries an envelope as the payload of an echo request.  What is read back
may or may not begin with the IPv4 header, and the first byte is to tell which.

* `icmpChecksum`, `send`, `readOnce` — the code.
* `icmpChecksum_echoRequest` — a finished message sums to nothing.
* `readOnce_bare`, `readOnce_behind` — a message that does not look like a header is read as
  it stands; one behind a header is read as what follows the header.
* `framing_exact_iff` — what is sent comes back and nothing else does, exactly when the other
  message does not itself look like an IPv4 header before an echo request.
-/

namespace Simorgh.Tunnel

open Simorgh.Lib

/-- The types of the messages. -/
def icmpEchoRequest : UInt8 := 8
/-- The echo request of ICMPv6. -/
def icmpv6EchoRequest : UInt8 := 128
def icmpHeaderLen : ℕ := 8

/-! ## The checksum -/

/-- The first loop of `icmpChecksum` and the odd byte after it. -/
def addWords (sum : UInt32) : Bytes → UInt32
  | [] => sum
  | [a] => sum + (a.toUInt32 <<< 8)
  | a :: b :: rest => addWords (sum + ((a.toUInt32 <<< 8) ||| b.toUInt32)) rest

/-- One round of the second loop. -/
def addCarry (sum : UInt32) : UInt32 := (sum &&& (0xffff : UInt32)) + (sum >>> (16 : UInt32))

theorem shiftRight_toNat (sum : UInt32) : (sum >>> (16 : UInt32)).toNat = sum.toNat / 2 ^ 16 := by
  rw [UInt32.toNat_shiftRight, Nat.shiftRight_eq_div_pow]
  rfl

theorem low_toNat (sum : UInt32) : (sum &&& (0xffff : UInt32)).toNat = sum.toNat % 2 ^ 16 := by
  rw [UInt32.toNat_and]
  exact Nat.and_two_pow_sub_one_eq_mod sum.toNat 16

theorem addCarry_toNat (sum : UInt32) :
    (addCarry sum).toNat = sum.toNat % 2 ^ 16 + sum.toNat / 2 ^ 16 := by
  have hsum := sum.toNat_lt
  rw [addCarry, UInt32.toNat_add, low_toNat, shiftRight_toNat]
  omega

/-- The second loop. -/
def foldSum (sum : UInt32) : UInt32 :=
  if 0 < sum >>> (16 : UInt32) then foldSum (addCarry sum) else sum
termination_by sum.toNat
decreasing_by
  rename_i hcarry
  have hcarry : 0 < (sum >>> (16 : UInt32)).toNat := hcarry
  rw [shiftRight_toNat] at hcarry
  rw [addCarry_toNat]
  omega

/-- The Internet checksum. -/
def icmpChecksum (data : Bytes) : UInt16 := ~~~(foldSum (addWords 0 data)).toUInt16

theorem word_toNat (a b : UInt8) : ((a.toUInt32 <<< 8) ||| b.toUInt32).toNat = uint16 a b := by
  have ha := a.toNat_lt
  have hb := b.toNat_lt
  have hshift : (a.toUInt32 <<< 8).toNat = a.toNat <<< 8 := by
    rw [UInt32.toNat_shiftLeft, UInt8.toNat_toUInt32]
    have hlt : a.toNat <<< 8 < 2 ^ 32 := by
      rw [Nat.shiftLeft_eq]
      omega
    exact Nat.mod_eq_of_lt hlt
  rw [UInt32.toNat_or, hshift, UInt8.toNat_toUInt32, ← Nat.shiftLeft_add_eq_or_of_lt hb, Nat.shiftLeft_eq]
  rfl

/-- As long as the sum of the words fits 32 bits, nothing is lost. -/
theorem addWords_toNat (sum : UInt32) (data : Bytes) (h : sum.toNat + wordSum data < 2 ^ 32) :
    (addWords sum data).toNat = sum.toNat + wordSum data := by
  induction sum, data using addWords.induct with
  | case1 sum => rfl
  | case2 sum a =>
      have hword := word_toNat a 0
      rw [show (0 : UInt8).toUInt32 = 0 from rfl, UInt32.or_zero] at hword
      rw [addWords, wordSum, UInt32.toNat_add, hword]
      exact Nat.mod_eq_of_lt h
  | case3 sum a b rest ih =>
      rw [wordSum] at h
      have hword : (sum + ((a.toUInt32 <<< 8) ||| b.toUInt32)).toNat = sum.toNat + uint16 a b := by
        rw [UInt32.toNat_add, word_toNat]
        exact Nat.mod_eq_of_lt (by omega)
      rw [addWords, wordSum, ih (by omega), hword, Nat.add_assoc]

theorem foldSum_toNat (sum : UInt32) : (foldSum sum).toNat = foldCarry sum.toNat := by
  induction sum using foldSum.induct with
  | case1 sum hcarry ih =>
      have hcarry' : 0 < sum.toNat / 2 ^ 16 := by
        rw [← shiftRight_toNat]
        exact hcarry
      rw [foldSum, if_pos hcarry, ih, addCarry_toNat, foldCarry.eq_1 sum.toNat, if_pos hcarry']
  | case2 sum hnone =>
      have hnone' : ¬ 0 < sum.toNat / 2 ^ 16 := by
        rw [← shiftRight_toNat]
        exact hnone
      rw [foldSum, if_neg hnone, foldCarry, if_neg hnone']

/-- The checksum is the complement of the folded sum. -/
theorem icmpChecksum_toNat {data : Bytes} (h : wordSum data < 2 ^ 32) :
    (icmpChecksum data).toNat = 2 ^ 16 - 1 - foldCarry (wordSum data) := by
  have hsum : (addWords 0 data).toNat = wordSum data := by
    rw [addWords_toNat 0 data (by simpa using h)]
    exact Nat.zero_add _
  have hfold := foldCarry_lt (wordSum data)
  rw [icmpChecksum, UInt16.toNat_not, UInt32.toNat_toUInt16, foldSum_toNat, hsum, Nat.mod_eq_of_lt hfold]
  rfl

/-! ## Sending -/

/-- The message of an echo request with zero id and sequence number. -/
def echoRequest (cs : UInt16) (data : Bytes) : Bytes :=
  icmpEchoRequest :: 0 :: (putUint16 cs.toNat ++ putUint16 0 ++ putUint16 0 ++ data)

/-- The message `Send` writes to the IPv4 socket. -/
def echoMessage (data : Bytes) : Bytes := echoRequest (icmpChecksum (echoRequest 0 data)) data

/-- The message `Send` writes to the IPv6 socket, whose checksum is the kernel's to fill in. -/
def echoMessage6 (data : Bytes) : Bytes := icmpv6EchoRequest :: 0 :: (List.replicate 6 0 ++ data)

/-- The sockets that could be opened. -/
structure IcmpTransport where
  v4 : Bool
  v6 : Bool

/-- The addresses a read returns. -/
inductive NetAddr where
  /-- a `*net.IPAddr`, and whether it is an IPv4 address -/
  | ip (to4 : Bool)
  | other

/-- What is written, and to which socket. -/
inductive Written where
  | v4 (msg : Bytes)
  | v6 (msg : Bytes)

/-- `Send`, up to the write. -/
def IcmpTransport.send (t : IcmpTransport) (addr : NetAddr) (data : Bytes) : Except String Written :=
  match addr with
  | .other => .error "icmp transport requires *net.IPAddr"
  | .ip false =>
      if t.v6 then .ok (.v6 (echoMessage6 data))
      else .error "no IPv6 ICMP socket available (peer address is IPv6)"
  | .ip true =>
      if t.v4 then .ok (.v4 (echoMessage data))
      else .error "no IPv4 ICMP socket available (peer address is IPv4)"

theorem wordSum_echoRequest (cs : UInt16) (data : Bytes) :
    wordSum (echoRequest cs data) = 2 ^ 11 + cs.toNat + wordSum data := by
  have hcs : uint16 (UInt8.ofNat (cs.toNat / 2 ^ 8)) (UInt8.ofNat cs.toNat) = cs.toNat := uint16_put cs.toNat_lt
  have hzero : uint16 (UInt8.ofNat (0 / 2 ^ 8)) (UInt8.ofNat 0) = 0 := rfl
  have htype : uint16 icmpEchoRequest 0 = 2 ^ 11 := rfl
  simp only [echoRequest, putUint16, List.cons_append, List.nil_append, wordSum, hcs, hzero, htype]
  omega

theorem length_echoRequest (cs : UInt16) (data : Bytes) :
    (echoRequest cs data).length = icmpHeaderLen + data.length := by
  simp only [echoRequest, putUint16, icmpHeaderLen, List.length_cons, List.length_append, List.length_nil]
  omega

theorem wordSum_echoRequest_lt (cs : UInt16) {data : Bytes} (hdata : data.length ≤ 65507) :
    wordSum (echoRequest cs data) < 2 ^ 32 := by
  have hle := wordSum_le (echoRequest cs data)
  rw [length_echoRequest] at hle
  have hwords : (icmpHeaderLen + data.length + 1) / 2 ≤ 2 ^ 15 := by
    unfold icmpHeaderLen
    omega
  calc wordSum (echoRequest cs data)
      ≤ (icmpHeaderLen + data.length + 1) / 2 * (2 ^ 16 - 1) := hle
    _ ≤ 2 ^ 15 * (2 ^ 16 - 1) := Nat.mul_le_mul_right _ hwords
    _ < 2 ^ 32 := by decide

/-- The finished message sums to all ones. -/
theorem icmpChecksum_echoMessage {data : Bytes} (hdata : data.length ≤ 65507) :
    icmpChecksum (echoMessage data) = 0 := by
  apply UInt16.toNat_inj.1
  have hpos : 0 < wordSum (echoRequest 0 data) := by
    rw [wordSum_echoRequest]
    omega
  have hsum : wordSum (echoMessage data) = wordSum (echoRequest 0 data) +
      (2 ^ 16 - 1 - foldCarry (wordSum (echoRequest 0 data))) := by
    rw [← icmpChecksum_toNat (wordSum_echoRequest_lt 0 hdata), echoMessage, wordSum_echoRequest,
      wordSum_echoRequest]
    simp only [UInt16.toNat_zero]
    omega
  have hlt : wordSum (echoMessage data) < 2 ^ 32 := wordSum_echoRequest_lt _ hdata
  rw [icmpChecksum_toNat hlt, hsum, foldCarry_add_complement hpos]
  rfl

/-! ## Reading -/

/-- The part of an IPv4 read that is taken for the ICMP message. -/
def candidate (raw : Bytes) : Bytes :=
  if 20 ≤ raw.length ∧ raw.headD 0 >>> 4 = 4 then
    let ihl := (raw.headD 0 &&& 0x0f).toNat * 4
    if 20 ≤ ihl ∧ ihl + icmpHeaderLen ≤ raw.length then raw.drop ihl else raw
  else raw

/-- One round of `readLoop`: the payload it hands on, if it does.  The buffer is of 66000
bytes. -/
def readOnce (v6 : Bool) (delivered : Bytes) : Option Bytes :=
  let raw := delivered.take 66000
  if raw.length < icmpHeaderLen then none
  else if v6 then
    if raw.headD 0 ≠ icmpv6EchoRequest then none else some (raw.drop icmpHeaderLen)
  else
    if (candidate raw).headD 0 ≠ icmpEchoRequest then none
    else some ((candidate raw).drop icmpHeaderLen)

/-- An IPv4 header: version 4, and a length of 5 to 15 words which it has. -/
structure IPv4Header where
  ihl : ℕ
  bytes : Bytes
  five_le : 5 ≤ ihl
  le_fifteen : ihl ≤ 15
  first : bytes.head? = some (UInt8.ofNat (64 + ihl))
  length_bytes : bytes.length = ihl * 4

theorem IPv4Header.head?_append (header : IPv4Header) (rest : Bytes) :
    (header.bytes ++ rest).head? = some (UInt8.ofNat (64 + header.ihl)) := by
  rw [List.head?_append, header.first]
  rfl

/-- A header does not begin as an echo request does. -/
theorem IPv4Header.head?_ne_echoRequest (header : IPv4Header) (rest : Bytes) :
    (header.bytes ++ rest).head? ≠ some icmpEchoRequest := by
  intro hecho
  rw [header.head?_append, Option.some.injEq] at hecho
  have hnat : (UInt8.ofNat (64 + header.ihl)).toNat = 8 := congrArg UInt8.toNat hecho
  have hle := header.le_fifteen
  rw [UInt8.toNat_ofNat'] at hnat
  omega

/-- The bytes of a message read as an IPv4 header with an echo request behind it. -/
def LooksLikeHeader (raw : Bytes) : Prop :=
  ∃ ihl, 5 ≤ ihl ∧ ihl ≤ 15 ∧ raw.head? = some (UInt8.ofNat (64 + ihl)) ∧
    ihl * 4 + icmpHeaderLen ≤ raw.length ∧ raw[ihl * 4]? = some icmpEchoRequest

instance (raw : Bytes) : Decidable (LooksLikeHeader raw) :=
  decidable_of_iff
    (∃ ihl ∈ List.range 16, 5 ≤ ihl ∧ raw.head? = some (UInt8.ofNat (64 + ihl)) ∧
      ihl * 4 + icmpHeaderLen ≤ raw.length ∧ raw[ihl * 4]? = some icmpEchoRequest) <| by
    constructor
    · rintro ⟨ihl, hle, hfive, hrest⟩
      exact ⟨ihl, hfive, Nat.le_of_lt_succ (List.mem_range.1 hle), hrest⟩
    · rintro ⟨ihl, hfive, hle, hrest⟩
      exact ⟨ihl, List.mem_range.2 (Nat.lt_succ_of_le hle), hfive, hrest⟩

theorem version_toNat (b : UInt8) : (b >>> 4 : UInt8).toNat = b.toNat / 2 ^ 4 := by
  rw [UInt8.toNat_shiftRight, Nat.shiftRight_eq_div_pow]
  rfl

theorem ihl_toNat (b : UInt8) : (b &&& 0x0f : UInt8).toNat = b.toNat % 2 ^ 4 := by
  rw [UInt8.toNat_and]
  exact Nat.and_two_pow_sub_one_eq_mod b.toNat 4

theorem ihl_of_first {ihl : ℕ} (hle : ihl ≤ 15) :
    UInt8.ofNat (64 + ihl) >>> 4 = 4 ∧ (UInt8.ofNat (64 + ihl) &&& 0x0f : UInt8).toNat * 4 = ihl * 4 := by
  have hfirst : (UInt8.ofNat (64 + ihl)).toNat = 64 + ihl := by
    rw [UInt8.toNat_ofNat']
    omega
  constructor
  · apply UInt8.toNat_inj.1
    rw [version_toNat, hfirst]
    show (64 + ihl) / 2 ^ 4 = 4
    omega
  · rw [ihl_toNat, hfirst]
    omega

theorem first_of_version {b : UInt8} (h : b >>> 4 = 4) :
    b = UInt8.ofNat (64 + (b &&& 0x0f : UInt8).toNat) ∧ (b &&& 0x0f : UInt8).toNat ≤ 15 := by
  have hversion : b.toNat / 2 ^ 4 = 4 := by
    rw [← version_toNat, h]
    rfl
  rw [ihl_toNat]
  constructor
  · apply UInt8.toNat_inj.1
    rw [UInt8.toNat_ofNat']
    omega
  · omega

/-- What is read is an echo request or is nothing. -/
theorem readOnce_eq {delivered : Bytes} (hlength : delivered.length ≤ 66000) :
    readOnce false delivered =
      if delivered.length < icmpHeaderLen ∨ (candidate delivered).headD 0 ≠ icmpEchoRequest then none
      else some ((candidate delivered).drop icmpHeaderLen) := by
  rw [readOnce, List.take_of_length_le hlength]
  simp only [Bool.false_eq_true, if_false]
  by_cases hshort : delivered.length < icmpHeaderLen
  · rw [if_pos hshort, if_pos (Or.inl hshort)]
  · rw [if_neg hshort]
    by_cases htype : (candidate delivered).headD 0 ≠ icmpEchoRequest
    · rw [if_pos htype, if_pos (Or.inr htype)]
    · rw [if_neg htype, if_neg (not_or.2 ⟨hshort, htype⟩)]

theorem headD_drop (raw : Bytes) (k : ℕ) : (raw.drop k).headD 0 = raw[k]?.getD 0 := by
  rw [List.headD_eq_head?_getD, List.head?_drop]

/-- A read whose first byte is not that of a header is taken as it stands. -/
theorem candidate_of_first {raw : Bytes} (h : raw.headD 0 >>> 4 ≠ 4) : candidate raw = raw := by
  rw [candidate, if_neg fun hheader => h hheader.2]

/-- A read that begins with a header is taken from the end of the header on, if there is
room for a message there. -/
theorem candidate_behind {raw : Bytes} {ihl : ℕ} (hfive : 5 ≤ ihl) (hle : ihl ≤ 15)
    (hfirst : raw.head? = some (UInt8.ofNat (64 + ihl))) :
    candidate raw = if ihl * 4 + icmpHeaderLen ≤ raw.length then raw.drop (ihl * 4) else raw := by
  obtain ⟨hversion, hihl⟩ := ihl_of_first hle
  have hhead : raw.headD 0 = UInt8.ofNat (64 + ihl) := by
    rw [List.headD_eq_head?_getD, hfirst]
    rfl
  rw [candidate, hhead, hihl]
  by_cases hroom : ihl * 4 + icmpHeaderLen ≤ raw.length
  · have hlong : 20 ≤ raw.length := by omega
    rw [if_pos ⟨hlong, hversion⟩]
    simp only
    rw [if_pos ⟨by omega, hroom⟩, if_pos hroom]
  · rw [if_neg hroom]
    split
    · simp only
      rw [if_neg fun hboth => hroom hboth.2]
    · rfl

/-- A read that does not begin as an echo request is taken for one exactly when it looks
like a header before one. -/
theorem candidate_head_iff {raw : Bytes} (hfirst : raw.headD 0 ≠ icmpEchoRequest) :
    (candidate raw).headD 0 = icmpEchoRequest ↔ LooksLikeHeader raw := by
  constructor
  · intro htype
    by_cases hversion : raw.headD 0 >>> 4 = 4
    · obtain ⟨hbyte, hle⟩ := first_of_version hversion
      unfold candidate at htype
      split at htype
      case isFalse => exact absurd htype hfirst
      case isTrue hlong =>
        simp only at htype
        split at htype
        case isFalse => exact absurd htype hfirst
        case isTrue hroom =>
          have hhead : raw.head? = some (raw.headD 0) := by
            cases raw with
            | nil => exact absurd hlong.1 (by decide)
            | cons b rest => rfl
          have hin : (raw.headD 0 &&& 0x0f).toNat * 4 < raw.length := by
            have := hroom.2
            unfold icmpHeaderLen at this
            omega
          refine ⟨_, by omega, hle, hhead.trans (congrArg some hbyte), hroom.2, ?_⟩
          rw [headD_drop, List.getElem?_eq_getElem hin, Option.getD_some] at htype
          rw [List.getElem?_eq_getElem hin, htype]
    · rw [candidate_of_first hversion] at htype
      exact absurd htype hfirst
  · rintro ⟨ihl, hfive, hle, hhead, hroom, hbehind⟩
    rw [candidate_behind hfive hle hhead, if_pos hroom, headD_drop, hbehind]
    rfl

theorem looksLikeHeader_take (raw : Bytes) : LooksLikeHeader (raw.take 66000) ↔ LooksLikeHeader raw := by
  have hhead : (raw.take 66000).head? = raw.head? := by
    cases raw with
    | nil => rfl
    | cons b rest => rfl
  unfold LooksLikeHeader
  constructor
  · rintro ⟨ihl, hfive, hle, hfirst, hroom, hbehind⟩
    rw [List.length_take] at hroom
    rw [List.getElem?_take_of_lt (by omega)] at hbehind
    exact ⟨ihl, hfive, hle, hhead ▸ hfirst, by omega, hbehind⟩
  · rintro ⟨ihl, hfive, hle, hfirst, hroom, hbehind⟩
    refine ⟨ihl, hfive, hle, hhead.trans hfirst, ?_, ?_⟩
    · unfold icmpHeaderLen at *
      rw [List.length_take]
      omega
    · rw [List.getElem?_take_of_lt (by omega)]
      exact hbehind

/-- A message of another type, delivered as it stands. -/
theorem readOnce_other_iff {other : Bytes} (hother : other.head? ≠ some icmpEchoRequest) :
    readOnce false other = none ↔ ¬ LooksLikeHeader other := by
  have hfirst : (other.take 66000).headD 0 ≠ icmpEchoRequest := by
    cases other with
    | nil => decide
    | cons b rest => exact fun hb => hother (congrArg some hb)
  rw [← looksLikeHeader_take, ← candidate_head_iff hfirst]
  unfold readOnce
  simp only [Bool.false_eq_true, if_false]
  by_cases hshort : (other.take 66000).length < icmpHeaderLen
  · -- nothing that short is taken for a header
    have hlong : ¬ (20 ≤ (other.take 66000).length ∧ (other.take 66000).headD 0 >>> 4 = 4) := by
      intro hlong
      unfold icmpHeaderLen at hshort
      omega
    rw [if_pos hshort, candidate, if_neg hlong]
    simp only [hfirst, not_false_eq_true]
  · rw [if_neg hshort]
    by_cases htype : (candidate (other.take 66000)).headD 0 = icmpEchoRequest
    · rw [if_neg (not_not.2 htype)]
      exact ⟨fun h => absurd h (by simp), fun h => absurd htype h⟩
    · rw [if_pos htype]
      exact ⟨fun _ => htype, fun _ => rfl⟩

/-- A message of another type behind a header is not looked at twice. -/
theorem not_looksLikeHeader_behind (header : IPv4Header) {other : Bytes}
    (hother : other.head? ≠ some icmpEchoRequest) : ¬ LooksLikeHeader (header.bytes ++ other) := by
  rintro ⟨ihl, hfive, hle, hfirst, -, hbehind⟩
  have hlength := header.length_bytes
  have hle' := header.le_fifteen
  rw [header.head?_append, Option.some.injEq] at hfirst
  have hsame : header.ihl = ihl := by
    have hnat := congrArg UInt8.toNat hfirst
    simp only [UInt8.toNat_ofNat'] at hnat
    omega
  rw [List.getElem?_append_right (by omega), hlength, hsame, Nat.sub_self, ← List.head?_eq_getElem?] at hbehind
  exact hother hbehind

/-- What `Send` writes is read back as it stands. -/
theorem readOnce_echoRequest (cs : UInt16) {data : Bytes} (hdata : data.length ≤ 65507) :
    readOnce false (echoRequest cs data) = some data := by
  have hlength := length_echoRequest cs data
  have hfirst : (echoRequest cs data).headD 0 = icmpEchoRequest := rfl
  have hself : candidate (echoRequest cs data) = echoRequest cs data := candidate_of_first (by rw [hfirst]; decide)
  have hlong : ¬ (echoRequest cs data).length < icmpHeaderLen := by omega
  have hbuffer : (echoRequest cs data).length ≤ 66000 := by
    rw [hlength]
    unfold icmpHeaderLen
    omega
  rw [readOnce_eq hbuffer, hself, hfirst, if_neg (by simpa using hlong)]
  rfl

/-- What `Send` writes is read back from behind any header. -/
theorem readOnce_behind (header : IPv4Header) (cs : UInt16) {data : Bytes} (hdata : data.length ≤ 65507) :
    readOnce false (header.bytes ++ echoRequest cs data) = some data := by
  have hle := header.le_fifteen
  have hlength : (header.bytes ++ echoRequest cs data).length =
      header.ihl * 4 + (icmpHeaderLen + data.length) := by
    rw [List.length_append, header.length_bytes, length_echoRequest]
  have htaken : candidate (header.bytes ++ echoRequest cs data) = echoRequest cs data := by
    rw [candidate_behind header.five_le hle (header.head?_append _), if_pos (by omega), ← header.length_bytes,
      List.drop_left]
  have hlong : ¬ (header.bytes ++ echoRequest cs data).length < icmpHeaderLen := by omega
  have hbuffer : (header.bytes ++ echoRequest cs data).length ≤ 66000 := by
    rw [hlength]
    unfold icmpHeaderLen
    omega
  have htype : (echoRequest cs data).headD 0 = icmpEchoRequest := rfl
  rw [readOnce_eq hbuffer, htaken, htype, if_neg (by simpa using hlong)]
  rfl

/-! ## The frame -/

/-- What a transport with an IPv4 socket writes for a payload is a valid echo request, whose
checksum is computed without overflow, and the payload is read back from it, bare or behind any
header; and a message of another type gives nothing, bare or behind the header, exactly when it
does not itself look like a header before an echo request. -/
theorem framing_exact_iff (t : IcmpTransport) {data msg : Bytes} (hdata : data.length ≤ 65507)
    (hsend : t.send (.ip true) data = .ok (.v4 msg)) (header : IPv4Header) {other : Bytes}
    (hother : other.head? ≠ some icmpEchoRequest) :
    ((msg.take 2 = [icmpEchoRequest, 0] ∧ icmpChecksum msg = 0 ∧ wordSum msg < 2 ^ 32 ∧
        (addWords 0 msg).toNat = wordSum msg) ∧
      (readOnce false msg = some data ∧ readOnce false (header.bytes ++ msg) = some data) ∧
      readOnce false other = none ∧ readOnce false (header.bytes ++ other) = none) ↔
        ¬ LooksLikeHeader other := by
  have hmsg : msg = echoMessage data := by
    unfold IcmpTransport.send at hsend
    simp only at hsend
    split at hsend
    · injection hsend with hsend
      injection hsend with hsend
      exact hsend.symm
    · cases hsend
  subst hmsg
  have hsum : wordSum (echoMessage data) < 2 ^ 32 := wordSum_echoRequest_lt _ hdata
  have hbehind : readOnce false (header.bytes ++ other) = none := by
    refine (readOnce_other_iff ?_).2 (not_looksLikeHeader_behind header hother)
    exact header.head?_ne_echoRequest other
  constructor
  · rintro ⟨-, -, hbare, -⟩
    exact (readOnce_other_iff hother).1 hbare
  · intro hlook
    refine ⟨⟨rfl, icmpChecksum_echoMessage hdata, hsum, ?_⟩, ⟨?_, ?_⟩, ?_, hbehind⟩
    · rw [addWords_toNat 0 _ (by simpa using hsum)]
      exact Nat.zero_add _
    · exact readOnce_echoRequest _ hdata
    · exact readOnce_behind header _ hdata
    · exact (readOnce_other_iff hother).2 hlook

/-- A header of five words. -/
def plainHeader : IPv4Header where
  ihl := 5
  bytes := 0x45 :: List.replicate 19 0
  five_le := by decide
  le_fifteen := by decide
  first := rfl
  length_bytes := rfl

/-- An echo reply with three bytes of data. -/
def echoReply : Bytes := [0, 0, 0xff, 0xff, 0, 0, 0, 0, 7, 7, 7]

theorem framing_exact_at_three :
    (readOnce false (echoMessage [1, 2, 3]) = some [1, 2, 3] ∧
        readOnce false (plainHeader.bytes ++ echoMessage [1, 2, 3]) = some [1, 2, 3]) ∧
      readOnce false echoReply = none ∧ readOnce false (plainHeader.bytes ++ echoReply) = none := by
  have hreply : echoReply.head? ≠ some icmpEchoRequest := by decide
  have hlook : ¬ LooksLikeHeader echoReply := by decide
  exact ((framing_exact_iff ⟨true, true⟩ (by decide : [1, 2, 3].length ≤ 65507) rfl plainHeader hreply).2 hlook).2

/-- A message of type 69, delivered bare, whose twenty-first byte is 8. -/
def typeSixtyNine : Bytes := 69 :: (List.replicate 19 0 ++ [8, 0, 0, 0, 0, 0, 0, 0, 1])

theorem typeSixtyNine_read :
    typeSixtyNine.head? ≠ some icmpEchoRequest ∧ readOnce false typeSixtyNine = some [1] := by
  decide

end Simorgh.Tunnel
