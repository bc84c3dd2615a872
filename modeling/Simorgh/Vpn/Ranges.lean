import Mathlib.Data.List.Sort
import Simorgh.Lib.Doubling
import Simorgh.Lib.Table
import Simorgh.Panel.Slots

/-!
# Tunnel address ranges

Every tunnel protocol has a /16 of its own, and within it an inbound owns whole
/24s.  PPP protocols own a list of ranges, one /24 each, that an operator may
supply; the others own one aligned block of /24s.

* `normalizePppRanges`, `normalizeBlockRanges` — the two ways ranges are assigned.
* `normalizeRanges` — what an inbound is stored with.
* `computeVpnClientIP`, `vpnAccountDeviceIPs`, `ovpnBlockClientIP` — the addresses of
  an account.

Ranges are modelled by what `parseRange` reads off them.
-/

namespace Simorgh.Vpn

open Simorgh.Lib Simorgh.Panel

/-! ## Addresses and ranges -/

/-- A /24, by its three octets. -/
structure Subnet where
  a : ℕ
  b : ℕ
  c : ℕ
  deriving DecidableEq, Repr

/-- An address of a subnet. -/
structure Addr where
  subnet : Subnet
  host : ℕ
  deriving DecidableEq, Repr

/-- What `parseRange` accepts: two hosts of one /24, in order. -/
structure Range where
  subnet : Subnet
  first : ℕ
  last : ℕ
  le : first ≤ last
  bound : last ≤ 255
  deriving DecidableEq

/-- A range as it is posted: its text, and what it parses to. -/
structure PostedRange where
  text : String
  value : Option Range

/-- The addresses of a range. -/
def Range.capacity (r : Range) : ℕ := r.last - r.first + 1

/-- The addresses of all ranges. -/
def rangeCapacity (ranges : List Range) : ℕ := (ranges.map Range.capacity).sum

/-- The /24s of the ranges, each once, in the order of their first range. -/
def subnetsOf (ranges : List Range) : List Subnet := (ranges.map (·.subnet)).eraseDups

/-- The second octet of a protocol's /16.  The 3 is OpenVPN's over TCP. -/
def protocolBase : Protocol → ℕ
  | .pptp => 1
  | .openvpn => 2
  | .openconnect => 4
  | .sstp => 5
  | .ikev2 => 6
  | .wgc => 7
  | .awg => 8
  | .gre => 9
  | _ => 0

/-- The usable hosts of a /24. -/
def defaultRange (subnet : Subnet) : Range := ⟨subnet, 2, 254, by omega, by omega⟩

/-- The /24 of the other OpenVPN transport. -/
def mirrorOvpnSubnet (s : Subnet) : Subnet :=
  if s.a = 10 ∧ s.b = 2 then ⟨10, 3, s.c⟩ else if s.a = 10 ∧ s.b = 3 then ⟨10, 2, s.c⟩ else s

/-! ## The User Limit -/

/-- The most devices of an account. -/
def maxUserLimit : ℕ := 64

/-- The devices of an account without a limit. -/
def noLimitDevices : ℕ := 16

/-- The devices an account may have. -/
def normUserLimit (k : ℤ) : ℕ :=
  if k = 0 then noLimitDevices
  else if k < 1 then 1
  else if maxUserLimit < k then maxUserLimit
  else k.toNat

/-- An absent limit is one device. -/
def effectiveUserLimit : Option ℤ → ℕ
  | none => 1
  | some k => normUserLimit k

/-- The limit of a gateway protocol: zero is the largest block. -/
def wgcEffectiveK : Option ℤ → ℕ
  | none => 1
  | some k => if k = 0 then maxUserLimit else normUserLimit k

/-- The accounts that fit into a subnet. -/
def accountsPerSubnet (k : ℤ) : ℕ :=
  if normUserLimit k = 1 then 253 else 255 / normUserLimit k - 1

/-- The accounts that fit. -/
def vpnAccountsCapacity (subnets : List Subnet) (k : ℤ) : ℕ := subnets.length * accountsPerSubnet k

/-- The protocols whose account owns one aligned block, for a gateway behind it. -/
def gatewayProtocol : Protocol → Bool
  | .wgc | .awg | .gre => true
  | _ => false

/-- The protocols whose ranges an operator may supply. -/
def pppProtocol : Protocol → Bool
  | .l2tp | .pptp | .sstp => true
  | _ => false

/-! ## Inbounds -/

/-- An inbound as far as its addresses go: its limit, the stored ranges that parse, and the
slots its accounts hold. -/
structure VpnInbound where
  id : ℕ
  protocol : Protocol
  userLimit : Option ℤ := none
  ranges : List Range
  slots : List ℕ := []
  /-- Ranges are stored, and none of them parses. -/
  unread : Bool := false
  deriving DecidableEq

/-- The tunnel inbounds by id. -/
abbrev Pool := Table VpnInbound.id

/-- The stored ranges that parse, if any range is stored. -/
def VpnInbound.stored (i : VpnInbound) : Option (List Range) :=
  if i.ranges = [] ∧ i.unread = false then none else some i.ranges

theorem VpnInbound.stored_eq {i : VpnInbound} (h : i.ranges ≠ []) : i.stored = some i.ranges :=
  if_neg fun hnone => h hnone.1

/-- What stands in for ranges that are not stored: the /24 of the id, as long as the id is
an octet. -/
def rangesOr (stored : Option (List Range)) (protocol : Protocol) (id : ℕ) : List Range :=
  stored.getD (if id ≤ 255 then [defaultRange ⟨10, protocolBase protocol, id⟩] else [])

/-- `inboundRanges`. -/
def inboundRanges (i : VpnInbound) : List Range := rangesOr i.stored i.protocol i.id

/-- The /24s an inbound owns; OpenVPN owns those of both transports. -/
def ownedSubnets (i : VpnInbound) : List Subnet :=
  (subnetsOf (inboundRanges i)).flatMap fun s =>
    s :: if i.protocol = .openvpn then [mirrorOvpnSubnet s] else []

/-- The /24s owned by every inbound but one. -/
def usedVpnSubnets (pool : Pool) (excludeId : ℕ) : List Subnet :=
  (pool.rows.filter fun i => decide (i.id ≠ excludeId)).flatMap ownedSubnets

/-! ## Assigning ranges -/

/-- Why ranges are refused. -/
inductive RangeError where
  | invalid (text : String)
  | overlaps (text : String) (subnet : Subnet)
  | noFreeSubnet (protocol : Protocol)
  | noFreeBlock (num24 base : ℕ)
  deriving DecidableEq

/-- The free /24s of a protocol, lowest first. -/
def freeSubnets (base : ℕ) (used : List Subnet) : List Subnet :=
  ((List.range 253).map fun n => (⟨10, base, n + 2⟩ : Subnet)).filter fun s => decide (s ∉ used)

/-- `nextFreeSubnet`. -/
def nextFreeSubnet (base : ℕ) (used : List Subnet) : Option Subnet := (freeSubnets base used).head?

/-- The posted ranges, refused at the first that is malformed or on another's /24. -/
def validRanges (used : List Subnet) : List PostedRange → Except RangeError (List Range)
  | [] => .ok []
  | p :: ps =>
      match p.value with
      | none => .error (.invalid p.text)
      | some r =>
          if r.subnet ∈ used then .error (.overlaps p.text r.subnet)
          else (validRanges used ps).map (r :: ·)

/-- The ranges hold so many accounts. -/
def haveCapacity (userLimit clientCount : ℕ) (ranges : List Range) : Bool :=
  if userLimit ≤ 1 then decide (clientCount ≤ rangeCapacity ranges)
  else decide (clientCount ≤ vpnAccountsCapacity (subnetsOf ranges) userLimit)

/-- Free /24s are appended, one after another, until there is room. -/
def expandRanges (userLimit clientCount : ℕ) : List Subnet → List Range → List Range
  | [], ranges => ranges
  | s :: free, ranges =>
      if haveCapacity userLimit clientCount ranges then ranges
      else expandRanges userLimit clientCount free (ranges ++ [defaultRange s])

/-- `normalizePppRanges`. -/
def normalizePppRanges (protocol : Protocol) (posted : List PostedRange) (clientCount userLimit : ℕ)
    (used : List Subnet) : Except RangeError (List Range) := do
  let valid ← validRanges used posted
  let assigned ← if valid = [] then
      match nextFreeSubnet (protocolBase protocol) used with
      | none => .error (.noFreeSubnet protocol)
      | some s => .ok [defaultRange s]
    else .ok valid
  pure (expandRanges userLimit clientCount
    (freeSubnets (protocolBase protocol) (used ++ assigned.map (·.subnet))) assigned)

/-- How many /24s hold so many accounts: a power of two, sixty-four at most. -/
def num24For (userLimit clientCount : ℕ) : ℕ :=
  let needed := max clientCount 1
  min (doubleUntil (fun n => decide (needed ≤ n * accountsPerSubnet userLimit)) needed 1) 64

/-- The third octets of the ranges, in order, each once. -/
def ovpnThirds (ranges : List Range) : List ℕ :=
  (((subnetsOf ranges).map (·.c)).eraseDups).insertionSort (· ≤ ·)

/-- The /24 is free, and so is its mirror. -/
def thirdFree (base : ℕ) (mirrorBase : Option ℕ) (used : List Subnet) (t : ℕ) : Bool :=
  decide ((⟨10, base, t⟩ : Subnet) ∉ used) &&
    mirrorBase.all fun mirror => decide ((⟨10, mirror, t⟩ : Subnet) ∉ used)

/-- The ranges of so many /24s from a third octet on. -/
def blockRanges (base first num24 : ℕ) : List Range :=
  (List.range num24).map fun d => defaultRange ⟨10, base, first + d⟩

/-- `keepOwnedBlock`: the first third octet and the number of /24s, if what is owned is a
block that will do. -/
def keepOwnedBlock (current : List Range) (num24 base : ℕ) (mirrorBase : Option ℕ) (used : List Subnet) :
    Option (ℕ × ℕ) :=
  let thirds := ovpnThirds current
  let owned := thirds.length
  let first := thirds.headD 0
  if owned < num24 ∨ owned &&& (owned - 1) ≠ 0 then none
  else if first % owned ≠ 0 then none
  else if thirds.zipIdx.all fun t => decide (t.1 = first + t.2) && decide (t.1 ≤ 254) &&
      thirdFree base mirrorBase used t.1 then some (first, owned)
  else none

/-- So many /24s from a third octet on are free. -/
def blockFree (num24 base : ℕ) (mirrorBase : Option ℕ) (used : List Subnet) (n : ℕ) : Bool :=
  decide (n + num24 - 1 ≤ 254) && (List.range num24).all fun d => thirdFree base mirrorBase used (n + d)

/-- `allocateAlignedBlock`: the first third octet of a free aligned block, the one that
holds the id if it is free. -/
def allocateAlignedBlock (id num24 base : ℕ) (mirrorBase : Option ℕ) (used : List Subnet) : Option ℕ :=
  (id / num24 * num24 :: (List.range 255).map (· * num24)).find? (blockFree num24 base mirrorBase used)

/-- `normalizeBlockRanges`. -/
def normalizeBlockRanges (inboundId clientCount userLimit base : ℕ) (mirrorBase : Option ℕ)
    (used : List Subnet) (current : List Range) : Except RangeError (List Range) :=
  let num24 := num24For userLimit clientCount
  match keepOwnedBlock current num24 base mirrorBase used with
  | some (first, owned) => .ok (blockRanges base first owned)
  | none =>
      match allocateAlignedBlock inboundId num24 base mirrorBase used with
      | some first => .ok (blockRanges base first num24)
      | none => .error (.noFreeBlock num24 base)

/-- The accounts a pool is sized for: it has to cover the highest slot. -/
def slotCount (slots : List ℕ) : ℕ := max slots.length ((slots.map (· + 1)).foldl max 0)

/-- The devices of an account's block, as ranges are sized. -/
def blockSize (protocol : Protocol) (userLimit : Option ℤ) : ℕ :=
  if gatewayProtocol protocol then nextPow2 (wgcEffectiveK userLimit) else effectiveUserLimit userLimit

/-- What is posted for an inbound's addresses. -/
structure RangeForm where
  protocol : Protocol
  userLimit : Option ℤ := none
  posted : List PostedRange := []
  slots : List ℕ := []

/-- `normalizeRanges`: the ranges an inbound is stored with. -/
def normalizeRanges (pool : Pool) (inboundId excludeId : ℕ) (form : RangeForm) :
    Except RangeError (List Range) :=
  let clientCount := slotCount form.slots
  let size := blockSize form.protocol form.userLimit
  let used := usedVpnSubnets pool excludeId
  let current := form.posted.filterMap (·.value)
  if pppProtocol form.protocol then
    normalizePppRanges form.protocol form.posted clientCount size used
  else if form.protocol = .openvpn then
    normalizeBlockRanges inboundId clientCount size 2 (some 3) used current
  else normalizeBlockRanges inboundId clientCount size (protocolBase form.protocol) none used current

/-! ## The addresses of an account -/

/-- The range of a slot, and how far into it the slot is. -/
def slotRange : List Range → ℕ → Option (Range × ℕ)
  | [], _ => none
  | r :: rs, remaining =>
      if remaining < r.capacity then some (r, remaining) else slotRange rs (remaining - r.capacity)

/-- `computeVpnClientIP`. -/
def computeVpnClientIP (stored : Option (List Range)) (inboundId slot : ℕ) (protocol : Protocol) : Option Addr :=
  (slotRange (rangesOr stored protocol inboundId) slot).map fun r => ⟨r.1.subnet, r.1.first + r.2⟩

/-- `vpnAccountBlock`: the /24 of a slot and its first host. -/
def vpnAccountBlock (subnets : List Subnet) (slot : ℕ) (k : ℤ) : Option (Subnet × ℕ) :=
  let per := accountsPerSubnet k
  if per = 0 then none
  else (subnets[slot / per]?).map fun s => (s, (slot % per + 1) * normUserLimit k)

/-- `vpnAccountDeviceIPs`. -/
def vpnAccountDeviceIPs (subnets : List Subnet) (slot : ℕ) (k : ℤ) : List Addr :=
  match vpnAccountBlock subnets slot k with
  | none => []
  | some (s, host) => (List.range (normUserLimit k)).map fun d => ⟨s, host + d⟩

/-- `pppSubnetsOrDefault`. -/
def pppSubnetsOrDefault (ranges : List Range) (protocol : Protocol) (id : ℕ) : List Subnet :=
  if subnetsOf ranges = [] then [⟨10, protocolBase protocol, id⟩] else subnetsOf ranges

/-- `ovpnSubnetsOrDefault`, for the transport in this /16. -/
def ovpnSubnetsOrDefault (ranges : List Range) (base id : ℕ) : List Subnet :=
  if subnetsOf ranges = [] then [⟨10, base, id⟩]
  else if base = 3 then (subnetsOf ranges).map mirrorOvpnSubnet
  else subnetsOf ranges

/-- `vpnBlock`: the first third octet of the block that covers the ranges, and its
prefix. -/
def vpnBlock (ranges : List Range) (fallbackId : ℕ) : ℕ × ℕ :=
  let thirds := ovpnThirds ranges
  match thirds with
  | [] => (fallbackId % 256, 24)
  | first :: _ =>
      let size := nextPow2 thirds.length
      -- the low bits of the first octet are cleared
      (first - first % size, 24 - Nat.log2 size)

/-- `ovpnBlockClientIP`.  The arithmetic is that of 32 bits. -/
def ovpnBlockClientIP (base third prefixLen slot : ℕ) : Option Addr :=
  let host := (2 + slot) % 2 ^ 32
  let size := 2 ^ (32 - prefixLen)
  if size - 1 ≤ host then none else some ⟨⟨10, base, third + host / 256⟩, host % 256⟩

/-- The devices of an OpenVPN account on the transport in this /16. -/
def ovpnDeviceIPs (i : VpnInbound) (base slot : ℕ) : List Addr :=
  if effectiveUserLimit i.userLimit ≤ 1 then
    (ovpnBlockClientIP base (vpnBlock i.ranges i.id).1 (vpnBlock i.ranges i.id).2 slot).toList
  else vpnAccountDeviceIPs (ovpnSubnetsOrDefault i.ranges base i.id) slot (effectiveUserLimit i.userLimit)

/-- `wgcAccountBlock`, `awgAccountBlock` and `greAccountBlock`: the first address of a slot's
block, and its prefix. -/
def gatewayBlock (protocol : Protocol) (i : VpnInbound) (slot : ℕ) : Option (Addr × ℕ) :=
  let k := wgcEffectiveK i.userLimit
  if k ≤ 1 then (computeVpnClientIP i.stored i.id slot protocol).map fun a => (a, 32)
  else
    let size := nextPow2 k
    (vpnAccountBlock (pppSubnetsOrDefault i.ranges protocol i.id) slot size).map fun b =>
      (⟨b.1, b.2⟩, 32 - Nat.log2 size)

/-- `net.ParseIP` accepts the address. -/
def parses (a : Addr) : Bool := decide (a.subnet.c ≤ 255)

/-- `wgcDeviceIPs`, `awgDeviceIPs` and `grePeerIPs`: a device's address is so far into the
block, which is within one /24. -/
def gatewayDeviceIPs (protocol : Protocol) (i : VpnInbound) (slot : ℕ) : List Addr :=
  let k := wgcEffectiveK i.userLimit
  if k ≤ 1 then (computeVpnClientIP i.stored i.id slot protocol).toList
  else
    match gatewayBlock protocol i slot with
    | none => []
    | some (first, _) => ((List.range k).map fun d => (⟨first.subnet, first.host + d⟩ : Addr)).filter parses

/-- The block of a gateway account, every address of it. -/
def wgcBlockIPs (i : VpnInbound) (slot : ℕ) : List Addr :=
  if wgcEffectiveK i.userLimit ≤ 1 then (computeVpnClientIP i.stored i.id slot i.protocol).toList
  else vpnAccountDeviceIPs (pppSubnetsOrDefault i.ranges i.protocol i.id) slot
    (nextPow2 (wgcEffectiveK i.userLimit))

/-- The addresses the devices of an account may have. -/
def deviceIPs (i : VpnInbound) (slot : ℕ) : List Addr :=
  if i.protocol = .openvpn then ovpnDeviceIPs i 2 slot ++ ovpnDeviceIPs i 3 slot
  else if gatewayProtocol i.protocol then wgcBlockIPs i slot
  else if effectiveUserLimit i.userLimit ≤ 1 then
    (computeVpnClientIP i.stored i.id slot i.protocol).toList
  else vpnAccountDeviceIPs (pppSubnetsOrDefault i.ranges i.protocol i.id) slot
    (effectiveUserLimit i.userLimit)

/-- The accounts the stored ranges hold. -/
def computedCapacity (i : VpnInbound) : ℕ :=
  if blockSize i.protocol i.userLimit ≤ 1 then rangeCapacity i.ranges
  else vpnAccountsCapacity (subnetsOf i.ranges) (blockSize i.protocol i.userLimit)

/-- The address of the server's end, on each transport. -/
def gateways (i : VpnInbound) : List Addr :=
  if i.protocol = .openvpn then
    [⟨⟨10, 2, (vpnBlock i.ranges i.id).1⟩, 1⟩, ⟨⟨10, 3, (vpnBlock i.ranges i.id).1⟩, 1⟩]
  else (subnetsOf i.ranges).head?.toList.map fun s => ⟨s, 1⟩

end Simorgh.Vpn
