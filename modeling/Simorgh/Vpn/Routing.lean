import Simorgh.Vpn.Pool
import Simorgh.Panel.Slots

/-!
# Assigned and routed addresses

Four places compute the addresses of an account: RADIUS, the OpenVPN block files,
the builder of WireGuard peers, and the map from emails to addresses that per-user
rules are made of.

* `Given` — an address some device of an account can be given.
* `buildVpnEmailToIPMap` — the map.
* `Owns` — the addresses of a slot, by the layout of the ranges.
* `routed_iff` — an address that is given is in the list of the account and in no other,
  exactly when a slot of the account's email owns it and no slot of another one does; with
  ranges as they are stored, when no other account is on the slot.
-/

namespace Simorgh.Vpn.Routing

open Simorgh.Lib Simorgh.Panel Simorgh.Vpn

/-! ## Inbounds and accounts -/

/-- A client as address planning sees it. -/
structure Account where
  id : String
  email : String
  slot : Option ℤ
  deriving DecidableEq

/-- A tunnel inbound, with what the four places read of its settings. -/
structure Inbound where
  id : ℕ
  protocol : Protocol
  enable : Bool := true
  ipRanges : List PostedRange
  /-- the single range of old settings, if it is not empty -/
  ipRange : Option PostedRange := none
  userLimit : Option ℤ := none
  /-- IKEv2 with `authMode` psk or eap-tls -/
  localAuth : Bool := false
  udp : Bool := true
  tcp : Bool := true
  clients : List Account

/-- The ranges that parse. -/
def parsed (ranges : List PostedRange) : List Range := ranges.filterMap (·.value)

namespace Inbound

/-- The ranges RADIUS and the map read. -/
def ranges (i : Inbound) : List PostedRange :=
  if i.ipRanges.isEmpty then i.ipRange.toList else i.ipRanges

/-- The slot of the account at a place in the list. -/
def slotAt (c : Account) (n : ℕ) : ℕ := (slotOr c.slot n).toNat

/-- The inbound as the OpenVPN and WireGuard services read it: `effectiveRanges` are those of
the list. -/
def vpn (i : Inbound) : VpnInbound where
  id := i.id
  protocol := i.protocol
  userLimit := i.userLimit
  ranges := parsed i.ipRanges
  slots := i.clients.zipIdx.map fun c => slotAt c.1 c.2
  unread := !i.ipRanges.isEmpty

end Inbound

/-- The ranges that parse, if any are stored. -/
def stored (ranges : List PostedRange) : Option (List Range) :=
  if ranges.isEmpty then none else some (parsed ranges)

/-! ## RADIUS -/

/-- The account is dialled by its user name or its email. -/
def Account.answersTo (username : String) (c : Account) : Bool :=
  decide (c.id = username) || decide (c.email = username)

/-- `findClientInbound`, or the inbound the NAS-Identifier names. -/
def dialled (inbounds : List Inbound) (protocol : Protocol) (inboundId : ℕ) (username : String) :
    Option Inbound :=
  if 0 < inboundId then inbounds.find? fun i => decide (i.id = inboundId)
  else inbounds.find? fun i =>
    decide (i.protocol = protocol) && i.enable && i.clients.any (Account.answersTo username)

/-- The block RADIUS hands out from. -/
def radiusBlock (i : Inbound) (protocol : Protocol) (slot : ℕ) : List Addr :=
  let k := effectiveUserLimit i.userLimit
  if k ≤ 1 then (computeVpnClientIP (stored i.ranges) i.id slot protocol).toList
  else (vpnAccountDeviceIPs (pppSubnetsOrDefault (parsed i.ranges) protocol i.id) slot k).filter parses

/-- `getClientIP` up to `allocateBlockIP`: the inbound, the account with its place, and its
block. -/
def getClientIP (inbounds : List Inbound) (protocol : Protocol) (inboundId : ℕ) (username : String) :
    Option (Inbound × (Account × ℕ) × List Addr) :=
  (dialled inbounds protocol inboundId username).bind fun i =>
    (i.clients.zipIdx.find? fun c => c.1.answersTo username).map fun c =>
      (i, c, radiusBlock i protocol (Inbound.slotAt c.1 c.2))

/-- The protocols whose devices get their address from RADIUS. -/
def radiusProtocol : Protocol → Bool
  | .l2tp | .pptp | .openconnect | .sstp | .ikev2 => true
  | _ => false

/-! ## OpenVPN -/

/-- What an account writes to its block file, for the transport in this /16. -/
def blockFileIPs (i : Inbound) (base slot : ℕ) : List Addr := ovpnDeviceIPs i.vpn base slot

/-- The transports that are on, by their /16. -/
def transports (i : Inbound) : List ℕ := (if i.udp then [2] else []) ++ if i.tcp then [3] else []

/-- Whose addresses a block file has: it is named by the id, and written by every account
with that id that has some. -/
def blockFile (i : Inbound) (base : ℕ) (id : String) : Option (Account × ℕ) :=
  (i.clients.zipIdx.filter fun c =>
    decide (c.1.id = id) && !(blockFileIPs i base (Inbound.slotAt c.1 c.2)).isEmpty).getLast?

/-! ## What devices are given -/

/-- Where an address comes from. -/
inductive Source where
  /-- RADIUS, on a dial for a protocol -/
  | radius (protocol : Protocol)
  /-- the block file of the transport in this /16 -/
  | blockFile (base : ℕ)
  /-- the builder of peers -/
  | peers

/-- A device of an account can be given an address of a slot, which is another account's
where a block file is another's. -/
inductive Given (inbounds : List Inbound) : Source → Inbound → Account → ℕ → Addr → Prop where
  | radius {protocol : Protocol} {i : Inbound} {n : ℕ} {c : Account} {a : Addr} {inboundId : ℕ}
      {username : String} {block : List Addr} (hprotocol : radiusProtocol protocol = true)
      (hdial : getClientIP inbounds protocol inboundId username = some (i, (c, n), block))
      (ha : a ∈ block) : Given inbounds (.radius protocol) i c (Inbound.slotAt c n) a
  | blockFile {i : Inbound} {c d : Account} {m : ℕ} {a : Addr} {base : ℕ} (hi : i ∈ inbounds)
      (henable : i.enable = true) (hprotocol : i.protocol = .openvpn) (hc : c ∈ i.clients) (hid : c.id ≠ "")
      (hbase : base ∈ transports i) (hfile : blockFile i base c.id = some (d, m))
      (ha : a ∈ blockFileIPs i base (Inbound.slotAt d m)) :
      Given inbounds (.blockFile base) i c (Inbound.slotAt d m) a
  | peers {i : Inbound} {n : ℕ} {c : Account} {a : Addr} (hi : i ∈ inbounds) (henable : i.enable = true)
      (hprotocol : gatewayProtocol i.protocol = true) (hc : i.clients[n]? = some c) (hemail : c.email ≠ "")
      (ha : a ∈ gatewayDeviceIPs i.protocol i.vpn (Inbound.slotAt c n)) :
      Given inbounds .peers i c (Inbound.slotAt c n) a

/-- A dial names an enabled inbound of its protocol.  One that names no inbound does. -/
def Source.Fits (i : Inbound) : Source → Prop
  | .radius protocol => i.enable = true ∧ i.protocol = protocol
  | _ => True

/-! ## The map -/

/-- An address with a prefix. -/
structure Route where
  addr : Addr
  prefixLen : ℕ
  deriving DecidableEq

/-- The addresses of a route.  No route is wider than a /16. -/
def Route.covers (r : Route) (a : Addr) : Bool :=
  if 24 ≤ r.prefixLen then
    decide (a.subnet = r.addr.subnet) &&
      decide (a.host / 2 ^ (32 - r.prefixLen) = r.addr.host / 2 ^ (32 - r.prefixLen))
  else
    decide (a.subnet.a = r.addr.subnet.a) && decide (a.subnet.b = r.addr.subnet.b) &&
      decide (a.subnet.c / 2 ^ (24 - r.prefixLen) = r.addr.subnet.c / 2 ^ (24 - r.prefixLen))

/-- The inbound's accounts lease from its whole block. -/
def wholeBlock (i : Inbound) : Bool := decide (i.protocol = .ikev2) && i.localAuth

/-- What an account on a slot adds to the list of its email. -/
def accountRoutes (i : Inbound) (slot : ℕ) : List Route :=
  if i.protocol = .openvpn then
    (transports i).flatMap fun base => (blockFileIPs i base slot).map fun a => ⟨a, 32⟩
  else if wholeBlock i then
    let block := vpnBlock (parsed i.ranges) i.id
    [⟨⟨⟨10, protocolBase .ikev2, block.1⟩, 0⟩, block.2⟩]
  else if gatewayProtocol i.protocol then
    let k := wgcEffectiveK i.userLimit
    if k ≤ 1 then (computeVpnClientIP (stored i.ranges) i.id slot i.protocol).toList.map fun a => ⟨a, 32⟩
    else
      let size := nextPow2 k
      (vpnAccountBlock (pppSubnetsOrDefault (parsed i.ranges) i.protocol i.id) slot size).toList.map
        fun b => ⟨⟨b.1, b.2⟩, 32 - Nat.log2 size⟩
  else
    let k := effectiveUserLimit i.userLimit
    if k ≤ 1 then (computeVpnClientIP (stored i.ranges) i.id slot i.protocol).toList.map fun a => ⟨a, 32⟩
    else (vpnAccountDeviceIPs (pppSubnetsOrDefault (parsed i.ranges) i.protocol i.id) slot k).map
      fun a => ⟨a, 32⟩

/-- What an inbound adds to the list of an email. -/
def inboundRoutes (email : String) (i : Inbound) : List Route :=
  i.clients.zipIdx.flatMap fun c =>
    if c.1.email ≠ "" ∧ c.1.email = email then accountRoutes i (Inbound.slotAt c.1 c.2) else []

/-- `BuildVpnEmailToIPMap`: the list of an email.  OpenVPN comes last. -/
def buildVpnEmailToIPMap (inbounds : List Inbound) (email : String) : List Route :=
  let enabled := inbounds.filter fun i => i.enable
  ((enabled.filter fun i => slotPoolProtocol i.protocol && decide (i.protocol ≠ .openvpn)) ++
    enabled.filter fun i => decide (i.protocol = .openvpn)).flatMap (inboundRoutes email)

/-- The list of an email has the address. -/
def Listed (inbounds : List Inbound) (email : String) (a : Addr) : Prop :=
  ∃ r ∈ buildVpnEmailToIPMap inbounds email, r.covers a = true

/-! ## Whose an address is -/

/-- The address of a slot that is counted through the ranges, one after another. -/
def Counted (ranges : List Range) (slot : ℕ) (a : Addr) : Prop :=
  ∃ before r after, ranges = before ++ r :: after ∧
    ∃ k < r.capacity, slot = rangeCapacity before + k ∧ a = ⟨r.subnet, r.first + k⟩

/-- The hosts of a slot's block.  Blocks fill one /24 after another; the first and the last
of each are left out. -/
def InBlock (subnets : List Subnet) (size slot : ℕ) (a : Addr) : Prop :=
  subnets[slot / (255 / size - 1)]? = some a.subnet ∧ a.host / size = slot % (255 / size - 1) + 1

/-- The addresses of a slot: one of the ranges, or a block of a /24. -/
def Pooled (ranges : List Range) (subnets : List Subnet) (size slot : ℕ) (a : Addr) : Prop :=
  if size ≤ 1 then Counted ranges slot a else InBlock subnets size slot a

/-- The addresses of a slot on an OpenVPN transport: one of the covering block, counted in
32 bits without the broadcast address, or a block of a /24. -/
def OnTransport (i : Inbound) (slot : ℕ) (a : Addr) (base : ℕ) : Prop :=
  if effectiveUserLimit i.userLimit ≤ 1 then
    ∃ h, h + 1 < 2 ^ (32 - (vpnBlock (parsed i.ipRanges) i.id).2) ∧ (2 + slot) % 2 ^ 32 = h ∧
      a = ⟨⟨10, base, (vpnBlock (parsed i.ipRanges) i.id).1 + h / 256⟩, h % 256⟩
  else InBlock (ovpnSubnetsOrDefault (parsed i.ipRanges) base i.id) (effectiveUserLimit i.userLimit) slot a

/-- The addresses that a slot of the inbound owns. -/
def Owns (i : Inbound) (slot : ℕ) (a : Addr) : Prop :=
  if i.protocol = .openvpn then ∃ base ∈ transports i, OnTransport i slot a base
  else if wholeBlock i then
    let block := vpnBlock (parsed i.ranges) i.id
    (⟨⟨⟨10, protocolBase .ikev2, block.1⟩, 0⟩, block.2⟩ : Route).covers a = true
  else Pooled (rangesOr (stored i.ranges) i.protocol i.id)
    (pppSubnetsOrDefault (parsed i.ranges) i.protocol i.id) (blockSize i.protocol i.userLimit) slot a

/-- An account that is routed, at its place in the list. -/
structure Routed (inbounds : List Inbound) (i : Inbound) (n : ℕ) (c : Account) : Prop where
  mem : i ∈ inbounds
  enable : i.enable = true
  tunnel : slotPoolProtocol i.protocol = true
  account : i.clients[n]? = some c
  email : c.email ≠ ""

section Layout

variable {i : Inbound} {slot : ℕ} {a : Addr}

/-- The range of a slot, by what comes before it. -/
theorem slotRange_iff {ranges : List Range} {r : Range} {k : ℕ} :
    slotRange ranges slot = some (r, k) ↔
      ∃ before after, ranges = before ++ r :: after ∧ k < r.capacity ∧ slot = rangeCapacity before + k := by
  induction ranges generalizing slot with
  | nil => simp [slotRange]
  | cons r' rs ih =>
      rw [slotRange]
      constructor
      · intro h
        split at h
        case isTrue hlt =>
          cases h
          exact ⟨[], rs, rfl, hlt, by simp [rangeCapacity]⟩
        case isFalse hge =>
          obtain ⟨before, after, rfl, hk, hslot⟩ := ih.1 h
          refine ⟨r' :: before, after, rfl, hk, ?_⟩
          simp only [rangeCapacity, List.map_cons, List.sum_cons] at hslot ⊢
          omega
      · rintro ⟨before, after, heq, hk, rfl⟩
        cases before with
        | nil =>
            cases heq
            simp [rangeCapacity, hk]
        | cons b before =>
            cases heq
            have hge : ¬ rangeCapacity (r' :: before) + k < r'.capacity := by
              simp only [rangeCapacity, List.map_cons, List.sum_cons]
              omega
            rw [if_neg hge]
            refine ih.2 ⟨before, after, rfl, hk, ?_⟩
            simp only [rangeCapacity, List.map_cons, List.sum_cons]
            omega

theorem mem_counted {ranges : List Range} :
    a ∈ ((slotRange ranges slot).map fun r => (⟨r.1.subnet, r.1.first + r.2⟩ : Addr)).toList ↔
      Counted ranges slot a := by
  simp only [Option.mem_toList, Option.map_eq_some_iff, Prod.exists, slotRange_iff, Counted]
  constructor
  · rintro ⟨r, k, ⟨before, after, h, hk, hslot⟩, rfl⟩
    exact ⟨before, r, after, h, k, hk, hslot, rfl⟩
  · rintro ⟨before, r, after, h, k, hk, hslot, rfl⟩
    exact ⟨r, k, ⟨before, after, h, hk, hslot⟩, rfl⟩

theorem accountsPerSubnet_eq {k : ℕ} (hk : 2 ≤ k) (hk' : k ≤ 64) :
    accountsPerSubnet k = 255 / k - 1 ∧ 255 / k - 1 ≠ 0 := by
  have hthree : 3 ≤ 255 / k := (Nat.le_div_iff_mul_le (by omega)).2 (by omega)
  exact ⟨by rw [accountsPerSubnet, normUserLimit_natCast (by omega) hk', if_neg (by omega)], by omega⟩

/-- Where a block is. -/
theorem vpnAccountBlock_some {subnets : List Subnet} {k : ℕ} (hk : 2 ≤ k) (hk' : k ≤ 64) {s : Subnet}
    {host : ℕ} : vpnAccountBlock subnets slot k = some (s, host) ↔
      subnets[slot / (255 / k - 1)]? = some s ∧ host = (slot % (255 / k - 1) + 1) * k := by
  obtain ⟨hper, hpos⟩ := accountsPerSubnet_eq hk hk'
  rw [vpnAccountBlock]
  simp only [hper, normUserLimit_natCast (show 1 ≤ k by omega) hk']
  rw [if_neg hpos]
  simp only [Option.map_eq_some_iff, Prod.mk.injEq]
  constructor
  · rintro ⟨s', hs, rfl, rfl⟩
    exact ⟨hs, rfl⟩
  · rintro ⟨hs, rfl⟩
    exact ⟨s, hs, rfl, rfl⟩

/-- The devices of an account are the hosts of its block. -/
theorem mem_vpnAccountDeviceIPs {subnets : List Subnet} {k : ℕ} (hk : 2 ≤ k) (hk' : k ≤ 64) :
    a ∈ vpnAccountDeviceIPs subnets slot k ↔ InBlock subnets k slot a := by
  have hpos : 0 < k := by omega
  rw [vpnAccountDeviceIPs, InBlock]
  cases hb : vpnAccountBlock subnets slot k with
  | none =>
      refine iff_of_false List.not_mem_nil ?_
      rintro ⟨hs, -⟩
      rw [(vpnAccountBlock_some hk hk').2 ⟨hs, rfl⟩] at hb
      cases hb
  | some b =>
      obtain ⟨s, host⟩ := b
      obtain ⟨hs, rfl⟩ := (vpnAccountBlock_some hk hk').1 hb
      simp only [hs, normUserLimit_natCast (show 1 ≤ k by omega) hk', List.mem_map, List.mem_range]
      constructor
      · rintro ⟨d, hd, rfl⟩
        refine ⟨rfl, ?_⟩
        show ((slot % (255 / k - 1) + 1) * k + d) / k = _
        rw [Nat.add_comm, Nat.add_mul_div_right _ _ hpos, Nat.div_eq_of_lt hd, Nat.zero_add]
      · rintro ⟨hsubnet, hhost⟩
        refine ⟨a.host % k, Nat.mod_lt _ hpos, ?_⟩
        rw [← hhost, Option.some.inj hsubnet, Nat.mul_comm, Nat.div_add_mod]

theorem mem_pooledIPs {ranges : List Range} {k : ℕ} (hk : k ≤ 64) :
    a ∈ pooledIPs ranges k slot ↔ Pooled ranges (subnetsOf ranges) k slot a := by
  rw [pooledIPs, Pooled]
  split
  · exact mem_counted
  · exact mem_vpnAccountDeviceIPs (by omega) hk

theorem ovpnBlockClientIP_eq_some {base third prefixLen : ℕ} :
    ovpnBlockClientIP base third prefixLen slot = some a ↔
      ∃ h, h + 1 < 2 ^ (32 - prefixLen) ∧ (2 + slot) % 2 ^ 32 = h ∧
        a = ⟨⟨10, base, third + h / 256⟩, h % 256⟩ := by
  unfold ovpnBlockClientIP
  simp only
  constructor
  · intro h
    split at h
    · cases h
    · exact ⟨_, by omega, rfl, (Option.some.inj h).symm⟩
  · rintro ⟨h, hlt, rfl, rfl⟩
    rw [if_neg (by omega)]

theorem mem_blockFileIPs {base : ℕ} : a ∈ blockFileIPs i base slot ↔ OnTransport i slot a base := by
  have hlimit : i.vpn.userLimit = i.userLimit := rfl
  rw [blockFileIPs, ovpnDeviceIPs, OnTransport, hlimit]
  by_cases hone : effectiveUserLimit i.userLimit ≤ 1
  · rw [if_pos hone, if_pos hone, Option.mem_toList]
    exact ovpnBlockClientIP_eq_some
  · rw [if_neg hone, if_neg hone]
    exact mem_vpnAccountDeviceIPs (by omega) (effectiveUserLimit_bounds i.userLimit).2

theorem covers_long {r : Route} (h : 24 ≤ r.prefixLen) : r.covers a = true ↔
    a.subnet = r.addr.subnet ∧ a.host / 2 ^ (32 - r.prefixLen) = r.addr.host / 2 ^ (32 - r.prefixLen) := by
  rw [Route.covers, if_pos h, Bool.and_eq_true, decide_eq_true_eq, decide_eq_true_eq]

theorem covers_host {b : Addr} : (⟨b, 32⟩ : Route).covers a = true ↔ a = b := by
  obtain ⟨s, host⟩ := a
  obtain ⟨s', host'⟩ := b
  simp [Route.covers]

theorem covers_hosts {l : List Addr} :
    (∃ r ∈ l.map fun b => (⟨b, 32⟩ : Route), r.covers a = true) ↔ a ∈ l := by
  simp only [List.mem_map, exists_exists_and_eq_and, covers_host, exists_eq_right']

/-- The sizes a gateway block can have. -/
theorem nextPow2_log {k : ℕ} (hk : k ≤ 64) :
    2 ^ Nat.log2 (nextPow2 k) = nextPow2 k ∧ Nat.log2 (nextPow2 k) ≤ 6 := by
  have hall : ∀ k < 65, 2 ^ Nat.log2 (nextPow2 k) = nextPow2 k ∧ Nat.log2 (nextPow2 k) ≤ 6 := by
    decide +kernel
  exact hall k (by omega)

/-- The prefix of a gateway block covers its hosts and no other. -/
theorem covers_gatewayBlock {subnets : List Subnet} {k : ℕ} (hk : 2 ≤ k) (hk' : k ≤ 64) :
    (∃ r ∈ (vpnAccountBlock subnets slot (nextPow2 k)).toList.map fun b =>
        (⟨⟨b.1, b.2⟩, 32 - Nat.log2 (nextPow2 k)⟩ : Route), r.covers a = true) ↔
      InBlock subnets (nextPow2 k) slot a := by
  obtain ⟨hpow, hlog⟩ := nextPow2_log hk'
  have hle := le_nextPow2 k
  have hsize : 32 - (32 - Nat.log2 (nextPow2 k)) = Nat.log2 (nextPow2 k) := by omega
  have hlong : 24 ≤ 32 - Nat.log2 (nextPow2 k) := by omega
  have hcancel := fun q => Nat.mul_div_cancel q (show 0 < nextPow2 k by omega)
  have hsome := fun s host =>
    @vpnAccountBlock_some slot subnets (nextPow2 k) (by omega) (nextPow2_le_64 hk') s host
  simp only [List.mem_map, Option.mem_toList, exists_exists_and_eq_and, InBlock]
  constructor
  · rintro ⟨⟨s, host⟩, hb, hcov⟩
    obtain ⟨hs, rfl⟩ := (hsome s host).1 hb
    obtain ⟨hsubnet, hhost⟩ := (covers_long hlong).1 hcov
    simp only [hsize, hpow, hcancel] at hhost
    exact ⟨hsubnet ▸ hs, hhost⟩
  · rintro ⟨hs, hhost⟩
    refine ⟨_, (hsome _ _).2 ⟨hs, rfl⟩, (covers_long hlong).2 ⟨rfl, ?_⟩⟩
    simp only [hsize, hpow, hcancel]
    exact hhost

/-- The routes of an account are the addresses its slot owns. -/
theorem covered_iff_owns : (∃ r ∈ accountRoutes i slot, r.covers a = true) ↔ Owns i slot a := by
  rw [accountRoutes, Owns]
  by_cases hprotocol : i.protocol = .openvpn
  · simp only [if_pos hprotocol, List.mem_flatMap, ← mem_blockFileIPs]
    constructor
    · rintro ⟨r, ⟨base, hbase, hr⟩, hcov⟩
      exact ⟨base, hbase, covers_hosts.1 ⟨r, hr, hcov⟩⟩
    · rintro ⟨base, hbase, ha⟩
      obtain ⟨r, hr, hcov⟩ := covers_hosts.2 ha
      exact ⟨r, ⟨base, hbase, hr⟩, hcov⟩
  rw [if_neg hprotocol, if_neg hprotocol]
  cases hw : wholeBlock i with
  | true => simp
  | false =>
      rw [if_neg Bool.false_ne_true, if_neg Bool.false_ne_true, Pooled]
      by_cases hgateway : gatewayProtocol i.protocol = true
      · have hbounds := wgcEffectiveK_bounds i.userLimit
        have hsize : blockSize i.protocol i.userLimit = nextPow2 (wgcEffectiveK i.userLimit) := by
          rw [blockSize, if_pos hgateway]
        rw [if_pos hgateway, hsize]
        simp only [nextPow2_le_one_iff hbounds.1]
        split
        · rw [covers_hosts]
          exact mem_counted
        · exact covers_gatewayBlock (by omega) hbounds.2
      · have hsize : blockSize i.protocol i.userLimit = effectiveUserLimit i.userLimit := by
          rw [blockSize, if_neg hgateway]
        rw [if_neg hgateway, hsize]
        simp only
        split
        · rw [covers_hosts]
          exact mem_counted
        · rw [covers_hosts, mem_vpnAccountDeviceIPs (by omega) (effectiveUserLimit_bounds i.userLimit).2]

/-- The list of an email: what the slots of its accounts own. -/
theorem listed_iff {inbounds : List Inbound} {email : String} :
    Listed inbounds email a ↔
      ∃ j m d, Routed inbounds j m d ∧ d.email = email ∧ Owns j (Inbound.slotAt d m) a := by
  have hmem : ∀ j, j ∈ ((inbounds.filter fun i => i.enable).filter fun i =>
      slotPoolProtocol i.protocol && decide (i.protocol ≠ .openvpn)) ++
        (inbounds.filter fun i => i.enable).filter (fun i => decide (i.protocol = .openvpn)) ↔
      j ∈ inbounds ∧ j.enable = true ∧ slotPoolProtocol j.protocol = true := by
    intro j
    simp only [List.mem_append, List.mem_filter, Bool.and_eq_true, decide_eq_true_eq]
    constructor
    · rintro (⟨hj, hp, -⟩ | ⟨hj, hp⟩)
      · exact ⟨hj.1, hj.2, hp⟩
      · exact ⟨hj.1, hj.2, by rw [hp]; rfl⟩
    · rintro ⟨hj, henable, hpool⟩
      by_cases hp : j.protocol = .openvpn
      · exact Or.inr ⟨⟨hj, henable⟩, hp⟩
      · exact Or.inl ⟨⟨hj, henable⟩, hpool, hp⟩
  rw [Listed, buildVpnEmailToIPMap]
  simp only [List.mem_flatMap, hmem, inboundRoutes]
  constructor
  · rintro ⟨r, ⟨j, ⟨hj, henable, hpool⟩, ⟨d, m⟩, hd, hr⟩, hcov⟩
    split at hr
    case isTrue hemail =>
      exact ⟨j, m, d, ⟨hj, henable, hpool, List.mem_zipIdx_iff_getElem?.1 hd, hemail.1⟩, hemail.2,
        covered_iff_owns.1 ⟨r, hr, hcov⟩⟩
    · cases hr
  · rintro ⟨j, m, d, hroutes, rfl, howns⟩
    obtain ⟨r, hr, hcov⟩ := covered_iff_owns.2 howns
    refine ⟨r, ⟨j, ⟨hroutes.mem, hroutes.enable, hroutes.tunnel⟩, (d, m),
      List.mem_zipIdx_iff_getElem?.2 hroutes.account, ?_⟩, hcov⟩
    rw [if_pos ⟨hroutes.email, rfl⟩]
    exact hr

end Layout

/-! ## Ranges as they are stored -/

/-- Every inbound has the ranges `normalizeRanges` gives it, no two own a /24 in common,
and where addresses are handed out one by one no two ranges have a host in common and
OpenVPN's 32-bit arithmetic does not wrap. -/
structure Stored (inbounds : List Inbound) : Prop where
  ids : (inbounds.map Inbound.id).Nodup
  shaped : ∀ i ∈ inbounds, Shaped i.vpn
  apart : ∀ i ∈ inbounds, ∀ j ∈ inbounds, i.id ≠ j.id →
    ∀ s ∈ ownedSubnets i.vpn, s ∉ ownedSubnets j.vpn
  clean : ∀ i ∈ inbounds, pppProtocol i.protocol = true → blockSize i.protocol i.userLimit ≤ 1 →
    CleanRanges (parsed i.ipRanges)
  slots : ∀ i ∈ inbounds, i.protocol = .openvpn → blockSize i.protocol i.userLimit ≤ 1 →
    ∀ n c, i.clients[n]? = some c → Inbound.slotAt c n + 2 < 2 ^ 32

section Reading

variable {i : Inbound} {slot slot' : ℕ} {a : Addr}

theorem ranges_eq (h : Shaped i.vpn) : i.ipRanges.isEmpty = false ∧ i.ranges = i.ipRanges := by
  have hne : i.ipRanges.isEmpty = false := by
    cases hi : i.ipRanges with
    | nil => exact absurd (show parsed i.ipRanges = [] by rw [hi]; rfl) h.ne_nil
    | cons r rs => rfl
  exact ⟨hne, by rw [Inbound.ranges, hne]; rfl⟩

/-- Where ranges are stored they are what is read. -/
theorem rangesOr_eq (h : Shaped i.vpn) (protocol : Protocol) :
    rangesOr (stored i.ranges) protocol i.id = i.vpn.ranges := by
  obtain ⟨hne, hranges⟩ := ranges_eq h
  rw [hranges, stored, hne]
  rfl

theorem subnetsOrDefault_eq (h : Shaped i.vpn) (protocol : Protocol) :
    pppSubnetsOrDefault (parsed i.ranges) protocol i.id = subnetsOf i.vpn.ranges := by
  rw [(ranges_eq h).2, pppSubnetsOrDefault]
  exact if_neg (subnetsOf_ne_nil h.ne_nil)

/-- The addresses of an account that has some of its own. -/
def ownIPs (i : Inbound) (slot : ℕ) : List Addr :=
  if i.protocol = .openvpn then (transports i).flatMap fun base => blockFileIPs i base slot
  else pooledIPs i.vpn.ranges (blockSize i.protocol i.userLimit) slot

theorem base_of_mem_transports {base : ℕ} (h : base ∈ transports i) : base = 2 ∨ base = 3 := by
  unfold transports at h
  rcases List.mem_append.1 h with h | h
  · split at h
    · exact Or.inl (List.mem_singleton.1 h)
    · cases h
  · split at h
    · exact Or.inr (List.mem_singleton.1 h)
    · cases h

/-- An OpenVPN account's addresses are on the /24s of the transport. -/
theorem blockFileIPs_subnet (h : Shaped i.vpn) (hprotocol : i.protocol = .openvpn) {base : ℕ}
    (hbase : base = 2 ∨ base = 3) (ha : a ∈ blockFileIPs i base slot) :
    a.subnet ∈ ownedSubnets i.vpn ∧ a.subnet.b = base := by
  obtain ⟨first, n, hranges, hpow, haligned, hbound⟩ := openvpn_block h hprotocol
  have hmem : ∀ d, d < n → (⟨10, base, first + d⟩ : Subnet) ∈ ownedSubnets i.vpn := fun d hd =>
    mem_ownedSubnets_openvpn h hprotocol hranges hd hbase
  rw [blockFileIPs, ovpnDeviceIPs_eq hranges hpow haligned hbound hbase] at ha
  split at ha
  · rw [Option.mem_toList] at ha
    obtain ⟨hlt, rfl⟩ := ovpnBlockClientIP_some hpow hbound ha
    exact ⟨hmem _ hlt, rfl⟩
  · have hsubnet := pooledIPs_subnet (effectiveUserLimit_bounds i.userLimit).2 ha
    rw [subnetsOf_blockRanges] at hsubnet
    obtain ⟨d, hd, heq⟩ := List.mem_map.1 hsubnet
    rw [← heq]
    exact ⟨hmem d (List.mem_range.1 hd), rfl⟩

/-- An account's own addresses are on the /24s of its inbound. -/
theorem ownIPs_subnet (h : Shaped i.vpn) (ha : a ∈ ownIPs i slot) : a.subnet ∈ ownedSubnets i.vpn := by
  rw [ownIPs] at ha
  split at ha
  case isTrue hprotocol =>
    obtain ⟨base, hbase, ha⟩ := List.mem_flatMap.1 ha
    exact (blockFileIPs_subnet h hprotocol (base_of_mem_transports hbase) ha).1
  case isFalse =>
    rw [ownedSubnets, inboundRanges_eq h, List.mem_flatMap]
    exact ⟨a.subnet, pooledIPs_subnet (blockSize_bounds i.protocol i.userLimit).2 ha, List.mem_cons_self⟩

/-- Two slots of an inbound have no address in common. -/
theorem ownIPs_disjoint {inbounds : List Inbound} (h : Stored inbounds) (hi : i ∈ inbounds) {n n' : ℕ}
    {c c' : Account} (hc : i.clients[n]? = some c) (hc' : i.clients[n']? = some c')
    (hne : Inbound.slotAt c n ≠ Inbound.slotAt c' n') (ha : a ∈ ownIPs i (Inbound.slotAt c n)) :
    a ∉ ownIPs i (Inbound.slotAt c' n') := by
  intro ha'
  have hshaped := h.shaped i hi
  rw [ownIPs] at ha ha'
  split at ha
  case isTrue hprotocol =>
    rw [if_pos hprotocol] at ha'
    obtain ⟨base, hbase, ha⟩ := List.mem_flatMap.1 ha
    obtain ⟨base', hbase', ha'⟩ := List.mem_flatMap.1 ha'
    have hb := (blockFileIPs_subnet hshaped hprotocol (base_of_mem_transports hbase) ha).2
    have hb' := (blockFileIPs_subnet hshaped hprotocol (base_of_mem_transports hbase') ha').2
    rw [← hb', hb] at ha'
    obtain ⟨first, k, hranges, hpow, haligned, hbound⟩ := openvpn_block hshaped hprotocol
    have hone : ∀ m d, i.clients[m]? = some d → effectiveUserLimit i.vpn.userLimit ≤ 1 →
        Inbound.slotAt d m + 2 < 2 ^ 32 := fun m d hd hone =>
      h.slots i hi hprotocol (by rw [hprotocol]; exact hone) m d hd
    exact ovpnDeviceIPs_disjoint hranges hpow haligned hbound (base_of_mem_transports hbase) (hone n c hc)
      (hone n' c' hc') hne ha ha'
  case isFalse hprotocol =>
    rw [if_neg hprotocol] at ha'
    have hclean : blockSize i.protocol i.userLimit ≤ 1 → CleanRanges i.vpn.ranges := by
      intro hone
      cases hppp : pppProtocol i.protocol with
      | true => exact h.clean i hi hppp hone
      | false =>
          obtain ⟨first, n, hranges, -⟩ := hshaped.block hppp
          rw [hranges]
          exact cleanRanges_block _ _ _
    exact pooledIPs_disjoint (blockSize_bounds i.protocol i.userLimit).2 hclean hne ha ha'

end Reading

/-! ## What the routes of an account cover -/

section Covering

variable {i : Inbound} {slot : ℕ} {a : Addr}

/-- An account without the whole block is routed at its own addresses. -/
theorem covered_own (h : Shaped i.vpn) (hw : wholeBlock i = false) :
    (∃ r ∈ accountRoutes i slot, r.covers a = true) ↔ a ∈ ownIPs i slot := by
  rw [covered_iff_owns, Owns, ownIPs]
  by_cases hprotocol : i.protocol = .openvpn
  · simp only [if_pos hprotocol, List.mem_flatMap, mem_blockFileIPs]
  · rw [if_neg hprotocol, if_neg hprotocol, if_neg (by rw [hw]; exact Bool.false_ne_true), rangesOr_eq h,
      subnetsOrDefault_eq h, ← mem_pooledIPs (blockSize_bounds _ _).2]

/-- A block of /24s, as a route. -/
theorem covers_block {base first l : ℕ} (hl : l ≤ 7) (haligned : 2 ^ l ∣ first) :
    ((⟨⟨⟨10, base, first⟩, 0⟩, 24 - l⟩ : Route).covers a = true →
        ∃ d < 2 ^ l, a.subnet = ⟨10, base, first + d⟩) ∧
      ((∃ d < 2 ^ l, a.subnet = ⟨10, base, first + d⟩) → a.host ≤ 255 →
        (⟨⟨⟨10, base, first⟩, 0⟩, 24 - l⟩ : Route).covers a = true) := by
  obtain ⟨s, host⟩ := a
  obtain ⟨q, rfl⟩ := haligned
  rcases Nat.eq_zero_or_pos l with rfl | hpos
  · simp only [Route.covers, Nat.sub_zero, le_refl, if_true, Bool.and_eq_true, decide_eq_true_eq]
    refine ⟨fun hcov => ⟨0, by decide, hcov.1⟩, ?_⟩
    rintro ⟨d, hd, rfl⟩ hhost
    obtain rfl : d = 0 := by omega
    have hhost : host ≤ 255 := hhost
    refine ⟨rfl, ?_⟩
    show host / 256 = 0 / 256
    omega
  · have hsub : 24 - (24 - l) = l := by omega
    have hdiv : 2 ^ l * q / 2 ^ l = q := Nat.mul_div_cancel_left q (Nat.two_pow_pos l)
    simp only [Route.covers, show ¬ 24 ≤ 24 - l by omega, if_false, hsub, hdiv, Bool.and_eq_true,
      decide_eq_true_eq]
    constructor
    · rintro ⟨⟨ha, hb⟩, hc⟩
      refine ⟨s.c % 2 ^ l, Nat.mod_lt _ (Nat.two_pow_pos l), ?_⟩
      obtain ⟨sa, sb, sc⟩ := s
      simp only at ha hb hc
      rw [ha, hb, ← hc, Nat.div_add_mod]
    · rintro ⟨d, hd, rfl⟩ -
      refine ⟨⟨rfl, rfl⟩, ?_⟩
      rw [Nat.mul_add_div (Nat.two_pow_pos l), Nat.div_eq_of_lt hd, Nat.add_zero]

/-- The block an IKEv2 inbound leases from is what it owns. -/
theorem covered_whole (h : Shaped i.vpn) (hw : wholeBlock i = true) :
    ((∃ r ∈ accountRoutes i slot, r.covers a = true) → a.subnet ∈ ownedSubnets i.vpn) ∧
      (a.subnet ∈ ownedSubnets i.vpn → a.host ≤ 255 → ∃ r ∈ accountRoutes i slot, r.covers a = true) := by
  have hprotocol : i.protocol = .ikev2 := by
    rw [wholeBlock, Bool.and_eq_true, decide_eq_true_eq] at hw
    exact hw.1
  have hvpn : i.vpn.protocol = .ikev2 := hprotocol
  obtain ⟨first, n, hblock, ⟨l, rfl⟩, haligned, hbound⟩ := h.block (by rw [hvpn]; rfl)
  rw [hvpn] at hblock
  have hl : l ≤ 7 := by
    by_contra hl
    have := Nat.pow_le_pow_right (show 0 < 2 by decide) (show 8 ≤ l by omega)
    omega
  have howned : a.subnet ∈ ownedSubnets i.vpn ↔ ∃ d < 2 ^ l, a.subnet = ⟨10, 6, first + d⟩ := by
    rw [ownedSubnets, inboundRanges_eq h, hblock, subnetsOf_blockRanges, List.mem_flatMap]
    simp [hvpn, protocolBase, eq_comm]
  have hroutes : accountRoutes i slot = [⟨⟨⟨10, 6, first⟩, 0⟩, 24 - l⟩] := by
    have hparsed : parsed i.ranges = blockRanges (protocolBase .ikev2) first (2 ^ l) := by
      rw [(ranges_eq h).2]
      exact hblock
    rw [accountRoutes, if_neg (by rw [hprotocol]; decide), if_pos hw]
    simp only [hparsed, vpnBlock_blockRanges _ _ ⟨l, rfl⟩ haligned hbound, Nat.log2_two_pow]
    rfl
  obtain ⟨hcov, hcov'⟩ := @covers_block a 6 first l hl haligned
  rw [howned, hroutes]
  simp only [List.mem_singleton, exists_eq_left]
  exact ⟨hcov, hcov'⟩

end Covering

/-! ## Routed where they are given -/

section Routed

variable {inbounds : List Inbound} {i : Inbound} {c : Account} {slot : ℕ} {a : Addr}

theorem gatewayDeviceIPs_sub (h : Shaped i.vpn) (hgateway : gatewayProtocol i.protocol = true)
    (ha : a ∈ gatewayDeviceIPs i.protocol i.vpn slot) :
    a ∈ pooledIPs i.vpn.ranges (blockSize i.protocol i.userLimit) slot := by
  have hbounds := wgcEffectiveK_bounds i.userLimit
  have hsize : blockSize i.protocol i.userLimit = nextPow2 (wgcEffectiveK i.userLimit) := by
    rw [blockSize, if_pos hgateway]
  have hsubnets : pppSubnetsOrDefault i.vpn.ranges i.protocol i.vpn.id = subnetsOf i.vpn.ranges := by
    rw [pppSubnetsOrDefault]
    exact if_neg (subnetsOf_ne_nil h.ne_nil)
  have hlimit : i.vpn.userLimit = i.userLimit := rfl
  rw [hsize, pooledIPs]
  simp only [gatewayDeviceIPs, gatewayBlock, hlimit, hsubnets] at ha
  by_cases hone : wgcEffectiveK i.userLimit ≤ 1
  · rw [if_pos hone, computeVpnClientIP, i.vpn.stored_eq h.ne_nil] at ha
    rw [if_pos ((nextPow2_le_one_iff hbounds.1).2 hone)]
    exact ha
  · rw [if_neg (by rw [nextPow2_le_one_iff hbounds.1]; exact hone)]
    simp only [if_neg hone] at ha
    have hnorm : normUserLimit (nextPow2 (wgcEffectiveK i.userLimit) : ℤ)
        = nextPow2 (wgcEffectiveK i.userLimit) :=
      normUserLimit_natCast (hbounds.1.trans (le_nextPow2 _)) (nextPow2_le_64 hbounds.2)
    cases hb : vpnAccountBlock (subnetsOf i.vpn.ranges) slot (nextPow2 (wgcEffectiveK i.userLimit)) with
    | none => simp [hb] at ha
    | some b =>
        simp only [hb, Option.map_some] at ha
        obtain ⟨d, hd, rfl⟩ := List.mem_map.1 (List.mem_of_mem_filter ha)
        simp only [vpnAccountDeviceIPs, hb, hnorm]
        have hlt := (List.mem_range.1 hd).trans_le (le_nextPow2 _)
        exact List.mem_map.2 ⟨d, List.mem_range.2 hlt, rfl⟩

/-- What is given is of the own addresses of a slot some account is on, and the inbound is
where it is looked for. -/
theorem own_of_given {src : Source} (hstored : Stored inbounds) (h : Given inbounds src i c slot a)
    (hfits : src.Fits i) :
    i ∈ inbounds ∧ i.enable = true ∧ (∃ n d, i.clients[n]? = some d ∧ Inbound.slotAt d n = slot) ∧
      a ∈ ownIPs i slot := by
  cases h with
  | @radius protocol _ n _ _ inboundId username block hprotocol hdial ha =>
      obtain ⟨henable, rfl⟩ := hfits
      obtain ⟨j, hj, hfound⟩ := Option.bind_eq_some_iff.1 hdial
      obtain ⟨⟨c', n'⟩, hc, heq⟩ := Option.map_eq_some_iff.1 hfound
      cases heq
      have hi : i ∈ inbounds := by
        unfold dialled at hj
        split at hj <;> exact List.mem_of_find?_eq_some hj
      have hget : i.clients[n]? = some c := by
        simpa using List.mem_zipIdx_iff_getElem?.1 (List.mem_of_find?_eq_some hc)
      refine ⟨hi, henable, ⟨n, c, hget, rfl⟩, ?_⟩
      have hshaped := hstored.shaped i hi
      have hne : i.protocol ≠ .openvpn := by
        intro hp
        rw [hp] at hprotocol
        cases hprotocol
      have hsize : blockSize i.protocol i.userLimit = effectiveUserLimit i.userLimit := by
        rw [blockSize, if_neg]
        intro hgateway
        cases hp : i.protocol <;> simp [hp, radiusProtocol, gatewayProtocol] at hprotocol hgateway
      rw [ownIPs, if_neg hne, hsize, pooledIPs]
      simp only [radiusBlock, computeVpnClientIP, rangesOr_eq hshaped, subnetsOrDefault_eq hshaped] at ha
      split at ha
      case isTrue hone => rwa [if_pos hone]
      case isFalse hone =>
        rw [if_neg hone]
        exact List.mem_of_mem_filter ha
  | @blockFile _ _ d m _ base hi henable hprotocol hc hid hbase hfile ha =>
      have hd := (List.mem_filter.1 (List.mem_of_getLast? hfile)).1
      refine ⟨hi, henable, ⟨m, d, List.mem_zipIdx_iff_getElem?.1 hd, rfl⟩, ?_⟩
      rw [ownIPs, if_pos hprotocol]
      exact List.mem_flatMap.2 ⟨_, hbase, ha⟩
  | @peers _ n _ _ hi henable hprotocol hc hemail ha =>
      refine ⟨hi, henable, ⟨n, c, hc, rfl⟩, ?_⟩
      have hne : i.protocol ≠ .openvpn := by
        intro hp
        rw [hp] at hprotocol
        cases hprotocol
      rw [ownIPs, if_neg hne]
      exact gatewayDeviceIPs_sub (hstored.shaped i hi) hprotocol ha

/-- What owns an address that is given is on the same inbound. -/
theorem inbound_of_owns (hstored : Stored inbounds) (hi : i ∈ inbounds)
    (ha : a.subnet ∈ ownedSubnets i.vpn) {j : Inbound} (hj : j ∈ inbounds) {s : ℕ} (howns : Owns j s a) :
    j = i := by
  have hshaped := hstored.shaped j hj
  have hcov := covered_iff_owns.2 howns
  have hsubnet : a.subnet ∈ ownedSubnets j.vpn := by
    cases hw : wholeBlock j with
    | true => exact (covered_whole hshaped hw).1 hcov
    | false => exact ownIPs_subnet hshaped ((covered_own hshaped hw).1 hcov)
  by_contra hne
  have hid : i.id ≠ j.id := fun hid => hne (List.inj_on_of_nodup_map hstored.ids hj hi hid.symm)
  exact hstored.apart i hi j hj hid a.subnet ha hsubnet

/-- The slots of an inbound that own an address of one of them: that slot, and every slot
where the whole block is leased. -/
theorem owns_iff (hstored : Stored inbounds) (hi : i ∈ inbounds) {n : ℕ} (hc : i.clients[n]? = some c)
    (ha : a ∈ ownIPs i (Inbound.slotAt c n)) {m : ℕ} {d : Account} (hd : i.clients[m]? = some d) :
    Owns i (Inbound.slotAt d m) a ↔ Inbound.slotAt d m = Inbound.slotAt c n ∨ wholeBlock i = true := by
  have hshaped := hstored.shaped i hi
  rw [← covered_iff_owns]
  cases hw : wholeBlock i with
  | true =>
      have hhost : a.host ≤ 255 := by
        have hprotocol : i.protocol = .ikev2 := by
          rw [wholeBlock, Bool.and_eq_true, decide_eq_true_eq] at hw
          exact hw.1
        obtain ⟨first, k, hblock, -⟩ := hshaped.block (by
          show pppProtocol i.protocol = false
          rw [hprotocol]
          rfl)
        rw [ownIPs, if_neg (by rw [hprotocol]; decide), hblock] at ha
        have := (pooledIPs_host (blockSize_bounds _ _).2 (fun _ => cleanRanges_block _ _ _) ha).2
        omega
      simp only [or_true, iff_true]
      exact (covered_whole hshaped hw).2 (ownIPs_subnet hshaped ha) hhost
  | false =>
      rw [covered_own hshaped hw]
      constructor
      · intro ha'
        refine Or.inl ?_
        by_contra hne
        exact ownIPs_disjoint hstored hi hc hd (Ne.symm hne) ha ha'
      · rintro (heq | hfalse)
        · rw [heq]
          exact ha
        · cases hfalse

variable (inbounds c a)

/-- A slot of the account's email owns the address, and no slot of another email does. -/
structure OnlyOwn : Prop where
  own : ∃ j m d, Routed inbounds j m d ∧ d.email = c.email ∧ Owns j (Inbound.slotAt d m) a
  others : ∀ j m d, Routed inbounds j m d → d.email ≠ c.email → ¬ Owns j (Inbound.slotAt d m) a

/-- An account of the inbound with the email is on the slot, and no account with another one
is; where the whole block is leased every slot is the same. -/
structure OnSlot (i : Inbound) (c : Account) (slot : ℕ) : Prop where
  email : c.email ≠ ""
  own : ∃ m d, i.clients[m]? = some d ∧ d.email = c.email ∧ (Inbound.slotAt d m = slot ∨ wholeBlock i = true)
  others : ∀ m d, i.clients[m]? = some d → d.email ≠ "" → d.email ≠ c.email →
    Inbound.slotAt d m ≠ slot ∧ wholeBlock i = false

variable {inbounds c a}

/-- With ranges as they are stored it is the slots that tell accounts apart. -/
theorem onlyOwn_iff_onSlot (hstored : Stored inbounds) {src : Source} (h : Given inbounds src i c slot a)
    (hfits : src.Fits i) : OnlyOwn inbounds c a ↔ OnSlot i c slot := by
  obtain ⟨hi, henable, ⟨n, c', hc', rfl⟩, ha⟩ := own_of_given hstored h hfits
  have htunnel := (hstored.shaped i hi).vpn
  have hsubnet := ownIPs_subnet (hstored.shaped i hi) ha
  constructor
  · intro honly
    obtain ⟨j, m, d, hd, hemail, howns⟩ := honly.own
    obtain rfl := inbound_of_owns hstored hi hsubnet hd.mem howns
    refine ⟨hemail ▸ hd.email, ⟨m, d, hd.account, hemail, (owns_iff hstored hi hc' ha hd.account).1 howns⟩,
      fun m d hd hne hother => ?_⟩
    by_contra hbad
    rw [not_and_or, not_not, Bool.not_eq_false] at hbad
    exact honly.others j m d ⟨hi, henable, htunnel, hd, hne⟩ hother ((owns_iff hstored hi hc' ha hd).2 hbad)
  · intro honslot
    obtain ⟨m, d, hd, hemail, hon⟩ := honslot.own
    refine ⟨⟨i, m, d, ⟨hi, henable, htunnel, hd, hemail ▸ honslot.email⟩, hemail,
      (owns_iff hstored hi hc' ha hd).2 hon⟩, fun j m' d' hd' hother howns => ?_⟩
    obtain rfl := inbound_of_owns hstored hi hsubnet hd'.mem howns
    obtain ⟨hne, hw⟩ := honslot.others m' d' hd'.account hd'.email hother
    rcases (owns_iff hstored hi hc' ha hd'.account).1 howns with heq | hw'
    · exact hne heq
    · rw [hw] at hw'
      cases hw'

/-- An address a device of an account is given is in the list of the account's email and in
no other list, exactly when a slot of an account with the email owns it and no slot of an
account with another one does.  With ranges as they are stored, and a dial that names an
enabled inbound of its protocol, that is when nobody with another email is on the slot. -/
theorem routed_iff {src : Source} (h : Given inbounds src i c slot a) :
    ((Listed inbounds c.email a ∧ ∀ email, email ≠ c.email → ¬ Listed inbounds email a) ↔
        OnlyOwn inbounds c a) ∧
      (Stored inbounds → src.Fits i → (OnlyOwn inbounds c a ↔ OnSlot i c slot)) := by
  refine ⟨?_, fun hstored hfits => onlyOwn_iff_onSlot hstored h hfits⟩
  simp only [listed_iff]
  constructor
  · rintro ⟨hown, hothers⟩
    exact ⟨hown, fun j m d hd hother howns => hothers d.email hother ⟨j, m, d, hd, rfl, howns⟩⟩
  · intro honly
    refine ⟨honly.own, ?_⟩
    rintro email hother ⟨j, m, d, hd, rfl, howns⟩
    exact honly.others j m d hd hother howns

end Routed

/-! ## Two accounts on one slot -/

/-- An L2TP inbound with one device an account, and two accounts posted with slots. -/
def twoAccounts (slot slot' : ℤ) : Inbound where
  id := 1
  protocol := .l2tp
  ipRanges := [⟨"10.0.2.2-10.0.2.254", some (defaultRange ⟨10, 0, 2⟩)⟩]
  clients := [⟨"ann", "ann@example", some slot⟩, ⟨"bob", "bob@example", some slot'⟩]

theorem given_ann (slot' : ℤ) :
    Given [twoAccounts 0 slot'] (.radius .l2tp) (twoAccounts 0 slot') ⟨"ann", "ann@example", some 0⟩ 0
      ⟨⟨10, 0, 2⟩, 2⟩ :=
  have hdial : getClientIP [twoAccounts 0 slot'] .l2tp 0 "ann" = some (twoAccounts 0 slot',
      (⟨"ann", "ann@example", some 0⟩, 0), [⟨⟨10, 0, 2⟩, 2⟩]) := rfl
  .radius rfl hdial (List.mem_singleton.2 rfl)

/-- Both accounts are stored on slot 0: the address ann's device gets is in bob's list. -/
theorem shared_slot_in_both_lists :
    Given [twoAccounts 0 0] (.radius .l2tp) (twoAccounts 0 0) ⟨"ann", "ann@example", some 0⟩ 0
        ⟨⟨10, 0, 2⟩, 2⟩ ∧
      Listed [twoAccounts 0 0] "ann@example" ⟨⟨10, 0, 2⟩, 2⟩ ∧
      Listed [twoAccounts 0 0] "bob@example" ⟨⟨10, 0, 2⟩, 2⟩ :=
  ⟨given_ann 0, ⟨⟨⟨⟨10, 0, 2⟩, 2⟩, 32⟩, by decide +kernel, by decide +kernel⟩,
    ⟨⟨⟨⟨10, 0, 2⟩, 2⟩, 32⟩, by decide +kernel, by decide +kernel⟩⟩

theorem stored_twoAccounts (slot slot' : ℤ) : Stored [twoAccounts slot slot'] where
  ids := List.nodup_singleton _
  shaped := by
    intro i hi
    rw [List.mem_singleton.1 hi]
    exact ⟨rfl, List.cons_ne_nil _ _, fun h => by cases h⟩
  apart := by
    intro i hi j hj hne
    rw [List.mem_singleton.1 hi, List.mem_singleton.1 hj] at hne
    exact absurd rfl hne
  clean := by
    intro i hi _ _
    rw [List.mem_singleton.1 hi]
    exact cleanRanges_block 0 2 1
  slots := by
    intro i hi hprotocol
    rw [List.mem_singleton.1 hi] at hprotocol
    cases hprotocol

/-- On slots of their own they are told apart. -/
theorem routed_own_slots :
    Listed [twoAccounts 0 1] "ann@example" ⟨⟨10, 0, 2⟩, 2⟩ ∧
      ∀ email, email ≠ "ann@example" → ¬ Listed [twoAccounts 0 1] email ⟨⟨10, 0, 2⟩, 2⟩ := by
  obtain ⟨hrouted, honslot⟩ := routed_iff (given_ann 1)
  refine hrouted.2 ((honslot (stored_twoAccounts 0 1) ⟨rfl, rfl⟩).2
    ⟨by decide, ⟨0, _, rfl, rfl, Or.inl rfl⟩, ?_⟩)
  intro m d hd _ hother
  match m with
  | 0 =>
      cases hd
      exact absurd rfl hother
  | 1 =>
      cases hd
      exact ⟨by decide, rfl⟩
  | m + 2 => cases hd

end Simorgh.Vpn.Routing
