import Simorgh.Vpn.Blocks

/-!
# The addresses of accounts

For stored ranges of the right shape, an account's addresses lie on the /24s of its
inbound, avoid the first two hosts and the last, and are its own.

* `Shaped` — the ranges `normalizeRanges` stores.
* `Tidy` — what keeps the addresses of one inbound's accounts apart.
* `deviceIPs_subnet`, `deviceIPs_host`, `deviceIPs_disjoint`, `deviceIPs_ne_nil`.
-/

namespace Simorgh.Vpn

open Simorgh.Lib Simorgh.Panel

/-! ## Limits -/

theorem normUserLimit_bounds (k : ℤ) : 1 ≤ normUserLimit k ∧ normUserLimit k ≤ 64 := by
  unfold normUserLimit noLimitDevices maxUserLimit
  split
  · omega
  · split
    · omega
    · split <;> omega

theorem effectiveUserLimit_bounds (u : Option ℤ) : 1 ≤ effectiveUserLimit u ∧ effectiveUserLimit u ≤ 64 := by
  cases u with
  | none => exact ⟨le_rfl, by decide⟩
  | some k => exact normUserLimit_bounds k

theorem wgcEffectiveK_bounds (u : Option ℤ) : 1 ≤ wgcEffectiveK u ∧ wgcEffectiveK u ≤ 64 := by
  cases u with
  | none => exact ⟨le_rfl, by decide⟩
  | some k =>
      unfold wgcEffectiveK
      simp only
      split
      · exact ⟨by decide, le_rfl⟩
      · exact normUserLimit_bounds k

/-- A limit in range is taken as it is. -/
theorem normUserLimit_natCast {k : ℕ} (hpos : 1 ≤ k) (hle : k ≤ 64) : normUserLimit (k : ℤ) = k := by
  unfold normUserLimit maxUserLimit
  rw [if_neg (by omega), if_neg (by omega), if_neg (by omega), Int.toNat_natCast]

theorem nextPow2_le_64 {n : ℕ} (h : n ≤ 64) : nextPow2 n ≤ 64 := by
  have hall : ∀ n < 65, nextPow2 n ≤ 64 := by decide +kernel
  exact hall n (by omega)

/-! ## One address for a slot -/

/-- Two ranges have no address in common. -/
def RangesApart (r r' : Range) : Prop := r.subnet = r'.subnet → r.last < r'.first ∨ r'.last < r.first

theorem slotRange_mem {rs : List Range} {slot k : ℕ} {r : Range} (h : slotRange rs slot = some (r, k)) :
    r ∈ rs ∧ r.first + k ≤ r.last := by
  induction rs generalizing slot with
  | nil => cases h
  | cons r₀ rs ih =>
      rw [slotRange] at h
      split at h
      · rename_i hlt
        cases h
        refine ⟨List.mem_cons_self, ?_⟩
        have hle := r.le
        unfold Range.capacity at hlt
        omega
      · exact ⟨List.mem_cons_of_mem _ (ih h).1, (ih h).2⟩

/-- Ranges that are apart give every slot an address of its own. -/
theorem slotRange_injective {rs : List Range} (hapart : rs.Pairwise RangesApart) {slot slot' k k' : ℕ}
    {r r' : Range} (h : slotRange rs slot = some (r, k)) (h' : slotRange rs slot' = some (r', k'))
    (hsubnet : r.subnet = r'.subnet) (hhost : r.first + k = r'.first + k') : slot = slot' := by
  induction rs generalizing slot slot' with
  | nil => cases h
  | cons r₀ rs ih =>
      rw [List.pairwise_cons] at hapart
      have hle₀ := r₀.le
      rw [slotRange] at h h'
      by_cases hlt : slot < r₀.capacity <;> by_cases hlt' : slot' < r₀.capacity
      · rw [if_pos hlt] at h
        rw [if_pos hlt'] at h'
        cases h
        cases h'
        omega
      · -- the one is in the first range, the other behind it
        rw [if_pos hlt] at h
        rw [if_neg hlt'] at h'
        cases h
        obtain ⟨hmem, hle⟩ := slotRange_mem h'
        have hsep := hapart.1 r' hmem hsubnet
        unfold Range.capacity at hlt
        omega
      · rw [if_neg hlt] at h
        rw [if_pos hlt'] at h'
        cases h'
        obtain ⟨hmem, hle⟩ := slotRange_mem h
        have hsep := hapart.1 r hmem hsubnet.symm
        unfold Range.capacity at hlt'
        omega
      · rw [if_neg hlt] at h
        rw [if_neg hlt'] at h'
        have hrest := ih hapart.2 h h'
        omega

theorem slotRange_isSome {rs : List Range} {slot : ℕ} (h : slot < rangeCapacity rs) :
    (slotRange rs slot).isSome = true := by
  induction rs generalizing slot with
  | nil => simp [rangeCapacity] at h
  | cons r rs ih =>
      rw [slotRange]
      split
      · rfl
      · refine ih ?_
        rw [rangeCapacity, List.map_cons, List.sum_cons] at h
        unfold rangeCapacity
        omega

/-! ## A block of addresses for a slot -/

section AccountBlocks

variable {subnets : List Subnet} {slot slot' k : ℕ}

/-- The hosts of a slot's block. -/
theorem mem_vpnAccountDeviceIPs (hk : 2 ≤ k) (hk' : k ≤ 64) {a : Addr}
    (ha : a ∈ vpnAccountDeviceIPs subnets slot k) :
    subnets[slot / accountsPerSubnet k]? = some a.subnet ∧
      (slot % accountsPerSubnet k + 1) * k ≤ a.host ∧ a.host < (slot % accountsPerSubnet k + 2) * k ∧
        2 ≤ a.host ∧ a.host ≤ 254 := by
  have hnorm : normUserLimit (k : ℤ) = k := normUserLimit_natCast (by omega) hk'
  have hper : accountsPerSubnet k = 255 / k - 1 := by
    rw [accountsPerSubnet, hnorm, if_neg (by omega)]
  have hpos := one_le_accountsPerSubnet (k : ℤ)
  unfold vpnAccountDeviceIPs vpnAccountBlock at ha
  simp only [hnorm] at ha
  rw [if_neg (by omega)] at ha
  cases hsubnet : subnets[slot / accountsPerSubnet k]? with
  | none => simp [hsubnet] at ha
  | some s =>
      rw [hsubnet, Option.map_some] at ha
      simp only [List.mem_map, List.mem_range] at ha
      obtain ⟨d, hd, rfl⟩ := ha
      have hmod : slot % accountsPerSubnet k < accountsPerSubnet k := Nat.mod_lt _ (by omega)
      have hfirst : 1 * k ≤ (slot % accountsPerSubnet k + 1) * k := Nat.mul_le_mul_right k (by omega)
      have hlast : (slot % accountsPerSubnet k + 2) * k ≤ 255 := by
        have hle : slot % accountsPerSubnet k + 2 ≤ 255 / k := by omega
        exact (Nat.mul_le_mul_right k hle).trans (Nat.div_mul_le_self 255 k)
      have hexpand : (slot % accountsPerSubnet k + 2) * k = (slot % accountsPerSubnet k + 1) * k + k := by
        ring
      simp only
      refine ⟨trivial, ?_, ?_, ?_, ?_⟩ <;> omega

/-- Two slots have no address in common. -/
theorem vpnAccountDeviceIPs_disjoint (hk : 2 ≤ k) (hk' : k ≤ 64) (hnodup : subnets.Nodup)
    (hne : slot ≠ slot') {a : Addr} (ha : a ∈ vpnAccountDeviceIPs subnets slot k) :
    a ∉ vpnAccountDeviceIPs subnets slot' k := by
  intro ha'
  obtain ⟨hsubnet, hlow, hhigh, -⟩ := mem_vpnAccountDeviceIPs hk hk' ha
  obtain ⟨hsubnet', hlow', hhigh', -⟩ := mem_vpnAccountDeviceIPs hk hk' ha'
  have hpos := one_le_accountsPerSubnet (k : ℤ)
  -- the same /24, then the same block in it
  have hdiv : slot / accountsPerSubnet k = slot' / accountsPerSubnet k := by
    have hlt := (List.getElem?_eq_some_iff.1 hsubnet).1
    exact (List.getElem?_inj hlt hnodup).1 (hsubnet.trans hsubnet'.symm)
  have hmod : slot % accountsPerSubnet k = slot' % accountsPerSubnet k := by
    by_contra hmod
    rcases Nat.lt_or_gt_of_ne hmod with hlt | hlt
    · have := Nat.mul_le_mul_right k (show slot % accountsPerSubnet k + 2 ≤ slot' % accountsPerSubnet k + 1
        by omega)
      omega
    · have := Nat.mul_le_mul_right k (show slot' % accountsPerSubnet k + 2 ≤ slot % accountsPerSubnet k + 1
        by omega)
      omega
  refine hne ?_
  rw [← Nat.div_add_mod slot (accountsPerSubnet k), ← Nat.div_add_mod slot' (accountsPerSubnet k), hdiv,
    hmod]

theorem vpnAccountDeviceIPs_ne_nil (hk : 2 ≤ k) (hk' : k ≤ 64)
    (hslot : slot < vpnAccountsCapacity subnets k) : vpnAccountDeviceIPs subnets slot k ≠ [] := by
  have hnorm : normUserLimit (k : ℤ) = k := normUserLimit_natCast (by omega) hk'
  have hpos := one_le_accountsPerSubnet (k : ℤ)
  have hlt : slot / accountsPerSubnet k < subnets.length := Nat.div_lt_of_lt_mul (by
    rw [mul_comm]
    exact hslot)
  unfold vpnAccountDeviceIPs vpnAccountBlock
  simp only [hnorm]
  rw [if_neg (by omega), List.getElem?_eq_getElem hlt, Option.map_some]
  intro hnil
  have hlength := congrArg List.length hnil
  rw [List.length_map, List.length_range, List.length_nil] at hlength
  omega

end AccountBlocks

/-! ## The accounts of a range list -/

/-- The addresses of a slot: one, or a block of them. -/
def pooledIPs (ranges : List Range) (k slot : ℕ) : List Addr :=
  if k ≤ 1 then ((slotRange ranges slot).map fun r => (⟨r.1.subnet, r.1.first + r.2⟩ : Addr)).toList
  else vpnAccountDeviceIPs (subnetsOf ranges) slot k

/-- Ranges whose hosts are usable and that have no address in common. -/
structure CleanRanges (ranges : List Range) : Prop where
  window : ∀ r ∈ ranges, 2 ≤ r.first ∧ r.last ≤ 254
  apart : ranges.Pairwise RangesApart

section Pooled

variable {ranges : List Range} {k slot slot' : ℕ} {a : Addr}

theorem mem_pooledIPs_one (hk : k ≤ 1) :
    a ∈ pooledIPs ranges k slot ↔
      ∃ r d, slotRange ranges slot = some (r, d) ∧ a = ⟨r.subnet, r.first + d⟩ := by
  rw [pooledIPs, if_pos hk, Option.mem_toList, Option.map_eq_some_iff]
  constructor
  · rintro ⟨⟨r, d⟩, h, rfl⟩
    exact ⟨r, d, h, rfl⟩
  · rintro ⟨r, d, h, rfl⟩
    exact ⟨(r, d), h, rfl⟩

theorem pooledIPs_subnet (hk : k ≤ 64) (ha : a ∈ pooledIPs ranges k slot) : a.subnet ∈ subnetsOf ranges := by
  by_cases hone : k ≤ 1
  · obtain ⟨r, d, hrange, rfl⟩ := (mem_pooledIPs_one hone).1 ha
    exact mem_subnetsOf.2 ⟨r, (slotRange_mem hrange).1, rfl⟩
  · rw [pooledIPs, if_neg hone] at ha
    exact List.mem_of_getElem? (mem_vpnAccountDeviceIPs (by omega) hk ha).1

theorem pooledIPs_host (hk : k ≤ 64) (hclean : k ≤ 1 → CleanRanges ranges)
    (ha : a ∈ pooledIPs ranges k slot) : 2 ≤ a.host ∧ a.host ≤ 254 := by
  by_cases hone : k ≤ 1
  · obtain ⟨r, d, hrange, rfl⟩ := (mem_pooledIPs_one hone).1 ha
    obtain ⟨hmem, hle⟩ := slotRange_mem hrange
    have hwindow := (hclean hone).window r hmem
    exact ⟨by simp only; omega, by simp only; omega⟩
  · rw [pooledIPs, if_neg hone] at ha
    exact (mem_vpnAccountDeviceIPs (by omega) hk ha).2.2.2

theorem pooledIPs_disjoint (hk : k ≤ 64) (hclean : k ≤ 1 → CleanRanges ranges) (hne : slot ≠ slot')
    (ha : a ∈ pooledIPs ranges k slot) : a ∉ pooledIPs ranges k slot' := by
  intro ha'
  by_cases hone : k ≤ 1
  · obtain ⟨r, d, hrange, rfl⟩ := (mem_pooledIPs_one hone).1 ha
    obtain ⟨r', d', hrange', heq⟩ := (mem_pooledIPs_one hone).1 ha'
    rw [Addr.mk.injEq] at heq
    exact hne (slotRange_injective (hclean hone).apart hrange hrange' heq.1 heq.2)
  · rw [pooledIPs, if_neg hone] at ha ha'
    exact vpnAccountDeviceIPs_disjoint (by omega) hk (nodup_subnetsOf ranges) hne ha ha'

theorem pooledIPs_ne_nil (hk : k ≤ 64)
    (hslot : slot < if k ≤ 1 then rangeCapacity ranges else vpnAccountsCapacity (subnetsOf ranges) k) :
    pooledIPs ranges k slot ≠ [] := by
  by_cases hone : k ≤ 1
  · rw [if_pos hone] at hslot
    obtain ⟨⟨r, d⟩, hrange⟩ := Option.isSome_iff_exists.1 (slotRange_isSome hslot)
    exact List.ne_nil_of_mem ((mem_pooledIPs_one hone).2 ⟨r, d, hrange, rfl⟩)
  · rw [if_neg hone] at hslot
    rw [pooledIPs, if_neg hone]
    exact vpnAccountDeviceIPs_ne_nil (by omega) hk hslot

end Pooled

theorem cleanRanges_block (base first n : ℕ) : CleanRanges (blockRanges base first n) := by
  refine ⟨fun r hr => ?_, ?_⟩
  · obtain ⟨d, -, rfl⟩ := List.mem_map.1 hr
    exact ⟨le_rfl, le_rfl⟩
  · rw [blockRanges, List.pairwise_map]
    refine List.pairwise_lt_range.imp fun hlt hsame => ?_
    simp only [defaultRange, Subnet.mk.injEq] at hsame
    omega

/-! ## The accounts of an inbound -/

/-- Ranges as `normalizeRanges` stores them. -/
structure Shaped (i : VpnInbound) : Prop where
  vpn : slotPoolProtocol i.protocol = true
  ne_nil : i.ranges ≠ []
  block : pppProtocol i.protocol = false → ∃ first n, i.ranges = blockRanges (protocolBase i.protocol) first n ∧
    (∃ k, n = 2 ^ k) ∧ n ∣ first ∧ first + n ≤ 255

/-- An operator's ranges are clean where they are handed out host by host, and an OpenVPN
account with one device is in the first /24. -/
structure Tidy (i : VpnInbound) : Prop where
  ranges : pppProtocol i.protocol = true → blockSize i.protocol i.userLimit ≤ 1 → CleanRanges i.ranges
  slots : i.protocol = .openvpn → blockSize i.protocol i.userLimit ≤ 1 → ∀ s ∈ i.slots, s < 253

theorem blockSize_bounds (p : Protocol) (u : Option ℤ) : 1 ≤ blockSize p u ∧ blockSize p u ≤ 64 := by
  unfold blockSize
  split
  · exact ⟨(wgcEffectiveK_bounds u).1.trans (le_nextPow2 _), nextPow2_le_64 (wgcEffectiveK_bounds u).2⟩
  · exact effectiveUserLimit_bounds u

theorem nextPow2_le_one_iff {k : ℕ} (hk : 1 ≤ k) : nextPow2 k ≤ 1 ↔ k ≤ 1 := by
  constructor
  · exact fun h => (le_nextPow2 k).trans h
  · intro h
    obtain rfl : k = 1 := by omega
    decide

theorem subnetsOf_ne_nil {ranges : List Range} (h : ranges ≠ []) : subnetsOf ranges ≠ [] := by
  obtain ⟨r, hr⟩ := List.exists_mem_of_ne_nil ranges h
  exact List.ne_nil_of_mem (mem_subnetsOf.2 ⟨r, hr, rfl⟩)

/-- Every protocol but OpenVPN draws its addresses from its range list. -/
theorem deviceIPs_eq {i : VpnInbound} (hne : i.ranges ≠ []) (hprotocol : i.protocol ≠ .openvpn) (slot : ℕ) :
    deviceIPs i slot = pooledIPs i.ranges (blockSize i.protocol i.userLimit) slot := by
  have hcompute : (computeVpnClientIP i.stored i.id slot i.protocol).toList =
      ((slotRange i.ranges slot).map fun r => (⟨r.1.subnet, r.1.first + r.2⟩ : Addr)).toList := by
    rw [computeVpnClientIP, i.stored_eq hne]
    rfl
  have hsubnets : pppSubnetsOrDefault i.ranges i.protocol i.id = subnetsOf i.ranges := by
    rw [pppSubnetsOrDefault, if_neg (subnetsOf_ne_nil hne)]
  rw [deviceIPs, if_neg hprotocol, pooledIPs]
  by_cases hgateway : gatewayProtocol i.protocol = true
  · rw [if_pos hgateway, wgcBlockIPs, hcompute, hsubnets]
    simp only [blockSize, hgateway, if_true, nextPow2_le_one_iff (wgcEffectiveK_bounds i.userLimit).1]
  · rw [if_neg hgateway, hcompute, hsubnets]
    simp only [blockSize, hgateway, Bool.false_eq_true, if_false]

theorem Tidy.clean {i : VpnInbound} (htidy : Tidy i) (hshaped : Shaped i)
    (hone : blockSize i.protocol i.userLimit ≤ 1) : CleanRanges i.ranges := by
  cases hppp : pppProtocol i.protocol with
  | true => exact htidy.ranges hppp hone
  | false =>
      obtain ⟨first, n, hranges, -⟩ := hshaped.block hppp
      rw [hranges]
      exact cleanRanges_block _ _ _

section OpenVpn

variable {i : VpnInbound} {first n : ℕ}

/-- A power of two is its own next one. -/
theorem nextPow2_of_pow {n : ℕ} (hpow : ∃ k, n = 2 ^ k) (hn : n ≤ 255) : nextPow2 n = n := by
  obtain ⟨k, rfl⟩ := hpow
  have hk : k < 8 := by
    by_contra hk
    have hle : 2 ^ 8 ≤ 2 ^ k := Nat.pow_le_pow_right (by omega) (by omega)
    omega
  have hall : ∀ k < 8, nextPow2 (2 ^ k) = 2 ^ k := by decide +kernel
  exact hall k hk

/-- The block of the ranges is the block they were made for. -/
theorem vpnBlock_blockRanges (base id : ℕ) (hpow : ∃ k, n = 2 ^ k) (haligned : n ∣ first)
    (hbound : first + n ≤ 255) :
    vpnBlock (blockRanges base first n) id = (first, 24 - Nat.log2 n) := by
  have hpos : 0 < n := by
    obtain ⟨k, rfl⟩ := hpow
    exact Nat.two_pow_pos k
  obtain ⟨m, rfl⟩ : ∃ m, n = m + 1 := ⟨n - 1, by omega⟩
  have hthirds : ovpnThirds (blockRanges base first (m + 1)) =
      (first + 0) :: ((List.range m).map (· + 1)).map (first + ·) := by
    rw [ovpnThirds_blockRanges, List.range_succ_eq_map, List.map_cons]
  have hlength : (ovpnThirds (blockRanges base first (m + 1))).length = m + 1 := by
    rw [ovpnThirds_blockRanges, List.length_map, List.length_range]
  unfold vpnBlock
  simp only [hthirds]
  rw [← hthirds, hlength, nextPow2_of_pow hpow (by omega), add_zero, Nat.mod_eq_zero_of_dvd haligned,
    Nat.sub_zero]

theorem block_size (hpow : ∃ k, n = 2 ^ k) (hn : n ≤ 255) : 2 ^ (32 - (24 - Nat.log2 n)) = 256 * n := by
  obtain ⟨k, rfl⟩ := hpow
  have hk : k < 8 := by
    by_contra hk
    have hle : 2 ^ 8 ≤ 2 ^ k := Nat.pow_le_pow_right (by omega) (by omega)
    omega
  have hall : ∀ k < 8, 2 ^ (32 - (24 - Nat.log2 (2 ^ k))) = 256 * 2 ^ k := by decide +kernel
  exact hall k hk

/-- One address on each transport: host by host through the block. -/
theorem ovpnBlockClientIP_eq (base : ℕ) {slot : ℕ} (hpow : ∃ k, n = 2 ^ k) (hbound : first + n ≤ 255)
    (hslot : slot + 3 < 256 * n) :
    ovpnBlockClientIP base first (24 - Nat.log2 n) slot =
      some ⟨⟨10, base, first + (2 + slot) / 256⟩, (2 + slot) % 256⟩ := by
  have hmod : (2 + slot) % 2 ^ 32 = 2 + slot := Nat.mod_eq_of_lt (by omega)
  unfold ovpnBlockClientIP
  simp only
  rw [hmod, block_size hpow (by omega), if_neg (by omega)]

/-- The mirror of a block over UDP is the block over TCP. -/
theorem ovpnSubnetsOrDefault_block (id : ℕ) {base : ℕ} (hbase : base = 2 ∨ base = 3) (hpos : 0 < n) :
    ovpnSubnetsOrDefault (blockRanges 2 first n) base id = subnetsOf (blockRanges base first n) := by
  have hne : subnetsOf (blockRanges 2 first n) ≠ [] := by
    rw [subnetsOf_blockRanges]
    intro hnil
    have hlength := congrArg List.length hnil
    rw [List.length_map, List.length_range, List.length_nil] at hlength
    omega
  rw [ovpnSubnetsOrDefault, if_neg hne]
  rcases hbase with rfl | rfl
  · rw [if_neg (by decide)]
  · rw [if_pos rfl, subnetsOf_blockRanges, subnetsOf_blockRanges, List.map_map]
    rfl

/-- The devices of an account on one transport. -/
theorem ovpnDeviceIPs_eq (hranges : i.ranges = blockRanges 2 first n) (hpow : ∃ k, n = 2 ^ k)
    (haligned : n ∣ first) (hbound : first + n ≤ 255) {base : ℕ} (hbase : base = 2 ∨ base = 3) (slot : ℕ) :
    ovpnDeviceIPs i base slot =
      if effectiveUserLimit i.userLimit ≤ 1 then
        (ovpnBlockClientIP base first (24 - Nat.log2 n) slot).toList
      else pooledIPs (blockRanges base first n) (effectiveUserLimit i.userLimit) slot := by
  have hpos : 0 < n := by
    obtain ⟨k, rfl⟩ := hpow
    exact Nat.two_pow_pos k
  rw [ovpnDeviceIPs, hranges, vpnBlock_blockRanges 2 i.id hpow haligned hbound,
    ovpnSubnetsOrDefault_block i.id hbase hpos]
  by_cases hone : effectiveUserLimit i.userLimit ≤ 1
  · rw [if_pos hone, if_pos hone]
  · rw [if_neg hone, if_neg hone, pooledIPs, if_neg hone]

/-- Where an OpenVPN account is: on the /24s of the transport, at a usable host. -/
theorem ovpnDeviceIPs_mem (hranges : i.ranges = blockRanges 2 first n) (hpow : ∃ k, n = 2 ^ k)
    (haligned : n ∣ first) (hbound : first + n ≤ 255) {base : ℕ} (hbase : base = 2 ∨ base = 3) {slot : ℕ}
    (hslot : effectiveUserLimit i.userLimit ≤ 1 → slot < 253) {a : Addr}
    (ha : a ∈ ovpnDeviceIPs i base slot) :
    (∃ d < n, a.subnet = ⟨10, base, first + d⟩) ∧ 2 ≤ a.host ∧ a.host ≤ 254 := by
  have hpos : 0 < n := by
    obtain ⟨k, rfl⟩ := hpow
    exact Nat.two_pow_pos k
  have hle := (effectiveUserLimit_bounds i.userLimit).2
  rw [ovpnDeviceIPs_eq hranges hpow haligned hbound hbase] at ha
  by_cases hone : effectiveUserLimit i.userLimit ≤ 1
  · have hlow := hslot hone
    rw [if_pos hone, ovpnBlockClientIP_eq base hpow hbound (by omega), Option.toList_some,
      List.mem_singleton] at ha
    subst ha
    have hzero : (2 + slot) / 256 = 0 := Nat.div_eq_of_lt (by omega)
    have hmod : (2 + slot) % 256 = 2 + slot := Nat.mod_eq_of_lt (by omega)
    exact ⟨⟨0, hpos, by rw [hzero]⟩, by simp only; omega, by simp only; omega⟩
  · rw [if_neg hone] at ha
    have hsubnet := pooledIPs_subnet hle ha
    rw [subnetsOf_blockRanges] at hsubnet
    obtain ⟨d, hd, heq⟩ := List.mem_map.1 hsubnet
    exact ⟨⟨d, List.mem_range.1 hd, heq.symm⟩,
      pooledIPs_host hle (fun _ => cleanRanges_block _ _ _) ha⟩

/-- Where OpenVPN's addresses are when they are handed out one by one. -/
theorem ovpnBlockClientIP_some {base slot : ℕ} {a : Addr} (hpow : ∃ k, n = 2 ^ k) (hbound : first + n ≤ 255)
    (h : ovpnBlockClientIP base first (24 - Nat.log2 n) slot = some a) :
    (2 + slot) % 2 ^ 32 / 256 < n ∧
      a = ⟨⟨10, base, first + (2 + slot) % 2 ^ 32 / 256⟩, (2 + slot) % 2 ^ 32 % 256⟩ := by
  unfold ovpnBlockClientIP at h
  simp only [block_size hpow (show n ≤ 255 by omega)] at h
  split at h
  · cases h
  case isFalse hlt =>
    refine ⟨?_, (Option.some.inj h).symm⟩
    rw [Nat.div_lt_iff_lt_mul (by decide)]
    omega

/-- Two slots have no address in common on a transport. -/
theorem ovpnDeviceIPs_disjoint (hranges : i.ranges = blockRanges 2 first n) (hpow : ∃ k, n = 2 ^ k)
    (haligned : n ∣ first) (hbound : first + n ≤ 255) {base : ℕ} (hbase : base = 2 ∨ base = 3)
    {slot slot' : ℕ} (hslot : effectiveUserLimit i.userLimit ≤ 1 → slot + 2 < 2 ^ 32)
    (hslot' : effectiveUserLimit i.userLimit ≤ 1 → slot' + 2 < 2 ^ 32) (hne : slot ≠ slot') {a : Addr}
    (ha : a ∈ ovpnDeviceIPs i base slot) : a ∉ ovpnDeviceIPs i base slot' := by
  intro ha'
  rw [ovpnDeviceIPs_eq hranges hpow haligned hbound hbase] at ha ha'
  by_cases hone : effectiveUserLimit i.userLimit ≤ 1
  · have hlt := hslot hone
    have hlt' := hslot' hone
    rw [if_pos hone, Option.mem_toList] at ha ha'
    obtain ⟨-, rfl⟩ := ovpnBlockClientIP_some hpow hbound ha
    obtain ⟨-, heq⟩ := ovpnBlockClientIP_some hpow hbound ha'
    rw [Addr.mk.injEq, Subnet.mk.injEq, Nat.mod_eq_of_lt (show 2 + slot < 2 ^ 32 by omega),
      Nat.mod_eq_of_lt (show 2 + slot' < 2 ^ 32 by omega)] at heq
    omega
  · rw [if_neg hone] at ha ha'
    exact pooledIPs_disjoint (effectiveUserLimit_bounds i.userLimit).2
      (fun _ => cleanRanges_block _ _ _) hne ha ha'

end OpenVpn

section Accounts

variable {i : VpnInbound} {slot slot' : ℕ} {a : Addr}

theorem openvpn_block (hshaped : Shaped i) (hprotocol : i.protocol = .openvpn) :
    ∃ first n, i.ranges = blockRanges 2 first n ∧ (∃ k, n = 2 ^ k) ∧ n ∣ first ∧ first + n ≤ 255 := by
  have hblock := hshaped.block (by rw [hprotocol]; rfl)
  rw [hprotocol] at hblock
  exact hblock

theorem blockSize_openvpn (hprotocol : i.protocol = .openvpn) :
    blockSize i.protocol i.userLimit = effectiveUserLimit i.userLimit := by
  rw [hprotocol]
  rfl

theorem inboundRanges_eq (hshaped : Shaped i) : inboundRanges i = i.ranges := by
  rw [inboundRanges, i.stored_eq hshaped.ne_nil]
  rfl

/-- The /24s an OpenVPN inbound owns, those of both transports. -/
theorem mem_ownedSubnets_openvpn (hshaped : Shaped i) (hprotocol : i.protocol = .openvpn) {first n d base : ℕ}
    (hranges : i.ranges = blockRanges 2 first n) (hd : d < n) (hbase : base = 2 ∨ base = 3) :
    (⟨10, base, first + d⟩ : Subnet) ∈ ownedSubnets i := by
  rw [ownedSubnets, inboundRanges_eq hshaped, hranges, subnetsOf_blockRanges, List.mem_flatMap]
  refine ⟨⟨10, 2, first + d⟩, List.mem_map.2 ⟨d, List.mem_range.2 hd, rfl⟩, ?_⟩
  rw [if_pos hprotocol]
  rcases hbase with rfl | rfl
  · exact List.mem_cons_self
  · exact List.mem_cons_of_mem _ (List.mem_singleton.2 rfl)

/-- An account's addresses are on the /24s of its inbound, at usable hosts. -/
theorem deviceIPs_mem (hshaped : Shaped i) (htidy : Tidy i) (hslot : slot ∈ i.slots)
    (ha : a ∈ deviceIPs i slot) : a.subnet ∈ ownedSubnets i ∧ 2 ≤ a.host ∧ a.host ≤ 254 := by
  by_cases hprotocol : i.protocol = .openvpn
  · obtain ⟨first, n, hranges, hpow, haligned, hbound⟩ := openvpn_block hshaped hprotocol
    have hlow : effectiveUserLimit i.userLimit ≤ 1 → slot < 253 := fun hone =>
      htidy.slots hprotocol (by rw [blockSize_openvpn hprotocol]; exact hone) slot hslot
    rw [deviceIPs, if_pos hprotocol, List.mem_append] at ha
    have hmem : ∀ base, base = 2 ∨ base = 3 → a ∈ ovpnDeviceIPs i base slot →
        a.subnet ∈ ownedSubnets i ∧ 2 ≤ a.host ∧ a.host ≤ 254 := by
      intro base hbase ha
      obtain ⟨⟨d, hd, hsubnet⟩, hhost⟩ := ovpnDeviceIPs_mem hranges hpow haligned hbound hbase hlow ha
      exact ⟨hsubnet ▸ mem_ownedSubnets_openvpn hshaped hprotocol hranges hd hbase, hhost⟩
    rcases ha with ha | ha
    · exact hmem 2 (Or.inl rfl) ha
    · exact hmem 3 (Or.inr rfl) ha
  · rw [deviceIPs_eq hshaped.ne_nil hprotocol] at ha
    have hle := (blockSize_bounds i.protocol i.userLimit).2
    refine ⟨?_, pooledIPs_host hle (htidy.clean hshaped) ha⟩
    rw [ownedSubnets, inboundRanges_eq hshaped, List.mem_flatMap]
    exact ⟨a.subnet, pooledIPs_subnet hle ha, List.mem_cons_self⟩

/-- Two accounts of an inbound have no address in common. -/
theorem deviceIPs_disjoint (hshaped : Shaped i) (htidy : Tidy i) (hslot : slot ∈ i.slots)
    (hslot' : slot' ∈ i.slots) (hne : slot ≠ slot') (ha : a ∈ deviceIPs i slot) : a ∉ deviceIPs i slot' := by
  by_cases hprotocol : i.protocol = .openvpn
  · obtain ⟨first, n, hranges, hpow, haligned, hbound⟩ := openvpn_block hshaped hprotocol
    have hlow : ∀ s ∈ i.slots, effectiveUserLimit i.userLimit ≤ 1 → s < 253 := fun s hs hone =>
      htidy.slots hprotocol (by rw [blockSize_openvpn hprotocol]; exact hone) s hs
    have hfits : ∀ s ∈ i.slots, effectiveUserLimit i.userLimit ≤ 1 → s + 2 < 2 ^ 32 := by
      intro s hs hone
      have := hlow s hs hone
      omega
    rw [deviceIPs, if_pos hprotocol, List.mem_append] at ha ⊢
    -- the transports differ in the second octet
    have hbase : ∀ base s, base = 2 ∨ base = 3 → s ∈ i.slots → a ∈ ovpnDeviceIPs i base s →
        a.subnet.b = base := by
      intro base s hbase hs ha
      obtain ⟨⟨d, -, hsubnet⟩, -⟩ := ovpnDeviceIPs_mem hranges hpow haligned hbound hbase (hlow s hs) ha
      rw [hsubnet]
    have hdisjoint : ∀ base, base = 2 ∨ base = 3 → a ∈ ovpnDeviceIPs i base slot →
        a ∉ ovpnDeviceIPs i base slot' := fun base hbase ha =>
      ovpnDeviceIPs_disjoint hranges hpow haligned hbound hbase (hfits slot hslot) (hfits slot' hslot') hne ha
    rintro (ha' | ha')
    · rcases ha with ha | ha
      · exact hdisjoint 2 (Or.inl rfl) ha ha'
      · have h := hbase 3 slot (Or.inr rfl) hslot ha
        rw [hbase 2 slot' (Or.inl rfl) hslot' ha'] at h
        cases h
    · rcases ha with ha | ha
      · have h := hbase 2 slot (Or.inl rfl) hslot ha
        rw [hbase 3 slot' (Or.inr rfl) hslot' ha'] at h
        cases h
      · exact hdisjoint 3 (Or.inr rfl) ha ha'
  · rw [deviceIPs_eq hshaped.ne_nil hprotocol] at ha ⊢
    exact pooledIPs_disjoint (blockSize_bounds i.protocol i.userLimit).2 (htidy.clean hshaped) hne ha

/-- Every slot below the capacity has an address. -/
theorem deviceIPs_ne_nil (hshaped : Shaped i) (hslot : slot < computedCapacity i) : deviceIPs i slot ≠ [] := by
  have hle := (blockSize_bounds i.protocol i.userLimit).2
  by_cases hprotocol : i.protocol = .openvpn
  · obtain ⟨first, n, hranges, hpow, haligned, hbound⟩ := openvpn_block hshaped hprotocol
    have hpos : 0 < n := by
      obtain ⟨k, rfl⟩ := hpow
      exact Nat.two_pow_pos k
    rw [deviceIPs, if_pos hprotocol, ovpnDeviceIPs_eq hranges hpow haligned hbound (Or.inl rfl)]
    rw [computedCapacity, blockSize_openvpn hprotocol, hranges] at hslot
    rw [blockSize_openvpn hprotocol] at hle
    by_cases hone : effectiveUserLimit i.userLimit ≤ 1
    · rw [if_pos hone, rangeCapacity_blockRanges] at hslot
      rw [if_pos hone, ovpnBlockClientIP_eq 2 hpow hbound (by omega)]
      simp
    · rw [if_neg hone]
      exact List.append_ne_nil_of_left_ne_nil (pooledIPs_ne_nil hle hslot) _
  · rw [deviceIPs_eq hshaped.ne_nil hprotocol]
    exact pooledIPs_ne_nil hle hslot

end Accounts

end Simorgh.Vpn
