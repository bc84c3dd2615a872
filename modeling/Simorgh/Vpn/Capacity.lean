import Simorgh.Vpn.Stable

/-!
# The capacity guard

Before clients are added to a tunnel inbound, the slots they would take are compared with
the accounts its pool could hold if it were grown as far as it goes.

* `maxVpnAccounts`, `admits` — the bound, and the guard built on it.
* `GuardMatches` — the bound is never below what can be placed, and what is admitted and
  given ranges has addresses.
* `guard_matches_iff` — that is so exactly if every /24 the inbound could own is counted, and
  the slots taken are within what its ranges grow to.
* `placeable_refused` — an inbound on an operator's range of its own is told that its pool is
  full.
-/

namespace Simorgh.Vpn

open Simorgh.Lib Simorgh.Panel

/-! ## The guard -/

/-- `maxVpnAccounts`, for the protocols that have a pool. -/
def maxVpnAccounts (used : List Subnet) (protocol : Protocol) (userLimit : Option ℤ) : ℕ :=
  let free := (freeSubnets (protocolBase protocol) used).length
  let per := accountsPerSubnet (blockSize protocol userLimit)
  if pppProtocol protocol then free * per else min free 64 * per

/-- The guard of `AddInboundClient`, for so many clients. -/
def admits (pool : Pool) (id : ℕ) (form : RangeForm) (count : ℕ) : Bool :=
  (slotsForNewAccounts (form.slots.map (↑)) count).getLast?.all fun last =>
    decide (last < maxVpnAccounts (usedVpnSubnets pool id) form.protocol form.userLimit)

/-- The slots the clients of a batch take: one may be posted with its slot, the others have
the lowest that are free. -/
def takenSlots (used : List ℤ) : List (Option ℕ) → List ℕ
  | [] => []
  | posted :: rest =>
      let slot := posted.getD (lowestFree used)
      slot :: takenSlots ((slot : ℤ) :: used) rest

/-- The inbound with the clients added. -/
def RangeForm.adding (form : RangeForm) (posted : List (Option ℕ)) : RangeForm :=
  { form with slots := form.slots ++ takenSlots (form.slots.map (↑)) posted }

/-- The account of a slot has an address. -/
def HasAddress (id : ℕ) (form : RangeForm) (ranges : List Range) (slot : ℕ) : Prop :=
  deviceIPs (form.inbound id ranges) slot ≠ []

/-- The guard says of a batch what the allocator can do with it. -/
structure GuardMatches (pool : Pool) (id : ℕ) (form : RangeForm) (posted : List (Option ℕ)) : Prop where
  neverSmaller : ∀ n ranges, normalizeRanges pool id id { form with slots := List.range n } = .ok ranges →
    (∀ s < n, HasAddress id form ranges s) →
      n ≤ maxVpnAccounts (usedVpnSubnets pool id) form.protocol form.userLimit
  placeable : ∀ ranges, normalizeRanges pool id id (form.adding posted) = .ok ranges →
    (takenSlots (form.slots.map (↑)) posted).Nodup →
      (∀ s ∈ takenSlots (form.slots.map (↑)) posted, s ∉ form.slots ∧ HasAddress id form ranges s) →
        admits pool id form posted.length = true
  admitted : admits pool id form posted.length = true →
    ∀ ranges, normalizeRanges pool id id (form.adding posted) = .ok ranges →
      ∀ s ∈ takenSlots (form.slots.map (↑)) posted, HasAddress id form ranges s

/-! ## What the ranges grow to -/

/-- The accounts ranges hold, at so many devices each. -/
def capacityOf (k : ℕ) (ranges : List Range) : ℕ :=
  if k ≤ 1 then rangeCapacity ranges else vpnAccountsCapacity (subnetsOf ranges) k

/-- The /24s of a protocol that ranges are on and the guard counts. -/
def countedSubnets (base : ℕ) (used : List Subnet) (ranges : List Range) : ℕ :=
  ((freeSubnets base used).filter fun s => decide (s ∈ ranges.map (·.subnet))).length

/-- The /24s that are left to append. -/
def spareSubnets (base : ℕ) (used : List Subnet) (ranges : List Range) : ℕ :=
  (freeSubnets base (used ++ ranges.map (·.subnet))).length

/-- The other /16 of OpenVPN. -/
def mirrorOf (protocol : Protocol) : Option ℕ := if protocol = .openvpn then some 3 else none

/-- Whatever the inbound could own is counted by the guard. -/
def Counted (used : List Subnet) (form : RangeForm) : Prop :=
  let base := protocolBase form.protocol
  let k := blockSize form.protocol form.userLimit
  if pppProtocol form.protocol then
    ∀ valid, validRanges used form.posted = .ok valid →
      capacityOf k valid ≤ countedSubnets base used valid * accountsPerSubnet k
  else
    (∀ first n, Block base (mirrorOf form.protocol) used first n → n ≤ 64 → n ≤ (freeSubnets base used).length) ∧
      (∀ first, keepOwnedBlock (form.posted.filterMap (·.value)) 64 base (mirrorOf form.protocol) used ≠
        some (first, 128)) ∧
      (form.protocol = .openvpn → k ≤ 1 → ∀ first, ¬Block base (mirrorOf form.protocol) used first 64)

/-- The accounts the ranges hold once they have grown as far as they go. -/
def reach (used : List Subnet) (form : RangeForm) : ℕ :=
  let k := blockSize form.protocol form.userLimit
  if pppProtocol form.protocol then
    let stored := form.posted.filterMap (·.value)
    capacityOf k stored + spareSubnets (protocolBase form.protocol) used stored * accountsPerSubnet k
  else 64 * accountsPerSubnet k

/-- The guard counts what there is, and a batch it admits stays within what is reached. -/
structure GuardExact (pool : Pool) (id : ℕ) (form : RangeForm) (posted : List (Option ℕ)) : Prop where
  counted : Counted (usedVpnSubnets pool id) form
  reached : admits pool id form posted.length = true →
    (∃ ranges, normalizeRanges pool id id (form.adding posted) = .ok ranges) →
      ∀ s ∈ takenSlots (form.slots.map (↑)) posted, s < reach (usedVpnSubnets pool id) form

/-! ## Accounts with an address -/

section Served

variable {k slot : ℕ} {ranges : List Range}

theorem slotRange_of_ge (h : rangeCapacity ranges ≤ slot) : slotRange ranges slot = none := by
  induction ranges generalizing slot with
  | nil => rfl
  | cons r rs ih =>
      rw [rangeCapacity, List.map_cons, List.sum_cons] at h
      rw [slotRange, if_neg (by omega)]
      refine ih ?_
      rw [rangeCapacity]
      omega

/-- The accounts with an address are those the ranges hold. -/
theorem pooledIPs_ne_nil_iff (hk : k ≤ 64) :
    pooledIPs ranges k slot ≠ [] ↔ slot < capacityOf k ranges := by
  refine ⟨fun h => ?_, pooledIPs_ne_nil hk⟩
  by_contra hge
  refine h ?_
  unfold pooledIPs
  unfold capacityOf at hge
  by_cases hone : k ≤ 1
  · rw [if_pos hone] at hge
    rw [if_pos hone, slotRange_of_ge (not_lt.1 hge)]
    rfl
  · rw [if_neg hone, vpnAccountsCapacity] at hge
    have hper := one_le_accountsPerSubnet (k : ℤ)
    have hnone : (subnetsOf ranges)[slot / accountsPerSubnet k]? = none :=
      List.getElem?_eq_none ((Nat.le_div_iff_mul_le hper).2 (not_lt.1 hge))
    rw [if_neg hone, vpnAccountDeviceIPs, vpnAccountBlock, if_neg (by omega), hnone]
    rfl

theorem capacityOf_append (hk : 1 ≤ k) {s : Subnet} (hs : ∀ r ∈ ranges, r.subnet ≠ s) :
    capacityOf k (ranges ++ [defaultRange s]) = capacityOf k ranges + accountsPerSubnet k := by
  unfold capacityOf
  by_cases hone : k ≤ 1
  · obtain rfl : k = 1 := by omega
    rw [if_pos hone, if_pos hone, rangeCapacity, List.map_append, List.sum_append]
    rfl
  · rw [if_neg hone, if_neg hone, vpnAccountsCapacity, vpnAccountsCapacity]
    have hsubnets : subnetsOf (ranges ++ [defaultRange s]) = subnetsOf ranges ++ [s] := by
      have hnew : s ∉ ranges.map (·.subnet) := by
        intro hmem
        obtain ⟨r, hr, hsame⟩ := List.mem_map.1 hmem
        exact hs r hr hsame
      have hleft : [s].removeAll (ranges.map (·.subnet)) = [s] := by simpa [List.removeAll] using hnew
      rw [subnetsOf, List.map_append, List.eraseDups_append,
        show [defaultRange s].map (·.subnet) = [s] from rfl, hleft]
      rfl
    rw [hsubnets, List.length_append, List.length_singleton, Nat.add_mul, one_mul]

theorem capacityOf_blockRanges (hk : 1 ≤ k) (base first n : ℕ) :
    capacityOf k (blockRanges base first n) = n * accountsPerSubnet k := by
  unfold capacityOf
  by_cases hone : k ≤ 1
  · obtain rfl : k = 1 := by omega
    rw [if_pos hone, rangeCapacity_blockRanges, mul_comm]
    rfl
  · rw [if_neg hone, vpnAccountsCapacity, subnetsOf_blockRanges, List.length_map, List.length_range]

end Served

/-! ## Lists of ranges -/

section Ppp

variable {base k clientCount : ℕ} {used : List Subnet}

/-- The ranges grow by whole /24s until there is room or none is left. -/
theorem capacityOf_expandRanges (hk : 1 ≤ k) (clientCount : ℕ) {free : List Subnet} {ranges : List Range}
    (hnodup : free.Nodup) (hnew : ∀ s ∈ free, ∀ r ∈ ranges, r.subnet ≠ s) :
    ∃ m ≤ free.length,
      capacityOf k (expandRanges k clientCount free ranges) = capacityOf k ranges + m * accountsPerSubnet k ∧
        (clientCount ≤ capacityOf k (expandRanges k clientCount free ranges) ∨ m = free.length) := by
  induction free generalizing ranges with
  | nil => exact ⟨0, le_rfl, by rw [expandRanges, Nat.zero_mul, Nat.add_zero], .inr rfl⟩
  | cons s free ih =>
      rw [List.nodup_cons] at hnodup
      rw [expandRanges]
      split
      · rename_i henough
        refine ⟨0, Nat.zero_le _, by rw [Nat.zero_mul, Nat.add_zero], .inl ?_⟩
        unfold haveCapacity at henough
        unfold capacityOf
        split at henough
        · rename_i hone
          rw [if_pos hone]
          exact of_decide_eq_true henough
        · rename_i hone
          rw [if_neg hone]
          exact of_decide_eq_true henough
      · have hnew' : ∀ s' ∈ free, ∀ r ∈ ranges ++ [defaultRange s], r.subnet ≠ s' := by
          intro s' hs' r hr
          rcases List.mem_append.1 hr with hr | hr
          · exact hnew s' (List.mem_cons_of_mem s hs') r hr
          · rw [List.mem_singleton.1 hr]
            intro (hsame : s = s')
            exact hnodup.1 (hsame ▸ hs')
        obtain ⟨m, hle, hcapacity, hdone⟩ := ih hnodup.2 hnew'
        refine ⟨m + 1, Nat.succ_le_succ hle, ?_, ?_⟩
        · rw [hcapacity, capacityOf_append hk (hnew s List.mem_cons_self), Nat.add_mul, one_mul]
          omega
        · refine hdone.imp_right fun hm => ?_
          rw [hm, List.length_cons]

theorem freeSubnets_append (base : ℕ) (used owned : List Subnet) :
    freeSubnets base (used ++ owned) = (freeSubnets base used).filter fun s => decide (s ∉ owned) := by
  unfold freeSubnets
  rw [List.filter_filter]
  refine List.filter_congr fun s _ => ?_
  simp [not_or, Bool.and_comm]

/-- What is free is on the ranges already, or left to append. -/
theorem counted_add_spare (base : ℕ) (used : List Subnet) (ranges : List Range) :
    countedSubnets base used ranges + spareSubnets base used ranges = (freeSubnets base used).length := by
  unfold countedSubnets spareSubnets
  rw [freeSubnets_append]
  have hsplit := List.length_eq_length_filter_add
    (l := freeSubnets base used) fun s => decide (s ∈ ranges.map (·.subnet))
  rw [hsplit]
  congr 2
  exact List.filter_congr fun s _ => decide_not

/-- An inbound without ranges starts on one of the free /24s. -/
theorem spareSubnets_first {s : Subnet} (hs : s ∈ freeSubnets base used) :
    spareSubnets base used [defaultRange s] + 1 = spareSubnets base used [] := by
  have hcounted : countedSubnets base used [defaultRange s] = 1 := by
    unfold countedSubnets
    rw [← List.countP_eq_length_filter, ← List.count_eq_one_of_mem (nodup_freeSubnets base used) hs,
      List.count_eq_countP]
    refine List.countP_congr fun s' _ => ?_
    simp [defaultRange]
  have hall := counted_add_spare base used [defaultRange s]
  have hnone := counted_add_spare base used []
  have hzero : countedSubnets base used [] = 0 := by simp [countedSubnets]
  omega

/-- What is appended to is on none of the /24s left. -/
theorem capacityOf_grown (hk : 1 ≤ k) (assigned : List Range) {s : ℕ} (hs : s < clientCount) :
    s < capacityOf k (expandRanges k clientCount (freeSubnets base (used ++ assigned.map (·.subnet))) assigned) ↔
      s < capacityOf k assigned + spareSubnets base used assigned * accountsPerSubnet k := by
  have hnew : ∀ s ∈ freeSubnets base (used ++ assigned.map (·.subnet)), ∀ r ∈ assigned, r.subnet ≠ s := by
    intro s hs r hr hsame
    have hs := mem_freeSubnets hs
    rw [List.mem_append, not_or] at hs
    exact hs.2 (List.mem_map.2 ⟨r, hr, hsame⟩)
  obtain ⟨m, hle, hcapacity, hdone⟩ :=
    capacityOf_expandRanges hk clientCount (nodup_freeSubnets base _) hnew
  have hmul : m * accountsPerSubnet k ≤ spareSubnets base used assigned * accountsPerSubnet k :=
    Nat.mul_le_mul_right _ hle
  obtain henough | rfl := hdone
  · refine iff_of_true (lt_of_lt_of_le hs henough) ?_
    omega
  · rw [hcapacity]
    rfl

/-- The accounts that ranges are assigned for have an address if all there is to append
reaches them. -/
theorem normalizePppRanges_capacity {protocol : Protocol} {posted : List PostedRange} {ranges : List Range}
    (hk : 1 ≤ k) (h : normalizePppRanges protocol posted clientCount k used = .ok ranges) :
    ∃ valid, validRanges used posted = .ok valid ∧
      ∀ s < clientCount, s < capacityOf k ranges ↔
        s < capacityOf k valid + spareSubnets (protocolBase protocol) used valid * accountsPerSubnet k := by
  simp only [normalizePppRanges, bind, Except.bind] at h
  cases hvalid : validRanges used posted with
  | error e => simp [hvalid] at h
  | ok valid =>
      simp only [hvalid] at h
      refine ⟨valid, rfl, fun s hs => ?_⟩
      by_cases hnil : valid = []
      · rw [if_pos hnil] at h
        cases hfree : nextFreeSubnet (protocolBase protocol) used with
        | none => simp [hfree] at h
        | some first =>
            simp only [hfree] at h
            rw [← Except.ok.inj h, capacityOf_grown hk [defaultRange first] hs, hnil,
              ← spareSubnets_first (List.mem_of_mem_head? hfree), Nat.add_mul, one_mul]
            have hfirst : capacityOf k ([] ++ [defaultRange first]) = capacityOf k [] + accountsPerSubnet k :=
              capacityOf_append hk (by simp)
            rw [List.nil_append] at hfirst
            omega
      · rw [if_neg hnil] at h
        rw [← Except.ok.inj h]
        exact capacityOf_grown hk valid hs

/-- Stored ranges that are not refused are extended. -/
theorem normalizePppRanges_of_valid {posted : List PostedRange} {valid : List Range} (protocol : Protocol)
    (hvalid : validRanges used posted = .ok valid) (hne : valid ≠ []) :
    normalizePppRanges protocol posted clientCount k used =
      .ok (expandRanges k clientCount
        (freeSubnets (protocolBase protocol) (used ++ valid.map (·.subnet))) valid) := by
  simp only [normalizePppRanges, bind, Except.bind, hvalid, if_neg hne]
  rfl

end Ppp

/-! ## Blocks -/

section Blocks

variable {base k clientCount : ℕ} {mirrorBase : Option ℕ} {used : List Subnet}

/-- A number of /24s that is just right is the one asked for. -/
theorem num24For_mul (k : ℕ) {j : ℕ} (hj : j ≤ 6) : num24For k (2 ^ j * accountsPerSubnet k) = 2 ^ j := by
  have hper := one_le_accountsPerSubnet (k : ℤ)
  have hpos : 1 ≤ 2 ^ j * accountsPerSubnet k := Nat.mul_pos (Nat.two_pow_pos j) hper
  have hcap : 2 ^ j ≤ 64 := Nat.pow_le_pow_right (by decide) hj
  have hfirst : doubleUntil (fun n => decide (2 ^ j * accountsPerSubnet k ≤ n * accountsPerSubnet k))
      (2 ^ j * accountsPerSubnet k) 1 = 2 ^ j * 1 := by
    refine doubleUntil_first ?_ (fun i hi => ?_) ?_
    · rw [mul_one]
      exact decide_eq_true le_rfl
    · rw [mul_one]
      refine decide_eq_false (not_le.2 ?_)
      exact Nat.mul_lt_mul_of_pos_right (Nat.pow_lt_pow_right (by decide) hi) hper
    · exact Nat.lt_two_pow_self.le.trans (Nat.le_mul_of_pos_right _ hper)
  unfold num24For
  simp only [max_eq_left hpos, hfirst, mul_one]
  exact min_eq_left hcap

theorem num24For_le (k clientCount : ℕ) : num24For k clientCount ≤ 64 := min_le_right _ _

/-- More accounts than half the largest block holds need the largest. -/
theorem num24For_eq_64 (h : 32 * accountsPerSubnet k < clientCount) : num24For k clientCount = 64 := by
  obtain henough | hlargest := num24For_enough k clientCount
  · obtain ⟨j, hj⟩ := num24For_eq k clientCount
    have hle := num24For_le k clientCount
    have hlarge : 32 < num24For k clientCount := by
      by_contra hsmall
      have hmul := Nat.mul_le_mul_right (accountsPerSubnet k) (not_lt.1 hsmall)
      omega
    rw [hj] at hle hlarge ⊢
    have hlow : 5 < j := (Nat.pow_lt_pow_iff_right (a := 2) (by decide)).1 hlarge
    have hhigh : j ≤ 6 := (Nat.pow_le_pow_iff_right (a := 2) (by decide)).1 hle
    obtain rfl : j = 6 := by omega
    rfl
  · exact hlargest

/-- Which block is kept does not depend on how much less is asked for. -/
theorem keepOwnedBlock_mono {current : List Range} {num24 num24' first n : ℕ}
    (h : keepOwnedBlock current num24 base mirrorBase used = some (first, n)) (hle : num24' ≤ n) :
    keepOwnedBlock current num24' base mirrorBase used = some (first, n) := by
  unfold keepOwnedBlock at h ⊢
  simp only at h ⊢
  split at h
  · cases h
  rename_i hsize
  split at h
  · cases h
  rename_i haligned
  split at h
  · rename_i hall
    cases h
    rw [not_or] at hsize
    rw [if_neg (not_or.2 ⟨not_lt.2 hle, hsize.2⟩), if_neg haligned, if_pos hall]
  · cases h

/-- A block beyond the largest that is allocated is one that was kept. -/
theorem normalizeBlockRanges_kept {inboundId userLimit : ℕ} {current ranges : List Range}
    (h : normalizeBlockRanges inboundId clientCount userLimit base mirrorBase used current = .ok ranges) :
    ∃ first n, ranges = blockRanges base first n ∧ Block base mirrorBase used first n ∧
      (clientCount ≤ n * accountsPerSubnet userLimit ∨ 64 ≤ n) ∧
        (n ≤ 64 ∨ keepOwnedBlock current 64 base mirrorBase used = some (first, n)) := by
  have hpow := num24For_eq userLimit clientCount
  have henough := num24For_enough userLimit clientCount
  have hcap := num24For_le userLimit clientCount
  unfold normalizeBlockRanges at h
  simp only at h
  split at h
  · rename_i first n hkeep
    cases h
    have hpos : 0 < num24For userLimit clientCount := by
      obtain ⟨k, hk⟩ := hpow
      rw [hk]
      exact Nat.two_pow_pos k
    obtain ⟨hblock, hlarge, -⟩ := keepOwnedBlock_block hpos hkeep
    refine ⟨first, n, rfl, hblock, ?_, ?_⟩
    · rcases henough with hle | hcap
      · exact .inl (hle.trans (Nat.mul_le_mul_right _ hlarge))
      · exact .inr (hcap ▸ hlarge)
    · by_cases hn : n ≤ 64
      · exact .inl hn
      · exact .inr (keepOwnedBlock_mono hkeep (not_le.1 hn).le)
  · split at h
    · rename_i first hallocate
      cases h
      exact ⟨first, _, rfl, allocateAlignedBlock_block hpow hallocate, henough.imp_right fun heq => heq.ge,
        .inl hcap⟩
    · cases h

/-- Where an aligned block of the size asked for is free, one is found. -/
theorem normalizeBlockRanges_isOk (inboundId userLimit first : ℕ) (current : List Range)
    (hblock : Block base mirrorBase used first (num24For userLimit clientCount)) :
    ∃ ranges, normalizeBlockRanges inboundId clientCount userLimit base mirrorBase used current = .ok ranges := by
  unfold normalizeBlockRanges
  simp only
  split
  · exact ⟨_, rfl⟩
  · have hfound : (allocateAlignedBlock inboundId (num24For userLimit clientCount) base mirrorBase used).isSome := by
      unfold allocateAlignedBlock
      rw [List.find?_isSome]
      obtain ⟨m, rfl⟩ := hblock.aligned
      have hpos := hblock.pos
      have hbound := hblock.bound
      refine ⟨m * num24For userLimit clientCount, List.mem_cons_of_mem _ (List.mem_map.2 ⟨m, ?_, rfl⟩), ?_⟩
      · have hle : m ≤ num24For userLimit clientCount * m := Nat.le_mul_of_pos_left m hpos
        exact List.mem_range.2 (by omega)
      · rw [mul_comm, blockFree, Bool.and_eq_true, decide_eq_true_iff, List.all_eq_true]
        exact ⟨by omega, fun d hd => hblock.free d (List.mem_range.1 hd)⟩
    obtain ⟨n, hn⟩ := Option.isSome_iff_exists.1 hfound
    rw [hn]
    exact ⟨_, rfl⟩

end Blocks

/-! ## Addresses on a block -/

section Addressed

variable {form : RangeForm} {id first n slot : ℕ} {used : List Subnet}

theorem hasAddress_iff_pooled {ranges : List Range} (hne : ranges ≠ []) (hprotocol : form.protocol ≠ .openvpn) :
    HasAddress id form ranges slot ↔ slot < capacityOf (blockSize form.protocol form.userLimit) ranges := by
  unfold HasAddress
  rw [deviceIPs_eq (i := form.inbound id ranges) hne hprotocol]
  exact pooledIPs_ne_nil_iff (blockSize_bounds _ _).2

/-- An OpenVPN account has an address on both transports or on neither. -/
theorem hasAddress_openvpn {mirrorBase : Option ℕ} (hblock : Block 2 mirrorBase used first n)
    (hprotocol : form.protocol = .openvpn) :
    HasAddress id form (blockRanges 2 first n) slot ↔
      if effectiveUserLimit form.userLimit ≤ 1 then
        (ovpnBlockClientIP 2 first (24 - Nat.log2 n) slot).isSome ∨
          (ovpnBlockClientIP 3 first (24 - Nat.log2 n) slot).isSome
      else slot < n * accountsPerSubnet (blockSize form.protocol form.userLimit) := by
  have hsize : blockSize form.protocol form.userLimit = effectiveUserLimit form.userLimit := by
    rw [hprotocol]
    rfl
  have hdevices := fun base (hbase : base = 2 ∨ base = 3) =>
    ovpnDeviceIPs_eq (i := form.inbound id (blockRanges 2 first n)) rfl hblock.pow hblock.aligned hblock.bound
      hbase slot
  unfold HasAddress deviceIPs
  rw [if_pos (show (form.inbound id (blockRanges 2 first n)).protocol = .openvpn from hprotocol),
    hdevices 2 (.inl rfl), hdevices 3 (.inr rfl), hsize]
  change (if effectiveUserLimit form.userLimit ≤ 1 then _ else _) ++
    (if effectiveUserLimit form.userLimit ≤ 1 then _ else _) ≠ [] ↔ _
  by_cases hone : effectiveUserLimit form.userLimit ≤ 1
  · rw [if_pos hone, if_pos hone, if_pos hone, ne_eq, List.append_eq_nil_iff, not_and_or]
    simp [Option.isSome_iff_ne_none]
  · rw [if_neg hone, if_neg hone, if_neg hone, ne_eq, List.append_eq_nil_iff, not_and_or,
      ← ne_eq, ← ne_eq]
    change pooledIPs _ (effectiveUserLimit form.userLimit) _ ≠ [] ∨
      pooledIPs _ (effectiveUserLimit form.userLimit) _ ≠ [] ↔ _
    have hbounds := effectiveUserLimit_bounds form.userLimit
    rw [pooledIPs_ne_nil_iff hbounds.2, pooledIPs_ne_nil_iff hbounds.2, capacityOf_blockRanges hbounds.1,
      capacityOf_blockRanges hbounds.1, or_self]

/-- On a block every account it is sized for has an address; OpenVPN, one device each, uses
the hosts between its /24s as well. -/
theorem hasAddress_of_lt {mirrorBase : Option ℕ} (hblock : Block (protocolBase form.protocol) mirrorBase used first n)
    (h : slot < n * accountsPerSubnet (blockSize form.protocol form.userLimit) ∨
      form.protocol = .openvpn ∧ blockSize form.protocol form.userLimit ≤ 1 ∧ slot + 3 < 256 * n) :
    HasAddress id form (blockRanges (protocolBase form.protocol) first n) slot := by
  have hbounds := blockSize_bounds form.protocol form.userLimit
  by_cases hprotocol : form.protocol = .openvpn
  · have hbase : protocolBase form.protocol = 2 := by rw [hprotocol]; rfl
    have hsize : blockSize form.protocol form.userLimit = effectiveUserLimit form.userLimit := by
      rw [hprotocol]
      rfl
    rw [hbase] at hblock ⊢
    rw [hasAddress_openvpn hblock hprotocol]
    by_cases hone : effectiveUserLimit form.userLimit ≤ 1
    · have hslot : slot + 3 < 256 * n := by
        obtain hlt | ⟨-, -, hlt⟩ := h
        · have hk : blockSize form.protocol form.userLimit = 1 := by omega
          rw [hk, show accountsPerSubnet (1 : ℕ) = 253 from rfl] at hlt
          have hpos := hblock.pos
          omega
        · exact hlt
      rw [if_pos hone, ovpnBlockClientIP_eq 2 hblock.pow hblock.bound hslot]
      exact .inl rfl
    · rw [if_neg hone]
      obtain hlt | ⟨-, hone', -⟩ := h
      · exact hlt
      · exact absurd (hsize ▸ hone') hone
  · rw [hasAddress_iff_pooled (blockRanges_ne_nil _ _ hblock.pos) hprotocol, capacityOf_blockRanges hbounds.1]
    obtain hlt | ⟨hopenvpn, -⟩ := h
    · exact hlt
    · exact absurd hopenvpn hprotocol

/-- Apart from that, no other has. -/
theorem lt_of_hasAddress {mirrorBase : Option ℕ} (hblock : Block (protocolBase form.protocol) mirrorBase used first n)
    (hwide : ¬(form.protocol = .openvpn ∧ blockSize form.protocol form.userLimit ≤ 1))
    (h : HasAddress id form (blockRanges (protocolBase form.protocol) first n) slot) :
    slot < n * accountsPerSubnet (blockSize form.protocol form.userLimit) := by
  have hbounds := blockSize_bounds form.protocol form.userLimit
  by_cases hprotocol : form.protocol = .openvpn
  · have hbase : protocolBase form.protocol = 2 := by rw [hprotocol]; rfl
    have hsize : blockSize form.protocol form.userLimit = effectiveUserLimit form.userLimit := by
      rw [hprotocol]
      rfl
    rw [hbase] at hblock h
    rw [hasAddress_openvpn hblock hprotocol, if_neg fun hone => hwide ⟨hprotocol, hsize ▸ hone⟩] at h
    exact h
  · rwa [hasAddress_iff_pooled (blockRanges_ne_nil _ _ hblock.pos) hprotocol,
      capacityOf_blockRanges hbounds.1] at h

end Addressed

/-! ## Slots -/

theorem le_foldl_max (l : List ℕ) (a : ℕ) : a ≤ l.foldl max a ∧ ∀ x ∈ l, x ≤ l.foldl max a := by
  induction l generalizing a with
  | nil => exact ⟨le_rfl, by simp⟩
  | cons b l ih =>
      obtain ⟨hstart, hall⟩ := ih (max a b)
      refine ⟨(le_max_left a b).trans hstart, ?_⟩
      rintro x (_ | ⟨_, hx⟩)
      · exact (le_max_right a b).trans hstart
      · exact hall x hx

theorem foldl_max_le {l : List ℕ} {a bound : ℕ} (ha : a ≤ bound) (h : ∀ x ∈ l, x ≤ bound) :
    l.foldl max a ≤ bound := by
  induction l generalizing a with
  | nil => exact ha
  | cons b l ih =>
      exact ih (max_le ha (h b List.mem_cons_self)) fun x hx => h x (List.mem_cons_of_mem b hx)

/-- The pool is sized for every slot. -/
theorem lt_slotCount {slots : List ℕ} {s : ℕ} (h : s ∈ slots) : s < slotCount slots := by
  have hle := (le_foldl_max (slots.map (· + 1)) 0).2 (s + 1) (List.mem_map_of_mem h)
  exact lt_of_lt_of_le hle (le_max_right _ _)

theorem slotCount_range (n : ℕ) : slotCount (List.range n) = n := by
  unfold slotCount
  rw [List.length_range]
  refine max_eq_left (foldl_max_le (Nat.zero_le n) ?_)
  intro x hx
  obtain ⟨m, hm, rfl⟩ := List.mem_map.1 hx
  exact List.mem_range.1 hm

theorem length_takenSlots (used : List ℤ) (posted : List (Option ℕ)) :
    (takenSlots used posted).length = posted.length := by
  induction posted generalizing used with
  | nil => rfl
  | cons p posted ih => rw [takenSlots, List.length_cons, List.length_cons, ih]

theorem length_slotsForNewAccounts (used : List ℤ) (count : ℕ) :
    (slotsForNewAccounts used count).length = count := by
  induction count generalizing used with
  | zero => rfl
  | succ count ih => rw [slotsForNewAccounts, List.length_cons, ih]

/-- Every free slot below the last one taken is taken. -/
theorem mem_slotsForNewAccounts {used : List ℤ} {count last s : ℕ}
    (hlast : (slotsForNewAccounts used count).getLast? = some last) (hs : s < last) (hfree : (s : ℤ) ∉ used) :
    s ∈ slotsForNewAccounts used count := by
  induction count generalizing used with
  | zero => cases hlast
  | succ count ih =>
      rw [slotsForNewAccounts] at hlast ⊢
      by_cases hlowest : s = lowestFree used
      · rw [hlowest]
        exact List.mem_cons_self
      · cases count with
        | zero =>
            obtain rfl : lowestFree used = last := by simpa [slotsForNewAccounts] using hlast
            exact absurd ((lowestFree_spec used).2 s hs) hfree
        | succ count =>
            refine List.mem_cons_of_mem _ (ih ?_ ?_)
            · rwa [List.getLast?_cons_of_ne_nil] at hlast
              simp [slotsForNewAccounts]
            · intro hmem
              rcases List.mem_cons.1 hmem with hsame | hmem
              · exact hlowest (Int.ofNat_inj.1 hsame)
              · exact hfree hmem

/-- So many free slots reach at least as far as the lowest ones. -/
theorem exists_last_le {used : List ℤ} {slots : List ℕ} {last : ℕ} (hnodup : slots.Nodup)
    (hfree : ∀ s ∈ slots, (s : ℤ) ∉ used)
    (hlast : (slotsForNewAccounts used slots.length).getLast? = some last) : ∃ s ∈ slots, last ≤ s := by
  by_contra hnone
  have hbelow : ∀ s ∈ slots, s < last := fun s hs => not_le.1 fun hle => hnone ⟨s, hs, hle⟩
  have hmem : last ∈ slotsForNewAccounts used slots.length := List.mem_of_getLast? hlast
  have hnot : last ∉ slots := fun h => lt_irrefl last (hbelow last h)
  have hsub : last :: slots ⊆ slotsForNewAccounts used slots.length := by
    intro s hs
    rcases List.mem_cons.1 hs with rfl | hs
    · exact hmem
    · exact mem_slotsForNewAccounts hlast (hbelow s hs) (hfree s hs)
  have hlength := ((List.nodup_cons.2 ⟨hnot, hnodup⟩).subperm hsub).length_le
  rw [length_slotsForNewAccounts, List.length_cons] at hlength
  omega

/-! ## What is placed, and what is counted -/

section Placed

variable {pool : Pool} {id s : ℕ} {form : RangeForm} {slots : List ℕ} {ranges : List Range}

theorem normalizeRanges_ppp (hppp : pppProtocol form.protocol = true) (pool : Pool) (id : ℕ) (slots : List ℕ) :
    normalizeRanges pool id id { form with slots } =
      normalizePppRanges form.protocol form.posted (slotCount slots) (blockSize form.protocol form.userLimit)
        (usedVpnSubnets pool id) :=
  if_pos hppp

theorem normalizeRanges_block (hppp : pppProtocol form.protocol = false) (pool : Pool) (id : ℕ) (slots : List ℕ) :
    normalizeRanges pool id id { form with slots } =
      normalizeBlockRanges id (slotCount slots) (blockSize form.protocol form.userLimit)
        (protocolBase form.protocol) (mirrorOf form.protocol) (usedVpnSubnets pool id)
        (form.posted.filterMap (·.value)) := by
  unfold normalizeRanges
  simp only [hppp, Bool.false_eq_true, if_false]
  unfold mirrorOf
  split
  · rename_i hopenvpn
    rw [hopenvpn]
    rfl
  · rfl

theorem ne_openvpn_of_ppp (hppp : pppProtocol form.protocol = true) : form.protocol ≠ .openvpn := by
  intro hopenvpn
  rw [hopenvpn] at hppp
  cases hppp

/-- On a list of ranges the accounts with an address are those within reach. -/
theorem hasAddress_ppp (hppp : pppProtocol form.protocol = true)
    (h : normalizeRanges pool id id { form with slots } = .ok ranges) (hs : s < slotCount slots) :
    HasAddress id form ranges s ↔ s < reach (usedVpnSubnets pool id) form := by
  rw [normalizeRanges_ppp hppp] at h
  obtain ⟨hne, -⟩ := normalizePppRanges_ok h
  obtain ⟨valid, hvalid, hiff⟩ := normalizePppRanges_capacity (blockSize_bounds _ _).1 h
  rw [hasAddress_iff_pooled hne (ne_openvpn_of_ppp hppp), hiff s hs, (validRanges_ok hvalid).1]
  unfold reach
  rw [if_pos hppp]

/-- A slot within reach has an address wherever ranges are assigned for it. -/
theorem hasAddress_of_lt_reach (h : normalizeRanges pool id id { form with slots } = .ok ranges)
    (hs : s < slotCount slots) (hreach : s < reach (usedVpnSubnets pool id) form) : HasAddress id form ranges s := by
  cases hppp : pppProtocol form.protocol with
  | true => exact (hasAddress_ppp hppp h hs).2 hreach
  | false =>
      rw [normalizeRanges_block hppp] at h
      obtain ⟨first, n, rfl, hblock, henough, -⟩ := normalizeBlockRanges_kept h
      refine hasAddress_of_lt hblock (.inl ?_)
      obtain hle | hlarge := henough
      · exact lt_of_lt_of_le hs hle
      · unfold reach at hreach
        rw [if_neg (by rw [hppp]; exact Bool.false_ne_true)] at hreach
        exact lt_of_lt_of_le hreach (Nat.mul_le_mul_right _ hlarge)

/-- Where everything is counted, an account with an address is below the bound, and within
reach. -/
theorem lt_of_served (hcounted : Counted (usedVpnSubnets pool id) form)
    (h : normalizeRanges pool id id { form with slots } = .ok ranges) (hs : s < slotCount slots)
    (haddress : HasAddress id form ranges s) :
    s < maxVpnAccounts (usedVpnSubnets pool id) form.protocol form.userLimit ∧
      s < reach (usedVpnSubnets pool id) form := by
  cases hppp : pppProtocol form.protocol with
  | true =>
      have hreach := (hasAddress_ppp hppp h hs).1 haddress
      refine ⟨lt_of_lt_of_le hreach ?_, hreach⟩
      rw [normalizeRanges_ppp hppp] at h
      obtain ⟨valid, hvalid, -⟩ := normalizePppRanges_capacity (blockSize_bounds _ _).1 h
      unfold Counted at hcounted
      rw [if_pos hppp] at hcounted
      have hcounted := hcounted valid hvalid
      have hall := counted_add_spare (protocolBase form.protocol) (usedVpnSubnets pool id) valid
      unfold reach maxVpnAccounts
      rw [if_pos hppp]
      simp only [hppp, if_true]
      rw [← (validRanges_ok hvalid).1, ← hall, Nat.add_mul]
      exact Nat.add_le_add_right hcounted _
  | false =>
      have hnot : ¬pppProtocol form.protocol = true := by rw [hppp]; exact Bool.false_ne_true
      rw [normalizeRanges_block hppp] at h
      obtain ⟨first, n, rfl, hblock, henough, hkept⟩ := normalizeBlockRanges_kept h
      unfold Counted at hcounted
      rw [if_neg hnot] at hcounted
      obtain ⟨hfree, hlargest, hwide⟩ := hcounted
      have hn : n ≤ 64 := by
        obtain hn | hkept := hkept
        · exact hn
        · by_contra hlarge
          obtain ⟨j, rfl⟩ := hblock.pow
          have hbound := hblock.bound
          have hlow : 6 < j := (Nat.pow_lt_pow_iff_right (a := 2) (by decide)).1 (not_le.1 hlarge)
          have hhigh : j < 8 := (Nat.pow_lt_pow_iff_right (a := 2) (by decide)).1 (by omega)
          obtain rfl : j = 7 := by omega
          exact hlargest first hkept
      have hlt : s < n * accountsPerSubnet (blockSize form.protocol form.userLimit) := by
        by_cases hovpn : form.protocol = .openvpn ∧ blockSize form.protocol form.userLimit ≤ 1
        · obtain hle | hlarge := henough
          · exact lt_of_lt_of_le hs hle
          · obtain rfl : n = 64 := le_antisymm hn hlarge
            exact absurd hblock (hwide hovpn.1 hovpn.2 first)
        · exact lt_of_hasAddress hblock hovpn haddress
      unfold reach maxVpnAccounts
      rw [if_neg hnot]
      simp only [hppp, Bool.false_eq_true, if_false]
      refine ⟨lt_of_lt_of_le hlt (Nat.mul_le_mul_right _ (le_min (hfree first n hblock hn) hn)), ?_⟩
      exact lt_of_lt_of_le hlt (Nat.mul_le_mul_right _ hn)

/-- The bound is below nothing that can be placed. -/
def NeverSmaller (pool : Pool) (id : ℕ) (form : RangeForm) : Prop :=
  ∀ n ranges, normalizeRanges pool id id { form with slots := List.range n } = .ok ranges →
    (∀ s < n, HasAddress id form ranges s) →
      n ≤ maxVpnAccounts (usedVpnSubnets pool id) form.protocol form.userLimit

theorem neverSmaller_of_counted (hcounted : Counted (usedVpnSubnets pool id) form) : NeverSmaller pool id form := by
  intro n ranges h hall
  cases n with
  | zero => exact Nat.zero_le _
  | succ n =>
      have hs : n < slotCount (List.range (n + 1)) := by rw [slotCount_range]; exact Nat.lt_succ_self n
      exact (lt_of_served hcounted h hs (hall n (Nat.lt_succ_self n))).1

/-- A block that can be had is counted. -/
theorem counted_of_block (h : NeverSmaller pool id form) (hppp : pppProtocol form.protocol = false) (bound : ℕ)
    (hok : ∃ ranges, normalizeRanges pool id id { form with slots := List.range bound } = .ok ranges)
    (hserved : ∀ first n, Block (protocolBase form.protocol) (mirrorOf form.protocol) (usedVpnSubnets pool id) first n →
      (bound ≤ n * accountsPerSubnet (blockSize form.protocol form.userLimit) ∨ 64 ≤ n) → ∀ s < bound,
        HasAddress id form (blockRanges (protocolBase form.protocol) first n) s) :
    bound ≤ min (freeSubnets (protocolBase form.protocol) (usedVpnSubnets pool id)).length 64 *
      accountsPerSubnet (blockSize form.protocol form.userLimit) := by
  obtain ⟨ranges, hok⟩ := hok
  have hle := h bound ranges hok ?_
  · unfold maxVpnAccounts at hle
    simpa only [hppp, Bool.false_eq_true, if_false] using hle
  · rw [normalizeRanges_block hppp] at hok
    obtain ⟨first, n, rfl, hblock, henough, -⟩ := normalizeBlockRanges_kept hok
    rw [slotCount_range] at henough
    exact hserved first n hblock henough

/-- Ranges that can be extended are counted. -/
theorem counted_ppp (h : NeverSmaller pool id form) (hppp : pppProtocol form.protocol = true) {valid : List Range}
    (hvalid : validRanges (usedVpnSubnets pool id) form.posted = .ok valid) :
    capacityOf (blockSize form.protocol form.userLimit) valid ≤
      countedSubnets (protocolBase form.protocol) (usedVpnSubnets pool id) valid *
        accountsPerSubnet (blockSize form.protocol form.userLimit) := by
  by_cases hnil : valid = []
  · rw [hnil]
    have hzero : capacityOf (blockSize form.protocol form.userLimit) [] = 0 := by
      simp [capacityOf, rangeCapacity, vpnAccountsCapacity, subnetsOf]
    omega
  have hreach : reach (usedVpnSubnets pool id) form =
      capacityOf (blockSize form.protocol form.userLimit) valid +
        spareSubnets (protocolBase form.protocol) (usedVpnSubnets pool id) valid *
          accountsPerSubnet (blockSize form.protocol form.userLimit) := by
    unfold reach
    rw [if_pos hppp, (validRanges_ok hvalid).1]
  obtain ⟨ranges, hok⟩ : ∃ ranges, normalizeRanges pool id id
      { form with slots := List.range (reach (usedVpnSubnets pool id) form) } = .ok ranges := by
    rw [normalizeRanges_ppp hppp]
    exact ⟨_, normalizePppRanges_of_valid form.protocol hvalid hnil⟩
  have hle := h _ ranges hok fun s hs =>
    (hasAddress_ppp hppp hok (by rw [slotCount_range]; exact hs)).2 hs
  have hall := counted_add_spare (protocolBase form.protocol) (usedVpnSubnets pool id) valid
  unfold maxVpnAccounts at hle
  simp only [hppp, if_true] at hle
  rw [hreach, ← hall, Nat.add_mul] at hle
  exact Nat.le_of_add_le_add_right hle

theorem counted_of_neverSmaller (h : NeverSmaller pool id form) : Counted (usedVpnSubnets pool id) form := by
  have hper := one_le_accountsPerSubnet (blockSize form.protocol form.userLimit : ℤ)
  unfold Counted
  cases hppp : pppProtocol form.protocol with
  | true => exact fun valid hvalid => counted_ppp h hppp hvalid
  | false =>
      refine ⟨fun first n hblock hn => ?_, fun first hkept => ?_, fun hovpn hone first hblock => ?_⟩
      · -- as many accounts as the block holds
        obtain ⟨j, rfl⟩ := hblock.pow
        have hj : j ≤ 6 := (Nat.pow_le_pow_iff_right (a := 2) (by decide)).1 hn
        have hle := counted_of_block h hppp (2 ^ j * accountsPerSubnet (blockSize form.protocol form.userLimit))
          ?_ fun first' n' hblock' henough s hs => ?_
        · exact (Nat.le_of_mul_le_mul_right hle hper).trans (min_le_left _ _)
        · rw [normalizeRanges_block hppp, slotCount_range]
          refine normalizeBlockRanges_isOk id _ first _ ?_
          rw [num24For_mul _ hj]
          exact hblock
        · refine hasAddress_of_lt hblock' (.inl (lt_of_lt_of_le hs ?_))
          obtain hle | hlarge := henough
          · exact hle
          · exact Nat.mul_le_mul_right _ (hn.trans hlarge)
      · -- as many as the block that is kept holds
        have hnum : num24For (blockSize form.protocol form.userLimit)
            (128 * accountsPerSubnet (blockSize form.protocol form.userLimit)) = 64 := by
          refine num24For_eq_64 ?_
          omega
        have hok : normalizeRanges pool id id
            { form with slots := List.range (128 * accountsPerSubnet (blockSize form.protocol form.userLimit)) } =
              .ok (blockRanges (protocolBase form.protocol) first 128) := by
          rw [normalizeRanges_block hppp, slotCount_range]
          unfold normalizeBlockRanges
          simp only [hnum, hkept]
        have hle := h _ _ hok fun s hs =>
          hasAddress_of_lt (keepOwnedBlock_block (by decide) hkept).1 (.inl hs)
        unfold maxVpnAccounts at hle
        simp only [hppp, Bool.false_eq_true, if_false] at hle
        have hcap := Nat.mul_le_mul_right (accountsPerSubnet (blockSize form.protocol form.userLimit))
          (min_le_right (freeSubnets (protocolBase form.protocol) (usedVpnSubnets pool id)).length 64)
        omega
      · -- the hosts between the /24s of the largest block
        have hk : blockSize form.protocol form.userLimit = 1 :=
          le_antisymm hone (blockSize_bounds form.protocol form.userLimit).1
        have hone' : accountsPerSubnet ((1 : ℕ) : ℤ) = 253 := rfl
        have hle := counted_of_block h hppp (256 * 64 - 3) ?_ fun first' n' hblock' henough s hs => ?_
        · rw [hk, hone'] at hle
          have hcap := Nat.mul_le_mul_right 253
            (min_le_right (freeSubnets (protocolBase form.protocol) (usedVpnSubnets pool id)).length 64)
          omega
        · rw [normalizeRanges_block hppp, slotCount_range]
          refine normalizeBlockRanges_isOk id _ first _ ?_
          rw [num24For_eq_64 (by rw [hk, hone']; decide)]
          exact hblock
        · refine hasAddress_of_lt hblock' (.inr ⟨hovpn, hone, ?_⟩)
          rw [hk, hone'] at henough
          omega

end Placed

/-- The guard matches the allocator exactly if everything the inbound could own is counted
and what is admitted stays within reach. -/
theorem guard_matches_iff (pool : Pool) (id : ℕ) (form : RangeForm) (posted : List (Option ℕ)) :
    GuardMatches pool id form posted ↔ GuardExact pool id form posted := by
  have hslots : ∀ s ∈ takenSlots (form.slots.map (↑)) posted, s < slotCount (form.adding posted).slots :=
    fun s hs => lt_slotCount (List.mem_append_right _ hs)
  constructor
  · intro h
    have hcounted := counted_of_neverSmaller h.neverSmaller
    refine ⟨hcounted, fun hadmits hok s hs => ?_⟩
    obtain ⟨ranges, hok⟩ := hok
    exact (lt_of_served hcounted hok (hslots s hs) (h.admitted hadmits ranges hok s hs)).2
  · intro h
    refine ⟨neverSmaller_of_counted h.counted, fun ranges hok hnodup hserved => ?_,
      fun hadmits ranges hok s hs => ?_⟩
    · unfold admits
      cases hlast : (slotsForNewAccounts (form.slots.map (↑)) posted.length).getLast? with
      | none => rfl
      | some last =>
          rw [← length_takenSlots (form.slots.map (↑)) posted] at hlast
          have hfree : ∀ s ∈ takenSlots (form.slots.map (↑)) posted, (s : ℤ) ∉ form.slots.map (↑) := by
            intro s hs hmem
            obtain ⟨s', hs', hsame⟩ := List.mem_map.1 hmem
            exact (hserved s hs).1 (Int.ofNat_inj.1 hsame ▸ hs')
          obtain ⟨s, hs, hle⟩ := exists_last_le hnodup hfree hlast
          have hlt := (lt_of_served h.counted hok (hslots s hs) (hserved s hs).2).1
          exact decide_eq_true (lt_of_le_of_lt hle hlt)
    · exact hasAddress_of_lt_reach hok (hslots s hs) (h.reached hadmits ⟨ranges, hok⟩ s hs)

theorem mem_ownedSubnets {i : VpnInbound} (hprotocol : i.protocol ≠ .openvpn) (hne : i.ranges ≠ []) {s : Subnet} :
    s ∈ ownedSubnets i ↔ ∃ r ∈ i.ranges, r.subnet = s := by
  unfold ownedSubnets inboundRanges rangesOr
  simp only [i.stored_eq hne, Option.getD_some, if_neg hprotocol, List.mem_flatMap, ← mem_subnetsOf]
  constructor
  · rintro ⟨s', hs', hmem⟩
    rwa [List.mem_singleton.1 hmem]
  · intro hs
    exact ⟨s, hs, List.mem_singleton_self s⟩

/-- An inbound with every /24 of L2TP's /16 but the first two and the last. -/
def everywhere : VpnInbound where
  id := 1
  protocol := .l2tp
  ranges := (List.range 253).map fun n => defaultRange ⟨10, 0, n + 2⟩

def crowded : Pool := Table.single everywhere

/-- An L2TP inbound on an operator's range. -/
def onOwnRange : RangeForm where
  protocol := .l2tp
  posted := [⟨"192.168.50.2-192.168.50.254", some (defaultRange ⟨192, 168, 50⟩)⟩]

/-- Its first client is refused, though the range has an address for it. -/
theorem placeable_refused :
    maxVpnAccounts (usedVpnSubnets crowded 2) .l2tp none = 0 ∧ admits crowded 2 onOwnRange 1 = false ∧
      (∃ ranges, normalizeRanges crowded 2 2 (onOwnRange.adding [none]) = .ok ranges ∧
        deviceIPs (onOwnRange.inbound 2 ranges) 0 = [⟨⟨192, 168, 50⟩, 2⟩]) ∧
      ¬GuardMatches crowded 2 onOwnRange [none] := by
  have hmem : ∀ s, s ∈ usedVpnSubnets crowded 2 ↔ ∃ n < 253, s = ⟨10, 0, n + 2⟩ := by
    intro s
    have hne : everywhere.ranges ≠ [] := by
      refine List.ne_nil_of_length_pos ?_
      rw [everywhere, List.length_map, List.length_range]
      decide
    rw [mem_usedVpnSubnets]
    constructor
    · rintro ⟨j, hj, -, hs⟩
      rw [show j = everywhere from List.mem_singleton.1 hj, mem_ownedSubnets (by decide) hne] at hs
      obtain ⟨r, hr, rfl⟩ := hs
      obtain ⟨n, hn, rfl⟩ := List.mem_map.1 hr
      exact ⟨n, List.mem_range.1 hn, rfl⟩
    · rintro ⟨n, hn, rfl⟩
      refine ⟨everywhere, List.mem_singleton_self everywhere, by decide, ?_⟩
      rw [mem_ownedSubnets (by decide) hne]
      exact ⟨_, List.mem_map_of_mem (List.mem_range.2 hn), rfl⟩
  have hfull : ∀ owned, freeSubnets 0 (usedVpnSubnets crowded 2 ++ owned) = [] := by
    intro owned
    refine List.filter_eq_nil_iff.2 fun s hs => ?_
    obtain ⟨n, hn, rfl⟩ := List.mem_map.1 hs
    simp [(hmem _).2 ⟨n, List.mem_range.1 hn, rfl⟩]
  have hmax : maxVpnAccounts (usedVpnSubnets crowded 2) .l2tp none = 0 := by
    have hnone := hfull []
    rw [List.append_nil] at hnone
    simp [maxVpnAccounts, protocolBase, pppProtocol, hnone]
  have hother : (⟨192, 168, 50⟩ : Subnet) ∉ usedVpnSubnets crowded 2 := by
    rw [hmem]
    rintro ⟨n, -, hsame⟩
    cases hsame
  have hok : normalizeRanges crowded 2 2 (onOwnRange.adding [none]) = .ok [defaultRange ⟨192, 168, 50⟩] := by
    have hvalid : validRanges (usedVpnSubnets crowded 2) onOwnRange.posted =
        .ok [defaultRange ⟨192, 168, 50⟩] := by
      simp [onOwnRange, validRanges, defaultRange, hother, Except.map]
    rw [RangeForm.adding, normalizeRanges_ppp rfl, normalizePppRanges_of_valid _ hvalid (List.cons_ne_nil _ _),
      show protocolBase onOwnRange.protocol = 0 from rfl, hfull]
    rfl
  have hserved : ∀ s ∈ takenSlots (onOwnRange.slots.map (↑)) [none],
      s ∉ onOwnRange.slots ∧ HasAddress 2 onOwnRange [defaultRange ⟨192, 168, 50⟩] s := by
    unfold HasAddress
    decide +kernel
  have hrefused : admits crowded 2 onOwnRange 1 = false := by
    unfold admits
    rw [show onOwnRange.protocol = .l2tp from rfl, show onOwnRange.userLimit = none from rfl, hmax]
    decide +kernel
  refine ⟨hmax, hrefused, ⟨_, hok, by decide +kernel⟩, fun h => ?_⟩
  have hadmits := h.placeable _ hok (by decide +kernel) hserved
  rw [List.length_singleton, hrefused] at hadmits
  cases hadmits

end Simorgh.Vpn
