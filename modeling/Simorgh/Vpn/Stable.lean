import Simorgh.Vpn.Pool

/-!
# Addresses that stay

A WireGuard configuration carries the address of its account, so the address has to
outlive every reconcile.

* `wgcAccountBlock`, `wgcDeviceIPs` — the block of an account, and its devices.
* `StaysPut` — the block of an inbound is large enough, or grows where it is.
* `handed_out_address_stays` — in every run in which it stays put, an address that was
  handed out is the account's for good.
* `grown_block_moves` — a block that is outgrown moves to the inbound's id.
-/

namespace Simorgh.Vpn

open Simorgh.Lib Simorgh.Panel

/-! ## The block of an account -/

/-- `wgcAccountBlock`. -/
def wgcAccountBlock (i : VpnInbound) (slot : ℕ) : Option (Addr × ℕ) := gatewayBlock .wgc i slot

/-- `wgcDeviceIPs`. -/
def wgcDeviceIPs (i : VpnInbound) (slot : ℕ) : List Addr := gatewayDeviceIPs .wgc i slot

/-- Ranges that begin with those of another have its slots where they were. -/
theorem slotRange_of_initial {ranges ranges' : List Range} (h : ranges <+: ranges') {slot : ℕ} {x : Range × ℕ}
    (hx : slotRange ranges slot = some x) : slotRange ranges' slot = some x := by
  induction ranges generalizing ranges' slot with
  | nil => cases hx
  | cons r rs ih =>
      obtain ⟨rest, rfl⟩ := h
      rw [slotRange] at hx
      rw [List.cons_append, slotRange]
      by_cases hlt : slot < r.capacity
      · rw [if_pos hlt] at hx ⊢
        exact hx
      · rw [if_neg hlt] at hx ⊢
        exact ih (List.prefix_append rs rest) hx

theorem vpnAccountBlock_of_initial {subnets subnets' : List Subnet} (h : subnets <+: subnets') {slot : ℕ} {k : ℤ}
    {b : Subnet × ℕ} (hb : vpnAccountBlock subnets slot k = some b) :
    vpnAccountBlock subnets' slot k = some b := by
  unfold vpnAccountBlock at hb ⊢
  simp only at hb ⊢
  by_cases hper : accountsPerSubnet k = 0
  · rw [if_pos hper] at hb
    cases hb
  · rw [if_neg hper] at hb ⊢
    obtain ⟨s, hs, rfl⟩ := Option.map_eq_some_iff.1 hb
    obtain ⟨rest, rfl⟩ := h
    rw [List.getElem?_append_left (List.getElem?_eq_some_iff.1 hs).1, hs]
    rfl

theorem range_initial {n n' : ℕ} (h : n ≤ n') : List.range n <+: List.range n' := by
  obtain ⟨d, rfl⟩ := Nat.exists_eq_add_of_le h
  rw [List.range_add]
  exact List.prefix_append _ _

/-- The inbound after a while: the same limit, and a block that begins where it did. -/
structure Grown (i j : VpnInbound) : Prop where
  protocol : j.protocol = i.protocol
  userLimit : j.userLimit = i.userLimit
  block : ∃ first n n', i.ranges = blockRanges (protocolBase i.protocol) first n ∧
    j.ranges = blockRanges (protocolBase i.protocol) first n' ∧ 0 < n ∧ n ≤ n'

theorem blockRanges_ne_nil (base first : ℕ) {n : ℕ} (h : 0 < n) : blockRanges base first n ≠ [] := by
  refine List.ne_nil_of_length_pos ?_
  rw [blockRanges, List.length_map, List.length_range]
  exact h

section Growing

variable {i j : VpnInbound} {slot : ℕ}

theorem Grown.computeVpnClientIP_eq (h : Grown i j) {a : Addr}
    (ha : computeVpnClientIP i.stored i.id slot .wgc = some a) :
    computeVpnClientIP j.stored j.id slot .wgc = some a := by
  obtain ⟨first, n, n', hi, hj, hpos, hle⟩ := h.block
  have hne : i.ranges ≠ [] := hi ▸ blockRanges_ne_nil _ _ hpos
  have hne' : j.ranges ≠ [] := hj ▸ blockRanges_ne_nil _ _ (hpos.trans_le hle)
  rw [computeVpnClientIP, i.stored_eq hne, hi, rangesOr, Option.getD_some] at ha
  rw [computeVpnClientIP, j.stored_eq hne', hj, rangesOr, Option.getD_some]
  obtain ⟨x, hx, rfl⟩ := Option.map_eq_some_iff.1 ha
  have hinitial : blockRanges (protocolBase i.protocol) first n <+: blockRanges (protocolBase i.protocol) first n' :=
    (range_initial hle).map _
  rw [slotRange_of_initial hinitial hx]
  rfl

theorem Grown.subnets (h : Grown i j) :
    pppSubnetsOrDefault i.ranges .wgc i.id <+: pppSubnetsOrDefault j.ranges .wgc j.id := by
  obtain ⟨first, n, n', hi, hj, hpos, hle⟩ := h.block
  rw [pppSubnetsOrDefault, hi, if_neg (subnetsOf_ne_nil (blockRanges_ne_nil _ _ hpos)), pppSubnetsOrDefault, hj,
    if_neg (subnetsOf_ne_nil (blockRanges_ne_nil _ _ (hpos.trans_le hle))), subnetsOf_blockRanges,
    subnetsOf_blockRanges]
  exact (range_initial hle).map _

/-- A block that was there is where it was. -/
theorem Grown.wgcAccountBlock_eq (h : Grown i j) {b : Addr × ℕ} (hb : wgcAccountBlock i slot = some b) :
    wgcAccountBlock j slot = some b := by
  unfold wgcAccountBlock gatewayBlock at hb ⊢
  simp only [h.userLimit] at hb ⊢
  by_cases hone : wgcEffectiveK i.userLimit ≤ 1
  · rw [if_pos hone] at hb ⊢
    obtain ⟨a, ha, rfl⟩ := Option.map_eq_some_iff.1 hb
    rw [h.computeVpnClientIP_eq ha]
    rfl
  · rw [if_neg hone] at hb ⊢
    obtain ⟨a, ha, rfl⟩ := Option.map_eq_some_iff.1 hb
    rw [vpnAccountBlock_of_initial h.subnets ha]
    rfl

theorem Grown.wgcDeviceIPs_eq (h : Grown i j) (hsome : wgcDeviceIPs i slot ≠ []) :
    wgcDeviceIPs j slot = wgcDeviceIPs i slot := by
  unfold wgcDeviceIPs gatewayDeviceIPs at hsome ⊢
  simp only [h.userLimit] at hsome ⊢
  by_cases hone : wgcEffectiveK i.userLimit ≤ 1
  · rw [if_pos hone] at hsome
    rw [if_pos hone, if_pos hone]
    cases ha : computeVpnClientIP i.stored i.id slot .wgc with
    | none =>
        rw [ha] at hsome
        exact absurd rfl hsome
    | some a => rw [h.computeVpnClientIP_eq ha]
  · rw [if_neg hone] at hsome
    rw [if_neg hone, if_neg hone]
    cases hb : gatewayBlock .wgc i slot with
    | none =>
        rw [hb] at hsome
        exact absurd rfl hsome
    | some b => rw [show gatewayBlock .wgc j slot = some b from h.wgcAccountBlock_eq hb]

end Growing

/-! ## Staying put -/

/-- Assigning ranges to an inbound leaves its block where it is: the block will do, or there
is no room to grow, or the first place that is tried and free is where the block begins. -/
def StaysPut (pool : Pool) (i : VpnInbound) : Prop :=
  let num24 := num24For (blockSize i.protocol i.userLimit) (slotCount i.slots)
  let first := (ovpnThirds i.ranges).headD 0
  let free := blockFree num24 (protocolBase i.protocol) none (usedVpnSubnets pool i.id)
  num24 ≤ (ovpnThirds i.ranges).length ∨ (∀ n, num24 ∣ n → free n = false) ∨
    free first = true ∧ num24 ∣ first ∧
      (i.id / num24 * num24 = first ∨
        free (i.id / num24 * num24) = false ∧ ∀ n, num24 ∣ n → n < first → free n = false)

/-- The operator edits neither the limit nor the ranges of this inbound, and where its ranges
are assigned again its block stays put.  A new inbound has a new id. -/
def Unmoved (id : ℕ) (pool : Pool) : PoolEvent → Prop
  | .add id' _ => id' ≠ id
  | .update id' form => id' = id → ∀ i, pool.find? id = some i →
      form.protocol = i.protocol ∧ form.userLimit = i.userLimit ∧
        form.posted.filterMap (·.value) = i.ranges ∧ StaysPut pool { i with slots := form.slots }
  | .reconcile id' => id' = id → ∀ i, pool.find? id = some i → StaysPut pool i
  | .accounts _ _ | .delete _ => True

theorem headD_thirds (base first : ℕ) {n : ℕ} (hpos : 0 < n) :
    (ovpnThirds (blockRanges base first n)).headD 0 = first := by
  obtain ⟨m, rfl⟩ : ∃ m, n = m + 1 := ⟨n - 1, by omega⟩
  rw [ovpnThirds_blockRanges]
  simp [List.range_succ_eq_map]

theorem length_thirds (base first n : ℕ) : (ovpnThirds (blockRanges base first n)).length = n := by
  rw [ovpnThirds_blockRanges, List.length_map, List.length_range]

/-- A block nobody else uses is kept, if it will do. -/
theorem keepOwnedBlock_of_block {base : ℕ} {mirrorBase : Option ℕ} {used : List Subnet} {first n num24 : ℕ}
    (hb : Block base mirrorBase used first n) (hle : num24 ≤ n) :
    keepOwnedBlock (blockRanges base first n) num24 base mirrorBase used = some (first, n) := by
  have hpos := hb.pos
  have hpow : n &&& (n - 1) = 0 := (Nat.and_sub_one_eq_zero_iff_isPowerOfTwo hpos.ne').2 hb.pow
  unfold keepOwnedBlock
  simp only [headD_thirds base first hpos, length_thirds]
  rw [if_neg (by rw [not_or, not_lt, not_not]; exact ⟨hle, hpow⟩),
    if_neg (not_not.2 (Nat.mod_eq_zero_of_dvd hb.aligned)), if_pos]
  rw [List.all_eq_true]
  rintro ⟨t, d⟩ ht
  rw [ovpnThirds_blockRanges] at ht
  obtain ⟨hd, ht⟩ := List.getElem?_eq_some_iff.1 (List.mem_zipIdx_iff_getElem?.1 ht)
  rw [List.length_map, List.length_range] at hd
  have ht' : first + d = t := by simpa using ht
  have hbound := hb.bound
  simp only [Bool.and_eq_true, decide_eq_true_eq]
  exact ⟨⟨ht'.symm, by omega⟩, ht' ▸ hb.free d hd⟩

section Assigning

variable {pool : Pool} {i j : VpnInbound}

/-- Where there is no room in any aligned place, nothing is allocated. -/
theorem allocateAlignedBlock_none {id num24 base : ℕ} {mirrorBase : Option ℕ} {used : List Subnet}
    (h : ∀ n, num24 ∣ n → blockFree num24 base mirrorBase used n = false) :
    allocateAlignedBlock id num24 base mirrorBase used = none := by
  refine List.find?_eq_none.2 fun n hn => ?_
  rw [Bool.not_eq_true]
  rcases List.mem_cons.1 hn with rfl | hn
  · exact h _ (Nat.dvd_mul_left num24 _)
  · obtain ⟨m, -, rfl⟩ := List.mem_map.1 hn
    exact h _ (Nat.dvd_mul_left num24 m)

/-- The first free place in the order they are tried is the one allocated. -/
theorem allocateAlignedBlock_first {id num24 base first : ℕ} {mirrorBase : Option ℕ} {used : List Subnet}
    (hpos : 0 < num24) (hfree : blockFree num24 base mirrorBase used first = true) (haligned : num24 ∣ first)
    (horder : id / num24 * num24 = first ∨ blockFree num24 base mirrorBase used (id / num24 * num24) = false ∧
      ∀ n, num24 ∣ n → n < first → blockFree num24 base mirrorBase used n = false) :
    allocateAlignedBlock id num24 base mirrorBase used = some first := by
  unfold allocateAlignedBlock
  rcases horder with hpreferred | ⟨htaken, hlower⟩
  · rw [hpreferred]
    exact List.find?_cons_of_pos hfree
  · rw [List.find?_cons_of_neg (by rw [htaken]; exact Bool.false_ne_true), List.find?_map]
    obtain ⟨m, rfl⟩ := haligned
    have hbound : num24 * m + num24 - 1 ≤ 254 := by
      rw [blockFree, Bool.and_eq_true, decide_eq_true_iff] at hfree
      exact hfree.1
    have hm : m < 255 := by
      have hle : m ≤ num24 * m := Nat.le_mul_of_pos_left m hpos
      omega
    have hfind : (List.range 255).find? (blockFree num24 base mirrorBase used ∘ (· * num24)) = some m := by
      rw [List.find?_range_eq_some]
      refine ⟨?_, List.mem_range.2 hm, fun m' hm' => ?_⟩
      · rw [Function.comp_apply, mul_comm]
        exact hfree
      · rw [Function.comp_apply, hlower _ (Nat.dvd_mul_left num24 m') ?_]
        · rfl
        · rw [mul_comm]
          exact Nat.mul_lt_mul_of_pos_left hm' hpos
    rw [hfind, Option.map_some, mul_comm]

/-- The ranges assigned to an inbound that stays put. -/
theorem StaysPut.ranges (hstays : StaysPut pool i) {first n : ℕ}
    (hranges : i.ranges = blockRanges (protocolBase i.protocol) first n)
    (hb : Block (protocolBase i.protocol) none (usedVpnSubnets pool i.id) first n) {ranges : List Range}
    (h : normalizeBlockRanges i.id (slotCount i.slots) (blockSize i.protocol i.userLimit)
      (protocolBase i.protocol) none (usedVpnSubnets pool i.id) i.ranges = .ok ranges) :
    ∃ n', n ≤ n' ∧ ranges = blockRanges (protocolBase i.protocol) first n' := by
  have hpos : 0 < num24For (blockSize i.protocol i.userLimit) (slotCount i.slots) := by
    obtain ⟨k, hk⟩ := num24For_eq (blockSize i.protocol i.userLimit) (slotCount i.slots)
    rw [hk]
    exact Nat.two_pow_pos k
  unfold StaysPut at hstays
  simp only [hranges, headD_thirds _ _ hb.pos, length_thirds] at hstays
  unfold normalizeBlockRanges at h
  simp only [hranges] at h
  by_cases hdo : num24For (blockSize i.protocol i.userLimit) (slotCount i.slots) ≤ n
  · rw [keepOwnedBlock_of_block hb hdo] at h
    exact ⟨n, le_rfl, (Except.ok.inj h).symm⟩
  · have houtgrown : keepOwnedBlock (blockRanges (protocolBase i.protocol) first n)
        (num24For (blockSize i.protocol i.userLimit) (slotCount i.slots)) (protocolBase i.protocol) none
        (usedVpnSubnets pool i.id) = none := by
      unfold keepOwnedBlock
      simp only [length_thirds]
      rw [if_pos (Or.inl (not_le.1 hdo))]
    rw [houtgrown] at h
    rcases hstays with hle | hnone | ⟨hfree, haligned, horder⟩
    · exact absurd hle hdo
    · rw [allocateAlignedBlock_none hnone] at h
      cases h
    · rw [allocateAlignedBlock_first hpos hfree haligned horder] at h
      exact ⟨_, (not_le.1 hdo).le, (Except.ok.inj h).symm⟩

/-- The block of an inbound of a pool, apart from what the others use. -/
theorem Laid.block (hlaid : Laid pool) (hi : i ∈ pool.rows) (hwgc : i.protocol = .wgc) :
    ∃ first n, i.ranges = blockRanges (protocolBase i.protocol) first n ∧
      Block (protocolBase i.protocol) none (usedVpnSubnets pool i.id) first n := by
  have hshaped := hlaid.shaped i hi
  obtain ⟨first, n, hranges, hpow, haligned, hbound⟩ := hshaped.block (by rw [hwgc]; rfl)
  refine ⟨first, n, hranges, hpow, haligned, hbound, fun d hd => ?_⟩
  have hown : (⟨10, protocolBase i.protocol, first + d⟩ : Subnet) ∈ ownedSubnets i := by
    rw [ownedSubnets, inboundRanges_eq hshaped, hranges, subnetsOf_blockRanges, List.mem_flatMap]
    exact ⟨_, List.mem_map.2 ⟨d, List.mem_range.2 hd, rfl⟩, List.mem_cons_self⟩
  rw [thirdFree, Bool.and_eq_true, decide_eq_true_iff]
  refine ⟨fun hused => ?_, rfl⟩
  obtain ⟨j, hj, hne, hs⟩ := mem_usedVpnSubnets.1 hused
  exact hlaid.apart j hj i hi hne _ hs hown

theorem Laid.grown (hlaid : Laid pool) (hi : i ∈ pool.rows) (hwgc : i.protocol = .wgc) : Grown i i := by
  obtain ⟨first, n, hranges, hb⟩ := hlaid.block hi hwgc
  exact ⟨rfl, rfl, first, n, n, hranges, hranges, hb.pos, le_rfl⟩

theorem Grown.trans {k : VpnInbound} (h : Grown i j) (h' : Grown j k) : Grown i k := by
  obtain ⟨first, n, n', hi, hj, hpos, hle⟩ := h.block
  obtain ⟨first', m, m', hj', hk, hpos', hle'⟩ := h'.block
  rw [h.protocol] at hj' hk
  have hsame : blockRanges (protocolBase i.protocol) first n' = blockRanges (protocolBase i.protocol) first' m :=
    hj.symm.trans hj'
  have hn : n' = m := by
    have hlength := congrArg (fun l => (ovpnThirds l).length) hsame
    simpa only [length_thirds] using hlength
  have hfirst : first = first' := by
    have hhead := congrArg (fun l => (ovpnThirds l).headD 0) hsame
    simpa only [headD_thirds _ _ (hpos.trans_le hle), headD_thirds _ _ hpos'] using hhead
  subst hn hfirst
  exact ⟨h'.protocol.trans h.protocol, h'.userLimit.trans h.userLimit, first, n, m', hi, hk, hpos,
    hle.trans hle'⟩

/-- A step leaves the inbound with its block where it was, or it is gone. -/
theorem step_grown {id : ℕ} {e : PoolEvent} (hlaid : Laid pool) (hok : Unmoved id pool e)
    (hwgc : ∀ i, pool.find? id = some i → i.protocol = .wgc) (hj : (pool.step e).find? id = some j) :
    ∃ i, pool.find? id = some i ∧ Grown i j := by
  obtain ⟨hmem, rfl⟩ := Table.find?_some hj
  have hold : ∀ i ∈ pool.rows, i.id = j.id → i.protocol = .wgc := fun i hi hid =>
    hwgc i (hid ▸ Table.find?_of_mem hi)
  cases step_written hlaid hmem with
  | kept h => exact ⟨j, Table.find?_of_mem h, hlaid.grown h (hold j h rfl)⟩
  | accounts i h slots he hi =>
      subst hi
      obtain ⟨first, n, hranges, hb⟩ := hlaid.block h (hold i h rfl)
      exact ⟨i, Table.find?_of_mem h, rfl, rfl, first, n, n, hranges, hranges, hb.pos, le_rfl⟩
  | added form ranges hid he hvpn hranges hi =>
      subst he
      exact absurd rfl hok
  | updated i h form ranges he hvpn hranges hi =>
      have hid : j.id = i.id := by rw [hi]; rfl
      have hfind : pool.find? j.id = some i := hid ▸ Table.find?_of_mem h
      have hprotocol := hold i h hid.symm
      have hform : form.protocol = i.protocol ∧ form.userLimit = i.userLimit ∧
          form.posted.filterMap (·.value) = i.ranges ∧ StaysPut pool { i with slots := form.slots } := by
        rcases he with rfl | ⟨rfl, rfl⟩
        · exact hok hid.symm i hfind
        · exact ⟨rfl, rfl, form_ranges i, hok hid.symm i hfind⟩
      obtain ⟨hsame, hlimit, hposted, hstays⟩ := hform
      obtain ⟨first, n, hblock, hb⟩ := hlaid.block h hprotocol
      unfold normalizeRanges at hranges
      simp only [hsame, hlimit, hposted] at hranges
      rw [if_neg (by rw [hprotocol]; decide), if_neg (by rw [hprotocol]; decide)] at hranges
      obtain ⟨n', hle, rfl⟩ := StaysPut.ranges (i := { i with slots := form.slots }) hstays hblock hb hranges
      refine ⟨i, hfind, ?_, ?_, first, n, n', hblock, ?_, hb.pos, hle⟩
      · rw [hi]
        exact hsame
      · rw [hi]
        exact hlimit
      · rw [hi]
        rfl

end Assigning

/-! ## Every run -/

theorem laid_run (events : List PoolEvent) : Laid (run Pool.step Table.empty events) := by
  have hall : AllSteps Pool.step (fun _ _ => True) Table.empty events := AllSteps.of_forall (fun _ _ => trivial) _ _
  exact hall.invariant (fun _ _ hlaid _ => hlaid.step) laid_empty _ (run_mem_states _ _)

/-- What is kept of an inbound once a pool holds it. -/
def Kept (i : VpnInbound) (pool : Pool) : Prop :=
  Laid pool ∧ ∀ j, pool.find? i.id = some j → Grown i j

theorem Kept.step {i : VpnInbound} (hwgc : i.protocol = .wgc) {pool : Pool} {e : PoolEvent} (hkept : Kept i pool)
    (hok : Unmoved i.id pool e) : Kept i (pool.step e) := by
  refine ⟨hkept.1.step, fun j hj => ?_⟩
  have hprotocol : ∀ k, pool.find? i.id = some k → k.protocol = .wgc := fun k hk =>
    (hkept.2 k hk).protocol.trans hwgc
  obtain ⟨k, hk, hgrown⟩ := step_grown hkept.1 hok hprotocol hj
  exact (hkept.2 k hk).trans hgrown

/-- In every run in which the block of an inbound stays put, an account keeps the block and
the device addresses it was handed.  Every block that is assigned is contiguous, aligned, on
/24s nobody uses, and large enough up to the cap. -/
theorem handed_out_address_stays (before events : List PoolEvent)
    (inboundId clientCount userLimit base : ℕ) (mirrorBase : Option ℕ) (used : List Subnet)
    (current ranges : List Range) :
    (∀ i : VpnInbound,
      (run Pool.step Table.empty before).find? i.id = some i → i.protocol = .wgc →
      AllSteps Pool.step (Unmoved i.id) (run Pool.step Table.empty before) events →
      ∀ pool ∈ states Pool.step (run Pool.step Table.empty before) events,
      ∀ j, pool.find? i.id = some j → ∀ slot : ℕ,
        (∀ b, wgcAccountBlock i slot = some b → wgcAccountBlock j slot = some b) ∧
          (wgcDeviceIPs i slot ≠ [] → wgcDeviceIPs j slot = wgcDeviceIPs i slot)) ∧
    (normalizeBlockRanges inboundId clientCount userLimit base mirrorBase used current = .ok ranges →
      ∃ first n, ranges = blockRanges base first n ∧ (∃ k, n = 2 ^ k) ∧ n ∣ first ∧ first + n ≤ 255 ∧
        (∀ d < n, (⟨10, base, first + d⟩ : Subnet) ∉ used ∧
          ∀ mirror ∈ mirrorBase, (⟨10, mirror, first + d⟩ : Subnet) ∉ used) ∧
        (clientCount ≤ n * accountsPerSubnet userLimit ∨ 64 ≤ n)) := by
  refine ⟨fun i hi hwgc hok pool hpool j hj slot => ?_, fun h => ?_⟩
  · have hlaid := laid_run before
    have hstart : Kept i (run Pool.step Table.empty before) := by
      refine ⟨hlaid, fun j hj => ?_⟩
      obtain rfl := Option.some.inj (hi.symm.trans hj)
      exact hlaid.grown (Table.find?_some hi).1 hwgc
    have hgrown := (hok.invariant (fun _ _ hkept hok => hkept.step hwgc hok) hstart pool hpool).2 j hj
    exact ⟨fun b hb => hgrown.wgcAccountBlock_eq hb, hgrown.wgcDeviceIPs_eq⟩
  · obtain ⟨first, n, hranges, hb, henough⟩ := normalizeBlockRanges_ok h
    refine ⟨first, n, hranges, hb.pow, hb.aligned, hb.bound, fun d hd => ?_, henough⟩
    have hfree := hb.free d hd
    rw [thirdFree, Bool.and_eq_true, decide_eq_true_iff] at hfree
    refine ⟨hfree.1, fun mirror hmirror => ?_⟩
    rw [Option.mem_def.1 hmirror] at hfree
    simpa using hfree.2

/-- Two gateway inbounds of four devices an account. -/
def stableBefore : List PoolEvent :=
  [.add 1 { protocol := .wgc, userLimit := some 4 },
    .add 2 { protocol := .wgc, userLimit := some 4, slots := [0, 1] }]

def stableEvents : List PoolEvent :=
  [.accounts 2 [0, 1, 2], .reconcile 2, .delete 1, .reconcile 2, .accounts 2 [0, 2], .reconcile 2]

/-- The second of them, as it was added. -/
def stableInbound : VpnInbound :=
  { id := 2, protocol := .wgc, userLimit := some 4, ranges := blockRanges 7 1 1, slots := [0, 1] }

theorem stableInbound_address_stays :
    wgcDeviceIPs stableInbound 0 = [⟨⟨10, 7, 1⟩, 4⟩, ⟨⟨10, 7, 1⟩, 5⟩, ⟨⟨10, 7, 1⟩, 6⟩, ⟨⟨10, 7, 1⟩, 7⟩] ∧
      ∀ pool ∈ states Pool.step (run Pool.step Table.empty stableBefore) stableEvents,
        ∀ j, pool.find? 2 = some j → wgcDeviceIPs j 0 = wgcDeviceIPs stableInbound 0 := by
  refine ⟨by decide +kernel, fun pool hpool j hj => ?_⟩
  have hok : AllSteps Pool.step (Unmoved stableInbound.id) (run Pool.step Table.empty stableBefore)
      stableEvents := by
    have hkept : ∀ events : List PoolEvent,
        (∀ i ∈ (run Pool.step Table.empty (stableBefore ++ events)).find? 2,
          num24For (blockSize i.protocol i.userLimit) (slotCount i.slots) ≤ (ovpnThirds i.ranges).length) →
        Unmoved stableInbound.id (run Pool.step Table.empty (stableBefore ++ events)) (.reconcile 2) :=
      fun events h _ i hi => Or.inl (h i hi)
    exact ⟨trivial, hkept [.accounts 2 [0, 1, 2]] (by decide +kernel), trivial,
      hkept [.accounts 2 [0, 1, 2], .reconcile 2, .delete 1] (by decide +kernel), trivial,
      hkept [.accounts 2 [0, 1, 2], .reconcile 2, .delete 1, .reconcile 2, .accounts 2 [0, 2]]
        (by decide +kernel), trivial⟩
  obtain ⟨hstays, -⟩ := handed_out_address_stays stableBefore stableEvents 2 2 4 7 none [] [] []
  exact (hstays stableInbound (by decide +kernel) rfl hok pool hpool j hj 0).2 (by decide +kernel)

/-- An inbound of sixty-four devices an account, that outgrows its /24. -/
def grownEvents : List PoolEvent := [.accounts 5 [0, 1, 2], .reconcile 5]

/-- The first account had 10.7.0.64/26; with a third account it has 10.7.4.64/26. -/
theorem grown_block_moves :
    ¬∀ (before events : List PoolEvent) (i : VpnInbound),
      (run Pool.step Table.empty before).find? i.id = some i → i.protocol = .wgc →
      (∀ e ∈ events, (∃ id slots, e = .accounts id slots) ∨ ∃ id, e = .reconcile id) →
      ∀ pool ∈ states Pool.step (run Pool.step Table.empty before) events,
      ∀ j, pool.find? i.id = some j → ∀ slot ∈ i.slots, slot ∈ j.slots →
        ∀ b, wgcAccountBlock i slot = some b → wgcAccountBlock j slot = some b := by
  intro h
  have hmoved := h [.add 5 { protocol := .wgc, userLimit := some 64, slots := [0] }] grownEvents
    { id := 5, protocol := .wgc, userLimit := some 64, ranges := blockRanges 7 0 1, slots := [0] }
    (by decide +kernel) rfl (by simp [grownEvents]) _ (run_mem_states _ _)
    { id := 5, protocol := .wgc, userLimit := some 64, ranges := blockRanges 7 4 2, slots := [0, 1, 2] }
    (by decide +kernel) 0 (by decide) (by decide) (⟨⟨10, 7, 0⟩, 64⟩, 26) (by decide +kernel)
  revert hmoved
  decide +kernel

end Simorgh.Vpn
