import Simorgh.Vpn.Ranges

/-!
# Aligned blocks

What `normalizeBlockRanges` returns: a contiguous block of /24s, a power of two of
them, aligned to its own size, on /24s nobody else uses, and large enough.

* `Block` — such a block.
* `normalizeBlockRanges_ok` — what is returned is one.
* `subnetsOf_blockRanges`, `ovpnThirds_blockRanges` — what it reads back as.
-/

namespace Simorgh.Vpn

open Simorgh.Lib Simorgh.Panel

/-! ## Lists without repetition -/

theorem nodup_eraseDups {α : Type} [DecidableEq α] (l : List α) : l.eraseDups.Nodup := by
  induction hn : l.length using Nat.strong_induction_on generalizing l with
  | _ n ih =>
      cases l with
      | nil => simp
      | cons a l =>
          rw [List.eraseDups_cons, List.nodup_cons]
          refine ⟨fun hmem => ?_, ih _ ?_ _ rfl⟩
          · have hmem := List.of_mem_filter (List.mem_eraseDups.1 hmem)
            simp at hmem
          · rw [← hn, List.length_cons]
            exact Nat.lt_succ_of_le (List.length_filter_le _ _)

theorem eraseDups_of_nodup {α : Type} [DecidableEq α] {l : List α} (h : l.Nodup) : l.eraseDups = l := by
  induction l with
  | nil => simp
  | cons a l ih =>
      rw [List.nodup_cons] at h
      have hfilter : (l.filter fun b => !b == a) = l := by
        refine List.filter_eq_self.2 fun b hb => ?_
        have hne : b ≠ a := fun hba => h.1 (hba ▸ hb)
        simpa using hne
      rw [List.eraseDups_cons, hfilter, ih h.2]

theorem nodup_subnetsOf (ranges : List Range) : (subnetsOf ranges).Nodup := nodup_eraseDups _

theorem mem_subnetsOf {ranges : List Range} {s : Subnet} :
    s ∈ subnetsOf ranges ↔ ∃ r ∈ ranges, r.subnet = s := by
  rw [subnetsOf, List.mem_eraseDups, List.mem_map]

/-! ## Reading a block back -/

section Reading

variable (base first n : ℕ)

theorem blockRanges_subnets :
    (blockRanges base first n).map (·.subnet) = (List.range n).map fun d => (⟨10, base, first + d⟩ : Subnet) := by
  rw [blockRanges, List.map_map]
  rfl

theorem subnetsOf_blockRanges :
    subnetsOf (blockRanges base first n) = (List.range n).map fun d => (⟨10, base, first + d⟩ : Subnet) := by
  rw [subnetsOf, blockRanges_subnets]
  refine eraseDups_of_nodup (List.nodup_range.map fun d d' h => ?_)
  simpa using h

theorem ovpnThirds_blockRanges :
    ovpnThirds (blockRanges base first n) = (List.range n).map (first + ·) := by
  have hthirds : (subnetsOf (blockRanges base first n)).map (·.c) = (List.range n).map (first + ·) := by
    rw [subnetsOf_blockRanges, List.map_map]
    rfl
  have hnodup : ((List.range n).map (first + ·)).Nodup :=
    List.nodup_range.map fun d d' h => by simpa using h
  have hsorted : ((List.range n).map (first + ·)).Pairwise (· ≤ ·) := by
    rw [List.pairwise_map]
    exact List.pairwise_lt_range.imp fun hlt => by omega
  rw [ovpnThirds, hthirds, eraseDups_of_nodup hnodup]
  exact hsorted.insertionSort_eq

theorem rangeCapacity_blockRanges : rangeCapacity (blockRanges base first n) = 253 * n := by
  have hcapacity : (blockRanges base first n).map Range.capacity = List.replicate n 253 := by
    rw [blockRanges, List.map_map]
    refine (List.map_congr_left (g := fun _ => 253) fun d _ => rfl).trans ?_
    rw [List.map_const', List.length_range]
  rw [rangeCapacity, hcapacity, List.sum_replicate_nat, mul_comm]

end Reading

/-! ## What is returned -/

/-- An aligned block of /24s that nobody uses. -/
structure Block (base : ℕ) (mirrorBase : Option ℕ) (used : List Subnet) (first n : ℕ) : Prop where
  pow : ∃ k, n = 2 ^ k
  aligned : n ∣ first
  bound : first + n ≤ 255
  free : ∀ d < n, thirdFree base mirrorBase used (first + d) = true

variable {base : ℕ} {mirrorBase : Option ℕ} {used : List Subnet}

theorem Block.pos {first n : ℕ} (h : Block base mirrorBase used first n) : 0 < n := by
  obtain ⟨k, rfl⟩ := h.pow
  exact Nat.two_pow_pos k

theorem num24For_eq (userLimit clientCount : ℕ) : ∃ k, num24For userLimit clientCount = 2 ^ k := by
  unfold num24For
  simp only
  generalize hn : doubleUntil _ _ 1 = n
  obtain ⟨k, hk⟩ : ∃ k, n = 2 ^ k * 1 := hn ▸ doubleUntil_eq _ _
  rw [mul_one] at hk
  by_cases h : n ≤ 64
  · exact ⟨k, by rw [min_eq_left h, hk]⟩
  · exact ⟨6, by rw [min_eq_right (by omega)]; rfl⟩

theorem one_le_accountsPerSubnet (k : ℤ) : 1 ≤ accountsPerSubnet k := by
  have hbound : normUserLimit k ≤ 64 := by
    unfold normUserLimit noLimitDevices maxUserLimit
    split
    · omega
    · split
      · omega
      · split <;> omega
  unfold accountsPerSubnet
  split
  · omega
  · have hdiv : 255 / 64 ≤ 255 / normUserLimit k := by
      rcases Nat.eq_zero_or_pos (normUserLimit k) with hzero | hpos
      · exfalso
        unfold normUserLimit noLimitDevices maxUserLimit at hzero
        split at hzero
        · omega
        · split at hzero
          · omega
          · split at hzero <;> omega
      · exact Nat.div_le_div_left hbound hpos
    omega

/-- The block is large enough, or as large as blocks get. -/
theorem num24For_enough (userLimit clientCount : ℕ) :
    clientCount ≤ num24For userLimit clientCount * accountsPerSubnet userLimit ∨
      num24For userLimit clientCount = 64 := by
  have hper := one_le_accountsPerSubnet userLimit
  have henough : ∀ q, max clientCount 1 ≤ q →
      decide (max clientCount 1 ≤ q * accountsPerSubnet userLimit) = true := fun q hq =>
    decide_eq_true (hq.trans (Nat.le_mul_of_pos_right q hper))
  have hreach : max clientCount 1 ≤ 2 ^ (max clientCount 1) * 1 := by
    rw [mul_one]
    exact Nat.lt_two_pow_self.le
  have hdone := of_decide_eq_true (doubleUntil_enough henough hreach)
  unfold num24For
  simp only
  generalize doubleUntil _ _ 1 = n at *
  by_cases h : n ≤ 64
  · rw [min_eq_left h]
    exact Or.inl ((le_max_left _ _).trans hdone)
  · exact Or.inr (min_eq_right (by omega))

/-- A block that is kept. -/
theorem keepOwnedBlock_block {current : List Range} {num24 first n : ℕ} (hnum24 : 0 < num24)
    (h : keepOwnedBlock current num24 base mirrorBase used = some (first, n)) :
    Block base mirrorBase used first n ∧ num24 ≤ n ∧
      ovpnThirds current = (List.range n).map (first + ·) := by
  unfold keepOwnedBlock at h
  simp only at h
  split at h
  · cases h
  rename_i hsize
  split at h
  · cases h
  rename_i haligned
  split at h
  · rename_i hall
    cases h
    rw [not_or, not_lt, not_not] at hsize
    obtain ⟨hlarge, hpow⟩ := hsize
    have hthird : ∀ d, ∀ hd : d < (ovpnThirds current).length,
        (ovpnThirds current)[d] = (ovpnThirds current).headD 0 + d ∧ (ovpnThirds current)[d] ≤ 254 ∧
          thirdFree base mirrorBase used (ovpnThirds current)[d] = true := by
      intro d hd
      have hmem : ((ovpnThirds current)[d], d) ∈ (ovpnThirds current).zipIdx :=
        List.mem_zipIdx_iff_getElem?.2 (by simp [hd])
      simpa [and_assoc] using List.all_eq_true.1 hall _ hmem
    have hpos : 0 < (ovpnThirds current).length := lt_of_lt_of_le hnum24 hlarge
    refine ⟨⟨?_, ?_, ?_, ?_⟩, hlarge, ?_⟩
    · exact (Nat.and_sub_one_eq_zero_iff_isPowerOfTwo hpos.ne').1 hpow
    · exact Nat.dvd_of_mod_eq_zero (not_not.1 haligned)
    · have hlast := hthird ((ovpnThirds current).length - 1) (by omega)
      omega
    · intro d hd
      have h := hthird d hd
      rw [← h.1]
      exact h.2.2
    · refine List.ext_getElem (by simp) fun d hd hd' => ?_
      rw [(hthird d hd).1]
      simp
  · cases h

/-- A block that is allocated. -/
theorem allocateAlignedBlock_block {id num24 first : ℕ} (hnum24 : ∃ k, num24 = 2 ^ k)
    (h : allocateAlignedBlock id num24 base mirrorBase used = some first) :
    Block base mirrorBase used first num24 := by
  have hpos : 0 < num24 := by
    obtain ⟨k, rfl⟩ := hnum24
    exact Nat.two_pow_pos k
  have hfree := List.find?_some h
  have hmem := List.mem_of_find?_eq_some h
  rw [blockFree, Bool.and_eq_true, decide_eq_true_iff, List.all_eq_true] at hfree
  refine ⟨hnum24, ?_, by omega, fun d hd => hfree.2 d (List.mem_range.2 hd)⟩
  rcases List.mem_cons.1 hmem with rfl | hmem
  · exact Nat.dvd_mul_left num24 _
  · obtain ⟨m, -, rfl⟩ := List.mem_map.1 hmem
    exact Nat.dvd_mul_left num24 m

/-- Every block that is returned is contiguous, aligned, free and large enough. -/
theorem normalizeBlockRanges_ok {inboundId clientCount userLimit : ℕ} {current ranges : List Range}
    (h : normalizeBlockRanges inboundId clientCount userLimit base mirrorBase used current = .ok ranges) :
    ∃ first n, ranges = blockRanges base first n ∧ Block base mirrorBase used first n ∧
      (clientCount ≤ n * accountsPerSubnet userLimit ∨ 64 ≤ n) := by
  have hpow := num24For_eq userLimit clientCount
  have henough := num24For_enough userLimit clientCount
  unfold normalizeBlockRanges at h
  simp only at h
  split at h
  · rename_i first n hkeep
    cases h
    have hpos : 0 < num24For userLimit clientCount := by
      obtain ⟨k, hk⟩ := hpow
      rw [hk]
      exact Nat.two_pow_pos k
    obtain ⟨hblock, hlarge, -⟩ := keepOwnedBlock_block hpos hkeep
    refine ⟨first, n, rfl, hblock, ?_⟩
    rcases henough with hle | hcap
    · exact Or.inl (hle.trans (Nat.mul_le_mul_right _ hlarge))
    · exact Or.inr (hcap ▸ hlarge)
  · split at h
    · rename_i first hallocate
      cases h
      exact ⟨first, _, rfl, allocateAlignedBlock_block hpow hallocate, henough.imp_right fun heq => heq.ge⟩
    · cases h

end Simorgh.Vpn
