import Mathlib.Algebra.Order.Archimedean.Basic
import Simorgh.Lib.Float64
import Simorgh.Tunnel.RateLimit
import Simorgh.Tunnel.Receive

/-!
# A packet the cap never lets through

The bucket holds one second of the configured rate at most.  A packet that is longer than
that can wait for as long as it likes.

* `ieee` — float64 as the numbers of a bucket.
* `waitLoop` — the rounds of `wait` of a caller that has the bucket to itself.
* `Holds.refill` — a refill brings half of what the time is worth, or fills the bucket.
* `waitLoop_exits` — a packet that fits is let through by the first look two seconds later,
  if not before.
* `wait_exits_iff` — the cap lets a packet through exactly when it fits the bucket.
-/

namespace Simorgh.Tunnel

open Simorgh.Lib

/-! ## What is sent -/

/-- What `seal` adds at the end of the ciphertext. -/
def gcmOverhead : ℕ := 16

/-- The length of `sealed` and of `psealed` in `sendData`, which is what it asks `wait` for. -/
def Packet.sealedLength (p : Packet) : ℕ := nonceSize + p.plain.length + gcmOverhead

/-- A packet that goes out when a sink reader has read a frame. -/
def OnDataPath (p : Packet) : Prop :=
  ∃ (fecEnc : Option FecEncoder) (frame : Bytes),
    frame.length ≤ maxSinkReadSize ∧ p ∈ (sendData fecEnc frame).2

theorem Packet.sealedLength_data (groupID : UInt32) (index groupSize : ℕ) (frame : Bytes) :
    (Packet.data groupID index groupSize frame).sealedLength = frame.length + 7 + 28 := by
  simp only [sealedLength, plain, putUint32, nonceSize, gcmOverhead, List.length_cons, List.length_append,
    List.length_nil]
  omega

theorem Packet.sealedLength_parity (groupID : UInt32) (groupSize : ℕ) (slot : Bytes) :
    (Packet.parity groupID groupSize slot).sealedLength = slot.length + 6 + 28 := by
  simp only [sealedLength, plain, putUint32, nonceSize, gcmOverhead, List.length_cons, List.length_append,
    List.length_nil]
  omega

/-- The longest packet is a parity. -/
theorem OnDataPath.sealedLength_le {p : Packet} (h : OnDataPath p) :
    p.sealedLength ≤ fecSlotSize + 6 + 28 := by
  obtain ⟨fecEnc, frame, hframe, hp⟩ := h
  have hdata : ∀ groupID index groupSize,
      (Packet.data groupID index groupSize frame).sealedLength ≤ fecSlotSize + 6 + 28 := by
    intro groupID index groupSize
    rw [Packet.sealedLength_data]
    unfold maxSinkReadSize at hframe
    unfold fecSlotSize
    omega
  cases fecEnc with
  | none =>
      simp only [sendData, List.mem_singleton] at hp
      subst hp
      exact hdata 0 0 0
  | some enc =>
      simp only [sendData, sendGrouped] at hp
      split at hp
      · simp only [List.mem_cons, List.not_mem_nil, or_false] at hp
        rcases hp with rfl | rfl
        · exact hdata _ _ _
        · rw [Packet.sealedLength_parity, FecEncoder.flushParity, List.length_ofFn]
      · simp only [List.mem_singleton] at hp
        subst hp
        exact hdata _ _ _

/-- The parity of a group of two empty frames. -/
def emptyParity : Packet := .parity 1 2 (List.ofFn (Slot.xor (Slot.xor Slot.zero (Slot.ofFrame [])) (Slot.ofFrame [])))

theorem emptyParity_onDataPath : OnDataPath emptyParity :=
  ⟨some ((newFECEncoder 2).add []).1, [], Nat.zero_le _, List.mem_cons_of_mem _ (List.mem_singleton_self _)⟩

theorem sealedLength_emptyParity : emptyParity.sealedLength = fecSlotSize + 6 + 28 := by
  rw [emptyParity, Packet.sealedLength_parity, List.length_ofFn]

/-! ## The numbers of the machine -/

/-- float64, with the conversions of `wait`. -/
def ieee : Arith Double where
  ofNat n := .ofRat n
  add := .add
  sub := .sub
  mul := .mul
  div := .div
  lt := Double.lt
  le := Double.le
  seconds d := (Double.ofRat ⌊d⌋).add ((Double.ofRat ((d - ⌊d⌋) * 10 ^ 9)).div (.ofRat (10 ^ 9)))
  sleep q := max 0 ((q.mul (.ofRat (10 ^ 9))).toInt64 / 10 ^ 9)

/-- What the clock shows: a whole number of nanoseconds. -/
def Nanos (t : ℚ) : Prop := ∃ k : ℤ, t = k / 10 ^ 9

theorem Nanos.sub {s t : ℚ} (hs : Nanos s) (ht : Nanos t) : Nanos (t - s) := by
  obtain ⟨k, rfl⟩ := hs
  obtain ⟨l, rfl⟩ := ht
  exact ⟨l - k, by push_cast; ring⟩

theorem seconds_zero : ieee.seconds 0 = .num 0 := by decide +kernel

/-- At most two parts in `2^53` of a time are lost. -/
theorem atLeast_seconds {e : ℚ} (he : Nanos e) (hpos : 0 < e) :
    (ieee.seconds e).AtLeast (e * (1 - 1 / 2 ^ 53) * (1 - 1 / 2 ^ 53)) := by
  obtain ⟨k, hk⟩ := he
  have hmod : (e - ⌊e⌋) * 10 ^ 9 = ((k % 10 ^ 9).toNat : ℚ) := by
    have hdiv : ⌊e⌋ = k / 10 ^ 9 := by
      have hfloor := Rat.floor_intCast_div_natCast k (10 ^ 9)
      rw [hk]
      exact_mod_cast hfloor
    have hnonneg : 0 ≤ k % 10 ^ 9 := Int.emod_nonneg _ (by norm_num)
    have hsplit := Int.mul_ediv_add_emod k (10 ^ 9)
    have hcast : ((k % 10 ^ 9).toNat : ℚ) = ((k % 10 ^ 9 : ℤ) : ℚ) := by
      exact_mod_cast Int.toNat_of_nonneg hnonneg
    have hsplit' : (10 ^ 9 : ℚ) * ((k / 10 ^ 9 : ℤ) : ℚ) + ((k % 10 ^ 9 : ℤ) : ℚ) = k := by
      exact_mod_cast hsplit
    rw [hcast, hdiv, hk, sub_mul, div_mul_cancel₀ _ (by norm_num)]
    linarith
  generalize (k % 10 ^ 9).toNat = nsec at hmod
  have hnsec : nsec < 2 ^ 53 := by
    have hlt : (nsec : ℚ) < 2 ^ 53 := by
      rw [← hmod]
      have hfract := Int.lt_floor_add_one e
      linarith
    exact_mod_cast hlt
  have hnormal : ∀ (q : ℚ) (n : ℕ), q * 10 ^ 9 = n → q = 0 ∨ (2 : ℚ) ^ (-1022 : ℤ) ≤ q := by
    intro q n hq
    rcases Nat.eq_zero_or_pos n with rfl | hn
    · rw [Nat.cast_zero, mul_eq_zero] at hq
      exact Or.inl (hq.resolve_right (by norm_num))
    · have hone : (1 : ℚ) ≤ n := by exact_mod_cast hn
      have hsmall : (2 : ℚ) ^ (-1022 : ℤ) ≤ 2 ^ (-30 : ℤ) := zpow_le_zpow_right₀ (by norm_num) (by norm_num)
      have hnum : (2 : ℚ) ^ (-30 : ℤ) * 10 ^ 9 ≤ 1 := by norm_num
      refine Or.inr (hsmall.trans ?_)
      linarith
  have hfloor : 0 ≤ ⌊e⌋ := Int.floor_nonneg.2 hpos.le
  obtain ⟨sec, hsec⟩ := Int.eq_ofNat_of_zero_le hfloor
  have hwhole : (Double.ofRat ⌊e⌋).AtLeast (⌊e⌋ * (1 - 1 / 2 ^ 53)) := by
    refine Double.atLeast_ofRat (hnormal _ (sec * 10 ^ 9) ?_) le_rfl
    rw [hsec]
    push_cast
    ring
  have hrest : ((Double.ofRat ((e - ⌊e⌋) * 10 ^ 9)).div (.ofRat (10 ^ 9))).AtLeast
      ((e - ⌊e⌋) * (1 - 1 / 2 ^ 53)) := by
    have hbillion : Double.ofRat (10 ^ 9) = .num (10 ^ 9) := by
      have h := Double.ofRat_natCast (n := 10 ^ 9) (by norm_num)
      push_cast at h
      exact h
    rw [hmod, Double.ofRat_natCast hnsec, hbillion, Double.div, if_neg (by norm_num), ← hmod,
      mul_div_cancel_right₀ _ (by norm_num)]
    exact Double.atLeast_ofRat (hnormal _ nsec hmod) le_rfl
  have hsum : (⌊e⌋ : ℚ) * (1 - 1 / 2 ^ 53) + (e - ⌊e⌋) * (1 - 1 / 2 ^ 53) = e * (1 - 1 / 2 ^ 53) := by ring
  rw [← hsum]
  refine hwhole.add hrest ?_
  rw [hsum]
  have hleast : (1 : ℚ) / 10 ^ 9 ≤ e := by
    have hkpos : 0 < k := by
      rw [hk] at hpos
      exact_mod_cast (div_pos_iff_of_pos_right (by norm_num)).1 hpos
    rw [hk]
    exact div_le_div_of_nonneg_right (by exact_mod_cast hkpos) (by norm_num)
  have hsmall : (2 : ℚ) ^ (-1022 : ℤ) ≤ 2 ^ (-32 : ℤ) := zpow_le_zpow_right₀ (by norm_num) (by norm_num)
  have hnum : (2 : ℚ) ^ (-32 : ℤ) ≤ 1 / 10 ^ 9 * (1 - 1 / 2 ^ 53) := by norm_num
  exact hsmall.trans (hnum.trans (mul_le_mul_of_nonneg_right hleast (by norm_num)))

/-! ## A lone caller -/

namespace TokenBucket

/-- The rounds of `wait`, by the times at which they look at the bucket: the bucket they
leave, and whether the loop is over. -/
def waitLoop (b : TokenBucket Double) (n : ℕ) : List ℚ → TokenBucket Double × Bool
  | [] => (b, false)
  | now :: looks =>
      let round := b.attempt ieee now n
      if round.2.isNone then (round.1, true) else round.1.waitLoop n looks

/-- The clock does not go back, and no round comes before the sleep of the last one is
over. -/
def Looks (b : TokenBucket Double) (n : ℕ) (earliest : ℚ) : List ℚ → Prop
  | [] => True
  | now :: looks => Nanos now ∧ earliest ≤ now ∧
      ∀ sleep ∈ (b.attempt ieee now n).2, Looks (b.attempt ieee now n).1 n (now + sleep) looks

/-- The loop is over once enough time has passed, whatever the times of its rounds. -/
def Exits (b : TokenBucket Double) (n : ℕ) : Prop :=
  ∃ enough : ℚ, ∀ looks, b.Looks n b.last looks → (∃ now ∈ looks, b.last + enough ≤ now) →
    (b.waitLoop n looks).2 = true

variable {b : TokenBucket Double} {n : ℕ} {c : ℚ}

/-- A round that does not let the packet through only refills the bucket, and asks for a
short sleep. -/
theorem attempt_cases (b : TokenBucket Double) (now : ℚ) (n : ℕ) :
    (ieee.le (ieee.ofNat n) (b.refill ieee now).tokens = true ∧ (b.attempt ieee now n).2 = none) ∨
      (ieee.le (ieee.ofNat n) (b.refill ieee now).tokens = false ∧
        ∃ sleep, b.attempt ieee now n = (b.refill ieee now, some sleep) ∧ 0 ≤ sleep ∧
          sleep ≤ 1 / 2) := by
  have hquarter : longestSleep ieee = .num (1 / 4) := by decide +kernel
  have hbillion : Double.ofRat (10 ^ 9) = .num (10 ^ 9) := by decide +kernel
  have hminInt : (minInt64 : ℚ) / 10 ^ 9 ≤ 1 / 2 := by norm_num [minInt64]
  have hshort : ∀ x : Double, ieee.sleep (if ieee.lt (longestSleep ieee) x then longestSleep ieee else x)
      ≤ 1 / 2 := by
    intro x
    have hnum : ∀ s : ℚ, s ≤ 1 / 4 → ieee.sleep (.num s) ≤ 1 / 2 := by
      intro s hs
      have hround : float64 (s * 10 ^ 9) ≤ 5 * 10 ^ 8 := by
        rcases le_total 0 s with hpos | hneg
        · refine (float64_le_two_mul (mul_nonneg hpos (by norm_num))).trans ?_
          linarith
        · refine (float64_nonpos (mul_nonpos_of_nonpos_of_nonneg hneg (by norm_num))).trans (by norm_num)
      have hint : ((Double.mul (.num s) (.ofRat (10 ^ 9))).toInt64 : ℚ) / 10 ^ 9 ≤ 1 / 2 := by
        rw [hbillion]
        simp only [Double.mul, Double.ofRat]
        split
        · simp only [Double.toInt64, floatToInt64]
          split
          · have htruncate : (truncate (float64 (s * 10 ^ 9)) : ℚ) ≤ 5 * 10 ^ 8 := by
              unfold truncate
              split
              · exact (Int.floor_le _).trans hround
              case isFalse hneg =>
                have hceil : ⌈float64 (s * 10 ^ 9)⌉ ≤ 0 := Int.ceil_le.2 (by simpa using (not_le.1 hneg).le)
                have hcast : ((⌈float64 (s * 10 ^ 9)⌉ : ℤ) : ℚ) ≤ 0 := by exact_mod_cast hceil
                linarith
            rw [div_le_iff₀ (by norm_num)]
            exact htruncate.trans (by norm_num)
          · exact hminInt
        · exact hminInt
      exact max_le (by norm_num) hint
    rw [hquarter]
    split
    · exact hnum _ le_rfl
    case isFalse hle =>
      cases x with
      | num s => exact hnum s (not_lt.1 (by simpa [ieee, Double.lt] using hle))
      | inf negative =>
          cases negative with
          | false => exact absurd (show Double.lt (.num (1 / 4)) (.inf false) = true from rfl) hle
          | true =>
              have : ieee.sleep (.inf true) = max 0 ((minInt64 : ℚ) / 10 ^ 9) := by
                simp only [ieee, hbillion, Double.mul]
                norm_num [Double.toInt64]
              rw [this]
              exact max_le (by norm_num) hminInt
      | nan =>
          have : ieee.sleep .nan = max 0 ((minInt64 : ℚ) / 10 ^ 9) := rfl
          rw [this]
          exact max_le (by norm_num) hminInt
  unfold attempt
  cases hpaid : ieee.le (ieee.ofNat n) (b.refill ieee now).tokens with
  | true => exact Or.inl ⟨rfl, by simp [hpaid]⟩
  | false =>
      exact Or.inr ⟨rfl, _, if_neg (by rw [hpaid]; exact Bool.false_ne_true), le_max_left _ _, hshort _⟩

/-! ### A packet that is too long -/

/-- A packet that is longer than what the bucket can hold is never let through. -/
theorem waitLoop_stalls (hc : b.capacity = .num c) (hn : c < n) (hlt : n < 2 ^ 53) (looks : List ℚ) :
    (b.waitLoop n looks).2 = false := by
  induction looks generalizing b with
  | nil => rfl
  | cons now looks ih =>
      have hshort : ieee.le (ieee.ofNat n) (b.refill ieee now).tokens = false := by
        simp only [ieee, refill, hc, Double.ofRat_natCast hlt]
        generalize (Double.add b.tokens _) = tokens
        cases tokens with
        | num t =>
            by_cases hfull : c < t
            · simp [Double.le, Double.lt, hfull, hn]
            · simp [Double.le, Double.lt, hfull, (not_lt.1 hfull).trans_lt hn]
        | inf negative => cases negative <;> simp [Double.le, Double.lt, hn]
        | nan => rfl
      rcases attempt_cases b now n with ⟨hpaid, -⟩ | ⟨-, sleep, hround, -, -⟩
      · rw [hshort] at hpaid
        cases hpaid
      · rw [waitLoop, hround]
        exact ih hc

/-- Rounds half a second apart. -/
def everyHalf (start : ℚ) : ℕ → List ℚ
  | 0 => [start]
  | k + 1 => start :: everyHalf (start + 1 / 2) k

theorem looks_everyHalf (b : TokenBucket Double) (n : ℕ) {earliest start : ℚ} (h : earliest ≤ start)
    (hclock : Nanos start) (k : ℕ) : b.Looks n earliest (everyHalf start k) := by
  induction k generalizing b earliest start with
  | zero => exact ⟨hclock, h, fun _ _ => trivial⟩
  | succ k ih =>
      have hnext : Nanos (start + 1 / 2) := by
        obtain ⟨l, rfl⟩ := hclock
        exact ⟨l + 5 * 10 ^ 8, by push_cast; ring⟩
      refine ⟨hclock, h, fun sleep hsleep => ih _ ?_ hnext⟩
      rcases attempt_cases b start n with ⟨-, hround⟩ | ⟨-, asked, hround, -, hasked⟩
      · rw [hround] at hsleep
        cases hsleep
      · rw [hround] at hsleep
        cases hsleep
        linarith

theorem mem_everyHalf (start : ℚ) (k : ℕ) : start + k / 2 ∈ everyHalf start k := by
  induction k generalizing start with
  | zero =>
      rw [everyHalf, Nat.cast_zero, zero_div, add_zero]
      exact List.mem_singleton_self start
  | succ k ih =>
      have hlast : start + ((k + 1 : ℕ) : ℚ) / 2 = start + 1 / 2 + k / 2 := by
        push_cast
        ring
      rw [everyHalf, hlast]
      exact List.mem_cons_of_mem _ (ih _)

/-- A loop that rounds half a second apart do not bring to an end never does. -/
theorem not_exits (hclock : Nanos b.last) (hstall : ∀ k, (b.waitLoop n (everyHalf b.last k)).2 = false) :
    ¬ b.Exits n := by
  rintro ⟨enough, hends⟩
  obtain ⟨k, hk⟩ := exists_nat_ge (enough * 2)
  have hover := hends (everyHalf b.last k) (looks_everyHalf b n (le_refl _) hclock k)
    ⟨_, mem_everyHalf b.last k, by linarith⟩
  rw [hstall] at hover
  cases hover

/-! ### A packet that fits -/

/-- A bucket of one second of a rate of at least a byte. -/
structure Holds (c : ℚ) (b : TokenBucket Double) : Prop where
  capacity : b.capacity = .num c
  fill : b.fillPerSec = .num c
  tokens : ∃ q, b.tokens = .num q ∧ 0 ≤ q ∧ q ≤ 2 * c ∧ float64 q = q ∧ FitsFloat64 q
  clock : Nanos b.last

/-- The rate as a float64, of at least a byte a second. -/
structure Rate (c : ℚ) : Prop where
  one_le : 1 ≤ c
  float : float64 c = c
  fits : FitsFloat64 c

/-- A refill brings half of what the time is worth at least, unless the bucket is full. -/
theorem Holds.refill (hc : Rate c) (h : Holds c b) {now : ℚ} (hle : b.last ≤ now) (hnow : Nanos now) :
    Holds c (b.refill ieee now) ∧ ∀ q, b.tokens = .num q →
      ∃ r, (b.refill ieee now).tokens = .num r ∧ r ≤ c ∧ min c (q + (now - b.last) * c / 2) ≤ r := by
  obtain ⟨q, hq, hq0, hq2, hfloat, hfits⟩ := h.tokens
  have hone := hc.one_le
  -- what the addition gives, before the bucket is capped
  have hsum : ∃ y, min c (q + (now - b.last) * c / 2) ≤ y ∧ 0 ≤ y ∧
      ((Double.add (.num q) (Double.mul (ieee.seconds (now - b.last)) (.num c))) = .inf false ∨
        ∃ t, Double.add (.num q) (Double.mul (ieee.seconds (now - b.last)) (.num c)) = .num t ∧
          y ≤ t ∧ float64 t = t ∧ FitsFloat64 t) := by
    rcases hle.eq_or_lt with heq | hlt
    · refine ⟨q, min_le_of_right_le (by rw [heq]; simp), hq0, Or.inr ⟨q, ?_, le_rfl, hfloat, hfits⟩⟩
      rw [heq, sub_self, seconds_zero]
      have hzero : Double.mul (.num 0) (.num c) = .num 0 := by
        rw [Double.mul, zero_mul]
        exact_mod_cast Double.ofRat_natCast (n := 0) (by norm_num)
      rw [hzero, Double.add, add_zero, Double.ofRat, if_pos hfits, hfloat]
    · have hpos : 0 < now - b.last := sub_pos.2 hlt
      have hnanos : (1 : ℚ) / 10 ^ 9 ≤ now - b.last := by
        obtain ⟨k, hk⟩ := Nanos.sub h.clock hnow
        rw [hk] at hpos ⊢
        have hkpos : 0 < k := by exact_mod_cast (div_pos_iff_of_pos_right (by norm_num)).1 hpos
        exact div_le_div_of_nonneg_right (by exact_mod_cast hkpos) (by norm_num)
      have hseconds := atLeast_seconds (Nanos.sub h.clock hnow) hpos
      generalize now - b.last = e at hpos hnanos hseconds
      have hcome : 1 / 10 ^ 9 * c ≤ e * c := mul_le_mul_of_nonneg_right hnanos (by linarith)
      have hsmall : (2 : ℚ) ^ (-1022 : ℤ) ≤ 2 ^ (-32 : ℤ) := zpow_le_zpow_right₀ (by norm_num) (by norm_num)
      have hnum : (2 : ℚ) ^ (-32 : ℤ) ≤ 1 / 10 ^ 9 * 1 * (1 - 1 / 2 ^ 53) ^ 3 := by norm_num
      have hthird : (2 : ℚ) ^ (-32 : ℤ) ≤ e * c * (1 - 1 / 2 ^ 53) ^ 3 :=
        hnum.trans (mul_le_mul_of_nonneg_right ((mul_le_mul_of_nonneg_left hone (by norm_num)).trans hcome)
          (by norm_num))
      have hmul : Double.AtLeast (e * c * (1 - 1 / 2 ^ 53) ^ 3) (Double.mul (ieee.seconds e) (.num c)) := by
        have hprod := hseconds.mul (c := c) (by linarith) (by
          refine hsmall.trans (hthird.trans ?_)
          have hless : e * c * (1 - 1 / 2 ^ 53) ^ 2 * (1 - 1 / 2 ^ 53) ≤ e * c * (1 - 1 / 2 ^ 53) ^ 2 * 1 :=
            mul_le_mul_of_nonneg_left (by norm_num) (mul_nonneg (mul_nonneg hpos.le (by linarith)) (by norm_num))
          calc e * c * (1 - 1 / 2 ^ 53) ^ 3 = e * c * (1 - 1 / 2 ^ 53) ^ 2 * (1 - 1 / 2 ^ 53) := by ring
            _ ≤ e * c * (1 - 1 / 2 ^ 53) ^ 2 * 1 := hless
            _ = e * (1 - 1 / 2 ^ 53) * (1 - 1 / 2 ^ 53) * c := by ring)
        have heq : e * (1 - 1 / 2 ^ 53) * (1 - 1 / 2 ^ 53) * c * (1 - 1 / 2 ^ 53) =
            e * c * (1 - 1 / 2 ^ 53) ^ 3 := by ring
        rwa [heq] at hprod
      have hadd := Double.AtLeast.add (Or.inr ⟨q, rfl, le_rfl⟩) hmul
        (hsmall.trans (hthird.trans (le_add_of_nonneg_left hq0)))
      have hhalf : q + e * c / 2 ≤ (q + e * c * (1 - 1 / 2 ^ 53) ^ 3) * (1 - 1 / 2 ^ 53) := by
        have hfour : (3 : ℚ) / 4 ≤ (1 - 1 / 2 ^ 53) ^ 3 * (1 - 1 / 2 ^ 53) := by norm_num
        have hgain : e * c * (3 / 4) ≤ e * c * ((1 - 1 / 2 ^ 53) ^ 3 * (1 - 1 / 2 ^ 53)) :=
          mul_le_mul_of_nonneg_left hfour (mul_nonneg hpos.le (by linarith))
        have hloss : q * (1 / 2 ^ 53) ≤ e * c / 4 := by
          have htiny : (2 : ℚ) * c * (1 / 2 ^ 53) ≤ 1 / 10 ^ 9 * c / 4 := by
            have : (2 : ℚ) * (1 / 2 ^ 53) ≤ 1 / 10 ^ 9 / 4 := by norm_num
            nlinarith
          have hq2' : q * (1 / 2 ^ 53) ≤ 2 * c * (1 / 2 ^ 53) := mul_le_mul_of_nonneg_right hq2 (by norm_num)
          linarith
        linarith
      refine ⟨q + e * c / 2, min_le_right _ _, ?_, ?_⟩
      · have : 0 ≤ e * c := mul_nonneg hpos.le (by linarith)
        linarith
      · rcases hadd with hinf | ⟨t, ht, hle⟩
        · exact Or.inl hinf
        · refine Or.inr ⟨t, ht, hhalf.trans hle, ?_⟩
          have hprod : ∃ p, Double.mul (ieee.seconds e) (.num c) = .num p := by
            rcases hmul with hinf | ⟨p, hp, -⟩
            · rw [hinf] at ht
              cases ht
            · exact ⟨p, hp⟩
          obtain ⟨p, hp⟩ := hprod
          rw [hp] at ht
          exact (Double.eq_of_ofRat ht).2
  obtain ⟨y, hmin, hy0, hsum⟩ := hsum
  -- the cap
  have hcapped : ∃ r, (b.refill ieee now).tokens = .num r ∧ 0 ≤ r ∧ r ≤ c ∧ min c y ≤ r ∧
      float64 r = r ∧ FitsFloat64 r := by
    simp only [TokenBucket.refill, ieee, h.capacity, h.fill, hq]
    rcases hsum with hinf | ⟨t, ht, hyt, hft, hfit⟩
    · refine ⟨c, ?_, by linarith, le_rfl, min_le_left _ _, hc.float, hc.fits⟩
      simp only [ieee] at hinf
      rw [hinf]
      rfl
    · simp only [ieee] at ht
      rw [ht]
      by_cases hfull : c < t
      · exact ⟨c, by simp [Double.lt, hfull], by linarith, le_rfl, min_le_left _ _, hc.float, hc.fits⟩
      · exact ⟨t, by simp [Double.lt, hfull], hy0.trans hyt, not_lt.1 hfull, min_le_of_right_le hyt, hft, hfit⟩
  obtain ⟨r, hr, hr0, hrc, hmr, hfr, hfit⟩ := hcapped
  refine ⟨⟨h.capacity, h.fill, ⟨r, hr, hr0, by linarith, hfr, hfit⟩, hnow⟩, fun q' hq' => ?_⟩
  rw [hq] at hq'
  cases hq'
  exact ⟨r, hr, hrc, (le_min (min_le_left _ _) hmin).trans hmr⟩

/-- Another caller's packet leaves a bucket of the rate. -/
theorem Holds.attempt (hc : Rate c) (h : Holds c b) {now : ℚ} (hle : b.last ≤ now) (hnow : Nanos now)
    (n : ℕ) : Holds c (b.attempt ieee now n).1 := by
  obtain ⟨hrefill, htokens⟩ := h.refill hc hle hnow
  obtain ⟨q, hq, -, -, -, -⟩ := h.tokens
  obtain ⟨r, hr, hrc, -⟩ := htokens q hq
  obtain ⟨r', hr', hr0, -, -, hfits⟩ := hrefill.tokens
  rw [hr] at hr'
  cases hr'
  unfold TokenBucket.attempt
  simp only [hr]
  split
  case isTrue hpaid =>
    refine ⟨hrefill.capacity, hrefill.fill, ?_, hrefill.clock⟩
    simp only [ieee, Double.ofRat] at hpaid ⊢
    split at hpaid
    case isTrue hn =>
      have hnr : float64 n ≤ r := by simpa [Double.le, Double.lt] using hpaid
      have hn0 : 0 ≤ float64 (n : ℚ) := float64_nonneg (Nat.cast_nonneg n)
      have hdiff : FitsFloat64 (r - float64 n) := by
        unfold FitsFloat64 at hfits ⊢
        rw [abs_of_nonneg (by linarith)] at hfits ⊢
        exact (sub_le_self r hn0).trans_lt hfits
      rw [if_pos hn]
      refine ⟨float64 (r - float64 n), ?_, float64_nonneg (by linarith), ?_, float64_float64 _, fits_float64 hdiff⟩
      · simp [Double.sub, Double.neg, Double.add, Double.ofRat, ← sub_eq_add_neg, hdiff]
      · refine (float64_le_two_mul (by linarith)).trans (by linarith)
    · simp [Double.le, Double.lt, not_lt.2 (Nat.cast_nonneg (α := ℚ) n)] at hpaid
  case isFalse => exact hrefill

/-- A packet that fits is let through by the first look two seconds after `t`, if the
bucket holds at least half of what has come in since `t`. -/
theorem waitLoop_exits (hc : Rate c) (hn : n ≤ c) (hlt : n < 2 ^ 53) {t earliest q : ℚ} (h : Holds c b)
    (hq : b.tokens = .num q) (hcome : min c ((b.last - t) * c / 2) ≤ q) (hearliest : b.last ≤ earliest)
    {looks : List ℚ} (hlooks : b.Looks n earliest looks) (ht : ∃ now ∈ looks, t + 2 ≤ now) :
    (b.waitLoop n looks).2 = true := by
  induction looks generalizing b earliest q with
  | nil =>
      obtain ⟨now, hnow, -⟩ := ht
      cases hnow
  | cons now looks ih =>
      obtain ⟨hnanos, hnow, hrest⟩ := hlooks
      have hclock : b.last ≤ now := hearliest.trans hnow
      obtain ⟨hrefill, htokens⟩ := h.refill hc hclock hnanos
      obtain ⟨r, hr, -, hbrought⟩ := htokens q hq
      have hone := hc.one_le
      have hcome' : min c ((now - t) * c / 2) ≤ r := by
        refine le_trans (le_min (min_le_left _ _) ?_) hbrought
        rcases min_cases c ((b.last - t) * c / 2) with ⟨hmin, -⟩ | ⟨hmin, -⟩
        · rw [hmin] at hcome
          have hgain : 0 ≤ (now - b.last) * c / 2 :=
            div_nonneg (mul_nonneg (by linarith) (by linarith)) (by norm_num)
          exact min_le_of_left_le (by linarith)
        · rw [hmin] at hcome
          refine min_le_of_right_le ?_
          have hsplit : (now - t) * c / 2 = (b.last - t) * c / 2 + (now - b.last) * c / 2 := by ring
          linarith
      rcases attempt_cases b now n with ⟨-, hround⟩ | ⟨hshort, sleep, hround, hsleep, -⟩
      · rw [waitLoop, hround]
        rfl
      · -- the packet was not let through now, so the time has not come
        have hless : r < n := by
          rw [hr] at hshort
          simpa [ieee, Double.ofRat_natCast hlt, Double.le, Double.lt] using hshort
        have hearly : now < t + 2 := by
          by_contra hlate
          have hfull : c ≤ (now - t) * c / 2 := by nlinarith [not_lt.1 hlate]
          rw [min_eq_left hfull] at hcome'
          linarith
        have hlater : ∃ now ∈ looks, t + 2 ≤ now := by
          obtain ⟨look, hlook, hle⟩ := ht
          rcases List.mem_cons.1 hlook with rfl | hlook
          · exact absurd hle (not_le.2 hearly)
          · exact ⟨look, hlook, hle⟩
        rw [hround] at hrest
        rw [waitLoop, hround]
        exact ih hrefill hr hcome' (le_add_of_nonneg_right hsleep) (hrest sleep rfl) hlater

/-! ### A rate that is no finite number -/

/-- The bucket of a rate that overflows. -/
structure Endless (b : TokenBucket Double) : Prop where
  capacity : b.capacity = .inf false
  fill : b.fillPerSec = .inf false
  tokens : b.tokens = .inf false ∨ b.tokens = .nan

theorem Endless.refill (h : Endless b) (now : ℚ) : Endless (b.refill ieee now) := by
  refine ⟨h.capacity, h.fill, ?_⟩
  simp only [TokenBucket.refill, h.capacity, h.fill]
  generalize ieee.seconds (now - b.last) = s
  rcases h.tokens with htokens | htokens
  · rw [htokens]
    cases s with
    | num q =>
        by_cases hq : q = 0
        · simp [ieee, Double.mul, Double.add, Double.lt, hq]
        · by_cases hneg : q < 0 <;> simp [ieee, Double.mul, Double.add, Double.lt, hq, hneg]
    | inf negative => cases negative <;> simp [ieee, Double.mul, Double.add, Double.lt]
    | nan => simp [ieee, Double.mul, Double.add, Double.lt]
  · rw [htokens]
    exact Or.inr rfl

theorem Endless.attempt (h : Endless b) (now : ℚ) (n : ℕ) : Endless (b.attempt ieee now n).1 := by
  have hrefill := h.refill now
  unfold TokenBucket.attempt
  simp only
  split
  · refine ⟨hrefill.capacity, hrefill.fill, ?_⟩
    simp only
    rcases hrefill.tokens with htokens | htokens
    · rw [htokens]
      simp only [ieee, Double.ofRat]
      split
      · exact Or.inl rfl
      · simp [Double.sub, Double.neg, Double.add, not_lt.2 (Nat.cast_nonneg (α := ℚ) n)]
    · rw [htokens]
      exact Or.inr rfl
  · exact hrefill

/-- A second look at the same moment makes the tokens NaN, for good: no time times an
infinite rate is not a number. -/
theorem Endless.stalls (h : Endless b) (k : ℕ) : (b.waitLoop n (everyHalf b.last k)).2 = false := by
  have hnan : ∀ (looks : List ℚ) (b : TokenBucket Double), b.capacity = .inf false → b.tokens = .nan →
      (b.waitLoop n looks).2 = false := by
    intro looks
    induction looks with
    | nil => exact fun _ _ _ => rfl
    | cons now looks ih =>
        intro b hc hb
        have htokens : (b.refill ieee now).tokens = .nan := by
          simp only [TokenBucket.refill, hc, hb]
          rfl
        rcases attempt_cases b now n with ⟨hpaid, -⟩ | ⟨-, sleep, hround, -, -⟩
        · rw [htokens] at hpaid
          cases hle : ieee.ofNat n <;> rw [hle] at hpaid <;> cases hpaid
        · rw [waitLoop, hround]
          exact ih _ hc htokens
  have hfirst : (b.refill ieee b.last).tokens = .nan := by
    simp only [TokenBucket.refill, h.capacity, h.fill, sub_self, seconds_zero]
    rcases h.tokens with htokens | htokens <;> rw [htokens] <;> rfl
  have hstart : ∃ looks, everyHalf b.last k = b.last :: looks := by
    cases k with
    | zero => exact ⟨_, rfl⟩
    | succ k => exact ⟨_, rfl⟩
  obtain ⟨looks, hlooks⟩ := hstart
  rw [hlooks]
  rcases attempt_cases b b.last n with ⟨hpaid, -⟩ | ⟨-, sleep, hround, -, -⟩
  · rw [hfirst] at hpaid
    cases hle : ieee.ofNat n <;> rw [hle] at hpaid <;> cases hpaid
  · rw [waitLoop, hround]
    exact hnan looks _ h.capacity hfirst

end TokenBucket

/-! ## The cap -/

/-- One second of a rate, in bytes, as `newTokenBucket` computes it. -/
def bytesPerSec (mbps : Double) : Double := (mbps.mul (.ofRat 1000000)).div (.ofRat 8)

/-- One second of the rate is a finite number of bytes, and holds the packet. -/
def Fits (mbps : Double) (n : ℕ) : Prop := ∃ c : ℚ, bytesPerSec mbps = .num c ∧ n ≤ c

section

variable {ι : Type} [DecidableEq ι]

/-- The clock does not go back, and shows whole nanoseconds. -/
def TicksNanos (s : Callers Double ι) : CallerStep ι → Prop
  | .call _ _ => True
  | .turn i now => Ticks s (.turn i now) ∧ Nanos now

/-- A rate over zero is a positive number of bytes a second, or overflows. -/
theorem bytesPerSec_cases {mbps : Double} (hrate : Double.lt (.num 0) mbps = true) :
    bytesPerSec mbps = .inf false ∨
      ∃ c, bytesPerSec mbps = .num c ∧ 0 ≤ c ∧ float64 c = c ∧ FitsFloat64 c := by
  have hmillion : Double.ofRat 1000000 = .num 1000000 := by decide +kernel
  have height : Double.ofRat 8 = .num 8 := by decide +kernel
  have hresult : ∀ q : ℚ, 0 ≤ q → Double.ofRat q = .inf false ∨
      ∃ c, Double.ofRat q = .num c ∧ 0 ≤ c ∧ float64 c = c ∧ FitsFloat64 c := by
    intro q hq
    unfold Double.ofRat
    split
    · exact Or.inr ⟨_, rfl, float64_nonneg hq, float64_float64 q, fits_float64 ‹_›⟩
    · exact Or.inl (by rw [decide_eq_false (not_lt.2 hq)])
  unfold bytesPerSec
  rw [hmillion, height]
  have hdiv : Double.div (.inf false) (.num 8) = .inf false := by decide
  cases mbps with
  | num m =>
      have hm : 0 < m := by simpa [Double.lt] using hrate
      rw [Double.mul]
      rcases hresult (m * 1000000) (by linarith) with hinf | ⟨a, ha, ha0, -, -⟩
      · exact Or.inl (by rw [hinf, hdiv])
      · rw [ha, Double.div, if_neg (by norm_num)]
        exact hresult _ (by linarith)
  | inf negative =>
      cases negative with
      | false =>
          refine Or.inl ?_
          have hmul : Double.mul (.inf false) (.num 1000000) = .inf false := by decide
          rw [hmul, hdiv]
      | true => cases hrate
  | nan => cases hrate

/-- What other callers do to a bucket leaves it a bucket of the rate. -/
theorem bucket_of_run {mbps : Double} {start : ℚ} (hstart : Nanos start)
    {actions : List (CallerStep ι)}
    (hclock : AllSteps (Callers.step ieee) TicksNanos { bucket := newTokenBucket ieee mbps start } actions) :
    let b := (run (Callers.step ieee) { bucket := newTokenBucket ieee mbps start } actions).bucket
    b.capacity = bytesPerSec mbps ∧ Nanos b.last ∧ (bytesPerSec mbps = .inf false → b.Endless) ∧
      ∀ c, bytesPerSec mbps = .num c → TokenBucket.Rate c → b.Holds c := by
  refine @AllSteps.invariant _ _ _ _ (fun s : Callers Double ι => s.bucket.capacity = bytesPerSec mbps ∧
    Nanos s.bucket.last ∧ (bytesPerSec mbps = .inf false → s.bucket.Endless) ∧
      ∀ c, bytesPerSec mbps = .num c → TokenBucket.Rate c → s.bucket.Holds c) ?_ _ _ hclock ?_ _
    (run_mem_states _ actions)
  · rintro s a ⟨hcapacity, hlast, hendless, hholds⟩ htick
    rcases step_cases ieee s a with ⟨hbucket, -⟩ | ⟨i, now, n, rfl, hbucket, -⟩
    · rw [hbucket]
      exact ⟨hcapacity, hlast, hendless, hholds⟩
    · rw [hbucket]
      refine ⟨(s.bucket.attempt_capacity ieee now n).1.trans hcapacity, ?_, fun hinf => ?_, fun c hc hrate => ?_⟩
      · rw [TokenBucket.attempt_last]
        exact htick.2
      · exact (hendless hinf).attempt now n
      · exact (hholds c hc hrate).attempt hrate htick.1 htick.2 n
  · refine ⟨rfl, hstart, fun hinf => ⟨hinf, hinf, Or.inl hinf⟩, fun c hc hrate => ?_⟩
    have hone := hrate.one_le
    exact ⟨hc, hc, ⟨c, hc, by linarith, by linarith, hrate.float, hrate.fits⟩, hstart⟩

theorem Packet.one_le_sealedLength (p : Packet) : 1 ≤ p.sealedLength := by
  unfold sealedLength nonceSize
  omega

/-- At any positive rate, and whatever callers have done with the bucket before, the loop of
a caller that now has it to itself ends once enough time has passed, exactly when one second
of the rate is a finite number of bytes, no fewer than the packet's; and it does so for every
packet of the data path exactly when that holds of one sealed parity. -/
theorem wait_exits_iff {mbps : Double} {start : ℚ} (hrate : Double.lt (.num 0) mbps = true)
    (hstart : Nanos start) (actions : List (CallerStep ι))
    (hclock : AllSteps (Callers.step ieee) TicksNanos { bucket := newTokenBucket ieee mbps start } actions) :
    (∀ p, OnDataPath p →
      ((run (Callers.step ieee) { bucket := newTokenBucket ieee mbps start } actions).bucket.Exits
        p.sealedLength ↔ Fits mbps p.sealedLength)) ∧
      ((∀ p, OnDataPath p →
        (run (Callers.step ieee) { bucket := newTokenBucket ieee mbps start } actions).bucket.Exits
          p.sealedLength) ↔ Fits mbps (fecSlotSize + 6 + 28)) := by
  obtain ⟨hcapacity, hlast, hendless, hholds⟩ := bucket_of_run hstart hclock
  generalize (run (Callers.step ieee) { bucket := newTokenBucket ieee mbps start } actions).bucket = b
    at hcapacity hlast hendless hholds
  have hone : ∀ p, OnDataPath p → (b.Exits p.sealedLength ↔ Fits mbps p.sealedLength) := by
    intro p hp
    have hlt : p.sealedLength < 2 ^ 53 := hp.sealedLength_le.trans_lt (by norm_num [fecSlotSize])
    rcases bytesPerSec_cases hrate with hinf | ⟨c, hc, -, hfloat, hfits⟩
    · refine iff_of_false (TokenBucket.not_exits hlast (hendless hinf).stalls) ?_
      rintro ⟨c, hc, -⟩
      rw [hinf] at hc
      cases hc
    · by_cases hfit : (p.sealedLength : ℚ) ≤ c
      · refine iff_of_true ?_ ⟨c, hc, hfit⟩
        have hbyte : (1 : ℚ) ≤ p.sealedLength := by exact_mod_cast p.one_le_sealedLength
        have hb := hholds c hc ⟨hbyte.trans hfit, hfloat, hfits⟩
        obtain ⟨q, hq, hq0, -⟩ := hb.tokens
        refine ⟨2, fun looks hlooks ht =>
          TokenBucket.waitLoop_exits ⟨hbyte.trans hfit, hfloat, hfits⟩ hfit hlt hb hq ?_ le_rfl hlooks ht⟩
        rw [sub_self, zero_mul, zero_div]
        exact min_le_of_right_le hq0
      · refine iff_of_false (TokenBucket.not_exits hlast fun k =>
          TokenBucket.waitLoop_stalls (hcapacity.trans hc) (not_le.1 hfit) hlt _) ?_
        rintro ⟨c', hc', hfit'⟩
        rw [hc] at hc'
        cases hc'
        exact hfit hfit'
  refine ⟨hone, fun hall => ?_, ?_⟩
  · have hparity := (hone emptyParity emptyParity_onDataPath).1 (hall emptyParity emptyParity_onDataPath)
    rwa [sealedLength_emptyParity] at hparity
  · rintro ⟨c, hc, hparity⟩ p hp
    have hlength : (p.sealedLength : ℚ) ≤ ((fecSlotSize + 6 + 28 : ℕ) : ℚ) := Nat.cast_le.2 hp.sealedLength_le
    exact (hone p hp).2 ⟨c, hc, hlength.trans hparity⟩

end

/-- The packet of a full read, with FEC off. -/
def fullRead : Packet := .data 0 0 0 (List.replicate maxSinkReadSize 0)

theorem sealedLength_fullRead : fullRead.sealedLength = 1435 := by
  rw [fullRead, Packet.sealedLength_data, List.length_replicate]
  rfl

theorem fullRead_onDataPath : OnDataPath fullRead := by
  refine ⟨none, List.replicate maxSinkReadSize 0, ?_, List.mem_singleton_self _⟩
  rw [List.length_replicate]

/-- At 8 megabits a second every packet of the data path is let through, so that of a full read. -/
theorem wait_exits_at_eight :
    OnDataPath fullRead ∧ (newTokenBucket ieee (.num 8) 0).Exits fullRead.sealedLength := by
  have hall : ∀ p, OnDataPath p → (newTokenBucket ieee (.num 8) 0).Exits p.sealedLength :=
    (wait_exits_iff (by decide) ⟨0, by norm_num⟩ ([] : List (CallerStep Unit)) trivial).2.2
      ⟨1000000, by decide +kernel, by norm_num [fecSlotSize]⟩
  exact ⟨fullRead_onDataPath, hall fullRead fullRead_onDataPath⟩

/-- A customer with `bandwidth_mbps` of 0.01 has a bucket of 1250 bytes, and a full read is
a packet of 1435. -/
theorem wait_stalls_at_hundredth :
    OnDataPath fullRead ∧
      ¬ (newTokenBucket ieee (.ofRat (1 / 100)) 0).Exits fullRead.sealedLength := by
  have hcapacity : (newTokenBucket ieee (.ofRat (1 / 100)) 0).capacity = .num 1250 := by decide +kernel
  refine ⟨fullRead_onDataPath, TokenBucket.not_exits ⟨0, by norm_num [newTokenBucket]⟩ fun k => ?_⟩
  rw [sealedLength_fullRead]
  exact TokenBucket.waitLoop_stalls hcapacity (by norm_num) (by norm_num) _

end Simorgh.Tunnel
