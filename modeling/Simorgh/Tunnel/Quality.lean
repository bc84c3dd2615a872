import Simorgh.Lib.Float64

/-!
# Link quality

`linkQuality.observe` estimates the loss of the last 200 packets from the gaps in
the peer's sequence numbers.  The window is rescaled in float64.

* `Counts.observe` — the counts stay those of a window.
* `judgements_consecutive` — packets that arrive in order lower no quality, so a
  run of them is judged by its first packet.
-/

namespace Simorgh.Tunnel

open Simorgh.Lib

/-- The packets of a window. -/
def windowPkts : Nat := 200

/-- The counters of a reporting interval. -/
structure LinkQuality where
  haveLast : Bool
  lastSeq : UInt16
  received : Nat
  expected : Nat
  banPct : Int

/-- No packet yet. -/
def newLinkQuality (banPct : Int) : LinkQuality := ⟨false, 0, 0, 0, banPct⟩

/-- `received` brought down to a window of 200 packets, in float64. -/
def rescale (received expected : Nat) : Nat :=
  (floatToInt64 (float64 (float64 ((received : ℚ) / expected) * windowPkts))).toNat

namespace LinkQuality

/-- The packets counted as sent since the last one seen, this one included. -/
def gap (q : LinkQuality) (seq : UInt16) : Nat :=
  if (seq - q.lastSeq).toNat = 0 then 1 else (seq - q.lastSeq).toNat

/-- Received and expected packets once `seq` is counted. -/
def count (q : LinkQuality) (seq : UInt16) : Nat × Nat :=
  if q.haveLast then (q.received + 1, q.expected + q.gap seq) else (1, 1)

/-- The counts of a window of at most 200 packets. -/
def window (counts : Nat × Nat) : Nat × Nat :=
  if counts.2 > windowPkts then (rescale counts.1 counts.2, windowPkts) else counts

/-- The quality of a window in percent. -/
def pctOf (counts : Nat × Nat) : Nat :=
  if counts.2 = 0 then 100 else min (counts.1 * 100 / counts.2) 100

/-- `observe`: the tracker it leaves, the quality, and whether the peer is banned. -/
def observe (q : LinkQuality) (seq : UInt16) : LinkQuality × Nat × Bool :=
  let counts := window (q.count seq)
  ({ q with haveLast := true, lastSeq := seq, received := counts.1, expected := counts.2 },
    pctOf counts, decide (counts.2 ≠ 0 ∧ q.banPct > 0 ∧ (pctOf counts : Int) < q.banPct))

/-! ## The counts of a window -/

/-- A tracker that has seen a packet counts a window. -/
def Counts (q : LinkQuality) : Prop :=
  q.haveLast = true → 1 ≤ q.expected ∧ q.expected ≤ windowPkts ∧ q.received ≤ q.expected

theorem rescale_le {received expected : Nat} (h : received ≤ expected) :
    rescale received expected ≤ windowPkts := by
  have hdiv : (0 : ℚ) ≤ (received : ℚ) / expected := div_nonneg (Nat.cast_nonneg _) (Nat.cast_nonneg _)
  have hone : (received : ℚ) / expected ≤ (1 : ℕ) := by
    rw [Nat.cast_one]
    exact div_le_one_of_le₀ (by exact_mod_cast h) (Nat.cast_nonneg _)
  have hratio := float64_le_natCast hdiv hone (by decide)
  have hnonneg := float64_nonneg hdiv
  have hscaled : float64 ((received : ℚ) / expected) * windowPkts ≤ (windowPkts : ℕ) := by
    rw [Nat.cast_one] at hratio
    have hw : (0 : ℚ) ≤ (windowPkts : ℕ) := Nat.cast_nonneg _
    nlinarith
  have hscaled0 : (0 : ℚ) ≤ float64 ((received : ℚ) / expected) * windowPkts :=
    mul_nonneg hnonneg (Nat.cast_nonneg _)
  have hle := float64_le_natCast hscaled0 hscaled (by decide)
  have h0 := float64_nonneg hscaled0
  have hfloor : ⌊float64 (float64 ((received : ℚ) / expected) * windowPkts)⌋ ≤ (windowPkts : ℤ) := by
    have := Int.floor_le (float64 (float64 ((received : ℚ) / expected) * windowPkts))
    have hq : ((⌊float64 (float64 ((received : ℚ) / expected) * windowPkts)⌋ : ℤ) : ℚ)
        ≤ ((windowPkts : ℤ) : ℚ) := by
      rw [Int.cast_natCast]
      exact this.trans hle
    exact_mod_cast hq
  simp only [rescale, floatToInt64, truncate, if_pos h0]
  split
  · omega
  · decide

theorem Counts.window_count {q : LinkQuality} (h : Counts q) (seq : UInt16) :
    1 ≤ (window (q.count seq)).2 ∧ (window (q.count seq)).2 ≤ windowPkts ∧
      (window (q.count seq)).1 ≤ (window (q.count seq)).2 := by
  have hcount : 1 ≤ (q.count seq).2 ∧ (q.count seq).1 ≤ (q.count seq).2 := by
    unfold count
    split
    case isTrue hl =>
      obtain ⟨h1, -, hle⟩ := h hl
      have hgap : 1 ≤ q.gap seq := by
        unfold gap
        split <;> omega
      exact ⟨by simp only; omega, by simp only; omega⟩
    case isFalse => exact ⟨Nat.le_refl 1, Nat.le_refl 1⟩
  unfold window
  split
  · exact ⟨show 1 ≤ windowPkts by decide, Nat.le_refl _, rescale_le hcount.2⟩
  · exact ⟨hcount.1, by omega, hcount.2⟩

theorem Counts.observe {q : LinkQuality} (h : Counts q) (seq : UInt16) :
    Counts (q.observe seq).1 := fun _ => h.window_count seq

theorem counts_new (banPct : Int) : Counts (newLinkQuality banPct) := by
  intro h
  cases h

/-! ## Packets in order -/

/-- Once the window is full, a packet in order leaves its counts as they are. -/
theorem rescale_in_order {r : Nat} (h : r ≤ windowPkts) : rescale (r + 1) (windowPkts + 1) = r := by
  have hall : ∀ r ∈ List.range 201, rescale (r + 1) 201 = r := by decide +kernel
  exact hall r (List.mem_range.2 (Nat.lt_succ_of_le h))

theorem ratio_mono {r e : Nat} (he : 1 ≤ e) (h : r ≤ e) :
    r * 100 / e ≤ (r + 1) * 100 / (e + 1) := by
  rw [Nat.le_div_iff_mul_le (by omega)]
  have hk : r * 100 / e * e ≤ r * 100 := Nat.div_mul_le_self _ _
  have h100 : r * 100 / e ≤ 100 := by
    apply Nat.div_le_of_le_mul
    rw [Nat.mul_comm]
    exact Nat.mul_le_mul_left 100 h |>.trans (by rw [Nat.mul_comm])
  rw [Nat.mul_add, Nat.mul_one, Nat.add_mul]
  omega

/-- Sequence numbers one after the other. -/
def consecutive (seq : UInt16) : Nat → List UInt16
  | 0 => []
  | n + 1 => seq :: consecutive (seq + 1) n

/-- Whether the peer is banned at each packet of a run. -/
def judgements (q : LinkQuality) : List UInt16 → List Bool
  | [] => []
  | seq :: seqs => (q.observe seq).2.2 :: judgements (q.observe seq).1 seqs

/-- A packet in order does not lower the quality. -/
theorem Counts.pct_in_order {q : LinkQuality} (h : Counts q) (hl : q.haveLast = true) :
    pctOf (q.received, q.expected) ≤ pctOf (window (q.count (q.lastSeq + 1))) := by
  obtain ⟨h1, h200, hle⟩ := h hl
  have hgap : q.gap (q.lastSeq + 1) = 1 := by
    have hsub : q.lastSeq + 1 - q.lastSeq = 1 := by
      rw [UInt16.add_comm, UInt16.add_sub_cancel]
    rw [gap, hsub]
    rfl
  rw [count, if_pos hl, hgap]
  by_cases hfull : q.expected + 1 > windowPkts
  · have he : q.expected = windowPkts := by omega
    rw [he] at hle
    rw [window, if_pos hfull, he]
    simp only
    rw [rescale_in_order hle]
  · rw [window, if_neg hfull, pctOf, pctOf, if_neg (show ¬ q.expected = 0 by omega),
      if_neg (Nat.succ_ne_zero _)]
    have := ratio_mono h1 hle
    simp only
    omega

/-- The quality at the first packet of a run: that of the window it falls into, with
the numbers skipped since the last packet seen counted as lost. -/
def firstPct (q : LinkQuality) (seq : UInt16) : Nat :=
  if q.haveLast then pctOf (window (q.received + 1, q.expected + q.gap seq)) else 100

theorem pctOf_window_count (q : LinkQuality) (seq : UInt16) :
    pctOf (window (q.count seq)) = q.firstPct seq := by
  rw [count, firstPct]
  split
  · rfl
  · decide

theorem Counts.banned_iff {q : LinkQuality} (h : Counts q) (seq : UInt16) :
    (q.observe seq).2.2 = true ↔ q.banPct > 0 ∧ (q.firstPct seq : Int) < q.banPct := by
  have hpos : (window (q.count seq)).2 ≠ 0 := by
    have := (h.window_count seq).1
    omega
  simp only [LinkQuality.observe, decide_eq_true_eq, pctOf_window_count]
  exact ⟨fun hb => hb.2, fun hb => ⟨hpos, hb⟩⟩

/-- The quality that later packets are not judged below. -/
theorem Counts.not_banned_later {q : LinkQuality} (h : Counts q) (hl : q.haveLast = true)
    (hok : q.banPct ≤ 0 ∨ q.banPct ≤ pctOf (q.received, q.expected)) (n : Nat) :
    ∀ b ∈ judgements q (consecutive (q.lastSeq + 1) n), b = false := by
  induction n generalizing q with
  | zero =>
      intro b hb
      cases hb
  | succ n ih =>
      have hmono := h.pct_in_order hl
      have hban : (q.observe (q.lastSeq + 1)).1.banPct = q.banPct := rfl
      have hok' : q.banPct ≤ 0 ∨ q.banPct ≤ pctOf (window (q.count (q.lastSeq + 1))) := by omega
      have hrest := ih (h.observe (q.lastSeq + 1)) rfl hok'
      intro b hb
      rcases List.mem_cons.1 hb with rfl | hb
      · rw [← Bool.not_eq_true, h.banned_iff, firstPct, if_pos hl]
        have hcount : q.count (q.lastSeq + 1)
            = (q.received + 1, q.expected + q.gap (q.lastSeq + 1)) := by rw [count, if_pos hl]
        rw [hcount] at hok'
        omega
      · exact hrest b hb

/-- Packets that arrive in order, none of them missing, are judged by the first. -/
theorem judgements_consecutive {q : LinkQuality} (h : Counts q) (seq : UInt16) (n : Nat) :
    (∀ b ∈ judgements q (consecutive seq (n + 1)), b = false) ↔
      q.banPct ≤ 0 ∨ q.banPct ≤ q.firstPct seq := by
  have hfirst := h.banned_iff seq
  constructor
  · intro hall
    have hb := hall (q.observe seq).2.2 List.mem_cons_self
    rw [← Bool.not_eq_true, hfirst] at hb
    omega
  · intro hok b hb
    rcases List.mem_cons.1 hb with rfl | hb
    · rw [← Bool.not_eq_true, hfirst]
      omega
    · have hok' : (q.observe seq).1.banPct ≤ 0 ∨ (q.observe seq).1.banPct
          ≤ pctOf ((q.observe seq).1.received, (q.observe seq).1.expected) := by
        show q.banPct ≤ 0 ∨ q.banPct ≤ pctOf (window (q.count seq))
        rw [pctOf_window_count]
        exact hok
      exact (h.observe seq).not_banned_later rfl hok' n b hb

end LinkQuality

end Simorgh.Tunnel
