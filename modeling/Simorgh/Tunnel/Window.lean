import Mathlib.Data.List.Chain
import Mathlib.Data.List.Sort
import Simorgh.Lib.Run
import Simorgh.Tunnel.Quality

/-!
# What the window of 200 packets forgets

A full window is brought back to 200 packets by rescaling its counts, rounded down.  One
packet more in order is rounded away again, so a loss that was counted once is never
forgotten; and a packet that comes late is counted as a gap of nearly 2¹⁶.

* `observeBy` — `observe` with the rescaling as an argument.
* `Lossless.observe`, `Lossy.observe` — what a packet does to a window without and with a loss.
* `quality_restored_iff` — a run of packets in order brings the quality to 100 exactly when
  no gap was ever counted.
* `quality_reordered_iff` — packets that are moved by a bounded number of places are taken for
  what they are exactly when none is moved.
-/

namespace Simorgh.Tunnel

open Simorgh.Lib

/-- The rescaling in exact numbers. -/
def floorRescale (received expected : Nat) : Nat := received * windowPkts / expected

namespace LinkQuality

/-- `window` with the rescaling as an argument. -/
def windowBy (f : Nat → Nat → Nat) (counts : Nat × Nat) : Nat × Nat :=
  if counts.2 > windowPkts then (f counts.1 counts.2, windowPkts) else counts

/-- `observe` with the rescaling as an argument. -/
def observeBy (f : Nat → Nat → Nat) (q : LinkQuality) (seq : UInt16) : LinkQuality × Nat × Bool :=
  let counts := windowBy f (q.count seq)
  ({ q with haveLast := true, lastSeq := seq, received := counts.1, expected := counts.2 },
    pctOf counts, decide (counts.2 ≠ 0 ∧ q.banPct > 0 ∧ (pctOf counts : Int) < q.banPct))

example : observeBy rescale = observe := rfl

/-- The tracker after some packets. -/
def track (f : Nat → Nat → Nat) (q : LinkQuality) (seqs : List UInt16) : LinkQuality :=
  run (fun q seq => (observeBy f q seq).1) q seqs

/-- What is needed of a rescaling: a window without a loss stays one, and a loss is not
rounded away. -/
structure Rescales (f : Nat → Nat → Nat) : Prop where
  full : f (windowPkts + 1) (windowPkts + 1) = windowPkts
  lossy : ∀ r e, r < e → windowPkts < e → f r e < windowPkts

theorem rescales_floor : Rescales floorRescale := by
  refine ⟨by decide, fun r e hlt hfull => ?_⟩
  unfold floorRescale
  rw [Nat.div_lt_iff_lt_mul (by omega), Nat.mul_comm windowPkts]
  exact Nat.mul_lt_mul_of_pos_right hlt (by decide)

variable {f : Nat → Nat → Nat} {q : LinkQuality} {seq : UInt16}

/-- A window in which every packet counted was received. -/
def Lossless (counts : Nat × Nat) : Prop := 1 ≤ counts.2 ∧ counts.2 ≤ windowPkts ∧ counts.1 = counts.2

/-- A window in which a packet was lost. -/
def Lossy (counts : Nat × Nat) : Prop := counts.2 ≤ windowPkts ∧ counts.1 < counts.2

/-- What the window has counted. -/
def counts (q : LinkQuality) : Nat × Nat := (q.received, q.expected)

theorem lossless_windowBy (hfull : f (windowPkts + 1) (windowPkts + 1) = windowPkts) {n : Nat}
    (hpos : 1 ≤ n) (hle : n ≤ windowPkts + 1) : Lossless (windowBy f (n, n)) := by
  unfold windowBy
  split
  case isTrue hover =>
    obtain rfl : n = windowPkts + 1 := by
      simp only at hover
      omega
    exact ⟨show 1 ≤ windowPkts by decide, le_refl _, hfull⟩
  case isFalse hroom => exact ⟨hpos, not_lt.1 hroom, rfl⟩

theorem lossy_windowBy (hf : Rescales f) {c : Nat × Nat} (hlost : c.1 < c.2) : Lossy (windowBy f c) := by
  unfold windowBy
  split
  case isTrue hfull => exact ⟨le_refl _, hf.lossy _ _ hlost hfull⟩
  case isFalse hroom => exact ⟨not_lt.1 hroom, hlost⟩

theorem pctOf_lossless {c : Nat × Nat} (h : Lossless c) : pctOf c = 100 := by
  obtain ⟨hpos, -, hall⟩ := h
  rw [pctOf, if_neg (by omega), hall, Nat.mul_div_cancel_left _ (by omega), min_self]

theorem pctOf_lossy {c : Nat × Nat} (h : Lossy c) : pctOf c < 100 := by
  obtain ⟨-, hlost⟩ := h
  rw [pctOf, if_neg (by omega), min_lt_iff, Nat.div_lt_iff_lt_mul (by omega)]
  left
  omega

theorem one_le_gap (q : LinkQuality) (seq : UInt16) : 1 ≤ q.gap seq := by
  unfold gap
  split
  · exact le_refl 1
  · omega

theorem counts_observeBy (f : Nat → Nat → Nat) (q : LinkQuality) (seq : UInt16) :
    (observeBy f q seq).1.counts = windowBy f (q.count seq) := rfl

/-- The first packet is no loss. -/
theorem lossless_first (hfull : f (windowPkts + 1) (windowPkts + 1) = windowPkts)
    (hfirst : q.haveLast = false) : Lossless (observeBy f q seq).1.counts := by
  rw [counts_observeBy, count, if_neg (by simp [hfirst])]
  exact lossless_windowBy hfull (le_refl 1) (by decide)

theorem Lossless.observe (hfull : f (windowPkts + 1) (windowPkts + 1) = windowPkts)
    (hlast : q.haveLast = true) (h : Lossless q.counts) (hgap : q.gap seq = 1) :
    Lossless (observeBy f q seq).1.counts := by
  obtain ⟨hpos, hle, hall⟩ := h
  simp only [counts] at hpos hle hall
  rw [counts_observeBy, count, if_pos hlast, hgap, hall]
  exact lossless_windowBy hfull (Nat.le_add_left 1 _) (Nat.add_le_add_right hle 1)

/-- A gap is a loss. -/
theorem Lossless.gapped (hf : Rescales f) (hlast : q.haveLast = true) (h : Lossless q.counts)
    (hgap : 1 < q.gap seq) : Lossy (observeBy f q seq).1.counts := by
  obtain ⟨-, -, hall⟩ := h
  simp only [counts] at hall
  rw [counts_observeBy, count, if_pos hlast, hall]
  exact lossy_windowBy hf (Nat.add_lt_add_left hgap _)

/-- A loss is not forgotten. -/
theorem Lossy.observe (hf : Rescales f) (hlast : q.haveLast = true) (h : Lossy q.counts) (seq : UInt16) :
    Lossy (observeBy f q seq).1.counts := by
  have hgap := one_le_gap q seq
  obtain ⟨-, hlost⟩ := h
  simp only [counts] at hlost
  rw [counts_observeBy, count, if_pos hlast]
  exact lossy_windowBy hf (Nat.add_lt_add_of_lt_of_le hlost hgap)

/-! ## Runs -/

/-- The packet carries the number of the one before it, or the next. -/
def Follows (last seq : UInt16) : Prop := seq = last ∨ seq = last + 1

instance (last seq : UInt16) : Decidable (Follows last seq) := inferInstanceAs (Decidable (_ ∨ _))

theorem gap_eq_one_iff : q.gap seq = 1 ↔ Follows q.lastSeq seq := by
  have hsub : ∀ n : UInt16, seq - q.lastSeq = n ↔ seq = q.lastSeq + n := by
    intro n
    constructor
    · rintro rfl
      rw [UInt16.add_comm, UInt16.sub_add_cancel]
    · rintro rfl
      rw [UInt16.add_comm, UInt16.add_sub_cancel]
  have hzero : (seq - q.lastSeq).toNat = 0 ↔ seq = q.lastSeq := by
    rw [show (0 : Nat) = (0 : UInt16).toNat from rfl, UInt16.toNat_inj, hsub, UInt16.add_zero]
  have hone : (seq - q.lastSeq).toNat = 1 ↔ seq = q.lastSeq + 1 := by
    rw [show (1 : Nat) = (1 : UInt16).toNat from rfl, UInt16.toNat_inj, hsub]
  unfold gap Follows
  rw [← hzero, ← hone]
  split
  · omega
  · omega

theorem track_lossy (hf : Rescales f) (seqs : List UInt16) (hlast : q.haveLast = true) (h : Lossy q.counts) :
    Lossy (track f q seqs).counts := by
  induction seqs generalizing q with
  | nil => exact h
  | cons seq seqs ih => exact ih rfl (h.observe hf hlast seq)

/-- Without a gap nothing is lost. -/
theorem track_lossless (hfull : f (windowPkts + 1) (windowPkts + 1) = windowPkts) (seqs : List UInt16)
    (hlast : q.haveLast = true) (h : Lossless q.counts) (hchain : (q.lastSeq :: seqs).IsChain Follows) :
    Lossless (track f q seqs).counts := by
  induction seqs generalizing q with
  | nil => exact h
  | cons seq seqs ih =>
      rw [List.isChain_cons_cons] at hchain
      exact ih rfl (h.observe hfull hlast (gap_eq_one_iff.2 hchain.1)) hchain.2

/-- With a gap something is. -/
theorem track_gapped (hf : Rescales f) (seqs : List UInt16) (hlast : q.haveLast = true)
    (h : Lossless q.counts) (hgap : ¬(q.lastSeq :: seqs).IsChain Follows) :
    Lossy (track f q seqs).counts := by
  induction seqs generalizing q with
  | nil => exact absurd (List.isChain_singleton _) hgap
  | cons seq seqs ih =>
      rw [List.isChain_cons_cons, not_and] at hgap
      by_cases hfollows : Follows q.lastSeq seq
      · exact ih rfl (h.observe hf.full hlast (gap_eq_one_iff.2 hfollows)) (hgap hfollows)
      · have hwide : 1 < q.gap seq := by
          have hone := one_le_gap q seq
          have hne : q.gap seq ≠ 1 := fun heq => hfollows (gap_eq_one_iff.1 heq)
          omega
        exact track_lossy hf seqs rfl (h.gapped hf hlast hwide)

/-- The qualities that are returned. -/
def replies (f : Nat → Nat → Nat) (q : LinkQuality) : List UInt16 → List Nat
  | [] => []
  | seq :: seqs => (observeBy f q seq).2.1 :: replies f (observeBy f q seq).1 seqs

theorem getLast?_replies (f : Nat → Nat → Nat) (q : LinkQuality) (seq : UInt16) (seqs : List UInt16) :
    (replies f q (seq :: seqs)).getLast? = some (pctOf (track f q (seq :: seqs)).counts) := by
  induction seqs generalizing q seq with
  | nil => rfl
  | cons seq' seqs ih =>
      rw [replies, List.getLast?_cons, ih (observeBy f q seq).1 seq']
      rfl

/-- A new tracker that has seen these packets has lost one exactly if there was a gap. -/
theorem track_new (hf : Rescales f) (banPct : Int) (seq : UInt16) (seqs : List UInt16) :
    ((seq :: seqs).IsChain Follows → Lossless (track f (newLinkQuality banPct) (seq :: seqs)).counts) ∧
      (¬(seq :: seqs).IsChain Follows → Lossy (track f (newLinkQuality banPct) (seq :: seqs)).counts) := by
  have hfirst : Lossless (observeBy f (newLinkQuality banPct) seq).1.counts := lossless_first hf.full rfl
  exact ⟨track_lossless hf.full seqs rfl hfirst, track_gapped hf seqs rfl hfirst⟩

theorem consecutive_chain (last : UInt16) (n : Nat) :
    (last :: consecutive (last + 1) n).IsChain Follows := by
  induction n generalizing last with
  | zero => exact List.isChain_singleton _
  | succ n ih => exact List.isChain_cons_cons.2 ⟨Or.inr rfl, ih (last + 1)⟩

/-- Packets in order after a run leave it with a gap exactly if it had one. -/
theorem chain_append_consecutive {seqs : List UInt16} {next : UInt16}
    (hnext : ∀ last ∈ seqs.getLast?, next = last + 1) (n : Nat) :
    (seqs ++ consecutive next (n + 1)).IsChain Follows ↔ seqs.IsChain Follows := by
  rw [List.isChain_append]
  have hrun : (consecutive next (n + 1)).IsChain Follows := consecutive_chain next n
  constructor
  · exact fun h => h.1
  · refine fun h => ⟨h, hrun, fun last hlast seq hseq => ?_⟩
    cases hseq
    exact Or.inr (hnext last hlast)

/-- After any run of packets, one packet in order after the other brings the quality to
100 exactly when the run never had a gap.  It does not depend on how many they are. -/
theorem quality_restored_iff (banPct : Int) (seqs : List UInt16) (next : UInt16)
    (hnext : ∀ last ∈ seqs.getLast?, next = last + 1) (n : Nat) :
    (replies floorRescale (track floorRescale (newLinkQuality banPct) seqs) (consecutive next (n + 1))).getLast? =
        some 100 ↔
      seqs.IsChain Follows := by
  have htrack : ∀ q : LinkQuality, track floorRescale (track floorRescale q seqs) (consecutive next (n + 1)) =
      track floorRescale q (seqs ++ consecutive next (n + 1)) := by
    intro q
    exact (List.foldl_append ..).symm
  rw [consecutive, getLast?_replies, ← consecutive, htrack, Option.some_inj,
    ← chain_append_consecutive hnext n]
  obtain ⟨seq, rest, hall⟩ : ∃ seq rest, seqs ++ consecutive next (n + 1) = seq :: rest := by
    cases seqs with
    | nil => exact ⟨_, _, rfl⟩
    | cons seq seqs => exact ⟨_, _, rfl⟩
  rw [hall]
  obtain ⟨hlossless, hlossy⟩ := track_new rescales_floor banPct seq rest
  constructor
  · intro hfull
    by_contra hgap
    have := pctOf_lossy (hlossy hgap)
    omega
  · exact fun hchain => pctOf_lossless (hlossless hchain)

theorem quality_restored_in_order :
    (replies floorRescale (track floorRescale (newLinkQuality 0) [65534, 65535, 0]) (consecutive 1 300)).getLast? =
      some 100 := by
  have hnext : ∀ last ∈ [(65534 : UInt16), 65535, 0].getLast?, 1 = last + 1 := by
    intro last hlast
    cases hlast
    rfl
  exact (quality_restored_iff 0 [65534, 65535, 0] 1 hnext 299).2 (by decide)

/-- One packet was lost at the start, and no number of packets in order makes up for it. -/
theorem quality_never_restored : ¬∃ n,
    (replies floorRescale (track floorRescale (newLinkQuality 0) [0, 2]) (consecutive 3 (n + 1))).getLast? =
      some 100 := by
  rintro ⟨n, hfull⟩
  have hlossy : Lossy (track floorRescale (newLinkQuality 0) [0, 2]).counts := ⟨by decide, by decide⟩
  rw [consecutive, getLast?_replies, Option.some_inj] at hfull
  have := pctOf_lossy (track_lossy rescales_floor (3 :: consecutive (3 + 1) n) rfl hlossy)
  omega

/-! ## Packets out of order -/

/-- Fewer than 202 packets out of more than 2¹⁶ - 200 are no percent of a window. -/
theorem rescale_late {r e : Nat} (hr : r ≤ windowPkts + 1) (he : 51456 ≤ e) : rescale r e ≤ 1 := by
  have hratio : (r : ℚ) / e ≤ 2 ^ (-8 : ℤ) := by
    rw [div_le_iff₀ (by exact_mod_cast (by omega : 0 < e))]
    have hr' : (r : ℚ) ≤ 201 := by exact_mod_cast hr
    have he' : (51456 : ℚ) ≤ e := by exact_mod_cast he
    norm_num
    linarith
  have hnonneg : (0 : ℚ) ≤ (r : ℚ) / e := div_nonneg (Nat.cast_nonneg _) (Nat.cast_nonneg _)
  have hfloat := float64_le_zpow hnonneg hratio (by decide)
  have hfloat0 := float64_nonneg hnonneg
  have hscaled : float64 ((r : ℚ) / e) * windowPkts ≤ (1 : ℕ) := by
    have hwindow : ((windowPkts : ℕ) : ℚ) = 200 := by norm_num [windowPkts]
    rw [hwindow]
    norm_num at hfloat ⊢
    linarith
  have hscaled0 : (0 : ℚ) ≤ float64 ((r : ℚ) / e) * windowPkts := mul_nonneg hfloat0 (Nat.cast_nonneg _)
  have hle := float64_le_natCast hscaled0 hscaled (by decide)
  have hle0 := float64_nonneg hscaled0
  have hfloor : ⌊float64 (float64 ((r : ℚ) / e) * windowPkts)⌋ ≤ 1 := by
    have hq := (Int.floor_le (float64 (float64 ((r : ℚ) / e) * windowPkts))).trans hle
    exact_mod_cast hq
  simp only [rescale, floatToInt64, truncate, if_pos hle0]
  split
  · omega
  · decide

/-- A gap that wide leaves nothing of the quality. -/
theorem quality_late (hcounts : q.received ≤ q.expected ∧ q.expected ≤ windowPkts) (hlast : q.haveLast = true)
    (hgap : 51456 ≤ q.gap seq) :
    (q.observe seq).1.expected = windowPkts ∧ (q.observe seq).2.1 = 0 := by
  have hwindow : window (q.count seq) = (rescale (q.received + 1) (q.expected + q.gap seq), windowPkts) := by
    have hwide : windowPkts < q.expected + q.gap seq := by
      unfold windowPkts
      omega
    rw [count, if_pos hlast, window, if_pos hwide]
  have hscaled := rescale_late (r := q.received + 1) (e := q.expected + q.gap seq) (by omega) (by omega)
  refine ⟨congrArg Prod.snd hwindow, ?_⟩
  show pctOf (window (q.count seq)) = 0
  rw [hwindow, pctOf, if_neg (show ¬windowPkts = 0 by decide)]
  simp only [windowPkts]
  omega

/-- The numbers of packets in the order they arrive in. -/
def arrivals (first : UInt16) (order : List Nat) : List UInt16 :=
  order.map fun j => first + UInt16.ofNat j

/-- No packet is moved by more than so many places. -/
def Displaced (k : Nat) (order : List Nat) : Prop :=
  ∀ (i : Nat) (h : i < order.length), order[i] ≤ i + k ∧ i ≤ order[i] + k

/-- Once the window is full every packet finds a quality of 100 less the displacement, and
bans nobody below that. -/
def Tolerates (k : Nat) (banPct : Int) (seqs : List UInt16) : Prop :=
  ∀ before seq after, seqs = before ++ seq :: after →
    let reply := (track rescale (newLinkQuality banPct) before).observe seq
    reply.1.expected = windowPkts → 100 - k ≤ reply.2.1 ∧ (banPct ≤ 100 - k → reply.2.2 = false)

theorem rescales_full : rescale (windowPkts + 1) (windowPkts + 1) = windowPkts :=
  rescale_in_order (le_refl windowPkts)

theorem counts_track (banPct : Int) (seqs : List UInt16) :
    Counts (track rescale (newLinkQuality banPct) seqs) := by
  have hrun : ∀ q : LinkQuality, Counts q → Counts (track rescale q seqs) := by
    induction seqs with
    | nil => exact fun q hq => hq
    | cons seq seqs ih => exact fun q hq => ih _ (hq.observe seq)
  exact hrun _ (counts_new banPct)

theorem track_banPct (f : Nat → Nat → Nat) (q : LinkQuality) (seqs : List UInt16) :
    (track f q seqs).banPct = q.banPct := by
  induction seqs generalizing q with
  | nil => rfl
  | cons seq seqs ih => exact ih (observeBy f q seq).1

theorem track_last (banPct : Int) (before : List UInt16) (last : UInt16) :
    (track rescale (newLinkQuality banPct) (before ++ [last])).haveLast = true ∧
      (track rescale (newLinkQuality banPct) (before ++ [last])).lastSeq = last := by
  unfold track run
  rw [List.foldl_append]
  exact ⟨rfl, rfl⟩

/-- A packet that comes after a later one is counted as a gap of nearly 2¹⁶. -/
theorem gap_of_late {x y : Nat} {first : UInt16} (hlate : y < x) (hnear : x ≤ y + 200)
    (hlast : q.lastSeq = first + UInt16.ofNat x) : 51456 ≤ q.gap (first + UInt16.ofNat y) := by
  have hsub := UInt16.toNat_sub (first + UInt16.ofNat y) (first + UInt16.ofNat x)
  simp only [UInt16.toNat_add, UInt16.toNat_ofNat'] at hsub
  unfold gap
  rw [hlast, hsub]
  split
  · omega
  · omega

/-- Numbers that are not in order have a later one before an earlier one. -/
theorem exists_late {order : List Nat} {n : Nat} (hperm : order.Perm (List.range n))
    (hmoved : order ≠ List.range n) : ∃ (i : Nat) (h : i + 1 < order.length), order[i + 1] < order[i] := by
  have hdescent : ¬order.IsChain (· < ·) := by
    intro hchain
    rw [List.isChain_iff_pairwise] at hchain
    refine hmoved (hperm.eq_of_pairwise' (hchain.imp fun h => le_of_lt h) ?_)
    exact List.pairwise_le_range
  obtain ⟨i, hi, hnot⟩ := List.exists_not_getElem_of_not_isChain hdescent
  have hnodup : order.Nodup := hperm.nodup_iff.2 List.nodup_range
  refine ⟨i, hi, lt_of_le_of_ne (not_lt.1 hnot) ?_⟩
  intro heq
  have := (List.Nodup.getElem_inj_iff hnodup).1 heq
  omega

theorem arrivals_chain (first : UInt16) (n : Nat) : (arrivals first (List.range n)).IsChain Follows := by
  unfold arrivals
  rw [List.isChain_map, List.isChain_iff_getElem]
  intro i hi
  simp only [List.getElem_range]
  right
  rw [UInt16.ofNat_add, UInt16.add_assoc]
  rfl

/-- In order nothing is lost. -/
theorem lossless_in_order (banPct : Int) {first : UInt16} {n : Nat} {before after : List UInt16} {seq : UInt16}
    (hsplit : arrivals first (List.range n) = before ++ seq :: after) :
    Lossless ((track rescale (newLinkQuality banPct) before).observe seq).1.counts := by
  have hchain := arrivals_chain first n
  rw [hsplit, List.append_cons] at hchain
  replace hchain := hchain.left_of_append
  cases before with
  | nil => exact lossless_first rescales_full rfl
  | cons head before =>
      have hfirst : Lossless (observeBy rescale (newLinkQuality banPct) head).1.counts :=
        lossless_first rescales_full rfl
      have hrun := track_lossless rescales_full (before ++ [seq]) rfl hfirst hchain
      unfold track run at hrun ⊢
      rw [List.foldl_append] at hrun
      exact hrun

/-- Packets that arrive in a rearranged order, each moved by at most `k` places, are not
taken for losses exactly when none is moved. -/
theorem quality_reordered_iff {k n : Nat} (hk : k < 100) (banPct : Int) (first : UInt16) {order : List Nat}
    (hperm : order.Perm (List.range n)) (hdisplaced : Displaced k order) :
    Tolerates k banPct (arrivals first order) ↔ order = List.range n := by
  constructor
  · intro htolerates
    by_contra hmoved
    obtain ⟨i, hi, hlate⟩ := exists_late hperm hmoved
    have hnear : order[i] ≤ order[i + 1] + 200 := by
      have h₁ := (hdisplaced i (by omega)).1
      have h₂ := (hdisplaced (i + 1) hi).2
      omega
    -- the arrivals up to the late packet, and the one before it
    have hsplit : order = order.take i ++ [order[i]] ++ order[i + 1] :: order.drop (i + 2) := by
      rw [List.take_append_getElem, List.getElem_cons_drop, List.take_append_drop]
    generalize order[i] = x at hlate hnear hsplit
    generalize order[i + 1] = y at hlate hnear hsplit
    have hbefore : arrivals first order = arrivals first (order.take i) ++ [first + UInt16.ofNat x] ++
        (first + UInt16.ofNat y) :: arrivals first (order.drop (i + 2)) := by
      conv_lhs => rw [hsplit]
      simp [arrivals]
    have hfound := htolerates _ _ _ hbefore
    obtain ⟨hlast, hseq⟩ := track_last banPct (arrivals first (order.take i)) (first + UInt16.ofNat x)
    obtain ⟨-, hwindow, hcounts⟩ := counts_track banPct
      (arrivals first (order.take i) ++ [first + UInt16.ofNat x]) hlast
    obtain ⟨hfull, hzero⟩ := quality_late ⟨hcounts, hwindow⟩ hlast (gap_of_late hlate hnear hseq)
    have hle := (hfound hfull).1
    rw [hzero] at hle
    omega
  · rintro rfl before seq after hsplit
    have hlossless := lossless_in_order banPct hsplit
    have hfull : ((track rescale (newLinkQuality banPct) before).observe seq).2.1 = 100 :=
      pctOf_lossless hlossless
    refine fun _ => ⟨by omega, fun hban => ?_⟩
    rw [← Bool.not_eq_true, (counts_track banPct before).banned_iff, track_banPct, ← pctOf_window_count]
    rintro ⟨-, hlt⟩
    have hhundred : pctOf (window ((track rescale (newLinkQuality banPct) before).count seq)) = 100 := hfull
    rw [hhundred] at hlt
    have hsame : (newLinkQuality banPct).banPct = banPct := rfl
    omega

theorem displaced_range (k n : Nat) : Displaced k (List.range n) := by
  intro i hi
  rw [List.getElem_range]
  omega

/-- A full window in order across the wrap is tolerated. -/
theorem in_order_tolerated : Tolerates 1 50 (arrivals 65500 (List.range 250)) :=
  (quality_reordered_iff (by decide) 50 65500 (List.Perm.refl (List.range 250)) (displaced_range 1 250)).2 rfl

/-- Two packets that change places are taken for the loss of nearly all packets. -/
theorem swapped_banned :
    [1, 0].Perm (List.range 2) ∧ Displaced 1 [1, 0] ∧ ¬Tolerates 1 50 (arrivals 0 [1, 0]) := by
  refine ⟨by decide, ?_, fun h => ?_⟩
  · rintro (_ | _ | i) hi
    · exact ⟨le_refl 1, Nat.zero_le _⟩
    · exact ⟨Nat.zero_le _, le_refl 1⟩
    · exact absurd hi (by simp)
  · have hfound := h [1] 0 [] rfl (by decide +kernel)
    exact absurd hfound.1 (by decide +kernel)

end LinkQuality

end Simorgh.Tunnel
