import Mathlib.Tactic.FieldSimp
import Mathlib.Tactic.Positivity
import Simorgh.Panel.Freeze

/-!
# What the multiplier bills

`multiplyDelta` counts the bytes of an account once up to a threshold and several
times beyond it.  The threshold is compared with the counter, which is the raw bytes
only as long as nothing has been weighted.

* `multiplyWith` — the same computation with another rounding; `multiplyExact` rounds
  nothing but the billed bytes.
* `billedTotal` — the billed total without wrap-around.
* `foldClientTraffic` — the bytes of a session that has ended.
* `multiplier_bills` — the counter is the raw bytes up to the threshold, is never off by
  more than half a byte for each delta, and both ways of billing come to the same.
* `started_beyond` — a counter that starts beyond the threshold, and one that wraps.
-/

namespace Simorgh.Panel

open Simorgh.Lib Simorgh.Lib.Json

/-! ## The computation with any rounding -/

/-- `multiplyDelta` with `fl` for the rounding of the float operations. -/
def multiplyWith (fl : ℚ → ℚ) (inb : Option InboundRow) (currentUpDown deltaUp deltaDown : Int) : Int × Int :=
  match inb with
  | none => (deltaUp, deltaDown)
  | some i =>
      if i.multiplierEnable = false ∨ validMultiplier i.multiplier = false then (deltaUp, deltaDown)
      else
        let raw := int64 (deltaUp + deltaDown)
        if raw ≤ 0 then (deltaUp, deltaDown)
        else
          let pre := max 0 (int64 (i.multiplierAfter - max 0 currentUpDown))
          if raw ≤ pre then (deltaUp, deltaDown)
          else
            let weighted := fl (fl (int64 (raw - pre)) * i.multiplier.getD 1)
            let billed := int64 (pre + floatToInt64 (mathRound weighted))
            let share := fl (fl deltaUp / fl raw)
            let up := floatToInt64 (mathRound (fl (fl billed * share)))
            (up, int64 (billed - up))

theorem multiplyDelta_eq : multiplyDelta = multiplyWith float64 := rfl

/-- With an exact weight and exact shares. -/
def multiplyExact : Option InboundRow → Int → Int → Int → Int × Int := multiplyWith fun q => q

/-- The counter after one delta. -/
def billCounter (i : InboundRow) (counter : Int) (delta : Int × Int) : Int :=
  let billed := multiplyExact (some i) counter delta.1 delta.2
  int64 (counter + int64 (billed.1 + billed.2))

/-! ## Without wrap-around -/

/-- The bytes of a delta that still count once. -/
def onceCounted (threshold counter raw : Int) : Int := min raw (max 0 (threshold - counter))

/-- What a delta of so many raw bytes is billed as. -/
def billedTotal (threshold : Int) (m : ℚ) (counter raw : Int) : Int :=
  onceCounted threshold counter raw + mathRound ((raw - onceCounted threshold counter raw : Int) * m)

/-- The counter after the deltas, as an integer of any size. -/
def exactCounter (threshold : Int) (m : ℚ) (counter : Int) (deltas : List (Int × Int)) : Int :=
  deltas.foldl (fun c d => c + billedTotal threshold m c (d.1 + d.2)) counter

/-- The raw bytes of the deltas. -/
def rawBytes (deltas : List (Int × Int)) : Int := (deltas.map fun d => d.1 + d.2).sum

/-- The bytes below a point once, those beyond it weighted. -/
def weightedFrom (point : Int) (m : ℚ) (raw : Int) : ℚ := (min raw point : Int) + m * (max 0 (raw - point) : Int)

section

variable {threshold counter raw : Int} {m : ℚ}

theorem mathRound_intCast (n : Int) (hn : 0 ≤ n) : mathRound n = n := by
  have hnn : (0 : ℚ) ≤ n := by exact_mod_cast hn
  rw [mathRound, if_pos hnn, Int.floor_eq_iff]
  constructor <;> linarith

theorem mathRound_zero : mathRound 0 = 0 := mathRound_intCast 0 (le_refl 0)

/-- A rounded number is off by half at most. -/
theorem abs_mathRound_sub_le {q : ℚ} (hq : 0 ≤ q) : |(mathRound q : ℚ) - q| ≤ 1 / 2 := by
  rw [mathRound, if_pos hq, abs_le]
  have hle := Int.floor_le (q + 1 / 2)
  have hlt := Int.lt_floor_add_one (q + 1 / 2)
  constructor <;> linarith

theorem mathRound_nonneg {q : ℚ} (hq : 0 ≤ q) : 0 ≤ mathRound q := by
  rw [mathRound, if_pos hq]
  exact Int.floor_nonneg.2 (by linarith)

theorem mathRound_mono {p q : ℚ} (hp : 0 ≤ p) (hpq : p ≤ q) : mathRound p ≤ mathRound q := by
  rw [mathRound, mathRound, if_pos hp, if_pos (hp.trans hpq)]
  exact Int.floor_le_floor (by linarith)

/-- A whole number of bytes is not billed as less. -/
theorem le_mathRound_mul (hm : 1 < m) {n : Int} (hn : 0 ≤ n) : n ≤ mathRound (n * m) := by
  have hnn : (0 : ℚ) ≤ n := by exact_mod_cast hn
  calc n = mathRound n := (mathRound_intCast n hn).symm
    _ ≤ mathRound (n * m) := mathRound_mono hnn (le_mul_of_one_le_right hnn hm.le)

variable (threshold counter) in
theorem onceCounted_le (hraw : 0 ≤ raw) : 0 ≤ onceCounted threshold counter raw ∧
    onceCounted threshold counter raw ≤ raw := by
  unfold onceCounted
  omega

variable (threshold counter) in
theorem raw_le_billedTotal (hm : 1 < m) (hraw : 0 ≤ raw) : raw ≤ billedTotal threshold m counter raw := by
  have hle := le_mathRound_mul hm (n := raw - onceCounted threshold counter raw)
    (by have := (onceCounted_le threshold counter hraw).2; omega)
  unfold billedTotal
  omega

/-- Below the threshold a byte is a byte. -/
theorem billedTotal_below (h : counter + raw ≤ threshold)
    (hraw : 0 ≤ raw) : billedTotal threshold m counter raw = raw := by
  have honce : onceCounted threshold counter raw = raw := by
    unfold onceCounted
    omega
  rw [billedTotal, honce, sub_self, Int.cast_zero, zero_mul, mathRound_zero, add_zero]

theorem weightedFrom_beyond {point : Int} (h : point ≤ raw) : weightedFrom point m raw = point +
    m * (raw - point : Int) := by
  rw [weightedFrom, min_eq_right h, max_eq_right (by omega)]

variable (threshold counter) in
/-- A delta and the bytes after it: what they should come to changes by the rounding of the one delta. -/
theorem abs_weightedFrom_sub_le (hm : 1 < m) (hraw : 0 ≤ raw) {rest : Int} (hrest : 0 ≤ rest) :
    |weightedFrom (max threshold (counter + billedTotal threshold m counter raw)) m
        (counter + billedTotal threshold m counter raw + rest) -
      weightedFrom (max threshold counter) m (counter + (raw + rest))| ≤ 1 / 2 := by
  rcases le_or_gt (counter + raw) threshold with hbelow | hbeyond
  · rw [billedTotal_below hbelow hraw, max_eq_left (by omega), max_eq_left (by omega), add_assoc, sub_self, abs_zero]
    norm_num
  · -- the counter is beyond the threshold from here on
    have hgrows := raw_le_billedTotal threshold counter hm hraw
    have honce : onceCounted threshold counter raw = max threshold counter - counter := by
      unfold onceCounted
      omega
    have hweighted : (0 : ℚ) ≤ (counter + raw - max threshold counter : Int) * m := by
      apply mul_nonneg
      · exact_mod_cast (by omega : 0 ≤ counter + raw - max threshold counter)
      · linarith
    have htotal : counter + billedTotal threshold m counter raw =
        max threshold counter + mathRound ((counter + raw - max threshold counter : Int) * m) := by
      have hsub : raw - (max threshold counter - counter) = counter + raw - max threshold counter := by ring
      rw [billedTotal, honce, hsub]
      ring
    have hround := abs_mathRound_sub_le hweighted
    rw [max_eq_right (by omega), weightedFrom_beyond (by omega), weightedFrom_beyond (by omega), htotal]
    convert hround using 2
    push_cast
    ring

variable {deltas : List (Int × Int)}

theorem exactCounter_cons (delta : Int × Int) :
    exactCounter threshold m counter (delta :: deltas) =
      exactCounter threshold m (counter + billedTotal threshold m counter (delta.1 + delta.2)) deltas := rfl

theorem rawBytes_cons (delta : Int × Int) : rawBytes (delta :: deltas) = delta.1 + delta.2 + rawBytes deltas := by
  rw [rawBytes, List.map_cons, List.sum_cons]
  rfl

/-- The deltas that are counted: no direction is negative. -/
def Upward (deltas : List (Int × Int)) : Prop := ∀ d ∈ deltas, 0 ≤ d.1 ∧ 0 ≤ d.2

instance (deltas : List (Int × Int)) : Decidable (Upward deltas) :=
  inferInstanceAs (Decidable (∀ d ∈ deltas, 0 ≤ d.1 ∧ 0 ≤ d.2))

theorem Upward.head {delta : Int × Int} (h : Upward (delta :: deltas)) : 0 ≤ delta.1 ∧ 0 ≤ delta.2 :=
  h delta List.mem_cons_self

theorem Upward.tail {delta : Int × Int} (h : Upward (delta :: deltas)) : Upward deltas :=
  fun d hd => h d (List.mem_cons_of_mem delta hd)

theorem Upward.rawBytes_nonneg (h : Upward deltas) : 0 ≤ rawBytes deltas := by
  induction deltas with
  | nil => exact le_refl 0
  | cons d deltas ih =>
      have hd := h.head
      have hrest := ih h.tail
      rw [rawBytes_cons]
      omega

variable (threshold counter) in
/-- The counter is not behind the raw bytes. -/
theorem add_rawBytes_le_exactCounter (hm : 1 < m) (h : Upward deltas) :
    counter + rawBytes deltas ≤ exactCounter threshold m counter deltas := by
  induction deltas generalizing counter with
  | nil => exact (add_zero counter).le
  | cons d deltas ih =>
      have hd := h.head
      have hbilled := raw_le_billedTotal threshold counter hm (by omega : 0 ≤ d.1 + d.2)
      have hrest := ih (counter + billedTotal threshold m counter (d.1 + d.2)) h.tail
      rw [exactCounter_cons, rawBytes_cons]
      omega

/-- As long as the counter is not beyond the threshold it is the raw bytes. -/
theorem exactCounter_below (hm : 1 < m) (h : Upward deltas)
    (hbelow : exactCounter threshold m counter deltas ≤ threshold) :
    exactCounter threshold m counter deltas = counter + rawBytes deltas := by
  induction deltas generalizing counter with
  | nil => exact (add_zero counter).symm
  | cons d deltas ih =>
      have hd := h.head
      rw [exactCounter_cons] at hbelow ⊢
      have hbilled := raw_le_billedTotal threshold counter hm (by omega : 0 ≤ d.1 + d.2)
      have hrest := add_rawBytes_le_exactCounter threshold
        (counter + billedTotal threshold m counter (d.1 + d.2)) hm h.tail
      have hnonneg := h.tail.rawBytes_nonneg
      have hfirst : billedTotal threshold m counter (d.1 + d.2) = d.1 + d.2 :=
        billedTotal_below (by omega) (by omega)
      rw [ih h.tail hbelow, hfirst, rawBytes_cons, add_assoc]

/-- The counter is off by half a byte for each delta at most. -/
theorem abs_exactCounter_sub_le (hm : 1 < m) (h : Upward deltas) :
    |(exactCounter threshold m counter deltas : ℚ) -
      weightedFrom (max threshold counter) m (counter + rawBytes deltas)| ≤ deltas.length / 2 := by
  induction deltas generalizing counter with
  | nil =>
      have hstart : weightedFrom (max threshold counter) m (counter + rawBytes []) = counter := by
        have hnil : rawBytes [] = 0 := rfl
        rw [hnil, add_zero, weightedFrom, min_eq_left (le_max_right _ _), max_eq_left (by omega),
          Int.cast_zero, mul_zero,
          add_zero]
      rw [hstart]
      simp [exactCounter]
  | cons d deltas ih =>
      have hd := h.head
      have hstep := abs_weightedFrom_sub_le threshold counter hm
        (by omega : 0 ≤ d.1 + d.2) h.tail.rawBytes_nonneg
      have hrest := @ih (counter + billedTotal threshold m counter (d.1 + d.2)) h.tail
      rw [exactCounter_cons, rawBytes_cons]
      calc |(exactCounter threshold m (counter + billedTotal threshold m counter (d.1 + d.2)) deltas : ℚ) -
            weightedFrom (max threshold counter) m (counter + (d.1 + d.2 + rawBytes deltas))|
          ≤ _ + _ := abs_sub_le _ _ _
        _ ≤ deltas.length / 2 + 1 / 2 := add_le_add hrest hstep
        _ = (d :: deltas).length / 2 := by
          rw [List.length_cons]
          push_cast
          ring

end

/-! ## The machine -/

/-- A policy that is in force. -/
structure Weighs (i : InboundRow) (threshold : Int) (m : ℚ) : Prop where
  enable : i.multiplierEnable = true
  after : i.multiplierAfter = threshold
  multiplier : i.multiplier = some m
  range : 1 < m ∧ m ≤ maxTrafficMultiplier
  nonneg : 0 ≤ threshold
  fits : threshold < 2 ^ 63

section

variable {i : InboundRow} {threshold counter : Int} {m : ℚ}

/-- A share of a total is not more than the total. -/
theorem share_le {up raw billed : Int} (hup : 0 ≤ up) (hle : up ≤ raw) (hraw : 0 < raw) (hbilled : 0 ≤ billed) :
    0 ≤ mathRound (billed * (up / raw)) ∧ mathRound (billed * (up / raw)) ≤ billed := by
  have hrawq : (0 : ℚ) < raw := by exact_mod_cast hraw
  have hupq : (0 : ℚ) ≤ up := by exact_mod_cast hup
  have hbilledq : (0 : ℚ) ≤ billed := by exact_mod_cast hbilled
  have hshare : (up / raw : ℚ) ≤ 1 := by
    rw [div_le_one hrawq]
    exact_mod_cast hle
  have hnonneg : (0 : ℚ) ≤ billed * (up / raw) := mul_nonneg hbilledq (div_nonneg hupq hrawq.le)
  refine ⟨mathRound_nonneg hnonneg, ?_⟩
  calc mathRound (billed * (up / raw)) ≤ mathRound billed :=
    mathRound_mono hnonneg (mul_le_of_le_one_right hbilledq hshare)
    _ = billed := mathRound_intCast billed hbilled

/-- A billed pair: neither direction is negative, and together they are the billed total. -/
theorem multiplyExact_total (h : Weighs i threshold m) {up down : Int} (hcounter : 0 ≤ counter) (hup : 0 ≤ up)
    (hdown : 0 ≤ down) (hfits : counter + billedTotal threshold m counter (up + down) < 2 ^ 63) :
    0 ≤ (multiplyExact (some i) counter up down).1 ∧ 0 ≤ (multiplyExact (some i) counter up down).2 ∧
      (multiplyExact (some i) counter up down).1 + (multiplyExact (some i) counter up down).2 =
        billedTotal threshold m counter (up + down) := by
  have hvalid : validMultiplier (some m) = true := decide_eq_true h.range
  have hgrows := raw_le_billedTotal threshold counter h.range.1 (by omega : 0 ≤ up + down)
  have hthreshold := h.nonneg
  have htfits := h.fits
  have hraw : int64 (up + down) = up + down := int64_of_fits ⟨by omega, by omega⟩
  have hpre : int64 (threshold - counter) = threshold - counter := int64_of_fits ⟨by omega, by omega⟩
  unfold multiplyExact multiplyWith
  simp only [h.enable, h.after, h.multiplier, hvalid, Bool.true_eq_false, or_self, if_false, hraw,
    max_eq_right hcounter,
    hpre, Option.getD_some]
  split
  case isTrue hzero =>
    refine ⟨hup, hdown, ?_⟩
    have hempty : up + down = 0 := by omega
    have honce : onceCounted threshold counter 0 = 0 := by
      unfold onceCounted
      omega
    show up + down = _
    rw [hempty, billedTotal, honce, sub_zero, Int.cast_zero, zero_mul, mathRound_zero]
    rfl
  case isFalse hpos =>
    split
    case isTrue hbelow =>
      refine ⟨hup, hdown, ?_⟩
      exact (billedTotal_below (by omega) (by omega)).symm
    case isFalse hbeyond =>
      have honce : onceCounted threshold counter (up + down) = max 0 (threshold - counter) := by
        unfold onceCounted
        omega
      have hsub : int64 (up + down - max 0 (threshold - counter)) = up + down - max 0 (threshold - counter) :=
        int64_of_fits ⟨by omega, by omega⟩
      have htotal : max 0 (threshold - counter) + mathRound ((up + down - max 0 (threshold - counter) : Int) * m) =
          billedTotal threshold m counter (up + down) := by
        rw [billedTotal, honce]
      have hround := le_mathRound_mul h.range.1 (by omega : 0 ≤ up + down - max 0 (threshold - counter))
      have hconvert : floatToInt64 (mathRound ((up + down - max 0 (threshold - counter) : Int) * m)) =
          mathRound ((up + down - max 0 (threshold - counter) : Int) * m) :=
        floatToInt64_intCast ⟨by omega, by omega⟩
      have hbilled : int64 (billedTotal threshold m counter (up + down)) =
        billedTotal threshold m counter (up + down) :=
        int64_of_fits ⟨by omega, by omega⟩
      obtain ⟨hlow, hhigh⟩ := share_le hup (by omega : up ≤ up + down) (by omega)
        (by omega : 0 ≤ billedTotal threshold m counter (up + down))
      rw [hsub, hconvert, htotal, hbilled, floatToInt64_intCast ⟨by omega, by omega⟩,
        int64_of_fits ⟨by omega, by omega⟩]
      exact ⟨hlow, by omega, by omega⟩

/-- As long as the exact counter fits, the machine's is the same. -/
theorem foldl_billCounter (h : Weighs i threshold m) {deltas : List (Int × Int)} (hcounter : 0 ≤ counter)
    (hup : Upward deltas) (hfits : exactCounter threshold m counter deltas < 2 ^ 63) :
    deltas.foldl (billCounter i) counter = exactCounter threshold m counter deltas := by
  induction deltas generalizing counter with
  | nil => rfl
  | cons d deltas ih =>
      have hd := hup.head
      rw [exactCounter_cons] at hfits ⊢
      have hgrows := raw_le_billedTotal threshold counter h.range.1 (by omega : 0 ≤ d.1 + d.2)
      have hrest := add_rawBytes_le_exactCounter threshold
        (counter + billedTotal threshold m counter (d.1 + d.2)) h.range.1 hup.tail
      have hnonneg := hup.tail.rawBytes_nonneg
      obtain ⟨-, -, htotal⟩ := multiplyExact_total h hcounter hd.1 hd.2 (by omega)
      have hstep : billCounter i counter d = counter + billedTotal threshold m counter (d.1 + d.2) := by
        unfold billCounter
        simp only [htotal]
        rw [int64_of_fits (x := billedTotal threshold m counter (d.1 + d.2)) ⟨by omega, by omega⟩]
        exact int64_of_fits ⟨by omega, by omega⟩
      rw [List.foldl_cons, hstep]
      exact ih (by omega) hup.tail hfits

end

/-! ## The two ways of billing -/

/-- The update of a folded session.  The database adds without wrapping. -/
def foldRow (billed : Int × Int) (raw : Int) (ct : ClientTraffic) : ClientTraffic :=
  { ct with up := ct.up + billed.1, down := ct.down + billed.2, allTime := ct.allTime + raw }

theorem foldRow_email (billed : Int × Int) (raw : Int) (ct : ClientTraffic) :
    (foldRow billed raw ct).email = ct.email := rfl

/-- The policy of the inbound that a row points to. -/
def Db.policyOf (db : Db) (inboundId : Nat) : Option InboundRow :=
    if inboundId = 0 then none else db.inbounds.find? inboundId

/-- `foldClientTraffic`: the last bytes of a session, in a transaction of their own. -/
def Db.foldClientTraffic (db : Db) (t : ClientRecord) : Db :=
  if t.email = "" ∨ t.up ≤ 0 ∧ t.down ≤ 0 then db
  else match db.traffics.find? t.email with
    | none => db
    | some ct =>
        let billed := multiplyDelta (db.policyOf ct.inboundId) (int64 (ct.up + ct.down)) t.up t.down
        { db with
          traffics := db.traffics.modify t.email (foldRow billed (int64 (t.up + t.down))) (foldRow_email billed _) }

/-- What is billed to an account. -/
def ClientTraffic.counters (ct : ClientTraffic) : Int × Int × Int := (ct.up, ct.down, ct.allTime)

/-- The counters of an account. -/
def Db.counters? (db : Db) (email : String) : Option (Int × Int × Int) :=
    (db.traffics.find? email).map ClientTraffic.counters

/-- The counters are machine integers. -/
def ClientTraffic.Counts (ct : ClientTraffic) : Prop := FitsInt64 ct.up ∧ FitsInt64 ct.down ∧ FitsInt64 ct.allTime

/-- Named accounts, and bytes that are not negative. -/
def Sessions (records : List ClientRecord) : Prop := ∀ t ∈ records, t.email ≠ "" ∧ 0 ≤ t.up ∧ 0 ≤ t.down

/-- What one session does to a row. -/
def foldOnto (policy : Option InboundRow) (email : String) (ct : ClientTraffic) (t : ClientRecord) : ClientTraffic :=
  if t.email ≠ email ∨ t.up ≤ 0 ∧ t.down ≤ 0 then ct
  else foldRow (multiplyDelta policy (int64 (ct.up + ct.down)) t.up t.down) (int64 (t.up + t.down)) ct

section

variable {db : Db} {records : List ClientRecord} {policy : Option InboundRow} {email : String} {ct : ClientTraffic}

theorem inbounds_foldClientTraffic (t : ClientRecord) : (db.foldClientTraffic t).inbounds = db.inbounds := by
  unfold Db.foldClientTraffic
  split
  · rfl
  · split <;> rfl

theorem foldOnto_inboundId (t : ClientRecord) : (foldOnto policy email ct t).inboundId = ct.inboundId := by
  unfold foldOnto
  split <;> rfl

theorem find?_foldClientTraffic (t : ClientRecord) (hname : t.email ≠ "") (email : String) :
    (db.foldClientTraffic t).traffics.find? email =
      (db.traffics.find? email).map fun ct => foldOnto (db.policyOf ct.inboundId) email ct t := by
  unfold Db.foldClientTraffic
  by_cases hempty : t.up ≤ 0 ∧ t.down ≤ 0
  · have hsame : ∀ ct : ClientTraffic, foldOnto (db.policyOf ct.inboundId) email ct t = ct :=
      fun ct => if_pos (Or.inr hempty)
    rw [if_pos (Or.inr hempty), funext hsame, Option.map_id']
  · rw [if_neg (not_or.2 ⟨hname, hempty⟩)]
    by_cases hemail : t.email = email
    · subst hemail
      have hfolds : ∀ ct : ClientTraffic, foldOnto (db.policyOf ct.inboundId) t.email ct t = foldRow
          (multiplyDelta (db.policyOf ct.inboundId) (int64 (ct.up + ct.down)) t.up t.down)
            (int64 (t.up + t.down)) ct := by
        intro ct
        exact if_neg (not_or.2 ⟨not_not.2 rfl, hempty⟩)
      rw [funext hfolds]
      cases hfind : db.traffics.find? t.email with
      | none =>
          dsimp only
          rw [hfind, Option.map_none]
      | some ct =>
          dsimp only
          rw [Table.find?_modify_self, hfind, Option.map_some, Option.map_some]
    · have hsame : ∀ ct : ClientTraffic, foldOnto (db.policyOf ct.inboundId) email ct t = ct :=
        fun ct => if_pos (Or.inl hemail)
      rw [funext hsame, Option.map_id']
      cases hfind : db.traffics.find? t.email with
      | none => rfl
      | some ct =>
          dsimp only
          rw [Table.find?_modify_of_ne (Ne.symm hemail)]

variable (db) in
/-- The sessions of an account, one after another. -/
theorem find?_foldl_foldClientTraffic (hnames : Sessions records) (email : String) :
    (records.foldl Db.foldClientTraffic db).traffics.find? email =
      (db.traffics.find? email).map fun ct => records.foldl (foldOnto (db.policyOf ct.inboundId) email) ct := by
  induction records generalizing db with
  | nil => simp
  | cons t records ih =>
      have hrest : Sessions records := fun r hr => hnames r (List.mem_cons_of_mem t hr)
      have hpolicy : (db.foldClientTraffic t).policyOf = db.policyOf := by
        unfold Db.policyOf
        rw [inbounds_foldClientTraffic]
      rw [List.foldl_cons, ih _ hrest, find?_foldClientTraffic t (hnames t List.mem_cons_self).1,
        Option.map_map, hpolicy]
      refine congrArg (Option.map · _) (funext fun ct => ?_)
      simp only [Function.comp_apply, foldOnto_inboundId, List.foldl_cons]

/-- A row that differs in the counters' company only. -/
def Beside (ct ct' : ClientTraffic) : Prop := ct'.counters = ct.counters ∧ ct'.email = ct.email ∧
    ct'.inboundId = ct.inboundId

/-- A record of the tick and a session come to the same where the sums fit. -/
theorem Beside.bill {ct' : ClientTraffic} (h : Beside ct ct') {t : ClientRecord} (hup : 0 ≤ t.up) (hdown : 0 ≤ t.down)
    (hct : ct.Counts) (hfits : (foldOnto policy t.email ct t).Counts) :
    Beside (foldOnto policy t.email ct t) (billRow policy ct' t) := by
  obtain ⟨hcounters, hemail, hinbound⟩ := h
  have hcts : ct'.up = ct.up ∧ ct'.down = ct.down ∧ ct'.allTime = ct.allTime := by
    simpa only [ClientTraffic.counters, Prod.mk.injEq] using hcounters
  obtain ⟨hup', hdown', hall'⟩ := hcts
  by_cases hempty : t.up ≤ 0 ∧ t.down ≤ 0
  · have hzero : t.up = 0 ∧ t.down = 0 := by omega
    have hraw : multiplyDelta policy (int64 (ct.up + ct.down)) 0 0 = (0, 0) := by
      unfold multiplyDelta
      split
      · rfl
      · split
        · rfl
        · exact if_pos (le_refl 0)
    rw [foldOnto, if_pos (Or.inr hempty)]
    refine ⟨?_, hemail, hinbound⟩
    unfold billRow ClientTraffic.counters
    simp only [hup', hdown', hall', hzero.1, hzero.2, hraw, add_zero, int64_of_fits hct.1, int64_of_fits hct.2.1]
    rw [show int64 0 = 0 from rfl, add_zero, int64_of_fits hct.2.2]
  · have hfolds : foldOnto policy t.email ct t =
        foldRow (multiplyDelta policy (int64 (ct.up + ct.down)) t.up t.down) (int64 (t.up + t.down)) ct :=
      if_neg (not_or.2 ⟨not_not.2 rfl, hempty⟩)
    rw [hfolds] at hfits ⊢
    refine ⟨?_, hemail, hinbound⟩
    unfold billRow ClientTraffic.counters
    simp only [hup', hdown', hall']
    refine Prod.ext ?_ (Prod.ext ?_ ?_)
    · exact int64_of_fits hfits.1
    · exact int64_of_fits hfits.2.1
    · exact int64_of_fits hfits.2.2

/-- All the records of an account. -/
theorem Beside.foldl {ct' : ClientTraffic} (h : Beside ct ct') (hsessions : Sessions records)
    (hfits : ∀ p, p <+: records → (p.foldl (foldOnto policy email) ct).Counts) :
    Beside (records.foldl (foldOnto policy email) ct)
      ((records.filter fun t => decide (t.email = email)).foldl (billRow policy) ct') := by
  induction records generalizing ct ct' with
  | nil => exact h
  | cons t records ih =>
      have hrest : Sessions records := fun r hr => hsessions r (List.mem_cons_of_mem t hr)
      have hnext : ∀ p, p <+: records → (p.foldl (foldOnto policy email) (foldOnto policy email ct t)).Counts :=
        fun p hp => hfits (t :: p) (List.cons_prefix_cons.2 ⟨rfl, hp⟩)
      rw [List.foldl_cons]
      by_cases hemail : t.email = email
      · subst hemail
        rw [List.filter_cons_of_pos (by simp), List.foldl_cons]
        obtain ⟨-, hup, hdown⟩ := hsessions t List.mem_cons_self
        exact ih (h.bill hup hdown (hfits [] List.nil_prefix) (hnext [] List.nil_prefix)) hrest hnext
      · have hsame : foldOnto policy email ct t = ct := if_pos (Or.inl hemail)
        rw [List.filter_cons_of_neg (by simpa using hemail)]
        rw [hsame] at hnext ⊢
        exact ih h hrest hnext

/-- A row without its expiry. -/
def ClientTraffic.untimed (ct : ClientTraffic) : ClientTraffic := { ct with expiryTime := 0 }

theorem Beside.of_untimed {ct' : ClientTraffic} (h : ct'.untimed = ct.untimed) : Beside ct ct' := by
  have hcounters : ct'.untimed.counters = ct.untimed.counters := by rw [h]
  have hemail : ct'.untimed.email = ct.untimed.email := by rw [h]
  have hinbound : ct'.untimed.inboundId = ct.untimed.inboundId := by rw [h]
  exact ⟨hcounters, hemail, hinbound⟩

/-- A start moves nothing but the expiry. -/
theorem startEntry_untimed {now : Int} {rows rows' : List ClientTraffic} {d d' : Doc}
    (h : startEntry now rows d = some (rows', d')) : rows'.map ClientTraffic.untimed =
      rows.map ClientTraffic.untimed := by
  unfold startEntry at h
  split at h
  · cases h
    rfl
  case h_2 k hk =>
    split at h
    · cases h
      refine List.ext_getElem? fun n => ?_
      simp only [List.getElem?_map, List.getElem?_modify]
      cases rows[n]? with
      | none => rfl
      | some r =>
          by_cases hkn : k = n
          · simp only [hkn, if_true, Option.map_some]
            rfl
          · simp only [hkn, if_false]
            rfl
    · cases h

theorem startEntries_untimed {now : Int} {rows rows' : List ClientTraffic} {ds ds' : List Doc}
    (h : startEntries now rows ds = some (rows', ds')) : rows'.map ClientTraffic.untimed =
      rows.map ClientTraffic.untimed := by
  induction ds generalizing rows rows' ds' with
  | nil =>
      cases h
      rfl
  | cons d ds ih =>
      simp only [startEntries, Option.bind_eq_bind, Option.bind_eq_some_iff, Option.some.injEq, Prod.mk.injEq,
        Prod.exists] at h
      obtain ⟨rows₁, d₁, hentry, rows₂, ds₂, hrest, rfl, -⟩ := h
      exact (ih hrest).trans (startEntry_untimed hentry)

theorem startInbounds_untimed {now : Int} {rows rows' : List ClientTraffic} {is is' : List InboundRow}
    (h : startInbounds now rows is = some (rows', is')) : rows'.map ClientTraffic.untimed =
      rows.map ClientTraffic.untimed := by
  induction is generalizing rows rows' is' with
  | nil =>
      cases h
      rfl
  | cons i is ih =>
      simp only [startInbounds, Option.bind_eq_bind, Option.bind_eq_some_iff, Option.some.injEq, Prod.mk.injEq,
        Prod.exists] at h
      obtain ⟨rows₁, clients, hentries, rows₂, is₂, hrest, rfl, -⟩ := h
      exact (ih hrest).trans (startEntries_untimed hentries)

/-- An inbound whose entries were written back weighs the same. -/
theorem RewrittenRow.multiplyDelta_eq {i i' : InboundRow} (h : RewrittenRow i i') :
    multiplyDelta (some i') = multiplyDelta (some i) := by
  obtain ⟨ds, -, rfl⟩ := h
  rfl

theorem multiplyDelta_saved {loaded : List InboundRow} {ids : List Nat}
    (h : List.Forall₂ RewrittenRow (loadInbounds ids db) loaded) (id : Nat) :
    multiplyDelta ((saveInbounds db.inbounds loaded).find? id) = multiplyDelta (db.inbounds.find? id) := by
  have hsaved := saveInbounds_forall₂ RewrittenRow.refl (fun _ _ => RewrittenRow.id) h
  have hid : ∀ a b : InboundRow, RewrittenRow a b → decide (b.id = id) = decide (a.id = id) :=
    fun a b hab => by rw [hab.id]
  cases hfind : db.inbounds.find? id with
  | none =>
      have hnone : (saveInbounds db.inbounds loaded).find? id = none := by
        refine Table.find?_eq_none.2 fun i' hi' => ?_
        obtain ⟨i, hi, hrow⟩ := exists_of_forall₂ hsaved hi'
        rw [hrow.id]
        exact Table.find?_eq_none.1 hfind i hi
      rw [hnone]
  | some i =>
      obtain ⟨i', hi', hrow⟩ := find?_of_forall₂ hid hsaved hfind
      have hsome : (saveInbounds db.inbounds loaded).find? id = some i' := hi'
      rw [hsome, hrow.multiplyDelta_eq]

theorem billRow_congr {p q : Option InboundRow} (h : multiplyDelta p = multiplyDelta q) : billRow p = billRow q := by
  funext ct t
  unfold billRow
  rw [h]

theorem billRow_foldl_email (own : List ClientRecord) (ct : ClientTraffic) :
    (own.foldl (billRow policy) ct).email = ct.email := by
  induction own generalizing ct with
  | nil => rfl
  | cons t own ih => exact ih (billRow policy ct t)

/-- The row that a batch leaves of an account. -/
theorem find?_bookClients {h : Host} {db' : Db} (hbook : db.bookClients false h records = some db') (email : String) :
    (db'.traffics.find? email = none ∧ db.traffics.find? email = none) ∨
    ∃ ct ct₁ ct', db.traffics.find? email = some ct ∧ Beside ct ct₁ ∧ db'.traffics.find? email = some ct' ∧
      ct'.counters = ((records.filter fun t => decide (t.email = email)).foldl
        (billRow (db.policyOf ct.inboundId)) ct₁).counters := by
  simp only [Db.bookClients, Bool.false_or, Option.bind_eq_bind, Option.bind_eq_some_iff, Option.some.injEq,
    Prod.exists] at hbook
  obtain ⟨rows₁, inbounds, hstart, rfl⟩ := hbook
  have huntimed := startInbounds_untimed hstart
  have hrewritten := (startInbounds_carries hstart).2
  generalize hpolicy : (fun id => if decide (id = 0) = true then none else
    (saveInbounds db.inbounds inbounds).find? id) = policy
  have hsame : ∀ id, billRow (policy id) = billRow (db.policyOf id) := by
    intro id
    apply billRow_congr
    rw [← hpolicy, Db.policyOf]
    dsimp only
    by_cases hzero : id = 0
    · rw [if_pos hzero, if_pos (decide_eq_true hzero)]
    · rw [if_neg hzero, if_neg (by simpa using hzero), multiplyDelta_saved hrewritten]
  have hemails : (billRows policy records rows₁).map (·.email) = (batchRows records db).map (·.email) := by
    rw [(billRows_followed _ _ _).emails, (startInbounds_carries hstart).1.emails]
  have hnodup : ((billRows policy records rows₁).map (·.email)).Nodup := by
    rw [hemails]
    exact db.traffics.unique.sublist (List.filter_sublist.map _)
  show ((saveRows db.traffics (billRows policy records rows₁)).find? email = none ∧ _) ∨ _
  rw [saveRows, Table.find?_foldl_modify ClientTraffic.over_email hnodup]
  cases hfind : db.traffics.find? email with
  | none => exact Or.inl ⟨rfl, rfl⟩
  | some ct =>
      have hct : ct.email = email := (Table.find?_some hfind).2
      -- the row as it was loaded and started
      have hstarted : (rows₁.find? fun r => decide (r.email = email)).map ClientTraffic.untimed =
          ((batchRows records db).find? fun r => decide (r.email = email)).map ClientTraffic.untimed := by
        have hmap := congrArg (List.find? fun r : ClientTraffic => decide (r.email = email)) huntimed
        rw [List.find?_map, List.find?_map] at hmap
        exact hmap
      have hbilled : (billRows policy records rows₁).find? (fun r => decide (r.email = email)) =
          (rows₁.find? fun r => decide (r.email = email)).map fun r =>
            (records.filter fun t => decide (t.email = r.email)).foldl (billRow (policy r.inboundId)) r := by
        rw [billRows, List.find?_map]
        congr 1
        refine congrArg (fun p => List.find? p rows₁) (funext fun r => ?_)
        simp only [Function.comp_apply, billRow_foldl_email]
      refine Or.inr ⟨ct, ?_⟩
      by_cases hbatch : email ∈ records.map (·.email)
      · have hloaded : (batchRows records db).find? (fun r => decide (r.email = email)) = some ct := by
          have hmem : ct ∈ batchRows records db :=
            List.mem_filter.2 ⟨(Table.find?_some hfind).1, decide_eq_true (hct.symm ▸ hbatch)⟩
          have htable := Table.find?_of_mem
            (t := (⟨batchRows records db, hemails ▸ hnodup⟩ : Table ClientTraffic.email)) hmem
          rwa [hct] at htable
        rw [hloaded, Option.map_some] at hstarted
        obtain ⟨ct₁, hct₁, huntimed₁⟩ := Option.map_eq_some_iff.1 hstarted
        have hbeside := Beside.of_untimed huntimed₁
        refine ⟨ct₁, _, rfl, hbeside, rfl, ?_⟩
        rw [hbilled, hct₁, Option.map_some]
        dsimp only [Option.map_some, Option.getD_some]
        rw [hbeside.2.1, hct, hbeside.2.2, hsame]
        rfl
      · have hnone : (billRows policy records rows₁).find? (fun r => decide (r.email = email)) = none := by
          refine List.find?_eq_none.2 fun r hr heq => hbatch ?_
          have hmem : r.email ∈ (batchRows records db).map (·.email) := hemails ▸ List.mem_map_of_mem hr
          obtain ⟨old, hold, hsame⟩ := List.mem_map.1 hmem
          rw [← of_decide_eq_true heq, ← hsame]
          exact of_decide_eq_true (List.mem_filter.1 hold).2
        have hown : (records.filter fun t => decide (t.email = email)) = [] := by
          refine List.filter_eq_nil_iff.2 fun t ht heq => hbatch ?_
          rw [← of_decide_eq_true heq]
          exact List.mem_map_of_mem ht
        refine ⟨ct, ct, rfl, ⟨rfl, rfl, rfl⟩, ?_, ?_⟩
        · rw [hnone]
          rfl
        · rw [hown]
          rfl

/-- A tick and the same sessions one by one leave the same counters, where the sums fit. -/
theorem counters?_bookClients {h : Host} {db' : Db} (hbook : db.bookClients false h records = some db')
    (hsessions : Sessions records)
    (hfits : ∀ p, p <+: records → ∀ ct ∈ (p.foldl Db.foldClientTraffic db).traffics.rows, ct.Counts) (email : String) :
    db'.counters? email = (records.foldl Db.foldClientTraffic db).counters? email := by
  unfold Db.counters?
  rw [find?_foldl_foldClientTraffic db hsessions]
  rcases find?_bookClients hbook email with ⟨hnone', hnone⟩ | ⟨ct, ct₁, ct', hct, hbeside, hct', hcounters⟩
  · rw [hnone', hnone]
    rfl
  · rw [hct', hct, Option.map_some, Option.map_some, Option.map_some, hcounters]
    refine congrArg some (hbeside.foldl hsessions fun p hp => ?_).1
    have hp' : Sessions p := fun t ht => hsessions t (hp.subset ht)
    have hrow := find?_foldl_foldClientTraffic db hp' email
    rw [hct, Option.map_some] at hrow
    exact hfits p hp _ (Table.find?_some hrow).1

end

/-! ## What is billed -/

theorem exactCounter_append {threshold counter : Int} {m : ℚ} (p q : List (Int × Int)) :
    exactCounter threshold m counter (p ++ q) = exactCounter threshold m (exactCounter threshold m counter p) q :=
  List.foldl_append

/-- The counter only grows. -/
theorem exactCounter_prefix_le (threshold counter : Int) {m : ℚ}
    (hm : 1 < m) {p deltas : List (Int × Int)} (hp : p <+: deltas)
    (hup : Upward deltas) : exactCounter threshold m counter p ≤ exactCounter threshold m counter deltas := by
  obtain ⟨rest, rfl⟩ := hp
  have hrest : Upward rest := fun d hd => hup d (List.mem_append_right p hd)
  have hle := add_rawBytes_le_exactCounter threshold (exactCounter threshold m counter p) hm hrest
  have hnonneg := hrest.rawBytes_nonneg
  rw [exactCounter_append]
  omega

/-- As long as the counter fits it is the raw bytes up to the threshold, and beyond it is off by half a byte for each
delta at most; a billed pair is what the delta is billed as; and a tick bills what the same sessions are billed one
by one. -/
theorem multiplier_bills (i : InboundRow) (threshold counter : Int) (m : ℚ) (deltas : List (Int × Int))
    (hweighs : Weighs i threshold m) (hcounter : 0 ≤ counter) (hup : Upward deltas)
    (hfits : exactCounter threshold m counter deltas < 2 ^ 63) :
    (∀ p, p <+: deltas → p.foldl (billCounter i) counter ≤ threshold →
      p.foldl (billCounter i) counter = counter + rawBytes p) ∧
    |((deltas.foldl (billCounter i) counter : Int) : ℚ) -
      weightedFrom (max threshold counter) m (counter + rawBytes deltas)| ≤ deltas.length / 2 ∧
    (∀ p d, p ++ [d] <+: deltas →
      0 ≤ (multiplyExact (some i) (p.foldl (billCounter i) counter) d.1 d.2).1 ∧
      0 ≤ (multiplyExact (some i) (p.foldl (billCounter i) counter) d.1 d.2).2 ∧
      (multiplyExact (some i) (p.foldl (billCounter i) counter) d.1 d.2).1 +
        (multiplyExact (some i) (p.foldl (billCounter i) counter) d.1 d.2).2 =
          billedTotal threshold m (p.foldl (billCounter i) counter) (d.1 + d.2)) ∧
    ∀ (h : Host) (db db' : Db) (records : List ClientRecord), db.bookClients false h records = some db' →
      Sessions records →
      (∀ p, p <+: records → ∀ ct ∈ (p.foldl Db.foldClientTraffic db).traffics.rows, ct.Counts) →
      ∀ email, db'.counters? email = (records.foldl Db.foldClientTraffic db).counters? email := by
  have hm := hweighs.range.1
  have hupward : ∀ p, p <+: deltas → Upward p := fun p hp d hd => hup d (hp.subset hd)
  have hmachine : ∀ p, p <+: deltas → p.foldl (billCounter i) counter = exactCounter threshold m counter p :=
    fun p hp => foldl_billCounter hweighs hcounter (hupward p hp)
      (lt_of_le_of_lt (exactCounter_prefix_le _ _ hm hp hup) hfits)
  refine ⟨fun p hp hbelow => ?_, ?_, fun p d hp => ?_, fun h db db' records hbook hsessions hcounts email => ?_⟩
  · rw [hmachine p hp] at hbelow ⊢
    exact exactCounter_below hm (hupward p hp) hbelow
  · rw [hmachine deltas List.prefix_rfl]
    exact abs_exactCounter_sub_le hm hup
  · have hbefore : p <+: deltas := (List.prefix_append p [d]).trans hp
    have hd : 0 ≤ d.1 ∧ 0 ≤ d.2 := hupward _ hp d (List.mem_append_right p List.mem_cons_self)
    have hgrows := add_rawBytes_le_exactCounter threshold counter hm (hupward p hbefore)
    have hnonneg := (hupward p hbefore).rawBytes_nonneg
    have hle := exactCounter_prefix_le threshold counter hm hp hup
    rw [exactCounter_append, exactCounter_cons] at hle
    rw [hmachine p hbefore]
    exact multiplyExact_total hweighs (by omega) hd.1 hd.2 (lt_of_le_of_lt hle hfits)
  · exact counters?_bookClients hbook hsessions hcounts email

/-- Half as much again beyond ten bytes, or any other policy. -/
def weighingInbound (threshold : Int) (m : ℚ) : InboundRow where
  base := { id := 1, tag := "inbound-443", protocol := .vless, settings := { clients := [] } }
  multiplierEnable := true
  multiplierAfter := threshold
  multiplier := some m

theorem three_halves_billed :
    ([(1, 2), (0, 3)] : List (Int × Int)).foldl (billCounter (weighingInbound 10 (3 / 2))) 8 = 17 ∧
      |((17 : Int) : ℚ) - weightedFrom 10 (3 / 2) 14| ≤ 1 := by
  have hweighs : Weighs (weighingInbound 10 (3 / 2)) 10 (3 / 2) := by
    refine ⟨rfl, rfl, rfl, ?_, ?_, ?_⟩ <;> decide +kernel
  have hbilled := multiplier_bills (weighingInbound 10 (3 / 2)) 10 8
    (3 / 2) [(1, 2), (0, 3)] hweighs (by decide) (by decide)
    (by decide +kernel)
  have hcounter : ([(1, 2), (0, 3)] : List (Int × Int)).foldl (billCounter (weighingInbound 10 (3 / 2))) 8 = 17 := by
    decide +kernel
  refine ⟨hcounter, ?_⟩
  have herror := hbilled.2.1
  rw [hcounter] at herror
  norm_num [rawBytes] at herror ⊢
  exact herror

/-- A counter of twenty that starts beyond a threshold of ten is billed ten bytes for five and not weighted from ten
on.  One at the end of its range turns negative. -/
theorem started_beyond :
    Weighs (weighingInbound 10 2) 10 2 ∧ billCounter (weighingInbound 10 2) 20 (0, 5) = 30 ∧
      weightedFrom 10 2 (20 + 5) = 40 ∧
      billCounter (weighingInbound 10 2) maxInt64 (0, 1) = -2 ^ 63 + 1 := by
  refine ⟨⟨rfl, rfl, rfl, ?_, ?_, ?_⟩, ?_, ?_, ?_⟩ <;> decide +kernel

end Simorgh.Panel
