import Mathlib.Data.List.Basic
import Simorgh.Lib.Bytes
import Simorgh.Lib.Separators

/-!
# Fields behind their lengths

A field is written as its length in decimal, a colon, and the field; fields are written one
after the other, without their number.

* `formatInt_injective` — a number can be told from its digits.
* `writeFields_injective` — the fields can be told from what is written.
-/

namespace Simorgh.Lib

/-! ## Numerals -/

/-- A text of one byte a character. -/
def ascii (s : List Char) : Bytes := s.map fun c => UInt8.ofNat c.toNat

/-- A number in decimal digits. -/
def decimal (n : ℕ) : Bytes := ascii (Nat.toDigits 10 n)

/-- `strconv.Itoa` and `strconv.FormatInt`. -/
def formatInt (v : ℤ) : Bytes := if v < 0 then 45 :: decimal v.natAbs else decimal v.natAbs

theorem toNat_digit {c : Char} (h : c.isDigit = true) :
    48 ≤ (UInt8.ofNat c.toNat).toNat ∧ (UInt8.ofNat c.toNat).toNat ≤ 57 ∧
      Char.ofNat (UInt8.ofNat c.toNat).toNat = c := by
  have hrange : 48 ≤ c.toNat ∧ c.toNat ≤ 57 := by
    simpa [Char.isDigit, UInt32.le_iff_toNat_le] using h
  have hbyte : (UInt8.ofNat c.toNat).toNat = c.toNat := by
    rw [UInt8.toNat_ofNat']
    omega
  rw [hbyte, Char.ofNat_toNat]
  exact ⟨hrange.1, hrange.2, rfl⟩

/-- The bytes of a number are digits. -/
theorem mem_decimal {n : ℕ} {b : UInt8} (h : b ∈ decimal n) : 48 ≤ b.toNat ∧ b.toNat ≤ 57 := by
  obtain ⟨c, hc, rfl⟩ := List.mem_map.1 h
  have hdigit := toNat_digit (Nat.isDigit_of_mem_toDigits (by decide) (by decide) hc)
  exact ⟨hdigit.1, hdigit.2.1⟩

theorem decimal_ne_nil (n : ℕ) : decimal n ≠ [] := by
  intro h
  exact Nat.toDigits_ne_nil (List.map_eq_nil_iff.1 h)

theorem decimal_injective {m n : ℕ} (h : decimal m = decimal n) : m = n := by
  have hread : ∀ n, (decimal n).map (fun b => Char.ofNat b.toNat) = Nat.toDigits 10 n := by
    intro n
    rw [decimal, ascii, List.map_map]
    refine (List.map_congr_left fun c hc => ?_).trans (List.map_id _)
    exact (toNat_digit (Nat.isDigit_of_mem_toDigits (by decide) (by decide) hc)).2.2
  have hdigits : Nat.toDigits 10 m = Nat.toDigits 10 n := by rw [← hread, ← hread, h]
  have hvalue := congrArg (fun ds => Nat.ofDigitChars 10 ds 0) hdigits
  simpa only [Nat.ofDigitChars_ten_toDigits] using hvalue

theorem minus_notMem_decimal (n : ℕ) : (45 : UInt8) ∉ decimal n := by
  intro h
  have hdigit := (mem_decimal h).1
  revert hdigit
  decide

theorem formatInt_injective {v w : ℤ} (h : formatInt v = formatInt w) : v = w := by
  unfold formatInt at h
  split at h <;> split at h
  · have habs := decimal_injective (List.cons.inj h).2
    omega
  · exact absurd (h ▸ List.mem_cons_self) (minus_notMem_decimal _)
  · exact absurd (h ▸ List.mem_cons_self) (minus_notMem_decimal _)
  · have habs := decimal_injective h
    omega

/-- The first byte of a number is a digit or a minus. -/
theorem formatInt_head (v : ℤ) : ∃ b bs, formatInt v = b :: bs ∧ b.toNat ≤ 57 := by
  obtain ⟨d, ds, hd⟩ := List.exists_cons_of_ne_nil (decimal_ne_nil v.natAbs)
  unfold formatInt
  split
  · exact ⟨45, _, rfl, by decide⟩
  · exact ⟨d, ds, hd, (mem_decimal (hd ▸ List.mem_cons_self)).2⟩

/-! ## Fields -/

/-- `writeField`. -/
def writeField (v : Bytes) : Bytes := decimal v.length ++ 58 :: v

/-- Fields one after the other. -/
def writeFields (vs : List Bytes) : Bytes := vs.flatMap writeField

theorem colon_notMem_decimal (n : ℕ) : (58 : UInt8) ∉ decimal n := by
  intro h
  have hdigit := (mem_decimal h).2
  revert hdigit
  decide

/-- The first field can be told. -/
theorem writeField_append_inj {v w rest rest' : Bytes} (h : writeField v ++ rest = writeField w ++ rest') :
    v = w ∧ rest = rest' := by
  rw [writeField, writeField, List.append_assoc, List.append_assoc] at h
  obtain ⟨hlen, htail⟩ := append_cons_inj (colon_notMem_decimal _) (colon_notMem_decimal _) h
  exact List.append_inj htail (decimal_injective hlen)

/-- The fields can be told from what is written. -/
theorem writeFields_injective {vs ws : List Bytes} (h : writeFields vs = writeFields ws) : vs = ws := by
  have hne : ∀ (v : Bytes) (vs : List Bytes), writeFields (v :: vs) ≠ [] := by
    intro v vs hnil
    have hdigits := (List.append_eq_nil_iff.1 (List.append_eq_nil_iff.1 hnil).1).1
    exact decimal_ne_nil _ hdigits
  induction vs generalizing ws with
  | nil =>
      cases ws with
      | nil => rfl
      | cons w ws => exact absurd h.symm (hne w ws)
  | cons v vs ih =>
      cases ws with
      | nil => exact absurd h (hne v vs)
      | cons w ws =>
          obtain ⟨rfl, htail⟩ := writeField_append_inj h
          rw [ih htail]

end Simorgh.Lib
