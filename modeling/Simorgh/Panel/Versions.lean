import Mathlib.Data.List.GetD
import Mathlib.Order.PiLex
import Simorgh.Lib.Padded
import Simorgh.Lib.Separators
import Simorgh.Panel.Model

/-!
# Versions of the panel

The panel offers an update when `versionNewer` says that the tag of the latest release is newer
than the running version, and tells an upload's direction by it.

* `atoi`, `versionNewer`, `parsablePanelVersion`, `comparePanelVersions` — the code.
* `versionNewer_eq_true_iff` — it compares what `Atoi` makes of the components, in the
  lexicographic order with zeros where a version has ended.
* `Promised` — a strict order, that of the numbers on dotted decimal versions, and false on a
  first version that is not one.
* `promised_iff` — that is so of the versions that are blank, and of those that are dotted
  decimals in which nothing but zeros follows a component of the greatest `int`.
-/

namespace Simorgh.Panel.Versions

open Simorgh.Lib

/-! ## Numbers -/

/-- The errors of `strconv.Atoi`. -/
inductive NumError where
  | errSyntax
  | errRange
  deriving DecidableEq

/-- The greatest 64-bit number. -/
def maxUint64 : ℕ := 0xffffffffffffffff

/-- The greatest `int`. -/
def maxInt : ℕ := 0x7fffffffffffffff

/-- The loop of `ParseUint`: a number that gets too large ends it, whatever the rest is. -/
def parseUintLoop : List Char → ℕ → ℕ × Option NumError
  | [], n => (n, none)
  | c :: cs, n =>
      if c.isDigit = false then (0, some .errSyntax)
      else if maxUint64 / 10 + 1 ≤ n then (maxUint64, some .errRange)
      else
        let n1 := (10 * n + (c.toNat - '0'.toNat)) % 0x10000000000000000
        if n1 < 10 * n then (maxUint64, some .errRange) else parseUintLoop cs n1

/-- `strconv.ParseUint` in base ten. -/
def parseUint (s : List Char) : ℕ × Option NumError :=
  if s = [] then (0, some .errSyntax) else parseUintLoop s 0

/-- `ParseInt` in base ten for an `int` of 64 bits. -/
def parseInt (s : List Char) : ℤ × Option NumError :=
  match s with
  | [] => (0, some .errSyntax)
  | c :: cs =>
      let neg := c == '-'
      let digits := if c = '+' ∨ c = '-' then cs else s
      match parseUint digits with
      | (_, some .errSyntax) => (0, some .errSyntax)
      | (un, _) =>
          if neg = false ∧ 0x8000000000000000 ≤ un then ((maxInt : ℤ), some .errRange)
          else if neg = true ∧ 0x8000000000000000 < un then (-0x8000000000000000, some .errRange)
          else (if neg then -(un : ℤ) else un, none)

/-- `strconv.Atoi`. -/
def atoi (s : List Char) : ℤ × Option NumError := parseInt s

/-! ## Versions -/

/-- `strings.TrimPrefix`. -/
def trimPrefix (s p : List Char) : List Char := if p.isPrefixOf s then s.drop p.length else s

/-- A version without the space around it and the `v` before it. -/
def stripped (s : String) : List Char := trimPrefix (trimSpace s).toList ['v']

/-- The parts between the dots. -/
def components (s : String) : List (List Char) := (stripped s).splitOn '.'

/-- What the loop reads at a place; the error of `Atoi` is dropped. -/
def readAt (parts : List (List Char)) (i : ℕ) : ℤ :=
  match parts[i]? with
  | some part => (atoi part).1
  | none => 0

/-- The first is the newer version. -/
def versionNewer (a b : String) : Bool :=
  if stripped a = [] then false
  else
    let pa := components a
    let pb := components b
    let n := if pa.length < pb.length then pb.length else pa.length
    scan (readAt pa) (readAt pb) 0 n

/-- A decimal number of any length. -/
def Decimal (part : List Char) : Prop := part ≠ [] ∧ ∀ c ∈ part, c.isDigit = true

instance (part : List Char) : Decidable (Decimal part) :=
  @instDecidableAnd _ _ _ (List.decidableBAll _ part)

/-- `panelVersionPattern` on the trimmed version: a `v` or none, and decimal numbers with dots
between them. -/
def parsablePanelVersion (v : String) : Bool := decide (∀ part ∈ components v, Decimal part)

/-- Which way a version lies. -/
inductive Direction where
  | upgrade
  | downgrade
  | same
  | unknown
  deriving DecidableEq

/-- Which way the staged version lies. -/
def comparePanelVersions (staged current : String) : Direction :=
  if parsablePanelVersion staged = false ∨ parsablePanelVersion current = false then .unknown
  else if versionNewer staged current then .upgrade
  else if versionNewer current staged then .downgrade
  else .same

example : versionNewer "1.10.0" "v1.9" = true ∧ versionNewer "1.8" "1.8.0" = false ∧
    comparePanelVersions "nightly" "1.8.5" = .unknown := by decide +kernel

/-! ## What the numbers are read as -/

/-- The value of a decimal number. -/
def value (part : List Char) : ℕ := Nat.ofDigitChars 10 part 0

theorem toNat_of_isDigit {c : Char} (h : c.isDigit = true) : c.toNat - '0'.toNat ≤ 9 := by
  have hrange := Char.isDigit_iff_toNat.1 h
  change 48 ≤ c.toNat ∧ c.toNat ≤ 57 at hrange
  change c.toNat - 48 ≤ 9
  omega

theorem le_ofDigitChars (cs : List Char) (n : ℕ) : n ≤ Nat.ofDigitChars 10 cs n := by
  induction cs generalizing n with
  | nil => rw [Nat.ofDigitChars_nil]
  | cons c cs ih =>
      rw [Nat.ofDigitChars_cons]
      exact le_trans (by omega) (ih _)

/-- Digits are read as their number, up to the greatest there is. -/
theorem parseUintLoop_of_digits {cs : List Char} (h : ∀ c ∈ cs, c.isDigit = true) {n : ℕ}
    (hn : n ≤ maxUint64) :
    parseUintLoop cs n =
      if Nat.ofDigitChars 10 cs n ≤ maxUint64 then (Nat.ofDigitChars 10 cs n, none)
      else (maxUint64, some .errRange) := by
  induction cs generalizing n with
  | nil => rw [Nat.ofDigitChars_nil, if_pos hn, parseUintLoop]
  | cons c cs ih =>
      have hc : c.isDigit = true := h c List.mem_cons_self
      have hd := toNat_of_isDigit hc
      have hgrow := le_ofDigitChars cs (10 * n + (c.toNat - '0'.toNat))
      rw [Nat.ofDigitChars_cons, parseUintLoop, if_neg (by rw [hc]; exact Bool.noConfusion)]
      generalize c.toNat - '0'.toNat = d at hd hgrow ⊢
      by_cases hlarge : maxUint64 / 10 + 1 ≤ n
      · rw [if_pos hlarge, if_neg]
        unfold maxUint64 at hlarge ⊢
        omega
      · rw [if_neg hlarge]
        by_cases hover : 0x10000000000000000 ≤ 10 * n + d
        · rw [if_pos, if_neg]
          · unfold maxUint64
            omega
          · unfold maxUint64 at hlarge
            omega
        · have hmod : (10 * n + d) % 0x10000000000000000 = 10 * n + d := Nat.mod_eq_of_lt (by omega)
          have hnext : 10 * n + d ≤ maxUint64 := by
            unfold maxUint64
            omega
          simp only [hmod]
          rw [if_neg (by omega), ih (fun c hc => h c (List.mem_cons_of_mem _ hc)) hnext]

/-- What has no sign is read as the unsigned number, up to the greatest `int`. -/
theorem atoi_of_parseUint {c : Char} {cs : List Char} {un : ℕ} {err : Option NumError}
    (hsign : ¬ (c = '+' ∨ c = '-')) (hun : parseUint (c :: cs) = (un, err))
    (herr : err ≠ some .errSyntax) : (atoi (c :: cs)).1 = ((min maxInt un : ℕ) : ℤ) := by
  have hneg : (c == '-') = false := beq_false_of_ne fun heq => hsign (.inr heq)
  have hread : atoi (c :: cs) =
      if 0x8000000000000000 ≤ un then ((maxInt : ℤ), some .errRange) else ((un : ℤ), none) := by
    rw [atoi, parseInt]
    simp only [hneg, if_neg hsign, hun]
    cases err with
    | none => simp
    | some e =>
        cases e with
        | errSyntax => exact absurd rfl herr
        | errRange => simp
  rw [hread]
  split_ifs with hlarge
  · rw [min_eq_left]
    unfold maxInt
    omega
  · rw [min_eq_right]
    unfold maxInt
    omega

/-- A decimal number is read as itself, up to the greatest `int`. -/
theorem atoi_of_decimal {part : List Char} (h : Decimal part) :
    (atoi part).1 = ((min maxInt (value part) : ℕ) : ℤ) := by
  obtain ⟨hne, hdigits⟩ := h
  cases part with
  | nil => exact absurd rfl hne
  | cons c cs =>
      have hc : c.isDigit = true := hdigits c List.mem_cons_self
      have hsign : ¬ (c = '+' ∨ c = '-') := by
        rintro (rfl | rfl) <;> exact absurd hc (by decide)
      have hun : parseUint (c :: cs) =
          if value (c :: cs) ≤ maxUint64 then (value (c :: cs), none)
          else (maxUint64, some .errRange) := by
        rw [parseUint, if_neg hne]
        exact parseUintLoop_of_digits hdigits (Nat.zero_le _)
      split_ifs at hun with hfits
      · exact atoi_of_parseUint hsign hun (by simp)
      · rw [atoi_of_parseUint hsign hun (by simp), min_eq_left (by decide), min_eq_left]
        exact le_trans (by decide) (not_le.1 hfits).le

/-! ## The order -/

/-- The components as the loop reads them. -/
def readings (s : String) : List ℤ := (components s).map fun part => (atoi part).1

theorem readAt_components (s : String) (i : ℕ) : readAt (components s) i = (readings s).getD i 0 := by
  rw [readAt, readings, List.getD_eq_getElem?_getD, List.getElem?_map]
  cases (components s)[i]? <;> rfl

/-- The loop decides the lexicographic order of what it reads, with zeros where a version has
ended. -/
theorem versionNewer_eq_true_iff {a b : String} :
    versionNewer a b = true ↔ stripped a ≠ [] ∧ padded 0 (readings b) < padded 0 (readings a) := by
  by_cases hblank : stripped a = []
  · rw [versionNewer, if_pos hblank]
    exact iff_of_false Bool.false_ne_true fun h => h.1 hblank
  · have hend : ∀ j, (if (components a).length < (components b).length then (components b).length
        else (components a).length) ≤ j → (readings a).getD j 0 = (readings b).getD j 0 := by
      intro j hj
      have hlong : (readings a).length ≤ j ∧ (readings b).length ≤ j := by
        rw [readings, readings, List.length_map, List.length_map]
        split_ifs at hj <;> omega
      rw [List.getD_eq_default _ _ hlong.1, List.getD_eq_default _ _ hlong.2]
    rw [versionNewer, if_neg hblank]
    dsimp only
    rw [funext (readAt_components a), funext (readAt_components b), scan_eq_true_iff hend]
    exact ⟨fun h => ⟨hblank, h⟩, fun h => h.2⟩

theorem versionNewer_eq_false_iff {a b : String} :
    versionNewer a b = false ↔ ¬ (stripped a ≠ [] ∧ padded 0 (readings b) < padded 0 (readings a)) := by
  rw [← versionNewer_eq_true_iff, Bool.not_eq_true]

theorem versionNewer_irrefl (a : String) : versionNewer a a = false :=
  versionNewer_eq_false_iff.2 fun h => lt_irrefl _ h.2

theorem versionNewer_asymm {a b : String} (h : versionNewer a b = true) : versionNewer b a = false :=
  versionNewer_eq_false_iff.2 fun h' => lt_asymm (versionNewer_eq_true_iff.1 h).2 h'.2

theorem versionNewer_trans {a b c : String} (hab : versionNewer a b = true)
    (hbc : versionNewer b c = true) : versionNewer a c = true := by
  obtain ⟨hblank, hab⟩ := versionNewer_eq_true_iff.1 hab
  obtain ⟨-, hbc⟩ := versionNewer_eq_true_iff.1 hbc
  exact versionNewer_eq_true_iff.2 ⟨hblank, lt_trans hbc hab⟩

/-! ## Versions written down -/

theorem parsablePanelVersion_eq_true_iff {v : String} :
    parsablePanelVersion v = true ↔ ∀ part ∈ components v, Decimal part :=
  decide_eq_true_iff

theorem Decimal.dot_not_mem {part : List Char} (h : Decimal part) : '.' ∉ part :=
  fun hmem => absurd (h.2 '.' hmem) (by decide)

/-- The components of a version as numbers. -/
def numbers (s : String) : List ℕ := (components s).map value

/-- A dotted decimal version is read as its numbers, up to the greatest `int`. -/
theorem readings_of_parsable {v : String} (h : parsablePanelVersion v = true) :
    readings v = ((numbers v).map (min maxInt)).map fun n : ℕ => (n : ℤ) := by
  rw [readings, numbers, List.map_map, List.map_map]
  refine List.map_congr_left ?_
  intro part hpart
  exact atoi_of_decimal (parsablePanelVersion_eq_true_iff.1 h part hpart)

theorem stripped_ne_nil_of_parsable {v : String} (h : parsablePanelVersion v = true) :
    stripped v ≠ [] := by
  intro hblank
  have hpart := parsablePanelVersion_eq_true_iff.1 h [] (by simp [components, hblank])
  exact hpart.1 rfl

/-- On dotted decimal versions the loop compares the numbers up to the greatest `int`. -/
theorem versionNewer_of_parsable {a b : String} (ha : parsablePanelVersion a = true)
    (hb : parsablePanelVersion b = true) :
    versionNewer a b = true ↔
      padded 0 ((numbers b).map (min maxInt)) < padded 0 ((numbers a).map (min maxInt)) := by
  have hcast : StrictMono fun n : ℕ => (n : ℤ) := fun _ _ h => Int.ofNat_lt.2 h
  rw [versionNewer_eq_true_iff, readings_of_parsable ha, readings_of_parsable hb]
  exact (and_iff_right (stripped_ne_nil_of_parsable ha)).trans (padded_map_lt hcast)

/-- The version with these components, with a `v` before it. -/
def written (parts : List (List Char)) : String := String.ofList ('v' :: ['.'].intercalate parts)

theorem trimSpace_of_ends {c d : Char} (mid : List Char) (hc : isSpace c = false)
    (hd : isSpace d = false) :
    trimSpace (String.ofList (c :: (mid ++ [d]))) = String.ofList (c :: (mid ++ [d])) := by
  rw [trimSpace, String.toList_ofList, List.dropWhile_cons_of_neg (by rw [hc]; exact Bool.false_ne_true),
    ← List.cons_append, List.reverse_append, List.reverse_singleton, List.singleton_append,
    List.dropWhile_cons_of_neg (by rw [hd]; exact Bool.false_ne_true), List.reverse_cons,
    List.reverse_reverse]

theorem exists_intercalate_append (parts : List (List Char)) (last : List Char) (d : Char) :
    ∃ mid, ['.'].intercalate (parts ++ [last ++ [d]]) = mid ++ [d] := by
  induction parts with
  | nil => exact ⟨last, by simp⟩
  | cons part parts ih =>
      obtain ⟨mid, hmid⟩ := ih
      refine ⟨part ++ ['.'] ++ mid, ?_⟩
      rw [List.cons_append, List.intercalate_cons_of_ne_nil (by simp), hmid]
      simp

theorem components_written {parts : List (List Char)} {last : List Char} {d : Char}
    (hdot : ∀ part ∈ parts ++ [last ++ [d]], '.' ∉ part) (hd : isSpace d = false) :
    components (written (parts ++ [last ++ [d]])) = parts ++ [last ++ [d]] := by
  obtain ⟨mid, hmid⟩ := exists_intercalate_append parts last d
  have hstripped : stripped (written (parts ++ [last ++ [d]])) =
      ['.'].intercalate (parts ++ [last ++ [d]]) := by
    rw [stripped, written, hmid, trimSpace_of_ends mid (by decide) hd, String.toList_ofList]
    rfl
  rw [components, hstripped, List.splitOn_intercalate _ hdot (by simp)]

/-- A dotted decimal version written down is read back. -/
theorem written_parsable {parts : List (List Char)} {last : List Char} {d : Char}
    (h : ∀ part ∈ parts ++ [last ++ [d]], Decimal part) :
    parsablePanelVersion (written (parts ++ [last ++ [d]])) = true ∧
      numbers (written (parts ++ [last ++ [d]])) = (parts ++ [last ++ [d]]).map value := by
  have hd : isSpace d = false := by
    have hlast := h (last ++ [d]) (List.mem_append_right _ (List.mem_singleton_self _))
    exact isSpace_of_isDigit (hlast.2 d (List.mem_append_right _ (List.mem_singleton_self _)))
  have hparts := components_written (fun part hpart => (h part hpart).dot_not_mem) hd
  constructor
  · rw [parsablePanelVersion_eq_true_iff, hparts]
    exact h
  · rw [numbers, hparts]

/-! ## What is promised -/

/-- What is to be true of a version: newer is a strict order; among dotted decimal versions it is
the order of the numbers; and a version with a component that is no decimal number is newer than
none. -/
structure Promised (a : String) : Prop where
  irrefl : versionNewer a a = false
  asymm : ∀ b, versionNewer a b = true → versionNewer b a = false
  trans : ∀ b c, versionNewer a b = true → versionNewer b c = true → versionNewer a c = true
  decimal : parsablePanelVersion a = true → ∀ b, parsablePanelVersion b = true →
    (versionNewer a b = true ↔ padded 0 (numbers b) < padded 0 (numbers a))
  malformed : (∃ part ∈ components a, ¬ Decimal part) → ∀ b, versionNewer a b = false

/-- Blank, or a dotted decimal version that stops at the greatest `int`. -/
def Meant (a : String) : Prop :=
  stripped a = [] ∨ (parsablePanelVersion a = true ∧ StopsAt 0 maxInt (numbers a))

/-- Every version that is not blank is newer than one that goes on below zero. -/
theorem exists_older {a : String} (h : stripped a ≠ []) : ∃ b, versionNewer a b = true := by
  have hdot : ∀ part ∈ components a ++ [['-'] ++ ['1']], '.' ∉ part := by
    intro part hpart
    rcases List.mem_append.1 hpart with hpart | hpart
    · exact not_mem_splitOn _ part hpart
    · rw [List.mem_singleton.1 hpart]
      decide
  refine ⟨written (components a ++ [['-'] ++ ['1']]), versionNewer_eq_true_iff.2 ⟨h, ?_⟩⟩
  rw [readings, components_written hdot (by decide), List.map_append, List.map_singleton]
  exact (padded_append_singleton_lt _).2 (by decide)

/-- A component as large as the greatest `int`, and the next one. -/
theorem decimal_maxInt :
    (Decimal "9223372036854775807".toList ∧ value "9223372036854775807".toList = maxInt) ∧
      Decimal "9223372036854775808".toList ∧ value "9223372036854775808".toList = maxInt + 1 := by
  decide +kernel

/-- A dotted decimal version that goes over the greatest `int` is not newer than one that stops
there and has a component more. -/
theorem not_promised_of_over {a : String} (ha : parsablePanelVersion a = true)
    {parts more : List (List Char)} {part : List Char} (hparts : components a = parts ++ part :: more)
    (hover : maxInt < value part) : ¬ Promised a := by
  intro hpromised
  have hdecimal : ∀ p ∈ parts ++ part :: more, Decimal p := by
    rw [← hparts]
    exact parsablePanelVersion_eq_true_iff.1 ha
  have hall : ∀ p ∈ (parts ++ "9223372036854775807".toList :: more) ++ [[] ++ ['1']], Decimal p := by
    intro p hp
    rcases List.mem_append.1 hp with hp | hp
    · rcases List.mem_append.1 hp with hp | hp
      · exact hdecimal p (List.mem_append_left _ hp)
      · rcases List.mem_cons.1 hp with rfl | hp
        · exact decimal_maxInt.1.1
        · exact hdecimal p (List.mem_append_right _ (List.mem_cons_of_mem _ hp))
    · rw [List.mem_singleton.1 hp]
      decide
  obtain ⟨hb, hnumbers⟩ := written_parsable hall
  rw [List.map_append, List.map_append, List.map_cons, List.map_singleton, decimal_maxInt.1.2] at hnumbers
  have hown : numbers a = parts.map value ++ value part :: more.map value := by
    rw [numbers, hparts, List.map_append, List.map_cons]
  obtain ⟨hlt, hnot⟩ := padded_min_of_over (w := value ([] ++ ['1'])) (parts.map value) (more.map value)
    Nat.zero_le hover
  have hnewer := hpromised.decimal ha _ hb
  rw [versionNewer_of_parsable ha hb, hnumbers, hown] at hnewer
  exact hnot (hnewer.2 hlt)

/-- A dotted decimal version that goes on after the greatest `int` is newer than one that is over
it. -/
theorem not_promised_of_rest {a : String} (ha : parsablePanelVersion a = true)
    {parts more : List (List Char)} {part : List Char} (hparts : components a = parts ++ part :: more)
    (hat : value part = maxInt) (hrest : ∃ n ∈ more.map value, n ≠ 0) : ¬ Promised a := by
  intro hpromised
  have hdecimal : ∀ p ∈ parts ++ part :: more, Decimal p := by
    rw [← hparts]
    exact parsablePanelVersion_eq_true_iff.1 ha
  have hall : ∀ p ∈ parts ++ ["922337203685477580".toList ++ ['8']], Decimal p := by
    intro p hp
    rcases List.mem_append.1 hp with hp | hp
    · exact hdecimal p (List.mem_append_left _ hp)
    · rw [List.mem_singleton.1 hp]
      exact decimal_maxInt.2.1
  obtain ⟨hb, hnumbers⟩ := written_parsable hall
  have hvalue : value ("922337203685477580".toList ++ ['8']) = maxInt + 1 := decimal_maxInt.2.2
  rw [List.map_append, List.map_singleton, hvalue] at hnumbers
  have hown : numbers a = parts.map value ++ maxInt :: more.map value := by
    rw [numbers, hparts, List.map_append, List.map_cons, hat]
  obtain ⟨hnot, hlt⟩ := padded_min_of_rest (parts.map value) Nat.zero_le (by decide)
    (Nat.lt_succ_self maxInt) hrest
  have hnewer := hpromised.decimal ha _ hb
  rw [versionNewer_of_parsable ha hb, hnumbers, hown] at hnewer
  exact hnot (hnewer.1 hlt)

/-- Newer is what is promised of a version exactly when the version is blank or a dotted decimal
one that stops at the greatest `int`. -/
theorem promised_iff (a : String) : Promised a ↔ Meant a := by
  constructor
  · intro hpromised
    by_cases hblank : stripped a = []
    · exact .inl hblank
    · have ha : parsablePanelVersion a = true := by
        by_contra hbad
        rw [parsablePanelVersion_eq_true_iff] at hbad
        push Not at hbad
        obtain ⟨b, hnewer⟩ := exists_older hblank
        rw [hpromised.malformed hbad b] at hnewer
        cases hnewer
      refine .inr ⟨ha, ?_⟩
      intro pre n post hsplit hle
      obtain ⟨parts, rest, hparts, -, hrest⟩ := List.map_eq_append_iff.1 hsplit
      obtain ⟨part, more, rfl, rfl, rfl⟩ := List.map_eq_cons_iff.1 hrest
      rcases hle.lt_or_eq with hover | hat
      · exact absurd hpromised (not_promised_of_over ha hparts hover)
      · refine ⟨hat.symm, ?_⟩
        by_contra hne
        push Not at hne
        exact not_promised_of_rest ha hparts hat.symm hne hpromised
  · intro hmeant
    refine ⟨versionNewer_irrefl a, fun _ => versionNewer_asymm, fun _ _ => versionNewer_trans, ?_, ?_⟩
    · intro ha b hb
      rw [versionNewer_of_parsable ha hb]
      refine padded_min_lt_iff Nat.zero_le (by decide) ?_
      exact (hmeant.resolve_left (stripped_ne_nil_of_parsable ha)).2
    · rintro ⟨part, hpart, hbad⟩ b
      rcases hmeant with hblank | ⟨ha, -⟩
      · rw [versionNewer, if_pos hblank]
      · exact absurd (parsablePanelVersion_eq_true_iff.1 ha part hpart) hbad

/-- A tag with a word in it, and a number that is too large. -/
theorem beta_and_large_not_promised :
    (versionNewer "2.beta" "1.9" = true ∧ ¬ Promised "2.beta") ∧
      versionNewer "9223372036854775808" "9223372036854775807" = false ∧
      ¬ Promised "9223372036854775808" := by
  have hbeta : versionNewer "2.beta" "1.9" = true := by decide +kernel
  have hlarge : versionNewer "9223372036854775808" "9223372036854775807" = false := by decide +kernel
  refine ⟨⟨hbeta, ?_⟩, hlarge, ?_⟩
  · intro hpromised
    have hword : ∃ part ∈ components "2.beta", ¬ Decimal part := by decide +kernel
    rw [hpromised.malformed hword "1.9"] at hbeta
    cases hbeta
  · intro hpromised
    have hnumbers : numbers "9223372036854775808" = [maxInt + 1] ∧
        numbers "9223372036854775807" = [maxInt] := by decide +kernel
    have hnewer := hpromised.decimal (by decide +kernel) "9223372036854775807" (by decide +kernel)
    rw [hlarge, hnumbers.1, hnumbers.2, padded_cons_lt] at hnewer
    exact Bool.false_ne_true (hnewer.2 (.inl (Nat.lt_succ_self maxInt)))

/-! ## Uploads -/

/-- An upload is an upgrade when its numbers, up to the greatest `int`, come after the running
ones. -/
theorem comparePanelVersions_eq_upgrade_iff {a b : String} :
    comparePanelVersions a b = .upgrade ↔
      (parsablePanelVersion a = true ∧ parsablePanelVersion b = true) ∧
        padded 0 ((numbers b).map (min maxInt)) < padded 0 ((numbers a).map (min maxInt)) := by
  unfold comparePanelVersions
  by_cases hboth : parsablePanelVersion a = true ∧ parsablePanelVersion b = true
  · rw [if_neg (by simp [hboth.1, hboth.2]), ← versionNewer_of_parsable hboth.1 hboth.2,
      and_iff_right hboth]
    split_ifs with hab hba <;> simp [hab]
  · have hunknown : parsablePanelVersion a = false ∨ parsablePanelVersion b = false := by
      rw [← Bool.not_eq_true, ← Bool.not_eq_true]
      exact not_and_or.1 hboth
    rw [if_pos hunknown]
    exact iff_of_false (by decide) fun h => hboth h.1

end Simorgh.Panel.Versions
