import Mathlib.Tactic.Ring
import Simorgh.Lib.Json

/-!
# Reading JSON text

A reader for JSON as it is written: strings with their escapes, numbers, and objects
and arrays, which are carried as text until they are asked for.

* `readValue`, `readObject`, `readElems` read the front of a text and give the rest.
* `Reads` says that a text is read as a value wherever it stands; `Reads.quote`,
  `Reads.int`, `Reads.bool`, `Reads.object` and `Reads.array` are the ways to write one.
* `readDocument_object`, `readArray_array` — a document written member by member is read as
  these members, as long as its strings need no escape (`Bare`).
-/

namespace Simorgh.Lib.Json

/-! ## Strings -/

/-- The blanks of JSON. -/
def isBlank (c : Char) : Bool := c == ' ' || c == '\t' || c == '\n' || c == '\r'

/-- The text from its first character that is no blank. -/
def skipBlank (cs : List Char) : List Char := cs.dropWhile isBlank

/-- The value of a hex digit. -/
def hexDigit? (c : Char) : Option ℕ :=
  if c.isDigit then some (c.toNat - 48)
  else if 'a' ≤ c ∧ c ≤ 'f' then some (c.toNat - 87)
  else if 'A' ≤ c ∧ c ≤ 'F' then some (c.toNat - 55)
  else none

/-- The character a one-letter escape stands for. -/
def unescape? : Char → Option Char
  | '"' => some '"'
  | '\\' => some '\\'
  | '/' => some '/'
  | 'b' => some '\x08'
  | 'f' => some '\x0c'
  | 'n' => some '\n'
  | 'r' => some '\r'
  | 't' => some '\t'
  | _ => none

/-- Where in an escape the reader is. -/
inductive Escape where
  | outside
  | slash
  | hex (left value : ℕ)

/-- The code points up to the closing quote, and the rest. -/
def readUnits : Escape → List Char → Option (List ℕ × List Char)
  | _, [] => none
  | .outside, c :: cs =>
      if c = '"' then some ([], cs)
      else if c = '\\' then readUnits .slash cs
      else if c.toNat < 32 then none
      else (readUnits .outside cs).map fun p => (c.toNat :: p.1, p.2)
  | .slash, c :: cs =>
      if c = 'u' then readUnits (.hex 4 0) cs
      else (unescape? c).bind fun e => (readUnits .outside cs).map fun p => (e.toNat :: p.1, p.2)
  | .hex left value, c :: cs =>
      (hexDigit? c).bind fun d =>
        if left ≤ 1 then (readUnits .outside cs).map fun p => ((16 * value + d) :: p.1, p.2)
        else readUnits (.hex (left - 1) (16 * value + d)) cs

/-- Code points as text: a surrogate pair is one character, a surrogate alone is replaced. -/
def ofUnits : List ℕ → List Char
  | [] => []
  | [n] => [if n.isValidChar then Char.ofNat n else '\ufffd']
  | n :: m :: ns =>
      if 0xD800 ≤ n ∧ n < 0xDC00 ∧ 0xDC00 ≤ m ∧ m < 0xE000 then
        Char.ofNat (0x10000 + (n - 0xD800) * 0x400 + (m - 0xDC00)) :: ofUnits ns
      else (if n.isValidChar then Char.ofNat n else '\ufffd') :: ofUnits (m :: ns)

/-- A string, past its opening quote. -/
def readStr (cs : List Char) : Option (String × List Char) :=
  (readUnits .outside cs).map fun p => (String.ofList (ofUnits p.1), p.2)

/-- The character stands for itself between quotes. -/
def isBare (c : Char) : Bool := !(c == '"') && !(c == '\\') && decide (32 ≤ c.toNat)

/-- The text needs no escape between quotes. -/
def Bare (s : String) : Prop := ∀ c ∈ s.toList, isBare c = true

instance (s : String) : Decidable (Bare s) := decidable_of_iff (s.toList.all isBare = true) List.all_eq_true

theorem readUnits_bare {l : List Char} (h : ∀ c ∈ l, isBare c = true) (rest : List Char) :
    readUnits .outside (l ++ '"' :: rest) = some (l.map Char.toNat, rest) := by
  induction l with
  | nil => simp [readUnits]
  | cons c l ih =>
      have hc := h c List.mem_cons_self
      simp only [isBare, Bool.and_eq_true, Bool.not_eq_true', beq_eq_false_iff_ne, decide_eq_true_eq] at hc
      rw [List.cons_append, readUnits, if_neg hc.1.1, if_neg hc.1.2, if_neg (by omega),
        ih fun d hd => h d (List.mem_cons_of_mem _ hd)]
      rfl

/-- A character is no surrogate. -/
theorem toNat_isValidChar (c : Char) : c.toNat.isValidChar := c.valid

theorem ofUnits_toNat (l : List Char) : ofUnits (l.map Char.toNat) = l := by
  have hone : ∀ c : Char, (if c.toNat.isValidChar then Char.ofNat c.toNat else '\ufffd') = c := by
    intro c
    rw [if_pos (toNat_isValidChar c), Char.ofNat_toNat]
  induction l with
  | nil => rfl
  | cons c l ih =>
      cases l with
      | nil => exact congrArg (fun d => [d]) (hone c)
      | cons d l =>
          have hno : ¬ (0xD800 ≤ c.toNat ∧ c.toNat < 0xDC00 ∧ 0xDC00 ≤ d.toNat ∧ d.toNat < 0xE000) := by
            have hvalid := toNat_isValidChar c
            unfold Nat.isValidChar at hvalid
            omega
          rw [List.map_cons, List.map_cons, ofUnits, if_neg hno, hone, ← List.map_cons, ih]

theorem readStr_bare {s : String} (h : Bare s) (rest : List Char) :
    readStr (s.toList ++ '"' :: rest) = some (s, rest) := by
  rw [readStr, readUnits_bare h, Option.map_some, ofUnits_toNat, String.ofList_toList]

/-! ## Numbers -/

/-- The fraction of a number, if there is one. -/
def readFraction (cs : List Char) : Option (Option (List Char) × List Char) :=
  if cs.head? = some '.' then
    let digits := cs.tail.takeWhile Char.isDigit
    if digits = [] then none else some (some digits, cs.tail.dropWhile Char.isDigit)
  else some (none, cs)

/-- The exponent of a number, if there is one: whether it is negative, and its digits. -/
def readExponent (cs : List Char) : Option (Option (Bool × List Char) × List Char) :=
  if cs.head? = some 'e' ∨ cs.head? = some 'E' then
    let signed := cs.tail
    let unsigned := if signed.head? = some '+' ∨ signed.head? = some '-' then signed.tail else signed
    let digits := unsigned.takeWhile Char.isDigit
    if digits = [] then none
    else some (some (decide (signed.head? = some '-'), digits), unsigned.dropWhile Char.isDigit)
  else some (none, cs)

/-- The value of a number's parts. -/
def numValue (negative : Bool) (whole : List Char) (fraction : Option (List Char))
    (exponent : Option (Bool × List Char)) : ℚ :=
  let sign : ℚ := if negative then -1 else 1
  let tail : ℚ := match fraction with
    | none => 0
    | some ds => Nat.ofDigitChars 10 ds 0 / 10 ^ ds.length
  let power : ℚ := match exponent with
    | none => 1
    | some (false, ds) => 10 ^ Nat.ofDigitChars 10 ds 0
    | some (true, ds) => 1 / 10 ^ Nat.ofDigitChars 10 ds 0
  sign * (Nat.ofDigitChars 10 whole 0 + tail) * power

/-- A number, past its sign. -/
def readUnsigned (negative : Bool) (cs : List Char) : Option (Lit × List Char) :=
  let whole := cs.takeWhile Char.isDigit
  -- a leading zero stands alone
  if whole = [] ∨ (whole.head? = some '0' ∧ whole ≠ ['0']) then none
  else
    (readFraction (cs.dropWhile Char.isDigit)).bind fun f =>
      (readExponent f.2).bind fun e =>
        some (⟨numValue negative whole f.1 e.1, f.1.isNone && e.1.isNone⟩, e.2)

/-- A number, with its sign. -/
def readNum (cs : List Char) : Option (Lit × List Char) :=
  if cs.head? = some '-' then readUnsigned true cs.tail else readUnsigned false cs

/-- Nothing that would go on with a number. -/
def EndsNumber (rest : List Char) : Prop :=
  ∀ c ∈ rest.head?, c.isDigit = false ∧ c ≠ '.' ∧ c ≠ 'e' ∧ c ≠ 'E'

theorem head?_toDigits {n : ℕ} (h : (Nat.toDigits 10 n).head? = some '0') : Nat.toDigits 10 n = ['0'] := by
  induction n using Nat.strong_induction_on with
  | _ n ih =>
      by_cases hlt : n < 10
      · rw [Nat.toDigits_of_lt_base hlt] at h ⊢
        exact congrArg (fun c => [c]) (Option.some.inj h)
      · -- the leading digit is that of n / 10, which is not zero
        rw [Nat.toDigits_of_base_le (by decide) (by omega), List.head?_append_of_ne_nil _ Nat.toDigits_ne_nil] at h
        have hzero := ih (n / 10) (by omega) h
        have hval := congrArg (fun l => Nat.ofDigitChars 10 l 0) hzero
        simp only [Nat.ofDigitChars_ten_toDigits] at hval
        have : n / 10 = 0 := hval
        omega

theorem takeWhile_append_of_ends {ds rest : List Char} (hds : ∀ c ∈ ds, c.isDigit = true)
    (hrest : EndsNumber rest) :
    (ds ++ rest).takeWhile Char.isDigit = ds ∧ (ds ++ rest).dropWhile Char.isDigit = rest := by
  have hnone : rest.takeWhile Char.isDigit = [] ∧ rest.dropWhile Char.isDigit = rest := by
    cases rest with
    | nil => exact ⟨rfl, rfl⟩
    | cons c rest =>
        have hc := (hrest c rfl).1
        simp [hc]
  rw [List.takeWhile_append_of_pos hds, List.dropWhile_append_of_pos hds, hnone.1, hnone.2, List.append_nil]
  exact ⟨rfl, rfl⟩

theorem readUnsigned_digits (negative : Bool) (n : ℕ) {rest : List Char} (hrest : EndsNumber rest) :
    readUnsigned negative (Nat.toDigits 10 n ++ rest) =
      some (⟨(if negative then -1 else 1) * n, true⟩, rest) := by
  have hdigits : ∀ c ∈ Nat.toDigits 10 n, c.isDigit = true :=
    fun c hc => Nat.isDigit_of_mem_toDigits (by decide) (by decide) hc
  obtain ⟨htake, hdrop⟩ := takeWhile_append_of_ends hdigits hrest
  have hfraction : readFraction rest = some (none, rest) := by
    rw [readFraction, if_neg]
    intro hhead
    exact (hrest '.' hhead).2.1 rfl
  have hexponent : readExponent rest = some (none, rest) := by
    rw [readExponent, if_neg]
    rintro (hhead | hhead)
    · exact (hrest 'e' hhead).2.2.1 rfl
    · exact (hrest 'E' hhead).2.2.2 rfl
  have hwhole : ¬ (Nat.toDigits 10 n = [] ∨
      ((Nat.toDigits 10 n).head? = some '0' ∧ Nat.toDigits 10 n ≠ ['0'])) := by
    rintro (hnil | ⟨hhead, hne⟩)
    · exact Nat.toDigits_ne_nil hnil
    · exact hne (head?_toDigits hhead)
  simp only [readUnsigned, htake, hdrop, if_neg hwhole, hfraction, hexponent, Option.bind_some]
  simp [numValue, Nat.ofDigitChars_ten_toDigits]

theorem toList_ofNat (n : ℕ) : (toString (Int.ofNat n)).toList = Nat.toDigits 10 n := Nat.toList_repr

theorem toList_negSucc (n : ℕ) : (toString (Int.negSucc n)).toList = '-' :: Nat.toDigits 10 (n + 1) := by
  show ("-" ++ (n + 1).repr).toList = _
  rw [String.toList_append, Nat.toList_repr]
  rfl

/-- The first digit of a number is a digit. -/
theorem isDigit_of_head? {n : ℕ} {c : Char} (h : (Nat.toDigits 10 n).head? = some c) : c.isDigit = true :=
  Nat.isDigit_of_mem_toDigits (by decide : 0 < 10) (by decide) (List.mem_of_head? h)

/-- An integer is read as itself. -/
theorem readNum_int (n : ℤ) {rest : List Char} (hrest : EndsNumber rest) :
    readNum ((toString n).toList ++ rest) = some (⟨n, true⟩, rest) := by
  cases n with
  | ofNat n =>
      have hminus : (Nat.toDigits 10 n ++ rest).head? ≠ some '-' := by
        rw [List.head?_append_of_ne_nil _ Nat.toDigits_ne_nil]
        intro hhead
        exact absurd (isDigit_of_head? hhead) (by decide)
      rw [toList_ofNat, readNum, if_neg hminus, readUnsigned_digits false n hrest]
      simp
  | negSucc n =>
      rw [toList_negSucc, List.cons_append, readNum, if_pos (List.head?_cons ..), List.tail_cons,
        readUnsigned_digits true (n + 1) hrest]
      simp [Int.negSucc_eq]

/-- An integer starts with a digit or a sign. -/
theorem toList_int (n : ℤ) : ∃ c cs, (toString n).toList = c :: cs ∧ (c = '-' ∨ c.isDigit = true) := by
  cases n with
  | ofNat n =>
      rw [toList_ofNat]
      cases hdigits : Nat.toDigits 10 n with
      | nil => exact absurd hdigits Nat.toDigits_ne_nil
      | cons c cs => exact ⟨c, cs, rfl, .inr (isDigit_of_head? (by rw [hdigits]; rfl))⟩
  | negSucc n => exact ⟨'-', _, toList_negSucc n, .inl rfl⟩

/-! ## Values -/

/-- The text that was read, when `rest` is left of it. -/
def consumed (cs rest : List Char) : String := String.ofList (cs.take (cs.length - rest.length))

/-- One of the three names a value can be. -/
def readName (cs : List Char) : Option (Val Lit × List Char) :=
  if "null".toList <+: cs then some (.null, cs.drop 4)
  else if "true".toList <+: cs then some (.bool true, cs.drop 4)
  else if "false".toList <+: cs then some (.bool false, cs.drop 5)
  else none

mutual

/-- A value at the front of a text, nested at most as deep as the fuel allows. -/
def readValue : ℕ → List Char → Option (Val Lit × List Char)
  | 0, _ => none
  | fuel + 1, cs =>
      match cs with
      | [] => none
      | c :: rest =>
          if c = '"' then (readStr rest).map fun p => (.str p.1, p.2)
          else if c = '\x7b' then (readObject fuel rest).map fun p => (.other (consumed cs p.2), p.2)
          else if c = '[' then (readElems fuel rest).map fun p => (.other (consumed cs p.2), p.2)
          else if c = '-' ∨ c.isDigit then (readNum cs).map fun p => (.num p.1, p.2)
          else readName cs

/-- The members of an object, past its opening brace. -/
def readObject : ℕ → List Char → Option (Text × List Char)
  | 0, _ => none
  | fuel + 1, cs =>
      match skipBlank cs with
      | [] => none
      | c :: rest => if c = '\x7d' then some ([], rest) else readMembers fuel (c :: rest)

/-- One member and those after it. -/
def readMembers : ℕ → List Char → Option (Text × List Char)
  | 0, _ => none
  | fuel + 1, cs =>
      if cs.head? = some '"' then
        (readStr cs.tail).bind fun key =>
          let colon := skipBlank key.2
          if colon.head? = some ':' then
            (readValue fuel (skipBlank colon.tail)).bind fun value =>
              let next := skipBlank value.2
              if next.head? = some '\x7d' then some ([(key.1, value.1)], next.tail)
              else if next.head? = some ',' then
                (readMembers fuel (skipBlank next.tail)).map fun p => ((key.1, value.1) :: p.1, p.2)
              else none
          else none
      else none

/-- The elements of an array, past its opening bracket. -/
def readElems : ℕ → List Char → Option (List (Val Lit) × List Char)
  | 0, _ => none
  | fuel + 1, cs =>
      match skipBlank cs with
      | [] => none
      | c :: rest => if c = ']' then some ([], rest) else readMoreElems fuel (c :: rest)

/-- One element and those after it. -/
def readMoreElems : ℕ → List Char → Option (List (Val Lit) × List Char)
  | 0, _ => none
  | fuel + 1, cs =>
      (readValue fuel cs).bind fun value =>
        let next := skipBlank value.2
        if next.head? = some ']' then some ([value.1], next.tail)
        else if next.head? = some ',' then
          (readMoreElems fuel (skipBlank next.tail)).map fun p => (value.1 :: p.1, p.2)
        else none

end

/-- A document that is one object. -/
def readDocument (s : String) : Option Text :=
  match skipBlank s.toList with
  | [] => none
  | c :: rest =>
      if c = '\x7b' then
        match readObject (3 * rest.length + 3) rest with
        | some (t, rest) => if skipBlank rest = [] then some t else none
        | none => none
      else none

/-- The elements of an array that is carried as text; nothing when it is no array. -/
def readArray (s : String) : Option (List (Val Lit)) :=
  if s.toList.head? = some '[' then (readElems (3 * s.length) s.toList.tail).map (·.1) else none

/-! ## Writing -/

/-- A string that needs no escape, quoted. -/
def quote (s : String) : List Char := '"' :: (s.toList ++ ['"'])

/-- A member as text. -/
def member (key : String) (text : List Char) : List Char := quote key ++ ':' :: text

/-- Texts with commas between them. -/
def commaSep : List (List Char) → List Char
  | [] => []
  | [t] => t
  | t :: ts => t ++ ',' :: commaSep ts

/-- An object as text. -/
def object (ms : List (List Char)) : List Char := '\x7b' :: (commaSep ms ++ ['\x7d'])

/-- An array as text. -/
def array (ts : List (List Char)) : List Char := '[' :: (commaSep ts ++ [']'])

/-- The text is read as the value, whatever stands after it. -/
structure Reads (text : List Char) (value : Val Lit) : Prop where
  starts : ∃ c cs, text = c :: cs ∧ isBlank c = false ∧ c ≠ ']'
  read : ∀ fuel rest, 3 * text.length ≤ fuel → EndsNumber rest →
    readValue fuel (text ++ rest) = some (value, rest)

theorem skipBlank_cons {c : Char} (hc : isBlank c = false) (cs : List Char) : skipBlank (c :: cs) = c :: cs := by
  rw [skipBlank, List.dropWhile_cons, if_neg (by simp [hc])]

theorem Reads.skipBlank {text : List Char} {value : Val Lit} (h : Reads text value) (rest : List Char) :
    skipBlank (text ++ rest) = text ++ rest := by
  obtain ⟨c, cs, rfl, hc, -⟩ := h.starts
  exact skipBlank_cons hc _

/-- A value that starts with this character is read past the checks on it. -/
theorem readValue_succ_cons (fuel : ℕ) (c : Char) (rest : List Char) :
    readValue (fuel + 1) (c :: rest) =
      if c = '"' then (readStr rest).map fun p => (.str p.1, p.2)
      else if c = '\x7b' then (readObject fuel rest).map fun p => (.other (consumed (c :: rest) p.2), p.2)
      else if c = '[' then (readElems fuel rest).map fun p => (.other (consumed (c :: rest) p.2), p.2)
      else if c = '-' ∨ c.isDigit then (readNum (c :: rest)).map fun p => (.num p.1, p.2)
      else readName (c :: rest) := by
  rw [readValue]

theorem Reads.quote {s : String} (h : Bare s) : Reads (quote s) (.str s) where
  starts := ⟨'"', _, rfl, by decide, by decide⟩
  read := by
    intro fuel rest hfuel _
    obtain ⟨fuel, rfl⟩ : ∃ n, fuel = n + 1 := ⟨fuel - 1, by simp [Json.quote] at hfuel; omega⟩
    rw [Json.quote, List.cons_append, readValue_succ_cons, if_pos rfl, List.append_assoc, List.singleton_append,
      readStr_bare h, Option.map_some]

theorem Reads.bool (b : Bool) : Reads (if b then "true".toList else "false".toList) (.bool b) where
  starts := by
    cases b with
    | true => exact ⟨'t', _, rfl, by decide, by decide⟩
    | false => exact ⟨'f', _, rfl, by decide, by decide⟩
  read := by
    intro fuel rest hfuel _
    obtain ⟨fuel, rfl⟩ : ∃ n, fuel = n + 1 := ⟨fuel - 1, by cases b <;> simp at hfuel <;> omega⟩
    cases b with
    | true =>
        show readValue (fuel + 1) ('t' :: 'r' :: 'u' :: 'e' :: rest) = _
        rw [readValue_succ_cons]
        simp [readName]
    | false =>
        show readValue (fuel + 1) ('f' :: 'a' :: 'l' :: 's' :: 'e' :: rest) = _
        rw [readValue_succ_cons]
        simp [readName]

theorem Reads.int (n : ℤ) : Reads (toString n).toList (.num ⟨n, true⟩) := by
  obtain ⟨c, cs, htext, hc⟩ := toList_int n
  have hne : ∀ d, ¬ (d = '-' ∨ d.isDigit = true) → c ≠ d := by
    rintro d hd rfl
    exact hd hc
  have hblank : isBlank c = false := by
    simp [isBlank, hne ' ' (by decide), hne '\t' (by decide), hne '\n' (by decide), hne '\r' (by decide)]
  refine ⟨⟨c, cs, htext, hblank, hne ']' (by decide)⟩, ?_⟩
  intro fuel rest hfuel hrest
  have hlen : 0 < (toString n).toList.length := by
    rw [htext]
    exact Nat.succ_pos _
  obtain ⟨fuel, rfl⟩ : ∃ n, fuel = n + 1 := ⟨fuel - 1, by omega⟩
  have hnum := readNum_int n hrest
  rw [htext, List.cons_append] at hnum ⊢
  rw [readValue_succ_cons, if_neg (hne '"' (by decide)), if_neg (hne '\x7b' (by decide)), if_neg (hne '[' (by decide)),
    if_pos hc, hnum, Option.map_some]

/-- Members as they are written, each with the value it is read as. -/
structure Written where
  key : String
  text : List Char
  value : Val Lit

/-- What the members are read as. -/
def Written.toText (ms : List Written) : Text := ms.map fun m => (m.key, m.value)

/-- The text of the members. -/
def Written.texts (ms : List Written) : List (List Char) := ms.map fun m => member m.key m.text

/-- The member is read back as written. -/
structure Written.Ok (m : Written) : Prop where
  bare : Bare m.key
  reads : Reads m.text m.value

theorem Written.ok {key : String} {text : List Char} {value : Val Lit} (hkey : Bare key) (h : Reads text value) :
    Written.Ok ⟨key, text, value⟩ := ⟨hkey, h⟩

/-- The texts before the last ones, each with its comma. -/
theorem commaSep_append (ts : List (List Char)) {us : List (List Char)} (hus : us ≠ []) :
    commaSep (ts ++ us) = (ts.flatMap fun t => t ++ [',']) ++ commaSep us := by
  induction ts with
  | nil => rfl
  | cons t ts ih =>
      have hcons : commaSep (t :: (ts ++ us)) = t ++ ',' :: commaSep (ts ++ us) := by
        cases htail : ts ++ us with
        | nil => exact absurd (List.append_eq_nil_iff.1 htail).2 hus
        | cons u us => rfl
      rw [List.cons_append, hcons, ih]
      simp

theorem endsNumber_cons {c : Char} (h : c.isDigit = false ∧ c ≠ '.' ∧ c ≠ 'e' ∧ c ≠ 'E') (rest : List Char) :
    EndsNumber (c :: rest) := by
  rintro d ⟨⟩
  exact h

/-- One member is read, and what stands after it is left. -/
theorem readMembers_member {m : Written} (hm : m.Ok) {fuel : ℕ} (hfuel : 3 * (member m.key m.text).length ≤ fuel)
    {c : Char} (hc : c = '\x7d' ∨ c = ',') (rest : List Char) :
    readMembers (fuel + 1) (member m.key m.text ++ c :: rest) =
      if c = '\x7d' then some ([(m.key, m.value)], rest)
      else (readMembers fuel (skipBlank rest)).map fun p => ((m.key, m.value) :: p.1, p.2) := by
  have hends : EndsNumber (c :: rest) := by
    rcases hc with rfl | rfl
    · exact endsNumber_cons (by decide) rest
    · exact endsNumber_cons (by decide) rest
  have hread := hm.reads.read fuel (c :: rest) (by simp [member] at hfuel; omega) hends
  have hskip := hm.reads.skipBlank (c :: rest)
  have hblank : skipBlank (c :: rest) = c :: rest := by
    rcases hc with rfl | rfl
    · exact skipBlank_cons (by decide) rest
    · exact skipBlank_cons (by decide) rest
  have htext : member m.key m.text ++ c :: rest =
      '"' :: (m.key.toList ++ '"' :: (':' :: (m.text ++ c :: rest))) := by
    simp [member, Json.quote]
  rw [htext, readMembers, if_pos (List.head?_cons ..), List.tail_cons, readStr_bare hm.bare, Option.bind_some,
    skipBlank_cons (by decide), if_pos (List.head?_cons ..), List.tail_cons, hskip, hread, Option.bind_some, hblank]
  rcases hc with rfl | rfl
  · rfl
  · rfl

/-- The members of an object are read in turn. -/
theorem readMembers_commaSep {ms : List Written} (hms : ∀ m ∈ ms, m.Ok) (hne : ms ≠ []) {fuel : ℕ}
    (hfuel : 3 * (commaSep (Written.texts ms)).length < fuel) (rest : List Char) :
    readMembers fuel (commaSep (Written.texts ms) ++ '\x7d' :: rest) = some (Written.toText ms, rest) := by
  induction ms generalizing fuel with
  | nil => exact absurd rfl hne
  | cons m ms ih =>
      obtain ⟨fuel, rfl⟩ : ∃ n, fuel = n + 1 := ⟨fuel - 1, by omega⟩
      have hm := hms m List.mem_cons_self
      cases ms with
      | nil =>
          show readMembers (fuel + 1) (member m.key m.text ++ '\x7d' :: rest) = _
          rw [readMembers_member hm (Nat.lt_succ_iff.1 hfuel) (.inl rfl), if_pos rfl]
          rfl
      | cons m' ms =>
          have hlen : (commaSep (Written.texts (m :: m' :: ms))).length =
              (member m.key m.text).length + (commaSep (Written.texts (m' :: ms))).length + 1 := by
            simp [Written.texts, commaSep]
            omega
          have htext : commaSep (Written.texts (m :: m' :: ms)) ++ '\x7d' :: rest =
              member m.key m.text ++ ',' :: (commaSep (Written.texts (m' :: ms)) ++ '\x7d' :: rest) := by
            simp [Written.texts, commaSep]
          have hstart : skipBlank (commaSep (Written.texts (m' :: ms)) ++ '\x7d' :: rest) =
              commaSep (Written.texts (m' :: ms)) ++ '\x7d' :: rest := by
            cases ms with
            | nil => exact skipBlank_cons (by decide) _
            | cons m'' ms => exact skipBlank_cons (by decide) _
          rw [htext, readMembers_member hm (by omega) (.inr rfl), if_neg (by decide), hstart,
            ih (fun m hm => hms m (List.mem_cons_of_mem _ hm)) (by simp) (by omega), Option.map_some]
          rfl

/-- An object written member by member is read as these members. -/
theorem readObject_object {ms : List Written} (hms : ∀ m ∈ ms, m.Ok) {fuel : ℕ}
    (hfuel : 3 * (commaSep (Written.texts ms)).length + 1 < fuel) (rest : List Char) :
    readObject fuel (commaSep (Written.texts ms) ++ '\x7d' :: rest) = some (Written.toText ms, rest) := by
  obtain ⟨fuel, rfl⟩ : ∃ n, fuel = n + 1 := ⟨fuel - 1, by omega⟩
  cases ms with
  | nil =>
      show readObject (fuel + 1) ('\x7d' :: rest) = _
      rw [readObject, skipBlank_cons (by decide)]
      rfl
  | cons m ms =>
      have hstart : ∃ cs, commaSep (Written.texts (m :: ms)) = '"' :: cs := by
        cases ms with
        | nil => exact ⟨_, rfl⟩
        | cons m' ms => exact ⟨_, rfl⟩
      obtain ⟨cs, hcs⟩ := hstart
      have hread := readMembers_commaSep hms (by simp) (by omega : 3 * _ < fuel) rest
      rw [hcs, List.cons_append] at hread ⊢
      rw [readObject, skipBlank_cons (by decide)]
      exact hread

theorem consumed_append (text rest : List Char) : consumed (text ++ rest) rest = String.ofList text := by
  rw [consumed, List.length_append, Nat.add_sub_cancel, List.take_left]

/-- An object is a value, carried as the text it is. -/
theorem Reads.object {ms : List Written} (hms : ∀ m ∈ ms, m.Ok) :
    Reads (Json.object (Written.texts ms)) (.other (String.ofList (Json.object (Written.texts ms)))) where
  starts := ⟨'\x7b', _, rfl, by decide, by decide⟩
  read := by
    intro fuel rest hfuel _
    have hlen : (Json.object (Written.texts ms)).length = (commaSep (Written.texts ms)).length + 2 := by
      simp [Json.object]
    obtain ⟨fuel, rfl⟩ : ∃ n, fuel = n + 1 := ⟨fuel - 1, by omega⟩
    have htext : Json.object (Written.texts ms) ++ rest =
        '\x7b' :: (commaSep (Written.texts ms) ++ '\x7d' :: rest) := by
      simp [Json.object]
    have hconsumed := consumed_append (Json.object (Written.texts ms)) rest
    rw [htext] at hconsumed ⊢
    rw [readValue_succ_cons, if_neg (by decide), if_pos rfl, readObject_object hms (by omega),
      Option.map_some, hconsumed]

/-- The elements of an array are read in turn. -/
theorem readMoreElems_commaSep {ts : List (List Char × Val Lit)} (hts : ∀ t ∈ ts, Reads t.1 t.2) (hne : ts ≠ [])
    {fuel : ℕ} (hfuel : 3 * (commaSep (ts.map (·.1))).length < fuel) (rest : List Char) :
    readMoreElems fuel (commaSep (ts.map (·.1)) ++ ']' :: rest) = some (ts.map (·.2), rest) := by
  induction ts generalizing fuel with
  | nil => exact absurd rfl hne
  | cons t ts ih =>
      obtain ⟨fuel, rfl⟩ : ∃ n, fuel = n + 1 := ⟨fuel - 1, by omega⟩
      have ht := hts t List.mem_cons_self
      cases ts with
      | nil =>
          have hread := ht.read fuel (']' :: rest) (Nat.lt_succ_iff.1 hfuel) (endsNumber_cons (by decide) rest)
          show readMoreElems (fuel + 1) (t.1 ++ ']' :: rest) = _
          rw [readMoreElems, hread, Option.bind_some, skipBlank_cons (by decide)]
          rfl
      | cons t' ts =>
          have hlen : (commaSep ((t :: t' :: ts).map (·.1))).length =
              t.1.length + (commaSep ((t' :: ts).map (·.1))).length + 1 := by
            simp [commaSep]
            omega
          have htext : commaSep ((t :: t' :: ts).map (·.1)) ++ ']' :: rest =
              t.1 ++ ',' :: (commaSep ((t' :: ts).map (·.1)) ++ ']' :: rest) := by
            simp [commaSep]
          have hread := ht.read fuel (',' :: (commaSep ((t' :: ts).map (·.1)) ++ ']' :: rest)) (by omega)
            (endsNumber_cons (by decide) _)
          have hskip : skipBlank (commaSep ((t' :: ts).map (·.1)) ++ ']' :: rest) =
              commaSep ((t' :: ts).map (·.1)) ++ ']' :: rest := by
            have ht' := hts t' (List.mem_cons_of_mem _ List.mem_cons_self)
            cases ts with
            | nil => exact ht'.skipBlank _
            | cons t'' ts =>
                simp only [List.map_cons, commaSep, List.append_assoc]
                exact ht'.skipBlank _
          rw [htext, readMoreElems, hread, Option.bind_some, skipBlank_cons (by decide)]
          simp only [List.head?_cons, List.tail_cons, hskip]
          rw [if_neg (by decide), if_pos trivial,
            ih (fun t ht => hts t (List.mem_cons_of_mem _ ht)) (by simp) (by omega),
            Option.map_some]
          rfl

theorem readElems_array {ts : List (List Char × Val Lit)} (hts : ∀ t ∈ ts, Reads t.1 t.2) {fuel : ℕ}
    (hfuel : 3 * (commaSep (ts.map (·.1))).length + 1 < fuel) (rest : List Char) :
    readElems fuel (commaSep (ts.map (·.1)) ++ ']' :: rest) = some (ts.map (·.2), rest) := by
  obtain ⟨fuel, rfl⟩ : ∃ n, fuel = n + 1 := ⟨fuel - 1, by omega⟩
  cases ts with
  | nil =>
      show readElems (fuel + 1) (']' :: rest) = _
      rw [readElems, skipBlank_cons (by decide)]
      rfl
  | cons t ts =>
      have hread := readMoreElems_commaSep hts (by simp) (by omega : 3 * _ < fuel) rest
      obtain ⟨c, cs, hc, hblank, hne⟩ := (hts t List.mem_cons_self).starts
      have hstart : ∃ cs, commaSep ((t :: ts).map (·.1)) = c :: cs := by
        cases ts with
        | nil => exact ⟨cs, hc⟩
        | cons t' ts => exact ⟨_, congrArg (· ++ _) hc⟩
      obtain ⟨cs', hcs'⟩ := hstart
      rw [hcs', List.cons_append] at hread ⊢
      rw [readElems, skipBlank_cons hblank]
      simp only [if_neg hne]
      exact hread

/-- An array is a value, carried as the text it is. -/
theorem Reads.array {ts : List (List Char × Val Lit)} (hts : ∀ t ∈ ts, Reads t.1 t.2) :
    Reads (Json.array (ts.map (·.1))) (.other (String.ofList (Json.array (ts.map (·.1))))) where
  starts := ⟨'[', _, rfl, by decide, by decide⟩
  read := by
    intro fuel rest hfuel _
    have hlen : (Json.array (ts.map (·.1))).length = (commaSep (ts.map (·.1))).length + 2 := by
      simp [Json.array]
    obtain ⟨fuel, rfl⟩ : ∃ n, fuel = n + 1 := ⟨fuel - 1, by omega⟩
    have htext : Json.array (ts.map (·.1)) ++ rest = '[' :: (commaSep (ts.map (·.1)) ++ ']' :: rest) := by
      simp [Json.array]
    have hconsumed := consumed_append (Json.array (ts.map (·.1))) rest
    rw [htext] at hconsumed ⊢
    rw [readValue_succ_cons, if_neg (by decide), if_neg (by decide), if_pos rfl, readElems_array hts (by omega),
      Option.map_some, hconsumed]

/-! ## Documents -/

/-- A document written member by member is read as these members. -/
theorem readDocument_object {ms : List Written} (hms : ∀ m ∈ ms, m.Ok) :
    readDocument (String.ofList (Json.object (Written.texts ms))) = some (Written.toText ms) := by
  have hread := readObject_object hms
    (by simp; omega : 3 * (commaSep (Written.texts ms)).length + 1 <
      3 * (commaSep (Written.texts ms) ++ ['\x7d']).length + 3) []
  rw [readDocument, String.toList_ofList, Json.object, skipBlank_cons (by decide)]
  simp only [if_true, hread]
  rfl

theorem readArray_array {ts : List (List Char × Val Lit)} (hts : ∀ t ∈ ts, Reads t.1 t.2) :
    readArray (String.ofList (Json.array (ts.map (·.1)))) = some (ts.map (·.2)) := by
  have hlen : (String.ofList (Json.array (ts.map (·.1)))).length = (commaSep (ts.map (·.1))).length + 2 := by
    rw [String.length_ofList, Json.array]
    simp
  rw [readArray, hlen, String.toList_ofList, Json.array, if_pos (List.head?_cons ..), List.tail_cons,
    readElems_array hts (by omega) [], Option.map_some]

/-- With no key twice, the map holds every member. -/
theorem get?_toMap_of_mem {t : Text} (hkeys : (t.map (·.1)).Nodup) {k : String} {v : Val Lit} (h : (k, v) ∈ t) :
    (Text.toMap t).get? k = some (v.map Lit.toNum) := by
  obtain ⟨pre, post, rfl⟩ := List.append_of_mem h
  refine get?_toMap_append_cons pre post k v fun a ha hak => ?_
  rw [List.map_append, List.map_cons] at hkeys
  have hnot := (List.nodup_cons.1 (List.nodup_append.1 hkeys).2.1).1
  exact hnot (List.mem_map.2 ⟨a, ha, hak⟩)

/-- The keys of the map are those of the text. -/
theorem key_of_mem_toMap {t : Text} {a : String × Val Num} (h : a ∈ (Text.toMap t).members) : a.1 ∈ t.map (·.1) := by
  have hfold : ∀ (l : Text) (m : Map), ∀ a ∈ (l.foldl (fun m a => m.set a.1 (a.2.map Lit.toNum)) m).members,
      a.1 ∈ m.members.map (·.1) ∨ a.1 ∈ l.map (·.1) := by
    intro l
    induction l with
    | nil => exact fun m a ha => .inl (List.mem_map_of_mem ha)
    | cons b l ih =>
        intro m a ha
        rcases ih _ a ha with hm | hl
        · obtain ⟨c, hc, hca⟩ := List.mem_map.1 hm
          rcases key_of_mem_setSorted hc with rfl | hc
          · exact .inr (List.mem_map.2 ⟨b, List.mem_cons_self, hca⟩)
          · exact .inl (List.mem_map.2 ⟨c, hc, hca⟩)
        · exact .inr (List.mem_cons_of_mem _ hl)
  rcases hfold t Obj.empty a h with hempty | ht
  · cases hempty
  · exact ht

/-- When no other spelling of the field's name stands in the document, a fitting value under
the exact key is the field's value. -/
theorem field_of_only {β : Type} {name : String} {read : Val Lit → Option β} {d : Doc}
    (honly : ∀ a ∈ d.members, sameName a.1 name = true → a.1 = name) {v : Val Lit} {b : β}
    (hget : d.get? name = some v) (hread : read v = some b) (zero : β) : field name read zero d.members = b := by
  obtain ⟨members, sorted⟩ := d
  simp only [Obj.get?] at hget honly
  induction members generalizing zero with
  | nil => simp at hget
  | cons a l ih =>
      rw [List.pairwise_cons] at sorted
      rw [field_cons]
      by_cases hk : a.1 = name
      · have hv : a.2 = v := by simpa [hk] using hget
        rw [field_of_forall_not]
        · simp [sameName, hk, hv, hread]
        · intro c hc
          have hlt : a.1 < c.1 := sorted.1 c hc
          rw [hk] at hlt
          by_contra hsame
          exact hlt.ne' (honly c (List.mem_cons_of_mem _ hc) (by simpa using hsame))
      · refine ih _ sorted.2 (fun c hc => honly c (List.mem_cons_of_mem _ hc)) ?_
        simpa [List.find?_cons, hk] using hget

end Simorgh.Lib.Json
