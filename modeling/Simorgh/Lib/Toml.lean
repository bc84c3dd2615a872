import Mathlib.Data.List.Nodup
import Simorgh.Lib.JsonText
import Simorgh.Lib.Traverse

/-!
# Quoted strings and TOML documents

A decoder for the part of TOML 1.0 that programs write when they print a configuration line by
line: comments, table headers, and a key and a value on each line.  Beside it `%q`, the way a Go
program quotes a string, which is not the way TOML reads one.

* `readBasic` — a basic string of TOML, from behind its opening quote.
* `goQuote` — what `%q` prints; which characters are printed as they are is a table beyond
  ASCII.
* `readBasic_goQuote` — what is read of what was quoted: the string, unless it has one of the
  control characters for which `%q` has an escape that TOML does not know.
* `decodeToml`, `decodeToml_unlines` — documents, line by line.
-/

namespace Simorgh.Lib

/-! ## Basic strings -/

/-- Characters that do not stand for themselves anywhere in a document. -/
def tomlControl (c : Char) : Bool := decide (c.toNat < 0x20 ∧ c ≠ '\t' ∨ c.toNat = 0x7f)

/-- The escapes of one letter. -/
def tomlEscapeOf (c : Char) : Option Char :=
  if c = 'b' then some (Char.ofNat 8)
  else if c = 't' then some '\t'
  else if c = 'n' then some '\n'
  else if c = 'f' then some (Char.ofNat 12)
  else if c = 'r' then some '\r'
  else if c = '"' then some '"'
  else if c = '\\' then some '\\'
  else none

/-- The value of a hex digit. -/
def hexVal (c : Char) : Option ℕ :=
  if '0' ≤ c ∧ c ≤ '9' then some (c.toNat - 48)
  else if 'a' ≤ c ∧ c ≤ 'f' then some (c.toNat - 87)
  else if 'A' ≤ c ∧ c ≤ 'F' then some (c.toNat - 55)
  else none

/-- The character of a code point. -/
def scalarOf (n : ℕ) : Option Char := if n.isValidChar then some (Char.ofNat n) else none

/-- Where the reader of a string is. -/
inductive StringState where
  | plain
  | escape
  /-- so many digits of a code point are to come -/
  | hex (digits acc : ℕ)

/-- A basic string from behind its opening quote: the string, and what is behind its closing
quote. -/
def readBasic : StringState → List Char → Option (List Char × List Char)
  | _, [] => none
  | .plain, c :: rest =>
      if c = '"' then some ([], rest)
      else if c = '\\' then readBasic .escape rest
      else if tomlControl c then none
      else (readBasic .plain rest).map fun r => (c :: r.1, r.2)
  | .escape, c :: rest =>
      if c = 'u' then readBasic (.hex 4 0) rest
      else if c = 'U' then readBasic (.hex 8 0) rest
      else
        match tomlEscapeOf c with
        | some x => (readBasic .plain rest).map fun r => (x :: r.1, r.2)
        | none => none
  | .hex digits acc, c :: rest =>
      match hexVal c with
      | some v =>
          if digits ≤ 1 then
            match scalarOf (acc * 16 + v) with
            | some x => (readBasic .plain rest).map fun r => (x :: r.1, r.2)
            | none => none
          else readBasic (.hex (digits - 1) (acc * 16 + v)) rest
      | none => none

/-! ## Quoting -/

/-- A hex digit. -/
def hexChar (n : ℕ) : Char := if n < 10 then Char.ofNat (48 + n) else Char.ofNat (87 + n)

/-- So many hexadecimal digits. -/
def hexDigits : ℕ → ℕ → List Char
  | 0, _ => []
  | k + 1, n => hexChar (n / 16 ^ k % 16) :: hexDigits k n

section Quote

variable (printable : Char → Bool)

/-- `strconv.IsPrint`, with a table beyond ASCII. -/
def goIsPrint (c : Char) : Bool :=
  if c.toNat < 0x80 then decide (0x20 ≤ c.toNat ∧ c.toNat < 0x7f) else printable c

/-- The letter of the escapes that have one. -/
def goEscapeOf (n : ℕ) : Option Char :=
  if n = 7 then some 'a'
  else if n = 8 then some 'b'
  else if n = 12 then some 'f'
  else if n = 10 then some 'n'
  else if n = 13 then some 'r'
  else if n = 9 then some 't'
  else if n = 11 then some 'v'
  else none

/-- `appendEscapedRune`. -/
def goQuoteChar (c : Char) : List Char :=
  if c = '"' ∨ c = '\\' then ['\\', c]
  else if goIsPrint printable c then [c]
  else
    match goEscapeOf c.toNat with
    | some letter => ['\\', letter]
    | none =>
        if c.toNat < 0x20 ∨ c.toNat = 0x7f then '\\' :: 'x' :: hexDigits 2 c.toNat
        else if c.toNat < 0x10000 then '\\' :: 'u' :: hexDigits 4 c.toNat
        else '\\' :: 'U' :: hexDigits 8 c.toNat

/-- `%q` without its quotes. -/
def goQuoteBody (s : List Char) : List Char := s.flatMap (goQuoteChar printable)

/-- `%q` -/
def goQuote (s : List Char) : List Char := '"' :: (goQuoteBody printable s ++ ['"'])

end Quote

/-- The control characters that `%q` escapes in a way TOML does not know: `\a`, `\v` and `\x`. -/
def unreadable (c : Char) : Bool := decide ((c.toNat < 0x20 ∧ c.toNat ∉ [8, 9, 10, 12, 13]) ∨ c.toNat = 0x7f)

theorem hexVal_hexChar {n : ℕ} (hn : n < 16) : hexVal (hexChar n) = some n := by
  have hall : ∀ n : Fin 16, hexVal (hexChar n.val) = some n.val := by decide
  exact hall ⟨n, hn⟩

/-- Digits are read one after the other. -/
theorem readBasic_hexDigits (k n acc : ℕ) (rest : List Char) :
    readBasic (.hex (k + 1) acc) (hexDigits (k + 1) n ++ rest) =
      match scalarOf (acc * 16 ^ (k + 1) + n % 16 ^ (k + 1)) with
      | some x => (readBasic .plain rest).map fun r => (x :: r.1, r.2)
      | none => none := by
  induction k generalizing acc with
  | zero =>
      have hdigit : n / 16 ^ 0 % 16 < 16 := Nat.mod_lt _ (by decide)
      simp only [hexDigits, List.cons_append, List.nil_append, readBasic, hexVal_hexChar hdigit]
      rw [if_pos (Nat.le_refl 1), Nat.pow_zero, Nat.div_one, Nat.zero_add, Nat.pow_one]
  | succ k ih =>
      have hdigit : n / 16 ^ (k + 1) % 16 < 16 := Nat.mod_lt _ (by decide)
      have hsum : (acc * 16 + n / 16 ^ (k + 1) % 16) * 16 ^ (k + 1) + n % 16 ^ (k + 1) =
          acc * 16 ^ (k + 1 + 1) + n % 16 ^ (k + 1 + 1) := by
        have hsplit : n % 16 ^ (k + 1 + 1) = n % 16 ^ (k + 1) + 16 ^ (k + 1) * (n / 16 ^ (k + 1) % 16) :=
          Nat.mod_pow_succ
        rw [hsplit, Nat.pow_succ 16 (k + 1)]
        ring
      rw [hexDigits, List.cons_append, readBasic]
      simp only [hexVal_hexChar hdigit]
      rw [if_neg (by omega), Nat.add_sub_cancel, ih, hsum]

theorem scalarOf_toNat (c : Char) : scalarOf c.toNat = some c := by
  have hvalid : c.toNat.isValidChar := c.valid
  rw [scalarOf, if_pos hvalid, Char.ofNat_toNat]

/-- The digits of a code point are read as its character. -/
theorem readBasic_code {c : Char} {k : ℕ} (hc : c.toNat < 16 ^ (k + 1)) (rest : List Char) :
    readBasic (.hex (k + 1) 0) (hexDigits (k + 1) c.toNat ++ rest) =
      (readBasic .plain rest).map fun r => (c :: r.1, r.2) := by
  rw [readBasic_hexDigits, Nat.zero_mul, Nat.zero_add, Nat.mod_eq_of_lt hc, scalarOf_toNat]

theorem eq_ofNat {c : Char} {n : ℕ} (h : c.toNat = n) : c = Char.ofNat n := by
  rw [← h, Char.ofNat_toNat]

theorem toNat_lt_max (c : Char) : c.toNat < 0x110000 := by
  have hvalid : c.toNat.isValidChar := c.valid
  rcases hvalid with h | h
  · exact Nat.lt_trans h (by decide)
  · exact h.2

/-- Characters that stand for themselves. -/
theorem readBasic_plain {c : Char} (hquote : c ≠ '"') (hslash : c ≠ '\\') (hcontrol : tomlControl c = false)
    (rest : List Char) :
    readBasic .plain (c :: rest) = (readBasic .plain rest).map fun r => (c :: r.1, r.2) := by
  rw [readBasic, if_neg hquote, if_neg hslash, hcontrol, if_neg (by decide)]

/-- A text without quotes, backslashes and control characters, in its quotes. -/
theorem readBasic_text {s : List Char} (hs : ∀ c ∈ s, c ≠ '"' ∧ c ≠ '\\' ∧ tomlControl c = false) (rest : List Char) :
    readBasic .plain (s ++ '"' :: rest) = some (s, rest) := by
  induction s with
  | nil => rfl
  | cons c s ih =>
      obtain ⟨hquote, hslash, hcontrol⟩ := hs c List.mem_cons_self
      rw [List.cons_append, readBasic_plain hquote hslash hcontrol, ih fun x hx => hs x (List.mem_cons_of_mem c hx)]
      rfl

section

variable (printable : Char → Bool)

theorem range_of_isPrint {c : Char} (h : goIsPrint printable c = true) : 0x20 ≤ c.toNat ∧ c.toNat ≠ 0x7f := by
  rw [goIsPrint] at h
  split_ifs at h with hascii
  · have hrange := of_decide_eq_true h
    omega
  · omega

/-- The escapes of one letter: TOML has all of them but `a` and `v`. -/
theorem readBasic_goEscapeOf {c letter : Char} (h : goEscapeOf c.toNat = some letter) (rest : List Char) :
    readBasic .plain ('\\' :: letter :: rest) =
      if unreadable c then none else (readBasic .plain rest).map fun r => (c :: r.1, r.2) := by
  have hcases : (c.toNat, letter) ∈
      [(7, 'a'), (8, 'b'), (12, 'f'), (10, 'n'), (13, 'r'), (9, 't'), (11, 'v')] := by
    unfold goEscapeOf at h
    split_ifs at h <;> cases h <;> simp_all
  simp only [List.mem_cons, Prod.mk.injEq, List.not_mem_nil, or_false] at hcases
  obtain ⟨hc, rfl⟩ | ⟨hc, rfl⟩ | ⟨hc, rfl⟩ | ⟨hc, rfl⟩ | ⟨hc, rfl⟩ | ⟨hc, rfl⟩ | ⟨hc, rfl⟩ := hcases <;>
    rw [eq_ofNat hc] <;> rfl

theorem unreadable_of_goEscapeOf {n : ℕ} (h : goEscapeOf n = none) : n ∉ [8, 9, 10, 12, 13] := by
  intro hmem
  unfold goEscapeOf at h
  split_ifs at h
  simp_all

/-- What is read of a quoted character. -/
theorem readBasic_goQuoteChar (c : Char) (rest : List Char) :
    readBasic .plain (goQuoteChar printable c ++ rest) =
      if unreadable c then none else (readBasic .plain rest).map fun r => (c :: r.1, r.2) := by
  rw [goQuoteChar]
  by_cases hspecial : c = '"' ∨ c = '\\'
  · obtain rfl | rfl := hspecial <;> rfl
  rw [if_neg hspecial]
  obtain ⟨hquote, hslash⟩ := not_or.1 hspecial
  by_cases hprint : goIsPrint printable c = true
  · have hrange := range_of_isPrint printable hprint
    have hcontrol : tomlControl c = false := decide_eq_false (by omega)
    have hreadable : unreadable c = false := decide_eq_false (by omega)
    rw [if_pos hprint, hreadable, if_neg (by decide)]
    exact readBasic_plain hquote hslash hcontrol rest
  rw [if_neg hprint]
  cases hletter : goEscapeOf c.toNat with
  | some letter => exact readBasic_goEscapeOf hletter rest
  | none =>
      have hnone := unreadable_of_goEscapeOf hletter
      dsimp only
      by_cases hx : c.toNat < 0x20 ∨ c.toNat = 0x7f
      · have hbad : unreadable c = true := decide_eq_true (hx.imp_left fun hlt => ⟨hlt, hnone⟩)
        rw [if_pos hx, if_pos hbad]
        rfl
      have hgood : unreadable c = false := decide_eq_false (by omega)
      rw [if_neg hx, hgood, if_neg Bool.false_ne_true]
      by_cases hu : c.toNat < 0x10000
      · rw [if_pos hu]
        exact readBasic_code (k := 3) hu rest
      · rw [if_neg hu]
        have hlt : c.toNat < 16 ^ 8 := Nat.lt_trans (toNat_lt_max c) (by decide)
        exact readBasic_code (k := 7) hlt rest

/-- What is read of a quoted string. -/
theorem readBasic_goQuoteBody (s rest : List Char) :
    readBasic .plain (goQuoteBody printable s ++ '"' :: rest) = if s.any unreadable then none else some (s, rest) := by
  induction s with
  | nil => rfl
  | cons c s ih =>
      rw [goQuoteBody, List.flatMap_cons, List.append_assoc, readBasic_goQuoteChar, ← goQuoteBody, ih, List.any_cons]
      cases hc : unreadable c with
      | true => rfl
      | false =>
          cases hs : s.any unreadable with
          | true => rfl
          | false => rfl

end

/-! ## Values and lines -/

/-- The values a document holds. -/
inductive TomlValue where
  | str (s : List Char)
  | bool (b : Bool)
  | int (n : ℤ)
  | strs (l : List (List Char))
deriving DecidableEq

/-- The blanks within a line. -/
def tomlSpace (c : Char) : Bool := c == ' ' || c == '\t'

/-- The text without spaces and tabs in front. -/
def skipSpace (l : List Char) : List Char := l.dropWhile tomlSpace

/-- What may stand behind a header or a value: nothing, or a comment. -/
def atEnd (l : List Char) : Bool :=
  match skipSpace l with
  | [] => true
  | c :: rest => c == '#' && rest.all fun x => !tomlControl x

/-- The characters of a key without quotes. -/
def bareKeyChar (c : Char) : Bool :=
  ('a' ≤ c && c ≤ 'z') || ('A' ≤ c && c ≤ 'Z') || ('0' ≤ c && c ≤ '9') || c == '_' || c == '-'

/-- A bare or quoted key. -/
def readKey (l : List Char) : Option (List Char × List Char) :=
  if l.head? = some '"' then readBasic .plain l.tail
  else if l.takeWhile bareKeyChar = [] then none
  else some (l.takeWhile bareKeyChar, l.dropWhile bareKeyChar)

/-- A decimal number past its sign; only zero starts with a zero. -/
def readDigits (l : List Char) : Option (ℕ × List Char) :=
  let digits := l.takeWhile Char.isDigit
  if digits = [] ∨ (digits.head? = some '0' ∧ digits ≠ ['0']) then none
  else some (Nat.ofDigitChars 10 digits 0, l.dropWhile Char.isDigit)

/-- A decimal integer. -/
def readInteger (l : List Char) : Option (ℤ × List Char) :=
  if l.head? = some '-' then (readDigits l.tail).map fun r => (-(r.1 : ℤ), r.2)
  else (readDigits l).map fun r => ((r.1 : ℤ), r.2)

/-- An array of strings, from behind its bracket. -/
def readStrings : ℕ → List Char → Option (List (List Char) × List Char)
  | 0, _ => none
  | fuel + 1, l =>
      let l := skipSpace l
      if l.head? = some ']' then some ([], l.tail)
      else if l.head? = some '"' then
        (readBasic .plain l.tail).bind fun r =>
          let rest := skipSpace r.2
          if rest.head? = some ',' then (readStrings fuel rest.tail).map fun q => (r.1 :: q.1, q.2)
          else if rest.head? = some ']' then some ([r.1], rest.tail)
          else none
      else none

/-- A value and what follows it. -/
def readTomlValue (l : List Char) : Option (TomlValue × List Char) :=
  if l.head? = some '"' then (readBasic .plain l.tail).map fun r => (.str r.1, r.2)
  else if l.head? = some '[' then (readStrings l.length l.tail).map fun r => (.strs r.1, r.2)
  else if "true".toList.isPrefixOf l then some (.bool true, l.drop 4)
  else if "false".toList.isPrefixOf l then some (.bool false, l.drop 5)
  else (readInteger l).map fun r => (.int r.1, r.2)

/-- The keys of a header, with dots between them. -/
def readPath : ℕ → List Char → Option (List (List Char) × List Char)
  | 0, _ => none
  | fuel + 1, l =>
      (readKey (skipSpace l)).bind fun r =>
        let rest := skipSpace r.2
        if rest.head? = some '.' then (readPath fuel rest.tail).map fun q => (r.1 :: q.1, q.2)
        else some ([r.1], rest)

/-- A line of a document. -/
inductive TomlLine where
  | blank
  /-- `[path]`, or `[[path]]` -/
  | header (path : List (List Char)) (array : Bool)
  | entry (key : List Char) (value : TomlValue)
deriving DecidableEq

/-- A table header. -/
def parseHeader (l : List Char) : Option TomlLine :=
  if l.head? = some '[' then
    (readPath l.length l.tail).bind fun r =>
      if "]]".toList.isPrefixOf r.2 && atEnd (r.2.drop 2) then some (.header r.1 true) else none
  else
    (readPath (l.length + 1) l).bind fun r =>
      if r.2.head? = some ']' ∧ atEnd r.2.tail then some (.header r.1 false) else none

/-- A key with its value. -/
def parseEntry (l : List Char) : Option TomlLine :=
  (readKey l).bind fun k =>
    let rest := skipSpace k.2
    if rest.head? = some '=' then
      (readTomlValue (skipSpace rest.tail)).bind fun v => if atEnd v.2 then some (.entry k.1 v.1) else none
    else none

/-- One line. -/
def parseLine (l : List Char) : Option TomlLine :=
  let l := skipSpace l
  if l.head? = none ∨ l.head? = some '#' then (if atEnd l then some .blank else none)
  else if l.head? = some '[' then parseHeader l.tail
  else parseEntry l

example : parseLine "[general.modes]".toList = some (.header ["general".toList, "modes".toList] false) := by decide

example : parseLine "\"a b\" = [\"x\", \"y\"] # both".toList =
    some (.entry "a b".toList (.strs ["x".toList, "y".toList])) := by decide

/-- A text that is a value and nothing else. -/
def wholeValue (l : List Char) : Option TomlValue :=
  (readTomlValue (skipSpace l)).bind fun v => if atEnd v.2 then some v.1 else none

theorem skipSpace_cons {c : Char} (hc : tomlSpace c = false) (l : List Char) : skipSpace (c :: l) = c :: l := by
  rw [skipSpace, List.dropWhile_cons, hc, if_neg Bool.false_ne_true]

/-- What is left of a line when its key has been read. -/
theorem parseEntry_of_readKey {l key v : List Char} (h : readKey l = some (key, " = ".toList ++ v)) :
    parseEntry l = (wholeValue v).map (.entry key) := by
  rw [parseEntry, h, Option.bind_some]
  show (readTomlValue (skipSpace v)).bind _ = _
  rw [wholeValue]
  cases hv : readTomlValue (skipSpace v) with
  | none => rfl
  | some r =>
      dsimp only [Option.bind_some]
      split_ifs <;> rfl

/-- A line that starts with neither space, comment nor header. -/
theorem parseLine_cons {c : Char} (hspace : tomlSpace c = false) (hcomment : c ≠ '#')
    (hheader : c ≠ '[') (l : List Char) :
    parseLine (c :: l) = parseEntry (c :: l) := by
  have hstart : ¬ ((c :: l).head? = none ∨ (c :: l).head? = some '#') := by
    rintro (h | h)
    · cases h
    · exact hcomment (Option.some.inj h)
  rw [parseLine, skipSpace_cons hspace, if_neg hstart, List.head?_cons, if_neg fun h => hheader (Option.some.inj h)]

theorem parseLine_bareKey {key : List Char} (hne : key ≠ []) (hkey : key.all bareKeyChar = true) (v : List Char) :
    parseLine (key ++ (" = ".toList ++ v)) = (wholeValue v).map (.entry key) := by
  rw [List.all_eq_true] at hkey
  have hread : readKey (key ++ (" = ".toList ++ v)) = some (key, " = ".toList ++ v) := by
    have htake : (key ++ (" = ".toList ++ v)).takeWhile bareKeyChar = key := by
      rw [List.takeWhile_append_of_pos hkey]
      exact List.append_nil key
    have hdrop : (key ++ (" = ".toList ++ v)).dropWhile bareKeyChar = " = ".toList ++ v := by
      rw [List.dropWhile_append_of_pos hkey]
      rfl
    have hquote : (key ++ (" = ".toList ++ v)).head? ≠ some '"' := by
      rw [List.head?_append_of_ne_nil _ hne]
      intro hhead
      exact absurd (hkey '"' (List.mem_of_head? hhead)) (by decide)
    rw [readKey, if_neg hquote, htake, hdrop, if_neg hne]
  rw [← parseEntry_of_readKey hread]
  cases key with
  | nil => exact absurd rfl hne
  | cons c key =>
      have hc := hkey c List.mem_cons_self
      refine parseLine_cons ?_ ?_ ?_ _
      · by_contra hspace
        rw [Bool.not_eq_false, tomlSpace, Bool.or_eq_true, beq_iff_eq, beq_iff_eq] at hspace
        obtain rfl | rfl := hspace <;> exact absurd hc (by decide)
      · rintro rfl
        exact absurd hc (by decide)
      · rintro rfl
        exact absurd hc (by decide)

theorem parseLine_goQuote (printable : Char → Bool) (key v : List Char) :
    parseLine (goQuote printable key ++ (" = ".toList ++ v)) =
      if key.any unreadable then none else (wholeValue v).map (.entry key) := by
  have hread : readKey (goQuote printable key ++ (" = ".toList ++ v)) =
      if key.any unreadable then none else some (key, " = ".toList ++ v) := by
    rw [goQuote, readKey, List.cons_append, if_pos (List.head?_cons ..)]
    show readBasic .plain (goQuoteBody printable key ++ ['"'] ++ (" = ".toList ++ v)) = _
    rw [List.append_assoc]
    exact readBasic_goQuoteBody printable key (" = ".toList ++ v)
  have hline : parseLine (goQuote printable key ++ (" = ".toList ++ v)) =
      parseEntry (goQuote printable key ++ (" = ".toList ++ v)) :=
    parseLine_cons (by decide) (by decide) (by decide) _
  rw [hline]
  cases hany : key.any unreadable with
  | true =>
      rw [hany, if_pos rfl] at hread
      rw [parseEntry, hread]
      rfl
  | false =>
      rw [hany, if_neg Bool.false_ne_true] at hread
      rw [if_neg Bool.false_ne_true, parseEntry_of_readKey hread]

/-! Values as programs print them. -/

theorem wholeValue_goQuote (printable : Char → Bool) (s : List Char) :
    wholeValue (goQuote printable s) = if s.any unreadable then none else some (.str s) := by
  rw [goQuote, wholeValue, skipSpace_cons (by decide), readTomlValue, if_pos (List.head?_cons ..)]
  show ((readBasic .plain (goQuoteBody printable s ++ '"' :: [])).map _).bind _ = _
  rw [readBasic_goQuoteBody]
  split_ifs <;> rfl

theorem wholeValue_text {s : List Char} (hs : ∀ c ∈ s, c ≠ '"' ∧ c ≠ '\\' ∧ tomlControl c = false) :
    wholeValue ('"' :: (s ++ ['"'])) = some (.str s) := by
  rw [wholeValue, skipSpace_cons (by decide), readTomlValue, if_pos (List.head?_cons ..),
    List.tail_cons, readBasic_text hs]
  rfl

/-- `%t` -/
def goBool (b : Bool) : List Char := if b then "true".toList else "false".toList

theorem wholeValue_goBool (b : Bool) : wholeValue (goBool b) = some (.bool b) := by
  cases b <;> decide

/-- `%d` -/
def goInt (n : ℤ) : List Char := (toString n).toList

theorem readDigits_toDigits (n : ℕ) : readDigits (Nat.toDigits 10 n) = some (n, []) := by
  have hdigits : ∀ c ∈ Nat.toDigits 10 n, c.isDigit = true :=
    fun c hc => Nat.isDigit_of_mem_toDigits (by decide) (by decide) hc
  have hwhole : ¬ (Nat.toDigits 10 n = [] ∨
      ((Nat.toDigits 10 n).head? = some '0' ∧ Nat.toDigits 10 n ≠ ['0'])) := by
    rintro (hnil | ⟨hhead, hne⟩)
    · exact Nat.toDigits_ne_nil hnil
    · exact hne (Json.head?_toDigits hhead)
  have hends : Json.EndsNumber [] := fun c hc => absurd hc (by simp)
  obtain ⟨htake, hdrop⟩ := Json.takeWhile_append_of_ends hdigits hends
  rw [List.append_nil] at htake hdrop
  rw [readDigits, htake, hdrop, if_neg hwhole, Nat.ofDigitChars_ten_toDigits]

/-- What is not a string, an array or a name is a number. -/
theorem readTomlValue_number {c : Char} {l : List Char} (hc : c = '-' ∨ c.isDigit = true) :
    readTomlValue (c :: l) = (readInteger (c :: l)).map fun r => (.int r.1, r.2) := by
  have hne : ∀ x : Char, x ≠ '-' → x.isDigit = false → c ≠ x := by
    rintro x hminus hdigit rfl
    obtain h | h := hc
    · exact hminus h
    · exact Bool.false_ne_true (hdigit.symm.trans h)
  have htrue : "true".toList.isPrefixOf (c :: l) = false := by
    show ('t' == c && _) = false
    rw [beq_eq_false_iff_ne.2 (hne 't' (by decide) (by decide)).symm, Bool.false_and]
  have hfalse : "false".toList.isPrefixOf (c :: l) = false := by
    show ('f' == c && _) = false
    rw [beq_eq_false_iff_ne.2 (hne 'f' (by decide) (by decide)).symm, Bool.false_and]
  rw [readTomlValue, List.head?_cons, if_neg fun h => hne '"' (by decide) (by decide) (Option.some.inj h),
    if_neg fun h => hne '[' (by decide) (by decide) (Option.some.inj h), htrue, hfalse,
    if_neg Bool.false_ne_true, if_neg Bool.false_ne_true]

theorem readInteger_goInt (n : ℤ) : readInteger (goInt n) = some (n, []) := by
  cases n with
  | ofNat n =>
      have hminus : (Nat.toDigits 10 n).head? ≠ some '-' := by
        intro hhead
        exact absurd (Json.isDigit_of_head? hhead) (by decide)
      rw [goInt, Json.toList_ofNat, readInteger, if_neg hminus, readDigits_toDigits]
      rfl
  | negSucc n =>
      rw [goInt, Json.toList_negSucc, readInteger, if_pos (List.head?_cons ..), List.tail_cons, readDigits_toDigits]
      rfl

theorem wholeValue_goInt (n : ℤ) : wholeValue (goInt n) = some (.int n) := by
  obtain ⟨c, cs, htext, hc⟩ := Json.toList_int n
  have hspace : tomlSpace c = false := by
    by_contra hspace
    rw [Bool.not_eq_false, tomlSpace, Bool.or_eq_true, beq_iff_eq, beq_iff_eq] at hspace
    obtain rfl | rfl := hspace <;> revert hc <;> decide
  have hread := readInteger_goInt n
  rw [goInt, htext] at hread
  rw [goInt, htext, wholeValue, skipSpace_cons hspace, readTomlValue_number hc, hread]
  rfl

/-! ## Documents -/

/-- The lines of a text; a line ends with a line feed, or with a carriage return and a line
feed. -/
def splitLines : List Char → List (List Char)
  | [] => [[]]
  | c :: rest =>
      if c = '\n' then [] :: splitLines rest
      else if c = '\r' ∧ rest.head? = some '\n' then splitLines rest
      else (c :: (splitLines rest).headD []) :: (splitLines rest).tail

/-- A text of lines. -/
def unlines (lines : List (List Char)) : List Char := lines.flatMap (· ++ ['\n'])

/-- A table with its entries. -/
structure TomlTable where
  path : List (List Char)
  array : Bool
  entries : List (List Char × TomlValue)
deriving DecidableEq

/-- The lines, table by table; `t` is the table that the next line belongs to. -/
def tablesOf (t : TomlTable) : List TomlLine → List TomlTable
  | [] => [t]
  | .blank :: lines => tablesOf t lines
  | .header path array :: lines => t :: tablesOf ⟨path, array, []⟩ lines
  | .entry key value :: lines => tablesOf { t with entries := t.entries ++ [(key, value)] } lines

/-- The table of what stands before the first header. -/
def rootTable : TomlTable := ⟨[], false, []⟩

/-- A document defines nothing twice: no key of a table, no table but those of an array, and no
table that is a key of another. -/
def DefinesOnce (tables : List TomlTable) : Prop :=
  (∀ t ∈ tables, (t.entries.map Prod.fst).Nodup) ∧
    (tables.map fun t => (t.path, t.array)).Pairwise (fun t u => t.1 = u.1 → t.2 = true ∧ u.2 = true) ∧
    ∀ t ∈ tables, ∀ u ∈ tables, ∀ e ∈ t.entries, ¬ t.path ++ [e.1] <+: u.path

instance (tables : List TomlTable) : Decidable (DefinesOnce tables) := inferInstanceAs (Decidable (_ ∧ _ ∧ _))

/-- The tables of a document. -/
def decodeToml (text : List Char) : Option (List TomlTable) :=
  ((splitLines text).mapM parseLine).bind fun lines =>
    if DefinesOnce (tablesOf rootTable lines) then some (tablesOf rootTable lines) else none

example : decodeToml "a = 1\n[t] # one\n\"a\" = true\n".toList =
    some [⟨[], false, [("a".toList, .int 1)]⟩, ⟨["t".toList], false, [("a".toList, .bool true)]⟩] := by decide

theorem splitLines_ne_nil (l : List Char) : splitLines l ≠ [] := by
  induction l with
  | nil => exact List.cons_ne_nil _ _
  | cons c rest ih =>
      rw [splitLines]
      split_ifs
      · exact List.cons_ne_nil _ _
      · exact ih
      · exact List.cons_ne_nil _ _

/-- A text that is one line. -/
theorem splitLines_line {l : List Char} (hl : ∀ c ∈ l, c ≠ '\n' ∧ c ≠ '\r') : splitLines l = [l] := by
  induction l with
  | nil => rfl
  | cons c l ih =>
      obtain ⟨hn, hr⟩ := hl c List.mem_cons_self
      rw [splitLines, if_neg hn, if_neg fun h => hr h.1, ih fun x hx => hl x (List.mem_cons_of_mem c hx)]
      rfl

/-- The lines of a text up to the end of a line, and those behind it. -/
theorem splitLines_append {l : List Char} (hl : l.getLast? ≠ some '\r') (rest : List Char) :
    splitLines (l ++ '\n' :: rest) = splitLines l ++ splitLines rest := by
  induction l with
  | nil => rfl
  | cons c l ih =>
      have hhead : (l ++ '\n' :: rest).head? = some '\n' → c = '\r' → l.head? = some '\n' := by
        intro hnext hc
        cases l with
        | nil => exact absurd (congrArg some hc) hl
        | cons d l => exact hnext
      have htail : l.getLast? ≠ some '\r' := by
        intro hlast
        cases l with
        | nil => cases hlast
        | cons d l => exact hl (by rw [List.getLast?_cons_cons, hlast])
      rw [List.cons_append, splitLines, splitLines]
      by_cases hn : c = '\n'
      · rw [if_pos hn, if_pos hn, ih htail, List.cons_append]
      rw [if_neg hn, if_neg hn]
      by_cases hr : c = '\r' ∧ l.head? = some '\n'
      · rw [if_pos hr, if_pos ⟨hr.1, by rw [List.head?_append, hr.2]; rfl⟩, ih htail]
      · rw [if_neg hr, if_neg fun h => hr ⟨h.1, hhead h.2 h.1⟩, ih htail]
        cases hlines : splitLines l with
        | nil => exact absurd hlines (splitLines_ne_nil l)
        | cons first others => rfl

theorem splitLines_unlines {lines : List (List Char)} (h : ∀ l ∈ lines, l.getLast? ≠ some '\r') :
    splitLines (unlines lines) = lines.flatMap splitLines ++ [[]] := by
  induction lines with
  | nil => rfl
  | cons l lines ih =>
      rw [unlines, List.flatMap_cons, List.append_assoc, List.singleton_append, ← unlines,
        splitLines_append (h l List.mem_cons_self), ih fun x hx => h x (List.mem_cons_of_mem l hx),
        List.flatMap_cons, List.append_assoc]

/-- What the lines of a text say. -/
def parseAll (lines : List (List Char)) : Option (List TomlLine) := (lines.flatMap splitLines).mapM parseLine

theorem parseAll_append (l l' : List (List Char)) :
    parseAll (l ++ l') = (parseAll l).bind fun a => (parseAll l').map (a ++ ·) := by
  rw [parseAll, List.flatMap_append, List.mapM_append]
  simp only [Option.bind_eq_bind, Option.pure_def, parseAll, Option.map_eq_bind]
  rfl

theorem parseAll_append_eq_some {l l' : List (List Char)} {ls : List TomlLine} :
    parseAll (l ++ l') = some ls ↔ ∃ a b, parseAll l = some a ∧ parseAll l' = some b ∧ ls = a ++ b := by
  rw [parseAll_append]
  simp only [Option.bind_eq_some_iff, Option.map_eq_some_iff]
  constructor
  · rintro ⟨a, ha, b, hb, rfl⟩
    exact ⟨a, b, ha, hb, rfl⟩
  · rintro ⟨a, b, ha, hb, rfl⟩
    exact ⟨a, ha, b, hb, rfl⟩

theorem parseAll_cons (l : List Char) (ls : List (List Char)) :
    parseAll (l :: ls) = (parseAll [l]).bind fun a => (parseAll ls).map (a ++ ·) :=
  parseAll_append [l] ls

/-- Without line breaks of either kind. -/
def OneLine (l : List Char) : Prop := ∀ c ∈ l, c ≠ '\n' ∧ c ≠ '\r'

theorem OneLine.append {l l' : List Char} (h : OneLine l) (h' : OneLine l') : OneLine (l ++ l') := by
  intro c hc
  obtain hc | hc := List.mem_append.1 hc
  · exact h c hc
  · exact h' c hc

theorem parseAll_line {l : List Char} (hl : OneLine l) : parseAll [l] = (parseLine l).map fun x => [x] := by
  rw [parseAll, List.flatMap_singleton, splitLines_line hl]
  cases h : parseLine l with
  | none => simp [h]
  | some x => simp [h]

theorem tablesOf_append_blank (t : TomlTable) (lines : List TomlLine) :
    tablesOf t (lines ++ [.blank]) = tablesOf t lines := by
  induction lines generalizing t with
  | nil => rfl
  | cons line lines ih =>
      cases line with
      | blank => exact ih t
      | header path array => exact congrArg (t :: ·) (ih _)
      | entry key value => exact ih _

/-- A document that is written line by line. -/
theorem decodeToml_unlines {lines : List (List Char)} (h : ∀ l ∈ lines, l.getLast? ≠ some '\r') :
    decodeToml (unlines lines) = (parseAll lines).bind fun ls =>
      if DefinesOnce (tablesOf rootTable ls) then some (tablesOf rootTable ls) else none := by
  have hblank : parseLine [] = some .blank := by decide
  rw [decodeToml, splitLines_unlines h, List.mapM_append]
  simp only [Option.bind_eq_bind, Option.pure_def, parseAll]
  cases hlines : (lines.flatMap splitLines).mapM parseLine with
  | none => rfl
  | some ls => simp [hblank, tablesOf_append_blank]

/-- Entries belong to the table they stand in. -/
theorem tablesOf_entries (t : TomlTable) (es : List (List Char × TomlValue)) (lines : List TomlLine) :
    tablesOf t (es.map (fun e => .entry e.1 e.2) ++ lines) = tablesOf { t with entries := t.entries ++ es } lines := by
  induction es generalizing t with
  | nil => rw [List.append_nil]; rfl
  | cons e es ih =>
      rw [List.map_cons, List.cons_append, tablesOf, ih]
      simp

/-- How much a document says. -/
def TomlTable.weight (t : TomlTable) : ℕ := 1 + t.entries.length

/-- Every line that is not blank says something. -/
theorem weight_tablesOf (t : TomlTable) (lines : List TomlLine) :
    ((tablesOf t lines).map TomlTable.weight).sum = t.weight + lines.countP (· ≠ .blank) := by
  induction lines generalizing t with
  | nil => rfl
  | cons line lines ih =>
      cases line with
      | blank =>
          rw [tablesOf, ih]
          rfl
      | header path array =>
          rw [tablesOf, List.map_cons, List.sum_cons, ih, List.countP_cons]
          simp [TomlTable.weight]
          omega
      | entry key value =>
          rw [tablesOf, ih, List.countP_cons]
          simp [TomlTable.weight]
          omega

theorem tablesOf_blanks (t : TomlTable) {blanks : List TomlLine}
    (h : blanks.countP (· ≠ .blank) = 0) (lines : List TomlLine) :
    tablesOf t (blanks ++ lines) = tablesOf t lines := by
  induction blanks with
  | nil => rfl
  | cons line blanks ih =>
      rw [List.countP_cons] at h
      cases line with
      | blank => exact ih (by omega)
      | header path array => simp at h
      | entry key value => simp at h

theorem hexDigits_oneLine (k n : ℕ) : OneLine (hexDigits k n) := by
  induction k with
  | zero => intro c hc; cases hc
  | succ k ih =>
      have hall : ∀ m : Fin 16, hexChar m.val ≠ '\n' ∧ hexChar m.val ≠ '\r' := by decide
      intro c hc
      obtain rfl | hc := List.mem_cons.1 hc
      · exact hall ⟨n / 16 ^ k % 16, Nat.mod_lt _ (by decide)⟩
      · exact ih c hc

theorem goQuoteChar_oneLine (printable : Char → Bool) (c : Char) : OneLine (goQuoteChar printable c) := by
  have hslash : OneLine ['\\'] := by
    intro x hx
    rw [List.mem_singleton.1 hx]
    decide
  have hcode : ∀ letter : Char, letter ≠ '\n' ∧ letter ≠ '\r' →
    ∀ k, OneLine ('\\' :: letter :: hexDigits k c.toNat) := by
    intro letter hletter k
    refine hslash.append fun x hx => ?_
    obtain rfl | hx := List.mem_cons.1 hx
    · exact hletter
    · exact hexDigits_oneLine k c.toNat x hx
  rw [goQuoteChar]
  by_cases hspecial : c = '"' ∨ c = '\\'
  · rw [if_pos hspecial]
    refine hslash.append fun x hx => ?_
    rw [List.mem_singleton.1 hx]
    obtain rfl | rfl := hspecial <;> decide
  rw [if_neg hspecial]
  by_cases hprint : goIsPrint printable c = true
  · rw [if_pos hprint]
    have hrange := (range_of_isPrint printable hprint).1
    intro x hx
    rw [List.mem_singleton.1 hx]
    constructor <;> rintro rfl <;> exact absurd hrange (by decide)
  rw [if_neg hprint]
  cases hletter : goEscapeOf c.toNat with
  | some letter =>
      refine hslash.append fun x hx => ?_
      rw [List.mem_singleton.1 hx]
      unfold goEscapeOf at hletter
      split_ifs at hletter <;> cases hletter <;> decide
  | none =>
      dsimp only
      split_ifs
      · exact hcode 'x' (by decide) 2
      · exact hcode 'u' (by decide) 4
      · exact hcode 'U' (by decide) 8

/-- What is quoted is one line. -/
theorem goQuote_oneLine (printable : Char → Bool) (s : List Char) : OneLine (goQuote printable s) := by
  intro c hc
  obtain rfl | hc := List.mem_cons.1 hc
  · decide
  obtain hc | hc := List.mem_append.1 hc
  · obtain ⟨x, -, hx⟩ := List.mem_flatMap.1 hc
    exact goQuoteChar_oneLine printable x c hx
  · rw [List.mem_singleton.1 hc]
    decide

instance (l : List Char) : Decidable (OneLine l) := List.decidableBAll _ l

/-- A line that stands alone, and what it says. -/
def Parses (l : List Char) (line : TomlLine) : Prop := OneLine l ∧ parseLine l = some line

instance (l : List Char) (line : TomlLine) : Decidable (Parses l line) := inferInstanceAs (Decidable (_ ∧ _))

theorem parseAll_of_parses {lines : List (List Char)} {ls : List TomlLine} (h : List.Forall₂ Parses lines ls) :
    parseAll lines = some ls := by
  induction h with
  | nil => rfl
  | cons hline _ ih => rw [parseAll_cons, parseAll_line hline.1, hline.2, ih]; rfl

theorem oneLine_of_parses {lines : List (List Char)} {ls : List TomlLine} (h : List.Forall₂ Parses lines ls) :
    ∀ l ∈ lines, OneLine l := by
  induction h with
  | nil => exact fun _ hl => absurd hl List.not_mem_nil
  | cons hline _ ih => exact List.forall_mem_cons.2 ⟨hline.1, ih⟩

theorem OneLine.getLast?_ne {l : List Char} (h : OneLine l) : l.getLast? ≠ some '\r' :=
  fun hlast => (h '\r' (List.mem_of_getLast? hlast)).2 rfl

theorem goBool_oneLine (b : Bool) : OneLine (goBool b) := by
  cases b <;> decide

/-- The printable characters of a number. -/
theorem goInt_text (n : ℤ) : ∀ c ∈ goInt n, c ≠ '"' ∧ c ≠ '\\' ∧ tomlControl c = false := by
  have hdigits : ∀ m : ℕ, ∀ c ∈ Nat.toDigits 10 m, c ≠ '"' ∧ c ≠ '\\' ∧ tomlControl c = false := by
    intro m c hc
    have hdigit : c.isDigit = true := Nat.isDigit_of_mem_toDigits (by decide) (by decide) hc
    have hrange := Char.isDigit_iff_toNat.1 hdigit
    refine ⟨?_, ?_, decide_eq_false ?_⟩
    · rintro rfl
      exact absurd hdigit (by decide)
    · rintro rfl
      exact absurd hdigit (by decide)
    · have hlow : 48 ≤ c.toNat := hrange.1
      have hhigh : c.toNat ≤ 57 := hrange.2
      omega
  intro c hc
  cases n with
  | ofNat n =>
      rw [goInt, Json.toList_ofNat] at hc
      exact hdigits n c hc
  | negSucc n =>
      rw [goInt, Json.toList_negSucc] at hc
      obtain rfl | hc := List.mem_cons.1 hc
      · decide
      · exact hdigits (n + 1) c hc

theorem goInt_oneLine (n : ℤ) : OneLine (goInt n) := by
  intro c hc
  have hcontrol := (goInt_text n c hc).2.2
  constructor <;> rintro rfl <;> exact absurd hcontrol (by decide)

end Simorgh.Lib
