import Mathlib.Data.String.Basic
import Simorgh.Lib.Float64

/-!
# JSON objects under two decoders

One JSON object is read in two ways by a Go program.  Decoded into a map, its
keys are taken as they are spelled, every number becomes a float64, and writing
the map back sorts the keys and prints each float64 by its shortest digits.
Decoded into a struct, a key is taken for a field when the two agree up to
letter case, members are stored in document order, a later one overwriting an
earlier one, and a member whose type does not fit the field is passed over.

* `Text` is an object as it stands in a document, `Map` an object in memory, `Doc`
  an object as the program writes it.
* `Text.toMap`, `Doc.toMap` and `Map.marshal` go from the one to the other.
* `field` reads a struct field; `field_eq_of_spellings` says what decides it, and
  `field_of_greatest` when the exact key does.
-/

namespace Simorgh.Lib.Json

/-! ## Numbers -/

/-- A number literal: its value, and whether it is spelled with digits alone. -/
structure Lit where
  value : ℚ
  plain : Bool
  deriving DecidableEq

/-- A number in memory: a float64, or an int64 the program put there. -/
inductive Num where
  | float (q : ℚ)
  | int (n : ℤ)
  deriving DecidableEq

/-- The literal lies within the float64 range. -/
def Lit.inRange (l : Lit) : Bool := decide (|l.value| < 2 ^ 1024 - 2 ^ 970)

/-- The literal a number is printed as.  Magnitudes from `1e21` on and fractions
are not spelled with digits alone. -/
def Num.print : Num → Lit
  | .int n => ⟨n, true⟩
  | .float q => if q.den = 1 ∧ |q| < 10 ^ 21 then ⟨shortestInt q.num, true⟩ else ⟨q, false⟩

/-- The float64 a literal is decoded to. -/
def Lit.toNum (l : Lit) : Num := .float (float64 l.value)

/-- Go's conversion to int64. -/
def Num.toInt64 : Num → ℤ
  | .int n => n
  | .float q => floatToInt64 q

/-- What an int64 field accepts: digits alone, inside the int64 range. -/
def Lit.int64? (l : Lit) : Option ℤ :=
  if l.plain && decide (l.value.den = 1) && decide (FitsInt64 l.value.num) then some l.value.num
  else none

/-! ## Objects -/

/-- A member's value; `ν` is the type of numbers, and arrays and objects are
carried as text. -/
inductive Val (ν : Type) where
  | null
  | bool (b : Bool)
  | num (n : ν)
  | str (s : String)
  | other (text : String)
  deriving DecidableEq

/-- The value with its number converted. -/
def Val.map {ν μ : Type} (f : ν → μ) : Val ν → Val μ
  | .null => .null
  | .bool b => .bool b
  | .num n => .num (f n)
  | .str s => .str s
  | .other t => .other t

/-- The value as a string. -/
def Val.str? {ν : Type} : Val ν → Option String
  | .str s => some s
  | _ => none

/-- The value as a flag. -/
def Val.bool? {ν : Type} : Val ν → Option Bool
  | .bool b => some b
  | _ => none

/-- The value as an int64. -/
def Val.int64? : Val Lit → Option ℤ
  | .num l => l.int64?
  | _ => none

/-- An object in a document, its members in the order they stand there. -/
abbrev Text := List (String × Val Lit)

/-- An object with no key twice, its members in key order. -/
structure Obj (ν : Type) where
  members : List (String × Val ν)
  sorted : members.Pairwise fun a b => a.1 < b.1
  deriving DecidableEq

/-- An object in memory.  Key order is the order it is written back in. -/
abbrev Map := Obj Num

/-- An object in a document the program wrote. -/
abbrev Doc := Obj Lit

/-- Insert into, or overwrite in, a list sorted by key. -/
def setSorted {β : Type} (k : String) (v : β) : List (String × β) → List (String × β)
  | [] => [(k, v)]
  | (k', v') :: l =>
      if k < k' then (k, v) :: (k', v') :: l
      else if k = k' then (k, v) :: l
      else (k', v') :: setSorted k v l

theorem key_of_mem_setSorted {β : Type} {k : String} {v : β} {l : List (String × β)}
    {m : String × β} (h : m ∈ setSorted k v l) : m = (k, v) ∨ m ∈ l := by
  induction l with
  | nil => simpa [setSorted] using h
  | cons a l ih =>
      obtain ⟨k', v'⟩ := a
      simp only [setSorted] at h
      split at h
      · simpa using h
      · split at h
        · rw [List.mem_cons] at h
          rcases h with h | h
          · exact Or.inl h
          · exact Or.inr (List.mem_cons_of_mem _ h)
        · rw [List.mem_cons] at h
          rcases h with h | h
          · exact Or.inr (h ▸ List.mem_cons_self)
          · rcases ih h with h | h
            · exact Or.inl h
            · exact Or.inr (List.mem_cons_of_mem _ h)

theorem setSorted_sorted {β : Type} (k : String) (v : β) {l : List (String × β)}
    (h : l.Pairwise fun a b => a.1 < b.1) :
    (setSorted k v l).Pairwise fun a b => a.1 < b.1 := by
  induction l with
  | nil => simp [setSorted]
  | cons a l ih =>
      obtain ⟨k', v'⟩ := a
      rw [List.pairwise_cons] at h
      simp only [setSorted]
      split
      · rename_i hlt
        rw [List.pairwise_cons, List.pairwise_cons]
        refine ⟨?_, h.1, h.2⟩
        intro b hb
        rw [List.mem_cons] at hb
        rcases hb with rfl | hb
        · exact hlt
        · exact hlt.trans (h.1 b hb)
      · split
        · rename_i heq
          subst heq
          exact List.pairwise_cons.2 h
        · rename_i hlt hne
          refine List.pairwise_cons.2 ⟨?_, ih h.2⟩
          intro b hb
          rcases key_of_mem_setSorted hb with rfl | hb
          · exact lt_of_le_of_ne (not_lt.1 hlt) (fun he => hne he.symm)
          · exact h.1 b hb

namespace Obj

variable {ν μ : Type}

/-- The object without members. -/
def empty : Obj ν := ⟨[], List.Pairwise.nil⟩

/-- `o[k] = v`. -/
def set (o : Obj ν) (k : String) (v : Val ν) : Obj ν :=
  ⟨setSorted k v o.members, setSorted_sorted k v o.sorted⟩

/-- `delete(o, k)`. -/
def delete (o : Obj ν) (k : String) : Obj ν :=
  ⟨o.members.filter fun a => decide (a.1 ≠ k), o.sorted.filter _⟩

/-- `o[k]`. -/
def get? (o : Obj ν) (k : String) : Option (Val ν) :=
  (o.members.find? fun a => decide (a.1 = k)).map (·.2)

/-- `o[k].(string)`, the empty string when it is not one. -/
def str (o : Obj ν) (k : String) : String := ((o.get? k).bind Val.str?).getD ""

/-- `o[k].(bool)`, false when it is not one. -/
def bool (o : Obj ν) (k : String) : Bool := ((o.get? k).bind Val.bool?).getD false

/-- The object with its numbers converted. -/
def mapNum (f : ν → μ) (o : Obj ν) : Obj μ :=
  ⟨o.members.map fun a => (a.1, a.2.map f), by
    rw [List.pairwise_map]
    exact o.sorted⟩

end Obj

/-- The number under a key as an int64, zero when it is not a number. -/
def Map.int64 (m : Map) (k : String) : ℤ :=
  match m.get? k with
  | some (.num n) => n.toInt64
  | _ => 0

/-- The map written back as a document. -/
def Map.marshal (m : Map) : Doc := m.mapNum Num.print

/-- A document the program wrote, decoded into a map. -/
def Doc.toMap (d : Doc) : Map := d.mapNum Lit.toNum

/-- The object decoded into a map: of two members under one key the later stays. -/
def Text.toMap (t : Text) : Map :=
  t.foldl (fun m a => m.set a.1 (a.2.map Lit.toNum)) Obj.empty

/-- Decoding into a map fails on a literal beyond the float64 range. -/
def Text.inRange (t : Text) : Bool :=
  t.all fun a => match a.2 with
    | .num l => l.inRange
    | _ => true

/-! ## Struct fields -/

/-- The case folding field names are matched under: ASCII letters, and the long s and
the Kelvin sign, which fold to one. -/
def foldChar (c : Char) : Char :=
  if c = '\u017f' then 's' else if c = '\u212a' then 'k' else c.toLower

/-- The key is taken for the field of this name. -/
def sameName (key name : String) : Bool :=
  decide (key.toList.map foldChar = name.toList.map foldChar)

/-- A struct field after decoding: every member taken for it, in document order,
overwrites it when its value fits. -/
def field {β : Type} (name : String) (read : Val Lit → Option β) (zero : β) (t : Text) : β :=
  t.foldl (fun acc a => if sameName a.1 name then (read a.2).getD acc else acc) zero

/-! ## Reading a map after a write -/

theorem find?_setSorted {β : Type} (k k' : String) (v : β) (l : List (String × β)) :
    ((setSorted k v l).find? fun a => decide (a.1 = k')).map (·.2) =
      if k = k' then some v else (l.find? fun a => decide (a.1 = k')).map (·.2) := by
  induction l with
  | nil => by_cases h : k = k' <;> simp [setSorted, h]
  | cons a l ih =>
      obtain ⟨k₁, v₁⟩ := a
      simp only [setSorted]
      split
      · by_cases h : k = k' <;> simp [h]
      · split
        · rename_i heq
          subst heq
          by_cases h : k = k' <;> simp [h]
        · rename_i hne
          by_cases h₁ : k₁ = k'
          · have hk : k ≠ k' := fun h => hne (h.trans h₁.symm)
            simp [h₁, hk]
          · simp only [List.find?_cons, h₁, decide_false]
            exact ih

theorem Obj.get?_set {ν : Type} (o : Obj ν) (k k' : String) (v : Val ν) :
    (o.set k v).get? k' = if k = k' then some v else o.get? k' :=
  find?_setSorted k k' v o.members

theorem Obj.get?_delete {ν : Type} (o : Obj ν) (k k' : String) :
    (o.delete k).get? k' = if k = k' then none else o.get? k' := by
  simp only [Obj.get?, Obj.delete, List.find?_filter]
  by_cases h : k = k'
  · subst h
    rw [if_pos rfl, List.find?_eq_none.2]
    · rfl
    · intro a _
      simp
  · rw [if_neg h]
    congr 2
    funext a
    by_cases ha : a.1 = k'
    · have : a.1 ≠ k := fun hak => h (hak.symm.trans ha)
      simp [ha, Ne.symm h]
    · simp [ha]

theorem Obj.get?_mapNum {ν μ : Type} (f : ν → μ) (o : Obj ν) (k : String) :
    (o.mapNum f).get? k = (o.get? k).map (Val.map f) := by
  simp only [Obj.get?, Obj.mapNum, List.find?_map, Option.map_map]
  rfl

@[simp] theorem Obj.str_mapNum {ν μ : Type} (f : ν → μ) (o : Obj ν) (k : String) :
    (o.mapNum f).str k = o.str k := by
  rw [Obj.str, Obj.str, Obj.get?_mapNum]
  cases o.get? k with
  | none => rfl
  | some v => cases v <;> rfl

@[simp] theorem Obj.bool_mapNum {ν μ : Type} (f : ν → μ) (o : Obj ν) (k : String) :
    (o.mapNum f).bool k = o.bool k := by
  rw [Obj.bool, Obj.bool, Obj.get?_mapNum]
  cases o.get? k with
  | none => rfl
  | some v => cases v <;> rfl

theorem Obj.bool_set {ν : Type} (o : Obj ν) (k k' : String) (v : Val ν) :
    (o.set k v).bool k' = if k = k' then v.bool?.getD false else o.bool k' := by
  rw [Obj.bool, Obj.get?_set]
  split <;> rfl

theorem Map.int64_set_int (m : Map) (k : String) (n : ℤ) :
    Map.int64 (m.set k (.num (.int n))) k = n := by
  rw [Map.int64, Obj.get?_set, if_pos rfl]
  rfl

theorem Map.int64_set_of_ne {m : Map} {k k' : String} (h : k ≠ k') (v : Val Num) :
    Map.int64 (m.set k v) k' = m.int64 k' := by
  rw [Map.int64, Obj.get?_set, if_neg h]
  rfl

/-- The map holds the last member under a key. -/
theorem get?_toMap_append_cons (t t' : Text) (k : String) (v : Val Lit)
    (h : ∀ a ∈ t', a.1 ≠ k) :
    (Text.toMap (t ++ (k, v) :: t')).get? k = some (v.map Lit.toNum) := by
  have hrest : ∀ (m : Map), (t'.foldl (fun m a => m.set a.1 (a.2.map Lit.toNum)) m).get? k =
      m.get? k := by
    induction t' with
    | nil => intro m; rfl
    | cons a t' ih =>
        intro m
        rw [List.foldl_cons, ih (fun b hb => h b (List.mem_cons_of_mem _ hb)), Obj.get?_set,
          if_neg (h a List.mem_cons_self)]
  rw [Text.toMap, List.foldl_append, List.foldl_cons, hrest, Obj.get?_set, if_pos rfl]

theorem int64?_of_fits {n : Int} (h : FitsInt64 n) : Val.int64? (.num ⟨n, true⟩) = some n := by
  simp [Val.int64?, Lit.int64?, h]

/-- A machine integer is within the float64 range. -/
theorem inRange_of_fits {n : Int} (h : FitsInt64 n) : (⟨n, true⟩ : Lit).inRange = true := by
  obtain ⟨h₁, h₂⟩ := h
  have habs : |n| < 2 ^ 64 := by
    rw [abs_lt]
    omega
  have hcast : |(n : ℚ)| < 2 ^ 64 := by exact_mod_cast habs
  have hpow : (2 : ℚ) ^ 64 ≤ 2 ^ 970 := pow_le_pow_right₀ (by norm_num) (by norm_num)
  have hsplit : (2 : ℚ) ^ 1024 = 2 ^ 970 * 2 ^ 54 := by rw [← pow_add]
  have hbig : (2 : ℚ) ^ 64 ≤ 2 ^ 1024 - 2 ^ 970 := by
    rw [hsplit]
    generalize (2 : ℚ) ^ 970 = x at hpow
    linarith
  simpa [Lit.inRange] using lt_of_lt_of_le hcast hbig

/-! ## Struct fields after a write -/

section Field

variable {β : Type} {name : String} {read : Val Lit → Option β}

theorem field_nil (zero : β) : field name read zero [] = zero := rfl

theorem field_cons (zero : β) (a : String × Val Lit) (t : Text) :
    field name read zero (a :: t) =
      field name read (if sameName a.1 name then (read a.2).getD zero else zero) t := rfl

theorem field_append (zero : β) (t t' : Text) :
    field name read zero (t ++ t') = field name read (field name read zero t) t' :=
  List.foldl_append

/-- A document without a member taken for the field leaves it as it was. -/
theorem field_of_forall_not {zero : β} {t : Text} (h : ∀ a ∈ t, sameName a.1 name = false) :
    field name read zero t = zero := by
  induction t generalizing zero with
  | nil => rfl
  | cons a t ih =>
      rw [field_cons, h a List.mem_cons_self]
      exact ih fun b hb => h b (List.mem_cons_of_mem _ hb)

/-- A field is decided by the members taken for it. -/
theorem field_filter (zero : β) (t : Text) :
    field name read zero t = field name read zero (t.filter fun a => sameName a.1 name) := by
  induction t generalizing zero with
  | nil => rfl
  | cons a t ih =>
      by_cases ha : sameName a.1 name = true
      · simp only [List.filter_cons, ha, if_true, field_cons]
        exact ih _
      · simp only [List.filter_cons, ha, field_cons]
        exact ih zero

/-- The value of the last member that is taken for the field and fits it. -/
def lastSpelling (name : String) (read : Val Lit → Option β) (t : Text) : Option β :=
  (t.filterMap fun a => if sameName a.1 name then read a.2 else none).getLast?

theorem field_eq_lastSpelling (zero : β) (t : Text) :
    field name read zero t = (lastSpelling name read t).getD zero := by
  induction t generalizing zero with
  | nil => rfl
  | cons a t ih =>
      rw [field_cons, ih]
      unfold lastSpelling
      by_cases ha : sameName a.1 name = true
      · cases hr : read a.2 with
        | none => simp [ha, hr]
        | some b => simp [ha, hr, List.getLast?_cons]
      · simp [ha]

/-- A field that takes no numbers reads alike before and after numbers are
converted. -/
theorem field_map_num (f : Lit → Lit) (hread : ∀ v, read (v.map f) = read v) (zero : β) (t : Text) :
    field name read zero (t.map fun a => (a.1, a.2.map f)) = field name read zero t := by
  induction t generalizing zero with
  | nil => rfl
  | cons a t ih =>
      rw [List.map_cons, field_cons, field_cons, hread]
      exact ih _

/-- When no spelling of the field's name sorts after the exact one, a fitting
value under the exact key is the field's value. -/
theorem field_of_greatest (hgreat : ∀ k, sameName k name = true → k ≤ name) {d : Doc}
    {v : Val Lit} {b : β} (hget : d.get? name = some v) (hread : read v = some b) (zero : β) :
    field name read zero d.members = b := by
  obtain ⟨members, sorted⟩ := d
  simp only [Obj.get?] at hget ⊢
  induction members generalizing zero with
  | nil => simp at hget
  | cons a l ih =>
      obtain ⟨k, v'⟩ := a
      rw [List.pairwise_cons] at sorted
      rw [field_cons]
      by_cases hk : k = name
      · subst hk
        have hv : v' = v := by simpa using hget
        subst hv
        rw [field_of_forall_not]
        · simp [sameName, hread]
        · intro c hc
          have hlt : k < c.1 := sorted.1 c hc
          by_contra hsame
          exact absurd (hgreat c.1 (by simpa using hsame)) (not_le.2 hlt)
      · refine ih _ sorted.2 ?_
        simpa [List.find?_cons, hk] using hget

end Field

/-! ## Spellings -/

/-- The members of an object that a struct decoder takes for one field. -/
def Obj.spellings {ν : Type} (o : Obj ν) (name : String) : List (String × Val ν) :=
  o.members.filter fun a => sameName a.1 name

theorem field_eq_of_spellings {β : Type} {name : String} {read : Val Lit → Option β} {o o' : Doc}
    (h : o.spellings name = o'.spellings name) (zero : β) :
    field name read zero o.members = field name read zero o'.members := by
  rw [field_filter, field_filter zero o'.members]
  exact congrArg (field name read zero) h

theorem setSorted_of_forall_lt {β : Type} {k : String} {v : β} {l : List (String × β)}
    (h : ∀ a ∈ l, k < a.1) : setSorted k v l = (k, v) :: l := by
  cases l with
  | nil => rfl
  | cons a l => simp [setSorted, h a List.mem_cons_self]

/-- Filtering by key after a write. -/
theorem filter_setSorted {β : Type} (P : String → Bool) (k : String) (v : β)
    {l : List (String × β)} (h : l.Pairwise fun a b => a.1 < b.1) :
    (setSorted k v l).filter (fun a => P a.1) =
      if P k then setSorted k v (l.filter fun a => P a.1) else l.filter fun a => P a.1 := by
  induction l with
  | nil => by_cases hk : P k = true <;> simp [setSorted, hk]
  | cons a l ih =>
      obtain ⟨k', v'⟩ := a
      rw [List.pairwise_cons] at h
      simp only [setSorted]
      split
      · rename_i hlt
        by_cases hk : P k = true
        · rw [if_pos hk, setSorted_of_forall_lt, List.filter_cons]
          · simp only [hk, if_true]
          · intro b hb
            rcases List.mem_cons.1 (List.mem_of_mem_filter hb) with rfl | hb
            · exact hlt
            · exact hlt.trans (h.1 b hb)
        · rw [if_neg hk, List.filter_cons]
          simp only [hk, Bool.false_eq_true, if_false]
      · split
        · rename_i heq
          subst heq
          by_cases hk : P k = true
          · simp [hk, setSorted]
          · simp [hk]
        · rename_i hlt hne
          by_cases hk' : P k' = true
          · simp only [List.filter_cons, hk', if_true, ih h.2]
            by_cases hk : P k = true
            · simp [hk, setSorted, hlt, hne]
            · simp [hk]
          · simp only [List.filter_cons, hk', Bool.false_eq_true, if_false, ih h.2]

namespace Obj

variable {ν μ : Type} {name : String}

theorem spellings_set (o : Obj ν) (k : String) (v : Val ν) :
    (o.set k v).spellings name =
      if sameName k name then setSorted k v (o.spellings name) else o.spellings name :=
  filter_setSorted (sameName · name) k v o.sorted

theorem spellings_delete (o : Obj ν) (k : String) :
    (o.delete k).spellings name = (o.spellings name).filter fun a => decide (a.1 ≠ k) := by
  simp only [spellings, delete, List.filter_filter, Bool.and_comm]

/-- Removing a key that is not taken for a field leaves the field's spellings. -/
theorem spellings_delete_of_not {k : String} (hk : sameName k name = false) (o : Obj ν) :
    (o.delete k).spellings name = o.spellings name := by
  rw [spellings_delete, List.filter_eq_self]
  intro a ha
  have hname : sameName a.1 name = true := by
    simpa using (List.mem_filter.1 ha).2
  rw [decide_eq_true_eq]
  rintro rfl
  simp [hk] at hname

theorem spellings_mapNum (f : ν → μ) (o : Obj ν) :
    (o.mapNum f).spellings name = (o.spellings name).map fun a => (a.1, a.2.map f) := by
  simp only [spellings, mapNum, List.filter_map]
  rfl

end Obj

/-- A document the program wrote reads back as the map it was written from, up to
its numbers. -/
theorem toMap_members (d : Doc) : Text.toMap d.members = Doc.toMap d := by
  have happend : ∀ (l : List (String × Val Num)) (k : String) (v : Val Num),
      (∀ a ∈ l, a.1 < k) → setSorted k v l = l ++ [(k, v)] := by
    intro l k v h
    induction l with
    | nil => rfl
    | cons a l ih =>
        have ha := h a List.mem_cons_self
        simp only [setSorted, not_lt.2 ha.le, if_false, ha.ne', List.cons_append]
        rw [ih fun b hb => h b (List.mem_cons_of_mem _ hb)]
  have hfold : ∀ (l : Text) (m : Map), (∀ a ∈ m.members, ∀ b ∈ l, a.1 < b.1) →
      (l.Pairwise fun a b => a.1 < b.1) →
      (l.foldl (fun m a => m.set a.1 (a.2.map Lit.toNum)) m).members =
        m.members ++ l.map fun a => (a.1, a.2.map Lit.toNum) := by
    intro l
    induction l with
    | nil => simp
    | cons b l ih =>
        intro m hm hl
        rw [List.pairwise_cons] at hl
        have hset : (m.set b.1 (b.2.map Lit.toNum)).members =
            m.members ++ [(b.1, b.2.map Lit.toNum)] :=
          happend _ _ _ fun a ha => hm a ha b List.mem_cons_self
        rw [List.foldl_cons, ih _ ?_ hl.2, hset]
        · simp
        · intro a ha c hc
          rw [hset, List.mem_append, List.mem_singleton] at ha
          rcases ha with ha | rfl
          · exact hm a ha c (List.mem_cons_of_mem _ hc)
          · exact hl.1 c hc
  have hmembers := hfold d.members Obj.empty (by simp [Obj.empty]) d.sorted
  have hext : ∀ o o' : Map, o.members = o'.members → o = o' := by
    rintro ⟨m, _⟩ ⟨m', _⟩ rfl
    rfl
  exact hext _ _ hmembers


/-- Folding a letter never goes down, the two outside ASCII apart. -/
theorem le_of_foldChar {c d : Char} (h : foldChar c = d) (hs : d ≠ 's') (hk : d ≠ 'k') : c ≤ d := by
  unfold foldChar at h
  split at h
  · exact absurd h.symm hs
  · split at h
    · exact absurd h.symm hk
    · subst h
      unfold Char.toLower
      split
      · rename_i hupper
        show c.val ≤ c.val + ('a'.val - 'A'.val)
        have hz : c.val.toNat ≤ 90 := hupper.2
        have hsum : (c.val + ('a'.val - 'A'.val)).toNat = c.val.toNat + 32 := by
          rw [UInt32.toNat_add]
          have hdiff : ('a'.val - 'A'.val).toNat = 32 := rfl
          rw [hdiff]
          exact Nat.mod_eq_of_lt (by omega)
        rw [UInt32.le_iff_toNat_le, hsum]
        omega
      · exact le_refl c

/-- A name spelled in small letters without `s` and `k` sorts last among its
spellings. -/
theorem le_of_sameName {key name : String} (h : sameName key name = true)
    (hsmall : name.toList.all (fun c => foldChar c = c ∧ c ≠ 's' ∧ c ≠ 'k') = true) : key ≤ name := by
  have hname : ∀ c ∈ name.toList, foldChar c = c ∧ c ≠ 's' ∧ c ≠ 'k' := fun c hc =>
    of_decide_eq_true (List.all_eq_true.1 hsmall c hc)
  have hfold : key.toList.map foldChar = name.toList := by
    have hmap : name.toList.map foldChar = name.toList :=
      (List.map_congr_left fun c hc => (hname c hc).1).trans (List.map_id _)
    rw [← hmap]
    exact of_decide_eq_true h
  rw [← not_lt, String.lt_iff]
  generalize key.toList = l at hfold
  generalize name.toList = l' at hfold hname
  induction l generalizing l' with
  | nil =>
      subst hfold
      simp
  | cons c l ih =>
      subst hfold
      have hc := hname (foldChar c) (by simp)
      have hle := le_of_foldChar rfl hc.2.1 hc.2.2
      have hrest := ih _ rfl fun d hd => hname d (List.mem_cons_of_mem _ hd)
      rw [List.map_cons, List.cons_lt_cons_iff]
      rintro (hlt | ⟨-, hlt⟩)
      · exact absurd hle (not_le.2 hlt)
      · exact hrest hlt

end Simorgh.Lib.Json
