import Simorgh.Lib.Json

/-!
# JSON documents as trees

A document with everything it nests.  An object keeps its members as they stand;
whoever reads it into a map gets the last member of a name.

* `Tree.member?` — the member of a name.
* `Tree.toMap` — the map, as it is written again.
* `Tree.text` — a string field of a struct the object is decoded into.
* `Tree.Alike` — the same document, but for the order of an object's members and for
  members a later one takes the place of.
-/

namespace Simorgh.Lib.Json

theorem setSorted_append {β : Type} {k : String} {v : β} {l : List (String × β)} (h : ∀ a ∈ l, a.1 < k) :
    setSorted k v l = l ++ [(k, v)] := by
  induction l with
  | nil => rfl
  | cons a l ih =>
      have ha := h a List.mem_cons_self
      rw [setSorted, if_neg (not_lt_of_gt ha), if_neg (ne_of_gt ha), ih fun b hb => h b (List.mem_cons_of_mem a hb)]
      rfl

/-- Members that are in order are put in as they are. -/
theorem foldl_setSorted {β : Type} {l acc : List (String × β)} (hl : l.Pairwise fun a b => a.1 < b.1)
    (hacc : ∀ a ∈ acc, ∀ b ∈ l, a.1 < b.1) :
    l.foldl (fun out m => setSorted m.1 m.2 out) acc = acc ++ l := by
  induction l generalizing acc with
  | nil => rw [List.foldl_nil, List.append_nil]
  | cons m l ih =>
      rw [List.pairwise_cons] at hl
      rw [List.foldl_cons, setSorted_append fun a ha => hacc a ha m List.mem_cons_self]
      rw [ih hl.2, List.append_assoc]
      · rfl
      · intro a ha b hb
        rcases List.mem_append.1 ha with ha | ha
        · exact hacc a ha b (List.mem_cons_of_mem m hb)
        · rw [List.mem_singleton.1 ha]
          exact hl.1 b hb

/-- A parsed JSON value. -/
inductive Tree where
  | null
  | bool (b : Bool)
  | num (l : Lit)
  | str (s : String)
  | arr (items : List Tree)
  | obj (members : List (String × Tree))

namespace Tree

/-- The last member of this name. -/
def lookup (key : String) (members : List (String × Tree)) : Option Tree :=
  (members.reverse.find? fun m => decide (m.1 = key)).map (·.2)

/-- The member of this name, if it is an object that has one. -/
def member? (key : String) : Tree → Option Tree
  | .obj members => lookup key members
  | _ => none

/-- The value as a string. -/
def str? : Tree → Option String
  | .str s => some s
  | _ => none

/-- A string field after decoding: every member taken for it overwrites it, unless its
value is no string.  What is no object leaves it empty. -/
def text (name : String) : Tree → String
  | .obj members => members.foldl (fun acc m => if sameName m.1 name then m.2.str?.getD acc else acc) ""
  | _ => ""

/-- Decoding into a struct with this string field gives no error. -/
def decodes (name : String) : Tree → Bool
  | .null => true
  | .obj members => members.all fun m =>
      !sameName m.1 name || match m.2 with
        | .str _ | .null => true
        | _ => false
  | _ => false

/-- The map an object is decoded into, as it is written again: in key order. -/
def toMap (members : List (String × Tree)) : List (String × Tree) :=
  members.foldl (fun out m => setSorted m.1 m.2 out) []

/-- The same but for the order of the members and for members that are overridden. -/
def Alike (t t' : Tree) : Prop :=
  t = t' ∨ ∃ ms ms', t = .obj ms ∧ t' = .obj ms' ∧ ∀ key, lookup key ms = lookup key ms'

theorem Alike.refl (t : Tree) : Alike t t := Or.inl rfl

theorem lookup_cons (key : String) (m : String × Tree) (ms : List (String × Tree)) :
    lookup key (m :: ms) = (lookup key ms).or (if m.1 = key then some m.2 else none) := by
  rw [lookup, List.reverse_cons, List.find?_append, lookup]
  cases ms.reverse.find? fun m => decide (m.1 = key) with
  | some m' => rfl
  | none => by_cases h : m.1 = key <;> simp [h]

theorem toMap_sorted (members : List (String × Tree)) : (toMap members).Pairwise fun a b => a.1 < b.1 := by
  have hfold : ∀ (ms out : List (String × Tree)), out.Pairwise (fun a b => a.1 < b.1) →
      (ms.foldl (fun out m => setSorted m.1 m.2 out) out).Pairwise fun a b => a.1 < b.1 := by
    intro ms
    induction ms with
    | nil => exact fun _ h => h
    | cons m ms ih => exact fun out h => ih _ (setSorted_sorted m.1 m.2 h)
  exact hfold members [] List.Pairwise.nil

/-- With no name twice, the last member of a name is the first. -/
theorem lookup_of_sorted {members : List (String × Tree)} (h : members.Pairwise fun a b => a.1 < b.1) (key : String) :
    lookup key members = (members.find? fun m => decide (m.1 = key)).map (·.2) := by
  induction members with
  | nil => rfl
  | cons m ms ih =>
      rw [List.pairwise_cons] at h
      rw [lookup_cons, ih h.2]
      by_cases hkey : m.1 = key
      · have hnone : ms.find? (fun m => decide (m.1 = key)) = none := by
          rw [List.find?_eq_none]
          intro m' hm' hsame
          have hlt := h.1 m' hm'
          rw [hkey, of_decide_eq_true hsame] at hlt
          exact absurd hlt (lt_irrefl _)
        simp [hkey, hnone]
      · simp [hkey]

/-- The map has the last member of each name. -/
theorem find?_toMap (members : List (String × Tree)) (key : String) :
    ((toMap members).find? fun m => decide (m.1 = key)).map (·.2) = lookup key members := by
  have hfold : ∀ (ms out : List (String × Tree)),
      ((ms.foldl (fun out m => setSorted m.1 m.2 out) out).find? fun m => decide (m.1 = key)).map (·.2) =
        (lookup key ms).or ((out.find? fun m => decide (m.1 = key)).map (·.2)) := by
    intro ms
    induction ms with
    | nil => exact fun _ => rfl
    | cons m ms ih =>
        intro out
        rw [List.foldl_cons, ih, find?_setSorted, lookup_cons, Option.or_assoc]
        by_cases hkey : m.1 = key <;> simp [hkey]
  rw [toMap, hfold members []]
  exact Option.or_none

/-- A member of the map is replaced. -/
theorem lookup_setSorted_toMap (members : List (String × Tree)) (k : String) (v : Tree) (key : String) :
    lookup key (setSorted k v (toMap members)) = if k = key then some v else lookup key members := by
  rw [lookup_of_sorted (setSorted_sorted k v (toMap_sorted members)), find?_setSorted, find?_toMap]

theorem lookup_eq_none {members : List (String × Tree)} {key : String}
    (h : ∀ m ∈ members, m.1 ≠ key) : lookup key members = none := by
  rw [lookup, Option.map_eq_none_iff, List.find?_eq_none]
  intro m hm heq
  exact h m (List.mem_reverse.1 hm) (of_decide_eq_true heq)

/-- A member of the map is the last of its name. -/
theorem lookup_of_mem_toMap {members : List (String × Tree)} {m : String × Tree} (hm : m ∈ toMap members) :
    lookup m.1 members = some m.2 := by
  rw [← find?_toMap]
  have hfind : (toMap members).find? (fun a => decide (a.1 = m.1)) = some m := by
    obtain ⟨before, after, hsplit⟩ := List.append_of_mem hm
    have hsorted := toMap_sorted members
    rw [hsplit] at hsorted ⊢
    refine List.find?_eq_some_iff_append.2 ⟨decide_eq_true rfl, before, after, rfl, ?_⟩
    intro a ha
    have hlt := (List.pairwise_append.1 hsorted).2.2 a ha m List.mem_cons_self
    rw [decide_eq_false (ne_of_lt hlt)]
    rfl
  rw [hfind]
  rfl

theorem lookup_map (f : String → Tree → Tree) (members : List (String × Tree)) (key : String) :
    lookup key (members.map fun m => (m.1, f m.1 m.2)) = (lookup key members).map (f key) := by
  induction members with
  | nil => rfl
  | cons m ms ih =>
      rw [List.map_cons, lookup_cons, lookup_cons, ih, Option.map_or]
      by_cases hkey : m.1 = key
      · simp [hkey]
      · simp [hkey]

/-! ## Documents read into maps and written again -/

/-- To show something of every document, show it of an array or an object whose parts have it. -/
theorem induct {P : Tree → Prop} (hnull : P .null) (hbool : ∀ b, P (.bool b)) (hnum : ∀ l, P (.num l))
    (hstr : ∀ s, P (.str s)) (harr : ∀ items, (∀ t ∈ items, P t) → P (.arr items))
    (hobj : ∀ members, (∀ m ∈ members, P m.2) → P (.obj members)) (t : Tree) : P t :=
  @Tree.rec P (fun items => ∀ t ∈ items, P t) (fun members => ∀ m ∈ members, P m.2) (fun m => P m.2)
    hnull hbool hnum hstr harr hobj
    (fun _ h => absurd h List.not_mem_nil)
    (fun _ _ ht hts t h => by
      rcases List.mem_cons.1 h with rfl | h
      · exact ht
      · exact hts t h)
    (fun _ h => absurd h List.not_mem_nil)
    (fun _ _ hm hms m h => by
      rcases List.mem_cons.1 h with rfl | h
      · exact hm
      · exact hms m h)
    (fun _ _ h => h) t

mutual

/-- Every object as the map it is decoded into, and every number through `f`. -/
def rebuild (f : Lit → Lit) : Tree → Tree
  | .null => .null
  | .bool b => .bool b
  | .num l => .num (f l)
  | .str s => .str s
  | .arr items => .arr (rebuildItems f items)
  | .obj members => .obj (toMap (rebuildMembers f members))

def rebuildItems (f : Lit → Lit) : List Tree → List Tree
  | [] => []
  | t :: ts => rebuild f t :: rebuildItems f ts

def rebuildMembers (f : Lit → Lit) : List (String × Tree) → List (String × Tree)
  | [] => []
  | (k, t) :: ms => (k, rebuild f t) :: rebuildMembers f ms

end

mutual

/-- The numbers of a document. -/
def numbers : Tree → List Lit
  | .num l => [l]
  | .arr items => numbersItems items
  | .obj members => numbersMembers members
  | _ => []

def numbersItems : List Tree → List Lit
  | [] => []
  | t :: ts => numbers t ++ numbersItems ts

def numbersMembers : List (String × Tree) → List Lit
  | [] => []
  | (_, t) :: ms => numbers t ++ numbersMembers ms

end

/-- The value that is the map of an object, and of anything else the empty one. -/
def asMap : Tree → List (String × Tree)
  | .obj members => toMap members
  | _ => []

/-- `m[k] = v`; what is no object is replaced. -/
def set (t : Tree) (key : String) (v : Tree) : Tree := .obj (setSorted key v t.asMap)

/-- `delete(m, k)`. -/
def delete (t : Tree) (key : String) : Tree := .obj (t.asMap.filter fun m => decide (m.1 ≠ key))

theorem rebuildItems_eq (f : Lit → Lit) (items : List Tree) : rebuildItems f items = items.map (rebuild f) := by
  induction items with
  | nil => rfl
  | cons t ts ih => rw [rebuildItems, ih, List.map_cons]

theorem rebuildMembers_eq (f : Lit → Lit) (members : List (String × Tree)) :
    rebuildMembers f members = members.map fun m => (m.1, rebuild f m.2) := by
  induction members with
  | nil => rfl
  | cons m ms ih =>
      obtain ⟨k, t⟩ := m
      rw [rebuildMembers, ih, List.map_cons]

theorem rebuild_obj (f : Lit → Lit) (members : List (String × Tree)) :
    rebuild f (.obj members) = .obj (toMap (members.map fun m => (m.1, rebuild f m.2))) := by
  rw [rebuild, rebuildMembers_eq]

theorem rebuild_arr (f : Lit → Lit) (items : List Tree) : rebuild f (.arr items) = .arr (items.map (rebuild f)) := by
  rw [rebuild, rebuildItems_eq]

theorem mem_numbersItems {l : Lit} {items : List Tree} : l ∈ numbersItems items ↔ ∃ t ∈ items, l ∈ numbers t := by
  induction items with
  | nil => simp [numbersItems]
  | cons t ts ih => simp [numbersItems, ih]

theorem mem_numbersMembers {l : Lit} {members : List (String × Tree)} :
    l ∈ numbersMembers members ↔ ∃ m ∈ members, l ∈ numbers m.2 := by
  induction members with
  | nil => simp [numbersMembers]
  | cons m ms ih =>
      obtain ⟨k, t⟩ := m
      simp [numbersMembers, ih]

theorem toMap_of_sorted {members : List (String × Tree)} (h : members.Pairwise fun a b => a.1 < b.1) :
    toMap members = members := by
  rw [toMap, foldl_setSorted h fun a ha => absurd ha List.not_mem_nil, List.nil_append]

theorem mem_of_lookup {key : String} {v : Tree} {members : List (String × Tree)} (h : lookup key members = some v) :
    (key, v) ∈ members := by
  rw [lookup, Option.map_eq_some_iff] at h
  obtain ⟨m, hfind, rfl⟩ := h
  have hkey := List.find?_some hfind
  have hmem := List.mem_reverse.1 (List.mem_of_find?_eq_some hfind)
  rwa [← of_decide_eq_true hkey]

theorem mem_of_mem_toMap {m : String × Tree} {members : List (String × Tree)} (h : m ∈ toMap members) : m ∈ members :=
  mem_of_lookup (lookup_of_mem_toMap h)

/-- Two maps with the same members are the same. -/
theorem eq_of_lookup {l l' : List (String × Tree)} (hl : l.Pairwise fun a b => a.1 < b.1)
    (hl' : l'.Pairwise fun a b => a.1 < b.1) (h : ∀ key, lookup key l = lookup key l') : l = l' := by
  have hmem : ∀ {l l' : List (String × Tree)}, l.Pairwise (fun a b => a.1 < b.1) →
      (∀ key, lookup key l = lookup key l') → ∀ m ∈ l, m ∈ l' := by
    intro l l' hl h m hm
    have hlook := lookup_of_mem_toMap (show m ∈ toMap l by rwa [toMap_of_sorted hl])
    rw [h] at hlook
    exact mem_of_lookup hlook
  refine List.Perm.eq_of_pairwise (fun a b _ _ hab hba => absurd (hab.trans hba) (lt_irrefl _)) hl hl' ?_
  refine (List.perm_ext_iff_of_nodup (hl.imp fun hlt heq => ?_) (hl'.imp fun hlt heq => ?_)).2 ?_
  · exact absurd hlt (by rw [heq]; exact lt_irrefl _)
  · exact absurd hlt (by rw [heq]; exact lt_irrefl _)
  · exact fun m => ⟨hmem hl h m, hmem hl' (fun key => (h key).symm) m⟩

theorem lookup_toMap (members : List (String × Tree)) (key : String) :
    lookup key (toMap members) = lookup key members := by
  rw [lookup_of_sorted (toMap_sorted members), find?_toMap]

theorem asMap_sorted (t : Tree) : t.asMap.Pairwise fun a b => a.1 < b.1 := by
  cases t with
  | obj members => exact toMap_sorted members
  | _ => exact List.Pairwise.nil

theorem lookup_asMap (key : String) (t : Tree) : lookup key t.asMap = t.member? key := by
  cases t with
  | obj members =>
      exact lookup_toMap members key
  | _ => rfl

theorem member?_set (key k : String) (v t : Tree) :
    (t.set k v).member? key = if k = key then some v else t.member? key := by
  show lookup key (setSorted k v t.asMap) = _
  rw [lookup_of_sorted (setSorted_sorted k v t.asMap_sorted), find?_setSorted, ← lookup_of_sorted t.asMap_sorted,
    lookup_asMap]

theorem obj_ext {l l' : List (String × Tree)} (hl : l.Pairwise fun a b => a.1 < b.1)
    (hl' : l'.Pairwise fun a b => a.1 < b.1) (h : ∀ key, (Tree.obj l).member? key = (Tree.obj l').member? key) :
    Tree.obj l = Tree.obj l' :=
  congrArg Tree.obj (eq_of_lookup hl hl' h)

theorem set_set (t : Tree) (key : String) (v w : Tree) : (t.set key v).set key w = t.set key w := by
  refine obj_ext (setSorted_sorted _ _ (asMap_sorted _)) (setSorted_sorted _ _ (asMap_sorted _)) fun k => ?_
  show ((t.set key v).set key w).member? k = (t.set key w).member? k
  rw [member?_set, member?_set, member?_set]
  split <;> rfl

theorem lookup_filter_ne (key k : String) (members : List (String × Tree)) :
    lookup key (members.filter fun m => decide (m.1 ≠ k)) = if k = key then none else lookup key members := by
  induction members with
  | nil => simp [lookup]
  | cons m ms ih =>
      rw [List.filter_cons]
      by_cases hm : m.1 = k
      · rw [if_neg (by simp [hm]), ih, lookup_cons]
        by_cases hkey : k = key
        · rw [if_pos hkey, if_pos hkey]
        · rw [if_neg hkey, if_neg hkey, if_neg (fun h => hkey (hm.symm.trans h)), Option.or_none]
      · rw [if_pos (by simp [hm]), lookup_cons, ih, lookup_cons]
        by_cases hkey : k = key
        · rw [if_pos hkey, if_pos hkey, if_neg (fun h => hm (h.trans hkey.symm))]
          rfl
        · rw [if_neg hkey, if_neg hkey]

theorem member?_delete (key k : String) (t : Tree) :
    (t.delete k).member? key = if k = key then none else t.member? key := by
  show lookup key (t.asMap.filter fun m => decide (m.1 ≠ k)) = _
  rw [lookup_filter_ne, lookup_asMap]

/-- The values of a map converted. -/
theorem toMap_map (h : Tree → Tree) (members : List (String × Tree)) :
    toMap (members.map fun m => (m.1, h m.2)) = (toMap members).map fun m => (m.1, h m.2) := by
  refine eq_of_lookup (toMap_sorted _) ?_ fun key => ?_
  · rw [List.pairwise_map]
    exact toMap_sorted members
  · rw [lookup_toMap, lookup_map (fun _ => h), lookup_map (fun _ => h), lookup_toMap]

theorem rebuild_rebuild (f g : Lit → Lit) (t : Tree) : rebuild g (rebuild f t) = rebuild (g ∘ f) t := by
  induction t using induct with
  | hnull => rfl
  | hbool b => rfl
  | hnum l => rfl
  | hstr s => rfl
  | harr items ih =>
      rw [rebuild_arr, rebuild_arr, rebuild_arr, List.map_map]
      exact congrArg Tree.arr (List.map_congr_left ih)
  | hobj members ih =>
      rw [rebuild_obj, rebuild_obj, rebuild_obj, ← toMap_map, toMap_of_sorted (toMap_sorted _), List.map_map]
      refine congrArg (fun ms => Tree.obj (toMap ms)) (List.map_congr_left fun m hm => ?_)
      exact congrArg (Prod.mk m.1) (ih m hm)

theorem member?_rebuild (f : Lit → Lit) (key : String) (t : Tree) :
    (rebuild f t).member? key = (t.member? key).map (rebuild f) := by
  cases t with
  | obj members =>
      rw [rebuild_obj]
      show lookup key (toMap _) = _
      rw [lookup_toMap, lookup_map (fun _ => rebuild f)]
      rfl
  | arr items =>
      rw [rebuild_arr]
      rfl
  | _ => rfl

theorem asMap_rebuild (f : Lit → Lit) (t : Tree) :
    (rebuild f t).asMap = t.asMap.map fun m => (m.1, rebuild f m.2) := by
  refine eq_of_lookup (asMap_sorted _) ?_ fun key => ?_
  · rw [List.pairwise_map]
    exact asMap_sorted t
  · rw [lookup_asMap, lookup_map (fun _ => rebuild f), lookup_asMap, member?_rebuild]

/-- A document whose objects are maps is left alone when its numbers are. -/
theorem rebuild_eq_self_iff (f g : Lit → Lit) (t : Tree) :
    rebuild f (rebuild g t) = rebuild g t ↔ ∀ l ∈ (rebuild g t).numbers, f l = l := by
  induction t using induct with
  | hnull => exact ⟨fun _ l hl => absurd hl List.not_mem_nil, fun _ => rfl⟩
  | hbool b => exact ⟨fun _ l hl => absurd hl List.not_mem_nil, fun _ => rfl⟩
  | hnum l =>
      constructor
      · intro h l' hl'
        rw [List.mem_singleton.1 hl']
        exact Tree.num.inj h
      · intro h
        exact congrArg Tree.num (h _ (List.mem_singleton_self _))
  | hstr s => exact ⟨fun _ l hl => absurd hl List.not_mem_nil, fun _ => rfl⟩
  | harr items ih =>
      rw [rebuild_arr, rebuild_arr, List.map_map, Tree.arr.injEq, numbers]
      simp only [mem_numbersItems, List.mem_map]
      rw [List.map_inj_left]
      constructor
      · rintro h l ⟨_, ⟨t, ht, rfl⟩, hl⟩
        exact (ih t ht).1 (h t ht) l hl
      · intro h t ht
        exact (ih t ht).2 fun l hl => h l ⟨_, ⟨t, ht, rfl⟩, hl⟩
  | hobj members ih =>
      have hchild : ∀ m ∈ toMap (members.map fun m => (m.1, rebuild g m.2)),
          (rebuild f m.2 = m.2 ↔ ∀ l ∈ m.2.numbers, f l = l) := by
        intro m hm
        obtain ⟨m', hm', rfl⟩ := List.mem_map.1 (mem_of_mem_toMap hm)
        exact ih m' hm'
      rw [rebuild_obj, rebuild_obj, ← toMap_map, toMap_of_sorted (toMap_sorted _), toMap_map, Tree.obj.injEq, numbers]
      simp only [mem_numbersMembers]
      have hself : (toMap (members.map fun m => (m.1, rebuild g m.2))).map (fun m => (m.1, rebuild f m.2)) =
          toMap (members.map fun m => (m.1, rebuild g m.2)) ↔
            ∀ m ∈ toMap (members.map fun m => (m.1, rebuild g m.2)), (m.1, rebuild f m.2) = m := by
        generalize toMap (members.map fun m => (m.1, rebuild g m.2)) = l
        exact ⟨fun h => List.map_inj_left.1 (h.trans (List.map_id l).symm),
          fun h => (List.map_inj_left.2 h).trans (List.map_id l)⟩
      rw [hself]
      constructor
      · rintro h l ⟨m, hm, hl⟩
        exact (hchild m hm).1 (congrArg Prod.snd (h m hm)) l hl
      · intro h m hm
        exact Prod.ext rfl ((hchild m hm).2 fun l hl => h l ⟨m, hm, hl⟩)

theorem exists_of_mem_numbers_rebuild {f : Lit → Lit} {t : Tree} {l : Lit} (h : l ∈ (rebuild f t).numbers) :
    ∃ l' ∈ t.numbers, f l' = l := by
  induction t using induct with
  | hnull => exact absurd h List.not_mem_nil
  | hbool b => exact absurd h List.not_mem_nil
  | hnum n => exact ⟨n, List.mem_singleton_self n, (List.mem_singleton.1 h).symm⟩
  | hstr s => exact absurd h List.not_mem_nil
  | harr items ih =>
      rw [rebuild_arr, numbers, mem_numbersItems] at h
      obtain ⟨_, hmem, hl⟩ := h
      obtain ⟨t, ht, rfl⟩ := List.mem_map.1 hmem
      obtain ⟨l', hl', hf⟩ := ih t ht hl
      exact ⟨l', mem_numbersItems.2 ⟨t, ht, hl'⟩, hf⟩
  | hobj members ih =>
      rw [rebuild_obj, numbers, mem_numbersMembers] at h
      obtain ⟨_, hmem, hl⟩ := h
      obtain ⟨m, hm, rfl⟩ := List.mem_map.1 (mem_of_mem_toMap hmem)
      obtain ⟨l', hl', hf⟩ := ih m hm hl
      exact ⟨l', mem_numbersMembers.2 ⟨m, hm, hl'⟩, hf⟩

end Tree

/-! ### Numbers -/

/-- The literal that is written for a number that was read into a float64. -/
def Lit.reprint (l : Lit) : Lit :=
  if (float64 l.value).den = 1 ∧ |float64 l.value| < 10 ^ 21 then l.toNum.print else ⟨shortest (float64 l.value), false⟩

/-- The number by its value alone. -/
def Lit.bare (l : Lit) : Lit := ⟨l.value, true⟩

theorem Lit.reprint_cases (l : Lit) :
    (l.reprint = ⟨shortestInt (float64 l.value).num, true⟩ ∧ ((float64 l.value).num : ℚ) = float64 l.value ∧
        |float64 l.value| < 10 ^ 21) ∨
      l.reprint = ⟨shortest (float64 l.value), false⟩ := by
  unfold Lit.reprint
  split
  case isTrue h =>
    left
    exact ⟨if_pos h, (Rat.den_eq_one_iff _).1 h.1, h.2⟩
  case isFalse h => exact Or.inr rfl

/-- What is written is read as the same float64. -/
theorem Lit.float64_reprint (l : Lit) : float64 l.reprint.value = float64 l.value := by
  rcases l.reprint_cases with ⟨hval, hint, -⟩ | hval
  · rw [hval, float64_shortestInt (by rw [hint]; exact float64_float64 l.value), hint]
  · rw [hval, float64_shortest (float64_float64 l.value)]

theorem Lit.reprint_reprint (l : Lit) : l.reprint.reprint = l.reprint := by
  have hsame := l.float64_reprint
  conv_lhs => rw [Lit.reprint, Lit.toNum, hsame]
  rfl

theorem Lit.inRange_reprint {l : Lit} (h : l.inRange = true) : l.reprint.inRange = true := by
  have hfits : FitsFloat64 (float64 l.value) := fits_float64 (of_decide_eq_true h)
  refine decide_eq_true ?_
  rcases l.reprint_cases with ⟨hval, hint, hlt⟩ | hval
  · rw [hval]
    exact fits_shortestInt (by rw [hint]; exact hlt)
  · rw [hval]
    exact fits_shortest hfits

namespace Tree

/-- No number is outside the range of float64. -/
def inRange (t : Tree) : Bool := t.numbers.all Lit.inRange

/-- The document after it was read into maps and written again. -/
def rewritten (t : Tree) : Tree := rebuild Lit.reprint t

/-- A document as it is written. -/
structure Written (t : Tree) : Prop where
  rewritten : t.rewritten = t
  inRange : t.inRange = true

/-- The document but for the order of members, members that are overridden, and the way
numbers are spelled. -/
def meaning (t : Tree) : Tree := rebuild Lit.bare t

/-- Every number that counts is written as a number of the same value. -/
def Exact (t : Tree) : Prop := ∀ l ∈ t.meaning.numbers, l.reprint.bare = l

theorem Written.of_inRange {t : Tree} (h : t.inRange = true) : Written t.rewritten := by
  refine ⟨?_, ?_⟩
  · rw [Tree.rewritten, Tree.rewritten, rebuild_rebuild]
    exact congrArg (rebuild · t) (funext Lit.reprint_reprint)
  · rw [Tree.inRange, List.all_eq_true] at h ⊢
    intro l hl
    obtain ⟨l', hl', rfl⟩ := exists_of_mem_numbers_rebuild hl
    exact Lit.inRange_reprint (h l' hl')

/-- Reading and writing keeps what a document means when its numbers are exact. -/
theorem meaning_rewritten_iff (t : Tree) : t.rewritten.meaning = t.meaning ↔ Exact t := by
  have hsame : t.rewritten.meaning = rebuild (Lit.bare ∘ Lit.reprint) t.meaning := by
    rw [meaning, rewritten, meaning, rebuild_rebuild, rebuild_rebuild]
    rfl
  rw [hsame]
  exact rebuild_eq_self_iff _ _ t

theorem rebuild_set (f : Lit → Lit) (t : Tree) (key : String) (v : Tree) :
    rebuild f (t.set key v) = (rebuild f t).set key (rebuild f v) := by
  have hsorted := setSorted_sorted key v t.asMap_sorted
  rw [set, rebuild_obj, toMap_map, toMap_of_sorted hsorted, set]
  refine congrArg Tree.obj (eq_of_lookup ?_ (setSorted_sorted key _ (asMap_sorted _)) fun k => ?_)
  · rw [List.pairwise_map]
    exact hsorted
  · have hleft := member?_set k key v t
    have hright := member?_set k key (rebuild f v) (rebuild f t)
    rw [lookup_map (fun _ => rebuild f)]
    refine (congrArg (Option.map (rebuild f)) hleft).trans (Eq.trans ?_ hright.symm)
    rw [member?_rebuild]
    split <;> rfl

theorem rebuild_delete (f : Lit → Lit) (t : Tree) (key : String) :
    rebuild f (t.delete key) = (rebuild f t).delete key := by
  have hsorted := t.asMap_sorted.filter fun m => decide (m.1 ≠ key)
  rw [delete, rebuild_obj, toMap_map, toMap_of_sorted hsorted, delete, asMap_rebuild, List.filter_map]
  rfl

theorem mem_numbers_asMap {t : Tree} {m : String × Tree} {l : Lit} (hm : m ∈ t.asMap) (hl : l ∈ m.2.numbers) :
    l ∈ t.numbers := by
  cases t with
  | obj members => exact mem_numbersMembers.2 ⟨m, mem_of_mem_toMap hm, hl⟩
  | _ => exact absurd hm List.not_mem_nil

theorem Written.set {t v : Tree} (ht : Written t) (hv : Written v) (key : String) : Written (t.set key v) := by
  refine ⟨?_, ?_⟩
  · rw [Tree.rewritten, rebuild_set]
    exact congrArg₂ (fun t v => Tree.set t key v) ht.rewritten hv.rewritten
  · have hrange := ht.inRange
    have hvrange := hv.inRange
    rw [Tree.inRange, List.all_eq_true] at hrange hvrange ⊢
    intro l hl
    obtain ⟨m, hm, hl⟩ := mem_numbersMembers.1 hl
    rcases key_of_mem_setSorted hm with rfl | hm
    · exact hvrange l hl
    · exact hrange l (mem_numbers_asMap hm hl)

theorem Written.delete {t : Tree} (ht : Written t) (key : String) : Written (t.delete key) := by
  refine ⟨?_, ?_⟩
  · rw [Tree.rewritten, rebuild_delete]
    exact congrArg (Tree.delete · key) ht.rewritten
  · have hrange := ht.inRange
    rw [Tree.inRange, List.all_eq_true] at hrange ⊢
    intro l hl
    obtain ⟨m, hm, hl⟩ := mem_numbersMembers.1 hl
    exact hrange l (mem_numbers_asMap (List.mem_of_mem_filter hm) hl)

theorem Written.of_member? {t v : Tree} {key : String} (ht : Written t) (h : t.member? key = some v) : Written v := by
  have hmem : (key, v) ∈ t.asMap := mem_of_lookup ((lookup_asMap key t).trans h)
  refine ⟨?_, ?_⟩
  · have hself := member?_rebuild Lit.reprint key t
    rw [show rebuild Lit.reprint t = t from ht.rewritten, h, Option.map_some, Option.some.injEq] at hself
    exact hself.symm
  · have hrange := ht.inRange
    rw [Tree.inRange, List.all_eq_true] at hrange ⊢
    exact fun l hl => hrange l (mem_numbers_asMap hmem hl)

end Tree

end Simorgh.Lib.Json
