import Mathlib.Data.List.Basic

/-!
# The first rule that speaks

Each rule of a list says something or nothing, and the first that speaks decides.  Two
readings of the same rules are compared.

* `upTo` — the rules a decision depends on.
* `findSome?_eq_of_upTo` — readings that agree on those decide alike.
* `upTo_eq_of_findSome?_eq` — where no two rules can say the same, readings that decide
  alike agree on those.
* `findSome?_flatMap`, `findSome?_const` — rules that stand for a block each, and the rules
  of a block.
-/

namespace Simorgh.Lib

variable {A R V : Type}

/-- The rules up to the first that speaks, that one included. -/
def upTo (v : A → Option V) : List A → List A
  | [] => []
  | a :: l => if (v a).isSome then [a] else a :: upTo v l

theorem findSome?_flatMap (f : A → List R) (v : R → Option V) (l : List A) :
    (l.flatMap f).findSome? v = l.findSome? fun a => (f a).findSome? v := by
  induction l with
  | nil => rfl
  | cons a l ih =>
      rw [List.flatMap_cons, List.findSome?_append, ih, List.findSome?_cons]
      cases (f a).findSome? v <;> rfl

/-- Rules that all say the same. -/
theorem findSome?_const {p : R → Bool} {g : R → V} {l : List R} {x : V} (h : ∀ r ∈ l, g r = x) :
    (l.findSome? fun r => if p r then some (g r) else none) = if l.any p then some x else none := by
  induction l with
  | nil => rfl
  | cons r l ih =>
      rw [List.findSome?_cons, List.any_cons]
      cases hr : p r with
      | true => simp [h r List.mem_cons_self]
      | false => simpa using ih fun r' hr' => h r' (List.mem_cons_of_mem r hr')

theorem findSome?_eq_of_upTo {v v' : A → Option V} {l : List A} (h : ∀ a ∈ upTo v l, v' a = v a) :
    l.findSome? v' = l.findSome? v := by
  induction l with
  | nil => rfl
  | cons a l ih =>
      rw [List.findSome?_cons, List.findSome?_cons]
      rw [upTo] at h
      cases ha : v a with
      | some x =>
          rw [if_pos (by rw [ha]; rfl)] at h
          rw [h a List.mem_cons_self, ha]
      | none =>
          rw [if_neg (by rw [ha]; exact Bool.false_ne_true)] at h
          rw [h a List.mem_cons_self, ha]
          exact ih fun b hb => h b (List.mem_cons_of_mem a hb)

/-- What a decision says is said by a rule, or by what comes after the rules. -/
theorem getD_findSome?_cases {v : A → Option V} {g : A → V} {l : List A} (hv : ∀ a ∈ l, ∀ x, v a = some x → x = g a)
    (last : V) : (∃ a ∈ l, (l.findSome? v).getD last = g a) ∨ (l.findSome? v).getD last = last := by
  cases hfind : l.findSome? v with
  | none => exact Or.inr rfl
  | some x =>
      obtain ⟨a, ha, hx⟩ := List.exists_of_findSome?_eq_some hfind
      exact Or.inl ⟨a, ha, hv a ha x hx⟩

/-- A rule that says `g a` when it speaks, where no other can say that: two readings that
decide alike agree on the rules up to the first that speaks. -/
theorem upTo_eq_of_findSome?_eq {v v' : A → Option V} {g : A → V} {l : List A} {last last' : V}
    (hv : ∀ a ∈ l, ∀ x, v a = some x → x = g a) (hv' : ∀ a ∈ l, ∀ x, v' a = some x → x = g a)
    (hdistinct : l.Pairwise fun a b => g a ≠ g b) (hlast : ∀ a ∈ l, g a ≠ last) (hlast' : ∀ a ∈ l, g a ≠ last')
    (h : (l.findSome? v').getD last' = (l.findSome? v).getD last) :
    (∀ a ∈ upTo v l, v' a = v a) ∧ (l.findSome? v = none → last' = last) := by
  induction l with
  | nil =>
      refine ⟨fun a ha => ?_, fun _ => h⟩
      cases ha
  | cons a l ih =>
      rw [List.pairwise_cons] at hdistinct
      obtain ⟨ha, hrest⟩ := hdistinct
      have hnotlater : ∀ (w : A → Option V) (z : V), (∀ b ∈ l, ∀ x, w b = some x → x = g b) → g a ≠ z →
          (l.findSome? w).getD z ≠ g a := by
        intro w z hw hz heq
        rcases getD_findSome?_cases hw z with ⟨b, hb, hsaid⟩ | hsaid
        · exact ha b hb (heq.symm.trans hsaid)
        · exact hz (heq.symm.trans hsaid)
      have hvl : ∀ b ∈ l, ∀ x, v b = some x → x = g b := fun b hb => hv b (List.mem_cons_of_mem a hb)
      have hvl' : ∀ b ∈ l, ∀ x, v' b = some x → x = g b := fun b hb => hv' b (List.mem_cons_of_mem a hb)
      rw [List.findSome?_cons, List.findSome?_cons] at h
      rw [upTo, List.findSome?_cons]
      cases hva : v a with
      | some x =>
          obtain rfl := hv a List.mem_cons_self x hva
          rw [hva] at h
          refine ⟨fun b hb => ?_, fun hnone => by cases hnone⟩
          rw [Option.isSome_some, if_pos rfl, List.mem_singleton] at hb
          subst hb
          cases hva' : v' b with
          | some y => rw [hv' b List.mem_cons_self y hva', hva]
          | none =>
              rw [hva'] at h
              exact absurd h (hnotlater v' last' hvl' (hlast' b List.mem_cons_self))
      | none =>
          rw [hva] at h
          cases hva' : v' a with
          | some y =>
              obtain rfl := hv' a List.mem_cons_self y hva'
              rw [hva'] at h
              exact absurd h.symm (hnotlater v last hvl (hlast a List.mem_cons_self))
          | none =>
              rw [hva'] at h
              obtain ⟨hagree, hend⟩ := ih hvl hvl' hrest (fun b hb => hlast b (List.mem_cons_of_mem a hb))
                (fun b hb => hlast' b (List.mem_cons_of_mem a hb)) h
              refine ⟨fun b hb => ?_, hend⟩
              rw [Option.isSome_none, if_neg Bool.false_ne_true, List.mem_cons] at hb
              rcases hb with rfl | hb
              · rw [hva', hva]
              · exact hagree b hb

end Simorgh.Lib
