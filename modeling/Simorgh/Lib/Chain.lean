import Mathlib.Data.List.Basic

/-!
# Chains of rules

A chain of rules is walked from the first on.  A rule may touch counters, and the
first one with a verdict ends the walk.

* `walk` — what a chain does, given what each rule does.
* `walk_append`, `walk_flatMap`, `walk_map` — chains made of blocks.
* `walk_silent`, `walk_counting` — blocks of rules of one kind.
* `walk_find`, `walk_any` — a block in which the first rule that speaks decides, and
  one in which all say the same.
-/

namespace Simorgh.Lib

/-- What a rule does with a packet: the counters it touches, in order, and its verdict,
if it has one. -/
structure Outcome (C V : Type) where
  counted : List C
  verdict : Option V
  deriving DecidableEq

namespace Outcome

variable {C V : Type}

/-- No effects and no verdict. -/
def silent : Outcome C V := ⟨[], none⟩

/-- A verdict without effects. -/
def decided (v : V) : Outcome C V := ⟨[], some v⟩

/-- A verdict, or nothing. -/
def said (v : Option V) : Outcome C V := ⟨[], v⟩

/-- The second is reached if the first has no verdict. -/
def andThen (o o' : Outcome C V) : Outcome C V :=
  match o.verdict with
  | some _ => o
  | none => ⟨o.counted ++ o'.counted, o'.verdict⟩

@[simp] theorem silent_andThen (o : Outcome C V) : silent.andThen o = o := rfl

@[simp] theorem decided_andThen (v : V) (o : Outcome C V) : (decided v).andThen o = decided v := rfl

@[simp] theorem andThen_silent (o : Outcome C V) : o.andThen silent = o := by
  obtain ⟨counted, _ | v⟩ := o
  · simp [andThen, silent]
  · rfl

theorem counting_andThen (counted : List C) (o : Outcome C V) :
    (⟨counted, none⟩ : Outcome C V).andThen o = ⟨counted ++ o.counted, o.verdict⟩ := rfl

theorem said_andThen (v w : Option V) : (said v : Outcome C V).andThen (said w) = said (v <|> w) := by
  cases v <;> rfl

theorem andThen_assoc (o o' o'' : Outcome C V) : (o.andThen o').andThen o'' = o.andThen (o'.andThen o'') := by
  obtain ⟨counted, _ | v⟩ := o
  · obtain ⟨counted', _ | v'⟩ := o'
    · simp [andThen, List.append_assoc]
    · rfl
  · rfl

end Outcome

open Outcome

variable {R A C V : Type} {eval : R → Outcome C V}

/-- What a chain does, given what each of its rules does. -/
def walk (eval : R → Outcome C V) : List R → Outcome C V
  | [] => silent
  | r :: rs => (eval r).andThen (walk eval rs)

@[simp] theorem walk_nil : walk eval [] = silent := rfl

@[simp] theorem walk_cons (r : R) (rs : List R) : walk eval (r :: rs) = (eval r).andThen (walk eval rs) := rfl

theorem walk_append (rs rs' : List R) : walk eval (rs ++ rs') = (walk eval rs).andThen (walk eval rs') := by
  induction rs with
  | nil => simp
  | cons r rs ih => rw [List.cons_append, walk_cons, walk_cons, ih, andThen_assoc]

theorem walk_flatMap (f : A → List R) (l : List A) :
    walk eval (l.flatMap f) = walk (fun a => walk eval (f a)) l := by
  induction l with
  | nil => rfl
  | cons a l ih => rw [List.flatMap_cons, walk_append, walk_cons, ih]

theorem walk_map (f : A → R) (l : List A) : walk eval (l.map f) = walk (fun a => eval (f a)) l := by
  induction l with
  | nil => rfl
  | cons a l ih => rw [List.map_cons, walk_cons, walk_cons, ih]

/-- Rules that do nothing. -/
theorem walk_silent {rs : List R} (h : ∀ r ∈ rs, eval r = silent) : walk eval rs = silent := by
  induction rs with
  | nil => rfl
  | cons r rs ih =>
      rw [walk_cons, h r (List.mem_cons_self ..), silent_andThen]
      exact ih fun r' hr' => h r' (List.mem_cons_of_mem _ hr')

/-- Rules without a verdict. -/
theorem walk_counting {rs : List R} (h : ∀ r ∈ rs, (eval r).verdict = none) :
    walk eval rs = ⟨rs.flatMap fun r => (eval r).counted, none⟩ := by
  induction rs with
  | nil => rfl
  | cons r rs ih =>
      have hr : eval r = ⟨(eval r).counted, none⟩ := by rw [← h r (List.mem_cons_self ..)]
      rw [walk_cons, ih fun r' hr' => h r' (List.mem_cons_of_mem _ hr'), hr, counting_andThen,
        List.flatMap_cons]

/-- The first rule that speaks decides. -/
theorem walk_find (speaks : R → Bool) (verdict : R → V)
    (h : ∀ r, eval r = if speaks r then decided (verdict r) else silent) (rs : List R) :
    walk eval rs = said ((rs.find? speaks).map verdict) := by
  induction rs with
  | nil => rfl
  | cons r rs ih =>
      rw [walk_cons, h r, List.find?_cons]
      cases hr : speaks r with
      | true => rfl
      | false => simpa using ih

/-- All rules that speak say the same. -/
theorem walk_any (speaks : R → Bool) (v : V) (h : ∀ r, eval r = if speaks r then decided v else silent)
    (rs : List R) : walk eval rs = if rs.any speaks then decided v else silent := by
  induction rs with
  | nil => rfl
  | cons r rs ih =>
      rw [walk_cons, h r, List.any_cons]
      cases hr : speaks r with
      | true => simp
      | false => simpa using ih

end Simorgh.Lib
