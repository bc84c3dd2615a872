/-!
# Lists under a function that may fail

* `mapM_eq_some_iff` — the results of all members, if every one has one.
* `mapM_bind_mapM` — one pass after another is a single pass.
-/

namespace Simorgh.Lib

variable {α β γ : Type}

theorem mapM_eq_some_iff {f : α → Option β} {l : List α} {l' : List β} : l.mapM f = some l' ↔
    l.map f = l'.map some := by
  induction l generalizing l' with
  | nil =>
      cases l' with
      | nil => exact ⟨fun _ => rfl, fun _ => rfl⟩
      | cons b l' => simp
  | cons a l ih =>
      simp only [List.mapM_cons, Option.bind_eq_bind, Option.pure_def, Option.bind_eq_some_iff, Option.some.injEq]
      constructor
      · rintro ⟨b, hb, bs, hbs, rfl⟩
        rw [List.map_cons, List.map_cons, hb, ih.1 hbs]
      · intro h
        cases l' with
        | nil => cases h
        | cons b l' =>
            rw [List.map_cons, List.map_cons, List.cons.injEq] at h
            exact ⟨b, h.1, l', ih.2 h.2, rfl⟩

theorem exists_mapM {f : α → Option β} {l : List α} (h : ∀ a ∈ l, ∃ b, f a = some b) : ∃ l', l.mapM f = some l' := by
  induction l with
  | nil => exact ⟨[], rfl⟩
  | cons a l ih =>
      obtain ⟨b, hb⟩ := h a List.mem_cons_self
      obtain ⟨bs, hbs⟩ := ih fun c hc => h c (List.mem_cons_of_mem a hc)
      exact ⟨b :: bs, mapM_eq_some_iff.2 (by rw [List.map_cons, List.map_cons, hb, mapM_eq_some_iff.1 hbs])⟩

theorem mem_of_mapM {f : α → Option β} {l : List α} {l' : List β} (h : l.mapM f = some l') {a : α} (ha : a ∈ l) :
    ∃ b ∈ l', f a = some b := by
  have hmem : f a ∈ l'.map some := mapM_eq_some_iff.1 h ▸ List.mem_map_of_mem ha
  obtain ⟨b, hb, hfb⟩ := List.mem_map.1 hmem
  exact ⟨b, hb, hfb.symm⟩

theorem mapM_some_self {f : α → Option α} {l : List α} (h : ∀ a ∈ l, f a = some a) : l.mapM f = some l :=
  mapM_eq_some_iff.2 (List.map_congr_left h)

theorem mapM_bind_mapM (f : α → Option β) (g : β → Option γ) (l : List α) :
    (l.mapM f).bind (List.mapM g) = l.mapM fun a => (f a).bind g := by
  induction l with
  | nil => rfl
  | cons a l ih =>
      simp only [List.mapM_cons, Option.bind_eq_bind, Option.pure_def, ← ih]
      cases f a with
      | none => rfl
      | some b =>
          cases l.mapM f with
          | none => simp
          | some bs => simp

end Simorgh.Lib
