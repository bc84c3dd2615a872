import Mathlib.Algebra.Order.Ring.Int
import Mathlib.Data.List.Nodup
import Mathlib.Algebra.BigOperators.Group.List.Basic

/-!
# Tables under a unique index

A table is a list of rows in which no two rows share a key: what a relational
store keeps for a column declared unique.  The three statements a program sends
to such a store are modelled as they behave, with the index as part of the type,
so that a table with a doubled key cannot be built.

* `insert?` — an insert is refused when the key is taken.
* `updateWhere`, `modify` — an update that leaves the key alone; `rekey?` is the
  one that may move it and is refused when the new key is taken.
* `deleteWhere`, `erase` — a delete removes every row it selects.

For each there is one lemma that says what `find?` reads afterwards and one that
says what becomes of a column total (`total_modify`, `total_erase`,
`total_insert?`).
-/

namespace Simorgh.Lib

/-- Rows under a unique index. -/
structure Table {κ ρ : Type} (key : ρ → κ) where
  rows : List ρ
  unique : (rows.map key).Nodup

namespace Table

variable {κ ρ : Type} [DecidableEq κ] {key : ρ → κ}

omit [DecidableEq κ] in
theorem ext_rows {t t' : Table key} (h : t.rows = t'.rows) : t = t' := by
  cases t
  cases t'
  cases h
  rfl

/-- The table without rows. -/
def empty : Table key := ⟨[], List.nodup_nil⟩

/-- The table of one row. -/
def single (r : ρ) : Table key := ⟨[r], List.nodup_singleton _⟩

/-- The row under a key. -/
def find? (t : Table key) (k : κ) : Option ρ := t.rows.find? fun r => decide (key r = k)

/-- `INSERT`, refused when the key is taken. -/
def insert? (t : Table key) (r : ρ) : Option (Table key) :=
  if h : key r ∈ t.rows.map key then none
  else some ⟨t.rows ++ [r], by
    rw [List.map_append, List.nodup_append']
    refine ⟨t.unique, by simp, ?_⟩
    intro k hk hk'
    simp only [List.map_cons, List.map_nil, List.mem_singleton] at hk'
    exact h (hk' ▸ hk)⟩

omit [DecidableEq κ] in
theorem map_key_ite {p : ρ → Bool} {f : ρ → ρ} (hf : ∀ r, key (f r) = key r) (l : List ρ) :
    (l.map fun r => if p r then f r else r).map key = l.map key := by
  rw [List.map_map]
  refine List.map_congr_left fun r _ => ?_
  by_cases h : p r <;> simp [h, hf]

/-- `UPDATE ... WHERE p`, for an update that keeps the key. -/
def updateWhere (t : Table key) (p : ρ → Bool) (f : ρ → ρ) (hf : ∀ r, key (f r) = key r) :
    Table key :=
  ⟨t.rows.map fun r => if p r then f r else r, by rw [map_key_ite hf]; exact t.unique⟩

/-- `UPDATE ... WHERE key = k`, for an update that keeps the key. -/
def modify (t : Table key) (k : κ) (f : ρ → ρ) (hf : ∀ r, key (f r) = key r) : Table key :=
  t.updateWhere (fun r => decide (key r = k)) f hf

/-- `UPDATE ... WHERE key = k` that may move the key, refused when the index
would be violated. -/
def rekey? (t : Table key) (k : κ) (f : ρ → ρ) : Option (Table key) :=
  if h : ((t.rows.map fun r => if key r = k then f r else r).map key).Nodup then some ⟨_, h⟩
  else none

/-- `DELETE ... WHERE p`. -/
def deleteWhere (t : Table key) (p : ρ → Bool) : Table key :=
  ⟨t.rows.filter fun r => !p r, t.unique.sublist (List.filter_sublist.map key)⟩

/-- `DELETE ... WHERE key = k`. -/
def erase (t : Table key) (k : κ) : Table key := t.deleteWhere fun r => decide (key r = k)

/-- `t[key r] = r`. -/
def put (t : Table key) (r : ρ) : Table key :=
  ⟨(t.erase (key r)).rows ++ [r], by
    rw [List.map_append, List.nodup_append']
    refine ⟨(t.erase (key r)).unique, by simp, ?_⟩
    simp [erase, deleteWhere]⟩

/-- The total of a column. -/
def total (t : Table key) (g : ρ → Int) : Int := (t.rows.map g).sum

/-! ## Reading a key -/

theorem find?_some {t : Table key} {k : κ} {r : ρ} (h : t.find? k = some r) :
    r ∈ t.rows ∧ key r = k :=
  ⟨List.mem_of_find?_eq_some h, by simpa using List.find?_some h⟩

theorem find?_eq_none {t : Table key} {k : κ} :
    t.find? k = none ↔ ∀ r ∈ t.rows, key r ≠ k := by
  simp [find?, List.find?_eq_none]

omit [DecidableEq κ] in
theorem eq_of_key_eq {t : Table key} {r r' : ρ} (hr : r ∈ t.rows) (hr' : r' ∈ t.rows)
    (h : key r = key r') : r = r' :=
  List.inj_on_of_nodup_map t.unique hr hr' h

theorem find?_of_mem {t : Table key} {r : ρ} (hr : r ∈ t.rows) : t.find? (key r) = some r := by
  cases h : t.find? (key r) with
  | none => exact absurd rfl (find?_eq_none.1 h r hr)
  | some r' =>
      obtain ⟨hm, hk⟩ := find?_some h
      rw [eq_of_key_eq hm hr hk]

theorem find?_eq_some {t : Table key} {k : κ} {r : ρ} :
    t.find? k = some r ↔ r ∈ t.rows ∧ key r = k := by
  constructor
  · exact find?_some
  · rintro ⟨hr, rfl⟩
    exact find?_of_mem hr

theorem isSome_find? {t : Table key} {k : κ} :
    (t.find? k).isSome ↔ ∃ r ∈ t.rows, key r = k := by
  simp [find?]

@[simp] theorem find?_empty (k : κ) : (empty : Table key).find? k = none := rfl

/-! ## Reading after a write -/

theorem find?_map_key (p : ρ → Bool) (f : ρ → ρ) (hf : ∀ r, key (f r) = key r) (k : κ)
    (l : List ρ) :
    (l.map fun r => if p r then f r else r).find? (fun r => decide (key r = k)) =
      (l.find? fun r => decide (key r = k)).map fun r => if p r then f r else r := by
  induction l with
  | nil => rfl
  | cons r l ih =>
      have hk : key (if p r then f r else r) = key r := by
        by_cases h : p r <;> simp [h, hf]
      simp only [List.map_cons, List.find?_cons, hk]
      by_cases h : key r = k
      · simp [h]
      · simp [h, ih]

@[simp] theorem find?_updateWhere (t : Table key) (p : ρ → Bool) (f : ρ → ρ)
    (hf : ∀ r, key (f r) = key r) (k : κ) :
    (t.updateWhere p f hf).find? k = (t.find? k).map fun r => if p r then f r else r :=
  find?_map_key p f hf k t.rows

theorem find?_modify (t : Table key) (k k' : κ) (f : ρ → ρ) (hf : ∀ r, key (f r) = key r) :
    (t.modify k f hf).find? k' = if k' = k then (t.find? k').map f else t.find? k' := by
  rw [modify, find?_updateWhere]
  cases h : t.find? k' with
  | none => simp
  | some r =>
      obtain ⟨-, rfl⟩ := find?_some h
      by_cases hk : key r = k <;> simp [hk]

@[simp] theorem find?_modify_self (t : Table key) (k : κ) (f : ρ → ρ)
    (hf : ∀ r, key (f r) = key r) : (t.modify k f hf).find? k = (t.find? k).map f := by
  simp [find?_modify]

theorem find?_modify_of_ne {t : Table key} {k k' : κ} {f : ρ → ρ} {hf : ∀ r, key (f r) = key r}
    (h : k' ≠ k) : (t.modify k f hf).find? k' = t.find? k' := by
  simp [find?_modify, h]

/-- A batch of updates: each key sees its own updates, in their order. -/
theorem find?_foldl_modify_filter {α : Type} {k : α → κ} {f : α → ρ → ρ}
    (hf : ∀ a r, key (f a r) = key r) (us : List α) (t : Table key) (k' : κ) :
    (us.foldl (fun t a => t.modify (k a) (f a) (hf a)) t).find? k' =
      (t.find? k').map fun r => (us.filter fun a => decide (k a = k')).foldl (fun r a => f a r) r := by
  induction us generalizing t with
  | nil => simp
  | cons a us ih =>
      rw [List.foldl_cons, ih, find?_modify]
      by_cases hk : k' = k a
      · simp [hk, Function.comp_def]
      · simp [hk, Ne.symm hk]

/-- A batch of updates under distinct keys: each key sees its own update and no
other. -/
theorem find?_foldl_modify {α : Type} {k : α → κ} {f : α → ρ → ρ}
    (hf : ∀ a r, key (f a r) = key r) {us : List α} (hnodup : (us.map k).Nodup) (t : Table key)
    (k' : κ) :
    (us.foldl (fun t a => t.modify (k a) (f a) (hf a)) t).find? k' =
      (t.find? k').map fun r => ((us.find? fun a => decide (k a = k')).map (f · r)).getD r := by
  induction us generalizing t with
  | nil => simp
  | cons a us ih =>
      rw [List.map_cons, List.nodup_cons] at hnodup
      rw [List.foldl_cons, ih hnodup.2, find?_modify]
      by_cases hk : k' = k a
      · have hnone : us.find? (fun b => decide (k b = k')) = none := by
          rw [List.find?_eq_none]
          intro b hb heq
          refine hnodup.1 ?_
          rw [← hk, ← of_decide_eq_true heq]
          exact List.mem_map_of_mem hb
        simp [hk, Function.comp_def, hk ▸ hnone]
      · simp [hk, Ne.symm hk]

/-- The rows after a batch of updates under distinct keys. -/
theorem rows_foldl_modify {α : Type} {k : α → κ} {f : α → ρ → ρ}
    (hf : ∀ a r, key (f a r) = key r) {us : List α} (hnodup : (us.map k).Nodup) (t : Table key) :
    (us.foldl (fun t a => t.modify (k a) (f a) (hf a)) t).rows =
      t.rows.map fun r => ((us.find? fun a => decide (k a = key r)).map (f · r)).getD r := by
  induction us generalizing t with
  | nil => simp
  | cons a us ih =>
      rw [List.map_cons, List.nodup_cons] at hnodup
      rw [List.foldl_cons, ih hnodup.2, modify, updateWhere, List.map_map]
      refine List.map_congr_left fun r _ => ?_
      by_cases hk : key r = k a
      · have hnone : us.find? (fun b => decide (k b = k a)) = none := by
          rw [List.find?_eq_none]
          intro b hb heq
          refine hnodup.1 ?_
          rw [← of_decide_eq_true heq]
          exact List.mem_map_of_mem hb
        simp [hk, hf, hnone]
      · simp [hk, Ne.symm hk]

theorem find?_deleteWhere (t : Table key) (p : ρ → Bool) (k : κ) :
    (t.deleteWhere p).find? k = (t.find? k).filter fun r => !p r := by
  cases h : t.find? k with
  | none =>
      rw [find?_eq_none] at h
      rw [Option.filter_none, find?_eq_none]
      intro r hr
      exact h r (List.mem_of_mem_filter hr)
  | some r =>
      obtain ⟨hr, rfl⟩ := find?_some h
      by_cases hp : p r
      · rw [Option.filter_some, if_neg (by simp [hp]), find?_eq_none]
        intro r' hr' hk
        simp only [deleteWhere, List.mem_filter] at hr'
        rw [eq_of_key_eq hr'.1 hr hk] at hr'
        simp [hp] at hr'
      · rw [Option.filter_some, if_pos (by simp [hp]), find?_eq_some]
        exact ⟨by simp [deleteWhere, hr, hp], rfl⟩

theorem find?_erase (t : Table key) (k k' : κ) :
    (t.erase k).find? k' = if k' = k then none else t.find? k' := by
  rw [erase, find?_deleteWhere]
  cases h : t.find? k' with
  | none => simp
  | some r =>
      obtain ⟨-, rfl⟩ := find?_some h
      by_cases hk : key r = k <;> simp [Option.filter_some, hk]

@[simp] theorem find?_erase_self (t : Table key) (k : κ) : (t.erase k).find? k = none := by
  simp [find?_erase]

theorem find?_erase_of_ne {t : Table key} {k k' : κ} (h : k' ≠ k) :
    (t.erase k).find? k' = t.find? k' := by
  simp [find?_erase, h]

omit [DecidableEq κ] in
theorem mem_deleteWhere {t : Table key} {p : ρ → Bool} {r : ρ} :
    r ∈ (t.deleteWhere p).rows ↔ r ∈ t.rows ∧ p r = false := by
  simp [deleteWhere]

omit [DecidableEq κ] in
/-- A row after an update is an old one, or what became of one. -/
theorem mem_updateWhere {t : Table key} {p : ρ → Bool} {f : ρ → ρ} (hf : ∀ r, key (f r) = key r) {r' : ρ}
    (h : r' ∈ (t.updateWhere p f hf).rows) : ∃ r ∈ t.rows, r' = r ∨ r' = f r := by
  obtain ⟨r, hr, rfl⟩ := List.mem_map.1 h
  refine ⟨r, hr, ?_⟩
  by_cases hp : p r = true
  · exact Or.inr (if_pos hp)
  · exact Or.inl (if_neg hp)

theorem mem_erase {t : Table key} {k : κ} {r : ρ} :
    r ∈ (t.erase k).rows ↔ r ∈ t.rows ∧ key r ≠ k := by
  simp [erase, deleteWhere]

theorem mem_put {t : Table key} {r r' : ρ} :
    r' ∈ (t.put r).rows ↔ r' ∈ t.rows ∧ key r' ≠ key r ∨ r' = r := by
  simp [put, mem_erase]

theorem find?_put (t : Table key) (r : ρ) (k : κ) :
    (t.put r).find? k = if key r = k then some r else t.find? k := by
  by_cases hk : key r = k
  · rw [if_pos hk, find?_eq_some, mem_put]
    exact ⟨Or.inr rfl, hk⟩
  · have herase : (t.erase (key r)).find? k = t.find? k := find?_erase_of_ne (Ne.symm hk)
    rw [if_neg hk, ← herase]
    simp [find?, put, hk]

theorem insert?_eq_some {t t' : Table key} {r : ρ} (h : t.insert? r = some t') :
    t.find? (key r) = none ∧ t'.rows = t.rows ++ [r] := by
  unfold insert? at h
  split at h
  · exact absurd h (by simp)
  · rename_i hk
    cases h
    refine ⟨find?_eq_none.2 fun r' hr' hkey => hk ?_, rfl⟩
    exact List.mem_map.2 ⟨r', hr', hkey⟩

theorem insert?_eq_none {t : Table key} {r : ρ} :
    t.insert? r = none ↔ (t.find? (key r)).isSome := by
  unfold insert?
  split
  · rename_i hk
    obtain ⟨r', hr', hkey⟩ := List.mem_map.1 hk
    simp [← hkey, find?_of_mem hr']
  · rename_i hk
    have : t.find? (key r) = none :=
      find?_eq_none.2 fun r' hr' hkey => hk (List.mem_map.2 ⟨r', hr', hkey⟩)
    simp [this]

theorem find?_insert? {t t' : Table key} {r : ρ} (h : t.insert? r = some t') (k : κ) :
    t'.find? k = if key r = k then some r else t.find? k := by
  obtain ⟨hnone, hrows⟩ := insert?_eq_some h
  by_cases hk : key r = k
  · subst hk
    rw [if_pos rfl, find?_eq_some, hrows]
    simp
  · rw [if_neg hk, find?, hrows, List.find?_append]
    cases hf : t.rows.find? (fun r => decide (key r = k)) with
    | none => simp [find?, hf, hk]
    | some r' => simp [find?, hf]

/-- A rename that finds no row changes nothing. -/
theorem rekey?_of_none {t : Table key} {k : κ} (h : t.find? k = none) (f : ρ → ρ) :
    t.rekey? k f = some t := by
  have hrows : (t.rows.map fun r => if key r = k then f r else r) = t.rows := by
    refine (List.map_congr_left fun r hr => ?_).trans (List.map_id t.rows)
    simp [find?_eq_none.1 h r hr]
  obtain ⟨rows, unique⟩ := t
  simp only at hrows
  simp only [rekey?, hrows, unique, dif_pos]

/-- Reading after a rename: the row is under its new key and no longer under the
old one. -/
theorem find?_rekey? {t t' : Table key} {k : κ} {f : ρ → ρ} {r : ρ} (h : t.rekey? k f = some t')
    (hr : t.find? k = some r) (k' : κ) :
    t'.find? k' = if k' = key (f r) then some (f r) else if k' = k then none else t.find? k' := by
  unfold rekey? at h
  split at h
  · rename_i hnodup
    cases h
    obtain ⟨hmem, rfl⟩ := find?_some hr
    have hnew : f r ∈ t.rows.map fun r' => if key r' = key r then f r' else r' :=
      List.mem_map.2 ⟨r, hmem, by simp⟩
    have hother : ∀ r' ∈ t.rows, key r' ≠ key r →
        r' ∈ t.rows.map fun r₁ => if key r₁ = key r then f r₁ else r₁ :=
      fun r' hr' hne => List.mem_map.2 ⟨r', hr', by simp [hne]⟩
    have hcases : ∀ r' ∈ t.rows.map fun r₁ => if key r₁ = key r then f r₁ else r₁,
        r' = f r ∨ r' ∈ t.rows ∧ key r' ≠ key r := by
      intro r' hr'
      obtain ⟨r₁, hr₁, rfl⟩ := List.mem_map.1 hr'
      by_cases hk : key r₁ = key r
      · rw [if_pos hk, eq_of_key_eq hr₁ hmem hk]
        exact Or.inl rfl
      · rw [if_neg hk]
        exact Or.inr ⟨hr₁, hk⟩
    by_cases h₁ : k' = key (f r)
    · rw [if_pos h₁, h₁, find?_eq_some]
      exact ⟨hnew, rfl⟩
    · rw [if_neg h₁]
      by_cases h₂ : k' = key r
      · rw [if_pos h₂, find?_eq_none]
        intro r' hr' hk
        rcases hcases r' hr' with rfl | ⟨-, hne⟩
        · exact h₁ hk.symm
        · exact hne (hk.trans h₂)
      · rw [if_neg h₂]
        cases hf : t.find? k' with
        | none =>
            rw [find?_eq_none]
            intro r' hr' hk
            rcases hcases r' hr' with rfl | ⟨hm, -⟩
            · exact h₁ hk.symm
            · exact find?_eq_none.1 hf r' hm hk
        | some r' =>
            obtain ⟨hm, rfl⟩ := find?_some hf
            rw [find?_eq_some]
            exact ⟨hother r' hm h₂, rfl⟩
  · cases h

/-- A rename that went through found its new key free. -/
theorem free_of_rekey? {t t' : Table key} {k : κ} {f : ρ → ρ} {r : ρ} (h : t.rekey? k f = some t')
    (hr : t.find? k = some r) : key (f r) = k ∨ t.find? (key (f r)) = none := by
  unfold rekey? at h
  split at h
  · rename_i hnodup
    obtain ⟨hmem, rfl⟩ := find?_some hr
    rw [List.map_map] at hnodup
    refine or_iff_not_imp_left.2 fun hne => ?_
    rw [find?_eq_none]
    intro r₂ hr₂ hk
    have heq : r = r₂ := by
      refine List.inj_on_of_nodup_map hnodup hmem hr₂ ?_
      simp [hk, hne]
    exact hne (by rw [← hk, ← heq])
  · cases h

/-- A rename is refused exactly when another row holds the new key. -/
theorem rekey?_eq_some_of_free {t : Table key} {k : κ} {f : ρ → ρ} {r : ρ} (hr : t.find? k = some r)
    (hfree : key (f r) = k ∨ t.find? (key (f r)) = none) : ∃ t', t.rekey? k f = some t' := by
  obtain ⟨hmem, rfl⟩ := find?_some hr
  unfold rekey?
  rw [dif_pos]
  · exact ⟨_, rfl⟩
  · rw [List.map_map]
    refine List.Nodup.map_on ?_ (List.Nodup.of_map _ t.unique)
    intro a ha b hb hab
    simp only [Function.comp_def] at hab
    have huniq : ∀ c ∈ t.rows, key c = key r → c = r := fun c hc h => eq_of_key_eq hc hmem h
    have hclash : ∀ c ∈ t.rows, key c ≠ key r → key c ≠ key (f r) := by
      intro c hc hne heq
      rcases hfree with hfree | hfree
      · exact hne (heq.trans hfree)
      · exact find?_eq_none.1 hfree c hc heq
    by_cases hka : key a = key r
    · by_cases hkb : key b = key r
      · rw [huniq a ha hka, huniq b hb hkb]
      · rw [if_pos hka, if_neg hkb, huniq a ha hka] at hab
        exact absurd hab.symm (hclash b hb hkb)
    · by_cases hkb : key b = key r
      · rw [if_neg hka, if_pos hkb, huniq b hb hkb] at hab
        exact absurd hab (hclash a ha hka)
      · rw [if_neg hka, if_neg hkb] at hab
        exact eq_of_key_eq ha hb hab

/-! ## Column totals -/

theorem total_insert? {t t' : Table key} {r : ρ} (h : t.insert? r = some t') (g : ρ → Int) :
    t'.total g = t.total g + g r := by
  rw [total, (insert?_eq_some h).2]
  simp [total]

theorem total_modify {t : Table key} {k : κ} {r : ρ} (h : t.find? k = some r) (f : ρ → ρ)
    (hf : ∀ r, key (f r) = key r) (g : ρ → Int) :
    (t.modify k f hf).total g = t.total g + (g (f r) - g r) := by
  obtain ⟨rows, unique⟩ := t
  simp only [total, modify, updateWhere, find?] at h ⊢
  induction rows with
  | nil => simp at h
  | cons a l ih =>
      simp only [List.map_cons, List.nodup_cons] at unique
      by_cases ha : key a = k
      · have har : a = r := by simpa [ha] using h
        subst har
        have hrest : l.map (fun r => g (if decide (key r = k) = true then f r else r)) = l.map g := by
          refine List.map_congr_left fun b hb => ?_
          have hbk : key b ≠ k := fun hbk =>
            unique.1 (ha ▸ hbk ▸ List.mem_map.2 ⟨b, hb, rfl⟩)
          simp [hbk]
        simp only [List.map_cons, List.sum_cons, List.map_map, Function.comp_def, ha, decide_true,
          if_true, hrest]
        omega
      · have hl : l.find? (fun r => decide (key r = k)) = some r := by
          simpa [List.find?_cons, ha] using h
        have := ih unique.2 hl
        simp only [List.map_cons, List.sum_cons, ha, decide_false, Bool.false_eq_true, if_false]
        omega

theorem total_erase {t : Table key} {k : κ} {r : ρ} (h : t.find? k = some r) (g : ρ → Int) :
    (t.erase k).total g = t.total g - g r := by
  obtain ⟨rows, unique⟩ := t
  simp only [total, erase, deleteWhere, find?] at h ⊢
  induction rows with
  | nil => simp at h
  | cons a l ih =>
      simp only [List.map_cons, List.nodup_cons] at unique
      by_cases ha : key a = k
      · have har : a = r := by simpa [ha] using h
        subst har
        have hrest : l.filter (fun r => !decide (key r = k)) = l := by
          refine List.filter_eq_self.2 fun b hb => ?_
          have hbk : key b ≠ k := fun hbk =>
            unique.1 (ha ▸ hbk ▸ List.mem_map.2 ⟨b, hb, rfl⟩)
          simp [hbk]
        simp only [List.filter_cons, ha, decide_true, Bool.not_true, Bool.false_eq_true, if_false,
          hrest, List.map_cons, List.sum_cons]
        omega
      · have hl : l.find? (fun r => decide (key r = k)) = some r := by
          simpa [List.find?_cons, ha] using h
        have := ih unique.2 hl
        simp only [List.filter_cons, ha, decide_false, Bool.not_false, if_true, List.map_cons,
          List.sum_cons]
        omega

theorem modify_rows_of_none {t : Table key} {k : κ} (h : t.find? k = none) (f : ρ → ρ)
    (hf : ∀ r, key (f r) = key r) : (t.modify k f hf).rows = t.rows := by
  simp only [modify, updateWhere]
  refine (List.map_congr_left fun r hr => ?_).trans (List.map_id t.rows)
  simp [find?_eq_none.1 h r hr]

theorem erase_rows_of_none {t : Table key} {k : κ} (h : t.find? k = none) :
    (t.erase k).rows = t.rows := by
  simp only [erase, deleteWhere]
  refine List.filter_eq_self.2 fun r hr => ?_
  simpa using find?_eq_none.1 h r hr

end Table

end Simorgh.Lib
