import Simorgh.Lib.Program

/-!
# Programs beside each other

Any number of programs run on one store.  They take turns, one statement or one
transaction at a time, and any statement of a turn may fail.  Each program relies
on something the others should leave alone; the pool remembers which programs have
been disturbed since they began.

* `Prog.attempt` — a turn in which the statements at some places fail.
* `Prog.Outline` — what a program guarantees at every turn, as long as the others
  keep to what it relies on.
* `Pool.Outlined` — the programs that were left alone are where their outline says.
* `Prog.lift` — a program on a part of the store.
* `Prog.Keeps` — a program all of whose writes are of one kind.
-/

namespace Simorgh.Lib

namespace Prog

variable {σ τ ι κ α β : Type}

/-- The statement that comes next. -/
def place? : Prog σ ι α → Option ι
  | .read place _ => some place
  | .write place _ _ => some place
  | .begin place _ => some place
  | .commit place _ => some place
  | _ => none

/-! ## Turns that may fail -/

/-- The rest of a transaction, which has nothing to work on if its `begin` failed. -/
def transactWith (fails : ι → Bool) (saved : σ) : Option σ → Prog σ ι α → σ × Prog σ ι α
  | _, .done a => (saved, .done a)
  | work, .read place next => transactWith fails saved work (next (if fails place then none else work))
  | work, .write place f next =>
      match if fails place then none else work.bind f with
      | none => transactWith fails saved work (next false)
      | some work => transactWith fails saved (some work) (next true)
  | _, .begin place next => transactWith fails saved (if fails place then none else some saved) next
  | work, .commit place next =>
      match if fails place then none else work with
      | none => (saved, next false)
      | some work => (work, next true)
  | _, .rollback next => (saved, next)

/-- What a program does at once, with some of its statements failing. -/
def attempt (fails : ι → Bool) (s : σ) : Prog σ ι α → σ × Prog σ ι α
  | .done a => (s, .done a)
  | .read place next => (s, next (if fails place then none else some s))
  | .write place f next =>
      match if fails place then none else f s with
      | none => (s, next false)
      | some s => (s, next true)
  | .begin place next => transactWith fails s (if fails place then none else some s) next
  | .commit _ next => (s, next false)
  | .rollback next => (s, next)

section

variable (fails : ι → Bool) (s : σ) (place : ι)

@[simp] theorem attempt_pure (a : α) : (pure a : Prog σ ι α).attempt fails s = (s, pure a) := rfl

@[simp] theorem attempt_select (f : σ → β) (k : Option β → Prog σ ι α) :
    (select place f >>= k).attempt fails s =
      (s, k (if fails place then none else some (f s))) := by
  change (s, k (Option.map f (if fails place then none else some s))) = _
  cases fails place <;> rfl

theorem attempt_update? (f : σ → Option σ) (k : Bool → Prog σ ι α) :
    (update? place f >>= k).attempt fails s =
      match if fails place then none else f s with
      | none => (s, k false)
      | some s => (s, k true) := rfl

@[simp] theorem attempt_update (f : σ → σ) (k : Bool → Prog σ ι α) :
    (update place f >>= k).attempt fails s =
      (if fails place then s else f s, k (!fails place)) := by
  change (match if fails place then none else some (f s) with
    | none => (s, k false)
    | some s => (s, k true)) = _
  cases fails place <;> rfl

end

/-! ## Outlines -/

/-- Each turn of the program, from where it stands to where it is left, is as `guar` says and
it ends in `post`, as long as what the others do between its turns is allowed by `rely`. -/
inductive Outline (rely : σ → σ → Prop) (guar : Prog σ ι α → σ → Prog σ ι α → σ → Prop)
    (post : α → σ → Prop) : Prog σ ι α → σ → Prop
  | done {a : α} {s : σ} (h : ∀ t, rely s t → post a t) : Outline rely guar post (.done a) s
  | turn {p : Prog σ ι α} {s : σ}
      (hguar : ∀ fails t, rely s t → guar p t (p.attempt fails t).2 (p.attempt fails t).1)
      (hnext : ∀ fails t, rely s t →
        Outline rely guar post (p.attempt fails t).2 (p.attempt fails t).1) :
      Outline rely guar post p s

variable {rely : σ → σ → Prop} {guar : Prog σ ι α → σ → Prog σ ι α → σ → Prop}
  {post : α → σ → Prop} {p : Prog σ ι α} {s t : σ}

theorem Outline.stable (htrans : ∀ s t u, rely s t → rely t u → rely s u)
    (h : Outline rely guar post p s) (hst : rely s t) : Outline rely guar post p t := by
  cases h with
  | done h => exact .done fun u hu => h u (htrans s t u hst hu)
  | turn hguar hnext =>
      exact .turn (fun fails u hu => hguar fails u (htrans s t u hst hu))
        fun fails u hu => hnext fails u (htrans s t u hst hu)

theorem Outline.attempt (hrefl : ∀ s, rely s s) (hstill : ∀ p q s, guar p s q s)
    (h : Outline rely guar post p s) (fails : ι → Bool) :
    guar p s (p.attempt fails s).2 (p.attempt fails s).1 ∧
      Outline rely guar post (p.attempt fails s).2 (p.attempt fails s).1 := by
  cases h with
  | done h => exact ⟨hstill _ _ s, .done h⟩
  | turn hguar hnext => exact ⟨hguar fails s (hrefl s), hnext fails s (hrefl s)⟩

theorem Outline.ends (hrefl : ∀ s, rely s s) {a : α} (h : Outline rely guar post (.done a : Prog σ ι α) s) :
    post a s := by
  generalize hp : (.done a : Prog σ ι α) = p at h
  induction h with
  | done h =>
      cases hp
      exact h _ (hrefl _)
  | turn _ _ ih =>
      subst hp
      exact ih (fun _ => false) _ (hrefl _) rfl

/-- One turn, said at once. -/
theorem Outline.of_turn (h : ∀ fails t, rely s t →
    guar p t (p.attempt fails t).2 (p.attempt fails t).1 ∧
      Outline rely guar post (p.attempt fails t).2 (p.attempt fails t).1) :
    Outline rely guar post p s :=
  .turn (fun fails t ht => (h fails t ht).1) fun fails t ht => (h fails t ht).2

/-- A program that begins with a read. -/
theorem Outline.select (hstill : ∀ p q s, guar p s q s) (place : ι) (f : σ → β)
    (k : Option β → Prog σ ι α)
    (h : ∀ t, rely s t → Outline rely guar post (k (some (f t))) t ∧ Outline rely guar post (k none) t) :
    Outline rely guar post (Prog.select place f >>= k) s := by
  refine .of_turn fun fails t ht => ?_
  rw [attempt_select]
  refine ⟨hstill _ _ t, ?_⟩
  cases fails place
  · exact (h t ht).1
  · exact (h t ht).2

/-- A program that begins with a write. -/
theorem Outline.update (hstill : ∀ p q s, guar p s q s) (place : ι) (f : σ → σ) (k : Bool → Prog σ ι α)
    (h : ∀ t, rely s t → (guar (Prog.update place f >>= k) t (k true) (f t) ∧
      Outline rely guar post (k true) (f t)) ∧ Outline rely guar post (k false) t) :
    Outline rely guar post (Prog.update place f >>= k) s := by
  refine .of_turn fun fails t ht => ?_
  rw [attempt_update]
  cases fails place
  · exact (h t ht).1
  · exact ⟨hstill _ _ t, (h t ht).2⟩

/-- A program that begins with a write which a constraint may refuse. -/
theorem Outline.update? (hstill : ∀ p q s, guar p s q s) (place : ι) (f : σ → Option σ)
    (k : Bool → Prog σ ι α)
    (h : ∀ t, rely s t → (∀ u, f t = some u → guar (Prog.update? place f >>= k) t (k true) u ∧
      Outline rely guar post (k true) u) ∧ Outline rely guar post (k false) t) :
    Outline rely guar post (Prog.update? place f >>= k) s := by
  refine .of_turn fun fails t ht => ?_
  rw [attempt_update?]
  cases fails place with
  | true => exact ⟨hstill _ _ t, (h t ht).2⟩
  | false =>
      cases hf : f t with
      | none =>
          simp only [Bool.false_eq_true, if_false]
          exact ⟨hstill _ _ t, (h t ht).2⟩
      | some u =>
          simp only [Bool.false_eq_true, if_false]
          exact (h t ht).1 u hf

/-! ## Programs on a part of the store -/

/-- The program on the part of a store that `get` reads and `put` writes. -/
def lift (get : τ → σ) (put : τ → σ → τ) (spot : ι → κ) : Prog σ ι α → Prog τ κ α
  | .done a => .done a
  | .read place next => .read (spot place) fun t => (next (t.map get)).lift get put spot
  | .write place f next =>
      .write (spot place) (fun t => (f (get t)).map (put t)) fun ok => (next ok).lift get put spot
  | .begin place next => .begin (spot place) (next.lift get put spot)
  | .commit place next => .commit (spot place) fun ok => (next ok).lift get put spot
  | .rollback next => .rollback (next.lift get put spot)

/-! ## What every write keeps -/

variable {kind : σ → σ → Prop}

/-- Every write of the program is of this kind. -/
def Keeps (kind : σ → σ → Prop) : Prog σ ι α → Prop
  | .done _ => True
  | .read _ next => ∀ s, (next s).Keeps kind
  | .write _ f next => (∀ s t, f s = some t → kind s t) ∧ ∀ ok, (next ok).Keeps kind
  | .begin _ next => next.Keeps kind
  | .commit _ next => ∀ ok, (next ok).Keeps kind
  | .rollback next => next.Keeps kind

theorem Keeps.bind {p : Prog σ ι α} {k : α → Prog σ ι β} (hp : p.Keeps kind)
    (hk : ∀ a, (k a).Keeps kind) : (p >>= k).Keeps kind := by
  change (Prog.bind p k).Keeps kind
  induction p with
  | done a => exact hk a
  | read place next ih => exact fun s => ih s (hp s)
  | write place f next ih => exact ⟨hp.1, fun ok => ih ok (hp.2 ok)⟩
  | begin place next ih => exact ih hp
  | commit place next ih => exact fun ok => ih ok (hp ok)
  | rollback next ih => exact ih hp

theorem keeps_of_forall (h : ∀ s t, kind s t) (p : Prog σ ι α) : p.Keeps kind := by
  induction p with
  | done a => trivial
  | read place next ih => exact ih
  | write place f next ih => exact ⟨fun s t _ => h s t, ih⟩
  | begin place next ih => exact ih
  | commit place next ih => exact ih
  | rollback next ih => exact ih

theorem keeps_pure (a : α) : (pure a : Prog σ ι α).Keeps kind := trivial

theorem keeps_select (place : ι) (f : σ → β) : (select place f).Keeps kind := fun _ => trivial

theorem keeps_update {f : σ → σ} (h : ∀ s, kind s (f s)) (place : ι) : (update place f).Keeps kind :=
  ⟨fun s _ ht => Option.some.inj ht ▸ h s, fun _ => trivial⟩

theorem keeps_update? {f : σ → Option σ} (h : ∀ s t, f s = some t → kind s t) (place : ι) :
    (update? place f).Keeps kind := ⟨h, fun _ => trivial⟩

theorem keeps_lift {get : τ → σ} {put : τ → σ → τ} {spot : ι → κ} {kind : τ → τ → Prop}
    (h : ∀ t s, kind t (put t s)) (p : Prog σ ι α) : (p.lift get put spot).Keeps kind := by
  induction p with
  | done a => trivial
  | read place next ih => exact fun t => ih (t.map get)
  | write place f next ih =>
      refine ⟨fun s t ht => ?_, ih⟩
      obtain ⟨u, -, rfl⟩ := Option.map_eq_some_iff.1 ht
      exact h s u
  | begin place next ih => exact ih
  | commit place next ih => exact ih
  | rollback next ih => exact ih

section

variable (hkind : ∀ s, kind s s) (htrans : ∀ s t u, kind s t → kind t u → kind s u)

include hkind htrans in
theorem Keeps.transactWith (hp : p.Keeps kind) (fails : ι → Bool) (saved : σ) (work : Option σ)
    (hwork : ∀ w ∈ work, kind saved w) :
    kind saved (p.transactWith fails saved work).1 ∧ (p.transactWith fails saved work).2.Keeps kind := by
  induction p generalizing work with
  | done a => exact ⟨hkind saved, trivial⟩
  | read place next ih =>
      simp only [Prog.transactWith]
      exact ih _ (hp _) work hwork
  | write place f next ih =>
      simp only [Prog.transactWith]
      split
      · exact ih false (hp.2 false) work hwork
      · rename_i t ht
        refine ih true (hp.2 true) (some t) fun u hu => ?_
        cases hu
        split at ht
        · cases ht
        · obtain ⟨w, hw, hf⟩ := Option.bind_eq_some_iff.1 ht
          exact htrans saved w t (hwork w hw) (hp.1 w t hf)
  | begin place next ih =>
      simp only [Prog.transactWith]
      refine ih hp _ fun w hw => ?_
      split at hw
      · cases hw
      · cases hw
        exact hkind saved
  | commit place next ih =>
      simp only [Prog.transactWith]
      split
      · exact ⟨hkind saved, hp false⟩
      · rename_i t ht
        split at ht
        · cases ht
        · exact ⟨hwork t ht, hp true⟩
  | rollback next ih => exact ⟨hkind saved, hp⟩

include hkind htrans in
theorem Keeps.attempt (hp : p.Keeps kind) (fails : ι → Bool) (s : σ) :
    kind s (p.attempt fails s).1 ∧ (p.attempt fails s).2.Keeps kind := by
  cases p with
  | done a => exact ⟨hkind s, trivial⟩
  | read place next => exact ⟨hkind s, hp _⟩
  | write place f next =>
      simp only [Prog.attempt]
      split
      · exact ⟨hkind s, hp.2 false⟩
      · rename_i t ht
        split at ht
        · cases ht
        · exact ⟨hp.1 s t ht, hp.2 true⟩
  | begin place next =>
      simp only [Prog.attempt]
      refine Keeps.transactWith hkind htrans (p := next) hp fails s _ fun w hw => ?_
      split at hw
      · cases hw
      · cases hw
        exact hkind s
  | commit place next => exact ⟨hkind s, hp false⟩
  | rollback next => exact ⟨hkind s, hp⟩

include hkind htrans in
/-- A program that stays in the transaction it is run in keeps to its kind there. -/
theorem Keeps.run_opened [DecidableEq ι] (hp : p.Keeps kind) (hplain : p.Plain) (fault : Option ι) (saved work : σ) :
    ∃ work' a, p.run fault ⟨saved, .opened work⟩ = (⟨saved, .opened work'⟩, a) ∧ kind work work' := by
  induction p generalizing work with
  | done a => exact ⟨work, a, rfl, hkind work⟩
  | read place next ih =>
      rw [run_read]
      exact ih _ (hp _) (hplain _) work
  | write place f next ih =>
      rw [run_write]
      split
      · exact ih false (hp.2 false) (hplain false) work
      · simp only [Conn.view, Option.bind_some]
        cases hf : f work with
        | none => exact ih false (hp.2 false) (hplain false) work
        | some t =>
            obtain ⟨work', a, hrun, hwork⟩ := ih true (hp.2 true) (hplain true) t
            exact ⟨work', a, hrun, htrans work t work' (hp.1 work t hf) hwork⟩
  | begin place next => exact hplain.elim
  | commit place next => exact hplain.elim
  | rollback next => exact hplain.elim

include hkind htrans in
/-- What every write keeps is guaranteed at every turn, whatever the others do. -/
theorem Keeps.outline (hp : p.Keeps kind) (s : σ) : Outline rely (fun _ s _ t => kind s t) (fun _ _ => True) p s := by
  suffices hboth : (∀ s, Outline rely (fun _ s _ t => kind s t) (fun _ _ => True) p s) ∧
      ∀ fails saved work, (∀ w ∈ work, kind saved w) → Outline rely (fun _ s _ t => kind s t) (fun _ _ => True)
        (p.transactWith fails saved work).2 (p.transactWith fails saved work).1 from hboth.1 s
  induction p with
  | done a => exact ⟨fun s => .done fun _ _ => trivial, fun _ _ _ _ => .done fun _ _ => trivial⟩
  | read place next ih =>
      refine ⟨fun s => .of_turn fun fails t _ => ⟨hkind t, (ih _ (hp _)).1 t⟩, fun fails saved work hwork => ?_⟩
      simp only [Prog.transactWith]
      exact (ih _ (hp _)).2 fails saved work hwork
  | write place f next ih =>
      refine ⟨fun s => .of_turn fun fails t _ => ?_, fun fails saved work hwork => ?_⟩
      · refine ⟨(Keeps.attempt hkind htrans hp fails t).1, ?_⟩
        simp only [Prog.attempt]
        split
        · exact (ih false (hp.2 false)).1 _
        · exact (ih true (hp.2 true)).1 _
      · simp only [Prog.transactWith]
        split
        · exact (ih false (hp.2 false)).2 fails saved work hwork
        · rename_i t ht
          refine (ih true (hp.2 true)).2 fails saved (some t) fun u hu => ?_
          cases hu
          split at ht
          · cases ht
          · obtain ⟨w, hw, hf⟩ := Option.bind_eq_some_iff.1 ht
            exact htrans saved w t (hwork w hw) (hp.1 w t hf)
  | begin place next ih =>
      have hopen : ∀ (fails : ι → Bool) (t : σ), ∀ w ∈ (if fails place then none else some t), kind t w := by
        intro fails t w hw
        split at hw
        · cases hw
        · cases hw
          exact hkind t
      refine ⟨fun s => .of_turn fun fails t _ => ?_, fun fails saved work _ => ?_⟩
      · exact ⟨(Keeps.attempt hkind htrans (p := .begin place next) hp fails t).1,
          (ih hp).2 fails t _ (hopen fails t)⟩
      · exact (ih hp).2 fails saved _ (hopen fails saved)
  | commit place next ih =>
      refine ⟨fun s => .of_turn fun fails t _ => ⟨hkind t, (ih false (hp false)).1 t⟩,
        fun fails saved work _ => ?_⟩
      simp only [Prog.transactWith]
      split
      · exact (ih false (hp false)).1 saved
      · exact (ih true (hp true)).1 _
  | rollback next ih =>
      exact ⟨fun s => .of_turn fun fails t _ => ⟨hkind t, (ih hp).1 t⟩, fun fails saved work _ => (ih hp).1 saved⟩

end

end Prog

/-! ## The pool -/

/-- A program under way, for some request, and whether the others have left alone what it
relies on since it began. -/
structure Thread (ω σ ι α : Type) where
  op : ω
  prog : Prog σ ι α
  undisturbed : Bool := true

/-- The store and the programs on it. -/
structure Pool (ω σ ι α : Type) where
  store : σ
  threads : List (Thread ω σ ι α) := []

namespace Pool

variable {ω σ ι α : Type} (rely : ω → σ → σ → Prop) [∀ o s t, Decidable (rely o s t)]

/-- A thread after the store has changed under it. -/
def disturb (s t : σ) (th : Thread ω σ ι α) : Thread ω σ ι α :=
  { th with undisturbed := th.undisturbed && decide (rely th.op s t) }

/-- A request comes in. -/
def spawn (P : Pool ω σ ι α) (op : ω) (prog : Prog σ ι α) : Pool ω σ ι α :=
  { P with threads := P.threads ++ [{ op := op, prog := prog }] }

/-- The store is changed by something else. -/
def change (P : Pool ω σ ι α) (t : σ) : Pool ω σ ι α where
  store := t
  threads := P.threads.map (disturb rely P.store t)

/-- One program takes a turn. -/
def move (P : Pool ω σ ι α) (k : Nat) (fails : ι → Bool) : Pool ω σ ι α :=
  match P.threads[k]? with
  | none => P
  | some th =>
      let next := th.prog.attempt fails P.store
      { store := next.1
        threads := (P.threads.map (disturb rely P.store next.1)).set k { th with prog := next.2 } }

variable {rely} {guar : ω → Prog σ ι α → σ → Prog σ ι α → σ → Prop} {kind : ω → σ → σ → Prop}
  {post : ω → α → σ → Prop} {P : Pool ω σ ι α}

theorem move_eq {k : Nat} {th : Thread ω σ ι α} (hk : P.threads[k]? = some th) (fails : ι → Bool) :
    P.move rely k fails =
      { store := (th.prog.attempt fails P.store).1
        threads := (P.threads.map (disturb rely P.store (th.prog.attempt fails P.store).1)).set k
          { th with prog := (th.prog.attempt fails P.store).2 } } := by
  simp only [move, hk]

variable (rely guar post) in
/-- Every thread that was left alone is where its outline says. -/
def Outlined (P : Pool ω σ ι α) : Prop :=
  ∀ th ∈ P.threads, th.undisturbed = true →
    Prog.Outline (rely th.op) (guar th.op) (post th.op) th.prog P.store

omit [∀ o s t, Decidable (rely o s t)] in
theorem Outlined.spawn {op : ω} {prog : Prog σ ι α} (hP : P.Outlined rely guar post)
    (h : prog.Outline (rely op) (guar op) (post op) P.store) :
    (P.spawn op prog).Outlined rely guar post := by
  intro th hth hund
  rcases List.mem_append.1 hth with hth | hth
  · exact hP th hth hund
  · rw [List.mem_singleton] at hth
    subst hth
    exact h

variable (htrans : ∀ o s t u, rely o s t → rely o t u → rely o s u)

include htrans in
theorem Outlined.change (hP : P.Outlined rely guar post) (t : σ) :
    (P.change rely t).Outlined rely guar post := by
  intro th hth hund
  obtain ⟨old, hold, rfl⟩ := List.mem_map.1 hth
  simp only [disturb, Bool.and_eq_true, decide_eq_true_eq] at hund
  exact (hP old hold hund.1).stable (htrans old.op) hund.2

variable (hrefl : ∀ o s, rely o s s) (hstill : ∀ o p q s, guar o p s q s)

omit [∀ o s t, Decidable (rely o s t)] in
include hrefl hstill in
/-- The turn of a thread that was left alone is as it guarantees. -/
theorem Outlined.guarantee (hP : P.Outlined rely guar post) {k : Nat} {th : Thread ω σ ι α}
    (hk : P.threads[k]? = some th) (hund : th.undisturbed = true) (fails : ι → Bool) :
    guar th.op th.prog P.store (th.prog.attempt fails P.store).2 (th.prog.attempt fails P.store).1 :=
  ((hP th (List.mem_of_getElem? hk) hund).attempt (hrefl th.op) (hstill th.op) fails).1

include htrans hrefl hstill in
theorem Outlined.move (hP : P.Outlined rely guar post) (k : Nat) (fails : ι → Bool) :
    (P.move rely k fails).Outlined rely guar post := by
  cases hk : P.threads[k]? with
  | none => simpa only [Pool.move, hk] using hP
  | some th =>
      rw [move_eq hk]
      intro mover hmover hund
      rcases List.mem_or_eq_of_mem_set hmover with hmover | rfl
      · exact (hP.change htrans _) mover hmover hund
      · exact ((hP th (List.mem_of_getElem? hk) hund).attempt (hrefl th.op) (hstill th.op) fails).2

variable (kind) in
/-- Every thread's writes are of its kind. -/
def Keeping (P : Pool ω σ ι α) : Prop := ∀ th ∈ P.threads, th.prog.Keeps (kind th.op)

omit [∀ o s t, Decidable (rely o s t)] in
theorem Keeping.spawn {op : ω} {prog : Prog σ ι α} (hP : P.Keeping kind) (h : prog.Keeps (kind op)) :
    (P.spawn op prog).Keeping kind := by
  intro th hth
  rcases List.mem_append.1 hth with hth | hth
  · exact hP th hth
  · rw [List.mem_singleton] at hth
    subst hth
    exact h

theorem Keeping.change (hP : P.Keeping kind) (t : σ) : (P.change rely t).Keeping kind := by
  intro th hth
  obtain ⟨old, hold, rfl⟩ := List.mem_map.1 hth
  exact hP old hold

variable (hkind : ∀ o s, kind o s s) (hkept : ∀ o s t u, kind o s t → kind o t u → kind o s u)

include hkind hkept in
theorem Keeping.move (hP : P.Keeping kind) (k : Nat) (fails : ι → Bool) :
    (P.move rely k fails).Keeping kind := by
  cases hk : P.threads[k]? with
  | none => simpa only [Pool.move, hk] using hP
  | some th =>
      rw [move_eq hk]
      intro mover hmover
      rcases List.mem_or_eq_of_mem_set hmover with hmover | rfl
      · exact Keeping.change hP _ mover hmover
      · exact ((hP th (List.mem_of_getElem? hk)).attempt (hkind th.op) (hkept th.op) fails P.store).2

omit [∀ o s t, Decidable (rely o s t)] in
include hkind hkept in
theorem Keeping.guarantee (hP : P.Keeping kind) {k : Nat} {th : Thread ω σ ι α}
    (hk : P.threads[k]? = some th) (fails : ι → Bool) :
    kind th.op P.store (th.prog.attempt fails P.store).1 :=
  ((hP th (List.mem_of_getElem? hk)).attempt (hkind th.op) (hkept th.op) fails P.store).1

end Pool

end Simorgh.Lib
