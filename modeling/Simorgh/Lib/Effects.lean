import Mathlib

/-!
# Programs with a state and errors

An `EStateM` program ends with a value or an error, and with a state either way: what was
done before an error stays done.

* `after` — the state in the end.
* `attempt`, `ensuring` — a step that may fail, and one that is done in any case.
* `Preserves` — what holds before the program holds after it, whether it fails or not.
* `Preserves.bind`, `Preserves.tryCatch`, `Preserves.forM` — programs made of such programs
  are such programs.
-/

namespace Simorgh.Lib

variable {ε σ α β : Type}

/-- The state a program leaves. -/
def after (m : EStateM ε σ α) (s : σ) : σ :=
  match m s with
  | .ok _ s' => s'
  | .error _ s' => s'

theorem bind_ok {m : EStateM ε σ α} {f : α → EStateM ε σ β} {s s' : σ} {a : α} (h : m s = .ok a s') :
    (m >>= f) s = f a s' := by
  show EStateM.bind m f s = _
  simp only [EStateM.bind, h]

theorem after_bind_ok {m : EStateM ε σ α} {f : α → EStateM ε σ β} {s s' : σ} {a : α} (h : m s = .ok a s') :
    after (m >>= f) s = after (f a) s' := by
  rw [after, bind_ok h]
  rfl

theorem after_bind_error {m : EStateM ε σ α} {f : α → EStateM ε σ β} {s s' : σ} {e : ε} (h : m s = .error e s') :
    after (m >>= f) s = s' := by
  show after (EStateM.bind m f) s = _
  simp only [after, EStateM.bind, h]

/-- An error that is raised or not leaves the state alone. -/
theorem after_guard (c : Prop) [Decidable c] (e : ε) (a : α) (s : σ) :
    after (if c then throw e else pure a : EStateM ε σ α) s = s := by
  split <;> rfl

/-! ## Steps that may fail -/

/-- A step that fails in some states and then does nothing. -/
def attempt (fails : σ → Bool) (e : ε) (f : σ → σ) : EStateM ε σ Unit :=
  fun s => if fails s then .error e s else .ok () (f s)

theorem after_attempt_bind (fails : σ → Bool) (e : ε) (f : σ → σ) (g : Unit → EStateM ε σ α) (s : σ) :
    after (attempt fails e f >>= g) s = if fails s then s else after (g ()) (f s) := by
  cases h : fails s with
  | true => rw [after_bind_error (by rw [attempt, h, if_pos rfl]), if_pos rfl]
  | false => rw [after_bind_ok (by rw [attempt, h, if_neg Bool.false_ne_true]), if_neg Bool.false_ne_true]

theorem after_attempt_id (fails : σ → Bool) (e : ε) (s : σ) : after (attempt fails e id) s = s := by
  unfold after attempt
  cases fails s <;> rfl

theorem after_modify_bind (f : σ → σ) (g : Unit → EStateM ε σ α) (s : σ) :
    after (modify f >>= g) s = after (g ()) (f s) := rfl

/-- A program with something that is done in the end, also after an error. -/
def ensuring (m : EStateM ε σ α) (f : σ → σ) : EStateM ε σ α := fun s =>
  match m s with
  | .ok a s' => .ok a (f s')
  | .error e s' => .error e (f s')

theorem after_ensuring (m : EStateM ε σ α) (f : σ → σ) (s : σ) : after (ensuring m f) s = f (after m s) := by
  unfold after ensuring
  cases m s <;> rfl

/-! ## What a program preserves -/

/-- What holds before the program holds after it. -/
def Preserves (P : σ → Prop) (m : EStateM ε σ α) : Prop := ∀ s, P s → P (after m s)

namespace Preserves

variable {P : σ → Prop}

theorem pure (a : α) : Preserves P (pure a : EStateM ε σ α) := fun _ hs => hs

theorem throw (e : ε) : Preserves P (throw e : EStateM ε σ α) := fun _ hs => hs

theorem modifyGet {f : σ → α × σ} (hf : ∀ s, P s → P (f s).2) :
    Preserves P (modifyGet f : EStateM ε σ α) := fun s hs => hf s hs

theorem get : Preserves P (get : EStateM ε σ σ) := fun _ hs => hs

theorem guard {c : Prop} {_ : Decidable c} {e : ε} {a : α} :
    Preserves P (if c then MonadExcept.throw e else Pure.pure a : EStateM ε σ α) := by
  intro s hs
  rw [after_guard]
  exact hs

theorem bind {m : EStateM ε σ α} {f : α → EStateM ε σ β} (hm : Preserves P m) (hf : ∀ a, Preserves P (f a)) :
    Preserves P (m >>= f) := by
  intro s hs
  have hafter := hm s hs
  cases h : m s with
  | ok a s' =>
      rw [after_bind_ok h]
      rw [after, h] at hafter
      exact hf a s' hafter
  | error e s' =>
      rw [after_bind_error h]
      rw [after, h] at hafter
      exact hafter

theorem tryCatch {m : EStateM ε σ α} {f : ε → EStateM ε σ α} (hm : Preserves P m)
    (hf : ∀ e, Preserves P (f e)) : Preserves P (tryCatch m f) := by
  intro s hs
  have hafter := hm s hs
  show P (after (EStateM.tryCatch m f) s)
  cases h : m s with
  | ok a s' =>
      rw [after, h] at hafter
      simp only [after, EStateM.tryCatch, h]
      exact hafter
  | error e s' =>
      rw [after, h] at hafter
      have hcaught := hf e s' hafter
      simp only [after, EStateM.tryCatch, h] at hcaught ⊢
      exact hcaught

theorem forM {f : α → EStateM ε σ PUnit} (hf : ∀ a, Preserves P (f a)) (l : List α) :
    Preserves P (l.forM f) := by
  induction l with
  | nil => exact Preserves.pure _
  | cons a l ih => exact (hf a).bind fun _ => ih

end Preserves

end Simorgh.Lib
