import Simorgh.Lib.Run

/-!
# Uploaded panel binaries

A manual update is two requests: the first stages a file next to the running binary and answers
with the version read out of it, the second installs what the first one staged.  The slot between
them is guarded by a lock and a token; the file is always at the same path, and is not.

* `turn` — the requests, one system call or locked section at a time.
* `installed_as_shown` — if no request comes to the slot while another one is between the slot and
  its end, every binary that is installed has the version that was shown with its token.
-/

namespace Simorgh.Panel.Staging

open Simorgh.Lib

section

variable {Bytes Version : Type}

/-! ## The code -/

/-- What the requests share.  A file that is open stays what it is when its path is taken away. -/
structure Store (Bytes Version : Type) where
  /-- The file at the path of staged uploads. -/
  path : Option Nat := none
  data : Nat → Bytes
  nextFile : Nat := 0
  /-- The staged upload: its token and the version that was shown. -/
  slot : Option (Nat × Version) := none
  nextToken : Nat := 0
  panelUpdateInFlight : Bool := false
  /-- The binaries that were installed, each with the version that was shown. -/
  installed : List (Version × Bytes) := []

/-- Where a request is. -/
inductive Call (Bytes Version : Type) where
  /-- `DiscardStagedPanelBinary`, with what `StagePanelBinary` goes on to write after it. -/
  | discard (upload : Option (List Bytes))
  | remove (upload : Option (List Bytes))
  | create (upload : List Bytes)
  /-- The copy; what the file holds after each of its writes. -/
  | copy (file : Nat) (upload : List Bytes)
  | inspect
  | publish (version : Version)
  /-- A check failed, and the file at the path is removed. -/
  | giveUp
  /-- `ApplyStagedPanelBinary`. -/
  | apply (token : Nat)
  | start (version : Version)
  | install (version : Version)
  | done

/-- The file gets its bytes. -/
def Store.write (s : Store Bytes Version) (file : Nat) (b : Bytes) : Store Bytes Version :=
  { s with data := fun i => if i = file then b else s.data i }

/-- One call of a request.  `version` is what the checks of a file make of its bytes, `empty` a
file that was just opened, and `fine` says whether the call succeeds. -/
def turn (version : Bytes → Option Version) (empty : Bytes) (fine : Bool) (s : Store Bytes Version) :
    Call Bytes Version → Store Bytes Version × Call Bytes Version
  | .discard upload => ({ s with slot := none }, .remove upload)
  | .remove upload => ({ s with path := none }, match upload with
      | none => .done
      | some upload => .create upload)
  | .create upload =>
      if fine then
        match s.path with
        | some file => (s.write file empty, .copy file upload)
        | none => ({ s.write s.nextFile empty with path := some s.nextFile, nextFile := s.nextFile + 1 },
            .copy s.nextFile upload)
      else (s, .done)
  | .copy file (b :: upload) => if fine then (s.write file b, .copy file upload) else (s, .giveUp)
  | .copy _ [] => (s, if fine then .inspect else .giveUp)
  | .inspect =>
      match s.path.bind fun file => version (s.data file) with
      | some v => (s, if fine then .publish v else .giveUp)
      | none => (s, .giveUp)
  | .publish v => ({ s with slot := some (s.nextToken, v), nextToken := s.nextToken + 1 }, .done)
  | .giveUp => ({ s with path := none }, .done)
  | .apply token =>
      match s.slot with
      | none => (s, .done)
      -- a call that is not fine is one after the upload has expired
      | some (staged, v) => ({ s with slot := none }, if token = staged ∧ fine then .start v else .giveUp)
  | .start v =>
      if s.path = none then (s, .done)
      else if s.panelUpdateInFlight then (s, .giveUp)
      else ({ s with panelUpdateInFlight := true }, .install v)
  | .install v =>
      match s.path with
      | none => ({ s with panelUpdateInFlight := false }, .done)
      | some file =>
          if fine then ({ s with path := none, installed := (v, s.data file) :: s.installed }, .done)
          else ({ s with path := none, panelUpdateInFlight := false }, .done)
  | .done => (s, .done)

/-- The panel: what is shared, and the requests under way. -/
structure State (Bytes Version : Type) where
  store : Store Bytes Version
  calls : List (Call Bytes Version) := []

/-- The three requests. -/
inductive Event (Bytes : Type) where
  | stage (upload : List Bytes)
  | discard
  | apply (token : Nat)
  /-- The update from a release takes its flag or gives it back. -/
  | update (inFlight : Bool)
  | turn (k : Nat) (fine : Bool)

/-- One request. -/
def step (version : Bytes → Option Version) (empty : Bytes) (p : State Bytes Version) :
    Event Bytes → State Bytes Version
  | .stage upload =>
      if p.store.panelUpdateInFlight then p else { p with calls := p.calls ++ [.discard (some upload)] }
  | .discard => { p with calls := p.calls ++ [.discard none] }
  | .apply token => { p with calls := p.calls ++ [.apply token] }
  | .update inFlight => { p with store := { p.store with panelUpdateInFlight := inFlight } }
  | .turn k fine =>
      match p.calls[k]? with
      | none => p
      | some c => ⟨(turn version empty fine p.store c).1, p.calls.set k (turn version empty fine p.store c).2⟩

/-! ## What is shown and what is there -/

/-- The request is between the slot and its end. -/
def Call.holds : Call Bytes Version → Bool
  | .discard _ | .apply _ | .done => false
  | _ => true

/-- The version a request has read and goes by. -/
def Call.goesBy : Call Bytes Version → Option Version
  | .publish v | .start v | .install v => some v
  | _ => none

/-- A request comes to the slot only when no other one is past it. -/
def Alone (p : State Bytes Version) : Event Bytes → Prop
  | .turn k _ => ∀ c ∈ p.calls[k]?, c.holds = false → ∀ c' ∈ p.calls, c'.holds = false
  | _ => True

variable {version : Bytes → Option Version} {empty : Bytes} {p : State Bytes Version} {c : Call Bytes Version}

/-- The file at the path has the version. -/
def Store.Shows (version : Bytes → Option Version) (s : Store Bytes Version) (v : Version) : Prop :=
  ∃ file, s.path = some file ∧ version (s.data file) = some v

/-- What a request with the file to itself can rely on. -/
structure Store.Sound (version : Bytes → Option Version) (s : Store Bytes Version) (c : Call Bytes Version) : Prop where
  slot : ∀ token v, s.slot = some (token, v) → c.holds = false ∧ s.Shows version v
  call : ∀ v, c.goesBy = some v → s.Shows version v
  installed : ∀ v b, (v, b) ∈ s.installed → version b = some v

theorem turn_sound {s : Store Bytes Version} (h : s.Sound version c) (fine : Bool) :
    (turn version empty fine s c).1.Sound version (turn version empty fine s c).2 := by
  -- without a slot and a version that the request goes by there is nothing to show
  have hfree : ∀ (t : Store Bytes Version) (c' : Call Bytes Version), t.slot = none → c'.goesBy = none →
      t.installed = s.installed → t.Sound version c' := by
    intro t c' hslot hgoes hinstalled
    refine ⟨fun token v hs => ?_, fun v hv => ?_, fun v b hb => h.installed v b (hinstalled ▸ hb)⟩
    · rw [hslot] at hs
      cases hs
    · rw [hgoes] at hv
      cases hv
  have hslot : c.holds = true → s.slot = none := by
    intro hc
    cases hs : s.slot with
    | none => rfl
    | some staged =>
        rw [(h.slot staged.1 staged.2 hs).1] at hc
        cases hc
  cases c with
  | discard upload => exact hfree _ _ rfl rfl rfl
  | remove upload =>
      cases upload with
      | none => exact hfree _ _ (hslot rfl) rfl rfl
      | some upload => exact hfree _ _ (hslot rfl) rfl rfl
  | create upload =>
      unfold turn
      cases fine with
      | false => exact hfree _ _ (hslot rfl) rfl rfl
      | true => cases hpath : s.path <;> exact hfree _ _ (hslot rfl) rfl rfl
  | copy file upload =>
      cases upload <;> cases fine <;> exact hfree _ _ (hslot rfl) rfl rfl
  | inspect =>
      unfold turn
      cases hread : s.path.bind fun file => version (s.data file) with
      | none => exact hfree _ _ (hslot rfl) rfl rfl
      | some v =>
          cases fine with
          | false => exact hfree _ _ (hslot rfl) rfl rfl
          | true =>
              obtain ⟨file, hpath, hversion⟩ := Option.bind_eq_some_iff.1 hread
              refine ⟨fun token v' hs => ?_, fun v' hv => ?_, h.installed⟩
              · rw [hslot rfl] at hs
                cases hs
              · cases hv
                exact ⟨file, hpath, hversion⟩
  | publish v =>
      refine ⟨fun token v' hs => ?_, fun v' hv => ?_, h.installed⟩
      · cases hs
        exact ⟨rfl, h.call v rfl⟩
      · cases hv
  | giveUp => exact hfree _ _ (hslot rfl) rfl rfl
  | apply token =>
      unfold turn
      cases hs : s.slot with
      | none => exact hfree _ _ hs rfl rfl
      | some staged =>
          obtain ⟨staged, v⟩ := staged
          dsimp only
          split
          · refine ⟨fun token v' hs => ?_, fun v' hv => ?_, h.installed⟩
            · cases hs
            · cases hv
              exact (h.slot staged v hs).2
          · exact hfree _ _ rfl rfl rfl
  | start v =>
      simp only [turn]
      split
      · exact hfree _ _ (hslot rfl) rfl rfl
      · split
        · exact hfree _ _ (hslot rfl) rfl rfl
        · refine ⟨fun token v' hs => ?_, fun v' hv => ?_, h.installed⟩
          · have hs : s.slot = some (token, v') := hs
            rw [hslot rfl] at hs
            cases hs
          · cases hv
            exact h.call v rfl
  | install v =>
      obtain ⟨file, hpath, hversion⟩ := h.call v rfl
      simp only [turn, hpath]
      cases fine with
      | false => exact hfree _ _ (hslot rfl) rfl rfl
      | true =>
          refine ⟨fun token v' hs => ?_, fun v' hv => ?_, fun v' b hb => ?_⟩
          · have hs : s.slot = some (token, v') := hs
            rw [hslot rfl] at hs
            cases hs
          · cases hv
          · rcases List.mem_cons.1 hb with hnew | hb
            · cases hnew
              exact hversion
            · exact h.installed v' b hb
  | done => exact h

/-! ## Every run -/

/-- At most one request is past the slot, and whatever version is held on to is that of the file. -/
structure Sound (version : Bytes → Option Version) (p : State Bytes Version) : Prop where
  one : ∀ (i j : Nat) (a b : Call Bytes Version), p.calls[i]? = some a → p.calls[j]? = some b →
    a.holds = true → b.holds = true → i = j
  slot : ∀ token v, p.store.slot = some (token, v) → (∀ c ∈ p.calls, c.holds = false) ∧ p.store.Shows version v
  call : ∀ c ∈ p.calls, ∀ v, c.goesBy = some v → p.store.Shows version v
  installed : ∀ v b, (v, b) ∈ p.store.installed → version b = some v

theorem holds_of_goesBy {v : Version} (h : c.goesBy = some v) : c.holds = true := by
  cases c <;> first | rfl | cases h

theorem sound_request (h : Sound version p)
    (hc : c.holds = false) : Sound version { p with calls := p.calls ++ [c] } := by
  have hold : ∀ {i : Nat} {a : Call Bytes Version}, (p.calls ++ [c])[i]? = some a → a.holds = true →
      p.calls[i]? = some a := by
    intro i a hi ha
    rcases Nat.lt_or_ge i p.calls.length with hlt | hge
    · rwa [List.getElem?_append_left hlt] at hi
    · have hmem := List.mem_of_getElem? (List.getElem?_append_right hge ▸ hi)
      rw [List.mem_singleton.1 hmem, hc] at ha
      cases ha
  refine ⟨fun i j a b hi hj ha hb => h.one i j a b (hold hi ha) (hold hj hb) ha hb, fun token v hs => ?_,
    fun c' hc' v hv => ?_, h.installed⟩
  · refine ⟨fun c' hc' => ?_, (h.slot token v hs).2⟩
    rcases List.mem_append.1 hc' with hc' | hc'
    · exact (h.slot token v hs).1 c' hc'
    · rwa [List.mem_singleton.1 hc']
  · rcases List.mem_append.1 hc' with hc' | hc'
    · exact h.call c' hc' v hv
    · rw [List.mem_singleton.1 hc'] at hv
      rw [holds_of_goesBy hv] at hc
      cases hc

theorem sound_turn (h : Sound version p) {k : Nat}
    (hk : p.calls[k]? = some c) (halone : c.holds = false → ∀ c' ∈ p.calls, c'.holds = false) (fine : Bool) :
    Sound version ⟨(turn version empty fine p.store c).1, p.calls.set k (turn version empty fine p.store c).2⟩ := by
  have hmem : c ∈ p.calls := List.mem_of_getElem? hk
  -- no other request is past the slot, before the turn or after it
  have hothers : ∀ {j : Nat} {b : Call Bytes Version},
      (p.calls.set k (turn version empty fine p.store c).2)[j]? = some b → j ≠ k → b.holds = false := by
    intro j b hj hne
    rw [List.getElem?_set_ne (Ne.symm hne)] at hj
    cases hb : b.holds with
    | false => rfl
    | true =>
        cases hc : c.holds with
        | false =>
            rw [halone hc b (List.mem_of_getElem? hj)] at hb
            cases hb
        | true => exact absurd (h.one j k b c hj hk hb hc) hne
  have hthis : ∀ {b : Call Bytes Version}, b ∈ p.calls.set k (turn version empty fine p.store c).2 → b.holds = true →
      b = (turn version empty fine p.store c).2 := by
    intro b hb hholds
    obtain ⟨j, hj⟩ := List.mem_iff_getElem?.1 hb
    by_cases hjk : j = k
    · rw [hjk, List.getElem?_set_self (List.getElem?_eq_some_iff.1 hk).1] at hj
      exact (Option.some.inj hj).symm
    · rw [hothers hj hjk] at hholds
      cases hholds
  have hsound : p.store.Sound version c :=
    ⟨fun token v hs => ⟨(h.slot token v hs).1 c hmem, (h.slot token v hs).2⟩, h.call c hmem, h.installed⟩
  have hturn : (turn version empty fine p.store c).1.Sound version (turn version empty fine p.store c).2 :=
    turn_sound hsound fine
  refine ⟨fun i j a b hi hj ha hb => ?_, fun token v hs => ⟨fun c' hc' => ?_, (hturn.slot token v hs).2⟩,
    fun c' hc' v hv => ?_, hturn.installed⟩
  · have hik : i = k := by
      by_cases hik : i = k
      · exact hik
      · rw [hothers hi hik] at ha
        cases ha
    have hjk : j = k := by
      by_cases hjk : j = k
      · exact hjk
      · rw [hothers hj hjk] at hb
        cases hb
    rw [hik, hjk]
  · cases hholds : c'.holds with
    | false => rfl
    | true =>
        have hslot := (hturn.slot token v hs).1
        rw [← hthis hc' hholds, hholds] at hslot
        cases hslot
  · rw [hthis hc' (holds_of_goesBy hv)] at hv
    exact hturn.call v hv

theorem sound_step {e : Event Bytes} (h : Sound version p) (halone : Alone p e) :
    Sound version (step version empty p e) := by
  cases e with
  | stage upload =>
      rw [step]
      split
      · exact h
      · exact sound_request h rfl
  | discard => exact sound_request h rfl
  | apply token => exact sound_request h rfl
  | update inFlight => exact ⟨h.one, h.slot, h.call, h.installed⟩
  | turn k fine =>
      rw [step]
      cases hk : p.calls[k]? with
      | none => exact h
      | some c => exact sound_turn h hk (halone c hk) fine

/-- Every binary that is installed has the version that was shown with its token, in every run in
which no request comes to the slot while another one is between the slot and its end. -/
theorem installed_as_shown {data : Nat → Bytes} {events : List (Event Bytes)}
    (halone : AllSteps (step version empty) Alone ⟨{ data := data }, []⟩ events) :
    ∀ v b, (v, b) ∈ (run (step version empty) ⟨{ data := data }, []⟩ events).store.installed →
      version b = some v := by
  have hstart : Sound version ⟨{ data := data }, []⟩ := by
    refine ⟨fun i j a b hi => ?_, fun token v hs => ?_, fun c hc => ?_, fun v b hb => ?_⟩
    · cases hi
    · cases hs
    · cases hc
    · cases hb
  exact (halone.invariant (fun p e h he => sound_step h he) hstart _ (run_mem_states _ events)).installed

/-- An upload that is published while another one has taken its place at the path: the other one's
bytes are installed under the version of the first. -/
theorem overlap_installs_other {data : Nat → Bytes} {a b : Bytes} {v : Version} (ha : version a = some v) :
    (run (step version empty) ⟨{ data := data }, []⟩
      (.stage [a] :: List.replicate 6 (.turn 0 true) ++ .stage [b] :: List.replicate 4 (.turn 1 true) ++
        [.turn 0 true, .apply 0, .turn 2 true, .turn 2 true, .turn 2 true])).store.installed = [(v, b)] := by
  simp [run, step, turn, Store.write, ha]

end

/-- One upload and its confirmation. -/
def confirmed : List (Event Nat) :=
  .stage [5] :: List.replicate 7 (.turn 0 true) ++ .apply 0 :: List.replicate 3 (.turn 1 true)

theorem confirmed_installed :
    (5, 5) ∈ (run (step some 0) ⟨{ data := fun _ => 0 }, []⟩ confirmed).store.installed ∧ some 5 = some 5 := by
  have hinstalled : (5, 5) ∈ (run (step some 0) ⟨{ data := fun _ => 0 }, []⟩ confirmed).store.installed := by
    simp [confirmed, run, step, turn, Store.write]
  refine ⟨hinstalled, installed_as_shown ?_ 5 5 hinstalled⟩
  simp [confirmed, AllSteps, Alone, step, turn, Store.write, Call.holds]

end Simorgh.Panel.Staging
