import Mathlib.Data.List.Nodup
import Simorgh.Lib.Run

/-!
# The WebSocket hub

One loop owns the set of clients.  Requests to join and to leave come to it over channels of
a hundred, messages over another; a message is given to all clients by workers, and the loop
waits for them.  A worker that finds a client's buffer full asks the loop, over the channel
to leave, to drop the client.

* `Hub.step` — callers, the loop and its workers, one operation on a channel at a time.
* `Hub.Stuck` — the loop waits for a worker that waits for the loop.
* `Hub.Room` — while a broadcast is under way the channel to leave has room for the workers
  that need it, and nobody leaves with a request to join still on its way.
* `hub_live` — so no state is stuck and nobody who has left is in the set.
-/

namespace Simorgh.Panel

open Simorgh.Lib

/-- `runtime.NumCPU() * 2`, within its bounds. -/
def workerPoolSize (numCPU : ℕ) : ℕ := if 100 < numCPU * 2 then 100 else if numCPU * 2 < 10 then 10 else numCPU * 2

/-- The capacities of the channels. -/
def registerCap : ℕ := 100
/-- The room in the hub's channels. -/
def unregisterCap : ℕ := 100
def broadcastCap : ℕ := 2048

/-- What a worker's `select` on a client's buffer comes to. -/
inductive SendOutcome where
  | sent
  | full
  /-- the send panics, which is recovered -/
  | closed

/-- A `broadcastParallel` that the loop waits for. -/
structure Broadcasting where
  /-- the clients no worker has come to yet -/
  todo : List ℕ
  workers : ℕ
  /-- the clients whose worker is in `Unregister` -/
  busy : List ℕ := []
  deriving DecidableEq

/-- What the hub's loop is at. -/
inductive HubPhase where
  | selecting
  | broadcasting (b : Broadcasting)
  | stopped
  deriving DecidableEq

/-- The hub: its clients and channels. -/
structure Hub where
  clients : List ℕ := []
  register : List ℕ := []
  unregister : List ℕ := []
  /-- how many messages are in the channel -/
  broadcast : ℕ := 0
  /-- the callers in `Register` and in `Unregister` -/
  registering : List ℕ := []
  unregistering : List ℕ := []
  /-- `ctx` is done -/
  cancelled : Bool := false
  phase : HubPhase := .selecting
  /-- the clients whose `Unregister` was received, with no call of `Register` since -/
  left : ℕ → Bool := fun _ => false

/-- The steps of the hub and of those who call it. -/
inductive HubEvent where
  /-- calls, and when they get through or give up -/
  | callRegister (c : ℕ)
  | sendRegister (c : ℕ)
  | callUnregister (c : ℕ)
  | sendUnregister (c : ℕ)
  | giveUpRegister (c : ℕ)
  | giveUpUnregister (c : ℕ)
  | broadcast
  | cancel
  /-- the cases of the loop's `select` -/
  | takeRegister
  | takeUnregister
  | takeBroadcast
  | shutdown
  /-- a worker comes to a client -/
  | deliver (c : ℕ) (outcome : SendOutcome)
  /-- a worker's `Unregister` gets through, or sees that the hub is shutting down -/
  | workerSend (c : ℕ)
  | workerGiveUp (c : ℕ)
  /-- the workers are done -/
  | finish

namespace Hub

/-- A worker of the broadcast comes to a client. -/
def deliver (h : Hub) (b : Broadcasting) (c : ℕ) : SendOutcome → Hub
  | .full => { h with phase := .broadcasting { b with todo := b.todo.erase c, busy := c :: b.busy } }
  | .sent | .closed => { h with phase := .broadcasting { b with todo := b.todo.erase c } }

/-- What the loop does when it is in its `select`. -/
def select (numCPU : ℕ) (h : Hub) : HubEvent → Hub
  | .takeRegister =>
      match h.register with
      | c :: rest =>
          { h with register := rest, clients := if c ∈ h.clients then h.clients else h.clients ++ [c] }
      | [] => h
  | .takeUnregister =>
      match h.unregister with
      | c :: rest =>
          { h with
            unregister := rest
            clients := h.clients.filter fun x => decide (x ≠ c)
            left := fun x => if x = c then true else h.left x }
      | [] => h
  | .takeBroadcast =>
      if h.broadcast = 0 then h
      else if h.clients = [] then { h with broadcast := h.broadcast - 1 }
      else
        { h with
          broadcast := h.broadcast - 1
          phase := .broadcasting
            { todo := h.clients
              -- a worker for each client, or the pool
              workers :=
                if h.clients.length < workerPoolSize numCPU then h.clients.length
                else workerPoolSize numCPU } }
  | .shutdown => if h.cancelled then { h with clients := [], phase := .stopped } else h
  | _ => h

/-- What a broadcast does. -/
def work (h : Hub) (b : Broadcasting) : HubEvent → Hub
  | .deliver c outcome => if c ∈ b.todo ∧ b.busy.length < b.workers then h.deliver b c outcome else h
  | .workerSend c =>
      if c ∈ b.busy ∧ h.unregister.length < unregisterCap then
        { h with
          unregister := h.unregister ++ [c]
          phase := .broadcasting { b with busy := b.busy.erase c } }
      else h
  | .workerGiveUp c =>
      if c ∈ b.busy ∧ h.cancelled = true then { h with phase := .broadcasting { b with busy := b.busy.erase c } } else h
  | .finish => if b.todo = [] ∧ b.busy = [] then { h with phase := .selecting } else h
  | _ => h

/-- What the callers do. -/
def call (h : Hub) : HubEvent → Hub
  | .callRegister c =>
      { h with registering := h.registering ++ [c], left := fun x => if x = c then false else h.left x }
  | .sendRegister c =>
      if c ∈ h.registering ∧ h.register.length < registerCap then
        { h with registering := h.registering.erase c, register := h.register ++ [c] }
      else h
  | .callUnregister c => { h with unregistering := h.unregistering ++ [c] }
  | .sendUnregister c =>
      if c ∈ h.unregistering ∧ h.unregister.length < unregisterCap then
        { h with unregistering := h.unregistering.erase c, unregister := h.unregister ++ [c] }
      else h
  | .giveUpRegister c => if h.cancelled then { h with registering := h.registering.erase c } else h
  | .giveUpUnregister c => if h.cancelled then { h with unregistering := h.unregistering.erase c } else h
  | .broadcast =>
      -- nothing is sent with no client there, or when the channel stays full for 100 ms
      if h.clients = [] ∨ broadcastCap ≤ h.broadcast then h else { h with broadcast := h.broadcast + 1 }
  | .cancel => { h with cancelled := true }
  | _ => h

/-- One event. -/
def step (numCPU : ℕ) (h : Hub) (a : HubEvent) : Hub :=
  match a with
  | .takeRegister | .takeUnregister | .takeBroadcast | .shutdown =>
      match h.phase with
      | .selecting => h.select numCPU a
      | _ => h
  | .deliver _ _ | .workerSend _ | .workerGiveUp _ | .finish =>
      match h.phase with
      | .broadcasting b => h.work b a
      | _ => h
  | _ => h.call a

/-- The loop waits for a worker that is itself waiting for room in the channel the loop drains. -/
def Stuck (h : Hub) : Prop :=
  ∃ b c, h.phase = .broadcasting b ∧ c ∈ b.busy ∧ unregisterCap ≤ h.unregister.length ∧ h.cancelled = false

/-- The clients in the channel to leave and the workers that have one for it are fewer than it holds. -/
def Roomy (h : Hub) (b : Broadcasting) : Prop := h.unregister.length + b.busy.length < unregisterCap

/-- A worker that finds a full buffer, and a caller that gets into the channel to leave, find room
for the workers before them; and the loop receives a client's `Unregister` only when no `Register`
of it is on its way. -/
def Room (h : Hub) : HubEvent → Prop
  | .deliver _ .full | .sendUnregister _ => ∀ b, h.phase = .broadcasting b → h.Roomy b
  | .takeUnregister => ∀ c ∈ h.unregister.head?, c ∉ h.register ∧ c ∉ h.registering
  | _ => True

/-- There is room for the workers that wait, and who has left is neither there nor on the way. -/
structure Sound (h : Hub) : Prop where
  bounded : h.unregister.length ≤ unregisterCap
  room : ∀ b, h.phase = .broadcasting b → h.unregister.length + b.busy.length ≤ unregisterCap
  gone : ∀ c, h.left c = true → c ∉ h.clients ∧ c ∉ h.register ∧ c ∉ h.registering

variable {numCPU : ℕ} {h : Hub}

theorem Sound.not_stuck (hs : h.Sound) : ¬ h.Stuck := by
  rintro ⟨b, c, hphase, hbusy, hfull, -⟩
  have hroom := hs.room b hphase
  have hpos : 0 < b.busy.length := List.length_pos_of_mem hbusy
  omega

theorem Sound.call (hs : h.Sound) (a : HubEvent) (hroom : h.Room a) : (h.call a).Sound := by
  cases a with
  | callRegister c =>
      refine ⟨hs.bounded, hs.room, fun x hx => ?_⟩
      simp only [Hub.call] at hx ⊢
      split at hx
      · cases hx
      case isFalse hne =>
        obtain ⟨hclients, hregister, hregistering⟩ := hs.gone x hx
        refine ⟨hclients, hregister, ?_⟩
        rw [List.mem_append, List.mem_singleton]
        rintro (hin | rfl)
        · exact hregistering hin
        · exact hne rfl
  | sendRegister c =>
      simp only [Hub.call]
      split
      case isTrue hsend =>
        refine ⟨hs.bounded, hs.room, fun x hx => ?_⟩
        obtain ⟨hclients, hregister, hregistering⟩ := hs.gone x hx
        refine ⟨hclients, ?_, fun hin => hregistering (List.mem_of_mem_erase hin)⟩
        rw [List.mem_append, List.mem_singleton]
        rintro (hin | rfl)
        · exact hregister hin
        · exact hregistering hsend.1
      case isFalse => exact hs
  | callUnregister c => exact ⟨hs.bounded, hs.room, hs.gone⟩
  | sendUnregister c =>
      simp only [Hub.call]
      split
      case isTrue hsend =>
        refine ⟨?_, fun b hb => ?_, hs.gone⟩
        · rw [List.length_append, List.length_singleton]
          omega
        · have hlt := hroom b hb
          unfold Roomy at hlt
          rw [List.length_append, List.length_singleton]
          omega
      case isFalse => exact hs
  | giveUpRegister c =>
      simp only [Hub.call]
      split
      · refine ⟨hs.bounded, hs.room, fun x hx => ?_⟩
        obtain ⟨hclients, hregister, hregistering⟩ := hs.gone x hx
        exact ⟨hclients, hregister, fun hin => hregistering (List.mem_of_mem_erase hin)⟩
      · exact hs
  | giveUpUnregister c =>
      simp only [Hub.call]
      split
      · exact ⟨hs.bounded, hs.room, hs.gone⟩
      · exact hs
  | broadcast =>
      simp only [Hub.call]
      split
      · exact hs
      · exact ⟨hs.bounded, hs.room, hs.gone⟩
  | cancel => exact ⟨hs.bounded, hs.room, hs.gone⟩
  | _ => exact hs

theorem Sound.select (hs : h.Sound) (hphase : h.phase = .selecting) (a : HubEvent) (hroom : h.Room a) :
    (h.select numCPU a).Sound := by
  have hidle : ∀ b, h.phase ≠ .broadcasting b := fun b hb => by rw [hphase] at hb; cases hb
  cases a with
  | takeRegister =>
      simp only [Hub.select]
      split
      case h_1 c rest hregister =>
        refine ⟨hs.bounded, hs.room, fun x hx => ?_⟩
        obtain ⟨hclients, hnot, hregistering⟩ := hs.gone x hx
        rw [hregister, List.mem_cons, not_or] at hnot
        refine ⟨?_, hnot.2, hregistering⟩
        simp only
        split
        · exact hclients
        · rw [List.mem_append, List.mem_singleton]
          rintro (hin | rfl)
          · exact hclients hin
          · exact hnot.1 rfl
      case h_2 => exact hs
  | takeUnregister =>
      simp only [Hub.select]
      split
      case h_1 c rest hunregister =>
        have hbounded := hs.bounded
        rw [hunregister, List.length_cons] at hbounded
        obtain ⟨hnotin, hnotcoming⟩ := hroom c (by rw [hunregister]; rfl)
        refine ⟨by simp only; omega, fun b hb => absurd hb (hidle b), fun x hx => ?_⟩
        simp only at hx ⊢
        rw [List.mem_filter, decide_eq_true_eq]
        split at hx
        case isTrue hc =>
          subst hc
          exact ⟨fun hin => hin.2 rfl, hnotin, hnotcoming⟩
        case isFalse =>
          obtain ⟨hclients, hregister, hregistering⟩ := hs.gone x hx
          exact ⟨fun hin => hclients hin.1, hregister, hregistering⟩
      case h_2 => exact hs
  | takeBroadcast =>
      simp only [Hub.select]
      split
      · exact hs
      · split
        · exact ⟨hs.bounded, hs.room, hs.gone⟩
        · refine ⟨hs.bounded, fun b hb => ?_, hs.gone⟩
          cases hb
          exact hs.bounded
  | shutdown =>
      simp only [Hub.select]
      split
      · refine ⟨hs.bounded, fun b hb => HubPhase.noConfusion hb, fun x hx => ?_⟩
        exact ⟨List.not_mem_nil, (hs.gone x hx).2⟩
      · exact hs
  | _ => exact hs

theorem Sound.work (hs : h.Sound) {b : Broadcasting} (hphase : h.phase = .broadcasting b) (a : HubEvent)
    (hroom : h.Room a) : (h.work b a).Sound := by
  have hold := hs.room b hphase
  cases a with
  | deliver c outcome =>
      simp only [Hub.work]
      split
      · cases outcome with
        | full =>
            refine ⟨hs.bounded, fun b' hb' => ?_, hs.gone⟩
            cases hb'
            have hlt := hroom b hphase
            unfold Roomy at hlt
            simp only [Hub.deliver, List.length_cons]
            omega
        | sent =>
            refine ⟨hs.bounded, fun b' hb' => ?_, hs.gone⟩
            cases hb'
            exact hold
        | closed =>
            refine ⟨hs.bounded, fun b' hb' => ?_, hs.gone⟩
            cases hb'
            exact hold
      · exact hs
  | workerSend c =>
      simp only [Hub.work]
      split
      case isTrue hsend =>
        have hlength : (h.unregister ++ [c]).length = h.unregister.length + 1 := by simp
        have herase : (b.busy.erase c).length + 1 = b.busy.length := by
          have hpos : 0 < b.busy.length := List.length_pos_of_mem hsend.1
          rw [List.length_erase_of_mem hsend.1]
          omega
        refine ⟨by simp only [hlength]; omega, fun b' hb' => ?_, hs.gone⟩
        cases hb'
        simp only [hlength]
        omega
      case isFalse => exact hs
  | workerGiveUp c =>
      simp only [Hub.work]
      split
      · refine ⟨hs.bounded, fun b' hb' => ?_, hs.gone⟩
        cases hb'
        have := List.length_erase_le (a := c) (l := b.busy)
        simp only
        omega
      · exact hs
  | finish =>
      simp only [Hub.work]
      split
      · exact ⟨hs.bounded, fun b' hb' => HubPhase.noConfusion hb', hs.gone⟩
      · exact hs
  | _ => exact hs

theorem Sound.step (hs : h.Sound) (a : HubEvent) (hroom : h.Room a) : (h.step numCPU a).Sound := by
  have hselect : (h.phase = .selecting → (h.select numCPU a).Sound) := fun hphase => hs.select hphase a hroom
  have hwork : ∀ b, h.phase = .broadcasting b → (h.work b a).Sound := fun b hphase => hs.work hphase a hroom
  have hcall := hs.call a hroom
  unfold Hub.step
  split
  case h_9 => exact hcall
  all_goals
    split
    · first
      | exact hselect ‹_›
      | exact hwork _ ‹_›
    · exact hs

theorem Sound.start : Sound {} :=
  ⟨Nat.zero_le _, fun _ hb => HubPhase.noConfusion hb, fun _ hc => Bool.noConfusion hc⟩

end Hub

/-- In every run in which, while a broadcast is under way, the clients in the channel to leave and
the workers that found a full buffer never are more than it holds, and the loop receives no
`Unregister` before a `Register` of the same client, no state is stuck, and no client whose
`Unregister` was received is in the set, unless `Register` was called for it since. -/
theorem hub_live (numCPU : ℕ) (events : List HubEvent) (hroom : AllSteps (Hub.step numCPU) Hub.Room {} events) :
    ∀ h ∈ states (Hub.step numCPU) {} events, ¬ h.Stuck ∧ ∀ c, h.left c = true → c ∉ h.clients := by
  intro h hh
  have hsound := hroom.invariant (fun h a (hs : Hub.Sound h) hroom => hs.step a hroom) Hub.Sound.start h hh
  exact ⟨hsound.not_stuck, fun c hc => (hsound.gone c hc).1⟩

/-- A client joins, is found slow by a broadcast, and is dropped. -/
def slowClient : List HubEvent :=
  [.callRegister 1, .sendRegister 1, .takeRegister, .broadcast, .takeBroadcast, .deliver 1 .full, .workerSend 1,
    .finish, .takeUnregister]

theorem slowClient_leaves :
    (run (Hub.step 4) {} slowClient).left 1 = true ∧ 1 ∉ (run (Hub.step 4) {} slowClient).clients ∧
      ¬ (run (Hub.step 4) {} slowClient).Stuck := by
  have hroom : AllSteps (Hub.step 4) Hub.Room {} slowClient := by
    refine ⟨trivial, trivial, trivial, trivial, trivial, ?_, trivial, trivial, ?_, trivial⟩
    · intro b hb
      cases hb
      show 0 + 0 < 100
      decide
    · intro c hc
      cases hc
      exact ⟨List.not_mem_nil, List.not_mem_nil⟩
  obtain ⟨hstuck, hgone⟩ := hub_live 4 slowClient hroom _ (run_mem_states _ slowClient)
  exact ⟨by decide, hgone 1 (by decide), hstuck⟩

/-- A hundred and one clients join; a broadcast finds the buffers of all of them full. -/
def slowClients : List HubEvent :=
  ((List.range 101).flatMap fun c => [HubEvent.callRegister c, .sendRegister c, .takeRegister]) ++
    ([HubEvent.broadcast, .takeBroadcast] ++
      (((List.range 100).flatMap fun c => [HubEvent.deliver c .full, .workerSend c]) ++ [HubEvent.deliver 100 .full]))

/-- A client joins and leaves, and the loop takes the second request first. -/
def outOfOrder : List HubEvent :=
  [.callRegister 1, .sendRegister 1, .callUnregister 1, .sendUnregister 1, .takeUnregister, .takeRegister]

theorem slowClients_stuck :
    (run (Hub.step 4) {} slowClients).Stuck ∧
      (run (Hub.step 4) {} outOfOrder).left 1 = true ∧ 1 ∈ (run (Hub.step 4) {} outOfOrder).clients := by
  refine ⟨?_, by decide, by decide⟩
  have hphase : (run (Hub.step 4) {} slowClients).phase =
    .broadcasting { todo := [], workers := 10, busy := [100] } := by
    decide +kernel
  exact ⟨_, 100, hphase, List.mem_singleton_self _, by decide +kernel, by decide +kernel⟩

end Simorgh.Panel
