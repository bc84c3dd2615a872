import Mathlib.Logic.Function.Basic
import Simorgh.Lib.Run
import Simorgh.Tunnel.Handshake

/-!
# Key agreement over an open network

Any number of clients and servers that share one password.  The network delivers
what it likes, in any order and as often as it likes; the one thing it cannot do
is to make a MAC that no party has made.

* `key_agreement` — every session a client obtains has a server session with the
  same key, created in answer to the Hello of exactly that attempt.
* `session_stable` — a server keeps the session of its last answer until the next
  authentic Hello.
-/

namespace Simorgh.Tunnel.Exchange

open Simorgh.Lib

/-- One call of `attemptHandshake`. -/
structure Attempt where
  client : Nat
  number : Nat
  target : Addr
  priv : Bytes
deriving DecidableEq

/-- A client's `pendingMap`, and the call of `completeHandshake` that has loaded its
entry and not yet deleted it. -/
structure Client where
  pending : Addr → Option Attempt
  loaded : Option (Attempt × Addr × Bytes)

/-- A session a server has created. -/
structure Answer where
  server : Nat
  peer : Addr
  clientPub : Bytes
  serverPub : Bytes
  key : Bytes
deriving DecidableEq

/-- A session handed to an attempt, and the server key it was made with. -/
structure Obtained where
  attempt : Attempt
  serverPub : Bytes
  session : Session
deriving DecidableEq

/-- The parties, what they have done so far, and the messages MACed under the
password. -/
structure System where
  clients : Nat → Client
  /-- the current session of each server -/
  servers : Nat → Option Session
  attempts : List Attempt
  answers : List Answer
  obtained : List Obtained
  macked : List Bytes

/-- The steps of the parties and of the network. -/
inductive Event where
  /-- `attemptHandshake` up to its `Send`, with the key it generates -/
  | attempt (client : Nat) (target : Addr) (priv : Bytes)
  /-- the deferred `Delete`, after a result or the timeout -/
  | finish (client : Nat) (target : Addr)
  /-- a HelloAck arrives and `completeHandshake` loads the pending attempt -/
  | ack (client : Nat) (src : Addr) (body : Bytes)
  /-- the rest of `completeHandshake` -/
  | complete (client : Nat)
  /-- a Hello arrives at a server, with the key it generates -/
  | hello (server : Nat) (src : Addr) (body : Bytes) (priv : Bytes)
  /-- a customer's session is dropped for bad quality -/
  | drop (server : Nat)

variable (P : Primitives) (password : String)

/-- A client changes. -/
def setClient (s : System) (client : Nat) (c : Client) : System :=
  { s with clients := Function.update s.clients client c }

theorem setClient_self (s : System) (client : Nat) (c : Client) :
    (setClient s client c).clients client = c :=
  Function.update_self ..

theorem setClient_of_ne (s : System) {client i : Nat} (c : Client) (h : i ≠ client) :
    (setClient s client c).clients i = s.clients i :=
  Function.update_of_ne h ..

/-- One event. -/
def step (s : System) : Event → System
  | .attempt client target priv =>
      let a : Attempt := ⟨client, s.attempts.length, target, priv⟩
      let c := s.clients client
      { setClient s client { c with pending := Function.update c.pending target (some a) } with
        attempts := a :: s.attempts
        macked := P.publicKey priv :: s.macked }
  | .finish client target =>
      let c := s.clients client
      setClient s client { c with pending := Function.update c.pending target none }
  | .ack client src body =>
      let c := s.clients client
      match c.loaded, c.pending src with
      | none, some a => setClient s client { c with loaded := some (a, src, body) }
      | _, _ => s
  | .complete client =>
      let c := s.clients client
      match c.loaded with
      | none => s
      | some (a, src, body) =>
          match acceptAck P password a.priv body with
          | none => setClient s client { c with loaded := none }
          | some (serverPub, key) =>
              { setClient s client ⟨Function.update c.pending src none, none⟩ with
                obtained := ⟨a, serverPub, ⟨key, src⟩⟩ :: s.obtained }
  | .hello server src body priv =>
      match answerHello P password body priv with
      | none => s
      | some (clientPub, key) =>
          { s with
            servers := Function.update s.servers server (some ⟨key, src⟩)
            answers := ⟨server, src, clientPub, P.publicKey priv, key⟩ :: s.answers
            macked := (P.publicKey priv ++ clientPub) :: s.macked }
  | .drop server => { s with servers := Function.update s.servers server none }

/-- Nobody has sent anything. -/
def start : System where
  clients := fun _ => ⟨fun _ => none, none⟩
  servers := fun _ => none
  attempts := []
  answers := []
  obtained := []
  macked := []

/-- Clients draw new keys, and a MAC that verifies is one that was made. -/
def Honest (s : System) : Event → Prop
  | .attempt _ _ priv => ∀ a ∈ s.attempts, P.publicKey a.priv ≠ P.publicKey priv
  | .hello _ _ body _ => ∀ pub ∈ parseHello P password body, pub ∈ s.macked
  | .complete client => ∀ l ∈ (s.clients client).loaded,
      ∀ pub ∈ parseHelloAck P password (P.publicKey l.1.priv) l.2.2,
        pub ++ P.publicKey l.1.priv ∈ s.macked
  | _ => True

instance (s : System) : (e : Event) → Decidable (Honest P password s e)
  | .attempt _ _ priv =>
      inferInstanceAs (Decidable (∀ a ∈ s.attempts, P.publicKey a.priv ≠ P.publicKey priv))
  | .hello _ _ body _ =>
      inferInstanceAs (Decidable (∀ pub ∈ parseHello P password body, pub ∈ s.macked))
  | .complete client => inferInstanceAs (Decidable (∀ l ∈ (s.clients client).loaded,
      ∀ pub ∈ parseHelloAck P password (P.publicKey l.1.priv) l.2.2,
        pub ++ P.publicKey l.1.priv ∈ s.macked))
  | .finish .. => isTrue trivial
  | .ack .. => isTrue trivial
  | .drop .. => isTrue trivial

/-! ## The invariant -/

/-- An answer of a server: its key is that of the exchange with the client key. -/
def Answer.Sound (m : Answer) : Prop :=
  m.clientPub.length = x25519KeyLen ∧
    ∃ priv shared, m.serverPub = P.publicKey priv ∧ P.ecdh priv m.clientPub = some shared ∧
      m.key = deriveSessionKey P shared m.clientPub m.serverPub

/-- A session a client holds matches an answer to its Hello. -/
def Obtained.Matched (s : System) (o : Obtained) : Prop :=
  o.attempt ∈ s.attempts ∧
    ∃ m ∈ s.answers, m.clientPub = P.publicKey o.attempt.priv ∧ m.serverPub = o.serverPub ∧
      m.key = o.session.key

/-- What every run keeps. -/
structure Inv (s : System) : Prop where
  macked : ∀ x ∈ s.macked, (∃ a ∈ s.attempts, x = P.publicKey a.priv) ∨
    ∃ m ∈ s.answers, x = m.serverPub ++ m.clientPub
  pending : ∀ i addr, ∀ a ∈ (s.clients i).pending addr, a ∈ s.attempts
  loaded : ∀ i, ∀ l ∈ (s.clients i).loaded, l.1 ∈ s.attempts
  fresh : ∀ a ∈ s.attempts, ∀ b ∈ s.attempts, P.publicKey a.priv = P.publicKey b.priv → a = b
  answers : ∀ m ∈ s.answers, m.Sound P
  obtained : ∀ o ∈ s.obtained, o.Matched P s

variable {P password}

theorem inv_start : Inv P start where
  macked := by simp [start]
  pending := by simp [start]
  loaded := by simp [start]
  fresh := by simp [start]
  answers := by simp [start]
  obtained := by simp [start]

/-- A session stays matched when more attempts and answers come. -/
theorem Obtained.Matched.mono {s t : System} {o : Obtained} (h : o.Matched P s)
    (ha : s.attempts ⊆ t.attempts) (hm : s.answers ⊆ t.answers) : o.Matched P t := by
  obtain ⟨hmem, m, hmm, hrest⟩ := h
  exact ⟨ha hmem, m, hm hmm, hrest⟩

/-- A client's own tables, filled with attempts that were made. -/
theorem Inv.setClient {s : System} (h : Inv P s) (client : Nat) {c : Client}
    (hp : ∀ addr, ∀ a ∈ c.pending addr, a ∈ s.attempts)
    (hl : ∀ l ∈ c.loaded, l.1 ∈ s.attempts) : Inv P (setClient s client c) where
  macked := h.macked
  pending := by
    intro i addr a ha
    by_cases hi : i = client
    · rw [hi, setClient_self] at ha
      exact hp addr a ha
    · rw [setClient_of_ne s c hi] at ha
      exact h.pending i addr a ha
  loaded := by
    intro i l hl'
    by_cases hi : i = client
    · rw [hi, setClient_self] at hl'
      exact hl l hl'
    · rw [setClient_of_ne s c hi] at hl'
      exact h.loaded i l hl'
  fresh := h.fresh
  answers := h.answers
  obtained := h.obtained

/-- An entry written to or deleted from a `pendingMap`. -/
theorem mem_update_pending {pending : Addr → Option Attempt} {target addr : Addr}
    {value : Option Attempt} {a : Attempt} (ha : a ∈ Function.update pending target value addr) :
    a ∈ value ∨ a ∈ pending addr := by
  by_cases h : addr = target
  · rw [h, Function.update_self] at ha
    exact Or.inl ha
  · rw [Function.update_of_ne h] at ha
    exact Or.inr ha

theorem Inv.attempt {s : System} (h : Inv P s) {client : Nat} {target : Addr} {priv : Bytes}
    (hf : Honest P password s (.attempt client target priv)) :
    Inv P (step P password s (.attempt client target priv)) := by
  let a : Attempt := ⟨client, s.attempts.length, target, priv⟩
  have hgrown : Inv P { s with
      attempts := a :: s.attempts, macked := P.publicKey priv :: s.macked } := {
    macked := by
      intro x hx
      rcases List.mem_cons.1 hx with rfl | hx
      · exact Or.inl ⟨a, List.mem_cons_self, rfl⟩
      · rcases h.macked x hx with ⟨b, hb, rfl⟩ | hm
        · exact Or.inl ⟨b, List.mem_cons_of_mem _ hb, rfl⟩
        · exact Or.inr hm
    pending := fun i addr b hb => List.mem_cons_of_mem _ (h.pending i addr b hb)
    loaded := fun i l hl => List.mem_cons_of_mem _ (h.loaded i l hl)
    fresh := by
      intro b hb b' hb' heq
      rcases List.mem_cons.1 hb with rfl | hb
      · rcases List.mem_cons.1 hb' with rfl | hb'
        · rfl
        · exact absurd heq.symm (hf b' hb')
      · rcases List.mem_cons.1 hb' with rfl | hb'
        · exact absurd heq (hf b hb)
        · exact h.fresh b hb b' hb' heq
    answers := h.answers
    obtained := fun o ho =>
      (h.obtained o ho).mono (List.subset_cons_of_subset _ (List.Subset.refl _))
        (List.Subset.refl _) }
  apply hgrown.setClient client
  · intro addr b hb
    rcases mem_update_pending hb with hb | hb
    · cases hb
      exact List.mem_cons_self
    · exact List.mem_cons_of_mem _ (h.pending client addr b hb)
  · exact fun l hl => List.mem_cons_of_mem _ (h.loaded client l hl)

theorem Inv.finish {s : System} (h : Inv P s) (client : Nat) (target : Addr) :
    Inv P (step P password s (.finish client target)) := by
  apply h.setClient client
  · intro addr b hb
    rcases mem_update_pending hb with hb | hb
    · cases hb
    · exact h.pending client addr b hb
  · exact h.loaded client

theorem Inv.ack {s : System} (h : Inv P s) (client : Nat) (src : Addr) (body : Bytes) :
    Inv P (step P password s (.ack client src body)) := by
  simp only [step]
  split
  case h_1 a hl hp =>
    refine h.setClient client (c := ⟨(s.clients client).pending, some (a, src, body)⟩)
      (h.pending client) ?_
    intro l hl
    cases hl
    exact h.pending client src a hp
  case h_2 => exact h

/-- Messages of the two kinds differ in length, so an accepted ack was built by a server
for the very key it is checked against. -/
theorem Inv.answer_of_ack {s : System} (h : Inv P s) {serverPub clientPub : Bytes}
    (hs : serverPub.length = x25519KeyLen) (hc : clientPub.length = x25519KeyLen)
    (hmac : serverPub ++ clientPub ∈ s.macked) :
    ∃ m ∈ s.answers, m.serverPub = serverPub ∧ m.clientPub = clientPub := by
  rcases h.macked _ hmac with ⟨a, -, heq⟩ | ⟨m, hm, heq⟩
  · have hlen := congrArg List.length heq
    rw [List.length_append, hs, hc, P.publicKey_length] at hlen
    cases hlen
  · obtain ⟨hmc, priv, -, hms, -⟩ := h.answers m hm
    have hms' : m.serverPub.length = x25519KeyLen := by rw [hms, P.publicKey_length]
    obtain ⟨h1, h2⟩ := List.append_inj heq (hs.trans hms'.symm)
    exact ⟨m, hm, h1.symm, h2.symm⟩

/-- The client's key is that of the answer its ack came from. -/
theorem key_eq_of_sound {m : Answer} (hm : m.Sound P) {priv serverPub shared : Bytes}
    (hs : m.serverPub = serverPub) (hc : m.clientPub = P.publicKey priv)
    (hshared : P.ecdh priv serverPub = some shared) :
    m.key = deriveSessionKey P shared (P.publicKey priv) serverPub := by
  obtain ⟨-, spriv, shared', hpub, hshared', hkey⟩ := hm
  rw [hc] at hshared' hkey
  rw [← hs, hpub] at hshared
  rw [hkey, ← hs, hpub]
  exact (session_keys_agree hshared hshared').symm

theorem Inv.complete {s : System} (h : Inv P s) {client : Nat}
    (hf : Honest P password s (.complete client)) :
    Inv P (step P password s (.complete client)) := by
  simp only [step]
  cases hl : (s.clients client).loaded with
  | none => exact h
  | some l =>
      obtain ⟨a, src, body⟩ := l
      have ha : a ∈ s.attempts := h.loaded client _ hl
      have hclear : ∀ l ∈ (none : Option (Attempt × Addr × Bytes)), l.1 ∈ s.attempts := by
        intro l hl
        cases hl
      cases hacc : acceptAck P password a.priv body with
      | none =>
          simp only [hacc]
          exact h.setClient client (h.pending client) hclear
      | some r =>
          obtain ⟨serverPub, key⟩ := r
          simp only [hacc]
          obtain ⟨hparse, shared, hshared, hkey⟩ := acceptAck_eq_some hacc
          have hmac := hf _ hl serverPub hparse
          obtain ⟨m, hm, hms, hmc⟩ := h.answer_of_ack (length_of_parseSignedKey hparse)
            (P.publicKey_length a.priv) hmac
          have hmkey := key_eq_of_sound (h.answers m hm) hms hmc hshared
          have hset := h.setClient client
            (c := ⟨Function.update (s.clients client).pending src none, none⟩)
            (by
              intro addr b hb
              rcases mem_update_pending hb with hb | hb
              · cases hb
              · exact h.pending client addr b hb)
            hclear
          exact {
            macked := hset.macked, pending := hset.pending, loaded := hset.loaded
            fresh := hset.fresh, answers := hset.answers
            obtained := by
              intro o ho
              rcases List.mem_cons.1 ho with rfl | ho
              · exact ⟨ha, m, hm, hmc, hms, hmkey.trans hkey.symm⟩
              · exact hset.obtained o ho }

theorem Inv.hello {s : System} (h : Inv P s) {server : Nat} {src : Addr} {body priv : Bytes} :
    Inv P (step P password s (.hello server src body priv)) := by
  simp only [step]
  cases hans : answerHello P password body priv with
  | none => exact h
  | some r =>
      obtain ⟨clientPub, key⟩ := r
      obtain ⟨hparse, shared, hshared, hkey⟩ := answerHello_eq_some hans
      exact {
        macked := by
          intro x hx
          rcases List.mem_cons.1 hx with rfl | hx
          · exact Or.inr ⟨_, List.mem_cons_self, rfl⟩
          · rcases h.macked x hx with ha | ⟨m, hm, rfl⟩
            · exact Or.inl ha
            · exact Or.inr ⟨m, List.mem_cons_of_mem _ hm, rfl⟩
        pending := h.pending
        loaded := h.loaded
        fresh := h.fresh
        answers := by
          intro m hm
          rcases List.mem_cons.1 hm with rfl | hm
          · exact ⟨length_of_parseSignedKey hparse, priv, shared, rfl, hshared, hkey⟩
          · exact h.answers m hm
        obtained := fun o ho =>
          (h.obtained o ho).mono (List.Subset.refl _)
            (List.subset_cons_of_subset _ (List.Subset.refl _)) }

theorem inv_step {s : System} {e : Event} (h : Inv P s) (hf : Honest P password s e) :
    Inv P (step P password s e) := by
  cases e with
  | attempt client target priv => exact h.attempt hf
  | finish client target => exact h.finish client target
  | ack client src body => exact h.ack client src body
  | complete client => exact h.complete hf
  | hello server src body priv => exact h.hello
  | drop server =>
      exact {
        macked := h.macked, pending := h.pending, loaded := h.loaded, fresh := h.fresh
        answers := h.answers, obtained := h.obtained }

/-- In every run, each session a client obtains has a server session with the same key,
created in answer to the public key of that attempt, which no other attempt has. -/
theorem key_agreement (P : Primitives) (password : String) {events : List Event}
    (h : AllSteps (step P password) (Honest P password) start events) :
    ∀ s ∈ states (step P password) start events, ∀ o ∈ s.obtained,
      o.attempt ∈ s.attempts ∧
        (∀ a ∈ s.attempts, P.publicKey a.priv = P.publicKey o.attempt.priv → a = o.attempt) ∧
        ∃ m ∈ s.answers, m.clientPub = P.publicKey o.attempt.priv ∧ m.serverPub = o.serverPub ∧
          m.key = o.session.key := by
  have hstep : ∀ s e, Inv P s → Honest P password s e → Inv P (step P password s e) :=
    fun s e hs hf => inv_step hs hf
  intro s hs o ho
  have hinv := h.invariant hstep inv_start s hs
  obtain ⟨hmem, hm⟩ := hinv.obtained o ho
  exact ⟨hmem, fun a ha heq => hinv.fresh a ha o.attempt hmem heq, hm⟩

/-- A client at 10.0.0.2 connects to a server at 198.51.100.1. -/
def exchange : List Event :=
  [.attempt 0 "198.51.100.1:443" [7],
    .hello 0 "10.0.0.2:5000" (signedKey samplePrimitives "secret" [7] []) [9],
    .ack 0 "198.51.100.1:443" (signedKey samplePrimitives "secret" [9] [pad32 [7]]),
    .complete 0]

theorem exchange_honest : AllSteps (step samplePrimitives "secret")
    (Honest samplePrimitives "secret") start exchange := by
  decide +kernel

def connected : System := run (step samplePrimitives "secret") start exchange

theorem key_agreement_exchange :
    connected.obtained ≠ [] ∧ ∀ o ∈ connected.obtained, ∃ m ∈ connected.answers,
      m.clientPub = pad32 o.attempt.priv ∧ m.serverPub = o.serverPub ∧
        m.key = o.session.key := by
  refine ⟨by decide +kernel, fun o ho => ?_⟩
  exact (key_agreement samplePrimitives "secret" exchange_honest connected
    (run_mem_states start exchange) o ho).2.2

/-! ## How long a server keeps a session -/

/-- The event neither has a server accept a Hello nor drops its session. -/
def Quiet (P : Primitives) (password : String) (server : Nat) : Event → Prop
  | .hello i _ body priv => i = server → answerHello P password body priv = none
  | .drop i => i ≠ server
  | _ => True

theorem servers_quiet {s : System} {e : Event} {server : Nat} (h : Quiet P password server e) :
    (step P password s e).servers server = s.servers server := by
  cases e with
  | attempt client target priv => rfl
  | finish client target => rfl
  | ack client src body =>
      simp only [step]
      split <;> rfl
  | complete client =>
      simp only [step]
      split
      · rfl
      · split <;> rfl
  | hello i src body priv =>
      simp only [step]
      by_cases hi : i = server
      · rw [h hi]
      · split
        · rfl
        · exact Function.update_of_ne (Ne.symm hi) ..
  | drop i => exact Function.update_of_ne (Ne.symm h) ..

/-- An authentic Hello carries the key of an attempt that was made. -/
theorem Inv.attempt_of_hello {s : System} (h : Inv P s) {server : Nat} {src : Addr}
    {body priv clientPub key : Bytes} (hf : Honest P password s (.hello server src body priv))
    (hans : answerHello P password body priv = some (clientPub, key)) :
    ∃ a ∈ s.attempts, P.publicKey a.priv = clientPub := by
  obtain ⟨hparse, -⟩ := answerHello_eq_some hans
  rcases h.macked _ (hf clientPub hparse) with ⟨a, ha, heq⟩ | ⟨m, hm, heq⟩
  · exact ⟨a, ha, heq.symm⟩
  · -- the other MACed messages are two keys long
    obtain ⟨hmc, mpriv, -, hms, -⟩ := h.answers m hm
    have hlen := congrArg List.length heq
    rw [length_of_parseSignedKey hparse, List.length_append, hms, P.publicKey_length, hmc] at hlen
    cases hlen

/-- Where a run has put an answer: the Hello it answers. -/
theorem hello_of_answer {events : List Event} {m : Answer}
    (hm : m ∈ (run (step P password) start events).answers) :
    ∃ pre src body priv post, events = pre ++ .hello m.server src body priv :: post ∧
      answerHello P password body priv = some (m.clientPub, m.key) := by
  obtain ⟨pre, e, post, rfl, hpre, hstep⟩ := exists_step_of_run
    (p := fun s : System => m ∈ s.answers) List.not_mem_nil hm
  cases e with
  | attempt client target priv => exact absurd hstep hpre
  | finish client target => exact absurd hstep hpre
  | ack client src body =>
      simp only [step] at hstep
      split at hstep <;> exact absurd hstep hpre
  | complete client =>
      simp only [step] at hstep
      split at hstep
      · exact absurd hstep hpre
      · split at hstep <;> exact absurd hstep hpre
  | hello i src body priv =>
      simp only [step] at hstep
      split at hstep
      · exact absurd hstep hpre
      case h_2 clientPub key hans =>
        rcases List.mem_cons.1 hstep with rfl | hstep
        · exact ⟨pre, src, body, priv, post, rfl, hans⟩
        · exact absurd hstep hpre
  | drop i => exact absurd hstep hpre

theorem servers_run_quiet (s : System) {events : List Event} {server : Nat}
    (h : ∀ e ∈ events, Quiet P password server e) :
    (run (step P password) s events).servers server = s.servers server := by
  induction events generalizing s with
  | nil => rfl
  | cons e events ih =>
      rw [List.forall_mem_cons] at h
      rw [run_cons, ih _ h.2, servers_quiet h.1]

/-- A session that a client holds was created by a server in answer to a Hello, and is
that server's current session until another authentic Hello arrives there or the session is
dropped.  Every Hello that is accepted is one that a client has built. -/
theorem session_stable (P : Primitives) (password : String) {events : List Event}
    (h : AllSteps (step P password) (Honest P password) start events) :
    (∀ o ∈ (run (step P password) start events).obtained,
      ∃ pre server src body priv post,
        events = pre ++ .hello server src body priv :: post ∧
          answerHello P password body priv = some (P.publicKey o.attempt.priv, o.session.key) ∧
          ((∀ e ∈ post, Quiet P password server e) →
            (run (step P password) start events).servers server = some ⟨o.session.key, src⟩)) ∧
      ∀ pre server src body priv post, events = pre ++ .hello server src body priv :: post →
        ∀ r ∈ answerHello P password body priv,
          ∃ a ∈ (run (step P password) start pre).attempts, P.publicKey a.priv = r.1 := by
  have hstep : ∀ s e, Inv P s → Honest P password s e → Inv P (step P password s e) :=
    fun s e hs hf => inv_step hs hf
  constructor
  · intro o ho
    have hinv := h.invariant hstep inv_start _ (run_mem_states start events)
    obtain ⟨-, m, hm, hmc, -, hkey⟩ := hinv.obtained o ho
    obtain ⟨pre, src, body, priv, post, rfl, hans⟩ := hello_of_answer hm
    rw [hmc, hkey] at hans
    refine ⟨pre, m.server, src, body, priv, post, rfl, hans, fun hq => ?_⟩
    rw [run_append, run_cons, servers_run_quiet _ hq]
    simp only [step, hans]
    exact Function.update_self ..
  · rintro pre server src body priv post rfl ⟨clientPub, key⟩ hans
    obtain ⟨hpre, hhello, -⟩ := AllSteps.append_iff.1 h
    have hinv := hpre.invariant hstep inv_start _ (run_mem_states start pre)
    exact hinv.attempt_of_hello hhello hans

theorem session_stable_exchange :
    connected.obtained ≠ [] ∧ ∀ o ∈ connected.obtained, ∃ pre server src body priv post,
      exchange = pre ++ .hello server src body priv :: post ∧
        ((∀ e ∈ post, Quiet samplePrimitives "secret" server e) →
          connected.servers server = some ⟨o.session.key, src⟩) := by
  refine ⟨by decide +kernel, ?_⟩
  unfold connected
  intro o ho
  obtain ⟨hobtained, -⟩ := session_stable samplePrimitives "secret" exchange_honest
  obtain ⟨pre, server, src, body, priv, post, heq, -, hq⟩ := hobtained o ho
  exact ⟨pre, server, src, body, priv, post, heq, hq⟩

/-- The Hello of `exchange`, delivered once more. -/
def duplicateHello : Event :=
  .hello 0 "10.0.0.2:5000" (signedKey samplePrimitives "secret" [7] []) [10]

/-- A duplicate of the client's one Hello replaces the session the client has just
activated. -/
theorem duplicate_hello_replaces_session :
    AllSteps (step samplePrimitives "secret") (Honest samplePrimitives "secret") start
        (exchange ++ [duplicateHello]) ∧
      connected.obtained.map (fun o => some o.session.key)
        = [(connected.servers 0).map (fun sess => sess.key)] ∧
      ((step samplePrimitives "secret" connected duplicateHello).servers 0).map
          (fun sess => sess.key) ≠ (connected.servers 0).map (fun sess => sess.key) := by
  decide +kernel

end Simorgh.Tunnel.Exchange
