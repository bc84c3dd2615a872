import Simorgh.Lib.Run
import Simorgh.Radius.Lookup

/-!
# EAP-MSCHAPv2 over RADIUS

An IKEv2 login is a conversation of three rounds.  An Identity opens an exchange
under a fresh `State` token, a Response proves the password against the challenge
of that exchange, a Success ends it.  Which round a message belongs to is read off
the message alone.

* `handleEAPAuth` — the server's answer to one Access-Request.
* `EapServer` — the exchanges in flight together with everything heard so far.
* `accepts_proved_iff` — in every run, the accepts are the ones a proof went before
  exactly when no Success reaches an exchange without a stored NT-Response.
* `success_skips_proof` — an Identity and a Success are enough.

The Message-Authenticator of an answer is left out.
-/

namespace Simorgh.Radius

open Simorgh.Lib Simorgh.Panel

/-- A string of bytes. -/
abbrev Bytes := List UInt8

/-- `rfc2759` and `rfc3079`.  A failure of the first is an answer; the others' are
dropped by the caller. -/
structure Mschap where
  generateNTResponse : (authChallenge peerChallenge : Bytes) → (username password : String) →
    Option Bytes
  generateAuthenticatorResponse : (authChallenge peerChallenge ntResponse : Bytes) →
    (username password : String) → Bytes
  makeKey : (ntResponse : Bytes) → (password : String) → (isSend : Bool) → Bytes

/-- The codes and types of EAP. -/
def eapCodeRequest : UInt8 := 1
def eapCodeResponse : UInt8 := 2
def eapCodeSuccess : UInt8 := 3
def eapCodeFailure : UInt8 := 4

/-- The types of EAP methods. -/
def eapTypeIdentity : UInt8 := 1
def eapTypeMSCHAPv2 : UInt8 := 26

/-- The operations of MS-CHAPv2. -/
def mschapOpChallenge : UInt8 := 1
def mschapOpResponse : UInt8 := 2
def mschapOpSuccess : UInt8 := 3

/-- Sixty seconds, in nanoseconds. -/
def eapSessionTTL : Int := 60 * 10 ^ 9

/-- `vpn-ui`. -/
def eapServerName : Bytes := [118, 112, 110, 45, 117, 105]

/-- One exchange in flight. -/
structure EapState where
  authChallenge : Bytes
  chapID : UInt8
  stateToken : Bytes
  ntResponse : Option Bytes := none
  username : String
  password : String
  protocol : Protocol
  inboundId : Int
  station : String
  nasPort : Nat
  created : Int
  deriving DecidableEq

/-- The exchanges in flight.  The server's keys are the tokens in hexadecimal. -/
abbrev EapSessions := Table EapState.stateToken

/-- An Access-Request that carries an EAP message, with what the server reads while it
answers: the store, the clock, its random numbers and the answer of the device gate. -/
structure EapRequest where
  protocol : Protocol
  inboundId : Int
  username : String
  station : String := ""
  nasPort : Nat := 0
  eap : Bytes
  state : Bytes := []
  db : Roster
  now : Int
  authChallenge : Option Bytes
  stateToken : Bytes
  chapID : UInt8 := 0
  clientIP : Option String
  deny : Bool

/-- The answers to an EAP message. -/
inductive EapReply where
  | reject (eap : Bytes)
  | challenge (eap state : Bytes)
  | accept (eap : Bytes) (keys : Option (Bytes × Bytes)) (framedIP : Option String)
  deriving DecidableEq

/-- The login is accepted. -/
def EapReply.accepts : EapReply → Bool
  | .accept _ _ _ => true
  | _ => false

/-! ## Packets -/

/-- A length in network order, cut to sixteen bits. -/
def be16 (n : Nat) : Bytes := [UInt8.ofNat (n / 256), UInt8.ofNat n]

/-- An EAP packet. -/
def buildEAPPacket (code id typ : UInt8) (data : Bytes) : Bytes :=
  if code = eapCodeSuccess ∨ code = eapCodeFailure then [code, id, 0, 4]
  else [code, id] ++ be16 (5 + data.length) ++ [typ] ++ data

/-- An MS-CHAPv2 message. -/
def buildMSCHAPv2 (opcode chapID : UInt8) (value : Bytes) : Bytes :=
  [opcode, chapID] ++ be16 (4 + value.length) ++ value

/-- The refusal. -/
def sendEAPReject (eapID : UInt8) : EapReply := .reject (buildEAPPacket eapCodeFailure eapID 0 [])

/-! ## The exchanges in flight -/

/-- The exchange is too old. -/
def EapState.expired (now : Int) (st : EapState) : Bool := decide (eapSessionTTL < now - st.created)

/-- Store an exchange; the expired ones go. -/
def eapPut (s : EapSessions) (now : Int) (st : EapState) : EapSessions :=
  (s.deleteWhere (EapState.expired now)).put st

/-- The exchange under a token, dropped when it is expired. -/
def eapGet (s : EapSessions) (now : Int) (state : Bytes) : EapSessions × Option EapState :=
  match s.find? state with
  | none => (s, none)
  | some st => if st.expired now then (s.erase state, none) else (s, some st)

/-- The response was right. -/
def EapState.verified (ntResponse : Bytes) (st : EapState) : EapState :=
  { st with ntResponse := some ntResponse }

@[simp] theorem EapState.verified_stateToken (ntResponse : Bytes) (st : EapState) :
    (st.verified ntResponse).stateToken = st.stateToken := rfl

/-! ## The handler -/

section Handler

variable (m : Mschap)

/-- EAP-Response/Identity. -/
def eapStartChallenge (s : EapSessions) (r : EapRequest) (eapID : UInt8) : EapSessions × EapReply :=
  match lookupClient r.db r.protocol r.inboundId r.username with
  | .error _ => (s, sendEAPReject eapID)
  | .ok password =>
      match r.authChallenge with
      | none => (s, sendEAPReject eapID)
      | some authChallenge =>
          let value := [16] ++ authChallenge ++ eapServerName
          let eapOut := buildEAPPacket eapCodeRequest (eapID + 1) eapTypeMSCHAPv2
            (buildMSCHAPv2 mschapOpChallenge r.chapID value)
          (eapPut s r.now
            { authChallenge := authChallenge, chapID := r.chapID, stateToken := r.stateToken,
              username := r.username, password := password, protocol := r.protocol,
              inboundId := r.inboundId, station := r.station, nasPort := r.nasPort,
              created := r.now },
            .challenge eapOut r.stateToken)

/-- The peer's challenge in a Response. -/
def EapRequest.peerChallenge (r : EapRequest) : Bytes := (r.eap.drop 10).take 16

/-- The peer's NT-Response. -/
def EapRequest.peerNTResponse (r : EapRequest) : Bytes := (r.eap.drop 34).take 24

/-- The response is checked. -/
def eapVerify (s : EapSessions) (r : EapRequest) (st : EapState) (eapID : UInt8) :
    EapSessions × EapReply :=
  if r.eap.length < 58 then (s.erase st.stateToken, sendEAPReject eapID)
  else match m.generateNTResponse st.authChallenge r.peerChallenge st.username st.password with
    | none => (s.erase st.stateToken, sendEAPReject eapID)
    | some ntResponse =>
        if ntResponse ≠ r.peerNTResponse then (s.erase st.stateToken, sendEAPReject eapID)
        else
          let authResp := m.generateAuthenticatorResponse st.authChallenge r.peerChallenge ntResponse
            st.username st.password
          let eapOut := buildEAPPacket eapCodeRequest (eapID + 1) eapTypeMSCHAPv2
            (buildMSCHAPv2 mschapOpSuccess st.chapID authResp)
          (s.modify st.stateToken (EapState.verified ntResponse)
              (EapState.verified_stateToken ntResponse),
            .challenge eapOut st.stateToken)

/-- The client has confirmed. -/
def eapAccept (s : EapSessions) (r : EapRequest) (st : EapState) (eapID : UInt8) :
    EapSessions × EapReply :=
  (s.erase st.stateToken,
    if r.deny then sendEAPReject eapID
    else .accept (buildEAPPacket eapCodeSuccess eapID 0 [])
      (st.ntResponse.map fun nt => (m.makeKey nt st.password false, m.makeKey nt st.password true))
      r.clientIP)

/-- EAP-Response/MSCHAPv2. -/
def eapContinue (s : EapSessions) (r : EapRequest) (eapID : UInt8) : EapSessions × EapReply :=
  match eapGet s r.now r.state with
  | (s, none) => (s, sendEAPReject eapID)
  | (s, some st) =>
      if r.eap.length < 6 then (s.erase st.stateToken, sendEAPReject eapID)
      else if r.eap.getD 5 0 = mschapOpResponse then eapVerify m s r st eapID
      else if r.eap.getD 5 0 = mschapOpSuccess then eapAccept m s r st eapID
      else (s.erase st.stateToken, sendEAPReject eapID)

/-- One EAP message. -/
def handleEAPAuth (s : EapSessions) (r : EapRequest) : EapSessions × EapReply :=
  if r.eap.length < 4 then (s, sendEAPReject 0)
  else
    let eapID := r.eap.getD 1 0
    if r.eap.getD 0 0 ≠ eapCodeResponse ∨ r.eap.length < 5 then (s, sendEAPReject eapID)
    else if r.eap.getD 4 0 = eapTypeIdentity then eapStartChallenge s r eapID
    else if r.eap.getD 4 0 = eapTypeMSCHAPv2 then eapContinue m s r eapID
    else (s, sendEAPReject eapID)

end Handler

/-! ## What went before -/

/-- An EAP response of this type. -/
def EapRequest.responds (r : EapRequest) (typ : UInt8) : Prop :=
  5 ≤ r.eap.length ∧ r.eap.getD 0 0 = eapCodeResponse ∧ r.eap.getD 4 0 = typ

instance (r : EapRequest) (typ : UInt8) : Decidable (r.responds typ) :=
  inferInstanceAs (Decidable (_ ∧ _ ∧ _))

/-- An Identity of an account that is found enabled, and the challenge and the password
the exchange is to be held to. -/
def EapRequest.opening (r : EapRequest) : Option (Bytes × String) :=
  if r.responds eapTypeIdentity then
    r.authChallenge.bind fun challenge =>
      (lookupClient r.db r.protocol r.inboundId r.username).toOption.map fun password =>
        (challenge, password)
  else none

/-- The request opens an exchange under this token. -/
def EapRequest.opens (token : Bytes) (r : EapRequest) : Bool :=
  r.opening.isSome && decide (r.stateToken = token)

/-- The exchange under a token: the request that opened it, and what came later.  The
latest request is the first of the list. -/
def exchange (token : Bytes) : List EapRequest → Option (EapRequest × List EapRequest)
  | [] => none
  | r :: heard =>
      if r.opens token then some (r, [])
      else (exchange token heard).map fun e => (e.1, r :: e.2)

/-- A Response on the token whose NT-Response is the one computed from this challenge,
user name and password. -/
def EapRequest.Proves (m : Mschap) (r : EapRequest) (token authChallenge : Bytes)
    (username password : String) : Prop :=
  r.responds eapTypeMSCHAPv2 ∧ 58 ≤ r.eap.length ∧ r.eap.getD 5 0 = mschapOpResponse ∧
    r.state = token ∧
    m.generateNTResponse authChallenge r.peerChallenge username password = some r.peerNTResponse

/-- The exchange under a token was opened by an account that was found enabled, and a
later Response proved its password. -/
def Proved (m : Mschap) (heard : List EapRequest) (token : Bytes) : Prop :=
  ∃ start later challenge password, exchange token heard = some (start, later) ∧
    start.opening = some (challenge, password) ∧
    ∃ r ∈ later, r.Proves m token challenge start.username password

/-- The server: what is in flight, and every request so far, the latest first. -/
structure EapServer where
  sessions : EapSessions := Table.empty
  heard : List EapRequest := []

/-- What is answered. -/
def EapServer.answer (m : Mschap) (s : EapServer) (r : EapRequest) : EapReply :=
  (handleEAPAuth m s.sessions r).2

/-- What is kept of it. -/
def EapServer.hear (m : Mschap) (s : EapServer) (r : EapRequest) : EapServer :=
  ⟨(handleEAPAuth m s.sessions r).1, r :: s.heard⟩

/-- An accept is sent only on an exchange whose password was proved. -/
def EapServer.AcceptsProved (m : Mschap) (s : EapServer) (r : EapRequest) : Prop :=
  (s.answer m r).accepts = true → Proved m s.heard r.state

/-- A Success that reaches an exchange in flight and passes the device gate finds the
NT-Response of a Response that was checked. -/
def EapServer.SuccessOk (s : EapServer) (r : EapRequest) : Prop :=
  r.responds eapTypeMSCHAPv2 → 6 ≤ r.eap.length → r.eap.getD 5 0 = mschapOpSuccess →
    r.deny = false → ∀ st ∈ (eapGet s.sessions r.now r.state).2, st.ntResponse.isSome

/-! ## One request -/

section Step

variable {m : Mschap} {s : EapSessions} {r : EapRequest}

/-- The state belongs to the exchange this opening started. -/
structure EapState.OpenedBy (st : EapState) (start : EapRequest) : Prop where
  opening : start.opening = some (st.authChallenge, st.password)
  username : start.username = st.username

/-- What one request makes of the states in flight: `st'` is a fresh one, or one that
was there and has been proved now or before. -/
def Follows (m : Mschap) (s : EapSessions) (r : EapRequest) (st' : EapState) : Prop :=
  (r.opens st'.stateToken = true ∧ st'.OpenedBy r ∧ st'.ntResponse = none) ∨
    (r.opens st'.stateToken = false ∧ ∃ st ∈ s.rows, ∃ nt, st' = { st with ntResponse := nt } ∧
      (nt.isSome ↔ st.ntResponse.isSome ∨
        r.Proves m st.stateToken st.authChallenge st.username st.password))

/-- A state that a request does not touch. -/
theorem Follows.same {st : EapState} (hst : st ∈ s.rows) (hopens : r.opens st.stateToken = false)
    (hproves : ¬r.Proves m st.stateToken st.authChallenge st.username st.password) :
    Follows m s r st :=
  Or.inr ⟨hopens, st, hst, st.ntResponse, rfl, by simp [hproves]⟩

theorem opens_eq_false (h : ¬r.responds eapTypeIdentity) (token : Bytes) :
    r.opens token = false := by
  simp [EapRequest.opens, EapRequest.opening, h]

theorem eapGet_some {s' : EapSessions} {st : EapState} {now : Int} {state : Bytes}
    (h : eapGet s now state = (s', some st)) : s' = s ∧ s.find? state = some st := by
  unfold eapGet at h
  split at h
  · cases h
  rename_i st₀ hfind
  split at h
  · cases h
  · cases h
    exact ⟨rfl, hfind⟩

/-- What is left when no exchange is found has another token. -/
theorem eapGet_none {s' : EapSessions} {now : Int} {state : Bytes}
    (h : eapGet s now state = (s', none)) :
    ∀ st ∈ s'.rows, st ∈ s.rows ∧ st.stateToken ≠ state := by
  unfold eapGet at h
  split at h
  · rename_i hfind
    cases h
    exact fun st hst => ⟨hst, Table.find?_eq_none.1 hfind st hst⟩
  split at h
  · cases h
    exact fun st hst => Table.mem_erase.1 hst
  · cases h

theorem follows_eapStartChallenge (hid : r.responds eapTypeIdentity) (eapID : UInt8) :
    ∀ st' ∈ (eapStartChallenge s r eapID).1.rows, Follows m s r st' := by
  intro st' hst'
  have hnot : ∀ {token ch user pass}, ¬r.Proves m token ch user pass := by
    rintro token ch user pass ⟨⟨-, -, htyp⟩, -⟩
    rw [hid.2.2] at htyp
    exact absurd htyp (by decide)
  unfold eapStartChallenge at hst'
  split at hst'
  · rename_i e he
    refine Follows.same hst' ?_ hnot
    simp [EapRequest.opens, EapRequest.opening, he, Except.toOption]
  rename_i password hpassword
  split at hst'
  · rename_i hnone
    refine Follows.same hst' ?_ hnot
    simp [EapRequest.opens, EapRequest.opening, hnone]
  rename_i challenge hchallenge
  have hopening : r.opening = some (challenge, password) := by
    simp [EapRequest.opening, hid, hchallenge, hpassword, Except.toOption]
  simp only [eapPut] at hst'
  rcases Table.mem_put.1 hst' with ⟨hmem, hkey⟩ | rfl
  · refine Follows.same (List.mem_of_mem_filter hmem) ?_ hnot
    simpa [EapRequest.opens, hopening] using Ne.symm hkey
  · exact Or.inl ⟨by simp [EapRequest.opens, hopening], ⟨hopening, rfl⟩, rfl⟩

/-- The states besides the one a Response is checked for are left alone. -/
theorem follows_other (hmsg : r.responds eapTypeMSCHAPv2) {st' : EapState} (hmem : st' ∈ s.rows)
    (hne : st'.stateToken ≠ r.state) : Follows m s r st' := by
  refine Follows.same hmem (opens_eq_false ?_ _) ?_
  · rintro ⟨-, -, htyp⟩
    rw [hmsg.2.2] at htyp
    exact absurd htyp (by decide)
  · rintro ⟨-, -, -, hstate, -⟩
    exact hne hstate.symm

theorem follows_eapContinue (hmsg : r.responds eapTypeMSCHAPv2) (eapID : UInt8) :
    ∀ st' ∈ (eapContinue m s r eapID).1.rows, Follows m s r st' := by
  intro st' hst'
  unfold eapContinue at hst'
  split at hst'
  · rename_i s' hget
    obtain ⟨hmem, hne⟩ := eapGet_none hget st' hst'
    exact follows_other hmsg hmem hne
  rename_i s' st hget
  obtain ⟨rfl, hfind⟩ := eapGet_some hget
  obtain ⟨hst, htoken⟩ := Table.find?_some hfind
  have hgone : st' ∈ (s'.erase st.stateToken).rows → Follows m s' r st' := by
    intro hmem
    obtain ⟨hmem, hne⟩ := Table.mem_erase.1 hmem
    exact follows_other hmsg hmem (htoken ▸ hne)
  split at hst'
  · exact hgone hst'
  rename_i hlen
  split at hst'
  · rename_i hop
    unfold eapVerify at hst'
    split at hst'
    · exact hgone hst'
    rename_i hlong
    split at hst'
    · exact hgone hst'
    rename_i nt hnt
    split at hst'
    · exact hgone hst'
    rename_i heq
    rw [ne_eq, not_not] at heq
    -- the one state that changes is the one that is proved
    obtain ⟨st₀, hst₀, rfl⟩ := List.mem_map.1 hst'
    by_cases hsame : st₀.stateToken = st.stateToken
    · have : st₀ = st := Table.eq_of_key_eq hst₀ hst hsame
      subst this
      rw [if_pos (by simp)]
      refine Or.inr ⟨opens_eq_false ?_ _, st₀, hst₀, some nt, rfl, ?_⟩
      · rintro ⟨-, -, htyp⟩
        rw [hmsg.2.2] at htyp
        exact absurd htyp (by decide)
      · refine iff_of_true rfl (Or.inr ⟨hmsg, by omega, hop, htoken.symm, ?_⟩)
        rw [hnt, heq]
    · rw [if_neg (by simpa using hsame)]
      exact follows_other hmsg hst₀ (htoken ▸ hsame)
  split at hst'
  · exact hgone hst'
  · exact hgone hst'

theorem follows_handleEAPAuth : ∀ st' ∈ (handleEAPAuth m s r).1.rows, Follows m s r st' := by
  intro st' hst'
  have hother : ¬r.responds eapTypeIdentity → ¬r.responds eapTypeMSCHAPv2 → st' ∈ s.rows →
      Follows m s r st' := by
    intro hid hmsg hmem
    exact Follows.same hmem (opens_eq_false hid _) fun hproves => hmsg hproves.1
  unfold handleEAPAuth at hst'
  split at hst'
  · rename_i hshort
    exact hother (fun h => by have := h.1; omega) (fun h => by have := h.1; omega) hst'
  simp only at hst'
  split at hst'
  · rename_i hcode
    refine hother ?_ ?_ hst'
    · rintro ⟨hlen, hresp, -⟩
      rcases hcode with hcode | hcode
      · exact hcode hresp
      · omega
    · rintro ⟨hlen, hresp, -⟩
      rcases hcode with hcode | hcode
      · exact hcode hresp
      · omega
  rename_i hcode
  rw [not_or, not_not, not_lt] at hcode
  split at hst'
  · rename_i htyp
    exact follows_eapStartChallenge ⟨hcode.2, hcode.1, htyp⟩ _ st' hst'
  rename_i hid
  split at hst'
  · rename_i htyp
    exact follows_eapContinue ⟨hcode.2, hcode.1, htyp⟩ _ st' hst'
  · rename_i hmsg
    exact hother (fun h => hid h.2.2) (fun h => hmsg h.2.2) hst'

/-- Only a Success on an exchange in flight is answered with an accept. -/
theorem accepts_eapContinue (eapID : UInt8) :
    (eapContinue m s r eapID).2.accepts = true ↔
      6 ≤ r.eap.length ∧ r.eap.getD 5 0 = mschapOpSuccess ∧ r.deny = false ∧
        (eapGet s r.now r.state).2.isSome := by
  have hverify : ∀ s' st, (eapVerify m s' r st eapID).2.accepts = false := by
    intro s' st
    unfold eapVerify
    split
    · rfl
    split
    · rfl
    split <;> rfl
  unfold eapContinue
  split
  · rename_i s' hget
    simp [hget, sendEAPReject, EapReply.accepts]
  rename_i s' st hget
  rw [hget]
  simp only [Option.isSome_some, and_true]
  split
  · rename_i hlen
    exact iff_of_false (by simp [sendEAPReject, EapReply.accepts]) fun h => by omega
  rename_i hlen
  split
  · rename_i hop
    rw [hverify, hop]
    exact iff_of_false (by simp) fun h => absurd h.2.1 (by decide)
  split
  · rename_i hop
    unfold eapAccept
    rw [and_iff_right (not_lt.1 hlen), and_iff_right hop]
    cases r.deny <;> simp [sendEAPReject, EapReply.accepts]
  · rename_i hop
    exact iff_of_false (by simp [sendEAPReject, EapReply.accepts]) fun h => hop h.2.1

theorem accepts_handleEAPAuth : (handleEAPAuth m s r).2.accepts = true ↔
    r.responds eapTypeMSCHAPv2 ∧ 6 ≤ r.eap.length ∧ r.eap.getD 5 0 = mschapOpSuccess ∧
      r.deny = false ∧ (eapGet s r.now r.state).2.isSome := by
  unfold handleEAPAuth
  split
  · exact iff_of_false (by simp [sendEAPReject, EapReply.accepts]) fun h => by have := h.1.1; omega
  simp only
  split
  · rename_i hcode
    refine iff_of_false (by simp [sendEAPReject, EapReply.accepts]) ?_
    rintro ⟨⟨hlen, hresp, -⟩, -⟩
    rcases hcode with hcode | hcode
    · exact hcode hresp
    · omega
  rename_i hcode
  rw [not_or, not_not, not_lt] at hcode
  split
  · rename_i htyp
    refine iff_of_false ?_ fun h => absurd (htyp.symm.trans h.1.2.2) (by decide)
    unfold eapStartChallenge
    split
    · simp [sendEAPReject, EapReply.accepts]
    split <;> simp [sendEAPReject, EapReply.accepts]
  split
  · rename_i htyp
    rw [accepts_eapContinue]
    exact ⟨fun h => ⟨⟨hcode.2, hcode.1, htyp⟩, h⟩, fun h => h.2⟩
  · rename_i htyp
    exact iff_of_false (by simp [sendEAPReject, EapReply.accepts]) fun h => htyp h.1.2.2

end Step

/-! ## Runs -/

section Run

variable {m : Mschap}

/-- What is in flight was opened by the latest opening of its token, and carries an
NT-Response exactly when a Response since then proved the password. -/
def EapServer.Honest (m : Mschap) (s : EapServer) : Prop :=
  ∀ st ∈ s.sessions.rows, ∃ start later, exchange st.stateToken s.heard = some (start, later) ∧
    st.OpenedBy start ∧
    (st.ntResponse.isSome ↔
      ∃ r ∈ later, r.Proves m st.stateToken st.authChallenge st.username st.password)

theorem EapServer.Honest.hear {s : EapServer} (h : s.Honest m) (r : EapRequest) :
    (s.hear m r).Honest m := by
  intro st' hst'
  rcases follows_handleEAPAuth st' hst' with ⟨hopens, hopened, hnone⟩ | ⟨hopens, st, hst, nt, rfl, hnt⟩
  · refine ⟨r, [], ?_, hopened, by simp [hnone]⟩
    simp [EapServer.hear, exchange, hopens]
  · obtain ⟨start, later, hexchange, ⟨hopening, huser⟩, hproved⟩ := h st hst
    refine ⟨start, r :: later, ?_, ⟨hopening, huser⟩, ?_⟩
    · simp only [EapServer.hear, exchange, hopens]
      rw [if_neg (by simp), hexchange]
      rfl
    · rw [hnt, hproved, List.exists_mem_cons_iff]
      exact or_comm

/-- On an honest server the two conditions agree on the next request. -/
theorem EapServer.Honest.acceptsProved_iff {s : EapServer} (h : s.Honest m) (r : EapRequest) :
    s.AcceptsProved m r ↔ s.SuccessOk r := by
  unfold EapServer.AcceptsProved EapServer.SuccessOk EapServer.answer
  rw [accepts_handleEAPAuth]
  simp only [and_imp]
  refine forall_congr' fun hmsg => forall_congr' fun hlen => forall_congr' fun hop =>
    forall_congr' fun hdeny => ?_
  cases hget : eapGet s.sessions r.now r.state with
  | mk s' found =>
      cases found with
      | none => simp
      | some st =>
          obtain ⟨rfl, hfind⟩ := eapGet_some hget
          obtain ⟨hst, htoken⟩ := Table.find?_some hfind
          obtain ⟨start, later, hexchange, ⟨hopening, huser⟩, hproved⟩ := h st hst
          simp only [Option.isSome_some, true_implies, Option.mem_def, Option.some.injEq, forall_eq']
          rw [hproved]
          constructor
          · rintro ⟨start', later', challenge, password, hexchange', hopening', r', hr', hproves⟩
            rw [← htoken, hexchange, Option.some.injEq, Prod.mk.injEq] at hexchange'
            obtain ⟨rfl, rfl⟩ := hexchange'
            rw [hopening, Option.some.injEq, Prod.mk.injEq] at hopening'
            obtain ⟨rfl, rfl⟩ := hopening'
            exact ⟨r', hr', by rw [htoken, ← huser]; exact hproves⟩
          · rintro ⟨r', hr', hproves⟩
            refine ⟨start, later, _, _, htoken ▸ hexchange, hopening, r', hr', ?_⟩
            rw [← htoken, huser]
            exact hproves

/-- In every run of requests, each accept comes after a proof in its own exchange
exactly when no Success that passes the gate reaches an exchange without a stored
NT-Response. -/
theorem accepts_proved_iff (m : Mschap) (requests : List EapRequest) :
    AllSteps (EapServer.hear m) (EapServer.AcceptsProved m) {} requests ↔
      AllSteps (EapServer.hear m) EapServer.SuccessOk {} requests := by
  have hstart : EapServer.Honest m {} := fun st hst => absurd hst (List.not_mem_nil)
  exact AllSteps.congr (fun s r hs => hs.acceptsProved_iff r) (fun s r hs _ => hs.hear r) hstart

end Run

/-- One IKEv2 inbound with the account kim. -/
def kimOnline : Roster where
  inbounds := ⟨[{ id := 1, protocol := .ikev2, settings := { clients := [stored
    [("email", .str "kim"), ("id", .str "kim"), ("password", .str "secret"),
      ("enable", .bool true)]] } }], by decide⟩
  traffics := .single { email := "kim", inboundId := 1 }

/-- A request in kim's name. -/
def fromKim (eap state : Bytes) : EapRequest where
  protocol := .ikev2
  inboundId := 1
  username := "kim"
  eap := eap
  state := state
  db := kimOnline
  now := 0
  authChallenge := some (List.replicate 16 7)
  stateToken := List.replicate 16 9
  clientIP := some "10.6.1.2"
  deny := false

/-- Neither of the two messages below calls any of these. -/
def uncalled : Mschap where
  generateNTResponse _ _ _ _ := none
  generateAuthenticatorResponse _ _ _ _ _ := []
  makeKey _ _ _ := []

/-- An EAP-Response/Identity. -/
def identity : EapRequest := fromKim [2, 0, 0, 5, 1] []

/-- A Success on the token the Identity was answered with. -/
def success : EapRequest := fromKim [2, 1, 0, 6, 26, 3] (List.replicate 16 9)

/-- An Identity and a Success are answered with an accept although no password was
checked. -/
theorem success_skips_proof :
    ((EapServer.hear uncalled {} identity).answer uncalled success).accepts = true ∧
      ¬AllSteps (EapServer.hear uncalled) (EapServer.AcceptsProved uncalled) {}
        [identity, success] := by
  refine ⟨by decide +kernel, ?_⟩
  rintro ⟨-, haccepts, -⟩
  obtain ⟨start, later, challenge, password, hexchange, -, r, hr, -⟩ :=
    haccepts (by decide +kernel)
  have hlater : (exchange success.state (EapServer.hear uncalled {} identity).heard).map
      (fun e => e.2.length) = some 0 := by decide +kernel
  rw [hexchange, Option.map_some, Option.some.injEq, List.length_eq_zero_iff] at hlater
  have hnil : later = [] := hlater
  rw [hnil] at hr
  exact absurd hr List.not_mem_nil

end Simorgh.Radius
