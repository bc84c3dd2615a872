import Simorgh.Tunnel.Fec
import Simorgh.Tunnel.Quality

/-!
# Envelopes, sealed bodies and the receive loops

A sealed body starts with its nonce; a handshake message starts with its tag.
Every loop looks at the first byte of the body to tell them apart.

* `receive` — what the loops do with the body of an envelope of theirs.
* `sealed_handed_over_iff` — a sealed packet from the peer reaches
  `handleSessionPlain` exactly when its nonce does not start with the tag of the
  loop's handshake message and the packet is not judged banned.
-/

namespace Simorgh.Tunnel

open Simorgh.Lib

/-! ## Sealing -/

/-- AES-256-GCM, by what the code relies on. -/
structure Aead where
  /-- key, nonce and plaintext to ciphertext and tag -/
  encrypt : Bytes → Bytes → Bytes → Bytes
  decrypt : Bytes → Bytes → Bytes → Option Bytes
  decrypt_encrypt : ∀ key nonce plain, decrypt key nonce (encrypt key nonce plain) = some plain

/-- The nonce of the AEAD. -/
def nonceSize : Nat := 12

section Loops

variable (A : Aead)

/-- `seal`, with the nonce it draws. -/
def sealBody (key nonce plain : Bytes) : Bytes := nonce ++ A.encrypt key nonce plain

/-- `open` -/
def openBody (key data : Bytes) : Option Bytes :=
  if data.length < nonceSize then none
  else A.decrypt key (data.take nonceSize) (data.drop nonceSize)

theorem openBody_sealBody (key : Bytes) {nonce : Bytes} (plain : Bytes)
    (hn : nonce.length = nonceSize) : openBody A key (sealBody A key nonce plain) = some plain := by
  have hlen : ¬ (sealBody A key nonce plain).length < nonceSize := by
    rw [sealBody, List.length_append]
    omega
  rw [openBody, if_neg hlen, sealBody, List.take_left' hn, List.drop_left' hn, A.decrypt_encrypt]

/-! ## Envelopes -/

/-- An envelope. -/
def buildEnvelope (sessID seq : UInt16) (body : Bytes) : Bytes :=
  putUint16 sessID.toNat ++ putUint16 seq.toNat ++ body

/-- Session id, sequence number and body, of four bytes or more. -/
def splitEnvelope : Bytes → Option (UInt16 × UInt16 × Bytes)
  | b0 :: b1 :: b2 :: b3 :: body =>
      some (UInt16.ofNat (uint16 b0 b1), UInt16.ofNat (uint16 b2 b3), body)
  | _ => none

theorem splitEnvelope_build (sessID seq : UInt16) (body : Bytes) :
    splitEnvelope (buildEnvelope sessID seq body) = some (sessID, seq, body) := by
  simp only [buildEnvelope, putUint16, List.cons_append, List.nil_append, splitEnvelope,
    uint16_put sessID.toNat_lt, uint16_put seq.toNat_lt, UInt16.ofNat_toNat]

/-! ## The loops -/

/-- The types of the handshake. -/
def msgHello : UInt8 := 0xF0
/-- The first byte of an answer. -/
def msgHelloAck : UInt8 := 0xF1

/-- An address, as `String()` prints it. -/
abbrev Addr := String

/-- A key and the address it is used with. -/
structure Session where
  key : Bytes
  peer : Addr
deriving DecidableEq

/-- What a loop reads to judge a packet. -/
structure Channel where
  current : Option Session
  quality : LinkQuality

/-- What becomes of a datagram. -/
inductive Verdict where
  | ignored
  /-- to the handshake branch -/
  | handshake (body : Bytes)
  /-- opened, and the link judged too bad to keep: the process exits, or the customer's
  session is dropped -/
  | banned
  /-- to `handleSessionPlain` -/
  | session (sess : Session) (plain : Bytes)
deriving DecidableEq

/-- A body whose first byte is `tag` is a handshake message; any other is opened under
the current session. -/
def receive (tag : UInt8) (c : Channel) (src : Addr) (seq : UInt16) (body : Bytes) :
    LinkQuality × Verdict :=
  match body with
  | [] => (c.quality, .ignored)
  | first :: _ =>
      if first = tag then (c.quality, .handshake body)
      else
        match c.current with
        | none => (c.quality, .ignored)
        | some sess =>
            if src ≠ sess.peer then (c.quality, .ignored)
            else
              match openBody A sess.key body with
              | none => (c.quality, .ignored)
              | some plain =>
                  match c.quality.observe seq with
                  | (quality, _, banned) =>
                      (quality, if banned then .banned else .session sess plain)

/-- The reader of `runClient`. -/
def runClientRecv (sessID : UInt16) (c : Channel) (src : Addr) (datagram : Bytes) :
    LinkQuality × Verdict :=
  match splitEnvelope datagram with
  | none => (c.quality, .ignored)
  | some (id, seq, body) =>
      if id ≠ sessID then (c.quality, .ignored) else receive A msgHelloAck c src seq body

/-- The loop of `runServer`. -/
def runServerRecv (sessID : UInt16) (c : Channel) (src : Addr) (datagram : Bytes) :
    LinkQuality × Verdict :=
  match splitEnvelope datagram with
  | none => (c.quality, .ignored)
  | some (id, seq, body) =>
      if id ≠ sessID then (c.quality, .ignored) else receive A msgHello c src seq body

/-- The loop of `runServerMulti`: whose datagram it is, and what becomes of it. -/
def runServerMultiRecv (states : UInt16 → Option Channel) (src : Addr) (datagram : Bytes) :
    Option (UInt16 × LinkQuality × Verdict) :=
  match splitEnvelope datagram with
  | none => none
  | some (id, seq, body) => (states id).map fun c => (id, receive A msgHello c src seq body)

/-! ## Sealed packets -/

/-- The first byte of a sealed body is that of its nonce. -/
theorem receive_sealed {tag : UInt8} {c : Channel} {sess : Session} (hc : c.current = some sess)
    (seq : UInt16) {nonce : Bytes} (plain : Bytes) (hn : nonce.length = nonceSize) :
    (receive A tag c sess.peer seq (sealBody A sess.key nonce plain)).2 = .session sess plain ↔
      nonce.head? ≠ some tag ∧ (c.quality.observe seq).2.2 = false := by
  have hopen := openBody_sealBody A sess.key plain hn
  cases nonce with
  | nil => cases hn
  | cons first rest =>
      rw [sealBody, List.cons_append] at hopen ⊢
      by_cases htag : first = tag
      · simp [receive, htag]
      · cases hb : (c.quality.observe seq).2.2 <;>
          simp [receive, htag, hc, hopen, hb]

/-- A packet sealed by the peer of the session and received from its address is handed to
`handleSessionPlain`, as it was, exactly when its nonce does not start with the byte the
loop takes for a handshake message and the packet is not judged banned: in the client's
loop, the server's, and the multi-client server's. -/
theorem sealed_handed_over_iff (sessID seq : UInt16) (c : Channel) {sess : Session}
    (hc : c.current = some sess) {nonce : Bytes} (hn : nonce.length = nonceSize) (plain : Bytes)
    (states : UInt16 → Option Channel) (hstates : states sessID = some c) :
    ((runClientRecv A sessID c sess.peer
          (buildEnvelope sessID seq (sealBody A sess.key nonce plain))).2 = .session sess plain ↔
        nonce.head? ≠ some msgHelloAck ∧ (c.quality.observe seq).2.2 = false) ∧
      ((runServerRecv A sessID c sess.peer
          (buildEnvelope sessID seq (sealBody A sess.key nonce plain))).2 = .session sess plain ↔
        nonce.head? ≠ some msgHello ∧ (c.quality.observe seq).2.2 = false) ∧
      ((∃ quality, runServerMultiRecv A states sess.peer
          (buildEnvelope sessID seq (sealBody A sess.key nonce plain))
            = some (sessID, quality, .session sess plain)) ↔
        nonce.head? ≠ some msgHello ∧ (c.quality.observe seq).2.2 = false) := by
  refine ⟨?_, ?_, ?_⟩
  · simpa [runClientRecv, splitEnvelope_build] using receive_sealed A hc seq plain hn
  · simpa [runServerRecv, splitEnvelope_build] using receive_sealed A hc seq plain hn
  · rw [← receive_sealed A hc seq plain hn]
    simp [runServerMultiRecv, splitEnvelope_build, hstates, Prod.ext_iff]

end Loops

/-! ## A keepalive under the zero key -/

def zeroKey : Bytes := List.replicate 32 0

def nonceFrom (first : UInt8) : Bytes := first :: List.replicate 11 0

/-- A keepalive that reports a clean link. -/
def keepalive : Bytes := [pktKeepalive, 100]

/-- What AES-256-GCM makes of the keepalive under the zero key, by nonce. -/
def gcmSamples : List (Bytes × Bytes) :=
  [(nonceFrom 0x00,
      [204, 195, 219, 2, 211, 172, 146, 51, 245, 160, 253, 98, 81, 130, 173, 240, 255, 95]),
    (nonceFrom 0xF0,
      [213, 42, 174, 104, 170, 50, 246, 198, 33, 44, 6, 129, 209, 240, 13, 232, 129, 39]),
    (nonceFrom 0xF1,
      [77, 47, 41, 47, 198, 24, 175, 172, 157, 48, 74, 149, 145, 104, 212, 226, 194, 227])]

def noTag : Bytes := List.replicate 16 0

/-- The samples, and elsewhere the plaintext with sixteen zeros. -/
def sampleAead : Aead where
  encrypt key nonce plain :=
    if key = zeroKey ∧ plain = keepalive then (gcmSamples.lookup nonce).getD (plain ++ noTag)
    else plain ++ noTag
  decrypt key nonce ct :=
    if key = zeroKey ∧ gcmSamples.lookup nonce = some ct then some keepalive
    else some (ct.take (ct.length - 16))
  decrypt_encrypt := by
    intro key nonce plain
    have htake : List.take ((plain ++ noTag).length - 16) (plain ++ noTag) = plain := by
      simp [noTag]
    -- no sample ends in sixteen zeros
    have hsample : gcmSamples.lookup nonce ≠ some (plain ++ noTag) := by
      intro h
      obtain ⟨l₁, l₂, hl, -⟩ := List.lookup_eq_some_iff.1 h
      have hends : ∀ s ∈ gcmSamples, s.2.drop (s.2.length - 16) ≠ noTag := by decide
      apply hends (nonce, plain ++ noTag) (by simp [hl])
      simp [noTag]
    by_cases hk : key = zeroKey ∧ plain = keepalive
    · simp only [if_pos hk]
      cases hl : gcmSamples.lookup nonce with
      | some ct => simp [hk.1, hk.2]
      | none => simpa using htake
    · simp only [if_neg hk]
      rw [if_neg (fun h => hsample h.2), htake]

def zeroSession : Session := ⟨zeroKey, "203.0.113.9:4000"⟩

def established : Channel := ⟨some zeroSession, newLinkQuality 0⟩

/-- The keepalive as the peer sends it, its nonce starting with a given byte. -/
def keepaliveFrom (first : UInt8) : Bytes :=
  buildEnvelope 7 1 (sealBody sampleAead zeroKey (nonceFrom first) keepalive)

/-- Nonces that start with the tag of a handshake message send the packet to the
handshake branch, in each of the loops. -/
theorem sealed_taken_for_handshake :
    (runServerRecv sampleAead 7 established zeroSession.peer (keepaliveFrom 0xF0)).2
        ≠ .session zeroSession keepalive ∧
      (runServerMultiRecv sampleAead (fun _ => some established) zeroSession.peer
          (keepaliveFrom 0xF0)).map (fun r => r.2.2) ≠ some (.session zeroSession keepalive) ∧
      (runClientRecv sampleAead 7 established zeroSession.peer (keepaliveFrom 0xF1)).2
        ≠ .session zeroSession keepalive := by
  decide +kernel

/-- Any other nonce brings it to `handleSessionPlain`. -/
theorem sealed_handed_over_zero :
    (runClientRecv sampleAead 7 established zeroSession.peer (keepaliveFrom 0)).2
        = .session zeroSession keepalive ∧
      (runServerRecv sampleAead 7 established zeroSession.peer (keepaliveFrom 0)).2
        = .session zeroSession keepalive ∧
      ∃ quality, runServerMultiRecv sampleAead (fun _ => some established) zeroSession.peer
          (keepaliveFrom 0) = some (7, quality, .session zeroSession keepalive) := by
  have hcurrent : established.current = some zeroSession := rfl
  have hnonce : (nonceFrom 0).length = nonceSize := rfl
  have h := sealed_handed_over_iff sampleAead 7 1 established hcurrent hnonce keepalive
    (fun _ => some established) rfl
  exact ⟨h.1.2 ⟨by decide, by decide +kernel⟩, h.2.1.2 ⟨by decide, by decide +kernel⟩,
    h.2.2.2 ⟨by decide, by decide +kernel⟩⟩

end Simorgh.Tunnel
