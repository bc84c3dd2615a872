import Simorgh.Tunnel.Receive

/-!
# Handshake messages

`handshake.go` over its primitives: X25519, HMAC-SHA256 and SHA-256 are given by
the laws the code relies on.  Hello is the client's public key and its MAC, the
ack is the server's public key and a MAC over both.

* `parseSignedKey` — either message, read and checked.
* `session_keys_agree` — the two ends of an exchange derive the same key.
-/

namespace Simorgh.Tunnel

open Simorgh.Lib

/-- The lengths of a key and of a code. -/
def x25519KeyLen : Nat := 32
def hmacLen : Nat := 32

/-- The primitives, by what the code relies on. -/
structure Primitives where
  sha256 : Bytes → Bytes
  hmac : Bytes → Bytes → Bytes
  /-- the public key of a private one -/
  publicKey : Bytes → Bytes
  /-- fails for a peer key of low order -/
  ecdh : Bytes → Bytes → Option Bytes
  hmac_length : ∀ key message, (hmac key message).length = hmacLen
  publicKey_length : ∀ priv, (publicKey priv).length = x25519KeyLen
  ecdh_comm : ∀ a b, ecdh a (publicKey b) = ecdh b (publicKey a)

/-- The bytes of a text. -/
def utf8 (s : String) : Bytes := s.toUTF8.data.toList

variable (P : Primitives)

/-- The key of the handshake's MAC. -/
def handshakeMACKey (password : String) : Bytes :=
  P.sha256 (utf8 "simorgh-handshake|" ++ utf8 password)

/-- `hmacOf`: the parts are written one after the other. -/
def hmacOf (key : Bytes) (parts : List Bytes) : Bytes := P.hmac key parts.flatten

/-- A public key and the MAC over it and what it is bound to. -/
def signedKey (password : String) (priv : Bytes) (boundTo : List Bytes) : Bytes :=
  P.publicKey priv ++ hmacOf P (handshakeMACKey P password) (P.publicKey priv :: boundTo)

/-- The public key of a message whose MAC covers it and what it is to be bound to. -/
def parseSignedKey (password : String) (boundTo : List Bytes) (body : Bytes) : Option Bytes :=
  if body.length ≠ x25519KeyLen + hmacLen then none
  else if body.drop x25519KeyLen
      ≠ hmacOf P (handshakeMACKey P password) (body.take x25519KeyLen :: boundTo) then none
  else some (body.take x25519KeyLen)

/-- `buildHello`, with the private key it generates. -/
def buildHello (password : String) (priv : Bytes) : Bytes :=
  msgHello :: signedKey P password priv []

/-- `parseHello` -/
def parseHello (password : String) (body : Bytes) : Option Bytes :=
  parseSignedKey P password [] body

/-- `buildHelloAck`, with the private key it generates. -/
def buildHelloAck (password : String) (clientPub priv : Bytes) : Bytes :=
  msgHelloAck :: signedKey P password priv [clientPub]

/-- `parseHelloAck` -/
def parseHelloAck (password : String) (clientPub body : Bytes) : Option Bytes :=
  parseSignedKey P password [clientPub] body

/-- `deriveSessionKey` -/
def deriveSessionKey (shared clientPub serverPub : Bytes) : Bytes :=
  P.sha256 (utf8 "simorgh-session-key|" ++ shared ++
    if clientPub < serverPub then clientPub ++ serverPub else serverPub ++ clientPub)

/-- The server's side of an exchange: the client key it accepts and the session key.
`body` is the message without its tag. -/
def answerHello (password : String) (body priv : Bytes) : Option (Bytes × Bytes) :=
  (parseHello P password body).bind fun clientPub =>
    (P.ecdh priv clientPub).map fun shared =>
      (clientPub, deriveSessionKey P shared clientPub (P.publicKey priv))

/-- The client's side, as `completeHandshake` has it: the server key it accepts and the
session key. -/
def acceptAck (password : String) (priv body : Bytes) : Option (Bytes × Bytes) :=
  (parseHelloAck P password (P.publicKey priv) body).bind fun serverPub =>
    (P.ecdh priv serverPub).map fun shared =>
      (serverPub, deriveSessionKey P shared (P.publicKey priv) serverPub)

variable {P}

/-- An accepted key has 32 bytes. -/
theorem length_of_parseSignedKey {password : String} {boundTo : List Bytes} {body pub : Bytes}
    (h : parseSignedKey P password boundTo body = some pub) : pub.length = x25519KeyLen := by
  unfold parseSignedKey at h
  split at h
  · cases h
  case isFalse hlen =>
    split at h
    · cases h
    · cases h
      simp only [ne_eq, Decidable.not_not] at hlen
      rw [List.length_take, hlen]
      rfl

/-- What the server makes of an accepted Hello. -/
theorem answerHello_eq_some {password : String} {body priv clientPub key : Bytes}
    (h : answerHello P password body priv = some (clientPub, key)) :
    parseHello P password body = some clientPub ∧
      ∃ shared, P.ecdh priv clientPub = some shared ∧
        key = deriveSessionKey P shared clientPub (P.publicKey priv) := by
  obtain ⟨pub, hparse, hrest⟩ := Option.bind_eq_some_iff.1 h
  obtain ⟨shared, hshared, heq⟩ := Option.map_eq_some_iff.1 hrest
  cases heq
  exact ⟨hparse, shared, hshared, rfl⟩

theorem acceptAck_eq_some {password : String} {priv body serverPub key : Bytes}
    (h : acceptAck P password priv body = some (serverPub, key)) :
    parseHelloAck P password (P.publicKey priv) body = some serverPub ∧
      ∃ shared, P.ecdh priv serverPub = some shared ∧
        key = deriveSessionKey P shared (P.publicKey priv) serverPub := by
  obtain ⟨pub, hparse, hrest⟩ := Option.bind_eq_some_iff.1 h
  obtain ⟨shared, hshared, heq⟩ := Option.map_eq_some_iff.1 hrest
  cases heq
  exact ⟨hparse, shared, hshared, rfl⟩

/-- A client and a server that hold each other's public keys derive one key. -/
theorem session_keys_agree {clientPriv serverPriv shared shared' : Bytes}
    (hc : P.ecdh clientPriv (P.publicKey serverPriv) = some shared)
    (hs : P.ecdh serverPriv (P.publicKey clientPriv) = some shared') :
    deriveSessionKey P shared (P.publicKey clientPriv) (P.publicKey serverPriv)
      = deriveSessionKey P shared' (P.publicKey clientPriv) (P.publicKey serverPriv) := by
  rw [P.ecdh_comm, hs] at hc
  cases hc
  rfl

/-! ## Primitives that can be evaluated -/

/-- Thirty-two rolling checksums of a message. -/
def checksums (message : Bytes) : Bytes :=
  (List.range 32).map fun i =>
    UInt8.ofNat (message.foldl (fun acc b => (acc * (i + 2) + b.toNat + 1) % 251) 0)

/-- The first 32 bytes, padded. -/
def pad32 (b : Bytes) : Bytes := (b ++ List.replicate 32 0).take 32

/-- The laws hold of checksums for the hashes and of bytewise sums for the exchange. -/
def samplePrimitives : Primitives where
  sha256 := checksums
  hmac key message := checksums (key ++ message)
  publicKey := pad32
  ecdh a b := some (List.zipWith (· + ·) (pad32 a) b)
  hmac_length := by simp [checksums, hmacLen]
  publicKey_length := by simp [pad32, x25519KeyLen]
  ecdh_comm := by
    intro a b
    rw [List.zipWith_comm_of_comm]
    exact fun x y => UInt8.add_comm x y

end Simorgh.Tunnel
