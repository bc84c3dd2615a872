import Simorgh.Lib.Run
import Simorgh.Tunnel.Handshake

/-!
# The multi-client server

`customers.go` and `multiserver.go`.  Three goroutines work on a customer's state:
the receive loop, the customer's sink reader and the ticker.  Each of them goes
through its iteration one access at a time — an atomic load or store, a region
under a lock, a send — and the others may come in between.  What it has left to do
is a list of accesses.

The receive loop serves one datagram after the other.  Here the datagrams of
different customers may overlap, which only adds runs.

* `sessID_injective` — `loadCustomers` accepts no two customers with one session id.
* `Served.step` — what an event does to the customer it belongs to.
* `runServerMulti` — the server: an event goes to the customer whose id it bears.
-/

namespace Simorgh.Tunnel

open Simorgh.Lib

/-! ## The customer list -/

/-- An entry of `CUSTOMERS_FILE`. -/
structure Entry where
  name : String
  password : String

/-- An entry of the customers file. -/
structure Customer where
  name : String
  password : String
  sessID : UInt16
deriving DecidableEq

/-- Why the customers file is refused. -/
inductive LoadError where
  | noCustomers
  /-- a `null` entry, which the loop dereferences -/
  | nilEntry
  | missingName
  | missingPassword (name : String)
  | duplicateName (name : String)
  | sameSessionID (name other : String)
deriving DecidableEq

/-- The text of an error, for a file at `path`. -/
def LoadError.message (path : String) : LoadError → String
  | .noCustomers => path ++ " contains no customers"
  | .nilEntry => "runtime error: invalid memory address or nil pointer dereference"
  | .missingName => "a customer entry is missing \"name\""
  | .missingPassword name => "customer " ++ name.quote ++ " is missing \"password\""
  | .duplicateName name => "duplicate customer name " ++ name.quote
  | .sameSessionID name other => "customers " ++ name.quote ++ " and " ++ other.quote ++
      " produce the same session id - change one of their passwords"

/-- `sessionIDFromPassword` -/
def sessionIDFromPassword (P : Primitives) (password : String) : UInt16 :=
  let h := P.sha256 (utf8 "simorgh-session-id|" ++ utf8 password)
  UInt16.ofNat (uint16 (h.getD 0 0) (h.getD 1 0))

/-- The loop of `loadCustomers`, with the names and session ids seen so far. -/
def loadEntries (P : Primitives) (seen : List Customer) :
    List (Option Entry) → Except LoadError (List Customer)
  | [] => .ok seen
  | none :: _ => .error .nilEntry
  | some e :: rest =>
      if e.name = "" then .error .missingName
      else if e.password = "" then .error (.missingPassword e.name)
      else if seen.any fun c => c.name = e.name then .error (.duplicateName e.name)
      else
        let sessID := sessionIDFromPassword P e.password
        match seen.find? fun c => c.sessID = sessID with
        | some other => .error (.sameSessionID e.name other.name)
        | none => loadEntries P (seen ++ [⟨e.name, e.password, sessID⟩]) rest

/-- `loadCustomers`, from the parsed file. -/
def loadCustomers (P : Primitives) (list : List (Option Entry)) :
    Except LoadError (List Customer) :=
  if list = [] then .error .noCustomers else loadEntries P [] list

theorem nodup_loadEntries {P : Primitives} {seen customers : List Customer}
    {list : List (Option Entry)} (hseen : (seen.map Customer.sessID).Nodup)
    (h : loadEntries P seen list = .ok customers) : (customers.map Customer.sessID).Nodup := by
  induction list generalizing seen with
  | nil =>
      cases h
      exact hseen
  | cons e rest ih =>
      cases e with
      | none => cases h
      | some e =>
          simp only [loadEntries] at h
          split at h
          · cases h
          split at h
          · cases h
          split at h
          · cases h
          split at h
          · cases h
          case h_2 hnew =>
            refine ih ?_ h
            rw [List.map_append, List.nodup_append]
            refine ⟨hseen, List.nodup_singleton _, ?_⟩
            rintro id hid _ hid' rfl
            obtain ⟨c, hc, rfl⟩ := List.mem_map.1 hid
            have hne := List.find?_eq_none.1 hnew c hc
            rw [List.map_singleton, List.mem_singleton] at hid'
            exact hne (decide_eq_true hid')

/-- The session ids of an accepted list tell its customers apart. -/
theorem sessID_injective {P : Primitives} {list : List (Option Entry)} {customers : List Customer}
    (h : loadCustomers P list = .ok customers) : (customers.map Customer.sessID).Nodup := by
  unfold loadCustomers at h
  split at h
  · cases h
  · exact @nodup_loadEntries P [] customers list List.nodup_nil h

/-! ## The state of a customer -/

/-- The settings the server reads. -/
structure Config where
  fecEnable : Bool
  fecGroup : Int
  banQuality : Int

/-- What is done to a sink. -/
inductive SinkOp where
  | write (frame : Bytes)
  | closeCurrent
deriving DecidableEq

/-- What the server keeps for a customer. -/
structure CustomerState where
  current : Option Session
  seqCounter : UInt32
  lastRecvQualityPct : Nat
  peerReportedQuality : Nat
  quality : LinkQuality
  fecEnc : Option FecEncoder
  fecDec : Option FecDecoder
  bytesIn : Nat
  bytesOut : Nat
  /-- what the customer's sink was told -/
  sink : List SinkOp
  /-- what was sent for the customer, and where -/
  sent : List (Addr × Bytes)

/-- A customer nobody has connected for. -/
def newCustomerState (cfg : Config) : CustomerState where
  current := none
  seqCounter := 0
  lastRecvQualityPct := 0
  peerReportedQuality := 0
  quality := newLinkQuality cfg.banQuality
  fecEnc := if cfg.fecEnable then some (newFECEncoder cfg.fecGroup) else none
  fecDec := if cfg.fecEnable then some newFECDecoder else none
  bytesIn := 0
  bytesOut := 0
  sink := []
  sent := []

namespace CustomerState

/-- `nextSeq` -/
def countSeq (s : CustomerState) : CustomerState := { s with seqCounter := s.seqCounter + 1 }

/-- The sequence number `nextSeq` returns. -/
def seq (s : CustomerState) : UInt16 := (s.seqCounter + 1).toUInt16

/-- `tr.Send` -/
def send (s : CustomerState) (dest : Addr) (envelope : Bytes) : CustomerState :=
  { s with sent := s.sent ++ [(dest, envelope)] }

end CustomerState

section Server

variable (A : Aead) (P : Primitives) (cfg : Config) (cust : Customer)

/-! ## The receive loop -/

/-- The accesses of an iteration of the receive loop that come after the packet is
judged. -/
inductive RecvOp where
  | storeSession (sess : Session)
  | dropSession
  | storeRecvQuality (pct : Nat)
  | storePeerQuality (pct : Nat)
  | closeSink
  /-- the decoder's part of `handlePlain` -/
  | decode (plain : Bytes) (now : Int)
  | writeFrame (frame : Bytes)
  | nextSeq (dest : Addr) (body : Bytes)
  | send (dest : Addr) (envelope : Bytes)
deriving DecidableEq

/-- `handleCustomerHello`, with the private key it generates. -/
def handleCustomerHello (src : Addr) (body priv : Bytes) : List RecvOp :=
  match answerHello P cust.password body priv with
  | none => []
  | some (clientPub, key) =>
      [.storeSession ⟨key, src⟩, .nextSeq src (buildHelloAck P cust.password clientPub priv)]

/-- `handleSessionPlain`, with the nonce of a pong.  The server has no link
statistics. -/
def handleSessionPlain (sess : Session) (plain nonce : Bytes) (now : Int) : List RecvOp :=
  match plain with
  | [] => []
  | kind :: rest =>
      if kind = pktPing then
        if rest.length < 8 then []
        else [.nextSeq sess.peer (sealBody A sess.key nonce (pktPong :: rest.take 8))]
      else if kind = pktPong then []
      else if kind = pktKeepalive then
        match rest with
        | pct :: _ => [.storePeerQuality pct.toNat]
        | [] => []
      else if kind = pktClose then [.closeSink]
      else [.decode plain now]

namespace CustomerState

/-- The loop up to `observe`.  Only the loop writes the session and the quality, so
nothing changes them before they are read. -/
def judge (s : CustomerState) (src : Addr) (seq : UInt16) (body priv nonce : Bytes) (now : Int) :
    CustomerState × List RecvOp :=
  match receive A msgHello ⟨s.current, s.quality⟩ src seq body with
  | (_, .ignored) => (s, [])
  | (_, .handshake body) => (s, handleCustomerHello P cust src body.tail priv)
  | (quality, .banned) =>
      ({ s with quality := quality, bytesIn := s.bytesIn + body.length },
        [.storeRecvQuality (s.quality.observe seq).2.1, .dropSession])
  | (quality, .session sess plain) =>
      ({ s with quality := quality, bytesIn := s.bytesIn + body.length },
        .storeRecvQuality (s.quality.observe seq).2.1 :: handleSessionPlain A sess plain nonce now)

/-- The state and the accesses of a packet that opens. -/
def judgeOpened (s : CustomerState) (sess : Session) (seq : UInt16) (body plain nonce : Bytes)
    (now : Int) : CustomerState × List RecvOp :=
  ({ s with quality := (s.quality.observe seq).1, bytesIn := s.bytesIn + body.length },
    .storeRecvQuality (s.quality.observe seq).2.1 ::
      if (s.quality.observe seq).2.2 then [.dropSession]
      else handleSessionPlain A sess plain nonce now)

/-- One access of the receive loop, and the ones that follow from it. -/
def recvOp (s : CustomerState) : RecvOp → CustomerState × List RecvOp
  | .storeSession sess => ({ s with current := some sess }, [])
  | .dropSession => ({ s with current := none }, [])
  | .storeRecvQuality pct => ({ s with lastRecvQualityPct := pct }, [])
  | .storePeerQuality pct => ({ s with peerReportedQuality := pct }, [])
  | .closeSink => ({ s with sink := s.sink ++ [.closeCurrent] }, [])
  | .decode plain now =>
      ({ s with fecDec := (handlePlain plain s.fecDec now).1 },
        (handlePlain plain s.fecDec now).2.toList.map .writeFrame)
  | .writeFrame frame => ({ s with sink := s.sink ++ [.write frame] }, [])
  | .nextSeq dest body => (s.countSeq, [.send dest (buildEnvelope cust.sessID s.seq body)])
  | .send dest envelope => (s.send dest envelope, [])

end CustomerState

variable {A P cust}

/-- A packet that opens under the current session, from its peer, is judged by its
sequence number. -/
theorem judge_of_open {s : CustomerState} {sess : Session} {seq : UInt16} {body plain : Bytes}
    (hc : s.current = some sess) (hb : body ≠ []) (ht : body.head? ≠ some msgHello)
    (ho : openBody A sess.key body = some plain) (priv nonce : Bytes) (now : Int) :
    s.judge A P cust sess.peer seq body priv nonce now
      = s.judgeOpened A sess seq body plain nonce now := by
  cases body with
  | nil => exact absurd rfl hb
  | cons first rest =>
      have hfirst : first ≠ msgHello := fun h => ht (congrArg some h)
      cases hban : (s.quality.observe seq).2.2 <;>
        simp [CustomerState.judge, receive, CustomerState.judgeOpened, hfirst, hc, ho, hban]

/-- What becomes of a datagram: nothing, a handshake, or a packet that opens under the
current session and comes from its peer. -/
theorem judge_cases (s : CustomerState) (src : Addr) (seq : UInt16) (body priv nonce : Bytes)
    (now : Int) :
    s.judge A P cust src seq body priv nonce now = (s, []) ∨
      s.judge A P cust src seq body priv nonce now
        = (s, handleCustomerHello P cust src body.tail priv) ∨
      ∃ sess plain, s.current = some sess ∧ sess.peer = src ∧
        openBody A sess.key body = some plain ∧
        s.judge A P cust src seq body priv nonce now
          = s.judgeOpened A sess seq body plain nonce now := by
  cases body with
  | nil => exact Or.inl rfl
  | cons first rest =>
      by_cases hfirst : first = msgHello
      · refine Or.inr (Or.inl ?_)
        simp [CustomerState.judge, receive, hfirst]
      · cases hc : s.current with
        | none =>
            refine Or.inl ?_
            simp [CustomerState.judge, receive, hfirst, hc]
        | some sess =>
            by_cases hsrc : src = sess.peer
            · cases ho : openBody A sess.key (first :: rest) with
              | none =>
                  refine Or.inl ?_
                  simp [CustomerState.judge, receive, hfirst, hc, hsrc, ho]
              | some plain =>
                  refine Or.inr (Or.inr ⟨sess, plain, rfl, hsrc.symm, ho, ?_⟩)
                  rw [hsrc]
                  exact judge_of_open hc (List.cons_ne_nil _ _)
                    (fun h => hfirst (Option.some.inj h)) ho priv nonce now
            · refine Or.inl ?_
              simp [CustomerState.judge, receive, hfirst, hc, hsrc]

variable (A P cust)

/-! ## The sink reader and the ticker -/

/-- The accesses of `sendData`, `sendClose` and `sendKeepalive`, and those of the
ticker. -/
inductive OutOp where
  | countOut (n : Nat)
  /-- `sendData` loads the session -/
  | loadForData (frame nonce parityNonce : Bytes)
  | add (sess : Session) (frame nonce parityNonce : Bytes)
  /-- the group size is read for the header -/
  | stamp (sess : Session) (groupID : UInt32) (index : Nat) (complete : Bool)
      (frame nonce parityNonce : Bytes)
  | flush (sess : Session) (nonce : Bytes)
  | loadForClose (nonce : Bytes)
  | loadRecvQuality (nonce : Bytes)
  | loadForKeepalive (pct : Nat) (nonce : Bytes)
  | loadPeerQuality
  | setGroupSize (n : Int)
  | gc (now : Int)
  | nextSeq (dest : Addr) (body : Bytes)
  | send (dest : Addr) (envelope : Bytes)
deriving DecidableEq

namespace CustomerState

/-- One access of the sink reader or of the ticker, and the ones that follow from it. -/
def outOp (s : CustomerState) : OutOp → CustomerState × List OutOp
  | .countOut n => ({ s with bytesOut := s.bytesOut + n }, [])
  | .loadForData frame nonce parityNonce =>
      match s.current, s.fecEnc with
      | none, _ => (s, [])
      | some sess, some _ => (s, [.add sess frame nonce parityNonce])
      | some sess, none =>
          (s, [.nextSeq sess.peer (sealBody A sess.key nonce (Packet.data 0 0 0 frame).plain)])
  | .add sess frame nonce parityNonce =>
      match s.fecEnc with
      | none => (s, [])
      | some enc =>
          match enc.add frame with
          | (enc, groupID, index, complete) =>
              ({ s with fecEnc := some enc },
                [.stamp sess groupID index complete frame nonce parityNonce])
  | .stamp sess groupID index complete frame nonce parityNonce =>
      match s.fecEnc with
      | none => (s, [])
      | some enc =>
          let plain := (Packet.data groupID index enc.groupSize.1 frame).plain
          (s, .nextSeq sess.peer (sealBody A sess.key nonce plain) ::
            if complete then [.flush sess parityNonce] else [])
  | .flush sess nonce =>
      match s.fecEnc with
      | none => (s, [])
      | some enc =>
          match enc.flushParity with
          | (enc, groupID, groupSize, parity) =>
              ({ s with fecEnc := some enc },
                [.nextSeq sess.peer
                  (sealBody A sess.key nonce (Packet.parity groupID groupSize parity).plain)])
  | .loadForClose nonce =>
      match s.current with
      | none => (s, [])
      | some sess => (s, [.nextSeq sess.peer (sealBody A sess.key nonce [pktClose])])
  | .loadRecvQuality nonce => (s, [.loadForKeepalive s.lastRecvQualityPct nonce])
  | .loadForKeepalive pct nonce =>
      match s.current with
      | none => (s, [])
      | some sess =>
          (s, [.nextSeq sess.peer
            (sealBody A sess.key nonce [pktKeepalive, UInt8.ofNat (min pct 100)])])
  | .loadPeerQuality =>
      match s.fecEnc with
      | none => (s, [])
      | some _ => (s, [.setGroupSize (adaptiveGroupSize cfg.fecGroup s.peerReportedQuality)])
  | .setGroupSize n => ({ s with fecEnc := s.fecEnc.map fun enc => enc.setGroupSize n }, [])
  | .gc now => ({ s with fecDec := s.fecDec.map fun d => d.gc (5 * 10 ^ 9) now }, [])
  | .nextSeq dest body => (s.countSeq, [.send dest (buildEnvelope cust.sessID s.seq body)])
  | .send dest envelope => (s.send dest envelope, [])

end CustomerState

/-! ## A customer and its goroutines -/

/-- A customer's state, the datagram the receive loop holds for it, and what each
goroutine has left to do. -/
structure Served where
  state : CustomerState
  handling : Option (Addr × Bytes) := none
  recv : List RecvOp := []
  reader : List OutOp := []
  ticker : List OutOp := []

/-- The goroutines of a customer. -/
inductive Thread where
  | recv
  | reader
  | ticker
deriving DecidableEq

/-- What happens to one customer. -/
inductive CustomerEvent where
  /-- the receive loop takes a datagram of the customer -/
  | packet (src : Addr) (seq : UInt16) (body priv nonce : Bytes) (now : Int)
  /-- `ReadFrame` returns a frame -/
  | frame (frame nonce parityNonce : Bytes)
  /-- `ReadFrame` fails -/
  | readError (nonce : Bytes)
  /-- the ticker comes to the customer -/
  | tick (nonce : Bytes) (now : Int)
  /-- a goroutine makes its next access -/
  | turn (thread : Thread)
deriving DecidableEq

namespace Served

/-- A goroutine begins its next iteration when it has nothing left to do. -/
def step (l : Served) : CustomerEvent → Served
  | .packet src seq body priv nonce now =>
      if l.recv = [] then
        match l.state.judge A P cust src seq body priv nonce now with
        | (state, ops) => { l with state := state, handling := some (src, body), recv := ops }
      else l
  | .frame frame nonce parityNonce =>
      if l.reader = [] then
        { l with reader := [.countOut frame.length, .loadForData frame nonce parityNonce] }
      else l
  | .readError nonce => if l.reader = [] then { l with reader := [.loadForClose nonce] } else l
  | .tick nonce now =>
      if l.ticker = [] then
        { l with ticker := [.loadRecvQuality nonce, .loadPeerQuality, .gc now] }
      else l
  | .turn .recv =>
      match l.recv with
      | [] => l
      | op :: rest =>
          match l.state.recvOp cust op with
          | (state, ops) => { l with state := state, recv := ops ++ rest }
  | .turn .reader =>
      match l.reader with
      | [] => l
      | op :: rest =>
          match l.state.outOp A cfg cust op with
          | (state, ops) => { l with state := state, reader := ops ++ rest }
  | .turn .ticker =>
      match l.ticker with
      | [] => l
      | op :: rest =>
          match l.state.outOp A cfg cust op with
          | (state, ops) => { l with state := state, ticker := ops ++ rest }

end Served

/-! ## The server -/

/-- What happens to the server: a datagram arrives, or something happens to the customer
with a session id. -/
inductive ServerEvent where
  | datagram (src : Addr) (datagram priv nonce : Bytes) (now : Int)
  | frame (sessID : UInt16) (frame nonce parityNonce : Bytes)
  | readError (sessID : UInt16) (nonce : Bytes)
  | tick (sessID : UInt16) (nonce : Bytes) (now : Int)
  | turn (sessID : UInt16) (thread : Thread)
deriving DecidableEq

/-- Whose event it is.  A datagram of less than four bytes is nobody's. -/
def ServerEvent.route : ServerEvent → Option (UInt16 × CustomerEvent)
  | .datagram src bytes priv nonce now =>
      (splitEnvelope bytes).map fun (sessID, seq, body) =>
        (sessID, .packet src seq body priv nonce now)
  | .frame sessID bytes nonce parityNonce => some (sessID, .frame bytes nonce parityNonce)
  | .readError sessID nonce => some (sessID, .readError nonce)
  | .tick sessID nonce now => some (sessID, .tick nonce now)
  | .turn sessID thread => some (sessID, .turn thread)

/-- The map `states`, each customer with its goroutines. -/
abbrev ServerState := UInt16 → Option (Customer × Served)

/-- What an event does to the customer it belongs to. -/
def serve (x : Customer × Served) (e : CustomerEvent) : Customer × Served :=
  (x.1, x.2.step A P cfg x.1 e)

/-- The goroutines of `runServerMulti`: an event of no customer is ignored. -/
def runServerMulti (s : ServerState) (e : ServerEvent) : ServerState :=
  match e.route with
  | none => s
  | some a => stepAt (fun _ => serve A P cfg) s a

end Server

/-- A customer nobody has connected to yet. -/
def Served.start (cfg : Config) : Served := { state := newCustomerState cfg }

/-- The map with one more customer. -/
def addCustomer (cfg : Config) (states : ServerState) (c : Customer) : ServerState :=
  fun id => if c.sessID = id then some (c, Served.start cfg) else states id

/-- The map as the loop over the customers fills it. -/
def startServer (cfg : Config) (customers : List Customer) : ServerState :=
  customers.foldl (addCustomer cfg) fun _ => none

theorem foldl_addCustomer (cfg : Config) {later : List Customer} {id : UInt16}
    (h : id ∉ later.map Customer.sessID) (states : ServerState) :
    later.foldl (addCustomer cfg) states id = states id := by
  induction later generalizing states with
  | nil => rfl
  | cons c later ih =>
      rw [List.map_cons, List.mem_cons, not_or] at h
      rw [List.foldl_cons, ih h.2, addCustomer, if_neg (Ne.symm h.1)]

/-- Every customer of an accepted list is found under its session id. -/
theorem startServer_sessID (cfg : Config) {customers : List Customer}
    (h : (customers.map Customer.sessID).Nodup) {c : Customer} (hc : c ∈ customers) :
    startServer cfg customers c.sessID = some (c, Served.start cfg) := by
  obtain ⟨pre, later, rfl⟩ := List.append_of_mem hc
  rw [List.map_append, List.map_cons, List.nodup_append, List.nodup_cons] at h
  rw [startServer, List.foldl_append, List.foldl_cons, foldl_addCustomer cfg h.2.1.1,
    addCustomer, if_pos rfl]

end Simorgh.Tunnel
