import Mathlib.Data.List.Sort
import Mathlib.Data.String.Basic
import Simorgh.Lib.Table
import Simorgh.Vpn.Routing

/-!
# GRE inbounds as the firewall sees them

A GRE peer does not authenticate.  What the other tunnels get from their handshake
the firewall has to do: a netdev may only source the addresses it was given, and an
account that is off may source none.

* `Server` — a tunnel inbound, with what the firewall and the GRE service read of it.
* `nftView` — which addresses each netdev of an inbound may source, and which accounts
  are off.
* `mergeGreViews` — the same for all inbounds, a set for each netdev.
-/

namespace Simorgh.Vpn.Nft

open Simorgh.Lib Simorgh.Panel Simorgh.Vpn Simorgh.Vpn.Routing

/-! ## Inbounds -/

/-- The router of an account. -/
structure GrePeer where
  /-- The public address of the router, without blanks.  A dynamic peer has none. -/
  peerIp : Option String
  /-- `net.ParseIP` takes it for an IPv4 address. -/
  parses : Bool := true
  deriving DecidableEq

/-- A client of a GRE inbound. -/
structure GreClient where
  email : String
  enable : Bool := true
  slot : Option ℤ := none
  peers : List GrePeer := []
  deriving DecidableEq

/-- The settings of a tunnel inbound of any protocol. -/
structure Settings where
  ipRanges : List PostedRange := []
  /-- the single range of old settings, if it is not empty -/
  ipRange : Option PostedRange := none
  userLimit : Option ℤ := none
  udp : Bool := true
  tcp : Bool := true
  clientToClient : Bool := false
  crossInbound : Bool := false
  ipsecEnable : Bool := false
  fouEnable : Bool := false
  mtu : ℤ := 0
  clients : List GreClient := []

/-- An inbound of the table. -/
structure Server where
  id : ℕ
  protocol : Protocol
  enable : Bool := true
  /-- `Listen`, if it is an IPv4 address other than 0.0.0.0 -/
  listen : Option String := none
  /-- what `parseSettings` gives: `none` for settings that do not decode -/
  settings : Option Settings

/-- What the panel reads to build its rules. -/
structure Host where
  servers : Table Server.id
  /-- the emails whose traffic row is off -/
  disabled : List String := []
  primaryV4Addr : Option String := none

/-- `localIPFor`. -/
def Host.localIPFor (h : Host) (s : Server) : Option String := s.listen <|> h.primaryV4Addr

/-- The inbound, as the places that compute addresses see it. -/
def Server.routed (s : Server) (o : Settings) : Routing.Inbound where
  id := s.id
  protocol := s.protocol
  enable := s.enable
  ipRanges := o.ipRanges
  ipRange := o.ipRange
  userLimit := o.userLimit
  udp := o.udp
  tcp := o.tcp
  clients := []

/-! ## Names of netdevs -/

/-- Hexadecimal digits, with leading zeros. -/
def hexDigits (width n : ℕ) : String :=
  String.ofList ((List.range width).reverse.map fun i => (n / 16 ^ i % 16).digitChar)

/-- `fnv.New32a`, of an ASCII text. -/
def fnv32a (s : String) : UInt32 :=
  s.toList.foldl (fun h c => (h ^^^ c.toNat.toUInt32) * 16777619) 2166136261

/-- `greP2pName`. -/
def greP2pName (inboundId slot peerIdx : ℕ) : String :=
  let name := "gre" ++ toString inboundId ++ "_" ++ toString slot ++ "_" ++ toString peerIdx
  -- a netdev's name has at most 15 characters
  if name.length ≤ 15 then name else "gre" ++ hexDigits 8 (fnv32a name).toNat

/-- `greCatName`. -/
def greCatName (localIP : String) : String := "grecat" ++ hexDigits 4 ((fnv32a localIP).toNat % 2 ^ 16)

/-- The two kinds of names differ. -/
theorem greP2pName_ne_greCatName (inboundId slot peerIdx : ℕ) (localIP : String) :
    greP2pName inboundId slot peerIdx ≠ greCatName localIP := by
  intro heq
  rw [greP2pName] at heq
  split at heq
  · -- the fourth letter of one is a digit
    have hfourth : (greCatName localIP).toList[3]? = some 'c' := by
      simp [greCatName]
    rw [← heq] at hfourth
    cases hdigits : Nat.toDigits 10 inboundId with
    | nil => simp at hdigits
    | cons x xs =>
        have hx : x = 'c' := by
          simpa [hdigits] using hfourth
        have hdigit : x.isDigit = true :=
          Nat.isDigit_of_mem_toDigits (by decide : 0 < 10) (by decide) (by rw [hdigits]; exact List.mem_cons_self ..)
        rw [hx] at hdigit
        exact absurd hdigit (by decide)
  · -- the sixth letter of the other is no hexadecimal digit
    have hsixth : (greCatName localIP).toList[5]? = some 't' := by
      simp [greCatName]
    rw [← heq] at hsixth
    simp [hexDigits] at hsixth

/-! ## Views -/

/-- The table as packets see it. -/
structure GreNftView where
  /-- The entries of the map, by netdev.  A netdev with several entries has the addresses
  of all of them. -/
  allowed : List (String × List Addr) := []
  blocked : List Route := []

/-- The slot, stored or counted. -/
def GreClient.slotAt (c : GreClient) (n : ℕ) : ℕ := (slotOr c.slot n).toNat

/-- The account is switched off, or its traffic row is. -/
def GreClient.off (disabled : List String) (c : GreClient) : Bool := !c.enable || decide (c.email ∈ disabled)

/-- `greAccountCIDR`. -/
def greAccountCIDR (s : Server) (o : Settings) (slot : ℕ) : Option Route :=
  (gatewayBlock .gre (s.routed o).vpn slot).map fun b => ⟨b.1, b.2⟩

/-- `grePeerIPs`. -/
def grePeerIPs (s : Server) (o : Settings) (slot : ℕ) : List Addr :=
  gatewayDeviceIPs .gre (s.routed o).vpn slot

/-- The peers of an account that have an address, each with its netdev and its place. -/
def peerDevices (s : Server) (o : Settings) (cat : String) (slot : ℕ) (c : GreClient) :
    List (GrePeer × String × Addr) :=
  (c.peers.zip (grePeerIPs s o slot)).zipIdx.map fun p =>
    (p.1.1, (if p.1.1.peerIp.isSome then greP2pName s.id slot p.2 else cat), p.1.2)

/-- `NftView`. -/
def nftView (h : Host) (s : Server) (o : Settings) : GreNftView :=
  match h.localIPFor s with
  | none => {}
  | some localIP =>
      let cat := greCatName localIP
      let clients := o.clients.zipIdx.filter fun c => decide (c.1.email ≠ "")
      { allowed := ((clients.filter fun c => !c.1.off h.disabled).flatMap fun c =>
            (peerDevices s o cat (c.1.slotAt c.2) c.1).map fun d => (d.2.1, [d.2.2])) ++
          -- the catch-all is there even when it has no peers
          [(cat, [])]
        blocked := (clients.filter fun c => c.1.off h.disabled).flatMap fun c =>
          (greAccountCIDR s o (c.1.slotAt c.2)).toList }

/-- An address with its dots. -/
def addrText (a : Addr) : String :=
  toString a.subnet.a ++ "." ++ toString a.subnet.b ++ "." ++ toString a.subnet.c ++ "." ++ toString a.host

/-- A route with its prefix length. -/
def routeText (r : Route) : String := addrText r.addr ++ "/" ++ toString r.prefixLen

/-- `mergeGreViews`: the netdevs, the addresses of each, and the accounts that are off. -/
def mergeGreViews (views : List GreNftView) : List String × (String → List Addr) × List Route :=
  let entries := views.flatMap (·.allowed)
  ((entries.map (·.1)).eraseDups.insertionSort (· ≤ ·),
    fun iface => ((entries.filter fun e => decide (e.1 = iface)).flatMap (·.2)).eraseDups.insertionSort
      fun a b => addrText a ≤ addrText b,
    (views.flatMap (·.blocked)).insertionSort fun a b => routeText a ≤ routeText b)

/-- The inbounds of a protocol that are enabled, in the order of the table. -/
def Host.enabledOf (h : Host) (p : Protocol) : List Server :=
  h.servers.rows.filter fun s => decide (s.protocol = p) && s.enable

/-- The enabled inbounds of a protocol whose settings decode. -/
def Host.decodedOf (h : Host) (p : Protocol) : List (Server × Settings) :=
  (h.enabledOf p).filterMap fun s => s.settings.map (s, ·)

/-- The view of each GRE inbound. -/
def Host.greViews (h : Host) : List GreNftView := (h.decodedOf .gre).map fun s => nftView h s.1 s.2

/-- The guarded netdevs. -/
def Host.greIfaces (h : Host) : List String := (mergeGreViews h.greViews).1

/-- The sources of a netdev. -/
def Host.greAllowed (h : Host) (iface : String) : List Addr := (mergeGreViews h.greViews).2.1 iface

/-- The routes that are dropped. -/
def Host.greBlocked (h : Host) : List Route := (mergeGreViews h.greViews).2.2

theorem mem_decodedOf {h : Host} {p : Protocol} {s : Server} {o : Settings} :
    (s, o) ∈ h.decodedOf p ↔ s ∈ h.servers.rows ∧ s.protocol = p ∧ s.enable = true ∧ s.settings = some o := by
  simp only [Host.decodedOf, Host.enabledOf, List.mem_filterMap, List.mem_filter, Bool.and_eq_true,
    decide_eq_true_eq, Option.map_eq_some_iff, Prod.mk.injEq]
  constructor
  · rintro ⟨s', ⟨hs, hp, he⟩, o', ho, rfl, rfl⟩
    exact ⟨hs, hp, he, ho⟩
  · rintro ⟨hs, hp, he, ho⟩
    exact ⟨s, ⟨hs, hp, he⟩, o, ho, rfl, rfl⟩

theorem mem_greBlocked {h : Host} {r : Route} : r ∈ h.greBlocked ↔ ∃ v ∈ h.greViews, r ∈ v.blocked := by
  rw [Host.greBlocked, mergeGreViews, List.mem_insertionSort, List.mem_flatMap]

/-- The route of an account that is off is blocked. -/
theorem blocked_of_off {h : Host} {s : Server} {o : Settings} (hs : (s, o) ∈ h.decodedOf .gre)
    (hlocal : (h.localIPFor s).isSome = true) {n : ℕ} {c : GreClient} (hc : o.clients[n]? = some c)
    (hemail : c.email ≠ "") (hoff : c.off h.disabled = true) {r : Route}
    (hr : greAccountCIDR s o (c.slotAt n) = some r) : r ∈ h.greBlocked := by
  refine mem_greBlocked.2 ⟨nftView h s o, List.mem_map.2 ⟨(s, o), hs, rfl⟩, ?_⟩
  obtain ⟨localIP, hlocal⟩ := Option.isSome_iff_exists.1 hlocal
  rw [nftView, hlocal]
  refine List.mem_flatMap.2 ⟨(c, n), ?_, ?_⟩
  · simp only [List.mem_filter, decide_eq_true_eq]
    exact ⟨⟨List.mem_zipIdx_iff_getElem?.2 hc, hemail⟩, hoff⟩
  · rw [hr]
    exact List.mem_singleton_self r

end Simorgh.Vpn.Nft
