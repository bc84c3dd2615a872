import Mathlib.Data.Multiset.Basic
import Simorgh.Vpn.Stable

/-!
# WireGuard peers and the configurations handed out

An inbound's accounts have devices, each with its keys and its address.  The panel brings
the kernel's interface to one peer for every device of an account that is on, by the
difference to the peers it finds there; and it hands out configurations made of the same
settings.

* `buildPeers`, `peerOps`, `Device.configure` — the peers that are wanted, the difference,
  and what the kernel makes of it.
* `renderClientConfigs` — what is handed out.
* `Matches` — the interface has a peer for every device, and a configuration is that of a
  peer.
* `wg_matches_iff` — it does, exactly when the keys of the settings belong together, no peer
  that stays has another preshared key, and no address is taken away.
* `preshared_key_stays_off` — switching preshared keys on leaves the peers without them.
-/

namespace Simorgh.Vpn.WgPeers

open Simorgh.Lib Simorgh.Panel Simorgh.Vpn

/-! ## Settings -/

/-- Keys and their texts. -/
structure KeyRing (K : Type) where
  /-- `wgtypes.ParseKey`. -/
  parse : String → Option K
  text : K → String
  publicKey : K → K
  parse_text : ∀ k, parse (text k) = some k
  trimSpace_text : ∀ k, trimSpace (text k) ≠ ""

/-- The keys of a device. -/
structure WgcDevice where
  privKey : String := ""
  pubKey : String := ""
  psk : String := ""
  deriving DecidableEq

/-- A client with its devices. -/
structure WgcClient where
  email : String
  enable : Bool := true
  privKey : String := ""
  pubKey : String := ""
  psk : String := ""
  devices : List WgcDevice := []
  slot : Option ℤ := none

/-- The devices; an account from before there were several has its one key. -/
def WgcClient.deviceList (c : WgcClient) : List WgcDevice :=
  if c.devices ≠ [] then c.devices
  else if trimSpace c.pubKey ≠ "" then [⟨c.privKey, c.pubKey, c.psk⟩] else []

/-- An endpoint to be named instead. -/
structure WgcExternalProxy where
  dest : String
  port : ℤ := 0
  remark : String := ""

/-- An inbound with its settings; `vpn` are the id, the limit and the ranges. -/
structure WgcInbound where
  vpn : VpnInbound
  listen : String := ""
  port : ℤ
  serverPrivKey : String := ""
  serverPubKey : String := ""
  pskEnable : Bool := false
  dns1 : String := ""
  dns2 : String := ""
  mtu : ℤ := 0
  externalProxy : List WgcExternalProxy := []
  clients : List WgcClient

/-- The devices of an account that have an address. -/
def seats (i : WgcInbound) (c : WgcClient) (n : ℕ) : List (WgcDevice × Addr) :=
  c.deviceList.zip (wgcDeviceIPs i.vpn (slotOr c.slot n).toNat)

/-- The account gets peers. -/
def active (disabled : List String) (c : WgcClient) : Bool :=
  decide (c.email ≠ "") && c.enable && decide (c.email ∉ disabled)

/-! ## The kernel's interface -/

/-- A network a peer may use. -/
inductive Net where
  | host (a : Addr)
  | other (cidr : String)
  deriving DecidableEq

/-- A peer of the kernel's device. -/
structure Peer (K : Type) where
  key : K
  psk : Option K := none
  allowedIPs : List Net := []
  deriving DecidableEq

/-- One peer of a configuration.  Without a preshared key the one the peer has stays. -/
structure PeerConfig (K : Type) where
  publicKey : K
  remove : Bool := false
  presharedKey : Option K := none
  allowedIPs : List Net := []
  deriving DecidableEq

section

variable {K : Type} [DecidableEq K]

/-- The kernel's WireGuard device. -/
structure Device (K : Type) [DecidableEq K] where
  publicKey : Option K
  listenPort : ℤ
  peers : Table (Peer.key (K := K))

/-- The peer without the addresses another one has been given. -/
def Peer.yield (nets : List Net) (p : Peer K) : Peer K :=
  { p with allowedIPs := p.allowedIPs.filter fun n => decide (n ∉ nets) }

/-- One peer of a configuration is put to work, with its addresses replaced.  An address
belongs to one peer. -/
def applyPeer (peers : Table (Peer.key (K := K))) (pc : PeerConfig K) : Table (Peer.key (K := K)) :=
  if pc.remove then peers.erase pc.publicKey
  else
    (peers.updateWhere (fun _ => true) (Peer.yield pc.allowedIPs) fun _ => rfl).put {
      key := pc.publicKey
      psk := pc.presharedKey <|> (peers.find? pc.publicKey).bind (·.psk)
      allowedIPs := pc.allowedIPs }

/-- What is written to the device. -/
structure Config (K : Type) where
  privateKey : Option K
  listenPort : Option ℤ
  peers : List (PeerConfig K)

/-- The device is configured. -/
def Device.configure (ring : KeyRing K) (dev : Device K) (cfg : Config K) : Device K where
  publicKey := (cfg.privateKey.map ring.publicKey) <|> dev.publicKey
  listenPort := cfg.listenPort.getD dev.listenPort
  peers := cfg.peers.foldl applyPeer dev.peers

/-! ## The panel -/

/-- The preshared key that is wanted of a device. -/
def wantedPsk (ring : KeyRing K) (i : WgcInbound) (dev : WgcDevice) : Option K :=
  if i.pskEnable = true ∧ trimSpace dev.psk ≠ "" then ring.parse dev.psk else none

/-- The key a device is known by. -/
def publicKeyOf (ring : KeyRing K) (dev : WgcDevice) : Option K :=
  if trimSpace dev.pubKey = "" then none else ring.parse dev.pubKey

/-- The peer of a device with its address. -/
def peerFor (ring : KeyRing K) (i : WgcInbound) (seat : WgcDevice × Addr) : Option (PeerConfig K) :=
  (publicKeyOf ring seat.1).map fun pub =>
    { publicKey := pub, presharedKey := wantedPsk ring i seat.1, allowedIPs := [.host seat.2] }

/-- The devices that get a peer. -/
def activeSeats (i : WgcInbound) (disabled : List String) : List (WgcDevice × Addr) :=
  i.clients.zipIdx.flatMap fun c => if active disabled c.1 then seats i c.1 c.2 else []

/-- The peers of an inbound. -/
def buildPeers (ring : KeyRing K) (i : WgcInbound) (disabled : List String) : List (PeerConfig K) :=
  (activeSeats i disabled).filterMap (peerFor ring i)

/-- The addresses of a peer in whatever order. -/
def allowedIPsKey (ips : List Net) : Multiset Net := ips

/-- The difference: peers that are new or have other addresses, and those that go. -/
def peerOps (ring : KeyRing K) (current : Table (Peer.key (K := K))) (desired : List (PeerConfig K)) :
    List (PeerConfig K) :=
  (desired.filter fun pc => !((current.find? pc.publicKey).any fun p =>
      decide (allowedIPsKey p.allowedIPs = allowedIPsKey pc.allowedIPs))) ++
    (current.rows.filter fun p => decide (p.key ∉ desired.map (·.publicKey))).filterMap fun p =>
      (ring.parse (ring.text p.key)).map fun key => { publicKey := key, remove := true }

/-- What is sent to the kernel, if anything. -/
def reconcilePeers (ring : KeyRing K) (dev : Device K) (priv : K) (port : ℤ)
    (desired : List (PeerConfig K)) : Option (Config K) :=
  let ops := peerOps ring dev.peers desired
  let needKey := decide (dev.publicKey ≠ some (ring.publicKey priv))
  let needPort := decide (dev.listenPort ≠ port)
  if needKey = false ∧ needPort = false ∧ ops = [] then none
  else some {
    privateKey := if needKey then some priv else none
    listenPort := if needPort then some port else none
    peers := ops }

/-- The interface after `GenerateAllConfigs` went through for the inbound. -/
def generateConfig (ring : KeyRing K) (i : WgcInbound) (disabled : List String) (priv : K)
    (dev : Device K) : Device K :=
  ((reconcilePeers ring dev priv i.port (buildPeers ring i disabled)).map (dev.configure ring)).getD dev

end

/-! ## Keys -/

section

variable {K : Type}

/-- The keys that are drawn for an account, by the place of the device. -/
structure Minted (K : Type) where
  key : ℕ → K
  psk : ℕ → K

end

/-! ## What is handed out -/

/-- A configuration, by what stands in it. -/
structure WgcClientConfig where
  deviceIndex : ℕ
  remark : String
  publicKey : String
  privateKey : String
  address : Addr
  dns : String
  mtu : ℤ
  serverPubKey : String
  presharedKey : Option String
  endpoint : String × ℤ

/-- The name servers. -/
def dnsList (i : WgcInbound) : String :=
  let parts := [i.dns1, i.dns2].map trimSpace |>.filter fun d => decide (d ≠ "")
  if parts = [] then "1.1.1.1, 1.0.0.1" else String.intercalate ", " parts

/-- The MTU, 1420 unless set. -/
def mtuOf (i : WgcInbound) : ℤ := if 0 < i.mtu then i.mtu else 1420

/-- Where the clients dial: the proxies, or else the inbound itself. -/
def targets (i : WgcInbound) (endpointHost : String) : List (String × ℤ × String) :=
  let proxies := (i.externalProxy.filter fun ep => decide (trimSpace ep.dest ≠ "")).map fun ep =>
    (trimSpace ep.dest, if ep.port ≤ 0 then i.port else ep.port, trimSpace ep.remark)
  if proxies = [] then
    let l := trimSpace i.listen
    [(if l ≠ "" ∧ l ≠ "0.0.0.0" then l else endpointHost, i.port, "")]
  else proxies

/-- The name of a configuration. -/
def remarkFor (devices : ℕ) (d : ℕ) (label : String) : String :=
  let remark := if 1 < devices then "Device " ++ toString (d + 1) else ""
  if label = "" then remark else if remark = "" then label else remark ++ " - " ++ label

/-- The configurations of one device. -/
def deviceConfigs (i : WgcInbound) (endpointHost : String) (devices : ℕ) (seat : (WgcDevice × Addr) × ℕ) :
    List WgcClientConfig :=
  if trimSpace seat.1.1.privKey = "" then []
  else (targets i endpointHost).zipIdx.map fun t =>
    { deviceIndex := seat.2 * (targets i endpointHost).length + t.2
      remark := remarkFor devices seat.2 t.1.2.2
      publicKey := seat.1.1.pubKey
      privateKey := seat.1.1.privKey
      address := seat.1.2
      dns := dnsList i
      mtu := mtuOf i
      serverPubKey := i.serverPubKey
      presharedKey := if i.pskEnable = true ∧ trimSpace seat.1.1.psk ≠ "" then some seat.1.1.psk else none
      endpoint := (t.1.1, t.1.2.1) }

/-- `RenderClientConfigs`: of the first account with the email. -/
def renderClientConfigs (i : WgcInbound) (email endpointHost : String) : List WgcClientConfig :=
  match i.clients.zipIdx.find? fun c => decide (c.1.email = email) with
  | none => []
  | some c => (seats i c.1 c.2).zipIdx.flatMap (deviceConfigs i endpointHost c.1.deviceList.length)

/-! ## What the kernel has afterwards -/

section

variable {K : Type} [DecidableEq K] {peers : Table (Peer.key (K := K))}

/-- The peer a configuration makes. -/
def PeerConfig.made (pc : PeerConfig K) (old : Option (Peer K)) : Peer K where
  key := pc.publicKey
  psk := pc.presharedKey <|> old.bind (·.psk)
  allowedIPs := pc.allowedIPs

theorem find?_applyPeer (pc : PeerConfig K) (k : K) :
    (applyPeer peers pc).find? k =
      if k = pc.publicKey then if pc.remove then none else some (pc.made (peers.find? k))
      else if pc.remove then peers.find? k else (peers.find? k).map (Peer.yield pc.allowedIPs) := by
  unfold applyPeer
  cases pc.remove with
  | true => simp only [if_true, Table.find?_erase]
  | false =>
      simp only [Bool.false_eq_true, if_false, Table.find?_put]
      by_cases hk : k = pc.publicKey
      · rw [if_pos hk, if_pos hk.symm, hk]
        rfl
      · rw [if_neg hk, if_neg (Ne.symm hk)]
        exact Table.find?_updateWhere peers _ _ _ k

/-- The addresses the peers of a configuration are given. -/
def gained (ops : List (PeerConfig K)) : List Net :=
  ops.flatMap fun pc => if pc.remove then [] else pc.allowedIPs

omit [DecidableEq K] in
theorem yield_yield (a b : List Net) (p : Peer K) : (p.yield a).yield b = p.yield (a ++ b) := by
  unfold Peer.yield
  rw [List.filter_filter]
  congr 1
  refine List.filter_congr fun n _ => ?_
  by_cases ha : n ∈ a <;> by_cases hb : n ∈ b <;> simp [ha, hb]

omit [DecidableEq K] in
theorem yield_nil (p : Peer K) : p.yield [] = p := by
  simp [Peer.yield]

/-- A peer the configuration does not name only loses addresses. -/
theorem find?_foldl_other {ops : List (PeerConfig K)} {k : K} (h : k ∉ ops.map (·.publicKey)) :
    (ops.foldl applyPeer peers).find? k = (peers.find? k).map (Peer.yield (gained ops)) := by
  induction ops generalizing peers with
  | nil =>
      rw [List.foldl_nil]
      cases peers.find? k with
      | none => rfl
      | some p => exact congrArg some (yield_nil p).symm
  | cons pc ops ih =>
      rw [List.map_cons, List.mem_cons, not_or] at h
      rw [List.foldl_cons, ih h.2, find?_applyPeer, if_neg h.1]
      unfold gained
      rw [List.flatMap_cons]
      cases pc.remove with
      | true => rfl
      | false =>
          simp only [Bool.false_eq_true, if_false, Option.map_map]
          congr 1
          funext p
          exact yield_yield _ _ p

/-- A peer the configuration names once. -/
theorem find?_foldl_own {before after : List (PeerConfig K)} {pc : PeerConfig K}
    (hbefore : pc.publicKey ∉ before.map (·.publicKey)) (hafter : pc.publicKey ∉ after.map (·.publicKey)) :
    ((before ++ pc :: after).foldl applyPeer peers).find? pc.publicKey =
      if pc.remove then none else some ((pc.made (peers.find? pc.publicKey)).yield (gained after)) := by
  rw [List.foldl_append, List.foldl_cons, find?_foldl_other hafter, find?_applyPeer, if_pos rfl,
    find?_foldl_other hbefore]
  cases pc.remove with
  | true => rfl
  | false =>
      simp only [Bool.false_eq_true, if_false, Option.map_some]
      -- giving addresses up does not touch the preshared key
      cases peers.find? pc.publicKey <;> rfl

/-! ## The difference -/

/-- The configuration names each peer once, with one address. -/
structure Tidy (desired : List (PeerConfig K)) : Prop where
  keys : (desired.map (·.publicKey)).Nodup
  hosts : ∀ pc ∈ desired, pc.remove = false ∧ ∃ a, pc.allowedIPs = [.host a]

/-- The peer has the addresses that are wanted. -/
def sameIPs (p : Peer K) (pc : PeerConfig K) : Bool :=
  decide (allowedIPsKey p.allowedIPs = allowedIPsKey pc.allowedIPs)

/-- The preshared key a wanted peer ends up with. -/
def settledPsk (old : Option (Peer K)) (pc : PeerConfig K) : Option K :=
  match old with
  | none => pc.presharedKey
  | some p => if sameIPs p pc then p.psk else pc.presharedKey <|> p.psk

variable {ring : KeyRing K} {desired : List (PeerConfig K)}

/-- The peer is there with the addresses that are wanted. -/
def inPlace (peers : Table (Peer.key (K := K))) (pc : PeerConfig K) : Bool :=
  (peers.find? pc.publicKey).any fun p => sameIPs p pc

/-- The peers that are new or have other addresses. -/
def changed (peers : Table (Peer.key (K := K))) (desired : List (PeerConfig K)) : List (PeerConfig K) :=
  desired.filter fun pc => !inPlace peers pc

theorem changed_append (l l' : List (PeerConfig K)) :
    changed peers (l ++ l') = changed peers l ++ changed peers l' :=
  List.filter_append l l'

/-- The peers that go. -/
def leaving (peers : Table (Peer.key (K := K))) (desired : List (PeerConfig K)) : List (PeerConfig K) :=
  (peers.rows.filter fun p => decide (p.key ∉ desired.map (·.publicKey))).map fun p =>
    { publicKey := p.key, remove := true }

theorem peerOps_eq : peerOps ring peers desired = changed peers desired ++ leaving peers desired := by
  unfold peerOps changed leaving
  congr 1
  induction peers.rows.filter fun p => decide (p.key ∉ desired.map (·.publicKey)) with
  | nil => rfl
  | cons p ps ih =>
      rw [List.filterMap_cons, ring.parse_text, ih]
      rfl

theorem mem_leaving {k : K} :
    k ∈ (leaving peers desired).map (·.publicKey) ↔
      k ∉ desired.map (·.publicKey) ∧ ∃ p, peers.find? k = some p := by
  unfold leaving
  rw [List.map_map]
  simp only [List.mem_map, List.mem_filter, decide_eq_true_eq, Function.comp_apply]
  constructor
  · rintro ⟨p, ⟨hp, hout⟩, rfl⟩
    exact ⟨hout, p, Table.find?_of_mem hp⟩
  · rintro ⟨hout, p, hp⟩
    obtain ⟨hmem, rfl⟩ := Table.find?_some hp
    exact ⟨p, ⟨hmem, hout⟩, rfl⟩

theorem gained_leaving : gained (leaving peers desired) = [] := by
  unfold gained leaving
  rw [List.flatMap_map]
  simp

theorem allowedIPsKey_single {ips : List Net} {n : Net} (h : allowedIPsKey ips = allowedIPsKey [n]) :
    ips = [n] :=
  List.perm_singleton.1 (Multiset.coe_eq_coe.1 h)

/-- A peer that is not wanted is gone. -/
theorem find?_reconciled_other {k : K} (h : k ∉ desired.map (·.publicKey)) :
    ((peerOps ring peers desired).foldl applyPeer peers).find? k = none := by
  have hchanged : k ∉ (changed peers desired).map (·.publicKey) := by
    intro hk
    obtain ⟨pc, hpc, rfl⟩ := List.mem_map.1 hk
    exact h (List.mem_map_of_mem (List.mem_of_mem_filter hpc))
  rw [peerOps_eq, List.foldl_append]
  by_cases hleaving : k ∈ (leaving peers desired).map (·.publicKey)
  · obtain ⟨pc, hpc, rfl⟩ := List.mem_map.1 hleaving
    obtain ⟨before, after, hsplit⟩ := List.append_of_mem hpc
    have hremove : pc.remove = true := by
      obtain ⟨p, -, rfl⟩ := List.mem_map.1 hpc
      rfl
    have hnodup : ((leaving peers desired).map (·.publicKey)).Nodup := by
      unfold leaving
      rw [List.map_map]
      exact peers.unique.sublist (List.filter_sublist.map _)
    rw [hsplit, List.map_append, List.map_cons, List.nodup_middle, List.nodup_cons, List.mem_append,
      not_or] at hnodup
    rw [hsplit, find?_foldl_own hnodup.1.1 hnodup.1.2, if_pos hremove]
  · have hnone : peers.find? k = none := by
      cases hp : peers.find? k with
      | none => rfl
      | some p => exact absurd (mem_leaving.2 ⟨h, p, hp⟩) hleaving
    rw [find?_foldl_other hleaving, find?_foldl_other hchanged, hnone]
    rfl

omit [DecidableEq K] in
theorem gained_append (ops ops' : List (PeerConfig K)) : gained (ops ++ ops') = gained ops ++ gained ops' :=
  List.flatMap_append

/-- The peers that are sent when this one has been, or has not to be. -/
def takers (peers : Table (Peer.key (K := K))) (before : List (PeerConfig K)) (pc : PeerConfig K)
    (after : List (PeerConfig K)) : List (PeerConfig K) :=
  changed peers (if inPlace peers pc then before ++ after else after)

/-- A peer that is wanted has its address unless another one took it, and the preshared key
that was sent or was there. -/
theorem find?_reconciled {before after : List (PeerConfig K)} {pc : PeerConfig K}
    (htidy : Tidy (before ++ pc :: after)) :
    ((peerOps ring peers (before ++ pc :: after)).foldl applyPeer peers).find? pc.publicKey =
      some ((⟨pc.publicKey, settledPsk (peers.find? pc.publicKey) pc, pc.allowedIPs⟩ : Peer K).yield
        (gained (takers peers before pc after))) := by
  have hmem : pc ∈ before ++ pc :: after := List.mem_append_right _ List.mem_cons_self
  obtain ⟨hremove, a, ha⟩ := htidy.hosts pc hmem
  have hstays : pc.publicKey ∉ (leaving peers (before ++ pc :: after)).map (·.publicKey) :=
    fun hk => (mem_leaving.1 hk).1 (List.mem_map_of_mem hmem)
  have hkeys := htidy.keys
  rw [List.map_append, List.map_cons, List.nodup_middle, List.nodup_cons, List.mem_append, not_or] at hkeys
  have hsub : ∀ l : List (PeerConfig K), pc.publicKey ∉ l.map (·.publicKey) →
      pc.publicKey ∉ (changed peers l).map (·.publicKey) :=
    fun l hl hk => hl ((List.filter_sublist.map _).subset hk)
  rw [peerOps_eq, changed_append]
  cases hplace : inPlace peers pc with
  | true =>
      obtain ⟨p, hold, hsame⟩ := (Option.any_eq_true _ _).1 hplace
      have hchanged : changed peers (pc :: after) = changed peers after := by
        rw [changed, List.filter_cons_of_neg (by rw [hplace]; exact Bool.false_ne_true)]
        rfl
      have hips : p.allowedIPs = pc.allowedIPs := by
        rw [ha]
        refine allowedIPsKey_single ?_
        rw [← ha]
        exact of_decide_eq_true hsame
      have hp : p = ⟨pc.publicKey, settledPsk (some p) pc, pc.allowedIPs⟩ := by
        rw [← (Table.find?_some hold).2, ← hips, settledPsk, if_pos hsame]
      have hout : pc.publicKey ∉ ((changed peers before ++ changed peers after) ++
          leaving peers (before ++ pc :: after)).map (·.publicKey) := by
        rw [List.map_append, List.map_append, List.mem_append, List.mem_append, not_or, not_or]
        exact ⟨⟨hsub _ hkeys.1.1, hsub _ hkeys.1.2⟩, hstays⟩
      rw [hchanged, find?_foldl_other hout, gained_append, gained_leaving, List.append_nil, takers, hplace,
        if_pos rfl, changed_append, hold, Option.map_some, ← hp]
  | false =>
      have hchanged : changed peers (pc :: after) = pc :: changed peers after := by
        rw [changed, List.filter_cons_of_pos (by rw [hplace]; rfl)]
        rfl
      have hafter : pc.publicKey ∉
          (changed peers after ++ leaving peers (before ++ pc :: after)).map (·.publicKey) := by
        rw [List.map_append, List.mem_append, not_or]
        exact ⟨hsub _ hkeys.1.2, hstays⟩
      have hpsk : (pc.presharedKey <|> (peers.find? pc.publicKey).bind (·.psk)) =
          settledPsk (peers.find? pc.publicKey) pc := by
        unfold settledPsk
        cases hold : peers.find? pc.publicKey with
        | none => cases pc.presharedKey <;> rfl
        | some p =>
            rw [inPlace, hold, Option.any_some] at hplace
            simp only [hplace, Bool.false_eq_true, if_false]
            rfl
      rw [hchanged, List.append_assoc, List.cons_append, find?_foldl_own (hsub _ hkeys.1.1) hafter, hremove,
        if_neg Bool.false_ne_true, gained_append, gained_leaving, List.append_nil, takers, hplace,
        if_neg Bool.false_ne_true, ← hpsk]
      rfl

end

/-! ## One address for each device -/

/-- The devices of a slot have addresses of their own. -/
theorem nodup_wgcDeviceIPs (v : VpnInbound) (slot : ℕ) : (wgcDeviceIPs v slot).Nodup := by
  unfold wgcDeviceIPs gatewayDeviceIPs
  simp only
  split
  · cases computeVpnClientIP v.stored v.id slot .wgc <;> simp
  · split
    · exact List.nodup_nil
    · refine (List.Nodup.map ?_ List.nodup_range).filter _
      intro d d' h
      have hhost := congrArg Addr.host h
      simp only at hhost
      omega

/-- The devices of a slot are the first of its block. -/
theorem mem_block_of_mem {v : VpnInbound} (hmany : ¬wgcEffectiveK v.userLimit ≤ 1) {slot : ℕ} {a : Addr}
    (ha : a ∈ wgcDeviceIPs v slot) :
    a ∈ vpnAccountDeviceIPs (pppSubnetsOrDefault v.ranges .wgc v.id) slot
      (nextPow2 (wgcEffectiveK v.userLimit) : ℕ) := by
  have hsize : nextPow2 (wgcEffectiveK v.userLimit) ≤ 64 := nextPow2_le_64 (wgcEffectiveK_bounds v.userLimit).2
  have hle : wgcEffectiveK v.userLimit ≤ nextPow2 (wgcEffectiveK v.userLimit) := le_nextPow2 _
  unfold wgcDeviceIPs gatewayDeviceIPs gatewayBlock at ha
  simp only [if_neg hmany] at ha
  unfold vpnAccountDeviceIPs
  cases hb : vpnAccountBlock (pppSubnetsOrDefault v.ranges .wgc v.id) slot
      (nextPow2 (wgcEffectiveK v.userLimit) : ℕ) with
  | none =>
      rw [hb] at ha
      cases ha
  | some b =>
      rw [hb] at ha
      simp only [Option.map_some, List.mem_filter, List.mem_map, List.mem_range] at ha ⊢
      obtain ⟨⟨d, hd, rfl⟩, -⟩ := ha
      refine ⟨d, ?_, rfl⟩
      rw [normUserLimit_natCast (by omega) hsize]
      omega

theorem rangesOr_apart {v : VpnInbound} (hapart : v.ranges.Pairwise RangesApart) :
    (rangesOr v.stored .wgc v.id).Pairwise RangesApart := by
  unfold rangesOr VpnInbound.stored
  split
  · rw [Option.getD_none]
    split
    · exact List.pairwise_singleton _ _
    · exact List.Pairwise.nil
  · exact hapart

/-- Ranges that are apart leave two slots no address in common. -/
theorem wgcDeviceIPs_disjoint {v : VpnInbound} (hapart : v.ranges.Pairwise RangesApart) {slot slot' : ℕ}
    (hne : slot ≠ slot') {a : Addr} (ha : a ∈ wgcDeviceIPs v slot) : a ∉ wgcDeviceIPs v slot' := by
  intro ha'
  by_cases hone : wgcEffectiveK v.userLimit ≤ 1
  · unfold wgcDeviceIPs gatewayDeviceIPs at ha ha'
    simp only at ha ha'
    rw [if_pos hone, Option.mem_toList, computeVpnClientIP, Option.map_eq_some_iff] at ha ha'
    obtain ⟨⟨r, k⟩, hr, rfl⟩ := ha
    obtain ⟨⟨r', k'⟩, hr', heq⟩ := ha'
    have hsubnet := congrArg Addr.subnet heq
    have hhost := congrArg Addr.host heq
    exact hne (slotRange_injective (rangesOr_apart hapart) hr hr' hsubnet.symm hhost.symm)
  · have hsize : nextPow2 (wgcEffectiveK v.userLimit) ≤ 64 := nextPow2_le_64 (wgcEffectiveK_bounds v.userLimit).2
    have hle : wgcEffectiveK v.userLimit ≤ nextPow2 (wgcEffectiveK v.userLimit) := le_nextPow2 _
    have hnodup : (pppSubnetsOrDefault v.ranges .wgc v.id).Nodup := by
      unfold pppSubnetsOrDefault
      split
      · exact List.nodup_singleton _
      · exact nodup_subnetsOf _
    exact vpnAccountDeviceIPs_disjoint (by omega) hsize hnodup hne (mem_block_of_mem hone ha)
      (mem_block_of_mem hone ha')

/-- The slots the accounts are on, in list order. -/
def slots (i : WgcInbound) : List ℕ := i.clients.zipIdx.map fun c => (slotOr c.1.slot c.2).toNat

theorem map_snd_zip_sublist {α β : Type} (l : List α) (l' : List β) : ((l.zip l').map Prod.snd).Sublist l' := by
  induction l generalizing l' with
  | nil => exact List.nil_sublist _
  | cons x l ih =>
      cases l' with
      | nil => exact List.Sublist.refl _
      | cons y l' => exact (ih l').cons_cons y

/-- With slots of their own no two devices have the same address. -/
theorem nodup_activeSeats {i : WgcInbound} (hslots : (slots i).Nodup)
    (hapart : i.vpn.ranges.Pairwise RangesApart) (disabled : List String) :
    ((activeSeats i disabled).map (·.2)).Nodup := by
  unfold activeSeats
  rw [List.map_flatMap, List.nodup_flatMap]
  have hsub : ∀ c : WgcClient × ℕ,
      ((if active disabled c.1 then seats i c.1 c.2 else []).map (·.2)).Sublist
        (wgcDeviceIPs i.vpn (slotOr c.1.slot c.2).toNat) := by
    intro c
    split
    · exact map_snd_zip_sublist _ _
    · exact List.nil_sublist _
  refine ⟨fun c _ => (nodup_wgcDeviceIPs _ _).sublist (hsub c), ?_⟩
  refine (List.pairwise_map.1 hslots).imp ?_
  intro c c' hne a ha ha'
  exact wgcDeviceIPs_disjoint hapart hne ((hsub c).subset ha) ((hsub c').subset ha')

/-! ## The property and its condition -/

section

variable {K : Type} [DecidableEq K] (ring : KeyRing K) (i : WgcInbound) (disabled : List String)

/-- The preshared key is the one of the text, and there is none without a text. -/
def PskIs (text : Option String) (psk : Option K) : Prop :=
  psk = text.bind ring.parse ∧ ∀ t ∈ text, (ring.parse t).isSome

/-- The account whose configurations are rendered for an email. -/
def accountFor (email : String) : Option (WgcClient × ℕ) :=
  i.clients.zipIdx.find? fun c => decide (c.1.email = email)

/-- A device of an account that is on, for which configurations are handed out. -/
def HandedOut (seat : WgcDevice × Addr) : Prop :=
  ∃ email, ∃ c ∈ accountFor i email, active disabled c.1 = true ∧ seat ∈ seats i c.1 c.2 ∧
    trimSpace seat.1.privKey ≠ ""

/-- A configuration, by its keys, address and preshared key, is that of the peer with its
public key. -/
def ConfigIs (dev : Device K) (privKey pubKey : String) (a : Addr) (psk : Option String) : Prop :=
  ∃ priv, ring.parse privKey = some priv ∧ ring.parse pubKey = some (ring.publicKey priv) ∧
    ∃ p ∈ dev.peers.find? (ring.publicKey priv), p.allowedIPs = [.host a] ∧ PskIs ring psk p.psk

/-- Every device that the limit allows an account that is on has an address. -/
def Seated : Prop :=
  ∀ c ∈ i.clients.zipIdx, active disabled c.1 = true →
    (c.1.deviceList.take (wgcEffectiveK i.vpn.userLimit)).length ≤ (seats i c.1 c.2).length

/-- There is one peer for each device of each account that is on, and a configuration that is
handed out for such an account is that of a peer, in its key, address and preshared key. -/
structure Matches (dev : Device K) : Prop where
  seated : Seated i disabled
  keyed : ∀ seat ∈ activeSeats i disabled, (publicKeyOf ring seat.1).isSome
  peers : ((activeSeats i disabled).filterMap fun seat => publicKeyOf ring seat.1).Perm
    (dev.peers.rows.map (·.key))
  configs : ∀ email host, ∀ c ∈ accountFor i email, active disabled c.1 = true →
    ∀ conf ∈ renderClientConfigs i email host, ConfigIs ring dev conf.privateKey conf.publicKey conf.address
      conf.presharedKey

/-- With an interface that has what is wanted, nothing is sent. -/
def Quiet (priv : K) (dev : Device K) : Prop :=
  dev.publicKey = some (ring.publicKey priv) → dev.listenPort = i.port →
  (∀ pc ∈ buildPeers ring i disabled, ∃ p ∈ dev.peers.find? pc.publicKey,
    allowedIPsKey p.allowedIPs = allowedIPsKey pc.allowedIPs) →
  (∀ p ∈ dev.peers.rows, p.key ∈ (buildPeers ring i disabled).map (·.publicKey)) →
    reconcilePeers ring dev priv i.port (buildPeers ring i disabled) = none

/-- The peer of the device, if its key parses, is there with the device's address alone. -/
def InPlace (dev : Device K) (seat : WgcDevice × Addr) : Prop :=
  ∀ pub ∈ publicKeyOf ring seat.1, ∃ p ∈ dev.peers.find? pub,
    allowedIPsKey p.allowedIPs = allowedIPsKey [.host seat.2]

/-- Among the devices that get a peer, those that share the address of this one are sent
before it, if at all. -/
def Kept (dev : Device K) (before : List (WgcDevice × Addr)) (seat : WgcDevice × Addr)
    (after : List (WgcDevice × Addr)) : Prop :=
  (∀ seat' ∈ after, seat'.2 = seat.2 → InPlace ring dev seat') ∧
    (InPlace ring dev seat → ∀ seat' ∈ before, seat'.2 = seat.2 → InPlace ring dev seat')

/-- Every device that is allowed has an address; the public keys of the devices that get a
peer parse and are distinct; the keys a configuration carries parse and its private key goes
with the public one; a peer that is there already has the preshared key that is wanted,
unless its address changes and there is one to be sent; and no device that shares the
address is sent after this one. -/
structure Agree (dev : Device K) : Prop where
  seated : Seated i disabled
  keyed : ∀ seat ∈ activeSeats i disabled, (publicKeyOf ring seat.1).isSome
  distinct : ((activeSeats i disabled).filterMap fun seat => publicKeyOf ring seat.1).Nodup
  pairs : ∀ seat, HandedOut i disabled seat →
    ∃ priv, ring.parse seat.1.privKey = some priv ∧ publicKeyOf ring seat.1 = some (ring.publicKey priv)
  psks : ∀ seat, HandedOut i disabled seat → i.pskEnable = true → trimSpace seat.1.psk ≠ "" →
    (ring.parse seat.1.psk).isSome
  kept : ∀ seat, HandedOut i disabled seat → ∀ pub ∈ publicKeyOf ring seat.1, ∀ p ∈ dev.peers.find? pub,
    p.psk = wantedPsk ring i seat.1 ∨
      wantedPsk ring i seat.1 ≠ none ∧ allowedIPsKey p.allowedIPs ≠ allowedIPsKey [.host seat.2]
  undisturbed : ∀ seat, HandedOut i disabled seat → ∀ before after,
    activeSeats i disabled = before ++ seat :: after → Kept ring dev before seat after

end

/-! ## The equivalence -/

section

variable {K : Type} [DecidableEq K] {ring : KeyRing K} {i : WgcInbound} {disabled : List String}

theorem targets_ne_nil (i : WgcInbound) (host : String) : targets i host ≠ [] := by
  unfold targets
  simp only
  split
  · exact List.cons_ne_nil _ _
  · assumption

/-- The text of the preshared key in a configuration. -/
def pskText (i : WgcInbound) (dev : WgcDevice) : Option String :=
  if i.pskEnable = true ∧ trimSpace dev.psk ≠ "" then some dev.psk else none

omit [DecidableEq K] in
theorem pskText_bind (dev : WgcDevice) : (pskText i dev).bind ring.parse = wantedPsk ring i dev := by
  unfold pskText wantedPsk
  split <;> rfl

/-- A device with a private key has a configuration. -/
theorem exists_deviceConfig (host : String) (devices : ℕ) {s : (WgcDevice × Addr) × ℕ}
    (hpriv : trimSpace s.1.1.privKey ≠ "") :
    ∃ conf ∈ deviceConfigs i host devices s,
      (conf.privateKey, conf.publicKey, conf.address, conf.presharedKey) =
        (s.1.1.privKey, s.1.1.pubKey, s.1.2, pskText i s.1.1) := by
  obtain ⟨t, ts, ht⟩ := List.exists_cons_of_ne_nil (targets_ne_nil i host)
  rw [deviceConfigs, if_neg hpriv, ht, List.zipIdx_cons, List.map_cons]
  exact ⟨_, List.mem_cons_self, rfl⟩

/-- The configurations of an account are those of its devices with a private key. -/
theorem forall_configs {email : String} {c : WgcClient × ℕ} (hc : accountFor i email = some c) (host : String)
    (P : String → String → Addr → Option String → Prop) :
    (∀ conf ∈ renderClientConfigs i email host,
      P conf.privateKey conf.publicKey conf.address conf.presharedKey) ↔
      ∀ seat ∈ seats i c.1 c.2, trimSpace seat.1.privKey ≠ "" →
        P seat.1.privKey seat.1.pubKey seat.2 (pskText i seat.1) := by
  have hrender : renderClientConfigs i email host =
      (seats i c.1 c.2).zipIdx.flatMap (deviceConfigs i host c.1.deviceList.length) := by
    rw [renderClientConfigs]
    rw [accountFor] at hc
    rw [hc]
  rw [hrender]
  constructor
  · intro h seat hseat hpriv
    obtain ⟨d, hd⟩ := List.getElem?_of_mem hseat
    have hmem : (seat, d) ∈ (seats i c.1 c.2).zipIdx := List.mk_mem_zipIdx_iff_getElem?.2 hd
    obtain ⟨conf, hconf, heq⟩ :=
      exists_deviceConfig (i := i) host c.1.deviceList.length (s := (seat, d)) hpriv
    have hP := h conf (List.mem_flatMap.2 ⟨_, hmem, hconf⟩)
    injection heq with hkey hrest
    injection hrest with hpub hrest
    injection hrest with haddr hpsk
    rw [hkey, hpub, haddr, hpsk] at hP
    exact hP
  · intro h conf hconf
    obtain ⟨⟨seat, d⟩, hmem, hconf⟩ := List.mem_flatMap.1 hconf
    have hseat : seat ∈ seats i c.1 c.2 := List.mem_of_getElem? (List.mk_mem_zipIdx_iff_getElem?.1 hmem)
    rw [deviceConfigs] at hconf
    split at hconf
    · cases hconf
    · rename_i hpriv
      obtain ⟨t, -, rfl⟩ := List.mem_map.1 hconf
      exact h seat hseat hpriv

theorem accountFor_mem {email : String} {c : WgcClient × ℕ} (h : accountFor i email = some c) :
    c ∈ i.clients.zipIdx := List.mem_of_find?_eq_some h

theorem HandedOut.active {seat : WgcDevice × Addr} (h : HandedOut i disabled seat) :
    seat ∈ activeSeats i disabled := by
  obtain ⟨email, c, hc, hon, hseat, -⟩ := h
  refine List.mem_flatMap.2 ⟨c, accountFor_mem hc, ?_⟩
  rw [if_pos hon]
  exact hseat

omit [DecidableEq K] in
theorem buildPeers_keys :
    (buildPeers ring i disabled).map (·.publicKey) =
      (activeSeats i disabled).filterMap fun seat => publicKeyOf ring seat.1 := by
  unfold buildPeers
  rw [List.map_filterMap]
  refine List.filterMap_congr fun seat _ => ?_
  unfold peerFor
  cases publicKeyOf ring seat.1 with
  | none => rfl
  | some pub => rfl

omit [DecidableEq K] in
theorem mem_buildPeers {pc : PeerConfig K} :
    pc ∈ buildPeers ring i disabled ↔ ∃ seat ∈ activeSeats i disabled, ∃ pub, publicKeyOf ring seat.1 = some pub ∧
      pc = { publicKey := pub, presharedKey := wantedPsk ring i seat.1, allowedIPs := [.host seat.2] } := by
  unfold buildPeers peerFor
  rw [List.mem_filterMap]
  refine exists_congr fun seat => and_congr_right fun _ => ?_
  rw [Option.map_eq_some_iff]
  exact exists_congr fun pub => and_congr_right fun _ => eq_comm

omit [DecidableEq K] in
theorem tidy_buildPeers (hkeys : ((activeSeats i disabled).filterMap fun seat => publicKeyOf ring seat.1).Nodup) :
    Tidy (buildPeers ring i disabled) where
  keys := by
    rw [buildPeers_keys]
    exact hkeys
  hosts := by
    intro pc hpc
    obtain ⟨seat, -, pub, -, rfl⟩ := mem_buildPeers.1 hpc
    exact ⟨rfl, seat.2, rfl⟩

/-- The peers afterwards, whether or not there was something to send. -/
theorem generateConfig_peers (priv : K) (dev : Device K) :
    (generateConfig ring i disabled priv dev).peers =
      (peerOps ring dev.peers (buildPeers ring i disabled)).foldl applyPeer dev.peers := by
  unfold generateConfig reconcilePeers
  simp only
  split
  · rename_i h
    rw [h.2.2]
    rfl
  · rfl

/-- Nothing is sent where every wanted peer is there with its addresses and no other one. -/
theorem quiet (priv : K) (dev : Device K) : Quiet ring i disabled priv dev := by
  intro hkey hport hthere hno
  have hchanged : changed dev.peers (buildPeers ring i disabled) = [] := by
    refine List.filter_eq_nil_iff.2 fun pc hpc => ?_
    obtain ⟨p, hp, hips⟩ := hthere pc hpc
    rw [inPlace, Option.mem_def.1 hp, Option.any_some, sameIPs, decide_eq_true hips]
    exact Bool.false_ne_true
  have hleaving : leaving dev.peers (buildPeers ring i disabled) = [] := by
    refine List.map_eq_nil_iff.2 (List.filter_eq_nil_iff.2 fun p hp => ?_)
    rw [decide_eq_true_eq, not_not]
    exact hno p hp
  have hops : peerOps ring dev.peers (buildPeers ring i disabled) = [] := by
    rw [peerOps_eq, hchanged, hleaving, List.nil_append]
  unfold reconcilePeers
  simp only
  rw [if_pos ⟨decide_eq_false (not_not.2 hkey), decide_eq_false (not_not.2 hport), hops⟩]

omit [DecidableEq K] in
theorem peerFor_eq {seat : WgcDevice × Addr} {pub : K} (hpub : publicKeyOf ring seat.1 = some pub) :
    peerFor ring i seat = some ⟨pub, false, wantedPsk ring i seat.1, [.host seat.2]⟩ := by
  rw [peerFor, hpub]
  rfl

theorem inPlace_iff (dev : Device K) {seat : WgcDevice × Addr} {pub : K}
    (hpub : publicKeyOf ring seat.1 = some pub) :
    inPlace dev.peers ⟨pub, false, wantedPsk ring i seat.1, [.host seat.2]⟩ = true ↔ InPlace ring dev seat := by
  unfold inPlace InPlace
  rw [Option.any_eq_true, hpub]
  constructor
  · rintro ⟨p, hp, hsame⟩ _ ⟨⟩
    exact ⟨p, hp, of_decide_eq_true hsame⟩
  · intro h
    obtain ⟨p, hp, hsame⟩ := h pub rfl
    exact ⟨p, hp, decide_eq_true hsame⟩

/-- An address is given away by a device that has it and is sent. -/
theorem mem_gained_changed (dev : Device K) (l : List (WgcDevice × Addr)) (a : Addr) :
    .host a ∈ gained (changed dev.peers (l.filterMap (peerFor ring i))) ↔
      ∃ seat ∈ l, seat.2 = a ∧ ¬InPlace ring dev seat := by
  constructor
  · intro h
    obtain ⟨pc, hpc, ha⟩ := List.mem_flatMap.1 h
    obtain ⟨hmem, hchanged⟩ := List.mem_filter.1 hpc
    obtain ⟨seat, hseat, hpeer⟩ := List.mem_filterMap.1 hmem
    obtain ⟨pub, hpub, rfl⟩ := Option.map_eq_some_iff.1 hpeer
    have hhost : seat.2 = a := (Net.host.inj (List.mem_singleton.1 ha)).symm
    refine ⟨seat, hseat, hhost, fun hplace => ?_⟩
    rw [(inPlace_iff (i := i) dev hpub).2 hplace] at hchanged
    exact Bool.false_ne_true hchanged
  · rintro ⟨seat, hseat, rfl, hnot⟩
    cases hpub : publicKeyOf ring seat.1 with
    | none =>
        refine absurd (fun pub hmem => ?_) hnot
        rw [hpub] at hmem
        cases hmem
    | some pub =>
        have hpc := List.mem_filterMap.2 ⟨seat, hseat, peerFor_eq (i := i) hpub⟩
        have hchanged : inPlace dev.peers ⟨pub, false, wantedPsk ring i seat.1, [.host seat.2]⟩ = false :=
          Bool.eq_false_iff.2 fun hplace => hnot ((inPlace_iff dev hpub).1 hplace)
        refine List.mem_flatMap.2 ⟨_, List.mem_filter.2 ⟨hpc, ?_⟩, List.mem_singleton_self _⟩
        rw [hchanged]
        rfl

theorem kept_iff (dev : Device K) (before after : List (WgcDevice × Addr)) {seat : WgcDevice × Addr} {pub : K}
    (hpub : publicKeyOf ring seat.1 = some pub) :
    .host seat.2 ∉ gained (takers dev.peers (before.filterMap (peerFor ring i))
        ⟨pub, false, wantedPsk ring i seat.1, [.host seat.2]⟩ (after.filterMap (peerFor ring i))) ↔
      Kept ring dev before seat after := by
  unfold takers Kept
  have hall : ∀ l : List (WgcDevice × Addr),
      .host seat.2 ∉ gained (changed dev.peers (l.filterMap (peerFor ring i))) ↔
        ∀ seat' ∈ l, seat'.2 = seat.2 → InPlace ring dev seat' := by
    intro l
    rw [mem_gained_changed]
    push Not
    rfl
  by_cases hplace : InPlace ring dev seat
  · rw [if_pos ((inPlace_iff dev hpub).2 hplace), ← List.filterMap_append, hall]
    constructor
    · intro h
      exact ⟨fun s hs => h s (List.mem_append_right _ hs), fun _ s hs => h s (List.mem_append_left _ hs)⟩
    · rintro ⟨hafter, hbefore⟩ s hs
      rcases List.mem_append.1 hs with hs | hs
      · exact hbefore hplace s hs
      · exact hafter s hs
  · rw [if_neg fun h => hplace ((inPlace_iff dev hpub).1 h), hall]
    exact ⟨fun h => ⟨h, fun h' => absurd h' hplace⟩, fun h => h.1⟩

/-- The peer of a device afterwards. -/
theorem find?_seat (hkeys : ((activeSeats i disabled).filterMap fun seat => publicKeyOf ring seat.1).Nodup)
    (priv : K) (dev : Device K) {before after : List (WgcDevice × Addr)} {seat : WgcDevice × Addr}
    (hsplit : activeSeats i disabled = before ++ seat :: after) {pub : K}
    (hpub : publicKeyOf ring seat.1 = some pub) :
    ∃ ips, (generateConfig ring i disabled priv dev).peers.find? pub =
      some ⟨pub, settledPsk (dev.peers.find? pub) ⟨pub, false, wantedPsk ring i seat.1, [.host seat.2]⟩, ips⟩ ∧
      (ips = [.host seat.2] ↔ Kept ring dev before seat after) := by
  have hpeers : buildPeers ring i disabled = before.filterMap (peerFor ring i) ++
      ⟨pub, false, wantedPsk ring i seat.1, [.host seat.2]⟩ :: after.filterMap (peerFor ring i) := by
    rw [buildPeers, hsplit, List.filterMap_append, List.filterMap_cons, peerFor_eq hpub]
  have htidy := tidy_buildPeers hkeys
  rw [hpeers] at htidy
  have hfound := @find?_reconciled _ _ dev.peers ring _ _ _ htidy
  rw [← hpeers, ← generateConfig_peers priv] at hfound
  refine ⟨_, hfound, ?_⟩
  rw [← kept_iff (i := i) dev before after hpub]
  simp

/-- The peer of a key afterwards is that of a device. -/
theorem seat_of_find? (priv : K) (dev : Device K) {pub : K} {p : Peer K}
    (hp : (generateConfig ring i disabled priv dev).peers.find? pub = some p) :
    ∃ seat ∈ activeSeats i disabled, publicKeyOf ring seat.1 = some pub := by
  by_contra hno
  have hout : pub ∉ (buildPeers ring i disabled).map (·.publicKey) := by
    rw [buildPeers_keys]
    exact fun hmem => hno (List.mem_filterMap.1 hmem)
  rw [generateConfig_peers, find?_reconciled_other hout] at hp
  cases hp

omit [DecidableEq K] in
/-- The preshared key that a peer ends up with is the wanted one. -/
theorem settledPsk_eq_iff (old : Option (Peer K)) (pc : PeerConfig K) :
    settledPsk old pc = pc.presharedKey ↔ ∀ p ∈ old, p.psk = pc.presharedKey ∨
      pc.presharedKey ≠ none ∧ allowedIPsKey p.allowedIPs ≠ allowedIPsKey pc.allowedIPs := by
  cases old with
  | none => simp [settledPsk]
  | some p =>
      by_cases hsame : allowedIPsKey p.allowedIPs = allowedIPsKey pc.allowedIPs
      · have hs : sameIPs p pc = true := decide_eq_true hsame
        simp [settledPsk, hs, hsame]
      · have hs : sameIPs p pc = false := decide_eq_false hsame
        cases hpsk : pc.presharedKey with
        | none => simp [settledPsk, hs, hpsk]
        | some k => simp [settledPsk, hs, hpsk, hsame]

/-- What holds of the configurations of the accounts that are on holds of the devices. -/
theorem forall_handedOut (P : String → String → Addr → Option String → Prop) :
    (∀ email host, ∀ c ∈ accountFor i email, active disabled c.1 = true →
      ∀ conf ∈ renderClientConfigs i email host,
        P conf.privateKey conf.publicKey conf.address conf.presharedKey) ↔
      ∀ seat, HandedOut i disabled seat → P seat.1.privKey seat.1.pubKey seat.2 (pskText i seat.1) := by
  constructor
  · rintro h seat ⟨email, c, hc, hon, hseat, hpriv⟩
    exact (forall_configs hc "" P).1 (h email "" c hc hon) seat hseat hpriv
  · intro h email host c hc hon
    exact (forall_configs hc host P).2 fun seat hseat hpriv => h seat ⟨email, c, hc, hon, hseat, hpriv⟩

omit [DecidableEq K] in
/-- The preshared key of the configuration is that of the peer. -/
theorem pskIs_iff (dev : WgcDevice) (psk : Option K) :
    PskIs ring (pskText i dev) psk ↔ psk = wantedPsk ring i dev ∧
      (i.pskEnable = true → trimSpace dev.psk ≠ "" → (ring.parse dev.psk).isSome) := by
  unfold PskIs
  rw [pskText_bind, pskText]
  refine and_congr_right fun _ => ?_
  by_cases hpsk : i.pskEnable = true ∧ trimSpace dev.psk ≠ ""
  · rw [if_pos hpsk]
    constructor
    · intro h _ _
      exact h _ rfl
    · rintro h t ⟨⟩
      exact h hpsk.1 hpsk.2
  · rw [if_neg hpsk]
    constructor
    · intro _ hon hne
      exact absurd ⟨hon, hne⟩ hpsk
    · rintro - t ⟨⟩

/-- The keys of the peers afterwards are those of the devices. -/
theorem perm_keys (hkeys : ((activeSeats i disabled).filterMap fun seat => publicKeyOf ring seat.1).Nodup)
    (priv : K) (dev : Device K) :
    ((activeSeats i disabled).filterMap fun seat => publicKeyOf ring seat.1).Perm
      ((generateConfig ring i disabled priv dev).peers.rows.map (·.key)) := by
  refine (List.perm_ext_iff_of_nodup hkeys (generateConfig ring i disabled priv dev).peers.unique).2 fun pub => ?_
  constructor
  · intro hpub
    obtain ⟨seat, hseat, hkey⟩ := List.mem_filterMap.1 hpub
    obtain ⟨before, after, hsplit⟩ := List.append_of_mem hseat
    obtain ⟨ips, hfound, -⟩ := find?_seat hkeys priv dev hsplit hkey
    obtain ⟨hmem, hkey'⟩ := Table.find?_some hfound
    exact List.mem_map.2 ⟨_, hmem, hkey'⟩
  · intro hpub
    obtain ⟨p, hp, rfl⟩ := List.mem_map.1 hpub
    obtain ⟨seat, hseat, hkey⟩ := seat_of_find? priv dev (Table.find?_of_mem hp)
    exact List.mem_filterMap.2 ⟨seat, hseat, hkey⟩

/-- Where the keys are distinct, a configuration is that of its peer if its keys go together,
the peer ends up with the preshared key, and keeps the address. -/
theorem configIs_iff (hkeys : ((activeSeats i disabled).filterMap fun seat => publicKeyOf ring seat.1).Nodup)
    (priv : K) (dev : Device K) {before after : List (WgcDevice × Addr)} {seat : WgcDevice × Addr}
    (hsplit : activeSeats i disabled = before ++ seat :: after) (hsome : (publicKeyOf ring seat.1).isSome) :
    ConfigIs ring (generateConfig ring i disabled priv dev) seat.1.privKey seat.1.pubKey seat.2
        (pskText i seat.1) ↔
      (∃ own, ring.parse seat.1.privKey = some own ∧ publicKeyOf ring seat.1 = some (ring.publicKey own)) ∧
      (i.pskEnable = true → trimSpace seat.1.psk ≠ "" → (ring.parse seat.1.psk).isSome) ∧
      (∀ pub ∈ publicKeyOf ring seat.1, ∀ p ∈ dev.peers.find? pub, p.psk = wantedPsk ring i seat.1 ∨
        wantedPsk ring i seat.1 ≠ none ∧ allowedIPsKey p.allowedIPs ≠ allowedIPsKey [.host seat.2]) ∧
      Kept ring dev before seat after := by
  obtain ⟨pub, hpub⟩ := Option.isSome_iff_exists.1 hsome
  obtain ⟨ips, hfound, hips⟩ := find?_seat hkeys priv dev hsplit hpub
  have hparse : ring.parse seat.1.pubKey = some pub := by
    unfold publicKeyOf at hpub
    split at hpub
    · cases hpub
    · exact hpub
  have hpsk := (@pskIs_iff _ ring i seat.1 (settledPsk (dev.peers.find? pub)
    ⟨pub, false, wantedPsk ring i seat.1, [.host seat.2]⟩)).trans
      (and_congr_left' (settledPsk_eq_iff _ ⟨pub, false, wantedPsk ring i seat.1, [.host seat.2]⟩))
  constructor
  · rintro ⟨own, hown, hpair, p, hp, hat, hpskIs⟩
    obtain rfl : pub = ring.publicKey own := Option.some.inj (hparse.symm.trans hpair)
    obtain rfl := Option.some.inj (hfound.symm.trans hp)
    refine ⟨⟨own, hown, hpub⟩, (hpsk.1 hpskIs).2, ?_, hips.1 hat⟩
    intro pub' hpub' p hp
    obtain rfl : ring.publicKey own = pub' := Option.some.inj (hpub.symm.trans hpub')
    exact (hpsk.1 hpskIs).1 p hp
  · rintro ⟨⟨own, hown, hpair⟩, hset, hkept, hstays⟩
    obtain rfl : pub = ring.publicKey own := Option.some.inj (hpub.symm.trans hpair)
    exact ⟨own, hown, hparse, _, hfound, hips.2 hstays, hpsk.2 ⟨hkept _ hpub, hset⟩⟩

/-- The peers are those of the accounts that are on, and the configurations are those of the
peers, exactly when the keys of the settings belong together, no peer that stays as it is has
another preshared key, and no address is taken away. -/
theorem wg_matches_iff (ring : KeyRing K) (i : WgcInbound) (disabled : List String) (priv : K) (dev : Device K) :
    Matches ring i disabled (generateConfig ring i disabled priv dev) ∧ Quiet ring i disabled priv dev ↔
      Agree ring i disabled dev := by
  constructor
  · rintro ⟨hmatches, -⟩
    have hkeys : ((activeSeats i disabled).filterMap fun seat => publicKeyOf ring seat.1).Nodup :=
      hmatches.peers.nodup_iff.2 (generateConfig ring i disabled priv dev).peers.unique
    have hconfigs := (forall_handedOut (ConfigIs ring (generateConfig ring i disabled priv dev))).1 hmatches.configs
    have hseat : ∀ seat, HandedOut i disabled seat → ∀ before after,
        activeSeats i disabled = before ++ seat :: after → _ := fun seat hout before after hsplit =>
      (configIs_iff hkeys priv dev hsplit (hmatches.keyed seat hout.active)).1 (hconfigs seat hout)
    exact {
      seated := hmatches.seated
      keyed := hmatches.keyed
      distinct := hkeys
      pairs := fun seat hout => by
        obtain ⟨before, after, hsplit⟩ := List.append_of_mem hout.active
        exact (hseat seat hout before after hsplit).1
      psks := fun seat hout => by
        obtain ⟨before, after, hsplit⟩ := List.append_of_mem hout.active
        exact (hseat seat hout before after hsplit).2.1
      kept := fun seat hout => by
        obtain ⟨before, after, hsplit⟩ := List.append_of_mem hout.active
        exact (hseat seat hout before after hsplit).2.2.1
      undisturbed := fun seat hout before after hsplit => (hseat seat hout before after hsplit).2.2.2 }
  · intro hagree
    refine ⟨⟨hagree.seated, hagree.keyed, perm_keys hagree.distinct priv dev, ?_⟩, quiet priv dev⟩
    refine (forall_handedOut (ConfigIs ring (generateConfig ring i disabled priv dev))).2 fun seat hout => ?_
    obtain ⟨before, after, hsplit⟩ := List.append_of_mem hout.active
    exact (configIs_iff hagree.distinct priv dev hsplit (hagree.keyed seat hout.active)).2
      ⟨hagree.pairs seat hout, hagree.psks seat hout, hagree.kept seat hout,
        hagree.undisturbed seat hout before after hsplit⟩

/-- With slots of their own and ranges that are apart no address is shared. -/
theorem undisturbed_of_slots (hslots : (slots i).Nodup) (hapart : i.vpn.ranges.Pairwise RangesApart)
    (dev : Device K) {before after : List (WgcDevice × Addr)} {seat : WgcDevice × Addr}
    (hsplit : activeSeats i disabled = before ++ seat :: after) : Kept ring dev before seat after := by
  have haddr := nodup_activeSeats hslots hapart disabled
  rw [hsplit, List.map_append, List.map_cons, List.nodup_middle, List.nodup_cons, List.mem_append, not_or] at haddr
  constructor
  · intro seat' hseat' heq
    exact absurd (List.mem_map.2 ⟨seat', hseat', heq⟩) haddr.1.2
  · intro _ seat' hseat' heq
    exact absurd (List.mem_map.2 ⟨seat', hseat', heq⟩) haddr.1.1

end

/-! ## Switching preshared keys on -/

/-- A text that is not blank. -/
abbrev KeyText := { t : String // trimSpace t ≠ "" }

theorem annPub_ne : trimSpace "j0DFrbaPJWJK5bIU6nZ6bslNgp09e14a0bpvPiE4KF8=" ≠ "" := by
  decide +kernel

def annPub : KeyText := ⟨"j0DFrbaPJWJK5bIU6nZ6bslNgp09e14a0bpvPiE4KF8=", annPub_ne⟩

theorem serverPriv_ne : trimSpace "QEFCQ0RFRkdISUpLTE1OT1BRUlNUVVZXWFlaW1xdXl8=" ≠ "" := by
  decide +kernel

def serverPriv : KeyText := ⟨"QEFCQ0RFRkdISUpLTE1OT1BRUlNUVVZXWFlaW1xdXl8=", serverPriv_ne⟩

theorem serverPub_ne : trimSpace "eaYx7t4b+cmPEgMs3q3Q56B5OY/HhriMyEbsia+FpRo=" ≠ "" := by
  decide +kernel

def serverPub : KeyText := ⟨"eaYx7t4b+cmPEgMs3q3Q56B5OY/HhriMyEbsia+FpRo=", serverPub_ne⟩

/-- Keys by their texts, with two private keys and the public ones that go with them. -/
def textRing : KeyRing KeyText where
  parse t := if h : trimSpace t ≠ "" then some ⟨t, h⟩ else none
  text := Subtype.val
  publicKey k := if k.val = "AAECAwQFBgcICQoLDA0ODxAREhMUFRYXGBkaGxwdHh8=" then annPub
    else if k = serverPriv then serverPub else k
  parse_text k := dif_pos k.property
  trimSpace_text k := k.property

theorem textRing_parse {t : String} {k : KeyText} (h : textRing.parse t = some k) : k.val = t := by
  unfold textRing at h
  simp only at h
  split at h
  · cases h
    rfl
  · cases h

/-- An inbound with preshared keys and one account with one device, after its keys have been
reconciled. -/
def annInbound : WgcInbound where
  vpn := { id := 3, protocol := .wgc, ranges := [] }
  port := 51820
  serverPrivKey := serverPriv.val
  serverPubKey := serverPub.val
  pskEnable := true
  clients := [{
    email := "ann"
    slot := some 0
    devices := [{
      privKey := "AAECAwQFBgcICQoLDA0ODxAREhMUFRYXGBkaGxwdHh8="
      pubKey := "j0DFrbaPJWJK5bIU6nZ6bslNgp09e14a0bpvPiE4KF8="
      psk := "ICEiIyQlJicoKSorLC0uLzAxMjM0NTY3ODk6Ozw9Pj8=" }] }]

/-- The interface has the account's peer at an address, from before preshared keys were on. -/
def annDevice (a : Addr) : Device KeyText where
  publicKey := some serverPub
  listenPort := 51820
  peers := .single { key := annPub, allowedIPs := [.host a] }

/-- The settings have a preshared key now and the address is what it was: the peer stays
without one. -/
theorem preshared_key_stays_off :
    ¬(Matches textRing annInbound [] (generateConfig textRing annInbound [] serverPriv (annDevice ⟨⟨10, 7, 3⟩, 2⟩)) ∧
      Quiet textRing annInbound [] serverPriv (annDevice ⟨⟨10, 7, 3⟩, 2⟩)) := by
  rintro ⟨hmatches, -⟩
  have hconf : ∃ conf ∈ renderClientConfigs annInbound "ann" "203.0.113.1",
      conf.privateKey = "AAECAwQFBgcICQoLDA0ODxAREhMUFRYXGBkaGxwdHh8=" ∧
        (conf.presharedKey.bind textRing.parse).isSome = true := by
    decide +kernel
  have hpeer : (((generateConfig textRing annInbound [] serverPriv
      (annDevice ⟨⟨10, 7, 3⟩, 2⟩)).peers.find? annPub).all fun p => decide (p.psk = none)) = true := by
    decide +kernel
  obtain ⟨conf, hmem, hpriv, hsome⟩ := hconf
  obtain ⟨priv, hparse, -, p, hp, -, hpsk⟩ :=
    hmatches.configs "ann" "203.0.113.1" _ (by exact rfl) (by decide +kernel) conf hmem
  have hpub : textRing.publicKey priv = annPub := by
    rw [hpriv] at hparse
    exact if_pos (textRing_parse hparse)
  rw [hpub] at hp
  rw [Option.mem_def.1 hp, Option.all_some, decide_eq_true_eq] at hpeer
  rw [← hpsk.1, hpeer] at hsome
  exact Bool.false_ne_true hsome

/-- With another address the peer is sent, and gets the preshared key with it. -/
theorem preshared_key_sent :
    Matches textRing annInbound [] (generateConfig textRing annInbound [] serverPriv (annDevice ⟨⟨10, 7, 3⟩, 9⟩)) ∧
      Quiet textRing annInbound [] serverPriv (annDevice ⟨⟨10, 7, 3⟩, 9⟩) := by
  refine (wg_matches_iff textRing annInbound [] serverPriv (annDevice ⟨⟨10, 7, 3⟩, 9⟩)).2 ?_
  have hseats : activeSeats annInbound [] = [({
      privKey := "AAECAwQFBgcICQoLDA0ODxAREhMUFRYXGBkaGxwdHh8="
      pubKey := "j0DFrbaPJWJK5bIU6nZ6bslNgp09e14a0bpvPiE4KF8="
      psk := "ICEiIyQlJicoKSorLC0uLzAxMjM0NTY3ODk6Ozw9Pj8=" }, ⟨⟨10, 7, 3⟩, 2⟩)] := by
    decide +kernel
  have hseat : ∀ seat, HandedOut annInbound [] seat → _ :=
    fun seat hout => List.mem_singleton.1 (hseats ▸ hout.active)
  exact {
    seated := by
      unfold Seated
      decide +kernel
    keyed := by decide +kernel
    distinct := by decide +kernel
    pairs := fun seat hout => by
      obtain rfl := hseat seat hout
      exact ⟨⟨"AAECAwQFBgcICQoLDA0ODxAREhMUFRYXGBkaGxwdHh8=", by decide +kernel⟩, by decide +kernel⟩
    psks := fun seat hout _ _ => by
      obtain rfl := hseat seat hout
      decide +kernel
    kept := fun seat hout pub hpub p hp => by
      obtain rfl := hseat seat hout
      obtain rfl : p = { key := annPub, allowedIPs := [.host ⟨⟨10, 7, 3⟩, 9⟩] } :=
        List.mem_singleton.1 (Table.find?_some hp).1
      exact .inr ⟨by decide +kernel, by decide +kernel⟩
    undisturbed := fun _ _ _ _ hsplit =>
      undisturbed_of_slots (by decide +kernel) List.Pairwise.nil (annDevice ⟨⟨10, 7, 3⟩, 9⟩) hsplit }

end Simorgh.Vpn.WgPeers
