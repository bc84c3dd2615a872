import Simorgh.Lib.Run
import Simorgh.Vpn.Firewall

/-!
# Verdicts of the nftables rules

What the rules say about a packet from one client to another, and about a packet a
GRE netdev should not have sourced.

* `Apart` — the settings decode and no address is in the subnets of two inbounds.
* `rulesOn_between` — the toggles of the two inbounds decide, but for the packets of one
  GRE inbound that the GRE guard drops.
* `isolation_verdict` — the same for whatever is loaded, and every packet is counted once
  in each direction.
* `guarded_dropped_first_iff` — when a packet of the GRE guard is dropped before it is
  counted, accepted or handed to Xray.
-/

namespace Simorgh.Vpn.Nft

open Simorgh.Lib Simorgh.Panel Simorgh.Vpn Simorgh.Vpn.Routing

section Nets

variable {h : Host}

theorem mem_nets {s : Server × Settings} :
    s ∈ h.nets ↔ s.1 ∈ h.servers.rows ∧ s.1.protocol ∈ acctProtocols ∧ s.1.enable = true ∧
      s.1.settings = some s.2 := by
  obtain ⟨s, o⟩ := s
  rw [Host.nets, List.mem_flatMap]
  constructor
  · rintro ⟨p, hp, hs⟩
    obtain ⟨hrow, rfl, henable, hsettings⟩ := mem_decodedOf.1 hs
    refine ⟨hrow, ?_, henable, hsettings⟩
    simpa only [acctProtocols] using hp
  · rintro ⟨hs, hp, henable, hsettings⟩
    exact ⟨s.protocol, by simpa only [acctProtocols] using hp, mem_decodedOf.2 ⟨hs, rfl, henable, hsettings⟩⟩

theorem nets_eq_of_id {s t : Server × Settings} (hs : s ∈ h.nets) (ht : t ∈ h.nets) (hid : s.1.id = t.1.id) :
    s = t := by
  have hs' := mem_nets.1 hs
  have ht' := mem_nets.1 ht
  have hserver : s.1 = t.1 := Table.eq_of_key_eq hs'.1 ht'.1 hid
  refine Prod.ext hserver (Option.some.inj ?_)
  rw [← hs'.2.2.2, ← ht'.2.2.2, hserver]

theorem nodup_decodedOf (p : Protocol) : (h.decodedOf p).Nodup := by
  have hrows : h.servers.rows.Nodup := h.servers.unique.of_map _
  refine (hrows.filter _).filterMap ?_
  intro s t a ha hb
  obtain ⟨o, -, rfl⟩ := Option.map_eq_some_iff.1 ha
  obtain ⟨o', -, heq⟩ := Option.map_eq_some_iff.1 hb
  exact (congrArg Prod.fst heq).symm

theorem nodup_nets : h.nets.Nodup := by
  rw [Host.nets, List.nodup_flatMap]
  refine ⟨fun p _ => nodup_decodedOf p, ?_⟩
  have hnodup : [Protocol.l2tp, .pptp, .openvpn, .openconnect, .sstp, .ikev2, .wgc, .awg, .gre].Nodup := by decide
  refine hnodup.imp fun {p q} hne => ?_
  intro s hs ht
  exact hne ((mem_decodedOf.1 hs).2.1.symm.trans (mem_decodedOf.1 ht).2.1)

end Nets

/-! ## Between clients -/

/-- The settings of every enabled tunnel inbound decode, and no address is in the subnets
of two of them. -/
structure Apart (h : Host) : Prop where
  decode : ∀ s ∈ h.servers.rows, s.enable = true → s.protocol ∈ acctProtocols → s.settings.isSome = true
  disjoint : ∀ s ∈ h.nets, ∀ t ∈ h.nets, s.1.id ≠ t.1.id →
    ∀ a, holds (cidrs s.1 s.2) a = true → holds (cidrs t.1 t.2) a = false

/-- The toggles of the inbounds of two clients let them talk. -/
def toggled (s t : Server × Settings) : Bool :=
  if s.1.id = t.1.id then s.2.clientToClient
  else s.2.crossInbound && s.2.clientToClient && (t.2.crossInbound && t.2.clientToClient)

/-- The packet stays inside one GRE inbound, and the GRE guard drops it. -/
def heldBack (h : Host) (s t : Server × Settings) (p : Packet) : Bool :=
  decide (s.1.id = t.1.id) && decide (s.1.protocol = .gre) && h.guards p

section Between

variable {h : Host} {s t : Server × Settings} {p : Packet}

theorem Apart.eq_of_holds (hapart : Apart h) (hs : s ∈ h.nets) (ht : t ∈ h.nets) {a : Addr}
    (hsa : holds (cidrs s.1 s.2) a = true) (hta : holds (cidrs t.1 t.2) a = true) : s = t := by
  by_contra hne
  have hid : s.1.id ≠ t.1.id := fun hid => hne (nets_eq_of_id hs ht hid)
  rw [hapart.disjoint s hs t ht hid a hsa] at hta
  exact absurd hta (by decide)

/-- A pair of places of the cross-inbound pass. -/
theorem mem_pairs {n : (VpnNet × ℕ) × VpnNet × ℕ} (hn : n ∈ h.allNets.zipIdx ×ˢ h.allNets.zipIdx) :
    ∃ s t, h.nets[n.1.2]? = some s ∧ h.nets[n.2.2]? = some t ∧
      n.1.1 = ⟨cidrs s.1 s.2, s.2.clientToClient, s.2.crossInbound⟩ ∧
        n.2.1 = ⟨cidrs t.1 t.2, t.2.clientToClient, t.2.crossInbound⟩ := by
  obtain ⟨⟨n, i⟩, n', j⟩ := n
  obtain ⟨hn, hn'⟩ := List.mem_product.1 hn
  have hn := List.mem_zipIdx_iff_getElem?.1 hn
  have hn' := List.mem_zipIdx_iff_getElem?.1 hn'
  rw [Host.allNets, List.getElem?_map] at hn hn'
  obtain ⟨s, hs, rfl⟩ := Option.map_eq_some_iff.1 hn
  obtain ⟨t, ht, rfl⟩ := Option.map_eq_some_iff.1 hn'
  exact ⟨s, t, hs, ht, rfl, rfl⟩

/-- A pair the packet goes between is the pair of its inbounds. -/
theorem Apart.crosses_eq (hapart : Apart h) (hs : s ∈ h.nets) (ht : t ∈ h.nets)
    (hsrc : holds (cidrs s.1 s.2) p.saddr = true) (hdst : holds (cidrs t.1 t.2) p.daddr = true)
    {n : (VpnNet × ℕ) × VpnNet × ℕ} (hn : n ∈ h.allNets.zipIdx ×ˢ h.allNets.zipIdx) (hcrosses : crosses p n = true) :
    s.1.id ≠ t.1.id ∧ crossVerdict n = if toggled s t then .accept else .drop := by
  obtain ⟨s', t', hs', ht', hn, hn'⟩ := mem_pairs hn
  simp only [crosses, Bool.and_eq_true, decide_eq_true_eq, hn, hn'] at hcrosses
  obtain rfl : s' = s := hapart.eq_of_holds (List.mem_of_getElem? hs') hs hcrosses.1.2 hsrc
  obtain rfl : t' = t := hapart.eq_of_holds (List.mem_of_getElem? ht') ht hcrosses.2 hdst
  have hid : s'.1.id ≠ t'.1.id := by
    intro hid
    obtain rfl := nets_eq_of_id hs ht hid
    exact hcrosses.1.1 ((List.getElem?_inj (List.getElem?_eq_some_iff.1 hs').1 nodup_nets).1 (hs'.trans ht'.symm))
  refine ⟨hid, ?_⟩
  simp only [crossVerdict, hn, hn', VpnNet.opted, toggled, if_neg hid]

theorem exists_crosses (hs : s ∈ h.nets) (ht : t ∈ h.nets) (hid : s.1.id ≠ t.1.id)
    (hsrc : holds (cidrs s.1 s.2) p.saddr = true) (hdst : holds (cidrs t.1 t.2) p.daddr = true) :
    ∃ n ∈ h.allNets.zipIdx ×ˢ h.allNets.zipIdx, crosses p n = true := by
  obtain ⟨i, hi⟩ := List.mem_iff_getElem?.1 hs
  obtain ⟨j, hj⟩ := List.mem_iff_getElem?.1 ht
  have hij : i ≠ j := by
    rintro rfl
    exact hid (by rw [hi] at hj; rw [Option.some.inj hj])
  refine ⟨((⟨cidrs s.1 s.2, s.2.clientToClient, s.2.crossInbound⟩, i),
    (⟨cidrs t.1 t.2, t.2.clientToClient, t.2.crossInbound⟩, j)), ?_, ?_⟩
  · rw [List.mem_product, List.mem_zipIdx_iff_getElem?, List.mem_zipIdx_iff_getElem?, Host.allNets,
      List.getElem?_map, List.getElem?_map, hi, hj]
    exact ⟨rfl, rfl⟩
  · simp [crosses, hij, hsrc, hdst]

/-- The inbound of a gate. -/
theorem Apart.mem_gates (hapart : Apart h) {g : Gate} (hg : g ∈ h.gates) :
    ∃ s ∈ h.nets, s.1.protocol ≠ .gre ∧ g = blockGate s := by
  rw [Host.gates, List.mem_append] at hg
  rcases hg with hg | hg
  · obtain ⟨p, hp, hg⟩ := List.mem_flatMap.1 hg
    obtain ⟨s, hs, rfl⟩ := List.mem_map.1 hg
    simp only [Host.enabledOf, List.mem_filter, Bool.and_eq_true, decide_eq_true_eq] at hs
    obtain ⟨hs, rfl, henable⟩ := hs
    have hacct : s.protocol ∈ acctProtocols := by
      simp only [List.mem_cons, List.not_mem_nil, or_false] at hp
      rcases hp with hp | hp | hp <;> simp [acctProtocols, hp]
    obtain ⟨o, ho⟩ := Option.isSome_iff_exists.1 (hapart.decode s hs henable hacct)
    refine ⟨(s, o), mem_nets.2 ⟨hs, hacct, henable, ho⟩, ?_, ?_⟩
    · rintro hgre
      rw [hgre] at hp
      exact absurd hp (by decide)
    · simp only [List.mem_cons, List.not_mem_nil, or_false] at hp
      rcases hp with hp | hp | hp <;> simp [pppGate, blockGate, cidrs, hp, ho]
  · obtain ⟨p, hp, hg⟩ := List.mem_flatMap.1 hg
    obtain ⟨⟨s, o⟩, hs, rfl⟩ := List.mem_map.1 hg
    obtain ⟨hrow, rfl, henable, ho⟩ := mem_decodedOf.1 hs
    refine ⟨(s, o), mem_nets.2 ⟨hrow, ?_, henable, ho⟩, ?_, rfl⟩
    · simp only [List.mem_cons, List.not_mem_nil, or_false] at hp
      rcases hp with hp | hp | hp | hp | hp <;> simp [acctProtocols, hp]
    · rintro hgre
      rw [show s.protocol = .gre from hgre] at hp
      exact absurd hp (by decide)

theorem blockGate_mem_gates (hs : s ∈ h.nets) (hgre : s.1.protocol ≠ .gre) : blockGate s ∈ h.gates := by
  obtain ⟨s, o⟩ := s
  obtain ⟨hrow, hp, henable, ho⟩ := mem_nets.1 hs
  have hdecoded : (s, o) ∈ h.decodedOf s.protocol := mem_decodedOf.2 ⟨hrow, rfl, henable, ho⟩
  have henabled : s ∈ h.enabledOf s.protocol := by
    simpa [Host.enabledOf] using ⟨hrow, henable⟩
  rw [Host.gates, List.mem_append, List.mem_flatMap, List.mem_flatMap]
  simp only [acctProtocols, List.mem_cons, List.not_mem_nil, or_false] at hp
  by_cases hppp : s.protocol ∈ [Protocol.l2tp, .pptp, .sstp]
  · refine .inl ⟨s.protocol, hppp, List.mem_map.2 ⟨s, henabled, ?_⟩⟩
    simp only [List.mem_cons, List.not_mem_nil, or_false] at hppp
    simp only at ho
    rcases hppp with hp | hp | hp <;> simp [pppGate, blockGate, cidrs, hp, ho]
  · refine .inr ⟨s.protocol, ?_, List.mem_map.2 ⟨(s, o), hdecoded, rfl⟩⟩
    simp only [List.mem_cons, List.not_mem_nil, or_false, not_or] at hppp ⊢
    tauto

/-- The first gate of a list that speaks is that of the packet's inbound. -/
theorem Apart.find_gate (hapart : Apart h) (hs : s ∈ h.nets) (hsrc : holds (cidrs s.1 s.2) p.saddr = true)
    (hdst : holds (cidrs s.1 s.2) p.daddr = true) (hlocal : p.daddrLocal = false) {gates : List Gate}
    (hgates : ∀ g ∈ gates, ∃ s ∈ h.nets, g = blockGate s) (hmem : blockGate s ∈ gates) :
    (gates.find? (Gate.speaks p)).map (Gate.verdict p) =
      some (if s.2.clientToClient then .accept else .drop) := by
  have hspeaks : (blockGate s).speaks p = true := by
    simp [Gate.speaks, blockGate, hsrc, hdst]
  obtain ⟨g, hfind⟩ := Option.isSome_iff_exists.1 (List.find?_isSome.2 ⟨_, hmem, hspeaks⟩)
  obtain ⟨s', hs', rfl⟩ := hgates g (List.mem_of_find?_eq_some hfind)
  have hsrc' : holds (cidrs s'.1 s'.2) p.saddr = true := by
    have hspeaks' := List.find?_some hfind
    simp only [Gate.speaks, blockGate, Bool.and_eq_true] at hspeaks'
    exact hspeaks'.1
  obtain rfl := hapart.eq_of_holds hs' hs hsrc' hsrc
  rw [hfind, Option.map_some, Gate.verdict, blockGate, if_pos hdst, hlocal, Bool.or_false]

/-- A gate of another inbound does not speak. -/
theorem Apart.find_gate_none (hapart : Apart h) (hs : s ∈ h.nets) (hsrc : holds (cidrs s.1 s.2) p.saddr = true)
    (hgre : s.1.protocol = .gre) : h.gates.find? (Gate.speaks p) = none := by
  refine List.find?_eq_none.2 fun g hg hspeaks => ?_
  obtain ⟨s', hs', hne, rfl⟩ := hapart.mem_gates hg
  simp only [Gate.speaks, blockGate, Bool.and_eq_true] at hspeaks
  exact hne (by rw [hapart.eq_of_holds hs' hs hspeaks.1 hsrc, hgre])

/-- **Between clients**: the toggles of the two inbounds decide, but for what the GRE guard
holds back, and nothing is handed to Xray. -/
theorem rulesOn_between (hapart : Apart h) (hs : s ∈ h.nets) (ht : t ∈ h.nets)
    (hsrc : holds (cidrs s.1 s.2) p.saddr = true) (hdst : holds (cidrs t.1 t.2) p.daddr = true)
    (hlocal : p.daddrLocal = false) :
    h.rulesOn p = some (if toggled s t && !heldBack h s t p then .accept else .drop) := by
  rw [Host.rulesOn]
  by_cases hid : s.1.id = t.1.id
  · obtain rfl := nets_eq_of_id hs ht hid
    have hcross : (h.allNets.zipIdx ×ˢ h.allNets.zipIdx).find? (crosses p) = none :=
      List.find?_eq_none.2 fun n hn hcrosses => (hapart.crosses_eq hs hs hsrc hdst hn hcrosses).1 rfl
    rw [hcross]
    by_cases hgre : s.1.protocol = .gre
    · rw [hapart.find_gate_none hs hsrc hgre]
      cases hguards : h.guards p with
      | true => simp [toggled, heldBack, hgre, hguards]
      | false =>
          have hgates : ∀ g ∈ (h.decodedOf .gre).map blockGate, ∃ s ∈ h.nets, g = blockGate s := by
            intro g hg
            obtain ⟨⟨s', o⟩, hs', rfl⟩ := List.mem_map.1 hg
            obtain ⟨hrow, hp, henable, ho⟩ := mem_decodedOf.1 hs'
            exact ⟨(s', o), mem_nets.2 ⟨hrow, by simp [acctProtocols, hp], henable, ho⟩, rfl⟩
          have hmem : blockGate s ∈ (h.decodedOf .gre).map blockGate := by
            obtain ⟨hrow, -, henable, ho⟩ := mem_nets.1 hs
            exact List.mem_map.2 ⟨s, mem_decodedOf.2 ⟨hrow, hgre, henable, ho⟩, rfl⟩
          rw [hapart.find_gate hs hsrc hdst hlocal hgates hmem]
          simp [toggled, heldBack, hguards]
    · have hgates : ∀ g ∈ h.gates, ∃ s ∈ h.nets, g = blockGate s := by
        intro g hg
        obtain ⟨s', hs', -, rfl⟩ := hapart.mem_gates hg
        exact ⟨s', hs', rfl⟩
      rw [hapart.find_gate hs hsrc hdst hlocal hgates (blockGate_mem_gates hs hgre)]
      simp [toggled, heldBack, hgre]
  · obtain ⟨n, hfind⟩ := Option.isSome_iff_exists.1 (List.find?_isSome.2 (exists_crosses hs ht hid hsrc hdst))
    have hverdict := (hapart.crosses_eq hs ht hsrc hdst (List.mem_of_find?_eq_some hfind) (List.find?_some hfind)).2
    rw [hfind, Option.map_some, hverdict]
    simp [heldBack, hid]

end Between

/-! ## Counting -/

/-- The chains that are loaded are those `ApplyNftRules` writes for these inbounds. -/
def Firewall.Loaded (fw : Firewall) (h : Host) : Prop :=
  fw.prerouting = h.prerouting ∧ fw.postrouting = h.postrouting

/-- How often a packet is counted by the counters of a client, on its way in and on its
way out. -/
theorem counted_once {fw : Firewall} {h : Host} (hloaded : fw.Loaded h) (hrec : fw.Reconciled) {protocol : Protocol}
    {key : AcctKey} (hmetered : fw.metered protocol key) (p : Packet) :
    (fw.before p).counted.count ⟨protocol, .up, key⟩ = (if key.covers p.saddr then 1 else 0) ∧
      (fw.before p).counted.count ⟨protocol, .down, key⟩ = 0 ∧
        (fw.after p).counted.count ⟨protocol, .down, key⟩ = (if key.covers p.daddr then 1 else 0) ∧
          (fw.after p).counted.count ⟨protocol, .up, key⟩ = 0 := by
  obtain ⟨hup, hdown, hprotocol⟩ := hmetered
  have hone : fw.acct.count ⟨protocol, .up, key⟩ = 1 := by
    rw [hrec, if_pos ⟨hup, hprotocol⟩]
  have hone' : fw.acct.count ⟨protocol, .down, key⟩ = 1 := by
    rw [hrec, if_pos ⟨hdown, hprotocol⟩]
  rw [before_eq hloaded.1, after_eq hloaded.2]
  simp [count_acctHits, hprotocol, Counter.hits, hone, hone']

/-- **Verdicts between clients.**  In every state the panel brings the firewall to, a packet
from a client to a client is accepted exactly when the toggles of their inbounds say so and
the GRE guard does not hold it back, and is dropped otherwise.  Every packet is counted
once by the uplink counter of its source and, if it goes on, once by the downlink counter of
its destination. -/
theorem isolation_verdict (events : List FirewallEvent) {fw : Firewall}
    (hrun : run Firewall.step none events = some fw) {h : Host} (hloaded : fw.Loaded h) (hapart : Apart h) :
    (∀ s ∈ h.nets, ∀ t ∈ h.nets, ∀ p : Packet, holds (cidrs s.1 s.2) p.saddr = true →
      holds (cidrs t.1 t.2) p.daddr = true → p.daddrLocal = false →
        fw.verdict p = if toggled s t && !heldBack h s t p then .accept else .drop) ∧
      ∀ protocol key, fw.metered protocol key → ∀ p : Packet,
        (fw.before p).counted.count ⟨protocol, .up, key⟩ = (if key.covers p.saddr then 1 else 0) ∧
          (fw.before p).counted.count ⟨protocol, .down, key⟩ = 0 ∧
            (fw.after p).counted.count ⟨protocol, .down, key⟩ = (if key.covers p.daddr then 1 else 0) ∧
              (fw.after p).counted.count ⟨protocol, .up, key⟩ = 0 := by
  refine ⟨fun s hs t ht p hsrc hdst hlocal => ?_, fun protocol key hmetered p => ?_⟩
  · rw [Firewall.verdict, before_eq hloaded.1, rulesOn_between hapart hs ht hsrc hdst hlocal]
    rfl
  · have hrec : fw.Reconciled := reconciled_run (by simp) events hrun
    exact counted_once hloaded hrec hmetered p

/-- An L2TP inbound, with the old range of its id. -/
def l2tpServer : Server :=
  { id := 1, protocol := .l2tp, settings := some { clientToClient := true, crossInbound := true } }

/-- A GRE inbound with two accounts, one of them off. -/
def greServer : Server where
  id := 2
  protocol := .gre
  listen := some "192.0.2.1"
  settings := some
    { clientToClient := true, crossInbound := true
      clients := [{ email := "ann", enable := false, peers := [{ peerIp := none }] },
        { email := "bob", peers := [{ peerIp := none }] }] }

def twoServers : Host := { servers := (Table.single l2tpServer).put greServer }

def annAddr : Addr := ⟨⟨10, 9, 2⟩, 2⟩

def bobAddr : Addr := ⟨⟨10, 9, 2⟩, 3⟩

def callerAddr : Addr := ⟨⟨10, 0, 1⟩, 2⟩

theorem twoServers_nets : twoServers.nets.map (fun s => (s.1.id, cidrs s.1 s.2)) =
    [(1, [⟨⟨⟨10, 0, 1⟩, 0⟩, 24⟩]), (2, [⟨⟨⟨10, 9, 2⟩, 0⟩, 24⟩])] := by
  decide +kernel

theorem twoServers_apart : Apart twoServers where
  decode := by
    intro s hs _ _
    rcases List.mem_pair.1 (show s ∈ [l2tpServer, greServer] from hs) with rfl | rfl <;> rfl
  disjoint := by
    intro s hs t ht hid a hsa
    have hmem : ∀ s ∈ twoServers.nets, (s.1.id, cidrs s.1 s.2) = (1, [⟨⟨⟨10, 0, 1⟩, 0⟩, 24⟩]) ∨
        (s.1.id, cidrs s.1 s.2) = (2, [⟨⟨⟨10, 9, 2⟩, 0⟩, 24⟩]) := by
      intro s hs
      have hs := List.mem_map_of_mem (f := fun s : Server × Settings => (s.1.id, cidrs s.1 s.2)) hs
      rw [twoServers_nets] at hs
      exact List.mem_pair.1 hs
    rcases hmem s hs with hs | hs <;> rcases hmem t ht with ht | ht <;>
      simp only [Prod.mk.injEq] at hs ht <;> rw [hs.2] at hsa <;> rw [ht.2] <;>
      simp_all [holds, Route.covers]

theorem verdict_bob_to_caller :
    ∃ fw, run Firewall.step none [.apply twoServers, .add .gre ⟨bobAddr, some 32⟩] = some fw ∧
      fw.verdict { saddr := bobAddr, daddr := callerAddr } = .accept ∧
        (fw.before { saddr := bobAddr, daddr := callerAddr }).counted.count ⟨.gre, .up, ⟨bobAddr, some 32⟩⟩ = 1 := by
  obtain ⟨fw, hrun⟩ : ∃ fw, run Firewall.step none [.apply twoServers, .add .gre ⟨bobAddr, some 32⟩] = some fw :=
    ⟨_, rfl⟩
  have hloaded : fw.Loaded twoServers := by
    obtain rfl := Option.some.inj hrun
    exact ⟨rfl, rfl⟩
  have hmetered : fw.metered .gre ⟨bobAddr, some 32⟩ := by
    obtain rfl := Option.some.inj hrun
    refine ⟨?_, ?_, ?_⟩ <;> decide
  obtain ⟨hverdict, hcounted⟩ := isolation_verdict _ hrun hloaded twoServers_apart
  have hgre : (greServer, greServer.settings.getD {}) ∈ twoServers.nets :=
    mem_nets.2 ⟨List.mem_cons_of_mem _ (List.mem_cons_self ..), by decide, rfl, rfl⟩
  have hl2tp : (l2tpServer, l2tpServer.settings.getD {}) ∈ twoServers.nets :=
    mem_nets.2 ⟨List.mem_cons_self .., by decide, rfl, rfl⟩
  refine ⟨fw, hrun, ?_, ?_⟩
  · rw [hverdict _ hgre _ hl2tp _ (by decide +kernel) (by decide +kernel) rfl]
    decide +kernel
  · rw [(hcounted _ _ hmetered _).1]
    decide

/-- An account that is off is held back from the others of its inbound, though the toggle
is on. -/
theorem off_account_held_back :
    Apart twoServers ∧ (∃ s ∈ twoServers.nets, holds (cidrs s.1 s.2) annAddr = true ∧
      holds (cidrs s.1 s.2) bobAddr = true ∧ toggled s s = true) ∧
      ∃ fw, run Firewall.step none [.apply twoServers] = some fw ∧
        fw.verdict { iifname := greCatName "192.0.2.1", saddr := annAddr, daddr := bobAddr } = .drop := by
  refine ⟨twoServers_apart, ⟨(greServer, greServer.settings.getD {}), ?_, ?_⟩, _, rfl, ?_⟩
  · exact mem_nets.2 ⟨List.mem_cons_of_mem _ (List.mem_cons_self ..), by decide, rfl, rfl⟩
  · decide +kernel
  · decide +kernel

/-! ## The GRE guard -/

/-- No accounting rule is about the source of the packet. -/
def Firewall.Uncounted (fw : Firewall) (p : Packet) : Prop :=
  ∀ c ∈ fw.acct, c.protocol ∈ acctProtocols → c.dir = .up → c.key.covers p.saddr = false

/-- An inbound that comes before the GRE guard lets the packet through: of two inbounds it
goes between the first such pair, if both opted in, and otherwise the first inbound that is
not GRE with the source in its subnets, if it hands the packet to Xray or the packet is for
one of its clients and the toggle is on, or for this host. -/
def Host.letsThrough (h : Host) (p : Packet) : Bool :=
  match (h.allNets.zipIdx ×ˢ h.allNets.zipIdx).find? (crosses p) with
  | some n => n.1.1.opted && n.2.1.opted
  | none =>
      match h.gates.find? (Gate.speaks p) with
      | some g => !holds g.subnets p.daddr || g.c2c || p.daddrLocal
      | none => false

theorem acctHits_eq_nil {fw : Firewall} {p : Packet} : acctHits fw.acct p .up = [] ↔ fw.Uncounted p := by
  simp only [acctHits, List.flatMap_eq_nil_iff, List.filter_eq_nil_iff, Bool.and_eq_true, decide_eq_true_eq,
    Firewall.Uncounted]
  constructor
  · intro hnil c hc hp hdir
    have hhits := hnil c.protocol hp c hc
    simpa [hdir, Counter.hits] using hhits
  · rintro hun q hq c hc ⟨⟨rfl, hdir⟩, hhits⟩
    have hcovers := hun c hc hq hdir
    simp [Counter.hits, hdir, hcovers] at hhits

theorem rulesOn_guarded {h : Host} {p : Packet} (hguards : h.guards p = true) :
    h.rulesOn p = some .drop ↔ h.letsThrough p = false := by
  rw [Host.rulesOn, Host.letsThrough, hguards]
  cases hcross : (h.allNets.zipIdx ×ˢ h.allNets.zipIdx).find? (crosses p) with
  | some n => cases hopted : n.1.1.opted && n.2.1.opted <;> simp [crossVerdict, hopted]
  | none =>
      cases hgate : h.gates.find? (Gate.speaks p) with
      | some g =>
          cases hdst : holds g.subnets p.daddr <;> cases hc2c : g.c2c <;> cases hlocal : p.daddrLocal <;>
            simp [Gate.verdict, hdst, hc2c, hlocal]
      | none => simp

/-- **When the GRE guard comes first.**  A packet it is about is dropped before it is counted,
accepted or handed to Xray exactly when its source has no accounting rule and no inbound
that comes before the guard lets it through. -/
theorem guarded_dropped_first_iff {fw : Firewall} {h : Host} (hpre : fw.prerouting = h.prerouting) {p : Packet}
    (hguards : h.guards p = true) :
    fw.before p = ⟨[], some .drop⟩ ↔ fw.Uncounted p ∧ h.letsThrough p = false := by
  rw [before_eq hpre, Outcome.mk.injEq, acctHits_eq_nil, rulesOn_guarded hguards]

theorem unassigned_dropped_first :
    ∃ fw, run Firewall.step none [.apply twoServers, .add .gre ⟨bobAddr, some 32⟩] = some fw ∧
      fw.before { iifname := greCatName "192.0.2.1", saddr := ⟨⟨10, 9, 2⟩, 99⟩, daddr := bobAddr } =
        ⟨[], some .drop⟩ := by
  refine ⟨_, rfl, (guarded_dropped_first_iff (h := twoServers) rfl (by decide +kernel)).2 ⟨?_, by decide +kernel⟩⟩
  intro c hc hp hdir
  revert c
  decide

/-- A GRE peer sends from the address of an L2TP client: the client is charged, and the packet
goes to Xray. -/
theorem spoofed_counted_and_proxied :
    ∃ fw, run Firewall.step none [.apply twoServers, .add .l2tp ⟨callerAddr, none⟩] = some fw ∧
      greCatName "192.0.2.1" ∈ twoServers.greIfaces ∧
        callerAddr ∉ twoServers.greAllowed (greCatName "192.0.2.1") ∧
          fw.before { iifname := greCatName "192.0.2.1", saddr := callerAddr, daddr := ⟨⟨8, 8, 8⟩, 8⟩ } =
            ⟨[⟨.l2tp, .up, ⟨callerAddr, none⟩⟩], some (.tproxy 12301)⟩ := by
  refine ⟨_, rfl, ?_, ?_, ?_⟩ <;> decide +kernel

end Simorgh.Vpn.Nft
