import Mathlib.Data.List.ProdSigma
import Simorgh.Lib.Chain
import Simorgh.Vpn.Gre

/-!
# The nftables rules

`ApplyNftRules` rebuilds two chains of rules from the inbounds.  Three more things
are walked by packets: a pair of accounting chains for each protocol, which it leaves
alone.  They change when a session starts or ends.

* `prerouting`, `postrouting` — the chains, as `ApplyNftRules` writes them.
* `Firewall` — what is loaded, and `Firewall.step`, what the panel does to it.
* `before`, `after` — what the two chains do with a packet.
* `before_eq` — the first chain block by block.
* `counted_before`, `counted_after` — how often a packet is counted by a counter.
-/

namespace Simorgh.Vpn.Nft

open Simorgh.Lib Simorgh.Panel Simorgh.Vpn Simorgh.Vpn.Routing

/-! ## Packets -/

/-- The transport of a packet. -/
inductive L4 where
  | tcp
  | udp
  | other (number : ℕ)
  deriving DecidableEq

/-- A packet on its way through the host. -/
structure Packet where
  iifname : String := ""
  saddr : Addr
  daddr : Addr
  protocol : L4 := .tcp
  mark : ℕ := 0
  /-- the routing table has the destination as an address of this host -/
  daddrLocal : Bool := false
  syn : Bool := false
  maxseg : Option ℤ := none

/-! ## Counters -/

/-- What the traffic of a client is counted by: an address, or a CIDR. -/
structure AcctKey where
  addr : Addr
  prefixLen : Option ℕ := none
  deriving DecidableEq

/-- The address is the account's. -/
def AcctKey.covers (k : AcctKey) (a : Addr) : Bool :=
  match k.prefixLen with
  | none => decide (a = k.addr)
  | some n => (⟨k.addr, n⟩ : Route).covers a

/-- The direction of an accounting rule. -/
inductive Dir where
  | up
  | down
  deriving DecidableEq

/-- A named counter.  Its rule stands in the chain of its protocol and direction and
matches its key, on the source for uplink and on the destination for downlink. -/
structure Counter where
  protocol : Protocol
  dir : Dir
  key : AcctKey
  deriving DecidableEq

/-- `acctProtocols`. -/
def acctProtocols : List Protocol :=
  [.l2tp, .pptp, .openvpn, .openconnect, .sstp, .ikev2, .wgc, .awg, .gre]

/-- The packet is counted. -/
def Counter.hits (p : Packet) (c : Counter) : Bool :=
  match c.dir with
  | .up => c.key.covers p.saddr
  | .down => c.key.covers p.daddr

/-! ## Rules -/

/-- The conditions of a rule. -/
inductive Match where
  | saddr (r : Route)
  | daddr (r : Route)
  | fibDaddrLocal
  | markNe (mark : ℕ)
  | protocol (p : L4)
  | iifname (name : String)
  | saddrNotIn (addrs : List Addr)
  | syn
  | maxsegGt (size : ℤ)

/-- The condition holds. -/
def Match.holds (p : Packet) : Match → Bool
  | .saddr r => r.covers p.saddr
  | .daddr r => r.covers p.daddr
  | .fibDaddrLocal => p.daddrLocal
  | .markNe mark => decide (p.mark ≠ mark)
  | .protocol l4 => decide (p.protocol = l4)
  | .iifname name => decide (p.iifname = name)
  | .saddrNotIn addrs => decide (p.saddr ∉ addrs)
  | .syn => decide (p.protocol = .tcp) && p.syn
  | .maxsegGt size => p.maxseg.any fun n => decide (size < n)

/-- What becomes of a packet. -/
inductive Verdict where
  | accept
  | drop
  /-- handed to the Xray socket on this port -/
  | tproxy (port : ℕ)
  deriving DecidableEq

/-- What a rule does. -/
inductive Statement where
  | verdict (v : Verdict)
  | jump (protocol : Protocol) (dir : Dir)
  | maxsegRtMtu
  | maxsegSet (size : ℤ)

/-- A rule of a chain. -/
structure Rule where
  conds : List Match := []
  statement : Statement

/-- A rule on a packet, with the rules of the accounting chains. -/
def Rule.eval (acct : List Counter) (p : Packet) (r : Rule) : Outcome Counter Verdict :=
  if r.conds.all (Match.holds p) then
    match r.statement with
    | .verdict v => .decided v
    | .jump protocol dir =>
        ⟨acct.filter fun c => decide (c.protocol = protocol) && decide (c.dir = dir) && c.hits p, none⟩
    | .maxsegRtMtu | .maxsegSet _ => .silent
  else .silent

/-! ## Subnets -/

/-- The block of an inbound in a /16. -/
def blockCIDR (s : Server) (o : Settings) (base : ℕ) : Route :=
  let block := vpnBlock (parsed o.ipRanges) s.id
  ⟨⟨⟨10, base, block.1⟩, 0⟩, block.2⟩

/-- `GetSubnetsForInbound` of L2TP, PPTP and SSTP, as CIDRs. -/
def pppCIDRs (s : Server) : List Route :=
  (pppSubnetsOrDefault (s.settings.elim [] fun o => parsed (s.routed o).ranges) s.protocol s.id).map
    fun n => ⟨⟨n, 0⟩, 24⟩

/-- `ovpnCIDRs`. -/
def ovpnCIDRs (s : Server) (o : Settings) : List Route :=
  (if o.udp then [blockCIDR s o 2] else []) ++ if o.tcp then [blockCIDR s o 3] else []

/-- The client subnets of an inbound. -/
def cidrs (s : Server) (o : Settings) : List Route :=
  match s.protocol with
  | .l2tp | .pptp | .sstp => pppCIDRs s
  | .openvpn => ovpnCIDRs s o
  | p => [blockCIDR s o (protocolBase p)]

/-! ## Blocks of rules -/

/-- The two rules about a pair of subnets of one inbound. -/
def clientToClientPair (enabled : Bool) (src dst : Route) : List Rule :=
  -- the gateway's own address is inside the subnet
  (if enabled then [] else [⟨[.saddr src, .daddr dst, .fibDaddrLocal], .verdict .accept⟩]) ++
    [⟨[.saddr src, .daddr dst], .verdict (if enabled then .accept else .drop)⟩]

/-- `writeClientToClientRules`. -/
def writeClientToClientRules (subnets : List Route) (enabled : Bool) : List Rule :=
  (subnets ×ˢ subnets).flatMap fun r => clientToClientPair enabled r.1 r.2

/-- An inbound's client subnets with its toggles. -/
structure VpnNet where
  subnets : List Route
  c2c : Bool
  cross : Bool

/-- Its clients may reach each other and other inbounds. -/
def VpnNet.opted (n : VpnNet) : Bool := n.cross && n.c2c

/-- The address is in one of the subnets. -/
def holds (subnets : List Route) (a : Addr) : Bool := subnets.any fun r => r.covers a

/-- `writeCrossInboundRules`. -/
def writeCrossInboundRules (nets : List VpnNet) : List Rule :=
  (nets.zipIdx ×ˢ nets.zipIdx).flatMap fun n =>
    if n.1.2 = n.2.2 then []
    else (n.1.1.subnets ×ˢ n.2.1.subnets).map fun r =>
      ⟨[.saddr r.1, .daddr r.2],
        .verdict (if n.1.1.opted && n.2.1.opted then .accept else .drop)⟩

/-- What an inbound's own rules are made of. -/
structure Gate where
  subnets : List Route
  c2c : Bool
  port : ℕ

/-- A packet is handed to Xray. -/
def tproxyRule (port : ℕ) (l4 : L4) (src : Route) : Rule :=
  ⟨[.saddr src, .markNe 0xff, .protocol l4], .verdict (.tproxy port)⟩

/-- The inbound's own rules: between its clients, then to Xray. -/
def Gate.rules (g : Gate) : List Rule :=
  writeClientToClientRules g.subnets g.c2c ++
    g.subnets.flatMap fun src => [tproxyRule g.port .tcp src, tproxyRule g.port .udp src]

/-- `GetTproxyPort`. -/
def getTproxyPort (s : Server) : ℕ := 12300 + s.id

/-- L2TP, PPTP and SSTP have their rules even when their settings do not decode. -/
def pppGate (s : Server) : Gate :=
  ⟨pppCIDRs s, s.settings.elim false (·.clientToClient), getTproxyPort s⟩

/-- What a server lets through. -/
def blockGate (s : Server × Settings) : Gate := ⟨cidrs s.1 s.2, s.2.clientToClient, getTproxyPort s.1⟩

/-- `clampMss`: the largest segment that fits the tunnel. -/
def clampMss (o : Settings) : ℤ :=
  (if 0 < o.mtu then o.mtu else if o.ipsecEnable then 1428 else if o.fouEnable then 1464 else 1476) - 40

/-- A netdev may source the addresses of its set. -/
def antispoofRule (h : Host) (iface : String) : Rule :=
  if h.greAllowed iface = [] then ⟨[.iifname iface], .verdict .drop⟩
  else ⟨[.iifname iface, .saddrNotIn (h.greAllowed iface)], .verdict .drop⟩

/-- A packet from there is dropped. -/
def blockedRule (r : Route) : Rule := ⟨[.saddr r], .verdict .drop⟩

/-! ## The chains -/

namespace Host

variable (h : Host)

/-- The enabled inbounds whose settings decode, in the order of the cross-inbound pass. -/
def nets : List (Server × Settings) :=
  [Protocol.l2tp, .pptp, .openvpn, .openconnect, .sstp, .ikev2, .wgc, .awg, .gre].flatMap h.decodedOf

/-- The networks of the servers. -/
def allNets : List VpnNet := h.nets.map fun s => ⟨cidrs s.1 s.2, s.2.clientToClient, s.2.crossInbound⟩

/-- The inbounds' own rules that come before those of GRE, in their order. -/
def gates : List Gate :=
  ([Protocol.l2tp, .pptp, .sstp].flatMap fun p => (h.enabledOf p).map pppGate) ++
    [Protocol.openvpn, .openconnect, .ikev2, .wgc, .awg].flatMap fun p => (h.decodedOf p).map blockGate

/-- The rules against forged sources. -/
def greGuard : List Rule := h.greIfaces.map (antispoofRule h) ++ h.greBlocked.map blockedRule

/-- The chain walked by a packet that arrives. -/
def prerouting : List Rule :=
  (acctProtocols.map fun p => ⟨[], .jump p .up⟩) ++ writeCrossInboundRules h.allNets ++
    h.gates.flatMap Gate.rules ++ h.greGuard ++ ((h.decodedOf .gre).map blockGate).flatMap Gate.rules

/-- The chain walked by a packet that leaves. -/
def postrouting : List Rule :=
  (acctProtocols.map fun p => ⟨[], .jump p .down⟩) ++ (h.decodedOf .gre).flatMap fun s =>
    (cidrs s.1 s.2).flatMap fun src =>
      [⟨[.daddr src, .syn], .maxsegRtMtu⟩,
        ⟨[.saddr src, .syn, .maxsegGt (clampMss s.2)], .maxsegSet (clampMss s.2)⟩]

end Host

/-! ## The firewall -/

/-- The table, if there is one: the two chains, the named counters, and the rules of
the accounting chains, in their order. -/
structure Firewall where
  prerouting : List Rule
  postrouting : List Rule
  counters : List Counter := []
  acct : List Counter := []

/-- `ApplyNftRules`. -/
def applyNftRules (fw : Option Firewall) (h : Host) : Option Firewall :=
  if h.servers.rows.any fun s => decide (s.protocol ∈ acctProtocols) then
    some { prerouting := h.prerouting, postrouting := h.postrouting
           counters := fw.elim [] (·.counters), acct := fw.elim [] (·.acct) }
  -- without an inbound of any kind the table goes
  else none

/-- `reconcileAcctRule`: one rule for the counter. -/
def reconcileAcctRule (acct : List Counter) (c : Counter) : List Counter :=
  if acct.count c = 1 then acct else acct.filter (fun c' => decide (c' ≠ c)) ++ [c]

/-- `AddClientAccounting`.  Only the protocols with chains have rules. -/
def Firewall.addClientAccounting (fw : Firewall) (p : Protocol) (key : AcctKey) : Firewall :=
  { fw with
    counters := fw.counters ++ ([⟨p, .up, key⟩, ⟨p, .down, key⟩].filter fun c => decide (c ∉ fw.counters))
    acct :=
      if p ∈ acctProtocols then reconcileAcctRule (reconcileAcctRule fw.acct ⟨p, .up, key⟩) ⟨p, .down, key⟩
      else fw.acct }

/-- `RemoveClientAccounting`. -/
def Firewall.removeClientAccounting (fw : Firewall) (p : Protocol) (key : AcctKey) : Firewall :=
  let others (c : Counter) := decide (c ∉ [(⟨p, .up, key⟩ : Counter), ⟨p, .down, key⟩])
  { fw with counters := fw.counters.filter others, acct := fw.acct.filter others }

/-- The calls that change the table. -/
inductive FirewallEvent where
  | apply (h : Host)
  | add (p : Protocol) (key : AcctKey)
  | remove (p : Protocol) (key : AcctKey)

/-- Without the table the commands about a session fail. -/
def Firewall.step (fw : Option Firewall) : FirewallEvent → Option Firewall
  | .apply h => applyNftRules fw h
  | .add p key => fw.map (·.addClientAccounting p key)
  | .remove p key => fw.map (·.removeClientAccounting p key)

/-- The traffic of a client is counted under a key. -/
def Firewall.metered (fw : Firewall) (p : Protocol) (key : AcctKey) : Prop :=
  (⟨p, .up, key⟩ : Counter) ∈ fw.counters ∧ (⟨p, .down, key⟩ : Counter) ∈ fw.counters ∧ p ∈ acctProtocols

/-- What happens to a packet that arrives. -/
def Firewall.before (fw : Firewall) (p : Packet) : Outcome Counter Verdict :=
  walk (Rule.eval fw.acct p) fw.prerouting

/-- What happens to a packet that leaves. -/
def Firewall.after (fw : Firewall) (p : Packet) : Outcome Counter Verdict :=
  walk (Rule.eval fw.acct p) fw.postrouting

/-- The policy of both chains is to accept. -/
def Firewall.verdict (fw : Firewall) (p : Packet) : Verdict := (fw.before p).verdict.getD .accept

/-! ## The first chain block by block -/

/-- The packet is one that an inbound's last rules hand to Xray. -/
def Packet.proxied (p : Packet) : Bool :=
  (decide (p.protocol = .tcp) || decide (p.protocol = .udp)) && decide (p.mark ≠ 0xff)

/-- Some of the inbound's own rules are about the packet. -/
def Gate.speaks (p : Packet) (g : Gate) : Bool :=
  holds g.subnets p.saddr && (holds g.subnets p.daddr || p.proxied)

/-- What they say about it. -/
def Gate.verdict (p : Packet) (g : Gate) : Verdict :=
  if holds g.subnets p.daddr then if g.c2c || p.daddrLocal then .accept else .drop else .tproxy g.port

/-- The pair of inbounds is one the packet goes between. -/
def crosses (p : Packet) (n : (VpnNet × ℕ) × VpnNet × ℕ) : Bool :=
  decide (n.1.2 ≠ n.2.2) && holds n.1.1.subnets p.saddr && holds n.2.1.subnets p.daddr

/-- What is done between two networks. -/
def crossVerdict (n : (VpnNet × ℕ) × VpnNet × ℕ) : Verdict :=
  if n.1.1.opted && n.2.1.opted then .accept else .drop

/-- A rule of the GRE guard is about the packet. -/
def Host.guards (h : Host) (p : Packet) : Bool :=
  (decide (p.iifname ∈ h.greIfaces) && decide (p.saddr ∉ h.greAllowed p.iifname)) ||
    h.greBlocked.any fun r => r.covers p.saddr

/-- The accounting rules of a direction that are about the packet. -/
def acctHits (acct : List Counter) (p : Packet) (dir : Dir) : List Counter :=
  acctProtocols.flatMap fun protocol =>
    acct.filter fun c => decide (c.protocol = protocol) && decide (c.dir = dir) && c.hits p

section Blocks

variable (acct : List Counter) (p : Packet)

theorem walk_jumps (dir : Dir) :
    walk (Rule.eval acct p) (acctProtocols.map fun protocol => ⟨[], .jump protocol dir⟩) =
      ⟨acctHits acct p dir, none⟩ := by
  rw [walk_counting, List.flatMap_map]
  · rfl
  · intro r hr
    obtain ⟨protocol, -, rfl⟩ := List.mem_map.1 hr
    rfl

theorem walk_pair (enabled : Bool) (src dst : Route) :
    walk (Rule.eval acct p) (clientToClientPair enabled src dst) =
      if src.covers p.saddr && dst.covers p.daddr then
        .decided (if enabled || p.daddrLocal then .accept else .drop)
      else .silent := by
  cases enabled <;> cases hs : src.covers p.saddr <;> cases hd : dst.covers p.daddr <;>
    cases hl : p.daddrLocal <;> simp [clientToClientPair, Rule.eval, Match.holds, hs, hd, hl]

theorem any_product {subnets subnets' : List Route} {a b : Addr} :
    ((subnets ×ˢ subnets').any fun r => r.1.covers a && r.2.covers b) = (holds subnets a && holds subnets' b) := by
  rw [Bool.eq_iff_iff]
  simp only [holds, List.any_eq_true, Bool.and_eq_true, Prod.exists, List.mem_product]
  constructor
  · rintro ⟨r, r', ⟨hr, hr'⟩, ha, hb⟩
    exact ⟨⟨r, hr, ha⟩, r', hr', hb⟩
  · rintro ⟨⟨r, hr, ha⟩, r', hr', hb⟩
    exact ⟨r, r', ⟨hr, hr'⟩, ha, hb⟩

theorem walk_clientToClient (subnets : List Route) (enabled : Bool) :
    walk (Rule.eval acct p) (writeClientToClientRules subnets enabled) =
      if holds subnets p.saddr && holds subnets p.daddr then
        .decided (if enabled || p.daddrLocal then .accept else .drop)
      else .silent := by
  rw [writeClientToClientRules, walk_flatMap,
    walk_any (fun r => r.1.covers p.saddr && r.2.covers p.daddr) _ fun r => walk_pair acct p enabled r.1 r.2,
    any_product]

theorem walk_tproxy (port : ℕ) (src : Route) :
    walk (Rule.eval acct p) [tproxyRule port .tcp src, tproxyRule port .udp src] =
      if src.covers p.saddr && p.proxied then .decided (.tproxy port) else .silent := by
  have hproxied : p.proxied =
      ((decide (p.protocol = .tcp) || decide (p.protocol = .udp)) && decide (p.mark ≠ 0xff)) := rfl
  rw [hproxied]
  cases hs : src.covers p.saddr <;> by_cases hm : p.mark = 0xff <;> cases hp : p.protocol <;>
    simp [tproxyRule, Rule.eval, Match.holds, hs, hm, hp]

/-- **An inbound's own rules**: between its clients the toggle decides, and what else its
clients send goes to Xray. -/
theorem walk_gate (g : Gate) :
    walk (Rule.eval acct p) g.rules = if g.speaks p then .decided (g.verdict p) else .silent := by
  rw [Gate.rules, walk_append, walk_clientToClient, walk_flatMap,
    walk_any (fun src => src.covers p.saddr && p.proxied) _ fun src => walk_tproxy acct p g.port src]
  have hany : (g.subnets.any fun src => src.covers p.saddr && p.proxied) =
      (holds g.subnets p.saddr && p.proxied) := by
    rw [holds]
    cases p.proxied <;> simp
  rw [hany, Gate.speaks, Gate.verdict]
  cases holds g.subnets p.saddr <;> cases holds g.subnets p.daddr <;> cases p.proxied <;> simp

theorem walk_crossPair (n : (VpnNet × ℕ) × VpnNet × ℕ) :
    walk (Rule.eval acct p)
        (if n.1.2 = n.2.2 then []
          else (n.1.1.subnets ×ˢ n.2.1.subnets).map fun r =>
            ⟨[.saddr r.1, .daddr r.2], .verdict (crossVerdict n)⟩) =
      if crosses p n then .decided (crossVerdict n) else .silent := by
  by_cases hn : n.1.2 = n.2.2
  · simp [crosses, hn]
  · have hrule : ∀ r : Route × Route, Rule.eval acct p ⟨[.saddr r.1, .daddr r.2], .verdict (crossVerdict n)⟩ =
        if r.1.covers p.saddr && r.2.covers p.daddr then .decided (crossVerdict n) else .silent := by
      intro r
      simp [Rule.eval, Match.holds]
    rw [if_neg hn, walk_map, walk_any _ _ hrule, any_product]
    simp [crosses, hn]

/-- **The cross-inbound pass**: the first pair of inbounds the packet goes between decides. -/
theorem walk_cross (nets : List VpnNet) :
    walk (Rule.eval acct p) (writeCrossInboundRules nets) =
      .said (((nets.zipIdx ×ˢ nets.zipIdx).find? (crosses p)).map crossVerdict) := by
  rw [writeCrossInboundRules, walk_flatMap]
  exact walk_find (crosses p) crossVerdict (walk_crossPair acct p) _

theorem eval_antispoof (h : Host) (iface : String) :
    (antispoofRule h iface).eval acct p =
      if decide (p.iifname = iface) && decide (p.saddr ∉ h.greAllowed p.iifname) then .decided .drop else .silent := by
  by_cases hiface : p.iifname = iface
  · by_cases hempty : h.greAllowed iface = []
    · simp [antispoofRule, Rule.eval, Match.holds, hiface, hempty]
    · by_cases hin : p.saddr ∈ h.greAllowed iface <;>
        simp [antispoofRule, Rule.eval, Match.holds, hiface, hempty, hin]
  · by_cases hempty : h.greAllowed iface = [] <;>
      simp [antispoofRule, Rule.eval, Match.holds, hiface, hempty]

/-- **The GRE guard.** -/
theorem walk_guard (h : Host) :
    walk (Rule.eval acct p) h.greGuard = .said (if h.guards p then some .drop else none) := by
  have hblocked : ∀ r : Route, (blockedRule r).eval acct p =
      if r.covers p.saddr then .decided .drop else .silent := by
    intro r
    simp [blockedRule, Rule.eval, Match.holds]
  have hany : (h.greIfaces.any fun iface => decide (p.iifname = iface) && decide (p.saddr ∉ h.greAllowed p.iifname)) =
      (decide (p.iifname ∈ h.greIfaces) && decide (p.saddr ∉ h.greAllowed p.iifname)) := by
    rw [Bool.eq_iff_iff]
    simp only [List.any_eq_true, Bool.and_eq_true, decide_eq_true_eq]
    exact ⟨fun ⟨iface, hmem, heq, hnot⟩ => ⟨heq ▸ hmem, hnot⟩, fun ⟨hmem, hnot⟩ => ⟨_, hmem, rfl, hnot⟩⟩
  rw [Host.greGuard, walk_append, walk_map, walk_map, walk_any _ _ (eval_antispoof acct p h), hany,
    walk_any _ _ hblocked, Host.guards]
  cases decide (p.iifname ∈ h.greIfaces) && decide (p.saddr ∉ h.greAllowed p.iifname) <;>
    cases h.greBlocked.any fun r => r.covers p.saddr <;> rfl

theorem walk_gates (gates : List Gate) :
    walk (Rule.eval acct p) (gates.flatMap Gate.rules) =
      .said ((gates.find? (Gate.speaks p)).map (Gate.verdict p)) := by
  rw [walk_flatMap]
  exact walk_find (Gate.speaks p) (Gate.verdict p) (walk_gate acct p) gates

end Blocks

section Chains

variable {fw : Firewall} {h : Host}

/-- What the first chain says after the accounting chains. -/
def Host.rulesOn (h : Host) (p : Packet) : Option Verdict :=
  ((h.allNets.zipIdx ×ˢ h.allNets.zipIdx).find? (crosses p)).map crossVerdict <|>
    (h.gates.find? (Gate.speaks p)).map (Gate.verdict p) <|>
      (if h.guards p then some .drop else none) <|>
        (((h.decodedOf .gre).map blockGate).find? (Gate.speaks p)).map (Gate.verdict p)

/-- **The first chain**: it counts, then the inbounds between which the packet goes decide,
then the inbounds with subnets, then the GRE guard, then the GRE inbounds. -/
theorem before_eq (hpre : fw.prerouting = h.prerouting) (p : Packet) :
    fw.before p = ⟨acctHits fw.acct p .up, h.rulesOn p⟩ := by
  rw [Firewall.before, hpre, Host.prerouting, walk_append, walk_append, walk_append, walk_append, walk_jumps,
    walk_cross, walk_gates, walk_guard, walk_gates]
  simp only [Outcome.andThen_assoc]
  rw [Outcome.said_andThen, Outcome.said_andThen, Outcome.said_andThen, Outcome.counting_andThen,
    Outcome.said, List.append_nil]
  rfl

/-- The rules of the second chain after its accounting chains have no verdict. -/
theorem after_eq (hpost : fw.postrouting = h.postrouting) (p : Packet) :
    fw.after p = ⟨acctHits fw.acct p .down, none⟩ := by
  rw [Firewall.after, hpost, Host.postrouting, walk_append, walk_jumps, walk_silent, Outcome.andThen_silent]
  intro r hr
  obtain ⟨s, -, hr⟩ := List.mem_flatMap.1 hr
  obtain ⟨src, -, hr⟩ := List.mem_flatMap.1 hr
  rcases List.mem_pair.1 hr with rfl | rfl <;> simp [Rule.eval]

end Chains

/-! ## Counting -/

theorem count_filter_eq {q : Counter → Bool} {acct : List Counter} {c : Counter} :
    (acct.filter q).count c = if q c then acct.count c else 0 := by
  by_cases hq : q c = true
  · rw [List.count_filter hq, if_pos hq]
  · rw [if_neg hq, List.count_eq_zero]
    intro hmem
    exact hq (List.of_mem_filter hmem)

theorem sum_ite_mem {l : List Protocol} (hnodup : l.Nodup) (a : Protocol) (n : ℕ) :
    (l.map fun x => if a = x then n else 0).sum = if a ∈ l then n else 0 := by
  induction l with
  | nil => rfl
  | cons x l ih =>
      obtain ⟨hx, hnodup⟩ := List.nodup_cons.1 hnodup
      rw [List.map_cons, List.sum_cons, ih hnodup]
      by_cases hax : a = x
      · subst hax
        simp [hx]
      · simp [hax]

/-- A packet is counted by a counter as often as the counter has rules, if it is one
of the counter's. -/
theorem count_acctHits (acct : List Counter) (p : Packet) (dir : Dir) (c : Counter) :
    (acctHits acct p dir).count c =
      if c.protocol ∈ acctProtocols ∧ c.dir = dir ∧ c.hits p = true then acct.count c else 0 := by
  have hone : ∀ protocol : Protocol,
      (acct.filter fun c => decide (c.protocol = protocol) && decide (c.dir = dir) && c.hits p).count c =
        if c.protocol = protocol then (if c.dir = dir ∧ c.hits p = true then acct.count c else 0) else 0 := by
    intro protocol
    rw [count_filter_eq]
    by_cases hp : c.protocol = protocol <;> simp [hp]
  rw [acctHits, List.count_flatMap]
  rw [show (List.count c ∘ fun protocol => acct.filter fun c =>
      decide (c.protocol = protocol) && decide (c.dir = dir) && c.hits p) = _ from funext hone]
  rw [sum_ite_mem (by decide)]
  by_cases hp : c.protocol ∈ acctProtocols <;> simp [hp]

/-- Every counter of a protocol with chains has one rule. -/
def Firewall.Reconciled (fw : Firewall) : Prop :=
  ∀ c : Counter, fw.acct.count c = if c ∈ fw.counters ∧ c.protocol ∈ acctProtocols then 1 else 0

theorem count_reconcile (acct : List Counter) (c c' : Counter) :
    (reconcileAcctRule acct c).count c' = if c' = c then 1 else acct.count c' := by
  rw [reconcileAcctRule]
  by_cases hone : acct.count c = 1
  · rw [if_pos hone]
    by_cases hc : c' = c
    · rw [if_pos hc, hc, hone]
    · rw [if_neg hc]
  · rw [if_neg hone, List.count_append, count_filter_eq]
    by_cases hc : c' = c
    · simp [hc]
    · simp [hc, Ne.symm hc]

section Sessions

variable {fw : Firewall}

theorem mem_added {p : Protocol} {key : AcctKey} {c : Counter} :
    c ∈ (fw.addClientAccounting p key).counters ↔
      c ∈ fw.counters ∨ c = ⟨p, .up, key⟩ ∨ c = ⟨p, .down, key⟩ := by
  rw [Firewall.addClientAccounting, List.mem_append, List.mem_filter, List.mem_pair, decide_eq_true_eq]
  by_cases hc : c ∈ fw.counters <;> simp [hc]

theorem Firewall.Reconciled.add (hrec : fw.Reconciled) (p : Protocol) (key : AcctKey) :
    (fw.addClientAccounting p key).Reconciled := by
  intro c
  simp only [mem_added]
  have hold := hrec c
  by_cases hp : p ∈ acctProtocols
  · rw [Firewall.addClientAccounting, if_pos hp, count_reconcile, count_reconcile]
    by_cases hdown : c = ⟨p, .down, key⟩
    · simp [hdown, hp]
    · by_cases hup : c = ⟨p, .up, key⟩
      · simp [hup, hp]
      · simpa [hdown, hup] using hold
  · -- counters of a protocol without chains have no rules
    rw [Firewall.addClientAccounting, if_neg hp, hold]
    by_cases hc : c.protocol ∈ acctProtocols
    · have hup : c ≠ ⟨p, .up, key⟩ := fun h => hp (by rw [h] at hc; exact hc)
      have hdown : c ≠ ⟨p, .down, key⟩ := fun h => hp (by rw [h] at hc; exact hc)
      simp [hc, hup, hdown]
    · simp [hc]

theorem Firewall.Reconciled.remove (hrec : fw.Reconciled) (p : Protocol) (key : AcctKey) :
    (fw.removeClientAccounting p key).Reconciled := by
  intro c
  have hold := hrec c
  simp only [Firewall.removeClientAccounting, count_filter_eq, List.mem_filter]
  by_cases hc : c ∈ [(⟨p, .up, key⟩ : Counter), ⟨p, .down, key⟩]
  · simp [hc]
  · simpa [hc] using hold

theorem reconciled_step {s : Option Firewall} {e : FirewallEvent} (hs : ∀ fw, s = some fw → fw.Reconciled)
    (hfw : Firewall.step s e = some fw) : fw.Reconciled := by
  cases e with
  | apply h =>
      simp only [Firewall.step, applyNftRules, Option.ite_none_right_eq_some, Option.some.injEq] at hfw
      obtain ⟨-, rfl⟩ := hfw
      cases s with
      | none => intro c; simp
      | some fw => exact hs fw rfl
  | add p key =>
      obtain ⟨fw', hfw', rfl⟩ := Option.map_eq_some_iff.1 hfw
      exact (hs fw' hfw').add p key
  | remove p key =>
      obtain ⟨fw', hfw', rfl⟩ := Option.map_eq_some_iff.1 hfw
      exact (hs fw' hfw').remove p key

/-- **Every counter has one rule**, whatever sessions started and ended and however often
the chains were rebuilt. -/
theorem reconciled_run {s : Option Firewall} (hs : ∀ fw, s = some fw → fw.Reconciled)
    (events : List FirewallEvent) (hrun : run Firewall.step s events = some fw) : fw.Reconciled := by
  induction events generalizing s with
  | nil => exact hs fw hrun
  | cons e events ih => exact ih (fun fw hfw => reconciled_step hs hfw) hrun

end Sessions

end Simorgh.Vpn.Nft
