import Mathlib.Data.List.Induction
import Simorgh.Vpn.OutSecrets

/-!
# Outbounds of the tunnels

Whenever the panel builds the configuration for Xray it rewrites the outbounds that carry the
tag of a stored tunnel.  With a device to bind to, the outbound becomes a freedom outbound
pinned to it; without one it becomes a blackhole, because an unbound freedom outbound would
send everything out of the host's own uplink.

* `applyVpnOutboundsWith` — the outbounds and the policy that are handed to Xray.
* `Closed` — an outbound that leads nowhere but into its tunnel.
* `FailsClosed` — afterwards every outbound of a tunnel is closed, the others mean what they
  meant, and doing it again changes nothing.
* `failsClosed_iff_harmless` — that is so exactly when the first outbound of a tag has no
  `proxySettings`, those after it are closed already, and the numbers of the others are not
  rounded.
* `proxied_not_closed` — `proxySettings` and a repeated tag stay.
-/

namespace Simorgh.Vpn.Outbounds

open Simorgh.Lib Simorgh.Lib.Json Simorgh.Panel

/-! ## Addresses -/

/-- The value of a digit in a base up to 16. -/
def digit? (base : ℕ) (c : Char) : Option ℕ :=
  let n :=
    if '0' ≤ c ∧ c ≤ '9' then c.toNat - '0'.toNat
    else if 'a' ≤ c ∧ c ≤ 'f' then c.toNat - 'a'.toNat + 10
    else if 'A' ≤ c ∧ c ≤ 'F' then c.toNat - 'A'.toNat + 10
    else 16
  if n < base then some n else none

/-- A number in some base. -/
def numeral? (base : ℕ) (cs : List Char) : Option ℕ :=
  (cs.mapM (digit? base)).map fun ds => ds.foldl (fun n d => base * n + d) 0

/-- A field of an IPv4 address, without leading zeros. -/
def octet? (cs : List Char) : Option ℕ :=
  if cs = [] ∨ (1 < cs.length ∧ cs.head? = some '0') then none
  else (numeral? 10 cs).bind fun n => if n ≤ 255 then some n else none

/-- An IPv4 address. -/
def parseIPv4 (cs : List Char) : Option ℕ :=
  match (cs.splitOn '.').mapM octet? with
  | some [a, b, c, d] => some (((a * 256 + b) * 256 + c) * 256 + d)
  | _ => none

/-- A field of an IPv6 address. -/
def group? (cs : List Char) : Option ℕ := if cs = [] ∨ 4 < cs.length then none else numeral? 16 cs

/-- Fields of which the last may be an IPv4 address. -/
def groups? : List (List Char) → Option (List ℕ)
  | [] => some []
  | [cs] => ((group? cs).map fun g => [g]).or ((parseIPv4 cs).map fun n => [n / 65536, n % 65536])
  | cs :: rest => (group? cs).bind fun g => (groups? rest).map (g :: ·)

/-- What stands before `::`, and what after it. -/
def cutEllipsis : List Char → List Char × Option (List Char)
  | ':' :: ':' :: rest => ([], some rest)
  | c :: rest => (c :: (cutEllipsis rest).1, (cutEllipsis rest).2)
  | [] => ([], none)

/-- The fields of a part of an address, which may be empty. -/
def fields (cs : List Char) : List (List Char) := if cs = [] then [] else cs.splitOn ':'

/-- An IPv6 address. -/
def parseIPv6 (cs : List Char) : Option ℕ :=
  let groups :=
    match cutEllipsis cs with
    | (cs, none) => (groups? (cs.splitOn ':')).bind fun gs => if gs.length = 8 then some gs else none
    | (left, some right) =>
        ((fields left).mapM group?).bind fun l => (groups? (fields right)).bind fun r =>
          if l.length + r.length < 8 then some (l ++ List.replicate (8 - (l.length + r.length)) 0 ++ r) else none
  groups.map fun gs => gs.foldl (fun n g => 65536 * n + g) 0

/-- `net.ParseIP`.  An address is a number of 128 bits; one of 32 bits is its mapped form,
so that `IP.Equal` is equality. -/
def parseIP (s : String) : Option ℕ :=
  match s.toList.find? fun c => decide (c ∈ ['.', ':', '%']) with
  | some '.' => (parseIPv4 s.toList).map (0xffff * 2 ^ 32 + ·)
  | some ':' => parseIPv6 s.toList
  | _ => none

example : parseIP "::ffff:10.8.0.6" = parseIP "10.8.0.6" ∧ parseIP "1:2::0:0:0:0:0:8" = none ∧
    parseIP "10.8.0.06" = none ∧ parseIP "10.8.0.6/24" = none := by decide +kernel

/-! ## The host -/

/-- A device, as netlink answers for it. -/
inductive Link where
  /-- It is there, with these addresses; without a list when they cannot be read. -/
  | up (addrs : Option (List ℕ))
  /-- `LinkNotFoundError`. -/
  | missing
  /-- Any other error. -/
  | unreadable

/-- The devices of the host by name. -/
abbrev Links := String → Link

/-- The interface is not there. -/
def vpnOutIfaceGone (net : Links) (iface : String) : Bool :=
  match net iface with
  | .missing => true
  | _ => false

/-- The addresses of a device, if they can be read. -/
def vpnOutIfaceAddrs (net : Links) (iface : String) : Option (List ℕ) :=
  match net iface with
  | .up addrs => addrs
  | _ => none

/-! ## Rewriting an outbound -/

/-- `vpnOutSendThrough`: the source address that is kept, or nothing. -/
def vpnOutSendThrough (net : Links) (existing : Option Tree) (iface : String) : String :=
  let via := trimSpace ((existing.bind Tree.str?).getD "")
  if via = "" then ""
  else
    match parseIP via with
    | none => ""
    | some ip =>
        match vpnOutIfaceAddrs net iface with
        | none => via
        | some addrs => if ip ∈ addrs then via else ""

/-- The socket options without the `dialerProxy` that would be taken instead of the device. -/
def withoutDialer (sockopt : Tree) : Tree :=
  match sockopt.member? "dialerProxy" with
  | none => sockopt
  | some (.str s) => if s ≠ "" then sockopt.delete "dialerProxy" else sockopt
  | some _ => sockopt.delete "dialerProxy"

/-- The stream settings with the interface. -/
def vpnOutStreamSettings (existing : Option Tree) (iface : String) : Tree :=
  let stream := existing.getD .null
  let sockopt := withoutDialer ((stream.member? "sockopt").getD .null)
  stream.set "sockopt" (sockopt.set "interface" (.str iface))

/-- The tunnel has a device to bind to. -/
def Links.pins (net : Links) (t : VpnOutboundConfig) : Bool :=
  t.enable && decide (t.iface ≠ "") && !vpnOutIfaceGone net t.iface

/-- The outbound of a tunnel without a device. -/
def blackhole (tag : String) : Tree :=
  .obj [("protocol", .str "blackhole"), ("settings", .obj []), ("tag", .str tag)]

/-- `ob["sendThrough"]`, kept or deleted. -/
def withSource (net : Links) (iface : String) (ob : Tree) : Tree :=
  let via := vpnOutSendThrough net (ob.member? "sendThrough") iface
  if via ≠ "" then ob.set "sendThrough" (.str via) else ob.delete "sendThrough"

/-- The outbound of a tunnel that has one. -/
def pin (net : Links) (t : VpnOutboundConfig) (ob : Tree) : Tree :=
  let ob := ob.set "tag" (.str t.tag)
  let ob := ob.set "protocol" (.str "freedom")
  let ob := ob.set "settings" (.obj [("domainStrategy", .str "UseIP")])
  let ob := ob.set "streamSettings" (vpnOutStreamSettings (ob.member? "streamSettings") t.iface)
  (withSource net t.iface ob).delete "mux"

/-- The tag of an outbound. -/
def tagOf (ob : Tree) : String := ((ob.member? "tag").bind Tree.str?).getD ""

/-- What becomes of the outbound with the tunnel's tag, if there is one. -/
def touch (net : Links) (t : VpnOutboundConfig) (ob : Option Tree) : Option Tree :=
  if net.pins t then some (pin net t (ob.getD (.obj []))) else ob.map fun _ => blackhole t.tag

/-- The first element that satisfies `p` is changed; without one there may be a new last. -/
def changeFirst {α : Type} (p : α → Bool) (f : Option α → Option α) : List α → List α
  | [] => (f none).toList
  | a :: l => if p a then (f (some a)).toList ++ l else a :: changeFirst p f l

/-- One turn of the loop over the tunnels. -/
def place (net : Links) (obs : List Tree) (t : VpnOutboundConfig) : List Tree :=
  if t.tag = "" then obs else changeFirst (fun ob => decide (tagOf ob = t.tag)) (touch net t) obs

/-! ## The configuration -/

/-- The two sections that are rewritten; without bytes there is nothing. -/
structure XrayConfig where
  outbounds : Option Tree
  policy : Option Tree

/-- What a `map[string]any` can be decoded from. -/
def isMap : Tree → Bool
  | .null | .obj _ => true
  | _ => false

/-- `json.Unmarshal` into a list of maps, nil without bytes or with `null`. -/
def decodeOutbounds : Option Tree → Except String (Option (List Tree))
  | none | some .null => .ok none
  | some (.arr items) =>
      if items.all fun ob => isMap ob && ob.inRange then .ok (some (items.map Tree.rewritten))
      else .error "json: cannot unmarshal"
  | some _ => .error "json: cannot unmarshal"

/-- The policy with both counters on. -/
def withOutboundStats (policy : Tree) : Tree :=
  policy.set "system"
    ((((policy.member? "system").getD .null).set "statsOutboundUplink"
      (.bool true)).set "statsOutboundDownlink" (.bool true))

/-- A policy that cannot be decoded is left alone. -/
def vpnOutEnableOutboundStats : Option Tree → Option Tree
  | none => some (withOutboundStats .null)
  | some p => if isMap p && p.inRange then some (withOutboundStats p.rewritten) else some p

/-- `json.Marshal`: a nil list to which nothing was appended is `null`. -/
def encodeOutbounds (isNil : Bool) (out : List Tree) : Tree := if isNil && out.isEmpty then .null else .arr out

/-- The policy, with the counters on if a tunnel was pinned. -/
def policyFor (net : Links) (tunnels : List VpnOutboundConfig) (policy : Option Tree) : Option Tree :=
  if tunnels.any fun t => decide (t.tag ≠ "") && net.pins t then vpnOutEnableOutboundStats policy else policy

/-- The tunnels are put into the configuration. -/
def applyVpnOutboundsWith (net : Links) (config : XrayConfig) (tunnels : List VpnOutboundConfig) :
    Except String XrayConfig :=
  if tunnels.isEmpty then .ok config
  else
    match decodeOutbounds config.outbounds with
    | .error e => .error e
    | .ok obs =>
        .ok ⟨some (encodeOutbounds obs.isNone (tunnels.foldl (place net) (obs.getD []))),
          policyFor net tunnels config.policy⟩

/-! ## The property and its condition -/

/-- A member that is not there, or `null`. -/
def Absent (v : Option Tree) : Prop := v = none ∨ v = some .null

/-- A socket option of an outbound. -/
def sockopt (key : String) (ob : Tree) : Option Tree :=
  ((ob.member? "streamSettings").bind fun stream => stream.member? "sockopt").bind fun opts => opts.member? key

/-- A freedom outbound that dials from this device and from nowhere else.  A device counts as
present, and an address as one of its own, unless netlink says that it is not. -/
structure Pinned (net : Links) (iface : String) (ob : Tree) : Prop where
  freedom : ob.member? "protocol" = some (.str "freedom")
  device : iface ≠ ""
  present : vpnOutIfaceGone net iface = false
  bound : sockopt "interface" ob = some (.str iface)
  noMux : Absent (ob.member? "mux")
  noDialer : Absent (sockopt "dialerProxy" ob) ∨ sockopt "dialerProxy" ob = some (.str "")
  noProxy : Absent (ob.member? "proxySettings")
  source : Absent (ob.member? "sendThrough") ∨
    ∃ via ip, ob.member? "sendThrough" = some (.str via) ∧ parseIP via = some ip ∧
      ∀ addrs, vpnOutIfaceAddrs net iface = some addrs → ip ∈ addrs

/-- The outbound of a tunnel lets nothing out beside it. -/
def Closed (net : Links) (tunnels : List VpnOutboundConfig) (ob : Tree) : Prop :=
  ob.member? "protocol" = some (.str "blackhole") ∨ ∃ t ∈ tunnels, t.tag = tagOf ob ∧ Pinned net t.iface ob

/-- The tag is one of a stored tunnel.  An empty tag is none. -/
def named (tunnels : List VpnOutboundConfig) (ob : Tree) : Bool :=
  decide (tagOf ob ≠ "") && tunnels.any fun t => decide (t.tag = tagOf ob)

namespace XrayConfig

/-- The entries of the list of outbounds. -/
def rows (config : XrayConfig) : List Tree :=
  match config.outbounds with
  | some (.arr items) => items
  | _ => []

/-- The outbounds of this tag, in order. -/
def tagged (config : XrayConfig) (tag : String) : List Tree := config.rows.filter fun ob => decide (tagOf ob = tag)

/-- The entries that are no tunnel's. -/
def others (config : XrayConfig) (tunnels : List VpnOutboundConfig) : List Tree :=
  config.rows.filter fun ob => !named tunnels ob

end XrayConfig

/-- After a success every outbound of a tunnel is closed, the other entries mean the same, and
a second run changes nothing. -/
def FailsClosed (net : Links) (config : XrayConfig) (tunnels : List VpnOutboundConfig) : Prop :=
  ∀ config', applyVpnOutboundsWith net config tunnels = .ok config' →
    (∀ ob ∈ config'.rows, named tunnels ob = true → Closed net tunnels ob) ∧
    (config'.others tunnels).map Tree.meaning = (config.others tunnels).map Tree.meaning ∧
    applyVpnOutboundsWith net config' tunnels = .ok config'

/-- What the outbounds must be like before. -/
structure Harmless (net : Links) (config : XrayConfig) (tunnels : List VpnOutboundConfig) : Prop where
  /-- Entries after the first of a tag are not looked at. -/
  later : ∀ t ∈ tunnels, t.tag ≠ "" → ∀ ob ∈ (config.tagged t.tag).tail, Closed net tunnels ob
  /-- Only a blackhole takes `proxySettings` out of the first. -/
  direct : ∀ t ∈ tunnels, t.tag ≠ "" → (∀ u ∈ tunnels, u.tag = t.tag → net.pins u = true) →
    ∀ ob ∈ (config.tagged t.tag).head?, Absent (ob.member? "proxySettings")
  exact : ∀ ob ∈ config.others tunnels, ob.Exact

/-! ## One outbound -/

section

variable {net : Links} {t u : VpnOutboundConfig} {ob ob' : Tree}

/-- The source address may stay. -/
def usable (net : Links) (iface via : String) : Bool :=
  match parseIP via with
  | none => false
  | some ip =>
      match vpnOutIfaceAddrs net iface with
      | none => true
      | some addrs => decide (ip ∈ addrs)

/-- The member `sendThrough` afterwards. -/
def keptSource (net : Links) (iface : String) (existing : Option Tree) : Option Tree :=
  let via := trimSpace ((existing.bind Tree.str?).getD "")
  if usable net iface via then some (.str via) else none

theorem usable_empty (net : Links) (iface : String) : usable net iface "" = false := rfl

theorem vpnOutSendThrough_eq (existing : Option Tree) (iface : String) :
    vpnOutSendThrough net existing iface =
      if usable net iface (trimSpace ((existing.bind Tree.str?).getD "")) then
        trimSpace ((existing.bind Tree.str?).getD "") else "" := by
  unfold vpnOutSendThrough usable
  simp only
  generalize trimSpace ((existing.bind Tree.str?).getD "") = via
  by_cases hvia : via = ""
  · rw [if_pos hvia, hvia, ite_self]
  · rw [if_neg hvia]
    cases parseIP via with
    | none => rfl
    | some ip =>
        cases vpnOutIfaceAddrs net iface with
        | none => rfl
        | some addrs => simp

theorem member?_withSource (iface key : String) :
    (withSource net iface ob).member? key =
      if "sendThrough" = key then keptSource net iface (ob.member? "sendThrough") else ob.member? key := by
  unfold withSource keptSource
  simp only [vpnOutSendThrough_eq]
  generalize trimSpace (((ob.member? "sendThrough").bind Tree.str?).getD "") = via
  cases husable : usable net iface via with
  | false => simp [Tree.member?_delete]
  | true =>
      have hne : via ≠ "" := by
        rintro rfl
        rw [usable_empty] at husable
        cases husable
      simp [hne, Tree.member?_set]

/-- A source address that passed one check is either dropped by the next or stays. -/
theorem keptSource_keptSource (i j : String) (existing : Option Tree) :
    keptSource net i (keptSource net j existing) =
      if usable net j (trimSpace ((existing.bind Tree.str?).getD "")) then keptSource net i existing else none := by
  unfold keptSource
  simp only
  generalize hvia : trimSpace ((existing.bind Tree.str?).getD "") = via
  have hidem : trimSpace via = via := by rw [← hvia, trimSpace_idem]
  cases usable net j via with
  | false =>
      rw [if_neg Bool.false_ne_true, if_neg Bool.false_ne_true]
      rfl
  | true =>
      rw [if_pos rfl, if_pos rfl]
      show (if usable net i (trimSpace via) = true then some (Tree.str (trimSpace via)) else none) = _
      rw [hidem]

theorem keptSource_comm (i j : String) (existing : Option Tree) :
    keptSource net i (keptSource net j existing) = keptSource net j (keptSource net i existing) := by
  rw [keptSource_keptSource, keptSource_keptSource]
  unfold keptSource
  simp only
  cases usable net i (trimSpace ((existing.bind Tree.str?).getD "")) <;>
    cases usable net j (trimSpace ((existing.bind Tree.str?).getD "")) <;> rfl

/-- No `dialerProxy` is left that would be dialled. -/
theorem dialer_withoutDialer (opts : Tree) :
    (withoutDialer opts).member? "dialerProxy" = none ∨
      (withoutDialer opts).member? "dialerProxy" = some (.str "") := by
  unfold withoutDialer
  split
  case h_1 h => exact Or.inl h
  case h_2 s h =>
    split
    · exact Or.inl ((Tree.member?_delete _ _ opts).trans (if_pos rfl))
    case isFalse hs =>
      rw [not_not] at hs
      exact Or.inr (h.trans (by rw [hs]))
  case h_3 => exact Or.inl ((Tree.member?_delete _ _ opts).trans (if_pos rfl))

theorem withoutDialer_of_none {opts : Tree}
    (h : opts.member? "dialerProxy" = none ∨ opts.member? "dialerProxy" = some (.str "")) :
    withoutDialer opts = opts := by
  rcases h with h | h
  · rw [withoutDialer, h]
  · rw [withoutDialer, h]
    rfl

/-- Of two devices the later is bound, with everything else as before. -/
theorem vpnOutStreamSettings_twice (existing : Option Tree) (i j : String) :
    vpnOutStreamSettings (some (vpnOutStreamSettings existing i)) j = vpnOutStreamSettings existing j := by
  unfold vpnOutStreamSettings
  simp only [Option.getD_some]
  have hclean := dialer_withoutDialer (((existing.getD .null).member? "sockopt").getD .null)
  generalize withoutDialer (((existing.getD .null).member? "sockopt").getD .null) = opts at hclean
  have hagain : withoutDialer (opts.set "interface" (.str i)) = opts.set "interface" (.str i) := by
    refine withoutDialer_of_none ?_
    rw [Tree.member?_set, if_neg (by decide)]
    exact hclean
  rw [Tree.member?_set, if_pos rfl, Option.getD_some, hagain, Tree.set_set, Tree.set_set]

/-- What an outbound has once it is pinned. -/
theorem member?_pin (net : Links) (t : VpnOutboundConfig) (ob : Tree) (key : String) :
    (pin net t ob).member? key =
      if "mux" = key then none
      else if "sendThrough" = key then keptSource net t.iface (ob.member? "sendThrough")
      else if "streamSettings" = key then some (vpnOutStreamSettings (ob.member? "streamSettings") t.iface)
      else if "settings" = key then some (.obj [("domainStrategy", .str "UseIP")])
      else if "protocol" = key then some (.str "freedom")
      else if "tag" = key then some (.str t.tag)
      else ob.member? key := by
  unfold pin
  simp only [Tree.member?_delete, member?_withSource, Tree.member?_set]
  simp only [String.reduceEq, if_false]

/-- The members that do not stay as they are. -/
def forced : List String := ["mux", "sendThrough", "streamSettings", "settings", "protocol", "tag"]

theorem member?_pin_of_not_forced {key : String} (h : key ∉ forced) : (pin net t ob).member? key = ob.member? key := by
  simp only [forced, List.mem_cons, List.not_mem_nil, or_false, not_or] at h
  obtain ⟨hmux, hsource, hstream, hsettings, hprotocol, htag⟩ := h
  rw [member?_pin, if_neg (Ne.symm hmux), if_neg (Ne.symm hsource), if_neg (Ne.symm hstream),
    if_neg (Ne.symm hsettings), if_neg (Ne.symm hprotocol), if_neg (Ne.symm htag)]

theorem source_pin (net : Links) (t : VpnOutboundConfig) (ob : Tree) :
    (pin net t ob).member? "sendThrough" = keptSource net t.iface (ob.member? "sendThrough") := by
  simp only [member?_pin, String.reduceEq, if_false, if_true]

theorem stream_pin (net : Links) (t : VpnOutboundConfig) (ob : Tree) :
    (pin net t ob).member? "streamSettings" = some (vpnOutStreamSettings (ob.member? "streamSettings") t.iface) := by
  simp only [member?_pin, String.reduceEq, if_false, if_true]

theorem protocol_pin (net : Links) (t : VpnOutboundConfig) (ob : Tree) :
    (pin net t ob).member? "protocol" = some (.str "freedom") := by
  simp only [member?_pin, String.reduceEq, if_false, if_true]

/-- Outbounds that a tunnel does not tell apart. -/
theorem pin_eq_iff :
    pin net t ob = pin net t ob' ↔
      vpnOutStreamSettings (ob.member? "streamSettings") t.iface =
          vpnOutStreamSettings (ob'.member? "streamSettings") t.iface ∧
        keptSource net t.iface (ob.member? "sendThrough") = keptSource net t.iface (ob'.member? "sendThrough") ∧
        ∀ key ∉ forced, ob.member? key = ob'.member? key := by
  constructor
  · intro h
    refine ⟨?_, ?_, fun key hkey => ?_⟩
    · have hmember := congrArg (Tree.member? "streamSettings") h
      rw [stream_pin, stream_pin] at hmember
      exact Option.some.inj hmember
    · have hmember := congrArg (Tree.member? "sendThrough") h
      rwa [source_pin, source_pin] at hmember
    · have hmember := congrArg (Tree.member? key) h
      rwa [member?_pin_of_not_forced hkey, member?_pin_of_not_forced hkey] at hmember
  · rintro ⟨hstream, hsource, hrest⟩
    refine Tree.obj_ext ((Tree.asMap_sorted _).filter _) ((Tree.asMap_sorted _).filter _) fun key => ?_
    show (pin net t ob).member? key = (pin net t ob').member? key
    by_cases hkey : key ∈ forced
    · simp only [forced, List.mem_cons, List.not_mem_nil, or_false] at hkey
      rcases hkey with rfl | rfl | rfl | rfl | rfl | rfl <;>
        simp only [member?_pin, String.reduceEq, if_false, if_true, hstream, hsource]
    · rw [member?_pin_of_not_forced hkey, member?_pin_of_not_forced hkey, hrest key hkey]

/-- Another tunnel in between does not tell them apart either. -/
theorem pin_pin_congr (h : pin net t ob = pin net t ob') : pin net t (pin net u ob) = pin net t (pin net u ob') := by
  obtain ⟨hstream, hsource, hrest⟩ := pin_eq_iff.1 h
  refine pin_eq_iff.2 ⟨?_, ?_, fun key hkey => ?_⟩
  · rw [stream_pin, stream_pin, vpnOutStreamSettings_twice, vpnOutStreamSettings_twice, hstream]
  · rw [source_pin, source_pin, keptSource_comm, keptSource_comm t.iface, hsource]
  · rw [member?_pin_of_not_forced hkey, member?_pin_of_not_forced hkey, hrest key hkey]

theorem pin_pin_self (net : Links) (t : VpnOutboundConfig) (ob : Tree) :
    pin net t (pin net t ob) = pin net t ob := by
  refine pin_eq_iff.2 ⟨?_, ?_, fun key hkey => member?_pin_of_not_forced hkey⟩
  · rw [stream_pin, vpnOutStreamSettings_twice]
  · rw [source_pin, keptSource_keptSource]
    unfold keptSource
    simp only
    split <;> rfl

/-- Nothing of a blackhole stays. -/
theorem pin_blackhole (net : Links) (t : VpnOutboundConfig) (tag : String) :
    pin net t (blackhole tag) = pin net t (.obj []) := by
  refine pin_eq_iff.2 ⟨rfl, rfl, fun key hkey => ?_⟩
  simp only [forced, List.mem_cons, List.not_mem_nil, or_false, not_or] at hkey
  obtain ⟨-, -, -, hsettings, hprotocol, htag⟩ := hkey
  show Tree.lookup key _ = none
  refine Tree.lookup_eq_none fun m hm => ?_
  simp only [List.mem_cons, List.not_mem_nil, or_false] at hm
  rcases hm with rfl | rfl | rfl
  · exact Ne.symm hprotocol
  · exact Ne.symm hsettings
  · exact Ne.symm htag

theorem tagOf_pin (net : Links) (t : VpnOutboundConfig) (ob : Tree) : tagOf (pin net t ob) = t.tag := by
  rw [tagOf]
  simp only [member?_pin, String.reduceEq, if_false, if_true]
  rfl

theorem tagOf_blackhole (tag : String) : tagOf (blackhole tag) = tag := rfl

theorem sockopt_pin (net : Links) (t : VpnOutboundConfig) (ob : Tree) (key : String) :
    sockopt key (pin net t ob) =
      if "interface" = key then some (.str t.iface)
      else (withoutDialer ((((ob.member? "streamSettings").getD .null).member? "sockopt").getD .null)).member? key := by
  rw [sockopt, stream_pin, Option.bind_some]
  unfold vpnOutStreamSettings
  simp only
  rw [Tree.member?_set, if_pos rfl, Option.bind_some, Tree.member?_set]

/-- A pinned outbound can only be led elsewhere by its `proxySettings`. -/
theorem pinned_pin_iff (h : net.pins t = true) :
    Pinned net t.iface (pin net t ob) ↔ Absent (ob.member? "proxySettings") := by
  have hproxy : (pin net t ob).member? "proxySettings" = ob.member? "proxySettings" :=
    member?_pin_of_not_forced (by decide)
  rw [Links.pins, Bool.and_eq_true, Bool.and_eq_true, Bool.not_eq_true'] at h
  constructor
  · intro hpinned
    rw [← hproxy]
    exact hpinned.noProxy
  · intro habsent
    refine ⟨protocol_pin net t ob, of_decide_eq_true h.1.2, h.2, ?_, Or.inl ?_, ?_, ?_, ?_⟩
    · rw [sockopt_pin, if_pos rfl]
    · rw [member?_pin, if_pos rfl]
    · rw [sockopt_pin, if_neg (by decide)]
      exact (dialer_withoutDialer _).imp Or.inl id
    · rw [hproxy]
      exact habsent
    · rw [source_pin, keptSource]
      generalize trimSpace (((ob.member? "sendThrough").bind Tree.str?).getD "") = via
      cases husable : usable net t.iface via with
      | false => exact Or.inl (Or.inl rfl)
      | true =>
          right
          unfold usable at husable
          cases hip : parseIP via with
          | none =>
              rw [hip] at husable
              cases husable
          | some ip =>
              refine ⟨via, ip, rfl, hip, fun addrs haddrs => ?_⟩
              rw [hip, haddrs] at husable
              exact of_decide_eq_true husable

end

/-! ## Several tunnels of one tag -/

section

variable {net : Links} {tunnels ts : List VpnOutboundConfig} {t : VpnOutboundConfig} {ob ob' : Tree} {s : Option Tree}

/-- What becomes of an outbound that all these tunnels take for theirs. -/
def touched (net : Links) (ts : List VpnOutboundConfig) (s : Option Tree) : Option Tree :=
  ts.foldl (fun s t => touch net t s) s

theorem touched_cons : touched net (t :: ts) s = touched net ts (touch net t s) := rfl

theorem touched_concat : touched net (ts ++ [t]) s = touch net t (touched net ts s) := List.foldl_append

theorem touch_of_pins (h : net.pins t = true) (s : Option Tree) : touch net t s = some (pin net t (s.getD (.obj []))) :=
  if_pos h

theorem touch_of_not_pins (h : net.pins t ≠ true) (s : Option Tree) : touch net t s = s.map fun _ => blackhole t.tag :=
  if_neg h

theorem touch_some (net : Links) (t : VpnOutboundConfig) (ob : Tree) :
    ∃ ob', touch net t (some ob) = some ob' ∧ tagOf ob' = t.tag := by
  by_cases h : net.pins t = true
  · exact ⟨_, touch_of_pins h _, tagOf_pin net t ob⟩
  · exact ⟨_, touch_of_not_pins h _, tagOf_blackhole t.tag⟩

/-- Outbounds do not go away. -/
theorem touched_some (net : Links) (ts : List VpnOutboundConfig) (ob : Tree) : ∃ ob',
    touched net ts (some ob) = some ob' := by
  induction ts generalizing ob with
  | nil => exact ⟨ob, rfl⟩
  | cons t ts ih =>
      obtain ⟨ob', h, -⟩ := touch_some net t ob
      rw [touched_cons, h]
      exact ih ob'

theorem eq_none_of_touched (h : touched net ts s = none) : s = none := by
  cases s with
  | none => rfl
  | some ob =>
      obtain ⟨ob', hob'⟩ := touched_some net ts ob
      rw [hob'] at h
      cases h

theorem touched_congr (h : pin net t ob = pin net t ob') :
    (touched net ts (some ob)).map (pin net t) = (touched net ts (some ob')).map (pin net t) := by
  induction ts generalizing ob ob' with
  | nil => exact congrArg some h
  | cons u ts ih =>
      rw [touched_cons, touched_cons]
      by_cases hu : net.pins u = true
      · rw [touch_of_pins hu, touch_of_pins hu]
        exact ih (pin_pin_congr h)
      · rw [touch_of_not_pins hu, touch_of_not_pins hu]
        rfl

/-- Tunnels that leave no outbound at all leave nothing of one. -/
theorem touched_of_none (hnone : touched net ts none = none) (h : pin net t ob = pin net t (.obj [])) :
    (touched net ts (some ob)).map (pin net t) = some (pin net t (.obj [])) := by
  induction ts generalizing ob with
  | nil => exact congrArg some h
  | cons u ts ih =>
      rw [touched_cons] at hnone ⊢
      by_cases hu : net.pins u = true
      · rw [touch_of_pins hu] at hnone
        cases eq_none_of_touched hnone
      · rw [touch_of_not_pins hu] at hnone ⊢
        exact ih hnone (pin_blackhole net t u.tag)

/-- A second round changes nothing. -/
theorem touched_touched (net : Links) (ts : List VpnOutboundConfig) (s : Option Tree) :
    touched net ts (touched net ts s) = touched net ts s := by
  induction ts using List.reverseRecOn with
  | nil => rfl
  | append_singleton ts t ih =>
      rw [touched_concat, touched_concat]
      by_cases ht : net.pins t = true
      · rw [touch_of_pins ht, touch_of_pins ht]
        have hround : (touched net ts (some (pin net t ((touched net ts s).getD (.obj []))))).map (pin net t) =
            some (pin net t ((touched net ts s).getD (.obj []))) := by
          rw [touched_congr (pin_pin_self net t _)]
          cases hfirst : touched net ts s with
          | none =>
              obtain rfl := eq_none_of_touched hfirst
              exact touched_of_none hfirst rfl
          | some ob =>
              rw [hfirst] at ih
              rw [Option.getD_some, ih]
              rfl
        obtain ⟨ob', hob'⟩ := touched_some net ts (pin net t ((touched net ts s).getD (.obj [])))
        rw [hob'] at hround ⊢
        exact hround
      · rw [touch_of_not_pins ht, touch_of_not_pins ht]
        cases hfirst : touched net ts s with
        | none =>
            obtain rfl := eq_none_of_touched hfirst
            rw [Option.map_none, hfirst]
            rfl
        | some ob =>
            obtain ⟨ob', hob'⟩ := touched_some net ts (blackhole t.tag)
            rw [Option.map_some, hob']
            rfl

/-- `proxySettings` are left unless the outbound was a blackhole on the way. -/
theorem proxy_touched (net : Links) (ts : List VpnOutboundConfig) (s : Option Tree) :
    (touched net ts s).bind (Tree.member? "proxySettings") =
      if ts.all net.pins then s.bind (Tree.member? "proxySettings") else none := by
  induction ts generalizing s with
  | nil => rfl
  | cons t ts ih =>
      rw [touched_cons, ih, List.all_cons]
      by_cases ht : net.pins t = true
      · have hsame : (touch net t s).bind (Tree.member? "proxySettings") = s.bind (Tree.member? "proxySettings") := by
          rw [touch_of_pins ht, Option.bind_some, member?_pin_of_not_forced (by decide)]
          cases s <;> rfl
        rw [hsame, ht, Bool.true_and]
      · have hgone : (touch net t s).bind (Tree.member? "proxySettings") = none := by
          rw [touch_of_not_pins ht]
          cases s <;> rfl
        rw [hgone, Bool.eq_false_of_not_eq_true ht, Bool.false_and, ite_self, if_neg Bool.false_ne_true]

/-- The outbound is closed in the end, unless `proxySettings` are left. -/
theorem closed_touched_iff (hne : ts ≠ []) (hts : ∀ t ∈ ts, t ∈ tunnels ∧ t.tag = tagOf ob)
    (h : touched net ts s = some ob) :
    Closed net tunnels ob ↔ (ts.all net.pins = true → Absent (s.bind (Tree.member? "proxySettings"))) := by
  obtain ⟨ts, t, rfl⟩ := (List.eq_nil_or_concat' ts).resolve_left hne
  rw [touched_concat] at h
  rw [List.all_append, List.all_cons, List.all_nil, Bool.and_true]
  by_cases ht : net.pins t = true
  · rw [touch_of_pins ht] at h
    obtain rfl := Option.some.inj h
    have hproxy : ((touched net ts s).getD (.obj [])).member? "proxySettings" =
        (touched net ts s).bind (Tree.member? "proxySettings") := by
      cases touched net ts s <;> rfl
    have hpinned : Closed net tunnels (pin net t ((touched net ts s).getD (.obj []))) ↔
        Absent ((touched net ts s).bind (Tree.member? "proxySettings")) := by
      rw [← hproxy]
      constructor
      · rintro (hblack | ⟨u, -, -, hpinned⟩)
        · rw [protocol_pin] at hblack
          exact absurd (Tree.str.inj (Option.some.inj hblack)) (by decide)
        · have hmember := hpinned.noProxy
          rwa [member?_pin_of_not_forced (by decide)] at hmember
      · intro habsent
        have hmem := hts t (List.mem_append_right _ (List.mem_singleton_self t))
        exact Or.inr ⟨t, hmem.1, hmem.2, (pinned_pin_iff ht).2 habsent⟩
    rw [hpinned, proxy_touched, ht, Bool.and_true]
    by_cases hall : ts.all net.pins = true
    · rw [if_pos hall]
      exact ⟨fun habsent _ => habsent, fun himp => himp hall⟩
    · rw [if_neg hall]
      exact ⟨fun _ h => absurd h hall, fun _ => Or.inl rfl⟩
  · rw [touch_of_not_pins ht] at h
    obtain ⟨_, -, rfl⟩ := Option.map_eq_some_iff.1 h
    rw [Bool.eq_false_of_not_eq_true ht, Bool.and_false]
    exact ⟨fun _ hfalse => absurd hfalse Bool.false_ne_true, fun _ => Or.inl rfl⟩

end

/-! ## The list -/

section

variable {α : Type} {p q : α → Bool} {f : Option α → Option α}

/-- Elements that can neither be changed nor come out of a change stay. -/
theorem filter_changeFirst (hq : ∀ a, p a = true → q a = false) (hf : ∀ s, ∀ a ∈ f s, p a = true) (l : List α) :
    (changeFirst p f l).filter q = l.filter q := by
  have hdrop : ∀ s, (f s).toList.filter q = [] := by
    intro s
    refine List.filter_eq_nil_iff.2 fun a ha => ?_
    rw [hq a (hf s a (Option.mem_toList.1 ha))]
    exact Bool.false_ne_true
  induction l with
  | nil => exact hdrop none
  | cons a l ih =>
      rw [changeFirst]
      split
      case isTrue ha =>
        rw [List.filter_append, hdrop, List.filter_cons_of_neg (by rw [hq a ha]; exact Bool.false_ne_true)]
        rfl
      case isFalse ha => rw [List.filter_cons, List.filter_cons, ih]

/-- Of the elements in question the first is changed. -/
theorem filter_changeFirst_self (hf : ∀ s, ∀ a ∈ f s, p a = true) (l : List α) :
    (changeFirst p f l).filter p = (f (l.filter p).head?).toList ++ (l.filter p).tail := by
  have hkeep : ∀ s, (f s).toList.filter p = (f s).toList := by
    intro s
    exact List.filter_eq_self.2 fun a ha => hf s a (Option.mem_toList.1 ha)
  induction l with
  | nil => exact (hkeep none).trans (List.append_nil _).symm
  | cons a l ih =>
      rw [changeFirst]
      split
      case isTrue ha => rw [List.filter_append, hkeep, List.filter_cons_of_pos ha, List.head?_cons, List.tail_cons]
      case isFalse ha => rw [List.filter_cons_of_neg ha, List.filter_cons_of_neg ha, ih]

/-- A list is its keys in order with the elements of each key. -/
theorem eq_of_filter_key {κ : Type} [DecidableEq κ] (key : α → κ) {l l' : List α} (hkeys : l.map key = l'.map key)
    (h : ∀ k, l.filter (fun a => decide (key a = k)) = l'.filter fun a => decide (key a = k)) : l = l' := by
  induction l generalizing l' with
  | nil => exact (List.map_eq_nil_iff.1 hkeys.symm).symm
  | cons a l ih =>
      cases l' with
      | nil => cases hkeys
      | cons b l' =>
          rw [List.map_cons, List.map_cons, List.cons.injEq] at hkeys
          obtain rfl : a = b := by
            have hfirst := h (key a)
            rw [List.filter_cons, List.filter_cons, if_pos (decide_eq_true rfl),
              if_pos (decide_eq_true hkeys.1.symm)] at hfirst
            exact (List.cons.inj hfirst).1
          refine congrArg (a :: ·) (ih hkeys.2 fun k => ?_)
          have hk := h k
          rw [List.filter_cons, List.filter_cons] at hk
          split at hk
          · exact (List.cons.inj hk).2
          · exact hk

end

section

variable {net : Links} {tunnels : List VpnOutboundConfig} {t : VpnOutboundConfig} {obs : List Tree}

theorem tagOf_of_mem_touch (net : Links) (t : VpnOutboundConfig) (s : Option Tree) :
    ∀ ob ∈ touch net t s, decide (tagOf ob = t.tag) = true := by
  intro ob hob
  refine decide_eq_true ?_
  by_cases h : net.pins t = true
  · rw [touch_of_pins h] at hob
    rw [← Option.some.inj hob, tagOf_pin]
  · rw [touch_of_not_pins h] at hob
    obtain ⟨_, -, rfl⟩ := Option.map_eq_some_iff.1 hob
    exact tagOf_blackhole t.tag

/-- One turn leaves alone what does not carry the tunnel's tag. -/
theorem filter_place {q : Tree → Bool} (hq : t.tag ≠ "" → ∀ ob, tagOf ob = t.tag → q ob = false) :
    (place net obs t).filter q = obs.filter q := by
  rw [place]
  split
  · rfl
  case isFalse htag =>
    exact filter_changeFirst (fun ob hob => hq htag ob (of_decide_eq_true hob)) (tagOf_of_mem_touch net t) obs

theorem filter_run {q : Tree → Bool} (hq : ∀ t ∈ tunnels, t.tag ≠ "" → ∀ ob, tagOf ob = t.tag → q ob = false) :
    (tunnels.foldl (place net) obs).filter q = obs.filter q := by
  induction tunnels generalizing obs with
  | nil => rfl
  | cons t tunnels ih =>
      rw [List.foldl_cons, ih fun u hu => hq u (List.mem_cons_of_mem t hu), filter_place (hq t List.mem_cons_self)]

/-- After the loop: of the outbounds of a tag the first has seen all tunnels of that tag. -/
theorem tagged_run (net : Links) (tunnels : List VpnOutboundConfig) (obs : List Tree) {tag : String} (htag : tag ≠ "") :
    (tunnels.foldl (place net) obs).filter (fun ob => decide (tagOf ob = tag)) =
      (touched net (tunnels.filter fun t => decide (t.tag = tag))
          (obs.filter fun ob => decide (tagOf ob = tag)).head?).toList ++
        (obs.filter fun ob => decide (tagOf ob = tag)).tail := by
  induction tunnels generalizing obs with
  | nil =>
      show obs.filter (fun ob => decide (tagOf ob = tag)) = _
      cases obs.filter (fun ob => decide (tagOf ob = tag)) <;> rfl
  | cons t tunnels ih =>
      rw [List.foldl_cons, ih, List.filter_cons]
      by_cases ht : t.tag = tag
      · have hplace : (place net obs t).filter (fun ob => decide (tagOf ob = tag)) =
            (touch net t (obs.filter fun ob => decide (tagOf ob = tag)).head?).toList ++
              (obs.filter fun ob => decide (tagOf ob = tag)).tail := by
          subst ht
          rw [place, if_neg htag]
          exact filter_changeFirst_self (tagOf_of_mem_touch net t) obs
        rw [hplace, if_pos (decide_eq_true ht), touched_cons]
        cases obs.filter fun ob => decide (tagOf ob = tag) with
        | nil =>
            show _ = (touched net _ (touch net t none)).toList ++ []
            rw [List.head?_nil, List.tail_nil, List.append_nil]
            cases touch net t none <;> rfl
        | cons ob l =>
            obtain ⟨ob', hob', -⟩ := touch_some net t ob
            rw [List.head?_cons, List.tail_cons, hob']
            rfl
      · have hplace : (place net obs t).filter (fun ob => decide (tagOf ob = tag)) =
            obs.filter fun ob => decide (tagOf ob = tag) :=
          filter_place fun _ ob hob => decide_eq_false fun h => ht (hob.symm.trans h)
        rw [hplace, if_neg (by rw [decide_eq_false ht]; exact Bool.false_ne_true)]

/-- Tags are kept in order, and a tunnel with a device adds its own if it is missing. -/
theorem tags_place (net : Links) (obs : List Tree) (t : VpnOutboundConfig) :
    (place net obs t).map tagOf =
      obs.map tagOf ++ if t.tag ≠ "" ∧ net.pins t = true ∧ t.tag ∉ obs.map tagOf then [t.tag] else [] := by
  rw [place]
  by_cases htag : t.tag = ""
  · rw [if_pos htag, if_neg fun h => h.1 htag, List.append_nil]
  · rw [if_neg htag]
    induction obs with
    | nil =>
        by_cases h : net.pins t = true
        · rw [changeFirst, touch_of_pins h, if_pos ⟨htag, h, List.not_mem_nil⟩]
          exact congrArg (fun tag => [tag]) (tagOf_pin net t _)
        · rw [changeFirst, touch_of_not_pins h, if_neg fun hcond => h hcond.2.1]
          rfl
    | cons ob obs ih =>
        rw [changeFirst]
        by_cases hob : tagOf ob = t.tag
        · obtain ⟨ob', hob', htag'⟩ := touch_some net t ob
          rw [if_pos (decide_eq_true hob), hob', if_neg fun hcond =>
            hcond.2.2 (by rw [List.map_cons, hob]; exact List.mem_cons_self),
            List.append_nil]
          exact congrArg (· :: obs.map tagOf) (htag'.trans hob.symm)
        · rw [if_neg fun h => hob (of_decide_eq_true h), List.map_cons, ih, List.map_cons, List.cons_append]
          simp only [List.mem_cons, not_or, Ne.symm hob, not_false_eq_true, true_and]

/-- With every tag there, the loop keeps the tags. -/
theorem tags_run (h : ∀ t ∈ tunnels, t.tag ≠ "" → net.pins t = true → t.tag ∈ obs.map tagOf) :
    (tunnels.foldl (place net) obs).map tagOf = obs.map tagOf := by
  induction tunnels generalizing obs with
  | nil => rfl
  | cons t tunnels ih =>
      have hplace : (place net obs t).map tagOf = obs.map tagOf := by
        rw [tags_place, if_neg fun hcond => hcond.2.2 (h t List.mem_cons_self hcond.1 hcond.2.1), List.append_nil]
      rw [List.foldl_cons, ih, hplace]
      rw [hplace]
      exact fun u hu => h u (List.mem_cons_of_mem t hu)

/-- After the loop the tags are there. -/
theorem mem_tags_run (ht : t ∈ tunnels) (htag : t.tag ≠ "") (hpins : net.pins t = true) :
    t.tag ∈ (tunnels.foldl (place net) obs).map tagOf := by
  have hsubset : ∀ (us : List VpnOutboundConfig) (obs : List Tree),
    obs.map tagOf ⊆ (us.foldl (place net) obs).map tagOf := by
    intro us
    induction us with
    | nil => exact fun _ => List.Subset.refl _
    | cons u us ih =>
        intro obs
        refine List.Subset.trans ?_ (ih (place net obs u))
        rw [tags_place]
        exact List.subset_append_left _ _
  obtain ⟨before, after, rfl⟩ := List.append_of_mem ht
  rw [List.foldl_append, List.foldl_cons]
  refine hsubset after _ ?_
  rw [tags_place]
  by_cases hmem : t.tag ∈ (before.foldl (place net) obs).map tagOf
  · exact List.mem_append_left _ hmem
  · rw [if_pos ⟨htag, hpins, hmem⟩]
    exact List.mem_append_right _ (List.mem_singleton_self _)

/-- The loop is done after one round. -/
theorem run_run (net : Links) (tunnels : List VpnOutboundConfig) (obs : List Tree) :
    tunnels.foldl (place net) (tunnels.foldl (place net) obs) = tunnels.foldl (place net) obs := by
  refine eq_of_filter_key tagOf (tags_run fun t ht htag hpins => mem_tags_run ht htag hpins) fun tag => ?_
  by_cases htag : tag = ""
  · refine filter_run fun t _ ht ob hob => decide_eq_false fun h => ?_
    exact ht (hob.symm.trans (h.trans htag))
  · rw [tagged_run net tunnels _ htag, tagged_run net tunnels obs htag]
    generalize hs : (obs.filter fun ob => decide (tagOf ob = tag)) = l
    cases l with
    | nil =>
        have hagain := touched_touched net (tunnels.filter fun t => decide (t.tag = tag)) none
        rw [List.head?_nil, List.tail_nil, List.append_nil]
        cases htouched : touched net (tunnels.filter fun t => decide (t.tag = tag)) none with
        | none =>
            rw [Option.toList_none, List.head?_nil, htouched]
            rfl
        | some ob =>
            rw [htouched] at hagain
            rw [Option.toList_some, List.head?_cons, hagain]
            rfl
    | cons ob l =>
        have hagain := touched_touched net (tunnels.filter fun t => decide (t.tag = tag)) (some ob)
        obtain ⟨ob', hob'⟩ := touched_some net (tunnels.filter fun t => decide (t.tag = tag)) ob
        rw [hob'] at hagain
        rw [List.head?_cons, List.tail_cons, hob', Option.toList_some, List.singleton_append, List.head?_cons, hagain]
        rfl

end

/-! ## Documents -/

section

variable {net : Links} {tunnels : List VpnOutboundConfig} {t : VpnOutboundConfig} {ob : Tree} {obs : List Tree}

/-- An outbound as it is decoded and as it is written. -/
def IsRow (ob : Tree) : Prop := isMap ob = true ∧ ob.Written

theorem written_str (s : String) : (Tree.str s).Written := ⟨rfl, rfl⟩

theorem written_empty : (Tree.obj []).Written := ⟨rfl, rfl⟩

theorem written_getD {v : Option Tree} (h : ∀ w ∈ v, w.Written) : (v.getD .null).Written := by
  cases v with
  | none => exact ⟨rfl, rfl⟩
  | some w => exact h w rfl

theorem written_withoutDialer {opts : Tree} (h : opts.Written) : (withoutDialer opts).Written := by
  unfold withoutDialer
  split
  · exact h
  · split
    · exact h.delete _
    · exact h
  · exact h.delete _

theorem written_stream (h : ob.Written) (iface : String) :
    (vpnOutStreamSettings (ob.member? "streamSettings") iface).Written := by
  have hstream : ((ob.member? "streamSettings").getD .null).Written := written_getD fun w hw => h.of_member? hw
  have hopts : ((((ob.member? "streamSettings").getD .null).member? "sockopt").getD .null).Written :=
    written_getD fun w hw => hstream.of_member? hw
  exact hstream.set ((written_withoutDialer hopts).set (written_str iface) "interface") "sockopt"

theorem written_withSource (h : ob.Written) (iface : String) : (withSource net iface ob).Written := by
  unfold withSource
  simp only
  split
  · exact h.set (written_str _) _
  · exact h.delete _

theorem isRow_pin (h : ob.Written) : IsRow (pin net t ob) := by
  have hsettings : (Tree.obj [("domainStrategy", .str "UseIP")]).Written :=
    written_empty.set (written_str "UseIP") "domainStrategy"
  have hown := ((h.set (written_str t.tag) "tag").set (written_str "freedom") "protocol").set hsettings "settings"
  have hstream := hown.set (written_stream hown t.iface) "streamSettings"
  exact ⟨rfl, (written_withSource hstream t.iface).delete "mux"⟩

theorem isRow_blackhole (tag : String) : IsRow (blackhole tag) :=
  ⟨rfl, ((written_empty.set (written_str "blackhole") "protocol").set written_empty "settings").set
    (written_str tag) "tag"⟩

theorem isRow_rewritten (h : (isMap ob && ob.inRange) = true) : IsRow ob.rewritten := by
  rw [Bool.and_eq_true] at h
  refine ⟨?_, Tree.Written.of_inRange h.2⟩
  cases ob with
  | null => rfl
  | obj members => rfl
  | _ => exact absurd h.1 Bool.false_ne_true

theorem isRow_touch {s : Option Tree} (h : ∀ ob ∈ s, IsRow ob) : ∀ ob ∈ touch net t s, IsRow ob := by
  intro ob hob
  by_cases hpins : net.pins t = true
  · rw [touch_of_pins hpins] at hob
    rw [← Option.some.inj hob]
    cases s with
    | none => exact isRow_pin written_empty
    | some ob' => exact isRow_pin (h ob' rfl).2
  · rw [touch_of_not_pins hpins] at hob
    obtain ⟨_, -, rfl⟩ := Option.map_eq_some_iff.1 hob
    exact isRow_blackhole t.tag

theorem isRow_place (h : ∀ ob ∈ obs, IsRow ob) : ∀ ob ∈ place net obs t, IsRow ob := by
  rw [place]
  split
  · exact h
  · induction obs with
    | nil => exact fun ob hob => isRow_touch (fun _ h => by cases h) ob (Option.mem_toList.1 hob)
    | cons a obs ih =>
        rw [List.forall_mem_cons] at h
        rw [changeFirst]
        split
        · intro ob hob
          rcases List.mem_append.1 hob with hob | hob
          · exact isRow_touch (fun _ ha => Option.some.inj ha ▸ h.1) ob (Option.mem_toList.1 hob)
          · exact h.2 ob hob
        · exact List.forall_mem_cons.2 ⟨h.1, ih h.2⟩

theorem isRow_run (h : ∀ ob ∈ obs, IsRow ob) : ∀ ob ∈ tunnels.foldl (place net) obs, IsRow ob := by
  induction tunnels generalizing obs with
  | nil => exact h
  | cons t tunnels ih => exact ih (isRow_place h)

end

section

variable {net : Links} {tunnels : List VpnOutboundConfig} {config config' : XrayConfig} {obs : Option (List Tree)}

theorem withOutboundStats_twice (policy : Tree) :
    withOutboundStats (withOutboundStats policy) = withOutboundStats policy := by
  unfold withOutboundStats
  rw [Tree.member?_set, if_pos rfl, Option.getD_some, Tree.set_set]
  refine congrArg (policy.set "system") ?_
  refine Tree.obj_ext (setSorted_sorted _ _ (Tree.asMap_sorted _))
    (setSorted_sorted _ _ (Tree.asMap_sorted _)) fun key => ?_
  show (Tree.set (Tree.set (Tree.set (Tree.set _ _ _) _ _) _ _) _ _).member? key =
    (Tree.set (Tree.set _ _ _) _ _).member? key
  simp only [Tree.member?_set]
  split
  · rfl
  · split <;> rfl

theorem written_withOutboundStats {policy : Tree} (h : policy.Written) : (withOutboundStats policy).Written := by
  have htrue : (Tree.bool true).Written := ⟨rfl, rfl⟩
  have hsystem : ((policy.member? "system").getD .null).Written := written_getD fun w hw => h.of_member? hw
  exact h.set ((hsystem.set htrue _).set htrue _) _

theorem stats_twice (policy : Option Tree) :
    vpnOutEnableOutboundStats (vpnOutEnableOutboundStats policy) = vpnOutEnableOutboundStats policy := by
  have hagain : ∀ p : Tree, p.Written →
      vpnOutEnableOutboundStats (some (withOutboundStats p)) = some (withOutboundStats p) := by
    intro p hp
    have hwritten := written_withOutboundStats hp
    rw [vpnOutEnableOutboundStats, if_pos, hwritten.rewritten, withOutboundStats_twice]
    rw [hwritten.inRange]
    rfl
  cases policy with
  | none => exact hagain .null ⟨rfl, rfl⟩
  | some p =>
      rw [vpnOutEnableOutboundStats]
      split
      case isTrue h =>
        rw [Bool.and_eq_true] at h
        exact hagain p.rewritten (Tree.Written.of_inRange h.2)
      case isFalse h => rw [vpnOutEnableOutboundStats, if_neg h]

/-- What was decoded, entry by entry. -/
theorem decoded_rows (h : decodeOutbounds config.outbounds = .ok obs) :
    obs.getD [] = config.rows.map Tree.rewritten ∧ ∀ ob ∈ obs.getD [], IsRow ob := by
  unfold decodeOutbounds at h
  unfold XrayConfig.rows
  split at h
  case h_1 hdoc =>
    rw [hdoc, ← Except.ok.inj h]
    exact ⟨rfl, fun ob hob => absurd hob List.not_mem_nil⟩
  case h_2 hdoc =>
    rw [hdoc, ← Except.ok.inj h]
    exact ⟨rfl, fun ob hob => absurd hob List.not_mem_nil⟩
  case h_3 items hdoc =>
    split at h
    case isTrue hall =>
      rw [hdoc, ← Except.ok.inj h]
      refine ⟨rfl, fun ob hob => ?_⟩
      obtain ⟨ob', hob', rfl⟩ := List.mem_map.1 hob
      exact isRow_rewritten (List.all_eq_true.1 hall ob' hob')
    case isFalse => cases h
  case h_4 => cases h

/-- What is written is decoded as it is. -/
theorem decode_encode (isNil : Bool) {out : List Tree} (h : ∀ ob ∈ out, IsRow ob) :
    decodeOutbounds (some (encodeOutbounds isNil out)) = .ok (if isNil && out.isEmpty then none else some out) := by
  unfold encodeOutbounds
  split
  · rfl
  · have hall : (out.all fun ob => isMap ob && ob.inRange) = true := by
      refine List.all_eq_true.2 fun ob hob => ?_
      rw [(h ob hob).1, (h ob hob).2.inRange]
      rfl
    have hmap : out.map Tree.rewritten = out :=
      (List.map_inj_left.2 fun ob hob => (h ob hob).2.rewritten).trans (List.map_id out)
    rw [decodeOutbounds, if_pos hall, hmap]

theorem rows_encode (isNil : Bool) (out : List Tree) (policy : Option Tree) :
    XrayConfig.rows ⟨some (encodeOutbounds isNil out), policy⟩ = out := by
  unfold XrayConfig.rows encodeOutbounds
  cases hnull : isNil && out.isEmpty with
  | false => rfl
  | true =>
      rw [Bool.and_eq_true, List.isEmpty_iff] at hnull
      exact hnull.2.symm

theorem policyFor_twice (policy : Option Tree) :
    policyFor net tunnels (policyFor net tunnels policy) = policyFor net tunnels policy := by
  unfold policyFor
  split
  · exact stats_twice policy
  · rfl

/-- What a run that succeeds hands to Xray. -/
theorem apply_eq_ok (hne : tunnels ≠ []) (h : decodeOutbounds config.outbounds = .ok obs) :
    applyVpnOutboundsWith net config tunnels =
      .ok ⟨some (encodeOutbounds obs.isNone (tunnels.foldl (place net) (config.rows.map Tree.rewritten))),
        policyFor net tunnels config.policy⟩ := by
  rw [← (decoded_rows h).1, applyVpnOutboundsWith, if_neg (mt List.isEmpty_iff.1 hne), h]

theorem apply_twice (hne : tunnels ≠ []) (h : decodeOutbounds config.outbounds = .ok obs)
    (happly : applyVpnOutboundsWith net config tunnels = .ok config') :
    applyVpnOutboundsWith net config' tunnels = .ok config' := by
  rw [apply_eq_ok hne h] at happly
  obtain rfl := Except.ok.inj happly
  have hrows : ∀ ob ∈ tunnels.foldl (place net) (config.rows.map Tree.rewritten), IsRow ob := by
    rw [← (decoded_rows h).1]
    exact isRow_run (decoded_rows h).2
  have hsame : ∀ ob ∈ tunnels.foldl (place net) (config.rows.map Tree.rewritten), ob.rewritten = ob :=
    fun ob hob => (hrows ob hob).2.rewritten
  rw [apply_eq_ok hne (decode_encode _ hrows), rows_encode, (List.map_inj_left.2 hsame).trans (List.map_id _), run_run,
    policyFor_twice]
  generalize tunnels.foldl (place net) (config.rows.map Tree.rewritten) = out
  unfold encodeOutbounds
  cases hnull : obs.isNone && out.isEmpty with
  | false => rfl
  | true =>
      rw [Bool.and_eq_true] at hnull
      rw [hnull.2]
      rfl

end

/-! ## When the outbounds fail closed -/

section

variable {net : Links} {tunnels : List VpnOutboundConfig} {config config' : XrayConfig}
  {obs : Option (List Tree)} {ob : Tree}

theorem map_rewritten_eq_str {v : Option Tree} {s : String} : v.map Tree.rewritten = some (.str s) ↔
    v = some (.str s) := by
  cases v with
  | none => exact Iff.rfl
  | some w =>
      cases w with
      | str s' => exact Iff.rfl
      | _ => simp [Tree.rewritten, Tree.rebuild]

theorem absent_map_rewritten {v : Option Tree} : Absent (v.map Tree.rewritten) ↔ Absent v := by
  cases v with
  | none => exact Iff.rfl
  | some w =>
      cases w with
      | null => exact Iff.rfl
      | _ => simp [Absent, Tree.rewritten, Tree.rebuild]

theorem member?_rewritten (key : String) (ob : Tree) : ob.rewritten.member? key = (ob.member? key).map Tree.rewritten :=
  Tree.member?_rebuild Lit.reprint key ob

theorem tagOf_rewritten (ob : Tree) : tagOf ob.rewritten = tagOf ob := by
  rw [tagOf, member?_rewritten, tagOf]
  cases ob.member? "tag" with
  | none => rfl
  | some v => cases v <;> rfl

theorem sockopt_rewritten (key : String) (ob : Tree) : sockopt key ob.rewritten =
    (sockopt key ob).map Tree.rewritten := by
  unfold sockopt
  rw [member?_rewritten]
  cases ob.member? "streamSettings" with
  | none => rfl
  | some stream =>
      rw [Option.map_some, Option.bind_some, Option.bind_some, member?_rewritten]
      cases stream.member? "sockopt" with
      | none => rfl
      | some opts => exact member?_rewritten key opts

theorem pinned_rewritten {iface : String} : Pinned net iface ob.rewritten ↔ Pinned net iface ob := by
  have hmember : ∀ key s, ob.rewritten.member? key = some (.str s) ↔ ob.member? key = some (.str s) := by
    intro key s
    rw [member?_rewritten, map_rewritten_eq_str]
  have habsent : ∀ key, Absent (ob.rewritten.member? key) ↔ Absent (ob.member? key) := by
    intro key
    rw [member?_rewritten, absent_map_rewritten]
  have hopt : ∀ key s, sockopt key ob.rewritten = some (.str s) ↔ sockopt key ob = some (.str s) := by
    intro key s
    rw [sockopt_rewritten, map_rewritten_eq_str]
  have hnoOpt : Absent (sockopt "dialerProxy" ob.rewritten) ↔ Absent (sockopt "dialerProxy" ob) := by
    rw [sockopt_rewritten, absent_map_rewritten]
  constructor
  · intro h
    refine ⟨(hmember _ _).1 h.freedom, h.device, h.present, (hopt _ _).1 h.bound, (habsent _).1 h.noMux,
      h.noDialer.imp hnoOpt.1 (hopt _ _).1, (habsent _).1 h.noProxy, h.source.imp (habsent _).1 ?_⟩
    rintro ⟨via, ip, hvia, hip⟩
    exact ⟨via, ip, (hmember _ _).1 hvia, hip⟩
  · intro h
    refine ⟨(hmember _ _).2 h.freedom, h.device, h.present, (hopt _ _).2 h.bound, (habsent _).2 h.noMux,
      h.noDialer.imp hnoOpt.2 (hopt _ _).2, (habsent _).2 h.noProxy, h.source.imp (habsent _).2 ?_⟩
    rintro ⟨via, ip, hvia, hip⟩
    exact ⟨via, ip, (hmember _ _).2 hvia, hip⟩

theorem closed_rewritten : Closed net tunnels ob.rewritten ↔ Closed net tunnels ob := by
  unfold Closed
  simp only [member?_rewritten, map_rewritten_eq_str, tagOf_rewritten, pinned_rewritten]

theorem named_iff : named tunnels ob = true ↔ ∃ t ∈ tunnels, t.tag ≠ "" ∧ tagOf ob = t.tag := by
  rw [named, Bool.and_eq_true, List.any_eq_true]
  constructor
  · rintro ⟨hne, t, ht, htag⟩
    have heq := of_decide_eq_true htag
    exact ⟨t, ht, heq ▸ of_decide_eq_true hne, heq.symm⟩
  · rintro ⟨t, ht, hne, heq⟩
    exact ⟨decide_eq_true (heq ▸ hne), t, ht, decide_eq_true heq.symm⟩

theorem named_rewritten : named tunnels ob.rewritten = named tunnels ob := by
  rw [named, named, tagOf_rewritten]

theorem tagged_rewritten (config : XrayConfig) (tag : String) :
    (config.rows.map Tree.rewritten).filter (fun ob => decide (tagOf ob = tag)) =
      (config.tagged tag).map Tree.rewritten := by
  rw [XrayConfig.tagged, List.filter_map]
  refine congrArg (List.map Tree.rewritten) (List.filter_congr fun ob _ => ?_)
  exact congrArg (fun tag' => decide (tag' = tag)) (tagOf_rewritten ob)

theorem absent_head_iff (l : List Tree) :
    Absent ((l.map Tree.rewritten).head?.bind (Tree.member? "proxySettings")) ↔
      ∀ ob ∈ l.head?, Absent (ob.member? "proxySettings") := by
  cases l with
  | nil =>
      refine ⟨fun _ ob hob => ?_, fun _ => Or.inl rfl⟩
      cases hob
  | cons ob l =>
      rw [List.map_cons, List.head?_cons, Option.bind_some, member?_rewritten, absent_map_rewritten]
      exact ⟨fun h ob' hob' => Option.some.inj hob' ▸ h, fun h => h ob rfl⟩

/-- The first outbound of a tag is closed afterwards unless it keeps its `proxySettings`. -/
theorem first_closed_iff {t : VpnOutboundConfig} (ht : t ∈ tunnels) {s : Option Tree}
    (htags : ∀ ob ∈ touched net (tunnels.filter fun u => decide (u.tag = t.tag)) s, tagOf ob = t.tag) :
    (∀ ob ∈ touched net (tunnels.filter fun u => decide (u.tag = t.tag)) s, Closed net tunnels ob) ↔
      ((∀ u ∈ tunnels, u.tag = t.tag → net.pins u = true) → Absent (s.bind (Tree.member? "proxySettings"))) := by
  have hmem : t ∈ tunnels.filter fun u => decide (u.tag = t.tag) := List.mem_filter.2 ⟨ht, decide_eq_true rfl⟩
  have hall : (tunnels.filter fun u => decide (u.tag = t.tag)).all net.pins = true ↔
      ∀ u ∈ tunnels, u.tag = t.tag → net.pins u = true := by
    rw [List.all_eq_true]
    constructor
    · exact fun h u hu htag => h u (List.mem_filter.2 ⟨hu, decide_eq_true htag⟩)
    · intro h u hu
      obtain ⟨hu, htag⟩ := List.mem_filter.1 hu
      exact h u hu (of_decide_eq_true htag)
  rw [← hall]
  cases hfinal : touched net (tunnels.filter fun u => decide (u.tag = t.tag)) s with
  | none =>
      obtain rfl := eq_none_of_touched hfinal
      refine ⟨fun _ _ => Or.inl rfl, fun _ ob hob => ?_⟩
      cases hob
  | some ob =>
      have hts : ∀ u ∈ tunnels.filter fun u => decide (u.tag = t.tag), u ∈ tunnels ∧ u.tag = tagOf ob := by
        intro u hu
        obtain ⟨hu, htag⟩ := List.mem_filter.1 hu
        exact ⟨hu, (of_decide_eq_true htag).trans (htags ob hfinal).symm⟩
      rw [← closed_touched_iff (List.ne_nil_of_mem hmem) hts hfinal]
      exact ⟨fun h => h ob rfl, fun h ob' hob' => Option.some.inj hob' ▸ h⟩

/-- The outbounds of one tunnel are closed afterwards. -/
theorem tagged_closed_iff {t : VpnOutboundConfig} (ht : t ∈ tunnels) (htag : t.tag ≠ "") :
    (∀ ob ∈ tunnels.foldl (place net) (config.rows.map Tree.rewritten), tagOf ob = t.tag → Closed net tunnels ob) ↔
      ((∀ u ∈ tunnels, u.tag = t.tag → net.pins u = true) →
          ∀ ob ∈ (config.tagged t.tag).head?, Absent (ob.member? "proxySettings")) ∧
        ∀ ob ∈ (config.tagged t.tag).tail, Closed net tunnels ob := by
  have hrun := tagged_run net tunnels (config.rows.map Tree.rewritten) htag
  rw [tagged_rewritten, ← List.map_tail] at hrun
  have hmem : ∀ ob, ob ∈ tunnels.foldl (place net) (config.rows.map Tree.rewritten) ∧ tagOf ob = t.tag ↔
      ob ∈ touched net (tunnels.filter fun u => decide (u.tag = t.tag))
        ((config.tagged t.tag).map Tree.rewritten).head? ∨
        ob ∈ (config.tagged t.tag).tail.map Tree.rewritten := by
    intro ob
    refine Iff.trans ?_ (or_congr_left Option.mem_toList)
    rw [← List.mem_append, ← hrun, List.mem_filter, decide_eq_true_iff]
  rw [← absent_head_iff, ← first_closed_iff ht fun ob hob => ((hmem ob).2 (Or.inl hob)).2]
  constructor
  · intro h
    refine ⟨fun ob hob => ?_, fun ob hob => closed_rewritten.1 ?_⟩
    · have hout := (hmem ob).2 (Or.inl hob)
      exact h ob hout.1 hout.2
    · have hout := (hmem ob.rewritten).2 (Or.inr (List.mem_map_of_mem hob))
      exact h ob.rewritten hout.1 hout.2
  · rintro ⟨hfirst, hlater⟩ ob hob htagged
    rcases (hmem ob).1 ⟨hob, htagged⟩ with hob | hob
    · exact hfirst ob hob
    · obtain ⟨ob', hob', rfl⟩ := List.mem_map.1 hob
      exact closed_rewritten.2 (hlater ob' hob')

/-- The other entries are written as they were decoded. -/
theorem others_run (net : Links) (tunnels : List VpnOutboundConfig) (config : XrayConfig) :
    (tunnels.foldl (place net) (config.rows.map Tree.rewritten)).filter (fun ob => !named tunnels ob) =
      (config.others tunnels).map Tree.rewritten := by
  rw [filter_run, XrayConfig.others, List.filter_map]
  · refine congrArg (List.map Tree.rewritten) (List.filter_congr fun ob _ => ?_)
    exact congrArg (fun b => !b) named_rewritten
  · intro t ht htag ob hob
    rw [named_iff.2 ⟨t, ht, htag, hob⟩]
    rfl

theorem others_same_iff (net : Links) (tunnels : List VpnOutboundConfig) (config : XrayConfig) :
    ((tunnels.foldl (place net) (config.rows.map Tree.rewritten)).filter fun ob => !named tunnels ob).map Tree.meaning =
        (config.others tunnels).map Tree.meaning ↔
      ∀ ob ∈ config.others tunnels, ob.Exact := by
  rw [others_run, List.map_map, List.map_inj_left]
  exact forall₂_congr fun ob _ => Tree.meaning_rewritten_iff ob

theorem harmless_of_failsClosed (hne : tunnels ≠ []) (hdecode : decodeOutbounds config.outbounds = .ok obs)
    (h : FailsClosed net config tunnels) : Harmless net config tunnels := by
  obtain ⟨hrows, hothers, -⟩ := h _ (apply_eq_ok hne hdecode)
  rw [rows_encode] at hrows
  rw [XrayConfig.others, rows_encode] at hothers
  have hclosed : ∀ t ∈ tunnels, t.tag ≠ "" →
      ∀ ob ∈ tunnels.foldl (place net) (config.rows.map Tree.rewritten), tagOf ob = t.tag → Closed net tunnels ob :=
    fun t ht htag ob hob heq => hrows ob hob (named_iff.2 ⟨t, ht, htag, heq⟩)
  refine ⟨fun t ht htag => ?_, fun t ht htag => ?_, (others_same_iff net tunnels config).1 hothers⟩
  · exact ((tagged_closed_iff ht htag).1 (hclosed t ht htag)).2
  · exact ((tagged_closed_iff ht htag).1 (hclosed t ht htag)).1

theorem failsClosed_of_harmless (hne : tunnels ≠ []) (hdecode : decodeOutbounds config.outbounds = .ok obs)
    (h : Harmless net config tunnels) : FailsClosed net config tunnels := by
  intro config' happly
  have htwice := apply_twice hne hdecode happly
  rw [apply_eq_ok hne hdecode] at happly
  obtain rfl := Except.ok.inj happly
  refine ⟨fun ob hob hnamed => ?_, ?_, htwice⟩
  · rw [rows_encode] at hob
    obtain ⟨t, ht, htag, heq⟩ := named_iff.1 hnamed
    exact (tagged_closed_iff ht htag).2 ⟨h.direct t ht htag, h.later t ht htag⟩ ob hob heq
  · rw [XrayConfig.others, rows_encode]
    exact (others_same_iff net tunnels config).2 h.exact

end

/-- The outbounds fail closed exactly when they are harmless before, or nothing is rewritten. -/
theorem failsClosed_iff_harmless (net : Links) (config : XrayConfig) (tunnels : List VpnOutboundConfig) :
    FailsClosed net config tunnels ↔
      ∀ obs, decodeOutbounds config.outbounds = .ok obs → tunnels ≠ [] → Harmless net config tunnels := by
  constructor
  · exact fun h obs hdecode hne => harmless_of_failsClosed hne hdecode h
  · intro h
    rcases eq_or_ne tunnels [] with rfl | hne
    · intro config' happly
      obtain rfl := Except.ok.inj happly
      refine ⟨fun ob _ hnamed => ?_, rfl, rfl⟩
      obtain ⟨t, ht, -⟩ := named_iff.1 hnamed
      cases ht
    · cases hdecode : decodeOutbounds config.outbounds with
      | error e =>
          intro config' happly
          rw [applyVpnOutboundsWith, if_neg (mt List.isEmpty_iff.1 hne), hdecode] at happly
          cases happly
      | ok obs => exact failsClosed_of_harmless hne hdecode (h obs hdecode hne)

/-- A freedom outbound, with more members. -/
def freedomRow (tag : String) (rest : List (String × Tree)) : Tree :=
  .obj (("tag", .str tag) :: ("protocol", .str "freedom") :: rest)

/-- An outbound of the tunnel that is sent through another one. -/
def proxied : XrayConfig := ⟨some (.arr [freedomRow "vpn1" [("proxySettings", .obj [("tag", .str "warp")])]]), none⟩

/-- Two outbounds of the tunnel. -/
def repeated : XrayConfig := ⟨some (.arr [freedomRow "vpn1" [], freedomRow "vpn1" []]), none⟩

/-- The device is there, and yet `proxySettings` and a second outbound of the tag stay as
they are. -/
theorem proxied_not_closed :
    ¬FailsClosed (fun _ => .up (some [])) proxied [{ tag := "vpn1", kind := "wireguard", iface := "wg0" }] ∧
      ¬FailsClosed (fun _ => .up (some [])) repeated [{ tag := "vpn1", kind := "wireguard", iface := "wg0" }] := by
  constructor
  · intro h
    have hharmless := harmless_of_failsClosed (List.cons_ne_nil _ _) rfl h
    have habsent := hharmless.direct _ List.mem_cons_self (by decide) (by decide) _ rfl
    rcases habsent with habsent | habsent
    · cases habsent
    · cases habsent
  · intro h
    have hharmless := harmless_of_failsClosed (List.cons_ne_nil _ _) rfl h
    have hsecond : freedomRow "vpn1" [] ∈ (repeated.tagged "vpn1").tail := List.mem_singleton_self _
    rcases hharmless.later _ List.mem_cons_self (by decide) _ hsecond with hblack | ⟨t, -, -, hpinned⟩
    · exact absurd (Tree.str.inj (Option.some.inj hblack)) (by decide)
    · cases hpinned.bound

end Simorgh.Vpn.Outbounds
