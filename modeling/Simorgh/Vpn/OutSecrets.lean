import Mathlib.Data.List.Forall2
import Simorgh.Lib.JsonTree
import Simorgh.Panel.Model

/-!
# Secrets of the outbound tunnels

The panel stores outbound tunnels with the settings their protocol needs, keys and passwords
among them.  A list for the browser has the secrets taken out by their names, and saving a
tunnel puts back whatever a posted object does not have.  The protocol decodes the settings
into a struct, which takes a member for a field in whatever case it is written, the last one
last.

* `maskVpnOutSecrets`, `mergeKeptSettings`, `save` — the list and the way back.
* `Hidden` — the list does not depend on the secrets.
* `Survives` — a secret that is not posted is what it was.
* `secrets_kept_iff` — both hold exactly when no secret that is shown has another spelling and
  the secrets are the same in the order of the keys.
* `respelled_secret_listed` — a private key under `PrivateKey` is shown.
-/

namespace Simorgh.Vpn.Outbounds

open Simorgh.Lib Simorgh.Lib.Json Simorgh.Panel

/-! ## Protocols -/

/-- The protocols with a driver. -/
inductive Kind where
  | wireguard
  | amneziaWG
  | gre
  | openVPN
  | l2tp
  | ikev2
  | pptp
  | openConnect
  | sstp
  deriving DecidableEq

/-- The name of a driver. -/
def Kind.name : Kind → String
  | .wireguard => "wireguard"
  | .amneziaWG => "awg"
  | .gre => "gre"
  | .openVPN => "openvpn"
  | .l2tp => "l2tp"
  | .ikev2 => "ikev2"
  | .pptp => "pptp"
  | .openConnect => "openconnect"
  | .sstp => "sstp"

/-- `SecretKeys`: each is a text field of the struct the driver decodes into. -/
def Kind.secretKeys : Kind → List String
  | .wireguard => ["privateKey", "presharedKey"]
  | .amneziaWG => ["privateKey", "presharedKey"]
  | .gre => ["ipsecPsk"]
  | .openVPN => ["profile", "password", "key", "tlsAuth", "tlsCrypt"]
  | .l2tp => ["password", "ipsecPsk"]
  | .ikev2 => ["password", "psk", "key"]
  | .pptp => ["password"]
  | .openConnect => ["password", "key", "keyPassword", "totpSecret"]
  | .sstp => ["password"]

/-- The drivers. -/
def kinds : List Kind :=
  [.wireguard, .amneziaWG, .gre, .openVPN, .l2tp, .ikev2, .pptp, .openConnect, .sstp]

/-- The driver of a name. -/
def vpnOutDriverFor (name : String) : Option Kind := kinds.find? fun k => decide (k.name = name)

theorem vpnOutDriverFor_name (k : Kind) : vpnOutDriverFor k.name = some k := by
  cases k <;> decide

/-! ## The service -/

/-- A stored tunnel; without settings there is nothing at all. -/
structure VpnOutboundConfig where
  tag : String
  kind : String
  remark : String := ""
  enable : Bool := true
  iface : String := ""
  settings : Option Tree := none

/-- `maskVpnOutSecrets`: what is no object is not shown. -/
def maskVpnOutSecrets (kind : String) (settings : Option Tree) : Option Tree :=
  match settings, vpnOutDriverFor kind with
  | none, _ => none
  | some _, none => none
  | some (.obj members), some k =>
      some (.obj ((Tree.toMap members).filter fun m => decide (m.1 ∉ k.secretKeys)))
  | some .null, some _ => some .null
  | some _, some _ => none

/-- The tunnels as they are shown. -/
def list (all : List VpnOutboundConfig) : List VpnOutboundConfig :=
  all.map fun c => { c with settings := maskVpnOutSecrets c.kind c.settings }

/-- The members that were not sent keep the stored values. -/
def mergeMembers (incoming stored : List (String × Tree)) : List (String × Tree) :=
  (Tree.toMap stored).foldl
    (fun out m => if (Tree.lookup m.1 incoming).isSome then out else setSorted m.1 m.2 out) (Tree.toMap incoming)

/-- `mergeKeptSettings`; with a posted `null` and something stored it writes to a nil map. -/
def mergeKeptSettings (incoming stored : Option Tree) : Except String (Option Tree) :=
  match incoming, stored with
  | incoming, none => .ok incoming
  | none, some s => .ok (some s)
  | some (.obj i), some (.obj o) => .ok (some (.obj (mergeMembers i o)))
  | some (.obj i), some .null => .ok (some (.obj (Tree.toMap i)))
  | some .null, some (.obj o) =>
      if o = [] then .ok (some .null) else .error "assignment to entry in nil map"
  | some i, some _ => .ok (some i)

/-- The tunnel with a tag. -/
def findVpnTunnel (all : List VpnOutboundConfig) (tag : String) : Option VpnOutboundConfig :=
  all.find? fun c => decide (c.tag = tag)

/-- What the drivers and the host answer. -/
structure Host where
  available : Kind → Bool
  validate : VpnOutboundConfig → Except String Unit
  bringUp : VpnOutboundConfig → Except String String
  persists : Bool

/-- The settings that are validated and stored. -/
def keptSettings (all : List VpnOutboundConfig) (cfg : VpnOutboundConfig) : Except String (Option Tree) :=
  match findVpnTunnel all cfg.tag with
  | none => .ok cfg.settings
  | some prev => if prev.kind = cfg.kind then mergeKeptSettings cfg.settings prev.settings else .ok cfg.settings

/-- A tunnel that is saved disabled has no device. -/
def Host.raise (h : Host) (cfg : VpnOutboundConfig) : Except String String :=
  if cfg.enable then h.bringUp cfg else .ok ""

/-- `Save`, from where the stored tunnels have been read: the tunnel that is stored. -/
def saved (h : Host) (all : List VpnOutboundConfig) (cfg : VpnOutboundConfig) : Except String VpnOutboundConfig := do
  let settings ← keptSettings all cfg
  let cfg := { cfg with settings := settings }
  h.validate cfg
  let iface ← h.raise cfg
  if h.persists then .ok { cfg with iface := iface } else .error "persist"

/-- `Save`: the tunnels that are stored afterwards. -/
def save (h : Host) (all : List VpnOutboundConfig) (cfg : VpnOutboundConfig) : List VpnOutboundConfig :=
  let cfg := { cfg with tag := trimSpace cfg.tag, kind := trimSpace cfg.kind }
  if cfg.tag = "" ∨ cfg.tag.toList.any (fun c => decide (c ∈ [' ', '\t', '\r', '\n'])) = true then all
  else match vpnOutDriverFor cfg.kind with
    | none => all
    | some k =>
        if !h.available k then all
        else match saved h all cfg with
          | .error _ => all
          | .ok cfg => all.filter (fun c => decide (c.tag ≠ cfg.tag)) ++ [cfg]

/-! ## The property and its condition -/

/-- The member is read as a secret. -/
def isSecret (k : Kind) (key : String) : Bool := k.secretKeys.any fun s => sameName key s

/-- Two members that differ in a secret at most. -/
def SameButSecret (k : Kind) (m m' : String × Tree) : Prop :=
  m.1 = m'.1 ∧ (m.2 = m'.2 ∨ isSecret k m.1 = true ∧ ∃ v v', m.2 = .str v ∧ m'.2 = .str v')

/-- The list is the same for settings that differ in secrets only. -/
def Hidden (k : Kind) (members : List (String × Tree)) : Prop :=
  ∀ members', List.Forall₂ (SameButSecret k) members members' → ∀ (c : VpnOutboundConfig) before after,
    list (before ++ { c with kind := k.name, settings := some (.obj members') } :: after) =
      list (before ++ { c with kind := k.name, settings := some (.obj members) } :: after)

/-- What the driver decodes for a secret. -/
def decoded (name : String) (settings : Option Tree) : String := (settings.map (Tree.text name)).getD ""

/-- Saving an object in which no secret is mentioned leaves the secrets as they were. -/
def Survives (k : Kind) (members : List (String × Tree)) : Prop :=
  ∀ (h : Host) (all : List VpnOutboundConfig) (prev cfg : VpnOutboundConfig) (edit : List (String × Tree)),
    findVpnTunnel all prev.tag = some prev → prev.kind = k.name → prev.settings = some (.obj members) →
    trimSpace cfg.tag = prev.tag → trimSpace cfg.kind = k.name → cfg.settings = some (.obj edit) →
    (∀ m ∈ edit, isSecret k m.1 = false) →
      ∀ c ∈ findVpnTunnel (save h all cfg) prev.tag, ∀ s ∈ k.secretKeys,
        decoded s c.settings = Tree.text s (.obj members)

/-- A secret that is among the members of the map stands under its own name. -/
def OwnNames (k : Kind) (members : List (String × Tree)) : Prop :=
  ∀ key v, Tree.lookup key members = some (.str v) → isSecret k key = true → key ∈ k.secretKeys

/-- In the order of the keys, with the last member of each, the secrets are the same. -/
def SameInOrder (k : Kind) (members : List (String × Tree)) : Prop :=
  ∀ s ∈ k.secretKeys, Tree.text s (.obj (Tree.toMap members)) = Tree.text s (.obj members)

/-! ## Maps and their members -/

section

variable {members : List (String × Tree)}

/-- Only the members that are taken for the field count. -/
theorem text_filter (s : String) (members : List (String × Tree)) :
    Tree.text s (.obj members) = Tree.text s (.obj (members.filter fun m => sameName m.1 s)) := by
  unfold Tree.text
  simp only
  generalize "" = acc
  induction members generalizing acc with
  | nil => rfl
  | cons m ms ih =>
      rw [List.foldl_cons, List.filter_cons]
      cases hsame : sameName m.1 s with
      | true =>
          rw [if_pos rfl, if_pos rfl, List.foldl_cons, hsame, if_pos rfl]
          exact ih _
      | false =>
          rw [if_neg Bool.false_ne_true, if_neg Bool.false_ne_true]
          exact ih _

/-- Of the members that were not sent, in any spelling, those of the map are merged in. -/
theorem filter_mergeMembers {edit : List (String × Tree)} {s : String}
    (hno : ∀ m ∈ edit, sameName m.1 s = false) :
    (mergeMembers edit members).filter (fun m => sameName m.1 s) =
      (Tree.toMap members).filter fun m => sameName m.1 s := by
  have hfold : ∀ (l out : List (String × Tree)), out.Pairwise (fun a b => a.1 < b.1) →
      (l.foldl (fun out m => if (Tree.lookup m.1 edit).isSome then out else setSorted m.1 m.2 out) out).filter
          (fun m => sameName m.1 s) =
        (l.filter fun m => sameName m.1 s).foldl (fun out m => setSorted m.1 m.2 out)
          (out.filter fun m => sameName m.1 s) := by
    intro l
    induction l with
    | nil => exact fun _ _ => rfl
    | cons m l ih =>
        intro out hout
        rw [List.foldl_cons, List.filter_cons]
        cases hsame : sameName m.1 s with
        | true =>
            have hnone : Tree.lookup m.1 edit = none := by
              refine Tree.lookup_eq_none fun a ha heq => ?_
              have hfalse := hno a ha
              rw [heq, hsame] at hfalse
              cases hfalse
            rw [hnone, if_pos rfl, List.foldl_cons, if_neg (by exact Bool.false_ne_true),
              ih _ (setSorted_sorted _ _ hout), filter_setSorted (sameName · s) m.1 m.2 hout, if_pos hsame]
        | false =>
            rw [if_neg Bool.false_ne_true]
            split
            · exact ih out hout
            · rw [ih _ (setSorted_sorted _ _ hout), filter_setSorted (sameName · s) m.1 m.2 hout, hsame,
                if_neg Bool.false_ne_true]
  have hedit : (Tree.toMap edit).filter (fun m => sameName m.1 s) = [] := by
    refine List.filter_eq_nil_iff.2 fun m hm => ?_
    have hmem := Tree.lookup_of_mem_toMap hm
    by_contra hsame
    have hnone : Tree.lookup m.1 edit = none := by
      refine Tree.lookup_eq_none fun a ha heq => ?_
      have hfalse := hno a ha
      rw [heq, hsame] at hfalse
      cases hfalse
    rw [hnone] at hmem
    cases hmem
  rw [mergeMembers, hfold _ _ (Tree.toMap_sorted edit), hedit,
    foldl_setSorted ((Tree.toMap_sorted members).sublist List.filter_sublist) (fun a ha => by cases ha)]
  rfl

end

/-! ## The list -/

section

variable {k : Kind} {members : List (String × Tree)}

/-- Maps that are related member by member stay so. -/
theorem forall₂_setSorted {R : String × Tree → String × Tree → Prop} (hkey : ∀ m m', R m m' → m.1 = m'.1)
    {l l' : List (String × Tree)} (h : List.Forall₂ R l l') {key : String} {v v' : Tree}
    (hv : R (key, v) (key, v')) : List.Forall₂ R (setSorted key v l) (setSorted key v' l') := by
  induction h with
  | nil => exact .cons hv .nil
  | @cons m m' l l' hm hl ih =>
      obtain ⟨name, t⟩ := m
      obtain ⟨name', t'⟩ := m'
      obtain rfl : name = name' := hkey _ _ hm
      unfold setSorted
      split
      · exact .cons hv (.cons hm hl)
      · split
        · exact .cons hv hl
        · exact .cons hm ih

theorem forall₂_toMap {R : String × Tree → String × Tree → Prop} (hkey : ∀ m m', R m m' → m.1 = m'.1)
    {members members' : List (String × Tree)} (h : List.Forall₂ R members members') :
    List.Forall₂ R (Tree.toMap members) (Tree.toMap members') := by
  have hfold : ∀ {l l' : List (String × Tree)}, List.Forall₂ R l l' → ∀ {out out' : List (String × Tree)},
      List.Forall₂ R out out' → List.Forall₂ R (l.foldl (fun out m => setSorted m.1 m.2 out) out)
        (l'.foldl (fun out m => setSorted m.1 m.2 out) out') := by
    intro l l' hl
    induction hl with
    | nil => exact fun hout => hout
    | @cons m m' l l' hm hl ih =>
        intro out out' hout
        obtain ⟨name, t⟩ := m
        obtain ⟨name', t'⟩ := m'
        obtain rfl : name = name' := hkey _ _ hm
        exact ih (forall₂_setSorted hkey hout hm)
  exact hfold h .nil

/-- What is shown of an object. -/
def shown (k : Kind) (members : List (String × Tree)) : List (String × Tree) :=
  (Tree.toMap members).filter fun m => decide (m.1 ∉ k.secretKeys)

theorem mask_obj (k : Kind) (members : List (String × Tree)) :
    maskVpnOutSecrets k.name (some (.obj members)) = some (.obj (shown k members)) := by
  unfold maskVpnOutSecrets
  rw [vpnOutDriverFor_name]
  rfl

theorem lookup_shown {key : String} (hkey : key ∉ k.secretKeys) :
    ((shown k members).find? fun m => decide (m.1 = key)).map (·.2) = Tree.lookup key members := by
  rw [← Tree.find?_toMap, shown, List.find?_filter]
  congr 2
  funext m
  by_cases h : m.1 = key
  · simp [h, hkey]
  · simp [h]

/-- The list is the same if what is shown is. -/
theorem hidden_iff_shown :
    Hidden k members ↔ ∀ members', List.Forall₂ (SameButSecret k) members members' →
      shown k members' = shown k members := by
  refine forall_congr' fun members' => imp_congr_right fun _ => ?_
  constructor
  · intro h
    have hone := h { tag := "", kind := "" } [] []
    simp only [list, List.nil_append, List.map_cons, List.map_nil, mask_obj, List.cons.injEq, and_true,
      VpnOutboundConfig.mk.injEq, true_and, Option.some.injEq, Tree.obj.injEq] at hone
    exact hone
  · intro h c before after
    simp only [list, List.map_append, List.map_cons, mask_obj, h]

/-- The texts under one name replaced. -/
def retyped (key text : String) (name : String) (t : Tree) : Tree :=
  match t with
  | .str v => if name = key then .str text else .str v
  | other => other

theorem sameButSecret_retyped {key : String} (hsecret : isSecret k key = true) (text : String) (m : String × Tree) :
    SameButSecret k m (m.1, retyped key text m.1 m.2) := by
  refine ⟨rfl, ?_⟩
  obtain ⟨name, t⟩ := m
  cases t with
  | str v =>
      simp only [retyped]
      split
      · rename_i hname
        rw [hname]
        exact .inr ⟨hsecret, v, text, rfl, rfl⟩
      · exact .inl rfl
  | null => exact .inl rfl
  | bool b => exact .inl rfl
  | num l => exact .inl rfl
  | arr items => exact .inl rfl
  | obj members => exact .inl rfl

/-- Where secrets stand under their own names, members that differ in one are not shown. -/
theorem filter_eq_of_own {l l' : List (String × Tree)} (h : List.Forall₂ (SameButSecret k) l l')
    (hown : ∀ m ∈ l, ∀ v, m.2 = .str v → isSecret k m.1 = true → m.1 ∈ k.secretKeys) :
    l'.filter (fun m => decide (m.1 ∉ k.secretKeys)) = l.filter fun m => decide (m.1 ∉ k.secretKeys) := by
  induction h with
  | nil => rfl
  | @cons m m' l l' hm hl ih =>
      have hrest := ih fun m hm => hown m (List.mem_cons_of_mem _ hm)
      obtain ⟨hkey, hval⟩ := hm
      rw [List.filter_cons, List.filter_cons, hrest, ← hkey]
      by_cases hin : m.1 ∈ k.secretKeys
      · rw [if_neg (by simp [hin]), if_neg (by simp [hin])]
      · rcases hval with hval | ⟨hsecret, v, -, hv, -⟩
        · rw [show m' = m from Prod.ext hkey.symm hval.symm]
        · exact absurd (hown m List.mem_cons_self v hv hsecret) hin

/-- The list does not depend on the secrets exactly when every secret that would be shown
stands under its own name. -/
theorem hidden_iff : Hidden k members ↔ OwnNames k members := by
  rw [hidden_iff_shown]
  constructor
  · intro h key v hlook hsecret
    by_contra hkey
    -- the same settings with another secret under this name
    have hsame := h (members.map fun m => (m.1, retyped key (v ++ "x") m.1 m.2))
      (List.forall₂_map_right_iff.2 (List.forall₂_same.2 fun m _ => sameButSecret_retyped hsecret _ m))
    have hfound := @lookup_shown k members _ hkey
    rw [← hsame, lookup_shown hkey, Tree.lookup_map, hlook, Option.map_some, Option.some.injEq, retyped, if_pos rfl,
      Tree.str.injEq] at hfound
    have hlength := congrArg String.length hfound
    rw [String.length_append] at hlength
    have hx : "x".length = 1 := rfl
    omega
  · intro hown members' hdiff
    refine filter_eq_of_own (forall₂_toMap (fun m m' h => h.1) hdiff) fun m hm v hv hsecret => ?_
    refine hown m.1 v ?_ hsecret
    rw [Tree.lookup_of_mem_toMap hm, hv]

/-! ## Saving -/

theorem isSecret_of_mem {s : String} (hs : s ∈ k.secretKeys) {key : String} (h : isSecret k key = false) :
    sameName key s = false := by
  by_contra hsame
  rw [Bool.not_eq_false] at hsame
  have htrue : isSecret k key = true := List.any_eq_true.2 ⟨s, hs, hsame⟩
  rw [h] at htrue
  cases htrue

/-- What is decoded for a secret after a save of an object without secrets. -/
theorem decoded_merge {edit : List (String × Tree)} (hedit : ∀ m ∈ edit, isSecret k m.1 = false) {s : String}
    (hs : s ∈ k.secretKeys) :
    decoded s (some (.obj (mergeMembers edit members))) = Tree.text s (.obj (Tree.toMap members)) := by
  show Tree.text s (.obj (mergeMembers edit members)) = _
  rw [text_filter, filter_mergeMembers fun m hm => isSecret_of_mem hs (hedit m hm), ← text_filter]

/-- A tunnel is stored under its tag with the settings that were kept. -/
theorem saved_ok {h : Host} {all : List VpnOutboundConfig} {cfg c : VpnOutboundConfig}
    (hsaved : saved h all cfg = .ok c) : keptSettings all cfg = .ok c.settings ∧ c.tag = cfg.tag := by
  unfold saved at hsaved
  cases hkept : keptSettings all cfg with
  | error e =>
      rw [hkept] at hsaved
      cases hsaved
  | ok settings =>
      rw [hkept] at hsaved
      simp only [bind, Except.bind] at hsaved
      split at hsaved
      · cases hsaved
      · split at hsaved
        · cases hsaved
        · split at hsaved
          · cases hsaved
            exact ⟨rfl, rfl⟩
          · cases hsaved

/-- A save leaves the tunnels alone or stores one with the settings that were kept. -/
theorem save_cases (h : Host) (all : List VpnOutboundConfig) (cfg : VpnOutboundConfig) :
    save h all cfg = all ∨ ∃ c, c.tag = trimSpace cfg.tag ∧
      keptSettings all { cfg with tag := trimSpace cfg.tag, kind := trimSpace cfg.kind } = .ok c.settings ∧
      findVpnTunnel (save h all cfg) (trimSpace cfg.tag) = some c := by
  unfold save
  simp only
  split
  · exact .inl rfl
  · split
    · exact .inl rfl
    · split
      · exact .inl rfl
      · split
        · exact .inl rfl
        · rename_i c hsaved
          obtain ⟨hkept, htag⟩ := saved_ok hsaved
          refine .inr ⟨c, htag, hkept, ?_⟩
          have hnone : (all.filter fun c' => decide (c'.tag ≠ c.tag)).find?
              (fun c' => decide (c'.tag = trimSpace cfg.tag)) = none := by
            refine List.find?_eq_none.2 fun c' hc' heq => ?_
            have hne := of_decide_eq_true (List.mem_filter.1 hc').2
            exact hne ((of_decide_eq_true heq).trans htag.symm)
          rw [findVpnTunnel, List.find?_append, hnone, Option.none_or]
          exact List.find?_cons_of_pos (decide_eq_true htag)

/-- Secrets survive an edit exactly when they are the same in the order of the keys. -/
theorem survives_iff : Survives k members ↔ SameInOrder k members := by
  constructor
  · intro h s hs
    have htag : trimSpace "t" = "t" := by decide +kernel
    have hkind : trimSpace k.name = k.name := by cases k <;> decide +kernel
    have hfound : findVpnTunnel (save ⟨fun _ => true, fun _ => .ok (), fun _ => .error "", true⟩
        [{ tag := "t", kind := k.name, settings := some (.obj members) }]
        { tag := "t", kind := k.name, enable := false, settings := some (.obj []) }) "t" =
        some { tag := "t", kind := k.name, enable := false, settings := some (.obj (mergeMembers [] members)) } := by
      unfold save
      simp only [htag, hkind, vpnOutDriverFor_name]
      cases k <;> rfl
    have hkept := h ⟨fun _ => true, fun _ => .ok (), fun _ => .error "", true⟩
      [{ tag := "t", kind := k.name, settings := some (.obj members) }]
      { tag := "t", kind := k.name, settings := some (.obj members) }
      { tag := "t", kind := k.name, enable := false, settings := some (.obj []) } []
      rfl rfl rfl htag hkind rfl (fun m hm => by cases hm) _ hfound s hs
    rw [decoded_merge (fun m hm => by cases hm) hs] at hkept
    exact hkept
  · intro horder h all prev cfg edit hfind hkind hsettings htag hcfg hposted hedit c hc s hs
    rcases save_cases h all cfg with hsame | ⟨c', htag', hkept, hfound⟩
    · rw [hsame, Option.mem_def, hfind] at hc
      obtain rfl := Option.some.inj hc
      rw [hsettings]
      rfl
    · rw [htag] at hfound
      obtain rfl := Option.some.inj (hfound.symm.trans hc)
      rw [keptSettings] at hkept
      simp only [htag, hfind, hcfg, hkind, hposted, hsettings, if_true, mergeKeptSettings] at hkept
      rw [← Except.ok.inj hkept, decoded_merge hedit hs]
      exact horder s hs

end

/-- The list does not depend on the secrets and an edit keeps them exactly when every secret
that would be shown stands under its own name and the secrets are the same in the order of
the keys. -/
theorem secrets_kept_iff (k : Kind) (members : List (String × Tree)) :
    Hidden k members ∧ Survives k members ↔ OwnNames k members ∧ SameInOrder k members :=
  and_congr hidden_iff survives_iff

/-- The settings of a WireGuard tunnel with the private key under another spelling. -/
def respelled : List (String × Tree) :=
  [("PrivateKey", .str "AAECAwQFBgcICQoLDA0ODxAREhMUFRYXGBkaGxwdHh8="),
    ("peerPublicKey", .str "eaYx7t4b+cmPEgMs3q3Q56B5OY/HhriMyEbsia+FpRo="),
    ("endpoint", .str "203.0.113.7:51820"), ("address", .str "10.9.0.2/32")]

/-- The driver takes `PrivateKey` for the private key, and the list shows it. -/
theorem respelled_secret_listed :
    Tree.text "privateKey" (.obj respelled) = "AAECAwQFBgcICQoLDA0ODxAREhMUFRYXGBkaGxwdHh8=" ∧
      ¬(Hidden .wireguard respelled ∧ Survives .wireguard respelled) := by
  refine ⟨by decide +kernel, fun h => ?_⟩
  have hown := hidden_iff.1 h.1 "PrivateKey" _ rfl (by decide +kernel)
  exact absurd hown (by decide)

end Simorgh.Vpn.Outbounds
