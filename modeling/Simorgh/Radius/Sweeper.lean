import Simorgh.Lib.Rank
import Simorgh.Lib.Separators
import Simorgh.Radius.Sessions

/-!
# The sweeper

The protocols without RADIUS are swept once a round: their tunnels are polled, the ones that
may not stay are evicted, and the sessions of the others are recorded and counted.

* `trimToLimit`, `Adapter.sweep`, `Registry.reconcileLocalSessions`, `Sweeper.tick` — the round.
* `admissible` — who may stay, told by ranks: the tunnels of no disabled account with fewer
  than `K` of their account's before them.
* `tick_swept` — every tunnel polled is evicted or stays, those stay that may, and just their
  addresses are recorded and counted.
* `failed_eviction_unrecorded` — what `Evict` answers changes nothing.
-/

namespace Simorgh.Radius

open Simorgh.Lib Simorgh.Panel

/-! ## The tunnels of a round -/

/-- `rbridge.Live`. -/
structure Live where
  protocol : Protocol
  inboundID : ℕ
  email : String
  ip : String
  deviceKey : String
  disabled : Bool
  since : ℤ
  deriving DecidableEq

/-- An account of an inbound. -/
structure AccountKey where
  inboundID : ℕ
  email : String
  deriving DecidableEq

/-- The account of a tunnel. -/
def Live.account (s : Live) : AccountKey := ⟨s.inboundID, s.email⟩

/-- The tunnels of an account. -/
abbrev Group := AccountKey × List Live

/-- The tunnels account by account. -/
def groupByAccount (live : List Live) : Table (Prod.fst : Group → AccountKey) :=
  live.foldl (fun m s => m.put (s.account, (m.find? s.account).elim [] Prod.snd ++ [s])) Table.empty

/-- `TrimToLimit`: who stays, and who is over the limit. -/
def trimToLimit (sessions : List Live) (k : ℤ) (strategy : String) : List Live × List Live :=
  if k ≤ 0 ∨ (sessions.length : ℤ) ≤ k then (sessions, [])
  else
    let ordered := stableSort Live.since sessions
    if strategy = "reject" then (ordered.take k.toNat, ordered.drop k.toNat)
    else (ordered.drop (ordered.length - k.toNat), ordered.take (ordered.length - k.toNat))

/-- An adapter, with what its calls answer in one round. -/
structure Adapter where
  protocol : Protocol
  poll : Option (List Live)
  limit : ℕ → ℤ × String
  /-- Does the eviction of the tunnel succeed? -/
  evict : Live → Bool
  /-- The order in which the groups, that are kept in a map, are visited. -/
  visit : List Group → List Group
  visit_perm : ∀ groups, (visit groups).Perm groups

/-- An account that is disabled in its settings, or over its quota. -/
def Live.isDisabled (disabled : String → Bool) (s : Live) : Bool := s.disabled || disabled s.email

namespace Adapter

variable (a : Adapter) (disabled : String → Bool)

/-- What is done with one account's tunnels: those that stay, and those handed to `Evict`. -/
def sweepGroup (group : Group) : List Live × List Live :=
  let active := group.2.filter fun s => !s.isDisabled disabled
  let trimmed := trimToLimit active (a.limit group.1.inboundID).1 (a.limit group.1.inboundID).2
  (trimmed.1, group.2.filter (·.isDisabled disabled) ++ trimmed.2)

/-- What is done with the tunnels of a round. -/
def sweep (live : List Live) : List Live × List Live :=
  let swept := (a.visit (groupByAccount live).rows).map (a.sweepGroup disabled)
  (swept.flatMap Prod.fst, swept.flatMap Prod.snd)

end Adapter

/-- The account of each address, the last one written. -/
abbrev Desired := Table (Prod.fst : String × String → String)

/-- The sessions that are to be there. -/
def desiredOf (survivors : List Live) : Desired :=
  survivors.foldl (fun m s => m.put (s.ip, s.email)) Table.empty

/-! ## The session table -/

/-- The text of a protocol. -/
def protocolText : Protocol → String
  | .vmess => "vmess"
  | .vless => "vless"
  | .tunnel => "tunnel"
  | .http => "http"
  | .trojan => "trojan"
  | .shadowsocks => "shadowsocks"
  | .mixed => "mixed"
  | .wireguard => "wireguard"
  | .l2tp => "l2tp"
  | .pptp => "pptp"
  | .openvpn => "openvpn"
  | .openconnect => "openconnect"
  | .sstp => "sstp"
  | .ikev2 => "ikev2"
  | .wgc => "wg-c"
  | .awg => "awg"
  | .gre => "gre"
  | .mtproto => "mtproto"
  | .ssh => "ssh"
  | .anytls => "anytls"
  | .tuic => "tuic"
  | .naive => "naive"
  | .hysteria => "hysteria"
  | .hysteria2 => "hysteria2"

/-- The keys of a protocol's sessions. -/
def localPrefix (protocol : Protocol) : String := "cp:" ++ protocolText protocol ++ ":"

/-- The key of a session. -/
def localSessionKey (protocol : Protocol) (ip : String) : String := localPrefix protocol ++ ip

/-- The sessions and the counters of addresses.  The keys of the sweeper's sessions are its
own: no session of a daemon has one. -/
structure Registry where
  sessions : Table Session.sid
  counters : List (Protocol × String)
  keyed : ∀ s ∈ sessions.rows, Tables.isLocal s = true → s.sid = localSessionKey s.protocol s.ip

/-- A session of the protocol that is no longer desired. -/
def isGone (protocol : Protocol) (desired : Desired) (s : Session) : Bool :=
  decide (s.protocol = protocol) && (localPrefix protocol).toList.isPrefixOf s.sid.toList &&
    (desired.find? s.ip).isNone

/-- What is done for one address that is desired. -/
def addLocal (protocol : Protocol) (now : ℕ) (t : Table Session.sid) (d : String × String) : Table Session.sid :=
  match t.find? (localSessionKey protocol d.1) with
  | some _ =>
      if d.2 = "" then t
      else t.modify (localSessionKey protocol d.1) (fun s => { s with email := d.2 }) fun _ => rfl
  | none => t.put ⟨localSessionKey protocol d.1, d.2, d.1, protocol, now, none, "", .line 0⟩

/-! ## The keys -/

theorem colon_notMem_protocolText (p : Protocol) : ':' ∉ (protocolText p).toList := by
  cases p <;> decide

theorem protocolText_injective {p q : Protocol} (h : protocolText p = protocolText q) : p = q := by
  let protocols : List Protocol :=
    [.vmess, .vless, .tunnel, .http, .trojan, .shadowsocks, .mixed, .wireguard, .l2tp, .pptp, .openvpn,
      .openconnect, .sstp, .ikev2, .wgc, .awg, .gre, .mtproto, .ssh, .anytls, .tuic, .naive, .hysteria, .hysteria2]
  have hall : ∀ p : Protocol, p ∈ protocols := by
    intro p
    cases p <;> decide
  have hnodup : (protocols.map protocolText).Nodup := by decide +kernel
  exact List.inj_on_of_nodup_map hnodup (hall p) (hall q) h

theorem localSessionKey_toList (p : Protocol) (ip : String) :
    (localSessionKey p ip).toList = "cp:".toList ++ ((protocolText p).toList ++ ':' :: ip.toList) := by
  simp [localSessionKey, localPrefix]

/-- A key tells its protocol and its address. -/
theorem localSessionKey_inj {p q : Protocol} {ip ip' : String}
    (h : localSessionKey p ip = localSessionKey q ip') : p = q ∧ ip = ip' := by
  have hlist := congrArg String.toList h
  rw [localSessionKey_toList, localSessionKey_toList] at hlist
  obtain ⟨hp, hip⟩ := append_cons_inj (colon_notMem_protocolText p) (colon_notMem_protocolText q)
    (List.append_cancel_left hlist)
  exact ⟨protocolText_injective (String.toList_injective hp), String.toList_injective hip⟩

theorem isLocal_of_key {s : Session} {p : Protocol} {ip : String} (h : s.sid = localSessionKey p ip) :
    Tables.isLocal s = true := by
  rw [Tables.isLocal, h, localSessionKey_toList, List.isPrefixOf_iff_prefix]
  exact List.prefix_append _ _

theorem prefix_of_key {s : Session} {p : Protocol} {ip : String} (h : s.sid = localSessionKey p ip) :
    (localPrefix p).toList.isPrefixOf s.sid.toList = true := by
  rw [h, localSessionKey, String.toList_append, List.isPrefixOf_iff_prefix]
  exact List.prefix_append _ _

/-! ## Reconciling -/

/-- What a session becomes of an address that is desired. -/
def localSession (protocol : Protocol) (now : ℕ) (before : Option Session) (d : String × String) : Session :=
  match before with
  | some s => if d.2 = "" then s else { s with email := d.2 }
  | none => ⟨localSessionKey protocol d.1, d.2, d.1, protocol, now, none, "", .line 0⟩

section AddLocal

variable {protocol : Protocol} {now : ℕ} {t : Table Session.sid} {d : String × String}

theorem find?_addLocal (k : String) :
    (addLocal protocol now t d).find? k =
      if localSessionKey protocol d.1 = k then some (localSession protocol now (t.find? k) d) else t.find? k := by
  unfold addLocal
  split
  · rename_i s hs
    by_cases hk : localSessionKey protocol d.1 = k
    · rw [if_pos hk, ← hk, hs, localSession]
      split
      · exact hs
      · rw [Table.find?_modify_self, hs]
        rfl
    · rw [if_neg hk]
      split
      · rfl
      · exact Table.find?_modify_of_ne (Ne.symm hk)
  · rename_i hs
    rw [Table.find?_put]
    by_cases hk : localSessionKey protocol d.1 = k
    · rw [if_pos hk, if_pos hk, ← hk, hs, localSession]
    · rw [if_neg hk, if_neg hk]

/-- The session of an address that no more comes of. -/
theorem find?_foldl_addLocal_of_ne {ds : List (String × String)} {k : String}
    (hk : ∀ d ∈ ds, localSessionKey protocol d.1 ≠ k) : (ds.foldl (addLocal protocol now) t).find? k = t.find? k := by
  induction ds generalizing t with
  | nil => rfl
  | cons d ds ih =>
      obtain ⟨hd, hds⟩ := List.forall_mem_cons.1 hk
      rw [List.foldl_cons, ih hds, find?_addLocal, if_neg hd]

/-- The session of an address that is desired. -/
theorem find?_foldl_addLocal {ds : List (String × String)} (hds : (ds.map Prod.fst).Nodup) (hd : d ∈ ds) :
    (ds.foldl (addLocal protocol now) t).find? (localSessionKey protocol d.1) =
      some (localSession protocol now (t.find? (localSessionKey protocol d.1)) d) := by
  induction ds generalizing t with
  | nil => cases hd
  | cons d' ds ih =>
      rw [List.map_cons, List.nodup_cons] at hds
      rw [List.foldl_cons]
      obtain rfl | hmem := List.mem_cons.1 hd
      · -- the addresses that follow are others
        have hothers : ∀ d' ∈ ds, localSessionKey protocol d'.1 ≠ localSessionKey protocol d.1 := by
          intro d' hd' hkey
          exact hds.1 ((localSessionKey_inj hkey).2 ▸ List.mem_map_of_mem hd')
        rw [find?_foldl_addLocal_of_ne hothers, find?_addLocal, if_pos rfl]
      · have hother : localSessionKey protocol d'.1 ≠ localSessionKey protocol d.1 := by
          intro hkey
          exact hds.1 ((localSessionKey_inj hkey).2 ▸ List.mem_map_of_mem hmem)
        rw [ih hds.2 hmem, find?_addLocal, if_neg hother]

theorem keyed_addLocal (h : ∀ s ∈ t.rows, Tables.isLocal s = true → s.sid = localSessionKey s.protocol s.ip) :
    ∀ s ∈ (addLocal protocol now t d).rows, Tables.isLocal s = true → s.sid = localSessionKey s.protocol s.ip := by
  intro s hs hlocal
  have hfind := Table.find?_of_mem hs
  rw [find?_addLocal] at hfind
  split at hfind
  · cases hbefore : t.find? s.sid with
    | none =>
        rw [hbefore] at hfind
        cases hfind
        rfl
    | some s' =>
        obtain ⟨hs', -⟩ := Table.find?_some hbefore
        rw [hbefore, localSession] at hfind
        split at hfind
        · cases hfind
          exact h s hs' hlocal
        · cases hfind
          exact h s' hs' hlocal
  · exact h s (Table.find?_some hfind).1 hlocal

theorem keyed_foldl_addLocal {ds : List (String × String)}
    (h : ∀ s ∈ t.rows, Tables.isLocal s = true → s.sid = localSessionKey s.protocol s.ip) :
    ∀ s ∈ (ds.foldl (addLocal protocol now) t).rows,
      Tables.isLocal s = true → s.sid = localSessionKey s.protocol s.ip := by
  induction ds generalizing t with
  | nil => exact h
  | cons d ds ih => exact ih (keyed_addLocal h)

end AddLocal

namespace Registry

variable (r : Registry) (protocol : Protocol) (desired : Desired) (now : ℕ)

/-- The sessions that are still desired. -/
def remaining : Table Session.sid := r.sessions.deleteWhere (isGone protocol desired)

/-- The addresses that were not recorded. -/
def added : List String :=
  (desired.rows.filter fun d => ((r.remaining protocol desired).find?
    (localSessionKey protocol d.1)).isNone).map Prod.fst

/-- The addresses that are recorded no longer. -/
def gone : List String := (r.sessions.rows.filter (isGone protocol desired)).map Session.ip

/-- `ReconcileLocalSessions`. -/
def reconcileLocalSessions : Registry where
  sessions := desired.rows.foldl (addLocal protocol now) (r.remaining protocol desired)
  counters :=
    (r.counters.filter fun c => !decide (c ∈ (r.gone protocol desired).map (Prod.mk protocol))) ∪
      (r.added protocol desired).map (Prod.mk protocol)
  keyed := by
    refine keyed_foldl_addLocal fun s hs => ?_
    exact r.keyed s (Table.mem_deleteWhere.1 hs).1

/-- The email that is recorded for an address. -/
def recorded (ip : String) : Option String := (r.sessions.find? (localSessionKey protocol ip)).map Session.email

/-- The traffic of an address is counted. -/
def Metered (ip : String) : Prop := (protocol, ip) ∈ r.counters

variable {r protocol desired now} {ip : String}

/-- The session under an address's key is the address's. -/
theorem eq_of_key {s : Session} (hs : s ∈ r.sessions.rows) (hkey : s.sid = localSessionKey protocol ip) :
    s.protocol = protocol ∧ s.ip = ip :=
  localSessionKey_inj ((r.keyed s hs (isLocal_of_key hkey)).symm.trans hkey)

theorem isGone_of_key {s : Session} (hs : s ∈ r.sessions.rows) (hkey : s.sid = localSessionKey protocol ip) :
    isGone protocol desired s = (desired.find? ip).isNone := by
  obtain ⟨hprotocol, hip⟩ := eq_of_key hs hkey
  simp [isGone, hprotocol, hip, prefix_of_key hkey]

theorem find?_remaining :
    (r.remaining protocol desired).find? (localSessionKey protocol ip) =
      if (desired.find? ip).isNone then none else r.sessions.find? (localSessionKey protocol ip) := by
  rw [remaining, Table.find?_deleteWhere]
  cases hfind : r.sessions.find? (localSessionKey protocol ip) with
  | none => simp
  | some s =>
      obtain ⟨hs, hkey⟩ := Table.find?_some hfind
      rw [Option.filter_some, isGone_of_key hs hkey]
      by_cases hnone : (desired.find? ip).isNone = true <;> simp [hnone]

/-- What is recorded for an address: what is desired, or nothing. -/
theorem recorded_reconcile :
    (r.reconcileLocalSessions protocol desired now).recorded protocol ip =
      (desired.find? ip).map fun d => if d.2 = "" then (r.recorded protocol ip).getD "" else d.2 := by
  unfold recorded reconcileLocalSessions
  cases hfind : desired.find? ip with
  | none =>
      have hothers : ∀ d ∈ desired.rows, localSessionKey protocol d.1 ≠ localSessionKey protocol ip := by
        intro d hd hkey
        exact Table.find?_eq_none.1 hfind d hd (localSessionKey_inj hkey).2
      rw [find?_foldl_addLocal_of_ne hothers, find?_remaining, hfind]
      rfl
  | some d =>
      obtain ⟨hd, rfl⟩ := Table.find?_some hfind
      rw [find?_foldl_addLocal desired.unique hd, find?_remaining, hfind]
      cases hbefore : r.sessions.find? (localSessionKey protocol d.1) with
      | none =>
          by_cases hempty : d.2 = "" <;> simp [localSession, hempty]
      | some s =>
          by_cases hempty : d.2 = "" <;> simp [localSession, hempty]

/-- Another protocol's addresses stay as they were. -/
theorem recorded_reconcile_of_ne {q : Protocol} (hq : q ≠ protocol) :
    (r.reconcileLocalSessions protocol desired now).recorded q ip = r.recorded q ip := by
  have hothers : ∀ d ∈ desired.rows, localSessionKey protocol d.1 ≠ localSessionKey q ip := by
    intro d _ hkey
    exact hq (localSessionKey_inj hkey).1.symm
  unfold recorded reconcileLocalSessions
  rw [find?_foldl_addLocal_of_ne hothers, remaining, Table.find?_deleteWhere]
  cases hfind : r.sessions.find? (localSessionKey q ip) with
  | none => rfl
  | some s =>
      obtain ⟨hs, hkey⟩ := Table.find?_some hfind
      have hstays : isGone protocol desired s = false := by
        simp [isGone, (eq_of_key hs hkey).1, hq]
      rw [Option.filter_some, hstays]
      rfl

theorem recorded_eq_none : r.recorded protocol ip = none ↔ r.sessions.find? (localSessionKey protocol ip) = none :=
  Option.map_eq_none_iff

theorem mem_gone : ip ∈ r.gone protocol desired ↔ desired.find? ip = none ∧ r.recorded protocol ip ≠ none := by
  rw [gone, List.mem_map, Ne, recorded_eq_none]
  constructor
  · rintro ⟨s, hmem, rfl⟩
    obtain ⟨hs, hgone⟩ := List.mem_filter.1 hmem
    simp only [isGone, Bool.and_eq_true, decide_eq_true_eq, Option.isNone_iff_eq_none] at hgone
    obtain ⟨⟨rfl, hprefix⟩, hnone⟩ := hgone
    have hlocal : Tables.isLocal s = true := by
      rw [List.isPrefixOf_iff_prefix] at hprefix
      rw [Tables.isLocal, List.isPrefixOf_iff_prefix]
      refine List.IsPrefix.trans ?_ hprefix
      rw [localPrefix, String.toList_append, String.toList_append, List.append_assoc]
      exact List.prefix_append _ _
    refine ⟨hnone, fun hfind => ?_⟩
    exact Table.find?_eq_none.1 hfind s hs (r.keyed s hs hlocal)
  · rintro ⟨hnone, hrecorded⟩
    obtain ⟨s, hfind⟩ := Option.ne_none_iff_exists'.1 hrecorded
    obtain ⟨hs, hkey⟩ := Table.find?_some hfind
    refine ⟨s, List.mem_filter.2 ⟨hs, ?_⟩, (eq_of_key hs hkey).2⟩
    rw [isGone_of_key hs hkey, hnone]
    rfl

theorem mem_added : ip ∈ r.added protocol desired ↔ desired.find? ip ≠ none ∧ r.recorded protocol ip = none := by
  rw [added, List.mem_map, recorded_eq_none]
  constructor
  · rintro ⟨d, hd, rfl⟩
    obtain ⟨hd, hnone⟩ := List.mem_filter.1 hd
    have hfind := Table.find?_of_mem hd
    rw [find?_remaining, hfind] at hnone
    exact ⟨by rw [hfind]; exact Option.some_ne_none d, Option.isNone_iff_eq_none.1 hnone⟩
  · rintro ⟨hsome, hnone⟩
    obtain ⟨d, hfind⟩ := Option.ne_none_iff_exists'.1 hsome
    obtain ⟨hd, rfl⟩ := Table.find?_some hfind
    refine ⟨d, List.mem_filter.2 ⟨hd, ?_⟩, rfl⟩
    rw [find?_remaining, hfind, hnone]
    rfl

theorem mem_counters {c : Protocol × String} :
    c ∈ (r.reconcileLocalSessions protocol desired now).counters ↔
      c ∈ r.counters ∧ ¬(c.1 = protocol ∧ c.2 ∈ r.gone protocol desired) ∨
        c.1 = protocol ∧ c.2 ∈ r.added protocol desired := by
  have hmk : ∀ l : List String, c ∈ l.map (Prod.mk protocol) ↔ c.1 = protocol ∧ c.2 ∈ l := by
    intro l
    rw [List.mem_map]
    constructor
    · rintro ⟨ip, hip, rfl⟩
      exact ⟨rfl, hip⟩
    · rintro ⟨rfl, hip⟩
      exact ⟨c.2, hip, rfl⟩
  rw [reconcileLocalSessions, List.mem_union_iff, List.mem_filter, Bool.not_eq_true', decide_eq_false_iff_not, hmk, hmk]

/-- An address that is desired is counted, if it was where it was recorded. -/
theorem metered_of_desired (hdesired : desired.find? ip ≠ none)
    (hbefore : r.recorded protocol ip ≠ none → r.Metered protocol ip) :
    (r.reconcileLocalSessions protocol desired now).Metered protocol ip := by
  rw [Metered, mem_counters]
  by_cases hnone : r.recorded protocol ip = none
  · exact .inr ⟨rfl, mem_added.2 ⟨hdesired, hnone⟩⟩
  · exact .inl ⟨hbefore hnone, fun h => hdesired (mem_gone.1 h.2).1⟩

/-- An address that was recorded, and is not desired, is not counted. -/
theorem not_metered_of_gone (hdesired : desired.find? ip = none) (hbefore : r.recorded protocol ip ≠ none) :
    ¬(r.reconcileLocalSessions protocol desired now).Metered protocol ip := by
  rw [Metered, mem_counters]
  rintro (h | h)
  · exact h.2 ⟨rfl, mem_gone.2 ⟨hdesired, hbefore⟩⟩
  · exact (mem_added.1 h.2).1 hdesired

theorem metered_reconcile_of_ne {q : Protocol} (hq : q ≠ protocol) :
    (r.reconcileLocalSessions protocol desired now).Metered q ip ↔ r.Metered q ip := by
  rw [Metered, mem_counters]
  constructor
  · rintro (h | h)
    · exact h.1
    · exact absurd h.1 hq
  · exact fun h => .inl ⟨h, fun hgone => hq hgone.1⟩

end Registry

/-! ## Who may stay -/

/-- How many come before a tunnel: the older ones if newcomers are rejected, else the newer
ones, in the order of the poll where they are of one age. -/
def standing (strategy : String) (z : List (Live × ℕ)) (x : Live × ℕ) : ℕ :=
  if strategy = "reject" then rank (Precedes Live.since) z x else rank (fun y x => Precedes Live.since x y) z x

namespace Adapter

variable (a : Adapter) (disabled : String → Bool) (live : List Live)

/-- The polled tunnels of an account that is not disabled, with their places. -/
def contenders (key : AccountKey) : List (Live × ℕ) :=
  live.zipIdx.filter fun y => decide (y.1.account = key) && !y.1.isDisabled disabled

/-- May a tunnel stay? -/
def Admits (x : Live × ℕ) : Prop :=
  x.1.isDisabled disabled = false ∧
    ((a.limit x.1.inboundID).1 ≤ 0 ∨
      (standing (a.limit x.1.inboundID).2 (contenders disabled live x.1.account) x : ℤ) < (a.limit x.1.inboundID).1)

instance : DecidablePred (a.Admits disabled live) := fun _ => inferInstanceAs (Decidable (_ ∧ (_ ∨ _)))

/-- The tunnels that may stay. -/
def admissible : List Live := (live.zipIdx.filter fun x => decide (a.Admits disabled live x)).map Prod.fst

end Adapter

section Trim

variable {z : List (Live × ℕ)} (hz : z.Pairwise fun x y => x.2 < y.2) {k : ℤ} {strategy : String}

theorem standing_lt_length {x : Live × ℕ} (hx : x ∈ z) : standing strategy z x < z.length := by
  unfold standing
  split
  · exact rank_lt_length (Precedes.asymm Live.since) hx
  · exact rank_lt_length (fun x y h => Precedes.asymm Live.since y x h) hx

include hz in
/-- Those stay that stand high enough. -/
theorem trimToLimit_perm :
    (trimToLimit (z.map Prod.fst) k strategy).1.Perm
      ((z.filter fun x => decide (k ≤ 0 ∨ (standing strategy z x : ℤ) < k)).map Prod.fst) := by
  unfold trimToLimit
  split
  · rename_i hall
    rw [List.filter_eq_self.2]
    intro x hx
    rw [decide_eq_true_eq]
    refine hall.imp_right fun hlen => ?_
    have hlt : standing strategy z x < z.length := standing_lt_length hx
    rw [List.length_map] at hlen
    omega
  · rename_i hover
    have hpos : 0 < k := by
      by_contra h
      exact hover (.inl (by omega))
    have hstanding : ∀ n : ℕ, decide (k ≤ 0 ∨ (n : ℤ) < k) = decide (n < k.toNat) := by
      intro n
      rw [decide_eq_decide]
      omega
    have hperm := stableSort_perm (fun x : Live × ℕ => x.1.since) z
    simp only [hstanding, stableSort_map_fst, List.length_map]
    split
    · rename_i hreject
      rw [← List.map_take, take_eq_filter (Precedes.asymm Live.since) (pairwise_precedes Live.since hz)]
      refine List.Perm.map _ ?_
      simp only [rank_perm hperm, standing, if_pos hreject]
      exact hperm.filter _
    · rename_i haccept
      rw [← List.map_drop, drop_eq_filter (Precedes.asymm Live.since) (pairwise_precedes Live.since hz)]
      refine List.Perm.map _ ?_
      simp only [rank_perm hperm, standing, if_neg haccept]
      exact hperm.filter _

/-- Nobody is lost. -/
theorem trimToLimit_append (sessions : List Live) (k : ℤ) (strategy : String) :
    ((trimToLimit sessions k strategy).1 ++ (trimToLimit sessions k strategy).2).Perm sessions := by
  have hperm := stableSort_perm Live.since sessions
  unfold trimToLimit
  split
  · rw [List.append_nil]
  · split
    · rw [List.take_append_drop]
      exact hperm
    · refine List.perm_append_comm.trans ?_
      rw [List.take_append_drop]
      exact hperm

theorem length_trimToLimit_le (sessions : List Live) (hk : 0 < k) :
    ((trimToLimit sessions k strategy).1.length : ℤ) ≤ k := by
  unfold trimToLimit
  split
  · rename_i hall
    exact hall.resolve_left (by omega)
  · split
    · simp only [List.length_take]
      omega
    · simp only [List.length_drop]
      omega

end Trim

/-! ## Groups -/

/-- A group is of all the tunnels of its account, in their order. -/
theorem find?_groupByAccount (live : List Live) (key : AccountKey) :
    (groupByAccount live).find? key =
      if live.filter (fun s => decide (s.account = key)) = [] then none
      else some (key, live.filter fun s => decide (s.account = key)) := by
  induction live using List.reverseRecOn with
  | nil => rfl
  | append_singleton live s ih =>
      rw [groupByAccount, List.foldl_append, List.foldl_cons, List.foldl_nil, ← groupByAccount, Table.find?_put,
        List.filter_append]
      by_cases hkey : s.account = key
      · subst hkey
        have hgroup : ((groupByAccount live).find? s.account).elim [] Prod.snd =
            live.filter fun s' => decide (s'.account = s.account) := by
          rw [ih]
          split
          · rename_i hempty
            rw [hempty]
            rfl
          · rfl
        rw [if_pos rfl, hgroup, List.filter_cons_of_pos (by simp), List.filter_nil,
          if_neg (List.append_ne_nil_of_right_ne_nil _ (List.cons_ne_nil s []))]
      · rw [if_neg hkey, ih, List.filter_cons_of_neg (by simpa using hkey), List.filter_nil, List.append_nil]

theorem mem_groupByAccount {live : List Live} {g : Group} (hg : g ∈ (groupByAccount live).rows) :
    g.2 = live.filter fun s => decide (s.account = g.1) := by
  have hfind := Table.find?_of_mem hg
  rw [find?_groupByAccount] at hfind
  split at hfind
  · cases hfind
  · rw [← Option.some.inj hfind]

/-- Every tunnel is in a group. -/
theorem account_mem_groups {live : List Live} {s : Live} (hs : s ∈ live) :
    s.account ∈ (groupByAccount live).rows.map Prod.fst := by
  have hne : live.filter (fun s' => decide (s'.account = s.account)) ≠ [] :=
    List.ne_nil_of_mem (List.mem_filter.2 ⟨hs, by simp⟩)
  have hfind := find?_groupByAccount live s.account
  rw [if_neg hne] at hfind
  exact List.mem_map.2 ⟨_, (Table.find?_some hfind).1, rfl⟩

/-- The parts of what was polled that the groups are of make it up. -/
theorem flatMap_groups_perm (live : List Live) {α : Type} (f : α → AccountKey) {l : List α}
    (hl : ∀ x ∈ l, f x ∈ (groupByAccount live).rows.map Prod.fst) :
    ((groupByAccount live).rows.flatMap fun g => l.filter fun x => decide (f x = g.1)).Perm l := by
  have hparts := flatMap_filter_perm f (groupByAccount live).unique hl
  rwa [List.flatMap_map] at hparts

theorem zipIdx_filter_map_fst (live : List Live) (p : Live → Bool) :
    (live.zipIdx.filter fun x => p x.1).map Prod.fst = live.filter p := by
  have hzip : live.zipIdx.map Prod.fst = live := List.zipIdx_map_fst 0 live
  calc (live.zipIdx.filter fun x => p x.1).map Prod.fst
      = (live.zipIdx.map Prod.fst).filter p := by rw [List.filter_map]; rfl
    _ = live.filter p := by rw [hzip]

theorem pairwise_zipIdx (live : List Live) : live.zipIdx.Pairwise fun x y => x.2 < y.2 := by
  have hplaces : (live.zipIdx.map Prod.snd).Pairwise (· < ·) := by
    rw [List.zipIdx_map_snd]
    exact List.pairwise_lt_range'
  exact List.pairwise_map.1 hplaces

namespace Adapter

variable (a : Adapter) (disabled : String → Bool) (live : List Live)

/-- Of each group those stay that may. -/
theorem sweepGroup_survivors {g : Group} (hg : g ∈ (groupByAccount live).rows) :
    (a.sweepGroup disabled g).1.Perm
      (((live.zipIdx.filter fun x => decide (a.Admits disabled live x)).filter fun x =>
        decide (x.1.account = g.1)).map Prod.fst) := by
  have hactive : (g.2.filter fun s => !s.isDisabled disabled) = (contenders disabled live g.1).map Prod.fst := by
    rw [mem_groupByAccount hg, List.filter_filter, contenders,
      zipIdx_filter_map_fst live fun s => decide (s.account = g.1) && !s.isDisabled disabled]
    exact List.filter_congr fun s _ => Bool.and_comm _ _
  have hplaces := (pairwise_zipIdx live).filter fun y => decide (y.1.account = g.1) && !y.1.isDisabled disabled
  rw [sweepGroup, hactive]
  refine (trimToLimit_perm hplaces).trans (List.Perm.of_eq (congrArg _ ?_))
  rw [List.filter_filter, List.filter_filter]
  refine List.filter_congr fun x _ => ?_
  rw [Bool.eq_iff_iff]
  simp only [Bool.and_eq_true, decide_eq_true_eq, Bool.not_eq_true']
  -- the tunnels of the group's account have the group's limit and contenders
  constructor
  · rintro ⟨hstands, hkey, henabled⟩
    rw [← hkey] at hstands
    exact ⟨hkey, henabled, hstands⟩
  · rintro ⟨hkey, henabled, hstands⟩
    rw [← hkey]
    exact ⟨hstands, rfl, henabled⟩

/-- Those stay that may. -/
theorem survivors_perm : (a.sweep disabled live).1.Perm (a.admissible disabled live) := by
  have hkeys : ∀ x ∈ live.zipIdx.filter (fun x => decide (a.Admits disabled live x)),
      x.1.account ∈ (groupByAccount live).rows.map Prod.fst := by
    intro x hx
    refine account_mem_groups ?_
    exact List.fst_mem_of_mem_zipIdx (List.mem_of_mem_filter hx)
  calc (a.sweep disabled live).1
      = (a.visit (groupByAccount live).rows).flatMap fun g => (a.sweepGroup disabled g).1 := by
        rw [sweep, List.flatMap_map]
    List.Perm _ ((groupByAccount live).rows.flatMap fun g => (a.sweepGroup disabled g).1) :=
        (a.visit_perm _).flatMap_right _
    List.Perm _ ((groupByAccount live).rows.flatMap fun g =>
        ((live.zipIdx.filter fun x => decide (a.Admits disabled live x)).filter fun x =>
          decide (x.1.account = g.1)).map Prod.fst) :=
        List.Perm.flatMap_left _ fun g hg => a.sweepGroup_survivors disabled live hg
    _ = ((groupByAccount live).rows.flatMap fun g =>
        (live.zipIdx.filter fun x => decide (a.Admits disabled live x)).filter fun x =>
          decide (x.1.account = g.1)).map Prod.fst := by rw [List.map_flatMap]
    List.Perm _ (a.admissible disabled live) := (flatMap_groups_perm live _ hkeys).map _

/-- At most `K` of an account stay. -/
theorem countP_survivors_le (key : AccountKey) (hk : 0 < (a.limit key.inboundID).1) :
    ((a.sweep disabled live).1.countP (fun s => decide (s.account = key)) : ℤ) ≤ (a.limit key.inboundID).1 := by
  have hcount : (a.sweep disabled live).1.countP (fun s => decide (s.account = key)) =
      (((live.zipIdx.filter fun x => decide (a.Admits disabled live x)).filter fun x =>
        decide (x.1.account = key)).map Prod.fst).length := by
    rw [(a.survivors_perm disabled live).countP_eq, admissible, List.countP_map, List.countP_eq_length_filter,
      List.length_map]
    rfl
  rw [hcount]
  by_cases hgroup : key ∈ (groupByAccount live).rows.map Prod.fst
  · obtain ⟨g, hg, rfl⟩ := List.mem_map.1 hgroup
    rw [← (a.sweepGroup_survivors disabled live hg).length_eq]
    exact length_trimToLimit_le _ hk
  · have hnone : ((live.zipIdx.filter fun x => decide (a.Admits disabled live x)).filter fun x =>
        decide (x.1.account = key)) = [] := by
      refine List.filter_eq_nil_iff.2 fun x hx hkey => hgroup ?_
      rw [← of_decide_eq_true hkey]
      exact account_mem_groups (List.fst_mem_of_mem_zipIdx (List.mem_of_mem_filter hx))
    rw [hnone, List.map_nil, List.length_nil]
    exact hk.le

theorem enabled_of_survivor {s : Live} (hs : s ∈ (a.sweep disabled live).1) : s.isDisabled disabled = false := by
  obtain ⟨x, hx, rfl⟩ := List.mem_map.1 ((a.survivors_perm disabled live).subset hs)
  have hadmits : a.Admits disabled live x := by simpa using (List.mem_filter.1 hx).2
  exact hadmits.1

/-- Every tunnel polled stays or is handed to `Evict`. -/
theorem sweep_append_perm : ((a.sweep disabled live).1 ++ (a.sweep disabled live).2).Perm live := by
  have hgroup : ∀ g : Group, ((a.sweepGroup disabled g).1 ++ (a.sweepGroup disabled g).2).Perm g.2 := by
    intro g
    have htrim := trimToLimit_append (g.2.filter fun s => !s.isDisabled disabled) (a.limit g.1.inboundID).1
      (a.limit g.1.inboundID).2
    rw [sweepGroup]
    refine (List.perm_append_comm_assoc _ _ _).trans ?_
    exact (htrim.append_left _).trans (List.filter_append_perm _ g.2)
  calc (a.sweep disabled live).1 ++ (a.sweep disabled live).2
      = ((a.visit (groupByAccount live).rows).flatMap fun g => (a.sweepGroup disabled g).1) ++
          (a.visit (groupByAccount live).rows).flatMap fun g => (a.sweepGroup disabled g).2 := by
        rw [sweep, List.flatMap_map, List.flatMap_map]
    List.Perm _ ((a.visit (groupByAccount live).rows).flatMap fun g =>
        (a.sweepGroup disabled g).1 ++ (a.sweepGroup disabled g).2) := List.flatMap_append_perm _ _ _
    List.Perm _ ((a.visit (groupByAccount live).rows).flatMap Prod.snd) :=
        List.Perm.flatMap_left _ fun g _ => hgroup g
    List.Perm _ ((groupByAccount live).rows.flatMap Prod.snd) := (a.visit_perm _).flatMap_right _
    _ = (groupByAccount live).rows.flatMap fun g => live.filter fun s => decide (s.account = g.1) :=
        List.flatMap_congr fun g hg => mem_groupByAccount hg
    List.Perm _ live := flatMap_groups_perm live Live.account fun s hs => account_mem_groups hs

end Adapter

/-! ## The round -/

/-- The adapters, one for each protocol. -/
structure Sweeper where
  adapters : List Adapter
  distinct : (adapters.map Adapter.protocol).Nodup

/-- What a round leaves: the registry, and the calls of `Evict` with their outcomes. -/
structure Round where
  registry : Registry
  calls : List (Protocol × Live × Bool)

variable (disabled : String → Bool) (now : ℕ)

/-- The part of one adapter. -/
def Round.visit (round : Round) (a : Adapter) : Round :=
  match a.poll with
  | none => round
  | some live =>
      { registry := round.registry.reconcileLocalSessions a.protocol (desiredOf (a.sweep disabled live).1) now
        calls := round.calls ++ (a.sweep disabled live).2.map fun s => (a.protocol, s, a.evict s) }

/-- `Tick`. -/
def Sweeper.tick (sw : Sweeper) (r : Registry) : Round := sw.adapters.foldl (Round.visit disabled now) ⟨r, []⟩

/-- The calls of `Evict` of one protocol's adapter. -/
def Round.callsOf (round : Round) (protocol : Protocol) : List (Live × Bool) :=
  (round.calls.filter fun c => decide (c.1 = protocol)).map Prod.snd

/-! ## What is desired -/

theorem desiredOf_append (survivors : List Live) (s : Live) :
    desiredOf (survivors ++ [s]) = (desiredOf survivors).put (s.ip, s.email) := by
  rw [desiredOf, List.foldl_append, List.foldl_cons, List.foldl_nil, desiredOf]

/-- What is desired for an address is the account of a tunnel that stays there. -/
theorem survivor_of_desired {survivors : List Live} {ip : String} {d : String × String}
    (h : (desiredOf survivors).find? ip = some d) : ∃ s ∈ survivors, s.ip = ip ∧ d.2 = s.email := by
  induction survivors using List.reverseRecOn with
  | nil => cases h
  | append_singleton survivors s ih =>
      rw [desiredOf_append, Table.find?_put] at h
      split at h
      · rename_i hip
        cases h
        exact ⟨s, by simp, hip, rfl⟩
      · obtain ⟨s', hs', hfound⟩ := ih h
        exact ⟨s', List.mem_append_left _ hs', hfound⟩

/-- An address is desired exactly if a tunnel stays there. -/
theorem desired_ne_none {survivors : List Live} {ip : String} :
    (desiredOf survivors).find? ip ≠ none ↔ ∃ s ∈ survivors, s.ip = ip := by
  constructor
  · intro h
    obtain ⟨d, hd⟩ := Option.ne_none_iff_exists'.1 h
    obtain ⟨s, hs, hip, -⟩ := survivor_of_desired hd
    exact ⟨s, hs, hip⟩
  · rintro ⟨s, hs, rfl⟩
    induction survivors using List.reverseRecOn with
    | nil => cases hs
    | append_singleton survivors s' ih =>
        rw [desiredOf_append, Table.find?_put]
        split
        · exact Option.some_ne_none _
        · rename_i hother
          have hbefore : s ∈ survivors := by
            refine (List.mem_append.1 hs).resolve_right fun hs => hother ?_
            rw [List.mem_singleton.1 hs]
          exact ih hbefore

/-! ## Whole rounds -/

/-- Two rounds are the same for a protocol. -/
structure AgreeOn (q : Protocol) (x y : Round) : Prop where
  recorded : ∀ ip, x.registry.recorded q ip = y.registry.recorded q ip
  metered : ∀ ip, x.registry.Metered q ip ↔ y.registry.Metered q ip
  calls : x.callsOf q = y.callsOf q

theorem AgreeOn.refl (q : Protocol) (x : Round) : AgreeOn q x x := ⟨fun _ => rfl, fun _ => Iff.rfl, rfl⟩

theorem AgreeOn.trans {q : Protocol} {x y z : Round} (hxy : AgreeOn q x y) (hyz : AgreeOn q y z) : AgreeOn q x z :=
  ⟨fun ip => (hxy.recorded ip).trans (hyz.recorded ip), fun ip => (hxy.metered ip).trans (hyz.metered ip),
    hxy.calls.trans hyz.calls⟩

section Rounds

variable {disabled now} {a : Adapter}

theorem callsOf_append (r : Registry) (calls calls' : List (Protocol × Live × Bool)) (q : Protocol) :
    Round.callsOf ⟨r, calls ++ calls'⟩ q = Round.callsOf ⟨r, calls⟩ q ++ Round.callsOf ⟨r, calls'⟩ q := by
  rw [Round.callsOf, List.filter_append, List.map_append, Round.callsOf, Round.callsOf]

/-- The calls of an adapter are of its protocol. -/
theorem callsOf_calls (r : Registry) (evicted : List Live) (q : Protocol) :
    Round.callsOf ⟨r, evicted.map fun s => (a.protocol, s, a.evict s)⟩ q =
      if a.protocol = q then evicted.map fun s => (s, a.evict s) else [] := by
  rw [Round.callsOf, List.filter_map, List.map_map]
  split
  · rename_i hq
    rw [List.filter_eq_self.2 (by simp [hq])]
    rfl
  · rename_i hq
    rw [List.filter_eq_nil_iff.2 (by simp [hq]), List.map_nil]

/-- An adapter leaves the other protocols alone. -/
theorem agreeOn_visit (round : Round) {q : Protocol} (hq : q ≠ a.protocol) :
    AgreeOn q (round.visit disabled now a) round := by
  unfold Round.visit
  split
  · exact AgreeOn.refl q round
  · refine ⟨fun ip => Registry.recorded_reconcile_of_ne hq, fun ip => Registry.metered_reconcile_of_ne hq, ?_⟩
    rw [callsOf_append, callsOf_calls, if_neg (Ne.symm hq), List.append_nil]
    rfl

theorem agreeOn_foldl {q : Protocol} {adapters : List Adapter} (hq : ∀ a ∈ adapters, q ≠ a.protocol) (round : Round) :
    AgreeOn q (adapters.foldl (Round.visit disabled now) round) round := by
  induction adapters generalizing round with
  | nil => exact AgreeOn.refl q round
  | cons a adapters ih =>
      obtain ⟨ha, hadapters⟩ := List.forall_mem_cons.1 hq
      exact (ih hadapters _).trans (agreeOn_visit round ha)

/-- For a protocol, the round is the part of its adapter. -/
theorem agreeOn_tick (disabled : String → Bool) (now : ℕ) {sw : Sweeper} (ha : a ∈ sw.adapters) (r : Registry) :
    ∃ round, AgreeOn a.protocol round ⟨r, []⟩ ∧
      AgreeOn a.protocol (sw.tick disabled now r) (round.visit disabled now a) := by
  obtain ⟨before, after, hsplit⟩ := List.append_of_mem ha
  have hdistinct := sw.distinct
  rw [hsplit, List.map_append, List.map_cons] at hdistinct
  have hbefore : ∀ a' ∈ before, a.protocol ≠ a'.protocol := by
    intro a' ha' heq
    exact List.nodup_append.1 hdistinct |>.2.2 _ (List.mem_map_of_mem ha') _ List.mem_cons_self heq.symm
  have hafter : ∀ a' ∈ after, a.protocol ≠ a'.protocol := by
    intro a' ha' heq
    exact (List.nodup_cons.1 (List.nodup_append.1 hdistinct).2.1).1 (heq ▸ List.mem_map_of_mem ha')
  refine ⟨before.foldl (Round.visit disabled now) ⟨r, []⟩, agreeOn_foldl hbefore _, ?_⟩
  rw [Sweeper.tick, hsplit, List.foldl_append, List.foldl_cons]
  exact agreeOn_foldl hafter _

end Rounds

/-- What a round does with the tunnels that an adapter polled. -/
structure Swept (a : Adapter) (disabled : String → Bool) (live : List Live) (before : Registry) (after : Round)
    (survivors : List Live) : Prop where
  /-- Every tunnel polled stays or is handed to `Evict`. -/
  partition : (survivors ++ (after.callsOf a.protocol).map Prod.fst).Perm live
  outcomes : ∀ c ∈ after.callsOf a.protocol, c.2 = a.evict c.1
  /-- Those stay that may. -/
  admitted : survivors.Perm (a.admissible disabled live)
  at_most : ∀ key : AccountKey, 0 < (a.limit key.inboundID).1 →
    (survivors.countP (fun s => decide (s.account = key)) : ℤ) ≤ (a.limit key.inboundID).1
  /-- The address of a tunnel that stays is recorded, with the account of one that stays there. -/
  recorded : ∀ s ∈ survivors, ∃ s' ∈ survivors, s'.ip = s.ip ∧
    after.registry.recorded a.protocol s.ip =
      some (if s'.email = "" then (before.recorded a.protocol s.ip).getD "" else s'.email)
  metered : ∀ s ∈ survivors, (before.recorded a.protocol s.ip ≠ none → before.Metered a.protocol s.ip) →
    after.registry.Metered a.protocol s.ip
  /-- Where all that stay at an address are of one account, it is recorded. -/
  own : ∀ s ∈ survivors, s.email ≠ "" → (∀ s' ∈ survivors, s'.ip = s.ip → s'.email = s.email) →
    after.registry.recorded a.protocol s.ip = some s.email
  /-- No disabled account is recorded. -/
  enabled : (∀ s ∈ survivors, s.email ≠ "") → ∀ ip email, after.registry.recorded a.protocol ip = some email →
    ∃ s ∈ survivors, s.ip = ip ∧ s.email = email ∧ s.isDisabled disabled = false
  /-- No other address is recorded or counted, whatever became of the tunnels there. -/
  dropped : ∀ ip, (∀ s ∈ survivors, s.ip ≠ ip) → after.registry.recorded a.protocol ip = none ∧
    (before.recorded a.protocol ip ≠ none → ¬after.registry.Metered a.protocol ip)

/-- A round keeps the tunnels that may stay, and records and counts their addresses. -/
theorem tick_swept (sw : Sweeper) (disabled : String → Bool) (now : ℕ) (r : Registry) {a : Adapter}
    (ha : a ∈ sw.adapters) {live : List Live} (hpoll : a.poll = some live) :
    ∃ survivors, Swept a disabled live r (sw.tick disabled now r) survivors := by
  obtain ⟨round, hround, htick⟩ := agreeOn_tick disabled now ha r
  have hvisit : round.visit disabled now a =
      { registry := round.registry.reconcileLocalSessions a.protocol (desiredOf (a.sweep disabled live).1) now
        calls := round.calls ++ (a.sweep disabled live).2.map fun s => (a.protocol, s, a.evict s) } := by
    rw [Round.visit, hpoll]
  have hcalls : (sw.tick disabled now r).callsOf a.protocol =
      (a.sweep disabled live).2.map fun s => (s, a.evict s) := by
    have hnone : Round.callsOf ⟨round.registry.reconcileLocalSessions a.protocol
        (desiredOf (a.sweep disabled live).1) now, round.calls⟩ a.protocol = [] := hround.calls
    rw [htick.calls, hvisit, callsOf_append, callsOf_calls, if_pos rfl, hnone, List.nil_append]
  have hrecorded : ∀ ip, (sw.tick disabled now r).registry.recorded a.protocol ip =
      ((desiredOf (a.sweep disabled live).1).find? ip).map fun d =>
        if d.2 = "" then (r.recorded a.protocol ip).getD "" else d.2 := by
    intro ip
    rw [htick.recorded, hvisit, Registry.recorded_reconcile, hround.recorded]
  have hsurvivor : ∀ s ∈ (a.sweep disabled live).1, ∃ s' ∈ (a.sweep disabled live).1, s'.ip = s.ip ∧
      (sw.tick disabled now r).registry.recorded a.protocol s.ip =
        some (if s'.email = "" then (r.recorded a.protocol s.ip).getD "" else s'.email) := by
    intro s hs
    obtain ⟨d, hd⟩ := Option.ne_none_iff_exists'.1 (desired_ne_none.2 ⟨s, hs, rfl⟩)
    obtain ⟨s', hs', hip, hemail⟩ := survivor_of_desired hd
    refine ⟨s', hs', hip, ?_⟩
    rw [hrecorded, hd, Option.map_some, hemail]
  refine ⟨(a.sweep disabled live).1, ?_⟩
  constructor
  case partition =>
    rw [hcalls, List.map_map]
    have hfst : (a.sweep disabled live).2.map (Prod.fst ∘ fun s => (s, a.evict s)) = (a.sweep disabled live).2 :=
      List.map_id _
    rw [hfst]
    exact a.sweep_append_perm disabled live
  case outcomes =>
    intro c hc
    rw [hcalls] at hc
    obtain ⟨s, -, rfl⟩ := List.mem_map.1 hc
    rfl
  case admitted => exact a.survivors_perm disabled live
  case at_most => exact a.countP_survivors_le disabled live
  case recorded => exact hsurvivor
  case metered =>
    intro s hs hbefore
    rw [htick.metered, hvisit]
    refine Registry.metered_of_desired (desired_ne_none.2 ⟨s, hs, rfl⟩) fun hne => ?_
    rw [hround.recorded] at hne
    exact (hround.metered s.ip).2 (hbefore hne)
  case own =>
    intro s hs hemail hown
    obtain ⟨s', hs', hip, hrec⟩ := hsurvivor s hs
    rw [hrec, hown s' hs' hip, if_neg hemail]
  case enabled =>
    intro hemails ip email hrec
    rw [hrecorded] at hrec
    obtain ⟨d, hd, rfl⟩ := Option.map_eq_some_iff.1 hrec
    obtain ⟨s, hs, hip, hemail⟩ := survivor_of_desired hd
    refine ⟨s, hs, hip, ?_, a.enabled_of_survivor disabled live hs⟩
    rw [hemail, if_neg (hemails s hs)]
  case dropped =>
    intro ip hnone
    have hdesired : (desiredOf (a.sweep disabled live).1).find? ip = none := by
      by_contra h
      obtain ⟨s, hs, hip⟩ := desired_ne_none.1 h
      exact hnone s hs hip
    refine ⟨by rw [hrecorded, hdesired, Option.map_none], fun hbefore => ?_⟩
    rw [htick.metered, hvisit]
    refine Registry.not_metered_of_gone hdesired ?_
    rw [hround.recorded]
    exact hbefore

/-- A sweeper of WireGuard tunnels, one for an account, whose evictions fail. -/
def failingAdapter (live : List Live) : Adapter where
  protocol := .wgc
  poll := some live
  limit := fun _ => (1, "reject")
  evict := fun _ => false
  visit := id
  visit_perm := List.Perm.refl

def failingSweeper (live : List Live) : Sweeper := ⟨[failingAdapter live], List.nodup_singleton _⟩

def tunnelOf (email ip : String) (since : ℤ) : Live := ⟨.wgc, 1, email, ip, email, false, since⟩

/-- Two tunnels of one account, the newer one first. -/
def twoTunnels : List Live := [tunnelOf "ana" "10.7.0.4/30" 2, tunnelOf "ana" "10.7.0.0/30" 1]

/-- The address of the newer one was recorded and counted. -/
def recordedBefore : Registry where
  sessions := Table.single ⟨localSessionKey .wgc "10.7.0.4/30", "ana", "10.7.0.4/30", .wgc, 0, none, "", .line 0⟩
  counters := [(.wgc, "10.7.0.4/30")]
  keyed := by
    intro s hs _
    rw [List.mem_singleton.1 hs]

/-- A tick in which no account is over its quota. -/
def tickOf (live : List Live) : Round := (failingSweeper live).tick (fun _ => false) 1 recordedBefore

/-- What a tick leaves of the two tunnels. -/
theorem trimToLimit_twoTunnels : trimToLimit twoTunnels 1 "reject" =
    ([tunnelOf "ana" "10.7.0.0/30" 1], [tunnelOf "ana" "10.7.0.4/30" 2]) := by
  have hswap : twoTunnels.Perm [tunnelOf "ana" "10.7.0.0/30" 1, tunnelOf "ana" "10.7.0.4/30" 2] :=
    List.Perm.swap _ _ _
  have hsorted : stableSort Live.since [tunnelOf "ana" "10.7.0.0/30" 1, tunnelOf "ana" "10.7.0.4/30" 2] =
      [tunnelOf "ana" "10.7.0.0/30" 1, tunnelOf "ana" "10.7.0.4/30" 2] :=
    List.mergeSort_of_pairwise (by decide)
  rw [trimToLimit, if_neg (by decide), stableSort_eq_of_perm Live.since hswap (by decide), hsorted]
  rfl

theorem sweep_twoTunnels : (failingAdapter twoTunnels).sweep (fun _ => false) twoTunnels =
    ([tunnelOf "ana" "10.7.0.0/30" 1], [tunnelOf "ana" "10.7.0.4/30" 2]) := by
  have hrows : (failingAdapter twoTunnels).visit (groupByAccount twoTunnels).rows =
      [(⟨1, "ana"⟩, twoTunnels)] := by
    decide +kernel
  have hgroup : (failingAdapter twoTunnels).sweepGroup (fun _ => false) (⟨1, "ana"⟩, twoTunnels) =
      ([tunnelOf "ana" "10.7.0.0/30" 1], [tunnelOf "ana" "10.7.0.4/30" 2]) := by
    show ((trimToLimit twoTunnels 1 "reject").1, (trimToLimit twoTunnels 1 "reject").2) = _
    rw [trimToLimit_twoTunnels]
  rw [Adapter.sweep, hrows, List.map_singleton, hgroup]
  rfl

theorem tickOf_twoTunnels : tickOf twoTunnels =
    { registry := recordedBefore.reconcileLocalSessions .wgc (desiredOf [tunnelOf "ana" "10.7.0.0/30" 1]) 1
      calls := [(.wgc, tunnelOf "ana" "10.7.0.4/30" 2, false)] } := by
  show Round.visit (fun _ => false) 1 ⟨recordedBefore, []⟩ (failingAdapter twoTunnels) = _
  rw [Round.visit]
  show Round.mk _ _ = _
  rw [sweep_twoTunnels]
  rfl

/-- The tunnel over the limit stays up when its eviction fails; it is neither recorded nor
counted any longer.  Of two accounts at one address only one is recorded. -/
theorem failed_eviction_unrecorded :
    ((tickOf twoTunnels).callsOf .wgc = [(tunnelOf "ana" "10.7.0.4/30" 2, false)] ∧
      (tickOf twoTunnels).registry.recorded .wgc "10.7.0.4/30" = none ∧
      ¬(tickOf twoTunnels).registry.Metered .wgc "10.7.0.4/30") ∧
    (tickOf [tunnelOf "ana" "10.7.0.0/30" 1, tunnelOf "bo" "10.7.0.0/30" 1]).callsOf .wgc = [] ∧
      (tickOf [tunnelOf "ana" "10.7.0.0/30" 1, tunnelOf "bo" "10.7.0.0/30" 1]).registry.recorded .wgc
        "10.7.0.0/30" = some "bo" := by
  rw [tickOf_twoTunnels]
  unfold Registry.Metered
  decide +kernel

theorem tick_swept_failing :
    failingAdapter twoTunnels ∈ (failingSweeper twoTunnels).adapters ∧
      (tickOf twoTunnels).callsOf .wgc = [(tunnelOf "ana" "10.7.0.4/30" 2, false)] ∧
      ∃ survivors, Swept (failingAdapter twoTunnels) (fun _ => false) twoTunnels recordedBefore
        (tickOf twoTunnels) survivors :=
  ⟨List.mem_singleton.2 rfl, by rw [tickOf_twoTunnels]; decide +kernel,
    tick_swept (failingSweeper twoTunnels) (fun _ => false) 1 recordedBefore (List.mem_singleton.2 rfl) rfl⟩

end Simorgh.Radius
