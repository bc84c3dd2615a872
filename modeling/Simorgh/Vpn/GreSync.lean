import Simorgh.Lib.Run
import Simorgh.Vpn.Gre

/-!
# Keeping the kernel's GRE state in step

Three writers keep what the kernel has for GRE: `GenerateAllConfigs`, which reads the
database, applies a plan and publishes its dynamic peers; the learner, which binds the
peers it took at the start of a window; and `ApplyNftRules`.  Their steps interleave.

* `Host.plan`, `applyPlan` — the plan of a database, and what applying it leaves.
* `GreSystem.step` — one step of a writer, or a change of the database.
* `GreAccount.off` — an account that is off, with its block.
* `off_account_stays_cut` — what has to hold of every step for an account that is off to
  have no route, no neighbour entry and no netdev from the end of a tick on, and to be
  blocked.
-/

namespace Simorgh.Vpn.Nft

open Simorgh.Lib Simorgh.Panel Simorgh.Vpn Simorgh.Vpn.Routing

/-! ## Plans -/

/-- A map from addresses to netdevs, the latest entry last. -/
abbrev PeerMap := List (Addr × String)

/-- The last entry of an address. -/
def PeerMap.get? (m : PeerMap) (a : Addr) : Option String := (m.reverse.find? fun e => decide (e.1 = a)).map (·.2)

/-- `grePlan`: the catch-alls, the netdevs of single peers, the host routes of each netdev, and
the dynamic peers. -/
structure GrePlan where
  cats : List String
  p2p : List String
  routes : List (String × Addr)
  dynamic : PeerMap

/-- The netdevs of a plan. -/
def GrePlan.links (plan : GrePlan) : List String := plan.cats ++ plan.p2p

/-- The enabled GRE inbounds that have an address to bind. -/
def Host.greBound (h : Host) : List ((Server × Settings) × String) :=
  (h.decodedOf .gre).filterMap fun s => (h.localIPFor s.1).map (s, ·)

/-- The peers that get a data path, each with its netdev and its address: those of the
accounts that are not off, but for the ones whose address does not parse. -/
def Host.greDevices (h : Host) : List (GrePeer × String × Addr) :=
  h.greBound.flatMap fun b =>
    (b.1.2.clients.zipIdx.filter fun c => decide (c.1.email ≠ "") && !c.1.off h.disabled).flatMap fun c =>
      (peerDevices b.1.1 b.1.2 (greCatName b.2) (c.1.slotAt c.2) c.1).filter fun d =>
        d.1.peerIp.isNone || d.1.parses

/-- `planInbound`, for every inbound. -/
def Host.plan (h : Host) : GrePlan where
  cats := h.greBound.map fun b => greCatName b.2
  p2p := (h.greDevices.filter fun d => d.1.peerIp.isSome).map fun d => d.2.1
  routes := h.greDevices.map fun d => d.2
  dynamic := (h.greDevices.filter fun d => d.1.peerIp.isNone).map fun d => (d.2.2, d.2.1)

/-! ## The kernel -/

/-- A tunnel device. -/
structure Netdev where
  name : String
  /-- the host routes out of it -/
  routes : List Addr := []
  /-- the permanent neighbour entries: the inner address and the outer one -/
  neigh : List (Addr × String) := []

/-- `ensureP2p` and `ensureCatchAll`: the netdevs are there. -/
def ensureLinks (devs : Table Netdev.name) (names : List String) : Table Netdev.name :=
  names.foldl (fun devs name => if (devs.find? name).isSome then devs else devs.put { name := name }) devs

/-- The routes of a netdev. -/
def GrePlan.routesOf (plan : GrePlan) (iface : String) : List Addr :=
  (plan.routes.filter fun r => decide (r.1 = iface)).map (·.2)

/-- `reconcileRoutes`: the planned host routes and no others. -/
def reconcileRoutes (plan : GrePlan) (devs : Table Netdev.name) : Table Netdev.name :=
  devs.updateWhere (fun d => decide (d.name ∈ plan.links)) (fun d => { d with routes := plan.routesOf d.name })
    fun _ => rfl

/-- `reconcileNeigh`: the entries of the catch-alls that are still planned. -/
def reconcileNeigh (plan : GrePlan) (devs : Table Netdev.name) : Table Netdev.name :=
  devs.updateWhere (fun d => decide (d.name ∈ plan.cats))
    (fun d => { d with neigh := d.neigh.filter fun e => decide (plan.dynamic.get? e.1 = some d.name) }) fun _ => rfl

/-- `applyPlan`.  What is no longer planned goes last. -/
def applyPlan (devs : Table Netdev.name) (plan : GrePlan) : Table Netdev.name :=
  (reconcileNeigh plan (reconcileRoutes plan (ensureLinks devs plan.cats))).deleteWhere
    fun d => decide (d.name ∉ plan.links)

/-! ## The system -/

/-- A call of `GenerateAllConfigs` that has read the database. -/
structure GreCall where
  plan : GrePlan
  /-- it is that of the traffic tick -/
  tick : Bool
  applied : Bool := false

/-- The database, the devices and the calls under way. -/
structure GreSystem where
  db : Host
  netdevs : Table Netdev.name := Table.empty
  calls : ℕ → Option GreCall := fun _ => none
  /-- what the learner may bind, and what it last wrote -/
  peers : PeerMap := []
  bound : List (Addr × String) := []
  /-- the peers it took for its window -/
  window : PeerMap := []
  /-- the blocks of the accounts that are off, in the rules that are loaded -/
  blocked : List Route := []

/-- A change of the database, or a step of a call. -/
inductive GreEvent where
  | db (h : Host)
  | read (call : ℕ) (tick : Bool)
  | apply (call : ℕ)
  | publish (call : ℕ)
  | applyNft
  | openWindow
  | packet (inner : Addr) (outer : String)

/-- `bind`: the outer address of a peer, unless it is the one last written. -/
def GreSystem.bind (s : GreSystem) (inner : Addr) (outer iface : String) : GreSystem :=
  if s.bound.lookup inner = some outer then s
  else if (s.netdevs.find? iface).isSome then
    { s with
      netdevs := s.netdevs.modify iface
        (fun d => { d with neigh := (inner, outer) :: d.neigh.filter fun e => decide (e.1 ≠ inner) }) fun _ => rfl
      bound := (inner, outer) :: s.bound.filter fun e => decide (e.1 ≠ inner) }
  else s

/-- One event. -/
def GreSystem.step (s : GreSystem) : GreEvent → GreSystem
  | .db h => { s with db := h }
  -- the netdevs of single peers are made while the plan is
  | .read call tick =>
      { s with
        netdevs := ensureLinks s.netdevs s.db.plan.p2p
        calls := Function.update s.calls call (some { plan := s.db.plan, tick := tick }) }
  | .apply call =>
      match s.calls call with
      | some c =>
          if c.applied then s
          else { s with
                 netdevs := applyPlan s.netdevs c.plan
                 calls := Function.update s.calls call (some { c with applied := true }) }
      | none => s
  -- `SetPeers` forgets what was bound and is no longer planned
  | .publish call =>
      match s.calls call with
      | some c =>
          if c.applied then
            { s with
              peers := c.plan.dynamic
              bound := s.bound.filter fun e => (c.plan.dynamic.get? e.1).isSome
              calls := Function.update s.calls call none }
          else s
      | none => s
  | .applyNft => { s with blocked := s.db.greBlocked }
  | .openWindow => { s with window := s.peers }
  | .packet inner outer =>
      match s.window.get? inner with
      | some iface => s.bind inner outer iface
      | none => s

/-! ## An account that is off -/

/-- An account by its inbound, slot and email, with the block of its addresses. -/
structure GreAccount where
  inboundId : ℕ
  slot : ℕ
  email : String
  block : Route

/-- The account is in the database with this block, on an inbound that serves it, and is off. -/
def GreAccount.off (a : GreAccount) (h : Host) : Bool :=
  h.greBound.any fun b =>
    decide (b.1.1.id = a.inboundId) && b.1.2.clients.zipIdx.any fun c =>
      decide (c.1.email = a.email) && decide (c.1.email ≠ "") && decide (c.1.slotAt c.2 = a.slot) &&
        c.1.off h.disabled && decide (greAccountCIDR b.1.1 b.1.2 a.slot = some a.block)

/-- The netdev is one of the account's own. -/
def GreAccount.owns (a : GreAccount) (name : String) : Prop := ∃ d, name = greP2pName a.inboundId a.slot d

/-- The kernel has no route, no neighbour entry and no netdev for the account. -/
def GreAccount.Gone (a : GreAccount) (devs : Table Netdev.name) : Prop :=
  ∀ dev ∈ devs.rows, ¬ a.owns dev.name ∧ (∀ x ∈ dev.routes, a.block.covers x = false) ∧
    ∀ e ∈ dev.neigh, a.block.covers e.1 = false

/-- While the account is off, nobody who is on has an address of its block or a netdev of its
name. -/
def GreAccount.Alone (a : GreAccount) (h : Host) : Prop :=
  a.off h = true → ∀ d ∈ h.greDevices, a.block.covers d.2.2 = false ∧ ¬ a.owns d.2.1

/-- The system, with what is recorded of an account: how often it was switched on or off,
when each call read the database and the rules were loaded by that count, and whether a
tick ended since which it was off. -/
structure Watched where
  sys : GreSystem
  switched : ℕ := 0
  readAt : ℕ → ℕ := fun _ => 0
  loadedAt : Option ℕ := none
  cut : Bool := false

/-- The call is the end of a tick. -/
def GreSystem.tickEnds (s : GreSystem) (call : ℕ) : Bool :=
  (s.calls call).elim false fun c => c.applied && c.tick

/-- One event. -/
def Watched.step (a : GreAccount) (w : Watched) (e : GreEvent) : Watched :=
  let w' := { w with sys := w.sys.step e }
  match e with
  | .db h => if a.off h = a.off w.sys.db then w' else { w' with switched := w.switched + 1, cut := false }
  | .read call _ => { w' with readAt := Function.update w.readAt call w.switched }
  | .publish call => { w' with cut := w.cut || (w.sys.tickEnds call && a.off w.sys.db) }
  | .applyNft => { w' with loadedAt := some w.switched }
  | _ => w'

/-- What has to hold of a step: while the account is off no other account gets its addresses,
no plan is applied and no tick ends that read the database before the account was switched
off, the rules are loaded between that and the end of a tick, and the learner binds no
address of the account out of a window it still is in. -/
def Watched.Timely (a : GreAccount) (w : Watched) : GreEvent → Prop
  | .db h => a.Alone h
  | .apply call => a.off w.sys.db = true → w.readAt call = w.switched
  | .publish call => a.off w.sys.db = true → w.sys.tickEnds call = true →
      w.readAt call = w.switched ∧ w.loadedAt = some w.switched
  | .packet inner _ => a.off w.sys.db = true → (w.sys.window.get? inner).isSome = true →
      a.block.covers inner = false
  | _ => True

/-- The name is one of a catch-all. -/
def CatName (name : String) : Prop := ∃ localIP, name = greCatName localIP

theorem GreAccount.not_owns_of_catName {a : GreAccount} {name : String} (h : CatName name) : ¬ a.owns name := by
  obtain ⟨localIP, rfl⟩ := h
  rintro ⟨d, hd⟩
  exact greP2pName_ne_greCatName _ _ _ _ hd.symm

section Plans

variable {h : Host} {a : GreAccount}

theorem mem_of_get? {m : PeerMap} {x : Addr} {iface : String} (hget : m.get? x = some iface) : (x, iface) ∈ m := by
  rw [PeerMap.get?, Option.map_eq_some_iff] at hget
  obtain ⟨⟨x', iface'⟩, hfind, rfl⟩ := hget
  have hx := List.find?_some hfind
  have hmem := List.mem_of_find?_eq_some hfind
  simp only [decide_eq_true_eq] at hx
  rw [← hx]
  exact List.mem_reverse.1 hmem

/-- The netdev of a peer: its own, or the catch-all of its inbound. -/
theorem greDevices_name {d : GrePeer × String × Addr} (hd : d ∈ h.greDevices) :
    (d.1.peerIp.isSome = true → ¬ CatName d.2.1) ∧ (d.1.peerIp.isNone = true → CatName d.2.1) := by
  simp only [Host.greDevices, List.mem_flatMap, List.mem_filter, peerDevices, List.mem_map] at hd
  obtain ⟨b, -, c, -, ⟨p, -, rfl⟩, -⟩ := hd
  cases hp : p.1.1.peerIp with
  | none => exact ⟨by simp, fun _ => ⟨b.2, by simp⟩⟩
  | some ip =>
      refine ⟨fun _ => ?_, by simp⟩
      rintro ⟨localIP, heq⟩
      simp only [Option.isSome_some, if_true] at heq
      exact greP2pName_ne_greCatName _ _ _ _ heq

/-- What a plan says about names. -/
structure GrePlan.Named (plan : GrePlan) : Prop where
  cats : ∀ n ∈ plan.cats, CatName n
  p2p : ∀ n ∈ plan.p2p, ¬ CatName n
  dynamic : ∀ e ∈ plan.dynamic, CatName e.2

theorem plan_named : h.plan.Named where
  cats := by
    intro n hn
    obtain ⟨b, -, rfl⟩ := List.mem_map.1 hn
    exact ⟨b.2, rfl⟩
  p2p := by
    intro n hn
    obtain ⟨d, hd, rfl⟩ := List.mem_map.1 hn
    rw [List.mem_filter] at hd
    exact (greDevices_name hd.1).1 hd.2
  dynamic := by
    intro e he
    obtain ⟨d, hd, rfl⟩ := List.mem_map.1 he
    rw [List.mem_filter] at hd
    exact (greDevices_name hd.1).2 hd.2

/-- The plan has nothing for the account. -/
structure GrePlan.Without (plan : GrePlan) (a : GreAccount) : Prop where
  routes : ∀ r ∈ plan.routes, a.block.covers r.2 = false
  p2p : ∀ n ∈ plan.p2p, ¬ a.owns n
  dynamic : ∀ e ∈ plan.dynamic, a.block.covers e.1 = false

theorem GreAccount.Alone.plan_without (halone : a.Alone h) (hoff : a.off h = true) : h.plan.Without a where
  routes := by
    intro r hr
    obtain ⟨d, hd, rfl⟩ := List.mem_map.1 hr
    exact (halone hoff d hd).1
  p2p := by
    intro n hn
    obtain ⟨d, hd, rfl⟩ := List.mem_map.1 hn
    exact (halone hoff d (List.mem_filter.1 hd).1).2
  dynamic := by
    intro e he
    obtain ⟨d, hd, rfl⟩ := List.mem_map.1 he
    exact (halone hoff d (List.mem_filter.1 hd).1).1

/-- The block of an account that is off is one of those the rules block. -/
theorem GreAccount.block_mem_greBlocked (hoff : a.off h = true) : a.block ∈ h.greBlocked := by
  simp only [GreAccount.off, Host.greBound, List.any_eq_true, List.mem_filterMap, Option.map_eq_some_iff,
    Bool.and_eq_true, decide_eq_true_eq] at hoff
  obtain ⟨b, ⟨s, hs, localIP, hlocal, rfl⟩, -, ⟨c, n⟩, hc, ⟨⟨⟨-, hemail⟩, hslot⟩, hoff⟩, hblock⟩ := hoff
  refine blocked_of_off hs (by rw [hlocal]; rfl) (List.mem_zipIdx_iff_getElem?.1 hc) hemail hoff ?_
  rw [hslot]
  exact hblock

end Plans

section Kernel

variable {devs : Table Netdev.name} {a : GreAccount}

theorem mem_ensureLinks {names : List String} {dev : Netdev} (hdev : dev ∈ (ensureLinks devs names).rows) :
    dev ∈ devs.rows ∨ dev.name ∈ names ∧ dev.routes = [] ∧ dev.neigh = [] := by
  induction names generalizing devs with
  | nil => exact .inl hdev
  | cons name names ih =>
      rw [ensureLinks, List.foldl_cons] at hdev
      rcases ih hdev with hdev | ⟨hname, hempty⟩
      · split at hdev
        · exact .inl hdev
        · rcases Table.mem_put.1 hdev with ⟨hdev, -⟩ | rfl
          · exact .inl hdev
          · exact .inr ⟨List.mem_cons_self .., rfl, rfl⟩
      · exact .inr ⟨List.mem_cons_of_mem _ hname, hempty⟩

theorem GreAccount.Gone.ensureLinks (hgone : a.Gone devs) {names : List String} (hnames : ∀ n ∈ names, ¬ a.owns n) :
    a.Gone (ensureLinks devs names) := by
  intro dev hdev
  rcases mem_ensureLinks hdev with hdev | ⟨hname, hroutes, hneigh⟩
  · exact hgone dev hdev
  · refine ⟨hnames _ hname, ?_, ?_⟩
    · rw [hroutes]; simp
    · rw [hneigh]; simp

/-- Only catch-alls have neighbour entries. -/
def Catching (devs : Table Netdev.name) : Prop := ∀ dev ∈ devs.rows, dev.neigh ≠ [] → CatName dev.name

theorem Catching.ensureLinks (hcatching : Catching devs) (names : List String) :
    Catching (ensureLinks devs names) := by
  intro dev hdev hne
  rcases mem_ensureLinks hdev with hdev | ⟨-, -, hneigh⟩
  · exact hcatching dev hdev hne
  · exact absurd hneigh hne

/-- What an applied plan leaves. -/
theorem mem_applyPlan {plan : GrePlan} {dev : Netdev} (hdev : dev ∈ (applyPlan devs plan).rows) :
    dev.name ∈ plan.links ∧ dev.routes = plan.routesOf dev.name ∧
      ∃ old ∈ (ensureLinks devs plan.cats).rows, old.name = dev.name ∧
        dev.neigh = if dev.name ∈ plan.cats then
          old.neigh.filter fun e => decide (plan.dynamic.get? e.1 = some dev.name) else old.neigh := by
  obtain ⟨hdev, hkept⟩ := Table.mem_deleteWhere.1 hdev
  obtain ⟨mid, hmid, rfl⟩ := List.mem_map.1 hdev
  obtain ⟨old, hold, rfl⟩ := List.mem_map.1 hmid
  have hlink : old.name ∈ plan.links := by
    by_cases hcat : old.name ∈ plan.cats
    · exact List.mem_append_left _ hcat
    · by_cases hlink : old.name ∈ plan.links
      · exact hlink
      · simp [hcat, hlink] at hkept
  by_cases hcat : old.name ∈ plan.cats
  · simp only [hlink, hcat, decide_true, if_true]
    exact ⟨trivial, trivial, old, hold, rfl, rfl⟩
  · simp only [hlink, hcat, decide_true, decide_false, if_true, if_false, Bool.false_eq_true]
    exact ⟨trivial, trivial, old, hold, rfl, rfl⟩

theorem gone_applyPlan {plan : GrePlan} (hcatching : Catching devs) (hnamed : plan.Named)
    (hwithout : plan.Without a) : a.Gone (applyPlan devs plan) := by
  intro dev hdev
  obtain ⟨hlink, hroutes, old, hold, hname, hneigh⟩ := mem_applyPlan hdev
  refine ⟨?_, ?_, ?_⟩
  · rcases List.mem_append.1 hlink with hcat | hp2p
    · exact GreAccount.not_owns_of_catName (hnamed.cats _ hcat)
    · exact hwithout.p2p _ hp2p
  · rw [hroutes]
    intro x hx
    obtain ⟨r, hr, rfl⟩ := List.mem_map.1 hx
    exact hwithout.routes r (List.mem_filter.1 hr).1
  · by_cases hcat : dev.name ∈ plan.cats
    · rw [hneigh, if_pos hcat]
      intro e he
      have hget := (List.mem_filter.1 he).2
      simp only [decide_eq_true_eq] at hget
      exact hwithout.dynamic (e.1, dev.name) (mem_of_get? hget)
    · -- the netdev of a single peer has no entries
      have hp2p : dev.name ∈ plan.p2p := (List.mem_append.1 hlink).resolve_left hcat
      have hnil : old.neigh = [] := by
        by_contra hne
        exact hnamed.p2p _ hp2p (hname ▸ hcatching.ensureLinks plan.cats old hold hne)
      rw [hneigh, if_neg hcat, hnil]
      simp

theorem Catching.applyPlan (hcatching : Catching devs) (plan : GrePlan) : Catching (applyPlan devs plan) := by
  intro dev hdev hne
  obtain ⟨-, -, old, hold, hname, hneigh⟩ := mem_applyPlan hdev
  rw [← hname]
  refine hcatching.ensureLinks plan.cats old hold fun hnil => hne ?_
  rw [hneigh, hnil]
  simp

end Kernel

section Learner

variable {s : GreSystem} {a : GreAccount} {inner : Addr} {outer iface : String}

theorem mem_bind {dev : Netdev} (hdev : dev ∈ (s.bind inner outer iface).netdevs.rows) :
    ∃ old ∈ s.netdevs.rows, dev.name = old.name ∧ dev.routes = old.routes ∧
      (dev.neigh = old.neigh ∨ dev.name = iface ∧ ∀ e ∈ dev.neigh, e ∈ old.neigh ∨ e = (inner, outer)) := by
  rw [GreSystem.bind] at hdev
  split at hdev
  · exact ⟨dev, hdev, rfl, rfl, .inl rfl⟩
  · split at hdev
    · obtain ⟨old, hold, rfl⟩ := List.mem_map.1 hdev
      refine ⟨old, hold, ?_⟩
      by_cases hname : old.name = iface
      · simp only [hname, decide_true, if_true, List.mem_cons, List.mem_filter]
        refine ⟨trivial, trivial, .inr ⟨trivial, ?_⟩⟩
        rintro e (rfl | he)
        · exact .inr rfl
        · exact .inl he.1
      · simp [hname]
    · exact ⟨dev, hdev, rfl, rfl, .inl rfl⟩

theorem GreAccount.Gone.bind (hgone : a.Gone s.netdevs) (hinner : a.block.covers inner = false) :
    a.Gone (s.bind inner outer iface).netdevs := by
  intro dev hdev
  obtain ⟨old, hold, hname, hroutes, hneigh⟩ := mem_bind hdev
  obtain ⟨howns, hold_routes, hold_neigh⟩ := hgone old hold
  refine ⟨hname ▸ howns, hroutes ▸ hold_routes, fun e he => ?_⟩
  rcases hneigh with hneigh | ⟨-, hneigh⟩
  · exact hold_neigh e (hneigh ▸ he)
  · rcases hneigh e he with he | rfl
    · exact hold_neigh e he
    · exact hinner

theorem Catching.bind (hcatching : Catching s.netdevs) (hiface : CatName iface) :
    Catching (s.bind inner outer iface).netdevs := by
  intro dev hdev hne
  obtain ⟨old, hold, hname, -, hneigh⟩ := mem_bind hdev
  rcases hneigh with hneigh | ⟨hdev, -⟩
  · rw [hname]
    exact hcatching old hold (hneigh ▸ hne)
  · rw [hdev]
    exact hiface

/-- Binding changes the netdevs and the learner's record. -/
theorem bind_eq : ∃ devs bound, s.bind inner outer iface = { s with netdevs := devs, bound := bound } := by
  rw [GreSystem.bind]
  split
  · exact ⟨_, _, rfl⟩
  · split
    · exact ⟨_, _, rfl⟩
    · exact ⟨_, _, rfl⟩

end Learner

/-! ## Every run -/

/-- The names are in order, in the kernel, the learner and the calls. -/
structure GreSystem.Orderly (s : GreSystem) : Prop where
  catching : Catching s.netdevs
  peers : ∀ e ∈ s.peers, CatName e.2
  window : ∀ e ∈ s.window, CatName e.2
  calls : ∀ g c, s.calls g = some c → c.plan.Named

theorem GreSystem.Orderly.step {s : GreSystem} (hord : s.Orderly) (e : GreEvent) : (s.step e).Orderly := by
  cases e with
  | db h => exact ⟨hord.catching, hord.peers, hord.window, hord.calls⟩
  | read call tick =>
      refine ⟨hord.catching.ensureLinks _, hord.peers, hord.window, fun g c hc => ?_⟩
      simp only [GreSystem.step, Function.update_apply] at hc
      split at hc
      · obtain rfl := Option.some.inj hc
        exact plan_named
      · exact hord.calls g c hc
  | apply call =>
      simp only [GreSystem.step]
      cases hcall : s.calls call with
      | none => exact hord
      | some c =>
          by_cases happlied : c.applied = true
          · simpa only [happlied, if_true] using hord
          · simp only [happlied, if_false, Bool.false_eq_true]
            refine ⟨hord.catching.applyPlan _, hord.peers, hord.window, fun g c' hc' => ?_⟩
            simp only [Function.update_apply] at hc'
            split at hc'
            · obtain rfl := Option.some.inj hc'
              exact hord.calls call c hcall
            · exact hord.calls g c' hc'
  | publish call =>
      simp only [GreSystem.step]
      cases hcall : s.calls call with
      | none => exact hord
      | some c =>
          by_cases happlied : c.applied = true
          · simp only [happlied, if_true]
            refine ⟨hord.catching, (hord.calls call c hcall).dynamic, hord.window, fun g c' hc' => ?_⟩
            simp only [Function.update_apply] at hc'
            split at hc'
            · cases hc'
            · exact hord.calls g c' hc'
          · simpa only [happlied, if_false, Bool.false_eq_true] using hord
  | applyNft => exact ⟨hord.catching, hord.peers, hord.window, hord.calls⟩
  | openWindow => exact ⟨hord.catching, hord.peers, hord.peers, hord.calls⟩
  | packet inner outer =>
      simp only [GreSystem.step]
      cases hget : s.window.get? inner with
      | none => exact hord
      | some iface =>
          have hcat : Catching (s.bind inner outer iface).netdevs :=
            hord.catching.bind (hord.window _ (mem_of_get? hget))
          obtain ⟨devs, bound, heq⟩ := @bind_eq s inner outer iface
          simp only [heq] at hcat ⊢
          exact ⟨hcat, hord.peers, hord.window, hord.calls⟩

/-- What every step keeps of an account that is watched. -/
structure Watched.Sound (a : GreAccount) (w : Watched) : Prop where
  orderly : w.sys.Orderly
  alone : a.Alone w.sys.db
  /-- a call that read the database since the account was switched has nothing for it -/
  read : ∀ g c, w.sys.calls g = some c → w.readAt g ≤ w.switched ∧
    (w.readAt g = w.switched → a.off w.sys.db = true → c.plan.Without a)
  /-- and once it has been applied the kernel has nothing for it -/
  applied : ∀ g c, w.sys.calls g = some c → c.applied = true → w.readAt g = w.switched →
    a.off w.sys.db = true → a.Gone w.sys.netdevs
  loaded : ∀ n, w.loadedAt = some n → n ≤ w.switched ∧
    (n = w.switched → a.off w.sys.db = true → a.block ∈ w.sys.blocked)
  cut : w.cut = true → a.off w.sys.db = true ∧ a.Gone w.sys.netdevs ∧ a.block ∈ w.sys.blocked

section Steps

variable {a : GreAccount} {w : Watched}

theorem Watched.Sound.db (hw : w.Sound a) (h : Host) (hok : a.Alone h) : (w.step a (.db h)).Sound a := by
  have hord := hw.orderly.step (.db h)
  simp only [Watched.step]
  by_cases hsame : a.off h = a.off w.sys.db
  · rw [if_pos hsame]
    exact ⟨hord, hok, fun g c hc => ⟨(hw.read g c hc).1, fun hat hoff => (hw.read g c hc).2 hat (hsame ▸ hoff)⟩,
      fun g c hc happlied hat hoff => hw.applied g c hc happlied hat (hsame ▸ hoff),
      fun n hn => ⟨(hw.loaded n hn).1, fun hat hoff => (hw.loaded n hn).2 hat (hsame ▸ hoff)⟩,
      fun hcut => ⟨hsame.trans (hw.cut hcut).1, (hw.cut hcut).2⟩⟩
  · -- what was read or loaded before the account was switched does not count any more
    rw [if_neg hsame]
    refine ⟨hord, hok, fun g c hc => ?_, fun g c hc _ hat => ?_, fun n hn => ?_, by simp⟩
    · have hle := (hw.read g c hc).1
      exact ⟨Nat.le_succ_of_le hle, fun hat => absurd hat (by simp only; omega)⟩
    · have hle := (hw.read g c hc).1
      exact absurd hat (by simp only; omega)
    · have hle := (hw.loaded n hn).1
      exact ⟨Nat.le_succ_of_le hle, fun hat => absurd hat (by simp only; omega)⟩

theorem Watched.Sound.read_call (hw : w.Sound a) (call : ℕ) (tick : Bool) : (w.step a (.read call tick)).Sound a := by
  have hord := hw.orderly.step (.read call tick)
  have hwithout : a.off w.sys.db = true → w.sys.db.plan.Without a := hw.alone.plan_without
  have hgone : a.off w.sys.db = true → a.Gone w.sys.netdevs → a.Gone (ensureLinks w.sys.netdevs w.sys.db.plan.p2p) :=
    fun hoff hgone => hgone.ensureLinks (hwithout hoff).p2p
  refine ⟨hord, hw.alone, fun g c hc => ?_, fun g c hc happlied hat hoff => ?_, hw.loaded, fun hcut => ?_⟩
  · simp only [Watched.step, GreSystem.step, Function.update_apply] at hc ⊢
    by_cases hg : g = call
    · rw [if_pos hg] at hc ⊢
      obtain rfl := Option.some.inj hc
      exact ⟨le_refl _, fun _ hoff => hwithout hoff⟩
    · rw [if_neg hg] at hc ⊢
      exact hw.read g c hc
  · simp only [Watched.step, GreSystem.step, Function.update_apply] at hc hat hoff ⊢
    by_cases hg : g = call
    · rw [if_pos hg] at hc
      obtain rfl := Option.some.inj hc
      exact absurd happlied (by simp)
    · rw [if_neg hg] at hc hat
      exact hgone hoff (hw.applied g c hc happlied hat hoff)
  · obtain ⟨hoff, hcut⟩ := hw.cut hcut
    exact ⟨hoff, hgone hoff hcut.1, hcut.2⟩

theorem Watched.Sound.apply_call (hw : w.Sound a) (call : ℕ) (hok : w.Timely a (.apply call)) :
    (w.step a (.apply call)).Sound a := by
  have hord := hw.orderly.step (.apply call)
  simp only [Watched.step, GreSystem.step] at hord ⊢
  cases hcall : w.sys.calls call with
  | none => exact hw
  | some c =>
      by_cases happlied : c.applied = true
      · simpa only [happlied, if_true] using hw
      · simp only [hcall, happlied, if_false, Bool.false_eq_true] at hord ⊢
        have hgone : a.off w.sys.db = true → a.Gone (applyPlan w.sys.netdevs c.plan) := fun hoff =>
          gone_applyPlan hw.orderly.catching (hw.orderly.calls call c hcall) ((hw.read call c hcall).2 (hok hoff) hoff)
        refine ⟨hord, hw.alone, fun g c' hc' => ?_, fun _ _ _ _ _ hoff => hgone hoff, hw.loaded, fun hcut => ?_⟩
        · simp only [Function.update_apply] at hc'
          split at hc'
          · rename_i hg
            obtain rfl := Option.some.inj hc'
            rw [hg]
            exact hw.read call c hcall
          · exact hw.read g c' hc'
        · obtain ⟨hoff, hcut⟩ := hw.cut hcut
          exact ⟨hoff, hgone hoff, hcut.2⟩

theorem Watched.Sound.publish (hw : w.Sound a) (call : ℕ) (hok : w.Timely a (.publish call)) :
    (w.step a (.publish call)).Sound a := by
  have hord := hw.orderly.step (.publish call)
  simp only [Watched.step, GreSystem.step, GreSystem.tickEnds] at hord ⊢
  cases hcall : w.sys.calls call with
  | none => simpa using hw
  | some c =>
      by_cases happlied : c.applied = true
      · simp only [hcall, happlied, if_true] at hord ⊢
        have hcalls : ∀ g c', Function.update w.sys.calls call none g = some c' → w.sys.calls g = some c' := by
          intro g c' hc'
          rw [Function.update_apply] at hc'
          split at hc'
          · cases hc'
          · exact hc'
        refine ⟨hord, hw.alone, fun g c' hc' => hw.read g c' (hcalls g c' hc'),
          fun g c' hc' => hw.applied g c' (hcalls g c' hc'), hw.loaded, fun hcut => ?_⟩
        rcases Bool.or_eq_true_iff.1 hcut with hcut | hends
        · exact hw.cut hcut
        · simp only [Option.elim_some, happlied, Bool.true_and, Bool.and_eq_true] at hends
          have hends' : w.sys.tickEnds call = true := by
            simp [GreSystem.tickEnds, hcall, happlied, hends.1]
          obtain ⟨hat, hloaded⟩ := hok hends.2 hends'
          exact ⟨hends.2, hw.applied call c hcall happlied hat hends.2, (hw.loaded _ hloaded).2 rfl hends.2⟩
      · simpa [happlied] using hw

theorem Watched.Sound.packet (hw : w.Sound a) (inner : Addr) (outer : String)
    (hok : w.Timely a (.packet inner outer)) : (w.step a (.packet inner outer)).Sound a := by
  have hord := hw.orderly.step (.packet inner outer)
  simp only [Watched.step, GreSystem.step] at hord ⊢
  cases hget : w.sys.window.get? inner with
  | none => exact hw
  | some iface =>
      have hgone : a.off w.sys.db = true → a.Gone w.sys.netdevs → a.Gone (w.sys.bind inner outer iface).netdevs :=
        fun hoff hgone => hgone.bind (hok hoff (by rw [hget]; rfl))
      obtain ⟨devs, bound, heq⟩ := @bind_eq w.sys inner outer iface
      simp only [hget, heq] at hord hgone ⊢
      refine ⟨hord, hw.alone, hw.read, fun g c hc happlied hat hoff => ?_, hw.loaded, fun hcut => ?_⟩
      · exact hgone hoff (hw.applied g c hc happlied hat hoff)
      · obtain ⟨hoff, hcut⟩ := hw.cut hcut
        exact ⟨hoff, hgone hoff hcut.1, hcut.2⟩

theorem Watched.Sound.step (hw : w.Sound a) {e : GreEvent} (hok : w.Timely a e) : (w.step a e).Sound a := by
  cases e with
  | db h => exact hw.db h hok
  | read call tick => exact hw.read_call call tick
  | apply call => exact hw.apply_call call hok
  | publish call => exact hw.publish call hok
  | applyNft =>
      have hblocked : a.off w.sys.db = true → a.block ∈ w.sys.db.greBlocked := GreAccount.block_mem_greBlocked
      refine ⟨hw.orderly.step .applyNft, hw.alone, hw.read, hw.applied, fun n hn => ?_, fun hcut => ?_⟩
      · obtain rfl := Option.some.inj hn
        exact ⟨le_refl _, fun _ hoff => hblocked hoff⟩
      · obtain ⟨hoff, hgone, -⟩ := hw.cut hcut
        exact ⟨hoff, hgone, hblocked hoff⟩
  | openWindow => exact ⟨hw.orderly.step .openWindow, hw.alone, hw.read, hw.applied, hw.loaded, hw.cut⟩
  | packet inner outer => exact hw.packet inner outer hok

/-- Before the panel has done anything. -/
def Watched.start (h : Host) : Watched := { sys := { db := h } }

theorem sound_start {h : Host} (halone : a.Alone h) : (Watched.start h).Sound a where
  orderly :=
    { catching := fun dev hdev => absurd hdev List.not_mem_nil
      peers := fun e he => absurd he List.not_mem_nil
      window := fun e he => absurd he List.not_mem_nil
      calls := fun g c hc => by cases hc }
  alone := halone
  read := fun g c hc => by cases hc
  applied := fun g c hc => by cases hc
  loaded := fun n hn => by cases hn
  cut := fun hcut => by cases hcut

/-- **An account that is off stays cut**, in every run whose steps are timely: in every state
since a tick that ended while it was off, and as long as it is, the kernel has no route, no
neighbour entry and no netdev for it, and the rules that are loaded block its addresses. -/
theorem off_account_stays_cut (a : GreAccount) {h : Host} (halone : a.Alone h) {events : List GreEvent}
    (hall : AllSteps (Watched.step a) (fun w e => w.Timely a e) (Watched.start h) events) :
    ∀ w ∈ states (Watched.step a) (Watched.start h) events, w.cut = true →
      a.off w.sys.db = true ∧ a.Gone w.sys.netdevs ∧ a.block ∈ w.sys.blocked := by
  intro w hw
  exact (hall.invariant (fun _ _ hw hok => hw.step hok) (sound_start halone) w hw).cut

end Steps

/-- One GRE inbound with one account, which has one dynamic peer. -/
def oneAccount (enable : Bool) : Host where
  servers := Table.single
    { id := 2, protocol := .gre, listen := some "192.0.2.1"
      settings := some { clients := [{ email := "ann", enable := enable, peers := [{ peerIp := none }] }] } }

def annAccount : GreAccount := ⟨2, 0, "ann", ⟨⟨⟨10, 9, 2⟩, 2⟩, 32⟩⟩

theorem annAccount_alone (enable : Bool) : annAccount.Alone (oneAccount enable) := by
  intro hoff d hd
  cases enable with
  | true => exact absurd hoff (by decide +kernel)
  | false =>
      rw [show (oneAccount false).greDevices = [] by decide +kernel] at hd
      exact absurd hd List.not_mem_nil

def timelyEvents : List GreEvent :=
  [.read 0 true, .apply 0, .publish 0, .openWindow, .packet annAccount.block.addr "203.0.113.5",
    .db (oneAccount false), .applyNft, .read 1 true, .apply 1, .publish 1, .openWindow,
    .packet annAccount.block.addr "203.0.113.5"]

theorem ann_stays_cut :
    (run (Watched.step annAccount) (Watched.start (oneAccount true)) timelyEvents).cut = true ∧
      ∀ w ∈ states (Watched.step annAccount) (Watched.start (oneAccount true)) timelyEvents, w.cut = true →
        annAccount.off w.sys.db = true ∧ annAccount.Gone w.sys.netdevs ∧ annAccount.block ∈ w.sys.blocked := by
  refine ⟨by decide +kernel, off_account_stays_cut annAccount (annAccount_alone true) ?_⟩
  refine ⟨trivial, ?_, ?_, trivial, ?_, annAccount_alone false, trivial, trivial, ?_, ?_, trivial, ?_, trivial⟩
  · exact fun hoff => absurd hoff (by decide +kernel)
  · exact fun hoff => absurd hoff (by decide +kernel)
  · exact fun hoff => absurd hoff (by decide +kernel)
  · exact fun _ => by decide +kernel
  · exact fun _ _ => by decide +kernel
  · exact fun _ hsome => absurd hsome (by decide +kernel)

/-- The learner's window is older than the tick that cut the account off. -/
def lateEvents : List GreEvent :=
  [.read 0 true, .apply 0, .publish 0, .openWindow, .db (oneAccount false), .applyNft, .read 1 true, .apply 1,
    .publish 1, .packet annAccount.block.addr "203.0.113.5"]

/-- The rules are not rebuilt by the tick. -/
def unloadedEvents : List GreEvent := [.db (oneAccount false), .read 0 true, .apply 0, .publish 0]

theorem off_account_reopened :
    ((run (Watched.step annAccount) (Watched.start (oneAccount true)) lateEvents).cut = true ∧
      (run (Watched.step annAccount) (Watched.start (oneAccount true)) lateEvents).sys.netdevs.rows.map
        (fun d => (d.name, d.neigh)) = [(greCatName "192.0.2.1", [(annAccount.block.addr, "203.0.113.5")])]) ∧
      (run (Watched.step annAccount) (Watched.start (oneAccount true)) unloadedEvents).cut = true ∧
        annAccount.block ∉ (run (Watched.step annAccount)
          (Watched.start (oneAccount true)) unloadedEvents).sys.blocked := by
  refine ⟨⟨?_, ?_⟩, ?_, ?_⟩ <;> decide +kernel

end Simorgh.Vpn.Nft
