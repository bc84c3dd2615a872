import Mathlib.Data.List.Dedup
import Mathlib.Data.List.TakeWhile
import Simorgh.Lib.Least
import Simorgh.Panel.SpeedLimits
import Simorgh.Vpn.OutPins

/-!
# What the published limits are

`computeSpeedLimits` merges the inbounds an account is on into the limits that are published
for it: the least rate in each direction, the least cap, the milder strategy.  Here the
addresses are texts, as the map has them.

* `limitsAt_merged` — the limits of an account are a fold over the entries that carry it.
* `computeSpeedLimits_reordered` — the order of the inbounds and of their clients does not matter.
* `publishes_merge_iff` — the limits are the merge exactly if the least rate of every account
  fits 64 bits with no other wrapping below it, and its addresses are addresses.
* `wrapped_published` — a rate of 2^53 KB/s is published as a negative one.
-/

namespace Simorgh.Panel.PublishedLimits

open Simorgh.Lib Simorgh.Panel.SpeedLimits Simorgh.Vpn.Outbounds

/-! ## Addresses -/

/-- `IP.To4` is not nil. -/
def isTo4 (ip : ℕ) : Bool := decide (ip / 2 ^ 32 = 0xffff)

/-- An address as it is listed. -/
def normalizeSpeedLimitIP (v : String) : String :=
  let v := trimSpace v
  if v = "" ∨ '/' ∈ v.toList then v
  else match parseIP v with
    | none => v
    | some ip => if isTo4 ip then v ++ "/32" else v ++ "/128"

/-- The loop of `speedLimitIPs`; what has been seen is what has been put out. -/
def collectIPs : List String → List String → List String
  | out, [] => out
  | out, v :: raw =>
      let v := normalizeSpeedLimitIP v
      if v = "" then collectIPs out raw
      else if v ∈ out then collectIPs out raw
      else collectIPs (out ++ [v]) raw

/-- The addresses of an account. -/
def speedLimitIPs (email : String) (ipMap : String → List String) : List String :=
  (collectIPs [] (ipMap email)).insertionSort (· ≤ ·)

/-- `net.ParseCIDR` accepts the text. -/
def isCIDR (s : String) : Bool :=
  let addr := s.toList.takeWhile (· ≠ '/')
  match s.toList.dropWhile (· ≠ '/'), parseIP (String.ofList addr) with
  | _ :: mask, some _ =>
      decide (mask ≠ []) && (numeral? 10 mask).any fun n => decide (n ≤ if ':' ∈ addr then 128 else 32)
  | _, _ => false

example : isCIDR "10.6.0.0/24" = true ∧ isCIDR "fd00::/129" = false ∧ isCIDR "10.6.0.0" = false := by
  decide +kernel

/-! ## Limits -/

/-- What is published of an account's merged limits. -/
def userOf (ipMap : String → List String) (r : Limits) : SpeedLimitUser :=
  { email := r.email, downBps := r.down, upBps := r.up, ipLimit := r.ipLimit
    strategy := if r.strategy = ipLimitStrategyReject then "" else r.strategy
    ips := speedLimitIPs r.email ipMap }

/-- Some limit is set. -/
def limited (r : Limits) : Bool := !(decide (r.down = 0) && decide (r.up = 0) && decide (r.ipLimit = 0))

/-- The document of all policies. -/
def computeSpeedLimits (policies : List SpeedLimitPolicy) (usage : String → Int)
    (ipMap : String → List String) : List SpeedLimitUser :=
  let merged := policies.foldl (mergePolicy usage) Table.empty
  ((merged.rows.filter limited).map (userOf ipMap)).insertionSort fun a b => a.email ≤ b.email

/-! ## The entries of an account -/

/-- A client of an inbound. -/
abbrev Entry := SpeedLimits.InboundRow × SpeedLimitClient

/-- The entries that carry an account. -/
def carrying (policies : List SpeedLimitPolicy) (email : String) : List Entry :=
  policies.flatMap fun p => (p.clients.filter fun c => decide (c.email = email)).map fun c => (p.inbound, c)

/-- The rate in bytes a second, however large. -/
def exactRate (kbps : Int) : Int := if kbps ≤ 0 then 0 else kbps * bytesPerKB

/-- The rate down, if the limit is on. -/
def exactDown (inb : SpeedLimits.InboundRow) : Int := if inb.speedLimitEnable then exactRate inb.speedLimitDown else 0

/-- The rate up, if the limit is on. -/
def exactUp (inb : SpeedLimits.InboundRow) : Int :=
  if inb.speedLimitEnable && inb.speedLimitSeparate then exactRate inb.speedLimitUp else exactDown inb

/-- The entries whose Limit After is reached. -/
def armed (policies : List SpeedLimitPolicy) (usage : String → Int) (email : String) : List Entry :=
  (carrying policies email).filter fun x => speedLimitArmed x.1 (usage email)

/-- The entries the core enforces a cap for. -/
def capping (policies : List SpeedLimitPolicy) (email : String) : List Entry :=
  (carrying policies email).filter fun x => ipLimitEnforcedInCore x.1 && decide (0 < resolveIPLimit x.1 x.2)

/-- Some limit applies to the account. -/
def HasLimit (policies : List SpeedLimitPolicy) (usage : String → Int) (email : String) : Prop :=
  email ≠ "" ∧ ((∃ x ∈ armed policies usage email, 0 < exactDown x.1) ∨
    (∃ x ∈ armed policies usage email, 0 < exactUp x.1) ∨ capping policies email ≠ [])

/-- The published limits are the merge of the inbounds. -/
structure IsMerge (policies : List SpeedLimitPolicy) (usage : String → Int) (ipMap : String → List String)
    (users : List SpeedLimitUser) : Prop where
  sorted : (users.map SpeedLimitUser.email).Pairwise (· < ·)
  emails : ∀ email, email ∈ users.map SpeedLimitUser.email ↔ HasLimit policies usage email
  down : ∀ u ∈ users, LeastPositive ((armed policies usage u.email).map fun x => exactDown x.1) u.downBps
  up : ∀ u ∈ users, LeastPositive ((armed policies usage u.email).map fun x => exactUp x.1) u.upBps
  cap : ∀ u ∈ users, LeastPositive ((capping policies u.email).map fun x => resolveIPLimit x.1 x.2) u.ipLimit
  strategy : ∀ u ∈ users, u.strategy = "accept" ↔
    capping policies u.email ≠ [] ∧ ∀ x ∈ capping policies u.email, x.1.ipLimitStrategy = "accept"
  ipsSorted : ∀ u ∈ users, u.ips.Pairwise (· < ·)
  ipsFrom : ∀ u ∈ users, ∀ s, s ∈ u.ips ↔ s ≠ "" ∧ ∃ v ∈ ipMap u.email, normalizeSpeedLimitIP v = s
  ipsCIDR : ∀ u ∈ users, ∀ s ∈ u.ips, isCIDR s = true

/-- The same inbounds in another order, with their clients in another order. -/
def Reordered (policies policies' : List SpeedLimitPolicy) : Prop :=
  ∃ between, policies.Perm between ∧
    List.Forall₂ (fun p p' => p.inbound = p'.inbound ∧ p.clients.Perm p'.clients) between policies'

/-- The least rate fits 64 bits, and none wraps to one below it. -/
def Fits (rates : List Int) : Prop :=
  ∀ least, LeastPositive rates least → least < 2 ^ 63 ∧ ∀ r ∈ rates, int64 r = 0 ∨ least ≤ int64 r

/-- A text of the map is blank, an address, or a block. -/
def IsAddress (v : String) : Prop :=
  trimSpace v = "" ∨
    if '/' ∈ (trimSpace v).toList then isCIDR (trimSpace v) = true else (parseIP (trimSpace v)).isSome = true

/-- The least rates of every account fit, and an account with a limit has only addresses. -/
structure RatesFit (policies : List SpeedLimitPolicy) (usage : String → Int) (ipMap : String → List String) :
    Prop where
  down : ∀ email, email ≠ "" → Fits ((armed policies usage email).map fun x => exactDown x.1)
  up : ∀ email, email ≠ "" → Fits ((armed policies usage email).map fun x => exactUp x.1)
  addresses : ∀ email, HasLimit policies usage email → ∀ v ∈ ipMap email, IsAddress v

/-! ## The merge of one entry -/

variable {usage : String → Int} {ipMap : String → List String}

/-- One entry put into the limits of its account. -/
def mergeEntry (usage : String → Int) (m : Limits) (x : Entry) : Limits :=
  let rates := inboundSpeedLimitRates x.1
  let m := if speedLimitArmed x.1 (usage x.2.email) then
      { m with down := minNonZero m.down rates.1, up := minNonZero m.up rates.2 }
    else m
  if ipLimitEnforcedInCore x.1 && decide (0 < resolveIPLimit x.1 x.2) then
    { m with
      ipLimit := minNonZero m.ipLimit (resolveIPLimit x.1 x.2)
      strategy := mergeIPLimitStrategy m.strategy (normIPLimitStrategy x.1) }
  else m

/-- The limits a table has for an account. -/
def limitsAt (t : Table Limits.email) (email : String) : Limits := (t.find? email).getD { email }

theorem minNonZero_eq_lesser (a b : Int) : minNonZero a b = lesser a b := by
  unfold minNonZero lesser
  congr

@[simp] theorem mergeEntry_email (m : Limits) (x : Entry) : (mergeEntry usage m x).email = m.email := by
  unfold mergeEntry
  dsimp only
  split
  · split <;> rfl
  · split <;> rfl

theorem limitsAt_email (t : Table Limits.email) (email : String) : (limitsAt t email).email = email := by
  unfold limitsAt
  cases hfind : t.find? email with
  | none => rfl
  | some r => exact (Table.find?_some hfind).2

theorem mergeClient_eq (p : SpeedLimitPolicy) (t : Table Limits.email) (c : SpeedLimitClient) :
    mergeClient usage p t c =
      if c.email = "" then t else t.put (mergeEntry usage (limitsAt t c.email) (p.inbound, c)) := by
  unfold mergeClient
  split
  · rfl
  · have hemail : (mergeEntry usage (limitsAt t c.email) (p.inbound, c)).email = c.email := by
      rw [mergeEntry_email, limitsAt_email]
    have hset : mergeEntry usage (limitsAt t c.email) (p.inbound, c) =
        { mergeEntry usage (limitsAt t c.email) (p.inbound, c) with email := c.email } := by
      rw [Limits.mk.injEq]
      exact ⟨hemail, rfl, rfl, rfl, rfl⟩
    rw [hset]
    rfl

theorem limitsAt_put (t : Table Limits.email) (r : Limits) (email : String) :
    limitsAt (t.put r) email = if r.email = email then r else limitsAt t email := by
  unfold limitsAt
  rw [Table.find?_put]
  split <;> rfl

theorem limitsAt_mergeClient (p : SpeedLimitPolicy) (t : Table Limits.email) (c : SpeedLimitClient)
    (email : String) :
    limitsAt (mergeClient usage p t c) email =
      if c.email = email ∧ email ≠ "" then mergeEntry usage (limitsAt t email) (p.inbound, c)
      else limitsAt t email := by
  rw [mergeClient_eq]
  by_cases hempty : c.email = ""
  · rw [if_pos hempty, if_neg]
    rintro ⟨rfl, hne⟩
    exact hne hempty
  · rw [if_neg hempty, limitsAt_put, mergeEntry_email, limitsAt_email]
    by_cases hc : c.email = email
    · rw [if_pos hc, if_pos ⟨hc, hc ▸ hempty⟩, hc]
    · rw [if_neg hc, if_neg fun h => hc h.1]

/-- The entries of one policy that carry an account. -/
def carriedBy (p : SpeedLimitPolicy) (email : String) : List Entry :=
  (p.clients.filter fun c => decide (c.email = email)).map fun c => (p.inbound, c)

theorem limitsAt_foldl_mergeClient (p : SpeedLimitPolicy) (clients : List SpeedLimitClient)
    (t : Table Limits.email) {email : String} (hne : email ≠ "") :
    limitsAt (clients.foldl (mergeClient usage p) t) email =
      ((clients.filter fun c => decide (c.email = email)).map fun c => (p.inbound, c)).foldl
        (mergeEntry usage) (limitsAt t email) := by
  induction clients generalizing t with
  | nil => rfl
  | cons c clients ih =>
      rw [List.foldl_cons, ih, limitsAt_mergeClient]
      by_cases hc : c.email = email
      · rw [if_pos ⟨hc, hne⟩, List.filter_cons_of_pos (by simpa using hc), List.map_cons, List.foldl_cons]
      · rw [if_neg fun h => hc h.1, List.filter_cons_of_neg (by simpa using hc)]

/-- An inbound that is passed over would have contributed nothing. -/
theorem mergeEntry_of_skipped {x : Entry} (hdown : (inboundSpeedLimitRates x.1).1 = 0)
    (hup : (inboundSpeedLimitRates x.1).2 = 0) (hcore : ipLimitEnforcedInCore x.1 = false) (m : Limits) :
    mergeEntry usage m x = m := by
  unfold mergeEntry
  simp only [hdown, hup, hcore, Bool.false_and, Bool.false_eq_true, if_false, minNonZero_eq_lesser, lesser_zero]
  exact ite_self m

theorem limitsAt_mergePolicy (t : Table Limits.email) (p : SpeedLimitPolicy) {email : String} (hne : email ≠ "") :
    limitsAt (mergePolicy usage t p) email = (carriedBy p email).foldl (mergeEntry usage) (limitsAt t email) := by
  unfold mergePolicy
  dsimp only
  split
  · rename_i hskip
    obtain ⟨hdown, hup, hcore⟩ := hskip
    rw [carriedBy, List.foldl_map]
    exact (List.foldl_fixed' (fun c => mergeEntry_of_skipped (x := (p.inbound, c)) hdown hup hcore _) _).symm
  · exact limitsAt_foldl_mergeClient p p.clients t hne

theorem limitsAt_foldl_mergePolicy (policies : List SpeedLimitPolicy) (t : Table Limits.email) {email : String}
    (hne : email ≠ "") :
    limitsAt (policies.foldl (mergePolicy usage) t) email =
      (carrying policies email).foldl (mergeEntry usage) (limitsAt t email) := by
  induction policies generalizing t with
  | nil => rfl
  | cons p policies ih =>
      rw [List.foldl_cons, ih, limitsAt_mergePolicy t p hne]
      show _ = List.foldl _ _ (carriedBy p email ++ carrying policies email)
      rw [List.foldl_append]

/-- Nothing is ever put down for an entry without an email. -/
theorem limitsAt_blank (policies : List SpeedLimitPolicy) (t : Table Limits.email) :
    limitsAt (policies.foldl (mergePolicy usage) t) "" = limitsAt t "" := by
  have hclients : ∀ (p : SpeedLimitPolicy) (clients : List SpeedLimitClient) (t : Table Limits.email),
      limitsAt (clients.foldl (mergeClient usage p) t) "" = limitsAt t "" := by
    intro p clients
    induction clients with
    | nil => exact fun t => rfl
    | cons c clients ih =>
        intro t
        rw [List.foldl_cons, ih, limitsAt_mergeClient, if_neg fun h => h.2 rfl]
  induction policies generalizing t with
  | nil => rfl
  | cons p policies ih =>
      rw [List.foldl_cons, ih]
      unfold mergePolicy
      dsimp only
      split
      · rfl
      · exact hclients p p.clients t

/-! ## The merge of a list of entries -/

/-- The strategy a list of entries is merged to. -/
def mergedStrategy (xs : List Entry) : String :=
  xs.foldl (fun s x => mergeIPLimitStrategy s (normIPLimitStrategy x.1)) ""

/-- The limits of an account, field by field. -/
theorem foldl_mergeEntry (xs : List Entry) (m : Limits) :
    xs.foldl (mergeEntry usage) m =
      { email := m.email
        down := ((xs.filter fun x => speedLimitArmed x.1 (usage x.2.email)).map
          fun x => (inboundSpeedLimitRates x.1).1).foldl lesser m.down
        up := ((xs.filter fun x => speedLimitArmed x.1 (usage x.2.email)).map
          fun x => (inboundSpeedLimitRates x.1).2).foldl lesser m.up
        ipLimit := ((xs.filter fun x => ipLimitEnforcedInCore x.1 && decide (0 < resolveIPLimit x.1 x.2)).map
          fun x => resolveIPLimit x.1 x.2).foldl lesser m.ipLimit
        strategy := (xs.filter fun x => ipLimitEnforcedInCore x.1 && decide (0 < resolveIPLimit x.1 x.2)).foldl
          (fun s x => mergeIPLimitStrategy s (normIPLimitStrategy x.1)) m.strategy } := by
  induction xs generalizing m with
  | nil => rfl
  | cons x xs ih =>
      rw [List.foldl_cons, ih, mergeEntry_email]
      by_cases harmed : speedLimitArmed x.1 (usage x.2.email) = true
      · by_cases hcap : (ipLimitEnforcedInCore x.1 && decide (0 < resolveIPLimit x.1 x.2)) = true
        · simp only [mergeEntry, harmed, hcap, if_true, List.filter_cons_of_pos, List.map_cons, List.foldl_cons,
            minNonZero_eq_lesser]
        · simp only [mergeEntry, harmed, hcap, if_true, Bool.false_eq_true, if_false, List.filter_cons_of_pos,
            not_false_eq_true, List.filter_cons_of_neg, List.map_cons, List.foldl_cons, minNonZero_eq_lesser]
      · by_cases hcap : (ipLimitEnforcedInCore x.1 && decide (0 < resolveIPLimit x.1 x.2)) = true
        · simp only [mergeEntry, harmed, hcap, if_true, Bool.false_eq_true, if_false, List.filter_cons_of_pos,
            not_false_eq_true, List.filter_cons_of_neg, List.map_cons, List.foldl_cons, minNonZero_eq_lesser]
        · simp only [mergeEntry, harmed, hcap, Bool.false_eq_true, if_false, not_false_eq_true,
            List.filter_cons_of_neg]

theorem mem_carrying {policies : List SpeedLimitPolicy} {email : String} {x : Entry}
    (h : x ∈ carrying policies email) : x.2.email = email := by
  obtain ⟨p, -, hp⟩ := List.mem_flatMap.1 h
  obtain ⟨c, hc, rfl⟩ := List.mem_map.1 hp
  exact of_decide_eq_true (List.mem_filter.1 hc).2

variable {policies policies' : List SpeedLimitPolicy}

/-- The limits of an account as the merge leaves them. -/
theorem limitsAt_merged {email : String} (hne : email ≠ "") :
    limitsAt (policies.foldl (mergePolicy usage) Table.empty) email =
      { email
        down := least ((armed policies usage email).map fun x => (inboundSpeedLimitRates x.1).1)
        up := least ((armed policies usage email).map fun x => (inboundSpeedLimitRates x.1).2)
        ipLimit := least ((capping policies email).map fun x => resolveIPLimit x.1 x.2)
        strategy := mergedStrategy (capping policies email) } := by
  have harmed : (carrying policies email).filter (fun x => speedLimitArmed x.1 (usage x.2.email)) =
      armed policies usage email := by
    refine List.filter_congr fun x hx => ?_
    rw [mem_carrying hx]
  rw [limitsAt_foldl_mergePolicy policies Table.empty hne, foldl_mergeEntry, harmed]
  rfl

/-! ## Published -/

theorem mem_computeSpeedLimits {u : SpeedLimitUser} :
    u ∈ computeSpeedLimits policies usage ipMap ↔
      u.email ≠ "" ∧ limited (limitsAt (policies.foldl (mergePolicy usage) Table.empty) u.email) = true ∧
        u = userOf ipMap (limitsAt (policies.foldl (mergePolicy usage) Table.empty) u.email) := by
  unfold computeSpeedLimits
  dsimp only
  rw [List.mem_insertionSort, List.mem_map]
  constructor
  · rintro ⟨r, hr, rfl⟩
    obtain ⟨hrow, hlimited⟩ := List.mem_filter.1 hr
    have hat : limitsAt (policies.foldl (mergePolicy usage) Table.empty) r.email = r := by
      unfold limitsAt
      rw [Table.find?_of_mem hrow]
      rfl
    refine ⟨fun hblank => ?_, ?_, ?_⟩
    · have hblank' : r.email = "" := hblank
      rw [hblank', limitsAt_blank] at hat
      rw [← hat] at hlimited
      revert hlimited
      decide
    · rw [show (userOf ipMap r).email = r.email from rfl, hat]
      exact hlimited
    · rw [show (userOf ipMap r).email = r.email from rfl, hat]
  · rintro ⟨-, hlimited, hu⟩
    cases hfind : (policies.foldl (mergePolicy usage) Table.empty).find? u.email with
    | none =>
        rw [limitsAt, hfind] at hlimited
        cases hlimited
    | some r =>
        rw [limitsAt, hfind] at hlimited hu
        exact ⟨r, List.mem_filter.2 ⟨(Table.find?_some hfind).1, hlimited⟩, hu.symm⟩

theorem computeSpeedLimits_sorted :
    ((computeSpeedLimits policies usage ipMap).map SpeedLimitUser.email).Pairwise (· < ·) := by
  have htotal : Std.Total (fun a b : SpeedLimitUser => a.email ≤ b.email) := ⟨fun a b => le_total a.email b.email⟩
  have htrans : IsTrans SpeedLimitUser (fun a b => a.email ≤ b.email) := ⟨fun _ _ _ h h' => le_trans h h'⟩
  have hle : ((computeSpeedLimits policies usage ipMap).map SpeedLimitUser.email).Pairwise (· ≤ ·) :=
    List.pairwise_map.2 (List.pairwise_insertionSort (fun a b : SpeedLimitUser => a.email ≤ b.email) _)
  have hnodup : ((computeSpeedLimits policies usage ipMap).map SpeedLimitUser.email).Nodup := by
    unfold computeSpeedLimits
    dsimp only
    rw [((List.perm_insertionSort _ _).map _).nodup_iff, List.map_map]
    exact (policies.foldl (mergePolicy usage) Table.empty).unique.sublist (List.filter_sublist.map _)
  exact (hle.and hnodup).imp fun h => lt_of_le_of_ne h.1 h.2

/-! ## Order -/

theorem mergeIPLimitStrategy_right_comm (s : String) (inb inb' : SpeedLimits.InboundRow) :
    mergeIPLimitStrategy (mergeIPLimitStrategy s (normIPLimitStrategy inb)) (normIPLimitStrategy inb') =
      mergeIPLimitStrategy (mergeIPLimitStrategy s (normIPLimitStrategy inb')) (normIPLimitStrategy inb) := by
  have hword : ∀ inb : SpeedLimits.InboundRow,
      normIPLimitStrategy inb = ipLimitStrategyAccept ∨ normIPLimitStrategy inb = ipLimitStrategyReject := by
    intro inb
    unfold normIPLimitStrategy
    split
    · exact .inl rfl
    · exact .inr rfl
  obtain h | h := hword inb <;> obtain h' | h' := hword inb' <;> rw [h, h'] <;>
    simp only [mergeIPLimitStrategy, ipLimitStrategyAccept, ipLimitStrategyReject] <;> grind

theorem mergeEntry_right_comm (m : Limits) (x y : Entry) :
    mergeEntry usage (mergeEntry usage m x) y = mergeEntry usage (mergeEntry usage m y) x := by
  unfold mergeEntry
  dsimp only
  split_ifs <;>
    simp only [minNonZero_eq_lesser, lesser_right_comm, mergeIPLimitStrategy_right_comm]

/-- Reordering keeps the entries of every account. -/
theorem Reordered.perm_carrying (h : Reordered policies policies') (email : String) :
    (carrying policies email).Perm (carrying policies' email) := by
  obtain ⟨between, hperm, hclients⟩ := h
  refine (hperm.flatMap_right _).trans ?_
  clear hperm
  induction hclients with
  | nil => exact List.Perm.refl _
  | @cons p p' between policies' hp _ ih =>
      show (carriedBy p email ++ carrying between email).Perm (carriedBy p' email ++ carrying policies' email)
      refine List.Perm.append ?_ ih
      unfold carriedBy
      rw [hp.1]
      exact (hp.2.filter _).map _

theorem computeSpeedLimits_reordered (h : Reordered policies policies') :
    computeSpeedLimits policies usage ipMap = computeSpeedLimits policies' usage ipMap := by
  have hlimits : ∀ email, limitsAt (policies.foldl (mergePolicy usage) Table.empty) email =
      limitsAt (policies'.foldl (mergePolicy usage) Table.empty) email := by
    intro email
    by_cases hne : email = ""
    · rw [hne, limitsAt_blank, limitsAt_blank]
    · rw [limitsAt_foldl_mergePolicy _ _ hne, limitsAt_foldl_mergePolicy _ _ hne]
      have hcomm : RightCommutative (mergeEntry usage) := ⟨mergeEntry_right_comm⟩
      exact (h.perm_carrying email).foldl_eq _
  have hsorted : ∀ policies, (computeSpeedLimits policies usage ipMap).Pairwise fun a b => a.email < b.email :=
    fun policies => List.pairwise_map.1 computeSpeedLimits_sorted
  have hnodup : ∀ policies, (computeSpeedLimits policies usage ipMap).Nodup := by
    refine fun policies => (hsorted policies).imp fun {a b} h heq => ?_
    exact lt_irrefl a.email (heq ▸ h)
  have hperm : (computeSpeedLimits policies usage ipMap).Perm (computeSpeedLimits policies' usage ipMap) := by
    refine (List.perm_ext_iff_of_nodup (hnodup policies) (hnodup policies')).2 fun u => ?_
    rw [mem_computeSpeedLimits, mem_computeSpeedLimits, hlimits]
  refine hperm.eq_of_pairwise (fun a b _ _ h h' => ?_) (hsorted policies) (hsorted policies')
  exact absurd h (lt_asymm h')

/-! ## Addresses -/

theorem mem_collectIPs {s : String} (out raw : List String) :
    s ∈ collectIPs out raw ↔ s ∈ out ∨ s ≠ "" ∧ ∃ v ∈ raw, normalizeSpeedLimitIP v = s := by
  induction raw generalizing out with
  | nil => simp [collectIPs]
  | cons v raw ih =>
      unfold collectIPs
      dsimp only
      split
      · rename_i hblank
        rw [ih]
        grind
      split
      · rename_i hdup
        rw [ih]
        grind
      · rw [ih]
        grind

theorem nodup_collectIPs {out : List String} (h : out.Nodup) (raw : List String) : (collectIPs out raw).Nodup := by
  induction raw generalizing out with
  | nil => exact h
  | cons v raw ih =>
      unfold collectIPs
      dsimp only
      split
      · exact ih h
      split
      · exact ih h
      · rename_i hnew
        refine ih (List.nodup_append.2 ⟨h, List.nodup_singleton _, ?_⟩)
        intro a ha b hb heq
        rw [heq, List.mem_singleton.1 hb] at ha
        exact hnew ha

theorem mem_speedLimitIPs {email s : String} :
    s ∈ speedLimitIPs email ipMap ↔ s ≠ "" ∧ ∃ v ∈ ipMap email, normalizeSpeedLimitIP v = s := by
  unfold speedLimitIPs
  rw [List.mem_insertionSort, mem_collectIPs]
  simp

theorem speedLimitIPs_sorted (email : String) : (speedLimitIPs email ipMap).Pairwise (· < ·) := by
  have hle : (speedLimitIPs email ipMap).Pairwise (· ≤ ·) := List.pairwise_insertionSort _ _
  have hnodup : (speedLimitIPs email ipMap).Nodup :=
    (List.perm_insertionSort _ _).nodup_iff.2 (nodup_collectIPs List.nodup_nil _)
  exact (hle.and hnodup).imp fun h => lt_of_le_of_ne h.1 h.2

theorem le_of_mapM_octet? {fields : List (List Char)} {octets : List ℕ} (h : fields.mapM octet? = some octets) :
    ∀ n ∈ octets, n ≤ 255 := by
  induction fields generalizing octets with
  | nil =>
      cases h
      simp
  | cons cs fields ih =>
      rw [List.mapM_cons] at h
      obtain ⟨n, hn, h⟩ := Option.bind_eq_some_iff.1 h
      obtain ⟨rest, hrest, h⟩ := Option.bind_eq_some_iff.1 h
      cases h
      rintro m (_ | ⟨_, hm⟩)
      · unfold octet? at hn
        split at hn
        · cases hn
        obtain ⟨value, -, hvalue⟩ := Option.bind_eq_some_iff.1 hn
        split at hvalue
        · rename_i hle
          cases hvalue
          exact hle
        · cases hvalue
      · exact ih hrest m hm

theorem parseIPv4_lt {cs : List Char} {n : ℕ} (h : parseIPv4 cs = some n) : n < 2 ^ 32 := by
  unfold parseIPv4 at h
  split at h
  · rename_i a b c d hfields
    have hle := le_of_mapM_octet? hfields
    have ha := hle a (by simp)
    have hb := hle b (by simp)
    have hc := hle c (by simp)
    have hd := hle d (by simp)
    cases h
    omega
  · cases h

/-- An address without a colon is one of 32 bits. -/
theorem isTo4_of_dotted {s : String} {ip : ℕ} (h : parseIP s = some ip) (hcolon : ':' ∉ s.toList) :
    isTo4 ip = true := by
  unfold parseIP at h
  split at h
  · obtain ⟨n, hn, rfl⟩ := Option.map_eq_some_iff.1 h
    have hlt := parseIPv4_lt hn
    refine decide_eq_true ?_
    omega
  · rename_i hfind
    exact absurd (List.mem_of_find?_eq_some hfind) hcolon
  · cases h

theorem isCIDR_append {addr mask : String} (hslash : '/' ∉ addr.toList) :
    isCIDR (addr ++ "/" ++ mask) =
      ((parseIP addr).isSome && decide (mask.toList ≠ []) && (numeral? 10 mask.toList).any fun n =>
        decide (n ≤ if ':' ∈ addr.toList then 128 else 32)) := by
  have hall : ∀ c ∈ addr.toList, decide (c ≠ '/') = true := fun c hc =>
    decide_eq_true fun heq => hslash (heq ▸ hc)
  have hlist : (addr ++ "/" ++ mask).toList = addr.toList ++ '/' :: mask.toList := by simp
  unfold isCIDR
  rw [hlist, List.takeWhile_append_of_pos hall, List.dropWhile_append_of_pos hall]
  simp only [ne_eq, not_true_eq_false, decide_false, Bool.false_eq_true, not_false_eq_true,
    List.takeWhile_cons_of_neg, List.append_nil, List.dropWhile_cons_of_neg, String.ofList_toList]
  cases parseIP addr <;> simp

theorem isCIDR_of_bare {s : String} (hslash : '/' ∉ s.toList) : isCIDR s = false := by
  have hnone : s.toList.dropWhile (· ≠ '/') = [] := by
    refine List.dropWhile_eq_nil_iff.2 fun c hc => ?_
    exact decide_eq_true fun heq => hslash (heq ▸ hc)
  unfold isCIDR
  rw [hnone]

/-- A text comes out as a CIDR exactly if it is an address or a block. -/
theorem isCIDR_normalize {v : String} (hne : normalizeSpeedLimitIP v ≠ "") :
    isCIDR (normalizeSpeedLimitIP v) = true ↔ IsAddress v := by
  have hblank : trimSpace v ≠ "" := by
    intro hblank
    simp [normalizeSpeedLimitIP, hblank] at hne
  unfold normalizeSpeedLimitIP IsAddress
  dsimp only
  by_cases hslash : '/' ∈ (trimSpace v).toList
  · rw [if_pos (.inr hslash), if_pos hslash]
    simp [hblank]
  rw [if_neg (not_or.2 ⟨hblank, hslash⟩), if_neg hslash]
  cases hparse : parseIP (trimSpace v) with
  | none => simp [isCIDR_of_bare hslash, hblank]
  | some ip =>
      refine iff_of_true ?_ (.inr rfl)
      dsimp only
      cases hto4 : isTo4 ip with
      | true =>
          rw [if_pos rfl, show trimSpace v ++ "/32" = trimSpace v ++ "/" ++ "32" by rw [String.append_assoc]; rfl,
            isCIDR_append hslash, hparse]
          have hmask : numeral? 10 "32".toList = some 32 := by decide +kernel
          rw [hmask]
          simp only [Option.isSome_some, Option.any_some, Bool.and_eq_true, decide_eq_true_eq]
          refine ⟨⟨trivial, by decide⟩, ?_⟩
          split <;> omega
      | false =>
          have hcolon : ':' ∈ (trimSpace v).toList := by
            by_contra hcolon
            rw [isTo4_of_dotted hparse hcolon] at hto4
            cases hto4
          rw [if_neg Bool.false_ne_true,
            show trimSpace v ++ "/128" = trimSpace v ++ "/" ++ "128" by rw [String.append_assoc]; rfl,
            isCIDR_append hslash, hparse, if_pos hcolon]
          have hmask : numeral? 10 "128".toList = some 128 := by decide +kernel
          rw [hmask]
          rfl

/-! ## Strategies -/

theorem mergeIPLimitStrategy_eq_accept {s : String} (inb : SpeedLimits.InboundRow) (hs : s ∈ ["", "accept", "reject"]) :
    mergeIPLimitStrategy s (normIPLimitStrategy inb) ∈ ["accept", "reject"] ∧
      (mergeIPLimitStrategy s (normIPLimitStrategy inb) = "accept" ↔
        s ≠ "reject" ∧ inb.ipLimitStrategy = "accept") := by
  have hcases : s = "" ∨ s = "accept" ∨ s = "reject" := by simpa using hs
  unfold normIPLimitStrategy
  by_cases haccept : inb.ipLimitStrategy = ipLimitStrategyAccept
  · rw [if_pos haccept]
    have haccept' : inb.ipLimitStrategy = "accept" := haccept
    obtain rfl | rfl | rfl := hcases <;>
      simp [haccept', mergeIPLimitStrategy, ipLimitStrategyAccept, ipLimitStrategyReject]
  · rw [if_neg haccept]
    have haccept' : inb.ipLimitStrategy ≠ "accept" := haccept
    obtain rfl | rfl | rfl := hcases <;> simp [haccept', mergeIPLimitStrategy, ipLimitStrategyReject]

/-- Accept survives only if every entry says it. -/
theorem foldl_strategy_eq_accept (xs : List Entry) {s : String} (hs : s ∈ ["", "accept", "reject"]) :
    xs.foldl (fun s x => mergeIPLimitStrategy s (normIPLimitStrategy x.1)) s = "accept" ↔
      (s = "accept" ∨ s = "" ∧ xs ≠ []) ∧ ∀ x ∈ xs, x.1.ipLimitStrategy = "accept" := by
  induction xs generalizing s with
  | nil => simp
  | cons x xs ih =>
      obtain ⟨hword, haccept⟩ := mergeIPLimitStrategy_eq_accept x.1 hs
      rw [List.foldl_cons, ih (List.mem_cons_of_mem _ hword)]
      have hfull : mergeIPLimitStrategy s (normIPLimitStrategy x.1) ≠ "" := by
        intro hblank
        rw [hblank] at hword
        simp at hword
      have hcases : s = "" ∨ s = "accept" ∨ s = "reject" := by simpa using hs
      rw [List.forall_mem_cons]
      obtain rfl | rfl | rfl := hcases
      · simp [haccept, hfull]
      · simp [haccept, hfull]
      · simp [haccept, hfull]

theorem strategy_eq_accept_iff (xs : List Entry) :
    (if mergedStrategy xs = ipLimitStrategyReject then "" else mergedStrategy xs) = "accept" ↔
      xs ≠ [] ∧ ∀ x ∈ xs, x.1.ipLimitStrategy = "accept" := by
  have haccept : mergedStrategy xs = "accept" ↔ _ := foldl_strategy_eq_accept xs (s := "") (by simp)
  simp only [String.reduceEq, false_or, true_and] at haccept
  rw [← haccept]
  split
  · rename_i hreject
    rw [hreject]
    decide
  · rfl

/-! ## Rates -/

theorem exactRate_nonneg (kbps : Int) : 0 ≤ exactRate kbps := by
  unfold exactRate bytesPerKB
  split <;> omega

theorem exactDown_nonneg (inb : SpeedLimits.InboundRow) : 0 ≤ exactDown inb := by
  unfold exactDown
  split
  · exact exactRate_nonneg _
  · exact le_refl 0

theorem exactUp_nonneg (inb : SpeedLimits.InboundRow) : 0 ≤ exactUp inb := by
  unfold exactUp
  split
  · exact exactRate_nonneg _
  · exact exactDown_nonneg inb

theorem kbpsToBps_eq (kbps : Int) : kbpsToBps kbps = int64 (exactRate kbps) := by
  unfold kbpsToBps exactRate
  split
  · rfl
  · rfl

/-- The rates of an inbound are the exact ones, wrapped. -/
theorem inboundSpeedLimitRates_eq (inb : SpeedLimits.InboundRow) :
    inboundSpeedLimitRates inb = (int64 (exactDown inb), int64 (exactUp inb)) := by
  unfold inboundSpeedLimitRates exactUp exactDown
  cases inb.speedLimitEnable with
  | false => rfl
  | true =>
      cases inb.speedLimitSeparate with
      | false => simp [kbpsToBps_eq]
      | true => simp [kbpsToBps_eq]

/-- The merged rate is the least one exactly if the rates fit. -/
theorem fits_iff {rates : List Int} (hnonneg : ∀ r ∈ rates, 0 ≤ r) :
    LeastPositive rates (least (rates.map int64)) ↔ Fits rates := by
  rw [leastPositive_least_map hnonneg rfl int64_int64]
  refine forall₂_congr fun m hm => and_congr_left fun _ => ?_
  exact int64_eq_iff (le_trans (by decide) hm.nonneg)

/-- Rates of which none limits anything fit. -/
theorem Fits.of_none {rates : List Int} (h : ∀ r ∈ rates, r = 0) : Fits rates := by
  intro m hm
  obtain ⟨rfl, -⟩ | ⟨hpos, hmem, -⟩ := hm
  · refine ⟨by decide, fun r hr => .inl ?_⟩
    rw [h r hr]
    rfl
  · rw [h m hmem] at hpos
    exact absurd hpos (lt_irrefl 0)

/-- An account that is published, with what is published of it. -/
theorem published_of_mem {u : SpeedLimitUser} (hu : u ∈ computeSpeedLimits policies usage ipMap) :
    u.downBps = least (((armed policies usage u.email).map fun x => exactDown x.1).map int64) ∧
      u.upBps = least (((armed policies usage u.email).map fun x => exactUp x.1).map int64) ∧
      u.ipLimit = least ((capping policies u.email).map fun x => resolveIPLimit x.1 x.2) ∧
      (u.strategy = "accept" ↔
        capping policies u.email ≠ [] ∧ ∀ x ∈ capping policies u.email, x.1.ipLimitStrategy = "accept") ∧
      u.ips = speedLimitIPs u.email ipMap := by
  obtain ⟨hne, -, heq⟩ := mem_computeSpeedLimits.1 hu
  rw [limitsAt_merged hne] at heq
  simp only [inboundSpeedLimitRates_eq] at heq
  refine ⟨?_, ?_, ?_, ?_, ?_⟩
  · rw [List.map_map]
    exact congrArg SpeedLimitUser.downBps heq
  · rw [List.map_map]
    exact congrArg SpeedLimitUser.upBps heq
  · exact congrArg SpeedLimitUser.ipLimit heq
  · rw [← strategy_eq_accept_iff]
    exact Eq.congr_left (congrArg SpeedLimitUser.strategy heq)
  · exact congrArg SpeedLimitUser.ips heq

theorem caps_nonneg (policies : List SpeedLimitPolicy) (email : String) :
    ∀ cap ∈ (capping policies email).map fun x => resolveIPLimit x.1 x.2, 0 < cap := by
  intro cap hcap
  obtain ⟨x, hx, rfl⟩ := List.mem_map.1 hcap
  have h := (List.mem_filter.1 hx).2
  rw [Bool.and_eq_true] at h
  exact of_decide_eq_true h.2

theorem leastPositive_caps (policies : List SpeedLimitPolicy) (email : String) :
    LeastPositive ((capping policies email).map fun x => resolveIPLimit x.1 x.2)
      (least ((capping policies email).map fun x => resolveIPLimit x.1 x.2)) :=
  leastPositive_least fun cap hcap => le_of_lt (caps_nonneg policies email cap hcap)

/-- An account is published exactly if its merged limits say something. -/
theorem mem_emails {email : String} :
    email ∈ (computeSpeedLimits policies usage ipMap).map SpeedLimitUser.email ↔
      email ≠ "" ∧ (least (((armed policies usage email).map fun x => exactDown x.1).map int64) ≠ 0 ∨
        least (((armed policies usage email).map fun x => exactUp x.1).map int64) ≠ 0 ∨
        capping policies email ≠ []) := by
  have hcap : least ((capping policies email).map fun x => resolveIPLimit x.1 x.2) ≠ 0 ↔
      capping policies email ≠ [] := by
    rw [(leastPositive_caps policies email).ne_zero_iff]
    constructor
    · rintro ⟨cap, hmem, -⟩ hnil
      rw [hnil] at hmem
      cases hmem
    · intro hne
      obtain ⟨x, hx⟩ := List.exists_mem_of_ne_nil _ hne
      exact ⟨_, List.mem_map_of_mem hx, caps_nonneg policies email _ (List.mem_map_of_mem hx)⟩
  have hlimited : email ≠ "" →
      (limited (limitsAt (policies.foldl (mergePolicy usage) Table.empty) email) = true ↔
        least (((armed policies usage email).map fun x => exactDown x.1).map int64) ≠ 0 ∨
        least (((armed policies usage email).map fun x => exactUp x.1).map int64) ≠ 0 ∨
        capping policies email ≠ []) := by
    intro hne
    rw [limitsAt_merged hne, ← hcap, List.map_map, List.map_map]
    simp only [inboundSpeedLimitRates_eq, limited, Bool.not_eq_true', Bool.and_eq_false_iff, decide_eq_false_iff_not,
      or_assoc]
    rfl
  rw [List.mem_map]
  constructor
  · rintro ⟨u, hu, rfl⟩
    obtain ⟨hne, hlim, -⟩ := mem_computeSpeedLimits.1 hu
    exact ⟨hne, (hlimited hne).1 hlim⟩
  · rintro ⟨hne, h⟩
    refine ⟨userOf ipMap (limitsAt (policies.foldl (mergePolicy usage) Table.empty) email), ?_, limitsAt_email _ _⟩
    have hemail : (userOf ipMap (limitsAt (policies.foldl (mergePolicy usage) Table.empty) email)).email = email :=
      limitsAt_email _ _
    rw [mem_computeSpeedLimits, hemail]
    exact ⟨hne, (hlimited hne).2 h, rfl⟩

theorem downs_nonneg (email : String) : ∀ r ∈ (armed policies usage email).map fun x => exactDown x.1, 0 ≤ r := by
  intro r hr
  obtain ⟨x, -, rfl⟩ := List.mem_map.1 hr
  exact exactDown_nonneg x.1

theorem ups_nonneg (email : String) : ∀ r ∈ (armed policies usage email).map fun x => exactUp x.1, 0 ≤ r := by
  intro r hr
  obtain ⟨x, -, rfl⟩ := List.mem_map.1 hr
  exact exactUp_nonneg x.1

/-- Rates fit that limit nothing, or whose least one is what is published. -/
theorem fits_of_published {rates : List Int} (hnonneg : ∀ r ∈ rates, 0 ≤ r)
    (h : (∃ r ∈ rates, 0 < r) → LeastPositive rates (least (rates.map int64))) : Fits rates := by
  by_cases hpos : ∃ r ∈ rates, 0 < r
  · exact (fits_iff hnonneg).1 (h hpos)
  · refine Fits.of_none fun r hr => le_antisymm ?_ (hnonneg r hr)
    exact not_lt.1 fun h => hpos ⟨r, hr, h⟩

theorem trimSpace_of_normalize {v : String} (h : normalizeSpeedLimitIP v = "") : trimSpace v = "" := by
  unfold normalizeSpeedLimitIP at h
  dsimp only at h
  split at h
  · exact h
  split at h
  · exact h
  · split at h
    · simp at h
    · simp at h

theorem ratesFit_of_isMerge (h : IsMerge policies usage ipMap (computeSpeedLimits policies usage ipMap)) :
    RatesFit policies usage ipMap := by
  have hpublished : ∀ email, HasLimit policies usage email →
      ∃ u ∈ computeSpeedLimits policies usage ipMap, u.email = email := fun email hlimit =>
    List.mem_map.1 ((h.emails email).2 hlimit)
  refine ⟨fun email hne => ?_, fun email hne => ?_, fun email hlimit v hv => ?_⟩
  · refine fits_of_published (downs_nonneg email) ?_
    rintro ⟨r, hr, hpos⟩
    obtain ⟨x, hx, rfl⟩ := List.mem_map.1 hr
    obtain ⟨u, hu, rfl⟩ := hpublished email ⟨hne, .inl ⟨x, hx, hpos⟩⟩
    rw [← (published_of_mem hu).1]
    exact h.down u hu
  · refine fits_of_published (ups_nonneg email) ?_
    rintro ⟨r, hr, hpos⟩
    obtain ⟨x, hx, rfl⟩ := List.mem_map.1 hr
    obtain ⟨u, hu, rfl⟩ := hpublished email ⟨hne, .inr (.inl ⟨x, hx, hpos⟩)⟩
    rw [← (published_of_mem hu).2.1]
    exact h.up u hu
  · obtain ⟨u, hu, rfl⟩ := hpublished email hlimit
    by_cases hblank : normalizeSpeedLimitIP v = ""
    · exact .inl (trimSpace_of_normalize hblank)
    · have hmem := (h.ipsFrom u hu _).2 ⟨hblank, v, hv, rfl⟩
      exact (isCIDR_normalize hblank).1 (h.ipsCIDR u hu _ hmem)

theorem isMerge_of_ratesFit (h : RatesFit policies usage ipMap) :
    IsMerge policies usage ipMap (computeSpeedLimits policies usage ipMap) := by
  have hdown : ∀ email, email ≠ "" → LeastPositive ((armed policies usage email).map fun x => exactDown x.1)
      (least (((armed policies usage email).map fun x => exactDown x.1).map int64)) := fun email hne =>
    (fits_iff (downs_nonneg email)).2 (h.down email hne)
  have hup : ∀ email, email ≠ "" → LeastPositive ((armed policies usage email).map fun x => exactUp x.1)
      (least (((armed policies usage email).map fun x => exactUp x.1).map int64)) := fun email hne =>
    (fits_iff (ups_nonneg email)).2 (h.up email hne)
  have hemails : ∀ email, email ∈ (computeSpeedLimits policies usage ipMap).map SpeedLimitUser.email ↔
      HasLimit policies usage email := by
    intro email
    rw [mem_emails, HasLimit]
    refine and_congr_right fun hne => ?_
    rw [(hdown email hne).ne_zero_iff, (hup email hne).ne_zero_iff]
    simp only [List.mem_map, exists_exists_and_eq_and]
  have hne : ∀ u ∈ computeSpeedLimits policies usage ipMap, u.email ≠ "" := fun u hu =>
    (mem_computeSpeedLimits.1 hu).1
  refine ⟨computeSpeedLimits_sorted, hemails, fun u hu => ?_, fun u hu => ?_, fun u hu => ?_, fun u hu => ?_,
    fun u hu => ?_, fun u hu s => ?_, fun u hu s hs => ?_⟩
  · rw [(published_of_mem hu).1]
    exact hdown u.email (hne u hu)
  · rw [(published_of_mem hu).2.1]
    exact hup u.email (hne u hu)
  · rw [(published_of_mem hu).2.2.1]
    exact leastPositive_caps policies u.email
  · exact (published_of_mem hu).2.2.2.1
  · rw [(published_of_mem hu).2.2.2.2]
    exact speedLimitIPs_sorted u.email
  · rw [(published_of_mem hu).2.2.2.2]
    exact mem_speedLimitIPs
  · rw [(published_of_mem hu).2.2.2.2, mem_speedLimitIPs] at hs
    obtain ⟨hfull, v, hv, rfl⟩ := hs
    have hlimit := (hemails u.email).1 (List.mem_map_of_mem hu)
    exact (isCIDR_normalize hfull).2 (h.addresses u.email hlimit v hv)

/-- The published limits are the merge of the inbounds, in whatever order these come, exactly
if the rates fit and the addresses are addresses. -/
theorem publishes_merge_iff (policies : List SpeedLimitPolicy) (usage : String → Int)
    (ipMap : String → List String) :
    IsMerge policies usage ipMap (computeSpeedLimits policies usage ipMap) ∧
        (∀ policies', Reordered policies policies' →
          computeSpeedLimits policies' usage ipMap = computeSpeedLimits policies usage ipMap) ↔
      RatesFit policies usage ipMap := by
  constructor
  · rintro ⟨h, -⟩
    exact ratesFit_of_isMerge h
  · intro h
    exact ⟨isMerge_of_ratesFit h, fun policies' hre => (computeSpeedLimits_reordered hre).symm⟩

/-- Kim on an inbound of 2^53 KB/s in each direction. -/
def kimFast : SpeedLimitPolicy where
  inbound := { protocol := .vless, speedLimitEnable := true, speedLimitDown := 2 ^ 53 }
  clients := [⟨"kim", 0⟩]

/-- The rate wraps and is published as a negative one. -/
theorem wrapped_published :
    (computeSpeedLimits [kimFast] (fun _ => 0) fun _ => []).map SpeedLimitUser.downBps = [-2 ^ 63] ∧
      ¬IsMerge [kimFast] (fun _ => 0) (fun _ => [])
        (computeSpeedLimits [kimFast] (fun _ => 0) fun _ => []) := by
  have hrates : (computeSpeedLimits [kimFast] (fun _ => 0) fun _ => []).map SpeedLimitUser.downBps = [-2 ^ 63] := by
    decide +kernel
  refine ⟨hrates, fun h => ?_⟩
  have hmem : (-2 ^ 63 : Int) ∈ (computeSpeedLimits [kimFast] (fun _ => 0) fun _ => []).map SpeedLimitUser.downBps := by
    rw [hrates]
    exact List.mem_singleton_self _
  obtain ⟨u, hu, hdown⟩ := List.mem_map.1 hmem
  have hpos := (h.down u hu).nonneg
  rw [hdown] at hpos
  exact absurd hpos (by decide)

end Simorgh.Panel.PublishedLimits
