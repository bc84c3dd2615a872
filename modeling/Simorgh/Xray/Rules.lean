import Mathlib.Data.Set.List
import Simorgh.Lib.FirstMatch
import Simorgh.Lib.JsonTree
import Simorgh.Lib.Table

/-!
# Routing rules and tunnel accounts

A rule may name accounts.  Xray knows the account of a native connection by its email; a
connection that comes out of a tunnel has only an address.  So in the rules that name tunnel
accounts the panel puts their addresses in place of the names.

* `translateVpnRoutingRules` — the routing section that is handed to Xray.
* `Core.outbound` — where Xray sends a connection, by the first rule that matches.
* `Core.meant` — the same for the rules as written, with names read as accounts.
* `RoutingClear` — up to the rule that decides, the addresses stand for just the named
  accounts, and the rules at the end leave the connection alone.
* `translated_same` — such a connection goes where the rules as written send it, and with
  rules to different outbounds no other does.
* `unassigned_blocked` — an address nobody has is blocked, unless a rule of the operator's
  matches it.
* `native_ann_unrouted` — an account with an address loses the rules for its native
  connections, and a rule loses its own sources.
-/

namespace Simorgh.Xray.Rules

open Simorgh.Lib Simorgh.Lib.Json

/-! ## The routing section -/

/-- A rule as it is decoded: four of its members, and the others. -/
structure Rule where
  user : Option Tree := none
  source : Option Tree := none
  sourceIP : Option Tree := none
  outboundTag : Option Tree := none
  rest : List (String × Tree) := []

/-- An element of the rule list. -/
inductive Entry where
  | rule (r : Rule)
  /-- An element of the list that is no object. -/
  | other (t : Tree)

/-- The section; `rules`, if it is a list. -/
structure Routing where
  rules : Option (List Entry)
  rest : List (String × Tree) := []

/-- The routing object as text or parsed. -/
inductive RouterConfig where
  | empty
  | junk (text : String)
  | routing (s : Routing)

/-- The two members of an outbound that are read; empty where they are no text. -/
structure Outbound where
  tag : String
  protocol : String

/-- A Go map from emails to addresses. -/
abbrev VpnMap := Table (Prod.fst : String × List String → String)

/-- Every tunnel address. -/
def vpnAddrSpace : String := "10.0.0.0/12"

/-! ## The translation -/

/-- The addresses of an account, if it has an entry. -/
def VpnMap.ips (vpnMap : VpnMap) (email : String) : Option (List String) := (vpnMap.find? email).map (·.2)

/-- The addresses put in place of users. -/
def vpnIPs (vpnMap : VpnMap) (users : List Tree) : List String :=
  users.flatMap fun u => (u.str?.bind vpnMap.ips).getD []

/-- The users that are kept. -/
def regularEmails (vpnMap : VpnMap) (users : List Tree) : List Tree :=
  users.filter fun u => (u.str?.bind vpnMap.ips).isNone

/-- What a rule becomes. -/
def translateRule (vpnMap : VpnMap) (r : Rule) : List Rule :=
  match r.user with
  | some (.arr users) =>
      if vpnIPs vpnMap users = [] then [r]
      else
        { r with user := none, source := some (.arr ((vpnIPs vpnMap users).map .str)) } ::
          if regularEmails vpnMap users = [] then [] else [{ r with user := some (.arr (regularEmails vpnMap users)) }]
  | _ => [r]

/-- The rules of one element. -/
def translateEntry (vpnMap : VpnMap) : Entry → List Entry
  | .rule r => (translateRule vpnMap r).map .rule
  | .other t => [.other t]

/-- The tag of the first outbound, if it has one. -/
def defaultTag (obs : Option (List Outbound)) : String :=
  match obs with
  | some (ob :: _) => if ob.tag ≠ "" then ob.tag else "direct"
  | _ => "direct"

/-- The tag of the last blackhole that has one. -/
def blockTag (obs : Option (List Outbound)) : String :=
  (obs.getD []).foldl (fun t ob => if ob.protocol = "blackhole" ∧ ob.tag ≠ "" then ob.tag else t) ""

/-- The addresses of the accounts. -/
def validIPs (vpnMap : VpnMap) : List String :=
  ((vpnMap.rows.flatMap (·.2)).filter fun ip => decide (ip ≠ "")).dedup

/-- A rule on addresses alone. -/
def sourceRule (ips : List String) (tag : String) : Rule :=
  { source := some (.arr (ips.map .str)), outboundTag := some (.str tag), rest := [("type", .str "field")] }

/-- The rules appended so that no other tunnel address gets out. -/
def backstop (obs : Option (List Outbound)) (vpnMap : VpnMap) : List Rule :=
  if blockTag obs ≠ "" ∧ validIPs vpnMap ≠ [] then
    [sourceRule (validIPs vpnMap) (defaultTag obs), sourceRule [vpnAddrSpace] (blockTag obs)]
  else []

/-- The routing with the users' addresses. -/
def translateVpnRoutingRules (obs : Option (List Outbound)) (vpnMap : VpnMap) (config : RouterConfig) : RouterConfig :=
  if vpnMap.rows = [] then config
  else
    match config with
    | .empty => .empty
    | .junk text => .junk text
    | .routing s =>
        match s.rules with
        | none | some [] => .routing s
        | some (entry :: entries) =>
            .routing { s with
              rules := some ((entry :: entries).flatMap (translateEntry vpnMap) ++ (backstop obs vpnMap).map .rule) }

/-! ## What Xray does with it -/

/-- How a member that is a list of texts is read.  It may be one text with commas. -/
def stringList : Tree → Option (List String)
  | .null => some []
  | .arr items => items.mapM Tree.str?
  | .str s => some (s.splitOn ",")
  | _ => none

/-- Xray, on addresses `α` and on the rest of what it knows of a connection. -/
structure Core (α κ : Type) where
  /-- An address item covers an address. -/
  within : String → α → Bool
  /-- The other conditions of a rule. -/
  conditions : List (String × Tree) → κ → Bool
  free : ∀ k, conditions [("type", .str "field")] k = true

/-- A connection of an account, native or out of a tunnel. -/
structure Connection (α κ : Type) where
  account : String
  tunnel : Bool
  source : α
  rest : κ

/-- The email Xray knows. -/
def Connection.email {α κ : Type} (c : Connection α κ) : Option String := if c.tunnel then none else some c.account

/-- A list of users, if there is one, lets a user through. -/
def usersAllow (user : Option Tree) (email : Option String) : Bool :=
  match stringList (user.getD .null) with
  | none => false
  | some l => l.isEmpty || email.any fun e => decide (e ∈ l)

/-- A list of addresses, if there is one, lets an address through. -/
def sourcesAllow {α : Type} (within : String → α → Bool) (source : Option Tree) (a : α) : Bool :=
  match stringList (source.getD .null) with
  | none => false
  | some l => l.isEmpty || l.any fun item => within item a

/-- The sources of a rule: `sourceIP`, or else `source`. -/
def Rule.sources (r : Rule) : Option Tree :=
  match r.sourceIP with
  | none | some .null => r.source
  | some t => some t

/-- Where a connection goes. -/
inductive Choice where
  | first
  | tagged (tag : String)
  /-- Another selection, by a balancer. -/
  | balanced (rest : List (String × Tree))

/-- The outbound a rule selects.  The first one may be named by its tag. -/
def Rule.choice (obs : Option (List Outbound)) (r : Rule) : Choice :=
  match r.outboundTag with
  | some (.str tag) =>
      if tag = "" then .balanced r.rest
      else if (obs.bind List.head?).any fun ob => decide (ob.tag = tag) then .first
      else .tagged tag
  | _ => .balanced r.rest

section

variable {α κ : Type} (core : Core α κ)

/-- The rule lets a user with this email through. -/
def Core.allows (r : Rule) (email : Option String) (c : Connection α κ) : Bool :=
  usersAllow r.user email && sourcesAllow core.within r.sources c.source && core.conditions r.rest c.rest

/-- The rule applies to a connection. -/
def Core.matches (r : Rule) (c : Connection α κ) : Bool := core.allows r c.email c

/-- The rule as it is meant: its users are accounts. -/
def Core.means (r : Rule) (c : Connection α κ) : Bool := core.allows r (some c.account) c

end

/-- The rule of an element. -/
def Entry.rule? : Entry → Option Rule
  | .rule r => some r
  | .other _ => none

/-- The rules of a configuration. -/
def RouterConfig.rules : RouterConfig → List Rule
  | .routing s => (s.rules.getD []).filterMap Entry.rule?
  | _ => []

section

variable {α κ : Type} (core : Core α κ) (obs : Option (List Outbound))

/-- What the first rule of a kind selects. -/
def chosen (p : Rule → Bool) (rules : List Rule) : Choice :=
  (rules.findSome? fun r => if p r then some (r.choice obs) else none).getD .first

/-- Where Xray sends a connection. -/
def Core.outbound (config : RouterConfig) (c : Connection α κ) : Choice :=
  chosen obs (fun r => core.matches r c) config.rules

/-- Where the rules as written send it. -/
def Core.meant (config : RouterConfig) (c : Connection α κ) : Choice :=
  chosen obs (fun r => core.means r c) config.rules

/-- A connection out of a tunnel has one of the addresses of its account. -/
def Core.Belongs (vpnMap : VpnMap) (c : Connection α κ) : Prop :=
  c.tunnel = true → ∃ ips, vpnMap.ips c.account = some ips ∧ ∃ ip ∈ ips, ip ≠ "" ∧ core.within ip c.source = true

/-! ## The condition -/

/-- The addresses a rule is given in place of its users. -/
def Rule.addresses (vpnMap : VpnMap) (r : Rule) : List String :=
  match r.user with
  | some (.arr users) => vpnIPs vpnMap users
  | _ => []

/-- The rule names the account, or nobody. -/
def Rule.names (r : Rule) (account : String) : Bool := usersAllow r.user (some account)

/-- The address is among the sources. -/
def Core.fromSources (r : Rule) (a : α) : Bool := sourcesAllow core.within r.sources a

/-- The rule made for the addresses lets this one through. -/
def Core.admits (vpnMap : VpnMap) (r : Rule) (a : α) : Bool :=
  core.fromSources { r with source := some (.arr ((r.addresses vpnMap).map .str)) } a

/-- A rule whose other conditions hold: a tunnel account is not named in a text; and if addresses
are put in, whoever they let through is named and meets the rule's own sources, and whoever is
named and meets those is let through by its address, or is native and has none. -/
def RuleClear (vpnMap : VpnMap) (c : Connection α κ) (r : Rule) : Prop :=
  core.conditions r.rest c.rest = true →
    (∀ text, r.user = some (.str text) → c.tunnel = true → c.account ∈ text.splitOn "," →
      core.fromSources r c.source = false) ∧
    (r.addresses vpnMap ≠ [] →
      (core.admits vpnMap r c.source = true → r.names c.account = true ∧ core.fromSources r c.source = true) ∧
      (r.names c.account = true → core.fromSources r c.source = true →
        core.admits vpnMap r c.source = true ∨ c.tunnel = false ∧ vpnMap.ips c.account = none))

/-- The rules at the end: an address somebody has goes to the first outbound by its tag, and
another one is outside the tunnels, or the blackhole is the first outbound. -/
def BackstopClear (vpnMap : VpnMap) (c : Connection α κ) : Prop :=
  blockTag obs ≠ "" → validIPs vpnMap ≠ [] →
    if (validIPs vpnMap).any fun ip => core.within ip c.source then
      ∃ ob, obs.bind List.head? = some ob ∧ ob.tag ≠ ""
    else core.within vpnAddrSpace c.source = true → ∃ ob, obs.bind List.head? = some ob ∧ ob.tag = blockTag obs

/-- There is something to translate. -/
def RouterConfig.Nonempty (config : RouterConfig) : Prop :=
  ∃ s entry entries, config = .routing s ∧ s.rules = some (entry :: entries)

/-- What a rule as written says of a connection. -/
def Core.verdict (c : Connection α κ) (r : Rule) : Option Choice := if core.means r c then some (r.choice obs) else none

/-- The condition on a configuration. -/
def RoutingClear (vpnMap : VpnMap) (config : RouterConfig) (c : Connection α κ) : Prop :=
  vpnMap.rows ≠ [] → config.Nonempty →
    (∀ r ∈ upTo (core.verdict obs c) config.rules, RuleClear core vpnMap c r) ∧
      (config.rules.findSome? (core.verdict obs c) = none → BackstopClear core obs vpnMap c)

/-- No two rules select the same, and none what the rules at the end or no rule at all select. -/
structure Distinct (vpnMap : VpnMap) (config : RouterConfig) : Prop where
  apart : config.rules.Pairwise fun r r' => r.choice obs ≠ r'.choice obs
  first : ∀ r ∈ config.rules, r.choice obs ≠ .first
  backstop : ∀ r ∈ config.rules, ∀ b ∈ Rules.backstop obs vpnMap, r.choice obs ≠ b.choice obs

/-! ## One rule -/

section Rule

variable {core obs} {vpnMap : VpnMap} {c : Connection α κ} {users : List Tree}

theorem mapM_str_eq_some {l : List String} : users.mapM Tree.str? = some l ↔ users = l.map .str := by
  induction users generalizing l with
  | nil =>
      cases l with
      | nil => exact ⟨fun _ => rfl, fun _ => rfl⟩
      | cons s l =>
          constructor
          · intro h
            cases h
          · intro h
            cases h
  | cons u users ih =>
      have hcons : (u :: users).mapM Tree.str? = u.str?.bind fun s => (users.mapM Tree.str?).map (s :: ·) := by
        rw [List.mapM_cons]
        cases u.str? with
        | none => rfl
        | some s => cases users.mapM Tree.str? <;> rfl
      rw [hcons]
      cases l with
      | nil =>
          constructor
          · intro h
            obtain ⟨s, -, h⟩ := Option.bind_eq_some_iff.1 h
            obtain ⟨l, -, h⟩ := Option.map_eq_some_iff.1 h
            cases h
          · intro h
            cases h
      | cons s l =>
          constructor
          · intro h
            obtain ⟨s', hs, h⟩ := Option.bind_eq_some_iff.1 h
            obtain ⟨l', hl, h⟩ := Option.map_eq_some_iff.1 h
            cases h
            cases u with
            | str s' =>
                cases hs
                rw [ih.1 hl]
                rfl
            | null | bool | num | arr | obj => cases hs
          · intro h
            rw [List.map_cons, List.cons.injEq] at h
            rw [h.1, ih.2 h.2]
            rfl

/-- A list of users lets a user through: it is empty, or the user is in it. -/
theorem usersAllow_list {email : Option String} :
    usersAllow (some (.arr users)) email = true ↔
      ∃ l, users = l.map .str ∧ (l = [] ∨ ∃ e, email = some e ∧ e ∈ l) := by
  rw [usersAllow, Option.getD_some, stringList]
  cases hread : users.mapM Tree.str? with
  | none =>
      constructor
      · intro h
        cases h
      · rintro ⟨l, hl, -⟩
        rw [mapM_str_eq_some.2 hl] at hread
        cases hread
  | some l =>
      simp only [Bool.or_eq_true, List.isEmpty_iff, Option.any_eq_true, decide_eq_true_eq]
      constructor
      · intro h
        exact ⟨l, mapM_str_eq_some.1 hread, h⟩
      · rintro ⟨l', hl', h⟩
        rw [mapM_str_eq_some.2 hl'] at hread
        cases hread
        exact h

theorem mem_regularEmails {u : Tree} :
    u ∈ regularEmails vpnMap users ↔ u ∈ users ∧ ∀ email, u = .str email → vpnMap.ips email = none := by
  rw [regularEmails, List.mem_filter]
  refine and_congr_right fun _ => ?_
  cases u with
  | str s =>
      simp only [Tree.str?, Option.bind_some, Option.isNone_iff_eq_none, Tree.str.injEq]
      exact ⟨fun h email hs => hs ▸ h, fun h => h s rfl⟩
  | null | bool | num | arr | obj => simp [Tree.str?]

/-- The users that are kept are the named ones without an entry. -/
theorem usersAllow_regular (hsome : vpnIPs vpnMap users ≠ []) {email : String} :
    regularEmails vpnMap users ≠ [] ∧ usersAllow (some (.arr (regularEmails vpnMap users))) (some email) = true ↔
      usersAllow (some (.arr users)) (some email) = true ∧ vpnMap.ips email = none := by
  rw [usersAllow_list, usersAllow_list]
  constructor
  · rintro ⟨hne, l', hl', hmem⟩
    have hin : email ∈ l' := by
      rcases hmem with rfl | ⟨e, he, hin⟩
      · exact absurd hl' hne
      · cases he
        exact hin
    obtain ⟨husers, hnone⟩ : Tree.str email ∈ users ∧ ∀ e, Tree.str email = .str e → vpnMap.ips e = none := by
      rw [← mem_regularEmails, hl']
      exact List.mem_map_of_mem hin
    -- Whatever is no text is kept, so there is none.
    have htexts : ∀ u ∈ users, ∃ s, Tree.str s = u := by
      intro u hu
      by_contra hnot
      have hkept : u ∈ regularEmails vpnMap users := mem_regularEmails.2 ⟨hu, fun e he => absurd ⟨e, he.symm⟩ hnot⟩
      rw [hl'] at hkept
      obtain ⟨s, -, hs⟩ := List.mem_map.1 hkept
      exact hnot ⟨s, hs⟩
    obtain ⟨l, rfl⟩ : users ∈ Set.range (List.map Tree.str) := by
      rw [Set.range_list_map]
      exact htexts
    obtain ⟨e, he, hemail⟩ := List.mem_map.1 husers
    cases hemail
    exact ⟨⟨l, rfl, Or.inr ⟨email, rfl, he⟩⟩, hnone email rfl⟩
  · rintro ⟨⟨l, rfl, hmem⟩, hnone⟩
    have hin : email ∈ l := by
      rcases hmem with rfl | ⟨e, he, hin⟩
      · exact absurd rfl hsome
      · cases he
        exact hin
    have hkept : Tree.str email ∈ regularEmails vpnMap (l.map .str) := by
      refine mem_regularEmails.2 ⟨List.mem_map_of_mem hin, fun e he => ?_⟩
      cases he
      exact hnone
    obtain ⟨l', hl'⟩ : regularEmails vpnMap (l.map .str) ∈ Set.range (List.map Tree.str) := by
      rw [Set.range_list_map]
      intro u hu
      obtain ⟨s, -, hs⟩ := List.mem_map.1 (mem_regularEmails.1 hu).1
      exact ⟨s, hs⟩
    refine ⟨List.ne_nil_of_mem hkept, l', hl'.symm, Or.inr ⟨email, rfl, ?_⟩⟩
    rw [← hl'] at hkept
    obtain ⟨e, he, hemail⟩ := List.mem_map.1 hkept
    cases hemail
    exact he

/-- Nobody without an email is let through by the users that are kept. -/
theorem usersAllow_regular_none (hne : regularEmails vpnMap users ≠ []) :
    usersAllow (some (.arr (regularEmails vpnMap users))) none = false := by
  rw [Bool.eq_false_iff, Ne, usersAllow_list]
  rintro ⟨l, hl, rfl | ⟨e, he, -⟩⟩
  · exact hne hl
  · cases he

/-- The block of a rule that is given addresses. -/
theorem any_translateRule_addresses {r : Rule} (huser : r.user = some (.arr users)) (hsome : vpnIPs vpnMap users ≠ []) :
    ((translateRule vpnMap r).any fun r' => core.matches r' c) = true ↔
      core.conditions r.rest c.rest = true ∧ (core.admits vpnMap r c.source = true ∨
        c.tunnel = false ∧ vpnMap.ips c.account = none ∧ r.names c.account = true ∧
          core.fromSources r c.source = true) := by
  have hvpn : core.matches { r with user := none, source := some (.arr ((vpnIPs vpnMap users).map .str)) } c =
      (core.admits vpnMap r c.source && core.conditions r.rest c.rest) := by
    rw [Core.admits, Rule.addresses, huser]
    rfl
  have hregular : (regularEmails vpnMap users ≠ [] ∧
        core.matches { r with user := some (.arr (regularEmails vpnMap users)) } c = true) ↔
      c.tunnel = false ∧ vpnMap.ips c.account = none ∧ r.names c.account = true ∧ core.fromSources r c.source = true ∧
        core.conditions r.rest c.rest = true := by
    cases htunnel : c.tunnel with
    | true =>
        have hemail : c.email = none := by rw [Connection.email, htunnel, if_pos rfl]
        constructor
        · rintro ⟨hne, hmatches⟩
          rw [Core.matches, Core.allows, hemail, usersAllow_regular_none hne] at hmatches
          cases hmatches
        · rintro ⟨h, -⟩
          cases h
    | false =>
        have hemail : c.email = some c.account := by rw [Connection.email, htunnel, if_neg Bool.false_ne_true]
        have hkept := @usersAllow_regular vpnMap users hsome c.account
        rw [Rule.names, huser]
        simp only [Core.matches, Core.allows, hemail, Bool.and_eq_true]
        constructor
        · rintro ⟨hne, ⟨husers, hsources⟩, hconditions⟩
          obtain ⟨hnamed, hnone⟩ := hkept.1 ⟨hne, husers⟩
          exact ⟨trivial, hnone, hnamed, hsources, hconditions⟩
        · rintro ⟨-, hnone, hnamed, hsources, hconditions⟩
          obtain ⟨hne, husers⟩ := hkept.2 ⟨hnamed, hnone⟩
          exact ⟨hne, ⟨husers, hsources⟩, hconditions⟩
  have hblock : ((translateRule vpnMap r).any fun r' => core.matches r' c) = true ↔
      core.admits vpnMap r c.source = true ∧ core.conditions r.rest c.rest = true ∨
        (regularEmails vpnMap users ≠ [] ∧
          core.matches { r with user := some (.arr (regularEmails vpnMap users)) } c = true) := by
    simp only [translateRule, huser, if_neg hsome, List.any_cons, hvpn, Bool.or_eq_true, Bool.and_eq_true]
    refine or_congr_right ?_
    by_cases hne : regularEmails vpnMap users = []
    · simp [hne]
    · simp [hne]
  rw [hblock, hregular]
  constructor
  · rintro (⟨hadmits, hconditions⟩ | ⟨htunnel, hips, hnamed, hsources, hconditions⟩)
    · exact ⟨hconditions, Or.inl hadmits⟩
    · exact ⟨hconditions, Or.inr ⟨htunnel, hips, hnamed, hsources⟩⟩
  · rintro ⟨hconditions, hadmits | ⟨htunnel, hips, hnamed, hsources⟩⟩
    · exact Or.inl ⟨hadmits, hconditions⟩
    · exact Or.inr ⟨htunnel, hips, hnamed, hsources, hconditions⟩

/-- A rule without a list of users that has addresses stays as it is. -/
theorem translateRule_same {r : Rule} (hnone : r.addresses vpnMap = []) : translateRule vpnMap r = [r] := by
  rw [translateRule]
  split
  next users huser =>
    rw [Rule.addresses, huser] at hnone
    rw [if_pos hnone]
  next => rfl

/-- Where nobody is named everybody is let through. -/
theorem usersAllow_of_none {user : Option Tree} (h : usersAllow user none = true) (email : Option String) :
    usersAllow user email = true := by
  unfold usersAllow at h ⊢
  split at h
  next => cases h
  next l hread =>
    simp only [Option.any_none, Bool.or_false] at h
    rw [h, Bool.true_or]

theorem means_iff {r : Rule} :
    core.means r c = true ↔
      r.names c.account = true ∧ core.fromSources r c.source = true ∧ core.conditions r.rest c.rest = true := by
  rw [Core.means, Core.allows, Bool.and_eq_true, Bool.and_eq_true, and_assoc]
  rfl

/-- A rule is read alike with the account and with the email, unless it names a tunnel account. -/
theorem matches_eq_means (r : Rule) :
    core.matches r c = core.means r c ↔
      ¬ (c.tunnel = true ∧ usersAllow r.user none = false ∧ core.means r c = true) := by
  rw [Core.matches, Core.means, Connection.email]
  cases htunnel : c.tunnel with
  | false => simp
  | true =>
      rw [if_pos rfl]
      cases hnone : usersAllow r.user none with
      | true => simp [Core.allows, hnone, usersAllow_of_none hnone]
      | false =>
          have hout : core.allows r none c = false := by rw [Core.allows, hnone, Bool.false_and, Bool.false_and]
          rw [hout]
          cases core.allows r (some c.account) c <;> simp

/-- An account with addresses that a list names brings them into the rule. -/
theorem vpnIPs_ne_nil (hbelongs : core.Belongs vpnMap c) (htunnel : c.tunnel = true)
    (hmem : Tree.str c.account ∈ users) :
    vpnIPs vpnMap users ≠ [] := by
  obtain ⟨ips, hips, ip, hip, -⟩ := hbelongs htunnel
  refine List.ne_nil_of_mem (a := ip) (List.mem_flatMap.2 ⟨_, hmem, ?_⟩)
  rw [Tree.str?, Option.bind_some, hips]
  exact hip

theorem ruleClear_same (hbelongs : core.Belongs vpnMap c) {r : Rule} (hnone : r.addresses vpnMap = []) :
    core.matches r c = core.means r c ↔ RuleClear core vpnMap c r := by
  rw [matches_eq_means, RuleClear]
  constructor
  · intro h hconditions
    refine ⟨fun text huser htunnel hin => ?_, fun hsome => absurd hnone hsome⟩
    by_contra hsources
    rw [Bool.not_eq_false] at hsources
    have hnamed : r.names c.account = true := by
      simp [Rule.names, usersAllow, huser, stringList, hin]
    have hclosed : usersAllow r.user none = false := by
      simp [usersAllow, huser, stringList, List.ne_nil_of_mem hin]
    exact h ⟨htunnel, hclosed, means_iff.2 ⟨hnamed, hsources, hconditions⟩⟩
  · rintro h ⟨htunnel, hclosed, hmeans⟩
    obtain ⟨hnamed, hsources, hconditions⟩ := means_iff.1 hmeans
    obtain ⟨htext, -⟩ := h hconditions
    cases huser : r.user with
    | none =>
        rw [huser] at hclosed
        cases hclosed
    | some user =>
        rw [huser] at hclosed
        rw [Rule.names, huser] at hnamed
        cases user with
        | arr users =>
            obtain ⟨l, hl, rfl | ⟨e, he, hin⟩⟩ := usersAllow_list.1 hnamed
            · rw [hl] at hclosed
              cases hclosed
            · cases he
              rw [Rule.addresses, huser] at hnone
              exact vpnIPs_ne_nil hbelongs htunnel (hl ▸ List.mem_map_of_mem hin) hnone
        | str text =>
            have hin : c.account ∈ text.splitOn "," := by
              simp only [usersAllow, Option.getD_some, stringList, Option.any_none, Bool.or_false, Option.any_some,
                Bool.or_eq_true, decide_eq_true_eq] at hclosed hnamed
              exact hnamed.resolve_left (by rw [hclosed]; exact Bool.false_ne_true)
            rw [htext text huser htunnel hin] at hsources
            cases hsources
        | null => cases hclosed
        | bool | num | obj => cases hnamed

/-- The block of a rule matches whom the rule means exactly if the rule is clear. -/
theorem any_translateRule (hbelongs : core.Belongs vpnMap c) (r : Rule) :
    ((translateRule vpnMap r).any fun r' => core.matches r' c) = core.means r c ↔ RuleClear core vpnMap c r := by
  by_cases hnone : r.addresses vpnMap = []
  · rw [translateRule_same hnone, List.any_cons, List.any_nil, Bool.or_false]
    exact ruleClear_same hbelongs hnone
  · obtain ⟨users, huser, hsome⟩ : ∃ users, r.user = some (.arr users) ∧ vpnIPs vpnMap users ≠ [] := by
      rw [Rule.addresses] at hnone
      split at hnone
      next users huser => exact ⟨users, huser, hnone⟩
      next => exact absurd rfl hnone
    have hnotext : ∀ text, r.user ≠ some (.str text) := by
      intro text htext
      rw [huser] at htext
      cases htext
    rw [Bool.eq_iff_iff, any_translateRule_addresses huser hsome, means_iff, RuleClear]
    constructor
    · intro h hconditions
      refine ⟨fun text htext => absurd htext (hnotext text), fun _ => ⟨fun hadmits => ?_, fun hnamed hsources => ?_⟩⟩
      · obtain ⟨hnamed, hsources, -⟩ := h.1 ⟨hconditions, Or.inl hadmits⟩
        exact ⟨hnamed, hsources⟩
      · rcases (h.2 ⟨hnamed, hsources, hconditions⟩).2 with hadmits | ⟨htunnel, hips, -⟩
        · exact Or.inl hadmits
        · exact Or.inr ⟨htunnel, hips⟩
    · intro h
      constructor
      · rintro ⟨hconditions, hadmits | ⟨-, -, hnamed, hsources⟩⟩
        · obtain ⟨hnamed, hsources⟩ := ((h hconditions).2 hnone).1 hadmits
          exact ⟨hnamed, hsources, hconditions⟩
        · exact ⟨hnamed, hsources, hconditions⟩
      · rintro ⟨hnamed, hsources, hconditions⟩
        rcases ((h hconditions).2 hnone).2 hnamed hsources with hadmits | ⟨htunnel, hips⟩
        · exact ⟨hconditions, Or.inl hadmits⟩
        · exact ⟨hconditions, Or.inr ⟨htunnel, hips, hnamed, hsources⟩⟩

end Rule

/-! ## The rules at the end -/

section Backstop

variable {core obs} {vpnMap : VpnMap} {c : Connection α κ}

theorem matches_sourceRule {ips : List String} (hne : ips ≠ []) (tag : String) :
    core.matches (sourceRule ips tag) c = ips.any fun ip => core.within ip c.source := by
  have hread : stringList (.arr (ips.map Tree.str)) = some ips := mapM_str_eq_some.2 rfl
  have hsources : sourcesAllow core.within (sourceRule ips tag).sources c.source =
      ips.any fun ip => core.within ip c.source := by
    simp [sourcesAllow, Rule.sources, sourceRule, hread, hne]
  have hconditions : core.conditions (sourceRule ips tag).rest c.rest = true := core.free c.rest
  rw [Core.matches, Core.allows, hsources, hconditions, Bool.and_true]
  rfl

theorem choice_sourceRule {ips : List String} {tag : String} (htag : tag ≠ "") :
    (sourceRule ips tag).choice obs = .first ↔ ∃ ob, obs.bind List.head? = some ob ∧ ob.tag = tag := by
  rw [Rule.choice, sourceRule]
  dsimp only
  rw [if_neg htag]
  cases hhead : obs.bind List.head? with
  | none => simp
  | some ob => by_cases hob : ob.tag = tag <;> simp [hob]

theorem defaultTag_ne (obs : Option (List Outbound)) : defaultTag obs ≠ "" := by
  unfold defaultTag
  split
  · split
    next h => exact h
    next => decide
  · decide

/-- The first outbound goes by its tag exactly if it has one. -/
theorem defaultTag_first :
    (∃ ob, obs.bind List.head? = some ob ∧ ob.tag = defaultTag obs) ↔
      ∃ ob, obs.bind List.head? = some ob ∧ ob.tag ≠ "" := by
  constructor
  · rintro ⟨ob, hob, htag⟩
    exact ⟨ob, hob, htag ▸ defaultTag_ne obs⟩
  · rintro ⟨ob, hob, htag⟩
    refine ⟨ob, hob, ?_⟩
    cases obs with
    | none => cases hob
    | some l =>
        cases l with
        | nil => cases hob
        | cons ob' l =>
            cases hob
            rw [defaultTag, if_pos htag]

theorem backstop_first_iff :
    chosen obs (fun r => core.matches r c) (backstop obs vpnMap) = .first ↔ BackstopClear core obs vpnMap c := by
  rw [backstop, BackstopClear]
  by_cases hpresent : blockTag obs ≠ "" ∧ validIPs vpnMap ≠ []
  · obtain ⟨hblock, hvalid⟩ := hpresent
    rw [if_pos ⟨hblock, hvalid⟩, chosen, List.findSome?_cons, List.findSome?_cons, List.findSome?_nil,
      matches_sourceRule hvalid, matches_sourceRule (List.cons_ne_nil _ _)]
    simp only [hblock, hvalid, ne_eq, not_false_eq_true, true_imp_iff]
    cases (validIPs vpnMap).any fun ip => core.within ip c.source with
    | true => simp only [if_true, Option.getD_some, choice_sourceRule (defaultTag_ne obs), defaultTag_first, ne_eq]
    | false =>
        simp only [Bool.false_eq_true, if_false, List.any_cons, List.any_nil, Bool.or_false]
        cases core.within vpnAddrSpace c.source with
        | true => simp only [if_true, Option.getD_some, choice_sourceRule hblock, true_imp_iff]
        | false => simp
  · rw [if_neg hpresent]
    refine ⟨fun _ hblock hvalid => absurd ⟨hblock, hvalid⟩ hpresent, fun _ => rfl⟩

end Backstop

/-! ## All rules -/

section All

variable {core obs} {vpnMap : VpnMap} {config : RouterConfig} {c : Connection α κ}

theorem choice_of_mem_translateRule {r r' : Rule} (h : r' ∈ translateRule vpnMap r) :
    r'.choice obs = r.choice obs := by
  unfold translateRule at h
  split at h
  next users huser =>
    split at h
    next => rw [List.mem_singleton.1 h]
    next =>
      rcases List.mem_cons.1 h with rfl | h
      · rfl
      · split at h
        · cases h
        · rw [List.mem_singleton.1 h]
          rfl
  next => rw [List.mem_singleton.1 h]

/-- What the block of a rule says of a connection. -/
def blockVerdict (core : Core α κ) (obs : Option (List Outbound)) (vpnMap : VpnMap) (c : Connection α κ) (r : Rule) :
    Option Choice :=
  if (translateRule vpnMap r).any fun r' => core.matches r' c then some (r.choice obs) else none

theorem blockVerdict_eq_iff (hbelongs : core.Belongs vpnMap c) (r : Rule) :
    blockVerdict core obs vpnMap c r = core.verdict obs c r ↔ RuleClear core vpnMap c r := by
  rw [← any_translateRule hbelongs, blockVerdict, Core.verdict]
  cases (translateRule vpnMap r).any fun r' => core.matches r' c <;> cases core.means r c <;> simp

theorem rules_translated (hmap : vpnMap.rows ≠ []) (hconfig : config.Nonempty) :
    (translateVpnRoutingRules obs vpnMap config).rules =
      config.rules.flatMap (translateRule vpnMap) ++ backstop obs vpnMap := by
  obtain ⟨s, entry, entries, rfl, hrules⟩ := hconfig
  have hentries : ∀ l : List Entry, (l.flatMap (translateEntry vpnMap)).filterMap Entry.rule? =
      (l.filterMap Entry.rule?).flatMap (translateRule vpnMap) := by
    intro l
    induction l with
    | nil => rfl
    | cons e l ih =>
        rw [List.flatMap_cons, List.filterMap_append, ih]
        cases e with
        | rule r => simp [translateEntry, Entry.rule?, Function.comp_def]
        | other t => rfl
  simp only [translateVpnRoutingRules, if_neg hmap, hrules, RouterConfig.rules, Option.getD_some]
  rw [List.filterMap_append, hentries]
  simp [Entry.rule?, Function.comp_def]

theorem outbound_translated (hmap : vpnMap.rows ≠ []) (hconfig : config.Nonempty) :
    core.outbound obs (translateVpnRoutingRules obs vpnMap config) c =
      (config.rules.findSome? (blockVerdict core obs vpnMap c)).getD
        (chosen obs (fun r => core.matches r c) (backstop obs vpnMap)) := by
  rw [Core.outbound, rules_translated hmap hconfig, chosen, List.findSome?_append, findSome?_flatMap]
  have hblock : (fun r => (translateRule vpnMap r).findSome? fun r' =>
      if core.matches r' c then some (r'.choice obs) else none) = blockVerdict core obs vpnMap c := by
    funext r
    exact findSome?_const fun r' hr' => choice_of_mem_translateRule hr'
  rw [hblock]
  cases config.rules.findSome? (blockVerdict core obs vpnMap c) <;> rfl

/-- What the rules at the end select is the first outbound or one of their own. -/
theorem Distinct.not_backstop (h : Distinct obs vpnMap config) {r : Rule} (hr : r ∈ config.rules) (p : Rule → Bool) :
    r.choice obs ≠ chosen obs p (Rules.backstop obs vpnMap) := by
  have hv : ∀ b ∈ Rules.backstop obs vpnMap, ∀ x,
      (if p b then some (b.choice obs) else none) = some x → x = b.choice obs := by
    intro b _ x hx
    split at hx
    · exact (Option.some.inj hx).symm
    · cases hx
  rcases getD_findSome?_cases hv .first with ⟨b, hb, heq⟩ | heq
  · rw [chosen, heq]
    exact h.backstop r hr b hb
  · rw [chosen, heq]
    exact h.first r hr

/-- Nothing to translate. -/
theorem outbound_untranslated (hbelongs : core.Belongs vpnMap c) (h : ¬ (vpnMap.rows ≠ [] ∧ config.Nonempty)) :
    core.outbound obs (translateVpnRoutingRules obs vpnMap config) c = core.meant obs config c := by
  by_cases hmap : vpnMap.rows = []
  · have hnative : c.tunnel = false := by
      by_contra htunnel
      rw [Bool.not_eq_false] at htunnel
      obtain ⟨ips, hips, -⟩ := hbelongs htunnel
      rw [VpnMap.ips, Table.find?, hmap] at hips
      cases hips
    have hread : (fun r => core.matches r c) = fun r => core.means r c := by
      funext r
      rw [Core.matches, Core.means, Connection.email, hnative, if_neg Bool.false_ne_true]
    unfold translateVpnRoutingRules
    rw [if_pos hmap, Core.outbound, Core.meant, hread]
  · have hnone : ¬ config.Nonempty := fun hconfig => h ⟨hmap, hconfig⟩
    cases config with
    | empty =>
        rw [translateVpnRoutingRules, if_neg hmap]
        rfl
    | junk text =>
        rw [translateVpnRoutingRules, if_neg hmap]
        rfl
    | routing s =>
        cases hrules : s.rules with
        | none => simp [translateVpnRoutingRules, hmap, hrules, Core.outbound, Core.meant, RouterConfig.rules, chosen]
        | some entries =>
            cases entries with
            | nil => simp [translateVpnRoutingRules, hmap, hrules, Core.outbound, Core.meant,
              RouterConfig.rules, chosen]
            | cons entry entries => exact absurd ⟨s, entry, entries, rfl, hrules⟩ hnone

end All

/-- Where the rules are clear for a connection of an account, Xray sends it where the rules as
written send it; and where no two rules select the same, only there. -/
theorem translated_same (core : Core α κ) (obs : Option (List Outbound)) (vpnMap : VpnMap) (config : RouterConfig)
    (c : Connection α κ) (hbelongs : core.Belongs vpnMap c) :
    (RoutingClear core obs vpnMap config c →
        core.outbound obs (translateVpnRoutingRules obs vpnMap config) c = core.meant obs config c) ∧
      (Distinct obs vpnMap config →
        core.outbound obs (translateVpnRoutingRules obs vpnMap config) c = core.meant obs config c →
          RoutingClear core obs vpnMap config c) := by
  by_cases hactive : vpnMap.rows ≠ [] ∧ config.Nonempty
  · obtain ⟨hmap, hconfig⟩ := hactive
    rw [outbound_translated hmap hconfig]
    constructor
    · intro hclear
      obtain ⟨hrules, hend⟩ := hclear hmap hconfig
      have hsame := findSome?_eq_of_upTo fun r hr => (blockVerdict_eq_iff hbelongs r).2 (hrules r hr)
      rw [hsame]
      show _ = (config.rules.findSome? (core.verdict obs c)).getD .first
      cases hfind : config.rules.findSome? (core.verdict obs c) with
      | some x => rfl
      | none => exact backstop_first_iff.2 (hend hfind)
    · intro hdistinct hsame _ _
      have hv : ∀ r ∈ config.rules, ∀ x, core.verdict obs c r = some x → x = r.choice obs := by
        intro r _ x hx
        rw [Core.verdict] at hx
        split at hx
        · exact (Option.some.inj hx).symm
        · cases hx
      have hv' : ∀ r ∈ config.rules, ∀ x, blockVerdict core obs vpnMap c r = some x → x = r.choice obs := by
        intro r _ x hx
        rw [blockVerdict] at hx
        split at hx
        · exact (Option.some.inj hx).symm
        · cases hx
      obtain ⟨hrules, hend⟩ := upTo_eq_of_findSome?_eq hv hv' hdistinct.apart hdistinct.first
        (fun r hr => hdistinct.not_backstop hr _) hsame
      exact ⟨fun r hr => (blockVerdict_eq_iff hbelongs r).1 (hrules r hr), fun hfind =>
        backstop_first_iff.1 (hend hfind)⟩
  · have hsame := @outbound_untranslated _ _ core obs vpnMap config c hbelongs hactive
    exact ⟨fun _ => hsame, fun _ _ hmap hconfig => absurd ⟨hmap, hconfig⟩ hactive⟩

/-! ## An address nobody has -/

/-- The address lies in the tunnels' space and is no account's. -/
structure Core.Unassigned (core : Core α κ) (vpnMap : VpnMap) (a : α) : Prop where
  space : core.within vpnAddrSpace a = true
  nobody : ∀ ip ∈ validIPs vpnMap, core.within ip a = false

/-- The tag to block with is that of a blackhole. -/
theorem blockTag_blackhole {obs : Option (List Outbound)} (h : blockTag obs ≠ "") :
    ∃ ob ∈ obs.getD [], ob.protocol = "blackhole" ∧ ob.tag = blockTag obs := by
  have hlast : ∀ (l : List Outbound) (t : String),
      l.foldl (fun t ob => if ob.protocol = "blackhole" ∧ ob.tag ≠ "" then ob.tag else t) t = t ∨
        ∃ ob ∈ l, ob.protocol = "blackhole" ∧
          ob.tag = l.foldl (fun t ob => if ob.protocol = "blackhole" ∧ ob.tag ≠ "" then ob.tag else t) t := by
    intro l
    induction l with
    | nil => exact fun t => Or.inl rfl
    | cons ob l ih =>
        intro t
        rw [List.foldl_cons]
        split
        next hob =>
          refine Or.inr ?_
          rcases ih ob.tag with hsame | ⟨ob', hob', hrest⟩
          · exact ⟨ob, List.mem_cons_self, hob.1, hsame.symm⟩
          · exact ⟨ob', List.mem_cons_of_mem _ hob', hrest⟩
        next =>
          rcases ih t with hsame | ⟨ob', hob', hrest⟩
          · exact Or.inl hsame
          · exact Or.inr ⟨ob', List.mem_cons_of_mem _ hob', hrest⟩
  rcases hlast (obs.getD []) "" with hnone | hsome
  · exact absurd hnone h
  · exact hsome

theorem backstop_unassigned {core : Core α κ} {obs : Option (List Outbound)} {vpnMap : VpnMap}
    {c : Connection α κ} (hblock : blockTag obs ≠ "") (hvalid : validIPs vpnMap ≠ [])
    (h : core.Unassigned vpnMap c.source) :
    chosen obs (fun r => core.matches r c) (backstop obs vpnMap) =
      (sourceRule [vpnAddrSpace] (blockTag obs)).choice obs := by
  have hnobody : ((validIPs vpnMap).any fun ip => core.within ip c.source) = false := by
    rw [List.any_eq_false]
    intro ip hip
    rw [h.nobody ip hip]
    exact Bool.false_ne_true
  have hspace : (([vpnAddrSpace] : List String).any fun ip => core.within ip c.source) = true := by
    rw [List.any_cons, h.space, Bool.true_or]
  rw [backstop, if_pos ⟨hblock, hvalid⟩, chosen, List.findSome?_cons, List.findSome?_cons,
    matches_sourceRule hvalid, matches_sourceRule (List.cons_ne_nil _ _), hnobody, hspace]
  rfl

/-- With a blackhole that has a tag, an account with an address and a rule to start from, a
connection from an address nobody has goes where the first of the operator's rules sends it
that matches, as translated; and if none does, to the blackhole. -/
theorem unassigned_blocked (core : Core α κ) (obs : Option (List Outbound)) (vpnMap : VpnMap)
    (config : RouterConfig) (c : Connection α κ) (hblock : blockTag obs ≠ "")
    (hvalid : validIPs vpnMap ≠ []) (hconfig : config.Nonempty) (h : core.Unassigned vpnMap c.source) :
    core.outbound obs (translateVpnRoutingRules obs vpnMap config) c =
        ((config.rules.flatMap (translateRule vpnMap)).findSome? fun r =>
          if core.matches r c then some (r.choice obs) else none).getD
            ((sourceRule [vpnAddrSpace] (blockTag obs)).choice obs) ∧
      ∃ ob ∈ obs.getD [], ob.protocol = "blackhole" ∧ ob.tag = blockTag obs := by
  have hmap : vpnMap.rows ≠ [] := by
    intro hnil
    rw [validIPs, hnil] at hvalid
    exact hvalid rfl
  refine ⟨?_, blockTag_blackhole hblock⟩
  rw [Core.outbound, rules_translated hmap hconfig, chosen, List.findSome?_append,
    ← backstop_unassigned hblock hvalid h, chosen]
  cases (config.rules.flatMap (translateRule vpnMap)).findSome? fun r =>
      if core.matches r c then some (r.choice obs) else none with
  | none => rfl
  | some x => rfl

end

/-! ## Ann, who has an address -/

/-- Addresses as texts.  Of the tunnels there are two. -/
def plainCore : Core String Unit where
  within item a := decide (item = a) || decide (item = vpnAddrSpace ∧ a ∈ ["10.0.2.2", "10.0.2.3"])
  conditions _ _ := true
  free _ := rfl

def annsMap : VpnMap := .single ("ann", ["10.0.2.2"])

def threeOutbounds : Option (List Outbound) :=
  some [⟨"direct", "freedom"⟩, ⟨"blocked", "blackhole"⟩, ⟨"de", "vless"⟩]

/-- Ann leaves through `de`, from these sources if some are given. -/
def annsRule (source : Option Tree) : RouterConfig :=
  .routing {
    rules := some [.rule
      { user := some (.arr [.str "ann"]), source := source, outboundTag := some (.str "de") }] }

def annAt (tunnel : Bool) (source : String) : Connection String Unit := ⟨"ann", tunnel, source, ()⟩

/-- A neighbour on an address nobody has. -/
def leaked : Connection String Unit := ⟨"", true, "10.0.2.3", ()⟩

theorem leaked_unassigned : plainCore.Unassigned annsMap leaked.source where
  space := by decide
  nobody := by decide

/-- The neighbour matches none of the rules and is blocked. -/
theorem leaked_blocked :
    plainCore.outbound threeOutbounds (translateVpnRoutingRules threeOutbounds annsMap (annsRule none)) leaked =
      .tagged "blocked" :=
  (unassigned_blocked plainCore threeOutbounds annsMap (annsRule none) leaked (by decide) (by decide)
    ⟨_, _, _, rfl, rfl⟩ leaked_unassigned).1

/-- Without a blackhole the neighbour leaves through the first outbound; and with one, where a
rule for everybody sends them. -/
theorem leaked_unblocked :
    plainCore.Unassigned annsMap leaked.source ∧
      plainCore.outbound (some [⟨"direct", "freedom"⟩])
          (translateVpnRoutingRules (some [⟨"direct", "freedom"⟩]) annsMap (annsRule none)) leaked = .first ∧
      plainCore.outbound threeOutbounds (translateVpnRoutingRules threeOutbounds annsMap
          (.routing { rules := some [.rule { outboundTag := some (.str "de") }] })) leaked = .tagged "de" :=
  ⟨leaked_unassigned, rfl, rfl⟩

theorem belongs_ann : plainCore.Belongs annsMap (annAt true "10.0.2.2") :=
  fun _ => ⟨_, rfl, "10.0.2.2", List.mem_singleton.2 rfl, by decide, rfl⟩

/-- On a native connection ann no longer matches the rule that names her; and out of the tunnel
she matches one that is for another source. -/
theorem native_ann_unrouted :
    (plainCore.Belongs annsMap (annAt false "203.0.113.9") ∧
        plainCore.outbound threeOutbounds (translateVpnRoutingRules threeOutbounds annsMap (annsRule none))
            (annAt false "203.0.113.9") ≠
          plainCore.meant threeOutbounds (annsRule none) (annAt false "203.0.113.9")) ∧
      plainCore.Belongs annsMap (annAt true "10.0.2.2") ∧
        plainCore.outbound threeOutbounds
            (translateVpnRoutingRules threeOutbounds annsMap (annsRule (some (.arr [.str "192.168.0.9"]))))
            (annAt true "10.0.2.2") ≠
          plainCore.meant threeOutbounds (annsRule (some (.arr [.str "192.168.0.9"]))) (annAt true "10.0.2.2") := by
  refine ⟨⟨fun h => ?_, fun h => ?_⟩, belongs_ann, fun h => ?_⟩
  · cases h
  · cases h
  · cases h

/-- Out of the tunnel ann leaves where the rule sends her. -/
theorem tunnel_ann_routed :
    plainCore.outbound threeOutbounds (translateVpnRoutingRules threeOutbounds annsMap (annsRule none))
        (annAt true "10.0.2.2") =
      plainCore.meant threeOutbounds (annsRule none) (annAt true "10.0.2.2") := by
  refine (translated_same plainCore threeOutbounds annsMap (annsRule none) (annAt true "10.0.2.2") belongs_ann).1 ?_
  intro _ _
  refine ⟨fun r hr => ?_, fun hfind => ?_⟩
  · obtain rfl := List.mem_singleton.1 hr
    intro _
    refine ⟨fun text htext => ?_, fun _ => ⟨fun _ => ⟨rfl, rfl⟩, fun _ _ => Or.inl rfl⟩⟩
    cases htext
  · cases hfind

end Simorgh.Xray.Rules
