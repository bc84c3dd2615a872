import Simorgh.Lib.Run
import Simorgh.Vpn.Addresses

/-!
# Disjoint tunnel addresses

The tunnel inbounds of the panel, each stored with the ranges `normalizeRanges`
gives it while the others hold theirs.

* `Pool.step` — an inbound is added, edited or deleted, its accounts change, or its ranges
  are reconciled.
* `Written` — the rows a write can leave.
* `Laid` — every inbound is shaped, and no two own a /24 in common.
* `tunnel_addresses_disjoint` — in every run in which posted ranges are clean where they
  matter, no two accounts have an address in common, none has a reserved one, and
  every slot below the capacity has one.
* `gateway_handed_out` — otherwise an account gets the gateway's address, another's, or
  a /24's last.
-/

namespace Simorgh.Vpn

open Simorgh.Lib Simorgh.Panel

/-! ## The system -/

/-- The text a range is stored as. -/
def Range.text (r : Range) : String :=
  let dotted := toString r.subnet.a ++ "." ++ toString r.subnet.b ++ "." ++ toString r.subnet.c ++ "."
  dotted ++ toString r.first ++ "-" ++ dotted ++ toString r.last

/-- What is stored, posted again. -/
def VpnInbound.form (i : VpnInbound) : RangeForm where
  protocol := i.protocol
  userLimit := i.userLimit
  posted := i.ranges.map fun r => ⟨r.text, some r⟩
  slots := i.slots

/-- The inbound a form is stored as. -/
def RangeForm.inbound (form : RangeForm) (id : ℕ) (ranges : List Range) : VpnInbound where
  id := id
  protocol := form.protocol
  userLimit := form.userLimit
  ranges := ranges
  slots := form.slots

/-- Changes of the inbounds of a pool. -/
inductive PoolEvent where
  | add (id : ℕ) (form : RangeForm)
  | update (id : ℕ) (form : RangeForm)
  | accounts (id : ℕ) (slots : List ℕ)
  | delete (id : ℕ)
  | reconcile (id : ℕ)

/-- An inbound that is there is stored as the form has it. -/
def Pool.put (pool : Pool) (id : ℕ) (form : RangeForm) : Pool :=
  match normalizeRanges pool id id form with
  | .error _ => pool
  | .ok ranges => pool.modify id (fun i => form.inbound i.id ranges) fun _ => rfl

/-- One write.  Accounts come and go with the ranges as they are.  A new inbound has no id yet
when its ranges are assigned; what is no tunnel inbound, or no longer one, is not in the pool. -/
def Pool.step (pool : Pool) : PoolEvent → Pool
  | .add id form =>
      if id = 0 ∨ slotPoolProtocol form.protocol = false then pool
      else match normalizeRanges pool 0 0 form with
        | .error _ => pool
        | .ok ranges => (pool.insert? (form.inbound id ranges)).getD pool
  | .update id form => if slotPoolProtocol form.protocol then pool.put id form else pool.erase id
  | .accounts id slots => pool.modify id (fun i => { i with slots }) fun _ => rfl
  | .delete id => pool.erase id
  | .reconcile id =>
      match pool.find? id with
      | none => pool
      | some i => pool.put id i.form

/-- No two accounts have an address in common, none has a reserved one, and every slot the
ranges hold has one. -/
structure Sound (pool : Pool) : Prop where
  disjoint : ∀ i ∈ pool.rows, ∀ j ∈ pool.rows, ∀ s ∈ i.slots, ∀ s' ∈ j.slots, (i.id, s) ≠ (j.id, s') →
    ∀ a ∈ deviceIPs i s, a ∉ deviceIPs j s'
  usable : ∀ i ∈ pool.rows, ∀ s ∈ i.slots, ∀ a ∈ deviceIPs i s,
    a.host ≠ 0 ∧ a.host ≠ 255 ∧ a ∉ gateways i
  served : ∀ i ∈ pool.rows, ∀ s < computedCapacity i, deviceIPs i s ≠ []

/-! ## What ranges are assigned -/

section Assigning

variable {used : List Subnet}

theorem validRanges_ok {posted : List PostedRange} {valid : List Range}
    (h : validRanges used posted = .ok valid) :
    valid = posted.filterMap (·.value) ∧ ∀ r ∈ valid, r.subnet ∉ used := by
  induction posted generalizing valid with
  | nil =>
      cases h
      exact ⟨rfl, fun r hr => by cases hr⟩
  | cons p posted ih =>
      rw [validRanges] at h
      cases hvalue : p.value with
      | none => simp [hvalue] at h
      | some r =>
          simp only [hvalue] at h
          split at h
          · cases h
          · rename_i hfree
            cases hrest : validRanges used posted with
            | error e => simp [hrest, Except.map] at h
            | ok rest =>
                rw [hrest] at h
                cases h
                obtain ⟨hrest, hused⟩ := ih hrest
                refine ⟨by rw [List.filterMap_cons, hvalue, hrest], fun r' hr' => ?_⟩
                rcases List.mem_cons.1 hr' with rfl | hr'
                · exact hfree
                · exact hused r' hr'

theorem mem_freeSubnets {base : ℕ} {s : Subnet} (h : s ∈ freeSubnets base used) : s ∉ used := by
  simpa using List.of_mem_filter h

theorem nodup_freeSubnets (base : ℕ) (used : List Subnet) : (freeSubnets base used).Nodup := by
  refine List.Nodup.filter _ (List.nodup_range.map fun n n' h => ?_)
  simpa using h

/-- Appended /24s are free ones, and keep clean ranges clean. -/
theorem expandRanges_spec {userLimit clientCount : ℕ} {free : List Subnet} {ranges : List Range}
    (hfree : ∀ s ∈ free, s ∉ used) (hnew : ∀ s ∈ free, ∀ r ∈ ranges, r.subnet ≠ s) (hnodup : free.Nodup)
    (hranges : ∀ r ∈ ranges, r.subnet ∉ used) :
    (ranges <+: expandRanges userLimit clientCount free ranges) ∧
      (∀ r ∈ expandRanges userLimit clientCount free ranges, r.subnet ∉ used) ∧
        (CleanRanges ranges → CleanRanges (expandRanges userLimit clientCount free ranges)) := by
  induction free generalizing ranges with
  | nil => exact ⟨List.prefix_rfl, hranges, id⟩
  | cons s free ih =>
      rw [List.nodup_cons] at hnodup
      rw [expandRanges]
      split
      · exact ⟨List.prefix_rfl, hranges, id⟩
      · have hnew' : ∀ s' ∈ free, ∀ r ∈ ranges ++ [defaultRange s], r.subnet ≠ s' := by
          intro s' hs' r hr
          rcases List.mem_append.1 hr with hr | hr
          · exact hnew s' (List.mem_cons_of_mem s hs') r hr
          · rw [List.mem_singleton.1 hr]
            intro (hsame : s = s')
            exact hnodup.1 (hsame ▸ hs')
        have hranges' : ∀ r ∈ ranges ++ [defaultRange s], r.subnet ∉ used := by
          intro r hr
          rcases List.mem_append.1 hr with hr | hr
          · exact hranges r hr
          · rw [List.mem_singleton.1 hr]
            exact hfree s List.mem_cons_self
        obtain ⟨hinitial, hused, hclean⟩ := ih (fun s' hs' => hfree s' (List.mem_cons_of_mem s hs')) hnew'
          hnodup.2 hranges'
        refine ⟨(List.prefix_append _ _).trans hinitial, hused, fun hold => hclean ⟨?_, ?_⟩⟩
        · intro r hr
          rcases List.mem_append.1 hr with hr | hr
          · exact hold.window r hr
          · rw [List.mem_singleton.1 hr]
            exact ⟨le_rfl, le_rfl⟩
        · refine List.pairwise_append.2 ⟨hold.apart, List.pairwise_singleton _ _, fun r hr r' hr' hsame => ?_⟩
          rw [List.mem_singleton.1 hr'] at hsame
          exact absurd hsame (hnew s List.mem_cons_self r hr)

theorem normalizePppRanges_ok {protocol : Protocol} {posted : List PostedRange} {clientCount userLimit : ℕ}
    {ranges : List Range} (h : normalizePppRanges protocol posted clientCount userLimit used = .ok ranges) :
    ranges ≠ [] ∧ (∀ r ∈ ranges, r.subnet ∉ used) ∧
      (CleanRanges (posted.filterMap (·.value)) → CleanRanges ranges) := by
  simp only [normalizePppRanges, bind, Except.bind] at h
  cases hvalid : validRanges used posted with
  | error e => simp [hvalid] at h
  | ok valid =>
      obtain ⟨hvalue, hunused⟩ := validRanges_ok hvalid
      simp only [hvalid] at h
      -- what the expansion starts from
      have hexpand : ∀ assigned : List Range, assigned ≠ [] → (∀ r ∈ assigned, r.subnet ∉ used) →
          (CleanRanges (posted.filterMap (·.value)) → CleanRanges assigned) →
          ranges = expandRanges userLimit clientCount
            (freeSubnets (protocolBase protocol) (used ++ assigned.map (·.subnet))) assigned →
          ranges ≠ [] ∧ (∀ r ∈ ranges, r.subnet ∉ used) ∧
            (CleanRanges (posted.filterMap (·.value)) → CleanRanges ranges) := by
        rintro assigned hne hused hclean rfl
        have hfree : ∀ s ∈ freeSubnets (protocolBase protocol) (used ++ assigned.map (·.subnet)),
            s ∉ used ∧ ∀ r ∈ assigned, r.subnet ≠ s := by
          intro s hs
          have hs := mem_freeSubnets hs
          rw [List.mem_append, not_or] at hs
          exact ⟨hs.1, fun r hr hsame => hs.2 (List.mem_map.2 ⟨r, hr, hsame⟩)⟩
        obtain ⟨hinitial, hused', hclean'⟩ := expandRanges_spec (fun s hs => (hfree s hs).1)
          (fun s hs => (hfree s hs).2) (nodup_freeSubnets _ _) hused
        refine ⟨fun hnil => hne ?_, hused', fun hposted => hclean' (hclean hposted)⟩
        rw [hnil, List.prefix_nil] at hinitial
        exact hinitial
      by_cases hnil : valid = []
      · rw [if_pos hnil] at h
        cases hfree : nextFreeSubnet (protocolBase protocol) used with
        | none => simp [hfree] at h
        | some s =>
            simp only [hfree] at h
            refine hexpand [defaultRange s] (by simp) (fun r hr => ?_) (fun _ => ⟨fun r hr => ?_, ?_⟩)
              (Except.ok.inj h).symm
            · rw [List.mem_singleton.1 hr]
              exact mem_freeSubnets (List.mem_of_mem_head? hfree)
            · rw [List.mem_singleton.1 hr]
              exact ⟨le_rfl, le_rfl⟩
            · exact List.pairwise_singleton _ _
      · rw [if_neg hnil] at h
        exact hexpand valid hnil hunused (fun hclean => hvalue ▸ hclean) (Except.ok.inj h).symm

end Assigning

/-- The form puts no reserved host and no host twice into the pool, where hosts are handed
out one by one. -/
structure TidyForm (form : RangeForm) : Prop where
  ranges : pppProtocol form.protocol = true → blockSize form.protocol form.userLimit ≤ 1 →
    CleanRanges (form.posted.filterMap (·.value))
  slots : form.protocol = .openvpn → blockSize form.protocol form.userLimit ≤ 1 → ∀ s ∈ form.slots, s < 253

/-- What an inbound is stored with is shaped, tidy when the form is, and on /24s nobody
else uses. -/
theorem normalizeRanges_ok {pool : Pool} {inboundId excludeId : ℕ} (id : ℕ) {form : RangeForm}
    {ranges : List Range} (hvpn : slotPoolProtocol form.protocol = true)
    (h : normalizeRanges pool inboundId excludeId form = .ok ranges) :
    Shaped (form.inbound id ranges) ∧ (TidyForm form → Tidy (form.inbound id ranges)) ∧
      ∀ s ∈ ownedSubnets (form.inbound id ranges), s ∉ usedVpnSubnets pool excludeId := by
  unfold normalizeRanges at h
  simp only at h
  by_cases hppp : pppProtocol form.protocol = true
  · rw [if_pos hppp] at h
    obtain ⟨hne, hused, hclean⟩ := normalizePppRanges_ok h
    have hshaped : Shaped (form.inbound id ranges) :=
      ⟨hvpn, hne, fun hblock => by
        rw [show pppProtocol (form.inbound id ranges).protocol = true from hppp] at hblock
        cases hblock⟩
    refine ⟨hshaped, fun htidy => ⟨fun _ hone => hclean (htidy.ranges hppp hone), htidy.slots⟩, fun s hs => ?_⟩
    have hother : form.protocol ≠ .openvpn := fun hopenvpn => by
      rw [hopenvpn] at hppp
      cases hppp
    rw [ownedSubnets, inboundRanges_eq hshaped, List.mem_flatMap] at hs
    obtain ⟨s', hs', hmem⟩ := hs
    rw [if_neg (show ¬(form.inbound id ranges).protocol = .openvpn from hother), List.mem_singleton] at hmem
    subst hmem
    obtain ⟨r, hr, rfl⟩ := mem_subnetsOf.1 hs'
    exact hused r hr
  · rw [if_neg hppp] at h
    have hnot : ∀ P : Prop, pppProtocol form.protocol = true → P := fun P h => absurd h hppp
    have hblock : ∃ mirrorBase, (form.protocol = .openvpn → mirrorBase = some 3) ∧
        normalizeBlockRanges inboundId (slotCount form.slots) (blockSize form.protocol form.userLimit)
          (protocolBase form.protocol) mirrorBase (usedVpnSubnets pool excludeId)
          (form.posted.filterMap (·.value)) = .ok ranges := by
      by_cases hopenvpn : form.protocol = .openvpn
      · rw [if_pos hopenvpn] at h
        exact ⟨some 3, fun _ => rfl, by rw [show protocolBase form.protocol = 2 by rw [hopenvpn]; rfl]; exact h⟩
      · rw [if_neg hopenvpn] at h
        exact ⟨none, fun hopenvpn' => absurd hopenvpn' hopenvpn, h⟩
    obtain ⟨mirrorBase, hmirror, h⟩ := hblock
    obtain ⟨first, n, rfl, hb, -⟩ := normalizeBlockRanges_ok h
    have hpos := hb.pos
    have hne : blockRanges (protocolBase form.protocol) first n ≠ [] := by
      intro hnil
      have hlength := congrArg List.length hnil
      rw [blockRanges, List.length_map, List.length_range, List.length_nil] at hlength
      omega
    have hshaped : Shaped (form.inbound id (blockRanges (protocolBase form.protocol) first n)) :=
      ⟨hvpn, hne, fun _ => ⟨first, n, rfl, hb.pow, hb.aligned, hb.bound⟩⟩
    refine ⟨hshaped, fun htidy => ⟨fun hppp' => hnot _ hppp', htidy.slots⟩, fun s hs => ?_⟩
    rw [ownedSubnets, inboundRanges_eq hshaped, List.mem_flatMap] at hs
    obtain ⟨s', hs', hmem⟩ := hs
    rw [show (form.inbound id (blockRanges (protocolBase form.protocol) first n)).ranges =
      blockRanges (protocolBase form.protocol) first n from rfl, subnetsOf_blockRanges] at hs'
    obtain ⟨d, hd, rfl⟩ := List.mem_map.1 hs'
    have hfree := hb.free d (List.mem_range.1 hd)
    rw [thirdFree, Bool.and_eq_true, decide_eq_true_iff] at hfree
    rcases List.mem_cons.1 hmem with rfl | hmem
    · exact hfree.1
    · by_cases hopenvpn : form.protocol = .openvpn
      · rw [if_pos (show (form.inbound id _).protocol = .openvpn from hopenvpn), List.mem_singleton] at hmem
        have hmirrored := hfree.2
        rw [hmirror hopenvpn] at hmirrored
        rw [hmem, hopenvpn]
        have hmirrored' : (⟨10, 3, first + d⟩ : Subnet) ∉ usedVpnSubnets pool excludeId := by
          simpa using hmirrored
        exact hmirrored'
      · rw [if_neg (show ¬(form.inbound id _).protocol = .openvpn from hopenvpn)] at hmem
        cases hmem

/-! ## The invariant -/

/-- Every inbound is shaped, and no two own a /24 in common. -/
structure Laid (pool : Pool) : Prop where
  shaped : ∀ i ∈ pool.rows, Shaped i
  apart : ∀ i ∈ pool.rows, ∀ j ∈ pool.rows, i.id ≠ j.id → ∀ s ∈ ownedSubnets i, s ∉ ownedSubnets j
  ids : ∀ i ∈ pool.rows, i.id ≠ 0

/-- The write posts nothing untidy. -/
def PoolOk (pool : Pool) : PoolEvent → Prop
  | .add _ form | .update _ form => TidyForm form
  | .accounts id slots => ∀ i ∈ pool.rows, i.id = id → i.protocol = .openvpn →
      blockSize i.protocol i.userLimit ≤ 1 → ∀ s ∈ slots, s < 253
  | .delete _ | .reconcile _ => True

theorem laid_empty : Laid Table.empty where
  shaped := fun _ hi => by cases hi
  apart := fun _ hi => by cases hi
  ids := fun _ hi => by cases hi

theorem mem_usedVpnSubnets {pool : Pool} {excludeId : ℕ} {s : Subnet} :
    s ∈ usedVpnSubnets pool excludeId ↔ ∃ j ∈ pool.rows, j.id ≠ excludeId ∧ s ∈ ownedSubnets j := by
  simp [usedVpnSubnets, and_assoc]

/-- The posted ranges of what is stored are the stored ones. -/
theorem form_ranges (i : VpnInbound) : i.form.posted.filterMap (·.value) = i.ranges := by
  simp [VpnInbound.form, List.filterMap_map]

theorem Tidy.form {i : VpnInbound} (h : Tidy i) : TidyForm i.form :=
  ⟨fun hppp hone => by rw [form_ranges]; exact h.ranges hppp hone, h.slots⟩

/-! ## What a write does -/

/-- The inbound a write is about. -/
def PoolEvent.target : PoolEvent → ℕ
  | .add id _ | .update id _ | .accounts id _ | .delete id | .reconcile id => id

/-- A row of a pool after a write: one that was there, or one that was assigned its ranges
while the others held theirs. -/
inductive Written (pool : Pool) (e : PoolEvent) (i : VpnInbound) : Prop
  | kept (h : i ∈ pool.rows)
  | accounts (j : VpnInbound) (h : j ∈ pool.rows) (slots : List ℕ) (he : e = .accounts j.id slots)
      (hi : i = { j with slots })
  | added (form : RangeForm) (ranges : List Range) (hid : i.id ≠ 0) (he : e = .add i.id form)
      (hvpn : slotPoolProtocol form.protocol = true)
      (hranges : normalizeRanges pool 0 0 form = .ok ranges) (hi : i = form.inbound i.id ranges)
  | updated (j : VpnInbound) (h : j ∈ pool.rows) (form : RangeForm) (ranges : List Range)
      (he : e = .update j.id form ∨ e = .reconcile j.id ∧ form = j.form)
      (hvpn : slotPoolProtocol form.protocol = true)
      (hranges : normalizeRanges pool j.id j.id form = .ok ranges) (hi : i = form.inbound j.id ranges)

section Writing

variable {pool : Pool} {e : PoolEvent} {i : VpnInbound}

/-- A row of the table after one is rewritten. -/
theorem mem_modify {id : ℕ} {f : VpnInbound → VpnInbound} {hf : ∀ i, (f i).id = i.id}
    (hi : i ∈ (pool.modify id f hf).rows) : i ∈ pool.rows ∨ ∃ j ∈ pool.rows, j.id = id ∧ i = f j := by
  have hfind := Table.find?_of_mem hi
  by_cases hsame : i.id = id
  · rw [hsame, Table.find?_modify_self] at hfind
    obtain ⟨j, hj, rfl⟩ := Option.map_eq_some_iff.1 hfind
    exact Or.inr ⟨j, (Table.find?_some hj).1, (Table.find?_some hj).2, rfl⟩
  · rw [Table.find?_modify_of_ne hsame] at hfind
    exact Or.inl (Table.find?_some hfind).1

theorem mem_put {id : ℕ} {form : RangeForm} (hi : i ∈ (pool.put id form).rows) :
    i ∈ pool.rows ∨ ∃ j ∈ pool.rows, j.id = id ∧ ∃ ranges,
      normalizeRanges pool id id form = .ok ranges ∧ i = form.inbound j.id ranges := by
  unfold Pool.put at hi
  cases hranges : normalizeRanges pool id id form with
  | error e =>
      rw [hranges] at hi
      exact Or.inl hi
  | ok ranges =>
      rw [hranges] at hi
      rcases mem_modify hi with hold | ⟨j, hj, hid, hi⟩
      · exact Or.inl hold
      · exact Or.inr ⟨j, hj, hid, ranges, rfl, hi⟩

/-- Every row after a write comes about in one of these ways. -/
theorem step_written (hlaid : Laid pool) (hi : i ∈ (pool.step e).rows) : Written pool e i := by
  cases e with
  | add id form =>
      simp only [Pool.step] at hi
      by_cases hskip : id = 0 ∨ slotPoolProtocol form.protocol = false
      · rw [if_pos hskip] at hi
        exact .kept hi
      · rw [if_neg hskip] at hi
        rw [not_or, Bool.not_eq_false] at hskip
        cases hranges : normalizeRanges pool 0 0 form with
        | error e =>
            rw [hranges] at hi
            exact .kept hi
        | ok ranges =>
            rw [hranges] at hi
            change i ∈ ((pool.insert? (form.inbound id ranges)).getD pool).rows at hi
            cases hinsert : pool.insert? (form.inbound id ranges) with
            | none =>
                rw [hinsert] at hi
                exact .kept hi
            | some pool' =>
                rw [hinsert, Option.getD_some, (Table.insert?_eq_some hinsert).2, List.mem_append,
                  List.mem_singleton] at hi
                rcases hi with hi | rfl
                · exact .kept hi
                · exact .added form ranges hskip.1 rfl hskip.2 hranges rfl
  | update id form =>
      simp only [Pool.step] at hi
      by_cases hvpn : slotPoolProtocol form.protocol = true
      · rw [if_pos hvpn] at hi
        rcases mem_put hi with hold | ⟨j, hj, rfl, ranges, hranges, hi⟩
        · exact .kept hold
        · exact .updated j hj form ranges (Or.inl rfl) hvpn hranges hi
      · rw [if_neg hvpn] at hi
        exact .kept (Table.mem_erase.1 hi).1
  | accounts id slots =>
      rcases mem_modify hi with hold | ⟨j, hj, rfl, hwritten⟩
      · exact .kept hold
      · exact .accounts j hj slots rfl hwritten
  | delete id => exact .kept (Table.mem_erase.1 hi).1
  | reconcile id =>
      simp only [Pool.step] at hi
      cases hfound : pool.find? id with
      | none =>
          rw [hfound] at hi
          exact .kept hi
      | some j₀ =>
          rw [hfound] at hi
          obtain ⟨hmem, hid⟩ := Table.find?_some hfound
          rcases mem_put hi with hold | ⟨j, hj, hj', ranges, hranges, hwritten⟩
          · exact .kept hold
          · subst hj'
            obtain rfl := Table.eq_of_key_eq hmem hj hid
            exact .updated j₀ hj j₀.form ranges (Or.inr ⟨rfl, rfl⟩) (hlaid.shaped j₀ hj).vpn hranges hwritten

theorem Written.kept_or_target (h : Written pool e i) : i ∈ pool.rows ∨ e.target = i.id := by
  cases h with
  | kept h => exact Or.inl h
  | accounts j h slots he hi =>
      subst he hi
      exact Or.inr rfl
  | added form ranges hid he hvpn hranges hi =>
      subst he
      exact Or.inr rfl
  | updated j h form ranges he hvpn hranges hi =>
      subst hi
      rcases he with rfl | ⟨rfl, -⟩
      · exact Or.inr rfl
      · exact Or.inr rfl

/-- What a write leaves is shaped, and off the /24s of the other inbounds. -/
theorem Written.laid (hlaid : Laid pool) (h : Written pool e i) :
    Shaped i ∧ i.id ≠ 0 ∧ ∀ j ∈ pool.rows, j.id ≠ i.id → ∀ s ∈ ownedSubnets i, s ∉ ownedSubnets j := by
  cases h with
  | kept h =>
      exact ⟨hlaid.shaped i h, hlaid.ids i h, fun j hj hne => hlaid.apart i h j hj fun hsame => hne hsame.symm⟩
  | accounts j h slots he hi =>
      subst hi
      have hshaped := hlaid.shaped j h
      exact ⟨⟨hshaped.vpn, hshaped.ne_nil, hshaped.block⟩, hlaid.ids j h,
        fun j' hj' hne => hlaid.apart j h j' hj' fun hsame => hne hsame.symm⟩
  | added form ranges hid he hvpn hranges hi =>
      rw [hi]
      obtain ⟨hshaped, -, hfree⟩ := normalizeRanges_ok i.id hvpn hranges
      refine ⟨hshaped, hid, fun j hj hne s hs hs' => ?_⟩
      exact hfree s hs (mem_usedVpnSubnets.2 ⟨j, hj, hlaid.ids j hj, hs'⟩)
  | updated j h form ranges he hvpn hranges hi =>
      subst hi
      obtain ⟨hshaped, -, hfree⟩ := normalizeRanges_ok j.id hvpn hranges
      refine ⟨hshaped, hlaid.ids j h, fun j' hj' hne s hs hs' => ?_⟩
      exact hfree s hs (mem_usedVpnSubnets.2 ⟨j', hj', hne, hs'⟩)

theorem Laid.step (hlaid : Laid pool) : Laid (pool.step e) := by
  refine ⟨fun i hi => ?_, fun i hi j hj hne s hs hs' => ?_, fun i hi => ?_⟩
  · exact ((step_written hlaid hi).laid hlaid).1
  · have hwi := step_written hlaid hi
    have hwj := step_written hlaid hj
    rcases hwj.kept_or_target with hold | htarget
    · exact (hwi.laid hlaid).2.2 j hold (fun hsame => hne hsame.symm) s hs hs'
    · rcases hwi.kept_or_target with hold | htarget'
      · exact (hwj.laid hlaid).2.2 i hold hne s hs' hs
      · exact hne (htarget'.symm.trans htarget)
  · exact ((step_written hlaid hi).laid hlaid).2.1

theorem Written.tidy (htidy : ∀ j ∈ pool.rows, Tidy j) (hok : PoolOk pool e) (h : Written pool e i) :
    Tidy i := by
  cases h with
  | kept h => exact htidy i h
  | accounts j h slots he hi =>
      subst he hi
      exact ⟨(htidy j h).ranges, hok j h rfl⟩
  | added form ranges hid he hvpn hranges hi =>
      subst he
      rw [hi]
      exact (normalizeRanges_ok i.id hvpn hranges).2.1 hok
  | updated j h form ranges he hvpn hranges hi =>
      subst hi
      refine (normalizeRanges_ok j.id hvpn hranges).2.1 ?_
      rcases he with rfl | ⟨-, rfl⟩
      · exact hok
      · exact (htidy j h).form

end Writing

/-- The pool is laid out, and every inbound tidy. -/
structure PoolInv (pool : Pool) : Prop extends Laid pool where
  tidy : ∀ i ∈ pool.rows, Tidy i

theorem poolInv_empty : PoolInv Table.empty := ⟨laid_empty, fun _ hi => by cases hi⟩

theorem PoolInv.step {pool : Pool} {e : PoolEvent} (hinv : PoolInv pool) (hok : PoolOk pool e) :
    PoolInv (pool.step e) :=
  ⟨hinv.toLaid.step, fun _ hi => (step_written hinv.toLaid hi).tidy hinv.tidy hok⟩

/-- The server's end is at host one. -/
theorem gateways_host {i : VpnInbound} {a : Addr} (ha : a ∈ gateways i) : a.host = 1 := by
  unfold gateways at ha
  split at ha
  · rcases List.mem_cons.1 ha with rfl | ha
    · rfl
    · rw [List.mem_singleton.1 ha]
  · obtain ⟨s, -, rfl⟩ := List.mem_map.1 ha
    rfl

theorem PoolInv.sound {pool : Pool} (hinv : PoolInv pool) : Sound pool := by
  refine ⟨fun i hi j hj s hs s' hs' hne a ha ha' => ?_, fun i hi s hs a ha => ?_, fun i hi s hs => ?_⟩
  · by_cases hid : i.id = j.id
    · obtain rfl := Table.eq_of_key_eq hi hj hid
      have hslots : s ≠ s' := fun hsame => hne (by rw [hsame])
      exact deviceIPs_disjoint (hinv.shaped i hi) (hinv.tidy i hi) hs hs' hslots ha ha'
    · exact hinv.apart i hi j hj hid a.subnet (deviceIPs_mem (hinv.shaped i hi) (hinv.tidy i hi) hs ha).1
        (deviceIPs_mem (hinv.shaped j hj) (hinv.tidy j hj) hs' ha').1
  · obtain ⟨-, hlow, hhigh⟩ := deviceIPs_mem (hinv.shaped i hi) (hinv.tidy i hi) hs ha
    refine ⟨by omega, by omega, fun hgateway => ?_⟩
    have hone := gateways_host hgateway
    omega
  · exact deviceIPs_ne_nil (hinv.shaped i hi) hs

/-- In every run of tidy writes, addresses are disjoint and usable, and every slot below
the capacity has some. -/
theorem tunnel_addresses_disjoint (events : List PoolEvent)
    (hok : AllSteps Pool.step PoolOk Table.empty events) :
    ∀ pool ∈ states Pool.step Table.empty events, Sound pool := by
  intro pool hpool
  exact (hok.invariant (fun _ _ hinv hok => hinv.step hok) poolInv_empty pool hpool).sound

/-- An L2TP inbound on an operator's range, an OpenVPN inbound and a gateway inbound of four
devices an account. -/
def sampleEvents : List PoolEvent :=
  [.add 1 { protocol := .l2tp, posted := [⟨"10.0.5.10-10.0.5.20", some ⟨⟨10, 0, 5⟩, 10, 20, by omega, by omega⟩⟩]
            slots := [0, 1] },
    .add 2 { protocol := .openvpn, slots := [0] },
    .add 3 { protocol := .wgc, userLimit := some 4 },
    .accounts 3 [0, 1],
    .reconcile 3]

theorem sampleEvents_ok : AllSteps Pool.step PoolOk Table.empty sampleEvents := by
  refine ⟨⟨fun _ _ => ⟨?_, List.pairwise_singleton _ _⟩, ?_⟩, ⟨?_, ?_⟩, ⟨?_, ?_⟩, ?_, trivial, trivial⟩
  · intro r hr
    rw [List.mem_singleton.1 hr]
    exact ⟨by decide, by decide⟩
  · intro h
    cases h
  · intro h
    cases h
  · intro _ _ s hs
    rw [List.mem_singleton.1 hs]
    decide
  · intro h
    cases h
  · intro h
    cases h
  · intro i _ _ _ _ s hs
    have hall : ∀ s ∈ [0, 1], s < 253 := by decide
    exact hall s hs

theorem sampleEvents_addresses_disjoint :
    ((run Pool.step Table.empty sampleEvents).rows.map fun i => (i.id, i.slots.map (deviceIPs i))) =
        [(1, [[⟨⟨10, 0, 5⟩, 10⟩], [⟨⟨10, 0, 5⟩, 11⟩]]),
          (2, [[⟨⟨10, 2, 0⟩, 2⟩, ⟨⟨10, 3, 0⟩, 2⟩]]),
          (3, [[⟨⟨10, 7, 0⟩, 4⟩, ⟨⟨10, 7, 0⟩, 5⟩, ⟨⟨10, 7, 0⟩, 6⟩, ⟨⟨10, 7, 0⟩, 7⟩],
            [⟨⟨10, 7, 0⟩, 8⟩, ⟨⟨10, 7, 0⟩, 9⟩, ⟨⟨10, 7, 0⟩, 10⟩, ⟨⟨10, 7, 0⟩, 11⟩]])] ∧
      ∀ pool ∈ states Pool.step Table.empty sampleEvents, Sound pool :=
  ⟨by decide +kernel, tunnel_addresses_disjoint sampleEvents sampleEvents_ok⟩

/-- An L2TP inbound on a range from the /24's first address on. -/
def gatewayEvents : List PoolEvent :=
  [.add 1 { protocol := .l2tp, posted := [⟨"10.0.5.0-10.0.5.9", some ⟨⟨10, 0, 5⟩, 0, 9, by omega, by omega⟩⟩]
            slots := [0, 1] }]

/-- The second account has the address of the server's end. -/
theorem gateway_handed_out :
    ¬∀ events : List PoolEvent, ∀ pool ∈ states Pool.step Table.empty events, Sound pool := by
  intro h
  have hsound := h gatewayEvents _ (run_mem_states Table.empty gatewayEvents)
  have hrow : ∃ i ∈ (run Pool.step Table.empty gatewayEvents).rows, 1 ∈ i.slots ∧
      ∃ a ∈ deviceIPs i 1, a ∈ gateways i := by
    decide +kernel
  obtain ⟨i, hi, hslot, a, ha, hgateway⟩ := hrow
  exact (hsound.usable i hi 1 hslot a ha).2.2 hgateway

end Simorgh.Vpn
