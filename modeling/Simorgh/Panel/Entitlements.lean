import Mathlib
import Simorgh.Panel.Depletion

/-!
# Which way a bulk operation moves an account

The panel stores an account's deadline and quota as one number each, and zero means
that there is none.  `dueAt` and `quotaOf` read the two numbers, so that the operations
can be compared by what they leave the customer.

* `bulk_moves_as_named` — taking days or traffic off and adding traffic go the way
  they are named, and what becomes of the accounts without a limit.
* `bulk_deadlines_kept` — a batch of a reseller leaves no account an earlier deadline,
  those apart that have none and are given one.
-/

namespace Simorgh.Panel

open Simorgh.Lib Simorgh.Lib.Json

/-- The moment a stored deadline stands for, for a customer who first connects at
`firstUse`: zero is none, and a negative number starts to run with the first use. -/
def dueAt (expiry firstUse : Int) : WithTop Int :=
  if expiry = 0 then ⊤ else if 0 < expiry then (expiry : Int) else ((firstUse - expiry : Int) : WithTop Int)

/-- The quota a stored total stands for. -/
def quotaOf (total : Int) : WithTop Int := if total = 0 then ⊤ else (total : Int)

@[simp] theorem dueAt_zero (firstUse : Int) : dueAt 0 firstUse = ⊤ := rfl

theorem dueAt_of_pos {expiry : Int} (h : 0 < expiry) (firstUse : Int) :
    dueAt expiry firstUse = (expiry : Int) := by
  rw [dueAt, if_neg (by omega), if_pos h]

theorem dueAt_of_neg {expiry : Int} (h : expiry < 0) (firstUse : Int) :
    dueAt expiry firstUse = ((firstUse - expiry : Int) : WithTop Int) := by
  rw [dueAt, if_neg (by omega), if_neg (by omega)]

@[simp] theorem quotaOf_zero : quotaOf 0 = ⊤ := rfl

theorem quotaOf_of_ne {total : Int} (h : total ≠ 0) : quotaOf total = (total : Int) := if_neg h

/-- A number a document holds is read as an int64. -/
theorem toMap_int64_fits (d : Doc) (k : String) : FitsInt64 ((Doc.toMap d).int64 k) := by
  have hfloat : ∀ q, FitsInt64 (floatToInt64 q) := by
    intro q
    unfold floatToInt64
    split
    · assumption
    · decide
  have hzero : FitsInt64 0 := by decide
  unfold Map.int64 Doc.toMap
  rw [Obj.get?_mapNum]
  cases d.get? k with
  | none => exact hzero
  | some v =>
      cases v with
      | num l => exact hfloat _
      | null => exact hzero
      | bool b => exact hzero
      | str s => exact hzero
      | other text => exact hzero

/-! ## One entry -/

section Entry

variable {req : BulkClientUpdateRequest} {now : Int} {cm cm' : Map}

/-- The deadline the operation leaves an entry with. -/
def BulkClientUpdateRequest.leavesExpiry (req : BulkClientUpdateRequest) (now expiry : Int) : Int :=
  match req.op with
  | .freeze => if 0 < expiry then int64 (now - expiry) else if expiry = 0 then frozenNoExpiry else expiry
  | .unfreeze =>
      if expiry = frozenNoExpiry then 0 else if expiry < 0 then int64 (now - expiry) else expiry
  | .addDays =>
      let ms := int64 (req.days * bulkMsPerDay)
      int64 (if 0 < expiry then expiry + ms else if expiry < 0 then expiry - ms else now + ms)
  | .subDays =>
      let ms := int64 (req.days * bulkMsPerDay)
      if 0 < expiry then int64 (expiry - ms) else int64 (min 0 (int64 (expiry + ms)))
  | _ => expiry

theorem applyBulkClientOp_expiry (h : applyBulkClientOp cm req now = some cm') :
    cm'.int64 "expiryTime" = req.leavesExpiry now (cm.int64 "expiryTime") := by
  have hset : ∀ (m : Map) n, Map.int64 (m.set "expiryTime" (.num (.int n))) "expiryTime" = n :=
    fun m n => Map.int64_set_int _ _ _
  have hswitch : ∀ (m : Map) b, Map.int64 (m.set "enable" (.bool b)) "expiryTime" =
      m.int64 "expiryTime" := fun m b => Map.int64_set_of_ne (by decide) _
  have hquota : ∀ (m : Map) n, Map.int64 (m.set "totalGB" (.num (.int n))) "expiryTime" =
      m.int64 "expiryTime" := fun m n => Map.int64_set_of_ne (by decide) _
  unfold applyBulkClientOp at h
  unfold BulkClientUpdateRequest.leavesExpiry
  simp only at h
  split at h <;> rename_i hop <;> rw [hop] <;> simp only
  case h_1 =>
    split at h
    · cases h
    · cases h
      rw [hswitch]
      split
      · exact hset _ _
      · split
        · exact hset _ _
        · rfl
  case h_2 =>
    split at h
    · cases h
    · cases h
      rw [hswitch]
      split
      · exact hset _ _
      · split
        · exact hset _ _
        · rfl
  case h_3 =>
    cases h
    exact hset _ _
  case h_4 =>
    split at h
    · cases h
    · split at h
      · rename_i hpos
        cases h
        rw [if_pos hpos]
        exact hset _ _
      · rename_i hpos
        cases h
        rw [if_neg hpos]
        exact hset _ _
  case h_5 =>
    cases h
    exact hquota _ _
  case h_6 =>
    split at h
    · cases h
    · cases h
      exact hquota _ _
  case h_7 =>
    split at h
    · cases h
    · cases h
      exact hswitch _ _
  case h_8 =>
    split at h
    · cases h
      exact hswitch _ _
    · cases h
  case h_9 =>
    cases h
    rfl
  case h_10 =>
    cases h
    rfl

/-- Taking fewer days off than a deadline has brings it forward. -/
theorem subDays_not_later {d : Doc} (hop : req.op = .subDays) (hdays : 0 < req.days)
    (hms : FitsInt64 (req.days * bulkMsPerDay))
    (hfew : req.days * bulkMsPerDay < |(Doc.toMap d).int64 "expiryTime"|) (firstUse : Int) :
    dueAt (req.leavesExpiry now ((Doc.toMap d).int64 "expiryTime")) firstUse ≤
      dueAt ((Doc.toMap d).int64 "expiryTime") firstUse := by
  have hfits := toMap_int64_fits d "expiryTime"
  revert hfew hfits
  generalize (Doc.toMap d).int64 "expiryTime" = e
  intro hfew hfits
  have hpos : 0 < req.days * bulkMsPerDay := Int.mul_pos hdays (by decide)
  obtain ⟨hlow, hhigh⟩ := hfits
  obtain ⟨hmlow, hmhigh⟩ := hms
  unfold BulkClientUpdateRequest.leavesExpiry
  rw [hop]
  simp only [int64_of_fits ⟨hmlow, hmhigh⟩]
  generalize req.days * bulkMsPerDay = ms at *
  rcases lt_trichotomy e 0 with he | he | he
  · rw [abs_of_neg he] at hfew
    rw [if_neg (by omega), int64_of_fits (x := e + ms) ⟨by omega, by omega⟩, min_eq_right (by omega),
      int64_of_fits ⟨by omega, by omega⟩, dueAt_of_neg (by omega), dueAt_of_neg he]
    exact WithTop.coe_le_coe.2 (by omega)
  · rw [he]
    exact le_top
  · rw [abs_of_pos he] at hfew
    rw [if_pos he, int64_of_fits ⟨by omega, by omega⟩, dueAt_of_pos (by omega), dueAt_of_pos he]
    exact WithTop.coe_le_coe.2 (by omega)

/-- A delayed start that loses all its days is left without a deadline. -/
theorem subDays_delayed {d : Doc} (hop : req.op = .subDays)
    (hms : FitsInt64 (req.days * bulkMsPerDay)) (hneg : (Doc.toMap d).int64 "expiryTime" < 0)
    (hall : -(Doc.toMap d).int64 "expiryTime" ≤ req.days * bulkMsPerDay) :
    req.leavesExpiry now ((Doc.toMap d).int64 "expiryTime") = 0 := by
  have hfits := toMap_int64_fits d "expiryTime"
  revert hneg hall hfits
  generalize (Doc.toMap d).int64 "expiryTime" = e
  intro hneg hall hfits
  obtain ⟨hlow, hhigh⟩ := hfits
  obtain ⟨hmlow, hmhigh⟩ := hms
  unfold BulkClientUpdateRequest.leavesExpiry
  rw [hop]
  simp only [int64_of_fits ⟨hmlow, hmhigh⟩]
  rw [if_neg (by omega), int64_of_fits (x := e + req.days * bulkMsPerDay) ⟨by omega, by omega⟩,
    min_eq_left (by omega)]
  rfl

theorem subTraffic_not_larger {d : Doc} (hop : req.op = .subTraffic) (hpos : 0 < req.amountBytes)
    (hfits : FitsInt64 req.amountBytes) (h : applyBulkClientOp (Doc.toMap d) req now = some cm') :
    quotaOf (cm'.int64 "totalGB") ≤ quotaOf ((Doc.toMap d).int64 "totalGB") := by
  have hlimited : 0 < (Doc.toMap d).int64 "totalGB" := by
    unfold applyBulkClientOp at h
    rw [hop] at h
    simp only at h
    split at h
    · cases h
    · omega
  obtain ⟨hlow, hhigh⟩ := toMap_int64_fits d "totalGB"
  rw [(applyBulkClientOp_leaves h).2, BulkClientUpdateRequest.leavesQuota, hop]
  simp only
  revert hlow hhigh hlimited
  generalize (Doc.toMap d).int64 "totalGB" = total
  intro hlimited hlow hhigh
  obtain ⟨-, hahigh⟩ := hfits
  rw [int64_of_fits (x := total - req.amountBytes) ⟨by omega, by omega⟩,
    int64_of_fits ⟨by omega, by omega⟩, quotaOf_of_ne (by omega), quotaOf_of_ne (by omega)]
  exact WithTop.coe_le_coe.2 (by omega)

theorem addTraffic_leaves (hop : req.op = .addTraffic)
    (hfits : FitsInt64 (cm.int64 "totalGB" + req.amountBytes))
    (h : applyBulkClientOp cm req now = some cm') :
    cm'.int64 "totalGB" = cm.int64 "totalGB" + req.amountBytes := by
  rw [(applyBulkClientOp_leaves h).2, BulkClientUpdateRequest.leavesQuota, hop]
  exact int64_of_fits hfits

/-- An operation that changes an entry moves it the way it is named.  Fewer days than a
deadline has bring it forward; traffic taken off never raises a quota and traffic added
never lowers one.  An account without a quota is given the amount as its quota, and a
delayed start that loses all its days is left without a deadline. -/
theorem bulk_moves_as_named {d : Doc} (h : applyBulkClientOp (Doc.toMap d) req now = some cm') :
    (req.op = .subDays → 0 < req.days → FitsInt64 (req.days * bulkMsPerDay) →
      (req.days * bulkMsPerDay < |(Doc.toMap d).int64 "expiryTime"| → ∀ firstUse,
        dueAt (cm'.int64 "expiryTime") firstUse ≤ dueAt ((Doc.toMap d).int64 "expiryTime") firstUse) ∧
      ((Doc.toMap d).int64 "expiryTime" < 0 →
        -(Doc.toMap d).int64 "expiryTime" ≤ req.days * bulkMsPerDay → cm'.int64 "expiryTime" = 0)) ∧
    (req.op = .subTraffic → 0 < req.amountBytes → FitsInt64 req.amountBytes →
      quotaOf (cm'.int64 "totalGB") ≤ quotaOf ((Doc.toMap d).int64 "totalGB")) ∧
    (req.op = .addTraffic → 0 < req.amountBytes →
      FitsInt64 ((Doc.toMap d).int64 "totalGB" + req.amountBytes) →
      ((Doc.toMap d).int64 "totalGB" ≠ 0 →
        quotaOf ((Doc.toMap d).int64 "totalGB") ≤ quotaOf (cm'.int64 "totalGB")) ∧
      ((Doc.toMap d).int64 "totalGB" = 0 → cm'.int64 "totalGB" = req.amountBytes)) := by
  refine ⟨?_, ?_, ?_⟩
  · intro hop hdays hms
    rw [applyBulkClientOp_expiry h]
    refine ⟨fun hfew firstUse => ?_, fun hneg hall => ?_⟩
    · exact subDays_not_later hop hdays hms hfew firstUse
    · exact subDays_delayed hop hms hneg hall
  · intro hop hpos hfits
    exact subTraffic_not_larger hop hpos hfits h
  · intro hop hpos hfits
    rw [addTraffic_leaves hop hfits h]
    refine ⟨fun hne => ?_, fun hzero => by rw [hzero, Int.zero_add]⟩
    rw [quotaOf_of_ne hne]
    by_cases hsum : (Doc.toMap d).int64 "totalGB" + req.amountBytes = 0
    · rw [hsum]
      exact le_top
    · rw [quotaOf_of_ne hsum]
      exact WithTop.coe_le_coe.2 (by omega)

end Entry

/-- An account without a quota, three days from its first use. -/
def threeDayTrial : Doc := stored [("email", .str "kim"), ("expiryTime", .num ⟨-259200000, true⟩),
  ("totalGB", .num ⟨0, true⟩), ("enable", .bool true)]

/-- The trial with a day taken off. -/
def twoDayTrial : Map :=
  (applyBulkClientOp (Doc.toMap threeDayTrial) { op := .subDays, days := 1 } 0).getD Obj.empty

theorem trial_loses_a_day : dueAt (-172800000) 0 ≤ dueAt (-259200000) 0 := by
  have hop : applyBulkClientOp (Doc.toMap threeDayTrial) { op := .subDays, days := 1 } 0 =
      some twoDayTrial := by decide +kernel
  have hold : (Doc.toMap threeDayTrial).int64 "expiryTime" = -259200000 := by decide +kernel
  have hnew : twoDayTrial.int64 "expiryTime" = -172800000 := by decide +kernel
  have hmoved := ((bulk_moves_as_named hop).1 rfl (by decide) (by decide)).1
  rw [hold, hnew] at hmoved
  exact hmoved (by decide) 0

/-- Added traffic makes an unlimited account a limited one, and a delayed start that
loses more days than it has never ends. -/
theorem bulk_ops_cross_zero :
    ((applyBulkClientOp (Doc.toMap threeDayTrial) { op := .addTraffic, amountBytes := 500 } 0).map
        fun cm => cm.int64 "totalGB") = some 500 ∧
      quotaOf 500 < quotaOf ((Doc.toMap threeDayTrial).int64 "totalGB") ∧
      ((applyBulkClientOp (Doc.toMap threeDayTrial) { op := .subDays, days := 5 } 0).map
        fun cm => cm.int64 "expiryTime") = some 0 ∧
      ∀ firstUse, dueAt ((Doc.toMap threeDayTrial).int64 "expiryTime") firstUse < dueAt 0 firstUse := by
  have htotal : (Doc.toMap threeDayTrial).int64 "totalGB" = 0 := by decide +kernel
  have hexpiry : (Doc.toMap threeDayTrial).int64 "expiryTime" = -259200000 := by decide +kernel
  refine ⟨by decide +kernel, ?_, by decide +kernel, fun firstUse => ?_⟩
  · rw [htotal]
    exact WithTop.coe_lt_top _
  · rw [hexpiry, dueAt_of_neg (by decide)]
    exact WithTop.coe_lt_top _

/-! ## A batch of a reseller -/

section Batch

variable {order : MapOrder} {req : BulkClientUpdateRequest} {now : Int} {r s : Roster}

/-- What a batch makes of an entry: it is left, written back, or edited. -/
def BulkWritten (req : BulkClientUpdateRequest) (now : Int) (emails : List String) (d d' : Doc) : Prop :=
  d' = d ∨ d' = rewrite d ∨ ∃ cm, bulkEdit req now emails d = some cm ∧ d' = Map.marshal cm

/-- What a batch makes of a row: it is left, or takes the deadline of an edited entry. -/
def BulkStamped (req : BulkClientUpdateRequest) (now : Int) (r : Roster) (ct' : ClientTraffic) : Prop :=
  ∃ ct ∈ r.traffics.find? ct'.email, ct' = ct ∨
    ∃ id i d cm, r.inbounds.find? id = some i ∧ d ∈ i.settings.clients ∧
      bulkEdit req now (req.emailsOn id) d = some cm ∧ d.str "email" = ct'.email ∧
      ct'.expiryTime = cm.int64 "expiryTime"

theorem bulkEntry_written (req : BulkClientUpdateRequest) (now : Int) (emails : List String) (d : Doc) :
    BulkWritten req now emails d (bulkEntry req now emails d) := by
  unfold bulkEntry
  cases hd : bulkEdit req now emails d with
  | none => exact Or.inr (Or.inl rfl)
  | some cm => exact Or.inr (Or.inr ⟨cm, hd, rfl⟩)

/-- One inbound of a batch: the others are left, and its entries come from the ones it
had. -/
theorem bulkInbound_written {id : Nat} (h : bulkInbound order req now r id = some s) :
    (∀ id', id' ≠ id → s.inbounds.find? id' = r.inbounds.find? id') ∧
      ∀ i', s.inbounds.find? id = some i' → ∃ i, r.inbounds.find? id = some i ∧
        ∀ d' ∈ i'.settings.clients, ∃ d ∈ i.settings.clients, BulkWritten req now (req.emailsOn id) d d' := by
  unfold bulkInbound at h
  cases hi : r.inbounds.find? id with
  | none =>
      rw [hi] at h
      cases h
  | some i =>
      rw [hi] at h
      simp only at h
      have hsame : ∀ i', some i = some i' → ∃ i₀, some i = some i₀ ∧
          ∀ d' ∈ i'.settings.clients, ∃ d ∈ i₀.settings.clients,
            BulkWritten req now (req.emailsOn id) d d' := by
        rintro i' hi'
        cases hi'
        exact ⟨i, rfl, fun d hd => ⟨d, hd, Or.inl rfl⟩⟩
      split at h
      · split at h
        · cases h
          refine ⟨fun id' hid' => by rw [find?_saveClients, if_neg hid'], fun i' hi' => ⟨i, rfl, ?_⟩⟩
          rw [find?_saveClients, if_pos rfl, hi] at hi'
          cases hi'
          intro d' hd'
          obtain ⟨d, hd, rfl⟩ := List.mem_map.1 hd'
          exact ⟨d, (List.mem_filter.1 hd).1, Or.inr (Or.inl rfl)⟩
        · cases h
          exact ⟨fun _ _ => rfl, fun i' hi' => hsame i' (hi ▸ hi')⟩
      · split at h
        · cases h
          refine ⟨fun id' hid' => by rw [find?_saveClients, if_neg hid'], fun i' hi' => ⟨i, rfl, ?_⟩⟩
          rw [find?_saveClients, if_pos rfl, hi] at hi'
          cases hi'
          intro d' hd'
          obtain ⟨d, hd, rfl⟩ := List.mem_map.1 hd'
          exact ⟨d, hd, bulkEntry_written req now _ d⟩
        · cases h
          exact ⟨fun _ _ => rfl, fun i' hi' => hsame i' (hi ▸ hi')⟩

/-- The inbounds of a batch, each visited once. -/
theorem foldlM_bulkInbound_written {ids : List Nat} (hnodup : ids.Nodup)
    (h : ids.foldlM (bulkInbound order req now) r = some s) {id : Nat} {i' : Inbound}
    (hi' : s.inbounds.find? id = some i') :
    (id ∉ ids → r.inbounds.find? id = some i') ∧ ∃ i, r.inbounds.find? id = some i ∧
      ∀ d' ∈ i'.settings.clients, ∃ d ∈ i.settings.clients,
        BulkWritten req now (req.emailsOn id) d d' := by
  induction ids generalizing r with
  | nil =>
      cases h
      exact ⟨fun _ => hi', i', hi', fun d hd => ⟨d, hd, Or.inl rfl⟩⟩
  | cons id₀ ids ih =>
      rw [List.nodup_cons] at hnodup
      rw [List.foldlM_cons] at h
      obtain ⟨r', hr', hs⟩ := Option.bind_eq_some_iff.1 h
      obtain ⟨hother, hown⟩ := bulkInbound_written hr'
      obtain ⟨hleft, hwritten⟩ := ih hnodup.2 hs
      by_cases hid : id = id₀
      · subst hid
        exact ⟨fun hmem => absurd List.mem_cons_self hmem, hown i' (hleft hnodup.1)⟩
      · rw [hother id hid] at hleft hwritten
        exact ⟨fun hmem => hleft fun hin => hmem (List.mem_cons_of_mem _ hin), hwritten⟩

theorem bulkUpdateClients_written (order : MapOrder) (req : BulkClientUpdateRequest) (now : Int)
    (r : Roster) {id : Nat} {i' : Inbound}
    (hi' : (bulkUpdateClients order r req now).1.inbounds.find? id = some i') :
    ∃ i, r.inbounds.find? id = some i ∧ ∀ d' ∈ i'.settings.clients, ∃ d ∈ i.settings.clients,
      BulkWritten req now (req.emailsOn id) d d' := by
  have hnodup : (order.ids req.inboundIds).Nodup :=
    (order.ids_perm req.inboundIds).nodup_iff.2 (List.nodup_dedup _)
  have hleft : r.inbounds.find? id = some i' → ∃ i, r.inbounds.find? id = some i ∧
      ∀ d' ∈ i'.settings.clients, ∃ d ∈ i.settings.clients,
        BulkWritten req now (req.emailsOn id) d d' :=
    fun hi => ⟨i', hi, fun d hd => ⟨d, hd, Or.inl rfl⟩⟩
  unfold bulkUpdateClients at hi'
  split at hi'
  · exact hleft hi'
  · split at hi'
    · exact hleft hi'
    · rename_i s hs
      exact (foldlM_bulkInbound_written hnodup hs hi').2

theorem mem_bulkEdits {edit : String × Map} :
    edit ∈ bulkEdits order req now r ↔ ∃ id ∈ req.inboundIds, ∃ i ∈ r.inbounds.find? id,
      ∃ d ∈ i.settings.clients, bulkEdit req now (req.emailsOn id) d = some edit.2 ∧
        d.str "email" = edit.1 := by
  unfold bulkEdits
  rw [List.mem_flatMap]
  simp only [(order.ids_perm req.inboundIds).mem_iff]
  refine exists_congr fun id => and_congr_right fun _ => ?_
  unfold editsOn
  cases r.inbounds.find? id with
  | none => simp
  | some i =>
      obtain ⟨email, cm⟩ := edit
      simp only [List.mem_filterMap, Option.map_eq_some_iff, Option.mem_some_iff, Prod.mk.injEq]
      constructor
      · rintro ⟨d, hd, cm', hcm, hemail, rfl⟩
        exact ⟨i, rfl, d, hd, hcm, hemail⟩
      · rintro ⟨i', rfl, d, hd, hcm, hemail⟩
        exact ⟨d, hd, cm, hcm, hemail, rfl⟩

theorem bulkUpdateClients_stamped (order : MapOrder) (req : BulkClientUpdateRequest) (now : Int)
    (r : Roster) {ct' : ClientTraffic}
    (hct' : (bulkUpdateClients order r req now).1.traffics.find? ct'.email = some ct') :
    BulkStamped req now r ct' := by
  cases hres : bulkUpdateClients order r req now with
  | mk s reply =>
      rw [hres] at hct'
      cases reply with
      | error f =>
          -- a refused batch leaves the roster as it was
          have hsame : s = r := by
            unfold bulkUpdateClients at hres
            split at hres
            · cases hres
              rfl
            · split at hres
              · cases hres
                rfl
              · cases hres
          rw [hsame] at hct'
          exact ⟨ct', hct', Or.inl rfl⟩
      | ok u =>
          by_cases hop : req.op = .delete
          · exact ⟨ct', ((bulkDelete_rows hop (bulkUpdateClients_ok hop hres) _ _).1 hct').1, Or.inl rfl⟩
          · rw [bulk_rows hop hres] at hct'
            obtain ⟨ct, hct, hrow⟩ := Option.map_eq_some_iff.1 hct'
            refine ⟨ct, hct, ?_⟩
            cases hlast : lastEdit (bulkEdits order req now r) ct'.email with
            | none =>
                rw [hlast] at hrow
                exact Or.inl hrow.symm
            | some cm =>
                rw [hlast] at hrow
                obtain ⟨⟨email, cm₁⟩, hmem, hcm⟩ := Option.map_eq_some_iff.1 hlast
                obtain ⟨hmem, hemail⟩ := List.mem_filter.1 (List.mem_of_getLast? hmem)
                obtain ⟨id, -, i, hi, d, hd, hedit, hd'⟩ := mem_bulkEdits.1 hmem
                refine Or.inr ⟨id, i, d, cm₁, hi, hd, hedit, hd'.trans (of_decide_eq_true hemail), ?_⟩
                rw [← hrow, ← hcm]
                rfl

/-- The amounts of the request go the way the operation is named and nothing overflows:
days are added in a positive number, and a deadline that is frozen has not passed. -/
def BulkClientUpdateRequest.InOrder (req : BulkClientUpdateRequest) (now expiry : Int) : Prop :=
  match req.op with
  | .addDays => 0 < req.days ∧ FitsInt64 (req.days * bulkMsPerDay) ∧
      FitsInt64 (if 0 < expiry then expiry + req.days * bulkMsPerDay
        else if expiry < 0 then expiry - req.days * bulkMsPerDay else now + req.days * bulkMsPerDay)
  | .freeze => 0 < expiry → now < expiry ∧ FitsInt64 (now - expiry)
  | .unfreeze => FitsInt64 (now - expiry)
  | _ => True

/-- The deadline of an account that has none: added days count from now, and a freeze
leaves its mark. -/
def BulkClientUpdateRequest.given (req : BulkClientUpdateRequest) (now : Int) : Option Int :=
  match req.op with
  | .addDays => some (now + req.days * bulkMsPerDay)
  | .freeze => some frozenNoExpiry
  | _ => none

/-- The deadline is not earlier, or was missing and is given by the operation.  Unfreezing
starts the time that was locked at once. -/
def KeepsDeadline (req : BulkClientUpdateRequest) (now expiry expiry' : Int) : Prop :=
  (expiry = 0 ∧ req.given now = some expiry') ∨
    ∀ firstUse, now ≤ firstUse → (req.op = .unfreeze → firstUse = now) →
      dueAt expiry firstUse ≤ dueAt expiry' firstUse

theorem addDays_keepsDeadline {expiry : Int} (hop : req.op = .addDays)
    (h : req.InOrder now expiry) : KeepsDeadline req now expiry (req.leavesExpiry now expiry) := by
  unfold BulkClientUpdateRequest.InOrder at h
  unfold KeepsDeadline BulkClientUpdateRequest.given BulkClientUpdateRequest.leavesExpiry
  rw [hop] at h ⊢
  obtain ⟨hdays, hms, hfits⟩ := h
  have hpos : 0 < req.days * bulkMsPerDay := Int.mul_pos hdays (by decide)
  simp only [int64_of_fits hms, int64_of_fits hfits]
  rcases lt_trichotomy expiry 0 with he | he | he
  · refine Or.inr fun firstUse _ _ => ?_
    rw [if_neg (by omega), if_pos he, dueAt_of_neg he, dueAt_of_neg (by omega)]
    exact WithTop.coe_le_coe.2 (by omega)
  · refine Or.inl ⟨he, ?_⟩
    rw [if_neg (by omega), if_neg (by omega)]
  · refine Or.inr fun firstUse _ _ => ?_
    rw [if_pos he, dueAt_of_pos he, dueAt_of_pos (by omega)]
    exact WithTop.coe_le_coe.2 (by omega)

theorem freeze_keepsDeadline {expiry : Int} (hop : req.op = .freeze)
    (h : req.InOrder now expiry) : KeepsDeadline req now expiry (req.leavesExpiry now expiry) := by
  unfold BulkClientUpdateRequest.InOrder at h
  unfold KeepsDeadline BulkClientUpdateRequest.given BulkClientUpdateRequest.leavesExpiry
  rw [hop] at h ⊢
  simp only
  rcases lt_trichotomy expiry 0 with he | he | he
  · refine Or.inr fun firstUse _ _ => ?_
    rw [if_neg (by omega), if_neg (by omega)]
  · refine Or.inl ⟨he, ?_⟩
    rw [if_neg (by omega), if_pos he]
  · obtain ⟨hleft, hfits⟩ := h he
    refine Or.inr fun firstUse hfirst _ => ?_
    rw [if_pos he, int64_of_fits hfits, dueAt_of_pos he, dueAt_of_neg (by omega)]
    exact WithTop.coe_le_coe.2 (by omega)

theorem unfreeze_keepsDeadline {expiry : Int} (hop : req.op = .unfreeze) (hnow : 0 ≤ now)
    (h : req.InOrder now expiry) : KeepsDeadline req now expiry (req.leavesExpiry now expiry) := by
  unfold BulkClientUpdateRequest.InOrder at h
  unfold KeepsDeadline BulkClientUpdateRequest.leavesExpiry
  rw [hop] at h ⊢
  simp only at h ⊢
  refine Or.inr fun firstUse _ hfirst => ?_
  rw [hfirst trivial]
  split
  · exact le_top
  · split
    · rename_i he
      rw [int64_of_fits h, dueAt_of_neg he, dueAt_of_pos (by omega)]
    · exact le_rfl

/-- An operation a reseller may run keeps the deadline of each entry it edits. -/
theorem edit_keepsDeadline {expiry : Int} (hop : req.op ≠ .subDays) (hnow : 0 ≤ now)
    (h : req.InOrder now expiry) : KeepsDeadline req now expiry (req.leavesExpiry now expiry) := by
  have hleft : req.leavesExpiry now expiry = expiry →
      KeepsDeadline req now expiry (req.leavesExpiry now expiry) := by
    intro hsame
    rw [hsame]
    exact Or.inr fun _ _ _ => le_rfl
  cases hreq : req.op with
  | addDays => exact addDays_keepsDeadline hreq h
  | freeze => exact freeze_keepsDeadline hreq h
  | unfreeze => exact unfreeze_keepsDeadline hreq hnow h
  | subDays => exact absurd hreq hop
  | addTraffic | subTraffic | enable | disable | delete | unknown _ =>
      apply hleft
      unfold BulkClientUpdateRequest.leavesExpiry
      rw [hreq]

end Batch

section Accepted

variable [Runtime] {w : World} {userId : Nat} {order walk : MapOrder} {req sent : BulkClientUpdateRequest}
  {now : Int} {l : Ledger} {t : BulkTicket}

/-- A request that is accepted does not take days off, and only loses targets. -/
theorem prepareBulk_sent (h : w.prepareBulk userId order req now = .ok (l, sent, t)) :
    req.op ≠ .subDays ∧ ∃ targets, sent = { req with targets } := by
  unfold World.prepareBulk at h
  split at h
  · cases h
  rename_i p hp
  split at h
  · cases h
  rename_i u hallowed
  refine ⟨?_, ?_⟩
  · intro hop
    rw [bulkOpAllowed, hop] at hallowed
    cases hallowed
  · simp only at h
    split at h
    · cases h
      split
      · exact ⟨_, rfl⟩
      · exact ⟨_, rfl⟩
    · split at h
      · cases h
      split at h
      · cases h
      cases h
      exact ⟨_, rfl⟩

/-- The entries a batch of a reseller leaves: each is an entry the inbound had, perhaps
written back, or an edit of one that keeps its deadline.  A row is as it was or takes the
deadline of an edited entry, and keeps its own where it agreed with that entry. -/
theorem bulk_deadlines_kept (haccepted : w.prepareBulk userId order req now = .ok (l, sent, t))
    (hnow : 0 ≤ now) :
    (∀ id, ∀ i' ∈ (bulkUpdateClients walk w.roster sent now).1.inbounds.find? id,
      ∃ i ∈ w.roster.inbounds.find? id, ∀ d' ∈ i'.settings.clients, ∃ d ∈ i.settings.clients,
        d' = d ∨ d' = rewrite d ∨ ∃ cm, applyBulkClientOp (Doc.toMap d) req now = some cm ∧
          d' = Map.marshal cm ∧ (req.InOrder now ((Doc.toMap d).int64 "expiryTime") →
            KeepsDeadline req now ((Doc.toMap d).int64 "expiryTime") (cm.int64 "expiryTime"))) ∧
    ∀ email, ∀ ct' ∈ (bulkUpdateClients walk w.roster sent now).1.traffics.find? email,
      ∃ ct ∈ w.roster.traffics.find? email, ct' = ct ∨
        ∃ id, ∃ i ∈ w.roster.inbounds.find? id, ∃ d ∈ i.settings.clients, d.str "email" = email ∧
          (applyBulkClientOp (Doc.toMap d) req now).map (·.int64 "expiryTime") = some ct'.expiryTime ∧
          (req.InOrder now ((Doc.toMap d).int64 "expiryTime") →
            KeepsDeadline req now ((Doc.toMap d).int64 "expiryTime") ct'.expiryTime) ∧
          ((Doc.toMap d).int64 "expiryTime" = ct.expiryTime → req.InOrder now ct.expiryTime →
            KeepsDeadline req now ct.expiryTime ct'.expiryTime) := by
  obtain ⟨hop, targets, hsent⟩ := prepareBulk_sent haccepted
  have hedit : ∀ {emails d cm}, bulkEdit sent now emails d = some cm →
      applyBulkClientOp (Doc.toMap d) req now = some cm ∧
        (req.InOrder now ((Doc.toMap d).int64 "expiryTime") →
          KeepsDeadline req now ((Doc.toMap d).int64 "expiryTime") (cm.int64 "expiryTime")) := by
    intro emails d cm hcm
    -- the operation does not look at the targets
    have hcm' : applyBulkClientOp (Doc.toMap d) req now = some cm := by
      rw [← bulkEdit_eq hcm, hsent]
      rfl
    refine ⟨hcm', fun horder => ?_⟩
    rw [applyBulkClientOp_expiry hcm']
    exact edit_keepsDeadline hop hnow horder
  refine ⟨fun id i' hi' => ?_, fun email ct' hct' => ?_⟩
  · obtain ⟨i, hi, hwritten⟩ := bulkUpdateClients_written walk sent now w.roster hi'
    refine ⟨i, hi, fun d' hd' => ?_⟩
    obtain ⟨d, hd, hleft | hback | ⟨cm, hcm, hmarshal⟩⟩ := hwritten d' hd'
    · exact ⟨d, hd, Or.inl hleft⟩
    · exact ⟨d, hd, Or.inr (Or.inl hback)⟩
    · exact ⟨d, hd, Or.inr (Or.inr ⟨cm, (hedit hcm).1, hmarshal, (hedit hcm).2⟩)⟩
  · have hemail : ct'.email = email := (Table.find?_some hct').2
    subst hemail
    obtain ⟨ct, hct, hleft | ⟨id, i, d, cm, hi, hd, hcm, hname, hexpiry⟩⟩ :=
      bulkUpdateClients_stamped walk sent now w.roster hct'
    · exact ⟨ct, hct, Or.inl hleft⟩
    · have hkeeps := (hedit hcm).2
      rw [← hexpiry] at hkeeps
      refine ⟨ct, hct, Or.inr ⟨id, i, hi, d, hd, hname, ?_, hkeeps, fun hagree horder => ?_⟩⟩
      · rw [(hedit hcm).1, hexpiry]
        rfl
      · rw [← hagree] at horder ⊢
        exact hkeeps horder

end Accepted

/-- A day for kim. -/
def dayForKim : BulkClientUpdateRequest := { op := .addDays, days := 1, targets := [⟨1, "kim"⟩] }

/-- Reseller 1 has sold kim, whose entry and whose row have a deadline each. -/
def kimDue (entry row : Int) : World where
  roster := {
    inbounds := .single { id := 1, settings := { clients := [stored [("email", .str "kim"),
      ("id", .str "u"), ("expiryTime", .num ⟨entry, true⟩), ("enable", .bool true)]] } }
    traffics := .single { email := "kim", inboundId := 1, expiryTime := row } }
  ledger := {
    profiles := .single { userId := 1, allowanceBytes := 100 }
    clients := .single { email := "kim", inboundId := 1, userId := 1 } }

/-- Kim has ten days; the batch is accepted, and moves the row's deadline a day on. -/
theorem dayForKim_given :
    @World.prepareBulk Runtime.ascii (kimDue 864000000 864000000) 1 .inserted dayForKim 5 =
        .ok ((kimDue 864000000 864000000).ledger, dayForKim, {}) ∧
      ((bulkUpdateClients .inserted (kimDue 864000000 864000000).roster dayForKim 5).1.traffics.find? "kim").map
        (·.expiryTime) = some 950400000 ∧
      KeepsDeadline dayForKim 5 864000000 950400000 := by
  have haccepted : @World.prepareBulk Runtime.ascii (kimDue 864000000 864000000) 1 .inserted dayForKim 5 =
      .ok ((kimDue 864000000 864000000).ledger, dayForKim, {}) := rfl
  have hrow : ((bulkUpdateClients .inserted (kimDue 864000000 864000000).roster dayForKim 5).1.traffics.find?
      "kim").map (·.expiryTime) = some 950400000 := by decide +kernel
  obtain ⟨ct', hct', hexpiry⟩ := Option.map_eq_some_iff.1 hrow
  obtain ⟨ct, hct, hleft | ⟨id, i, hi, d, hd, -, -, -, hkeeps⟩⟩ :=
    (@bulk_deadlines_kept Runtime.ascii _ _ _ .inserted _ _ _ _ _ haccepted (by decide)).2 "kim" ct' hct'
  · cases hct
    subst hleft
    exact absurd hexpiry (by decide)
  · have hi' := List.mem_singleton.1 (Table.find?_some hi).1
    subst hi'
    rw [List.mem_singleton.1 hd, hexpiry] at hkeeps
    cases hct
    have horder : dayForKim.InOrder 5 864000000 := ⟨by decide, by decide, by decide⟩
    exact ⟨haccepted, hrow, hkeeps (by decide +kernel) horder⟩

/-- Adding a day to an account without a deadline ends it a day from now, and a row takes
the deadline of the entry, here an earlier one. -/
theorem added_day_ends_account :
    @World.prepareBulk Runtime.ascii (kimDue 0 0) 1 .inserted dayForKim 5 =
        .ok ((kimDue 0 0).ledger, dayForKim, {}) ∧
      ((bulkUpdateClients .inserted (kimDue 0 0).roster dayForKim 5).1.traffics.find? "kim").map
        (·.expiryTime) = some 86400005 ∧
      (∀ firstUse, dueAt 86400005 firstUse < dueAt 0 firstUse) ∧
    @World.prepareBulk Runtime.ascii (kimDue 864000000 8640000000) 1 .inserted dayForKim 5 =
        .ok ((kimDue 864000000 8640000000).ledger, dayForKim, {}) ∧
      ((bulkUpdateClients .inserted (kimDue 864000000 8640000000).roster dayForKim 5).1.traffics.find?
        "kim").map (·.expiryTime) = some 950400000 ∧
      ∀ firstUse, dueAt 950400000 firstUse < dueAt 8640000000 firstUse := by
  refine ⟨rfl, by decide +kernel, fun firstUse => ?_, rfl, by decide +kernel, fun firstUse => ?_⟩
  · exact WithTop.coe_lt_top _
  · rw [dueAt_of_pos (by decide), dueAt_of_pos (by decide)]
    exact WithTop.coe_lt_coe.2 (by decide)

end Simorgh.Panel
