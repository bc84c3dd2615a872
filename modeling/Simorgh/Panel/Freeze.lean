import Simorgh.Lib.Run
import Simorgh.Panel.Carry

/-!
# Freezing an account

A frozen account is switched off, and its entry holds the time that was left as a negative
number, the form of a delayed start; `-1` stands for an account without a deadline.

* `freeze_restores` — an account with more than a millisecond left, frozen and taken up
  again, has the time that was left, when no tick between the two carries a record of it;
  and freezing it twice is freezing it once.
* `frozen_account_runs` — a tick with a record of it starts its clock.
-/

namespace Simorgh.Panel

open Simorgh.Lib Simorgh.Lib.Json

/-! ## One account of a bulk operation -/

/-- The inbounds as a roster has them, with the counters they had. -/
def Db.withRoster (db : Db) (r : Roster) : Db where
  inbounds := db.inbounds.updateWhere (fun _ => true)
    (fun i => ((r.inbounds.find? i.id).map fun b => { i with base := { b with id := i.base.id } }).getD i)
    fun i => by cases r.inbounds.find? i.id <;> rfl
  traffics := r.traffics
  clientIps := db.clientIps

/-- An operation on one account. -/
def onlyClient (op : BulkOp) (id : Nat) (email : String) : BulkClientUpdateRequest :=
  { op, targets := [⟨id, email⟩] }

/-- `BulkUpdateClients` for one account. -/
def Db.bulkOne (db : Db) (op : BulkOp) (id : Nat) (email : String) (now : Int) : Db :=
  db.withRoster (bulkUpdateClients .inserted db.roster (onlyClient op id email) now).1

/-- One account is frozen. -/
def Db.freeze (db : Db) (id : Nat) (email : String) (now : Int) : Db := db.bulkOne .freeze id email now

/-- One account is unfrozen. -/
def Db.unfreeze (db : Db) (id : Nat) (email : String) (now : Int) : Db := db.bulkOne .unfreeze id email now

/-- A tick none of whose statements fails. -/
def Db.tick (db : Db) (t : Host × Batch) : Db := (tickOutcome t.1 t.2 db none).1

/-- An entry of an inbound. -/
def Db.entryAt (db : Db) (id k : Nat) : Option Doc :=
  (db.inbounds.find? id).bind fun i => i.base.settings.clients[k]?

/-- The deadline the panel reads off an entry. -/
def deadline (d : Doc) : Int := (Doc.toMap d).int64 "expiryTime"

/-- The time left of a deadline: a delayed start has not begun to run. -/
def remaining (expiry now : Int) : Int := if 0 < expiry then expiry - now else -expiry

/-- The deadline after a freeze at `t₁` and an unfreeze at `t₂`. -/
def Restored (expiry t₁ t₂ expiry' : Int) : Prop :=
  if expiry = 0 then expiry' = 0 else expiry' - t₂ = remaining expiry t₁

/-- An int64 that a float64 has exactly. -/
def Plain (n : Int) : Prop := FitsInt64 n ∧ float64 n = n

instance (n : Int) : Decidable (Plain n) := inferInstanceAs (Decidable (_ ∧ _))

/-- The account has no deadline, or more than a millisecond left.  The numbers that are
written are read back as they are. -/
structure Lockable (d : Doc) (t₁ t₂ : Int) : Prop where
  left : deadline d ≠ 0 → 1 < remaining (deadline d) t₁
  plain : deadline d ≠ 0 → Plain (-remaining (deadline d) t₁) ∧ Plain (t₂ + remaining (deadline d) t₁)
  integral : deadline d < 0 → (Doc.toMap d).get? "expiryTime" = some (.num (.float (deadline d)))

/-! ## Entries that are written back -/

theorem get?_toMap_marshal (m : Map) (k : String) :
    (Doc.toMap (Map.marshal m)).get? k = (m.get? k).map (Val.map fun n => n.print.toNum) := by
  rw [Doc.toMap, Map.marshal, Obj.get?_mapNum, Obj.get?_mapNum, Option.map_map]
  congr 1
  funext v
  cases v <;> rfl

/-- A number that float64 has is read back as it was, however it is held. -/
theorem toNum_print_float {n : Int} (h : Plain n) : (Num.print (.float n)).toNum = .float n := by
  have hrange : |(n : ℚ)| < 10 ^ 21 := by
    rw [abs_lt]
    constructor
    · have hn : (-10 ^ 21 : Int) < n := by have := h.1.1; omega
      exact_mod_cast hn
    · have hn : n < (10 ^ 21 : Int) := by have := h.1.2; omega
      exact_mod_cast hn
  rw [Num.print, if_pos ⟨Rat.den_intCast n, hrange⟩, Lit.toNum, Rat.num_intCast,
    float64_shortestInt h.2]

theorem toNum_print_int {n : Int} (h : Plain n) : (Num.print (.int n)).toNum = .float n := by
  rw [Num.print, Lit.toNum, h.2]

theorem deadline_of_float {d : Doc} {n : Int} (hn : Plain n)
    (h : (Doc.toMap d).get? "expiryTime" = some (.num (.float n))) : deadline d = n := by
  rw [deadline, Map.int64, h]
  exact floatToInt64_intCast hn.1

/-- The entry of a frozen account. -/
structure Locked (email : String) (n : Int) (d : Doc) : Prop where
  email : d.get? "email" = some (.str email)
  enable : (Doc.toMap d).bool "enable" = false
  expiry : (Doc.toMap d).get? "expiryTime" = some (.num (.float n))

theorem get?_email_iterate {email : String} {d : Doc} (h : d.get? "email" = some (.str email)) (n : Nat) :
    (rewrite^[n] d).get? "email" = some (.str email) := by
  induction n with
  | zero => exact h
  | succ n ih =>
      rw [Function.iterate_succ_apply']
      exact get?_rewrite ih

theorem str_of_get? {email : String} {d : Doc} (h : d.get? "email" = some (.str email)) :
    d.str "email" = email := by
  rw [Obj.str, h]
  rfl

theorem Locked.rewrite {email : String} {n : Int} {d : Doc} (hn : Plain n) (h : Locked email n d) :
    Locked email n (Panel.rewrite d) where
  email := get?_rewrite h.email
  enable := by
    rw [Panel.rewrite, Map.marshal, Doc.toMap, Obj.bool_mapNum, Obj.bool_mapNum]
    exact h.enable
  expiry := by
    rw [Panel.rewrite, get?_toMap_marshal, h.expiry, Option.map_some, Val.map, toNum_print_float hn]

/-! ## What a tick does to an account it has no record of -/

/-- The entry of the account is at most written back. -/
def SparedEntry (email : String) (d d' : Doc) : Prop :=
  d.get? "email" = some (.str email) → ∃ n, d' = rewrite^[n] d

theorem SparedEntry.refl (email : String) (d : Doc) : SparedEntry email d d := fun _ => ⟨0, rfl⟩

theorem SparedEntry.rewrite (email : String) (d : Doc) : SparedEntry email d (Panel.rewrite d) :=
  fun _ => ⟨1, rfl⟩

theorem SparedEntry.trans {email : String} {d d' d'' : Doc} (h : SparedEntry email d d')
    (h' : SparedEntry email d' d'') : SparedEntry email d d'' := by
  intro hemail
  obtain ⟨n, rfl⟩ := h hemail
  obtain ⟨m, rfl⟩ := h' (get?_email_iterate hemail n)
  exact ⟨m + n, (Function.iterate_add_apply _ m n d).symm⟩

/-- An inbound row in which the others' entries are left. -/
structure SparedRow (email : String) (i i' : InboundRow) : Prop where
  id : i'.id = i.id
  clients : List.Forall₂ (SparedEntry email) i.base.settings.clients i'.base.settings.clients

theorem SparedRow.refl (email : String) (i : InboundRow) : SparedRow email i i :=
  ⟨rfl, List.forall₂_same.2 fun d _ => SparedEntry.refl email d⟩

theorem SparedRow.trans {email : String} {i i' i'' : InboundRow} (h : SparedRow email i i')
    (h' : SparedRow email i' i'') : SparedRow email i i'' :=
  ⟨h'.id.trans h.id, forall₂_trans h.clients h'.clients fun _ _ _ => SparedEntry.trans⟩

/-- The account's entries are at most written back, and its row keeps its deadline. -/
structure Spared (email : String) (db db' : Db) : Prop where
  inbounds : List.Forall₂ (SparedRow email) db.inbounds.rows db'.inbounds.rows
  expiry : (db'.traffics.find? email).map (·.expiryTime) = (db.traffics.find? email).map (·.expiryTime)

theorem Spared.refl (email : String) (db : Db) : Spared email db db :=
  ⟨List.forall₂_same.2 fun i _ => SparedRow.refl email i, rfl⟩

theorem Spared.trans {email : String} {db db' db'' : Db} (h : Spared email db db')
    (h' : Spared email db' db'') : Spared email db db'' :=
  ⟨forall₂_trans h.inbounds h'.inbounds fun _ _ _ => SparedRow.trans, h'.expiry.trans h.expiry⟩

section Stages

variable {email : String} {now : Int} {rows rows' : List ClientTraffic}

theorem startEntry_spares {d d' : Doc} (hrows : email ∉ rows.map (·.email))
    (h : startEntry now rows d = some (rows', d')) : SparedEntry email d d' := by
  unfold startEntry at h
  split at h
  · cases h
    exact SparedEntry.rewrite email d
  case h_2 k hk =>
    -- the row that starts is not the account's
    intro hemail
    obtain ⟨hlt, hrow, -⟩ := List.findIdx?_eq_some_iff_getElem.1 hk
    rw [Bool.and_eq_true, decide_eq_true_iff, decide_eq_true_iff, hemail, Option.some.injEq,
      Val.str.injEq] at hrow
    exact absurd (List.mem_map.2 ⟨_, List.getElem_mem hlt, hrow.2.symm⟩) hrows

theorem startEntries_spares {ds ds' : List Doc} (hrows : email ∉ rows.map (·.email))
    (h : startEntries now rows ds = some (rows', ds')) : List.Forall₂ (SparedEntry email) ds ds' := by
  induction ds generalizing rows rows' ds' with
  | nil =>
      cases h
      exact .nil
  | cons d ds ih =>
      simp only [startEntries, Option.bind_eq_bind, Option.bind_eq_some_iff, Option.some.injEq,
        Prod.mk.injEq, Prod.exists] at h
      obtain ⟨rows₁, d₁, hentry, rows₂, ds₂, hrest, -, rfl⟩ := h
      have hrows₁ : email ∉ rows₁.map (·.email) := by
        rw [(startEntry_carries hentry).1.emails]
        exact hrows
      exact .cons (startEntry_spares hrows hentry) (ih hrows₁ hrest)

theorem startInbounds_spares {is is' : List InboundRow} (hrows : email ∉ rows.map (·.email))
    (h : startInbounds now rows is = some (rows', is')) : List.Forall₂ (SparedRow email) is is' := by
  induction is generalizing rows rows' is' with
  | nil =>
      cases h
      exact .nil
  | cons i is ih =>
      simp only [startInbounds, Option.bind_eq_bind, Option.bind_eq_some_iff, Option.some.injEq,
        Prod.mk.injEq, Prod.exists] at h
      obtain ⟨rows₁, clients, hentries, rows₂, is₂, hrest, -, rfl⟩ := h
      have hrows₁ : email ∉ rows₁.map (·.email) := by
        rw [(startEntries_carries hentries).1.emails]
        exact hrows
      exact .cons ⟨rfl, startEntries_spares hrows hentries⟩ (ih hrows₁ hrest)

theorem renewEntry_spares {i : InboundRow} {d d' : Doc} {users : List UserToAdd}
    (hrows : email ∉ rows.map (·.email)) (h : renewEntry now i rows d = some (rows', d', users)) :
    SparedEntry email d d' := by
  intro hemail
  have hnone : rows.find? (fun ct => decide (ct.email = email)) = none := by
    rw [List.find?_eq_none]
    intro ct hct heq
    exact hrows (List.mem_map.2 ⟨ct, hct, of_decide_eq_true heq⟩)
  simp only [renewEntry, hemail, hnone, Option.some.injEq, Prod.mk.injEq] at h
  exact ⟨1, h.2.1.symm⟩

theorem renewEntries_spares {i : InboundRow} {ds ds' : List Doc} {users : List UserToAdd}
    (hrows : email ∉ rows.map (·.email)) (h : renewEntries now i rows ds = some (rows', ds', users)) :
    List.Forall₂ (SparedEntry email) ds ds' := by
  induction ds generalizing rows rows' ds' users with
  | nil =>
      cases h
      exact .nil
  | cons d ds ih =>
      simp only [renewEntries, Option.bind_eq_bind, Option.bind_eq_some_iff, Option.some.injEq,
        Prod.mk.injEq, Prod.exists] at h
      obtain ⟨rows₁, d₁, users₁, hentry, rows₂, ds₂, users₂, hrest, -, rfl, -⟩ := h
      have hrows₁ : email ∉ rows₁.map (·.email) := by
        rw [(renewEntry_carries hentry).1.emails]
        exact hrows
      exact .cons (renewEntry_spares hrows hentry) (ih hrows₁ hrest)

theorem renewInbounds_spares {is is' : List InboundRow} {users : List UserToAdd}
    (hrows : email ∉ rows.map (·.email)) (h : renewInbounds now rows is = some (rows', is', users)) :
    List.Forall₂ (SparedRow email) is is' := by
  induction is generalizing rows rows' is' users with
  | nil =>
      cases h
      exact .nil
  | cons i is ih =>
      simp only [renewInbounds, Option.bind_eq_bind, Option.bind_eq_some_iff, Option.some.injEq,
        Prod.mk.injEq, Prod.exists] at h
      obtain ⟨rows₁, clients, users₁, hentries, rows₂, is₂, users₂, hrest, -, rfl, -⟩ := h
      have hrows₁ : email ∉ rows₁.map (·.email) := by
        rw [(renewEntries_carries hentries).1.emails]
        exact hrows
      exact .cons ⟨rfl, renewEntries_spares hrows hentries⟩ (ih hrows₁ hrest)

/-- Rows written back one by one leave the row of an account that is not among them. -/
theorem find?_foldl_modify_other {f : ClientTraffic → ClientTraffic → ClientTraffic}
    (hf : ∀ ct old, (f ct old).email = old.email) (hrows : email ∉ rows.map (·.email))
    (t : Table ClientTraffic.email) :
    (rows.foldl (fun t ct => t.modify ct.email (f ct) (hf ct)) t).find? email = t.find? email := by
  rw [Table.find?_foldl_modify_filter hf]
  have hnil : rows.filter (fun ct => decide (ct.email = email)) = [] := by
    rw [List.filter_eq_nil_iff]
    intro ct hct heq
    exact hrows (List.mem_map.2 ⟨ct, hct, of_decide_eq_true heq⟩)
  rw [hnil]
  exact Option.map_id'

end Stages

section Ticks

variable {email : String} {db db' : Db}

theorem countInbounds_spares (ts : List Traffic) : Spared email db (db.countInbounds ts) := by
  refine ⟨?_, by rw [countInbounds_traffics]⟩
  unfold Db.countInbounds
  induction ts.filter (·.isInbound) generalizing db with
  | nil => exact (Spared.refl email db).inbounds
  | cons t ts ih =>
      refine forall₂_trans ?_ (@ih (db.countInbound t)) fun _ _ _ => SparedRow.trans
      simp only [Db.countInbound, Table.updateWhere, List.forall₂_map_right_iff]
      refine List.forall₂_same.2 fun i _ => ?_
      split
      · exact ⟨rfl, (SparedRow.refl email i).clients⟩
      · exact SparedRow.refl email i

theorem bookClients_spares {raw : Bool} {h : Host} {records : List ClientRecord}
    (hrecords : email ∉ records.map (·.email)) (hbook : db.bookClients raw h records = some db') :
    Spared email db db' := by
  simp only [Db.bookClients, Option.bind_eq_bind, Option.bind_eq_some_iff, Option.some.injEq,
    Prod.exists] at hbook
  obtain ⟨rows, inbounds, hstart, rfl⟩ := hbook
  have hbatch : email ∉ (batchRows records db).map (·.email) := by
    intro hmem
    obtain ⟨ct, hct, rfl⟩ := List.mem_map.1 hmem
    exact hrecords (of_decide_eq_true (List.mem_filter.1 hct).2)
  refine ⟨saveInbounds_forall₂ (SparedRow.refl email) (fun _ _ h => h.id)
    (startInbounds_spares hbatch hstart), ?_⟩
  refine congrArg _ (find?_foldl_modify_other ClientTraffic.over_email ?_ db.traffics)
  rw [(billRows_followed _ _ _).emails, (startInbounds_carries hstart).1.emails]
  exact hbatch

theorem renewClients_spares {h : Host} (hrow : ∀ ct ∈ db.traffics.find? email, ct.expiryTime < 0)
    (hrenew : db.renewClients h = some db') : Spared email db db' := by
  simp only [Db.renewClients, Option.bind_eq_bind, Option.bind_eq_some_iff, Option.some.injEq,
    Prod.exists] at hrenew
  obtain ⟨rows, inbounds, users, hinbounds, rfl⟩ := hrenew
  have hdue : email ∉ (db.traffics.rows.filter h.dueForRenewal).map (·.email) := by
    intro hmem
    obtain ⟨ct, hct, rfl⟩ := List.mem_map.1 hmem
    obtain ⟨hct, hdue⟩ := List.mem_filter.1 hct
    simp only [Host.dueForRenewal, Bool.and_eq_true, decide_eq_true_iff] at hdue
    have hneg := hrow ct (Table.find?_of_mem hct)
    omega
  rw [foldl_writeRenewal]
  refine ⟨saveInbounds_forall₂ (SparedRow.refl email) (fun _ _ h => h.id)
    (renewInbounds_spares hdue hinbounds), ?_⟩
  refine congrArg _ (find?_foldl_modify_other writeRenewal_email ?_ db.traffics)
  rw [(renewInbounds_carries hinbounds).1.emails]
  exact hdue

theorem disable_spares (h : Host) : Spared email db ((db.disableClients h).disableInbounds h) := by
  constructor
  · simp only [Db.disableInbounds, Db.disableClients, Table.updateWhere, List.forall₂_map_right_iff]
    refine List.forall₂_same.2 fun i _ => ?_
    split
    · exact ⟨rfl, (SparedRow.refl email i).clients⟩
    · exact SparedRow.refl email i
  · simp only [Db.disableInbounds, Db.disableClients, Table.find?_updateWhere, Option.map_map]
    congr 1
    funext ct
    simp only [Function.comp_apply]
    split <;> rfl

/-- A tick without a record of an account that has not started leaves it as it is. -/
theorem tick_spares {t : Host × Batch} (hrecords : email ∉ t.2.clients.map (·.email))
    (hrow : ∀ ct ∈ db.traffics.find? email, ct.expiryTime < 0) : Spared email db (db.tick t) := by
  obtain ⟨⟨now, xray⟩, b⟩ := t
  have hcounted : Spared email db (db.countInbounds b.inbounds) := countInbounds_spares b.inbounds
  have hneg : ∀ db', Spared email db db' → ∀ ct ∈ db'.traffics.find? email, ct.expiryTime < 0 := by
    intro db' hspared ct hct
    have hexpiry := hspared.expiry
    rw [Option.mem_def.1 hct, Option.map_some, eq_comm, Option.map_eq_some_iff] at hexpiry
    obtain ⟨ct₀, hct₀, heq⟩ := hexpiry
    rw [← heq]
    exact hrow ct₀ hct₀
  rcases tick_stages now b db with ⟨db', hdb', htick⟩ | ⟨booked, renewed, hbooked, hrenewed, htick⟩
  · rw [Db.tick, htick]
    rcases hdb' with rfl | hbooked
    · exact hcounted
    · exact hcounted.trans (bookClients_spares hrecords hbooked)
  · have hbook := hcounted.trans (bookClients_spares hrecords hbooked)
    rw [Db.tick, htick]
    refine Spared.trans ?_ (disable_spares _)
    rcases hrenewed with rfl | hrenewed
    · exact hbook
    · exact hbook.trans (renewClients_spares (hneg _ hbook) hrenewed)

end Ticks

/-! ## Freezing and unfreezing -/

section Bulk

variable {db : Db} {op : BulkOp} {id k : Nat} {email : String} {now : Int}

theorem withRoster_roster (db : Db) : db.withRoster db.roster = db := by
  have hrows : (db.withRoster db.roster).inbounds = db.inbounds := by
    refine Table.ext_rows ?_
    simp only [Db.withRoster, Table.updateWhere, if_true]
    refine (List.map_congr_left fun i hi => ?_).trans (List.map_id _)
    rw [find?_roster, show db.inbounds.find? i.id = some i from Table.find?_of_mem hi]
    rfl
  calc db.withRoster db.roster = ⟨(db.withRoster db.roster).inbounds, db.traffics, db.clientIps⟩ := rfl
    _ = db := by rw [hrows]

/-- The entries the operation applies to. -/
def edits (op : BulkOp) (id : Nat) (email : String) (now : Int) (d : Doc) : Option Map :=
  bulkEdit (onlyClient op id email) now [email] d

theorem edits_of_ne {d : Doc} (h : d.str "email" ≠ email) : edits op id email now d = none := by
  rw [edits, bulkEdit, if_pos (Or.inr (Or.inl fun hmem => h (List.mem_singleton.1 hmem)))]

theorem edits_of_email {d : Doc} (hemail : email ≠ "") (h : d.get? "email" = some (.str email)) :
    edits op id email now d = applyBulkClientOp (Doc.toMap d) (onlyClient op id email) now := by
  have hskip : bulkClientSkipped (Doc.toMap d) (onlyClient op id email) = false := rfl
  rw [edits, bulkEdit, str_of_get? h, if_neg]
  rintro (hnil | hmem | hskipped)
  · exact hemail hnil
  · exact hmem (List.mem_singleton.2 rfl)
  · rw [hskip] at hskipped
    cases hskipped

/-- The operation writes the entries of the inbound back, or does nothing. -/
theorem bulkOne_cases {i : InboundRow} (hop : op = .freeze ∨ op = .unfreeze) (hemail : email ≠ "")
    (hi : db.inbounds.find? id = some i) (now : Int) :
    (∀ d ∈ i.base.settings.clients, edits op id email now d = none) ∧
        db.bulkOne op id email now = db ∨
      (∃ d ∈ i.base.settings.clients, edits op id email now d ≠ none) ∧
        (db.bulkOne op id email now).inbounds.find? id = some (i.setClients
          (i.base.settings.clients.map (bulkEntry (onlyClient op id email) now [email]))) ∧
        (db.bulkOne op id email now).traffics =
          bulkRows (onlyClient op id email) now [email] db.traffics i.base.settings.clients := by
  have hids : (onlyClient op id email).inboundIds = [id] := by
    simp [BulkClientUpdateRequest.inboundIds, onlyClient, hemail]
  have hemails : (onlyClient op id email).emailsOn id = [email] := by
    simp [BulkClientUpdateRequest.emailsOn, onlyClient, hemail]
  have hfound : db.roster.inbounds.find? id = some i.base := by
    rw [find?_roster, hi]
    rfl
  have hdelete : (onlyClient op id email).op ≠ .delete := by
    rintro hdelete
    rcases hop with rfl | rfl <;> cases hdelete
  have hbulk : bulkUpdateClients .inserted db.roster (onlyClient op id email) now =
      (bulkInbound .inserted (onlyClient op id email) now db.roster id).elim
        (db.roster, .error (.refused "record not found")) fun r' => (r', .ok ()) := by
    rcases hop with rfl | rfl
    all_goals
      simp only [bulkUpdateClients, hids, MapOrder.inserted, id_eq, List.foldlM_cons, List.foldlM_nil]
      cases bulkInbound _ _ now db.roster id <;> rfl
  rw [Db.bulkOne, hbulk, bulkInbound, hfound]
  simp only [hemails, if_neg hdelete]
  by_cases hany : (i.base.settings.clients.any fun d =>
      (bulkEdit (onlyClient op id email) now [email] d).isSome) = true
  · rw [if_pos hany]
    obtain ⟨d, hd, hsome⟩ := List.any_eq_true.1 hany
    refine Or.inr ⟨⟨d, hd, Option.isSome_iff_ne_none.1 hsome⟩, ?_, rfl⟩
    simp only [Db.withRoster, Table.find?_updateWhere, hi, Option.map_some, Option.elim_some, if_true]
    rw [show i.id = id from (Table.find?_some hi).2, find?_saveClients, if_pos rfl, hfound]
    rfl
  · rw [if_neg hany]
    refine Or.inl ⟨fun d hd => ?_, withRoster_roster db⟩
    by_contra hne
    exact hany (List.any_eq_true.2 ⟨d, hd, Option.isSome_iff_ne_none.2 hne⟩)

/-- The rows of an inbound on which one entry carries the email. -/
theorem bulkRows_of_unique {clients : List Doc} {d : Doc} (hd : clients[k]? = some d)
    (hunique : ∀ j d', clients[j]? = some d' → d'.str "email" = email → j = k)
    (traffics : Table ClientTraffic.email) :
    bulkRows (onlyClient op id email) now [email] traffics clients =
      match edits op id email now d with
      | none => traffics
      | some cm => traffics.modify (d.str "email") (bulkRow cm) (bulkRow_email cm) := by
  have hskips : ∀ (ds : List Doc) (t : Table ClientTraffic.email),
      (∀ d' ∈ ds, d'.str "email" ≠ email) →
        bulkRows (onlyClient op id email) now [email] t ds = t := by
    intro ds
    induction ds with
    | nil => exact fun t _ => rfl
    | cons d' ds ih =>
        intro t hds
        have hnone : bulkEdit (onlyClient op id email) now [email] d' = none :=
          edits_of_ne (hds d' List.mem_cons_self)
        rw [bulkRows, List.foldl_cons, hnone]
        exact ih t fun d'' hd'' => hds d'' (List.mem_cons_of_mem d' hd'')
  have hsplit : clients = clients.take k ++ d :: clients.drop (k + 1) := by
    obtain ⟨hk, rfl⟩ := List.getElem?_eq_some_iff.1 hd
    rw [← List.drop_eq_getElem_cons hk, List.take_append_drop]
  have hbefore : ∀ d' ∈ clients.take k, d'.str "email" ≠ email := by
    intro d' hd' heq
    obtain ⟨j, hj⟩ := List.mem_iff_getElem?.1 hd'
    rw [List.getElem?_take] at hj
    split at hj
    · have hjk := hunique j d' hj heq
      omega
    · cases hj
  have hafter : ∀ d' ∈ clients.drop (k + 1), d'.str "email" ≠ email := by
    intro d' hd' heq
    obtain ⟨j, hj⟩ := List.mem_iff_getElem?.1 hd'
    rw [List.getElem?_drop] at hj
    have hjk := hunique _ d' hj heq
    omega
  have hpre := hskips _ traffics hbefore
  rw [bulkRows] at hpre ⊢
  rw [hsplit, List.foldl_append, hpre, List.foldl_cons, edits]
  cases bulkEdit (onlyClient op id email) now [email] d with
  | none => exact hskips _ _ hafter
  | some cm => exact hskips _ _ hafter

/-- The mark a freeze leaves in place of the deadline. -/
def lockedAt (expiry now : Int) : Int := if expiry = 0 then frozenNoExpiry else -remaining expiry now

theorem Lockable.lockedAt {d : Doc} {t₁ t₂ : Int} (h : Lockable d t₁ t₂) :
    lockedAt (deadline d) t₁ < 0 ∧ Plain (lockedAt (deadline d) t₁) := by
  unfold Panel.lockedAt
  split
  · exact ⟨by decide, by decide +kernel, by decide +kernel⟩
  case isFalse hne =>
    have hleft := h.left hne
    exact ⟨by omega, (h.plain hne).1⟩

theorem locked_marshal {n : Int} {cm : Map} {v : Json.Num} (hname : cm.get? "email" = some (.str email))
    (henable : cm.get? "enable" = some (.bool false))
    (hexpiry : cm.get? "expiryTime" = some (.num v)) (hv : v.print.toNum = .float n) :
    Locked email n (Map.marshal cm) where
  email := by
    rw [Map.marshal, Obj.get?_mapNum, hname]
    rfl
  enable := by
    rw [Map.marshal, Doc.toMap, Obj.bool_mapNum, Obj.bool_mapNum, Obj.bool, henable]
    rfl
  expiry := by
    rw [get?_toMap_marshal, hexpiry, Option.map_some, Val.map, hv]

theorem get?_email_toMap {d : Doc} (h : d.get? "email" = some (.str email)) :
    (Doc.toMap d).get? "email" = some (.str email) := by
  rw [Doc.toMap, Obj.get?_mapNum, h]
  rfl

/-- Freezing an entry: it is locked, and so is it when there is nothing to do. -/
theorem freeze_entry (id : Nat) {d : Doc} {t₁ t₂ : Int} (hemail : email ≠ "")
    (hname : d.get? "email" = some (.str email)) (h : Lockable d t₁ t₂) :
    (edits .freeze id email t₁ d = none ∧ deadline d < 0 ∧ Locked email (lockedAt (deadline d) t₁) d) ∨
      ∃ cm, edits .freeze id email t₁ d = some cm ∧
        Locked email (lockedAt (deadline d) t₁) (Map.marshal cm) ∧
        cm.int64 "expiryTime" = lockedAt (deadline d) t₁ := by
  have hmap := get?_email_toMap hname
  obtain ⟨-, hplain⟩ := h.lockedAt
  have hread : (Doc.toMap d).int64 "expiryTime" = deadline d := rfl
  rw [edits_of_email hemail hname]
  simp only [applyBulkClientOp, onlyClient, hread]
  rcases lt_trichotomy (deadline d) 0 with hneg | hzero | hpos
  · -- a delayed start keeps its value
    have hlocked : lockedAt (deadline d) t₁ = deadline d := by
      rw [lockedAt, if_neg hneg.ne, remaining, if_neg (not_lt.2 hneg.le), neg_neg]
    have hexpiry := h.integral hneg
    rw [hlocked] at hplain ⊢
    by_cases henable : (Doc.toMap d).bool "enable" = false
    · rw [if_pos ⟨henable, hneg⟩]
      exact Or.inl ⟨rfl, hneg, hname, henable, hexpiry⟩
    · rw [if_neg fun hboth => henable hboth.1, if_neg (not_lt.2 hneg.le), if_neg hneg.ne]
      refine Or.inr ⟨_, rfl, locked_marshal ?_ ?_ ?_ (toNum_print_float hplain), ?_⟩
      · rw [Obj.get?_set, if_neg (by decide), hmap]
      · rw [Obj.get?_set, if_pos rfl]
      · rw [Obj.get?_set, if_neg (by decide), hexpiry]
      · rw [Map.int64_set_of_ne (by decide), hread]
  · have hlocked : lockedAt (deadline d) t₁ = frozenNoExpiry := by rw [lockedAt, if_pos hzero]
    rw [hlocked] at hplain ⊢
    rw [if_neg fun hboth => hboth.2.ne hzero, if_neg hzero.not_gt, if_pos hzero]
    have hint : int64 frozenNoExpiry = frozenNoExpiry := int64_of_fits hplain.1
    rw [hint]
    refine Or.inr ⟨_, rfl, locked_marshal ?_ ?_ ?_ (toNum_print_int hplain), ?_⟩
    · rw [Obj.get?_set, if_neg (by decide), Obj.get?_set, if_neg (by decide), hmap]
    · rw [Obj.get?_set, if_pos rfl]
    · rw [Obj.get?_set, if_neg (by decide), Obj.get?_set, if_pos rfl]
    · rw [Map.int64_set_of_ne (by decide), Map.int64_set_int]
  · have hlocked : lockedAt (deadline d) t₁ = t₁ - deadline d := by
      rw [lockedAt, if_neg hpos.ne', remaining, if_pos hpos]
      omega
    rw [hlocked] at hplain ⊢
    rw [if_neg fun hboth => hboth.2.not_gt hpos, if_pos hpos, int64_of_fits hplain.1]
    refine Or.inr ⟨_, rfl, locked_marshal ?_ ?_ ?_ (toNum_print_int hplain), ?_⟩
    · rw [Obj.get?_set, if_neg (by decide), Obj.get?_set, if_neg (by decide), hmap]
    · rw [Obj.get?_set, if_pos rfl]
    · rw [Obj.get?_set, if_neg (by decide), Obj.get?_set, if_pos rfl]
    · rw [Map.int64_set_of_ne (by decide), Map.int64_set_int]

/-- A locked entry is not frozen again. -/
theorem Locked.freeze_again {n : Int} {d : Doc} (hemail : email ≠ "") (hneg : n < 0) (hn : Plain n)
    (h : Locked email n d) (id : Nat) (now : Int) : edits .freeze id email now d = none := by
  have hdeadline : deadline d < 0 := by
    rw [deadline_of_float hn h.expiry]
    exact hneg
  rw [edits_of_email hemail h.email]
  simp only [applyBulkClientOp, onlyClient]
  rw [if_pos ⟨h.enable, hdeadline⟩]

/-- Unfreezing a locked entry. -/
theorem Locked.unfreeze {d d' : Doc} {t₁ t₂ : Int} (hemail : email ≠ "") (hlock : Lockable d t₁ t₂)
    (h : Locked email (lockedAt (deadline d) t₁) d') (id : Nat) :
    ∃ cm, edits .unfreeze id email t₂ d' = some cm ∧
      Restored (deadline d) t₁ t₂ (deadline (Map.marshal cm)) := by
  obtain ⟨hneg, hplain⟩ := hlock.lockedAt
  have hdeadline : (Doc.toMap d').int64 "expiryTime" = lockedAt (deadline d) t₁ :=
    deadline_of_float hplain h.expiry
  have hwritten : ∀ (n : Int), Plain n → deadline (Map.marshal
      (((Doc.toMap d').set "expiryTime" (.num (.int (int64 n)))).set "enable" (.bool true))) = n := by
    intro n hn
    refine deadline_of_float hn ?_
    rw [get?_toMap_marshal, Obj.get?_set, if_neg (by decide), Obj.get?_set, if_pos rfl, Option.map_some,
      Val.map, int64_of_fits hn.1, toNum_print_int hn]
  rw [edits_of_email hemail h.email]
  simp only [applyBulkClientOp, onlyClient, h.enable, hdeadline, Bool.false_eq_true, if_false]
  refine ⟨_, rfl, ?_⟩
  by_cases hzero : deadline d = 0
  · have hlocked : lockedAt (deadline d) t₁ = frozenNoExpiry := by rw [lockedAt, if_pos hzero]
    rw [if_pos hlocked, hwritten 0 ⟨by decide, by decide +kernel⟩, Restored, if_pos hzero]
  · have hlocked : lockedAt (deadline d) t₁ = -remaining (deadline d) t₁ := by rw [lockedAt, if_neg hzero]
    have hmark : lockedAt (deadline d) t₁ ≠ frozenNoExpiry := by
      have hleft := hlock.left hzero
      rw [hlocked, frozenNoExpiry]
      omega
    rw [if_neg hmark, if_pos hneg, hlocked, sub_neg_eq_add, hwritten _ (hlock.plain hzero).2, Restored,
      if_neg hzero]
    omega

end Bulk

/-! ## A frozen account over a run of ticks -/

theorem getElem?_of_forall₂ {α : Type} {R : α → α → Prop} {l l' : List α} (h : List.Forall₂ R l l')
    {k : Nat} {a : α} (ha : l[k]? = some a) : ∃ b, l'[k]? = some b ∧ R a b := by
  induction h generalizing k with
  | nil => cases ha
  | @cons a₀ b₀ _ _ hR _ ih =>
      cases k with
      | zero =>
          cases ha
          exact ⟨b₀, rfl, hR⟩
      | succ k => exact ih ha

theorem find?_of_forall₂ {α : Type} {R : α → α → Prop} {p : α → Bool} (hp : ∀ a b, R a b → p b = p a)
    {l l' : List α} (h : List.Forall₂ R l l') {a : α} (ha : l.find? p = some a) :
    ∃ b, l'.find? p = some b ∧ R a b := by
  induction h with
  | nil => cases ha
  | @cons a₀ b₀ _ _ hR _ ih =>
      rw [List.find?_cons] at ha ⊢
      rw [hp a₀ b₀ hR]
      cases hpa : p a₀ with
      | true =>
          rw [hpa] at ha
          cases ha
          exact ⟨b₀, rfl, hR⟩
      | false =>
          rw [hpa] at ha
          exact ih ha

/-- The account is frozen, in its entry and in its row. -/
structure Frozen (email : String) (n : Int) (id k : Nat) (db : Db) : Prop where
  entry : ∃ d, db.entryAt id k = some d ∧ Locked email n d
  row : ∀ ct ∈ db.traffics.find? email, ct.expiryTime < 0

section Runs

variable {email : String} {id k : Nat} {db : Db}

theorem Frozen.tick {n : Int} (hn : Plain n) (h : Frozen email n id k db) {t : Host × Batch}
    (hrecords : email ∉ t.2.clients.map (·.email)) : Frozen email n id k (db.tick t) := by
  obtain ⟨⟨d, hd, hlocked⟩, hrow⟩ := h
  have hspared := tick_spares hrecords hrow
  obtain ⟨i, hi, hk⟩ := Option.bind_eq_some_iff.1 hd
  have hid : ∀ i i', SparedRow email i i' → decide (i'.id = id) = decide (i.id = id) := by
    intro i i' hR
    rw [hR.id]
  obtain ⟨i', hi', hspares⟩ := find?_of_forall₂ hid hspared.inbounds hi
  obtain ⟨d', hd', hentry⟩ := getElem?_of_forall₂ hspares.clients hk
  obtain ⟨m, rfl⟩ := hentry hlocked.email
  refine ⟨⟨_, Option.bind_eq_some_iff.2 ⟨i', hi', hd'⟩, ?_⟩, fun ct hct => ?_⟩
  · clear hd' hentry
    induction m with
    | zero => exact hlocked
    | succ m ih =>
        rw [Function.iterate_succ_apply']
        exact ih.rewrite hn
  · have hexpiry := hspared.expiry
    rw [Option.mem_def.1 hct, Option.map_some, eq_comm, Option.map_eq_some_iff] at hexpiry
    obtain ⟨ct₀, hct₀, heq⟩ := hexpiry
    rw [← heq]
    exact hrow ct₀ hct₀

/-- Only this entry of the inbound carries the email. -/
def OnlyEntry (db : Db) (id k : Nat) (email : String) : Prop :=
  ∀ j d, db.entryAt id j = some d → d.str "email" = email → j = k

/-- An operation that applies to no entry changes nothing. -/
theorem bulkOne_of_none {op : BulkOp} {i : InboundRow} {now : Int} (hop : op = .freeze ∨ op = .unfreeze)
    (hemail : email ≠ "") (hi : db.inbounds.find? id = some i)
    (hnone : ∀ d ∈ i.base.settings.clients, edits op id email now d = none) :
    db.bulkOne op id email now = db := by
  rcases bulkOne_cases hop hemail hi now with ⟨-, hsame⟩ | ⟨⟨d, hd, hne⟩, -⟩
  · exact hsame
  · exact absurd (hnone d hd) hne

/-- The account is frozen, and freezing it once more changes nothing. -/
theorem freeze_frozen {d : Doc} {t₁ t₂ : Int} (hemail : email ≠ "") (hd : db.entryAt id k = some d)
    (hname : d.get? "email" = some (.str email)) (honly : OnlyEntry db id k email)
    (hlock : Lockable d t₁ t₂)
    (hrow : deadline d < 0 → ∀ ct ∈ db.traffics.find? email, ct.expiryTime < 0) :
    Frozen email (lockedAt (deadline d) t₁) id k (db.freeze id email t₁) ∧
      ∀ t, (db.freeze id email t₁).freeze id email t = db.freeze id email t₁ := by
  obtain ⟨hneg, hplain⟩ := hlock.lockedAt
  obtain ⟨i, hi, hk⟩ := Option.bind_eq_some_iff.1 hd
  have honly' : ∀ j d', i.base.settings.clients[j]? = some d' → d'.str "email" = email → j = k :=
    fun j d' hj => honly j d' (Option.bind_eq_some_iff.2 ⟨i, hi, hj⟩)
  have hother : ∀ d' ∈ i.base.settings.clients, d'.str "email" = email → d' = d := by
    intro d' hd' heq
    obtain ⟨j, hj⟩ := List.mem_iff_getElem?.1 hd'
    rw [honly' j d' hj heq, hk] at hj
    exact (Option.some.inj hj).symm
  have hentry := freeze_entry id hemail hname hlock
  rcases bulkOne_cases (Or.inl rfl) hemail hi t₁ with ⟨hnone, hsame⟩ | ⟨-, hclients, hrows⟩
  · -- there was nothing to do
    rcases hentry with ⟨-, hdelayed, hlocked⟩ | ⟨cm, hcm, -⟩
    · rw [Db.freeze, hsame]
      refine ⟨⟨⟨d, hd, hlocked⟩, hrow hdelayed⟩, fun t => ?_⟩
      refine bulkOne_of_none (Or.inl rfl) hemail hi fun d' hd' => ?_
      by_cases heq : d'.str "email" = email
      · rw [hother d' hd' heq]
        exact hlocked.freeze_again hemail hneg hplain id t
      · exact edits_of_ne heq
    · rw [hnone d (List.mem_of_getElem? hk)] at hcm
      cases hcm
  · have hwritten : Locked email (lockedAt (deadline d) t₁)
        (bulkEntry (onlyClient .freeze id email) t₁ [email] d) := by
      unfold bulkEntry
      rcases hentry with ⟨hnone, -, hlocked⟩ | ⟨cm, hcm, hlocked, -⟩
      · rw [show bulkEdit (onlyClient .freeze id email) t₁ [email] d = none from hnone]
        exact hlocked.rewrite hplain
      · rw [show bulkEdit (onlyClient .freeze id email) t₁ [email] d = some cm from hcm]
        exact hlocked
    refine ⟨⟨⟨_, ?_, hwritten⟩, ?_⟩, fun t => ?_⟩
    · refine Option.bind_eq_some_iff.2 ⟨_, hclients, ?_⟩
      rw [show ∀ ds : List Doc, (i.setClients ds).base.settings.clients = ds from fun _ => rfl,
        List.getElem?_map, hk]
      rfl
    · intro ct hct
      rw [Db.freeze, hrows, bulkRows_of_unique hk honly', str_of_get? hname] at hct
      rcases hentry with ⟨hnone, hdelayed, -⟩ | ⟨cm, hcm, -, hexpiry⟩
      · rw [hnone] at hct
        exact hrow hdelayed ct hct
      · rw [hcm, Table.find?_modify, if_pos rfl] at hct
        obtain ⟨ct₀, -, rfl⟩ := Option.map_eq_some_iff.1 hct
        rw [← hexpiry] at hneg
        exact hneg
    · refine bulkOne_of_none (Or.inl rfl) hemail hclients fun d' hd' => ?_
      obtain ⟨d₀, hd₀, rfl⟩ := List.mem_map.1 hd'
      by_cases heq : d₀.str "email" = email
      · rw [hother d₀ hd₀ heq]
        exact hwritten.freeze_again hemail hneg hplain id t
      · have hnone : bulkEdit (onlyClient .freeze id email) t₁ [email] d₀ = none := edits_of_ne heq
        refine edits_of_ne ?_
        rw [bulkEntry, hnone]
        simp only
        rw [rewrite, Map.marshal, Obj.str_mapNum, Doc.toMap, Obj.str_mapNum]
        exact heq

/-- An account with no deadline, or with more than a millisecond left, that is frozen and
taken up again: the time that was left is left again, when no tick between the two has a
record of the account.  Freezing it twice is freezing it once. -/
theorem freeze_restores (db : Db) (id k : Nat) (email : String) (d : Doc) (t₁ t₂ : Int)
    (ticks : List (Host × Batch)) (hemail : email ≠ "") (hd : db.entryAt id k = some d)
    (hname : d.get? "email" = some (.str email)) (honly : OnlyEntry db id k email)
    (hlock : Lockable d t₁ t₂)
    (hrow : deadline d < 0 → ∀ ct ∈ db.traffics.find? email, ct.expiryTime < 0)
    (hticks : ∀ t ∈ ticks, email ∉ t.2.clients.map (·.email)) :
    (∃ d', ((run Db.tick (db.freeze id email t₁) ticks).unfreeze id email t₂).entryAt id k = some d' ∧
      Restored (deadline d) t₁ t₂ (deadline d')) ∧
      ∀ t, (db.freeze id email t₁).freeze id email t = db.freeze id email t₁ := by
  obtain ⟨hfrozen, hagain⟩ := freeze_frozen hemail hd hname honly hlock hrow
  refine ⟨?_, hagain⟩
  have hrun : Frozen email (lockedAt (deadline d) t₁) id k
      (run Db.tick (db.freeze id email t₁) ticks) := by
    generalize db.freeze id email t₁ = start at hfrozen
    induction ticks generalizing start with
    | nil => exact hfrozen
    | cons t ticks ih =>
        refine ih (fun t' ht' => hticks t' (List.mem_cons_of_mem t ht')) _ ?_
        exact hfrozen.tick hlock.lockedAt.2 (hticks t List.mem_cons_self)
  obtain ⟨⟨d₁, hd₁, hlocked⟩, -⟩ := hrun
  obtain ⟨i, hi, hk⟩ := Option.bind_eq_some_iff.1 hd₁
  obtain ⟨cm, hcm, hrestored⟩ := hlocked.unfreeze hemail hlock id
  rcases bulkOne_cases (Or.inr rfl) hemail hi t₂ with ⟨hnone, -⟩ | ⟨-, hclients, -⟩
  · rw [hnone d₁ (List.mem_of_getElem? hk)] at hcm
    cases hcm
  · refine ⟨Map.marshal cm, Option.bind_eq_some_iff.2 ⟨_, hclients, ?_⟩, hrestored⟩
    rw [show ∀ ds : List Doc, (i.setClients ds).base.settings.clients = ds from fun _ => rfl,
      List.getElem?_map, hk, Option.map_some, bulkEntry,
      show bulkEdit (onlyClient .unfreeze id email) t₂ [email] d₁ = some cm from hcm]

end Runs

/-! ## A record in between -/

def annsEntry : Doc :=
  stored [("email", .str "ann"), ("expiryTime", .num ⟨10000000, true⟩), ("enable", .bool true)]

/-- Ann's account ends at 10 000 000. -/
def annsDb : Db where
  inbounds := .single { base := { id := 1, settings := { clients := [annsEntry] } } }
  traffics := .single { email := "ann", inboundId := 1, expiryTime := 10000000 }

theorem ann_restored :
    ∃ d', ((run Db.tick (annsDb.freeze 1 "ann" 1000000) [(⟨2000000, none⟩, {})]).unfreeze 1 "ann"
        5000000).entryAt 1 0 = some d' ∧ Restored (deadline annsEntry) 1000000 5000000 (deadline d') := by
  have hlock : Lockable annsEntry 1000000 5000000 :=
    ⟨by decide +kernel, by decide +kernel, by decide +kernel⟩
  have honly : OnlyEntry annsDb 1 0 "ann" := by
    intro j d hj _
    cases j with
    | zero => rfl
    | succ j => cases hj
  refine (freeze_restores annsDb 1 0 "ann" annsEntry 1000000 5000000 [(⟨2000000, none⟩, {})] (by decide)
    rfl (by decide +kernel) honly hlock (by decide +kernel) ?_).1
  intro t ht
  rw [List.mem_singleton.1 ht]
  exact List.not_mem_nil

/-- Ann is frozen with 9000 seconds left.  A tick a thousand seconds later still has bytes of
hers, and 6000 seconds are left when she is taken up again. -/
theorem frozen_account_runs :
    ((((run Db.tick (annsDb.freeze 1 "ann" 1000000) [(⟨2000000, none⟩,
        { clients := [⟨"ann", 10, 10⟩] })]).unfreeze 1 "ann" 5000000).entryAt 1 0).map deadline)
      = some 11000000 ∧ ¬Restored 10000000 1000000 5000000 11000000 := by
  refine ⟨by decide +kernel, ?_⟩
  unfold Restored remaining
  decide

end Simorgh.Panel
