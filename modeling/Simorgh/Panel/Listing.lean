import Simorgh.Panel.Bulk

/-!
# Where an account is listed

An account is listed where the struct decoder finds its email in an inbound's
entries.  One lemma for each way the entries are written says what is listed
afterwards:

* `lists_saveClients` — one inbound's entries;
* `bulkDelete_lists`, `bulkDelete_rows` — a bulk delete, over all its inbounds.
-/

namespace Simorgh.Panel

open Simorgh.Lib Simorgh.Lib.Json

/-- Some inbound lists the email. -/
def Roster.lists (r : Roster) (email : String) : Prop :=
  ∃ i ∈ r.inbounds.rows, ∃ d ∈ i.settings.clients, entryEmail d = email

/-- Some inbound other than `id` lists the email. -/
def Roster.listsOff (r : Roster) (id : Nat) (email : String) : Prop :=
  ∃ i ∈ r.inbounds.rows, i.id ≠ id ∧ ∃ d ∈ i.settings.clients, entryEmail d = email

/-- Some inbound lists the email in an entry an operation does not take off. -/
def Roster.stands (r : Roster) (takes : Inbound → Doc → Bool) (email : String) : Prop :=
  ∃ i ∈ r.inbounds.rows, ∃ d ∈ i.settings.clients, takes i d = false ∧ entryEmail d = email

instance (r : Roster) (email : String) : Decidable (r.lists email) :=
  inferInstanceAs (Decidable (∃ i ∈ r.inbounds.rows, ∃ d ∈ i.settings.clients, _))

instance (r : Roster) (id : Nat) (email : String) : Decidable (r.listsOff id email) :=
  inferInstanceAs (Decidable (∃ i ∈ r.inbounds.rows, _ ∧ ∃ d ∈ i.settings.clients, _))

instance (r : Roster) (takes : Inbound → Doc → Bool) (email : String) :
    Decidable (r.stands takes email) :=
  inferInstanceAs (Decidable (∃ i ∈ r.inbounds.rows, ∃ d ∈ i.settings.clients, _ ∧ _))

variable {r s : Roster} {id : Nat} {i : Inbound}

theorem lists_iff (hi : r.inbounds.find? id = some i) (email : String) :
    r.lists email ↔ (∃ d ∈ i.settings.clients, entryEmail d = email) ∨ r.listsOff id email := by
  obtain ⟨hmem, rfl⟩ := Table.find?_some hi
  constructor
  · rintro ⟨j, hj, d, hd, he⟩
    by_cases hid : j.id = i.id
    · rw [Table.eq_of_key_eq hj hmem hid] at hd
      exact Or.inl ⟨d, hd, he⟩
    · exact Or.inr ⟨j, hj, hid, d, hd, he⟩
  · rintro (⟨d, hd, he⟩ | ⟨j, hj, -, d, hd, he⟩)
    · exact ⟨i, hmem, d, hd, he⟩
    · exact ⟨j, hj, d, hd, he⟩

/-- What is listed after one inbound's entries were written. -/
theorem lists_saveClients (hi : r.inbounds.find? id = some i) (clients : List Doc)
    (traffics : Table ClientTraffic.email) (email : String) :
    Roster.lists ⟨saveClients r.inbounds id clients, traffics⟩ email ↔
      (∃ d ∈ clients, entryEmail d = email) ∨ r.listsOff id email := by
  obtain ⟨hmem, rfl⟩ := Table.find?_some hi
  have hsave : (saveClients r.inbounds i.id clients).find? i.id = some (i.setClients clients) := by
    rw [find?_saveClients, if_pos rfl, hi]
    rfl
  have hoff : Roster.listsOff ⟨saveClients r.inbounds i.id clients, traffics⟩ i.id email ↔
      r.listsOff i.id email := by
    constructor
    · rintro ⟨j, hj, hne, hd⟩
      obtain ⟨j₀, hj₀, rfl⟩ := List.mem_map.1 hj
      by_cases hid : j₀.id = i.id
      · simp [hid] at hne
      · simp only [hid, decide_false, Bool.false_eq_true, if_false] at hd
        exact ⟨j₀, hj₀, hid, hd⟩
    · rintro ⟨j, hj, hne, hd⟩
      refine ⟨j, List.mem_map.2 ⟨j, hj, ?_⟩, hne, hd⟩
      simp [hne]
  rw [lists_iff (r := ⟨saveClients r.inbounds i.id clients, traffics⟩) hsave, hoff]
  rfl

/-! ## Entries written back -/

@[simp] theorem entryEmail_rewrite (d : Doc) : entryEmail (rewrite d) = entryEmail d := by
  change field "email" Val.str? "" (rewrite d).members = field "email" Val.str? "" d.members
  rw [members_rewrite]
  exact field_map_num _ (fun v => by cases v <;> rfl) "" _

/-- A client the panel encoded is stored under its email. -/
theorem entryEmail_stored_encode (c : Client) : entryEmail (stored c.encode) = c.email := by
  refine entryEmail_of_get? ?_
  rw [stored, Map.marshal, Obj.get?_mapNum, get?_email_encode]
  rfl

/-- An entry with an email the map decoder sees is listed under it. -/
theorem entryEmail_of_str {d : Doc} (h : d.str "email" ≠ "") : entryEmail d = d.str "email" := by
  have hget : d.get? "email" = some (.str (d.str "email")) := by
    unfold Obj.str at h ⊢
    cases hv : d.get? "email" with
    | none => simp [hv] at h
    | some v =>
        cases v with
        | str e => rfl
        | null => simp [hv, Val.str?] at h
        | bool b => simp [hv, Val.str?] at h
        | num n => simp [hv, Val.str?] at h
        | other t => simp [hv, Val.str?] at h
  exact entryEmail_of_get? hget

/-! ## Deleting one client -/

/-- What is listed after some entries were taken off one inbound. -/
theorem lists_saveClients_filter (hi : r.inbounds.find? id = some i) (p : Inbound → Doc → Bool)
    (traffics : Table ClientTraffic.email) (email : String) :
    Roster.lists ⟨saveClients r.inbounds id
        ((i.settings.clients.filter fun d => !p i d).map rewrite), traffics⟩ email ↔
      r.stands (fun j d => decide (j.id = id) && p j d) email := by
  obtain ⟨hmem, rfl⟩ := Table.find?_some hi
  rw [lists_saveClients hi]
  constructor
  · rintro (⟨d', hd', he⟩ | ⟨j, hj, hne, d, hd, he⟩)
    · obtain ⟨d, hd, rfl⟩ := List.mem_map.1 hd'
      rw [List.mem_filter] at hd
      rw [entryEmail_rewrite] at he
      exact ⟨i, hmem, d, hd.1, by simpa using hd.2, he⟩
    · exact ⟨j, hj, d, hd, by simp [hne], he⟩
  · rintro ⟨j, hj, d, hd, hstay, he⟩
    by_cases hid : j.id = i.id
    · have hji := Table.eq_of_key_eq hj hmem hid
      subst hji
      refine Or.inl ⟨rewrite d, List.mem_map_of_mem (List.mem_filter.2 ⟨hd, ?_⟩), ?_⟩
      · simpa using hstay
      · rw [entryEmail_rewrite, he]
    · exact Or.inr ⟨j, hj, hid, d, hd, he⟩

/-- A delete by client id is carried out. -/
def DelAccepts (r : Roster) (inboundId : Nat) (clientId : String) : Prop :=
  ∃ i ∈ r.inbounds.find? inboundId,
    ∃ last ∈ (i.settings.clients.filter (hasIdentity i.protocol clientId)).getLast?,
      (i.settings.clients.filter fun d => !hasIdentity i.protocol clientId d) ≠ [] ∧
      (last.str "email" = "" ∨ (r.traffics.find? (last.str "email")).isSome)

/-- The entries it takes off. -/
def delTakes (inboundId : Nat) (clientId : String) (i : Inbound) (d : Doc) : Bool :=
  decide (i.id = inboundId) && hasIdentity i.protocol clientId d

/-- A delete by email is carried out. -/
def DelByEmailAccepts (r : Roster) (inboundId : Nat) (email : String) : Prop :=
  ∃ i ∈ r.inbounds.find? inboundId, i.settings.clients.any (hasEmail email) = true ∧
    (i.settings.clients.filter fun d => !hasEmail email d) ≠ [] ∧
    (email = "" ∨ (getClientTrafficByEmail r email).toOption.isSome)

/-- The entries it takes off. -/
def delByEmailTakes (inboundId : Nat) (email : String) (i : Inbound) (d : Doc) : Bool :=
  decide (i.id = inboundId) && hasEmail email d

/-- What a delete of one client does: it takes its entries off, or nothing happens. -/
def Carried (r : Roster) (accepts : Prop) (takes : Inbound → Doc → Bool) (del : Roster × Reply) :
    Prop :=
  accepts ∧ del.2 = .ok () ∧ (∀ email, del.1.lists email ↔ r.stands takes email) ∨
    ¬accepts ∧ del.1 = r ∧ ∃ fault, del.2 = .error fault

theorem delInboundClient_carried (r : Roster) (inboundId : Nat) (clientId : String) :
    Carried r (DelAccepts r inboundId clientId) (delTakes inboundId clientId)
      (delInboundClient r inboundId clientId) := by
  unfold Carried delInboundClient DelAccepts
  cases hi : r.inbounds.find? inboundId with
  | none => exact Or.inr ⟨by simp, rfl, _, rfl⟩
  | some i =>
      simp only [Option.mem_def, Option.some.injEq, exists_eq_left']
      cases hlast : (i.settings.clients.filter (hasIdentity i.protocol clientId)).getLast? with
      | none =>
          refine Or.inr ⟨?_, rfl, _, rfl⟩
          rintro ⟨last, hnone, -⟩
          cases hnone
      | some last =>
          simp only [Option.some.injEq, exists_eq_left']
          have hlists := lists_saveClients_filter hi fun j => hasIdentity j.protocol clientId
          obtain ⟨-, rfl⟩ := Table.find?_some hi
          by_cases hkept :
              (i.settings.clients.filter fun d => !hasIdentity i.protocol clientId d) = []
          · rw [if_pos hkept]
            exact Or.inr ⟨fun hacc => hacc.1 hkept, rfl, _, rfl⟩
          · rw [if_neg hkept]
            by_cases hempty : last.str "email" = ""
            · rw [if_pos hempty]
              exact Or.inl ⟨⟨hkept, Or.inl hempty⟩, rfl, hlists _⟩
            · rw [if_neg hempty]
              by_cases hrow : (r.traffics.find? (last.str "email")).isSome
              · rw [if_neg (by simp [Option.isNone_iff_eq_none, ← Option.isSome_iff_ne_none, hrow])]
                exact Or.inl ⟨⟨hkept, Or.inr hrow⟩, rfl, hlists _⟩
              · rw [if_pos (by simpa using hrow)]
                exact Or.inr ⟨fun hacc => hacc.2.elim hempty hrow, rfl, _, rfl⟩

theorem delInboundClientByEmail_carried (r : Roster) (inboundId : Nat) (email : String) :
    Carried r (DelByEmailAccepts r inboundId email) (delByEmailTakes inboundId email)
      (delInboundClientByEmail r inboundId email) := by
  unfold Carried delInboundClientByEmail DelByEmailAccepts
  cases hi : r.inbounds.find? inboundId with
  | none => exact Or.inr ⟨by simp, rfl, _, rfl⟩
  | some i =>
      simp only [Option.mem_def, Option.some.injEq, exists_eq_left']
      have hlists := lists_saveClients_filter hi fun _ => hasEmail email
      obtain ⟨-, rfl⟩ := Table.find?_some hi
      by_cases hany : i.settings.clients.any (hasEmail email) = true
      · rw [if_neg (by simp [hany])]
        by_cases hkept : (i.settings.clients.filter fun d => !hasEmail email d) = []
        · rw [if_pos hkept]
          exact Or.inr ⟨fun hacc => hacc.2.1 hkept, rfl, _, rfl⟩
        · rw [if_neg hkept]
          by_cases hempty : email = ""
          · rw [if_pos hempty]
            exact Or.inl ⟨⟨hany, hkept, Or.inl hempty⟩, rfl, hlists _⟩
          · rw [if_neg hempty]
            cases hrow : getClientTrafficByEmail r email with
            | error fault =>
                refine Or.inr ⟨fun hacc => ?_, rfl, _, rfl⟩
                rcases hacc.2.2 with hacc | hacc
                · exact hempty hacc
                · simp [Except.toOption] at hacc
            | ok ct => exact Or.inl ⟨⟨hany, hkept, Or.inr rfl⟩, rfl, hlists _⟩
      · rw [if_pos (by simpa using hany)]
        exact Or.inr ⟨fun hacc => hany hacc.1, rfl, _, rfl⟩

/-! ## Bulk delete -/

theorem lists_iff_find? {email : String} :
    r.lists email ↔ ∃ id, ∃ i ∈ r.inbounds.find? id, ∃ d ∈ i.settings.clients, entryEmail d = email := by
  constructor
  · rintro ⟨i, hi, hd⟩
    exact ⟨i.id, i, Table.find?_of_mem hi, hd⟩
  · rintro ⟨id, i, hi, hd⟩
    exact ⟨i, (Table.find?_some hi).1, hd⟩

/-- An email a bulk delete takes off is that of an entry it was asked for. -/
theorem mem_bulkDeleted {order : MapOrder} {req : BulkClientUpdateRequest} {emails : List String}
    {clients : List Doc} {email : String} (h : email ∈ bulkDeleted order req emails clients) :
    ∃ d ∈ clients, d.str "email" = email ∧ email ≠ "" ∧ email ∈ emails := by
  unfold bulkDeleted at h
  simp only at h
  split at h
  · have hmem := (order.emails_perm _).mem_iff.1 (List.mem_of_mem_tail h)
    rw [List.mem_dedup, List.mem_map] at hmem
    obtain ⟨d, hd, rfl⟩ := hmem
    simp only [List.mem_filter, Bool.and_eq_true, decide_eq_true_eq] at hd
    exact ⟨d, hd.1, rfl, hd.2.1.1, hd.2.1.2⟩
  · rw [List.mem_dedup, List.mem_map] at h
    obtain ⟨d, hd, rfl⟩ := h
    simp only [List.mem_filter, Bool.and_eq_true, decide_eq_true_eq] at hd
    exact ⟨d, hd.1, rfl, hd.2.1.1, hd.2.1.2⟩

section BulkDelete

variable (order : MapOrder) (req : BulkClientUpdateRequest)

/-- The emails a bulk delete takes off this inbound. -/
def bulkGone (i : Inbound) : List String :=
  bulkDeleted order req (req.emailsOn i.id) i.settings.clients

/-- The inbound as a bulk delete leaves it. -/
def afterBulkDelete (i : Inbound) : Inbound :=
  if i.settings.clients.any fun d => decide (d.str "email" ∈ bulkGone order req i) then
    i.setClients ((i.settings.clients.filter fun d =>
      decide (d.str "email" ∉ bulkGone order req i)).map rewrite)
  else i

variable {order req} {now : Int}

/-- What is left of an inbound's entries. -/
theorem exists_mem_afterBulkDelete (i : Inbound) (email : String) :
    (∃ d ∈ (afterBulkDelete order req i).settings.clients, entryEmail d = email) ↔
      ∃ d ∈ i.settings.clients, d.str "email" ∉ bulkGone order req i ∧ entryEmail d = email := by
  unfold afterBulkDelete
  split
  · simp [Inbound.setClients, and_assoc]
  · rename_i hnone
    simp only [List.any_eq_true, decide_eq_true_eq, not_exists, not_and] at hnone
    constructor
    · rintro ⟨d, hd, he⟩
      exact ⟨d, hd, hnone d hd, he⟩
    · rintro ⟨d, hd, -, he⟩
      exact ⟨d, hd, he⟩

/-- Reading after a batch of deletes. -/
theorem find?_foldl_erase (emails : List String) (traffics : Table ClientTraffic.email)
    (email : String) :
    (emails.foldl Table.erase traffics).find? email =
      if email ∈ emails then none else traffics.find? email := by
  induction emails generalizing traffics with
  | nil => simp
  | cons e emails ih =>
      rw [List.foldl_cons, ih, Table.find?_erase]
      by_cases he : email = e <;> by_cases hmem : email ∈ emails <;> simp [he, hmem]

/-- One inbound of a bulk delete. -/
theorem bulkInbound_delete (hop : req.op = .delete) (h : bulkInbound order req now r id = some s) :
    ∃ i, r.inbounds.find? id = some i ∧
      (∀ id', s.inbounds.find? id' =
        if id' = id then some (afterBulkDelete order req i) else r.inbounds.find? id') ∧
      ∀ email, s.traffics.find? email =
        if email ∈ bulkGone order req i then none else r.traffics.find? email := by
  unfold bulkInbound at h
  split at h
  · cases h
  rename_i i hi
  have hid : i.id = id := (Table.find?_some hi).2
  simp only [hop, if_true] at h
  refine ⟨i, hi, ?_⟩
  unfold afterBulkDelete bulkGone
  rw [hid]
  split at h
  · rename_i hany
    cases h
    rw [if_pos hany]
    refine ⟨fun id' => ?_, fun email => find?_foldl_erase _ _ _⟩
    rw [find?_saveClients]
    by_cases hid' : id' = id
    · rw [if_pos hid', if_pos hid', hid', hi]
      rfl
    · rw [if_neg hid', if_neg hid']
  · rename_i hany
    cases h
    rw [if_neg hany]
    refine ⟨fun id' => ?_, fun email => ?_⟩
    · by_cases hid' : id' = id
      · rw [if_pos hid', hid', hi]
      · rw [if_neg hid']
    · rw [if_neg]
      intro hmem
      obtain ⟨d, hd, he, -⟩ := mem_bulkDeleted hmem
      refine hany (List.any_eq_true.2 ⟨d, hd, ?_⟩)
      simpa [he] using hmem

theorem bulkInbound_found (h : bulkInbound order req now r id = some s) :
    (r.inbounds.find? id).isSome ∧
      ∀ id', (s.inbounds.find? id').isSome = (r.inbounds.find? id').isSome := by
  have hsave : ∀ clients id', ((saveClients r.inbounds id clients).find? id').isSome =
      (r.inbounds.find? id').isSome := by
    intro clients id'
    rw [find?_saveClients]
    split
    · rw [Option.isSome_map]
    · rfl
  unfold bulkInbound at h
  split at h
  · cases h
  rename_i i hi
  refine ⟨by rw [hi]; rfl, fun id' => ?_⟩
  simp only at h
  split at h <;> split at h <;> cases h
  · exact hsave _ id'
  · rfl
  · exact hsave _ id'
  · rfl

/-- A bulk delete over distinct inbounds: each is left as its own step leaves it. -/
theorem foldlM_bulkInbound_delete (hop : req.op = .delete) {ids : List Nat} (hnodup : ids.Nodup)
    (h : ids.foldlM (bulkInbound order req now) r = some s) :
    (∀ id, s.inbounds.find? id = (r.inbounds.find? id).map fun i =>
      if id ∈ ids then afterBulkDelete order req i else i) ∧
      ∀ email ct, s.traffics.find? email = some ct ↔ r.traffics.find? email = some ct ∧
        ∀ id ∈ ids, ∀ i ∈ r.inbounds.find? id, email ∉ bulkGone order req i := by
  induction ids generalizing r with
  | nil =>
      rw [List.foldlM_nil] at h
      cases h
      simp
  | cons id ids ih =>
      rw [List.nodup_cons] at hnodup
      rw [List.foldlM_cons] at h
      obtain ⟨r', hr', hs⟩ := Option.bind_eq_some_iff.1 h
      obtain ⟨i, hi, hinb, hrows⟩ := bulkInbound_delete hop hr'
      obtain ⟨ihinb, ihrows⟩ := ih hnodup.2 hs
      refine ⟨fun id' => ?_, fun email ct => ?_⟩
      · rw [ihinb, hinb]
        by_cases hid : id' = id
        · subst hid
          simp [hi, hnodup.1]
        · simp [hid]
      · -- the other inbounds still read as before the first step
        have hrest : (∀ id' ∈ ids, ∀ j ∈ r'.inbounds.find? id', email ∉ bulkGone order req j) ↔
            ∀ id' ∈ ids, ∀ j ∈ r.inbounds.find? id', email ∉ bulkGone order req j := by
          refine forall₂_congr fun id' hid' => ?_
          have hne : id' ≠ id := fun he => hnodup.1 (he ▸ hid')
          rw [hinb, if_neg hne]
        rw [ihrows, hrows, hrest, List.forall_mem_cons]
        by_cases hmem : email ∈ bulkGone order req i
        · simp [hi, hmem]
        · simp [hi, hmem]

/-- A bulk operation that went through found all its inbounds. -/
theorem foldlM_bulkInbound_found {ids : List Nat}
    (h : ids.foldlM (bulkInbound order req now) r = some s) :
    ∀ id ∈ ids, (r.inbounds.find? id).isSome := by
  induction ids generalizing r with
  | nil => simp
  | cons id ids ih =>
      rw [List.foldlM_cons] at h
      obtain ⟨r', hr', hs⟩ := Option.bind_eq_some_iff.1 h
      obtain ⟨hfound, hsame⟩ := bulkInbound_found hr'
      intro id' hid'
      rcases List.mem_cons.1 hid' with rfl | hid'
      · exact hfound
      · rw [← hsame]
        exact ih hs id' hid'

variable (order req) in
/-- The entries a bulk delete takes off. -/
def bulkTakes (i : Inbound) (d : Doc) : Bool :=
  decide (i.id ∈ req.inboundIds) && decide (d.str "email" ∈ bulkGone order req i)

/-- What is listed after a bulk delete that went through. -/
theorem bulkDelete_lists (hop : req.op = .delete)
    (h : (order.ids req.inboundIds).foldlM (bulkInbound order req now) r = some s) (email : String) :
    s.lists email ↔ r.stands (bulkTakes order req) email := by
  have hperm := order.ids_perm req.inboundIds
  have hnodup : (order.ids req.inboundIds).Nodup := hperm.nodup_iff.2 (List.nodup_dedup _)
  obtain ⟨hinb, -⟩ := foldlM_bulkInbound_delete hop hnodup h
  simp only [hperm.mem_iff] at hinb
  rw [lists_iff_find?]
  constructor
  · rintro ⟨id, j, hj, hd⟩
    rw [Option.mem_def, hinb] at hj
    obtain ⟨i, hi, rfl⟩ := Option.map_eq_some_iff.1 hj
    obtain ⟨hmem, rfl⟩ := Table.find?_some hi
    refine ⟨i, hmem, ?_⟩
    split at hd
    · rw [exists_mem_afterBulkDelete] at hd
      obtain ⟨d, hd, hkept, he⟩ := hd
      exact ⟨d, hd, by simp [bulkTakes, hkept], he⟩
    · rename_i hoff
      obtain ⟨d, hd, he⟩ := hd
      exact ⟨d, hd, by simp [bulkTakes, hoff], he⟩
  · rintro ⟨i, hi, d, hd, hkept, he⟩
    refine ⟨i.id, _, by rw [Option.mem_def, hinb, Table.find?_of_mem hi]; rfl, ?_⟩
    simp only
    split
    · rename_i hin
      rw [exists_mem_afterBulkDelete]
      exact ⟨d, hd, by simpa [bulkTakes, hin] using hkept, he⟩
    · exact ⟨d, hd, he⟩

/-- A bulk delete that finds its inbounds goes through. -/
theorem foldlM_bulkInbound_of_found (order : MapOrder) (now : Int) (hop : req.op = .delete)
    {ids : List Nat}
    (h : ∀ id ∈ ids, (r.inbounds.find? id).isSome) :
    ∃ s, ids.foldlM (bulkInbound order req now) r = some s := by
  induction ids generalizing r with
  | nil => exact ⟨r, rfl⟩
  | cons id ids ih =>
      obtain ⟨i, hi⟩ := Option.isSome_iff_exists.1 (h id List.mem_cons_self)
      have hstep : ∃ r', bulkInbound order req now r id = some r' := by
        simp only [bulkInbound, hi, hop, if_true]
        split
        · exact ⟨_, rfl⟩
        · exact ⟨_, rfl⟩
      obtain ⟨r', hr'⟩ := hstep
      have hfound := (bulkInbound_found hr').2
      obtain ⟨s, hs⟩ := ih fun id' hid' => by
        rw [hfound]
        exact h id' (List.mem_cons_of_mem _ hid')
      exact ⟨s, by rw [List.foldlM_cons, hr']; exact hs⟩

theorem bulkUpdateClients_ok (hop : req.op = .delete)
    (h : bulkUpdateClients order r req now = (s, .ok ())) :
    (order.ids req.inboundIds).foldlM (bulkInbound order req now) r = some s := by
  unfold bulkUpdateClients at h
  rw [hop] at h
  simp only at h
  split at h
  · cases h
  · rename_i s' hs
    cases h
    exact hs

theorem bulkDelete_carried (hop : req.op = .delete) (order : MapOrder) (r : Roster) (now : Int) :
    Carried r (∀ id ∈ req.inboundIds, (r.inbounds.find? id).isSome) (bulkTakes order req)
      (bulkUpdateClients order r req now) := by
  have hperm := order.ids_perm req.inboundIds
  unfold Carried bulkUpdateClients
  rw [hop]
  simp only
  cases hs : (order.ids req.inboundIds).foldlM (bulkInbound order req now) r with
  | none =>
      refine Or.inr ⟨fun hfound => ?_, rfl, _, rfl⟩
      obtain ⟨s, hs'⟩ := foldlM_bulkInbound_of_found order now hop
        fun id hid => hfound id (hperm.mem_iff.1 hid)
      rw [hs] at hs'
      cases hs'
  | some s =>
      exact Or.inl ⟨fun id hid => foldlM_bulkInbound_found hs id (hperm.mem_iff.2 hid), rfl,
        bulkDelete_lists hop hs⟩

/-- The rows left by a bulk delete that went through. -/
theorem bulkDelete_rows (hop : req.op = .delete)
    (h : (order.ids req.inboundIds).foldlM (bulkInbound order req now) r = some s) (email : String)
    (ct : ClientTraffic) :
    s.traffics.find? email = some ct ↔ r.traffics.find? email = some ct ∧
      ∀ id ∈ req.inboundIds, ∀ i ∈ r.inbounds.find? id, email ∉ bulkGone order req i := by
  have hperm := order.ids_perm req.inboundIds
  have hnodup : (order.ids req.inboundIds).Nodup := hperm.nodup_iff.2 (List.nodup_dedup _)
  rw [(foldlM_bulkInbound_delete hop hnodup h).2]
  simp only [hperm.mem_iff]

end BulkDelete

/-! ## Sweeping depleted accounts -/

section Sweep

variable [Runtime] (r : Roster) (id now : Int) (only : Option OwnedEmails)

/-- A sweep of every owner's accounts takes all entries of this inbound. -/
def Emptied (inboundId : Nat) : Prop :=
  only = none ∧ ∃ i ∈ r.inbounds.find? inboundId,
    sweepKept (sweptEmails r.traffics id now only inboundId) i = []

instance (inboundId : Nat) : Decidable (Emptied r id now only inboundId) :=
  inferInstanceAs (Decidable (_ ∧ ∃ i ∈ r.inbounds.find? inboundId, _))

/-- The inbounds a sweep deletes: the emptied ones ahead of the first it writes to. -/
def dropped (ids : List Nat) : List Nat := ids.takeWhile fun j => decide (Emptied r id now only j)

/-- A visited inbound the sweep did not delete. -/
def afterSweep (i : Inbound) : Inbound :=
  let emails := sweptEmails r.traffics id now only i.id
  if emails = [] ∨ sweepKept emails i = [] ∧ only = none then i
  else i.setClients ((sweepKept emails i).map rewrite)

/-- How far a sweep has come, read off the roster it started from. -/
structure SweepAt (done : List Nat) (s : Sweep) : Prop where
  rows : s.outside.traffics.rows =
    r.traffics.rows.filter fun ct => decide (ct.inboundId ∉ dropped r id now only done)
  inside_rows : s.inside.traffics.rows = s.outside.traffics.rows
  outside : ∀ j, s.outside.inbounds.find? j =
    if j ∈ dropped r id now only done then none else r.inbounds.find? j
  inside : ∀ j, s.inside.inbounds.find? j =
    if j ∈ dropped r id now only done then none
    else (r.inbounds.find? j).map fun i => if j ∈ done then afterSweep r id now only i else i
  wrote : only = none → (s.wrote = false ↔ dropped r id now only done = done)
  deleted : s.deleted = done.flatMap (sweptEmails r.traffics id now only)

variable {r id now only}

theorem mem_dropped {ids : List Nat} {j : Nat} (h : j ∈ dropped r id now only ids) :
    j ∈ ids ∧ Emptied r id now only j := by
  have hall := List.all_takeWhile (l := ids) (p := fun j => decide (Emptied r id now only j))
  exact ⟨(List.takeWhile_prefix _).subset h, of_decide_eq_true (List.all_eq_true.1 hall j h)⟩

theorem dropped_concat (done : List Nat) (j : Nat) :
    dropped r id now only (done ++ [j]) =
      if dropped r id now only done = done ∧ Emptied r id now only j then done ++ [j]
      else dropped r id now only done := by
  unfold dropped
  rw [List.takeWhile_append]
  by_cases hall : done.takeWhile (fun j => decide (Emptied r id now only j)) = done
  · by_cases hj : Emptied r id now only j <;> simp [hall, hj]
  · have hlen : (done.takeWhile fun j => decide (Emptied r id now only j)).length ≠ done.length :=
      fun hlen => hall ((List.takeWhile_prefix _).eq_of_length hlen)
    simp [hall, hlen]

theorem dropped_ne_concat (done : List Nat) (j : Nat) :
    dropped r id now only done ≠ done ++ [j] := by
  intro h
  have hle := (List.takeWhile_prefix (l := done) fun j => decide (Emptied r id now only j)).length_le
  have hlen := congrArg List.length h
  simp only [dropped, List.length_append, List.length_singleton] at hlen
  omega

/-- A sweep of every owner's accounts has something to take on each inbound it
visits. -/
theorem sweptEmails_ne_nil (traffics : Table ClientTraffic.email) (inboundId : Nat) :
    sweptEmails traffics id now none inboundId ≠ [] := by
  simp [sweptEmails, splitConcat, List.splitOn_ne_nil]

/-- Deleting other inbounds does not change what is swept on this one. -/
theorem SweepAt.sweptEmails_eq {done : List Nat} {s : Sweep} (h : SweepAt r id now only done s)
    {j : Nat} (hj : j ∉ done) :
    sweptEmails s.outside.traffics id now only j = sweptEmails r.traffics id now only j := by
  have hrows : s.outside.traffics.rows.filter (fun ct =>
      sweepable id now ct && decide (ct.inboundId = j)) =
      r.traffics.rows.filter fun ct => sweepable id now ct && decide (ct.inboundId = j) := by
    rw [h.rows, List.filter_filter]
    refine List.filter_congr fun ct _ => ?_
    by_cases hid : ct.inboundId = j
    · have hkeep : j ∉ dropped r id now only done := fun hd => hj (mem_dropped hd).1
      simp [hid, hkeep]
    · simp [hid]
  unfold sweptEmails
  rw [hrows]

/-- One inbound of the sweep. -/
theorem SweepAt.step {done : List Nat} {s s' : Sweep} (h : SweepAt r id now only done s) {j : Nat}
    (hj : j ∉ done) (hstep : sweepInbound id now only s j = .ok s') :
    SweepAt r id now only (done ++ [j]) s' := by
  have hjd : j ∉ dropped r id now only done := fun hd => hj (mem_dropped hd).1
  have hout : s.outside.inbounds.find? j = r.inbounds.find? j := by rw [h.outside, if_neg hjd]
  have hdel : (done ++ [j]).flatMap (sweptEmails r.traffics id now only) =
      s.deleted ++ sweptEmails r.traffics id now only j := by
    rw [List.flatMap_append, h.deleted]
    simp
  unfold sweepInbound at hstep
  simp only [h.sweptEmails_eq hj] at hstep
  split at hstep
  · -- nothing of the reseller's own here
    rename_i hnil
    cases hstep
    have honly : only ≠ none := by
      rintro rfl
      exact sweptEmails_ne_nil _ _ hnil
    have hno : ∀ j, ¬Emptied r id now only j := fun j hE => honly hE.1
    have hdrop : dropped r id now only (done ++ [j]) = dropped r id now only done := by
      rw [dropped_concat, if_neg fun hE => hno j hE.2]
    refine ⟨by rw [hdrop]; exact h.rows, h.inside_rows, by rw [hdrop]; exact h.outside, ?_,
      fun hnone => absurd hnone honly, by rw [hdel, hnil, List.append_nil]⟩
    intro j'
    rw [hdrop, h.inside]
    refine if_congr Iff.rfl rfl ?_
    cases hi : r.inbounds.find? j' with
    | none => rfl
    | some i =>
        obtain ⟨-, rfl⟩ := Table.find?_some hi
        by_cases hid : i.id = j
        · have hafter : afterSweep r id now only i = i := by
            unfold afterSweep
            rw [if_pos (Or.inl (hid ▸ hnil))]
          simp [hid, hj, hafter]
        · simp [hid]
  split at hstep
  · cases hstep
  rename_i hne _ i hi
  rw [hout] at hi
  obtain ⟨-, rfl⟩ := Table.find?_some hi
  split at hstep
  · rename_i hempty
    have hE : Emptied r id now only i.id := ⟨hempty.2, i, hi, hempty.1⟩
    have hafter : afterSweep r id now only i = i := by
      unfold afterSweep
      rw [if_pos (Or.inr hempty)]
    split at hstep
    · -- the deletion is refused: the transaction has written
      rename_i hwrote
      cases hstep
      have hdrop : dropped r id now only (done ++ [i.id]) = dropped r id now only done := by
        rw [dropped_concat, if_neg]
        rintro ⟨hall, -⟩
        exact absurd ((h.wrote hempty.2).2 hall) (by simp [hwrote])
      refine ⟨by rw [hdrop]; exact h.rows, h.inside_rows, by rw [hdrop]; exact h.outside, ?_, ?_,
        hdel.symm⟩
      · intro j'
        rw [hdrop, h.inside]
        refine if_congr Iff.rfl rfl ?_
        cases hi' : r.inbounds.find? j' with
        | none => rfl
        | some i' =>
            by_cases hid : j' = i.id
            · have heq : i' = i := by
                rw [hid, hi] at hi'
                exact (Option.some.inj hi').symm
              simp [hid, hj, heq, hafter]
            · simp [hid]
      · intro _
        rw [hdrop]
        simp only [hwrote, Bool.true_eq_false, false_iff]
        exact dropped_ne_concat done i.id
    · rename_i hwrote
      cases hstep
      have hall : dropped r id now only done = done := (h.wrote hempty.2).1 (by simpa using hwrote)
      have hdrop : dropped r id now only (done ++ [i.id]) = done ++ [i.id] := by
        rw [dropped_concat, if_pos ⟨hall, hE⟩]
      have hrows : (delInbound s.outside i.id).traffics.rows = r.traffics.rows.filter fun ct =>
          decide (ct.inboundId ∉ done ++ [i.id]) := by
        simp only [delInbound, Table.deleteWhere, h.rows, hall, List.filter_filter]
        refine List.filter_congr fun ct _ => ?_
        by_cases h₁ : ct.inboundId = i.id <;> by_cases h₂ : ct.inboundId ∈ done <;> simp [h₁, h₂]
      refine ⟨by rw [hdrop]; exact hrows, ?_, ?_, ?_, fun _ => ?_, hdel.symm⟩
      · simp only [delInbound, Table.deleteWhere, h.inside_rows]
      · intro j'
        rw [hdrop]
        simp only [delInbound, Table.find?_erase, h.outside, hall]
        by_cases hid : j' = i.id <;> by_cases hd : j' ∈ done <;> simp [hid, hd]
      · intro j'
        rw [hdrop]
        simp only [delInbound, Table.find?_erase, h.inside, hall]
        by_cases hid : j' = i.id <;> by_cases hd : j' ∈ done <;> simp [hid, hd]
      · simp [hdrop]
  · rename_i hkept
    cases hstep
    have hE : ¬Emptied r id now only i.id := by
      rintro ⟨honly, i', hi', hnil⟩
      rw [Option.mem_def, hi, Option.some.injEq] at hi'
      subst hi'
      exact hkept ⟨hnil, honly⟩
    have hdrop : dropped r id now only (done ++ [i.id]) = dropped r id now only done := by
      rw [dropped_concat, if_neg fun hE' => hE hE'.2]
    refine ⟨by rw [hdrop]; exact h.rows, h.inside_rows, by rw [hdrop]; exact h.outside, ?_, ?_,
      hdel.symm⟩
    · intro j'
      rw [hdrop, find?_saveClients, h.inside]
      by_cases hid : j' = i.id
      · have hafter : afterSweep r id now only i = i.setClients
            ((sweepKept (sweptEmails r.traffics id now only i.id) i).map rewrite) := by
          unfold afterSweep
          rw [if_neg]
          rintro (hnil | hnil)
          · exact hne hnil
          · exact hkept hnil
        subst hid
        simp [hjd, hi, hj, hafter]
      · simp [hid]
    · intro _
      rw [hdrop]
      simp only [Bool.true_eq_false, false_iff]
      exact dropped_ne_concat done i.id

/-- The one way a sweep stops. -/
theorem sweepInbound_error {s : Sweep} {j : Nat} {r' : Roster}
    (h : sweepInbound id now only s j = .error r') :
    r' = s.outside ∧ sweptEmails s.outside.traffics id now only j ≠ [] ∧
      s.outside.inbounds.find? j = none := by
  unfold sweepInbound at h
  simp only at h
  split at h
  · cases h
  rename_i hne
  split at h
  · rename_i hnone
    cases h
    exact ⟨rfl, hne, hnone⟩
  split at h
  · split at h <;> cases h
  · cases h

theorem sweepAt_start : SweepAt r id now only [] ⟨r, r, false, []⟩ where
  rows := by simp [dropped]
  inside_rows := rfl
  outside := by simp [dropped]
  inside := by simp [dropped]
  wrote := by simp [dropped]
  deleted := rfl

/-- The whole sweep: it runs to its end, or stops at an inbound that is missing. -/
theorem SweepAt.foldlM {done ids : List Nat} {s : Sweep} (h : SweepAt r id now only done s)
    (hnodup : (done ++ ids).Nodup) :
    (∃ s', ids.foldlM (sweepInbound id now only) s = .ok s' ∧
      SweepAt r id now only (done ++ ids) s' ∧
      ∀ j ∈ ids, sweptEmails r.traffics id now only j ≠ [] → (r.inbounds.find? j).isSome) ∨
    ∃ s' pre j, ids.foldlM (sweepInbound id now only) s = .error s'.outside ∧
      SweepAt r id now only pre s' ∧ pre ++ [j] <+: done ++ ids ∧ j ∈ ids ∧
      sweptEmails r.traffics id now only j ≠ [] ∧ r.inbounds.find? j = none := by
  induction ids generalizing done s with
  | nil => exact Or.inl ⟨s, rfl, by simpa using h, by simp⟩
  | cons j ids ih =>
      have hj : j ∉ done := by
        intro hmem
        exact (List.nodup_append.1 hnodup).2.2 j hmem j List.mem_cons_self rfl
      have hout : s.outside.inbounds.find? j = r.inbounds.find? j := by
        rw [h.outside, if_neg fun hd => hj (mem_dropped hd).1]
      rw [List.foldlM_cons]
      cases hstep : sweepInbound id now only s j with
      | error r' =>
          obtain ⟨rfl, hne, hnone⟩ := sweepInbound_error hstep
          rw [h.sweptEmails_eq hj] at hne
          rw [hout] at hnone
          refine Or.inr ⟨s, done, j, rfl, h, ⟨ids, ?_⟩, List.mem_cons_self, hne, hnone⟩
          simp
      | ok s₁ =>
          have hfound : sweptEmails r.traffics id now only j ≠ [] → (r.inbounds.find? j).isSome := by
            intro hne
            unfold sweepInbound at hstep
            simp only [h.sweptEmails_eq hj, hout, hne, if_false] at hstep
            split at hstep
            · cases hstep
            · rename_i i hi
              rw [hi]
              rfl
          have happend : done ++ [j] ++ ids = done ++ j :: ids := by simp
          rcases ih (h.step hj hstep) (by rw [happend]; exact hnodup) with
            ⟨s', hs', hat, hall⟩ | ⟨s', pre, j', hs', hat, hpre, hj', hmiss⟩
          · refine Or.inl ⟨s', hs', by rw [← happend]; exact hat, ?_⟩
            intro j' hj' hne
            rcases List.mem_cons.1 hj' with rfl | hj'
            · exact hfound hne
            · exact hall j' hj' hne
          · exact Or.inr ⟨s', pre, j', hs', hat, by rw [← happend]; exact hpre,
              List.mem_cons_of_mem _ hj', hmiss⟩

omit [Runtime] in
theorem sweepIds_nodup (traffics : Table ClientTraffic.email) : (sweepIds traffics id now).Nodup :=
  (List.mergeSort_perm _ _).nodup_iff.2 (List.nodup_dedup _)

omit [Runtime] in
theorem mem_sweepIds {traffics : Table ClientTraffic.email} {j : Nat} :
    j ∈ sweepIds traffics id now ↔
      ∃ ct ∈ traffics.rows, sweepable id now ct = true ∧ ct.inboundId = j := by
  unfold sweepIds
  rw [(List.mergeSort_perm _ _).mem_iff, List.mem_dedup, List.mem_map]
  simp only [List.mem_filter, and_assoc]

omit [Runtime] in
/-- Emails without a comma come through the grouping as they are. -/
theorem splitConcat_eq {emails : List String} (hne : emails ≠ [])
    (h : ∀ e ∈ emails, ',' ∉ e.toList) : splitConcat emails = emails := by
  unfold splitConcat
  rw [List.splitOn_intercalate]
  · rw [List.map_map]
    exact (List.map_congr_left fun e _ => String.ofList_toList).trans (List.map_id emails)
  · intro l hl
    obtain ⟨e, he, rfl⟩ := List.mem_map.1 hl
    exact h e he
  · simpa using hne

/-- What is swept on a visited inbound: the depleted rows under its id that are in
scope. -/
theorem mem_sweptEmails {traffics : Table ClientTraffic.email} {j : Nat} {email : String}
    (hcomma : ∀ ct ∈ traffics.rows, sweepable id now ct = true → ',' ∉ ct.email.toList)
    (hj : j ∈ sweepIds traffics id now) :
    email ∈ sweptEmails traffics id now only j ↔
      ∃ ct ∈ traffics.rows, sweepable id now ct = true ∧ ct.inboundId = j ∧ ct.email = email ∧
        only.all (resellerOwnsEmail · email) = true := by
  obtain ⟨ct₀, hct₀, hsweep₀, hid₀⟩ := mem_sweepIds.1 hj
  have hmem : ∀ ct, ct ∈ traffics.rows.filter (fun ct =>
      sweepable id now ct && decide (ct.inboundId = j)) ↔
      ct ∈ traffics.rows ∧ sweepable id now ct = true ∧ ct.inboundId = j := by
    intro ct
    simp only [List.mem_filter, Bool.and_eq_true, decide_eq_true_eq]
  unfold sweptEmails
  simp only
  rw [splitConcat_eq]
  · simp only [List.mem_filter, List.mem_map, hmem]
    constructor
    · rintro ⟨⟨ct, ⟨hct, hsweep, hid⟩, rfl⟩, hown⟩
      exact ⟨ct, hct, hsweep, hid, rfl, hown⟩
    · rintro ⟨ct, hct, hsweep, hid, rfl, hown⟩
      exact ⟨⟨ct, ⟨hct, hsweep, hid⟩, rfl⟩, hown⟩
  · simp only [ne_eq, List.map_eq_nil_iff]
    exact List.ne_nil_of_mem ((hmem ct₀).2 ⟨hct₀, hsweep₀, hid₀⟩)
  · intro e he
    obtain ⟨ct, hct, rfl⟩ := List.mem_map.1 he
    exact hcomma ct ((hmem ct).1 hct).1 ((hmem ct).1 hct).2.1

/-- Nothing is dropped past an inbound the sweep cannot delete. -/
theorem dropped_of_not_emptied {pre rest : List Nat} {j : Nat} (h : ¬Emptied r id now only j) :
    dropped r id now only (pre ++ j :: rest) = dropped r id now only pre := by
  unfold dropped
  rw [List.takeWhile_append]
  split
  · rename_i hlen
    rw [(List.takeWhile_prefix _).eq_of_length hlen]
    simp [h]
  · rfl

/-- Every inbound the sweep is to write is there. -/
def SweepFinds (r : Roster) (id now : Int) (only : Option OwnedEmails) : Prop :=
  ∀ j ∈ sweepIds r.traffics id now, sweptEmails r.traffics id now only j ≠ [] →
    (r.inbounds.find? j).isSome

instance (r : Roster) (id now : Int) (only : Option OwnedEmails) :
    Decidable (SweepFinds r id now only) :=
  inferInstanceAs (Decidable (∀ j ∈ _, _ → _))

/-- A sweep runs to its end and takes the depleted rows, or stops at a missing
inbound. -/
theorem delDepletedClientsScoped_cases (r : Roster) (id now : Int) (only : Option OwnedEmails) :
    (SweepFinds r id now only ∧ ∃ s, SweepAt r id now only (sweepIds r.traffics id now) s ∧
      delDepletedClientsScoped r id now only =
        (⟨s.inside.inbounds, s.inside.traffics.deleteWhere fun ct =>
          sweepable id now ct && (only.isNone || decide (ct.email ∈ s.deleted))⟩, .ok s.deleted)) ∨
    (¬SweepFinds r id now only ∧ ∃ s pre, SweepAt r id now only pre s ∧
      dropped r id now only pre = dropped r id now only (sweepIds r.traffics id now) ∧
      delDepletedClientsScoped r id now only =
        (s.outside, .error (.refused "record not found"))) := by
  unfold delDepletedClientsScoped
  have hstart : SweepAt r id now only [] ⟨r, r, false, []⟩ := sweepAt_start
  have hnodup : ([] ++ sweepIds r.traffics id now).Nodup := sweepIds_nodup r.traffics
  rcases hstart.foldlM hnodup with
    ⟨s, hs, hat, hfound⟩ | ⟨s, pre, j, hs, hat, ⟨rest, hpre⟩, hj, hne, hnone⟩
  · rw [hs]
    exact Or.inl ⟨hfound, s, hat, rfl⟩
  · rw [hs]
    refine Or.inr ⟨fun hfinds => ?_, s, pre, hat, ?_, rfl⟩
    · have := hfinds j hj hne
      rw [hnone] at this
      cases this
    · have hE : ¬Emptied r id now only j := by
        rintro ⟨-, i, hi, -⟩
        rw [Option.mem_def, hnone] at hi
        cases hi
      rw [List.nil_append, List.append_assoc, List.singleton_append] at hpre
      rw [← hpre, dropped_of_not_emptied hE]

/-- What is left of a visited inbound's entries. -/
theorem exists_mem_afterSweep {i : Inbound} (hi : r.inbounds.find? i.id = some i) (email : String) :
    (∃ d ∈ (afterSweep r id now only i).settings.clients, entryEmail d = email) ↔
      ∃ d ∈ i.settings.clients, (d.str "email" ∈ sweptEmails r.traffics id now only i.id →
        Emptied r id now only i.id) ∧ entryEmail d = email := by
  unfold afterSweep
  simp only
  split
  · rename_i hstay
    refine exists_congr fun d => and_congr_right fun _ => (and_iff_right fun hmem => ?_).symm
    rcases hstay with hnil | ⟨hkept, honly⟩
    · rw [hnil] at hmem
      cases hmem
    · exact ⟨honly, i, hi, hkept⟩
  · rename_i hstay
    have hE : ¬Emptied r id now only i.id := by
      rintro ⟨honly, i', hi', hkept⟩
      rw [Option.mem_def, hi, Option.some.injEq] at hi'
      subst hi'
      exact hstay (Or.inr ⟨hkept, honly⟩)
    simp [Inbound.setClients, sweepKept, hE, and_assoc]

/-- What is listed after a sweep that ran to its end. -/
theorem SweepAt.lists_inside {ids : List Nat} {s : Sweep} (h : SweepAt r id now only ids s)
    (traffics : Table ClientTraffic.email) (email : String) :
    Roster.lists ⟨s.inside.inbounds, traffics⟩ email ↔
      ∃ i ∈ r.inbounds.rows, i.id ∉ dropped r id now only ids ∧ ∃ d ∈ i.settings.clients,
        (i.id ∈ ids → d.str "email" ∈ sweptEmails r.traffics id now only i.id →
          Emptied r id now only i.id) ∧ entryEmail d = email := by
  rw [lists_iff_find?]
  simp only [h.inside]
  constructor
  · rintro ⟨j, i', hi', hd⟩
    split at hi'
    · cases hi'
    rename_i hj
    obtain ⟨i, hi, rfl⟩ := Option.map_eq_some_iff.1 hi'
    obtain ⟨hmem, rfl⟩ := Table.find?_some hi
    refine ⟨i, hmem, hj, ?_⟩
    split at hd
    · rw [exists_mem_afterSweep hi] at hd
      obtain ⟨d, hd, hstay, he⟩ := hd
      exact ⟨d, hd, fun _ => hstay, he⟩
    · rename_i hoff
      obtain ⟨d, hd, he⟩ := hd
      exact ⟨d, hd, fun hin => absurd hin hoff, he⟩
  · rintro ⟨i, hmem, hj, d, hd, hstay, he⟩
    have hi := Table.find?_of_mem hmem
    refine ⟨i.id, _, by rw [if_neg hj, hi]; rfl, ?_⟩
    simp only
    split
    · rename_i hin
      rw [exists_mem_afterSweep hi]
      exact ⟨d, hd, hstay hin, he⟩
    · exact ⟨d, hd, he⟩

/-- The entries a sweep takes off. -/
def sweepTakes (r : Roster) (id now : Int) (only : Option OwnedEmails) (i : Inbound) (d : Doc) :
    Bool :=
  decide (i.id ∈ dropped r id now only (sweepIds r.traffics id now)) ||
    (decide (SweepFinds r id now only) && decide (i.id ∈ sweepIds r.traffics id now) &&
      decide (d.str "email" ∈ sweptEmails r.traffics id now only i.id) &&
      !decide (Emptied r id now only i.id))

/-- What is listed after a sweep, whether it ran to its end or not. -/
theorem sweep_lists (r : Roster) (id now : Int) (only : Option OwnedEmails) (email : String) :
    (delDepletedClientsScoped r id now only).1.lists email ↔
      r.stands (sweepTakes r id now only) email := by
  rcases delDepletedClientsScoped_cases r id now only with
    ⟨hfinds, s, hat, hs⟩ | ⟨hfinds, s, pre, hat, hdrop, hs⟩
  · rw [hs, hat.lists_inside]
    refine exists_congr fun i => and_congr_right fun _ => ?_
    rw [← exists_and_left]
    refine exists_congr fun d => ?_
    simp only [sweepTakes, hfinds, decide_true, Bool.true_and, Bool.or_eq_false_iff,
      decide_eq_false_iff_not, Bool.and_eq_false_imp, Bool.and_eq_true, decide_eq_true_eq,
      Bool.not_eq_false', and_imp]
    constructor
    · rintro ⟨hdrop, hd, hstay, he⟩
      exact ⟨hd, ⟨hdrop, hstay⟩, he⟩
    · rintro ⟨hd, ⟨hdrop, hstay⟩, he⟩
      exact ⟨hdrop, hd, hstay, he⟩
  · rw [hs, lists_iff_find?]
    simp only [hat.outside, hdrop]
    constructor
    · rintro ⟨j, i, hi, d, hd, he⟩
      split at hi
      · cases hi
      rename_i hj
      obtain ⟨hmem, rfl⟩ := Table.find?_some hi
      exact ⟨i, hmem, d, hd, by simp [sweepTakes, hj, hfinds], he⟩
    · rintro ⟨i, hi, d, hd, htakes, he⟩
      have hj : i.id ∉ dropped r id now only (sweepIds r.traffics id now) := by
        simp only [sweepTakes, Bool.or_eq_false_iff, decide_eq_false_iff_not] at htakes
        exact htakes.1
      exact ⟨i.id, i, by rw [if_neg hj]; exact Table.find?_of_mem hi, d, hd, he⟩

end Sweep

end Simorgh.Panel
