import Mathlib.Data.List.Pairwise
import Simorgh.Panel.Ldap

/-!
# What an LDAP sync leaves alone

The sync switches a client on or off by adding it again, and an add never replaces an entry.

* `Slot` — what an entry is to the job.
* `Grown` — every inbound keeps its entries.
* `grown_ldapRun` — without auto-delete a run keeps every entry as it is, its switch included.
-/

namespace Simorgh.Panel

open Simorgh.Lib Simorgh.Lib.Json

/-! ## Entries -/

/-- What an entry is to the job: the members it is found by, and what the struct decoder reads. -/
structure Slot where
  key : String
  email : String
  id : String
  password : String
  name : String
  enable : Bool
  deriving DecidableEq

/-- The entry as the job sees it. -/
def slot (p : Protocol) (d : Doc) : Slot where
  key := d.str (clientIdentityKey p)
  email := d.str "email"
  id := (Client.decode d.members).id
  password := (Client.decode d.members).password
  name := (Client.decode d.members).email
  enable := (Client.decode d.members).enable

/-- The entries of an inbound. -/
def Inbound.slots (i : Inbound) : List Slot := i.settings.clients.map (slot i.protocol)

/-- An entry that is written back is the same to the job. -/
theorem slot_rewrite (p : Protocol) (d : Doc) : slot p (rewrite d) = slot p d := by
  have hstr : ∀ k, (rewrite d).str k = d.str k := by
    intro k
    rw [rewrite, Map.marshal, Doc.toMap, Obj.str_mapNum, Obj.str_mapNum]
  have hread : ∀ (name : String) {β : Type} (read : Val Lit → Option β) (zero : β),
      (∀ v, read (v.map (Num.print ∘ Lit.toNum)) = read v) →
      field name read zero (rewrite d).members = field name read zero d.members := by
    intro name β read zero h
    rw [members_rewrite]
    exact field_map_num _ h zero _
  have hstring : ∀ v : Val Lit, Val.str? (v.map (Num.print ∘ Lit.toNum)) = Val.str? v := by
    intro v
    cases v <;> rfl
  have hbool : ∀ v : Val Lit, Val.bool? (v.map (Num.print ∘ Lit.toNum)) = Val.bool? v := by
    intro v
    cases v <;> rfl
  simp only [slot, hstr, Client.decode, hread _ _ _ hstring, hread _ _ _ hbool]

theorem slots_setClients (i : Inbound) (clients : List Doc) :
    (i.setClients clients).slots = clients.map (slot i.protocol) := rfl

/-! ## Adding -/

section Grow

variable [Runtime] {s s' s'' : Roster}

/-- Every inbound keeps its entries. -/
def Grown (s s' : Roster) : Prop :=
  ∀ id i, s.inbounds.find? id = some i →
    ∃ i', s'.inbounds.find? id = some i' ∧ i'.tag = i.tag ∧ ∀ x ∈ i.slots, x ∈ i'.slots

omit [Runtime] in
theorem Grown.refl (s : Roster) : Grown s s := fun _ i hi => ⟨i, hi, rfl, fun _ hx => hx⟩

omit [Runtime] in
theorem Grown.trans (h : Grown s s') (h' : Grown s' s'') : Grown s s'' := by
  intro id i hi
  obtain ⟨i', hi', htag, hkeep⟩ := h id i hi
  obtain ⟨i'', hi'', htag', hkeep'⟩ := h' id i' hi'
  exact ⟨i'', hi'', htag'.trans htag, fun x hx => hkeep' x (hkeep x hx)⟩

omit [Runtime] in
/-- The slots of an inbound that clients were added to. -/
theorem slots_added (i : Inbound) (posted : List Text) :
    (i.setClients (i.settings.clients.map rewrite ++ posted.map stored)).slots =
      i.slots ++ posted.map fun t => slot i.protocol (stored t) := by
  rw [slots_setClients, List.map_append, List.map_map, List.map_map, Inbound.slots]
  refine congrArg (· ++ _) (List.map_congr_left fun d _ => ?_)
  exact slot_rewrite i.protocol d

theorem grown_addInboundClient (s : Roster) (inboundId : ℕ) (posted : List Text) (pool : Option String) :
    Grown s (addInboundClient s inboundId posted pool).1 := by
  unfold addInboundClient
  simp only
  split
  · exact Grown.refl s
  · split
    · exact Grown.refl s
    · split
      · exact Grown.refl s
      · next i hi =>
          split
          · exact Grown.refl s
          · split
            · intro id j hj
              simp only [find?_saveClients]
              by_cases hid : id = i.id
              · subst hid
                have hji : i = j := by
                  rw [(Table.find?_some hi).2] at hj
                  rw [hi] at hj
                  exact Option.some.inj hj
                subst hji
                rw [if_pos rfl, hj]
                refine ⟨_, rfl, rfl, fun x hx => ?_⟩
                rw [slots_added]
                exact List.mem_append_left _ hx
              · rw [if_neg hid]
                exact ⟨j, hj, rfl, fun x hx => hx⟩
            · exact Grown.refl _

theorem grown_addBatches (h : LdapHost) (r : Roster) (batch : String → List LdapClient) (tags : List String) :
    Grown s (addBatches h r batch s tags).1 := by
  have hone : ∀ s tag, Grown s (addBatch h r batch s tag).1 := by
    intro s tag
    unfold addBatch
    split
    · exact Grown.refl s
    · unfold addFromText
      split
      · exact Grown.refl s
      · exact grown_addInboundClient s _ _ _
  induction tags generalizing s with
  | nil => exact Grown.refl s
  | cons tag tags ih =>
      have hs := hone s tag
      rw [addBatches]
      split
      · next s' heq =>
          rw [heq] at hs
          exact hs
      · next s' _ _ heq =>
          rw [heq] at hs
          exact hs.trans ih

/-- Without auto-delete a run takes no entry away and switches none, whatever the directory
says of it. -/
theorem grown_ldapRun (h : LdapHost) {cfg : LdapConfig} (flags : Flags) (r : Roster)
    (hdelete : cfg.autoDelete = false) : Grown r (ldapRun h cfg flags r) := by
  unfold ldapRun
  split
  · exact Grown.refl r
  · simp only
    have hcreated := @grown_addBatches _ r h r (clientsToCreate h cfg flags r)
      (batchTags h cfg (clientsToCreate h cfg flags r))
    generalize addBatches h r (clientsToCreate h cfg flags r) r _ = created at hcreated ⊢
    split
    · exact hcreated
    · have henabled := @grown_addBatches _ created.1 h r (switchBatch cfg flags r true)
        (batchTags h cfg (switchBatch cfg flags r true))
      generalize addBatches h r (switchBatch cfg flags r true) created.1 _ = enabled at henabled ⊢
      split
      · exact hcreated.trans henabled
      · rw [if_pos (.inr hdelete)]
        exact (hcreated.trans henabled).trans (grown_addBatches h r _ _)

end Grow

end Simorgh.Panel
