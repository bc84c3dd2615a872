import Simorgh.Panel.Writers
import Simorgh.Radius.Lookup

/-!
# One account for password, bill and address

A dial is resolved three times: the password is taken from an entry of the dialled
inbound, the address from a slot there, and the bill from the first entry under the
user name on any inbound of the protocol.

* `Place` — where an account stands; `passwordPlace`, `emailPlace`, `addressPlace`
  are the three it is resolved to.
* `same_account_iff` — when no write gives a user name to a second inbound of a
  protocol, the three are one account, in every state, exactly when the slots of
  the dialled inbound decode.
* `email_of_another_bills_it` — otherwise the bill goes to another account.
-/

namespace Simorgh.Radius

open Simorgh.Lib Simorgh.Lib.Json Simorgh.Panel

/-! ## Three lookups -/

/-- Where an account stands: its inbound, and its position there. -/
structure Place where
  inboundId : Nat
  index : Nat
  deriving DecidableEq, Repr

/-- The first account of an inbound under a user name. -/
def placeNamed (i : Inbound) (username : String) : Option Place :=
  ((getClients i).findIdx? (named username)).map fun index => ⟨i.id, index⟩

/-- The account whose password `lookupClient` returns. -/
def passwordPlace (r : Roster) (p : Protocol) (inboundId : Int) (username : String) : Option Place :=
  match lookupClientEntry r p inboundId username with
  | .error _ => none
  | .ok _ => (dialledInbound r p inboundId username).bind fun i => placeNamed i username

/-- The account whose email `lookupEmail` returns. -/
def emailPlace (r : Roster) (p : Protocol) (username : String) : Option Place :=
  r.inbounds.rows.findSome? fun i =>
    if decide (i.protocol = p) && parsesAs slotFields i then placeNamed i username else none

/-- The account whose slot `getClientIP` assigns an address from.  It looks neither at the
protocol of the inbound nor at its switch. -/
def addressPlace (r : Roster) (p : Protocol) (inboundId : Int) (username : String) : Option Place :=
  (dialledInbound r p inboundId username).bind fun i =>
    if parsesAs slotFields i then placeNamed i username else none

/-- The three are one account. -/
def SameAccount (r : Roster) (p : Protocol) (inboundId : Int) (username : String) : Prop :=
  ∃ place, passwordPlace r p inboundId username = some place ∧ emailPlace r p username = some place ∧
    addressPlace r p inboundId username = some place

instance (r : Roster) (p : Protocol) (inboundId : Int) (username : String) :
    Decidable (SameAccount r p inboundId username) :=
  decidable_of_iff ((passwordPlace r p inboundId username).any fun place =>
      decide (emailPlace r p username = some place) &&
        decide (addressPlace r p inboundId username = some place)) (by
    unfold SameAccount
    cases passwordPlace r p inboundId username with
    | none => simp
    | some place => simp)

theorem placeNamed_isSome (i : Inbound) (username : String) :
    (placeNamed i username).isSome = (entryNamed i username).isSome := by
  rw [placeNamed, Option.isSome_map, entryNamed, List.findIdx?_isSome, List.isSome_find?]

/-! ## User names -/

/-- The user names of an inbound's accounts. -/
def listedNames (i : Inbound) : List String := (getClients i).flatMap fun c => [c.id, c.email]

theorem entryNamed_isSome_iff (i : Inbound) (username : String) :
    (entryNamed i username).isSome = true ↔ username ∈ listedNames i := by
  simp only [entryNamed, List.isSome_find?, List.any_eq_true, named, Bool.or_eq_true, decide_eq_true_iff,
    listedNames, List.mem_flatMap, List.mem_cons, List.not_mem_nil, or_false]
  refine exists_congr fun c => and_congr_right fun _ => ?_
  rw [eq_comm, @eq_comm _ c.email]

/-- No user name is listed on both. -/
def Apart (i j : Inbound) : Prop := ∀ u ∈ listedNames i, u = "" ∨ u ∉ listedNames j

instance (i j : Inbound) : Decidable (Apart i j) :=
  inferInstanceAs (Decidable (∀ u ∈ listedNames i, u = "" ∨ u ∉ listedNames j))

/-- No user name is listed on two inbounds of a protocol. -/
def Unshared (db : Db) : Prop :=
  ∀ i ∈ db.inbounds.rows, ∀ j ∈ db.inbounds.rows, i.id ≠ j.id → i.base.protocol = j.base.protocol →
    Apart i.base j.base

instance (db : Db) : Decidable (Unshared db) :=
  inferInstanceAs (Decidable (∀ i ∈ db.inbounds.rows, ∀ j ∈ db.inbounds.rows, i.id ≠ j.id →
    i.base.protocol = j.base.protocol → Apart i.base j.base))

theorem Apart.symm {i j : Inbound} (h : Apart i j) : Apart j i := by
  intro u hu
  by_cases hempty : u = ""
  · exact Or.inl hempty
  · exact Or.inr fun hi => (h u hi).elim hempty fun hj => hj hu

/-- What an accepted dial has gone through. -/
theorem lookupClientEntry_ok {r : Roster} {p : Protocol} {inboundId : Int} {username : String} {c : Client}
    (h : lookupClientEntry r p inboundId username = .ok c) :
    ∃ i, dialledInbound r p inboundId username = some i ∧ i ∈ r.inbounds.rows ∧ i.protocol = p ∧
      entryNamed i username = some c := by
  unfold lookupClientEntry at h
  cases hdialled : dialledInbound r p inboundId username with
  | none => simp [hdialled] at h
  | some i =>
      have hmem : i ∈ r.inbounds.rows := by
        unfold dialledInbound at hdialled
        split at hdialled
        · exact (Table.find?_some hdialled).1
        · exact List.mem_of_find?_eq_some hdialled
      simp only [hdialled] at h
      split at h
      · cases h
      split at h
      · cases h
      rename_i hprotocol
      split at h
      · cases h
      cases hentry : entryNamed i username with
      | none => simp [hentry] at h
      | some c' =>
          simp only [hentry] at h
          split at h
          · cases h
          split at h
          · cases h
          cases h
          exact ⟨i, rfl, hmem, not_not.1 hprotocol, hentry⟩

/-- Without shared names only one inbound of the protocol lists a user name. -/
theorem Unshared.eq {db : Db} (hdb : Unshared db) {i j : Inbound} (hi : i ∈ db.roster.inbounds.rows)
    (hj : j ∈ db.roster.inbounds.rows) (hprotocol : i.protocol = j.protocol) {username : String}
    (hname : username ≠ "") (hlisted : username ∈ listedNames i) (hlisted' : username ∈ listedNames j) :
    i = j := by
  obtain ⟨i', hi', rfl⟩ := List.mem_map.1 hi
  obtain ⟨j', hj', rfl⟩ := List.mem_map.1 hj
  by_contra hne
  have hid : i'.id ≠ j'.id := fun hid => hne (by rw [Table.eq_of_key_eq hi' hj' hid])
  rcases hdb i' hi' j' hj' hid hprotocol username hlisted with hempty | hfree
  · exact hname hempty
  · exact hfree hlisted'

/-- Without shared names the three agree on a dial that is accepted, if the slots decode. -/
theorem sameAccount_iff {db : Db} (hdb : Unshared db) {p : Protocol} {inboundId : Int} {username : String}
    {c : Client} (hname : username ≠ "") (hlookup : lookupClientEntry db.roster p inboundId username = .ok c) :
    SameAccount db.roster p inboundId username ↔
      ∀ i ∈ dialledInbound db.roster p inboundId username, parsesAs slotFields i = true := by
  have hpassword : passwordPlace db.roster p inboundId username =
      (dialledInbound db.roster p inboundId username).bind fun i => placeNamed i username := by
    rw [passwordPlace, hlookup]
  obtain ⟨i, hdialled, hi, hprotocol, hentry⟩ := lookupClientEntry_ok hlookup
  obtain ⟨place, hplace⟩ : ∃ place, placeNamed i username = some place :=
    Option.isSome_iff_exists.1 (by rw [placeNamed_isSome, hentry]; rfl)
  have haddress : addressPlace db.roster p inboundId username =
      if parsesAs slotFields i then some place else none := by
    rw [addressPlace, hdialled, Option.bind_some, hplace]
  constructor
  · rintro ⟨place', -, -, haddress'⟩ j hj
    rw [hdialled, Option.mem_def, Option.some.injEq] at hj
    subst hj
    rw [haddress] at haddress'
    by_contra hparses
    rw [if_neg hparses] at haddress'
    cases haddress'
  · intro hparses
    have hparses := hparses i hdialled
    refine ⟨place, ?_, ?_, ?_⟩
    · rw [hpassword, hdialled, Option.bind_some, hplace]
    · have hfound : ((db.roster.inbounds.rows.findSome? fun i =>
          if decide (i.protocol = p) && parsesAs slotFields i then placeNamed i username else none)).isSome := by
        rw [List.findSome?_isSome_iff]
        exact ⟨i, hi, by simp [hprotocol, hparses, hplace]⟩
      obtain ⟨place', hplace'⟩ := Option.isSome_iff_exists.1 hfound
      obtain ⟨j, hj, hjplace⟩ := List.exists_of_findSome?_eq_some hplace'
      split at hjplace
      · rename_i hcond
        rw [Bool.and_eq_true, decide_eq_true_iff] at hcond
        -- the inbound it is found on lists the name, so it is the dialled one
        have hsame : i = j := by
          refine hdb.eq hi hj (hprotocol.trans hcond.1.symm) hname ?_ ?_
          · rw [← entryNamed_isSome_iff, hentry]
            rfl
          · rw [← entryNamed_isSome_iff, ← placeNamed_isSome, hjplace]
            rfl
        rw [← hsame, hplace] at hjplace
        exact hplace'.trans hjplace.symm
      · cases hjplace
    · rw [haddress, hparses, if_pos rfl]

/-! ## The names a write brings -/

/-- The key is taken for `id` or `email`. -/
def nameKey (k : String) : Bool := sameName k "id" || sameName k "email"

/-- The strings posted under a spelling of `id` or `email`. -/
def postedNames (t : Text) : List String :=
  t.filterMap fun a => if nameKey a.1 then a.2.str? else none

/-- Every user name of the members is one of these. -/
def Drawn {ν : Type} (us : List String) (t : List (String × Val ν)) : Prop :=
  ∀ a ∈ t, nameKey a.1 = true → ∀ s, a.2 = .str s → s ∈ us

section Drawn

variable {ν : Type} {us : List String}

theorem drawn_postedNames (t : Text) : Drawn (postedNames t) t := by
  intro a ha hkey s hs
  exact List.mem_filterMap.2 ⟨a, ha, by rw [if_pos hkey, hs]; rfl⟩

theorem drawn_append {l l' : List (String × Val ν)} (h : Drawn us l) (h' : Drawn us l') :
    Drawn us (l ++ l') :=
  fun a ha => (List.mem_append.1 ha).elim (h a) (h' a)

theorem drawn_singleton {a : String × Val ν} (h : nameKey a.1 = true → ∀ s, a.2 = .str s → s ∈ us) :
    Drawn us [a] :=
  fun _ hb => List.mem_singleton.1 hb ▸ h

theorem Drawn.set {o : Obj ν} (h : Drawn us o.members) {k : String} {v : Val ν}
    (hv : nameKey k = true → ∀ s, v = .str s → s ∈ us) : Drawn us (o.set k v).members := by
  intro a ha hkey s hs
  rcases key_of_mem_setSorted ha with rfl | ha
  · exact hv hkey s hs
  · exact h a ha hkey s hs

theorem Drawn.set_of_not {o : Obj ν} (h : Drawn us o.members) {k : String} (hk : nameKey k = false)
    (v : Val ν) : Drawn us (o.set k v).members :=
  h.set fun hkey => by rw [hk] at hkey; cases hkey

theorem Drawn.mapNum {μ : Type} {f : ν → μ} {o : Obj ν} (h : Drawn us o.members) :
    Drawn us (o.mapNum f).members := by
  intro a ha hkey s hs
  obtain ⟨b, hb, rfl⟩ := List.mem_map.1 ha
  refine h b hb hkey s ?_
  cases hval : b.2 <;> simp_all [Val.map]

/-- An object built of members one after another. -/
theorem drawn_foldl_set {β : Type} {f : β → String × Val ν} {l : List β} {o : Obj ν} (ho : Drawn us o.members)
    (hl : Drawn us (l.map f)) : Drawn us (l.foldl (fun o b => o.set (f b).1 (f b).2) o).members := by
  induction l generalizing o with
  | nil => exact ho
  | cons b l ih =>
      refine ih (ho.set fun hkey s hs => ?_) fun a ha => hl a (List.mem_cons_of_mem _ ha)
      exact hl (f b) List.mem_cons_self hkey s hs

theorem drawn_toMap {t : Text} (h : Drawn us t) : Drawn us (Text.toMap t).members := by
  refine drawn_foldl_set (f := fun a : String × Val Lit => (a.1, a.2.map Lit.toNum)) (o := Obj.empty)
    (fun a ha => by cases ha) ?_
  intro a ha hkey s hs
  obtain ⟨b, hb, rfl⟩ := List.mem_map.1 ha
  refine h b hb hkey s ?_
  cases hval : b.2 <;> simp_all [Val.map]

theorem drawn_verbatim {t : Text} (h : Drawn us t) : Drawn us (verbatim t).members := by
  refine drawn_foldl_set (f := id) (o := Obj.empty) (fun a ha => by cases ha) ?_
  rw [List.map_id]
  exact h

/-- A field is its zero value, or was read off one of its members. -/
theorem field_mem {β : Type} {name : String} {read : Val Lit → Option β} {zero : β} (t : Text) :
    field name read zero t = zero ∨
      ∃ a ∈ t, sameName a.1 name = true ∧ read a.2 = some (field name read zero t) := by
  induction t generalizing zero with
  | nil => exact Or.inl rfl
  | cons a t ih =>
      rw [field_cons]
      rcases @ih (if sameName a.1 name then (read a.2).getD zero else zero) with hzero | ⟨b, hb, hname, hread⟩
      · rw [hzero]
        split
        · rename_i hname
          cases hread : read a.2 with
          | none => exact Or.inl rfl
          | some v => exact Or.inr ⟨a, List.mem_cons_self, hname, hread⟩
        · exact Or.inl rfl
      · exact Or.inr ⟨b, List.mem_cons_of_mem a hb, hname, hread⟩

theorem Drawn.field {t : Text} (h : Drawn us t) {name : String} (hname : ∀ k, sameName k name = true →
    nameKey k = true) : Json.field name Val.str? "" t = "" ∨ Json.field name Val.str? "" t ∈ us := by
  rcases @field_mem _ name Val.str? "" t with hzero | ⟨a, ha, hkey, hread⟩
  · exact Or.inl hzero
  · refine Or.inr (h a ha (hname _ hkey) _ ?_)
    cases hval : a.2 <;> simp_all [Val.str?]

/-- The user names of an entry come from its members. -/
theorem Drawn.decode {t : Text} (h : Drawn us t) :
    ((Client.decode t).id = "" ∨ (Client.decode t).id ∈ us) ∧
      ((Client.decode t).email = "" ∨ (Client.decode t).email ∈ us) :=
  ⟨h.field fun k hk => by simp [nameKey, hk], h.field fun k hk => by simp [nameKey, hk]⟩

end Drawn

/-- Every account of the inbound has its names among these, or stood on the other inbound. -/
def NamesFrom (us : List String) (old : List String) (entries : List Doc) : Prop :=
  ∀ d ∈ entries, ∀ u, u = (Client.decode d.members).id ∨ u = (Client.decode d.members).email →
    u = "" ∨ u ∈ us ∨ u ∈ old

theorem namesFrom_of_drawn {us old : List String} {entries : List Doc}
    (h : ∀ d ∈ entries, Drawn us d.members) : NamesFrom us old entries := by
  intro d hd u hu
  obtain ⟨hid, hemail⟩ := (h d hd).decode
  rcases hu with rfl | rfl
  · exact hid.imp_right Or.inl
  · exact hemail.imp_right Or.inl

theorem mem_listedNames {i : Inbound} {u : String} :
    u ∈ listedNames i ↔ ∃ d ∈ i.settings.clients,
      u = (Client.decode d.members).id ∨ u = (Client.decode d.members).email := by
  simp [listedNames, getClients, List.mem_flatMap]

/-- Entries that are written back have the names they had. -/
theorem namesFrom_rewrite {us : List String} {i : Inbound} {entries : List Doc}
    (h : ∀ d ∈ entries, ∃ d₀ ∈ i.settings.clients, d = rewrite d₀) : NamesFrom us (listedNames i) entries := by
  intro d hd u hu
  obtain ⟨d₀, hd₀, rfl⟩ := h d hd
  have hfield : ∀ name, sameName "expiryTime" name = false →
      field name Val.str? "" (rewrite d₀).members = field name Val.str? "" d₀.members :=
    fun name hname => (Rewritten.rewrite d₀).field hname (fun v f => by cases v <;> rfl) ""
  refine Or.inr (Or.inr (mem_listedNames.2 ⟨d₀, hd₀, hu.imp ?_ ?_⟩))
  · exact fun hu => hu.trans (hfield "id" (by decide))
  · exact fun hu => hu.trans (hfield "email" (by decide))

section

variable [Runtime]

/-- A slot is all the assignment of slots writes. -/
theorem drawn_assignSlots {us : List String} {p : Protocol} {existing : List Doc} {ms : List Map}
    (h : ∀ m ∈ ms, Drawn us m.members) :
    ∀ m ∈ assignSlotsToClientMaps p existing ms, Drawn us m.members := by
  have heach : ∀ (ms : List Map) (byEmail : List (String × ℤ)) (used : List ℤ),
      (∀ m ∈ ms, Drawn us m.members) → ∀ m ∈ assignEach byEmail used ms, Drawn us m.members := by
    intro ms byEmail
    induction ms with
    | nil => exact fun used _ m hm => by cases hm
    | cons m₀ ms ih =>
        intro used h m hm
        rcases List.mem_cons.1 hm with rfl | hm
        · split
          · exact (h m₀ List.mem_cons_self).set_of_not (by decide) _
          · exact h m₀ List.mem_cons_self
        · exact ih _ (fun m hm => h m (List.mem_cons_of_mem _ hm)) m hm
  unfold assignSlotsToClientMaps
  split
  · exact heach ms _ _ h
  · exact h

omit [Runtime] in
theorem drawn_stampAdded (now : Int) {us : List String} {t : Text} (h : Drawn us t) :
    Drawn us (stampAdded now t).members := by
  unfold stampAdded
  simp only
  split
  · exact ((drawn_toMap h).set_of_not (by decide) _).set_of_not (by decide) _
  · exact (drawn_toMap h).set_of_not (by decide) _

omit [Runtime] in
theorem drawn_updatedAt {us : List String} {m : Map} (h : Drawn us m.members) (stamp : Option ℤ) :
    Drawn us (if (m.get? "updated_at").isNone then
      match stamp with
      | some v => m.set "updated_at" (.num (.int v))
      | none => m
      else m).members := by
  split
  · cases stamp with
    | none => exact h
    | some v => exact h.set_of_not (by decide) _
  · exact h

omit [Runtime] in
theorem drawn_stampUpdated (now : Int) (old : List Doc) {us : List String} {t : Text} (h : Drawn us t) :
    Drawn us (stampUpdated now old t).members := by
  refine drawn_updatedAt ?_ _
  split
  · exact (drawn_toMap h).set_of_not (by decide) _
  · exact drawn_toMap h

/-- What is posted for an inbound, after the emails are trimmed. -/
def namesOf (posted : List Text) : List String := posted.flatMap postedNames

omit [Runtime] in
theorem drawn_namesOf {posted : List Text} {t : Text} (ht : t ∈ posted) : Drawn (namesOf posted) t :=
  fun a ha hkey s hs => List.mem_flatMap.2 ⟨t, ht, drawn_postedNames t a ha hkey s hs⟩

theorem drawn_addedEntries (now : Int) (i : Inbound) (posted : List Text) :
    ∀ d ∈ addedEntries now i posted, Drawn (namesOf posted) d.members := by
  intro d hd
  obtain ⟨m, hm, rfl⟩ := List.mem_map.1 hd
  refine Drawn.mapNum (drawn_assignSlots (fun m hm => ?_) m hm)
  obtain ⟨t, ht, rfl⟩ := List.mem_map.1 hm
  exact drawn_stampAdded now (drawn_namesOf ht)

theorem drawn_formEntries (now : Int) (old : Inbound) (p : Protocol) (posted : List Text) :
    ∀ d ∈ formEntries now old p posted, Drawn (namesOf posted) d.members := by
  intro d hd
  unfold formEntries at hd
  split at hd
  · obtain ⟨m, hm, rfl⟩ := List.mem_map.1 hd
    refine Drawn.mapNum (drawn_assignSlots (fun m hm => ?_) m hm)
    obtain ⟨t, ht, rfl⟩ := List.mem_map.1 hm
    exact drawn_stampUpdated now _ (drawn_namesOf ht)
  · obtain ⟨t, ht, rfl⟩ := List.mem_map.1 hd
    exact drawn_verbatim (drawn_namesOf ht)

omit [Runtime] in
theorem drawn_editedEntry (now : Int) (i : Inbound) (index : Nat) {us : List String} {t : Text}
    (h : Drawn us t) : Drawn us (editedEntry now i index t).members := by
  have hstamped : ∀ v, Drawn us (((Text.toMap t).set "created_at" v).set "updated_at"
      (.num (.int now))).members :=
    fun v => ((drawn_toMap h).set_of_not (by decide) v).set_of_not (by decide) _
  unfold editedEntry
  refine Drawn.mapNum ?_
  split
  · exact (hstamped _).set_of_not (by decide) _
  · exact hstamped _

omit [Runtime] in
/-- The client struct written back has the names that were posted. -/
theorem drawn_encode {us : List String} {t : Text} (h : Drawn us t) :
    Drawn ("" :: us) (Client.decode t).encode := by
  obtain ⟨hid, hemail⟩ := h.decode
  have htext : ∀ k v, (nameKey k = true → v = "" ∨ v ∈ us) →
      Drawn ("" :: us) (if v = "" then [] else [(k, (.str v : Val Lit))]) := by
    intro k v hv
    split
    · exact fun a ha => by cases ha
    · exact drawn_singleton fun hkey s hs => by cases hs; exact List.mem_cons.2 (hv hkey)
  have hother : ∀ k v, nameKey k = false → Drawn ("" :: us) [(k, (v : Val Lit))] :=
    fun k v hk => drawn_singleton fun hkey => by rw [hk] at hkey; cases hkey
  unfold Client.encode
  refine drawn_append (drawn_append (drawn_append (drawn_append ?_ ?_) ?_) ?_) ?_
  · exact htext "id" _ fun _ => hid
  · exact htext "password" _ fun hkey => absurd hkey (by decide)
  · exact htext "auth" _ fun hkey => absurd hkey (by decide)
  · refine drawn_append (l := [_]) (drawn_singleton fun _ s hs => by cases hs; exact List.mem_cons.2 hemail) ?_
    refine drawn_append (l := [_]) (hother "totalGB" _ (by decide)) ?_
    refine drawn_append (l := [_]) (hother "expiryTime" _ (by decide)) ?_
    refine drawn_append (l := [_]) (hother "enable" _ (by decide)) ?_
    exact drawn_append (l := [_]) (hother "subId" _ (by decide)) (hother "reset" _ (by decide))
  · exact htext "username" _ fun hkey => absurd hkey (by decide)

omit [Runtime] in
theorem drawn_newEntries (now : Int) (p : Protocol) (posted : List Text) :
    ∀ d ∈ newEntries now p posted, Drawn ("" :: namesOf posted) d.members := by
  intro d hd
  unfold newEntries at hd
  split at hd
  · obtain ⟨⟨t, k⟩, htk, rfl⟩ := List.mem_map.1 hd
    have ht : t ∈ posted := (List.mem_zipIdx htk).2.2 ▸ List.getElem_mem _
    refine drawn_verbatim (drawn_append (drawn_append (drawn_encode (drawn_namesOf ht)) ?_) ?_)
    · intro a ha hkey
      obtain ⟨s, -, rfl⟩ := List.mem_map.1 ha
      exact absurd hkey (show ¬nameKey "slot" = true by decide)
    · intro a ha hkey
      rcases List.mem_cons.1 ha with rfl | ha
      · exact absurd hkey (show ¬nameKey "created_at" = true by decide)
      · rw [List.mem_singleton.1 ha] at hkey
        exact absurd hkey (show ¬nameKey "updated_at" = true by decide)
  · obtain ⟨t, ht, rfl⟩ := List.mem_map.1 hd
    exact drawn_verbatim fun a ha hkey s hs => List.mem_cons_of_mem _ (drawn_namesOf ht a ha hkey s hs)

/-! ## Whole runs -/

/-- None of the names is listed on another inbound of the protocol. -/
def namesFree (db : Db) (id : Nat) (p : Protocol) (us : List String) : Bool :=
  db.inbounds.rows.all fun j => decide (j.id = id) || decide (j.base.protocol ≠ p) ||
    us.all fun u => decide (u = "") || decide (u ∉ listedNames j.base)

/-- The write gives no user name to a second inbound of a protocol. -/
def unshared (db : Db) : PanelWrite → Bool
  | .addInbound _ _ _ form =>
      namesFree db (db.newId form) form.protocol (namesOf (normalizeClientEmails form.clients))
  | .edit _ id (.add _ _ posted) | .edit _ id (.edit _ posted _) =>
      (db.inbounds.find? id).all fun row =>
        namesFree db id row.base.protocol (namesOf (normalizeClientEmails posted))
  | .edit _ _ (.del _) => true
  | .edit _ id (.update _ _ form) =>
      namesFree db id form.protocol (namesOf (normalizeClientEmails form.clients))

/-- The names of the row an operation makes: those that were posted, and those of the row
it has read while the protocol stays. -/
theorem result_names {op : InboundOp} {row row' : InboundRow} (hresult : op.result row = some row') :
    match op with
    | .add _ _ posted | .edit _ posted _ =>
        row'.base.protocol = row.base.protocol ∧
          NamesFrom (namesOf (normalizeClientEmails posted)) (listedNames row.base)
            row'.base.settings.clients
    | .del _ => row'.base.protocol = row.base.protocol ∧
        NamesFrom [] (listedNames row.base) row'.base.settings.clients
    | .update _ _ form => row'.base.protocol = form.protocol ∧
        NamesFrom (namesOf (normalizeClientEmails form.clients)) [] row'.base.settings.clients := by
  cases op with
  | add now pool posted =>
      cases hresult
      refine ⟨rfl, fun d hd => ?_⟩
      rcases List.mem_append.1 hd with hold | hnew
      · obtain ⟨d₀, hd₀, rfl⟩ := List.mem_map.1 hold
        exact namesFrom_rewrite (fun d hd => ⟨d₀, hd₀, List.mem_singleton.1 hd⟩) _ (List.mem_singleton.2 rfl)
      · exact namesFrom_of_drawn (drawn_addedEntries _ _ _) d hnew
  | edit now posted clientId =>
      cases hposted : normalizeClientEmails posted with
      | nil => simp [InboundOp.result, hposted] at hresult
      | cons t ts =>
          simp only [InboundOp.result, hposted, Option.map_eq_some_iff] at hresult
          obtain ⟨index, -, rfl⟩ := hresult
          refine ⟨rfl, fun d hd => ?_⟩
          rcases List.mem_or_eq_of_mem_set hd with hold | rfl
          · obtain ⟨d₀, hd₀, rfl⟩ := List.mem_map.1 hold
            exact namesFrom_rewrite (fun d hd => ⟨d₀, hd₀, List.mem_singleton.1 hd⟩) _
              (List.mem_singleton.2 rfl)
          · refine namesFrom_of_drawn (fun d hd => ?_) _ (List.mem_singleton.2 rfl)
            rw [List.mem_singleton.1 hd]
            exact drawn_editedEntry now _ index (drawn_namesOf (hposted ▸ List.mem_cons_self))
  | del clientId =>
      cases hresult
      refine ⟨rfl, namesFrom_rewrite fun d hd => ?_⟩
      obtain ⟨d₀, hd₀, rfl⟩ := List.mem_map.1 hd
      exact ⟨d₀, List.mem_of_mem_filter hd₀, rfl⟩
  | update now validate form =>
      cases hresult
      exact ⟨rfl, namesFrom_of_drawn (drawn_formEntries _ _ _ _)⟩

omit [Runtime] in
/-- A row whose names are posted and free, or stood there before, is apart from the others. -/
theorem apart_of_namesFrom {db : Db} (hdb : Unshared db) {id : Nat} {p : Protocol} {us old : List String}
    {row' j : InboundRow} (hp : row'.base.protocol = p) (hfree : namesFree db id p us = true)
    (hnames : NamesFrom us old row'.base.settings.clients)
    (hold : ∀ u ∈ old, ∃ row ∈ db.inbounds.rows, row.id = id ∧ row.base.protocol = p ∧
      u ∈ listedNames row.base)
    (hj : j ∈ db.inbounds.rows) (hid : j.id ≠ id) (hprotocol : row'.base.protocol = j.base.protocol) :
    Apart row'.base j.base := by
  intro u hu
  obtain ⟨d, hd, hentry⟩ := mem_listedNames.1 hu
  rcases hnames d hd u hentry with hempty | hposted | hbefore
  · exact Or.inl hempty
  · have hj' := List.all_eq_true.1 hfree j hj
    simp only [hid, decide_false, Bool.false_or, ← hprotocol, hp, ne_eq, not_true_eq_false] at hj'
    simpa using List.all_eq_true.1 hj' u hposted
  · obtain ⟨row, hrow, hrowid, hrowp, hlisted⟩ := hold u hbefore
    refine hdb row hrow j hj (fun h => hid (h.symm.trans hrowid)) ?_ u hlisted
    rw [hrowp, ← hp, hprotocol]

/-- The row a write saves is apart from the other inbounds of its protocol. -/
theorem row?_apart {db : Db} (hdb : Unshared db) {w : PanelWrite} (hw : unshared db w = true)
    {row' j : InboundRow} (hrow : w.row? db = some row') (hj : j ∈ db.inbounds.rows) (hid : row'.id ≠ j.id)
    (hprotocol : row'.base.protocol = j.base.protocol) : Apart row'.base j.base := by
  cases w with
  | addInbound h now validate form =>
      cases hrow
      refine @apart_of_namesFrom db hdb _ _ _ [] _ _ rfl hw ?_ (fun u hu => by cases hu) hj
        (Ne.symm hid) hprotocol
      intro d hd u hu
      rcases namesFrom_of_drawn (drawn_newEntries _ _ _) d hd u hu with hempty | hmem | hmem
      · exact Or.inl hempty
      · exact (List.mem_cons.1 hmem).imp_right Or.inl
      · exact Or.inr (Or.inr hmem)
  | edit h id op =>
      obtain ⟨row, hfind, hresult⟩ := Option.bind_eq_some_iff.1 hrow
      have hnames := result_names hresult
      have hrowid : row'.id = id := (result_id hresult).trans (Table.find?_some hfind).2
      have hown : ∀ u ∈ listedNames row.base, row'.base.protocol = row.base.protocol →
          ∃ row₀ ∈ db.inbounds.rows, row₀.id = id ∧ row₀.base.protocol = row'.base.protocol ∧
            u ∈ listedNames row₀.base :=
        fun u hu hp => ⟨row, (Table.find?_some hfind).1, (Table.find?_some hfind).2, hp.symm, hu⟩
      have hother : j.id ≠ id := fun h => hid (hrowid.trans h.symm)
      cases op with
      | add now pool posted =>
          obtain ⟨hp, hnames⟩ := hnames
          simp only [unshared, hfind, Option.all_some, ← hp] at hw
          exact apart_of_namesFrom hdb rfl hw hnames (fun u hu => hown u hu hp) hj hother hprotocol
      | edit now posted clientId =>
          obtain ⟨hp, hnames⟩ := hnames
          simp only [unshared, hfind, Option.all_some, ← hp] at hw
          exact apart_of_namesFrom hdb rfl hw hnames (fun u hu => hown u hu hp) hj hother hprotocol
      | del clientId =>
          obtain ⟨hp, hnames⟩ := hnames
          exact apart_of_namesFrom hdb rfl (by simp [namesFree]) hnames (fun u hu => hown u hu hp) hj hother
            hprotocol
      | update now validate form =>
          obtain ⟨hp, hnames⟩ := hnames
          exact apart_of_namesFrom hdb hp hw hnames (fun u hu => by cases hu) hj hother hprotocol

/-- A write that shares no names keeps them unshared. -/
theorem unshared_step {db : Db} (hdb : Unshared db) {w : PanelWrite} (hw : unshared db w = true) :
    Unshared (w.step db) := by
  intro i hi j hj hid hprotocol
  rcases mem_step hi with hi | hrow
  · rcases mem_step hj with hj | hrow
    · exact hdb i hi j hj hid hprotocol
    · exact (row?_apart hdb hw hrow hi (Ne.symm hid) hprotocol.symm).symm
  · rcases mem_step hj with hj | hrow'
    · exact row?_apart hdb hw hrow hj hid hprotocol
    · rw [hrow, Option.some.injEq] at hrow'
      exact absurd (congrArg InboundRow.id hrow') hid

/-- In every state of a run that shares no user name, an accepted dial is checked, billed
and addressed as one account exactly when the slots on the dialled inbound decode. -/
theorem same_account_iff (start : Db) (ws : List PanelWrite) (hstart : Unshared start)
    (hws : AllSteps PanelWrite.step (fun db w => unshared db w = true) start ws) :
    ∀ db ∈ states PanelWrite.step start ws, ∀ (p : Protocol) (inboundId : Int) (username : String)
      (c : Client), username ≠ "" → lookupClientEntry db.roster p inboundId username = .ok c →
      (SameAccount db.roster p inboundId username ↔
        ∀ i ∈ dialledInbound db.roster p inboundId username, parsesAs slotFields i = true) := by
  intro db hmem p inboundId username c hname hlookup
  have hstep : ∀ db w, Unshared db → unshared db w = true → Unshared (PanelWrite.step db w) :=
    fun db w hdb hw => unshared_step hdb hw
  exact sameAccount_iff (hws.invariant hstep hstart db hmem) hname hlookup

end

/-! ## Two inbounds -/

/-- A panel without inbounds. -/
def emptyPanel : Db where
  inbounds := Table.empty
  traffics := Table.empty

/-- A new SSTP inbound with one account. -/
def newSstp (port : Nat) (username email : String) : PanelWrite :=
  .addInbound ⟨5000, some {}⟩ 5000 (fun _ => none)
    { id := 0, port := port, protocol := .sstp,
      clients := [[("id", .str username), ("password", .str ("of " ++ username)), ("email", .str email),
        ("enable", .bool true)]] }

/-- The panel after these writes. -/
def panelAfter (ws : List PanelWrite) : Db := run (@PanelWrite.step Runtime.ascii) emptyPanel ws

/-- With names of its own the second inbound's account is one account. -/
theorem own_name_same_account :
    SameAccount (panelAfter [newSstp 443 "ann" "ann@a", newSstp 444 "bob" "bob@b"]).roster .sstp 2 "bob" := by
  refine (@same_account_iff Runtime.ascii emptyPanel [newSstp 443 "ann" "ann@a", newSstp 444 "bob" "bob@b"]
    (by decide +kernel) (by decide +kernel) _ (run_mem_states _ _) .sstp 2 "bob"
    { id := "bob", password := "of bob", email := "bob@b", enable := true } (by decide)
    (by decide +kernel)).2 ?_
  decide +kernel

/-- Ann's email is bob's user name.  Both writes are accepted; bob dials in on the second
inbound with his password, and ann is billed. -/
theorem email_of_another_bills_it :
    lookupClient (panelAfter [newSstp 443 "ann" "bob", newSstp 444 "bob" "bob@b"]).roster .sstp 2 "bob" =
        .ok "of bob" ∧
      lookupEmail (panelAfter [newSstp 443 "ann" "bob", newSstp 444 "bob" "bob@b"]).roster .sstp "bob" =
        "bob" ∧
      passwordPlace (panelAfter [newSstp 443 "ann" "bob", newSstp 444 "bob" "bob@b"]).roster .sstp 2 "bob" =
        some ⟨2, 0⟩ ∧
      emailPlace (panelAfter [newSstp 443 "ann" "bob", newSstp 444 "bob" "bob@b"]).roster .sstp "bob" =
        some ⟨1, 0⟩ ∧
      ¬SameAccount (panelAfter [newSstp 443 "ann" "bob", newSstp 444 "bob" "bob@b"]).roster .sstp 2
        "bob" := by
  decide +kernel

end Simorgh.Radius
