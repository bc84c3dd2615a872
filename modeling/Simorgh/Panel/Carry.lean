import Mathlib.Data.List.Forall2
import Simorgh.Panel.TickSound

/-!
# What a tick leaves alone

Before it switches anything off, a tick counts bytes, starts and renews accounts.
All it does to an inbound's entries is to write them back, some with a new
expiry; all it does to a traffic row keeps its account, its inbound and, when it
was on, its being on.

* `Rewritten`, `RewrittenRow` — entries and inbounds that were only written back.
* `bookClients_carries`, `renewClients_carries` — what the two stages keep.
-/

namespace Simorgh.Panel

open Simorgh.Lib Simorgh.Lib.Json

/-! ## Entries and inbounds -/

/-- The entry was written back, any number of times, its expiry at most having changed. -/
inductive Rewritten : Doc → Doc → Prop where
  | refl (d : Doc) : Rewritten d d
  | rewrites {d d' : Doc} : Rewritten d d' → Rewritten d (rewrite d')
  | expires {d d' : Doc} (v : Val Json.Num) : Rewritten d d' →
      Rewritten d (Map.marshal ((Doc.toMap d').set "expiryTime" v))

theorem Rewritten.rewrite (d : Doc) : Rewritten d (Panel.rewrite d) := .rewrites (.refl d)

theorem Rewritten.expire (d : Doc) (v : Val Json.Num) :
    Rewritten d (Map.marshal ((Doc.toMap d).set "expiryTime" v)) :=
  .expires v (.refl d)

theorem Rewritten.trans {d d' d'' : Doc} (h : Rewritten d d') (h' : Rewritten d' d'') : Rewritten d d'' := by
  induction h' with
  | refl => exact h
  | rewrites _ ih => exact .rewrites ih
  | expires v _ ih => exact .expires v ih

/-- A number is converted on the way through a map; nothing else is. -/
theorem Rewritten.get? {d d' : Doc} (h : Rewritten d d') {k : String} (hk : k ≠ "expiryTime")
    {β : Type} {read : Val Lit → Option β} (hread : ∀ v (f : Lit → Lit), read (v.map f) = read v) :
    (d'.get? k).bind read = (d.get? k).bind read := by
  have hmap : ∀ d : Doc, ((((d.get? k).map (Val.map Lit.toNum)).map (Val.map Num.print)).bind read) =
      (d.get? k).bind read := by
    intro d
    cases d.get? k with
    | none => rfl
    | some v =>
        have hcomp : (v.map Lit.toNum).map Num.print = v.map (Num.print ∘ Lit.toNum) := by
          cases v <;> rfl
        simp only [Option.map_some, Option.bind_some, hcomp, hread]
  induction h with
  | refl => rfl
  | rewrites _ ih =>
      rw [← ih, Panel.rewrite, Map.marshal, Obj.get?_mapNum, Doc.toMap, Obj.get?_mapNum]
      exact hmap _
  | expires v _ ih =>
      rw [← ih, Map.marshal, Obj.get?_mapNum, Obj.get?_set, if_neg (Ne.symm hk), Doc.toMap,
        Obj.get?_mapNum]
      exact hmap _

/-- A field that is no number is read off as before. -/
theorem Rewritten.field {d d' : Doc} (h : Rewritten d d') {name : String}
    (hname : sameName "expiryTime" name = false) {β : Type} {read : Val Lit → Option β}
    (hread : ∀ v (f : Lit → Lit), read (v.map f) = read v) (zero : β) :
    field name read zero d'.members = field name read zero d.members := by
  have hrewrite : ∀ o : Doc, Json.field name read zero (Panel.rewrite o).members =
      Json.field name read zero o.members := by
    intro o
    rw [← field_map_num (Num.print ∘ Lit.toNum) (fun v => hread v _) zero o.members]
    simp only [Panel.rewrite, Map.marshal, Doc.toMap, Obj.mapNum, List.map_map, Function.comp_def]
    refine congrArg _ (List.map_congr_left fun a _ => ?_)
    cases a.2 <;> rfl
  induction h with
  | refl => rfl
  | rewrites _ ih => rw [← ih, hrewrite]
  | @expires d' v _ ih =>
      rw [← ih, ← hrewrite d']
      refine field_eq_of_spellings ?_ zero
      rw [Panel.rewrite, Map.marshal, Map.marshal, Obj.spellings_mapNum, Obj.spellings_mapNum,
        Obj.spellings_set, hname]
      rfl

theorem forall₂_trans {α : Type} {R : α → α → Prop} {l l' l'' : List α} (h : List.Forall₂ R l l')
    (h' : List.Forall₂ R l' l'') (hR : ∀ a b c, R a b → R b c → R a c) : List.Forall₂ R l l'' := by
  induction h generalizing l'' with
  | nil => exact h'
  | cons hab _ ih =>
      cases h' with
      | cons hbc hrest => exact .cons (hR _ _ _ hab hbc) (ih hrest)

theorem map_of_forall₂ {α β : Type} {R : α → α → Prop} {l l' : List α} (h : List.Forall₂ R l l')
    {f : α → β} (hf : ∀ a b, R a b → f b = f a) : l'.map f = l.map f := by
  induction h with
  | nil => rfl
  | cons hab _ ih => rw [List.map_cons, List.map_cons, ih, hf _ _ hab]

theorem exists_of_forall₂ {α : Type} {R : α → α → Prop} {l l' : List α} (h : List.Forall₂ R l l')
    {b : α} (hb : b ∈ l') : ∃ a ∈ l, R a b := by
  induction h with
  | nil => cases hb
  | cons hab _ ih =>
      rcases List.mem_cons.1 hb with rfl | hb
      · exact ⟨_, List.mem_cons_self, hab⟩
      · obtain ⟨a, ha, hR⟩ := ih hb
        exact ⟨a, List.mem_cons_of_mem _ ha, hR⟩

/-- The inbound had its entries written back. -/
def RewrittenRow (i i' : InboundRow) : Prop :=
  ∃ ds, List.Forall₂ Rewritten i.base.settings.clients ds ∧ i' = i.setClients ds

theorem RewrittenRow.refl (i : InboundRow) : RewrittenRow i i :=
  ⟨_, List.forall₂_same.2 fun d _ => Rewritten.refl d, rfl⟩

theorem RewrittenRow.trans {i i' i'' : InboundRow} (h : RewrittenRow i i') (h' : RewrittenRow i' i'') :
    RewrittenRow i i'' := by
  obtain ⟨ds, hds, rfl⟩ := h
  obtain ⟨ds', hds', rfl⟩ := h'
  exact ⟨ds', forall₂_trans hds hds' fun _ _ _ => Rewritten.trans, rfl⟩

theorem RewrittenRow.id {i i' : InboundRow} (h : RewrittenRow i i') : i'.id = i.id := by
  obtain ⟨ds, -, rfl⟩ := h
  rfl

/-- A save of loaded inbounds, each related to the row it was loaded from. -/
theorem saveInbounds_forall₂ {R : InboundRow → InboundRow → Prop} (hrefl : ∀ i, R i i)
    (hid : ∀ i i', R i i' → i'.id = i.id) {ids : List Nat} {db : Db} {loaded : List InboundRow}
    (h : List.Forall₂ R (loadInbounds ids db) loaded) :
    List.Forall₂ R db.inbounds.rows (saveInbounds db.inbounds loaded).rows := by
  have hnodup : (loaded.map InboundRow.id).Nodup := by
    rw [map_of_forall₂ h hid]
    exact db.inbounds.unique.sublist (List.filter_sublist.map _)
  rw [saveInbounds, Table.rows_foldl_modify InboundRow.over_id hnodup, List.forall₂_map_right_iff,
    List.forall₂_same]
  intro i hi
  cases hfind : loaded.find? fun l => decide (l.id = i.id) with
  | none => exact hrefl i
  | some l =>
      have hl : l.id = i.id := by simpa using List.find?_some hfind
      obtain ⟨i₀, hi₀, hrow⟩ := exists_of_forall₂ h (List.mem_of_find?_eq_some hfind)
      have hsame : i₀ = i :=
        Table.eq_of_key_eq (List.mem_of_mem_filter hi₀) hi ((hid _ _ hrow).symm.trans hl)
      rw [Option.map_some, Option.getD_some, InboundRow.over_self hl, ← hsame]
      exact hrow

/-! ## Traffic rows -/

/-- The row is the same account's, and it is not switched off. -/
structure Follows (r r' : ClientTraffic) : Prop where
  email : r'.email = r.email
  inboundId : r'.inboundId = r.inboundId
  enable : r.enable = true → r'.enable = true

theorem Follows.refl (r : ClientTraffic) : Follows r r := ⟨rfl, rfl, id⟩

theorem Follows.trans {r r' r'' : ClientTraffic} (h : Follows r r') (h' : Follows r' r'') :
    Follows r r'' :=
  ⟨h'.email.trans h.email, h'.inboundId.trans h.inboundId, h'.enable ∘ h.enable⟩

/-- Rows made from others, one for one. -/
structure Followed (rows rows' : List ClientTraffic) : Prop where
  emails : rows'.map (·.email) = rows.map (·.email)
  mem : ∀ r' ∈ rows', ∃ r ∈ rows, Follows r r'

theorem Followed.refl (rows : List ClientTraffic) : Followed rows rows :=
  ⟨rfl, fun r hr => ⟨r, hr, Follows.refl r⟩⟩

theorem Followed.trans {rows rows' rows'' : List ClientTraffic} (h : Followed rows rows')
    (h' : Followed rows' rows'') : Followed rows rows'' := by
  refine ⟨h'.emails.trans h.emails, fun r'' hr'' => ?_⟩
  obtain ⟨r', hr', hfollows'⟩ := h'.mem r'' hr''
  obtain ⟨r, hr, hfollows⟩ := h.mem r' hr'
  exact ⟨r, hr, hfollows.trans hfollows'⟩

theorem Followed.of_map {f : ClientTraffic → ClientTraffic} (hf : ∀ r, Follows r (f r))
    (rows : List ClientTraffic) : Followed rows (rows.map f) := by
  refine ⟨?_, fun r' hr' => ?_⟩
  · rw [List.map_map]
    exact List.map_congr_left fun r _ => (hf r).email
  · obtain ⟨r, hr, rfl⟩ := List.mem_map.1 hr'
    exact ⟨r, hr, hf r⟩

/-- What the stages before the switching off leave alone. -/
structure Carries (db db' : Db) : Prop where
  inbounds : List.Forall₂ RewrittenRow db.inbounds.rows db'.inbounds.rows
  rows : ∀ email, ∀ ct ∈ db.traffics.find? email,
    ∃ ct' ∈ db'.traffics.find? email, Follows ct ct'

theorem Carries.refl (db : Db) : Carries db db :=
  ⟨List.forall₂_same.2 fun i _ => RewrittenRow.refl i, fun _ ct hct => ⟨ct, hct, Follows.refl ct⟩⟩

theorem Carries.trans {db db' db'' : Db} (h : Carries db db') (h' : Carries db' db'') :
    Carries db db'' := by
  refine ⟨forall₂_trans h.inbounds h'.inbounds fun _ _ _ => RewrittenRow.trans, fun email ct hct => ?_⟩
  obtain ⟨ct', hct', hfollows⟩ := h.rows email ct hct
  obtain ⟨ct'', hct'', hfollows'⟩ := h'.rows email ct' hct'
  exact ⟨ct'', hct'', hfollows.trans hfollows'⟩

/-! ## Delayed starts -/

theorem startEntry_carries {now : Int} {rows rows' : List ClientTraffic} {d d' : Doc}
    (h : startEntry now rows d = some (rows', d')) : Followed rows rows' ∧ Rewritten d d' := by
  unfold startEntry at h
  split at h
  · cases h
    exact ⟨Followed.refl rows, Rewritten.rewrite d⟩
  · rename_i k hk
    split at h
    · cases h
      refine ⟨⟨?_, fun r' hr' => ?_⟩, Rewritten.expire d _⟩
      · refine List.ext_getElem? fun n => ?_
        simp only [List.getElem?_map, List.getElem?_modify]
        cases rows[n]? with
        | none => rfl
        | some r => by_cases hkn : k = n <;> simp [hkn]
      · obtain ⟨n, hn⟩ := List.mem_iff_getElem?.1 hr'
        rw [List.getElem?_modify] at hn
        obtain ⟨r, hr, rfl⟩ := Option.map_eq_some_iff.1 hn
        refine ⟨r, List.mem_iff_getElem?.2 ⟨n, hr⟩, ?_⟩
        by_cases hkn : k = n
        · rw [if_pos hkn]
          exact ⟨rfl, rfl, id⟩
        · rw [if_neg hkn]
          exact Follows.refl r
    · cases h

theorem startEntries_carries {now : Int} {rows rows' : List ClientTraffic} {ds ds' : List Doc}
    (h : startEntries now rows ds = some (rows', ds')) :
    Followed rows rows' ∧ List.Forall₂ Rewritten ds ds' := by
  induction ds generalizing rows rows' ds' with
  | nil =>
      cases h
      exact ⟨Followed.refl rows, .nil⟩
  | cons d ds ih =>
      simp only [startEntries, Option.bind_eq_bind, Option.bind_eq_some_iff, Option.some.injEq,
        Prod.mk.injEq, Prod.exists] at h
      obtain ⟨rows₁, d₁, hentry, rows₂, ds₂, hrest, rfl, rfl⟩ := h
      obtain ⟨hrows, hentry'⟩ := startEntry_carries hentry
      obtain ⟨hrows', hcarried⟩ := ih hrest
      exact ⟨hrows.trans hrows', .cons hentry' hcarried⟩

theorem startInbounds_carries {now : Int} {rows rows' : List ClientTraffic} {is is' : List InboundRow}
    (h : startInbounds now rows is = some (rows', is')) :
    Followed rows rows' ∧ List.Forall₂ RewrittenRow is is' := by
  induction is generalizing rows rows' is' with
  | nil =>
      cases h
      exact ⟨Followed.refl rows, .nil⟩
  | cons i is ih =>
      simp only [startInbounds, Option.bind_eq_bind, Option.bind_eq_some_iff, Option.some.injEq,
        Prod.mk.injEq, Prod.exists] at h
      obtain ⟨rows₁, clients, hentries, rows₂, is₂, hrest, rfl, rfl⟩ := h
      obtain ⟨hrows, hentry'⟩ := startEntries_carries hentries
      obtain ⟨hrows', hcarried⟩ := ih hrest
      exact ⟨hrows.trans hrows', .cons ⟨clients, hentry', rfl⟩ hcarried⟩

/-! ## Booking and renewing -/

theorem billRow_follows (policy : Option InboundRow) (ct : ClientTraffic) (t : ClientRecord) :
    Follows ct (billRow policy ct t) :=
  ⟨rfl, rfl, id⟩

theorem billRows_followed (policy : Nat → Option InboundRow) (records : List ClientRecord)
    (rows : List ClientTraffic) : Followed rows (billRows policy records rows) := by
  refine Followed.of_map (fun ct => ?_) rows
  generalize (records.filter fun t => decide (t.email = ct.email)) = own
  generalize policy ct.inboundId = policy
  have hfold : ∀ (own : List ClientRecord) (r : ClientTraffic), Follows r (own.foldl (billRow policy) r) := by
    intro own
    induction own with
    | nil => exact Follows.refl
    | cons t own ih => exact fun r => (billRow_follows policy r t).trans (ih _)
  exact hfold own ct

/-- Rows written back one by one: each row is still followed. -/
theorem rows_foldl_modify {f : ClientTraffic → ClientTraffic → ClientTraffic}
    (hemail : ∀ ct old, (f ct old).email = old.email)
    (hf : ∀ ct old, Follows old ct → Follows old (f ct old)) {db : Db} {loaded rows : List ClientTraffic}
    (hsub : rows.Sublist db.traffics.rows) (hfollowed : Followed rows loaded) (email : String) :
    ∀ ct ∈ db.traffics.find? email,
      ∃ ct' ∈ (loaded.foldl (fun t ct => t.modify ct.email (f ct) (hemail ct)) db.traffics).find? email,
        Follows ct ct' := by
  intro ct hct
  have hnodup : (loaded.map (·.email)).Nodup := by
    rw [hfollowed.emails]
    exact db.traffics.unique.sublist (hsub.map _)
  rw [Table.find?_foldl_modify hemail hnodup, Option.mem_def.1 hct]
  refine ⟨_, rfl, ?_⟩
  cases hfind : loaded.find? fun r => decide (r.email = email) with
  | none => exact Follows.refl ct
  | some r' =>
      obtain ⟨r, hr, hfollows⟩ := hfollowed.mem r' (List.mem_of_find?_eq_some hfind)
      have hkey : r'.email = email := by simpa using List.find?_some hfind
      have hsame : r = ct := by
        refine Table.eq_of_key_eq (hsub.subset hr) (Table.find?_some hct).1 ?_
        rw [← hfollows.email, hkey, (Table.find?_some hct).2]
      exact hf r' ct (hsame ▸ hfollows)

theorem bookClients_carries {raw : Bool} {h : Host} {records : List ClientRecord} {db db' : Db}
    (hbook : db.bookClients raw h records = some db') : Carries db db' := by
  simp only [Db.bookClients, Option.bind_eq_bind, Option.bind_eq_some_iff, Option.some.injEq,
    Prod.exists] at hbook
  obtain ⟨rows, inbounds, hstart, rfl⟩ := hbook
  obtain ⟨hrows, hcarried⟩ := startInbounds_carries hstart
  refine ⟨saveInbounds_forall₂ RewrittenRow.refl (fun _ _ => RewrittenRow.id) hcarried, ?_⟩
  refine rows_foldl_modify ClientTraffic.over_email (fun ct old hfollows => ?_) List.filter_sublist
    (hrows.trans (billRows_followed _ _ _))
  exact ⟨rfl, hfollows.inboundId, hfollows.enable⟩

theorem renewEntry_carries {now : Int} {i : InboundRow} {rows rows' : List ClientTraffic} {d d' : Doc}
    {users : List UserToAdd} (h : renewEntry now i rows d = some (rows', d', users)) :
    Followed rows rows' ∧ Rewritten d d' := by
  unfold renewEntry at h
  split at h
  · split at h
    · cases h
      exact ⟨Followed.refl rows, Rewritten.rewrite d⟩
    · cases h
      refine ⟨Followed.of_map (fun r => ?_) rows, Rewritten.expire d _⟩
      split
      · exact ⟨rfl, rfl, fun _ => rfl⟩
      · exact Follows.refl r
  · cases h

theorem renewEntries_carries {now : Int} {i : InboundRow} {rows rows' : List ClientTraffic}
    {ds ds' : List Doc} {users : List UserToAdd}
    (h : renewEntries now i rows ds = some (rows', ds', users)) :
    Followed rows rows' ∧ List.Forall₂ Rewritten ds ds' := by
  induction ds generalizing rows rows' ds' users with
  | nil =>
      cases h
      exact ⟨Followed.refl rows, .nil⟩
  | cons d ds ih =>
      simp only [renewEntries, Option.bind_eq_bind, Option.bind_eq_some_iff, Option.some.injEq,
        Prod.mk.injEq, Prod.exists] at h
      obtain ⟨rows₁, d₁, users₁, hentry, rows₂, ds₂, users₂, hrest, rfl, rfl, -⟩ := h
      obtain ⟨hrows, hentry'⟩ := renewEntry_carries hentry
      obtain ⟨hrows', hcarried⟩ := ih hrest
      exact ⟨hrows.trans hrows', .cons hentry' hcarried⟩

theorem renewInbounds_carries {now : Int} {rows rows' : List ClientTraffic} {is is' : List InboundRow}
    {users : List UserToAdd} (h : renewInbounds now rows is = some (rows', is', users)) :
    Followed rows rows' ∧ List.Forall₂ RewrittenRow is is' := by
  induction is generalizing rows rows' is' users with
  | nil =>
      cases h
      exact ⟨Followed.refl rows, .nil⟩
  | cons i is ih =>
      simp only [renewInbounds, Option.bind_eq_bind, Option.bind_eq_some_iff, Option.some.injEq,
        Prod.mk.injEq, Prod.exists] at h
      obtain ⟨rows₁, clients, users₁, hentries, rows₂, is₂, users₂, hrest, rfl, rfl, -⟩ := h
      obtain ⟨hrows, hentry'⟩ := renewEntries_carries hentries
      obtain ⟨hrows', hcarried⟩ := ih hrest
      exact ⟨hrows.trans hrows', .cons ⟨clients, hentry', rfl⟩ hcarried⟩

theorem foldl_writeRenewal (rows : List ClientTraffic) (db : Db) :
    rows.foldl (fun db ct => db.writeRenewal ct) db = { db with
      traffics := rows.foldl (fun t ct => t.modify ct.email (writeRenewal ct) (writeRenewal_email ct))
        db.traffics } := by
  induction rows generalizing db with
  | nil => rfl
  | cons r rows ih => exact ih (db.writeRenewal r)

theorem renewClients_carries {h : Host} {db db' : Db} (hrenew : db.renewClients h = some db') :
    Carries db db' := by
  simp only [Db.renewClients, Option.bind_eq_bind, Option.bind_eq_some_iff, Option.some.injEq,
    Prod.exists] at hrenew
  obtain ⟨rows, inbounds, users, hinbounds, rfl⟩ := hrenew
  obtain ⟨hrows, hcarried⟩ := renewInbounds_carries hinbounds
  rw [foldl_writeRenewal]
  refine ⟨saveInbounds_forall₂ RewrittenRow.refl (fun _ _ => RewrittenRow.id) hcarried, ?_⟩
  refine rows_foldl_modify writeRenewal_email (fun ct old hfollows => ?_) List.filter_sublist hrows
  exact ⟨rfl, rfl, hfollows.enable⟩

/-! ## The whole tick -/

/-- A tick goes through the stages as far as nothing panics; what it saves does not depend
on Xray. -/
theorem tick_stages (now : Int) (b : Batch) (db : Db) :
    (∃ db', (db' = db.countInbounds b.inbounds ∨
        (db.countInbounds b.inbounds).bookClients false ⟨now, none⟩ b.clients = some db') ∧
      ∀ xray, tickOutcome ⟨now, xray⟩ b db none = (db', .panicked)) ∨
    ∃ booked renewed,
      (db.countInbounds b.inbounds).bookClients false ⟨now, none⟩ b.clients = some booked ∧
      (renewed = booked ∨ booked.renewClients ⟨now, none⟩ = some renewed) ∧
      ∀ xray, tickOutcome ⟨now, xray⟩ b db none =
        ((renewed.disableClients ⟨now, xray⟩).disableInbounds ⟨now, xray⟩,
          .ok (Host.reply ⟨now, xray⟩ booked renewed)) := by
  have hearly : EarlyFault none := fun place hplace => by cases hplace
  have hreported : ¬∃ place ∈ (none : Option TickPlace), Reported b db place := by
    rintro ⟨place, hplace, -⟩
    cases hplace
  have hrun := fun xray => ((run_addTraffic (h := ⟨now, xray⟩) (b := b) (w := db) hearly
    (by simp)).resolve_left fun hfault => hreported hfault.1).2
  cases hbooked : (db.countInbounds b.inbounds).bookClients false ⟨now, none⟩ b.clients with
  | none =>
      refine Or.inl ⟨_, Or.inl rfl, fun xray => ?_⟩
      have hxray := hrun xray
      rw [show (db.countInbounds b.inbounds).bookClients (billsRaw none) ⟨now, xray⟩ b.clients = none
        from hbooked] at hxray
      exact hxray
  | some booked =>
      have hxray : ∀ xray, _ := fun xray => by
        have hxray := hrun xray
        rw [show (db.countInbounds b.inbounds).bookClients (billsRaw none) ⟨now, xray⟩ b.clients =
          some booked from hbooked] at hxray
        exact hxray
      cases hrenewed : booked.renewClients ⟨now, none⟩ with
      | none =>
          refine Or.inl ⟨booked, Or.inr rfl, fun xray => ?_⟩
          rcases hxray xray with ⟨-, hpanic⟩ | ⟨renewed, hsome, -⟩
          · exact hpanic
          · rw [show booked.renewClients ⟨now, xray⟩ = none from hrenewed] at hsome
            cases hsome
      | some full =>
          refine Or.inr ⟨booked, if Host.renewedInbounds ⟨now, none⟩ booked = [] then booked else full,
            rfl, ?_, fun xray => ?_⟩
          · split
            · exact Or.inl rfl
            · exact Or.inr hrenewed
          · rcases hxray xray with ⟨hnone, -⟩ | ⟨renewed, -, houtcome, hif⟩
            · rw [show booked.renewClients ⟨now, xray⟩ = some full from hrenewed] at hnone
              cases hnone
            · rw [show booked.renewClients ⟨now, xray⟩ = some full from hrenewed] at hif
              rw [houtcome]
              by_cases hnil : Host.renewedInbounds ⟨now, xray⟩ booked = []
              · rw [if_pos hnil] at hif
                rw [if_pos (show Host.renewedInbounds ⟨now, none⟩ booked = [] from hnil), hif]
              · rw [if_neg hnil, Option.some.injEq] at hif
                rw [if_neg (show ¬Host.renewedInbounds ⟨now, none⟩ booked = [] from hnil), hif]

/-- What a tick does before it switches anything off leaves entries and rows. -/
theorem tick_cases (now : Int) (b : Batch) (db : Db) :
    (∃ db', Carries (db.countInbounds b.inbounds) db' ∧
      ∀ xray, tickOutcome ⟨now, xray⟩ b db none = (db', .panicked)) ∨
    ∃ booked renewed, Carries (db.countInbounds b.inbounds) renewed ∧
      ∀ xray, tickOutcome ⟨now, xray⟩ b db none =
        ((renewed.disableClients ⟨now, xray⟩).disableInbounds ⟨now, xray⟩,
          .ok (Host.reply ⟨now, xray⟩ booked renewed)) := by
  rcases tick_stages now b db with ⟨db', hdb', htick⟩ | ⟨booked, renewed, hbooked, hrenewed, htick⟩
  · refine Or.inl ⟨db', ?_, htick⟩
    rcases hdb' with rfl | hbooked
    · exact Carries.refl _
    · exact bookClients_carries hbooked
  · refine Or.inr ⟨booked, renewed, (bookClients_carries hbooked).trans ?_, htick⟩
    rcases hrenewed with rfl | hrenewed
    · exact Carries.refl renewed
    · exact renewClients_carries hrenewed

end Simorgh.Panel
