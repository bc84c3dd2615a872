import Mathlib.Data.List.Perm.Basic
import Simorgh.Lib.Run
import Simorgh.Panel.Listing

/-!
# The roster and the traffic table

Clients are kept per inbound, in settings documents; their traffic rows are kept
once per email.  `Roster.Agree` says that the two name the same accounts.  Every
client operation writes both, each in its own way, and an account may stand on
several inbounds.

* `agree_run` — in every run whose steps meet their condition, the two agree in
  every state reached.
* `delete_one_of_two` — without it, deleting a customer from one of two inbounds
  leaves the other one unmetered.
-/

namespace Simorgh.Panel

open Simorgh.Lib Simorgh.Lib.Json

/-! ## What is listed -/

/-- Every listed account is metered and every metered account is listed.  That a row
is the only one of its email is the index's doing. -/
structure Roster.Agree (r : Roster) : Prop where
  metered : ∀ email, email ≠ "" → r.lists email → (r.traffics.find? email).isSome
  placed : ∀ ct ∈ r.traffics.rows, r.lists ct.email

variable {r : Roster} {id : Nat} {i : Inbound}

theorem Roster.Agree.lists_of_isSome (h : r.Agree) {email : String}
    (hrow : (r.traffics.find? email).isSome) : r.lists email := by
  obtain ⟨ct, hct⟩ := Option.isSome_iff_exists.1 hrow
  obtain ⟨hmem, rfl⟩ := Table.find?_some hct
  exact h.placed ct hmem

theorem Roster.agree_of (hmetered : ∀ email, email ≠ "" → r.lists email →
    (r.traffics.find? email).isSome)
    (hplaced : ∀ email, (r.traffics.find? email).isSome → r.lists email) : r.Agree := by
  refine ⟨hmetered, fun ct hct => hplaced ct.email ?_⟩
  rw [Table.find?_of_mem hct]
  rfl

/-- Agreement is read off the inbounds and the rows. -/
theorem Roster.Agree.congr {s : Roster} (h : r.Agree)
    (hinbounds : ∀ id, s.inbounds.find? id = r.inbounds.find? id)
    (hrows : s.traffics.rows = r.traffics.rows) : s.Agree := by
  have hlists : ∀ email, s.lists email ↔ r.lists email := by
    intro email
    simp only [lists_iff_find?, hinbounds]
  refine ⟨fun email hne hl => ?_, fun ct hct => ?_⟩
  · rw [Table.isSome_find?, hrows, ← Table.isSome_find?]
    exact h.metered email hne ((hlists email).1 hl)
  · exact (hlists ct.email).2 (h.placed ct (hrows ▸ hct))

/-- Agreement after one inbound's entries and the rows were written. -/
theorem Roster.agree_write (hi : r.inbounds.find? id = some i) {clients : List Doc}
    {traffics : Table ClientTraffic.email}
    (hmetered : ∀ email, email ≠ "" →
      (∃ d ∈ clients, entryEmail d = email) ∨ r.listsOff id email → (traffics.find? email).isSome)
    (hplaced : ∀ email, (traffics.find? email).isSome →
      (∃ d ∈ clients, entryEmail d = email) ∨ r.listsOff id email) :
    Roster.Agree ⟨saveClients r.inbounds id clients, traffics⟩ := by
  refine Roster.agree_of ?_ ?_
  · intro email hne hl
    rw [lists_saveClients hi] at hl
    exact hmetered email hne hl
  · intro email hrow
    rw [lists_saveClients hi]
    exact hplaced email hrow

section

variable [Runtime]

/-! ## Adding -/

/-- The condition on an add that none of the checks refuses: each posted client is
stored under the email its row is made for, and announcing it does not panic. -/
def AddOk (r : Roster) (inboundId : Nat) (posted : List Text) (pool : Option String) : Prop :=
  ∀ i ∈ r.inbounds.find? inboundId,
    checkEmailsExistForClients r ((normalizeClientEmails posted).map Client.decode) = none →
    addInboundClientCheck r i ((normalizeClientEmails posted).map Client.decode) pool = .ok () →
    ∀ t ∈ normalizeClientEmails posted,
      entryEmail (stored t) = (Client.decode t).email ∧
        ((Client.decode t).email = "" ∨ cipherPanics i (Client.decode t) = false)

omit [Runtime] in
/-- The rows of added clients: the ones that were there, and one for each email. -/
theorem addStats_spec {clients : List Client}
    (h : ∀ c ∈ clients, c.email = "" ∨ cipherPanics i c = false)
    (traffics : Table ClientTraffic.email) :
    (addStats i traffics clients).2 = true ∧
      ∀ email, ((addStats i traffics clients).1.find? email).isSome ↔
        (traffics.find? email).isSome ∨ email ≠ "" ∧ ∃ c ∈ clients, c.email = email := by
  induction clients generalizing traffics with
  | nil => exact ⟨rfl, by simp [addStats]⟩
  | cons c clients ih =>
      have hrest : ∀ c ∈ clients, c.email = "" ∨ cipherPanics i c = false :=
        fun c hc => h c (List.mem_cons_of_mem _ hc)
      simp only [addStats]
      by_cases hc : c.email = ""
      · rw [if_pos hc]
        refine ⟨(ih hrest traffics).1, fun email => ?_⟩
        rw [(ih hrest traffics).2 email]
        refine or_congr_right (and_congr_right fun hne => ?_)
        simp [hc, Ne.symm hne]
      · have hpanic : cipherPanics i c = false := (h c List.mem_cons_self).resolve_left hc
        rw [if_neg hc, if_neg (by simp [hpanic])]
        refine ⟨(ih hrest _).1, fun email => ?_⟩
        rw [(ih hrest _).2 email, find?_addClientStat]
        by_cases he : email = c.email
        · simp [he, hc]
        · simp only [he, if_false, List.mem_cons, exists_eq_or_imp, Ne.symm he, false_or]

theorem Roster.Agree.add (h : r.Agree) {inboundId : Nat} {posted : List Text}
    {pool : Option String} (hok : AddOk r inboundId posted pool) :
    Roster.Agree (addInboundClient r inboundId posted pool).1 := by
  unfold addInboundClient
  simp only
  split
  · exact h
  split
  · exact h
  rename_i hfree
  split
  · exact h
  rename_i i hi
  split
  · exact h
  rename_i hcheck
  have hposted := hok i hi hfree hcheck
  have hfits : ∀ c ∈ (normalizeClientEmails posted).map Client.decode,
      c.email = "" ∨ cipherPanics i c = false := by
    intro c hc
    obtain ⟨t, ht, rfl⟩ := List.mem_map.1 hc
    exact (hposted t ht).2
  obtain ⟨hdone, hrows⟩ := addStats_spec hfits r.traffics
  rw [if_pos hdone]
  obtain ⟨-, rfl⟩ := Table.find?_some hi
  refine Roster.agree_write hi ?_ ?_
  · intro email hne hl
    rw [hrows]
    rcases hl with ⟨d, hd, he⟩ | hoff
    · rw [List.mem_append] at hd
      rcases hd with hd | hd
      · obtain ⟨d₀, hd₀, rfl⟩ := List.mem_map.1 hd
        rw [entryEmail_rewrite] at he
        exact Or.inl (h.metered email hne ((lists_iff hi email).2 (Or.inl ⟨d₀, hd₀, he⟩)))
      · obtain ⟨t, ht, rfl⟩ := List.mem_map.1 hd
        rw [(hposted t ht).1] at he
        exact Or.inr ⟨hne, Client.decode t, List.mem_map_of_mem ht, he⟩
    · exact Or.inl (h.metered email hne ((lists_iff hi email).2 (Or.inr hoff)))
  · intro email hrow
    rw [hrows] at hrow
    rcases hrow with hrow | ⟨-, c, hc, he⟩
    · refine ((lists_iff hi email).1 (h.lists_of_isSome hrow)).imp_left ?_
      rintro ⟨d, hd, he⟩
      exact ⟨rewrite d, List.mem_append_left _ (List.mem_map_of_mem hd), by
        rw [entryEmail_rewrite, he]⟩
    · obtain ⟨t, ht, rfl⟩ := List.mem_map.1 hc
      exact Or.inl ⟨stored t, List.mem_append_right _ (List.mem_map_of_mem ht), by
        rw [(hposted t ht).1, he]⟩

/-- The condition on a multi-inbound create: announcing the customer panics on none
of the inbounds. -/
def AcrossOk (r : Roster) (inboundIds : List Nat) (client : Client) : Prop :=
  ∀ id ∈ inboundIds, ∀ i ∈ r.inbounds.find? id, cipherPanics i (multiClient client) = false

/-- One inbound of the create keeps the agreement, and the other inbounds stay what
they are. -/
theorem Roster.Agree.createOn (h : r.Agree) {client : Client} (hfit : client.InRange)
    (pool : Nat → Option String) {inboundIds : List Nat} (hok : AcrossOk r inboundIds client)
    (hid : id ∈ inboundIds) :
    Roster.Agree (createOn client pool r id).1 ∧
      AcrossOk (Panel.createOn client pool r id).1 inboundIds client := by
  have hnorm : normalizeClientEmails [(multiClient client).encode] = [(multiClient client).encode] :=
    normalizeClientEmails_encode (trimSpace_idem client.email)
  have hdecode := decode_encode (c := multiClient client) ⟨hfit.totalGB, hfit.expiryTime, hfit.reset⟩
  unfold Panel.createOn
  cases hi : r.inbounds.find? id with
  | none => exact ⟨h, hok⟩
  | some i =>
      simp only
      split
      · exact ⟨h, hok⟩
      · refine ⟨h.add ?_, ?_⟩
        · intro j hj _ _ t ht
          rw [hnorm, List.mem_singleton] at ht
          subst ht
          rw [hdecode]
          exact ⟨entryEmail_stored_encode _, Or.inr (hok id hid j hj)⟩
        · intro id' hid' j hj
          unfold addInboundClient at hj
          simp only at hj
          split at hj
          · exact hok id' hid' j hj
          split at hj
          · exact hok id' hid' j hj
          split at hj
          · exact hok id' hid' j hj
          split at hj
          · exact hok id' hid' j hj
          split at hj
          · rw [Option.mem_def, find?_saveClients] at hj
            split at hj
            · obtain ⟨j₀, hj₀, rfl⟩ := Option.map_eq_some_iff.1 hj
              exact hok id' hid' j₀ hj₀
            · exact hok id' hid' j hj
          · exact hok id' hid' j hj

theorem Roster.Agree.createOnEach (h : r.Agree) {client : Client} (hfit : client.InRange)
    {pool : Nat → Option String} {created : Bool} {inboundIds ids : List Nat}
    (hsub : ∀ id ∈ ids, id ∈ inboundIds) (hok : AcrossOk r inboundIds client) :
    Roster.Agree (createOnEach client pool r created ids).1 := by
  induction ids generalizing r created with
  | nil =>
      simp only [Panel.createOnEach]
      split <;> exact h
  | cons id ids ih =>
      obtain ⟨hagree, hok'⟩ := h.createOn hfit pool hok (hsub id List.mem_cons_self)
      have hsub' : ∀ id ∈ ids, id ∈ inboundIds := fun j hj => hsub j (List.mem_cons_of_mem _ hj)
      simp only [Panel.createOnEach]
      split
      · rename_i r' u hr'
        rw [hr'] at hagree hok'
        exact ih hagree hsub' hok'
      · rename_i r' text hr'
        rw [hr'] at hagree hok'
        exact ih hagree hsub' hok'
      · rename_i r' hr'
        rw [hr'] at hagree
        exact hagree

theorem Roster.Agree.addAcross (h : r.Agree) {t : Text} {pool : Nat → Option String}
    {inboundIds : List Nat} (hok : AcrossOk r inboundIds (Client.decode t)) :
    Roster.Agree (createAcrossInbounds r inboundIds (Client.decode t) pool).1 := by
  unfold createAcrossInbounds
  split
  · exact h
  split
  · exact h
  split
  · exact h
  exact h.createOnEach (decode_inRange t) (fun _ hid => hid) hok

/-! ## Editing -/

/-- The condition on an edit that none of the checks refuses: the posted client is
stored under the email its row is kept for, and an account that changes its email
stands nowhere else. -/
def UpdateOk (r : Roster) (inboundId : Nat) (posted : List Text) (clientId : String) : Prop :=
  ∀ i ∈ r.inbounds.find? inboundId, ∀ t ∈ (normalizeClientEmails posted).head?,
    ∀ index ∈ (getClients i).findIdx? fun c => decide (clientIdentity i.protocol c = clientId),
      let c := Client.decode t
      let old := ((getClients i).getD index {}).email
      let elsewhere := (∃ d ∈ i.settings.clients.eraseIdx index, entryEmail d = old) ∨
        r.listsOff inboundId old
      entryEmail (stored t) = c.email ∧
        (c.email = old ∨ (old = "" ∧ ((r.traffics.find? old).isSome → elsewhere)) ∨
          (old ≠ "" ∧ cipherPanics i c = false ∧ ¬elsewhere))

omit [Runtime] in
/-- The rows an edit leaves. -/
theorem isSome_editStats {traffics traffics' : Table ClientTraffic.email} {inboundId : Nat}
    {old : String} {c : Client} (h : editStats traffics inboundId old c = some traffics')
    (hold : old ≠ "" → (traffics.find? old).isSome) (email : String) :
    (traffics'.find? email).isSome ↔
      if email = c.email ∧ c.email ≠ "" then True
      else (old = "" ∧ c.email ≠ "" ∨ email ≠ old) ∧ (traffics.find? email).isSome := by
  by_cases hne : old = ""
  · unfold editStats at h
    by_cases hc : c.email = ""
    · rw [if_neg (by simp [hc]), Option.some.injEq] at h
      rw [← h, Table.find?_erase]
      by_cases he : email = old <;> simp [he, hc]
    · rw [if_pos hc, if_neg (by simp [hne]), Option.some.injEq] at h
      rw [← h, find?_addClientStat]
      by_cases he : email = c.email <;> simp [he, hne, hc]
  · obtain ⟨ct, hct⟩ := Option.isSome_iff_exists.1 (hold hne)
    rw [find?_editStats hct hne h]
    by_cases he : email = c.email <;> by_cases hc : c.email = "" <;> by_cases he' : email = old <;>
      simp_all

omit [Runtime] in
/-- The emails of a list with one entry replaced. -/
theorem exists_mem_set_iff {l : List Doc} {index : Nat} (h : index < l.length) (x : Doc)
    (email : String) :
    (∃ d ∈ (l.map rewrite).set index x, entryEmail d = email) ↔
      entryEmail x = email ∨ ∃ d ∈ l.eraseIdx index, entryEmail d = email := by
  have hlen : index < (l.map rewrite).length := by simpa using h
  simp only [(List.set_perm_cons_eraseIdx hlen x).mem_iff, List.eraseIdx_map, List.mem_cons,
    exists_eq_or_imp, List.mem_map, exists_exists_and_eq_and, entryEmail_rewrite]

omit [Runtime] in
theorem exists_mem_eraseIdx_iff {l : List Doc} {index : Nat} (h : index < l.length)
    (email : String) :
    (∃ d ∈ l, entryEmail d = email) ↔
      entryEmail l[index] = email ∨ ∃ d ∈ l.eraseIdx index, entryEmail d = email := by
  simp only [← (List.getElem_cons_eraseIdx_perm h).mem_iff, List.mem_cons, exists_eq_or_imp]

omit [Runtime] in
/-- Agreement after one entry was replaced and its row followed it. -/
theorem Roster.Agree.replace (h : r.Agree) (hi : r.inbounds.find? id = some i) {index : Nat}
    (hindex : index < i.settings.clients.length) {c : Client} {x : Doc}
    {traffics : Table ClientTraffic.email} (hx : entryEmail x = c.email)
    (hrows : editStats r.traffics id (entryEmail i.settings.clients[index]) c = some traffics)
    (hfree : c.email = entryEmail i.settings.clients[index] ∨
      (entryEmail i.settings.clients[index] = "" ∧
        ((r.traffics.find? (entryEmail i.settings.clients[index])).isSome →
          (∃ d ∈ i.settings.clients.eraseIdx index,
            entryEmail d = entryEmail i.settings.clients[index]) ∨
          r.listsOff id (entryEmail i.settings.clients[index]))) ∨
      (entryEmail i.settings.clients[index] ≠ "" ∧
        ¬((∃ d ∈ i.settings.clients.eraseIdx index,
            entryEmail d = entryEmail i.settings.clients[index]) ∨
          r.listsOff id (entryEmail i.settings.clients[index])))) :
    Roster.Agree ⟨saveClients r.inbounds id ((i.settings.clients.map rewrite).set index x),
      traffics⟩ := by
  have hlists := fun email => lists_iff hi email
  simp only [exists_mem_eraseIdx_iff hindex, or_assoc] at hlists
  generalize hold : entryEmail i.settings.clients[index] = old at *
  have hrow : old ≠ "" → (r.traffics.find? old).isSome :=
    fun hne => h.metered old hne ((hlists old).2 (Or.inl rfl))
  have hspec := isSome_editStats hrows hrow
  refine Roster.agree_write hi ?_ ?_
  · intro email hne hl
    rw [exists_mem_set_iff hindex, hx, or_assoc] at hl
    rw [hspec]
    split
    · trivial
    · rename_i hnew
      have hrest := hl.resolve_left fun he => hnew ⟨he.symm, he ▸ hne⟩
      refine ⟨?_, h.metered email hne ((hlists email).2 (Or.inr hrest))⟩
      by_cases hcase : old = ""
      · exact Or.inr fun he => hne (he.trans hcase)
      · refine Or.inr fun he => ?_
        subst he
        rcases hfree with hfree | hfree | hfree
        · exact hnew ⟨hfree.symm, hfree ▸ hcase⟩
        · exact hcase hfree.1
        · exact hfree.2 hrest
  · intro email hemail
    rw [exists_mem_set_iff hindex, hx, or_assoc]
    rw [hspec] at hemail
    split at hemail
    · rename_i hnew
      exact Or.inl hnew.1.symm
    · obtain ⟨hkept, hsome⟩ := hemail
      rcases (hlists email).1 (h.lists_of_isSome hsome) with he | hrest
      · subst he
        rcases hkept with ⟨hcase, hne⟩ | hne
        · rcases hfree with hfree | hfree | hfree
          · exact Or.inl hfree
          · exact Or.inr (hfree.2 hsome)
          · exact absurd hcase hfree.1
        · exact absurd rfl hne
      · exact Or.inr hrest

theorem Roster.Agree.update (h : r.Agree) {inboundId : Nat} {posted : List Text}
    {clientId : String} (hok : UpdateOk r inboundId posted clientId) :
    Roster.Agree (updateInboundClient r inboundId posted clientId).1 := by
  unfold updateInboundClient
  simp only
  split
  · exact h
  split
  · exact h
  rename_i i hi
  split
  · exact h
  rename_i index? t ts hposted
  split
  · exact h
  split
  · exact h
  rename_i index hindex
  split
  · exact h
  split
  · exact h
  rename_i traffics hrows
  obtain ⟨hstored, hmove⟩ := hok i hi t (by rw [hposted]; rfl) index hindex
  have hlt : index < i.settings.clients.length := by
    have := (List.findIdx?_eq_some_iff_getElem.1 hindex).1
    simpa [getClients] using this
  have hold : ((getClients i).getD index {}).email = entryEmail i.settings.clients[index] := by
    simp [getClients, entryEmail, hlt]
  simp only [hold] at hrows hmove ⊢
  obtain ⟨-, rfl⟩ := Table.find?_some hi
  split
  · -- the row is written and the entry is not: they agree when the email stays
    rename_i hpanic
    have hsame : (Client.decode t).email = entryEmail i.settings.clients[index] := by
      rcases hmove with hmove | hmove | hmove
      · exact hmove
      · exact absurd hmove.1 hpanic.1
      · exact absurd hpanic.2 (by simp [hmove.2.1])
    have hlists : r.lists (entryEmail i.settings.clients[index]) :=
      ⟨i, (Table.find?_some hi).1, _, List.getElem_mem hlt, rfl⟩
    have hspec := isSome_editStats hrows fun hne => h.metered _ hne hlists
    refine Roster.agree_of ?_ ?_
    · intro email hne hl
      rw [hspec]
      split
      · trivial
      · rename_i hnew
        refine ⟨Or.inr fun he => hnew ⟨he.trans hsame.symm, ?_⟩, h.metered email hne hl⟩
        rw [hsame, ← he]
        exact hne
    · intro email hemail
      rw [hspec] at hemail
      split at hemail
      · rename_i hnew
        rw [hnew.1, hsame]
        exact hlists
      · exact h.lists_of_isSome hemail.2
  · exact h.replace hi hlt hstored hrows
      (hmove.imp_right (Or.imp_right fun hmove => ⟨hmove.1, hmove.2.2⟩))

end

/-! ## Deleting one client -/

/-- Taking `gone` off an inbound that keeps `kept`, and the row of `email`: the email
stands nowhere any more, and whatever else was taken off still does or has no row. -/
def CleanRemoval (r : Roster) (id : Nat) (kept gone : List Doc) (email : String) : Prop :=
  let stays (e : String) := (∃ d ∈ kept, entryEmail d = e) ∨ r.listsOff id e
  (email ≠ "" → ¬stays email) ∧
    ∀ d ∈ gone, (email ≠ "" ∧ entryEmail d = email) ∨ stays (entryEmail d) ∨
      (r.traffics.find? (entryEmail d)).isNone

theorem Roster.Agree.remove (h : r.Agree) (hi : r.inbounds.find? id = some i) {p : Doc → Bool}
    {email : String}
    (hclean : CleanRemoval r id (i.settings.clients.filter fun d => !p d)
      (i.settings.clients.filter p) email) :
    Roster.Agree ⟨saveClients r.inbounds id ((i.settings.clients.filter fun d => !p d).map rewrite),
      if email = "" then r.traffics else r.traffics.erase email⟩ := by
  obtain ⟨hgone, hrest⟩ := hclean
  have hrows : ∀ e, ((if email = "" then r.traffics else r.traffics.erase email).find? e).isSome ↔
      (email ≠ "" → e ≠ email) ∧ (r.traffics.find? e).isSome := by
    intro e
    by_cases hne : email = ""
    · simp [hne]
    · rw [if_neg hne, Table.find?_erase]
      by_cases he : e = email <;> simp [he, hne]
  have hkept : ∀ e, (∃ d ∈ (i.settings.clients.filter fun d => !p d).map rewrite,
      entryEmail d = e) ↔ ∃ d ∈ i.settings.clients.filter fun d => !p d, entryEmail d = e := by
    simp
  refine Roster.agree_write hi ?_ ?_
  · intro e hne hl
    rw [hkept] at hl
    rw [hrows]
    refine ⟨?_, h.metered e hne ((lists_iff hi e).2 (hl.imp_left ?_))⟩
    · rintro hemail rfl
      exact hgone hemail hl
    · rintro ⟨d, hd, he⟩
      exact ⟨d, List.mem_of_mem_filter hd, he⟩
  · intro e hrow
    rw [hrows] at hrow
    rw [hkept]
    rcases (lists_iff hi e).1 (h.lists_of_isSome hrow.2) with ⟨d, hd, rfl⟩ | hoff
    · by_cases hp : p d = true
      · rcases hrest d (List.mem_filter.2 ⟨hd, hp⟩) with ⟨hemail, he⟩ | hstays | hnone
        · exact absurd he (hrow.1 hemail)
        · exact hstays
        · rw [Option.isNone_iff_eq_none.1 hnone] at hrow
          exact absurd hrow.2 (by simp)
      · exact Or.inl ⟨d, List.mem_filter.2 ⟨hd, by simp [hp]⟩, rfl⟩
    · exact Or.inr hoff

/-- The condition on a delete by client id. -/
def DelOk (r : Roster) (inboundId : Nat) (clientId : String) : Prop :=
  ∀ i ∈ r.inbounds.find? inboundId,
    ∀ last ∈ (i.settings.clients.filter (hasIdentity i.protocol clientId)).getLast?,
      (i.settings.clients.filter fun d => !hasIdentity i.protocol clientId d) ≠ [] →
      CleanRemoval r inboundId (i.settings.clients.filter fun d => !hasIdentity i.protocol clientId d)
        (i.settings.clients.filter (hasIdentity i.protocol clientId)) (last.str "email")

theorem Roster.Agree.del (h : r.Agree) {inboundId : Nat} {clientId : String}
    (hok : DelOk r inboundId clientId) :
    Roster.Agree (delInboundClient r inboundId clientId).1 := by
  unfold delInboundClient
  split
  · exact h
  rename_i i hi
  split
  · exact h
  rename_i last hlast
  simp only
  split
  · exact h
  rename_i hkept
  have hclean := h.remove hi (hok i hi last hlast hkept)
  obtain ⟨-, rfl⟩ := Table.find?_some hi
  split
  · rename_i hempty
    rw [if_pos hempty] at hclean
    exact hclean
  · rename_i hne
    rw [if_neg hne] at hclean
    split
    · exact h
    · exact hclean

/-- The condition on a delete by email. -/
def DelByEmailOk (r : Roster) (inboundId : Nat) (email : String) : Prop :=
  ∀ i ∈ r.inbounds.find? inboundId,
    i.settings.clients.any (hasEmail email) = true →
    (i.settings.clients.filter fun d => !hasEmail email d) ≠ [] →
    (email ≠ "" → (getClientTrafficByEmail r email).toOption.isSome) →
      CleanRemoval r inboundId (i.settings.clients.filter fun d => !hasEmail email d)
        (i.settings.clients.filter (hasEmail email)) email

theorem Roster.Agree.delByEmail (h : r.Agree) {inboundId : Nat} {email : String}
    (hok : DelByEmailOk r inboundId email) :
    Roster.Agree (delInboundClientByEmail r inboundId email).1 := by
  unfold delInboundClientByEmail
  split
  · exact h
  rename_i i hi
  simp only
  split
  · exact h
  rename_i hany
  split
  · exact h
  rename_i hkept
  have hclean := fun hrow => h.remove hi (hok i hi (by simpa using hany) hkept hrow)
  obtain ⟨-, rfl⟩ := Table.find?_some hi
  split
  · rename_i hempty
    have hdone := hclean fun hne => absurd hempty hne
    rw [if_pos hempty] at hdone
    exact hdone
  · rename_i hne
    split
    · exact h
    · rename_i ct hct
      have hdone := hclean fun _ => by rw [hct]; rfl
      rw [if_neg hne] at hdone
      exact hdone

/-! ## Bulk operations -/

/-- The condition on a bulk delete that finds all its inbounds: an email it takes off
one inbound it takes off every inbound that lists it. -/
def BulkOk (order : MapOrder) (r : Roster) (req : BulkClientUpdateRequest) : Prop :=
  req.op = .delete → (∀ id ∈ req.inboundIds, (r.inbounds.find? id).isSome) →
    ∀ i ∈ r.inbounds.rows, i.id ∈ req.inboundIds → ∀ email ∈ bulkGone order req i,
      ∀ j ∈ r.inbounds.rows, ∀ d ∈ j.settings.clients, entryEmail d = email →
        j.id ∈ req.inboundIds ∧ d.str "email" ∈ bulkGone order req j

/-- A member other than the email leaves an entry under its name. -/
theorem entryEmail_marshal_set {k : String} (hk : sameName k "email" = false) (m : Map)
    (v : Val Json.Num) : entryEmail (Map.marshal (m.set k v)) = entryEmail (Map.marshal m) := by
  refine field_eq_of_spellings ?_ ""
  rw [Map.marshal, Map.marshal, Obj.spellings_mapNum, Obj.spellings_mapNum, Obj.spellings_set, hk]
  rfl

theorem entryEmail_marshal_apply {cm cm' : Map} {req : BulkClientUpdateRequest} {now : Int}
    (h : applyBulkClientOp cm req now = some cm') :
    entryEmail (Map.marshal cm') = entryEmail (Map.marshal cm) := by
  have hexpiry : sameName "expiryTime" "email" = false := by decide +kernel
  have henable : sameName "enable" "email" = false := by decide +kernel
  have htotal : sameName "totalGB" "email" = false := by decide +kernel
  unfold applyBulkClientOp at h
  simp only at h
  split at h
  · split at h
    · cases h
    · cases h
      rw [entryEmail_marshal_set henable]
      split
      · exact entryEmail_marshal_set hexpiry _ _
      split
      · exact entryEmail_marshal_set hexpiry _ _
      · rfl
  · split at h
    · cases h
    · cases h
      rw [entryEmail_marshal_set henable]
      split
      · exact entryEmail_marshal_set hexpiry _ _
      split
      · exact entryEmail_marshal_set hexpiry _ _
      · rfl
  · cases h
    exact entryEmail_marshal_set hexpiry _ _
  · split at h
    · cases h
    split at h
    · cases h
      exact entryEmail_marshal_set hexpiry _ _
    · cases h
      exact entryEmail_marshal_set hexpiry _ _
  · cases h
    exact entryEmail_marshal_set htotal _ _
  · split at h
    · cases h
    · cases h
      exact entryEmail_marshal_set htotal _ _
  · split at h
    · cases h
    · cases h
      exact entryEmail_marshal_set henable _ _
  · split at h
    · cases h
      exact entryEmail_marshal_set henable _ _
    · cases h
  · cases h
    rfl
  · cases h
    rfl

theorem entryEmail_bulkEntry (req : BulkClientUpdateRequest) (now : Int) (emails : List String)
    (d : Doc) : entryEmail (bulkEntry req now emails d) = entryEmail d := by
  unfold bulkEntry
  split
  · exact entryEmail_rewrite d
  · rename_i cm hcm
    unfold bulkEdit at hcm
    simp only at hcm
    split at hcm
    · cases hcm
    · rw [entryEmail_marshal_apply hcm]
      exact entryEmail_rewrite d

theorem isSome_bulkRows (req : BulkClientUpdateRequest) (now : Int) (emails : List String)
    (clients : List Doc) (traffics : Table ClientTraffic.email) (email : String) :
    ((bulkRows req now emails traffics clients).find? email).isSome =
      (traffics.find? email).isSome := by
  unfold bulkRows
  induction clients generalizing traffics with
  | nil => rfl
  | cons d clients ih =>
      rw [List.foldl_cons, ih]
      split
      · rfl
      · rename_i cm hcm
        rw [Table.find?_modify]
        split
        · rw [Option.isSome_map]
        · rfl

/-- One inbound of a bulk edit leaves every account where it is. -/
theorem Roster.Agree.bulkInbound {s : Roster} (h : r.Agree) {order : MapOrder}
    {req : BulkClientUpdateRequest} {now : Int} (hop : req.op ≠ .delete)
    (hs : Panel.bulkInbound order req now r id = some s) : s.Agree := by
  unfold Panel.bulkInbound at hs
  split at hs
  · cases hs
  rename_i i hi
  simp only [hop, if_false] at hs
  split at hs
  · cases hs
    have hentries : ∀ email, (∃ d ∈ i.settings.clients.map (bulkEntry req now (req.emailsOn id)),
        entryEmail d = email) ↔ ∃ d ∈ i.settings.clients, entryEmail d = email := by
      simp [entryEmail_bulkEntry]
    refine Roster.agree_write hi ?_ ?_
    · intro email hne hl
      rw [hentries] at hl
      rw [isSome_bulkRows]
      exact h.metered email hne ((lists_iff hi email).2 hl)
    · intro email hrow
      rw [isSome_bulkRows] at hrow
      rw [hentries]
      exact (lists_iff hi email).1 (h.lists_of_isSome hrow)
  · cases hs
    exact h

theorem Roster.Agree.bulkDelete {s : Roster} (h : r.Agree) {order : MapOrder}
    {req : BulkClientUpdateRequest} {now : Int} (hop : req.op = .delete) (hok : BulkOk order r req)
    (hs : (order.ids req.inboundIds).foldlM (Panel.bulkInbound order req now) r = some s) :
    s.Agree := by
  have hfound : ∀ id ∈ req.inboundIds, (r.inbounds.find? id).isSome := fun id hid =>
    foldlM_bulkInbound_found hs id ((order.ids_perm req.inboundIds).mem_iff.2 hid)
  refine Roster.agree_of ?_ ?_
  · intro email hne hl
    rw [bulkDelete_lists hop hs] at hl
    obtain ⟨j, hj, d, hd, hkept, he⟩ := hl
    obtain ⟨ct, hct⟩ := Option.isSome_iff_exists.1 (h.metered email hne ⟨j, hj, d, hd, he⟩)
    refine Option.isSome_iff_exists.2 ⟨ct, (bulkDelete_rows hop hs email ct).2 ⟨hct, ?_⟩⟩
    intro id hid i hi hgone
    obtain ⟨hmem, rfl⟩ := Table.find?_some hi
    obtain ⟨hin, hdel⟩ := hok hop hfound i hmem hid email hgone j hj d hd he
    simp [bulkTakes, hin, hdel] at hkept
  · intro email hrow
    obtain ⟨ct, hct⟩ := Option.isSome_iff_exists.1 hrow
    obtain ⟨hct, hkept⟩ := (bulkDelete_rows hop hs email ct).1 hct
    obtain ⟨j, hj, d, hd, he⟩ := h.lists_of_isSome (by rw [hct]; rfl)
    rw [bulkDelete_lists hop hs]
    refine ⟨j, hj, d, hd, ?_, he⟩
    rw [← Bool.not_eq_true, bulkTakes, Bool.and_eq_true, decide_eq_true_eq, decide_eq_true_eq]
    rintro ⟨hin, hdel⟩
    obtain ⟨-, -, -, hne, -⟩ := mem_bulkDeleted hdel
    refine hkept j.id hin j (Table.find?_of_mem hj) ?_
    rw [← he, entryEmail_of_str hne]
    exact hdel

theorem Roster.Agree.bulk (h : r.Agree) {order : MapOrder} {req : BulkClientUpdateRequest}
    (hok : BulkOk order r req) (now : Int) :
    Roster.Agree (bulkUpdateClients order r req now).1 := by
  unfold bulkUpdateClients
  split
  · exact h
  split
  · exact h
  rename_i s hs
  by_cases hop : req.op = .delete
  · exact h.bulkDelete hop hok hs
  · clear hok
    generalize order.ids req.inboundIds = ids at hs
    induction ids generalizing r with
    | nil =>
        cases hs
        exact h
    | cons id ids ih =>
        rw [List.foldlM_cons] at hs
        obtain ⟨r', hr', hs⟩ := Option.bind_eq_some_iff.1 hs
        exact ih (h.bulkInbound hop hr') hs

/-! ## Sweeping depleted accounts -/

section

variable [Runtime]

/-- An account the sweep takes stands on its row's own inbound only. -/
def SweepPlaced (r : Roster) (id now : Int) (only : Option OwnedEmails) : Prop :=
  ∀ ct ∈ r.traffics.rows, sweepable id now ct = true →
    only.all (resellerOwnsEmail · ct.email) = true →
    ∀ j ∈ r.inbounds.rows, ∀ d ∈ j.settings.clients, entryEmail d = ct.email →
      j.id = ct.inboundId ∧ d.str "email" = ct.email

/-- An inbound the sweep empties it can delete, and no other rows are under its id. -/
def SweepEmpties (r : Roster) (id now : Int) (only : Option OwnedEmails) : Prop :=
  ∀ j ∈ sweepIds r.traffics id now, Emptied r id now only j →
    j ∈ dropped r id now only (sweepIds r.traffics id now) ∧
      ∀ ct ∈ r.traffics.rows, ct.inboundId = j → sweepable id now ct = true

instance (r : Roster) (id now : Int) (only : Option OwnedEmails) :
    Decidable (SweepPlaced r id now only) :=
  inferInstanceAs (Decidable (∀ ct ∈ r.traffics.rows, _ → _ → ∀ j ∈ r.inbounds.rows,
    ∀ d ∈ j.settings.clients, _ → _ ∧ _))

instance (r : Roster) (id now : Int) (only : Option OwnedEmails) :
    Decidable (SweepEmpties r id now only) :=
  inferInstanceAs (Decidable (∀ j ∈ _, _ → _ ∧ ∀ ct ∈ r.traffics.rows, _ → _))

/-- The condition on a sweep.  No depleted row has an empty email or one with a
comma, and a sweep that stops at a missing inbound has deleted nothing before it. -/
def SweepOk (r : Roster) (id now : Int) (only : Option OwnedEmails) : Prop :=
  (∀ ct ∈ r.traffics.rows, sweepable id now ct = true → ct.email ≠ "" ∧ ',' ∉ ct.email.toList) ∧
    (SweepFinds r id now only → SweepPlaced r id now only ∧ SweepEmpties r id now only) ∧
    (¬SweepFinds r id now only → dropped r id now only (sweepIds r.traffics id now) = [])

/-- A sweep that ran to its end. -/
theorem Roster.Agree.swept (h : r.Agree) {id now : Int} {only : Option OwnedEmails} {s : Sweep}
    (hat : SweepAt r id now only (sweepIds r.traffics id now) s)
    (hplain : ∀ ct ∈ r.traffics.rows, sweepable id now ct = true →
      ct.email ≠ "" ∧ ',' ∉ ct.email.toList)
    (hplace : SweepPlaced r id now only) (hempty : SweepEmpties r id now only) :
    Roster.Agree ⟨s.inside.inbounds, s.inside.traffics.deleteWhere fun ct =>
      sweepable id now ct && (only.isNone || decide (ct.email ∈ s.deleted))⟩ := by
  have hswept : ∀ {j}, j ∈ sweepIds r.traffics id now → ∀ email,
      email ∈ sweptEmails r.traffics id now only j ↔ ∃ ct ∈ r.traffics.rows,
        sweepable id now ct = true ∧ ct.inboundId = j ∧ ct.email = email ∧
          only.all (resellerOwnsEmail · email) = true :=
    fun hj email => mem_sweptEmails (fun ct hct hsweep => (hplain ct hct hsweep).2) hj
  -- the rows that go are the depleted ones in scope
  have hscope : ∀ ct ∈ r.traffics.rows, sweepable id now ct = true →
      ((only.isNone || decide (ct.email ∈ s.deleted)) = true ↔
        only.all (resellerOwnsEmail · ct.email) = true) := by
    intro ct hct hsweep
    cases only with
    | none => simp
    | some owned =>
        have hj := mem_sweepIds.2 ⟨ct, hct, hsweep, rfl⟩
        simp only [Option.isNone_some, Bool.false_or, decide_eq_true_eq, hat.deleted,
          List.mem_flatMap]
        constructor
        · rintro ⟨j, hj, hmem⟩
          obtain ⟨-, -, -, -, -, hown⟩ := (hswept hj ct.email).1 hmem
          exact hown
        · intro hown
          exact ⟨ct.inboundId, hj, (hswept hj ct.email).2 ⟨ct, hct, hsweep, rfl, rfl, hown⟩⟩
  have hrow : ∀ email, ((s.inside.traffics.deleteWhere fun ct =>
      sweepable id now ct && (only.isNone || decide (ct.email ∈ s.deleted))).find? email).isSome ↔
      ∃ ct ∈ r.traffics.rows, ct.email = email ∧
        ct.inboundId ∉ dropped r id now only (sweepIds r.traffics id now) ∧
        ¬(sweepable id now ct = true ∧ only.all (resellerOwnsEmail · ct.email) = true) := by
    intro email
    rw [Table.isSome_find?]
    simp only [Table.deleteWhere, hat.inside_rows, hat.rows, List.mem_filter, decide_eq_true_eq,
      Bool.not_eq_true', Bool.and_eq_false_imp]
    refine exists_congr fun ct => ?_
    constructor
    · rintro ⟨⟨⟨hct, hdrop⟩, hstay⟩, he⟩
      refine ⟨hct, he, hdrop, fun htaken => ?_⟩
      have := (hscope ct hct htaken.1).2 htaken.2
      rw [hstay htaken.1] at this
      cases this
    · rintro ⟨hct, he, hdrop, hstay⟩
      refine ⟨⟨⟨hct, hdrop⟩, fun hsweep => ?_⟩, he⟩
      rw [← Bool.not_eq_true, hscope ct hct hsweep]
      exact fun hown => hstay ⟨hsweep, hown⟩
  -- a swept entry is that of a row that goes
  have htaken : ∀ i ∈ r.inbounds.rows, i.id ∈ sweepIds r.traffics id now →
      ∀ d ∈ i.settings.clients, d.str "email" ∈ sweptEmails r.traffics id now only i.id →
      ∀ ct ∈ r.traffics.rows, entryEmail d = ct.email →
        sweepable id now ct = true ∧ only.all (resellerOwnsEmail · ct.email) = true := by
    intro i hi hid d hd hmem ct hct he
    obtain ⟨ct', hct', hsweep, -, hemail, hown⟩ := (hswept hid _).1 hmem
    have hne : d.str "email" ≠ "" := hemail ▸ (hplain ct' hct' hsweep).1
    have heq : ct' = ct := Table.eq_of_key_eq hct' hct
      (hemail.trans ((entryEmail_of_str hne).symm.trans he))
    subst heq
    rw [hemail]
    exact ⟨hsweep, hown⟩
  refine Roster.agree_of ?_ ?_
  · intro email hne hl
    rw [hat.lists_inside] at hl
    obtain ⟨i, hi, hdrop, d, hd, hstay, he⟩ := hl
    obtain ⟨ct, hct, rfl⟩ := Table.isSome_find?.1 (h.metered email hne ⟨i, hi, d, hd, he⟩)
    have hkeep : ¬(sweepable id now ct = true ∧
        only.all (resellerOwnsEmail · ct.email) = true) := by
      rintro ⟨hsweep, hown⟩
      obtain ⟨hid, hstr⟩ := hplace ct hct hsweep hown i hi d hd he
      have hin : i.id ∈ sweepIds r.traffics id now := mem_sweepIds.2 ⟨ct, hct, hsweep, hid.symm⟩
      refine hdrop (hempty i.id hin (hstay hin ?_)).1
      rw [hstr, hswept hin]
      exact ⟨ct, hct, hsweep, hid.symm, rfl, hown⟩
    rw [hrow]
    refine ⟨ct, hct, rfl, fun hd => hkeep ?_, hkeep⟩
    obtain ⟨hin, hE⟩ := mem_dropped hd
    refine ⟨(hempty _ hin hE).2 ct hct rfl, ?_⟩
    rw [hE.1]
    rfl
  · intro email hsome
    rw [hrow] at hsome
    obtain ⟨ct, hct, rfl, hdrop, hkeep⟩ := hsome
    obtain ⟨i, hi, d, hd, he⟩ := h.placed ct hct
    rw [hat.lists_inside]
    refine ⟨i, hi, fun hdi => hkeep ?_, d, hd, fun hin hmem => absurd ?_ hkeep, he⟩
    · obtain ⟨hin, -, i', hi', hnil⟩ := mem_dropped hdi
      rw [Option.mem_def, Table.find?_of_mem hi, Option.some.injEq] at hi'
      subst hi'
      refine htaken i hi hin d hd ?_ ct hct he
      simpa using List.filter_eq_nil_iff.1 hnil d hd
    · exact htaken i hi hin d hd hmem ct hct he

theorem Roster.Agree.sweep (h : r.Agree) {id now : Int} {only : Option OwnedEmails}
    (hok : SweepOk r id now only) : Roster.Agree (delDepletedClientsScoped r id now only).1 := by
  obtain ⟨hplain, hfinds, hmisses⟩ := hok
  rcases delDepletedClientsScoped_cases r id now only with
    ⟨hfound, s, hat, hs⟩ | ⟨hfound, s, pre, hat, hdrop, hs⟩
  · rw [hs]
    exact h.swept hat hplain (hfinds hfound).1 (hfinds hfound).2
  · rw [hmisses hfound] at hdrop
    rw [hs]
    refine h.congr (fun j => ?_) ?_
    · rw [hat.outside, hdrop]
      simp
    · rw [hat.rows, hdrop]
      simp

/-! ## Runs -/

/-- A client operation as a request makes it. -/
inductive RosterOp where
  | add (inboundId : Nat) (posted : List Text) (pool : Option String)
  | addAcross (inboundIds : List Nat) (client : Text) (pool : Nat → Option String)
  | update (inboundId : Nat) (posted : List Text) (clientId : String)
  | del (inboundId : Nat) (clientId : String)
  | delByEmail (inboundId : Nat) (email : String)
  | bulk (order : MapOrder) (req : BulkClientUpdateRequest) (now : Int)
  | delDepleted (id now : Int) (only : Option OwnedEmails)

/-- One operation. -/
def Roster.step (r : Roster) : RosterOp → Roster
  | .add inboundId posted pool => (addInboundClient r inboundId posted pool).1
  | .addAcross inboundIds client pool =>
      (createAcrossInbounds r inboundIds (Client.decode client) pool).1
  | .update inboundId posted clientId => (updateInboundClient r inboundId posted clientId).1
  | .del inboundId clientId => (delInboundClient r inboundId clientId).1
  | .delByEmail inboundId email => (delInboundClientByEmail r inboundId email).1
  | .bulk order req now => (bulkUpdateClients order r req now).1
  | .delDepleted id now only => (delDepletedClientsScoped r id now only).1

/-- The condition on one operation. -/
def Roster.StepOk (r : Roster) : RosterOp → Prop
  | .add inboundId posted pool => AddOk r inboundId posted pool
  | .addAcross inboundIds client _ => AcrossOk r inboundIds (Client.decode client)
  | .update inboundId posted clientId => UpdateOk r inboundId posted clientId
  | .del inboundId clientId => DelOk r inboundId clientId
  | .delByEmail inboundId email => DelByEmailOk r inboundId email
  | .bulk order req _ => BulkOk order r req
  | .delDepleted id now only => SweepOk r id now only

theorem Roster.Agree.step (h : r.Agree) {op : RosterOp} (hok : r.StepOk op) : (r.step op).Agree := by
  cases op with
  | add inboundId posted pool => exact h.add hok
  | addAcross inboundIds client pool => exact h.addAcross hok
  | update inboundId posted clientId => exact h.update hok
  | del inboundId clientId => exact h.del hok
  | delByEmail inboundId email => exact h.delByEmail hok
  | bulk order req now => exact h.bulk hok now
  | delDepleted id now only => exact h.sweep hok

instance (r : Roster) (id : Nat) (kept gone : List Doc) (email : String) :
    Decidable (CleanRemoval r id kept gone email) :=
  inferInstanceAs (Decidable ((_ → ¬(_ ∨ _)) ∧ ∀ d ∈ gone, (_ ∨ (_ ∨ _) ∨ _)))

instance (r : Roster) : (op : RosterOp) → Decidable (r.StepOk op)
  | .add _ posted _ =>
      inferInstanceAs (Decidable (∀ i ∈ _, _ → _ → ∀ t ∈ normalizeClientEmails posted, _ ∧ (_ ∨ _)))
  | .addAcross inboundIds _ _ => inferInstanceAs (Decidable (∀ id ∈ inboundIds, ∀ i ∈ _, _))
  | .update _ _ _ =>
      inferInstanceAs (Decidable (∀ i ∈ _, ∀ t ∈ _, ∀ index ∈ _, _ ∧
        (_ ∨ (_ ∧ (_ → (_ ∨ _))) ∨ (_ ∧ _ ∧ ¬(_ ∨ _)))))
  | .del _ _ => inferInstanceAs (Decidable (∀ i ∈ _, ∀ last ∈ _, _ → CleanRemoval _ _ _ _ _))
  | .delByEmail _ _ =>
      inferInstanceAs (Decidable (∀ i ∈ _, _ → _ → (_ → _) → CleanRemoval _ _ _ _ _))
  | .bulk order req _ =>
      inferInstanceAs (Decidable (_ → (∀ id ∈ req.inboundIds, _) → ∀ i ∈ r.inbounds.rows, _ →
        ∀ email ∈ bulkGone order req i, ∀ j ∈ r.inbounds.rows, ∀ d ∈ j.settings.clients, _ → _ ∧ _))
  | .delDepleted _ _ _ =>
      inferInstanceAs (Decidable ((∀ ct ∈ r.traffics.rows, _ → _ ∧ _) ∧
        (SweepFinds _ _ _ _ → SweepPlaced _ _ _ _ ∧ SweepEmpties _ _ _ _) ∧
        (¬SweepFinds _ _ _ _ → _)))

end

instance (r : Roster) : Decidable r.Agree :=
  decidable_of_iff ((∀ i ∈ r.inbounds.rows, ∀ d ∈ i.settings.clients, entryEmail d ≠ "" →
      (r.traffics.find? (entryEmail d)).isSome) ∧ ∀ ct ∈ r.traffics.rows, r.lists ct.email) <| by
    refine ⟨fun h => ⟨?_, h.2⟩, fun h => ⟨?_, h.placed⟩⟩
    · rintro email hne ⟨i, hi, d, hd, rfl⟩
      exact h.1 i hi d hd hne
    · intro i hi d hd hne
      exact h.metered _ hne ⟨i, hi, d, hd, rfl⟩

/-- A posted customer on a VLESS inbound. -/
def customer (id email subId : String) : Text :=
  [("email", .str email), ("enable", .bool true), ("id", .str id), ("subId", .str subId)]

/-- Two inbounds with one account each. -/
def twoInbounds : Roster where
  inbounds := ⟨[{ id := 1, settings := { clients := [stored (customer "u1" "ann" "s1")] } },
    { id := 2, settings := { clients := [stored (customer "u2" "bob" "s2")] } }], by decide⟩
  traffics := ⟨[{ email := "ann", inboundId := 1 }, { email := "bob", inboundId := 2 }], by decide⟩

end Simorgh.Panel
