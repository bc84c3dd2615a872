import Simorgh.Lib.Threads
import Simorgh.Panel.TickSound

/-!
# The bytes a tick books

`all_time` is the lifetime record of an account: no renewal and no reset takes
anything from it, and it is not multiplied.  A tick adds the bytes of the batch to
it, or leaves it as it is.

* `bytesOf` — the bytes of a batch under an email.
* `TickPlace.losesBytes` — the statements whose failure costs the batch.
* `tickOutcome_allTime` — a tick that fails at none of them books every byte once.
-/

namespace Simorgh.Panel

open Simorgh.Lib

/-! ## Bytes of a batch -/

/-- The bytes under an email. -/
def bytesOf (email : String) (records : List ClientRecord) : Int :=
  ((records.filter fun r => decide (r.email = email)).map fun r => r.up + r.down).sum

@[simp] theorem bytesOf_nil (email : String) : bytesOf email [] = 0 := rfl

@[simp] theorem bytesOf_cons (email : String) (r : ClientRecord) (records : List ClientRecord) :
    bytesOf email (r :: records) = (if r.email = email then r.up + r.down else 0) + bytesOf email records := by
  by_cases h : r.email = email <;> simp [bytesOf, h]

@[simp] theorem bytesOf_append (email : String) (records more : List ClientRecord) :
    bytesOf email (records ++ more) = bytesOf email records + bytesOf email more := by
  simp [bytesOf]

theorem bytesOf_of_notMem {email : String} {records : List ClientRecord} (h : email ∉ records.map (·.email)) :
    bytesOf email records = 0 := by
  have hnone : records.filter (fun r => decide (r.email = email)) = [] := by
    rw [List.filter_eq_nil_iff]
    intro r hr hmail
    exact h (List.mem_map.2 ⟨r, hr, of_decide_eq_true hmail⟩)
  rw [bytesOf, hnone]
  rfl

/-! ## Wrapping sums -/

/-- The records of one account, one after another. -/
theorem foldl_billRow_allTime (policy : Option InboundRow) (records : List ClientRecord) (ct : ClientTraffic) :
    int64 (records.foldl (billRow policy) ct).allTime =
      int64 (ct.allTime + (records.map fun r => r.up + r.down).sum) := by
  induction records generalizing ct with
  | nil => simp
  | cons t records ih =>
      rw [List.foldl_cons, ih]
      simp only [billRow, List.map_cons, List.sum_cons]
      rw [int64_add_left, add_right_comm, int64_add_right]
      congr 1
      ring

theorem foldl_billRow_email (policy : Option InboundRow) (records : List ClientRecord) (ct : ClientTraffic) :
    (records.foldl (billRow policy) ct).email = ct.email := by
  induction records generalizing ct with
  | nil => rfl
  | cons t records ih =>
      rw [List.foldl_cons, ih]
      rfl

/-! ## Rows whose delayed start begins -/

/-- The columns a delayed start leaves alone. -/
def lifetime (ct : ClientTraffic) : String × Int := (ct.email, ct.allTime)

theorem startEntry_lifetime {now : Int} {rows rows' : List ClientTraffic} {d d' : Json.Doc}
    (h : startEntry now rows d = some (rows', d')) : rows'.map lifetime = rows.map lifetime := by
  unfold startEntry at h
  split at h
  · cases h
    rfl
  · split at h
    · cases h
      refine List.ext_getElem? fun i => ?_
      simp only [List.getElem?_map, List.getElem?_modify]
      split
      · cases rows[i]? <;> rfl
      · cases rows[i]? <;> rfl
    · cases h

theorem startEntries_lifetime {now : Int} {rows rows' : List ClientTraffic} {ds ds' : List Json.Doc}
    (h : startEntries now rows ds = some (rows', ds')) : rows'.map lifetime = rows.map lifetime := by
  induction ds generalizing rows ds' with
  | nil =>
      cases h
      rfl
  | cons d ds ih =>
      simp only [startEntries, Option.bind_eq_bind, Option.bind_eq_some_iff, Prod.exists, Option.some.injEq,
        Prod.mk.injEq] at h
      obtain ⟨rows₁, d₁, hentry, rows₂, ds₁, hrest, rfl, -⟩ := h
      exact (ih hrest).trans (startEntry_lifetime hentry)

theorem startInbounds_lifetime {now : Int} {rows rows' : List ClientTraffic} {is is' : List InboundRow}
    (h : startInbounds now rows is = some (rows', is')) : rows'.map lifetime = rows.map lifetime := by
  induction is generalizing rows is' with
  | nil =>
      cases h
      rfl
  | cons i is ih =>
      simp only [startInbounds, Option.bind_eq_bind, Option.bind_eq_some_iff, Prod.exists, Option.some.injEq,
        Prod.mk.injEq] at h
      obtain ⟨rows₁, clients, hentries, rows₂, is₁, hrest, rfl, -⟩ := h
      exact (ih hrest).trans (startEntries_lifetime hentries)

/-! ## Booked rows -/

/-- The lifetime bytes of an account, if it has a row. -/
def Db.allTime (db : Db) (email : String) : Option Int :=
  (db.traffics.find? email).map fun ct => int64 ct.allTime

/-- The loaded rows, booked and saved. -/
theorem allTime_saveRows {t : Table ClientTraffic.email} {records : List ClientRecord} {rows : List ClientTraffic}
    (policy : Nat → Option InboundRow)
    (hrows : rows.map lifetime =
      (t.rows.filter fun ct => decide (ct.email ∈ records.map (·.email))).map lifetime) (email : String) :
    ((saveRows t (billRows policy records rows)).find? email).map (fun ct => int64 ct.allTime) =
      (t.find? email).map fun ct => int64 (ct.allTime + bytesOf email records) := by
  have hemails : (billRows policy records rows).map (·.email) = rows.map (·.email) := by
    rw [billRows, List.map_map]
    exact List.map_congr_left fun ct _ => foldl_billRow_email _ _ ct
  have hloaded : rows.map (·.email) =
      (t.rows.filter fun ct => decide (ct.email ∈ records.map (·.email))).map (·.email) := by
    have := congrArg (List.map Prod.fst) hrows
    rwa [List.map_map, List.map_map] at this
  have hnodup : ((billRows policy records rows).map (·.email)).Nodup := by
    rw [hemails, hloaded]
    exact t.unique.sublist (List.filter_sublist.map _)
  rw [saveRows, Table.find?_foldl_modify ClientTraffic.over_email hnodup, Option.map_map]
  cases hct : t.find? email with
  | none => rfl
  | some ct =>
      obtain ⟨hmem, hmail⟩ := Table.find?_some hct
      simp only [Option.map_some, Function.comp_apply, Option.some.injEq]
      cases hfind : (billRows policy records rows).find? fun r => decide (r.email = email) with
      | none =>
          have hout : email ∉ records.map (·.email) := by
            intro hin
            have hthere : email ∈ (billRows policy records rows).map (·.email) := by
              rw [hemails, hloaded]
              refine List.mem_map.2 ⟨ct, List.mem_filter.2 ⟨hmem, decide_eq_true ?_⟩, hmail⟩
              rw [hmail]
              exact hin
            obtain ⟨r, hr, hrmail⟩ := List.mem_map.1 hthere
            exact absurd (decide_eq_true hrmail) (List.find?_eq_none.1 hfind r hr)
          simp [bytesOf_of_notMem hout]
      | some r =>
          obtain ⟨ct', hct', rfl⟩ := List.mem_map.1 (List.mem_of_find?_eq_some hfind)
          have hmail' : ct'.email = email := by
            have hkey := List.find?_some hfind
            simpa [foldl_billRow_email] using hkey
          -- the loaded row is the one of the table, up to its delayed start
          have hsame : ct'.allTime = ct.allTime := by
            have hin : lifetime ct' ∈ rows.map lifetime := List.mem_map_of_mem hct'
            rw [hrows] at hin
            obtain ⟨ct₀, hct₀, hlife⟩ := List.mem_map.1 hin
            have hkey : ct₀ = ct := Table.eq_of_key_eq (List.mem_of_mem_filter hct₀) hmem
              ((congrArg Prod.fst hlife).trans (hmail'.trans hmail.symm))
            rw [← hkey]
            exact (congrArg Prod.snd hlife).symm
          simp only [Option.map_some, Option.getD_some, ClientTraffic.over]
          rw [foldl_billRow_allTime, hsame, hmail']
          rfl

/-! ## The statements of a tick -/

/-- The statements whose failure costs the batch: the transaction is rolled back, cannot be
kept, or is kept without the rows. -/
def TickPlace.losesBytes : TickPlace → Bool
  | .begin | .countInbound _ | .findRows | .loadDelayed | .saveRows | .findInvalidInbounds
  | .disableInbounds | .commit => true
  | _ => false

/-- No entry makes the booking panic. -/
def Db.starts (h : Host) (b : Batch) (db : Db) : Bool :=
  (startInbounds h.now (batchRows b.clients db) (loadInbounds (delayedIds (batchRows b.clients db))
    (db.countInbounds b.inbounds))).isSome

section

variable {h : Host} {b : Batch} {fault : Option TickPlace} {s w : Db}

/-- The delayed accounts start, whether or not that is saved. -/
theorem run_adjustTraffics_traffics (hload : fault ≠ some .loadDelayed) (rows : List ClientTraffic)
    (hstart : (startInbounds h.now rows (loadInbounds (delayedIds rows) w)).isSome = true) :
    ∃ w' rows', (adjustTraffics h rows).run fault ⟨s, .opened w⟩ = (⟨s, .opened w'⟩, .ok rows') ∧
      w'.traffics = w.traffics ∧ rows'.map lifetime = rows.map lifetime := by
  unfold adjustTraffics
  split
  · exact ⟨w, rows, rfl, rfl, rfl⟩
  · obtain ⟨⟨rows', inbounds⟩, hsome⟩ := Option.isSome_iff_exists.1 hstart
    simp only [Prog.run_do, Prog.run_select_opened, if_neg hload, hsome, Prog.run_update_opened, Prog.run_pure]
    refine ⟨_, rows', rfl, ?_, startInbounds_lifetime hsome⟩
    split <;> rfl

theorem run_loadMultipliers_same (rows : List ClientTraffic) :
    ∃ policy, (loadMultiplierInbounds rows).run fault ⟨s, .opened w⟩ = (⟨s, .opened w⟩, policy) := by
  obtain ⟨policy, hrun, -⟩ := @run_loadMultiplierInbounds fault s w rows []
  exact ⟨policy, hrun⟩

/-- A failure that costs nothing is at none of the statements that do. -/
theorem fault_ne_of_losesBytes (hfault : ∀ place ∈ fault, place.losesBytes = false) {place : TickPlace}
    (hplace : place.losesBytes = true) : fault ≠ some place := by
  intro hsome
  have hkept := hfault place (by rw [hsome]; rfl)
  rw [hplace] at hkept
  cases hkept

theorem run_addClientTraffic_allTime (hfault : ∀ place ∈ fault, place.losesBytes = false)
    (records : List ClientRecord)
    (hstart : (startInbounds h.now (batchRows records w)
      (loadInbounds (delayedIds (batchRows records w)) w)).isSome = true) :
    ∃ w', (addClientTraffic h records).run fault ⟨s, .opened w⟩ = (⟨s, .opened w'⟩, .ok ()) ∧
      ∀ email, w'.allTime email = (w.traffics.find? email).map fun ct =>
        int64 (ct.allTime + bytesOf email records) := by
  have hne : ∀ place : TickPlace, place.losesBytes = true → fault ≠ some place :=
    fun _ => fault_ne_of_losesBytes hfault
  unfold addClientTraffic
  split
  · rename_i hnil
    exact ⟨w, rfl, fun email => by simp [Db.allTime, hnil]⟩
  · simp only [Prog.run_do, Prog.run_select_opened, if_neg (hne .findRows rfl)]
    have hrows : (batchRows records w).map lifetime =
        (w.traffics.rows.filter fun ct => decide (ct.email ∈ records.map (·.email))).map lifetime := rfl
    generalize batchRows records w = rows at hstart hrows
    cases rows with
    | nil =>
        refine ⟨w, rfl, fun email => ?_⟩
        exact allTime_saveRows (fun _ => none) hrows email
    | cons ct rows =>
        obtain ⟨w₁, rows₁, hadjust, htraffics, hlife⟩ :=
          run_adjustTraffics_traffics (s := s) (hne .loadDelayed rfl) (ct :: rows) hstart
        obtain ⟨policy, hpolicy⟩ := @run_loadMultipliers_same fault s w₁ rows₁
        simp only [Prog.run_do, hadjust, hpolicy, Prog.run_update_opened, if_neg (hne .saveRows rfl), Prog.run_pure]
        refine ⟨_, rfl, fun email => ?_⟩
        simp only [Db.allTime, htraffics]
        exact allTime_saveRows policy (hlife.trans hrows) email

/-! ## The stages after it -/

/-- No lifetime record changes. -/
def SameLifetimes (s t : Db) : Prop := ∀ email, t.allTime email = s.allTime email

theorem SameLifetimes.refl (s : Db) : SameLifetimes s s := fun _ => rfl

theorem SameLifetimes.trans (s t u : Db) (hst : SameLifetimes s t) (htu : SameLifetimes t u) :
    SameLifetimes s u := fun email => (htu email).trans (hst email)

theorem writeRenewal_lifetimes (ct : ClientTraffic) (s : Db) : SameLifetimes s (s.writeRenewal ct) := by
  intro email
  simp only [Db.allTime, Db.writeRenewal, Table.find?_modify]
  cases s.traffics.find? email with
  | none => split <;> rfl
  | some r => split <;> rfl

theorem disableClients_lifetimes (h : Host) (s : Db) : SameLifetimes s (s.disableClients h) := by
  intro email
  simp only [Db.allTime, Db.disableClients, Table.find?_updateWhere, Option.map_map]
  cases s.traffics.find? email with
  | none => rfl
  | some r =>
      simp only [Option.map_some, Function.comp_apply]
      split <;> rfl

/-- A stage that reads and writes, and changes no lifetime record. -/
structure Lasting {α : Type} (p : Tick α) : Prop where
  keeps : p.Keeps SameLifetimes
  plain : p.Plain

theorem Lasting.bind {α β : Type} {p : Tick α} {k : α → Tick β} (hp : Lasting p)
    (hk : ∀ a, Lasting (k a)) : Lasting (p >>= k) :=
  ⟨hp.keeps.bind fun a => (hk a).keeps, hp.plain.bind fun a => (hk a).plain⟩

theorem lasting_pure {α : Type} (a : α) : Lasting (pure a : Tick α) :=
  ⟨Prog.keeps_pure a, Prog.plain_pure a⟩

theorem lasting_select {α : Type} (place : TickPlace) (f : Db → α) :
    Lasting (Prog.select place f : Tick (Option α)) :=
  ⟨Prog.keeps_select place f, Prog.plain_select place f⟩

theorem lasting_update {f : Db → Db} (h : ∀ s, SameLifetimes s (f s)) (place : TickPlace) :
    Lasting (Prog.update place f : Tick Bool) :=
  ⟨Prog.keeps_update h place, Prog.plain_update place f⟩

theorem lasting_writeRenewals (rows : List ClientTraffic) (k : Nat) : Lasting (writeRenewals rows k) := by
  induction rows generalizing k with
  | nil => exact lasting_pure _
  | cons ct rows ih =>
      refine (lasting_update (writeRenewal_lifetimes ct) _).bind fun ok => ?_
      cases ok
      · exact lasting_pure _
      · exact ih (k + 1)

theorem lasting_autoRenewClients (h : Host) : Lasting (autoRenewClients h) := by
  unfold autoRenewClients
  refine (lasting_select _ _).bind fun due => ?_
  rcases due with _ | _ | ⟨ct, due⟩
  · exact lasting_pure _
  · exact lasting_pure _
  · refine (lasting_select _ _).bind fun inbounds => ?_
    rcases inbounds with _ | inbounds
    · exact lasting_pure _
    · dsimp only
      split
      · exact lasting_pure _
      · split
        · exact lasting_pure _
        · refine Lasting.bind (lasting_update ?_ _) fun saved => ?_
          · exact fun s email => rfl
          · split
            · exact lasting_pure _
            · exact (lasting_writeRenewals _ _).bind fun _ => lasting_pure _

theorem lasting_disableInvalidClients (h : Host) : Lasting (disableInvalidClients h) := by
  unfold disableInvalidClients
  cases h.xray with
  | none => exact (lasting_update (disableClients_lifetimes h) _).bind fun _ => lasting_pure _
  | some api =>
      refine (lasting_select _ _).bind fun found => ?_
      cases found with
      | none => exact lasting_pure _
      | some results => exact (lasting_update (disableClients_lifetimes h) _).bind fun _ => lasting_pure _

theorem Lasting.run_opened {α : Type} {p : Tick α} (hp : Lasting p) (fault : Option TickPlace) (s w : Db) :
    ∃ w' a, p.run fault ⟨s, .opened w⟩ = (⟨s, .opened w'⟩, a) ∧ SameLifetimes w w' :=
  hp.keeps.run_opened SameLifetimes.refl SameLifetimes.trans hp.plain fault s w

/-- Without a failure of its own statements the last stage succeeds. -/
theorem run_disableInvalidInbounds_lifetimes (hfind : fault ≠ some .findInvalidInbounds)
    (hupdate : fault ≠ some .disableInbounds) :
    ∃ w' restart, (disableInvalidInbounds h).run fault ⟨s, .opened w⟩ = (⟨s, .opened w'⟩, (restart, true)) ∧
      SameLifetimes w w' := by
  unfold disableInvalidInbounds
  cases h.xray with
  | none =>
      refine ⟨w.disableInbounds h, false, ?_, fun _ => rfl⟩
      simp [hupdate]
  | some api =>
      refine ⟨w.disableInbounds h, (h.invalidTags w).any fun tag => !api.delInbound tag, ?_, fun _ => rfl⟩
      simp [hfind, hupdate]

/-- What was booked is kept. -/
theorem run_renewAndDisable_lifetimes (hfind : fault ≠ some .findInvalidInbounds)
    (hupdate : fault ≠ some .disableInbounds) (hcommit : fault ≠ some .commit) :
    SameLifetimes w ((renewAndDisable h).run fault ⟨s, .opened w⟩).1.saved := by
  obtain ⟨w₁, renewed, hrenew, hsame₁⟩ := (lasting_autoRenewClients h).run_opened fault s w
  obtain ⟨w₂, disabled, hdisable, hsame₂⟩ := (lasting_disableInvalidClients h).run_opened fault s w₁
  obtain ⟨w₃, restart, hinbounds, hsame₃⟩ :=
    @run_disableInvalidInbounds_lifetimes h fault s w₂ hfind hupdate
  have hall : SameLifetimes w w₃ := SameLifetimes.trans _ _ _ hsame₁ (SameLifetimes.trans _ _ _ hsame₂ hsame₃)
  unfold renewAndDisable
  simp only [Prog.run_do, hrenew]
  cases renewed with
  | panicked => simpa [hcommit] using hsame₁
  | ok b => simpa [hdisable, hinbounds, hcommit] using hall
  | error => simpa [hdisable, hinbounds, hcommit] using hall

/-- A tick that fails at none of these statements books every byte of the batch once. -/
theorem tickOutcome_allTime (hfault : ∀ place ∈ fault, place.losesBytes = false)
    (hstart : w.starts h b = true) (email : String) :
    (tickOutcome h b w fault).1.allTime email =
      (w.traffics.find? email).map fun ct => int64 (ct.allTime + bytesOf email b.clients) := by
  have hne : ∀ place : TickPlace, place.losesBytes = true → fault ≠ some place :=
    fun _ => fault_ne_of_losesBytes hfault
  have hbatch : batchRows b.clients (w.countInbounds b.inbounds) = batchRows b.clients w := by
    rw [batchRows, batchRows, countInbounds_traffics]
  unfold tickOutcome addTraffic
  simp only [Prog.run_do, Prog.run_start, if_neg (hne .begin rfl)]
  rcases @run_addInboundTraffic fault w b.inbounds 0 w with ⟨-, hcount⟩ | ⟨⟨k, hk, -⟩, -⟩
  · obtain ⟨w', hbook, hbytes⟩ := @run_addClientTraffic_allTime h fault w (w.countInbounds b.inbounds) hfault
      b.clients (by rw [hbatch]; exact hstart)
    simp only [hcount, if_true, Prog.run_do, hbook]
    rw [run_renewAndDisable_lifetimes (hne .findInvalidInbounds rfl) (hne .disableInbounds rfl)
      (hne .commit rfl) email, hbytes, countInbounds_traffics]
  · exact absurd hk (hne (.countInbound (0 + k)) rfl)

end

end Simorgh.Panel
