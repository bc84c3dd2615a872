import Simorgh.Panel.Interleaving

/-!
# Balance and charges move together

The spent counter moves by a relative update inside the reserving transaction;
the charge of an account is overwritten with a value computed from an earlier
read that nothing locks.  So the books stay balanced exactly as long as a commit
finds the ownership row as its request read it.

* `undisturbed_balanced` — in every such interleaving, every change of the spent
  counter is the change of the charges plus what deletes wrote off.
* `deletes_refund_twice` — without it, two deletes of one account refund it twice.
-/

namespace Simorgh.Panel

open Simorgh.Lib Simorgh.Lib.Json

/-- The row a commit overwrites holds the charge its request took it to hold.
Where the reseller has no such row nothing is overwritten, and nothing may be
charged either. -/
def Ledger.Expects (l : Ledger) (u : Nat) (email : String) (before after : Int) : Prop :=
  let charge := ((l.clients.find? email).filter fun rc => decide (rc.userId = u)).map (·.chargedBytes)
  charge = some before ∨ charge = none ∧ before = after

/-- The condition a step must meet for the books to stay balanced.  A pricing step
stays inside int64; a committing step finds the ownership row with the charge its
request read, or, for a rollback, with the charge its own reservation wrote. -/
def Task.Undisturbed (u : Nat) (w : World) : Task → Prop
  | .price i _ => QuoteFits i
  | .priceBulk p _ items now _ => BulkFits p items now
  | .reserve t _ =>
      (w.ledger.reserve w.roster.traffics t).isOk = true → t.create = false →
        w.ledger.Expects u t.email t.prevCharged t.quote.newCharged
  | .rollback t _ =>
      if t.create = true then w.ledger.heldBy u t.email = t.quote.newCharged
      else w.ledger.Expects u t.email t.quote.newCharged t.prevCharged
  | .reserveBulk t _ =>
      (w.ledger.reserveBulk t).isOk = true →
        ∀ c ∈ t.charges, w.ledger.Expects u c.email c.prevCharged c.newCharged
  | .rollbackBulk t _ => ∀ c ∈ t.charges, w.ledger.Expects u c.email c.newCharged c.prevCharged
  | .settle owner email allTimeAtDelete known _ =>
      w.ledger.heldBy u email = Ledger.chargeTo u owner ∧
        (known = true → owner.userId = u →
          0 ≤ owner.chargedBytes ∧ owner.chargedBytes < 2 ^ 63 ∧
            FitsInt64 (allTimeAtDelete - owner.allTimeBase))
  | _ => True

/-- The condition at an action. -/
def System.Undisturbed (u : Nat) (s : System) (a : Action) : Prop :=
  (s.task a).Undisturbed u s.world

/-- What a completed delete writes off: the consumed bytes, up to what was
charged for them, and the whole charge when the consumption is unknown. -/
def Task.writtenOff (u : Nat) : Task → Int
  | .settle owner _ allTimeAtDelete known _ =>
      if owner.userId = u then
        if known = true then min (max 0 (allTimeAtDelete - owner.allTimeBase)) owner.chargedBytes
        else owner.chargedBytes
      else 0
  | _ => 0

/-- The change of the spent counter is the change of the charges plus what
deletes wrote off. -/
def Ledger.Moves (u : Nat) (l l' : Ledger) (writtenOff : Int) : Prop :=
  l'.spentOf u - l.spentOf u = l'.chargedOf u - l.chargedOf u + writtenOff

/-- The move keeps balance and charges in step. -/
def System.Balanced (u : Nat) (s : System) (a : Action) : Prop :=
  Ledger.Moves u s.world.ledger (s.step a).world.ledger ((s.task a).writtenOff u)

/-- A single reservation whose balance move is that of its charge. -/
structure ChargeTicket.Sound (u : Nat) (t : ChargeTicket) : Prop where
  active : t.active = true
  userId : t.userId = u
  create : t.create = true → t.prevCharged = 0
  delta : t.quote.deltaSpent = t.quote.newCharged - t.prevCharged
  fits : FitsInt64 (-t.quote.deltaSpent)

/-- A batch reservation whose balance move is that of its charges. -/
structure BulkTicket.Sound (u : Nat) (t : BulkTicket) : Prop where
  userId : t.userId = u
  inactive : t.active = false → t.deltaSpent = 0
  balanced : t.Balanced
  emails : (t.charges.map BulkCharge.email).Nodup
  fits : FitsInt64 (-t.deltaSpent)

/-- Every reservation a task holds or will take is sound, as long as its pricing
steps stay inside int64. -/
def Task.Sound (u : Nat) : Task → Prop
  | .done _ => True
  | .read next => ∀ w, (next w).Sound u
  | .price i next => QuoteFits i → (next (quote i)).Sound u
  | .priceBulk p req items now next =>
      BulkFits p items now → (next (Panel.priceBulk p req items now)).Sound u
  | .reserve t next => t.Sound u ∧ ∀ b, (next b).Sound u
  | .rollback t next => t.Sound u ∧ next.Sound u
  | .reserveBulk t next => t.Sound u ∧ ∀ b, (next b).Sound u
  | .rollbackBulk t next => t.Sound u ∧ next.Sound u
  | .settle _ _ _ _ next => next.Sound u
  | .rename _ _ next => next.Sound u

theorem Task.Sound.step {u : Nat} {w : World} {t : Task} (h : t.Sound u)
    (hok : t.Undisturbed u w) : (t.step w).2.Sound u := by
  cases t with
  | done b => exact h
  | read next => exact h w
  | price i next => exact h hok
  | priceBulk p req items now next => exact h hok
  | reserve t next =>
      simp only [Task.step]
      split
      · exact h.2 false
      · exact h.2 true
  | rollback t next => exact h.2
  | reserveBulk t next =>
      simp only [Task.step]
      split
      · exact h.2 false
      · exact h.2 true
  | rollbackBulk t next => exact h.2
  | settle owner email allTimeAtDelete known next => exact h
  | rename oldEmail newEmail next =>
      simp only [Task.step]
      split
      · exact h
      · exact h

/-- The ticket of an accepted quote is sound. -/
theorem chargeTicket_sound {u : Nat} {i : QuoteInput} {q : ChargeQuote} {t : ChargeTicket}
    (hq : quote i = .ok q) (hfit : QuoteFits i) (ha : t.active = true) (hu : t.userId = u)
    (hc : t.create = i.create) (hcreate : i.create = true → i.reset = false ∧ i.oldCharged = 0)
    (hprev : t.prevCharged = i.oldCharged) : ChargeTicket.Sound u { t with quote := q } := by
  have hold := hfit.oldCharged
  have hnew := hfit.newTotal
  by_cases hcr : i.create = true
  · obtain ⟨hreset, hzero⟩ := hcreate hcr
    obtain ⟨hd, hch, h0⟩ := quote_create hq hreset hcr
    refine ⟨ha, hu, fun _ => hprev.trans hzero, ?_, ?_⟩
    · simp only [hd, hch, hprev, hzero, Int.sub_zero]
    · simp only [hd]
      exact ⟨by omega, by omega⟩
  · have hcr : i.create = false := by simpa using hcr
    have hd := quote_delta hq hcr hfit
    refine ⟨ha, hu, fun h => ?_, by simpa [hprev] using hd, ?_⟩
    · simp only [hc, hcr, Bool.false_eq_true] at h
    · cases hr : i.reset with
      | true =>
          cases quote_cases hq with
          | reset _ =>
              have := hfit.reset hr
              simp only [withExpiry_deltaSpent]
              exact ⟨by omega, by omega⟩
          | create hr' => simp [hr] at hr'
          | topUp hr' => simp [hr] at hr'
          | deduct hr' => simp [hr] at hr'
          | unchanged hr' => simp [hr] at hr'
      | false =>
          obtain ⟨hlo, hhi, -, -⟩ := quote_bound hq hcr hr hfit
          constructor <;> simp only <;> omega

/-- So is the ticket of a priced batch. -/
theorem bulkTicket_sound {u : Nat} {p : ResellerProfile} {req : BulkClientUpdateRequest}
    {items : List BulkPriceable} {now : Int} {t : BulkTicket}
    (hp : priceBulk p req items now = .ok t) (hfit : BulkFits p items now)
    (hnodup : (items.map BulkPriceable.email).Nodup) :
    BulkTicket.Sound u { t with userId := u } := by
  obtain ⟨hbal, habs, hsub⟩ := priceBulk_ok hp hfit
  refine ⟨rfl, fun hi => priceBulk_inactive (t := t) hp hi, hbal, ?_, ?_⟩
  · have := (hsub.map Prod.fst).nodup
    simp only [List.map_map] at this
    exact this hnodup
  · rw [abs_lt] at habs
    exact ⟨by simp only; omega, by simp only; omega⟩

theorem sound_rule (u : Nat) : TaskRule u (Task.Sound u) where
  done _ := trivial
  read _ h := h
  rename _ _ := trivial
  settle _ _ _ _ := trivial
  charge i t written next ha hu hc hcreate hprev hnext := by
    intro hfit
    cases hq : quote i with
    | error e => exact trivial
    | ok q =>
        have hsound := chargeTicket_sound hq hfit ha hu hc hcreate hprev
        refine ⟨hsound, fun b => ?_⟩
        cases b with
        | false => exact trivial
        | true =>
            cases written with
            | false => exact ⟨hsound, trivial⟩
            | true => exact hnext
  chargeBulk p req items now written hnodup := by
    intro hfit
    cases hp : Panel.priceBulk p req items now with
    | error e => exact trivial
    | ok t =>
        have hsound := bulkTicket_sound (u := u) hp hfit hnodup
        refine ⟨hsound, fun b => ?_⟩
        cases b with
        | false => exact trivial
        | true =>
            cases written with
            | false => exact ⟨hsound, trivial⟩
            | true => exact trivial

/-! ### What each transaction does to the books -/

namespace Ledger

variable {l l' : Ledger} {u : Nat}

theorem Moves.refl : Moves u l l 0 := by
  simp [Moves]

theorem chargedOf_setCharged_of_expects {email : String} {before after : Int}
    (h : l.Expects u email before after) :
    (l.setCharged email after).chargedOf u = l.chargedOf u + (after - before) := by
  rw [chargedOf_setCharged]
  unfold Expects at h
  cases hf : l.clients.find? email with
  | none =>
      have heq : before = after := by simpa [hf] using h
      simp only
      omega
  | some rc =>
      by_cases hu : rc.userId = u
      · have heq : rc.chargedBytes = before := by simpa [hf, hu, Option.filter_some] using h
        simp only [hu, if_true]
        omega
      · have heq : before = after := by simpa [hf, hu, Option.filter_some] using h
        simp only [hu, if_false]
        omega

/-- A write under one email does not disturb what is expected under another. -/
theorem Expects.setCharged {email email' : String} {before after charged : Int}
    (h : l.Expects u email before after) (hne : email ≠ email') :
    (l.setCharged email' charged).Expects u email before after := by
  unfold Expects at h ⊢
  rw [Ledger.setCharged, Table.find?_modify_of_ne hne]
  exact h

theorem Expects.restoreSpent {email : String} {before after d : Int} {v : Nat}
    (h : l.Expects u email before after) : (l.restoreSpent v d).Expects u email before after := by
  unfold Expects at h ⊢
  rw [restoreSpent_clients]
  exact h

/-- A batch of overwritten charges, each of which finds what it expects. -/
theorem chargedOf_writeBulkCharges (restore : Bool) {charges : List BulkCharge}
    (hnodup : (charges.map BulkCharge.email).Nodup)
    (h : ∀ c ∈ charges, l.Expects u c.email (if restore then c.newCharged else c.prevCharged)
      (if restore then c.prevCharged else c.newCharged)) :
    (l.writeBulkCharges charges restore).chargedOf u =
      l.chargedOf u + (if restore then -1 else 1) * (charges.map BulkCharge.delta).sum := by
  induction charges generalizing l with
  | nil => simp [writeBulkCharges]
  | cons c charges ih =>
      rw [List.map_cons, List.nodup_cons] at hnodup
      have hrest : ∀ c' ∈ charges,
          (l.setCharged c.email (if restore then c.prevCharged else c.newCharged)).Expects u
            c'.email (if restore then c'.newCharged else c'.prevCharged)
            (if restore then c'.prevCharged else c'.newCharged) := by
        intro c' hc'
        refine (h c' (List.mem_cons_of_mem _ hc')).setCharged ?_
        intro heq
        exact hnodup.1 (heq ▸ List.mem_map_of_mem hc')
      have hstep := ih hnodup.2 hrest
      rw [chargedOf_setCharged_of_expects (h c List.mem_cons_self)] at hstep
      rw [writeBulkCharges, List.foldl_cons]
      refine hstep.trans ?_
      simp only [List.map_cons, List.sum_cons, BulkCharge.delta]
      cases restore <;> simp only [Bool.false_eq_true, if_true, if_false] <;> omega

theorem reserve_moves {traffics : Table ClientTraffic.email} {t : ChargeTicket}
    (hp : (l.profiles.find? u).isSome) (ht : t.Sound u) (h : l.reserve traffics t = .ok l')
    (hexp : t.create = false → l.Expects u t.email t.prevCharged t.quote.newCharged) :
    Moves u l l' 0 := by
  obtain ⟨l₁, hl₁, hprof, hclients⟩ := reserve_ok ht.active h
  obtain ⟨rfl, -⟩ := addSpent_ok hl₁
  have hspent : l'.spentOf u = l.spentOf u + t.quote.deltaSpent := by
    rw [spentOf, hprof, ← spentOf, spentOf_restoreSpent hp, if_pos ht.userId]
  have hd := ht.delta
  unfold Moves
  rcases hclients with ⟨hc, hins⟩ | ⟨hc, rfl⟩
  · have htotal := Table.total_insert? hins (chargeTo u)
    rw [restoreSpent_clients] at htotal
    have hnew : chargeTo u (newClient traffics t) = t.quote.newCharged := by
      simp [chargeTo, newClient, ht.userId]
    rw [hnew] at htotal
    have hprev := ht.create hc
    rw [hspent, chargedOf, htotal, chargedOf]
    omega
  · have hch := chargedOf_setCharged_of_expects ((hexp hc).restoreSpent (v := t.userId)
      (d := t.quote.deltaSpent))
    rw [chargedOf_congr restoreSpent_clients] at hch
    rw [hspent, hch]
    omega

theorem rollback_moves {t : ChargeTicket} (hp : (l.profiles.find? u).isSome) (ht : t.Sound u)
    (h : if t.create = true then l.heldBy u t.email = t.quote.newCharged
      else l.Expects u t.email t.quote.newCharged t.prevCharged) :
    Moves u l (l.rollback t) 0 := by
  have hd := ht.delta
  have hneg := int64_of_fits ht.fits
  unfold Moves rollback
  rw [if_neg (by simp [ht.active]), hneg]
  simp only
  by_cases hc : t.create = true
  · have hprev := ht.create hc
    rw [if_pos hc] at h
    rw [if_pos hc, spentOf_dropClient, spentOf_restoreSpent hp, if_pos ht.userId,
      chargedOf_dropClient, heldBy_of_clients restoreSpent_clients,
      chargedOf_congr restoreSpent_clients, h]
    omega
  · rw [if_neg hc] at h
    rw [if_neg hc, spentOf_setCharged, spentOf_restoreSpent hp, if_pos ht.userId,
      chargedOf_setCharged_of_expects h.restoreSpent, chargedOf_congr restoreSpent_clients]
    omega

theorem spentOf_writeBulkCharges (charges : List BulkCharge) (restore : Bool) :
    (l.writeBulkCharges charges restore).spentOf u = l.spentOf u := by
  rw [spentOf, writeBulkCharges_profiles, spentOf]

theorem reserveBulk_moves {t : BulkTicket} (hp : (l.profiles.find? u).isSome) (ht : t.Sound u)
    (h : l.reserveBulk t = .ok l')
    (hexp : ∀ c ∈ t.charges, l.Expects u c.email c.prevCharged c.newCharged) :
    Moves u l l' 0 := by
  cases ha : t.active with
  | false =>
      rw [reserveBulk, if_pos ha] at h
      cases h
      exact Moves.refl
  | true =>
      obtain ⟨l₁, hl₁, rfl⟩ := reserveBulk_ok ha h
      obtain ⟨rfl, -⟩ := addSpent_ok hl₁
      have hch := chargedOf_writeBulkCharges (l := l.restoreSpent t.userId t.deltaSpent) (u := u)
        false ht.emails (fun c hc => by simpa using (hexp c hc).restoreSpent)
      rw [chargedOf_congr restoreSpent_clients] at hch
      have hbal : t.deltaSpent = (t.charges.map BulkCharge.delta).sum := ht.balanced
      unfold Moves
      rw [spentOf_writeBulkCharges, spentOf_restoreSpent hp, if_pos ht.userId, hch]
      simp only [Bool.false_eq_true, if_false]
      omega

theorem rollbackBulk_moves {t : BulkTicket} (hp : (l.profiles.find? u).isSome) (ht : t.Sound u)
    (hexp : ∀ c ∈ t.charges, l.Expects u c.email c.newCharged c.prevCharged) :
    Moves u l (l.rollbackBulk t) 0 := by
  unfold rollbackBulk
  split
  · exact Moves.refl
  · have hch := chargedOf_writeBulkCharges (l := l.restoreSpent t.userId (-t.deltaSpent)) (u := u)
      true ht.emails (fun c hc => by simpa using (hexp c hc).restoreSpent)
    rw [chargedOf_congr restoreSpent_clients] at hch
    have hbal : t.deltaSpent = (t.charges.map BulkCharge.delta).sum := ht.balanced
    unfold Moves
    rw [int64_of_fits ht.fits, spentOf_writeBulkCharges, spentOf_restoreSpent hp, if_pos ht.userId,
      hch]
    simp only [if_true]
    omega

/-- Away from wrap-around, what a delete does not refund is what it writes off. -/
theorem refundOf_eq {owner : ResellerClient} {allTimeAtDelete : Int} (h0 : 0 ≤ owner.chargedBytes)
    (h63 : owner.chargedBytes < 2 ^ 63) (hfit : FitsInt64 (allTimeAtDelete - owner.allTimeBase)) :
    refundOf owner allTimeAtDelete =
      owner.chargedBytes -
        min (max 0 (allTimeAtDelete - owner.allTimeBase)) owner.chargedBytes := by
  unfold refundOf
  rw [int64_of_fits hfit]
  have hfit' : FitsInt64
      (owner.chargedBytes - max 0 (allTimeAtDelete - owner.allTimeBase)) := by
    obtain ⟨h₁, h₂⟩ := hfit
    exact ⟨by omega, by omega⟩
  rw [int64_of_fits hfit']
  omega

theorem settleDeleted_moves {owner : ResellerClient} {email : String} {allTimeAtDelete : Int}
    {known : Bool} (hp : (l.profiles.find? u).isSome)
    (hheld : l.heldBy u email = chargeTo u owner) (next : Task)
    (hfit : known = true → owner.userId = u → 0 ≤ owner.chargedBytes ∧
      owner.chargedBytes < 2 ^ 63 ∧ FitsInt64 (allTimeAtDelete - owner.allTimeBase)) :
    Moves u l (l.settleDeleted owner email allTimeAtDelete known)
      ((Task.settle owner email allTimeAtDelete known next).writtenOff u) := by
  unfold Moves
  cases known with
  | false =>
      simp only [settleDeleted, if_true, spentOf_dropClient, chargedOf_dropClient, hheld,
        Task.writtenOff, chargeTo, Bool.false_eq_true, if_false]
      by_cases hu : owner.userId = u <;> simp only [hu, if_true, if_false] <;> omega
  | true =>
      rw [settleDeleted_eq, spentOf_dropClient, spentOf_restoreSpent hp, chargedOf_dropClient,
        heldBy_of_clients restoreSpent_clients, chargedOf_congr restoreSpent_clients, hheld]
      simp only [Task.writtenOff, chargeTo, if_true]
      by_cases hu : owner.userId = u
      · obtain ⟨h0, h63, hfits⟩ := hfit rfl hu
        have := refundOf_eq h0 h63 hfits
        simp only [hu, if_true, this]
        omega
      · simp only [hu, if_false]
        omega

/-- A rename moves neither the balance nor the charges. -/
theorem renameClient_moves {oldEmail newEmail : String}
    (h : l.renameClient oldEmail newEmail = .ok l') : Moves u l l' 0 := by
  unfold renameClient at h
  split at h
  · cases h
    exact Moves.refl
  · split at h
    · cases h
    · rename_i clients hclients
      cases h
      unfold Table.rekey? at hclients
      split at hclients
      · cases hclients
        unfold Moves
        simp only [spentOf, chargedOf, Table.total, List.map_map]
        have hsame : (l.clients.rows.map (chargeTo u ∘ fun r =>
            if r.email = oldEmail then { r with email := newEmail } else r)) =
            l.clients.rows.map (chargeTo u) := by
          refine List.map_congr_left fun rc _ => ?_
          simp only [Function.comp_def]
          split <;> rfl
        rw [hsame]
        omega
      · cases hclients

end Ledger

/-! ### Whole runs -/

theorem Task.Sound.step_moves {u : Nat} {w : World} {t : Task} (h : t.Sound u)
    (hok : t.Undisturbed u w) (hp : (w.ledger.profiles.find? u).isSome) :
    Ledger.Moves u w.ledger (t.step w).1.ledger (t.writtenOff u) := by
  cases t with
  | done b => exact Ledger.Moves.refl
  | read next => exact Ledger.Moves.refl
  | price i next => exact Ledger.Moves.refl
  | priceBulk p req items now next => exact Ledger.Moves.refl
  | reserve t next =>
      simp only [Task.step, Task.Undisturbed] at hok ⊢
      cases hres : w.ledger.reserve w.roster.traffics t with
      | error e => exact Ledger.Moves.refl
      | ok l =>
          rw [hres] at hok
          exact Ledger.reserve_moves hp h.1 hres (hok rfl)
  | rollback t next => exact Ledger.rollback_moves hp h.1 hok
  | reserveBulk t next =>
      simp only [Task.step, Task.Undisturbed] at hok ⊢
      cases hres : w.ledger.reserveBulk t with
      | error e => exact Ledger.Moves.refl
      | ok l =>
          rw [hres] at hok
          exact Ledger.reserveBulk_moves hp h.1 hres (hok rfl)
  | rollbackBulk t next => exact Ledger.rollbackBulk_moves hp h.1 hok
  | settle owner email allTimeAtDelete known next =>
      exact Ledger.settleDeleted_moves hp hok.1 next hok.2
  | rename oldEmail newEmail next =>
      simp only [Task.step]
      cases hres : w.ledger.renameClient oldEmail newEmail with
      | error e => exact Ledger.Moves.refl
      | ok l => exact Ledger.renameClient_moves hres

namespace Ledger

variable {l l' : Ledger} {u : Nat}

theorem isSome_setCharged {email : String} {charged : Int} :
    ((l.setCharged email charged).profiles.find? u).isSome = (l.profiles.find? u).isSome := rfl

theorem isSome_dropClient {email : String} :
    ((l.dropClient email).profiles.find? u).isSome = (l.profiles.find? u).isSome := rfl

theorem isSome_writeBulkCharges {charges : List BulkCharge} {restore : Bool} :
    ((l.writeBulkCharges charges restore).profiles.find? u).isSome =
      (l.profiles.find? u).isSome := by
  rw [writeBulkCharges_profiles]

end Ledger

/-- No request removes a profile. -/
theorem Task.step_profile {u : Nat} {w : World} {t : Task}
    (hp : (w.ledger.profiles.find? u).isSome) :
    ((t.step w).1.ledger.profiles.find? u).isSome := by
  cases t with
  | done b => exact hp
  | read next => exact hp
  | price i next => exact hp
  | priceBulk p req items now next => exact hp
  | reserve t next =>
      simp only [Task.step]
      cases hres : w.ledger.reserve w.roster.traffics t with
      | error e => exact hp
      | ok l =>
          cases ha : t.active with
          | false =>
              rw [Ledger.reserve, if_pos ha] at hres
              cases hres
              exact hp
          | true =>
              obtain ⟨l₁, hl₁, hprof, -⟩ := Ledger.reserve_ok ha hres
              obtain ⟨rfl, -⟩ := Ledger.addSpent_ok hl₁
              simp only [hprof, Ledger.isSome_restoreSpent]
              exact hp
  | rollback t next =>
      simp only [Task.step, Ledger.rollback]
      split
      · exact hp
      · split
        · rw [Ledger.isSome_dropClient, Ledger.isSome_restoreSpent]
          exact hp
        · rw [Ledger.isSome_setCharged, Ledger.isSome_restoreSpent]
          exact hp
  | reserveBulk t next =>
      simp only [Task.step]
      cases hres : w.ledger.reserveBulk t with
      | error e => exact hp
      | ok l =>
          cases ha : t.active with
          | false =>
              rw [Ledger.reserveBulk, if_pos ha] at hres
              cases hres
              exact hp
          | true =>
              obtain ⟨l₁, hl₁, rfl⟩ := Ledger.reserveBulk_ok ha hres
              obtain ⟨rfl, -⟩ := Ledger.addSpent_ok hl₁
              simp only [Ledger.isSome_writeBulkCharges, Ledger.isSome_restoreSpent]
              exact hp
  | rollbackBulk t next =>
      simp only [Task.step, Ledger.rollbackBulk]
      split
      · exact hp
      · rw [Ledger.isSome_writeBulkCharges, Ledger.isSome_restoreSpent]
        exact hp
  | settle owner email allTimeAtDelete known next =>
      cases known with
      | false => exact hp
      | true =>
          simp only [Task.step, Ledger.settleDeleted_eq, Ledger.isSome_dropClient,
            Ledger.isSome_restoreSpent]
          exact hp
  | rename oldEmail newEmail next =>
      simp only [Task.step, Ledger.renameClient]
      split
      · exact hp
      · rename_i l hl
        split at hl
        · cases hl
          exact hp
        · split at hl
          · cases hl
          · cases hl
            exact hp

/-- What holds of a system whose books can be trusted: the reseller has a profile
and every request under way is sound. -/
def System.Trusted (u : Nat) (s : System) : Prop :=
  (s.world.ledger.profiles.find? u).isSome ∧ ∀ t ∈ s.tasks, t.Sound u

theorem System.Trusted.step {u : Nat} {s : System} {a : Action} (h : s.Trusted u)
    (hok : s.Undisturbed u a) : (s.step a).Trusted u ∧ s.Balanced u a := by
  have ht : (s.task a).Sound u := System.task_of_forall h.2 trivial a
  have htasks := System.forall_tasks_step (s := s) (a := a) h.2 fun hs => hs.step hok
  have hmoves := ht.step_moves hok h.1
  have hprofile := Task.step_profile (t := s.task a) h.1
  cases a with
  | run index =>
      cases hi : s.tasks[index]? with
      | none =>
          refine ⟨⟨by simpa [System.step, hi] using h.1, htasks⟩, ?_⟩
          simp only [System.Balanced, System.step, System.task, hi]
          exact Ledger.Moves.refl
      | some t =>
          have htask : s.task (.run index) = t := by simp [System.task, hi]
          rw [htask] at hmoves hprofile
          refine ⟨⟨by simpa [System.step, hi] using hprofile, htasks⟩, ?_⟩
          simp only [System.Balanced, htask, System.step, hi]
          exact hmoves
  | panel roster => exact ⟨⟨h.1, htasks⟩, Ledger.Moves.refl⟩
  | levers p =>
      have hfind := Table.find?_modify s.world.ledger.profiles p.userId u p.setLevers fun _ => rfl
      have hkeep : (s.step (.levers p)).world.ledger.spentOf u = s.world.ledger.spentOf u := by
        simp only [System.step, Ledger.spentOf, hfind]
        split
        · cases s.world.ledger.profiles.find? u <;> rfl
        · rfl
      refine ⟨⟨?_, htasks⟩, ?_⟩
      · simp only [System.step, hfind]
        split
        · simpa using h.1
        · exact h.1
      · have hcharged : (s.step (.levers p)).world.ledger.chargedOf u = s.world.ledger.chargedOf u :=
          rfl
        unfold System.Balanced Ledger.Moves
        rw [hkeep, hcharged]
        simp [System.task, Task.writtenOff]

section

variable [Runtime]

/-- In every interleaving in which a commit finds the ownership row as its request
read it, every change of the spent counter is the change of the charges plus what
deletes wrote off. -/
theorem undisturbed_balanced (w : World) (u : Nat) (requests : List Request)
    (actions : List Action) (hp : (w.ledger.profiles.find? u).isSome)
    (hok : AllSteps System.step (System.Undisturbed u) (System.start w u requests) actions) :
    AllSteps System.step (System.Balanced u) (System.start w u requests) actions :=
  AllSteps.transitions (fun _ _ hs h => System.Trusted.step hs h) hok
    ⟨hp, System.start_forall (sound_rule u) w requests⟩

end

/-! ### Two requests on one account -/

instance (l : Ledger) (u : Nat) (email : String) (before after : Int) :
    Decidable (l.Expects u email before after) :=
  inferInstanceAs (Decidable (_ ∨ _ ∧ _))

/-- A reseller with one account of ten bytes, four of them used. -/
def oneAccount : World where
  roster := ⟨Table.empty, ⟨[{ email := "a", inboundId := 1, up := 4, allTime := 4, total := 10 }],
    by decide⟩⟩
  ledger := ⟨.single { userId := 1, allowanceBytes := 100, spentBytes := 10 },
    .single { email := "a", inboundId := 1, userId := 1, chargedBytes := 10 }⟩

instance (u : Nat) (w : World) : (t : Task) → Decidable (t.Undisturbed u w)
  | .price i _ => inferInstanceAs (Decidable (QuoteFits i))
  | .priceBulk p _ items now _ => inferInstanceAs (Decidable (BulkFits p items now))
  | .reserve _ _ => inferInstanceAs (Decidable (_ → _ → Ledger.Expects _ _ _ _ _))
  | .rollback t _ =>
      inferInstanceAs (Decidable (if t.create = true then _ = _ else Ledger.Expects _ _ _ _ _))
  | .reserveBulk t _ =>
      inferInstanceAs (Decidable (_ → ∀ c ∈ t.charges, Ledger.Expects _ _ _ _ _))
  | .rollbackBulk t _ => inferInstanceAs (Decidable (∀ c ∈ t.charges, Ledger.Expects _ _ _ _ _))
  | .settle _ _ _ _ _ => inferInstanceAs (Decidable (_ ∧ (_ → _ → _ ∧ _ ∧ FitsInt64 _)))
  | .done _ | .read _ | .rename _ _ _ => isTrue trivial

instance (u : Nat) (s : System) (a : Action) : Decidable (s.Undisturbed u a) :=
  inferInstanceAs (Decidable (Task.Undisturbed _ _ _))

instance (u : Nat) (l l' : Ledger) (n : Int) : Decidable (Ledger.Moves u l l' n) :=
  inferInstanceAs (Decidable (_ = _))

instance (u : Nat) (s : System) (a : Action) : Decidable (s.Balanced u a) :=
  inferInstanceAs (Decidable (Ledger.Moves _ _ _ _))

/-- Two deletes of one account read its row before either settles: both refund
the same charge. -/
theorem deletes_refund_twice :
    ¬ AllSteps System.step (System.Balanced 1)
      (@System.start Runtime.ascii oneAccount 1 [.refund "a" 4 true, .refund "a" 4 true])
      [.run 0, .run 1, .run 0, .run 1] := by
  decide +kernel

/-- A reset and then a delete of the account, one after the other. -/
theorem reset_then_delete_balanced :
    AllSteps System.step (System.Balanced 1)
      (@System.start Runtime.ascii oneAccount 1 [.reset "a" 0 true, .refund "a" 4 true])
      [.run 0, .run 0, .run 0, .run 0, .run 0, .run 1, .run 1] :=
  @undisturbed_balanced Runtime.ascii oneAccount 1 [.reset "a" 0 true, .refund "a" 4 true] _
    (by decide +kernel) (by decide +kernel)

end Simorgh.Panel
