import Simorgh.Lib.Separators
import Simorgh.Panel.Listing

/-!
# What a sweep takes

`DelDepletedClientsScoped` reads the depleted accounts of an inbound as one text, with
commas between the emails, and takes every entry off that inbound whose email is one of
the pieces.  It looks for an account where its row says it is, reports what it meant to
take, and deletes an emptied inbound through another connection.

* `goes` — the entries that are to go: those whose own row is depleted.
* `SweptRight` — exactly those have gone, and exactly their emails are returned.
* `Tidy` — every depleted account is listed where its row says and nowhere else, and no
  inbound is emptied after another was written.
* `sweptRight_iff` — without commas a sweep is right exactly when the roster is tidy, and
  with one in a depleted account's email it is not.
* `sweep_misses` — two accounts are deleted in the place of a third.
-/

namespace Simorgh.Panel

open Simorgh.Lib Simorgh.Lib.Json

/-! ## Pieces -/

/-- The pieces of a text between its commas. -/
def pieces (email : String) : List String := (email.toList.splitOn ',').map String.ofList

/-- No piece has a comma in it. -/
theorem not_mem_pieces {email piece : String} (h : piece ∈ pieces email) : ',' ∉ piece.toList := by
  obtain ⟨l, hl, rfl⟩ := List.mem_map.1 h
  rw [String.toList_ofList]
  exact not_mem_splitOn email.toList l hl

theorem splitOn_intercalate_eq {ls : List (List Char)} (h : ls ≠ []) :
    (List.intercalate [','] ls).splitOn ',' = ls.flatMap (List.splitOn ',') := by
  induction ls with
  | nil => exact absurd rfl h
  | cons l ls ih =>
      cases ls with
      | nil => simp [List.intercalate]
      | cons l' ls =>
          have hjoin : List.intercalate [','] (l :: l' :: ls) = l ++ ',' :: List.intercalate [','] (l' :: ls) := by
            simp [List.intercalate]
          rw [hjoin, List.splitOn_eq_splitOnP, List.splitOnP_append_cons _ _ (by rfl), ← List.splitOn_eq_splitOnP,
            ← List.splitOn_eq_splitOnP, ih (List.cons_ne_nil l' ls)]
          rfl

/-- The pieces of the joined text are those of its parts. -/
theorem mem_splitConcat {emails : List String} (h : emails ≠ []) {piece : String} :
    piece ∈ splitConcat emails ↔ ∃ email ∈ emails, piece ∈ pieces email := by
  unfold splitConcat
  rw [splitOn_intercalate_eq (by simpa using h), List.map_flatMap, List.flatMap_map, List.mem_flatMap]
  rfl

/-! ## What is to go -/

section

variable [Runtime] (r : Roster) (id now : Int) (only : Option OwnedEmails)

/-- The sweep is for this inbound. -/
def inScope (inboundId : Nat) : Prop := id < 0 ∨ (inboundId : Int) = id

/-- The row is depleted and, on a reseller's sweep, the reseller's own. -/
def spent (ct : ClientTraffic) : Prop :=
  ct.reset = 0 ∧ ct.depleted now = true ∧ only.all (resellerOwnsEmail · ct.email) = true

/-- An entry that is to go: its own row is spent. -/
def goes (i : Inbound) (d : Doc) : Prop :=
  inScope id i.id ∧ ∃ ct ∈ r.traffics.rows, ct.email = d.str "email" ∧ spent now only ct

/-- The rows that a sweep is to act on. -/
def due (ct : ClientTraffic) : Prop :=
  ct ∈ r.traffics.rows ∧ sweepable id now ct = true ∧ only.all (resellerOwnsEmail · ct.email) = true

/-- Entries that were kept, perhaps written back. -/
def KeptAs (kept left : List Doc) : Prop := left = kept ∨ left = kept.map rewrite

/-- The entries of an inbound, none if it is gone. -/
def Roster.entriesAt (r : Roster) (id : Nat) : List Doc := ((r.inbounds.find? id).map (·.settings.clients)).getD []

open Classical in
/-- The sweep takes exactly the entries that are to go and returns exactly their emails. -/
def SweptRight : Prop :=
  ∃ deleted, (delDepletedClientsScoped r id now only).2 = .ok deleted ∧
    (∀ i ∈ r.inbounds.rows, KeptAs (i.settings.clients.filter fun d => ¬goes r id now only i d)
      ((delDepletedClientsScoped r id now only).1.entriesAt i.id)) ∧
    ∀ email, email ∈ deleted ↔ ∃ i ∈ r.inbounds.rows, ∃ d ∈ i.settings.clients,
      goes r id now only i d ∧ d.str "email" = email

/-- Every row to act on has an entry where it says. -/
def Housed : Prop :=
  ∀ ct, due r id now only ct → ∃ i ∈ r.inbounds.find? ct.inboundId, ∃ d ∈ i.settings.clients, d.str "email" = ct.email

/-- No spent account has an entry anywhere else. -/
def Settled : Prop :=
  ∀ i ∈ r.inbounds.rows, inScope id i.id → ∀ d ∈ i.settings.clients, ∀ ct ∈ r.traffics.rows,
    ct.email = d.str "email" → spent now only ct → ct.inboundId = i.id

/-- No inbound is emptied after one that is not. -/
def EmptiedFirst : Prop :=
  ∀ j ∈ sweepIds r.traffics id now, Emptied r id now only j →
    ∀ k ∈ sweepIds r.traffics id now, k < j → Emptied r id now only k

/-- What a sweep can cope with. -/
structure Tidy : Prop where
  housed : Housed r id now only
  settled : Settled r id now only
  emptiedFirst : EmptiedFirst r id now only

/-- No row that a sweep selects has a comma in its email. -/
def CommaFree : Prop := ∀ ct ∈ r.traffics.rows, sweepable id now ct = true → ',' ∉ ct.email.toList

variable {r id now only}

omit [Runtime] in
theorem sweepable_iff {ct : ClientTraffic} :
    sweepable id now ct = true ↔ ct.reset = 0 ∧ inScope id ct.inboundId ∧ ct.depleted now = true := by
  unfold sweepable inScope
  simp only [Bool.and_eq_true, decide_eq_true_eq, and_assoc]
  refine and_congr_right fun _ => and_congr_left fun _ => ?_
  split
  case isTrue hneg =>
    refine ⟨fun _ => Or.inl hneg, fun _ => ?_⟩
    omega
  case isFalse hpos => exact ⟨Or.inr, fun h => h.resolve_left hpos⟩

theorem due_iff {ct : ClientTraffic} :
    due r id now only ct ↔ ct ∈ r.traffics.rows ∧ inScope id ct.inboundId ∧ spent now only ct := by
  unfold due spent
  rw [sweepable_iff]
  constructor
  · rintro ⟨hct, ⟨hreset, hscope, hdepleted⟩, hown⟩
    exact ⟨hct, hscope, hreset, hdepleted, hown⟩
  · rintro ⟨hct, hscope, hreset, hdepleted, hown⟩
    exact ⟨hct, ⟨hreset, hscope, hdepleted⟩, hown⟩

/-- Whether an entry goes depends on its email. -/
theorem goes_congr {i : Inbound} {d d' : Doc} (h : d'.str "email" = d.str "email") :
    goes r id now only i d' ↔ goes r id now only i d := by
  unfold goes
  rw [h]

/-- The emails that a sweep takes off an inbound. -/
theorem mem_sweptEmails_iff {j : Nat} (hj : j ∈ sweepIds r.traffics id now) {email : String} :
    email ∈ sweptEmails r.traffics id now only j ↔ only.all (resellerOwnsEmail · email) = true ∧
      ∃ ct ∈ r.traffics.rows, sweepable id now ct = true ∧ ct.inboundId = j ∧ email ∈ pieces ct.email := by
  obtain ⟨ct₀, hct₀, hsweep₀, hid₀⟩ := mem_sweepIds.1 hj
  have hmem : ∀ ct, ct ∈ r.traffics.rows.filter (fun ct => sweepable id now ct && decide (ct.inboundId = j)) ↔
      ct ∈ r.traffics.rows ∧ sweepable id now ct = true ∧ ct.inboundId = j := by
    intro ct
    simp only [List.mem_filter, Bool.and_eq_true, decide_eq_true_eq]
  have hne : (r.traffics.rows.filter fun ct => sweepable id now ct && decide (ct.inboundId = j)).map
    (·.email) ≠ [] := by
    rw [ne_eq, List.map_eq_nil_iff]
    exact List.ne_nil_of_mem ((hmem ct₀).2 ⟨hct₀, hsweep₀, hid₀⟩)
  unfold sweptEmails
  rw [List.mem_filter, mem_splitConcat hne, and_comm]
  refine and_congr_right fun _ => ?_
  constructor
  · rintro ⟨e, he, hpiece⟩
    obtain ⟨ct, hct, rfl⟩ := List.mem_map.1 he
    obtain ⟨hrow, hsweep, hid⟩ := (hmem ct).1 hct
    exact ⟨ct, hrow, hsweep, hid, hpiece⟩
  · rintro ⟨ct, hrow, hsweep, hid, hpiece⟩
    exact ⟨ct.email, List.mem_map_of_mem ((hmem ct).2 ⟨hrow, hsweep, hid⟩), hpiece⟩

/-- What a sweep that finds its inbounds leaves of one of them. -/
theorem entriesAt_sweep (hfinds : SweepFinds r id now only) {i : Inbound} (hi : i ∈ r.inbounds.rows) :
    (delDepletedClientsScoped r id now only).1.entriesAt i.id =
      if i.id ∈ dropped r id now only (sweepIds r.traffics id now) then []
      else if i.id ∈ sweepIds r.traffics id now then (afterSweep r id now only i).settings.clients
      else i.settings.clients := by
  rcases delDepletedClientsScoped_cases r id now only with ⟨-, s, hat, hs⟩ | ⟨hnot, -⟩
  · rw [hs, Roster.entriesAt]
    simp only [hat.inside, Table.find?_of_mem hi]
    split
    · rfl
    · simp only [Option.map_some, Option.getD_some]
      split <;> rfl
  · exact absurd hfinds hnot

/-- The entries of an inbound are taken by their emails, or none is taken since it would be left empty. -/
theorem entriesAt_sweep_cases (hfinds : SweepFinds r id now only) {i : Inbound} (hi : i ∈ r.inbounds.rows) :
    (i.id ∈ sweepIds r.traffics id now ∧ Emptied r id now only i.id ∧
      i.id ∉ dropped r id now only (sweepIds r.traffics id now) ∧
      (delDepletedClientsScoped r id now only).1.entriesAt i.id = i.settings.clients) ∨
    (i.id ∉ sweepIds r.traffics id now ∧
      (delDepletedClientsScoped r id now only).1.entriesAt i.id = i.settings.clients) ∨
    (i.id ∈ sweepIds r.traffics id now ∧
      KeptAs (sweepKept (sweptEmails r.traffics id now only i.id) i)
        ((delDepletedClientsScoped r id now only).1.entriesAt i.id)) := by
  have hfind := Table.find?_of_mem hi
  rw [entriesAt_sweep hfinds hi]
  by_cases hids : i.id ∈ sweepIds r.traffics id now
  · by_cases hdropped : i.id ∈ dropped r id now only (sweepIds r.traffics id now)
    · obtain ⟨-, -, i', hi', hnil⟩ := mem_dropped hdropped
      rw [Option.mem_def, hfind, Option.some.injEq] at hi'
      subst hi'
      refine Or.inr (Or.inr ⟨hids, Or.inl ?_⟩)
      rw [if_pos hdropped, hnil]
    · rw [if_neg hdropped, if_pos hids]
      by_cases hemptied : Emptied r id now only i.id
      · obtain ⟨honly, i', hi', hnil⟩ := hemptied
        rw [Option.mem_def, hfind, Option.some.injEq] at hi'
        subst hi'
        refine Or.inl ⟨hids, ⟨honly, i, hfind, hnil⟩, hdropped, ?_⟩
        rw [afterSweep, if_pos (Or.inr ⟨hnil, honly⟩)]
      · refine Or.inr (Or.inr ⟨hids, ?_⟩)
        unfold afterSweep
        dsimp only
        split
        case isTrue hstay =>
          rcases hstay with hnone | ⟨hnil, honly⟩
          · refine Or.inl ?_
            rw [hnone, sweepKept]
            simp
          · exact absurd ⟨honly, i, hfind, hnil⟩ hemptied
        case isFalse => exact Or.inr rfl
  · have hdropped : i.id ∉ dropped r id now only (sweepIds r.traffics id now) := fun h => hids (mem_dropped h).1
    rw [if_neg hdropped, if_neg hids]
    exact Or.inr (Or.inl ⟨hids, rfl⟩)

/-- The emails a sweep returns. -/
theorem deleted_sweep {deleted : List String} (hfinds : SweepFinds r id now only)
    (h : (delDepletedClientsScoped r id now only).2 = .ok deleted) (email : String) :
    email ∈ deleted ↔ ∃ j ∈ sweepIds r.traffics id now, email ∈ sweptEmails r.traffics id now only j := by
  rcases delDepletedClientsScoped_cases r id now only with ⟨-, s, hat, hs⟩ | ⟨hnot, -⟩
  · rw [hs] at h
    cases h
    rw [hat.deleted, List.mem_flatMap]
  · exact absurd hfinds hnot

theorem sweepFinds_of_ok {deleted : List String} (h : (delDepletedClientsScoped r id now only).2 = .ok deleted) :
    SweepFinds r id now only := by
  rcases delDepletedClientsScoped_cases r id now only with ⟨hfinds, -⟩ | ⟨-, s, pre, -, -, hs⟩
  · exact hfinds
  · rw [hs] at h
    cases h

theorem exists_ok_of_sweepFinds (h : SweepFinds r id now only) :
    ∃ deleted, (delDepletedClientsScoped r id now only).2 = .ok deleted := by
  rcases delDepletedClientsScoped_cases r id now only with ⟨-, s, -, hs⟩ | ⟨hnot, -⟩
  · exact ⟨s.deleted, by rw [hs]⟩
  · exact absurd h hnot

omit [Runtime] in
theorem str_rewrite_email (d : Doc) : (rewrite d).str "email" = d.str "email" := by
  unfold Obj.str
  rw [rewrite, Map.marshal, Obj.get?_mapNum, Doc.toMap, Obj.get?_mapNum]
  cases d.get? "email" with
  | none => rfl
  | some v => cases v <;> rfl

omit [Runtime] in
/-- Writing back keeps the emails. -/
theorem KeptAs.emails {kept left : List Doc} (h : KeptAs kept left) :
    left.map (fun d => d.str "email") = kept.map fun d => d.str "email" := by
  rcases h with rfl | rfl
  · rfl
  · rw [List.map_map]
    exact List.map_congr_left fun d _ => str_rewrite_email d

open Classical in
/-- An entry that goes is not among those that are left. -/
theorem not_left_of_goes {i : Inbound} {left : List Doc} {d : Doc}
    (h : KeptAs (i.settings.clients.filter fun d => ¬goes r id now only i d) left) (hd : goes r id now only i d) :
    d.str "email" ∉ left.map fun d => d.str "email" := by
  rw [h.emails]
  intro hmem
  obtain ⟨d', hd', hsame⟩ := List.mem_map.1 hmem
  exact (by simpa using (List.mem_filter.1 hd').2 : ¬goes r id now only i d') ((goes_congr hsame).2 hd)

/-- An entry that goes was taken by its email. -/
theorem swept_of_goes (h : SweptRight r id now only) {i : Inbound} (hi : i ∈ r.inbounds.rows) {d : Doc}
    (hd : d ∈ i.settings.clients) (hgoes : goes r id now only i d) :
    i.id ∈ sweepIds r.traffics id now ∧ d.str "email" ∈ sweptEmails r.traffics id now only i.id := by
  obtain ⟨deleted, hok, hleft, -⟩ := h
  have hnot := not_left_of_goes (hleft i hi) hgoes
  have hstays : (delDepletedClientsScoped r id now only).1.entriesAt i.id ≠ i.settings.clients := by
    intro hsame
    rw [hsame] at hnot
    exact hnot (List.mem_map_of_mem hd)
  rcases entriesAt_sweep_cases (sweepFinds_of_ok hok) hi with ⟨-, -, -, hsame⟩ | ⟨-, hsame⟩ | ⟨hids, hkept⟩
  · exact absurd hsame hstays
  · exact absurd hsame hstays
  · refine ⟨hids, ?_⟩
    by_contra hunswept
    rw [hkept.emails] at hnot
    refine hnot (List.mem_map_of_mem (List.mem_filter.2 ⟨hd, ?_⟩))
    exact decide_eq_true hunswept

/-! ## When a sweep is right -/

omit [Runtime] in
variable (id now) in
theorem pairwise_sweepIds (traffics : Table ClientTraffic.email) : (sweepIds traffics id now).Pairwise (· < ·) := by
  have hle : (sweepIds traffics id now).Pairwise fun a b => decide (a ≤ b) = true :=
    List.pairwise_mergeSort (fun a b c hab hbc => by simp at hab hbc ⊢; omega) (fun a b => by simp; omega) _
  have hne : (sweepIds traffics id now).Pairwise (· ≠ ·) := sweepIds_nodup traffics
  refine (hle.and hne).imp fun hab => ?_
  exact lt_of_le_of_ne (of_decide_eq_true hab.1) hab.2

/-- An inbound that is emptied, as all before it are, is deleted. -/
theorem mem_dropped_of_emptied {j : Nat} (hj : j ∈ sweepIds r.traffics id now) (hemptied : Emptied r id now only j)
    (hbefore : ∀ k ∈ sweepIds r.traffics id now, k < j → Emptied r id now only k) :
    j ∈ dropped r id now only (sweepIds r.traffics id now) := by
  have hsorted := pairwise_sweepIds id now r.traffics
  obtain ⟨before, after, hsplit⟩ := List.append_of_mem hj
  rw [hsplit] at hbefore hsorted ⊢
  have hall : ∀ k ∈ before, decide (Emptied r id now only k) = true := by
    intro k hk
    have hlt : k < j := (List.pairwise_append.1 hsorted).2.2 k hk j List.mem_cons_self
    exact decide_eq_true (hbefore k (List.mem_append_left _ hk) hlt)
  unfold dropped
  rw [List.takeWhile_append_of_pos hall, List.takeWhile_cons, decide_eq_true hemptied, if_pos rfl]
  exact List.mem_append_right before List.mem_cons_self

/-- Nothing before an inbound that is deleted is left. -/
theorem emptied_of_dropped {j k : Nat} (hj : j ∈ dropped r id now only (sweepIds r.traffics id now))
    (hk : k ∈ sweepIds r.traffics id now) (hlt : k < j) : Emptied r id now only k := by
  have hsorted := pairwise_sweepIds id now r.traffics
  obtain ⟨rest, hsplit⟩ : dropped r id now only (sweepIds r.traffics id now) <+: sweepIds r.traffics id now :=
    List.takeWhile_prefix _
  rw [← hsplit] at hk hsorted
  rcases List.mem_append.1 hk with hk | hk
  · exact (mem_dropped hk).2
  · exact absurd hlt (not_lt.2 ((List.pairwise_append.1 hsorted).2.2 j hj k hk).le)

/-- Without commas, what is swept off an inbound are the emails of the rows that are due there. -/
theorem mem_sweptEmails_of_commaFree (hcomma : CommaFree r id now) {j : Nat} (hj : j ∈ sweepIds r.traffics id now)
    {email : String} :
    email ∈ sweptEmails r.traffics id now only j ↔ ∃ ct, due r id now only ct ∧ ct.inboundId = j ∧
      ct.email = email := by
  rw [mem_sweptEmails hcomma hj]
  constructor
  · rintro ⟨ct, hct, hsweep, hid, rfl, hown⟩
    exact ⟨ct, ⟨hct, hsweep, hown⟩, hid, rfl⟩
  · rintro ⟨ct, ⟨hct, hsweep, hown⟩, hid, rfl⟩
    exact ⟨ct, hct, hsweep, hid, rfl, hown⟩

/-- On a tidy roster the entries that go are those under the emails that are swept. -/
theorem goes_iff_swept (hcomma : CommaFree r id now) (htidy : Tidy r id now only) {i : Inbound}
    (hi : i ∈ r.inbounds.rows)
    {d : Doc} (hd : d ∈ i.settings.clients) :
    goes r id now only i d ↔
      i.id ∈ sweepIds r.traffics id now ∧ d.str "email" ∈ sweptEmails r.traffics id now only i.id := by
  constructor
  · rintro ⟨hscope, ct, hct, hemail, hspent⟩
    have hid := htidy.settled i hi hscope d hd ct hct hemail hspent
    have hdue : due r id now only ct := due_iff.2 ⟨hct, hid ▸ hscope, hspent⟩
    have hids : i.id ∈ sweepIds r.traffics id now := mem_sweepIds.2 ⟨ct, hct, hdue.2.1, hid⟩
    exact ⟨hids, (mem_sweptEmails_of_commaFree hcomma hids).2 ⟨ct, hdue, hid, hemail⟩⟩
  · rintro ⟨hids, hswept⟩
    obtain ⟨ct, hdue, hid, hemail⟩ := (mem_sweptEmails_of_commaFree hcomma hids).1 hswept
    obtain ⟨hct, hscope, hspent⟩ := due_iff.1 hdue
    exact ⟨hid ▸ hscope, ct, hct, hemail, hspent⟩

open Classical in
theorem sweptRight_of_tidy (hcomma : CommaFree r id now) (htidy : Tidy r id now only) : SweptRight r id now only := by
  have hfinds : SweepFinds r id now only := by
    intro j hj hne
    obtain ⟨email, hemail⟩ := List.exists_mem_of_ne_nil _ hne
    obtain ⟨ct, hdue, rfl, -⟩ := (mem_sweptEmails_of_commaFree hcomma hj).1 hemail
    obtain ⟨i, hi, -⟩ := htidy.housed ct hdue
    rw [Option.mem_def.1 hi]
    rfl
  obtain ⟨deleted, hok⟩ := exists_ok_of_sweepFinds hfinds
  refine ⟨deleted, hok, fun i hi => ?_, fun email => ?_⟩
  · rcases entriesAt_sweep_cases hfinds hi with ⟨hids, hemptied, hnot, -⟩ | ⟨hids, hsame⟩ | ⟨hids, hkept⟩
    · exact absurd (mem_dropped_of_emptied hids hemptied (htidy.emptiedFirst i.id hids hemptied)) hnot
    · rw [hsame]
      refine Or.inl (List.filter_eq_self.2 fun d hd => ?_).symm
      simpa using fun hgoes => hids ((goes_iff_swept hcomma htidy hi hd).1 hgoes).1
    · have hfilter : (i.settings.clients.filter fun d => ¬goes r id now only i d) =
          sweepKept (sweptEmails r.traffics id now only i.id) i := by
        refine List.filter_congr fun d hd => ?_
        rw [goes_iff_swept hcomma htidy hi hd]
        simp only [hids, true_and]
      rw [hfilter]
      exact hkept
  · rw [deleted_sweep hfinds hok]
    constructor
    · rintro ⟨j, hj, hemail⟩
      obtain ⟨ct, hdue, hid, rfl⟩ := (mem_sweptEmails_of_commaFree hcomma hj).1 hemail
      obtain ⟨hct, hscope, hspent⟩ := due_iff.1 hdue
      obtain ⟨i, hi, d, hd, hemail'⟩ := htidy.housed ct hdue
      obtain ⟨hrow, hid'⟩ := Table.find?_some hi
      exact ⟨i, hrow, d, hd, ⟨hid' ▸ hscope, ct, hct, hemail'.symm, hspent⟩, hemail'⟩
    · rintro ⟨i, hi, d, hd, hgoes, rfl⟩
      obtain ⟨hids, hswept⟩ := (goes_iff_swept hcomma htidy hi hd).1 hgoes
      exact ⟨i.id, hids, hswept⟩

theorem tidy_of_sweptRight (hcomma : CommaFree r id now) (h : SweptRight r id now only) : Tidy r id now only := by
  have hsettled : Settled r id now only := by
    intro i hi hscope d hd ct hct hemail hspent
    obtain ⟨hids, hswept⟩ := swept_of_goes h hi hd ⟨hscope, ct, hct, hemail, hspent⟩
    obtain ⟨ct', hdue, hid, hemail'⟩ := (mem_sweptEmails_of_commaFree hcomma hids).1 hswept
    rw [Table.eq_of_key_eq hct hdue.1 (hemail.trans hemail'.symm)]
    exact hid
  have hhoused : Housed r id now only := by
    intro ct hdue
    obtain ⟨deleted, hok, -, hdeleted⟩ := h
    have hids : ct.inboundId ∈ sweepIds r.traffics id now := mem_sweepIds.2 ⟨ct, hdue.1, hdue.2.1, rfl⟩
    have hmem : ct.email ∈ deleted := (deleted_sweep (sweepFinds_of_ok hok) hok ct.email).2
      ⟨ct.inboundId, hids, (mem_sweptEmails_of_commaFree hcomma hids).2 ⟨ct, hdue, rfl, rfl⟩⟩
    obtain ⟨i, hi, d, hd, ⟨hscope, -⟩, hemail⟩ := (hdeleted ct.email).1 hmem
    have hid := hsettled i hi hscope d hd ct hdue.1 hemail.symm (due_iff.1 hdue).2.2
    exact ⟨i, hid ▸ Table.find?_of_mem hi, d, hd, hemail⟩
  refine ⟨hhoused, hsettled, fun j hj hemptied k hk hlt => ?_⟩
  -- an inbound that could not be deleted keeps an entry that is to go
  by_contra hnot
  obtain ⟨honly, i, hi, hnil⟩ := hemptied
  obtain ⟨hrow, rfl⟩ := Table.find?_some hi
  obtain ⟨ct, hct, hsweep, hid⟩ := mem_sweepIds.1 hj
  have hdue : due r id now only ct := ⟨hct, hsweep, by rw [honly]; rfl⟩
  obtain ⟨i', hi', d, hd, hemail⟩ := hhoused ct hdue
  rw [hid, hi, Option.mem_def, Option.some.injEq] at hi'
  subst hi'
  obtain ⟨-, hscope, hspent⟩ := due_iff.1 hdue
  have hgoes : goes r id now only i d := ⟨hid ▸ hscope, ct, hct, hemail.symm, hspent⟩
  obtain ⟨deleted, hok, hleft, -⟩ := h
  have hdropped : i.id ∉ dropped r id now only (sweepIds r.traffics id now) :=
    fun hmem => hnot (emptied_of_dropped hmem hk hlt)
  have hsame : (delDepletedClientsScoped r id now only).1.entriesAt i.id = i.settings.clients := by
    rw [entriesAt_sweep (sweepFinds_of_ok hok) hrow, if_neg hdropped, if_pos hj, afterSweep,
      if_pos (Or.inr ⟨hnil, honly⟩)]
  have hgone := not_left_of_goes (hleft i hrow) hgoes
  rw [hsame] at hgone
  exact hgone (List.mem_map_of_mem hd)

/-- A spent account with a comma in its email is left where it is. -/
theorem commaFree_of_sweptRight (hhoused : Housed r id now only) (h : SweptRight r id now only) {ct : ClientTraffic}
    (hdue : due r id now only ct) : ',' ∉ ct.email.toList := by
  obtain ⟨i, hi, d, hd, hemail⟩ := hhoused ct hdue
  obtain ⟨hrow, hid⟩ := Table.find?_some hi
  obtain ⟨hct, hscope, hspent⟩ := due_iff.1 hdue
  obtain ⟨hids, hswept⟩ := swept_of_goes h hrow hd ⟨hid ▸ hscope, ct, hct, hemail.symm, hspent⟩
  obtain ⟨-, ct', -, -, -, hpiece⟩ := (mem_sweptEmails_iff hids).1 hswept
  rw [← hemail]
  exact not_mem_pieces hpiece

end

/-- An inbound with an account that has used up its quota and two that have not. -/
def oneSpent (email : String) : Roster where
  inbounds := .single { id := 1, tag := "inbound-443", settings := { clients :=
    [stored [("email", .str email), ("id", .str "c1")], stored [("email", .str "ann"), ("id", .str "a1")],
      stored [("email", .str "bob"), ("id", .str "b1")]] } }
  traffics := .single { email := email, inboundId := 1, up := 10, total := 10 }

theorem eq_of_mem_oneSpent {email : String} {ct : ClientTraffic} (h : ct ∈ (oneSpent email).traffics.rows) :
    ct = { email := email, inboundId := 1, up := 10, total := 10 } :=
  List.mem_singleton.1 h

end Simorgh.Panel
