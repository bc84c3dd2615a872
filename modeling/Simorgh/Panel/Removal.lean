import Mathlib.Data.List.Dedup
import Simorgh.Panel.Listing

/-!
# Deleting clients

A delete by client id takes off every entry under the identity and one traffic row, that of
the last of them; what stays is written back through the map decoder.  A bulk delete goes by
email and keeps one client back when it would take them all, which it decides by comparing
the number of emails with the number of entries.

* `removes_iff` — exactly when a delete takes off the one client it was given, and when a bulk
  delete leaves no inbound without clients.
* `deletes_too_much` — two accounts of one password go together, and an email that stands
  twice on an inbound empties it.
-/

namespace Simorgh.Panel

open Simorgh.Lib Simorgh.Lib.Json

/-! ## The requests -/

/-- The two ways to delete clients. -/
inductive DeleteRequest where
  | one (inboundId : Nat) (clientId : String)
  | bulk (order : MapOrder) (req : BulkClientUpdateRequest) (now : Int)

/-- The request is carried out. -/
def DeleteRequest.handle (r : Roster) : DeleteRequest → Roster × Reply
  | .one inboundId clientId => delInboundClient r inboundId clientId
  | .bulk order req now => bulkUpdateClients order r { req with op := .delete } now

/-- One entry under the identity is gone from the inbound, and the row of its email with it;
everything else is as it was and there is a client left. -/
def RemovesOne (inboundId : Nat) (clientId : String) (r r' : Roster) : Prop :=
  ∃ i pre d post, r.inbounds.find? inboundId = some i ∧ i.settings.clients = pre ++ d :: post ∧
    hasIdentity i.protocol clientId d = true ∧ pre ++ post ≠ [] ∧
    (∀ id, r'.inbounds.find? id =
      if id = inboundId then some (i.setClients (pre ++ post)) else r.inbounds.find? id) ∧
    ∀ email, r'.traffics.find? email =
      if email = d.str "email" ∧ email ≠ "" then none else r.traffics.find? email

/-- Every inbound that had a client has one. -/
def EmptiesNone (r r' : Roster) : Prop :=
  ∀ id, ∀ i ∈ r.inbounds.find? id, i.settings.clients ≠ [] →
    ∃ i', r'.inbounds.find? id = some i' ∧ i'.settings.clients ≠ []

/-- What a delete is to do. -/
def DeleteRequest.RemovesOnly (r : Roster) (req : DeleteRequest) : Prop :=
  match req with
  | .one inboundId clientId =>
      (req.handle r).2 = .ok () → RemovesOne inboundId clientId r (req.handle r).1
  | .bulk _ _ _ => EmptiesNone r (req.handle r).1

/-- Every number of the entry is printed as it was read. -/
def Prints (d : Doc) : Prop :=
  ∀ a ∈ d.members, ∀ l, a.2 = .num l → Num.print (Lit.toNum l) = l

/-- A bulk delete would take this entry: its email is a target and no toggle skips it. -/
def targeted (req : BulkClientUpdateRequest) (emails : List String) (d : Doc) : Bool :=
  decide (d.str "email" ≠ "") && decide (d.str "email" ∈ emails) &&
    !bulkClientSkipped (Doc.toMap d) req

/-- The condition on one delete: no other entry has the identity, and the entries that stay
print as they were read.  On a bulk delete: the emails of an inbound's entries differ, or one of
them is taken off under none of its entries. -/
def DeleteRequest.Exact (r : Roster) : DeleteRequest → Prop
  | .one inboundId clientId => DelAccepts r inboundId clientId →
      ∀ i ∈ r.inbounds.find? inboundId,
        i.settings.clients.countP (hasIdentity i.protocol clientId) ≤ 1 ∧
          ∀ d ∈ i.settings.clients, hasIdentity i.protocol clientId d = false → Prints d
  | .bulk _ req _ => (∀ id ∈ req.inboundIds, (r.inbounds.find? id).isSome) →
      ∀ id ∈ req.inboundIds, ∀ i ∈ r.inbounds.find? id, i.settings.clients ≠ [] →
        (i.settings.clients.map (·.str "email")).Nodup ∨
          ∃ d ∈ i.settings.clients, ∀ d' ∈ i.settings.clients,
            targeted { req with op := .delete } (req.emailsOn id) d' = true →
              d'.str "email" ≠ d.str "email"

/-! ## Entries written back -/

theorem map_eq_self_iff {α : Type} (f : α → α) (l : List α) : l.map f = l ↔ ∀ a ∈ l, f a = a := by
  have hid : l.map f = l ↔ l.map f = l.map id := by rw [List.map_id]
  rw [hid, List.map_inj_left]
  rfl

theorem rewrite_eq_self_iff (d : Doc) : rewrite d = d ↔ Prints d := by
  have hext : rewrite d = d ↔ (rewrite d).members = d.members := by
    constructor
    · intro h
      rw [h]
    · intro h
      cases hd : rewrite d
      cases d
      rw [hd] at h
      cases h
      rfl
  rw [hext, members_rewrite, map_eq_self_iff, Prints]
  refine forall₂_congr fun a _ => ?_
  obtain ⟨k, v⟩ := a
  cases v <;> simp [Val.map]

/-! ## One entry of a list -/

section OneEntry

variable {α : Type} {p : α → Bool} {l : List α}

/-- Where one element is the only one of its kind, taking the kind off leaves what stands
around it. -/
theorem filter_not_of_countP_one {pre post : List α} {a : α} (hl : l = pre ++ a :: post)
    (ha : p a = true) (hcount : l.countP p = 1) : (l.filter fun x => !p x) = pre ++ post := by
  subst hl
  rw [List.countP_append, List.countP_cons_of_pos ha] at hcount
  have hkeep : ∀ m : List α, m.countP p = 0 → (m.filter fun x => !p x) = m := by
    intro m hm
    rw [List.filter_eq_self]
    intro x hx
    simpa using List.countP_eq_zero.1 hm x hx
  rw [List.filter_append, List.filter_cons, if_neg (by simp [ha]), hkeep pre (by omega),
    hkeep post (by omega)]

/-- Taking all of a kind off takes one element off only if there is one. -/
theorem countP_of_length_filter_not {pre post : List α} {a : α} (hl : l = pre ++ a :: post)
    (h : (l.filter fun x => !p x).length = (pre ++ post).length) : l.countP p = 1 := by
  have hsum := List.length_eq_countP_add_countP p (l := l)
  have hlen : l.length = (pre ++ post).length + 1 := by
    rw [hl]
    simp only [List.length_append, List.length_cons]
    omega
  rw [← List.countP_eq_length_filter] at h
  simp only [Bool.not_eq_true, Bool.decide_eq_false] at hsum
  omega

end OneEntry

/-! ## By client id -/

section One

variable {r : Roster} {inboundId : Nat} {clientId : String}

theorem delInboundClient_ok_iff :
    (delInboundClient r inboundId clientId).2 = .ok () ↔ DelAccepts r inboundId clientId := by
  rcases delInboundClient_carried r inboundId clientId with ⟨haccepts, hok, -⟩ | ⟨hrefused, -, fault, herr⟩
  · exact ⟨fun _ => haccepts, fun _ => hok⟩
  · rw [herr]
    refine ⟨fun h => ?_, fun h => absurd h hrefused⟩
    cases h

/-- What a delete that is carried out leaves. -/
theorem delInboundClient_of_accepts (h : DelAccepts r inboundId clientId) :
    ∃ i last, r.inbounds.find? inboundId = some i ∧
      (i.settings.clients.filter (hasIdentity i.protocol clientId)).getLast? = some last ∧
      (i.settings.clients.filter fun d => !hasIdentity i.protocol clientId d) ≠ [] ∧
      (delInboundClient r inboundId clientId).1 = ⟨saveClients r.inbounds inboundId
          ((i.settings.clients.filter fun d => !hasIdentity i.protocol clientId d).map rewrite),
        if last.str "email" = "" then r.traffics else r.traffics.erase (last.str "email")⟩ := by
  obtain ⟨i, hi, last, hlast, hkept, hrow⟩ := h
  rw [Option.mem_def] at hi hlast
  refine ⟨i, last, hi, hlast, hkept, ?_⟩
  obtain ⟨-, rfl⟩ := Table.find?_some hi
  simp only [delInboundClient, hi, hlast, if_neg hkept]
  by_cases hempty : last.str "email" = ""
  · simp only [if_pos hempty]
  · have hsome := hrow.resolve_left hempty
    have hnone : ¬ (r.traffics.find? (last.str "email")).isNone = true := by
      rw [Option.isNone_iff_eq_none, ← Ne, ← Option.isSome_iff_ne_none]
      exact hsome
    simp only [if_neg hempty, if_neg hnone]

theorem find?_erase_unless_blank (traffics : Table ClientTraffic.email) (name email : String) :
    (if name = "" then traffics else traffics.erase name).find? email =
      if email = name ∧ email ≠ "" then none else traffics.find? email := by
  by_cases hblank : name = ""
  · rw [if_pos hblank, if_neg]
    rintro ⟨rfl, hne⟩
    exact hne hblank
  · rw [if_neg hblank, Table.find?_erase]
    by_cases he : email = name
    · rw [if_pos he, if_pos ⟨he, he ▸ hblank⟩]
    · rw [if_neg he, if_neg fun h => he h.1]

theorem removesOne_iff (h : DelAccepts r inboundId clientId) :
    RemovesOne inboundId clientId r (delInboundClient r inboundId clientId).1 ↔
      ∀ i ∈ r.inbounds.find? inboundId,
        i.settings.clients.countP (hasIdentity i.protocol clientId) ≤ 1 ∧
          ∀ d ∈ i.settings.clients, hasIdentity i.protocol clientId d = false → Prints d := by
  obtain ⟨i, last, hi, hlast, hkept, hout⟩ := delInboundClient_of_accepts h
  have hfind : ∀ id, (delInboundClient r inboundId clientId).1.inbounds.find? id =
      if id = inboundId then some (i.setClients
        ((i.settings.clients.filter fun d => !hasIdentity i.protocol clientId d).map rewrite))
      else r.inbounds.find? id := by
    intro id
    rw [hout, find?_saveClients]
    by_cases hid : id = inboundId
    · rw [if_pos hid, if_pos hid, hid, hi]
      rfl
    · rw [if_neg hid, if_neg hid]
  simp only [Option.mem_def, hi, Option.some.injEq, forall_eq']
  constructor
  · rintro ⟨i', pre, d, post, hi', hclients, hd, -, hwritten, -⟩
    obtain rfl : i = i' := by
      rw [hi, Option.some.injEq] at hi'
      exact hi'
    have hsame := (hfind inboundId).symm.trans (hwritten inboundId)
    rw [if_pos rfl, if_pos rfl, Option.some.injEq] at hsame
    have hentries : (i.settings.clients.filter fun d => !hasIdentity i.protocol clientId d).map rewrite =
        pre ++ post := congrArg (·.settings.clients) hsame
    have hcount : i.settings.clients.countP (hasIdentity i.protocol clientId) = 1 :=
      countP_of_length_filter_not hclients (by rw [← hentries, List.length_map])
    refine ⟨hcount.le, fun d' hd' hother => ?_⟩
    -- the one entry under the identity is `d`, so what is kept is what stands around it
    rw [filter_not_of_countP_one hclients hd hcount, map_eq_self_iff] at hentries
    rw [hclients, List.mem_append, List.mem_cons] at hd'
    have haround : d' ∈ pre ++ post := by
      rcases hd' with hd' | rfl | hd'
      · exact List.mem_append_left _ hd'
      · rw [hd] at hother
        cases hother
      · exact List.mem_append_right _ hd'
    exact (rewrite_eq_self_iff d').1 (hentries d' haround)
  · rintro ⟨hcount, hprints⟩
    obtain ⟨hmem, hid⟩ := List.mem_filter.1 (List.mem_of_getLast? hlast)
    obtain ⟨pre, post, hclients⟩ := List.append_of_mem hmem
    have hone : i.settings.clients.countP (hasIdentity i.protocol clientId) = 1 := by
      have hpos := List.countP_pos_iff.2 ⟨last, hmem, hid⟩
      omega
    have haround := filter_not_of_countP_one hclients hid hone
    have hsame : (pre ++ post).map rewrite = pre ++ post := by
      rw [map_eq_self_iff]
      intro d hd
      rw [← haround, List.mem_filter] at hd
      exact (rewrite_eq_self_iff d).2 (hprints d hd.1 (by simpa using hd.2))
    refine ⟨i, pre, last, post, hi, hclients, hid, haround ▸ hkept, fun id => ?_, fun email => ?_⟩
    · rw [hfind, haround, hsame]
    · rw [hout]
      exact find?_erase_unless_blank r.traffics (last.str "email") email

end One

/-! ## In bulk -/

section Bulk

variable {order : MapOrder} {req : BulkClientUpdateRequest} {emails : List String} {clients : List Doc}

/-- The emails of the entries a bulk delete would take. -/
def targetEmails (req : BulkClientUpdateRequest) (emails : List String) (clients : List Doc) : List String :=
  ((clients.filter (targeted req emails)).map (·.str "email")).dedup

theorem mem_targetEmails {email : String} : email ∈ targetEmails req emails clients ↔
    ∃ d ∈ clients, targeted req emails d = true ∧ d.str "email" = email := by
  simp [targetEmails, and_assoc]

theorem bulkDeleted_eq : bulkDeleted order req emails clients =
    if clients.length ≠ 0 ∧ clients.length ≤ (targetEmails req emails clients).length then
      (order.emails (targetEmails req emails clients)).tail
    else targetEmails req emails clients := rfl

/-- There are as many emails as entries only where every entry is taken and no email stands
twice. -/
theorem nodup_of_length_le (h : clients.length ≤ (targetEmails req emails clients).length) :
    (clients.map (·.str "email")).Nodup ∧
      ∀ d ∈ clients, d.str "email" ∈ targetEmails req emails clients := by
  have hsub : (targetEmails req emails clients).Sublist (clients.map (·.str "email")) :=
    (List.dedup_sublist _).trans (List.filter_sublist.map _)
  have heq := hsub.eq_of_length_le (by rwa [List.length_map])
  refine ⟨heq ▸ List.nodup_dedup _, fun d hd => ?_⟩
  rw [heq]
  exact List.mem_map_of_mem hd

variable (order) in
/-- Where the guard acts, the client it keeps back stays. -/
theorem kept_ne_nil_of_guard (hne : clients ≠ [])
    (h : clients.length ≤ (targetEmails req emails clients).length) :
    (clients.filter fun d => decide (d.str "email" ∉ bulkDeleted order req emails clients)) ≠ [] := by
  have hlen : clients.length ≠ 0 := fun h0 => hne (List.length_eq_zero_iff.1 h0)
  rw [bulkDeleted_eq, if_pos ⟨hlen, h⟩]
  have hperm := order.emails_perm (targetEmails req emails clients)
  have hnodup : (order.emails (targetEmails req emails clients)).Nodup :=
    hperm.nodup_iff.2 (List.nodup_dedup _)
  cases horder : order.emails (targetEmails req emails clients) with
  | nil =>
      rw [horder] at hperm
      have hzero := hperm.length_eq
      rw [List.length_nil] at hzero
      omega
  | cons e rest =>
      rw [horder, List.nodup_cons] at hnodup
      have he : e ∈ targetEmails req emails clients := hperm.mem_iff.1 (horder ▸ List.mem_cons_self)
      obtain ⟨d, hd, -, rfl⟩ := mem_targetEmails.1 he
      exact List.ne_nil_of_mem (List.mem_filter.2 ⟨hd, decide_eq_true hnodup.1⟩)

variable (order) in
/-- A bulk delete takes all clients of an inbound exactly when each of their emails is taken
and some email stands twice. -/
theorem kept_eq_nil_iff (hne : clients ≠ []) :
    (clients.filter fun d => decide (d.str "email" ∉ bulkDeleted order req emails clients)) = [] ↔
      ¬ (clients.map (·.str "email")).Nodup ∧
        ∀ d ∈ clients, d.str "email" ∈ targetEmails req emails clients := by
  by_cases hguard : clients.length ≤ (targetEmails req emails clients).length
  · have hkept := kept_ne_nil_of_guard order hne hguard
    have hdistinct := (nodup_of_length_le hguard).1
    exact ⟨fun h => absurd h hkept, fun h => absurd hdistinct h.1⟩
  · rw [bulkDeleted_eq, if_neg fun h => hguard h.2, List.filter_eq_nil_iff]
    simp only [decide_eq_true_eq, not_not]
    refine ⟨fun hall => ⟨fun hdistinct => hguard ?_, hall⟩, fun h => h.2⟩
    -- distinct emails that are all taken are as many as the entries
    have hsubset : clients.map (·.str "email") ⊆ targetEmails req emails clients := by
      intro e he
      obtain ⟨d, hd, rfl⟩ := List.mem_map.1 he
      exact hall d hd
    have hle := (List.subperm_of_subset hdistinct hsubset).length_le
    rwa [List.length_map] at hle

theorem afterBulkDelete_eq_nil_iff {i : Inbound} (hne : i.settings.clients ≠ []) :
    (afterBulkDelete order req i).settings.clients = [] ↔
      ¬ (i.settings.clients.map (·.str "email")).Nodup ∧
        ∀ d ∈ i.settings.clients, d.str "email" ∈ targetEmails req (req.emailsOn i.id) i.settings.clients := by
  rw [← kept_eq_nil_iff order hne]
  unfold afterBulkDelete
  split
  · exact List.map_eq_nil_iff
  · rename_i hnone
    have hall : (i.settings.clients.filter fun d =>
        decide (d.str "email" ∉ bulkDeleted order req (req.emailsOn i.id) i.settings.clients)) =
        i.settings.clients := by
      rw [List.filter_eq_self]
      intro d hd
      simp only [List.any_eq_true, decide_eq_true_eq, not_exists, not_and] at hnone
      exact decide_eq_true (hnone d hd)
    rw [hall]

/-- Exactly when a bulk delete leaves no inbound without clients. -/
theorem emptiesNone_iff (r : Roster) (now : Int) (hop : req.op = .delete) :
    EmptiesNone r (bulkUpdateClients order r req now).1 ↔
      ((∀ id ∈ req.inboundIds, (r.inbounds.find? id).isSome) →
        ∀ id ∈ req.inboundIds, ∀ i ∈ r.inbounds.find? id, i.settings.clients ≠ [] →
          (i.settings.clients.map (·.str "email")).Nodup ∨
            ∃ d ∈ i.settings.clients, ∀ d' ∈ i.settings.clients,
              targeted req (req.emailsOn id) d' = true → d'.str "email" ≠ d.str "email") := by
  -- what the condition says of one inbound
  have hspared : ∀ (id : Nat) (i : Inbound), r.inbounds.find? id = some i → i.settings.clients ≠ [] →
      ((i.settings.clients.map (·.str "email")).Nodup ∨
        (∃ d ∈ i.settings.clients, ∀ d' ∈ i.settings.clients,
          targeted req (req.emailsOn id) d' = true → d'.str "email" ≠ d.str "email") ↔
        (afterBulkDelete order req i).settings.clients ≠ []) := by
    intro id i hi hne
    obtain ⟨-, rfl⟩ := Table.find?_some hi
    rw [Ne, afterBulkDelete_eq_nil_iff hne, not_and_or, not_not]
    refine or_congr_right ?_
    simp only [mem_targetEmails]
    push Not
    rfl
  rcases bulkDelete_carried hop order r now with ⟨hfound, hok, -⟩ | ⟨hlost, hsame, -⟩
  · have hrun := bulkUpdateClients_ok hop (Prod.ext rfl hok)
    have hperm := order.ids_perm req.inboundIds
    obtain ⟨hinb, -⟩ := foldlM_bulkInbound_delete hop (hperm.nodup_iff.2 (List.nodup_dedup _)) hrun
    simp only [hperm.mem_iff] at hinb
    constructor
    · intro h _ id hid i hi hne
      obtain ⟨i', hi', hne'⟩ := h id i hi hne
      rw [hinb, hi, Option.map_some, if_pos hid, Option.some.injEq] at hi'
      exact (hspared id i hi hne).2 (hi' ▸ hne')
    · intro h id i hi hne
      rw [hinb, hi, Option.map_some]
      by_cases hid : id ∈ req.inboundIds
      · rw [if_pos hid]
        exact ⟨_, rfl, (hspared id i hi hne).1 (h hfound id hid i hi hne)⟩
      · rw [if_neg hid]
        exact ⟨i, rfl, hne⟩
  · rw [hsame]
    exact ⟨fun _ hfound => absurd hfound hlost, fun _ id i hi hne => ⟨i, hi, hne⟩⟩

end Bulk

/-- Exactly when a delete takes off the one client it was given, and when a bulk delete leaves no
inbound without clients. -/
theorem removes_iff (r : Roster) (req : DeleteRequest) : req.RemovesOnly r ↔ req.Exact r := by
  cases req with
  | one inboundId clientId =>
      simp only [DeleteRequest.RemovesOnly, DeleteRequest.handle, DeleteRequest.Exact]
      rw [delInboundClient_ok_iff]
      exact forall_congr' removesOne_iff
  | bulk order req now => exact emptiesNone_iff r now rfl

/-! ## Two accounts of one password, and one email twice -/

/-- An account as the panel's form posts it. -/
def l2tpAccount (user password email subId : String) : Text :=
  [("id", .str user), ("password", .str password), ("email", .str email), ("enable", .bool true),
    ("subId", .str subId)]

/-- An L2TP inbound the accounts were added to in one request. -/
def l2tpWith (accounts : List Text) : Roster :=
  (@addInboundClient Runtime.ascii
    ⟨.single { id := 1, protocol := .l2tp }, Table.empty⟩ 1 accounts none).1

/-- Two of the three have the password everybody has. -/
def oneUsualPassword : Roster :=
  l2tpWith [l2tpAccount "ann" "1234" "ann@shop" "s1", l2tpAccount "bob" "1234" "bob@shop" "s2",
    l2tpAccount "carl" "9876" "carl@shop" "s3"]

/-- One customer with two user names under one subscription. -/
def twoUserNames : Roster :=
  l2tpWith [l2tpAccount "ann" "1234" "ann@shop" "s1", l2tpAccount "ann2" "4321" "ann@shop" "s1"]

def deleteAnn : BulkClientUpdateRequest where
  op := .delete
  targets := [⟨1, "ann@shop"⟩]

theorem oneUsualPassword_accepts : DelAccepts oneUsualPassword 1 "1234" := by
  refine delInboundClient_ok_iff.1 ?_
  decide +kernel

/-- Deleting one of two accounts of a password takes both off, and a bulk delete of an email that
stands twice leaves the inbound empty. -/
theorem deletes_too_much :
    ¬ (DeleteRequest.one 1 "1234").RemovesOnly oneUsualPassword ∧
      ¬ (DeleteRequest.bulk .inserted deleteAnn 0).RemovesOnly twoUserNames := by
  constructor
  · intro h
    have hone := (removesOne_iff oneUsualPassword_accepts).1
      (h (delInboundClient_ok_iff.2 oneUsualPassword_accepts))
    obtain ⟨i, hi, -⟩ := oneUsualPassword_accepts
    have hcount : ∀ i ∈ oneUsualPassword.inbounds.find? 1,
        ¬ i.settings.clients.countP (hasIdentity i.protocol "1234") ≤ 1 := by
      decide +kernel
    exact hcount i hi (hone i hi).1
  · intro h
    have hnone : ∃ i ∈ twoUserNames.inbounds.find? 1, i.settings.clients ≠ [] ∧
        ((DeleteRequest.bulk .inserted deleteAnn 0).handle twoUserNames).1.inbounds.find? 1 =
          some (i.setClients []) := by
      decide +kernel
    obtain ⟨i, hi, hne, hout⟩ := hnone
    obtain ⟨i', hi', hne'⟩ := h 1 i hi hne
    rw [hout, Option.some.injEq] at hi'
    exact hne' (hi' ▸ rfl)

end Simorgh.Panel
