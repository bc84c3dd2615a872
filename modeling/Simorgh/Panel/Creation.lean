import Simorgh.Panel.Posted

/-!
# Accounts a reseller creates

Two routes create clients and both are open to resellers.  One prices the client
before it writes it; the other, which puts one customer on several inbounds,
writes it and nothing else.

* `create_paid_iff` — exactly when a request that goes through leaves every account
  it created owned by the reseller and charged for.
* `multi_create_unpaid` — a customer created across inbounds is neither.
-/

namespace Simorgh.Panel

open Simorgh.Lib Simorgh.Lib.Json

section

variable [Runtime]

/-- A request of a reseller that creates clients.  The multi-inbound one is bound
straight into a client; a body that does not bind is refused before anything is
done. -/
inductive CreateRequest where
  | addClient (inboundId : Nat) (body : Body) (now : Int) (pool : Option String)
  | addClientMulti (inboundIds : List Nat) (client : Text) (pool : Nat → Option String)

/-- The world a request leaves, and whether it succeeded. -/
def CreateRequest.handle (userId : Nat) (w : World) : CreateRequest → World × Bool
  | .addClient inboundId body now pool =>
      match Panel.addClient w userId inboundId body now pool with
      | (w', .ok _) => (w', true)
      | (w', .error _) => (w', false)
  | .addClientMulti inboundIds client pool =>
      match createAcrossInbounds w.roster inboundIds (Client.decode client) pool with
      | (r, .ok _) => ({ w with roster := r }, true)
      | (r, .error _) => ({ w with roster := r }, false)

/-- The accounts that exist in `w'` and did not in `w`. -/
def newAccounts (w w' : World) : List ClientTraffic :=
  w'.roster.traffics.rows.filter fun ct => (w.roster.traffics.find? ct.email).isNone

/-- What the ledger charges an account with. -/
def World.chargeFor (w : World) (ct : ClientTraffic) : Int :=
  ((w.ledger.clients.find? ct.email).map (·.chargedBytes)).getD 0

/-- Every account that came into existence is the reseller's, charged with its
quota, and the spent counter rose by those charges. -/
def PaidFor (userId : Nat) (w w' : World) : Prop :=
  (∀ ct ∈ newAccounts w w', ∃ rc ∈ w'.ledger.clients.find? ct.email,
    rc.userId = userId ∧ rc.chargedBytes = ct.total) ∧
  w'.ledger.spentOf userId - w.ledger.spentOf userId =
    ((newAccounts w w').map w'.chargeFor).sum

/-- An inbound takes the customer: it is there, does not list the email, and none of
the checks on an added client refuses it. -/
def takes (r : Roster) (client : Client) (pool : Nat → Option String) (id : Nat) : Bool :=
  match r.inbounds.find? id with
  | none => false
  | some i =>
      !((getClients i).any fun c => equalFold (trimSpace c.email) (trimSpace client.email)) &&
        decide (checkEmailsExistForClients r [multiClient client] = none) &&
        decide (addInboundClientCheck r i [multiClient client] (pool id) = .ok ())

/-- The condition on a request.  A client that is not added under a free name must
cost nothing; one that is added must be priced by the quota that is stored, under
the email that is stored.  A customer created across inbounds must bring no account
into existence.  (An ownership row left over under the name, with just the right
charge, does as well.) -/
def CreateRequest.Paid (userId : Nat) (w : World) : CreateRequest → Prop
  | .addClient _ body _ _ =>
      let email := body.posted.str "email"
      let priced := body.posted.int64 "totalGB"
      if trimSpace email = "" ∨ (w.roster.traffics.find? (trimSpace email)).isSome then priced = 0
      else QuotaAgrees body.posted ∧ (trimSpace email = email ∨
        ∃ rc ∈ w.ledger.clients.find? (trimSpace email),
          rc.userId = userId ∧ rc.chargedBytes = priced)
  | .addClientMulti inboundIds client pool =>
      let client := Client.decode client
      (w.roster.traffics.find? (trimSpace client.email)).isSome ∨
        (∀ id ∈ inboundIds, takes w.roster client pool id = false) ∨
        client.totalGB = 0 ∧ ∃ rc ∈ w.ledger.clients.find? (trimSpace client.email),
          rc.userId = userId ∧ rc.chargedBytes = 0

/-! ## What came into existence -/

variable {userId : Nat} {w w' : World}

omit [Runtime] in
theorem newAccounts_of_rows_eq (h : w'.roster.traffics.rows = w.roster.traffics.rows) :
    newAccounts w w' = [] := by
  rw [newAccounts, h, List.filter_eq_nil_iff]
  intro ct hct
  simp [Table.find?_of_mem hct]

omit [Runtime] in
theorem newAccounts_of_append {row : ClientTraffic}
    (h : w'.roster.traffics.rows = w.roster.traffics.rows ++ [row])
    (hfree : w.roster.traffics.find? row.email = none) : newAccounts w w' = [row] := by
  have hold : w.roster.traffics.rows.filter
      (fun ct => (w.roster.traffics.find? ct.email).isNone) = [] := by
    rw [List.filter_eq_nil_iff]
    intro ct hct
    simp [Table.find?_of_mem hct]
  rw [newAccounts, h, List.filter_append, hold]
  simp [hfree]

omit [Runtime] in
/-- A request that created nothing must not have moved the balance. -/
theorem paidFor_of_rows_eq (h : w'.roster.traffics.rows = w.roster.traffics.rows) :
    PaidFor userId w w' ↔ w'.ledger.spentOf userId = w.ledger.spentOf userId := by
  rw [PaidFor, newAccounts_of_rows_eq h]
  simp only [List.not_mem_nil, false_implies, implies_true, true_and, List.map_nil, List.sum_nil]
  omega

omit [Runtime] in
/-- A request that created one account must have charged it with its quota and
moved the balance by that. -/
theorem paidFor_of_append {row : ClientTraffic}
    (h : w'.roster.traffics.rows = w.roster.traffics.rows ++ [row])
    (hfree : w.roster.traffics.find? row.email = none) :
    PaidFor userId w w' ↔
      (∃ rc ∈ w'.ledger.clients.find? row.email,
        rc.userId = userId ∧ rc.chargedBytes = row.total) ∧
      w'.ledger.spentOf userId - w.ledger.spentOf userId = row.total := by
  rw [PaidFor, newAccounts_of_append h hfree]
  simp only [List.mem_singleton, forall_eq, List.map_cons, List.map_nil, List.sum_cons,
    List.sum_nil, Int.add_zero]
  refine and_congr_right fun hex => ?_
  obtain ⟨rc, hrc, -, hch⟩ := hex
  rw [Option.mem_def] at hrc
  rw [World.chargeFor, hrc, Option.map_some, Option.getD_some, hch]

/-! ## A client of one inbound -/

theorem addClient_paid_iff {inboundId : Nat} {body : Body} {now : Int} {pool : Option String}
    {s : Sold} (h : Panel.addClient w userId inboundId body now pool = (w', .ok s)) :
    PaidFor userId w w' ↔ (CreateRequest.addClient inboundId body now pool).Paid userId w := by
  obtain ⟨hrows, -⟩ := addClient_rows h
  obtain ⟨t, p, q, l, r, ht, hp, hne, -, hq, hl, -, rfl, rfl⟩ := addClient_ok h
  have hposted : body.posted = Text.toMap t := by rw [Body.posted, ht]; rfl
  obtain ⟨hdelta, hcharged, -⟩ := quote_create hq rfl rfl
  obtain ⟨l₁, hl₁, hprof, -⟩ := Ledger.reserve_ok rfl hl
  obtain ⟨rfl, -⟩ := Ledger.addSpent_ok hl₁
  have hspent : l.spentOf userId = w.ledger.spentOf userId + (Text.toMap t).int64 "totalGB" := by
    have hsome : (w.ledger.profiles.find? userId).isSome := by rw [hp]; rfl
    rw [Ledger.spentOf, hprof, ← Ledger.spentOf, Ledger.spentOf_restoreSpent hsome, if_pos rfl]
    simp only [hdelta]
  have hemail : (Client.decode (normalized (applyToSettings p q (Text.toMap t))).members).email =
      trimSpace ((Text.toMap t).str "email") := by
    simp only [Client.decode]
    rw [field_applyToSettings (by decide) (by decide), email_entry hne]
  have hquota : (Client.decode (normalized (applyToSettings p q (Text.toMap t))).members).totalGB =
      (lastSpelling "totalGB" Val.int64? (entry (Text.toMap t))).getD 0 := by
    simp only [Client.decode]
    rw [field_applyToSettings (by decide) (by decide), field_eq_lastSpelling]
  simp only [CreateRequest.Paid, hposted]
  simp only [hemail] at hrows
  by_cases hblank : trimSpace ((Text.toMap t).str "email") = ""
  · rw [if_pos hblank] at hrows
    rw [if_pos (Or.inl hblank), paidFor_of_rows_eq (by rw [hrows]), hspent]
    omega
  rw [if_neg hblank] at hrows
  by_cases htaken : (w.roster.traffics.find? (trimSpace ((Text.toMap t).str "email"))).isSome
  · have hsame := congrArg Table.rows hrows
    rw [rows_addClientStat, hemail, if_pos htaken] at hsame
    rw [if_pos (Or.inr htaken), paidFor_of_rows_eq hsame, hspent]
    omega
  have hfree : w.roster.traffics.find? (trimSpace ((Text.toMap t).str "email")) = none := by
    simpa using htaken
  have happend := congrArg Table.rows hrows
  rw [rows_addClientStat, hemail, if_neg htaken] at happend
  rw [if_neg (by rw [not_or]; exact ⟨hblank, htaken⟩),
    paidFor_of_append happend (by rw [statRow, hemail]; exact hfree)]
  have hfind := (Ledger.find?_reserve_create rfl rfl hl).2
  simp only [statRow, hemail, hspent, hfind, hquota, QuotaAgrees]
  by_cases htrim : trimSpace ((Text.toMap t).str "email") = (Text.toMap t).str "email"
  · rw [if_pos htrim]
    simp only [Option.mem_some_iff, exists_eq_left', Ledger.newClient, hcharged, true_and, htrim,
      true_or, and_true]
    omega
  · rw [if_neg htrim]
    simp only [htrim, false_or]
    constructor
    · rintro ⟨⟨rc, hrc, hu, hch⟩, hsum⟩
      exact ⟨by omega, rc, hrc, hu, by omega⟩
    · rintro ⟨hagree, rc, hrc, hu, hch⟩
      exact ⟨⟨rc, hrc, hu, by omega⟩, by omega⟩

/-! ## A customer across inbounds -/

variable {client : Client} {pool : Nat → Option String}

omit [Runtime] in
theorem multiClient_inRange (h : client.InRange) : (multiClient client).InRange :=
  ⟨h.totalGB, h.expiryTime, h.reset⟩

/-- An inbound that does not take the customer changes nothing. -/
theorem createOn_of_not_takes (hfit : client.InRange) {r : Roster} {id : Nat}
    (h : takes r client pool id = false) :
    (createOn client pool r id).1 = r := by
  have hnorm : normalizeClientEmails [(multiClient client).encode] = [(multiClient client).encode] :=
    normalizeClientEmails_encode (trimSpace_idem client.email)
  have hdecode := decode_encode (multiClient_inRange hfit)
  unfold createOn
  unfold takes at h
  cases hi : r.inbounds.find? id with
  | none => rfl
  | some i =>
      simp only [hi] at h
      simp only
      split
      · rfl
      · rename_i hlisted
        simp only [hlisted, Bool.not_false, Bool.true_and, Bool.and_eq_false_iff,
          decide_eq_false_iff_not] at h
        simp only [addInboundClient, hnorm, List.map_cons, List.map_nil, hdecode, hi]
        split
        · rfl
        · split
          · rfl
          · rename_i hfree
            split
            · rfl
            · rename_i hcheck
              rcases h with h | h
              · exact absurd hfree h
              · exact absurd hcheck h

/-- One that takes it gives it a traffic row, if it has none. -/
theorem createOn_of_takes (hfit : client.InRange) (hne : trimSpace client.email ≠ "") {r : Roster}
    {id : Nat} (h : takes r client pool id = true) :
    (createOn client pool r id).1.traffics =
      addClientStat r.traffics id (multiClient client) := by
  have hnorm : normalizeClientEmails [(multiClient client).encode] = [(multiClient client).encode] :=
    normalizeClientEmails_encode (trimSpace_idem client.email)
  have hdecode := decode_encode (multiClient_inRange hfit)
  have hrange := inRange_encode (multiClient_inRange hfit)
  unfold createOn
  unfold takes at h
  cases hi : r.inbounds.find? id with
  | none => simp [hi] at h
  | some i =>
      obtain ⟨-, rfl⟩ := Table.find?_some hi
      simp only [hi, Bool.and_eq_true, decide_eq_true_eq, Bool.not_eq_true'] at h
      obtain ⟨⟨hlisted, hfree⟩, hcheck⟩ := h
      simp only [hlisted, Bool.false_eq_true, if_false]
      have hname : (multiClient client).email ≠ "" := hne
      simp only [addInboundClient, hnorm, List.map_cons, List.map_nil, hdecode, hi, hfree, hcheck,
        List.all_cons, List.all_nil, hrange, Bool.and_true, Bool.not_true, Bool.false_eq_true,
        if_false, addStats, hname]
      by_cases hpanic : cipherPanics i (multiClient client) = true
      · simp only [hpanic, if_true, Bool.false_eq_true, if_false]
      · simp only [hpanic, Bool.false_eq_true, if_false, if_true]

/-- The rows after a whole request: as they were, or with one more, the customer's. -/
theorem createOnEach_rows (hfit : client.InRange) (hne : trimSpace client.email ≠ "")
    {ids : List Nat} {r r' : Roster} {created : Bool}
    (h : createOnEach client pool r created ids = (r', .ok ())) :
    r'.traffics.rows = r.traffics.rows ∧
        ((r.traffics.find? (trimSpace client.email)).isSome ∨
          ∀ id ∈ ids, takes r client pool id = false) ∨
      r.traffics.find? (trimSpace client.email) = none ∧
        (∃ id ∈ ids, takes r client pool id = true) ∧
        ∃ id, r'.traffics.rows = r.traffics.rows ++ [statRow id (multiClient client)] := by
  induction ids generalizing r created with
  | nil =>
      simp only [createOnEach] at h
      split at h
      · cases h
        exact Or.inl ⟨rfl, Or.inr (by simp)⟩
      · cases h
  | cons id ids ih =>
      obtain ⟨r₁, created', hr₁, hrest⟩ : ∃ r₁ created',
          (createOn client pool r id).1 = r₁ ∧
          createOnEach client pool r₁ created' ids = (r', .ok ()) := by
        simp only [createOnEach] at h
        split at h
        · rename_i r₁ u hr₁
          exact ⟨r₁, true, by rw [hr₁], h⟩
        · rename_i r₁ text hr₁
          exact ⟨r₁, created, by rw [hr₁], h⟩
        · cases h
      cases htakes : takes r client pool id with
      | false =>
          have hsame := createOn_of_not_takes hfit htakes
          rw [hr₁] at hsame
          subst hsame
          rcases ih hrest with ⟨hrows, hwhy⟩ | ⟨hfree, ⟨id', hid', ht⟩, hrow⟩
          · refine Or.inl ⟨hrows, hwhy.imp_right fun hall => ?_⟩
            intro id' hid'
            rcases List.mem_cons.1 hid' with rfl | hid'
            · exact htakes
            · exact hall id' hid'
          · exact Or.inr ⟨hfree, ⟨id', List.mem_cons_of_mem _ hid', ht⟩, hrow⟩
      | true =>
          have hstat := createOn_of_takes hfit hne htakes
          rw [hr₁] at hstat
          have hnow : (r₁.traffics.find? (trimSpace client.email)).isSome := by
            rw [hstat, find?_addClientStat]
            have hname : trimSpace client.email = (multiClient client).email := rfl
            rw [if_pos hname]
            rfl
          -- the customer has a row from here on, so nothing after this adds one
          have hrows : r'.traffics.rows = r₁.traffics.rows := by
            rcases ih hrest with ⟨hrows, -⟩ | ⟨hfree, -⟩
            · exact hrows
            · rw [hfree] at hnow
              cases hnow
          rw [hstat, rows_addClientStat] at hrows
          have hname : (multiClient client).email = trimSpace client.email := rfl
          rw [hname] at hrows
          cases hold : r.traffics.find? (trimSpace client.email) with
          | some ct =>
              rw [hold] at hrows
              exact Or.inl ⟨hrows, Or.inl rfl⟩
          | none =>
              rw [hold] at hrows
              exact Or.inr ⟨rfl, ⟨id, List.mem_cons_self, htakes⟩, id, hrows⟩

theorem addClientMulti_paid_iff {inboundIds : List Nat} {t : Text} {r : Roster}
    (h : createAcrossInbounds w.roster inboundIds (Client.decode t) pool = (r, .ok ())) :
    PaidFor userId w { w with roster := r } ↔
      (CreateRequest.addClientMulti inboundIds t pool).Paid userId w := by
  have hfit := decode_inRange t
  unfold createAcrossInbounds at h
  split at h
  · cases h
  split at h
  · cases h
  rename_i hne
  split at h
  · cases h
  simp only [CreateRequest.Paid]
  rcases createOnEach_rows hfit hne h with ⟨hrows, hwhy⟩ | ⟨hfree, ⟨id, hid, htakes⟩, id', hrow⟩
  · have hsame : ({ w with roster := r } : World).roster.traffics.rows =
        w.roster.traffics.rows := hrows
    rw [paidFor_of_rows_eq hsame]
    refine ⟨fun _ => ?_, fun _ => rfl⟩
    rcases hwhy with hwhy | hwhy
    · exact Or.inl hwhy
    · exact Or.inr (Or.inl hwhy)
  · have happend : ({ w with roster := r } : World).roster.traffics.rows =
        w.roster.traffics.rows ++ [statRow id' (multiClient (Client.decode t))] := hrow
    rw [paidFor_of_append happend hfree]
    have hledger : ({ w with roster := r } : World).ledger = w.ledger := rfl
    have htotal : (statRow id' (multiClient (Client.decode t))).total = (Client.decode t).totalGB :=
      rfl
    have hemail : (statRow id' (multiClient (Client.decode t))).email =
        trimSpace (Client.decode t).email := rfl
    rw [htotal, hemail, hledger, Int.sub_self]
    constructor
    · rintro ⟨⟨rc, hrc, hu, hch⟩, hspent⟩
      have hzero : (Client.decode t).totalGB = 0 := by omega
      exact Or.inr (Or.inr ⟨hzero, rc, hrc, hu, by omega⟩)
    · rintro (hsome | hnone | ⟨hzero, rc, hrc, hu, hch⟩)
      · rw [hfree] at hsome
        cases hsome
      · rw [hnone id hid] at htakes
        cases htakes
      · exact ⟨⟨rc, hrc, hu, by omega⟩, by omega⟩

/-! ## Both routes -/

/-- Exactly when a request that goes through leaves every account it created owned
by the reseller and charged for. -/
theorem create_paid_iff (w w' : World) (userId : Nat) (req : CreateRequest)
    (h : req.handle userId w = (w', true)) : PaidFor userId w w' ↔ req.Paid userId w := by
  cases req with
  | addClient inboundId body now pool =>
      simp only [CreateRequest.handle] at h
      split at h
      · rename_i w₁ s hs
        cases h
        exact addClient_paid_iff hs
      · cases h
  | addClientMulti inboundIds client pool =>
      simp only [CreateRequest.handle] at h
      split at h
      · rename_i r u hr
        cases h
        exact addClientMulti_paid_iff hr
      · cases h

end

/-- A Shadowsocks inbound and a reseller with nothing sold. -/
def shadowsocksShop : World where
  roster := ⟨⟨[{ id := 1, protocol := .shadowsocks, settings := { method := some "aes-256-gcm" } }],
    by decide⟩, Table.empty⟩
  ledger := ⟨.single { userId := 1, allowanceBytes := 100 }, Table.empty⟩

/-- A create across inbounds of an account with this quota. -/
def multiPosting (totalGB : Int) : Text :=
  [("email", .str "a"), ("subId", .str "s"), ("totalGB", .num ⟨totalGB, true⟩),
    ("enable", .bool true)]

instance (userId : Nat) (w w' : World) : Decidable (PaidFor userId w w') :=
  inferInstanceAs (Decidable ((∀ ct ∈ newAccounts w w', ∃ rc ∈ _, _ ∧ _) ∧ _))

/-- A customer of a thousand bytes is created across inbounds by a reseller who has a
hundred: nothing is charged and nobody owns it. -/
theorem multi_create_unpaid :
    (@CreateRequest.handle Runtime.ascii 1 shadowsocksShop
        (.addClientMulti [1] (multiPosting 1000) fun _ => none)).2 = true ∧
      ¬ PaidFor 1 shadowsocksShop (@CreateRequest.handle Runtime.ascii 1 shadowsocksShop
        (.addClientMulti [1] (multiPosting 1000) fun _ => none)).1 := by
  decide +kernel

/-- A priced create on the inbound of the shop. -/
theorem plain_create_paid :
    PaidFor 1 shop (@CreateRequest.handle Runtime.ascii 1 shop
      (.addClient 1 (posting "b" 20 []) 0 none)).1 :=
  (@create_paid_iff Runtime.ascii _ _ 1 (.addClient 1 (posting "b" 20 []) 0 none)
    (Prod.ext rfl (by decide +kernel))).2 (by
      simp only [CreateRequest.Paid]
      decide +kernel)

end Simorgh.Panel
