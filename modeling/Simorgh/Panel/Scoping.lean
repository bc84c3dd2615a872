import Mathlib.Data.List.Sort
import Mathlib.Data.Prod.Lex
import Simorgh.Lib.JsonTree
import Simorgh.Panel.Admins
import Simorgh.Panel.BulkPrice

/-!
# The inbounds a reseller is shown

A reseller is granted inbounds and shown only its own accounts on them: client
rows, entries of the settings and the inbound's totals are cut down to what it sold.

* `getInboundsFor` — the inbounds of a user.
* `filterInboundForReseller` — one of them, cut down.
* `Agree` — two databases with the same grants, accounts of the reseller and
  configuration; the other accounts may differ in everything.
* `SameForm` — on each inbound the clients are a list in both, or stand there alike.
* `reseller_list_same` — such databases show the reseller the same.
* `missing_list_shown` — whether there is a list at all is shown as it stands.
-/

namespace Simorgh.Panel

open Simorgh.Lib Simorgh.Lib.Json

/-! ## Data -/

/-- A settings text: a document, or no JSON. -/
inductive Blob where
  | json (t : Tree)
  | junk (text : String)

/-- The columns of an inbound that are the operator's. -/
structure InboundColumns where
  total : Int := 0
  remark : String := ""
  enable : Bool := true
  expiryTime : Int := 0
  trafficReset : String := "never"
  lastTrafficResetTime : Int := 0
  sortOrder : Int := 0
  trafficMultiplierEnable : Bool := false
  trafficMultiplierAfter : Int := 0
  trafficMultiplier : ℚ := 1
  speedLimitEnable : Bool := false
  speedLimitSeparate : Bool := false
  speedLimitDown : Int := 0
  speedLimitUp : Int := 0
  speedLimitAfter : Int := 0
  ipLimit : Int := 0
  ipLimitStrategy : String := "reject"
  listen : String := ""
  port : Nat := 0
  protocol : Protocol := .vless
  streamSettings : String := ""
  tag : String := ""
  sniffing : String := ""
  deriving DecidableEq

/-- A row of `client_traffics`, with what the list adds to it. -/
structure ClientStat extends ClientTraffic where
  id : Nat
  lastOnline : Int := 0
  uuid : String := ""
  subId : String := ""
  deriving DecidableEq

/-- An inbound row. -/
structure StoredInbound where
  id : Nat
  up : Int := 0
  down : Int := 0
  allTime : Int := 0
  columns : InboundColumns := {}
  settings : Blob

/-- An inbound as the list has it. -/
structure ListedInbound extends StoredInbound where
  clientStats : List ClientStat := []

/-- What the list is made from. -/
structure ListDb where
  access : Table InboundAccess.pair
  inbounds : Table StoredInbound.id
  stats : Table ClientStat.id
  sold : Table ResellerClient.email

/-- The queries a listing can fail at. -/
inductive ListPlace where
  | grants | inbounds | stats | owned
  deriving DecidableEq

/-! ## Loading -/

section

variable [Runtime]

omit [Runtime] in
/-- The position in the list: rows nobody has moved come last. -/
def displayKey (id : Nat) (c : InboundColumns) : ℕ ×ₗ ℤ ×ₗ ℕ :=
  toLex (if 0 < c.sortOrder then 0 else 1, toLex (c.sortOrder, id))

omit [Runtime] in
/-- The order of a listing. -/
def StoredInbound.key (i : StoredInbound) : ℕ ×ₗ ℤ ×ₗ ℕ := displayKey i.id i.columns

omit [Runtime] in
/-- The entries of a client list. -/
def entriesOf : Blob → List Tree
  | .json (.obj members) =>
      match Tree.lookup "clients" members with
      | some (.arr items) => items
      | _ => []
  | _ => []

/-- The last entry under the email of a row, in any case. -/
def entryOf (items : List Tree) (email : String) : Option Tree :=
  items.reverse.find? fun item => decide (toLower (item.text "email") = toLower email)

/-- A row with the id and the subscription of its entry. -/
def enrich (items : List Tree) (stat : ClientStat) : ClientStat :=
  match entryOf items stat.email with
  | some item => { stat with uuid := item.text "id", subId := item.text "subId" }
  | none => stat

/-- An inbound with its rows. -/
def loadInbound (db : ListDb) (i : StoredInbound) : ListedInbound :=
  { i with
    clientStats := (db.stats.rows.filter fun stat => decide (stat.inboundId = i.id)).map
      (enrich (entriesOf i.settings)) }

/-- `getInboundsWhere`; without ids, all of them. -/
def getInboundsWhere (fails : ListPlace → Bool) (ids : Option (List Nat)) (db : ListDb) :
    Except Unit (List ListedInbound) :=
  if fails .inbounds || fails .stats then .error ()
  else .ok (((db.inbounds.rows.filter fun i => ids.all fun ids => decide (i.id ∈ ids)).insertionSort
    fun a b => a.key ≤ b.key).map (loadInbound db))

omit [Runtime] in
/-- `AccessibleInboundIds`. -/
def accessibleInboundIds (db : ListDb) (userId : Nat) : List Nat :=
  (db.access.rows.filter fun a => decide (a.userId = userId)).map (·.inboundId)

/-! ## Cutting down -/

/-- The rows of the reseller's accounts. -/
def filterClientTrafficsForReseller (owned : OwnedEmails) (stats : List ClientStat) : List ClientStat :=
  stats.filter fun stat => resellerOwnsEmail owned stat.email

omit [Runtime] in
/-- The lifetime bytes of a row, also where the column is older than the row. -/
def ClientStat.lifetime (stat : ClientStat) : Int :=
  if 0 < stat.allTime then stat.allTime else int64 (stat.up + stat.down)

omit [Runtime] in
/-- A machine sum. -/
def sum64 (xs : List Int) : Int := xs.foldl (fun acc x => int64 (acc + x)) 0

omit [Runtime] in
/-- The inbound's own totals from these rows. -/
def rescopeInboundTraffic (i : ListedInbound) : ListedInbound :=
  { i with
    up := sum64 (i.clientStats.map (·.up))
    down := sum64 (i.clientStats.map (·.down))
    allTime := sum64 (i.clientStats.map ClientStat.lifetime) }

/-- The entry belongs to the reseller; one whose email does not decode belongs to nobody. -/
def ownsEntry (owned : OwnedEmails) (item : Tree) : Bool :=
  item.decodes "email" && resellerOwnsEmail owned (item.text "email")

/-- `filterSettingsClients` on the client list of a document. -/
def filterList (owned : OwnedEmails) (settings : Blob) (members : List (String × Tree)) (items : List Tree) : Blob :=
  let kept := items.filter (ownsEntry owned)
  if kept.length = items.length then settings
  else .json (.obj (setSorted "clients" (.arr kept) (Tree.toMap members)))

/-- The entries of the reseller's accounts. -/
def filterSettingsClients (owned : OwnedEmails) (settings : Blob) : Except Unit Blob :=
  match settings with
  | .junk _ => .error ()
  | .json .null => .ok settings
  | .json (.obj members) =>
      match Tree.lookup "clients" members with
      | none => .ok settings
      | some .null => .ok (filterList owned settings members [])
      | some (.arr items) => .ok (filterList owned settings members items)
      | some _ => .error ()
  | .json _ => .error ()

omit [Runtime] in
/-- Settings without clients. -/
def emptyClientSettings : Blob := .json (.obj [("clients", .arr [])])

/-- `FilterInboundForReseller`. -/
def filterInboundForReseller (owned : OwnedEmails) (i : ListedInbound) : ListedInbound :=
  let i := rescopeInboundTraffic { i with clientStats := filterClientTrafficsForReseller owned i.clientStats }
  match filterSettingsClients owned i.settings with
  | .ok filtered => { i with settings := filtered }
  | .error _ => { i with settings := emptyClientSettings }

/-- `GetInboundsFor`. -/
def getInboundsFor (fails : ListPlace → Bool) (user : Option User) (db : ListDb) : Except Unit (List ListedInbound) :=
  match user with
  | none => .ok []
  | some user =>
      if user.isSuperAdmin then getInboundsWhere fails none db
      else if fails .grants then .error ()
      else
        let ids := accessibleInboundIds db user.id
        if ids = [] then .ok []
        else do
          let inbounds ← getInboundsWhere fails (some ids) db
          if !user.isReseller then .ok inbounds
          else if fails .owned then .error ()
          else .ok (inbounds.map (filterInboundForReseller (ownedEmails db.sold user.id)))

/-! ## What a reseller may see -/

/-- The entries under an email of the reseller's. -/
def ownEntries (owned : OwnedEmails) (settings : Blob) : List Tree :=
  (entriesOf settings).filter fun item => resellerOwnsEmail owned (item.text "email")

/-- The rows of the reseller's accounts on an inbound. -/
def ownStats (owned : OwnedEmails) (db : ListDb) (id : Nat) : List ClientStat :=
  (db.stats.rows.filter fun stat => decide (stat.inboundId = id)).filter fun stat => resellerOwnsEmail owned stat.email

/-- The same configuration and the same entries of the reseller.  Settings that are no
object have no accounts in them. -/
def BlobAgree (owned : OwnedEmails) : Blob → Blob → Prop
  | .json (.obj ms), .json (.obj ms') =>
      (∀ key, key ≠ "clients" → Tree.lookup key ms = Tree.lookup key ms') ∧
        ownEntries owned (.json (.obj ms)) = ownEntries owned (.json (.obj ms'))
  | b, b' => b = b'

/-- The two databases agree on everything that concerns this reseller. -/
structure Agree (user : User) (db db' : ListDb) : Prop where
  grants : ∀ id, id ∈ accessibleInboundIds db user.id ↔ id ∈ accessibleInboundIds db' user.id
  owned : ∀ email, email ∈ ownedEmails db.sold user.id ↔ email ∈ ownedEmails db'.sold user.id
  inbounds : ∀ id ∈ accessibleInboundIds db user.id, Option.Rel
    (fun i i' => i.columns = i'.columns ∧ BlobAgree (ownedEmails db.sold user.id) i.settings i'.settings)
    (db.inbounds.find? id) (db'.inbounds.find? id)
  stats : ∀ id ∈ accessibleInboundIds db user.id,
    ownStats (ownedEmails db.sold user.id) db id = ownStats (ownedEmails db.sold user.id) db' id

omit [Runtime] in
/-- The clients are a list in both, or stand there alike. -/
def FormAgree : Blob → Blob → Prop
  | .json (.obj ms), .json (.obj ms') =>
      (∃ items items', Tree.lookup "clients" ms = some (.arr items) ∧ Tree.lookup "clients" ms' = some (.arr items')) ∨
        Tree.lookup "clients" ms = Tree.lookup "clients" ms'
  | _, _ => True

omit [Runtime] in
/-- The settings of the inbounds a user may open have one form. -/
def SameForm (user : User) (db db' : ListDb) : Prop :=
  ∀ id ∈ accessibleInboundIds db user.id, ∀ i ∈ db.inbounds.find? id, ∀ i' ∈ db'.inbounds.find? id,
    FormAgree i.settings i'.settings

omit [Runtime] in
/-- The same text, or trees that are alike. -/
def Blob.Alike : Blob → Blob → Prop
  | .json t, .json t' => t.Alike t'
  | b, b' => b = b'

omit [Runtime] in
/-- The same inbound, up to how its settings are written. -/
structure SameInbound (i i' : ListedInbound) : Prop where
  id : i.id = i'.id
  columns : i.columns = i'.columns
  traffic : i.up = i'.up ∧ i.down = i'.down ∧ i.allTime = i'.allTime
  clientStats : i.clientStats = i'.clientStats
  settings : i.settings.Alike i'.settings

omit [Runtime] in
/-- The same answer. -/
def SameAnswer : Except Unit (List ListedInbound) → Except Unit (List ListedInbound) → Prop
  | .ok is, .ok is' => List.Forall₂ SameInbound is is'
  | .error _, .error _ => True
  | _, _ => False

/-! ### Settings -/

section Settings

variable {owned : OwnedEmails} {ms ms' : List (String × Tree)} {items items' : List Tree}

omit [Runtime] in
theorem Blob.Alike.refl (b : Blob) : b.Alike b := by
  cases b with
  | json t => exact Tree.Alike.refl t
  | junk text => exact rfl

/-- The cut-down document has the reseller's entries, and the other members as they were. -/
theorem filterList_lookup (hlist : Tree.lookup "clients" ms = some (.arr items)) :
    ∃ out, filterList owned (.json (.obj ms)) ms items = .json (.obj out) ∧
      ∀ key, Tree.lookup key out =
        if "clients" = key then some (.arr (items.filter (ownsEntry owned))) else Tree.lookup key ms := by
  unfold filterList
  dsimp only
  split
  next hall =>
    refine ⟨ms, rfl, fun key => ?_⟩
    have hkept : items.filter (ownsEntry owned) = items :=
      List.filter_sublist.eq_of_length hall
    by_cases hkey : "clients" = key
    · rw [if_pos hkey, ← hkey, hlist, hkept]
    · rw [if_neg hkey]
  next => exact ⟨_, rfl, fun key => Tree.lookup_setSorted_toMap ms "clients" _ key⟩

/-- The settings a reseller is handed. -/
def scopedSettings (owned : OwnedEmails) (settings : Blob) : Blob :=
  match filterSettingsClients owned settings with
  | .ok filtered => filtered
  | .error _ => emptyClientSettings

theorem kept_eq (owned : OwnedEmails) (items : List Tree) :
    items.filter (ownsEntry owned) =
      (items.filter fun item => resellerOwnsEmail owned (item.text "email")).filter fun item =>
        item.decodes "email" := by
  rw [List.filter_filter]
  rfl

theorem scopedSettings_list (hlist : Tree.lookup "clients" ms = some (.arr items)) :
    scopedSettings owned (.json (.obj ms)) = filterList owned (.json (.obj ms)) ms items := by
  simp only [scopedSettings, filterSettingsClients, hlist]

/-- Where there is no list, nothing is cut, or everything. -/
theorem scopedSettings_alike_of_eq (hrest : ∀ key, key ≠ "clients" → Tree.lookup key ms = Tree.lookup key ms')
    (hsame : Tree.lookup "clients" ms = Tree.lookup "clients" ms')
    (hnone : ∀ items, Tree.lookup "clients" ms ≠ some (.arr items)) :
    (scopedSettings owned (.json (.obj ms))).Alike (scopedSettings owned (.json (.obj ms'))) := by
  have hall : ∀ key, Tree.lookup key ms = Tree.lookup key ms' := by
    intro key
    by_cases hkey : key = "clients"
    · rw [hkey, hsame]
    · exact hrest key hkey
  have hverbatim : Blob.Alike (.json (.obj ms)) (.json (.obj ms')) := Or.inr ⟨ms, ms', rfl, rfl, hall⟩
  simp only [scopedSettings, filterSettingsClients, ← hsame]
  cases hlookup : Tree.lookup "clients" ms with
  | none => exact hverbatim
  | some t =>
      cases t with
      | null => exact hverbatim
      | arr items => exact absurd hlookup (hnone items)
      | bool | num | str | obj => exact Blob.Alike.refl _

theorem BlobAgree.cases {b b' : Blob} (h : BlobAgree owned b b') :
    (∃ ms ms', b = .json (.obj ms) ∧ b' = .json (.obj ms')) ∨ b = b' := by
  cases b with
  | junk text => exact Or.inr (by cases b' <;> exact h)
  | json t =>
      cases b' with
      | junk text => exact Or.inr (by cases t <;> exact h)
      | json t' =>
          cases t with
          | obj ms =>
              cases t' with
              | obj ms' => exact Or.inl ⟨ms, ms', rfl, rfl⟩
              | null | bool | num | str | arr => exact Or.inr h
          | null | bool | num | str | arr => exact Or.inr (by cases t' <;> exact h)

theorem BlobAgree.ownEntries {b b' : Blob} (h : BlobAgree owned b b') :
    Panel.ownEntries owned b = Panel.ownEntries owned b' := by
  rcases h.cases with ⟨ms, ms', rfl, rfl⟩ | rfl
  · exact h.2
  · rfl

theorem scopedSettings_alike {b b' : Blob} (h : BlobAgree owned b b') (hform : FormAgree b b') :
    (scopedSettings owned b).Alike (scopedSettings owned b') := by
  rcases h.cases with ⟨ms, ms', rfl, rfl⟩ | rfl
  · obtain ⟨hrest, hentries⟩ := h
    by_cases hlist : ∃ items items', Tree.lookup "clients" ms = some (.arr items) ∧
        Tree.lookup "clients" ms' = some (.arr items')
    · obtain ⟨items, items', hitems, hitems'⟩ := hlist
      obtain ⟨out, hout, hlookup⟩ := @filterList_lookup _ owned ms items hitems
      obtain ⟨out', hout', hlookup'⟩ := @filterList_lookup _ owned ms' items' hitems'
      rw [scopedSettings_list hitems, scopedSettings_list hitems', hout, hout']
      refine Or.inr ⟨out, out', rfl, rfl, fun key => ?_⟩
      simp only [ownEntries, entriesOf, hitems, hitems'] at hentries
      rw [hlookup, hlookup', kept_eq, kept_eq, hentries]
      by_cases hkey : "clients" = key
      · rw [if_pos hkey, if_pos hkey]
      · rw [if_neg hkey, if_neg hkey]
        exact hrest key (Ne.symm hkey)
    · have hsame : Tree.lookup "clients" ms = Tree.lookup "clients" ms' := hform.resolve_left hlist
      refine scopedSettings_alike_of_eq hrest hsame fun items hitems => hlist ⟨items, items, hitems, ?_⟩
      rw [← hsame, hitems]
  · exact Blob.Alike.refl _

end Settings

/-! ### Rows -/

section Rows

variable {owned : OwnedEmails}

theorem dropWhile_map_toLower (hspace : ∀ c, isSpace (Runtime.toLower c) = isSpace c) (l : List Char) :
    (l.map Runtime.toLower).dropWhile isSpace = (l.dropWhile isSpace).map Runtime.toLower := by
  rw [List.dropWhile_map]
  have hcomp : isSpace ∘ Runtime.toLower = isSpace := funext hspace
  rw [hcomp]

/-- White space has no case, so it does not matter whether it is trimmed first. -/
theorem emailKey_eq (hspace : ∀ c, isSpace (Runtime.toLower c) = isSpace c) (email : String) :
    emailKey email = trimSpace (toLower email) := by
  simp only [emailKey, toLower, trimSpace, String.toList_ofList]
  rw [dropWhile_map_toLower hspace, ← List.map_reverse, dropWhile_map_toLower hspace, ← List.map_reverse]

/-- The entry a row of the reseller's is joined with is the reseller's. -/
theorem entryOf_own (hspace : ∀ c, isSpace (Runtime.toLower c) = isSpace c) {items : List Tree} {email : String}
    (hown : resellerOwnsEmail owned email = true) :
    entryOf (items.filter fun item => resellerOwnsEmail owned (item.text "email")) email = entryOf items email := by
  rw [entryOf, entryOf, ← List.filter_reverse, List.find?_filter]
  congr 1
  funext item
  by_cases hsame : toLower (item.text "email") = toLower email
  · have hitem : resellerOwnsEmail owned (item.text "email") = true := by
      simp only [resellerOwnsEmail, decide_eq_true_eq, emailKey_eq hspace] at hown ⊢
      rw [hsame]
      exact hown
    simp [hsame, hitem]
  · simp [hsame]

theorem enrich_own (hspace : ∀ c, isSpace (Runtime.toLower c) = isSpace c) {settings : Blob} {stat : ClientStat}
    (hown : resellerOwnsEmail owned stat.email = true) :
    enrich (ownEntries owned settings) stat = enrich (entriesOf settings) stat := by
  rw [enrich, enrich, ownEntries, entryOf_own hspace hown]

theorem enrich_email (items : List Tree) (stat : ClientStat) : (enrich items stat).email = stat.email := by
  unfold enrich
  split <;> rfl

/-- The rows a reseller is handed: its own, joined with its own entries. -/
theorem clientStats_scoped (hspace : ∀ c, isSpace (Runtime.toLower c) = isSpace c) (db : ListDb) (i : StoredInbound) :
    filterClientTrafficsForReseller owned (loadInbound db i).clientStats =
      (ownStats owned db i.id).map (enrich (ownEntries owned i.settings)) := by
  simp only [filterClientTrafficsForReseller, loadInbound, ownStats]
  rw [List.filter_map]
  have hfilter : (fun stat : ClientStat => resellerOwnsEmail owned stat.email) ∘ enrich (entriesOf i.settings) =
      fun stat => resellerOwnsEmail owned stat.email := by
    funext stat
    simp [enrich_email]
  rw [hfilter]
  refine List.map_congr_left fun stat hstat => ?_
  exact (enrich_own hspace (List.mem_filter.1 hstat).2).symm

end Rows

/-! ### The order of the list -/

section Order

omit [Runtime]

theorem pairwise_sorted (rows : List StoredInbound) :
    ((rows.insertionSort fun a b => a.key ≤ b.key).map StoredInbound.key).Pairwise (· ≤ ·) := by
  have htotal : Std.Total (fun a b : StoredInbound => a.key ≤ b.key) := ⟨fun a b => le_total a.key b.key⟩
  have htrans : IsTrans StoredInbound (fun a b => a.key ≤ b.key) := ⟨fun _ _ _ h h' => le_trans h h'⟩
  rw [List.pairwise_map]
  exact List.pairwise_insertionSort (fun a b : StoredInbound => a.key ≤ b.key) rows

theorem displayKey_id {id id' : Nat} {c c' : InboundColumns} (h : displayKey id c = displayKey id' c') : id = id' := by
  have hsecond := congrArg (fun k : ℕ ×ₗ ℤ ×ₗ ℕ => (ofLex (ofLex k).2).2) h
  exact hsecond

theorem forall₂_of_map_eq {α β κ : Type} {R : α → β → Prop} {f : α → κ} {g : β → κ} {l : List α} {l' : List β}
    (hmap : l.map f = l'.map g) (h : ∀ a ∈ l, ∀ b ∈ l', f a = g b → R a b) : List.Forall₂ R l l' := by
  induction l generalizing l' with
  | nil =>
      cases l' with
      | nil => exact List.Forall₂.nil
      | cons b l' => cases hmap
  | cons a l ih =>
      cases l' with
      | nil => cases hmap
      | cons b l' =>
          rw [List.map_cons, List.map_cons, List.cons.injEq] at hmap
          refine List.Forall₂.cons (h a List.mem_cons_self b List.mem_cons_self hmap.1) (ih hmap.2 ?_)
          intro a' ha' b' hb'
          exact h a' (List.mem_cons_of_mem _ ha') b' (List.mem_cons_of_mem _ hb')

/-- Rows that have the same keys come in the same order. -/
theorem map_key_sorted_eq {rows rows' : List StoredInbound} (hnodup : (rows.map StoredInbound.key).Nodup)
    (hnodup' : (rows'.map StoredInbound.key).Nodup)
    (hmem : ∀ k, k ∈ rows.map StoredInbound.key ↔ k ∈ rows'.map StoredInbound.key) :
    (rows.insertionSort fun a b => a.key ≤ b.key).map StoredInbound.key =
      (rows'.insertionSort fun a b => a.key ≤ b.key).map StoredInbound.key := by
  have hperm := (List.perm_insertionSort (fun a b : StoredInbound => a.key ≤ b.key) rows).map StoredInbound.key
  have hperm' := (List.perm_insertionSort (fun a b : StoredInbound => a.key ≤ b.key) rows').map StoredInbound.key
  have hsame := (List.perm_ext_iff_of_nodup hnodup hnodup').2 hmem
  refine List.Perm.eq_of_pairwise (fun a b _ _ h h' => le_antisymm h h') (pairwise_sorted rows)
    (pairwise_sorted rows') ?_
  exact hperm.trans (hsame.trans hperm'.symm)

theorem nodup_key (t : Table StoredInbound.id) (p : StoredInbound → Bool) :
    ((t.rows.filter p).map StoredInbound.key).Nodup := by
  have hids : ((t.rows.filter p).map StoredInbound.id).Nodup := t.unique.sublist (List.filter_sublist.map _)
  refine List.Nodup.of_map (fun k : ℕ ×ₗ ℤ ×ₗ ℕ => (ofLex (ofLex k).2).2) ?_
  rw [List.map_map]
  exact hids

end Order

/-! ## Two databases -/

variable {user : User} {db db' : ListDb}

omit [Runtime] in
/-- The inbounds that were granted and are there. -/
def granted (user : User) (db : ListDb) : List StoredInbound :=
  db.inbounds.rows.filter fun i => decide (i.id ∈ accessibleInboundIds db user.id)

omit [Runtime] in
theorem mem_granted {i : StoredInbound} :
    i ∈ granted user db ↔ i ∈ db.inbounds.rows ∧ i.id ∈ accessibleInboundIds db user.id := by
  simp [granted, List.mem_filter]

/-- A cut-down inbound, part by part. -/
theorem filterInboundForReseller_eq (owned : OwnedEmails) (i : ListedInbound) :
    filterInboundForReseller owned i =
      { rescopeInboundTraffic { i with clientStats := filterClientTrafficsForReseller owned i.clientStats } with
        settings := scopedSettings owned i.settings } := by
  simp only [filterInboundForReseller, scopedSettings, rescopeInboundTraffic]
  cases filterSettingsClients owned i.settings <;> rfl

/-- Only which accounts are the reseller's matters. -/
theorem filterInboundForReseller_congr {owned owned' : OwnedEmails} (h : ∀ email, email ∈ owned ↔ email ∈ owned') :
    filterInboundForReseller owned' = filterInboundForReseller owned := by
  have howns : resellerOwnsEmail owned' = resellerOwnsEmail owned := by
    funext email
    simp only [resellerOwnsEmail, ← h]
  have hentry : ownsEntry owned' = ownsEntry owned := by
    funext item
    rw [ownsEntry, ownsEntry, howns]
  funext i
  rw [filterInboundForReseller_eq, filterInboundForReseller_eq]
  simp only [filterClientTrafficsForReseller, scopedSettings, filterSettingsClients, filterList, howns, hentry]

/-- Inbounds of one id are shown alike. -/
theorem Agree.scoped (hspace : ∀ c, isSpace (Runtime.toLower c) = isSpace c) (h : Agree user db db')
    (hform : SameForm user db db') {i i' : StoredInbound} (hi : i ∈ granted user db) (hi' : i' ∈ granted user db')
    (hid : i.id = i'.id) :
    SameInbound (filterInboundForReseller (ownedEmails db.sold user.id) (loadInbound db i))
      (filterInboundForReseller (ownedEmails db'.sold user.id) (loadInbound db' i')) := by
  obtain ⟨hmem, hgrant⟩ := mem_granted.1 hi
  obtain ⟨hmem', -⟩ := mem_granted.1 hi'
  have hfind : db.inbounds.find? i.id = some i := Table.find?_of_mem hmem
  have hfind' : db'.inbounds.find? i.id = some i' := by
    rw [hid]
    exact Table.find?_of_mem hmem'
  have hrel := h.inbounds i.id hgrant
  rw [hfind, hfind'] at hrel
  obtain ⟨hcolumns, hblob⟩ : i.columns = i'.columns ∧
      BlobAgree (ownedEmails db.sold user.id) i.settings i'.settings := by
    cases hrel with
    | some hrel => exact hrel
  rw [filterInboundForReseller_congr h.owned, filterInboundForReseller_eq, filterInboundForReseller_eq]
  have hentries : ownEntries (ownedEmails db.sold user.id) i.settings =
      ownEntries (ownedEmails db.sold user.id) i'.settings := hblob.ownEntries
  have hstats : filterClientTrafficsForReseller (ownedEmails db.sold user.id) (loadInbound db i).clientStats =
      filterClientTrafficsForReseller (ownedEmails db.sold user.id) (loadInbound db' i').clientStats := by
    rw [clientStats_scoped hspace, clientStats_scoped hspace, hentries, ← hid, h.stats i.id hgrant]
  refine ⟨hid, hcolumns, ?_, hstats, ?_⟩
  · simp only [rescopeInboundTraffic, hstats, and_self]
  · exact scopedSettings_alike hblob (hform i.id hgrant i hfind i' hfind')

/-- The granted inbounds come in the same order. -/
theorem Agree.sameOrder (h : Agree user db db') :
    ((granted user db).insertionSort fun a b => a.key ≤ b.key).map StoredInbound.key =
      ((granted user db').insertionSort fun a b => a.key ≤ b.key).map StoredInbound.key := by
  refine map_key_sorted_eq (nodup_key _ _) (nodup_key _ _) fun k => ?_
  constructor
  · intro hk
    obtain ⟨i, hi, rfl⟩ := List.mem_map.1 hk
    obtain ⟨hmem, hgrant⟩ := mem_granted.1 hi
    have hrel := h.inbounds i.id hgrant
    rw [Table.find?_of_mem hmem] at hrel
    cases hfind' : db'.inbounds.find? i.id with
    | none =>
        rw [hfind'] at hrel
        cases hrel
    | some i' =>
        rw [hfind'] at hrel
        obtain ⟨hmem', hid⟩ := Table.find?_some hfind'
        refine List.mem_map.2 ⟨i', mem_granted.2 ⟨hmem', hid ▸ (h.grants i.id).1 hgrant⟩, ?_⟩
        cases hrel with
        | some hrel => rw [StoredInbound.key, StoredInbound.key, hid, hrel.1]
  · intro hk
    obtain ⟨i', hi', rfl⟩ := List.mem_map.1 hk
    obtain ⟨hmem', hgrant'⟩ := mem_granted.1 hi'
    have hgrant := (h.grants i'.id).2 hgrant'
    have hrel := h.inbounds i'.id hgrant
    rw [Table.find?_of_mem hmem'] at hrel
    cases hfind : db.inbounds.find? i'.id with
    | none =>
        rw [hfind] at hrel
        cases hrel
    | some i =>
        rw [hfind] at hrel
        obtain ⟨hmem, hid⟩ := Table.find?_some hfind
        refine List.mem_map.2 ⟨i, mem_granted.2 ⟨hmem, hid ▸ hgrant⟩, ?_⟩
        cases hrel with
        | some hrel => rw [StoredInbound.key, StoredInbound.key, hid, hrel.1]

/-- What a reseller is shown. -/
theorem getInboundsFor_reseller (hsuper : user.isSuperAdmin = false) (hreseller : user.isReseller = true)
    (fails : ListPlace → Bool) (db : ListDb) :
    getInboundsFor fails (some user) db =
      if fails .grants then .error ()
      else if accessibleInboundIds db user.id = [] then .ok []
      else if fails .inbounds || fails .stats || fails .owned then .error ()
      else .ok (((granted user db).insertionSort fun a b => a.key ≤ b.key).map fun i =>
        filterInboundForReseller (ownedEmails db.sold user.id) (loadInbound db i)) := by
  simp only [getInboundsFor, hsuper, hreseller, getInboundsWhere, Bool.false_eq_true, if_false, Bool.not_true]
  cases fails .grants with
  | true => rfl
  | false =>
      simp only [Bool.false_eq_true, if_false]
      split
      · rfl
      · cases fails .inbounds <;> cases fails .stats <;> cases fails .owned <;>
          simp [bind, Except.bind, granted, Function.comp_def]

/-- Two databases that agree on a reseller's grants, accounts and configuration show it the
same inbounds, whatever the other accounts are, as long as the clients of each inbound are a
list in both or stand there alike. -/
theorem reseller_list_same (hspace : ∀ c, isSpace (Runtime.toLower c) = isSpace c) (user : User)
    (hsuper : user.isSuperAdmin = false) (hreseller : user.isReseller = true) (fails : ListPlace → Bool)
    (db db' : ListDb) (h : Agree user db db') (hform : SameForm user db db') :
    SameAnswer (getInboundsFor fails (some user) db) (getInboundsFor fails (some user) db') := by
  have hnone : accessibleInboundIds db user.id = [] ↔ accessibleInboundIds db' user.id = [] := by
    simp only [List.eq_nil_iff_forall_not_mem, h.grants]
  rw [getInboundsFor_reseller hsuper hreseller, getInboundsFor_reseller hsuper hreseller]
  cases fails .grants with
  | true => trivial
  | false =>
      simp only [Bool.false_eq_true, if_false, ← hnone]
      split
      · exact List.Forall₂.nil
      · split
        · trivial
        · refine List.forall₂_map_left_iff.2 (List.forall₂_map_right_iff.2 ?_)
          refine forall₂_of_map_eq h.sameOrder fun i hi i' hi' hkey => ?_
          rw [List.mem_insertionSort] at hi hi'
          exact h.scoped hspace hform hi hi' (displayKey_id hkey)

end

/-! ## One inbound, and other people's accounts on it -/

/-- A reseller with one inbound, on which it has sold ann. -/
def seller : User := { id := 2, username := "reseller", isReseller := true }

def shopWith (settings : Blob) (stats : Table ClientStat.id) (up : Int) : ListDb where
  access := .single ⟨2, 1⟩
  inbounds := .single { id := 1, up := up, settings := settings }
  stats := stats
  sold := .single { email := "ann", inboundId := 1, userId := 2 }

def entryFor (email uuid : String) : Tree := .obj [("email", .str email), ("id", .str uuid)]

/-- Settings with these clients. -/
def settingsOf (clients : Tree) : Blob := .json (.obj [("clients", clients), ("decryption", .str "none")])

theorem lookup_settingsOf {key : String} (hkey : key ≠ "clients") (clients clients' : Tree) :
    Tree.lookup key [("clients", clients), ("decryption", .str "none")] =
      Tree.lookup key [("clients", clients'), ("decryption", .str "none")] := by
  simp only [Tree.lookup_cons, if_neg (Ne.symm hkey)]

/-- Shops that agree but for their clients. -/
theorem agree_shopWith {clients clients' : Tree} {stats stats' : Table ClientStat.id} {up up' : Int}
    (hentries : @ownEntries Runtime.ascii ["ann"] (settingsOf clients) =
      @ownEntries Runtime.ascii ["ann"] (settingsOf clients'))
    (hstats : (stats.rows.filter fun stat => decide (stat.inboundId = 1)).filter
        (fun stat => @resellerOwnsEmail Runtime.ascii ["ann"] stat.email) =
      (stats'.rows.filter fun stat => decide (stat.inboundId = 1)).filter
        fun stat => @resellerOwnsEmail Runtime.ascii ["ann"] stat.email) :
    @Agree Runtime.ascii seller (shopWith (settingsOf clients) stats up)
      (shopWith (settingsOf clients') stats' up') := by
  have hone : ∀ id, id ∈ accessibleInboundIds (shopWith (settingsOf clients) stats up) seller.id → id = 1 := by
    intro id hid
    exact List.mem_singleton.1 hid
  refine @Agree.mk Runtime.ascii _ _ _ (fun _ => Iff.rfl) (fun _ => Iff.rfl) (fun id hid => ?_) fun id hid => ?_
  · obtain rfl := hone id hid
    exact Option.Rel.some ⟨rfl, fun key hkey => lookup_settingsOf hkey clients clients', hentries⟩
  · obtain rfl := hone id hid
    exact hstats

def annsStat : ClientStat :=
  { id := 4, email := "ann", inboundId := 1, up := 7, down := 2 }

/-- Whether the clients are a list or `null` is shown. -/
theorem missing_list_shown :
    @Agree Runtime.ascii seller (shopWith (settingsOf .null) Table.empty 0)
        (shopWith (settingsOf (.arr [entryFor "bob" "b1"])) Table.empty 0) ∧
      ¬ SameAnswer
        (@getInboundsFor Runtime.ascii (fun _ => false) (some seller) (shopWith (settingsOf .null) Table.empty 0))
        (@getInboundsFor Runtime.ascii (fun _ => false) (some seller)
          (shopWith (settingsOf (.arr [entryFor "bob" "b1"])) Table.empty 0)) := by
  refine ⟨agree_shopWith rfl rfl, fun h => ?_⟩
  cases h with
  | cons hhead _ =>
      have hsettings := hhead.settings
      rcases hsettings with hsame | ⟨ms, ms', hms, hms', hlookup⟩
      · cases hsame
      · cases hms
        cases hms'
        have hclients := hlookup "clients"
        cases hclients

/-- Letters are no white space. -/
theorem isSpace_toLower (c : Char) : isSpace c.toLower = isSpace c := by
  by_cases h : c.val ≥ 'A'.val ∧ c.val ≤ 'Z'.val
  · have hupper : 65 ≤ c.toNat ∧ c.toNat ≤ 90 := h
    have hlower : c.toLower.toNat = c.toNat + 32 := by
      unfold Char.toLower
      rw [dif_pos h]
      show (c.val + 32).toNat = c.val.toNat + 32
      rw [UInt32.toNat_add, Nat.mod_eq_of_lt]
      · rfl
      · have hsmall : c.val.toNat ≤ 90 := hupper.2
        show c.val.toNat + 32 < 2 ^ 32
        omega
    have hnot : ∀ n : Nat, 65 ≤ n ∧ n ≤ 122 → ((9 ≤ n && n ≤ 13) || n == 0x20 || n == 0x85 || n == 0xA0 ||
        n == 0x1680 || (0x2000 ≤ n && n ≤ 0x200A) || n == 0x2028 || n == 0x2029 || n == 0x202F || n == 0x205F ||
        n == 0x3000) = false := by
      intro n hn
      simp only [Bool.or_eq_false_iff, Bool.and_eq_false_imp, decide_eq_true_eq, decide_eq_false_iff_not,
        beq_eq_false_iff_ne]
      omega
    rw [isSpace, isSpace, hlower]
    exact (hnot _ (by omega)).trans (hnot _ (by omega)).symm
  · unfold Char.toLower
    rw [dif_neg h]

/-- Bob, his traffic and the inbound's total leave no trace. -/
theorem bob_leaves_no_trace :
    SameAnswer
      (@getInboundsFor Runtime.ascii (fun _ => false) (some seller)
        (shopWith (settingsOf (.arr [entryFor "ann" "a1"])) (.single annsStat) 9))
      (@getInboundsFor Runtime.ascii (fun _ => false) (some seller)
        (shopWith (settingsOf (.arr [entryFor "bob" "b1", entryFor "ann" "a1"]))
          ((Table.single { id := 3, email := "bob", inboundId := 1, up := 500 }).put annsStat) 509)) :=
  @reseller_list_same Runtime.ascii isSpace_toLower seller rfl rfl (fun _ => false) _ _ (agree_shopWith rfl rfl) (by
    intro id hid i hi i' hi'
    obtain rfl := List.mem_singleton.1 hid
    cases hi
    cases hi'
    exact Or.inl ⟨_, _, rfl, rfl⟩)

end Simorgh.Panel
