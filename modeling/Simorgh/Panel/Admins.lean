import Simorgh.Lib.Run
import Simorgh.Lib.Table
import Simorgh.Lib.Threads
import Simorgh.Panel.Model

/-!
# Admins

`UpdateAdmin` and `DeleteAdmin` refuse to take the last super admin away.  The
check is a count of its own, made before the write and outside of it, and only for
an account that was a super admin when it was read.

* `updateAdmin`, `deleteAdmin` — the two requests, statement by statement.
* `Standing` — somebody is an enabled super admin.
* `Unsurprised` — a write that takes one away, made after the super admins have
  changed under its request, still finds another one.
* `super_admin_remains_iff` — a run keeps a super admin exactly if every step is so.
* `two_demotions_leave_none` — two demotions at once leave nobody.
-/

namespace Simorgh.Panel

open Simorgh.Lib

/-! ## Data -/

/-- One row of `users`. -/
structure User where
  id : Nat
  username : String
  password : String := ""
  nickname : String := ""
  isSuperAdmin : Bool := false
  permissions : Nat := 0
  isReseller : Bool := false
  enable : Bool := true
  deriving DecidableEq

/-- One row of `inbound_accesses`. -/
structure InboundAccess where
  userId : Nat
  inboundId : Nat
  deriving DecidableEq

/-- What a grant says. -/
def InboundAccess.pair (a : InboundAccess) : Nat × Nat := (a.userId, a.inboundId)

/-- What the two requests read and write.  Of the inbounds, who owns them. -/
structure AdminDb where
  users : Table User.id
  access : Table InboundAccess.pair := Table.empty
  owners : List Nat := []

/-- The mutable shape of an admin. -/
structure AdminSpec where
  username : String
  password : String := ""
  nickname : String := ""
  permissions : Nat := 0
  enable : Bool := true
  isSuperAdmin : Bool := false
  inboundIds : List Int := []

/-- The errors of the service. -/
inductive AdminError where
  | usernameTaken
  | notFound
  | lastSuperAdmin
  | usernameRequired
  | stillOwns (n : Nat)
  | hashing
  | database
  deriving DecidableEq

/-- The texts of the errors the service makes itself. -/
def AdminError.text : AdminError → Option String
  | .usernameTaken => some "that username is already taken"
  | .notFound => some "admin not found"
  | .lastSuperAdmin => some "this is the only super admin; promote another one first"
  | .usernameRequired => some "username is required"
  | .stillOwns n =>
      some ("this admin still owns " ++ toString n ++ " inbound(s); delete or reassign them first")
  | .hashing | .database => none

/-- The statements of the two requests. -/
inductive AdminPlace where
  | load | username | last | owned | save | delete | begin | clear | grant | commit
  deriving DecidableEq

/-- A request as database statements. -/
abbrev AdminProg := Prog AdminDb AdminPlace (Except AdminError Unit)

/-! ## Queries -/

/-- An enabled super admin. -/
def User.standing (u : User) : Bool := u.isSuperAdmin && u.enable

/-- The ids of the enabled super admins. -/
def AdminDb.supers (db : AdminDb) : List Nat := (db.users.rows.filter User.standing).map User.id

/-- Another user has the name. -/
def usernameTaken (db : AdminDb) (username : String) (exceptId : Nat) : Bool :=
  db.users.rows.any fun u => decide (u.username = username) && (exceptId == 0 || decide (u.id ≠ exceptId))

/-- No other super admin is enabled. -/
def isLastSuperAdmin (db : AdminDb) (id : Nat) : Bool :=
  (db.users.rows.filter fun u => u.standing && decide (u.id ≠ id)).length == 0

/-! ## Writes -/

/-- The row `UpdateAdmin` makes of the one that is there. -/
def AdminSpec.over (username : String) (hash : Option String) (spec : AdminSpec) (u : User) : User :=
  { u with
    username := username
    nickname := trimSpace spec.nickname
    permissions := spec.permissions
    enable := spec.enable
    isSuperAdmin := spec.isSuperAdmin
    password := hash.getD u.password }

theorem AdminSpec.over_id (username : String) (hash : Option String) (spec : AdminSpec) (u : User) :
    (spec.over username hash u).id = u.id := rfl

/-- The update of one row.  The index on the user names may refuse it. -/
def AdminDb.saveUser? (id : Nat) (username : String) (hash : Option String) (spec : AdminSpec)
    (db : AdminDb) : Option AdminDb :=
  if (db.users.find? id).isSome && db.users.rows.any fun u => decide (u.username = username ∧ u.id ≠ id) then
    none
  else some { db with users := db.users.modify id (spec.over username hash) (spec.over_id username hash) }

/-- The account is gone. -/
def AdminDb.dropUser (id : Nat) (db : AdminDb) : AdminDb := { db with users := db.users.erase id }

/-- The grants of a transaction, in order.  Ids that are not positive are skipped. -/
def grantWrites (userId : Nat) (inboundIds : List Int) :
    List (AdminPlace × (Table InboundAccess.pair → Option (Table InboundAccess.pair))) :=
  (inboundIds.filter fun id => decide (0 < id)).map fun id =>
    (.grant, fun access => access.insert? ⟨userId, id.toNat⟩)

/-- `SetInboundAccess`, on the grants alone. -/
def replaceAccess (userId : Nat) (inboundIds : List Int) :
    Prog (Table InboundAccess.pair) AdminPlace (Except AdminError Unit) := do
  Prog.start .begin
  if ← Prog.update .clear fun access => access.deleteWhere fun a => decide (a.userId = userId) then
    if ← Prog.updates (grantWrites userId inboundIds) then
      .commit .commit fun ok => pure (if ok then .ok () else .error .database)
    else
      Prog.abandon
      pure (.error .database)
  else
    Prog.abandon
    pure (.error .database)

/-- The grants of a user, replaced. -/
def setInboundAccess (userId : Nat) (inboundIds : List Int) : AdminProg :=
  (replaceAccess userId inboundIds).lift AdminDb.access (fun db access => { db with access := access }) id

/-! ## The requests -/

section

variable [Runtime] (hashPassword : String → Option String)

/-- Names are compared in lower case. -/
def normalizeUsername (name : String) : String := toLower (trimSpace name)

/-- The end of `UpdateAdmin`: the write, and the grants after it. -/
def saveAdmin (id : Nat) (spec : AdminSpec) (hash : Option String) : AdminProg := do
  if ← Prog.update? .save (AdminDb.saveUser? id (normalizeUsername spec.username) hash spec) then
    setInboundAccess id (if spec.isSuperAdmin then [] else spec.inboundIds)
  else pure (.error .database)

/-- The password is hashed before the write, and kept if none is given. -/
def hashAndSave (id : Nat) (spec : AdminSpec) : AdminProg :=
  if spec.password = "" then saveAdmin id spec none
  else match hashPassword spec.password with
    | none => pure (.error .hashing)
    | some hash => saveAdmin id spec (some hash)

/-- `UpdateAdmin` once the row has been read. -/
def checkAndSave (id : Nat) (spec : AdminSpec) (existing : User) : AdminProg := do
  if existing.isReseller then pure (.error .notFound)
  else if normalizeUsername spec.username = "" then pure (.error .usernameRequired)
  else match ← Prog.select .username fun db => usernameTaken db (normalizeUsername spec.username) id with
    | none => pure (.error .database)
    | some true => pure (.error .usernameTaken)
    | some false =>
        if existing.isSuperAdmin && (!spec.isSuperAdmin || !spec.enable) then
          match ← Prog.select .last fun db => isLastSuperAdmin db id with
          | none => pure (.error .database)
          | some true => pure (.error .lastSuperAdmin)
          | some false => hashAndSave hashPassword id spec
        else hashAndSave hashPassword id spec

/-- An admin is changed. -/
def updateAdmin (id : Nat) (spec : AdminSpec) : AdminProg := do
  match ← Prog.select .load fun db => db.users.find? id with
  | none => pure (.error .database)
  | some none => pure (.error .notFound)
  | some (some existing) => checkAndSave hashPassword id spec existing

/-- The end of `DeleteAdmin`. -/
def countAndDelete (id : Nat) : AdminProg := do
  match ← Prog.select .owned fun db => (db.owners.filter fun owner => decide (owner = id)).length with
  | none => pure (.error .database)
  | some owned =>
      if 0 < owned then pure (.error (.stillOwns owned))
      else if ← Prog.update .delete (AdminDb.dropUser id) then pure (.ok ())
      else pure (.error .database)

/-- `DeleteAdmin` once the row has been read. -/
def checkAndDelete (id : Nat) (existing : User) : AdminProg := do
  if existing.isReseller then pure (.error .notFound)
  else if existing.isSuperAdmin then
    match ← Prog.select .last fun db => isLastSuperAdmin db id with
    | none => pure (.error .database)
    | some true => pure (.error .lastSuperAdmin)
    | some false => countAndDelete id
  else countAndDelete id

/-- An admin is deleted with the grants. -/
def deleteAdmin (id : Nat) : AdminProg := do
  match ← Prog.select .load fun db => db.users.find? id with
  | none => pure (.error .database)
  | some none => pure (.error .notFound)
  | some (some existing) => checkAndDelete id existing

/-! ## Runs -/

/-- A request of the Admins page. -/
inductive AdminRequest where
  | update (id : Nat) (spec : AdminSpec)
  | delete (id : Nat)

/-- The account a request is about. -/
def AdminRequest.id : AdminRequest → Nat
  | .update id _ => id
  | .delete id => id

/-- The statements of a request. -/
def AdminRequest.prog : AdminRequest → AdminProg
  | .update id spec => updateAdmin hashPassword id spec
  | .delete id => deleteAdmin id

/-- What a request relies on: who the enabled super admins are. -/
def SameSupers (_ : AdminRequest) (s t : AdminDb) : Prop := s.supers = t.supers

instance (r : AdminRequest) (s t : AdminDb) : Decidable (SameSupers r s t) :=
  inferInstanceAs (Decidable (s.supers = t.supers))

/-- Requests under way. -/
abbrev AdminPool := Pool AdminRequest AdminDb AdminPlace (Except AdminError Unit)

/-- A request comes in, or one takes a turn. -/
inductive AdminEvent where
  | request (r : AdminRequest)
  | turn (k : Nat) (fails : AdminPlace → Bool)

/-- A request comes in, or one that is under way takes its next turn. -/
def adminStep (P : AdminPool) : AdminEvent → AdminPool
  | .request r => P.spawn r (r.prog hashPassword)
  | .turn k fails => P.move SameSupers k fails

/-- An enabled super admin remains. -/
def Standing (db : AdminDb) : Prop := ∃ id, id ∈ db.supers

/-- When the super admins have changed since the request began, and its turn takes one of
them away, the count would still find another. -/
def Unsurprised (P : AdminPool) : AdminEvent → Prop
  | .request _ => True
  | .turn k fails => ∀ th ∈ P.threads[k]?, th.undisturbed = false → th.op.id ∈ P.store.supers →
      th.op.id ∉ (th.prog.attempt fails P.store).1.supers → isLastSuperAdmin P.store th.op.id = false

/-! ## The super admins after a write -/

omit [Runtime] in
theorem mem_supers {db : AdminDb} {j : Nat} :
    j ∈ db.supers ↔ ∃ u, db.users.find? j = some u ∧ u.standing = true := by
  simp only [AdminDb.supers, List.mem_map, List.mem_filter]
  constructor
  · rintro ⟨u, ⟨hu, hstanding⟩, rfl⟩
    exact ⟨u, Table.find?_of_mem hu, hstanding⟩
  · rintro ⟨u, hu, hstanding⟩
    obtain ⟨hmem, hid⟩ := Table.find?_some hu
    exact ⟨u, ⟨hmem, hstanding⟩, hid⟩

omit [Runtime] in
theorem isLastSuperAdmin_eq_false {db : AdminDb} {id : Nat} :
    isLastSuperAdmin db id = false ↔ ∃ j ∈ db.supers, j ≠ id := by
  simp only [isLastSuperAdmin, AdminDb.supers, beq_eq_false_iff_ne, ne_eq, List.length_eq_zero_iff,
    List.filter_eq_nil_iff, Bool.and_eq_true, decide_eq_true_eq, not_forall, not_not, List.mem_map,
    List.mem_filter]
  constructor
  · rintro ⟨u, hu, hstanding, hne⟩
    exact ⟨u.id, ⟨u, ⟨hu, hstanding⟩, rfl⟩, hne⟩
  · rintro ⟨j, ⟨u, ⟨hu, hstanding⟩, rfl⟩, hne⟩
    exact ⟨u, hu, hstanding, hne⟩

/-- Only one account is touched. -/
def OnlyOne (r : AdminRequest) (s t : AdminDb) : Prop :=
  ∀ j, j ≠ r.id → (j ∈ s.supers ↔ j ∈ t.supers)

/-- Taking the account away leaves another super admin, or takes none. -/
def Secure (id : Nat) (db : AdminDb) : Prop := id ∉ db.supers ∨ ∃ j ∈ db.supers, j ≠ id

omit [Runtime] in
theorem saveUser?_supers {id : Nat} {username : String} {hash : Option String} {spec : AdminSpec}
    {db db' : AdminDb} (h : db.saveUser? id username hash spec = some db') :
    (∀ j, j ≠ id → (j ∈ db.supers ↔ j ∈ db'.supers)) ∧
      (spec.isSuperAdmin = true → spec.enable = true → id ∈ db.supers → id ∈ db'.supers) := by
  simp only [AdminDb.saveUser?] at h
  split at h
  · cases h
  · cases h
    constructor
    · intro j hj
      simp only [mem_supers, Table.find?_modify_of_ne hj]
    · intro hsuper henable hid
      obtain ⟨u, hu, -⟩ := mem_supers.1 hid
      refine mem_supers.2 ⟨spec.over username hash u, ?_, ?_⟩
      · simp only [Table.find?_modify_self, hu, Option.map_some]
      · simp only [User.standing, AdminSpec.over, hsuper, henable, Bool.and_self]

omit [Runtime] in
theorem dropUser_supers {id : Nat} {db : AdminDb} {j : Nat} (hj : j ≠ id) :
    j ∈ db.supers ↔ j ∈ (db.dropUser id).supers := by
  simp only [mem_supers, AdminDb.dropUser, Table.find?_erase_of_ne hj]

/-! ## What a request keeps to -/

omit [Runtime] in
theorem OnlyOne.refl (r : AdminRequest) (db : AdminDb) : OnlyOne r db db := fun _ _ => Iff.rfl

omit [Runtime] in
theorem OnlyOne.trans (r : AdminRequest) (s t u : AdminDb) (hst : OnlyOne r s t) (htu : OnlyOne r t u) :
    OnlyOne r s u := fun j hj => (hst j hj).trans (htu j hj)

omit [Runtime] in
theorem keeps_setInboundAccess (r : AdminRequest) (userId : Nat) (inboundIds : List Int) :
    (setInboundAccess userId inboundIds).Keeps (OnlyOne r) :=
  Prog.keeps_lift (fun _ _ _ _ => Iff.rfl) _

theorem keeps_hashAndSave (id : Nat) (spec : AdminSpec) :
    (hashAndSave hashPassword id spec).Keeps (OnlyOne (.update id spec)) := by
  have hsave : ∀ hash, (saveAdmin id spec hash).Keeps (OnlyOne (.update id spec)) := by
    intro hash
    refine Prog.Keeps.bind (Prog.keeps_update? (fun s t h => (saveUser?_supers h).1) .save) fun ok => ?_
    cases ok
    · exact Prog.keeps_pure _
    · exact keeps_setInboundAccess _ _ _
  unfold hashAndSave
  split
  · exact hsave none
  · split
    · exact Prog.keeps_pure _
    · exact hsave _

theorem keeps_checkAndSave (id : Nat) (spec : AdminSpec) (existing : User) :
    (checkAndSave hashPassword id spec existing).Keeps (OnlyOne (.update id spec)) := by
  unfold checkAndSave
  -- so that a split does not go about computing the name
  generalize normalizeUsername spec.username = username
  split
  · exact Prog.keeps_pure _
  split
  · exact Prog.keeps_pure _
  refine Prog.Keeps.bind (Prog.keeps_select AdminPlace.username _) fun taken => ?_
  rcases taken with _ | _ | _
  · exact Prog.keeps_pure _
  · dsimp only
    split
    · refine Prog.Keeps.bind (Prog.keeps_select AdminPlace.last _) fun last => ?_
      rcases last with _ | _ | _
      · exact Prog.keeps_pure _
      · exact keeps_hashAndSave hashPassword id spec
      · exact Prog.keeps_pure _
    · exact keeps_hashAndSave hashPassword id spec
  · exact Prog.keeps_pure _

theorem keeps_updateAdmin (id : Nat) (spec : AdminSpec) :
    (updateAdmin hashPassword id spec).Keeps (OnlyOne (.update id spec)) := by
  refine Prog.Keeps.bind (Prog.keeps_select AdminPlace.load _) fun loaded => ?_
  rcases loaded with _ | _ | existing
  · exact Prog.keeps_pure _
  · exact Prog.keeps_pure _
  · exact keeps_checkAndSave hashPassword id spec existing

omit [Runtime] in
theorem keeps_countAndDelete (id : Nat) : (countAndDelete id).Keeps (OnlyOne (.delete id)) := by
  refine Prog.Keeps.bind (Prog.keeps_select AdminPlace.owned _) fun owned => ?_
  rcases owned with _ | owned
  · exact Prog.keeps_pure _
  · show (if 0 < owned then _ else _ : AdminProg).Keeps _
    split
    · exact Prog.keeps_pure _
    · refine Prog.Keeps.bind (Prog.keeps_update (fun s j hj => dropUser_supers hj) .delete) fun ok => ?_
      cases ok <;> exact Prog.keeps_pure _

omit [Runtime] in
theorem keeps_deleteAdmin (id : Nat) : (deleteAdmin id).Keeps (OnlyOne (.delete id)) := by
  refine Prog.Keeps.bind (Prog.keeps_select AdminPlace.load _) fun loaded => ?_
  rcases loaded with _ | _ | existing
  · exact Prog.keeps_pure _
  · exact Prog.keeps_pure _
  · show (checkAndDelete id existing).Keeps _
    unfold checkAndDelete
    split
    · exact Prog.keeps_pure _
    · split
      · refine Prog.Keeps.bind (Prog.keeps_select AdminPlace.last _) fun last => ?_
        rcases last with _ | _ | _
        · exact Prog.keeps_pure _
        · exact keeps_countAndDelete id
        · exact Prog.keeps_pure _
      · exact keeps_countAndDelete id

/-! ## What a request guarantees when it is left alone -/

/-- A turn leaves a super admin where there was one. -/
def KeepsStanding (_ : AdminRequest) (_ : AdminProg) (s : AdminDb) (_ : AdminProg) (t : AdminDb) : Prop :=
  Standing s → Standing t

/-- A request says nothing about where it ends. -/
def AnyEnd (_ : AdminRequest) (_ : Except AdminError Unit) (_ : AdminDb) : Prop := True

omit [Runtime] in
theorem outline_end {r : AdminRequest} {e : Except AdminError Unit} (s : AdminDb) :
    Prog.Outline (SameSupers r) (KeepsStanding r) (AnyEnd r) (pure e : AdminProg) s :=
  .done fun _ _ => trivial

omit [Runtime] in
/-- A change of one account that the super admins survive. -/
theorem Standing.of_secure {r : AdminRequest} {s t : AdminDb} (honly : OnlyOne r s t)
    (hsecure : (r.id ∈ s.supers → r.id ∈ t.supers) ∨ Secure r.id s) (hs : Standing s) : Standing t := by
  obtain ⟨j, hj⟩ := hs
  by_cases hid : j = r.id
  · subst hid
    rcases hsecure with hkeeps | hnot | ⟨i, hi, hne⟩
    · exact ⟨_, hkeeps hj⟩
    · exact absurd hj hnot
    · exact ⟨i, (honly i hne).1 hi⟩
  · exact ⟨j, (honly j hid).1 hj⟩

omit [Runtime] in
theorem Secure.of_same {id : Nat} {s t : AdminDb} (h : s.supers = t.supers) (hs : Secure id s) : Secure id t := by
  unfold Secure
  rw [← h]
  exact hs

theorem outline_hashAndSave {id : Nat} {spec : AdminSpec} {s : AdminDb}
    (hsecure : (spec.isSuperAdmin = true ∧ spec.enable = true) ∨ Secure id s) :
    Prog.Outline (SameSupers (.update id spec)) (KeepsStanding (.update id spec)) (AnyEnd (.update id spec))
      (hashAndSave hashPassword id spec) s := by
  have hsave : ∀ hash, Prog.Outline (SameSupers (.update id spec)) (KeepsStanding (.update id spec))
      (AnyEnd (.update id spec)) (saveAdmin id spec hash) s := by
    intro hash
    refine Prog.Outline.update? (fun _ _ _ h => h) AdminPlace.save _ _ fun t ht => ⟨fun u hu => ⟨?_, ?_⟩, outline_end t⟩
    · obtain ⟨honly, hkeeps⟩ := saveUser?_supers hu
      refine Standing.of_secure (r := .update id spec) honly ?_
      rcases hsecure with ⟨hsuper, henable⟩ | hsecure
      · exact Or.inl (hkeeps hsuper henable)
      · exact Or.inr (hsecure.of_same ht)
    · refine Prog.Keeps.outline (fun _ h => h) (fun _ _ _ hst htu hs => htu (hst hs)) ?_ u
      exact Prog.keeps_lift (fun _ _ hs => hs) _
  unfold hashAndSave
  split
  · exact hsave none
  · split
    · exact outline_end s
    · exact hsave _

/-- The row was read when `supers` was as it is now. -/
theorem outline_checkAndSave {id : Nat} {spec : AdminSpec} {existing : User} {s : AdminDb}
    (hread : s.users.find? id = some existing) :
    Prog.Outline (SameSupers (.update id spec)) (KeepsStanding (.update id spec)) (AnyEnd (.update id spec))
      (checkAndSave hashPassword id spec existing) s := by
  have hnot : existing.isSuperAdmin = false → id ∉ s.supers := by
    intro hsuper hmem
    obtain ⟨u, hu, hstanding⟩ := mem_supers.1 hmem
    rw [hread] at hu
    cases hu
    simp [User.standing, hsuper] at hstanding
  unfold checkAndSave
  generalize normalizeUsername spec.username = username
  split
  · exact outline_end s
  split
  · exact outline_end s
  refine Prog.Outline.select (fun _ _ _ h => h) AdminPlace.username _ _ fun t ht => ⟨?_, outline_end t⟩
  cases usernameTaken t username id with
  | true => exact outline_end t
  | false =>
      dsimp only
      split
      · refine Prog.Outline.select (fun _ _ _ h => h) AdminPlace.last _ _ fun u hu => ⟨?_, outline_end u⟩
        cases hlast : isLastSuperAdmin u id with
        | true => exact outline_end u
        | false =>
            exact outline_hashAndSave hashPassword (Or.inr (Or.inr (isLastSuperAdmin_eq_false.1 hlast)))
      · rename_i hkeeps
        refine outline_hashAndSave hashPassword ?_
        cases hsuper : existing.isSuperAdmin with
        | true =>
            rw [hsuper] at hkeeps
            exact Or.inl (by simpa using hkeeps)
        | false =>
            have hsame : s.supers = t.supers := ht
            exact Or.inr (Or.inl (hsame ▸ hnot hsuper))

theorem outline_updateAdmin (id : Nat) (spec : AdminSpec) (s : AdminDb) :
    Prog.Outline (SameSupers (.update id spec)) (KeepsStanding (.update id spec)) (AnyEnd (.update id spec))
      (updateAdmin hashPassword id spec) s := by
  refine Prog.Outline.select (fun _ _ _ h => h) AdminPlace.load _ _ fun t _ => ⟨?_, outline_end t⟩
  cases hread : t.users.find? id with
  | none => exact outline_end t
  | some existing => exact outline_checkAndSave hashPassword hread

omit [Runtime] in
theorem outline_countAndDelete {id : Nat} {s : AdminDb} (hsecure : Secure id s) :
    Prog.Outline (SameSupers (.delete id)) (KeepsStanding (.delete id)) (AnyEnd (.delete id))
      (countAndDelete id) s := by
  refine Prog.Outline.select (fun _ _ _ h => h) AdminPlace.owned _ _ fun t ht => ⟨?_, outline_end t⟩
  dsimp only
  split
  · exact outline_end t
  · refine Prog.Outline.update (fun _ _ _ h => h) AdminPlace.delete _ _ fun u hu => ⟨⟨?_, outline_end _⟩, outline_end u⟩
    have hsame : s.supers = u.supers := Eq.trans ht hu
    exact Standing.of_secure (r := .delete id) (fun j hj => dropUser_supers hj) (Or.inr (hsecure.of_same hsame))

omit [Runtime] in
theorem outline_deleteAdmin (id : Nat) (s : AdminDb) :
    Prog.Outline (SameSupers (.delete id)) (KeepsStanding (.delete id)) (AnyEnd (.delete id))
      (deleteAdmin id) s := by
  refine Prog.Outline.select (fun _ _ _ h => h) AdminPlace.load _ _ fun t _ => ⟨?_, outline_end t⟩
  cases hread : t.users.find? id with
  | none => exact outline_end t
  | some existing =>
      show Prog.Outline _ _ _ (checkAndDelete id existing) t
      unfold checkAndDelete
      split
      · exact outline_end t
      split
      · refine Prog.Outline.select (fun _ _ _ h => h) AdminPlace.last _ _ fun u hu => ⟨?_, outline_end u⟩
        cases hlast : isLastSuperAdmin u id with
        | true => exact outline_end u
        | false => exact outline_countAndDelete (Or.inr (isLastSuperAdmin_eq_false.1 hlast))
      · rename_i hsuper
        refine outline_countAndDelete (Or.inl fun hmem => ?_)
        obtain ⟨u, hu, hstanding⟩ := mem_supers.1 hmem
        rw [hread] at hu
        cases hu
        simp only [User.standing, Bool.and_eq_true] at hstanding
        exact hsuper hstanding.1

/-! ## Every run -/

omit [Runtime] in
theorem SameSupers.refl (r : AdminRequest) (s : AdminDb) : SameSupers r s s := Eq.refl s.supers

omit [Runtime] in
theorem SameSupers.trans (r : AdminRequest) (s t u : AdminDb) (hst : SameSupers r s t)
    (htu : SameSupers r t u) : SameSupers r s u := Eq.trans hst htu

/-- The requests under way are where their outlines say and touch one account each. -/
structure AdminSound (P : AdminPool) : Prop where
  outlined : P.Outlined SameSupers KeepsStanding AnyEnd
  keeping : P.Keeping OnlyOne

theorem AdminSound.step {P : AdminPool} (hP : AdminSound P) (e : AdminEvent) :
    AdminSound (adminStep hashPassword P e) := by
  cases e with
  | request r =>
      cases r with
      | update id spec =>
          exact ⟨hP.outlined.spawn (outline_updateAdmin hashPassword id spec P.store),
            hP.keeping.spawn (keeps_updateAdmin hashPassword id spec)⟩
      | delete id =>
          exact ⟨hP.outlined.spawn (outline_deleteAdmin id P.store), hP.keeping.spawn (keeps_deleteAdmin id)⟩
  | turn k fails =>
      exact ⟨hP.outlined.move SameSupers.trans SameSupers.refl (fun _ _ _ _ h => h) k fails,
        hP.keeping.move OnlyOne.refl OnlyOne.trans k fails⟩

theorem adminStep_standing {P : AdminPool} (hP : AdminSound P) (hs : Standing P.store) {e : AdminEvent}
    (hok : Unsurprised P e) : Standing (adminStep hashPassword P e).store := by
  cases e with
  | request r => exact hs
  | turn k fails =>
      cases hk : P.threads[k]? with
      | none => simpa only [adminStep, Pool.move, hk] using hs
      | some th =>
          simp only [adminStep, Pool.move_eq hk]
          cases hund : th.undisturbed with
          | true =>
              have hguar : Standing P.store → Standing (th.prog.attempt fails P.store).1 :=
                hP.outlined.guarantee SameSupers.refl (fun _ _ _ _ h => h) hk hund fails
              exact hguar hs
          | false =>
              refine Standing.of_secure (hP.keeping.guarantee OnlyOne.refl OnlyOne.trans hk fails) ?_ hs
              rcases Classical.em (th.op.id ∈ P.store.supers) with hmem | hmem
              · rcases Classical.em (th.op.id ∈ (th.prog.attempt fails P.store).1.supers) with hkept | hgone
                · exact Or.inl fun _ => hkept
                · exact Or.inr (Or.inr (isLastSuperAdmin_eq_false.1 (hok th hk hund hmem hgone)))
              · exact Or.inr (Or.inl hmem)

theorem unsurprised_of_standing {P : AdminPool} (hP : AdminSound P) {e : AdminEvent}
    (hs : Standing (adminStep hashPassword P e).store) : Unsurprised P e := by
  cases e with
  | request r => trivial
  | turn k fails =>
      intro th hk _ _ hgone
      simp only [adminStep, Pool.move_eq hk] at hs
      obtain ⟨j, hj⟩ := hs
      have hne : j ≠ th.op.id := fun h => hgone (h ▸ hj)
      have honly := hP.keeping.guarantee OnlyOne.refl OnlyOne.trans hk fails
      exact isLastSuperAdmin_eq_false.2 ⟨j, (honly j hne).2 hj, hne⟩

/-- Some enabled super admin is there in every state of a run exactly if no turn takes the
last one away after the super admins have changed under its request. -/
theorem super_admin_remains_iff (db : AdminDb) (hdb : Standing db) (events : List AdminEvent) :
    (∀ P ∈ states (adminStep hashPassword) { store := db } events, Standing P.store) ↔
      AllSteps (adminStep hashPassword) Unsurprised { store := db } events := by
  have hstart : AdminSound ({ store := db } : AdminPool) :=
    ⟨fun _ hth => absurd hth List.not_mem_nil, fun _ hth => absurd hth List.not_mem_nil⟩
  have hsound : ∀ P e, AdminSound P → AdminSound (adminStep hashPassword P e) :=
    fun P e hP => hP.step hashPassword e
  constructor
  · have hback : ∀ P e, AdminSound P → Standing P.store → Standing (adminStep hashPassword P e).store →
        Unsurprised P e := fun P e hP _ hnext => unsurprised_of_standing hashPassword hP hnext
    exact AllSteps.of_states hsound hback hstart
  · intro hsteps P hmem
    have hkeep : ∀ P e, AdminSound P ∧ Standing P.store → Unsurprised P e →
        AdminSound (adminStep hashPassword P e) ∧ Standing (adminStep hashPassword P e).store :=
      fun P e hP hok => ⟨hsound P e hP.1, adminStep_standing hashPassword hP.1 hP.2 hok⟩
    exact (hsteps.invariant hkeep ⟨hstart, hdb⟩ P hmem).2

end

/-! ## Two demotions -/

/-- Two super admins and nobody else. -/
def twoSupers : AdminDb where
  users := (Table.single { id := 1, username := "ann", isSuperAdmin := true }).put
    { id := 2, username := "bob", isSuperAdmin := true }

def demotion (id : Nat) (username : String) : AdminRequest := .update id { username := username }

/-- Every statement of the turn goes through. -/
def turnOf (k : Nat) : AdminEvent := .turn k fun _ => false

/-- Both demotions count before either has written. -/
def overlappingDemotions : List AdminEvent :=
  [.request (demotion 1 "ann"), .request (demotion 2 "bob"), turnOf 0, turnOf 0, turnOf 0,
    turnOf 1, turnOf 1, turnOf 1, turnOf 0, turnOf 1]

theorem two_demotions_leave_none :
    Standing twoSupers ∧
      ¬ Standing (run (@adminStep Runtime.ascii some) { store := twoSupers } overlappingDemotions).store := by
  refine ⟨⟨1, by decide⟩, ?_⟩
  rintro ⟨id, hid⟩
  have hnone : (run (@adminStep Runtime.ascii some) { store := twoSupers } overlappingDemotions).store.supers = [] := by
    decide
  rw [hnone] at hid
  cases hid

/-- The second demotion begins after the first has ended. -/
def demotionsInTurn : List AdminEvent :=
  [.request (demotion 1 "ann")] ++ List.replicate 5 (turnOf 0) ++ [.request (demotion 2 "bob")] ++
    List.replicate 5 (turnOf 1)

/-- One after the other, the second is refused. -/
theorem second_demotion_refused :
    Standing (run (@adminStep Runtime.ascii some) { store := twoSupers } demotionsInTurn).store :=
  (@super_admin_remains_iff Runtime.ascii some twoSupers ⟨1, by decide⟩ demotionsInTurn).2 (by
    refine ⟨trivial, ?_, ?_, ?_, ?_, ?_, trivial, ?_, ?_, ?_, ?_, ?_, trivial⟩ <;>
    · intro th hth hund
      revert hund
      cases hth
      decide) _ (run_mem_states _ _)

end Simorgh.Panel
