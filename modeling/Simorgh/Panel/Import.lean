import Mathlib.Data.List.Basic
import Simorgh.Lib.Effects

/-!
# Importing a database

An upload replaces the database of the panel: it is saved beside it, the database is closed
and moved away, and the upload is moved in and opened.  Any step may fail, and so may the
step that undoes another.

* `importDB`, `importForeignDB` — the two ways in, with every step that can fail and what is
  done on every exit.
* `Intact` — the path has the database from before, whole, or the imported one, whole, and
  the panel's handle is open on it.
* `intact_iff` — that is so after an import exactly when it stops before the database is
  closed, or goes through from there on.
* `only_copy_deleted` — moving the upload in fails, moving the database back fails, and the
  clean-up removes it.
-/

namespace Simorgh.Panel.Import

open Simorgh.Lib

/-! ## Files -/

/-- The rows of a database: those of the settings by their key, and the others. -/
structure Content (ρ : Type) where
  settings : String → Option String
  rest : ρ

/-- Which database a file belongs to. -/
inductive Owner where
  | previous
  | imported
  | stale
  /-- Two databases wrote to it. -/
  | mixed
  deriving DecidableEq

/-- A database file.  `ready`: `InitDB` has been through it. -/
structure File (ρ : Type) where
  owner : Owner
  content : Content ρ
  ready : Bool

/-- A write-ahead log, by what its transactions do to the file. -/
structure Wal (ρ : Type) where
  owner : Owner
  frames : Content ρ → Content ρ

/-- The uploaded file under its temporary name. -/
inductive Temp (ρ : Type) where
  | absent
  | unfinished
  | whole (file : File ρ)

/-- There is a file. -/
def Temp.present {ρ : Type} : Temp ρ → Bool
  | .absent => false
  | _ => true

/-- What is at the path of the database and beside it, and the file the panel has open. -/
structure Disk (ρ : Type) where
  db : Option (File ρ)
  wal : Option (Wal ρ)
  shm : Option Owner
  temp : Temp ρ
  backup : Option (File ρ)
  handle : Option Owner

/-- The panel before the import. -/
structure Install (ρ : Type) where
  content : Content ρ
  /-- Transactions that are committed and not folded into the file yet. -/
  wal : Option (Content ρ → Content ρ)
  shm : Bool
  tempLeft : Bool
  backupLeft : Option (Content ρ)
  /-- `defaultValueMap`. -/
  defaults : String → Option String
  /-- What `InitDB` makes of a database it has not been through. -/
  migrate : Content ρ → Content ρ
  /-- `MigrateDB`, and the ranges. -/
  finish : ρ → ρ

/-- What is uploaded. -/
structure Upload (ρ : Type) where
  signature : Bool
  sound : Bool
  content : Content ρ

variable {ρ : Type}

/-- The database with every transaction that is committed. -/
def Install.whole (p : Install ρ) : Content ρ := p.wal.getD id p.content

/-- The disk before an import. -/
def Install.start (p : Install ρ) : Disk ρ where
  db := some ⟨.previous, p.content, true⟩
  wal := p.wal.map fun frames => ⟨.previous, frames⟩
  shm := if p.shm then some .previous else none
  temp := if p.tempLeft then .unfinished else .absent
  backup := p.backupLeft.map fun c => ⟨.stale, c, true⟩
  handle := some .previous

/-! ## What can fail -/

/-- How opening the database ends. -/
inductive InitOutcome where
  | ok
  /-- No connection was made. -/
  | notOpened
  /-- The connection is there; a migration failed. -/
  | halfway
  deriving DecidableEq

/-- The steps that fail. -/
structure Faults where
  readSignature : Bool := false
  seek : Bool := false
  snapshot : Bool := false
  removeTemp : Bool := false
  createTemp : Bool := false
  copy : Bool := false
  closeTemp : Bool := false
  openTemp : Bool := false
  closeDB : Bool := false
  removeBackup : Bool := false
  backUp : Bool := false
  removeWal : Bool := false
  removeShm : Bool := false
  moveIn : Bool := false
  moveBack : Bool := false
  init : InitOutcome := .ok
  restore : Bool := false
  reinit : InitOutcome := .ok
  settings : Bool := false
  restartXray : Bool := false
  cleanTemp : Bool := false
  cleanBackup : Bool := false

/-- The errors of an import. -/
inductive ImportError where
  | checkingFormat
  | invalidFormat
  | resettingReader
  | removingTemp
  | creatingTemp
  | savingDb
  | closingTemp
  | invalidOrCorrupt
  | removingFallback
  | backingUp
  | movingAndRestoring
  | moving
  | migratingAndRestoring
  | migrating
  | preservingSettings
  | startingXray
  deriving DecidableEq

/-- A computation on the disk that may fail. -/
abbrev Act (ρ : Type) := EStateM ImportError (Disk ρ)

/-! ## The database package -/

/-- `CloseDB`: the log is folded in and its files go, unless the close fails. -/
def closeDB (fails : Bool) (d : Disk ρ) : Disk ρ :=
  if fails then { d with handle := none }
  else { d with
    db := d.db.map fun f => { f with content := (d.wal.map Wal.frames).getD id f.content }
    wal := none
    shm := none
    handle := none }

/-- The write-ahead files are removed. -/
def removeSidecars (f : Faults) (d : Disk ρ) : Disk ρ :=
  { d with
    wal := if f.removeWal then d.wal else none
    shm := if f.removeShm then d.shm else none }

/-- Whose a sidecar is once a database writes to it. -/
def Owner.joined (o : Owner) (old : Option Owner) : Owner :=
  match old with
  | none => o
  | some o' => if o' = o then o else .mixed

/-- A connection to the file at the path: it makes the sidecars, or writes to those it finds. -/
def connect (d : Disk ρ) : Disk ρ :=
  match d.db with
  | none => d
  | some file => { d with
      wal := some ⟨file.owner.joined (d.wal.map Wal.owner), (d.wal.map Wal.frames).getD id⟩
      shm := some (file.owner.joined d.shm)
      handle := some file.owner }

/-- `InitDB` on the file at the path. -/
def initDB (p : Install ρ) (o : InitOutcome) (d : Disk ρ) : Disk ρ :=
  match o with
  | .notOpened => { d with handle := none }
  | .halfway => connect d
  | .ok => { connect d with
      db := d.db.map fun f => if f.ready then f else { f with content := p.migrate f.content, ready := true } }

/-! ## The two imports -/

section

variable (p : Install ρ) (f : Faults) (u : Upload ρ)

/-- The upload is a database. -/
def checkFormat : Act ρ Unit := do
  attempt (fun _ => f.readSignature) .checkingFormat id
  attempt (fun _ => !u.signature) .invalidFormat id
  attempt (fun _ => f.seek) .resettingReader id

/-- `os.Rename(temp, db)`. -/
def moveTemp (d : Disk ρ) : Disk ρ :=
  { d with
    db := match d.temp with
      | .whole file => some file
      | _ => none
    temp := .absent }

/-- `os.Rename(db, backup)`. -/
def moveAway (d : Disk ρ) : Disk ρ := { d with db := none, backup := d.db }

/-- `os.Rename(backup, db)`. -/
def moveBackup (d : Disk ρ) : Disk ρ := { d with db := d.backup, backup := none }

/-- The temporary file is removed. -/
def cleanTemp (d : Disk ρ) : Disk ρ := if f.cleanTemp then d else { d with temp := .absent }

/-- The fallback is removed. -/
def cleanBackup (d : Disk ρ) : Disk ρ := if f.cleanBackup then d else { d with backup := none }

/-- The upload is moved in; where that fails the database is moved back. -/
def moveIn : Act ρ Unit :=
  if f.moveIn then do
    attempt (fun _ => f.moveBack) .movingAndRestoring moveBackup
    throw .moving
  else modify moveTemp

/-- The upload is opened; where that fails the database is moved back, and opened again if
the import does that. -/
def openDB (reopens : Bool) : Act ρ Unit :=
  if f.init = .ok then modify (initDB p .ok)
  else do
    modify (initDB p f.init)
    attempt (fun _ => f.restore) .migratingAndRestoring moveBackup
    modify (if reopens then initDB p f.reinit else id)
    throw .migrating

/-- What the panel does to the new data. -/
def finishImport (d : Disk ρ) : Disk ρ :=
  { d with db := d.db.map fun file => { file with content :=
    { file.content with rest := p.finish file.content.rest } } }

/-- From the upload saved beside the database to the database moved away, and then `swap`. -/
def replace (swap : Act ρ Unit) : Act ρ Unit := do
  attempt (fun d => d.temp.present && f.removeTemp) .removingTemp fun d => { d with temp := .absent }
  attempt (fun _ => f.createTemp) .creatingTemp fun d => { d with temp := .unfinished }
  ensuring (do
    attempt (fun _ => f.copy) .savingDb fun d => { d with temp := .whole ⟨.imported, u.content, false⟩ }
    attempt (fun _ => f.closeTemp) .closingTemp id
    attempt (fun _ => f.openTemp || !u.sound) .invalidOrCorrupt id
    -- a failure to stop Xray or to close the database is logged
    modify (closeDB f.closeDB)
    attempt (fun d => d.backup.isSome && f.removeBackup) .removingFallback fun d => { d with backup := none }
    attempt (fun _ => f.backUp) .backingUp fun d => removeSidecars f (moveAway d)
    ensuring swap (cleanBackup f)) (cleanTemp f)

/-- A database of this panel. -/
def importDB : Act ρ Unit := do
  checkFormat f u
  replace f u do
    moveIn f
    openDB p f false
    modify (finishImport p)
    attempt (fun _ => f.restartXray) .startingXray id

/-- The settings that stay. -/
def preservedSettingKeys : List String :=
  ["webListen", "webDomain", "webPort", "webCertFile", "webKeyFile", "webBasePath", "subListen", "subDomain",
    "subPort", "subCertFile", "subKeyFile", "subPath", "subJsonPath", "subClashPath", "secret", "sessionMaxAge",
    "systemdServiceName", "radiusSecret", "vpnProvisioned", "provisionedProtocols"]

/-- The stored value, or else the built-in one; without the rows only the built-in ones. -/
def snapshotPreservedSettings (stored : String → Option String) (key : String) : Option String :=
  if key ∈ preservedSettingKeys then (if f.snapshot then none else stored key) <|> p.defaults key else none

/-- The settings with those of the snapshot written over them. -/
def restorePreservedSettings (preserved : String → Option String) (d : Disk ρ) : Disk ρ :=
  { d with db := d.db.map fun file => { file with content :=
      { file.content with settings := fun key => preserved key <|> file.content.settings key } } }

/-- A database of another panel. -/
def importForeignDB (activate : Bool) : Act ρ Unit := do
  checkFormat f u
  let preserved := snapshotPreservedSettings p f p.whole.settings
  replace f u do
    moveIn f
    openDB p f true
    attempt (fun _ => f.settings) .preservingSettings (restorePreservedSettings preserved)
    modify (finishImport p)
    attempt (fun _ => activate && f.restartXray) .startingXray id

end

/-- Which of the two. -/
inductive Kind where
  | restore
  | foreign (activate : Bool)

/-- One import. -/
def perform (kind : Kind) (p : Install ρ) (f : Faults) (u : Upload ρ) : Act ρ Unit :=
  match kind with
  | .restore => importDB p f u
  | .foreign activate => importForeignDB p f u activate

/-! ## The property and its condition -/

/-- The file with the transactions of the log beside it. -/
def Disk.read (d : Disk ρ) (file : File ρ) : Content ρ := (d.wal.map Wal.frames).getD id file.content

/-- The settings that are to survive have the values they had. -/
def Preserved (p : Install ρ) (settings : String → Option String) : Prop :=
  ∀ key ∈ preservedSettingKeys, ∀ v, (p.whole.settings key <|> p.defaults key) = some v → settings key = some v

/-- The imported database, migrated, with its own settings or those that are to survive. -/
structure Imported (kind : Kind) (p : Install ρ) (u : Upload ρ) (c : Content ρ) : Prop where
  rest : c.rest = (p.migrate u.content).rest ∨ c.rest = p.finish (p.migrate u.content).rest
  settings : match kind with
    | .restore => c.settings = (p.migrate u.content).settings
    | .foreign _ => Preserved p c.settings ∧
        ∀ key ∉ preservedSettingKeys, c.settings key = (p.migrate u.content).settings key

/-- At the path is the previous database or the imported one, whole, with no file of another
database beside it, and the panel has it open. -/
def Intact (kind : Kind) (p : Install ρ) (u : Upload ρ) (d : Disk ρ) : Prop :=
  ∃ file, d.db = some file ∧ d.handle = some file.owner ∧ (∀ w ∈ d.wal, w.owner = file.owner) ∧
    (∀ o ∈ d.shm, o = file.owner) ∧
    (file.owner = .previous ∧ d.read file = p.whole ∨
      file.owner = .imported ∧ file.ready = true ∧ Imported kind p u (d.read file))

section

variable (p : Install ρ) (f : Faults) (u : Upload ρ)

/-- The import stops before it closes the database. -/
def StopsEarly : Prop :=
  f.readSignature = true ∨ u.signature = false ∨ f.seek = true ∨ (p.tempLeft = true ∧ f.removeTemp = true) ∨
    f.createTemp = true ∨ f.copy = true ∨ f.closeTemp = true ∨ f.openTemp = true ∨ u.sound = false

/-- The files are moved. -/
def Swaps : Prop := ¬(p.backupLeft.isSome = true ∧ f.removeBackup = true) ∧ f.backUp = false ∧ f.moveIn = false

/-- No sidecar of the previous database stays where it was. -/
def SidecarsGone : Prop :=
  f.closeDB = false ∨ (p.wal = none ∨ f.removeWal = false) ∧ (p.shm = false ∨ f.removeShm = false)

/-- The settings are read and written back, or there is nothing to write back. -/
def SettingsKept : Prop :=
  (f.settings = true → Preserved p (p.migrate u.content).settings) ∧
    (f.settings = false → f.snapshot = true →
      Preserved p fun key => p.defaults key <|> (p.migrate u.content).settings key)

/-- Nothing that was committed is in a log that was removed. -/
def NothingLost : Prop :=
  f.closeDB = false ∨ f.removeWal = true ∨ p.whole = p.content

/-- The steps the import cannot do without. -/
def Safe (kind : Kind) : Prop :=
  StopsEarly p f u ∨ Swaps p f ∧
    match kind with
    | .restore => f.init = .ok ∧ SidecarsGone p f
    | .foreign _ => f.init = .ok ∧ SidecarsGone p f ∧ SettingsKept p f u ∨
        f.init = .notOpened ∧ f.restore = false ∧ f.reinit ≠ .notOpened ∧ NothingLost p f

end

/-! ## How an import goes -/

section

variable {kind : Kind} {p : Install ρ} {f : Faults} {u : Upload ρ}

theorem not_intact_of_handle {d : Disk ρ} (h : d.handle = none) : ¬Intact kind p u d := by
  rintro ⟨file, -, hhandle, -⟩
  rw [h] at hhandle
  cases hhandle

theorem intact_congr {d d' : Disk ρ} (hdb : d.db = d'.db) (hwal : d.wal = d'.wal) (hshm : d.shm = d'.shm)
    (hhandle : d.handle = d'.handle) : Intact kind p u d ↔ Intact kind p u d' := by
  unfold Intact Disk.read
  rw [hdb, hwal, hshm, hhandle]

theorem intact_cleanTemp (d : Disk ρ) : Intact kind p u (cleanTemp f d) ↔ Intact kind p u d := by
  unfold cleanTemp
  split
  · exact Iff.rfl
  · exact intact_congr rfl rfl rfl rfl

theorem intact_cleanBackup (d : Disk ρ) : Intact kind p u (cleanBackup f d) ↔ Intact kind p u d := by
  unfold cleanBackup
  split
  · exact Iff.rfl
  · exact intact_congr rfl rfl rfl rfl

/-- Until it is closed the database is as it was. -/
theorem intact_start (temp : Temp ρ) : Intact kind p u { p.start with temp := temp } := by
  refine ⟨⟨.previous, p.content, true⟩, rfl, rfl, ?_, ?_, .inl ⟨rfl, ?_⟩⟩
  · intro w hw
    obtain ⟨frames, -, rfl⟩ := Option.map_eq_some_iff.1 hw
    rfl
  · intro o ho
    unfold Install.start at ho
    simp only at ho
    split at ho
    · exact (Option.some.inj ho).symm
    · cases ho
  · show ((p.wal.map _).map _).getD id p.content = p.wal.getD id p.content
    cases p.wal <;> rfl

/-- The files when the upload is about to be moved in. -/
def away (p : Install ρ) (f : Faults) (u : Upload ρ) : Disk ρ where
  db := none
  wal := if f.closeDB && f.removeWal then p.wal.map fun frames => ⟨.previous, frames⟩ else none
  shm := if f.closeDB && f.removeShm && p.shm then some .previous else none
  temp := .whole ⟨.imported, u.content, false⟩
  backup := some ⟨.previous, if f.closeDB then p.content else p.whole, true⟩
  handle := none

/-- What is left of the import when the database has been moved away. -/
def swapOf (kind : Kind) (p : Install ρ) (f : Faults) : Act ρ Unit :=
  match kind with
  | .restore => do
      moveIn f
      openDB p f false
      modify (finishImport p)
      attempt (fun _ => f.restartXray) .startingXray id
  | .foreign activate => do
      moveIn f
      openDB p f true
      attempt (fun _ => f.settings) .preservingSettings
        (restorePreservedSettings (snapshotPreservedSettings p f p.whole.settings))
      modify (finishImport p)
      attempt (fun _ => activate && f.restartXray) .startingXray id

theorem perform_eq (kind : Kind) (p : Install ρ) (f : Faults) (u : Upload ρ) :
    perform kind p f u = checkFormat f u >>= fun _ => replace f u (swapOf kind p f) := by
  cases kind <;> rfl

/-- The database is closed. -/
def closed (p : Install ρ) (f : Faults) (u : Upload ρ) : Disk ρ :=
  closeDB f.closeDB { p.start with temp := .whole ⟨.imported, u.content, false⟩ }

theorem away_eq : removeSidecars f (moveAway { closed p f u with backup := none }) = away p f u := by
  have hwhole : ((p.wal.map fun frames => (⟨.previous, frames⟩ : Wal ρ)).map Wal.frames).getD id p.content =
      p.whole := by
    unfold Install.whole
    cases p.wal <;> rfl
  unfold removeSidecars moveAway closed closeDB away Install.start
  cases f.closeDB with
  | false =>
      simp only [Bool.false_eq_true, if_false, Option.map_some, hwhole, Bool.false_and, ite_self]
  | true =>
      simp only [if_true, Bool.true_and]
      cases f.removeShm <;> cases p.shm <;> rfl

theorem closed_handle : (closed p f u).handle = none := by
  unfold closed closeDB
  split <;> rfl

theorem closed_backup : (closed p f u).backup.isSome = p.backupLeft.isSome := by
  unfold closed closeDB Install.start
  split <;> exact Option.isSome_map

theorem start_temp_present : p.start.temp.present = p.tempLeft := by
  unfold Install.start
  cases p.tempLeft <;> rfl

/-- An import that stops early has done nothing to the database, and one that does not has to
get through to where the database is moved away. -/
theorem intact_perform (kind : Kind) (p : Install ρ) (f : Faults) (u : Upload ρ) :
    Intact kind p u (after (perform kind p f u) p.start) ↔
      StopsEarly p f u ∨ ¬(p.backupLeft.isSome = true ∧ f.removeBackup = true) ∧ f.backUp = false ∧
        Intact kind p u (after (swapOf kind p f) (away p f u)) := by
  have hstop : ∀ {R : Prop}, StopsEarly p f u → ∀ temp,
      (Intact kind p u { p.start with temp := temp } ↔ StopsEarly p f u ∨ R) :=
    fun h temp => iff_of_true (intact_start temp) (.inl h)
  rw [perform_eq]
  unfold checkFormat replace
  simp only [bind_assoc, after_attempt_bind, after_ensuring, after_modify_bind, id_eq]
  by_cases hsignature : f.readSignature = true
  · rw [if_pos hsignature]
    exact hstop (.inl hsignature) p.start.temp
  rw [if_neg hsignature]
  by_cases hmagic : (!u.signature) = true
  · rw [if_pos hmagic]
    exact hstop (.inr (.inl (by simpa using hmagic))) p.start.temp
  rw [if_neg hmagic]
  by_cases hseek : f.seek = true
  · rw [if_pos hseek]
    exact hstop (.inr (.inr (.inl hseek))) p.start.temp
  rw [if_neg hseek]
  by_cases htemp : (p.start.temp.present && f.removeTemp) = true
  · rw [if_pos htemp]
    rw [start_temp_present, Bool.and_eq_true] at htemp
    exact hstop (.inr (.inr (.inr (.inl htemp)))) p.start.temp
  rw [if_neg htemp]
  by_cases hcreate : f.createTemp = true
  · rw [if_pos hcreate]
    exact hstop (.inr (.inr (.inr (.inr (.inl hcreate))))) .absent
  rw [if_neg hcreate, intact_cleanTemp]
  by_cases hcopy : f.copy = true
  · rw [if_pos hcopy]
    exact hstop (.inr (.inr (.inr (.inr (.inr (.inl hcopy)))))) .unfinished
  rw [if_neg hcopy]
  by_cases hclose : f.closeTemp = true
  · rw [if_pos hclose]
    exact hstop (.inr (.inr (.inr (.inr (.inr (.inr (.inl hclose))))))) _
  rw [if_neg hclose]
  by_cases hvalid : (f.openTemp || !u.sound) = true
  · rw [if_pos hvalid]
    rw [Bool.or_eq_true, Bool.not_eq_true'] at hvalid
    exact hstop (.inr (.inr (.inr (.inr (.inr (.inr (.inr hvalid))))))) _
  rw [if_neg hvalid]
  have hgoes : ¬StopsEarly p f u := by
    rw [start_temp_present, Bool.and_eq_true] at htemp
    rw [Bool.or_eq_true, Bool.not_eq_true', not_or] at hvalid
    rw [Bool.not_eq_true'] at hmagic
    rintro (h | h | h | h | h | h | h | h | h)
    exacts [hsignature h, hmagic h, hseek h, htemp h, hcreate h, hcopy h, hclose h, hvalid.1 h, hvalid.2 h]
  rw [or_iff_right hgoes]
  show Intact kind p u (if ((closed p f u).backup.isSome && f.removeBackup) = true then closed p f u
    else if f.backUp = true then { closed p f u with backup := none }
    else cleanBackup f (after (swapOf kind p f) (removeSidecars f (moveAway { closed p f u with backup := none })))) ↔ _
  rw [away_eq, closed_backup]
  by_cases hbackup : p.backupLeft.isSome = true ∧ f.removeBackup = true
  · rw [if_pos ((Bool.and_eq_true _ _).symm ▸ hbackup)]
    exact iff_of_false (not_intact_of_handle closed_handle) fun h => h.1 hbackup
  rw [if_neg fun h => hbackup ((Bool.and_eq_true _ _) ▸ h)]
  by_cases hback : f.backUp = true
  · rw [if_pos hback]
    refine iff_of_false (not_intact_of_handle closed_handle) fun h => ?_
    rw [hback] at h
    cases h.2.1
  rw [if_neg hback, intact_cleanBackup]
  exact ⟨fun h => ⟨hbackup, Bool.eq_false_iff.2 hback, h⟩, fun h => h.2.2⟩

/-! ## Moving the upload in -/

/-- The upload is in its place. -/
def movedIn (p : Install ρ) (f : Faults) (u : Upload ρ) : Disk ρ := moveTemp (away p f u)

/-- Where the upload is not moved in the database is never opened again. -/
theorem after_moveIn_bind (g : Unit → Act ρ Unit) :
    f.moveIn = false ∧ after (moveIn f >>= g) (away p f u) = after (g ()) (movedIn p f u) ∨
      f.moveIn = true ∧ (after (moveIn f >>= g) (away p f u)).handle = none := by
  unfold moveIn
  cases f.moveIn with
  | false => exact .inl ⟨rfl, rfl⟩
  | true =>
      refine .inr ⟨rfl, ?_⟩
      rw [if_pos rfl, bind_assoc, after_attempt_bind]
      split <;> rfl

/-- The upload has been opened and migrated. -/
def opened (p : Install ρ) (f : Faults) (u : Upload ρ) : Disk ρ := initDB p .ok (movedIn p f u)

/-- The database is back in its place after the upload could not be opened. -/
def putBack (p : Install ρ) (f : Faults) (u : Upload ρ) : Disk ρ := moveBackup (initDB p f.init (movedIn p f u))

theorem after_openDB_bind (reopens : Bool) (g : Unit → Act ρ Unit) :
    after (openDB p f reopens >>= g) (movedIn p f u) =
      if f.init = .ok then after (g ()) (opened p f u)
      else if f.restore = true then initDB p f.init (movedIn p f u)
      else if reopens then initDB p f.reinit (putBack p f u) else putBack p f u := by
  unfold openDB
  by_cases hinit : f.init = .ok
  · rw [if_pos hinit, if_pos hinit]
    rfl
  · rw [if_neg hinit, if_neg hinit, bind_assoc, after_modify_bind, bind_assoc, after_attempt_bind]
    split
    · rfl
    · cases reopens <;> rfl

/-- A database that was not migrated is not whole. -/
theorem not_intact_unopened (hinit : f.init ≠ .ok) : ¬Intact kind p u (initDB p f.init (movedIn p f u)) := by
  rintro ⟨file, hdb, -, -, -, h⟩
  have hfile : file = ⟨.imported, u.content, false⟩ := by
    cases hi : f.init with
    | ok => exact absurd hi hinit
    | notOpened =>
        rw [hi] at hdb
        exact (Option.some.inj hdb).symm
    | halfway =>
        rw [hi] at hdb
        exact (Option.some.inj hdb).symm
  subst hfile
  rcases h with ⟨h, -⟩ | ⟨-, h, -⟩ <;> cases h

/-- The handle is not that of the database that is put back. -/
theorem not_intact_putBack : ¬Intact kind p u (putBack p f u) := by
  rintro ⟨file, hdb, hhandle, -⟩
  have hfile : file.owner = .previous := by
    unfold putBack moveBackup at hdb
    cases hi : f.init <;> rw [hi] at hdb <;> rw [← Option.some.inj hdb]
  unfold putBack moveBackup at hhandle
  rw [hfile] at hhandle
  cases hi : f.init <;> rw [hi] at hhandle <;> cases hhandle

/-- A sidecar of the previous database is not one of the imported database alone. -/
theorem joined_imported_iff {old : Option Owner} (hold : ∀ o ∈ old, o = .previous) :
    Owner.imported.joined old = .imported ↔ old = none := by
  cases old with
  | none => exact iff_of_true rfl rfl
  | some o =>
      obtain rfl := hold o rfl
      exact iff_of_false (by decide) (Option.some_ne_none _)

theorem joined_previous {old : Option Owner} (hold : ∀ o ∈ old, o = .previous) :
    Owner.previous.joined old = .previous := by
  cases old with
  | none => rfl
  | some o =>
      obtain rfl := hold o rfl
      rfl

theorem away_wal_owner : ∀ o ∈ (away p f u).wal.map Wal.owner, o = .previous := by
  intro o ho
  obtain ⟨w, hw, rfl⟩ := Option.map_eq_some_iff.1 ho
  unfold away at hw
  simp only at hw
  split at hw
  · obtain ⟨frames, -, rfl⟩ := Option.map_eq_some_iff.1 hw
    rfl
  · cases hw

theorem away_shm_owner : ∀ o ∈ (away p f u).shm, o = .previous := by
  intro o ho
  unfold away at ho
  simp only at ho
  split at ho
  · exact (Option.some.inj ho).symm
  · cases ho

/-- No sidecar is there when the upload is moved in. -/
theorem sidecarsGone_iff : SidecarsGone p f ↔ (away p f u).wal = none ∧ (away p f u).shm = none := by
  unfold SidecarsGone away
  cases f.closeDB <;> cases f.removeWal <;> cases f.removeShm <;> cases p.wal <;> cases p.shm <;> simp

/-- The imported database once it is opened is whole if it is alone and its rows are right. -/
theorem intact_imported {d : Disk ρ} {c : Content ρ} (hdb : d.db = some ⟨.imported, c, true⟩)
    (hwal : d.wal = (opened p f u).wal) (hshm : d.shm = (opened p f u).shm) (hhandle : d.handle = some .imported) :
    Intact kind p u d ↔ SidecarsGone p f ∧ Imported kind p u c := by
  have hw : (∀ w ∈ d.wal, w.owner = .imported) ↔ (away p f u).wal = none := by
    rw [hwal, ← Option.map_eq_none_iff (f := Wal.owner), ← joined_imported_iff away_wal_owner]
    constructor
    · intro h
      exact h _ rfl
    · rintro h w ⟨⟩
      exact h
  have hs : (∀ o ∈ d.shm, o = .imported) ↔ (away p f u).shm = none := by
    rw [hshm, ← joined_imported_iff away_shm_owner]
    constructor
    · intro h
      exact h _ rfl
    · rintro h w ⟨⟩
      exact h
  have hread : (away p f u).wal = none → ∀ file, d.read file = file.content := by
    intro hnone file
    unfold Disk.read
    rw [hwal]
    show (((away p f u).wal.map Wal.frames).getD id) file.content = _
    rw [hnone]
    rfl
  rw [sidecarsGone_iff (u := u), ← hw, ← hs]
  constructor
  · rintro ⟨file, hfile, -, hwals, hshms, h⟩
    obtain rfl := Option.some.inj (hdb.symm.trans hfile)
    rcases h with ⟨h, -⟩ | ⟨-, -, h⟩
    · cases h
    · rw [hread (hw.1 hwals)] at h
      exact ⟨⟨hwals, hshms⟩, h⟩
  · rintro ⟨⟨hwals, hshms⟩, h⟩
    refine ⟨_, hdb, hhandle, hwals, hshms, .inr ⟨rfl, rfl, ?_⟩⟩
    rw [hread (hw.1 hwals)]
    exact h

theorem joined_imported_ne (old : Option Owner) : Owner.imported.joined old ≠ .previous := by
  cases old with
  | none => decide
  | some o =>
      unfold Owner.joined
      simp only
      split <;> decide

theorem joined_previous_ne {o : Owner} (ho : o ≠ .previous) : Owner.previous.joined (some o) ≠ .previous := by
  unfold Owner.joined
  simp only [if_neg ho]
  decide

/-- The previous database with the log that stayed beside it. -/
theorem read_whole_iff :
    ((away p f u).wal.map Wal.frames).getD id (if f.closeDB then p.content else p.whole) = p.whole ↔
      NothingLost p f := by
  unfold away NothingLost
  cases f.closeDB with
  | false => simp
  | true =>
      cases f.removeWal with
      | false => simp [eq_comm]
      | true =>
          unfold Install.whole
          cases p.wal <;> simp

/-- The previous database that is opened again is whole if nothing was opened in between and
its log was not lost. -/
theorem intact_reopened (hinit : f.init ≠ .ok) :
    Intact kind p u (initDB p f.reinit (putBack p f u)) ↔
      f.init = .notOpened ∧ f.reinit ≠ .notOpened ∧ NothingLost p f := by
  have hdb : (initDB p f.reinit (putBack p f u)).db =
      some ⟨.previous, if f.closeDB then p.content else p.whole, true⟩ := by
    unfold putBack
    cases f.init <;> cases f.reinit <;> rfl
  cases hi : f.init with
  | ok => exact absurd hi hinit
  | halfway =>
      -- the imported database has written to the sidecars
      refine iff_of_false ?_ fun h => by cases h.1
      rintro ⟨file, hfile, -, hwals, -⟩
      obtain rfl := Option.some.inj (hdb.symm.trans hfile)
      unfold putBack at hwals
      rw [hi] at hwals
      cases hr : f.reinit with
      | notOpened =>
          rw [hr] at hwals
          exact joined_imported_ne _ (hwals _ rfl)
      | ok =>
          rw [hr] at hwals
          exact joined_previous_ne (joined_imported_ne _) (hwals _ rfl)
      | halfway =>
          rw [hr] at hwals
          exact joined_previous_ne (joined_imported_ne _) (hwals _ rfl)
  | notOpened =>
      by_cases hr : f.reinit = .notOpened
      · refine iff_of_false (not_intact_of_handle ?_) fun h => h.2.1 hr
        rw [hr]
        rfl
      · have hwal : (initDB p f.reinit (putBack p f u)).wal =
            some ⟨.previous, ((away p f u).wal.map Wal.frames).getD id⟩ := by
          rw [← joined_previous (away_wal_owner (p := p) (f := f) (u := u))]
          unfold putBack
          rw [hi]
          cases hr' : f.reinit <;> first | rfl | exact absurd hr' hr
        have hshm : (initDB p f.reinit (putBack p f u)).shm = some .previous := by
          rw [← joined_previous (away_shm_owner (p := p) (f := f) (u := u))]
          unfold putBack
          rw [hi]
          cases hr' : f.reinit <;> first | rfl | exact absurd hr' hr
        have hhandle : (initDB p f.reinit (putBack p f u)).handle = some .previous := by
          unfold putBack
          rw [hi]
          cases hr' : f.reinit <;> first | rfl | exact absurd hr' hr
        rw [← read_whole_iff (u := u)]
        constructor
        · rintro ⟨file, hfile, -, -, -, h⟩
          obtain rfl := Option.some.inj (hdb.symm.trans hfile)
          rcases h with ⟨-, h⟩ | ⟨h, -⟩
          · rw [Disk.read, hwal] at h
            exact ⟨rfl, hr, h⟩
          · cases h
        · rintro ⟨-, -, h⟩
          refine ⟨_, hdb, hhandle, ?_, ?_, .inl ⟨rfl, ?_⟩⟩
          · rw [hwal]
            rintro w ⟨⟩
            rfl
          · rw [hshm]
            rintro o ⟨⟩
            rfl
          · rw [Disk.read, hwal]
            exact h

/-! ## The settings -/

/-- What is in the imported database after the snapshot has been written over it. -/
theorem imported_restored (activate : Bool) :
    Imported (.foreign activate) p u
        ⟨fun key => snapshotPreservedSettings p f p.whole.settings key <|> (p.migrate u.content).settings key,
          p.finish (p.migrate u.content).rest⟩ ↔
      (f.snapshot = true → Preserved p fun key => p.defaults key <|> (p.migrate u.content).settings key) := by
  have hothers : ∀ key ∉ preservedSettingKeys,
      (snapshotPreservedSettings p f p.whole.settings key <|> (p.migrate u.content).settings key) =
        (p.migrate u.content).settings key := by
    intro key hkey
    rw [snapshotPreservedSettings, if_neg hkey]
    rfl
  have hpreserved : Preserved p (fun key =>
      snapshotPreservedSettings p f p.whole.settings key <|> (p.migrate u.content).settings key) ↔
      (f.snapshot = true → Preserved p fun key => p.defaults key <|> (p.migrate u.content).settings key) := by
    unfold Preserved
    cases hsnap : f.snapshot with
    | false =>
        refine iff_of_true ?_ fun h => by cases h
        intro key hkey v hv
        show (snapshotPreservedSettings p f p.whole.settings key <|> _) = some v
        rw [snapshotPreservedSettings, if_pos hkey, hsnap, if_neg Bool.false_ne_true, hv]
        rfl
    | true =>
        refine ⟨fun h _ key hkey v hv => ?_, fun h key hkey v hv => ?_⟩
        · have hkept : (snapshotPreservedSettings p f p.whole.settings key <|> _) = some v := h key hkey v hv
          rw [snapshotPreservedSettings, if_pos hkey, hsnap, if_pos rfl] at hkept
          exact hkept
        · show (snapshotPreservedSettings p f p.whole.settings key <|> _) = some v
          rw [snapshotPreservedSettings, if_pos hkey, hsnap, if_pos rfl]
          exact h rfl key hkey v hv
  rw [← hpreserved]
  exact ⟨fun h => h.settings.1, fun h => ⟨.inr rfl, h, hothers⟩⟩

/-! ## The two imports -/

/-- An import that cannot move the upload in leaves the panel without a handle. -/
theorem intact_moveIn_bind (g : Unit → Act ρ Unit) :
    Intact kind p u (after (moveIn f >>= g) (away p f u)) ↔
      f.moveIn = false ∧ Intact kind p u (after (g ()) (movedIn p f u)) := by
  obtain ⟨hmoved, hafter⟩ | ⟨hfails, hnone⟩ := after_moveIn_bind (p := p) (f := f) (u := u) g
  · rw [hafter, and_iff_right hmoved]
  · refine iff_of_false (not_intact_of_handle hnone) fun h => ?_
    rw [hfails] at h
    cases h.1

/-- From the database moved away on, in `ImportDB`. -/
theorem intact_swap_restore :
    Intact .restore p u (after (swapOf .restore p f) (away p f u)) ↔
      f.moveIn = false ∧ f.init = .ok ∧ SidecarsGone p f := by
  show Intact .restore p u (after (moveIn f >>= _) _) ↔ _
  rw [intact_moveIn_bind, after_openDB_bind]
  refine and_congr_right fun _ => ?_
  by_cases hinit : f.init = .ok
  · rw [if_pos hinit, and_iff_right hinit, after_modify_bind, after_attempt_id]
    have hdone := @intact_imported _ .restore p f u (finishImport p (opened p f u)) _
      rfl rfl rfl rfl
    exact hdone.trans (and_iff_left ⟨.inr rfl, rfl⟩)
  · rw [if_neg hinit]
    refine iff_of_false ?_ fun h => hinit h.1
    split
    · exact not_intact_unopened hinit
    · exact not_intact_putBack

/-- The imported database in `ImportForeignDB`, once it is opened. -/
theorem intact_settings (activate : Bool) (g : Unit → Act ρ Unit)
    (hg : ∀ d, after (g ()) d = finishImport p d) :
    Intact (.foreign activate) p u (after (attempt (fun _ => f.settings) .preservingSettings
        (restorePreservedSettings (snapshotPreservedSettings p f p.whole.settings)) >>= g) (opened p f u)) ↔
      SidecarsGone p f ∧ SettingsKept p f u := by
  rw [after_attempt_bind]
  unfold SettingsKept
  cases hset : f.settings with
  | true =>
      have hdone := @intact_imported _ (.foreign activate) p f u (opened p f u) _ rfl rfl rfl rfl
      rw [if_pos rfl]
      refine hdone.trans (and_congr_right fun _ => ?_)
      constructor
      · intro h
        exact ⟨fun _ => h.settings.1, fun h' => by cases h'⟩
      · intro h
        exact ⟨.inl rfl, h.1 rfl, fun _ _ => rfl⟩
  | false =>
      have hdone := @intact_imported _ (.foreign activate) p f u
        (finishImport p
          (restorePreservedSettings (snapshotPreservedSettings p f p.whole.settings) (opened p f u))) _
        rfl rfl rfl rfl
      rw [if_neg Bool.false_ne_true, hg]
      refine hdone.trans (and_congr_right fun _ => (imported_restored activate).trans ?_)
      constructor
      · intro h
        exact ⟨fun h' => absurd h' Bool.false_ne_true, fun _ => h⟩
      · intro h
        exact h.2 rfl

/-- From the database moved away on, in `ImportForeignDB`. -/
theorem intact_swap_foreign (activate : Bool) :
    Intact (.foreign activate) p u (after (swapOf (.foreign activate) p f) (away p f u)) ↔
      f.moveIn = false ∧ (f.init = .ok ∧ SidecarsGone p f ∧ SettingsKept p f u ∨
        f.init = .notOpened ∧ f.restore = false ∧ f.reinit ≠ .notOpened ∧ NothingLost p f) := by
  show Intact (.foreign activate) p u (after (moveIn f >>= _) _) ↔ _
  rw [intact_moveIn_bind, after_openDB_bind]
  refine and_congr_right fun _ => ?_
  by_cases hinit : f.init = .ok
  · have hno : ¬(f.init = .notOpened ∧ f.restore = false ∧ f.reinit ≠ .notOpened ∧ NothingLost p f) := by
      rw [hinit]
      exact fun h => by cases h.1
    rw [if_pos hinit, and_iff_right hinit, or_iff_left hno]
    refine intact_settings activate _ fun d => ?_
    rw [after_modify_bind, after_attempt_id]
  · have hno : ¬(f.init = .ok ∧ SidecarsGone p f ∧ SettingsKept p f u) := fun h => hinit h.1
    rw [if_neg hinit, or_iff_right hno]
    by_cases hrestore : f.restore = true
    · rw [if_pos hrestore]
      refine iff_of_false (not_intact_unopened hinit) fun h => ?_
      rw [hrestore] at h
      cases h.2.1
    · rw [if_neg hrestore, if_pos rfl, intact_reopened hinit, Bool.eq_false_iff.2 hrestore]
      exact and_congr_right fun _ => (and_iff_right rfl).symm

end

/-- After an import the database is whole and open exactly when the import stops before the
database is closed, or every step it cannot do without from there on goes through. -/
theorem intact_iff (kind : Kind) (p : Install ρ) (f : Faults) (u : Upload ρ) :
    Intact kind p u (after (perform kind p f u) p.start) ↔ Safe p f u kind := by
  rw [intact_perform]
  unfold Safe Swaps
  refine or_congr_right ?_
  rw [and_assoc, and_assoc]
  refine and_congr_right fun _ => and_congr_right fun _ => ?_
  cases kind with
  | restore => exact intact_swap_restore
  | foreign activate => exact intact_swap_foreign activate

/-- A panel with one row, and an upload with another. -/
def smallInstall : Install ℕ where
  content := ⟨fun _ => none, 1⟩
  wal := none
  shm := false
  tempLeft := false
  backupLeft := none
  defaults _ := none
  migrate := id
  finish := id

def smallUpload : Upload ℕ where
  signature := true
  sound := true
  content := ⟨fun _ => none, 2⟩

/-- The upload cannot be moved in and the database cannot be moved back: the clean-up removes
the database, and nothing is left at the path. -/
theorem only_copy_deleted :
    ¬Intact .restore smallInstall smallUpload
      (after (perform .restore smallInstall { moveIn := true, moveBack := true } smallUpload) smallInstall.start) ∧
    (after (perform .restore smallInstall { moveIn := true, moveBack := true } smallUpload)
      smallInstall.start).db.isNone = true ∧
    (after (perform .restore smallInstall { moveIn := true, moveBack := true } smallUpload)
      smallInstall.start).backup.isNone = true := by
  refine ⟨?_, by decide +kernel, by decide +kernel⟩
  rintro ⟨file, hdb, -⟩
  cases hdb

end Simorgh.Panel.Import
