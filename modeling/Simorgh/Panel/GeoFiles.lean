import Mathlib.Data.List.Nodup
import Mathlib.Logic.Function.Basic
import Simorgh.Lib.Run

/-!
# Custom geo resources and their files

Each custom geo resource is a row of the database and a file in the folder of the binaries.
`Create`, `Update` and `Delete` change the two one after the other, with a download from the
network in between, and any of these steps may fail.

* `downloadToPath`, `create`, `update`, `delete` — the code.
* `Sound` — every row has its file, downloaded from the row's URL, and no two share a path.
* `Kept` — a call leaves a sound store sound, and an error leaves the rows and the files of the
  other resources alone.
* `CallOk` — none of the branches that go wrong is taken: a file of another URL that is kept as
  not modified, a failure after the old file is gone or replaced, and a count of the database
  that fails on a name that is taken.
* `kept_iff_callOk` — a call from a sound store keeps it exactly when that is so.
* `geo_files_kept_iff` — along whole runs.
-/

namespace Simorgh.Panel.GeoFiles

open Simorgh.Lib

/-! ## Rows and files -/

/-- The two kinds of files. -/
inductive GeoType where
  | geosite
  | geoip
  deriving DecidableEq

/-- The file of a source. -/
def fileNameFor (typ : GeoType) (geoAlias : String) : String :=
  match typ with
  | .geoip => "geoip_" ++ geoAlias ++ ".dat"
  | .geosite => "geosite_" ++ geoAlias ++ ".dat"

/-- A row as `Create` and `Update` write it: its path is that of its type and alias. -/
structure Row where
  id : ℕ
  geoType : GeoType
  geoAlias : String
  url : String
  localPath : String
  synced : localPath = fileNameFor geoType geoAlias
  deriving DecidableEq

/-- What the unique index is on. -/
def Row.name (r : Row) : GeoType × String := (r.geoType, r.geoAlias)

/-- A file: its size, and the URL its content was downloaded from. -/
structure File where
  size : ℕ
  source : String
  deriving DecidableEq

/-- The folder of the binaries. -/
abbrev Files := String → Option File

/-- A shorter file is broken. -/
def minDatBytes : ℕ := 64

/-- The rows under their two unique indexes, and the files. -/
structure Store where
  /-- the greatest id there has been -/
  seq : ℕ
  rows : List Row
  files : Files
  ids_le : ∀ r ∈ rows, r.id ≤ seq
  ids : (rows.map Row.id).Nodup
  names : (rows.map Row.name).Nodup

/-- The errors of the service. -/
inductive GeoError where
  | invalidType
  | aliasRequired
  | aliasPattern
  | aliasReserved
  | url
  | duplicateAlias
  | notFound
  | download
  | database
  deriving DecidableEq

/-! ## What a call meets -/

/-- What comes of a request: nothing that can be used, or an answer. -/
inductive Reply where
  | failed
  | notModified
  | ok (size : ℕ)
  deriving DecidableEq

/-- What becomes of the URL, the answers to the two requests there can be, and which statements
of the database fail. -/
structure World where
  sanitizeURL : String → Option String := some
  first : Reply
  second : Reply := .failed
  readFails : Bool := false
  countFails : Bool := false
  writeFails : Bool := false

/-- A posted source. -/
structure Form where
  geoType : String
  geoAlias : String
  url : String

/-! ## Checks of the form -/

/-- How aliases are compared. -/
def normalizeAliasKey (geoAlias : String) : String :=
  (geoAlias.map fun c => if c = '-' then '_' else c).toLower

/-- The aliases of the built-in files. -/
def reservedCustomAliases : List String :=
  ["geoip", "geosite", "geoip_ir", "geosite_ir", "geoip_ru", "geosite_ru"]

/-- The kind, if there is one. -/
def validateType (typ : String) : Except GeoError GeoType :=
  if typ = "geosite" then .ok .geosite
  else if typ = "geoip" then .ok .geoip
  else .error .invalidType

/-- A character of `customGeoAliasPattern`. -/
def aliasChar (c : Char) : Bool :=
  ('a' ≤ c && c ≤ 'z') || ('0' ≤ c && c ≤ '9') || c == '_' || c == '-'

/-- The checks of an alias. -/
def validateAlias (geoAlias : String) : Except GeoError Unit :=
  if geoAlias = "" then .error .aliasRequired
  else if ¬ geoAlias.toList.all aliasChar then .error .aliasPattern
  else if normalizeAliasKey geoAlias ∈ reservedCustomAliases then .error .aliasReserved
  else .ok ()

/-- The checks `Create` and `Update` begin with: the type, and the URL they go on with. -/
def validate (w : World) (f : Form) : Except GeoError (GeoType × String) :=
  match validateType f.geoType with
  | .error e => .error e
  | .ok typ =>
      match validateAlias f.geoAlias with
      | .error e => .error e
      | .ok _ =>
          match w.sanitizeURL f.url with
          | none => .error .url
          | some url => .ok (typ, url)

/-! ## Downloads -/

/-- The file is missing or too short. -/
def localDatFileNeedsRepair (files : Files) (path : String) : Bool :=
  match files path with
  | none => true
  | some f => decide (f.size < minDatBytes)

/-- The file is removed. -/
def removeSafePathIfExists (files : Files) (path : String) : Files :=
  Function.update files path none

/-- One download: the files, and whether it was skipped.  What is too small is removed again. -/
def downloadToPathOnce (files : Files) (url path : String) (forceFull : Bool) (reply : Reply) :
    Files × Option Bool :=
  match reply with
  | .failed => (files, none)
  | .notModified => if forceFull then (files, none) else (files, some true)
  | .ok n =>
      let created := Function.update files (path ++ ".tmp") (some ⟨n, url⟩)
      if n < minDatBytes then (removeSafePathIfExists created (path ++ ".tmp"), none)
      else
        let renamed := Function.update created path (some ⟨n, url⟩)
        (removeSafePathIfExists renamed (path ++ ".tmp"), some false)

/-- A file that is said not to be modified and is broken is asked for once more. -/
def downloadToPath (w : World) (files : Files) (url path : String) : Files × Option Bool :=
  let once := downloadToPathOnce files url path false w.first
  if once.2 = some true then
    if !localDatFileNeedsRepair once.1 path then once
    else downloadToPathOnce once.1 url path true w.second
  else once

/-! ## The service -/

/-- The same rows over other files. -/
def Store.withFiles (s : Store) (files : Files) : Store := { s with files := files }

/-- A row has the name, and has not the id. -/
def Store.takenElse (s : Store) (id : ℕ) (name : GeoType × String) : Prop :=
  ∃ r ∈ s.rows, r.name = name ∧ r.id ≠ id

instance (s : Store) (id : ℕ) (name : GeoType × String) : Decidable (s.takenElse id name) :=
  inferInstanceAs (Decidable (∃ r ∈ s.rows, r.name = name ∧ r.id ≠ id))

/-- Where the file of a row is. -/
def resolveDestPath (r : Row) : String :=
  if r.localPath ≠ "" then r.localPath else fileNameFor r.geoType r.geoAlias

/-- The insert, for which the database picks the id: the unique index refuses a name there is. -/
def Store.insert (s : Store) (typ : GeoType) (geoAlias url : String) : Option Store :=
  if h : (typ, geoAlias) ∈ s.rows.map Row.name then none
  else
    some
      { seq := s.seq + 1
        rows := s.rows ++ [⟨s.seq + 1, typ, geoAlias, url, fileNameFor typ geoAlias, rfl⟩]
        files := s.files
        ids_le := by
          intro r hr
          rcases List.mem_append.1 hr with hr | hr
          · exact Nat.le_succ_of_le (s.ids_le r hr)
          · exact Nat.le_of_eq (congrArg Row.id (List.mem_singleton.1 hr))
        ids := by
          have hfresh : s.seq + 1 ∉ s.rows.map Row.id := by
            intro hmem
            obtain ⟨r, hr, hid⟩ := List.mem_map.1 hmem
            have := s.ids_le r hr
            omega
          rw [List.map_append, List.map_singleton]
          exact s.ids.append (List.nodup_singleton _) (List.disjoint_singleton.2 hfresh)
        names := by
          rw [List.map_append, List.map_singleton]
          exact s.names.append (List.nodup_singleton _) (List.disjoint_singleton.2 h) }

theorem Store.insert_of_free (s : Store) {typ : GeoType} {geoAlias : String} (url : String)
    (h : (typ, geoAlias) ∉ s.rows.map Row.name) :
    ∃ s', s.insert typ geoAlias url = some s' ∧ s'.files = s.files ∧
      s'.rows = s.rows ++ [⟨s.seq + 1, typ, geoAlias, url, fileNameFor typ geoAlias, rfl⟩] := by
  rw [Store.insert, dif_neg h]
  exact ⟨_, rfl, rfl, rfl⟩

/-- The row of an id as `Updates` leaves it. -/
def Row.updates (id : ℕ) (typ : GeoType) (geoAlias url : String) (r : Row) : Row :=
  if r.id = id then ⟨r.id, typ, geoAlias, url, fileNameFor typ geoAlias, rfl⟩ else r

@[simp] theorem Row.updates_id (id : ℕ) (typ : GeoType) (geoAlias url : String) (r : Row) :
    (r.updates id typ geoAlias url).id = r.id := by
  unfold Row.updates
  split <;> rfl

/-- Two rows of one store with the same id are the same. -/
theorem Store.eq_of_id (s : Store) {r r' : Row} (hr : r ∈ s.rows) (hr' : r' ∈ s.rows)
    (h : r.id = r'.id) : r = r' :=
  List.inj_on_of_nodup_map s.ids hr hr' h

theorem Store.eq_of_name (s : Store) {r r' : Row} (hr : r ∈ s.rows) (hr' : r' ∈ s.rows)
    (h : r.name = r'.name) : r = r' :=
  List.inj_on_of_nodup_map s.names hr hr' h

/-- The update of a row: the unique index refuses a name another row has. -/
def Store.updates (s : Store) (id : ℕ) (typ : GeoType) (geoAlias url : String) : Option Store :=
  if h : s.takenElse id (typ, geoAlias) then none
  else
    some
      { seq := s.seq
        rows := s.rows.map (Row.updates id typ geoAlias url)
        files := s.files
        ids_le := by
          intro r hr
          obtain ⟨r, hmem, rfl⟩ := List.mem_map.1 hr
          rw [Row.updates_id]
          exact s.ids_le r hmem
        ids := by
          have hids : Row.id ∘ Row.updates id typ geoAlias url = Row.id :=
            funext (Row.updates_id id typ geoAlias url)
          rw [List.map_map, hids]
          exact s.ids
        names := by
          rw [List.map_map]
          refine List.Nodup.map_on ?_ (s.ids.of_map _)
          intro r hr r' hr' heq
          simp only [Function.comp_apply, Row.updates] at heq
          -- a row that is not the updated one has a name of its own
          split at heq <;> split at heq
          · exact s.eq_of_id hr hr' (by omega)
          · exact absurd ⟨r', hr', heq.symm, ‹_›⟩ h
          · exact absurd ⟨r, hr, heq, ‹_›⟩ h
          · exact s.eq_of_name hr hr' heq }

theorem Store.updates_of_free (s : Store) {id : ℕ} {typ : GeoType} {geoAlias : String} (url : String)
    (h : ¬ s.takenElse id (typ, geoAlias)) :
    ∃ s', s.updates id typ geoAlias url = some s' ∧ s'.files = s.files ∧
      s'.rows = s.rows.map (Row.updates id typ geoAlias url) := by
  rw [Store.updates, dif_neg h]
  exact ⟨_, rfl, rfl, rfl⟩

/-- The row is removed. -/
def Store.erase (s : Store) (id : ℕ) : Store where
  seq := s.seq
  rows := s.rows.filter fun r => r.id ≠ id
  files := s.files
  ids_le := fun r hr => s.ids_le r (List.mem_filter.1 hr).1
  ids := s.ids.sublist (List.filter_sublist.map Row.id)
  names := s.names.sublist (List.filter_sublist.map Row.name)

/-- The row of an id. -/
def Store.first (s : Store) (id : ℕ) : Option Row := s.rows.find? fun r => r.id = id

/-- The count looks for the name; where it fails, its answer stays zero. -/
def create (s : Store) (w : World) (f : Form) : Store × Except GeoError Unit :=
  match validate w f with
  | .error e => (s, .error e)
  | .ok (typ, url) =>
      if !w.countFails && decide ((typ, f.geoAlias) ∈ s.rows.map Row.name) then
        (s, .error .duplicateAlias)
      else
        let path := fileNameFor typ f.geoAlias
        match downloadToPath w s.files url path with
        | (files, none) => (s.withFiles files, .error .download)
        | (files, some _) =>
            let refused := (s.withFiles (removeSafePathIfExists files path), .error .database)
            if w.writeFails then refused
            else
              match (s.withFiles files).insert typ f.geoAlias url with
              | none => refused
              | some s' => (s', .ok ())

/-- The old file goes before the new one is fetched. -/
def update (s : Store) (w : World) (id : ℕ) (f : Form) : Store × Except GeoError Unit :=
  if w.readFails then (s, .error .database)
  else
    match s.first id with
    | none => (s, .error .notFound)
    | some cur =>
        match validate w f with
        | .error e => (s, .error e)
        | .ok (typ, url) =>
            if (cur.geoType ≠ typ ∨ cur.geoAlias ≠ f.geoAlias) ∧
                w.countFails = false ∧ s.takenElse id (typ, f.geoAlias) then
              (s, .error .duplicateAlias)
            else
              let oldPath := resolveDestPath cur
              let path := fileNameFor typ f.geoAlias
              let before :=
                if oldPath ≠ path ∧ oldPath ≠ "" then removeSafePathIfExists s.files oldPath
                else s.files
              match downloadToPath w before url path with
              | (files, none) => (s.withFiles files, .error .download)
              | (files, some _) =>
                  let refused := (s.withFiles files, .error .database)
                  if w.writeFails then refused
                  else
                    match (s.withFiles files).updates id typ f.geoAlias url with
                    | none => refused
                    | some s' => (s', .ok ())

/-- A source is deleted with its file. -/
def delete (s : Store) (w : World) (id : ℕ) : Store × Except GeoError Unit :=
  if w.readFails then (s, .error .database)
  else
    match s.first id with
    | none => (s, .error .notFound)
    | some r =>
        if w.writeFails then (s, .error .database)
        else ((s.erase id).withFiles (removeSafePathIfExists s.files (resolveDestPath r)), .ok ())

/-! ## Calls and runs -/

/-- The calls of the service. -/
inductive Call where
  | create (w : World) (f : Form)
  | update (w : World) (id : ℕ) (f : Form)
  | delete (w : World) (id : ℕ)

/-- One call. -/
def perform (s : Store) : Call → Store × Except GeoError Unit
  | .create w f => create s w f
  | .update w id f => update s w id f
  | .delete w id => delete s w id

/-- The store a call leaves. -/
def step (s : Store) (a : Call) : Store := (perform s a).1

/-- The resource a call is about. -/
def Call.target : Call → Option ℕ
  | .create _ _ => none
  | .update _ id _ => some id
  | .delete _ id => some id

/-- The file at the path has content of the URL. -/
def Holds (files : Files) (path url : String) : Prop := ∃ f, files path = some f ∧ f.source = url

/-- Every resource has its file, with the content its URL gave, and no two share one. -/
structure Sound (s : Store) : Prop where
  held : ∀ r ∈ s.rows, Holds s.files r.localPath r.url
  apart : (s.rows.map Row.localPath).Nodup

/-- What a call is to keep. -/
structure Kept (s : Store) (a : Call) : Prop where
  sound : Sound (step s a)
  rows : ∀ e, (perform s a).2 = .error e → (step s a).rows = s.rows
  others : ∀ e, (perform s a).2 = .error e → ∀ r ∈ s.rows, a.target ≠ some r.id →
    (step s a).files r.localPath = s.files r.localPath

/-! ## Paths -/

theorem fileNameFor_inj {typ typ' : GeoType} {a a' : String}
    (h : fileNameFor typ a = fileNameFor typ' a') : typ = typ' ∧ a = a' := by
  have hchars := congrArg String.toList h
  cases typ <;> cases typ' <;>
    simp only [fileNameFor, String.toList_append, List.append_left_inj] at hchars
  · exact ⟨rfl, String.toList_inj.1 (List.append_cancel_left hchars)⟩
  · simp at hchars
  · simp at hchars
  · exact ⟨rfl, String.toList_inj.1 (List.append_cancel_left hchars)⟩

/-- The name of a temporary file is the name of no file. -/
theorem fileNameFor_ne_tmp (typ : GeoType) (a path : String) : fileNameFor typ a ≠ path ++ ".tmp" := by
  intro h
  obtain ⟨stem, hstem⟩ : ∃ stem, fileNameFor typ a = stem ++ ".dat" := by
    cases typ <;> exact ⟨_, rfl⟩
  rw [hstem] at h
  have hchars := congrArg String.toList h
  rw [String.toList_append, String.toList_append] at hchars
  have hends := List.append_inj_right' hchars (by simp)
  simp at hends

theorem ne_tmp (path : String) : path ≠ path ++ ".tmp" := by
  intro h
  have hlen := congrArg String.length h
  simp at hlen

theorem fileNameFor_ne_empty (typ : GeoType) (a : String) : fileNameFor typ a ≠ "" := by
  intro h
  have hchars := congrArg String.toList h
  cases typ <;> simp [fileNameFor] at hchars

theorem resolveDestPath_eq (r : Row) : resolveDestPath r = r.localPath := by
  unfold resolveDestPath
  rw [if_pos (r.synced ▸ fileNameFor_ne_empty r.geoType r.geoAlias)]

theorem Row.localPath_ne_tmp (r : Row) (path : String) : r.localPath ≠ path ++ ".tmp" :=
  r.synced ▸ fileNameFor_ne_tmp r.geoType r.geoAlias path

theorem Row.localPath_eq_iff (r : Row) (typ : GeoType) (a : String) :
    r.localPath = fileNameFor typ a ↔ r.name = (typ, a) := by
  constructor
  · intro h
    obtain ⟨htyp, ha⟩ := fileNameFor_inj (r.synced.symm.trans h)
    exact Prod.ext htyp ha
  · intro h
    obtain ⟨htyp, ha⟩ := Prod.mk.inj h
    rw [r.synced, htyp, ha]

theorem Row.localPath_inj {r r' : Row} : r.localPath = r'.localPath ↔ r.name = r'.name := by
  rw [r'.synced, Row.localPath_eq_iff]
  rfl

/-- Resources share a path in no store. -/
theorem Store.localPaths_nodup (s : Store) : (s.rows.map Row.localPath).Nodup := by
  refine List.Nodup.map_on ?_ (s.names.of_map _)
  intro r hr r' hr' h
  exact s.eq_of_name hr hr' (Row.localPath_inj.1 h)

theorem sound_iff {s : Store} : Sound s ↔ ∀ r ∈ s.rows, Holds s.files r.localPath r.url :=
  ⟨Sound.held, fun h => ⟨h, s.localPaths_nodup⟩⟩

/-! ## What comes of a download -/

/-- An answer with a file that is kept. -/
def Reply.Full : Reply → Prop
  | .ok n => minDatBytes ≤ n
  | _ => False

instance (r : Reply) : Decidable r.Full :=
  match r with
  | .ok n => inferInstanceAs (Decidable (minDatBytes ≤ n))
  | .failed => isFalse id
  | .notModified => isFalse id

/-- New content comes. -/
def Fresh (w : World) (files : Files) (path : String) : Prop :=
  w.first.Full ∨ (w.first = .notModified ∧ localDatFileNeedsRepair files path = true ∧ w.second.Full)

/-- The file that is there is kept. -/
def Unmodified (w : World) (files : Files) (path : String) : Prop :=
  w.first = .notModified ∧ localDatFileNeedsRepair files path = false

instance (w : World) (files : Files) (path : String) : Decidable (Fresh w files path) :=
  inferInstanceAs (Decidable (_ ∨ _))

instance (w : World) (files : Files) (path : String) : Decidable (Unmodified w files path) :=
  inferInstanceAs (Decidable (_ ∧ _))

theorem not_fresh_of_unmodified {w : World} {files : Files} {path : String}
    (h : Unmodified w files path) : ¬ Fresh w files path := by
  rintro (hfull | ⟨-, hrepair, -⟩)
  · rw [h.1] at hfull
    exact hfull
  · rw [h.2] at hrepair
    cases hrepair

theorem Fresh.congr {w : World} {files files' : Files} {path : String}
    (h : files' path = files path) : Fresh w files' path ↔ Fresh w files path := by
  unfold Fresh localDatFileNeedsRepair
  rw [h]

theorem Unmodified.congr {w : World} {files files' : Files} {path : String}
    (h : files' path = files path) : Unmodified w files' path ↔ Unmodified w files path := by
  unfold Unmodified localDatFileNeedsRepair
  rw [h]

/-- An answer that is used: the file is there, and no other has changed. -/
theorem downloadToPathOnce_full (files : Files) (url path : String) (forceFull : Bool) {reply : Reply}
    (h : reply.Full) :
    ∃ files', downloadToPathOnce files url path forceFull reply = (files', some false) ∧
      Holds files' path url ∧ ∀ p, p ≠ path → p ≠ path ++ ".tmp" → files' p = files p := by
  cases reply with
  | failed => exact h.elim
  | notModified => exact h.elim
  | ok n =>
      refine ⟨_, by rw [downloadToPathOnce, if_neg (Nat.not_lt.2 h)], ⟨⟨n, url⟩, ?_, rfl⟩, ?_⟩
      · rw [removeSafePathIfExists, Function.update_of_ne (ne_tmp path), Function.update_self]
      · intro p hpath htmp
        rw [removeSafePathIfExists, Function.update_of_ne htmp, Function.update_of_ne hpath,
          Function.update_of_ne htmp]

/-- An answer that is not: only the temporary file can have been touched. -/
theorem downloadToPathOnce_error (files : Files) (url path : String) (forceFull : Bool) {reply : Reply}
    (h : ¬ reply.Full) (hforce : reply = .notModified → forceFull = true) :
    ∃ files', downloadToPathOnce files url path forceFull reply = (files', none) ∧
      ∀ p, p ≠ path ++ ".tmp" → files' p = files p := by
  cases reply with
  | failed => exact ⟨files, rfl, fun _ _ => rfl⟩
  | notModified => exact ⟨files, by rw [downloadToPathOnce, if_pos (hforce rfl)], fun _ _ => rfl⟩
  | ok n =>
      refine ⟨_, by rw [downloadToPathOnce, if_pos (Nat.lt_of_not_le h)], ?_⟩
      intro p htmp
      rw [removeSafePathIfExists, Function.update_of_ne htmp, Function.update_of_ne htmp]

theorem downloadToPath_of_ne {w : World} (files : Files) (url path : String)
    (h : w.first ≠ .notModified) :
    downloadToPath w files url path = downloadToPathOnce files url path false w.first := by
  unfold downloadToPath
  rw [if_neg]
  cases hfirst : w.first with
  | failed => exact fun hskip => by cases hskip
  | notModified => exact absurd hfirst h
  | ok n =>
      simp only [downloadToPathOnce]
      split <;> simp

theorem downloadToPath_of_notModified {w : World} (files : Files) (url path : String)
    (h : w.first = .notModified) :
    downloadToPath w files url path =
      if localDatFileNeedsRepair files path then downloadToPathOnce files url path true w.second
      else (files, some true) := by
  unfold downloadToPath
  rw [h]
  cases hrepair : localDatFileNeedsRepair files path <;> simp [downloadToPathOnce, hrepair]

/-- The three ends of a download. -/
theorem downloadToPath_cases (w : World) (files : Files) (url path : String) :
    ∃ files', (∀ p, p ≠ path → p ≠ path ++ ".tmp" → files' p = files p) ∧
      ((Fresh w files path ∧ downloadToPath w files url path = (files', some false) ∧
          Holds files' path url) ∨
        (Unmodified w files path ∧ downloadToPath w files url path = (files', some true) ∧
          files' path = files path) ∨
        (¬ Fresh w files path ∧ ¬ Unmodified w files path ∧
          downloadToPath w files url path = (files', none) ∧
          files' path = files path)) := by
  by_cases hfirst : w.first = .notModified
  · rw [downloadToPath_of_notModified files url path hfirst]
    cases hrepair : localDatFileNeedsRepair files path with
    | false => exact ⟨files, fun _ _ _ => rfl, Or.inr (Or.inl ⟨⟨hfirst, hrepair⟩, rfl, rfl⟩)⟩
    | true =>
        rw [if_pos rfl]
        by_cases hfull : w.second.Full
        · obtain ⟨files', heq, hheld, hrest⟩ := downloadToPathOnce_full files url path true hfull
          exact ⟨files', hrest, Or.inl ⟨Or.inr ⟨hfirst, hrepair, hfull⟩, heq, hheld⟩⟩
        · obtain ⟨files', heq, hrest⟩ :=
            downloadToPathOnce_error files url path true hfull fun _ => rfl
          refine ⟨files', fun p _ => hrest p, Or.inr (Or.inr ⟨?_, ?_, heq, hrest path (ne_tmp path)⟩)⟩
          · rintro (h | ⟨-, -, h⟩)
            · rw [hfirst] at h
              exact h
            · exact hfull h
          · rintro ⟨-, h⟩
            rw [hrepair] at h
            cases h
  · rw [downloadToPath_of_ne files url path hfirst]
    by_cases hfull : w.first.Full
    · obtain ⟨files', heq, hheld, hrest⟩ := downloadToPathOnce_full files url path false hfull
      exact ⟨files', hrest, Or.inl ⟨Or.inl hfull, heq, hheld⟩⟩
    · obtain ⟨files', heq, hrest⟩ :=
        downloadToPathOnce_error files url path false hfull fun h => absurd h hfirst
      refine ⟨files', fun p _ => hrest p, Or.inr (Or.inr ⟨?_, ?_, heq, hrest path (ne_tmp path)⟩)⟩
      · rintro (h | ⟨h, -⟩)
        · exact hfull h
        · exact hfirst h
      · exact fun h => hfirst h.1

/-! ## When a call keeps the store -/

/-- A create of a new name does not take over a file of another URL; one of a name there is does
not get past the count. -/
def CreateOk (s : Store) (w : World) (typ : GeoType) (a url : String) : Prop :=
  if (typ, a) ∈ s.rows.map Row.name then
    w.countFails = false ∨
      (¬ Fresh w s.files (fileNameFor typ a) ∧ ¬ Unmodified w s.files (fileNameFor typ a))
  else
    Unmodified w s.files (fileNameFor typ a) →
      w.writeFails = true ∨ Holds s.files (fileNameFor typ a) url

/-- An update in place keeps the URL, or the file and the row change together.  A move to a name
another resource has does not get past the count; a move to a free name goes through, and does not
take over a file of another URL. -/
def UpdateOk (s : Store) (w : World) (cur : Row) (typ : GeoType) (a url : String) : Prop :=
  if cur.name = (typ, a) then
    url = cur.url ∨
      ((Fresh w s.files (fileNameFor typ a) → w.writeFails = false) ∧
        (Unmodified w s.files (fileNameFor typ a) → w.writeFails = true))
  else if s.takenElse cur.id (typ, a) then w.countFails = false
  else
    w.writeFails = false ∧
      (Fresh w s.files (fileNameFor typ a) ∨
        (Unmodified w s.files (fileNameFor typ a) ∧ Holds s.files (fileNameFor typ a) url))

/-- None of the branches that go wrong is taken. -/
def CallOk (s : Store) : Call → Prop
  | .create w f =>
      match validate w f with
      | .error _ => True
      | .ok (typ, url) => CreateOk s w typ f.geoAlias url
  | .update w id f =>
      match w.readFails, s.first id, validate w f with
      | false, some cur, .ok (typ, url) => UpdateOk s w cur typ f.geoAlias url
      | _, _, _ => True
  | .delete _ _ => True

theorem Holds.congr {files files' : Files} {path url : String} (h : files' path = files path) :
    Holds files' path url ↔ Holds files path url := by
  unfold Holds
  rw [h]

theorem Holds.source_eq {files : Files} {path url url' : String} (h : Holds files path url)
    (h' : Holds files path url') : url = url' := by
  obtain ⟨f, hf, rfl⟩ := h
  obtain ⟨f', hf', rfl⟩ := h'
  rw [hf] at hf'
  cases hf'
  rfl

theorem not_holds_of_none {files : Files} {path url : String} (h : files path = none) :
    ¬ Holds files path url := by
  rintro ⟨f, hf, -⟩
  rw [h] at hf
  cases hf

instance (files : Files) (path url : String) : Decidable (Holds files path url) :=
  decidable_of_iff ((files path).map File.source = some url) (by simp [Holds])

instance (s : Store) (w : World) (typ : GeoType) (a url : String) :
    Decidable (CreateOk s w typ a url) :=
  inferInstanceAs (Decidable (ite _ _ _))

instance (s : Store) (w : World) (cur : Row) (typ : GeoType) (a url : String) :
    Decidable (UpdateOk s w cur typ a url) :=
  inferInstanceAs (Decidable (ite _ _ (ite _ _ _)))

instance (s : Store) (a : Call) : Decidable (CallOk s a) :=
  match a with
  | .create w f =>
      match hv : validate w f with
      | .error _ => isTrue (by simp only [CallOk, hv])
      | .ok (typ, url) =>
          decidable_of_iff (CreateOk s w typ f.geoAlias url) (by simp only [CallOk, hv])
  | .update w id f =>
      match hread : w.readFails, hcur : s.first id, hv : validate w f with
      | true, _, _ => isTrue (by simp only [CallOk, hread])
      | false, none, _ => isTrue (by simp only [CallOk, hread, hcur])
      | false, some _, .error _ => isTrue (by simp only [CallOk, hread, hcur, hv])
      | false, some cur, .ok (typ, url) =>
          decidable_of_iff (UpdateOk s w cur typ f.geoAlias url)
            (by simp only [CallOk, hread, hcur, hv])
  | .delete _ _ => isTrue trivial

theorem removeSafePathIfExists_self (files : Files) (path : String) :
    removeSafePathIfExists files path path = none :=
  Function.update_self ..

theorem removeSafePathIfExists_of_ne (files : Files) {path p : String} (h : p ≠ path) :
    removeSafePathIfExists files path p = files p :=
  Function.update_of_ne h ..

/-- What leaves the rows and the files of the other resources alone keeps the store, as long as
the resource it is about has its file. -/
theorem kept_of_target {s : Store} {a : Call} {files : Files} (hs : Sound s)
    (hstep : step s a = s.withFiles files)
    (hothers : ∀ r ∈ s.rows, a.target ≠ some r.id → files r.localPath = s.files r.localPath)
    (htarget : ∀ r ∈ s.rows, a.target = some r.id → Holds files r.localPath r.url) : Kept s a := by
  refine ⟨sound_iff.2 ?_, ?_, ?_⟩
  · rw [hstep]
    intro r hr
    by_cases ht : a.target = some r.id
    · exact htarget r hr ht
    · exact (Holds.congr (hothers r hr ht)).2 (hs.held r hr)
  · intro e _
    rw [hstep]
    rfl
  · intro e _ r hr ht
    rw [hstep]
    exact hothers r hr ht

/-- What leaves the rows and their files alone keeps the store. -/
theorem kept_of_withFiles {s : Store} {a : Call} {files : Files} (hs : Sound s)
    (hstep : step s a = s.withFiles files)
    (hfiles : ∀ r ∈ s.rows, files r.localPath = s.files r.localPath) : Kept s a := by
  refine kept_of_target hs hstep (fun r hr _ => hfiles r hr) ?_
  intro r hr _
  exact (Holds.congr (hfiles r hr)).2 (hs.held r hr)

theorem kept_of_unchanged {s : Store} {a : Call} (hs : Sound s) (hstep : step s a = s) : Kept s a :=
  kept_of_withFiles hs (show step s a = s.withFiles s.files from hstep) fun _ _ => rfl

/-- A row whose file is not from its URL. -/
theorem not_kept_of_row {s : Store} {a : Call} {r : Row} (hr : r ∈ (step s a).rows)
    (h : ¬ Holds (step s a).files r.localPath r.url) : ¬ Kept s a :=
  fun hkept => h (hkept.sound.held r hr)

/-- A call that succeeds has to leave the store sound. -/
theorem kept_of_ok {s : Store} {a : Call} (hok : (perform s a).2 = .ok ())
    (h : ∀ r ∈ (step s a).rows, Holds (step s a).files r.localPath r.url) : Kept s a := by
  refine ⟨sound_iff.2 h, ?_, ?_⟩
  · intro e he
    rw [hok] at he
    cases he
  · intro e he
    rw [hok] at he
    cases he

/-! ## Creating -/

section Create

variable {s : Store} {w : World} {f : Form} {typ : GeoType} {url : String} {files : Files}

theorem create_of_invalid {e : GeoError} (hv : validate w f = .error e) :
    create s w f = (s, .error e) := by
  rw [create, hv]

theorem create_of_duplicate (hv : validate w f = .ok (typ, url)) (hcount : w.countFails = false)
    (htaken : (typ, f.geoAlias) ∈ s.rows.map Row.name) :
    create s w f = (s, .error .duplicateAlias) := by
  rw [create, hv]
  simp only [hcount, htaken, Bool.not_false, decide_true, Bool.and_self, if_true]

/-- The count finds nothing, or fails. -/
def Counted (s : Store) (w : World) (name : GeoType × String) : Prop :=
  w.countFails = true ∨ name ∉ s.rows.map Row.name

theorem create_of_counted (hv : validate w f = .ok (typ, url)) (hc : Counted s w (typ, f.geoAlias)) :
    create s w f =
      match downloadToPath w s.files url (fileNameFor typ f.geoAlias) with
      | (files, none) => (s.withFiles files, .error .download)
      | (files, some _) =>
          if w.writeFails then
            (s.withFiles (removeSafePathIfExists files (fileNameFor typ f.geoAlias)), .error .database)
          else
            match (s.withFiles files).insert typ f.geoAlias url with
            | none =>
                (s.withFiles (removeSafePathIfExists files (fileNameFor typ f.geoAlias)), .error .database)
            | some s' => (s', .ok ()) := by
  have hnot : (!w.countFails && decide ((typ, f.geoAlias) ∈ s.rows.map Row.name)) = false := by
    rcases hc with hc | hc
    · rw [hc]
      rfl
    · rw [decide_eq_false hc, Bool.and_false]
  rw [create, hv]
  simp only [hnot, Bool.false_eq_true, if_false]

theorem create_of_undelivered (hv : validate w f = .ok (typ, url))
    (hc : Counted s w (typ, f.geoAlias))
    (hd : downloadToPath w s.files url (fileNameFor typ f.geoAlias) = (files, none)) :
    create s w f = (s.withFiles files, .error .download) := by
  rw [create_of_counted hv hc, hd]

theorem create_of_refused {skipped : Bool} (hv : validate w f = .ok (typ, url))
    (hc : Counted s w (typ, f.geoAlias))
    (hd : downloadToPath w s.files url (fileNameFor typ f.geoAlias) = (files, some skipped))
    (hrefused : w.writeFails = true ∨ (typ, f.geoAlias) ∈ s.rows.map Row.name) :
    create s w f =
      (s.withFiles (removeSafePathIfExists files (fileNameFor typ f.geoAlias)), .error .database) := by
  rw [create_of_counted hv hc, hd]
  by_cases hw : w.writeFails = true
  · simp only [hw, if_true]
  · have htaken := hrefused.resolve_left hw
    have hinsert : (s.withFiles files).insert typ f.geoAlias url = none := by
      rw [Store.insert, dif_pos]
      exact htaken
    simp only [hw, Bool.false_eq_true, if_false, hinsert]

theorem create_of_inserted {skipped : Bool} (hv : validate w f = .ok (typ, url))
    (hc : Counted s w (typ, f.geoAlias))
    (hd : downloadToPath w s.files url (fileNameFor typ f.geoAlias) = (files, some skipped))
    (hw : w.writeFails = false) (hfree : (typ, f.geoAlias) ∉ s.rows.map Row.name) :
    ∃ s', create s w f = (s', .ok ()) ∧ s'.files = files ∧
      s'.rows = s.rows ++ [⟨s.seq + 1, typ, f.geoAlias, url, fileNameFor typ f.geoAlias, rfl⟩] := by
  obtain ⟨s', hinsert, hfiles, hrows⟩ := (s.withFiles files).insert_of_free url hfree
  refine ⟨s', ?_, hfiles, hrows⟩
  rw [create_of_counted hv hc, hd]
  simp only [hw, Bool.false_eq_true, if_false, hinsert]

/-- A create whose name is taken, past a count that failed: the file of the resource that has the
name goes when the insert is refused. -/
theorem create_taken_kept_iff (hs : Sound s) (hv : validate w f = .ok (typ, url))
    (hcount : w.countFails = true) (htaken : (typ, f.geoAlias) ∈ s.rows.map Row.name) :
    Kept s (.create w f) ↔
      ¬ Fresh w s.files (fileNameFor typ f.geoAlias) ∧
        ¬ Unmodified w s.files (fileNameFor typ f.geoAlias) := by
  have hc : Counted s w (typ, f.geoAlias) := Or.inl hcount
  obtain ⟨r, hr, hname⟩ := List.mem_map.1 htaken
  have hlost : ∀ (files : Files) (skipped : Bool),
      downloadToPath w s.files url (fileNameFor typ f.geoAlias) = (files, some skipped) →
      ¬ Kept s (.create w f) := by
    intro files skipped hd
    have hcreate := create_of_refused hv hc hd (Or.inr htaken)
    have hstep : step s (.create w f) =
        s.withFiles (removeSafePathIfExists files (fileNameFor typ f.geoAlias)) :=
      congrArg Prod.fst hcreate
    refine not_kept_of_row (r := r) (hstep ▸ hr) (not_holds_of_none ?_)
    rw [hstep, (r.localPath_eq_iff typ f.geoAlias).2 hname]
    exact removeSafePathIfExists_self ..
  obtain ⟨files, hrest, hend⟩ := downloadToPath_cases w s.files url (fileNameFor typ f.geoAlias)
  rcases hend with ⟨hfresh, hd, -⟩ | ⟨hunmod, hd, -⟩ | ⟨hnf, hnu, hd, hsame⟩
  · exact iff_of_false (hlost files false hd) fun h => h.1 hfresh
  · exact iff_of_false (hlost files true hd) fun h => h.2 hunmod
  · have hstep : step s (.create w f) = s.withFiles files :=
      congrArg Prod.fst (create_of_undelivered hv hc hd)
    refine iff_of_true (kept_of_withFiles hs hstep ?_) ⟨hnf, hnu⟩
    intro r' _
    by_cases hpath : r'.localPath = fileNameFor typ f.geoAlias
    · rw [hpath]
      exact hsame
    · exact hrest _ hpath (r'.localPath_ne_tmp _)

/-- A create of a free name: only a file that is there and stays can be of another URL. -/
theorem create_free_kept_iff (hs : Sound s) (hv : validate w f = .ok (typ, url))
    (hfree : (typ, f.geoAlias) ∉ s.rows.map Row.name) :
    Kept s (.create w f) ↔
      (Unmodified w s.files (fileNameFor typ f.geoAlias) →
        w.writeFails = true ∨ Holds s.files (fileNameFor typ f.geoAlias) url) := by
  have hc : Counted s w (typ, f.geoAlias) := Or.inr hfree
  obtain ⟨files, hrest, hend⟩ := downloadToPath_cases w s.files url (fileNameFor typ f.geoAlias)
  -- no resource is at the path
  have hpath : ∀ r ∈ s.rows, r.localPath ≠ fileNameFor typ f.geoAlias := by
    intro r hr heq
    exact hfree (List.mem_map.2 ⟨r, hr, (r.localPath_eq_iff typ f.geoAlias).1 heq⟩)
  have hfiles : ∀ r ∈ s.rows, files r.localPath = s.files r.localPath := fun r hr =>
    hrest _ (hpath r hr) (r.localPath_ne_tmp _)
  have hrefused : ∀ skipped : Bool,
      downloadToPath w s.files url (fileNameFor typ f.geoAlias) = (files, some skipped) →
      w.writeFails = true → Kept s (.create w f) := by
    intro skipped hd hw
    have hstep : step s (.create w f) =
        s.withFiles (removeSafePathIfExists files (fileNameFor typ f.geoAlias)) :=
      congrArg Prod.fst (create_of_refused hv hc hd (Or.inl hw))
    refine kept_of_withFiles hs hstep ?_
    intro r hr
    exact (removeSafePathIfExists_of_ne files (hpath r hr)).trans (hfiles r hr)
  have hinserted : ∀ skipped : Bool,
      downloadToPath w s.files url (fileNameFor typ f.geoAlias) = (files, some skipped) →
      w.writeFails = false →
      (Kept s (.create w f) ↔ Holds files (fileNameFor typ f.geoAlias) url) := by
    intro skipped hd hw
    obtain ⟨s', hcreate, hfiles', hrows'⟩ := create_of_inserted hv hc hd hw hfree
    have hstep : step s (.create w f) = s' := congrArg Prod.fst hcreate
    constructor
    · intro hkept
      have hheld := hkept.sound.held
      rw [hstep, hrows', hfiles'] at hheld
      exact hheld _ (List.mem_append_right _ (List.mem_singleton_self _))
    · intro hheld
      refine kept_of_ok (congrArg Prod.snd hcreate) ?_
      rw [hstep, hrows', hfiles']
      intro r hr
      rcases List.mem_append.1 hr with hr | hr
      · exact (Holds.congr (hfiles r hr)).2 (hs.held r hr)
      · rw [List.mem_singleton.1 hr]
        exact hheld
  rcases hend with ⟨hfresh, hd, hheld⟩ | ⟨hunmod, hd, hsame⟩ | ⟨-, hnu, hd, -⟩
  · refine iff_of_true ?_ fun hunmod => absurd hfresh (not_fresh_of_unmodified hunmod)
    cases hw : w.writeFails with
    | true => exact hrefused false hd hw
    | false => exact (hinserted false hd hw).2 hheld
  · cases hw : w.writeFails with
    | true => exact iff_of_true (hrefused true hd hw) fun _ => Or.inl rfl
    | false =>
        rw [hinserted true hd hw, Holds.congr hsame]
        exact ⟨fun h _ => Or.inr h, fun h => (h hunmod).resolve_left Bool.false_ne_true⟩
  · refine iff_of_true ?_ fun hunmod => absurd hunmod hnu
    have hstep : step s (.create w f) = s.withFiles files :=
      congrArg Prod.fst (create_of_undelivered hv hc hd)
    exact kept_of_withFiles hs hstep hfiles

theorem create_kept_iff (hs : Sound s) (w : World) (f : Form) :
    Kept s (.create w f) ↔ CallOk s (.create w f) := by
  cases hv : validate w f with
  | error e =>
      have hstep : step s (.create w f) = s := congrArg Prod.fst (create_of_invalid hv)
      refine iff_of_true (kept_of_unchanged hs hstep) ?_
      simp only [CallOk, hv]
  | ok v =>
      obtain ⟨typ, url⟩ := v
      simp only [CallOk, hv]
      unfold CreateOk
      split_ifs with htaken
      · cases hcount : w.countFails with
        | true =>
            rw [create_taken_kept_iff hs hv hcount htaken]
            exact ⟨Or.inr, fun h => h.resolve_left Bool.noConfusion⟩
        | false =>
            have hstep : step s (.create w f) = s :=
              congrArg Prod.fst (create_of_duplicate hv hcount htaken)
            exact iff_of_true (kept_of_unchanged hs hstep) (Or.inl rfl)
      · exact create_free_kept_iff hs hv htaken

end Create

/-! ## Updating -/

section Update

variable {s : Store} {w : World} {id : ℕ} {f : Form} {cur : Row} {typ : GeoType} {url : String}
  {before files : Files}

theorem Store.first_mem (h : s.first id = some cur) : cur ∈ s.rows := List.mem_of_find?_eq_some h

theorem Store.first_id (h : s.first id = some cur) : cur.id = id := by
  simpa using List.find?_some h

/-- The files the download starts from. -/
def Cleared (s : Store) (cur : Row) (path : String) : Files :=
  if cur.localPath ≠ path then removeSafePathIfExists s.files cur.localPath else s.files

theorem update_of_duplicate (hread : w.readFails = false) (hcur : s.first id = some cur)
    (hv : validate w f = .ok (typ, url)) (hmove : cur.name ≠ (typ, f.geoAlias))
    (hcount : w.countFails = false) (htaken : s.takenElse id (typ, f.geoAlias)) :
    update s w id f = (s, .error .duplicateAlias) := by
  have hdiff : cur.geoType ≠ typ ∨ cur.geoAlias ≠ f.geoAlias := by
    by_contra hsame
    rw [not_or, not_not, not_not] at hsame
    exact hmove (Prod.ext hsame.1 hsame.2)
  rw [update, hread, hcur, hv]
  simp only [Bool.false_eq_true, if_false]
  rw [if_pos ⟨hdiff, hcount, htaken⟩]

/-- The name stays, or the count finds nothing, or fails. -/
def CountedElse (s : Store) (w : World) (cur : Row) (name : GeoType × String) : Prop :=
  cur.name = name ∨ w.countFails = true ∨ ¬ s.takenElse cur.id name

theorem update_of_counted (hread : w.readFails = false) (hcur : s.first id = some cur)
    (hv : validate w f = .ok (typ, url)) (hc : CountedElse s w cur (typ, f.geoAlias)) :
    update s w id f =
      match downloadToPath w (Cleared s cur (fileNameFor typ f.geoAlias)) url
          (fileNameFor typ f.geoAlias) with
      | (files, none) => (s.withFiles files, .error .download)
      | (files, some _) =>
          if w.writeFails then (s.withFiles files, .error .database)
          else
            match (s.withFiles files).updates id typ f.geoAlias url with
            | none => (s.withFiles files, .error .database)
            | some s' => (s', .ok ()) := by
  have hpass : ¬ ((cur.geoType ≠ typ ∨ cur.geoAlias ≠ f.geoAlias) ∧
      w.countFails = false ∧ s.takenElse id (typ, f.geoAlias)) := by
    rintro ⟨hdiff, hcount, htaken⟩
    rcases hc with hname | hfails | hfree
    · obtain ⟨htyp, ha⟩ := Prod.mk.inj hname
      rcases hdiff with h | h
      · exact h htyp
      · exact h ha
    · rw [hcount] at hfails
      cases hfails
    · rw [Store.first_id hcur] at hfree
      exact hfree htaken
  have hcleared : (if resolveDestPath cur ≠ fileNameFor typ f.geoAlias ∧ resolveDestPath cur ≠ "" then
      removeSafePathIfExists s.files (resolveDestPath cur) else s.files) =
      Cleared s cur (fileNameFor typ f.geoAlias) := by
    have hne : cur.localPath ≠ "" := cur.synced ▸ fileNameFor_ne_empty cur.geoType cur.geoAlias
    simp only [resolveDestPath_eq, Cleared, hne, ne_eq, not_false_eq_true, and_true]
  rw [update, hread, hcur, hv]
  simp only [Bool.false_eq_true, if_false]
  rw [if_neg hpass, hcleared]

theorem update_of_undelivered (hread : w.readFails = false) (hcur : s.first id = some cur)
    (hv : validate w f = .ok (typ, url)) (hc : CountedElse s w cur (typ, f.geoAlias))
    (hd : downloadToPath w (Cleared s cur (fileNameFor typ f.geoAlias)) url
      (fileNameFor typ f.geoAlias) = (files, none)) :
    step s (.update w id f) = s.withFiles files := by
  have hupdate : update s w id f = (s.withFiles files, .error .download) := by
    rw [update_of_counted hread hcur hv hc, hd]
  exact congrArg Prod.fst hupdate

theorem update_of_refused {skipped : Bool} (hread : w.readFails = false)
    (hcur : s.first id = some cur) (hv : validate w f = .ok (typ, url))
    (hc : CountedElse s w cur (typ, f.geoAlias))
    (hd : downloadToPath w (Cleared s cur (fileNameFor typ f.geoAlias)) url
      (fileNameFor typ f.geoAlias) = (files, some skipped))
    (hrefused : w.writeFails = true ∨ s.takenElse id (typ, f.geoAlias)) :
    step s (.update w id f) = s.withFiles files := by
  have hupdate : update s w id f = (s.withFiles files, .error .database) := by
    rw [update_of_counted hread hcur hv hc, hd]
    by_cases hw : w.writeFails = true
    · simp only [hw, if_true]
    · have hupdates : (s.withFiles files).updates id typ f.geoAlias url = none := by
        rw [Store.updates, dif_pos]
        exact hrefused.resolve_left hw
      simp only [hw, Bool.false_eq_true, if_false, hupdates]
  exact congrArg Prod.fst hupdate

/-- An update that goes through keeps the store when the file is from the new URL. -/
theorem update_through_kept_iff {skipped : Bool} (hs : Sound s) (hread : w.readFails = false)
    (hcur : s.first id = some cur) (hv : validate w f = .ok (typ, url))
    (hc : CountedElse s w cur (typ, f.geoAlias))
    (hd : downloadToPath w (Cleared s cur (fileNameFor typ f.geoAlias)) url
      (fileNameFor typ f.geoAlias) = (files, some skipped))
    (hw : w.writeFails = false) (hfree : ¬ s.takenElse id (typ, f.geoAlias))
    (hothers : ∀ r ∈ s.rows, r.id ≠ id → files r.localPath = s.files r.localPath) :
    Kept s (.update w id f) ↔ Holds files (fileNameFor typ f.geoAlias) url := by
  obtain ⟨s', hupdates, hfiles', hrows'⟩ := (s.withFiles files).updates_of_free url hfree
  have hupdate : update s w id f = (s', .ok ()) := by
    rw [update_of_counted hread hcur hv hc, hd]
    simp only [hw, Bool.false_eq_true, if_false, hupdates]
  have hstep : step s (.update w id f) = s' := congrArg Prod.fst hupdate
  change s'.files = files at hfiles'
  change s'.rows = s.rows.map _ at hrows'
  constructor
  · intro hkept
    have hheld := hkept.sound.held
    rw [hstep, hrows', hfiles'] at hheld
    have hrow := hheld _ (List.mem_map_of_mem (Store.first_mem hcur))
    rw [Row.updates, if_pos (Store.first_id hcur)] at hrow
    exact hrow
  · intro hheld
    refine kept_of_ok (congrArg Prod.snd hupdate) ?_
    rw [hstep, hrows', hfiles']
    intro r' hr'
    obtain ⟨r, hr, rfl⟩ := List.mem_map.1 hr'
    by_cases hid : r.id = id
    · rw [Row.updates, if_pos hid]
      exact hheld
    · rw [Row.updates, if_neg hid]
      exact (Holds.congr (hothers r hr hid)).2 (hs.held r hr)

/-- No other resource is at the path an update goes to when the name is free. -/
theorem localPath_ne_of_free (hfree : ¬ s.takenElse id (typ, f.geoAlias)) {r : Row} (hr : r ∈ s.rows)
    (hid : r.id ≠ id) : r.localPath ≠ fileNameFor typ f.geoAlias :=
  fun heq => hfree ⟨r, hr, (r.localPath_eq_iff typ f.geoAlias).1 heq, hid⟩

/-- An update that leaves the name alone: the file and the URL of the row have to change together. -/
theorem update_inPlace_kept_iff (hs : Sound s) (hread : w.readFails = false)
    (hcur : s.first id = some cur) (hv : validate w f = .ok (typ, url))
    (hname : cur.name = (typ, f.geoAlias)) :
    Kept s (.update w id f) ↔
      url = cur.url ∨
        ((Fresh w s.files (fileNameFor typ f.geoAlias) → w.writeFails = false) ∧
          (Unmodified w s.files (fileNameFor typ f.geoAlias) → w.writeFails = true)) := by
  have hc : CountedElse s w cur (typ, f.geoAlias) := Or.inl hname
  have hmem := Store.first_mem hcur
  have hpath : cur.localPath = fileNameFor typ f.geoAlias := (cur.localPath_eq_iff _ _).2 hname
  have hfree : ¬ s.takenElse id (typ, f.geoAlias) := by
    rintro ⟨r, hr, hrname, hid⟩
    have heq := s.eq_of_name hr hmem (hrname.trans hname.symm)
    exact hid (heq ▸ Store.first_id hcur)
  have hclear : Cleared s cur (fileNameFor typ f.geoAlias) = s.files := by
    rw [Cleared, if_neg (not_not.2 hpath)]
  have hown : Holds s.files (fileNameFor typ f.geoAlias) cur.url := hpath ▸ hs.held cur hmem
  obtain ⟨files, hrest, hend⟩ := downloadToPath_cases w s.files url (fileNameFor typ f.geoAlias)
  have hothers : ∀ r ∈ s.rows, r.id ≠ id → files r.localPath = s.files r.localPath :=
    fun r hr hid => hrest _ (localPath_ne_of_free hfree hr hid) (r.localPath_ne_tmp _)
  -- the files of all rows stay when the one at the path does
  have hall : files (fileNameFor typ f.geoAlias) = s.files (fileNameFor typ f.geoAlias) →
      ∀ r ∈ s.rows, files r.localPath = s.files r.localPath := by
    intro hsame r hr
    by_cases hid : r.id = id
    · rw [s.eq_of_id hr hmem (hid.trans (Store.first_id hcur).symm), hpath]
      exact hsame
    · exact hothers r hr hid
  rcases hend with ⟨hfresh, hd, hheld⟩ | ⟨hunmod, hd, hsame⟩ | ⟨hnf, hnu, hd, hsame⟩
  · rw [← hclear] at hd
    cases hw : w.writeFails with
    | false =>
        refine iff_of_true ((update_through_kept_iff hs hread hcur hv hc hd hw hfree hothers).2 hheld) ?_
        exact Or.inr ⟨fun _ => rfl, fun hunmod => absurd hfresh (not_fresh_of_unmodified hunmod)⟩
    | true =>
        have hstep := update_of_refused hread hcur hv hc hd (Or.inl hw)
        constructor
        · intro hkept
          have hrow := hkept.sound.held cur (hstep ▸ hmem)
          rw [hstep, hpath] at hrow
          exact Or.inl (hheld.source_eq hrow)
        · intro h
          have hurl : url = cur.url := h.resolve_right fun h => Bool.noConfusion (h.1 hfresh)
          refine kept_of_target hs hstep ?_ ?_
          · exact fun r hr ht => hothers r hr fun hid => ht (congrArg some hid.symm)
          · intro r hr ht
            have hid : id = r.id := Option.some.inj ht
            rw [s.eq_of_id hr hmem (hid.symm.trans (Store.first_id hcur).symm), hpath, ← hurl]
            exact hheld
  · rw [← hclear] at hd
    cases hw : w.writeFails with
    | true =>
        have hstep := update_of_refused hread hcur hv hc hd (Or.inl hw)
        refine iff_of_true (kept_of_withFiles hs hstep (hall hsame)) ?_
        exact Or.inr ⟨fun hfresh => absurd hfresh (not_fresh_of_unmodified hunmod), fun _ => rfl⟩
    | false =>
        rw [update_through_kept_iff hs hread hcur hv hc hd hw hfree hothers, Holds.congr hsame]
        constructor
        · exact fun h => Or.inl (h.source_eq hown)
        · intro h
          rw [h.resolve_right fun h => Bool.noConfusion (h.2 hunmod)]
          exact hown
  · rw [← hclear] at hd
    have hstep := update_of_undelivered hread hcur hv hc hd
    exact iff_of_true (kept_of_withFiles hs hstep (hall hsame))
      (Or.inr ⟨fun hfresh => absurd hfresh hnf, fun hunmod => absurd hunmod hnu⟩)

/-- An update that moves a resource: the old file is gone before anything else can fail. -/
theorem update_move_kept_iff (hs : Sound s) (hread : w.readFails = false)
    (hcur : s.first id = some cur) (hv : validate w f = .ok (typ, url))
    (hname : cur.name ≠ (typ, f.geoAlias)) (hc : CountedElse s w cur (typ, f.geoAlias)) :
    Kept s (.update w id f) ↔
      ¬ s.takenElse id (typ, f.geoAlias) ∧ w.writeFails = false ∧
        (Fresh w s.files (fileNameFor typ f.geoAlias) ∨
          (Unmodified w s.files (fileNameFor typ f.geoAlias) ∧
            Holds s.files (fileNameFor typ f.geoAlias) url)) := by
  have hmem := Store.first_mem hcur
  have hpath : cur.localPath ≠ fileNameFor typ f.geoAlias := fun h =>
    hname ((cur.localPath_eq_iff _ _).1 h)
  have hclear : Cleared s cur (fileNameFor typ f.geoAlias) =
      removeSafePathIfExists s.files cur.localPath := by
    rw [Cleared, if_pos hpath]
  have hthere : Cleared s cur (fileNameFor typ f.geoAlias) (fileNameFor typ f.geoAlias) =
      s.files (fileNameFor typ f.geoAlias) := by
    rw [hclear]
    exact removeSafePathIfExists_of_ne s.files hpath.symm
  obtain ⟨files, hrest, hend⟩ := downloadToPath_cases w
    (Cleared s cur (fileNameFor typ f.geoAlias)) url (fileNameFor typ f.geoAlias)
  rw [Fresh.congr hthere, Unmodified.congr hthere] at hend
  have hgone : files cur.localPath = none := by
    rw [hrest _ hpath (cur.localPath_ne_tmp _), hclear]
    exact removeSafePathIfExists_self ..
  have hlost : step s (.update w id f) = s.withFiles files → ¬ Kept s (.update w id f) := by
    intro hstep
    refine not_kept_of_row (r := cur) (hstep ▸ hmem) (not_holds_of_none ?_)
    rw [hstep]
    exact hgone
  -- past the download the write decides
  have hwrite : ∀ skipped : Bool,
      downloadToPath w (Cleared s cur (fileNameFor typ f.geoAlias)) url
        (fileNameFor typ f.geoAlias) = (files, some skipped) →
      (Kept s (.update w id f) ↔ ¬ s.takenElse id (typ, f.geoAlias) ∧ w.writeFails = false ∧
        Holds files (fileNameFor typ f.geoAlias) url) := by
    intro skipped hd
    by_cases hrefused : w.writeFails = true ∨ s.takenElse id (typ, f.geoAlias)
    · refine iff_of_false (hlost (update_of_refused hread hcur hv hc hd hrefused)) ?_
      rintro ⟨hfree, hw, -⟩
      rcases hrefused with hw' | htaken
      · exact Bool.noConfusion (hw.symm.trans hw')
      · exact hfree htaken
    · rw [not_or, Bool.not_eq_true] at hrefused
      obtain ⟨hw, hfree⟩ := hrefused
      have hothers : ∀ r ∈ s.rows, r.id ≠ id → files r.localPath = s.files r.localPath := by
        intro r hr hid
        have hne : r.localPath ≠ cur.localPath := by
          intro heq
          have hsame := s.eq_of_name hr hmem (Row.localPath_inj.1 heq)
          exact hid (hsame ▸ Store.first_id hcur)
        rw [hrest _ (localPath_ne_of_free hfree hr hid) (r.localPath_ne_tmp _), hclear]
        exact removeSafePathIfExists_of_ne s.files hne
      rw [update_through_kept_iff hs hread hcur hv hc hd hw hfree hothers]
      exact ⟨fun h => ⟨hfree, hw, h⟩, fun h => h.2.2⟩
  rcases hend with ⟨hfresh, hd, hheld⟩ | ⟨hunmod, hd, hsame⟩ | ⟨hnf, hnu, hd, -⟩
  · rw [hwrite false hd]
    exact ⟨fun h => ⟨h.1, h.2.1, Or.inl hfresh⟩, fun h => ⟨h.1, h.2.1, hheld⟩⟩
  · rw [hwrite true hd, Holds.congr (hsame.trans hthere)]
    constructor
    · exact fun h => ⟨h.1, h.2.1, Or.inr ⟨hunmod, h.2.2⟩⟩
    · rintro ⟨hfree, hw, hfresh | ⟨-, hheld⟩⟩
      · exact absurd hfresh (not_fresh_of_unmodified hunmod)
      · exact ⟨hfree, hw, hheld⟩
  · refine iff_of_false (hlost (update_of_undelivered hread hcur hv hc hd)) ?_
    rintro ⟨-, -, hfresh | ⟨hunmod, -⟩⟩
    · exact hnf hfresh
    · exact hnu hunmod

theorem update_kept_iff (hs : Sound s) (w : World) (id : ℕ) (f : Form) :
    Kept s (.update w id f) ↔ CallOk s (.update w id f) := by
  cases hread : w.readFails with
  | true =>
      have hstep : step s (.update w id f) = s := by
        show (update s w id f).1 = s
        rw [update, hread, if_pos rfl]
      refine iff_of_true (kept_of_unchanged hs hstep) ?_
      simp only [CallOk, hread]
  | false =>
  cases hcur : s.first id with
  | none =>
      have hstep : step s (.update w id f) = s := by
        show (update s w id f).1 = s
        rw [update, hread, hcur]
        rfl
      refine iff_of_true (kept_of_unchanged hs hstep) ?_
      simp only [CallOk, hread, hcur]
  | some cur =>
  cases hv : validate w f with
  | error e =>
      have hstep : step s (.update w id f) = s := by
        show (update s w id f).1 = s
        rw [update, hread, hcur, hv]
        rfl
      refine iff_of_true (kept_of_unchanged hs hstep) ?_
      simp only [CallOk, hread, hcur, hv]
  | ok v =>
      obtain ⟨typ, url⟩ := v
      simp only [CallOk, hread, hcur, hv]
      unfold UpdateOk
      rw [Store.first_id hcur]
      split_ifs with hname htaken
      · exact update_inPlace_kept_iff hs hread hcur hv hname
      · cases hcount : w.countFails with
        | false =>
            have hstep : step s (.update w id f) = s :=
              congrArg Prod.fst (update_of_duplicate hread hcur hv hname hcount htaken)
            exact iff_of_true (kept_of_unchanged hs hstep) rfl
        | true =>
            rw [update_move_kept_iff hs hread hcur hv hname (Or.inr (Or.inl hcount))]
            exact iff_of_false (fun h => h.1 htaken) Bool.noConfusion
      · have hc : CountedElse s w cur (typ, f.geoAlias) :=
          Or.inr (Or.inr (Store.first_id hcur ▸ htaken))
        rw [update_move_kept_iff hs hread hcur hv hname hc]
        exact ⟨And.right, fun h => ⟨htaken, h⟩⟩

end Update

/-! ## Deleting -/

theorem delete_kept {s : Store} (hs : Sound s) (w : World) (id : ℕ) : Kept s (.delete w id) := by
  cases hread : w.readFails with
  | true =>
      refine kept_of_unchanged hs ?_
      show (delete s w id).1 = s
      rw [delete, hread, if_pos rfl]
  | false =>
  cases hcur : s.first id with
  | none =>
      refine kept_of_unchanged hs ?_
      show (delete s w id).1 = s
      rw [delete, hread, hcur]
      rfl
  | some cur =>
  cases hw : w.writeFails with
  | true =>
      refine kept_of_unchanged hs ?_
      show (delete s w id).1 = s
      rw [delete, hread, hcur, hw]
      rfl
  | false =>
      have hdelete : delete s w id =
          ((s.erase id).withFiles (removeSafePathIfExists s.files cur.localPath), .ok ()) := by
        rw [← resolveDestPath_eq cur, delete, hread, hcur, hw]
        rfl
      have hstep : step s (.delete w id) =
          (s.erase id).withFiles (removeSafePathIfExists s.files cur.localPath) :=
        congrArg Prod.fst hdelete
      refine kept_of_ok (congrArg Prod.snd hdelete) ?_
      rw [hstep]
      intro r hr
      obtain ⟨hr, hid⟩ := List.mem_filter.1 hr
      have hne : r.localPath ≠ cur.localPath := by
        intro heq
        have hsame := s.eq_of_name hr (Store.first_mem hcur) (Row.localPath_inj.1 heq)
        exact absurd (hsame ▸ Store.first_id hcur) (of_decide_eq_true hid)
      exact (Holds.congr (removeSafePathIfExists_of_ne s.files hne)).2 (hs.held r hr)

/-! ## Every run -/

/-- From a sound store a call keeps what it is to keep exactly when it takes none of the branches
that go wrong. -/
theorem kept_iff_callOk (s : Store) (a : Call) (hs : Sound s) : Kept s a ↔ CallOk s a := by
  cases a with
  | create w f => exact create_kept_iff hs w f
  | update w id f => exact update_kept_iff hs w id f
  | delete w id => exact iff_of_true (delete_kept hs w id) trivial

/-- From a sound store every call of a run leaves every resource its file, and its errors leave
the rows and the other files alone, exactly when no call takes one of the branches that go wrong. -/
theorem geo_files_kept_iff {s : Store} (hs : Sound s) (calls : List Call) :
    AllSteps step Kept s calls ↔ AllSteps step CallOk s calls :=
  AllSteps.congr kept_iff_callOk (fun _ _ _ hkept => hkept.sound) hs

/-- A panel without custom geo resources and files. -/
def noResources : Store where
  seq := 0
  rows := []
  files := fun _ => none
  ids_le := fun _ h => absurd h List.not_mem_nil
  ids := List.nodup_nil
  names := List.nodup_nil

theorem noResources_sound : Sound noResources := ⟨fun _ h => absurd h List.not_mem_nil, List.nodup_nil⟩

def lanForm : Form := ⟨"geoip", "lan", "https://one.example/lan.dat"⟩

/-- A resource is created, refreshed from its own URL, which has not changed, and deleted. -/
def refreshed : List Call :=
  [.create { first := .ok 4096 } lanForm, .update { first := .notModified } 1 lanForm,
    .delete { first := .failed } 1]

theorem refreshed_kept : Sound noResources ∧ AllSteps step Kept noResources refreshed :=
  ⟨noResources_sound, (geo_files_kept_iff noResources_sound refreshed).2 (by decide +kernel)⟩

/-- A resource is given another URL, and the other server finds that the file, dated by the first
one, has not been modified. -/
def otherServer : List Call :=
  [.create { first := .ok 4096 } lanForm,
    .update { first := .notModified } 1 { lanForm with url := "https://two.example/lan.dat" }]

/-- A resource is renamed, and the download fails. -/
def renamed : List Call :=
  [.create { first := .ok 4096 } lanForm, .update { first := .failed } 1 { lanForm with geoAlias := "office" }]

theorem otherServer_renamed_not_kept : Sound noResources ∧
    ¬ AllSteps step Kept noResources otherServer ∧ ¬ AllSteps step Kept noResources renamed := by
  have hiff : ∀ calls, AllSteps step Kept noResources calls ↔ AllSteps step CallOk noResources calls :=
    fun _ => AllSteps.congr kept_iff_callOk (fun _ _ _ hkept => hkept.sound) noResources_sound
  refine ⟨noResources_sound, ?_, ?_⟩
  · rw [hiff]
    decide +kernel
  · rw [hiff]
    decide +kernel

end Simorgh.Panel.GeoFiles
