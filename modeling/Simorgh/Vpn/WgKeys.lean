import Simorgh.Lib.JsonTree
import Simorgh.Vpn.WgPeers

/-!
# Keys in the settings of a WireGuard inbound

`ReconcileKeys` goes over the settings as raw JSON: every account gets a device with its keys for
each place of the User Limit, and what the panel does not know of is to stay as it is.  The
accounts' devices are read elsewhere through structs, and with another rule for accounts from
before there were several devices.

* `reconcileKeys` — the code.  An element of `clients` or `devices` that is no object is a nil
  map, and writing to one is a panic.
* `deviceListOf` — the devices as the rest of the panel reads them.
* `KeysKept` — the keys are complete and belong together, no public key that was listed has
  changed, unknown fields have stayed, and a second run changes nothing.
* `reconcileKeys_eq` — what a run makes of the settings, account by account.
* `keys_kept_iff` — the keys are kept exactly when every account is an object, every private key
  within the limit can be read, and every public key that is listed goes with it.
-/

namespace Simorgh.Vpn.WgKeys

open Simorgh.Lib.Json Simorgh.Panel Simorgh.Vpn.WgPeers

/-! ## Raw values -/

/-- The tree is an object. -/
def isObj : Tree → Bool
  | .obj _ => true
  | _ => false

/-- A map as it is written; the nil map is `null`. -/
def marshalMap : Tree → Tree
  | .obj members => .obj (Tree.toMap members)
  | _ => .null

/-- A member as a string. -/
def jsonString : Option Tree → String
  | some (.str s) => s
  | _ => ""

/-- A member as a flag. -/
def jsonBool : Option Tree → Bool
  | some (.bool b) => b
  | _ => false

/-- `json.Unmarshal` into a slice of maps. -/
def mapsOf : Option Tree → List Tree
  | some (.arr items) => items
  | _ => []

/-- `null` leaves the zero that was there. -/
def userLimitPtrFromRaw (raw : Tree) : Option ℤ :=
  match raw.member? "userLimit" with
  | some .null => some 0
  | some (.num l) => l.int64?
  | _ => none

/-- A write to a map; to the nil map it is a panic. -/
def setRaw (m : Tree) (key : String) (v : Tree) : Option Tree := if isObj m then some (m.set key v) else none

/-! ## Reconciling -/

/-- A value, and whether it has changed; `none` is a panic. -/
abbrev Edit (α : Type) := Option (α × Bool)

/-- One edit after another. -/
def Edit.andThen {α β : Type} (x : Edit α) (f : α → Edit β) : Edit β :=
  x.bind fun r => (f r.1).map fun q => (q.1, r.2 || q.2)

/-- An edit of every element, with its place. -/
def editAll {α β : Type} (f : ℕ → α → Edit β) : ℕ → List α → Edit (List β)
  | _, [] => some ([], false)
  | n, a :: l => (f n a).andThen fun b => (editAll f (n + 1) l).andThen fun bs => some (b :: bs, false)

section Reconcile

variable {K : Type} (ring : KeyRing K)

/-- `setRawString`, where it counts as a change. -/
def setChanged (m : Tree) (key s : String) : Edit Tree := (setRaw m key (.str s)).map fun m => (m, true)

/-- The public key of a private one. -/
def pubOf (priv : String) : Option String := (ring.parse priv).map fun key => ring.text (ring.publicKey key)

/-- The public key of a device that has a private one. -/
def reconcilePub (d : Tree) : Edit Tree :=
  match pubOf ring (jsonString (d.member? "privKey")) with
  | some pub => if jsonString (d.member? "pubKey") ≠ pub then setChanged d "pubKey" pub else some (d, false)
  | none => some (d, false)

/-- The preshared key of a device. -/
def reconcilePsk (pskEnable : Bool) (psk : K) (d : Tree) : Edit Tree :=
  if pskEnable then
    if trimSpace (jsonString (d.member? "psk")) = "" then setChanged d "psk" (ring.text psk) else some (d, false)
  else if jsonString (d.member? "psk") ≠ "" then setChanged d "psk" ""
  else some (d, false)

/-- The keys of a device. -/
def reconcileDevice (pskEnable : Bool) (psk : K) (d : Tree) : Edit Tree :=
  (reconcilePub ring d).andThen (reconcilePsk ring pskEnable psk)

/-- The one device of an account from before there were several. -/
def legacyDevice (c : Tree) : Tree :=
  (((Tree.obj []).set "privKey" (.str (jsonString (c.member? "privKey")))).set "pubKey"
    (.str (jsonString (c.member? "pubKey")))).set "psk" (.str (jsonString (c.member? "psk")))

/-- Whether an account's one key becomes a device. -/
def adopts (c : Tree) : Bool :=
  decide (mapsOf (c.member? "devices") = []) && decide (trimSpace (jsonString (c.member? "privKey")) ≠ "")

/-- The devices that an account comes with. -/
def adopted (c : Tree) : List Tree := if adopts c then [legacyDevice c] else mapsOf (c.member? "devices")

/-- A device with new keys. -/
def mintedDevice (key : K) : Tree :=
  ((Tree.obj []).set "privKey" (.str (ring.text key))).set "pubKey" (.str (ring.text (ring.publicKey key)))

/-- The devices, with new ones up to the limit and none beyond it. -/
def sized (m : Minted K) (k : ℕ) (c : Tree) : List Tree :=
  (adopted c ++ (List.range' (adopted c).length (k - (adopted c).length)).map fun n =>
    mintedDevice ring (m.key n)).take k

/-- The old fields are those of the first device. -/
def mirror (c : Tree) : List Tree → Option Tree
  | [] => some c
  | d :: _ =>
      (setRaw c "privKey" (.str (jsonString (d.member? "privKey")))).bind fun c =>
        (setRaw c "pubKey" (.str (jsonString (d.member? "pubKey")))).bind fun c =>
          setRaw c "psk" (.str (jsonString (d.member? "psk")))

/-- The devices of a client. -/
def reconcileClient (pskEnable : Bool) (k : ℕ) (m : Minted K) (c : Tree) : Edit Tree :=
  (editAll (fun n d => reconcileDevice ring pskEnable (m.psk n) d) 0 (sized ring m k c)).andThen fun devices =>
    (setRaw c "devices" (.arr (devices.map marshalMap))).bind fun c' =>
      (mirror c' devices).map fun c'' => (c'', adopts c || decide ((adopted c).length ≠ k))

/-- The keys that are drawn in a run. -/
structure Draws (K : Type) where
  server : K
  client : ℕ → Minted K

/-- The keys of the server. -/
def reconcileServer (server : K) (raw : Tree) : Tree × Bool :=
  let priv := jsonString (raw.member? "serverPrivKey")
  if trimSpace priv = "" then
    ((raw.set "serverPrivKey" (.str (ring.text server))).set "serverPubKey"
      (.str (ring.text (ring.publicKey server))), true)
  else
    match pubOf ring priv with
    | some pub =>
        if jsonString (raw.member? "serverPubKey") ≠ pub then
          (raw.set "serverPubKey" (.str pub), true) else (raw, false)
    | none => (raw, false)

/-- How `ReconcileKeys` ends. -/
inductive Outcome where
  | error
  | panic
  | done (changed : Bool) (settings : Tree)

/-- `json.Unmarshal` into a map gives no error. -/
def loads : Tree → Bool
  | .obj _ => true
  | .null => true
  | _ => false

/-- `ReconcileKeys`: whether the settings have changed, and the settings. -/
def reconcileKeys (draws : Draws K) (settings : Tree) : Outcome :=
  if loads settings then
    let server := reconcileServer ring draws.server (.obj settings.asMap)
    let raw := server.1
    let clients := mapsOf (raw.member? "clients")
    let k := wgcEffectiveK (userLimitPtrFromRaw raw)
    match editAll (fun n c => reconcileClient ring (jsonBool (raw.member? "pskEnable")) k
      (draws.client n) c) 0 clients with
    | none => .panic
    | some (clients', changed) =>
        if server.2 || changed then
          .done true (if clients' = [] then raw else raw.set "clients" (.arr (clients'.map marshalMap)))
        else .done false settings
  else .error

end Reconcile

/-! ## Reading -/

/-- A string field after decoding into a struct that has a value already. -/
def fieldFrom (name acc : String) (members : List (String × Tree)) : String :=
  members.foldl (fun acc m => if sameName m.1 name then m.2.str?.getD acc else acc) acc

/-- The fields of a device. -/
def decodeDevice (d : WgcDevice) : Tree → WgcDevice
  | .obj members => ⟨fieldFrom "privKey" d.privKey members, fieldFrom "pubKey" d.pubKey members,
    fieldFrom "psk" d.psk members⟩
  | _ => d

/-- A slice is decoded over its old elements, also over those beyond its length: the elements,
and all there is room for. -/
def decodeDevices (slice : List WgcDevice × List WgcDevice) : Tree → List WgcDevice × List WgcDevice
  | .arr [] => ([], [])
  | .arr items =>
      let devices := items.zipIdx.map fun t => decodeDevice (slice.2.getD t.2 {}) t.1
      (devices, devices ++ slice.2.drop items.length)
  | .null => ([], [])
  | _ => slice

/-- The fields of a client. -/
def wgcClientOf (c : Tree) : WgcClient where
  email := c.text "email"
  privKey := c.text "privKey"
  pubKey := c.text "pubKey"
  psk := c.text "psk"
  devices := match c with
    | .obj members =>
        (members.foldl (fun slice m => if sameName m.1 "devices" then decodeDevices slice m.2 else slice) ([], [])).1
    | _ => []

/-- The devices of an account as they are listed. -/
def deviceListOf (c : Tree) : List WgcDevice := (wgcClientOf c).deviceList

/-! ## What is to hold -/

/-- The clients of an inbound. -/
def accounts (settings : Tree) : List Tree := mapsOf (settings.member? "clients")

/-- The devices of a client. -/
def devicesOf (c : Tree) : List Tree := mapsOf (c.member? "devices")

/-- The devices an account may have. -/
def limitOf (settings : Tree) : ℕ := wgcEffectiveK (userLimitPtrFromRaw settings)

/-- The keys of a device. -/
def privOf (d : Tree) : String := jsonString (d.member? "privKey")

def pubKeyOf (d : Tree) : String := jsonString (d.member? "pubKey")

def pskOf (d : Tree) : String := jsonString (d.member? "psk")

section Kept

variable {K : Type} (ring : KeyRing K)

/-- A device has a private key, and the public key that goes with it. -/
def Paired (d : Tree) : Prop := pubOf ring (privOf d) = some (pubKeyOf d)

/-- What is not a field of a device's keys. -/
def SameUnknown (names : List String) (t t' : Tree) : Prop := ∀ key, key ∉ names → t'.member? key = t.member? key

/-- What an account keeps. -/
structure AccountKept (k : ℕ) (before after : Tree) : Prop where
  length : (devicesOf after).length = k
  paired : ∀ d ∈ devicesOf after, Paired ring d
  listed : ∀ j < k, ∀ l, (deviceListOf before)[j]? = some l → ∃ d, (devicesOf after)[j]? = some d ∧
    pubKeyOf d = l.pubKey
  unknown : SameUnknown ["devices", "privKey", "pubKey", "psk"] before after
  unknownDevice : ∀ j < k, ∀ d, (devicesOf before)[j]? = some d →
    ∃ d', (devicesOf after)[j]? = some d' ∧ SameUnknown ["privKey", "pubKey", "psk"] d d'

/-- Whatever keys are drawn, a run ends and has kept the keys of every account, and another run
finds nothing to do. -/
def KeysKept (settings : Tree) : Prop :=
  ∀ draws, ∃ changed out, reconcileKeys ring draws settings = .done changed out ∧
    List.Forall₂ (AccountKept ring (limitOf settings)) (accounts settings) (accounts out) ∧
    SameUnknown ["serverPrivKey", "serverPubKey", "clients"] settings out ∧
    ∀ draws', reconcileKeys ring draws' out = .done false out

/-- An account whose keys can be kept: it is an object, every private key within the limit can be
read, and every public key that is listed goes with the one at its place. -/
structure AccountOk (k : ℕ) (c : Tree) : Prop where
  isObj : isObj c = true
  readable : ∀ d ∈ (adopted c).take k, WgKeys.isObj d = true ∧ (pubOf ring (privOf d)).isSome = true
  listed : ∀ j < k, ∀ l, (deviceListOf c)[j]? = some l → ∃ d, (adopted c)[j]? = some d ∧
    pubOf ring (privOf d) = some l.pubKey

end Kept

/-! ## Maps -/

theorem member?_marshalMap (key : String) (t : Tree) : (marshalMap t).member? key = t.member? key := by
  cases t with
  | obj members => exact Tree.lookup_toMap members key
  | _ => rfl

theorem member?_of_not_obj {t : Tree} (h : isObj t = false) (key : String) : t.member? key = none := by
  cases t with
  | obj members => cases h
  | _ => rfl

theorem isObj_marshalMap (t : Tree) : isObj (marshalMap t) = isObj t := by
  cases t <;> rfl

theorem setRaw_eq_some {m m' : Tree} {key : String} {v : Tree} :
    setRaw m key v = some m' ↔ isObj m = true ∧ m' = m.set key v := by
  rw [setRaw]
  split_ifs with h
  · rw [Option.some.injEq]
    exact ⟨fun heq => ⟨h, heq.symm⟩, fun heq => heq.2.symm⟩
  · exact ⟨fun heq => absurd heq (by simp), fun heq => absurd heq.1 h⟩

theorem isObj_set (t : Tree) (key : String) (v : Tree) : isObj (t.set key v) = true := rfl

/-! ## Edits -/

theorem andThen_eq_some {α β : Type} {x : Edit α} {f : α → Edit β} {r : β × Bool} :
    x.andThen f = some r ↔ ∃ a b b', x = some (a, b) ∧ f a = some (r.1, b') ∧ r.2 = (b || b') := by
  obtain ⟨r, c⟩ := r
  rw [Edit.andThen, Option.bind_eq_some_iff]
  constructor
  · rintro ⟨⟨a, b⟩, hx, hf⟩
    obtain ⟨⟨q, b'⟩, hq, heq⟩ := Option.map_eq_some_iff.1 hf
    cases heq
    exact ⟨a, b, b', hx, hq, rfl⟩
  · rintro ⟨a, b, b', hx, hf, rfl⟩
    exact ⟨(a, b), hx, by rw [hf]; rfl⟩

section EditAll

variable {α β : Type} {f : ℕ → α → Edit β}

/-- What an edit of every element does to each of them. -/
theorem editAll_spec {n : ℕ} {l : List α} {l' : List β} {b : Bool} (h : editAll f n l = some (l', b)) :
    l'.length = l.length ∧ ∀ j a, l[j]? = some a →
      ∃ a' b', l'[j]? = some a' ∧ f (n + j) a = some (a', b') ∧ (b = false → b' = false) := by
  induction l generalizing n l' b with
  | nil =>
      cases h
      exact ⟨rfl, fun j a hj => absurd hj (by simp)⟩
  | cons x l ih =>
      rw [editAll, andThen_eq_some] at h
      obtain ⟨y, b₁, b₂, hy, hrest, hb⟩ := h
      obtain ⟨ys, b₃, b₄, hys, heq, hb'⟩ := andThen_eq_some.1 hrest
      cases heq
      dsimp only at hb hb'
      obtain ⟨hlength, hall⟩ := ih hys
      refine ⟨by rw [List.length_cons, List.length_cons, hlength], fun j a hj => ?_⟩
      cases j with
      | zero =>
          cases hj
          refine ⟨y, b₁, rfl, hy, fun hfalse => ?_⟩
          rw [hb] at hfalse
          exact (Bool.or_eq_false_iff.1 hfalse).1
      | succ j =>
          obtain ⟨a', b', ha', hf, hfalse⟩ := hall j a hj
          refine ⟨a', b', ha', by rw [← hf]; congr 1; omega, fun hbf => hfalse ?_⟩
          rw [hb, hb', Bool.or_eq_false_iff, Bool.or_eq_false_iff] at hbf
          exact hbf.2.1

theorem editAll_cons {n : ℕ} {x : α} {l : List α} {y : β} {ys : List β} {b b' : Bool} (hy : f n x = some (y, b))
    (hys : editAll f (n + 1) l = some (ys, b')) : editAll f n (x :: l) = some (y :: ys, b || b') := by
  rw [editAll, hy, hys]
  simp [Edit.andThen]

theorem exists_editAll {n : ℕ} {l : List α} (h : ∀ j a, l[j]? = some a → ∃ r, f (n + j) a = some r) :
    ∃ r, editAll f n l = some r := by
  induction l generalizing n with
  | nil => exact ⟨_, rfl⟩
  | cons x l ih =>
      obtain ⟨⟨y, b⟩, hy⟩ := h 0 x rfl
      obtain ⟨⟨ys, b'⟩, hys⟩ := ih (n := n + 1) fun j a hj => by
        obtain ⟨r, hr⟩ := h (j + 1) a hj
        exact ⟨r, by rw [← hr]; congr 1; omega⟩
      exact ⟨_, editAll_cons hy hys⟩

/-- Where no element changes, nothing does. -/
theorem editAll_unchanged {n : ℕ} {l : List α} (h : ∀ j a, l[j]? = some a → ∃ a', f (n + j) a = some (a', false)) :
    ∃ l', editAll f n l = some (l', false) := by
  induction l generalizing n with
  | nil => exact ⟨[], rfl⟩
  | cons x l ih =>
      obtain ⟨y, hy⟩ := h 0 x rfl
      obtain ⟨ys, hys⟩ := ih (n := n + 1) fun j a hj => by
        obtain ⟨a', ha'⟩ := h (j + 1) a hj
        exact ⟨a', by rw [← ha']; congr 1; omega⟩
      exact ⟨y :: ys, editAll_cons hy hys⟩

end EditAll

/-! ## One device -/

section Device

variable {K : Type} (ring : KeyRing K) (pskEnable : Bool)

/-- A device that a run leaves as it is. -/
def Settled (d : Tree) : Prop :=
  (∀ pub, pubOf ring (privOf d) = some pub → pubKeyOf d = pub) ∧
    if pskEnable then trimSpace (pskOf d) ≠ "" else pskOf d = ""

/-- What a run does to a device: its private key stays, and the public key is the one that goes
with it. -/
structure DeviceAfter (d d' : Tree) : Prop where
  isObj : isObj d' = isObj d
  priv : privOf d' = privOf d
  pub : pubKeyOf d' = (pubOf ring (privOf d)).getD (pubKeyOf d)
  unknown : SameUnknown ["privKey", "pubKey", "psk"] d d'

theorem privOf_set {d : Tree} {key : String} {v : Tree} (hkey : key ≠ "privKey") : privOf (d.set key v) = privOf d := by
  rw [privOf, Tree.member?_set, if_neg hkey, privOf]

theorem pubKeyOf_set {d : Tree} {key : String} {v : Tree} (hkey : key ≠ "pubKey") : pubKeyOf
    (d.set key v) = pubKeyOf d := by
  rw [pubKeyOf, Tree.member?_set, if_neg hkey, pubKeyOf]

theorem sameUnknown_set {names : List String} {d : Tree} {key : String} {v : Tree} (hkey : key ∈ names) :
    SameUnknown names d (d.set key v) := by
  intro name hname
  rw [Tree.member?_set, if_neg]
  rintro rfl
  exact hname hkey

theorem SameUnknown.trans {names : List String} {t t' t'' : Tree} (h : SameUnknown names t t')
    (h' : SameUnknown names t' t'') : SameUnknown names t t'' :=
  fun key hkey => (h' key hkey).trans (h key hkey)

theorem setChanged_eq_some {m m' : Tree} {key s : String} {b : Bool} :
    setChanged m key s = some (m', b) ↔ isObj m = true ∧ m' = m.set key (.str s) ∧ b = true := by
  rw [setChanged, Option.map_eq_some_iff]
  constructor
  · rintro ⟨m₁, hset, heq⟩
    cases heq
    obtain ⟨hobj, rfl⟩ := setRaw_eq_some.1 hset
    exact ⟨hobj, rfl, rfl⟩
  · rintro ⟨hobj, rfl, rfl⟩
    exact ⟨_, setRaw_eq_some.2 ⟨hobj, rfl⟩, rfl⟩

/-- What becomes of the public key. -/
theorem reconcilePub_cases {d d' : Tree} {b : Bool} (h : reconcilePub ring d = some (d', b)) :
    (d' = d ∧ b = false ∧ ∀ pub, pubOf ring (privOf d) = some pub → pubKeyOf d = pub) ∨
      ∃ pub, pubOf ring (privOf d) = some pub ∧ isObj d = true ∧ d' = d.set "pubKey" (.str pub) ∧ b = true := by
  rw [reconcilePub] at h
  cases hpub : pubOf ring (privOf d) with
  | none =>
      rw [privOf] at hpub
      rw [hpub] at h
      cases h
      exact .inl ⟨rfl, rfl, fun pub hpub' => absurd hpub' (by simp)⟩
  | some pub =>
      have hraw : pubOf ring (jsonString (d.member? "privKey")) = some pub := hpub
      rw [hraw] at h
      dsimp only at h
      split_ifs at h with hsame
      · obtain ⟨hobj, hd', hb⟩ := setChanged_eq_some.1 h
        exact .inr ⟨pub, rfl, hobj, hd', hb⟩
      · cases h
        refine .inl ⟨rfl, rfl, fun pub' hpub' => ?_⟩
        rw [← Option.some.inj hpub']
        exact not_not.1 hsame

/-- What becomes of the preshared key. -/
theorem reconcilePsk_cases {psk : K} {d d' : Tree} {b : Bool} (h : reconcilePsk ring pskEnable psk d = some (d', b)) :
    (d' = d ∧ b = false ∧ if pskEnable then trimSpace (pskOf d) ≠ "" else pskOf d = "") ∨
      ∃ s, isObj d = true ∧ d' = d.set "psk" (.str s) ∧ b = true ∧ if pskEnable then trimSpace s ≠ "" else s = "" := by
  rw [reconcilePsk] at h
  cases pskEnable with
  | true =>
      rw [if_pos rfl] at h
      split_ifs at h with hempty
      · obtain ⟨hobj, hd', hb⟩ := setChanged_eq_some.1 h
        exact .inr ⟨ring.text psk, hobj, hd', hb, ring.trimSpace_text psk⟩
      · cases h
        exact .inl ⟨rfl, rfl, hempty⟩
  | false =>
      rw [if_neg Bool.false_ne_true] at h
      split_ifs at h with hempty
      · obtain ⟨hobj, hd', hb⟩ := setChanged_eq_some.1 h
        exact .inr ⟨"", hobj, hd', hb, rfl⟩
      · cases h
        exact .inl ⟨rfl, rfl, not_not.1 hempty⟩

theorem reconcilePub_spec {d d' : Tree} {b : Bool} (h : reconcilePub ring d = some (d', b)) :
    DeviceAfter ring d d' ∧ (∀ pub, pubOf ring (privOf d') = some pub → pubKeyOf d' = pub) ∧ (b = false → d' = d) := by
  obtain ⟨rfl, -, hmatch⟩ | ⟨pub, hpub, hobj, rfl, rfl⟩ := reconcilePub_cases ring h
  · refine ⟨⟨rfl, rfl, ?_, fun key _ => rfl⟩, hmatch, fun _ => rfl⟩
    cases hpub : pubOf ring (privOf d') with
    | none => rfl
    | some pub => exact hmatch pub hpub
  · have hpriv : privOf (d.set "pubKey" (.str pub)) = privOf d := privOf_set (by decide)
    have hset : pubKeyOf (d.set "pubKey" (.str pub)) = pub := by
      rw [pubKeyOf, Tree.member?_set, if_pos rfl, jsonString]
    refine ⟨⟨by rw [isObj_set, hobj], hpriv, by rw [hset, hpub]; rfl, sameUnknown_set (by decide)⟩, ?_,
      fun hb => absurd hb (by decide)⟩
    intro pub' hpub'
    rw [hpriv, hpub] at hpub'
    rw [hset]
    exact Option.some.inj hpub'

theorem reconcilePsk_spec {psk : K} {d d' : Tree} {b : Bool} (h : reconcilePsk ring pskEnable psk d = some (d', b)) :
    (isObj d' = isObj d ∧ privOf d' = privOf d ∧ pubKeyOf d' = pubKeyOf d ∧
      SameUnknown ["privKey", "pubKey", "psk"] d d') ∧
      (if pskEnable then trimSpace (pskOf d') ≠ "" else pskOf d' = "") ∧ (b = false → d' = d) := by
  obtain ⟨rfl, -, hpsk⟩ | ⟨s, hobj, rfl, rfl, hs⟩ := reconcilePsk_cases ring pskEnable h
  · exact ⟨⟨rfl, rfl, rfl, fun key _ => rfl⟩, hpsk, fun _ => rfl⟩
  · have hset : pskOf (d.set "psk" (.str s)) = s := by
      rw [pskOf, Tree.member?_set, if_pos rfl, jsonString]
    refine ⟨⟨by rw [isObj_set, hobj], privOf_set (by decide), pubKeyOf_set (by decide),
      sameUnknown_set (by decide)⟩, ?_,
      fun hb => absurd hb (by decide)⟩
    rw [hset]
    exact hs

/-- What a run does to a device, and what it is afterwards. -/
theorem reconcileDevice_spec {psk : K} {d d' : Tree} {b : Bool}
    (h : reconcileDevice ring pskEnable psk d = some (d', b)) :
    DeviceAfter ring d d' ∧ Settled ring pskEnable d' ∧ (b = false → d' = d) := by
  obtain ⟨d₁, b₁, b₂, hpub, hpsk, hb⟩ := andThen_eq_some.1 h
  dsimp only at hpsk hb
  obtain ⟨hafter, hmatch, hsame⟩ := reconcilePub_spec ring hpub
  obtain ⟨⟨hobj, hpriv, hkey, hunknown⟩, hsettled, hsame'⟩ := reconcilePsk_spec ring pskEnable hpsk
  refine ⟨⟨hobj.trans hafter.isObj, hpriv.trans hafter.priv, hkey.trans hafter.pub, hafter.unknown.trans hunknown⟩,
    ⟨?_, hsettled⟩, fun hfalse => ?_⟩
  · rw [hpriv, hkey]
    exact hmatch
  · rw [hb, Bool.or_eq_false_iff] at hfalse
    rw [hsame' hfalse.2, hsame hfalse.1]

theorem reconcileDevice_of_settled {d : Tree} (h : Settled ring pskEnable d) (psk : K) :
    reconcileDevice ring pskEnable psk d = some (d, false) := by
  have hpub : reconcilePub ring d = some (d, false) := by
    rw [reconcilePub]
    cases hpub : pubOf ring (jsonString (d.member? "privKey")) with
    | none => rfl
    | some pub =>
        dsimp only
        rw [if_neg]
        exact not_not.2 (h.1 pub hpub)
  have hpsk : reconcilePsk ring pskEnable psk d = some (d, false) := by
    have hsettled := h.2
    rw [reconcilePsk]
    cases pskEnable with
    | true =>
        rw [if_pos rfl] at hsettled
        rw [if_pos rfl, if_neg]
        exact hsettled
    | false =>
        rw [if_neg Bool.false_ne_true] at hsettled
        rw [if_neg Bool.false_ne_true, if_neg]
        exact not_not.2 hsettled
  exact andThen_eq_some.2 ⟨d, false, false, hpub, hpsk, rfl⟩

theorem exists_setChanged {d : Tree} (h : isObj d = true) (key s : String) : ∃ r, setChanged d key s = some r :=
  ⟨_, setChanged_eq_some.2 ⟨h, rfl, rfl⟩⟩

theorem exists_reconcileDevice {d : Tree} (h : isObj d = true) (psk : K) :
    ∃ r, reconcileDevice ring pskEnable psk d = some r := by
  have hpub : ∃ r, reconcilePub ring d = some r := by
    rw [reconcilePub]
    cases pubOf ring (jsonString (d.member? "privKey")) with
    | none => exact ⟨_, rfl⟩
    | some pub =>
        dsimp only
        split_ifs
        · exact exists_setChanged h _ _
        · exact ⟨_, rfl⟩
  obtain ⟨⟨d₁, b₁⟩, hd₁⟩ := hpub
  have hobj : isObj d₁ = true := (reconcilePub_spec ring hd₁).1.isObj.trans h
  have hpsk : ∃ r, reconcilePsk ring pskEnable psk d₁ = some r := by
    rw [reconcilePsk]
    split_ifs
    · exact exists_setChanged hobj _ _
    · exact ⟨_, rfl⟩
    · exact exists_setChanged hobj _ _
    · exact ⟨_, rfl⟩
  obtain ⟨⟨d₂, b₂⟩, hd₂⟩ := hpsk
  exact ⟨(d₂, b₁ || b₂), andThen_eq_some.2 ⟨d₁, b₁, b₂, hd₁, hd₂, rfl⟩⟩

theorem settled_marshalMap {d : Tree} : Settled ring pskEnable (marshalMap d) ↔ Settled ring pskEnable d := by
  simp only [Settled, privOf, pubKeyOf, pskOf, member?_marshalMap]

end Device

/-! ## One account -/

section Client

variable {K : Type} (ring : KeyRing K) (pskEnable : Bool) (k : ℕ)

theorem length_sized (m : Minted K) (c : Tree) : (sized ring m k c).length = k := by
  rw [sized, List.length_take, List.length_append, List.length_map, List.length_range']
  omega

/-- The devices an account comes with are first. -/
theorem sized_of_adopted (m : Minted K) {c d : Tree} {j : ℕ} (hj : j < k) (h : (adopted c)[j]? = some d) :
    (sized ring m k c)[j]? = some d := by
  rw [sized, List.getElem?_take_of_lt hj, List.getElem?_append_left (List.getElem?_eq_some_iff.1 h).1, h]

/-- Further ones are new. -/
theorem sized_of_length_le (m : Minted K) {c : Tree} {j : ℕ} (hj : j < k) (h : (adopted c).length ≤ j) :
    (sized ring m k c)[j]? = some (mintedDevice ring (m.key j)) := by
  rw [sized, List.getElem?_take_of_lt hj, List.getElem?_append_right h, List.getElem?_map,
    List.getElem?_range' (by omega), Option.map_some]
  congr 3
  omega

theorem pubOf_mintedDevice (key : K) :
    isObj (mintedDevice ring key) = true ∧
      pubOf ring (privOf (mintedDevice ring key)) = some (ring.text (ring.publicKey key)) := by
  have hpriv : privOf (mintedDevice ring key) = ring.text key := by
    rw [mintedDevice, privOf_set (by decide), privOf, Tree.member?_set, if_pos rfl, jsonString]
  refine ⟨rfl, ?_⟩
  rw [hpriv, pubOf, ring.parse_text, Option.map_some]

/-- An account that a run leaves as it is. -/
structure ClientSettled (c : Tree) : Prop where
  adopts : adopts c = false
  length : (devicesOf c).length = k
  devices : ∀ d ∈ devicesOf c, Settled ring pskEnable d

/-- What a run makes of an account. -/
structure ClientAfter (m : Minted K) (c c' : Tree) : Prop where
  length : (devicesOf c').length = k
  devices : ∀ (j : ℕ) (d : Tree), (sized ring m k c)[j]? = some d →
    ∃ d', (devicesOf c')[j]? = some d' ∧ DeviceAfter ring d d'
  unknown : SameUnknown ["devices", "privKey", "pubKey", "psk"] c c'

theorem mirror_spec {c c' : Tree} {devices : List Tree} (h : mirror c devices = some c') :
    c'.member? "devices" = c.member? "devices" ∧ SameUnknown ["devices", "privKey", "pubKey", "psk"] c c' ∧
      (isObj c = true → isObj c' = true) := by
  cases devices with
  | nil =>
      cases h
      exact ⟨rfl, fun key _ => rfl, fun h => h⟩
  | cons d ds =>
      obtain ⟨c₁, h₁, h⟩ := Option.bind_eq_some_iff.1 h
      obtain ⟨c₂, h₂, h₃⟩ := Option.bind_eq_some_iff.1 h
      obtain ⟨-, rfl⟩ := setRaw_eq_some.1 h₁
      obtain ⟨-, rfl⟩ := setRaw_eq_some.1 h₂
      obtain ⟨-, rfl⟩ := setRaw_eq_some.1 h₃
      refine ⟨?_, ?_, fun _ => rfl⟩
      · rw [Tree.member?_set, if_neg (by decide), Tree.member?_set, if_neg (by decide), Tree.member?_set,
          if_neg (by decide)]
      · exact ((sameUnknown_set (by decide)).trans (sameUnknown_set (by decide))).trans (sameUnknown_set (by decide))

theorem exists_mirror {c : Tree} (h : isObj c = true) (devices : List Tree) : ∃ c', mirror c devices = some c' := by
  cases devices with
  | nil => exact ⟨c, rfl⟩
  | cons d ds =>
      have hset : ∀ {t : Tree} (key : String) (v : Tree), isObj t = true → setRaw t key v = some (t.set key v) :=
        fun key v ht => setRaw_eq_some.2 ⟨ht, rfl⟩
      rw [mirror, hset _ _ h, Option.bind_some, hset _ _ rfl, Option.bind_some, hset _ _ rfl]
      exact ⟨_, rfl⟩

/-- What the last steps for an account do. -/
theorem reconcileClient_eq_some {m : Minted K} {c c' : Tree} {b : Bool} :
    reconcileClient ring pskEnable k m c = some (c', b) ↔
      ∃ devices b', editAll (fun n d => reconcileDevice ring pskEnable (m.psk n) d) 0
        (sized ring m k c) = some (devices, b') ∧
        isObj c = true ∧ mirror (c.set "devices" (.arr (devices.map marshalMap))) devices = some c' ∧
        b = (b' || (adopts c || decide ((adopted c).length ≠ k))) := by
  rw [reconcileClient, andThen_eq_some]
  constructor
  · rintro ⟨devices, b₁, b₂, hdevices, hrest, hb⟩
    obtain ⟨c₁, hset, hrest⟩ := Option.bind_eq_some_iff.1 hrest
    obtain ⟨hobj, rfl⟩ := setRaw_eq_some.1 hset
    obtain ⟨c₂, hmirror, heq⟩ := Option.map_eq_some_iff.1 hrest
    cases heq
    exact ⟨devices, b₁, hdevices, hobj, hmirror, hb⟩
  · rintro ⟨devices, b', hdevices, hobj, hmirror, hb⟩
    refine ⟨devices, b', _, hdevices, ?_, hb⟩
    rw [setRaw_eq_some.2 ⟨hobj, rfl⟩, Option.bind_some, hmirror]
    rfl

variable {k} in
theorem adopts_of_length {c : Tree} (hk : 1 ≤ k) (h : (devicesOf c).length = k) : adopts c = false := by
  rw [adopts, Bool.and_eq_false_iff]
  refine .inl (decide_eq_false fun hnil => ?_)
  rw [devicesOf, hnil, List.length_nil] at h
  omega

theorem adopted_of_not_adopts {c : Tree} (h : adopts c = false) : adopted c = devicesOf c := by
  rw [adopted, if_neg (by rw [h]; decide), devicesOf]

variable {k} in
/-- A run leaves an account settled, and one that it does not change was settled before. -/
theorem reconcileClient_spec {m : Minted K} {c c' : Tree} {b : Bool} (hk : 1 ≤ k)
    (h : reconcileClient ring pskEnable k m c = some (c', b)) :
    isObj c = true ∧ isObj c' = true ∧ ClientAfter ring k m c c' ∧ ClientSettled ring pskEnable k c' ∧
      (b = false → ClientSettled ring pskEnable k c) := by
  obtain ⟨devices, b', hdevices, hobj, hmirror, hb⟩ := (reconcileClient_eq_some ring pskEnable k).1 h
  obtain ⟨hlength, hall⟩ := editAll_spec hdevices
  obtain ⟨hmember, hunknown, hobj'⟩ := mirror_spec hmirror
  have hafter : devicesOf c' = devices.map marshalMap := by
    rw [devicesOf, hmember, Tree.member?_set, if_pos rfl]
    rfl
  rw [length_sized] at hlength
  have hlength' : (devicesOf c').length = k := by rw [hafter, List.length_map, hlength]
  refine ⟨hobj, hobj' rfl, ⟨hlength', fun j d hd => ?_, (sameUnknown_set (by decide)).trans hunknown⟩,
    ⟨adopts_of_length hk hlength', hlength', fun d hd => ?_⟩, fun hfalse => ?_⟩
  · obtain ⟨d', b₁, hd', hrun, -⟩ := hall j d hd
    have hspec := (reconcileDevice_spec ring pskEnable hrun).1
    refine ⟨marshalMap d', by rw [hafter, List.getElem?_map, hd', Option.map_some], ?_⟩
    exact ⟨(isObj_marshalMap d').trans hspec.isObj, by rw [privOf, member?_marshalMap]; exact hspec.priv,
      by rw [pubKeyOf, member?_marshalMap]; exact hspec.pub,
      fun key hkey => (member?_marshalMap key d').trans (hspec.unknown key hkey)⟩
  · rw [hafter] at hd
    obtain ⟨d', hd', rfl⟩ := List.mem_map.1 hd
    obtain ⟨j, hj, rfl⟩ := List.mem_iff_getElem.1 hd'
    have hin : j < (sized ring m k c).length := by rw [length_sized, ← hlength]; exact hj
    obtain ⟨d₁, b₁, hd₁, hrun, -⟩ := hall j _ (List.getElem?_eq_getElem hin)
    rw [List.getElem?_eq_getElem hj] at hd₁
    cases hd₁
    exact (settled_marshalMap ring pskEnable).2 (reconcileDevice_spec ring pskEnable hrun).2.1
  · rw [hb, Bool.or_eq_false_iff, Bool.or_eq_false_iff] at hfalse
    obtain ⟨hb', hadopts, hsize⟩ := hfalse
    have hcount : (adopted c).length = k := not_not.1 (of_decide_eq_false hsize)
    have hadopted := adopted_of_not_adopts hadopts
    refine ⟨hadopts, by rw [← hadopted, hcount], fun d hd => ?_⟩
    rw [← hadopted] at hd
    obtain ⟨j, hj, rfl⟩ := List.mem_iff_getElem.1 hd
    have hsized := sized_of_adopted ring k m (by omega : j < k) (List.getElem?_eq_getElem hj)
    obtain ⟨d₁, b₁, -, hrun, hsame⟩ := hall j _ hsized
    have hspec := reconcileDevice_spec ring pskEnable hrun
    rw [← hspec.2.2 (hsame hb')]
    exact hspec.2.1

variable {k} in
/-- A settled account has as many devices as it should. -/
theorem sized_of_settled {c : Tree} (h : ClientSettled ring pskEnable k c) (m : Minted K) {j : ℕ} {d : Tree}
    (hd : (sized ring m k c)[j]? = some d) : (devicesOf c)[j]? = some d := by
  have hj : j < k := by
    rw [← length_sized ring k m c]
    exact (List.getElem?_eq_some_iff.1 hd).1
  have hin : j < (devicesOf c).length := by rw [h.length]; exact hj
  have hsized := sized_of_adopted ring k m hj
    (by rw [adopted_of_not_adopts h.adopts]; exact List.getElem?_eq_getElem hin)
  rw [hd] at hsized
  rw [List.getElem?_eq_getElem hin]
  exact hsized.symm

variable {k} in
theorem clientAfter_of_settled {c : Tree} (h : ClientSettled ring pskEnable k c) (m : Minted K) :
    ClientAfter ring k m c c := by
  refine ⟨h.length, fun j d hd => ⟨d, sized_of_settled ring pskEnable h m hd, rfl, rfl, ?_, fun key _ => rfl⟩,
    fun key _ => rfl⟩
  have hsettled := h.devices d (List.mem_of_getElem? (sized_of_settled ring pskEnable h m hd))
  cases hpub : pubOf ring (privOf d) with
  | none => rfl
  | some pub => exact hsettled.1 pub hpub

variable {k} in
theorem reconcileClient_of_settled {c : Tree} (hobj : isObj c = true)
    (h : ClientSettled ring pskEnable k c) (m : Minted K) :
    ∃ c', reconcileClient ring pskEnable k m c = some (c', false) := by
  have hall : ∀ (j : ℕ) (d : Tree), (sized ring m k c)[j]? = some d →
      ∃ d', reconcileDevice ring pskEnable (m.psk (0 + j)) d = some (d', false) :=
    fun j d hd => ⟨d, reconcileDevice_of_settled ring pskEnable
      (h.devices d (List.mem_of_getElem? (sized_of_settled ring pskEnable h m hd))) _⟩
  obtain ⟨devices, hdevices⟩ :=
    editAll_unchanged (f := fun n d => reconcileDevice ring pskEnable (m.psk n) d) hall
  obtain ⟨c', hc'⟩ := exists_mirror (isObj_set c "devices" (.arr (devices.map marshalMap))) devices
  have hcount : (adopted c).length = k := by rw [adopted_of_not_adopts h.adopts, h.length]
  refine ⟨c', (reconcileClient_eq_some ring pskEnable k).2 ⟨devices, false, hdevices, hobj, hc', ?_⟩⟩
  rw [h.adopts, hcount]
  simp

theorem exists_reconcileClient {c : Tree} (hobj : isObj c = true) (h : ∀ d ∈ (adopted c).take k, isObj d = true)
    (m : Minted K) : ∃ r, reconcileClient ring pskEnable k m c = some r := by
  have hall : ∀ (j : ℕ) (d : Tree), (sized ring m k c)[j]? = some d →
      ∃ r, reconcileDevice ring pskEnable (m.psk (0 + j)) d = some r := by
    intro j d hd
    refine exists_reconcileDevice ring pskEnable ?_ _
    have hj : j < k := by
      rw [← length_sized ring k m c]
      exact (List.getElem?_eq_some_iff.1 hd).1
    by_cases hin : j < (adopted c).length
    · have hown := sized_of_adopted ring k m hj (List.getElem?_eq_getElem hin)
      rw [hd] at hown
      cases hown
      refine h _ (List.mem_of_getElem? (i := j) ?_)
      rw [List.getElem?_take_of_lt hj, List.getElem?_eq_getElem hin]
    · have hnew := sized_of_length_le ring k m hj (by omega : (adopted c).length ≤ j)
      rw [hd] at hnew
      cases hnew
      exact (pubOf_mintedDevice ring _).1
  obtain ⟨⟨devices, b⟩, hdevices⟩ :=
    exists_editAll (f := fun n d => reconcileDevice ring pskEnable (m.psk n) d) hall
  obtain ⟨c', hc'⟩ := exists_mirror (isObj_set c "devices" (.arr (devices.map marshalMap))) devices
  exact ⟨_, (reconcileClient_eq_some ring pskEnable k).2 ⟨devices, b, hdevices, hobj, hc', rfl⟩⟩

variable {k} in
/-- A device of an account after a run was there before, or is new. -/
theorem ClientAfter.origin {m : Minted K} {c c' : Tree} (h : ClientAfter ring k m c c') {j : ℕ} {d' : Tree}
    (hd' : (devicesOf c')[j]? = some d') :
    j < k ∧ ∃ d, DeviceAfter ring d d' ∧ ((adopted c)[j]? = some d ∨
      (adopted c).length ≤ j ∧ d = mintedDevice ring (m.key j)) := by
  have hj : j < k := by
    rw [← h.length]
    exact (List.getElem?_eq_some_iff.1 hd').1
  by_cases hin : j < (adopted c).length
  · have hown := List.getElem?_eq_getElem hin
    obtain ⟨d₁, hd₁, hafter⟩ := h.devices j _ (sized_of_adopted ring k m hj hown)
    rw [hd'] at hd₁
    cases hd₁
    exact ⟨hj, _, hafter, .inl hown⟩
  · have hle : (adopted c).length ≤ j := by omega
    obtain ⟨d₁, hd₁, hafter⟩ := h.devices j _ (sized_of_length_le ring k m hj hle)
    rw [hd'] at hd₁
    cases hd₁
    exact ⟨hj, _, hafter, .inr ⟨hle, rfl⟩⟩

theorem not_pubOf_empty (priv : String) : pubOf ring priv ≠ some "" := by
  intro h
  obtain ⟨key, -, htext⟩ := Option.map_eq_some_iff.1 h
  have hblank := ring.trimSpace_text (ring.publicKey key)
  rw [htext] at hblank
  exact hblank (by decide)

variable {k} in
theorem mem_take_adopted {c d : Tree} (hd : d ∈ (adopted c).take k) : ∃ j < k, (adopted c)[j]? = some d := by
  obtain ⟨j, hj, rfl⟩ := List.mem_iff_getElem.1 hd
  rw [List.length_take] at hj
  refine ⟨j, by omega, ?_⟩
  rw [List.getElem_take, List.getElem?_eq_getElem (by omega)]

variable {k} in
/-- What is kept of an account tells that it was in order, unless a new key is one it had. -/
theorem accountOk_of_kept {m : Minted K} {c c' : Tree} (hobj : isObj c = true) (h : ClientAfter ring k m c c')
    (hfresh : ∀ j < k, ∀ l, (deviceListOf c)[j]? = some l → ring.text (ring.publicKey (m.key j)) ≠ l.pubKey)
    (hkept : AccountKept ring k c c') : AccountOk ring k c := by
  refine ⟨hobj, fun d hd => ?_, fun j hj l hl => ?_⟩
  · obtain ⟨j, hj, hown⟩ := mem_take_adopted hd
    obtain ⟨d', hd', hafter⟩ := h.devices j d (sized_of_adopted ring k m hj hown)
    have hpair : pubOf ring (privOf d') = some (pubKeyOf d') := hkept.paired d' (List.mem_of_getElem? hd')
    rw [hafter.priv] at hpair
    refine ⟨?_, by rw [hpair]; rfl⟩
    by_contra hnot
    have hnil : isObj d' = false := hafter.isObj.trans (Bool.not_eq_true _ ▸ hnot)
    rw [pubKeyOf, member?_of_not_obj hnil] at hpair
    exact not_pubOf_empty ring _ hpair
  · obtain ⟨d', hd', hpub⟩ := hkept.listed j hj l hl
    have hpair : pubOf ring (privOf d') = some (pubKeyOf d') := hkept.paired d' (List.mem_of_getElem? hd')
    obtain ⟨-, d, hafter, hown | ⟨-, rfl⟩⟩ := h.origin ring hd'
    · refine ⟨d, hown, ?_⟩
      rw [← hafter.priv, hpair, hpub]
    · -- the key at this place is new
      have hnew := hafter.pub
      rw [(pubOf_mintedDevice ring _).2, Option.getD_some] at hnew
      exact absurd (hnew.symm.trans hpub) (hfresh j hj l hl)

variable {k} in
/-- The keys of an account that was in order are kept. -/
theorem accountKept_of_ok {m : Minted K} {c c' : Tree} (h : ClientAfter ring k m c c') (hok : AccountOk ring k c) :
    AccountKept ring k c c' := by
  refine ⟨h.length, fun d' hd' => ?_, fun j hj l hl => ?_, h.unknown, fun j hj d hd => ?_⟩
  · obtain ⟨j, hj, rfl⟩ := List.mem_iff_getElem.1 hd'
    obtain ⟨hlt, d, hafter, horigin⟩ := h.origin ring (List.getElem?_eq_getElem hj)
    have hsome : (pubOf ring (privOf d)).isSome = true := by
      obtain hown | ⟨-, rfl⟩ := horigin
      · refine (hok.readable d (List.mem_of_getElem? (i := j) ?_)).2
        rw [List.getElem?_take_of_lt hlt, hown]
      · rw [(pubOf_mintedDevice ring _).2]
        rfl
    obtain ⟨pub, hpub⟩ := Option.isSome_iff_exists.1 hsome
    rw [Paired, hafter.priv, hafter.pub, hpub, Option.getD_some]
  · obtain ⟨d, hown, hpub⟩ := hok.listed j hj l hl
    obtain ⟨d', hd', hafter⟩ := h.devices j d (sized_of_adopted ring k m hj hown)
    refine ⟨d', hd', ?_⟩
    rw [hafter.pub, hpub, Option.getD_some]
  · have hadopts : adopts c = false := by
      rw [adopts, Bool.and_eq_false_iff]
      refine .inl (decide_eq_false fun hnil => ?_)
      rw [devicesOf, hnil] at hd
      cases hd
    obtain ⟨d', hd', hafter⟩ := h.devices j d
      (sized_of_adopted ring k m hj (by rw [adopted_of_not_adopts hadopts, hd]))
    exact ⟨d', hd', hafter.unknown⟩

end Client

/-! ## The settings -/

section Settings

variable {K : Type} (ring : KeyRing K)

/-- Keys of the server that a run leaves as they are. -/
def ServerSettled (raw : Tree) : Prop :=
  trimSpace (jsonString (raw.member? "serverPrivKey")) ≠ "" ∧
    ∀ pub, pubOf ring (jsonString (raw.member? "serverPrivKey")) = some pub →
      jsonString (raw.member? "serverPubKey") = pub

theorem reconcileServer_of_settled {raw : Tree} (h : ServerSettled ring raw) (server : K) :
    reconcileServer ring server raw = (raw, false) := by
  rw [reconcileServer, if_neg h.1]
  cases hpub : pubOf ring (jsonString (raw.member? "serverPrivKey")) with
  | none => rfl
  | some pub =>
      dsimp only
      rw [if_neg]
      exact not_not.2 (h.2 pub hpub)

/-- What a run does to the keys of the server. -/
theorem reconcileServer_spec (server : K) (raw : Tree) :
    SameUnknown ["serverPrivKey", "serverPubKey"] raw (reconcileServer ring server raw).1 ∧
      ServerSettled ring (reconcileServer ring server raw).1 ∧
      ((reconcileServer ring server raw).2 = false → (reconcileServer ring server raw).1 = raw) ∧
      (isObj raw = true → isObj (reconcileServer ring server raw).1 = true) := by
  have hprivate : ∀ v : Tree, (raw.set "serverPubKey" v).member? "serverPrivKey" = raw.member? "serverPrivKey" := by
    intro v
    rw [Tree.member?_set, if_neg (by decide)]
  rw [reconcileServer]
  split_ifs with hblank
  · -- a new key pair
    refine ⟨(sameUnknown_set (by decide)).trans (sameUnknown_set (by decide)), ⟨?_, ?_⟩, fun h => absurd h (by decide),
      fun _ => rfl⟩
    · rw [Tree.member?_set, if_neg (by decide), Tree.member?_set, if_pos rfl]
      exact ring.trimSpace_text server
    · intro pub hpub
      rw [Tree.member?_set, if_neg (by decide), Tree.member?_set, if_pos rfl, jsonString, pubOf,
        ring.parse_text] at hpub
      rw [Tree.member?_set, if_pos rfl, jsonString]
      exact Option.some.inj hpub
  · cases hpub : pubOf ring (jsonString (raw.member? "serverPrivKey")) with
    | none =>
        refine ⟨fun key _ => rfl, ⟨hblank, fun pub hpub' => ?_⟩, fun _ => rfl, fun h => h⟩
        rw [hpub] at hpub'
        cases hpub'
    | some pub =>
        dsimp only
        split_ifs with hsame
        · refine ⟨sameUnknown_set (by decide), ⟨?_, ?_⟩, fun h => absurd h (by decide), fun _ => rfl⟩
          · rw [hprivate]
            exact hblank
          · intro pub' hpub'
            rw [hprivate, hpub] at hpub'
            rw [Tree.member?_set, if_pos rfl, jsonString]
            exact Option.some.inj hpub'
        · refine ⟨fun key _ => rfl, ⟨hblank, fun pub' hpub' => ?_⟩, fun _ => rfl, fun h => h⟩
          rw [hpub] at hpub'
          rw [← Option.some.inj hpub']
          exact not_not.1 hsame

/-- Preshared keys are on. -/
def pskEnableOf (settings : Tree) : Bool := jsonBool (settings.member? "pskEnable")

/-- The settings in memory, with the keys of the server. -/
def serverDone (server : K) (settings : Tree) : Tree × Bool := reconcileServer ring server (.obj settings.asMap)

theorem member?_serverDone (server : K) (settings : Tree) (key : String)
    (hkey : key ∉ ["serverPrivKey", "serverPubKey"]) :
    (serverDone ring server settings).1.member? key = settings.member? key :=
  ((reconcileServer_spec ring server _).1 key hkey).trans (Tree.lookup_asMap key settings)

/-- The accounts, one after the other. -/
def runClients (draws : Draws K) (settings : Tree) : Edit (List Tree) :=
  editAll (fun n c => reconcileClient ring (pskEnableOf settings) (limitOf settings) (draws.client n) c) 0
    (accounts settings)

/-- The settings with the accounts of a run. -/
def withAccounts (raw : Tree) (clients : List Tree) : Tree :=
  if clients = [] then raw else raw.set "clients" (.arr (clients.map marshalMap))

/-- The run of the accounts decides how a run ends. -/
theorem reconcileKeys_eq (draws : Draws K) {settings : Tree} (h : loads settings = true) :
    (runClients ring draws settings = none → reconcileKeys ring draws settings = .panic) ∧
      ∀ clients b, runClients ring draws settings = some (clients, b) →
        reconcileKeys ring draws settings =
          if (serverDone ring draws.server settings).2 || b then
            .done true (withAccounts (serverDone ring draws.server settings).1 clients)
          else .done false settings := by
  have hclients := member?_serverDone ring draws.server settings "clients" (by decide)
  have hpsk := member?_serverDone ring draws.server settings "pskEnable" (by decide)
  have hlimit := member?_serverDone ring draws.server settings "userLimit" (by decide)
  have hrun : editAll (fun n c => reconcileClient ring
        (jsonBool ((serverDone ring draws.server settings).1.member? "pskEnable"))
        (wgcEffectiveK (userLimitPtrFromRaw (serverDone ring draws.server settings).1)) (draws.client n) c) 0
        (mapsOf ((serverDone ring draws.server settings).1.member? "clients")) = runClients ring draws settings := by
    unfold runClients pskEnableOf limitOf accounts userLimitPtrFromRaw
    rw [hclients, hpsk, hlimit]
  rw [serverDone] at hrun
  constructor
  · intro hnone
    rw [reconcileKeys, if_pos h]
    dsimp only
    rw [hrun, hnone]
  · intro clients b hsome
    rw [reconcileKeys, if_pos h]
    dsimp only
    rw [hrun, hsome]
    rfl

/-- A run finds nothing to do. -/
theorem reconcileKeys_of_settled {settings : Tree} (hloads : loads settings = true)
    (hserver : ServerSettled ring settings)
    (hclients : ∀ c ∈ accounts settings, isObj c = true ∧
      ClientSettled ring (pskEnableOf settings) (limitOf settings) c) (draws : Draws K) :
    reconcileKeys ring draws settings = .done false settings := by
  have hraw : ServerSettled ring (.obj settings.asMap) := by
    have hmember : ∀ key, (Tree.obj settings.asMap).member? key = settings.member? key :=
      fun key => Tree.lookup_asMap key settings
    unfold ServerSettled
    rw [hmember, hmember]
    exact hserver
  obtain ⟨clients, hrun⟩ := editAll_unchanged (n := 0) (l := accounts settings)
    (f := fun n c => reconcileClient ring (pskEnableOf settings) (limitOf settings) (draws.client n) c)
    fun j c hc => by
      obtain ⟨hobj, hsettled⟩ := hclients c (List.mem_of_getElem? hc)
      exact reconcileClient_of_settled ring _ hobj hsettled _
  rw [(reconcileKeys_eq ring draws hloads).2 clients false hrun, serverDone, reconcileServer_of_settled ring hraw]
  rfl

theorem one_le_limitOf (settings : Tree) : 1 ≤ limitOf settings := (wgcEffectiveK_bounds _).1

/-! The settings that are written. -/

theorem member?_withAccounts (raw : Tree) (clients : List Tree) {key : String} (hkey : key ≠ "clients") :
    (withAccounts raw clients).member? key = raw.member? key := by
  rw [withAccounts]
  split_ifs
  · rfl
  · rw [Tree.member?_set, if_neg hkey.symm]

theorem accounts_withAccounts {raw : Tree} {clients : List Tree} (hlength : clients.length = (accounts raw).length) :
    accounts (withAccounts raw clients) = clients.map marshalMap := by
  rw [withAccounts]
  split_ifs with hnil
  · rw [hnil, List.length_nil] at hlength
    rw [hnil, List.length_eq_zero_iff.1 hlength.symm]
    rfl
  · rw [accounts, Tree.member?_set, if_pos rfl]
    rfl

theorem devicesOf_marshalMap (c : Tree) : devicesOf (marshalMap c) = devicesOf c := by
  rw [devicesOf, member?_marshalMap, devicesOf]

theorem clientAfter_marshalMap {k : ℕ} {m : Minted K} {c c' : Tree} (h : ClientAfter ring k m c c') :
    ClientAfter ring k m c (marshalMap c') := by
  refine ⟨by rw [devicesOf_marshalMap, h.length], by rw [devicesOf_marshalMap]; exact h.devices, fun key hkey => ?_⟩
  rw [member?_marshalMap]
  exact h.unknown key hkey

theorem clientSettled_marshalMap {pskEnable : Bool} {k : ℕ} {c : Tree} (h : ClientSettled ring pskEnable k c) :
    ClientSettled ring pskEnable k (marshalMap c) := by
  refine ⟨?_, by rw [devicesOf_marshalMap, h.length], by rw [devicesOf_marshalMap]; exact h.devices⟩
  rw [adopts, member?_marshalMap, member?_marshalMap]
  exact h.adopts

/-- What a run makes of the settings of the whole inbound. -/
structure RunSpec (draws : Draws K) (settings out : Tree) : Prop where
  length : (accounts out).length = (accounts settings).length
  clients : ∀ (n : ℕ) (c : Tree), (accounts settings)[n]? = some c → isObj c = true ∧
    ∃ c', (accounts out)[n]? = some c' ∧ ClientAfter ring (limitOf settings) (draws.client n) c c'
  unknown : SameUnknown ["serverPrivKey", "serverPubKey", "clients"] settings out
  again : ∀ draws', reconcileKeys ring draws' out = .done false out

variable {draws : Draws K} {settings : Tree} {clients : List Tree} {b : Bool}

/-- A run that has changed something. -/
theorem runSpec_withAccounts (hrun : runClients ring draws settings = some (clients, b)) :
    RunSpec ring draws settings (withAccounts (serverDone ring draws.server settings).1 clients) := by
  obtain ⟨hlength, hall⟩ := editAll_spec hrun
  obtain ⟨-, hserver, -, hobj⟩ := reconcileServer_spec ring draws.server (.obj settings.asMap)
  have hmember : ∀ key, key ∉ ["serverPrivKey", "serverPubKey", "clients"] →
      (withAccounts (serverDone ring draws.server settings).1 clients).member? key = settings.member? key := by
    intro key hkey
    simp only [List.mem_cons, List.not_mem_nil, or_false, not_or] at hkey
    rw [member?_withAccounts _ _ hkey.2.2]
    exact member?_serverDone ring draws.server settings key (by simp [hkey.1, hkey.2.1])
  have haccounts : accounts (withAccounts (serverDone ring draws.server settings).1 clients) =
    clients.map marshalMap := by
    refine accounts_withAccounts ?_
    rw [hlength, accounts, accounts, member?_serverDone ring draws.server settings "clients" (by decide)]
  have hlimit : limitOf (withAccounts (serverDone ring draws.server settings).1 clients) = limitOf settings := by
    rw [limitOf, limitOf, userLimitPtrFromRaw, userLimitPtrFromRaw, hmember "userLimit" (by decide)]
  have hpsk : pskEnableOf (withAccounts (serverDone ring draws.server settings).1 clients) = pskEnableOf settings := by
    rw [pskEnableOf, pskEnableOf, hmember "pskEnable" (by decide)]
  refine ⟨by rw [haccounts, List.length_map, hlength], fun n c hc => ?_, hmember, ?_⟩
  · obtain ⟨c', b', hc', hclient, -⟩ := hall n c hc
    rw [Nat.zero_add] at hclient
    have hspec := reconcileClient_spec ring _ (one_le_limitOf settings) hclient
    refine ⟨hspec.1, marshalMap c', ?_, clientAfter_marshalMap ring hspec.2.2.1⟩
    rw [haccounts, List.getElem?_map, hc', Option.map_some]
  · refine reconcileKeys_of_settled ring ?_ ?_ fun c hc => ?_
    · have hout : isObj (withAccounts (serverDone ring draws.server settings).1 clients) = true := by
        rw [withAccounts]
        split_ifs
        · exact hobj rfl
        · rfl
      cases hcase : withAccounts (serverDone ring draws.server settings).1 clients with
      | obj members => rfl
      | _ => rw [hcase] at hout; cases hout
    · unfold ServerSettled
      rw [member?_withAccounts _ _ (by decide), member?_withAccounts _ _ (by decide)]
      exact hserver
    · rw [haccounts] at hc
      obtain ⟨c', hc', rfl⟩ := List.mem_map.1 hc
      obtain ⟨n, hn, rfl⟩ := List.mem_iff_getElem.1 hc'
      have hin : n < (accounts settings).length := by rw [← hlength]; exact hn
      obtain ⟨c₁, b₁, hc₁, hclient, -⟩ := hall n _ (List.getElem?_eq_getElem hin)
      rw [List.getElem?_eq_getElem hn] at hc₁
      cases hc₁
      have hspec := reconcileClient_spec ring _ (one_le_limitOf settings) hclient
      rw [hlimit, hpsk, isObj_marshalMap]
      exact ⟨hspec.2.1, clientSettled_marshalMap ring hspec.2.2.2.1⟩

/-- A run that has found nothing to do. -/
theorem runSpec_unchanged (hloads : loads settings = true) (hrun : runClients ring draws settings = some (clients, b))
    (hb : b = false) (hserver : (serverDone ring draws.server settings).2 = false) :
    RunSpec ring draws settings settings := by
  obtain ⟨-, hall⟩ := editAll_spec hrun
  have hsettled : ∀ (n : ℕ) (c : Tree), (accounts settings)[n]? = some c → isObj c = true ∧
      ClientSettled ring (pskEnableOf settings) (limitOf settings) c := by
    intro n c hc
    obtain ⟨c', b', -, hclient, hsame⟩ := hall n c hc
    have hspec := reconcileClient_spec ring _ (one_le_limitOf settings) hclient
    exact ⟨hspec.1, hspec.2.2.2.2 (hsame hb)⟩
  refine ⟨rfl, fun n c hc => ⟨(hsettled n c hc).1, c, hc, clientAfter_of_settled ring _ (hsettled n c hc).2 _⟩,
    fun key _ => rfl, reconcileKeys_of_settled ring hloads ?_ fun c hc => ?_⟩
  · obtain ⟨-, hdone, hsame, -⟩ := reconcileServer_spec ring draws.server (.obj settings.asMap)
    rw [hsame hserver] at hdone
    unfold ServerSettled at hdone ⊢
    have hmember : ∀ key, (Tree.obj settings.asMap).member? key = settings.member? key :=
      fun key => Tree.lookup_asMap key settings
    rw [hmember, hmember] at hdone
    exact hdone
  · obtain ⟨n, hn, rfl⟩ := List.mem_iff_getElem.1 hc
    exact hsettled n _ (List.getElem?_eq_getElem hn)

/-- What a run that ends has done. -/
theorem runSpec_of_done {out : Tree} {changed : Bool} (h : reconcileKeys ring draws settings = .done changed out) :
    loads settings = true ∧ RunSpec ring draws settings out := by
  have hloads : loads settings = true := by
    by_contra hnot
    rw [reconcileKeys, if_neg hnot] at h
    cases h
  obtain ⟨hnone, hsome⟩ := reconcileKeys_eq ring draws hloads
  refine ⟨hloads, ?_⟩
  cases hrun : runClients ring draws settings with
  | none =>
      rw [hnone hrun] at h
      cases h
  | some r =>
      rw [hsome r.1 r.2 hrun] at h
      split_ifs at h with hchanged
      · cases h
        exact runSpec_withAccounts ring hrun
      · cases h
        rw [Bool.not_eq_true, Bool.or_eq_false_iff] at hchanged
        exact runSpec_unchanged ring hloads hrun hchanged.2 hchanged.1

/-- A run over accounts that are in order ends. -/
theorem exists_done (draws : Draws K) (hloads : loads settings = true)
    (hok : ∀ c ∈ accounts settings, AccountOk ring (limitOf settings) c) :
    ∃ changed out, reconcileKeys ring draws settings = .done changed out := by
  obtain ⟨r, hrun⟩ := exists_editAll (n := 0) (l := accounts settings)
    (f := fun n c => reconcileClient ring (pskEnableOf settings) (limitOf settings) (draws.client n) c)
    fun j c hc => by
      have haccount := hok c (List.mem_of_getElem? hc)
      exact exists_reconcileClient ring _ _ haccount.isObj (fun d hd => (haccount.readable d hd).1) _
  rw [(reconcileKeys_eq ring draws hloads).2 r.1 r.2 hrun]
  split_ifs
  · exact ⟨_, _, rfl⟩
  · exact ⟨_, _, rfl⟩

/-- Keys can be drawn that are not listed at their place. -/
theorem exists_fresh {a b : K} (hne : ring.text (ring.publicKey a) ≠ ring.text (ring.publicKey b)) (settings : Tree) :
    ∃ draws : Draws K, ∀ (n : ℕ) (c : Tree), (accounts settings)[n]? = some c →
      ∀ (j : ℕ) (l : WgcDevice), (deviceListOf c)[j]? = some l →
        ring.text (ring.publicKey ((draws.client n).key j)) ≠ l.pubKey := by
  classical
  refine ⟨⟨a, fun n => ⟨fun j => if ∃ c l, (accounts settings)[n]? = some c ∧ (deviceListOf c)[j]? = some l ∧
    l.pubKey = ring.text (ring.publicKey a) then b else a, fun _ => a⟩⟩, fun n c hc j l hl => ?_⟩
  dsimp only
  split_ifs with hlisted
  · obtain ⟨c', l', hc', hl', hpub⟩ := hlisted
    rw [hc] at hc'
    cases hc'
    rw [hl] at hl'
    cases hl'
    rw [hpub]
    exact hne.symm
  · intro heq
    exact hlisted ⟨c, l, hc, hl, heq.symm⟩

end Settings

/-- The keys of an inbound are kept, whatever keys are drawn, exactly when the settings are an
object or `null`, every account is an object, every private key within the limit can be read, and
every public key that is listed goes with the one at its place. -/
theorem keys_kept_iff {K : Type} (ring : KeyRing K) (settings : Tree)
    (htwo : ∃ a b, ring.text (ring.publicKey a) ≠ ring.text (ring.publicKey b)) :
    KeysKept ring settings ↔
      loads settings = true ∧ ∀ c ∈ accounts settings, AccountOk ring (limitOf settings) c := by
  obtain ⟨a, b, hne⟩ := htwo
  constructor
  · intro h
    obtain ⟨draws, hfresh⟩ := exists_fresh ring hne settings
    obtain ⟨changed, out, hdone, hkept, -, -⟩ := h draws
    obtain ⟨hloads, hspec⟩ := runSpec_of_done ring hdone
    refine ⟨hloads, fun c hc => ?_⟩
    obtain ⟨n, hn, rfl⟩ := List.mem_iff_getElem.1 hc
    have hget := List.getElem?_eq_getElem hn
    obtain ⟨hobj, c', hc', hafter⟩ := hspec.clients n _ hget
    obtain ⟨hn', rfl⟩ := List.getElem?_eq_some_iff.1 hc'
    exact accountOk_of_kept ring hobj hafter (fun j _ l hl => hfresh n _ hget j l hl) (hkept.get hn hn')
  · rintro ⟨hloads, hok⟩ draws
    obtain ⟨changed, out, hdone⟩ := exists_done ring draws hloads hok
    obtain ⟨-, hspec⟩ := runSpec_of_done ring hdone
    refine ⟨changed, out, hdone, ?_, hspec.unknown, hspec.again⟩
    refine List.forall₂_of_length_eq_of_get hspec.length.symm fun n hn hn' => ?_
    obtain ⟨-, c', hc', hafter⟩ := hspec.clients n _ (List.getElem?_eq_getElem hn)
    rw [List.getElem?_eq_getElem hn'] at hc'
    cases hc'
    exact accountKept_of_ok ring hafter (hok _ (List.getElem_mem hn))

/-- An account from before there were several devices, with both of its keys. -/
def legacyAccount : Tree :=
  .obj [("email", .str "ann"), ("note", .str "router"),
    ("privKey", .str "AAECAwQFBgcICQoLDA0ODxAREhMUFRYXGBkaGxwdHh8="),
    ("pubKey", .str annPub.val)]

def legacySettings : Tree :=
  .obj [("userLimit", .num ⟨2, true⟩), ("clients", .arr [legacyAccount]), ("theme", .str "dark")]

/-- The keys of the account are kept, and it gets a second device. -/
theorem legacySettings_kept :
    (∃ a b, textRing.text (textRing.publicKey a) ≠ textRing.text (textRing.publicKey b)) ∧
      KeysKept textRing legacySettings := by
  have htwo : ∃ a b, textRing.text (textRing.publicKey a) ≠ textRing.text (textRing.publicKey b) :=
    ⟨annPub, serverPub, by decide +kernel⟩
  have hpub : pubOf textRing (privOf (legacyDevice legacyAccount)) = some annPub.val := by decide +kernel
  have hadopted : adopted legacyAccount = [legacyDevice legacyAccount] := by
    rw [adopted, if_pos (by decide +kernel)]
  have hlist : (deviceListOf legacyAccount).map (·.pubKey) = [annPub.val] := by decide +kernel
  refine ⟨htwo, (keys_kept_iff textRing legacySettings htwo).2 ⟨rfl, fun c hc => ?_⟩⟩
  rw [List.mem_singleton.1 (show c ∈ [legacyAccount] from hc)]
  refine ⟨rfl, fun d hd => ?_, fun j _ l hl => ?_⟩
  · rw [hadopted] at hd
    rw [List.mem_singleton.1 (List.mem_of_mem_take hd), hpub]
    exact ⟨rfl, rfl⟩
  · have hnames : ((deviceListOf legacyAccount).map (·.pubKey))[j]? = [annPub.val][j]? := by rw [hlist]
    rw [List.getElem?_map, hl, Option.map_some] at hnames
    obtain ⟨hj, hpubKey⟩ := List.getElem?_eq_some_iff.1 hnames.symm
    cases j with
    | zero => exact ⟨legacyDevice legacyAccount, by rw [hadopted]; rfl, by rw [hpub]; exact congrArg some hpubKey⟩
    | succ j => exact absurd hj (by simp)

/-- An account whose owner kept the private key. -/
def publicAccount : Tree := .obj [("email", .str "bob"), ("pubKey", .str annPub.val)]

/-- The public key that is listed is not kept; and an account that is `null` is a panic. -/
theorem publicAccount_reminted :
    ¬ KeysKept textRing (.obj [("clients", .arr [publicAccount])]) ∧
      reconcileKeys textRing ⟨serverPriv, fun _ => ⟨fun _ => serverPriv, fun _ => serverPriv⟩⟩
        (.obj [("clients", .arr [.null])]) = .panic := by
  constructor
  · intro h
    obtain ⟨changed, out, hdone, hkept, -, -⟩ := h ⟨serverPriv, fun _ => ⟨fun _ => serverPriv, fun _ => serverPriv⟩⟩
    obtain ⟨hobj, c', hc', hafter⟩ := (runSpec_of_done textRing hdone).2.clients 0 publicAccount rfl
    obtain ⟨hn', rfl⟩ := List.getElem?_eq_some_iff.1 hc'
    have hlist : (deviceListOf publicAccount).map (·.pubKey) = [annPub.val] := by decide +kernel
    have hfresh : ∀ j < limitOf (.obj [("clients", .arr [publicAccount])]), ∀ l,
      (deviceListOf publicAccount)[j]? = some l →
        textRing.text (textRing.publicKey serverPriv) ≠ l.pubKey := by
      intro j _ l hl
      have hmem : l.pubKey ∈ (deviceListOf publicAccount).map (·.pubKey) :=
        List.mem_map_of_mem (List.mem_of_getElem? hl)
      rw [hlist, List.mem_singleton] at hmem
      rw [hmem]
      decide +kernel
    have hok := accountOk_of_kept textRing hobj hafter hfresh (hkept.get (by decide) hn')
    have hfirst : ∃ l, (deviceListOf publicAccount)[0]? = some l :=
      ⟨_, List.getElem?_eq_getElem (by rw [← List.length_map (f := (·.pubKey)), hlist]; decide)⟩
    obtain ⟨l, hl⟩ := hfirst
    obtain ⟨d, hd, -⟩ := hok.listed 0 (one_le_limitOf _) l hl
    have hnone : adopted publicAccount = [] := by
      rw [adopted, if_neg (by decide +kernel)]
      rfl
    rw [hnone] at hd
    cases hd
  · rfl

end Simorgh.Vpn.WgKeys
