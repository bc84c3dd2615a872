import Mathlib.Order.Lex
import Mathlib.Data.List.Lex
import Simorgh.Lib.Netstring
import Simorgh.Lib.Rank
import Simorgh.Lib.Table

/-!
# The hash of a desired state

A desired state is told by the hash of its content.  The fields of the inbounds, the names
and bytes of the certificates and the settings are written one after the other, each behind
its length; how many inbounds and certificates there are is not.

* `hashState` — the hash.
* `SameContent` — the same but for the generation, the hash, and the order of the inbounds.
* `fieldsOf_inj` — the inbounds and the certificates can be told from the list of fields: the
  fields of an inbound are not the names of certificates, that are in order.
* `hash_eq_iff` — two states have one hash exactly if their content is the same.
-/

namespace Simorgh.Node.Hashing

open Simorgh.Lib

/-! ## States -/

/-- An inbound as a node gets it. -/
structure NodeInbound where
  inboundId : ℤ
  tag : Bytes
  protocol : Bytes
  listen : Bytes
  port : ℤ
  settings : Bytes
  streamSettings : Bytes
  sniffing : Bytes
  enable : Bool
  speedLimitEnable : Bool
  speedLimitSeparate : Bool
  speedLimitDown : ℤ
  speedLimitUp : ℤ
  speedLimitAfter : ℤ
  ipLimit : ℤ
  ipLimitStrategy : Bytes
  deriving DecidableEq

/-- The panel's settings a node needs. -/
structure NodeSettings where
  xrayAPIPort : ℤ
  deriving DecidableEq

/-- A map from names to bytes. -/
abbrev Certs := Table (Prod.fst : Bytes × Bytes → Bytes)

/-- What a node is to serve. -/
structure DesiredState where
  generation : ℤ
  hash : String
  inbounds : List NodeInbound
  certs : Certs
  settings : NodeSettings

/-! ## The hash -/

/-- A flag as text. -/
def formatBool (b : Bool) : Bytes := if b then ascii "true".toList else ascii "false".toList

/-- What is written of an inbound. -/
def NodeInbound.fields (i : NodeInbound) : List Bytes :=
  [formatInt i.inboundId, i.tag, i.protocol, i.listen, formatInt i.port, i.settings, i.streamSettings, i.sniffing,
    formatBool i.enable, formatBool i.speedLimitEnable, formatBool i.speedLimitSeparate,
    formatInt i.speedLimitDown, formatInt i.speedLimitUp, formatInt i.speedLimitAfter, formatInt i.ipLimit,
    i.ipLimitStrategy]

/-- The bytes of a string, in the order of which strings are compared. -/
def order (name : Bytes) : List ℕ := name.map UInt8.toNat

/-- The certificates, by name. -/
def sortedCerts (certs : Certs) : List (Bytes × Bytes) :=
  (stableSort order (certs.rows.map Prod.fst)).map fun name => (name, (certs.find? name).elim [] Prod.snd)

/-- What is written of a list of inbounds, of certificates, and of the settings. -/
def fieldsOf (ins : List NodeInbound) (certs : List (Bytes × Bytes)) (settings : NodeSettings) : List Bytes :=
  ins.flatMap NodeInbound.fields ++ (certs.flatMap (fun c => [c.1, c.2]) ++ [formatInt settings.xrayAPIPort])

/-- What is given to SHA-256. -/
def DesiredState.stream (s : DesiredState) : Bytes :=
  writeFields (fieldsOf (stableSort NodeInbound.inboundId s.inbounds) (sortedCerts s.certs) s.settings)

def hexDigit (n : ℕ) : Char := Nat.digitChar n

/-- `hex.EncodeToString`. -/
def encodeToString (bytes : Bytes) : String :=
  String.ofList (bytes.flatMap fun b => [hexDigit (b.toNat / 16), hexDigit (b.toNat % 16)])

/-- The digest of the state's stream. -/
def hashState (sha256 : Bytes → Bytes) (s : DesiredState) : String := encodeToString (sha256 s.stream)

/-- The same in everything but the generation, the hash and the order of the inbounds. -/
structure SameContent (s s' : DesiredState) : Prop where
  inbounds : s.inbounds.Perm s'.inbounds
  certs : ∀ name, s.certs.find? name = s'.certs.find? name
  settings : s.settings = s'.settings

/-! ## Fields -/

theorem formatBool_injective {a b : Bool} (h : formatBool a = formatBool b) : a = b := by
  revert a b
  decide

theorem fields_length (i : NodeInbound) : i.fields.length = 16 := rfl

theorem fields_inj {i j : NodeInbound} (h : i.fields = j.fields) : i = j := by
  simp only [NodeInbound.fields, List.cons.injEq, and_true] at h
  obtain ⟨hid, htag, hprotocol, hlisten, hport, hsettings, hstream, hsniffing, henable, hlimit, hseparate, hdown, hup,
    hafter, hip, hstrategy⟩ := h
  cases i
  cases j
  simp only [NodeInbound.mk.injEq]
  exact ⟨formatInt_injective hid, htag, hprotocol, hlisten, formatInt_injective hport, hsettings, hstream, hsniffing,
    formatBool_injective henable, formatBool_injective hlimit, formatBool_injective hseparate,
    formatInt_injective hdown, formatInt_injective hup, formatInt_injective hafter, formatInt_injective hip, hstrategy⟩

/-- A number comes before a truth value. -/
theorem formatInt_lt_formatBool (v : ℤ) (b : Bool) : order (formatInt v) < order (formatBool b) := by
  obtain ⟨c, cs, hc, hle⟩ := formatInt_head v
  have hbool : ∃ d ds, formatBool b = d :: ds ∧ 57 < d.toNat := by
    cases b with
    | true => exact ⟨116, _, rfl, by decide⟩
    | false => exact ⟨102, _, rfl, by decide⟩
  obtain ⟨d, ds, hd, hlt⟩ := hbool
  rw [hc, hd, order, order, List.map_cons, List.map_cons]
  exact List.cons_lt_cons_iff.2 (.inl (hle.trans_lt hlt))

/-! ## Certificates -/

/-- Certificates in the order of their names. -/
def Ordered (certs : List (Bytes × Bytes)) : Prop := certs.Pairwise fun c d => order c.1 < order d.1

theorem length_pairs (certs : List (Bytes × Bytes)) : (certs.flatMap fun c => [c.1, c.2]).length =
    2 * certs.length := by
  induction certs with
  | nil => rfl
  | cons c certs ih =>
      rw [List.flatMap_cons, List.length_append, ih, List.length_cons]
      simp only [List.length_cons, List.length_nil]
      omega

/-- Every other field is a name. -/
theorem getElem?_pairs (certs : List (Bytes × Bytes)) (n : ℕ) :
    (certs.flatMap fun c => [c.1, c.2])[2 * n]? = certs[n]?.map Prod.fst := by
  induction certs generalizing n with
  | nil => simp
  | cons c certs ih =>
      cases n with
      | zero => rfl
      | succ n =>
          rw [List.getElem?_cons_succ, ← ih]
          rfl

theorem pairs_inj {certs certs' : List (Bytes × Bytes)}
    (h : certs.flatMap (fun c => [c.1, c.2]) = certs'.flatMap fun c => [c.1, c.2]) : certs = certs' := by
  induction certs generalizing certs' with
  | nil =>
      cases certs' with
      | nil => rfl
      | cons c certs' => cases h
  | cons c certs ih =>
      cases certs' with
      | nil => cases h
      | cons c' certs' =>
          simp only [List.flatMap_cons, List.cons_append, List.nil_append, List.cons.injEq] at h
          rw [Prod.ext h.1 h.2.1, ih h.2.2]

/-- What is written of an inbound is not what is written of certificates: a truth value stands
where a name would be, and a number where the next one would. -/
theorem fields_ne_pairs (i : NodeInbound) {rest : List Bytes} (hrest : rest ≠ []) {certs : List (Bytes × Bytes)}
    (hcerts : Ordered certs) (last : Bytes) : i.fields ++ rest ≠ certs.flatMap (fun c => [c.1, c.2]) ++ [last] := by
  intro h
  have hlength := congrArg List.length h
  have hpos := List.length_pos_of_ne_nil hrest
  rw [List.length_append, List.length_append, fields_length, length_pairs, List.length_singleton] at hlength
  have hname : ∀ n, n < 8 → certs[n]?.map Prod.fst = i.fields[2 * n]? := by
    intro n hn
    have hlookup := congrArg (fun l : List Bytes => l[2 * n]?) h
    rw [List.getElem?_append_left (by rw [fields_length]; omega),
      List.getElem?_append_left (by rw [length_pairs]; omega), getElem?_pairs] at hlookup
    exact hlookup.symm
  have hfive : (certs[5]).1 = formatBool i.speedLimitSeparate := by
    have hfield := hname 5 (by decide)
    rw [List.getElem?_eq_getElem (by omega)] at hfield
    exact Option.some.inj hfield
  have hsix : (certs[6]).1 = formatInt i.speedLimitUp := by
    have hfield := hname 6 (by decide)
    rw [List.getElem?_eq_getElem (by omega)] at hfield
    exact Option.some.inj hfield
  have hlt := List.pairwise_iff_getElem.1 hcerts 5 6 (by omega) (by omega) (by decide)
  rw [hfive, hsix] at hlt
  exact lt_asymm hlt (formatInt_lt_formatBool _ _)

/-- What is written is of one list of inbounds, one of certificates, and one port. -/
theorem fieldsOf_inj {ins ins' : List NodeInbound} {certs certs' : List (Bytes × Bytes)} (hcerts : Ordered certs)
    (hcerts' : Ordered certs') {settings settings' : NodeSettings}
    (h : fieldsOf ins certs settings = fieldsOf ins' certs' settings') :
    ins = ins' ∧ certs = certs' ∧ settings = settings' := by
  have hlast : ∀ (ins : List NodeInbound) (certs : List (Bytes × Bytes)) (last : Bytes),
      ins.flatMap NodeInbound.fields ++ (certs.flatMap (fun c => [c.1, c.2]) ++ [last]) ≠ [] := by simp
  induction ins generalizing ins' with
  | nil =>
      cases ins' with
      | nil =>
          rw [fieldsOf, fieldsOf, List.flatMap_nil, List.nil_append, List.nil_append] at h
          obtain ⟨hpairs, hport⟩ := List.append_inj' h rfl
          have hsettings : settings.xrayAPIPort = settings'.xrayAPIPort := formatInt_injective (List.cons.inj hport).1
          exact ⟨rfl, pairs_inj hpairs, congrArg NodeSettings.mk hsettings⟩
      | cons i ins' =>
          rw [fieldsOf, fieldsOf, List.flatMap_cons, List.append_assoc, List.flatMap_nil, List.nil_append] at h
          exact absurd h.symm (fields_ne_pairs i (hlast _ _ _) hcerts _)
  | cons i ins ih =>
      cases ins' with
      | nil =>
          rw [fieldsOf, fieldsOf, List.flatMap_cons, List.append_assoc, List.flatMap_nil, List.nil_append] at h
          exact absurd h (fields_ne_pairs i (hlast _ _ _) hcerts' _)
      | cons i' ins' =>
          rw [fieldsOf, fieldsOf, List.flatMap_cons, List.append_assoc, List.flatMap_cons, List.append_assoc] at h
          obtain ⟨hfields, hrest⟩ := List.append_inj h rfl
          obtain ⟨rfl, rfl, rfl⟩ := ih hrest
          exact ⟨by rw [fields_inj hfields], rfl, rfl⟩

/-! ## The hash -/

theorem order_injective {a b : Bytes} (h : order a = order b) : a = b :=
  List.map_injective_iff.2 (fun _ _ hbyte => UInt8.toNat_inj.1 hbyte) h

theorem names_nodup (certs : Certs) : ((certs.rows.map Prod.fst).map order).Nodup :=
  List.Nodup.map (fun _ _ h => order_injective h) certs.unique

theorem ordered_sortedCerts (certs : Certs) : Ordered (sortedCerts certs) := by
  have hperm := stableSort_perm order (certs.rows.map Prod.fst)
  have hnodup : (stableSort order (certs.rows.map Prod.fst)).Pairwise fun a b => order a ≠ order b :=
    List.pairwise_map.1 ((hperm.map order).nodup_iff.2 (names_nodup certs))
  rw [Ordered, sortedCerts, List.pairwise_map]
  exact (pairwise_stableSort order _).imp₂ (fun _ _ hle hne => lt_of_le_of_ne hle hne) hnodup

theorem mem_sortedCerts {certs : Certs} {c : Bytes × Bytes} : c ∈ sortedCerts certs ↔ certs.find? c.1 = some c := by
  rw [sortedCerts, List.mem_map]
  constructor
  · rintro ⟨name, hname, rfl⟩
    obtain ⟨row, hrow, rfl⟩ := List.mem_map.1 ((stableSort_perm order _).subset hname)
    rw [Table.find?_of_mem hrow]
    rfl
  · intro hfind
    refine ⟨c.1, (stableSort_perm order _).symm.subset ?_, by rw [hfind]; rfl⟩
    exact List.mem_map_of_mem (Table.find?_some hfind).1

/-- The certificates in order tell the map. -/
theorem sortedCerts_inj {certs certs' : Certs} :
    sortedCerts certs = sortedCerts certs' ↔ ∀ name, certs.find? name = certs'.find? name := by
  constructor
  · intro h name
    refine Option.ext fun c => ?_
    have hsame : certs.find? c.1 = some c ↔ certs'.find? c.1 = some c := by
      rw [← mem_sortedCerts, h, mem_sortedCerts]
    constructor
    · intro hfind
      obtain ⟨-, rfl⟩ := Table.find?_some hfind
      exact hsame.1 hfind
    · intro hfind
      obtain ⟨-, rfl⟩ := Table.find?_some hfind
      exact hsame.2 hfind
  · intro h
    have hnames : (certs.rows.map Prod.fst).Perm (certs'.rows.map Prod.fst) := by
      refine (List.perm_ext_iff_of_nodup certs.unique certs'.unique).2 fun name => ?_
      rw [List.mem_map, ← Table.isSome_find?, h, Table.isSome_find?, List.mem_map]
    rw [sortedCerts, sortedCerts, stableSort_eq_of_perm order hnames (names_nodup certs)]
    simp only [h]

theorem hexDigit_injective {m n : ℕ} (hm : m < 16) (hn : n < 16) (h : hexDigit m = hexDigit n) : m = n := by
  have hall : ∀ m < 16, ∀ n < 16, hexDigit m = hexDigit n → m = n := by decide
  exact hall m hm n hn h

theorem encodeToString_injective {a b : Bytes} (h : encodeToString a = encodeToString b) : a = b := by
  have hdigits := String.ofList_injective h
  induction a generalizing b with
  | nil =>
      cases b with
      | nil => rfl
      | cons y b => cases hdigits
  | cons x a ih =>
      cases b with
      | nil => cases hdigits
      | cons y b =>
          simp only [List.flatMap_cons, List.cons_append, List.nil_append, List.cons.injEq] at hdigits
          obtain ⟨hhigh, hlow, htail⟩ := hdigits
          have hx := x.toNat_lt
          have hy := y.toNat_lt
          have hdiv := hexDigit_injective (by omega) (by omega) hhigh
          have hmod := hexDigit_injective (by omega) (by omega) hlow
          have hbyte : x = y := UInt8.toNat_inj.1 (by omega)
          rw [hbyte, ih (congrArg String.ofList htail) htail]

/-- What is written is of one content. -/
theorem sameContent_of_stream_eq {s s' : DesiredState} (h : s.stream = s'.stream) : SameContent s s' := by
  obtain ⟨hins, hcerts, hsettings⟩ := fieldsOf_inj (ordered_sortedCerts _) (ordered_sortedCerts _)
    (writeFields_injective h)
  refine ⟨?_, sortedCerts_inj.1 hcerts, hsettings⟩
  have hperm := (stableSort_perm NodeInbound.inboundId s.inbounds).symm
  rw [hins] at hperm
  exact hperm.trans (stableSort_perm _ _)

/-- Two states with distinct inbound ids have one hash exactly if their content is the same,
and no two contents are written alike. -/
theorem hash_eq_iff (sha256 : Bytes → Bytes) (hsha : Function.Injective sha256) (s s' : DesiredState)
    (hids : (s.inbounds.map NodeInbound.inboundId).Nodup) :
    (hashState sha256 s = hashState sha256 s' ↔ SameContent s s') ∧ (s.stream = s'.stream ↔ SameContent s s') := by
  have hstream : SameContent s s' → s.stream = s'.stream := by
    intro h
    rw [DesiredState.stream, DesiredState.stream, stableSort_eq_of_perm _ h.inbounds hids, sortedCerts_inj.2 h.certs,
      h.settings]
  refine ⟨⟨fun h => ?_, fun h => ?_⟩, sameContent_of_stream_eq, hstream⟩
  · exact sameContent_of_stream_eq (hsha (encodeToString_injective h))
  · rw [hashState, hashState, hstream h]

/-- An inbound without limits. -/
def plainInbound (id port : ℤ) (tag protocol : String) : NodeInbound :=
  ⟨id, ascii tag.toList, ascii protocol.toList, [], port, ascii "\x7b\x7d".toList, [], [], true,
    false, false, 0, 0, 0, 0, []⟩

def l2tpInbound : NodeInbound := plainInbound 2 1701 "in-2" "l2tp"
def vlessInbound : NodeInbound := plainInbound 7 443 "in-7" "vless"

/-- A node with a certificate, its inbounds in some order. -/
def stateOf (generation : ℤ) (inbounds : List NodeInbound) : DesiredState :=
  ⟨generation, "", inbounds, .single (ascii "web".toList, ascii "PEM".toList), ⟨62789⟩⟩

/-- What is written of it. -/
def nodeStream : Bytes :=
  ascii ("1:24:in-24:l2tp0:4:17012:\x7b\x7d0:0:4:true5:false5:false1:01:01:01:00:" ++
    "1:74:in-75:vless0:3:4432:\x7b\x7d0:0:4:true5:false5:false1:01:01:01:00:3:web3:PEM5:62789").toList

/-- The digest of that. -/
def nodeDigest : Bytes :=
  [94, 84, 218, 51, 35, 123, 87, 25, 155, 122, 191, 93, 101, 37, 217, 1, 251, 79, 101, 95, 59, 11,
    1, 62, 132, 177, 58, 211, 81, 47, 63, 126]

/-- SHA-256 on what is written of it; elsewhere, something that is no digest. -/
def digest (stream : Bytes) : Bytes :=
  if stream = nodeStream then nodeDigest else List.replicate 33 0 ++ stream

theorem digest_injective : Function.Injective digest := by
  have hdigest : ∀ stream : Bytes, nodeDigest ≠ List.replicate 33 0 ++ stream := by
    intro stream h
    have hlength := congrArg List.length h
    rw [List.length_append, List.length_replicate] at hlength
    have hshort : nodeDigest.length = 32 := rfl
    omega
  intro a b h
  unfold digest at h
  split at h <;> split at h
  · rename_i ha hb
    exact ha.trans hb.symm
  · exact absurd h (hdigest b)
  · exact absurd h.symm (hdigest a)
  · exact List.append_cancel_left h

/-- The inbounds the other way round, in another generation: the hash is the same, that of
what is written of both. -/
theorem hash_eq_of_order :
    hashState digest (stateOf 1 [l2tpInbound, vlessInbound]) = encodeToString nodeDigest ∧
      hashState digest (stateOf 2 [vlessInbound, l2tpInbound]) = encodeToString nodeDigest := by
  have hins : stableSort NodeInbound.inboundId [l2tpInbound, vlessInbound] = [l2tpInbound, vlessInbound] :=
    List.mergeSort_of_pairwise (by decide)
  have hcerts : sortedCerts (.single (ascii "web".toList, ascii "PEM".toList)) =
      [(ascii "web".toList, ascii "PEM".toList)] := by
    have hnames : stableSort order [ascii "web".toList] = [ascii "web".toList] := List.mergeSort_singleton _
    show (stableSort order [ascii "web".toList]).map _ = _
    rw [hnames]
    rfl
  have hstream : (stateOf 1 [l2tpInbound, vlessInbound]).stream = nodeStream := by
    rw [DesiredState.stream, stateOf, hins, hcerts]
    decide +kernel
  have hhash : hashState digest (stateOf 1 [l2tpInbound, vlessInbound]) = encodeToString nodeDigest := by
    rw [hashState, hstream, digest, if_pos rfl]
  have hsame : SameContent (stateOf 2 [vlessInbound, l2tpInbound]) (stateOf 1 [l2tpInbound, vlessInbound]) :=
    ⟨.swap _ _ _, fun _ => rfl, rfl⟩
  exact ⟨hhash, ((hash_eq_iff digest digest_injective _ _ (by decide)).1.2 hsame).trans hhash⟩

end Simorgh.Node.Hashing
