import Mathlib.Data.List.Dedup
import Mathlib.Data.List.Perm.Subperm
import Simorgh.Lib.Run
import Simorgh.Radius.Sessions

/-!
# One address, one device

The server beside a record of who was given each address last, which it does not
keep itself.

* `Attributed` — every session, every lease and every claim of an address is that
  device's.
* `allocation_exclusive` — in every run whose steps leave it so, an address is never
  given away under a live session of another device, and no block has more devices
  than addresses.
* `redial_takes_live_address` — a claim that outlives its address is honoured.
-/

namespace Simorgh.Radius

open Simorgh.Lib Simorgh.Panel

/-! ## The system -/

/-- The tables, and the device each address was last given to. -/
structure Server where
  tables : Tables := {}
  given : String → Option Device := fun _ => none

/-- Dial-ins, accounting packets and sweeps. -/
inductive RadiusEvent where
  | dial (d : Dial)
  | acct (status : AcctStatus) (p : AcctPacket)
  | sweep (now : ℕ) (sessionActive : Session → Bool)
  | reset (protocol : Protocol)

/-- The address a packet records a session on that was not there. -/
def Tables.records (t : Tables) (status : AcctStatus) (p : AcctPacket) : Option String :=
  p.framedIP.filter fun ip =>
    !decide (p.email = "") &&
      if p.protocol = .openconnect then decide (status = .interim) && (t.sessions.find? (ocSessionKey ip)).isNone
      else decide (status = .start) || decide (status = .interim) && (t.sessions.find? p.sessionId).isNone

/-- A device gets an address. -/
def Server.give (s : Server) (tables : Tables) (ip : Option String) (device : Device) : Server where
  tables := tables
  given := match ip with
    | none => s.given
    | some ip => Function.update s.given ip (some device)

/-- One event. -/
def Server.step (s : Server) : RadiusEvent → Server
  | .dial d => s.give (s.tables.allocateBlockIP d).1 (s.tables.allocateBlockIP d).2 d.device
  | .acct status p => s.give (s.tables.handleAcct status p) (s.tables.records status p) p.device
  | .sweep now sessionActive => { s with tables := s.tables.cleanStaleSessions now sessionActive }
  | .reset protocol => { s with tables := s.tables.resetAllocations protocol }

/-- The devices that hold an address of a block, by a session or a lease. -/
def Tables.devices (t : Tables) (block : List String) : List Device :=
  ((t.sessions.rows.filter fun x => decide (x.ip ∈ block)).map (·.device) ++
    (t.pending.rows.filter fun p => decide (p.ip ∈ block)).map (·.device)).dedup

/-- The session is dropped because its tunnel is gone. -/
def Dial.gone (d : Dial) (x : Session) : Prop :=
  d.protocol = .openconnect ∧ ocProbeReady x d.now = true ∧
    ∃ ip ∈ d.blockIPs, x.sid = ocSessionKey ip ∧ d.ocActive ip = false

/-- What a dial is given is of its block, and no other device has a session there after the
call; one that had is evicted, unless its tunnel was gone. -/
def Exclusive (s : Server) : RadiusEvent → Prop
  | .dial d => ∀ ip, (s.tables.allocateBlockIP d).2 = some ip →
      ip ∈ d.blockIPs ∧
        (∀ y ∈ (s.tables.allocateBlockIP d).1.sessions.rows, y.ip = ip → y.device = d.device) ∧
        ∀ x ∈ s.tables.sessions.rows, x.ip = ip → x.device ≠ d.device → d.accept = true ∨ d.gone x
  | _ => True

/-- Neither the lease a dial takes over nor the session it evicts shares its address with a
session of another device. -/
def Tables.Vacant (t : Tables) (d : Dial) : Prop :=
  (∀ ip ∈ t.ghostIP d, ∀ x ∈ t.sessions.rows, x.ip = ip → x.device = d.device) ∧
    (t.ghostIP d = none → d.accept = true → ∀ v ∈ t.oldestBlockSession d.blockIPs,
      ∀ x ∈ t.sessions.rows, x.ip = v.ip → x.sid ≠ v.sid → x.device = d.device)

instance (t : Tables) (d : Dial) : Decidable (t.Vacant d) := by
  unfold Tables.Vacant
  infer_instance

/-- What goes wrong with a dial that finds no claim of its own is not met: without a station,
none claims an address of the block; with the block full, what it takes is vacant. -/
def Tables.Clear (t : Tables) (d : Dial) : Prop :=
  (d.skey = none → ∀ c ∈ t.claims.rows, redials c.key.protocol = true → c.ip ∉ d.blockIPs) ∧
    (t.freeIP d = none → t.Vacant d)

instance (t : Tables) (d : Dial) : Decidable (t.Clear d) := by
  unfold Tables.Clear
  infer_instance

/-- A dial meets no such thing, and a packet that records a session is of the device the
address was last given to, if to any. -/
def Undisturbed (s : Server) : RadiusEvent → Prop
  | .dial d => s.tables.redialIP d = none → (s.tables.settle d).Clear d
  | .acct status p => ∀ ip ∈ s.tables.records status p, s.given ip = none ∨ s.given ip = some p.device
  | .sweep _ _ | .reset _ => True

instance (s : Server) : (e : RadiusEvent) → Decidable (Undisturbed s e)
  | .dial d => inferInstanceAs (Decidable (s.tables.redialIP d = none → (s.tables.settle d).Clear d))
  | .acct status p => inferInstanceAs
      (Decidable (∀ ip ∈ s.tables.records status p, s.given ip = none ∨ s.given ip = some p.device))
  | .sweep _ _ | .reset _ => isTrue trivial

/-! ## What an address is held by -/

/-- Every session, lease and claim of an address is that of the device it was given to. -/
structure Attributed (t : Tables) (given : String → Option Device) : Prop where
  sessions : ∀ x ∈ t.sessions.rows, given x.ip = some x.device
  pending : ∀ p ∈ t.pending.rows, given p.ip = some p.device
  claims : ∀ c ∈ t.claims.rows, redials c.key.protocol = true → given c.ip = some (.keyed c.key)

section Attribution

variable {t t' : Tables} {given : String → Option Device} {d : Dial} {ip : String}

theorem Attributed.of_subset (h : Attributed t given) (hsessions : ∀ x ∈ t'.sessions.rows, x ∈ t.sessions.rows)
    (hpending : ∀ p ∈ t'.pending.rows, p ∈ t.pending.rows) (hclaims : ∀ c ∈ t'.claims.rows, c ∈ t.claims.rows) :
    Attributed t' given :=
  ⟨fun x hx => h.sessions x (hsessions x hx), fun p hp => h.pending p (hpending p hp),
    fun c hc => h.claims c (hclaims c hc)⟩

theorem Attributed.settle (h : Attributed t given) (d : Dial) : Attributed (t.settle d) given := by
  refine h.of_subset (fun x hx => ?_) (fun p hp => (Table.mem_deleteWhere.1 hp).1) fun c hc =>
    (Table.mem_deleteWhere.1 hc).1
  unfold Tables.settle at hx
  simp only at hx
  split at hx
  · exact (Table.mem_deleteWhere.1 hx).1
  · exact hx

/-- The devices of a block are at most its addresses. -/
theorem Attributed.devices_le (h : Attributed t given) (block : List String) :
    (t.devices block).length ≤ block.length := by
  have hsubset : t.devices block ⊆ block.filterMap given := by
    intro device hdevice
    rw [Tables.devices, List.mem_dedup, List.mem_append, List.mem_map, List.mem_map] at hdevice
    rw [List.mem_filterMap]
    rcases hdevice with ⟨x, hx, rfl⟩ | ⟨p, hp, rfl⟩
    · rw [List.mem_filter, decide_eq_true_iff] at hx
      exact ⟨x.ip, hx.2, h.sessions x hx.1⟩
    · rw [List.mem_filter, decide_eq_true_iff] at hp
      exact ⟨p.ip, hp.2, h.pending p hp.1⟩
  have hnodup : (t.devices block).Nodup := List.nodup_dedup _
  exact (hnodup.subperm hsubset).length_le.trans (List.length_filterMap_le _ _)

/-! ### Recording a session at its dial -/

theorem recordOC_sessions {y : Session} (hy : y ∈ (t.recordOC d ip).sessions.rows) :
    (∃ x ∈ t.sessions.rows, y.ip = x.ip ∧ y.device = x.device) ∨ y.ip = ip ∧ y.device = d.device := by
  unfold Tables.recordOC at hy
  split at hy
  · simp only at hy
    split at hy
    · have hemail : ∀ s : Session,
          ({ s with email := if d.email = "" then s.email else d.email } : Session).sid = s.sid := fun _ => rfl
      obtain ⟨x, hx, rfl | rfl⟩ := Table.mem_updateWhere hemail hy
      · exact Or.inl ⟨y, hx, rfl, rfl⟩
      · exact Or.inl ⟨x, hx, rfl, rfl⟩
    · rcases Table.mem_put.1 hy with ⟨hy, -⟩ | rfl
      · exact Or.inl ⟨y, hy, rfl, rfl⟩
      · exact Or.inr ⟨rfl, rfl⟩
  · exact Or.inl ⟨y, hy, rfl, rfl⟩

theorem recordOC_pending {p : Lease} (hp : p ∈ (t.recordOC d ip).pending.rows) : p ∈ t.pending.rows := by
  unfold Tables.recordOC at hp
  split at hp
  · exact (Table.mem_erase.1 hp).1
  · exact hp

theorem recordOC_claims : (t.recordOC d ip).claims = t.claims := by
  unfold Tables.recordOC
  split <;> rfl

theorem Attributed.recordOC (h : Attributed t given) (hgiven : given ip = some d.device) :
    Attributed (t.recordOC d ip) given := by
  refine ⟨fun y hy => ?_, fun p hp => h.pending p (recordOC_pending hp), ?_⟩
  · rcases recordOC_sessions hy with ⟨x, hx, hip, hdevice⟩ | ⟨hip, hdevice⟩
    · rw [hip, hdevice]
      exact h.sessions x hx
    · rw [hip, hdevice]
      exact hgiven
  · rw [recordOC_claims]
    exact h.claims

/-! ### Giving an address away -/

/-- An address nobody else holds may be given away. -/
theorem Attributed.assign (h : Attributed t given)
    (hsessions : ∀ x ∈ t.sessions.rows, x.ip = ip → x.device = d.device)
    (hclaims : d.skey = none → ∀ c ∈ t.claims.rows, redials c.key.protocol = true → c.ip ≠ ip) :
    Attributed (t.assign d ip) (Function.update given ip (some d.device)) := by
  have hold : ∀ ip', ip' ≠ ip → Function.update given ip (some d.device) ip' = given ip' := fun ip' hne =>
    Function.update_of_ne hne _ _
  have hnew : Function.update given ip (some d.device) ip = some d.device := Function.update_self _ _ _
  unfold Tables.assign
  refine Attributed.recordOC ⟨fun x hx => ?_, fun p hp => ?_, fun c hc hredials => ?_⟩ hnew
  · by_cases hip : x.ip = ip
    · rw [hip, hnew, hsessions x hx hip]
    · rw [hold _ hip]
      exact h.sessions x hx
  · rcases Table.mem_put.1 hp with ⟨hp, hne⟩ | rfl
    · rw [hold _ hne]
      exact h.pending p hp
    · exact hnew
  · cases hkey : d.skey with
    | none =>
        simp only [hkey] at hc
        rw [hold _ (hclaims hkey c hc hredials)]
        exact h.claims c hc hredials
    | some key =>
        simp only [hkey] at hc
        rcases Table.mem_put.1 hc with ⟨hc, hne⟩ | rfl
        · obtain ⟨hc, hdrop⟩ := Table.mem_deleteWhere.1 hc
          have hip : c.ip ≠ ip := by
            intro hip
            rw [decide_eq_true hip, decide_eq_true hne] at hdrop
            cases hdrop
          rw [hold _ hip]
          exact h.claims c hc hredials
        · have hprotocol : key.protocol = d.protocol := by
            unfold Dial.skey at hkey
            split at hkey
            · cases hkey
            · cases hkey
              rfl
          have hdevice : d.device = .keyed key := by
            rw [Dial.device, hkey]
            simp only
            rw [if_pos (hprotocol ▸ hredials)]
          rw [← hdevice]
          exact hnew

/-- A redial has the address its claim says, and holds it already. -/
theorem Attributed.redial (h : Attributed t given) (hip : t.redialIP d = some ip) :
    ip ∈ d.blockIPs ∧ given ip = some d.device ∧ Attributed (t.refresh d ip) given := by
  unfold Tables.redialIP at hip
  cases hkey : d.skey with
  | none => simp [hkey] at hip
  | some key =>
      simp only [hkey] at hip
      by_cases hredials : redials d.protocol = true
      · rw [if_pos hredials] at hip
        obtain ⟨hfound, hmem⟩ := Option.filter_eq_some_iff.1 hip
        obtain ⟨c, hc, rfl⟩ := Option.map_eq_some_iff.1 hfound
        obtain ⟨hrow, rfl⟩ := Table.find?_some hc
        have hprotocol : c.key.protocol = d.protocol := by
          unfold Dial.skey at hkey
          split at hkey
          · cases hkey
          · rw [← Option.some.inj hkey]
        have hdevice : d.device = .keyed c.key := by
          rw [Dial.device, hkey]
          simp only
          rw [if_pos hredials]
        have hgiven : given c.ip = some d.device := by
          rw [hdevice]
          exact h.claims c hrow (hprotocol.symm ▸ hredials)
        refine ⟨of_decide_eq_true hmem, hgiven, ?_⟩
        unfold Tables.refresh
        refine Attributed.recordOC ⟨h.sessions, fun p hp => ?_, fun c' hc' hredials' => ?_⟩ hgiven
        · rcases Table.mem_put.1 hp with ⟨hp, -⟩ | rfl
          · exact h.pending p hp
          · exact hgiven
        · have hseen : ∀ c : Claim, ({ c with seen := d.now } : Claim).key = c.key := fun _ => rfl
          obtain ⟨c₀, hc₀, rfl | rfl⟩ := Table.mem_updateWhere hseen hc'
          · exact h.claims c' hc₀ hredials'
          · exact h.claims c₀ hc₀ hredials'
      · rw [if_neg hredials] at hip
        cases hip

/-! ### Dialling -/

/-- A fold that at each element keeps what it has or takes the element. -/
theorem foldl_keeps_or_takes {α : Type} {f : Option α → α → Option α}
    (hf : ∀ best a, f best a = best ∨ f best a = some a) {l : List α} {best : Option α} {a : α}
    (h : l.foldl f best = some a) : best = some a ∨ a ∈ l := by
  induction l generalizing best with
  | nil => exact Or.inl h
  | cons b l ih =>
      rcases ih h with hbest | hmem
      · rcases hf best b with hkeeps | htakes
        · exact Or.inl (hkeeps.symm.trans hbest)
        · rw [htakes, Option.some.injEq] at hbest
          exact Or.inr (List.mem_cons.2 (Or.inl hbest.symm))
      · exact Or.inr (List.mem_cons_of_mem b hmem)

theorem earliest_mem {α : Type} {time : α → ℕ} {l : List α} {a : α} (h : earliest time l = some a) : a ∈ l := by
  refine (foldl_keeps_or_takes ?_ h).resolve_left nofun
  intro best a
  cases best with
  | none => exact Or.inr rfl
  | some b =>
      simp only
      split
      · exact Or.inr rfl
      · exact Or.inl rfl

/-- What a dial comes to, if it is not a redial and not denied: an address of the block, free,
abandoned or the evicted device's. -/
inductive Assigned (t : Tables) (d : Dial) (ip : String) (t' : Tables) : Prop
  | free (h : (t.settle d).freeIP d = some ip) (ht' : t' = (t.settle d).assign d ip)
  | ghost (hfull : (t.settle d).freeIP d = none) (h : (t.settle d).ghostIP d = some ip)
      (ht' : t' = (t.settle d).assign d ip)
  | evicted (hfull : (t.settle d).freeIP d = none) (hghost : (t.settle d).ghostIP d = none)
      (haccept : d.accept = true) (v : Session) (hv : (t.settle d).oldestBlockSession d.blockIPs = some v)
      (hip : ip = v.ip)
      (ht' : t' = Tables.assign { t.settle d with sessions := (t.settle d).sessions.erase v.sid } d ip)

theorem allocateBlockIP_some (h : (t.allocateBlockIP d).2 = some ip) :
    t.redialIP d = some ip ∧ (t.allocateBlockIP d).1 = t.refresh d ip ∨
      t.redialIP d = none ∧ Assigned t d ip (t.allocateBlockIP d).1 := by
  unfold Tables.allocateBlockIP at h ⊢
  cases hredial : t.redialIP d with
  | some ip' =>
      simp only [hredial] at h ⊢
      cases h
      exact Or.inl ⟨rfl, rfl⟩
  | none =>
      simp only [hredial] at h ⊢
      refine Or.inr ⟨trivial, ?_⟩
      cases hfree : (t.settle d).freeIP d with
      | some ip' =>
          simp only [hfree] at h ⊢
          cases h
          exact .free hfree rfl
      | none =>
          simp only [hfree] at h ⊢
          cases hghost : (t.settle d).ghostIP d with
          | some ip' =>
              simp only [hghost] at h ⊢
              cases h
              exact .ghost hfree hghost rfl
          | none =>
              simp only [hghost] at h ⊢
              by_cases haccept : d.accept = true
              · simp only [haccept, if_true] at h ⊢
                cases hv : (t.settle d).oldestBlockSession d.blockIPs with
                | none =>
                    simp only [hv] at h
                    cases h
                | some v =>
                    simp only [hv] at h ⊢
                    cases h
                    exact .evicted hfree hghost haccept v hv rfl rfl
              · simp only [if_neg haccept] at h
                cases h

/-- A dial that is denied only drops what has run out. -/
theorem allocateBlockIP_none (h : (t.allocateBlockIP d).2 = none) :
    (t.allocateBlockIP d).1 = t.settle d := by
  unfold Tables.allocateBlockIP at h ⊢
  cases hredial : t.redialIP d with
  | some ip' => simp [hredial] at h
  | none =>
      simp only [hredial] at h ⊢
      cases hfree : (t.settle d).freeIP d with
      | some ip' => simp [hfree] at h
      | none =>
          simp only [hfree] at h ⊢
          cases hghost : (t.settle d).ghostIP d with
          | some ip' => simp [hghost] at h
          | none =>
              simp only [hghost] at h ⊢
              cases hv : if d.accept = true then (t.settle d).oldestBlockSession d.blockIPs else none with
              | none => rfl
              | some v => simp [hv] at h

/-- A session that is not there when an address is looked for had its tunnel gone. -/
theorem gone_of_settled {x : Session} (hx : x ∈ t.sessions.rows) (hnot : x ∉ (t.settle d).sessions.rows) :
    d.gone x := by
  unfold Tables.settle at hnot
  simp only at hnot
  by_cases hprotocol : d.protocol = .openconnect
  · rw [if_pos hprotocol, Table.mem_deleteWhere, not_and, Bool.not_eq_false, List.any_eq_true] at hnot
    obtain ⟨ip, hip, hdrop⟩ := hnot hx
    rw [Bool.and_eq_true, Bool.and_eq_true, decide_eq_true_iff, Bool.not_eq_true'] at hdrop
    exact ⟨hprotocol, hdrop.1.2, ip, hip, hdrop.1.1, hdrop.2⟩
  · rw [if_neg hprotocol] at hnot
    exact absurd hx hnot

theorem Assigned.mem_block {t' : Tables} (h : Assigned t d ip t') : ip ∈ d.blockIPs := by
  cases h with
  | free h ht' => exact List.mem_of_find?_eq_some h
  | ghost hfull h ht' =>
      obtain ⟨p, hp, rfl⟩ := Option.map_eq_some_iff.1 h
      obtain ⟨ip, hip, hfind⟩ := List.mem_filterMap.1 (List.mem_filter.1 (earliest_mem hp)).1
      rw [(Table.find?_some hfind).2]
      exact hip
  | evicted hfull hghost haccept v hv hip ht' =>
      rw [hip]
      exact of_decide_eq_true (List.mem_filter.1 (earliest_mem hv)).2

/-- The sessions of a free address. -/
theorem freeIP_sessions (h : t.freeIP d = some ip) {x : Session} (hx : x ∈ t.sessions.rows) : x.ip ≠ ip := by
  intro hip
  have hunused := List.find?_some h
  rw [Bool.not_eq_true', Tables.used, Bool.or_eq_false_iff] at hunused
  exact absurd (List.any_eq_true.2 ⟨x, hx, decide_eq_true hip⟩) (by rw [hunused.1]; exact Bool.false_ne_true)

end Attribution

/-- A dial keeps the attribution, and is given nothing another device has. -/
theorem dial_attributed {s : Server} {d : Dial} (h : Attributed s.tables s.given)
    (hok : Undisturbed s (.dial d)) :
    Attributed (s.step (.dial d)).tables (s.step (.dial d)).given ∧ Exclusive s (.dial d) := by
  cases hresult : (s.tables.allocateBlockIP d).2 with
  | none =>
      refine ⟨?_, fun ip hip => ?_⟩
      · simp only [Server.step, Server.give, hresult]
        rw [allocateBlockIP_none hresult]
        exact h.settle d
      · rw [hresult] at hip
        cases hip
  | some ip =>
      have hattributed : Attributed (s.tables.allocateBlockIP d).1
          (Function.update s.given ip (some d.device)) ∧ ip ∈ d.blockIPs ∧
            ∀ x ∈ s.tables.sessions.rows, x.ip = ip → x.device ≠ d.device → d.accept = true ∨ d.gone x := by
        rcases allocateBlockIP_some hresult with ⟨hredial, htables⟩ | ⟨hredial, hassigned⟩
        · obtain ⟨hmem, hgiven, hrefreshed⟩ := h.redial hredial
          have hsame : Function.update s.given ip (some d.device) = s.given := by
            rw [← hgiven, Function.update_eq_self]
          rw [htables, hsame]
          refine ⟨hrefreshed, hmem, fun x hx hip hne => ?_⟩
          have hdevice := h.sessions x hx
          rw [hip, hgiven] at hdevice
          exact absurd (Option.some.inj hdevice).symm hne
        · obtain ⟨hstation, hfull⟩ := hok hredial
          have hmem := hassigned.mem_block
          have hclaims : d.skey = none → ∀ c ∈ (s.tables.settle d).claims.rows,
              redials c.key.protocol = true → c.ip ≠ ip := by
            intro hkey c hc hredials hip
            exact hstation hkey c hc hredials (hip ▸ hmem)
          -- a session of another device at the address is not there when it is looked for
          have hleft : (∀ x ∈ (s.tables.settle d).sessions.rows, x.ip = ip → x.device = d.device) →
              ∀ x ∈ s.tables.sessions.rows, x.ip = ip → x.device ≠ d.device → d.accept = true ∨ d.gone x := by
            intro hnone x hx hip hne
            exact Or.inr (gone_of_settled hx fun hx' => hne (hnone x hx' hip))
          generalize (s.tables.allocateBlockIP d).1 = t' at hassigned
          cases hassigned with
          | free hfree ht' =>
              have hnone : ∀ x ∈ (s.tables.settle d).sessions.rows, x.ip = ip → x.device = d.device :=
                fun x hx hip => absurd hip (freeIP_sessions hfree hx)
              subst ht'
              exact ⟨(h.settle d).assign hnone hclaims, hmem, hleft hnone⟩
          | ghost hfree hghost ht' =>
              have hnone := (hfull hfree).1 ip hghost
              subst ht'
              exact ⟨(h.settle d).assign hnone hclaims, hmem, hleft hnone⟩
          | evicted hfree hghost haccept v hv hip ht' =>
              have hothers := (hfull hfree).2 hghost haccept v hv
              subst ht' hip
              refine ⟨Attributed.assign ?_ (fun x hx hip => ?_) hclaims, hmem, fun x hx hip hne => Or.inl haccept⟩
              · exact (h.settle d).of_subset (fun x hx => (Table.mem_erase.1 hx).1) (fun p hp => hp) fun c hc => hc
              · obtain ⟨hx, hne⟩ := Table.mem_erase.1 hx
                exact hothers x hx hip hne
      obtain ⟨hattributed, hmem, hbefore⟩ := hattributed
      refine ⟨?_, fun ip' hip' => ?_⟩
      · simp only [Server.step, Server.give, hresult]
        exact hattributed
      · obtain rfl := Option.some.inj (hresult.symm.trans hip')
        refine ⟨hmem, fun y hy hip => ?_, hbefore⟩
        have hdevice := hattributed.sessions y hy
        rw [hip, Function.update_self] at hdevice
        exact (Option.some.inj hdevice).symm

/-! ## Accounting -/

section Accounting

variable {t : Tables} {status : AcctStatus} {p : AcctPacket}

theorem handleOcservAcct_sessions (hprotocol : p.protocol = .openconnect) {y : Session}
    (hy : y ∈ (t.handleOcservAcct status p).sessions.rows) :
    (∃ x ∈ t.sessions.rows, y.ip = x.ip ∧ y.device = x.device) ∨
      t.records status p = some y.ip ∧ y.device = p.device := by
  have hold : y ∈ t.sessions.rows → ∃ x ∈ t.sessions.rows, y.ip = x.ip ∧ y.device = x.device := fun hy =>
    ⟨y, hy, rfl, rfl⟩
  unfold Tables.handleOcservAcct at hy
  cases hframed : p.framedIP with
  | none =>
      simp only [hframed] at hy
      exact Or.inl (hold hy)
  | some ip =>
      simp only [hframed] at hy
      cases hfound : t.sessions.find? (ocSessionKey ip) with
      | none =>
          simp only [hfound] at hy
          cases status with
          | start => exact Or.inl (hold hy)
          | stop => exact Or.inl (hold hy)
          | interim =>
              simp only at hy
              by_cases hemail : p.email = ""
              · rw [if_pos hemail] at hy
                exact Or.inl (hold hy)
              · rw [if_neg hemail] at hy
                rcases Table.mem_put.1 hy with ⟨hy, -⟩ | rfl
                · exact Or.inl (hold hy)
                · refine Or.inr ⟨?_, rfl⟩
                  simp [Tables.records, hframed, hemail, hprotocol, hfound]
      | some s =>
          simp only [hfound] at hy
          cases status with
          | start => exact Or.inl (hold hy)
          | stop =>
              simp only at hy
              split at hy
              · exact Or.inl (hold hy)
              · split at hy
                · exact Or.inl (hold hy)
                · exact Or.inl (hold (Table.mem_erase.1 hy).1)
          | interim =>
              have hheard : ∀ s : Session,
                  ({ s with heard := some p.now, acctID := p.sessionId } : Session).sid = s.sid := fun _ => rfl
              obtain ⟨x, hx, rfl | rfl⟩ := Table.mem_updateWhere hheard hy
              · exact Or.inl (hold hx)
              · exact Or.inl ⟨x, hx, rfl, rfl⟩

/-- A session after a packet is an old one, or the one the packet records. -/
theorem handleAcct_sessions {y : Session} (hy : y ∈ (t.handleAcct status p).sessions.rows) :
    (∃ x ∈ t.sessions.rows, y.ip = x.ip ∧ y.device = x.device) ∨
      t.records status p = some y.ip ∧ y.device = p.device := by
  have hold : y ∈ t.sessions.rows → ∃ x ∈ t.sessions.rows, y.ip = x.ip ∧ y.device = x.device := fun hy =>
    ⟨y, hy, rfl, rfl⟩
  unfold Tables.handleAcct at hy
  by_cases hprotocol : p.protocol = .openconnect
  · rw [if_pos hprotocol] at hy
    exact handleOcservAcct_sessions hprotocol hy
  · rw [if_neg hprotocol] at hy
    cases hframed : p.framedIP with
    | none =>
        simp only [hframed] at hy
        cases status with
        | start => exact Or.inl (hold hy)
        | stop => exact Or.inl (hold (Table.mem_erase.1 hy).1)
        | interim => exact Or.inl (hold hy)
    | some ip =>
        simp only [hframed] at hy
        cases status with
        | start =>
            simp only at hy
            by_cases hemail : p.email = ""
            · rw [if_pos hemail] at hy
              exact Or.inl (hold hy)
            · rw [if_neg hemail] at hy
              rcases Table.mem_put.1 hy with ⟨hy, -⟩ | rfl
              · exact Or.inl (hold hy)
              · refine Or.inr ⟨?_, rfl⟩
                simp [Tables.records, hframed, hemail, hprotocol]
        | stop => exact Or.inl (hold (Table.mem_erase.1 hy).1)
        | interim =>
            simp only at hy
            by_cases hskip : (t.sessions.find? p.sessionId).isSome = true ∨ p.email = ""
            · rw [if_pos hskip] at hy
              exact Or.inl (hold hy)
            · rw [if_neg hskip] at hy
              rw [not_or, Bool.not_eq_true, Option.isSome_eq_false_iff] at hskip
              rcases Table.mem_put.1 hy with ⟨hy, -⟩ | rfl
              · exact Or.inl (hold hy)
              · refine Or.inr ⟨?_, rfl⟩
                simp [Tables.records, hframed, hskip.2, hprotocol, Option.isNone_iff_eq_none.1 hskip.1]

theorem handleAcct_pending {l : Lease} (hl : l ∈ (t.handleAcct status p).pending.rows) :
    l ∈ t.pending.rows := by
  unfold Tables.handleAcct Tables.handleOcservAcct at hl
  repeat' split at hl
  all_goals first
    | exact hl
    | exact (Table.mem_erase.1 hl).1

theorem handleAcct_claims : (t.handleAcct status p).claims = t.claims := by
  unfold Tables.handleAcct Tables.handleOcservAcct
  repeat' split
  all_goals rfl

end Accounting

theorem acct_attributed {s : Server} {status : AcctStatus} {p : AcctPacket} (h : Attributed s.tables s.given)
    (hok : Undisturbed s (.acct status p)) :
    Attributed (s.step (.acct status p)).tables (s.step (.acct status p)).given := by
  -- whoever had the address has it still
  have hgiven : ∀ ip device, s.given ip = some device → (s.step (.acct status p)).given ip = some device := by
    intro ip device hip
    simp only [Server.step, Server.give]
    cases hrecords : s.tables.records status p with
    | none => exact hip
    | some ip' =>
        by_cases hsame : ip = ip'
        · subst hsame
          rcases hok ip hrecords with hnone | hown
          · rw [hnone] at hip
            cases hip
          · rw [← hip, hown]
            exact Function.update_self _ _ _
        · exact (Function.update_of_ne hsame _ _).trans hip
  refine ⟨fun y hy => ?_, fun l hl => ?_, fun c hc hredials => ?_⟩
  · rcases handleAcct_sessions hy with ⟨x, hx, hip, hdevice⟩ | ⟨hrecords, hdevice⟩
    · rw [hip, hdevice]
      exact hgiven _ _ (h.sessions x hx)
    · simp only [Server.step, Server.give, hrecords, hdevice]
      exact Function.update_self _ _ _
  · exact hgiven _ _ (h.pending l (handleAcct_pending hl))
  · refine hgiven _ _ (h.claims c ?_ hredials)
    rw [← @handleAcct_claims s.tables status p]
    exact hc

/-! ## Every run -/

/-- What every step keeps. -/
def Server.Settled (s : Server) : Prop := Attributed s.tables s.given

theorem Server.Settled.step {s : Server} {e : RadiusEvent} (h : s.Settled) (hok : Undisturbed s e) :
    (s.step e).Settled ∧ Exclusive s e := by
  cases e with
  | dial d => exact dial_attributed h hok
  | acct status p => exact ⟨acct_attributed h hok, trivial⟩
  | sweep now sessionActive =>
      exact ⟨h.of_subset (fun x hx => (Table.mem_deleteWhere.1 hx).1) (fun _ hl => hl) fun _ hc => hc, trivial⟩
  | reset protocol =>
      exact ⟨h.of_subset (fun _ hx => hx) (fun _ hl => by cases hl) fun c hc => (Table.mem_deleteWhere.1 hc).1,
        trivial⟩

theorem settled_empty : ({} : Server).Settled where
  sessions := fun _ hx => by cases hx
  pending := fun _ hl => by cases hl
  claims := fun _ hc => by cases hc

/-- In every run that is not disturbed, every dial is given an address of its block that no
other device keeps, and the devices of a block are at most its addresses. -/
theorem allocation_exclusive (events : List RadiusEvent)
    (hok : AllSteps Server.step Undisturbed {} events) :
    AllSteps Server.step Exclusive {} events ∧
      ∀ s ∈ states Server.step {} events, ∀ block : List String,
        (s.tables.devices block).length ≤ block.length := by
  have hstep : ∀ (s : Server) (e : RadiusEvent), s.Settled → Undisturbed s e → (s.step e).Settled ∧ Exclusive s e :=
    fun s e h hok => h.step hok
  refine ⟨hok.transitions hstep settled_empty, fun s hs block => ?_⟩
  have hsettled : s.Settled := hok.invariant (fun s e h hok => (hstep s e h hok).1) settled_empty s hs
  exact Attributed.devices_le hsettled block

/-! ## What disturbs -/

/-- A dial of the account with one address. -/
def sampleDial (station : String) (now line : ℕ) : Dial where
  inboundId := 1
  accountSlot := 0
  blockIPs := ["10.0.2.2"]
  protocol := .l2tp
  accept := true
  station := station
  email := "a@b"
  now := now
  line := line

def sampleStart (sessionId : String) (now : ℕ) (device : Device) : AcctPacket where
  sessionId := sessionId
  framedIP := some "10.0.2.2"
  email := "a@b"
  protocol := .l2tp
  now := now
  device := device

/-- A device dials and starts, a second takes its place, and the first dials again. -/
def evictingRun : List RadiusEvent :=
  [.dial (sampleDial "203.0.113.7" 0 0),
    .acct .start (sampleStart "s1" second (sampleDial "203.0.113.7" 0 0).device),
    .dial (sampleDial "198.51.100.4" (60 * second) 1),
    .acct .start (sampleStart "s2" (61 * second) (sampleDial "198.51.100.4" 0 1).device),
    .dial (sampleDial "203.0.113.7" (80 * second) 0)]

theorem evictingRun_exclusive :
    ((run Server.step {} evictingRun).tables.sessions.rows.map (·.sid),
        (run Server.step {} evictingRun).tables.pending.rows.map (·.ip)) = ([], ["10.0.2.2"]) ∧
      AllSteps Server.step Exclusive {} evictingRun ∧
        ∀ s ∈ states Server.step {} evictingRun, ∀ block : List String,
          (s.tables.devices block).length ≤ block.length :=
  ⟨by decide +kernel, allocation_exclusive evictingRun (by decide +kernel)⟩

/-- The second device names no station, so the claim of the first outlives its eviction. -/
def strandedRun : List RadiusEvent :=
  [.dial (sampleDial "203.0.113.7" 0 0),
    .acct .start (sampleStart "s1" second (sampleDial "203.0.113.7" 0 0).device),
    .dial (sampleDial "" (60 * second) 1),
    .acct .start (sampleStart "s2" (61 * second) (sampleDial "" 0 1).device),
    .dial (sampleDial "203.0.113.7" (80 * second) 0)]

/-- The first device is given the address of the second, which keeps it. -/
theorem redial_takes_live_address : ¬AllSteps Server.step Exclusive {} strandedRun := by
  intro h
  have hdial := h.2.2.2.2.1 "10.0.2.2" (by decide +kernel)
  have hother : ∃ y ∈ ((run Server.step {} (strandedRun.take 4)).tables.allocateBlockIP
      (sampleDial "203.0.113.7" (80 * second) 0)).1.sessions.rows,
      y.ip = "10.0.2.2" ∧ y.device ≠ (sampleDial "203.0.113.7" (80 * second) 0).device := by
    decide +kernel
  obtain ⟨y, hy, hip, hne⟩ := hother
  exact hne (hdial.2.1 y hy hip)

end Simorgh.Radius
