import Mathlib.Data.List.Perm.Subperm
import Simorgh.Lib.Run
import Simorgh.Vpn.Hooks

/-!
# Device leases

* `Steady` — what the hooks read is true of the account's devices, and what they act on
  is still so.
* `Knows` — what a hook under way knows of the devices.
* `leases_respect_account` — in every steady run an address that is handed out is the
  account's own and nobody else's, only its own devices are evicted, and no account has
  more devices than addresses.
* `foreign_lease_taken` — a lease of another account is taken over.
-/

namespace Simorgh.Vpn

open Simorgh.Lib

/-! ## What goes right -/

/-- A device at this address is seen: it is in the status file and not released, or its
lease is within the grace. -/
def View.shows (v : View) (ip : String) : Bool :=
  decide (ip ∈ v.live) && !decide (ip ∈ v.released) ||
    (v.leases.find? ip).any fun l => decide (v.age l ≤ ovpnLeaseReclaimGrace)

/-- The hook has looked at both transports and not leased yet. -/
def Phase.decided : Phase → Bool
  | .victim _ _ | .lease _ _ _ => true
  | _ => false

/-- The addresses of the block in use, but for one. -/
def View.usedBut (v : View) (candidates : List String) (ip : String) : ℕ :=
  (candidates.filter fun ip' => v.inUse ip' && decide (ip' ≠ ip)).length

/-- What a hook hands out next, if it does. -/
def Hook.grant (h : Hook) : Option Grant :=
  match h.phase with
  | .lease _ _ g => some g
  | _ => none

/-- An address is handed out: it is of the account's block on the transport of the client, a
device that has it is handed to the evictor, and nobody else's device is. -/
def Respects (cfg : OvpnConfig) (s : Daemon) : DaemonEvent → Prop
  | .hook t _ => ∀ h ∈ s.hooks t, ∀ g ∈ h.grant,
      g.ip ∈ cfg.candidates h.client h.user ∧
        (∀ d ∈ s.devices, d.transport = h.client → d.ip = g.ip → g.evicts t d = true) ∧
        ∀ d ∈ s.devices, g.evicts t d = true → d.user = h.user
  | _ => True

instance (cfg : OvpnConfig) (s : Daemon) : (e : DaemonEvent) → Decidable (Respects cfg s e)
  | .hook t _ => inferInstanceAs (Decidable (∀ h ∈ s.hooks t, ∀ g ∈ h.grant,
      g.ip ∈ cfg.candidates h.client h.user ∧
        (∀ d ∈ s.devices, d.transport = h.client → d.ip = g.ip → g.evicts t d = true) ∧
        ∀ d ∈ s.devices, g.evicts t d = true → d.user = h.user))
  | .connect _ _ _ _ | .status _ _ | .disconnect _ _ _ | .leave _ _ => isTrue trivial

/-- The published blocks: as many addresses on either transport, and never two accounts' the
same. -/
structure OvpnConfig.Separate (cfg : OvpnConfig) : Prop where
  same : ∀ t t' user b b', cfg.block t user = some b → cfg.block t' user = some b' → b.2.length = b'.2.length
  apart : ∀ t user user' b b', cfg.block t user = some b → cfg.block t user' = some b' → user ≠ user' →
    ∀ ip ∈ b.2, ip ∉ b'.2

/-- The step of a hook is steady: what it reads shows the devices of the account; a victim
is the block's, and the one the status file names; and when it leases, no hook of the
account on the other transport is about to, and an address that is taken over leaves the
account's other addresses in use fewer than the block. -/
def Hook.Steady (cfg : OvpnConfig) (s : Daemon) (t : Transport) (now : ℤ) (h : Hook) : Prop :=
  match h.phase with
  | .leases live released => ∀ d ∈ s.devices, d.user = h.user → d.transport = t →
      View.shows ⟨live, released, (s.files.leases t).deleteWhere fun l => decide (ovpnLeaseTTL < now - l.mtime),
        now⟩ d.ip = true
  | .otherLeases _ live => ∀ d ∈ s.devices, d.user = h.user → d.transport = t.other →
      d.ip ∈ live ∨ ∃ l ∈ (s.files.leases t.other).rows, l.ip = d.ip ∧ now - l.mtime ≤ ovpnLeaseTTL
  | .victim v _ =>
      match ovpnOldestFromStatus (s.files.status t) (cfg.candidates t h.user) with
      | some r => r.realAddr ≠ "" → ∀ d ∈ s.devices, d.transport = t → (d.ip = r.ip ↔ d.key = r.realAddr)
      | none => ∀ ip ∈ v.oldestLeasedIP, ip ∈ cfg.candidates t h.user
  | .lease v others g =>
      (∀ h' ∈ s.hooks t.other, h'.user = h.user → h'.phase.decided = false) ∧
        (g ≠ .free g.ip → v.usedBut (cfg.candidates t h.user) g.ip + others.length <
          (cfg.candidates t h.user).length)
  | _ => True

/-- A victim by the status file or by lease is decidable either way. -/
instance (cfg : OvpnConfig) (s : Daemon) (t : Transport) (now : ℤ) (h : Hook) :
    Decidable (h.Steady cfg s t now) := by
  unfold Hook.Steady
  split
  · infer_instance
  · infer_instance
  · split <;> infer_instance
  · infer_instance
  · infer_instance

/-- OpenVPN gives a client an address of its transport's pool, and the hooks are steady. -/
def Steady (cfg : OvpnConfig) (s : Daemon) : DaemonEvent → Prop
  | .connect client _ poolIP _ => ovpnTransport poolIP = client
  | .hook t now => ∀ h ∈ s.hooks t, h.Steady cfg s t now
  | _ => True

instance (cfg : OvpnConfig) (s : Daemon) : (e : DaemonEvent) → Decidable (Steady cfg s e)
  | .connect client _ poolIP _ => inferInstanceAs (Decidable (ovpnTransport poolIP = client))
  | .hook t now => inferInstanceAs (Decidable (∀ h ∈ s.hooks t, h.Steady cfg s t now))
  | .status _ _ | .disconnect _ _ _ | .leave _ _ => isTrue trivial

/-! ## What a hook knows -/

/-- The devices of the account on a transport are seen. -/
def Covers (devices : List OvpnDevice) (t : Transport) (user : String) (v : View) : Prop :=
  ∀ d ∈ devices, d.user = user → d.transport = t → v.shows d.ip = true

/-- Those on the other one are counted. -/
def Counts (devices : List OvpnDevice) (t : Transport) (user : String) (others : List String) : Prop :=
  ∀ d ∈ devices, d.user = user → d.transport = t → d.ip ∈ others

/-- An address may be handed out. -/
def GrantOk (candidates : List String) (devices : List OvpnDevice) (t : Transport) (v : View)
    (others : List String) : Grant → Prop
  | .free ip => ip ∈ candidates ∧ v.inUse ip = false ∧ v.used candidates + others.length < candidates.length
  | .ghost ip => ip ∈ candidates ∧ v.shows ip = false
  | .evict ip realAddr => ip ∈ candidates ∧
      (realAddr ≠ "" → ∀ d ∈ devices, d.transport = t → (d.ip = ip ↔ d.key = realAddr))

/-- What a hook under way relies on. -/
def Knows (cfg : OvpnConfig) (devices : List OvpnDevice) (t : Transport) (user : String) : Phase → Prop
  | .otherStatus v | .otherLeases v _ => Covers devices t user v
  | .victim v others => Covers devices t user v ∧ Counts devices t.other user others
  | .lease v others g => Covers devices t user v ∧ Counts devices t.other user others ∧
      GrantOk (cfg.candidates t user) devices t v others g
  | _ => True

/-- What every run keeps. -/
structure LeaseInv (cfg : OvpnConfig) (s : Daemon) : Prop where
  own : ∀ d ∈ s.devices, d.ip ∈ cfg.candidates d.transport d.user
  nodup : (s.devices.map fun d => (d.transport, d.ip)).Nodup
  bound : ∀ t user, cfg.candidates t user ≠ [] →
    (s.devices.filter fun d => decide (d.user = user)).length ≤ (cfg.candidates t user).length
  hooks : ∀ t h, s.hooks t = some h → h.client = t ∧ Knows cfg s.devices t h.user h.phase

section Reading

variable {cfg : OvpnConfig} {t : Transport} {user : String} {v : View} {others : List String}
  {devices devices' : List OvpnDevice}

theorem shows_inUse {ip : String} (h : v.shows ip = true) : v.inUse ip = true := by
  unfold View.shows at h
  unfold View.inUse View.leased
  rw [Bool.or_eq_true] at h ⊢
  rcases h with h | h
  · exact Or.inr h
  · refine Or.inl ?_
    rw [Option.any_eq_true] at h
    obtain ⟨l, hl, -⟩ := h
    rw [hl]
    rfl

/-- What is known of some devices is known of fewer. -/
theorem Knows.mono {phase : Phase} (h : Knows cfg devices t user phase) (hsub : ∀ d ∈ devices', d ∈ devices) :
    Knows cfg devices' t user phase := by
  have hcovers : ∀ v, Covers devices t user v → Covers devices' t user v := fun v hv d hd => hv d (hsub d hd)
  have hcounts : ∀ others, Counts devices t.other user others → Counts devices' t.other user others :=
    fun others ho d hd => ho d (hsub d hd)
  cases phase with
  | otherStatus v => exact hcovers v h
  | otherLeases v live => exact hcovers v h
  | victim v others => exact ⟨hcovers v h.1, hcounts others h.2⟩
  | lease v others g =>
      refine ⟨hcovers v h.1, hcounts others h.2.1, ?_⟩
      have hgrant := h.2.2
      cases g with
      | free ip => exact hgrant
      | ghost ip => exact hgrant
      | evict ip realAddr => exact ⟨hgrant.1, fun hne d hd => hgrant.2 hne d (hsub d hd)⟩
  | status => trivial
  | released live => trivial
  | leases live released => trivial
  | clear ip => trivial

/-- A new device is on the other transport, and not the account's if the hook has decided. -/
theorem Knows.append {phase : Phase} (h : Knows cfg devices t user phase) {new : OvpnDevice}
    (ht : t ≠ new.transport) (huser : user = new.user → phase.decided = false) :
    Knows cfg (devices ++ [new]) t user phase := by
  have hcovers : ∀ v, Covers devices t user v → Covers (devices ++ [new]) t user v := by
    intro v hv d hd huser' ht'
    rcases List.mem_append.1 hd with hd | hd
    · exact hv d hd huser' ht'
    · rw [List.mem_singleton.1 hd] at ht'
      exact absurd ht'.symm ht
  have hcounts : ∀ others, phase.decided = true → Counts devices t.other user others →
      Counts (devices ++ [new]) t.other user others := by
    intro others hdecided ho d hd huser' ht'
    rcases List.mem_append.1 hd with hd | hd
    · exact ho d hd huser' ht'
    · rw [List.mem_singleton.1 hd] at huser'
      rw [huser huser'.symm] at hdecided
      cases hdecided
  cases phase with
  | otherStatus v => exact hcovers v h
  | otherLeases v live => exact hcovers v h
  | victim v others => exact ⟨hcovers v h.1, hcounts others rfl h.2⟩
  | lease v others g =>
      refine ⟨hcovers v h.1, hcounts others rfl h.2.1, ?_⟩
      have hgrant := h.2.2
      cases g with
      | free ip => exact hgrant
      | ghost ip => exact hgrant
      | evict ip realAddr =>
          refine ⟨hgrant.1, fun hne d hd ht' => ?_⟩
          rcases List.mem_append.1 hd with hd | hd
          · exact hgrant.2 hne d hd ht'
          · rw [List.mem_singleton.1 hd] at ht'
            exact absurd ht'.symm ht
  | status => trivial
  | released live => trivial
  | leases live released => trivial
  | clear ip => trivial

theorem greatest_mem {α : Type} {floor : ℤ} {l : List (α × ℤ)} {a : α} (h : greatest floor l = some a) :
    ∃ n, (a, n) ∈ l := by
  have hcarried : ∀ (l : List (α × ℤ)) (best : Option α × ℤ),
      (l.foldl (fun (best : Option α × ℤ) e => if best.2 < e.2 then (some e.1, e.2) else best) best).1 = some a →
      best.1 = some a ∨ ∃ n, (a, n) ∈ l := by
    intro l
    induction l with
    | nil => exact fun best h => Or.inl h
    | cons e l ih =>
        intro best h
        rcases ih _ h with hbest | ⟨n, hn⟩
        · simp only at hbest
          split at hbest
          · exact Or.inr ⟨e.2, List.mem_cons.2 (Or.inl (by rw [← Option.some.inj hbest]))⟩
          · exact Or.inl hbest
        · exact Or.inr ⟨n, List.mem_cons_of_mem e hn⟩
  rcases hcarried l (none, floor) h with hnone | hmem
  · cases hnone
  · exact hmem

/-- An abandoned lease has no device behind it that is seen. -/
theorem ghostIP_spec {candidates : List String} {ip : String} (h : v.ghostIP candidates = some ip) :
    ip ∈ candidates ∧ v.shows ip = false := by
  obtain ⟨n, hn⟩ := greatest_mem h
  obtain ⟨hn, hold⟩ := List.mem_filter.1 hn
  obtain ⟨ip', hip', hlease⟩ := List.mem_filterMap.1 hn
  obtain ⟨hcandidate, hnot⟩ := List.mem_filter.1 hip'
  obtain ⟨l, hl, heq⟩ := Option.map_eq_some_iff.1 hlease
  cases heq
  refine ⟨hcandidate, ?_⟩
  rw [decide_eq_true_iff] at hold
  unfold View.shows
  rw [Bool.or_eq_false_iff, hl]
  refine ⟨?_, by simpa using hold⟩
  unfold View.liveStatus at hnot
  cases hlive : decide (ip ∈ v.live) with
  | false => rfl
  | true =>
      cases hreleased : decide (ip ∈ v.released) with
      | true => rfl
      | false => simp [hlive, hreleased] at hnot

/-- What is decided on is known to be good. -/
theorem decideLease_knows {phase : Phase} (hcovers : Covers devices t user v)
    (hcounts : Counts devices t.other user others) (h : decideLease cfg t user v others = some phase) :
    Knows cfg devices t user phase := by
  unfold decideLease at h
  simp only at h
  cases hfree : (if v.used (cfg.candidates t user) + others.length < (cfg.candidates t user).length then
      (cfg.candidates t user).find? fun ip => !v.inUse ip else none) with
  | some ip =>
      simp only [hfree] at h
      cases h
      by_cases hroom : v.used (cfg.candidates t user) + others.length < (cfg.candidates t user).length
      · rw [if_pos hroom] at hfree
        have hunused := List.find?_some hfree
        rw [Bool.not_eq_true'] at hunused
        exact ⟨hcovers, hcounts, List.mem_of_find?_eq_some hfree, hunused, hroom⟩
      · rw [if_neg hroom] at hfree
        cases hfree
  | none =>
      simp only [hfree] at h
      cases hghost : v.ghostIP (cfg.candidates t user) with
      | some ip =>
          simp only [hghost] at h
          cases h
          exact ⟨hcovers, hcounts, ghostIP_spec hghost⟩
      | none =>
          simp only [hghost] at h
          split at h
          · cases h
            exact ⟨hcovers, hcounts⟩
          · cases h

end Reading

/-! ## Letting a device in -/

section Admitting

variable {cfg : OvpnConfig} {s : Daemon} {t : Transport} {h : Hook} {v : View} {others : List String} {g : Grant}

/-- An address of an account's block is nobody else's. -/
theorem LeaseInv.user_eq (hcfg : cfg.Separate) (hinv : LeaseInv cfg s) {d : OvpnDevice}
    (hd : d ∈ s.devices) {user : String} (hip : d.ip ∈ cfg.candidates d.transport user) : d.user = user := by
  by_contra hne
  have hown := hinv.own d hd
  unfold OvpnConfig.candidates at hip hown
  cases hblock : cfg.block d.transport user with
  | none => simp [hblock] at hip
  | some b =>
      cases hblock' : cfg.block d.transport d.user with
      | none => simp [hblock'] at hown
      | some b' =>
          rw [hblock] at hip
          rw [hblock'] at hown
          exact hcfg.apart d.transport d.user user b' b hblock' hblock hne d.ip hown hip

/-- The block of an account is as long on either transport. -/
theorem candidates_length (hcfg : cfg.Separate) {t t' : Transport} {user : String} (ht : cfg.candidates t user ≠ [])
    (ht' : cfg.candidates t' user ≠ []) :
    (cfg.candidates t user).length = (cfg.candidates t' user).length := by
  unfold OvpnConfig.candidates at ht ht' ⊢
  cases hblock : cfg.block t user with
  | none => simp [hblock] at ht
  | some b =>
      cases hblock' : cfg.block t' user with
      | none => simp [hblock'] at ht'
      | some b' => exact hcfg.same t t' user b b' hblock hblock'

theorem GrantOk.mem {candidates : List String} {devices : List OvpnDevice}
    (hgrant : GrantOk candidates devices t v others g) : g.ip ∈ candidates := by
  cases g with
  | free ip => exact hgrant.1
  | ghost ip => exact hgrant.1
  | evict ip realAddr => exact hgrant.1

/-- What is handed out, and who is evicted. -/
theorem LeaseInv.respects (hcfg : cfg.Separate) (hinv : LeaseInv cfg s) (hhook : s.hooks t = some h)
    (hphase : h.phase = .lease v others g) :
    g.ip ∈ cfg.candidates t h.user ∧
      (∀ d ∈ s.devices, d.transport = t → d.ip = g.ip → g.evicts t d = true) ∧
      ∀ d ∈ s.devices, g.evicts t d = true → d.user = h.user := by
  have hknows := (hinv.hooks t h hhook).2
  rw [hphase] at hknows
  obtain ⟨hcovers, -, hgrant⟩ := hknows
  have hmem := hgrant.mem
  -- whoever has the address is a device of the account
  have hholder : ∀ d ∈ s.devices, d.transport = t → d.ip = g.ip → d.user = h.user := by
    intro d hd ht hip
    refine hinv.user_eq hcfg hd ?_
    rw [ht, hip]
    exact hmem
  refine ⟨hmem, fun d hd ht hip => ?_, fun d hd hevicts => ?_⟩
  · have hshown := hcovers d hd (hholder d hd ht hip) ht
    rw [hip] at hshown
    cases g with
    | free ip =>
        have hunused := hgrant.2.1
        rw [show v.inUse ip = true from shows_inUse hshown] at hunused
        cases hunused
    | ghost ip =>
        have hghost := hgrant.2
        rw [show v.shows ip = true from hshown] at hghost
        cases hghost
    | evict ip realAddr =>
        unfold Grant.evicts
        simp only [ht, decide_true, Bool.true_and]
        by_cases hempty : realAddr = ""
        · rw [if_pos hempty]
          exact decide_eq_true hip
        · rw [if_neg hempty]
          exact decide_eq_true ((hgrant.2 hempty d hd ht).1 hip)
  · cases g with
    | free ip => cases hevicts
    | ghost ip => cases hevicts
    | evict ip realAddr =>
        unfold Grant.evicts at hevicts
        simp only [Bool.and_eq_true, decide_eq_true_iff] at hevicts
        obtain ⟨ht, hvictim⟩ := hevicts
        by_cases hempty : realAddr = ""
        · rw [if_pos hempty, decide_eq_true_iff] at hvictim
          exact hholder d hd ht hvictim
        · rw [if_neg hempty, decide_eq_true_iff] at hvictim
          exact hholder d hd ht ((hgrant.2 hempty d hd ht).2 hvictim)

/-- The addresses of devices on one transport are at most those of a list that has them
all. -/
theorem length_le_of_ips {devices : List OvpnDevice} {t : Transport} {ips : List String}
    (hnodup : (devices.map fun d => (d.transport, d.ip)).Nodup) (ht : ∀ d ∈ devices, d.transport = t)
    (hips : ∀ d ∈ devices, d.ip ∈ ips) : devices.length ≤ ips.length := by
  have hpairs : (devices.map fun d => (d.transport, d.ip)) = (devices.map (·.ip)).map fun ip => (t, ip) := by
    rw [List.map_map]
    exact List.map_congr_left fun d hd => by rw [ht d hd]; rfl
  rw [hpairs] at hnodup
  have hsubset : devices.map (·.ip) ⊆ ips := by
    intro ip hip
    obtain ⟨d, hd, rfl⟩ := List.mem_map.1 hip
    exact hips d hd
  have hle := (hnodup.of_map.subperm hsubset).length_le
  rwa [List.length_map] at hle

theorem other_of_ne {t t' : Transport} (h : t' ≠ t) : t' = t.other := by
  cases t <;> cases t'
  · exact absurd rfl h
  · rfl
  · rfl
  · exact absurd rfl h

/-- The devices of an account that an address was not taken from are fewer than its block. -/
theorem LeaseInv.room (hcfg : cfg.Separate) (hinv : LeaseInv cfg s) (hhook : s.hooks t = some h)
    (hphase : h.phase = .lease v others g) {now : ℤ} (hok : h.Steady cfg s t now) :
    ((s.devices.filter fun d => !g.evicts t d).filter fun d => decide (d.user = h.user)).length <
      (cfg.candidates t h.user).length := by
  have hrespects := (hinv.respects hcfg hhook hphase).2.1
  have hknows := (hinv.hooks t h hhook).2
  rw [hphase] at hknows
  obtain ⟨hcovers, hcounts, hgrant⟩ := hknows
  -- what is in use but for the address leaves room for it
  have hroom : v.usedBut (cfg.candidates t h.user) g.ip + others.length < (cfg.candidates t h.user).length := by
    unfold Hook.Steady at hok
    rw [hphase] at hok
    cases g with
    | free ip =>
        have hle : v.usedBut (cfg.candidates t h.user) ip ≤ v.used (cfg.candidates t h.user) := by
          refine (List.monotone_filter_right _ fun ip' h => ?_).length_le
          rw [Bool.and_eq_true] at h
          exact h.1
        exact Nat.lt_of_le_of_lt (Nat.add_le_add_right hle _) hgrant.2.2
    | ghost ip => exact hok.2 fun heq => by cases heq
    | evict ip realAddr => exact hok.2 fun heq => by cases heq
  generalize hleft : (s.devices.filter fun d => !g.evicts t d).filter (fun d => decide (d.user = h.user)) = left
  have hmem : ∀ d ∈ left, d ∈ s.devices ∧ g.evicts t d = false ∧ d.user = h.user := by
    intro d hd
    rw [← hleft, List.mem_filter, List.mem_filter, decide_eq_true_iff, Bool.not_eq_true'] at hd
    exact ⟨hd.1.1, hd.1.2, hd.2⟩
  have hnodup : (left.map fun d => (d.transport, d.ip)).Nodup := by
    rw [← hleft]
    exact hinv.nodup.sublist ((List.filter_sublist.trans List.filter_sublist).map _)
  have hhere : (left.filter fun d => decide (d.transport = t)).length ≤
      v.usedBut (cfg.candidates t h.user) g.ip := by
    refine length_le_of_ips (t := t) (hnodup.sublist (List.filter_sublist.map _)) (fun d hd => ?_) fun d hd => ?_
    · exact of_decide_eq_true (List.mem_filter.1 hd).2
    · obtain ⟨hd, ht⟩ := List.mem_filter.1 hd
      rw [decide_eq_true_iff] at ht
      obtain ⟨hd, hkept, huser⟩ := hmem d hd
      refine List.mem_filter.2 ⟨?_, ?_⟩
      · rw [← ht, ← huser]
        exact hinv.own d hd
      · rw [Bool.and_eq_true, decide_eq_true_iff]
        refine ⟨shows_inUse (hcovers d hd huser ht), fun hip => ?_⟩
        rw [hrespects d hd ht hip] at hkept
        cases hkept
  have hthere : (left.filter fun d => !decide (d.transport = t)).length ≤ others.length := by
    refine length_le_of_ips (t := t.other) (hnodup.sublist (List.filter_sublist.map _)) (fun d hd => ?_)
      fun d hd => ?_
    · have hne := (List.mem_filter.1 hd).2
      rw [Bool.not_eq_true', decide_eq_false_iff_not] at hne
      exact other_of_ne hne
    · obtain ⟨hd, hne⟩ := List.mem_filter.1 hd
      rw [Bool.not_eq_true', decide_eq_false_iff_not] at hne
      obtain ⟨hd, -, huser⟩ := hmem d hd
      exact hcounts d hd huser (other_of_ne hne)
  have hsplit := List.length_eq_length_filter_add (l := left) fun d => decide (d.transport = t)
  omega

/-- A device is let in. -/
theorem LeaseInv.admit (hcfg : cfg.Separate) (hinv : LeaseInv cfg s) (hhook : s.hooks t = some h)
    (hphase : h.phase = .lease v others g) {now : ℤ} (hok : h.Steady cfg s t now) :
    LeaseInv cfg (s.step cfg (.hook t now)) := by
  obtain ⟨hclient, -⟩ := hinv.hooks t h hhook
  obtain ⟨hmem, hholders, -⟩ := hinv.respects hcfg hhook hphase
  have hroom := hinv.room hcfg hhook hphase hok
  have hne : cfg.candidates t h.user ≠ [] := List.ne_nil_of_mem hmem
  simp only [Daemon.step, hhook, Hook.next, Hook.admits, hphase, Option.map_some, hclient]
  refine ⟨fun d hd => ?_, ?_, fun t' user hne' => ?_, fun t' h' hh' => ?_⟩
  · rcases List.mem_append.1 hd with hd | hd
    · exact hinv.own d (List.mem_of_mem_filter hd)
    · rw [List.mem_singleton.1 hd]
      exact hmem
  · rw [List.map_append, List.nodup_append']
    refine ⟨hinv.nodup.sublist (List.filter_sublist.map _), List.nodup_singleton _, ?_⟩
    intro pair hpair hnew
    obtain ⟨d, hd, rfl⟩ := List.mem_map.1 hpair
    obtain ⟨hd, hkept⟩ := List.mem_filter.1 hd
    rw [List.map_singleton, List.mem_singleton, Prod.mk.injEq] at hnew
    rw [hholders d hd hnew.1 hnew.2] at hkept
    cases hkept
  · rw [List.filter_append, List.length_append]
    by_cases huser : h.user = user
    · subst huser
      rw [List.filter_cons_of_pos (by simp), List.filter_nil, List.length_singleton,
        ← candidates_length hcfg hne hne']
      exact hroom
    · rw [List.filter_cons_of_neg (by simpa using huser), List.filter_nil, List.length_nil, Nat.add_zero]
      refine Nat.le_trans ?_ (hinv.bound t' user hne')
      exact (List.filter_sublist.filter _).length_le
  · simp only at hh'
    by_cases hsame : t' = t
    · subst hsame
      rw [Function.update_self] at hh'
      cases hh'
      exact ⟨rfl, trivial⟩
    · rw [Function.update_of_ne hsame] at hh'
      obtain ⟨hclient', hknows⟩ := hinv.hooks t' h' hh'
      have hundecided : h'.user = h.user → h'.phase.decided = false := by
        intro huser
        unfold Hook.Steady at hok
        rw [hphase] at hok
        refine hok.1 h' ?_ huser
        rw [← other_of_ne hsame]
        exact hh'
      exact ⟨hclient', (hknows.mono fun d hd => List.mem_of_mem_filter hd).append hsame hundecided⟩

end Admitting

/-! ## Every run -/

section Stepping

variable {cfg : OvpnConfig} {s : Daemon} {t : Transport} {h : Hook} {now : ℤ}

/-- What a hook knows after it has read. -/
theorem LeaseInv.next_knows (hinv : LeaseInv cfg s) (hhook : s.hooks t = some h) (hok : h.Steady cfg s t now)
    {phase : Phase} (hlease : ∀ v others g, h.phase ≠ .lease v others g)
    (hnext : (h.next cfg t now s.files).2 = some phase) : Knows cfg s.devices t h.user phase := by
  have hknows := (hinv.hooks t h hhook).2
  unfold Hook.next at hnext
  unfold Hook.Steady at hok
  cases hphase : h.phase with
  | status =>
      rw [hphase] at hnext
      cases hnext
      trivial
  | released live =>
      rw [hphase] at hnext
      cases hnext
      trivial
  | leases live released =>
      rw [hphase] at hnext hok
      cases hnext
      exact hok
  | otherStatus v =>
      rw [hphase] at hnext hknows
      simp only at hnext
      by_cases hnone : cfg.candidates t.other h.user = []
      · rw [if_pos hnone] at hnext
        refine decideLease_knows hknows (fun d hd huser ht => ?_) hnext
        have hown := hinv.own d hd
        rw [huser, ht, hnone] at hown
        cases hown
      · rw [if_neg hnone] at hnext
        cases hnext
        exact hknows
  | otherLeases v live =>
      rw [hphase] at hnext hknows hok
      refine decideLease_knows hknows (fun d hd huser ht => ?_) hnext
      have hown := hinv.own d hd
      rw [huser, ht] at hown
      refine List.mem_filter.2 ⟨hown, ?_⟩
      rw [Bool.or_eq_true, decide_eq_true_iff, decide_eq_true_iff]
      rcases hok d hd huser ht with hlive | ⟨l, hl, hip, hfresh⟩
      · exact Or.inl hlive
      · refine Or.inr (List.mem_map.2 ⟨l, List.mem_filter.2 ⟨hl, ?_⟩, hip⟩)
        rw [Bool.not_eq_true', decide_eq_false_iff_not]
        omega
  | victim v others =>
      rw [hphase] at hnext hknows hok
      simp only at hnext hok
      cases hrow : ovpnOldestFromStatus (s.files.status t) (cfg.candidates t h.user) with
      | some r =>
          rw [hrow] at hnext hok
          cases hnext
          obtain ⟨n, hn⟩ := greatest_mem hrow
          obtain ⟨r', hr', hsince⟩ := List.mem_filterMap.1 hn
          obtain ⟨since, -, heq⟩ := Option.map_eq_some_iff.1 hsince
          cases heq
          exact ⟨hknows.1, hknows.2, of_decide_eq_true (List.mem_filter.1 hr').2, hok⟩
      | none =>
          rw [hrow] at hnext hok
          obtain ⟨ip, hip, rfl⟩ := Option.map_eq_some_iff.1 hnext
          exact ⟨hknows.1, hknows.2, hok ip hip, fun hne => absurd rfl hne⟩
  | lease v others g => exact absurd hphase (hlease v others g)
  | clear ip =>
      rw [hphase] at hnext
      cases hnext

theorem LeaseInv.hook (hcfg : cfg.Separate) (hinv : LeaseInv cfg s) (hok : Steady cfg s (.hook t now)) :
    LeaseInv cfg (s.step cfg (.hook t now)) := by
  cases hhook : s.hooks t with
  | none =>
      simp only [Daemon.step, hhook]
      exact hinv
  | some h =>
      have hok := hok h hhook
      by_cases hlease : ∃ v others g, h.phase = .lease v others g
      · obtain ⟨v, others, g, hphase⟩ := hlease
        exact hinv.admit hcfg hhook hphase hok
      · have hreads : ∀ v others g, h.phase ≠ .lease v others g := fun v others g hphase =>
          hlease ⟨v, others, g, hphase⟩
        have hdevices : h.admits t s.devices = s.devices := by
          unfold Hook.admits
          split
          · rename_i v others g hphase
            exact absurd hphase (hreads v others g)
          · rfl
        simp only [Daemon.step, hhook, hdevices]
        refine ⟨hinv.own, hinv.nodup, hinv.bound, fun t' h' hh' => ?_⟩
        simp only at hh'
        by_cases hsame : t' = t
        · subst hsame
          rw [Function.update_self] at hh'
          obtain ⟨phase, hnext, rfl⟩ := Option.map_eq_some_iff.1 hh'
          exact ⟨(hinv.hooks t' h hhook).1, hinv.next_knows hhook hok hreads hnext⟩
        · rw [Function.update_of_ne hsame] at hh'
          exact hinv.hooks t' h' hh'

/-- Every steady step keeps the invariant, and respects the account. -/
theorem LeaseInv.step {e : DaemonEvent} (hcfg : cfg.Separate) (hinv : LeaseInv cfg s) (hok : Steady cfg s e) :
    LeaseInv cfg (s.step cfg e) ∧ Respects cfg s e := by
  cases e with
  | connect client user poolIP key =>
      refine ⟨?_, trivial⟩
      simp only [Daemon.step]
      split
      · exact hinv
      · refine ⟨hinv.own, hinv.nodup, hinv.bound, fun t' h' hh' => ?_⟩
        simp only at hh'
        by_cases hsame : t' = ovpnTransport poolIP
        · subst hsame
          rw [Function.update_self] at hh'
          cases hh'
          exact ⟨hok.symm, trivial⟩
        · rw [Function.update_of_ne hsame] at hh'
          exact hinv.hooks t' h' hh'
  | hook t now =>
      refine ⟨hinv.hook hcfg hok, fun h hhook g hgrant => ?_⟩
      unfold Hook.grant at hgrant
      split at hgrant
      · rename_i v others g' hphase
        cases hgrant
        rw [(hinv.hooks t h hhook).1]
        exact hinv.respects hcfg hhook hphase
      · cases hgrant
  | status t rows => exact ⟨⟨hinv.own, hinv.nodup, hinv.bound, hinv.hooks⟩, trivial⟩
  | disconnect client poolIP key =>
      refine ⟨⟨fun d hd => hinv.own d (List.mem_of_mem_filter hd),
        hinv.nodup.sublist (List.filter_sublist.map _), fun t' user hne => ?_, fun t' h' hh' => ?_⟩, trivial⟩
      · exact Nat.le_trans (List.filter_sublist.filter _).length_le (hinv.bound t' user hne)
      · obtain ⟨hclient, hknows⟩ := hinv.hooks t' h' hh'
        exact ⟨hclient, hknows.mono fun d hd => List.mem_of_mem_filter hd⟩
  | leave n now =>
      refine ⟨?_, trivial⟩
      simp only [Daemon.step]
      split
      · exact hinv
      · exact ⟨hinv.own, hinv.nodup, hinv.bound, hinv.hooks⟩

end Stepping

/-- In every steady run, whatever the files hold at its start: an address that is handed out
is of the account's own block, whoever has it is handed to the evictor, nobody else's
device is, and an account has no more devices than addresses. -/
theorem leases_respect_account (cfg : OvpnConfig) (hcfg : cfg.Separate) (files : Files) (events : List DaemonEvent)
    (hok : AllSteps (Daemon.step cfg) (Steady cfg) { files } events) :
    AllSteps (Daemon.step cfg) (Respects cfg) { files } events ∧
      ∀ s ∈ states (Daemon.step cfg) { files } events, ∀ t user, cfg.candidates t user ≠ [] →
        (s.devices.filter fun d => decide (d.user = user)).length ≤ (cfg.candidates t user).length := by
  have hstart : LeaseInv cfg { files } := {
    own := fun d hd => by cases hd
    nodup := List.nodup_nil
    bound := fun t user _ => Nat.zero_le _
    hooks := fun t h hh => by cases hh }
  have hstep : ∀ (s : Daemon) (e : DaemonEvent), LeaseInv cfg s → Steady cfg s e →
      LeaseInv cfg (s.step cfg e) ∧ Respects cfg s e := fun s e hinv hok => hinv.step hcfg hok
  refine ⟨hok.transitions hstep hstart, fun s hs => ?_⟩
  exact (hok.invariant (fun s e hinv hok => (hstep s e hinv hok).1) hstart s hs).bound

/-! ## What is not steady -/

/-- Two accounts of one device each, on one transport. -/
def sampleBlock (t : Transport) (user : String) : Option (String × List String) :=
  match t with
  | .udp => if user = "a" then some ("255.255.255.0", ["10.2.0.2"])
      else if user = "b" then some ("255.255.255.0", ["10.2.0.3"])
      else none
  | .tcp => none

theorem sampleBlock_some {t : Transport} {user : String} {b : String × List String}
    (h : sampleBlock t user = some b) :
    user = "a" ∧ b.2 = ["10.2.0.2"] ∨ user = "b" ∧ b.2 = ["10.2.0.3"] := by
  cases t with
  | tcp => cases h
  | udp =>
      unfold sampleBlock at h
      simp only at h
      split at h
      · rename_i ha
        cases h
        exact Or.inl ⟨ha, rfl⟩
      · split at h
        · rename_i hb
          cases h
          exact Or.inr ⟨hb, rfl⟩
        · cases h

def sampleConfig : OvpnConfig where
  block := sampleBlock
  accept := fun _ => true

theorem sampleConfig_separate : sampleConfig.Separate where
  same t t' user b b' hb hb' := by
    rcases sampleBlock_some hb with ⟨-, hb⟩ | ⟨-, hb⟩ <;> rcases sampleBlock_some hb' with ⟨-, hb'⟩ | ⟨-, hb'⟩ <;>
      rw [hb, hb'] <;> rfl
  apart t user user' b b' hb hb' hne ip hip hip' := by
    rcases sampleBlock_some hb with ⟨hu, hb⟩ | ⟨hu, hb⟩ <;> rcases sampleBlock_some hb' with ⟨hu', hb'⟩ | ⟨hu', hb'⟩
    · exact hne (hu.trans hu'.symm)
    · rw [hb, List.mem_singleton] at hip
      rw [hb', List.mem_singleton, hip] at hip'
      exact absurd hip' (by decide)
    · rw [hb, List.mem_singleton] at hip
      rw [hb', List.mem_singleton, hip] at hip'
      exact absurd hip' (by decide)
    · exact hne (hu.trans hu'.symm)

def emptyFiles : Files where
  status := fun _ => []
  leases := fun _ => Table.empty
  released := fun _ => Table.empty

/-- A device connects, and a second one of the account takes its place. -/
def evictingEvents : List DaemonEvent :=
  [DaemonEvent.connect .udp "a" "10.2.0.2" "203.0.113.7:1000"] ++ List.replicate 6 (DaemonEvent.hook .udp 0) ++
    [DaemonEvent.status .udp [⟨"203.0.113.7:1000", "10.2.0.2", some 0⟩],
      .connect .udp "a" "10.2.0.2" "198.51.100.4:2000"] ++ List.replicate 7 (DaemonEvent.hook .udp (seconds 20))

theorem evictingEvents_respect :
    (run (Daemon.step sampleConfig) { files := emptyFiles } evictingEvents).devices =
        [⟨"a", .udp, "10.2.0.2", "198.51.100.4:2000"⟩] ∧
      AllSteps (Daemon.step sampleConfig) (Respects sampleConfig) { files := emptyFiles } evictingEvents :=
  ⟨by decide +kernel, (leases_respect_account sampleConfig sampleConfig_separate emptyFiles evictingEvents
    (by decide +kernel)).1⟩

/-- A device of each account has just been let in when a second one of the first account
connects: nobody is in the status file yet. -/
def foreignEvents : List DaemonEvent :=
  [DaemonEvent.connect .udp "b" "10.2.0.2" "192.0.2.1:1"] ++ List.replicate 6 (DaemonEvent.hook .udp 0) ++
    [DaemonEvent.connect .udp "a" "10.2.0.2" "203.0.113.7:1000"] ++
      List.replicate 6 (DaemonEvent.hook .udp (seconds 1)) ++
    [DaemonEvent.connect .udp "a" "10.2.0.2" "198.51.100.4:2000"] ++
      List.replicate 6 (DaemonEvent.hook .udp (seconds 2))

/-- The second device of the first account is given the address of the other account, whose
device is handed to the evictor. -/
theorem foreign_lease_taken :
    ¬AllSteps (Daemon.step sampleConfig) (Respects sampleConfig) { files := emptyFiles }
      foreignEvents := by
  decide +kernel

end Simorgh.Vpn
