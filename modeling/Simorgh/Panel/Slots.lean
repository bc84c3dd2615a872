import Mathlib.Data.List.Perm.Subperm
import Simorgh.Panel.Inbounds

/-!
# Account slots

An account draws its tunnel addresses from a slot in the pool of its inbound.
The slot is a member of the account's entry; an entry without one holds its place
in the list.

* `effectiveSlots` — the slots the accounts of an inbound hold.
* `assignSlotsToClientMaps` — the slots of entries that are posted without one.
-/

namespace Simorgh.Panel

open Simorgh.Lib Simorgh.Lib.Json

/-! ## Reading slots -/

/-- What a `*int` field accepts; `null` clears it. -/
def Val.slot? : Val Lit → Option (Option ℤ)
  | .null => some none
  | .num l => l.int64?.map some
  | _ => none

/-- `Client.Slot`. -/
def entrySlot (d : Doc) : Option ℤ := field "slot" Val.slot? none d.members

/-- `slotOr`: the stored slot, or the position in the list. -/
def slotOr (slot : Option ℤ) (listIndex : Nat) : ℤ :=
  match slot with
  | some s => if 0 ≤ s then s else listIndex
  | none => listIndex

/-- The slots the accounts of an inbound hold, in list order. -/
def effectiveSlots (entries : List Doc) : List ℤ :=
  entries.zipIdx.map fun a => slotOr (entrySlot a.1) a.2

/-! ## Assigning slots -/

/-- The lowest slot not in use. -/
def lowestFree (used : List ℤ) : ℕ :=
  ((List.range (used.length + 1)).find? fun n : ℕ => decide ((n : ℤ) ∉ used)).getD 0

/-- The search ends on a slot that is free, with none free below it. -/
theorem lowestFree_spec (used : List ℤ) :
    (lowestFree used : ℤ) ∉ used ∧ ∀ n < lowestFree used, (n : ℤ) ∈ used := by
  unfold lowestFree
  cases hfind : (List.range (used.length + 1)).find? fun n : ℕ => decide ((n : ℤ) ∉ used) with
  | none =>
      exfalso
      rw [List.find?_eq_none] at hfind
      -- one number more than there are slots in use cannot all be in use
      have hsub : (List.range (used.length + 1)).map (fun n : ℕ => (n : ℤ)) ⊆ used := by
        intro s hs
        obtain ⟨n, hn, rfl⟩ := List.mem_map.1 hs
        simpa using hfind n hn
      have hnodup : ((List.range (used.length + 1)).map (fun n : ℕ => (n : ℤ))).Nodup :=
        List.nodup_range.map Nat.cast_injective
      have hlength := (List.Nodup.subperm hnodup hsub).length_le
      simp at hlength
  | some n =>
      refine ⟨by simpa using List.find?_some hfind, fun m hm => ?_⟩
      rw [List.find?_range_eq_some] at hfind
      simpa using hfind.2.2 m hm

/-- `slotsForNewAccounts`: the slots the next `n` accounts would take. -/
def slotsForNewAccounts (used : List ℤ) : ℕ → List ℕ
  | 0 => []
  | n + 1 => lowestFree used :: slotsForNewAccounts ((lowestFree used : ℤ) :: used) n

/-- The protocols whose accounts draw an address from a pool. -/
def slotPoolProtocol : Protocol → Bool
  | .l2tp | .pptp | .openvpn | .openconnect | .sstp | .ikev2 | .wgc | .awg | .gre => true
  | _ => false

section

variable [Runtime]

/-- The slots by account, the latest entry of an account first. -/
def slotsByEmail (existing : List Doc) : List (String × ℤ) :=
  ((existing.zipIdx.map fun a => (emailKey (entryEmail a.1), slotOr (entrySlot a.1) a.2)).filter
    fun a => decide (a.1 ≠ "")).reverse

/-- The slot an entry is posted with. -/
def postedSlot (m : Map) : Option ℤ :=
  match m.get? "slot" with
  | some (.num n) =>
      match n with
      | .float q => if 0 ≤ q then some (floatToInt64 q) else none
      | .int _ => none
  | _ => none

/-- The slot an entry gets, and whether it is put into it. -/
def slotFor (byEmail : List (String × ℤ)) (used : List ℤ) (m : Map) : ℤ × Bool :=
  match postedSlot m with
  | some s => (s, false)
  | none =>
      let key := emailKey (m.str "email")
      match (if key = "" then none else byEmail.lookup key) with
      | some s => if s < 0 then (lowestFree used, true) else (s, true)
      | none => (lowestFree used, true)

/-- The entries of a batch, one after another. -/
def assignEach (byEmail : List (String × ℤ)) : List ℤ → List Map → List Map
  | _, [] => []
  | used, m :: ms =>
      let slot := slotFor byEmail used m
      (if slot.2 then m.set "slot" (.num (.int slot.1)) else m) :: assignEach byEmail (slot.1 :: used) ms

/-- `assignSlotsToClientMaps`. -/
def assignSlotsToClientMaps (p : Protocol) (existing : List Doc) (clients : List Map) : List Map :=
  if slotPoolProtocol p then assignEach (slotsByEmail existing) (effectiveSlots existing) clients
  else clients

end

end Simorgh.Panel
