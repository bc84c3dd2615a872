import Simorgh.Lib.Places
import Simorgh.Panel.Scoping

/-!
# Dragging inbounds into a new order

The list is shown in the order of `displayKey`: the rows that have a position, then the
others by id.  `ReorderInbounds` moves the rows it is given among the places they hold and
writes every row its position.

* `writeOrders_rows` — a transaction that goes through writes every row its new position.
* `displayIds_reordered` — the list is then sorted by place.
* `reorder_moves_named` — the rows named are in the requested order in the places they held,
  the others stay, and a request that is refused changes nothing.
-/

namespace Simorgh.Panel

open Simorgh.Lib

/-- The rows in the order they are shown. -/
def displayOrder (t : Table StoredInbound.id) : List StoredInbound :=
  t.rows.insertionSort fun a b => a.key ≤ b.key

/-- The ids of the list, as the request has them. -/
def displayIds (t : Table StoredInbound.id) : List Int := (displayOrder t).map fun i => (i.id : Int)

/-- The errors of a reordering. -/
inductive ReorderError where
  | noSuchInbound (id : Int)
  | listedTwice (id : Int)
  | database
  deriving DecidableEq, Repr

/-- The statements that can fail. -/
inductive ReorderPlace where
  | load | begin | update (id : Nat) | commit
  deriving DecidableEq

/-- The place of an inbound in the list. -/
def StoredInbound.setSortOrder (sortOrder : Int) (i : StoredInbound) : StoredInbound :=
  { i with columns := { i.columns with sortOrder := sortOrder } }

@[simp] theorem StoredInbound.setSortOrder_id (sortOrder : Int) (i : StoredInbound) :
    (i.setSortOrder sortOrder).id = i.id := rfl

/-- The positions of the ids that are named, counted from one. -/
def takeSlots (all : List Int) : List Int → List Int → Except ReorderError (List Nat)
  | _, [] => .ok []
  | seen, id :: ids =>
      if id ∉ all then .error (.noSuchInbound id)
      else if id ∈ seen then .error (.listedTwice id)
      else match takeSlots all (id :: seen) ids with
        | .error e => .error e
        | .ok slots => .ok ((all.idxOf id + 1) :: slots)

/-- The position a row is written: one of the slots, or where it already is. -/
def newOrder (all ids : List Int) (slots : List Nat) (id : Int) : Int :=
  if id ∈ ids then slots.getD (ids.idxOf id) 0 else all.idxOf id + 1

/-- The updates of one transaction; nothing when one of them fails. -/
def writeOrders (fails : ReorderPlace → Bool) (order : Int → Int) :
    Table StoredInbound.id → List StoredInbound → Option (Table StoredInbound.id)
  | t, [] => some t
  | t, i :: rest =>
      if i.columns.sortOrder = order i.id then writeOrders fails order t rest
      else if fails (.update i.id) then none
      else writeOrders fails order
        (t.modify i.id (StoredInbound.setSortOrder (order i.id)) (StoredInbound.setSortOrder_id _)) rest

/-- `ReorderInbounds`. -/
def reorderInbounds (fails : ReorderPlace → Bool) (t : Table StoredInbound.id) (ids : List Int) :
    Table StoredInbound.id × Except ReorderError Unit :=
  if ids.length < 2 then (t, .ok ())
  else if fails .load then (t, .error .database)
  else
    let all := displayIds t
    match takeSlots all [] ids with
    | .error e => (t, .error e)
    | .ok slots =>
        if fails .begin then (t, .error .database)
        else
          let order := newOrder all ids (slots.insertionSort (· ≤ ·))
          match writeOrders fails order t (displayOrder t) with
          | none => (t, .error .database)
          | some t' => if fails .commit then (t, .error .database) else (t', .ok ())

/-! ## What is written -/

variable {fails : ReorderPlace → Bool} {t t' : Table StoredInbound.id} {ids : List Int}

theorem displayOrder_perm (t : Table StoredInbound.id) : (displayOrder t).Perm t.rows :=
  List.perm_insertionSort _ _

theorem nodup_displayIds (t : Table StoredInbound.id) : (displayIds t).Nodup := by
  have hids : ((displayOrder t).map StoredInbound.id).Nodup :=
    ((displayOrder_perm t).map _).nodup_iff.2 t.unique
  have hcast : displayIds t = ((displayOrder t).map StoredInbound.id).map (Nat.cast : Nat → Int) := by
    rw [List.map_map]
    rfl
  rw [hcast]
  exact hids.map Nat.cast_injective

theorem setSortOrder_self {i : StoredInbound} {sortOrder : Int} (h : i.columns.sortOrder = sortOrder) :
    i.setSortOrder sortOrder = i := by
  subst h
  rfl

/-- The rows listed get their positions, the others are left. -/
theorem writeOrders_rows {order : Int → Int} {rest : List StoredInbound}
    (h : writeOrders fails order t rest = some t') (hstored : ∀ i ∈ rest, i ∈ t.rows)
    (hnodup : (rest.map StoredInbound.id).Nodup) :
    t'.rows = t.rows.map fun i =>
      if i.id ∈ rest.map StoredInbound.id then i.setSortOrder (order i.id) else i := by
  induction rest generalizing t with
  | nil =>
      cases h
      simp
  | cons i rest ih =>
      rw [List.map_cons, List.nodup_cons] at hnodup
      have hi : i ∈ t.rows := hstored i List.mem_cons_self
      unfold writeOrders at h
      split at h
      case isTrue hsame =>
        rw [ih h (fun j hj => hstored j (List.mem_cons_of_mem i hj)) hnodup.2]
        refine List.map_congr_left fun j hj => ?_
        by_cases hid : j.id = i.id
        · have hji : j = i := Table.eq_of_key_eq hj hi hid
          subst hji
          rw [if_neg hnodup.1, if_pos (by simp), setSortOrder_self hsame]
        · simp only [List.map_cons, List.mem_cons, hid, false_or]
      case isFalse hother =>
        split at h
        · cases h
        have hleft : ∀ j ∈ rest, j ∈ (t.modify i.id (StoredInbound.setSortOrder (order i.id))
            (StoredInbound.setSortOrder_id _)).rows := by
          intro j hj
          have hne : j.id ≠ i.id := fun heq => hnodup.1 (heq ▸ List.mem_map_of_mem hj)
          refine List.mem_map.2 ⟨j, hstored j (List.mem_cons_of_mem i hj), ?_⟩
          simp [hne]
        rw [ih h hleft hnodup.2]
        show ((t.rows.map _).map _) = _
        rw [List.map_map]
        refine List.map_congr_left fun j hj => ?_
        by_cases hid : j.id = i.id
        · have hrest : i.id ∉ rest.map StoredInbound.id := hnodup.1
          simp only [Function.comp, hid, decide_true, if_true, StoredInbound.setSortOrder_id, hrest, if_false,
            List.map_cons, List.mem_cons, true_or]
        · simp only [Function.comp, hid, decide_false, Bool.false_eq_true, if_false, List.map_cons,
            List.mem_cons, false_or]

theorem takeSlots_ok {all seen : List Int} {slots : List Nat} (h : takeSlots all seen ids = .ok slots) :
    slots = ids.map (fun id => all.idxOf id + 1) ∧ (∀ id ∈ ids, id ∈ all ∧ id ∉ seen) ∧ ids.Nodup := by
  induction ids generalizing seen slots with
  | nil =>
      cases h
      exact ⟨rfl, by simp, List.nodup_nil⟩
  | cons id ids ih =>
      unfold takeSlots at h
      split at h
      · cases h
      rename_i hall
      split at h
      · cases h
      rename_i hseen
      split at h
      · cases h
      rename_i rest hrest
      cases h
      obtain ⟨rfl, hmem, hnodup⟩ := ih hrest
      refine ⟨rfl, ?_, ?_⟩
      · rintro id' (_ | ⟨_, hid'⟩)
        · exact ⟨not_not.1 hall, hseen⟩
        · obtain ⟨hin, hnot⟩ := hmem id' hid'
          exact ⟨hin, fun h => hnot (List.mem_cons_of_mem id h)⟩
      · refine List.nodup_cons.2 ⟨fun hid => ?_, hnodup⟩
        exact (hmem id hid).2 List.mem_cons_self

/-- The position written is the place, counted from one. -/
theorem newOrder_eq_place {all : List Int} (hall : all.Nodup) (hids : ids.Nodup) (hsub : ∀ id ∈ ids, id ∈ all)
    (id : Int) :
    newOrder all ids ((ids.map fun id => all.idxOf id + 1).insertionSort (· ≤ ·)) id =
      place all ids id + 1 := by
  have hslots : (ids.map fun id => all.idxOf id + 1).insertionSort (· ≤ ·) =
      (held all ids).map (· + 1) := by
    rw [← insertionSort_idxOf hall hids hsub]
    refine List.Perm.eq_of_pairwise' (List.pairwise_insertionSort (· ≤ ·) _) ?_ ?_
    · refine List.pairwise_map.2 ((List.pairwise_insertionSort (· ≤ ·) _).imp fun h => ?_)
      exact Nat.add_le_add_right h 1
    · refine (List.perm_insertionSort _ _).trans ?_
      rw [show (ids.map fun id => all.idxOf id + 1) = (ids.map all.idxOf).map (· + 1) by
        rw [List.map_map]; rfl]
      exact ((List.perm_insertionSort _ _).map _).symm
  unfold newOrder
  by_cases hid : id ∈ ids
  · have hplace := getElem?_held hall hids hsub hid
    rw [if_pos hid, hslots, List.getD_eq_getElem?_getD, List.getElem?_map, hplace]
    rfl
  · rw [if_neg hid, place_of_notMem hid]

/-! ## What is shown afterwards -/

/-- Every row has been written its place. -/
theorem rows_reordered (hwritten : writeOrders fails (fun id => place (displayIds t) ids id + 1) t
    (displayOrder t) = some t') :
    t'.rows = t.rows.map fun i => i.setSortOrder (place (displayIds t) ids i.id + 1) := by
  have hstored : ∀ i ∈ displayOrder t, i ∈ t.rows := fun i hi => (displayOrder_perm t).mem_iff.1 hi
  have hnodup : ((displayOrder t).map StoredInbound.id).Nodup :=
    ((displayOrder_perm t).map _).nodup_iff.2 t.unique
  rw [writeOrders_rows hwritten hstored hnodup]
  refine List.map_congr_left fun i hi => ?_
  rw [if_pos]
  exact List.mem_map_of_mem ((displayOrder_perm t).mem_iff.2 hi)

/-- A row whose position is positive is ordered by it first. -/
theorem sortOrder_le_of_key_le {i j : StoredInbound} (hi : 0 < i.columns.sortOrder)
    (hj : 0 < j.columns.sortOrder) (h : i.key ≤ j.key) : i.columns.sortOrder ≤ j.columns.sortOrder := by
  unfold StoredInbound.key displayKey at h
  rw [if_pos hi, if_pos hj, Prod.Lex.toLex_le_toLex] at h
  obtain hlt | ⟨-, hle⟩ := h
  · exact absurd hlt (lt_irrefl 0)
  · rw [Prod.Lex.toLex_le_toLex] at hle
    obtain hlt | ⟨heq, -⟩ := hle
    · exact le_of_lt hlt
    · exact le_of_eq heq

/-- The new list has the same rows, sorted by place. -/
theorem displayIds_reordered (hids : ids.Nodup) (hsub : ∀ id ∈ ids, id ∈ displayIds t)
    (hwritten : writeOrders fails (fun id => place (displayIds t) ids id + 1) t (displayOrder t) = some t') :
    (displayIds t').Perm (displayIds t) ∧
      (displayIds t').Pairwise fun a b => place (displayIds t) ids a < place (displayIds t) ids b := by
  have hrows := rows_reordered hwritten
  have hperm : (displayIds t').Perm (displayIds t) := by
    have hafter := (displayOrder_perm t').map fun i => (i.id : Int)
    have hbefore := (displayOrder_perm t).map fun i => (i.id : Int)
    rw [hrows, List.map_map] at hafter
    exact hafter.trans hbefore.symm
  refine ⟨hperm, ?_⟩
  have hplaced : ∀ i ∈ displayOrder t', i.columns.sortOrder = place (displayIds t) ids i.id + 1 := by
    intro i hi
    have hmem := (displayOrder_perm t').mem_iff.1 hi
    rw [hrows] at hmem
    obtain ⟨j, -, rfl⟩ := List.mem_map.1 hmem
    rfl
  have hle : (displayIds t').Pairwise fun a b => place (displayIds t) ids a ≤ place (displayIds t) ids b := by
    refine List.pairwise_map.2 ?_
    have hsorted := List.pairwise_map.1 (pairwise_sorted t'.rows)
    refine hsorted.imp_of_mem fun {i j} hi hj h => ?_
    have hkey := sortOrder_le_of_key_le (by rw [hplaced i hi]; omega) (by rw [hplaced j hj]; omega) h
    rw [hplaced i hi, hplaced j hj] at hkey
    omega
  have hne : (displayIds t').Pairwise (· ≠ ·) := nodup_displayIds t'
  refine (hle.and hne).imp_of_mem fun {a b} ha hb h => ?_
  refine lt_of_le_of_ne h.1 fun heq => h.2 ?_
  exact place_inj (nodup_displayIds t) hids hsub (hperm.mem_iff.1 ha) (hperm.mem_iff.1 hb) heq

/-- What a request can do: nothing, or write every row its place. -/
theorem reorderInbounds_cases (fails : ReorderPlace → Bool) (t : Table StoredInbound.id) (ids : List Int) :
    (reorderInbounds fails t ids).1 = t ∧
        (ids.length < 2 ∨ ∃ e, (reorderInbounds fails t ids).2 = .error e) ∨
      ids.Nodup ∧ (∀ id ∈ ids, id ∈ displayIds t) ∧ (reorderInbounds fails t ids).2 = .ok () ∧
        writeOrders fails (fun id => place (displayIds t) ids id + 1) t (displayOrder t) =
          some (reorderInbounds fails t ids).1 := by
  unfold reorderInbounds
  split
  case isTrue hshort => exact .inl ⟨rfl, .inl hshort⟩
  split
  case isTrue => exact .inl ⟨rfl, .inr ⟨_, rfl⟩⟩
  dsimp only
  split
  case h_1 => exact .inl ⟨rfl, .inr ⟨_, rfl⟩⟩
  case h_2 slots htake =>
    split
    case isTrue => exact .inl ⟨rfl, .inr ⟨_, rfl⟩⟩
    obtain ⟨rfl, hsub, hids⟩ := takeSlots_ok htake
    have hsub' : ∀ id ∈ ids, id ∈ displayIds t := fun id hid => (hsub id hid).1
    rw [show newOrder (displayIds t) ids _ = fun id => (place (displayIds t) ids id : Int) + 1 from
      funext fun id => newOrder_eq_place (nodup_displayIds t) hids hsub' id]
    split
    case h_1 => exact .inl ⟨rfl, .inr ⟨_, rfl⟩⟩
    case h_2 t' hwritten =>
      split
      · exact .inl ⟨rfl, .inr ⟨_, rfl⟩⟩
      · exact .inr ⟨hids, hsub', rfl, hwritten⟩

/-- The rows named are in the order requested, in the places they held; the others are where
they were. -/
structure Moved (ids before after : List Int) : Prop where
  length : after.length = before.length
  unnamed : ∀ (i : Nat) (a : Int), before[i]? = some a → a ∉ ids → after[i]? = some a
  places : held after ids = held before ids
  named : (held before ids).map (after[·]?) = (ids.filter (· ∈ before)).map some

/-- One row named, or none, does not move. -/
theorem moved_refl {l : List Int} (hl : l.Nodup) (hshort : ids.length < 2) : Moved ids l l := by
  refine ⟨rfl, fun i a h _ => h, rfl, ?_⟩
  obtain _ | ⟨a, _ | ⟨b, rest⟩⟩ := ids
  · simp [held]
  · by_cases ha : a ∈ l
    · have hsub : ∀ b ∈ [a], b ∈ l := by simpa using ha
      rw [← insertionSort_idxOf hl (List.nodup_singleton a) hsub]
      simp [ha, getElem?_idxOf ha]
    · have hnone : held l [a] = [] := by
        refine List.eq_nil_iff_forall_not_mem.2 fun i hi => ?_
        obtain ⟨b, hb, hat⟩ := mem_held.1 hi
        rw [List.mem_singleton.1 hb] at hat
        exact ha (List.mem_of_getElem? hat)
      simp [hnone, ha]
  · simp only [List.length_cons] at hshort
    omega

/-- A rearrangement by place moves what is named. -/
theorem moved_of_places {before after : List Int} (hbefore : before.Nodup) (hids : ids.Nodup)
    (hsub : ∀ id ∈ ids, id ∈ before) (hperm : after.Perm before)
    (hsorted : after.Pairwise fun a b => place before ids a < place before ids b) : Moved ids before after := by
  have hat : ∀ a ∈ before, after[place before ids a]? = some a := fun a ha =>
    getElem?_place hbefore hids hsub hperm hsorted ha
  have hnamed : (held before ids).map (after[·]?) = ids.map some := by
    refine List.ext_getElem? fun k => ?_
    by_cases hk : k < ids.length
    · have hmem : ids[k] ∈ ids := List.getElem_mem hk
      have hheld := getElem?_held hbefore hids hsub hmem
      rw [hids.idxOf_getElem k hk] at hheld
      rw [List.getElem?_map, List.getElem?_map, hheld, List.getElem?_eq_getElem hk, Option.map_some,
        Option.map_some, hat _ (hsub _ hmem)]
    · have hlength := length_held hbefore hids hsub
      rw [List.getElem?_eq_none (by rw [List.length_map]; omega),
        List.getElem?_eq_none (by rw [List.length_map]; omega)]
  refine ⟨hperm.length_eq, ?_, ?_, ?_⟩
  · intro i a ha hstays
    have hplace := hat a (List.mem_of_getElem? ha)
    rwa [place_of_notMem hstays, idxOf_eq_of_getElem? hbefore ha] at hplace
  · -- both lists of places ascend, so it is enough that they have the same members
    refine held_eq_of_mem_iff fun i => ?_
    constructor
    · intro hi
      obtain ⟨a, ha, hafter⟩ := mem_held.1 hi
      have hidx := idxOf_eq_of_getElem? (hperm.nodup_iff.2 hbefore) hafter
      rw [← hidx, idxOf_eq_of_getElem? (hperm.nodup_iff.2 hbefore) (hat a (hsub a ha))]
      exact (place_mem_held_iff hbefore hids hsub (hsub a ha)).2 ha
    · intro hi
      have hmem : after[i]? ∈ ids.map some := hnamed ▸ List.mem_map_of_mem hi
      obtain ⟨a, ha, hafter⟩ := List.mem_map.1 hmem
      exact mem_held.2 ⟨a, ha, hafter.symm⟩
  · have hall : ids.filter (· ∈ before) = ids := by
      refine List.filter_eq_self.2 fun id hid => ?_
      exact decide_eq_true (hsub id hid)
    rw [hall]
    exact hnamed

/-- Dragging moves what is named and nothing else. -/
theorem reorder_moves_named (fails : ReorderPlace → Bool) (t : Table StoredInbound.id) (ids : List Int) :
    ((reorderInbounds fails t ids).2 = .ok () →
        Moved ids (displayIds t) (displayIds (reorderInbounds fails t ids).1)) ∧
      ∀ e, (reorderInbounds fails t ids).2 = .error e →
        displayIds (reorderInbounds fails t ids).1 = displayIds t := by
  obtain ⟨hsame, hshort | ⟨e, he⟩⟩ | ⟨hids, hsub, hok, hwritten⟩ := reorderInbounds_cases fails t ids
  · rw [hsame]
    exact ⟨fun _ => moved_refl (nodup_displayIds t) hshort, fun _ _ => rfl⟩
  · rw [hsame, he]
    refine ⟨fun h => ?_, fun _ _ => rfl⟩
    cases h
  · obtain ⟨hperm, hsorted⟩ := displayIds_reordered hids hsub hwritten
    refine ⟨fun _ => moved_of_places (nodup_displayIds t) hids hsub hperm hsorted, fun e he => ?_⟩
    rw [hok] at he
    cases he

/-- Two of three inbounds change places. -/
example :
    let t : Table StoredInbound.id := ⟨[⟨1, 0, 0, 0, {}, .json .null⟩, ⟨2, 0, 0, 0, {}, .json .null⟩,
      ⟨3, 0, 0, 0, {}, .json .null⟩], by decide⟩
    (reorderInbounds (fun _ => false) t [3, 1]).2 = .ok () ∧
      displayIds (reorderInbounds (fun _ => false) t [3, 1]).1 = [3, 2, 1] := by
  decide +kernel

end Simorgh.Panel
