import Simorgh.Tunnel.Recover

/-!
# The byte stream of TCP forward mode

Packets are delivered in sending order; each group may lose one data packet.  A
frame is written when its packet arrives, a recovered one when the parity does.

* `Group.outcome` — the frames written for a group, in the order of writing.
* `written_eq` — what the sink has been written in the end.
* `stream_preserved_iff` — the bytes written are the bytes read exactly when each
  lost frame can change places with the rest of its group, which is complete.
-/

namespace Simorgh.Tunnel

open Simorgh.Lib

/-! ## Deliveries -/

/-- The packet is not the data packet lost from its group. -/
def Packet.survives (lost : Option Nat) : Packet → Bool
  | .data _ i _ _ => decide (lost ≠ some i)
  | .parity .. => true

/-- What arrives of a list of groups: the `k`-th group loses the data packet with index
`lost k`, if any. -/
def delivered (groups : List Group) (lost : Nat → Option Nat) : List Packet :=
  groups.zipIdx.flatMap fun g => (g.1.packets (groupIDAt g.2)).filter (Packet.survives (lost g.2))

/-- The plaintext that arrives, if any. -/
def Arrival.packet? : Arrival → Option Bytes
  | .packet plain _ => some plain
  | .gc _ => none

/-- A sweep finds no group that has been silent for five seconds. -/
def Timely (r : Receiver) : Arrival → Prop
  | .gc now => ∀ d, r.fecDec = some d → ∀ id g, d.groups id = some g → now - g.lastSeen ≤ gcAge
  | .packet .. => True

/-- Packets received one after the other, at any time. -/
inductive Received : Receiver → List Packet → Receiver → Prop where
  | nil {r : Receiver} : Received r [] r
  | cons {r r' : Receiver} {p : Packet} {ps : List Packet} (now : Int)
      (h : Received (r.step (.packet p.plain now)) ps r') : Received r (p :: ps) r'

theorem Timely.gc_eq {r : Receiver} {now : Int} (h : Timely r (.gc now)) :
    r.step (.gc now) = r := by
  obtain ⟨fecDec, written⟩ := r
  cases fecDec with
  | none => rfl
  | some d =>
      have hgc : d.gc gcAge now = d := by
        obtain ⟨groups⟩ := d
        simp only [FecDecoder.gc, FecDecoder.mk.injEq]
        funext id
        cases hg : groups id with
        | none => rfl
        | some g =>
            have hle : now - g.lastSeen ≤ gcAge := h _ rfl id g hg
            rw [Option.filter_some, if_pos (decide_eq_true (not_lt.2 hle))]
      simp [Receiver.step, hgc]

/-- A timely run is the packets that arrive in it. -/
theorem received_of_run {arrivals : List Arrival} {ps : List Packet} {r : Receiver}
    (h : arrivals.filterMap Arrival.packet? = ps.map Packet.plain)
    (ht : AllSteps Receiver.step Timely r arrivals) :
    Received r ps (run Receiver.step r arrivals) := by
  induction arrivals generalizing ps r with
  | nil =>
      have hps : ps = [] := List.map_eq_nil_iff.1 h.symm
      rw [hps]
      exact .nil
  | cons a arrivals ih =>
      cases a with
      | gc now =>
          have hgc := Timely.gc_eq ht.1
          rw [run_cons, hgc]
          apply ih h
          have hrest := ht.2
          rwa [hgc] at hrest
      | packet plain now =>
          cases ps with
          | nil => simp [Arrival.packet?] at h
          | cons p ps =>
              simp only [Arrival.packet?, List.filterMap_cons, List.map_cons, List.cons.injEq] at h
              obtain ⟨rfl, h⟩ := h
              exact .cons now (ih h ht.2)

theorem Received.append {r r'' : Receiver} {ps qs : List Packet}
    (h : Received r (ps ++ qs) r'') : ∃ r', Received r ps r' ∧ Received r' qs r'' := by
  induction ps generalizing r with
  | nil => exact ⟨r, .nil, h⟩
  | cons p ps ih =>
      cases h with
      | cons now h =>
          obtain ⟨r', hps, hqs⟩ := ih h
          exact ⟨r', .cons now hps, hqs⟩

/-! ## One group -/

/-- The frame of a data packet. -/
def Packet.frame? : Packet → Option Bytes
  | .data _ _ _ frame => some frame
  | .parity .. => none

/-- The place of a data packet. -/
def Packet.index? : Packet → Option Nat
  | .data _ i _ _ => some i
  | .parity .. => none

/-- Data packets of one group: their frames are written and their indexes held. -/
theorem Received.data {sent : List Packet} (hsent : Consistent sent) {id : UInt32}
    {ps : List Packet} (hps : ∀ p ∈ ps, p ∈ sent ∧ p.groupID = id ∧ p.isParity = false)
    {r r' : Receiver} (hr : Received r ps r') {d : FecDecoder} (hd : r.fecDec = some d)
    (h : Holds sent d) :
    ∃ d', r'.fecDec = some d' ∧ Holds sent d' ∧ r'.written = r.written ++ ps.filterMap Packet.frame? ∧
      (∀ i, i ∈ d'.held id ↔ i ∈ d.held id ∨ some i ∈ ps.map Packet.index?) ∧
      ∀ id' ≠ id, d'.groups id' = d.groups id' := by
  induction ps generalizing r d with
  | nil =>
      cases hr
      exact ⟨d, hd, h, by simp, by simp, fun _ _ => rfl⟩
  | cons p ps ih =>
      cases hr with
      | cons now hr =>
          obtain ⟨hp, rfl, hpar⟩ := hps p List.mem_cons_self
          cases p with
          | parity id n slot => cases hpar
          | data id i n frame =>
              obtain ⟨hin, hn, -⟩ := hsent.data_lt hp
              obtain ⟨hholds, hheld⟩ := h.onData hsent now hp
              have hstep : r.step (.packet (Packet.data id i n frame).plain now)
                  = ⟨some (d.onData id i n frame now), r.written ++ [frame]⟩ := by
                rw [Receiver.step, hd, handlePlain_data d id frame now (by omega) ⟨by omega, hn⟩]
                rfl
              obtain ⟨d', hd', h', hw, hheld', hrest⟩ :=
                ih (fun q hq => hps q (List.mem_cons_of_mem _ hq)) hr (by rw [hstep]) hholds
              refine ⟨d', hd', h', ?_, ?_, ?_⟩
              · rw [hw, hstep]
                simp [Packet.frame?]
              · intro j
                simp only [Packet.groupID] at hheld' ⊢
                rw [hheld' j, hheld id, if_pos rfl, Finset.mem_insert, List.map_cons, List.mem_cons]
                simp only [Packet.index?, Option.some_inj]
                tauto
              · intro id' hid
                rw [hrest id' hid]
                exact FecDecoder.onData_of_ne hid

namespace Group

/-- The frames of a group that arrive in a data packet. -/
def survivors (frames : List Frame) (lost : Option Nat) : List Frame :=
  match lost with
  | some j => frames.eraseIdx j
  | none => frames

/-- The frame that a full group recovers. -/
def lostFrame (g : Group) (lost : Option Nat) : Option Frame :=
  lost.bind fun j => g.frames[j]?

/-- The frames written for a group, in the order of writing. -/
def outcome (g : Group) (lost : Option Nat) : List Frame :=
  survivors g.frames lost ++
    if g.frames.length = g.size.1 then (g.lostFrame lost).toList else []

theorem filterMap_data (frames : List Frame) (id : UInt32) (n : Nat) (lost : Option Nat) :
    ∀ k, (∀ j, lost = some j → j < k) →
      (((frames.mapIdx fun i f => Packet.data id (i + k) n f.1).filter
        (Packet.survives lost)).filterMap Packet.frame?) = frames.map Subtype.val := by
  induction frames with
  | nil =>
      intro k _
      rfl
  | cons f frames ih =>
      intro k hk
      have hhead : lost ≠ some k := fun h => Nat.lt_irrefl k (hk k h)
      have htail := ih (k + 1) fun j hj => Nat.lt_succ_of_lt (hk j hj)
      simp only [List.mapIdx_cons, Nat.zero_add, List.filter_cons, Packet.survives, hhead, ne_eq,
        not_false_eq_true, decide_true, if_true, List.filterMap_cons, Packet.frame?,
        List.map_cons, List.cons.injEq, true_and]
      simpa only [Nat.add_right_comm _ 1 k, Nat.add_assoc] using htail

/-- The data packets that arrive carry the surviving frames. -/
theorem filterMap_survives (frames : List Frame) (id : UInt32) (n : Nat) (j : Nat) :
    ∀ k, (((frames.mapIdx fun i f => Packet.data id (i + k) n f.1).filter
        (Packet.survives (some (j + k)))).filterMap Packet.frame?)
      = (frames.eraseIdx j).map Subtype.val := by
  induction frames generalizing j with
  | nil =>
      intro k
      simp
  | cons f frames ih =>
      intro k
      cases j with
      | zero =>
          have hdrop := filterMap_data frames id n (some k) (k + 1) (by
            intro j hj
            cases hj
            exact Nat.lt_succ_self k)
          simp only [List.mapIdx_cons, Nat.zero_add, List.filter_cons, Packet.survives, ne_eq,
            not_true_eq_false, decide_false, Bool.false_eq_true, if_false, List.eraseIdx_cons_zero]
          simpa only [Nat.add_right_comm _ 1 k, Nat.add_assoc] using hdrop
      | succ j =>
          have hhead : some (j + 1 + k) ≠ some k := by
            rw [Ne, Option.some_inj]
            omega
          have htail := ih j (k + 1)
          simp only [List.mapIdx_cons, Nat.zero_add, List.filter_cons, Packet.survives, hhead,
            ne_eq, not_false_eq_true, decide_true, if_true, List.filterMap_cons, Packet.frame?,
            List.eraseIdx_cons_succ, List.map_cons, List.cons.injEq, true_and]
          rw [show j + 1 + k = j + (k + 1) by omega]
          simpa only [Nat.add_right_comm _ 1 k, Nat.add_assoc] using htail

theorem filterMap_dataPackets (frames : List Frame) (id : UInt32) (size : GroupSize)
    (lost : Option Nat) :
    ((dataPackets id size frames).filter (Packet.survives lost)).filterMap Packet.frame?
      = (survivors frames lost).map Subtype.val := by
  cases lost with
  | none => exact filterMap_data frames id size.1 none 0 (by intro j hj; cases hj)
  | some j => exact filterMap_survives frames id size.1 j 0

theorem mem_index_dataPackets {frames : List Frame} {id : UInt32} {size : GroupSize}
    {lost : Option Nat} {i : Nat} :
    some i ∈ ((dataPackets id size frames).filter (Packet.survives lost)).map Packet.index? ↔
      i < frames.length ∧ lost ≠ some i := by
  simp only [List.mem_map, List.mem_filter, dataPackets, List.mem_mapIdx]
  constructor
  · rintro ⟨p, ⟨⟨j, hj, rfl⟩, hs⟩, hi⟩
    cases hi
    exact ⟨hj, by simpa [Packet.survives] using hs⟩
  · rintro ⟨hi, hl⟩
    exact ⟨_, ⟨⟨i, hi, rfl⟩, by simpa [Packet.survives] using hl⟩, rfl⟩

end Group

/-- The packets of one group, received by an empty decoder. -/
theorem Received.group {g : Group} {id : UInt32} {lost : Option Nat}
    (hne : ∀ f ∈ g.frames, f.1 ≠ []) {r r' : Receiver}
    (hr : Received r ((g.packets id).filter (Packet.survives lost)) r') {d : FecDecoder}
    (hd : r.fecDec = some d) (hempty : ∀ id, d.groups id = none) :
    ∃ d', r'.fecDec = some d' ∧ r'.written = r.written ++ (g.outcome lost).map Subtype.val ∧
      (g.frames.length = g.size.1 → ∀ id, d'.groups id = none) := by
  have hsent := consistent_packets g id
  have hholds : Holds (g.packets id) d := by
    intro id' g' hg'
    rw [hempty id'] at hg'
    cases hg'
  have hheld₀ : d.held id = ∅ := by rw [FecDecoder.held, hempty id]
  rw [Group.packets, List.filter_append] at hr
  obtain ⟨r₁, hdata, hparity⟩ := hr.append
  have hps : ∀ p ∈ (Group.dataPackets id g.size g.frames).filter (Packet.survives lost),
      p ∈ g.packets id ∧ p.groupID = id ∧ p.isParity = false := by
    intro p hp
    have hmem := (List.mem_filter.1 hp).1
    obtain ⟨i, hi, rfl⟩ := List.mem_mapIdx.1 hmem
    exact ⟨List.mem_append_left _ hmem, rfl, rfl⟩
  obtain ⟨d₁, hd₁, h₁, hw₁, hheld, hrest⟩ := hdata.data hsent hps hd hholds
  rw [Group.filterMap_dataPackets] at hw₁
  have hheld' : ∀ i, i ∈ d₁.held id ↔ i < g.frames.length ∧ lost ≠ some i := by
    intro i
    rw [hheld i, hheld₀, Group.mem_index_dataPackets]
    simp
  by_cases hfull : g.frames.length = g.size.1
  · rw [if_pos hfull] at hparity
    have hsurvive : List.filter (Packet.survives lost)
        [Packet.parity id g.size.1 (List.ofFn (Group.accum g.frames))]
          = [Packet.parity id g.size.1 (List.ofFn (Group.accum g.frames))] := by
      rw [List.filter_eq_self]
      intro p hp
      rw [List.mem_singleton.1 hp]
      rfl
    rw [hsurvive] at hparity
    have hmem : Packet.parity id g.size.1 (List.ofFn (Group.accum g.frames)) ∈ g.packets id :=
      Group.mem_packets_parity.2 ⟨rfl, rfl, hfull, rfl⟩
    have hiff := h₁.onParity_iff hsent hmem
    -- the parity gives the lost frame
    have hrec : (d₁.onParity id g.size.1 (List.ofFn (Group.accum g.frames))).2
        = (g.lostFrame lost).map Subtype.val := by
      cases hlf : g.lostFrame lost with
      | some x =>
          obtain ⟨j, rfl, hx⟩ := Option.bind_eq_some_iff.1 hlf
          obtain ⟨hj, -⟩ := List.getElem?_eq_some_iff.1 hx
          apply (hiff _).2
          refine ⟨hne x (List.mem_of_getElem? hx), j, by omega, ?_,
            Group.mem_packets_data.2 ⟨rfl, rfl, x, hx, rfl⟩⟩
          ext i
          rw [hheld' i, Finset.mem_erase, Finset.mem_range, hfull, Ne, Option.some_inj]
          tauto
      | none =>
          rw [Option.map_none, Option.eq_none_iff_forall_ne_some]
          intro frame hframe
          obtain ⟨-, j, hj, hall, -⟩ := (hiff frame).1 hframe
          have hnot : j ∉ d₁.held id := by
            rw [hall]
            exact Finset.notMem_erase j _
          apply hnot
          rw [hheld' j]
          refine ⟨by omega, ?_⟩
          rintro rfl
          rw [Group.lostFrame, Option.bind_some, List.getElem?_eq_none_iff] at hlf
          omega
    cases hparity with
    | cons now hnil =>
        cases hnil
        rw [Receiver.step, hd₁, handlePlain_parity d₁ id _ now g.size.2.2]
        refine ⟨_, rfl, ?_, ?_⟩
        · simp only [hrec, hw₁, Group.outcome, if_pos hfull, List.map_append, List.append_assoc]
          cases g.lostFrame lost <;> rfl
        · intro _ id'
          by_cases hid : id' = id
          · rw [hid]
            exact FecDecoder.onParity_self
          · rw [FecDecoder.onParity_of_ne hid, hrest id' hid]
            exact hempty id'
  · rw [if_neg hfull] at hparity
    cases hparity
    refine ⟨d₁, hd₁, ?_, fun h => absurd h hfull⟩
    rw [hw₁, Group.outcome, if_neg hfull, List.append_nil]

/-! ## The whole delivery -/

/-- The frames written for a list of groups, numbered from `k`. -/
def outcomes (groups : List Group) (lost : Nat → Option Nat) (k : Nat) : List Frame :=
  (groups.zipIdx k).flatMap fun g => g.1.outcome (lost g.2)

theorem Received.groups {groups : List Group} {lost : Nat → Option Nat}
    (hfull : ∀ g ∈ groups, g.frames.length = g.size.1)
    (hne : ∀ g ∈ groups, ∀ f ∈ g.frames, f.1 ≠ []) {k : Nat} {r r' : Receiver}
    (hr : Received r ((groups.zipIdx k).flatMap fun g =>
      (g.1.packets (groupIDAt g.2)).filter (Packet.survives (lost g.2))) r') {d : FecDecoder}
    (hd : r.fecDec = some d) (hempty : ∀ id, d.groups id = none) :
    ∃ d', r'.fecDec = some d' ∧ r'.written = r.written ++ (outcomes groups lost k).map Subtype.val ∧
      ∀ id, d'.groups id = none := by
  induction groups generalizing k r d with
  | nil =>
      cases hr
      exact ⟨d, hd, by simp [outcomes], hempty⟩
  | cons g groups ih =>
      rw [List.zipIdx_cons, List.flatMap_cons] at hr
      obtain ⟨r₁, hg, hgs⟩ := hr.append
      obtain ⟨d₁, hd₁, hw₁, he₁⟩ := hg.group (hne g List.mem_cons_self) hd hempty
      obtain ⟨d', hd', hw, he⟩ := ih (fun g hg => hfull g (List.mem_cons_of_mem _ hg))
        (fun g hg => hne g (List.mem_cons_of_mem _ hg)) hgs hd₁
        (he₁ (hfull g List.mem_cons_self))
      refine ⟨d', hd', ?_, he⟩
      rw [hw, hw₁, outcomes, outcomes, List.zipIdx_cons, List.flatMap_cons, List.map_append,
        List.append_assoc]

/-- What has been written once all that arrives has. -/
theorem Received.written_eq {c : Cut} {lost : Nat → Option Nat}
    (hne : ∀ g ∈ c.all, ∀ f ∈ g.frames, f.1 ≠ []) {r : Receiver}
    (hr : Received Receiver.start (delivered c.all lost) r) :
    r.written = (outcomes c.all lost 0).map Subtype.val := by
  have hstart : Receiver.start.fecDec = some newFECDecoder := rfl
  rw [delivered, Cut.all, List.zipIdx_append, List.flatMap_append] at hr
  obtain ⟨r₁, hgs, hcur⟩ := hr.append
  obtain ⟨d₁, hd₁, hw₁, he₁⟩ := hgs.groups c.full
    (fun g hg => hne g (List.mem_append_left _ hg)) hstart (fun _ => rfl)
  rw [List.zipIdx_singleton, List.flatMap_singleton] at hcur
  obtain ⟨d', hd', hw, -⟩ := hcur.group (hne c.cur (by simp [Cut.all])) hd₁ he₁
  rw [hw, hw₁, outcomes, outcomes, Cut.all, List.zipIdx_append, List.flatMap_append,
    List.map_append, List.zipIdx_singleton, List.flatMap_singleton]
  rfl

/-! ## The stream -/

/-- The bytes of a list of frames. -/
def bytesOf (frames : List Frame) : Bytes := (frames.map Subtype.val).flatten

theorem bytesOf_append (a b : List Frame) : bytesOf (a ++ b) = bytesOf a ++ bytesOf b := by
  simp [bytesOf]

/-- The frame lost, if one is, can change places with those after it, and the group is
complete. -/
def Group.InOrder (g : Group) (lost : Option Nat) : Prop :=
  ∀ j x, lost = some j → g.frames[j]? = some x →
    g.frames.length = g.size.1 ∧
      x.1 ++ bytesOf (g.frames.drop (j + 1)) = bytesOf (g.frames.drop (j + 1)) ++ x.1

/-- The parts of a group around a lost frame. -/
theorem Group.split {g : Group} {j : Nat} {x : Frame} (hx : g.frames[j]? = some x) :
    bytesOf g.frames
        = bytesOf (g.frames.take j) ++ (x.1 ++ bytesOf (g.frames.drop (j + 1))) ∧
      bytesOf (g.outcome (some j))
        = bytesOf (g.frames.take j) ++ (bytesOf (g.frames.drop (j + 1)) ++
            if g.frames.length = g.size.1 then x.1 else []) := by
  obtain ⟨hj, hxj⟩ := List.getElem?_eq_some_iff.1 hx
  constructor
  · conv_lhs => rw [← List.take_append_drop j g.frames, List.drop_eq_getElem_cons hj, hxj]
    simp [bytesOf]
  · rw [outcome, bytesOf_append, survivors, List.eraseIdx_eq_take_drop_succ, bytesOf_append,
      List.append_assoc, lostFrame, Option.bind_some, hx]
    split <;> simp [bytesOf]

theorem Group.outcome_of_kept {g : Group} {lost : Option Nat} (h : g.lostFrame lost = none) :
    g.outcome lost = g.frames := by
  rw [outcome, h]
  cases lost with
  | none => simp [survivors]
  | some j =>
      rw [lostFrame, Option.bind_some, List.getElem?_eq_none_iff] at h
      simp [survivors, List.eraseIdx_of_length_le h]

theorem Group.inOrder_of_kept {g : Group} {lost : Option Nat} (h : g.lostFrame lost = none) :
    g.InOrder lost := by
  rintro j x rfl hx
  rw [lostFrame, Option.bind_some, hx] at h
  cases h

/-- A group is written as it was read exactly when its loss leaves it in order. -/
theorem Group.outcome_eq_iff {g : Group} (hne : ∀ f ∈ g.frames, f.1 ≠ []) (lost : Option Nat) :
    bytesOf (g.outcome lost) = bytesOf g.frames ↔ g.InOrder lost := by
  cases hlf : g.lostFrame lost with
  | none =>
      rw [outcome_of_kept hlf]
      exact iff_of_true rfl (inOrder_of_kept hlf)
  | some x =>
      obtain ⟨j, rfl, hx⟩ := Option.bind_eq_some_iff.1 hlf
      obtain ⟨hframes, hout⟩ := split hx
      have hx0 : x.1 ≠ [] := hne x (List.mem_of_getElem? hx)
      rw [hframes, hout, List.append_right_inj]
      constructor
      · intro h j' x' hj hx'
        cases hj
        obtain rfl : x = x' := Option.some_inj.1 (hx.symm.trans hx')
        by_cases hfull : g.frames.length = g.size.1
        · rw [if_pos hfull] at h
          exact ⟨hfull, h.symm⟩
        · -- nothing makes up for the frame of an unfinished group
          rw [if_neg hfull, List.append_nil] at h
          have hlen := congrArg List.length h
          rw [List.length_append] at hlen
          exact absurd (List.length_eq_zero_iff.1 (by omega)) hx0
      · intro h
        obtain ⟨hfull, hcomm⟩ := h j x rfl hx
        rw [if_pos hfull, hcomm]

theorem Group.length_outcome {g : Group} (hfull : g.frames.length = g.size.1) (lost : Option Nat) :
    (bytesOf (g.outcome lost)).length = (bytesOf g.frames).length := by
  cases hlf : g.lostFrame lost with
  | none => rw [outcome_of_kept hlf]
  | some x =>
      obtain ⟨j, rfl, hx⟩ := Option.bind_eq_some_iff.1 hlf
      obtain ⟨hframes, hout⟩ := split hx
      rw [hframes, hout, if_pos hfull]
      simp only [List.length_append]
      omega

/-- Full groups take as many bytes as they were read from, so the streams agree exactly
when they do group by group. -/
theorem outcomes_eq_iff {groups : List Group} {cur : Group} (lost : Nat → Option Nat)
    (hfull : ∀ g ∈ groups, g.frames.length = g.size.1)
    (hne : ∀ g ∈ groups ++ [cur], ∀ f ∈ g.frames, f.1 ≠ []) (k : Nat) :
    bytesOf (outcomes (groups ++ [cur]) lost k) = bytesOf ((groups ++ [cur]).flatMap Group.frames) ↔
      ∀ (i : Nat) (g : Group), (groups ++ [cur])[i]? = some g → g.InOrder (lost (k + i)) := by
  induction groups generalizing k with
  | nil =>
      have hcur := Group.outcome_eq_iff (hne cur (by simp)) (lost k)
      simp only [List.nil_append, outcomes, List.zipIdx_singleton, List.flatMap_singleton]
      rw [hcur]
      constructor
      · intro h i g hg
        obtain ⟨hi, rfl⟩ := List.getElem?_eq_some_iff.1 hg
        obtain rfl : i = 0 := by simpa using hi
        exact h
      · intro h
        exact h 0 cur rfl
  | cons g groups ih =>
      have hg := Group.outcome_eq_iff (hne g (by simp)) (lost k)
      have hgs := ih (fun g hg => hfull g (List.mem_cons_of_mem _ hg))
        (fun g hg => hne g (List.mem_cons_of_mem _ hg)) (k + 1)
      have hlen := Group.length_outcome (hfull g List.mem_cons_self) (lost k)
      have hsplit : bytesOf (outcomes (g :: groups ++ [cur]) lost k)
          = bytesOf (g.outcome (lost k)) ++ bytesOf (outcomes (groups ++ [cur]) lost (k + 1)) := by
        rw [← bytesOf_append]
        rfl
      rw [hsplit, List.cons_append, List.flatMap_cons, bytesOf_append]
      constructor
      · intro h i g' hg'
        obtain ⟨hhead, htail⟩ := List.append_inj h hlen
        cases i with
        | zero =>
            cases hg'
            exact hg.1 hhead
        | succ i =>
            have := hgs.1 htail i g' hg'
            rwa [Nat.add_right_comm, Nat.add_assoc] at this
      · intro h
        have hhead := hg.2 (h 0 g rfl)
        have htail := hgs.2 fun i g' hg' => by
          have := h (i + 1) g' hg'
          rwa [← Nat.add_assoc, Nat.add_right_comm] at this
        rw [hhead, htail]

/-- The packets sent are those of the groups the frames are cut into, and a delivery in
sending order that loses at most one data packet of each group writes the bytes read
exactly when every group it loses a frame of is complete and the frame can change places
with those after it. -/
theorem stream_preserved_iff (groupSize : Int) (ops : List SendOp)
    (hne : ∀ f ∈ ops.filterMap SendOp.frame?, f.1 ≠ []) (lost : Nat → Option Nat)
    (arrivals : List Arrival)
    (harr : arrivals.filterMap Arrival.packet?
      = (delivered (run Cut.step (Cut.start groupSize) ops).all lost).map Packet.plain)
    (htimely : AllSteps Receiver.step Timely Receiver.start arrivals) :
    (run Sender.step (Sender.start groupSize) ops).sent
        = layout (run Cut.step (Cut.start groupSize) ops).all ∧
      ((run Receiver.step Receiver.start arrivals).written.flatten
          = bytesOf (ops.filterMap SendOp.frame?) ↔
        ∀ (k : Nat) (g : Group), (run Cut.step (Cut.start groupSize) ops).all[k]? = some g →
          g.InOrder (lost k)) := by
  refine ⟨(Sender.follows_run groupSize ops).sent, ?_⟩
  have hframes := Cut.frames_run groupSize ops
  generalize run Cut.step (Cut.start groupSize) ops = c at harr hframes ⊢
  have hne' : ∀ g ∈ c.all, ∀ f ∈ g.frames, f.1 ≠ [] := by
    intro g hg f hf
    apply hne f
    rw [← hframes]
    exact List.mem_flatMap.2 ⟨g, hg, hf⟩
  have hw := (received_of_run harr htimely).written_eq hne'
  have hiff := outcomes_eq_iff lost c.full hne' 0
  simp only [Nat.zero_add] at hiff
  rw [hw, ← hframes]
  exact hiff

/-- Two frames in a group of two. -/
def twoFrames : List SendOp := [.frame (byteFrame 1), .frame (byteFrame 2)]

/-- What arrives of their packets when the data packet with index `j` is lost. -/
def withoutFrame (j : Nat) : List Arrival :=
  ((run Sender.step (Sender.start 2) twoFrames).sent.eraseIdx j).map fun p => .packet p.plain 0

/-- When the first is lost, both frames are written, the second one first. -/
theorem first_lost_written_last :
    (run Receiver.step Receiver.start (withoutFrame 0)).written.flatten
      ≠ bytesOf (twoFrames.filterMap SendOp.frame?) := by
  decide +kernel

/-- When the second is lost, the stream is as it was read. -/
theorem second_lost_in_order :
    (∀ f ∈ twoFrames.filterMap SendOp.frame?, f.1 ≠ []) ∧
      (withoutFrame 1).filterMap Arrival.packet?
        = (delivered (run Cut.step (Cut.start 2) twoFrames).all
            fun k => if k = 0 then some 1 else none).map Packet.plain ∧
      AllSteps Receiver.step Timely Receiver.start (withoutFrame 1) ∧
      (run Receiver.step Receiver.start (withoutFrame 1)).written.flatten
        = bytesOf (twoFrames.filterMap SendOp.frame?) := by
  have hne : ∀ f ∈ twoFrames.filterMap SendOp.frame?, f.1 ≠ [] := by decide +kernel
  have harr : (withoutFrame 1).filterMap Arrival.packet?
      = (delivered (run Cut.step (Cut.start 2) twoFrames).all
          fun k => if k = 0 then some 1 else none).map Packet.plain := by
    have hplain : (withoutFrame 1).filterMap Arrival.packet?
        = ((run Sender.step (Sender.start 2) twoFrames).sent.eraseIdx 1).map Packet.plain := by
      simp [withoutFrame, List.filterMap_map, Function.comp_def, Arrival.packet?]
    rw [hplain, (Sender.follows_run 2 twoFrames).sent]
    rfl
  have htimely : AllSteps Receiver.step Timely Receiver.start (withoutFrame 1) :=
    ⟨trivial, trivial, trivial⟩
  refine ⟨hne, harr, htimely, ?_⟩
  apply (stream_preserved_iff 2 twoFrames hne _ _ harr htimely).2.2
  intro k g hg j x hlost hx
  have hk : k = 0 := by
    by_contra hk
    simp [hk] at hlost
  subst hk
  cases hlost
  cases hg
  cases hx
  exact ⟨rfl, rfl⟩

end Simorgh.Tunnel
