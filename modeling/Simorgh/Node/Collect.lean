import Mathlib.Algebra.BigOperators.Group.Finset.Basic
import Simorgh.Lib.Run
import Simorgh.Panel.Booked

/-!
# Collecting the traffic of the nodes

Every tick the panel asks each node for its counters.  The node resets them when it
answers, so the answer is the only copy; requests and answers may be lost, late or
doubled, and the panel may fail to book what it got.

* `Meters.collect` — the counters of one machine, read and reset.
* `Fleet.step` — traffic, ticks, messages and bookings.
* `Fleet.BilledOnce` — every byte a node has counted is booked once, or is still in a
  counter or in a round that is not over.
* `Fleet.Lossless` — no answer is for nobody, none is lost, and every booking is saved.
* `billed_once` — lossless runs bill every byte once.
* `bytes_lost` — a lost answer, or a booking that fails, is never made up for.
-/

namespace Simorgh.Node

open Simorgh.Lib Simorgh.Panel

/-! ## The counters of a machine -/

/-- What one meter has counted for an account. -/
structure Tally where
  email : String
  up : Nat := 0
  down : Nat := 0

/-- The tally as it is reported. -/
def Tally.record (t : Tally) : ClientRecord := ⟨t.email, t.up, t.down⟩

/-- The meters: Xray's stats by user and by tag, the counters of the tunnels, and the
tallies of each relay in the order they are read, those of the MTProto inbounds and then
those of the SSH server.  What a relay moves for an account that is tracked goes through
Xray as well. -/
structure Meters where
  xray : Table Tally.email := Table.empty
  tags : List Traffic := []
  tunnels : Table Tally.email := Table.empty
  relays : List (Table Tally.email) := []
  tracked : String → Bool := fun _ => true

/-- The bytes on a meter. -/
def onMeter (email : String) (t : Table Tally.email) : Int := bytesOf email (t.rows.map Tally.record)

/-- Some more bytes on a meter. -/
def count (email : String) (up down : Nat) (t : Table Tally.email) : Table Tally.email :=
  match t.find? email with
  | some r => t.put { r with up := r.up + up, down := r.down + down }
  | none => t.put { email := email, up := up, down := down }

/-- A meter that has been read. -/
def reset (t : Table Tally.email) : Table Tally.email :=
  t.updateWhere (fun _ => true) (fun r => { r with up := 0, down := 0 }) fun _ => rfl

/-- Where bytes are counted first. -/
inductive Meter where
  | xray | tunnel | relay (k : Nat)
  deriving DecidableEq

/-- A machine has the relays that it runs. -/
def Meters.has (m : Meters) : Meter → Bool
  | .relay k => k < m.relays.length
  | _ => true

/-- Bytes of an account. -/
def Meters.moved (via : Meter) (email : String) (up down : Nat) (m : Meters) : Meters :=
  match via with
  | .xray => { m with xray := count email up down m.xray }
  | .tunnel => { m with tunnels := count email up down m.tunnels }
  | .relay k =>
      { m with
        relays := m.relays.modify k (count email up down)
        xray := if m.tracked email then count email up down m.xray else m.xray }

/-- Each record of `fallback` under an email that has no record yet. -/
def appendUnrecordedTraffic (existing fallback : List ClientRecord) : List ClientRecord :=
  fallback.foldl (fun out t => if t.email ∈ out.map (·.email) then out else out ++ [t]) existing

/-- The records of a meter that has counted something. -/
def nonzero (t : Table Tally.email) : List ClientRecord :=
  (t.rows.filter fun r => decide (0 < r.up ∨ 0 < r.down)).map Tally.record

/-- What the relays report, one after the other. -/
def Meters.relayed (m : Meters) : List ClientRecord := m.relays.flatMap nonzero

/-- The records of Xray and of the tunnels.  `answers` says whether Xray runs and gives its
stats, `reads` whether the counters of the tunnels could be read. -/
def Meters.direct (answers reads : Bool) (m : Meters) : List ClientRecord :=
  (if answers then m.xray.rows.map Tally.record else []) ++
    if reads then nonzero m.tunnels else []

/-- `LocalRunner.Collect`: what is reported, and the meters after it. -/
def Meters.collect (answers reads : Bool) (m : Meters) : Batch × Meters :=
  ({ inbounds := if answers then m.tags else []
     clients := appendUnrecordedTraffic (m.direct answers reads) m.relayed },
   { m with
     xray := if answers then reset m.xray else m.xray
     tags := if answers then m.tags.map fun t => { t with up := 0, down := 0 } else m.tags
     tunnels := if reads then reset m.tunnels else m.tunnels
     relays := m.relays.map reset })

/-- The bytes of an account on all relays. -/
def onRelays (email : String) (relays : List (Table Tally.email)) : Int := (relays.map (onMeter email)).sum

/-- The bytes of an account that are to be reported.  Those of a relay that Xray has counted
too are in Xray's stats. -/
def Meters.owed (email : String) (m : Meters) : Int :=
  onMeter email m.xray + onMeter email m.tunnels + if m.tracked email then 0 else onRelays email m.relays

/-! ### Bytes on the meters -/

section Bytes

variable {email : String} {t : Table Tally.email} {m : Meters}

/-- A meter has one tally for an account, or none. -/
theorem onMeter_eq (email : String) (t : Table Tally.email) :
    onMeter email t = (t.find? email).elim 0 fun r => (r.up + r.down : Int) := by
  obtain ⟨rows, hunique⟩ := t
  simp only [onMeter, Table.find?]
  induction rows with
  | nil => rfl
  | cons r rows ih =>
      rw [List.map_cons, List.nodup_cons] at hunique
      rw [List.map_cons, bytesOf_cons]
      by_cases hmail : r.email = email
      · have hrest : bytesOf email (rows.map Tally.record) = 0 := by
          refine bytesOf_of_notMem fun hmem => hunique.1 ?_
          rw [List.map_map] at hmem
          rw [hmail]
          exact hmem
        simp [hmail, hrest, Tally.record]
      · simpa [hmail, Tally.record] using ih hunique.2

theorem onMeter_count (email' : String) (up down : Nat) (t : Table Tally.email) :
    onMeter email (count email' up down t) =
      onMeter email t + if email' = email then (up + down : Int) else 0 := by
  rw [onMeter_eq, onMeter_eq]
  unfold count
  cases hfind : t.find? email' with
  | none =>
      simp only [Table.find?_put]
      by_cases hmail : email' = email
      · subst hmail
        simp [hfind]
      · simp [hmail]
  | some r =>
      have hkey := (Table.find?_some hfind).2
      simp only [Table.find?_put, hkey]
      by_cases hmail : email' = email
      · subst hmail
        simp only [if_true, hfind, Option.elim_some]
        push_cast
        ring
      · simp [hmail]

theorem onMeter_reset (email : String) (t : Table Tally.email) : onMeter email (reset t) = 0 := by
  rw [onMeter_eq, reset, Table.find?_updateWhere]
  cases t.find? email with
  | none => rfl
  | some r => rfl

theorem onRelays_reset (email : String) (relays : List (Table Tally.email)) :
    onRelays email (relays.map reset) = 0 := by
  induction relays with
  | nil => rfl
  | cons t relays ih => simpa [onRelays, onMeter_reset] using ih

/-- Some more bytes on one of the relays. -/
theorem onRelays_modify {relays : List (Table Tally.email)} {k : Nat} (hk : k < relays.length)
    (email' : String) (up down : Nat) :
    onRelays email (relays.modify k (count email' up down)) =
      onRelays email relays + if email' = email then (up + down : Int) else 0 := by
  induction relays generalizing k with
  | nil => cases hk
  | cons t relays ih =>
      cases k with
      | zero =>
          simp only [onRelays, List.modify_zero_cons, List.map_cons, List.sum_cons, onMeter_count]
          ring
      | succ k =>
          have hrest := ih (Nat.lt_of_succ_lt_succ hk)
          simp only [onRelays] at hrest
          simp only [onRelays, List.modify_succ_cons, List.map_cons, List.sum_cons, hrest]
          ring

/-- The bytes that are owed, meter by meter. -/
theorem owed_eq (email : String) (m : Meters) :
    m.owed email = onMeter email m.xray + onMeter email m.tunnels +
      bif m.tracked email then 0 else onRelays email m.relays := by
  rw [Meters.owed]
  cases m.tracked email <;> rfl

/-- Traffic is owed. -/
theorem owed_moved {via : Meter} (hvia : m.has via = true) (email' : String) (up down : Nat) :
    (m.moved via email' up down).owed email = m.owed email + if email' = email then (up + down : Int) else 0 := by
  rw [owed_eq, owed_eq]
  cases via with
  | xray =>
      simp only [Meters.moved, onMeter_count]
      ring
  | tunnel =>
      simp only [Meters.moved, onMeter_count]
      ring
  | relay k =>
      have hk : k < m.relays.length := of_decide_eq_true hvia
      simp only [Meters.moved, onRelays_modify hk]
      by_cases hmail : email' = email
      · subst hmail
        cases htracked : m.tracked email' with
        | true =>
            simp only [if_true, onMeter_count, cond_true]
            ring
        | false =>
            simp only [Bool.false_eq_true, if_false, if_true, cond_false]
            ring
      · have hxray : onMeter email (if m.tracked email' = true then count email' up down m.xray else m.xray) =
            onMeter email m.xray := by
          split
          · simp [onMeter_count, hmail]
          · rfl
        simp [hxray, hmail]

/-- The first record of an account in a list. -/
def firstOf (email : String) (records : List ClientRecord) : Int :=
  (records.find? fun r => r.email = email).elim 0 fun r => r.up + r.down

theorem firstOf_cons (r : ClientRecord) (records : List ClientRecord) :
    firstOf email (r :: records) = if r.email = email then r.up + r.down else firstOf email records := by
  by_cases hmail : r.email = email <;> simp [firstOf, hmail]

/-- What the relays have for an account is left out if there is a record already; the first
of them that has bytes counts. -/
theorem bytesOf_appendUnrecorded (existing fallback : List ClientRecord) :
    bytesOf email (appendUnrecordedTraffic existing fallback) =
      bytesOf email existing + if email ∈ existing.map (·.email) then 0 else firstOf email fallback := by
  unfold appendUnrecordedTraffic
  induction fallback generalizing existing with
  | nil => simp [firstOf]
  | cons t fallback ih =>
      rw [List.foldl_cons, ih, firstOf_cons]
      by_cases hmail : t.email = email
      · by_cases hin : email ∈ existing.map (·.email)
        · simp [hmail, hin]
        · simp [hmail, hin]
      · by_cases hin : t.email ∈ existing.map (·.email)
        · simp [hmail, hin]
        · simp [hmail, hin, Ne.symm hmail]

/-- An account with one record has the bytes of the first. -/
theorem firstOf_eq_bytesOf (p : String → Bool) {records : List ClientRecord}
    (h : ((records.filter fun r => p r.email).map (·.email)).Nodup) (hp : p email = true) :
    firstOf email records = bytesOf email records := by
  induction records with
  | nil => rfl
  | cons r records ih =>
      rw [firstOf_cons, bytesOf_cons]
      by_cases hmail : r.email = email
      · rw [List.filter_cons_of_pos (by rw [hmail, hp]), List.map_cons, List.nodup_cons] at h
        have hrest : bytesOf email records = 0 := by
          refine bytesOf_of_notMem fun hmem => h.1 ?_
          obtain ⟨r', hr', hmail'⟩ := List.mem_map.1 hmem
          rw [hmail, ← hmail']
          exact List.mem_map_of_mem (List.mem_filter.2 ⟨hr', by rw [hmail', hp]⟩)
        simp [hmail, hrest]
      · have hrecords : ((records.filter fun r => p r.email).map (·.email)).Nodup :=
          h.sublist ((List.sublist_cons_self r records).filter _ |>.map _)
        simpa [hmail] using ih hrecords

/-- The relays' tallies are left out exactly where Xray has counted the same bytes, and where
it has not, one relay has all bytes of the account. -/
structure Meters.Metered (answers reads : Bool) (m : Meters) : Prop where
  leftOut : ∀ r ∈ m.relayed, m.tracked r.email = true ↔ r.email ∈ (m.direct answers reads).map (·.email)
  onOne : ((m.relayed.filter fun r => !m.tracked r.email).map (·.email)).Nodup

instance (answers reads : Bool) (m : Meters) : Decidable (m.Metered answers reads) :=
  decidable_of_iff
    ((∀ r ∈ m.relayed, m.tracked r.email = true ↔ r.email ∈ (m.direct answers reads).map (·.email)) ∧
      ((m.relayed.filter fun r => !m.tracked r.email).map (·.email)).Nodup)
    ⟨fun h => ⟨h.1, h.2⟩, fun h => ⟨h.leftOut, h.onOne⟩⟩

/-- A tally without bytes adds nothing. -/
theorem bytesOf_nonzero (email : String) (t : Table Tally.email) : bytesOf email (nonzero t) = onMeter email t := by
  simp only [nonzero, onMeter]
  induction t.rows with
  | nil => rfl
  | cons r rows ih =>
      by_cases hpos : 0 < r.up ∨ 0 < r.down
      · rw [List.filter_cons_of_pos (by simpa using hpos), List.map_cons, List.map_cons, bytesOf_cons,
          bytesOf_cons, ih]
      · obtain ⟨hup, hdown⟩ : r.up = 0 ∧ r.down = 0 := by omega
        rw [List.filter_cons_of_neg (by simpa using hpos), List.map_cons, bytesOf_cons, ih]
        simp [Tally.record, hup, hdown]

theorem bytesOf_relayed (email : String) (m : Meters) : bytesOf email m.relayed = onRelays email m.relays := by
  rw [Meters.relayed, onRelays]
  induction m.relays with
  | nil => rfl
  | cons t relays ih => rw [List.flatMap_cons, bytesOf_append, bytesOf_nonzero, ih, List.map_cons, List.sum_cons]

theorem bytesOf_direct (answers reads : Bool) :
    bytesOf email (m.direct answers reads) =
      (if answers then onMeter email m.xray else 0) + if reads then onMeter email m.tunnels else 0 := by
  rw [Meters.direct, bytesOf_append]
  congr 1
  · cases answers <;> rfl
  · cases reads with
    | false => rfl
    | true => exact bytesOf_nonzero email m.tunnels

/-- What the relays add to a report is what Xray has not counted. -/
theorem Meters.Metered.relayed {answers reads : Bool} (h : m.Metered answers reads) (email : String) :
    (if email ∈ (m.direct answers reads).map (·.email) then 0 else firstOf email m.relayed) =
      if m.tracked email then 0 else onRelays email m.relays := by
  by_cases hthere : email ∈ m.relayed.map (·.email)
  · obtain ⟨r, hr, hmail⟩ := List.mem_map.1 hthere
    have hiff := h.leftOut r hr
    rw [hmail] at hiff
    simp only [← hiff]
    cases htracked : m.tracked email with
    | true => rfl
    | false =>
        have hfirst : firstOf email m.relayed = bytesOf email m.relayed :=
          firstOf_eq_bytesOf (fun e => !m.tracked e) h.onOne (by simp [htracked])
        rw [← bytesOf_relayed, ← hfirst]
  · have hfirst : firstOf email m.relayed = 0 := by
      have hnone : (m.relayed.find? fun r => r.email = email) = none := by
        rw [List.find?_eq_none]
        intro r hr hmail
        exact hthere (List.mem_map.2 ⟨r, hr, by simpa using hmail⟩)
      rw [firstOf, hnone]
      rfl
    have hsum : onRelays email m.relays = 0 := by rw [← bytesOf_relayed, bytesOf_of_notMem hthere]
    simp [hfirst, hsum]

/-- What is reported was owed, and the rest is still. -/
theorem bytesOf_collect {answers reads : Bool} (h : m.Metered answers reads) :
    bytesOf email (m.collect answers reads).1.clients + (m.collect answers reads).2.owed email = m.owed email := by
  have hclients : bytesOf email (m.collect answers reads).1.clients = bytesOf email (m.direct answers reads) +
      if m.tracked email then 0 else onRelays email m.relays := by
    rw [← h.relayed email]
    exact bytesOf_appendUnrecorded _ _
  rw [hclients, bytesOf_direct]
  simp only [Meters.owed, Meters.collect, onRelays_reset]
  cases answers <;> cases reads <;> simp [onMeter_reset] <;> ring

end Bytes

/-! ## The panel and its nodes -/

/-- A request and its answer carry the number of the call. -/
inductive Message where
  | request (call : Nat)
  | response (call : Nat) (result : Batch)

/-- One call of `Collect`.  It waits until an answer is there or the time is up. -/
structure Call where
  round : Nat
  node : Nat
  waiting : Bool := true

/-- One tick: what the nodes have answered so far, and whether it is over. -/
structure Round where
  got : Batch := {}
  closed : Bool := false

/-- The nodes, the messages under way, the calls and ticks of the panel and its database;
`counted` and `own` note what the nodes and the panel's own machine have counted. -/
structure Fleet where
  nodes : List Meters
  net : List Message := []
  calls : List Call := []
  rounds : List Round := []
  db : Db
  counted : String → Int := fun _ => 0
  own : String → Int := fun _ => 0

/-- Traffic, ticks, messages and bookings. -/
inductive FleetEvent where
  | traffic (node : Nat) (via : Meter) (email : String) (up down : Nat)
  | tick (nodes : List Nat)
  | handle (i : Nat) (answers reads : Bool)
  | duplicate (i : Nat)
  | lose (i : Nat)
  | deliver (i : Nat)
  | giveUp (call : Nat)
  | book (round : Nat) (h : Host) (own : Batch) (fault : Option TickPlace)

namespace Fleet

/-- The call has not ended. -/
def waits (s : Fleet) (c : Nat) : Bool := (s.calls[c]?).any (·.waiting)

/-- The answer to a call among the messages. -/
def answerIn (c : Nat) : Message → Option Batch
  | .response c' result => if c' = c then some result else none
  | .request _ => none

/-- The first answer to a call. -/
def answer? (net : List Message) (c : Nat) : Option Batch := net.findSome? (answerIn c)

/-- What a tick hands to `AddTraffic`: its own figures, then those of the nodes. -/
def merged (own got : Batch) : Batch where
  inbounds := own.inbounds ++ got.inbounds
  clients := own.clients ++ got.clients

/-- `handleCollect` at the node that was called. -/
def handle (s : Fleet) (i : Nat) (answers reads : Bool) : Fleet :=
  match s.net[i]? with
  | some (.request c) =>
      match (s.calls[c]?).bind fun call => (s.nodes[call.node]?).map fun m => (call.node, m) with
      | some (n, m) =>
          { s with
            nodes := s.nodes.set n (m.collect answers reads).2
            net := s.net.eraseIdx i ++ [.response c (m.collect answers reads).1] }
      | none => s
  | _ => s

/-- An answer comes in.  Nobody takes it when its call has ended. -/
def deliver (s : Fleet) (i : Nat) : Fleet :=
  match s.net[i]? with
  | some (.response c result) =>
      match s.calls[c]? with
      | some call =>
          if call.waiting then
            { s with
              net := s.net.eraseIdx i
              calls := s.calls.set c { call with waiting := false }
              rounds := s.rounds.modify call.round fun r => { r with got := merged r.got result } }
          else { s with net := s.net.eraseIdx i }
      | none => { s with net := s.net.eraseIdx i }
  | _ => s

/-- The end of a tick, when every call of it has ended.  A tick without figures is over at
once; a failed `AddTraffic` is logged. -/
def book (s : Fleet) (k : Nat) (h : Host) (own : Batch) (fault : Option TickPlace) : Fleet :=
  match s.rounds[k]? with
  | some r =>
      if r.closed || s.calls.any (fun call => decide (call.round = k) && call.waiting) then s
      else
        { s with
          rounds := s.rounds.set k { r with closed := true }
          own := fun email => s.own email + bytesOf email own.clients
          db :=
            if (merged own r.got).inbounds.isEmpty && (merged own r.got).clients.isEmpty then s.db
            else (tickOutcome h (merged own r.got) s.db fault).1 }
  | none => s

/-- One event. -/
def step (s : Fleet) : FleetEvent → Fleet
  | .traffic n via email up down =>
      match s.nodes[n]? with
      | some m =>
          if m.has via then
            { s with
              nodes := s.nodes.set n (m.moved via email up down)
              counted := fun e => s.counted e + if email = e then (up + down : Int) else 0 }
          else s
      | none => s
  | .tick nodes =>
      { s with
        net := s.net ++ (List.range' s.calls.length nodes.length).map Message.request
        calls := s.calls ++ nodes.map fun n => { round := s.rounds.length, node := n }
        rounds := s.rounds ++ [{}] }
  | .handle i answers reads => s.handle i answers reads
  | .duplicate i => { s with net := s.net ++ (s.net[i]?).toList }
  | .lose i => { s with net := s.net.eraseIdx i }
  | .deliver i => s.deliver i
  | .giveUp c => { s with calls := s.calls.modify c fun call => { call with waiting := false } }
  | .book k h own fault => s.book k h own fault

/-! ### What is asked of a run -/

/-- In the counters. -/
def unread (s : Fleet) (email : String) : Int :=
  ∑ n ∈ Finset.range s.nodes.length, (s.nodes[n]?).elim 0 (Meters.owed email)

/-- In the answer to a call that waits. -/
def pending (s : Fleet) (email : String) (c : Nat) : Int :=
  if s.waits c then (answer? s.net c).elim 0 fun result => bytesOf email result.clients else 0

/-- In a tick that is not over. -/
def held (s : Fleet) (email : String) (k : Nat) : Int :=
  (s.rounds[k]?).elim 0 fun r => if r.closed then 0 else bytesOf email r.got.clients

/-- On the way from a node to the database. -/
def underway (s : Fleet) (email : String) : Int :=
  ∑ c ∈ Finset.range s.calls.length, s.pending email c + ∑ k ∈ Finset.range s.rounds.length, s.held email k

/-- Every byte counted is booked once, or is still in a counter or on its way. -/
def BilledOnce (db : Db) (s : Fleet) : Prop :=
  ∀ email, s.db.allTime email = (db.traffics.find? email).map fun ct =>
    int64 (ct.allTime + s.own email + s.counted email - s.unread email - s.underway email)

/-- No call waits, and every tick is over. -/
def Quiet (s : Fleet) : Prop := (∀ c, s.waits c = false) ∧ ∀ r ∈ s.rounds, r.closed = true

/-- A request is handled only while its call waits and has no answer yet, and the relays'
tallies are told apart from what Xray has counted; the last answer to a call that waits is not
lost, and the call is not given up then; what is handed to `AddTraffic` is saved. -/
def Lossless (s : Fleet) : FleetEvent → Prop
  | .handle i answers reads => ∀ c, s.net[i]? = some (.request c) →
      s.waits c = true ∧ answer? s.net c = none ∧
        ∀ call ∈ s.calls[c]?, ∀ m ∈ s.nodes[call.node]?, m.Metered answers reads
  | .lose i => ∀ c result, s.net[i]? = some (.response c result) → s.waits c = true →
      (answer? (s.net.eraseIdx i) c).isSome = true
  | .giveUp c => s.waits c = true → answer? s.net c = none
  | .book k h own fault => ∀ r ∈ s.rounds[k]?, (∀ place ∈ fault, place.losesBytes = false) ∧
      s.db.starts h (merged own r.got) = true
  | .traffic .. | .tick _ | .duplicate _ | .deliver _ => True

/-- The panel has just been started; what the counters show has been counted. -/
def start (nodes : List Meters) (db : Db) : Fleet where
  nodes := nodes
  db := db
  counted := fun email => ∑ n ∈ Finset.range nodes.length, (nodes[n]?).elim 0 (Meters.owed email)

/-! ### Messages -/

section Messages

variable {net : List Message} {c i : Nat} {result : Batch}

theorem mem_of_answer? (h : answer? net c = some result) : .response c result ∈ net := by
  obtain ⟨msg, hmem, hin⟩ := List.exists_of_findSome?_eq_some h
  cases msg with
  | request _ => cases hin
  | response c' r =>
      simp only [answerIn] at hin
      split at hin
      · rename_i hc
        cases hin
        rwa [← hc]
      · cases hin

theorem answer?_eq_none : answer? net c = none ↔ ∀ result, .response c result ∉ net := by
  constructor
  · intro h result hmem
    have hnone := List.findSome?_eq_none_iff.1 h _ hmem
    simp [answerIn] at hnone
  · intro h
    cases hanswer : answer? net c with
    | none => rfl
    | some result => exact absurd (mem_of_answer? hanswer) (h result)

theorem answer?_append (net more : List Message) (c : Nat) :
    answer? (net ++ more) c = (answer? net c).or (answer? more c) := List.findSome?_append

/-- A message that is not an answer to the call does not matter for it. -/
theorem answer?_eraseIdx {msg : Message} (hi : net[i]? = some msg) (hmsg : answerIn c msg = none) :
    answer? (net.eraseIdx i) c = answer? net c := by
  obtain ⟨hlt, hget⟩ := List.getElem?_eq_some_iff.1 hi
  have hnet : net = net.take i ++ msg :: net.drop (i + 1) := by
    rw [← hget, List.getElem_cons_drop, List.take_append_drop]
  have herase : net.eraseIdx i = net.take i ++ net.drop (i + 1) := List.eraseIdx_eq_take_drop_succ net i
  have hcons : answer? (msg :: net.drop (i + 1)) c = answer? (net.drop (i + 1)) c := by
    simp only [answer?, List.findSome?_cons, hmsg]
  rw [herase, answer?_append, ← hcons, ← answer?_append, ← hnet]

theorem mem_eraseIdx {msg : Message} (h : msg ∈ net.eraseIdx i) : msg ∈ net := List.mem_of_mem_eraseIdx h

theorem answerIn_of_ne {c' : Nat} (h : c' ≠ c) : answerIn c (.response c' result) = none := if_neg h

end Messages

/-! ### Sums -/

/-- One term of a sum changes. -/
theorem sum_range_change {f g : Nat → Int} {n c : Nat} (hc : c < n) (h : ∀ j, j ≠ c → g j = f j) :
    ∑ j ∈ Finset.range n, g j = ∑ j ∈ Finset.range n, f j + (g c - f c) := by
  have hmem : c ∈ Finset.range n := Finset.mem_range.2 hc
  rw [← Finset.add_sum_erase _ g hmem, ← Finset.add_sum_erase _ f hmem]
  have hrest : ∑ j ∈ (Finset.range n).erase c, g j = ∑ j ∈ (Finset.range n).erase c, f j :=
    Finset.sum_congr rfl fun j hj => h j (Finset.ne_of_mem_erase hj)
  rw [hrest]
  ring

section Accounts

variable {s t : Fleet} {db : Db}

/-- A node's meters change. -/
theorem unread_set {n : Nat} {m m' : Meters} (hm : s.nodes[n]? = some m) (ht : t.nodes = s.nodes.set n m')
    (email : String) : t.unread email = s.unread email + (m'.owed email - m.owed email) := by
  obtain ⟨hlt, -⟩ := List.getElem?_eq_some_iff.1 hm
  have hother : ∀ j, j ≠ n → (t.nodes[j]?).elim 0 (Meters.owed email) = (s.nodes[j]?).elim 0 (Meters.owed email) := by
    intro j hj
    rw [ht, List.getElem?_set_ne (Ne.symm hj)]
  have hlength : t.nodes.length = s.nodes.length := by rw [ht, List.length_set]
  rw [unread, hlength, sum_range_change hlt hother, ht, List.getElem?_set_self hlt, hm]
  rfl

/-- What the equation is about has not changed. -/
theorem BilledOnce.of_eq (h : BilledOnce db s) (hdb : t.db = s.db)
    (hsum : ∀ email, t.own email + t.counted email - t.unread email - t.underway email =
      s.own email + s.counted email - s.unread email - s.underway email) : BilledOnce db t := by
  intro email
  have hrest : ∀ x : Int, x + t.own email + t.counted email - t.unread email - t.underway email =
      x + s.own email + s.counted email - s.unread email - s.underway email := by
    intro x
    have := hsum email
    omega
  rw [hdb, h email]
  simp only [hrest]

/-! ### What every lossless run keeps -/

/-- Answers are to calls that were made, those to a call that waits are copies of one, and
a call that waits is of a tick that is not over. -/
structure Sound (db : Db) (s : Fleet) : Prop where
  known : ∀ c result, Message.response c result ∈ s.net → c < s.calls.length
  agree : ∀ c r r', s.waits c = true → Message.response c r ∈ s.net → Message.response c r' ∈ s.net → r = r'
  opened : ∀ (c : Nat) (call : Call), s.calls[c]? = some call → call.waiting = true →
    ∃ r : Round, s.rounds[call.round]? = some r ∧ r.closed = false
  billed : BilledOnce db s

theorem waits_of_some {c : Nat} {call : Call} (h : s.calls[c]? = some call) : s.waits c = call.waiting := by
  rw [waits, h]
  rfl

/-- The answer to a call that waits is the one among the messages. -/
theorem Sound.answer?_eq (h : Sound db s) {c : Nat} {result : Batch} (hc : s.waits c = true)
    (hmem : Message.response c result ∈ s.net) : answer? s.net c = some result := by
  cases hanswer : answer? s.net c with
  | none => exact absurd hmem (answer?_eq_none.1 hanswer result)
  | some r => rw [h.agree c r result hc (mem_of_answer? hanswer) hmem]

/-- Only messages that no waiting call needs have come or gone. -/
theorem Sound.of_net (h : Sound db s) {net : List Message} (hmem : ∀ msg ∈ net, msg ∈ s.net)
    (hanswer : ∀ c, s.waits c = true → answer? net c = answer? s.net c) : Sound db { s with net := net } where
  known c result hin := h.known c result (hmem _ hin)
  agree c r r' hc hr hr' := h.agree c r r' hc (hmem _ hr) (hmem _ hr')
  opened := h.opened
  billed := by
    refine h.billed.of_eq rfl fun email => ?_
    have hpending : ∀ c, pending { s with net := net } email c = s.pending email c := by
      intro c
      by_cases hc : s.waits c = true
      · have hc' : waits { s with net := net } c = true := hc
        rw [pending, pending, if_pos hc, if_pos hc', hanswer c hc]
      · have hc' : ¬waits { s with net := net } c = true := hc
        rw [pending, pending, if_neg hc, if_neg hc']
    have hunderway : underway { s with net := net } email = s.underway email := by
      simp only [underway, hpending]
      rfl
    rw [hunderway]
    rfl

theorem Sound.traffic (h : Sound db s) (n : Nat) (via : Meter) (email : String) (up down : Nat) :
    Sound db (s.step (.traffic n via email up down)) := by
  cases hm : s.nodes[n]? with
  | none =>
      simp only [step, hm]
      exact h
  | some m =>
      simp only [step, hm]
      split
      next hvia =>
        refine ⟨h.known, h.agree, h.opened, h.billed.of_eq rfl fun e => ?_⟩
        have hunread := unread_set (t := { s with
          nodes := s.nodes.set n (m.moved via email up down)
          counted := fun e => s.counted e + if email = e then (up + down : Int) else 0 }) hm rfl e
        have howed := @owed_moved e m via hvia email up down
        rw [hunread, howed]
        show s.own e + (s.counted e + _) - _ - s.underway e = _
        ring
      next => exact h

theorem Sound.tick (h : Sound db s) (nodes : List Nat) : Sound db (s.step (.tick nodes)) := by
  have hrequests : ∀ c, answer? ((List.range' s.calls.length nodes.length).map Message.request) c = none := by
    intro c
    rw [answer?_eq_none]
    intro result hmem
    obtain ⟨_, -, hreq⟩ := List.mem_map.1 hmem
    cases hreq
  have hresponse : ∀ c result, Message.response c result ∈ (s.step (.tick nodes)).net →
      Message.response c result ∈ s.net := by
    intro c result hmem
    refine (List.mem_append.1 hmem).resolve_right fun hreq => ?_
    obtain ⟨_, -, hreq⟩ := List.mem_map.1 hreq
    cases hreq
  have hwaits : ∀ c, c < s.calls.length → (s.step (.tick nodes)).waits c = s.waits c := by
    intro c hc
    simp only [waits, step]
    rw [List.getElem?_append_left hc]
  have hpending : ∀ email c, c < s.calls.length →
      (s.step (.tick nodes)).pending email c = s.pending email c := by
    intro email c hc
    have hanswer : answer? (s.step (.tick nodes)).net c = answer? s.net c := by
      simp only [step]
      rw [answer?_append, hrequests, Option.or_none]
    rw [pending, pending, hwaits c hc, hanswer]
  have hnew : ∀ email c, s.calls.length ≤ c → (s.step (.tick nodes)).pending email c = 0 := by
    intro email c hc
    have hnone : answer? (s.step (.tick nodes)).net c = none := by
      rw [answer?_eq_none]
      intro result hmem
      exact absurd (h.known c result (hresponse c result hmem)) (Nat.not_lt.2 hc)
    rw [pending, hnone]
    simp
  refine ⟨fun c result hmem => ?_, fun c r r' hc hr hr' => ?_, fun c call hcall hwaiting => ?_, ?_⟩
  · have := h.known c result (hresponse c result hmem)
    simp only [step, List.length_append]
    omega
  · have hlt := h.known c r (hresponse c r hr)
    rw [hwaits c hlt] at hc
    exact h.agree c r r' hc (hresponse c r hr) (hresponse c r' hr')
  · simp only [step] at hcall ⊢
    by_cases hlt : c < s.calls.length
    · rw [List.getElem?_append_left hlt] at hcall
      obtain ⟨r, hr, hclosed⟩ := h.opened c call hcall hwaiting
      obtain ⟨hk, -⟩ := List.getElem?_eq_some_iff.1 hr
      exact ⟨r, by rw [List.getElem?_append_left hk, hr], hclosed⟩
    · rw [List.getElem?_append_right (Nat.not_lt.1 hlt), List.getElem?_map] at hcall
      obtain ⟨n, -, rfl⟩ := Option.map_eq_some_iff.1 hcall
      exact ⟨{}, by simp, rfl⟩
  · refine h.billed.of_eq rfl fun email => ?_
    have hcalls : ∑ c ∈ Finset.range (s.step (.tick nodes)).calls.length, (s.step (.tick nodes)).pending email c =
        ∑ c ∈ Finset.range s.calls.length, s.pending email c := by
      have hsub : Finset.range s.calls.length ⊆ Finset.range (s.step (.tick nodes)).calls.length := by
        intro c hc
        rw [Finset.mem_range] at hc ⊢
        simp only [step, List.length_append]
        omega
      rw [← Finset.sum_subset hsub fun c _ hc => hnew email c (Nat.not_lt.1 fun hlt => hc (Finset.mem_range.2 hlt))]
      exact Finset.sum_congr rfl fun c hc => hpending email c (Finset.mem_range.1 hc)
    have hrounds : ∑ k ∈ Finset.range (s.step (.tick nodes)).rounds.length, (s.step (.tick nodes)).held email k =
        ∑ k ∈ Finset.range s.rounds.length, s.held email k := by
      simp only [step, List.length_append, List.length_singleton]
      rw [Finset.sum_range_succ]
      have hlast : held { s with
          net := s.net ++ (List.range' s.calls.length nodes.length).map Message.request
          calls := s.calls ++ nodes.map fun n => { round := s.rounds.length, node := n }
          rounds := s.rounds ++ [{}] } email s.rounds.length = 0 := by
        simp [held]
      rw [hlast, add_zero]
      refine Finset.sum_congr rfl fun k hk => ?_
      simp only [held]
      rw [List.getElem?_append_left (Finset.mem_range.1 hk)]
    rw [underway, hcalls, hrounds]
    rfl

/-- The node's bytes move from its counters into the answer. -/
theorem Sound.handle (h : Sound db s) {i : Nat} {answers reads : Bool} (hok : Lossless s (.handle i answers reads)) :
    Sound db (s.handle i answers reads) := by
  unfold Fleet.handle
  split
  next c hi =>
    split
    next n m hnode =>
      obtain ⟨hwaits, hnone, hmetered⟩ := hok c hi
      obtain ⟨call, hcall, hm⟩ := Option.bind_eq_some_iff.1 hnode
      obtain ⟨m', hm', hpair⟩ := Option.map_eq_some_iff.1 hm
      cases hpair
      have hmeters : m.Metered answers reads := hmetered call hcall m hm'
      obtain ⟨hlt, -⟩ := List.getElem?_eq_some_iff.1 hcall
      generalize hresult : (m.collect answers reads).1 = result
      have hmem : ∀ c' r, Message.response c' r ∈ s.net.eraseIdx i ++ [.response c result] →
          Message.response c' r ∈ s.net ∨ c' = c ∧ r = result := by
        intro c' r hr
        rcases List.mem_append.1 hr with hr | hr
        · exact Or.inl (mem_eraseIdx hr)
        · cases List.mem_singleton.1 hr
          exact Or.inr ⟨rfl, rfl⟩
      have hold : ∀ c', answer? (s.net.eraseIdx i) c' = answer? s.net c' := fun c' => answer?_eraseIdx hi rfl
      refine ⟨fun c' r hr => ?_, fun c' r r' hc hr hr' => ?_, h.opened, h.billed.of_eq rfl fun email => ?_⟩
      · rcases hmem c' r hr with hr | ⟨rfl, -⟩
        · exact h.known c' r hr
        · exact hlt
      · rcases hmem c' r hr with hin | ⟨rfl, rfl⟩
        · rcases hmem c' r' hr' with hin' | ⟨rfl, rfl⟩
          · exact h.agree c' r r' hc hin hin'
          · exact absurd hin (answer?_eq_none.1 hnone r)
        · rcases hmem c' r' hr' with hin' | ⟨-, rfl⟩
          · exact absurd hin' (answer?_eq_none.1 hnone r')
          · rfl
      · have hunread := unread_set (t := { s with
          nodes := s.nodes.set call.node (m.collect answers reads).2
          net := s.net.eraseIdx i ++ [.response c result] }) hm' rfl email
        have hcollect := @bytesOf_collect email m answers reads hmeters
        rw [hresult] at hcollect
        have hother : ∀ c', c' ≠ c → pending { s with
            nodes := s.nodes.set call.node (m.collect answers reads).2
            net := s.net.eraseIdx i ++ [.response c result] } email c' = s.pending email c' := by
          intro c' hne
          have hanswer : answer? (s.net.eraseIdx i ++ [.response c result]) c' = answer? s.net c' := by
            rw [answer?_append, hold]
            have hout : answer? [Message.response c result] c' = none := by
              simp [answer?, answerIn_of_ne (Ne.symm hne)]
            rw [hout, Option.or_none]
          simp only [pending, hanswer]
          rfl
        have hhere : pending { s with
            nodes := s.nodes.set call.node (m.collect answers reads).2
            net := s.net.eraseIdx i ++ [.response c result] } email c = bytesOf email result.clients := by
          have hanswer : answer? (s.net.eraseIdx i ++ [.response c result]) c = some result := by
            rw [answer?_append, hold, hnone]
            simp [answer?, answerIn]
          simp only [pending, hanswer, Option.elim_some]
          exact if_pos hwaits
        have hbefore : s.pending email c = 0 := by
          rw [pending, if_pos hwaits, hnone]
          rfl
        have hsum := sum_range_change hlt hother
        rw [hhere, hbefore] at hsum
        have hunderway : underway { s with
            nodes := s.nodes.set call.node (m.collect answers reads).2
            net := s.net.eraseIdx i ++ [.response c result] } email =
              s.underway email + bytesOf email result.clients := by
          simp only [underway] at hsum ⊢
          rw [hsum]
          show _ + _ + ∑ k ∈ Finset.range s.rounds.length, s.held email k = _
          ring
        rw [hunread, hunderway]
        show s.own email + s.counted email - _ - _ = _
        omega
    next => exact h
  next => exact h

theorem Sound.duplicate (h : Sound db s) (i : Nat) : Sound db (s.step (.duplicate i)) := by
  cases hi : s.net[i]? with
  | none =>
      simp only [step, hi, Option.toList_none, List.append_nil]
      exact h
  | some msg =>
      simp only [step, hi, Option.toList_some]
      have hin : msg ∈ s.net := List.mem_of_getElem? hi
      refine h.of_net (fun m hm => ?_) fun c _ => ?_
      · rcases List.mem_append.1 hm with hm | hm
        · exact hm
        · rw [List.mem_singleton.1 hm]
          exact hin
      · rw [answer?_append]
        cases hanswer : answer? s.net c with
        | some r => rfl
        | none =>
            have hmsg : answerIn c msg = none := List.findSome?_eq_none_iff.1 hanswer msg hin
            simp [answer?, hmsg]

theorem Sound.lose (h : Sound db s) {i : Nat} (hok : Lossless s (.lose i)) : Sound db (s.step (.lose i)) := by
  refine h.of_net (fun msg hmem => mem_eraseIdx hmem) fun c hc => ?_
  cases hi : s.net[i]? with
  | none =>
      have hout : s.net.length ≤ i := List.getElem?_eq_none_iff.1 hi
      rw [List.eraseIdx_of_length_le hout]
  | some msg =>
      cases hmsg : answerIn c msg with
      | none => exact answer?_eraseIdx hi hmsg
      | some result =>
          cases msg with
          | request _ => cases hmsg
          | response c' r =>
              have hcall : c' = c := by
                by_contra hne
                rw [answerIn_of_ne hne] at hmsg
                cases hmsg
              subst hcall
              obtain ⟨r', hcopy⟩ := Option.isSome_iff_exists.1 (hok c' r hi hc)
              rw [hcopy, h.answer?_eq hc (mem_eraseIdx (mem_of_answer? hcopy))]

theorem modify_of_getElem? {α : Type} {l : List α} {i : Nat} {a : α} (h : l[i]? = some a) {f : α → α} :
    l.modify i f = l.set i (f a) := by
  have : Inhabited α := ⟨a⟩
  rw [List.modify_eq_set, h]
  rfl

/-- A tick changes. -/
theorem sum_held_set {k : Nat} {r r' : Round} (hr : s.rounds[k]? = some r) (ht : t.rounds = s.rounds.set k r')
    (email : String) :
    ∑ k ∈ Finset.range t.rounds.length, t.held email k = ∑ k ∈ Finset.range s.rounds.length, s.held email k +
      ((if r'.closed then 0 else bytesOf email r'.got.clients) -
        if r.closed then 0 else bytesOf email r.got.clients) := by
  obtain ⟨hlt, -⟩ := List.getElem?_eq_some_iff.1 hr
  have hother : ∀ j, j ≠ k → t.held email j = s.held email j := by
    intro j hj
    rw [held, held, ht, List.getElem?_set_ne (Ne.symm hj)]
  have hlength : t.rounds.length = s.rounds.length := by rw [ht, List.length_set]
  have hthere : t.held email k = if r'.closed then 0 else bytesOf email r'.got.clients := by
    rw [held, ht, List.getElem?_set_self hlt]
    rfl
  have hhere : s.held email k = if r.closed then 0 else bytesOf email r.got.clients := by
    rw [held, hr]
    rfl
  rw [hlength, sum_range_change hlt hother, hthere, hhere]

/-- A call ends. -/
theorem sum_pending_set {c : Nat} {call : Call} (hcall : s.calls[c]? = some call)
    (hcalls : t.calls = s.calls.set c { call with waiting := false })
    (hanswer : ∀ c', c' ≠ c → answer? t.net c' = answer? s.net c') (email : String) :
    ∑ c ∈ Finset.range t.calls.length, t.pending email c =
      ∑ c ∈ Finset.range s.calls.length, s.pending email c - s.pending email c := by
  obtain ⟨hlt, -⟩ := List.getElem?_eq_some_iff.1 hcall
  have hlength : t.calls.length = s.calls.length := by rw [hcalls, List.length_set]
  have hother : ∀ c', c' ≠ c → t.pending email c' = s.pending email c' := by
    intro c' hne
    rw [pending, pending, waits, waits, hcalls, List.getElem?_set_ne (Ne.symm hne), hanswer c' hne]
  have hended : t.pending email c = 0 := by
    rw [pending, waits, hcalls, List.getElem?_set_self hlt]
    rfl
  rw [hlength, sum_range_change hlt hother, hended]
  ring

/-- After a call has ended the others wait as before. -/
theorem waits_set {c : Nat} {call : Call} (hcall : s.calls[c]? = some call)
    (hcalls : t.calls = s.calls.set c { call with waiting := false }) {c' : Nat} (h : t.waits c' = true) :
    c' ≠ c ∧ s.waits c' = true := by
  obtain ⟨hlt, -⟩ := List.getElem?_eq_some_iff.1 hcall
  have hne : c' ≠ c := by
    rintro rfl
    rw [waits, hcalls, List.getElem?_set_self hlt] at h
    cases h
  refine ⟨hne, ?_⟩
  rw [waits, hcalls, List.getElem?_set_ne (Ne.symm hne)] at h
  exact h

theorem Sound.deliver (h : Sound db s) (i : Nat) : Sound db (s.deliver i) := by
  have hunwanted : ∀ c result, s.net[i]? = some (.response c result) → s.waits c = false →
      Sound db { s with net := s.net.eraseIdx i } := by
    intro c result hi hc
    refine h.of_net (fun msg hmem => mem_eraseIdx hmem) fun c' hc' => answer?_eraseIdx hi (answerIn_of_ne ?_)
    rintro rfl
    rw [hc] at hc'
    cases hc'
  unfold Fleet.deliver
  split
  next c result hi =>
    split
    next call hcall =>
      split
      next hwaiting =>
        have hwaits : s.waits c = true := by rw [waits_of_some hcall, hwaiting]
        have hmem : Message.response c result ∈ s.net := List.mem_of_getElem? hi
        obtain ⟨r, hr, hopen⟩ := h.opened c call hcall hwaiting
        generalize ht : ({ s with
          net := s.net.eraseIdx i
          calls := s.calls.set c { call with waiting := false }
          rounds := s.rounds.modify call.round fun r => { r with got := merged r.got result } } : Fleet) = t
        have hcalls : t.calls = s.calls.set c { call with waiting := false } := by rw [← ht]
        have hnet : t.net = s.net.eraseIdx i := by rw [← ht]
        have hrounds : t.rounds = s.rounds.set call.round { r with got := merged r.got result } := by
          rw [← ht]
          exact modify_of_getElem? hr
        have hanswer : ∀ c', c' ≠ c → answer? t.net c' = answer? s.net c' := by
          intro c' hne
          rw [hnet]
          exact answer?_eraseIdx hi (answerIn_of_ne (Ne.symm hne))
        refine ⟨fun c' r' hr' => ?_, fun c' r₁ r₂ hc' hr₁ hr₂ => ?_, fun c' call' hcall' hwaiting' => ?_, ?_⟩
        · rw [hnet] at hr'
          rw [hcalls, List.length_set]
          exact h.known c' r' (mem_eraseIdx hr')
        · rw [hnet] at hr₁ hr₂
          exact h.agree c' r₁ r₂ (waits_set hcall hcalls hc').2 (mem_eraseIdx hr₁) (mem_eraseIdx hr₂)
        · have hthere : t.waits c' = true := by rw [waits_of_some hcall', hwaiting']
          have hne := (waits_set hcall hcalls hthere).1
          rw [hcalls, List.getElem?_set_ne (Ne.symm hne)] at hcall'
          obtain ⟨r', hr', hopen'⟩ := h.opened c' call' hcall' hwaiting'
          by_cases hround : call'.round = call.round
          · obtain ⟨hk, -⟩ := List.getElem?_eq_some_iff.1 hr
            refine ⟨{ r with got := merged r.got result }, ?_, hopen⟩
            rw [hround, hrounds, List.getElem?_set_self hk]
          · exact ⟨r', by rw [hrounds, List.getElem?_set_ne (Ne.symm hround), hr'], hopen'⟩
        · have hfields : t.db = s.db ∧ t.own = s.own ∧ t.counted = s.counted ∧ t.nodes = s.nodes := by
            rw [← ht]
            exact ⟨rfl, rfl, rfl, rfl⟩
          obtain ⟨hdb, hown, hcounted, hnodes⟩ := hfields
          refine h.billed.of_eq hdb fun email => ?_
          have hpending : s.pending email c = bytesOf email result.clients := by
            rw [pending, if_pos hwaits, h.answer?_eq hwaits hmem]
            rfl
          have hsumCalls := sum_pending_set hcall hcalls hanswer email
          have hsumRounds := sum_held_set hr hrounds email
          have hmerged : bytesOf email (merged r.got result).clients =
              bytesOf email r.got.clients + bytesOf email result.clients := bytesOf_append _ _ _
          simp only [hopen, Bool.false_eq_true, if_false, hmerged] at hsumRounds
          simp only [underway, unread, hown, hcounted, hnodes, hsumCalls, hsumRounds, hpending]
          omega
      next hwaiting => exact hunwanted c result hi (by rw [waits_of_some hcall]; simpa using hwaiting)
    next hcall => exact hunwanted c result hi (by rw [waits, hcall]; rfl)
  next => exact h

theorem Sound.giveUp (h : Sound db s) {c : Nat} (hok : Lossless s (.giveUp c)) : Sound db (s.step (.giveUp c)) := by
  cases hcall : s.calls[c]? with
  | none =>
      have hsame : s.step (.giveUp c) = s := by
        simp only [step]
        rw [List.modify_eq_self (List.getElem?_eq_none_iff.1 hcall)]
      rw [hsame]
      exact h
  | some call =>
      have hcalls : (s.step (.giveUp c)).calls = s.calls.set c { call with waiting := false } :=
        modify_of_getElem? hcall
      refine ⟨fun c' r hr => ?_, fun c' r r' hc' hr hr' => ?_, fun c' call' hcall' hwaiting' => ?_, ?_⟩
      · rw [hcalls, List.length_set]
        exact h.known c' r hr
      · exact h.agree c' r r' (waits_set hcall hcalls hc').2 hr hr'
      · have hthere : (s.step (.giveUp c)).waits c' = true := by rw [waits_of_some hcall', hwaiting']
        have hne := (waits_set hcall hcalls hthere).1
        rw [hcalls, List.getElem?_set_ne (Ne.symm hne)] at hcall'
        exact h.opened c' call' hcall' hwaiting'
      · refine h.billed.of_eq rfl fun email => ?_
        have hpending : s.pending email c = 0 := by
          rw [pending]
          split
          next hc =>
            rw [hok hc]
            rfl
          next => rfl
        have hsum := sum_pending_set hcall hcalls (fun _ _ => rfl) email
        rw [underway, hsum, hpending, sub_zero]
        rfl

/-- What a tick holds goes into the database. -/
theorem Sound.book (h : Sound db s) {k : Nat} {host : Host} {own : Batch} {fault : Option TickPlace}
    (hok : Lossless s (.book k host own fault)) : Sound db (s.book k host own fault) := by
  unfold Fleet.book
  split
  next r hr =>
    split
    next => exact h
    next hends =>
      simp only [Bool.or_eq_true, not_or, Bool.not_eq_true, List.any_eq_false, Bool.and_eq_true,
        decide_eq_true_eq, not_and] at hends
      obtain ⟨hopen, hended⟩ := hends
      obtain ⟨hfault, hstarts⟩ := hok r hr
      obtain ⟨hk, -⟩ := List.getElem?_eq_some_iff.1 hr
      generalize hdb : (if (merged own r.got).inbounds.isEmpty && (merged own r.got).clients.isEmpty then s.db
        else (tickOutcome host (merged own r.got) s.db fault).1) = db'
      have hbooked : ∀ email, db'.allTime email = (s.db.allTime email).map fun a =>
          int64 (a + (bytesOf email own.clients + bytesOf email r.got.clients)) := by
        intro email
        have hbytes : bytesOf email (merged own r.got).clients =
            bytesOf email own.clients + bytesOf email r.got.clients := bytesOf_append _ _ _
        rw [← hdb, ← hbytes, Db.allTime, Db.allTime, Option.map_map]
        split
        next hempty =>
          rw [Bool.and_eq_true, List.isEmpty_iff, List.isEmpty_iff] at hempty
          rw [hempty.2]
          cases s.db.traffics.find? email with
          | none => rfl
          | some ct => simp
        next =>
          have hall := @tickOutcome_allTime host (merged own r.got) fault s.db hfault hstarts email
          rw [Db.allTime] at hall
          rw [hall]
          cases s.db.traffics.find? email with
          | none => rfl
          | some ct => simp [int64_add_left]
      refine ⟨h.known, h.agree, fun c call hcall hwaiting => ?_, fun email => ?_⟩
      · obtain ⟨r', hr', hopen'⟩ := h.opened c call hcall hwaiting
        have hne : call.round ≠ k := by
          intro hround
          rw [hended call (List.mem_of_getElem? hcall) hround] at hwaiting
          cases hwaiting
        exact ⟨r', by simpa [List.getElem?_set_ne (Ne.symm hne)] using hr', hopen'⟩
      · have hheld := sum_held_set (t := { s with
          rounds := s.rounds.set k { r with closed := true }
          own := fun email => s.own email + bytesOf email own.clients
          db := db' }) hr rfl email
        simp only [hopen, if_true, Bool.false_eq_true, if_false, zero_sub] at hheld
        have hunderway : underway { s with
            rounds := s.rounds.set k { r with closed := true }
            own := fun email => s.own email + bytesOf email own.clients
            db := db' } email = s.underway email - bytesOf email r.got.clients := by
          rw [underway, hheld]
          show ∑ c ∈ Finset.range s.calls.length, s.pending email c + _ = _
          rw [underway]
          ring
        show db'.allTime email = _
        rw [hbooked, h.billed email, hunderway, Option.map_map]
        refine congrArg (fun f => Option.map f _) (funext fun ct => ?_)
        simp only [Function.comp_apply]
        rw [int64_add_left]
        show int64 _ = int64 (ct.allTime + (s.own email + bytesOf email own.clients) + s.counted email -
          s.unread email - (s.underway email - bytesOf email r.got.clients))
        congr 1
        ring
  next => exact h

theorem Sound.step (h : Sound db s) {e : FleetEvent} (hok : Lossless s e) : Sound db (s.step e) := by
  cases e with
  | traffic n via email up down => exact h.traffic n via email up down
  | tick nodes => exact h.tick nodes
  | handle i answers reads => exact h.handle hok
  | duplicate i => exact h.duplicate i
  | lose i => exact h.lose hok
  | deliver i => exact h.deliver i
  | giveUp c => exact h.giveUp hok
  | book k host own fault => exact h.book hok

theorem sound_start (nodes : List Meters) (db : Db) : Sound db (start nodes db) where
  known c result hmem := by cases hmem
  agree c r r' hc hr := by cases hr
  opened c call hcall := by cases hcall
  billed email := by
    have hcounted : (start nodes db).counted email = (start nodes db).unread email := rfl
    rw [hcounted]
    show (db.traffics.find? email).map _ = _
    refine congrArg (fun f => Option.map f _) (funext fun ct => congrArg int64 ?_)
    show ct.allTime = ct.allTime + 0 + _ - _ - 0
    ring

/-- Nothing is on its way when everything has come to an end. -/
theorem underway_of_quiet (hquiet : Quiet s) (email : String) : s.underway email = 0 := by
  have hpending : ∀ c, s.pending email c = 0 := by
    intro c
    rw [pending, hquiet.1 c]
    rfl
  have hheld : ∀ k, s.held email k = 0 := by
    intro k
    rw [held]
    cases hr : s.rounds[k]? with
    | none => rfl
    | some r =>
        simp only [Option.elim_some]
        rw [if_pos (hquiet.2 r (List.mem_of_getElem? hr))]
  simp [underway, hpending, hheld]

end Accounts

end Fleet

/-- Two accounts that have used nothing yet. -/
def annsRow : Db where
  inbounds := Table.empty
  traffics := (Table.single { email := "ann", inboundId := 0 }).put { email := "bob", inboundId := 0 }

/-- A machine with two relays; what they move for ann goes through Xray. -/
def noMeters : Meters where
  relays := [Table.empty, Table.empty]
  tracked := (· == "ann")

/-- A node counts bytes and answers a tick. -/
def collected : List FleetEvent :=
  [.traffic 0 .xray "ann" 60 40, .tick [0], .handle 0 true true]

/-- The next tick goes through. -/
def nextTick (round : Nat) : List FleetEvent :=
  [.tick [0], .handle 0 true true, .deliver 0, .book round ⟨5000, some {}⟩ {} none]

/-- One node, after these events. -/
def fleetAfter (events : List FleetEvent) : Fleet := run Fleet.step (Fleet.start [noMeters] annsRow) events

/-- The answer is lost, and the call ends without it. -/
def lostAnswer : List FleetEvent :=
  collected ++ [.lose 0, .giveUp 0, .book 0 ⟨5000, some {}⟩ {} none] ++ nextTick 1

/-- The answer arrives, and the rows cannot be saved. -/
def failedBooking : List FleetEvent :=
  collected ++ [.deliver 0, .book 0 ⟨5000, some {}⟩ {} (some .saveRows)] ++ nextTick 1

/-- The request is handled twice: the second answer is for nobody. -/
def doubledRequest : List FleetEvent :=
  [.tick [0], .duplicate 0, .handle 0 true true, .traffic 0 .xray "ann" 60 40, .handle 0 true true, .deliver 0,
    .book 0 ⟨5000, some {}⟩ {} none, .deliver 0] ++ nextTick 1

/-- Two relays have bytes of an account that Xray does not track; the second of them is left
out. -/
def twoRelays : List FleetEvent :=
  [.traffic 0 (.relay 0) "bob" 4 3, .traffic 0 (.relay 1) "bob" 3 2] ++ nextTick 0

/-- A request is lost and asked again; the answer is doubled. -/
def lateReport : List FleetEvent :=
  [.traffic 0 .xray "ann" 60 40, .tick [0], .lose 0, .giveUp 0, .book 0 ⟨5000, some {}⟩ {} none,
    .traffic 0 (.relay 0) "ann" 1 2, .traffic 0 (.relay 1) "bob" 5 2, .tick [0],
      .handle 0 true true, .duplicate 0, .deliver 0, .deliver 0,
    .book 1 ⟨5000, some {}⟩ {} none]

end Simorgh.Node
