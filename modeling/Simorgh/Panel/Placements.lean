import Mathlib.Data.List.Permutation
import Simorgh.Lib.Run
import Simorgh.Lib.Threads
import Simorgh.Panel.Writers

/-!
# Where inbounds are placed

An inbound is served from the nodes it is placed on.  Inbounds, nodes and
placements are three tables without foreign keys; each service checks and writes
its own side, statement by statement.

* `setForInbound`, `deleteNode`, `addNode` — the services of placements and nodes.
* `seedLocalNode` — what is done at the start for inbounds without a placement.
* `Integrity` — every placement is of an inbound and a node that exist, and every
  inbound has one.
* `Settles` — what is asked of the turn that ends a request.
* `OrderlySite` — what the services would have had to make sure of.
* `placements_sound` — orderly runs keep all of it.
* `placements_broken` — and the others do not.
-/

namespace Simorgh.Panel

open Simorgh.Lib

/-! ## Data -/

/-- One row of `nodes`. -/
structure NodeRow where
  id : Nat
  name : String
  address : String := ""
  isLocal : Bool := false
  enable : Bool := true
  deriving DecidableEq

/-- One row of `inbound_nodes`. -/
structure InboundNode where
  id : Nat
  inboundId : Nat
  nodeId : Nat
  port : Nat := 0
  listen : String := ""
  advertise : String := ""
  enable : Bool := true
  lastError : String := ""
  deriving DecidableEq

/-- The three tables.  Ids are handed out once. -/
structure Site where
  db : Db
  nodes : Table NodeRow.id
  placements : Table InboundNode.id := Table.empty
  nextNode : Nat := 1
  nextPlacement : Nat := 1

/-- The inbound exists. -/
def Site.hasInbound (s : Site) (id : Nat) : Bool := (s.db.inbounds.find? id).isSome

/-- The node exists. -/
def Site.hasNode (s : Site) (id : Nat) : Bool := (s.nodes.find? id).isSome

/-- The placements of an inbound. -/
def Site.placementsOf (s : Site) (inboundId : Nat) : List InboundNode :=
  s.placements.rows.filter fun p => decide (p.inboundId = inboundId)

/-- The placements on a node. -/
def Site.onNode (s : Site) (nodeId : Nat) : List InboundNode :=
  s.placements.rows.filter fun p => decide (p.nodeId = nodeId)

/-- A new placement; the index on the pair may refuse it. -/
def Site.place? (inboundId nodeId : Nat) (s : Site) : Option Site :=
  if s.placements.rows.any fun p => decide (p.inboundId = inboundId ∧ p.nodeId = nodeId) then none
  else (s.placements.insert? { id := s.nextPlacement, inboundId := inboundId, nodeId := nodeId }).map
    fun placements => { s with placements := placements, nextPlacement := s.nextPlacement + 1 }

/-- A placement is removed. -/
def Site.unplace (id : Nat) (s : Site) : Site := { s with placements := s.placements.erase id }

/-- A new node; its name has to be free. -/
def Site.insertNode? (name address : String) (s : Site) : Option Site :=
  if s.nodes.rows.any fun n => decide (n.name = name) then none
  else (s.nodes.insert? { id := s.nextNode, name := name, address := address }).map
    fun nodes => { s with nodes := nodes, nextNode := s.nextNode + 1 }

/-- The node's row is gone. -/
def Site.dropNode (id : Nat) (s : Site) : Site := { s with nodes := s.nodes.erase id }

/-- The errors of the requests on a site. -/
inductive SiteError where
  | inbound (fault : Fault)
  | noSuchInbound
  | noLocation
  | noSuchNode (id : Nat)
  | nodeNotFound
  | cannotDeleteLocal
  | stillServes (n : Nat) (tags : List String)
  | noName
  | noAddress
  | reserved
  | nameTaken (name : String)
  | bootstrap
  | database
  | write
  deriving DecidableEq

/-- The texts of the placement errors. -/
def SiteError.text : SiteError → Option String
  | .noSuchInbound => some "no such inbound"
  | .noLocation => some ("an inbound must be placed on at least one node; " ++
      "disable the inbound instead of removing every location")
  | .noSuchNode id => some ("no such node: " ++ toString id)
  | .cannotDeleteLocal =>
      some "the local node represents this panel's own host and cannot be removed"
  | .stillServes n tags => some ("this node still serves " ++ toString n ++ " inbound(s) (" ++
      ", ".intercalate tags ++ "); move or remove them first")
  | .noName => some "a node needs a name"
  | .noAddress => some "a node needs an address to dial"
  | _ => none

/-- The statements of the services.  A deletion and a creation carry what they are of. -/
inductive SitePlace where
  | edit (place : EditPlace)
  | inbound
  | node (id : Nat)
  | existing
  | drop (row : InboundNode)
  | create (nodeId : Nat)
  | getNode | placed
  | tag (row : InboundNode)
  | deleteNode | names | insertNode
  deriving DecidableEq

/-- How a request on a site ends. -/
abbrev SiteReply := Except SiteError Unit

/-- A request as database statements. -/
abbrev SiteProg := Prog Site SitePlace SiteReply

/-! ## `SetForInbound` -/

/-- The nodes that are new, one after the other. -/
def createRest (inboundId : Nat) : List Nat → SiteProg
  | [] => pure (.ok ())
  | id :: rest => do
      if ← Prog.update? (.create id) (Site.place? inboundId id) then createRest inboundId rest
      else pure (.error .write)

/-- The rows that are no longer wanted, one after the other. -/
def dropRest (next : SiteProg) : List InboundNode → SiteProg
  | [] => next
  | e :: rest => do
      if ← Prog.update (.drop e) (Site.unplace e.id) then dropRest next rest
      else pure (.error .write)

/-- The nodes in the order in which the map is gone through. -/
def wantedOrder (nodeIds : List Nat) (pick : Nat) : List Nat :=
  (nodeIds.dedup.permutations[pick]?).getD nodeIds.dedup

/-- The placements asked for replace the others. -/
def reconcile (inboundId : Nat) (nodeIds : List Nat) (pick : Nat) (existing : List InboundNode) : SiteProg :=
  dropRest
    (createRest inboundId ((wantedOrder nodeIds pick).filter fun id =>
      !(existing.any fun e => decide (e.nodeId = id))))
    (existing.filter fun e => decide (e.nodeId ∉ nodeIds))

/-- The placements are read, then replaced. -/
def loadAndReconcile (inboundId : Nat) (nodeIds : List Nat) (pick : Nat) : SiteProg := do
  match ← Prog.select .existing fun s => s.placementsOf inboundId with
  | none => pure (.error .database)
  | some existing => reconcile inboundId nodeIds pick existing

/-- Each node has to be there. -/
def checkNodes (next : SiteProg) : List Nat → SiteProg
  | [] => next
  | id :: rest => do
      match ← Prog.select (.node id) fun s => s.hasNode id with
      | some true => checkNodes next rest
      | _ => pure (.error (.noSuchNode id))

/-- The nodes of an inbound are set. -/
def setForInbound (inboundId : Nat) (nodeIds : List Nat) (pick : Nat) : SiteProg := do
  match ← Prog.select .inbound fun s => s.hasInbound inboundId with
  | some true =>
      if nodeIds = [] then pure (.error .noLocation)
      else checkNodes (loadAndReconcile inboundId nodeIds pick) nodeIds
  | _ => pure (.error .noSuchInbound)

/-! ## Nodes -/

/-- The tags of the inbounds that are still placed; one that is not found is left out. -/
def collectTags (n : Nat) (tags : List String) : List InboundNode → SiteProg
  | [] => pure (.error (.stillServes n tags))
  | p :: rest => do
      let tag ← Prog.select (.tag p) fun s => (s.db.inbounds.find? p.inboundId).map (·.base.tag)
      collectTags n (tags ++ tag.join.toList) rest

/-- `Delete`, for a node that is not the local one. -/
def checkAndDeleteNode (id : Nat) : SiteProg := do
  match ← Prog.select .placed fun s => s.onNode id with
  | none => pure (.error .database)
  | some [] => do
      if ← Prog.update .deleteNode (Site.dropNode id) then pure (.ok ()) else pure (.error .write)
  | some (p :: rest) => collectTags (rest.length + 1) [] (p :: rest)

/-- A node is deleted with its placements. -/
def deleteNode (id : Nat) : SiteProg := do
  match ← Prog.select .getNode fun s => s.nodes.find? id with
  | some (some n) => if n.isLocal then pure (.error .cannotDeleteLocal) else checkAndDeleteNode id
  | _ => pure (.error .nodeNotFound)

/-- The name of the panel's own machine. -/
def localNodeName : String := "local"

/-- `Add`.  `bootstrapped` says whether the machine could be set up. -/
def addNode (name host : String) (bootstrapped : Bool) : SiteProg := do
  if trimSpace name = "" then pure (.error .noName)
  else if trimSpace host = "" then pure (.error .noAddress)
  else if name = localNodeName then pure (.error .reserved)
  else match ← Prog.select .names fun s => s.nodes.rows.any fun n => decide (n.name = name) with
    | none => pure (.error .database)
    | some true => pure (.error (.nameTaken name))
    | some false =>
        if bootstrapped then do
          if ← Prog.update? .insertNode (Site.insertNode? name host) then pure (.ok ())
          else pure (.error .write)
        else pure (.error .bootstrap)

/-! ## At the start -/

/-- The row of this host, which is made if it is not there. -/
def Site.localNode? (s : Site) : Option (Nat × Site) :=
  match s.nodes.rows.find? fun n => n.isLocal with
  | some n => some (n.id, s)
  | none =>
      -- the names of nodes are unique
      if s.nodes.rows.any fun n => n.name = localNodeName then none
      else (s.nodes.insert? { id := s.nextNode, name := localNodeName, isLocal := true }).map
        fun nodes => (s.nextNode, { s with nodes := nodes, nextNode := s.nextNode + 1 })

/-- Inbounds that are placed nowhere are placed on this host. -/
def seedRest (localId : Nat) : List Nat → Site → Option Site
  | [], s => some s
  | id :: rest, s =>
      if s.placementsOf id = [] then (s.place? id localId).bind (seedRest localId rest) else seedRest localId rest s

/-- `seedLocalNode`, which the panel does not start without. -/
def seedLocalNode (s : Site) : Option Site := do
  let (localId, s) ← s.localNode?
  seedRest localId (s.db.inbounds.rows.map (·.base.id)) s

/-! ## Runs -/

/-- What is asked of a site. -/
inductive SiteRequest where
  | addInbound (h : Host) (now : Int) (validate : Db → Option String) (form : InboundForm)
  | delInbound (h : Host) (id : Nat)
  | addNode (name host : String) (bootstrapped : Bool)
  | deleteNode (id : Nat)
  | setForInbound (inboundId : Nat) (nodeIds : List Nat) (pick : Nat)

/-- A request, and the placements when it came in. -/
structure SiteCall where
  request : SiteRequest
  before : List InboundNode

/-- Nobody else has touched the placements of the inbound, and it and the nodes are there if
they were. -/
def SetRely (inboundId : Nat) (nodeIds : List Nat) (s t : Site) : Prop :=
  t.placementsOf inboundId = s.placementsOf inboundId ∧
    (s.hasInbound inboundId = true → t.hasInbound inboundId = true) ∧
    ∀ n ∈ nodeIds, s.hasNode n = true → t.hasNode n = true

instance (inboundId : Nat) (nodeIds : List Nat) (s t : Site) : Decidable (SetRely inboundId nodeIds s t) :=
  inferInstanceAs (Decidable (_ ∧ _ ∧ _))

/-- What a request relies on. -/
def siteRely (c : SiteCall) (s t : Site) : Prop :=
  match c.request with
  | .setForInbound inboundId nodeIds _ => SetRely inboundId nodeIds s t
  | .deleteNode id => t.onNode id = s.onNode id
  | _ => True

instance siteRely.decidable : (c : SiteCall) → (s t : Site) → Decidable (siteRely c s t)
  | ⟨.setForInbound inboundId nodeIds _, _⟩, s, t => inferInstanceAs (Decidable (SetRely inboundId nodeIds s t))
  | ⟨.deleteNode id, _⟩, s, t => inferInstanceAs (Decidable (t.onNode id = s.onNode id))
  | ⟨.addInbound .., _⟩, _, _ | ⟨.delInbound .., _⟩, _, _ | ⟨.addNode .., _⟩, _, _ => isTrue trivial

/-- Requests under way. -/
abbrev SitePool := Pool SiteCall Site SitePlace SiteReply

/-- A request comes in, or one takes a turn. -/
inductive SiteEvent where
  | request (r : SiteRequest)
  | turn (k : Nat) (fails : SitePlace → Bool)

section

variable [Runtime]

/-- An edit of the inbounds. -/
def onInbounds (e : Edit) : SiteProg := do
  let reply ← e.lift Site.db (fun s db => { s with db := db }) SitePlace.edit
  pure (reply.mapError .inbound)

/-- The statements of a request. -/
def SiteRequest.prog : SiteRequest → SiteProg
  | .addInbound h now validate form => onInbounds (Edit.addInbound h now validate form)
  | .delInbound h id => onInbounds (Edit.delInbound h id)
  | .addNode name host bootstrapped => Panel.addNode name host bootstrapped
  | .deleteNode id => Panel.deleteNode id
  | .setForInbound inboundId nodeIds pick => Panel.setForInbound inboundId nodeIds pick

/-- The placements a request finds. -/
def SiteRequest.before (s : Site) : SiteRequest → List InboundNode
  | .setForInbound inboundId _ _ => s.placementsOf inboundId
  | _ => []

/-- A request comes in, or one that is under way takes its next turn. -/
def siteStep (P : SitePool) : SiteEvent → SitePool
  | .request r => P.spawn ⟨r, r.before P.store⟩ r.prog
  | .turn k fails => P.move siteRely k fails

/-! ### What is asked of a run -/

omit [Runtime] in
/-- Placements are of what exists, and every inbound has one. -/
structure Integrity (s : Site) : Prop where
  refers : ∀ p ∈ s.placements.rows, s.hasInbound p.inboundId = true ∧ s.hasNode p.nodeId = true
  placed : ∀ id, s.hasInbound id = true → ∃ p ∈ s.placements.rows, p.inboundId = id

omit [Runtime] in
/-- The inbound is placed on exactly the wanted nodes, and the rows that stay are the same. -/
def Exactly (inboundId : Nat) (nodeIds : List Nat) (before : List InboundNode) (s : Site) : Prop :=
  (∀ n, (∃ p ∈ s.placementsOf inboundId, p.nodeId = n) ↔ n ∈ nodeIds) ∧
    ∀ p ∈ before, p.nodeId ∈ nodeIds → p ∈ s.placementsOf inboundId

omit [Runtime] in
/-- What is asked of a turn: of one that ends a `SetForInbound`, that the placements are
exactly the wanted ones or, after a refusal, those from before; of a `Delete` that is about
to refuse, that an existing inbound is placed on the node. -/
def Settles (P : SitePool) : SiteEvent → Prop
  | .request _ => True
  | .turn k fails => ∀ th ∈ P.threads[k]?,
      match th.op.request with
      | .setForInbound inboundId nodeIds _ =>
          ∀ reply, th.prog ≠ pure reply → (th.prog.attempt fails P.store).2 = pure reply →
            match reply with
            | .ok _ => Exactly inboundId nodeIds th.op.before (th.prog.attempt fails P.store).1
            | .error _ => (th.prog.attempt fails P.store).1.placementsOf inboundId = th.op.before
      | .deleteNode id => th.prog.place? = some .placed → fails .placed = false →
          P.store.onNode id ≠ [] → ∃ p ∈ P.store.onNode id, P.store.hasInbound p.inboundId = true
      | _ => True

omit [Runtime] in
/-- No inbound is added or removed; a node is removed only by a `Delete` under which nothing
was placed on it; a `SetForInbound` is left alone, does not delete the last placement and
fails, if it does, before its first write. -/
def OrderlySite (P : SitePool) : SiteEvent → Prop
  | .request _ => True
  | .turn k fails => ∀ th ∈ P.threads[k]?,
      match th.op.request with
      | .addInbound .. | .delInbound .. =>
          ∀ id, (th.prog.attempt fails P.store).1.hasInbound id = P.store.hasInbound id
      | .addNode .. => True
      | .deleteNode _ => th.undisturbed = true ∨ (th.prog.attempt fails P.store).1.nodes = P.store.nodes
      | .setForInbound inboundId _ _ => th.undisturbed = true ∧
          (∀ e, th.prog.place? = some (.drop e) → fails (.drop e) = false →
            ∃ p ∈ P.store.placementsOf inboundId, p.id ≠ e.id) ∧
          ((th.prog.attempt fails P.store).2 = pure (.error .write) →
            P.store.placementsOf inboundId = th.op.before)

/-! ## Placements after a write -/

section Writes

omit [Runtime]

variable {s t : Site} {inboundId nodeId : Nat}

theorem mem_placementsOf {p : InboundNode} :
    p ∈ s.placementsOf inboundId ↔ p ∈ s.placements.rows ∧ p.inboundId = inboundId := by
  simp [Site.placementsOf, List.mem_filter]

theorem mem_onNode {p : InboundNode} : p ∈ s.onNode nodeId ↔ p ∈ s.placements.rows ∧ p.nodeId = nodeId := by
  simp [Site.onNode, List.mem_filter]

/-- A new placement is one more row, and nothing else. -/
theorem place?_eq_some (h : s.place? inboundId nodeId = some t) :
    t.db = s.db ∧ t.nodes = s.nodes ∧ ∃ p : InboundNode, p.inboundId = inboundId ∧ p.nodeId = nodeId ∧
      ∀ q, q ∈ t.placements.rows ↔ q ∈ s.placements.rows ∨ q = p := by
  unfold Site.place? at h
  split at h
  · cases h
  · obtain ⟨placements, hinsert, rfl⟩ := Option.map_eq_some_iff.1 h
    obtain ⟨-, hrows⟩ := Table.insert?_eq_some hinsert
    refine ⟨rfl, rfl, { id := s.nextPlacement, inboundId := inboundId, nodeId := nodeId }, rfl, rfl,
      fun q => ?_⟩
    simp [hrows]

theorem mem_unplace {id : Nat} {p : InboundNode} :
    p ∈ (s.unplace id).placements.rows ↔ p ∈ s.placements.rows ∧ p.id ≠ id := by
  rw [Site.unplace, Table.mem_erase]

theorem mem_placementsOf_unplace {id : Nat} {p : InboundNode} :
    p ∈ (s.unplace id).placementsOf inboundId ↔ p ∈ s.placementsOf inboundId ∧ p.id ≠ id := by
  rw [mem_placementsOf, mem_placementsOf, mem_unplace]
  tauto

end Writes

/-! ## `SetForInbound` when it is left alone -/

section Set

omit [Runtime]

variable {inboundId : Nat} {nodeIds : List Nat} {before : List InboundNode} {s t : Site}

theorem SetRely.refl (inboundId : Nat) (nodeIds : List Nat) (s : Site) : SetRely inboundId nodeIds s s :=
  ⟨rfl, fun h => h, fun _ _ h => h⟩

theorem SetRely.trans (inboundId : Nat) (nodeIds : List Nat) (s t u : Site)
    (hst : SetRely inboundId nodeIds s t) (htu : SetRely inboundId nodeIds t u) :
    SetRely inboundId nodeIds s u :=
  ⟨htu.1.trans hst.1, fun h => htu.2.1 (hst.2.1 h), fun n hn h => htu.2.2 n hn (hst.2.2 n hn h)⟩

/-- A turn that changes something deletes a row of the inbound, or adds one for a node that
is there; it is not the one that ends in an error. -/
def SetTurn (inboundId : Nat) (p : SiteProg) (s : Site) (q : SiteProg) (t : Site) : Prop :=
  t = s ∨ (∀ e, q ≠ pure (.error e)) ∧
    ((∃ e ∈ s.placementsOf inboundId, (∃ k, p = Prog.update (.drop e) (Site.unplace e.id) >>= k) ∧
        t = s.unplace e.id) ∨
      ∃ n, s.hasInbound inboundId = true ∧ s.hasNode n = true ∧ s.place? inboundId n = some t)

/-- Where it ends: with the wanted placements, or, unless a write failed, with the old ones. -/
def SetEnd (inboundId : Nat) (nodeIds : List Nat) (before : List InboundNode) (reply : SiteReply)
    (s : Site) : Prop :=
  match reply with
  | .ok _ => Exactly inboundId nodeIds before s
  | .error e => e ≠ .write → s.placementsOf inboundId = before

/-- The inbound is there, and so are the nodes. -/
def AllThere (inboundId : Nat) (nodeIds : List Nat) (s : Site) : Prop :=
  s.hasInbound inboundId = true ∧ ∀ n ∈ nodeIds, s.hasNode n = true

theorem AllThere.of_rely (h : AllThere inboundId nodeIds s) (hst : SetRely inboundId nodeIds s t) :
    AllThere inboundId nodeIds t := ⟨hst.2.1 h.1, fun n hn => hst.2.2 n hn (h.2 n hn)⟩

theorem SetTurn.still (inboundId : Nat) (p q : SiteProg) (s : Site) : SetTurn inboundId p s q s := Or.inl rfl

theorem SetEnd.of_rely {reply : SiteReply} (h : SetEnd inboundId nodeIds before reply s)
    (hst : SetRely inboundId nodeIds s t) : SetEnd inboundId nodeIds before reply t := by
  cases reply with
  | ok _ =>
      refine ⟨fun n => ?_, fun p hp hn => ?_⟩
      · rw [hst.1]
        exact h.1 n
      · rw [hst.1]
        exact h.2 p hp hn
  | error e =>
      intro hne
      rw [hst.1]
      exact h hne

theorem outline_setEnd {reply : SiteReply} (h : SetEnd inboundId nodeIds before reply s) :
    Prog.Outline (SetRely inboundId nodeIds) (SetTurn inboundId) (SetEnd inboundId nodeIds before)
      (pure reply : SiteProg) s := .done fun _ hst => h.of_rely hst

theorem outline_writeError (s : Site) :
    Prog.Outline (SetRely inboundId nodeIds) (SetTurn inboundId) (SetEnd inboundId nodeIds before)
      (pure (.error .write) : SiteProg) s := outline_setEnd fun h => absurd rfl h

/-- What has been placed while `rest` is still to come. -/
structure Placing (inboundId : Nat) (nodeIds : List Nat) (before : List InboundNode) (rest : List Nat)
    (s : Site) : Prop where
  nodes : ∀ n, (∃ p ∈ s.placementsOf inboundId, p.nodeId = n) ↔ n ∈ nodeIds ∧ n ∉ rest
  kept : ∀ p ∈ before, p.nodeId ∈ nodeIds → p ∈ s.placementsOf inboundId

theorem Placing.of_rely {rest : List Nat} (h : Placing inboundId nodeIds before rest s)
    (hst : SetRely inboundId nodeIds s t) : Placing inboundId nodeIds before rest t where
  nodes n := by
    rw [hst.1]
    exact h.nodes n
  kept p hp hn := by
    rw [hst.1]
    exact h.kept p hp hn

theorem Placing.place {rest : List Nat} {n : Nat} (h : Placing inboundId nodeIds before (n :: rest) s)
    (hn : n ∈ nodeIds) (hrest : n ∉ rest) (hplace : s.place? inboundId n = some t) :
    Placing inboundId nodeIds before rest t := by
  obtain ⟨-, -, p, hinbound, hnode, hrows⟩ := place?_eq_some hplace
  have hmem : ∀ q, q ∈ t.placementsOf inboundId ↔ q ∈ s.placementsOf inboundId ∨ q = p := by
    intro q
    rw [mem_placementsOf, mem_placementsOf, hrows]
    constructor
    · rintro ⟨hq | hq, hid⟩
      · exact Or.inl ⟨hq, hid⟩
      · exact Or.inr hq
    · rintro (⟨hq, hid⟩ | rfl)
      · exact ⟨Or.inl hq, hid⟩
      · exact ⟨Or.inr rfl, hinbound⟩
  refine ⟨fun m => ?_, fun q hq hm => (hmem q).2 (Or.inl (h.kept q hq hm))⟩
  constructor
  · rintro ⟨q, hq, rfl⟩
    rcases (hmem q).1 hq with hq | rfl
    · obtain ⟨hin, hout⟩ := (h.nodes q.nodeId).1 ⟨q, hq, rfl⟩
      exact ⟨hin, fun hr => hout (List.mem_cons_of_mem _ hr)⟩
    · rw [hnode]
      exact ⟨hn, hrest⟩
  · rintro ⟨hin, hout⟩
    by_cases hm : m = n
    · exact ⟨p, (hmem p).2 (Or.inr rfl), hnode.trans hm.symm⟩
    · obtain ⟨q, hq, hqm⟩ := (h.nodes m).2 ⟨hin, by simp [hm, hout]⟩
      exact ⟨q, (hmem q).2 (Or.inl hq), hqm⟩

theorem outline_createRest {rest : List Nat} (hrest : rest.Nodup) (hsub : ∀ n ∈ rest, n ∈ nodeIds)
    (hready : AllThere inboundId nodeIds s) (h : Placing inboundId nodeIds before rest s) :
    Prog.Outline (SetRely inboundId nodeIds) (SetTurn inboundId) (SetEnd inboundId nodeIds before)
      (createRest inboundId rest) s := by
  induction rest generalizing s with
  | nil => exact outline_setEnd ⟨fun n => by simpa using h.nodes n, h.kept⟩
  | cons n rest ih =>
      refine Prog.Outline.update? (SetTurn.still inboundId) (SitePlace.create n) _ _ fun t ht =>
        ⟨fun u hu => ?_, outline_writeError t⟩
      have hready := hready.of_rely ht
      obtain ⟨hdb, hnodes, -⟩ := place?_eq_some hu
      have hn := hsub n List.mem_cons_self
      refine ⟨Or.inr ⟨?_, Or.inr ⟨n, hready.1, hready.2 n hn, hu⟩⟩, ?_⟩
      · intro e he
        cases rest <;> cases he
      · refine ih (List.nodup_cons.1 hrest).2 (fun m hm => hsub m (List.mem_cons_of_mem _ hm)) ?_
          ((h.of_rely ht).place hn (List.nodup_cons.1 hrest).1 hu)
        exact ⟨by simpa [Site.hasInbound, hdb] using hready.1,
          fun m hm => by simpa [Site.hasNode, hnodes] using hready.2 m hm⟩

/-- What is left while the rows `rest` are still to go. -/
def Dropping (inboundId : Nat) (nodeIds : List Nat) (before rest : List InboundNode) (s : Site) : Prop :=
  ∀ p, p ∈ s.placementsOf inboundId ↔ p ∈ before ∧ (p.nodeId ∈ nodeIds ∨ p ∈ rest)

theorem Dropping.unplace {e : InboundNode} {rest : List InboundNode}
    (hids : ∀ p ∈ before, ∀ q ∈ before, p.id = q.id → p = q) (he : e ∈ before) (hunwanted : e.nodeId ∉ nodeIds)
    (hrest : e ∉ rest) (h : Dropping inboundId nodeIds before (e :: rest) s) :
    Dropping inboundId nodeIds before rest (s.unplace e.id) := by
  intro p
  rw [mem_placementsOf_unplace, h p]
  constructor
  · rintro ⟨⟨hp, hstays⟩, hid⟩
    refine ⟨hp, hstays.imp_right fun hr => ?_⟩
    rcases List.mem_cons.1 hr with rfl | hr
    · exact absurd rfl hid
    · exact hr
  · rintro ⟨hp, hstays⟩
    refine ⟨⟨hp, hstays.imp_right fun hr => List.mem_cons_of_mem _ hr⟩, fun hid => ?_⟩
    obtain rfl := hids p hp e he hid
    exact hstays.elim hunwanted hrest

theorem outline_dropRest {next : SiteProg} {rest : List InboundNode}
    (hids : ∀ p ∈ before, ∀ q ∈ before, p.id = q.id → p = q) (hrest : rest.Nodup)
    (hsub : ∀ e ∈ rest, e ∈ before ∧ e.nodeId ∉ nodeIds) (hne : ∀ e, next ≠ pure (.error e))
    (hnext : ∀ t, AllThere inboundId nodeIds t → Dropping inboundId nodeIds before [] t →
      Prog.Outline (SetRely inboundId nodeIds) (SetTurn inboundId) (SetEnd inboundId nodeIds before) next t)
    (hready : AllThere inboundId nodeIds s) (h : Dropping inboundId nodeIds before rest s) :
    Prog.Outline (SetRely inboundId nodeIds) (SetTurn inboundId) (SetEnd inboundId nodeIds before)
      (dropRest next rest) s := by
  induction rest generalizing s with
  | nil => exact hnext s hready h
  | cons e rest ih =>
      obtain ⟨he, hunwanted⟩ := hsub e List.mem_cons_self
      refine Prog.Outline.update (SetTurn.still inboundId) (SitePlace.drop e) _ _ fun t ht =>
        ⟨⟨?_, ?_⟩, outline_writeError t⟩
      · have hmem : e ∈ t.placementsOf inboundId := by
          rw [ht.1]
          exact (h e).2 ⟨he, Or.inr List.mem_cons_self⟩
        refine Or.inr ⟨fun err herr => ?_, Or.inl ⟨e, hmem, ⟨_, rfl⟩, rfl⟩⟩
        cases rest with
        | nil => exact hne err herr
        | cons => cases herr
      · have hhere : Dropping inboundId nodeIds before (e :: rest) t := by
          intro p
          rw [ht.1]
          exact h p
        have hthere : AllThere inboundId nodeIds t := hready.of_rely ht
        exact ih (List.nodup_cons.1 hrest).2 (fun e' he' => hsub e' (List.mem_cons_of_mem _ he'))
          ⟨hthere.1, hthere.2⟩ (hhere.unplace hids he hunwanted (List.nodup_cons.1 hrest).1)

theorem wantedOrder_perm (nodeIds : List Nat) (pick : Nat) : (wantedOrder nodeIds pick).Perm nodeIds.dedup := by
  unfold wantedOrder
  cases h : nodeIds.dedup.permutations[pick]? with
  | none => exact List.Perm.refl _
  | some order => exact List.mem_permutations.1 (List.mem_of_getElem? h)

theorem outline_reconcile {pick : Nat} (hready : AllThere inboundId nodeIds s)
    (hbefore : s.placementsOf inboundId = before) :
    Prog.Outline (SetRely inboundId nodeIds) (SetTurn inboundId) (SetEnd inboundId nodeIds before)
      (reconcile inboundId nodeIds pick before) s := by
  have horder := wantedOrder_perm nodeIds pick
  have hids : ∀ p ∈ before, ∀ q ∈ before, p.id = q.id → p = q := by
    intro p hp q hq hid
    rw [← hbefore] at hp hq
    exact Table.eq_of_key_eq (mem_placementsOf.1 hp).1 (mem_placementsOf.1 hq).1 hid
  have hnodup : before.Nodup := by
    rw [← hbefore]
    exact List.Nodup.filter _ (List.Nodup.of_map _ s.placements.unique)
  refine outline_dropRest hids (hnodup.filter _) ?_ ?_ ?_ hready ?_
  · intro e he
    simpa [List.mem_filter] using he
  · intro e he
    generalize (wantedOrder nodeIds pick).filter (fun id => !(before.any fun e => decide (e.nodeId = id))) = rest at he
    cases rest <;> cases he
  · intro t hready ht
    refine outline_createRest ?_ ?_ hready ⟨fun n => ?_, fun p hp hn => (ht p).2 ⟨hp, Or.inl hn⟩⟩
    · exact (horder.nodup_iff.2 (List.nodup_dedup _)).filter _
    · intro n hn
      exact List.mem_dedup.1 (horder.mem_iff.1 (List.mem_filter.1 hn).1)
    · have hrest : n ∈ (wantedOrder nodeIds pick).filter (fun id => !(before.any fun e => decide (e.nodeId = id))) ↔
          n ∈ nodeIds ∧ ∀ e ∈ before, e.nodeId ≠ n := by
        rw [List.mem_filter, horder.mem_iff, List.mem_dedup, Bool.not_eq_true', List.any_eq_false]
        simp only [decide_eq_true_eq, ne_eq]
      rw [hrest]
      constructor
      · rintro ⟨p, hp, rfl⟩
        obtain ⟨hp, hstays⟩ := (ht p).1 hp
        have hn : p.nodeId ∈ nodeIds := hstays.resolve_right List.not_mem_nil
        exact ⟨hn, fun hno => hno.2 p hp rfl⟩
      · rintro ⟨hn, hno⟩
        by_contra hnone
        refine hno ⟨hn, fun e he heq => hnone ⟨e, (ht e).2 ⟨he, Or.inl (heq ▸ hn)⟩, heq⟩⟩
  · intro p
    rw [hbefore, List.mem_filter, decide_eq_true_eq]
    tauto

theorem outline_checkNodes {next : SiteProg} {rest : List Nat}
    (hnext : ∀ t, AllThere inboundId nodeIds t → t.placementsOf inboundId = before →
      Prog.Outline (SetRely inboundId nodeIds) (SetTurn inboundId) (SetEnd inboundId nodeIds before) next t)
    (hinbound : s.hasInbound inboundId = true) (hchecked : ∀ n ∈ nodeIds, n ∉ rest → s.hasNode n = true)
    (hbefore : s.placementsOf inboundId = before) :
    Prog.Outline (SetRely inboundId nodeIds) (SetTurn inboundId) (SetEnd inboundId nodeIds before)
      (checkNodes next rest) s := by
  induction rest generalizing s with
  | nil => exact hnext s ⟨hinbound, fun n hn => hchecked n hn List.not_mem_nil⟩ hbefore
  | cons n rest ih =>
      refine Prog.Outline.select (SetTurn.still inboundId) (SitePlace.node n) _ _ fun t ht => ?_
      have hsame : t.placementsOf inboundId = before := ht.1.trans hbefore
      refine ⟨?_, outline_setEnd fun _ => hsame⟩
      cases hnode : t.hasNode n with
      | false => exact outline_setEnd fun _ => hsame
      | true =>
          refine ih (ht.2.1 hinbound) (fun m hm hout => ?_) hsame
          by_cases hmn : m = n
          · rw [hmn]
            exact hnode
          · exact ht.2.2 m hm (hchecked m hm (by simp [hmn, hout]))

theorem outline_setForInbound (pick : Nat) (hbefore : s.placementsOf inboundId = before) :
    Prog.Outline (SetRely inboundId nodeIds) (SetTurn inboundId) (SetEnd inboundId nodeIds before)
      (setForInbound inboundId nodeIds pick) s := by
  refine Prog.Outline.select (SetTurn.still inboundId) SitePlace.inbound _ _ fun t ht => ?_
  have hsame : t.placementsOf inboundId = before := ht.1.trans hbefore
  refine ⟨?_, outline_setEnd fun _ => hsame⟩
  cases hinbound : t.hasInbound inboundId with
  | false => exact outline_setEnd fun _ => hsame
  | true =>
      show Prog.Outline _ _ _ (if nodeIds = [] then _ else _ : SiteProg) t
      split
      · exact outline_setEnd fun _ => hsame
      · refine outline_checkNodes (fun u hready hu => ?_) hinbound (fun n hn hout => absurd hn hout) hsame
        refine Prog.Outline.select (SetTurn.still inboundId) SitePlace.existing _ _ fun v hv => ?_
        have hsame : v.placementsOf inboundId = before := hv.1.trans hu
        refine ⟨?_, outline_setEnd fun _ => hsame⟩
        rw [hsame]
        exact outline_reconcile (hready.of_rely hv) hsame

end Set

/-! ## `Delete` when it is left alone -/

section Delete

omit [Runtime]

/-- A turn that changes something removes a node nothing is placed on. -/
def DeleteTurn (id : Nat) (_ : SiteProg) (s : Site) (_ : SiteProg) (t : Site) : Prop :=
  t = s ∨ s.onNode id = [] ∧ t = s.dropNode id

/-- Nothing is asked of the end. -/
def AnySiteEnd (_ : SiteReply) (_ : Site) : Prop := True

theorem outline_deleteEnd {id : Nat} (reply : SiteReply) (s : Site) :
    Prog.Outline (fun s t => t.onNode id = s.onNode id) (DeleteTurn id) AnySiteEnd (pure reply : SiteProg) s :=
  .done fun _ _ => trivial

theorem DeleteTurn.still (id : Nat) (p q : SiteProg) (s : Site) : DeleteTurn id p s q s := Or.inl rfl

theorem outline_collectTags {id n : Nat} {tags : List String} {rest : List InboundNode} (s : Site) :
    Prog.Outline (fun s t => t.onNode id = s.onNode id) (DeleteTurn id) AnySiteEnd (collectTags n tags rest) s := by
  induction rest generalizing tags s with
  | nil => exact outline_deleteEnd _ s
  | cons p rest ih =>
      exact Prog.Outline.select (DeleteTurn.still id) (SitePlace.tag p) _ _ fun t _ => ⟨ih t, ih t⟩

theorem outline_deleteNode (id : Nat) (s : Site) :
    Prog.Outline (fun s t => t.onNode id = s.onNode id) (DeleteTurn id) AnySiteEnd (deleteNode id) s := by
  refine Prog.Outline.select (DeleteTurn.still id) SitePlace.getNode _ _ fun t _ => ⟨?_, outline_deleteEnd _ t⟩
  cases t.nodes.find? id with
  | none => exact outline_deleteEnd _ t
  | some n =>
      show Prog.Outline _ _ _ (if n.isLocal = true then _ else _ : SiteProg) t
      split
      · exact outline_deleteEnd _ t
      · refine Prog.Outline.select (DeleteTurn.still id) SitePlace.placed _ _ fun u _ => ⟨?_, outline_deleteEnd _ u⟩
        cases hplaced : u.onNode id with
        | cons p rest => exact outline_collectTags u
        | nil =>
            refine Prog.Outline.update (DeleteTurn.still id) SitePlace.deleteNode _ _ fun v hv =>
              ⟨⟨Or.inr ⟨hv.trans hplaced, rfl⟩, outline_deleteEnd _ _⟩, outline_deleteEnd _ v⟩

end Delete

/-! ## What every request keeps to -/

omit [Runtime] in
/-- What a turn of each request may do, whatever the others have done. -/
def siteKind (c : SiteCall) (s t : Site) : Prop :=
  match c.request with
  | .addInbound .. | .delInbound .. => t.nodes = s.nodes ∧ t.placements = s.placements
  | .addNode .. => t.db = s.db ∧ t.placements = s.placements ∧ ∀ n, s.hasNode n = true → t.hasNode n = true
  | .deleteNode _ => t.db = s.db ∧ t.placements = s.placements
  | .setForInbound .. => True

omit [Runtime] in
/-- What a turn of each request does when it was left alone. -/
def siteGuar (c : SiteCall) (p : SiteProg) (s : Site) (q : SiteProg) (t : Site) : Prop :=
  match c.request with
  | .deleteNode id => DeleteTurn id p s q t
  | .setForInbound inboundId _ _ => SetTurn inboundId p s q t
  | _ => True

omit [Runtime] in
/-- Where each request ends when it was left alone. -/
def siteEnd (c : SiteCall) (reply : SiteReply) (s : Site) : Prop :=
  match c.request with
  | .setForInbound inboundId nodeIds _ => SetEnd inboundId nodeIds c.before reply s
  | _ => True

section Kinds

omit [Runtime]

theorem siteRely.refl (c : SiteCall) (s : Site) : siteRely c s s := by
  obtain ⟨r, before⟩ := c
  cases r with
  | setForInbound inboundId nodeIds pick => exact SetRely.refl inboundId nodeIds s
  | deleteNode id => exact rfl
  | addInbound | delInbound | addNode => trivial

theorem siteRely.trans (c : SiteCall) (s t u : Site) (hst : siteRely c s t) (htu : siteRely c t u) :
    siteRely c s u := by
  obtain ⟨r, before⟩ := c
  cases r with
  | setForInbound inboundId nodeIds pick => exact SetRely.trans inboundId nodeIds s t u hst htu
  | deleteNode id => exact Eq.trans htu hst
  | addInbound | delInbound | addNode => trivial

theorem siteGuar.still (c : SiteCall) (p q : SiteProg) (s : Site) : siteGuar c p s q s := by
  obtain ⟨r, before⟩ := c
  cases r with
  | setForInbound inboundId nodeIds pick => exact SetTurn.still inboundId p q s
  | deleteNode id => exact DeleteTurn.still id p q s
  | addInbound | delInbound | addNode => trivial

theorem siteKind.refl (c : SiteCall) (s : Site) : siteKind c s s := by
  obtain ⟨r, before⟩ := c
  cases r with
  | setForInbound => trivial
  | deleteNode id => exact ⟨rfl, rfl⟩
  | addNode => exact ⟨rfl, rfl, fun _ h => h⟩
  | addInbound | delInbound => exact ⟨rfl, rfl⟩

theorem siteKind.trans (c : SiteCall) (s t u : Site) (hst : siteKind c s t) (htu : siteKind c t u) :
    siteKind c s u := by
  obtain ⟨r, before⟩ := c
  cases r with
  | setForInbound => trivial
  | deleteNode id => exact ⟨htu.1.trans hst.1, htu.2.trans hst.2⟩
  | addNode => exact ⟨htu.1.trans hst.1, htu.2.1.trans hst.2.1, fun n h => htu.2.2 n (hst.2.2 n h)⟩
  | addInbound | delInbound => exact ⟨htu.1.trans hst.1, htu.2.trans hst.2⟩

theorem hasNode_insertNode? {name address : String} {s t : Site} (h : s.insertNode? name address = some t) :
    t.db = s.db ∧ t.placements = s.placements ∧ ∀ n, s.hasNode n = true → t.hasNode n = true := by
  unfold Site.insertNode? at h
  split at h
  · cases h
  · obtain ⟨nodes, hinsert, rfl⟩ := Option.map_eq_some_iff.1 h
    refine ⟨rfl, rfl, fun n hn => ?_⟩
    simp only [Site.hasNode] at hn ⊢
    rw [Table.find?_insert? hinsert]
    split
    · rfl
    · exact hn

theorem keeps_addNode (name host : String) (bootstrapped : Bool) (before : List InboundNode) :
    (addNode name host bootstrapped).Keeps (siteKind ⟨.addNode name host bootstrapped, before⟩) := by
  unfold addNode
  -- so that a split does not go about trimming
  generalize trimSpace name = trimmedName
  generalize trimSpace host = trimmedHost
  split
  · exact Prog.keeps_pure _
  split
  · exact Prog.keeps_pure _
  split
  · exact Prog.keeps_pure _
  refine Prog.Keeps.bind (Prog.keeps_select SitePlace.names _) fun taken => ?_
  rcases taken with _ | _ | _
  · exact Prog.keeps_pure _
  · dsimp only
    split
    · have hinsert : ∀ s t, Site.insertNode? name host s = some t →
          siteKind ⟨.addNode name host bootstrapped, before⟩ s t := fun s t h => hasNode_insertNode? h
      refine Prog.Keeps.bind (Prog.keeps_update? hinsert SitePlace.insertNode) fun ok => ?_
      cases ok <;> exact Prog.keeps_pure _
    · exact Prog.keeps_pure _
  · exact Prog.keeps_pure _

theorem keeps_collectTags {kind : Site → Site → Prop} {n : Nat} {tags : List String} {rest : List InboundNode} :
    (collectTags n tags rest).Keeps kind := by
  induction rest generalizing tags with
  | nil => exact Prog.keeps_pure _
  | cons p rest ih => exact Prog.Keeps.bind (Prog.keeps_select (SitePlace.tag p) _) fun _ => ih

theorem keeps_deleteNode (id : Nat) (before : List InboundNode) :
    (deleteNode id).Keeps (siteKind ⟨.deleteNode id, before⟩) := by
  refine Prog.Keeps.bind (Prog.keeps_select SitePlace.getNode _) fun node => ?_
  rcases node with _ | _ | n
  · exact Prog.keeps_pure _
  · exact Prog.keeps_pure _
  · dsimp only
    split
    · exact Prog.keeps_pure _
    · refine Prog.Keeps.bind (Prog.keeps_select SitePlace.placed _) fun placed => ?_
      rcases placed with _ | _ | ⟨p, rest⟩
      · exact Prog.keeps_pure _
      · refine Prog.Keeps.bind (Prog.keeps_update (fun s => ⟨rfl, rfl⟩) SitePlace.deleteNode) fun ok => ?_
        cases ok <;> exact Prog.keeps_pure _
      · exact keeps_collectTags

end Kinds

theorem keeps_prog (r : SiteRequest) (before : List InboundNode) : r.prog.Keeps (siteKind ⟨r, before⟩) := by
  cases r with
  | addInbound h now validate form =>
      exact Prog.Keeps.bind (Prog.keeps_lift (fun _ _ => ⟨rfl, rfl⟩) _) fun _ => Prog.keeps_pure _
  | delInbound h id =>
      exact Prog.Keeps.bind (Prog.keeps_lift (fun _ _ => ⟨rfl, rfl⟩) _) fun _ => Prog.keeps_pure _
  | addNode name host bootstrapped => exact keeps_addNode name host bootstrapped before
  | deleteNode id => exact keeps_deleteNode id before
  | setForInbound inboundId nodeIds pick => exact Prog.keeps_of_forall (fun _ _ => trivial) _

theorem outline_prog (r : SiteRequest) (s : Site) :
    r.prog.Outline (siteRely ⟨r, r.before s⟩) (siteGuar ⟨r, r.before s⟩) (siteEnd ⟨r, r.before s⟩) s := by
  have htrivial : ∀ p : SiteProg, Prog.Outline (fun _ _ => True) (fun _ _ _ _ => True) (fun _ _ => True) p s :=
    fun p => Prog.Keeps.outline (fun _ => trivial) (fun _ _ _ _ _ => trivial)
      (Prog.keeps_of_forall (fun _ _ => trivial) p) s
  cases r with
  | addInbound h now validate form => exact htrivial _
  | delInbound h id => exact htrivial _
  | addNode name host bootstrapped => exact htrivial _
  | deleteNode id => exact outline_deleteNode id s
  | setForInbound inboundId nodeIds pick => exact outline_setForInbound pick rfl

/-! ## Integrity after a turn -/

section Integrity

omit [Runtime]

variable {s t : Site}

theorem Integrity.inbounds (h : Integrity s) (hnodes : t.nodes = s.nodes) (hplacements : t.placements = s.placements)
    (hinbounds : ∀ id, t.hasInbound id = s.hasInbound id) : Integrity t where
  refers p hp := by
    rw [hplacements] at hp
    rw [hinbounds, Site.hasNode, hnodes]
    exact h.refers p hp
  placed id hid := by
    rw [hplacements]
    exact h.placed id (by rw [← hinbounds]; exact hid)

theorem Integrity.addNode (h : Integrity s) (hdb : t.db = s.db) (hplacements : t.placements = s.placements)
    (hnodes : ∀ n, s.hasNode n = true → t.hasNode n = true) : Integrity t where
  refers p hp := by
    rw [hplacements] at hp
    obtain ⟨hinbound, hnode⟩ := h.refers p hp
    exact ⟨by simpa [Site.hasInbound, hdb] using hinbound, hnodes _ hnode⟩
  placed id hid := by
    rw [hplacements]
    exact h.placed id (by simpa [Site.hasInbound, hdb] using hid)

theorem Integrity.deleteTurn {id : Nat} {p q : SiteProg} (h : Integrity s) (hturn : DeleteTurn id p s q t) :
    Integrity t := by
  rcases hturn with rfl | ⟨hempty, rfl⟩
  · exact h
  · refine ⟨fun p hp => ?_, h.placed⟩
    obtain ⟨hinbound, hnode⟩ := h.refers p hp
    have hne : p.nodeId ≠ id := by
      intro hid
      have hmem : p ∈ s.onNode id := mem_onNode.2 ⟨hp, hid⟩
      rw [hempty] at hmem
      cases hmem
    refine ⟨hinbound, ?_⟩
    simpa [Site.hasNode, Site.dropNode, Table.find?_erase_of_ne hne] using hnode

/-- A row of an inbound and a node that are there. -/
theorem Integrity.refers_place {inboundId n : Nat}
    (h : ∀ p ∈ s.placements.rows, s.hasInbound p.inboundId = true ∧ s.hasNode p.nodeId = true)
    (hinbound : s.hasInbound inboundId = true) (hnode : s.hasNode n = true)
    (hplace : s.place? inboundId n = some t) :
    ∀ p ∈ t.placements.rows, t.hasInbound p.inboundId = true ∧ t.hasNode p.nodeId = true := by
  obtain ⟨hdb, hnodes, r, hrid, hrnode, hrows⟩ := place?_eq_some hplace
  intro p hp
  simp only [Site.hasInbound, Site.hasNode, hdb, hnodes]
  rcases (hrows p).1 hp with hp | rfl
  · exact h p hp
  · rw [hrid, hrnode]
    exact ⟨hinbound, hnode⟩

theorem Integrity.setTurn {inboundId : Nat} {p q : SiteProg} (h : Integrity s) (hturn : SetTurn inboundId p s q t)
    (hlast : ∀ e k, p = Prog.update (.drop e) (Site.unplace e.id) >>= k → t ≠ s →
      ∃ r ∈ s.placementsOf inboundId, r.id ≠ e.id) :
    Integrity t := by
  rcases hturn with rfl | ⟨-, ⟨e, he, ⟨k, hplace⟩, rfl⟩ | ⟨n, hinbound, hnode, hplaced⟩⟩
  · exact h
  · have hchanged : s.unplace e.id ≠ s := by
      intro hsame
      have hmem := (mem_placementsOf.1 he).1
      rw [← hsame] at hmem
      exact (mem_unplace.1 hmem).2 rfl
    refine ⟨fun r hr => h.refers r (mem_unplace.1 hr).1, fun id hid => ?_⟩
    by_cases hsame : id = inboundId
    · obtain ⟨r, hr, hne⟩ := hlast e k hplace hchanged
      obtain ⟨hr, hrid⟩ := mem_placementsOf.1 hr
      exact ⟨r, mem_unplace.2 ⟨hr, hne⟩, hrid.trans hsame.symm⟩
    · obtain ⟨r, hr, hrid⟩ := h.placed id hid
      refine ⟨r, mem_unplace.2 ⟨hr, fun hre => hsame ?_⟩, hrid⟩
      obtain ⟨hmem, heid⟩ := mem_placementsOf.1 he
      rw [← hrid, ← heid, Table.eq_of_key_eq hr hmem hre]
  · refine ⟨Integrity.refers_place h.refers hinbound hnode hplaced, fun id hid => ?_⟩
    obtain ⟨hdb, -, r, -, -, hrows⟩ := place?_eq_some hplaced
    obtain ⟨r', hr', hid'⟩ := h.placed id (by simpa [Site.hasInbound, hdb] using hid)
    exact ⟨r', (hrows r').2 (Or.inl hr'), hid'⟩

theorem seedRest_sound {localId : Nat} {ids : List Nat} (hlocal : s.hasNode localId = true)
    (hids : ∀ id ∈ ids, s.hasInbound id = true)
    (h : ∀ p ∈ s.placements.rows, s.hasInbound p.inboundId = true ∧ s.hasNode p.nodeId = true)
    (hseed : seedRest localId ids s = some t) :
    t.db = s.db ∧ (∀ p ∈ t.placements.rows, t.hasInbound p.inboundId = true ∧ t.hasNode p.nodeId = true) ∧
      (∀ p ∈ s.placements.rows, p ∈ t.placements.rows) ∧
      ∀ id ∈ ids, ∃ p ∈ t.placements.rows, p.inboundId = id := by
  induction ids generalizing s with
  | nil =>
      cases hseed
      exact ⟨rfl, h, fun _ hp => hp, fun _ hid => absurd hid List.not_mem_nil⟩
  | cons id rest ih =>
      have hrest : ∀ id ∈ rest, s.hasInbound id = true := fun id hid => hids id (List.mem_cons_of_mem _ hid)
      by_cases hplaced : s.placementsOf id = []
      · rw [seedRest, if_pos hplaced] at hseed
        obtain ⟨u, hplace, hseed⟩ := Option.bind_eq_some_iff.1 hseed
        obtain ⟨hdb, hnodes, r, hrid, -, hrows⟩ := place?_eq_some hplace
        obtain ⟨hdb', hrefers, hkept, hall⟩ := ih (by simpa [Site.hasNode, hnodes] using hlocal)
          (fun id hid => by simpa [Site.hasInbound, hdb] using hrest id hid)
          (Integrity.refers_place h (hids id List.mem_cons_self) hlocal hplace) hseed
        refine ⟨hdb'.trans hdb, hrefers, fun p hp => hkept p ((hrows p).2 (Or.inl hp)), fun i hi => ?_⟩
        rcases List.mem_cons.1 hi with rfl | hi
        · exact ⟨r, hkept r ((hrows r).2 (Or.inr rfl)), hrid⟩
        · exact hall i hi
      · rw [seedRest, if_neg hplaced] at hseed
        obtain ⟨hdb, hrefers, hkept, hall⟩ := ih hlocal hrest h hseed
        refine ⟨hdb, hrefers, hkept, fun i hi => ?_⟩
        rcases List.mem_cons.1 hi with rfl | hi
        · obtain ⟨p, hp⟩ := List.exists_mem_of_ne_nil _ hplaced
          exact ⟨p, hkept p (mem_placementsOf.1 hp).1, (mem_placementsOf.1 hp).2⟩
        · exact hall i hi

theorem localNode?_sound {localId : Nat} (h : s.localNode? = some (localId, t)) :
    t.db = s.db ∧ t.placements = s.placements ∧ t.hasNode localId = true ∧
      ∀ n, s.hasNode n = true → t.hasNode n = true := by
  unfold Site.localNode? at h
  split at h
  next n hn =>
    cases h
    exact ⟨rfl, rfl, Table.isSome_find?.2 ⟨n, List.mem_of_find?_eq_some hn, rfl⟩, fun _ hn => hn⟩
  next =>
    split at h
    · cases h
    obtain ⟨nodes, hinsert, hpair⟩ := Option.map_eq_some_iff.1 h
    cases hpair
    refine ⟨rfl, rfl, ?_, fun n hn => ?_⟩
    · simp [Site.hasNode, Table.find?_insert? hinsert]
    · simp only [Site.hasNode, Table.find?_insert? hinsert]
      split
      · rfl
      · exact hn

/-- What the panel starts from is sound, if no placement is of something that is gone. -/
theorem Integrity.seedLocalNode
    (h : ∀ p ∈ s.placements.rows, s.hasInbound p.inboundId = true ∧ s.hasNode p.nodeId = true)
    (hseed : seedLocalNode s = some t) : Integrity t := by
  obtain ⟨⟨localId, u⟩, hlocal, hrest⟩ := Option.bind_eq_some_iff.1 hseed
  obtain ⟨hdb, hplacements, hthere, hnodes⟩ := localNode?_sound hlocal
  have hmem : ∀ id, id ∈ u.db.inbounds.rows.map (·.base.id) ↔ u.hasInbound id = true := by
    intro id
    rw [Site.hasInbound, Table.isSome_find?, List.mem_map]
    rfl
  have hrefers : ∀ p ∈ u.placements.rows, u.hasInbound p.inboundId = true ∧ u.hasNode p.nodeId = true := by
    intro p hp
    rw [hplacements] at hp
    obtain ⟨hinbound, hnode⟩ := h p hp
    exact ⟨by simpa [Site.hasInbound, hdb] using hinbound, hnodes _ hnode⟩
  obtain ⟨hsame, hrefers, -, hall⟩ := seedRest_sound hthere (fun id hid => (hmem id).1 hid) hrefers hrest
  refine ⟨hrefers, fun id hid => hall id ((hmem id).2 ?_)⟩
  simpa [Site.hasInbound, hsame] using hid

theorem seedRest_of_placed {localId : Nat} {ids : List Nat} (h : ∀ id ∈ ids, s.placementsOf id ≠ []) :
    seedRest localId ids s = some s := by
  induction ids with
  | nil => rfl
  | cons id ids ih =>
      rw [seedRest, if_neg (h id List.mem_cons_self)]
      exact ih fun id hid => h id (List.mem_cons_of_mem _ hid)

theorem seedRest_placed {localId : Nat} {ids : List Nat} (h : seedRest localId ids s = some t) :
    t.db = s.db ∧ t.nodes = s.nodes ∧ (∀ p ∈ s.placements.rows, p ∈ t.placements.rows) ∧
      ∀ id ∈ ids, t.placementsOf id ≠ [] := by
  induction ids generalizing s with
  | nil =>
      cases h
      exact ⟨rfl, rfl, fun _ hp => hp, fun _ hid => absurd hid List.not_mem_nil⟩
  | cons id ids ih =>
      by_cases hnone : s.placementsOf id = []
      · rw [seedRest, if_pos hnone] at h
        obtain ⟨u, hplace, h⟩ := Option.bind_eq_some_iff.1 h
        obtain ⟨hdb, hnodes, r, hid, -, hrows⟩ := place?_eq_some hplace
        obtain ⟨hdb', hnodes', hkept, hall⟩ := ih h
        refine ⟨hdb'.trans hdb, hnodes'.trans hnodes, fun p hp => hkept p ((hrows p).2 (.inl hp)),
          List.forall_mem_cons.2 ⟨List.ne_nil_of_mem
            (mem_placementsOf.2 ⟨hkept r ((hrows r).2 (.inr rfl)), hid⟩), hall⟩⟩
      · rw [seedRest, if_neg hnone] at h
        obtain ⟨hdb, hnodes, hkept, hall⟩ := ih h
        obtain ⟨p, hp⟩ := List.exists_mem_of_ne_nil _ hnone
        obtain ⟨hp, hid⟩ := mem_placementsOf.1 hp
        exact ⟨hdb, hnodes, hkept,
          List.forall_mem_cons.2 ⟨List.ne_nil_of_mem (mem_placementsOf.2 ⟨hkept p hp, hid⟩), hall⟩⟩

/-- A second start finds nothing to do. -/
theorem seedLocalNode_again (h : seedLocalNode s = some t) : seedLocalNode t = some t := by
  obtain ⟨⟨localId, u⟩, hlocal, hrest⟩ := Option.bind_eq_some_iff.1 h
  obtain ⟨hdb, hnodes, -, hall⟩ := seedRest_placed hrest
  have hfound : ∃ n, (u.nodes.rows.find? fun n => n.isLocal) = some n := by
    unfold Site.localNode? at hlocal
    split at hlocal
    next n hn =>
      cases hlocal
      exact ⟨n, hn⟩
    next hnone =>
      split at hlocal
      · cases hlocal
      obtain ⟨nodes, hinsert, hpair⟩ := Option.map_eq_some_iff.1 hlocal
      cases hpair
      rw [(Table.insert?_eq_some hinsert).2, List.find?_append, hnone]
      exact ⟨_, rfl⟩
  obtain ⟨n, hn⟩ := hfound
  have hagain : t.localNode? = some (n.id, t) := by
    rw [Site.localNode?, hnodes, hn]
  rw [seedLocalNode, hagain]
  exact seedRest_of_placed (hdb ▸ hall)

end Integrity

/-! ## Every run -/

/-- The requests under way are where their outlines say and keep to their kind, and the
tables are sound. -/
structure SiteSound (P : SitePool) : Prop where
  outlined : P.Outlined siteRely siteGuar siteEnd
  keeping : P.Keeping siteKind
  integrity : Integrity P.store

omit [Runtime] in
theorem SiteSound.turn {P : SitePool} (hP : SiteSound P) {k : Nat} {fails : SitePlace → Bool}
    {th : Lib.Thread SiteCall Site SitePlace SiteReply} (hk : P.threads[k]? = some th)
    (hok : OrderlySite P (.turn k fails)) : Integrity (th.prog.attempt fails P.store).1 := by
  have hkind := hP.keeping.guarantee siteKind.refl siteKind.trans hk fails
  have hguar := hP.outlined.guarantee siteRely.refl siteGuar.still hk
  have hhere := hok th hk
  obtain ⟨⟨r, before⟩, prog, undisturbed⟩ := th
  cases r with
  | addInbound h now validate form => exact hP.integrity.inbounds hkind.1 hkind.2 hhere
  | delInbound h id => exact hP.integrity.inbounds hkind.1 hkind.2 hhere
  | addNode name host bootstrapped => exact hP.integrity.addNode hkind.1 hkind.2.1 hkind.2.2
  | deleteNode id =>
      rcases hhere with hund | hnodes
      · have hturn : DeleteTurn id prog P.store (prog.attempt fails P.store).2 (prog.attempt fails P.store).1 :=
          hguar hund fails
        exact hP.integrity.deleteTurn hturn
      · exact hP.integrity.addNode hkind.1 hkind.2 fun n hn => by simpa [Site.hasNode, hnodes] using hn
  | setForInbound inboundId nodeIds pick =>
      obtain ⟨hund, hlast, -⟩ := hhere
      have hturn : SetTurn inboundId prog P.store (prog.attempt fails P.store).2 (prog.attempt fails P.store).1 :=
        hguar hund fails
      refine hP.integrity.setTurn hturn fun e next hprog hchanged => ?_
      simp only at hprog hchanged hlast
      subst hprog
      refine hlast e rfl ?_
      cases hfails : fails (.drop e) with
      | false => rfl
      | true =>
          rw [Prog.attempt_update, hfails] at hchanged
          exact absurd rfl hchanged

theorem SiteSound.step {P : SitePool} (hP : SiteSound P) {e : SiteEvent} (hok : OrderlySite P e) :
    SiteSound (siteStep P e) := by
  cases e with
  | request r =>
      exact ⟨hP.outlined.spawn (outline_prog r P.store), hP.keeping.spawn (keeps_prog r _), hP.integrity⟩
  | turn k fails =>
      refine ⟨hP.outlined.move siteRely.trans siteRely.refl siteGuar.still k fails,
        hP.keeping.move siteKind.refl siteKind.trans k fails, ?_⟩
      cases hk : P.threads[k]? with
      | none => simpa only [siteStep, Pool.move, hk] using hP.integrity
      | some th =>
          simp only [siteStep, Pool.move_eq hk]
          exact hP.turn hk hok

omit [Runtime] in
theorem SiteSound.settles {P : SitePool} (hP : SiteSound P) {e : SiteEvent} (hok : OrderlySite P e) :
    Settles P e := by
  cases e with
  | request r => trivial
  | turn k fails =>
      intro th hk
      have hhere := hok th hk
      have hout := hP.outlined th (List.mem_of_getElem? hk)
      obtain ⟨⟨r, before⟩, prog, undisturbed⟩ := th
      cases r with
      | addInbound | delInbound | addNode => trivial
      | deleteNode id =>
          intro _ _ hplaced
          obtain ⟨p, hp⟩ := List.exists_mem_of_ne_nil _ hplaced
          exact ⟨p, hp, (hP.integrity.refers p (mem_onNode.1 hp).1).1⟩
      | setForInbound inboundId nodeIds pick =>
          obtain ⟨hund, -, hfailed⟩ := hhere
          obtain ⟨hturn, hnext⟩ := (hout hund).attempt (siteRely.refl _) (siteGuar.still _) fails
          intro reply _ hdone
          simp only at hdone hturn hnext hfailed
          rw [hdone] at hnext hturn hfailed
          have hend : SetEnd inboundId nodeIds before reply (prog.attempt fails P.store).1 :=
            hnext.ends (siteRely.refl _)
          cases reply with
          | ok _ => exact hend
          | error err =>
              by_cases hwrite : err = .write
              · -- the statement that failed has changed nothing
                rcases hturn with hsame | ⟨hno, -⟩
                · show (prog.attempt fails P.store).1.placementsOf inboundId = before
                  rw [hsame]
                  exact hfailed (by rw [hwrite])
                · exact absurd rfl (hno err)
              · exact hend hwrite

/-- In a run in which no inbound is added or removed, no node is taken away under which
something was placed meanwhile, and every `SetForInbound` is left alone, keeps a placement and
fails before its first write if at all: every state is sound, and every request settles. -/
theorem placements_sound (s : Site) (hs : Integrity s) (events : List SiteEvent)
    (h : AllSteps siteStep OrderlySite { store := s } events) :
    (∀ P ∈ states siteStep { store := s } events, Integrity P.store) ∧
      AllSteps siteStep Settles { store := s } events := by
  have hstart : SiteSound { store := s } :=
    ⟨fun _ hth => absurd hth List.not_mem_nil, fun _ hth => absurd hth List.not_mem_nil, hs⟩
  have hstep : ∀ P e, SiteSound P → OrderlySite P e → SiteSound (siteStep P e) := fun P e hP hok => hP.step hok
  refine ⟨fun P hmem => (h.invariant hstep hstart P hmem).integrity, ?_⟩
  exact h.transitions (fun P e hP hok => ⟨hP.step hok, hP.settles hok⟩) hstart

end

/-! ## One inbound on two nodes -/

/-- One inbound, on the local node. -/
def placedSite : Site where
  db := { inbounds := .single { base := { id := 1, tag := "inbound-443", protocol := .vless } }
          traffics := Table.empty }
  nodes := .single { id := 1, name := localNodeName, isLocal := true }
  placements := .single { id := 1, inboundId := 1, nodeId := 1 }
  nextNode := 2
  nextPlacement := 2

theorem placedSite_integrity : Integrity placedSite where
  refers := by decide
  placed id hid := by
    refine ⟨{ id := 1, inboundId := 1, nodeId := 1 }, by decide, ?_⟩
    obtain ⟨row, hrow⟩ := Option.isSome_iff_exists.1 hid
    obtain ⟨hmem, hkey⟩ := Table.find?_some hrow
    obtain rfl := List.mem_singleton.1 hmem
    exact hkey

/-- Every statement of the turn goes through. -/
def siteTurn (k : Nat) : SiteEvent := .turn k fun _ => false

/-- A node is added, and the inbound goes to it as well. -/
def secondLocation : List SiteEvent :=
  [.request (.addNode "fra" "192.0.2.7:8443" true), siteTurn 0, siteTurn 0,
    .request (.setForInbound 1 [1, 2] 0)] ++ List.replicate 6 (siteTurn 1)

/-- The tables after some events. -/
def siteAfter (events : List SiteEvent) : Site := (run (@siteStep Runtime.ascii) { store := placedSite } events).store

/-- The inbound is on both nodes then. -/
theorem second_location_placed :
    Integrity (siteAfter secondLocation) ∧
      ((siteAfter secondLocation).placementsOf 1).map InboundNode.nodeId = [1, 2] := by
  have hsound := @placements_sound Runtime.ascii placedSite placedSite_integrity secondLocation (by
    refine ⟨trivial, ?_, ?_, trivial, ?_, ?_, ?_, ?_, ?_, ?_, trivial⟩
    · intro th hth
      cases hth
      trivial
    · intro th hth
      cases hth
      trivial
    all_goals
      intro th hth
      cases hth
      refine ⟨by decide, ?_, ?_⟩
      · intro e he
        cases he
      · intro hfailed
        cases hfailed)
  exact ⟨hsound.1 _ (run_mem_states _ _), by decide⟩

/-- The inbound is removed, and then the node it was on. -/
def removal : List SiteEvent :=
  [.request (.delInbound ⟨5000, some {}⟩ 1)] ++ List.replicate 7 (siteTurn 0)

/-- An inbound that is new. -/
def addition : List SiteEvent :=
  [.request (.addInbound ⟨5000, some {}⟩ 5000 (fun _ => none) { id := 0, port := 8443 })] ++
    List.replicate 5 (siteTurn 0)

/-- The inbound moves to the new node, and the row for that node cannot be written. -/
def brokenMove : List SiteEvent :=
  [.request (.addNode "fra" "192.0.2.7:8443" true), siteTurn 0, siteTurn 0, .request (.setForInbound 1 [2] 0)] ++
    List.replicate 4 (siteTurn 1) ++ [.turn 1 fun place => decide (place = .create 2)]

/-- An inbound that is removed leaves its placement behind, a new one gets none, and one that
moves is on no node if the second write fails. -/
theorem placements_broken :
    Integrity placedSite ∧ ¬ Integrity (siteAfter removal) ∧ ¬ Integrity (siteAfter addition) ∧
      ¬ Integrity (siteAfter brokenMove) := by
  refine ⟨placedSite_integrity, fun h => ?_, fun h => ?_, fun h => ?_⟩
  · have hgone := (h.refers { id := 1, inboundId := 1, nodeId := 1 } (by decide)).1
    revert hgone
    decide
  · obtain ⟨p, hp, hnew⟩ := h.placed 2 (by decide +kernel)
    have hnone : ∀ p ∈ (siteAfter addition).placements.rows, p.inboundId ≠ 2 := by decide +kernel
    exact hnone p hp hnew
  · obtain ⟨p, hp, -⟩ := h.placed 1 (by decide)
    have hnone : (siteAfter brokenMove).placements.rows = [] := by decide
    rw [hnone] at hp
    cases hp

theorem addition_seedable : ∃ t, seedLocalNode (siteAfter addition) = some t :=
  Option.isSome_iff_exists.1 (by decide +kernel)

/-- The new inbound is placed at the next start. -/
theorem addition_seeded : ∃ t, seedLocalNode (siteAfter addition) = some t ∧ Integrity t := by
  have hrefers : ∀ p ∈ (siteAfter addition).placements.rows,
      (siteAfter addition).hasInbound p.inboundId = true ∧ (siteAfter addition).hasNode p.nodeId = true := by
    decide +kernel
  obtain ⟨t, ht⟩ := addition_seedable
  exact ⟨t, ht, Integrity.seedLocalNode hrefers ht⟩

theorem addition_seeded_again : ∃ t, seedLocalNode (siteAfter addition) = some t ∧ seedLocalNode t = some t := by
  obtain ⟨t, ht⟩ := addition_seedable
  exact ⟨t, ht, seedLocalNode_again ht⟩

end Simorgh.Panel
