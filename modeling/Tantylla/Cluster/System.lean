/-
  The ingestor and its nodes (`batch/service.rs`, `router/core.rs`, `engine/core.rs`).

  A request of a flush that reaches its node is a call of `process_batch` there, and what
  the call returns is what the flush gets if its try does not fail before.  A range
  delete gets the ids that the node lists when it asks.  Between the calls a node
  commits, reloads, prunes or crashes by itself.

  An event of the cluster is an event of the ingestor and its requests
  (`Cluster.netEvent`), or a call of a node (`Cluster.call`), or both.  To a node a run
  of the cluster is a run of its calls: `exec_node`.
-/
import Tantylla.Ingestor.Arrivals
import Tantylla.Node.Listing
import Tantylla.Node.Snapshots

namespace Tantylla

open Ingestor

/-- A move of a task in which no node answers. -/
inductive LocalMove where
  | tick
  | shutdown
  | row (row : CDCRow)
  | proceed (k : ℕ)

def LocalMove.move : LocalMove → Move
  | .tick => .tick
  | .shutdown => .shutdown
  | .row r => .row r
  | .proceed k => .proceed k

/-- What a node does by itself. -/
inductive NodeEvent where
  | commit (r : CommitTick)
  | reload
  | prune (now : ℤ) (r : PruneTick)
  | crash

def NodeEvent.call : NodeEvent → Engine.Call
  | .commit r => .commit r
  | .reload => .reload
  | .prune now r => .prune now r
  | .crash => .crash

/-- One event of a cluster; `addOk` says how `add_document` goes in a call. -/
inductive ClusterEvent where
  | act (i : ℕ) (m : LocalMove)
  | newConsumer
  /-- the request of the task `i` reaches its node -/
  | reach (i : ℕ) (addOk : ℕ → Bool)
  /-- a request of a failed try reaches its node; nobody waits for the answer -/
  | reachLate (j : ℕ) (addOk : ℕ → Bool)
  /-- the task `i` gets what its node has answered -/
  | answer (i k : ℕ)
  /-- the try of the task `i` fails, whether its request has reached the node or not -/
  | fail (i k : ℕ)
  /-- the task `i` gets the ids that the node lists -/
  | list (i : ℕ)
  | listFail (i : ℕ)
  | node (n : String) (e : NodeEvent)

/-- An ingestor with its requests, and the nodes by their addresses.  `answers` are what
    the calls have returned whose tasks have not heard of it, and `executed` the
    deliveries of the batches that were answered with `Ok`. -/
structure Cluster where
  net : Network
  nodes : String → Engine
  answers : ℕ → Option IndexBatchResponse
  executed : List Delivery

/-- The request of the task `i`, if it has not reached its node. -/
def Ingestor.Network.underWay (s : Network) (i : ℕ) : Option Request :=
  if i ∈ s.reached then none else (s.state.flush i).map Flush.request

namespace Cluster

/-- The node and the partition that the task `i` asks for. -/
def asks (s : Cluster) (i : ℕ) : Option (String × String) :=
  s.net.state.tasks[i]?.bind Task.asks

/-- What an event is to the ingestor and its requests. -/
def netEvent (s : Cluster) : ClusterEvent → Option NetEvent
  | .act i m => some (.move i m.move)
  | .newConsumer => some .newConsumer
  | .reach i _ => some (.reach i)
  | .reachLate j _ => some (.reachLate j)
  | .answer i k => if i ∈ s.net.reached then some (.move i (.reply k (s.answers i))) else none
  | .fail i k => some (.move i (.reply k none))
  | .list i => (s.asks i).map fun (n, pk) =>
      .move i (.fetched (some ((s.nodes n).listDocumentIdsByPartitionKey pk)))
  | .listFail i => some (.move i (.fetched none))
  | .node _ _ => none

/-- The call of a node in an event. -/
def call (s : Cluster) : ClusterEvent → Option (String × Engine.Call)
  | .reach i addOk => (s.net.underWay i).map fun r => (r.1, .batch addOk r.2)
  | .reachLate j addOk => s.net.late[j]?.map fun r => (r.1, .batch addOk r.2)
  | .node n e => some (n, e.call)
  | .act _ _ | .newConsumer | .answer _ _ | .fail _ _ | .list _ | .listFail _ => none

/-- The call of the node `n` in an event. -/
def callAt (n : String) (s : Cluster) (ev : ClusterEvent) : Option Engine.Call :=
  (s.call ev).bind fun c => if c.1 = n then some c.2 else none

/-- The deliveries of a call that is answered with `Ok`. -/
def executes (X : Crates) (s : Cluster) : String × Engine.Call → List Delivery
  | (n, .batch addOk operations) =>
    if ((s.nodes n).processBatch X addOk operations).2.isSome then deliveries (n, operations)
    else []
  | (_, .commit _) | (_, .reload) | (_, .prune _ _) | (_, .crash) => []

/-- What the tasks hear of when their nodes answer. -/
def answersAfter (X : Crates) (s : Cluster) : ClusterEvent → ℕ → Option IndexBatchResponse
  | .reach i addOk, j =>
    match s.net.underWay i with
    | some r => if j = i then ((s.nodes r.1).processBatch X addOk r.2).2 else s.answers j
    | none => s.answers j
  | _, j => s.answers j

end Cluster

def clusterStart : Cluster := ⟨netStart, fun _ => .new [], fun _ => none, []⟩

section
variable (M : Ingestor) (X : Crates)

def clusterStep (s : Cluster) (ev : ClusterEvent) : Cluster where
  net := (s.netEvent ev).elim s.net (netStep M s.net)
  nodes n := (s.callAt n ev).elim (s.nodes n) (Engine.callStep X (s.nodes n))
  answers := s.answersAfter X ev
  executed := s.executed ++ ((s.call ev).map (s.executes X)).getD []

end

namespace Cluster

variable {M : Ingestor} {X : Crates}

/-- **A run of the cluster is a run of calls to each node.** -/
theorem exec_node (n : String) (es : List ClusterEvent) (s : Cluster) :
    (Run.exec (clusterStep M X) s es).nodes n =
      Run.exec (Engine.callStep X) (s.nodes n)
        (Run.shown (clusterStep M X) (callAt n) s es) :=
  Run.exec_shown (π := fun s : Cluster => s.nodes n) (fun _ _ => rfl) es s

/-- **Every node of a cluster is in a state that runs of a single node reach.** -/
theorem reachable_node (n : String) (es : List ClusterEvent) :
    Engine.Reachable X ((Run.exec (clusterStep M X) clusterStart es).nodes n) := by
  rw [Engine.reachable_iff]
  exact ⟨_, (exec_node n es clusterStart).symm⟩

end Cluster

end Tantylla
