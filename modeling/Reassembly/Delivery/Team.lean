import Reassembly.Cancellation
import Reassembly.Delivery.Shard

/-!
A team: some shards, and the router that gives each new flow to one of them, round robin. The router
remembers whom it gave a flow to; if that shard has dropped the flow meanwhile, the next marker of the
flow goes to the next shard.
-/

namespace Reassembly.Delivery

structure Router where
  config : ShardConfig
  assignments : Std.ExtTreeMap FlowId Nat := ∅
  next : UInt64 := 0
  lastPoll : Option Micros := none
  lastSweep : Option Micros := none

structure PollStats where
  ran : Bool := false
  closed : Nat := 0
  assigned : Nat := 0
  reassigned : Nat := 0
  released : Nat := 0
  deriving DecidableEq

structure Team where
  router : Router
  shards : Array Shard

namespace Team

def ofConfig (config : ShardConfig) : Except Fault Team :=
  if config.handlerCount = 0 then .error (.invalidConfig .noHandlerToRouteTo)
  else .ok
    { router := { config }
      shards := (Array.range config.handlerCount.toNat).map fun id => .fresh id config }

def owns (t : Team) (index : Nat) (flow : FlowId) : Bool :=
  (t.shards[index]?.map (·.owns flow)).getD false

/-- A team that works on its own, for a store with the given timing. -/
def start (config : ShardConfig) (store : StoreConfig) : Except Fault Team := do
  config.validate
  config.checkWriterTimeout store
  ofConfig config

/-- Gives the flow of a marker to the next shard, unless the shard it was given to still owns it. -/
def route (marker : Stored) (now : Micros) (stats : PollStats) (t : Team) : PollStats × Team :=
  let flow := marker.flow
  let previous := t.router.assignments[flow]?
  if (previous.map (t.owns · flow)).getD false then (stats, t)
  else
    let index := t.router.next.toNat % t.shards.size
    let router :=
      { t.router with
        next := t.router.next + 1
        assignments := t.router.assignments.insert flow index }
    let shards := t.shards.modify index fun shard => (shard.claim marker now).2
    (if previous.isSome then { stats with reassigned := stats.reassigned + 1 }
      else { stats with assigned := stats.assigned + 1 },
      ⟨router, shards⟩)

def release (t : Team) : Nat × Team :=
  let kept := t.router.assignments.filter fun flow index => t.owns index flow
  (t.router.assignments.size - kept.size, { t with router := { t.router with assignments := kept } })

def tooSoon (t : Team) (now : Micros) : Bool :=
  match t.router.lastPoll with
  | none => false
  | some last => elapsed now last < t.router.config.idleCheckInterval

def notePoll (now : Micros) (t : Team) : Team :=
  { t with router := { t.router with lastPoll := some now } }

/-- Releases assignments if it is time. The first poll starts the interval. -/
def releaseWhenDue (now : Micros) (t : Team) : Nat × Team :=
  let last := t.router.lastSweep.getD now
  if t.router.config.assignmentSweepInterval ≤ elapsed now last then
    let (released, t) := t.release
    (released, { t with router := { t.router with lastSweep := some now } })
  else (0, { t with router := { t.router with lastSweep := some last } })

def loops (t : Team) : Nat := t.shards.size + 1

/-- What a token has seen after every loop met it already cancelled: each asks once and ends. -/
def stopAll (t : Team) (token : Cancellation) : Cancellation :=
  (List.range t.loops).foldl (fun token _ => token.checkpoint.2) token

def describe (t : Team) : String :=
  "Distributor \x7b handlers: " ++ toString t.shards.size ++ ", assignments: "
    ++ toString t.router.assignments.size ++ ", next: " ++ toString t.router.next ++ ", .. \x7d"

def describeLoops (t : Team) : String :=
  "ShardPool \x7b handlers: " ++ toString t.shards.size ++ ", workers: " ++ toString t.loops
    ++ ", .. \x7d"

end Team

end Reassembly.Delivery
