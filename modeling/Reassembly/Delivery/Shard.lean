import Reassembly.Config
import Reassembly.Delivery.Drain

/-!
A shard owns some flows and drains them in rounds. A round copies the positions, drains flow by flow
without holding on to the ownership table, and then settles: it writes back only what is still owned,
and gives up the flows that were idle for too long.
-/

namespace Reassembly.Delivery

structure Shard where
  id : Nat
  flowTimeout : Micros
  flows : Std.ExtTreeMap FlowId Position

structure RoundStats where
  blocks : Nat
  bytes : Nat
  gaps : Nat
  expired : Nat
  deriving DecidableEq

def RoundStats.isIdle (s : RoundStats) : Bool := s.blocks == 0 && s.expired == 0

namespace Shard

def fresh (id : Nat) (config : ShardConfig) : Shard := ⟨id, config.flowTimeout, ∅⟩

def owns (s : Shard) (flow : FlowId) : Bool := s.flows.contains flow

def claim (s : Shard) (marker : Stored) (now : Micros) : Bool × Shard :=
  if s.owns marker.flow then (false, s)
  else (true, { s with flows := s.flows.insert marker.flow (.ofMarker marker now) })

/-- The fate of a flow after a round: where it stands, or nothing if it expired. -/
structure Fate where
  flow : FlowId
  position : Option Position

/-- The fate of a drained flow: it expires if no payload is left and nothing was consumed for longer
than `timeout`. -/
def fateOf (flow : FlowId) (timeout now : Micros) (drained : Drained) : Fate :=
  let idle := elapsed now drained.position.lastUpdate
  ⟨flow, if drained.pending = 0 ∧ timeout < idle then none else some drained.position⟩

def drainFlows (v : Reading.View) (timeout : Micros) :
    List (FlowId × Position) → Draining (List Fate × Nat)
  | [] => return ([], 0)
  | (flow, position) :: rest => do
    let drained ← drainFlow v flow position
    let (fates, blocks) ← drainFlows v timeout rest
    return (fateOf flow timeout v.now drained :: fates, drained.consumed + blocks)

/-- Writes a fate back. A flow that is owned no longer does not come back. -/
def settle (s : Shard) (fate : Fate) : Shard :=
  match fate.position with
  | some position =>
    if s.owns fate.flow then { s with flows := s.flows.insert fate.flow position } else s
  | none => { s with flows := s.flows.erase fate.flow }

def settleAll (s : Shard) (fates : List Fate) : Shard := fates.foldl settle s

def expiredFlows (fates : List Fate) : List FlowId :=
  (fates.filter (·.position.isNone)).map (·.flow)

def onOutlet {α : Type} (work : Draining α) : Work (Shard × Outlet) α :=
  Work.onPart (fun (s, outlet) => (outlet, s)) (fun outlet s => (s, outlet)) work

/-- One round over the owned flows. A round that fails moves no position. -/
def round (v : Reading.View) : Work (Shard × Outlet) RoundStats := do
  let (s, before) ← get
  let told := before.events.size
  let (fates, blocks) ← onOutlet (drainFlows v s.flowTimeout s.flows.toList)
  let (_, after) ← get
  let news := after.events.extract told after.events.size
  let expired := expiredFlows fates
  modify fun (s, outlet) => (s.settleAll fates, outlet)
  onOutlet (Draining.tell (expired.map Event.expired))
  return {
    blocks
    bytes := Event.bytesIn news
    gaps := news.countP Event.isGap
    expired := expired.length }

def describe (s : Shard) : String :=
  "Handler \x7b id: " ++ toString s.id ++ ", flow_timeout_us: " ++ toString s.flowTimeout.toNat
    ++ ", .. \x7d"

end Shard

end Reassembly.Delivery
