import Reassembly.Delivery.Team
import Reassembly.Reading.Rotation
import Reassembly.Sweep

/-!
A team at work through a handle on a store. A poll sweeps the store and routes its ready markers; a
round drains the flows of one shard. Where all blocks are ready, the order in which the members of the
team take their turns does not show: one poll and some rounds empty the store.
-/

namespace Reassembly.Delivery

/-- A team at work: the handle and the region that it works on, and what it told the reader. -/
structure Shift where
  team : Team
  attachment : Attachment
  region : Region
  events : Array Event

namespace Shift

def onHandle {α : Type} (work : Attached α) : Work Shift α :=
  Work.onPart (fun ⟨team, attachment, region, events⟩ => ((attachment, region), team, events))
    (fun (attachment, region) (team, events) => ⟨team, attachment, region, events⟩) work

def onTeam {α : Type} (step : Team → α × Team) : Work Shift α :=
  modifyGet fun ⟨team, attachment, region, events⟩ =>
    let (a, team) := step team
    (a, ⟨team, attachment, region, events⟩)

/-- Routes the ready markers in turn until one comes round again. Each turn meets a new marker or is
the last, so one turn more than there can be blocks is enough. -/
def routeReady (now : Micros) : (turns : Nat) → List Ref → PollStats → Work Shift PollStats
  | 0, _, stats => return stats
  | turns + 1, seen, stats => do
    match ← onHandle (Attachment.nextMarker now) with
    | none => return stats
    | some marker =>
      if marker.ref ∈ seen then return stats
      let stats ← onTeam (Team.route marker now stats)
      routeReady now turns (marker.ref :: seen) stats

def poll (now : Micros) : Work Shift PollStats := do
  let shift ← get
  let turns := shift.attachment.layout.maxBlocks.toNat + 1
  if shift.team.tooSoon now then return {}
  onTeam fun team => ((), team.notePoll now)
  let closed ← onHandle (Attachment.sweep now)
  let stats ← routeReady now turns [] { ran := true, closed }
  let released ← onTeam (Team.releaseWhenDue now)
  return { stats with released }

def round (now : Micros) (index : Nat) : Work Shift (Option RoundStats) := do
  let shift ← get
  let view := shift.attachment.view now
  match shift.team.shards[index]? with
  | none => return none
  | some shard =>
    some <$> Work.onPart
      (fun ⟨team, attachment, region, events⟩ =>
        ((shard, Outlet.mk region events), team, attachment))
      (fun (shard, outlet) (team, attachment) =>
        let shards := team.shards.setIfInBounds index shard
        ⟨{ team with shards }, attachment, outlet.region, outlet.events⟩)
      (Shard.round view)

def rounds (now : Micros) : Work Shift Unit := do
  let shift ← get
  let count := shift.team.shards.size
  (List.range count).forM fun index => discard <| Work.passOver (fun _ => true) (round now index)

/-- Rounds of all shards until the store is empty, at most `turns` times; whether it became empty.
That the store cannot be looked at is a fault. -/
def emptyStore (now : Micros) : (turns : Nat) → Work Shift Bool
  | 0 => return false
  | turns + 1 => do
    let shift ← get
    let look := shift.attachment.occupancy
    let occupancy ← onHandle (Attachment.onRegion look)
    if occupancy.entries = 0 then return true
    rounds now
    emptyStore now turns

/-- A poll, then rounds until the store is empty. A poll that fails is passed over. A round that does
anything erases a block, so one round more than there can be blocks is enough. -/
def workOff (now : Micros) : Work Shift Bool := do
  let shift ← get
  let turns := shift.attachment.layout.maxBlocks.toNat + 1
  discard <| Work.passOver (fun _ => true) (poll now)
  emptyStore now turns

end Shift

end Reassembly.Delivery
