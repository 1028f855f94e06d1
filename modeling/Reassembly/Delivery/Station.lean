import Reassembly.Delivery.Shift
import Reassembly.Storage

/-!
A station: a team, and everything that its shards told the reader. It works through a handle on the
region of that handle, wherever it lives, one poll or one round at a time.
-/

namespace Reassembly.Delivery

structure Station where
  team : Team
  events : Array Event := #[]

abbrev Stationed := Work ((Station × Attachment) × Storage)

namespace Station

def lending {α : Type} (work : Work Shift α) : Stationed α :=
  Storage.lendWith (fun (_, a) => a.handle) <|
    Work.onPart (fun ((⟨team, events⟩, a), region) => (⟨team, a, region, events⟩, ()))
      (fun ⟨team, a, region, events⟩ () => ((⟨team, events⟩, a), region)) work

def poll (now : Micros) : Stationed PollStats := lending (Shift.poll now)

def round (now : Micros) (index : Nat) : Stationed (Option RoundStats) :=
  lending (Shift.round now index)

def workOff (now : Micros) : Stationed Bool := lending (Shift.workOff now)

/-- Has the shard at an index claim the flow of a block, whatever the block is; whether it took it. -/
def claim (station : Station) (index : Nat) (block : Stored) (now : Micros) :
    Option (Bool × Station) := do
  let shard ← station.team.shards[index]?
  let (took, shard) := shard.claim block now
  let team := { station.team with shards := station.team.shards.setIfInBounds index shard }
  return (took, { station with team })

end Station

end Reassembly.Delivery
