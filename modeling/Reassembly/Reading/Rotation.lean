import Reassembly.Attachment
import Reassembly.Reading.Stored

/-!
The rotation over the markers of a store. Each call looks at every block once at most, beginning
behind the block where the last call stopped, so every ready marker has its turn.
-/

namespace Reassembly

open Store

def Attachment.view (a : Attachment) (now : Micros) : Reading.View :=
  ⟨a.layout, a.config.blockIdleTimeout, now⟩

namespace Reading

/-- Work on the rotation. Its own is the reference of the block where it stands, which stays where a
fault found it. -/
abbrev Turning := HoldWith (Option Ref)

namespace Turning

open HoldWith

def visit (v : View) (pos : Nat) : Turning (Option Stored) := do
  let entry ← onStore (Hold.entryAt pos)
  setOwn (some entry.ref)
  let header ← onStore (Hold.header v.layout entry.slot)
  if header.kind = .startFlow && header.isReady v.now v.idle then
    some <$> onStore (snapshot v entry header)
  else return none

def visitAll (v : View) : List Nat → Turning (Option Stored)
  | [] => return none
  | pos :: rest => do
    match ← visit v pos with
    | some marker => return some marker
    | none => visitAll v rest

def start (count : Nat) : Turning Nat := do
  match ← own with
  | none => return 0
  | some ref => return (← onStore (Hold.upperBound ref)) % count

def nextMarker (v : View) : Turning (Option Stored) := do
  let count ← onStore Hold.count
  if count = 0 then return none
  let first ← start count
  visitAll v ((List.range count).map fun step => (first + step) % count)

end Turning

end Reading

/-- The next ready marker in turn, if there is one. It is found again until someone erases it. -/
def Attachment.nextMarker (now : Micros) : Attached (Option Stored) := do
  let (a, _) ← get
  Work.onPart (fun (a, region) => ((a.rotation, region), a))
    (fun (rotation, region) a => ({ a with rotation }, region))
    (HoldWith.run a.layout (Reading.Turning.nextMarker (a.view now)))

end Reassembly
