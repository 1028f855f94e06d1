import Reassembly.Attachment

/-!
The sweep. Open blocks that were left alone for the idle time are completed, which counts as a change,
so that they may be read only an idle time later. Flows that the handle has not written for the
writer's timeout are forgotten.
-/

namespace Reassembly

open Store

namespace Sweep

def closeIdle (l : Layout) (idle now : Micros) (pos : Nat) : Hold Bool := do
  let entry ← Hold.entryAt pos
  let header ← Hold.header l entry.slot
  if !header.isComplete && header.expired now idle then
    Hold.setHeader l entry.slot { header.close with lastUpdate := now }
    return true
  return false

def closeAll (l : Layout) (idle now : Micros) : List Nat → Hold Nat
  | [] => return 0
  | pos :: rest => do
    let closed ← closeIdle l idle now pos
    let others ← closeAll l idle now rest
    return (if closed then 1 else 0) + others

def closeBlocks (l : Layout) (idle now : Micros) : Hold Nat := do
  closeAll l idle now (List.range (← Hold.count))

def keepFresh (writers : WriterFlows) (now timeout : Micros) : WriterFlows :=
  writers.filter fun _ writer => !writer.isStale now timeout

end Sweep

/-- Sweeps the store; tells how many blocks it completed. After a fault no flow is forgotten. -/
def Attachment.sweep (now : Micros) : Attached Nat := do
  let (a, _) ← get
  let closed ← onRegion <| Hold.run a.layout <|
    Sweep.closeBlocks a.layout a.config.blockIdleTimeout now
  modify fun (a, region) =>
    ({ a with writers := Sweep.keepFresh a.writers now a.config.writerFlowTimeout }, region)
  return closed

end Reassembly
