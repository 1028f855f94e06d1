import Reassembly.Attachment
import Reassembly.Segment
import Reassembly.Writing.Placement

/-!
Writing a segment through a handle. The first segment of a flow, and the first after the writer's
timeout, also leaves a marker that announces the flow. The handle's knowledge of the flow is kept
whatever happens to the bytes.
-/

namespace Reassembly.Writing

open Store

abbrev Session := HoldWith Attachment

namespace Session

open HoldWith

def setWriter (flow : FlowId) (writer : WriterFlow) : Session Unit := do
  let attachment ← own
  setOwn { attachment with writers := attachment.writers.insert flow writer }

/-- Work on one side of a flow that is known as `writer`; its open block is noted afterwards, also if
the work failed. -/
def placing {α : Type} (flow : FlowId) (side : Side) (writer : WriterFlow) (work : Placing α) :
    Session α :=
  let cursor := writer.sides.get side
  let note (openBlock : Option Ref) (attachment : Attachment) : Attachment :=
    let sides := writer.sides.set { cursor with openBlock } side
    { attachment with writers := attachment.writers.insert flow { writer with sides } }
  Work.onPart (fun (attachment, held) => ((cursor.openBlock, held), attachment))
    (fun (openBlock, held) attachment => (note openBlock attachment, held)) work

/-- The flow of a segment, announced by a marker if it is new or was left alone too long; nothing if
there is no room for the marker. -/
def announce (segment : Segment) (now : Micros) : Session (Option WriterFlow) := do
  let attachment ← own
  let known := attachment.writers[segment.flow]?.filter fun writer =>
    !writer.isStale now attachment.config.writerFlowTimeout
  match known with
  | some writer => return some writer
  | none =>
    let marker ← onStore <| Hold.unlessFull <| Hold.insertBlock attachment.layout .startFlow
      segment.key (Bytes.ofU32 segment.sequence.word) true now
    return marker.map fun _ => .fresh now

end Session

open Session HoldWith in
def putHeld (segment : Segment) (now : Micros) : Session Outcome := do
  match ← announce segment now with
  | none => return .dropped
  | some writer =>
    let writer := { writer with lastWrite := now }
    setWriter segment.flow writer
    if segment.payload.size = 0 then return .empty
    let cursor := writer.sides.get segment.side
    let initialSeq := cursor.initialSeq.getD segment.sequence
    let sides := writer.sides.set { cursor with initialSeq := some initialSeq } segment.side
    let writer := { writer with sides }
    let attachment ← own
    let piece : Piece := ⟨segment.flow, segment.side, segment.sequence, initialSeq, now⟩
    placing segment.flow segment.side writer <|
      Placing.placeFrom attachment.layout attachment.config.blockIdleTimeout piece segment.payload 0
        none false

end Reassembly.Writing

namespace Reassembly

/-- Writes a segment. A full store is no fault; only the region can fail. -/
def Attachment.put (segment : Segment) (now : Micros) : Attached Writing.Outcome := do
  let (attachment, _) ← get
  Store.HoldWith.run attachment.layout (Writing.putHeld segment now)

end Reassembly
