import Std.Data.ExtTreeMap
import Reassembly.FlowKey

/-!
What a reader is told, event by event, and the transcript that gathers it: the bytes of each stream
in the order of delivery, the flows that started and expired, and the gaps.
-/

namespace Reassembly.Delivery

inductive Event where
  /-- A shard took the flow up. -/
  | started (flow : FlowId) (initialSeq : Seq)
  /-- The next bytes of a side. -/
  | data (flow : FlowId) (side : Side) (start : Seq) (bytes : ByteArray)
  /-- The bytes from `expected` up to `resumedAt` were not stored. -/
  | gap (flow : FlowId) (side : Side) (expected resumedAt : Seq)
  /-- The flow was left alone too long and is forgotten. -/
  | expired (flow : FlowId)

namespace Event

def flow : Event → FlowId
  | .started flow _ | .data flow _ _ _ | .gap flow _ _ _ | .expired flow => flow

def byteCount : Event → Nat
  | .data _ _ _ bytes => bytes.size
  | _ => 0

def isGap : Event → Bool
  | .gap .. => true
  | _ => false

def bytesIn (events : Array Event) : Nat := events.foldl (fun count e => count + e.byteCount) 0

end Event

structure Gap where
  flow : FlowId
  side : Side
  expected : Seq
  resumedAt : Seq
  deriving DecidableEq

structure Transcript where
  streams : Std.ExtTreeMap FlowId (PerSide ByteArray) := ∅
  started : List FlowId := []
  expired : List FlowId := []
  gaps : List Gap := []

namespace Transcript

def stream (t : Transcript) (flow : FlowId) (side : Side) : ByteArray :=
  (t.streams.getD flow (.both .empty)).get side

def add (t : Transcript) : Event → Transcript
  | .started flow _ => { t with started := t.started ++ [flow] }
  | .data flow side _ bytes =>
    let known := t.streams.getD flow (.both .empty)
    { t with streams := t.streams.insert flow (known.set (known.get side ++ bytes) side) }
  | .gap flow side expected resumedAt =>
    { t with gaps := t.gaps ++ [⟨flow, side, expected, resumedAt⟩] }
  | .expired flow => { t with expired := t.expired ++ [flow] }

def ofEvents (events : Array Event) : Transcript := events.foldl add {}

def total (t : Transcript) : Nat :=
  t.streams.foldl (fun count _ sides => count + sides.source.size + sides.destination.size) 0

end Transcript

end Reassembly.Delivery
