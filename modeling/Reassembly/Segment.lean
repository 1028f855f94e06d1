import Reassembly.FlowKey

/-!
Segments: runs of stream bytes as they arrive, in any order.
-/

namespace Reassembly

structure Segment where
  flow : FlowId
  side : Side
  sequence : Seq
  payload : ByteArray

namespace Segment

/-- A segment from its header number. An opening segment spends one number on the opening itself, so
its bytes start one further on. -/
def ofHeader (flow : FlowId) (side : Side) (number : Seq) (opening : Bool) (payload : ByteArray) :
    Segment :=
  ⟨flow, side, if opening then number.advance 1 else number, payload⟩

def key (s : Segment) : FlowKey := .pack s.flow s.side s.sequence

def endSeq (s : Segment) : Seq := s.sequence.advance s.payload.size

end Segment

end Reassembly
