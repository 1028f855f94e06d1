import Reassembly.Delivery.Event
import Reassembly.Reading.Stored

/-!
How far a flow was read. The position knows the marker that the flow was taken up by, and for each
side the next byte that the reader has not seen. A later marker near that byte announces the same
connection again; one far from it announces a new connection under an old number.
-/

namespace Reassembly.Delivery

/-- How far from the next byte a marker may announce the same connection. -/
def continuationWindow : Nat := 0x1000000

structure Position where
  initialSeq : Seq
  marker : Ref
  expected : PerSide (Option Seq)
  lastUpdate : Micros
  announced : Bool
  deriving DecidableEq

namespace Position

def ofMarker (marker : Stored) (now : Micros) : Position :=
  ⟨marker.announcedSeq, marker.ref, .both none, now, false⟩

/-- Whether a marker announces the same connection. Where nothing was read on its side, nothing
speaks against it. -/
def continuesAt (p : Position) (marker : Stored) : Bool :=
  match p.expected.get marker.side with
  | none => true
  | some expected =>
    Seq.distance marker.announcedSeq expected ≤ continuationWindow
      || Seq.distance expected marker.announcedSeq ≤ continuationWindow

def adopt (p : Position) (marker : Stored) (now : Micros) : Position :=
  if marker.ref = p.marker then p
  else if p.continuesAt marker then { p with marker := marker.ref }
  else ofMarker marker now

end Position

/-- The events for one frame where `expected` is the next byte not seen, and the next byte after it.
What was seen before is cut off; bytes that are missing are reported. -/
def deliverFrame (flow : FlowId) (side : Side) (expected : Option Seq) (frame : Block.Frame) :
    List Event × Option Seq :=
  match expected with
  | none => ([.data flow side frame.start frame.data], some frame.stop)
  | some next =>
    if Seq.before frame.start next then
      let seen := Seq.distance frame.start next
      if frame.data.size ≤ seen then ([], some next)
      else
        let rest := frame.data.extract seen frame.data.size
        ([.data flow side next rest], some (next.advance rest.size))
    else if frame.start = next then ([.data flow side next frame.data], some frame.stop)
    else
      ([.gap flow side next frame.start, .data flow side frame.start frame.data], some frame.stop)

def deliverFrames (flow : FlowId) (side : Side) :
    Option Seq → List Block.Frame → List Event × Option Seq
  | expected, [] => ([], expected)
  | expected, frame :: rest =>
    let (events, expected) := deliverFrame flow side expected frame
    let (others, expected) := deliverFrames flow side expected rest
    (events ++ others, expected)

end Reassembly.Delivery
