import Reassembly.Block.Header

/-!
The frames in a payload area. After the initial sequence number each frame is a four-byte length and
that many stream bytes; the position of a frame follows from the base and the lengths before it.
-/

namespace Reassembly.Block

structure Frame where
  start : Seq
  data : ByteArray

namespace Frame

def stop (f : Frame) : Seq := f.start.advance f.data.size

end Frame

/-- The frames from `offset` on, up to the first that is cut off. -/
def framesFrom (payload : ByteArray) (offset : Nat) (start : Seq) : List Frame :=
  if _cut : payload.size < offset + frameLengthSize then []
  else
    let len := (Bytes.u32At payload offset).toNat
    let body := offset + frameLengthSize
    if payload.size < body + len then []
    else ⟨start, Bytes.slice payload body len⟩ :: framesFrom payload (body + len) (start.advance len)
  termination_by payload.size - offset
  decreasing_by simp only [frameLengthSize] at *; omega

def frames (payload : ByteArray) (base : Seq) : List Frame := framesFrom payload initialSize base

def dataLength (frames : List Frame) : Nat := frames.foldr (fun f rest => f.data.size + rest) 0

def initialSeq? (payload : ByteArray) : Option Seq :=
  if initialSize ≤ payload.size then some ⟨Bytes.u32At payload 0⟩ else none

end Reassembly.Block
