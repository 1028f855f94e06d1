import Reassembly.Block.Header

/-!
The gate before a payload area. It admits a segment to a block only where the segment continues what
the block holds and its frame fits; then the frame is written and the header counts it in.
-/

namespace Reassembly.Block

inductive Verdict where
  /-- Written and counted in. -/
  | ok
  /-- There is no block. -/
  | noBlock
  /-- The frame does not fit; the block is complete now. -/
  | noSpace
  /-- The segment does not start where the block ends. -/
  | inconsistentSeq
  /-- The block was complete before. -/
  | blockClosed
  /-- The segment is empty, or too long for a frame length. -/
  | pushError
  deriving DecidableEq

def Verdict.name : Verdict → String
  | .ok => "Ok"
  | .noBlock => "NoBlock"
  | .noSpace => "NoSpace"
  | .inconsistentSeq => "InconsistentSeq"
  | .blockClosed => "BlockClosed"
  | .pushError => "PushError"

structure Gate where
  capacity : Nat

namespace Gate

def maxSegmentLen (g : Gate) : Nat := g.capacity - (initialSize + frameLengthSize)

/-- Judges `len` bytes from `start` on. The first reason in this order counts: the block is
complete, there are no bytes, they do not fit, they do not continue the block, they are too many. -/
def judge (g : Gate) (h : Header) (start : Seq) (len : Nat) : Verdict :=
  if h.isComplete then .blockClosed
  else if len = 0 then .pushError
  else if !h.hasRoom len g.capacity then .noSpace
  else if h.hasData && start != h.lastAccepted.advance 1 then .inconsistentSeq
  else if UInt32.size ≤ len then .pushError
  else .ok

/-- Offers `data` to a block. An admitted frame goes to `write`, its length before its bytes; the
header that comes back has yet to be stored. -/
def push {m : Type → Type} [Monad m] (g : Gate) (write : Nat → ByteArray → m Unit) (h : Header)
    (data : ByteArray) (start : Seq) (now : Micros) : m (Verdict × Header) :=
  match g.judge h start data.size with
  | .ok => do
    write h.used (Bytes.ofU32 (UInt32.ofNat data.size))
    write (wordSum h.used frameLengthSize) data
    return (.ok, h.accept start data.size now)
  | .noSpace => return (.noSpace, h.close)
  | other => return (other, h)

/-- Offers `data` to a block that is held as a header and a payload area that grows as needed, or to
no block at all. -/
def pushGrowing (g : Gate) (block : Option (Header × ByteArray)) (data : ByteArray) (start : Seq)
    (now : Micros) : Verdict × Option (Header × ByteArray) :=
  match block with
  | none => (.noBlock, none)
  | some (h, area) =>
    let write (offset : Nat) (bytes : ByteArray) : StateM ByteArray Unit :=
      modify (Bytes.growingOverwrite · offset bytes)
    let ((verdict, header), area) := g.push write h data start now |>.run area
    (verdict, some (header, area))

end Gate

end Reassembly.Block
