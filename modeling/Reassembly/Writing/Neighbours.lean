import Reassembly.Store.Held

/-!
The payload blocks of one flow and side that lie nearest to a sequence number. The directory keeps
them in the order of their keys, which is a line; sequence numbers go round a circle. So each search
runs from the number to the end of the line and goes on at its other end.
-/

namespace Reassembly.Writing

open Store

/-- The largest generation, behind every other of the same key. -/
def lastGeneration : UInt64 := 0xFFFFFFFFFFFFFFFF

def positions (start stop : Nat) : List Nat := List.range' start (stop - start)

/-- The start of the nearest payload block ahead of `seq`. Blocks that start at `seq` itself do not
count. -/
def successorStart (l : Layout) (flow : FlowId) (side : Side) (seq : Seq) : Hold (Option Seq) := do
  let first ← Hold.lowerBound ⟨.rangeStart flow side, 0⟩
  let stop ← Hold.upperBound ⟨.rangeEnd flow side, lastGeneration⟩
  let ahead ← Hold.upperBound ⟨.pack flow side seq, lastGeneration⟩
  let probe (pos : Nat) : Hold (Option Seq) := do
    let entry ← Hold.entryAt pos
    if entry.ref.key.seq = seq then return none
    let header ← Hold.header l entry.slot
    return if header.kind.isPayload then some entry.ref.key.seq else none
  Hold.firstAt probe (positions ahead stop ++ positions first ahead)

structure Located where
  entry : Entry
  header : Block.Header

def predecessor (l : Layout) (flow : FlowId) (side : Side) (seq : Seq) : Hold (Option Located) := do
  let first ← Hold.lowerBound ⟨.rangeStart flow side, 0⟩
  let stop ← Hold.upperBound ⟨.rangeEnd flow side, lastGeneration⟩
  let ahead ← Hold.upperBound ⟨.pack flow side seq, lastGeneration⟩
  let probe (pos : Nat) : Hold (Option Located) := do
    let entry ← Hold.entryAt pos
    let header ← Hold.header l entry.slot
    return if header.kind.isPayload then some ⟨entry, header⟩ else none
  Hold.firstAt probe ((positions first ahead).reverse ++ (positions ahead stop).reverse)

end Reassembly.Writing
