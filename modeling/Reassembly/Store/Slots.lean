import Reassembly.Store.Counters
import Reassembly.Store.Layout

/-!
The slots of a store, each a block header and a payload area. Freed slots form a list that runs
through their own headers; a slot comes off that list, or else is the next one never used.
-/

namespace Reassembly.Store.Slots

variable (l : Layout)

/-- Takes a slot. A list that leads to a slot never used, or to one in use, is a fault of the
region. -/
def alloc (c : Counters) : Access (UInt32 × Counters) := do
  if c.freeHead ≠ 0 then
    let slot := c.freeHead - 1
    if c.highWater ≤ slot then throw (.layoutMismatch (.freeListPastHighWater slot))
    let word ← Region.readU32 (l.slotOffset slot)
    if word ≠ Block.freeWord then throw (.layoutMismatch (.freeSlotInUse slot))
    -- Slots begin at multiples of eight, so this sum does not come round.
    let next ← Region.readU32 (l.slotOffset slot + 4)
    return (slot, { c with freeHead := next })
  else if c.highWater < l.maxBlocks then
    return (c.highWater, { c with highWater := c.highWater + 1 })
  else throw (.storeFull l.maxBlocks)

def free (c : Counters) (slot : UInt32) : Access Counters := do
  Region.writeU32 (l.slotOffset slot) Block.freeWord
  Region.writeU32 (l.slotOffset slot + 4) c.freeHead
  return { c with freeHead := slot + 1 }

def header (slot : UInt32) : Access Block.Header := do
  let bytes ← Region.read (l.slotOffset slot) Block.headerSize
  return .ofBytes bytes

def setHeader (slot : UInt32) (h : Block.Header) : Access Unit :=
  Region.write (l.slotOffset slot) h.toBytes

def payload (slot : UInt32) (len : Nat) : Access ByteArray :=
  Region.read (l.payloadOffset slot) (min len l.capacity)

/-- Writes into the payload area and, as long as no sum comes round, never past its end. -/
def writePayload (slot : UInt32) (offset : Nat) (data : ByteArray) : Access Unit := do
  if l.capacity < wordSum offset data.size then throw (.outOfBounds offset data.size l.capacity)
  Region.write (wordSum (l.payloadOffset slot) offset) data

end Reassembly.Store.Slots
