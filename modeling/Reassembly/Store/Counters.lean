import Reassembly.Region

/-!
The moving fields of a store header: how many records are live, where the list of freed slots begins,
how many slots were ever taken, and the generation of the next insertion.
-/

namespace Reassembly.Store

/-- The counters of a store. `freeHead` is one more than a slot number, zero for an empty list. -/
structure Counters where
  entryCount : UInt32
  freeHead : UInt32
  highWater : UInt32
  nextGeneration : UInt64
  deriving DecidableEq, Inhabited

namespace Counters

def load : Access Counters := do
  let entryCount ← Region.readU32 56
  let freeHead ← Region.readU32 60
  let highWater ← Region.readU32 64
  let nextGeneration ← Region.readU64 72
  return ⟨entryCount, freeHead, highWater, nextGeneration⟩

def save (c : Counters) : Access Unit := do
  Region.writeU32 56 c.entryCount
  Region.writeU32 60 c.freeHead
  Region.writeU32 64 c.highWater
  Region.writeU64 72 c.nextGeneration

end Counters

end Reassembly.Store
