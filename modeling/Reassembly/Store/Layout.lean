import Reassembly.Block.Header
import Reassembly.Region

/-!
The division of a store region: a header, one fixed-size record for each block, and one slot for each
block, every part at a multiple of eight. A `Layout` is a geometry that was checked once for all: a
block can hold a frame, there is a block, and the region's length is a 64-bit word. Main facts are
that a header is accepted exactly when it states the offsets that its own geometry gives.
-/

namespace Reassembly.Store

def recordSize : Nat := 24

def alignUp (n : UInt64) : UInt64 := (n + 7) / 8 * 8

def checkedMul (a b : UInt64) : Option UInt64 :=
  if a.toNat * b.toNat < UInt64.size then some (a * b) else none

def checkedAdd (a b : UInt64) : Option UInt64 :=
  if a.toNat + b.toNat < UInt64.size then some (a + b) else none

def slabOffsetFor (maxBlocks : UInt32) : UInt64 :=
  alignUp (UInt64.ofNat headerSize + maxBlocks.toUInt64 * UInt64.ofNat recordSize)

def slotSizeFor (capacity : UInt32) : UInt64 :=
  alignUp (UInt64.ofNat Block.headerSize + capacity.toUInt64)

def regionLength? (capacity maxBlocks : UInt32) : Option UInt64 := do
  let slab ← checkedMul maxBlocks.toUInt64 (slotSizeFor capacity)
  checkedAdd slab (slabOffsetFor maxBlocks)

/-- A usable geometry. -/
structure Layout where
  blockCapacity : UInt32
  maxBlocks : UInt32
  framable : minBlockCapacity ≤ blockCapacity
  inhabited : maxBlocks ≠ 0
  fits : (regionLength? blockCapacity maxBlocks).isSome
  deriving DecidableEq

namespace Layout

def ofGeometry (capacity maxBlocks : UInt32) : Except GeometryFault Layout :=
  if framable : minBlockCapacity ≤ capacity then
    if inhabited : maxBlocks ≠ 0 then
      if fits : (regionLength? capacity maxBlocks).isSome then
        .ok ⟨capacity, maxBlocks, framable, inhabited, fits⟩
      else .error .exceedsAddressSpace
    else .error .noBlocks
  else .error (.capacityTooSmall capacity)

variable (l : Layout)

def slabOffset : UInt64 := slabOffsetFor l.maxBlocks

def slotSize : UInt64 := slotSizeFor l.blockCapacity

def required : Nat := ((regionLength? l.blockCapacity l.maxBlocks).get l.fits).toNat

def capacity : Nat := l.blockCapacity.toNat

/-- Where the block in a slot begins. Slots behind the last one may come round. -/
def slotOffset (slot : UInt32) : Nat := wordSum l.slabOffset.toNat (slot.toNat * l.slotSize.toNat)

def payloadOffset (slot : UInt32) : Nat := wordSum (l.slotOffset slot) Block.headerSize

def fields : HeaderFields :=
  let bare : HeaderFields :=
    { blockCapacity := l.blockCapacity
      maxBlocks := l.maxBlocks
      indexOffset := UInt64.ofNat headerSize
      slabOffset := l.slabOffset
      slotSize := l.slotSize
      checksum := 0 }
  { bare with checksum := bare.computedChecksum }

def toBytes : ByteArray := l.fields.toBytes

def describe : String := l.fields.describe

/-- Reads a header. It must carry the magic, the version and a matching hash, and its offsets must be
those that its own geometry gives; the counters are not looked at. -/
def ofBytes (header : ByteArray) : Except Fault Layout :=
  if header.size < headerSize then .error (.regionTooSmall headerSize header.size)
  else if (Bytes.slice header 0 magic.size).data ≠ magic.data then .error .badMagic
  else
    let version := Bytes.u32At header 8
    if version ≠ formatVersion then .error (.versionMismatch formatVersion version)
    else
      let found := HeaderFields.ofBytes header
      if found.checksum ≠ found.computedChecksum then .error .checksumMismatch
      else
        match ofGeometry found.blockCapacity found.maxBlocks with
        | .error why => .error (.layoutMismatch (.impossible why))
        | .ok expected =>
          if expected.fields ≠ found then
            .error (.layoutMismatch (.foreignOffsets found expected.fields))
          else .ok expected

def checkLength : Access Unit := fun r =>
  if r.handle.length < l.required then .error (.regionTooSmall l.required r.handle.length) r
  else .ok () r

/-- Makes the region an empty store; the bytes behind the header stay as they are. -/
def format : Access Unit := do
  l.checkLength
  Region.write 0 l.toBytes

def attach : Access Layout := do
  let r ← get
  if r.handle.length < headerSize then throw (.regionTooSmall headerSize r.handle.length)
  let header ← Region.read 0 headerSize
  let l ← ofBytes header
  l.checkLength
  return l

end Layout

end Reassembly.Store
