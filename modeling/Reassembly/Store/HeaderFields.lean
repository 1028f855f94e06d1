import Reassembly.Store.Checksum

/-!
The fixed fields of a store header, as the words that stand in the region's first bytes. They say how
the region is divided; the moving counters that follow them in the header are kept apart.
-/

namespace Reassembly.Store

def magic : ByteArray := [0x53, 0x48, 0x4d, 0x46, 0x4c, 0x4f, 0x57, 0].toByteArray

def formatVersion : UInt32 := 1

def headerSize : Nat := 128

structure HeaderFields where
  blockCapacity : UInt32
  maxBlocks : UInt32
  indexOffset : UInt64
  slabOffset : UInt64
  slotSize : UInt64
  checksum : UInt64
  deriving DecidableEq

namespace HeaderFields

/-- The hash that protects the fields, over their bytes without the padding. -/
def computedChecksum (f : HeaderFields) : UInt64 :=
  Checksum.hash (magic ++ Bytes.ofU32 formatVersion ++ Bytes.ofU32 f.blockCapacity
    ++ Bytes.ofU32 f.maxBlocks ++ Bytes.ofU64 f.indexOffset ++ Bytes.ofU64 f.slabOffset
    ++ Bytes.ofU64 f.slotSize)

def toBytes (f : HeaderFields) : ByteArray :=
  magic ++ Bytes.ofU32 formatVersion ++ Bytes.ofU32 f.blockCapacity ++ Bytes.ofU32 f.maxBlocks
    ++ Bytes.zeros 4 ++ Bytes.ofU64 f.indexOffset ++ Bytes.ofU64 f.slabOffset
    ++ Bytes.ofU64 f.slotSize ++ Bytes.ofU64 f.checksum ++ Bytes.zeros 72

def ofBytes (header : ByteArray) : HeaderFields where
  blockCapacity := Bytes.u32At header 12
  maxBlocks := Bytes.u32At header 16
  indexOffset := Bytes.u64At header 24
  slabOffset := Bytes.u64At header 32
  slotSize := Bytes.u64At header 40
  checksum := Bytes.u64At header 48

def describe (f : HeaderFields) : String :=
  "StoreLayout \x7b block_capacity: " ++ toString f.blockCapacity.toNat
    ++ ", max_blocks: " ++ toString f.maxBlocks.toNat
    ++ ", index_offset: " ++ toString f.indexOffset.toNat
    ++ ", slab_offset: " ++ toString f.slabOffset.toNat
    ++ ", slot_size: " ++ toString f.slotSize.toNat
    ++ ", layout_checksum: " ++ toString f.checksum.toNat ++ " \x7d"

end HeaderFields

end Reassembly.Store
