import Reassembly.Store.HeaderFields

/-!
What can go wrong, as causes, and the text of each. `Fault.isLayout` marks the faults that say the
region cannot be trusted, `Fault.isTransient` those that may pass.
-/

namespace Reassembly

inductive GeometryFault where
  | capacityTooSmall (capacity : UInt32)
  | noBlocks
  | exceedsAddressSpace
  deriving DecidableEq

inductive ConfigFault where
  | geometry (capacity : Option UInt32)
  | blockCapacity (capacity : UInt32)
  | noBlocks
  | noIdleTimeout
  | noWriterTimeout
  | noHandlers
  | noFlowTimeout
  | writerOutlivesReader (writer reader : UInt64)
  | noHandlerToRouteTo
  | described (detail : String)
  deriving DecidableEq

inductive LayoutFault where
  | exceedsAddressSpace
  | impossible (why : GeometryFault)
  | foreignOffsets (found expected : Store.HeaderFields)
  | entryCount (count capacity : UInt32)
  | freeListPastHighWater (slot : UInt32)
  | freeSlotInUse (slot : UInt32)
  | described (detail : String)
  deriving DecidableEq

inductive Fault where
  | io
  | cannotOpen (path : String)
  | regionTooSmall (required actual : Nat)
  | outOfBounds (offset len regionLength : Nat)
  | badMagic
  | versionMismatch (expected found : UInt32)
  | checksumMismatch
  | layoutMismatch (why : LayoutFault)
  | storeFull (maxBlocks : UInt32)
  | cancelled
  | worker (detail : String)
  | invalidConfig (why : ConfigFault)
  | unreadableConfig
  deriving DecidableEq

/-- The smallest block capacity: the initial sequence number, one frame length and one byte. -/
def minBlockCapacity : UInt32 := 9

def ConfigFault.detail : ConfigFault → String
  | .geometry (some capacity) =>
    "block capacity " ++ toString capacity.toNat ++ " cannot frame a segment (minimum "
      ++ toString minBlockCapacity.toNat ++ ")"
  | .geometry none => "store needs at least one block"
  | .blockCapacity capacity =>
    "store.block_capacity must be at least " ++ toString minBlockCapacity.toNat ++ ", got "
      ++ toString capacity.toNat
  | .noBlocks => "store.max_blocks must be non-zero"
  | .noIdleTimeout => "store.block_idle_timeout_us must be non-zero"
  | .noWriterTimeout => "store.writer_flow_timeout_us must be non-zero"
  | .noHandlers => "shards.handler_count must be at least 1"
  | .noFlowTimeout => "shards.flow_timeout_us must be non-zero"
  | .writerOutlivesReader writer reader =>
    "store.writer_flow_timeout_us (" ++ toString writer.toNat
      ++ ") must be below shards.flow_timeout_us (" ++ toString reader.toNat ++ ")"
  | .noHandlerToRouteTo => "distributor needs at least one handler"
  | .described detail => detail

def ConfigFault.message (why : ConfigFault) : String := "invalid configuration: " ++ why.detail

def layoutMessage (detail : String) : String := "store layout mismatch: " ++ detail

/-- The text of a geometry that gives no store: the first two are faults of the configuration. -/
def GeometryFault.message : GeometryFault → String
  | .capacityTooSmall capacity => (ConfigFault.geometry (some capacity)).message
  | .noBlocks => (ConfigFault.geometry none).message
  | .exceedsAddressSpace => layoutMessage "store geometry exceeds address space"

def LayoutFault.detail : LayoutFault → String
  | .exceedsAddressSpace => "store geometry exceeds address space"
  | .impossible why => why.message
  | .foreignOffsets found expected =>
    "offsets do not match geometry: found " ++ found.describe ++ ", expected " ++ expected.describe
  | .entryCount count capacity =>
    "entry count " ++ toString count.toNat ++ " exceeds capacity " ++ toString capacity.toNat
  | .freeListPastHighWater slot =>
    "free list points past high water: slot " ++ toString slot.toNat
  | .freeSlotInUse slot => "free list entry " ++ toString slot.toNat ++ " is in use"
  | .described detail => detail

namespace Fault

def ofGeometry : GeometryFault → Fault
  | .capacityTooSmall capacity => .invalidConfig (.geometry (some capacity))
  | .noBlocks => .invalidConfig (.geometry none)
  | .exceedsAddressSpace => .layoutMismatch .exceedsAddressSpace

/-- The text of a fault. What the operating system or the reader of a document has to say is left
to them. -/
def message : Fault → String
  | .io => "I/O error"
  | .cannotOpen path => "unable to open shared region: '" ++ path ++ "'"
  | .regionTooSmall required actual =>
    "shared region too small: need " ++ toString required ++ " bytes, have " ++ toString actual
  | .outOfBounds offset len regionLength =>
    "region access out of bounds: offset " ++ toString offset ++ " len " ++ toString len
      ++ " region " ++ toString regionLength
  | .badMagic => "shared region has bad magic"
  | .versionMismatch expected found =>
    "store layout version mismatch: expected " ++ toString expected.toNat ++ ", found "
      ++ toString found.toNat
  | .checksumMismatch => "store header checksum mismatch"
  | .layoutMismatch why => layoutMessage why.detail
  | .storeFull maxBlocks => "store is full: " ++ toString maxBlocks.toNat ++ " blocks in use"
  | .cancelled => "operation cancelled"
  | .worker detail => "worker thread failure: " ++ detail
  | .invalidConfig why => why.message
  | .unreadableConfig => "configuration parse error"

/-- The region cannot be trusted: a handle must not attach to it. -/
def isLayout : Fault → Bool
  | .regionTooSmall .. | .badMagic | .versionMismatch .. | .checksumMismatch | .layoutMismatch _ =>
    true
  | _ => false

def isTransient : Fault → Bool
  | .storeFull _ => true
  | _ => false

end Fault

end Reassembly
