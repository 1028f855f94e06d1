import Reassembly.SparseBytes
import Reassembly.Work

/-!
A region of bytes while its lock is held. Every access names an offset and a length and is refused
unless the whole range lies within the region. The bytes are either process memory, always exactly as
long as the region, or a file that someone may have cut or lengthened meanwhile; an access changes
nothing if it fails.
-/

namespace Reassembly

/-- Where a region's bytes are: an anonymous piece of memory, or a file, with the path as its opener
wrote it and the place where that leads. -/
inductive Place where
  | memory (index : Nat)
  | file (shown place : String)
  deriving DecidableEq, Inhabited

/-- A handle to a region. The length is that at the making of the handle. -/
structure RegionHandle where
  length : Nat
  place : Place
  deriving DecidableEq, Inhabited

def RegionHandle.path? (h : RegionHandle) : Option String :=
  match h.place with
  | .memory _ => none
  | .file shown _ => some shown

structure Region where
  handle : RegionHandle
  bytes : SparseBytes

abbrev Access := Work Region

namespace Region

/-- Refuses a range that does not lie within the region. Sums are exact, so a range that would run
past the last address is refused too. -/
def check (offset len : Nat) : Access Unit := fun r =>
  if offset + len ≤ r.handle.length then .ok () r
  else .error (.outOfBounds offset len r.handle.length) r

/-- Reads memory, or a file, which must reach as far as the bytes asked for. -/
def fetch (offset len : Nat) : Access ByteArray := fun r =>
  match r.handle.place with
  | .memory _ => .ok (r.bytes.read offset len) r
  | .file .. =>
    if len = 0 ∨ offset + len ≤ r.bytes.size then .ok (r.bytes.read offset len) r
    else .error .io r

/-- Writes. Memory reaches as far as its region; a file that was cut grows again. -/
def put (offset : Nat) (data : ByteArray) : Access Unit := fun ⟨handle, bytes⟩ =>
  .ok () ⟨handle, bytes.write offset data⟩

def read (offset len : Nat) : Access ByteArray := do
  check offset len
  fetch offset len

def write (offset : Nat) (data : ByteArray) : Access Unit := do
  check offset data.size
  put offset data

/-- Copies `len` bytes; the ranges may overlap, for all is read before anything is written. -/
def copyWithin (source target len : Nat) : Access Unit := do
  check source len
  check target len
  let moved ← fetch source len
  put target moved

def zero (offset len : Nat) : Access Unit := do
  check offset len
  put offset (Bytes.zeros len)

def readU32 (offset : Nat) : Access UInt32 := do
  let bytes ← read offset 4
  return Bytes.u32At bytes 0

def readU64 (offset : Nat) : Access UInt64 := do
  let bytes ← read offset 8
  return Bytes.u64At bytes 0

def writeU32 (offset : Nat) (word : UInt32) : Access Unit := write offset (Bytes.ofU32 word)

def writeU64 (offset : Nat) (word : UInt64) : Access Unit := write offset (Bytes.ofU64 word)

end Region

end Reassembly
