import Reassembly.FlowKey
import Reassembly.Store.Layout

/-!
The directory: a sorted array of records behind the store header, one for each live block, ordered by
reference. Searches halve the array; insertion and removal shift the records behind the place. The
caller knows how many records are live.
-/

namespace Reassembly.Store

structure Entry where
  ref : Ref
  slot : UInt32
  deriving DecidableEq, Inhabited

def Entry.toBytes (e : Entry) : ByteArray :=
  Bytes.ofU64 e.ref.key.raw ++ Bytes.ofU64 e.ref.generation ++ Bytes.ofU32 e.slot ++ Bytes.zeros 4

namespace Directory

def offset (pos : Nat) : Nat := headerSize + pos * recordSize

def refAt (pos : Nat) : Access Ref := do
  let key ← Region.readU64 (offset pos)
  let generation ← Region.readU64 (offset pos + 8)
  return ⟨⟨key⟩, generation⟩

def entryAt (pos : Nat) : Access Entry := do
  let ref ← refAt pos
  let slot ← Region.readU32 (offset pos + 16)
  return ⟨ref, slot⟩

/-- The first position from `lo` to `hi` whose reference fails `test`, which must hold of the
references up to some position and of none behind it. -/
def partitionPoint (test : Ref → Bool) (lo hi : Nat) : Access Nat :=
  if nonempty : lo < hi then do
    let mid := lo + (hi - lo) / 2
    let ref ← refAt mid
    if test ref then partitionPoint test (mid + 1) hi
    else partitionPoint test lo mid
  else return lo
  termination_by hi - lo

def lowerBound (count : Nat) (target : Ref) : Access Nat :=
  partitionPoint (Ref.before · target) 0 count

def upperBound (count : Nat) (target : Ref) : Access Nat :=
  partitionPoint (Ref.upTo · target) 0 count

def find? (count : Nat) (target : Ref) : Access (Option (Nat × Entry)) := do
  let pos ← lowerBound count target
  if pos = count then return none
  let entry ← entryAt pos
  return if entry.ref = target then some (pos, entry) else none

def insert (count : Nat) (entry : Entry) : Access Nat := do
  let pos ← upperBound count entry.ref
  if pos < count then
    Region.copyWithin (offset pos) (offset (pos + 1)) ((count - pos) * recordSize)
  Region.write (offset pos) entry.toBytes
  return pos

/-- Takes the record at `pos` out, the records behind it one back; the last place is zeroed. -/
def remove (count pos : Nat) : Access Unit := do
  let tail := count - pos - 1
  if 0 < tail then
    Region.copyWithin (offset (pos + 1)) (offset pos) (tail * recordSize)
  Region.zero (offset (count - 1)) recordSize

end Directory

end Reassembly.Store
