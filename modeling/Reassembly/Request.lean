import Reassembly.Storage

/-!
What callers ask of a region, one thing at a time, each under the region's lock. Reading into a new buffer
and writing zeros make the buffer before the range is checked; a caller that asks for more bytes than any
buffer can have is stopped there, and hears nothing.
-/

namespace Reassembly

inductive Request where
  /-- Reads into a buffer that the caller has. -/
  | fill (offset len : Nat)
  /-- Reads into a new buffer. -/
  | read (offset len : Nat)
  | write (offset : Nat) (data : ByteArray)
  | copyWithin (source target len : Nat)
  | zero (offset len : Nat)
  | readU32 (offset : Nat)
  | writeU32 (offset : Nat) (word : UInt32)
  | readU64 (offset : Nat)
  | writeU64 (offset : Nat) (word : UInt64)

inductive Reply where
  | done
  | bytes (found : ByteArray)
  | word32 (word : UInt32)
  | word64 (word : UInt64)
  deriving DecidableEq

/-- What a caller hears, which is nothing if it was stopped. -/
abbrev Heard := Option (Except Fault Reply)

namespace Request

def maxBufferLength : Nat := 0x7fffffffffffffff

def bufferLength : Request → Nat
  | .read _ len | .zero _ len => len
  | _ => 0

/-- Asks for a buffer that cannot be made. -/
def Overlong (request : Request) : Prop := maxBufferLength < request.bufferLength

instance (request : Request) : Decidable request.Overlong := inferInstanceAs (Decidable (_ < _))

def work : Request → Access Reply
  | .fill offset len | .read offset len => do return .bytes (← Region.read offset len)
  | .write offset data => do
    Region.write offset data
    return .done
  | .copyWithin source target len => do
    Region.copyWithin source target len
    return .done
  | .zero offset len => do
    Region.zero offset len
    return .done
  | .readU32 offset => do return .word32 (← Region.readU32 offset)
  | .writeU32 offset word => do
    Region.writeU32 offset word
    return .done
  | .readU64 offset => do return .word64 (← Region.readU64 offset)
  | .writeU64 offset word => do
    Region.writeU64 offset word
    return .done

end Request

namespace Storage

def serve (s : Storage) (handle : RegionHandle) (request : Request) : Heard × Storage :=
  if request.Overlong then (none, s)
  else
    match s.lend handle request.work with
    | .ok reply s => (some (.ok reply), s)
    | .error fault s => (some (.error fault), s)

/-- Serves requests one after the other, each through its own handle, and gives all answers. -/
def serveAll (s : Storage) : List (RegionHandle × Request) → List Heard × Storage
  | [] => ([], s)
  | (handle, request) :: rest =>
    let (answer, s) := s.serve handle request
    let (answers, s) := s.serveAll rest
    (answer :: answers, s)

end Storage

end Reassembly
