import Reassembly.Bytes

/-!
The 64-bit XXH3 hash with seed zero, for inputs of 33 to 64 bytes. Four pairs of words are mixed with
a fixed secret and added up; a final avalanche spreads every input bit over the result.
-/

namespace Reassembly.Store.Checksum

def secret : List UInt64 :=
  [0xbe4ba423396cfeb8, 0x1cad21f72c81017c, 0xdb979083e96dd4de, 0x1f67b3b7a4a44072,
   0x78e5c0cc4ee679cb, 0x2172ffcc7dd05a82, 0x8e2443f7744608b8, 0x4c263a81e69035e0]

def secretWord (index : Nat) : UInt64 := secret.getD index 0

def foldProduct (a b : UInt64) : UInt64 :=
  let product := a.toNat * b.toNat
  UInt64.ofNat product ^^^ UInt64.ofNat (product / UInt64.size)

def mix (bytes : ByteArray) (offset index : Nat) : UInt64 :=
  foldProduct (Bytes.u64At bytes offset ^^^ secretWord index)
    (Bytes.u64At bytes (offset + 8) ^^^ secretWord (index + 1))

def avalanche (sum : UInt64) : UInt64 :=
  let folded := (sum ^^^ (sum >>> 37)) * 0x165667919E3779F9
  folded ^^^ (folded >>> 32)

def hash (bytes : ByteArray) : UInt64 :=
  avalanche (UInt64.ofNat bytes.size * 0x9E3779B185EBCA87
    + mix bytes 16 4 + mix bytes (bytes.size - 32) 6
    + mix bytes 0 0 + mix bytes (bytes.size - 16) 2)

end Reassembly.Store.Checksum
