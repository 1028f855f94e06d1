/-!
Byte strings and the little-endian words in them. A word of any width is written by `littleEndian`
and read by `ofLittleEndian`; the operations on `ByteArray` take a part out, write over a part, and
lengthen with zeros. Each is described by the `byteAt` of its result.
-/

namespace Reassembly

/-- The sum of two offsets or lengths. It is a 64-bit word, so it comes round. -/
def wordSum (a b : Nat) : Nat := (a + b) % UInt64.size

theorem wordSum_eq {a b : Nat} (word : a + b < UInt64.size) : wordSum a b = a + b := Nat.mod_eq_of_lt word

end Reassembly

namespace Reassembly.Bytes

/-- Byte strings are compared by the comparison of the core library, whatever else is imported. -/
instance decidableEq : DecidableEq ByteArray := ByteArray.instDecidableEq

def littleEndian : (width n : Nat) → List UInt8
  | 0, _ => []
  | width + 1, n => UInt8.ofNat n :: littleEndian width (n / 256)

def ofLittleEndian : List UInt8 → Nat
  | [] => 0
  | b :: rest => b.toNat + 256 * ofLittleEndian rest

@[simp] theorem length_littleEndian (width n : Nat) : (littleEndian width n).length = width := by
  induction width generalizing n with
  | zero => rfl
  | succ width ih => simp [littleEndian, ih]

theorem ofLittleEndian_littleEndian (width n : Nat) :
    ofLittleEndian (littleEndian width n) = n % Nat.pow 256 width := by
  induction width generalizing n with
  | zero => simp [littleEndian, ofLittleEndian, Nat.mod_one]
  | succ width ih =>
    have low : (UInt8.ofNat n).toNat = n % 256 := by simp
    have step : Nat.pow 256 (width + 1) = 256 * Nat.pow 256 width := Nat.mul_comm _ _
    rw [littleEndian, ofLittleEndian, ih, low, step, Nat.mod_mul]

def byteAt (bytes : ByteArray) (place : Nat) : UInt8 := bytes.data.getD place 0

def slice (bytes : ByteArray) (offset len : Nat) : ByteArray :=
  bytes.extract offset (offset + len)

/-- `bytes` with `data` written over it at `offset`; it grows where `data` reaches past its end. -/
def overwrite (bytes : ByteArray) (offset : Nat) (data : ByteArray) : ByteArray :=
  data.copySlice 0 bytes offset data.size

def zeros (len : Nat) : ByteArray := ⟨Array.replicate len 0⟩

def padTo (bytes : ByteArray) (len : Nat) : ByteArray :=
  if bytes.size < len then bytes ++ zeros (len - bytes.size) else bytes

def growingOverwrite (bytes : ByteArray) (offset : Nat) (data : ByteArray) : ByteArray :=
  overwrite (padTo bytes (offset + data.size)) offset data

theorem ext_byteAt {a b : ByteArray} (size : a.size = b.size)
    (same : ∀ place, byteAt a place = byteAt b place) : a = b := by
  apply ByteArray.ext
  apply Array.ext size
  intro place left right
  have at_place := same place
  simp only [byteAt, Array.getD_eq_getD_getElem?, Array.getElem?_eq_getElem left,
    Array.getElem?_eq_getElem right, Option.getD_some] at at_place
  exact at_place

theorem size_zeros (len : Nat) : (zeros len).size = len := by
  simp [zeros, ByteArray.size]

theorem byteAt_zeros (len place : Nat) : byteAt (zeros len) place = 0 := by
  simp only [byteAt, zeros, Array.getD_eq_getD_getElem?, Array.getElem?_replicate]
  split <;> rfl

theorem byteAt_append (a b : ByteArray) (place : Nat) :
    byteAt (a ++ b) place = if place < a.size then byteAt a place else byteAt b (place - a.size) := by
  simp only [byteAt, Array.getD_eq_getD_getElem?, ByteArray.data_append, Array.getElem?_append]
  by_cases within : place < a.size
  · rw [if_pos within, if_pos (show place < a.data.size from within)]
  · rw [if_neg within, if_neg (show ¬ place < a.data.size from within)]
    rfl

theorem byteAt_of_size_le (bytes : ByteArray) {place : Nat} (behind : bytes.size ≤ place) :
    byteAt bytes place = 0 := by
  simp only [byteAt, Array.getD_eq_getD_getElem?]
  rw [Array.getElem?_eq_none behind]
  rfl

theorem size_slice (bytes : ByteArray) (offset len : Nat) :
    (slice bytes offset len).size = min len (bytes.size - offset) := by
  rw [slice, ByteArray.size_extract]
  omega

theorem byteAt_slice (bytes : ByteArray) (offset len place : Nat) :
    byteAt (slice bytes offset len) place =
      if place < len then byteAt bytes (offset + place) else 0 := by
  simp only [byteAt, slice, Array.getD_eq_getD_getElem?, ByteArray.data_extract,
    Array.getElem?_extract]
  by_cases inside : place < len
  · by_cases there : offset + place < bytes.data.size
    · rw [if_pos (by omega), if_pos inside]
    · rw [if_neg (by omega), if_pos inside, Array.getElem?_eq_none (by omega)]
  · rw [if_neg (by omega), if_neg inside]
    rfl

theorem slice_empty (offset len : Nat) : slice .empty offset len = .empty := by
  apply ByteArray.ext
  simp [slice]

theorem size_padTo (bytes : ByteArray) (len : Nat) : (padTo bytes len).size = max bytes.size len := by
  unfold padTo
  split
  · rw [ByteArray.size_append, size_zeros]
    omega
  · omega

theorem byteAt_padTo (bytes : ByteArray) (len place : Nat) :
    byteAt (padTo bytes len) place = byteAt bytes place := by
  unfold padTo
  split
  · rw [byteAt_append, byteAt_zeros]
    split
    · rfl
    · exact (byteAt_of_size_le bytes (by omega)).symm
  · rfl

theorem byteAt_overwrite (bytes : ByteArray) (offset : Nat) (data : ByteArray) (place : Nat)
    (near : offset ≤ bytes.size) :
    byteAt (overwrite bytes offset data) place =
      if offset ≤ place ∧ place < offset + data.size then byteAt data (place - offset)
      else byteAt bytes place := by
  have size : (slice bytes 0 offset).size = offset := by
    rw [size_slice]
    omega
  have parts : overwrite bytes offset data =
      slice bytes 0 offset ++ data ++ slice bytes (offset + data.size) bytes.size := by
    apply ByteArray.ext
    simp only [overwrite, ByteArray.copySlice, slice, ByteArray.data_append,
      ByteArray.data_extract, Nat.zero_add, Nat.sub_zero]
    rw [show min data.size data.data.size = data.size from Nat.min_self _,
      show data.data.extract 0 data.size = data.data from Array.extract_size]
    congr 1
    have : bytes.data.size = bytes.size := rfl
    exact Array.extract_eq_extract_right.mpr (by omega)
  rw [parts, byteAt_append, byteAt_append, ByteArray.size_append, size]
  by_cases before : place < offset
  · rw [if_pos (by omega), if_pos before, if_neg (by omega), byteAt_slice, if_pos before,
      Nat.zero_add]
  · by_cases within : place < offset + data.size
    · rw [if_pos within, if_neg before, if_pos (by omega)]
    · rw [if_neg within, if_neg (by omega), byteAt_slice]
      split
      · congr 1
        omega
      · exact (byteAt_of_size_le bytes (by omega)).symm

def wordAt (bytes : ByteArray) (offset width : Nat) : Nat :=
  ofLittleEndian (slice bytes offset width).data.toList

def u32At (bytes : ByteArray) (offset : Nat) : UInt32 := UInt32.ofNat (wordAt bytes offset 4)

def u64At (bytes : ByteArray) (offset : Nat) : UInt64 := UInt64.ofNat (wordAt bytes offset 8)

def flagAt (bytes : ByteArray) (offset : Nat) : Bool := wordAt bytes offset 1 != 0

def ofU32 (word : UInt32) : ByteArray := (littleEndian 4 word.toNat).toByteArray

def ofU64 (word : UInt64) : ByteArray := (littleEndian 8 word.toNat).toByteArray

def ofFlag (flag : Bool) : ByteArray := [if flag then 1 else 0].toByteArray

end Reassembly.Bytes
