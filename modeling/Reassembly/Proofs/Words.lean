import Mathlib.Data.List.Basic
import Mathlib.Algebra.Order.Group.Nat
import Mathlib.Tactic.Common
import Reassembly.Block.Header

/-!
Words in byte strings. What is written as a little-endian word reads back as that word, wherever in a
longer string it stands, and a block header survives its 40 bytes.
-/

namespace Reassembly.Bytes

theorem size_overwrite {bytes data : ByteArray} {offset : Nat} (fits : offset + data.size ≤ bytes.size) :
    (overwrite bytes offset data).size = bytes.size := by
  simp only [overwrite, ByteArray.copySlice, ByteArray.size, Array.size_append, Array.size_extract] at fits ⊢
  omega

@[simp] theorem size_ofU32 (word : UInt32) : (ofU32 word).size = 4 := by
  rw [ofU32, List.size_toByteArray, length_littleEndian]

@[simp] theorem size_ofU64 (word : UInt64) : (ofU64 word).size = 8 := by
  rw [ofU64, List.size_toByteArray, length_littleEndian]

@[simp] theorem size_ofFlag (flag : Bool) : (ofFlag flag).size = 1 := by
  rw [ofFlag, List.size_toByteArray, List.length_singleton]

attribute [simp] size_zeros

theorem wordAt_eq (bytes : ByteArray) (offset width : Nat) :
    wordAt bytes offset width = ofLittleEndian ((bytes.data.toList.drop offset).take width) := by
  rw [wordAt, slice, ByteArray.data_extract, Array.toList_extract, List.extract_eq_take_drop,
    Nat.add_sub_cancel_left]

theorem wordAt_append_left (a b : ByteArray) {offset width : Nat}
    (inside : offset + width ≤ a.size) :
    wordAt (a ++ b) offset width = wordAt a offset width := by
  have length : a.data.toList.length = a.size := rfl
  rw [wordAt_eq, wordAt_eq, ByteArray.toList_data_append, List.drop_append_of_le_length (by omega),
    List.take_append_of_le_length (by rw [List.length_drop]; omega)]

theorem wordAt_append_right (a b : ByteArray) {offset width : Nat} (behind : a.size ≤ offset) :
    wordAt (a ++ b) offset width = wordAt b (offset - a.size) width := by
  have length : a.data.toList.length = a.size := rfl
  rw [wordAt_eq, wordAt_eq, ByteArray.toList_data_append, List.drop_append,
    List.drop_eq_nil_of_le (by omega), List.nil_append, length]

theorem wordAt_ofU32 (word : UInt32) : wordAt (ofU32 word) 0 4 = word.toNat := by
  have whole : ((ofU32 word).data.toList.drop 0).take 4 = littleEndian 4 word.toNat := by
    rw [ofU32, List.data_toByteArray, List.drop_zero]
    exact List.take_of_length_le (by simp)
  rw [wordAt_eq, whole, ofLittleEndian_littleEndian]
  exact Nat.mod_eq_of_lt word.toNat_lt

theorem wordAt_ofU64 (word : UInt64) : wordAt (ofU64 word) 0 8 = word.toNat := by
  have whole : ((ofU64 word).data.toList.drop 0).take 8 = littleEndian 8 word.toNat := by
    rw [ofU64, List.data_toByteArray, List.drop_zero]
    exact List.take_of_length_le (by simp)
  rw [wordAt_eq, whole, ofLittleEndian_littleEndian]
  exact Nat.mod_eq_of_lt word.toNat_lt

theorem wordAt_ofFlag (flag : Bool) : wordAt (ofFlag flag) 0 1 = if flag then 1 else 0 := by
  cases flag <;> decide

@[simp] theorem u32At_ofU32 (word : UInt32) : u32At (ofU32 word) 0 = word := by
  rw [u32At, wordAt_ofU32, UInt32.ofNat_toNat]

@[simp] theorem u64At_ofU64 (word : UInt64) : u64At (ofU64 word) 0 = word := by
  rw [u64At, wordAt_ofU64, UInt64.ofNat_toNat]

theorem ofLittleEndian_replicate (count : Nat) : ofLittleEndian (List.replicate count 0) = 0 := by
  induction count with
  | zero => rfl
  | succ count ih => rw [List.replicate_succ, ofLittleEndian, ih]; rfl

theorem wordAt_zeros (len offset width : Nat) : wordAt (zeros len) offset width = 0 := by
  rw [wordAt_eq, zeros, Array.toList_replicate, List.drop_replicate, List.take_replicate,
    ofLittleEndian_replicate]

theorem wordAt_congr {a b : ByteArray} {offset width : Nat}
    (same : slice a offset width = slice b offset width) :
    wordAt a offset width = wordAt b offset width := by
  rw [wordAt, wordAt, same]

theorem littleEndian_ofLittleEndian (bytes : List UInt8) :
    littleEndian bytes.length (ofLittleEndian bytes) = bytes := by
  induction bytes with
  | nil => rfl
  | cons b rest ih =>
    have low : UInt8.ofNat (b.toNat + 256 * ofLittleEndian rest) = b := by
      apply UInt8.toNat_inj.mp
      have bound := b.toNat_lt
      rw [UInt8.toNat_ofNat']
      omega
    have high : (b.toNat + 256 * ofLittleEndian rest) / 256 = ofLittleEndian rest := by
      have bound := b.toNat_lt
      omega
    rw [List.length_cons, ofLittleEndian, littleEndian, low, high, ih]

theorem ofLittleEndian_lt (bytes : List UInt8) : ofLittleEndian bytes < Nat.pow 256 bytes.length := by
  have same := ofLittleEndian_littleEndian bytes.length (ofLittleEndian bytes)
  rw [littleEndian_ofLittleEndian] at same
  rw [same]
  exact Nat.mod_lt _ (Nat.pow_pos (by decide))

theorem slice_add (bytes : ByteArray) (offset first second : Nat) :
    slice bytes offset (first + second) = slice bytes offset first ++ slice bytes (offset + first) second := by
  unfold slice
  rw [ByteArray.extract_append_extract, Nat.min_eq_left (by omega), Nat.max_eq_right (by omega), Nat.add_assoc]

theorem slice_add_eq_iff {a b : ByteArray} {offset first second : Nat} :
    slice a offset (first + second) = slice b offset (first + second) ↔
      slice a offset first = slice b offset first ∧
        slice a (offset + first) second = slice b (offset + first) second := by
  have front (c : ByteArray) : slice (slice c offset (first + second)) 0 first = slice c offset first := by
    unfold slice
    rw [ByteArray.extract_extract]
    congr 1
    omega
  have back (c : ByteArray) :
      slice (slice c offset (first + second)) first second = slice c (offset + first) second := by
    unfold slice
    rw [ByteArray.extract_extract]
    congr 1
    omega
  constructor
  · intro whole
    rw [← front a, ← front b, ← back a, ← back b, whole]
    exact ⟨rfl, rfl⟩
  · rintro ⟨early, late⟩
    rw [slice_add, slice_add, early, late]

theorem size_slice_of_le {bytes : ByteArray} {offset width : Nat} (inside : offset + width ≤ bytes.size) :
    (slice bytes offset width).size = width := by
  rw [size_slice]
  omega

theorem slice_eq_littleEndian {bytes : ByteArray} {offset width : Nat} (inside : offset + width ≤ bytes.size) :
    slice bytes offset width = (littleEndian width (wordAt bytes offset width)).toByteArray := by
  have length : (slice bytes offset width).data.toList.length = width := size_slice_of_le inside
  have same := littleEndian_ofLittleEndian (slice bytes offset width).data.toList
  rw [length] at same
  unfold wordAt
  rw [same]
  apply ByteArray.ext
  rw [List.data_toByteArray]

theorem wordAt_lt {bytes : ByteArray} {offset width : Nat} (inside : offset + width ≤ bytes.size) :
    wordAt bytes offset width < Nat.pow 256 width := by
  have length : (slice bytes offset width).data.toList.length = width := size_slice_of_le inside
  have bound := ofLittleEndian_lt (slice bytes offset width).data.toList
  rw [length] at bound
  exact bound

theorem ofU32_u32At {bytes : ByteArray} {offset : Nat} (inside : offset + 4 ≤ bytes.size) :
    ofU32 (u32At bytes offset) = slice bytes offset 4 := by
  have small : wordAt bytes offset 4 < UInt32.size := wordAt_lt inside
  unfold ofU32 u32At
  rw [UInt32.toNat_ofNat_of_lt' small, slice_eq_littleEndian inside]

theorem ofU64_u64At {bytes : ByteArray} {offset : Nat} (inside : offset + 8 ≤ bytes.size) :
    ofU64 (u64At bytes offset) = slice bytes offset 8 := by
  have small : wordAt bytes offset 8 < UInt64.size := wordAt_lt inside
  unfold ofU64 u64At
  rw [UInt64.toNat_ofNat_of_lt' small, slice_eq_littleEndian inside]

theorem u32At_congr {a b : ByteArray} {offset : Nat} (same : slice a offset 4 = slice b offset 4) :
    u32At a offset = u32At b offset := by
  unfold u32At
  rw [wordAt_congr same]

theorem u64At_congr {a b : ByteArray} {offset : Nat} (same : slice a offset 8 = slice b offset 8) :
    u64At a offset = u64At b offset := by
  unfold u64At
  rw [wordAt_congr same]

end Reassembly.Bytes

namespace Reassembly.Block.Header
open Bytes

@[simp] theorem size_toBytes (h : Header) : h.toBytes.size = headerSize := by
  simp [toBytes, headerSize]

theorem ofBytes_toBytes (h : Header) : ofBytes h.toBytes = h := by
  simp (disch := simp) only [ofBytes, toBytes, u32At, u64At, flagAt, wordAt_append_left,
    wordAt_append_right, ByteArray.size_append, size_ofU32, size_ofU64, size_ofFlag, size_zeros,
    Nat.reduceAdd, Nat.reduceSub, wordAt_ofU32, wordAt_ofU64, wordAt_ofFlag, UInt32.ofNat_toNat,
    UInt64.ofNat_toNat, Kind.ofWord_toWord]
  cases h with
  | mk kind reserved isComplete hasData base lastUpdate lastAccepted usedLen =>
    cases isComplete <;> cases hasData <;> rfl

end Reassembly.Block.Header
