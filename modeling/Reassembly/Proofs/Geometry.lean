import Reassembly.Proofs.Access
import Reassembly.Store.Held

/-!
Where the parts of a store lie. The counters, the records and the slots of a layout do not overlap,
and all of them end within the required length.
-/

namespace Reassembly.Store

theorem toNat_alignUp (n : UInt64) (small : n.toNat + 7 < 18446744073709551616) :
    (alignUp n).toNat = (n.toNat + 7) / 8 * 8 := by
  simp only [alignUp, UInt64.toNat_mul, UInt64.toNat_div, UInt64.toNat_add, UInt64.reduceToNat]
  omega

theorem toNat_slabOffsetFor (maxBlocks : UInt32) :
    (slabOffsetFor maxBlocks).toNat = (128 + maxBlocks.toNat * 24 + 7) / 8 * 8 := by
  have bound := maxBlocks.toNat_lt
  have inner : (UInt64.ofNat headerSize + maxBlocks.toUInt64 * UInt64.ofNat recordSize).toNat =
      128 + maxBlocks.toNat * 24 := by
    simp only [headerSize, recordSize, UInt64.toNat_add, UInt64.toNat_mul, UInt32.toNat_toUInt64,
      UInt64.reduceOfNat, UInt64.reduceToNat]
    omega
  rw [slabOffsetFor, toNat_alignUp _ (by rw [inner]; omega), inner]

theorem toNat_slotSizeFor (capacity : UInt32) :
    (slotSizeFor capacity).toNat = (40 + capacity.toNat + 7) / 8 * 8 := by
  have bound := capacity.toNat_lt
  have inner : (UInt64.ofNat Block.headerSize + capacity.toUInt64).toNat = 40 + capacity.toNat := by
    simp only [Block.headerSize, UInt64.toNat_add, UInt32.toNat_toUInt64, UInt64.reduceOfNat,
      UInt64.reduceToNat]
    omega
  rw [slotSizeFor, toNat_alignUp _ (by rw [inner]; omega), inner]

theorem toNat_of_checkedMul {a b c : UInt64} (product : checkedMul a b = some c) :
    c.toNat = a.toNat * b.toNat := by
  unfold checkedMul at product
  split at product
  · next small =>
    cases product
    rw [UInt64.toNat_mul, Nat.mod_eq_of_lt small]
  · cases product

theorem toNat_of_checkedAdd {a b c : UInt64} (sum : checkedAdd a b = some c) :
    c.toNat = a.toNat + b.toNat := by
  unfold checkedAdd at sum
  split at sum
  · next small =>
    cases sum
    rw [UInt64.toNat_add, Nat.mod_eq_of_lt small]
  · cases sum

theorem toNat_of_regionLength? {capacity maxBlocks : UInt32} {len : UInt64}
    (length : regionLength? capacity maxBlocks = some len) :
    len.toNat = maxBlocks.toNat * (slotSizeFor capacity).toNat + (slabOffsetFor maxBlocks).toNat := by
  obtain ⟨slab, product, sum⟩ := Option.bind_eq_some_iff.mp length
  rw [toNat_of_checkedAdd sum, toNat_of_checkedMul product, UInt32.toNat_toUInt64]

namespace Layout
variable (l : Layout)

theorem toNat_slabOffset : l.slabOffset.toNat = (128 + l.maxBlocks.toNat * 24 + 7) / 8 * 8 :=
  toNat_slabOffsetFor l.maxBlocks

theorem toNat_slotSize : l.slotSize.toNat = (40 + l.capacity + 7) / 8 * 8 :=
  toNat_slotSizeFor l.blockCapacity

theorem required_eq : l.required = l.maxBlocks.toNat * l.slotSize.toNat + l.slabOffset.toNat :=
  toNat_of_regionLength? (Option.some_get l.fits).symm

theorem nine_le_capacity : 9 ≤ l.capacity := UInt32.le_iff_toNat_le.mp l.framable

theorem capacity_lt : l.capacity < 4294967296 := l.blockCapacity.toNat_lt

theorem record_le_slab {pos : Nat} (live : pos < l.maxBlocks.toNat) :
    Directory.offset pos + recordSize ≤ l.slabOffset.toNat := by
  rw [toNat_slabOffset]
  simp only [Directory.offset, headerSize, recordSize]
  omega

theorem slab_le_required : l.slabOffset.toNat ≤ l.required := by
  rw [required_eq]
  omega

theorem block_le_slotSize : Block.headerSize + l.capacity ≤ l.slotSize.toNat := by
  rw [toNat_slotSize, Block.headerSize]
  omega

theorem headerSize_le_slab : headerSize ≤ l.slabOffset.toNat := by
  rw [toNat_slabOffset, headerSize]
  omega

theorem required_lt : l.required < UInt64.size := UInt64.toNat_lt _

section Slots
variable {slot : UInt32} (live : slot.toNat < l.maxBlocks.toNat)
include live

theorem next_le_required : l.slabOffset.toNat + slot.toNat * l.slotSize.toNat + l.slotSize.toNat ≤ l.required := by
  have turns : (slot.toNat + 1) * l.slotSize.toNat ≤ l.maxBlocks.toNat * l.slotSize.toNat :=
    Nat.mul_le_mul_right _ live
  rw [Nat.add_mul] at turns
  rw [required_eq]
  omega

theorem slotOffset_eq : l.slotOffset slot = l.slabOffset.toNat + slot.toNat * l.slotSize.toNat := by
  have inside := l.next_le_required live
  have word := l.required_lt
  exact wordSum_eq (by omega)

theorem slab_le_slot : l.slabOffset.toNat ≤ l.slotOffset slot := by
  rw [l.slotOffset_eq live]
  exact Nat.le_add_right ..

theorem slot_le_required : l.slotOffset slot + Block.headerSize + l.capacity ≤ l.required := by
  have inside := l.next_le_required live
  have room := l.block_le_slotSize
  rw [l.slotOffset_eq live]
  omega

theorem payloadOffset_eq : l.payloadOffset slot = l.slotOffset slot + Block.headerSize := by
  have inside := l.slot_le_required live
  have word := l.required_lt
  exact wordSum_eq (by omega)

theorem slot_apart {other : UInt32} (live' : other.toNat < l.maxBlocks.toNat) (apart : slot ≠ other) :
    l.slotOffset slot + Block.headerSize + l.capacity ≤ l.slotOffset other ∨
      l.slotOffset other + Block.headerSize + l.capacity ≤ l.slotOffset slot := by
  have room := l.block_le_slotSize
  have numbers : slot.toNat ≠ other.toNat := fun same => apart (UInt32.toNat_inj.mp same)
  rw [l.slotOffset_eq live, l.slotOffset_eq live']
  rcases Nat.lt_or_gt_of_ne numbers with before | behind
  · have := Nat.mul_le_mul_right l.slotSize.toNat (Nat.succ_le_of_lt before)
    rw [Nat.succ_mul] at this
    omega
  · have := Nat.mul_le_mul_right l.slotSize.toNat (Nat.succ_le_of_lt behind)
    rw [Nat.succ_mul] at this
    omega

end Slots

end Layout

end Reassembly.Store
