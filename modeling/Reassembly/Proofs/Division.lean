import Reassembly.Proofs.Geometry
import Reassembly.Proofs.Opening

/-!
How a region is divided. Every product and every sum that an offset takes is a 64-bit word, so arithmetic
that refuses what is none gives the same offsets; there is a layout exactly when its length is a word. The
header, the records and the slots of a layout then lie apart, each at a multiple of eight, and all of them
end within the length.
-/

namespace Reassembly.Store

/-- `alignUp` with each of its results checked. -/
def alignUp? (n : UInt64) : Option UInt64 := do
  let raised ← checkedAdd n 7
  checkedMul (raised / 8) 8

def slabOffsetFor? (maxBlocks : UInt32) : Option UInt64 := do
  let records ← checkedMul maxBlocks.toUInt64 (UInt64.ofNat recordSize)
  let stop ← checkedAdd (UInt64.ofNat headerSize) records
  alignUp? stop

def slotSizeFor? (capacity : UInt32) : Option UInt64 := do
  let len ← checkedAdd (UInt64.ofNat Block.headerSize) capacity.toUInt64
  alignUp? len

def recordOffset? (pos : UInt64) : Option UInt64 := do
  let before ← checkedMul pos (UInt64.ofNat recordSize)
  checkedAdd (UInt64.ofNat headerSize) before

def Layout.slotOffset? (l : Layout) (slot : UInt32) : Option UInt64 := do
  let before ← checkedMul slot.toUInt64 l.slotSize
  checkedAdd l.slabOffset before

def roundUp (n : Nat) : Nat := (n + 7) / 8 * 8

def exactLength (capacity maxBlocks : UInt32) : Nat :=
  roundUp (headerSize + maxBlocks.toNat * recordSize) +
    maxBlocks.toNat * roundUp (Block.headerSize + capacity.toNat)

theorem checkedMul_eq {a b : UInt64} (small : a.toNat * b.toNat < UInt64.size) :
    checkedMul a b = some (a * b) := by
  unfold checkedMul
  exact if_pos small

theorem checkedAdd_eq {a b : UInt64} (small : a.toNat + b.toNat < UInt64.size) :
    checkedAdd a b = some (a + b) := by
  unfold checkedAdd
  exact if_pos small

theorem alignUp?_eq {n : UInt64} (small : n.toNat + 7 < UInt64.size) : alignUp? n = some (alignUp n) := by
  have sum : (n + 7).toNat = n.toNat + 7 := by
    rw [UInt64.toNat_add]
    exact Nat.mod_eq_of_lt small
  have back : ((n + 7) / 8).toNat * (8 : UInt64).toNat < UInt64.size := by
    rw [UInt64.toNat_div, sum]
    simp only [UInt64.reduceToNat]
    omega
  unfold alignUp?
  rw [checkedAdd_eq (by simpa using small), Option.bind_eq_bind, Option.bind_some, checkedMul_eq back]
  rfl

theorem slabOffsetFor?_eq (maxBlocks : UInt32) :
    slabOffsetFor? maxBlocks = some (slabOffsetFor maxBlocks) := by
  have bound := maxBlocks.toNat_lt
  have records : (maxBlocks.toUInt64 * UInt64.ofNat recordSize).toNat = maxBlocks.toNat * 24 := by
    simp only [recordSize, UInt64.toNat_mul, UInt32.toNat_toUInt64, UInt64.reduceOfNat, UInt64.reduceToNat]
    omega
  have stop : (UInt64.ofNat headerSize + maxBlocks.toUInt64 * UInt64.ofNat recordSize).toNat =
      128 + maxBlocks.toNat * 24 := by
    rw [UInt64.toNat_add, records]
    simp only [headerSize, UInt64.reduceOfNat, UInt64.reduceToNat]
    omega
  unfold slabOffsetFor?
  rw [checkedMul_eq, Option.bind_eq_bind, Option.bind_some, checkedAdd_eq, Option.bind_some,
    alignUp?_eq]
  · rfl
  · rw [stop, UInt64.size]
    omega
  · rw [records]
    simp only [headerSize, UInt64.reduceOfNat, UInt64.reduceToNat, UInt64.size]
    omega
  · simp only [recordSize, UInt32.toNat_toUInt64, UInt64.reduceOfNat, UInt64.reduceToNat, UInt64.size]
    omega

theorem slotSizeFor?_eq (capacity : UInt32) : slotSizeFor? capacity = some (slotSizeFor capacity) := by
  have bound := capacity.toNat_lt
  have len : (UInt64.ofNat Block.headerSize + capacity.toUInt64).toNat = 40 + capacity.toNat := by
    simp only [Block.headerSize, UInt64.toNat_add, UInt32.toNat_toUInt64, UInt64.reduceOfNat,
      UInt64.reduceToNat]
    omega
  unfold slotSizeFor?
  rw [checkedAdd_eq, Option.bind_eq_bind, Option.bind_some, alignUp?_eq]
  · rfl
  · rw [len, UInt64.size]
    omega
  · simp only [Block.headerSize, UInt32.toNat_toUInt64, UInt64.reduceOfNat, UInt64.reduceToNat, UInt64.size]
    omega

theorem recordOffset?_eq {pos : Nat} (small : headerSize + pos * recordSize < UInt64.size) :
    recordOffset? (UInt64.ofNat pos) = some (UInt64.ofNat (Directory.offset pos)) := by
  simp only [headerSize, recordSize, UInt64.size] at small
  have number : (UInt64.ofNat pos).toNat = pos := by
    apply UInt64.toNat_ofNat_of_lt'
    rw [UInt64.size]
    omega
  have before : (UInt64.ofNat pos * UInt64.ofNat recordSize).toNat = pos * 24 := by
    rw [UInt64.toNat_mul, number]
    simp only [recordSize, UInt64.reduceOfNat, UInt64.reduceToNat]
    omega
  unfold recordOffset?
  rw [checkedMul_eq, Option.bind_eq_bind, Option.bind_some, checkedAdd_eq]
  · unfold Directory.offset
    rw [← UInt64.ofNat_mul, ← UInt64.ofNat_add]
  · rw [before]
    simp only [headerSize, UInt64.reduceOfNat, UInt64.reduceToNat, UInt64.size]
    omega
  · rw [number]
    simp only [recordSize, UInt64.reduceOfNat, UInt64.reduceToNat, UInt64.size]
    omega

theorem regionLength?_isSome_iff (capacity maxBlocks : UInt32) :
    (regionLength? capacity maxBlocks).isSome ↔ exactLength capacity maxBlocks < UInt64.size := by
  have exact_slab := toNat_slabOffsetFor maxBlocks
  have exact_slot := toNat_slotSizeFor capacity
  have whole : exactLength capacity maxBlocks =
      (slabOffsetFor maxBlocks).toNat + maxBlocks.toNat * (slotSizeFor capacity).toNat := by
    rw [exact_slab, exact_slot]
    rfl
  rw [whole]
  constructor
  · intro given
    obtain ⟨len, length⟩ := Option.isSome_iff_exists.mp given
    have same := toNat_of_regionLength? length
    have bound := len.toNat_lt
    simp only [UInt64.size]
    omega
  · intro small
    have slots : maxBlocks.toUInt64.toNat * (slotSizeFor capacity).toNat < UInt64.size := by
      rw [UInt32.toNat_toUInt64]
      omega
    unfold regionLength?
    rw [checkedMul_eq slots, Option.bind_eq_bind, Option.bind_some, checkedAdd_eq]
    · rfl
    · rw [UInt64.toNat_mul, Nat.mod_eq_of_lt slots, UInt32.toNat_toUInt64]
      omega

namespace Layout

theorem exists_ofGeometry_iff (capacity maxBlocks : UInt32) :
    (∃ l, ofGeometry capacity maxBlocks = .ok l) ↔
      9 ≤ capacity.toNat ∧ 1 ≤ maxBlocks.toNat ∧ exactLength capacity maxBlocks < UInt64.size := by
  have framable : minBlockCapacity ≤ capacity ↔ 9 ≤ capacity.toNat := UInt32.le_iff_toNat_le
  have inhabited : maxBlocks ≠ 0 ↔ 1 ≤ maxBlocks.toNat := by
    rw [ne_eq, ← UInt32.toNat_inj, UInt32.toNat_zero]
    omega
  rw [← regionLength?_isSome_iff, ← framable, ← inhabited]
  unfold ofGeometry
  constructor
  · rintro ⟨l, found⟩
    split at found
    · next enough =>
      split at found
      · next some =>
        split at found
        · next fits => exact ⟨enough, some, fits⟩
        · cases found
      · cases found
    · cases found
  · rintro ⟨enough, some, fits⟩
    rw [dif_pos enough, dif_pos some, dif_pos fits]
    exact ⟨_, rfl⟩

theorem required_eq_exactLength (l : Layout) : l.required = exactLength l.blockCapacity l.maxBlocks := by
  rw [required_eq, toNat_slotSize, toNat_slabOffset, Nat.add_comm]
  rfl

inductive Part where
  | header
  | record (pos : Nat)
  | slot (number : UInt32)
  deriving DecidableEq

namespace Part

def IsOf (l : Layout) : Part → Prop
  | header => True
  | record pos => pos < l.maxBlocks.toNat
  | slot number => number < l.maxBlocks

def start (l : Layout) : Part → Nat
  | header => 0
  | record pos => Directory.offset pos
  | slot number => l.slotOffset number

def size (l : Layout) : Part → Nat
  | header => headerSize
  | record _ => recordSize
  | slot _ => Block.headerSize + l.capacity

def stop (l : Layout) (part : Part) : Nat := part.start l + part.size l

variable {l : Layout}

theorem headerSize_le_record (pos : Nat) : headerSize ≤ Directory.offset pos := by
  unfold Directory.offset
  exact Nat.le_add_right ..

theorem record_apart {pos other : Nat} (apart : pos ≠ other) :
    Directory.offset pos + recordSize ≤ Directory.offset other ∨
      Directory.offset other + recordSize ≤ Directory.offset pos := by
  simp only [Directory.offset, recordSize]
  omega

theorem stop_le_required {part : Part} (own : part.IsOf l) : part.stop l ≤ l.required := by
  have room := l.headerSize_le_slab
  have slab := l.slab_le_required
  unfold stop
  cases part with
  | header =>
    simp only [start, size]
    omega
  | record pos =>
    have inside := l.record_le_slab own
    simp only [start, size]
    omega
  | slot number =>
    have inside := l.slot_le_required (UInt32.lt_iff_toNat_lt.mp own)
    simp only [start, size]
    omega

theorem stop_le_start {a b : Part} (first : a.IsOf l) (second : b.IsOf l) (apart : a ≠ b) :
    a.stop l ≤ b.start l ∨ b.stop l ≤ a.start l := by
  have room := l.headerSize_le_slab
  unfold stop
  cases a with
  | header =>
    cases b with
    | header => exact absurd rfl apart
    | record pos =>
      have behind := headerSize_le_record pos
      simp only [start, size]
      omega
    | slot number =>
      have behind := l.slab_le_slot (UInt32.lt_iff_toNat_lt.mp second)
      simp only [start, size]
      omega
  | record pos =>
    have inside := l.record_le_slab first
    cases b with
    | header =>
      have behind := headerSize_le_record pos
      simp only [start, size]
      omega
    | record other =>
      apply record_apart
      intro same
      exact apart (congrArg record same)
    | slot number =>
      have behind := l.slab_le_slot (UInt32.lt_iff_toNat_lt.mp second)
      simp only [start, size]
      omega
  | slot number =>
    have behind := l.slab_le_slot (UInt32.lt_iff_toNat_lt.mp first)
    cases b with
    | header =>
      simp only [start, size]
      omega
    | record pos =>
      have inside := l.record_le_slab second
      simp only [start, size]
      omega
    | slot other =>
      have slots := l.slot_apart (UInt32.lt_iff_toNat_lt.mp first) (UInt32.lt_iff_toNat_lt.mp second)
        fun same => apart (congrArg slot same)
      simp only [start, size]
      omega

theorem eight_dvd_start {part : Part} (own : part.IsOf l) : 8 ∣ part.start l := by
  cases part with
  | header => exact ⟨0, rfl⟩
  | record pos =>
    simp only [start, Directory.offset, headerSize, recordSize]
    omega
  | slot number =>
    have slab : 8 ∣ l.slabOffset.toNat := by
      rw [toNat_slabOffset]
      exact Nat.dvd_mul_left ..
    have size : 8 ∣ l.slotSize.toNat := by
      rw [toNat_slotSize]
      exact Nat.dvd_mul_left ..
    rw [start, l.slotOffset_eq (UInt32.lt_iff_toNat_lt.mp own)]
    exact Nat.dvd_add slab (Nat.dvd_mul_left_of_dvd size _)

end Part

theorem slotOffset?_eq (l : Layout) {slot : UInt32} (live : slot < l.maxBlocks) :
    l.slotOffset? slot = some (UInt64.ofNat (l.slotOffset slot)) := by
  have whole := l.required_lt
  have below := UInt32.lt_iff_toNat_lt.mp live
  have inside := l.next_le_required below
  have before : slot.toUInt64.toNat * l.slotSize.toNat < UInt64.size := by
    rw [UInt32.toNat_toUInt64]
    omega
  have product : (slot.toUInt64 * l.slotSize).toNat = slot.toNat * l.slotSize.toNat := by
    rw [UInt64.toNat_mul, Nat.mod_eq_of_lt before, UInt32.toNat_toUInt64]
  unfold slotOffset?
  rw [checkedMul_eq before, Option.bind_eq_bind, Option.bind_some, checkedAdd_eq (by rw [product]; omega)]
  congr 1
  apply UInt64.toNat_inj.mp
  rw [UInt64.toNat_add, product, UInt64.toNat_ofNat', l.slotOffset_eq below]

/-- A region that is divided well: its offsets are words, and its parts lie apart, within the length and at
multiples of eight. -/
structure IsDivided (l : Layout) : Prop where
  length : l.required = exactLength l.blockCapacity l.maxBlocks
  records : ∀ pos ≤ l.maxBlocks.toNat, ∃ word : UInt64,
    recordOffset? (UInt64.ofNat pos) = some word ∧ word.toNat = Directory.offset pos
  slots : ∀ slot < l.maxBlocks, ∃ word : UInt64,
    l.slotOffset? slot = some word ∧ word.toNat = l.slotOffset slot
  apart : ∀ a b : Part, a.IsOf l → b.IsOf l → a ≠ b → a.stop l ≤ b.start l ∨ b.stop l ≤ a.start l
  inside : ∀ part : Part, part.IsOf l → part.stop l ≤ l.required
  aligned : ∀ part : Part, part.IsOf l → 8 ∣ part.start l

theorem isDivided (l : Layout) : l.IsDivided where
  length := l.required_eq_exactLength
  records pos within := by
    have blocks := l.maxBlocks.toNat_lt
    have small : headerSize + pos * recordSize < UInt64.size := by
      simp only [headerSize, recordSize, UInt64.size]
      omega
    exact ⟨_, recordOffset?_eq small, UInt64.toNat_ofNat_of_lt' small⟩
  slots slot live := by
    have inside := l.slot_le_required (UInt32.lt_iff_toNat_lt.mp live)
    have whole := l.required_lt
    exact ⟨_, l.slotOffset?_eq live, UInt64.toNat_ofNat_of_lt' (by omega)⟩
  apart _ _ first second := Part.stop_le_start first second
  inside _ own := Part.stop_le_required own
  aligned _ own := Part.eight_dvd_start own

/-- There is a layout for a geometry exactly when a block can hold a frame, there is a block, and the exact
length is a 64-bit word. What the layout is computed from never leaves the words, whatever the geometry, and
a region of the layout is divided well. -/
theorem divides (capacity maxBlocks : UInt32) :
    ((∃ l, ofGeometry capacity maxBlocks = .ok l) ↔
      9 ≤ capacity.toNat ∧ 1 ≤ maxBlocks.toNat ∧ exactLength capacity maxBlocks < 2 ^ 64) ∧
    (∃ slab, slabOffsetFor? maxBlocks = some slab ∧ slab = slabOffsetFor maxBlocks ∧
      slab.toNat = roundUp (headerSize + maxBlocks.toNat * recordSize)) ∧
    (∃ size, slotSizeFor? capacity = some size ∧ size = slotSizeFor capacity ∧
      size.toNat = roundUp (Block.headerSize + capacity.toNat)) ∧
    ∀ l, ofGeometry capacity maxBlocks = .ok l →
      l.blockCapacity = capacity ∧ l.maxBlocks = maxBlocks ∧ l.IsDivided := by
  refine ⟨exists_ofGeometry_iff capacity maxBlocks, ?_, ?_, ?_⟩
  · exact ⟨_, slabOffsetFor?_eq maxBlocks, rfl, toNat_slabOffsetFor maxBlocks⟩
  · exact ⟨_, slotSizeFor?_eq capacity, rfl, toNat_slotSizeFor capacity⟩
  · intro l found
    obtain ⟨sameCapacity, sameBlocks⟩ := ofGeometry_eq found
    exact ⟨sameCapacity, sameBlocks, l.isDivided⟩

/-- The largest blocks, and as many as can be numbered, are too long together. -/
example : ofGeometry 4294967295 4294967295 = .error .exceedsAddressSpace := by decide

end Layout

end Reassembly.Store
