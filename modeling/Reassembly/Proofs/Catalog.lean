import Reassembly.Block.Frames
import Reassembly.Proofs.Geometry

/-!
What a store holds, read off its bytes: the live blocks in the order of their records, and the freed
slots in the order of their list. `Holds` says that a held store carries a catalog and that the catalog
is in order; records, headers and payloads are then read without a fault.
-/

namespace Reassembly.Store

/-- A live block: its record, its header, and the used bytes of its payload area. -/
structure Item where
  entry : Entry
  header : Block.Header
  body : ByteArray
  deriving DecidableEq

namespace Item

abbrev ref (item : Item) : Ref := item.entry.ref

abbrev slot (item : Item) : UInt32 := item.entry.slot

abbrev key (item : Item) : FlowKey := item.entry.ref.key

def start (item : Item) : Seq := item.key.seq

def isPayload (item : Item) : Bool := item.header.kind.isPayload

def frames (item : Item) : List Block.Frame := Block.frames item.body item.header.base

end Item

structure Catalog where
  items : List Item
  freed : List UInt32
  highWater : UInt32
  nextGeneration : UInt64

namespace Catalog

def entryIn (s : SparseBytes) (pos : Nat) : Entry :=
  ⟨⟨⟨s.u64 (Directory.offset pos)⟩, s.u64 (Directory.offset pos + 8)⟩,
    s.u32 (Directory.offset pos + 16)⟩

def headerIn (l : Layout) (s : SparseBytes) (slot : UInt32) : Block.Header :=
  .ofBytes (s.read (l.slotOffset slot) Block.headerSize)

def bodyIn (l : Layout) (s : SparseBytes) (slot : UInt32) (len : Nat) : ByteArray :=
  s.read (l.payloadOffset slot) len

def itemOf (l : Layout) (s : SparseBytes) (entry : Entry) : Item :=
  ⟨entry, headerIn l s entry.slot, bodyIn l s entry.slot (headerIn l s entry.slot).used⟩

def countersIn (s : SparseBytes) : Counters := ⟨s.u32 56, s.u32 60, s.u32 64, s.u64 72⟩

def titleSize : Nat := 56

/-- The front of a store: the fixed fields of its layout, then the counters. -/
structure Front (l : Layout) (s : SparseBytes) (c : Counters) : Prop where
  title : s.read 0 titleSize = Bytes.slice l.toBytes 0 titleSize
  counters : countersIn s = c

def itemsIn (l : Layout) (s : SparseBytes) : List Item :=
  (List.range (countersIn s).entryCount.toNat).map fun pos => itemOf l s (entryIn s pos)

/-- The list of freed slots from `head` on. -/
def Chain (l : Layout) (s : SparseBytes) : (head : UInt32) → List UInt32 → Prop
  | head, [] => head = 0
  | head, slot :: rest =>
    head = slot + 1 ∧ s.u32 (l.slotOffset slot) = Block.freeWord ∧
      Chain l s (s.u32 (l.slotOffset slot + 4)) rest

def slots (cat : Catalog) : List UInt32 := cat.items.map Item.slot ++ cat.freed

def Sorted (items : List Item) : Prop := items.Pairwise fun a b => a.ref.rank ≤ b.ref.rank

/-- A catalog in order: records sorted, every slot below the high water in exactly one place, and no
block longer than its area. -/
structure Ordered (l : Layout) (cat : Catalog) : Prop where
  sorted : Sorted cat.items
  nodup : cat.slots.Nodup
  inside : ∀ slot ∈ cat.slots, slot < cat.highWater
  full : cat.items.length + cat.freed.length = cat.highWater.toNat
  high : cat.highWater ≤ l.maxBlocks
  fits : ∀ item ∈ cat.items, item.header.used ≤ l.capacity

end Catalog

open Catalog in
structure Filed (l : Layout) (r : Region) (items : List Item) : Prop where
  reach : r.Reaches l.required
  records : ∀ {pos : Nat} {item : Item}, items[pos]? = some item → entryIn r.bytes pos = item.entry
  room : items.length ≤ l.maxBlocks.toNat
  sorted : Sorted items

open Catalog in
/-- The directory of a held store counts the records of some blocks, and each leads to its header. -/
structure Indexes (l : Layout) (held : Held) (items : List Item) : Prop where
  filed : Filed l held.region items
  count : items.length = held.counters.entryCount.toNat
  slots : ∀ item ∈ items, item.slot.toNat < l.maxBlocks.toNat
  headers : ∀ item ∈ items, headerIn l held.region.bytes item.slot = item.header

open Catalog in
/-- A held store carries a catalog. -/
structure Holds (l : Layout) (held : Held) (cat : Catalog) : Prop where
  reach : held.region.Reaches l.required
  front : Front l held.region.bytes held.counters
  count : cat.items.length = held.counters.entryCount.toNat
  records : ∀ {pos : Nat} {item : Item}, cat.items[pos]? = some item →
    entryIn held.region.bytes pos = item.entry
  blocks : ∀ item ∈ cat.items, item = itemOf l held.region.bytes item.entry
  chain : Chain l held.region.bytes held.counters.freeHead cat.freed
  high : held.counters.highWater = cat.highWater
  next : held.counters.nextGeneration = cat.nextGeneration
  ordered : cat.Ordered l

theorem Hold.onRegion_ok {α : Type} {work : Access α} {held : Held} {a : α} {region : Region}
    (ran : work held.region = .ok a region) :
    Hold.onRegion work held = .ok a ⟨region, held.counters⟩ := by
  cases held
  exact Work.onPart_ok ran

namespace Filed
open Catalog
variable {l : Layout} {r : Region} {items : List Item} (filed : Filed l r items)
include filed

theorem record_inside {pos : Nat} (live : pos < items.length) :
    Directory.offset pos + recordSize ≤ l.required :=
  (l.record_le_slab (live.trans_le filed.room)).trans l.slab_le_required

theorem refAt_run {pos : Nat} (live : pos < items.length) :
    Directory.refAt pos r = .ok items[pos].ref r := by
  have inside := filed.record_inside live
  rw [recordSize] at inside
  rw [Directory.refAt, Work.bind_ok (Region.readU64_run filed.reach (by omega)),
    Work.bind_ok (Region.readU64_run filed.reach (by omega)), Work.pure_run, Item.ref,
    ← filed.records (List.getElem?_eq_getElem live)]
  rfl

theorem entryAt_run {pos : Nat} (live : pos < items.length) :
    Directory.entryAt pos r = .ok items[pos].entry r := by
  have inside := filed.record_inside live
  rw [recordSize] at inside
  have slot : r.bytes.u32 (Directory.offset pos + 16) = items[pos].entry.slot :=
    congrArg Entry.slot (filed.records (List.getElem?_eq_getElem live))
  rw [Directory.entryAt, Work.bind_ok (filed.refAt_run live),
    Work.bind_ok (Region.readU32_run filed.reach (by omega)), Work.pure_run, slot]

end Filed

namespace Indexes
variable {l : Layout} {held : Held} {items : List Item} (indexes : Indexes l held items)
include indexes

theorem entryAt_run {pos : Nat} (live : pos < items.length) :
    Hold.entryAt pos held = .ok items[pos].entry held :=
  Hold.onRegion_ok (indexes.filed.entryAt_run live)

theorem header_run {item : Item} (member : item ∈ items) :
    Hold.header l item.slot held = .ok item.header held := by
  have reach := indexes.filed.reach
  have inside := l.slot_le_required (indexes.slots item member)
  have read := (@Region.read_run _ _ reach (l.slotOffset item.slot) Block.headerSize) (by omega)
  have ran : Slots.header l item.slot held.region = .ok item.header held.region := by
    rw [Slots.header, Work.bind_ok read, Work.pure_run, ← indexes.headers item member]
    rfl
  exact Hold.onRegion_ok ran

end Indexes

theorem Hold.onRegion_error {α : Type} {work : Access α} {held : Held} {fault : Fault}
    {region : Region} (ran : work held.region = .error fault region) :
    Hold.onRegion work held = .error fault ⟨region, held.counters⟩ := by
  cases held
  exact Work.onPart_error ran

theorem Catalog.Ordered.length_le {l : Layout} {cat : Catalog} (ordered : cat.Ordered l) :
    cat.items.length ≤ l.maxBlocks.toNat := by
  have full := ordered.full
  have high := UInt32.le_iff_toNat_le.mp ordered.high
  omega

theorem Catalog.Ordered.slot_lt {l : Layout} {cat : Catalog} (ordered : cat.Ordered l) {slot : UInt32}
    (listed : slot ∈ cat.slots) : slot.toNat < l.maxBlocks.toNat := by
  have low := UInt32.lt_iff_toNat_lt.mp (ordered.inside slot listed)
  have high := UInt32.le_iff_toNat_le.mp ordered.high
  omega

theorem Catalog.Ordered.freed_lt {l : Layout} {cat : Catalog} (ordered : cat.Ordered l) {slot : UInt32}
    (listed : slot ∈ cat.freed) : slot.toNat < l.maxBlocks.toNat :=
  ordered.slot_lt (List.mem_append_right _ listed)

namespace Holds
open Catalog
variable {l : Layout} {held : Held} {cat : Catalog} (holds : Holds l held cat)
include holds

theorem length_le : cat.items.length ≤ l.maxBlocks.toNat := holds.ordered.length_le

theorem filed : Filed l held.region cat.items :=
  ⟨holds.reach, holds.records, holds.length_le, holds.ordered.sorted⟩

theorem slot_lt {item : Item} (member : item ∈ cat.items) :
    item.slot.toNat < l.maxBlocks.toNat :=
  holds.ordered.slot_lt (List.mem_append_left _ (List.mem_map_of_mem member))

theorem header_eq {item : Item} (member : item ∈ cat.items) :
    headerIn l held.region.bytes item.slot = item.header :=
  (congrArg Item.header (holds.blocks item member)).symm

theorem body_eq {item : Item} (member : item ∈ cat.items) :
    bodyIn l held.region.bytes item.slot item.header.used = item.body := by
  have same := congrArg Item.body (holds.blocks item member)
  rw [same, ← holds.header_eq member]
  rfl

theorem size_body {item : Item} (member : item ∈ cat.items) :
    item.body.size = item.header.used := by
  rw [← holds.body_eq member, bodyIn, SparseBytes.size_read]

theorem indexes : Indexes l held cat.items :=
  ⟨holds.filed, holds.count, fun _ => holds.slot_lt, fun _ => holds.header_eq⟩

theorem entryAt_run {pos : Nat} (live : pos < cat.items.length) :
    Hold.entryAt pos held = .ok cat.items[pos].entry held :=
  holds.indexes.entryAt_run live

theorem header_run {item : Item} (member : item ∈ cat.items) :
    Hold.header l item.slot held = .ok item.header held :=
  holds.indexes.header_run member

theorem payload_run {item : Item} (member : item ∈ cat.items) :
    Hold.payload l item.slot item.header.used held = .ok item.body held := by
  have inside := l.slot_le_required (holds.slot_lt member)
  have fits := holds.ordered.fits item member
  have ran : Slots.payload l item.slot item.header.used held.region =
      .ok item.body held.region := by
    rw [Slots.payload, Nat.min_eq_left fits, ← holds.body_eq member]
    exact Region.read_run holds.reach (by rw [l.payloadOffset_eq (holds.slot_lt member)]; omega)
  exact Hold.onRegion_ok ran

end Holds

end Reassembly.Store
