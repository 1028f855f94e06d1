import Mathlib.Data.List.Perm.Basic
import Mathlib.Data.List.Perm.Subperm
import Mathlib.Data.List.Range
import Reassembly.Proofs.Records

/-!
Blocks come and go. A new block takes the head of the list of freed slots, or else the next slot never
used; a removed block gives its slot back to the head of that list. Insertion fails only when every
slot is taken, and then changes nothing.
-/

namespace Reassembly.Store

namespace Catalog

/-- The slot that the next block takes. -/
def nextSlot? (l : Layout) (cat : Catalog) : Option UInt32 :=
  match cat.freed with
  | slot :: _ => some slot
  | [] => if cat.highWater < l.maxBlocks then some cat.highWater else none

def shelve (cat : Catalog) (item : Item) : Catalog where
  items := file cat.items item
  freed := cat.freed.tail
  highWater := if cat.freed = [] then cat.highWater + 1 else cat.highWater
  nextGeneration := cat.nextGeneration + 1

def discard (cat : Catalog) (pos : Nat) (slot : UInt32) : Catalog :=
  { cat with items := cat.items.eraseIdx pos, freed := slot :: cat.freed }

variable {l : Layout} {cat : Catalog}

theorem slots_shelve (item : Item) :
    (cat.shelve item).slots.Perm (item.slot :: (cat.items.map Item.slot ++ cat.freed.tail)) := by
  rw [slots, shelve, ← List.cons_append, ← List.map_cons]
  exact ((perm_file cat.items item).map Item.slot).append_right _

theorem highWater_shelve {item : Item} (next : cat.nextSlot? l = some item.slot) :
    (cat.shelve item).highWater.toNat =
      if cat.freed = [] then cat.highWater.toNat + 1 else cat.highWater.toNat := by
  rw [Catalog.shelve]
  split
  · next freed =>
    have low : cat.highWater < l.maxBlocks := by
      by_contra filled
      rw [nextSlot?, freed] at next
      simp [filled] at next
    have limit := l.maxBlocks.toNat_lt
    have := UInt32.lt_iff_toNat_lt.mp low
    rw [UInt32.toNat_add, UInt32.toNat_one, Nat.mod_eq_of_lt (by omega)]
  · rfl

variable (ordered : cat.Ordered l)
include ordered

/-- A store is full exactly when it has no slot for another block. -/
theorem Ordered.nextSlot?_eq_none_iff :
    cat.nextSlot? l = none ↔ cat.items.length = l.maxBlocks.toNat := by
  have full := ordered.full
  have high := UInt32.le_iff_toNat_le.mp ordered.high
  rw [nextSlot?]
  split
  · next slot rest freed =>
    rw [freed, List.length_cons] at full
    simp only [reduceCtorEq, false_iff]
    omega
  · next freed =>
    rw [freed, List.length_nil] at full
    split
    · next low =>
      rw [UInt32.lt_iff_toNat_lt] at low
      simp only [reduceCtorEq, false_iff]
      omega
    · next filled =>
      rw [UInt32.lt_iff_toNat_lt] at filled
      simp only [true_iff]
      omega

theorem Ordered.perm_range : (cat.slots.map UInt32.toNat).Perm (List.range cat.highWater.toNat) := by
  have nodup : (cat.slots.map UInt32.toNat).Nodup :=
    ordered.nodup.map fun _ _ same => UInt32.toNat_inj.mp same
  have inside : cat.slots.map UInt32.toNat ⊆ List.range cat.highWater.toNat := by
    intro number listed
    obtain ⟨slot, there, rfl⟩ := List.mem_map.mp listed
    exact List.mem_range.mpr (UInt32.lt_iff_toNat_lt.mp (ordered.inside slot there))
  refine (List.subperm_of_subset nodup inside).perm_of_length_le ?_
  rw [List.length_range, List.length_map, Catalog.slots, List.length_append, List.length_map,
    ordered.full]

theorem Ordered.every_slot (none_left : cat.nextSlot? l = none) (slot : UInt32)
    (below : slot < l.maxBlocks) : ∃ item ∈ cat.items, item.slot = slot := by
  have whole := ordered.nextSlot?_eq_none_iff.mp none_left
  have full := ordered.full
  have high := UInt32.le_iff_toNat_le.mp ordered.high
  rw [UInt32.lt_iff_toNat_lt] at below
  have taken := ordered.perm_range.mem_iff.mpr (List.mem_range.mpr (show slot.toNat < _ by omega))
  rw [slots, List.length_eq_zero_iff.mp (show cat.freed.length = 0 by omega), List.append_nil] at taken
  obtain ⟨_, listed, same⟩ := List.mem_map.mp taken
  obtain ⟨item, member, rfl⟩ := List.mem_map.mp listed
  exact ⟨item, member, UInt32.toNat_inj.mp same⟩

theorem Ordered.nextSlot_spec {slot : UInt32} (next : cat.nextSlot? l = some slot) :
    slot < l.maxBlocks ∧ slot ∉ cat.items.map Item.slot ∧ slot ∉ cat.freed.tail := by
  have high := UInt32.le_iff_toNat_le.mp ordered.high
  have apart := List.nodup_append.mp ordered.nodup
  rw [nextSlot?] at next
  split at next
  · next first rest freed =>
    obtain rfl := Option.some.inj next
    have listed : first ∈ cat.freed := freed ▸ List.mem_cons_self
    have low := UInt32.lt_iff_toNat_lt.mp
      (ordered.inside first (List.mem_append_right _ listed))
    refine ⟨UInt32.lt_iff_toNat_lt.mpr (by omega), fun used => apart.2.2 _ used _ listed rfl, ?_⟩
    rw [freed]
    exact (List.nodup_cons.mp (freed ▸ apart.2.1)).1
  · next freed =>
    split at next
    · next low =>
      obtain rfl := Option.some.inj next
      refine ⟨low, fun used => ?_, by simp [freed]⟩
      exact UInt32.lt_irrefl _ (ordered.inside _ (List.mem_append_left _ used))
    · cases next

theorem Ordered.slot_lt_shelve {item : Item} (next : cat.nextSlot? l = some item.slot) :
    item.slot.toNat < (cat.shelve item).highWater.toNat := by
  rw [highWater_shelve next]
  rw [nextSlot?] at next
  split at next
  · next first rest freed =>
    obtain rfl := Option.some.inj next
    rw [if_neg (by simp [freed])]
    exact UInt32.lt_iff_toNat_lt.mp
      (ordered.inside _ (List.mem_append_right _ (freed ▸ List.mem_cons_self)))
  · next freed =>
    split at next
    · obtain same := Option.some.inj next
      rw [if_pos freed, ← same]
      omega
    · cases next

theorem Ordered.shelve {item : Item} (next : cat.nextSlot? l = some item.slot)
    (fits : item.header.used ≤ l.capacity) : (cat.shelve item).Ordered l := by
  obtain ⟨below, unused, unlisted⟩ := ordered.nextSlot_spec next
  have full := ordered.full
  have rise := highWater_shelve next
  have perm := @slots_shelve cat item
  have sub : (cat.items.map Item.slot ++ cat.freed.tail).Sublist cat.slots :=
    (List.tail_sublist cat.freed).append_left _
  refine ⟨ordered.sorted.file item, ?_, ?_, ?_, ?_, ?_⟩
  · rw [perm.nodup_iff, List.nodup_cons]
    exact ⟨by simp [List.mem_append, unused, unlisted], ordered.nodup.sublist sub⟩
  · intro slot listed
    rcases List.mem_cons.mp (perm.mem_iff.mp listed) with rfl | old
    · exact UInt32.lt_iff_toNat_lt.mpr (ordered.slot_lt_shelve next)
    · have low := UInt32.lt_iff_toNat_lt.mp (ordered.inside slot (sub.subset old))
      refine UInt32.lt_iff_toNat_lt.mpr ?_
      rw [rise]
      split <;> omega
  · have length := length_file cat.items item
    rw [rise]
    simp only [Catalog.shelve, length, List.length_tail]
    split
    · next freed =>
      rw [freed, List.length_nil] at full ⊢
      omega
    · next some =>
      have := List.length_pos_iff.mpr some
      omega
  · refine UInt32.le_iff_toNat_le.mpr ?_
    have high := UInt32.le_iff_toNat_le.mp ordered.high
    rw [rise]
    split
    · next freed =>
      have vacant : ¬ cat.items.length = l.maxBlocks.toNat := by
        rw [← ordered.nextSlot?_eq_none_iff, next]
        exact Option.some_ne_none _
      rw [freed, List.length_nil] at full
      omega
    · exact high
  · intro other member
    rcases mem_file.mp member with rfl | old
    · exact fits
    · exact ordered.fits other old

theorem Ordered.discard {pos : Nat} {item : Item} (there : cat.items[pos]? = some item) :
    (cat.discard pos item.slot).Ordered l := by
  obtain ⟨live, rfl⟩ := List.getElem?_eq_some_iff.mp there
  have perm : (cat.discard pos cat.items[pos].slot).slots.Perm cat.slots := by
    have parts := (List.getElem_cons_eraseIdx_perm live).map Item.slot
    have whole := parts.append_right cat.freed
    exact List.perm_middle.trans whole
  have member : cat.items[pos] ∈ cat.items := List.getElem_mem live
  have length := List.length_eraseIdx_of_lt live
  refine ⟨List.Pairwise.eraseIdx pos ordered.sorted, perm.nodup_iff.mpr ordered.nodup,
    fun slot listed => ordered.inside slot (perm.mem_iff.mp listed), ?_, ordered.high,
    fun other kept => ordered.fits other (List.mem_of_mem_eraseIdx kept)⟩
  have full := ordered.full
  simp only [Catalog.discard, length, List.length_cons]
  omega

end Catalog

def Item.fresh (cat : Catalog) (slot : UInt32) (kind : Block.Kind) (key : FlowKey)
    (start : ByteArray) (complete : Bool) (now : Micros) : Item where
  entry := ⟨⟨key, cat.nextGeneration⟩, slot⟩
  header :=
    { Block.Header.fresh kind key.seq (UInt64.ofNat start.size) now with isComplete := complete }
  body := start

namespace Catalog

def filled (l : Layout) (r : Region) (slot : UInt32) (header : Block.Header) (start : ByteArray) : Region :=
  (r.written (l.slotOffset slot) header.toBytes).written (l.payloadOffset slot) start

section Filled
variable (l : Layout) (r : Region) {slot : UInt32} (live : slot.toNat < l.maxBlocks.toNat)
  (header : Block.Header) (start : ByteArray)

include live in
theorem headerIn_filled : headerIn l (filled l r slot header start).bytes slot = header := by
  have kept := SparseBytes.read_congr (Region.agree_written (r.written (l.slotOffset slot) header.toBytes)
    (l.payloadOffset slot) start (.inl (l.payloadOffset_eq live).ge))
  have whole := SparseBytes.read_write_self r.bytes (l.slotOffset slot) header.toBytes
  rw [Block.Header.size_toBytes] at whole
  rw [headerIn, filled, kept, Region.bytes_written, whole, Block.Header.ofBytes_toBytes]

theorem bodyIn_filled : bodyIn l (filled l r slot header start).bytes slot start.size = start := by
  rw [bodyIn, filled, Region.bytes_written, SparseBytes.read_write_self]

include live in
theorem agree_filled (fits : start.size ≤ l.capacity) {offset len : Nat}
    (apart : offset + len ≤ l.slotOffset slot ∨
      l.slotOffset slot + Block.headerSize + l.capacity ≤ offset) :
    (filled l r slot header start).bytes.Agree r.bytes offset len := by
  refine (Region.agree_written _ _ _ ?_).trans (Region.agree_written _ _ _ ?_)
  · rw [l.payloadOffset_eq live]
    omega
  · rw [Block.Header.size_toBytes]
    omega

end Filled

end Catalog

theorem Hold.persist_run {l : Layout} {held : Held} (reach : held.region.Reaches l.required)
    (c : Counters) :
    ∃ r', Hold.persist c held = .ok () ⟨r', c⟩ ∧ r'.Reaches l.required ∧
      Catalog.countersIn r'.bytes = c ∧
      ∀ offset len, offset + len ≤ Catalog.titleSize ∨ headerSize ≤ offset →
        r'.bytes.Agree held.region.bytes offset len := by
  obtain ⟨r', saved, reach', counters, apart⟩ := Counters.save_run reach c
  refine ⟨r', ?_, reach', counters, apart⟩
  rw [Hold.persist, Work.bind_ok (Hold.onRegion_ok saved)]
  rfl

namespace Holds
open Catalog
variable {l : Layout} {held : Held} {cat : Catalog} (holds : Holds l held cat)
include holds

theorem alloc_full (none_left : cat.nextSlot? l = none) :
    Slots.alloc l held.counters held.region = .error (.storeFull l.maxBlocks) held.region := by
  have chain := holds.chain
  rw [nextSlot?] at none_left
  split at none_left
  · cases none_left
  · next freed =>
    split at none_left
    · cases none_left
    · next filled =>
      rw [freed] at chain
      have empty : held.counters.freeHead = 0 := chain
      rw [Slots.alloc, if_neg (by simp [empty]), holds.high, if_neg filled]
      rfl

theorem alloc_run {slot : UInt32} (next : cat.nextSlot? l = some slot) :
    ∃ c, Slots.alloc l held.counters held.region = .ok (slot, c) held.region ∧
      c.entryCount = held.counters.entryCount ∧
      c.nextGeneration = held.counters.nextGeneration ∧
      c.highWater = (if cat.freed = [] then cat.highWater + 1 else cat.highWater) ∧
      Chain l held.region.bytes c.freeHead cat.freed.tail := by
  have chain := holds.chain
  obtain ⟨below, -, -⟩ := holds.ordered.nextSlot_spec next
  have inside := l.slot_le_required (UInt32.lt_iff_toNat_lt.mp below)
  have area := l.nine_le_capacity
  rw [Block.headerSize] at inside
  rw [nextSlot?] at next
  split at next
  · next first rest freed =>
    obtain rfl := Option.some.inj next
    rw [freed] at chain
    obtain ⟨link, mark, tail⟩ := chain
    have used : first < cat.highWater :=
      holds.ordered.inside first (List.mem_append_right _ (freed ▸ List.mem_cons_self))
    have some : held.counters.freeHead ≠ 0 := by
      rw [link]
      intro zero
      have := congrArg UInt32.toNat zero
      have := UInt32.lt_iff_toNat_lt.mp used
      have := cat.highWater.toNat_lt
      rw [UInt32.toNat_add, UInt32.toNat_one, UInt32.toNat_zero] at *
      omega
    have back : held.counters.freeHead - 1 = first := by
      rw [link, UInt32.add_sub_cancel]
    refine ⟨{ held.counters with freeHead := held.region.bytes.u32 (l.slotOffset first + 4) }, ?_,
      rfl, rfl, ?_, ?_⟩
    · rw [Slots.alloc, if_pos some]
      simp only [back]
      rw [holds.high, if_neg (UInt32.not_le.mpr used)]
      simp only [Work.bind_ok ((@Region.readU32_run _ _ holds.reach (l.slotOffset first))
        (by omega)), mark]
      rw [if_neg (by simp), Work.bind_ok (Region.readU32_run holds.reach (by omega))]
      rfl
    · rw [if_neg (by simp [freed])]
      exact holds.high
    · rw [freed]
      exact tail
  · next freed =>
    split at next
    · next low =>
      obtain rfl := Option.some.inj next
      rw [freed] at chain
      have empty : held.counters.freeHead = 0 := chain
      refine ⟨{ held.counters with highWater := held.counters.highWater + 1 }, ?_, rfl, rfl, ?_, ?_⟩
      · rw [Slots.alloc, if_neg (by simp [empty]), holds.high, if_pos low]
        rfl
      · rw [if_pos freed, holds.high]
      · rw [freed]
        exact empty
    · cases next

theorem insertBlock_full (none_left : cat.nextSlot? l = none) (kind : Block.Kind) (key : FlowKey)
    (start : ByteArray) (complete : Bool) (now : Micros) :
    Hold.insertBlock l kind key start complete now held = .error (.storeFull l.maxBlocks) held := by
  rw [Hold.insertBlock, Work.bind_ok (Work.get_run held)]
  exact Work.bind_error (Hold.onRegion_error (holds.alloc_full none_left))

/-- Header and payload written into the slot that a new block took, its record filed, and the counters saved
make up a store with that block. -/
theorem shelved {item : Item} (next : cat.nextSlot? l = some item.slot)
    (used : item.header.used = item.body.size) (fits : item.body.size ≤ l.capacity) {c : Counters}
    (entries : c.entryCount = held.counters.entryCount)
    (generations : c.nextGeneration = held.counters.nextGeneration)
    (high : c.highWater = if cat.freed = [] then cat.highWater + 1 else cat.highWater)
    (chain : Chain l held.region.bytes c.freeHead cat.freed.tail) {r' : Region}
    (filed : Filed l r' (file cat.items item)) (counted : countersIn r'.bytes =
      { c with nextGeneration := c.nextGeneration + 1, entryCount := c.entryCount + 1 })
    (late : ∀ {offset len : Nat}, offset + len ≤ titleSize ∨ l.slabOffset.toNat ≤ offset →
      r'.bytes.Agree (filled l held.region item.slot item.header item.body).bytes offset len) :
    Holds l ⟨r', { c with nextGeneration := c.nextGeneration + 1, entryCount := c.entryCount + 1 }⟩
      (cat.shelve item) := by
  obtain ⟨below, unused, unlisted⟩ := holds.ordered.nextSlot_spec next
  have live := UInt32.lt_iff_toNat_lt.mp below
  have slab := l.slab_le_slot live
  have area := l.nine_le_capacity
  have front := l.headerSize_le_slab
  have title : titleSize ≤ headerSize := by decide
  have early {offset len : Nat} (apart : offset + len ≤ l.slotOffset item.slot ∨
      l.slotOffset item.slot + Block.headerSize + l.capacity ≤ offset) :=
    agree_filled l held.region live item.header item.body fits apart
  refine ⟨filed.reach, ⟨?_, counted⟩, ?_, filed.records, ?_, ?_, high, ?_,
    holds.ordered.shelve next (by rw [used]; exact fits)⟩
  · rw [SparseBytes.read_congr ((late (.inl (by omega))).trans (early (.inl (by omega))))]
    exact holds.front.title
  · have count := holds.count
    have bound := l.maxBlocks.toNat_lt
    have room := filed.room
    rw [length_file] at room
    rw [shelve, length_file]
    rw [entries, UInt32.toNat_add, UInt32.toNat_one, ← count, Nat.mod_eq_of_lt (by omega)]
  · intro other present
    rcases mem_file.mp present with rfl | old
    · have header : headerIn l r'.bytes other.slot = other.header :=
        (headerIn_congr (late (.inr slab))).trans (headerIn_filled l _ live _ _)
      have body : bodyIn l r'.bytes other.slot other.header.used = other.body := by
        rw [used]
        refine (bodyIn_congr (late (.inr ?_))).trans (bodyIn_filled ..)
        rw [l.payloadOffset_eq live]
        omega
      show other = itemOf l r'.bytes other.entry
      rw [itemOf, show other.entry.slot = other.slot from rfl, header, body]
    · have away : other.slot ≠ item.slot := fun same => unused (same ▸ List.mem_map_of_mem old)
      have live' := holds.slot_lt old
      refine itemOf_congr (holds.blocks other old) live' (holds.ordered.fits other old) ?_
      refine ((late (.inr (l.slab_le_slot live'))).trans (early ?_)).symm
      rcases l.slot_apart live' live away with before | behind
      · exact .inl (by omega)
      · exact .inr (by omega)
  · refine chain.congr fun freed listed => ?_
    have away : freed ≠ item.slot := fun same => unlisted (same ▸ listed)
    have live' := holds.ordered.freed_lt (List.mem_of_mem_tail listed)
    refine ((late (.inr (l.slab_le_slot live'))).trans (early ?_)).symm
    have apart := l.slot_apart live' live away
    rw [Block.headerSize] at apart ⊢
    omega
  · rw [generations, holds.next]
    rfl

theorem insertBlock_run {slot : UInt32} (next : cat.nextSlot? l = some slot) (kind : Block.Kind)
    (key : FlowKey) (start : ByteArray) (complete : Bool) (now : Micros)
    (fits : start.size ≤ l.capacity) :
    ∃ held', Hold.insertBlock l kind key start complete now held =
        .ok (Item.fresh cat slot kind key start complete now).entry held' ∧
      Holds l held' (cat.shelve (Item.fresh cat slot kind key start complete now)) := by
  have limit := l.capacity_lt
  have used : (Item.fresh cat slot kind key start complete now).header.used = start.size :=
    Nat.mod_eq_of_lt (show start.size < 2 ^ 64 by omega)
  obtain ⟨below, _, _⟩ := holds.ordered.nextSlot_spec next
  obtain ⟨c, allocated, entries, generations, high, chain⟩ := holds.alloc_run next
  have live := UInt32.lt_iff_toNat_lt.mp below
  have inside := l.slot_le_required live
  have slab := l.slab_le_slot live
  have front := l.headerSize_le_slab
  have room : cat.items.length < l.maxBlocks.toNat := by
    have le := holds.length_le
    have some := mt holds.ordered.nextSlot?_eq_none_iff.mpr (by rw [next]; exact Option.some_ne_none _)
    omega
  generalize made : Item.fresh cat slot kind key start complete now = item at used ⊢
  -- header and payload go into the slot, the record into the directory, the counters last
  have taken : Hold.onRegion (Slots.alloc l held.counters) held = .ok (slot, c) held :=
    Hold.onRegion_ok allocated
  have titled : Hold.setHeader l slot item.header held =
      .ok () ⟨held.region.written (l.slotOffset slot) item.header.toBytes, held.counters⟩ :=
    Hold.onRegion_ok (Region.write_run holds.reach (by rw [Block.Header.size_toBytes]; omega))
  have reach := (holds.reach.written (l.slotOffset slot) item.header.toBytes).written
    (l.payloadOffset slot) start
  have bodied : Hold.writePayload l slot 0 start
      ⟨held.region.written (l.slotOffset slot) item.header.toBytes, held.counters⟩ =
        .ok () ⟨filled l held.region slot item.header start, held.counters⟩ := by
    have fits' : 0 + start.size ≤ l.capacity := by omega
    exact Hold.onRegion_ok (Slots.writePayload_run (holds.reach.written ..) live fits')
  have kept : (filled l held.region slot item.header start).bytes.Agree held.region.bytes headerSize
      (l.slabOffset.toNat - headerSize) :=
    agree_filled l held.region live item.header start fits (.inl (by omega))
  obtain ⟨r', recorded, filed, others⟩ := (holds.filed.transfer reach kept).insert_run item room
  obtain ⟨r'', saved, reach', counted, apart⟩ := @Hold.persist_run l ⟨r', held.counters⟩ filed.reach
    { c with nextGeneration := c.nextGeneration + 1, entryCount := c.entryCount + 1 }
  have count : Hold.count ⟨filled l held.region slot item.header start, held.counters⟩ =
      .ok cat.items.length ⟨filled l held.region slot item.header start, held.counters⟩ := by
    rw [holds.count]
    rfl
  have listed : Hold.onRegion (Directory.insert cat.items.length item.entry)
      ⟨filled l held.region slot item.header start, held.counters⟩ =
        .ok (cat.items.countP fun other => other.ref.upTo item.ref) ⟨r', held.counters⟩ :=
    Hold.onRegion_ok recorded
  refine ⟨⟨r'', { c with nextGeneration := c.nextGeneration + 1, entryCount := c.entryCount + 1 }⟩, ?_, ?_⟩
  · have entry : (⟨⟨key, c.nextGeneration⟩, slot⟩ : Entry) = item.entry := by
      rw [generations, holds.next, ← made]
      rfl
    have header : ({ Block.Header.fresh kind key.seq (UInt64.ofNat start.size) now with
        isComplete := complete } : Block.Header) = item.header := by
      rw [← made]
      rfl
    rw [Hold.insertBlock, Work.bind_ok (Work.get_run held)]
    dsimp only
    rw [Work.bind_ok taken]
    dsimp only
    rw [header, Work.bind_ok titled, Work.bind_ok bodied, entry, Work.bind_ok count,
      Work.bind_ok (a := ()) (Work.map_ok listed), Work.bind_ok saved, Work.pure_run]
  · have place : item.slot = slot := by
      rw [← made]
      rfl
    have body : item.body = start := by
      rw [← made]
      rfl
    subst place body
    have title : titleSize ≤ headerSize := by decide
    have records := filed.transfer reach' (apart _ _ (.inr (Nat.le_refl _)))
    refine holds.shelved next used fits entries generations high chain records counted
      fun {offset len} outside => ?_
    exact (apart _ _ (by omega)).trans (others _ _ (by omega))

end Holds

end Reassembly.Store
