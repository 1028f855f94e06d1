import Mathlib.Data.List.Nodup
import Reassembly.Proofs.Search

/-!
Changes to single blocks of a store. A header or payload bytes written into one slot change the block
of that slot and nothing else in the catalog: not the records, not the other blocks, not the list of
freed slots.
-/

namespace Reassembly.Store

namespace Catalog

theorem entryIn_shift {s t : SparseBytes} {pos place : Nat}
    (same : ∀ k, k < recordSize →
      t.byteAt (Directory.offset place + k) = s.byteAt (Directory.offset pos + k)) :
    entryIn t place = entryIn s pos := by
  rw [recordSize] at same
  have word {inner width : Nat} (fits : inner + width ≤ 24) :
      t.read (Directory.offset place + inner) width = s.read (Directory.offset pos + inner) width :=
    SparseBytes.read_shift fun k small => by
      rw [Nat.add_assoc, Nat.add_assoc]
      exact same _ (by omega)
  have key := @word 0 8 (by omega)
  have generation := @word 8 8 (by omega)
  have slot := @word 16 4 (by omega)
  rw [Nat.add_zero, Nat.add_zero] at key
  simp only [entryIn, SparseBytes.u64, SparseBytes.u32, key, generation, slot]

theorem entryIn_congr {s t : SparseBytes} {pos : Nat}
    (same : s.Agree t (Directory.offset pos) recordSize) : entryIn s pos = entryIn t pos :=
  entryIn_shift fun k small => same _ (by omega) (by omega)

theorem entryIn_copy (r : Region) (source target count place : Nat) :
    entryIn (r.written (Directory.offset target)
      (r.bytes.read (Directory.offset source) (count * recordSize))).bytes place =
    if target ≤ place ∧ place < target + count then entryIn r.bytes (place - target + source)
    else entryIn r.bytes place := by
  split
  · next inside =>
    refine entryIn_shift fun k small => ?_
    simp only [recordSize, Directory.offset] at small ⊢
    rw [Region.bytes_written, SparseBytes.byteAt_write, SparseBytes.size_read, if_pos (by omega),
      SparseBytes.byteAt_read, if_pos (by omega)]
    congr 1
    omega
  · next outside =>
    refine entryIn_congr (Region.agree_written _ _ _ ?_)
    simp only [Directory.offset, recordSize, SparseBytes.size_read]
    omega

theorem entryIn_written (r : Region) (entry : Entry) (pos place : Nat) :
    entryIn (r.written (Directory.offset pos) entry.toBytes).bytes place =
      if place = pos then entry else entryIn r.bytes place := by
  split
  · next here =>
    subst here
    have size : entry.toBytes.size = 24 := by
      simp [Entry.toBytes]
    simp only [entryIn, Region.bytes_written]
    rw [SparseBytes.u64_write _ _ _ (Nat.le_refl _) (by omega),
      SparseBytes.u64_write _ _ _ (by omega) (by omega),
      SparseBytes.u32_write _ _ _ (by omega) (by omega), Nat.sub_self, Nat.add_sub_cancel_left,
      Nat.add_sub_cancel_left]
    simp (disch := simp) only [Entry.toBytes, Bytes.u32At, Bytes.u64At, Bytes.wordAt_append_left,
      Bytes.wordAt_append_right, ByteArray.size_append, Bytes.size_ofU64,
      Nat.reduceAdd, Nat.reduceSub, Bytes.wordAt_ofU32, Bytes.wordAt_ofU64, UInt32.ofNat_toNat,
      UInt64.ofNat_toNat]
  · next elsewhere =>
    have size : entry.toBytes.size = 24 := by
      simp [Entry.toBytes]
    refine entryIn_congr (Region.agree_written _ _ _ ?_)
    simp only [Directory.offset, recordSize]
    omega

variable {l : Layout}

theorem Front.congr {s t : SparseBytes} {c : Counters} (front : Front l s c)
    (same : s.Agree t 0 headerSize) : Front l t c := by
  rw [headerSize] at same
  refine ⟨?_, ?_⟩
  · rw [← front.title]
    exact (SparseBytes.read_congr (same.mono (Nat.le_refl _) (by rw [titleSize]; omega))).symm
  · rw [← front.counters, countersIn, countersIn,
      SparseBytes.u32_congr (same.mono (Nat.zero_le 56) (by omega)),
      SparseBytes.u32_congr (same.mono (Nat.zero_le 60) (by omega)),
      SparseBytes.u32_congr (same.mono (Nat.zero_le 64) (by omega)),
      SparseBytes.u64_congr (same.mono (Nat.zero_le 72) (by omega))]

theorem headerIn_congr {s t : SparseBytes} {slot : UInt32}
    (same : s.Agree t (l.slotOffset slot) Block.headerSize) : headerIn l s slot = headerIn l t slot := by
  rw [headerIn, headerIn, SparseBytes.read_congr same]

theorem bodyIn_congr {s t : SparseBytes} {slot : UInt32} {len : Nat}
    (same : s.Agree t (l.payloadOffset slot) len) : bodyIn l s slot len = bodyIn l t slot len := by
  rw [bodyIn, bodyIn, SparseBytes.read_congr same]

theorem itemOf_congr_used {s t : SparseBytes} {item : Item} (stands : item = itemOf l s item.entry)
    (live : item.slot.toNat < l.maxBlocks.toNat)
    (same : s.Agree t (l.slotOffset item.slot) (Block.headerSize + item.header.used)) :
    item = itemOf l t item.entry := by
  have old : headerIn l s item.slot = item.header := (congrArg Item.header stands).symm
  have header : headerIn l t item.slot = item.header :=
    (headerIn_congr (same.mono (Nat.le_refl _) (by omega))).symm.trans old
  have kept : item.body = bodyIn l s item.slot item.header.used := by
    rw [← old]
    exact congrArg Item.body stands
  have body : item.body = bodyIn l t item.slot item.header.used :=
    kept.trans (bodyIn_congr (same.mono (by rw [l.payloadOffset_eq live]; omega)
      (by rw [l.payloadOffset_eq live]; omega)))
  rw [itemOf, header, ← body]

theorem itemOf_congr {s t : SparseBytes} {item : Item} (stands : item = itemOf l s item.entry)
    (live : item.slot.toNat < l.maxBlocks.toNat) (fits : item.header.used ≤ l.capacity)
    (same : s.Agree t (l.slotOffset item.slot) (Block.headerSize + l.capacity)) :
    item = itemOf l t item.entry :=
  itemOf_congr_used stands live (same.mono (Nat.le_refl _) (by omega))

theorem Chain.congr {s t : SparseBytes} {head : UInt32} {freed : List UInt32}
    (chain : Chain l s head freed)
    (same : ∀ slot ∈ freed, s.Agree t (l.slotOffset slot) 8) : Chain l t head freed := by
  induction freed generalizing head with
  | nil => exact chain
  | cons slot rest ih =>
    obtain ⟨link, mark, tail⟩ := chain
    have here := same slot List.mem_cons_self
    refine ⟨link, ?_, ?_⟩
    · rw [← SparseBytes.u32_congr (here.mono (Nat.le_refl _) (by omega)), mark]
    · rw [← SparseBytes.u32_congr (here.mono (by omega) (by omega))]
      exact ih tail fun other member => same other (List.mem_cons_of_mem _ member)

def recast (cat : Catalog) (slot : UInt32) (header : Block.Header) (body : ByteArray) : Catalog :=
  { cat with
    items := cat.items.map fun item => if item.slot = slot then ⟨item.entry, header, body⟩ else item }

variable {cat : Catalog} {slot : UInt32} {header : Block.Header} {body : ByteArray}

theorem mem_recast {item : Item} :
    item ∈ (cat.recast slot header body).items ↔
      (∃ old ∈ cat.items, old.slot = slot ∧ item = ⟨old.entry, header, body⟩) ∨
        (item ∈ cat.items ∧ item.slot ≠ slot) := by
  rw [recast, List.mem_map]
  constructor
  · rintro ⟨old, member, same⟩
    split at same
    · next here => exact .inl ⟨old, member, here, same.symm⟩
    · next elsewhere => exact .inr (same ▸ ⟨member, elsewhere⟩)
  · rintro (⟨old, member, here, rfl⟩ | ⟨member, elsewhere⟩)
    · exact ⟨old, member, if_pos here⟩
    · exact ⟨item, member, if_neg elsewhere⟩

theorem map_entry_recast :
    (cat.recast slot header body).items.map Item.entry = cat.items.map Item.entry := by
  rw [recast, List.map_map]
  refine List.map_congr_left fun item _ => ?_
  simp only [Function.comp_apply]
  split <;> rfl

theorem getElem?_recast (pos : Nat) : (cat.recast slot header body).items[pos]? =
    cat.items[pos]?.map fun item => if item.slot = slot then ⟨item.entry, header, body⟩ else item :=
  List.getElem?_map ..

theorem length_recast : (cat.recast slot header body).items.length = cat.items.length :=
  List.length_map _

theorem sorted_iff_map {items : List Item} :
    Sorted items ↔ (items.map Item.entry).Pairwise fun a b => a.ref.rank ≤ b.ref.rank := by
  rw [List.pairwise_map]
  rfl

theorem map_slot_eq (items : List Item) :
    items.map Item.slot = (items.map Item.entry).map Entry.slot := by
  rw [List.map_map]
  rfl

theorem slots_recast : (cat.recast slot header body).slots = cat.slots := by
  rw [slots, slots, map_slot_eq, map_entry_recast, ← map_slot_eq]
  rfl

theorem Ordered.recast (ordered : cat.Ordered l) (fits : header.used ≤ l.capacity) :
    (cat.recast slot header body).Ordered l where
  sorted := by
    rw [sorted_iff_map, map_entry_recast, ← sorted_iff_map]
    exact ordered.sorted
  nodup := by
    rw [slots_recast]
    exact ordered.nodup
  inside := by
    rw [slots_recast]
    exact ordered.inside
  full := by
    rw [length_recast]
    exact ordered.full
  high := ordered.high
  fits := by
    intro item member
    rcases mem_recast.mp member with ⟨old, _, _, rfl⟩ | ⟨old, _⟩
    · exact fits
    · exact ordered.fits item old

theorem Ordered.eq_of_slot (ordered : cat.Ordered l) {a b : Item} (first : a ∈ cat.items)
    (second : b ∈ cat.items) (same : a.slot = b.slot) : a = b :=
  List.inj_on_of_nodup_map (List.nodup_append.mp ordered.nodup).1 first second same

theorem Ordered.slot_ne_freed (ordered : cat.Ordered l) {item : Item} (member : item ∈ cat.items)
    {freed : UInt32} (listed : freed ∈ cat.freed) : item.slot ≠ freed :=
  (List.nodup_append.mp ordered.nodup).2.2 _ (List.mem_map_of_mem member) _ listed

end Catalog

theorem Slots.writePayload_run {l : Layout} {r : Region} (reach : r.Reaches l.required) {slot : UInt32}
    (below : slot.toNat < l.maxBlocks.toNat) {offset : Nat} {data : ByteArray}
    (fits : offset + data.size ≤ l.capacity) :
    Slots.writePayload l slot offset data r = .ok () (r.written (l.payloadOffset slot + offset) data) := by
  have inside := l.slot_le_required below
  have word := l.required_lt
  rw [Slots.writePayload, wordSum_eq (by omega), if_neg (by omega), l.payloadOffset_eq below,
    wordSum_eq (by omega)]
  exact Region.write_run reach (by omega)

namespace Holds
open Catalog
variable {l : Layout} {held : Held} {cat : Catalog} (holds : Holds l held cat)
include holds

theorem of_slot_change {item : Item} (member : item ∈ cat.items) {offset : Nat} {data : ByteArray}
    (low : l.slotOffset item.slot ≤ offset)
    (high : offset + data.size ≤ l.slotOffset item.slot + Block.headerSize + l.capacity) :
    Front l (held.region.written offset data).bytes held.counters ∧
    (∀ {pos : Nat} {other : Item}, cat.items[pos]? = some other →
      entryIn (held.region.written offset data).bytes pos = other.entry) ∧
    (∀ other ∈ cat.items, other.slot ≠ item.slot →
      other = itemOf l (held.region.written offset data).bytes other.entry) ∧
    Chain l (held.region.written offset data).bytes held.counters.freeHead cat.freed := by
  have live := holds.slot_lt member
  have slab := l.slab_le_slot live
  have front := l.headerSize_le_slab
  refine ⟨?_, fun {pos other} there => ?_, fun other present apart => ?_, ?_⟩
  · exact holds.front.congr (Region.agree_written _ _ _ (.inl (by omega))).symm
  · have live := (List.getElem?_eq_some_iff.mp there).1
    have inside := l.record_le_slab (live.trans_le holds.length_le)
    rw [← holds.records there]
    exact entryIn_congr (Region.agree_written _ _ _ (.inl (by omega)))
  · have live' := holds.slot_lt present
    refine itemOf_congr (holds.blocks other present) live' (holds.ordered.fits other present) ?_
    refine (Region.agree_written _ _ _ ?_).symm
    rcases l.slot_apart live' live apart with before | behind
    · exact .inl (by omega)
    · exact .inr (by omega)
  · refine holds.chain.congr fun slot listed => (Region.agree_written _ _ _ ?_).symm
    have area := l.nine_le_capacity
    rw [Block.headerSize] at high
    have live' := holds.ordered.freed_lt listed
    rcases l.slot_apart live live' (holds.ordered.slot_ne_freed member listed) with before | behind
    · exact .inr (by rw [Block.headerSize] at before; omega)
    · exact .inl (by rw [Block.headerSize] at behind; omega)

theorem rewritten {item : Item} (member : item ∈ cat.items) {offset : Nat} {data : ByteArray}
    (low : l.slotOffset item.slot ≤ offset)
    (high : offset + data.size ≤ l.slotOffset item.slot + Block.headerSize + l.capacity)
    {header : Block.Header} {body : ByteArray} (fits : header.used ≤ l.capacity)
    (stands : itemOf l (held.region.written offset data).bytes item.entry = ⟨item.entry, header, body⟩) :
    Holds l ⟨held.region.written offset data, held.counters⟩ (cat.recast item.slot header body) := by
  obtain ⟨front, records, others, chain⟩ := holds.of_slot_change member low high
  refine ⟨holds.reach.written _ _, front, length_recast.trans holds.count, ?_, ?_, chain, holds.high,
    holds.next, holds.ordered.recast fits⟩
  · intro pos other there
    rw [getElem?_recast, Option.map_eq_some_iff] at there
    obtain ⟨old, known, rfl⟩ := there
    rw [records known]
    split <;> rfl
  · intro other present
    rcases mem_recast.mp present with ⟨old, known, here, rfl⟩ | ⟨known, apart⟩
    · obtain rfl := holds.ordered.eq_of_slot known member here
      exact stands.symm
    · exact others other known apart

theorem setHeader_run {item : Item} (member : item ∈ cat.items) (header : Block.Header)
    (fits : header.used ≤ l.capacity) :
    ∃ held', Hold.setHeader l item.slot header held = .ok () held' ∧
      Holds l held' (cat.recast item.slot header
        (bodyIn l held.region.bytes item.slot header.used)) := by
  have inside := l.slot_le_required (holds.slot_lt member)
  have wrote := @Region.write_run _ _ holds.reach (l.slotOffset item.slot) header.toBytes
    (by rw [Block.Header.size_toBytes]; omega)
  refine ⟨_, Hold.onRegion_ok wrote, holds.rewritten member (Nat.le_refl _)
    (by rw [Block.Header.size_toBytes]; omega) fits ?_⟩
  have stored : headerIn l (held.region.written (l.slotOffset item.slot) header.toBytes).bytes
      item.entry.slot = header := by
    have whole := SparseBytes.read_write_self held.region.bytes (l.slotOffset item.slot) header.toBytes
    rw [Block.Header.size_toBytes] at whole
    rw [headerIn, show item.entry.slot = item.slot from rfl, Region.bytes_written, whole,
      Block.Header.ofBytes_toBytes]
  have area : bodyIn l (held.region.written (l.slotOffset item.slot) header.toBytes).bytes
      item.entry.slot header.used = bodyIn l held.region.bytes item.slot header.used := by
    refine bodyIn_congr (Region.agree_written _ _ _ (.inr ?_))
    rw [show item.entry.slot = item.slot from rfl, Block.Header.size_toBytes,
      l.payloadOffset_eq (holds.slot_lt member)]
  rw [itemOf, stored, area]

theorem writePayload_run {item : Item} (member : item ∈ cat.items) {offset : Nat}
    {data : ByteArray} (behind : item.header.used ≤ offset)
    (fits : offset + data.size ≤ l.capacity) :
    Hold.writePayload l item.slot offset data held =
        .ok () ⟨held.region.written (l.payloadOffset item.slot + offset) data, held.counters⟩ ∧
      Holds l ⟨held.region.written (l.payloadOffset item.slot + offset) data, held.counters⟩ cat := by
  have live := holds.slot_lt member
  have area := l.payloadOffset_eq live
  refine ⟨Hold.onRegion_ok (Slots.writePayload_run holds.reach live fits), ?_⟩
  obtain ⟨front, records, others, chain⟩ := @Store.Holds.of_slot_change _ _ _ holds _ member
    (l.payloadOffset item.slot + offset) data (by omega) (by omega)
  refine ⟨holds.reach.written _ _, front, holds.count, records, ?_, chain, holds.high, holds.next,
    holds.ordered⟩
  intro other present
  by_cases same : other.slot = item.slot
  · obtain rfl := holds.ordered.eq_of_slot present member same
    have header : headerIn l (held.region.written (l.payloadOffset other.slot + offset) data).bytes
        other.slot = headerIn l held.region.bytes other.slot :=
      headerIn_congr (Region.agree_written _ _ _ (.inl (by omega)))
    have body : bodyIn l (held.region.written (l.payloadOffset other.slot + offset) data).bytes
        other.slot other.header.used = other.body := by
      rw [← holds.body_eq present]
      exact bodyIn_congr (Region.agree_written _ _ _ (.inl (by omega)))
    rw [holds.header_eq present] at header
    rw [itemOf, header, body]
  · exact others other present same

end Holds

end Reassembly.Store
