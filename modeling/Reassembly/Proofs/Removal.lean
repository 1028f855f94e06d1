import Reassembly.Proofs.Turnover

/-!
Blocks go. Removing a block takes its record out of the directory and makes its slot the head of the
list of freed slots; every other block stays as it is.
-/

namespace Reassembly.Store

namespace Catalog

def erase (cat : Catalog) (target : Ref) : Catalog :=
  match cat.find? target with
  | none => cat
  | some item => cat.discard (cat.below target) item.slot

variable {l : Layout} {cat : Catalog} (ordered : cat.Ordered l)
include ordered

theorem Ordered.slot_ne_of_mem_eraseIdx {pos : Nat} {item other : Item}
    (there : cat.items[pos]? = some item) (kept : other ∈ cat.items.eraseIdx pos) :
    other.slot ≠ item.slot := by
  obtain ⟨live, rfl⟩ := List.getElem?_eq_some_iff.mp there
  have slots := (List.nodup_append.mp ordered.nodup).1
  have parts := (List.getElem_cons_eraseIdx_perm live).map Item.slot
  rw [← parts.nodup_iff, List.map_cons, List.nodup_cons] at slots
  exact fun same => slots.1 (same ▸ List.mem_map_of_mem kept)

end Catalog

namespace Catalog

def vacated (l : Layout) (r : Region) (slot before : UInt32) : Region :=
  (r.written (l.slotOffset slot) (Bytes.ofU32 Block.freeWord)).written (l.slotOffset slot + 4)
    (Bytes.ofU32 before)

section Vacated
variable (l : Layout) (r : Region) (slot before : UInt32)

theorem mark_vacated :
    (vacated l r slot before).bytes.u32 (l.slotOffset slot) = Block.freeWord := by
  rw [vacated, SparseBytes.u32_congr (Region.agree_written _ _ _ (.inl (Nat.le_refl _))),
    Region.bytes_written, SparseBytes.u32_write _ _ _ (Nat.le_refl _) (by simp), Nat.sub_self,
    Bytes.u32At_ofU32]

theorem link_vacated :
    (vacated l r slot before).bytes.u32 (l.slotOffset slot + 4) = before := by
  rw [vacated, Region.bytes_written, SparseBytes.u32_write _ _ _ (Nat.le_refl _) (by simp),
    Nat.sub_self, Bytes.u32At_ofU32]

theorem agree_vacated {offset len : Nat} (apart : offset + len ≤ l.slotOffset slot ∨
    l.slotOffset slot + 8 ≤ offset) :
    (vacated l r slot before).bytes.Agree r.bytes offset len :=
  (Region.agree_written _ _ _ (by rw [Bytes.size_ofU32]; omega)).trans
    (Region.agree_written _ _ _ (by rw [Bytes.size_ofU32]; omega))

variable {l r slot}

theorem reaches_vacated (reach : r.Reaches l.required) :
    (vacated l r slot before).Reaches l.required :=
  (reach.written _ _).written _ _

end Vacated

end Catalog

theorem Slots.free_run {l : Layout} {r : Region} (reach : r.Reaches l.required) (c : Counters)
    {slot : UInt32} (below : slot.toNat < l.maxBlocks.toNat) :
    Slots.free l c slot r =
      .ok { c with freeHead := slot + 1 } (Catalog.vacated l r slot c.freeHead) := by
  have inside := l.slot_le_required below
  rw [Block.headerSize] at inside
  have marked := @Region.writeU32_run _ _ reach (l.slotOffset slot) Block.freeWord (by omega)
  have linked := @Region.writeU32_run _ _ (reach.written (l.slotOffset slot) (Bytes.ofU32 Block.freeWord))
    (l.slotOffset slot + 4) c.freeHead (by omega)
  rw [Slots.free, Work.bind_ok marked, Work.bind_ok linked, Work.pure_run]
  rfl

namespace Holds
open Catalog
variable {l : Layout} {held : Held} {cat : Catalog} (holds : Holds l held cat)
include holds

theorem discarded {pos : Nat} {item : Item} (there : cat.items[pos]? = some item) {r' : Region}
    (filed : Filed l r' (cat.items.eraseIdx pos)) (counted : countersIn r'.bytes =
      { held.counters with freeHead := item.slot + 1, entryCount := held.counters.entryCount - 1 })
    (mark : r'.bytes.u32 (l.slotOffset item.slot) = Block.freeWord)
    (link : r'.bytes.u32 (l.slotOffset item.slot + 4) = held.counters.freeHead)
    (others : ∀ {offset len : Nat}, offset + len ≤ titleSize ∨ l.slabOffset.toNat ≤ offset →
      offset + len ≤ l.slotOffset item.slot ∨ l.slotOffset item.slot + 8 ≤ offset →
      r'.bytes.Agree held.region.bytes offset len) :
    Holds l ⟨r', { held.counters with
        freeHead := item.slot + 1, entryCount := held.counters.entryCount - 1 }⟩
      (cat.discard pos item.slot) := by
  obtain ⟨inside, -⟩ := List.getElem?_eq_some_iff.mp there
  have live := holds.slot_lt (List.mem_of_getElem? there)
  have slab := l.slab_le_slot live
  have front := l.headerSize_le_slab
  have wide : 8 ≤ Block.headerSize := by decide
  -- the slots of other blocks, in use or freed, are all of them elsewhere
  have elsewhere {slot : UInt32} (live' : slot.toNat < l.maxBlocks.toNat) (away : slot ≠ item.slot) :
      held.region.bytes.Agree r'.bytes (l.slotOffset slot) (Block.headerSize + l.capacity) := by
    refine (others (.inr (l.slab_le_slot live')) ?_).symm
    have := l.slot_apart live' live away
    omega
  refine ⟨filed.reach, ⟨?_, counted⟩, ?_, filed.records, ?_, ⟨rfl, mark, ?_⟩, holds.high, holds.next,
    holds.ordered.discard there⟩
  · have title : titleSize ≤ headerSize := by decide
    rw [SparseBytes.read_congr (others (.inl (by omega)) (.inl (by omega)))]
    exact holds.front.title
  · have count := holds.count
    have some : (1 : UInt32) ≤ held.counters.entryCount :=
      UInt32.le_iff_toNat_le.mpr (by rw [UInt32.toNat_one]; omega)
    rw [Catalog.discard, List.length_eraseIdx_of_lt inside, UInt32.toNat_sub_of_le _ _ some,
      UInt32.toNat_one, count]
  · intro other kept
    have old := List.mem_of_mem_eraseIdx kept
    have live' := holds.slot_lt old
    exact itemOf_congr (holds.blocks other old) live' (holds.ordered.fits other old)
      (elsewhere live' (holds.ordered.slot_ne_of_mem_eraseIdx there kept))
  · rw [link]
    refine holds.chain.congr fun slot listed => ?_
    have away := holds.ordered.slot_ne_freed (List.mem_of_getElem? there) listed
    exact SparseBytes.Agree.mono (elsewhere (holds.ordered.freed_lt listed) away.symm) (Nat.le_refl _) (by omega)

theorem removeAt_run {pos : Nat} {item : Item} (there : cat.items[pos]? = some item) :
    ∃ held', Hold.removeAt l pos held = .ok item.entry held' ∧
      Holds l held' (cat.discard pos item.slot) := by
  obtain ⟨live, here⟩ := List.getElem?_eq_some_iff.mp there
  have below := holds.slot_lt (List.mem_of_getElem? there)
  have slab := l.slab_le_slot below
  have front := l.headerSize_le_slab
  -- the record goes, then the slot is marked and linked, the counters come last
  obtain ⟨r₁, removed, filed₁, others₁⟩ := holds.filed.remove_run live
  have returned := Slots.free_run filed₁.reach held.counters below
  have freed {offset len : Nat} := @agree_vacated l r₁ item.slot held.counters.freeHead offset len
  have mark := mark_vacated l r₁ item.slot held.counters.freeHead
  have link := link_vacated l r₁ item.slot held.counters.freeHead
  have reach₂ := @reaches_vacated l r₁ item.slot held.counters.freeHead filed₁.reach
  generalize vacated l r₁ item.slot held.counters.freeHead = r₂ at *
  obtain ⟨r₃, saved, reach₃, counted, others₃⟩ := @Hold.persist_run l ⟨r₂, held.counters⟩ reach₂
    { held.counters with freeHead := item.slot + 1, entryCount := held.counters.entryCount - 1 }
  have late {offset len : Nat} (behind : headerSize ≤ offset) :
      r₃.bytes.Agree r₂.bytes offset len := others₃ _ _ (.inr behind)
  refine ⟨⟨r₃, { held.counters with
      freeHead := item.slot + 1, entryCount := held.counters.entryCount - 1 }⟩, ?_, ?_⟩
  · have found := holds.entryAt_run live
    rw [here] at found
    have unlisted : Hold.onRegion (Directory.remove cat.items.length pos) held =
        .ok () ⟨r₁, held.counters⟩ := Hold.onRegion_ok removed
    have given : Hold.onRegion (Slots.free l held.counters item.slot) ⟨r₁, held.counters⟩ =
        .ok { held.counters with freeHead := item.slot + 1 } ⟨r₂, held.counters⟩ :=
      Hold.onRegion_ok returned
    rw [Hold.removeAt, Work.bind_ok found, Work.bind_ok (Work.get_run held)]
    dsimp only
    rw [Work.bind_ok holds.count_run, Work.bind_ok unlisted, Work.bind_ok given,
      Work.bind_ok saved, Work.pure_run]
  · have title : titleSize ≤ headerSize := by decide
    have filed₃ := filed₁.transfer reach₃ ((late (Nat.le_refl _)).trans (freed (.inl (by omega))))
    refine holds.discarded there filed₃ counted ?_ ?_ fun {offset len} outside apart => ?_
    · rw [SparseBytes.u32_congr (late (by omega)), mark]
    · rw [SparseBytes.u32_congr (late (by omega)), link]
    · exact ((others₃ _ _ (by omega)).trans (freed apart)).trans (others₁ _ _ (by omega))

theorem erase_run (target : Ref) :
    ∃ held', Hold.erase l target held = .ok (cat.find? target).isSome held' ∧
      Holds l held' (cat.erase target) := by
  rw [Hold.erase, Work.bind_ok (holds.resolve_run target), Catalog.erase]
  cases found : cat.find? target with
  | none => exact ⟨held, rfl, holds⟩
  | some item =>
    obtain ⟨held', removed, holds'⟩ := holds.removeAt_run (holds.ordered.getElem?_below found)
    refine ⟨held', ?_, holds'⟩
    dsimp only [Option.map_some]
    rw [Work.bind_ok (a := ()) (Work.map_ok removed), Work.pure_run]
    rfl

end Holds

end Reassembly.Store
