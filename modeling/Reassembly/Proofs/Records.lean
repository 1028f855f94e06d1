import Mathlib.Data.List.InsertIdx
import Reassembly.Proofs.Upkeep

/-!
The records of a store as they change. A new record goes to its place among the sorted ones and moves
those behind it one further on; one taken out lets them move back. Outside the directory nothing
changes, and saving the counters changes the counters only.
-/

namespace Reassembly.Store

namespace Catalog

def file (items : List Item) (item : Item) : List Item :=
  items.insertIdx (items.countP fun other => other.ref.upTo item.ref) item

theorem length_file (items : List Item) (item : Item) :
    (file items item).length = items.length + 1 :=
  List.length_insertIdx_of_le_length List.countP_le_length _

theorem mem_file {items : List Item} {item other : Item} :
    other ∈ file items item ↔ other = item ∨ other ∈ items :=
  List.mem_insertIdx List.countP_le_length

theorem perm_file (items : List Item) (item : Item) : (file items item).Perm (item :: items) :=
  List.perm_insertIdx item items List.countP_le_length

theorem Sorted.file {items : List Item} (sorted : Sorted items) (item : Item) :
    Sorted (file items item) := by
  have falling := sorted.falling_upTo item.ref
  have bound : items.countP (fun other => other.ref.upTo item.ref) ≤ items.length :=
    List.countP_le_length
  have left {place : Nat} (inside : place < items.length)
      (low : place < items.countP fun other => other.ref.upTo item.ref) :
      items[place].ref.rank ≤ item.ref.rank :=
    (Ref.upTo_iff _ _).mp ((falling.lt_countP_iff inside).mp low)
  have right {place : Nat} (inside : place < items.length)
      (high : items.countP (fun other => other.ref.upTo item.ref) ≤ place) :
      item.ref.rank ≤ items[place].ref.rank := by
    have fails := mt (falling.lt_countP_iff inside).mpr (Nat.not_lt.mpr high)
    rw [Ref.upTo_iff] at fails
    omega
  have pairs := List.pairwise_iff_getElem.mp sorted
  refine List.pairwise_iff_getElem.mpr fun i j before behind lt => ?_
  have length := length_file items item
  simp only [Catalog.file] at before behind length ⊢
  simp only [List.getElem_insertIdx]
  split
  · next first =>
    split
    · exact pairs _ _ _ _ lt
    · split
      · exact left _ first
      · exact pairs _ _ _ _ (by omega)
  · split
    · next here =>
      rw [dif_neg (by omega), dif_neg (by omega)]
      exact right _ (by omega)
    · rw [dif_neg (by omega), dif_neg (by omega)]
      exact pairs _ _ _ _ (by omega)

def shifted (r : Region) (source target count : Nat) : Region :=
  if 0 < count then
    r.written (Directory.offset target) (r.bytes.read (Directory.offset source) (count * recordSize))
  else r

section Shifted

variable {l : Layout} {r : Region} (source target count : Nat)

theorem reaches_shifted {len : Nat} (reach : r.Reaches len) :
    (shifted r source target count).Reaches len := by
  unfold shifted
  split
  · exact reach.written _ _
  · exact reach

variable {source target count}

theorem copyWithin_shifted (reach : r.Reaches l.required)
    (here : Directory.offset (source + count) ≤ l.slabOffset.toNat)
    (there : Directory.offset (target + count) ≤ l.slabOffset.toNat) (more : 0 < count) :
    Region.copyWithin (Directory.offset source) (Directory.offset target) (count * recordSize) r =
      .ok () (shifted r source target count) := by
  have slab := l.slab_le_required
  simp only [Directory.offset, recordSize] at here there
  rw [shifted, if_pos more]
  apply Region.copyWithin_run reach
  · simp only [Directory.offset, recordSize]
    omega
  · simp only [Directory.offset, recordSize]
    omega

theorem agree_shifted (there : Directory.offset (target + count) ≤ l.slabOffset.toNat) {offset len : Nat}
    (outside : offset + len ≤ headerSize ∨ l.slabOffset.toNat ≤ offset) :
    (shifted r source target count).bytes.Agree r.bytes offset len := by
  unfold shifted
  split
  · apply Region.agree_written
    simp only [SparseBytes.size_read, Directory.offset, headerSize, recordSize] at there outside ⊢
    omega
  · exact fun place _ _ => rfl

theorem entryIn_shifted (place : Nat) : entryIn (shifted r source target count).bytes place =
    if target ≤ place ∧ place < target + count then entryIn r.bytes (place - target + source)
    else entryIn r.bytes place := by
  unfold shifted
  split
  · exact entryIn_copy r source target count place
  · rw [if_neg (by omega)]

end Shifted

end Catalog

namespace Filed
open Catalog
variable {l : Layout} {r : Region} {items : List Item} (filed : Filed l r items)
include filed

theorem transfer {r' : Region} (reach : r'.Reaches l.required)
    (same : r'.bytes.Agree r.bytes headerSize (l.slabOffset.toNat - headerSize)) :
    Filed l r' items := by
  refine ⟨reach, fun {pos item} there => ?_, filed.room, filed.sorted⟩
  have live := (List.getElem?_eq_some_iff.mp there).1
  have inside := l.record_le_slab (live.trans_le filed.room)
  rw [← filed.records there]
  refine entryIn_congr (same.mono ?_ ?_)
  · rw [Directory.offset]
    omega
  · have := l.headerSize_le_slab
    omega

theorem inserted (item : Item) (room : items.length < l.maxBlocks.toNat) {pos : Nat}
    (here : (items.countP fun other => other.ref.upTo item.ref) = pos) :
    Filed l ((shifted r pos (pos + 1) (items.length - pos)).written (Directory.offset pos)
      item.entry.toBytes) (file items item) := by
  have low : pos ≤ items.length := here ▸ List.countP_le_length
  refine ⟨(reaches_shifted _ _ _ filed.reach).written _ _, fun {place other} there => ?_, ?_,
    filed.sorted.file item⟩
  · have live := (List.getElem?_eq_some_iff.mp there).1
    rw [length_file] at live
    rw [file, here, List.getElem?_insertIdx] at there
    rw [entryIn_written, entryIn_shifted]
    rcases Nat.lt_trichotomy place pos with before | rfl | behind
    · rw [if_pos before] at there
      rw [if_neg (by omega), if_neg (by omega)]
      exact filed.records there
    · rw [if_neg (Nat.lt_irrefl _), if_pos rfl, if_pos low] at there
      rw [if_pos rfl]
      exact congrArg Item.entry (Option.some.inj there)
    · rw [if_neg (by omega), if_neg (by omega)] at there
      rw [if_neg (by omega), if_pos (by omega), show place - (pos + 1) + pos = place - 1 by omega]
      exact filed.records there
  · rw [length_file]
    exact room

theorem insert_run (item : Item) (room : items.length < l.maxBlocks.toNat) :
    ∃ r', Directory.insert items.length item.entry r =
        .ok (items.countP fun other => other.ref.upTo item.ref) r' ∧
      Filed l r' (file items item) ∧
      ∀ offset len, offset + len ≤ headerSize ∨ l.slabOffset.toNat ≤ offset →
        r'.bytes.Agree r.bytes offset len := by
  generalize here : (items.countP fun other => other.ref.upTo item.ref) = pos
  have low : pos ≤ items.length := here ▸ List.countP_le_length
  have last := l.record_le_slab room
  have slab := l.slab_le_required
  have size : item.entry.toBytes.size = recordSize := by
    simp [Entry.toBytes, recordSize]
  have located := filed.upperBound_run item.ref
  rw [here] at located
  have source : Directory.offset (pos + (items.length - pos)) ≤ l.slabOffset.toNat := by
    simp only [Directory.offset, recordSize] at last ⊢
    omega
  have target : Directory.offset (pos + 1 + (items.length - pos)) ≤ l.slabOffset.toNat := by
    simp only [Directory.offset, recordSize] at last ⊢
    omega
  refine ⟨_, ?_, filed.inserted item room here, fun offset len outside => ?_⟩
  · have wrote := @Region.write_run _ _ (reaches_shifted pos (pos + 1) (items.length - pos) filed.reach)
      (Directory.offset pos) item.entry.toBytes (by
        simp only [Directory.offset, recordSize] at last size ⊢
        omega)
    rw [Directory.insert, Work.bind_ok located]
    by_cases more : pos < items.length
    · have copied := copyWithin_shifted filed.reach source target (Nat.sub_pos_of_lt more)
      simp only [if_pos more]
      rw [Work.bind_ok copied, Work.bind_ok wrote]
      rfl
    · have still : shifted r pos (pos + 1) (items.length - pos) = r := if_neg (by omega)
      rw [still] at wrote ⊢
      simp only [if_neg more]
      rw [Work.bind_ok wrote]
      rfl
  · refine (Region.agree_written _ _ _ ?_).trans (agree_shifted target outside)
    simp only [Directory.offset, headerSize, recordSize] at last outside size ⊢
    omega

theorem removed {pos : Nat} (live : pos < items.length) :
    Filed l ((shifted r (pos + 1) pos (items.length - pos - 1)).written
      (Directory.offset (items.length - 1)) (Bytes.zeros recordSize)) (items.eraseIdx pos) := by
  have length := List.length_eraseIdx_of_lt live
  refine ⟨(reaches_shifted _ _ _ filed.reach).written _ _, fun {place other} there => ?_, ?_,
    List.Pairwise.eraseIdx pos filed.sorted⟩
  · have inside := (List.getElem?_eq_some_iff.mp there).1
    have kept := @Region.agree_written (shifted r (pos + 1) pos (items.length - pos - 1))
      (Directory.offset (items.length - 1)) (Bytes.zeros recordSize) (Directory.offset place) recordSize
      (.inl (by simp only [Directory.offset, recordSize]; omega))
    rw [entryIn_congr kept, entryIn_shifted]
    rw [List.getElem?_eraseIdx] at there
    split at there
    · rw [if_neg (by omega)]
      exact filed.records there
    · rw [if_pos (by omega), show place - pos + (pos + 1) = place + 1 by omega]
      exact filed.records there
  · have := filed.room
    omega

theorem remove_run {pos : Nat} (live : pos < items.length) :
    ∃ r', Directory.remove items.length pos r = .ok () r' ∧
      Filed l r' (items.eraseIdx pos) ∧
      ∀ offset len, offset + len ≤ headerSize ∨ l.slabOffset.toNat ≤ offset →
        r'.bytes.Agree r.bytes offset len := by
  have last := (@Store.Layout.record_le_slab l (items.length - 1)) (by have := filed.room; omega)
  have slab := l.slab_le_required
  have source : Directory.offset (pos + 1 + (items.length - pos - 1)) ≤ l.slabOffset.toNat := by
    simp only [Directory.offset, recordSize] at last ⊢
    omega
  have target : Directory.offset (pos + (items.length - pos - 1)) ≤ l.slabOffset.toNat := by
    simp only [Directory.offset, recordSize] at last ⊢
    omega
  refine ⟨_, ?_, filed.removed live, fun offset len outside => ?_⟩
  · have blanked := @Region.zero_run _ _ (reaches_shifted (pos + 1) pos (items.length - pos - 1) filed.reach)
      (Directory.offset (items.length - 1)) recordSize (last.trans slab)
    rw [Directory.remove]
    by_cases more : 0 < items.length - pos - 1
    · simp only [if_pos more]
      rw [Work.bind_ok (copyWithin_shifted filed.reach source target more)]
      exact blanked
    · have still : shifted r (pos + 1) pos (items.length - pos - 1) = r := if_neg more
      rw [still] at blanked ⊢
      simp only [if_neg more]
      exact blanked
  · refine (Region.agree_written _ _ _ ?_).trans (agree_shifted target outside)
    simp only [Bytes.size_zeros, Directory.offset, headerSize, recordSize] at last outside ⊢
    omega

end Filed

open Catalog in
theorem Counters.save_run {l : Layout} {r : Region} (reach : r.Reaches l.required) (c : Counters) :
    ∃ r', c.save r = .ok () r' ∧ r'.Reaches l.required ∧ countersIn r'.bytes = c ∧
      ∀ offset len, offset + len ≤ titleSize ∨ headerSize ≤ offset →
        r'.bytes.Agree r.bytes offset len := by
  have room : 128 ≤ l.required := l.headerSize_le_slab.trans l.slab_le_required
  have first := reach.written 56 (Bytes.ofU32 c.entryCount)
  have second := first.written 60 (Bytes.ofU32 c.freeHead)
  have third := second.written 64 (Bytes.ofU32 c.highWater)
  refine ⟨_, ?_, third.written 72 (Bytes.ofU64 c.nextGeneration), ?_, ?_⟩
  · rw [Counters.save, Work.bind_ok (Region.writeU32_run reach c.entryCount (by omega)),
      Work.bind_ok (Region.writeU32_run first c.freeHead (by omega)),
      Work.bind_ok (Region.writeU32_run second c.highWater (by omega))]
    exact Region.writeU64_run third c.nextGeneration (by omega)
  · simp only [countersIn, Region.bytes_written]
    have kept32 (s : SparseBytes) (place target : Nat) (data : ByteArray)
        (apart : place + 4 ≤ target) : (s.write target data).u32 place = s.u32 place :=
      SparseBytes.u32_congr (s.agree_write target data (.inl apart))
    have own32 (s : SparseBytes) (place : Nat) (word : UInt32) :
        (s.write place (Bytes.ofU32 word)).u32 place = word := by
      rw [SparseBytes.u32_write _ _ _ (Nat.le_refl _) (by simp), Nat.sub_self, Bytes.u32At_ofU32]
    have own64 (s : SparseBytes) (place : Nat) (word : UInt64) :
        (s.write place (Bytes.ofU64 word)).u64 place = word := by
      rw [SparseBytes.u64_write _ _ _ (Nat.le_refl _) (by simp), Nat.sub_self, Bytes.u64At_ofU64]
    rw [kept32 _ 56 72 _ (by omega), kept32 _ 56 64 _ (by omega), kept32 _ 56 60 _ (by omega),
      own32, kept32 _ 60 72 _ (by omega), kept32 _ 60 64 _ (by omega), own32,
      kept32 _ 64 72 _ (by omega), own32, own64]
  · intro offset len outside
    rw [titleSize, headerSize] at outside
    refine (Region.agree_written _ _ _ (by rw [Bytes.size_ofU64]; omega)).trans ?_
    refine (Region.agree_written _ _ _ (by rw [Bytes.size_ofU32]; omega)).trans ?_
    refine (Region.agree_written _ _ _ (by rw [Bytes.size_ofU32]; omega)).trans ?_
    exact Region.agree_written _ _ _ (by rw [Bytes.size_ofU32]; omega)

end Reassembly.Store
