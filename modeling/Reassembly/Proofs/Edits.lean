import Reassembly.Proofs.Framing
import Reassembly.Proofs.Locking
import Reassembly.Writing.Placement

/-!
The edits by which a write changes a store: completing a block, appending a frame to it, and opening a
new block with its first frame. Each is described by the catalog it leaves.
-/

namespace Reassembly

namespace Block.Gate

theorem judge_eq (g : Gate) {h : Header} {start : Seq} {len : Nat} (writable : h.isComplete = false)
    (some : 0 < len) (short : len < UInt32.size) (follows : h.hasData = true → h.endSeq = start) :
    g.judge h start len = if h.hasRoom len g.capacity then .ok else .noSpace := by
  have next : (h.hasData && start != h.lastAccepted.advance 1) = false := by
    cases data : h.hasData with
    | false => rfl
    | true =>
      have stop := follows data
      rw [Header.endSeq, if_pos data] at stop
      rw [stop, Bool.true_and, bne_self_eq_false]
  rw [judge, if_neg (by simp [writable]), if_neg (by omega)]
  cases room : h.hasRoom len g.capacity with
  | false => rfl
  | true =>
    rw [if_neg (by simp), if_neg (by simp [next]), if_neg (by omega)]
    rfl

end Block.Gate

theorem Block.Header.hasRoom_iff {h : Header} {len : Nat} (capacity : Nat)
    (word : h.used + frameLengthSize + len < UInt64.size) :
    h.hasRoom len capacity = true ↔ h.used + frameLengthSize + len ≤ capacity := by
  rw [hasRoom, decide_eq_true_eq, wordSum_eq (by omega : h.used + frameLengthSize < UInt64.size), wordSum_eq word]

theorem Block.Header.used_accept_of_lt_size {h : Header} {len capacity : Nat} (start : Seq) (now : Micros)
    (room : h.used + frameLengthSize + len ≤ capacity) (limit : capacity < UInt64.size) :
    (h.accept start len now).used = h.used + frameLengthSize + len := by
  have before := h.usedLen.toNat_lt
  rw [used, frameLengthSize] at room
  rw [UInt64.size] at limit
  rw [used, accept, frameLengthSize, used, UInt64.toNat_add, UInt64.toNat_ofNat']
  omega

theorem Block.Header.used_accept {h : Header} {len capacity : Nat} (start : Seq) (now : Micros)
    (room : h.used + frameLengthSize + len ≤ capacity) (limit : capacity < 4294967296) :
    (h.accept start len now).used = h.used + frameLengthSize + len :=
  used_accept_of_lt_size start now room (limit.trans (by decide))

namespace Store

/-- The block with one more frame. -/
def Item.grown (item : Item) (start : Seq) (chunk : ByteArray) (now : Micros) : Item :=
  ⟨item.entry, item.header.accept start chunk.size now, item.body ++ Block.framed chunk⟩

namespace Catalog

def complete (cat : Catalog) (item : Item) : Catalog :=
  cat.recast item.slot item.header.close item.body

def append (cat : Catalog) (item : Item) (start : Seq) (chunk : ByteArray) (now : Micros) : Catalog :=
  cat.recast item.slot (item.grown start chunk now).header (item.grown start chunk now).body

theorem Ordered.hasRoom_iff {l : Layout} {cat : Catalog} (ordered : cat.Ordered l) {item : Item}
    (member : item ∈ cat.items) {len : Nat} (short : len < UInt32.size) :
    item.header.hasRoom len l.capacity = true ↔
      item.header.used + Block.frameLengthSize + len ≤ l.capacity := by
  have fits := ordered.fits item member
  have limit := l.capacity_lt
  refine Block.Header.hasRoom_iff _ ?_
  rw [UInt32.size] at short
  rw [Block.frameLengthSize, UInt64.size]
  omega

theorem recast_shelve {l : Layout} {cat : Catalog} (ordered : cat.Ordered l) {item : Item}
    (next : cat.nextSlot? l = some item.slot) (header : Block.Header) (body : ByteArray) :
    (cat.shelve item).recast item.slot header body = cat.shelve ⟨item.entry, header, body⟩ := by
  have unused := (ordered.nextSlot_spec next).2.1
  have others : cat.items.map (fun other =>
      if other.slot = item.slot then (⟨other.entry, header, body⟩ : Item) else other) =
      cat.items := by
    conv => rhs; rw [← List.map_id cat.items]
    refine List.map_congr_left fun other member => if_neg fun same => unused ?_
    exact same ▸ List.mem_map_of_mem member
  simp only [recast, shelve, file, List.map_insertIdx, others, if_true]

end Catalog

namespace Holds
open Catalog
variable {l : Layout} {held : Held} {cat : Catalog} (holds : Holds l held cat)
include holds

theorem rewriteHeader_run {item : Item} (member : item ∈ cat.items) {header : Block.Header}
    (same : header.used = item.header.used) :
    ∃ held', Hold.setHeader l item.slot header held = .ok () held' ∧
      Holds l held' (cat.recast item.slot header item.body) := by
  obtain ⟨held', ran, holds'⟩ := holds.setHeader_run member header
    (same ▸ holds.ordered.fits item member)
  rw [same, holds.body_eq member] at holds'
  exact ⟨held', ran, holds'⟩

theorem complete_run {item : Item} (member : item ∈ cat.items) :
    ∃ held', Hold.setHeader l item.slot item.header.close held = .ok () held' ∧
      Holds l held' (cat.complete item) :=
  holds.rewriteHeader_run member rfl

theorem push_run {item : Item} (member : item ∈ cat.items) {start : Seq} {chunk : ByteArray}
    (now : Micros) (judged : (Writing.Placing.gate l).judge item.header start chunk.size = .ok)
    (room : item.header.used + Block.frameLengthSize + chunk.size ≤ l.capacity) :
    ∃ held₁ held₂,
      (Writing.Placing.gate l).push (Hold.writePayload l item.slot) item.header chunk start now held =
        .ok (.ok, (item.grown start chunk now).header) held₁ ∧
      Hold.setHeader l item.slot (item.grown start chunk now).header held₁ = .ok () held₂ ∧
      Holds l held₂ (cat.append item start chunk now) := by
  have limit := l.capacity_lt
  have behind : wordSum item.header.used Block.frameLengthSize = item.header.used + Block.frameLengthSize := by
    refine wordSum_eq ?_
    rw [UInt64.size]
    omega
  rw [Block.frameLengthSize] at room
  have used := Block.Header.used_accept (h := item.header) start now room l.capacity_lt
  rw [Block.frameLengthSize] at used
  have size : (Bytes.ofU32 (UInt32.ofNat chunk.size)).size = 4 := Bytes.size_ofU32 _
  obtain ⟨first, holds₁⟩ := @Store.Holds.writePayload_run _ _ _ holds _ member _
    (Bytes.ofU32 (UInt32.ofNat chunk.size)) (Nat.le_refl _) (by omega)
  obtain ⟨second, holds₂⟩ := @Store.Holds.writePayload_run _ _ _ holds₁ _ member
    (item.header.used + Block.frameLengthSize) chunk (by omega) (by rw [Block.frameLengthSize]; omega)
  obtain ⟨held₂, headed, holds₃⟩ := holds₂.setHeader_run member
    (item.grown start chunk now).header (by rw [Item.grown, used]; exact room)
  refine ⟨_, held₂, ?_, headed, ?_⟩
  · rw [Block.Gate.push, judged]
    dsimp only
    rw [behind, Work.bind_ok first, Work.bind_ok second]
    rfl
  · have front := holds₂.body_eq member
    simp only [Region.bytes_written] at front holds₃
    have behind : item.header.used + 4 + chunk.size =
        item.header.used + (4 + chunk.size) := Nat.add_assoc ..
    rw [bodyIn] at front
    rw [Item.grown, used, bodyIn, behind, SparseBytes.read_append, front, SparseBytes.read_append,
      Block.frameLengthSize, ← Nat.add_assoc, SparseBytes.read_write_self,
      SparseBytes.read_congr (SparseBytes.agree_write _ _ _ (.inl (Nat.le_refl _)))] at holds₃
    have length := SparseBytes.read_write_self held.region.bytes
      (l.payloadOffset item.slot + item.header.used) (Bytes.ofU32 (UInt32.ofNat chunk.size))
    rw [size] at length
    rw [length] at holds₃
    exact holds₃

end Holds

end Store

end Reassembly
