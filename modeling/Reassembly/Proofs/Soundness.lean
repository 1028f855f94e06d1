import Reassembly.Proofs.Consulting
import Reassembly.Proofs.Opening
import Reassembly.Proofs.Putting
import Reassembly.Proofs.Sweeping

/-!
What stored blocks look like. A block is a marker, which is complete and holds only the number that it
announces, or it holds chunks of stream bytes, each behind the one before it, from the position of its
key on. Every edit of a catalog keeps its blocks so.
-/

namespace Reassembly.Store

namespace Item

structure IsMarker (item : Item) : Prop where
  kind : item.header.kind = .startFlow
  complete : item.header.isComplete = true
  bare : item.header.hasData = false
  base : item.header.base = item.start
  body : item.body = Bytes.ofU32 item.start.word
  used : item.header.used = item.body.size

structure Streams (item : Item) (chunks : List ByteArray) : Prop where
  kind : item.header.kind = .l4Payload
  data : item.header.hasData = true
  base : item.header.base = item.start
  stop : item.header.endSeq = item.start.advance (Block.streamLength chunks)
  body : ∃ initial, item.body = Block.area initial chunks
  used : item.header.used = item.body.size
  some : chunks ≠ []
  filled : ∀ chunk ∈ chunks, 0 < chunk.size

def Sound (item : Item) : Prop := item.IsMarker ∨ ∃ chunks, item.Streams chunks

variable {item : Item} {chunks : List ByteArray}

theorem IsMarker.isPayload (marker : item.IsMarker) : item.isPayload = false := by
  rw [Item.isPayload, marker.kind]
  rfl

theorem Streams.isPayload (streams : item.Streams chunks) : item.isPayload = true := by
  rw [Item.isPayload, streams.kind]
  rfl

theorem Streams.used_eq (streams : item.Streams chunks) : item.header.used =
    Block.initialSize + chunks.length * Block.frameLengthSize + Block.streamLength chunks := by
  obtain ⟨initial, body⟩ := streams.body
  rw [streams.used, body, Block.size_area]

theorem size_le_streamLength {chunk : ByteArray} (member : chunk ∈ chunks) :
    chunk.size ≤ Block.streamLength chunks := by
  obtain ⟨front, back, rfl⟩ := List.append_of_mem member
  rw [Block.streamLength_append, Block.streamLength_cons]
  omega

theorem Streams.streamLength_pos (streams : item.Streams chunks) : 0 < Block.streamLength chunks := by
  obtain ⟨chunk, member⟩ := List.exists_mem_of_ne_nil _ streams.some
  exact (streams.filled chunk member).trans_le (size_le_streamLength member)

theorem Streams.streamLength_lt (streams : item.Streams chunks) {capacity : Nat}
    (fits : item.header.used ≤ capacity) : Block.streamLength chunks + 8 ≤ capacity := by
  have length := List.length_pos_iff.mpr streams.some
  have used := streams.used_eq
  rw [Block.initialSize, Block.frameLengthSize] at used
  omega

theorem Streams.frames_eq (streams : item.Streams chunks) {l : Layout}
    (fits : item.header.used ≤ l.capacity) : item.frames = Block.lay item.start chunks := by
  obtain ⟨initial, body⟩ := streams.body
  have limit := l.capacity_lt
  have total := streams.streamLength_lt fits
  rw [frames, streams.base, body]
  refine Block.frames_area initial chunks item.start fun chunk member => ?_
  have := size_le_streamLength member
  rw [UInt32.size]
  omega

theorem IsMarker.frames_eq (marker : item.IsMarker) : item.frames = [] := by
  have area : item.body = Block.area item.start.word [] := by
    rw [marker.body, Block.area, Block.train, ByteArray.append_empty]
  rw [frames, area]
  exact Block.frames_area _ [] _ fun _ member => absurd member List.not_mem_nil

theorem Streams.distance_eq (streams : item.Streams chunks) {l : Layout}
    (fits : item.header.used ≤ l.capacity) :
    Seq.distance item.start item.header.endSeq = Block.streamLength chunks := by
  have limit := l.capacity_lt
  have total := streams.streamLength_lt fits
  rw [streams.stop]
  exact Seq.distance_advance_of_lt _ (by rw [Seq.circle]; omega)

theorem Streams.of_header {header : Block.Header} (streams : item.Streams chunks)
    (kind : header.kind = item.header.kind) (data : header.hasData = item.header.hasData)
    (base : header.base = item.header.base)
    (last : header.lastAccepted = item.header.lastAccepted)
    (used : header.usedLen = item.header.usedLen) :
    (⟨item.entry, header, item.body⟩ : Item).Streams chunks where
  kind := kind.trans streams.kind
  data := data.trans streams.data
  base := base.trans streams.base
  stop := by
    have stop := streams.stop
    rw [Block.Header.endSeq] at stop ⊢
    rw [data, base, last]
    exact stop
  body := streams.body
  used := by
    have same := streams.used
    rw [Block.Header.used] at same ⊢
    rw [used]
    exact same
  some := streams.some
  filled := streams.filled

theorem Streams.close (streams : item.Streams chunks) :
    (⟨item.entry, item.header.close, item.body⟩ : Item).Streams chunks :=
  streams.of_header rfl rfl rfl rfl rfl

theorem Streams.grown (streams : item.Streams chunks) {start : Seq} {chunk : ByteArray} (now : Micros)
    {l : Layout} (follows : item.header.endSeq = start) (filled : 0 < chunk.size)
    (room : item.header.used + Block.frameLengthSize + chunk.size ≤ l.capacity) :
    (item.grown start chunk now).Streams (chunks ++ [chunk]) := by
  obtain ⟨initial, body⟩ := streams.body
  refine ⟨streams.kind, rfl, ?_, ?_, ⟨initial, ?_⟩, ?_, by simp, fun other member => ?_⟩
  · exact (if_pos streams.data).trans streams.base
  · have last : (item.grown start chunk now).header.endSeq = (start.advance chunk.size).pred.advance 1 :=
      rfl
    rw [last, Seq.advance_pred_advance, ← follows, streams.stop, Seq.advance_advance,
      Block.streamLength_append, Block.streamLength_singleton]
    rfl
  · rw [Item.grown, body, Block.area_append_framed]
  · have counted := Block.Header.used_accept start now room l.capacity_lt
    rw [Item.grown, counted, ByteArray.size_append, Block.size_framed, ← streams.used, Nat.add_assoc]
  · rcases List.mem_append.mp member with old | new
    · exact streams.filled other old
    · rw [List.mem_singleton.mp new]
      exact filled

end Item

namespace Catalog

def Sound (cat : Catalog) : Prop := ∀ item ∈ cat.items, item.Sound

theorem Sound.empty : Catalog.empty.Sound := fun _ listed => absurd listed List.not_mem_nil

variable {cat : Catalog}

theorem Sound.recast (sound : cat.Sound) {slot : UInt32} {header : Block.Header} {body : ByteArray}
    (changed : ∀ item ∈ cat.items, item.slot = slot → (⟨item.entry, header, body⟩ : Item).Sound) :
    (cat.recast slot header body).Sound := by
  intro item member
  rcases mem_recast.mp member with ⟨old, known, here, rfl⟩ | ⟨known, _⟩
  · exact changed old known here
  · exact sound item known

theorem Sound.shelve (sound : cat.Sound) {item : Item} (fresh : item.Sound) :
    (cat.shelve item).Sound := by
  intro other member
  rcases mem_file.mp member with rfl | old
  · exact fresh
  · exact sound other old

theorem Sound.erase (sound : cat.Sound) (ref : Ref) : (cat.erase ref).Sound := by
  rw [Catalog.erase]
  split
  · exact sound
  · exact fun item kept => sound item (List.mem_of_mem_eraseIdx kept)

theorem Sound.swept (sound : cat.Sound) (idle now : Micros) : (cat.swept idle now).Sound := by
  intro item member
  obtain ⟨old, known, rfl⟩ := List.mem_map.mp member
  rw [Item.swept]
  split
  · next stale =>
    rcases sound old known with marker | ⟨chunks, streams⟩
    · rw [Item.isIdle, marker.complete] at stale
      cases stale
    · exact .inr ⟨chunks, streams.of_header rfl rfl rfl rfl rfl⟩
  · exact sound old known

variable {l : Layout} (ordered : cat.Ordered l)
include ordered

theorem Sound.complete (sound : cat.Sound) {item : Item} (member : item ∈ cat.items)
    {chunks : List ByteArray} (streams : item.Streams chunks) : (cat.complete item).Sound := by
  refine sound.recast fun other known same => ?_
  obtain rfl := ordered.eq_of_slot known member same
  exact .inr ⟨chunks, streams.close⟩

theorem Sound.append (sound : cat.Sound) {item : Item} (member : item ∈ cat.items)
    {chunks : List ByteArray} (streams : item.Streams chunks) {start : Seq} {chunk : ByteArray}
    (now : Micros) (follows : item.header.endSeq = start) (filled : 0 < chunk.size)
    (room : item.header.used + Block.frameLengthSize + chunk.size ≤ l.capacity) :
    (cat.append item start chunk now).Sound := by
  refine sound.recast fun other known same => ?_
  obtain rfl := ordered.eq_of_slot known member same
  exact .inr ⟨_, streams.grown now follows filled room⟩

theorem Ordered.erase (ref : Ref) : (cat.erase ref).Ordered l := by
  rw [Catalog.erase]
  split
  · exact ordered
  · next item found => exact ordered.discard (ordered.getElem?_below found)

end Catalog

end Reassembly.Store

namespace Reassembly.Writing

open Store

theorem markerFor_isMarker (cat : Catalog) (slot : UInt32) (segment : Segment) (now : Micros) :
    (markerFor cat slot segment now).IsMarker := by
  have size : (Bytes.ofU32 segment.sequence.word).size = 4 := Bytes.size_ofU32 _
  have start : (markerFor cat slot segment now).start = segment.sequence := FlowKey.seq_pack ..
  refine ⟨rfl, rfl, rfl, rfl, ?_, ?_⟩
  · rw [start]
    rfl
  · show (UInt64.ofNat (Bytes.ofU32 segment.sequence.word).size).toNat =
      (Bytes.ofU32 segment.sequence.word).size
    rw [size]
    rfl

theorem opened_streams {l : Layout} (cat : Catalog) (slot : UInt32) (piece : Piece)
    {chunk : ByteArray} (framable : Placing.Framable l chunk) :
    (opened cat slot piece chunk).Streams [chunk] := by
  have size : (Bytes.ofU32 piece.initialSeq.word).size = 4 := Bytes.size_ofU32 _
  have start : (opened cat slot piece chunk).start = piece.seq := FlowKey.seq_pack ..
  have room := framable.room
  rw [Block.initialSize, Block.frameLengthSize] at room
  refine ⟨rfl, rfl, start.symm, ?_, ⟨piece.initialSeq.word, ?_⟩, ?_, by simp, fun other member => ?_⟩
  · have last : (opened cat slot piece chunk).header.endSeq =
        (piece.seq.advance chunk.size).pred.advance 1 := rfl
    rw [last, Seq.advance_pred_advance, start, Block.streamLength_singleton]
  · rw [Block.area, Block.train, Block.train, ByteArray.append_empty]
    rfl
  · have used : (Item.fresh cat slot .l4Payload piece.key (Bytes.ofU32 piece.initialSeq.word) false
        piece.now).header.used = 4 := by
      show (UInt64.ofNat (Bytes.ofU32 piece.initialSeq.word).size).toNat = 4
      rw [size]
      rfl
    have counted := Block.Header.used_accept (h := (Item.fresh cat slot .l4Payload piece.key
      (Bytes.ofU32 piece.initialSeq.word) false piece.now).header) piece.seq
      piece.now (by rw [used, Block.frameLengthSize]; exact room) l.capacity_lt
    rw [opened, Item.grown, counted, used, ByteArray.size_append, Block.size_framed]
    show _ = (Bytes.ofU32 piece.initialSeq.word).size + _
    rw [size, Nat.add_assoc]
  · rw [List.mem_singleton.mp member]
    exact framable.some

end Reassembly.Writing
