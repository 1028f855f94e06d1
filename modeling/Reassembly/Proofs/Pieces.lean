import Reassembly.Proofs.Soundness

/-!
What placing one piece can do. It finds its bytes stored, continues the open block, continues the block
before it, replaces an open block that is too full, or opens a block of its own; nothing else happens to
the catalog but that an idle open block is completed first.
-/

namespace Reassembly.Writing

open Store

def Piece.lane (piece : Piece) : Nat := FlowKey.laneOf piece.flow piece.side

@[simp] theorem Piece.lane_key (piece : Piece) : piece.key.lane = piece.lane := FlowKey.lane_pack ..

@[simp] theorem Piece.seq_key (piece : Piece) : piece.key.seq = piece.seq := FlowKey.seq_pack ..

theorem lane_opened (cat : Catalog) (slot : UInt32) (piece : Piece) (chunk : ByteArray) :
    (opened cat slot piece chunk).lane = piece.lane := piece.lane_key

theorem start_opened (cat : Catalog) (slot : UInt32) (piece : Piece) (chunk : ByteArray) :
    (opened cat slot piece chunk).start = piece.seq := piece.seq_key

theorem slot_opened (cat : Catalog) (slot : UInt32) (piece : Piece) (chunk : ByteArray) :
    (opened cat slot piece chunk).slot = slot := rfl

namespace Bench

structure Fit (l : Layout) (lane : Nat) (b : Bench) : Prop where
  ordered : b.cat.Ordered l
  sound : b.cat.Sound
  aimed : ∀ ref, b.openBlock = some ref → ref.key.lane = lane

/-- What became of a piece with these bytes, once the open block was looked at. -/
inductive Placed (l : Layout) (idle : Micros) (b : Bench) (piece : Piece) (chunk : ByteArray) :
    Placement → Bench → Prop
  /-- The block before it holds the first bytes. -/
  | covered {item : Item} (found : b.cat.predecessor? piece.key = some item)
      (inside : Seq.inRange piece.seq item.header.base item.header.endSeq = true) :
      Placed l idle b piece chunk
        ⟨min chunk.size (Seq.distance piece.seq item.header.endSeq), .retransmission⟩ b
  /-- It continues the open block. -/
  | continued {item : Item} (current : b.writable? idle piece.now = some item)
      (stop : item.header.endSeq = piece.seq)
      (room : item.header.hasRoom chunk.size l.capacity = true) :
      Placed l idle b piece chunk ⟨chunk.size, .appended⟩
        ⟨b.openBlock, b.cat.append item piece.seq chunk piece.now⟩
  /-- It continues the block before it. -/
  | resumed {item : Item} (found : b.cat.predecessor? piece.key = some item)
      (writable : item.header.isComplete = false) (stop : item.header.endSeq = piece.seq)
      (room : item.header.hasRoom chunk.size l.capacity = true) :
      Placed l idle b piece chunk
        ⟨chunk.size, if b.openBlock = some item.ref then .appended else .backfilled⟩
        ⟨b.openBlock, b.cat.append item piece.seq chunk piece.now⟩
  /-- It continues the open block, which has no room and is completed. -/
  | replaced {item : Item} (current : b.writable? idle piece.now = some item)
      (stop : item.header.endSeq = piece.seq) :
      Placed l idle b piece chunk (storeNew l ⟨none, b.cat.complete item⟩ piece chunk).1
        (storeNew l ⟨none, b.cat.complete item⟩ piece chunk).2
  /-- It stands apart. -/
  | apart (outside : ∀ item, b.cat.predecessor? piece.key = some item →
        Seq.inRange piece.seq item.header.base item.header.endSeq = false) :
      Placed l idle b piece chunk (b.storeNew l piece chunk).1 (b.storeNew l piece chunk).2

variable {l : Layout} {idle : Micros} {b : Bench} {piece : Piece} {chunk : ByteArray}

theorem mem_of_writable? {now : Micros} {item : Item} (current : b.writable? idle now = some item) :
    item ∈ b.cat.items :=
  mem_of_located (writable?_spec current).1

theorem Fit.streams {lane : Nat} (fit : b.Fit l lane) {item : Item} (member : item ∈ b.cat.items)
    (writable : item.header.isComplete = false) : ∃ chunks, item.Streams chunks := by
  rcases fit.sound item member with marker | streams
  · rw [marker.complete] at writable
    cases writable
  · exact streams

theorem Fit.lane_eq {lane : Nat} (fit : b.Fit l lane) {now : Micros} {item : Item}
    (current : b.writable? idle now = some item) : item.lane = lane :=
  fit.aimed item.ref (ref_of_located (writable?_spec current).1)

theorem Fit.reopen {lane : Nat} (fit : b.Fit l lane) (now : Micros) :
    (b.reopen idle now).Fit l lane := by
  rw [Bench.reopen]
  split
  · exact ⟨fit.ordered, fit.sound, fun _ same => absurd same.symm (Option.some_ne_none _)⟩
  · next item found =>
    have member := mem_of_located found
    split
    · exact ⟨fit.ordered, fit.sound, fun _ same => absurd same.symm (Option.some_ne_none _)⟩
    · next writable =>
      obtain ⟨chunks, streams⟩ := fit.streams member (Bool.eq_false_iff.mpr writable)
      split
      · exact ⟨fit.ordered.recast (fit.ordered.fits item member),
          fit.sound.complete fit.ordered member streams,
          fun _ same => absurd same.symm (Option.some_ne_none _)⟩
      · exact fit

theorem writable?_reopen (now : Micros) :
    (b.reopen idle now).writable? idle now = b.writable? idle now := by
  rw [Bench.reopen]
  split
  · next none_found =>
    rw [writable?, writable?, none_found]
    rfl
  · next item found =>
    split
    · next done =>
      rw [writable?, writable?, found, Option.filter_some, if_neg (by simp [done])]
      rfl
    · split
      · next old =>
        rw [writable?, writable?, found, Option.filter_some, if_neg (by simp [old])]
        rfl
      · rfl

/-- One piece does one of these. -/
theorem place_placed {lane : Nat} (fit : b.Fit l lane) (data : ByteArray) (offset : Nat) :
    Placed l idle (b.reopen idle piece.now) piece
      ((b.reopen idle piece.now).part l piece data offset)
      (b.place l idle piece data offset).1 (b.place l idle piece data offset).2 := by
  have again := (@Writing.Bench.writable?_reopen idle b) piece.now
  have refit := (@Writing.Bench.Fit.reopen _ idle) fit piece.now
  rw [Bench.place]
  generalize b.writable? idle piece.now = current at again ⊢
  generalize b.reopen idle piece.now = b at again refit ⊢
  generalize b.part l piece data offset = chunk
  have separate : b.continueOpen? l piece chunk current = none →
      Placed l idle b piece chunk
        ((b.meetPredecessor? l idle piece chunk).getD (b.storeNew l piece chunk)).1
        ((b.meetPredecessor? l idle piece chunk).getD (b.storeNew l piece chunk)).2 := by
    intro _
    rw [meetPredecessor?]
    cases found : b.cat.predecessor? piece.key with
    | none => exact .apart fun item here => absurd (here.symm.trans found) (Option.some_ne_none _)
    | some item =>
      dsimp only
      by_cases inside : Seq.inRange piece.seq item.header.base item.header.endSeq = true
      · rw [if_pos inside]
        exact .covered found inside
      · rw [if_neg inside]
        by_cases takes : takes l idle piece chunk item = true
        · rw [if_pos takes]
          rw [Bench.takes, Bool.and_eq_true, Bool.and_eq_true, Bool.and_eq_true,
            Bool.not_eq_true', decide_eq_true_eq] at takes
          exact .resumed found takes.1.1.2 takes.1.1.1 takes.2
        · rw [if_neg takes]
          refine .apart fun other here => ?_
          obtain rfl := Option.some.inj (found.symm.trans here)
          exact Bool.eq_false_iff.mpr inside
  cases current with
  | none => exact separate rfl
  | some item =>
    obtain ⟨_, writable, _, _⟩ := writable?_spec again
    obtain ⟨chunks, streams⟩ := refit.streams (mem_of_writable? again) writable
    rw [continueOpen?] at separate ⊢
    rw [streams.data, Bool.true_and] at separate ⊢
    by_cases stop : item.header.endSeq = piece.seq
    · rw [if_neg (by simp [stop])]
      by_cases room : item.header.hasRoom chunk.size l.capacity = true
      · rw [if_pos room]
        exact .continued again stop room
      · rw [if_neg room]
        exact .replaced again stop
    · have elsewhere : (item.header.endSeq != piece.seq) = true := by simpa using stop
      rw [if_pos elsewhere] at separate ⊢
      exact separate rfl

theorem Fit.storeNew (fit : b.Fit l piece.lane) (framable : Placing.Framable l chunk) :
    (b.storeNew l piece chunk).2.Fit l piece.lane := by
  rw [Bench.storeNew]
  split
  · exact fit
  · next slot next =>
    have streams := opened_streams b.cat slot piece framable
    have ordered : (b.cat.shelve (opened b.cat slot piece chunk)).Ordered l := by
      refine fit.ordered.shelve next ?_
      have room := framable.room
      have used := streams.used_eq
      rw [Block.streamLength_singleton, List.length_singleton, Nat.one_mul] at used
      omega
    have sound := fit.sound.shelve (.inr ⟨_, streams⟩)
    dsimp only
    split
    · refine ⟨ordered, sound, fun ref same => ?_⟩
      rw [← Option.some.inj same]
      exact piece.lane_key
    · exact ⟨ordered, sound, fit.aimed⟩

theorem Fit.complete {lane : Nat} (fit : b.Fit l lane) {item : Item} (member : item ∈ b.cat.items)
    (writable : item.header.isComplete = false) :
    (⟨none, b.cat.complete item⟩ : Bench).Fit l lane := by
  obtain ⟨chunks, streams⟩ := fit.streams member writable
  exact ⟨fit.ordered.recast (fit.ordered.fits item member),
    fit.sound.complete fit.ordered member streams, nofun⟩

theorem Fit.room {lane : Nat} (fit : b.Fit l lane) {item : Item} (member : item ∈ b.cat.items)
    (framable : Placing.Framable l chunk) (room : item.header.hasRoom chunk.size l.capacity = true) :
    item.header.used + Block.frameLengthSize + chunk.size ≤ l.capacity :=
  (fit.ordered.hasRoom_iff member framable.small).mp room

theorem Fit.append {lane : Nat} (fit : b.Fit l lane) {item : Item} (member : item ∈ b.cat.items)
    (writable : item.header.isComplete = false) (stop : item.header.endSeq = piece.seq)
    (framable : Placing.Framable l chunk)
    (room : item.header.hasRoom chunk.size l.capacity = true) :
    (⟨b.openBlock, b.cat.append item piece.seq chunk piece.now⟩ : Bench).Fit l lane := by
  obtain ⟨chunks, streams⟩ := fit.streams member writable
  have room := fit.room member framable room
  have counted := Block.Header.used_accept piece.seq piece.now room l.capacity_lt
  refine ⟨fit.ordered.recast ?_,
    fit.sound.append fit.ordered member streams piece.now stop framable.some room, fit.aimed⟩
  rw [Item.grown, counted]
  exact room

theorem Placed.fit {placement : Placement} {b' : Bench}
    (placed : Placed l idle b piece chunk placement b') (fit : b.Fit l piece.lane)
    (framable : Placing.Framable l chunk) : b'.Fit l piece.lane := by
  cases placed with
  | covered _ _ => exact fit
  | continued current stop room =>
    exact fit.append (mem_of_writable? current) (writable?_spec current).2.1 stop framable room
  | resumed found writable stop room =>
    exact fit.append (fit.ordered.sorted.predecessor?_spec found).1 writable stop framable room
  | replaced current _ =>
    exact (fit.complete (mem_of_writable? current) (writable?_spec current).2.1).storeNew framable
  | apart _ => exact fit.storeNew framable

end Bench

end Reassembly.Writing
