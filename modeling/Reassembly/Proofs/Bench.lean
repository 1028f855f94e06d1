import Reassembly.Proofs.Edits
import Reassembly.Proofs.Nearest

/-!
A write as a function of catalogs. What it works on is the open block of its side and the catalog; each
step of placing a segment is stated on these two, and the program on a held store does the same.
-/

namespace Reassembly.Writing

open Store

structure Bench where
  openBlock : Option Ref
  cat : Catalog

def opened (cat : Catalog) (slot : UInt32) (piece : Piece) (chunk : ByteArray) : Item :=
  (Item.fresh cat slot .l4Payload piece.key (Bytes.ofU32 piece.initialSeq.word) false
    piece.now).grown piece.seq chunk piece.now

namespace Bench

variable (l : Layout) (idle : Micros) (b : Bench) (piece : Piece) (chunk : ByteArray)

/-- The block that the open reference leads to. -/
def located : Option Item := b.openBlock.bind b.cat.find?

/-- The open block, if it may still be written. -/
def writable? (now : Micros) : Option Item :=
  b.located.filter fun item => !(item.header.isComplete || item.header.expired now idle)

def reopen (now : Micros) : Bench :=
  match b.located with
  | none => ⟨none, b.cat⟩
  | some item =>
    if item.header.isComplete then ⟨none, b.cat⟩
    else if item.header.expired now idle then ⟨none, b.cat.complete item⟩
    else b

def overtakes (seq : Seq) : Bool :=
  match b.located with
  | none => true
  | some item => !Seq.before seq item.header.endSeq

def storeNew : Placement × Bench :=
  match b.cat.nextSlot? l with
  | none => (⟨chunk.size, .dropped⟩, b)
  | some slot =>
    let item := opened b.cat slot piece chunk
    let filed : Bench := ⟨b.openBlock, b.cat.shelve item⟩
    (⟨chunk.size, .newBlock⟩,
      if filed.overtakes piece.seq then ⟨some item.ref, filed.cat⟩ else filed)

/-- Bytes that continue the open block `current`, or make room for themselves behind it. -/
def continueOpen? (current : Option Item) : Option (Placement × Bench) :=
  match current with
  | none => none
  | some item =>
    if item.header.hasData && item.header.endSeq != piece.seq then none
    else if item.header.hasRoom chunk.size l.capacity then
      some (⟨chunk.size, .appended⟩,
        ⟨b.openBlock, b.cat.append item piece.seq chunk piece.now⟩)
    else some (storeNew l ⟨none, b.cat.complete item⟩ piece chunk)

/-- Whether a block that ends where a piece starts takes it. -/
def takes (item : Item) : Bool :=
  item.header.endSeq = piece.seq && !item.header.isComplete
    && !item.header.expired piece.now idle && item.header.hasRoom chunk.size l.capacity

/-- Bytes that the block before them covers, or that continue it. -/
def meetPredecessor? : Option (Placement × Bench) :=
  match b.cat.predecessor? piece.key with
  | none => none
  | some item =>
    if Seq.inRange piece.seq item.header.base item.header.endSeq then
      some (⟨min chunk.size (Seq.distance piece.seq item.header.endSeq), .retransmission⟩, b)
    else if takes l idle piece chunk item then
      some (⟨chunk.size, if b.openBlock = some item.ref then .appended else .backfilled⟩,
        ⟨b.openBlock, b.cat.append item piece.seq chunk piece.now⟩)
    else none

def pieceLength (rest : Nat) : Nat :=
  let fitting := min rest (Placing.gate l).maxSegmentLen
  match b.cat.successor? piece.key with
  | none => fitting
  | some next => min fitting (Seq.distance piece.seq next)

def part (data : ByteArray) (offset : Nat) : ByteArray :=
  Bytes.slice data offset (b.pieceLength l piece (data.size - offset))

def place (data : ByteArray) (offset : Nat) : Placement × Bench :=
  let current := b.writable? idle piece.now
  let b := b.reopen idle piece.now
  let part := b.part l piece data offset
  ((b.continueOpen? l piece part current).or (b.meetPredecessor? l idle piece part)).getD
    (b.storeNew l piece part)

def placeAll (b : Bench) (piece : Piece) (data : ByteArray) (offset : Nat) (stored : Option Outcome)
    (duplicate : Bool) : Outcome × Bench :=
  if _rest : offset < data.size then
    match b.place l idle piece data offset with
    | (placed, b) =>
      if placed.outcome = .dropped then (stored.getD .dropped, b)
      else
        let duplicate := duplicate || placed.outcome = .retransmission
        let stored :=
          if placed.outcome = .retransmission then stored else stored <|> some placed.outcome
        if _progress : 0 < placed.consumed then
          placeAll b (piece.advance placed.consumed) data (offset + placed.consumed) stored duplicate
        else (Placing.summary stored duplicate, b)
  else (Placing.summary stored duplicate, b)
  termination_by data.size - offset

variable {l idle b piece chunk}

theorem mem_of_located {item : Item} (found : b.located = some item) : item ∈ b.cat.items := by
  obtain ⟨ref, _, here⟩ := Option.bind_eq_some_iff.mp found
  exact Catalog.mem_of_find? here

theorem ref_of_located {item : Item} (found : b.located = some item) :
    b.openBlock = some item.ref := by
  obtain ⟨ref, current, here⟩ := Option.bind_eq_some_iff.mp found
  rw [current, Catalog.ref_of_find? here]

theorem writable?_spec {now : Micros} {item : Item} (found : b.writable? idle now = some item) :
    b.located = some item ∧ item.header.isComplete = false ∧
      item.header.expired now idle = false ∧ b.reopen idle now = b := by
  obtain ⟨here, fine⟩ := Option.filter_eq_some_iff.mp found
  rw [Bool.not_eq_true', Bool.or_eq_false_iff] at fine
  refine ⟨here, fine.1, fine.2, ?_⟩
  simp only [reopen, here, fine.1, fine.2, Bool.false_eq_true, if_false]

theorem located_reopen {now : Micros} {item : Item} (found : b.writable? idle now = some item) :
    (b.reopen idle now).located = some item ∧ item.header.isComplete = false := by
  obtain ⟨here, writable, _, same⟩ := writable?_spec found
  rw [same]
  exact ⟨here, writable⟩

end Bench

end Reassembly.Writing
