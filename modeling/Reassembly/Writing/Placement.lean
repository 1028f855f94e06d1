import Reassembly.Block.Gate
import Reassembly.Writing.Neighbours

/-!
Where the bytes of a segment go. A segment is placed piece by piece, each piece ending before the
next stored block. A piece goes to the open block of its side if it continues it; bytes that the
block before it covers are skipped; a piece that continues that block is appended to it while it is
still writable; any other piece opens a new block.
-/

namespace Reassembly.Writing

open Store

/-- What a write did with a segment. If a segment was divided, the first part that was stored
decides. -/
inductive Outcome where
  /-- Appended to the open block of its side. -/
  | appended
  /-- Appended to an earlier block that was still writable. -/
  | backfilled
  /-- Stored in a new block. -/
  | newBlock
  /-- All bytes were there already. -/
  | retransmission
  /-- There were no bytes. -/
  | empty
  /-- Not stored. -/
  | dropped
  deriving DecidableEq

namespace Outcome

def stored : Outcome → Bool
  | .appended | .backfilled | .newBlock => true
  | _ => false

def name : Outcome → String
  | .appended => "Appended"
  | .backfilled => "Backfilled"
  | .newBlock => "NewBlock"
  | .retransmission => "Retransmission"
  | .empty => "Empty"
  | .dropped => "Dropped"

end Outcome

structure Placement where
  consumed : Nat
  outcome : Outcome
  deriving DecidableEq

structure Piece where
  flow : FlowId
  side : Side
  seq : Seq
  initialSeq : Seq
  now : Micros

def Piece.key (p : Piece) : FlowKey := .pack p.flow p.side p.seq

def Piece.advance (p : Piece) (count : Nat) : Piece := { p with seq := p.seq.advance count }

abbrev Placing := HoldWith (Option Ref)

namespace Placing

open HoldWith

variable (l : Layout) (idle : Micros)

def gate : Block.Gate := ⟨l.capacity⟩

def offer (slot : UInt32) (header : Block.Header) (piece : Piece) (data : ByteArray) :
    Placing (Block.Verdict × Block.Header) :=
  onStore ((gate l).push (Hold.writePayload l slot) header data piece.seq piece.now)

def setHeader (slot : UInt32) (header : Block.Header) : Placing Unit :=
  onStore (Hold.setHeader l slot header)

/-- The slot and header of the open block. One that is gone, complete or idle is open no longer, and
an idle one is completed. -/
def reopen (now : Micros) : Placing (Option (UInt32 × Block.Header)) := do
  match ← own with
  | none => return none
  | some ref =>
    match ← onStore (Hold.resolve ref) with
    | none =>
      setOwn none
      return none
    | some (_, entry) =>
      let header ← onStore (Hold.header l entry.slot)
      if header.isComplete || header.expired now idle then
        unless header.isComplete do setHeader l entry.slot header.close
        setOwn none
        return none
      return some (entry.slot, header)

/-- Whether a new block that starts at `seq` becomes the open one: only behind the end of the block
that is open now. -/
def overtakes (seq : Seq) : Placing Bool := do
  match ← own with
  | none => return true
  | some ref =>
    match ← onStore (Hold.resolve ref) with
    | none => return true
    | some (_, entry) =>
      let header ← onStore (Hold.header l entry.slot)
      return !Seq.before seq header.endSeq

def storeInNewBlock (piece : Piece) (data : ByteArray) : Placing Placement := do
  match ← onStore (Hold.unlessFull (Hold.insertBlock l .l4Payload piece.key
      (Bytes.ofU32 piece.initialSeq.word) false piece.now)) with
  | none => return ⟨data.size, .dropped⟩
  | some entry =>
    let header ← onStore (Hold.header l entry.slot)
    let (verdict, header) ← offer l entry.slot header piece data
    if verdict ≠ .ok then
      discard <| onStore (Hold.erase l entry.ref)
      return ⟨data.size, .dropped⟩
    setHeader l entry.slot header
    if ← overtakes l piece.seq then setOwn (some entry.ref)
    return ⟨data.size, .newBlock⟩

/-- Continues the open block, if the piece does. A block that is too full for it makes room for a new
one. -/
def continueOpen (piece : Piece) (data : ByteArray) :
    Option (UInt32 × Block.Header) → Placing (Option Placement)
  | none => return none
  | some (slot, header) => do
    if header.hasData && header.endSeq != piece.seq then return none
    let (verdict, header) ← offer l slot header piece data
    match verdict with
    | .ok =>
      setHeader l slot header
      return some ⟨data.size, .appended⟩
    | .noSpace | .blockClosed =>
      setHeader l slot header
      setOwn none
      some <$> storeInNewBlock l piece data
    | .inconsistentSeq => return none
    | .noBlock | .pushError => return some ⟨data.size, .dropped⟩

/-- Skips what the block before the piece covers, or appends to that block if the piece continues
it. -/
def meetPredecessor (piece : Piece) (data : ByteArray) : Placing (Option Placement) := do
  match ← onStore (predecessor l piece.flow piece.side piece.seq) with
  | none => return none
  | some ⟨entry, header⟩ =>
    let stop := header.endSeq
    if Seq.inRange piece.seq header.base stop then
      return some ⟨min data.size (Seq.distance piece.seq stop), .retransmission⟩
    if stop = piece.seq && !header.isComplete && !header.expired piece.now idle
        && header.hasRoom data.size l.capacity then
      let (verdict, header) ← offer l entry.slot header piece data
      if verdict = .ok then
        setHeader l entry.slot header
        let current ← own
        return some ⟨data.size, if current = some entry.ref then .appended else .backfilled⟩
    return none

/-- Places the first bytes of `data` from `offset` on, as many as fit one frame before the next
stored block. At least one byte is consumed. -/
def placePiece (piece : Piece) (data : ByteArray) (offset : Nat) : Placing Placement := do
  let current ← reopen l idle piece.now
  let fitting := min (data.size - offset) (gate l).maxSegmentLen
  let len ← do
    match ← onStore (successorStart l piece.flow piece.side piece.seq) with
    | none => pure fitting
    | some next => pure (min fitting (Seq.distance piece.seq next))
  let part := Bytes.slice data offset len
  match ← continueOpen l piece part current with
  | some placed => return placed
  | none =>
    match ← meetPredecessor l idle piece part with
    | some placed => return placed
    | none => storeInNewBlock l piece part

/-- The outcome of a segment of which `stored` tells the first part that was stored. -/
def summary (stored : Option Outcome) (duplicate : Bool) : Outcome :=
  stored.getD (if duplicate then .retransmission else .dropped)

def placeFrom (piece : Piece) (data : ByteArray) (offset : Nat) (stored : Option Outcome)
    (duplicate : Bool) : Placing Outcome := do
  if _rest : offset < data.size then
    let placed ← placePiece l idle piece data offset
    if placed.outcome = .dropped then return stored.getD .dropped
    let duplicate := duplicate || placed.outcome = .retransmission
    let stored :=
      if placed.outcome = .retransmission then stored else stored <|> some placed.outcome
    if _progress : 0 < placed.consumed then
      placeFrom (piece.advance placed.consumed) data (offset + placed.consumed) stored duplicate
    else return summary stored duplicate
  else return summary stored duplicate
  termination_by data.size - offset

end Placing

end Reassembly.Writing
