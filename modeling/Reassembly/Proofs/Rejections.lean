import Reassembly.Proofs.Putting

/-!
Rejected frames. What a write does when a block rejects the frame that it is offered is left open here:
the open block, the block before the piece and a new block may each answer a rejection in any way. On a
region that carries a catalog no such answer is ever asked for, so all these programs are the same.
-/

namespace Reassembly

theorem Work.bind_congr {σ α β : Type} {work work' : Work σ α} {next next' : α → Work σ β} {s t : σ}
    {a : α} (ran : work s = .ok a t) (same : work' s = work s) (rest : next' a t = next a t) :
    (work' >>= next') s = (work >>= next) s := by
  rw [bind_ok ran, bind_ok (same.trans ran), rest]

namespace Writing

open Store HoldWith

/-- What a write does with bytes that a block rejects. -/
structure Rejection where
  /-- The open block rejects them, though it is not too full. -/
  byOpen : Block.Verdict → ByteArray → Placing (Option Placement)
  /-- The block before them rejects them. -/
  byEarlier : ByteArray → Placing (Option Placement)
  /-- The block that was opened for them rejects them. -/
  byNew : Layout → Entry → ByteArray → Placing Placement

/-- Bytes that do not continue the open block look for another one. Other rejected bytes are dropped, and
with them a block that was opened for them. -/
def Rejection.drop : Rejection where
  byOpen verdict data :=
    return if verdict = .inconsistentSeq then none else some ⟨data.size, .dropped⟩
  byEarlier _ := return none
  byNew l entry data := do
    discard <| onStore (Hold.erase l entry.ref)
    return ⟨data.size, .dropped⟩

namespace Placing

variable (rejection : Rejection) (l : Layout) (idle : Micros) (piece : Piece)

def storeInNewBlockOr (data : ByteArray) : Placing Placement := do
  match ← onStore (Hold.unlessFull (Hold.insertBlock l .l4Payload piece.key
      (Bytes.ofU32 piece.initialSeq.word) false piece.now)) with
  | none => return ⟨data.size, .dropped⟩
  | some entry =>
    let header ← onStore (Hold.header l entry.slot)
    let (verdict, header) ← offer l entry.slot header piece data
    if verdict ≠ .ok then return ← rejection.byNew l entry data
    setHeader l entry.slot header
    if ← overtakes l piece.seq then setOwn (some entry.ref)
    return ⟨data.size, .newBlock⟩

def continueOpenOr (data : ByteArray) :
    Option (UInt32 × Block.Header) → Placing (Option Placement)
  | none => return none
  | some (slot, header) => do
    if header.hasData && header.endSeq != piece.seq then return none
    let (verdict, header) ← offer l slot header piece data
    match verdict with
    | .ok =>
      setHeader l slot header
      return some ⟨data.size, .appended⟩
    | .noSpace | .blockClosed =>
      setHeader l slot header
      setOwn none
      some <$> storeInNewBlockOr rejection l piece data
    | .inconsistentSeq | .noBlock | .pushError => rejection.byOpen verdict data

def meetPredecessorOr (data : ByteArray) : Placing (Option Placement) := do
  match ← onStore (predecessor l piece.flow piece.side piece.seq) with
  | none => return none
  | some ⟨entry, header⟩ =>
    let stop := header.endSeq
    if Seq.inRange piece.seq header.base stop then
      return some ⟨min data.size (Seq.distance piece.seq stop), .retransmission⟩
    if stop = piece.seq && !header.isComplete && !header.expired piece.now idle
        && header.hasRoom data.size l.capacity then
      let (verdict, header) ← offer l entry.slot header piece data
      if verdict = .ok then
        setHeader l entry.slot header
        let current ← own
        return some ⟨data.size, if current = some entry.ref then .appended else .backfilled⟩
      return ← rejection.byEarlier data
    return none

def settleOr (data : ByteArray) (current : Option (UInt32 × Block.Header)) : Placing Placement := do
  match ← continueOpenOr rejection l piece data current with
  | some placed => return placed
  | none =>
    match ← meetPredecessorOr rejection l idle piece data with
    | some placed => return placed
    | none => storeInNewBlockOr rejection l piece data

def placePieceOr (data : ByteArray) (offset : Nat) : Placing Placement := do
  let current ← reopen l idle piece.now
  let fitting := min (data.size - offset) (gate l).maxSegmentLen
  let len ← do
    match ← onStore (successorStart l piece.flow piece.side piece.seq) with
    | none => pure fitting
    | some next => pure (min fitting (Seq.distance piece.seq next))
  settleOr rejection l idle piece (Bytes.slice data offset len) current

def placeFromOr (piece : Piece) (data : ByteArray) (offset : Nat) (stored : Option Outcome)
    (duplicate : Bool) : Placing Outcome := do
  if _rest : offset < data.size then
    let placed ← placePieceOr rejection l idle piece data offset
    if placed.outcome = .dropped then return stored.getD .dropped
    let duplicate := duplicate || placed.outcome = .retransmission
    let stored :=
      if placed.outcome = .retransmission then stored else stored <|> some placed.outcome
    if _progress : 0 < placed.consumed then
      placeFromOr (piece.advance placed.consumed) data (offset + placed.consumed) stored duplicate
    else return summary stored duplicate
  else return summary stored duplicate
  termination_by data.size - offset

end Placing

namespace Placing

variable {l : Layout} {idle : Micros} {piece : Piece}

theorem storeInNewBlockOr_drop (data : ByteArray) :
    storeInNewBlockOr .drop l piece data = storeInNewBlock l piece data := rfl

theorem continueOpenOr_drop (data : ByteArray) (current : Option (UInt32 × Block.Header)) :
    continueOpenOr .drop l piece data current = continueOpen l piece data current := by
  cases current with
  | none => rfl
  | some current =>
    obtain ⟨slot, header⟩ := current
    rw [continueOpenOr, continueOpen]
    congr
    funext verdict
    obtain ⟨verdict, header⟩ := verdict
    cases verdict <;> rfl

theorem meetPredecessorOr_drop (data : ByteArray) :
    meetPredecessorOr .drop l idle piece data = meetPredecessor l idle piece data := rfl

theorem settleOr_drop (data : ByteArray) (current : Option (UInt32 × Block.Header)) :
    settleOr .drop l idle piece data current = settle l idle piece data current := by
  rw [settleOr, continueOpenOr_drop, meetPredecessorOr_drop, storeInNewBlockOr_drop]
  rfl

theorem placePieceOr_drop (data : ByteArray) (offset : Nat) :
    placePieceOr .drop l idle piece data offset = placePiece l idle piece data offset := by
  rw [placePieceOr]
  simp only [settleOr_drop]
  rfl

theorem placeFromOr_drop (piece : Piece) (data : ByteArray) (offset : Nat) (stored : Option Outcome)
    (duplicate : Bool) :
    placeFromOr .drop l idle piece data offset stored duplicate =
      placeFrom l idle piece data offset stored duplicate := by
  fun_induction placeFromOr .drop l idle piece data offset stored duplicate with
  | case1 piece offset stored duplicate rest ih =>
    rw [placeFrom, dif_pos rest, placePieceOr_drop]
    congr
    funext placed
    split
    · rfl
    · dsimp only
      split
      · next progress => exact ih placed progress
      · rfl
  | case2 piece offset stored duplicate done => rw [placeFrom, dif_neg done]

end Placing

variable {l : Layout} {idle : Micros} {b : Bench} {piece : Piece} {chunk : ByteArray} {held : Held}

namespace Placing

variable (rejection : Rejection)

theorem storeInNewBlockOr_eq (holds : Holds l held b.cat) (framable : Framable l chunk) :
    storeInNewBlockOr rejection l piece chunk (b.openBlock, held) =
      storeInNewBlock l piece chunk (b.openBlock, held) := by
  cases next : b.cat.nextSlot? l with
  | none =>
    have full := Hold.unlessFull_full (holds.insertBlock_full next .l4Payload piece.key
      (Bytes.ofU32 piece.initialSeq.word) false piece.now)
    exact Work.bind_congr (HoldWith.onStore_ok full) rfl rfl
  | some slot =>
    obtain ⟨_, _, _, inserted, read, offered, _⟩ := enter_run holds framable next rfl
    refine Work.bind_congr (HoldWith.onStore_ok (Hold.unlessFull_ok inserted)) rfl ?_
    refine Work.bind_congr (HoldWith.onStore_ok read) rfl ?_
    exact Work.bind_congr offered rfl rfl

theorem continueOpenOr_eq (holds : Holds l held b.cat) (framable : Framable l chunk)
    {current : Option Item}
    (present : ∀ item, current = some item → item ∈ b.cat.items ∧ item.header.isComplete = false) :
    continueOpenOr rejection l piece chunk (current.map fun item => (item.slot, item.header))
        (b.openBlock, held) =
      continueOpen l piece chunk (current.map fun item => (item.slot, item.header))
        (b.openBlock, held) := by
  cases current with
  | none => rfl
  | some item =>
    obtain ⟨member, writable⟩ := present item rfl
    rw [Option.map_some, continueOpenOr, continueOpen]
    by_cases apart : (item.header.hasData && item.header.endSeq != piece.seq) = true
    · dsimp only
      rw [if_pos apart, if_pos apart]
    · have follows (data : item.header.hasData = true) : item.header.endSeq = piece.seq := by
        simpa [data] using apart
      have judged := judge_eq framable writable follows
      dsimp only
      rw [if_neg apart, if_neg apart]
      by_cases room : item.header.hasRoom chunk.size l.capacity = true
      · rw [if_pos room] at judged
        obtain ⟨_, _, offered, _⟩ := offer_run holds framable member judged room b.openBlock
        exact Work.bind_congr offered rfl rfl
      · rw [if_neg room] at judged
        refine Work.bind_congr (offer_full judged b.openBlock held) rfl ?_
        obtain ⟨held₁, closed, holds₁⟩ := holds.complete_run member
        have headed : setHeader l item.slot item.header.close (b.openBlock, held) =
            .ok () (b.openBlock, held₁) := HoldWith.onStore_ok closed
        refine Work.bind_congr headed rfl ?_
        refine Work.bind_congr (HoldWith.setOwn_run _ _ _) rfl ?_
        have stored := @storeInNewBlockOr_eq l ⟨none, b.cat.complete item⟩ piece _ _ rejection holds₁
          framable
        simp only [Functor.map, EStateM.map]
        rw [stored]

theorem meetPredecessorOr_eq (holds : Holds l held b.cat) (framable : Framable l chunk) :
    meetPredecessorOr rejection l idle piece chunk (b.openBlock, held) =
      meetPredecessor l idle piece chunk (b.openBlock, held) := by
  have searched := holds.predecessor_run piece.flow piece.side piece.seq
  refine Work.bind_congr (HoldWith.onStore_ok searched) rfl ?_
  cases found : b.cat.predecessor? (FlowKey.pack piece.flow piece.side piece.seq) with
  | none => rfl
  | some item =>
    have member := (holds.ordered.sorted.predecessor?_spec found).1
    simp only [Option.map_some]
    by_cases covered : Seq.inRange piece.seq item.header.base item.header.endSeq = true
    · rw [if_pos covered, if_pos covered]
    · rw [if_neg covered, if_neg covered]
      split
      · next takes =>
        rw [Bool.and_eq_true, Bool.and_eq_true, Bool.and_eq_true, Bool.not_eq_true',
          decide_eq_true_eq] at takes
        obtain ⟨⟨⟨stop, writable⟩, _⟩, room⟩ := takes
        have judged := judge_eq framable writable fun _ => stop
        rw [if_pos room] at judged
        obtain ⟨_, _, offered, _⟩ := offer_run holds framable member judged room b.openBlock
        exact Work.bind_congr offered rfl rfl
      · rfl

theorem settleOr_eq (holds : Holds l held b.cat) (framable : Framable l chunk) {current : Option Item}
    (present : ∀ item, current = some item → item ∈ b.cat.items ∧ item.header.isComplete = false) :
    settleOr rejection l idle piece chunk (current.map fun item => (item.slot, item.header))
        (b.openBlock, held) =
      settle l idle piece chunk (current.map fun item => (item.slot, item.header))
        (b.openBlock, held) := by
  obtain ⟨held₁, continued, holds₁⟩ := @continueOpen_run l b piece _ _ holds framable _ present
  apply Work.bind_congr continued (continueOpenOr_eq rejection holds framable present)
  cases first : b.continueOpen? l piece chunk current with
  | some placed => rfl
  | none =>
    rw [first] at holds₁
    obtain ⟨held₂, met, holds₂⟩ := @meetPredecessor_run l idle b piece _ _ holds₁ framable
    apply Work.bind_congr met (meetPredecessorOr_eq rejection holds₁ framable)
    cases second : b.meetPredecessor? l idle piece chunk with
    | some placed => rfl
    | none =>
      rw [second] at holds₂
      exact storeInNewBlockOr_eq (b := b) rejection holds₂ framable

theorem placePieceOr_eq (holds : Holds l held b.cat) {data : ByteArray} {offset : Nat}
    (inside : offset < data.size) :
    placePieceOr rejection l idle piece data offset (b.openBlock, held) =
      placePiece l idle piece data offset (b.openBlock, held) := by
  obtain ⟨held₁, reopened, holds₁, _⟩ := @reopen_run l idle b _ holds piece.now
  apply Work.bind_congr reopened rfl
  have present : ∀ item, b.writable? idle piece.now = some item →
      item ∈ (b.reopen idle piece.now).cat.items ∧ item.header.isComplete = false := fun item found =>
    (Bench.located_reopen found).imp_left Bench.mem_of_located
  have searched : successorStart l piece.flow piece.side piece.seq held₁ =
      .ok ((b.reopen idle piece.now).cat.successor? piece.key) held₁ :=
    holds₁.successorStart_run piece.flow piece.side piece.seq
  apply Work.bind_congr (HoldWith.onStore_ok searched) rfl
  have framable := @part_framable l _ piece holds₁.ordered _ _ inside
  have settled := @settleOr_eq l idle _ piece _ _ rejection holds₁ framable _ present
  rw [Bench.part, Bench.pieceLength] at settled
  cases found : (b.reopen idle piece.now).cat.successor? piece.key with
  | none =>
    rw [found] at settled
    exact settled
  | some next =>
    rw [found] at settled
    exact settled

theorem placeFromOr_eq (holds : Holds l held b.cat) (data : ByteArray) (offset : Nat)
    (stored : Option Outcome) (duplicate : Bool) :
    placeFromOr rejection l idle piece data offset stored duplicate (b.openBlock, held) =
      placeFrom l idle piece data offset stored duplicate (b.openBlock, held) := by
  fun_induction Bench.placeAll l idle b piece data offset stored duplicate generalizing held with
  | case1 b piece offset stored duplicate rest placed b' taken dropped =>
    obtain ⟨held₁, ran, _⟩ := @placePiece_run l idle b piece _ holds _ _ rest
    rw [taken] at ran
    rw [placeFromOr, placeFrom, dif_pos rest, dif_pos rest]
    apply Work.bind_congr ran (placePieceOr_eq rejection holds rest)
    rw [if_pos dropped, if_pos dropped]
  | case2 b piece offset stored duplicate rest placed b' taken kept duplicate' stored' progress =>
    rename_i ih
    obtain ⟨held₁, ran, holds₁⟩ := @placePiece_run l idle b piece _ holds _ _ rest
    rw [taken] at ran holds₁
    rw [placeFromOr, placeFrom, dif_pos rest, dif_pos rest]
    apply Work.bind_congr ran (placePieceOr_eq rejection holds rest)
    simp only [if_neg kept, dif_pos progress]
    exact ih holds₁
  | case3 b piece offset stored duplicate rest placed b' taken kept duplicate' stored' =>
    rename_i stuck
    obtain ⟨held₁, ran, _⟩ := @placePiece_run l idle b piece _ holds _ _ rest
    rw [taken] at ran
    rw [placeFromOr, placeFrom, dif_pos rest, dif_pos rest]
    apply Work.bind_congr ran (placePieceOr_eq rejection holds rest)
    simp only [if_neg kept, dif_neg stuck]
  | case4 b piece offset stored duplicate done =>
    rw [placeFromOr, placeFrom, dif_neg done, dif_neg done]

end Placing

open Session in
def putHeldOr (rejection : Rejection) (segment : Segment) (now : Micros) : Session Outcome := do
  match ← announce segment now with
  | none => return .dropped
  | some writer =>
    let writer := { writer with lastWrite := now }
    setWriter segment.flow writer
    if segment.payload.size = 0 then return .empty
    let cursor := writer.sides.get segment.side
    let initialSeq := cursor.initialSeq.getD segment.sequence
    let sides := writer.sides.set { cursor with initialSeq := some initialSeq } segment.side
    let writer := { writer with sides }
    let attachment ← own
    let piece : Piece := ⟨segment.flow, segment.side, segment.sequence, initialSeq, now⟩
    placing segment.flow segment.side writer <|
      Placing.placeFromOr rejection attachment.layout attachment.config.blockIdleTimeout piece
        segment.payload 0 none false

theorem putHeldOr_drop (segment : Segment) (now : Micros) :
    putHeldOr .drop segment now = putHeld segment now := by
  have same : Placing.placeFromOr .drop = Placing.placeFrom := by
    funext l idle piece data offset stored duplicate
    exact Placing.placeFromOr_drop piece data offset stored duplicate
  unfold putHeldOr
  rw [same]
  rfl

theorem putHeldOr_eq (rejection : Rejection) {a : Attachment} {cat : Catalog}
    (holds : Holds a.layout held cat) (segment : Segment) (now : Micros) :
    putHeldOr rejection segment now (a, held) = putHeld segment now (a, held) := by
  obtain ⟨held₁, announced, holds₁⟩ := Session.announce_run holds segment now
  apply Work.bind_congr announced rfl
  cases found : Desk.announce? a.layout a.config segment now ⟨a.writers, cat⟩ with
  | none => rfl
  | some pair =>
    obtain ⟨writer, cat'⟩ := pair
    rw [found] at holds₁
    apply Work.bind_congr (Session.setWriter_run _ _) rfl
    by_cases empty : segment.payload.size = 0
    · rw [if_pos empty, if_pos empty]
    · rw [if_neg empty, if_neg empty]
      apply Work.bind_congr (HoldWith.own_run _ _) rfl
      simp only [Session.placing, Work.onPart, PerSide.get_set_self]
      rw [Placing.placeFromOr_eq (b := ⟨(writer.sides.get segment.side).openBlock, cat'⟩) rejection
        holds₁]

end Writing

def Attachment.putOr (rejection : Writing.Rejection) (segment : Segment) (now : Micros) :
    Attached Writing.Outcome := do
  let (attachment, _) ← get
  Store.HoldWith.run attachment.layout (Writing.putHeldOr rejection segment now)

theorem Attachment.putOr_drop (segment : Segment) (now : Micros) :
    Attachment.putOr .drop segment now = Attachment.put segment now := by
  unfold putOr put
  simp only [Writing.putHeldOr_drop]

open Store Writing in
theorem Attachment.putOr_eq (rejection : Writing.Rejection) {a : Attachment} {r : Region} {cat : Catalog}
    (carries : Carries a.layout r cat) (segment : Segment) (now : Micros) :
    Attachment.putOr rejection segment now (a, r) = Attachment.put segment now (a, r) := by
  obtain ⟨held', ran, _⟩ := putHeld_run carries segment now
  have other := (putHeldOr_eq rejection carries segment now).trans ran
  unfold putOr put
  rw [Work.bind_ok (Work.get_run _), Work.bind_ok (Work.get_run _)]
  exact (carries.runWith_ok other).trans (carries.runWith_ok ran).symm

end Reassembly
