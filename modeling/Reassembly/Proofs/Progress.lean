import Reassembly.Proofs.Placing
import Reassembly.Writing.Put

/-!
Every piece of a segment takes some bytes, whatever the region holds: records, headers and counters may be
any bytes at all. What is cut off a segment is a part of it with at least one byte, and what is consumed is
that part, or as much of it as the block before it reaches. So a write takes no more turns than its segment
has bytes, and the limits that the loop is written with are never met.
-/

namespace Reassembly

def Work.Yields {σ α : Type} (work : Work σ α) (post : α → Prop) : Prop :=
  ∀ s a t, work s = .ok a t → post a

theorem Work.onPart_map {σ τ ρ α β : Type} (f : α → β) (split : σ → τ × ρ) (join : τ → ρ → σ)
    (work : Work τ α) : onPart split join (f <$> work) = f <$> onPart split join work := by
  funext s
  cases made : work (split s).1 with
  | ok a part => rw [onPart_ok (map_ok made), map_ok (onPart_ok made)]
  | error fault part => rw [onPart_error (map_error made), map_error (onPart_error made)]

theorem Store.HoldWith.run_map {σ α β : Type} (l : Store.Layout) (f : α → β) (work : HoldWith σ α) :
    HoldWith.run l (f <$> work) = f <$> HoldWith.run l work := by
  rw [HoldWith.run, HoldWith.run, map_bind]
  exact bind_congr fun counters => Work.onPart_map ..

def Work.result? {σ α : Type} (work : Work σ α) (s : σ) : Option α :=
  match work s with
  | .ok a _ => some a
  | .error .. => none

theorem Work.exists_of_result? {σ α : Type} {work : Work σ α} {s : σ} {a : α} (told : work.result? s = some a) :
    ∃ t, work s = .ok a t := by
  rw [result?] at told
  split at told
  · next t ran => exact ⟨t, (Option.some.inj told) ▸ ran⟩
  · cases told

namespace Work.Yields

variable {σ τ ρ α β : Type} {work : Work σ α} {mid : α → Prop} {post : β → Prop}

theorem pure {b : β} (holds : post b) : Yields (Pure.pure b : Work σ β) post := by
  intro s a t ran
  obtain ⟨rfl, rfl⟩ := EStateM.Result.ok.inj ran
  exact holds

theorem bind {next : α → Work σ β} (first : Yields work mid)
    (rest : ∀ a, mid a → Yields (next a) post) : Yields (work >>= next) post := by
  intro s b t ran
  obtain ⟨a, u, made, ended⟩ := of_bind_ok ran
  exact rest a (first s a u made) u b t ended

theorem last {next : α → Work σ β} (rest : ∀ a, Yields (next a) post) : Yields (work >>= next) post := by
  have first : Yields work fun _ => True := fun _ _ _ _ => trivial
  exact bind first fun a _ => rest a

theorem map {f : α → β} (yields : Yields work fun a => post (f a)) : Yields (f <$> work) post := by
  intro s b t ran
  cases made : work s with
  | ok a u =>
    rw [map_ok made] at ran
    obtain ⟨rfl, rfl⟩ := EStateM.Result.ok.inj ran
    exact yields s a u made
  | error fault u =>
    rw [map_error made] at ran
    cases ran

theorem onPart {split : σ → τ × ρ} {join : τ → ρ → σ} {work : Work τ β} (yields : Yields work post) :
    Yields (Work.onPart split join work) post := by
  intro s b t ran
  cases made : work (split s).1 with
  | ok a part =>
    rw [onPart_ok made] at ran
    obtain ⟨rfl, rfl⟩ := EStateM.Result.ok.inj ran
    exact yields _ _ _ made
  | error fault part =>
    rw [onPart_error made] at ran
    cases ran

theorem imp {post' : β → Prop} {work : Work σ β} (yields : Yields work post)
    (weaker : ∀ b, post b → post' b) : Yields work post' :=
  fun s b t ran => weaker b (yields s b t ran)

end Work.Yields

namespace Bytes

theorem slice_slice (bytes : ByteArray) (offset len inner width : Nat) (inside : inner + width ≤ len) :
    slice (slice bytes offset len) inner width = slice bytes (offset + inner) width := by
  refine ext_byteAt (by simp only [size_slice]; omega) fun place => ?_
  rw [byteAt_slice, byteAt_slice, byteAt_slice]
  split
  · rw [if_pos (by omega), Nat.add_assoc]
  · rfl

end Bytes

namespace Seq

theorem distance_pos_of_inRange {s start stop : Seq} (inside : inRange s start stop = true) :
    0 < distance s stop := by
  refine distance_pos fun same => ?_
  rw [inRange, same, decide_eq_true_eq] at inside
  exact Nat.lt_irrefl _ inside

end Seq

namespace Store

open Work (Yields)

theorem Hold.yields_firstAt {α : Type} {probe : Nat → Hold (Option α)} {good : α → Prop}
    (probes : ∀ pos, Yields (probe pos) fun found => ∀ a, found = some a → good a) (places : List Nat) :
    Yields (firstAt probe places) fun found => ∀ a, found = some a → good a := by
  induction places with
  | nil => exact .pure nofun
  | cons pos rest ih =>
    refine .bind (probes pos) fun found given => ?_
    cases found with
    | none => exact ih
    | some a => exact .pure given

end Store

namespace Writing

open Store HoldWith
open Work (Yields)

theorem yields_successorStart (l : Layout) (flow : FlowId) (side : Side) (seq : Seq) :
    Yields (successorStart l flow side seq) fun found => ∀ next, found = some next → next ≠ seq := by
  refine .last fun first => .last fun stop => .last fun ahead => ?_
  refine Hold.yields_firstAt (fun pos => .last fun entry => ?_) _
  split
  · exact .pure nofun
  · next apart =>
    refine .last fun header => .pure fun next given => ?_
    split at given
    · exact Option.some.inj given ▸ apart
    · cases given

namespace Placing

variable {l : Layout} {idle : Micros} {piece : Piece} {part : ByteArray}

theorem yields_storeInNewBlock :
    Yields (storeInNewBlock l piece part) fun placed => placed.consumed = part.size := by
  refine .last fun made => ?_
  cases made with
  | none => exact .pure rfl
  | some entry =>
    refine .last fun header => .last fun offered => ?_
    dsimp only
    split
    · exact .last fun _ => .pure rfl
    · refine .last fun _ => .last fun opens => ?_
      split
      · exact .last fun _ => .pure rfl
      · exact .pure rfl

theorem yields_continueOpen (current : Option (UInt32 × Block.Header)) :
    Yields (continueOpen l piece part current) fun decided =>
      ∀ placed, decided = some placed → placed.consumed = part.size := by
  cases current with
  | none => exact .pure nofun
  | some block =>
    obtain ⟨slot, header⟩ := block
    rw [continueOpen]
    split
    · exact .pure nofun
    · refine .last fun offered => ?_
      obtain ⟨verdict, header⟩ := offered
      cases verdict with
      | ok => exact .last fun _ => .pure fun _ given => Option.some.inj given ▸ rfl
      | noSpace | blockClosed =>
        refine .last fun _ => .last fun _ => .map (yields_storeInNewBlock.imp fun placed all _ given => ?_)
        exact Option.some.inj given ▸ all
      | inconsistentSeq => exact .pure nofun
      | noBlock | pushError => exact .pure fun _ given => Option.some.inj given ▸ rfl

theorem yields_meetPredecessor (some : 0 < part.size) :
    Yields (meetPredecessor l idle piece part) fun decided =>
      ∀ placed, decided = .some placed → 0 < placed.consumed ∧ placed.consumed ≤ part.size := by
  have whole : 0 < part.size ∧ part.size ≤ part.size := ⟨some, Nat.le_refl _⟩
  refine .last fun found => ?_
  cases found with
  | none => exact .pure nofun
  | some located =>
    obtain ⟨entry, header⟩ := located
    dsimp only
    split
    · next inside =>
      have ahead := Seq.distance_pos_of_inRange inside
      refine .pure fun placed given => ?_
      rw [← Option.some.inj given]
      exact ⟨Nat.lt_min.mpr ⟨some, ahead⟩, Nat.min_le_left ..⟩
    · split
      · refine .last fun offered => ?_
        split
        · exact .last fun _ => .last fun _ => .pure fun _ given => Option.some.inj given ▸ whole
        · exact .pure nofun
      · exact .pure nofun

theorem yields_settle (some : 0 < part.size) (current : Option (UInt32 × Block.Header)) :
    Yields (settle l idle piece part current) fun placed =>
      0 < placed.consumed ∧ placed.consumed ≤ part.size := by
  have whole (placed : Placement) (all : placed.consumed = part.size) :
      0 < placed.consumed ∧ placed.consumed ≤ part.size := ⟨all ▸ some, Nat.le_of_eq all⟩
  refine .bind (yields_continueOpen current) fun decided all => ?_
  cases decided with
  | some placed => exact .pure (whole placed (all placed rfl))
  | none =>
    refine .bind (yields_meetPredecessor some) fun decided range => ?_
    cases decided with
    | some placed => exact .pure (range placed rfl)
    | none => exact yields_storeInNewBlock.imp whole

/-- How many of `rest` bytes make the next part: as many as fit a frame, and none of a block ahead. -/
def partLength (l : Layout) (piece : Piece) (rest : Nat) : Option Seq → Nat
  | none => min rest (gate l).maxSegmentLen
  | some next => min (min rest (gate l).maxSegmentLen) (Seq.distance piece.seq next)

theorem partLength_le (l : Layout) (piece : Piece) (rest : Nat) (next : Option Seq) :
    partLength l piece rest next ≤ rest := by
  cases next with
  | none => exact Nat.min_le_left ..
  | some next => exact (Nat.min_le_left ..).trans (Nat.min_le_left ..)

theorem partLength_pos {rest : Nat} {next : Option Seq} (left : 0 < rest)
    (apart : ∀ start, next = some start → start ≠ piece.seq) : 0 < partLength l piece rest next := by
  have frame : 0 < (gate l).maxSegmentLen := by
    have area := l.nine_le_capacity
    have limit : (gate l).maxSegmentLen = l.capacity - 8 := rfl
    omega
  cases next with
  | none => exact Nat.lt_min.mpr ⟨left, frame⟩
  | some start =>
    exact Nat.lt_min.mpr ⟨Nat.lt_min.mpr ⟨left, frame⟩, Seq.distance_pos (apart start rfl).symm⟩

theorem placePiece_eq (data : ByteArray) (offset : Nat) :
    placePiece l idle piece data offset = (do
      let current ← reopen l idle piece.now
      let next ← onStore (successorStart l piece.flow piece.side piece.seq)
      settle l idle piece (Bytes.slice data offset (partLength l piece (data.size - offset) next)) current) := by
  rw [placePiece]
  refine bind_congr fun current => ?_
  dsimp only
  refine bind_congr fun next => ?_
  cases next <;> rfl

theorem yields_placePiece {data : ByteArray} {offset : Nat} (inside : offset < data.size) :
    Yields (placePiece l idle piece data offset) fun placed =>
      0 < placed.consumed ∧ offset + placed.consumed ≤ data.size := by
  rw [placePiece_eq]
  refine .last fun current => 
    .bind (.onPart (yields_successorStart l piece.flow piece.side piece.seq)) fun next apart => ?_
  have some : 0 < partLength l piece (data.size - offset) next :=
    partLength_pos (Nat.sub_pos_of_lt inside) apart
  have fits := partLength_le l piece (data.size - offset) next
  have size : (Bytes.slice data offset (partLength l piece (data.size - offset) next)).size =
      partLength l piece (data.size - offset) next := by
    rw [Bytes.size_slice, Nat.min_eq_left fits]
  refine (yields_settle (size.symm ▸ some) current).imp fun placed range => ⟨range.1, ?_⟩
  have upper := range.2
  rw [size] at upper
  omega

section Loop

variable (l : Layout) (idle : Micros)

def restFrom (data : ByteArray) (offset : Nat) : ByteArray := Bytes.slice data offset (data.size - offset)

/-- Places the first of the bytes that are left. Nothing comes of it if the part to be cut off is longer
than they are. -/
def placeFirst (piece : Piece) (rest : ByteArray) : Placing (Option Placement) := do
  let current ← reopen l idle piece.now
  let next ← onStore (successorStart l piece.flow piece.side piece.seq)
  let len := partLength l piece rest.size next
  if rest.size < len then return none
  some <$> settle l idle piece (Bytes.slice rest 0 len) current

/-- The loop over the pieces, that goes on for as long as bytes are left, whether or not any were consumed.
Nothing comes of it if the turns do not suffice, or if more than is left is to be cut off. -/
def placeWithin : (turns : Nat) → Piece → ByteArray → Option Outcome → Bool → Placing (Option Outcome)
  | 0, _, rest, stored, duplicate =>
    return if rest.size = 0 then some (summary stored duplicate) else none
  | turns + 1, piece, rest, stored, duplicate =>
    if rest.size = 0 then return some (summary stored duplicate)
    else do
      match ← placeFirst l idle piece rest with
      | none => return none
      | some placed =>
        if placed.outcome = .dropped then return some (stored.getD .dropped)
        let duplicate := duplicate || placed.outcome = .retransmission
        let stored :=
          if placed.outcome = .retransmission then stored else stored <|> some placed.outcome
        if rest.size < placed.consumed then return none
        placeWithin turns (piece.advance placed.consumed) (restFrom rest placed.consumed) stored duplicate

end Loop

theorem size_restFrom (data : ByteArray) (offset : Nat) : (restFrom data offset).size = data.size - offset := by
  rw [restFrom, Bytes.size_slice, Nat.min_self]

theorem restFrom_restFrom {data : ByteArray} {offset count : Nat} (inside : offset + count ≤ data.size) :
    restFrom (restFrom data offset) count = restFrom data (offset + count) := by
  rw [restFrom, size_restFrom, restFrom, restFrom, Bytes.slice_slice _ _ _ _ _ (by omega), Nat.sub_sub]

theorem placeFirst_restFrom (data : ByteArray) (offset : Nat) :
    placeFirst l idle piece (restFrom data offset) = some <$> placePiece l idle piece data offset := by
  rw [placePiece_eq, map_bind, placeFirst]
  refine bind_congr fun current => ?_
  rw [map_bind]
  refine bind_congr fun next => ?_
  have fits := partLength_le l piece (data.size - offset) next
  rw [size_restFrom]
  dsimp only
  rw [if_neg (by omega), restFrom, Bytes.slice_slice _ _ _ _ _ (by omega), Nat.add_zero]

theorem placeWithin_over (turns : Nat) {data : ByteArray} {offset : Nat} (beyond : ¬offset < data.size)
    (stored : Option Outcome) (duplicate : Bool) :
    placeWithin l idle turns piece (restFrom data offset) stored duplicate =
      some <$> placeFrom l idle piece data offset stored duplicate := by
  have none_left : (restFrom data offset).size = 0 := by
    rw [size_restFrom]
    omega
  rw [placeFrom, dif_neg beyond, map_pure]
  cases turns with
  | zero => rw [placeWithin, if_pos none_left]
  | succ turns => rw [placeWithin, if_pos none_left]

theorem placeWithin_restFrom {turns : Nat} {data : ByteArray} {offset : Nat}
    (enough : data.size ≤ offset + turns) (stored : Option Outcome) (duplicate : Bool) :
    placeWithin l idle turns piece (restFrom data offset) stored duplicate =
      some <$> placeFrom l idle piece data offset stored duplicate := by
  induction turns generalizing piece offset stored duplicate with
  | zero => exact placeWithin_over 0 (by omega) stored duplicate
  | succ turns ih =>
    by_cases left : offset < data.size
    · have some_left : (restFrom data offset).size ≠ 0 := by
        rw [size_restFrom]
        omega
      funext s
      rw [placeWithin, if_neg some_left, placeFirst_restFrom, placeFrom, dif_pos left, map_bind]
      cases made : placePiece l idle piece data offset s with
      | error fault t => rw [Work.bind_error (Work.map_error made), Work.bind_error made]
      | ok placed t =>
        obtain ⟨progress, within⟩ := yields_placePiece left s placed t made
        rw [Work.bind_ok (Work.map_ok made), Work.bind_ok made]
        dsimp only
        by_cases dropped : placed.outcome = .dropped
        · rw [if_pos dropped, if_pos dropped]
          rfl
        · -- the guard of the one loop and the limits of the other hold for the same reason
          rw [if_neg dropped, if_neg dropped, dif_pos progress, size_restFrom, if_neg (by omega),
            restFrom_restFrom within, ih (by omega)]
    · exact placeWithin_over _ left stored duplicate

end Placing

namespace Session

theorem placing_map {α β : Type} (f : α → β) (flow : FlowId) (side : Side) (writer : WriterFlow)
    (work : Placing α) : placing flow side writer (f <$> work) = f <$> placing flow side writer work := by
  unfold placing
  exact Work.onPart_map ..

end Session

open Session in
def putHeldWithin (turns : Nat) (segment : Segment) (now : Micros) : Session (Option Outcome) := do
  match ← announce segment now with
  | none => return some .dropped
  | some writer =>
    let writer := { writer with lastWrite := now }
    setWriter segment.flow writer
    if segment.payload.size = 0 then return some .empty
    let cursor := writer.sides.get segment.side
    let initialSeq := cursor.initialSeq.getD segment.sequence
    let sides := writer.sides.set { cursor with initialSeq := some initialSeq } segment.side
    let writer := { writer with sides }
    let attachment ← own
    let piece : Piece := ⟨segment.flow, segment.side, segment.sequence, initialSeq, now⟩
    placing segment.flow segment.side writer <|
      Placing.placeWithin attachment.layout attachment.config.blockIdleTimeout turns piece segment.payload
        none false

theorem putHeldWithin_eq {turns : Nat} {segment : Segment} (enough : segment.payload.size ≤ turns)
    (now : Micros) : putHeldWithin turns segment now = some <$> putHeld segment now := by
  have loop (l : Layout) (idle : Micros) (piece : Piece) :
      Placing.placeWithin l idle turns piece segment.payload none false =
        some <$> Placing.placeFrom l idle piece segment.payload 0 none false := by
    have whole : Placing.restFrom segment.payload 0 = segment.payload := by
      rw [Placing.restFrom, Nat.sub_zero, Bytes.slice, Nat.zero_add, ByteArray.extract_zero_size]
    have turned : segment.payload.size ≤ 0 + turns := by omega
    rw [← Placing.placeWithin_restFrom turned, whole]
  rw [putHeldWithin, putHeld, map_bind]
  refine bind_congr fun announced => ?_
  cases announced with
  | none => rfl
  | some writer =>
    dsimp only
    rw [map_bind]
    refine bind_congr fun _ => ?_
    split
    · rfl
    · rw [map_bind]
      refine bind_congr fun attachment => ?_
      rw [loop, Session.placing_map]

end Writing

namespace Attachment

/-- `put`, with the loop that is bounded by nothing but its turns. -/
def putWithin (turns : Nat) (segment : Segment) (now : Micros) : Attached (Option Writing.Outcome) := do
  let (attachment, _) ← get
  Store.HoldWith.run attachment.layout (Writing.putHeldWithin turns segment now)

/-- Each piece that was placed, on whatever region, consumed a byte or more and none that is not there; so a
write is the same as one that is bounded by nothing but as many turns as its segment has bytes. -/
theorem put_advances :
    (∀ (l : Store.Layout) (idle : Micros) (piece : Writing.Piece) (data : ByteArray) (offset : Nat)
      (openBlock after : Option Ref) (held held' : Store.Held) (placed : Writing.Placement),
      offset < data.size →
      Writing.Placing.placePiece l idle piece data offset (openBlock, held) = .ok placed (after, held') →
      1 ≤ placed.consumed ∧ placed.consumed ≤ data.size - offset) ∧
    ∀ (segment : Segment) (now : Micros) (turns : Nat), segment.payload.size ≤ turns →
      ∀ (a : Attachment) (r : Region),
        putWithin turns segment now (a, r) = (some <$> put segment now) (a, r) := by
  constructor
  · intro l idle piece data offset openBlock after held held' placed inside ran
    obtain ⟨progress, within⟩ := Writing.Placing.yields_placePiece inside _ _ _ ran
    exact ⟨progress, by omega⟩
  · intro segment now turns enough a r
    have same : putWithin turns segment now = some <$> put segment now := by
      rw [putWithin, put, map_bind]
      refine bind_congr fun ⟨attachment, _⟩ => ?_
      rw [Writing.putHeldWithin_eq enough]
      exact Store.HoldWith.run_map ..
    rw [same]

def narrow : Store.Layout := ⟨9, 2, by decide, by decide, by decide⟩

/-- A region with a record of a block whose header counts nearly 2^64 bytes as used. -/
def garbled (complete : Bool) (used : UInt64) : Region :=
  let header : Block.Header := ⟨.l4Payload, 77, complete, true, ⟨4294967295⟩, 5, ⟨0⟩, used⟩
  let record : Store.Entry := ⟨⟨.pack ⟨7⟩ .source ⟨4294967295⟩, 3⟩, 1⟩
  ⟨⟨narrow.required, .memory 0⟩,
    ((SparseBytes.zeros narrow.required).write (Store.Directory.offset 0) record.toBytes).write
      (narrow.slotOffset 1) header.toBytes⟩

/-- Across the wrap, of three bytes the block before them covers one: it alone is consumed, though the block is
garbled. And where the used bytes of the open block come round with the next frame, that is appended. Both times
the counters claim more slots than there are. -/
theorem put_advances_garbled :
    let counters : Store.Counters := ⟨1, 5, 4294967295, 9⟩
    let covered := Writing.Placing.placePiece narrow 100 ⟨⟨7⟩, .source, ⟨0⟩, ⟨0⟩, 50⟩ ⟨#[1, 2, 3]⟩ 0
      (none, ⟨garbled true 18446744073709551615, counters⟩)
    let rounded := Writing.Placing.placePiece narrow 100 ⟨⟨7⟩, .source, ⟨1⟩, ⟨0⟩, 50⟩ ⟨#[1, 2, 3]⟩ 0
      (some ⟨.pack ⟨7⟩ .source ⟨4294967295⟩, 3⟩, ⟨garbled false 18446744073709551612, counters⟩)
    (∃ placed t, covered = .ok placed t ∧ placed.outcome = .retransmission ∧
      1 ≤ placed.consumed ∧ placed.consumed ≤ 3 - 0) ∧
    (∃ placed t, rounded = .ok placed t ∧ placed.outcome = .appended ∧
      1 ≤ placed.consumed ∧ placed.consumed ≤ 3 - 0) ∧
    let unsound := garbled false 18446744073709551612
    putWithin 3 ⟨⟨7⟩, .source, ⟨0⟩, ⟨#[1, 2, 3]⟩⟩ 50 (fresh unsound.handle narrow {}, unsound) =
      (some <$> put ⟨⟨7⟩, .source, ⟨0⟩, ⟨#[1, 2, 3]⟩⟩ 50) (fresh unsound.handle narrow {}, unsound) := by
  intro counters covered rounded
  have first : Work.result? (Writing.Placing.placePiece narrow 100 ⟨⟨7⟩, .source, ⟨0⟩, ⟨0⟩, 50⟩ ⟨#[1, 2, 3]⟩ 0)
      (none, ⟨garbled true 18446744073709551615, counters⟩) = some ⟨1, .retransmission⟩ := by decide +kernel
  have second : Work.result? (Writing.Placing.placePiece narrow 100 ⟨⟨7⟩, .source, ⟨1⟩, ⟨0⟩, 50⟩ ⟨#[1, 2, 3]⟩ 0)
      (some ⟨.pack ⟨7⟩ .source ⟨4294967295⟩, 3⟩, ⟨garbled false 18446744073709551612, counters⟩) =
        some ⟨1, .appended⟩ := by decide +kernel
  obtain ⟨t, first⟩ := Work.exists_of_result? first
  obtain ⟨u, second⟩ := Work.exists_of_result? second
  refine ⟨⟨_, t, first, rfl, ?_⟩, ⟨_, u, second, rfl, ?_⟩, ?_⟩
  · exact put_advances.1 narrow 100 _ _ 0 _ t.1 _ t.2 _ (by decide) first
  · exact put_advances.1 narrow 100 _ _ 0 _ u.1 _ u.2 _ (by decide) second
  · exact put_advances.2 _ 50 3 (by decide) _ _

end Attachment

end Reassembly
