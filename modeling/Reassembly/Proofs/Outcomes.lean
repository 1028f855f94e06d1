import Reassembly.Proofs.Numbering

/-!
What the outcome of a put says. Unless it is empty or dropped, blocks of the side hold stream bytes
afterwards; if it says that nothing was stored, the blocks with stream bytes are those from before.
Whatever it says, a put that came past the announcement notes its time.
-/

namespace Reassembly.Store

theorem Grows.payload_known {lane : Nat} {before after : List Item}
    (grows : Grows lane (fun _ => False) before after) {item : Item} (sound : item.Sound)
    {l : Layout} (fits : item.header.used ≤ l.capacity) (member : item ∈ after)
    (stream : item.isPayload = true) :
    ∃ old ∈ before, old.entry = item.entry ∧ old.isPayload = true := by
  rcases grows.known item member with ⟨old, origin, ext⟩ | ⟨_, _, none_fresh⟩
  · exact ⟨old, origin, ext.entry.symm, ext.kind.symm.trans stream⟩
  · rcases sound with marker | ⟨chunks, streams⟩
    · rw [marker.isPayload] at stream
      cases stream
    · have frames := streams.frames_eq fits
      obtain ⟨chunk, rest, rfl⟩ := List.exists_cons_of_ne_nil streams.some
      rw [Block.lay] at frames
      exact (none_fresh _ (frames ▸ List.mem_cons_self)).elim

theorem Grows.payload_kept {lane : Nat} {fresh : Block.Frame → Prop} {before after : List Item}
    (grows : Grows lane fresh before after) {old : Item} (member : old ∈ before)
    (stream : old.isPayload = true) :
    ∃ item ∈ after, item.entry = old.entry ∧ item.isPayload = true := by
  obtain ⟨item, there, ext⟩ := grows.kept old member
  exact ⟨item, there, ext.entry, ext.kind.trans stream⟩

end Reassembly.Store

namespace Reassembly.Writing

open Store

variable {l : Layout} {idle : Micros}

namespace Bench

variable {b b' : Bench} {piece : Piece} {chunk : ByteArray}

theorem Placed.unstored {placement : Placement} (placed : Placed l idle b piece chunk placement b')
    (fit : b.Fit l piece.lane) (outcome : placement.outcome.stored = false) :
    Grows piece.lane (fun _ => False) b.cat.items b'.cat.items := by
  have new : ∀ b : Bench, (b.storeNew l piece chunk).1.outcome.stored = false →
      (b.storeNew l piece chunk).2 = b := by
    intro b outcome
    rw [storeNew] at outcome ⊢
    split at outcome
    · rfl
    · cases outcome
  cases placed with
  | covered _ _ => exact .refl _ _ _
  | continued _ _ _ => cases outcome
  | resumed _ _ _ _ =>
    dsimp only at outcome
    split at outcome
    · cases outcome
    · cases outcome
  | replaced current _ =>
    rw [new _ outcome]
    exact .complete fit.ordered (mem_of_writable? current) (fit.lane_eq current)
  | apart _ =>
    rw [new _ outcome]
    exact .refl _ _ _

theorem Placed.outcome_ne_empty {placement : Placement}
    (placed : Placed l idle b piece chunk placement b') : placement.outcome ≠ .empty := by
  have new : ∀ b : Bench, (b.storeNew l piece chunk).1.outcome ≠ .empty := by
    intro b
    rw [storeNew]
    split <;> exact fun same => by cases same
  cases placed with
  | covered _ _ | continued _ _ _ => exact fun same => by cases same
  | resumed _ _ _ _ =>
    dsimp only
    split <;> exact fun same => by cases same
  | replaced _ _ => exact new _
  | apart _ => exact new _

theorem stored_of_ne {outcome : Outcome} (kept : outcome ≠ .dropped) (new : outcome ≠ .retransmission)
    (some : outcome ≠ .empty) : outcome.stored = true := by
  cases outcome with
  | retransmission => exact absurd rfl new
  | empty => exact absurd rfl some
  | dropped => exact absurd rfl kept
  | _ => rfl

theorem placeAll_of_stored (b : Bench) (piece : Piece) (data : ByteArray) (offset : Nat)
    (outcome : Outcome) (duplicate : Bool) :
    (b.placeAll l idle piece data offset (some outcome) duplicate).1 = outcome := by
  generalize known : some outcome = stored
  fun_induction Bench.placeAll l idle b piece data offset stored duplicate with
  | case1 b piece offset stored duplicate rest placed b' taken dropped => rw [← known]; rfl
  | case2 b piece offset stored duplicate rest placed b' taken kept duplicate' stored' progress =>
    rename_i ih
    refine ih ?_
    simp only [stored', ← known]
    split
    · rfl
    · rfl
  | case3 b piece offset stored duplicate rest placed b' taken kept duplicate' stored' =>
    simp only [stored', ← known]
    split
    · rfl
    · rfl
  | case4 b piece offset stored duplicate done => rw [← known]; rfl

theorem Placed.decides {placement : Placement} (placed : Placed l idle b piece chunk placement b')
    {stored : Option Outcome} (before : ∀ outcome, stored = some outcome → outcome.stored = true)
    (kept : placement.outcome ≠ .dropped) (new : placement.outcome ≠ .retransmission) :
    ∃ first, (stored <|> some placement.outcome) = some first ∧ first.stored = true := by
  cases stored with
  | none => exact ⟨_, rfl, stored_of_ne kept new placed.outcome_ne_empty⟩
  | some first => exact ⟨first, rfl, before first rfl⟩

theorem Fit.placeAll_unstored {base : Seq} {data : ByteArray} {offset : Nat}
    (fit : b.Fit l piece.lane) (here : piece.seq = base.advance offset) {stored : Option Outcome}
    (before : ∀ outcome, stored = some outcome → outcome.stored = true) (duplicate : Bool)
    (outcome : (b.placeAll l idle piece data offset stored duplicate).1.stored = false) :
    Grows piece.lane (fun _ => False) b.cat.items
      (b.placeAll l idle piece data offset stored duplicate).2.cat.items := by
  fun_induction Bench.placeAll l idle b piece data offset stored duplicate with
  | case1 b piece offset stored duplicate rest placed b' taken dropped =>
    have step := (@Writing.Bench.place_placed _ idle _ piece) fit data offset
    rw [taken] at step
    refine (fit.reopen_grows piece.now _).trans (step.unstored (fit.reopen piece.now) ?_)
    rw [dropped]
    rfl
  | case2 b piece offset stored duplicate rest placed b' taken kept duplicate' stored' progress =>
    rename_i ih
    have step := (@Writing.Bench.place_placed _ idle _ piece) fit data offset
    have spec := (@Writing.Bench.Fit.place_spec _ idle) fit rest here
    rw [taken] at step spec
    dsimp only at spec step
    by_cases again : placed.outcome = .retransmission
    · have same : stored' = stored := if_pos again
      have unstored : placed.outcome.stored = false := by
        rw [again]
        rfl
      exact ((fit.reopen_grows piece.now _).trans (step.unstored (fit.reopen piece.now) unstored)).trans
        (ih spec.1 (Piece.seq_advance here _) (same ▸ before) outcome)
    · -- it is stored, or one before it was: then the outcome says so
      obtain ⟨first, decided, good⟩ := step.decides before kept again
      have known : stored' = some first := (if_neg again).trans decided
      rw [known, placeAll_of_stored, good] at outcome
      cases outcome
  | case3 b piece offset stored duplicate rest placed b' taken kept duplicate' stored' =>
    rename_i stuck
    exact absurd (fit.consumed_pos rest taken kept) stuck
  | case4 b piece offset stored duplicate done => exact .refl _ _ _

theorem Fit.placeAll_there {base : Seq} {data : ByteArray} (fit : b.Fit l piece.lane)
    (here : piece.seq = base) (some_bytes : 0 < data.size)
    (kept : (b.placeAll l idle piece data 0 none false).1 ≠ .dropped) :
    ∃ item ∈ (b.placeAll l idle piece data 0 none false).2.cat.items,
      item.lane = piece.lane ∧ item.isPayload = true := by
  have spec := (@Writing.Bench.Fit.place_spec _ idle) fit some_bytes
    (here.trans (Seq.advance_zero base).symm)
  rw [placeAll, dif_pos some_bytes] at kept ⊢
  generalize b.place l idle piece data 0 = result at spec kept ⊢
  obtain ⟨placed, b'⟩ := result
  dsimp only at spec kept ⊢
  by_cases dropped : placed.outcome = .dropped
  · rw [if_pos dropped] at kept
    exact absurd rfl kept
  · obtain ⟨progress, _, covers⟩ := spec.2.2.2 dropped
    rw [if_neg dropped, dif_pos progress]
    obtain ⟨old, member, inLane, stream, _⟩ :=
      (covers piece.seq).mpr (.inr ⟨0, progress, Seq.advance_zero _⟩)
    obtain ⟨count, spread⟩ := @Writing.Bench.Fit.placeAll_spec _ idle _
      (piece.advance placed.consumed) base data (0 + placed.consumed) spec.1
      (by rw [Nat.zero_add, ← here]; rfl)
      (if placed.outcome = .retransmission then none else none <|> some placed.outcome)
      (false || decide (placed.outcome = .retransmission))
    obtain ⟨item, there, entry, payload⟩ := spread.grows.payload_kept member stream
    have lanes := congrArg (fun entry : Entry => entry.ref.key.lane) entry
    exact ⟨item, there, lanes.trans inLane, payload⟩

end Bench

namespace Desk

variable {config : StoreConfig} {segment : Segment} {now : Micros} {d : Desk}

theorem Fit.put_unstored_grows (fit : d.Fit l)
    (outcome : (d.put l config segment now).1.stored = false) :
    Grows segment.key.lane (fun _ => False) d.cat.items (d.put l config segment now).2.cat.items := by
  rw [put] at outcome ⊢
  cases found : d.announce? l config segment now with
  | none => exact .refl _ _ _
  | some pair =>
    obtain ⟨writer, cat⟩ := pair
    have announced := fit.announced found
    rw [found] at outcome
    dsimp only at outcome ⊢
    split
    · exact announced.grows
    · next full =>
      rw [if_neg full] at outcome
      have start : (firstPiece segment now writer).seq = segment.sequence.advance 0 :=
        (Seq.advance_zero _).symm
      have none_stored : ∀ kept : Outcome, (none : Option Outcome) = some kept → kept.stored = true :=
        fun _ same => absurd same.symm (Option.some_ne_none _)
      have placed := (fit.bench found).placeAll_unstored start none_stored false outcome
      rw [lane_firstPiece] at placed
      exact announced.grows.trans placed

theorem Fit.put_unstored (fit : d.Fit l)
    (outcome : (d.put l config segment now).1.stored = false) :
    ∀ item ∈ (d.put l config segment now).2.cat.items, item.isPayload = true →
      ∃ old ∈ d.cat.items, old.entry = item.entry ∧ old.isPayload = true := by
  obtain ⟨_, gains⟩ := (@Writing.Desk.Fit.put_spec _ config segment now) fit
  intro item member stream
  exact (fit.put_unstored_grows outcome).payload_known (gains.fit.sound item member)
    (gains.fit.ordered.fits item member) member stream

theorem Fit.put_there (fit : d.Fit l) (some_bytes : (d.put l config segment now).1 ≠ .empty)
    (kept : (d.put l config segment now).1 ≠ .dropped) :
    ∃ item ∈ (d.put l config segment now).2.cat.items,
      item.lane = segment.key.lane ∧ item.isPayload = true := by
  rw [put] at some_bytes kept ⊢
  cases found : d.announce? l config segment now with
  | none =>
    rw [found] at kept
    exact absurd rfl kept
  | some pair =>
    obtain ⟨writer, cat⟩ := pair
    rw [found] at some_bytes kept
    dsimp only at some_bytes kept ⊢
    split
    · next empty =>
      rw [if_pos empty] at some_bytes
      exact absurd rfl some_bytes
    · next full =>
      rw [if_neg full] at kept
      have there := (fit.bench found).placeAll_there rfl (Nat.pos_of_ne_zero full) kept
      rw [lane_firstPiece] at there
      exact there

theorem put_noted {writer : WriterFlow} {cat : Catalog}
    (found : d.announce? l config segment now = some (writer, cat)) :
    ∃ noted : WriterFlow, noted.lastWrite = now ∧
      (d.put l config segment now).2.writers = d.writers.insert segment.flow noted := by
  rw [put, found]
  dsimp only
  split
  · exact ⟨_, rfl, rfl⟩
  · exact ⟨_, rfl, rfl⟩

end Desk

end Reassembly.Writing
