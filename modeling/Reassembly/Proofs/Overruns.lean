import Reassembly.Proofs.Arcs
import Reassembly.Proofs.Gains

/-!
When a put stores a position twice. A piece keeps clear of the blocks ahead, and of those behind if it
looks for the block before it; only a piece that continues the open block does not look, and overruns a
block that starts where the open one ends. So a put keeps the blocks of a side apart just if none of
its pieces does this.
-/

namespace Reassembly.Writing

open Store

namespace Bench

variable {l : Layout} {idle : Micros} {b b' : Bench} {piece : Piece} {chunk : ByteArray}

/-- The next piece of a segment goes behind the open block although another block starts there. -/
structure Overlies (l : Layout) (idle : Micros) (b : Bench) (piece : Piece) (data : ByteArray)
    (offset : Nat) : Prop where
  stored : (b.place l idle piece data offset).1.outcome ≠ .dropped
  current : ∃ item, b.writable? idle piece.now = some item ∧ item.header.endSeq = piece.seq
  other : ∃ item ∈ b.cat.items, item.lane = piece.lane ∧ item.isPayload = true ∧
    item.start = piece.seq

inductive Overruns (l : Layout) (idle : Micros) :
    Bench → Piece → (data : ByteArray) → (offset : Nat) → Prop
  | here {b : Bench} {piece : Piece} {data : ByteArray} {offset : Nat} (rest : offset < data.size)
      (overlies : Overlies l idle b piece data offset) : Overruns l idle b piece data offset
  | later {b : Bench} {piece : Piece} {data : ByteArray} {offset : Nat} (rest : offset < data.size)
      (stored : (b.place l idle piece data offset).1.outcome ≠ .dropped)
      (overruns : Overruns l idle (b.place l idle piece data offset).2
        (piece.advance (b.place l idle piece data offset).1.consumed) data
        (offset + (b.place l idle piece data offset).1.consumed)) :
      Overruns l idle b piece data offset

def Limited (b : Bench) (piece : Piece) (len : Nat) : Prop :=
  ∀ other ∈ b.cat.items, other.lane = piece.lane → other.isPayload = true →
    other.start ≠ piece.seq → len ≤ Seq.distance piece.seq other.start

def Vacant (b : Bench) (piece : Piece) : Prop :=
  ∀ other ∈ b.cat.items, other.lane = piece.lane → other.isPayload = true → other.start ≠ piece.seq

theorem Fit.part_limited (fit : b.Fit l piece.lane) (data : ByteArray) (offset : Nat) :
    b.Limited piece (b.part l piece data offset).size := by
  intro other member lane payload elsewhere
  rw [Placing.size_part, pieceLength]
  cases found : b.cat.successor? piece.key with
  | none =>
    have only := Catalog.successor?_eq_none found member
      (lane.trans piece.lane_key.symm) payload
    rw [Piece.seq_key] at only
    exact absurd only elsewhere
  | some next =>
    have nearest := (fit.ordered.sorted.successor?_spec found).2.2 other member
      (lane.trans piece.lane_key.symm) payload
    rw [Piece.seq_key] at nearest
    exact (Nat.min_le_right _ _).trans (nearest elsewhere)

theorem Fit.arc_grown (fit : b.Fit l piece.lane) {item : Item} (member : item ∈ b.cat.items)
    (writable : item.header.isComplete = false) (stop : item.header.endSeq = piece.seq)
    (framable : Placing.Framable l chunk)
    (room : item.header.hasRoom chunk.size l.capacity = true) :
    (item.grown piece.seq chunk piece.now).arc = ⟨item.arc.start, item.arc.length + chunk.size⟩ := by
  obtain ⟨chunks, streams⟩ := fit.streams member writable
  have room := fit.room member framable room
  have grown := streams.grown piece.now stop framable.some room
  have counted := Block.Header.used_accept piece.seq piece.now room l.capacity_lt
  have fits : (item.grown piece.seq chunk piece.now).header.used ≤ l.capacity := by
    rw [Item.grown, counted]
    exact room
  rw [grown.arc_eq fits, streams.arc_eq (fit.ordered.fits item member), Block.streamLength_append,
    Block.streamLength_singleton]
  rfl

theorem arc_opened (cat : Catalog) (slot : UInt32) (framable : Placing.Framable l chunk) :
    (opened cat slot piece chunk).arc = ⟨piece.seq, chunk.size⟩ := by
  have streams := opened_streams cat slot piece framable
  have fits : (opened cat slot piece chunk).header.used ≤ l.capacity := by
    have used := streams.used_eq
    have room := framable.room
    rw [Block.streamLength_singleton, List.length_singleton, Nat.one_mul] at used
    omega
  rw [streams.arc_eq fits, start_opened, Block.streamLength_singleton]

theorem Fit.append_spaced (fit : b.Fit l piece.lane) (spaced : Spaced b.cat.items) {item : Item}
    (member : item ∈ b.cat.items) (inLane : item.lane = piece.lane)
    (writable : item.header.isComplete = false) (stop : item.header.endSeq = piece.seq)
    (framable : Placing.Framable l chunk) (room : item.header.hasRoom chunk.size l.capacity = true)
    (limited : b.Limited piece chunk.size) (vacant : b.Vacant piece) :
    Spaced (b.cat.append item piece.seq chunk piece.now).items := by
  obtain ⟨chunks, streams⟩ := fit.streams member writable
  have stopped : item.arc.start.advance item.arc.length = piece.seq := by
    rw [← stop]
    exact Seq.advance_distance _ _
  refine spaced.recast fit.ordered member fun other known apart payload lane _ => ?_
  have clear := spaced item member other known apart.symm streams.isPayload payload lane.symm
  have there := ((fit.sound other known).arc_spec payload (fit.ordered.fits other known)).1
  have lanes := lane.trans inLane
  have ahead := limited other known lanes payload (vacant other known lanes payload)
  rw [← stopped, ← there] at ahead
  have longer := clear.extend ahead
  rw [← fit.arc_grown member writable stop framable room] at longer
  exact longer

theorem Fit.storeNew_spaced (fit : b.Fit l piece.lane) (spaced : Spaced b.cat.items)
    (framable : Placing.Framable l chunk)
    (clear : ∀ other ∈ b.cat.items, other.isPayload = true → other.lane = piece.lane →
      Seq.Arc.Clear ⟨piece.seq, chunk.size⟩ other.arc) :
    Spaced (b.storeNew l piece chunk).2.cat.items := by
  rw [Bench.storeNew]
  split
  · exact spaced
  · next slot next =>
    have filed : Spaced (b.cat.shelve (opened b.cat slot piece chunk)).items := by
      refine spaced.shelve fit.ordered next fun _ other known payload lane => ?_
      rw [lane_opened] at lane
      rw [arc_opened _ _ framable]
      exact clear other known payload lane
    dsimp only
    split
    · exact filed
    · exact filed

theorem Fit.clear_of_outside (fit : b.Fit l piece.lane) (spaced : Spaced b.cat.items)
    (outside : ∀ item, b.cat.predecessor? piece.key = some item →
      Seq.inRange piece.seq item.header.base item.header.endSeq = false)
    {len : Nat} (limited : b.Limited piece len) {other : Item} (known : other ∈ b.cat.items)
    (payload : other.isPayload = true) (lane : other.lane = piece.lane) :
    Seq.Arc.Clear ⟨piece.seq, len⟩ other.arc := by
  cases found : b.cat.predecessor? piece.key with
  | none =>
    have none_there := Catalog.predecessor?_eq_none found known
      (lane.trans piece.lane_key.symm)
    rw [none_there] at payload
    cases payload
  | some item =>
    obtain ⟨member, inLane, stream, nearest⟩ := fit.ordered.sorted.predecessor?_spec found
    rw [Piece.lane_key] at inLane
    have near := nearest other known (lane.trans piece.lane_key.symm) payload
    rw [Piece.seq_key] at near
    obtain ⟨start, some⟩ := (fit.sound item member).arc_spec stream (fit.ordered.fits item member)
    obtain ⟨there, _⟩ := (fit.sound other known).arc_spec payload (fit.ordered.fits other known)
    have short : item.arc.length ≤ Seq.distance item.arc.start piece.seq := by
      have missed := outside item found
      rw [Seq.inRange, decide_eq_false_iff_not] at missed
      exact Nat.not_lt.mp missed
    have elsewhere : other.start ≠ piece.seq := by
      intro same
      rw [same, Seq.distance_self, ← start] at near
      omega
    have ahead := limited other known lane payload elsewhere
    rw [← there] at ahead near
    rw [← start] at near
    by_cases same : item.slot = other.slot
    · obtain rfl := fit.ordered.eq_of_slot member known same
      exact ⟨ahead, short⟩
    · have clear := spaced item member other known same stream payload (inLane.trans lane.symm)
      exact clear.past near ahead

theorem Fit.clear_of_behind (fit : b.Fit l piece.lane) (spaced : Spaced b.cat.items) {item : Item}
    (member : item ∈ b.cat.items) (inLane : item.lane = piece.lane) (stream : item.isPayload = true)
    (stop : item.header.endSeq = piece.seq) {len : Nat} (limited : b.Limited piece len)
    (vacant : b.Vacant piece) {other : Item} (known : other ∈ b.cat.items)
    (payload : other.isPayload = true) (lane : other.lane = piece.lane) :
    Seq.Arc.Clear ⟨piece.seq, len⟩ other.arc := by
  have elsewhere := vacant other known lane payload
  have ahead := limited other known lane payload elsewhere
  obtain ⟨_, some⟩ := (fit.sound item member).arc_spec stream (fit.ordered.fits item member)
  obtain ⟨there, _⟩ := (fit.sound other known).arc_spec payload (fit.ordered.fits other known)
  have stopped : item.arc.start.advance item.arc.length = piece.seq := by
    rw [← stop]
    exact Seq.advance_distance _ _
  rw [← there, ← stopped] at elsewhere ahead
  rw [← stopped]
  by_cases same : item.slot = other.slot
  · obtain rfl := fit.ordered.eq_of_slot member known same
    refine ⟨ahead, ?_⟩
    rw [stopped, ← stop]
    exact Nat.le_refl _
  · exact (spaced item member other known same stream payload (inLane.trans lane.symm)).behind some
      elsewhere ahead

theorem Placed.spaced {placement : Placement}
    (placed : Placed l idle b piece chunk placement b') (fit : b.Fit l piece.lane)
    (framable : Placing.Framable l chunk) (limited : b.Limited piece chunk.size)
    (spaced : Spaced b.cat.items)
    (vacant : placement.outcome ≠ .dropped →
      (∃ item, b.writable? idle piece.now = some item ∧ item.header.endSeq = piece.seq) →
      b.Vacant piece) : Spaced b'.cat.items := by
  cases placed with
  | covered _ _ => exact spaced
  | @continued item current stop room =>
    exact fit.append_spaced spaced (mem_of_writable? current) (fit.lane_eq current)
      (writable?_spec current).2.1 stop framable room limited (vacant nofun ⟨item, current, stop⟩)
  | @resumed item found writable stop room =>
    obtain ⟨member, inLane, payload, nearest⟩ := fit.ordered.sorted.predecessor?_spec found
    rw [Piece.lane_key] at inLane
    refine fit.append_spaced spaced member inLane writable stop framable room limited
      fun other known lane stream same => ?_
    -- a block that starts there would be nearer than the one found, which holds some bytes
    have near := nearest other known (lane.trans piece.lane_key.symm) stream
    obtain ⟨start, some⟩ := (fit.sound item member).arc_spec payload (fit.ordered.fits item member)
    have length : item.arc.length = Seq.distance item.start piece.seq := by
      rw [← start, ← stop]
      rfl
    rw [Piece.seq_key, same, Seq.distance_self, ← length] at near
    exact absurd some (Nat.not_lt.mpr near)
  | @replaced item current stop =>
    have member := mem_of_writable? current
    have writable := (writable?_spec current).2.1
    obtain ⟨chunks, streams⟩ := fit.streams member writable
    have closed := spaced.complete fit.ordered member
    have refit := fit.complete member writable
    by_cases full : (storeNew l ⟨none, b.cat.complete item⟩ piece chunk).1.outcome = .dropped
    · rcases refit.storeNew_spec framable with ⟨_, same, _⟩ | ⟨placement, _⟩
      · rw [same]
        exact closed
      · rw [placement] at full
        cases full
    · have clear {old : Item} (present : old ∈ b.cat.items) (stream : old.isPayload = true)
          (lane : old.lane = piece.lane) : Seq.Arc.Clear ⟨piece.seq, chunk.size⟩ old.arc :=
        fit.clear_of_behind spaced member (fit.lane_eq current) streams.isPayload stop limited
          (vacant full ⟨item, current, stop⟩) present stream lane
      refine refit.storeNew_spaced closed framable fun other known payload lane => ?_
      rcases Catalog.mem_recast.mp known with ⟨old, present, same, rfl⟩ | ⟨present, _⟩
      · obtain rfl := fit.ordered.eq_of_slot present member same
        exact (clear present streams.isPayload lane : Seq.Arc.Clear _ old.arc)
      · exact clear present payload lane
  | apart outside =>
    exact fit.storeNew_spaced spaced framable fun other known payload lane =>
      fit.clear_of_outside spaced outside limited known payload lane

theorem Fit.place_of_current (fit : b.Fit l piece.lane) {item : Item}
    (current : b.writable? idle piece.now = some item) (stop : item.header.endSeq = piece.seq)
    (data : ByteArray) (offset : Nat) :
    b.place l idle piece data offset =
      if item.header.hasRoom (b.part l piece data offset).size l.capacity then
        (⟨(b.part l piece data offset).size, .appended⟩,
          ⟨b.openBlock, b.cat.append item piece.seq (b.part l piece data offset) piece.now⟩)
      else Bench.storeNew l ⟨none, b.cat.complete item⟩ piece (b.part l piece data offset) := by
  obtain ⟨_, writable, _, same⟩ := writable?_spec current
  obtain ⟨chunks, streams⟩ := fit.streams (mem_of_writable? current) writable
  rw [Bench.place, same, current]
  simp only [continueOpen?, streams.data, stop, bne_self_eq_false, Bool.and_false,
    Bool.false_eq_true, if_false]
  split <;> rfl

theorem Overlies.not_spaced {data : ByteArray} {offset : Nat}
    (overlies : Overlies l idle b piece data offset) (fit : b.Fit l piece.lane)
    (inside : offset < data.size) : ¬ Spaced (b.place l idle piece data offset).2.cat.items := by
  obtain ⟨stored, ⟨item, current, stop⟩, other, known, lane, payload, start⟩ := overlies
  have member := mem_of_writable? current
  have writable := (writable?_spec current).2.1
  have framable := (@Writing.Placing.part_framable _ _ piece) fit.ordered inside
  obtain ⟨chunks, streams⟩ := fit.streams member writable
  obtain ⟨base, some⟩ := (fit.sound item member).arc_spec streams.isPayload
    (fit.ordered.fits item member)
  have there := ((fit.sound other known).arc_spec payload (fit.ordered.fits other known)).1
  have apart : other.slot ≠ item.slot := by
    intro same
    obtain rfl := fit.ordered.eq_of_slot known member same
    rw [Item.arc, stop, ← start, ← base] at some
    exact absurd some (by rw [Item.arc, Seq.distance_self]; exact Nat.lt_irrefl 0)
  rw [fit.place_of_current current stop] at stored ⊢
  generalize b.part l piece data offset = chunk at framable stored ⊢
  split
  · next room =>
    intro spaced
    have grown := fit.arc_grown member writable stop framable room
    have clear := spaced (item.grown piece.seq chunk piece.now)
      (Catalog.mem_recast.mpr (.inl ⟨item, member, rfl, rfl⟩)) other
      (Catalog.mem_recast.mpr (.inr ⟨known, apart⟩)) apart.symm streams.isPayload payload
      ((fit.lane_eq current).trans lane.symm)
    have reach := clear.1
    rw [grown, there, start, ← stop] at reach
    exact absurd framable.some (by dsimp only [Item.arc] at reach; omega)
  · next full =>
    intro spaced
    rw [if_neg full] at stored
    rw [Bench.storeNew] at stored spaced
    split at stored
    · exact stored rfl
    · next slot next =>
      have filed : Spaced ((b.cat.complete item).shelve
          (opened (b.cat.complete item) slot piece chunk)).items := by
        simp only [next] at spaced
        split at spaced <;> exact spaced
      have unused := ((fit.complete member writable).ordered.nextSlot_spec next).2.1
      have kept : other ∈ (b.cat.complete item).items :=
        Catalog.mem_recast.mpr (.inr ⟨known, apart⟩)
      have fresh : slot ≠ other.slot := fun same =>
        unused (same ▸ List.mem_map_of_mem kept)
      have clear := filed _ (Catalog.mem_file.mpr (.inl rfl)) other
        (Catalog.mem_file.mpr (.inr kept)) fresh (opened_streams _ _ _ framable).isPayload payload
        ((lane_opened ..).trans lane.symm)
      have reach := clear.1
      rw [arc_opened _ _ framable, there, start, Seq.distance_self] at reach
      exact absurd framable.some (Nat.not_lt.mpr reach)

theorem Fit.place_spaced (fit : b.Fit l piece.lane) (spaced : Spaced b.cat.items) {data : ByteArray}
    {offset : Nat} (inside : offset < data.size) :
    Spaced (b.place l idle piece data offset).2.cat.items ↔
      ¬ Overlies l idle b piece data offset := by
  refine ⟨fun after overlies => overlies.not_spaced fit inside after, fun clean => ?_⟩
  have refit := (@Writing.Bench.Fit.reopen _ idle) fit piece.now
  refine (place_placed fit data offset).spaced refit
    (Placing.part_framable refit.ordered inside) (refit.part_limited data offset) ?_
    fun stored current => ?_
  · rw [Bench.reopen]
    split
    · exact spaced
    · next item found =>
      split
      · exact spaced
      · split
        · exact spaced.complete fit.ordered (mem_of_located found)
        · exact spaced
  · rw [writable?_reopen] at current
    obtain ⟨item, here, stop⟩ := current
    rw [(writable?_spec here).2.2.2]
    intro other known lane payload start
    exact clean ⟨stored, ⟨item, here, stop⟩, other, known, lane, payload, start⟩

theorem Overruns.inside {data : ByteArray} {offset : Nat}
    (overruns : Overruns l idle b piece data offset) : offset < data.size := by
  cases overruns with
  | here rest _ => exact rest
  | later rest _ _ => exact rest

theorem Fit.placeAll_spaced {base : Seq} {data : ByteArray} {offset : Nat} (fit : b.Fit l piece.lane)
    (here : piece.seq = base.advance offset) (spaced : Spaced b.cat.items)
    (stored : Option Outcome) (duplicate : Bool) :
    Spaced (b.placeAll l idle piece data offset stored duplicate).2.cat.items ↔
      ¬ Overruns l idle b piece data offset := by
  fun_induction Bench.placeAll l idle b piece data offset stored duplicate with
  | case1 b piece offset stored duplicate rest placed b' taken dropped =>
    have step := (@Writing.Bench.Fit.place_spaced _ idle) fit spaced rest
    have lost : (b.place l idle piece data offset).1.outcome = .dropped := by
      rw [taken]
      exact dropped
    rw [taken] at step
    refine iff_of_true (step.mpr fun overlies => overlies.stored lost) fun overruns => ?_
    cases overruns with
    | here _ overlies => exact overlies.stored lost
    | later _ stored _ => exact stored lost
  | case2 b piece offset stored duplicate rest placed b' taken kept duplicate' stored' progress =>
    rename_i ih
    have spec := (@Writing.Bench.Fit.place_spec _ idle) fit rest here
    have step := (@Writing.Bench.Fit.place_spaced _ idle) fit spaced rest
    have further : Overruns l idle b' (piece.advance placed.consumed) data (offset + placed.consumed) →
        Overruns l idle b piece data offset := by
      intro overruns
      refine .later rest ?_ ?_
      · rw [taken]
        exact kept
      · rw [taken]
        exact overruns
    rw [taken] at spec step
    dsimp only at spec step
    have next := Piece.seq_advance here placed.consumed
    by_cases overlies : Overlies l idle b piece data offset
    · obtain ⟨count, spread⟩ := @Writing.Bench.Fit.placeAll_spec _ idle _
        (piece.advance placed.consumed) _ data _ spec.1 next stored' duplicate'
      refine iff_of_false (fun after => step.mp ?_ overlies) fun clean => clean (.here rest overlies)
      rw [← spread.fit.sound.apart_iff spread.fit.ordered] at after
      rw [← spec.1.sound.apart_iff spec.1.ordered]
      exact spread.grows.apart spec.1.ordered spec.1.sound spread.fit.ordered spread.fit.sound after
    · refine (ih spec.1 next (step.mpr overlies)).trans
        ⟨fun clean overruns => ?_, fun clean overruns => clean (further overruns)⟩
      cases overruns with
      | here _ overlies' => exact overlies overlies'
      | later _ _ overruns =>
        rw [taken] at overruns
        exact clean overruns
  | case3 b piece offset stored duplicate rest placed b' taken kept duplicate' stored' =>
    rename_i stuck
    exact absurd (fit.consumed_pos rest taken kept) stuck
  | case4 b piece offset stored duplicate done =>
    exact iff_of_true spaced fun overruns => done overruns.inside

end Bench

namespace Desk

variable {l : Layout} {config : StoreConfig} {segment : Segment} {now : Micros} {d : Desk}

def Overruns (l : Layout) (config : StoreConfig) (segment : Segment) (now : Micros) (d : Desk) : Prop :=
  ∃ writer cat, d.announce? l config segment now = some (writer, cat) ∧
    Bench.Overruns l config.blockIdleTimeout ⟨(writer.sides.get segment.side).openBlock, cat⟩
      (firstPiece segment now writer) segment.payload 0

theorem Fit.put_spaced (fit : d.Fit l) (spaced : Spaced d.cat.items) :
    Spaced (d.put l config segment now).2.cat.items ↔ ¬ d.Overruns l config segment now := by
  rw [put]
  cases found : d.announce? l config segment now with
  | none =>
    refine iff_of_true spaced ?_
    rintro ⟨_, _, announced, _⟩
    rw [found] at announced
    cases announced
  | some pair =>
    obtain ⟨writer, cat⟩ := pair
    have announced := fit.announced found
    have marked : Spaced cat.items := by
      rw [announce?] at found
      split at found
      · obtain ⟨_, rfl⟩ := Prod.mk.inj (Option.some.inj found)
        exact spaced
      · obtain ⟨slot, next, same⟩ := Option.map_eq_some_iff.mp found
        obtain ⟨_, rfl⟩ := Prod.mk.inj same
        refine spaced.shelve fit.ordered next fun payload => ?_
        rw [(markerFor_isMarker d.cat slot segment now).isPayload] at payload
        cases payload
    have only : d.Overruns l config segment now ↔ Bench.Overruns l config.blockIdleTimeout
        ⟨(writer.sides.get segment.side).openBlock, cat⟩ (firstPiece segment now writer)
        segment.payload 0 := by
      constructor
      · rintro ⟨_, _, announced, overruns⟩
        obtain ⟨rfl, rfl⟩ := Prod.mk.inj (Option.some.inj (found.symm.trans announced))
        exact overruns
      · exact fun overruns => ⟨writer, cat, found, overruns⟩
    rw [only]
    dsimp only
    split
    · next empty =>
      exact iff_of_true marked fun overruns => absurd overruns.inside (by omega)
    · exact (fit.bench found).placeAll_spaced (Seq.advance_zero _).symm marked
        none false

end Desk

end Reassembly.Writing
