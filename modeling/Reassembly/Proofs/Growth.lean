import Reassembly.Proofs.Pieces

/-!
How a store grows. A piece that is stored adds one frame, at the end of a block of its lane or in a new
one, and leaves all other frames and lanes as they are; so the positions held are those held before and
those of the piece.
-/

namespace Reassembly

def Block.Frame.Spans (f : Block.Frame) (position : Seq) : Prop :=
  ∃ step, step < f.data.size ∧ f.start.advance step = position

theorem Block.lay_spans (start : Seq) (chunks : List ByteArray) (position : Seq) :
    (∃ f ∈ lay start chunks, f.Spans position) ↔
      ∃ step, step < streamLength chunks ∧ start.advance step = position := by
  induction chunks generalizing start with
  | nil =>
    constructor
    · rintro ⟨f, member, _⟩
      exact absurd member List.not_mem_nil
    · rintro ⟨step, small, _⟩
      exact absurd small (Nat.not_lt_zero _)
  | cons chunk rest ih =>
    rw [lay, streamLength_cons]
    constructor
    · rintro ⟨f, member, spans⟩
      rcases List.mem_cons.mp member with rfl | later
      · obtain ⟨step, small, here⟩ := spans
        exact ⟨step, by simp only at small; omega, here⟩
      · obtain ⟨step, small, here⟩ := (ih _).mp ⟨f, later, spans⟩
        rw [Seq.advance_advance] at here
        exact ⟨chunk.size + step, by omega, here⟩
    · rintro ⟨step, small, here⟩
      by_cases early : step < chunk.size
      · exact ⟨_, List.mem_cons_self, step, early, here⟩
      · obtain ⟨f, later, spans⟩ := (ih (start.advance chunk.size)).mpr
          ⟨step - chunk.size, by omega, by rw [Seq.advance_advance, ← here]; congr 1; omega⟩
        exact ⟨f, List.mem_cons_of_mem _ later, spans⟩

namespace Store

/-- A payload block of the lane holds the position. -/
def Covers (items : List Item) (lane : Nat) (position : Seq) : Prop :=
  ∃ item ∈ items, item.lane = lane ∧ item.isPayload = true ∧ ∃ f ∈ item.frames, f.Spans position

/-- A block later in time: the same block, with frames added that are `fresh`. -/
structure Item.Extends (fresh : Block.Frame → Prop) (old new : Item) : Prop where
  entry : new.entry = old.entry
  kind : new.isPayload = old.isPayload
  frames : ∃ added, new.frames = old.frames ++ added ∧ ∀ f ∈ added, fresh f

/-- One lane grew by `fresh` frames, in blocks that were there and in new ones; nothing else
changed. -/
structure Grows (lane : Nat) (fresh : Block.Frame → Prop) (before after : List Item) : Prop where
  kept : ∀ old ∈ before, ∃ new ∈ after, old.Extends fresh new
  known : ∀ new ∈ after, (∃ old ∈ before, old.Extends fresh new) ∨
    ((∀ old ∈ before, old.slot ≠ new.slot) ∧ new.lane = lane ∧ ∀ f ∈ new.frames, fresh f)
  others : ∀ item : Item, item.lane ≠ lane → (item ∈ before ↔ item ∈ after)

theorem Item.Extends.refl (fresh : Block.Frame → Prop) (item : Item) : item.Extends fresh item :=
  ⟨rfl, rfl, [], (List.append_nil _).symm, fun _ member => absurd member List.not_mem_nil⟩

theorem Item.Extends.trans {fresh : Block.Frame → Prop} {a b c : Item} (first : a.Extends fresh b)
    (second : b.Extends fresh c) : a.Extends fresh c := by
  obtain ⟨early, here, allEarly⟩ := first.frames
  obtain ⟨late, there, allLate⟩ := second.frames
  refine ⟨second.entry.trans first.entry, second.kind.trans first.kind, early ++ late, ?_,
    fun f member => ?_⟩
  · rw [there, here, List.append_assoc]
  · rcases List.mem_append.mp member with old | new
    · exact allEarly f old
    · exact allLate f new

theorem Item.Extends.mono {fresh wider : Block.Frame → Prop} {a b : Item}
    (ext : a.Extends fresh b) (wide : ∀ f, fresh f → wider f) : a.Extends wider b := by
  obtain ⟨added, frames, all⟩ := ext.frames
  exact ⟨ext.entry, ext.kind, added, frames, fun f member => wide f (all f member)⟩

theorem Item.Extends.slot_eq {fresh : Block.Frame → Prop} {a b : Item} (ext : a.Extends fresh b) :
    b.slot = a.slot :=
  congrArg Entry.slot ext.entry

theorem Item.Extends.lane_eq {fresh : Block.Frame → Prop} {a b : Item} (ext : a.Extends fresh b) :
    b.lane = a.lane :=
  congrArg (fun entry : Entry => entry.ref.key.lane) ext.entry

namespace Grows

variable {lane : Nat} {fresh : Block.Frame → Prop} {a b c : List Item}

theorem refl (lane : Nat) (fresh : Block.Frame → Prop) (items : List Item) :
    Grows lane fresh items items :=
  ⟨fun old member => ⟨old, member, .refl _ _⟩, fun new member => .inl ⟨new, member, .refl _ _⟩,
    fun _ _ => Iff.rfl⟩

theorem trans (first : Grows lane fresh a b) (second : Grows lane fresh b c) :
    Grows lane fresh a c := by
  refine ⟨fun old member => ?_, fun new member => ?_,
    fun item other => (first.others item other).trans (second.others item other)⟩
  · obtain ⟨mid, there, early⟩ := first.kept old member
    obtain ⟨new, last, late⟩ := second.kept mid there
    exact ⟨new, last, early.trans late⟩
  · rcases second.known new member with ⟨mid, there, late⟩ | ⟨unused, inLane, all⟩
    · rcases first.known mid there with ⟨old, origin, early⟩ | ⟨unused, inLane, all⟩
      · exact .inl ⟨old, origin, early.trans late⟩
      · refine .inr ⟨fun old origin => ?_, late.lane_eq.trans inLane, fun f present => ?_⟩
        · rw [late.slot_eq]
          exact unused old origin
        · obtain ⟨added, frames, rest⟩ := late.frames
          rw [frames] at present
          rcases List.mem_append.mp present with early | added
          · exact all f early
          · exact rest f added
    · refine .inr ⟨fun old origin => ?_, inLane, all⟩
      obtain ⟨mid, there, early⟩ := first.kept old origin
      rw [← early.slot_eq]
      exact unused mid there

theorem mono {wider : Block.Frame → Prop} (grows : Grows lane fresh a b)
    (wide : ∀ f, fresh f → wider f) : Grows lane wider a b := by
  refine ⟨fun old member => ?_, fun new member => ?_, grows.others⟩
  · obtain ⟨new, there, ext⟩ := grows.kept old member
    exact ⟨new, there, ext.mono wide⟩
  · rcases grows.known new member with ⟨old, origin, ext⟩ | ⟨unused, inLane, all⟩
    · exact .inl ⟨old, origin, ext.mono wide⟩
    · exact .inr ⟨unused, inLane, fun f present => wide f (all f present)⟩

theorem covers (grows : Grows lane fresh a b) {anyLane : Nat} {position : Seq}
    (held : Covers a anyLane position) : Covers b anyLane position := by
  obtain ⟨old, member, inLane, payload, f, present, spans⟩ := held
  obtain ⟨new, there, ext⟩ := grows.kept old member
  obtain ⟨added, frames, _⟩ := ext.frames
  exact ⟨new, there, ext.lane_eq.trans inLane, ext.kind.trans payload, f,
    frames ▸ List.mem_append_left _ present, spans⟩

theorem forall_frames (grows : Grows lane fresh a b) (holds : Nat → Block.Frame → Prop)
    (old : ∀ item ∈ a, ∀ f ∈ item.frames, holds item.lane f) (new : ∀ f, fresh f → holds lane f) :
    ∀ item ∈ b, ∀ f ∈ item.frames, holds item.lane f := by
  intro item member f present
  by_cases here : item.lane = lane
  · rcases grows.known item member with ⟨origin, there, ext⟩ | ⟨_, _, all⟩
    · obtain ⟨added, frames, rest⟩ := ext.frames
      rw [frames] at present
      rcases List.mem_append.mp present with early | late
      · rw [ext.lane_eq]
        exact old origin there f early
      · rw [here]
        exact new f (rest f late)
    · rw [here]
      exact new f (all f present)
  · exact old item ((grows.others item here).mpr member) f present

theorem covers_or (grows : Grows lane fresh a b) {anyLane : Nat} {position : Seq}
    (held : Covers b anyLane position) :
    Covers a anyLane position ∨ ∃ f, fresh f ∧ f.Spans position := by
  obtain ⟨new, member, inLane, payload, f, present, spans⟩ := held
  rcases grows.known new member with ⟨old, origin, ext⟩ | ⟨_, _, all⟩
  · obtain ⟨added, frames, rest⟩ := ext.frames
    rw [frames] at present
    rcases List.mem_append.mp present with early | late
    · exact .inl ⟨old, origin, ext.lane_eq.symm.trans inLane, ext.kind.symm.trans payload, f,
        early, spans⟩
    · exact .inr ⟨f, rest f late, spans⟩
  · exact .inr ⟨f, all f present, spans⟩

variable {l : Layout} {cat : Catalog}

theorem recast (ordered : cat.Ordered l) {item : Item} (member : item ∈ cat.items)
    (inLane : item.lane = lane) {header : Block.Header} {body : ByteArray}
    (ext : item.Extends fresh ⟨item.entry, header, body⟩) :
    Grows lane fresh cat.items (cat.recast item.slot header body).items := by
  refine ⟨fun old known => ?_, fun new present => ?_, fun other elsewhere => ?_⟩
  · by_cases same : old.slot = item.slot
    · obtain rfl := ordered.eq_of_slot known member same
      exact ⟨_, Catalog.mem_recast.mpr (.inl ⟨old, known, rfl, rfl⟩), ext⟩
    · exact ⟨old, Catalog.mem_recast.mpr (.inr ⟨known, same⟩), .refl _ _⟩
  · rcases Catalog.mem_recast.mp present with ⟨old, known, same, rfl⟩ | ⟨known, _⟩
    · obtain rfl := ordered.eq_of_slot known member same
      exact .inl ⟨old, known, ext⟩
    · exact .inl ⟨new, known, .refl _ _⟩
  · constructor
    · refine fun known => Catalog.mem_recast.mpr (.inr ⟨known, fun same => elsewhere ?_⟩)
      rw [ordered.eq_of_slot known member same]
      exact inLane
    · intro present
      rcases Catalog.mem_recast.mp present with ⟨old, known, same, rfl⟩ | ⟨known, _⟩
      · obtain rfl := ordered.eq_of_slot known member same
        exact absurd inLane elsewhere
      · exact known

theorem shelve (ordered : cat.Ordered l) {item : Item} (next : cat.nextSlot? l = some item.slot)
    (inLane : item.lane = lane) (all : ∀ f ∈ item.frames, fresh f) :
    Grows lane fresh cat.items (cat.shelve item).items := by
  refine ⟨fun old known => ⟨old, Catalog.mem_file.mpr (.inr known), .refl _ _⟩,
    fun new present => ?_, fun other elsewhere => ⟨fun known => Catalog.mem_file.mpr (.inr known),
      fun present => ?_⟩⟩
  · rcases Catalog.mem_file.mp present with rfl | known
    · refine .inr ⟨fun old known same => ?_, inLane, all⟩
      exact (ordered.nextSlot_spec next).2.1 (same ▸ List.mem_map_of_mem known)
    · exact .inl ⟨new, known, .refl _ _⟩
  · rcases Catalog.mem_file.mp present with rfl | known
    · exact absurd inLane elsewhere
    · exact known

theorem complete (ordered : cat.Ordered l) {item : Item} (member : item ∈ cat.items)
    (inLane : item.lane = lane) : Grows lane fresh cat.items (cat.complete item).items :=
  recast ordered member inLane ⟨rfl, rfl, [], (List.append_nil _).symm, nofun⟩

end Grows

end Store

namespace Writing.Bench

open Store

variable {l : Layout} {idle : Micros} {b b' : Bench} {piece : Piece} {chunk : ByteArray}

structure Enters (piece : Piece) (chunk : ByteArray) (b b' : Bench) : Prop where
  grows : Grows piece.lane (· = ⟨piece.seq, chunk⟩) b.cat.items b'.cat.items
  there : ∃ item ∈ b'.cat.items, item.lane = piece.lane ∧ item.isPayload = true ∧
    (⟨piece.seq, chunk⟩ : Block.Frame) ∈ item.frames

theorem Fit.append_enters (fit : b.Fit l piece.lane) {item : Item} (member : item ∈ b.cat.items)
    (inLane : item.lane = piece.lane) (writable : item.header.isComplete = false)
    (stop : item.header.endSeq = piece.seq) (framable : Placing.Framable l chunk)
    (room : item.header.hasRoom chunk.size l.capacity = true) :
    Enters piece chunk b ⟨b.openBlock, b.cat.append item piece.seq chunk piece.now⟩ := by
  obtain ⟨chunks, streams⟩ := fit.streams member writable
  have room := fit.room member framable room
  have grown := streams.grown piece.now stop framable.some room
  have fits : (item.grown piece.seq chunk piece.now).header.used ≤ l.capacity := by
    rw [Item.grown, Block.Header.used_accept piece.seq piece.now room l.capacity_lt]
    exact room
  have frames : (item.grown piece.seq chunk piece.now).frames =
      item.frames ++ [⟨piece.seq, chunk⟩] := by
    rw [grown.frames_eq fits, streams.frames_eq (fit.ordered.fits item member), Block.lay_append]
    have start : (item.grown piece.seq chunk piece.now).start = item.start := rfl
    rw [start, ← streams.stop, stop, Block.lay, Block.lay]
  refine ⟨Grows.recast fit.ordered member inLane ⟨rfl, ?_, _, frames, ?_⟩,
    item.grown piece.seq chunk piece.now, Catalog.mem_recast.mpr (.inl ⟨item, member, rfl, rfl⟩),
    inLane, grown.isPayload, ?_⟩
  · exact grown.isPayload.trans streams.isPayload.symm
  · exact fun f added => List.mem_singleton.mp added
  · rw [frames]
    exact List.mem_append_right _ (List.mem_singleton.mpr rfl)

theorem Fit.storeNew_spec (fit : b.Fit l piece.lane) (framable : Placing.Framable l chunk) :
    ((b.storeNew l piece chunk).1 = ⟨chunk.size, .dropped⟩ ∧ (b.storeNew l piece chunk).2 = b ∧
      b.cat.nextSlot? l = none) ∨
    ((b.storeNew l piece chunk).1 = ⟨chunk.size, .newBlock⟩ ∧
      Enters piece chunk b (b.storeNew l piece chunk).2) := by
  have refit := fit.storeNew framable
  rw [Bench.storeNew] at refit ⊢
  split
  · next full => exact .inl ⟨rfl, rfl, full⟩
  · next slot next =>
    have streams := opened_streams b.cat slot piece framable
    have frames : (opened b.cat slot piece chunk).frames = [⟨piece.seq, chunk⟩] := by
      have room := framable.room
      have used := streams.used_eq
      rw [Block.streamLength_singleton, List.length_singleton, Nat.one_mul] at used
      rw [streams.frames_eq (l := l) (by omega), start_opened, Block.lay, Block.lay]
    have grows : Grows piece.lane (· = ⟨piece.seq, chunk⟩) b.cat.items
        (b.cat.shelve (opened b.cat slot piece chunk)).items := by
      refine Grows.shelve fit.ordered next (lane_opened ..) fun f present => ?_
      rw [frames] at present
      exact List.mem_singleton.mp present
    refine .inr ⟨rfl, ?_⟩
    have there : ∃ item ∈ (b.cat.shelve (opened b.cat slot piece chunk)).items,
        item.lane = piece.lane ∧ item.isPayload = true ∧
          (⟨piece.seq, chunk⟩ : Block.Frame) ∈ item.frames :=
      ⟨_, Catalog.mem_file.mpr (.inl rfl), lane_opened .., streams.isPayload,
        frames ▸ List.mem_singleton.mpr rfl⟩
    dsimp only
    split
    · exact ⟨grows, there⟩
    · exact ⟨grows, there⟩

theorem Fit.covers_of_inRange (fit : b.Fit l piece.lane) {item : Item} (member : item ∈ b.cat.items)
    (inLane : item.lane = piece.lane) (payload : item.isPayload = true)
    (inside : Seq.inRange piece.seq item.header.base item.header.endSeq = true) {step : Nat}
    (before : step < Seq.distance piece.seq item.header.endSeq) :
    Covers b.cat.items piece.lane (piece.seq.advance step) := by
  obtain ⟨chunks, streams⟩ : ∃ chunks, item.Streams chunks := by
    rcases fit.sound item member with marker | streams
    · rw [marker.isPayload] at payload
      cases payload
    · exact streams
  have fits := fit.ordered.fits item member
  have limit := l.capacity_lt
  have total := streams.streamLength_lt fits
  rw [streams.base, streams.stop, Seq.inRange_advance _ _ (by rw [Seq.circle]; omega)] at inside
  obtain ⟨first, small, here⟩ := inside
  have left : Seq.distance piece.seq item.header.endSeq = Block.streamLength chunks - first := by
    have whole : item.start.advance (Block.streamLength chunks) =
        (item.start.advance first).advance (Block.streamLength chunks - first) := by
      rw [Seq.advance_advance]
      congr 1
      omega
    rw [streams.stop, whole, here]
    exact Seq.distance_advance_of_lt _ (by rw [Seq.circle]; omega)
  rw [left] at before
  obtain ⟨f, present, spans⟩ := (Block.lay_spans item.start chunks (piece.seq.advance step)).mpr
    ⟨first + step, by omega, by rw [← Seq.advance_advance, here]⟩
  exact ⟨item, member, inLane, payload, f, streams.frames_eq fits ▸ present, spans⟩

/-- What a piece comes to: there is no slot for it, its first bytes are stored already, or it is
stored. -/
theorem Placed.spec {placement : Placement} (placed : Placed l idle b piece chunk placement b')
    (fit : b.Fit l piece.lane) (framable : Placing.Framable l chunk) :
    (placement.outcome = .dropped ∧ b'.cat.nextSlot? l = none ∧
      Grows piece.lane (fun _ => False) b.cat.items b'.cat.items) ∨
    (placement.outcome = .retransmission ∧ b' = b ∧
      0 < placement.consumed ∧ placement.consumed ≤ chunk.size ∧
      ∀ step, step < placement.consumed → Covers b.cat.items piece.lane (piece.seq.advance step)) ∨
    (placement.outcome.stored = true ∧ placement.consumed = chunk.size ∧
      Enters piece chunk b b') := by
  cases placed with
  | @covered item found inside =>
    obtain ⟨member, inLane, payload, _⟩ := fit.ordered.sorted.predecessor?_spec found
    rw [Piece.lane_key] at inLane
    have ahead : 0 < Seq.distance piece.seq item.header.endSeq := by
      refine Seq.distance_pos fun same => ?_
      rw [Seq.inRange_iff, ← same] at inside
      exact Nat.lt_irrefl _ inside
    have some := framable.some
    refine .inr (.inl ⟨rfl, rfl, by dsimp only; omega, Nat.min_le_left _ _, fun step small => ?_⟩)
    exact fit.covers_of_inRange member inLane payload inside (by dsimp only at small; omega)
  | continued current stop room =>
    refine .inr (.inr ⟨rfl, rfl, ?_⟩)
    exact fit.append_enters (mem_of_writable? current) (fit.lane_eq current)
      (writable?_spec current).2.1 stop framable room
  | resumed found writable stop room =>
    obtain ⟨member, inLane, _, _⟩ := fit.ordered.sorted.predecessor?_spec found
    rw [Piece.lane_key] at inLane
    refine .inr (.inr ⟨?_, rfl, fit.append_enters member inLane writable stop framable room⟩)
    dsimp only
    split <;> rfl
  | replaced current stop =>
    have member := mem_of_writable? current
    have closed : Grows piece.lane (fun _ => False) b.cat.items (b.cat.complete _).items :=
      Grows.complete fit.ordered member (fit.lane_eq current)
    rcases (fit.complete member (writable?_spec current).2.1).storeNew_spec framable with
      ⟨placement, same, full⟩ | ⟨placement, enters⟩
    · refine .inl ⟨by rw [placement], ?_, ?_⟩
      · rw [same]
        exact full
      · rw [same]
        exact closed
    · refine .inr (.inr ⟨by rw [placement]; rfl, by rw [placement], ?_, enters.there⟩)
      exact (closed.mono fun _ => False.elim).trans enters.grows
  | apart _ =>
    rcases fit.storeNew_spec framable with ⟨placement, same, full⟩ | ⟨placement, enters⟩
    · refine .inl ⟨by rw [placement], ?_, ?_⟩
      · rw [same]
        exact full
      · rw [same]
        exact .refl _ _ _
    · exact .inr (.inr ⟨by rw [placement]; rfl, by rw [placement], enters⟩)

end Writing.Bench

end Reassembly
