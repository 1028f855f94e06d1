import Reassembly.Proofs.Site
import Reassembly.Proofs.Steadiness

/-!
What a store retains while nothing times out. As the blocks of a side keep apart, a put adds just those of
its bytes that are not there yet, and the others stay as the first put that brought them left them; a put
that brings nothing new says so and writes nothing.
-/

namespace Reassembly

open Store Writing

namespace Block

def Frame.byteAt? (f : Frame) (position : Seq) : Option UInt8 :=
  if Seq.distance f.start position < f.data.size then
    some (Bytes.byteAt f.data (Seq.distance f.start position))
  else none

theorem Frame.spans_iff (f : Frame) (position : Seq) :
    f.Spans position ↔ Seq.distance f.start position < f.data.size := by
  constructor
  · rintro ⟨step, small, rfl⟩
    rw [Seq.distance_advance]
    exact Nat.lt_of_le_of_lt (Nat.mod_le _ _) small
  · exact fun small => ⟨_, small, Seq.advance_distance _ _⟩

theorem Frame.spans_iff_byteAt? (f : Frame) (position : Seq) :
    f.Spans position ↔ ∃ byte, f.byteAt? position = some byte := by
  rw [spans_iff, byteAt?]
  constructor
  · exact fun small => ⟨_, if_pos small⟩
  · rintro ⟨byte, found⟩
    split at found
    · assumption
    · cases found

theorem Frame.CutFrom.byteAt? {f : Frame} {base : Seq} {data : ByteArray} (cut : f.CutFrom base data)
    (small : data.size < Seq.circle) {position : Seq} {byte : UInt8}
    (found : f.byteAt? position = some byte) :
    (⟨base, data⟩ : Frame).byteAt? position = some byte := by
  obtain ⟨place, inside, start, bytes⟩ := cut
  have spans := (f.spans_iff position).mp ((f.spans_iff_byteAt? position).mpr ⟨byte, found⟩)
  have walked : Seq.distance base position = place + Seq.distance f.start position := by
    rw [← Seq.distance_advance_of_lt base (show place + Seq.distance f.start position < Seq.circle by omega),
      ← Seq.advance_advance, ← start, Seq.advance_distance]
  rw [Frame.byteAt?, if_pos spans, bytes, Bytes.byteAt_slice, if_pos spans] at found
  rw [Frame.byteAt?, walked, if_pos (by dsimp only; omega)]
  exact found

theorem lay_apart (start : Seq) {chunks : List ByteArray} (small : streamLength chunks < Seq.circle) :
    (lay start chunks).Pairwise fun f g => ∀ position, f.Spans position → ¬ g.Spans position := by
  induction chunks generalizing start with
  | nil => exact .nil
  | cons chunk rest ih =>
    rw [streamLength_cons] at small
    refine List.pairwise_cons.mpr ⟨fun g listed position first second => ?_, ih _ (by omega)⟩
    obtain ⟨step, inside, rfl⟩ := first
    obtain ⟨other, behind, same⟩ := (lay_spans _ _ _).mp ⟨g, listed, second⟩
    have apart := congrArg (Seq.distance start) same
    dsimp only at inside apart
    rw [Seq.advance_advance, Seq.distance_advance_of_lt _ (by omega), Seq.distance_advance_of_lt _ (by omega)]
      at apart
    omega

end Block

def Segment.byteAt? (segment : Segment) (flow : FlowId) (side : Side) (position : Seq) : Option UInt8 :=
  if segment.flow = flow ∧ segment.side = side then
    (⟨segment.sequence, segment.payload⟩ : Block.Frame).byteAt? position
  else none

namespace Store

/-- Whether some blocks hold a byte for a position of a lane. -/
def Bears (items : List Item) (lane : Nat) (position : Seq) (byte : UInt8) : Prop :=
  ∃ item ∈ items, item.lane = lane ∧ item.isPayload = true ∧
    ∃ f ∈ item.frames, f.byteAt? position = some byte

theorem covers_iff_bears (items : List Item) (lane : Nat) (position : Seq) :
    Covers items lane position ↔ ∃ byte, Bears items lane position byte := by
  constructor
  · rintro ⟨item, member, inLane, payload, f, listed, spans⟩
    obtain ⟨byte, found⟩ := (f.spans_iff_byteAt? position).mp spans
    exact ⟨byte, item, member, inLane, payload, f, listed, found⟩
  · rintro ⟨byte, item, member, inLane, payload, f, listed, found⟩
    exact ⟨item, member, inLane, payload, f, listed, (f.spans_iff_byteAt? position).mpr ⟨byte, found⟩⟩

theorem Item.Sound.frames_apart {item : Item} (sound : item.Sound) {l : Layout}
    (fits : item.header.used ≤ l.capacity) :
    item.frames.Pairwise fun f g => ∀ position, f.Spans position → ¬ g.Spans position := by
  rcases sound with marker | ⟨chunks, streams⟩
  · rw [marker.frames_eq]
    exact .nil
  · have limit := l.capacity_lt
    have total := streams.streamLength_lt fits
    rw [streams.frames_eq fits]
    exact Block.lay_apart _ (by rw [Seq.circle]; omega)

variable {l : Layout} {lane : Nat} {before after : Catalog} {base : Seq} {data : ByteArray}

theorem Catalog.Ordered.eq_of_spans {cat : Catalog} (ordered : cat.Ordered l) (sound : cat.Sound)
    (spaced : Spaced cat.items) {a b : Item} (first : a ∈ cat.items) (second : b ∈ cat.items)
    (lanes : a.lane = b.lane) (payload : a.isPayload = true) (stream : b.isPayload = true)
    {position : Seq} (here : ∃ f ∈ a.frames, f.Spans position) (there : ∃ f ∈ b.frames, f.Spans position) :
    a = b := by
  by_contra other
  have apart : a.slot ≠ b.slot := fun same => other (ordered.eq_of_slot first second same)
  have clear := spaced a first b second apart payload stream lanes
  rw [Seq.Arc.clear_iff ((sound a first).arc_spec payload (ordered.fits a first)).2
    ((sound b second).arc_spec stream (ordered.fits b second)).2] at clear
  rw [← (sound a first).spans_iff payload (ordered.fits a first), Item.spans_iff] at here
  rw [← (sound b second).spans_iff stream (ordered.fits b second), Item.spans_iff] at there
  exact clear position here there

theorem Grows.not_covers {fresh : Block.Frame → Prop} (grows : Grows lane fresh before.items after.items)
    (ordered' : after.Ordered l) (sound : after.Sound)
    (spaced : Spaced after.items) {new : Item} (member : new ∈ after.items) (inLane : new.lane = lane)
    (payload : new.isPayload = true) {f : Block.Frame} (listed : f ∈ new.frames)
    (added : ∀ old ∈ before.items, old.slot = new.slot →
      ∃ more, new.frames = old.frames ++ more ∧ f ∈ more)
    {position : Seq} (spans : f.Spans position) : ¬ Covers before.items lane position := by
  rintro ⟨old, known, there, stream, g, held, spans'⟩
  obtain ⟨new', member', ext⟩ := grows.kept old known
  obtain ⟨more', frames', _⟩ := ext.frames
  have held' : g ∈ new'.frames := frames' ▸ List.mem_append_left _ held
  obtain rfl := ordered'.eq_of_spans sound spaced member member' (inLane.trans (ext.lane_eq.trans there).symm)
    payload (ext.kind.trans stream) ⟨f, listed, spans⟩ ⟨g, held', spans'⟩
  obtain ⟨more, frames, late⟩ := added old known ext.slot_eq.symm
  have apart := (sound new member).frames_apart (ordered'.fits new member)
  rw [frames] at apart
  exact (List.pairwise_append.mp apart).2.2 g held f late position spans' spans

/-- The bytes after a put that keeps the blocks apart: those before, and those of its own where there was
none. -/
theorem Grows.bears_iff (grows : Grows lane (·.CutFrom base data) before.items after.items)
    (ordered : before.Ordered l) (ordered' : after.Ordered l) (sound : after.Sound)
    (spaced : Spaced after.items) (small : data.size < Seq.circle)
    (whole : ∀ position, Covers after.items lane position ↔ Covers before.items lane position ∨
      ∃ step, step < data.size ∧ base.advance step = position) (position : Seq) (byte : UInt8) :
    Bears after.items lane position byte ↔ Bears before.items lane position byte ∨
      ¬ Covers before.items lane position ∧ (⟨base, data⟩ : Block.Frame).byteAt? position = some byte := by
  have forward {byte : UInt8} (held : Bears after.items lane position byte) :
      Bears before.items lane position byte ∨ ¬ Covers before.items lane position ∧
        (⟨base, data⟩ : Block.Frame).byteAt? position = some byte := by
    obtain ⟨new, member, inLane, payload, f, listed, found⟩ := held
    have spans := (f.spans_iff_byteAt? position).mpr ⟨byte, found⟩
    rcases grows.known new member with ⟨old, known, ext⟩ | ⟨others, _, all⟩
    · obtain ⟨more, frames, cut⟩ := ext.frames
      have split := listed
      rw [frames] at split
      rcases List.mem_append.mp split with held | late
      · exact .inl ⟨old, known, ext.lane_eq.symm.trans inLane, ext.kind.symm.trans payload, f, held, found⟩
      · refine .inr ⟨?_, (cut f late).byteAt? small found⟩
        refine grows.not_covers ordered' sound spaced member inLane payload listed
          (fun old' known' same => ?_) spans
        obtain rfl := ordered.eq_of_slot known' known (same.trans ext.slot_eq)
        exact ⟨more, frames, late⟩
    · refine .inr ⟨?_, (all f listed).byteAt? small found⟩
      exact grows.not_covers ordered' sound spaced member inLane payload listed
        (fun old known same => absurd same (others old known)) spans
  refine ⟨forward, ?_⟩
  rintro (⟨old, known, inLane, payload, f, held, found⟩ | ⟨free, found⟩)
  · obtain ⟨new, member, ext⟩ := grows.kept old known
    obtain ⟨more, frames, _⟩ := ext.frames
    exact ⟨new, member, ext.lane_eq.trans inLane, ext.kind.trans payload, f,
      frames ▸ List.mem_append_left _ held, found⟩
  · have reached := (Block.Frame.spans_iff_byteAt? _ _).mpr ⟨byte, found⟩
    obtain ⟨byte', held⟩ := (covers_iff_bears _ _ _).mp ((whole position).mpr (.inr reached))
    rcases forward held with old | ⟨_, same⟩
    · exact absurd ((covers_iff_bears _ _ _).mpr ⟨byte', old⟩) free
    · rw [found] at same
      exact Option.some.inj same ▸ held

theorem Grows.bears_other {fresh : Block.Frame → Prop} (grows : Grows lane fresh before.items after.items)
    {other : Nat} (apart : other ≠ lane) (position : Seq) (byte : UInt8) :
    Bears after.items other position byte ↔ Bears before.items other position byte := by
  constructor
  · rintro ⟨item, member, rfl, rest⟩
    exact ⟨item, (grows.others item apart).mpr member, rfl, rest⟩
  · rintro ⟨item, member, rfl, rest⟩
    exact ⟨item, (grows.others item apart).mp member, rfl, rest⟩

end Store

namespace Writing.Desk

variable {l : Layout} {config : StoreConfig} {segment : Segment} {now first : Micros} {d : Desk}
  {base : FlowId → Side → Seq} {writer : WriterFlow} {cat : Catalog}

def openBlock (d : Desk) (flow : FlowId) (side : Side) : Option Ref :=
  d.writers[flow]?.bind fun writer => (writer.sides.get side).openBlock

theorem openBlock_insert (cat' : Catalog) (known flow : FlowId) (side : Side) :
    openBlock ⟨d.writers.insert known writer, cat'⟩ flow side =
      if known = flow then (writer.sides.get side).openBlock else d.openBlock flow side := by
  rw [openBlock, FlowId.getElem?_insert]
  split
  · rfl
  · rfl

theorem noted_insert {known : FlowId} (late : first ≤ writer.lastWrite) {flow : FlowId}
    (others : known ≠ flow → ∀ other, d.writers[flow]? = some other → first ≤ other.lastWrite)
    {other : WriterFlow} (listed : (d.writers.insert known writer)[flow]? = some other) :
    first ≤ other.lastWrite := by
  rw [FlowId.getElem?_insert] at listed
  split at listed
  · obtain rfl := Option.some.inj listed
    exact late
  · next apart => exact others apart other listed

/-- A handle that writes alone, where nothing was noted before `first` and all blocks of a side lie within
half a turn from its `base` on: the blocks are apart, and the open block of each side starts last. -/
structure Quiet (l : Layout) (first : Micros) (base : FlowId → Side → Seq) (d : Desk) : Prop where
  fit : d.Fit l
  spaced : Spaced d.cat.items
  numbered : d.cat.Numbered
  counted : d.cat.nextGeneration.toNat ≤ d.cat.items.length
  stamped : ∀ item ∈ d.cat.items, first ≤ item.header.lastUpdate
  noted : ∀ (flow : FlowId) writer, d.writers[flow]? = some writer → first ≤ writer.lastWrite
  within : ∀ flow side, flow.raw.toNat < 0x80000000 →
    Bench.Within (base flow side) (FlowKey.laneOf flow side) d.cat
  leads : ∀ flow side, flow.raw.toNat < 0x80000000 →
    Bench.Leads (base flow side) (FlowKey.laneOf flow side) ⟨d.openBlock flow side, d.cat⟩

theorem elapsed_le {now first since limit : Micros} (le : first ≤ since) (soon : elapsed now first ≤ limit) :
    elapsed now since ≤ limit := by
  rw [UInt64.le_iff_toNat_le] at *
  rw [toNat_elapsed] at *
  omega

theorem Quiet.empty (ordered : Catalog.empty.Ordered l) : Quiet l first base ⟨∅, .empty⟩ where
  fit := ⟨ordered, .empty, .empty⟩
  spaced := .nil
  numbered := .empty
  counted := Nat.le_refl _
  stamped := nofun
  noted := fun flow writer known => by
    rw [Std.ExtTreeMap.getElem?_empty] at known
    cases known
  within := fun _ _ _ => nofun
  leads := fun _ _ _ => nofun

theorem Quiet.calm (quiet : d.Quiet l first base) {idle : Micros} (soon : elapsed now first ≤ idle) :
    Bench.Calm l idle now d.cat :=
  ⟨quiet.spaced, quiet.numbered, quiet.counted, fun item member => elapsed_le (quiet.stamped item member) soon⟩

theorem Quiet.steady (quiet : d.Quiet l first base) {idle : Micros} (soon : elapsed now first ≤ idle)
    (flow : FlowId) (side : Side) (checked : flow.raw.toNat < 0x80000000)
    (aimed : ∀ ref, d.openBlock flow side = some ref → ref.key.lane = FlowKey.laneOf flow side) :
    (⟨d.openBlock flow side, d.cat⟩ : Bench).Steady l idle now (base flow side)
      (FlowKey.laneOf flow side) :=
  ⟨⟨quiet.fit.ordered, quiet.fit.sound, aimed⟩, quiet.calm soon, quiet.within flow side checked,
    quiet.leads flow side checked⟩

theorem Quiet.empty_of_unknown (quiet : d.Quiet l first base)
    (soon : elapsed now first ≤ config.writerFlowTimeout) (unknown : d.known? config segment now = none)
    (checked : segment.flow.raw.toNat < 0x80000000) (side : Side) {item : Item} (member : item ∈ d.cat.items)
    (inLane : item.lane = FlowKey.laneOf segment.flow side) : item.isPayload = false := by
  by_contra payload
  rw [Bool.not_eq_false] at payload
  obtain ⟨current, found, _⟩ := quiet.leads segment.flow side checked item member inLane payload
  obtain ⟨ref, names, _⟩ := Option.bind_eq_some_iff.mp found
  obtain ⟨writer, known, _⟩ := Option.bind_eq_some_iff.mp names
  have fresh : writer.isStale now config.writerFlowTimeout = false := by
    rw [WriterFlow.isStale, decide_eq_false_iff_not, UInt64.not_lt]
    exact elapsed_le (quiet.noted _ _ known) soon
  rw [known?, known, Option.filter_some, fresh] at unknown
  cases unknown

theorem Quiet.announced (quiet : d.Quiet l first base) (started : first ≤ now)
    (soon : elapsed now first ≤ config.writerFlowTimeout)
    (found : d.announce? l config segment now = some (writer, cat)) :
    Quiet l first base ⟨d.writers.insert segment.flow { writer with lastWrite := now }, cat⟩ ∧
      ∀ lane position byte, Bears cat.items lane position byte ↔ Bears d.cat.items lane position byte := by
  have announced := quiet.fit.announced found
  have aimed := @WriterFlows.Aimed.insert _ quiet.fit.aimed segment.flow { writer with lastWrite := now } announced.aimed
  have noted (flow : FlowId) (other : WriterFlow) (known :
      (d.writers.insert segment.flow { writer with lastWrite := now })[flow]? = some other) :
      first ≤ other.lastWrite := noted_insert started (fun _ => quiet.noted flow) known
  cases announces_of found with
  | known known =>
    have before := (Option.filter_eq_some_iff.mp known).1
    have same (flow : FlowId) (side : Side) : openBlock
        ⟨d.writers.insert segment.flow { writer with lastWrite := now }, d.cat⟩ flow side =
        d.openBlock flow side := by
      rw [openBlock_insert]
      split
      · next here => rw [← here, openBlock, before, Option.bind_some]
      · rfl
    refine ⟨⟨⟨quiet.fit.ordered, quiet.fit.sound, aimed⟩, quiet.spaced, quiet.numbered, quiet.counted,
      quiet.stamped, noted, quiet.within, fun flow side small => ?_⟩, fun _ _ _ => Iff.rfl⟩
    rw [same]
    exact quiet.leads flow side small
  | @anew slot unknown next =>
    have small := quiet.fit.ordered.length_le
    have limit := l.maxBlocks.toNat_lt
    have counted := quiet.counted
    have marker := (markerFor_isMarker d.cat slot segment now).isPayload
    have stored {item : Item} (payload : item.isPayload = true) :
        item ∈ (d.cat.shelve (markerFor d.cat slot segment now)).items ↔ item ∈ d.cat.items := by
      refine Catalog.mem_file.trans ⟨fun listed => listed.elim (fun same => ?_) id, .inr⟩
      rw [same, marker] at payload
      cases payload
    have numbered : (d.cat.shelve (markerFor d.cat slot segment now)).Numbered :=
      quiet.numbered.shelve rfl (by rw [UInt64.size]; omega)
    refine ⟨⟨⟨announced.ordered, announced.sound, aimed⟩, ?_, numbered, ?_, fun item listed => ?_, noted,
      fun flow side small item listed inLane payload => ?_, fun flow side small => ?_⟩, fun _ _ _ => ?_⟩
    · refine quiet.spaced.shelve quiet.fit.ordered next fun payload => ?_
      rw [marker] at payload
      cases payload
    · rw [Catalog.shelve, Catalog.length_file, UInt64.toNat_add, UInt64.toNat_one]
      omega
    · rcases Catalog.mem_file.mp listed with rfl | old
      · exact started
      · exact quiet.stamped item old
    · exact quiet.within flow side small item ((stored payload).mp listed) inLane payload
    · by_cases here : segment.flow = flow
      · subst here
        intro item listed inLane payload
        rw [quiet.empty_of_unknown soon unknown small side ((stored payload).mp listed) inLane] at payload
        cases payload
      · have same : openBlock ⟨d.writers.insert segment.flow { WriterFlow.fresh now with lastWrite := now },
            d.cat.shelve (markerFor d.cat slot segment now)⟩ flow side = d.openBlock flow side := by
          rw [openBlock_insert, if_neg here]
        rw [same]
        exact Bench.Leads.of_behind (quiet.leads flow side small) numbered
          (fun item member _ payload => (stored payload).mpr member)
          fun item member _ payload => .inl ((stored payload).mp member)
    · constructor
      · rintro ⟨item, listed, inLane, payload, rest⟩
        exact ⟨item, (stored payload).mp listed, inLane, payload, rest⟩
      · rintro ⟨item, listed, inLane, payload, rest⟩
        exact ⟨item, (stored payload).mpr listed, inLane, payload, rest⟩

theorem Quiet.put (quiet : d.Quiet l first base) (started : first ≤ now)
    (idle : elapsed now first ≤ config.blockIdleTimeout)
    (soon : elapsed now first ≤ config.writerFlowTimeout) (checked : segment.flow.raw.toNat < 0x80000000)
    (reach : Seq.distance (base segment.flow segment.side) segment.sequence + segment.payload.size <
      Seq.halfTurn)
    (room : (d.put l config segment now).2.cat.nextSlot? l ≠ none) :
    (d.put l config segment now).2.Quiet l first base := by
  obtain ⟨_, gains⟩ := @Fit.put_spec l config segment now d quiet.fit
  have stamped := @Fit.put_lastUpdate l config segment now d quiet.fit (first ≤ ·) started quiet.stamped
  have fit := gains.fit
  rw [Desk.put] at room fit stamped ⊢
  cases found : d.announce? l config segment now with
  | none => exact quiet
  | some pair =>
    obtain ⟨writer, cat⟩ := pair
    obtain ⟨quiet', _⟩ := quiet.announced started soon found
    simp only [found] at room fit stamped ⊢
    split
    · exact quiet'
    · next some_bytes =>
      rw [if_neg some_bytes] at room fit stamped
      have own : openBlock ⟨d.writers.insert segment.flow { writer with lastWrite := now }, cat⟩
          segment.flow segment.side = (writer.sides.get segment.side).openBlock := by
        rw [openBlock_insert, if_pos rfl]
      have bench := quiet'.steady idle segment.flow segment.side checked
      rw [own] at bench
      have steady := bench (quiet.fit.bench found).aimed
      obtain ⟨_, spread⟩ := (@Writing.Bench.Fit.placeAll_spec _ config.blockIdleTimeout _ _ segment.sequence
        segment.payload 0) (quiet.fit.bench found) (Seq.advance_zero _).symm none false
      have after := @Bench.Steady.placeAll l config.blockIdleTimeout
        ⟨(writer.sides.get segment.side).openBlock, cat⟩ (firstPiece segment now writer)
        (base segment.flow segment.side) steady segment.payload 0 reach none false room
      have others {flow : FlowId} {side : Side} (small : flow.raw.toNat < 0x80000000)
          (apart : ¬ (segment.flow = flow ∧ segment.side = side)) {item : Item}
          (inLane : item.lane = FlowKey.laneOf flow side) :=
        spread.grows.others item fun same => apart
          (FlowKey.laneOf_inj checked small ((same.symm.trans inLane : (firstPiece segment now writer).lane = _)))
      have opens (flow : FlowId) (side : Side) : openBlock ⟨d.writers.insert segment.flow
          (Desk.noted segment now writer (Desk.spread l config segment now writer cat).2),
          (Desk.spread l config segment now writer cat).2.cat⟩ flow side =
          if segment.flow = flow ∧ segment.side = side then
            (Desk.spread l config segment now writer cat).2.openBlock
          else openBlock ⟨d.writers.insert segment.flow { writer with lastWrite := now }, cat⟩ flow side := by
        rw [openBlock_insert, openBlock_insert]
        by_cases here : segment.flow = flow
        · rw [if_pos here, if_pos here]
          by_cases there : segment.side = side
          · rw [if_pos ⟨here, there⟩, ← there, Desk.noted, PerSide.get_set_self]
          · rw [if_neg fun both => there both.2, Desk.noted, PerSide.get_set_of_ne _ _ (Ne.symm there)]
        · rw [if_neg here, if_neg here, if_neg fun both => here both.1]
      refine ⟨fit, after.calm.spaced, after.calm.numbered, after.calm.counted, stamped,
        fun flow other known => ?_, fun flow side small => ?_, fun flow side small => ?_⟩
      · exact noted_insert started (fun _ => quiet.noted flow) known
      · by_cases here : segment.flow = flow ∧ segment.side = side
        · obtain ⟨rfl, rfl⟩ := here
          exact after.within
        · exact fun item member inLane => quiet'.within flow side small item
            ((others small here inLane).mpr member) inLane
      · rw [opens]
        by_cases here : segment.flow = flow ∧ segment.side = side
        · rw [if_pos here]
          obtain ⟨rfl, rfl⟩ := here
          exact after.leads
        · rw [if_neg here]
          exact (quiet'.leads flow side small).of_behind after.calm.numbered
            (fun item member inLane _ => (others small here inLane).mp member)
            fun item member inLane _ => .inl ((others small here inLane).mpr member)

theorem Quiet.put_bears_iff (quiet : d.Quiet l first base) (quiet' : (d.put l config segment now).2.Quiet l first base)
    (checked : segment.flow.raw.toNat < 0x80000000) (short : segment.payload.size < Seq.circle)
    (room : (d.put l config segment now).2.cat.nextSlot? l ≠ none) {flow : FlowId} {side : Side}
    (small : flow.raw.toNat < 0x80000000) (position : Seq) (byte : UInt8) :
    Bears (d.put l config segment now).2.cat.items (FlowKey.laneOf flow side) position byte ↔
      Bears d.cat.items (FlowKey.laneOf flow side) position byte ∨
        ¬ Covers d.cat.items (FlowKey.laneOf flow side) position ∧
          segment.byteAt? flow side position = some byte := by
  obtain ⟨count, gains⟩ := @Fit.put_spec l config segment now d quiet.fit
  have all : count = segment.payload.size := by
    by_contra part
    exact room (gains.whole (Nat.lt_of_le_of_ne gains.inside part))
  subst all
  rw [Segment.byteAt?]
  by_cases here : segment.flow = flow ∧ segment.side = side
  · rw [if_pos here]
    obtain ⟨rfl, rfl⟩ := here
    have lane : segment.key.lane = FlowKey.laneOf segment.flow segment.side := FlowKey.lane_pack ..
    rw [← lane]
    exact gains.grows.bears_iff quiet.fit.ordered gains.fit.ordered gains.fit.sound quiet'.spaced short
      gains.covers position byte
  · rw [if_neg here, gains.grows.bears_other fun same => here
      (FlowKey.laneOf_inj checked small ((same.trans (FlowKey.lane_pack ..)).symm))]
    simp only [reduceCtorEq, and_false, or_false]

theorem Quiet.put_covered {a : Attachment} {r : Region} {cat : Catalog}
    (quiet : Quiet a.layout first base ⟨a.writers, cat⟩) (carries : Carries a.layout r cat)
    (idle : elapsed now first ≤ a.config.blockIdleTimeout)
    (soon : elapsed now first ≤ a.config.writerFlowTimeout) (checked : segment.flow.raw.toNat < 0x80000000)
    (some_bytes : 0 < segment.payload.size)
    (reach : Seq.distance (base segment.flow segment.side) segment.sequence + segment.payload.size <
      Seq.halfTurn)
    (stored : ∀ step, step < segment.payload.size →
      Covers cat.items segment.key.lane (segment.sequence.advance step)) :
    ∃ a', Attachment.put segment now (a, r) = .ok .retransmission (a', r) := by
  have lane : segment.key.lane = FlowKey.laneOf segment.flow segment.side := FlowKey.lane_pack ..
  cases unknown : known? a.config segment now ⟨a.writers, cat⟩ with
  | none =>
    obtain ⟨item, member, inLane, payload, _⟩ := stored 0 some_bytes
    rw [quiet.empty_of_unknown soon unknown checked segment.side member (inLane.trans lane)] at payload
    cases payload
  | some writer =>
    have known := (Option.filter_eq_some_iff.mp unknown).1
    have own : openBlock ⟨a.writers, cat⟩ segment.flow segment.side =
        (writer.sides.get segment.side).openBlock := by
      rw [openBlock, known, Option.bind_some]
    have bench := quiet.steady idle segment.flow segment.side checked
    rw [own] at bench
    have steady := bench fun ref names => quiet.fit.aimed _ _ _ ref known names
    have held : Holds a.layout ⟨r, Catalog.countersIn r.bytes⟩ cat := carries
    obtain ⟨own', placed⟩ := @Placing.placeFrom_covered a.layout a.config.blockIdleTimeout
      ⟨(writer.sides.get segment.side).openBlock, cat⟩ (firstPiece segment now writer) _
      (base segment.flow segment.side) held steady segment.payload 0 reach
      (by rw [lane] at stored; exact stored) false
    rw [Bool.false_or, decide_eq_true some_bytes] at placed
    have announced : Session.announce segment now (a, ⟨r, Catalog.countersIn r.bytes⟩) =
        .ok (some writer) (a, ⟨r, Catalog.countersIn r.bytes⟩) := by
      rw [known?] at unknown
      rw [Session.announce, Work.bind_ok (HoldWith.own_run _ _)]
      simp only [unknown]
      rfl
    have ran : ∃ a', putHeld segment now (a, ⟨r, Catalog.countersIn r.bytes⟩) =
        .ok Outcome.retransmission (a', ⟨r, Catalog.countersIn r.bytes⟩) := by
      rw [putHeld, Work.bind_ok announced]
      dsimp only
      rw [Work.bind_ok (Session.setWriter_run _ _), if_neg (Nat.ne_of_gt some_bytes),
        Work.bind_ok (HoldWith.own_run _ _)]
      refine ⟨_, @Session.placing_ok _ _ _ _ _ _ _ Outcome.retransmission own' _ ?_⟩
      rw [PerSide.get_set_self]
      exact placed
    obtain ⟨a', ran⟩ := ran
    refine ⟨a', ?_⟩
    rw [Attachment.put, Work.bind_ok (Work.get_run _)]
    exact carries.runWith_ok ran

theorem Quiet.covers_of_retransmission (quiet : d.Quiet l first base)
    (room : (d.put l config segment now).2.cat.nextSlot? l ≠ none)
    (outcome : (d.put l config segment now).1 = .retransmission) {step : Nat}
    (small : step < segment.payload.size) :
    Covers d.cat.items segment.key.lane (segment.sequence.advance step) := by
  obtain ⟨count, gains⟩ := @Fit.put_spec l config segment now d quiet.fit
  have all : count = segment.payload.size := by
    by_contra part
    exact room (gains.whole (Nat.lt_of_le_of_ne gains.inside part))
  have grows := @Fit.put_unstored_grows l config segment now d quiet.fit (by rw [outcome]; rfl)
  have held := (gains.covers (segment.sequence.advance step)).mpr (.inr ⟨step, all ▸ small, rfl⟩)
  rcases grows.covers_or held with old | ⟨_, none, _⟩
  · exact old
  · exact none.elim

end Writing.Desk

theorem Store.Catalog.swept_of_busy {cat : Catalog} {idle now : Micros}
    (busy : ∀ item ∈ cat.items, item.header.expired now idle = false) : cat.swept idle now = cat := by
  have same : cat.items.map (Item.swept idle now) = cat.items := by
    conv_rhs => rw [← List.map_id cat.items]
    refine List.map_congr_left fun item member => ?_
    rw [Item.swept, Item.isIdle, busy item member, Bool.and_false, if_neg Bool.false_ne_true]
    rfl
  rw [swept, same]

theorem Sweep.keepFresh_of_fresh {writers : WriterFlows} {now timeout : Micros}
    (fresh : ∀ (flow : FlowId) writer, writers[flow]? = some writer → writer.isStale now timeout = false) :
    keepFresh writers now timeout = writers := by
  refine Std.ExtTreeMap.ext_getElem? fun flow => ?_
  rw [keepFresh, Std.ExtTreeMap.getElem?_filter']
  cases known : writers[flow]? with
  | none => rfl
  | some writer =>
    rw [Option.filter_some, fresh flow writer known]
    rfl

namespace Commons

/-- A move of a run in which one handle writes, nothing is taken away, and flows are not forgotten. -/
def Move.Adds (writer : Nat) : Move → Prop
  | .operate index (.put _ _) => index = writer
  | .operate _ (.removeFlow _) | .operate _ (.erase _ _) => False
  | _ => True

def Move.time? : Move → Option Micros
  | .attach _ _ => none
  | .operate _ operation => operation.time?

def HasRoom (c : Commons) : Prop := ∀ a ∈ c.handles,
  (Catalog.itemsIn a.layout c.bytes).length < a.layout.maxBlocks.toNat

/-- A move while nothing times out: it looks at the clock no longer after `first` than every timeout of
every handle, puts go through the handle `writer`, their segments lie within half a turn from `base` on,
and some block slot stays free. -/
structure Accretes (first : Micros) (base : FlowId → Side → Seq) (writer : Nat) (c : Commons)
    (move : Move) : Prop where
  adds : move.Adds writer
  inTime : ∀ now, move.time? = some now → first ≤ now ∧ ∀ a ∈ c.handles,
    elapsed now first ≤ a.config.blockIdleTimeout ∧ elapsed now first ≤ a.config.writerFlowTimeout
  put : ∀ index segment now, move = .operate index (.put segment now) →
    index < c.handles.length ∧ segment.flow.raw.toNat < 0x80000000 ∧
      Seq.distance (base segment.flow segment.side) segment.sequence + segment.payload.size < Seq.halfTurn
  room : (c.step move).HasRoom

def Move.segment? : Move → Option Segment
  | .operate _ (.put segment _) => some segment
  | _ => none

/-- The byte that the first of some puts brought for a position of a side. -/
def firstByte (moves : List Move) (flow : FlowId) (side : Side) (position : Seq) : Option UInt8 :=
  (moves.filterMap Move.segment?).findSome? fun segment => segment.byteAt? flow side position

def writersAt (c : Commons) (index : Nat) : WriterFlows := (c.handles[index]?.map Attachment.writers).getD ∅

variable {l : Layout} {c : Commons} {cat : Catalog} {first : Micros} {base : FlowId → Side → Seq}
  {writer : Nat} {move : Move}

theorem Carrying.length_lt (carrying : Carrying l c cat) (room : c.HasRoom) {a : Attachment}
    (attached : a ∈ c.handles) : cat.items.length < l.maxBlocks.toNat := by
  have free := room a attached
  rw [(carrying.seen attached).itemsIn_eq, (carrying.tidy a attached).layout] at free
  exact free

theorem effect_still {a : Attachment} {index : Nat} {operation : Operation}
    (quiet : Desk.Quiet l first base ⟨c.writersAt writer, cat⟩)
    (adds : (Move.operate index operation).Adds writer) (other : ∀ segment now, operation ≠ .put segment now)
    (inTime : ∀ now, operation.time? = some now → elapsed now first ≤ a.config.blockIdleTimeout ∧
      elapsed now first ≤ a.config.writerFlowTimeout) :
    (operation.effect a cat).2 = cat ∧
      (a.writers = c.writersAt writer → (operation.effect a cat).1.writers = a.writers) := by
  cases operation with
  | put segment now => exact absurd rfl (other segment now)
  | removeFlow flow => exact adds.elim
  | erase ref now => exact adds.elim
  | sweep now =>
    obtain ⟨idle, soon⟩ := inTime now rfl
    refine ⟨Catalog.swept_of_busy fun item member => (quiet.calm idle).not_expired member, fun same => ?_⟩
    refine Sweep.keepFresh_of_fresh fun flow writer known => ?_
    rw [WriterFlow.isStale, decide_eq_false_iff_not, UInt64.not_lt]
    exact Desk.elapsed_le (quiet.noted flow writer (same ▸ known)) soon
  | nextMarker | firstFrom | next | occupancy => exact ⟨rfl, fun _ => rfl⟩

theorem writersAt_attach (carrying : Carrying l c cat) (handle : RegionHandle) (config : StoreConfig) :
    (c.step (.attach handle config)).writersAt writer = c.writersAt writer := by
  rcases (@Attachment.attach_ok _ _ handle _ _ config) carrying.carries with
    ⟨fault, failed⟩ | ⟨config', found, _, _⟩
  · simp only [Commons.step, failed]
  · simp only [Commons.step, found, writersAt]
    rw [List.getElem?_append]
    split
    · rfl
    · next beyond =>
      rw [List.getElem?_eq_none (Nat.le_of_not_lt beyond)]
      cases writer - c.handles.length <;> rfl

theorem writersAt_operate {a : Attachment} {index : Nat} (attached : c.handles[index]? = some a)
    (operation : Operation) {bytes : SparseBytes}
    (stepped : c.step (.operate index operation) = ⟨bytes, c.handles.set index (operation.effect a cat).1⟩) :
    (c.step (.operate index operation)).writersAt writer =
      if index = writer then (operation.effect a cat).1.writers else c.writersAt writer := by
  rw [stepped, writersAt, List.getElem?_set]
  split
  · next same =>
    subst same
    rw [if_pos (List.getElem?_eq_some_iff.mp attached).1]
    rfl
  · rfl

theorem Carrying.accrete_put (carrying : Carrying l c cat)
    (quiet : Desk.Quiet l first base ⟨c.writersAt writer, cat⟩) {segment : Segment} {now : Micros}
    (accretes : c.Accretes first base writer (.operate writer (.put segment now)))
    {a : Attachment} (attached : c.handles[writer]? = some a) :
    Desk.Quiet l first base ⟨((Operation.put segment now).effect a cat).1.writers,
        ((Operation.put segment now).effect a cat).2⟩ ∧
      ∀ flow side, flow.raw.toNat < 0x80000000 → ∀ position byte,
        Bears ((Operation.put segment now).effect a cat).2.items (FlowKey.laneOf flow side) position byte ↔
          Bears cat.items (FlowKey.laneOf flow side) position byte ∨
            ¬ Covers cat.items (FlowKey.laneOf flow side) position ∧
              segment.byteAt? flow side position = some byte := by
  obtain ⟨bytes, stepped, carrying'⟩ := carrying.operate attached (.put segment now)
  have member := List.mem_of_getElem? attached
  have layout := (carrying.tidy a member).layout
  obtain ⟨_, checked, reach⟩ := accretes.put writer segment now rfl
  obtain ⟨started, inTime⟩ := accretes.inTime now rfl
  obtain ⟨idle, soon⟩ := inTime a member
  have free := carrying'.length_lt accretes.room (by
    rw [stepped]
    exact List.mem_set (List.getElem?_eq_some_iff.mp attached).1 _)
  have own : c.writersAt writer = a.writers := by
    rw [writersAt, attached, Option.map_some, Option.getD_some]
  rw [own] at quiet
  subst layout
  have room : (Desk.put a.layout a.config segment now ⟨a.writers, cat⟩).2.cat.nextSlot? a.layout ≠ none :=
    fun full => Nat.ne_of_lt free (carrying'.carries.ordered.nextSlot?_eq_none_iff.mp full)
  have after := quiet.put started idle soon checked reach room
  refine ⟨after, fun flow side small position byte => ?_⟩
  exact quiet.put_bears_iff after checked (by rw [Seq.circle]; rw [Seq.halfTurn] at reach; omega) room small
    position byte

/-- One move while nothing times out: what the store holds afterwards is what it held, and what a put
brings where nothing was. -/
theorem Carrying.accrete (carrying : Carrying l c cat)
    (quiet : Desk.Quiet l first base ⟨c.writersAt writer, cat⟩) (accretes : c.Accretes first base writer move) :
    ∃ cat', Carrying l (c.step move) cat' ∧ Desk.Quiet l first base ⟨(c.step move).writersAt writer, cat'⟩ ∧
      ∀ flow side, flow.raw.toNat < 0x80000000 → ∀ position byte,
        Bears cat'.items (FlowKey.laneOf flow side) position byte ↔
          Bears cat.items (FlowKey.laneOf flow side) position byte ∨
            ¬ Covers cat.items (FlowKey.laneOf flow side) position ∧
              move.segment?.bind (·.byteAt? flow side position) = some byte := by
  have unchanged {lane : Nat} {position : Seq} {byte : UInt8} {held : Prop} :
      Bears cat.items lane position byte ↔ Bears cat.items lane position byte ∨
        held ∧ (none : Option UInt8) = some byte := by
    simp only [reduceCtorEq, and_false, or_false]
  rcases move with ⟨handle, config⟩ | ⟨index, operation⟩
  · refine ⟨cat, (carrying.attach handle config).2, ?_, fun _ _ _ _ _ => unchanged⟩
    rw [writersAt_attach carrying]
    exact quiet
  cases attached : c.handles[index]? with
  | none =>
    have idle : c.step (.operate index operation) = c := by simp only [Commons.step, attached]
    rw [idle]
    refine ⟨cat, carrying, quiet, fun _ _ _ _ _ => ?_⟩
    cases operation with
    | put segment now =>
      have inside := (accretes.put index segment now rfl).1
      rw [List.getElem?_eq_none_iff] at attached
      omega
    | _ => exact unchanged
  | some a =>
    obtain ⟨bytes, stepped, carrying'⟩ := carrying.operate attached operation
    refine ⟨_, carrying', ?_⟩
    rw [writersAt_operate attached operation stepped]
    by_cases put : ∃ segment now, operation = .put segment now
    · obtain ⟨segment, now, rfl⟩ := put
      obtain rfl : index = writer := accretes.adds
      rw [if_pos rfl]
      exact carrying.accrete_put quiet accretes attached
    · have other : ∀ segment now, operation ≠ .put segment now := fun segment now same => put ⟨segment, now, same⟩
      obtain ⟨still, kept⟩ := effect_still quiet accretes.adds other fun now looks =>
        (accretes.inTime now looks).2 a (List.mem_of_getElem? attached)
      rw [still]
      refine ⟨?_, fun _ _ _ _ _ => ?_⟩
      · split
        · next same =>
          have own : a.writers = c.writersAt writer := by
            rw [writersAt, ← same, attached, Option.map_some, Option.getD_some]
          rw [kept own, own]
          exact quiet
        · exact quiet
      · cases operation with
        | put segment now => exact absurd rfl (other segment now)
        | _ => exact unchanged

theorem Carrying.accrete_run (carrying : Carrying l c cat) (nothing : cat = .empty)
    (unknown : c.writersAt writer = ∅) (moves : List Move)
    (accretes : ∀ count move, moves[count]? = some move →
      (c.run (moves.take count)).Accretes first base writer move) (count : Nat) :
    ∃ cat', Carrying l (c.run (moves.take count)) cat' ∧
      Desk.Quiet l first base ⟨(c.run (moves.take count)).writersAt writer, cat'⟩ ∧
      ∀ flow side, flow.raw.toNat < 0x80000000 → ∀ position byte,
        Bears cat'.items (FlowKey.laneOf flow side) position byte ↔
          firstByte (moves.take count) flow side position = some byte := by
  subst nothing
  induction count with
  | zero =>
    refine ⟨.empty, carrying, ?_, fun _ _ _ _ _ => ?_⟩
    · rw [List.take_zero, show c.run [] = c from rfl, unknown]
      exact .empty carrying.carries.ordered
    · exact iff_of_false (fun ⟨_, missing, _⟩ => absurd missing List.not_mem_nil) nofun
  | succ count ih =>
    obtain ⟨cat', carrying', quiet, held⟩ := ih
    cases next : moves[count]? with
    | none =>
      rw [List.take_add_one, next, Option.toList_none, List.append_nil]
      exact ⟨cat', carrying', quiet, held⟩
    | some move =>
      obtain ⟨cat'', carrying'', quiet', added⟩ := carrying'.accrete quiet (accretes count move next)
      rw [Commons.run_take_succ next]
      refine ⟨cat'', carrying'', quiet', fun flow side checked position byte => ?_⟩
      rw [added flow side checked, held flow side checked, covers_iff_bears]
      simp only [held flow side checked]
      have split : firstByte (moves.take (count + 1)) flow side position =
          (firstByte (moves.take count) flow side position).or
            (move.segment?.bind (·.byteAt? flow side position)) := by
        rw [List.take_add_one, next, Option.toList_some, firstByte, firstByte, List.filterMap_append,
          List.findSome?_append]
        cases brought : move.segment? with
        | none =>
          rw [List.filterMap_cons_none brought]
          rfl
        | some segment =>
          rw [List.filterMap_cons_some brought, List.findSome?_cons]
          rw [Option.bind_some]
          cases segment.byteAt? flow side position with
          | none => rfl
          | some byte => rfl
      rw [split]
      cases firstByte (moves.take count) flow side position with
      | none => simp
      | some old => simp

/-- Stored exactly once. While nothing times out, the payload blocks of every side keep apart, they hold
just the bytes that were put, each as the first put that brought it did, and a put is a retransmission
just if it brings nothing new; then it writes nothing. -/
theorem Fresh.stores_each_once {start : Commons} (fresh : start.Fresh) {moves : List Move}
    (accretes : ∀ count move, moves[count]? = some move →
      (start.run (moves.take count)).Accretes first base writer move) (count : Nat) :
    (start.run (moves.take count)).IsApart ∧
    (∀ a ∈ (start.run (moves.take count)).handles, ∀ flow side, flow.raw.toNat < 0x80000000 →
      ∀ position byte, Bears (Catalog.itemsIn a.layout (start.run (moves.take count)).bytes)
          (FlowKey.laneOf flow side) position byte ↔
        firstByte (moves.take count) flow side position = some byte) ∧
    ∀ segment now, moves[count]? = some (.operate writer (.put segment now)) → 0 < segment.payload.size →
      ∃ a outcome a' r', (start.run (moves.take count)).handles[writer]? = some a ∧
        Attachment.put segment now (a, ⟨a.handle, (start.run (moves.take count)).bytes⟩) =
          .ok outcome (a', r') ∧
        (outcome = .retransmission ↔ ∀ step, step < segment.payload.size →
          Covers (Catalog.itemsIn a.layout (start.run (moves.take count)).bytes) segment.key.lane
            (segment.sequence.advance step)) ∧
        (outcome = .retransmission → r' = ⟨a.handle, (start.run (moves.take count)).bytes⟩) := by
  obtain ⟨l, carrying⟩ := fresh.carrying
  have unknown : start.writersAt writer = ∅ := by
    obtain ⟨there, made⟩ := fresh
    obtain ⟨_, _, same, _, _⟩ := Attachment.format_ok there made
    rw [writersAt, List.getElem?_singleton]
    split
    · rw [same]
      rfl
    · rfl
  obtain ⟨cat, carrying', quiet, held⟩ := carrying.accrete_run rfl unknown moves accretes count
  refine ⟨carrying'.isApart quiet.spaced, fun a attached flow side checked position byte => ?_,
    fun segment now next some_bytes => ?_⟩
  · rw [(carrying'.seen attached).itemsIn_eq]
    exact held flow side checked position byte
  · have allowed := accretes count _ next
    obtain ⟨inside, checked, reach⟩ := allowed.put writer segment now rfl
    obtain ⟨started, inTime⟩ := allowed.inTime now rfl
    generalize start.run (moves.take count) = c at *
    have attached := List.getElem?_eq_getElem inside
    generalize c.handles[writer] = a at attached
    have member := List.mem_of_getElem? attached
    have seen := carrying'.seen member
    obtain ⟨idle, soon⟩ := inTime a member
    obtain ⟨rfl, _, _⟩ := carrying'.tidy a member
    obtain ⟨bytes, stepped, carrying''⟩ := carrying'.operate attached (.put segment now)
    have free := carrying''.length_lt allowed.room (by
      rw [stepped]
      exact List.mem_set inside _)
    have room : (Desk.put a.layout a.config segment now ⟨a.writers, cat⟩).2.cat.nextSlot? a.layout ≠ none :=
      fun full => Nat.ne_of_lt free (carrying''.carries.ordered.nextSlot?_eq_none_iff.mp full)
    have own : c.writersAt writer = a.writers := by
      rw [writersAt, attached, Option.map_some, Option.getD_some]
    rw [own] at quiet
    obtain ⟨r', ran, _⟩ := Attachment.put_run seen segment now
    refine ⟨a, _, _, r', attached, ran, ?_, fun again => ?_⟩
    · rw [seen.itemsIn_eq]
      refine ⟨fun again step small => quiet.covers_of_retransmission room again small, fun stored => ?_⟩
      obtain ⟨a', same⟩ := quiet.put_covered seen idle soon checked some_bytes reach stored
      rw [ran] at same
      exact (EStateM.Result.ok.inj same).1
    · have stored := fun step small => @Desk.Quiet.covers_of_retransmission _ _ _ _ _ _ _ quiet room again step small
      obtain ⟨a', same⟩ := quiet.put_covered seen idle soon checked some_bytes reach stored
      rw [ran] at same
      exact (Prod.mk.inj (EStateM.Result.ok.inj same).2).2

theorem Carrying.hasRoom (carrying : Carrying l c cat) (free : cat.items.length < l.maxBlocks.toNat) :
    c.HasRoom := by
  intro a attached
  rw [(carrying.seen attached).itemsIn_eq, (carrying.tidy a attached).layout]
  exact free

/-- Two bytes just behind the turn of the numbers, and four around it that reach into them. -/
def astride : List Operation := [
  .put ⟨⟨7⟩, .source, ⟨1⟩, ⟨#[3, 4]⟩⟩ 1000000,
  .put ⟨⟨7⟩, .source, ⟨0xFFFFFFFE⟩, ⟨#[0, 1, 2, 9]⟩⟩ 1000001]

/-- The fourth byte of the second segment is the first of the first one, and stays so. -/
theorem stores_each_once_astride : ∃ start : Commons, start.Fresh ∧
    (∀ count move, (astride.map (.operate 0))[count]? = some move →
      (start.run ((astride.map (.operate 0)).take count)).Accretes 1000000 (fun _ _ => ⟨0xFFFFFFFE⟩) 0 move) ∧
    (start.run ((astride.map (.operate 0)).take 2)).IsApart ∧
    ∀ a ∈ (start.run ((astride.map (.operate 0)).take 2)).handles, ∀ byte,
      Bears (Catalog.itemsIn a.layout (start.run ((astride.map (.operate 0)).take 2)).bytes)
        (FlowKey.laneOf ⟨7⟩ .source) ⟨1⟩ byte ↔ byte = 3 := by
  obtain ⟨start, fresh, handles, carrying⟩ :=
    @Commons.Fresh.of_config { blockCapacity := 64, maxBlocks := 8 } _ rfl rfl
  have accretes : ∀ count move, (astride.map (.operate 0))[count]? = some move →
      (start.run ((astride.map (.operate 0)).take count)).Accretes 1000000 (fun _ _ => ⟨0xFFFFFFFE⟩) 0
        move := by
    intro count move next
    have reached := (carrying.alone handles (astride.take count)).1
    have stepped := (carrying.alone handles (astride.take (count + 1))).2
    rw [List.map_take] at reached stepped
    have one_more : (start.run ((astride.map (.operate 0)).take count)).step move =
        start.run ((astride.map (.operate 0)).take (count + 1)) := by
      rw [List.take_add_one, next, Option.toList_some, Commons.run, Commons.run, List.foldl_concat]
    have room : ((start.run ((astride.map (.operate 0)).take count)).step move).HasRoom := by
      rw [one_more]
      refine stepped.hasRoom ?_
      rcases count with _ | _ | count
      · decide +kernel
      · decide +kernel
      · cases next
    have inTime (now : Micros) (looks : move.time? = some now) : 1000000 ≤ now ∧
        ∀ a ∈ (start.run ((astride.map (.operate 0)).take count)).handles,
          elapsed now 1000000 ≤ a.config.blockIdleTimeout ∧
            elapsed now 1000000 ≤ a.config.writerFlowTimeout := by
      rw [reached]
      rcases count with _ | _ | count
      · obtain rfl := Option.some.inj next
        obtain rfl := Option.some.inj looks
        exact ⟨by decide, fun a listed => by rw [List.mem_singleton.mp listed]; decide +kernel⟩
      · obtain rfl := Option.some.inj next
        obtain rfl := Option.some.inj looks
        exact ⟨by decide, fun a listed => by rw [List.mem_singleton.mp listed]; decide +kernel⟩
      · cases next
    refine ⟨?_, inTime, fun index segment now same => ?_, room⟩
    · rcases count with _ | _ | count
      · obtain rfl := Option.some.inj next
        exact rfl
      · obtain rfl := Option.some.inj next
        exact rfl
      · cases next
    · subst same
      rw [reached]
      rcases count with _ | _ | count
      · obtain ⟨rfl, put⟩ := Move.operate.inj (Option.some.inj next)
        obtain ⟨rfl, _⟩ := Operation.put.inj put
        decide +kernel
      · obtain ⟨rfl, put⟩ := Move.operate.inj (Option.some.inj next)
        obtain ⟨rfl, _⟩ := Operation.put.inj put
        decide +kernel
      · cases next
  obtain ⟨apart, holds, _⟩ := fresh.stores_each_once accretes 2
  refine ⟨start, fresh, accretes, apart, fun a attached byte => ?_⟩
  rw [holds a attached ⟨7⟩ .source (by decide)]
  have first : firstByte ((astride.map (.operate 0)).take 2) ⟨7⟩ .source ⟨1⟩ = some 3 := by decide +kernel
  rw [first, Option.some.injEq, eq_comm]

end Commons

end Reassembly
