import Reassembly.Proofs.Arrivals
import Reassembly.Proofs.Gathering
import Reassembly.Proofs.Prefixes
import Reassembly.Proofs.Telling

/-!
What is put in order and not told yet. Of each side of a flow these are the bytes from some position on,
fewer than half a circle of them; the store holds just these, each once, and every marker announces bytes
that were written no earlier than the marker.
-/

namespace Reassembly

open Store Reading Delivery Writing

/-- For each side of each flow the bytes that are to be told, and the position of the first of them. -/
structure Backlog where
  next : FlowId → Side → Seq
  bytes : FlowId → Side → ByteArray

namespace Backlog

def stream? (b : Backlog) (flow : FlowId) (side : Side) : Option Stream :=
  if fits : flow.raw.toNat < 0x80000000 ∧ 0 < (b.bytes flow side).size ∧
      (b.bytes flow side).size < Seq.halfTurn then
    some ⟨b.next flow side, b.bytes flow side, fits.2.1, fits.2.2⟩
  else none

def traffic (b : Backlog) : Traffic where
  stream? := b.stream?
  checked flow side known := by
    rw [stream?] at known
    split at known
    · next fits => exact fits.1
    · cases known

def add (b : Backlog) (flow : FlowId) (side : Side) (data : ByteArray) : Backlog :=
  { b with bytes := fun other part =>
      if other = flow ∧ part = side then b.bytes other part ++ data else b.bytes other part }

def drop (b : Backlog) (count : FlowId → Side → Nat) : Backlog where
  next flow side := (b.next flow side).advance (count flow side)
  bytes flow side := (b.bytes flow side).extract (count flow side) (b.bytes flow side).size

variable {b : Backlog} {flow : FlowId} {side : Side} {stream : Stream} {data : ByteArray}

theorem stream?_eq_some : b.stream? flow side = some stream ↔ flow.raw.toNat < 0x80000000 ∧
    stream.initial = b.next flow side ∧ stream.bytes = b.bytes flow side := by
  rw [stream?]
  split
  · next fits =>
    rw [Option.some.injEq]
    constructor
    · rintro rfl
      exact ⟨fits.1, rfl, rfl⟩
    · rintro ⟨_, initial, bytes⟩
      cases stream
      simp_all
  · next misfits =>
    refine iff_of_false nofun fun ⟨checked, _, bytes⟩ => misfits ⟨checked, ?_⟩
    rw [← bytes]
    exact ⟨stream.some, stream.short⟩

theorem exists_stream (checked : flow.raw.toNat < 0x80000000) (some : 0 < (b.bytes flow side).size)
    (short : (b.bytes flow side).size < Seq.halfTurn) : ∃ stream, b.stream? flow side = .some stream :=
  ⟨_, dif_pos ⟨checked, some, short⟩⟩

theorem add_self : (b.add flow side data).bytes flow side = b.bytes flow side ++ data := if_pos ⟨rfl, rfl⟩

theorem size_drop (b : Backlog) (count : FlowId → Side → Nat) (flow : FlowId) (side : Side) :
    ((b.drop count).bytes flow side).size = (b.bytes flow side).size - count flow side := by
  rw [drop, ByteArray.size_extract]
  omega

theorem add_other {other : FlowId} {part : Side} (apart : ¬ (other = flow ∧ part = side)) :
    (b.add flow side data).bytes other part = b.bytes other part := if_neg apart

/-- What the store holds of a backlog: its bytes, each once, and markers for them that are not younger. -/
structure Waits (b : Backlog) (items : List Item) : Prop where
  short : ∀ flow side, flow.raw.toNat < 0x80000000 → (b.bytes flow side).size < Seq.halfTurn
  spaced : Spaced items
  cuts : b.traffic.Cuts items
  covers : ∀ flow side, flow.raw.toNat < 0x80000000 → ∀ position,
    Covers items (FlowKey.laneOf flow side) position ↔
      ∃ step, step < (b.bytes flow side).size ∧ (b.next flow side).advance step = position
  backed : ∀ marker ∈ items, marker.isPayload = false → ∃ block ∈ items, block.lane = marker.lane ∧
    block.isPayload = true ∧ (∃ f ∈ block.frames, f.Spans marker.start) ∧
      marker.header.lastUpdate ≤ block.header.lastUpdate

end Backlog

theorem Traffic.Cuts.mono {t t' : Traffic} {items : List Item} (cuts : t.Cuts items)
    (wider : ∀ flow side stream f, t.stream? flow side = some stream → stream.Cuts f →
      ∃ stream', t'.stream? flow side = some stream' ∧ stream'.Cuts f) : t'.Cuts items := by
  intro item member f present
  obtain ⟨flow, side, stream, known, lane, cut⟩ := cuts item member f present
  obtain ⟨stream', known', cut'⟩ := wider flow side stream f known cut
  exact ⟨flow, side, stream', known', lane, cut'⟩

theorem FlowKey.exists_lane (key : FlowKey) : ∃ flow side, flow.raw.toNat < 0x80000000 ∧
    key.lane = FlowKey.laneOf flow side := by
  refine ⟨key.flow, key.side, key.flow_checked, ?_⟩
  have same := (FlowKey.lane_eq_iff key (.pack key.flow key.side ⟨0⟩)).mpr
    ⟨(flow_pack _ _ key.flow_checked).symm, (side_pack _ _ key.flow_checked).symm⟩
  rw [same, lane_pack]

theorem Block.Frame.CutFrom.append {base : Seq} {front : ByteArray} {f : Block.Frame}
    (cut : f.CutFrom base front) (back : ByteArray) : f.CutFrom base (front ++ back) := by
  obtain ⟨place, fits, start, data⟩ := cut
  refine ⟨place, by rw [ByteArray.size_append]; omega, start, data.trans ?_⟩
  refine Bytes.ext_byteAt ?_ fun step => ?_
  · rw [Bytes.size_slice, Bytes.size_slice, ByteArray.size_append]
    omega
  · rw [Bytes.byteAt_slice, Bytes.byteAt_slice]
    split
    · rw [Bytes.byteAt_append, if_pos (by omega)]
    · rfl

theorem Block.Frame.cutFrom_append (base : Seq) (front back : ByteArray) :
    (⟨base.advance front.size, back⟩ : Block.Frame).CutFrom base (front ++ back) := by
  refine ⟨front.size, by rw [ByteArray.size_append], rfl, ?_⟩
  have middle := Block.slice_middle front back .empty
  rw [ByteArray.append_empty] at middle
  exact middle.symm

theorem Store.Grows.covers_other {lane other : Nat} {fresh : Block.Frame → Prop} {before after : List Item}
    (grows : Grows lane fresh before after) (apart : other ≠ lane) (position : Seq) :
    Covers after other position ↔ Covers before other position := by
  constructor
  · rintro ⟨item, member, rfl, held⟩
    exact ⟨item, (grows.others item apart).mpr member, rfl, held⟩
  · exact grows.covers

namespace Backlog.Waits

variable {l : Layout} {b : Backlog} {cat : Catalog} {now : Micros}

theorem swept (waits : b.Waits cat.items) (sound : cat.Sound)
    (past : ∀ item ∈ cat.items, item.header.lastUpdate ≤ now) (idle : Micros) :
    b.Waits (cat.swept idle now).items := by
  refine ⟨waits.short, waits.spaced.swept idle now, waits.cuts.swept idle now,
    fun flow side checked position => ?_, fun marker listed kind => ?_⟩
  · rw [covers_swept]
    exact waits.covers flow side checked position
  · obtain ⟨old, known, rfl⟩ := List.mem_map.mp listed
    have stays : old.swept idle now = old := by
      have kind : old.isPayload = false := by
        rw [Item.isPayload, Item.kind_swept] at kind
        exact kind
      rcases sound old known with marker | ⟨chunks, streams⟩
      · rw [Item.swept, Item.isIdle, marker.complete]
        rfl
      · rw [streams.isPayload] at kind
        cases kind
    rw [stays] at kind ⊢
    obtain ⟨block, member, lane, payload, spans, late⟩ := waits.backed old known kind
    refine ⟨block.swept idle now, List.mem_map_of_mem member, ?_, ?_, ?_, ?_⟩
    · rw [Item.lane, Item.key, Item.entry_swept]
      exact lane
    · rw [Item.isPayload, Item.kind_swept]
      exact payload
    · rw [Item.frames_swept]
      exact spans
    · rw [Item.swept]
      split
      · exact past old known
      · exact late

theorem covers_start (waits : b.Waits cat.items) (sound : cat.Sound) (ordered : cat.Ordered l) {item : Item}
    (member : item ∈ cat.items) : Covers cat.items item.lane item.start := by
  cases kind : item.isPayload with
  | true => exact covers_start_of_mem sound ordered member kind
  | false =>
    obtain ⟨block, known, lane, payload, spans, _⟩ := waits.backed item member kind
    exact ⟨block, known, lane, payload, spans⟩

section Put

variable {config : StoreConfig} {segment : Segment} {d : Desk} (fit : d.Fit l)
  (waits : b.Waits d.cat.items) (checked : segment.flow.raw.toNat < 0x80000000)
  (sequence : segment.sequence = (b.next segment.flow segment.side).advance
    (b.bytes segment.flow segment.side).size) (short : segment.payload.size ≤ 65535)
include waits checked sequence

theorem covers_put {d' : Desk} (gains : Desk.Gains l segment d d' segment.payload.size) {flow : FlowId}
    {side : Side} (known : flow.raw.toNat < 0x80000000) (position : Seq) :
    Covers d'.cat.items (FlowKey.laneOf flow side) position ↔ ∃ step,
      step < ((b.add segment.flow segment.side segment.payload).bytes flow side).size ∧
        (b.next flow side).advance step = position := by
  have own : segment.key.lane = FlowKey.laneOf segment.flow segment.side := FlowKey.lane_pack ..
  by_cases here : flow = segment.flow ∧ side = segment.side
  · obtain ⟨rfl, rfl⟩ := here
    rw [← own, gains.covers, own, waits.covers _ _ known, add_self, ByteArray.size_append]
    constructor
    · rintro (⟨step, inside, same⟩ | ⟨step, inside, same⟩)
      · exact ⟨step, by omega, same⟩
      · refine ⟨_ + step, Nat.add_lt_add_left inside _, ?_⟩
        rw [← Seq.advance_advance, ← sequence]
        exact same
    · rintro ⟨step, inside, same⟩
      by_cases early : step < (b.bytes segment.flow segment.side).size
      · exact .inl ⟨step, early, same⟩
      · refine .inr ⟨step - (b.bytes segment.flow segment.side).size, by omega, ?_⟩
        rw [sequence, Seq.advance_advance, ← same]
        congr 1
        omega
  · have apart : FlowKey.laneOf flow side ≠ segment.key.lane := by
      rw [own]
      exact fun same => here (FlowKey.laneOf_inj known checked same)
    rw [gains.grows.covers_other apart, waits.covers _ _ known, add_other here]

include short

theorem short_put {d' : Desk} (gains : Desk.Gains l segment d d' segment.payload.size)
    (small : l.maxBlocks.toNat * l.capacity < Seq.halfTurn) (flow : FlowId) (side : Side)
    (known : flow.raw.toNat < 0x80000000) :
    ((b.add segment.flow segment.side segment.payload).bytes flow side).size < Seq.halfTurn := by
  refine Nat.lt_of_le_of_lt ?_ small
  refine @Catalog.Ordered.length_le_of_covers l d'.cat gains.fit.ordered gains.fit.sound
    (FlowKey.laneOf flow side) (b.next flow side) _ ?_ fun step inside =>
      (waits.covers_put checked sequence gains known _).mpr ⟨step, inside, rfl⟩
  have before := waits.short flow side known
  rw [Seq.halfTurn] at before
  rw [Seq.circle]
  by_cases here : flow = segment.flow ∧ side = segment.side
  · obtain ⟨rfl, rfl⟩ := here
    rw [add_self, ByteArray.size_append]
    omega
  · rw [add_other here]
    omega

omit short in
theorem cuts_put {d' : Desk} (gains : Desk.Gains l segment d d' segment.payload.size)
    (some_bytes : 0 < segment.payload.size)
    (bounded : ∀ flow side, flow.raw.toNat < 0x80000000 →
      ((b.add segment.flow segment.side segment.payload).bytes flow side).size < Seq.halfTurn) :
    (b.add segment.flow segment.side segment.payload).traffic.Cuts d'.cat.items := by
  have own : segment.key.lane = FlowKey.laneOf segment.flow segment.side := FlowKey.lane_pack ..
  have grown : ∀ flow side f, flow.raw.toNat < 0x80000000 → 0 < (b.bytes flow side).size ∨
        flow = segment.flow ∧ side = segment.side →
      f.CutFrom (b.next flow side) ((b.add segment.flow segment.side segment.payload).bytes flow side) →
      ∃ stream, (b.add segment.flow segment.side segment.payload).traffic.stream? flow side =
        some stream ∧ stream.Cuts f := by
    intro flow side f known more cut
    obtain ⟨stream, there⟩ := @exists_stream (b.add segment.flow segment.side segment.payload) flow side
      known (by
        by_cases here : flow = segment.flow ∧ side = segment.side
        · obtain ⟨rfl, rfl⟩ := here
          rw [add_self, ByteArray.size_append]
          omega
        · rw [add_other here]
          exact more.resolve_right here) (bounded flow side known)
    obtain ⟨_, initial, bytes⟩ := stream?_eq_some.mp there
    refine ⟨stream, there, ?_⟩
    rw [Stream.Cuts, initial, bytes]
    exact cut
  refine Traffic.Cuts.grow (waits.cuts.mono fun flow side stream f known cut => ?_) gains.grows
    fun f cut => ?_
  · obtain ⟨checked', initial, bytes⟩ := stream?_eq_some.mp known
    rw [Stream.Cuts, initial, bytes] at cut
    refine grown flow side f checked' (.inl (bytes ▸ stream.some)) ?_
    by_cases here : flow = segment.flow ∧ side = segment.side
    · obtain ⟨rfl, rfl⟩ := here
      rw [add_self]
      exact cut.append _
    · rw [add_other here]
      exact cut
  · obtain ⟨stream, there, cuts⟩ := grown segment.flow segment.side f checked (.inr ⟨rfl, rfl⟩) (by
      rw [add_self]
      refine (Block.Frame.cutFrom_append _ _ _).trans ?_
      rw [← sequence]
      exact cut)
    exact ⟨segment.flow, segment.side, stream, there, own, cuts⟩

theorem isNew : Desk.IsNew segment d.cat.items := by
  intro step inside covered
  rw [Segment.key, FlowKey.lane_pack] at covered
  obtain ⟨place, early, same⟩ := (waits.covers segment.flow segment.side checked _).mp covered
  have bound := waits.short segment.flow segment.side checked
  rw [Seq.halfTurn] at bound
  rw [sequence, Seq.advance_advance] at same
  have steps := congrArg (Seq.distance (b.next segment.flow segment.side)) same
  rw [Seq.distance_advance_of_lt _ (by rw [Seq.circle]; omega),
    Seq.distance_advance_of_lt _ (by rw [Seq.circle]; omega)] at steps
  omega

include fit

theorem backed_put (some_bytes : 0 < segment.payload.size)
    (past : ∀ item ∈ d.cat.items, item.header.lastUpdate ≤ now)
    (gains : Desk.Gains l segment d (d.put l config segment now).2 segment.payload.size) {marker : Item}
    (listed : marker ∈ (d.put l config segment now).2.cat.items) (kind : marker.isPayload = false) :
    ∃ block ∈ (d.put l config segment now).2.cat.items, block.lane = marker.lane ∧
      block.isPayload = true ∧ (∃ f ∈ block.frames, f.Spans marker.start) ∧
        marker.header.lastUpdate ≤ block.header.lastUpdate := by
  have new := waits.isNew checked sequence short
  have timed := @Desk.Fit.put_timed l config segment now d fit
  have markers := @Desk.Fit.put_markers l config segment now d fit
  generalize (d.put l config segment now).2 = d' at *
  rcases markers listed kind with known | ⟨slot, _, rfl, _⟩
  · obtain ⟨block, member, lane, payload, ⟨f, present, spans⟩, late⟩ := waits.backed marker known kind
    obtain ⟨block', member', ext⟩ := gains.grows.kept block member
    obtain ⟨added, frames, _⟩ := ext.frames
    refine ⟨block', member', ext.lane_eq.trans lane, ext.kind.trans payload,
      ⟨f, frames ▸ List.mem_append_left _ present, spans⟩, ?_⟩
    rcases timed block' member' with now | ⟨old, there, entry, _, _, time⟩
    · rw [now]
      exact past marker known
    · obtain rfl := fit.ordered.eq_of_slot there member
        (congrArg Entry.slot (entry.trans ext.entry))
      rw [← time]
      exact late
  · have first := (gains.covers segment.sequence).mpr (.inr ⟨0, by omega, Seq.advance_zero _⟩)
    obtain ⟨block, member, lane, payload, spans⟩ := first
    have start : (markerFor d.cat slot segment now).start = segment.sequence := FlowKey.seq_pack ..
    rw [← start] at spans
    refine ⟨block, member, lane, payload, spans, ?_⟩
    rcases timed block member with now | ⟨old, there, entry, stream, frames, time⟩
    · rw [now]
      exact UInt64.le_refl _
    · refine absurd ⟨old, there, ?_, stream.trans payload, ?_⟩ (new 0 some_bytes)
      · rw [← lane, Item.lane, Item.lane, Item.key, Item.key, entry]
      · rw [frames, Seq.advance_zero, ← start]
        exact spans

theorem put (some_bytes : 0 < segment.payload.size)
    (small : l.maxBlocks.toNat * l.capacity < Seq.halfTurn) (separate : d.cat.Distinct)
    (past : ∀ item ∈ d.cat.items, item.header.lastUpdate ≤ now)
    (room : (d.put l config segment now).2.cat.items.length < l.maxBlocks.toNat) :
    (b.add segment.flow segment.side segment.payload).Waits (d.put l config segment now).2.cat.items ∧
      (d.put l config segment now).2.cat.Distinct := by
  have new := waits.isNew checked sequence short
  have circle : segment.payload.size ≤ Seq.circle := by rw [Seq.circle]; omega
  have held := fun item => @covers_start _ _ _ waits fit.sound fit.ordered item
  obtain ⟨count, gains⟩ := @Desk.Fit.put_spec l config segment now d fit
  obtain rfl : count = segment.payload.size := by
    refine Nat.le_antisymm gains.inside (Nat.not_lt.mp fun missing => ?_)
    have full := gains.fit.ordered.nextSlot?_eq_none_iff.mp (gains.whole missing)
    exact absurd full (Nat.ne_of_lt room)
  have bounded := waits.short_put checked sequence short gains small
  exact ⟨⟨bounded, fit.put_new_spaced new circle waits.spaced,
      waits.cuts_put checked sequence gains some_bytes bounded,
      fun flow side known => waits.covers_put checked sequence gains known,
      fun marker => waits.backed_put fit checked sequence short some_bytes past gains⟩,
    fit.put_separate new some_bytes circle waits.spaced separate held⟩

end Put

theorem drop (waits : b.Waits cat.items) (sound : cat.Sound) (ordered : cat.Ordered l)
    {count : FlowId → Side → Nat} {after : List Item}
    (kept : ∀ item ∈ after, item ∈ cat.items)
    (stays : ∀ item ∈ cat.items, item.isPayload = true → ∀ flow side, flow.raw.toNat < 0x80000000 →
      item.lane = FlowKey.laneOf flow side → ∀ place, place < (b.bytes flow side).size →
        (∃ f ∈ item.frames, f.Spans ((b.next flow side).advance place)) →
          (item ∈ after ↔ count flow side ≤ place))
    (markers : ∀ marker ∈ after, marker.isPayload = false → ∀ block ∈ cat.items, block.isPayload = true →
      block.lane = marker.lane → marker.header.lastUpdate ≤ block.header.lastUpdate → block ∈ after) :
    (b.drop count).Waits after := by
  have size := b.size_drop count
  have bounded : ∀ flow side, flow.raw.toNat < 0x80000000 →
      ((b.drop count).bytes flow side).size < Seq.halfTurn := by
    intro flow side checked
    rw [size]
    exact Nat.lt_of_le_of_lt (Nat.sub_le _ _) (waits.short flow side checked)
  refine ⟨bounded, waits.spaced.of_subset kept, fun item member f present => ?_,
    fun flow side checked position => ⟨fun covered => ?_, fun ⟨step, more, same⟩ => ?_⟩,
    fun marker listed kind => ?_⟩
  · have known := kept item member
    obtain ⟨flow, side, stream, there, lane, cut⟩ := waits.cuts item known f present
    obtain ⟨checked, initial, bytes⟩ := stream?_eq_some.mp there
    rcases sound item known with marker | ⟨chunks, streams⟩
    · rw [marker.frames_eq] at present
      exact absurd present List.not_mem_nil
    -- the frame has bytes, so the block is left because its place is behind what was told
    have framed := present
    rw [streams.frames_eq (ordered.fits item known)] at framed
    have filled := streams.filled _ (Block.data_mem_of_lay framed)
    have fits := cut.spec.1
    rw [Stream.stop] at fits
    have here := (stays item known streams.isPayload flow side checked lane (stream.place f.start)
      (by rw [← bytes]; omega) ⟨f, present, 0, filled, by
        rw [Seq.advance_zero, ← initial]
        exact (Stream.advance_place _).symm⟩).mp member
    have rest := cut.rest here
    obtain ⟨stream', there'⟩ := @exists_stream (b.drop count) flow side checked
      (by rw [size, ← bytes]; omega) (bounded flow side checked)
    obtain ⟨_, initial', bytes'⟩ := stream?_eq_some.mp there'
    refine ⟨flow, side, stream', there', lane, ?_⟩
    rw [Stream.Cuts, initial', bytes']
    rw [initial, bytes] at rest
    exact rest
  · obtain ⟨item, member, lane, payload, spans⟩ := covered
    obtain ⟨place, more, same⟩ := (waits.covers flow side checked position).mp
      ⟨item, kept item member, lane, payload, spans⟩
    rw [← same] at spans
    have behind := (stays item (kept item member) payload flow side checked lane place more spans).mp member
    refine ⟨place - count flow side, by rw [size]; omega, ?_⟩
    rw [Backlog.drop, Seq.advance_advance, ← same]
    congr 1
    omega
  · rw [size] at more
    rw [Backlog.drop, Seq.advance_advance] at same
    obtain ⟨item, member, lane, payload, spans⟩ := (waits.covers flow side checked position).mpr
      ⟨count flow side + step, by omega, same⟩
    refine ⟨item, ?_, lane, payload, spans⟩
    rw [← same] at spans
    exact (stays item member payload flow side checked lane _ (by omega) spans).mpr (Nat.le_add_right _ _)
  · obtain ⟨block, member, lane, payload, spans, late⟩ := waits.backed marker (kept marker listed) kind
    exact ⟨block, markers marker listed kind block member payload lane late, lane, payload, spans, late⟩

end Backlog.Waits

theorem Store.Spaced.eq_of_spans {l : Layout} {cat : Catalog} (spaced : Spaced cat.items)
    (sound : cat.Sound) (ordered : cat.Ordered l) {x y : Item} (first : x ∈ cat.items)
    (second : y ∈ cat.items) (payload : x.isPayload = true) (payload' : y.isPayload = true)
    (lane : x.lane = y.lane) {position : Seq} (spans : ∃ f ∈ x.frames, f.Spans position)
    (spans' : ∃ f ∈ y.frames, f.Spans position) : x = y := by
  by_contra other
  obtain ⟨flow, side⟩ := (FlowKey.lane_eq_iff x.key y.key).mp lane
  exact (sound.apart_iff ordered).mpr spaced x first y second other payload payload' flow side position
    (((sound x first).spans_iff payload (ordered.fits x first) position).mpr spans)
    (((sound y second).spans_iff payload' (ordered.fits y second) position).mpr spans')

namespace Delivery

/-- What draining a flow does that has some bytes to tell, of which `count` are told on each side. -/
structure FlowTold (b : Backlog) (v : View) (flow : FlowId) (cat : Catalog)
    (drained : Drained × List Ref × List Event) (count : Side → Nat) : Prop where
  inside : ∀ side, count side ≤ (b.bytes flow side).size
  plain : ∀ event ∈ drained.2.2, event.flow = flow ∧ event.isPlain = true
  hears : ∀ side, heard flow side drained.2.2 = (b.bytes flow side).extract 0 (count side)
  next : ∀ side, drained.1.position.expected.get side = none ∨
    drained.1.position.expected.get side = some ((b.next flow side).advance (count side))
  ready : ∀ item ∈ cat.items, item.isPayload = true → item.ref ∈ drained.2.1 →
    item.header.isReady v.now v.idle = true
  gone : ∀ item ∈ cat.items, item.isPayload = true → ∀ side, item.lane = FlowKey.laneOf flow side →
    ∀ place, place < (b.bytes flow side).size →
      (∃ f ∈ item.frames, f.Spans ((b.next flow side).advance place)) →
        (item.ref ∈ drained.2.1 ↔ place < count side)
  markers : ∀ item ∈ cat.items, item.key.flow = flow → item.isPayload = false →
    item.header.isReady v.now v.idle = true → item.ref ∈ drained.2.1
  all : (∀ item ∈ cat.items, item.key.flow = flow → item.header.isReady v.now v.idle = true) →
    ∀ side, count side = (b.bytes flow side).size

variable {l : Layout} {v : View} {cat : Catalog} {flow : FlowId} {side : Side} {position : Position}
  {b : Backlog} (ordered : cat.Ordered l) (sound : cat.Sound) (separate : cat.Distinct)
  (waits : b.Waits cat.items) (checked : flow.raw.toNat < 0x80000000)
include ordered sound separate waits checked

theorem sideDrained_told_of_waits (state : Drained) (next : state.position.expected.get side = none ∨
      state.position.expected.get side = some (b.next flow side)) :
    ∃ count, Told (b.next flow side) (b.bytes flow side) flow side
      ((cat.inLane (FlowKey.laneOf flow side)).map (Item.stored v))
      (sideDrained flow side v.now ((cat.inLane (FlowKey.laneOf flow side)).map (Item.stored v)) state)
      count := by
  have covers := waits.covers flow side checked
  by_cases empty : (b.bytes flow side).size = 0
  · refine ⟨0, sideDrained_nothing empty next fun block listed => ?_⟩
    obtain ⟨item, member, rfl⟩ := List.mem_map.mp listed
    obtain ⟨there, lane⟩ := Catalog.mem_inLane.mp member
    refine Bool.eq_false_iff.mpr fun payload => ?_
    have covered := covers_start_of_mem sound ordered there payload
    rw [lane] at covered
    obtain ⟨step, short, _⟩ := (covers _).mp covered
    omega
  · obtain ⟨stream, known⟩ := Backlog.exists_stream checked (Nat.pos_of_ne_zero empty)
      (waits.short flow side checked)
    obtain ⟨_, initial, bytes⟩ := Backlog.stream?_eq_some.mp known
    rw [← initial] at next covers ⊢
    rw [← bytes] at covers ⊢
    refine sideDrained_prefix next (fun block listed payload => ?_) (fun place more => ?_)
      (fun x first y second same => ?_) fun x first y second payload payload' position spans spans' => ?_
    · obtain ⟨item, member, rfl⟩ := List.mem_map.mp listed
      obtain ⟨stream', length, known', fills⟩ :=
        fills_of_cuts (v := v) ordered sound waits.cuts checked member payload
      obtain rfl := Option.some.inj (known.symm.trans known')
      exact ⟨length, fills⟩
    · obtain ⟨item, member, lane, payload, spans⟩ := (covers _).mpr ⟨place, more, rfl⟩
      exact ⟨_, List.mem_map_of_mem (Catalog.mem_inLane.mpr ⟨member, lane⟩), payload, spans⟩
    · obtain ⟨a, member, rfl⟩ := List.mem_map.mp first
      obtain ⟨c, member', rfl⟩ := List.mem_map.mp second
      rw [separate.eq_of_ref (Catalog.mem_inLane.mp member).1 (Catalog.mem_inLane.mp member').1 same]
    · obtain ⟨a, member, rfl⟩ := List.mem_map.mp first
      obtain ⟨c, member', rfl⟩ := List.mem_map.mp second
      obtain ⟨there, lane⟩ := Catalog.mem_inLane.mp member
      obtain ⟨there', lane'⟩ := Catalog.mem_inLane.mp member'
      rw [waits.spaced.eq_of_spans sound ordered there there' payload payload' (lane.trans lane'.symm)
        spans spans']

theorem flowDrained_told (next : ∀ side, position.expected.get side = none ∨
      position.expected.get side = some (b.next flow side)) :
    ∃ count, FlowTold b v flow cat (flowDrained v flow position cat) count := by
  have sides : ∀ side, ∃ count, Told (b.next flow side) (b.bytes flow side) flow side
      ((cat.inLane (FlowKey.laneOf flow side)).map (Item.stored v)) (drainedSide v flow position cat side)
      count := by
    intro side
    obtain ⟨state, here, same⟩ := drainedSide_eq v flow position cat side
    rw [same]
    refine sideDrained_told_of_waits ordered sound separate waits checked state ?_
    rw [here]
    -- markers leave a position where it is, or set both of its sides back to unread
    rcases adoptAll_cases position (readyMarkers
      ((cat.inLane (FlowKey.laneOf flow .source)).map (Item.stored v) ++
        (cat.inLane (FlowKey.laneOf flow .destination)).map (Item.stored v))) v.now with
      ⟨_, stays⟩ | ⟨_, unread, _⟩
    · rw [stays]
      exact next side
    · rw [unread, PerSide.get_both]
      exact .inl rfl
  choose count told using sides
  refine ⟨count, fun side => (told side).inside,
    fun event => plain_of_sides (told .source).tells (told .destination).tells, fun side => ?_,
    fun side => ?_, fun item member payload gone => ?_,
    fun item member payload side lane place more spans => ?_, fun item member here kind ready => ?_,
    fun ready side => ?_⟩
  · exact (heard_flowDrained (fun side => (told side).tells) side).trans (told side).hears
  · rw [expected_flowDrained]
    exact (told side).next.imp And.left id
  · obtain ⟨side, gone⟩ := (mem_flowDrained.mp gone).resolve_left
      (not_mem_markers_of_payload separate member payload)
    obtain ⟨other, listed, same⟩ := drainedSide_refs gone
    obtain rfl := separate.eq_of_ref (Catalog.mem_inLane.mp listed).1 member same
    exact (told side).ready _ (List.mem_map_of_mem listed) gone
  · have there : item ∈ cat.inLane (FlowKey.laneOf flow side) := Catalog.mem_inLane.mpr ⟨member, lane⟩
    rw [mem_flowDrained_of_payload separate checked member payload lane]
    exact (told side).gone _ (List.mem_map_of_mem there) payload place more spans
  · rcases sound item member with marker | ⟨chunks, streams⟩
    · exact mem_flowDrained.mpr (.inl (mem_markers_of_ready checked member here marker.kind ready))
    · rw [streams.isPayload] at kind
      cases kind
  · refine (told side).all fun block listed _ => ?_
    obtain ⟨item, there, rfl⟩ := List.mem_map.mp listed
    obtain ⟨member, lane⟩ := Catalog.mem_inLane.mp there
    exact ready item member (FlowKey.flow_of_lane checked lane)

end Delivery

end Reassembly
