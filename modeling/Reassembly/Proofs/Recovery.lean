import Reassembly.Proofs.Shelter
import Reassembly.Proofs.Sides

/-!
What draining recovers of some traffic. Where the blocks of a flow were cut from its streams, hold them
whole and are ready, and nothing of the flow was read yet, draining the flow tells both of its streams,
takes all of its blocks, and leaves its position up to date.
-/

namespace Reassembly

open Store Reading Delivery

/-- Streams for some sides of some flows. -/
structure Traffic where
  stream? : FlowId → Side → Option Stream
  checked : ∀ flow side, (stream? flow side).isSome → flow.raw.toNat < 0x80000000

namespace Traffic

def bytes (t : Traffic) (flow : FlowId) (side : Side) : ByteArray :=
  ((t.stream? flow side).map Stream.bytes).getD .empty

def Cuts (t : Traffic) (items : List Item) : Prop :=
  ∀ item ∈ items, ∀ f ∈ item.frames, ∃ flow side stream, t.stream? flow side = some stream ∧
    item.lane = FlowKey.laneOf flow side ∧ stream.Cuts f

def IsWhole (t : Traffic) (items : List Item) (flow : FlowId) : Prop :=
  ∀ side stream, t.stream? flow side = some stream → ∀ place, place < stream.bytes.size →
    Covers items (FlowKey.laneOf flow side) (stream.initial.advance place)

end Traffic

namespace Delivery

variable {l : Layout} {v : View} {cat : Catalog} {flow : FlowId} {side : Side} {position : Position}

theorem Tells.plain {events : List Event} (tells : Tells flow side events) :
    ∀ event ∈ events, event.flow = flow ∧ event.isPlain = true := by
  intro event listed
  obtain ⟨start, bytes, rfl⟩ := tells event listed
  exact ⟨rfl, rfl⟩

theorem Tells.heard_other {events : List Event} (tells : Tells flow side events) {part : Side}
    (other : part ≠ side) : heard flow part events = .empty := by
  refine heard_eq_empty fun event listed => ?_
  obtain ⟨start, bytes, rfl⟩ := tells event listed
  exact if_neg fun same => other same.2.symm

theorem announcement_plain {event : Event} (listed : event ∈ announcement flow position) :
    event.flow = flow ∧ event.isPlain = true ∧ ∀ side, event.bytesFor flow side = .empty := by
  rw [announcement] at listed
  split at listed
  · exact absurd listed List.not_mem_nil
  · rw [List.mem_singleton.mp listed]
    exact ⟨rfl, rfl, fun _ => rfl⟩

section Sides

variable {first second : List Event} (source : Tells flow .source first)
  (destination : Tells flow .destination second)
include source destination

theorem plain_of_sides {event : Event} (listed : event ∈ announcement flow position ++ first ++ second) :
    event.flow = flow ∧ event.isPlain = true := by
  rcases List.mem_append.mp listed with front | last
  · rcases List.mem_append.mp front with opening | front
    · exact ⟨(announcement_plain opening).1, (announcement_plain opening).2.1⟩
    · exact source.plain event front
  · exact destination.plain event last

theorem heard_of_sides : heard flow .source (announcement flow position ++ first ++ second) =
      heard flow .source first ∧
    heard flow .destination (announcement flow position ++ first ++ second) =
      heard flow .destination second := by
  have opening : ∀ side, heard flow side (announcement flow position) = .empty := fun side =>
    heard_eq_empty fun event listed => (announcement_plain listed).2.2 side
  constructor
  · rw [heard_append, heard_append, opening, ByteArray.empty_append,
      destination.heard_other (by decide), ByteArray.append_empty]
  · rw [heard_append, heard_append, opening, ByteArray.empty_append,
      source.heard_other (by decide), ByteArray.empty_append]

end Sides

theorem heard_flowDrained (tells : ∀ side, Tells flow side (drainedSide v flow position cat side).2.2)
    (side : Side) : heard flow side (flowDrained v flow position cat).2.2 =
      heard flow side (drainedSide v flow position cat side).2.2 := by
  cases side with
  | source => exact (heard_of_sides (tells .source) (tells .destination)).1
  | destination => exact (heard_of_sides (tells .source) (tells .destination)).2

theorem expected_adoptAll (unread : position.expected = .both none) (markers : List Stored)
    (now : Micros) : (adoptAll position markers now).expected = .both none := by
  induction markers generalizing position with
  | nil => exact unread
  | cons marker rest ih =>
    have stays : (position.adopt marker now).expected = .both none := by
      rw [Position.adopt]
      split
      · exact unread
      · split
        · exact unread
        · rfl
    exact ih stays

variable {t : Traffic}

theorem fills_of_cuts (ordered : cat.Ordered l) (sound : cat.Sound) (cuts : t.Cuts cat.items)
    (checked : flow.raw.toNat < 0x80000000) {item : Item}
    (member : item ∈ cat.inLane (FlowKey.laneOf flow side)) (payload : item.isPayload = true) :
    ∃ stream length, t.stream? flow side = some stream ∧ stream.Fills (item.stored v) length := by
  obtain ⟨there, lane⟩ := Catalog.mem_inLane.mp member
  rcases sound item there with marker | ⟨chunks, streams⟩
  · rw [marker.isPayload] at payload
    cases payload
  · have laid := streams.frames_eq (ordered.fits item there)
    have own : ∀ f ∈ item.frames, ∃ stream, t.stream? flow side = some stream ∧ stream.Cuts f := by
      intro f present
      obtain ⟨other, part, stream, known, here, cut⟩ := cuts item there f present
      obtain ⟨rfl, rfl⟩ := FlowKey.laneOf_inj checked (t.checked _ _ (by rw [known]; rfl))
        (lane.symm.trans here)
      exact ⟨stream, known, cut⟩
    obtain ⟨chunk, rest, rfl⟩ := List.exists_cons_of_ne_nil streams.some
    obtain ⟨stream, known, _⟩ := own ⟨item.start, chunk⟩ (by
      rw [laid, Block.lay]
      exact List.mem_cons_self)
    refine ⟨stream, _, known, Stream.fills_of_lay streams.some
      streams.filled ?_ fun f present => ?_⟩
    · refine Eq.trans laid ?_
      rw [← streams.base]
      rfl
    · obtain ⟨other, same, cut⟩ := own f present
      obtain rfl := Option.some.inj (known.symm.trans same)
      exact cut

theorem flowDrained_spec (ordered : cat.Ordered l) (sound : cat.Sound) (cuts : t.Cuts cat.items)
    (ready : ∀ item ∈ cat.items, item.header.isReady v.now v.idle = true)
    (checked : flow.raw.toNat < 0x80000000) (whole : t.IsWhole cat.items flow)
    (stocked : Stocked cat.items flow) (unread : position.expected = .both none) :
    let drained := flowDrained v flow position cat
    (∀ event ∈ drained.2.2, event.flow = flow ∧ event.isPlain = true) ∧
      (∀ side, heard flow side drained.2.2 = t.bytes flow side) ∧
      (∀ item ∈ cat.items, item.key.flow = flow → item.ref ∈ drained.2.1) ∧
      drained.1.position.lastUpdate = v.now := by
  have told : ∀ side, Tells flow side (drainedSide v flow position cat side).2.2 ∧
      heard flow side (drainedSide v flow position cat side).2.2 = t.bytes flow side ∧
      ∀ item ∈ cat.inLane (FlowKey.laneOf flow side), item.isPayload = true →
        item.ref ∈ (drainedSide v flow position cat side).2.1 := by
    intro side
    obtain ⟨state, here, same⟩ := drainedSide_eq v flow position cat side
    rw [expected_adoptAll unread, PerSide.get_both] at here
    rw [same]
    have spec := @Delivery.sideDrained_spec flow _ v.now
      ((cat.inLane (FlowKey.laneOf flow side)).map (Item.stored v)) _ here ?_
      (t.stream? flow side) ?_ ?_
    · refine ⟨spec.1, spec.2.1, fun item listed payload => ?_⟩
      exact spec.2.2 _ (List.mem_map_of_mem listed) payload
    · intro block listed _
      obtain ⟨item, member, rfl⟩ := List.mem_map.mp listed
      exact ready item (Catalog.mem_inLane.mp member).1
    · intro block listed payload
      obtain ⟨item, member, rfl⟩ := List.mem_map.mp listed
      exact fills_of_cuts ordered sound cuts checked member payload
    · intro stream known place more
      obtain ⟨item, member, lane, payload, held⟩ := whole side stream known place more
      exact ⟨_, List.mem_map_of_mem (Catalog.mem_inLane.mpr ⟨member, lane⟩), payload, held⟩
  refine ⟨fun event => plain_of_sides (told .source).1 (told .destination).1, fun side => ?_,
    fun item member here => mem_flowDrained.mpr ?_, ?_⟩
  · exact (heard_flowDrained (fun side => (told side).1) side).trans (told side).2.1
  · rcases sound item member with marker | ⟨chunks, streams⟩
    · exact .inl (mem_markers_of_ready checked member here marker.kind (ready item member))
    · obtain ⟨side, listed⟩ := mem_inLane_of_flow checked member here
      exact .inr ⟨side, (told side).2.2 item listed streams.isPayload⟩
  · obtain ⟨item, member, payload, here⟩ := stocked
    obtain ⟨side, listed⟩ := mem_inLane_of_flow checked member here
    exact lastUpdate_of_gone ((told side).2.2 item listed payload)

end Delivery

end Reassembly
