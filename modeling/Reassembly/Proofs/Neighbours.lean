import Reassembly.Proofs.Nearest
import Reassembly.Proofs.Representation

/-!
What the searches for neighbours answer, in every store whose directory is in order, told by the payload
blocks of one flow and side alone: the nearest start ahead on the circle of sequence numbers, and the latest
of the blocks that start nearest behind.
-/

namespace Reassembly.Writing

open Store Store.Catalog

namespace Located

abbrev ref (block : Located) : Ref := block.entry.ref

def start (block : Located) : Seq := block.ref.key.seq

/-- Whether the block holds payload of a flow and side: its key is the one made for them. -/
def streams (flow : FlowId) (side : Side) (block : Located) : Bool :=
  block.ref.key = .pack flow side block.start && block.header.kind.isPayload

end Located

def located (l : Layout) (held : Held) : List Located :=
  (List.range held.counters.entryCount.toNat).map fun pos =>
    let entry := entryIn held.region.bytes pos
    ⟨entry, headerIn l held.region.bytes entry.slot⟩

def stream (l : Layout) (held : Held) (flow : FlowId) (side : Side) : List Located :=
  (located l held).filter (Located.streams flow side)

def locate (item : Item) : Located := ⟨item.entry, item.header⟩

/-- A held store with its directory in order: as many records as it counts, sorted by key and generation,
each with a slot of the store. -/
structure Indexed (l : Layout) (held : Held) : Prop where
  reach : held.region.Reaches l.required
  room : held.counters.entryCount ≤ l.maxBlocks
  slots : ∀ block ∈ located l held, block.entry.slot < l.maxBlocks
  sorted : (located l held).Pairwise fun a b => a.ref.upTo b.ref = true

/-- The start that is nearest ahead of a number, among those of other blocks than the ones at it. -/
def NearestAhead (blocks : List Located) (seq : Seq) : Option Seq → Prop
  | none => ∀ block ∈ blocks, block.start = seq
  | some next => next ≠ seq ∧ (∃ block ∈ blocks, block.start = next) ∧
    ∀ block ∈ blocks, block.start ≠ seq → Seq.distance seq next ≤ Seq.distance seq block.start

/-- The block that starts nearest at or behind a number, the latest of those that do. -/
def NearestBehind (blocks : List Located) (seq : Seq) : Option Located → Prop
  | none => blocks = []
  | some found => found ∈ blocks ∧ ∀ block ∈ blocks,
    Seq.distance found.start seq ≤ Seq.distance block.start seq ∧
      (block.start = found.start → block.ref.generation ≤ found.ref.generation)

def listing (l : Layout) (held : Held) : Catalog where
  items := (List.range held.counters.entryCount.toNat).map fun pos =>
    itemOf l held.region.bytes (entryIn held.region.bytes pos)
  freed := []
  highWater := 0
  nextGeneration := 0

theorem located_eq (l : Layout) (held : Held) : located l held = (listing l held).items.map locate := by
  rw [listing, List.map_map]
  rfl

theorem Indexed.indexes {l : Layout} {held : Held} (indexed : Indexed l held) :
    Indexes l held (listing l held).items := by
  have count : (listing l held).items.length = held.counters.entryCount.toNat := by
    rw [listing, List.length_map, List.length_range]
  have member : ∀ item ∈ (listing l held).items, locate item ∈ located l held := fun item listed =>
    located_eq l held ▸ List.mem_map_of_mem listed
  have sorted := indexed.sorted
  rw [located_eq, List.pairwise_map] at sorted
  refine ⟨⟨indexed.reach, fun {pos item} found => ?_, ?_, sorted.imp fun upTo => (Ref.upTo_iff _ _).mp upTo⟩,
    count, fun item listed => ?_, fun item listed => ?_⟩
  · rw [listing, List.getElem?_map, Option.map_eq_some_iff] at found
    obtain ⟨place, here, rfl⟩ := found
    obtain ⟨inside, rfl⟩ := List.getElem?_eq_some_iff.mp here
    rw [List.getElem_range]
    rfl
  · rw [count]
    exact UInt32.le_iff_toNat_le.mp indexed.room
  · exact UInt32.lt_iff_toNat_lt.mp (indexed.slots _ (member item listed))
  · obtain ⟨pos, _, rfl⟩ := List.mem_map.mp listed
    rfl

def forward (blocks : List Located) (seq : Seq) : List Located :=
  (blocks.filter fun block => seq.word.toNat < block.start.word.toNat) ++
    blocks.filter fun block => block.start.word.toNat ≤ seq.word.toNat

section
variable {l : Layout} {held : Held} {flow : FlowId} {side : Side}

theorem stream_eq : stream l held flow side =
    (((listing l held).inLane (FlowKey.laneOf flow side)).filter Item.isPayload).map locate := by
  rw [stream, located_eq, List.filter_map, inLane, List.filter_filter]
  refine congrArg _ (List.filter_congr fun item _ => ?_)
  have lane := FlowKey.eq_pack_iff item.key flow side
  show (decide (item.key = .pack flow side item.key.seq) && item.isPayload) = _
  rw [Bool.and_comm, decide_eq_decide.mpr lane]
  rfl

theorem mem_stream {block : Located} : block ∈ stream l held flow side ↔
    ∃ item ∈ (listing l held).items, item.lane = FlowKey.laneOf flow side ∧ item.isPayload = true ∧
      locate item = block := by
  simp only [stream_eq, List.mem_map, List.mem_filter, mem_inLane, and_assoc]

theorem forward_stream (seq : Seq) : forward (stream l held flow side) seq =
    (((listing l held).ahead (.pack flow side seq) ++ (listing l held).upTo (.pack flow side seq)).filter
      Item.isPayload).map locate := by
  rw [stream_eq, forward, List.filter_map, List.filter_map, List.filter_filter, List.filter_filter,
    List.filter_append, List.map_append, ahead, upTo, List.filter_filter, List.filter_filter,
    FlowKey.lane_pack, FlowKey.seq_pack]
  simp only [Bool.and_comm]
  rfl

theorem findSome?_start (items : List Item) (seq : Seq) :
    (items.findSome? fun item =>
      if item.start ≠ seq ∧ item.isPayload = true then some item.start else none) =
      (((items.filter Item.isPayload).map locate).find? fun block => block.start ≠ seq).map Located.start := by
  induction items with
  | nil => rfl
  | cons item items ih =>
    rw [List.findSome?_cons]
    by_cases payload : item.isPayload = true
    · rw [List.filter_cons_of_pos payload, List.map_cons]
      by_cases same : (locate item).start = seq
      · rw [if_neg fun both => both.1 same, List.find?_cons_of_neg (by simpa using same)]
        exact ih
      · rw [if_pos ⟨same, payload⟩, List.find?_cons_of_pos (by simpa using same)]
        rfl
    · rw [List.filter_cons_of_neg payload, if_neg fun both => payload both.2]
      exact ih

theorem successor?_eq_forward (seq : Seq) : (listing l held).successor? (.pack flow side seq) =
    ((forward (stream l held flow side) seq).find? fun block => block.start ≠ seq).map Located.start := by
  rw [successor?, findSome?_start, forward_stream, FlowKey.seq_pack]

theorem predecessor?_eq_forward (seq : Seq) :
    ((listing l held).predecessor? (.pack flow side seq)).map locate =
      (forward (stream l held flow side) seq).getLast? := by
  rw [predecessor?, forward_stream, ← List.reverse_append, ← List.head?_filter, List.filter_reverse,
    List.head?_reverse, List.getLast?_map]

variable (indexed : Indexed l held)
include indexed

theorem Indexed.predecessor_run (seq : Seq) : predecessor l flow side seq held =
    .ok (((listing l held).predecessor? (.pack flow side seq)).map locate) held :=
  indexed.indexes.predecessor_run flow side seq

theorem Indexed.nearestAhead (seq : Seq) :
    NearestAhead (stream l held flow side) seq ((listing l held).successor? (.pack flow side seq)) := by
  have lane := FlowKey.lane_pack flow side seq
  have number := FlowKey.seq_pack flow side seq
  cases found : (listing l held).successor? (.pack flow side seq) with
  | none =>
    intro block listed
    obtain ⟨item, member, inLane, payload, rfl⟩ := mem_stream.mp listed
    exact (successor?_eq_none found member (inLane.trans lane.symm) payload).trans number
  | some next =>
    obtain ⟨apart, ⟨hit, here, inLane, payload, start⟩, nearest⟩ :=
      indexed.indexes.filed.sorted.successor?_spec found
    rw [number] at apart nearest
    rw [lane] at inLane nearest
    refine ⟨apart, ⟨locate hit, mem_stream.mpr ⟨hit, here, inLane, payload, rfl⟩, start⟩,
      fun block listed other => ?_⟩
    obtain ⟨item, member, inLane, payload, rfl⟩ := mem_stream.mp listed
    exact nearest item member inLane payload other

theorem Indexed.nearestBehind (seq : Seq) : NearestBehind (stream l held flow side) seq
    (((listing l held).predecessor? (.pack flow side seq)).map locate) := by
  have lane := FlowKey.lane_pack flow side seq
  have number := FlowKey.seq_pack flow side seq
  have sorted := indexed.indexes.filed.sorted
  cases found : (listing l held).predecessor? (.pack flow side seq) with
  | none =>
    refine List.eq_nil_iff_forall_not_mem.mpr fun block listed => ?_
    obtain ⟨item, member, inLane, payload, rfl⟩ := mem_stream.mp listed
    rw [predecessor?_eq_none found member (inLane.trans lane.symm)] at payload
    cases payload
  | some hit =>
    obtain ⟨here, inLane, payload, nearest⟩ := sorted.predecessor?_spec found
    rw [number, lane] at nearest
    refine ⟨mem_stream.mpr ⟨hit, here, inLane.trans lane, payload, rfl⟩, fun block listed => ?_⟩
    obtain ⟨item, member, inLane, payload, rfl⟩ := mem_stream.mp listed
    exact ⟨nearest item member inLane payload, fun same => UInt64.le_iff_toNat_le.mpr
      (sorted.predecessor?_latest found member (inLane.trans lane.symm) payload same)⟩

end

/-- In a store with its directory in order the searches for neighbours succeed and change nothing, they find the
nearest start ahead and the latest of the nearest blocks behind, and no other than the payload blocks of the
flow and side have a say in it. -/
theorem Indexed.finds_neighbours {l : Layout} {held : Held} (indexed : Indexed l held) (flow : FlowId)
    (side : Side) (seq : Seq) :
    ∃ next found,
      successorStart l flow side seq held = .ok next held ∧
      predecessor l flow side seq held = .ok found held ∧
      NearestAhead (stream l held flow side) seq next ∧
      NearestBehind (stream l held flow side) seq found ∧
      ∀ {l' : Layout} {held' : Held}, Indexed l' held' →
        stream l' held' flow side = stream l held flow side →
        successorStart l' flow side seq held' = .ok next held' ∧
          predecessor l' flow side seq held' = .ok found held' := by
  refine ⟨_, _, indexed.indexes.successorStart_run flow side seq, indexed.predecessor_run seq,
    indexed.nearestAhead seq, indexed.nearestBehind seq, fun indexed' same => ⟨?_, ?_⟩⟩
  -- Both answers are functions of the stream alone.
  · rw [indexed'.indexes.successorStart_run, successor?_eq_forward, successor?_eq_forward, same]
  · rw [indexed'.predecessor_run, predecessor?_eq_forward, predecessor?_eq_forward, same]

section
variable {l : Layout} {held : Held} {cat : Catalog} (holds : Holds l held cat)
include holds

theorem items_listing : (listing l held).items = cat.items := by
  rw [← holds.carries.itemsIn_eq, itemsIn, holds.front.counters, listing]

theorem indexed_of_holds : Indexed l held := by
  have seen : located l held = cat.items.map locate := by rw [located_eq, items_listing holds]
  have room := holds.length_le
  rw [holds.count] at room
  refine ⟨holds.reach, UInt32.le_iff_toNat_le.mpr room, fun block listed => ?_, ?_⟩
  · obtain ⟨item, member, rfl⟩ := List.mem_map.mp (seen ▸ listed)
    exact UInt32.lt_iff_toNat_lt.mpr (holds.slot_lt member)
  · rw [seen, List.pairwise_map]
    exact holds.ordered.sorted.imp fun le => (Ref.upTo_iff _ _).mpr le

theorem stream_of_holds (flow : FlowId) (side : Side) : stream l held flow side =
    ((cat.inLane (FlowKey.laneOf flow side)).filter Item.isPayload).map locate := by
  rw [stream_eq, inLane, items_listing holds, inLane]

end

def stocked (l : Layout) (cat : Catalog) : List Draft → Catalog
  | [] => cat
  | draft :: rest =>
    match cat.nextSlot? l with
    | none => cat
    | some slot => stocked l (cat.shelve (Item.fresh cat slot draft.kind draft.key draft.start draft.complete
        draft.now)) rest

theorem exists_stocked {l : Layout} {held : Held} {cat : Catalog} (holds : Holds l held cat)
    {drafts : List Draft} (fit : ∀ draft ∈ drafts, draft.start.size ≤ l.capacity) :
    ∃ held', Holds l held' (stocked l cat drafts) := by
  induction drafts generalizing held cat with
  | nil => exact ⟨held, holds⟩
  | cons draft rest ih =>
    rw [stocked]
    split
    · exact ⟨held, holds⟩
    · next slot next =>
      obtain ⟨held₁, _, holds₁⟩ := holds.insertBlock_run next draft.kind draft.key draft.start draft.complete
        draft.now (fit draft List.mem_cons_self)
      exact ih holds₁ fun other listed => fit other (List.mem_cons_of_mem _ listed)

/-- Three blocks about the end of the sequence numbers, two of them with one start; and the same store with a
marker at the key of the third, and blocks of the other side and of another flow. -/
theorem finds_neighbours_about_the_end :
    ∃ (l : Layout) (held held' : Held) (next : Option Seq) (found : Option Located),
      Indexed l held ∧ Indexed l held' ∧
      ((stream l held ⟨7⟩ .source).map fun block => (block.start.word, block.ref.generation)) =
        [(5, 2), (0xFFFFFFFA, 0), (0xFFFFFFFA, 1)] ∧
      stream l held' ⟨7⟩ .source = stream l held ⟨7⟩ .source ∧ (located l held').length = 6 ∧
      successorStart l ⟨7⟩ .source ⟨0xFFFFFFFC⟩ held = .ok next held ∧
      predecessor l ⟨7⟩ .source ⟨0xFFFFFFFC⟩ held = .ok found held ∧
      NearestAhead (stream l held ⟨7⟩ .source) ⟨0xFFFFFFFC⟩ next ∧
      NearestBehind (stream l held ⟨7⟩ .source) ⟨0xFFFFFFFC⟩ found ∧
      successorStart l ⟨7⟩ .source ⟨0xFFFFFFFC⟩ held' = .ok next held' ∧
      predecessor l ⟨7⟩ .source ⟨0xFFFFFFFC⟩ held' = .ok found held' ∧
      next = some ⟨5⟩ ∧ (found.map fun block => (block.start.word, block.ref.generation)) =
        some (0xFFFFFFFA, 1) := by
  let l : Layout := ⟨64, 8, by decide, by decide, by decide⟩
  obtain ⟨start, _, _, carrying⟩ :=
    (@Commons.Fresh.of_config ({ blockCapacity := 64, maxBlocks := 8 }) l) rfl rfl
  let draft (kind : Block.Kind) (flow : FlowId) (side : Side) (seq : Seq) : Draft :=
    ⟨kind, .pack flow side seq, ⟨#[1, 2, 3, 4]⟩, true, 1000000⟩
  let wanted : List Draft := [draft .l4Payload ⟨7⟩ .source ⟨0xFFFFFFFA⟩,
    draft .l4Payload ⟨7⟩ .source ⟨0xFFFFFFFA⟩, draft .l4Payload ⟨7⟩ .source ⟨5⟩]
  let others : List Draft := [draft .startFlow ⟨7⟩ .source ⟨5⟩, draft .l4Payload ⟨7⟩ .destination ⟨0xFFFFFFFD⟩,
    draft .l4Payload ⟨8⟩ .source ⟨0xFFFFFFFB⟩]
  obtain ⟨held, holds⟩ := @exists_stocked _ _ _ carrying.carries wanted (by decide +kernel)
  obtain ⟨held', holds'⟩ := @exists_stocked _ _ _ holds others (by decide +kernel)
  have indexed := indexed_of_holds holds
  have indexed' := indexed_of_holds holds'
  have same : stream l held' ⟨7⟩ .source = stream l held ⟨7⟩ .source := by
    rw [stream_of_holds holds, stream_of_holds holds']
    exact congrArg _ (by decide +kernel)
  have count : (located l held').length = 6 := by
    rw [located_eq, items_listing holds']
    decide +kernel
  have starts : ((stream l held ⟨7⟩ .source).map fun block => (block.start.word, block.ref.generation)) =
      [(5, 2), (0xFFFFFFFA, 0), (0xFFFFFFFA, 1)] := by
    rw [stream_of_holds holds]
    decide +kernel
  obtain ⟨next, found, ahead, behind, nearestAhead, nearestBehind, alike⟩ :=
    indexed.finds_neighbours ⟨7⟩ .source ⟨0xFFFFFFFC⟩
  have wrapped : next = some ⟨5⟩ := by
    have answer := (holds.successorStart_run ⟨7⟩ .source ⟨0xFFFFFFFC⟩).symm.trans ahead
    injection answer with answer
    rw [← answer]
    decide +kernel
  have latest : (found.map fun block => (block.start.word, block.ref.generation)) =
      some (0xFFFFFFFA, 1) := by
    have answer := (holds.predecessor_run ⟨7⟩ .source ⟨0xFFFFFFFC⟩).symm.trans behind
    injection answer with answer
    rw [← answer]
    decide +kernel
  have answers := alike indexed' same
  exact ⟨l, held, held', next, found, indexed, indexed', starts, same, count, ahead, behind, nearestAhead,
    nearestBehind, answers.1, answers.2, wrapped, latest⟩

end Reassembly.Writing
