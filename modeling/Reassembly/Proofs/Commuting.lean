import Mathlib.Data.List.Sort
import Reassembly.Proofs.Answers
import Reassembly.Proofs.Positions
import Reassembly.Proofs.Twins

/-!
Puts to different flows commute. What a put looks up and what it changes lies on the side of its segment
and in what is known of its flow. So it does the same whether or not another flow was written before, and
the two orders differ in nothing but which numbers and slots the blocks got that the two puts stored.
-/

namespace Reassembly

open Store

namespace Store.Catalog

theorem Ordered.inLane_eq {l : Layout} {cat cat' : Catalog} {lane : Nat} (ordered : cat.Ordered l)
    (separate : cat.Distinct) (ordered' : cat'.Ordered l) (separate' : cat'.Distinct)
    (same : ∀ item : Item, item.lane = lane → (item ∈ cat.items ↔ item ∈ cat'.items)) :
    cat'.inLane lane = cat.inLane lane := by
  have antisymm : Std.Antisymm fun x y : Item => x.ref.rank < y.ref.rank :=
    ⟨fun x y less more => absurd less (Nat.lt_asymm more)⟩
  have irrefl : Std.Irrefl fun x y : Item => x.ref.rank < y.ref.rank := ⟨fun x => Nat.lt_irrefl _⟩
  refine List.Pairwise.eq_of_mem_iff ((separate'.strict ordered').filter _)
    ((separate.strict ordered).filter _) fun item => ?_
  rw [mem_inLane, mem_inLane]
  exact and_congr_left fun inLane => (same item inLane).symm

end Store.Catalog

namespace Writing

namespace Desk

variable {l : Layout} {config : StoreConfig} {segment : Segment} {now : Micros} {d d' : Desk}
  {rename : Ref → Ref} {limit limit' up down : Nat}

theorem put_writers {flow : FlowId} (elsewhere : segment.flow ≠ flow) :
    (d.put l config segment now).2.writers[flow]? = d.writers[flow]? := by
  rw [put]
  split
  · rfl
  · split
    · exact (FlowId.getElem?_insert ..).trans (if_neg elsewhere)
    · exact (FlowId.getElem?_insert ..).trans (if_neg elsewhere)

/-- What a put leaves, for those who ask about other flows and sides. -/
structure Spares (l : Layout) (limit : Nat) (segment : Segment) (d d' : Desk) : Prop where
  dated : d'.Dated l limit
  more : d.cat.items.length ≤ d'.cat.items.length
  next : d'.cat.nextGeneration.toNat =
    d.cat.nextGeneration.toNat + (d'.cat.items.length - d.cat.items.length)
  written : ∃ count, Catalog.Written d.cat count d'.cat
  inLane : ∀ lane, lane ≠ segment.key.lane → d'.cat.inLane lane = d.cat.inLane lane
  writers : ∀ flow, segment.flow ≠ flow → d'.writers[flow]? = d.writers[flow]?

theorem Dated.put_spares (dated : d.Dated l limit)
    (few : (d.put l config segment now).2.cat.items.length ≤ limit) :
    Spares l limit segment d (d.put l config segment now).2 := by
  obtain ⟨_, gains⟩ := @Fit.put_spec l config segment now d dated.toFit
  have last := dated.last
  have after := dated.put few
  have more := @Fit.length_le l config segment now d dated.toFit
  obtain ⟨_, next⟩ := @Fit.put_draws l config segment now d dated.toFit dated.numbered (by omega)
  refine ⟨after, more, next, dated.toFit.put_written config segment now, fun lane elsewhere => ?_,
    fun flow => put_writers⟩
  refine dated.ordered.inLane_eq dated.numbered.refs after.ordered after.numbered.refs fun item inLane => ?_
  exact gains.grows.others item (inLane ▸ elsewhere)

/-- Two desks that are alike on the side of a segment and in what is known of its flow. -/
structure Twins (rename : Ref → Ref) (segment : Segment) (limit up down : Nat) (d d' : Desk) : Prop where
  known : d'.writers[segment.flow]? = d.writers[segment.flow]?.map (WriterFlow.renumbered rename)
  cats : Catalog.Twins rename segment.key.lane limit up down d.cat d'.cat

theorem firstPiece_renumbered (segment : Segment) (now : Micros) (rename : Ref → Ref)
    (writer : WriterFlow) :
    firstPiece segment now (writer.renumbered rename) = firstPiece segment now writer := by
  rw [firstPiece, firstPiece, WriterFlow.initialSeq_renumbered]

theorem noted_renumbered {writer : WriterFlow} {bench bench' : Bench}
    (current : bench'.openBlock = bench.openBlock.map rename) :
    noted segment now (writer.renumbered rename) bench' =
      (noted segment now writer bench).renumbered rename := by
  rw [noted, noted, firstPiece_renumbered, current, WriterFlow.renumbered, WriterFlow.renumbered,
    PerSide.map_set]
  rfl

namespace Twins

variable (twins : Twins rename segment limit up down d d') (renames : Renames rename)
  (room : limit < l.maxBlocks.toNat) (room' : limit + up < l.maxBlocks.toNat + down)
  (dated : d.Dated l limit) (dated' : d'.Dated l limit')
include twins renames room room' dated dated'

theorem announce? (few : (d.put l config segment now).2.cat.items.length ≤ limit) :
    ∃ writer cat cat', d.announce? l config segment now = some (writer, cat) ∧
      d'.announce? l config segment now = some (writer.renumbered rename, cat') ∧
      Catalog.Twins rename segment.key.lane limit up down cat cat' := by
  have known : d'.known? config segment now =
      (d.known? config segment now).map (WriterFlow.renumbered rename) := by
    rw [known?, known?, twins.known]
    exact Option.filter_map
  cases here : d.known? config segment now with
  | some writer =>
    rw [here, Option.map_some] at known
    refine ⟨writer, d.cat, d'.cat, ?_, ?_, twins.cats⟩
    · rw [Desk.announce?, here]
    · rw [Desk.announce?, known]
  | none =>
    rw [here, Option.map_none] at known
    have length := twins.cats.length
    cases next : d.cat.nextSlot? l with
    | none =>
      have found : d.announce? l config segment now = none := by
        rw [Desk.announce?, here, next]
        rfl
      rw [put_of_unannounced found] at few
      have full := dated.ordered.nextSlot?_eq_none_iff.mp next
      dsimp only at few
      omega
    | some slot =>
      have found : d.announce? l config segment now =
          some (.fresh now, d.cat.shelve (markerFor d.cat slot segment now)) := by
        rw [Desk.announce?, here, next]
        rfl
      obtain ⟨_, later⟩ := dated.toFit.length_le_put found
      rw [Catalog.shelve, Catalog.length_file] at later
      obtain ⟨slot', next'⟩ := dated'.ordered.exists_nextSlot (by omega)
      have fresh := twins.cats.fresh_next segment.key (by omega)
      have twin : (markerFor d.cat slot segment now).Twin rename (markerFor d'.cat slot' segment now) :=
        ⟨fresh.symm, rfl, rfl⟩
      refine ⟨.fresh now, _, _, found, ?_, twins.cats.shelve renames dated.ordered dated.numbered
        dated'.ordered dated'.numbered twin rfl rfl rfl⟩
      rw [Desk.announce?, known, next']
      rfl

theorem put (matching : limit' + down = limit + up)
    (few : (d.put l config segment now).2.cat.items.length ≤ limit) :
    (d'.put l config segment now).1 = (d.put l config segment now).1 ∧
      Twins rename segment limit up down (d.put l config segment now).2 (d'.put l config segment now).2 := by
  obtain ⟨writer, cat, cat', found, found', cats⟩ := twins.announce? renames room room' dated dated' few
  obtain ⟨_, later⟩ := dated.toFit.length_le_put found
  have announced := later.trans few
  have lane := @lane_firstPiece segment now writer
  have inserted (writers : WriterFlows) (value : WriterFlow) :
      (writers.insert segment.flow value)[segment.flow]? = some value :=
    (FlowId.getElem?_insert ..).trans (if_pos rfl)
  rw [put_of_announced found] at few ⊢
  rw [put_of_announced found']
  by_cases empty : segment.payload.size = 0
  · rw [if_pos empty] at few ⊢
    rw [if_pos empty]
    refine ⟨rfl, ?_, cats⟩
    rw [inserted, inserted]
    rfl
  · rw [if_neg empty] at few ⊢
    rw [if_neg empty]
    have benches : Bench.Twins rename (firstPiece segment now writer).lane limit up down
        ⟨(writer.sides.get segment.side).openBlock, cat⟩
        ⟨((writer.renumbered rename).sides.get segment.side).openBlock, cat'⟩ :=
      ⟨writer.openBlock_renumbered rename segment.side, lane ▸ cats⟩
    have bench' := dated'.bench found' (by have length := cats.length; omega)
    rw [firstPiece_renumbered] at bench'
    have placed : Bench.PlacedAlike rename (firstPiece segment now writer).lane limit up down
        (spread l config segment now writer cat)
        (spread l config segment now (writer.renumbered rename) cat') := by
      rw [spread, spread, firstPiece_renumbered]
      exact benches.placeAll renames room room' (dated.bench found announced) bench' matching _ _ _ _
    obtain ⟨outcome, benches'⟩ := placed few
    refine ⟨outcome, ?_, lane ▸ benches'.cats⟩
    rw [inserted, inserted, noted_renumbered benches'.current, Option.map_some]

end Twins

/-- Two desks that are alike, but for the references of their blocks, and for the slots of those whose
numbers were given from `next` on. -/
structure Alike (next : UInt64) (rename : Ref → Ref) (d d' : Desk) : Prop where
  lanes : ∀ lane, List.Forall₂ (Item.Renumbered next rename) (d.cat.inLane lane) (d'.cat.inLane lane)
  length : d'.cat.items.length = d.cat.items.length
  known : ∀ flow : FlowId, d'.writers[flow]? = d.writers[flow]?.map (WriterFlow.renumbered rename)

section Known

variable (dated : d.Dated l limit)
  (old : ∀ ref : Ref, ref.generation < d.cat.nextGeneration → rename ref = ref)
include dated old

theorem Dated.twins_self (lane : Nat) :
    List.Forall₂ (Item.Twin rename) (d.cat.inLane lane) (d.cat.inLane lane) := by
  refine List.forall₂_same.mpr fun item listed => ⟨?_, rfl, rfl⟩
  have known := (Catalog.mem_inLane.mp listed).1
  exact (old _ (dated.numbered.below item.entry (List.mem_map_of_mem known))).symm

theorem Dated.known_self (flow : FlowId) :
    d.writers[flow]? = d.writers[flow]?.map (WriterFlow.renumbered rename) := by
  cases known : d.writers[flow]? with
  | none => rfl
  | some writer =>
    rw [Option.map_some, WriterFlow.renumbered_eq_self fun side ref current =>
      old ref (dated.older flow writer side ref known current)]

end Known

section Swap

/-! Of the numbers from the next one on, the first put takes the lower ones if it comes first and the upper
ones if it comes second. Each put finds its own side as it was. -/

variable {first second : Segment} {d₁ d₂ : Desk}

variable (dated : d.Dated l limit) (flows : first.flow ≠ second.flow)
  (lanes : first.key.lane ≠ second.key.lane) (room : limit < l.maxBlocks.toNat)
include dated flows lanes room

theorem Spares.put_after (spares : Spares l limit first d d₁)
    (few : (d₁.put l config second now).2.cat.items.length = limit) :
    (d.put l config second now).1 = (d₁.put l config second now).1 ∧
      Twins (exchange d.cat.nextGeneration (d₁.cat.items.length - d.cat.items.length)
        (limit - d₁.cat.items.length)) second limit 0 (d₁.cat.items.length - d.cat.items.length)
        (d₁.put l config second now).2 (d.put l config second now).2 := by
  have last := dated.last
  have more := spares.more
  have next := spares.next
  have length := few ▸ @Fit.length_le l config second now d₁ spares.dated.toFit
  -- without the first put, the blocks of the second get numbers that are lower by what the first one took
  have renames := @renames_exchange d.cat.nextGeneration (d₁.cat.items.length - d.cat.items.length)
    (limit - d₁.cat.items.length) (by omega)
  have old := fun ref earlier => @exchange_of_lt d.cat.nextGeneration ref earlier
    (d₁.cat.items.length - d.cat.items.length) (limit - d₁.cat.items.length)
  have sooner : d.Dated l (limit - (d₁.cat.items.length - d.cat.items.length)) :=
    ⟨dated.toFit, dated.numbered, by omega, dated.older⟩
  refine Twins.put ⟨?_, ?_, by omega, fun key step small => exchange_eq ?_ key⟩ renames room (by omega)
    spares.dated sooner (by omega) few.le
  · rw [spares.writers _ flows]
    exact dated.known_self old second.flow
  · rw [spares.inLane _ lanes.symm]
    exact dated.twins_self old second.key.lane
  · rw [toNat_add_ofNat (by omega), toNat_add_ofNat (by omega), next]
    simp only [exchanged]
    split_ifs <;> omega

theorem Spares.put_before (spares : Spares l limit second d d₂)
    (length : d₂.cat.items.length + (d.put l config first now).2.cat.items.length =
      limit + d.cat.items.length)
    (few : (d.put l config first now).2.cat.items.length ≤ limit) :
    (d₂.put l config first now).1 = (d.put l config first now).1 ∧
      Twins (exchange d.cat.nextGeneration
        ((d.put l config first now).2.cat.items.length - d.cat.items.length)
        (limit - (d.put l config first now).2.cat.items.length)) first
        (d.put l config first now).2.cat.items.length
        (limit - (d.put l config first now).2.cat.items.length) 0
        (d.put l config first now).2 (d₂.put l config first now).2 := by
  have last := dated.last
  have next := spares.next
  have more := @Fit.length_le l config first now d dated.toFit
  -- behind the second put, the blocks of the first get numbers that are higher by what that one took
  have sooner : d.Dated l (d.put l config first now).2.cat.items.length :=
    ⟨dated.toFit, dated.numbered, by omega, dated.older⟩
  refine @Twins.put l config first now d d₂ _ _ limit _ 0
    ⟨?_, ?_, ?_, fun key step small => exchange_eq ?_ key⟩ (renames_exchange (by omega)) (by omega) (by omega)
    sooner spares.dated (by omega) (Nat.le_refl _)
  · rw [spares.writers _ flows.symm]
    exact dated.known_self (fun ref earlier => exchange_of_lt earlier _ _) first.flow
  · rw [spares.inLane _ lanes]
    exact dated.twins_self (fun ref earlier => exchange_of_lt earlier _ _) first.key.lane
  · omega
  · generalize (d.put l config first now).2.cat.items.length = total at *
    rw [toNat_add_ofNat (by omega), toNat_add_ofNat (by omega), next]
    simp only [exchanged]
    split_ifs <;> omega

theorem Dated.put_comm
    (few : ((d.put l config first now).2.put l config second now).2.cat.items.length = limit) :
    ((d.put l config first now).2.put l config second now).1 = (d.put l config second now).1 ∧
      ((d.put l config second now).2.put l config first now).1 = (d.put l config first now).1 ∧
      ∃ rename, Renames rename ∧ (∀ ref, ref.generation < d.cat.nextGeneration → rename ref = ref) ∧
        Alike d.cat.nextGeneration rename ((d.put l config first now).2.put l config second now).2
          ((d.put l config second now).2.put l config first now).2 := by
  have last := dated.last
  obtain ⟨_, gains⟩ := @Fit.put_spec l config first now d dated.toFit
  have few₁ := few ▸ @Fit.length_le l config second now _ gains.fit
  have spares₁ := @Dated.put_spares l config first now d limit dated few₁
  have more := spares₁.more
  obtain ⟨outcome₂, after₂⟩ := spares₁.put_after dated flows lanes room few
  have length₂ := after₂.cats.length
  rw [few] at length₂
  have spares₂ := @Dated.put_spares l config second now d limit dated (by omega)
  obtain ⟨outcome₁, after₁⟩ := @Spares.put_before l config now d limit first second _ dated flows lanes room
    spares₂ (by omega) few₁
  have length₁ := after₁.cats.length
  have spares₁₂ := @Dated.put_spares l config second now _ limit spares₁.dated few.le
  have spares₂₁ := @Dated.put_spares l config first now _ limit spares₂.dated (by omega)
  generalize (d.put l config first now).2 = d₁ at *
  generalize (d.put l config second now).2 = d₂ at *
  have old := fun ref earlier => @exchange_of_lt d.cat.nextGeneration ref earlier
    (d₁.cat.items.length - d.cat.items.length) (limit - d₁.cat.items.length)
  have lanes_twin (lane : Nat) : List.Forall₂
      (Item.Twin (exchange d.cat.nextGeneration (d₁.cat.items.length - d.cat.items.length)
        (limit - d₁.cat.items.length)))
      ((d₁.put l config second now).2.cat.inLane lane) ((d₂.put l config first now).2.cat.inLane lane) := by
    -- a side is written by one of the puts, and spared by the other, or spared by both
    by_cases one : lane = first.key.lane
    · subst one
      rw [spares₁₂.inLane _ lanes]
      exact after₁.cats.blocks
    by_cases two : lane = second.key.lane
    · subst two
      rw [spares₂₁.inLane _ lanes.symm]
      exact after₂.cats.blocks
    rw [spares₁₂.inLane _ two, spares₁.inLane _ one, spares₂₁.inLane _ one, spares₂.inLane _ two]
    exact dated.twins_self old lane
  obtain ⟨_, written₁⟩ := spares₁.written
  obtain ⟨_, written₁₂⟩ := spares₁₂.written
  obtain ⟨_, written₂⟩ := spares₂.written
  obtain ⟨_, written₂₁⟩ := spares₂₁.written
  have written := written₁.trans written₁₂
  have total := written.length
  refine ⟨outcome₂.symm, outcome₁, _, renames_exchange (by omega), old, fun lane => ?_, by omega,
    fun flow => ?_⟩
  · refine forall₂_of_mem (lanes_twin lane) fun x listed y listed' twin => ?_
    exact written.renumbered (written₂.trans written₂₁) dated.numbered (by omega)
      spares₂₁.dated.numbered.refs old
      (Catalog.mem_inLane.mp listed).1 (Catalog.mem_inLane.mp listed').1 twin
  · by_cases one : first.flow = flow
    · subst one
      rw [spares₁₂.writers _ flows.symm]
      exact after₁.known
    by_cases two : second.flow = flow
    · subst two
      rw [spares₂₁.writers _ flows]
      exact after₂.known
    rw [spares₁₂.writers _ two, spares₁.writers _ one, spares₂₁.writers _ one, spares₂.writers _ two]
    exact dated.known_self old flow

end Swap

end Desk

end Writing

namespace Commons

open Writing

/-- Two regions are the same, but for the numbers that blocks were given from `next` on, and for the slots
of these blocks. -/
structure Renumbered (l : Layout) (next : UInt64) (rename : Ref → Ref) (c c' : Commons) : Prop where
  renames : Renames rename
  old : ∀ ref : Ref, ref.generation < next → rename ref = ref
  blocks : ∀ flow side, List.Forall₂ (Item.Renumbered next rename)
    ((Catalog.itemsIn l c.bytes).filter fun item => item.lane = FlowKey.laneOf flow side)
    ((Catalog.itemsIn l c'.bytes).filter fun item => item.lane = FlowKey.laneOf flow side)
  count : (Catalog.countersIn c'.bytes).entryCount = (Catalog.countersIn c.bytes).entryCount
  handles : c'.handles = c.handles.map (Attachment.renumbered rename)

variable {l : Layout} {c : Commons} {cat : Catalog}

theorem Carrying.puts (carrying : Carrying l c cat) {index : Nat} {a : Attachment}
    (attached : c.handles[index]? = some a) (first second : Segment) (now : Micros) :
    ∃ d₁ d₂ : Desk, (Desk.put a.layout a.config first now ⟨a.writers, cat⟩).2 = d₁ ∧
      (Desk.put a.layout a.config second now d₁).2 = d₂ ∧
      (c.run [.operate index (.put first now), .operate index (.put second now)]).handles =
        c.handles.set index { a with writers := d₂.writers } ∧
      Carrying l (c.run [.operate index (.put first now), .operate index (.put second now)]) d₂.cat ∧
      c.answers [.operate index (.put first now), .operate index (.put second now)] =
        [.put (Desk.put a.layout a.config first now ⟨a.writers, cat⟩).1,
          .put (Desk.put a.layout a.config second now d₁).1] := by
  refine ⟨_, _, rfl, rfl, ?_⟩
  obtain ⟨bytes₁, stepped₁, carrying₁⟩ := carrying.operate attached (.put first now)
  have attached₁ : (c.step (.operate index (.put first now))).handles[index]? =
      some (Operation.effect a cat (.put first now)).1 := by
    rw [stepped₁]
    exact List.getElem?_set_self (List.getElem?_eq_some_iff.mp attached).1
  obtain ⟨bytes₂, stepped₂, carrying₂⟩ := carrying₁.operate attached₁ (.put second now)
  refine ⟨?_, carrying₂, ?_⟩
  · refine (congrArg Commons.handles stepped₂).trans ?_
    dsimp only
    rw [stepped₁]
    exact List.set_set ..
  · rw [answers, answers, answers, carrying.told_operate attached, carrying₁.told_operate attached₁]
    rfl

theorem Dated.puts_swap (dated : Dated l c cat) {index : Nat} {a : Attachment}
    (attached : c.handles[index]? = some a) {first second : Segment} (now : Micros)
    (flows : first.flow ≠ second.flow) (lanes : first.key.lane ≠ second.key.lane)
    (room : (Catalog.countersIn (c.run
      [.operate index (.put first now), .operate index (.put second now)]).bytes).entryCount.toNat <
        l.maxBlocks.toNat)
    (last : cat.nextGeneration.toNat + c.addedBy
      [.operate index (.put first now), .operate index (.put second now)] < UInt64.size) :
    (∃ outcome outcome',
      c.answers [.operate index (.put first now), .operate index (.put second now)] =
        [.put outcome, .put outcome'] ∧
      c.answers [.operate index (.put second now), .operate index (.put first now)] =
        [.put outcome', .put outcome]) ∧
    ∃ rename, Renumbered l (Catalog.countersIn c.bytes).nextGeneration rename
      (c.run [.operate index (.put first now), .operate index (.put second now)])
      (c.run [.operate index (.put second now), .operate index (.put first now)]) := by
  have member := List.mem_of_getElem? attached
  obtain rfl := (dated.tidy a member).layout
  have added := entryCount_run_le c [.operate index (.put first now), .operate index (.put second now)]
  have number : (Catalog.countersIn c.bytes).nextGeneration = cat.nextGeneration := dated.carries.next
  obtain ⟨_, d₂, rfl, put₂, handles, carrying, answers⟩ := dated.puts attached first second now
  obtain ⟨_, e₂, rfl, put₂', handles', carrying', answers'⟩ := dated.puts attached second first now
  rw [← carrying.count, ← dated.count] at added
  rw [← carrying.count] at room
  have desk : Desk.Dated a.layout d₂.cat.items.length ⟨a.writers, cat⟩ := dated.desk member (by omega)
  obtain ⟨outcome₂, outcome₁, rename, renames, old, alike⟩ := desk.put_comm flows lanes room (by rw [put₂])
  rw [put₂, put₂'] at alike
  rw [number]
  refine ⟨⟨_, _, answers, ?_⟩, rename, renames, old, fun flow side => ?_, ?_, ?_⟩
  · rw [answers', outcome₁, outcome₂]
  · rw [carrying.carries.itemsIn_eq, carrying'.carries.itemsIn_eq]
    exact alike.lanes _
  · rw [← UInt32.toNat_inj, ← carrying.count, ← carrying'.count]
    exact alike.length
  · have others : c.handles.map (Attachment.renumbered rename) = c.handles :=
      (List.map_congr_left fun other present => Attachment.renumbered_eq_self
        (WriterFlows.Opens.mono (dated.older other present) fun _ _ => old)).trans (List.map_id _)
    have writers : d₂.writers.map (fun _ writer => writer.renumbered rename) = e₂.writers :=
      Std.ExtTreeMap.ext_getElem? fun flow => Std.ExtTreeMap.getElem?_map.trans (alike.known flow).symm
    rw [handles, handles', List.map_set, others, Attachment.renumbered, writers]

/-- Puts of one handle to different flows commute: each has the same outcome in both orders, and both orders
leave the same blocks and the same knowledge of the flows, but for the numbers and slots of the blocks that
the two puts stored. It is enough that the store is not full after one of the orders. -/
theorem Fresh.puts_commute {start : Commons} (fresh : start.Fresh) (moves : List Move) {index : Nat}
    {a : Attachment} (attached : (start.run moves).handles[index]? = some a) {first second : Segment}
    (now : Micros) (flows : first.flow ≠ second.flow) (checked : first.flow.raw.toNat < 0x80000000)
    (checked' : second.flow.raw.toNat < 0x80000000)
    (room : (Catalog.countersIn ((start.run moves).run
      [.operate index (.put first now), .operate index (.put second now)]).bytes).entryCount.toNat <
        a.layout.maxBlocks.toNat)
    (few : start.addedBy (moves ++
      [.operate index (.put first now), .operate index (.put second now)]) < UInt64.size) :
    (∃ outcome outcome',
      (start.run moves).answers [.operate index (.put first now), .operate index (.put second now)] =
        [.put outcome, .put outcome'] ∧
      (start.run moves).answers [.operate index (.put second now), .operate index (.put first now)] =
        [.put outcome', .put outcome]) ∧
    ∃ rename, Renumbered a.layout (Catalog.countersIn (start.run moves).bytes).nextGeneration rename
      ((start.run moves).run [.operate index (.put first now), .operate index (.put second now)])
      ((start.run moves).run [.operate index (.put second now), .operate index (.put first now)]) := by
  obtain ⟨l, begun⟩ := fresh.dated
  rw [addedBy_append] at few
  have zero : Catalog.empty.nextGeneration.toNat = 0 := rfl
  obtain ⟨cat, dated, next⟩ := begun.run moves (by omega)
  obtain rfl := (dated.tidy a (List.mem_of_getElem? attached)).layout
  have lanes : first.key.lane ≠ second.key.lane := by
    rw [Segment.key, Segment.key, FlowKey.lane_pack, FlowKey.lane_pack]
    exact fun same => flows (FlowKey.laneOf_inj checked checked' same).1
  exact dated.puts_swap attached now flows lanes room (by omega)

/-- Bytes of a known flow behind a gap, and the first bytes of another flow. Three blocks are stored. -/
theorem puts_commute_beside : ∃ start : Commons, start.Fresh ∧ ∃ (moves : List Move) (a : Attachment)
    (first second : Segment), (start.run moves).handles[0]? = some a ∧ first.flow ≠ second.flow ∧
      (Catalog.countersIn (start.run moves).bytes).entryCount.toNat = 2 ∧
      (Catalog.countersIn ((start.run moves).run [.operate 0 (.put first 1000001),
        .operate 0 (.put second 1000001)]).bytes).entryCount.toNat = 5 ∧
      (∃ outcome outcome',
        (start.run moves).answers [.operate 0 (.put first 1000001), .operate 0 (.put second 1000001)] =
          [.put outcome, .put outcome'] ∧
        (start.run moves).answers [.operate 0 (.put second 1000001), .operate 0 (.put first 1000001)] =
          [.put outcome', .put outcome]) ∧
      ∃ rename, Renumbered a.layout (Catalog.countersIn (start.run moves).bytes).nextGeneration rename
        ((start.run moves).run [.operate 0 (.put first 1000001), .operate 0 (.put second 1000001)])
        ((start.run moves).run [.operate 0 (.put second 1000001), .operate 0 (.put first 1000001)]) := by
  obtain ⟨start, fresh, handles, carrying⟩ :=
    (@Commons.Fresh.of_config ({ blockCapacity := 64, maxBlocks := 8 })) rfl rfl
  let operations : List Operation := [.put ⟨⟨7⟩, .source, ⟨100⟩, ⟨#[3, 4, 5]⟩⟩ 1000000]
  let first : Segment := ⟨⟨7⟩, .source, ⟨200⟩, ⟨#[6, 7]⟩⟩
  let second : Segment := ⟨⟨8⟩, .destination, ⟨5⟩, ⟨#[8]⟩⟩
  let puts : List Operation := [.put first 1000001, .put second 1000001]
  have few : start.addedBy (operations.map (.operate 0) ++ puts.map (.operate 0)) < UInt64.size := by
    have bound := carrying.addedBy_le (operations.map (.operate 0) ++ puts.map (.operate 0))
    have blocks : 3 * UInt32.toNat 8 < UInt64.size := by decide
    exact Nat.lt_of_le_of_lt bound blocks
  obtain ⟨attached, before⟩ := carrying.alone handles operations
  obtain ⟨_, after⟩ := carrying.alone handles (operations ++ puts)
  have joined : (start.run (operations.map (.operate 0))).run (puts.map (.operate 0)) =
      start.run ((operations ++ puts).map (.operate 0)) := by
    rw [List.map_append]
    exact List.foldl_append.symm
  rw [← joined] at after
  have stored : (Catalog.countersIn ((start.run (operations.map (.operate 0))).run
      (puts.map (.operate 0))).bytes).entryCount.toNat = 5 := by
    rw [← after.count]
    decide +kernel
  have known := (congrArg (fun handles : List Attachment => handles[0]?) attached).trans
    List.getElem?_cons_zero
  refine ⟨start, fresh, operations.map (.operate 0), _, first, second, known, by decide, ?_, stored,
    fresh.puts_commute _ known 1000001 (by decide) (by decide) (by decide) ?_ few⟩
  · rw [← before.count]
    decide +kernel
  · refine stored.trans_lt ?_
    decide +kernel

end Commons

end Reassembly
