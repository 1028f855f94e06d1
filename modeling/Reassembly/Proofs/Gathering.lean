import Reassembly.Proofs.Harvest

/-!
Gathering traffic. While the pieces of some streams are put in any order, with sweeps, look-ups and polls
in between, the store holds frames of these streams only, every put leaves its bytes there, and each flow
with bytes in the store stays announced and is owned by one shard at most, that has not read anything.
-/

namespace Reassembly

open Store Reading Delivery Writing

namespace Traffic

variable {t : Traffic} {segment : Segment}

/-- The segment is a piece of a stream. -/
def Feeds (t : Traffic) (segment : Segment) : Prop :=
  0 < segment.payload.size ∧ ∃ stream, t.stream? segment.flow segment.side = some stream ∧
    stream.Cuts ⟨segment.sequence, segment.payload⟩

theorem Feeds.checked (feeds : t.Feeds segment) : segment.flow.raw.toNat < 0x80000000 := by
  obtain ⟨_, stream, known, _⟩ := feeds
  exact t.checked segment.flow segment.side (by rw [known]; rfl)

theorem Feeds.short (feeds : t.Feeds segment) : segment.payload.size < Seq.halfTurn := by
  obtain ⟨_, stream, _, cut⟩ := feeds
  have fits := cut.spec.1
  have short := stream.short
  rw [Stream.stop] at fits
  dsimp only at fits
  omega

theorem Feeds.cuts (feeds : t.Feeds segment) {f : Block.Frame}
    (cut : f.CutFrom segment.sequence segment.payload) :
    ∃ flow side stream, t.stream? flow side = some stream ∧
      segment.key.lane = FlowKey.laneOf flow side ∧ stream.Cuts f := by
  obtain ⟨_, stream, known, cuts⟩ := feeds
  exact ⟨segment.flow, segment.side, stream, known, FlowKey.lane_pack .., cuts.trans cut⟩

theorem Cuts.grow {lane : Nat} {fresh : Block.Frame → Prop} {before after : List Item}
    (cuts : t.Cuts before) (grows : Grows lane fresh before after)
    (new : ∀ f, fresh f → ∃ flow side stream, t.stream? flow side = some stream ∧
      lane = FlowKey.laneOf flow side ∧ stream.Cuts f) : t.Cuts after :=
  grows.forall_frames (fun lane f => ∃ flow side stream, t.stream? flow side = some stream ∧
    lane = FlowKey.laneOf flow side ∧ stream.Cuts f) cuts new

end Traffic

namespace Store

variable {cat : Catalog} (idle now : Micros)

theorem Item.frames_swept (item : Item) : (item.swept idle now).frames = item.frames := by
  rw [Item.swept]
  split
  · rfl
  · rfl

theorem covers_swept {lane : Nat} {position : Seq} :
    Covers (cat.swept idle now).items lane position ↔ Covers cat.items lane position := by
  simp only [Covers, Catalog.swept, List.mem_map, exists_exists_and_eq_and, Item.lane, Item.key,
    Item.entry_swept, Item.isPayload, Item.kind_swept, Item.frames_swept]

theorem forall_frames_swept (holds : Nat → Block.Frame → Prop)
    (old : ∀ item ∈ cat.items, ∀ f ∈ item.frames, holds item.lane f) :
    ∀ item ∈ (cat.swept idle now).items, ∀ f ∈ item.frames, holds item.lane f := by
  intro item member f present
  obtain ⟨before, known, rfl⟩ := List.mem_map.mp member
  rw [Item.frames_swept] at present
  have lane : (before.swept idle now).lane = before.lane := by
    rw [Item.lane, Item.key, Item.entry_swept]
    rfl
  rw [lane]
  exact old before known f present

end Store

theorem Traffic.Cuts.swept {t : Traffic} {cat : Catalog} (cuts : t.Cuts cat.items)
    (idle now : Micros) : t.Cuts (cat.swept idle now).items :=
  forall_frames_swept idle now (fun lane f => ∃ flow side stream, t.stream? flow side = some stream ∧
    lane = FlowKey.laneOf flow side ∧ stream.Cuts f) cuts

namespace Site

/-- The deed goes through the first handle and gathers traffic: it puts a piece, sweeps, looks something
up, or polls. -/
def Deed.Gathers (t : Traffic) : Deed → Prop
  | .move (.operate index (.put segment _)) => index = 0 ∧ t.Feeds segment
  | .move (.operate _ (.removeFlow _)) | .move (.operate _ (.erase _ _)) => False
  | .move (.operate index _) | .poll index _ => index = 0
  | .move (.attach _ _) | .drain _ _ _ => False

def HasRoom (s : Site) : Prop := ∀ a ∈ s.commons.handles,
  (Catalog.itemsIn a.layout s.commons.bytes).length < a.layout.maxBlocks.toNat

/-- What a scene is like, as of `now`, while one handle gathers traffic. -/
structure Gathered (t : Traffic) (a : Attachment) (now : Micros) (sc : Scene) : Prop where
  alone : sc.handles = [a]
  stamped : ∀ item ∈ sc.cat.items, 0 < item.header.lastUpdate ∧ item.header.lastUpdate ≤ now
  counted : sc.cat.nextGeneration.toNat ≤ sc.cat.items.length
  cuts : t.Cuts sc.cat.items
  known : ∀ (flow : FlowId) (writer : WriterFlow), a.writers[flow]? = some writer →
    Marked sc.cat.items flow.keyed
  announced : ∀ flow, Stocked sc.cat.items flow ↔ Marked sc.cat.items flow
  assigned : sc.team.Assigned
  unread : ∀ index flow position, sc.team.position? index flow = some position →
    position.expected = .both none ∧ Stocked sc.cat.items flow
  silent : sc.events = #[]

theorem marked_of_due {cat : Catalog} {v : View} {rotation : Option Ref} {marker : Stored}
    (due : marker ∈ dueMarkers v (cat.rotated rotation)) : Marked cat.items marker.flow := by
  obtain ⟨item, listed, rfl⟩ := List.mem_map.mp due
  obtain ⟨there, ready⟩ := List.mem_filter.mp listed
  rw [Item.isReadyMarker, Bool.and_eq_true, decide_eq_true_eq] at ready
  exact ⟨item, (cat.rotated_perm rotation).mem_iff.mp there, ready.1, rfl⟩

namespace Gathered

variable {t : Traffic} {a : Attachment} {now : Micros} {sc : Scene} (gathered : Gathered t a now sc)
include gathered

theorem attached : sc.handles[0]? = some a := by
  rw [gathered.alone]
  rfl

theorem later {next : Micros} (le : now ≤ next) : Gathered t a next sc :=
  { gathered with
    stamped := fun item member =>
      (gathered.stamped item member).imp id fun noted => UInt64.le_trans noted le }

theorem replace {a' : Attachment} (fewer : ∀ (flow : FlowId) (writer : WriterFlow),
    a'.writers[flow]? = some writer → a.writers[flow]? = some writer) :
    Gathered t a' now { sc with handles := sc.handles.set 0 a' } :=
  { gathered with
    alone := by
      dsimp only
      rw [gathered.alone]
      rfl
    known := fun flow writer listed => gathered.known flow writer (fewer flow writer listed) }

theorem swept {time : Micros} (le : now ≤ time) (idle : Micros) :
    Gathered t a time { sc with cat := sc.cat.swept idle time } := by
  refine ⟨gathered.alone, fun item member => ?_, ?_, gathered.cuts.swept idle time,
    fun flow writer listed => ?_, fun flow => ?_, gathered.assigned, fun index flow position stands => ?_,
    gathered.silent⟩
  · obtain ⟨old, known, rfl⟩ := List.mem_map.mp member
    obtain ⟨started, noted⟩ := (gathered.later le).stamped old known
    rw [Item.swept]
    split
    · exact ⟨UInt64.lt_of_lt_of_le started noted, UInt64.le_refl _⟩
    · exact ⟨started, noted⟩
  · dsimp only
    rw [Catalog.swept, List.length_map]
    exact gathered.counted
  · exact (marked_swept idle time).mpr (gathered.known flow writer listed)
  · rw [stocked_swept, marked_swept]
    exact gathered.announced flow
  · exact (gathered.unread index flow position stands).imp id (stocked_swept idle time).mpr

theorem polled (time : Micros) {markers : List Stored}
    (marked : ∀ marker ∈ markers, Marked sc.cat.items marker.flow) :
    Gathered t a now { sc with team := sc.team.polled time markers } := by
  refine { gathered with
    assigned := gathered.assigned.polled time markers
    unread := fun index flow position stands => ?_ }
  rcases sc.team.polled_position time markers index flow with same | ⟨_, marker, listed, rfl, fresh⟩
  · exact gathered.unread index flow position (same.symm.trans stands)
  · obtain rfl := Option.some.inj (fresh.symm.trans stands)
    exact ⟨rfl, (gathered.announced _).mpr (marked marker listed)⟩

theorem sweep {time : Micros} (le : now ≤ time) :
    Gathered t ((Operation.sweep time).effect a sc.cat).1 time
      (sc.effect (.move (.operate 0 (.sweep time)))) := by
  have there := gathered.attached
  simp only [Scene.effect, there]
  refine (gathered.swept le _).replace fun flow writer kept => ?_
  exact WriterFlows.mem_of_keepFresh kept

theorem poll {time : Micros} (le : now ≤ time) (due : sc.team.tooSoon time = false) :
    Gathered t (Shift.polled a time sc.cat) time (sc.effect (.poll 0 time)) := by
  have there := gathered.attached
  simp only [Scene.effect, there, due, Bool.false_eq_true, if_false]
  refine ((gathered.swept le a.config.blockIdleTimeout).polled time
    fun marker listed => marked_of_due listed).replace fun flow writer kept => ?_
  exact WriterFlows.mem_of_keepFresh kept

end Gathered

theorem Tracks.length_lt_of_hasRoom {l : Layout} {s : Site} {sc : Scene} (tracks : Tracks l s sc)
    (room : s.HasRoom) (manned : sc.handles ≠ []) : sc.cat.items.length < l.maxBlocks.toNat := by
  obtain ⟨a, there⟩ := List.exists_mem_of_ne_nil _ manned
  rw [← tracks.handles] at there
  have free := room a there
  rw [(tracks.commons.seen there).itemsIn_eq, (tracks.commons.tidy a there).layout] at free
  exact free

namespace Carrying

variable {l : Layout} {s : Site} {sc : Scene} {t : Traffic} {a : Attachment} {now : Micros}
  (carrying : Carrying l s sc) (gathered : Gathered t a now sc)
include carrying gathered

theorem covers_put {segment : Segment} {time : Micros}
    (room : (Desk.put a.layout a.config segment time ⟨a.writers, sc.cat⟩).2.cat.items.length <
      a.layout.maxBlocks.toNat) {step : Nat} (inside : step < segment.payload.size) :
    Covers (Desk.put a.layout a.config segment time ⟨a.writers, sc.cat⟩).2.cat.items
      segment.key.lane (segment.sequence.advance step) := by
  obtain ⟨count, gains⟩ := (carrying.desk gathered.attached).put_spec
  have whole : count = segment.payload.size := by
    refine Nat.le_antisymm gains.inside (Nat.not_lt.mp fun short => ?_)
    have full := gains.fit.ordered.nextSlot?_eq_none_iff.mp (gains.whole short)
    exact absurd full (Nat.ne_of_lt room)
  exact (gains.covers _).mpr (.inr ⟨step, whole ▸ inside, rfl⟩)

/-- A put leaves its flow announced: by the marker it adds, or, where the writer knows the
flow, by the one that the flow has since it was last put. -/
theorem marked_put {segment : Segment} {time : Micros}
    (stocked : Stocked (Desk.put a.layout a.config segment time ⟨a.writers, sc.cat⟩).2.cat.items
      segment.key.flow) :
    Marked (Desk.put a.layout a.config segment time ⟨a.writers, sc.cat⟩).2.cat.items
      segment.key.flow := by
  have fit := carrying.desk gathered.attached
  cases found : Desk.announce? a.layout a.config segment time ⟨a.writers, sc.cat⟩ with
  | none =>
    rw [Desk.put_of_unannounced found] at stocked
    exact fit.put_marked ((gathered.announced _).mp stocked)
  | some pair =>
    refine fit.put_marked_own found fun known => ?_
    obtain ⟨writer, listed, _⟩ := Desk.known?_isSome.mp known
    rw [segment.flow_key]
    exact gathered.known _ _ listed

theorem gathered_put {segment : Segment} {time : Micros} (feeds : t.Feeds segment)
    (later : now ≤ time) (started : 0 < time)
    (room : (Desk.put a.layout a.config segment time ⟨a.writers, sc.cat⟩).2.cat.items.length <
      a.layout.maxBlocks.toNat) :
    Gathered t ((Operation.put segment time).effect a sc.cat).1 time
        (sc.effect (.move (.operate 0 (.put segment time)))) ∧
      ∀ step, step < segment.payload.size →
        Covers (sc.effect (.move (.operate 0 (.put segment time)))).cat.items segment.key.lane
          (segment.sequence.advance step) := by
  have there := gathered.attached
  have fit := carrying.desk there
  obtain ⟨count, gains⟩ := fit.put_spec
  have covers : ∀ step, step < segment.payload.size →
      Covers (Desk.put a.layout a.config segment time ⟨a.writers, sc.cat⟩).2.cat.items
        segment.key.lane (segment.sequence.advance step) :=
    fun _ inside => carrying.covers_put gathered room inside
  have stocked : Stocked (Desk.put a.layout a.config segment time ⟨a.writers, sc.cat⟩).2.cat.items
      segment.key.flow := by
    obtain ⟨item, member, lane, payload, _⟩ := covers 0 feeds.1
    exact ⟨item, member, payload, ((FlowKey.lane_eq_iff _ _).mp lane).1⟩
  have marked := carrying.marked_put gathered stocked
  simp only [Scene.effect, there]
  refine ⟨⟨?_, ?_, ?_, ?_, ?_, ?_, gathered.assigned, ?_, gathered.silent⟩, covers⟩
  · rw [gathered.alone]
    rfl
  · refine @Writing.Desk.Fit.put_lastUpdate _ _ _ _ _ fit (fun noted => 0 < noted ∧ noted ≤ time)
      ⟨started, UInt64.le_refl _⟩ fun item member => ?_
    exact (gathered.stamped item member).imp id fun le => UInt64.le_trans le later
  · exact fit.put_counted gathered.counted
  · exact gathered.cuts.grow gains.grows fun f cut => feeds.cuts cut
  · intro flow writer listed
    cases found : Desk.announce? a.layout a.config segment time ⟨a.writers, sc.cat⟩ with
    | none =>
      rw [Operation.effect, Desk.put_of_unannounced found] at listed
      exact fit.put_marked (gathered.known flow writer listed)
    | some pair =>
      obtain ⟨noted, _, writers⟩ := Desk.put_noted found
      rw [Operation.effect] at listed
      dsimp only at listed
      rw [writers, FlowId.getElem?_insert] at listed
      split at listed
      · next same =>
        rw [← same, ← segment.flow_key]
        exact marked
      · exact fit.put_marked (gathered.known flow writer listed)
  · refine fun flow => ⟨fun after => ?_, fun after => ?_⟩
    · rcases fit.stocked_of_put after with before | rfl
      · exact fit.put_marked ((gathered.announced flow).mp before)
      · exact marked
    · rcases fit.marked_of_put after with before | rfl
      · exact fit.put_stocked ((gathered.announced flow).mpr before)
      · exact stocked
  · intro index flow position stands
    exact (gathered.unread index flow position stands).imp id fit.put_stocked

theorem gathered_step {deed : Deed} (gathers : deed.Gathers t)
    (future : ∀ time, deed.time? = some time → now ≤ time ∧ 0 < time)
    (room : (sc.effect deed).cat.items.length < a.layout.maxBlocks.toNat) :
    ∃ a', a'.config = a.config ∧ a'.layout = a.layout ∧
      Gathered t a' (deed.time?.getD now) (sc.effect deed) ∧
      (∀ lane position, Covers sc.cat.items lane position →
        Covers (sc.effect deed).cat.items lane position) ∧
      ∀ segment time, deed = .move (.operate 0 (.put segment time)) →
        ∀ step, step < segment.payload.size → Covers (sc.effect deed).cat.items segment.key.lane
          (segment.sequence.advance step) := by
  have there := gathered.attached
  rcases deed with (_ | ⟨index, operation⟩) | ⟨index, time⟩ | _
  · exact gathers.elim
  · cases operation with
    | put segment time =>
      obtain ⟨rfl, feeds⟩ := gathers
      obtain ⟨later, started⟩ := future time rfl
      have fit := carrying.desk there
      simp only [Scene.effect, there] at room
      obtain ⟨after, covers⟩ := carrying.gathered_put gathered feeds later started room
      refine ⟨_, ?_, ?_, after, fun lane position held => ?_, fun other at_time same => ?_⟩
      · rfl
      · rfl
      · obtain ⟨_, gains⟩ := fit.put_spec
        simp only [Scene.effect, there]
        exact gains.grows.covers held
      · cases same
        exact covers
    | removeFlow flow => exact gathers.elim
    | erase ref time => exact gathers.elim
    | sweep time =>
      obtain rfl : index = 0 := gathers
      refine ⟨_, ?_, ?_, gathered.sweep (future time rfl).1, fun lane position held => ?_,
        fun _ _ same => by cases same⟩
      · rfl
      · rfl
      · simp only [Scene.effect, there]
        exact (covers_swept _ time).mpr held
    | nextMarker time | firstFrom key time | next ref time =>
      obtain rfl : index = 0 := gathers
      simp only [Scene.effect, there]
      refine ⟨_, ?_, ?_, (gathered.later (future time rfl).1).replace fun flow writer kept => ?_,
        fun lane position held => held,
        fun _ _ same => by cases same⟩
      · rfl
      · rfl
      · exact kept
    | occupancy =>
      obtain rfl : index = 0 := gathers
      simp only [Scene.effect, there]
      refine ⟨_, ?_, ?_, gathered.replace fun flow writer kept => ?_, fun lane position held => held,
        fun _ _ same => by cases same⟩
      · rfl
      · rfl
      · exact kept
  · obtain rfl : index = 0 := gathers
    have later := (future time rfl).1
    cases due : sc.team.tooSoon time with
    | true =>
      simp only [Scene.effect, there, due, if_true]
      exact ⟨a, rfl, rfl, gathered.later later, fun _ _ held => held,
        fun _ _ same => by cases same⟩
    | false =>
      refine ⟨_, ?_, ?_, gathered.poll later due, fun lane position held => ?_,
        fun _ _ same => by cases same⟩
      · rfl
      · rfl
      · simp only [Scene.effect, there, due, Bool.false_eq_true, if_false]
        exact (covers_swept _ time).mpr held
  · exact gathers.elim

theorem gathered_few {deed : Deed} (gathers : deed.Gathers t) :
    sc.cat.nextGeneration.toNat + deed.insertions < UInt64.size := by
  have counted := gathered.counted
  have small := carrying.ordered.length_le
  have blocks := l.maxBlocks.toNat_lt
  have short : deed.insertions ≤ Seq.halfTurn := by
    rcases deed with (_ | ⟨index, operation⟩) | _ | _
    · exact Nat.zero_le _
    · cases operation with
      | put segment time => exact gathers.2.short
      | _ => exact Nat.zero_le _
    · exact Nat.zero_le _
    · exact Nat.zero_le _
  rw [Seq.halfTurn] at short
  rw [UInt64.size]
  omega

end Carrying

theorem Carrying.gathered_run {l : Layout} {s : Site} {sc : Scene} {t : Traffic} {a : Attachment}
    {now : Micros} (carrying : Carrying l s sc) (gathered : Gathered t a now sc) {deeds : List Deed}
    (gathers : ∀ deed ∈ deeds, deed.Gathers t)
    (times : (now :: deeds.filterMap Deed.time?).Pairwise (· ≤ ·))
    (started : ∀ time ∈ deeds.filterMap Deed.time?, 0 < time)
    (room : ∀ count, (s.run (deeds.take count)).HasRoom) :
    ∃ a' last sc', a'.config = a.config ∧ Carrying l (s.run deeds) sc' ∧ Gathered t a' last sc' ∧
      sc'.team.shards.size = sc.team.shards.size ∧
      last ∈ now :: deeds.filterMap Deed.time? ∧
      (∀ lane position, Covers sc.cat.items lane position → Covers sc'.cat.items lane position) ∧
      ∀ segment time, .move (.operate 0 (.put segment time)) ∈ deeds →
        ∀ step, step < segment.payload.size →
          Covers sc'.cat.items segment.key.lane (segment.sequence.advance step) := by
  induction deeds generalizing s sc a now with
  | nil => exact ⟨a, now, sc, rfl, carrying, gathered, rfl, List.mem_cons_self, fun _ _ held => held,
        fun _ _ same => by cases same⟩
  | cons first rest ih =>
    have gathers₀ := gathers first List.mem_cons_self
    obtain ⟨sc', turns, after, _⟩ := carrying.step first (carrying.gathered_few gathered gathers₀)
    obtain rfl := turns.eq_effect fun handle config same => by
      rw [same] at gathers₀
      exact gathers₀
    have future : ∀ time, first.time? = some time → now ≤ time ∧ 0 < time := by
      intro time looks
      exact ⟨Deed.time_le times looks,
        started time (List.mem_filterMap.mpr ⟨first, List.mem_cons_self, looks⟩)⟩
    have manned : (sc.effect first).handles ≠ [] := by
      rw [← List.length_pos_iff, sc.length_effect, gathered.alone]
      exact Nat.one_pos
    have layout : a.layout = l :=
      ((@Site.Tracks.attached _ _ _ carrying.toTracks 0) (by rw [gathered.alone]; rfl)).2.1
    have free := after.length_lt_of_hasRoom (room 1) manned
    rw [← layout] at free
    obtain ⟨a₁, config₁, _, gathered₁, kept, put⟩ := carrying.gathered_step gathered gathers₀ future free
    obtain ⟨a', last, sc', config', carrying', gathered', size, listed, held, puts⟩ := ih after gathered₁
      (fun deed listed => gathers deed (List.mem_cons_of_mem _ listed)) (Deed.times_rest times)
      (fun time listed => started time (Deed.times_subset listed))
      fun count => room (count + 1)
    refine ⟨a', last, sc', config'.trans config₁, carrying', gathered',
      size.trans (sc.size_effect first), Deed.mem_times listed,
      fun lane position before => held _ _ (kept _ _ before), fun segment time listed step inside => ?_⟩
    rcases List.mem_cons.mp listed with rfl | there
    · exact held _ _ (put segment time rfl step inside)
    · exact puts segment time there step inside

end Site

end Reassembly
