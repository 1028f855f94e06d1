import Reassembly.Proofs.Gathering

/-!
From end to end. Traffic that is put in pieces, in any order and with any overlaps, into a store with room
for it, and that is then left alone, swept, left alone again, polled and drained by every shard, is told
to the reader byte for byte.
-/

namespace Reassembly

open Store Reading Delivery Writing

namespace Store.Item

structure Settled (since : Micros) (item : Item) : Prop where
  complete : item.header.isComplete = true
  used : 0 < item.header.usedLen
  started : 0 < item.header.lastUpdate
  early : item.header.lastUpdate ≤ since

variable {item : Item} {idle since now : Micros}

theorem Settled.swept_eq (settled : item.Settled since) (idle now : Micros) : item.swept idle now = item := by
  rw [swept, isIdle, settled.complete]
  rfl

theorem expired_of_waited {header : Block.Header} (used : 0 < header.usedLen)
    (started : 0 < header.lastUpdate) (waited : idle < elapsed now header.lastUpdate) :
    header.expired now idle = true := by
  rw [Block.Header.expired, decide_eq_true used, decide_eq_true waited, Bool.true_and, Bool.and_true,
    bne_iff_ne]
  exact Ne.symm (UInt64.ne_of_lt started)

theorem Sound.used (sound : item.Sound) : 0 < item.header.usedLen := by
  rw [UInt64.lt_iff_toNat_lt]
  change 0 < item.header.used
  rcases sound with marker | ⟨chunks, streams⟩
  · rw [marker.used, marker.body, Bytes.size_ofU32]
    exact Nat.zero_lt_succ 3
  · rw [streams.used_eq, Block.initialSize]
    omega

theorem Settled.ready (settled : item.Settled since) (waited : idle < elapsed now since) :
    item.header.isReady now idle = true := by
  rw [Block.Header.isReady, settled.complete, Bool.true_and]
  refine expired_of_waited settled.used settled.started ?_
  exact UInt64.lt_of_lt_of_le waited (elapsed_anti settled.early)

theorem Sound.settled {last : Micros} (sound : item.Sound) (started : 0 < item.header.lastUpdate)
    (noted : item.header.lastUpdate ≤ last) (waited : idle < elapsed now last) :
    (item.swept idle now).Settled now := by
  have old := (@elapsed_anti now) noted
  have expired := expired_of_waited sound.used started (UInt64.lt_of_lt_of_le waited old)
  have later : last ≤ now := by
    rw [UInt64.le_iff_toNat_le]
    rw [UInt64.lt_iff_toNat_lt, toNat_elapsed] at waited
    omega
  rw [swept, isIdle, expired, Bool.and_true]
  cases complete : item.header.isComplete with
  | true => exact ⟨complete, sound.used, started, UInt64.le_trans noted later⟩
  | false =>
    exact ⟨rfl, sound.used, UInt64.lt_of_lt_of_le started (UInt64.le_trans noted later), UInt64.le_refl _⟩

theorem swept_of_settled {cat : Catalog} (settled : ∀ item ∈ cat.items, item.Settled since) (idle now : Micros) :
    cat.swept idle now = cat := by
  have same : cat.items.map (Item.swept idle now) = cat.items := by
    conv_rhs => rw [← List.map_id cat.items]
    exact List.map_congr_left fun item member => (settled item member).swept_eq idle now
  rw [Catalog.swept, same]

end Store.Item

namespace Site

/-- Pieces of some traffic are put through the first handle, at times that do not go back, until all of
it was put. Some block slot is always free. -/
structure Feeding (t : Traffic) (start : Site) (deeds : List Deed) : Prop where
  gathers : ∀ deed ∈ deeds, deed.Gathers t
  times : (deeds.filterMap Deed.time?).Pairwise (· ≤ ·)
  started : ∀ time ∈ deeds.filterMap Deed.time?, 0 < time
  room : ∀ count, (start.run (deeds.take count)).HasRoom
  whole : ∀ flow side stream, t.stream? flow side = some stream → ∀ place, place < stream.bytes.size →
    ∃ segment time, .move (.operate 0 (.put segment time)) ∈ deeds ∧ segment.flow = flow ∧
      segment.side = side ∧ ∃ step, step < segment.payload.size ∧
        segment.sequence.advance step = stream.initial.advance place

/-- A sweep, a poll and one round of each shard. -/
def closing (swept polled : Micros) (rounds : List (Nat × Micros)) : List Deed :=
  .move (.operate 0 (.sweep swept)) :: .poll 0 polled ::
    rounds.map fun round => .drain 0 round.1 round.2

/-- The closing deeds come late enough: the sweep when the idle time has passed since the deeds before
it, the poll when it has passed again and the router is due, the rounds of all shards after that. -/
structure InTime (idle : Micros) (start : Site) (deeds : List Deed) (swept polled : Micros)
    (rounds : List (Nat × Micros)) : Prop where
  alone : ∀ time ∈ deeds.filterMap Deed.time?, idle < elapsed swept time
  again : idle < elapsed polled swept
  due : (start.run (deeds ++ [.move (.operate 0 (.sweep swept))])).team.tooSoon polled = false
  each : (rounds.map Prod.fst).Perm (List.range start.team.shards.size)
  after : ∀ round ∈ rounds, polled ≤ round.2

theorem polled_marked {team : Team} {cat : Catalog} (manned : 0 < team.shards.size) (a : Attachment)
    (time : Micros)
    (ready : ∀ item ∈ cat.items, item.header.isReady time a.config.blockIdleTimeout = true) {flow : FlowId}
    (marked : Marked cat.items flow) : ∃ index,
      ((team.polled time (dueMarkers (a.view time) (cat.rotated a.rotation))).position? index flow).isSome := by
  obtain ⟨marker, member, kind, rfl⟩ := marked
  have routed : marker.stored (a.view time) ∈ dueMarkers (a.view time) (cat.rotated a.rotation) := by
    refine List.mem_map_of_mem (List.mem_filter.mpr ⟨(cat.rotated_perm _).mem_iff.mpr member, ?_⟩)
    rw [Item.isReadyMarker, kind, decide_eq_true rfl, Bool.true_and]
    exact ready marker member
  obtain ⟨index, stands⟩ := Team.polled_owned manned routed
  exact ⟨index, stands⟩

theorem Gathered.pending {l : Layout} {s : Site} {sc : Scene} {t : Traffic} {a : Attachment}
    {swept polled : Micros} (carrying : Carrying l s sc) (gathered : Gathered t a swept sc)
    (settled : ∀ item ∈ sc.cat.items, item.Settled swept)
    (again : a.config.blockIdleTimeout < elapsed polled swept) (due : sc.team.tooSoon polled = false)
    (manned : 0 < sc.team.shards.size)
    (whole : ∀ flow, t.IsWhole sc.cat.items flow) {left : List Nat}
    (each : left.Perm (List.range sc.team.shards.size)) :
    Pending t a.config.blockIdleTimeout polled left (sc.effect (.poll 0 polled)) := by
  have there := gathered.attached
  have later : swept ≤ polled := by
    rw [UInt64.lt_iff_toNat_lt, toNat_elapsed] at again
    rw [UInt64.le_iff_toNat_le]
    omega
  have polledOver := gathered.poll later due
  have same : (sc.effect (.poll 0 polled)).cat = sc.cat := by
    simp only [Scene.effect, there, due, Bool.false_eq_true, if_false]
    exact Store.Item.swept_of_settled settled _ _
  have team : (sc.effect (.poll 0 polled)).team = sc.team.polled polled
      (dueMarkers (a.view polled) (sc.cat.rotated a.rotation)) := by
    simp only [Scene.effect, there, due, Bool.false_eq_true, if_false,
      Store.Item.swept_of_settled settled]
  have listed : ∀ index, index ∈ left ↔ index < sc.team.shards.size := fun index => by
    rw [each.mem_iff, List.mem_range]
  have sized : (sc.effect (.poll 0 polled)).team.shards.size = sc.team.shards.size := sc.size_effect _
  have inside : ∀ index flow, ((sc.effect (.poll 0 polled)).team.position? index flow).isSome →
      index ∈ left := by
    intro index flow stands
    rw [listed, ← sized]
    obtain ⟨position, stands⟩ := Option.isSome_iff_exists.mp stands
    obtain ⟨shard, manned, _⟩ := Option.bind_eq_some_iff.mp stands
    exact (Array.getElem?_eq_some_iff.mp manned).1
  have ready : ∀ item ∈ sc.cat.items, ∀ now, polled ≤ now →
      item.header.isReady now a.config.blockIdleTimeout = true := fun item member now late =>
    (settled item member).ready (UInt64.lt_of_lt_of_le again (elapsed_mono late))
  -- every announced flow is owned, since its marker was ready when the router came round
  have owned : ∀ flow, Marked sc.cat.items flow →
      ∃ index ∈ left, ((sc.effect (.poll 0 polled)).team.position? index flow).isSome := by
    intro flow marked
    obtain ⟨index, stands⟩ := polled_marked manned a polled
      (fun item member => ready item member polled (UInt64.le_refl _)) marked
    rw [← team] at stands
    exact ⟨index, inside index _ stands, stands⟩
  have stocked : ∀ item ∈ sc.cat.items, Marked sc.cat.items item.key.flow := by
    intro item member
    rcases carrying.commons.sound item member with marker | ⟨chunks, streams⟩
    · exact ⟨item, member, marker.kind, rfl⟩
    · exact (gathered.announced _).mp ⟨item, member, streams.isPayload, rfl⟩
  have silent := polledOver.silent
  refine ⟨?_, polledOver.cuts, ?_, fun i j flow first second => ?_, fun index _ flow position stands => ?_,
    fun index _ flow _ side => ?_, fun flow nobody side => ?_, ?_⟩
  · rw [same]
    exact ready
  · rw [same]
    exact fun item member => owned _ (stocked item member)
  · have one := polledOver.assigned i flow first
    rw [polledOver.assigned j flow second] at one
    exact (Option.some.inj one).symm
  · rw [same]
    have unread := polledOver.unread index flow position stands
    rw [same] at unread
    exact ⟨unread.1, unread.2, whole flow⟩
  · rw [silent]
    rfl
  · rw [silent]
    -- a stream has bytes, so its flow is stocked and somebody owns it
    cases known : t.stream? flow side with
    | none =>
      rw [Traffic.bytes, known]
      rfl
    | some stream =>
      obtain ⟨item, member, lane, payload, _⟩ := whole flow side stream known 0 stream.some
      have checked := t.checked flow side (by rw [known]; rfl)
      have here : item.key.flow = flow := FlowKey.flow_of_lane checked lane
      obtain ⟨index, inside, stands⟩ := owned flow
        ((gathered.announced flow).mp ⟨item, member, payload, here⟩)
      rw [nobody index inside] at stands
      cases stands
  · rw [silent]
    exact fun event listed => absurd listed List.not_mem_nil

theorem Carrying.hasRoom {l : Layout} {s : Site} {sc : Scene} (carrying : Carrying l s sc)
    (room : sc.cat.items.length < l.maxBlocks.toNat) : s.HasRoom := by
  intro a there
  rw [(carrying.commons.seen there).itemsIn_eq, (carrying.commons.tidy a there).layout]
  exact room

variable {config : StoreConfig} {shards : ShardConfig} {start : Site} {t : Traffic} {deeds : List Deed}

theorem Fresh.gathered {a : Attachment} (fresh : start.Fresh config shards) (writers : a.writers = ∅) :
    Gathered t a 0 (.opening a start.team) := by
  have nowhere := (Team.ofConfig_ok fresh.formed).2.2.1
  have nothing : ∀ item, item ∉ (Scene.opening a start.team).cat.items := fun item => List.not_mem_nil
  refine ⟨rfl, fun item member => (nothing item member).elim, Nat.le_refl _,
    fun item member => (nothing item member).elim, fun flow writer listed => ?_, fun flow => ?_,
    fun index flow owned => ?_, fun index flow position stands => ?_, rfl⟩
  · rw [writers, Std.ExtTreeMap.getElem?_empty] at listed
    cases listed
  · constructor
    · rintro ⟨item, member, _⟩
      exact (nothing item member).elim
    · rintro ⟨item, member, _⟩
      exact (nothing item member).elim
  · rw [show (Scene.opening a start.team).team = start.team from rfl, nowhere] at owned
    cases owned
  · rw [show (Scene.opening a start.team).team = start.team from rfl, nowhere] at stands
    cases stands

namespace Carrying

variable {l : Layout} {s : Site} {sc : Scene} {a : Attachment} {last swept polled : Micros}
  {rounds : List (Nat × Micros)} (carrying : Carrying l s sc) (gathered : Gathered t a last sc)
include carrying gathered

theorem settled_sweep (waited : 0 < last → a.config.blockIdleTimeout < elapsed swept last) :
    ∀ item ∈ sc.cat.items, (item.swept a.config.blockIdleTimeout swept).Settled swept := by
  intro item member
  obtain ⟨started, noted⟩ := gathered.stamped item member
  exact (carrying.commons.sound item member).settled started noted
    (waited (UInt64.lt_of_lt_of_le started noted))

theorem closed (later : last ≤ swept)
    (waited : 0 < last → a.config.blockIdleTimeout < elapsed swept last)
    (again : a.config.blockIdleTimeout < elapsed polled swept)
    (due : (s.step (.move (.operate 0 (.sweep swept)))).team.tooSoon polled = false)
    (manned : 0 < sc.team.shards.size) (whole : ∀ flow, t.IsWhole sc.cat.items flow)
    (each : (rounds.map Prod.fst).Perm (List.range sc.team.shards.size))
    (after : ∀ round ∈ rounds, polled ≤ round.2) :
    ∃ sc', Tracks l (s.run (closing swept polled rounds)) sc' ∧
      Pending t a.config.blockIdleTimeout polled [] sc' := by
  have there := gathered.attached
  have few : sc.cat.nextGeneration.toNat +
      (Deed.move (.operate 0 (.sweep swept))).insertions < UInt64.size := by
    have counted := gathered.counted
    have small := carrying.ordered.length_le
    have blocks := l.maxBlocks.toNat_lt
    simp only [Deed.insertions, UInt64.size]
    omega
  have sweeps := carrying.operate 0 (.sweep swept) few
  have gathered₁ := gathered.sweep later
  have cat₁ : (sc.effect (.move (.operate 0 (.sweep swept)))).cat =
      sc.cat.swept a.config.blockIdleTimeout swept := by
    simp only [Scene.effect, there, Operation.effect]
  have size₁ : (sc.effect (.move (.operate 0 (.sweep swept)))).team.shards.size =
      sc.team.shards.size := sc.size_effect _
  have due₁ : (sc.effect (.move (.operate 0 (.sweep swept)))).team.tooSoon polled = false := by
    rw [← sweeps.team]
    exact due
  have each₁ : (rounds.map Prod.fst).Perm
      (List.range (sc.effect (.move (.operate 0 (.sweep swept)))).team.shards.size) := by
    rw [size₁]
    exact each
  have pending := gathered₁.pending sweeps
    (fun item member => by
      rw [cat₁] at member
      obtain ⟨old, known, rfl⟩ := List.mem_map.mp member
      exact carrying.settled_sweep gathered waited old known)
    again due₁ (by rw [size₁]; exact manned)
    (fun flow side stream known place inside => by
      rw [cat₁]
      exact (covers_swept _ swept).mpr (whole flow side stream known place inside)) each₁
  have onward : swept ≤ polled := by
    rw [UInt64.lt_iff_toNat_lt, toNat_elapsed] at again
    rw [UInt64.le_iff_toNat_le]
    omega
  have alone := (gathered₁.poll onward due₁).alone
  have size₂ := (Scene.size_effect (sc.effect (.move (.operate 0 (.sweep swept)))) (.poll 0 polled)).trans size₁
  have after_poll : ((sc.effect (.move (.operate 0 (.sweep swept)))).effect (.poll 0 polled)).handles[0]? =
      some (Shift.polled ((Operation.sweep swept).effect a sc.cat).1 polled
        (sc.effect (.move (.operate 0 (.sweep swept)))).cat) := by
    rw [alone]
    rfl
  have same : (Shift.polled ((Operation.sweep swept).effect a sc.cat).1 polled
      (sc.effect (.move (.operate 0 (.sweep swept)))).cat).config.blockIdleTimeout =
        a.config.blockIdleTimeout := rfl
  obtain ⟨sc', tracks, pending'⟩ := Tracks.pending_rounds same (sweeps.poll 0 polled).toTracks pending
    after_poll after (each.nodup_iff.mpr List.nodup_range) fun round listed => by
      rw [size₂, ← List.mem_range, ← each.mem_iff]
      exact List.mem_map_of_mem listed
  exact ⟨sc', tracks, pending'⟩

end Carrying

/-- From the formatting of a store to its last block: what was put of some traffic, in any pieces and any
order, the reader is told stream by stream and byte for byte, without a gap, and no block is left. -/
theorem Fresh.reconstructs (fresh : start.Fresh config shards) (feeding : Feeding t start deeds)
    {swept polled : Micros} {rounds : List (Nat × Micros)}
    (inTime : InTime config.blockIdleTimeout start deeds swept polled rounds) :
    let final := start.run (deeds ++ closing swept polled rounds)
    (∀ flow side, (Transcript.ofEvents final.events).stream flow side = t.bytes flow side) ∧
      (Transcript.ofEvents final.events).gaps = [] ∧
      ∀ a ∈ final.commons.handles, Catalog.itemsIn a.layout final.commons.bytes = [] := by
  intro final
  obtain ⟨a₀, own, writers, opening⟩ := fresh.carrying
  have ordered : (0 :: deeds.filterMap Deed.time?).Pairwise (· ≤ ·) :=
    List.pairwise_cons.mpr ⟨fun time _ => UInt64.zero_le, feeding.times⟩
  obtain ⟨a, last, sc, config', carrying, gathered, size, listed, _, puts⟩ := opening.gathered_run
    (fresh.gathered writers) feeding.gathers ordered feeding.started feeding.room
  have idle : a.config.blockIdleTimeout = config.blockIdleTimeout := by rw [config', own]
  have shards : sc.team.shards.size = start.team.shards.size := size
  have whole : ∀ flow, t.IsWhole sc.cat.items flow := by
    intro flow side stream known place inside
    obtain ⟨segment, time, put, rfl, rfl, step, short, here⟩ :=
      feeding.whole flow side stream known place inside
    have held := puts segment time put step short
    rw [here, Segment.key, FlowKey.lane_pack] at held
    exact held
  have waited : 0 < last → a.config.blockIdleTimeout < elapsed swept last := by
    intro started
    rcases List.mem_cons.mp listed with rfl | looked
    · exact absurd started (UInt64.lt_irrefl _)
    · rw [idle]
      exact inTime.alone last looked
  have later : last ≤ swept := by
    rw [UInt64.le_iff_toNat_le]
    by_cases started : 0 < last
    · have waited := waited started
      rw [UInt64.lt_iff_toNat_lt, toNat_elapsed] at waited
      omega
    · rw [UInt64.lt_iff_toNat_lt] at started
      have zero : (0 : UInt64).toNat = 0 := rfl
      omega
  have due := inTime.due
  rw [run, List.foldl_append] at due
  obtain ⟨sc', carrying', pending⟩ := carrying.closed gathered later waited
    (by rw [idle]; exact inTime.again) due (by rw [shards]; exact (Team.ofConfig_ok fresh.formed).1) whole
    (by rw [shards]; exact inTime.each) inTime.after
  have same : final = (start.run deeds).run (closing swept polled rounds) := List.foldl_append
  have events : final.events = sc'.events := by rw [same, carrying'.events]
  refine ⟨fun flow side => ?_, ?_, fun other there => ?_⟩
  · rw [Transcript.stream_ofEvents, events]
    exact pending.told flow (fun index listed => absurd listed List.not_mem_nil) side
  · rw [events]
    exact (Transcript.plain_ofEvents pending.plain).1
  · rw [same] at there ⊢
    rw [(carrying'.commons.seen there).itemsIn_eq]
    refine List.eq_nil_iff_forall_not_mem.mpr fun item member => ?_
    obtain ⟨index, listed, _⟩ := pending.owned item member
    exact List.not_mem_nil listed

def threeBytes : Traffic where
  stream? flow side :=
    if flow = ⟨7⟩ ∧ side = .source then
      some ⟨⟨0xFFFFFFFE⟩, [1, 2, 3].toByteArray, by decide, by decide⟩
    else none
  checked flow side known := by
    by_cases here : flow = ⟨7⟩ ∧ side = .source
    · rw [here.1]
      decide
    · rw [if_neg here] at known
      cases known

/-- Two overlapping pieces of the three bytes, the later one first. -/
def pieces : List Deed := [
  .move (.operate 0 (.put ⟨⟨7⟩, .source, ⟨0xFFFFFFFF⟩, [2, 3].toByteArray⟩ 1000000)),
  .move (.operate 0 (.put ⟨⟨7⟩, .source, ⟨0xFFFFFFFE⟩, [1, 2].toByteArray⟩ 1000001))]

theorem gathers_pieces : ∀ deed ∈ pieces, deed.Gathers threeBytes := by
  intro deed listed
  simp only [pieces, List.mem_cons, List.not_mem_nil, or_false] at listed
  rcases listed with rfl | rfl
  · exact ⟨rfl, by decide, _, rfl, 1, by decide, by decide, by decide⟩
  · exact ⟨rfl, by decide, _, rfl, 0, by decide, by decide, by decide⟩

theorem times_pieces {time : Micros} (listed : time ∈ pieces.filterMap Deed.time?) :
    time = 1000000 ∨ time = 1000001 :=
  List.mem_pair.mp listed

theorem whole_pieces {flow : FlowId} {side : Side} {stream : Stream}
    (known : threeBytes.stream? flow side = some stream) {place : Nat} (inside : place < stream.bytes.size) :
    ∃ segment time, .move (.operate 0 (.put segment time)) ∈ pieces ∧ segment.flow = flow ∧
      segment.side = side ∧ ∃ step, step < segment.payload.size ∧
        segment.sequence.advance step = stream.initial.advance place := by
  by_cases here : flow = ⟨7⟩ ∧ side = .source
  · obtain ⟨rfl, rfl⟩ := here
    obtain rfl := Option.some.inj known
    have short : place < 3 := inside
    have late : .move (.operate 0 (.put ⟨⟨7⟩, .source, ⟨0xFFFFFFFE⟩, [1, 2].toByteArray⟩ 1000001)) ∈ pieces :=
      List.mem_cons_of_mem _ List.mem_cons_self
    match place, short with
    | 0, _ => exact ⟨_, _, late, rfl, rfl, 0, by decide, by decide⟩
    | 1, _ => exact ⟨_, _, late, rfl, rfl, 1, by decide, by decide⟩
    | 2, _ => exact ⟨_, _, List.mem_cons_self, rfl, rfl, 1, by decide, by decide⟩
  · have unknown : threeBytes.stream? flow side = none := if_neg here
    rw [unknown] at known
    cases known

/-- The three bytes come out in one piece. -/
theorem reconstructs_pieces : ∃ start : Site,
    start.Fresh { blockCapacity := 64, maxBlocks := 8 } { handlerCount := 1 } ∧
      Feeding threeBytes start pieces ∧ InTime 100000 start pieces 1200000 1400000 [(0, 1400000)] ∧
        (Transcript.ofEvents (start.run (pieces ++ closing 1200000 1400000 [(0, 1400000)])).events).stream
          ⟨7⟩ .source = [1, 2, 3].toByteArray := by
  obtain ⟨start, fresh, carrying⟩ := @Fresh.of_config { blockCapacity := 64, maxBlocks := 8 }
    { handlerCount := 1 } _ _ rfl rfl rfl
  have feeding : Feeding threeBytes start pieces := by
    refine ⟨gathers_pieces, List.pairwise_pair.mpr (by decide), fun time listed => ?_, fun count => ?_,
      fun _ _ _ known _ => whole_pieces known⟩
    · rcases times_pieces listed with rfl | rfl <;> decide
    match count with
    | 0 => exact carrying.hasRoom (by decide +kernel)
    | 1 =>
      have after := @Carrying.effects _ _ _ carrying (pieces.take 1) (by simp [pieces]) (by decide)
      exact after.hasRoom (by decide +kernel)
    | count + 2 =>
      have after := @Carrying.effects _ _ _ carrying pieces (by simp [pieces]) (by decide)
      rw [List.take_of_length_le (Nat.le_add_left 2 count)]
      exact after.hasRoom (by decide +kernel)
  have inTime : InTime 100000 start pieces 1200000 1400000 [(0, 1400000)] := by
    refine ⟨fun time listed => ?_, by decide +kernel, ?_, ?_, fun round listed => ?_⟩
    · rcases times_pieces listed with rfl | rfl <;> decide
    · have after := @Carrying.effects _ _ _ carrying
        (pieces ++ [Deed.move (.operate 0 (.sweep 1200000))]) (by simp [pieces]) (by decide)
      rw [after.team]
      decide +kernel
    · rw [carrying.team]
      decide +kernel
    · obtain rfl := List.mem_singleton.mp listed
      decide
  exact ⟨start, fresh, feeding, inTime, (fresh.reconstructs feeding inTime).1 ⟨7⟩ .source⟩

end Site

end Reassembly
