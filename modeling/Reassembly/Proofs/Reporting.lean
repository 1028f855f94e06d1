import Reassembly.Proofs.Staffing
import Reassembly.Proofs.Gathering

/-!
What a site tells its reader. Whatever happens at it, for however long, each flow is told as the law says:
the reader knows of it what the position of its owner says, and nothing if nobody owns it. All bytes told
come from a segment that was put before, and a flow that did not expire starts again only after a ready
marker too far from what was read.
-/

namespace Reassembly

open Store Reading Delivery

def Supplied (put : Segment → Prop) (lane : Nat) (f : Block.Frame) : Prop :=
  ∃ segment, put segment ∧ segment.key.lane = lane ∧ f.CutFrom segment.sequence segment.payload

def Sourced (put : Segment → Prop) (items : List Item) : Prop :=
  ∀ item ∈ items, ∀ f ∈ item.frames, Supplied put item.lane f

theorem Store.Catalog.Sound.filled {l : Layout} {cat : Catalog} (sound : cat.Sound) (ordered : cat.Ordered l)
    {item : Item} (member : item ∈ cat.items) : ∀ f ∈ item.frames, 0 < f.data.size := by
  intro f present
  rcases sound item member with marker | ⟨chunks, streams⟩
  · rw [marker.frames_eq] at present
    exact absurd present List.not_mem_nil
  · rw [streams.frames_eq (ordered.fits item member)] at present
    exact streams.filled f.data (Block.data_mem_of_lay present)

theorem exists_of_concat {α : Type} {xs ys zs : List α} {x y : α} (apart : x ≠ y)
    (parts : xs ++ [y] = ys ++ x :: zs) : ∃ zs', xs = ys ++ x :: zs' := by
  rcases List.append_eq_append_iff.mp parts with ⟨rest, rfl, last⟩ | ⟨rest, rfl, last⟩
  · cases rest with
    | nil => exact absurd (List.cons.inj last).1.symm apart
    | cons _ others =>
      have none := (List.cons.inj last).2
      exact absurd none.symm (by simp)
  · cases rest with
    | nil => exact absurd (List.cons.inj last).1 apart
    | cons _ others =>
      obtain ⟨rfl, _⟩ := List.cons.inj last
      exact ⟨others, rfl⟩

namespace Site

/-- The segment was put through a handle that there was at the time. -/
def WasPut (start : Site) (deeds : List Deed) (segment : Segment) : Prop :=
  ∃ before index now after, deeds = before ++ .move (.operate index (.put segment now)) :: after ∧
    index < (start.run before).commons.handles.length

variable {start : Site} {deeds : List Deed} {segment : Segment}

theorem WasPut.concat (put : WasPut start deeds segment) (deed : Deed) :
    WasPut start (deeds ++ [deed]) segment := by
  obtain ⟨before, index, now, after, rfl, there⟩ := put
  exact ⟨before, index, now, after ++ [deed], by rw [List.append_assoc, List.cons_append], there⟩

/-- A round that meets a ready marker of a flow too far, either way, from what was read on its side. -/
def MeetsFarMarker (s : Site) (deed : Deed) (flow : FlowId) (initialSeq : Seq) : Prop :=
  ∃ index place now a item next, deed = .drain index place now ∧ s.commons.handles[index]? = some a ∧
    item ∈ Catalog.itemsIn a.layout s.commons.bytes ∧ item.isReadyMarker (a.view now) = true ∧
    item.key.flow = flow ∧ (item.stored (a.view now)).announcedSeq = initialSeq ∧
    ReadUpTo flow item.key.side s.events.toList next ∧
    continuationWindow < Seq.distance initialSeq next ∧ continuationWindow < Seq.distance next initialSeq

/-- A site whose reader is told as the law says. -/
structure Reports (l : Layout) (put : Segment → Prop) (s : Site) (cat : Catalog) : Prop where
  commons : s.commons.Carrying l cat
  sourced : Sourced put cat.items
  small : ∀ segment, put segment → segment.flow.raw.toNat < 0x80000000
  assigned : s.team.Assigned
  checked : ∀ index flow, (s.team.position? index flow).isSome → flow.raw.toNat < 0x80000000
  apt : ∀ index flow position, s.team.position? index flow = some position → position.Apt
  told : ∀ index flow position, s.team.position? index flow = some position →
    Chronicle flow none s.events.toList position.known
  untold : ∀ flow, (∀ index, s.team.position? index flow = none) → Chronicle flow none s.events.toList none
  bytes : ∀ flow side start bytes, .data flow side start bytes ∈ s.events.toList → ∃ segment, put segment ∧
    segment.flow = flow ∧ segment.side = side ∧
    (⟨start, bytes⟩ : Block.Frame).CutFrom segment.sequence segment.payload

namespace Reports

variable {l : Layout} {put put' : Segment → Prop} {s : Site} {cat : Catalog}

theorem exists_known (reports : Reports l put s cat) (flow : FlowId) :
    ∃ known, Chronicle flow none s.events.toList known := by
  by_cases owned : ∃ index position, s.team.position? index flow = some position
  · obtain ⟨index, position, stands⟩ := owned
    exact ⟨_, reports.told index flow position stands⟩
  · refine ⟨none, reports.untold flow fun index => Option.eq_none_iff_forall_ne_some.mpr ?_⟩
    exact fun position stands => owned ⟨index, position, stands⟩

theorem mono (reports : Reports l put s cat) (more : ∀ segment, put segment → put' segment)
    (small : ∀ segment, put' segment → segment.flow.raw.toNat < 0x80000000) : Reports l put' s cat := by
  refine { reports with sourced := fun item member f present => ?_, small, bytes := ?_ }
  · obtain ⟨segment, known, spec⟩ := reports.sourced item member f present
    exact ⟨segment, more segment known, spec⟩
  · intro flow side start bytes listed
    obtain ⟨segment, known, spec⟩ := reports.bytes flow side start bytes listed
    exact ⟨segment, more segment known, spec⟩

theorem restock (reports : Reports l put s cat) {commons : Commons} {cat' : Catalog}
    (carrying : commons.Carrying l cat') (sourced : Sourced put cat'.items) :
    Reports l put { s with commons } cat' :=
  { reports with commons := carrying, sourced }

theorem operate (reports : Reports l put s cat) {index : Nat} {a : Attachment}
    (attached : s.commons.handles[index]? = some a) (operation : Operation)
    (noted : ∀ segment now, operation = .put segment now → put segment) :
    Reports l put (s.step (.move (.operate index operation))) (operation.effect a cat).2 := by
  obtain ⟨_, _, carrying⟩ := reports.commons.operate attached operation
  refine reports.restock carrying ?_
  cases operation with
  | put segment now =>
    have member := List.mem_of_getElem? attached
    have seen := reports.commons.seen member
    obtain ⟨count, gains⟩ := @Writing.Desk.Fit.put_spec a.layout a.config segment now ⟨a.writers, cat⟩
      ⟨seen.ordered, reports.commons.sound, (reports.commons.tidy a member).aimed⟩
    exact gains.grows.forall_frames (Supplied put) reports.sourced fun f cut => ⟨segment, noted segment now rfl, rfl, cut⟩
  | sweep now => exact forall_frames_swept _ now (Supplied put) reports.sourced
  | erase ref now => exact fun item member => reports.sourced item (Catalog.mem_of_erase member)
  | removeFlow | nextMarker | firstFrom | next | occupancy => exact reports.sourced

theorem move (reports : Reports l put s cat) (move : Commons.Move)
    (noted : ∀ index segment now, move = .operate index (.put segment now) →
      index < s.commons.handles.length → put segment) :
    ∃ cat', Reports l put (s.step (.move move)) cat' := by
  rcases move with ⟨handle, config⟩ | ⟨index, operation⟩
  · exact ⟨cat, reports.restock (reports.commons.attach handle config).2 reports.sourced⟩
  · cases attached : s.commons.handles[index]? with
    | none =>
      have still : s.step (.move (.operate index operation)) = s := by
        simp only [step, Commons.step, attached]
      exact ⟨cat, by rw [still]; exact reports⟩
    | some a =>
      refine ⟨_, reports.operate attached operation fun segment now same => ?_⟩
      subst same
      exact noted index segment now rfl (List.getElem?_eq_some_iff.mp attached).1

theorem poll (reports : Reports l put s cat) (index : Nat) (now : Micros) :
    ∃ cat', Reports l put (s.step (.poll index now)) cat' ∧ (s.step (.poll index now)).events = s.events := by
  rcases poll_cases reports.commons index now with still | ⟨a, markers, bytes, a', _, stepped, carrying⟩
  · exact ⟨cat, by rw [still]; exact reports, by rw [still]⟩
  have assigned := reports.assigned.polled now markers
  -- who owns a flow keeps it, so a flow that somebody takes up was nobody's
  have taken {place : Nat} {flow : FlowId} (fresh : s.team.position? place flow = none)
      (owned : ((s.team.polled now markers).position? place flow).isSome) (other : Nat) :
      s.team.position? other flow = none := by
    refine Option.eq_none_iff_forall_ne_some.mpr fun position stands => ?_
    have kept := Team.polled_kept stands now markers
    have same := (assigned other flow (by rw [kept]; rfl)).symm.trans (assigned place flow owned)
    rw [Option.some.inj same, fresh] at stands
    cases stands
  rw [stepped]
  refine ⟨_, ⟨carrying, forall_frames_swept _ now (Supplied put) reports.sourced, reports.small,
    assigned, fun place flow owned => ?_, fun place flow position stands => ?_,
    fun place flow position stands => ?_, fun flow unowned => ?_, reports.bytes⟩, rfl⟩
  · rcases s.team.polled_position now markers place flow with same | ⟨_, marker, _, rfl, _⟩
    · exact reports.checked place flow (same ▸ owned)
    · exact marker.key.flow_checked
  · rcases s.team.polled_position now markers place flow with same | ⟨_, marker, _, _, here⟩
    · exact reports.apt place flow position (same.symm.trans stands)
    · obtain rfl := Option.some.inj (here.symm.trans stands)
      exact fun _ => rfl
  · rcases s.team.polled_position now markers place flow with same | ⟨fresh, marker, _, _, here⟩
    · exact reports.told place flow position (same.symm.trans stands)
    · obtain rfl := Option.some.inj (here.symm.trans stands)
      exact reports.untold flow (taken fresh (by rw [here]; rfl))
  · refine reports.untold flow fun place => Option.eq_none_iff_forall_ne_some.mpr fun position stands => ?_
    have kept := Team.polled_kept stands now markers
    cases (unowned place).symm.trans kept

section Round

variable {a : Attachment} {shard shard' : Shard} {news : List Event} {cat' : Catalog} {place : Nat}
  {now : Micros} {bytes : SparseBytes} (reports : Reports l put s cat)
  (manned : s.team.shards[place]? = some shard) (rounds : Shard.Rounds (a.view now) shard cat cat' shard' news)
include manned reports rounds

theorem round_owned {flow : FlowId} {p : Position} (stands : s.team.position? place flow = some p) :
    ∃ source destination : List Item,
      (∀ item ∈ source, item ∈ cat.inLane (FlowKey.laneOf flow .source)) ∧
      (∀ item ∈ destination, item ∈ cat.inLane (FlowKey.laneOf flow .destination)) ∧
      let drained := drainedFrom (a.view now) flow p (source.map (Item.stored (a.view now)))
        (destination.map (Item.stored (a.view now)))
      Chronicle flow p.known drained.2.2 drained.1.position.known ∧
      drained.1.position.announced = true ∧
      (shard'.flows[flow]? = some drained.1.position ∧ news.filter (·.flow = flow) = drained.2.2 ∨
        shard'.flows[flow]? = none ∧ news.filter (·.flow = flow) = drained.2.2 ++ [.expired flow]) := by
  obtain ⟨source, destination, sources, destinations, after⟩ :=
    rounds.owned ((Team.position?_manned manned flow).symm.trans stands)
  refine ⟨source, destination, sources, destinations, ?_⟩
  have told := @drainedFrom_told flow (a.view now) p (source.map (Item.stored (a.view now)))
    (destination.map (Item.stored (a.view now))) (reports.apt place flow p stands) ?_
  · exact ⟨told.1, told.2, after⟩
  · rw [← List.map_append]
    intro block listed
    obtain ⟨item, there, rfl⟩ := List.mem_map.mp listed
    have member : item ∈ cat.items := (List.mem_append.mp there).elim
      (fun listed => (Catalog.mem_inLane.mp (sources item listed)).1)
      fun listed => (Catalog.mem_inLane.mp (destinations item listed)).1
    exact reports.commons.sound.filled reports.commons.carries.ordered member

theorem round_known {flow : FlowId} {p : Position} (stands : s.team.position? place flow = some p) :
    (∃ after, shard'.flows[flow]? = some after ∧ after.announced = true ∧
        Chronicle flow none (s.events ++ news.toArray).toList after.known) ∨
      shard'.flows[flow]? = none ∧ Chronicle flow none (s.events ++ news.toArray).toList none := by
  obtain ⟨source, destination, _, _, told, announced, after⟩ := round_owned reports manned rounds stands
  have before := reports.told place flow p stands
  rw [Array.toList_append]
  rcases after with ⟨known, mine⟩ | ⟨gone, mine⟩
  · refine .inl ⟨_, known, announced, before.append (.of_filter ?_)⟩
    rw [mine]
    exact told
  · refine .inr ⟨gone, before.append (.of_filter ?_)⟩
    rw [mine]
    rw [Position.known_of_announced announced] at told
    exact told.append (.single .expired)

theorem round_bytes {flow : FlowId} {side : Side} {start : Seq} {data : ByteArray}
    (listed : .data flow side start data ∈ news) : ∃ segment, put segment ∧
      segment.flow = flow ∧ segment.side = side ∧
      (⟨start, data⟩ : Block.Frame).CutFrom segment.sequence segment.payload := by
  cases stands : shard.flows[flow]? with
  | none => exact absurd rfl ((rounds.unowned stands).2 _ listed)
  | some p =>
    have here := (Team.position?_manned manned flow).trans stands
    have checked := reports.checked place flow (by rw [here]; rfl)
    obtain ⟨source, destination, sources, destinations, _, _, after⟩ := round_owned reports manned rounds here
    -- a frame of a block of the lane
    have supplied {side : Side} {items : List Item}
        (inLane : ∀ item ∈ items, item ∈ cat.inLane (FlowKey.laneOf flow side))
        {f : Block.Frame} (present : f ∈ (items.map (Item.stored (a.view now))).flatMap (·.frames))
        (cut : (⟨start, data⟩ : Block.Frame).CutFrom f.start f.data) : ∃ segment, put segment ∧
          segment.flow = flow ∧ segment.side = side ∧
          (⟨start, data⟩ : Block.Frame).CutFrom segment.sequence segment.payload := by
      obtain ⟨block, there, inside⟩ := List.mem_flatMap.mp present
      obtain ⟨item, taken, rfl⟩ := List.mem_map.mp there
      obtain ⟨member, lane⟩ := Catalog.mem_inLane.mp (inLane item taken)
      obtain ⟨segment, known, same, outer⟩ := reports.sourced item member f inside
      have lanes : FlowKey.laneOf segment.flow segment.side = FlowKey.laneOf flow side :=
        (FlowKey.lane_pack ..).symm.trans (same.trans lane)
      obtain ⟨flows, sides⟩ := FlowKey.laneOf_inj (reports.small segment known) checked lanes
      exact ⟨segment, known, flows, sides, outer.trans cut⟩
    have mine : .data flow side start data ∈ (drainedFrom (a.view now) flow p
        (source.map (Item.stored (a.view now))) (destination.map (Item.stored (a.view now)))).2.2 := by
      have own : .data flow side start data ∈ news.filter (·.flow = flow) :=
        List.mem_filter.mpr ⟨listed, decide_eq_true rfl⟩
      rcases after with ⟨_, same⟩ | ⟨_, same⟩
      · exact same ▸ own
      · rw [same] at own
        refine (List.mem_append.mp own).resolve_right fun last => ?_
        cases List.mem_singleton.mp last
    rcases drainedFrom_tells _ mine with ⟨_, same⟩ | (⟨_, _, same⟩ | ⟨_, _, same, f, present, cut⟩) |
      (⟨_, _, same⟩ | ⟨_, _, same, f, present, cut⟩)
    · cases same
    · cases same
    · cases same
      exact supplied sources present cut
    · cases same
    · cases same
      exact supplied destinations present cut

theorem round_restarts {others back early late : List Event} {flow : FlowId} {first initialSeq : Seq}
    (parts : news = others ++ .started flow initialSeq :: back)
    (before : s.events.toList ++ others = early ++ .started flow first :: late)
    (lasting : .expired flow ∉ late) :
    ∃ item next, item ∈ cat.items ∧ item.isReadyMarker (a.view now) = true ∧ item.key.flow = flow ∧
      (item.stored (a.view now)).announcedSeq = initialSeq ∧
      ReadUpTo flow item.key.side s.events.toList next ∧
      continuationWindow < Seq.distance initialSeq next ∧ continuationWindow < Seq.distance next initialSeq := by
  have mine : .started flow initialSeq ∈ news := parts ▸ List.mem_append_right _ List.mem_cons_self
  cases stands : shard.flows[flow]? with
  | none => exact absurd rfl ((rounds.unowned stands).2 _ mine)
  | some p =>
    have here := (Team.position?_manned manned flow).trans stands
    have checked := reports.checked place flow (by rw [here]; rfl)
    obtain ⟨source, destination, sources, destinations, own⟩ := rounds.owned stands
    have started (back : List Event) (whole : (drainedFrom (a.view now) flow p
        (source.map (Item.stored (a.view now))) (destination.map (Item.stored (a.view now)))).2.2 =
          others.filter (·.flow = flow) ++ .started flow initialSeq :: back) := drainedFrom_started whole
    dsimp only at own
    generalize drainedFrom (a.view now) flow p (source.map (Item.stored (a.view now)))
      (destination.map (Item.stored (a.view now))) = drained at own started
    have filtered : news.filter (·.flow = flow) =
        others.filter (·.flow = flow) ++ .started flow initialSeq :: back.filter (·.flow = flow) := by
      rw [parts, List.filter_append, List.filter_cons, if_pos (decide_eq_true (by rfl))]
    obtain ⟨back', whole⟩ : ∃ back', drained.2.2 =
        others.filter (·.flow = flow) ++ .started flow initialSeq :: back' := by
      rcases own with ⟨_, same⟩ | ⟨_, same⟩
      · exact ⟨_, same.symm.trans filtered⟩
      · exact exists_of_concat Event.noConfusion (same.symm.trans filtered)
    obtain ⟨leads, far⟩ := started _ whole
    -- nothing of the flow comes before it in the round
    have ahead : Chronicle flow none (s.events.toList ++ others) p.known := by
      refine (reports.told place flow p here).append (.skip fun event listed same => ?_)
      exact List.filter_eq_nil_iff.mp leads event listed (decide_eq_true same)
    have announced : p.announced = true := by
      rw [before] at ahead
      obtain ⟨between, _, since⟩ := Chronicle.append_iff.mp ahead
      have known := since.isSome_of_started lasting
      rw [Position.known] at known
      split at known
      · assumption
      · cases known
    obtain ⟨marker, listed, ready, ⟨next, read, near, nigh⟩, rfl⟩ := far announced
    rw [← List.map_append] at listed
    obtain ⟨item, there, rfl⟩ := List.mem_map.mp listed
    have lane : item ∈ cat.items ∧ item.key.flow = flow := by
      rcases List.mem_append.mp there with early | late
      · obtain ⟨member, lane⟩ := Catalog.mem_inLane.mp (sources item early)
        exact ⟨member, FlowKey.flow_of_lane checked lane⟩
      · obtain ⟨member, lane⟩ := Catalog.mem_inLane.mp (destinations item late)
        exact ⟨member, FlowKey.flow_of_lane checked lane⟩
    have told := reports.told place flow p here
    rw [Position.known_of_announced announced] at told
    refine ⟨item, next, lane.1, ?_, lane.2, rfl, told.readUpTo ?_, near, nigh⟩
    · simpa [Stored.isReadyMarker, Item.isReadyMarker, Item.stored] using ready
    · rw [get_marksAt]
      exact congrArg Mark.upTo read

end Round

theorem drain (reports : Reports l put s cat) (index place : Nat) (now : Micros) :
    ∃ cat', Reports l put (s.step (.drain index place now)) cat' := by
  rcases drain_cases reports.commons reports.checked index place now with
    still | ⟨a, shard, shard', news, cat', bytes, attached, manned, rounds, stepped, carrying⟩
  · exact ⟨cat, by rw [still]; exact reports⟩
  have positions := fun other flow => Team.position?_set manned shard' other flow
  have known := Team.position?_manned manned
  -- nobody else owns a flow of the shard
  have single {other : Nat} {flow : FlowId} {p q : Position} (mine : s.team.position? place flow = some p)
      (theirs : s.team.position? other flow = some q) : place = other := by
    have first := reports.assigned place flow (by rw [mine]; rfl)
    have second := reports.assigned other flow (by rw [theirs]; rfl)
    exact Option.some.inj (first.symm.trans second)
  have kept {flow : FlowId} (owned : (shard'.flows[flow]?).isSome) : ∃ p, s.team.position? place flow = some p := by
    rw [known]
    refine Option.isSome_iff_exists.mp (Option.isSome_iff_ne_none.mpr fun none => ?_)
    rw [(rounds.unowned none).1] at owned
    cases owned
  have silent {flow : FlowId} {before : Option (PerSide Mark)} (unowned : s.team.position? place flow = none)
      (told : Chronicle flow none s.events.toList before) :
      Chronicle flow none (s.events ++ news.toArray).toList before := by
    rw [Array.toList_append]
    exact told.append (.skip (rounds.unowned ((known flow).symm.trans unowned)).2)
  have moved {other : Nat} {flow : FlowId} {p : Position}
      (stands : (rounded s bytes place shard' news).team.position? other flow = some p) :
      place = other ∧ shard'.flows[flow]? = some p ∨ place ≠ other ∧ s.team.position? other flow = some p := by
    rw [rounded, positions] at stands
    split at stands
    · next here => exact .inl ⟨here, stands⟩
    · next apart => exact .inr ⟨apart, stands⟩
  refine ⟨cat', ?_⟩
  rw [stepped]
  refine ⟨carrying, ?_, reports.small, fun other flow owned => ?_, fun other flow owned => ?_,
    fun other flow p stands => ?_, fun other flow p stands => ?_, fun flow unowned => ?_,
    fun flow side start data listed => ?_⟩
  · obtain ⟨refs, rfl⟩ := rounds.exists_without
    exact fun item member => reports.sourced item (Catalog.mem_of_without member)
  · exact reports.assigned other flow (owned_before manned rounds bytes owned)
  · exact reports.checked other flow (owned_before manned rounds bytes owned)
  · rcases moved stands with ⟨rfl, here⟩ | ⟨_, same⟩
    · obtain ⟨p', old⟩ := kept (by rw [here]; rfl)
      rcases round_known reports manned rounds old with ⟨after, there, announced, _⟩ | ⟨gone, _⟩
      · obtain rfl := Option.some.inj (there.symm.trans here)
        intro silent
        rw [announced] at silent
        cases silent
      · cases gone.symm.trans here
    · exact reports.apt other flow p same
  · rcases moved stands with ⟨rfl, here⟩ | ⟨apart, same⟩
    · obtain ⟨p', old⟩ := kept (by rw [here]; rfl)
      rcases round_known reports manned rounds old with ⟨after, there, _, told⟩ | ⟨gone, _⟩
      · obtain rfl := Option.some.inj (there.symm.trans here)
        exact told
      · cases gone.symm.trans here
    · refine silent (Option.eq_none_iff_forall_ne_some.mpr fun q mine => ?_) (reports.told other flow p same)
      exact apart (single mine same)
  · cases mine : s.team.position? place flow with
    | some p =>
      rcases round_known reports manned rounds mine with ⟨after, there, _, _⟩ | ⟨_, told⟩
      · have gone := ((positions place flow).trans (if_pos rfl)).symm.trans (unowned place)
        cases gone.symm.trans there
      · exact told
    | none =>
      refine silent mine (reports.untold flow fun other => ?_)
      by_cases here : place = other
      · rw [← here]
        exact mine
      · exact ((positions other flow).trans (if_neg here)).symm.trans (unowned other)
  · rw [rounded, Array.toList_append] at listed
    rcases List.mem_append.mp listed with old | new
    · exact reports.bytes flow side start data old
    · exact round_bytes reports manned rounds new

/-- A flow that did not expire starts again only in a round that meets a marker too far from what was
read. -/
theorem restarts (reports : Reports l put s cat) {deed : Deed} {front back early late : List Event}
    {flow : FlowId} {first initialSeq : Seq}
    (after : (s.step deed).events.toList = front ++ .started flow initialSeq :: back)
    (new : s.events.size ≤ front.length) (before : front = early ++ .started flow first :: late)
    (lasting : .expired flow ∉ late) : MeetsFarMarker s deed flow initialSeq := by
  have told : (s.step deed).events ≠ s.events := by
    intro same
    have length := congrArg List.length after
    rw [same, Array.length_toList, List.length_append, List.length_cons] at length
    omega
  rcases deed with move | ⟨index, now⟩ | ⟨index, place, now⟩
  · exact absurd rfl told
  · obtain ⟨_, _, same⟩ := reports.poll index now
    exact absurd same told
  rcases drain_cases reports.commons reports.checked index place now with
    still | ⟨a, shard, shard', news, cat', bytes, attached, manned, rounds, stepped, _⟩
  · exact absurd (congrArg Site.events still) told
  -- the event is one of the round
  rw [stepped, rounded, Array.toList_append] at after
  obtain ⟨others, rfl, parts⟩ : ∃ others, front = s.events.toList ++ others ∧
      news = others ++ .started flow initialSeq :: back := by
    rcases List.append_eq_append_iff.mp after with ⟨others, same, parts⟩ | ⟨rest, same, parts⟩
    · exact ⟨others, same, parts⟩
    · have length := congrArg List.length same
      rw [Array.length_toList, List.length_append] at length
      obtain rfl : rest = [] := List.eq_nil_of_length_eq_zero (by omega)
      exact ⟨[], by rw [same, List.append_nil, List.append_nil], parts.symm⟩
  obtain ⟨item, next, stored, ready, here, announces, read, near, nigh⟩ :=
    round_restarts reports manned rounds parts before lasting
  refine ⟨index, place, now, a, item, next, rfl, attached, ?_, ready, here, announces, read, near, nigh⟩
  rw [(reports.commons.seen (List.mem_of_getElem? attached)).itemsIn_eq]
  exact stored

end Reports

theorem WasPut.small (put : WasPut start deeds segment)
    (small : ∀ index segment now, .move (.operate index (.put segment now)) ∈ deeds →
      segment.flow.raw.toNat < 0x80000000) : segment.flow.raw.toNat < 0x80000000 := by
  obtain ⟨before, index, now, after, rfl, _⟩ := put
  exact small index segment now (List.mem_append_right _ List.mem_cons_self)

theorem Fresh.reports {config : StoreConfig} {shards : ShardConfig} (fresh : start.Fresh config shards) :
    ∃ l, Reports l (WasPut start []) start .empty := by
  obtain ⟨a, _, _, carrying⟩ := fresh.carrying
  have unowned := (Team.ofConfig_ok fresh.formed).2.2.1
  have nothing {index : Nat} {flow : FlowId} {p : Position} {any : Prop}
      (stands : start.team.position? index flow = some p) : any := by
    rw [unowned] at stands
    cases stands
  refine ⟨a.layout, carrying.commons, fun item listed => absurd listed List.not_mem_nil,
    fun segment put => put.small fun _ _ _ listed => absurd listed List.not_mem_nil, fun index flow owned => ?_,
    fun index flow owned => ?_, fun _ _ _ stands => nothing stands, fun _ _ _ stands => nothing stands,
    fun flow _ => ?_, fun flow side start bytes listed => ?_⟩
  · obtain ⟨p, stands⟩ := Option.isSome_iff_exists.mp owned
    exact nothing stands
  · obtain ⟨p, stands⟩ := Option.isSome_iff_exists.mp owned
    exact nothing stands
  · rw [fresh.silent]
    exact .nil _
  · rw [fresh.silent] at listed
    exact absurd listed List.not_mem_nil

theorem Fresh.reports_run {config : StoreConfig} {shards : ShardConfig} (fresh : start.Fresh config shards)
    (small : ∀ index segment now, .move (.operate index (.put segment now)) ∈ deeds →
      segment.flow.raw.toNat < 0x80000000) :
    ∃ l cat, Reports l (WasPut start deeds) (start.run deeds) cat := by
  induction deeds using List.reverseRecOn with
  | nil =>
    obtain ⟨l, reports⟩ := fresh.reports
    exact ⟨l, _, reports⟩
  | append_singleton before deed ih =>
    obtain ⟨l, cat, reports⟩ := ih fun index segment now listed =>
      small index segment now (List.mem_append_left _ listed)
    have more : Reports l (WasPut start (before ++ [deed])) (start.run before) cat :=
      reports.mono (fun segment put => put.concat deed) fun segment put => put.small small
    rw [run_concat]
    rcases deed with move | ⟨index, now⟩ | ⟨index, place, now⟩
    · obtain ⟨cat', after⟩ := more.move move fun index segment now same there =>
        ⟨before, index, now, [], by rw [same], there⟩
      exact ⟨l, cat', after⟩
    · obtain ⟨cat', after, _⟩ := more.poll index now
      exact ⟨l, cat', after⟩
    · obtain ⟨cat', after⟩ := more.drain index place now
      exact ⟨l, cat', after⟩

/-- The law of the delivered streams. However the deeds at a site follow one another, each flow is told as
the law says, all bytes told were cut from a segment put before, and a flow that did not expire starts
again only in a round that meets a ready marker too far from what was read. -/
theorem Fresh.tells_lawfully {config : StoreConfig} {shards : ShardConfig} (fresh : start.Fresh config shards)
    (small : ∀ index segment now, .move (.operate index (.put segment now)) ∈ deeds →
      segment.flow.raw.toNat < 0x80000000) :
    (∀ flow, Lawful flow (start.run deeds).events.toList) ∧
    (∀ flow side first bytes, .data flow side first bytes ∈ (start.run deeds).events.toList →
      ∃ segment, WasPut start deeds segment ∧ segment.flow = flow ∧ segment.side = side ∧
        (⟨first, bytes⟩ : Block.Frame).CutFrom segment.sequence segment.payload) ∧
    ∀ done deed rest, deeds = done ++ deed :: rest → ∀ front flow initialSeq back early first late,
      (start.run (done ++ [deed])).events.toList = front ++ .started flow initialSeq :: back →
      (start.run done).events.size ≤ front.length → front = early ++ .started flow first :: late →
      .expired flow ∉ late → MeetsFarMarker (start.run done) deed flow initialSeq := by
  obtain ⟨l, cat, reports⟩ := fresh.reports_run small
  refine ⟨fun flow => ?_, reports.bytes, ?_⟩
  · obtain ⟨known, told⟩ := reports.exists_known flow
    exact told.lawful
  · rintro done deed rest rfl front flow initialSeq back early first late after new before lasting
    obtain ⟨l, cat, reports⟩ := @fresh.reports_run _ done _ _ fun index segment now listed =>
      small index segment now (List.mem_append_left _ listed)
    rw [run_concat] at after
    exact reports.restarts after new before lasting

/-- A flow is forgotten by its writer, which then puts bytes far from those that were read. -/
def renumbered : List Deed := [
  .move (.operate 0 (.put ⟨⟨7⟩, .source, ⟨100⟩, ⟨#[1, 2]⟩⟩ 1000000)),
  .poll 0 1200000,
  .drain 0 0 1400000,
  .move (.operate 0 (.removeFlow ⟨7⟩)),
  .move (.operate 0 (.put ⟨⟨7⟩, .source, ⟨0x40000000⟩, ⟨#[3]⟩⟩ 1500000)),
  .poll 0 2300000]

/-- The next round starts the flow again, because of the marker that came with these bytes. -/
theorem tells_lawfully_renumbered : ∃ start : Site,
    start.Fresh { blockCapacity := 64, maxBlocks := 8 } { handlerCount := 1 } ∧
      Lawful ⟨7⟩ (start.run (renumbered ++ [.drain 0 0 2500000])).events.toList ∧
      MeetsFarMarker (start.run renumbered) (.drain 0 0 2500000) ⟨7⟩ ⟨0x40000000⟩ := by
  obtain ⟨start, fresh, carrying⟩ := @Site.Fresh.of_config { blockCapacity := 64, maxBlocks := 8 }
    { handlerCount := 1 } _ _ rfl rfl rfl
  have before := @Site.Carrying.effects _ _ _ carrying renumbered (by simp [renumbered]) (by decide)
  have after := @Site.Carrying.effects _ _ _ carrying (renumbered ++ [.drain 0 0 2500000])
    (by simp [renumbered]) (by decide)
  have told : (start.run renumbered).events.size = 2 := by
    rw [before.events]
    decide +kernel
  have again : (start.run (renumbered ++ [.drain 0 0 2500000])).events.toList =
      [.started ⟨7⟩ ⟨100⟩, .data ⟨7⟩ .source ⟨100⟩ ⟨#[1, 2]⟩] ++
        .started ⟨7⟩ ⟨0x40000000⟩ :: [.data ⟨7⟩ .source ⟨0x40000000⟩ ⟨#[3]⟩] := by
    rw [after.events]
    decide +kernel
  obtain ⟨lawful, _, restarts⟩ := @fresh.tells_lawfully _ (renumbered ++ [.drain 0 0 2500000]) _ _
    fun index segment now listed => by
      simp only [renumbered, List.cons_append, List.nil_append, List.mem_cons, List.not_mem_nil, or_false,
        Deed.move.injEq, Commons.Move.operate.injEq, Operation.put.injEq, reduceCtorEq, false_or, and_false]
        at listed
      rcases listed with ⟨_, rfl, _⟩ | ⟨_, rfl, _⟩
      · decide
      · decide
  refine ⟨start, fresh, lawful ⟨7⟩, restarts renumbered _ [] rfl _ _ _ _ [] ⟨100⟩ _ again ?_ rfl ?_⟩
  · rw [told]
    decide
  · decide

end Site

end Reassembly
