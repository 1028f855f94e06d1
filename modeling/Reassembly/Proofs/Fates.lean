import Reassembly.Proofs.Positions
import Reassembly.Proofs.Rounds

/-!
What becomes of the flows of a shard in a round. Draining a flow erases only blocks of that flow, so the
flows of a round do not disturb one another: each is drained as if it were the only one. A flow that
expires has no payload block left, and none was consumed.
-/

namespace Reassembly

open Store Reading

theorem Side.exists_iff {holds : Side → Prop} :
    (∃ side, holds side) ↔ holds .source ∨ holds .destination := by
  constructor
  · rintro ⟨_ | _, here⟩
    · exact .inl here
    · exact .inr here
  · rintro (source | destination)
    · exact ⟨_, source⟩
    · exact ⟨_, destination⟩

namespace FlowKey

theorem flow_eq_iff {flow : FlowId} (checked : flow.raw.toNat < 0x80000000) (key : FlowKey) :
    key.flow = flow ↔ key.lane = laneOf flow .source ∨ key.lane = laneOf flow .destination := by
  have bound := key.lane_lt
  rw [Seq.circle] at bound
  rw [flow_eq, laneOf_eq _ checked, laneOf_eq _ checked]
  have source : Side.source.index.toNat = 0 := rfl
  have destination : Side.destination.index.toNat = 1 := rfl
  rw [source, destination]
  constructor
  · rintro rfl
    rw [UInt32.toNat_ofNat']
    omega
  · intro lanes
    refine congrArg FlowId.mk (UInt32.toNat_inj.mp ?_)
    rw [UInt32.toNat_ofNat']
    omega

theorem flow_checked (key : FlowKey) : key.flow.raw.toNat < 0x80000000 := by
  rw [flow_eq, UInt32.toNat_ofNat']
  omega

theorem flow_of_lane {flow : FlowId} (checked : flow.raw.toNat < 0x80000000) {key : FlowKey} {side : Side}
    (lane : key.lane = laneOf flow side) : key.flow = flow := by
  refine (flow_eq_iff checked key).mpr ?_
  cases side with
  | source => exact .inl lane
  | destination => exact .inr lane

end FlowKey

namespace Store.Catalog

variable {l : Layout} {cat : Catalog}

theorem Distinct.inLane_without (separate : cat.Distinct) (ordered : cat.Ordered l) {refs : List Ref}
    {lane : Nat} (elsewhere : ∀ ref ∈ refs, ref.key.lane ≠ lane) :
    (cat.without refs).inLane lane = cat.inLane lane := by
  rw [inLane, separate.items_without ordered, List.filter_filter, inLane]
  refine List.filter_congr fun item _ => ?_
  by_cases here : item.lane = lane
  · have stays : item.ref ∉ refs := fun gone => elsewhere _ gone here
    simp [here, stays]
  · simp [here]

end Store.Catalog

namespace Delivery

theorem anchor?_eq_none {expected : Option Seq} {blocks : List Stored}
    (none_found : anchor? expected blocks = none) : blocks = [] := by
  rw [anchor?] at none_found
  cases expected with
  | some next => cases none_found
  | none =>
    cases blocks with
    | nil => rfl
    | cons block rest => cases none_found

section Side

variable {flow : FlowId} {side : Side} {now : Micros} {blocks : List Stored} {state : Drained}

theorem sideDrained_refs {ref : Ref} (gone : ref ∈ (sideDrained flow side now blocks state).2.1) :
    ∃ block ∈ blocks, block.header.kind.isPayload = true ∧ block.ref = ref := by
  rw [sideDrained] at gone
  dsimp only at gone
  split at gone
  · exact absurd gone List.not_mem_nil
  · obtain ⟨block, ready, rfl⟩ := List.mem_map.mp gone
    have listed := List.mem_mergeSort.mp (List.takeWhile_subset _ ready)
    obtain ⟨member, stream⟩ := List.mem_filter.mp listed
    exact ⟨block, member, stream, rfl⟩

theorem sideDrained_pending (done : (sideDrained flow side now blocks state).1.pending = 0) :
    state.pending = 0 ∧ ∀ block ∈ blocks, block.header.kind.isPayload = true →
      block.ref ∈ (sideDrained flow side now blocks state).2.1 := by
  rw [sideDrained] at done ⊢
  dsimp only at done ⊢
  split
  · next none_found =>
    rw [none_found] at done
    refine ⟨done, fun block member stream => ?_⟩
    have listed : block ∈ blocks.filter (·.header.kind.isPayload) :=
      List.mem_filter.mpr ⟨member, stream⟩
    rw [anchor?_eq_none none_found] at listed
    exact absurd listed List.not_mem_nil
  · next anchor found =>
    rw [found] at done
    dsimp only at done
    obtain ⟨before, rest⟩ := Nat.add_eq_zero_iff.mp done
    have all := (List.takeWhile_sublist Stored.ready).eq_of_length_le (Nat.sub_eq_zero_iff_le.mp rest)
    refine ⟨before, fun block member stream => ?_⟩
    dsimp only
    rw [all]
    exact List.mem_map_of_mem (List.mem_mergeSort.mpr (List.mem_filter.mpr ⟨member, stream⟩))

theorem sideDrained_lastUpdate :
    (sideDrained flow side now blocks state).1.position.lastUpdate =
      if (sideDrained flow side now blocks state).2.1 = [] then state.position.lastUpdate else now := by
  rw [sideDrained]
  dsimp only
  split
  · rw [if_pos rfl]
  · dsimp only
    simp only [List.map_eq_nil_iff, List.isEmpty_iff]

theorem expected_sideDrained (flow : FlowId) (now : Micros) (blocks : List Stored) (state : Drained)
    {part : Side} (other : part ≠ side) : (sideDrained flow side now blocks state).1.position.expected.get part =
      state.position.expected.get part := by
  rw [sideDrained]
  dsimp only
  split
  · rfl
  · exact PerSide.get_set_of_ne _ _ other

end Side

variable {l : Layout} {v : View} {cat : Catalog} {flow : FlowId} {position : Position} {side : Side}

theorem lastUpdate_adoptAll (position : Position) (markers : List Stored) (now : Micros) :
    (adoptAll position markers now).lastUpdate = position.lastUpdate ∨
      (adoptAll position markers now).lastUpdate = now := by
  induction markers generalizing position with
  | nil => exact .inl rfl
  | cons marker rest ih =>
    have first : (position.adopt marker now).lastUpdate = position.lastUpdate ∨
        (position.adopt marker now).lastUpdate = now := by
      rw [Position.adopt]
      split
      · exact .inl rfl
      · split
        · exact .inl rfl
        · exact .inr rfl
    rcases ih (position.adopt marker now) with same | late
    · rw [adoptAll, List.foldl_cons]
      rw [adoptAll] at same
      rw [same]
      exact first
    · exact .inr late

theorem flowDrained_congr {a b : Catalog}
    (same : ∀ side, a.inLane (FlowKey.laneOf flow side) = b.inLane (FlowKey.laneOf flow side)) :
    flowDrained v flow position a = flowDrained v flow position b := by
  rw [flowDrained, flowDrained, same .source, same .destination]

theorem mem_ofFlow (checked : flow.raw.toNat < 0x80000000) {block : Stored} :
    block ∈ (cat.inLane (FlowKey.laneOf flow .source)).map (Item.stored v) ++
        (cat.inLane (FlowKey.laneOf flow .destination)).map (Item.stored v) ↔
      ∃ item ∈ cat.items, item.key.flow = flow ∧ item.stored v = block := by
  simp only [List.mem_append, List.mem_map, Catalog.mem_inLane, FlowKey.flow_eq_iff checked]
  constructor
  · rintro (⟨item, ⟨member, lane⟩, same⟩ | ⟨item, ⟨member, lane⟩, same⟩)
    · exact ⟨item, member, .inl lane, same⟩
    · exact ⟨item, member, .inr lane, same⟩
  · rintro ⟨item, member, lane | lane, same⟩
    · exact .inl ⟨item, ⟨member, lane⟩, same⟩
    · exact .inr ⟨item, ⟨member, lane⟩, same⟩

theorem mem_inLane_of_flow (checked : flow.raw.toNat < 0x80000000) {item : Item}
    (member : item ∈ cat.items) (here : item.key.flow = flow) :
    ∃ side, item ∈ cat.inLane (FlowKey.laneOf flow side) :=
  Side.exists_iff.mpr (((FlowKey.flow_eq_iff checked item.key).mp here).imp
    (fun lane => Catalog.mem_inLane.mpr ⟨member, lane⟩)
    fun lane => Catalog.mem_inLane.mpr ⟨member, lane⟩)

theorem mem_markers_of_ready (checked : flow.raw.toNat < 0x80000000) {item : Item}
    (member : item ∈ cat.items) (here : item.key.flow = flow) (kind : item.header.kind = .startFlow)
    (ready : item.header.isReady v.now v.idle = true) :
    item.ref ∈ (readyMarkers ((cat.inLane (FlowKey.laneOf flow .source)).map (Item.stored v) ++
      (cat.inLane (FlowKey.laneOf flow .destination)).map (Item.stored v))).map Stored.ref := by
  refine List.mem_map_of_mem (f := Stored.ref) (a := item.stored v) (List.mem_mergeSort.mpr ?_)
  refine List.mem_filter.mpr ⟨(mem_ofFlow checked).mpr ⟨item, member, here, rfl⟩, ?_⟩
  rw [Stored.isReadyMarker, Bool.and_eq_true, beq_iff_eq]
  exact ⟨kind, ready⟩

theorem not_mem_markers_of_payload (separate : cat.Distinct) {item : Item} (member : item ∈ cat.items)
    (payload : item.isPayload = true) :
    item.ref ∉ (readyMarkers ((cat.inLane (FlowKey.laneOf flow .source)).map (Item.stored v) ++
      (cat.inLane (FlowKey.laneOf flow .destination)).map (Item.stored v))).map Stored.ref := by
  intro listed
  obtain ⟨block, ready, same⟩ := List.mem_map.mp listed
  obtain ⟨there, due⟩ := List.mem_filter.mp (List.mem_mergeSort.mp ready)
  rw [← List.map_append] at there
  obtain ⟨other, known, rfl⟩ := List.mem_map.mp there
  have stored : other ∈ cat.items := (List.mem_append.mp known).elim
    (fun source => (Catalog.mem_inLane.mp source).1)
    fun destination => (Catalog.mem_inLane.mp destination).1
  obtain rfl := separate.eq_of_ref stored member same
  rw [Stored.isReadyMarker, Bool.and_eq_true, beq_iff_eq] at due
  rw [Item.isPayload, show other.header.kind = .startFlow from due.1] at payload
  cases payload

/-- What draining a flow does on one of its sides. The source comes first, and the destination goes on from
what that leaves. -/
def drainedSide (v : View) (flow : FlowId) (position : Position) (cat : Catalog) (side : Side) :
    Drained × List Ref × List Event :=
  let source := (cat.inLane (FlowKey.laneOf flow .source)).map (Item.stored v)
  let destination := (cat.inLane (FlowKey.laneOf flow .destination)).map (Item.stored v)
  let position := adoptAll position (readyMarkers (source ++ destination)) v.now
  let first := sideDrained flow .source v.now source ⟨{ position with announced := true }, 0, 0⟩
  match side with
  | .source => first
  | .destination => sideDrained flow .destination v.now destination first.1

theorem drainedSide_eq (v : View) (flow : FlowId) (position : Position) (cat : Catalog) (side : Side) :
    ∃ state : Drained,
      state.position.expected.get side = (adoptAll position (readyMarkers
        ((cat.inLane (FlowKey.laneOf flow .source)).map (Item.stored v) ++
          (cat.inLane (FlowKey.laneOf flow .destination)).map (Item.stored v))) v.now).expected.get side ∧
      drainedSide v flow position cat side = sideDrained flow side v.now
        ((cat.inLane (FlowKey.laneOf flow side)).map (Item.stored v)) state := by
  cases side with
  | source => exact ⟨_, rfl, rfl⟩
  | destination => exact ⟨_, expected_sideDrained _ _ _ _ (by decide), rfl⟩

theorem expected_flowDrained (side : Side) :
    (flowDrained v flow position cat).1.position.expected.get side =
      (drainedSide v flow position cat side).1.position.expected.get side := by
  cases side with
  | source => exact expected_sideDrained _ _ _ _ (by decide)
  | destination => rfl

theorem mem_flowDrained {ref : Ref} : ref ∈ (flowDrained v flow position cat).2.1 ↔
    ref ∈ (readyMarkers ((cat.inLane (FlowKey.laneOf flow .source)).map (Item.stored v) ++
        (cat.inLane (FlowKey.laneOf flow .destination)).map (Item.stored v))).map Stored.ref ∨
      ∃ side, ref ∈ (drainedSide v flow position cat side).2.1 := by
  rw [Side.exists_iff, ← or_assoc, ← List.mem_append, ← List.mem_append]
  rfl

theorem drainedSide_refs {ref : Ref} (gone : ref ∈ (drainedSide v flow position cat side).2.1) :
    ∃ item ∈ cat.inLane (FlowKey.laneOf flow side), item.ref = ref := by
  obtain ⟨state, _, same⟩ := drainedSide_eq v flow position cat side
  rw [same] at gone
  obtain ⟨block, listed, _, rfl⟩ := sideDrained_refs gone
  obtain ⟨item, there, rfl⟩ := List.mem_map.mp listed
  exact ⟨item, there, rfl⟩

theorem mem_flowDrained_of_payload (separate : cat.Distinct) (checked : flow.raw.toNat < 0x80000000)
    {item : Item} (member : item ∈ cat.items) (payload : item.isPayload = true)
    (lane : item.lane = FlowKey.laneOf flow side) :
    item.ref ∈ (flowDrained v flow position cat).2.1 ↔
      item.ref ∈ (drainedSide v flow position cat side).2.1 := by
  rw [mem_flowDrained]
  refine ⟨fun gone => ?_, fun gone => .inr ⟨side, gone⟩⟩
  obtain ⟨part, gone⟩ := gone.resolve_left (not_mem_markers_of_payload separate member payload)
  obtain ⟨other, listed, same⟩ := drainedSide_refs gone
  obtain ⟨there, lane'⟩ := Catalog.mem_inLane.mp listed
  obtain rfl := separate.eq_of_ref there member same
  obtain ⟨_, rfl⟩ := FlowKey.laneOf_inj checked checked (lane.symm.trans lane')
  exact gone

theorem flowDrained_refs (checked : flow.raw.toNat < 0x80000000) {ref : Ref}
    (gone : ref ∈ (flowDrained v flow position cat).2.1) :
    ∃ item ∈ cat.items, item.ref = ref ∧ item.key.flow = flow := by
  rcases mem_flowDrained.mp gone with marker | ⟨side, gone⟩
  · obtain ⟨block, ready, rfl⟩ := List.mem_map.mp marker
    have listed := (List.mem_filter.mp (List.mem_mergeSort.mp ready)).1
    obtain ⟨item, there, here, rfl⟩ := (mem_ofFlow checked).mp listed
    exact ⟨item, there, rfl, here⟩
  · obtain ⟨item, listed, same⟩ := drainedSide_refs gone
    obtain ⟨there, lane⟩ := Catalog.mem_inLane.mp listed
    exact ⟨item, there, same, FlowKey.flow_of_lane checked lane⟩

theorem flowDrained_pending (checked : flow.raw.toNat < 0x80000000)
    (done : (flowDrained v flow position cat).1.pending = 0) {item : Item} (member : item ∈ cat.items)
    (here : item.key.flow = flow) (stream : item.isPayload = true) :
    item.ref ∈ (flowDrained v flow position cat).2.1 := by
  rw [mem_flowDrained]
  obtain ⟨before, destination⟩ := sideDrained_pending done
  obtain ⟨_, source⟩ := sideDrained_pending before
  obtain ⟨side, listed⟩ := mem_inLane_of_flow checked member here
  refine .inr ⟨side, ?_⟩
  cases side with
  | source => exact source _ (List.mem_map_of_mem listed) stream
  | destination => exact destination _ (List.mem_map_of_mem listed) stream

theorem lastUpdate_of_gone {ref : Ref} (gone : ref ∈ (drainedSide v flow position cat side).2.1) :
    (flowDrained v flow position cat).1.position.lastUpdate = v.now := by
  have source : (drainedSide v flow position cat .source).1.position.lastUpdate = _ := sideDrained_lastUpdate
  have destination : (flowDrained v flow position cat).1.position.lastUpdate = _ := sideDrained_lastUpdate
  rw [destination]
  split
  · next none =>
    cases side with
    | source => exact source.trans (if_neg (List.ne_nil_of_mem gone))
    | destination => exact absurd none (List.ne_nil_of_mem gone)
  · rfl

theorem lastUpdate_of_none (none : ∀ side, (drainedSide v flow position cat side).2.1 = []) :
    (flowDrained v flow position cat).1.position.lastUpdate = position.lastUpdate ∨
      (flowDrained v flow position cat).1.position.lastUpdate = v.now := by
  have source : (drainedSide v flow position cat .source).1.position.lastUpdate = _ := sideDrained_lastUpdate
  have destination : (flowDrained v flow position cat).1.position.lastUpdate = _ := sideDrained_lastUpdate
  have both := (destination.trans (if_pos (none .destination))).trans (source.trans (if_pos (none .source)))
  rw [both]
  exact lastUpdate_adoptAll position _ v.now

theorem flowDrained_lastUpdate (separate : cat.Distinct) :
    (flowDrained v flow position cat).1.position.lastUpdate = v.now ∨
      (flowDrained v flow position cat).1.position.lastUpdate = position.lastUpdate ∧
        ∀ item ∈ cat.items, item.isPayload = true →
          item.ref ∉ (flowDrained v flow position cat).2.1 := by
  by_cases none : ∀ side, (drainedSide v flow position cat side).2.1 = []
  · refine (lastUpdate_of_none none).symm.imp id fun same => ⟨same, fun item member stream gone => ?_⟩
    rcases mem_flowDrained.mp gone with marker | ⟨side, gone⟩
    · exact not_mem_markers_of_payload separate member stream marker
    · rw [none side] at gone
      exact List.not_mem_nil gone
  · obtain ⟨side, some⟩ := not_forall.mp none
    obtain ⟨ref, gone⟩ := List.exists_mem_of_ne_nil _ some
    exact .inl (lastUpdate_of_gone gone)

theorem fateOf_none (separate : cat.Distinct) (checked : flow.raw.toNat < 0x80000000) {timeout : Micros}
    (expired : (Shard.fateOf flow timeout v.now (flowDrained v flow position cat).1).position = none) :
    (∀ item ∈ cat.items, item.key.flow = flow → item.isPayload = false) ∧
      timeout < elapsed v.now position.lastUpdate := by
  rw [Shard.fateOf] at expired
  dsimp only at expired
  split at expired
  · next both =>
    rcases flowDrained_lastUpdate (v := v) separate with
      late | ⟨same, none_gone⟩
    · have waited := both.2
      rw [late, elapsed_self] at waited
      exact absurd waited (UInt64.not_lt_zero)
    · rw [same] at both
      refine ⟨fun item member here => Bool.eq_false_iff.mpr fun stream => ?_, both.2⟩
      exact none_gone item member stream (flowDrained_pending checked both.1 member here stream)
  · cases expired

theorem fateOf_some (separate : cat.Distinct) {timeout : Micros} {after : Position}
    (goes_on : (Shard.fateOf flow timeout v.now (flowDrained v flow position cat).1).position =
      some after) : after.lastUpdate = v.now ∨ after.lastUpdate = position.lastUpdate ∧
        ∀ item ∈ cat.items, item.isPayload = true →
          item.ref ∉ (flowDrained v flow position cat).2.1 := by
  rw [Shard.fateOf] at goes_on
  dsimp only at goes_on
  split at goes_on
  · cases goes_on
  · obtain rfl := Option.some.inj goes_on
    exact flowDrained_lastUpdate separate

theorem flowDrained_without (separate : cat.Distinct) (ordered : cat.Ordered l)
    (checked : flow.raw.toNat < 0x80000000) {other : FlowId} (apart : other ≠ flow)
    (known : other.raw.toNat < 0x80000000) (standing : Position) :
    flowDrained v other standing (cat.without (flowDrained v flow position cat).2.1) =
      flowDrained v other standing cat := by
  refine flowDrained_congr fun side => separate.inLane_without ordered fun ref gone lane => ?_
  obtain ⟨item, _, rfl, here⟩ := flowDrained_refs checked gone
  exact apart ((FlowKey.flow_of_lane known lane).symm.trans here)

def fated (v : View) (timeout : Micros) (cat : Catalog) (pair : FlowId × Position) : Shard.Fate :=
  Shard.fateOf pair.1 timeout v.now (flowDrained v pair.1 pair.2 cat).1

theorem flowsDrained_eq (separate : cat.Distinct) (ordered : cat.Ordered l) (timeout : Micros)
    {flows : List (FlowId × Position)} (checked : ∀ pair ∈ flows, pair.1.raw.toNat < 0x80000000)
    (distinct : flows.Pairwise fun a b => a.1 ≠ b.1) :
    flowsDrained v timeout flows cat =
      (flows.map (fated v timeout cat),
        cat.without (flows.flatMap fun pair => (flowDrained v pair.1 pair.2 cat).2.1),
        flows.flatMap fun pair => (flowDrained v pair.1 pair.2 cat).2.2) := by
  induction flows generalizing cat with
  | nil => rfl
  | cons pair rest ih =>
    obtain ⟨flow, position⟩ := pair
    obtain ⟨apart, others⟩ := List.pairwise_cons.mp distinct
    have here := checked _ List.mem_cons_self
    have same : ∀ other ∈ rest, flowDrained v other.1 other.2
        (cat.without (flowDrained v flow position cat).2.1) = flowDrained v other.1 other.2 cat :=
      fun other later => flowDrained_without separate ordered here (apart other later).symm
        (checked other (List.mem_cons_of_mem _ later)) other.2
    have later := ih (separate.without (flowDrained v flow position cat).2.1)
      (ordered.without (flowDrained v flow position cat).2.1)
      (fun other listed => checked other (List.mem_cons_of_mem _ listed)) others
    have fates : rest.map (fated v timeout (cat.without (flowDrained v flow position cat).2.1)) =
        rest.map (fated v timeout cat) :=
      List.map_congr_left fun other listed => by rw [fated, fated, same other listed]
    have refs : rest.flatMap (fun pair => (flowDrained v pair.1 pair.2
        (cat.without (flowDrained v flow position cat).2.1)).2.1) =
        rest.flatMap fun pair => (flowDrained v pair.1 pair.2 cat).2.1 :=
      List.flatMap_congr fun other listed => by rw [same other listed]
    have told : rest.flatMap (fun pair => (flowDrained v pair.1 pair.2
        (cat.without (flowDrained v flow position cat).2.1)).2.2) =
        rest.flatMap fun pair => (flowDrained v pair.1 pair.2 cat).2.2 :=
      List.flatMap_congr fun other listed => by rw [same other listed]
    rw [flowsDrained]
    rw [later, fates, refs, told, List.flatMap_cons, Catalog.without_append]
    rfl

namespace Shard

theorem flows_settle (s : Shard) (fate : Fate) (known : s.owns fate.flow = true) (flow : FlowId) :
    (s.settle fate).flows[flow]? = if fate.flow = flow then fate.position else s.flows[flow]? := by
  rw [settle]
  cases fate.position with
  | none => exact FlowId.getElem?_erase _ _ _
  | some position =>
    dsimp only
    rw [if_pos known]
    exact FlowId.getElem?_insert _ _ _ _

theorem flowTimeout_settleAll (s : Shard) (fates : List Fate) :
    (s.settleAll fates).flowTimeout = s.flowTimeout := by
  rw [settleAll]
  induction fates generalizing s with
  | nil => rfl
  | cons fate rest ih =>
    rw [List.foldl_cons, ih, settle]
    split
    · split
      · rfl
      · rfl
    · rfl

theorem flows_settleAll (s : Shard) {fates : List Fate} (known : ∀ fate ∈ fates, s.owns fate.flow = true)
    (distinct : fates.Pairwise fun a b => a.flow ≠ b.flow) (flow : FlowId) :
    (∀ fate ∈ fates, fate.flow = flow → (s.settleAll fates).flows[flow]? = fate.position) ∧
      ((∀ fate ∈ fates, fate.flow ≠ flow) → (s.settleAll fates).flows[flow]? = s.flows[flow]?) := by
  induction fates generalizing s with
  | nil => exact ⟨nofun, fun _ => rfl⟩
  | cons fate rest ih =>
    obtain ⟨apart, others⟩ := List.pairwise_cons.mp distinct
    have settled := s.flows_settle fate (known fate List.mem_cons_self)
    have kept : ∀ later ∈ rest, (s.settle fate).owns later.flow = true := by
      intro later listed
      rw [owns_eq, settled, if_neg (apart later listed), ← owns_eq]
      exact known later (List.mem_cons_of_mem _ listed)
    obtain ⟨hit, missed⟩ := ih (s.settle fate) kept others
    rw [settleAll, List.foldl_cons]
    refine ⟨fun found listed same => ?_, fun misses => ?_⟩
    · rcases List.mem_cons.mp listed with rfl | later
      · refine (missed fun other listed equal => apart other listed (same.trans equal.symm)).trans ?_
        rw [settled, if_pos same]
      · exact hit found later same
    · refine (missed fun other listed => misses other (List.mem_cons_of_mem _ listed)).trans ?_
      rw [settled, if_neg (misses fate List.mem_cons_self)]

variable {s : Shard} (checked : ∀ flow, s.owns flow = true → flow.raw.toNat < 0x80000000)

theorem mem_flows {pair : FlowId × Position} :
    pair ∈ s.flows.toList ↔ s.flows[pair.1]? = some pair.2 :=
  Std.ExtTreeMap.mem_toList_iff_getElem?_eq_some

theorem distinct_flows (s : Shard) : s.flows.toList.Pairwise fun a b => a.1 ≠ b.1 :=
  Std.ExtTreeMap.distinct_keys_toList.imp fun apart same =>
    apart (Std.LawfulEqCmp.compare_eq_iff_eq.mpr same)

include checked

theorem checked_of_mem {pair : FlowId × Position} (listed : pair ∈ s.flows.toList) :
    pair.1.raw.toNat < 0x80000000 := by
  refine checked pair.1 ?_
  rw [owns_eq, mem_flows.mp listed]
  rfl

theorem rounded_eq (separate : cat.Distinct) (ordered : cat.Ordered l) : s.rounded v cat =
    (s.settleAll (s.flows.toList.map (fated v s.flowTimeout cat)),
      cat.without (s.flows.toList.flatMap fun pair => (flowDrained v pair.1 pair.2 cat).2.1),
      (s.flows.toList.flatMap fun pair => (flowDrained v pair.1 pair.2 cat).2.2) ++
        (expiredFlows (s.flows.toList.map (fated v s.flowTimeout cat))).map Event.expired) := by
  rw [rounded, flowsDrained_eq separate ordered s.flowTimeout
    (fun _ listed => checked_of_mem checked listed) s.distinct_flows]

theorem flows_rounded (separate : cat.Distinct) (ordered : cat.Ordered l) (flow : FlowId) :
    (s.rounded v cat).1.flows[flow]? = s.flows[flow]?.bind fun position =>
      (fated v s.flowTimeout cat (flow, position)).position := by
  rw [rounded_eq checked separate ordered]
  have settled := s.flows_settleAll
    (fun fate listed => by
      obtain ⟨pair, there, rfl⟩ := List.mem_map.mp listed
      rw [owns_eq, show (fated v s.flowTimeout cat pair).flow = pair.1 from rfl, mem_flows.mp there]
      rfl)
    (List.pairwise_map.mpr s.distinct_flows) flow
  cases known : s.flows[flow]? with
  | none =>
    refine (settled.2 fun fate listed same => ?_).trans known
    obtain ⟨pair, there, rfl⟩ := List.mem_map.mp listed
    have stands := mem_flows.mp there
    rw [show pair.1 = flow from same, known] at stands
    cases stands
  | some position =>
    exact settled.1 _ (List.mem_map_of_mem (mem_flows.mpr known)) rfl

/-- After a round a block is left unless its flow is owned and it went when that was drained. -/
theorem mem_rounded (separate : cat.Distinct) (ordered : cat.Ordered l) {item : Item} :
    item ∈ (s.rounded v cat).2.1.items ↔ item ∈ cat.items ∧ ∀ position,
      s.flows[item.key.flow]? = some position →
        item.ref ∉ (flowDrained v item.key.flow position cat).2.1 := by
  rw [rounded_eq checked separate ordered]
  dsimp only
  rw [separate.items_without ordered, List.mem_filter]
  simp only [List.mem_flatMap, not_exists, not_and, decide_eq_true_eq]
  refine and_congr_right fun member => ⟨fun left position known => ?_, fun left pair listed gone => ?_⟩
  · exact left (item.key.flow, position) (mem_flows.mpr known)
  · obtain ⟨other, there, same, here⟩ := flowDrained_refs (checked_of_mem checked listed) gone
    obtain rfl := separate.eq_of_ref there member same
    obtain ⟨flow, position⟩ := pair
    obtain rfl : other.key.flow = flow := here
    exact left position (mem_flows.mp listed) gone

end Shard

theorem Team.position?_rounded (separate : cat.Distinct) (ordered : cat.Ordered l) {t : Team} {s : Shard}
    {place : Nat} (there : t.shards[place]? = some s)
    (checked : ∀ index flow, (t.position? index flow).isSome → flow.raw.toNat < 0x80000000)
    (index : Nat) (flow : FlowId) :
    ({ t with shards := t.shards.setIfInBounds place (s.rounded v cat).1 } : Team).position? index flow =
      if place = index then (t.position? index flow).bind fun position =>
        (fated v s.flowTimeout cat (flow, position)).position
      else t.position? index flow := by
  rw [position?_set there]
  split
  · next same =>
    subst same
    rw [Shard.flows_rounded (shard_checked checked there) separate ordered, position?_manned there]
  · rfl

end Delivery

end Reassembly
