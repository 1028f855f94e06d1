import Reassembly.Proofs.Recovery

/-!
The rounds that bring traffic in. Once every block is ready and every flow of a block is owned by a shard
that has not read anything of it, one round of each shard, in any order, tells all streams, reports no
gap, lets no flow expire and leaves no block.
-/

namespace Reassembly

open Store Reading Delivery

theorem Delivery.Shard.fateOf_current {flow : FlowId} {timeout now : Micros} {drained : Drained}
    (current : drained.position.lastUpdate = now) :
    (fateOf flow timeout now drained).position = some drained.position := by
  rw [fateOf]
  dsimp only
  rw [current, elapsed_self, if_neg fun waits => absurd waits.2 UInt64.not_lt_zero]

namespace Site

/-- The traffic is told, but for what the shards `left` have to tell of it from the blocks there are. -/
structure Pending (t : Traffic) (idle since : Micros) (left : List Nat) (sc : Scene) : Prop where
  ready : ∀ item ∈ sc.cat.items, ∀ now, since ≤ now → item.header.isReady now idle = true
  cuts : t.Cuts sc.cat.items
  owned : ∀ item ∈ sc.cat.items, ∃ index ∈ left, (sc.team.position? index item.key.flow).isSome
  single : ∀ i j flow, (sc.team.position? i flow).isSome → (sc.team.position? j flow).isSome → i = j
  unread : ∀ index ∈ left, ∀ flow position, sc.team.position? index flow = some position →
    position.expected = .both none ∧ Stocked sc.cat.items flow ∧ t.IsWhole sc.cat.items flow
  untold : ∀ index ∈ left, ∀ flow, (sc.team.position? index flow).isSome →
    ∀ side, heard flow side sc.events.toList = .empty
  told : ∀ flow, (∀ index ∈ left, sc.team.position? index flow = none) →
    ∀ side, heard flow side sc.events.toList = t.bytes flow side
  plain : ∀ event ∈ sc.events.toList, event.isPlain = true

namespace Tracks

variable {l : Layout} {s : Site} {sc : Scene} {t : Traffic} {idle since now : Micros} {left : List Nat}
  {index : Nat} (tracks : Tracks l s sc) (pending : Pending t idle since (index :: left) sc)
include tracks pending

theorem pending_flow {a : Attachment} (same : a.config.blockIdleTimeout = idle) (late : since ≤ now)
    {flow : FlowId} {position : Position} (stands : sc.team.position? index flow = some position) :
    let drained := flowDrained (a.view now) flow position sc.cat
    (∀ event ∈ drained.2.2, event.flow = flow ∧ event.isPlain = true) ∧
      (∀ side, heard flow side drained.2.2 = t.bytes flow side) ∧
      (∀ item ∈ sc.cat.items, item.key.flow = flow → item.ref ∈ drained.2.1) ∧
      drained.1.position.lastUpdate = (a.view now).now := by
  obtain ⟨nowhere, stocked, whole⟩ := pending.unread index List.mem_cons_self flow position stands
  refine flowDrained_spec tracks.ordered tracks.commons.sound pending.cuts (fun item member => ?_)
    (tracks.checked index flow (by rw [stands]; rfl)) whole stocked nowhere
  have ready := pending.ready item member now late
  rw [← same] at ready
  exact ready

variable {a : Attachment} {shard : Shard} (same : a.config.blockIdleTimeout = idle) (late : since ≤ now)
  (manned : sc.team.shards[index]? = some shard)
include same late manned

theorem pending_news :
    (∀ event ∈ (shard.rounded (a.view now) sc.cat).2.2, event.isPlain = true) ∧
      (∀ flow position, sc.team.position? index flow = some position → ∀ side,
        heard flow side (shard.rounded (a.view now) sc.cat).2.2 = t.bytes flow side) ∧
      ∀ flow, sc.team.position? index flow = none → ∀ side,
        heard flow side (shard.rounded (a.view now) sc.cat).2.2 = .empty := by
  have known := Team.position?_manned manned
  have spec : ∀ pair ∈ shard.flows.toList, _ := fun pair listed =>
    tracks.pending_flow pending same late ((known pair.1).trans (Shard.mem_flows.mp listed))
  have none_expired : Shard.expiredFlows
      (shard.flows.toList.map (fated (a.view now) shard.flowTimeout sc.cat)) = [] := by
    rw [Shard.expiredFlows, List.map_eq_nil_iff, List.filter_eq_nil_iff]
    intro fate listed expired
    obtain ⟨pair, there, rfl⟩ := List.mem_map.mp listed
    rw [fated, Shard.fateOf_current (spec pair there).2.2.2] at expired
    cases expired
  rw [Shard.rounded_eq (tracks.shard_checked manned) tracks.separate tracks.ordered]
  dsimp only
  rw [none_expired, List.map_nil, List.append_nil]
  refine ⟨fun event listed => ?_, fun flow position stands side => ?_, fun flow elsewhere side => ?_⟩
  · obtain ⟨pair, there, told⟩ := List.mem_flatMap.mp listed
    exact ((spec pair there).1 event told).2
  · rw [known] at stands
    have there : (flow, position) ∈ shard.flows.toList := Shard.mem_flows.mpr stands
    have own := (@Delivery.heard_flatMap side) (fun pair listed event told =>
      ((spec pair listed).1 event told).1) shard.distinct_flows there
    exact own.trans ((spec _ there).2.1 side)
  · refine heard_of_ne fun event listed mine => ?_
    obtain ⟨pair, there, told⟩ := List.mem_flatMap.mp listed
    have stands := Shard.mem_flows.mp there
    rw [((spec pair there).1 event told).1.symm.trans mine, ← known, elsewhere] at stands
    cases stands

theorem pending_items (item : Item) : item ∈ (shard.rounded (a.view now) sc.cat).2.1.items ↔
    item ∈ sc.cat.items ∧ sc.team.position? index item.key.flow = none := by
  have known := Team.position?_manned manned item.key.flow
  rw [Shard.mem_rounded (tracks.shard_checked manned) tracks.separate tracks.ordered, ← known]
  refine and_congr_right fun member => ⟨fun stays => ?_, fun none position stands => ?_⟩
  · cases stands : sc.team.position? index item.key.flow with
    | none => rfl
    | some position =>
      refine absurd ?_ (stays position stands)
      exact (tracks.pending_flow pending same late stands).2.2.1 item member rfl
  · rw [none] at stands
    cases stands

theorem pending_positions :
    let team : Team := { sc.team with
      shards := sc.team.shards.setIfInBounds index (shard.rounded (a.view now) sc.cat).1 }
    (∀ other flow, (team.position? other flow).isSome ↔ (sc.team.position? other flow).isSome) ∧
      ∀ other flow, other ≠ index → team.position? other flow = sc.team.position? other flow := by
  have positions := Team.position?_rounded (v := a.view now) tracks.separate tracks.ordered manned
    tracks.checked
  refine ⟨fun other flow => ?_, fun other flow apart => ?_⟩
  · rw [positions]
    split
    · next here =>
      subst here
      cases stands : sc.team.position? index flow with
      | none => exact Iff.rfl
      | some position =>
        have current := (tracks.pending_flow pending same late stands).2.2.2
        rw [Option.bind_some, fated, Shard.fateOf_current current]
        exact Iff.rfl
    · exact Iff.rfl
  · rw [positions, if_neg (Ne.symm apart)]

omit manned in
theorem pending_drain (there : sc.handles[0]? = some a) (once : index ∉ left)
    (manned : index < sc.team.shards.size) :
    Pending t idle since left (sc.effect (.drain 0 index now)) := by
  obtain ⟨shard, manned⟩ : ∃ shard, sc.team.shards[index]? = some shard :=
    ⟨_, Array.getElem?_eq_getElem manned⟩
  obtain ⟨plain, mine, others⟩ := tracks.pending_news pending same late manned
  obtain ⟨owners, positions⟩ := tracks.pending_positions pending same late manned
  have stays := tracks.pending_items pending same late manned
  have apart : ∀ other ∈ left, other ≠ index := fun other listed here => once (here ▸ listed)
  have elsewhere : ∀ other ∈ left, ∀ flow, (sc.team.position? other flow).isSome →
      sc.team.position? index flow = none := by
    intro other listed flow owned
    refine Option.not_isSome_iff_eq_none.mp fun here => ?_
    exact apart other listed (pending.single other index flow owned here)
  have handed : ∀ (flow : FlowId) (side : Side),
      heard flow side (sc.events ++ (shard.rounded (a.view now) sc.cat).2.2.toArray).toList =
        heard flow side sc.events.toList ++ heard flow side (shard.rounded (a.view now) sc.cat).2.2 := by
    intro flow side
    rw [Array.toList_append, heard_append]
  simp only [Scene.effect, there, manned]
  refine ⟨fun item listed => ?_, fun item listed => ?_, fun item listed => ?_, fun i j flow first second => ?_,
    fun other listed flow position stands => ?_, fun other listed flow owned side => ?_,
    fun flow unowned side => ?_, fun event listed => ?_⟩
  · exact pending.ready item ((stays item).mp listed).1
  · exact pending.cuts item ((stays item).mp listed).1
  · obtain ⟨member, none⟩ := (stays item).mp listed
    obtain ⟨other, there, owned⟩ := pending.owned item member
    rcases List.mem_cons.mp there with rfl | later
    · rw [none] at owned
      cases owned
    · exact ⟨other, later, (owners _ _).mpr owned⟩
  · exact pending.single i j flow ((owners _ _).mp first) ((owners _ _).mp second)
  · rw [positions other flow (apart other listed)] at stands
    have owned : (sc.team.position? other flow).isSome := by rw [stands]; rfl
    obtain ⟨nowhere, ⟨item, member, payload, here⟩, whole⟩ :=
      pending.unread other (List.mem_cons_of_mem _ listed) flow position stands
    have none := elsewhere other listed flow owned
    refine ⟨nowhere, ⟨item, (stays item).mpr ⟨member, here ▸ none⟩, payload, here⟩, ?_⟩
    intro side stream known place more
    obtain ⟨block, there, lane, held⟩ := whole side stream known place more
    have mine : block.key.flow = flow := FlowKey.flow_of_lane (tracks.checked other flow owned) lane
    exact ⟨block, (stays block).mpr ⟨there, mine ▸ none⟩, lane, held⟩
  · have before := (owners other flow).mp owned
    rw [handed, pending.untold other (List.mem_cons_of_mem _ listed) flow before side,
      others flow (elsewhere other listed flow before) side, ByteArray.empty_append]
  · have before : ∀ other ∈ left, sc.team.position? other flow = none := by
      intro other listed
      rw [← positions other flow (apart other listed)]
      exact unowned other listed
    rw [handed]
    cases stands : sc.team.position? index flow with
    | none =>
      rw [others flow stands side, ByteArray.append_empty]
      refine pending.told flow (fun other listed => ?_) side
      rcases List.mem_cons.mp listed with rfl | later
      · exact stands
      · exact before other later
    | some position =>
      have owned : (sc.team.position? index flow).isSome := by rw [stands]; rfl
      rw [pending.untold index List.mem_cons_self flow owned side, mine flow position stands side,
        ByteArray.empty_append]
  · rw [Array.toList_append] at listed
    exact (List.mem_append.mp listed).elim (pending.plain event) (plain event)

end Tracks

theorem Tracks.pending_rounds {l : Layout} {s : Site} {sc : Scene} {t : Traffic} {idle since : Micros}
    {a : Attachment} (same : a.config.blockIdleTimeout = idle)
    {rounds : List (Nat × Micros)} (tracks : Tracks l s sc)
    (pending : Pending t idle since (rounds.map Prod.fst) sc) (there : sc.handles[0]? = some a)
    (late : ∀ round ∈ rounds, since ≤ round.2) (once : (rounds.map Prod.fst).Nodup)
    (manned : ∀ round ∈ rounds, round.1 < sc.team.shards.size) :
    ∃ sc', Tracks l (s.run (rounds.map fun round => .drain 0 round.1 round.2)) sc' ∧
      Pending t idle since [] sc' := by
  induction rounds generalizing s sc with
  | nil => exact ⟨sc, tracks, pending⟩
  | cons first rest ih =>
    rw [List.map_cons] at pending once
    obtain ⟨fresh, others⟩ := List.nodup_cons.mp once
    have after := tracks.pending_drain pending same (late first List.mem_cons_self) there fresh
      (manned first List.mem_cons_self)
    have kept : (sc.effect (.drain 0 first.1 first.2)).handles = sc.handles ∧
        (sc.effect (.drain 0 first.1 first.2)).team.shards.size = sc.team.shards.size := by
      rw [Scene.effect]
      split
      · exact ⟨rfl, Array.size_setIfInBounds⟩
      · exact ⟨rfl, rfl⟩
    refine ih (tracks.drain 0 first.1 first.2) after ?_
      (fun round listed => late round (List.mem_cons_of_mem _ listed)) others fun round listed => ?_
    · rw [kept.1]
      exact there
    · rw [kept.2]
      exact manned round (List.mem_cons_of_mem _ listed)

end Site

end Reassembly
