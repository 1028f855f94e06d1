import Reassembly.Proofs.Rounds
import Reassembly.Proofs.Routing
import Reassembly.Proofs.Telling

/-!
Rounds and polls however often the numbers of the insertions came round. References need not tell blocks
apart then, and a walk may miss some; but it ends, everything it finds is a block of the lane, and so a
round and a poll succeed and are told of blocks that there are.
-/

namespace Reassembly

open Store Reading

namespace Store.Catalog

variable {cat : Catalog} {item : Item}

theorem mem_of_erase {ref : Ref} (listed : item ∈ (cat.erase ref).items) : item ∈ cat.items := by
  rw [erase] at listed
  split at listed
  · exact listed
  · exact List.mem_of_mem_eraseIdx listed

theorem mem_of_without {refs : List Ref} (listed : item ∈ (cat.without refs).items) : item ∈ cat.items := by
  induction refs generalizing cat with
  | nil => exact listed
  | cons ref rest ih => exact mem_of_erase (@ih (cat.erase ref) listed)

end Store.Catalog

namespace Reading

variable {v : View} {r : Region} {cat : Catalog}

theorem walkFrom_found (carries : Carries v.layout r cat) (wanted : FlowKey → Bool) {item : Item}
    (member : item ∈ cat.items) : ∃ items : List Item,
      walkFrom v wanted (item.stored v) r = .ok (items.map (Item.stored v)) r ∧
        ∀ item ∈ items, item ∈ cat.items ∧ wanted item.key = true := by
  induction size : Ref.count - item.ref.rank using Nat.strongRecOn generalizing item with
  | ind size ih =>
    subst size
    have key : (item.stored v).key = item.key := rfl
    have ref : (item.stored v).ref = item.ref := rfl
    rw [walkFrom, key]
    by_cases here : wanted item.key = true
    · rw [if_pos here, Work.bind_ok (next_run carries _), ref]
      have one : ∀ other ∈ [item], other ∈ cat.items ∧ wanted other.key = true := fun other listed => by
        rw [List.mem_singleton.mp listed]
        exact ⟨member, here⟩
      cases found : cat.next? item.ref with
      | none => exact ⟨[item], rfl, one⟩
      | some following =>
        dsimp only [Option.map_some]
        by_cases further : Ref.before item.ref (following.stored v).ref = true
        · have less := (Ref.before_iff _ _).mp further
          have bound := (following.stored v).ref.rank_lt
          have same : (following.stored v).ref = following.ref := rfl
          rw [same] at less bound
          rw [Ref.count] at *
          obtain ⟨items, ran, spec⟩ := ih _ (by omega) (Catalog.mem_of_next? found) rfl
          rw [dif_pos further, Work.bind_ok ran]
          refine ⟨item :: items, rfl, fun other listed => ?_⟩
          rcases List.mem_cons.mp listed with rfl | later
          · exact ⟨member, here⟩
          · exact spec other later
        · rw [dif_neg further]
          exact ⟨[item], rfl, one⟩
    · rw [if_neg here]
      exact ⟨[], rfl, fun other listed => absurd listed List.not_mem_nil⟩

theorem range_found (carries : Carries v.layout r cat) {flow : FlowId}
    (checked : flow.raw.toNat < 0x80000000) (side : Side) : ∃ items : List Item,
      range v flow side r = .ok (items.map (Item.stored v)) r ∧
        ∀ item ∈ items, item ∈ cat.inLane (FlowKey.laneOf flow side) := by
  rw [range, walk, Work.bind_ok (firstFrom_run carries _)]
  cases first : cat.firstFrom? (.rangeStart flow side) with
  | none => exact ⟨[], rfl, fun other listed => absurd listed List.not_mem_nil⟩
  | some item =>
    have member : item ∈ cat.items := List.mem_of_getElem? first
    obtain ⟨items, ran, spec⟩ := walkFrom_found carries (·.belongsTo flow side) member
    refine ⟨items, ran, fun other listed => ?_⟩
    obtain ⟨there, belongs⟩ := spec other listed
    exact Catalog.mem_inLane.mpr ⟨there, (FlowKey.belongsTo_iff side checked _).mp belongs⟩

end Reading

namespace Delivery

variable {v : View} {timeout : Micros} {r : Region} {cat cat' : Catalog} {events : Array Event}
  {flows : List (FlowId × Position)} {fates : List Shard.Fate} {told : List Event}

/-- Some flows are drained one after the other, each from blocks of its lanes on what the one before it
left; with their fates and what is told. -/
inductive Drains (v : View) (timeout : Micros) :
    Catalog → List (FlowId × Position) → List Shard.Fate → List Event → Catalog → Prop
  | nil (cat : Catalog) : Drains v timeout cat [] [] [] cat
  | cons {cat cat' : Catalog} {flow : FlowId} {position : Position} {source destination : List Item}
      {rest : List (FlowId × Position)} {fates : List Shard.Fate} {told : List Event}
      (sources : ∀ item ∈ source, item ∈ cat.inLane (FlowKey.laneOf flow .source))
      (destinations : ∀ item ∈ destination, item ∈ cat.inLane (FlowKey.laneOf flow .destination))
      (others : Drains v timeout (cat.without (drainedFrom v flow position (source.map (Item.stored v))
        (destination.map (Item.stored v))).2.1) rest fates told cat') :
      Drains v timeout cat ((flow, position) :: rest)
        (Shard.fateOf flow timeout v.now (drainedFrom v flow position (source.map (Item.stored v))
          (destination.map (Item.stored v))).1 :: fates)
        ((drainedFrom v flow position (source.map (Item.stored v))
          (destination.map (Item.stored v))).2.2 ++ told) cat'

theorem drainFlows_found (carries : Carries v.layout r cat) (timeout : Micros)
    (checked : ∀ pair ∈ flows, pair.1.raw.toNat < 0x80000000) :
    ∃ fates told cat' blocks r', Drains v timeout cat flows fates told cat' ∧
      Shard.drainFlows v timeout flows ⟨r, events⟩ = .ok (fates, blocks) ⟨r', events ++ told.toArray⟩ ∧
      Carries v.layout r' cat' := by
  induction flows generalizing r cat events with
  | nil =>
    refine ⟨[], [], cat, 0, r, .nil cat, ?_, carries⟩
    rw [told_nil]
    rfl
  | cons pair rest ih =>
    obtain ⟨flow, position⟩ := pair
    have small := checked _ List.mem_cons_self
    obtain ⟨source, sources, inSource⟩ := range_found carries small .source
    obtain ⟨destination, destinations, inDestination⟩ := range_found carries small .destination
    obtain ⟨r₁, first, carries₁⟩ := @drainFlow_from v r cat events carries flow _ _ sources destinations position
    obtain ⟨fates, told, cat', blocks, r₂, others, ran, carries₂⟩ :=
      ih carries₁ fun pair later => checked pair (List.mem_cons_of_mem _ later)
    refine ⟨_, _, cat', (drainedFrom v flow position (source.map (Item.stored v))
      (destination.map (Item.stored v))).1.consumed + blocks, r₂, .cons inSource inDestination others, ?_,
      carries₂⟩
    rw [Shard.drainFlows, Work.bind_ok first, Work.bind_ok ran]
    dsimp only
    rw [Work.pure_run, told_append]

namespace Drains

theorem exists_without (drains : Drains v timeout cat flows fates told cat') :
    ∃ refs, cat' = cat.without refs := by
  induction drains with
  | nil cat => exact ⟨[], rfl⟩
  | cons _ _ _ ih =>
    obtain ⟨refs, rfl⟩ := ih
    exact ⟨_, (Catalog.without_append _ _ refs).symm⟩

theorem flows_eq (drains : Drains v timeout cat flows fates told cat') :
    fates.map (·.flow) = flows.map Prod.fst := by
  induction drains with
  | nil cat => rfl
  | cons _ _ _ ih => exact congrArg _ ih

theorem told_of (drains : Drains v timeout cat flows fates told cat') :
    ∀ event ∈ told, event.flow ∈ flows.map Prod.fst := by
  induction drains with
  | nil cat => exact fun event listed => absurd listed List.not_mem_nil
  | cons _ _ _ ih =>
    intro event listed
    rw [List.map_cons]
    rcases List.mem_append.mp listed with mine | later
    · rw [drainedFrom_flow event mine]
      exact List.mem_cons_self
    · exact List.mem_cons_of_mem _ (ih event later)

theorem spec (drains : Drains v timeout cat flows fates told cat') (distinct : flows.Pairwise fun a b => a.1 ≠ b.1)
    {flow : FlowId} {position : Position} (listed : (flow, position) ∈ flows) :
    ∃ source destination : List Item,
      (∀ item ∈ source, item ∈ cat.inLane (FlowKey.laneOf flow .source)) ∧
      (∀ item ∈ destination, item ∈ cat.inLane (FlowKey.laneOf flow .destination)) ∧
      let drained := drainedFrom v flow position (source.map (Item.stored v)) (destination.map (Item.stored v))
      Shard.fateOf flow timeout v.now drained.1 ∈ fates ∧
        told.filter (·.flow = flow) = drained.2.2 := by
  induction drains with
  | nil cat => exact absurd listed List.not_mem_nil
  | @cons cat cat' other stands source destination rest fates told sources destinations others ih =>
    obtain ⟨apart, distinct'⟩ := List.pairwise_cons.mp distinct
    have own : ∀ event ∈ (drainedFrom v other stands (source.map (Item.stored v))
        (destination.map (Item.stored v))).2.2, event.flow = other := drainedFrom_flow
    rcases List.mem_cons.mp listed with same | later
    · obtain ⟨rfl, rfl⟩ := Prod.mk.inj same
      refine ⟨source, destination, sources, destinations, List.mem_cons_self, ?_⟩
      rw [List.filter_append, List.filter_eq_self.mpr, List.filter_eq_nil_iff.mpr, List.append_nil]
      · intro event listed mine
        obtain ⟨pair, there, here⟩ := List.mem_map.mp (others.told_of event listed)
        exact apart pair there ((of_decide_eq_true mine).symm.trans here.symm)
      · exact fun event listed => decide_eq_true (own event listed)
    · obtain ⟨source', destination', sources', destinations', fate, news⟩ := ih distinct' later
      have kept {lane : Nat} {refs : List Ref} {item : Item} (listed : item ∈ (cat.without refs).inLane lane) :
          item ∈ cat.inLane lane := by
        obtain ⟨member, inLane⟩ := Catalog.mem_inLane.mp listed
        exact Catalog.mem_inLane.mpr ⟨Catalog.mem_of_without member, inLane⟩
      refine ⟨source', destination', fun item listed => kept (sources' item listed),
        fun item listed => kept (destinations' item listed), List.mem_cons_of_mem _ fate, ?_⟩
      rw [List.filter_append, List.filter_eq_nil_iff.mpr, List.nil_append, news]
      intro event listed mine
      exact apart _ later ((own event listed).symm.trans (of_decide_eq_true mine))

end Drains

namespace Shard

theorem filter_expired {fates : List Fate} (distinct : fates.Pairwise fun a b => a.flow ≠ b.flow)
    {fate : Fate} (listed : fate ∈ fates) :
    ((expiredFlows fates).map Event.expired).filter (·.flow = fate.flow) =
      if fate.position.isNone then [.expired fate.flow] else [] := by
  have others {rest : List Fate} (apart : ∀ other ∈ rest, fate.flow ≠ other.flow) :
      ((expiredFlows rest).map Event.expired).filter (·.flow = fate.flow) = [] := by
    rw [List.filter_eq_nil_iff]
    intro event told mine
    obtain ⟨flow, gone, rfl⟩ := List.mem_map.mp told
    obtain ⟨other, there, rfl⟩ := List.mem_map.mp gone
    exact apart other (List.mem_filter.mp there).1 (of_decide_eq_true mine).symm
  have step (first : Fate) (rest : List Fate) : (expiredFlows (first :: rest)).map Event.expired =
      (if first.position.isNone then [.expired first.flow] else []) ++
        (expiredFlows rest).map Event.expired := by
    rw [expiredFlows, expiredFlows, List.filter_cons]
    split
    · rfl
    · rfl
  induction fates with
  | nil => exact absurd listed List.not_mem_nil
  | cons first rest ih =>
    obtain ⟨apart, distinct'⟩ := List.pairwise_cons.mp distinct
    rw [step, List.filter_append]
    rcases List.mem_cons.mp listed with rfl | later
    · rw [others apart, List.append_nil, List.filter_eq_self]
      intro event told
      split at told
      · rw [List.mem_singleton.mp told]
        exact decide_eq_true rfl
      · exact absurd told List.not_mem_nil
    · rw [ih distinct' later, List.filter_eq_nil_iff.mpr, List.nil_append]
      intro event told mine
      split at told
      · rw [List.mem_singleton.mp told] at mine
        exact apart fate later (of_decide_eq_true mine)
      · exact absurd told List.not_mem_nil

inductive Rounds (v : View) (s : Shard) (cat cat' : Catalog) : Shard → List Event → Prop
  | drain {fates : List Fate} {news : List Event}
      (drains : Drains v s.flowTimeout cat s.flows.toList fates news cat') :
      Rounds v s cat cat' (s.settleAll fates) (news ++ (expiredFlows fates).map Event.expired)

variable {s s' : Shard}

theorem round_found (carries : Carries v.layout r cat)
    (checked : ∀ flow, s.owns flow = true → flow.raw.toNat < 0x80000000) :
    ∃ stats s' told cat' r', Rounds v s cat cat' s' told ∧
      Shard.round v (s, ⟨r, events⟩) = .ok stats (s', ⟨r', events ++ told.toArray⟩) ∧
      Carries v.layout r' cat' := by
  obtain ⟨fates, told, cat', blocks, r', drains, ran, carries'⟩ := @drainFlows_found v r cat events
    s.flows.toList carries s.flowTimeout fun pair listed => checked_of_mem checked listed
  have inside : onOutlet (drainFlows v s.flowTimeout s.flows.toList) (s, ⟨r, events⟩) =
      .ok (fates, blocks) (s, ⟨r', events ++ told.toArray⟩) := by
    simp only [onOutlet, Work.onPart, ran]
  refine ⟨?stats, _, _, cat', r', .drain drains, ?_, carries'⟩
  rotate_left
  rw [Shard.round, Work.bind_ok (Work.get_run _)]
  dsimp only
  rw [Work.bind_ok inside]
  dsimp only
  rw [Work.bind_ok (Work.get_run _), Work.bind_ok (Work.modify_run _ _), told_append]
  rfl

theorem fates_spec (drains : Drains v timeout cat s.flows.toList fates told cat') :
    (∀ fate ∈ fates, s.owns fate.flow = true) ∧ fates.Pairwise fun a b => a.flow ≠ b.flow := by
  have same := drains.flows_eq
  refine ⟨fun fate listed => ?_, ?_⟩
  · have there : fate.flow ∈ fates.map (·.flow) := List.mem_map_of_mem listed
    rw [same] at there
    obtain ⟨pair, owned, here⟩ := List.mem_map.mp there
    rw [owns_eq, ← here, mem_flows.mp owned]
    rfl
  · have distinct := List.pairwise_map.mpr s.distinct_flows
    rw [← same] at distinct
    exact List.pairwise_map.mp distinct

namespace Rounds

theorem exists_without (rounds : Rounds v s cat cat' s' told) : ∃ refs, cat' = cat.without refs := by
  obtain ⟨drains⟩ := rounds
  exact drains.exists_without

theorem unowned (rounds : Rounds v s cat cat' s' told) {flow : FlowId} (unknown : s.flows[flow]? = none) :
    s'.flows[flow]? = none ∧ ∀ event ∈ told, event.flow ≠ flow := by
  obtain @⟨fates, news, drains⟩ := rounds
  obtain ⟨known, distinct⟩ := fates_spec drains
  have apart : ∀ fate ∈ fates, fate.flow ≠ flow := fun fate listed same => by
    have owned := known fate listed
    rw [owns_eq, same, unknown] at owned
    cases owned
  refine ⟨((s.flows_settleAll known distinct flow).2 apart).trans unknown, fun event listed same => ?_⟩
  rcases List.mem_append.mp listed with news | gone
  · have mine := drains.told_of event news
    rw [same] at mine
    obtain ⟨pair, there, rfl⟩ := List.mem_map.mp mine
    rw [mem_flows.mp there] at unknown
    cases unknown
  · obtain ⟨other, left, rfl⟩ := List.mem_map.mp gone
    obtain ⟨fate, there, rfl⟩ := List.mem_map.mp left
    exact apart fate (List.mem_filter.mp there).1 same

theorem owned (rounds : Rounds v s cat cat' s' told) {flow : FlowId} {position : Position}
    (stands : s.flows[flow]? = some position) :
    ∃ source destination : List Item,
      (∀ item ∈ source, item ∈ cat.inLane (FlowKey.laneOf flow .source)) ∧
      (∀ item ∈ destination, item ∈ cat.inLane (FlowKey.laneOf flow .destination)) ∧
      let drained := drainedFrom v flow position (source.map (Item.stored v)) (destination.map (Item.stored v))
      (s'.flows[flow]? = some drained.1.position ∧ told.filter (·.flow = flow) = drained.2.2 ∨
        s'.flows[flow]? = none ∧ told.filter (·.flow = flow) = drained.2.2 ++ [.expired flow]) := by
  obtain ⟨drains⟩ := rounds
  obtain ⟨known, distinct⟩ := fates_spec drains
  obtain ⟨source, destination, sources, destinations, fate, news⟩ := drains.spec s.distinct_flows
    (mem_flows.mpr stands)
  refine ⟨source, destination, sources, destinations, ?_⟩
  dsimp only at fate news ⊢
  generalize drainedFrom v flow position (source.map (Item.stored v)) (destination.map (Item.stored v)) =
    drained at fate news ⊢
  have settled := (s.flows_settleAll known distinct flow).1 _ fate rfl
  have gone := filter_expired distinct fate
  have here : (fateOf flow s.flowTimeout v.now drained.1).flow = flow := rfl
  rw [here] at gone
  rw [settled, List.filter_append, news, gone, fateOf]
  dsimp only
  by_cases ends : drained.1.pending = 0 ∧ s.flowTimeout < elapsed v.now drained.1.position.lastUpdate
  · rw [if_pos ends]
    exact .inr ⟨rfl, rfl⟩
  · rw [if_neg ends]
    exact .inl ⟨rfl, List.append_nil _⟩

end Rounds

end Shard

namespace Shift

variable {team : Team} {a : Attachment}

theorem round_found (carries : Carries a.layout r cat) (now : Micros) {index : Nat} {s : Shard}
    (there : team.shards[index]? = some s)
    (checked : ∀ flow, s.owns flow = true → flow.raw.toNat < 0x80000000) :
    ∃ stats s' told cat' r', Shard.Rounds (a.view now) s cat cat' s' told ∧
      Shift.round now index ⟨team, a, r, events⟩ = .ok (some stats)
        ⟨{ team with shards := team.shards.setIfInBounds index s' }, a, r', events ++ told.toArray⟩ ∧
      Carries a.layout r' cat' := by
  obtain ⟨stats, s', told, cat', r', rounds, ran, carries'⟩ :=
    @Shard.round_found (a.view now) r cat events s carries checked
  refine ⟨stats, s', told, cat', r', rounds, ?_, carries'⟩
  rw [Shift.round, Work.bind_ok (Work.get_run _)]
  dsimp only
  rw [there]
  dsimp only
  refine Work.map_ok ?_
  simp only [Work.onPart, ran]

end Shift

end Delivery

end Reassembly
