import Reassembly.Delivery.Shift
import Reassembly.Proofs.Drains

/-!
A round as a function of catalogs. The flows that a shard owns are drained one after the other, each on
what the one before it left; then their fates are settled and the reader is told of those that expired.
-/

namespace Reassembly.Delivery

open Store Reading

variable {v : View} {r : Region} {cat : Catalog} {events : Array Event}

def flowsDrained (v : View) (timeout : Micros) :
    List (FlowId × Position) → Catalog → List Shard.Fate × Catalog × List Event
  | [], cat => ([], cat, [])
  | (flow, position) :: rest, cat =>
    let drained := flowDrained v flow position cat
    let others := flowsDrained v timeout rest (cat.without drained.2.1)
    (Shard.fateOf flow timeout v.now drained.1 :: others.1, others.2.1, drained.2.2 ++ others.2.2)

def Shard.rounded (v : View) (s : Shard) (cat : Catalog) : Shard × Catalog × List Event :=
  let drained := flowsDrained v s.flowTimeout s.flows.toList cat
  (s.settleAll drained.1, drained.2.1,
    drained.2.2 ++ (Shard.expiredFlows drained.1).map Event.expired)

theorem drainFlows_run (carries : Carries v.layout r cat) (separate : cat.Distinct) (timeout : Micros)
    {flows : List (FlowId × Position)} (checked : ∀ pair ∈ flows, pair.1.raw.toNat < 0x80000000) :
    ∃ blocks r', Shard.drainFlows v timeout flows ⟨r, events⟩ =
        .ok ((flowsDrained v timeout flows cat).1, blocks)
          ⟨r', events ++ (flowsDrained v timeout flows cat).2.2.toArray⟩ ∧
      Carries v.layout r' (flowsDrained v timeout flows cat).2.1 := by
  induction flows generalizing r cat events with
  | nil =>
    refine ⟨0, r, ?_, carries⟩
    rw [flowsDrained, told_nil]
    rfl
  | cons pair rest ih =>
    obtain ⟨flow, position⟩ := pair
    obtain ⟨r₁, first, carries₁⟩ := drainFlow_run carries separate (checked _ List.mem_cons_self) position
    obtain ⟨blocks, r₂, others, carries₂⟩ := ih carries₁ (separate.without _)
      (fun other later => checked other (List.mem_cons_of_mem _ later))
    refine ⟨(flowDrained v flow position cat).1.consumed + blocks, r₂, ?_, carries₂⟩
    rw [Shard.drainFlows, Work.bind_ok first, Work.bind_ok others, flowsDrained]
    dsimp only
    rw [Work.pure_run, told_append]

namespace Shard

variable {s : Shard} {outlet outlet' : Outlet}

theorem round_of_ok {fates : List Fate} {blocks : Nat}
    (drained : drainFlows v s.flowTimeout s.flows.toList outlet = .ok (fates, blocks) outlet') :
    ∃ stats, Shard.round v (s, outlet) = .ok stats (s.settleAll fates,
      ⟨outlet'.region, outlet'.events ++ ((expiredFlows fates).map Event.expired).toArray⟩) := by
  have inside : onOutlet (drainFlows v s.flowTimeout s.flows.toList) (s, outlet) =
      .ok (fates, blocks) (s, outlet') := by
    simp only [onOutlet, Work.onPart, drained]
  refine ⟨?stats, ?_⟩
  rotate_left
  rw [Shard.round, Work.bind_ok (Work.get_run _)]
  dsimp only
  rw [Work.bind_ok inside]
  dsimp only
  rw [Work.bind_ok (Work.get_run _), Work.bind_ok (Work.modify_run _ _)]
  rfl

theorem round_of_error {fault : Fault}
    (failed : drainFlows v s.flowTimeout s.flows.toList outlet = .error fault outlet') :
    Shard.round v (s, outlet) = .error fault (s, outlet') := by
  have inside : onOutlet (drainFlows v s.flowTimeout s.flows.toList) (s, outlet) =
      .error fault (s, outlet') := by
    simp only [onOutlet, Work.onPart, failed]
  rw [Shard.round, Work.bind_ok (Work.get_run _)]
  dsimp only
  rw [Work.bind_error inside]

end Shard

theorem Shard.round_run (carries : Carries v.layout r cat) (separate : cat.Distinct) {s : Shard}
    (checked : ∀ flow, s.owns flow = true → flow.raw.toNat < 0x80000000) :
    ∃ stats r', Shard.round v (s, ⟨r, events⟩) = .ok stats ((s.rounded v cat).1,
        ⟨r', events ++ (s.rounded v cat).2.2.toArray⟩) ∧
      Carries v.layout r' (s.rounded v cat).2.1 := by
  obtain ⟨blocks, r', drained, carries'⟩ := @Delivery.drainFlows_run _ _ _ events carries separate
    s.flowTimeout s.flows.toList fun pair listed => by
      refine checked pair.1 ?_
      have known := Std.ExtTreeMap.mem_toList_iff_getElem?_eq_some.mp
        (show (pair.1, pair.2) ∈ s.flows.toList from listed)
      rw [owns, Std.ExtTreeMap.contains_eq_isSome_getElem?, known]
      rfl
  obtain ⟨stats, ran⟩ := Shard.round_of_ok drained
  refine ⟨stats, r', ?_, carries'⟩
  rw [ran, rounded]
  dsimp only
  rw [told_append]

namespace Shift

variable {team : Team} {a : Attachment}

theorem round_run (carries : Carries a.layout r cat) (separate : cat.Distinct) (now : Micros)
    {index : Nat} {s : Shard} (there : team.shards[index]? = some s)
    (checked : ∀ flow, s.owns flow = true → flow.raw.toNat < 0x80000000) :
    ∃ stats r', Shift.round now index ⟨team, a, r, events⟩ =
        .ok (some stats) ⟨{ team with
            shards := team.shards.setIfInBounds index (s.rounded (a.view now) cat).1 },
          a, r', events ++ (s.rounded (a.view now) cat).2.2.toArray⟩ ∧
      Carries a.layout r' (s.rounded (a.view now) cat).2.1 := by
  obtain ⟨stats, r', ran, carries'⟩ := @Delivery.Shard.round_run (a.view now) _ _ events carries
    separate s checked
  refine ⟨stats, r', ?_, carries'⟩
  rw [Shift.round, Work.bind_ok (Work.get_run _)]
  dsimp only
  rw [there]
  dsimp only
  refine Work.map_ok ?_
  simp only [Work.onPart, ran]

theorem round_none (now : Micros) {index : Nat} (none_there : team.shards[index]? = none) :
    Shift.round now index ⟨team, a, r, events⟩ = .ok none ⟨team, a, r, events⟩ := by
  rw [Shift.round, Work.bind_ok (Work.get_run _)]
  dsimp only
  rw [none_there]
  rfl

end Shift

end Reassembly.Delivery
