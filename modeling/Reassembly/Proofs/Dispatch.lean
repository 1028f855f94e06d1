import Reassembly.Proofs.Fairness
import Reassembly.Proofs.Staffing

/-!
What a poll does at a site. Whatever happened there before, the loop of a poll ends; it routes every ready
marker once, and then each of their flows has one owner, whom the router has noted. The flows that nobody
owned go to the shards in turn, in the order in which they come up behind the rotation.
-/

namespace Reassembly

open Store Reading Delivery

namespace Delivery.Team

theorem next_releaseWhenDue (t : Team) (now : Micros) :
    (t.releaseWhenDue now).2.router.next = t.router.next := by
  rw [releaseWhenDue]
  dsimp only
  split
  · rfl
  · rfl

end Delivery.Team

namespace Site

/-- The flows of ready markers that nobody owns, in the cyclic order of their first markers from where the
rotation of a handle stands. -/
def newFlows (s : Site) (a : Attachment) (now : Micros) : List FlowId :=
  s.team.unclaimed ((Item.inTurn (s.commons.ready (a.view now)) a.rotation).map (·.key.flow))

/-- What a poll makes of the team, where its loop leaves one team and its end another. -/
structure Dispatches (s : Site) (a : Attachment) (now : Micros) (stats : PollStats) (dealt after : Team) : Prop where
  /-- Each flow with a ready marker has one owner, and that one is noted. -/
  owned : ∀ item ∈ s.commons.ready (a.view now), ∃ owner,
    after.router.assignments[item.key.flow]? = some owner ∧
      ∀ index, after.owns index item.key.flow = true ↔ index = owner
  /-- Who owned a flow owns it still, and stands where it stood. -/
  kept : ∀ index flow position, s.team.position? index flow = some position →
    after.position? index flow = some position
  /-- Nobody comes to own a flow but a new one. -/
  others : ∀ index flow, after.owns index flow = true →
    s.team.owns index flow = true ∨ flow ∈ s.newFlows a now
  distinct : (s.newFlows a now).Nodup
  new : ∀ flow, flow ∈ s.newFlows a now ↔
    (∃ item ∈ s.commons.ready (a.view now), item.key.flow = flow) ∧ ¬ s.team.Owns flow
  counted : stats.assigned + stats.reassigned = (s.newFlows a now).length
  inTurn : ∀ place flow, (s.newFlows a now)[place]? = some flow →
    after.owns ((s.team.router.next + .ofNat place).toNat % s.team.shards.size) flow = true
  next : after.router.next = s.team.router.next + .ofNat (s.newFlows a now).length
  /-- The assignments that are gone are counted, and are of flows that the shard no longer owned. -/
  released : stats.released + after.router.assignments.size = dealt.router.assignments.size ∧
    ∀ flow, after.router.assignments[flow]? = dealt.router.assignments[flow]? ∨
      after.router.assignments[flow]? = none ∧
        ∃ owner, dealt.router.assignments[flow]? = some owner ∧ dealt.owns owner flow = false

variable {l : Layout} {s : Site} {cat : Catalog} {index : Nat} {a : Attachment} {now : Micros}

theorem newFlows_eq (ready : s.commons.ready (a.view now) = cat.ready (a.view now)) :
    s.newFlows a now = s.team.unclaimed ((Shift.met a now cat).map Stored.flow) := by
  have flows : (Shift.met a now cat).map Stored.flow =
      (Item.round (cat.ready (a.view now)) a.rotation).map (·.key.flow) := by
    rw [Shift.met, List.map_map]
    rfl
  rw [newFlows, ready, Team.unclaimed, Team.unclaimed, flows, Item.round, Item.eraseDups_firsts]

theorem mem_newFlows {flow : FlowId} : flow ∈ s.newFlows a now ↔
    (∃ item ∈ s.commons.ready (a.view now), item.key.flow = flow) ∧ ¬ s.team.Owns flow := by
  rw [newFlows, Team.mem_unclaimed, List.mem_map]
  simp only [Item.mem_inTurn]

theorem Staffed.dispatches (staffed : Staffed l s cat) (attached : s.commons.handles[index]? = some a)
    (due : s.team.tooSoon now = false) :
    ∃ round count stats dealt shift', Item.IsRound (s.commons.ready (a.view now)) a.rotation round ∧
      Shift.poll now (s.shift a) = .ok stats shift' ∧
      Shift.Polls now (s.shift a) (round.map (Item.stored (a.view now))) count dealt stats shift' ∧
      s.Dispatches a now stats dealt shift'.team := by
  have seen := staffed.commons.seen (List.mem_of_getElem? attached)
  have ready := Commons.ready_eq staffed.commons attached now
  obtain ⟨rotation, r', closed, ran, polls, _⟩ := @Shift.poll_routes s.team a _ s.events cat seen now due
  have deals : (s.team.notePoll now).Deals _ _ _ := Team.Assigned.deals (t := s.team.notePoll now)
    staffed.assigned staffed.manned now (Shift.met a now cat) { ran := true, closed }
  have same := Team.routeAll_snd now (Shift.met a now cat) { ran := true, closed } (s.team.notePoll now)
  have flows := newFlows_eq ready
  generalize Team.routeAll now (Shift.met a now cat) { ran := true, closed } (s.team.notePoll now) =
    routed at ran polls deals same
  have polled : (routed.2.releaseWhenDue now).2 = s.team.polled now (Shift.met a now cat) := by
    rw [same, Team.polled]
  have assigned : (routed.2.releaseWhenDue now).2.Assigned := polled ▸ staffed.assigned.polled now _
  have position (place : Nat) (flow : FlowId) : (routed.2.releaseWhenDue now).2.position? place flow =
      routed.2.position? place flow := Team.position?_of_shards (routed.2.shards_releaseWhenDue now) place flow
  have same' (place : Nat) (flow : FlowId) : (routed.2.releaseWhenDue now).2.owns place flow =
      ((routed.2.releaseWhenDue now).2.position? place flow).isSome := Team.owns_eq
  refine ⟨Item.round (cat.ready (a.view now)) a.rotation, routed.1, _, routed.2, _, ?_, ran, polls, ?_⟩
  · rw [ready]
    exact Item.isRound_round _ _
  refine ⟨fun item listed => ?_, fun place flow stands known => ?_, fun place flow owned => ?_,
    Team.nodup_unclaimed _ _, fun flow => mem_newFlows, ?_, fun place flow listed => ?_, ?_,
    routed.2.releaseWhenDue_spec now⟩
  · rw [ready] at listed
    obtain ⟨first, met, sameRef⟩ := Item.exists_firsts (Item.mem_inTurn.mpr listed)
    have marker : first.stored (a.view now) ∈ Shift.met a now cat := List.mem_map_of_mem met
    obtain ⟨owner, owned⟩ := @Team.polled_owned _ _ now staffed.manned _ marker
    have flow : (first.stored (a.view now)).flow = item.key.flow := congrArg (fun ref : Ref => ref.key.flow) sameRef
    rw [← polled, flow] at owned
    refine ⟨owner, assigned owner _ owned, fun other => ?_⟩
    rw [same']
    constructor
    · intro theirs
      exact Option.some.inj ((assigned other _ theirs).symm.trans (assigned owner _ owned))
    · rintro rfl
      exact owned
  · rw [polled]
    exact Team.polled_kept known now _
  · rw [same', polled] at owned
    rcases s.team.polled_position now (Shift.met a now cat) place flow with old | ⟨fresh, marker, listed, rfl, _⟩
    · rw [old] at owned
      exact .inl (Team.owns_eq.trans owned)
    · by_cases known : s.team.Owns marker.flow
      · obtain ⟨other, stands, theirs⟩ := Team.owns_iff.mp known
        have kept := Team.polled_kept theirs now (Shift.met a now cat)
        rw [← polled] at kept owned
        have one := (assigned other _ (by rw [kept]; rfl)).symm.trans (assigned place _ owned)
        rw [Option.some.inj one, fresh] at theirs
        cases theirs
      · refine .inr ?_
        rw [flows, Team.mem_unclaimed]
        exact ⟨List.mem_map_of_mem listed, known⟩
  · rw [flows]
    exact deals.counted.trans (Nat.zero_add _)
  · rw [same', position]
    rw [flows] at listed
    exact deals.taken listed
  · rw [flows, Team.next_releaseWhenDue]
    exact deals.next

/-- Every poll that is not too soon, at a site that started as it should, ends and routes every ready marker
once; each of their flows has one owner then, whom the router has noted. -/
theorem Fresh.poll_dispatches {config : StoreConfig} {shards : ShardConfig} {start : Site}
    (fresh : start.Fresh config shards) (deeds : List Deed)
    (attached : (start.run deeds).commons.handles[index]? = some a)
    (due : (start.run deeds).team.tooSoon now = false) :
    ∃ round count stats dealt shift',
      Item.IsRound ((start.run deeds).commons.ready (a.view now)) a.rotation round ∧
      Shift.poll now ((start.run deeds).shift a) = .ok stats shift' ∧
      Shift.Polls now ((start.run deeds).shift a) (round.map (Item.stored (a.view now))) count dealt stats shift' ∧
      (start.run deeds).Dispatches a now stats dealt shift'.team := by
  obtain ⟨l, cat, staffed⟩ := fresh.staffed_run deeds
  exact staffed.dispatches attached due

/-- Two flows start, the later one first. -/
def arrivals : List Deed := [
  .move (.operate 0 (.put ⟨⟨9⟩, .source, ⟨100⟩, ⟨#[3]⟩⟩ 1000000)),
  .move (.operate 0 (.put ⟨⟨7⟩, .source, ⟨100⟩, ⟨#[4]⟩⟩ 1000000))]

/-- The next poll gives the one to the first shard and the other to the second. -/
theorem poll_dispatches_two : ∃ (start : Site) (a : Attachment) (stats : PollStats) (shift' : Shift),
    start.Fresh { blockCapacity := 64, maxBlocks := 8 } { handlerCount := 2 } ∧
      (start.run arrivals).commons.handles[0]? = some a ∧
      Shift.poll 1200000 ((start.run arrivals).shift a) = .ok stats shift' ∧
      stats.assigned + stats.reassigned = 2 ∧
      shift'.team.owns 0 ⟨7⟩ = true ∧ shift'.team.owns 1 ⟨9⟩ = true := by
  obtain ⟨start, fresh, carrying⟩ := @Site.Fresh.of_config { blockCapacity := 64, maxBlocks := 8 }
    { handlerCount := 2 } _ _ rfl rfl rfl
  have after := @Site.Carrying.effects _ _ _ carrying arrivals (by simp [arrivals]) (by decide)
  have attached := congrArg (fun handles : List Attachment => handles[0]?) after.handles
  have due : (start.run arrivals).team.tooSoon 1200000 = false := by
    rw [after.team]
    rfl
  obtain ⟨round, count, stats, dealt, shift', _, ran, _, dispatches⟩ := fresh.poll_dispatches arrivals attached due
  have new := newFlows_eq (Commons.ready_eq after.commons attached 1200000)
  rw [after.team] at new
  have flows : (start.run arrivals).newFlows _ 1200000 = [⟨7⟩, ⟨9⟩] := new.trans (by decide +kernel)
  have turn : (start.run arrivals).team.router.next = 0 ∧ (start.run arrivals).team.shards.size = 2 := by
    rw [after.team]
    exact ⟨rfl, by decide +kernel⟩
  have counted := dispatches.counted
  have inTurn := dispatches.inTurn
  rw [flows] at counted inTurn
  rw [turn.1, turn.2] at inTurn
  exact ⟨start, _, stats, shift', fresh, attached, ran, counted, inTurn 0 ⟨7⟩ rfl, inTurn 1 ⟨9⟩ rfl⟩

end Site

end Reassembly
