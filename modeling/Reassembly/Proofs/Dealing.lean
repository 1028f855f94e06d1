import Reassembly.Proofs.Positions
import Reassembly.Proofs.Turns

/-!
How a poll deals out flows. A marker of an owned flow changes nothing; the flow of any other is new, and
goes to the next shard in turn. So the new flows, in the order of their first markers, go to one shard
after the other, and the router counts them.
-/

namespace Reassembly

open Store

theorem nodup_eraseDups {α : Type} [BEq α] [LawfulBEq α] : ∀ xs : List α, xs.eraseDups.Nodup
  | [] => .nil
  | x :: rest => by
    rw [List.eraseDups_cons]
    refine List.nodup_cons.mpr ⟨fun again => ?_, nodup_eraseDups _⟩
    simpa using (List.mem_filter.mp (List.mem_eraseDups.mp again)).2
termination_by xs => xs.length
decreasing_by exact Nat.lt_succ_of_le (List.length_filter_le ..)

theorem Store.Item.eraseDups_firsts (test : FlowId → Bool) (items : List Item) :
    (((firsts items).map (·.key.flow)).filter test).eraseDups =
      ((items.map (·.key.flow)).filter test).eraseDups := by
  induction items using firsts_induction generalizing test with
  | nil => rfl
  | cons item rest ih =>
    have others (keep : FlowId → Bool) (drops : keep item.key.flow = false) :
        (((rest.filter fun other => other.ref ≠ item.ref).map (·.key.flow)).filter keep) =
          (rest.map (·.key.flow)).filter keep := by
      rw [List.filter_map, List.filter_map, List.filter_filter]
      refine congrArg _ (List.filter_congr fun other _ => ?_)
      by_cases same : other.ref = item.ref
      · have flow : other.key.flow = item.key.flow := congrArg (fun ref : Ref => ref.key.flow) same
        rw [Function.comp_apply, flow, drops, Bool.false_and]
      · rw [decide_eq_true same, Bool.and_true]
    rw [firsts_cons, List.map_cons, List.map_cons]
    by_cases kept : test item.key.flow = true
    · rw [List.filter_cons_of_pos kept, List.filter_cons_of_pos kept, List.eraseDups_cons, List.eraseDups_cons,
        List.filter_filter, List.filter_filter, ih, others _ (by simp)]
    · rw [List.filter_cons_of_neg kept, List.filter_cons_of_neg kept, ih, others test (Bool.eq_false_iff.mpr kept)]

namespace Delivery

namespace Team

def routeAll (now : Micros) : List Stored → PollStats → Team → PollStats × Team
  | [], stats, t => (stats, t)
  | marker :: rest, stats, t => routeAll now rest (t.route marker now stats).1 (t.route marker now stats).2

/-- The flows that nobody owns, in the order in which they first occur. -/
def unclaimed (t : Team) (flows : List FlowId) : List FlowId :=
  (flows.filter fun flow => ¬ t.Owns flow).eraseDups

variable {t : Team} {marker : Stored} {now : Micros} {stats : PollStats} {flows : List FlowId} {flow : FlowId}

theorem mem_unclaimed : flow ∈ t.unclaimed flows ↔ flow ∈ flows ∧ ¬ t.Owns flow := by
  rw [unclaimed, List.mem_eraseDups, List.mem_filter, decide_eq_true_iff]

theorem nodup_unclaimed (t : Team) (flows : List FlowId) : (t.unclaimed flows).Nodup := nodup_eraseDups _

theorem unclaimed_cons_of_owned (owned : t.Owns flow) : t.unclaimed (flow :: flows) = t.unclaimed flows := by
  rw [unclaimed, List.filter_cons_of_neg (by simpa using owned), unclaimed]

theorem routeAll_snd (now : Micros) (markers : List Stored) (stats : PollStats) (t : Team) :
    (routeAll now markers stats t).2 = markers.foldl (Team.routed now) t := by
  induction markers generalizing stats t with
  | nil => rfl
  | cons marker rest ih =>
    rw [routeAll, ih, List.foldl_cons, t.route_snd marker now stats]

theorem Assigned.route_owned (assigned : t.Assigned) (owned : t.Owns marker.flow) (stats : PollStats) :
    t.route marker now stats = (stats, t) := by
  obtain ⟨index, position, stands⟩ := owns_iff.mp owned
  have known : (t.position? index marker.flow).isSome := by rw [stands]; rfl
  have kept : ((some index).map (t.owns · marker.flow)).getD false = true := owns_eq.trans known
  rw [route, assigned index marker.flow known]
  dsimp only
  rw [if_pos kept]

theorem route_unowned (unowned : ¬ t.Owns marker.flow) (stats : PollStats) :
    ∃ counted : PollStats, t.route marker now stats = (counted, t.routed now marker) ∧
      counted.assigned + counted.reassigned = stats.assigned + stats.reassigned + 1 ∧
      (t.routed now marker).router.next = t.router.next + 1 := by
  have lost : ¬ ((t.router.assignments[marker.flow]?).map (t.owns · marker.flow)).getD false = true := by
    cases given : t.router.assignments[marker.flow]? with
    | none => exact Bool.false_ne_true
    | some owner =>
      intro owns
      obtain ⟨position, stands⟩ := Option.isSome_iff_exists.mp (owns_eq.symm.trans owns)
      exact unowned (owns_iff.mpr ⟨owner, position, stands⟩)
  refine ⟨_, Prod.ext rfl (t.route_snd marker now stats), ?_, ?_⟩
  · rw [route]
    dsimp only
    rw [if_neg lost]
    split
    · exact (Nat.add_assoc ..).symm
    · exact Nat.add_right_comm ..
  · rw [routed, route]
    dsimp only
    rw [if_neg lost]

theorem routed_taken (manned : 0 < t.shards.size) (unowned : ¬ t.Owns marker.flow) :
    ((t.routed now marker).position? t.turn marker.flow).isSome := by
  rcases t.routed_cases marker now with ⟨⟨owner, _, owned⟩, _⟩ | ⟨_, given, _⟩
  · obtain ⟨position, stands⟩ := Option.isSome_iff_exists.mp owned
    exact absurd (owns_iff.mpr ⟨owner, position, stands⟩) unowned
  · exact routed_turn manned given

theorem routed_kept {index : Nat} (owned : (t.position? index flow).isSome) (marker : Stored) (now : Micros) :
    ((t.routed now marker).position? index flow).isSome := by
  rcases t.routed_position marker now index flow with same | ⟨_, _, stands⟩
  · rw [same]
    exact owned
  · rw [stands]
    rfl

theorem owns_routed (manned : 0 < t.shards.size) (marker : Stored) (now : Micros) (flow : FlowId) :
    (t.routed now marker).Owns flow ↔ t.Owns flow ∨ flow = marker.flow := by
  rw [owns_iff, owns_iff]
  constructor
  · rintro ⟨index, position, stands⟩
    rcases t.routed_position marker now index flow with same | ⟨_, here, _⟩
    · exact .inl ⟨index, position, same.symm.trans stands⟩
    · exact .inr here.symm
  · rintro (⟨index, position, stands⟩ | rfl)
    · exact ⟨index, Option.isSome_iff_exists.mp (routed_kept (by rw [stands]; rfl) marker now)⟩
    · obtain ⟨index, owned⟩ := t.routed_owned manned
      exact ⟨index, Option.isSome_iff_exists.mp owned⟩

theorem unclaimed_cons (manned : 0 < t.shards.size) (unowned : ¬ t.Owns marker.flow) (now : Micros) :
    t.unclaimed (marker.flow :: flows) = marker.flow :: (t.routed now marker).unclaimed flows := by
  rw [unclaimed, List.filter_cons_of_pos (by simpa using unowned), List.eraseDups_cons, List.filter_filter, unclaimed]
  refine congrArg _ (congrArg _ (List.filter_congr fun flow _ => ?_))
  rw [Bool.eq_iff_iff]
  simp [owns_routed manned, not_or, and_comm]

theorem add_ofNat_succ (word : UInt64) (n : Nat) : word + 1 + .ofNat n = word + .ofNat (n + 1) := by
  rw [UInt64.ofNat_add, UInt64.add_comm (.ofNat n), ← UInt64.add_assoc]
  rfl

/-- What it is to deal out the unclaimed flows of some markers: one after the other to the shards in turn. -/
structure Deals (t : Team) (flows : List FlowId) (stats : PollStats) (dealt : PollStats × Team) : Prop where
  counted : dealt.1.assigned + dealt.1.reassigned = stats.assigned + stats.reassigned + (t.unclaimed flows).length
  next : dealt.2.router.next = t.router.next + .ofNat (t.unclaimed flows).length
  taken : ∀ {place : Nat} {flow : FlowId}, (t.unclaimed flows)[place]? = some flow →
    (dealt.2.position? ((t.router.next + .ofNat place).toNat % t.shards.size) flow).isSome

theorem Assigned.deals (assigned : t.Assigned) (manned : 0 < t.shards.size) (now : Micros) (markers : List Stored)
    (stats : PollStats) : t.Deals (markers.map Stored.flow) stats (routeAll now markers stats t) := by
  induction markers generalizing t stats with
  | nil => exact ⟨rfl, (UInt64.add_zero _).symm, nofun⟩
  | cons marker rest ih =>
    rw [routeAll, List.map_cons]
    by_cases owned : t.Owns marker.flow
    · obtain ⟨counted, next, taken⟩ := ih assigned manned stats
      rw [assigned.route_owned owned]
      exact ⟨by rw [unclaimed_cons_of_owned owned]; exact counted, by rw [unclaimed_cons_of_owned owned]; exact next,
        fun listed => taken (by rwa [unclaimed_cons_of_owned owned] at listed)⟩
    · obtain ⟨noted, routed, more, turned⟩ := @route_unowned t marker now owned stats
      obtain ⟨counted, next, taken⟩ := ih (assigned.routed marker now) ((t.size_routed marker now).symm ▸ manned) noted
      have dealt : t.unclaimed (marker.flow :: rest.map Stored.flow) = _ := unclaimed_cons manned owned now
      rw [routed]
      refine ⟨?_, ?_, fun {place flow} listed => ?_⟩
      · rw [dealt, counted, more, List.length_cons]
        omega
      · rw [dealt, next, turned, List.length_cons, add_ofNat_succ]
      · rw [dealt] at listed
        cases place with
        | zero =>
          obtain rfl := Option.some.inj listed
          rw [routeAll_snd, show (UInt64.ofNat 0) = 0 from rfl, UInt64.add_zero]
          exact routedAll_induction now (motive := fun t' => (t'.position? t.turn marker.flow).isSome)
            (routed_taken manned owned) (fun _ other before => routed_kept before other now) rest
        | succ place =>
          have later := taken listed
          rw [turned, size_routed, add_ofNat_succ] at later
          exact later

/-- What the end of a poll does to the assignments: it counts those that it removes, which are of flows that
the shard no longer owns. -/
theorem releaseWhenDue_spec (t : Team) (now : Micros) :
    (t.releaseWhenDue now).1 + (t.releaseWhenDue now).2.router.assignments.size = t.router.assignments.size ∧
    ∀ flow, (t.releaseWhenDue now).2.router.assignments[flow]? = t.router.assignments[flow]? ∨
      (t.releaseWhenDue now).2.router.assignments[flow]? = none ∧
        ∃ owner, t.router.assignments[flow]? = some owner ∧ t.owns owner flow = false := by
  rw [releaseWhenDue]
  dsimp only
  split
  · rw [release]
    dsimp only
    refine ⟨Nat.sub_add_cancel Std.ExtTreeMap.size_filter_le_size, fun flow => ?_⟩
    rw [Std.ExtTreeMap.getElem?_filter']
    cases given : t.router.assignments[flow]? with
    | none => exact .inl rfl
    | some owner =>
      cases owns : t.owns owner flow with
      | true => exact .inl (by rw [Option.filter_some, if_pos owns])
      | false => exact .inr ⟨by rw [Option.filter_some, if_neg (Bool.eq_false_iff.mp owns)], owner, rfl, owns⟩
  · exact ⟨Nat.zero_add _, fun _ => .inl rfl⟩

end Team

end Delivery

end Reassembly
