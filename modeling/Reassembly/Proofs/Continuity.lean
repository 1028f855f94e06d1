import Reassembly.Proofs.Retention
import Reassembly.Proofs.Streaming

/-!
Streams put in order, from end to end. Whatever comes between the segments of a stream, sweeps, polls and
rounds at any times, the reader is at every moment told a first part of what was put, without a gap; and
once the putting has stopped, a sweep, a poll and one round of each shard, each late enough, bring in the
rest. The stream may go round the circle of positions any number of times.
-/

namespace Reassembly

open Store Reading Delivery Writing

namespace Site

/-- What was put of each side. -/
def sentBy (deeds : List Deed) : FlowId → Side → ByteArray := deeds.foldl Deed.sent fun _ _ => .empty

/-- The deed is tame; and if it is a put, it is of the bytes that come next on a side, through a handle
that is there, and some block slot is free behind it. -/
structure Continues (shards : ShardConfig) (writer : Nat) (first : FlowId → Side → Seq)
    (sent : FlowId → Side → ByteArray) (s : Site) (deed : Deed) : Prop where
  tame : deed.IsTame shards writer
  put : ∀ segment now, deed = .move (.operate writer (.put segment now)) →
    writer < s.commons.handles.length ∧ segment.flow.raw.toNat < 0x80000000 ∧
      0 < segment.payload.size ∧ segment.payload.size ≤ 65535 ∧
      segment.sequence = (first segment.flow segment.side).advance
        (sent segment.flow segment.side).size ∧ (s.step deed).HasRoom

/-- Streams are put in order through one handle, from their first positions on, at times that do not go
back, and the store never becomes full. -/
structure InOrder (shards : ShardConfig) (writer : Nat) (first : FlowId → Side → Seq) (start : Site)
    (deeds : List Deed) : Prop where
  continues : ∀ count deed, deeds[count]? = some deed →
    Continues shards writer first (sentBy (deeds.take count)) (start.run (deeds.take count)) deed
  times : (deeds.filterMap Deed.time?).Pairwise (· ≤ ·)
  started : ∀ time ∈ deeds.filterMap Deed.time?, 0 < time

theorem Deed.sent_of_silent {sent : FlowId → Side → ByteArray} {deed : Deed}
    (silent : ∀ index segment now, deed ≠ .move (.operate index (.put segment now))) :
    Deed.sent sent deed = sent := by
  funext flow side
  have none : deed.payload flow side = .empty := by
    rcases deed with (_ | ⟨index, operation⟩) | _ | _
    · rfl
    · cases operation with
      | put segment now => exact absurd rfl (silent index segment now)
      | _ => rfl
    · rfl
    · rfl
  rw [Deed.sent, none, ByteArray.append_empty]

theorem Scene.idle_effect {sc : Scene} {a : Attachment} (there : sc.handles[0]? = some a) (deed : Deed) :
    ∃ a', (sc.effect deed).handles[0]? = some a' ∧
      a'.config.blockIdleTimeout = a.config.blockIdleTimeout := by
  have set : ∀ (index : Nat) (old new : Attachment), sc.handles[index]? = some old →
      new.config = old.config → ∃ a', (sc.handles.set index new)[0]? = some a' ∧
        a'.config.blockIdleTimeout = a.config.blockIdleTimeout := by
    intro index old new known same
    by_cases here : index = 0
    · subst here
      obtain rfl := Option.some.inj (there.symm.trans known)
      refine ⟨new, ?_, by rw [same]⟩
      exact List.getElem?_set_self (List.getElem?_eq_some_iff.mp known).1
    · exact ⟨a, by rw [List.getElem?_set_ne here]; exact there, rfl⟩
  rcases deed with (_ | ⟨index, operation⟩) | ⟨index, now⟩ | ⟨index, place, now⟩
  · exact ⟨a, there, rfl⟩
  · rw [effect]
    split
    · exact ⟨a, there, rfl⟩
    · next known => exact set index _ _ known (by cases operation <;> rfl)
  · rw [effect]
    split
    · exact ⟨a, there, rfl⟩
    · next known =>
      split
      · exact ⟨a, there, rfl⟩
      · exact set index _ _ known rfl
  · rw [effect]
    split
    · exact ⟨a, there, rfl⟩
    · exact ⟨a, there, rfl⟩

/-- How a site stands between two deeds. -/
structure Stage (l : Layout) (shards : ShardConfig) (idle : Micros) (team : Nat) (writer : Nat)
    (first : FlowId → Side → Seq) (sent : FlowId → Side → ByteArray) (now : Micros) (s : Site)
    (sc : Scene) : Prop where
  tracks : Tracks l s sc
  guarded : Guarded shards.flowTimeout writer now sc
  shelters : sc.team.Shelters sc.cat.items
  flowing : ∃ b, Flowing first sent b now sc
  front : ∃ a, sc.handles[0]? = some a ∧ a.config.blockIdleTimeout = idle
  size : sc.team.shards.size = team

variable {l : Layout} {shards : ShardConfig} {idle : Micros} {team writer : Nat}
  {first : FlowId → Side → Seq} {sent : FlowId → Side → ByteArray} {now : Micros} {s : Site} {sc : Scene}

namespace Tracks

variable (tracks : Tracks l s sc)
include tracks

theorem flowing_quiet {deed : Deed} (tame : deed.IsTame shards writer)
    (silent : ∀ index segment time, deed ≠ .move (.operate index (.put segment time)))
    (future : ∀ time, deed.time? = some time → now ≤ time) {b : Backlog}
    (flowing : Flowing first sent b now sc) :
    ∃ sc', sc.Turns deed sc' ∧ Tracks l (s.step deed) sc' ∧
      ∃ b', Flowing first sent b' (deed.time?.getD now) sc' := by
  have sound := tracks.commons.sound
  rcases deed with (⟨handle, config⟩ | ⟨index, operation⟩) | ⟨index, time⟩ | ⟨index, place, time⟩
  · obtain ⟨sc', turns, _, after⟩ := tracks.attach handle config
    refine ⟨sc', turns, after, b, ?_⟩
    cases turns with
    | attach _ _ => exact flowing.handled _
    | effect _ => exact flowing
  · have same : operation.time?.getD now = (Deed.move (.operate index operation)).time?.getD now := rfl
    have onward : now ≤ operation.time?.getD now := by
      cases looks : operation.time? with
      | none => exact UInt64.le_refl _
      | some time => exact future time looks
    have later := flowing.later onward
    refine ⟨_, .effect _, tracks.operate index operation fun a there => ?_, b, ?_⟩
    · cases operation with
      | put segment time => exact absurd rfl (silent index segment time)
      | erase ref time => exact tame.elim
      | sweep time => exact tracks.separate.swept _ time
      | _ => exact tracks.separate
    · rw [← same, Scene.effect]
      split
      · exact later
      · cases operation with
        | put segment time => exact absurd rfl (silent index segment time)
        | erase ref time => exact tame.elim
        | sweep time => exact (flowing.swept sound (future time rfl) _).handled _
        | _ => exact later.handled _
  · have later := flowing.later (future time rfl)
    refine ⟨_, .effect _, tracks.poll index time, b, ?_⟩
    rw [Scene.effect]
    split
    · exact later
    · split
      · exact later
      · exact ((flowing.swept sound (future time rfl) _).polled _).handled _
  · have later := flowing.later (future time rfl)
    refine ⟨_, .effect _, tracks.drain index place time, ?_⟩
    rw [Scene.effect]
    split
    · next a shard _ manned =>
      obtain ⟨count, after, _⟩ := @Tracks.flowing_drain _ _ _ _ _ _ _ tracks later a shard place manned time
      exact ⟨_, after⟩
    · exact ⟨b, later⟩

end Tracks

theorem Stage.step (stage : Stage l shards idle team writer first sent now s sc)
    (small : l.maxBlocks.toNat * l.capacity < Seq.halfTurn) {deed : Deed}
    (continues : Continues shards writer first sent s deed)
    (future : ∀ time, deed.time? = some time → now ≤ time ∧ 0 < time) :
    ∃ sc', sc.Turns deed sc' ∧ Stage l shards idle team writer first (Deed.sent sent deed)
      (deed.time?.getD now) (s.step deed) sc' := by
  obtain ⟨tracks, guarded, shelters, ⟨b, flowing⟩, ⟨a₀, there₀, idle₀⟩, size⟩ := stage
  have tame := continues.tame
  have coming := fun time looks => (future time looks).1
  have sheltered : ∀ sc', sc.Turns deed sc' → sc'.team.Shelters sc'.cat.items := fun sc' turns =>
    tracks.shelters_step shelters tame.not_isErasure (tracks.not_strays guarded tame coming) turns
  have kept : ∀ sc', sc.Turns deed sc' → (∃ a, sc'.handles[0]? = some a ∧
      a.config.blockIdleTimeout = idle) ∧ sc'.team.shards.size = team := by
    intro sc' turns
    cases turns with
    | attach _ _ =>
      refine ⟨⟨a₀, ?_, idle₀⟩, size⟩
      rw [List.getElem?_append_left (List.getElem?_eq_some_iff.mp there₀).1]
      exact there₀
    | effect _ =>
      obtain ⟨a', there', same⟩ := Scene.idle_effect there₀ deed
      exact ⟨⟨a', there', same.trans idle₀⟩, (sc.size_effect deed).trans size⟩
  by_cases puts : ∃ segment time, deed = .move (.operate writer (.put segment time))
  · obtain ⟨segment, time, rfl⟩ := puts
    obtain ⟨attached, checked, some_bytes, short, sequence, room⟩ := continues.put segment time rfl
    obtain ⟨later, started⟩ := future time rfl
    rw [tracks.handles] at attached
    obtain ⟨a, there⟩ : ∃ a, sc.handles[writer]? = some a := ⟨_, List.getElem?_eq_getElem attached⟩
    obtain ⟨known, _, _⟩ := tracks.attached there
    obtain ⟨bytes, stepped, after⟩ := tracks.commons.operate known (.put segment time)
    have free : (Desk.put a.layout a.config segment time ⟨a.writers, sc.cat⟩).2.cat.items.length <
        l.maxBlocks.toNat := by
      have inside := (List.getElem?_eq_some_iff.mp known).1
      refine @Commons.Carrying.length_lt _ _ _ after room ((Operation.put segment time).effect a sc.cat).1 ?_
      rw [stepped]
      exact List.mem_set inside _
    obtain ⟨separate, flowing'⟩ := tracks.flowing_put flowing there checked some_bytes short sequence small
      later started free
    have tracks' := tracks.operate writer (.put segment time) fun other same => by
      obtain rfl := Option.some.inj (there.symm.trans same)
      exact separate
    obtain ⟨front, size'⟩ := kept _ (.effect _)
    refine ⟨_, .effect _, tracks', ?_, sheltered _ (.effect _), ⟨_, flowing'⟩, front, size'⟩
    refine tracks.guarded_put_of_stocked (guarded.later later) there fun _ _ _ _ => ?_
    have covered := (flowing'.waits.covers segment.flow segment.side checked
      (b.next segment.flow segment.side)).mpr ⟨0, by
        rw [Backlog.add_self, ByteArray.size_append]
        omega, Seq.advance_zero _⟩
    simp only [Scene.effect, there] at covered
    obtain ⟨item, member, lane, payload, _⟩ := covered
    exact ⟨item, member, payload,
      ((FlowKey.lane_eq_iff item.key segment.key).mp (lane.trans (FlowKey.lane_pack ..).symm)).1⟩
  · have silent : ∀ index segment time, deed ≠ .move (.operate index (.put segment time)) := by
      rintro index segment time rfl
      obtain rfl : index = writer := tame
      exact puts ⟨segment, time, rfl⟩
    obtain ⟨sc', turns, tracks', flowing'⟩ := tracks.flowing_quiet tame silent coming flowing
    obtain ⟨front, size'⟩ := kept sc' turns
    refine ⟨sc', turns, tracks', ?_, sheltered sc' turns, ?_, front, size'⟩
    · refine tracks.guarded_step guarded rfl tame coming ?_ turns
      rcases deed with (_ | ⟨index, operation⟩) | _ | _
      · exact id
      · cases operation with
        | put segment time => exact absurd rfl (silent index segment time)
        | _ => exact id
      · exact id
      · exact id
    · rw [Deed.sent_of_silent silent]
      exact flowing'

theorem Stage.run (stage : Stage l shards idle team writer first sent now s sc)
    (small : l.maxBlocks.toNat * l.capacity < Seq.halfTurn) {deeds : List Deed}
    (continues : ∀ count deed, deeds[count]? = some deed → Continues shards writer first
      ((deeds.take count).foldl Deed.sent sent) (s.run (deeds.take count)) deed)
    (times : (now :: deeds.filterMap Deed.time?).Pairwise (· ≤ ·))
    (started : ∀ time ∈ deeds.filterMap Deed.time?, 0 < time) :
    ∃ last ∈ now :: deeds.filterMap Deed.time?, ∃ sc', Stage l shards idle team writer first
      (deeds.foldl Deed.sent sent) last (s.run deeds) sc' := by
  induction deeds generalizing s sc sent now with
  | nil => exact ⟨now, List.mem_cons_self, sc, stage⟩
  | cons deed rest ih =>
    have future : ∀ time, deed.time? = some time → now ≤ time ∧ 0 < time := by
      intro time looks
      exact ⟨Deed.time_le times looks,
        started time (List.mem_filterMap.mpr ⟨deed, List.mem_cons_self, looks⟩)⟩
    obtain ⟨sc', _, after⟩ := stage.step small (continues 0 deed rfl) future
    obtain ⟨last, listed, sc'', final⟩ := ih after (fun count => continues (count + 1))
      (Deed.times_rest times) fun time listed => started time (Deed.times_subset listed)
    exact ⟨last, Deed.mem_times listed, sc'', final⟩

/-- Once all blocks are ready and every flow of a block is owned by a shard that has its round to come,
the rounds leave no stream bytes. -/
theorem Tracks.rounds (tracks : Tracks l s sc) {b : Backlog} (flowing : Flowing first sent b now sc)
    {a : Attachment} (there : sc.handles[0]? = some a) {since : Micros} {rounds : List (Nat × Micros)}
    (ready : ∀ item ∈ sc.cat.items, ∀ time, since ≤ time →
      item.header.isReady time a.config.blockIdleTimeout = true)
    (owned : ∀ item ∈ sc.cat.items, item.isPayload = true →
      ∃ round ∈ rounds, (sc.team.position? round.1 item.key.flow).isSome)
    (late : ∀ round ∈ rounds, since ≤ round.2) :
    ∃ sc' b', Tracks l (s.run (rounds.map fun round => .drain 0 round.1 round.2)) sc' ∧
      Flowing first sent b' now sc' ∧ ∀ item ∈ sc'.cat.items, item.isPayload = false := by
  induction rounds generalizing s sc b with
  | nil =>
    refine ⟨sc, b, tracks, flowing, fun item member => Bool.eq_false_iff.mpr fun payload => ?_⟩
    obtain ⟨_, listed, _⟩ := owned item member payload
    exact absurd listed List.not_mem_nil
  | cons round rest ih =>
    obtain ⟨place, time⟩ := round
    have after := tracks.drain 0 place time
    have rest_late := fun round listed => late round (List.mem_cons_of_mem _ listed)
    cases manned : sc.team.shards[place]? with
    | none =>
      have same : sc.effect (.drain 0 place time) = sc := by simp only [Scene.effect, there, manned]
      rw [same] at after
      refine ih after flowing there ready (fun item member payload => ?_) rest_late
      obtain ⟨other, listed, stands⟩ := owned item member payload
      rcases List.mem_cons.mp listed with rfl | later
      · rw [Team.position?, manned] at stands
        cases stands
      · exact ⟨other, later, stands⟩
    | some shard =>
      obtain ⟨count, flowing', all⟩ := tracks.flowing_drain flowing (a := a) manned time
      have effect : sc.effect (.drain 0 place time) = { sc with
          team := { sc.team with
            shards := sc.team.shards.setIfInBounds place (shard.rounded (a.view time) sc.cat).1 }
          cat := (shard.rounded (a.view time) sc.cat).2.1
          events := sc.events ++ (shard.rounded (a.view time) sc.cat).2.2.toArray } := by
        simp only [Scene.effect, there, manned]
      have positions := Team.position?_rounded (v := a.view time) tracks.separate tracks.ordered manned
        tracks.checked
      have mem := fun item => @Shard.mem_rounded l (a.view time) sc.cat shard
        (tracks.shard_checked manned) tracks.separate tracks.ordered item
      rw [effect] at after
      have told := all fun item member => ready item member time (late _ List.mem_cons_self)
      refine ih after flowing' there (fun item member => ready item ((mem item).mp member).1)
        (fun item member payload => ?_) rest_late
      have known := ((mem item).mp member).1
      obtain ⟨other, listed, stands⟩ := owned item known payload
      by_cases here : (sc.team.position? place item.key.flow).isSome
      · -- all that waited of an owned flow was told, so no block of it is left
        obtain ⟨flow, side, low, lane⟩ := item.key.exists_lane
        have same : item.key.flow = flow := FlowKey.flow_of_lane low lane
        rw [same] at here
        have covered := covers_start_of_mem after.commons.sound after.ordered member payload
        rw [Item.lane, lane] at covered
        obtain ⟨step, more, _⟩ := (flowing'.waits.covers flow side low _).mp covered
        rw [Backlog.size_drop, told flow here side] at more
        omega
      · rcases List.mem_cons.mp listed with rfl | later
        · exact absurd stands here
        · refine ⟨other, later, ?_⟩
          rw [positions]
          split
          · next same =>
            rw [← same] at stands
            exact absurd stands here
          · exact stands

theorem Flowing.heard_all {b : Backlog} (flowing : Flowing first sent b now sc)
    (bare : ∀ item ∈ sc.cat.items, item.isPayload = false) (flow : FlowId) (side : Side) :
    heard flow side sc.events.toList = sent flow side := by
  have none : (b.bytes flow side).size = 0 := by
    by_contra some
    have more := Nat.pos_of_ne_zero some
    obtain ⟨item, member, _, payload, _⟩ := (flowing.waits.covers flow side (flowing.checked flow side more)
      (b.next flow side)).mpr ⟨0, more, Seq.advance_zero _⟩
    rw [bare item member] at payload
    cases payload
  rw [flowing.account, ByteArray.size_eq_zero_iff.mp none, ByteArray.append_empty]

/-- Over settled blocks, a poll that comes when the idle time has passed takes up every flow that waits,
and one round of each shard tells the rest. -/
theorem Tracks.collect (tracks : Tracks l s sc) {b : Backlog} {since polled : Micros}
    (flowing : Flowing first sent b since sc) (shelters : sc.team.Shelters sc.cat.items)
    {a : Attachment} (there : sc.handles[0]? = some a)
    (settled : ∀ item ∈ sc.cat.items, item.Settled since)
    (again : a.config.blockIdleTimeout < elapsed polled since) (due : sc.team.tooSoon polled = false)
    (manned : 0 < sc.team.shards.size) {rounds : List (Nat × Micros)}
    (each : (rounds.map Prod.fst).Perm (List.range sc.team.shards.size))
    (after : ∀ round ∈ rounds, polled ≤ round.2) :
    ∃ sc' b', Tracks l (s.run (.poll 0 polled :: rounds.map fun round => .drain 0 round.1 round.2)) sc' ∧
      Flowing first sent b' polled sc' ∧ ∀ item ∈ sc'.cat.items, item.isPayload = false := by
  have onward : since ≤ polled := by
    rw [UInt64.lt_iff_toNat_lt, toNat_elapsed] at again
    rw [UInt64.le_iff_toNat_le]
    omega
  have tracks' := tracks.poll 0 polled
  have effect : sc.effect (.poll 0 polled) = { sc with
      handles := sc.handles.set 0 (Shift.polled a polled sc.cat)
      team := sc.team.polled polled (dueMarkers (a.view polled) (sc.cat.rotated a.rotation)) } := by
    simp only [Scene.effect, there, due, Bool.false_eq_true, if_false,
      Store.Item.swept_of_settled settled]
  rw [effect] at tracks'
  have ready : ∀ item ∈ sc.cat.items, ∀ time, polled ≤ time →
      item.header.isReady time a.config.blockIdleTimeout = true := fun item member time late =>
    (settled item member).ready (UInt64.lt_of_lt_of_le again (elapsed_mono late))
  have owned : ∀ item ∈ sc.cat.items, item.isPayload = true → ∃ round ∈ rounds,
      ((sc.team.polled polled (dueMarkers (a.view polled) (sc.cat.rotated a.rotation))).position?
        round.1 item.key.flow).isSome := by
    intro item member payload
    obtain ⟨index, position, stands⟩ : ∃ index position,
        (sc.team.polled polled (dueMarkers (a.view polled) (sc.cat.rotated a.rotation))).position?
          index item.key.flow = some position := by
      rcases shelters item member payload with owned | marked
      · obtain ⟨index, position, stands⟩ := Team.owns_iff.mp owned
        exact ⟨index, position, Team.polled_kept stands _ _⟩
      · obtain ⟨index, stands⟩ := polled_marked manned a polled
          (fun item member => ready item member polled (UInt64.le_refl _)) marked
        exact ⟨index, Option.isSome_iff_exists.mp stands⟩
    -- the owner is one of the shards, and each of them has its round
    obtain ⟨shard, inside, _⟩ := Option.bind_eq_some_iff.mp stands
    have small := (Array.getElem?_eq_some_iff.mp inside).1
    rw [Team.size_polled, ← List.mem_range, ← each.mem_iff] at small
    obtain ⟨round, listed, rfl⟩ := List.mem_map.mp small
    exact ⟨round, listed, by rw [stands]; rfl⟩
  have flowing' := (@Flowing.polled _ _ _ _ polled _ (flowing.later onward) (dueMarkers (a.view polled)
    (sc.cat.rotated a.rotation))).handled (sc.handles.set 0 (Shift.polled a polled sc.cat))
  have there' : (sc.handles.set 0 (Shift.polled a polled sc.cat))[0]? =
      some (Shift.polled a polled sc.cat) :=
    List.getElem?_set_self (List.getElem?_eq_some_iff.mp there).1
  exact tracks'.rounds flowing' there' ready owned after

theorem Stage.closed (stage : Stage l shards idle team writer first sent now s sc) (manned : 0 < team)
    {swept polled : Micros} {rounds : List (Nat × Micros)}
    (waited : 0 < now → idle < elapsed swept now) (again : idle < elapsed polled swept)
    (due : (s.step (.move (.operate 0 (.sweep swept)))).team.tooSoon polled = false)
    (each : (rounds.map Prod.fst).Perm (List.range team)) (after : ∀ round ∈ rounds, polled ≤ round.2) :
    ∃ sc' b, Tracks l (s.run (closing swept polled rounds)) sc' ∧ Flowing first sent b polled sc' ∧
      ∀ item ∈ sc'.cat.items, item.isPayload = false := by
  obtain ⟨tracks, guarded, shelters, ⟨b, flowing⟩, ⟨a, there, own⟩, size⟩ := stage
  have le : now ≤ swept := by
    by_cases started : 0 < now
    · have waited := waited started
      rw [UInt64.lt_iff_toNat_lt, toNat_elapsed] at waited
      rw [UInt64.le_iff_toNat_le]
      omega
    · rw [UInt64.le_iff_toNat_le]
      rw [UInt64.lt_iff_toNat_lt, UInt64.toNat_zero] at started
      omega
  have tracks' := tracks.operate 0 (.sweep swept) fun a _ => tracks.separate.swept _ swept
  obtain ⟨a', there', own'⟩ := Scene.idle_effect there (.move (.operate 0 (.sweep swept)))
  have size' := (sc.size_effect (.move (.operate 0 (.sweep swept)))).trans size
  have flowing' : Flowing first sent b swept (sc.effect (.move (.operate 0 (.sweep swept)))) := by
    simp only [Scene.effect, there]
    exact (flowing.swept tracks.commons.sound le _).handled _
  -- the sweep completes every block that was left open
  have settled : ∀ item ∈ (sc.effect (.move (.operate 0 (.sweep swept)))).cat.items,
      item.Settled swept := by
    intro item member
    simp only [Scene.effect, there, Operation.effect] at member
    obtain ⟨old, known, rfl⟩ := List.mem_map.mp member
    obtain ⟨started, noted⟩ := flowing.stamped old known
    refine (tracks.commons.sound old known).settled started noted ?_
    rw [own]
    exact waited (UInt64.lt_of_lt_of_le started noted)
  rw [tracks'.team] at due
  refine tracks'.collect flowing' (tracks.shelters_step shelters id id (.effect _)) there' settled ?_ due
    (by rw [size']; exact manned) (by rw [size']; exact each) after
  rw [own', own]
  exact again

variable {config : StoreConfig} {start : Site} {deeds : List Deed}

theorem Fresh.layout_eq (fresh : start.Fresh config shards) {a : Attachment}
    (alone : start.commons.handles = [a]) :
    a.layout.maxBlocks = config.maxBlocks ∧ a.layout.capacity = config.blockCapacity.toNat := by
  obtain ⟨region, region', there, a', made, same⟩ := fresh.formatted
  rw [same] at alone
  obtain rfl := List.singleton_inj.mp alone
  obtain ⟨_, divided, _⟩ := Attachment.format_ok there made
  obtain ⟨capacity, blocks⟩ := Attachment.geometry_of_layoutFor divided
  exact ⟨blocks, congrArg UInt32.toNat capacity⟩

theorem Fresh.stage (fresh : start.Fresh config shards) (timed : Team.start shards config = .ok start.team)
    (writer : Nat) (first : FlowId → Side → Seq) :
    ∃ l sc, l.maxBlocks = config.maxBlocks ∧ l.capacity = config.blockCapacity.toNat ∧
      Stage l shards config.blockIdleTimeout start.team.shards.size writer first
        (fun _ _ => .empty) 0 start sc := by
  obtain ⟨a, own, writers, carrying⟩ := fresh.carrying
  have nowhere := (Team.ofConfig_ok fresh.formed).2.2.1
  obtain ⟨blocks, capacity⟩ := fresh.layout_eq carrying.handles
  have nothing : ∀ item, item ∉ (Scene.opening a start.team).cat.items := fun item => List.not_mem_nil
  have waits : (⟨first, fun _ _ => .empty⟩ : Backlog).Waits (Scene.opening a start.team).cat.items := by
    refine ⟨fun _ _ _ => show 0 < Seq.halfTurn by decide, .nil, fun item member => (nothing item member).elim,
      fun flow side _ position => ⟨fun covered => ?_, fun ⟨step, small, _⟩ => absurd small (Nat.not_lt_zero _)⟩,
      fun marker member => (nothing marker member).elim⟩
    obtain ⟨item, member, _⟩ := covered
    exact (nothing item member).elim
  refine ⟨a.layout, _, blocks, capacity, carrying.toTracks, guarded_opening timed own writers,
    fun item member => (nothing item member).elim, ⟨_, waits, fun item member => (nothing item member).elim,
      fun index flow owned => ?_, fun index flow position stands => ?_, fun flow side => rfl,
      fun flow side => (Seq.advance_zero _).symm, fun event listed => absurd listed List.not_mem_nil,
      fun flow side more => absurd more (Nat.lt_irrefl _)⟩, ⟨a, rfl, by rw [own]⟩, rfl⟩
  · rw [show (Scene.opening a start.team).team = start.team from rfl, nowhere] at owned
    cases owned
  · rw [show (Scene.opening a start.team).team = start.team from rfl, nowhere] at stands
    cases stands

/-- What was put of some sides in order is told in order: a first part of it at every moment, without a
gap, and all of it when everything was left alone, swept, left alone again, polled, and drained by every
shard. -/
theorem Fresh.tells_in_order (fresh : start.Fresh config shards)
    (timed : Team.start shards config = .ok start.team) {writer : Nat} {first : FlowId → Side → Seq}
    (inOrder : InOrder shards writer first start deeds)
    (small : config.maxBlocks.toNat * config.blockCapacity.toNat < 0x80000000) :
    (∀ count, (∀ flow side, ∃ rest, sentBy (deeds.take count) flow side =
        (Transcript.ofEvents (start.run (deeds.take count)).events).stream flow side ++ rest) ∧
      (Transcript.ofEvents (start.run (deeds.take count)).events).gaps = []) ∧
    ∀ (swept polled : Micros) (rounds : List (Nat × Micros)),
      InTime config.blockIdleTimeout start deeds swept polled rounds →
      let final := start.run (deeds ++ closing swept polled rounds)
      (∀ flow side, (Transcript.ofEvents final.events).stream flow side = sentBy deeds flow side) ∧
        (Transcript.ofEvents final.events).gaps = [] := by
  obtain ⟨l, sc, blocks, capacity, stage⟩ := fresh.stage timed writer first
  have fits : l.maxBlocks.toNat * l.capacity < Seq.halfTurn := by
    rw [blocks, capacity]
    exact small
  have ordered : (0 :: deeds.filterMap Deed.time?).Pairwise (· ≤ ·) :=
    List.pairwise_cons.mpr ⟨fun time _ => UInt64.zero_le, inOrder.times⟩
  refine ⟨fun count => ?_, fun swept polled rounds inTime => ?_⟩
  · have sub : ((deeds.take count).filterMap Deed.time?).Sublist (deeds.filterMap Deed.time?) :=
      (List.take_sublist count deeds).filterMap _
    have continues : ∀ place deed, (deeds.take count)[place]? = some deed → Continues shards writer first
        (sentBy ((deeds.take count).take place)) (start.run ((deeds.take count).take place)) deed := by
      intro place deed listed
      rw [List.getElem?_take] at listed
      split at listed
      · next inside =>
        rw [List.take_take, Nat.min_eq_left inside.le]
        exact inOrder.continues place deed listed
      · cases listed
    obtain ⟨last, _, sc', after⟩ := stage.run fits continues (ordered.sublist (sub.cons_cons 0))
      fun time listed => inOrder.started time (sub.subset listed)
    obtain ⟨b, flowing⟩ := after.flowing
    rw [after.tracks.events]
    refine ⟨fun flow side => ⟨b.bytes flow side, ?_⟩, Transcript.gaps_ofEvents flowing.whole⟩
    rw [Transcript.stream_ofEvents]
    exact flowing.account flow side
  · intro final
    obtain ⟨last, listed, sc', after⟩ := stage.run fits inOrder.continues ordered inOrder.started
    have due := inTime.due
    rw [run, List.foldl_append] at due
    obtain ⟨sc'', b, tracks, flowing, bare⟩ := after.closed (Team.ofConfig_ok fresh.formed).1
      (fun started => by
        rcases List.mem_cons.mp listed with rfl | looked
        · exact absurd started (UInt64.lt_irrefl _)
        · exact inTime.alone last looked) inTime.again due inTime.each inTime.after
    have final_eq : final = (start.run deeds).run (closing swept polled rounds) := List.foldl_append
    rw [final_eq, tracks.events]
    refine ⟨fun flow side => ?_, Transcript.gaps_ofEvents flowing.whole⟩
    rw [Transcript.stream_ofEvents]
    exact flowing.heard_all bare flow side

/-- Three bytes around the end of the circle. Before the third is put the shard has given up the flow and
the writer has forgotten it, so it is announced anew. -/
def interrupted : List Deed := [
  .move (.operate 0 (.put ⟨⟨7⟩, .source, ⟨0xFFFFFFFE⟩, [1, 2].toByteArray⟩ 1000000)),
  .move (.operate 0 (.sweep 1200000)),
  .poll 0 1400000,
  .drain 0 0 1400000,
  .drain 0 0 13400000,
  .move (.operate 0 (.put ⟨⟨7⟩, .source, ⟨0⟩, [3].toByteArray⟩ 14000000))]

theorem times_interrupted : interrupted.filterMap Deed.time? =
    [1000000, 1200000, 1400000, 1400000, 13400000, 14000000] := rfl

/-- The three bytes come out in order. -/
theorem tells_in_order_interrupted : ∃ start : Site,
    start.Fresh { blockCapacity := 64, maxBlocks := 8 } { handlerCount := 1 } ∧
      Team.start { handlerCount := 1 } { blockCapacity := 64, maxBlocks := 8 } = .ok start.team ∧
      InOrder { handlerCount := 1 } 0 (fun _ _ => ⟨0xFFFFFFFE⟩) start interrupted ∧
      InTime 100000 start interrupted 14200000 14400000 [(0, 14400000)] ∧
      (Transcript.ofEvents (start.run (interrupted ++ closing 14200000 14400000 [(0, 14400000)])).events).stream
        ⟨7⟩ .source = [1, 2, 3].toByteArray := by
  obtain ⟨start, fresh, carrying⟩ := @Fresh.of_config { blockCapacity := 64, maxBlocks := 8 }
    { handlerCount := 1 } _ _ rfl rfl rfl
  have timed : Team.start { handlerCount := 1 } { blockCapacity := 64, maxBlocks := 8 } = .ok start.team := by
    rw [carrying.team]
    rfl
  have one := @Carrying.effects _ _ _ carrying (interrupted.take 1) (by simp [interrupted]) (by decide)
  have five := @Carrying.effects _ _ _ carrying (interrupted.take 5) (by simp [interrupted]) (by decide)
  have six := @Carrying.effects _ _ _ carrying (interrupted.take 6) (by simp [interrupted]) (by decide)
  have inOrder : InOrder { handlerCount := 1 } 0 (fun _ _ => ⟨0xFFFFFFFE⟩) start interrupted := by
    refine ⟨fun count deed listed => ?_, by rw [times_interrupted]; decide, fun time listed => ?_⟩
    · match count, listed with
      | 0, rfl =>
        refine ⟨rfl, fun segment now same => ?_⟩
        cases same
        refine ⟨?_, by decide, by decide, by decide, by decide, one.hasRoom (by decide +kernel)⟩
        rw [show start.run (interrupted.take 0) = start from rfl, carrying.handles]
        decide +kernel
      | 1, rfl => exact ⟨trivial, nofun⟩
      | 2, rfl => exact ⟨trivial, nofun⟩
      | 3, rfl => exact ⟨trivial, nofun⟩
      | 4, rfl => exact ⟨trivial, nofun⟩
      | 5, rfl =>
        refine ⟨rfl, fun segment now same => ?_⟩
        cases same
        refine ⟨?_, by decide, by decide, by decide, by decide, six.hasRoom (by decide +kernel)⟩
        rw [five.handles]
        decide +kernel
    · have all : (interrupted.filterMap Deed.time?).all (fun time => decide (0 < time)) = true := by decide
      exact of_decide_eq_true (List.all_eq_true.mp all time listed)
  have inTime : InTime 100000 start interrupted 14200000 14400000 [(0, 14400000)] := by
    refine ⟨fun time listed => ?_, by decide +kernel, ?_, ?_, fun round listed => ?_⟩
    · have all : (interrupted.filterMap Deed.time?).all
          (fun time => decide (100000 < elapsed 14200000 time)) = true := by decide
      exact of_decide_eq_true (List.all_eq_true.mp all time listed)
    · have after := @Carrying.effects _ _ _ carrying
        (interrupted ++ [Deed.move (.operate 0 (.sweep 14200000))]) (by simp [interrupted]) (by decide)
      rw [after.team]
      decide +kernel
    · rw [carrying.team]
      decide +kernel
    · obtain rfl := List.mem_singleton.mp listed
      decide
  refine ⟨start, fresh, timed, inOrder, inTime, ?_⟩
  exact ((fresh.tells_in_order timed inOrder (by decide)).2 _ _ _ inTime).1 ⟨7⟩ .source

end Site

end Reassembly
