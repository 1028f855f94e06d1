import Reassembly.Proofs.Backlog
import Reassembly.Proofs.Ownership
import Reassembly.Proofs.Reconstruction

/-!
Streams that are put in order. What was put of a side is at every moment what the reader was told of it,
followed by what is waiting; every shard that owns the flow goes on where the reader is, or has read
nothing of it. Puts, sweeps, polls and rounds all keep this, however the two timers cut the stream.
-/

namespace Reassembly

open Store Reading Delivery Writing

namespace Delivery

theorem Event.isGap_of_plain {event : Event} (plain : event.isPlain = true) : event.isGap = false := by
  cases event with
  | gap flow side expected resumedAt => cases plain
  | _ => rfl

theorem Transcript.gaps_ofEvents {events : Array Event} (whole : ∀ event ∈ events.toList, event.isGap = false) :
    (ofEvents events).gaps = [] := by
  have fold : ∀ (rest : List Event) (t : Transcript), (∀ event ∈ rest, event.isGap = false) →
      (rest.foldl add t).gaps = t.gaps := by
    intro rest
    induction rest with
    | nil => exact fun t _ => rfl
    | cons event rest ih =>
      intro t others
      rw [List.foldl_cons, ih _ fun other listed => others other (List.mem_cons_of_mem _ listed)]
      have first := others event List.mem_cons_self
      cases event with
      | gap flow side expected resumedAt => cases first
      | _ => rfl
  rw [ofEvents_eq]
  exact fold _ {} whole

namespace Shard

variable {l : Layout} {v : View} {cat : Catalog} {s : Shard}
  (checked : ∀ flow, s.owns flow = true → flow.raw.toNat < 0x80000000)
include checked

theorem heard_rounded (separate : cat.Distinct) (ordered : cat.Ordered l)
    (own : ∀ flow position, s.flows[flow]? = some position →
      ∀ event ∈ (flowDrained v flow position cat).2.2, event.flow = flow) (flow : FlowId) (side : Side) :
    heard flow side (s.rounded v cat).2.2 = match s.flows[flow]? with
      | some position => heard flow side (flowDrained v flow position cat).2.2
      | none => .empty := by
  have ends : heard flow side ((expiredFlows (s.flows.toList.map
      (fated v s.flowTimeout cat))).map Event.expired) = .empty := by
    refine heard_eq_empty fun event listed => ?_
    obtain ⟨_, _, rfl⟩ := List.mem_map.mp listed
    rfl
  rw [rounded_eq checked separate ordered]
  dsimp only
  rw [heard_append, ends, ByteArray.append_empty]
  have told : ∀ source ∈ s.flows.toList, ∀ event ∈ (flowDrained v source.1 source.2 cat).2.2,
      event.flow = source.1 := fun source listed => own source.1 source.2 (mem_flows.mp listed)
  cases stands : s.flows[flow]? with
  | some position =>
    have listed : (flow, position) ∈ s.flows.toList := mem_flows.mpr stands
    exact (@Delivery.heard_flatMap side) told s.distinct_flows listed
  | none =>
    refine heard_of_ne fun event listed mine => ?_
    obtain ⟨pair, there, news⟩ := List.mem_flatMap.mp listed
    have owned := mem_flows.mp there
    rw [(told pair there event news).symm.trans mine, stands] at owned
    cases owned

structure RoundTold (b : Backlog) (v : View) (s : Shard) (cat : Catalog) (count : FlowId → Side → Nat) :
    Prop where
  told : ∀ flow position, s.flows[flow]? = some position →
    FlowTold b v flow cat (flowDrained v flow position cat) (count flow)
  silent : ∀ flow, s.flows[flow]? = none → ∀ side, count flow side = 0

theorem exists_roundTold {b : Backlog} (separate : cat.Distinct) (ordered : cat.Ordered l)
    (sound : cat.Sound) (waits : b.Waits cat.items)
    (next : ∀ flow position, s.flows[flow]? = some position → ∀ side,
      position.expected.get side = none ∨ position.expected.get side = some (b.next flow side)) :
    ∃ count, s.RoundTold b v cat count := by
  choose count told silent using fun flow : FlowId => show ∃ count : Side → Nat,
      (∀ position, s.flows[flow]? = some position →
        FlowTold b v flow cat (flowDrained v flow position cat) count) ∧
      (s.flows[flow]? = none → ∀ side, count side = 0) by
    cases stands : s.flows[flow]? with
    | none => exact ⟨fun _ => 0, fun _ same => absurd same.symm (Option.some_ne_none _), fun _ _ => rfl⟩
    | some position =>
      have small := checked flow (by rw [owns_eq, stands]; rfl)
      obtain ⟨count, told⟩ := @flowDrained_told l v cat flow position b ordered sound separate waits small
        (next flow position stands)
      exact ⟨count, fun other same => Option.some.inj same ▸ told,
        fun same => absurd same (Option.some_ne_none _)⟩
  exact ⟨count, told, silent⟩

namespace RoundTold

variable {b : Backlog} {count : FlowId → Side → Nat} (tells : s.RoundTold b v cat count)
include tells

omit checked in
theorem inside (flow : FlowId) (side : Side) : count flow side ≤ (b.bytes flow side).size := by
  cases stands : s.flows[flow]? with
  | none =>
    rw [tells.silent flow stands]
    exact Nat.zero_le _
  | some position => exact (tells.told flow position stands).inside side

variable (separate : cat.Distinct) (ordered : cat.Ordered l)
include separate ordered

theorem hears (flow : FlowId) (side : Side) : heard flow side (s.rounded v cat).2.2 =
    (b.bytes flow side).extract 0 (count flow side) := by
  rw [heard_rounded checked separate ordered fun flow position stands event listed =>
    ((tells.told flow position stands).plain event listed).1]
  cases stands : s.flows[flow]? with
  | none =>
    rw [tells.silent flow stands]
    exact ByteArray.extract_same.symm
  | some position => exact (tells.told flow position stands).hears side

theorem whole {event : Event} (listed : event ∈ (s.rounded v cat).2.2) : event.isGap = false := by
  rw [rounded_eq checked separate ordered] at listed
  rcases List.mem_append.mp listed with news | ends
  · obtain ⟨pair, there, here⟩ := List.mem_flatMap.mp news
    exact Event.isGap_of_plain ((tells.told pair.1 pair.2 (mem_flows.mp there)).plain event here).2
  · obtain ⟨flow, _, rfl⟩ := List.mem_map.mp ends
    rfl

theorem waits (sound : cat.Sound) (waits : b.Waits cat.items)
    (stamped : ∀ item ∈ cat.items, 0 < item.header.lastUpdate) :
    (b.drop count).Waits (s.rounded v cat).2.1.items := by
  have mem := fun item => @mem_rounded l v cat s checked separate ordered item
  refine waits.drop sound ordered (fun item listed => ((mem item).mp listed).1)
    (fun item member payload flow side low lane place more spans => ?_)
    fun marker listed kind block member payload lane early => ?_
  · have here : item.key.flow = flow := FlowKey.flow_of_lane low lane
    rw [mem, here]
    cases stands : s.flows[flow]? with
    | none =>
      rw [tells.silent flow stands]
      exact iff_of_true ⟨member, fun _ same => absurd same.symm (Option.some_ne_none _)⟩ (Nat.zero_le _)
    | some position =>
      have gone := (tells.told flow position stands).gone item member payload side lane place more spans
      constructor
      · exact fun left => Nat.not_lt.mp fun less => left.2 position rfl (gone.mpr less)
      · intro behind
        refine ⟨member, fun other same went => ?_⟩
        obtain rfl := Option.some.inj same
        exact absurd (gone.mp went) (Nat.not_lt.mpr behind)
  · -- if a block went it was ready, and so was a marker for it that is no younger
    obtain ⟨known, stays⟩ := (mem marker).mp listed
    have flows := ((FlowKey.lane_eq_iff block.key marker.key).mp lane).1
    refine (mem block).mpr ⟨member, fun position stands went => ?_⟩
    rw [flows] at stands went
    have spec := tells.told marker.key.flow position stands
    have ready := spec.ready block member payload went
    refine stays position stands (spec.markers marker known rfl kind ?_)
    rw [Block.Header.isReady, Bool.and_eq_true] at ready ⊢
    rcases sound marker known with is | ⟨chunks, streams⟩
    · refine ⟨is.complete, Store.Item.expired_of_waited (sound marker known).used
        (stamped marker known) ?_⟩
      have expired := ready.2
      rw [Block.Header.expired, Bool.and_eq_true, decide_eq_true_eq] at expired
      exact UInt64.lt_of_lt_of_le expired.2 (elapsed_anti early)
    · rw [streams.isPayload] at kind
      cases kind

end RoundTold

end Shard

theorem Team.Assigned.rounded {l : Layout} {v : View} {cat : Catalog} {t : Team} {s : Shard} {place : Nat}
    (assigned : t.Assigned) (separate : cat.Distinct) (ordered : cat.Ordered l)
    (manned : t.shards[place]? = some s)
    (checked : ∀ index flow, (t.position? index flow).isSome → flow.raw.toNat < 0x80000000) :
    ({ t with shards := t.shards.setIfInBounds place (s.rounded v cat).1 } : Team).Assigned := by
  intro index flow owned
  rw [Team.position?_rounded separate ordered manned checked] at owned
  refine assigned index flow ?_
  split at owned
  · exact Option.isSome_of_isSome_bind owned
  · exact owned

end Delivery

namespace Site

def Deed.payload (flow : FlowId) (side : Side) : Deed → ByteArray
  | .move (.operate _ (.put segment _)) =>
    if segment.flow = flow ∧ segment.side = side then segment.payload else .empty
  | _ => .empty

def Deed.sent (sent : FlowId → Side → ByteArray) (deed : Deed) : FlowId → Side → ByteArray :=
  fun flow side => sent flow side ++ deed.payload flow side

/-- Of each side `first` is the position of its first byte and `sent` is what was put; the reader was told
a first part of it, and the others are waiting. -/
structure Flowing (first : FlowId → Side → Seq) (sent : FlowId → Side → ByteArray) (b : Backlog)
    (now : Micros) (sc : Scene) : Prop where
  waits : b.Waits sc.cat.items
  stamped : ∀ item ∈ sc.cat.items, 0 < item.header.lastUpdate ∧ item.header.lastUpdate ≤ now
  assigned : sc.team.Assigned
  next : ∀ index flow position, sc.team.position? index flow = some position → ∀ side,
    position.expected.get side = none ∨ position.expected.get side = some (b.next flow side)
  account : ∀ flow side, sent flow side = heard flow side sc.events.toList ++ b.bytes flow side
  place : ∀ flow side, b.next flow side =
    (first flow side).advance (heard flow side sc.events.toList).size
  whole : ∀ event ∈ sc.events.toList, event.isGap = false
  checked : ∀ flow side, 0 < (b.bytes flow side).size → flow.raw.toNat < 0x80000000

variable {first : FlowId → Side → Seq} {sent : FlowId → Side → ByteArray} {b : Backlog}
  {now time : Micros} {sc : Scene}

namespace Flowing

variable (flowing : Flowing first sent b now sc)
include flowing

theorem later (le : now ≤ time) : Flowing first sent b time sc :=
  { flowing with
    stamped := fun item member =>
      (flowing.stamped item member).imp id fun noted => UInt64.le_trans noted le }

theorem swept (sound : sc.cat.Sound) (le : now ≤ time) (idle : Micros) :
    Flowing first sent b time { sc with cat := sc.cat.swept idle time } := by
  have stamped := (flowing.later le).stamped
  refine { flowing with
    waits := flowing.waits.swept sound (fun item member => (stamped item member).2) idle
    stamped := fun item member => ?_ }
  obtain ⟨old, known, rfl⟩ := List.mem_map.mp member
  rw [Item.swept]
  split
  · have noted := stamped old known
    exact ⟨UInt64.lt_of_lt_of_le noted.1 noted.2, UInt64.le_refl _⟩
  · exact stamped old known

theorem handled (handles : List Attachment) : Flowing first sent b now { sc with handles } :=
  ⟨flowing.waits, flowing.stamped, flowing.assigned, flowing.next, flowing.account, flowing.place,
    flowing.whole, flowing.checked⟩

theorem polled (markers : List Stored) :
    Flowing first sent b now { sc with team := sc.team.polled time markers } := by
  refine { flowing with
    assigned := flowing.assigned.polled time markers
    next := fun index flow position stands side => ?_ }
  rcases sc.team.polled_position time markers index flow with same | ⟨_, _, _, _, fresh⟩
  · exact flowing.next index flow position (same.symm.trans stands) side
  · obtain rfl := Option.some.inj (fresh.symm.trans stands)
    exact .inl (PerSide.get_both _ _)

end Flowing

namespace Tracks

variable {l : Layout} {s : Site} (tracks : Tracks l s sc) (flowing : Flowing first sent b now sc)
include tracks flowing

theorem flowing_put {index : Nat} {a : Attachment} (there : sc.handles[index]? = some a)
    {segment : Segment} (checked : segment.flow.raw.toNat < 0x80000000)
    (some_bytes : 0 < segment.payload.size) (short : segment.payload.size ≤ 65535)
    (sequence : segment.sequence = (first segment.flow segment.side).advance
      (sent segment.flow segment.side).size)
    (small : l.maxBlocks.toNat * l.capacity < Seq.halfTurn) (le : now ≤ time) (started : 0 < time)
    (room : (Desk.put a.layout a.config segment time ⟨a.writers, sc.cat⟩).2.cat.items.length <
      l.maxBlocks.toNat) :
    (Desk.put a.layout a.config segment time ⟨a.writers, sc.cat⟩).2.cat.Distinct ∧
      Flowing first (Deed.sent sent (.move (.operate index (.put segment time))))
        (b.add segment.flow segment.side segment.payload) time
        (sc.effect (.move (.operate index (.put segment time)))) := by
  have fit := tracks.desk there
  obtain ⟨_, rfl, _⟩ := tracks.attached there
  have stamped := (flowing.later le).stamped
  have behind : segment.sequence = (b.next segment.flow segment.side).advance
      (b.bytes segment.flow segment.side).size := by
    rw [sequence, flowing.place, Seq.advance_advance, flowing.account, ByteArray.size_append]
  obtain ⟨waits, separate⟩ := @Backlog.Waits.put a.layout b time a.config segment ⟨a.writers, sc.cat⟩ fit
    flowing.waits checked behind short some_bytes small tracks.separate
    (fun item member => (stamped item member).2) room
  have times := (@Writing.Desk.Fit.put_lastUpdate _ a.config segment time _ fit
    (fun noted => 0 < noted ∧ noted ≤ time)) ⟨started, UInt64.le_refl _⟩ stamped
  simp only [Scene.effect, there]
  refine ⟨separate, waits, times, flowing.assigned, flowing.next, fun flow side => ?_, flowing.place,
    flowing.whole, fun flow side more => ?_⟩
  · rw [Deed.sent, Deed.payload, flowing.account]
    by_cases here : segment.flow = flow ∧ segment.side = side
    · obtain ⟨rfl, rfl⟩ := here
      rw [if_pos ⟨rfl, rfl⟩, Backlog.add_self, ByteArray.append_assoc]
    · rw [if_neg here, Backlog.add_other fun same => here ⟨same.1.symm, same.2.symm⟩,
        ByteArray.append_empty]
  · by_cases here : flow = segment.flow ∧ side = segment.side
    · rw [here.1]
      exact checked
    · rw [Backlog.add_other here] at more
      exact flowing.checked flow side more

theorem flowing_drain {a : Attachment} {shard : Shard} {place : Nat}
    (manned : sc.team.shards[place]? = some shard) (time : Micros) :
    ∃ count : FlowId → Side → Nat, Flowing first sent (b.drop count) now { sc with
        team := { sc.team with
          shards := sc.team.shards.setIfInBounds place (shard.rounded (a.view time) sc.cat).1 }
        cat := (shard.rounded (a.view time) sc.cat).2.1
        events := sc.events ++ (shard.rounded (a.view time) sc.cat).2.2.toArray } ∧
      ((∀ item ∈ sc.cat.items, item.header.isReady time a.config.blockIdleTimeout = true) →
        ∀ flow, (sc.team.position? place flow).isSome → ∀ side, count flow side =
          (b.bytes flow side).size) := by
  have checked := tracks.shard_checked manned
  have ordered := tracks.ordered
  have known := Team.position?_manned manned
  obtain ⟨count, tells⟩ := @Shard.exists_roundTold l (a.view time) sc.cat shard checked b tracks.separate
    ordered tracks.commons.sound flowing.waits
    fun flow position stands => flowing.next place flow position ((known flow).trans stands)
  have mem := fun item => @Shard.mem_rounded l (a.view time) sc.cat shard checked tracks.separate ordered item
  have hears := tells.hears checked tracks.separate ordered
  refine ⟨count, ⟨tells.waits checked tracks.separate ordered tracks.commons.sound flowing.waits
      fun item member => (flowing.stamped item member).1,
    fun item listed => flowing.stamped item ((mem item).mp listed).1,
    flowing.assigned.rounded tracks.separate ordered manned tracks.checked,
    fun index flow position stands side => ?_, fun flow side => ?_, fun flow side => ?_,
    fun event listed => ?_, fun flow side more => flowing.checked flow side ?_⟩,
    fun ready flow owned side => ?_⟩
  · have after := Team.position?_rounded (v := a.view time) tracks.separate ordered manned tracks.checked index
      flow
    rw [after] at stands
    split at stands
    · next here =>
      subst here
      rw [known] at stands
      obtain ⟨before, owned, fate⟩ := Option.bind_eq_some_iff.mp stands
      rw [fated, Shard.fateOf] at fate
      dsimp only at fate
      split at fate
      · cases fate
      · rw [← Option.some.inj fate]
        exact (tells.told flow before owned).next side
    · next elsewhere =>
      have idle : shard.flows[flow]? = none := by
        refine Option.not_isSome_iff_eq_none.mp fun owned => elsewhere ?_
        rw [← known] at owned
        have one := flowing.assigned place flow owned
        rw [flowing.assigned index flow (by rw [stands]; rfl)] at one
        exact (Option.some.inj one).symm
      rw [Backlog.drop]
      dsimp only
      rw [tells.silent flow idle, Seq.advance_zero]
      exact flowing.next index flow position stands side
  · rw [Array.toList_append, heard_append, hears, flowing.account, ByteArray.append_assoc]
    congr 1
    rw [Backlog.drop]
    dsimp only
    rw [← ByteArray.extract_eq_extract_append_extract _ (Nat.zero_le _) (tells.inside flow side)]
    exact ByteArray.extract_zero_size.symm
  · have counted := tells.inside flow side
    rw [Array.toList_append, heard_append, hears, ByteArray.size_append, ByteArray.size_extract,
      ← Seq.advance_advance, ← flowing.place, Backlog.drop]
    dsimp only
    congr 1
    omega
  · rw [Array.toList_append] at listed
    rcases List.mem_append.mp listed with before | new
    · exact flowing.whole event before
    · rw [List.toList_toArray] at new
      exact tells.whole checked tracks.separate ordered new
  · rw [Backlog.size_drop] at more
    omega
  · rw [known] at owned
    obtain ⟨position, stands⟩ := Option.isSome_iff_exists.mp owned
    exact (tells.told flow position stands).all (fun item member _ => ready item member) side

end Tracks

end Site

end Reassembly
