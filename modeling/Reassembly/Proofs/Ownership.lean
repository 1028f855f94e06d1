import Reassembly.Proofs.Timers

/-!
Whether stored bytes can be left behind. At a site where one handle writes and only the team erases
blocks, a payload block whose flow is neither owned nor announced comes from a put that strays, and from
nothing else; and no put strays unless one before it noted its time for an owned flow without storing
bytes, since the two timers run in step otherwise.
-/

namespace Reassembly

open Store Reading Delivery Writing

namespace Site

/-- The deed is a put that notes its time for an owned flow but stores nothing, while no bytes of the
flow are stored. -/
def Vain (s : Site) : Deed → Prop
  | .move (.operate index (.put segment now)) =>
    ∃ a outcome a' r', s.commons.handles[index]? = some a ∧
      Attachment.put segment now (a, ⟨a.handle, s.commons.bytes⟩) = .ok outcome (a', r') ∧
      (outcome = .empty ∨ outcome = .dropped) ∧
      (∃ writer, a'.writers[segment.flow]? = some writer ∧ writer.lastWrite = now) ∧
      s.team.Owns segment.key.flow ∧
      ¬ Stocked (Catalog.itemsIn a.layout s.commons.bytes) segment.key.flow
  | _ => False

/-- The deed leaves the writing to the writer and the erasing to the team, and whoever attaches has a
timeout that suits the team. -/
def Deed.IsTame (shards : ShardConfig) (writer : Nat) : Deed → Prop
  | .move (.attach _ config) => shards.checkWriterTimeout config = .ok ()
  | .move (.operate index (.put _ _)) => index = writer
  | .move (.operate _ (.erase _ _)) => False
  | _ => True

theorem Deed.IsTame.not_isErasure {shards : ShardConfig} {writer : Nat} {deed : Deed}
    (tame : deed.IsTame shards writer) : ¬ deed.IsErasure := by
  rcases deed with (_ | ⟨index, operation⟩) | _ | _
  · exact id
  · cases operation with
    | erase ref now => exact tame.elim
    | _ => exact id
  · exact id
  · exact id

/-- All deeds are tame, and the clock is never set back. -/
structure Orderly (shards : ShardConfig) (writer : Nat) (deeds : List Deed) : Prop where
  tame : ∀ deed ∈ deeds, deed.IsTame shards writer
  times : (deeds.filterMap Deed.time?).Pairwise (· ≤ ·)
  few : (deeds.map Deed.insertions).sum < UInt64.size

/-- Whatever the writer takes for known is backed, as of `now`. -/
structure Guarded (timeout : Micros) (writer : Nat) (now : Micros) (sc : Scene) : Prop where
  timed : sc.team.Timed timeout
  suits : ∀ a ∈ sc.handles, a.config.writerFlowTimeout < timeout
  backed : ∀ a, sc.handles[writer]? = some a → ∀ (flow : FlowId) (known : WriterFlow),
    a.writers[flow]? = some known → known.lastWrite ≤ now ∧
      Backed a.config.writerFlowTimeout sc.team sc.cat.items flow.keyed known.lastWrite now

namespace Guarded

variable {timeout now next : Micros} {writer : Nat} {sc : Scene}
  (guarded : Guarded timeout writer now sc)
include guarded

theorem later (le : now ≤ next) : Guarded timeout writer next sc := by
  refine ⟨guarded.timed, guarded.suits, fun a there flow known listed => ?_⟩
  obtain ⟨past, backed⟩ := guarded.backed a there flow known listed
  exact ⟨UInt64.le_trans past le, backed.later le⟩

theorem set {index : Nat} {a : Attachment} (there : sc.handles[index]? = some a) (a' : Attachment)
    (config : a'.config = a.config) {team : Team} (timed : team.Timed timeout) {cat : Catalog}
    (kept : ∀ shorter flow written, shorter < timeout → written ≤ now →
      Backed shorter sc.team sc.cat.items flow written now →
        Backed shorter team cat.items flow written now)
    (entries : ∀ (flow : FlowId) (known : WriterFlow), a'.writers[flow]? = some known →
      a.writers[flow]? = some known ∨ index = writer ∧ known.lastWrite ≤ now ∧
        Backed a.config.writerFlowTimeout team cat.items flow.keyed known.lastWrite now)
    (events : Array Event) : Guarded timeout writer now ⟨sc.handles.set index a', team, cat, events⟩ := by
  have inside := (List.getElem?_eq_some_iff.mp there).1
  have old : ∀ a, sc.handles[writer]? = some a → ∀ (flow : FlowId) (known : WriterFlow),
      a.writers[flow]? = some known → known.lastWrite ≤ now ∧
        Backed a.config.writerFlowTimeout team cat.items flow.keyed known.lastWrite now := by
    intro a there flow known listed
    obtain ⟨past, backed⟩ := guarded.backed a there flow known listed
    exact ⟨past, kept _ _ _ (guarded.suits a (List.mem_of_getElem? there)) past backed⟩
  refine ⟨timed, fun other listed => ?_, fun other found flow known listed => ?_⟩
  · rcases List.mem_or_eq_of_mem_set listed with before | rfl
    · exact guarded.suits other before
    · rw [config]
      exact guarded.suits a (List.mem_of_getElem? there)
  · by_cases same : index = writer
    · subst same
      rw [List.getElem?_set_self inside] at found
      obtain rfl := Option.some.inj found
      rw [config]
      rcases entries flow known listed with before | ⟨_, now⟩
      · exact old a there flow known before
      · exact now
    · rw [List.getElem?_set_ne same] at found
      exact old other found flow known listed

theorem operate {index : Nat} {a : Attachment} (there : sc.handles[index]? = some a)
    {operation : Operation} (no_put : ∀ segment now, operation ≠ .put segment now)
    (no_erase : ∀ ref now, operation ≠ .erase ref now) :
    Guarded timeout writer now ⟨sc.handles.set index (operation.effect a sc.cat).1, sc.team,
      (operation.effect a sc.cat).2, sc.events⟩ := by
  cases operation with
  | put segment now => exact absurd rfl (no_put segment now)
  | erase ref now => exact absurd rfl (no_erase ref now)
  | removeFlow flow =>
    refine guarded.set there _ (by rfl) guarded.timed (fun _ _ _ _ _ backed => backed)
      (fun other known listed => .inl ?_) _
    rw [Operation.effect] at listed
    dsimp only at listed
    rw [FlowId.getElem?_erase] at listed
    split at listed
    · cases listed
    · exact listed
  | sweep now =>
    refine guarded.set there _ (by rfl) guarded.timed (fun _ _ _ _ _ backed => backed.grow
      (stocked_swept _ now).mpr (marked_swept _ now).mpr) (fun other known listed => .inl ?_) _
    exact WriterFlows.mem_of_keepFresh listed
  | _ =>
    exact guarded.set there _ (by rfl) guarded.timed (fun _ _ _ _ _ backed => backed)
      (fun other known listed => .inl (by exact listed)) _

theorem attach {a : Attachment} (writers : a.writers = ∅)
    (suits : a.config.writerFlowTimeout < timeout) :
    Guarded timeout writer now { sc with handles := sc.handles ++ [a] } := by
  refine ⟨guarded.timed, fun other listed => ?_, fun other found flow known listed => ?_⟩
  · rcases List.mem_append.mp listed with before | new
    · exact guarded.suits other before
    · rw [List.mem_singleton.mp new]
      exact suits
  · rw [List.getElem?_append] at found
    split at found
    · exact guarded.backed other found flow known listed
    · obtain rfl := List.mem_singleton.mp (List.mem_of_getElem? found)
      rw [writers, Std.ExtTreeMap.getElem?_empty] at listed
      cases listed

theorem poll {index : Nat} {a : Attachment} (there : sc.handles[index]? = some a)
    (markers : List Stored) :
    Guarded timeout writer now ⟨sc.handles.set index (Shift.polled a now sc.cat),
      sc.team.polled now markers, sc.cat.swept a.config.blockIdleTimeout now, sc.events⟩ := by
  refine guarded.set there _ (by rfl) (guarded.timed.polled now markers) (fun _ _ _ _ past backed =>
    (backed.polled past markers).grow (stocked_swept _ now).mpr (marked_swept _ now).mpr)
    (fun other known listed => .inl ?_) _
  exact WriterFlows.mem_of_keepFresh listed

theorem known {a : Attachment} (there : sc.handles[writer]? = some a) {segment : Segment}
    (known : (Desk.known? a.config segment now ⟨a.writers, sc.cat⟩).isSome) :
    sc.team.Owns segment.key.flow ∨ Marked sc.cat.items segment.key.flow := by
  obtain ⟨noted, listed, fresh⟩ := Desk.known?_isSome.mp known
  have backed := (guarded.backed a there segment.flow noted listed).2
  rw [← segment.flow_key] at backed
  cases backed with
  | stale late =>
    rw [WriterFlow.isStale, decide_eq_false_iff_not] at fresh
    exact absurd late fresh
  | owned stands _ => exact .inl (Team.owns_iff.mpr ⟨_, _, stands⟩)
  | marked _ marked => exact .inr marked

end Guarded

namespace Tracks

variable {l : Layout} {s : Site} {sc sc' : Scene} {timeout now : Micros} {writer : Nat}
  (tracks : Tracks l s sc) (guarded : Guarded timeout writer now sc)
include tracks guarded

theorem guarded_drain {a : Attachment} {shard : Shard} {place : Nat}
    (manned : sc.team.shards[place]? = some shard) (events : Array Event) :
    Guarded timeout writer now ⟨sc.handles,
      { sc.team with
        shards := sc.team.shards.setIfInBounds place (shard.rounded (a.view now) sc.cat).1 },
      (shard.rounded (a.view now) sc.cat).2.1, events⟩ := by
  have waits := guarded.timed shard (Array.mem_of_getElem? manned)
  refine ⟨fun other listed => ?_, guarded.suits, fun other found flow known listed => ?_⟩
  · rcases Array.mem_or_eq_of_mem_setIfInBounds listed with before | rfl
    · exact guarded.timed other before
    · rw [Shard.rounded]
      dsimp only
      rw [Shard.flowTimeout_settleAll]
      exact waits
  · obtain ⟨past, backed⟩ := guarded.backed other found flow known listed
    refine ⟨past, Backed.drained (v := a.view now) tracks.separate tracks.ordered manned
      tracks.checked ?_ past backed⟩
    rw [waits]
    exact guarded.suits other (List.mem_of_getElem? found)

omit guarded in
theorem vain_iff {index : Nat} {segment : Segment} {now : Micros} :
    s.Vain (.move (.operate index (.put segment now))) ↔ ∃ a, sc.handles[index]? = some a ∧
      ((Desk.put a.layout a.config segment now ⟨a.writers, sc.cat⟩).1 = .empty ∨
        (Desk.put a.layout a.config segment now ⟨a.writers, sc.cat⟩).1 = .dropped) ∧
      (∃ writer, (Desk.put a.layout a.config segment now ⟨a.writers, sc.cat⟩).2.writers[segment.flow]? =
        some writer ∧ writer.lastWrite = now) ∧
      sc.team.Owns segment.key.flow ∧ ¬ Stocked sc.cat.items segment.key.flow := by
  constructor
  · rintro ⟨a, outcome, a', r', attached, ran, idle, noted, owned, none_stored⟩
    rw [tracks.handles] at attached
    obtain ⟨_, _, seen⟩ := tracks.attached attached
    obtain ⟨r₁, put, _⟩ := Attachment.put_run seen segment now
    rw [put] at ran
    cases ran
    rw [tracks.team] at owned
    rw [seen.itemsIn_eq] at none_stored
    exact ⟨a, attached, idle, noted, owned, none_stored⟩
  · rintro ⟨a, there, idle, noted, owned, none_stored⟩
    obtain ⟨attached, _, seen⟩ := tracks.attached there
    obtain ⟨r', put, _⟩ := Attachment.put_run seen segment now
    refine ⟨a, _, _, r', attached, put, idle, noted, ?_, ?_⟩
    · rw [tracks.team]
      exact owned
    · rw [seen.itemsIn_eq]
      exact none_stored

theorem guarded_put_of_stocked {a : Attachment} (there : sc.handles[writer]? = some a) {segment : Segment}
    (stocks : ∀ noted cat, Desk.announce? a.layout a.config segment now ⟨a.writers, sc.cat⟩ = some (noted, cat) →
      sc.team.Owns segment.key.flow → Stocked (Desk.put a.layout a.config segment now
        ⟨a.writers, sc.cat⟩).2.cat.items segment.key.flow) :
    Guarded timeout writer now (sc.effect (.move (.operate writer (.put segment now)))) := by
  have fit := tracks.desk there
  simp only [Scene.effect, there]
  refine guarded.set there _ (by rfl) guarded.timed
    (fun _ _ _ _ _ backed => backed.grow fit.put_stocked fit.put_marked)
    (fun other known listed => ?_) _
  cases found : Desk.announce? a.layout a.config segment now ⟨a.writers, sc.cat⟩ with
  | none =>
    rw [Operation.effect, Desk.put_of_unannounced found] at listed
    exact .inl listed
  | some pair =>
    obtain ⟨noted, time, writers⟩ := Desk.put_noted found
    rw [Operation.effect] at listed
    dsimp only at listed
    rw [writers, FlowId.getElem?_insert] at listed
    split at listed
    · next same =>
      obtain rfl := Option.some.inj listed
      subst same
      refine .inr ⟨rfl, UInt64.le_of_eq time, ?_⟩
      rw [← Segment.flow_key]
      by_cases owned : sc.team.Owns segment.key.flow
      · obtain ⟨place, position, stands⟩ := Team.owns_iff.mp owned
        exact .owned stands (.inr (stocks _ _ found owned))
      · refine .marked owned (fit.put_marked_own found fun known => ?_)
        exact (guarded.known there known).resolve_left owned
    · exact .inl listed

theorem guarded_put {a : Attachment} (there : sc.handles[writer]? = some a) {segment : Segment}
    (purposeful : ¬ s.Vain (.move (.operate writer (.put segment now)))) :
    Guarded timeout writer now (sc.effect (.move (.operate writer (.put segment now)))) := by
  have fit := tracks.desk there
  refine tracks.guarded_put_of_stocked guarded there fun _ _ found owned => ?_
  by_contra none_stored
  -- otherwise the put stored nothing, and there was nothing before it
  have idle : (Desk.put a.layout a.config segment now ⟨a.writers, sc.cat⟩).1 = .empty ∨
      (Desk.put a.layout a.config segment now ⟨a.writers, sc.cat⟩).1 = .dropped := by
    by_contra busy
    rw [not_or] at busy
    exact none_stored (fit.put_stocked_own busy.1 busy.2)
  obtain ⟨noted, time, writers⟩ := Desk.put_noted found
  refine purposeful (tracks.vain_iff.mpr ⟨a, there, idle, ⟨noted, ?_, time⟩, owned, ?_⟩)
  · rw [writers, FlowId.getElem?_insert, if_pos rfl]
  · exact fun before => none_stored (fit.put_stocked before)

theorem guarded_step {shards : ShardConfig} (ends : shards.flowTimeout = timeout) {deed : Deed}
    (tame : deed.IsTame shards writer) (future : ∀ time, deed.time? = some time → now ≤ time)
    (purposeful : ¬ s.Vain deed) (turns : sc.Turns deed sc') :
    Guarded timeout writer (deed.time?.getD now) sc' := by
  have later : Guarded timeout writer (deed.time?.getD now) sc := by
    cases looks : deed.time? with
    | none => exact guarded
    | some time => exact guarded.later (future time looks)
  cases turns with
  | @attach handle config a writers same =>
    refine later.attach writers ?_
    rw [same, ← ends]
    exact ShardConfig.suits_iff.mp tame
  | effect _ =>
    rcases deed with (_ | ⟨index, operation⟩) | ⟨index, time⟩ | ⟨index, place, time⟩
    · exact later
    · cases there : sc.handles[index]? with
      | none =>
        rw [Scene.effect, there]
        exact later
      | some a =>
        cases operation with
        | put segment time =>
          obtain rfl : index = writer := tame
          exact tracks.guarded_put later there purposeful
        | erase ref time => exact tame.elim
        | _ =>
          simp only [Scene.effect, there]
          exact later.operate there (fun _ _ same => by cases same)
            (fun _ _ same => by cases same)
    · rw [Scene.effect]
      split
      · exact later
      · next there =>
        split
        · exact later
        · exact later.poll there _
    · rw [Scene.effect]
      split
      · next manned => exact tracks.guarded_drain later manned _
      · exact later

theorem not_strays {shards : ShardConfig} {deed : Deed} (tame : deed.IsTame shards writer)
    (future : ∀ time, deed.time? = some time → now ≤ time) : ¬ s.Strays deed := by
  rcases deed with (_ | ⟨index, operation⟩) | _ | _
  · exact id
  · cases operation with
    | put segment time =>
      obtain rfl : index = writer := tame
      intro strays
      obtain ⟨a, there, _, known, unowned, unmarked⟩ := tracks.strays_iff.mp strays
      exact ((guarded.later (future time rfl)).known there known).elim unowned unmarked
    | _ => exact id
  · exact id
  · exact id

end Tracks

namespace Carrying

variable {l : Layout} {s : Site} {sc : Scene} {timeout now : Micros} {writer : Nat}
  (carrying : Carrying l s sc) (guarded : Guarded timeout writer now sc)
include carrying guarded

theorem not_strays_of_run {shards : ShardConfig} (ends : shards.flowTimeout = timeout)
    {deeds : List Deed} (tame : ∀ deed ∈ deeds, deed.IsTame shards writer)
    (times : (now :: deeds.filterMap Deed.time?).Pairwise (· ≤ ·))
    (few : sc.cat.nextGeneration.toNat + (deeds.map Deed.insertions).sum < UInt64.size)
    (purposeful : ∀ count deed, deeds[count]? = some deed → ¬ (s.run (deeds.take count)).Vain deed)
    (count : Nat) (deed : Deed) (listed : deeds[count]? = some deed) :
    ¬ (s.run (deeds.take count)).Strays deed := by
  induction deeds generalizing s sc now count with
  | nil => cases listed
  | cons first rest ih =>
    have tame₀ := tame first List.mem_cons_self
    rw [List.map_cons, List.sum_cons] at few
    have future : ∀ time, first.time? = some time → now ≤ time := fun time looks =>
      Deed.time_le times looks
    cases count with
    | zero =>
      obtain rfl := Option.some.inj listed
      exact carrying.not_strays guarded tame₀ future
    | succ count =>
      obtain ⟨sc', turns, after, used⟩ := carrying.step first (by omega)
      exact ih after (carrying.guarded_step guarded ends tame₀ future (purposeful 0 first rfl) turns)
        (fun deed later => tame deed (List.mem_cons_of_mem _ later)) (Deed.times_rest times) (by omega)
        (fun count => purposeful (count + 1)) count listed

omit guarded in
theorem strays (shelters : sc.team.Shelters sc.cat.items) {deed : Deed}
    (last : sc.cat.nextGeneration.toNat + deed.insertions < UInt64.size) (strays : s.Strays deed) :
    ¬ (s.step deed).IsSheltered := by
  rcases deed with (_ | ⟨index, operation⟩) | _ | _
  · exact strays.elim
  · cases operation with
    | put segment now =>
      have after := carrying.operate index (.put segment now) last
      intro sheltered
      obtain ⟨a, there, _⟩ := carrying.strays_iff.mp strays
      have stays : ((Operation.put segment now).effect a sc.cat).1 ∈
          (sc.effect (.move (.operate index (.put segment now)))).handles := by
        simp only [Scene.effect, there]
        exact List.mem_set (List.getElem?_eq_some_iff.mp there).1 _
      rw [after.isSheltered_iff (List.ne_nil_of_mem stays)] at sheltered
      exact (carrying.shelters_put shelters).mp sheltered strays
    | _ => exact strays.elim
  · exact strays.elim
  · exact strays.elim

omit guarded in
theorem isSheltered_iff_of_run (shelters : sc.team.Shelters sc.cat.items) {deeds : List Deed}
    (tidy : ∀ deed ∈ deeds, ¬ deed.IsErasure)
    (few : sc.cat.nextGeneration.toNat + (deeds.map Deed.insertions).sum < UInt64.size) :
    (∀ count, (s.run (deeds.take count)).IsSheltered) ↔
      ∀ count deed, deeds[count]? = some deed → ¬ (s.run (deeds.take count)).Strays deed := by
  refine good_throughout_iff (fun s deeds => ∃ sc, Carrying l s sc ∧ sc.team.Shelters sc.cat.items ∧
    (∀ deed ∈ deeds, ¬ deed.IsErasure) ∧
    sc.cat.nextGeneration.toNat + (deeds.map Deed.insertions).sum < UInt64.size) ?_ ?_ ?_
    ⟨sc, carrying, shelters, tidy, few⟩
  · rintro s _ ⟨sc, carrying, shelters, _⟩
    exact carrying.isSheltered shelters
  · rintro s deed rest ⟨sc, carrying, shelters, _, few⟩ strays
    rw [List.map_cons, List.sum_cons] at few
    exact carrying.strays shelters (by omega) strays
  · rintro s deed rest ⟨sc, carrying, shelters, tidy, few⟩ clean
    rw [List.map_cons, List.sum_cons] at few
    obtain ⟨sc', turns, after, used⟩ := carrying.step deed (by omega)
    exact ⟨sc', after, carrying.shelters_step shelters (tidy deed List.mem_cons_self) clean turns,
      fun deed listed => tidy deed (List.mem_cons_of_mem _ listed), by omega⟩

end Carrying

variable {config : StoreConfig} {shards : ShardConfig} {start : Site} {writer : Nat} {deeds : List Deed}

theorem guarded_opening {a : Attachment} {team : Team} (timed : Team.start shards config = .ok team)
    (own : a.config = config) (writers : a.writers = ∅) :
    Guarded shards.flowTimeout writer 0 (.opening a team) := by
  have started := Team.start_ok timed
  refine ⟨started.2.2.1, fun other listed => ?_, fun other found flow known listed => ?_⟩
  · rw [List.mem_singleton.mp listed, own]
    exact started.1
  · obtain rfl := List.mem_singleton.mp (List.mem_of_getElem? found)
    rw [writers, Std.ExtTreeMap.getElem?_empty] at listed
    cases listed

/-- Empty segments keep a writer from forgetting a flow that its shard drops meanwhile. The bytes that
follow are left behind. -/
def heartbeat : List Deed := [
  .move (.operate 0 (.put ⟨⟨7⟩, .source, ⟨100⟩, Bytes.zeros 10⟩ 1000000)),
  .poll 0 1200000,
  .drain 0 0 1400000,
  .move (.operate 0 (.put ⟨⟨7⟩, .source, ⟨110⟩, Bytes.zeros 0⟩ 5400000)),
  .move (.operate 0 (.put ⟨⟨7⟩, .source, ⟨110⟩, Bytes.zeros 0⟩ 9400000)),
  .drain 0 0 13400000,
  .move (.operate 0 (.put ⟨⟨7⟩, .source, ⟨110⟩, Bytes.zeros 5⟩ 13400000))]

theorem orderly_heartbeat : Orderly { handlerCount := 1 } 0 heartbeat := by
  refine ⟨fun deed listed => ?_, by decide, by decide⟩
  simp only [heartbeat, List.mem_cons, List.not_mem_nil, or_false] at listed
  rcases listed with rfl | rfl | rfl | rfl | rfl | rfl | rfl
  all_goals simp [Deed.IsTame]

theorem exists_heartbeat : ∃ start : Site,
    start.Fresh { blockCapacity := 64, maxBlocks := 8 } { handlerCount := 1 } ∧
      Team.start { handlerCount := 1 } { blockCapacity := 64, maxBlocks := 8 } = .ok start.team ∧
      ¬ (start.run heartbeat).IsSheltered := by
  obtain ⟨start, fresh, carrying⟩ := @Site.Fresh.of_config { blockCapacity := 64, maxBlocks := 8 }
    { handlerCount := 1 } _ _ rfl rfl rfl
  have after := @Site.Carrying.effects _ _ _ carrying heartbeat (by simp [heartbeat]) (by decide)
  refine ⟨start, fresh, by rw [carrying.team]; rfl, ?_⟩
  rw [after.isSheltered_iff (by decide +kernel)]
  decide +kernel

theorem not_isSheltered_of_orderly : ¬ ∀ (config : StoreConfig) (shards : ShardConfig) (start : Site)
    (writer : Nat) (deeds : List Deed), start.Fresh config shards →
      Team.start shards config = .ok start.team → Orderly shards writer deeds →
        (start.run deeds).IsSheltered := by
  intro all
  obtain ⟨start, fresh, timed, left⟩ := exists_heartbeat
  exact left (all _ _ start 0 heartbeat fresh timed orderly_heartbeat)

/-- From the formatting on, all payload blocks stay sheltered just as long as no put strays; and no put
does, unless one before it was in vain. -/
theorem Fresh.isSheltered_iff_no_stray (fresh : start.Fresh config shards)
    (timed : Team.start shards config = .ok start.team) (orderly : Orderly shards writer deeds) :
    ((∀ count, (start.run (deeds.take count)).IsSheltered) ↔
      ∀ count deed, deeds[count]? = some deed → ¬ (start.run (deeds.take count)).Strays deed) ∧
    ((∀ count deed, deeds[count]? = some deed → ¬ (start.run (deeds.take count)).Vain deed) →
      ∀ count, (start.run (deeds.take count)).IsSheltered) := by
  obtain ⟨a, own, writers, carrying⟩ := fresh.carrying
  have tidy : ∀ deed ∈ deeds, ¬ deed.IsErasure :=
    fun deed listed => (orderly.tame deed listed).not_isErasure
  have few : (Scene.opening a start.team).cat.nextGeneration.toNat +
      (deeds.map Deed.insertions).sum < UInt64.size := by
    rw [show (Scene.opening a start.team).cat.nextGeneration.toNat = 0 from rfl, Nat.zero_add]
    exact orderly.few
  have sheltered := carrying.isSheltered_iff_of_run (fun _ none => by cases none) tidy few
  refine ⟨sheltered, fun purposeful => sheltered.mpr ?_⟩
  refine carrying.not_strays_of_run (guarded_opening timed own writers) rfl orderly.tame ?_ few purposeful
  exact List.pairwise_cons.mpr ⟨fun time _ => UInt64.zero_le, orderly.times⟩

/-- One of the puts of `heartbeat` strays. -/
theorem strays_heartbeat : ∃ start : Site,
    start.Fresh { blockCapacity := 64, maxBlocks := 8 } { handlerCount := 1 } ∧
      Team.start { handlerCount := 1 } { blockCapacity := 64, maxBlocks := 8 } = .ok start.team ∧
      Orderly { handlerCount := 1 } 0 heartbeat ∧ ∃ count deed, heartbeat[count]? = some deed ∧
        (start.run (heartbeat.take count)).Strays deed := by
  obtain ⟨start, fresh, timed, left⟩ := exists_heartbeat
  refine ⟨start, fresh, timed, orderly_heartbeat, ?_⟩
  by_contra clean
  refine left ((fresh.isSheltered_iff_no_stray timed orderly_heartbeat).1.mpr
    (fun count deed listed strays => ?_) 7)
  exact clean ⟨count, deed, listed, strays⟩

end Site

end Reassembly
