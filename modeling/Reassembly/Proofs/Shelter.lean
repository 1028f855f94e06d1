import Reassembly.Proofs.Outcomes
import Reassembly.Proofs.Site

/-!
Blocks that will be drained. A payload block is sheltered if a shard owns its flow, or if a marker in the
store still announces it. Sweeps, polls and rounds keep all blocks sheltered: a round gives up a flow only
when no payload block of it is left. Of the puts only one does not, that stores bytes of a flow which the
handle takes for known though nobody owns it and no marker announces it.
-/

namespace Reassembly

open Store Reading Delivery Writing

namespace Store

def Stocked (items : List Item) (flow : FlowId) : Prop :=
  ∃ item ∈ items, item.isPayload = true ∧ item.key.flow = flow

def Marked (items : List Item) (flow : FlowId) : Prop :=
  ∃ item ∈ items, item.header.kind = .startFlow ∧ item.key.flow = flow

instance (items : List Item) (flow : FlowId) : Decidable (Marked items flow) :=
  inferInstanceAs (Decidable (∃ item ∈ items, item.header.kind = .startFlow ∧ item.key.flow = flow))

theorem Item.isPayload_of_marker {item : Item} (kind : item.header.kind = .startFlow) :
    item.isPayload = false := by
  rw [Item.isPayload, kind]
  rfl

theorem Item.kind_swept (idle now : Micros) (item : Item) :
    (item.swept idle now).header.kind = item.header.kind := by
  rw [Item.swept]
  split
  · rfl
  · rfl

variable {cat : Catalog} {flow : FlowId}

theorem marked_swept (idle now : Micros) :
    Marked (cat.swept idle now).items flow ↔ Marked cat.items flow := by
  simp only [Marked, Catalog.swept, List.mem_map, exists_exists_and_eq_and, Item.kind_swept, Item.key,
    Item.entry_swept]

theorem stocked_swept (idle now : Micros) :
    Stocked (cat.swept idle now).items flow ↔ Stocked cat.items flow := by
  simp only [Stocked, Catalog.swept, List.mem_map, exists_exists_and_eq_and, Item.isPayload, Item.kind_swept, Item.key,
    Item.entry_swept]

end Store

namespace Writing.Desk

variable {l : Layout} {config : StoreConfig} {segment : Segment} {now : Micros} {d : Desk}

theorem known?_isSome : (d.known? config segment now).isSome ↔
    ∃ writer, d.writers[segment.flow]? = some writer ∧
      writer.isStale now config.writerFlowTimeout = false := by
  simp only [known?, Option.isSome_iff_exists, Option.filter_eq_some_iff, Bool.not_eq_true']

theorem Fit.put_marked_iff {writer : WriterFlow} {cat : Catalog} (fit : d.Fit l)
    (found : d.announce? l config segment now = some (writer, cat)) (flow : FlowId) :
    Marked (d.put l config segment now).2.cat.items flow ↔ Marked cat.items flow := by
  obtain ⟨count, _, edits⟩ := fit.put_edits found
  constructor
  · rintro ⟨item, member, kind, here⟩
    exact ⟨item, (edits.mem_iff (Item.isPayload_of_marker kind)).mp member, kind, here⟩
  · rintro ⟨item, member, kind, here⟩
    exact ⟨item, (edits.mem_iff (Item.isPayload_of_marker kind)).mpr member, kind, here⟩

theorem Announces.kept {writer : WriterFlow} {cat : Catalog}
    (announces : Announces l config segment now d writer cat) {flow : FlowId}
    (before : Marked d.cat.items flow) : Marked cat.items flow := by
  cases announces with
  | known _ => exact before
  | anew _ _ =>
    obtain ⟨item, member, kind, here⟩ := before
    exact ⟨item, Catalog.mem_file.mpr (.inr member), kind, here⟩

theorem Fit.put_marked (fit : d.Fit l) {flow : FlowId} (before : Marked d.cat.items flow) :
    Marked (d.put l config segment now).2.cat.items flow := by
  cases found : d.announce? l config segment now with
  | none =>
    rw [put_of_unannounced found]
    exact before
  | some pair => exact (fit.put_marked_iff found flow).mpr ((announces_of found).kept before)

theorem Fit.put_anew (fit : d.Fit l) {writer : WriterFlow} {cat : Catalog}
    (found : d.announce? l config segment now = some (writer, cat))
    (unknown : d.known? config segment now = none) :
    Marked (d.put l config segment now).2.cat.items segment.key.flow := by
  refine (fit.put_marked_iff found _).mpr ?_
  cases announces_of found with
  | known known =>
    rw [known] at unknown
    cases unknown
  | anew _ _ => exact ⟨_, Catalog.mem_file.mpr (.inl rfl), rfl, rfl⟩

theorem Fit.put_marked_own (fit : d.Fit l) {writer : WriterFlow} {cat : Catalog}
    (found : d.announce? l config segment now = some (writer, cat))
    (known : (d.known? config segment now).isSome → Marked d.cat.items segment.key.flow) :
    Marked (d.put l config segment now).2.cat.items segment.key.flow := by
  cases unknown : d.known? config segment now with
  | none => exact fit.put_anew found unknown
  | some _ => exact fit.put_marked (known (by rw [unknown]; rfl))

theorem Fit.marked_of_put (fit : d.Fit l) {flow : FlowId}
    (after : Marked (d.put l config segment now).2.cat.items flow) :
    Marked d.cat.items flow ∨ flow = segment.key.flow := by
  cases found : d.announce? l config segment now with
  | none =>
    rw [put_of_unannounced found] at after
    exact .inl after
  | some pair =>
    obtain ⟨writer, cat⟩ := pair
    rw [fit.put_marked_iff found] at after
    cases announces_of found with
    | known _ => exact .inl after
    | anew _ _ =>
      obtain ⟨item, member, kind, here⟩ := after
      rcases Catalog.mem_file.mp member with rfl | old
      · exact .inr here.symm
      · exact .inl ⟨item, old, kind, here⟩

theorem Fit.put_stocked (fit : d.Fit l) {flow : FlowId} (before : Stocked d.cat.items flow) :
    Stocked (d.put l config segment now).2.cat.items flow := by
  obtain ⟨_, gains⟩ := fit.put_spec
  obtain ⟨item, member, stream, here⟩ := before
  obtain ⟨new, there, entry, payload⟩ := gains.grows.payload_kept member stream
  exact ⟨new, there, payload, by rw [Item.key, entry]; exact here⟩

theorem Fit.stocked_of_put (fit : d.Fit l) {flow : FlowId}
    (after : Stocked (d.put l config segment now).2.cat.items flow) :
    Stocked d.cat.items flow ∨ flow = segment.key.flow := by
  obtain ⟨_, gains⟩ := fit.put_spec
  obtain ⟨item, member, stream, here⟩ := after
  rcases gains.grows.known item member with ⟨old, origin, ext⟩ | ⟨_, lane, _⟩
  · refine .inl ⟨old, origin, ext.kind.symm.trans stream, ?_⟩
    rw [← here]
    exact congrArg (fun entry : Entry => entry.ref.key.flow) ext.entry.symm
  · exact .inr (here.symm.trans ((FlowKey.lane_eq_iff _ _).mp lane).1)

theorem Fit.put_stocked_own (fit : d.Fit l) (some_bytes : (d.put l config segment now).1 ≠ .empty)
    (kept : (d.put l config segment now).1 ≠ .dropped) :
    Stocked (d.put l config segment now).2.cat.items segment.key.flow := by
  obtain ⟨item, member, lane, stream⟩ := fit.put_there some_bytes kept
  exact ⟨item, member, stream, ((FlowKey.lane_eq_iff _ _).mp lane).1⟩

end Writing.Desk

/-- Every payload block is of a flow that a shard owns or a marker announces. -/
def Delivery.Team.Shelters (t : Team) (items : List Item) : Prop :=
  ∀ item ∈ items, item.isPayload = true → t.Owns item.key.flow ∨ Marked items item.key.flow

instance (t : Team) (items : List Item) : Decidable (t.Shelters items) :=
  inferInstanceAs (Decidable (∀ item ∈ items, item.isPayload = true →
    t.Owns item.key.flow ∨ Marked items item.key.flow))

theorem Delivery.Team.shelters_iff {t : Team} {items : List Item} :
    t.Shelters items ↔ ∀ flow, Stocked items flow → t.Owns flow ∨ Marked items flow := by
  constructor
  · rintro shelters _ ⟨item, member, stream, rfl⟩
    exact shelters item member stream
  · exact fun all item member stream => all _ ⟨item, member, stream, rfl⟩

namespace Site

/-- As every handle sees the region, every payload block is sheltered. -/
def IsSheltered (s : Site) : Prop :=
  ∀ a ∈ s.commons.handles, s.team.Shelters (Catalog.itemsIn a.layout s.commons.bytes)

/-- The deed is a put that stores bytes of a flow which its handle takes for known, though no shard owns
the flow and no marker announces it. -/
def Strays (s : Site) : Deed → Prop
  | .move (.operate index (.put segment now)) =>
    ∃ a outcome a' r', s.commons.handles[index]? = some a ∧
      Attachment.put segment now (a, ⟨a.handle, s.commons.bytes⟩) = .ok outcome (a', r') ∧
      outcome.stored = true ∧
      (∃ writer, a.writers[segment.flow]? = some writer ∧
        writer.isStale now a.config.writerFlowTimeout = false) ∧
      ¬ s.team.Owns segment.key.flow ∧
      ¬ Marked (Catalog.itemsIn a.layout s.commons.bytes) segment.key.flow
  | _ => False

def Deed.IsErasure : Deed → Prop
  | .move (.operate _ (.erase _ _)) => True
  | _ => False

namespace Tracks

variable {l : Layout} {s : Site} {sc sc' : Scene} (tracks : Tracks l s sc)
include tracks

theorem isSheltered (shelters : sc.team.Shelters sc.cat.items) : s.IsSheltered := by
  intro a attached
  rw [(tracks.commons.seen attached).itemsIn_eq, tracks.team]
  exact shelters

theorem isSheltered_iff (manned : sc.handles ≠ []) :
    s.IsSheltered ↔ sc.team.Shelters sc.cat.items := by
  refine ⟨fun sheltered => ?_, tracks.isSheltered⟩
  obtain ⟨a, there⟩ := List.exists_mem_of_ne_nil _ manned
  rw [← tracks.handles] at there
  have seen := sheltered a there
  rwa [(tracks.commons.seen there).itemsIn_eq, tracks.team] at seen

theorem desk {index : Nat} {a : Attachment} (there : sc.handles[index]? = some a) :
    (⟨a.writers, sc.cat⟩ : Desk).Fit a.layout := by
  obtain ⟨attached, rfl, seen⟩ := tracks.attached there
  exact ⟨seen.ordered, tracks.commons.sound,
    (tracks.commons.tidy a (List.mem_of_getElem? attached)).aimed⟩

theorem strays_iff {index : Nat} {segment : Segment} {now : Micros} :
    s.Strays (.move (.operate index (.put segment now))) ↔ ∃ a, sc.handles[index]? = some a ∧
      (Desk.put a.layout a.config segment now ⟨a.writers, sc.cat⟩).1.stored = true ∧
      (Desk.known? a.config segment now ⟨a.writers, sc.cat⟩).isSome ∧
      ¬ sc.team.Owns segment.key.flow ∧ ¬ Marked sc.cat.items segment.key.flow := by
  constructor
  · rintro ⟨a, outcome, a', r', attached, ran, stored, known, unowned, unmarked⟩
    rw [tracks.handles] at attached
    obtain ⟨_, _, seen⟩ := tracks.attached attached
    obtain ⟨r₁, put, _⟩ := Attachment.put_run seen segment now
    rw [put] at ran
    cases ran
    rw [tracks.team] at unowned
    rw [seen.itemsIn_eq] at unmarked
    exact ⟨a, attached, stored, Desk.known?_isSome.mpr known, unowned, unmarked⟩
  · rintro ⟨a, there, stored, known, unowned, unmarked⟩
    obtain ⟨attached, _, seen⟩ := tracks.attached there
    obtain ⟨r', put, _⟩ := Attachment.put_run seen segment now
    refine ⟨a, _, _, r', attached, put, stored, Desk.known?_isSome.mp known, ?_, ?_⟩
    · rw [tracks.team]
      exact unowned
    · rw [seen.itemsIn_eq]
      exact unmarked

theorem shelters_put (shelters : sc.team.Shelters sc.cat.items) {index : Nat} {segment : Segment}
    {now : Micros} : (sc.effect (.move (.operate index (.put segment now)))).team.Shelters
        (sc.effect (.move (.operate index (.put segment now)))).cat.items ↔
      ¬ s.Strays (.move (.operate index (.put segment now))) := by
  rw [tracks.strays_iff, Scene.effect]
  cases there : sc.handles[index]? with
  | none => exact iff_of_true shelters fun strays => absurd strays.choose_spec.1.symm (Option.some_ne_none _)
  | some a =>
    have fit := tracks.desk there
    have shelters := Team.shelters_iff.mp shelters
    dsimp only
    rw [Team.shelters_iff]
    constructor
    · rintro after ⟨a', same, stored, known, unowned, unmarked⟩
      obtain rfl := Option.some.inj same
      obtain ⟨writer, known⟩ := Option.isSome_iff_exists.mp known
      have found : Desk.announce? a.layout a.config segment now ⟨a.writers, sc.cat⟩ =
          some (writer, sc.cat) := by
        rw [Desk.announce?, known]
      have stocked := fit.put_stocked_own
        (fun empty => by rw [empty] at stored; cases stored)
        (fun dropped => by rw [dropped] at stored; cases stored)
      refine (after _ stocked).elim unowned fun marked => unmarked ?_
      exact (fit.put_marked_iff found _).mp marked
    · intro clean flow stocked
      by_cases before : Stocked sc.cat.items flow
      · exact (shelters flow before).imp id fit.put_marked
      · obtain rfl := (fit.stocked_of_put stocked).resolve_left before
        have stored : (Desk.put a.layout a.config segment now ⟨a.writers, sc.cat⟩).1.stored = true := by
          by_contra unstored
          obtain ⟨item, member, stream, here⟩ := stocked
          obtain ⟨old, known, entry, payload⟩ :=
            fit.put_unstored (Bool.not_eq_true _ ▸ unstored) item member stream
          refine before ⟨old, known, payload, ?_⟩
          rw [← here]
          exact congrArg (fun entry : Entry => entry.ref.key.flow) entry
        cases known : Desk.known? a.config segment now ⟨a.writers, sc.cat⟩ with
        | some writer =>
          by_contra neither
          rw [not_or] at neither
          refine clean ⟨a, rfl, stored, by rw [known]; rfl, neither.1, fun marked => ?_⟩
          exact neither.2 (fit.put_marked marked)
        | none =>
          cases found : Desk.announce? a.layout a.config segment now ⟨a.writers, sc.cat⟩ with
          | none =>
            rw [Desk.put_of_unannounced found] at stored
            cases stored
          | some pair => exact .inr (fit.put_anew found known)

omit tracks in
theorem shelters_sweep (shelters : sc.team.Shelters sc.cat.items) {team : Team}
    (owned : ∀ flow, sc.team.Owns flow → team.Owns flow) (idle now : Micros) :
    team.Shelters (sc.cat.swept idle now).items := by
  refine Team.shelters_iff.mpr fun flow stocked => ?_
  exact (Team.shelters_iff.mp shelters flow ((stocked_swept idle now).mp stocked)).imp (owned flow)
    (marked_swept idle now).mpr

theorem shelters_drain (shelters : sc.team.Shelters sc.cat.items) {a : Attachment} {shard : Shard}
    {place : Nat} (manned : sc.team.shards[place]? = some shard) (now : Micros) :
    ({ sc.team with
        shards := sc.team.shards.setIfInBounds place (shard.rounded (a.view now) sc.cat).1 } :
      Team).Shelters (shard.rounded (a.view now) sc.cat).2.1.items := by
  have checked := tracks.shard_checked manned
  have positions := Team.position?_rounded (v := a.view now) tracks.separate tracks.ordered manned
    tracks.checked
  have known := Team.position?_manned manned
  intro item left stream
  obtain ⟨member, stays⟩ := (Shard.mem_rounded checked tracks.separate tracks.ordered).mp left
  cases stands : shard.flows[item.key.flow]? with
  | some position =>
    left
    have here := positions place item.key.flow
    rw [if_pos rfl, known, stands, Option.bind_some] at here
    cases fate : (fated (a.view now) shard.flowTimeout sc.cat (item.key.flow, position)).position with
    | some after => exact Team.owns_iff.mpr ⟨place, after, here.trans fate⟩
    | none =>
      have empty := (fateOf_none tracks.separate item.key.flow_checked fate).1 item member rfl
      rw [stream] at empty
      cases empty
  | none =>
    rcases shelters item member stream with owned | ⟨marker, there, kind, same⟩
    · obtain ⟨index, position, other⟩ := Team.owns_iff.mp owned
      have elsewhere : place ≠ index := by
        rintro rfl
        rw [known, stands] at other
        cases other
      refine .inl (Team.owns_iff.mpr ⟨index, position, ?_⟩)
      rw [positions, if_neg elsewhere]
      exact other
    · refine .inr ⟨marker, ?_, kind, same⟩
      refine (Shard.mem_rounded checked tracks.separate tracks.ordered).mpr
        ⟨there, fun position claimed => ?_⟩
      rw [same, stands] at claimed
      cases claimed

theorem shelters_step (shelters : sc.team.Shelters sc.cat.items) {deed : Deed}
    (tidy : ¬ deed.IsErasure) (clean : ¬ s.Strays deed) (turns : sc.Turns deed sc') :
    sc'.team.Shelters sc'.cat.items := by
  cases turns with
  | attach _ _ => exact shelters
  | effect _ =>
    rcases deed with (_ | ⟨index, operation⟩) | ⟨index, now⟩ | ⟨index, place, now⟩
    · exact shelters
    · cases operation with
      | put segment now => exact (tracks.shelters_put shelters).mpr clean
      | erase ref now => exact absurd trivial tidy
      | sweep now =>
        rw [Scene.effect]
        split
        · exact shelters
        · exact shelters_sweep shelters (fun _ owned => owned) _ now
      | _ =>
        rw [Scene.effect]
        split
        · exact shelters
        · exact shelters
    · rw [Scene.effect]
      split
      · exact shelters
      · split
        · exact shelters
        · refine shelters_sweep shelters (fun flow owned => ?_) _ now
          obtain ⟨index, position, known⟩ := Team.owns_iff.mp owned
          exact Team.owns_iff.mpr ⟨index, position, Team.polled_kept known now _⟩
    · rw [Scene.effect]
      split
      · next manned => exact tracks.shelters_drain shelters manned now
      · exact shelters

end Tracks

end Site

end Reassembly
