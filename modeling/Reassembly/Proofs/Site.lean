import Reassembly.Proofs.Commons
import Reassembly.Proofs.Fates

/-!
A site: a region, the handles attached to it, and the team that drains it through them. Beside it stands
the scene, what the handles and the team know and the catalog of the region. Each deed at the site has
its effect on the scene, as long as the numbers of the insertions last, and no deed fails.
-/

namespace Reassembly

open Store Reading Delivery

/-- A region with its handles, the team that drains it, and what the reader was told. -/
structure Site where
  commons : Commons
  team : Team
  events : Array Event

def Operation.time? : Operation → Option Micros
  | .put _ now | .sweep now | .nextMarker now | .firstFrom _ now | .next _ now | .erase _ now => some now
  | .removeFlow _ | .occupancy => none

namespace Site

/-- What happens at a site: a handle does something, the router polls, or a shard has its round. -/
inductive Deed where
  | move (move : Commons.Move)
  | poll (index : Nat) (now : Micros)
  | drain (index shard : Nat) (now : Micros)

/-- The most blocks that a deed stores: one for each byte, and a marker. -/
def Deed.insertions : Deed → Nat
  | .move (.operate _ (.put segment _)) => segment.payload.size + 1
  | _ => 0

def Deed.time? : Deed → Option Micros
  | .move (.attach _ _) => none
  | .move (.operate _ operation) => operation.time?
  | .poll _ now | .drain _ _ now => some now

section Times
variable {now time : Micros} {first : Deed} {rest : List Deed}

theorem Deed.time_le (times : (now :: (first :: rest).filterMap Deed.time?).Pairwise (· ≤ ·))
    (looks : first.time? = some time) : now ≤ time := by
  refine List.rel_of_pairwise_cons times ?_
  rw [List.filterMap_cons_some looks]
  exact List.mem_cons_self

theorem Deed.times_rest (times : (now :: (first :: rest).filterMap Deed.time?).Pairwise (· ≤ ·)) :
    (first.time?.getD now :: rest.filterMap Deed.time?).Pairwise (· ≤ ·) := by
  cases looks : first.time? with
  | none =>
    rw [List.filterMap_cons_none looks] at times
    exact times
  | some time =>
    rw [List.filterMap_cons_some looks] at times
    exact (List.pairwise_cons.mp times).2

theorem Deed.mem_times (later : time ∈ first.time?.getD now :: rest.filterMap Deed.time?) :
    time ∈ now :: (first :: rest).filterMap Deed.time? := by
  cases looks : first.time? with
  | none =>
    rw [looks] at later
    rwa [List.filterMap_cons_none looks]
  | some time =>
    rw [looks] at later
    rw [List.filterMap_cons_some looks]
    exact List.mem_cons_of_mem _ later

theorem Deed.times_subset : rest.filterMap Deed.time? ⊆ (first :: rest).filterMap Deed.time? :=
  ((List.sublist_cons_self first rest).filterMap Deed.time?).subset

end Times

def after (s : Site) (index : Nat) (shift : Shift) : Site :=
  ⟨⟨shift.region.bytes, s.commons.handles.set index shift.attachment⟩, shift.team, shift.events⟩

/-- Work of the team through the handle at an index. What it changed before a fault stays changed. -/
def onShift {α : Type} (s : Site) (index : Nat) (work : Work Shift α) : Site :=
  match s.commons.handles[index]? with
  | none => s
  | some a =>
    match work ⟨s.team, a, ⟨a.handle, s.commons.bytes⟩, s.events⟩ with
    | .ok _ shift => s.after index shift
    | .error _ shift => s.after index shift

def step (s : Site) : Deed → Site
  | .move move => { s with commons := s.commons.step move }
  | .poll index now => s.onShift index (Shift.poll now)
  | .drain index shard now => s.onShift index (Shift.round now shard)

def run (s : Site) (deeds : List Deed) : Site := deeds.foldl step s

/-- A region just formatted, with the handle that did it and a team just formed. -/
structure Fresh (config : StoreConfig) (shards : ShardConfig) (s : Site) : Prop where
  formatted : ∃ region region' : Region, region.handle.length ≤ region.bytes.size ∧
    ∃ a, Attachment.format config region = .ok a region' ∧ s.commons = ⟨region'.bytes, [a]⟩
  formed : Team.ofConfig shards = .ok s.team
  silent : s.events = #[]

/-- What the handles and the team know, and the catalog of the region. -/
structure Scene where
  handles : List Attachment
  team : Team
  cat : Catalog
  events : Array Event

namespace Scene

def effect (sc : Scene) : Deed → Scene
  | .move (.attach _ _) => sc
  | .move (.operate index operation) =>
    match sc.handles[index]? with
    | none => sc
    | some a =>
      { sc with
        handles := sc.handles.set index (operation.effect a sc.cat).1
        cat := (operation.effect a sc.cat).2 }
  | .poll index now =>
    match sc.handles[index]? with
    | none => sc
    | some a =>
      if sc.team.tooSoon now then sc
      else
        let swept := sc.cat.swept a.config.blockIdleTimeout now
        { sc with
          handles := sc.handles.set index (Shift.polled a now sc.cat)
          team := sc.team.polled now (dueMarkers (a.view now) (swept.rotated a.rotation))
          cat := swept }
  | .drain index shard now =>
    match sc.handles[index]?, sc.team.shards[shard]? with
    | some a, some s =>
      let rounded := s.rounded (a.view now) sc.cat
      { sc with
        team := { sc.team with shards := sc.team.shards.setIfInBounds shard rounded.1 }
        cat := rounded.2.1
        events := sc.events ++ rounded.2.2.toArray }
    | _, _ => sc

def effects (sc : Scene) (deeds : List Deed) : Scene := deeds.foldl effect sc

theorem length_effect (sc : Scene) (deed : Deed) : (sc.effect deed).handles.length = sc.handles.length := by
  rcases deed with (_ | ⟨index, operation⟩) | ⟨index, now⟩ | ⟨index, place, now⟩
  · rfl
  · rw [effect]
    split
    · rfl
    · exact List.length_set
  · rw [effect]
    split
    · rfl
    · split
      · rfl
      · exact List.length_set
  · rw [effect]
    split
    · rfl
    · rfl

theorem size_effect (sc : Scene) (deed : Deed) :
    (sc.effect deed).team.shards.size = sc.team.shards.size := by
  rcases deed with (_ | ⟨index, operation⟩) | ⟨index, now⟩ | ⟨index, place, now⟩
  · rfl
  · rw [effect]
    split
    · rfl
    · rfl
  · rw [effect]
    split
    · rfl
    · split
      · rfl
      · exact Team.size_polled _ _ _
  · rw [effect]
    split
    · exact Array.size_setIfInBounds
    · rfl

inductive Turns (sc : Scene) : Deed → Scene → Prop
  | attach {handle : RegionHandle} {config : StoreConfig} {a : Attachment} (writers : a.writers = ∅)
      (timeout : a.config.writerFlowTimeout = config.writerFlowTimeout) :
      Turns sc (.move (.attach handle config)) { sc with handles := sc.handles ++ [a] }
  | effect (deed : Deed) : Turns sc deed (sc.effect deed)

end Scene

/-- A site with its scene, where no two blocks have the same reference. -/
structure Tracks (l : Layout) (s : Site) (sc : Scene) : Prop where
  commons : s.commons.Carrying l sc.cat
  handles : s.commons.handles = sc.handles
  team : s.team = sc.team
  events : s.events = sc.events
  separate : sc.cat.Distinct
  checked : ∀ index flow, (sc.team.position? index flow).isSome → flow.raw.toNat < 0x80000000

structure Carrying (l : Layout) (s : Site) (sc : Scene) : Prop extends Tracks l s sc where
  numbered : sc.cat.Numbered

theorem set_of_getElem? {α : Type} {xs : List α} {index : Nat} {a : α} (there : xs[index]? = some a) :
    xs.set index a = xs := by
  obtain ⟨inside, rfl⟩ := List.getElem?_eq_some_iff.mp there
  exact List.set_getElem_self inside

namespace Tracks

variable {l : Layout} {s : Site} {sc : Scene} (tracks : Tracks l s sc)
include tracks

theorem ordered : sc.cat.Ordered l := tracks.commons.carries.ordered

theorem attached {index : Nat} {a : Attachment} (there : sc.handles[index]? = some a) :
    s.commons.handles[index]? = some a ∧ a.layout = l ∧ Carries a.layout ⟨a.handle, s.commons.bytes⟩ sc.cat := by
  rw [← tracks.handles] at there
  have member := List.mem_of_getElem? there
  exact ⟨there, (tracks.commons.tidy a member).layout, tracks.commons.seen member⟩

theorem shard_checked {place : Nat} {shard : Shard} (manned : sc.team.shards[place]? = some shard)
    (flow : FlowId) (owned : shard.owns flow = true) : flow.raw.toNat < 0x80000000 :=
  Team.shard_checked tracks.checked manned flow owned

theorem attach (handle : RegionHandle) (config : StoreConfig) :
    ∃ sc', sc.Turns (.move (.attach handle config)) sc' ∧ sc'.cat = sc.cat ∧
      Tracks l (s.step (.move (.attach handle config))) sc' := by
  have after := (tracks.commons.attach handle config).2
  rcases (@Attachment.attach_ok _ _ handle _ _ config) tracks.commons.carries with
    ⟨fault, failed⟩ | ⟨config', found, timeout, _⟩
  · refine ⟨sc, .effect _, rfl, after, ?_, tracks.team, tracks.events, tracks.separate, tracks.checked⟩
    simp only [step, Commons.step, failed]
    exact tracks.handles
  · refine ⟨{ sc with handles := sc.handles ++ [.fresh handle l config'] }, .attach rfl timeout, rfl, after,
      ?_, tracks.team, tracks.events, tracks.separate, tracks.checked⟩
    simp only [step, Commons.step, found]
    rw [tracks.handles]

theorem operate (index : Nat) (operation : Operation) (separate : ∀ a, sc.handles[index]? = some a →
      (operation.effect a sc.cat).2.Distinct) :
    Tracks l (s.step (.move (.operate index operation)))
      (sc.effect (.move (.operate index operation))) := by
  cases there : sc.handles[index]? with
  | none =>
    have missing : s.commons.handles[index]? = none := by rw [tracks.handles, there]
    simp only [step, Commons.step, missing, Scene.effect, there]
    exact tracks
  | some a =>
    obtain ⟨attached, _, _⟩ := tracks.attached there
    obtain ⟨bytes, stepped, after⟩ := tracks.commons.operate attached operation
    simp only [Scene.effect, there]
    refine ⟨after, ?_, tracks.team, tracks.events, separate a there, tracks.checked⟩
    simp only [step, stepped]
    rw [tracks.handles]

theorem poll (index : Nat) (now : Micros) :
    Tracks l (s.step (.poll index now)) (sc.effect (.poll index now)) := by
  cases there : sc.handles[index]? with
  | none =>
    have missing : s.commons.handles[index]? = none := by rw [tracks.handles, there]
    simp only [step, onShift, missing, Scene.effect, there]
    exact tracks
  | some a =>
    obtain ⟨attached, layout, seen⟩ := tracks.attached there
    have tidy := tracks.commons.tidy a (List.mem_of_getElem? attached)
    simp only [step, onShift, attached, Scene.effect, there]
    by_cases early : sc.team.tooSoon now = true
    · rw [if_pos early, tracks.team, Shift.poll_tooSoon early]
      refine ⟨tracks.commons.replace seen tracks.commons.sound layout tidy index, ?_, rfl,
        tracks.events, tracks.separate, tracks.checked⟩
      simp only [after]
      rw [tracks.handles, set_of_getElem? there]
    · obtain ⟨stats, r', ran, carries'⟩ := Shift.poll_run seen
        tracks.separate (Bool.eq_false_iff.mpr early)
      have polled : Commons.Tidy l (Shift.polled a now sc.cat) :=
        ⟨tidy.layout, tidy.long, tidy.aimed.keepFresh now _⟩
      rw [if_neg early, tracks.team, ran]
      refine ⟨tracks.commons.replace (a := a) carries' (tracks.commons.sound.swept _ now) layout
        polled index, ?_, rfl, tracks.events,
        tracks.separate.swept _ now, fun place flow owned => ?_⟩
      · simp only [after]
        rw [tracks.handles]
      · rcases sc.team.polled_position now (dueMarkers (a.view now)
          ((sc.cat.swept a.config.blockIdleTimeout now).rotated a.rotation)) place flow with
          same | ⟨_, marker, _, rfl, _⟩
        · dsimp only at owned
          rw [same] at owned
          exact tracks.checked place flow owned
        · exact marker.key.flow_checked

theorem drain (index place : Nat) (now : Micros) :
    Tracks l (s.step (.drain index place now)) (sc.effect (.drain index place now)) := by
  cases there : sc.handles[index]? with
  | none =>
    have missing : s.commons.handles[index]? = none := by rw [tracks.handles, there]
    simp only [step, onShift, missing, Scene.effect, there]
    exact tracks
  | some a =>
    obtain ⟨attached, layout, seen⟩ := tracks.attached there
    have tidy := tracks.commons.tidy a (List.mem_of_getElem? attached)
    simp only [step, onShift, attached, Scene.effect, there]
    cases manned : sc.team.shards[place]? with
    | none =>
      dsimp only
      rw [tracks.team, Shift.round_none now manned]
      refine ⟨tracks.commons.replace seen tracks.commons.sound layout tidy index, ?_, rfl,
        tracks.events, tracks.separate, tracks.checked⟩
      simp only [after]
      rw [tracks.handles, set_of_getElem? there]
    | some shard =>
      have checked := tracks.shard_checked manned
      obtain ⟨stats, r', ran, carries'⟩ := Shift.round_run seen
        tracks.separate now manned checked
      have rounded := Shard.rounded_eq (v := a.view now) checked tracks.separate seen.ordered
      dsimp only
      rw [tracks.team, ran]
      refine ⟨tracks.commons.replace (a := a) carries' ?_ layout tidy index, ?_, rfl, ?_, ?_,
        fun other flow owned => ?_⟩
      · rw [rounded]
        exact tracks.commons.sound.without _
      · simp only [after]
        rw [tracks.handles, set_of_getElem? there]
      · simp only [after]
        rw [tracks.events]
      · rw [rounded]
        exact tracks.separate.without _
      · dsimp only at owned
        rw [Team.position?_rounded tracks.separate seen.ordered manned tracks.checked] at owned
        split at owned
        · exact tracks.checked other flow (Option.isSome_of_isSome_bind owned)
        · exact tracks.checked other flow owned

end Tracks

namespace Carrying

variable {l : Layout} {s : Site} {sc : Scene} (carrying : Carrying l s sc)
include carrying

theorem operate_numbered {index : Nat} {a : Attachment} (there : sc.handles[index]? = some a)
    (operation : Operation) (last : sc.cat.nextGeneration.toNat +
      (Deed.move (.operate index operation)).insertions < UInt64.size) :
    (operation.effect a sc.cat).2.Numbered ∧ (operation.effect a sc.cat).2.nextGeneration.toNat ≤
      sc.cat.nextGeneration.toNat + (Deed.move (.operate index operation)).insertions := by
  have numbered := carrying.numbered
  cases operation with
  | put segment now =>
    obtain ⟨attached, rfl, seen⟩ := carrying.attached there
    have aimed := (carrying.commons.tidy a (List.mem_of_getElem? attached)).aimed
    have fit : (⟨a.writers, sc.cat⟩ : Writing.Desk).Fit a.layout :=
      ⟨seen.ordered, carrying.commons.sound, aimed⟩
    exact fit.put_numbered numbered last
  | sweep now => exact ⟨numbered.swept _ now, Nat.le_refl _⟩
  | erase ref now => exact ⟨numbered.erase ref, Nat.le_of_eq (congrArg _ (sc.cat.nextGeneration_erase ref))⟩
  | _ => exact ⟨numbered, Nat.le_refl _⟩

theorem operate (index : Nat) (operation : Operation) (last : sc.cat.nextGeneration.toNat +
      (Deed.move (.operate index operation)).insertions < UInt64.size) :
    Carrying l (s.step (.move (.operate index operation)))
      (sc.effect (.move (.operate index operation))) := by
  have tracks := carrying.toTracks.operate index operation fun a there =>
    (carrying.operate_numbered there operation last).1.refs
  refine ⟨tracks, ?_⟩
  rw [Scene.effect]
  cases there : sc.handles[index]? with
  | none => exact carrying.numbered
  | some a => exact (carrying.operate_numbered there operation last).1

theorem poll (index : Nat) (now : Micros) :
    Carrying l (s.step (.poll index now)) (sc.effect (.poll index now)) := by
  refine ⟨carrying.toTracks.poll index now, ?_⟩
  rw [Scene.effect]
  split
  · exact carrying.numbered
  · split
    · exact carrying.numbered
    · exact carrying.numbered.swept _ now

theorem drain (index place : Nat) (now : Micros) :
    Carrying l (s.step (.drain index place now)) (sc.effect (.drain index place now)) := by
  refine ⟨carrying.toTracks.drain index place now, ?_⟩
  rw [Scene.effect]
  split
  · next shard there manned =>
    dsimp only
    rw [Shard.rounded_eq (carrying.shard_checked manned) carrying.separate carrying.ordered]
    exact carrying.numbered.without _
  · exact carrying.numbered

theorem nextGeneration_effect (deed : Deed)
    (last : sc.cat.nextGeneration.toNat + deed.insertions < UInt64.size) :
    (sc.effect deed).cat.nextGeneration.toNat ≤ sc.cat.nextGeneration.toNat + deed.insertions := by
  rcases deed with (_ | ⟨index, operation⟩) | ⟨index, now⟩ | ⟨index, place, now⟩
  · exact Nat.le_add_right _ _
  · rw [Scene.effect]
    cases there : sc.handles[index]? with
    | none => exact Nat.le_add_right _ _
    | some a => exact (carrying.operate_numbered there operation last).2
  · rw [Scene.effect]
    split
    · exact Nat.le_add_right _ _
    · split
      · exact Nat.le_add_right _ _
      · exact Nat.le_add_right _ _
  · rw [Scene.effect]
    split
    · next shard there manned =>
      have checked := carrying.shard_checked manned
      dsimp only
      rw [Shard.rounded_eq checked carrying.separate carrying.ordered]
      dsimp only
      rw [Catalog.nextGeneration_without]
      exact Nat.le_add_right _ _
    · exact Nat.le_add_right _ _

theorem step (deed : Deed) (last : sc.cat.nextGeneration.toNat + deed.insertions < UInt64.size) :
    ∃ sc', sc.Turns deed sc' ∧ Carrying l (s.step deed) sc' ∧
      sc'.cat.nextGeneration.toNat ≤ sc.cat.nextGeneration.toNat + deed.insertions := by
  have used := carrying.nextGeneration_effect deed last
  rcases deed with (⟨handle, config⟩ | ⟨index, operation⟩) | ⟨index, now⟩ | ⟨index, place, now⟩
  · obtain ⟨sc', turns, same, after⟩ := carrying.attach handle config
    refine ⟨sc', turns, ⟨after, same ▸ carrying.numbered⟩, ?_⟩
    rw [same]
    exact Nat.le_add_right _ _
  · exact ⟨_, .effect _, carrying.operate index operation last, used⟩
  · exact ⟨_, .effect _, carrying.poll index now, used⟩
  · exact ⟨_, .effect _, carrying.drain index place now, used⟩

end Carrying

theorem Scene.Turns.eq_effect {sc sc' : Scene} {deed : Deed} (turns : sc.Turns deed sc')
    (alone : ∀ handle config, deed ≠ .move (.attach handle config)) : sc' = sc.effect deed := by
  cases turns with
  | @attach handle config _ _ _ => exact absurd rfl (alone handle config)
  | effect _ => rfl

theorem Carrying.effects {l : Layout} {s : Site} {sc : Scene} (carrying : Carrying l s sc)
    {deeds : List Deed} (alone : ∀ handle config, .move (.attach handle config) ∉ deeds)
    (few : sc.cat.nextGeneration.toNat + (deeds.map Deed.insertions).sum < UInt64.size) :
    Carrying l (s.run deeds) (sc.effects deeds) := by
  induction deeds generalizing s sc with
  | nil => exact carrying
  | cons first rest ih =>
    rw [List.map_cons, List.sum_cons] at few
    obtain ⟨sc', turns, after, used⟩ := carrying.step first (by omega)
    obtain rfl := turns.eq_effect fun handle config same =>
      alone handle config (same ▸ List.mem_cons_self)
    exact ih after (fun handle config listed => alone handle config (List.mem_cons_of_mem _ listed))
      (by omega)

def Scene.opening (a : Attachment) (team : Team) : Scene := ⟨[a], team, .empty, #[]⟩

theorem Fresh.carrying {config : StoreConfig} {shards : ShardConfig} {s : Site}
    (fresh : s.Fresh config shards) :
    ∃ a, a.config = config ∧ a.writers = ∅ ∧ Carrying a.layout s (.opening a s.team) := by
  obtain ⟨region, region', there, a, made, same⟩ := fresh.formatted
  obtain ⟨_, _, own, _, _⟩ := Attachment.format_ok there made
  have formed := Team.ofConfig_ok fresh.formed
  have carrying := Commons.carrying_of_format there made
  rw [← same] at carrying
  refine ⟨a, ?_, ?_, ⟨carrying, ?_, rfl, fresh.silent, .empty, fun index flow owned => ?_⟩, .empty⟩
  · rw [own]
    rfl
  · rw [own]
    rfl
  · rw [same]
    rfl
  · rw [show (Scene.opening a s.team).team = s.team from rfl, formed.2.2.1] at owned
    cases owned

theorem Fresh.of_config {config : StoreConfig} {shards : ShardConfig} {l : Layout} {team : Team}
    (valid : config.validate = .ok ()) (divided : Attachment.layoutFor config = .ok l)
    (formed : Team.ofConfig shards = .ok team) :
    ∃ s : Site, s.Fresh config shards ∧
      Carrying l s (.opening (.fresh ⟨l.required, .memory 0⟩ l config) team) := by
  obtain ⟨region, made, _, _⟩ := Attachment.format_run (r := ⟨⟨l.required, .memory 0⟩,
    .zeros l.required⟩) valid divided ⟨Nat.le_refl _, Nat.le_refl _⟩
  refine ⟨⟨⟨region.bytes, [.fresh ⟨l.required, .memory 0⟩ l config]⟩, team, #[]⟩,
    ⟨⟨_, region, Nat.le_refl _, _, made, rfl⟩, formed, rfl⟩,
    ⟨Commons.carrying_of_format (Nat.le_refl _) made, rfl, rfl, rfl, .empty, fun index flow owned => ?_⟩,
    .empty⟩
  rw [show (Scene.opening _ team).team = team from rfl, (Team.ofConfig_ok formed).2.2.1] at owned
  cases owned

end Site

end Reassembly
