import Reassembly.Proofs.Commons
import Reassembly.Proofs.Restraint

/-!
A put that stores nothing, on a shared region. Whatever the handles did before, the payload blocks stay
as they are, and the region is what the completion of the open block of the side or the marker of the
flow makes of it; a put is dropped only if the store is full, and never because a block rejects a frame.
-/

namespace Reassembly

open Store Writing

namespace Store

/-- The reference, the frames and the payload of each payload block. -/
def payloads (items : List Item) : List (Ref × List Block.Frame × ByteArray) :=
  (items.filter Item.isPayload).map fun item => (item.ref, item.frames, item.body)

def Item.completed (item : Item) : Item := { item with header := item.header.close }

theorem payloads_map {f : Item → Item} (kinds : ∀ item, (f item).isPayload = item.isPayload)
    (contents : ∀ item, ((f item).ref, (f item).frames, (f item).body) =
      (item.ref, item.frames, item.body)) (items : List Item) :
    payloads (items.map f) = payloads items := by
  unfold payloads
  rw [List.filter_map, List.map_map]
  simp only [Function.comp_def, kinds, contents]

theorem filter_insertIdx {α : Type} {keep : α → Bool} {a : α} (out : keep a = false) (pos : Nat)
    (l : List α) : (l.insertIdx pos a).filter keep = l.filter keep := by
  induction l generalizing pos with
  | nil => cases pos <;> simp [out]
  | cons head rest ih =>
    cases pos with
    | zero => simp [out]
    | succ pos => simp [List.filter_cons, ih]

namespace Catalog

variable {l : Layout} {cat : Catalog}

theorem payloads_shelve {marker : Item} (kind : marker.isPayload = false) :
    payloads (cat.shelve marker).items = payloads cat.items := by
  unfold payloads
  rw [shelve, file, filter_insertIdx kind]

theorem Ordered.items_complete (ordered : cat.Ordered l) {item : Item} (member : item ∈ cat.items) :
    (cat.complete item).items =
      cat.items.map fun other => if other.slot = item.slot then other.completed else other := by
  rw [complete, Catalog.recast]
  apply List.map_congr_left
  intro other listed
  split
  · next same =>
    obtain rfl := ordered.eq_of_slot listed member same
    rfl
  · rfl

end Catalog

end Store

namespace Attachment

variable (a : Attachment) (segment : Segment) (now : Micros)

/-- The handle has no context for a flow, or one that it left alone for longer than its timeout. -/
def Unaware (flow : FlowId) : Prop :=
  ∀ writer, a.writers[flow]? = some writer → a.config.writerFlowTimeout < elapsed now writer.lastWrite

def mark : Access Entry :=
  Hold.run a.layout (Hold.insertBlock a.layout .startFlow segment.key
    (Bytes.ofU32 segment.sequence.word) true now)

structure Marks (marker : Item) : Prop where
  key : marker.key = segment.key
  kind : marker.header.kind = .startFlow
  complete : marker.header.isComplete = true
  body : marker.body = Bytes.ofU32 segment.sequence.word

open Catalog in
/-- What a put that stores nothing makes of a region. -/
inductive Abstains (r : Region) : Region → Prop
  /-- The flow is known, and nothing happens. -/
  | untouched (aware : ¬ a.Unaware now segment.flow) : Abstains r r
  /-- The flow is known, and the open block of the side is completed. -/
  | completed (aware : ¬ a.Unaware now segment.flow) {writer : WriterFlow} {item : Item} {r' : Region}
      (writes : a.writers[segment.flow]? = some writer)
      (current : (writer.sides.get segment.side).openBlock = some item.ref)
      (there : item ∈ itemsIn a.layout r.bytes) (writable : item.header.isComplete = false)
      (ran : Hold.run a.layout (Hold.setHeader a.layout item.slot item.completed.header) r = .ok () r')
      (items : itemsIn a.layout r'.bytes = (itemsIn a.layout r.bytes).map fun other =>
        if other.slot = item.slot then other.completed else other) : Abstains r r'
  /-- The flow is not known, and its marker is stored. -/
  | marked (unaware : a.Unaware now segment.flow) {entry : Entry} {marker : Item} {r' : Region}
      (ran : a.mark segment now r = .ok entry r') (made : Marks segment marker)
      (items : (itemsIn a.layout r'.bytes).Perm (marker :: itemsIn a.layout r.bytes)) : Abstains r r'
  /-- The flow is not known, and its marker finds no slot. -/
  | refused (unaware : a.Unaware now segment.flow) {r' : Region}
      (ran : a.mark segment now r = .error (.storeFull a.layout.maxBlocks) r') : Abstains r r

/-- What holds of a put on a region, and what it leaves. -/
structure Restrained (r : Region) (outcome : Outcome) (a' : Attachment) (r' : Region) : Prop where
  /-- If nothing is stored, the payload blocks stay as they are. -/
  payloads : outcome.stored = false → payloads (Catalog.itemsIn a.layout r'.bytes) =
    payloads (Catalog.itemsIn a.layout r.bytes)
  /-- If nothing is stored, one of these happens. -/
  abstains : outcome.stored = false → a.Abstains segment now r r'
  /-- If the marker is not stored, nothing happens. -/
  refused : a.Unaware now segment.flow → (∃ fault r₁, a.mark segment now r = .error fault r₁) →
    outcome = .dropped ∧ a' = a ∧ r' = r
  /-- If the segment is dropped, every slot is in use. -/
  full : outcome = .dropped → ∀ slot < a.layout.maxBlocks,
    ∃ item ∈ Catalog.itemsIn a.layout r'.bytes, item.slot = slot
  /-- Whatever were done about a rejected frame, the put would do the same. -/
  rejected : ∀ rejection, Attachment.putOr rejection segment now (a, r) = .ok outcome (a', r')

theorem unaware_iff {cat : Catalog} : a.Unaware now segment.flow ↔
    Desk.known? a.config segment now ⟨a.writers, cat⟩ = none := by
  unfold Unaware Desk.known?
  rw [Option.filter_eq_none_iff]
  simp [WriterFlow.isStale]

variable {a segment now} {r : Region} {cat cat' : Catalog} {held' : Held}

open Catalog in
theorem abstains_of_held (carries : Carries a.layout r cat)
    (abstains : Desk.Abstains a.layout a.config segment now ⟨a.writers, cat⟩ ⟨r, countersIn r.bytes⟩ cat'
      held') (carries' : Carries a.layout held'.region cat') :
    a.Abstains segment now r held'.region ∧ payloads cat'.items = payloads cat.items := by
  cases abstains with
  | @known writer known b' held' shuts =>
    have aware : ¬ a.Unaware now segment.flow := by
      rw [unaware_iff, known]
      exact Option.some_ne_none _
    cases shuts with
    | kept => exact ⟨.untouched aware, rfl⟩
    | forgotten => exact ⟨.untouched aware, rfl⟩
    | @completed item held' located writable ran =>
      have member := Bench.mem_of_located located
      have items := carries.ordered.items_complete member
      obtain ⟨writes, _⟩ := Option.filter_eq_some_iff.mp known
      refine ⟨.completed aware writes (Bench.ref_of_located located) ?_ writable (carries.run_ok ran) ?_, ?_⟩
      · rw [carries.itemsIn_eq]
        exact member
      · rw [carries.itemsIn_eq, carries'.itemsIn_eq]
        exact items
      · rw [items]
        apply payloads_map
        · intro other
          split <;> rfl
        · intro other
          split <;> rfl
  | @marked slot held' unknown next ran =>
    have made : Marks segment (markerFor cat slot segment now) := ⟨rfl, rfl, rfl, rfl⟩
    refine ⟨.marked (a.unaware_iff segment now |>.mpr unknown) (carries.run_ok ran)
      made ?_, payloads_shelve rfl⟩
    rw [carries.itemsIn_eq, carries'.itemsIn_eq]
    exact perm_file _ _
  | refused unknown none_left =>
    have full := Holds.insertBlock_full carries none_left .startFlow segment.key
      (Bytes.ofU32 segment.sequence.word) true now
    exact ⟨.refused (a.unaware_iff segment now |>.mpr unknown) (carries.run_error full), rfl⟩

theorem restrained_put (carries : Carries a.layout r cat) (fit : Desk.Fit a.layout ⟨a.writers, cat⟩)
    (segment : Segment) (now : Micros) :
    ∃ outcome a' r', Attachment.put segment now (a, r) = .ok outcome (a', r') ∧
      a.Restrained segment now r outcome a' r' := by
  obtain ⟨held', held_ran, holds'⟩ := putHeld_run carries segment now
  have carries' := holds'.carries
  have ran : Attachment.put segment now (a, r) =
      .ok (Desk.put a.layout a.config segment now ⟨a.writers, cat⟩).1
        ({ a with writers := (Desk.put a.layout a.config segment now ⟨a.writers, cat⟩).2.writers },
          held'.region) := by
    rw [Attachment.put, Work.bind_ok (Work.get_run _)]
    exact carries.runWith_ok held_ran
  have abstains (unstored : (Desk.put a.layout a.config segment now ⟨a.writers, cat⟩).1.stored = false) :=
    abstains_of_held carries (fit.putHeld_abstains carries held_ran unstored) carries'
  refine ⟨_, _, _, ran, ?_, fun unstored => (abstains unstored).1, ?_, ?_, ?_⟩
  · intro unstored
    rw [carries.itemsIn_eq, carries'.itemsIn_eq]
    exact (abstains unstored).2
  · rintro unaware ⟨fault, r₁, failed⟩
    have unknown : Desk.known? a.config segment now ⟨a.writers, cat⟩ = none :=
      (a.unaware_iff segment now).mp unaware
    cases next : cat.nextSlot? a.layout with
    | some slot =>
      obtain ⟨held₁, inserted, _⟩ := Session.marker_run carries next segment now
      have stored : a.mark segment now r = .ok _ held₁.region := carries.run_ok inserted
      rw [stored] at failed
      cases failed
    | none =>
      have found : Desk.announce? a.layout a.config segment now ⟨a.writers, cat⟩ = none := by
        rw [Desk.announce?, unknown]
        dsimp only
        rw [next, Option.map_none]
      have refused := Session.announce_refused carries unknown next
      rw [putHeld, Work.bind_ok refused] at held_ran
      obtain ⟨_, same⟩ := EStateM.Result.ok.inj held_ran
      rw [Desk.put_of_unannounced found]
      exact ⟨rfl, rfl, by rw [← (Prod.mk.inj same).2]⟩
  · intro dropped slot below
    rw [carries'.itemsIn_eq]
    exact carries'.ordered.every_slot (fit.put_dropped dropped) slot below
  · intro rejection
    rw [Attachment.putOr_eq rejection carries, ran]

end Attachment

/-- A put through any handle, at any time, succeeds, and where it stores nothing it changes nothing that
it should not. -/
theorem Commons.Reachable.put_restrained {c : Commons} (reached : c.Reachable) {index : Nat}
    {a : Attachment} (attached : c.handles[index]? = some a) (segment : Segment) (now : Micros) :
    ∃ outcome a' r', Attachment.put segment now (a, ⟨a.handle, c.bytes⟩) = .ok outcome (a', r') ∧
      a.Restrained segment now ⟨a.handle, c.bytes⟩ outcome a' r' := by
  obtain ⟨l, cat, carrying⟩ := reached.carrying
  have member := List.mem_of_getElem? attached
  have seen := carrying.seen member
  exact Attachment.restrained_put seen ⟨seen.ordered, carrying.sound, (carrying.tidy a member).aimed⟩
    segment now

/-- Where no slot is left, the marker of a flow that a handle does not know is refused. -/
theorem Commons.Carrying.refuses {l : Layout} {c : Commons} {cat : Catalog} (carrying : c.Carrying l cat)
    {index : Nat} {a : Attachment} (attached : c.handles[index]? = some a) (segment : Segment) (now : Micros)
    (unknown : Desk.known? a.config segment now ⟨a.writers, cat⟩ = none)
    (none_left : cat.nextSlot? a.layout = none) :
    a.Unaware now segment.flow ∧ ∃ fault r, a.mark segment now ⟨a.handle, c.bytes⟩ = .error fault r := by
  have seen := carrying.seen (List.mem_of_getElem? attached)
  have full := Holds.insertBlock_full seen none_left .startFlow segment.key (Bytes.ofU32 segment.sequence.word)
    true now
  exact ⟨(a.unaware_iff segment now).mpr unknown, _, _, seen.run_error full⟩

/-- A segment of another flow, where the first one left no slot for a marker: it is dropped, and the
region and what the handle knows of its flows are as before. -/
theorem Commons.put_restrained_when_full :
    ∃ (c : Commons) (a : Attachment), c.Reachable ∧ c.handles[0]? = some a ∧
      Attachment.put ⟨⟨8⟩, .source, ⟨50⟩, ⟨#[1, 2]⟩⟩ 1000005 (a, ⟨a.handle, c.bytes⟩) =
        .ok .dropped (a, ⟨a.handle, c.bytes⟩) ∧
      a.Restrained ⟨⟨8⟩, .source, ⟨50⟩, ⟨#[1, 2]⟩⟩ 1000005 ⟨a.handle, c.bytes⟩ .dropped a
        ⟨a.handle, c.bytes⟩ := by
  obtain ⟨start, fresh, handles, carrying⟩ := @Commons.Fresh.of_config
    { blockCapacity := 64, maxBlocks := 2 } _ rfl rfl
  obtain ⟨attached, carrying'⟩ := carrying.alone handles [.put ⟨⟨7⟩, .source, ⟨100⟩, ⟨#[3, 4, 5]⟩⟩ 1000000]
  have reached := fresh.reachable.step (.operate 0 (.put ⟨⟨7⟩, .source, ⟨100⟩, ⟨#[3, 4, 5]⟩⟩ 1000000))
  have first := Commons.attached_of_alone attached
  obtain ⟨unaware, refused⟩ := carrying'.refuses first ⟨⟨8⟩, .source, ⟨50⟩, ⟨#[1, 2]⟩⟩ 1000005
    (by decide +kernel) (by decide +kernel)
  obtain ⟨outcome, a', r', ran, restrained⟩ := reached.put_restrained first ⟨⟨8⟩, .source, ⟨50⟩, ⟨#[1, 2]⟩⟩ 1000005
  obtain ⟨rfl, rfl, rfl⟩ := restrained.refused unaware refused
  exact ⟨_, _, reached, first, ran, restrained⟩

end Reassembly
