import Reassembly.Delivery.Shard
import Reassembly.Proofs.Ranges

/-!
Draining as a function of catalogs. The blocks of both sides are looked at first; then the ready markers
go, and of each side the blocks before the first that is not ready, while the reader is told of their
bytes. The program on a region that carries the catalog does the same, and cannot fail.
-/

namespace Reassembly

open Store Reading

namespace Store.Catalog

def without (cat : Catalog) (refs : List Ref) : Catalog := refs.foldl Catalog.erase cat

variable {l : Layout} {cat : Catalog}

theorem without_append (cat : Catalog) (first second : List Ref) :
    cat.without (first ++ second) = (cat.without first).without second := List.foldl_append

theorem Ordered.without (ordered : cat.Ordered l) (refs : List Ref) : (cat.without refs).Ordered l := by
  induction refs generalizing cat with
  | nil => exact ordered
  | cons ref rest ih => exact ih (ordered.erase ref)

theorem Sound.without (sound : cat.Sound) (refs : List Ref) : (cat.without refs).Sound := by
  induction refs generalizing cat with
  | nil => exact sound
  | cons ref rest ih => exact ih (sound.erase ref)

theorem Distinct.without (separate : cat.Distinct) (refs : List Ref) :
    (cat.without refs).Distinct := by
  induction refs generalizing cat with
  | nil => exact separate
  | cons ref rest ih => exact ih (separate.erase ref)

theorem Numbered.without (numbered : cat.Numbered) (refs : List Ref) : (cat.without refs).Numbered := by
  induction refs generalizing cat with
  | nil => exact numbered
  | cons ref rest ih => exact ih (numbered.erase ref)

theorem nextGeneration_erase (cat : Catalog) (ref : Ref) :
    (cat.erase ref).nextGeneration = cat.nextGeneration := by
  rw [erase]
  split <;> rfl

theorem nextGeneration_without (cat : Catalog) (refs : List Ref) :
    (cat.without refs).nextGeneration = cat.nextGeneration := by
  induction refs generalizing cat with
  | nil => rfl
  | cons ref rest ih => exact (ih (cat.erase ref)).trans (cat.nextGeneration_erase ref)

theorem Distinct.items_without (separate : cat.Distinct) (ordered : cat.Ordered l) (refs : List Ref) :
    (cat.without refs).items = cat.items.filter fun item => item.ref ∉ refs := by
  induction refs generalizing cat with
  | nil => exact (List.filter_eq_self.mpr fun item _ => by simp).symm
  | cons ref rest ih =>
    have first := separate.items_erase ordered ref
    have later := ih (separate.erase ref) (ordered.erase ref)
    rw [first, List.filter_filter] at later
    refine later.trans (List.filter_congr fun item _ => ?_)
    simp [Bool.and_comm]

end Store.Catalog

namespace Delivery

variable {v : View} {r : Region} {cat : Catalog} {events : Array Event}

theorem told_nil (events : Array Event) : events ++ ([] : List Event).toArray = events :=
  Array.append_empty

theorem told_append (events : Array Event) (first second : List Event) :
    events ++ (first ++ second).toArray = events ++ first.toArray ++ second.toArray := by
  rw [Array.append_assoc, List.append_toArray first second]

theorem deliverFrames_append (flow : FlowId) (side : Side) (expected : Option Seq)
    (first second : List Block.Frame) :
    deliverFrames flow side expected (first ++ second) =
      ((deliverFrames flow side expected first).1 ++
          (deliverFrames flow side (deliverFrames flow side expected first).2 second).1,
        (deliverFrames flow side (deliverFrames flow side expected first).2 second).2) := by
  induction first generalizing expected with
  | nil => rfl
  | cons frame rest ih => simp only [List.cons_append, deliverFrames, ih, List.append_assoc]

def sideDrained (flow : FlowId) (side : Side) (now : Micros) (blocks : List Stored) (state : Drained) :
    Drained × List Ref × List Event :=
  let payload := blocks.filter (·.header.kind.isPayload)
  let expected := state.position.expected.get side
  match anchor? expected payload with
  | none => (state, [], [])
  | some anchor =>
    let ordered := drainOrder anchor payload
    let ready := ordered.takeWhile (·.ready)
    let told := deliverFrames flow side expected (ready.flatMap (·.frames))
    let position :=
      { state.position with
        expected := state.position.expected.set told.2 side
        lastUpdate := if ready.isEmpty then state.position.lastUpdate else now }
    (⟨position, state.consumed + ready.length, state.pending + (ordered.length - ready.length)⟩,
      ready.map (·.ref), told.1)

def adoptAll (position : Position) (markers : List Stored) (now : Micros) : Position :=
  markers.foldl (fun position marker => position.adopt marker now) position

def announcement (flow : FlowId) (position : Position) : List Event :=
  if position.announced then [] else [.started flow position.initialSeq]

/-- What draining a flow leaves that has some blocks on its sides, with the blocks that go and what the
reader is told. -/
def drainedFrom (v : View) (flow : FlowId) (position : Position) (source destination : List Stored) :
    Drained × List Ref × List Event :=
  let markers := readyMarkers (source ++ destination)
  let position := adoptAll position markers v.now
  let first := sideDrained flow .source v.now source ⟨{ position with announced := true }, 0, 0⟩
  let second := sideDrained flow .destination v.now destination first.1
  (second.1, markers.map (·.ref) ++ first.2.1 ++ second.2.1,
    announcement flow position ++ first.2.2 ++ second.2.2)

def flowDrained (v : View) (flow : FlowId) (position : Position) (cat : Catalog) :
    Drained × List Ref × List Event :=
  let source := (cat.inLane (FlowKey.laneOf flow .source)).map (Item.stored v)
  let destination := (cat.inLane (FlowKey.laneOf flow .destination)).map (Item.stored v)
  let markers := readyMarkers (source ++ destination)
  let position := adoptAll position markers v.now
  let first := sideDrained flow .source v.now source ⟨{ position with announced := true }, 0, 0⟩
  let second := sideDrained flow .destination v.now destination first.1
  (second.1, markers.map (·.ref) ++ first.2.1 ++ second.2.1,
    announcement flow position ++ first.2.2 ++ second.2.2)

theorem onStore_ok {α : Type} {work : Access α} {a : α} {r' : Region} (ran : work r = .ok a r') :
    Draining.onStore work ⟨r, events⟩ = .ok a ⟨r', events⟩ := by
  simp only [Draining.onStore, Work.onPart, ran]

theorem tell_run (news : List Event) :
    Draining.tell news ⟨r, events⟩ = .ok () ⟨r, events ++ news.toArray⟩ := rfl

theorem takeMarkers_run (carries : Carries v.layout r cat) (position : Position)
    (markers : List Stored) :
    ∃ r', takeMarkers v position markers ⟨r, events⟩ =
        .ok (adoptAll position markers v.now) ⟨r', events⟩ ∧
      Carries v.layout r' (cat.without (markers.map (·.ref))) := by
  induction markers generalizing r cat position with
  | nil => exact ⟨r, rfl, carries⟩
  | cons marker rest ih =>
    obtain ⟨r₁, erased, carries₁⟩ := Reading.erase_run carries marker.ref
    obtain ⟨r₂, ran, carries₂⟩ := ih carries₁ (position.adopt marker v.now)
    refine ⟨r₂, ?_, carries₂⟩
    rw [takeMarkers, Work.bind_ok (a := ()) (Work.map_ok (onStore_ok erased))]
    exact ran

theorem announce_run (flow : FlowId) (position : Position) :
    announce flow position ⟨r, events⟩ = .ok { position with announced := true }
      ⟨r, events ++ (announcement flow position).toArray⟩ := by
  rw [announce, announcement]
  by_cases told : position.announced = true
  · rw [if_pos told, if_pos told, told_nil, Work.pure_run]
    obtain ⟨initialSeq, marker, expected, lastUpdate, announced⟩ := position
    obtain rfl : announced = true := told
    rfl
  · rw [if_neg told, if_neg told, Work.bind_ok (tell_run _), Work.pure_run]

theorem deliverBlocks_run (carries : Carries v.layout r cat) (flow : FlowId) (side : Side)
    (expected : Option Seq) (blocks : List Stored) :
    ∃ r', deliverBlocks v flow side expected blocks ⟨r, events⟩ =
        .ok (deliverFrames flow side expected (blocks.flatMap (·.frames))).2
          ⟨r', events ++
            (deliverFrames flow side expected (blocks.flatMap (·.frames))).1.toArray⟩ ∧
      Carries v.layout r' (cat.without (blocks.map (·.ref))) := by
  induction blocks generalizing r cat expected events with
  | nil =>
    refine ⟨r, ?_, carries⟩
    rw [List.flatMap_nil, deliverFrames, told_nil]
    rfl
  | cons block rest ih =>
    obtain ⟨r₁, erased, carries₁⟩ := Reading.erase_run carries block.ref
    obtain ⟨r₂, ran, carries₂⟩ := ih carries₁ (deliverFrames flow side expected block.frames).2
    refine ⟨r₂, ?_, carries₂⟩
    rw [List.flatMap_cons, deliverFrames_append, deliverBlocks]
    dsimp only
    rw [Work.bind_ok (tell_run _), Work.bind_ok (a := ()) (Work.map_ok (onStore_ok erased)), ran,
      told_append]

theorem drainSide_run (carries : Carries v.layout r cat) (flow : FlowId) (side : Side)
    (blocks : List Stored) (state : Drained) :
    ∃ r', drainSide v flow side blocks state ⟨r, events⟩ =
        .ok (sideDrained flow side v.now blocks state).1
          ⟨r', events ++ (sideDrained flow side v.now blocks state).2.2.toArray⟩ ∧
      Carries v.layout r' (cat.without (sideDrained flow side v.now blocks state).2.1) := by
  rw [drainSide, sideDrained]
  dsimp only
  cases anchor? (state.position.expected.get side)
      (blocks.filter (·.header.kind.isPayload)) with
  | none =>
    refine ⟨r, ?_, carries⟩
    rw [told_nil]
    rfl
  | some anchor =>
    dsimp only
    obtain ⟨r', ran, carries'⟩ := deliverBlocks_run carries flow side
      (state.position.expected.get side)
      ((drainOrder anchor (blocks.filter (·.header.kind.isPayload))).takeWhile (·.ready))
    refine ⟨r', ?_, carries'⟩
    rw [Work.bind_ok ran, Work.pure_run]

theorem drainFlow_from (carries : Carries v.layout r cat) {flow : FlowId} {source destination : List Stored}
    (sources : range v flow .source r = .ok source r)
    (destinations : range v flow .destination r = .ok destination r) (position : Position) :
    ∃ r', drainFlow v flow position ⟨r, events⟩ = .ok (drainedFrom v flow position source destination).1
        ⟨r', events ++ (drainedFrom v flow position source destination).2.2.toArray⟩ ∧
      Carries v.layout r' (cat.without (drainedFrom v flow position source destination).2.1) := by
  rw [drainFlow, drainedFrom]
  dsimp only
  rw [Work.bind_ok (onStore_ok sources), Work.bind_ok (onStore_ok destinations)]
  obtain ⟨r₁, taken, carries₁⟩ := takeMarkers_run carries position (readyMarkers (source ++ destination))
  rw [Work.bind_ok taken, Work.bind_ok (announce_run _ _)]
  generalize adoptAll position (readyMarkers (source ++ destination)) v.now = position
  obtain ⟨r₂, first, carries₂⟩ := drainSide_run carries₁ flow .source source
    ⟨{ position with announced := true }, 0, 0⟩
  obtain ⟨r₃, second, carries₃⟩ := drainSide_run carries₂ flow .destination destination
    (sideDrained flow .source v.now source ⟨{ position with announced := true }, 0, 0⟩).1
  refine ⟨r₃, ?_, ?_⟩
  · rw [Work.bind_ok first, second, told_append, told_append]
  · rw [Catalog.without_append, Catalog.without_append]
    exact carries₃

theorem drainFlow_run (carries : Carries v.layout r cat) (separate : cat.Distinct) {flow : FlowId}
    (checked : flow.raw.toNat < 0x80000000) (position : Position) :
    ∃ r', drainFlow v flow position ⟨r, events⟩ = .ok (flowDrained v flow position cat).1
        ⟨r', events ++ (flowDrained v flow position cat).2.2.toArray⟩ ∧
      Carries v.layout r' (cat.without (flowDrained v flow position cat).2.1) :=
  drainFlow_from carries (range_run carries separate checked .source)
    (range_run carries separate checked .destination) position

end Delivery

end Reassembly
