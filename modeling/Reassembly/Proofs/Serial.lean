import Mathlib.Data.List.Rotate
import Reassembly.Proofs.Gaps

/-!
The order in which a round takes the blocks of a side. If the bases of the payload blocks and the byte
awaited lie within half a turn from some number on, the blocks are in the order of their distances from
there, wherever the anchor lies and however the store sorts them; and those before the first that is not
ready are told and erased. Nothing else goes but ready markers, and a flow expires only if it had no
payload block.
-/

namespace Reassembly

open Store Reading Delivery

namespace Delivery

variable {origin : Seq} {expected : Option Seq} {flow : FlowId} {side : Side} {blocks : List Stored}

/-- The blocks are in serial order from a number on: the nearer come first, and at one place the older. -/
def IsSerial (origin : Seq) (blocks : List Stored) : Prop :=
  blocks.Pairwise fun a b => Seq.distance origin a.header.base < Seq.distance origin b.header.base ∨
    Seq.distance origin a.header.base = Seq.distance origin b.header.base ∧
      a.ref.generation < b.ref.generation

theorem IsSerial.eq_of_perm {first second : List Stored} (one : IsSerial origin first)
    (other : IsSerial origin second) (perm : first.Perm second) : first = second := by
  refine perm.eq_of_pairwise (fun a b _ _ before after => ?_) one other
  rcases before with less | ⟨same, older⟩ <;> rcases after with more | ⟨level, newer⟩
  · exact absurd more (Nat.lt_asymm less)
  · exact absurd level (Nat.ne_of_gt less)
  · exact absurd same (Nat.ne_of_gt more)
  · exact absurd newer (UInt64.lt_asymm older)

theorem isSerial_drainOrder {anchor : Seq} (anchored : Seq.distance origin anchor < Seq.halfTurn)
    (within : ∀ block ∈ blocks, Seq.distance origin block.header.base < Seq.halfTurn)
    (apart : blocks.Pairwise fun a b => a.ref.generation ≠ b.ref.generation) :
    IsSerial origin (drainOrder anchor blocks) := by
  have sorted := List.pairwise_mergeSort (anchorLe_trans anchor) (anchorLe_total anchor) blocks
  have differ := (List.mergeSort_perm blocks (anchorLe anchor)).symm.pairwise apart Ne.symm
  refine ((pairwise_drainOrder anchored within).and (sorted.and differ)).imp ?_
  rintro a b ⟨near, order, differ⟩
  rcases Nat.lt_or_eq_of_le near with less | same
  · exact .inl less
  · -- blocks at one place are alike to the anchor, which leaves their numbers to tell them apart
    have base : a.header.base = b.header.base := by
      rw [← Seq.advance_distance origin a.header.base, same, Seq.advance_distance]
    rw [anchorLe_iff, base] at order
    rcases order with ⟨behind, ahead⟩ | ⟨_, less | ⟨_, older⟩⟩
    · exact absurd (behind.symm.trans ahead) Bool.noConfusion
    · exact absurd less (Nat.lt_irrefl _)
    · exact .inr ⟨same, UInt64.lt_of_le_of_ne older differ⟩

/-- The byte awaited, if any, and the bases of the payload blocks lie within half a turn from a number
on. -/
def LiesWithin (origin : Seq) (expected : Option Seq) (blocks : List Stored) : Prop :=
  (∀ next, expected = some next → Seq.distance origin next < Seq.halfTurn) ∧
    ∀ block ∈ blocks, block.header.kind.isPayload = true →
      Seq.distance origin block.header.base < Seq.halfTurn

/-- Of the payload blocks in serial order, some are those before the first that is not ready. -/
def IsReadyPrefix (origin : Seq) (blocks taken : List Stored) : Prop :=
  ∃ ordered, ordered.Perm (blocks.filter (·.header.kind.isPayload)) ∧ IsSerial origin ordered ∧
    taken = ordered.takeWhile (·.ready)

theorem IsReadyPrefix.unique {first second : List Stored} (one : IsReadyPrefix origin blocks first)
    (other : IsReadyPrefix origin blocks second) : first = second := by
  obtain ⟨ordered, perm, serial, rfl⟩ := one
  obtain ⟨ordered', perm', serial', rfl⟩ := other
  rw [serial.eq_of_perm serial' (perm.trans perm'.symm)]

def sideTaken (expected : Option Seq) (blocks : List Stored) : List Stored :=
  let payload := blocks.filter (·.header.kind.isPayload)
  match anchor? expected payload with
  | none => []
  | some anchor => (drainOrder anchor payload).takeWhile (·.ready)

theorem mem_sideTaken {block : Stored} (taken : block ∈ sideTaken expected blocks) :
    block ∈ blocks ∧ block.header.kind.isPayload = true ∧ block.ready = true := by
  rw [sideTaken] at taken
  split at taken
  · exact absurd taken List.not_mem_nil
  · have wanted := mem_drainOrder.mp (List.takeWhile_subset _ taken)
    exact ⟨(List.mem_filter.mp wanted).1, (List.mem_filter.mp wanted).2, List.mem_takeWhile_imp taken⟩

/-- Where blocks lie within half a turn, draining takes those before the first in serial order that is not
ready. -/
theorem isReadyPrefix_sideTaken (lies : LiesWithin origin expected blocks)
    (apart : blocks.Pairwise fun a b => a.ref.generation ≠ b.ref.generation) :
    IsReadyPrefix origin blocks (sideTaken expected blocks) := by
  obtain ⟨awaited, bases⟩ := lies
  have within : ∀ block ∈ blocks.filter (·.header.kind.isPayload),
      Seq.distance origin block.header.base < Seq.halfTurn := fun block listed =>
    bases block (List.mem_filter.mp listed).1 (List.mem_filter.mp listed).2
  rw [sideTaken]
  split
  · next none_found =>
    exact ⟨[], by rw [anchor?_eq_none none_found], .nil, rfl⟩
  · next anchor found =>
    exact ⟨_, List.mergeSort_perm _ _, isSerial_drainOrder (distance_anchor awaited within found) within
      (apart.sublist List.filter_sublist), rfl⟩

theorem sideDrained_taken (now : Micros) (blocks : List Stored) (state : Drained) :
    let expected := state.position.expected.get side
    let taken := sideTaken expected blocks
    (sideDrained flow side now blocks state).2 =
      (taken.map (·.ref), (deliverFrames flow side expected (taken.flatMap (·.frames))).1) := by
  dsimp only
  rw [sideDrained, sideTaken]
  dsimp only
  cases anchor? (state.position.expected.get side) (blocks.filter (·.header.kind.isPayload)) with
  | none => rfl
  | some anchor => rfl

def Event.isOn (flow : FlowId) (side : Side) : Event → Bool
  | .data other part _ _ | .gap other part _ _ => other = flow ∧ part = side
  | .started _ _ | .expired _ => false

theorem Event.flow_of_isOn {event : Event} (on : event.isOn flow side = true) : event.flow = flow := by
  cases event with
  | data other part start bytes => exact (of_decide_eq_true on).1
  | gap other part next resumed => exact (of_decide_eq_true on).1
  | started other initialSeq => cases on
  | expired other => cases on

theorem filter_isOn_deliverFrames (flow : FlowId) (side part : Side) (expected : Option Seq)
    (frames : List Block.Frame) :
    (deliverFrames flow side expected frames).1.filter (·.isOn flow part) =
      if side = part then (deliverFrames flow side expected frames).1 else [] := by
  have all : ∀ event ∈ (deliverFrames flow side expected frames).1,
      event.isOn flow part = decide (side = part) := by
    intro event told
    obtain ⟨f, _, reached, told⟩ := mem_deliverFrames told
    rcases deliverFrame_tells reached f event told with ⟨_, _, rfl⟩ | ⟨_, _, rfl, _⟩
    · simp only [Event.isOn, true_and]
    · simp only [Event.isOn, true_and]
  split
  · next same => exact List.filter_eq_self.mpr fun event told => (all event told).trans (decide_eq_true same)
  · next other =>
    refine List.filter_eq_nil_iff.mpr fun event told on => other (of_decide_eq_true ?_)
    exact (all event told).symm.trans on

section Flow

variable {v : View} {p : Position} {sides : PerSide (List Stored)}

theorem mem_refs_drainedFrom {ref : Ref} :
    ref ∈ (drainedFrom v flow p sides.source sides.destination).2.1 ↔
      ref ∈ (readyMarkers (sides.source ++ sides.destination)).map Stored.ref ∨
        ∃ side, ref ∈ (sideTaken ((p.awaited sides v.now).get side) (sides.get side)).map Stored.ref := by
  rw [drainedFrom]
  dsimp only
  rw [sideDrained_taken, sideDrained_taken, expected_sideDrained _ _ _ _ (by decide), List.append_assoc,
    List.mem_append, List.mem_append, Side.exists_iff]
  rfl

theorem filter_isOn_drainedFrom (side : Side) :
    (drainedFrom v flow p sides.source sides.destination).2.2.filter (·.isOn flow side) =
      (deliverFrames flow side ((p.awaited sides v.now).get side)
        ((sideTaken ((p.awaited sides v.now).get side) (sides.get side)).flatMap (·.frames))).1 := by
  have opening (after : Position) : (announcement flow after).filter (·.isOn flow side) = [] := by
    rw [announcement]
    split
    · rfl
    · rfl
  rw [drainedFrom]
  dsimp only
  rw [sideDrained_taken, sideDrained_taken, expected_sideDrained _ _ _ _ (by decide), List.filter_append,
    List.filter_append, opening, List.nil_append]
  dsimp only
  rw [filter_isOn_deliverFrames, filter_isOn_deliverFrames]
  cases side with
  | source =>
    rw [if_pos rfl, if_neg (by decide), List.append_nil]
    rfl
  | destination =>
    rw [if_neg (by decide), if_pos rfl, List.nil_append]
    rfl

end Flow

def collected (v : View) (items : List Item) (flow : FlowId) : PerSide (List Stored) :=
  ⟨(items.filter (·.key.belongsTo flow .source)).map (Item.stored v),
    (items.filter (·.key.belongsTo flow .destination)).map (Item.stored v)⟩

section Items

variable {v : View} {items : List Item}

theorem get_collected (side : Side) : (collected v items flow).get side =
    (items.filter (·.key.belongsTo flow side)).map (Item.stored v) := by
  cases side with
  | source => rfl
  | destination => rfl

theorem mem_collected {block : Stored} : block ∈ (collected v items flow).get side ↔
    ∃ item ∈ items, item.key.belongsTo flow side = true ∧ item.stored v = block := by
  rw [get_collected, List.mem_map]
  exact exists_congr fun item => by rw [List.mem_filter, and_assoc]

theorem mem_collected_sides {block : Stored} :
    block ∈ (collected v items flow).source ++ (collected v items flow).destination ↔
      ∃ item ∈ items, item.key.flow = flow ∧ item.stored v = block := by
  have either := @Side.exists_iff fun side => block ∈ (collected v items flow).get side
  rw [List.mem_append]
  refine either.symm.trans ⟨?_, ?_⟩
  · rintro ⟨side, listed⟩
    obtain ⟨item, member, belongs, same⟩ := mem_collected.mp listed
    rw [FlowKey.belongsTo, Bool.and_eq_true, beq_iff_eq] at belongs
    exact ⟨item, member, belongs.1, same⟩
  · rintro ⟨item, member, rfl, same⟩
    exact ⟨item.key.side, mem_collected.mpr ⟨item, member, by simp [FlowKey.belongsTo], same⟩⟩

theorem pairwise_collected (apart : (items.map Item.entry).Pairwise fun a b =>
    a.ref.generation ≠ b.ref.generation) (flow : FlowId) (side : Side) :
    ((collected v items flow).get side).Pairwise fun a b => a.ref.generation ≠ b.ref.generation := by
  rw [get_collected]
  exact List.pairwise_map.mpr ((List.pairwise_map.mp apart).sublist List.filter_sublist)

theorem side_of_taken {item : Item}
    (taken : item.ref ∈ (sideTaken expected ((collected v items flow).get side)).map Stored.ref) :
    item.key.side = side := by
  obtain ⟨block, present, same⟩ := List.mem_map.mp taken
  obtain ⟨other, _, belongs, rfl⟩ := mem_collected.mp (mem_sideTaken present).1
  have key : other.key = item.key := congrArg Ref.key same
  rw [FlowKey.belongsTo, Bool.and_eq_true, beq_iff_eq, beq_iff_eq] at belongs
  rw [← key]
  exact belongs.2

end Items

section Rounds

variable {v : View} {l : Layout} {cat : Catalog} {p : Position}

theorem flowDrained_collected (checked : flow.raw.toNat < 0x80000000) (v : View) (p : Position)
    (cat : Catalog) : flowDrained v flow p cat =
      drainedFrom v flow p (collected v cat.items flow).source (collected v cat.items flow).destination := by
  have lane (side : Side) : cat.inLane (FlowKey.laneOf flow side) =
      cat.items.filter (·.key.belongsTo flow side) := by
    refine List.filter_congr fun item _ => ?_
    rw [Bool.eq_iff_iff, decide_eq_true_eq, FlowKey.belongsTo_iff side checked]
    exact Iff.rfl
  rw [flowDrained, drainedFrom, lane, lane]
  rfl

theorem mem_markers_collected (separate : cat.Distinct) {item : Item} (member : item ∈ cat.items) :
    item.ref ∈ (readyMarkers ((collected v cat.items item.key.flow).source ++
        (collected v cat.items item.key.flow).destination)).map Stored.ref ↔
      (item.stored v).isReadyMarker = true := by
  rw [List.mem_map]
  constructor
  · rintro ⟨block, ready, same⟩
    obtain ⟨there, due⟩ := List.mem_filter.mp (List.mem_mergeSort.mp ready)
    obtain ⟨other, known, _, rfl⟩ := mem_collected_sides.mp there
    obtain rfl := separate.eq_of_ref known member same
    exact due
  · intro due
    refine ⟨item.stored v, List.mem_mergeSort.mpr (List.mem_filter.mpr ⟨?_, due⟩), rfl⟩
    exact mem_collected_sides.mpr ⟨item, member, rfl, rfl⟩

/-- What draining the flow of a block does to the block: it goes if it is a ready marker or is taken of its
side. -/
theorem ref_mem_flowDrained (separate : cat.Distinct) {item : Item} (member : item ∈ cat.items) :
    item.ref ∈ (flowDrained v item.key.flow p cat).2.1 ↔ (item.stored v).isReadyMarker = true ∨
      item.ref ∈ (sideTaken ((p.awaited (collected v cat.items item.key.flow) v.now).get item.key.side)
        ((collected v cat.items item.key.flow).get item.key.side)).map Stored.ref := by
  rw [flowDrained_collected item.key.flow_checked, mem_refs_drainedFrom, mem_markers_collected separate member]
  refine or_congr_right ⟨?_, fun taken => ⟨_, taken⟩⟩
  rintro ⟨side, taken⟩
  rw [side_of_taken taken]
  exact taken

theorem filter_flatMap {β : Type} {sources : List (FlowId × β)} {news : FlowId × β → List Event}
    (own : ∀ source ∈ sources, ∀ event ∈ news source, event.flow = source.1)
    (distinct : sources.Pairwise fun a b => a.1 ≠ b.1) {source : FlowId × β} (listed : source ∈ sources)
    {wanted : Event → Bool} (mine : ∀ event, wanted event = true → event.flow = source.1) :
    (sources.flatMap news).filter wanted = (news source).filter wanted := by
  have silent {rest : List (FlowId × β)} (there : ∀ other ∈ rest, other ∈ sources)
      (apart : ∀ other ∈ rest, other.1 ≠ source.1) : (rest.flatMap news).filter wanted = [] := by
    refine List.filter_eq_nil_iff.mpr fun event told on => ?_
    obtain ⟨other, later, here⟩ := List.mem_flatMap.mp told
    exact apart other later ((own other (there other later) event here).symm.trans (mine event on))
  obtain ⟨front, back, rfl⟩ := List.append_of_mem listed
  obtain ⟨_, behind, before⟩ := List.pairwise_append.mp distinct
  rw [List.flatMap_append, List.flatMap_cons, List.filter_append, List.filter_append,
    silent (fun other there => List.mem_append_left _ there)
      fun other there => before other there source List.mem_cons_self,
    silent (fun other there => List.mem_append_right _ (List.mem_cons_of_mem _ there))
      fun other there => ((List.pairwise_cons.mp behind).1 other there).symm,
    List.nil_append, List.append_nil]

namespace Shard

def taken (v : View) (s : Shard) (items : List Item) (flow : FlowId) (side : Side) : List Stored :=
  match s.flows[flow]? with
  | none => []
  | some position =>
    sideTaken ((position.awaited (collected v items flow) v.now).get side)
      ((collected v items flow).get side)

/-- Whether a round leaves a block that takes some blocks of each side: it does unless the flow is owned,
and the block is a ready marker or among those taken. -/
def leaves (v : View) (s : Shard) (taken : FlowId → Side → List Stored) (item : Item) : Bool :=
  !s.owns item.key.flow || !(item.stored v).isReadyMarker &&
    decide (item.ref ∉ (taken item.key.flow item.key.side).map Stored.ref)

variable {s : Shard} (checked : ∀ flow, s.owns flow = true → flow.raw.toNat < 0x80000000)
include checked

theorem items_rounded (separate : cat.Distinct) (ordered : cat.Ordered l) :
    (s.rounded v cat).2.1.items = cat.items.filter (s.leaves v (s.taken v cat.items)) := by
  have left := fun item => @mem_rounded l v cat s checked separate ordered item
  rw [rounded_eq checked separate ordered] at left ⊢
  dsimp only at left ⊢
  rw [separate.items_without ordered] at left ⊢
  refine List.filter_congr fun item member => Bool.eq_iff_iff.mpr ?_
  have stays := (left item).symm.trans List.mem_filter
  rw [and_iff_right member, and_iff_right member] at stays
  rw [← stays, leaves, owns_eq, taken]
  cases known : s.flows[item.key.flow]? with
  | none => simp
  | some position =>
    simp only [Option.some.injEq, forall_eq', ref_mem_flowDrained separate member, Option.isSome_some,
      Bool.not_true, Bool.false_or, Bool.and_eq_true, Bool.not_eq_true', decide_eq_true_eq, not_or,
      Bool.not_eq_true]

theorem filter_isOn_rounded (separate : cat.Distinct) (ordered : cat.Ordered l)
    (stands : s.flows[flow]? = some p) (side : Side) :
    (s.rounded v cat).2.2.filter (·.isOn flow side) =
      (flowDrained v flow p cat).2.2.filter (·.isOn flow side) := by
  have own : ∀ pair ∈ s.flows.toList, ∀ event ∈ (flowDrained v pair.1 pair.2 cat).2.2,
      event.flow = pair.1 := by
    intro pair listed event told
    rw [flowDrained_collected (checked_of_mem checked listed)] at told
    exact drainedFrom_flow event told
  have ends (flows : List FlowId) : (flows.map Event.expired).filter (·.isOn flow side) = [] := by
    refine List.filter_eq_nil_iff.mpr fun event told => ?_
    obtain ⟨other, _, rfl⟩ := List.mem_map.mp told
    exact Bool.false_ne_true
  have listed : (flow, p) ∈ s.flows.toList := mem_flows.mpr stands
  rw [rounded_eq checked separate ordered]
  dsimp only
  rw [List.filter_append, ends, List.append_nil]
  exact filter_flatMap own s.distinct_flows listed fun event on => event.flow_of_isOn on

theorem drained_of_expired (separate : cat.Distinct) (ordered : cat.Ordered l)
    (stands : s.flows[flow]? = some p)
    (expired : .expired flow ∈ (s.rounded v cat).2.2 ∨ (s.rounded v cat).1.owns flow = false) :
    ∀ item ∈ cat.items, item.key.flow = flow → item.isPayload = false := by
  have small : flow.raw.toNat < 0x80000000 := checked flow (by rw [owns_eq, stands]; rfl)
  suffices ended : (fated v s.flowTimeout cat (flow, p)).position = none from
    (fateOf_none separate small ended).1
  rcases expired with told | forgotten
  · rw [rounded_eq checked separate ordered] at told
    rcases List.mem_append.mp told with early | late
    · obtain ⟨pair, listed, told⟩ := List.mem_flatMap.mp early
      rw [flowDrained_collected (checked_of_mem checked listed)] at told
      rcases drainedFrom_tells _ told with ⟨_, same⟩ | (⟨_, _, same⟩ | ⟨_, _, same, _⟩) |
        (⟨_, _, same⟩ | ⟨_, _, same, _⟩)
      all_goals cases same
    · obtain ⟨other, gone, same⟩ := List.mem_map.mp late
      cases same
      obtain ⟨fate, listed, rfl⟩ := List.mem_map.mp gone
      obtain ⟨known, ended⟩ := List.mem_filter.mp listed
      obtain ⟨pair, there, rfl⟩ := List.mem_map.mp known
      have position : some pair.2 = some p := (mem_flows.mp there).symm.trans stands
      obtain rfl := Option.some.inj position
      exact Option.isNone_iff_eq_none.mp ended
  · rw [owns_eq, flows_rounded checked separate ordered, stands] at forgotten
    exact Option.not_isSome_iff_eq_none.mp (Bool.eq_false_iff.mp forgotten)

end Shard

end Rounds

/-- What a round does to a side of a flow, of which the byte awaited was `expected` before it and `awaited`
after it saw the markers. It takes some of the blocks, each of them a ready payload block, and tells of their
frames. If they lie within half a turn, it takes those before the first in serial order that is not ready. -/
structure TakesSerially (told : List Event) (flow : FlowId) (side : Side) (expected awaited : Option Seq)
    (blocks taken : List Stored) : Prop where
  ready : ∀ block ∈ taken, block ∈ blocks ∧ block.header.kind.isPayload = true ∧ block.ready = true
  told : told.filter (·.isOn flow side) =
    (deliverFrames flow side awaited (taken.flatMap (·.frames))).1
  serial : ∀ origin, LiesWithin origin expected blocks → IsReadyPrefix origin blocks taken

theorem LiesWithin.awaited {p : Position} {side : Side}
    (lies : LiesWithin origin (p.expected.get side) blocks) (sides : PerSide (List Stored)) (now : Micros) :
    LiesWithin origin ((p.awaited sides now).get side) blocks := by
  refine ⟨fun next same => ?_, lies.2⟩
  rw [Position.awaited] at same
  rcases adoptAll_cases p (readyMarkers (sides.source ++ sides.destination)) now with
    ⟨_, stays⟩ | ⟨_, unread, _⟩
  · rw [stays] at same
    exact lies.1 next same
  · rw [unread, PerSide.get_both] at same
    cases same

end Delivery

namespace Commons

variable {start : Commons}

/-- A round takes the blocks of a side in serial order. However handles shared a region since it was
formatted, as long as fewer than `2 ^ 64` blocks were added, a round through one of them succeeds, of any
shard that took its flows from keys, whose flow numbers have 31 bits. Of each side of a flow that the shard
owns, if the payload blocks and the byte awaited lie within half a turn, it takes the longest ready part of
the blocks in the order of their distances from where the half turn begins, whatever their order in the store
and on whichever side of the byte awaited they lie. These go, and with them the ready markers of the flow;
all other blocks stay as they are. A flow is given up only if nothing of it was taken and it has no payload
block left. -/
theorem Fresh.drains_serially (fresh : start.Fresh) (moves : List Move)
    (few : start.addedBy moves < UInt64.size) {a : Attachment}
    (attached : a ∈ (start.run moves).handles) {s : Shard}
    (checked : ∀ flow, s.owns flow = true → flow.raw.toNat < 0x80000000) (now : Micros)
    (events : Array Event) :
    let items := Catalog.itemsIn a.layout (start.run moves).bytes
    ∃ stats s' region, ∃ (told : List Event) (taken : FlowId → Side → List Stored),
      Shard.round (a.view now) (s, ⟨⟨a.handle, (start.run moves).bytes⟩, events⟩) =
        .ok stats (s', ⟨region, events ++ told.toArray⟩) ∧
      Catalog.itemsIn a.layout region.bytes = items.filter (s.leaves (a.view now) taken) ∧
      ∀ flow position, s.flows[flow]? = some position →
        let sides := collected (a.view now) items flow
        (∀ side, TakesSerially told flow side (position.expected.get side)
          ((position.awaited sides now).get side) (sides.get side) (taken flow side)) ∧
        (.expired flow ∈ told ∨ s'.owns flow = false →
          (∀ side, taken flow side = []) ∧
          ∀ item ∈ Catalog.itemsIn a.layout region.bytes, item.key.flow = flow → item.isPayload = false) := by
  obtain ⟨l, first⟩ := fresh.carrying
  obtain ⟨cat, carrying, numbered⟩ := first.run_numbered .empty moves (by
    rw [Catalog.empty, UInt64.toNat_zero, Nat.zero_add]
    exact few)
  have seen := carrying.seen attached
  have separate := numbered.refs
  have ordered := seen.ordered
  obtain ⟨stats, region, ran, left⟩ :=
    @Shard.round_run (a.view now) _ _ events seen separate s checked
  dsimp only
  rw [seen.itemsIn_eq]
  have stays : Catalog.itemsIn a.layout region.bytes =
      cat.items.filter (s.leaves (a.view now) (s.taken (a.view now) cat.items)) :=
    left.itemsIn_eq.trans (Shard.items_rounded checked separate ordered)
  refine ⟨stats, _, region, _, s.taken (a.view now) cat.items, ran, stays, fun flow position stands => ?_⟩
  have small : flow.raw.toNat < 0x80000000 := checked flow (by rw [Shard.owns_eq, stands]; rfl)
  have taken (side : Side) : s.taken (a.view now) cat.items flow side =
      sideTaken ((position.awaited (collected (a.view now) cat.items flow) now).get side)
        ((collected (a.view now) cat.items flow).get side) := by
    rw [Shard.taken, stands]
    rfl
  refine ⟨fun side => ?_, fun expired => ?_⟩
  · rw [taken side]
    refine ⟨fun block => mem_sideTaken, ?_, fun origin lies => ?_⟩
    · rw [Shard.filter_isOn_rounded checked separate ordered stands, flowDrained_collected small,
        filter_isOn_drainedFrom]
      rfl
    · exact isReadyPrefix_sideTaken (lies.awaited _ now) (pairwise_collected numbered.distinct flow side)
  · have bare := Shard.drained_of_expired checked separate ordered stands expired
    refine ⟨fun side => ?_, fun item listed => ?_⟩
    · refine List.eq_nil_iff_forall_not_mem.mpr fun block listed => ?_
      rw [taken side] at listed
      obtain ⟨known, payload, _⟩ := mem_sideTaken listed
      obtain ⟨item, member, belongs, rfl⟩ := mem_collected.mp known
      rw [FlowKey.belongsTo, Bool.and_eq_true, beq_iff_eq] at belongs
      exact absurd payload (Bool.eq_false_iff.mp (bare item member belongs.1))
    · rw [stays] at listed
      exact bare item (List.mem_filter.mp listed).1

/-- Four payload blocks across the end of the circle. The one that reaches behind the byte
awaited is taken, and the one behind the end of the circle; the next is not ready, so the one after it stays,
though it is. -/
theorem drains_serially_wrapped : ∃ start : Commons, start.Fresh ∧ ∃ moves a s,
    start.addedBy moves < UInt64.size ∧ a ∈ (start.run moves).handles ∧
      (∀ flow, s.owns flow = true → flow.raw.toNat < 0x80000000) ∧
      ∃ stats s' region, ∃ told : List Event,
        Shard.round (a.view 12000000) (s, ⟨⟨a.handle, (start.run moves).bytes⟩, #[]⟩) =
          .ok stats (s', ⟨region, told.toArray⟩) ∧
        told.filter (·.isOn ⟨7⟩ .source) = [.data ⟨7⟩ .source ⟨0xFFFFFFF1⟩ ⟨#[2, 3]⟩,
          .gap ⟨7⟩ .source ⟨0xFFFFFFF3⟩ ⟨0x10⟩, .data ⟨7⟩ .source ⟨0x10⟩ ⟨#[4, 5]⟩] ∧
        (Catalog.itemsIn a.layout region.bytes).map Item.ref =
          [⟨.pack ⟨7⟩ .source ⟨0x100⟩, 4⟩, ⟨.pack ⟨7⟩ .source ⟨0x200⟩, 3⟩] := by
  obtain ⟨start, fresh, handles, carrying⟩ :=
    (@Commons.Fresh.of_config ({ blockCapacity := 64, maxBlocks := 8 })) rfl rfl
  let operations : List Operation := [.put ⟨⟨7⟩, .source, ⟨0xFFFFFFF0⟩, ⟨#[1, 2, 3]⟩⟩ 1000000,
    .put ⟨⟨7⟩, .source, ⟨0x10⟩, ⟨#[4, 5]⟩⟩ 1000001, .put ⟨⟨7⟩, .source, ⟨0x200⟩, ⟨#[7]⟩⟩ 1000002,
    .sweep 2000000, .put ⟨⟨7⟩, .source, ⟨0x100⟩, ⟨#[6]⟩⟩ 2000001]
  let position : Position :=
    ⟨⟨0xFFFFFFE0⟩, ⟨.pack ⟨7⟩ .source ⟨0xFFFFFFE0⟩, 0⟩, ⟨some ⟨0xFFFFFFF1⟩, none⟩, 11000000, true⟩
  let s : Shard := ⟨0, 60000000, (∅ : Std.ExtTreeMap FlowId Position).insert ⟨7⟩ position⟩
  have flows (flow : FlowId) : s.flows[flow]? = if ⟨7⟩ = flow then some position else none := by
    rw [FlowId.getElem?_insert, Std.ExtTreeMap.getElem?_empty]
  have checked : ∀ flow, s.owns flow = true → flow.raw.toNat < 0x80000000 := by
    intro flow owned
    rw [Shard.owns_eq, flows] at owned
    split at owned
    · next same => exact same ▸ (by decide)
    · cases owned
  have few : start.addedBy (operations.map (.operate 0)) < UInt64.size := by
    have bound := carrying.addedBy_le (operations.map (.operate 0))
    have blocks : 5 * UInt32.toNat 8 < UInt64.size := by decide
    exact Nat.lt_of_le_of_lt bound blocks
  obtain ⟨attached, carrying'⟩ := carrying.alone handles operations
  generalize after : Operation.effects _ _ operations = shared at attached carrying'
  have member : shared.1 ∈ (start.run (operations.map (.operate 0))).handles :=
    attached ▸ List.mem_singleton_self _
  have seen := carrying'.seen member
  obtain ⟨stats, s', region, told, taken, ran, left, drained⟩ :=
    fresh.drains_serially (operations.map (.operate 0)) few member checked 12000000 #[]
  rw [Array.empty_append] at ran
  rw [seen.itemsIn_eq] at left drained
  obtain ⟨serially, _⟩ := drained ⟨7⟩ position (by rw [flows, if_pos rfl])
  have side := serially .source
  have lies : LiesWithin ⟨0xFFFFFFF0⟩ (position.expected.get .source)
      ((collected (shared.1.view 12000000) shared.2.items ⟨7⟩).get .source) := by
    refine ⟨fun next same => ?_, ?_⟩
    · cases same
      decide
    · subst after
      decide +kernel
  -- in the store the block from before the end of the circle comes last
  have serial : IsSerial ⟨0xFFFFFFF0⟩ ((((collected (shared.1.view 12000000) shared.2.items ⟨7⟩).get
      .source).filter (·.header.kind.isPayload)).rotate 3) := by
    rw [IsSerial]
    subst after
    decide +kernel
  have first := (side.serial _ lies).unique ⟨_, List.rotate_perm _ 3, serial, rfl⟩
  have own : ∀ item ∈ shared.2.items, item.key.flow = ⟨7⟩ ∧ item.key.side = .source := by
    subst after
    decide +kernel
  refine ⟨start, fresh, operations.map (.operate 0), shared.1, s, few, member, checked, stats, s', region, told,
    ran, ?_, ?_⟩
  · rw [side.told, first]
    subst after
    decide +kernel
  · have leaves : ∀ item ∈ shared.2.items, s.leaves (shared.1.view 12000000) taken item =
        s.leaves (shared.1.view 12000000) (fun _ _ => taken ⟨7⟩ .source) item := by
      intro item listed
      rw [Shard.leaves, Shard.leaves, (own item listed).1, (own item listed).2]
    rw [left, List.filter_congr leaves, first]
    subst after
    decide +kernel

end Commons

end Reassembly
