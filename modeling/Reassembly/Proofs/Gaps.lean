import Reassembly.Proofs.Circuits
import Reassembly.Proofs.Recovery
import Reassembly.Proofs.Representation
import Reassembly.Proofs.Steadiness

/-!
What lies in a gap. The blocks of a side are delivered in the order of their bases, if these and the byte
awaited lie within half a turn from some number on. So where the next block starts behind the byte awaited,
all that was delivered lies before the gap, and all that still waits lies behind it: no stored byte is
ever reported missing.
-/

namespace Reassembly

open Store Reading Delivery

namespace Seq

variable {base a b : Seq}

theorem before_iff_distance_lt (ahead : distance base a < distance base b + halfTurn)
    (behind : distance base b ≤ distance base a + halfTurn) :
    before a b = true ↔ distance base a < distance base b := by
  rw [before_iff]
  rw [halfTurn] at *
  rcases Nat.lt_or_ge (distance base a) (distance base b) with less | more
  · have turned := distance_of_lt less
    rw [circle] at turned
    omega
  · rw [distance_of_le more]
    omega

theorem distance_advance_inside {count : Nat} (inside : distance base a + count < circle) :
    distance base (a.advance count) = distance base a + count := by
  rw [distance_advance_right, Nat.mod_eq_of_lt inside]

theorem distance_of_inRange {s : Seq} (ordered : distance base a ≤ distance base b)
    (between : inRange s a b = true) : distance base a ≤ distance base s ∧ distance base s < distance base b := by
  have bound := distance_lt base b
  rw [inRange_iff, distance_of_le ordered] at between
  rcases Nat.lt_or_ge (distance base s) (distance base a) with less | more
  · have turned := distance_of_lt less
    rw [circle] at turned
    omega
  · rw [distance_of_le more] at between
    omega

end Seq

namespace Delivery

variable {origin : Seq} {expected : Option Seq} {flow : FlowId} {side : Side}

def reached (origin : Seq) (expected : Option Seq) : Nat := (expected.map (Seq.distance origin)).getD 0

theorem deliverFrame_reached {f : Block.Frame}
    (inside : Seq.distance origin f.start + f.data.size < Seq.circle)
    (ahead : Seq.distance origin f.start < reached origin expected + Seq.halfTurn)
    (behind : reached origin expected ≤ Seq.distance origin f.start + Seq.halfTurn) :
    let told := deliverFrame flow side expected f
    reached origin told.2 = max (reached origin expected) (Seq.distance origin f.start + f.data.size) ∧
      ∀ next resumed, .gap flow side next resumed ∈ told.1 → expected = some next ∧ resumed = f.start ∧
        Seq.distance origin next < Seq.distance origin f.start := by
  have stop : Seq.distance origin f.stop = Seq.distance origin f.start + f.data.size :=
    Seq.distance_advance_inside inside
  cases expected with
  | none =>
    refine ⟨?_, fun next resumed told => ?_⟩
    · change Seq.distance origin f.stop = max 0 _
      rw [stop, Nat.zero_max]
    · cases List.mem_singleton.mp told
  | some next =>
    have waits : reached origin (some next) = Seq.distance origin next := rfl
    rw [waits] at ahead behind
    have order := Seq.before_iff_distance_lt ahead behind
    dsimp only
    rw [waits, deliverFrame]
    dsimp only
    by_cases early : Seq.before f.start next = true
    · have less := order.mp early
      have seen : Seq.distance f.start next = Seq.distance origin next - Seq.distance origin f.start :=
        Seq.distance_of_le less.le
      rw [if_pos early]
      by_cases stale : f.data.size ≤ Seq.distance f.start next
      · rw [if_pos stale]
        refine ⟨?_, fun _ _ told => absurd told List.not_mem_nil⟩
        rw [waits]
        omega
      · rw [if_neg stale]
        refine ⟨?_, fun _ _ told => by cases List.mem_singleton.mp told⟩
        change Seq.distance origin (next.advance _) = _
        rw [ByteArray.size_extract, Nat.min_self, Seq.distance_advance_inside (by omega)]
        omega
    · have more := mt order.mpr early
      rw [if_neg early]
      by_cases due : f.start = next
      · rw [if_pos due]
        refine ⟨?_, fun _ _ told => by cases List.mem_singleton.mp told⟩
        change Seq.distance origin f.stop = _
        omega
      · rw [if_neg due]
        refine ⟨?_, fun _ _ told => ?_⟩
        · change Seq.distance origin f.stop = _
          omega
        · have apart : Seq.distance origin f.start ≠ Seq.distance origin next := fun same =>
            due ((Seq.distance_eq_zero_iff _ _).mp (by rw [Seq.distance_of_le same.le, same, Nat.sub_self]))
          rcases List.mem_cons.mp told with same | data
          · cases same
            exact ⟨rfl, rfl, by omega⟩
          · cases List.mem_singleton.mp data

theorem deliverFrames_behind {start : Seq} {chunks : List ByteArray}
    (inside : Seq.distance origin start + Block.streamLength chunks < Seq.circle)
    (le : Seq.distance origin start ≤ reached origin expected)
    (near : reached origin expected ≤ Seq.distance origin start + Seq.halfTurn) :
    let told := deliverFrames flow side expected (Block.lay start chunks)
    reached origin told.2 =
        max (reached origin expected) (Seq.distance origin start + Block.streamLength chunks) ∧
      ∀ next resumed, .gap flow side next resumed ∉ told.1 := by
  induction chunks generalizing start expected with
  | nil => exact ⟨(Nat.max_eq_left le).symm, fun _ _ => List.not_mem_nil⟩
  | cons chunk rest ih =>
    rw [Block.streamLength_cons] at inside ⊢
    rw [Block.lay, deliverFrames]
    dsimp only
    have walked : Seq.distance origin (start.advance chunk.size) = Seq.distance origin start + chunk.size :=
      Seq.distance_advance_inside (by omega)
    have first := @deliverFrame_reached origin expected flow side ⟨start, chunk⟩ (by dsimp only; omega)
      (by rw [Seq.halfTurn]; dsimp only; omega) near
    dsimp only at first
    obtain ⟨there, gapless⟩ := first
    have later := @ih (deliverFrame flow side expected ⟨start, chunk⟩).2 (start.advance chunk.size)
      (by omega) (by omega) (by omega)
    dsimp only at later
    obtain ⟨ends, silent⟩ := later
    refine ⟨by omega, fun next resumed told => ?_⟩
    rcases List.mem_append.mp told with early | late
    · obtain ⟨rfl, _, less⟩ := gapless next resumed early
      exact absurd le (Nat.not_le.mpr less)
    · exact silent next resumed late

def IsLaid (block : Stored) : Prop :=
  ∃ chunks, chunks ≠ [] ∧ Block.streamLength chunks < Seq.halfTurn ∧
    block.frames = Block.lay block.header.base chunks

theorem deliverFrames_block {block : Stored} (laid : IsLaid block)
    (within : Seq.distance origin block.header.base < Seq.halfTurn)
    (near : reached origin expected ≤ Seq.distance origin block.header.base + Seq.halfTurn) :
    let told := deliverFrames flow side expected block.frames
    reached origin expected ≤ reached origin told.2 ∧
      (∀ f ∈ block.frames, ∀ s, f.Spans s → Seq.distance origin block.header.base ≤ Seq.distance origin s ∧
        Seq.distance origin s < reached origin told.2) ∧
      reached origin told.2 ≤
        max (reached origin expected) (Seq.distance origin block.header.base + Seq.halfTurn) ∧
      ∀ next resumed, .gap flow side next resumed ∈ told.1 → expected = some next ∧
        resumed = block.header.base ∧ Seq.distance origin next < Seq.distance origin block.header.base := by
  obtain ⟨chunks, some, short, frames⟩ := laid
  rw [Seq.halfTurn] at *
  have spans : ∀ f ∈ block.frames, ∀ s, f.Spans s →
      Seq.distance origin block.header.base ≤ Seq.distance origin s ∧ Seq.distance origin s <
        Seq.distance origin block.header.base + Block.streamLength chunks := by
    intro f listed s holds
    rw [frames] at listed
    obtain ⟨step, small, rfl⟩ := (Block.lay_spans _ _ _).mp ⟨f, listed, holds⟩
    rw [Seq.distance_advance_inside (by rw [Seq.circle]; omega)]
    omega
  cases chunks with
  | nil => exact absurd rfl some
  | cons chunk rest =>
    rw [Block.streamLength_cons] at short spans
    rw [frames, Block.lay, deliverFrames]
    dsimp only
    have walked : Seq.distance origin (block.header.base.advance chunk.size) =
        Seq.distance origin block.header.base + chunk.size :=
      Seq.distance_advance_inside (by rw [Seq.circle]; omega)
    have first := @deliverFrame_reached origin expected flow side ⟨block.header.base, chunk⟩
      (by rw [Seq.circle]; dsimp only; omega) (by rw [Seq.halfTurn]; dsimp only; omega) near
    dsimp only at first
    obtain ⟨there, gaps⟩ := first
    have later := @deliverFrames_behind origin (deliverFrame flow side expected ⟨block.header.base, chunk⟩).2
      flow side (block.header.base.advance chunk.size) rest (by rw [Seq.circle]; omega) (by omega)
      (by rw [Seq.halfTurn]; omega)
    dsimp only at later
    obtain ⟨ends, silent⟩ := later
    refine ⟨by omega, fun f listed s holds => ?_, by omega, fun next resumed told => ?_⟩
    · rw [← Block.lay, ← frames] at listed
      have := spans f listed s holds
      omega
    · rcases List.mem_append.mp told with early | late
      · exact gaps next resumed early
      · exact absurd late (silent next resumed)

/-- Blocks in the order of their bases leave gaps only before a base, and behind all that the blocks before
it hold. -/
theorem deliverFrames_gap {blocks : List Stored} (laid : ∀ block ∈ blocks, IsLaid block)
    (within : ∀ block ∈ blocks, Seq.distance origin block.header.base < Seq.halfTurn)
    (sorted : blocks.Pairwise fun a b =>
      Seq.distance origin a.header.base ≤ Seq.distance origin b.header.base)
    (near : ∀ block ∈ blocks, reached origin expected ≤
      Seq.distance origin block.header.base + Seq.halfTurn) {next resumed : Seq}
    (told : .gap flow side next resumed ∈
      (deliverFrames flow side expected (blocks.flatMap (·.frames))).1) :
    ∃ front block back, blocks = front ++ block :: back ∧ resumed = block.header.base ∧
      reached origin expected ≤ Seq.distance origin next ∧
      Seq.distance origin next < Seq.distance origin resumed ∧
      ∀ earlier ∈ front, ∀ f ∈ earlier.frames, ∀ s, f.Spans s →
        Seq.distance origin s < Seq.distance origin next := by
  induction blocks generalizing expected with
  | nil => exact absurd told List.not_mem_nil
  | cons block rest ih =>
    obtain ⟨behind, sorted'⟩ := List.pairwise_cons.mp sorted
    have first := @deliverFrames_block origin expected flow side block (laid block List.mem_cons_self)
      (within block List.mem_cons_self) (near block List.mem_cons_self)
    dsimp only at first
    obtain ⟨grows, spans, bound, gaps⟩ := first
    rw [List.flatMap_cons, deliverFrames_append] at told
    rcases List.mem_append.mp told with early | late
    · obtain ⟨rfl, rfl, less⟩ := gaps next resumed early
      exact ⟨[], block, rest, rfl, rfl, Nat.le_refl _, less, fun _ none => absurd none List.not_mem_nil⟩
    · have further : ∀ other ∈ rest, reached origin (deliverFrames flow side expected block.frames).2 ≤
          Seq.distance origin other.header.base + Seq.halfTurn := by
        intro other listed
        have here := near other (List.mem_cons_of_mem _ listed)
        have order := behind other listed
        omega
      obtain ⟨front, other, back, rfl, same, reach, less, held⟩ := ih
        (fun block listed => laid block (List.mem_cons_of_mem _ listed))
        (fun block listed => within block (List.mem_cons_of_mem _ listed)) sorted' further late
      refine ⟨block :: front, other, back, rfl, same, grows.trans reach, less, ?_⟩
      intro earlier listed f present s holds
      rcases List.mem_cons.mp listed with rfl | listed
      · exact (spans f present s holds).2.trans_le reach
      · exact held earlier listed f present s holds

theorem mem_of_serialMin {seqs : List Seq} {least : Seq} (found : serialMin seqs = some least) :
    least ∈ seqs := by
  have fold (rest : List Seq) (first : Seq) :
      rest.foldl (fun least s => if Seq.before s least then s else least) first ∈ first :: rest := by
    induction rest generalizing first with
    | nil => exact List.mem_cons_self
    | cons s rest ih =>
      rw [List.foldl_cons]
      rcases List.mem_cons.mp (ih (if Seq.before s first then s else first)) with same | listed
      · rw [same]
        split
        · exact List.mem_cons_of_mem _ List.mem_cons_self
        · exact List.mem_cons_self
      · exact List.mem_cons_of_mem _ (List.mem_cons_of_mem _ listed)
  cases seqs with
  | nil => cases found
  | cons first rest =>
    obtain rfl := Option.some.inj found
    exact fold rest first

/-- Around an anchor among them, blocks that lie within half a turn are drained in the order of their
bases. -/
theorem pairwise_drainOrder {anchor : Seq} {blocks : List Stored}
    (anchored : Seq.distance origin anchor < Seq.halfTurn)
    (within : ∀ block ∈ blocks, Seq.distance origin block.header.base < Seq.halfTurn) :
    (drainOrder anchor blocks).Pairwise fun a b =>
      Seq.distance origin a.header.base ≤ Seq.distance origin b.header.base := by
  have sorted := List.pairwise_mergeSort (anchorLe_trans anchor) (anchorLe_total anchor) blocks
  have behind : ∀ block ∈ drainOrder anchor blocks, (Seq.before block.header.base anchor = true ↔
      Seq.distance origin block.header.base < Seq.distance origin anchor) := by
    intro block listed
    have near := within block (mem_drainOrder.mp listed)
    exact Seq.before_iff_distance_lt (by omega) (by omega)
  refine sorted.imp_of_mem fun {a b} first second le => ?_
  have early := behind a first
  have late := behind b second
  rcases (anchorLe_iff anchor a b).mp le with ⟨one, other⟩ | ⟨level, nearer⟩
  · have less := early.mp one
    have more := mt late.mpr (Bool.eq_false_iff.mp other)
    omega
  · have nigh : Seq.distance anchor a.header.base ≤ Seq.distance anchor b.header.base := by omega
    by_cases one : Seq.before a.header.base anchor = true
    · have first := Seq.distance_of_lt (early.mp one)
      have second := Seq.distance_of_lt (late.mp (level ▸ one))
      omega
    · have less := Nat.not_lt.mp (mt early.mpr one)
      have more := Nat.not_lt.mp (mt late.mpr (level ▸ one))
      rw [Seq.distance_of_le less, Seq.distance_of_le more] at nigh
      omega

theorem distance_anchor {anchor : Seq} {blocks : List Stored}
    (awaited : ∀ next, expected = some next → Seq.distance origin next < Seq.halfTurn)
    (within : ∀ block ∈ blocks, Seq.distance origin block.header.base < Seq.halfTurn)
    (found : anchor? expected blocks = some anchor) : Seq.distance origin anchor < Seq.halfTurn := by
  cases expected with
  | some next => exact Option.some.inj found ▸ awaited next rfl
  | none =>
    obtain ⟨block, listed, rfl⟩ := List.mem_map.mp (mem_of_serialMin found)
    exact within block listed

/-- The byte awaited, if any, and the bases of the payload blocks lie within half a turn from some number
on. -/
def IsNarrow (expected : Option Seq) (blocks : List Stored) : Prop :=
  ∃ origin : Seq, (∀ next, expected = some next → Seq.distance origin next < Seq.halfTurn) ∧
    ∀ block ∈ blocks, block.header.kind.isPayload = true →
      Seq.distance origin block.header.base < Seq.halfTurn

/-- No payload block holds a number from `start` up to `stop`. -/
def IsClear (blocks : List Stored) (start stop : Seq) : Prop :=
  ∀ block ∈ blocks, block.header.kind.isPayload = true → ∀ f ∈ block.frames, ∀ s,
    Seq.inRange s start stop = true → ¬ f.Spans s

theorem sideDrained_gap {blocks : List Stored} {state : Drained} {now : Micros}
    (laid : ∀ block ∈ blocks, block.header.kind.isPayload = true → IsLaid block)
    (narrow : IsNarrow (state.position.expected.get side) blocks) {next resumed : Seq}
    (told : .gap flow side next resumed ∈ (sideDrained flow side now blocks state).2.2) :
    IsClear blocks next resumed := by
  obtain ⟨origin, awaited, bases⟩ := narrow
  have payload : ∀ block, block ∈ blocks.filter (·.header.kind.isPayload) ↔
      block ∈ blocks ∧ block.header.kind.isPayload = true := fun block => List.mem_filter
  rw [sideDrained] at told
  dsimp only at told
  split at told
  · exact absurd told List.not_mem_nil
  · next anchor found =>
    generalize blocks.filter (·.header.kind.isPayload) = wanted at payload found told
    generalize state.position.expected.get side = expected at awaited found told
    have within : ∀ block ∈ wanted, Seq.distance origin block.header.base < Seq.halfTurn :=
      fun block listed => bases block ((payload block).mp listed).1 ((payload block).mp listed).2
    have anchored := distance_anchor awaited within found
    have start : reached origin expected < Seq.halfTurn := by
      cases expected with
      | some next => exact awaited next rfl
      | none => exact (by decide : 0 < Seq.halfTurn)
    have sorted := pairwise_drainOrder anchored within
    -- the blocks that stay come behind those that are delivered
    have parts := List.takeWhile_append_dropWhile (p := (·.ready)) (l := drainOrder anchor wanted)
    generalize (drainOrder anchor wanted).takeWhile (·.ready) = ready at parts told
    generalize (drainOrder anchor wanted).dropWhile (·.ready) = staying at parts
    have known : ∀ block, block ∈ ready ++ staying ↔ block ∈ wanted := by
      intro block
      rw [parts]
      exact mem_drainOrder
    rw [← parts] at sorted
    have inside : ∀ block ∈ ready, block ∈ wanted := fun block listed =>
      (known block).mp (List.mem_append_left _ listed)
    obtain ⟨front, first, back, rfl, rfl, _, less, held⟩ := deliverFrames_gap
      (fun block listed => laid block ((payload block).mp (inside block listed)).1
        ((payload block).mp (inside block listed)).2)
      (fun block listed => within block (inside block listed))
      (List.pairwise_append.mp sorted).1
      (fun block listed => by omega) told
    intro block listed stream f present s between holds
    obtain ⟨low, high⟩ := Seq.distance_of_inRange less.le between
    have there := (known block).mpr ((payload block).mpr ⟨listed, stream⟩)
    rw [List.append_assoc] at there sorted
    rcases List.mem_append.mp there with earlier | later
    · exact absurd (held block earlier f present s holds) (Nat.not_lt.mpr low)
    · have near := bases block listed stream
      have spans := @deliverFrames_block origin none flow side block (laid block listed stream) near
        (Nat.zero_le _)
      have behind : Seq.distance origin first.header.base ≤ Seq.distance origin block.header.base := by
        rcases List.mem_cons.mp later with rfl | later
        · exact Nat.le_refl _
        · exact (List.pairwise_cons.mp (List.pairwise_append.mp sorted).2.1).1 block later
      have := (spans.2.1 f present s holds).1
      omega

/-- The bytes that a position waits for, once the ready markers of the blocks collected were seen. -/
def Position.awaited (p : Position) (collected : PerSide (List Stored)) (now : Micros) :
    PerSide (Option Seq) :=
  (adoptAll p (readyMarkers (collected.source ++ collected.destination)) now).expected

theorem drainedFrom_gap {v : View} {p : Position} {collected : PerSide (List Stored)}
    (laid : ∀ block ∈ collected.get side, block.header.kind.isPayload = true → IsLaid block)
    (narrow : IsNarrow ((p.awaited collected v.now).get side) (collected.get side)) {next resumed : Seq}
    (told : .gap flow side next resumed ∈
      (drainedFrom v flow p collected.source collected.destination).2.2) :
    IsClear (collected.get side) next resumed := by
  rw [drainedFrom] at told
  dsimp only at told
  rw [Position.awaited] at narrow
  generalize adoptAll p (readyMarkers (collected.source ++ collected.destination)) v.now = after
    at narrow told
  rcases List.mem_append.mp told with early | second
  · rcases List.mem_append.mp early with new | first
    · rw [announcement] at new
      split at new
      · exact absurd new List.not_mem_nil
      · cases List.mem_singleton.mp new
    · rcases sideDrained_tells _ _ first with ⟨_, _, same⟩ | ⟨_, _, same, _⟩
      · cases same
        exact sideDrained_gap laid narrow first
      · cases same
  · rcases sideDrained_tells _ _ second with ⟨_, _, same⟩ | ⟨_, _, same, _⟩
    · cases same
      refine sideDrained_gap laid ?_ second
      rw [expected_sideDrained _ _ _ _ (by decide)]
      exact narrow
    · cases same

theorem isLaid_stored {l : Layout} {cat : Catalog} (sound : cat.Sound) (ordered : cat.Ordered l)
    (short : l.capacity < Seq.halfTurn) {item : Item} (member : item ∈ cat.items) (v : View)
    (payload : item.isPayload = true) : IsLaid (item.stored v) := by
  rcases sound item member with marker | ⟨chunks, streams⟩
  · rw [marker.isPayload] at payload
    cases payload
  · have fits := ordered.fits item member
    have total := streams.streamLength_lt fits
    refine ⟨chunks, streams.some, by omega, ?_⟩
    have base : (item.stored v).header.base = item.start := streams.base
    rw [base]
    exact streams.frames_eq fits

end Delivery

namespace Commons

variable {start : Commons}

/-- No gap is reported over stored bytes. However handles shared a region, a drain of a flow through one of
them succeeds, wherever the flow was read up to; and each gap that it tells of is clear of all the blocks
collected on that side, delivered or not, if they and the byte awaited lie within half a turn. As long as
fewer than `2 ^ 64` blocks were added, those are all blocks of the side, and the store holds no byte of
the gap. -/
theorem Fresh.gaps_hold_nothing (fresh : start.Fresh) (moves : List Move) {a : Attachment}
    (attached : a ∈ (start.run moves).handles) (short : a.layout.capacity < Seq.halfTurn) {flow : FlowId}
    (checked : flow.raw.toNat < 0x80000000) (position : Position) (now : Micros) (events : Array Event) :
    ∃ collected : PerSide (List Stored),
      (∀ side, range (a.view now) flow side ⟨a.handle, (start.run moves).bytes⟩ =
        .ok (collected.get side) ⟨a.handle, (start.run moves).bytes⟩) ∧
      ∃ drained region, ∃ told : List Event, drainFlow (a.view now) flow position
          ⟨⟨a.handle, (start.run moves).bytes⟩, events⟩ = .ok drained ⟨region, events ++ told.toArray⟩ ∧
        ∀ side expected resumedAt, .gap flow side expected resumedAt ∈ told →
          IsNarrow ((position.awaited collected now).get side) (collected.get side) →
          IsClear (collected.get side) expected resumedAt ∧
          (start.addedBy moves < UInt64.size → ∀ s, Seq.inRange s expected resumedAt = true →
            ¬ Covers (Catalog.itemsIn a.layout (start.run moves).bytes) (FlowKey.laneOf flow side) s) := by
  obtain ⟨l, first⟩ := fresh.carrying
  obtain ⟨cat, carrying⟩ := first.run moves
  have seen := carrying.seen attached
  obtain ⟨source, sources, inSource⟩ := range_found (v := a.view now) seen checked .source
  obtain ⟨destination, destinations, inDestination⟩ :=
    range_found (v := a.view now) seen checked .destination
  generalize collects : (⟨source.map (Item.stored (a.view now)),
    destination.map (Item.stored (a.view now))⟩ : PerSide (List Stored)) = collected
  have ranged : ∀ side, range (a.view now) flow side ⟨a.handle, (start.run moves).bytes⟩ =
      .ok (collected.get side) ⟨a.handle, (start.run moves).bytes⟩ := by
    rintro (_ | _)
    · rw [sources, ← collects]
      rfl
    · rw [destinations, ← collects]
      rfl
  have laid : ∀ side, ∀ block ∈ collected.get side, block.header.kind.isPayload = true → IsLaid block := by
    intro side block listed payload
    have known : ∃ item ∈ cat.items, block = item.stored (a.view now) := by
      rw [← collects] at listed
      cases side with
      | source =>
        obtain ⟨item, there, rfl⟩ := List.mem_map.mp listed
        exact ⟨item, (Catalog.mem_inLane.mp (inSource item there)).1, rfl⟩
      | destination =>
        obtain ⟨item, there, rfl⟩ := List.mem_map.mp listed
        exact ⟨item, (Catalog.mem_inLane.mp (inDestination item there)).1, rfl⟩
    obtain ⟨item, member, rfl⟩ := known
    exact isLaid_stored carrying.sound seen.ordered short member _ payload
  obtain ⟨region, ran, _⟩ := @drainFlow_from (a.view now) _ cat events seen flow _ _ (ranged .source)
    (ranged .destination) position
  refine ⟨collected, ranged, _, region, _, ran, fun side expected resumedAt told narrow => ?_⟩
  have clear := drainedFrom_gap (laid side) narrow told
  refine ⟨clear, fun few s between => ?_⟩
  -- references tell the blocks apart, so the walk over the side misses none
  obtain ⟨cat', carrying', numbered⟩ := first.run_numbered .empty moves (by
    rw [Catalog.empty, UInt64.toNat_zero, Nat.zero_add]
    exact few)
  have seen' := carrying'.seen attached
  have whole := range_run (v := a.view now) seen' numbered.refs checked side
  rw [ranged side] at whole
  rw [seen'.itemsIn_eq]
  rintro ⟨item, member, lane, payload, f, present, spans⟩
  refine clear (item.stored (a.view now)) ?_ payload f present s between spans
  rw [(EStateM.Result.ok.inj whole).1]
  exact List.mem_map_of_mem (Catalog.mem_inLane.mpr ⟨member, lane⟩)

/-- A reader has read one segment and erased its block, and the bytes up to the next one were lost. -/
theorem gaps_hold_nothing_resumed : ∃ start : Commons, start.Fresh ∧ ∃ moves a,
    a ∈ (start.run moves).handles ∧ a.layout.capacity < Seq.halfTurn ∧ ∃ position drained region,
      drainFlow (a.view 12000000) ⟨7⟩ position ⟨⟨a.handle, (start.run moves).bytes⟩, #[]⟩ =
        .ok drained ⟨region, #[.gap ⟨7⟩ .source ⟨103⟩ ⟨200⟩, .data ⟨7⟩ .source ⟨200⟩ ⟨#[6, 7]⟩]⟩ ∧
      ∀ s, Seq.inRange s ⟨103⟩ ⟨200⟩ = true →
        ¬ Covers (Catalog.itemsIn a.layout (start.run moves).bytes) (FlowKey.laneOf ⟨7⟩ .source) s := by
  obtain ⟨start, fresh, handles, carrying⟩ :=
    (@Commons.Fresh.of_config ({ blockCapacity := 64, maxBlocks := 8 })) rfl rfl
  let operations : List Operation := [.put ⟨⟨7⟩, .source, ⟨100⟩, ⟨#[3, 4, 5]⟩⟩ 1000000,
    .put ⟨⟨7⟩, .source, ⟨200⟩, ⟨#[6, 7]⟩⟩ 1000001, .sweep 9000000,
    .erase ⟨.pack ⟨7⟩ .source ⟨100⟩, 1⟩ 11000000]
  let position : Position := ⟨⟨100⟩, ⟨.pack ⟨7⟩ .source ⟨100⟩, 0⟩, ⟨some ⟨103⟩, none⟩, 11000000, true⟩
  have few : start.addedBy (operations.map (.operate 0)) < UInt64.size := by
    have bound := carrying.addedBy_le (operations.map (.operate 0))
    have blocks : 4 * UInt32.toNat 8 < UInt64.size := by decide
    exact Nat.lt_of_le_of_lt bound blocks
  obtain ⟨attached, carrying'⟩ := carrying.alone handles operations
  have checked : (⟨7⟩ : FlowId).raw.toNat < 0x80000000 := by decide
  generalize after : Operation.effects _ _ operations = shared at attached carrying'
  have member : shared.1 ∈ (start.run (operations.map (.operate 0))).handles :=
    attached ▸ List.mem_singleton_self _
  have short : shared.1.layout.capacity < Seq.halfTurn := by
    subst after
    decide +kernel
  have separate : shared.2.items.Pairwise fun a b => a.ref ≠ b.ref := by
    subst after
    decide +kernel
  have news : (flowDrained (shared.1.view 12000000) ⟨7⟩ position shared.2).2.2 =
      [.gap ⟨7⟩ .source ⟨103⟩ ⟨200⟩, .data ⟨7⟩ .source ⟨200⟩ ⟨#[6, 7]⟩] := by
    subst after
    decide +kernel
  have seen := carrying'.seen member
  have sources := range_run (v := shared.1.view 12000000) seen separate checked .source
  have destinations := range_run (v := shared.1.view 12000000) seen separate checked .destination
  obtain ⟨_, drains, _⟩ := @drainFlow_run (shared.1.view 12000000) _ _ #[] seen separate ⟨7⟩ checked position
  obtain ⟨⟨source, destination⟩, ranged, drained, region, told, ran, gaps⟩ :=
    fresh.gaps_hold_nothing (operations.map (.operate 0)) member short checked position 12000000 #[]
  obtain rfl := (EStateM.Result.ok.inj ((ranged .source).symm.trans sources)).1
  obtain rfl := (EStateM.Result.ok.inj ((ranged .destination).symm.trans destinations)).1
  have tells : #[] ++ told.toArray = _ :=
    congrArg Outlet.events (EStateM.Result.ok.inj (ran.symm.trans drains)).2
  rw [news] at tells
  have listed : .gap ⟨7⟩ .source ⟨103⟩ ⟨200⟩ ∈ told := by
    rw [Array.empty_append, Array.empty_append] at tells
    rw [List.toArray_inj tells]
    exact List.mem_cons_self
  refine ⟨start, fresh, operations.map (.operate 0), shared.1, member, short, position, drained, region, ?_,
    (gaps .source _ _ listed ⟨⟨100⟩, fun next same => ?_, ?_⟩).2 few⟩
  · rw [ran, tells]
    rfl
  · subst after
    have awaits : some next = some ⟨103⟩ := same.symm.trans (by decide +kernel)
    cases awaits
    decide
  · subst after
    decide +kernel

end Commons

end Reassembly
