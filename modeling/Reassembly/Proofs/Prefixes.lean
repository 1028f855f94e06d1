import Reassembly.Proofs.Recovery

/-!
Draining a part of a stream. Of the blocks that hold what is still to come of a side, those before the
first that is not ready go, and the reader is told what they hold: a first part of the stream, and a block
goes just if its bytes are in that part.
-/

namespace Reassembly

open Store Reading Delivery

namespace Stream

variable {stream : Stream} {f : Block.Frame} {frames : List Block.Frame} {next place count : Nat}

theorem Cuts.spans_iff (cuts : stream.Cuts f) (inside : place < stream.bytes.size) :
    f.Spans (stream.initial.advance place) ↔ stream.place f.start ≤ place ∧ place < stream.stop f := by
  have fits := cuts.spec.1
  have here := @Stream.advance_place stream f.start
  rw [stop] at fits ⊢
  constructor
  · rintro ⟨step, small, same⟩
    rw [← here, Seq.advance_advance] at same
    have places := congrArg stream.place same
    rw [place_advance (by omega), place_advance (by omega)] at places
    omega
  · rintro ⟨early, late⟩
    refine ⟨place - stream.place f.start, by omega, ?_⟩
    calc f.start.advance (place - stream.place f.start)
      _ = (stream.initial.advance (stream.place f.start)).advance (place - stream.place f.start) := by
        rw [here]
      _ = stream.initial.advance place := by
        rw [Seq.advance_advance]
        congr 1
        omega

theorem Cuts.rest (cuts : stream.Cuts f) (behind : count ≤ stream.place f.start) :
    f.CutFrom (stream.initial.advance count) (stream.bytes.extract count stream.bytes.size) := by
  obtain ⟨place, fits, start, data⟩ := cuts
  have here : stream.place f.start = place := by
    rw [start]
    exact place_advance (by omega)
  rw [here] at behind
  refine ⟨place - count, by rw [ByteArray.size_extract]; omega, ?_, data.trans ?_⟩
  · rw [start, Seq.advance_advance]
    congr 1
    omega
  · rw [Bytes.slice, Bytes.slice, ByteArray.extract_extract]
    congr 1
    · omega
    · omega

theorem stop_le_reach (stream : Stream) (next : Nat) (listed : f ∈ frames) :
    stream.stop f ≤ stream.reach next frames := by
  induction frames generalizing next with
  | nil => exact absurd listed List.not_mem_nil
  | cons first rest ih =>
    rcases List.mem_cons.mp listed with rfl | later
    · exact (Nat.le_max_right _ _).trans (stream.le_reach _ rest)
    · exact ih _ later

theorem Follow.exists_frame (follow : stream.Follow next frames) (behind : next ≤ place)
    (reached : place < stream.reach next frames) :
    ∃ f ∈ frames, stream.place f.start ≤ place ∧ place < stream.stop f := by
  induction frames generalizing next with
  | nil => exact absurd (Nat.lt_of_le_of_lt behind reached) (Nat.lt_irrefl _)
  | cons first rest ih =>
    by_cases here : place < stream.stop first
    · exact ⟨first, List.mem_cons_self, follow.1.trans behind, here⟩
    · obtain ⟨f, listed, spans⟩ := ih follow.2 (by omega) reached
      exact ⟨f, List.mem_cons_of_mem _ listed, spans⟩

end Stream

namespace Delivery

variable {stream : Stream} {flow : FlowId} {side : Side} {now : Micros} {blocks : List Stored}
  {state : Drained}

/-- What draining a side does that has some bytes to tell, of which `count` are told. -/
structure Told (initial : Seq) (bytes : ByteArray) (flow : FlowId) (side : Side) (blocks : List Stored)
    (drained : Drained × List Ref × List Event) (count : Nat) : Prop where
  inside : count ≤ bytes.size
  tells : Tells flow side drained.2.2
  hears : heard flow side drained.2.2 = bytes.extract 0 count
  next : drained.1.position.expected.get side = none ∧ count = 0 ∨
    drained.1.position.expected.get side = some (initial.advance count)
  ready : ∀ block ∈ blocks, block.ref ∈ drained.2.1 → block.ready = true
  gone : ∀ block ∈ blocks, block.header.kind.isPayload = true → ∀ place, place < bytes.size →
    (∃ f ∈ block.frames, f.Spans (initial.advance place)) → (block.ref ∈ drained.2.1 ↔ place < count)
  all : (∀ block ∈ blocks, block.header.kind.isPayload = true → block.ready = true) → count = bytes.size

theorem sideDrained_nothing {initial : Seq} {bytes : ByteArray} (none_left : bytes.size = 0)
    (next : state.position.expected.get side = none ∨ state.position.expected.get side = some initial)
    (markers : ∀ block ∈ blocks, block.header.kind.isPayload = false) :
    Told initial bytes flow side blocks (sideDrained flow side now blocks state) 0 := by
  have empty : blocks.filter (·.header.kind.isPayload) = [] := by
    refine List.filter_eq_nil_iff.mpr fun block listed payload => ?_
    rw [markers block listed] at payload
    cases payload
  have result : (sideDrained flow side now blocks state).2 = ([], []) ∧
      (sideDrained flow side now blocks state).1.position.expected.get side =
        state.position.expected.get side := by
    rw [sideDrained]
    dsimp only
    rw [empty]
    rcases next with unread | read
    · rw [unread]
      exact ⟨rfl, unread⟩
    · have sorted : drainOrder initial [] = [] := List.mergeSort_nil
      have anchor : anchor? (some initial) [] = some initial := rfl
      rw [read, anchor]
      dsimp only
      rw [sorted]
      exact ⟨rfl, PerSide.get_set_self _ _ _⟩
  have refs : (sideDrained flow side now blocks state).2.1 = [] := congrArg Prod.fst result.1
  have told : (sideDrained flow side now blocks state).2.2 = [] := congrArg Prod.snd result.1
  refine ⟨Nat.zero_le _, ?_, ?_, ?_, fun block listed gone => ?_, fun block listed payload => ?_,
    fun _ => none_left.symm⟩
  · rw [told]
    exact fun event listed => absurd listed List.not_mem_nil
  · rw [told]
    exact ByteArray.extract_same.symm
  · rw [result.2, Seq.advance_zero]
    exact next.imp (fun unread => ⟨unread, rfl⟩) id
  · rw [refs] at gone
    exact absurd gone List.not_mem_nil
  · rw [markers block listed] at payload
    cases payload

/-- Frames that follow one another from the start of a stream tell its first part, to a reader who is
there or has read nothing yet. -/
theorem deliverFrames_front {expected : Option Seq} {frames : List Block.Frame}
    (next : expected = none ∨ expected = some stream.initial) (cuts : ∀ f ∈ frames, stream.Cuts f)
    (follow : stream.Follow 0 frames) :
    let told := deliverFrames flow side expected frames
    Tells flow side told.1 ∧
      heard flow side told.1 = stream.bytes.extract 0 (stream.reach 0 frames) ∧
      (told.2 = none ∧ stream.reach 0 frames = 0 ∨
        told.2 = some (stream.initial.advance (stream.reach 0 frames))) := by
  have told := @deliverFrames_spec _ flow side _ _ cuts follow (Nat.zero_le _)
  rw [Seq.advance_zero] at told
  rcases next with rfl | rfl
  · cases frames with
    | nil => exact ⟨fun event told => absurd told List.not_mem_nil, ByteArray.extract_same.symm, .inl ⟨rfl, rfl⟩⟩
    | cons f rest =>
      rw [deliverFrames_unread (List.cons_ne_nil f rest) follow]
      exact ⟨told.2.1, told.2.2, .inr told.1⟩
  · exact ⟨told.2.1, told.2.2, .inr told.1⟩

theorem sideDrained_of_anchor {anchor : Seq} (found : anchor? (state.position.expected.get side)
      (blocks.filter (·.header.kind.isPayload)) = some anchor) :
    let order := drainOrder anchor (blocks.filter (·.header.kind.isPayload))
    let ready := order.takeWhile Stored.ready
    let told := deliverFrames flow side (state.position.expected.get side) (ready.flatMap Stored.frames)
    sideDrained flow side now blocks state =
      (⟨{ state.position with
          expected := state.position.expected.set told.2 side
          lastUpdate := if ready.isEmpty then state.position.lastUpdate else now },
        state.consumed + ready.length, state.pending + (order.length - ready.length)⟩,
        ready.map Stored.ref, told.1) := by
  rw [sideDrained]
  dsimp only
  rw [found]

/-- Where blocks keep apart, those whose frames follow one another from the start of a stream are those with
bytes before the place that the frames reach. -/
theorem ref_mem_of_follow {ready : List Stored} (follow : stream.Follow 0 (ready.flatMap Stored.frames))
    (cuts : ∀ f ∈ ready.flatMap Stored.frames, stream.Cuts f)
    (listed : ∀ block ∈ ready, block ∈ blocks ∧ block.header.kind.isPayload = true)
    (separate : ∀ a ∈ blocks, ∀ b ∈ blocks, a.ref = b.ref → a = b)
    (apart : ∀ a ∈ blocks, ∀ b ∈ blocks, a.header.kind.isPayload = true →
      b.header.kind.isPayload = true → ∀ position, (∃ f ∈ a.frames, f.Spans position) →
        (∃ f ∈ b.frames, f.Spans position) → a = b)
    {block : Stored} (there : block ∈ blocks) (holds : block.header.kind.isPayload = true) {place : Nat}
    (more : place < stream.bytes.size) (spans : ∃ f ∈ block.frames, f.Spans (stream.initial.advance place)) :
    block.ref ∈ ready.map Stored.ref ↔ place < stream.reach 0 (ready.flatMap Stored.frames) := by
  constructor
  · intro gone
    obtain ⟨other, present, same⟩ := List.mem_map.mp gone
    obtain rfl := separate other (listed other present).1 block there same
    obtain ⟨f, framed, spans⟩ := spans
    have within : f ∈ ready.flatMap Stored.frames := List.mem_flatMap.mpr ⟨other, present, framed⟩
    have late := (((cuts f within).spans_iff more).mp spans).2
    have far := stream.stop_le_reach 0 within
    omega
  · intro early
    obtain ⟨f, present, spans'⟩ := follow.exists_frame (Nat.zero_le place) early
    have spans' := ((cuts f present).spans_iff more).mpr spans'
    obtain ⟨other, there', framed⟩ := List.mem_flatMap.mp present
    have known := listed other there'
    obtain rfl := apart other known.1 block there known.2 holds _ ⟨f, framed, spans'⟩ spans
    exact List.mem_map_of_mem there'

theorem sideDrained_prefix (next : state.position.expected.get side = none ∨
      state.position.expected.get side = some stream.initial)
    (fills : ∀ block ∈ blocks, block.header.kind.isPayload = true → ∃ length, stream.Fills block length)
    (whole : ∀ place, place < stream.bytes.size → ∃ block ∈ blocks,
      block.header.kind.isPayload = true ∧ ∃ f ∈ block.frames, f.Spans (stream.initial.advance place))
    (separate : ∀ a ∈ blocks, ∀ b ∈ blocks, a.ref = b.ref → a = b)
    (apart : ∀ a ∈ blocks, ∀ b ∈ blocks, a.header.kind.isPayload = true →
      b.header.kind.isPayload = true → ∀ position, (∃ f ∈ a.frames, f.Spans position) →
        (∃ f ∈ b.frames, f.Spans position) → a = b) :
    ∃ count, Told stream.initial stream.bytes flow side blocks (sideDrained flow side now blocks state) count := by
  have read : ∀ block, block ∈ blocks.filter (·.header.kind.isPayload) ↔
      block ∈ blocks ∧ block.header.kind.isPayload = true := fun block => List.mem_filter
  have stands : IsStream stream (blocks.filter (·.header.kind.isPayload)) := by
    refine ⟨fun block kept => fills block ((read block).mp kept).1 ((read block).mp kept).2,
      fun place more => ?_⟩
    obtain ⟨block, listed, holds, spans⟩ := whole place more
    exact ⟨block, (read block).mpr ⟨listed, holds⟩, spans⟩
  generalize payload_eq : blocks.filter (·.header.kind.isPayload) = payload at read stands
  have anchor : anchor? (state.position.expected.get side) payload = some stream.initial := by
    rcases next with unread | read
    · rw [unread]
      exact stands.anchor
    · rw [read]
      rfl
  have kept : ∀ block, block ∈ drainOrder stream.initial payload ↔ block ∈ payload :=
    fun block => mem_drainOrder
  obtain ⟨follow, reach⟩ := stands.follow
  have all_cuts : ∀ f ∈ (drainOrder stream.initial payload).flatMap Stored.frames, stream.Cuts f :=
    fun _ => stands.cuts
  generalize sorted : drainOrder stream.initial payload = order at kept follow reach all_cuts
  have parts := List.takeWhile_append_dropWhile (p := Stored.ready) (l := order)
  generalize taken : order.takeWhile Stored.ready = ready at parts
  rw [← parts, List.flatMap_append] at all_cuts
  have first : stream.Follow 0 (ready.flatMap Stored.frames) := by
    rw [← parts, List.flatMap_append, Stream.follow_append] at follow
    exact follow.1
  have listed : ∀ block ∈ ready, block ∈ blocks ∧ block.header.kind.isPayload = true := by
    intro block there
    rw [← taken] at there
    exact (read block).mp ((kept block).mp (List.takeWhile_subset _ there))
  have cuts : ∀ f ∈ ready.flatMap Stored.frames, stream.Cuts f := fun f present =>
    all_cuts f (List.mem_append_left _ present)
  have delivered := @deliverFrames_front _ flow side _ _ next cuts first
  have bound := stream.reach_le cuts (Nat.zero_le _)
  have result := @sideDrained_of_anchor flow side now blocks state _ (payload_eq ▸ anchor)
  dsimp only at result
  rw [payload_eq, sorted, taken] at result
  refine ⟨stream.reach 0 (ready.flatMap Stored.frames), bound, ?_, ?_, ?_, fun block there gone => ?_,
    fun block there holds place more spans => ?_, fun allReady => ?_⟩
  · rw [result]
    exact delivered.1
  · rw [result]
    exact delivered.2.1
  · rw [result]
    dsimp only
    rw [PerSide.get_set_self]
    exact delivered.2.2
  · rw [result] at gone
    obtain ⟨other, present, same⟩ := List.mem_map.mp gone
    obtain rfl := separate other (listed other present).1 block there same
    rw [← taken] at present
    exact List.mem_takeWhile_imp present
  · rw [result]
    exact ref_mem_of_follow first cuts listed separate apart there holds more spans
  · have every : order.takeWhile Stored.ready = order := by
      refine List.takeWhile_eq_self_iff.mpr fun block there => ?_
      obtain ⟨known, holds⟩ := (read block).mp ((kept block).mp there)
      exact allReady block known holds
    rw [← taken, every]
    exact reach

end Delivery

end Reassembly
