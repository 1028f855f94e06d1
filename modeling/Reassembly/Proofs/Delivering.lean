import Reassembly.Proofs.Hearing
import Reassembly.Proofs.Spreading

/-!
Delivering a stream from its frames. Frames that were cut from one stream, each of which starts where the
ones before it end or earlier, make up the stream: whatever they share is told once, and there are no
gaps.
-/

namespace Reassembly

open Store

/-- The bytes of one side of a flow. They go round less than half the circle of positions. -/
structure Stream where
  initial : Seq
  bytes : ByteArray
  some : 0 < bytes.size
  short : bytes.size < Seq.halfTurn

namespace Stream

variable (stream : Stream)

def place (position : Seq) : Nat := Seq.distance stream.initial position

def stop (f : Block.Frame) : Nat := stream.place f.start + f.data.size

def Cuts (f : Block.Frame) : Prop := f.CutFrom stream.initial stream.bytes

def reach (next : Nat) (frames : List Block.Frame) : Nat :=
  frames.foldl (fun next f => max next (stream.stop f)) next

/-- Each frame starts no later than the ones before it end, the first no later than `next`. -/
def Follow : Nat → List Block.Frame → Prop
  | _, [] => True
  | next, f :: rest => stream.place f.start ≤ next ∧ Follow (max next (stream.stop f)) rest

variable {stream} {f : Block.Frame} {frames : List Block.Frame} {next : Nat}

theorem place_advance {count : Nat} (inside : count ≤ stream.bytes.size) :
    stream.place (stream.initial.advance count) = count := by
  have short := stream.short
  rw [Seq.halfTurn] at short
  exact Seq.distance_advance_of_lt _ (by rw [Seq.circle]; omega)

theorem advance_place (position : Seq) : stream.initial.advance (stream.place position) = position :=
  Seq.advance_distance _ _

theorem Cuts.spec (cuts : stream.Cuts f) : stream.stop f ≤ stream.bytes.size ∧
    f.data = stream.bytes.extract (stream.place f.start) (stream.stop f) := by
  obtain ⟨place, inside, start, data⟩ := cuts
  have here : stream.place f.start = place := by
    rw [start]
    exact place_advance (by omega)
  rw [stop, here]
  exact ⟨inside, data⟩

theorem le_reach (stream : Stream) (next : Nat) (frames : List Block.Frame) :
    next ≤ stream.reach next frames := by
  induction frames generalizing next with
  | nil => exact Nat.le_refl _
  | cons f rest ih => exact (Nat.le_max_left _ _).trans (ih _)

theorem reach_le (cuts : ∀ f ∈ frames, stream.Cuts f) (inside : next ≤ stream.bytes.size) :
    stream.reach next frames ≤ stream.bytes.size := by
  induction frames generalizing next with
  | nil => exact inside
  | cons f rest ih =>
    have fits := (cuts f List.mem_cons_self).spec.1
    exact ih (fun other listed => cuts other (List.mem_cons_of_mem _ listed)) (Nat.max_le.mpr ⟨inside, fits⟩)

theorem distance_eq {a b : Seq} (le : stream.place a ≤ stream.place b)
    (inside : stream.place b ≤ stream.bytes.size) : Seq.distance a b = stream.place b - stream.place a := by
  have short := stream.short
  have around := Seq.distance_trans stream.initial a b
  have bound := Seq.distance_lt a b
  rw [Seq.circle] at around
  rw [Seq.halfTurn] at short
  rw [place, place] at le ⊢
  rw [place] at inside
  omega

theorem before_iff {a b : Seq} (first : stream.place a ≤ stream.bytes.size)
    (second : stream.place b ≤ stream.bytes.size) :
    Seq.before a b = true ↔ stream.place a < stream.place b := by
  have short := stream.short
  have around := Seq.distance_trans stream.initial b a
  have bound := Seq.distance_lt b a
  rw [Seq.circle] at around
  rw [Seq.before_iff]
  rw [Seq.halfTurn] at short ⊢
  rw [place] at first second ⊢
  rw [place]
  omega

theorem place_initial (stream : Stream) : stream.place stream.initial = 0 := Seq.distance_self _

theorem eq_of_place {a b : Seq} (same : stream.place a = stream.place b) : a = b := by
  rw [← advance_place a, same, advance_place]

end Stream

namespace Delivery

def Tells (flow : FlowId) (side : Side) (events : List Event) : Prop :=
  ∀ event ∈ events, ∃ start bytes, event = .data flow side start bytes

variable {stream : Stream} {flow : FlowId} {side : Side} {next : Nat}

theorem tells_data (start : Seq) (bytes : ByteArray) : Tells flow side [.data flow side start bytes] := by
  intro event listed
  exact ⟨start, bytes, List.mem_singleton.mp listed⟩

theorem heard_data (start : Seq) (bytes : ByteArray) :
    heard flow side [.data flow side start bytes] = bytes := by
  rw [heard, heard, ByteArray.append_empty, Event.bytesFor, if_pos ⟨rfl, rfl⟩]

theorem deliverFrame_spec {f : Block.Frame} (cuts : stream.Cuts f)
    (meets : stream.place f.start ≤ next) (inside : next ≤ stream.bytes.size) :
    let told := deliverFrame flow side (some (stream.initial.advance next)) f
    told.2 = some (stream.initial.advance (max next (stream.stop f))) ∧ Tells flow side told.1 ∧
      heard flow side told.1 = stream.bytes.extract next (max next (stream.stop f)) := by
  obtain ⟨fits, data⟩ := cuts.spec
  have here : stream.place (stream.initial.advance next) = next := Stream.place_advance inside
  have start_inside : stream.place f.start ≤ stream.bytes.size := meets.trans inside
  have size : stream.stop f = stream.place f.start + f.data.size := rfl
  have before := stream.before_iff start_inside (b := stream.initial.advance next) (by omega)
  rw [here] at before
  dsimp only
  rw [deliverFrame]
  dsimp only
  by_cases early : stream.place f.start < next
  · have seen : Seq.distance f.start (stream.initial.advance next) = next - stream.place f.start := by
      rw [stream.distance_eq (by omega) (by omega), here]
    rw [if_pos (before.mpr early), seen]
    split
    · next known =>
      have stays : max next (stream.stop f) = next := by omega
      rw [stays]
      exact ⟨rfl, fun event listed => absurd listed List.not_mem_nil, ByteArray.extract_same.symm⟩
    · next news =>
      have rest : f.data.extract (next - stream.place f.start) f.data.size =
          stream.bytes.extract next (stream.stop f) := by
        calc f.data.extract (next - stream.place f.start) f.data.size
          _ = (stream.bytes.extract (stream.place f.start) (stream.stop f)).extract
                (next - stream.place f.start) f.data.size :=
            congrArg (fun data => data.extract (next - stream.place f.start) f.data.size) data
          _ = stream.bytes.extract next (stream.stop f) := by
            rw [ByteArray.extract_extract]
            congr 1
            · omega
            · omega
      have stop : max next (stream.stop f) = stream.stop f := by omega
      rw [rest, stop]
      refine ⟨?_, tells_data _ _, heard_data _ _⟩
      rw [ByteArray.size_extract, Seq.advance_advance]
      refine congrArg (fun count => some (stream.initial.advance count)) ?_
      omega
  · have same : f.start = stream.initial.advance next :=
      stream.eq_of_place (by rw [here]; omega)
    have stop : max next (stream.stop f) = stream.stop f := by omega
    rw [if_neg fun earlier => early (before.mp earlier), if_pos same, stop]
    refine ⟨?_, tells_data _ _, ?_⟩
    · rw [Block.Frame.stop, same, Seq.advance_advance]
      refine congrArg (fun count => some (stream.initial.advance count)) ?_
      omega
    · rw [heard_data, data]
      congr 1
      omega

theorem deliverFrames_spec {frames : List Block.Frame} (cuts : ∀ f ∈ frames, stream.Cuts f)
    (follow : stream.Follow next frames) (inside : next ≤ stream.bytes.size) :
    let told := deliverFrames flow side (some (stream.initial.advance next)) frames
    told.2 = some (stream.initial.advance (stream.reach next frames)) ∧ Tells flow side told.1 ∧
      heard flow side told.1 = stream.bytes.extract next (stream.reach next frames) := by
  induction frames generalizing next with
  | nil =>
    refine ⟨rfl, fun event listed => absurd listed List.not_mem_nil, ?_⟩
    exact ByteArray.extract_same.symm
  | cons f rest ih =>
    have first := cuts f List.mem_cons_self
    obtain ⟨goes_on, tells, bytes⟩ := deliverFrame_spec first follow.1 inside
    have fits := first.spec.1
    obtain ⟨ends, others, later⟩ := ih (fun f listed => cuts f (List.mem_cons_of_mem _ listed)) follow.2
      (by omega)
    have on := stream.le_reach (max next (stream.stop f)) rest
    dsimp only
    rw [deliverFrames]
    dsimp only
    rw [goes_on]
    refine ⟨ends, fun event listed => ?_, ?_⟩
    · rcases List.mem_append.mp listed with early | late
      · exact tells event early
      · exact others event late
    · rw [heard_append, bytes, later, ← ByteArray.extract_eq_extract_append_extract _ (by omega) on]
      rfl

theorem deliverFrames_unread {frames : List Block.Frame} (some : frames ≠ []) (follow : stream.Follow 0 frames) :
    deliverFrames flow side none frames = deliverFrames flow side (.some stream.initial) frames := by
  cases frames with
  | nil => exact absurd rfl some
  | cons f rest =>
    have origin := stream.place_initial
    have start : f.start = stream.initial :=
      stream.eq_of_place (by rw [origin]; exact Nat.le_zero.mp follow.1)
    have first : deliverFrame flow side none f = deliverFrame flow side (.some stream.initial) f := by
      rw [deliverFrame, deliverFrame]
      dsimp only
      rw [start, if_neg (by rw [Seq.not_before_self]; nofun), if_pos rfl]
    rw [deliverFrames, deliverFrames, first]

end Delivery

namespace Stream

variable {stream : Stream} {next : Nat}

theorem follow_append (first second : List Block.Frame) : stream.Follow next (first ++ second) ↔
    stream.Follow next first ∧ stream.Follow (stream.reach next first) second := by
  induction first generalizing next with
  | nil => exact (and_iff_right trivial).symm
  | cons f rest ih =>
    rw [List.cons_append, Follow, Follow, ih, and_assoc]
    rfl

theorem reach_append (first second : List Block.Frame) :
    stream.reach next (first ++ second) = stream.reach (stream.reach next first) second :=
  List.foldl_append

theorem follow_lay {start : Seq} {chunks : List ByteArray}
    (cuts : ∀ f ∈ Block.lay start chunks, stream.Cuts f) (meets : stream.place start ≤ next) :
    stream.Follow next (Block.lay start chunks) ∧ stream.reach next (Block.lay start chunks) =
      max next (stream.place start + Block.streamLength chunks) := by
  induction chunks generalizing start next with
  | nil => exact ⟨trivial, (Nat.max_eq_left meets).symm⟩
  | cons chunk rest ih =>
    rw [Block.lay] at cuts ⊢
    have fits := (cuts _ List.mem_cons_self).spec.1
    rw [stop] at fits
    dsimp only at fits
    have onward : stream.place (start.advance chunk.size) = stream.place start + chunk.size := by
      have here := (@Stream.advance_place stream) start
      calc stream.place (start.advance chunk.size)
        _ = stream.place (stream.initial.advance (stream.place start + chunk.size)) := by
          rw [← Seq.advance_advance, here]
        _ = stream.place start + chunk.size := place_advance fits
    have meets' : stream.place (start.advance chunk.size) ≤ max next (stream.place start + chunk.size) := by
      omega
    obtain ⟨follow, reach⟩ := ih (fun f listed => cuts f (List.mem_cons_of_mem _ listed)) meets'
    refine ⟨⟨meets, follow⟩, ?_⟩
    rw [Block.streamLength_cons]
    refine Eq.trans reach ?_
    omega

structure Fills (stream : Stream) (block : Stored) (length : Nat) : Prop where
  some : 0 < length
  fits : stream.place block.header.base + length ≤ stream.bytes.size
  cuts : ∀ f ∈ block.frames, stream.Cuts f
  follow : ∀ next, stream.place block.header.base ≤ next → stream.Follow next block.frames ∧
    stream.reach next block.frames = max next (stream.place block.header.base + length)
  spans : ∀ place, place < stream.bytes.size →
    (∃ f ∈ block.frames, f.Spans (stream.initial.advance place)) →
      stream.place block.header.base ≤ place ∧ place < stream.place block.header.base + length

theorem fills_of_lay {block : Stored} {chunks : List ByteArray} (some : chunks ≠ [])
    (filled : ∀ chunk ∈ chunks, 0 < chunk.size)
    (laid : block.frames = Block.lay block.header.base chunks)
    (cuts : ∀ f ∈ block.frames, stream.Cuts f) :
    stream.Fills block (Block.streamLength chunks) := by
  have laid_cuts : ∀ f ∈ Block.lay block.header.base chunks, stream.Cuts f := by
    rw [← laid]
    exact cuts
  have first : stream.place block.header.base ≤ stream.bytes.size ∧ 0 < Block.streamLength chunks := by
    cases chunks with
    | nil => exact absurd rfl some
    | cons chunk rest =>
      have fits := (laid_cuts _ List.mem_cons_self).spec.1
      have more := filled chunk List.mem_cons_self
      rw [stop] at fits
      rw [Block.streamLength_cons]
      exact ⟨(Nat.le_add_right _ _).trans fits, Nat.add_pos_left more _⟩
  have ends := (follow_lay laid_cuts (Nat.le_refl _)).2
  have fits := reach_le laid_cuts first.1
  rw [ends] at fits
  have onto : stream.place block.header.base + Block.streamLength chunks ≤ stream.bytes.size :=
    (Nat.le_max_right _ _).trans fits
  refine ⟨first.2, onto, cuts, fun next meets => ?_, fun place more held => ?_⟩
  · rw [laid]
    exact follow_lay laid_cuts meets
  · rw [laid, Block.lay_spans] at held
    obtain ⟨step, small, here⟩ := held
    have base := (@Stream.advance_place stream) block.header.base
    rw [← base, Seq.advance_advance] at here
    have same := congrArg stream.place here
    rw [place_advance (by omega), place_advance (by omega)] at same
    omega

theorem follow_blocks {blocks : List Stored} (fills : ∀ block ∈ blocks, ∃ length, stream.Fills block length)
    (sorted : blocks.Pairwise fun a b =>
      stream.place a.header.base ≤ stream.place b.header.base)
    (inside : next ≤ stream.bytes.size)
    (whole : ∀ place, next ≤ place → place < stream.bytes.size →
      ∃ block ∈ blocks, ∃ f ∈ block.frames, f.Spans (stream.initial.advance place)) :
    stream.Follow next (blocks.flatMap Stored.frames) ∧
      stream.reach next (blocks.flatMap Stored.frames) = stream.bytes.size := by
  induction blocks generalizing next with
  | nil =>
    refine ⟨trivial, Nat.le_antisymm inside (Nat.not_lt.mp fun more => ?_)⟩
    obtain ⟨block, listed, _⟩ := whole next (Nat.le_refl _) more
    exact absurd listed List.not_mem_nil
  | cons first rest ih =>
    obtain ⟨least, others⟩ := List.pairwise_cons.mp sorted
    obtain ⟨length, filled⟩ := fills first List.mem_cons_self
    have fits := filled.fits
    have meets : stream.place first.header.base ≤ next := by
      by_cases more : next < stream.bytes.size
      · obtain ⟨block, listed, held⟩ := whole next (Nat.le_refl _) more
        obtain ⟨count, holds⟩ := fills block listed
        have early := (holds.spans next more held).1
        rcases List.mem_cons.mp listed with rfl | later
        · exact early
        · exact (least block later).trans early
      · omega
    obtain ⟨follow, reach⟩ := filled.follow next meets
    have inside' : max next (stream.place first.header.base + length) ≤ stream.bytes.size := by omega
    have later := ih (fun block listed => fills block (List.mem_cons_of_mem _ listed)) others inside' (by
        intro place behind more
        obtain ⟨block, listed, held⟩ := whole place (by omega) more
        rcases List.mem_cons.mp listed with rfl | later
        · have early := (filled.spans place more held).2
          omega
        · exact ⟨block, later, held⟩)
    rw [List.flatMap_cons, follow_append, reach_append, reach]
    exact ⟨⟨follow, later.1⟩, later.2⟩

end Stream

end Reassembly
