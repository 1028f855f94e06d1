import Mathlib.Data.List.TakeWhile
import Reassembly.Proofs.Delivering
import Reassembly.Proofs.Fates

/-!
Draining one side of a flow that was not read yet. The earliest of its blocks is the anchor, and behind
it they are in the order of their bases; if they are all ready and hold a whole stream, the reader is told
the stream, and they all go.
-/

namespace Reassembly.Delivery

open Store Reading

theorem anchorLe_iff (anchor : Seq) (a b : Stored) : anchorLe anchor a b = true ↔
    Seq.before a.header.base anchor = true ∧ Seq.before b.header.base anchor = false ∨
      Seq.before a.header.base anchor = Seq.before b.header.base anchor ∧
        (Seq.distance anchor a.header.base < Seq.distance anchor b.header.base ∨
          Seq.distance anchor a.header.base = Seq.distance anchor b.header.base ∧
            a.ref.generation.toNat ≤ b.ref.generation.toNat) := by
  rw [← UInt64.le_iff_toNat_le, anchorLe]
  by_cases level : Seq.before a.header.base anchor = Seq.before b.header.base anchor
  · by_cases near : Seq.distance anchor a.header.base = Seq.distance anchor b.header.base
    · simp [level, near]
    · simp [level, near]
  · cases first : Seq.before a.header.base anchor with
    | true => simp_all
    | false => simp_all

theorem anchorLe_trans (anchor : Seq) (a b c : Stored) (first : anchorLe anchor a b = true)
    (second : anchorLe anchor b c = true) : anchorLe anchor a c = true := by
  rw [anchorLe_iff] at first second ⊢
  grind

theorem anchorLe_total (anchor : Seq) (a b : Stored) :
    (anchorLe anchor a b || anchorLe anchor b a) = true := by
  rw [Bool.or_eq_true, anchorLe_iff, anchorLe_iff]
  grind

variable {stream : Stream}

theorem drainOrder_sorted {blocks : List Stored}
    (inside : ∀ block ∈ blocks, stream.place block.header.base ≤ stream.bytes.size) :
    (drainOrder stream.initial blocks).Pairwise fun a b =>
      stream.place a.header.base ≤ stream.place b.header.base := by
  have sorted := List.pairwise_mergeSort (anchorLe_trans stream.initial) (anchorLe_total stream.initial)
    blocks
  have origin := stream.place_initial
  have ahead : ∀ block ∈ drainOrder stream.initial blocks,
      Seq.before block.header.base stream.initial = false := by
    intro block listed
    have fits := inside block (List.mem_mergeSort.mp listed)
    rw [Bool.eq_false_iff]
    intro before
    rw [stream.before_iff fits (by omega), origin] at before
    exact absurd before (Nat.not_lt_zero _)
  refine sorted.imp_of_mem fun first second le => ?_
  rw [anchorLe_iff, ahead _ first, ahead _ second] at le
  rcases le with ⟨wrong, _⟩ | ⟨_, nearer | ⟨same, _⟩⟩
  · cases wrong
  · exact Nat.le_of_lt nearer
  · exact Nat.le_of_eq same

theorem serialMin_spec {seqs : List Seq} (inside : ∀ s ∈ seqs, stream.place s ≤ stream.bytes.size)
    {least : Seq} (found : serialMin seqs = some least) :
    least ∈ seqs ∧ ∀ s ∈ seqs, stream.place least ≤ stream.place s := by
  have fold : ∀ (rest : List Seq) (first : Seq), stream.place first ≤ stream.bytes.size →
      (∀ s ∈ rest, stream.place s ≤ stream.bytes.size) →
      let chosen := rest.foldl (fun least s => if Seq.before s least then s else least) first
      chosen ∈ first :: rest ∧ ∀ s ∈ first :: rest, stream.place chosen ≤ stream.place s := by
    intro rest
    induction rest with
    | nil =>
      intro first _ _
      refine ⟨List.mem_cons_self, fun s listed => ?_⟩
      rw [List.mem_singleton.mp listed]
      exact Nat.le_refl _
    | cons s rest ih =>
      intro first fits others
      have next := others s List.mem_cons_self
      have order := stream.before_iff next fits
      have later := fun other listed => others other (List.mem_cons_of_mem _ listed)
      dsimp only
      rw [List.foldl_cons]
      by_cases less : Seq.before s first = true
      · obtain ⟨chosen, least⟩ := ih s next later
        rw [if_pos less]
        refine ⟨List.mem_cons_of_mem _ chosen, fun other listed => ?_⟩
        rcases List.mem_cons.mp listed with rfl | listed
        · exact (least s List.mem_cons_self).trans (Nat.le_of_lt (order.mp less))
        · exact least other listed
      · obtain ⟨chosen, least⟩ := ih first fits later
        rw [if_neg less]
        refine ⟨?_, fun other listed => ?_⟩
        · rcases List.mem_cons.mp chosen with same | listed
          · rw [same]
            exact List.mem_cons_self
          · exact List.mem_cons_of_mem _ (List.mem_cons_of_mem _ listed)
        · rcases List.mem_cons.mp listed with rfl | listed
          · exact least _ List.mem_cons_self
          · rcases List.mem_cons.mp listed with rfl | listed
            · exact (least first List.mem_cons_self).trans (Nat.not_lt.mp fun more => less (order.mpr more))
            · exact least other (List.mem_cons_of_mem _ listed)
  cases seqs with
  | nil => cases found
  | cons first rest =>
    obtain rfl := Option.some.inj found
    exact fold rest first (inside first List.mem_cons_self)
      fun s listed => inside s (List.mem_cons_of_mem _ listed)

theorem anchor?_first {blocks : List Stored}
    (inside : ∀ block ∈ blocks, stream.place block.header.base ≤ stream.bytes.size)
    (starts : ∃ block ∈ blocks, block.header.base = stream.initial) :
    anchor? none blocks = some stream.initial := by
  cases found : anchor? none blocks with
  | none =>
    obtain ⟨block, listed, _⟩ := starts
    rw [anchor?_eq_none found] at listed
    exact absurd listed List.not_mem_nil
  | some least =>
    obtain ⟨first, there, start⟩ := starts
    have bases : ∀ s ∈ blocks.map (·.header.base), stream.place s ≤ stream.bytes.size := by
      intro s listed
      obtain ⟨block, known, rfl⟩ := List.mem_map.mp listed
      exact inside block known
    rw [anchor?] at found
    have minimum := (serialMin_spec bases found).2 _ (List.mem_map_of_mem there)
    have origin := stream.place_initial
    rw [start, origin] at minimum
    rw [stream.eq_of_place (a := least) (b := stream.initial) (by omega)]

theorem mem_drainOrder {anchor : Seq} {blocks : List Stored} {block : Stored} :
    block ∈ drainOrder anchor blocks ↔ block ∈ blocks := List.mem_mergeSort

structure IsStream (stream : Stream) (blocks : List Stored) : Prop where
  filled : ∀ block ∈ blocks, ∃ length, stream.Fills block length
  held : ∀ place, place < stream.bytes.size → ∃ block ∈ blocks,
    ∃ f ∈ block.frames, f.Spans (stream.initial.advance place)

namespace IsStream

variable {blocks : List Stored} (whole : IsStream stream blocks)
include whole

theorem inside : ∀ block ∈ blocks, stream.place block.header.base ≤ stream.bytes.size := by
  intro block listed
  obtain ⟨length, fills⟩ := whole.filled block listed
  exact (Nat.le_add_right _ _).trans fills.fits

theorem anchor : anchor? none blocks = some stream.initial := by
  refine anchor?_first whole.inside ?_
  obtain ⟨block, listed, spans⟩ := whole.held 0 stream.some
  obtain ⟨length, fills⟩ := whole.filled block listed
  have origin := stream.place_initial
  have early := (fills.spans 0 stream.some spans).1
  exact ⟨block, listed, stream.eq_of_place (by omega)⟩

theorem follow : stream.Follow 0 ((drainOrder stream.initial blocks).flatMap Stored.frames) ∧
    stream.reach 0 ((drainOrder stream.initial blocks).flatMap Stored.frames) = stream.bytes.size :=
  stream.follow_blocks (fun block listed => whole.filled block (mem_drainOrder.mp listed))
    (drainOrder_sorted whole.inside) (Nat.zero_le _) fun place _ more => by
      obtain ⟨block, listed, spans⟩ := whole.held place more
      exact ⟨block, mem_drainOrder.mpr listed, spans⟩

theorem cuts {f : Block.Frame} (listed : f ∈ (drainOrder stream.initial blocks).flatMap Stored.frames) :
    stream.Cuts f := by
  obtain ⟨block, there, present⟩ := List.mem_flatMap.mp listed
  obtain ⟨length, fills⟩ := whole.filled block (mem_drainOrder.mp there)
  exact fills.cuts f present

end IsStream

theorem sideDrained_spec {flow : FlowId} {side : Side} {now : Micros} {blocks : List Stored}
    {state : Drained} (unread : state.position.expected.get side = none)
    (ready : ∀ block ∈ blocks, block.header.kind.isPayload = true → block.ready = true)
    (stream? : Option Stream)
    (fills : ∀ block ∈ blocks, block.header.kind.isPayload = true →
      ∃ stream length, stream? = some stream ∧ stream.Fills block length)
    (whole : ∀ stream, stream? = some stream → ∀ place, place < stream.bytes.size →
      ∃ block ∈ blocks, block.header.kind.isPayload = true ∧
        ∃ f ∈ block.frames, f.Spans (stream.initial.advance place)) :
    let drained := sideDrained flow side now blocks state
    Tells flow side drained.2.2 ∧
      heard flow side drained.2.2 = (stream?.map Stream.bytes).getD .empty ∧
      ∀ block ∈ blocks, block.header.kind.isPayload = true → block.ref ∈ drained.2.1 := by
  have read : ∀ block, block ∈ blocks.filter (·.header.kind.isPayload) ↔
      block ∈ blocks ∧ block.header.kind.isPayload = true := fun block => List.mem_filter
  dsimp only
  rw [sideDrained, unread]
  dsimp only
  cases stream? with
  | none =>
    have empty : blocks.filter (·.header.kind.isPayload) = [] := by
      refine List.filter_eq_nil_iff.mpr fun block listed payload => ?_
      obtain ⟨_, _, missing, _⟩ := fills block listed payload
      cases missing
    rw [empty]
    refine ⟨fun event listed => absurd listed List.not_mem_nil, rfl, fun block listed payload => ?_⟩
    have kept := (read block).mpr ⟨listed, payload⟩
    rw [empty] at kept
    exact absurd kept List.not_mem_nil
  | some stream =>
    have stands : IsStream stream (blocks.filter (·.header.kind.isPayload)) := by
      refine ⟨fun block kept => ?_, fun place more => ?_⟩
      · obtain ⟨listed, holds⟩ := (read block).mp kept
        obtain ⟨_, length, same, fills⟩ := fills block listed holds
        obtain rfl := Option.some.inj same
        exact ⟨length, fills⟩
      · obtain ⟨block, listed, holds, spans⟩ := whole stream rfl place more
        exact ⟨block, (read block).mpr ⟨listed, holds⟩, spans⟩
    generalize blocks.filter (·.header.kind.isPayload) = payload at read stands ⊢
    rw [stands.anchor]
    dsimp only
    have all : (drainOrder stream.initial payload).takeWhile Stored.ready =
        drainOrder stream.initial payload := by
      refine List.takeWhile_eq_self_iff.mpr fun block listed => ?_
      obtain ⟨known, holds⟩ := (read block).mp (mem_drainOrder.mp listed)
      exact ready block known holds
    rw [all]
    obtain ⟨follow, reach⟩ := stands.follow
    have some : (drainOrder stream.initial payload).flatMap Stored.frames ≠ [] := by
      intro none
      rw [none] at reach
      exact absurd reach (Nat.ne_of_lt stream.some)
    rw [deliverFrames_unread some follow]
    have told := @Delivery.deliverFrames_spec _ flow side _ _ (fun _ => stands.cuts) follow (Nat.zero_le _)
    rw [Seq.advance_zero, reach] at told
    refine ⟨told.2.1, told.2.2.trans ByteArray.extract_zero_size, fun block listed holds => ?_⟩
    exact List.mem_map_of_mem (mem_drainOrder.mpr ((read block).mpr ⟨listed, holds⟩))

end Reassembly.Delivery
