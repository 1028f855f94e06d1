import Reassembly.Proofs.Spreading

/-!
What a put gains. The announcement stores no stream bytes and the pieces of the segment store its first
bytes, so a put as a whole keeps what a handle and its store are in order for, and adds those positions.
-/

namespace Reassembly.Writing.Desk

open Store

variable {l : Layout} {config : StoreConfig} {segment : Segment} {now : Micros} {d d' : Desk}

/-- A desk in order: its catalog, and what the handle knows of its flows. -/
structure Fit (l : Layout) (d : Desk) : Prop where
  ordered : d.cat.Ordered l
  sound : d.cat.Sound
  aimed : WriterFlows.Aimed d.writers

/-- The first `count` bytes of a segment are stored, and nothing else. -/
structure Gains (l : Layout) (segment : Segment) (d d' : Desk) (count : Nat) : Prop where
  inside : count ≤ segment.payload.size
  whole : count < segment.payload.size → d'.cat.nextSlot? l = none
  fit : d'.Fit l
  grows : Grows segment.key.lane (·.CutFrom segment.sequence segment.payload) d.cat.items d'.cat.items
  covers : ∀ position, Covers d'.cat.items segment.key.lane position ↔
    Covers d.cat.items segment.key.lane position ∨
      ∃ step, step < count ∧ segment.sequence.advance step = position

@[simp] theorem lane_firstPiece (writer : WriterFlow) :
    (firstPiece segment now writer).lane = segment.key.lane :=
  (FlowKey.lane_pack ..).symm

structure Announced (l : Layout) (segment : Segment) (d : Desk) (writer : WriterFlow)
    (cat : Catalog) : Prop where
  ordered : cat.Ordered l
  sound : cat.Sound
  aimed : ∀ side ref, (writer.sides.get side).openBlock = some ref →
    ref.key.lane = FlowKey.laneOf segment.flow side
  grows : Grows segment.key.lane (fun _ => False) d.cat.items cat.items

theorem Fit.announced (fit : d.Fit l) {writer : WriterFlow} {cat : Catalog}
    (found : d.announce? l config segment now = some (writer, cat)) :
    Announced l segment d writer cat := by
  rw [announce?] at found
  split at found
  · next known here =>
    obtain ⟨rfl, rfl⟩ := Prod.mk.inj (Option.some.inj found)
    obtain ⟨before, _⟩ := Option.filter_eq_some_iff.mp here
    exact ⟨fit.ordered, fit.sound, fun side ref => fit.aimed _ _ side ref before, .refl _ _ _⟩
  · obtain ⟨slot, next, same⟩ := Option.map_eq_some_iff.mp found
    obtain ⟨rfl, rfl⟩ := Prod.mk.inj same
    have marker := markerFor_isMarker d.cat slot segment now
    have area := l.nine_le_capacity
    have small : (markerFor d.cat slot segment now).header.used ≤ l.capacity := by
      rw [marker.used, marker.body, Bytes.size_ofU32]
      omega
    refine ⟨fit.ordered.shelve next small, fit.sound.shelve (.inl marker), fun side ref current => ?_,
      Grows.shelve fit.ordered next rfl fun f present => ?_⟩
    · rw [WriterFlow.fresh, PerSide.get_both] at current
      cases current
    · rw [marker.frames_eq] at present
      exact absurd present List.not_mem_nil

theorem Fit.bench (fit : d.Fit l) {writer : WriterFlow} {cat : Catalog}
    (found : d.announce? l config segment now = some (writer, cat)) :
    (⟨(writer.sides.get segment.side).openBlock, cat⟩ : Bench).Fit l
      (firstPiece segment now writer).lane := by
  have announced := fit.announced found
  exact ⟨announced.ordered, announced.sound, announced.aimed segment.side⟩

theorem Announced.covers_iff {writer : WriterFlow} {cat : Catalog}
    (announced : Announced l segment d writer cat) (lane : Nat) (position : Seq) :
    Covers cat.items lane position ↔ Covers d.cat.items lane position := by
  refine ⟨fun held => ?_, announced.grows.covers⟩
  rcases announced.grows.covers_or held with old | ⟨_, none, _⟩
  · exact old
  · exact none.elim

theorem Fit.put_spec (fit : d.Fit l) :
    ∃ count, Gains l segment d (d.put l config segment now).2 count := by
  rw [put]
  cases found : d.announce? l config segment now with
  | none =>
    have full : d.cat.nextSlot? l = none := by
      rw [announce?] at found
      split at found
      · cases found
      · exact Option.map_eq_none_iff.mp found
    refine ⟨0, Nat.zero_le _, fun _ => full, fit, .refl _ _ _, fun position => ?_⟩
    exact ⟨.inl, fun held => held.elim id fun held => absurd held.choose_spec.1 (Nat.not_lt_zero _)⟩
  | some pair =>
    obtain ⟨writer, cat⟩ := pair
    have announced := fit.announced found
    dsimp only
    split
    · next empty =>
      refine ⟨0, Nat.zero_le _, by omega, ⟨announced.ordered, announced.sound,
        fit.aimed.insert announced.aimed⟩, announced.grows.mono fun _ => False.elim,
        fun position => ?_⟩
      rw [announced.covers_iff]
      exact ⟨.inl, fun held => held.elim id fun held => absurd held.choose_spec.1 (Nat.not_lt_zero _)⟩
    · obtain ⟨count, entered⟩ := @Writing.Bench.Fit.placeAll_spec _ config.blockIdleTimeout _ _
        segment.sequence segment.payload 0 (fit.bench found)
        (Seq.advance_zero _).symm none false
      have inside := entered.inside
      have whole := entered.whole
      have fitted := entered.fit
      have grown := entered.grows
      have covers := entered.covers
      rw [lane_firstPiece] at fitted grown covers
      rw [Nat.sub_zero] at inside whole
      refine ⟨count, inside, whole, ⟨fitted.ordered, fitted.sound, fit.aimed.insert ?_⟩,
        (announced.grows.mono fun _ => False.elim).trans grown, fun position => ?_⟩
      · intro side ref current
        by_cases here : side = segment.side
        · subst here
          rw [noted, PerSide.get_set_self] at current
          rw [fitted.aimed ref current]
          exact FlowKey.lane_pack ..
        · rw [noted, PerSide.get_set_of_ne _ _ here] at current
          exact announced.aimed side ref current
      · refine (covers position).trans ?_
        dsimp only
        rw [announced.covers_iff]
        simp only [Nat.zero_add]

end Reassembly.Writing.Desk
