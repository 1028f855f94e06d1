import Reassembly.Proofs.Commons

/-!
A put on a shared region. Whatever the handles did before, a put stores the first bytes of its segment,
each at its own position, and all of them unless it fills the store. What was stored stays where it is,
and other flows and sides keep their blocks as they are.
-/

namespace Reassembly.Commons

open Store

/-- What the blocks of a store are after a put that came to have the first `count` bytes of a segment
stored. -/
structure Conserves (l : Layout) (segment : Segment) (before after : List Item) (count : Nat) :
    Prop where
  inside : count ≤ segment.payload.size
  whole : count < segment.payload.size → after.length = l.maxBlocks.toNat
  covers : ∀ position, Covers after segment.key.lane position ↔
    Covers before segment.key.lane position ∨
      ∃ step, step < count ∧ segment.sequence.advance step = position
  grows : Grows segment.key.lane (·.CutFrom segment.sequence segment.payload) before after

/-- A put through any handle, at any time, succeeds and loses and corrupts nothing. -/
theorem Reachable.put_conserves {c : Commons} (reached : c.Reachable) {index : Nat} {a : Attachment}
    (attached : c.handles[index]? = some a) (segment : Segment) (now : Micros) :
    ∃ outcome a' r' count,
      Attachment.put segment now (a, ⟨a.handle, c.bytes⟩) = .ok outcome (a', r') ∧
      Conserves a.layout segment (Catalog.itemsIn a.layout c.bytes)
        (Catalog.itemsIn a.layout r'.bytes) count := by
  obtain ⟨l, cat, carrying⟩ := reached.carrying
  have member := List.mem_of_getElem? attached
  have seen := carrying.seen member
  obtain ⟨r', ran, carries'⟩ := Attachment.put_run seen segment now
  obtain ⟨count, gains⟩ := Writing.Desk.Fit.put_spec (l := a.layout) (d := ⟨a.writers, cat⟩)
    ⟨seen.ordered, carrying.sound, (carrying.tidy a member).aimed⟩
  refine ⟨_, _, r', count, ran, gains.inside, fun short => ?_, fun position => ?_, ?_⟩
  · rw [carries'.itemsIn_eq]
    exact (gains.fit.ordered.nextSlot?_eq_none_iff).mp (gains.whole short)
  · rw [seen.itemsIn_eq, carries'.itemsIn_eq]
    exact gains.covers position
  · rw [seen.itemsIn_eq, carries'.itemsIn_eq]
    exact gains.grows

/-- Bytes that reach into a block stored before: a new block takes those in front of it, and then all of them
are stored. -/
theorem Reachable.put_conserves_before_block :
    ∃ (c : Commons) (a : Attachment), c.Reachable ∧ c.handles[0]? = some a ∧
      ∃ a' r',
        Attachment.put ⟨⟨7⟩, .source, ⟨98⟩, ⟨#[1, 2, 3, 4]⟩⟩ 1000005 (a, ⟨a.handle, c.bytes⟩) =
          .ok .newBlock (a', r') ∧
        Conserves a.layout ⟨⟨7⟩, .source, ⟨98⟩, ⟨#[1, 2, 3, 4]⟩⟩ (Catalog.itemsIn a.layout c.bytes)
          (Catalog.itemsIn a.layout r'.bytes) 4 := by
  obtain ⟨start, fresh, handles, carrying⟩ := @Commons.Fresh.of_config
    { blockCapacity := 64, maxBlocks := 8 } _ rfl rfl
  obtain ⟨attached, carrying'⟩ := carrying.alone handles [.put ⟨⟨7⟩, .source, ⟨100⟩, ⟨#[3, 4, 5]⟩⟩ 1000000]
  have reached := fresh.reachable.step (.operate 0 (.put ⟨⟨7⟩, .source, ⟨100⟩, ⟨#[3, 4, 5]⟩⟩ 1000000))
  have first := attached_of_alone attached
  have seen := carrying'.seen (List.mem_of_getElem? first)
  obtain ⟨outcome, _, r', count, ran, conserves⟩ :=
    reached.put_conserves first ⟨⟨7⟩, .source, ⟨98⟩, ⟨#[1, 2, 3, 4]⟩⟩ 1000005
  obtain ⟨_, told, carries'⟩ := Attachment.put_run seen ⟨⟨7⟩, .source, ⟨98⟩, ⟨#[1, 2, 3, 4]⟩⟩ 1000005
  obtain ⟨said, same⟩ := EStateM.Result.ok.inj (ran.symm.trans told)
  obtain ⟨rfl, rfl⟩ := Prod.mk.inj same
  obtain rfl : outcome = .newBlock := said.trans (by decide +kernel)
  have all : count = 4 := by
    by_contra other
    have full := conserves.whole (Nat.lt_of_le_of_ne conserves.inside other)
    rw [carries'.itemsIn_eq] at full
    exact absurd full (by decide +kernel)
  subst all
  exact ⟨_, _, reached, first, _, r', ran, conserves⟩

end Reassembly.Commons
