import Reassembly.Proofs.Commons
import Reassembly.Proofs.Overruns

/-!
Whether a region stores a position twice. Sweeping, erasing, forgetting and attaching never make it do
so, and a put only where one of its pieces continues the open block over another block that starts
there. A region where no put did this keeps the payload blocks of each side of a flow apart.
-/

namespace Reassembly.Commons

open Store Writing

/-- As every handle sees the region, the payload blocks of one side of a flow share no position. -/
def IsApart (c : Commons) : Prop := ∀ a ∈ c.handles, Apart (Catalog.itemsIn a.layout c.bytes)

/-- The move is a put, one of whose pieces goes behind the open block and over another one. -/
def Overruns (c : Commons) : Move → Prop
  | .operate index (.put segment now) =>
    ∃ a cat, c.handles[index]? = some a ∧ Carries a.layout ⟨a.handle, c.bytes⟩ cat ∧
      Desk.Overruns a.layout a.config segment now ⟨a.writers, cat⟩
  | _ => False

variable {l : Layout} {c : Commons} {cat : Catalog}

theorem Carrying.isApart_iff (carrying : Carrying l c cat) {a : Attachment} (attached : a ∈ c.handles) :
    c.IsApart ↔ Spaced cat.items := by
  rw [← carrying.sound.apart_iff carrying.carries.ordered]
  constructor
  · intro apart
    have seen := apart a attached
    rwa [(carrying.seen attached).itemsIn_eq] at seen
  · intro apart other present
    rw [(carrying.seen present).itemsIn_eq]
    exact apart

theorem Carrying.isApart (carrying : Carrying l c cat) (spaced : Spaced cat.items) : c.IsApart :=
  fun _ attached => (carrying.isApart_iff attached).mpr spaced _ attached

theorem Operation.spaced_effect (a : Attachment) (spaced : Spaced cat.items) (operation : Operation)
    (other : ∀ segment now, operation ≠ .put segment now) :
    Spaced (operation.effect a cat).2.items := by
  cases operation with
  | put segment now => exact absurd rfl (other segment now)
  | sweep now => exact spaced.swept _ now
  | erase ref now => exact spaced.erase ref
  | removeFlow flow => exact spaced
  | nextMarker now => exact spaced
  | firstFrom key now => exact spaced
  | next ref now => exact spaced
  | occupancy => exact spaced

theorem Carrying.overruns (carrying : Carrying l c cat) (spaced : Spaced cat.items) {move : Move}
    (overruns : c.Overruns move) : ¬ (c.step move).IsApart := by
  rcases move with _ | ⟨index, operation⟩
  · exact overruns.elim
  cases operation with
  | put segment now =>
    obtain ⟨a, cat', attached, carries, breaks⟩ := overruns
    have member := List.mem_of_getElem? attached
    have tidy := carrying.tidy a member
    have same : cat'.items = cat.items :=
      carries.itemsIn_eq.symm.trans (carrying.seen member).itemsIn_eq
    have carrying' : Carrying l c cat' := by
      refine ⟨(tidy.layout ▸ carries).through (Nat.le_refl _), ?_, carrying.tidy⟩
      rw [Catalog.Sound, same]
      exact carrying.sound
    obtain ⟨bytes, stepped, after⟩ := carrying'.operate attached (.put segment now)
    have stays : ((Operation.put segment now).effect a cat').1 ∈
        (c.step (.operate index (.put segment now))).handles := by
      rw [stepped]
      exact List.mem_set (List.getElem?_eq_some_iff.mp attached).1 _
    rw [after.isApart_iff stays]
    intro clear
    have fit : (⟨a.writers, cat'⟩ : Desk).Fit a.layout :=
      ⟨carries.ordered, carrying'.sound, tidy.aimed⟩
    exact (fit.put_spaced (same ▸ spaced)).mp clear breaks
  | _ => exact overruns.elim

theorem Carrying.step_spaced (carrying : Carrying l c cat) (spaced : Spaced cat.items) {move : Move}
    (clean : ¬ c.Overruns move) :
    ∃ cat', Carrying l (c.step move) cat' ∧ Spaced cat'.items := by
  rcases move with ⟨handle, config⟩ | ⟨index, operation⟩
  · exact ⟨cat, (carrying.attach handle config).2, spaced⟩
  cases attached : c.handles[index]? with
  | none => exact ⟨cat, by simpa only [Commons.step, attached] using carrying, spaced⟩
  | some a =>
    obtain ⟨_, _, carrying'⟩ := carrying.operate attached operation
    refine ⟨_, carrying', ?_⟩
    by_cases put : ∃ segment now, operation = .put segment now
    · obtain ⟨segment, now, rfl⟩ := put
      have member := List.mem_of_getElem? attached
      have seen := carrying.seen member
      have fit : (⟨a.writers, cat⟩ : Desk).Fit a.layout :=
        ⟨seen.ordered, carrying.sound, (carrying.tidy a member).aimed⟩
      exact (fit.put_spaced spaced).mpr fun breaks => clean ⟨a, cat, attached, seen, breaks⟩
    · exact Operation.spaced_effect a spaced operation fun segment now same => put ⟨segment, now, same⟩

theorem Carrying.isApart_iff_of_run (carrying : Carrying l c cat) (spaced : Spaced cat.items)
    (moves : List Move) :
    (∀ count, (c.run (moves.take count)).IsApart) ↔
      ∀ count move, moves[count]? = some move → ¬ (c.run (moves.take count)).Overruns move := by
  refine good_throughout_iff (fun c _ => ∃ cat, Carrying l c cat ∧ Spaced cat.items) ?_ ?_ ?_
    ⟨cat, carrying, spaced⟩
  · rintro c _ ⟨cat, carrying, spaced⟩
    exact carrying.isApart spaced
  · rintro c move _ ⟨cat, carrying, spaced⟩ overruns
    exact carrying.overruns spaced overruns
  · rintro c move _ ⟨cat, carrying, spaced⟩ clean
    exact carrying.step_spaced spaced clean

/-- Bytes that arrive before an idle block, and then once more, are stored twice. -/
def backfill : List Move := [
  .put ⟨⟨7⟩, .source, ⟨100⟩, Bytes.zeros 10⟩ 1000000,
  .put ⟨⟨7⟩, .source, ⟨90⟩, Bytes.zeros 10⟩ 1100001,
  .put ⟨⟨7⟩, .source, ⟨100⟩, Bytes.zeros 5⟩ 1100001].map (.operate 0)

theorem exists_backfill : ∃ start : Commons, start.Fresh ∧ ¬ (start.run backfill).IsApart := by
  obtain ⟨start, fresh, handles, carrying⟩ := @Commons.Fresh.of_config
    { blockCapacity := 64, maxBlocks := 8 } _ rfl rfl
  obtain ⟨alone, after⟩ := carrying.alone handles [
    .put ⟨⟨7⟩, .source, ⟨100⟩, Bytes.zeros 10⟩ 1000000,
    .put ⟨⟨7⟩, .source, ⟨90⟩, Bytes.zeros 10⟩ 1100001,
    .put ⟨⟨7⟩, .source, ⟨100⟩, Bytes.zeros 5⟩ 1100001]
  refine ⟨start, fresh, (after.isApart_iff (alone ▸ List.mem_singleton_self _)).not.mpr ?_⟩
  decide +kernel

theorem not_isApart_of_reachable : ¬ ∀ c : Commons, c.Reachable → c.IsApart := by
  intro all
  obtain ⟨start, fresh, shared⟩ := exists_backfill
  exact shared (all _ ⟨start, fresh, backfill, rfl⟩)

/-- From the formatting on, through any handles, a region keeps the payload blocks of each side of a
flow apart just if no put goes over a block that starts where the open one ends. -/
theorem Fresh.isApart_iff_no_overrun {start : Commons} (fresh : start.Fresh) (moves : List Move) :
    (∀ count, (start.run (moves.take count)).IsApart) ↔
      ∀ count move, moves[count]? = some move → ¬ (start.run (moves.take count)).Overruns move := by
  obtain ⟨l, carrying⟩ := fresh.carrying
  exact carrying.isApart_iff_of_run .nil moves

/-- One of the puts of `backfill` goes over a block. -/
theorem overruns_backfill : ∃ start : Commons, start.Fresh ∧ ∃ count move,
    backfill[count]? = some move ∧ (start.run (backfill.take count)).Overruns move := by
  obtain ⟨start, fresh, shared⟩ := exists_backfill
  refine ⟨start, fresh, ?_⟩
  by_contra clean
  refine shared ((fresh.isApart_iff_no_overrun backfill).mpr (fun count move listed overruns => ?_) 3)
  exact clean ⟨count, move, listed, overruns⟩

end Reassembly.Commons
