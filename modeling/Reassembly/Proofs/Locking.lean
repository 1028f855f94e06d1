import Reassembly.Attachment
import Reassembly.Proofs.Removal

/-!
What a region carries while nobody holds its lock. Taking the lock loads the counters that the region
holds; so work that leads from one catalog to another on a held store does so on the region.
-/

namespace Reassembly.Store

open Catalog in
def Carries (l : Layout) (r : Region) (cat : Catalog) : Prop :=
  Holds l ⟨r, countersIn r.bytes⟩ cat

open Catalog in
theorem Holds.carries {l : Layout} {held : Held} {cat : Catalog} (holds : Holds l held cat) :
    Carries l held.region cat := by
  have loaded : (⟨held.region, countersIn held.region.bytes⟩ : Held) = held :=
    congrArg (Held.mk held.region) holds.front.counters
  rw [Carries, loaded]
  exact holds

open Catalog in
theorem Counters.load_run {r : Region} {len : Nat} (reach : r.Reaches len)
    (room : headerSize ≤ len) : Counters.load r = .ok (countersIn r.bytes) r := by
  rw [headerSize] at room
  rw [Counters.load, Work.bind_ok (Region.readU32_run reach (by omega)),
    Work.bind_ok (Region.readU32_run reach (by omega)),
    Work.bind_ok (Region.readU32_run reach (by omega)),
    Work.bind_ok (Region.readU64_run reach (by omega))]
  rfl

namespace Carries
open Catalog
variable {l : Layout} {r : Region} {cat : Catalog} (carries : Carries l r cat)
include carries

theorem lock_run : Hold.lock l r = .ok (countersIn r.bytes) r := by
  have loaded := Counters.load_run carries.reach (l.headerSize_le_slab.trans l.slab_le_required)
  have count : cat.items.length = (countersIn r.bytes).entryCount.toNat := carries.count
  have room : ¬ l.maxBlocks < (countersIn r.bytes).entryCount := by
    rw [UInt32.lt_iff_toNat_lt, ← count, Nat.not_lt]
    exact carries.length_le
  rw [Hold.lock, Work.bind_ok loaded]
  simp only [if_neg room]
  rfl

theorem run_ok {α : Type} {work : Hold α} {a : α} {held : Held}
    (ran : work ⟨r, countersIn r.bytes⟩ = .ok a held) :
    Hold.run l work r = .ok a held.region := by
  rw [Hold.run, Work.bind_ok carries.lock_run]
  exact Work.onPart_ok ran

theorem run_error {α : Type} {work : Hold α} {fault : Fault} {held : Held}
    (ran : work ⟨r, countersIn r.bytes⟩ = .error fault held) :
    Hold.run l work r = .error fault held.region := by
  rw [Hold.run, Work.bind_ok carries.lock_run]
  exact Work.onPart_error ran

theorem runWith_ok {σ α : Type} {work : HoldWith σ α} {own own' : σ} {a : α} {held : Held}
    (ran : work (own, ⟨r, countersIn r.bytes⟩) = .ok a (own', held)) :
    HoldWith.run l work (own, r) = .ok a (own', held.region) := by
  rw [HoldWith.run]
  refine (Work.bind_ok (a := countersIn r.bytes) (t := (own, r)) ?_).trans ?_
  · simp only [Work.onPart, carries.lock_run]
  · simp only [Work.onPart, ran]

theorem itemsIn_eq : itemsIn l r.bytes = cat.items := by
  have count : cat.items.length = (countersIn r.bytes).entryCount.toNat := carries.count
  refine List.ext_getElem? fun pos => ?_
  rw [itemsIn, ← count, List.getElem?_map]
  by_cases live : pos < cat.items.length
  · have there := List.getElem?_eq_getElem live
    rw [List.getElem?_range live, Option.map_some, carries.records there, there]
    exact congrArg some (carries.blocks _ (List.getElem_mem live)).symm
  · rw [List.getElem?_eq_none (Nat.not_lt.mp live),
      List.getElem?_eq_none (by rw [List.length_range]; exact Nat.not_lt.mp live), Option.map_none]

/-- Any handle that is long enough sees the same catalog. -/
theorem through {handle : RegionHandle} (long : l.required ≤ handle.length) :
    Carries l ⟨handle, r.bytes⟩ cat where
  reach := ⟨long, carries.reach.bytes⟩
  front := carries.front
  count := carries.count
  records := carries.records
  blocks := carries.blocks
  chain := carries.chain
  high := carries.high
  next := carries.next
  ordered := carries.ordered

end Carries

theorem HoldWith.onStore_ok {σ α : Type} {work : Hold α} {own : σ} {held held' : Held} {a : α}
    (ran : work held = .ok a held') :
    HoldWith.onStore work (own, held) = .ok a (own, held') := by
  simp only [HoldWith.onStore, Work.onPart, ran]

theorem HoldWith.own_run {σ : Type} (own : σ) (held : Held) :
    HoldWith.own (own, held) = .ok own (own, held) := rfl

theorem HoldWith.setOwn_run {σ : Type} (own own' : σ) (held : Held) :
    HoldWith.setOwn own' (own, held) = .ok () (own', held) := rfl

theorem Hold.unlessFull_ok {α : Type} {work : Hold α} {held held' : Held} {a : α}
    (ran : work held = .ok a held') : Hold.unlessFull work held = .ok (some a) held' := by
  simp only [Hold.unlessFull, Work.passOver, ran]

theorem Hold.unlessFull_full {α : Type} {work : Hold α} {held : Held} {maxBlocks : UInt32}
    (ran : work held = .error (.storeFull maxBlocks) held) :
    Hold.unlessFull work held = .ok none held := by
  simp only [Hold.unlessFull, Work.passOver, ran]
  rfl

end Reassembly.Store
