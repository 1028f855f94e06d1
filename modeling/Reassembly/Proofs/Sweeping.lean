import Reassembly.Proofs.Edits
import Reassembly.Sweep

/-!
The sweep as a function of catalogs. It goes over all blocks once and completes those that are open and
idle, each in its place; it forgets the flows that are stale, and cannot fail.
-/

namespace Reassembly.Store

namespace Item

def isIdle (idle now : Micros) (item : Item) : Bool :=
  !item.header.isComplete && item.header.expired now idle

def swept (idle now : Micros) (item : Item) : Item :=
  if item.isIdle idle now then
    ⟨item.entry, { item.header.close with lastUpdate := now }, item.body⟩
  else item

@[simp] theorem entry_swept (idle now : Micros) (item : Item) :
    (item.swept idle now).entry = item.entry := by
  rw [swept]
  split <;> rfl

@[simp] theorem body_swept (idle now : Micros) (item : Item) :
    (item.swept idle now).body = item.body := by
  rw [swept]
  split <;> rfl

@[simp] theorem used_swept (idle now : Micros) (item : Item) :
    (item.swept idle now).header.used = item.header.used := by
  rw [swept]
  split <;> rfl

end Item

namespace Catalog

def swept (idle now : Micros) (cat : Catalog) : Catalog :=
  { cat with items := cat.items.map (Item.swept idle now) }

theorem Ordered.recast_split {l : Layout} {cat : Catalog} (ordered : cat.Ordered l)
    {front back : List Item} {item : Item} (parts : cat.items = front ++ item :: back)
    (header : Block.Header) (body : ByteArray) :
    cat.recast item.slot header body =
      { cat with items := front ++ ⟨item.entry, header, body⟩ :: back } := by
  have slots := (List.nodup_append.mp ordered.nodup).1
  rw [parts, List.map_append, List.map_cons, List.nodup_append, List.nodup_cons] at slots
  have others {items : List Item} (apart : ∀ other ∈ items, other.slot ≠ item.slot) :
      items.map (fun other =>
        if other.slot = item.slot then (⟨other.entry, header, body⟩ : Item) else other) = items := by
    conv => rhs; rw [← List.map_id items]
    exact List.map_congr_left fun other member => if_neg (apart other member)
  rw [Catalog.recast, parts, List.map_append, List.map_cons, if_pos rfl, others, others]
  · intro other member same
    exact slots.2.1.1 (same ▸ List.mem_map_of_mem member)
  · intro other member same
    exact slots.2.2 _ (List.mem_map_of_mem member) _ List.mem_cons_self same

end Catalog

end Store

namespace Sweep

open Store

variable {l : Layout} {held : Held} {cat : Catalog} (idle now : Micros)

theorem closeIdle_run (holds : Holds l held cat) {front back : List Item} {item : Item}
    (parts : cat.items = front ++ item :: back) :
    ∃ held', closeIdle l idle now front.length held = .ok (item.isIdle idle now) held' ∧
      Holds l held' { cat with items := front ++ item.swept idle now :: back } := by
  have live : front.length < cat.items.length := by
    rw [parts, List.length_append, List.length_cons]
    omega
  have here : cat.items[front.length] = item := by
    simp only [parts, List.getElem_append_right (Nat.le_refl _), Nat.sub_self,
      List.getElem_cons_zero]
  have member : item ∈ cat.items := here ▸ List.getElem_mem live
  have found := holds.entryAt_run live
  rw [here] at found
  rw [closeIdle, Work.bind_ok found, Work.bind_ok (holds.header_run member)]
  by_cases old : item.isIdle idle now = true
  · obtain ⟨held', closed, holds'⟩ := @Store.Holds.rewriteHeader_run _ _ _ holds _ member
      { item.header.close with lastUpdate := now } rfl
    refine ⟨held', ?_, ?_⟩
    · rw [Item.isIdle] at old ⊢
      rw [if_pos old, Work.bind_ok closed, old, Work.pure_run]
    · rw [holds.ordered.recast_split parts] at holds'
      rw [Item.swept, if_pos old]
      exact holds'
  · refine ⟨held, ?_, ?_⟩
    · rw [Item.isIdle] at old ⊢
      rw [if_neg old, Work.pure_run, Bool.eq_false_iff.mpr old]
    · rw [Item.swept, if_neg old, ← parts]
      exact holds

theorem closeAll_run (holds : Holds l held cat) (front back : List Item)
    (parts : cat.items = front ++ back) :
    ∃ held', closeAll l idle now (List.range' front.length back.length) held =
        .ok (back.countP (Item.isIdle idle now)) held' ∧
      Holds l held' { cat with items := front ++ back.map (Item.swept idle now) } := by
  induction back generalizing front held cat with
  | nil =>
    rw [List.append_nil] at parts
    rw [List.map_nil, List.append_nil, ← parts]
    exact ⟨held, rfl, holds⟩
  | cons item rest ih =>
    obtain ⟨held₁, closed, holds₁⟩ := closeIdle_run idle now holds parts
    obtain ⟨held₂, others, holds₂⟩ := ih holds₁ (front ++ [item.swept idle now])
      (by rw [List.append_assoc, List.singleton_append])
    rw [List.length_append, List.length_singleton] at others
    refine ⟨held₂, ?_, ?_⟩
    · rw [List.length_cons, List.range'_succ, closeAll, Work.bind_ok closed, Work.bind_ok others,
        Work.pure_run, List.countP_cons, Nat.add_comm]
    · rw [List.append_assoc, List.singleton_append] at holds₂
      exact holds₂

end Sweep

open Store in
theorem Attachment.sweep_run {a : Attachment} {r : Region} {cat : Catalog}
    (carries : Carries a.layout r cat) (now : Micros) :
    ∃ r', Attachment.sweep now (a, r) =
        .ok (cat.items.countP (Item.isIdle a.config.blockIdleTimeout now))
          ({ a with
            writers := Sweep.keepFresh a.writers now a.config.writerFlowTimeout }, r') ∧
      Carries a.layout r' (cat.swept a.config.blockIdleTimeout now) := by
  obtain ⟨held, closed, holds⟩ := Sweep.closeAll_run a.config.blockIdleTimeout now
    (show Holds a.layout _ cat from carries) [] cat.items rfl
  have ran : Sweep.closeBlocks a.layout a.config.blockIdleTimeout now
      ⟨r, Catalog.countersIn r.bytes⟩ =
      .ok (cat.items.countP (Item.isIdle a.config.blockIdleTimeout now)) held := by
    rw [Sweep.closeBlocks, Work.bind_ok (Holds.count_run carries), List.range_eq_range']
    exact closed
  refine ⟨held.region, ?_, holds.carries⟩
  have swept : Attachment.onRegion (Hold.run a.layout
      (Sweep.closeBlocks a.layout a.config.blockIdleTimeout now)) (a, r) =
      .ok (cat.items.countP (Item.isIdle a.config.blockIdleTimeout now)) (a, held.region) := by
    simp only [Attachment.onRegion, Work.onPart, carries.run_ok ran]
  rw [Attachment.sweep, Work.bind_ok (Work.get_run _)]
  dsimp only
  rw [Work.bind_ok swept, Work.bind_ok (Work.modify_run _ _)]
  rfl

end Reassembly
