import Reassembly.Proofs.Nearest
import Reassembly.Proofs.Locking
import Reassembly.Reading.Rotation

/-!
What readers see of a region that carries a catalog: the look-ups give its blocks and change nothing,
erasing takes one block out, and the rotation goes once round from behind the block where it stands.
-/

namespace Reassembly

open Store Reading

def Store.Item.stored (v : View) (item : Item) : Stored :=
  ⟨item.ref, item.header, item.body, item.header.isReady v.now v.idle⟩

def Store.Item.isReadyMarker (v : View) (item : Item) : Bool :=
  item.header.kind = .startFlow && item.header.isReady v.now v.idle

namespace Store.Catalog

def firstFrom? (cat : Catalog) (key : FlowKey) : Option Item :=
  cat.items[cat.below ⟨key, 0⟩ % cat.items.length]?

def next? (cat : Catalog) (ref : Ref) : Option Item :=
  cat.items[cat.through ref % cat.items.length]?.filter fun item => item.ref ≠ ref

theorem mem_of_firstFrom? {cat : Catalog} {key : FlowKey} {item : Item} (found : cat.firstFrom? key = some item) :
    item ∈ cat.items :=
  List.mem_of_getElem? found

theorem mem_of_next? {cat : Catalog} {ref : Ref} {item : Item} (found : cat.next? ref = some item) :
    item ∈ cat.items := by
  rw [next?, Option.filter_eq_some_iff] at found
  exact List.mem_of_getElem? found.1

def rotated (cat : Catalog) (rotation : Option Ref) : List Item :=
  let first := (rotation.map fun ref => cat.through ref % cat.items.length).getD 0
  cat.items.drop first ++ cat.items.take first

end Store.Catalog

def Store.Item.turn (v : View) : List Item → Option Ref → Option Item × Option Ref
  | [], rotation => (none, rotation)
  | item :: rest, _ =>
    if item.isReadyMarker v then (some item, some item.ref) else turn v rest (some item.ref)

theorem Store.Item.turn_eq (v : View) (items : List Item) (from? : Option Ref) :
    Item.turn v items from? =
      match items.find? (Item.isReadyMarker v) with
      | some item => (some item, some item.ref)
      | none => (none, (items.getLast?.map Item.ref).or from?) := by
  induction items generalizing from? with
  | nil => rfl
  | cons item rest ih =>
    rw [Item.turn, List.find?_cons]
    by_cases ready : item.isReadyMarker v = true
    · rw [if_pos ready, ready]
    · rw [if_neg ready, Bool.eq_false_iff.mpr ready, ih]
      cases rest.find? (Item.isReadyMarker v) with
      | some found => rfl
      | none =>
        cases rest with
        | nil => rfl
        | cons second others =>
          rw [List.getLast?_cons_cons, List.getLast?_eq_some_getLast (List.cons_ne_nil _ _)]
          rfl

namespace Reading

variable {v : View} {r : Region} {cat : Catalog}

theorem snapshot_run {held : Held} (holds : Holds v.layout held cat) {item : Item}
    (member : item ∈ cat.items) :
    snapshot v item.entry item.header held = .ok (item.stored v) held := by
  rw [snapshot, Work.bind_ok (holds.payload_run member)]
  rfl

theorem blockAt_run {held : Held} (holds : Holds v.layout held cat) {pos : Nat}
    (live : pos < cat.items.length) :
    blockAt v pos held = .ok (cat.items[pos].stored v) held := by
  have member : cat.items[pos] ∈ cat.items := List.getElem_mem live
  rw [blockAt, Work.bind_ok (holds.entryAt_run live), Work.bind_ok (holds.header_run member)]
  exact snapshot_run holds member

theorem firstFrom_run (carries : Carries v.layout r cat) (key : FlowKey) :
    firstFrom v key r = .ok ((cat.firstFrom? key).map (Item.stored v)) r := by
  have holds : Holds v.layout ⟨r, Catalog.countersIn r.bytes⟩ cat := carries
  refine (@Store.Carries.run_ok _ _ _ carries _ _ _ ⟨r, Catalog.countersIn r.bytes⟩) ?_
  rw [Work.bind_ok holds.count_run, Catalog.firstFrom?]
  by_cases none_left : cat.items.length = 0
  · rw [if_pos none_left, List.getElem?_eq_none (by omega)]
    rfl
  · have live := Nat.mod_lt (cat.below ⟨key, 0⟩) (Nat.pos_of_ne_zero none_left)
    rw [if_neg none_left, Work.bind_ok (holds.lowerBound_run _), Work.map_ok (blockAt_run holds live),
      List.getElem?_eq_getElem live]
    rfl

theorem next_run (carries : Carries v.layout r cat) (ref : Ref) :
    next v ref r = .ok ((cat.next? ref).map (Item.stored v)) r := by
  have holds : Holds v.layout ⟨r, Catalog.countersIn r.bytes⟩ cat := carries
  refine (@Store.Carries.run_ok _ _ _ carries _ _ _ ⟨r, Catalog.countersIn r.bytes⟩) ?_
  rw [Work.bind_ok holds.count_run, Catalog.next?]
  by_cases none_left : cat.items.length = 0
  · rw [if_pos none_left, List.getElem?_eq_none (by omega)]
    rfl
  · have live := Nat.mod_lt (cat.through ref) (Nat.pos_of_ne_zero none_left)
    rw [if_neg none_left, Work.bind_ok (holds.upperBound_run _), Work.bind_ok (holds.entryAt_run live),
      List.getElem?_eq_getElem live]
    have member := List.getElem_mem live
    generalize cat.items[cat.through ref % cat.items.length] = item at member ⊢
    by_cases same : item.entry.ref = ref
    · rw [if_pos same, Option.filter_some, if_neg (by simpa using same)]
      rfl
    · rw [if_neg same, Option.filter_some, if_pos (by simpa using same),
        Work.bind_ok (holds.header_run member), Work.map_ok (snapshot_run holds member)]
      rfl

theorem erase_run (carries : Carries v.layout r cat) (ref : Ref) :
    ∃ r', erase v ref r = .ok (cat.find? ref).isSome r' ∧ Carries v.layout r' (cat.erase ref) := by
  obtain ⟨held, erased, holds⟩ := Holds.erase_run carries ref
  exact ⟨held.region, carries.run_ok erased, holds.carries⟩

namespace Turning

variable {held : Held} (holds : Holds v.layout held cat)
include holds

theorem visit_run {pos : Nat} (live : pos < cat.items.length) (rotation : Option Ref) :
    visit v pos (rotation, held) =
      .ok (if cat.items[pos].isReadyMarker v then some (cat.items[pos].stored v) else none)
        (some cat.items[pos].ref, held) := by
  have member := List.getElem_mem live
  have found := holds.entryAt_run live
  generalize cat.items[pos] = item at member found ⊢
  rw [visit, Work.bind_ok (HoldWith.onStore_ok found), Work.bind_ok (HoldWith.setOwn_run _ _ _),
    Work.bind_ok (HoldWith.onStore_ok (holds.header_run member))]
  by_cases ready : item.isReadyMarker v = true
  · rw [if_pos ready, if_pos (by exact ready),
      Work.map_ok (HoldWith.onStore_ok (snapshot_run holds member))]
  · rw [if_neg ready, if_neg (by exact ready), Work.pure_run]

theorem visitAll_run (places : List Nat) (live : ∀ pos ∈ places, pos < cat.items.length)
    (rotation : Option Ref) :
    visitAll v places (rotation, held) =
      .ok ((Item.turn v (places.filterMap (cat.items[·]?)) rotation).1.map (Item.stored v))
        ((Item.turn v (places.filterMap (cat.items[·]?)) rotation).2, held) := by
  induction places generalizing rotation with
  | nil => rfl
  | cons pos rest ih =>
    have here := live pos List.mem_cons_self
    rw [visitAll, Work.bind_ok (visit_run holds here rotation),
      List.filterMap_cons_some (List.getElem?_eq_getElem here), Item.turn]
    by_cases ready : cat.items[pos].isReadyMarker v = true
    · rw [if_pos ready, if_pos ready]
      rfl
    · rw [if_neg ready, if_neg ready]
      exact ih (fun other member => live other (List.mem_cons_of_mem _ member)) _

end Turning

theorem positions_round {count first : Nat} (inside : first < count) :
    (List.range count).map (fun step => (first + step) % count) =
      Writing.positions first count ++ Writing.positions 0 first := by
  have parts : List.range count = List.range (count - first) ++
      (List.range first).map fun step => count - first + step := by
    rw [← List.range_add, Nat.sub_add_cancel (Nat.le_of_lt inside)]
  rw [parts, List.map_append, List.map_map, Writing.positions, Writing.positions,
    List.range'_eq_map_range, List.range'_eq_map_range, Nat.sub_zero]
  congr 1
  · refine List.map_congr_left fun step listed => Nat.mod_eq_of_lt ?_
    have := List.mem_range.mp listed
    omega
  · refine List.map_congr_left fun step listed => ?_
    have := List.mem_range.mp listed
    have turned : first + (count - first + step) = step + count := by omega
    rw [Function.comp_apply, turned, Nat.add_mod_right, Nat.mod_eq_of_lt (by omega), Nat.zero_add]

theorem Turning.nextMarker_run {held : Held} (holds : Holds v.layout held cat)
    (rotation : Option Ref) :
    Turning.nextMarker v (rotation, held) =
      .ok ((Item.turn v (cat.rotated rotation) rotation).1.map (Item.stored v))
        ((Item.turn v (cat.rotated rotation) rotation).2, held) := by
  rw [nextMarker, Work.bind_ok (HoldWith.onStore_ok holds.count_run)]
  by_cases none_left : cat.items.length = 0
  · have empty : cat.rotated rotation = [] := by
      rw [Catalog.rotated, List.length_eq_zero_iff.mp none_left, List.drop_nil, List.take_nil]
      rfl
    rw [if_pos none_left, empty]
    rfl
  · have some := Nat.pos_of_ne_zero none_left
    have started : start cat.items.length (rotation, held) =
        .ok ((rotation.map fun ref => cat.through ref % cat.items.length).getD 0)
          (rotation, held) := by
      rw [start, Work.bind_ok (HoldWith.own_run _ _)]
      cases rotation with
      | none => rfl
      | some ref =>
        dsimp only
        rw [Work.bind_ok (HoldWith.onStore_ok (holds.upperBound_run ref))]
        rfl
    have inside : (rotation.map fun ref => cat.through ref % cat.items.length).getD 0 <
        cat.items.length := by
      cases rotation with
      | none => exact some
      | some ref => exact Nat.mod_lt _ some
    rw [if_neg none_left, Work.bind_ok started, Catalog.rotated]
    generalize (rotation.map fun ref => cat.through ref % cat.items.length).getD 0 = first at inside ⊢
    rw [visitAll_run holds _ (fun pos listed => ?_), positions_round inside, List.filterMap_append,
      filterMap_positions, filterMap_positions, List.drop_zero, Nat.sub_zero,
      List.take_of_length_le (by rw [List.length_drop])]
    obtain ⟨step, -, rfl⟩ := List.mem_map.mp listed
    exact Nat.mod_lt _ some

end Reading

theorem Attachment.nextMarker_run {a : Attachment} {r : Region} {cat : Catalog}
    (carries : Carries a.layout r cat) (now : Micros) :
    Attachment.nextMarker now (a, r) =
      .ok ((Item.turn (a.view now) (cat.rotated a.rotation) a.rotation).1.map
          (Item.stored (a.view now)))
        ({ a with rotation := (Item.turn (a.view now) (cat.rotated a.rotation) a.rotation).2 }, r) := by
  have turned := Turning.nextMarker_run (v := a.view now)
    carries a.rotation
  rw [Attachment.nextMarker, Work.bind_ok (Work.get_run _)]
  simp only [Work.onPart, Carries.runWith_ok (l := a.layout) carries turned]

theorem Attachment.occupancy_run {a : Attachment} {r : Region} {cat : Catalog}
    (carries : Carries a.layout r cat) :
    ∃ occupancy, a.occupancy r = .ok occupancy r ∧
      occupancy.entries.toNat = cat.items.length ∧
      occupancy.freeSlots.toNat = a.layout.maxBlocks.toNat - cat.items.length := by
  have count : cat.items.length = (Catalog.countersIn r.bytes).entryCount.toNat := carries.count
  have small := carries.length_le
  refine ⟨_, (@Store.Carries.run_ok _ _ _ carries _ _ _ ⟨r, Catalog.countersIn r.bytes⟩) rfl, count.symm, ?_⟩
  dsimp only
  rw [UInt32.toNat_sub_of_le _ _ (UInt32.le_iff_toNat_le.mpr (by omega)), count]

end Reassembly
