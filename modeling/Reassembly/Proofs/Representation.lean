import Reassembly.Proofs.Disjointness
import Reassembly.Proofs.Drains
import Reassembly.Proofs.Outcomes

/-!
What the bytes of a store look like, in every state that handles leave it in. The records are strictly in
the order of their references, live slots and freed slots share out the slots ever taken, and the list of
freed slots ends. So no operation fails, and the store takes as many blocks as it claims to have room for.
-/

namespace Reassembly

open Store

namespace Store

/-- The bytes of a store in order for a layout. -/
structure IsStore (l : Layout) (s : SparseBytes) : Prop where
  increasing : ∀ first second, first < second → second < (Catalog.countersIn s).entryCount.toNat →
    Ref.before (Catalog.entryIn s first).ref (Catalog.entryIn s second).ref = true
  numbered : ∀ pos, pos < (Catalog.countersIn s).entryCount.toNat →
    (Catalog.entryIn s pos).ref.generation < (Catalog.countersIn s).nextGeneration
  /-- The list of freed slots ends, all of its slots bear the word for it, and with the slots of the
  records they are the slots ever taken, each of them once. -/
  shared : ∃ freed, Catalog.Chain l s (Catalog.countersIn s).freeHead freed ∧
    ((((List.range (Catalog.countersIn s).entryCount.toNat).map fun pos =>
      (Catalog.entryIn s pos).slot) ++ freed).map UInt32.toNat).Perm
        (List.range (Catalog.countersIn s).highWater.toNat)
  high : (Catalog.countersIn s).highWater ≤ l.maxBlocks

theorem Carries.isStore {l : Layout} {r : Region} {cat : Catalog} (carries : Carries l r cat)
    (numbered : cat.Numbered) : IsStore l r.bytes := by
  have count : cat.items.length = (Catalog.countersIn r.bytes).entryCount.toNat := carries.count
  have record : ∀ pos, (live : pos < cat.items.length) →
      Catalog.entryIn r.bytes pos = cat.items[pos].entry := fun pos live =>
    carries.records (List.getElem?_eq_getElem live)
  have high : (Catalog.countersIn r.bytes).highWater = cat.highWater := carries.high
  have next : (Catalog.countersIn r.bytes).nextGeneration = cat.nextGeneration := carries.next
  refine ⟨fun first second lower live => ?_, fun pos live => ?_, ⟨cat.freed, carries.chain, ?_⟩, ?_⟩
  · rw [← count] at live
    rw [record first (by omega), record second live, Ref.before_iff]
    exact List.pairwise_iff_getElem.mp (numbered.refs.strict carries.ordered) first second (by omega) live lower
  · rw [← count] at live
    rw [record pos live, next]
    exact numbered.below _ (List.mem_map_of_mem (List.getElem_mem live))
  · have slots : (List.range (Catalog.countersIn r.bytes).entryCount.toNat).map
        (fun pos => (Catalog.entryIn r.bytes pos).slot) = cat.items.map Item.slot := by
      refine List.ext_getElem (by rw [List.length_map, List.length_map, List.length_range, count]) ?_
      intro pos live _
      rw [List.length_map, List.length_range, ← count] at live
      rw [List.getElem_map, List.getElem_map, List.getElem_range, record pos live]
    rw [slots, high]
    exact carries.ordered.perm_range
  · rw [high]
    exact carries.ordered.high

structure Draft where
  kind : Block.Kind
  key : FlowKey
  start : ByteArray
  complete : Bool
  now : Micros

def Draft.insert (l : Layout) (draft : Draft) : Hold Entry :=
  Hold.insertBlock l draft.kind draft.key draft.start draft.complete draft.now

def Draft.insertAll (l : Layout) : List Draft → Hold Unit
  | [] => return ()
  | draft :: rest => do
    discard <| draft.insert l
    insertAll l rest

theorem Holds.insertAll_run {l : Layout} {held : Held} {cat : Catalog} (holds : Holds l held cat)
    {drafts : List Draft} (fit : ∀ draft ∈ drafts, draft.start.size ≤ l.capacity) :
    (cat.items.length + drafts.length ≤ l.maxBlocks.toNat →
      ∃ held', Draft.insertAll l drafts held = .ok () held') ∧
    (l.maxBlocks.toNat < cat.items.length + drafts.length →
      ∃ held', Draft.insertAll l drafts held = .error (.storeFull l.maxBlocks) held') := by
  induction drafts generalizing held cat with
  | nil =>
    have small := holds.length_le
    exact ⟨fun _ => ⟨held, rfl⟩, fun more => absurd more (Nat.not_lt.mpr small)⟩
  | cons draft rest ih =>
    have full := holds.ordered.nextSlot?_eq_none_iff
    rw [List.length_cons]
    cases next : cat.nextSlot? l with
    | none =>
      have failed := holds.insertBlock_full next draft.kind draft.key draft.start draft.complete draft.now
      refine ⟨fun few => ?_, fun _ => ⟨held, ?_⟩⟩
      · have taken := full.mp next
        omega
      · exact Work.bind_error (Work.map_error failed)
    | some slot =>
      obtain ⟨held₁, inserted, holds₁⟩ := holds.insertBlock_run next draft.kind draft.key draft.start
        draft.complete draft.now (fit draft List.mem_cons_self)
      have later := ih holds₁ fun other listed => fit other (List.mem_cons_of_mem _ listed)
      rw [Catalog.shelve, Catalog.length_file] at later
      have ran : Draft.insertAll l (draft :: rest) held = Draft.insertAll l rest held₁ :=
        Work.bind_ok (Work.map_ok inserted)
      rw [ran]
      exact ⟨fun few => later.1 (by omega), fun more => later.2 (by omega)⟩

/-- A store serves a handle: no operation of the handle fails, and insertions fail only when every block
slot is in use. -/
structure Serves (a : Attachment) (r : Region) : Prop where
  lock : Hold.lock a.layout r = .ok (Catalog.countersIn r.bytes) r
  works : ∀ operation : Operation, ∃ a' r', operation.work (a, r) = .ok () (a', r')
  alloc : (∃ slot counters, Slots.alloc a.layout (Catalog.countersIn r.bytes) r =
      .ok (slot, counters) r) ∨
    Slots.alloc a.layout (Catalog.countersIn r.bytes) r = .error (.storeFull a.layout.maxBlocks) r
  full : ∀ draft : Draft, (Catalog.countersIn r.bytes).entryCount = a.layout.maxBlocks →
    Hold.run a.layout (draft.insert a.layout) r = .error (.storeFull a.layout.maxBlocks) r
  free : ∀ draft : Draft, draft.start.size ≤ a.layout.capacity →
    (Catalog.countersIn r.bytes).entryCount ≠ a.layout.maxBlocks →
      ∃ entry r', Hold.run a.layout (draft.insert a.layout) r = .ok entry r'
  honest : ∃ occupancy, a.occupancy r = .ok occupancy r ∧ ∀ drafts : List Draft,
    (∀ draft ∈ drafts, draft.start.size ≤ a.layout.capacity) →
      ((∃ r', Hold.run a.layout (Draft.insertAll a.layout drafts) r = .ok () r') ↔
        drafts.length ≤ occupancy.freeSlots.toNat)

theorem Carries.serves {a : Attachment} {r : Region} {cat : Catalog} (carries : Carries a.layout r cat) :
    Serves a r := by
  have count : cat.items.length = (Catalog.countersIn r.bytes).entryCount.toNat := carries.count
  have full := carries.ordered.nextSlot?_eq_none_iff
  have taken : (Catalog.countersIn r.bytes).entryCount = a.layout.maxBlocks ↔
      cat.nextSlot? a.layout = none := by
    rw [full, count, UInt32.toNat_inj]
  refine ⟨carries.lock_run, fun operation => ?_, ?_, fun draft used => ?_, fun draft fits unused => ?_, ?_⟩
  · obtain ⟨r', ran, _⟩ := operation.work_run carries
    exact ⟨_, r', ran⟩
  · cases next : cat.nextSlot? a.layout with
    | none => exact .inr (carries.alloc_full next)
    | some slot =>
      obtain ⟨counters, ran, _⟩ := carries.alloc_run next
      exact .inl ⟨slot, counters, ran⟩
  · exact carries.run_error (carries.insertBlock_full (taken.mp used) ..)
  · obtain ⟨slot, next⟩ := Option.ne_none_iff_exists'.mp (mt taken.mpr unused)
    obtain ⟨held', ran, _⟩ := carries.insertBlock_run next draft.kind draft.key draft.start
      draft.complete draft.now fits
    exact ⟨_, _, carries.run_ok ran⟩
  · obtain ⟨occupancy, ran, _, free⟩ := Attachment.occupancy_run carries
    have small := carries.length_le
    refine ⟨occupancy, ran, fun drafts fit => ?_⟩
    obtain ⟨enough, tooMany⟩ := carries.insertAll_run fit
    constructor
    · rintro ⟨r', succeeded⟩
      by_contra more
      obtain ⟨held', failed⟩ := tooMany (by omega)
      rw [carries.run_error failed] at succeeded
      cases succeeded
    · intro few
      obtain ⟨held', inserted⟩ := enough (by omega)
      exact ⟨_, carries.run_ok inserted⟩

end Store

namespace Writing.Desk

variable {l : Layout} {config : StoreConfig} {segment : Segment} {now : Micros} {d : Desk}

theorem Fit.put_draws (fit : d.Fit l) (numbered : d.cat.Numbered)
    (last : d.cat.nextGeneration.toNat +
      ((d.put l config segment now).2.cat.items.length - d.cat.items.length) < UInt64.size) :
    (d.put l config segment now).2.cat.Numbered ∧
      (d.put l config segment now).2.cat.nextGeneration.toNat = d.cat.nextGeneration.toNat +
        ((d.put l config segment now).2.cat.items.length - d.cat.items.length) := by
  cases found : d.announce? l config segment now with
  | none =>
    rw [put_of_unannounced found, Nat.sub_self]
    exact ⟨numbered, rfl⟩
  | some pair =>
    obtain ⟨writer, cat⟩ := pair
    obtain ⟨count, _, edits⟩ := fit.put_edits found
    rw [edits.length] at last ⊢
    suffices marked : ∃ marker, cat.items.length = d.cat.items.length + marker ∧
        (d.cat.nextGeneration.toNat + marker < UInt64.size → cat.Numbered ∧
          cat.nextGeneration.toNat = d.cat.nextGeneration.toNat + marker) by
      obtain ⟨marker, length, marked⟩ := marked
      rw [length] at last ⊢
      obtain ⟨numbered', next⟩ := marked (by omega)
      refine ⟨numbered'.edits edits (by omega), ?_⟩
      rw [edits.nextGeneration, toNat_add_ofNat (by omega), next]
      omega
    cases announces_of found with
    | known _ => exact ⟨0, rfl, fun _ => ⟨numbered, rfl⟩⟩
    | anew _ next =>
      refine ⟨1, Catalog.length_file .., fun few => ⟨numbered.shelve rfl few, ?_⟩⟩
      rw [Catalog.shelve, UInt64.toNat_add, UInt64.toNat_one]
      exact Nat.mod_eq_of_lt few

end Writing.Desk

namespace Commons

def added (c : Commons) (move : Move) : Nat :=
  (Catalog.countersIn (c.step move).bytes).entryCount.toNat -
    (Catalog.countersIn c.bytes).entryCount.toNat

def addedBy (c : Commons) : List Move → Nat
  | [] => 0
  | move :: rest => c.added move + (c.step move).addedBy rest

variable {l : Layout} {c : Commons} {cat : Catalog}

theorem Carrying.count (carrying : Carrying l c cat) :
    cat.items.length = (Catalog.countersIn c.bytes).entryCount.toNat :=
  carrying.carries.count

theorem Tidy.effect_draws {a : Attachment} (tidy : Tidy l a) (ordered : cat.Ordered l) (sound : cat.Sound)
    (numbered : cat.Numbered) (operation : Operation)
    (last : cat.nextGeneration.toNat +
      ((operation.effect a cat).2.items.length - cat.items.length) < UInt64.size) :
    (operation.effect a cat).2.Numbered ∧
      (operation.effect a cat).2.nextGeneration.toNat = cat.nextGeneration.toNat +
        ((operation.effect a cat).2.items.length - cat.items.length) := by
  cases operation with
  | put segment now =>
    obtain ⟨rfl, _, aimed⟩ := tidy
    have fit : Writing.Desk.Fit a.layout ⟨a.writers, cat⟩ := ⟨ordered, sound, aimed⟩
    exact fit.put_draws numbered last
  | sweep now =>
    have length : (cat.swept a.config.blockIdleTimeout now).items.length = cat.items.length :=
      List.length_map ..
    refine ⟨numbered.swept _ now, ?_⟩
    show cat.nextGeneration.toNat = _ + ((cat.swept a.config.blockIdleTimeout now).items.length - _)
    rw [length, Nat.sub_self, Nat.add_zero]
  | erase ref now =>
    have length : (cat.erase ref).items.length ≤ cat.items.length := by
      rw [Catalog.erase]
      split
      · exact Nat.le_refl _
      · exact (List.eraseIdx_sublist _ _).length_le
    refine ⟨numbered.erase ref, ?_⟩
    show (cat.erase ref).nextGeneration.toNat = _ + ((cat.erase ref).items.length - _)
    rw [cat.nextGeneration_erase ref, Nat.sub_eq_zero_of_le length, Nat.add_zero]
  | removeFlow | nextMarker | firstFrom | next | occupancy =>
    exact ⟨numbered, by rw [Operation.effect, Nat.sub_self, Nat.add_zero]⟩

/-- While the numbers last, a move leaves the blocks numbered, and takes a number for every block that
it adds. -/
theorem Carrying.step_numbered (carrying : Carrying l c cat) (numbered : cat.Numbered) (move : Move)
    (last : cat.nextGeneration.toNat + c.added move < UInt64.size) :
    ∃ cat', Carrying l (c.step move) cat' ∧ cat'.Numbered ∧
      cat'.nextGeneration.toNat ≤ cat.nextGeneration.toNat + c.added move := by
  cases move with
  | attach handle config =>
    exact ⟨cat, (carrying.attach handle config).2, numbered, Nat.le_add_right _ _⟩
  | operate index operation =>
    cases attached : c.handles[index]? with
    | none =>
      have idle : c.step (.operate index operation) = c := by simp only [Commons.step, attached]
      rw [idle]
      exact ⟨cat, carrying, numbered, Nat.le_add_right _ _⟩
    | some a =>
      obtain ⟨_, _, carrying'⟩ := carrying.operate attached operation
      have tidy := carrying.tidy a (List.mem_of_getElem? attached)
      rw [added, ← carrying'.count, ← carrying.count] at last ⊢
      obtain ⟨numbered', next⟩ := tidy.effect_draws carrying.carries.ordered carrying.sound numbered
        operation last
      exact ⟨_, carrying', numbered', next.le⟩

theorem Carrying.run_numbered (carrying : Carrying l c cat) (numbered : cat.Numbered)
    (moves : List Move) (last : cat.nextGeneration.toNat + c.addedBy moves < UInt64.size) :
    ∃ cat', Carrying l (c.run moves) cat' ∧ cat'.Numbered := by
  induction moves generalizing c cat with
  | nil => exact ⟨cat, carrying, numbered⟩
  | cons move rest ih =>
    rw [addedBy] at last
    obtain ⟨cat₁, carrying₁, numbered₁, next⟩ := carrying.step_numbered numbered move (by omega)
    exact ih carrying₁ numbered₁ (by omega)

theorem Carrying.addedBy_le (carrying : Carrying l c cat) (moves : List Move) :
    c.addedBy moves ≤ moves.length * l.maxBlocks.toNat := by
  induction moves generalizing c cat with
  | nil => exact Nat.zero_le _
  | cons move rest ih =>
    obtain ⟨cat', carrying'⟩ := carrying.step move
    have small := carrying'.carries.length_le
    have later := ih carrying'
    rw [addedBy, added, ← carrying'.count, List.length_cons, Nat.succ_mul]
    omega

/-- Whatever handles do to a region since it was formatted, its bytes are a store in order and it serves
each of them, as long as fewer than `2 ^ 64` blocks were added. -/
theorem Fresh.isStore_and_serves (fresh : c.Fresh) (moves : List Move)
    (few : c.addedBy moves < UInt64.size) :
    ∀ a ∈ (c.run moves).handles, IsStore a.layout (c.run moves).bytes ∧
      Serves a ⟨a.handle, (c.run moves).bytes⟩ := by
  obtain ⟨l, carrying⟩ := fresh.carrying
  obtain ⟨cat, carrying', numbered⟩ := carrying.run_numbered .empty moves (by
    rw [Catalog.empty, UInt64.toNat_zero, Nat.zero_add]
    exact few)
  intro a attached
  have seen := carrying'.seen attached
  exact ⟨seen.isStore numbered, seen.serves⟩

/-- Two blocks for a store of two, one of them erased, and bytes of another flow in its place. -/
theorem isStore_and_serves_reused :
    ∃ (c : Commons) (moves : List Move), c.Fresh ∧ (c.run moves).handles ≠ [] ∧
      (Catalog.countersIn (c.run moves).bytes).entryCount.toNat = 2 ∧
      c.addedBy moves < UInt64.size ∧
      ∀ a ∈ (c.run moves).handles, IsStore a.layout (c.run moves).bytes ∧
        Serves a ⟨a.handle, (c.run moves).bytes⟩ := by
  obtain ⟨start, fresh, handles, carrying⟩ :=
    (@Commons.Fresh.of_config ({ blockCapacity := 64, maxBlocks := 2 })) rfl rfl
  let operations : List Operation := [.put ⟨⟨7⟩, .source, ⟨100⟩, ⟨#[3, 4, 5]⟩⟩ 1000000,
    .sweep 2000000, .erase ⟨.pack ⟨7⟩ .source ⟨100⟩, 1⟩ 2000000,
    .put ⟨⟨8⟩, .destination, ⟨5⟩, ⟨#[6]⟩⟩ 2000001, .put ⟨⟨7⟩, .source, ⟨103⟩, ⟨#[7]⟩⟩ 2000002]
  have few : start.addedBy (operations.map (.operate 0)) < UInt64.size := by
    have bound := carrying.addedBy_le (operations.map (.operate 0))
    have blocks : 5 * UInt32.toNat 2 < UInt64.size := by decide
    exact Nat.lt_of_le_of_lt bound blocks
  obtain ⟨attached, carrying'⟩ := carrying.alone handles operations
  refine ⟨start, operations.map (.operate 0), fresh, ?_, ?_, few, fresh.isStore_and_serves _ few⟩
  · rw [attached]
    exact List.cons_ne_nil _ _
  · rw [← carrying'.count]
    decide +kernel

end Commons

end Reassembly
