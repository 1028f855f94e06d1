import Reassembly.Proofs.Answers

/-!
Formatting forgets. A store uses its header, the records of its blocks, of each block the header and
the bytes counted as used, and of each freed slot the link; whatever else is in the region has no
influence on anything that a handle is told. In particular nothing that was there before the formatting
has any, nor what a block leaves in its slot when that is freed.
-/

namespace Reassembly

namespace Store

open Catalog

/-- The bytes of a region that its store uses. -/
inductive Uses (l : Layout) (s : SparseBytes) (place : Nat) : Prop
  /-- The header, with the counters. -/
  | front (inside : place < headerSize)
  /-- The record of a block. -/
  | record {pos : Nat} (live : pos < (itemsIn l s).length) (low : Directory.offset pos ≤ place)
      (high : place < Directory.offset pos + recordSize)
  /-- The header of a block, and its bytes. -/
  | block {item : Item} (stored : item ∈ itemsIn l s) (low : l.slotOffset item.slot ≤ place)
      (high : place < l.slotOffset item.slot + (Block.headerSize + item.header.used))
  /-- The link from one freed slot to the next. -/
  | link {slot : UInt32} (freed : slot < (countersIn s).highWater)
      (vacant : ∀ item ∈ itemsIn l s, item.slot ≠ slot) (low : l.slotOffset slot ≤ place)
      (high : place < l.slotOffset slot + 8)

variable {l : Layout} {s t : SparseBytes} {cat : Catalog}

theorem Carries.congr {handle : RegionHandle} (carries : Carries l ⟨handle, s⟩ cat)
    (long : l.required ≤ t.size) (same : ∀ place, Uses l s place → s.byteAt place = t.byteAt place) :
    Carries l ⟨handle, t⟩ cat := by
  have items : itemsIn l s = cat.items := carries.itemsIn_eq
  have front : s.Agree t 0 headerSize := fun place _ inside => same place (.front (by omega))
  have shown : Front l t (countersIn s) := carries.front.congr front
  have counters : countersIn t = countersIn s := shown.counters
  rw [Carries] at carries ⊢
  dsimp only at carries ⊢
  rw [counters]
  refine ⟨⟨carries.reach.handle, long⟩, shown, carries.count, fun {pos item} there => ?_,
    fun item listed => ?_, carries.chain.congr fun slot listed place low high => ?_, carries.high,
    carries.next, carries.ordered⟩
  · have live := (List.getElem?_eq_some_iff.mp there).1
    rw [← carries.records there]
    exact (entryIn_congr fun place low high => same place (.record (by rw [items]; exact live) low high)).symm
  · refine itemOf_congr_used (carries.blocks item listed) (carries.slot_lt listed) fun place low high => ?_
    exact same place (.block (by rw [items]; exact listed) low high)
  · have below : slot < cat.highWater :=
      carries.ordered.inside slot (List.mem_append_right _ listed)
    refine same place (.link (carries.high ▸ below) (fun item stored => ?_) low high)
    rw [items] at stored
    exact carries.ordered.slot_ne_freed stored listed

theorem Carries.not_uses {handle : RegionHandle} (carries : Carries l ⟨handle, s⟩ cat) {slot : UInt32}
    (live : slot.toNat < l.maxBlocks.toNat) (vacant : ∀ item ∈ itemsIn l s, item.slot ≠ slot)
    {place : Nat} (low : l.payloadOffset slot ≤ place) (high : place < l.payloadOffset slot + l.capacity) :
    ¬ Uses l s place := by
  have items : itemsIn l s = cat.items := carries.itemsIn_eq
  have slab := l.slab_le_slot live
  have head := l.headerSize_le_slab
  have area := l.nine_le_capacity
  rw [l.payloadOffset_eq live] at low high
  intro used
  cases used with
  | front inside => omega
  | record live _ high' =>
    rw [items] at live
    have inside := l.record_le_slab (live.trans_le carries.length_le)
    omega
  | @block item stored low' high' =>
    have fits := carries.ordered.fits item (items ▸ stored)
    have there : item ∈ cat.items := items ▸ stored
    rcases l.slot_apart (carries.slot_lt there) live (vacant item stored) with before | behind
    · omega
    · omega
  | @link other freed _ low' high' =>
    rw [Block.headerSize] at low high
    by_cases here : other = slot
    · subst here
      omega
    · have live' : other.toNat < l.maxBlocks.toNat := by
        have high : (countersIn s).highWater ≤ l.maxBlocks := carries.high.trans_le carries.ordered.high
        exact UInt32.lt_iff_toNat_lt.mp (UInt32.lt_of_lt_of_le freed high)
      rcases l.slot_apart live' live here with before | behind
      · rw [Block.headerSize] at before
        omega
      · rw [Block.headerSize] at behind
        omega

end Store

namespace Commons

open Store

variable {l : Layout} {c : Commons} {cat : Catalog}

theorem Carrying.answers_congr (carrying : Carrying l c cat) {bytes : SparseBytes}
    (long : c.bytes.size ≤ bytes.size)
    (same : ∀ place, Uses l c.bytes place → c.bytes.byteAt place = bytes.byteAt place)
    (moves : List Move) : (⟨bytes, c.handles⟩ : Commons).answers moves = c.answers moves := by
  have reach : l.required ≤ c.bytes.size := carrying.carries.reach.bytes
  have other : Carrying l ⟨bytes, c.handles⟩ cat :=
    ⟨carrying.carries.congr (reach.trans long) same, carrying.sound, carrying.tidy⟩
  exact other.answers_eq carrying rfl moves

/-- What is told at a region that is formatted first. -/
def history (config : StoreConfig) (region : Region) (moves : List Move) : Except Fault (List Answer) :=
  match Attachment.format config region with
  | .ok a region => .ok ((⟨region.bytes, [a]⟩ : Commons).answers moves)
  | .error fault _ => .error fault

theorem history_eq {config : StoreConfig} (valid : config.validate = .ok ())
    (divided : Attachment.layoutFor config = .ok l) {region : Region} (reach : region.Reaches l.required) :
    ∃ bytes, Carrying l ⟨bytes, [.fresh region.handle l config]⟩ .empty ∧ ∀ moves,
      history config region moves =
        .ok ((⟨bytes, [.fresh region.handle l config]⟩ : Commons).answers moves) := by
  obtain ⟨region', made, handle, carries⟩ := Attachment.format_run valid divided reach
  refine ⟨region'.bytes, ⟨carries.through (Nat.le_refl _), .empty, fun a attached => ?_⟩, fun moves => ?_⟩
  · obtain rfl := List.mem_singleton.mp attached
    exact ⟨rfl, reach.handle, .empty⟩
  · rw [history, made]

/-- Two regions that are formatted alike tell the same from then on, whatever they held before. And at
any time the bytes that a store does not use make no difference to what it will tell: not those from
before the formatting, and not those that blocks have left in freed slots. -/
theorem formatting_forgets {config : StoreConfig} (valid : config.validate = .ok ())
    (divided : Attachment.layoutFor config = .ok l) :
    (∀ first second : Region, first.Reaches l.required → second.Reaches l.required → ∀ moves,
      ∃ answers, history config first moves = .ok answers ∧
        history config second moves = .ok answers) ∧
    ∀ c : Commons, c.Reachable → ∀ a ∈ c.handles, ∀ bytes : SparseBytes, c.bytes.size ≤ bytes.size →
      (∀ place, Uses a.layout c.bytes place → c.bytes.byteAt place = bytes.byteAt place) →
      ∀ moves, (⟨bytes, c.handles⟩ : Commons).answers moves = c.answers moves := by
  constructor
  · intro first second long long' moves
    obtain ⟨bytes, carrying, told⟩ := history_eq valid divided long
    obtain ⟨bytes', carrying', told'⟩ := history_eq valid divided long'
    refine ⟨_, told moves, ?_⟩
    rw [told' moves, carrying.answers_eq carrying' rfl]
  · intro c reached a attached bytes long same moves
    obtain ⟨_, _, carrying⟩ := reached.carrying
    rw [(carrying.tidy a attached).layout] at same
    exact carrying.answers_congr long same moves

/-- A region of zeros and one where something was written tell the same; and so does a store in which
the slot of an erased block is overwritten. -/
theorem formatting_forgets_leftovers :
    ∃ (config : StoreConfig) (first second : Region), first.bytes.byteAt 200 ≠ second.bytes.byteAt 200 ∧
      (∀ moves, ∃ answers, history config first moves = .ok answers ∧
        history config second moves = .ok answers) ∧
      ∃ (c : Commons) (a : Attachment), c.Reachable ∧ a ∈ c.handles ∧
        (∀ item ∈ Catalog.itemsIn a.layout c.bytes, item.slot ≠ 1) ∧
        1 < (Catalog.countersIn c.bytes).highWater ∧
        ∀ moves, (⟨c.bytes.write (a.layout.payloadOffset 1) ⟨#[255, 255]⟩, c.handles⟩ :
          Commons).answers moves = c.answers moves := by
  have divided : Attachment.layoutFor { blockCapacity := 64, maxBlocks := 8 } =
      .ok ⟨64, 8, by decide, by decide, by decide⟩ := rfl
  obtain ⟨tells, hides⟩ := formatting_forgets rfl divided
  obtain ⟨start, fresh, handles, carrying⟩ := Fresh.of_config rfl divided
  generalize same : (⟨64, 8, by decide, by decide, by decide⟩ : Layout) = l at *
  refine ⟨_, ⟨⟨l.required, .memory 0⟩, .zeros l.required⟩,
    ⟨⟨l.required, .memory 0⟩, (SparseBytes.zeros l.required).write 200 ⟨#[255]⟩⟩, ?_,
    fun moves => tells _ _ ⟨Nat.le_refl _, Nat.le_refl _⟩ ⟨Nat.le_refl _, ?_⟩ moves, ?_⟩
  · rw [SparseBytes.byteAt_zeros, SparseBytes.byteAt_write, if_pos (by decide)]
    decide
  · rw [SparseBytes.size_write _ _ _ (by decide)]
    exact Nat.le_max_left _ _
  · let before : List Operation := [.put ⟨⟨7⟩, .source, ⟨100⟩, ⟨#[3, 4, 5]⟩⟩ 1000000,
      .erase ⟨.pack ⟨7⟩ .source ⟨100⟩, 1⟩ 1000000]
    obtain ⟨alone, after⟩ := carrying.alone handles before
    have reached : (start.run (before.map (.operate 0))).Reachable := ⟨start, fresh, _, rfl⟩
    generalize start.run (before.map (.operate 0)) = c at alone after reached
    have attached := alone ▸ List.mem_singleton_self _
    have seen := after.seen attached
    have vacant : ∀ item ∈ Catalog.itemsIn l c.bytes, item.slot ≠ 1 := by
      rw [after.carries.itemsIn_eq, ← same]
      decide +kernel
    refine ⟨c, _, reached, attached, vacant, ?_, fun moves => ?_⟩
    · rw [after.carries.high, ← same]
      decide +kernel
    · refine hides c reached _ attached _ ?_ (fun place used => ?_) moves
      · rw [SparseBytes.size_write _ _ _ (by decide)]
        exact Nat.le_max_left _ _
      · rw [SparseBytes.byteAt_write, if_neg]
        rintro ⟨low, high⟩
        have area {l : Layout} : 2 ≤ l.capacity := le_trans (by decide) l.nine_le_capacity
        have live : (1 : UInt32).toNat < l.maxBlocks.toNat := by
          rw [← same]
          decide
        exact after.carries.not_uses live vacant low (high.trans_le (Nat.add_le_add_left area _)) used

end Commons

end Reassembly
