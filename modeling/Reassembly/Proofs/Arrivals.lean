import Mathlib.Data.Finset.Prod
import Mathlib.Data.Finset.Card
import Reassembly.Proofs.Disjointness
import Reassembly.Proofs.Numbering

/-!
A put of bytes that are not stored yet. It overruns no block; the references of what it stores are new
because the positions are, whatever the numbers of the insertions; and every block that it touches notes
its time. How much of a side is stored is limited by the slots and their capacity.
-/

namespace Reassembly

open Store

namespace Store

variable {l : Layout} {cat : Catalog}

theorem Item.Sound.covers_start {item : Item} (sound : item.Sound) (payload : item.isPayload = true)
    (fits : item.header.used ≤ l.capacity) : ∃ f ∈ item.frames, f.Spans item.start := by
  refine (sound.spans_iff payload fits _).mp ?_
  obtain ⟨start, some⟩ := sound.arc_spec payload fits
  rw [Item.spans_iff, Seq.Arc.Contains, start, Seq.distance_self]
  exact some

theorem covers_start_of_mem (sound : cat.Sound) (ordered : cat.Ordered l) {item : Item}
    (member : item ∈ cat.items) (payload : item.isPayload = true) :
    Covers cat.items item.lane item.start :=
  ⟨item, member, rfl, payload, (sound item member).covers_start payload (ordered.fits item member)⟩

theorem Item.Sound.distance_lt {item : Item} (sound : item.Sound) (payload : item.isPayload = true)
    (fits : item.header.used ≤ l.capacity) {position : Seq} (held : ∃ f ∈ item.frames, f.Spans position) :
    Seq.distance item.start position < l.capacity := by
  have inside := (sound.spans_iff payload fits position).mpr held
  rw [Item.spans_iff, Seq.Arc.Contains, (sound.arc_spec payload fits).1] at inside
  refine Nat.lt_of_lt_of_le inside ?_
  rcases sound with marker | ⟨chunks, streams⟩
  · rw [marker.isPayload] at payload
    cases payload
  · rw [streams.arc_eq fits]
    exact (Nat.le_add_right _ 8).trans (streams.streamLength_lt fits)

theorem Catalog.Ordered.length_le_of_covers (ordered : cat.Ordered l) (sound : cat.Sound) {lane : Nat}
    {base : Seq} {size : Nat} (small : size ≤ Seq.circle)
    (held : ∀ step, step < size → Covers cat.items lane (base.advance step)) :
    size ≤ l.maxBlocks.toNat * l.capacity := by
  choose block known payload held using fun step (inside : step < size) =>
    show ∃ item, item ∈ cat.items ∧ item.isPayload = true ∧
        ∃ f ∈ item.frames, f.Spans (base.advance step) by
      obtain ⟨item, member, _, payload, spans⟩ := held step inside
      exact ⟨item, member, payload, spans⟩
  -- a position is given by a slot and by how far it lies behind the start of the block there
  let coordinates : Nat → Nat × Nat := fun step =>
    if inside : step < size then
      ((block step inside).slot.toNat, Seq.distance (block step inside).start (base.advance step))
    else (0, 0)
  have here : ∀ step (inside : step < size), coordinates step =
      ((block step inside).slot.toNat, Seq.distance (block step inside).start (base.advance step)) :=
    fun step inside => dif_pos inside
  have card := Finset.card_le_card_of_injOn (s := Finset.range size)
    (t := Finset.range l.maxBlocks.toNat ×ˢ Finset.range l.capacity) coordinates ?_ ?_
  · rw [Finset.card_product, Finset.card_range, Finset.card_range, Finset.card_range] at card
    exact card
  · intro step listed
    have inside := Finset.mem_range.mp (Finset.mem_coe.mp listed)
    rw [here step inside, Finset.mem_coe, Finset.mem_product, Finset.mem_range, Finset.mem_range]
    refine ⟨?_, (sound _ (known step inside)).distance_lt (payload step inside)
      (ordered.fits _ (known step inside)) (held step inside)⟩
    have slot : (block step inside).slot ∈ cat.slots :=
      List.mem_append_left _ (List.mem_map_of_mem (known step inside))
    exact UInt32.lt_iff_toNat_lt.mp (UInt32.lt_of_lt_of_le (ordered.inside _ slot) ordered.high)
  · intro first listed second listed' same
    have inside := Finset.mem_range.mp (Finset.mem_coe.mp listed)
    have inside' := Finset.mem_range.mp (Finset.mem_coe.mp listed')
    rw [here first inside, here second inside', Prod.mk.injEq, UInt32.toNat_inj] at same
    have block_eq := ordered.eq_of_slot (known first inside) (known second inside') same.1
    have position : base.advance first = base.advance second := by
      rw [← Seq.advance_distance (block first inside).start (base.advance first), same.2, block_eq,
        Seq.advance_distance]
    have steps := congrArg (Seq.distance base) position
    rw [Seq.distance_advance_of_lt _ (by omega), Seq.distance_advance_of_lt _ (by omega)] at steps
    exact steps

theorem Catalog.Ordered.distinct_of_slots (ordered : cat.Ordered l)
    (apart : ∀ a ∈ cat.items, ∀ b ∈ cat.items, a.slot ≠ b.slot → a.ref ≠ b.ref) : cat.Distinct := by
  have slots : cat.items.Pairwise fun a b => a.slot ≠ b.slot :=
    List.pairwise_map.mp (List.nodup_append.mp ordered.nodup).1
  exact slots.imp_of_mem fun {a b} first second other => apart a first b second other

namespace Edits

variable {now : Micros} {a b : Catalog} {count : Nat}

theorem timed (edits : Edits l now a count b) : ∀ item ∈ b.items, item.header.lastUpdate = now ∨
    ∃ old ∈ a.items, old.entry = item.entry ∧ old.isPayload = item.isPayload ∧
      old.frames = item.frames ∧ old.header.lastUpdate = item.header.lastUpdate := by
  induction edits with
  | nothing => exact fun item listed => .inr ⟨item, listed, rfl, rfl, rfl, rfl⟩
  | @complete _ cat changed _ ordered member _ ih =>
    intro item listed
    rcases Catalog.mem_recast.mp listed with ⟨old, known, slot, rfl⟩ | ⟨known, _⟩
    · obtain rfl := ordered.eq_of_slot known member slot
      exact ih old known
    · exact ih item known
  | append _ _ _ _ _ _ ih =>
    intro item listed
    rcases Catalog.mem_recast.mp listed with ⟨_, _, _, rfl⟩ | ⟨known, _⟩
    · exact .inl rfl
    · exact ih item known
  | shelve _ _ _ _ time ih =>
    intro item listed
    rcases Catalog.mem_file.mp listed with rfl | known
    · exact .inl time
    · exact ih item known

theorem numbers (edits : Edits l now a count b) : ∀ item ∈ b.items,
    (∃ old ∈ a.items, old.entry = item.entry) ∨
      ∃ place, place < count ∧ item.ref.generation = a.nextGeneration + UInt64.ofNat place := by
  induction edits with
  | nothing => exact fun item listed => .inl ⟨item, listed, rfl⟩
  | complete _ _ _ _ ih =>
    intro item listed
    rcases Catalog.mem_recast.mp listed with ⟨old, known, _, rfl⟩ | ⟨known, _⟩
    · exact ih old known
    · exact ih item known
  | append _ _ _ _ _ _ ih =>
    intro item listed
    rcases Catalog.mem_recast.mp listed with ⟨old, known, _, rfl⟩ | ⟨known, _⟩
    · exact ih old known
    · exact ih item known
  | @shelve count cat new edits _ _ number _ ih =>
    intro item listed
    rcases Catalog.mem_file.mp listed with rfl | known
    · exact .inr ⟨count, Nat.lt_succ_self _, number.trans edits.nextGeneration⟩
    · exact (ih item known).imp id fun ⟨place, small, same⟩ => ⟨place, Nat.lt_succ_of_lt small, same⟩

end Edits

end Store

namespace Writing

variable {l : Layout} {idle : Micros}

theorem Bench.Fit.not_overruns {b : Bench} {piece : Piece} {base : Seq} {data : ByteArray} {offset : Nat}
    (fit : b.Fit l piece.lane) (here : piece.seq = base.advance offset) (small : data.size ≤ Seq.circle)
    (clear : ∀ step, offset ≤ step → step < data.size →
      ¬ Covers b.cat.items piece.lane (base.advance step)) : ¬ Overruns l idle b piece data offset := by
  intro overruns
  induction overruns with
  | @here b piece data offset rest overlies =>
    obtain ⟨item, member, lane, payload, start⟩ := overlies.other
    have covered := covers_start_of_mem fit.sound fit.ordered member payload
    rw [lane, start, here] at covered
    exact clear offset (Nat.le_refl _) rest covered
  | @later b piece data offset rest stored overruns ih =>
    obtain ⟨refit, _, _, advanced⟩ := @Bench.Fit.place_spec l idle b piece base data offset fit rest here
    obtain ⟨_, inside, covers⟩ := advanced stored
    refine ih refit (Piece.seq_advance here _) small fun step behind more covered => ?_
    rcases (covers _).mp covered with old | ⟨place, short, same⟩
    · exact clear step (by omega) more old
    · rw [here, Seq.advance_advance] at same
      have steps := congrArg (Seq.distance base) same
      rw [Seq.distance_advance_of_lt _ (by omega), Seq.distance_advance_of_lt _ (by omega)] at steps
      omega

namespace Desk

variable {config : StoreConfig} {segment : Segment} {now : Micros} {d : Desk}

def IsNew (segment : Segment) (items : List Item) : Prop := ∀ step, step < segment.payload.size →
  ¬ Covers items segment.key.lane (segment.sequence.advance step)

variable (fit : d.Fit l)
include fit

theorem Fit.put_new_spaced (new : IsNew segment d.cat.items) (small : segment.payload.size ≤ Seq.circle)
    (spaced : Spaced d.cat.items) : Spaced (d.put l config segment now).2.cat.items := by
  refine (fit.put_spaced spaced).mpr ?_
  rintro ⟨writer, cat, found, overruns⟩
  refine (fit.bench found).not_overruns (Seq.advance_zero _).symm small (fun step _ inside covered => ?_)
    overruns
  rw [lane_firstPiece] at covered
  exact new step inside (((fit.announced found).covers_iff _ _).mp covered)

theorem Fit.put_timed : ∀ item ∈ (d.put l config segment now).2.cat.items,
    item.header.lastUpdate = now ∨ ∃ old ∈ d.cat.items, old.entry = item.entry ∧
      old.isPayload = item.isPayload ∧ old.frames = item.frames ∧
        old.header.lastUpdate = item.header.lastUpdate := by
  cases found : d.announce? l config segment now with
  | none =>
    rw [put_of_unannounced found]
    exact fun item listed => .inr ⟨item, listed, rfl, rfl, rfl, rfl⟩
  | some pair =>
    obtain ⟨writer, cat⟩ := pair
    obtain ⟨_, _, edits⟩ := fit.put_edits found
    intro item listed
    refine (edits.timed item listed).elim .inl fun ⟨old, known, entry, payload, frames, time⟩ => ?_
    cases announces_of found with
    | known _ => exact .inr ⟨old, known, entry, payload, frames, time⟩
    | anew _ _ =>
      rcases Catalog.mem_file.mp known with rfl | before
      · exact .inl (time.symm.trans rfl)
      · exact .inr ⟨old, before, entry, payload, frames, time⟩

/-- A marker behind a put was there before it, or is the one that announces the segment; then what the
put stores besides has later numbers. -/
theorem Fit.put_markers {marker : Item} (listed : marker ∈ (d.put l config segment now).2.cat.items)
    (kind : marker.isPayload = false) : marker ∈ d.cat.items ∨
      ∃ slot, d.cat.nextSlot? l = some slot ∧ marker = markerFor d.cat slot segment now ∧
        ∀ item ∈ (d.put l config segment now).2.cat.items, item.slot = slot ∨
          (∃ old ∈ d.cat.items, old.entry = item.entry) ∨
          ∃ place, place < segment.payload.size ∧
            item.ref.generation = d.cat.nextGeneration + 1 + UInt64.ofNat place := by
  cases found : d.announce? l config segment now with
  | none =>
    rw [put_of_unannounced found] at listed
    exact .inl listed
  | some pair =>
    obtain ⟨writer, cat⟩ := pair
    obtain ⟨count, few, edits⟩ := fit.put_edits found
    have before := (edits.mem_iff kind).mp listed
    cases announces_of found with
    | known _ => exact .inl before
    | @anew slot _ next =>
      refine (Catalog.mem_file.mp before).symm.imp id fun same => ⟨slot, next, same, fun item there => ?_⟩
      rcases edits.numbers item there with ⟨old, known, entry⟩ | ⟨place, small, number⟩
      · rcases Catalog.mem_file.mp known with rfl | known
        · exact .inl (congrArg Entry.slot entry).symm
        · exact .inr (.inl ⟨old, known, entry⟩)
      · exact .inr (.inr ⟨place, by omega, number⟩)

theorem Fit.put_starts (new : IsNew segment d.cat.items) (some_bytes : 0 < segment.payload.size) {item : Item}
    (member : item ∈ (d.put l config segment now).2.cat.items)
    (fresh : ∀ old ∈ d.cat.items, old.slot ≠ item.slot) (lane : item.lane = segment.key.lane)
    (cut : ∀ f ∈ item.frames, f.CutFrom segment.sequence segment.payload) :
    ¬ Covers d.cat.items item.lane item.start := by
  obtain ⟨count, gains⟩ := @Fit.put_spec l config segment now d fit
  suffices here : ∃ step, step < segment.payload.size ∧ segment.sequence.advance step = item.start by
    obtain ⟨step, inside, same⟩ := here
    rw [lane, ← same]
    exact new step inside
  cases kind : item.isPayload with
  | true =>
    obtain ⟨f, present, step, short, same⟩ := (gains.fit.sound item member).covers_start kind
      (gains.fit.ordered.fits item member)
    obtain ⟨place, fits, start, _⟩ := cut f present
    refine ⟨place + step, by omega, ?_⟩
    rw [← Seq.advance_advance, ← start]
    exact same
  | false =>
    rcases fit.put_markers member kind with old | ⟨slot, _, rfl, _⟩
    · exact absurd rfl (fresh item old)
    · refine ⟨0, some_bytes, ?_⟩
      rw [Seq.advance_zero]
      exact (FlowKey.seq_pack ..).symm

theorem Fit.put_marker_apart (small : segment.payload.size ≤ Seq.circle) {marker item : Item}
    (first : marker ∈ (d.put l config segment now).2.cat.items) (kind : marker.isPayload = false)
    (second : item ∈ (d.put l config segment now).2.cat.items) (slots : marker.slot ≠ item.slot)
    (fresh : ∀ old ∈ d.cat.items, old.slot ≠ marker.slot)
    (fresh' : ∀ old ∈ d.cat.items, old.slot ≠ item.slot) : marker.ref ≠ item.ref := by
  intro same
  rcases fit.put_markers first kind with old | ⟨slot, _, rfl, later⟩
  · exact fresh marker old rfl
  · rcases later item second with here | ⟨old, known, entry⟩ | ⟨place, short, number⟩
    · exact slots here.symm
    · exact fresh' old known (congrArg Entry.slot entry)
    · have equal : d.cat.nextGeneration = d.cat.nextGeneration + 1 + UInt64.ofNat place := by
        rw [← number]
        exact congrArg Ref.generation same
      have words := congrArg UInt64.toNat equal
      rw [UInt64.toNat_add, UInt64.toNat_add, UInt64.toNat_ofNat', UInt64.toNat_one] at words
      have bound := d.cat.nextGeneration.toNat_lt
      rw [Seq.circle] at small
      omega

theorem Fit.put_separate (new : IsNew segment d.cat.items) (some_bytes : 0 < segment.payload.size)
    (small : segment.payload.size ≤ Seq.circle) (spaced : Spaced d.cat.items) (separate : d.cat.Distinct)
    (held : ∀ item ∈ d.cat.items, Covers d.cat.items item.lane item.start) :
    (d.put l config segment now).2.cat.Distinct := by
  have spaced' := @Fit.put_new_spaced l config segment now d fit new small spaced
  obtain ⟨count, gains⟩ := @Fit.put_spec l config segment now d fit
  have mixed : ∀ a b : Item, b ∈ (d.put l config segment now).2.cat.items →
      (∃ old ∈ d.cat.items, old.entry = a.entry) → (∀ old ∈ d.cat.items, old.slot ≠ b.slot) →
        b.lane = segment.key.lane → (∀ f ∈ b.frames, f.CutFrom segment.sequence segment.payload) →
          a.ref ≠ b.ref := by
    rintro a b second ⟨old, known, entry⟩ fresh lane cut same
    refine fit.put_starts new some_bytes second fresh lane cut ?_
    have covered := held old known
    rw [Item.lane, Item.start, Item.key, entry] at covered
    rw [Item.lane, Item.start, Item.key, show b.entry.ref = a.entry.ref from same.symm]
    exact covered
  refine gains.fit.ordered.distinct_of_slots fun a first b second slots same => ?_
  rcases gains.grows.known a first with ⟨old, known, ext⟩ | ⟨fresh, lane, cut⟩
  · rcases gains.grows.known b second with ⟨old', known', ext'⟩ | ⟨fresh', lane', cut'⟩
    · refine slots ?_
      have refs : old.ref = old'.ref := by
        rw [Item.ref, Item.ref, ← ext.entry, ← ext'.entry]
        exact same
      rw [ext.slot_eq, ext'.slot_eq, separate.eq_of_ref known known' refs]
    · exact mixed a b second ⟨old, known, ext.entry.symm⟩ fresh' lane' cut' same
  · rcases gains.grows.known b second with ⟨old', known', ext'⟩ | ⟨fresh', lane', cut'⟩
    · exact mixed b a first ⟨old', known', ext'.entry.symm⟩ fresh lane cut same.symm
    · cases kind : a.isPayload with
      | false => exact fit.put_marker_apart small first kind second slots fresh fresh' same
      | true =>
        cases kind' : b.isPayload with
        | false => exact fit.put_marker_apart small second kind' first slots.symm fresh' fresh same.symm
        | true =>
          -- two blocks of new bytes start apart
          have clear := spaced' a first b second slots kind kind' (lane.trans lane'.symm)
          obtain ⟨start, some⟩ := (gains.fit.sound a first).arc_spec kind
            (gains.fit.ordered.fits a first)
          obtain ⟨start', _⟩ := (gains.fit.sound b second).arc_spec kind'
            (gains.fit.ordered.fits b second)
          have short := clear.1
          have together : a.start = b.start := congrArg (fun ref => ref.key.seq) same
          rw [start, start', together, Seq.distance_self] at short
          exact absurd some (Nat.not_lt.mpr short)

end Desk

end Writing

end Reassembly
