import Reassembly.Proofs.Gains

/-!
The numbers of insertions. A put completes blocks, adds frames and stores new blocks, each of these
under the next number and with the time of the put. While the numbers last, the blocks of a store have
different ones; so their references are strictly in order, and erasing one leaves all others.
-/

namespace Reassembly.Store

theorem toNat_add_ofNat {number : UInt64} {step : Nat} (last : number.toNat + step < UInt64.size) :
    (number + .ofNat step).toNat = number.toNat + step := by
  rw [UInt64.toNat_add, UInt64.toNat_ofNat']
  rw [UInt64.size] at last
  omega

/-- What some edits of payload blocks at one time make of a catalog, with the number of blocks that
they store. -/
inductive Edits (l : Layout) (now : Micros) (first : Catalog) : Nat → Catalog → Prop
  | nothing : Edits l now first 0 first
  | complete {count : Nat} {cat : Catalog} {item : Item} (edits : Edits l now first count cat)
      (ordered : cat.Ordered l) (member : item ∈ cat.items) (stream : item.isPayload = true) :
      Edits l now first count (cat.complete item)
  | append {count : Nat} {cat : Catalog} {item : Item} (edits : Edits l now first count cat)
      (ordered : cat.Ordered l) (member : item ∈ cat.items) (stream : item.isPayload = true)
      (seq : Seq) (chunk : ByteArray) : Edits l now first count (cat.append item seq chunk now)
  | shelve {count : Nat} {cat : Catalog} {item : Item} (edits : Edits l now first count cat)
      (next : cat.nextSlot? l = some item.slot) (stream : item.isPayload = true)
      (number : item.ref.generation = cat.nextGeneration) (time : item.header.lastUpdate = now) :
      Edits l now first (count + 1) (cat.shelve item)

namespace Edits

variable {l : Layout} {now : Micros} {a b c : Catalog} {count more : Nat}

theorem trans (first : Edits l now a count b) (second : Edits l now b more c) :
    Edits l now a (count + more) c := by
  induction second with
  | nothing => exact first
  | complete _ ordered member stream ih => exact ih.complete ordered member stream
  | append _ ordered member stream seq chunk ih => exact ih.append ordered member stream seq chunk
  | shelve _ next stream number time ih => exact ih.shelve next stream number time

theorem length (edits : Edits l now a count b) : b.items.length = a.items.length + count := by
  induction edits with
  | nothing => rfl
  | complete _ _ _ _ ih => rw [Catalog.complete, Catalog.length_recast, ih]
  | append _ _ _ _ _ _ ih => rw [Catalog.append, Catalog.length_recast, ih]
  | shelve _ _ _ _ _ ih =>
    rw [Catalog.shelve, Catalog.length_file, ih]
    omega

theorem nextGeneration (edits : Edits l now a count b) :
    b.nextGeneration = a.nextGeneration + UInt64.ofNat count := by
  induction edits with
  | nothing => exact (UInt64.add_zero _).symm
  | complete _ _ _ _ ih => exact ih
  | append _ _ _ _ _ _ ih => exact ih
  | shelve _ _ _ _ _ ih =>
    rw [Catalog.shelve, ih, UInt64.ofNat_add, UInt64.add_assoc]
    rfl

theorem mem_recast_iff {cat : Catalog} (ordered : cat.Ordered l) {old item : Item}
    (member : old ∈ cat.items) (stream : old.isPayload = true) {header : Block.Header}
    (kind : header.kind = old.header.kind) (body : ByteArray) (other : item.isPayload = false) :
    item ∈ (cat.recast old.slot header body).items ↔ item ∈ cat.items := by
  rw [Catalog.mem_recast]
  constructor
  · rintro (⟨before, known, same, rfl⟩ | ⟨known, _⟩)
    · rw [Item.isPayload] at stream other
      rw [kind, stream] at other
      cases other
    · exact known
  · refine fun known => .inr ⟨known, fun same => ?_⟩
    rw [ordered.eq_of_slot known member same, stream] at other
    cases other

theorem mem_iff (edits : Edits l now a count b) {item : Item} (other : item.isPayload = false) :
    item ∈ b.items ↔ item ∈ a.items := by
  induction edits with
  | nothing => exact Iff.rfl
  | complete _ ordered member stream ih =>
    exact (mem_recast_iff ordered member stream (by rfl) _ other).trans ih
  | append _ ordered member stream _ _ ih =>
    exact (mem_recast_iff ordered member stream (by rfl) _ other).trans ih
  | shelve _ _ stream _ _ ih =>
    refine Catalog.mem_file.trans ⟨fun listed => listed.elim (fun same => ?_) ih.mp,
      fun known => .inr (ih.mpr known)⟩
    rw [same, stream] at other
    cases other

theorem forall_lastUpdate (edits : Edits l now a count b) {noted : Micros → Prop} (at_now : noted now)
    (before : ∀ item ∈ a.items, noted item.header.lastUpdate) :
    ∀ item ∈ b.items, noted item.header.lastUpdate := by
  induction edits with
  | nothing => exact before
  | complete _ _ member _ ih =>
    intro item listed
    have same := ih _ member
    rcases Catalog.mem_recast.mp listed with ⟨_, _, _, rfl⟩ | ⟨known, _⟩
    · exact same
    · exact ih item known
  | append _ _ _ _ _ _ ih =>
    intro item listed
    rcases Catalog.mem_recast.mp listed with ⟨_, _, _, rfl⟩ | ⟨known, _⟩
    · exact at_now
    · exact ih item known
  | shelve _ _ _ _ time ih =>
    intro item listed
    rcases Catalog.mem_file.mp listed with rfl | known
    · rw [time]
      exact at_now
    · exact ih item known

end Edits

namespace Catalog

/-- Every block has a number of its own, lower than the next. -/
structure Numbered (cat : Catalog) : Prop where
  below : ∀ entry ∈ cat.items.map Item.entry, entry.ref.generation < cat.nextGeneration
  distinct : (cat.items.map Item.entry).Pairwise fun a b => a.ref.generation ≠ b.ref.generation

theorem Numbered.empty : Catalog.empty.Numbered := ⟨nofun, .nil⟩

variable {l : Layout} {cat : Catalog}

theorem Numbered.recast (numbered : cat.Numbered) (slot : UInt32) (header : Block.Header)
    (body : ByteArray) : (cat.recast slot header body).Numbered := by
  constructor
  · rw [map_entry_recast]
    exact numbered.below
  · rw [map_entry_recast]
    exact numbered.distinct

theorem Numbered.swept (numbered : cat.Numbered) (idle now : Micros) :
    (cat.swept idle now).Numbered := by
  have entries : (cat.swept idle now).items.map Item.entry = cat.items.map Item.entry := by
    rw [Catalog.swept, List.map_map]
    exact List.map_congr_left fun item _ => item.entry_swept idle now
  constructor
  · rw [entries]
    exact numbered.below
  · rw [entries]
    exact numbered.distinct

theorem Numbered.of_sublist (numbered : cat.Numbered) {fewer : Catalog}
    (sub : fewer.items.Sublist cat.items) (next : fewer.nextGeneration = cat.nextGeneration) :
    fewer.Numbered := by
  refine ⟨fun entry listed => ?_, numbered.distinct.sublist (sub.map _)⟩
  rw [next]
  exact numbered.below entry ((sub.map _).subset listed)

theorem Numbered.shelve (numbered : cat.Numbered) {item : Item}
    (number : item.ref.generation = cat.nextGeneration)
    (last : cat.nextGeneration.toNat + 1 < UInt64.size) : (cat.shelve item).Numbered := by
  have perm := (perm_file cat.items item).map Item.entry
  have next : cat.nextGeneration < cat.nextGeneration + 1 := by
    rw [UInt64.lt_iff_toNat_lt, UInt64.toNat_add, UInt64.toNat_one]
    rw [UInt64.size] at last
    omega
  constructor
  · intro entry listed
    rcases List.mem_cons.mp (perm.subset listed) with rfl | old
    · exact number ▸ next
    · exact UInt64.lt_trans (numbered.below entry old) next
  · refine (perm.pairwise_iff fun apart => apart.symm).mpr ?_
    refine List.pairwise_cons.mpr ⟨fun entry old same => ?_, numbered.distinct⟩
    have lower := numbered.below entry old
    rw [← same, number] at lower
    exact UInt64.lt_irrefl _ lower

theorem Numbered.edits {now : Micros} {count : Nat} {cat' : Catalog} (numbered : cat.Numbered)
    (edits : Edits l now cat count cat') (last : cat.nextGeneration.toNat + count < UInt64.size) :
    cat'.Numbered := by
  induction edits with
  | nothing => exact numbered
  | complete _ _ _ _ ih => exact (ih last).recast _ _ _
  | append _ _ _ _ _ _ ih => exact (ih last).recast _ _ _
  | @shelve count b item edits _ _ number _ ih =>
    refine (ih (by omega)).shelve number ?_
    rw [edits.nextGeneration, toNat_add_ofNat (by omega)]
    omega

def Distinct (cat : Catalog) : Prop := cat.items.Pairwise fun a b => a.ref ≠ b.ref

theorem Numbered.refs (numbered : cat.Numbered) : cat.Distinct :=
  (List.pairwise_map.mp numbered.distinct).imp fun apart same => apart (congrArg Ref.generation same)

theorem Distinct.empty : Catalog.empty.Distinct := .nil

theorem Distinct.swept (separate : cat.Distinct) (idle now : Micros) : (cat.swept idle now).Distinct := by
  refine List.pairwise_map.mpr (separate.imp fun {a b} apart => ?_)
  rw [Item.ref, Item.ref, Item.entry_swept, Item.entry_swept]
  exact apart

theorem Distinct.of_sublist (separate : cat.Distinct) {fewer : Catalog}
    (sub : fewer.items.Sublist cat.items) : fewer.Distinct := List.Pairwise.sublist sub separate

theorem Distinct.strict (separate : cat.Distinct) (ordered : cat.Ordered l) :
    cat.items.Pairwise fun a b => a.ref.rank < b.ref.rank := by
  refine (ordered.sorted.and separate).imp fun {a b} both => ?_
  exact Nat.lt_of_le_of_ne both.1 fun same => both.2 (Ref.rank_injective same)

theorem Distinct.find?_ref (separate : cat.Distinct) {item : Item} (member : item ∈ cat.items) :
    cat.find? item.ref = some item := by
  obtain ⟨front, back, parts⟩ := List.append_of_mem member
  have apart := separate
  rw [Distinct, parts] at apart
  rw [find?, parts, List.find?_append, List.find?_eq_none.mpr, Option.none_or, List.find?_cons_of_pos]
  · exact decide_eq_true rfl
  · intro other early same
    exact (List.pairwise_append.mp apart).2.2 other early item List.mem_cons_self
      (of_decide_eq_true same)

theorem Distinct.eq_of_ref (separate : cat.Distinct) {a b : Item} (first : a ∈ cat.items)
    (second : b ∈ cat.items) (same : a.ref = b.ref) : a = b := by
  have here := separate.find?_ref first
  rw [same, separate.find?_ref second] at here
  exact (Option.some.inj here).symm

theorem eraseIdx_eq_filter {α β : Type} [DecidableEq β] {f : α → β} {xs : List α} {pos : Nat} {x : α}
    (apart : xs.Pairwise fun a b => f a ≠ f b) (there : xs[pos]? = some x) :
    xs.eraseIdx pos = xs.filter fun a => f a ≠ f x := by
  induction xs generalizing pos with
  | nil => cases there
  | cons first rest ih =>
    obtain ⟨head, tail⟩ := List.pairwise_cons.mp apart
    cases pos with
    | zero =>
      obtain rfl := Option.some.inj there
      rw [List.eraseIdx_cons_zero, List.filter_cons_of_neg (by simp)]
      exact (List.filter_eq_self.mpr fun a later => decide_eq_true (head a later).symm).symm
    | succ pos =>
      rw [List.eraseIdx_cons_succ, ih tail there, List.filter_cons_of_pos]
      exact decide_eq_true (head x (List.mem_of_getElem? there))

theorem Distinct.items_erase (separate : cat.Distinct) (ordered : cat.Ordered l) (target : Ref) :
    (cat.erase target).items = cat.items.filter fun item => item.ref ≠ target := by
  rw [erase]
  cases found : cat.find? target with
  | none =>
    refine (List.filter_eq_self.mpr fun item member => ?_).symm
    have apart : item.ref ≠ target := by
      rintro rfl
      rw [separate.find?_ref member] at found
      cases found
    simpa using apart
  | some item =>
    have left := eraseIdx_eq_filter separate (ordered.getElem?_below found)
    rw [ref_of_find? found] at left
    exact left

theorem Distinct.erase (separate : cat.Distinct) (target : Ref) : (cat.erase target).Distinct := by
  rw [Catalog.erase]
  split
  · exact separate
  · exact separate.of_sublist (List.eraseIdx_sublist _ _)

theorem Numbered.erase (numbered : cat.Numbered) (target : Ref) : (cat.erase target).Numbered := by
  rw [Catalog.erase]
  split
  · exact numbered
  · exact numbered.of_sublist (List.eraseIdx_sublist _ _) rfl

end Catalog

end Reassembly.Store

namespace Reassembly.Writing

open Store

variable {l : Layout} {idle : Micros}

namespace Bench

variable {b b' : Bench} {piece : Piece} {chunk : ByteArray}

theorem storeNew_edits (b : Bench) (piece : Piece) (chunk : ByteArray) :
    ∃ count ≤ 1, Edits l piece.now b.cat count (b.storeNew l piece chunk).2.cat := by
  rw [storeNew]
  split
  · exact ⟨0, Nat.zero_le _, .nothing⟩
  · next slot next =>
    have filed : Edits l piece.now b.cat 1 (b.cat.shelve (opened b.cat slot piece chunk)) :=
      Edits.nothing.shelve next rfl rfl rfl
    refine ⟨1, Nat.le_refl _, ?_⟩
    dsimp only
    split
    · exact filed
    · exact filed

theorem Fit.isPayload {lane : Nat} (fit : b.Fit l lane) {item : Item} (member : item ∈ b.cat.items)
    (writable : item.header.isComplete = false) : item.isPayload = true := by
  obtain ⟨_, streams⟩ := fit.streams member writable
  exact streams.isPayload

theorem Fit.reopen_edits {lane : Nat} (fit : b.Fit l lane) (now : Micros) :
    Edits l now b.cat 0 (b.reopen idle now).cat := by
  rw [Bench.reopen]
  split
  · exact .nothing
  · next item found =>
    have member := mem_of_located found
    split
    · exact .nothing
    · next writable =>
      have stream := fit.isPayload member (Bool.eq_false_iff.mpr writable)
      split
      · exact .complete .nothing fit.ordered member stream
      · exact .nothing

theorem Placed.edits {placement : Placement} (placed : Placed l idle b piece chunk placement b')
    (fit : b.Fit l piece.lane) : ∃ count ≤ 1, Edits l piece.now b.cat count b'.cat := by
  cases placed with
  | covered _ _ => exact ⟨0, Nat.zero_le _, .nothing⟩
  | continued current _ _ =>
    have member := mem_of_writable? current
    have stream := fit.isPayload member (writable?_spec current).2.1
    exact ⟨0, Nat.zero_le _, .append .nothing fit.ordered member stream _ _⟩
  | resumed found writable _ _ =>
    have member := (fit.ordered.sorted.predecessor?_spec found).1
    have stream := fit.isPayload member writable
    exact ⟨0, Nat.zero_le _, .append .nothing fit.ordered member stream _ _⟩
  | @replaced item current _ =>
    obtain ⟨count, few, edits⟩ := storeNew_edits (l := l) ⟨none, b.cat.complete item⟩ piece chunk
    have member := mem_of_writable? current
    have stream := fit.isPayload member (writable?_spec current).2.1
    have closed : Edits l piece.now b.cat 0 (b.cat.complete item) :=
      .complete .nothing fit.ordered member stream
    exact ⟨0 + count, by omega, closed.trans edits⟩
  | apart _ => exact storeNew_edits b piece chunk

theorem Fit.placeAll_edits {base : Seq} {data : ByteArray} {offset : Nat} (fit : b.Fit l piece.lane)
    (here : piece.seq = base.advance offset) (stored : Option Outcome) (duplicate : Bool) :
    ∃ count ≤ data.size - offset, Edits l piece.now b.cat count
      (b.placeAll l idle piece data offset stored duplicate).2.cat := by
  fun_induction Bench.placeAll l idle b piece data offset stored duplicate with
  | case1 b piece offset stored duplicate rest placed b' taken dropped =>
    have step := (@Writing.Bench.place_placed _ idle _ piece) fit data offset
    rw [taken] at step
    obtain ⟨count, few, edits⟩ := step.edits (fit.reopen piece.now)
    exact ⟨0 + count, by omega, (fit.reopen_edits piece.now).trans edits⟩
  | case2 b piece offset stored duplicate rest placed b' taken kept duplicate' stored' progress =>
    rename_i ih
    have step := (@Writing.Bench.place_placed _ idle _ piece) fit data offset
    have spec := (@Writing.Bench.Fit.place_spec _ idle) fit rest here
    rw [taken] at step spec
    dsimp only at spec
    obtain ⟨count, few, edits⟩ := step.edits (fit.reopen piece.now)
    obtain ⟨others, bound, later⟩ := ih spec.1 (Piece.seq_advance here _)
    have inside := (spec.2.2.2 kept).2.1
    exact ⟨0 + count + others, by omega, ((fit.reopen_edits piece.now).trans edits).trans later⟩
  | case3 b piece offset stored duplicate rest placed b' taken kept duplicate' stored' =>
    rename_i stuck
    exact absurd (fit.consumed_pos rest taken kept) stuck
  | case4 b piece offset stored duplicate done => exact ⟨0, Nat.zero_le _, .nothing⟩

end Bench

namespace Desk

variable {config : StoreConfig} {segment : Segment} {now : Micros} {d : Desk}

inductive Announces (l : Layout) (config : StoreConfig) (segment : Segment) (now : Micros) (d : Desk) :
    WriterFlow → Catalog → Prop
  | known {writer : WriterFlow} (known : d.known? config segment now = some writer) :
      Announces l config segment now d writer d.cat
  | anew {slot : UInt32} (unknown : d.known? config segment now = none)
      (next : d.cat.nextSlot? l = some slot) :
      Announces l config segment now d (.fresh now)
        (d.cat.shelve (markerFor d.cat slot segment now))

theorem announces_of {writer : WriterFlow} {cat : Catalog}
    (found : d.announce? l config segment now = some (writer, cat)) :
    Announces l config segment now d writer cat := by
  rw [announce?] at found
  split at found
  · next known =>
    obtain ⟨rfl, rfl⟩ := Prod.mk.inj (Option.some.inj found)
    exact .known known
  · next unknown =>
    obtain ⟨slot, next, same⟩ := Option.map_eq_some_iff.mp found
    obtain ⟨rfl, rfl⟩ := Prod.mk.inj same
    exact .anew unknown next

/-- After the announcement a put stores no more blocks than its segment has bytes. -/
theorem Fit.put_edits {writer : WriterFlow} {cat : Catalog} (fit : d.Fit l)
    (found : d.announce? l config segment now = some (writer, cat)) :
    ∃ count ≤ segment.payload.size, Edits l now cat count (d.put l config segment now).2.cat := by
  rw [put, found]
  dsimp only
  split
  · exact ⟨0, Nat.zero_le _, .nothing⟩
  · exact (fit.bench found).placeAll_edits (Seq.advance_zero _).symm none false

theorem put_of_announced {writer : WriterFlow} {cat : Catalog}
    (found : d.announce? l config segment now = some (writer, cat)) :
    d.put l config segment now =
      if segment.payload.size = 0 then
        (.empty, ⟨d.writers.insert segment.flow { writer with lastWrite := now }, cat⟩)
      else ((spread l config segment now writer cat).1, ⟨d.writers.insert segment.flow
        (noted segment now writer (spread l config segment now writer cat).2),
          (spread l config segment now writer cat).2.cat⟩) := by
  rw [put, found]

theorem put_of_unannounced (found : d.announce? l config segment now = none) :
    d.put l config segment now = (.dropped, d) := by
  rw [put, found]

theorem Fit.put_numbered (fit : d.Fit l) (numbered : d.cat.Numbered)
    (last : d.cat.nextGeneration.toNat + (segment.payload.size + 1) < UInt64.size) :
    (d.put l config segment now).2.cat.Numbered ∧
      (d.put l config segment now).2.cat.nextGeneration.toNat ≤
        d.cat.nextGeneration.toNat + (segment.payload.size + 1) := by
  cases found : d.announce? l config segment now with
  | none =>
    rw [put_of_unannounced found]
    exact ⟨numbered, Nat.le_add_right _ _⟩
  | some pair =>
    obtain ⟨writer, cat⟩ := pair
    obtain ⟨count, few, edits⟩ := fit.put_edits found
    have marked : cat.Numbered ∧ cat.nextGeneration.toNat ≤ d.cat.nextGeneration.toNat + 1 := by
      cases announces_of found with
      | known _ => exact ⟨numbered, Nat.le_succ _⟩
      | anew _ next =>
        refine ⟨numbered.shelve rfl (by omega), ?_⟩
        rw [Catalog.shelve, UInt64.toNat_add, UInt64.toNat_one]
        exact Nat.mod_le _ _
    refine ⟨marked.1.edits edits (by omega), ?_⟩
    rw [edits.nextGeneration, toNat_add_ofNat (by omega)]
    omega

theorem Fit.put_lastUpdate (fit : d.Fit l) {noted : Micros → Prop} (at_now : noted now)
    (before : ∀ item ∈ d.cat.items, noted item.header.lastUpdate) :
    ∀ item ∈ (d.put l config segment now).2.cat.items, noted item.header.lastUpdate := by
  cases found : d.announce? l config segment now with
  | none =>
    rw [put_of_unannounced found]
    exact before
  | some pair =>
    obtain ⟨writer, cat⟩ := pair
    obtain ⟨_, _, edits⟩ := fit.put_edits found
    refine edits.forall_lastUpdate at_now ?_
    cases announces_of found with
    | known _ => exact before
    | anew _ _ =>
      intro item listed
      rcases Catalog.mem_file.mp listed with rfl | old
      · exact at_now
      · exact before item old

theorem Fit.put_counted (fit : d.Fit l) (counted : d.cat.nextGeneration.toNat ≤ d.cat.items.length) :
    (d.put l config segment now).2.cat.nextGeneration.toNat ≤
      (d.put l config segment now).2.cat.items.length := by
  cases found : d.announce? l config segment now with
  | none =>
    rw [put_of_unannounced found]
    exact counted
  | some pair =>
    obtain ⟨writer, cat⟩ := pair
    obtain ⟨count, _, edits⟩ := fit.put_edits found
    have marked : cat.nextGeneration.toNat ≤ cat.items.length := by
      cases announces_of found with
      | known _ => exact counted
      | anew _ _ =>
        rw [Catalog.shelve, Catalog.length_file, UInt64.toNat_add, UInt64.toNat_one]
        exact (Nat.mod_le _ _).trans (Nat.succ_le_succ counted)
    rw [edits.nextGeneration, edits.length, UInt64.toNat_add, UInt64.toNat_ofNat']
    have bound := Nat.mod_le count (2 ^ 64)
    have whole := Nat.mod_le (cat.nextGeneration.toNat + count % 2 ^ 64) (2 ^ 64)
    omega

end Desk

end Reassembly.Writing
