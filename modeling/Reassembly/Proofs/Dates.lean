import Reassembly.Proofs.Representation
import Reassembly.Proofs.Steadiness

/-!
How old the open blocks are that a handle knows. As long as the numbers of the blocks do not begin again,
each of them was stored before and its number is below the next one, in every state that handles come to.
-/

namespace Reassembly

open Store

namespace Writing

namespace Bench

variable {l : Layout} {idle : Micros} {b b' : Bench} {piece : Piece} {chunk : ByteArray} {lane limit : Nat}

/-- A bench in order, with an open block from before, where the numbers last until there are `limit`
blocks. -/
structure Dated (l : Layout) (lane limit : Nat) (b : Bench) : Prop extends b.Fit l lane where
  numbered : b.cat.Numbered
  last : b.cat.nextGeneration.toNat + limit < UInt64.size + b.cat.items.length
  older : ∀ ref, b.openBlock = some ref → ref.generation < b.cat.nextGeneration

def OpensFrom (before : Option Ref) (b : Bench) : Prop :=
  ∀ ref, b.openBlock = some ref → before = some ref ∨ ∃ item ∈ b.cat.items, item.ref = ref

theorem storeNew_opens (b : Bench) : (b.storeNew l piece chunk).2.OpensFrom b.openBlock := by
  intro ref current
  rw [storeNew] at current ⊢
  split at current
  · exact .inl current
  · next slot next =>
    dsimp only at current ⊢
    split at current
    · next ahead =>
      rw [if_pos ahead]
      exact .inr ⟨_, Catalog.mem_file.mpr (.inl rfl), Option.some.inj current⟩
    · exact .inl current

theorem Placed.opens {placement : Placement} (placed : Placed l idle b piece chunk placement b') :
    b'.OpensFrom b.openBlock := by
  cases placed with
  | covered _ _ | continued _ _ _ | resumed _ _ _ _ => exact fun ref current => .inl current
  | replaced _ _ =>
    intro ref current
    exact .inr ((storeNew_opens _ ref current).resolve_left nofun)
  | apart _ => exact storeNew_opens b

theorem openBlock_of_reopen {now : Micros} {ref : Ref}
    (current : (b.reopen idle now).openBlock = some ref) : b.openBlock = some ref := by
  rw [reopen] at current
  split at current
  · cases current
  · split at current
    · cases current
    · split at current
      · cases current
      · exact current

theorem Fit.place_edits (fit : b.Fit l piece.lane) (data : ByteArray) (offset : Nat) :
    ∃ count, Edits l piece.now b.cat count (b.place l idle piece data offset).2.cat := by
  obtain ⟨count, _, edits⟩ := (@place_placed l idle b piece _ fit data offset).edits (fit.reopen piece.now)
  exact ⟨_, (fit.reopen_edits piece.now).trans edits⟩

theorem Fit.place (fit : b.Fit l piece.lane) {data : ByteArray} {offset : Nat}
    (inside : offset < data.size) :
    (b.place l idle piece data offset).2.Fit l piece.lane := by
  obtain ⟨origin, here⟩ := piece.seq.exists_advance offset
  exact (@Fit.place_spec l idle b piece origin data offset fit inside here).1

theorem Fit.length_le_placeAll (fit : b.Fit l piece.lane) (data : ByteArray) (offset : Nat)
    (stored : Option Outcome) (duplicate : Bool) : b.cat.items.length ≤
      (b.placeAll l idle piece data offset stored duplicate).2.cat.items.length := by
  obtain ⟨origin, here⟩ := piece.seq.exists_advance offset
  obtain ⟨count, _, edits⟩ := @Fit.placeAll_edits l idle b piece origin data offset fit here stored duplicate
  exact edits.length ▸ Nat.le_add_right _ _

theorem Dated.edits {now : Micros} {count : Nat} (dated : b.Dated l lane limit) (fit : b'.Fit l lane)
    (edits : Edits l now b.cat count b'.cat) (opens : b'.OpensFrom b.openBlock)
    (few : b'.cat.items.length ≤ limit) : b'.Dated l lane limit := by
  have last := dated.last
  have length := edits.length
  have next : b'.cat.nextGeneration.toNat = b.cat.nextGeneration.toNat + count := by
    rw [edits.nextGeneration, toNat_add_ofNat (by omega)]
  have numbered := dated.numbered.edits edits (by omega)
  refine ⟨fit, numbered, by omega, fun ref current => ?_⟩
  rcases opens ref current with old | ⟨item, known, rfl⟩
  · have earlier := dated.older ref old
    rw [UInt64.lt_iff_toNat_lt] at earlier ⊢
    omega
  · exact numbered.below item.entry (List.mem_map_of_mem known)

theorem Dated.reopen (dated : b.Dated l lane limit) (now : Micros) :
    (b.reopen idle now).Dated l lane limit := by
  have edits := @Fit.reopen_edits l idle b lane dated.toFit now
  have next : (b.reopen idle now).cat.nextGeneration = b.cat.nextGeneration := by
    rw [edits.nextGeneration]
    exact UInt64.add_zero _
  refine ⟨dated.toFit.reopen now, dated.numbered.edits edits (UInt64.toNat_lt _), ?_, fun ref current => ?_⟩
  · rw [edits.length, next, Nat.add_zero]
    exact dated.last
  · rw [next]
    exact dated.older ref (openBlock_of_reopen current)

theorem Dated.place (dated : b.Dated l piece.lane limit) {data : ByteArray} {offset : Nat}
    (inside : offset < data.size) (few : (b.place l idle piece data offset).2.cat.items.length ≤ limit) :
    (b.place l idle piece data offset).2.Dated l piece.lane limit := by
  obtain ⟨_, edits⟩ := @Fit.place_edits l idle b piece dated.toFit data offset
  have placed := @place_placed l idle b piece _ dated.toFit data offset
  refine dated.edits (dated.toFit.place inside) edits (fun ref current => ?_) few
  exact (placed.opens ref current).imp_left openBlock_of_reopen

theorem Dated.placeAll (dated : b.Dated l piece.lane limit) {data : ByteArray} {offset : Nat}
    {stored : Option Outcome} {duplicate : Bool}
    (few : (b.placeAll l idle piece data offset stored duplicate).2.cat.items.length ≤ limit) :
    (b.placeAll l idle piece data offset stored duplicate).2.Dated l piece.lane limit := by
  fun_induction Bench.placeAll l idle b piece data offset stored duplicate with
  | case1 b piece offset stored duplicate rest placed after taken dropped =>
    have went := @Dated.place l idle b piece limit dated _ _ rest
    rw [taken] at went
    exact went few
  | case2 b piece offset stored duplicate rest placed after taken kept duplicate' stored' progress =>
    rename_i ih
    have went := @Dated.place l idle b piece limit dated _ _ rest
    have fit := @Fit.place l idle b piece dated.toFit _ _ rest
    rw [taken] at went fit
    have fewer := @Fit.length_le_placeAll l idle _ (piece.advance placed.consumed) fit data
      (offset + placed.consumed) stored' duplicate'
    exact ih (went (fewer.trans few)) few
  | case3 b piece offset stored duplicate rest placed after taken kept duplicate' stored' =>
    rename_i stuck
    have went := @Dated.place l idle b piece limit dated _ _ rest
    rw [taken] at went
    exact went few
  | case4 b piece offset stored duplicate done => exact dated

end Bench

namespace Desk

variable {l : Layout} {config : StoreConfig} {segment : Segment} {now : Micros} {d : Desk} {limit : Nat}

/-- A desk in order, with open blocks from before, where the numbers last until there are `limit`
blocks. -/
structure Dated (l : Layout) (limit : Nat) (d : Desk) : Prop extends d.Fit l where
  numbered : d.cat.Numbered
  last : d.cat.nextGeneration.toNat + limit < UInt64.size + d.cat.items.length
  older : WriterFlows.Opens (fun _ _ ref => ref.generation < d.cat.nextGeneration) d.writers

variable {writer : WriterFlow} {cat : Catalog}

theorem Dated.announced (dated : d.Dated l limit)
    (found : d.announce? l config segment now = some (writer, cat)) (side : Side) (ref : Ref)
    (current : (writer.sides.get side).openBlock = some ref) : ref.generation < d.cat.nextGeneration := by
  cases announces_of found with
  | known known => exact dated.older _ _ side ref (Option.filter_eq_some_iff.mp known).1 current
  | anew _ _ =>
    rw [WriterFlow.fresh, PerSide.get_both] at current
    cases current

theorem Dated.bench (dated : d.Dated l limit)
    (found : d.announce? l config segment now = some (writer, cat)) (few : cat.items.length ≤ limit) :
    (⟨(writer.sides.get segment.side).openBlock, cat⟩ : Bench).Dated l
      (firstPiece segment now writer).lane limit := by
  have fit := dated.toFit.bench found
  have last := dated.last
  cases announces_of found with
  | known _ => exact ⟨fit, dated.numbered, last, dated.announced found segment.side⟩
  | @anew slot _ _ =>
    have filed := Catalog.length_file d.cat.items (markerFor d.cat slot segment now)
    have advanced : (d.cat.nextGeneration + 1).toNat = d.cat.nextGeneration.toNat + 1 := by
      rw [Catalog.shelve, filed] at few
      rw [UInt64.toNat_add, UInt64.toNat_one]
      exact Nat.mod_eq_of_lt (by rw [UInt64.size] at last; omega)
    refine ⟨fit, dated.numbered.shelve rfl (by rw [UInt64.size, ← advanced]; exact UInt64.toNat_lt _), ?_,
      fun ref current => ?_⟩
    · rw [Catalog.shelve, filed, advanced]
      omega
    · rw [WriterFlow.fresh, PerSide.get_both] at current
      cases current

theorem Fit.length_le_put (fit : d.Fit l)
    (found : d.announce? l config segment now = some (writer, cat)) :
    d.cat.items.length ≤ cat.items.length ∧
      cat.items.length ≤ (d.put l config segment now).2.cat.items.length := by
  obtain ⟨count, _, edits⟩ := fit.put_edits found
  refine ⟨?_, edits.length ▸ Nat.le_add_right _ _⟩
  cases announces_of found with
  | known _ => exact Nat.le_refl _
  | anew _ _ => exact (Catalog.length_file ..).symm ▸ Nat.le_succ _

theorem Fit.length_le (fit : d.Fit l) :
    d.cat.items.length ≤ (d.put l config segment now).2.cat.items.length := by
  cases found : d.announce? l config segment now with
  | none =>
    rw [put_of_unannounced found]
  | some pair =>
    obtain ⟨more, later⟩ := fit.length_le_put found
    exact more.trans later

theorem Dated.put (dated : d.Dated l limit)
    (few : (d.put l config segment now).2.cat.items.length ≤ limit) :
    (d.put l config segment now).2.Dated l limit := by
  have last := dated.last
  obtain ⟨_, gains⟩ := @Fit.put_spec l config segment now d dated.toFit
  cases found : d.announce? l config segment now with
  | none =>
    rw [put_of_unannounced found]
    exact dated
  | some pair =>
    obtain ⟨writer, cat⟩ := pair
    obtain ⟨more, later⟩ := dated.toFit.length_le_put found
    have announced := later.trans few
    obtain ⟨numbered, next⟩ := @Fit.put_draws l config segment now d dated.toFit dated.numbered (by omega)
    have earlier {ref : Ref} (old : ref.generation < d.cat.nextGeneration) :
        ref.generation < (d.put l config segment now).2.cat.nextGeneration := by
      rw [UInt64.lt_iff_toNat_lt] at old ⊢
      omega
    refine ⟨gains.fit, numbered, by omega, ?_⟩
    have known := WriterFlows.Opens.mono dated.older fun _ _ _ => earlier
    rw [put_of_announced found] at few earlier known ⊢
    split
    · next empty =>
      rw [if_pos empty] at earlier known
      exact known.insert fun side ref current => earlier (dated.announced found side ref current)
    · next some =>
      rw [if_neg some] at few earlier known
      refine known.insert fun side ref current => ?_
      by_cases here : side = segment.side
      · subst here
        rw [noted, PerSide.get_set_self] at current
        exact ((dated.bench found announced).placeAll few).older ref current
      · rw [noted, PerSide.get_set_of_ne _ _ here] at current
        exact earlier (dated.announced found side ref current)

end Desk

end Writing

namespace Commons

variable {l : Layout} {c : Commons} {cat : Catalog}

/-- A region that carries a catalog in order, and handles that know open blocks from before. -/
structure Dated (l : Layout) (c : Commons) (cat : Catalog) : Prop extends Carrying l c cat where
  numbered : cat.Numbered
  older : ∀ a ∈ c.handles,
    WriterFlows.Opens (fun _ _ ref => ref.generation < cat.nextGeneration) a.writers

theorem Dated.desk (dated : Dated l c cat) {a : Attachment} (attached : a ∈ c.handles) {limit : Nat}
    (last : cat.nextGeneration.toNat + limit < UInt64.size + cat.items.length) :
    Writing.Desk.Dated l limit ⟨a.writers, cat⟩ :=
  ⟨⟨dated.carries.ordered, dated.sound, (dated.tidy a attached).aimed⟩, dated.numbered, last,
    dated.older a attached⟩

theorem Dated.operate (dated : Dated l c cat) {index : Nat} {a : Attachment}
    (attached : c.handles[index]? = some a) (operation : Operation)
    (last : cat.nextGeneration.toNat +
      ((operation.effect a cat).2.items.length - cat.items.length) < UInt64.size) :
    Dated l (c.step (.operate index operation)) (operation.effect a cat).2 ∧
      (operation.effect a cat).2.nextGeneration.toNat = cat.nextGeneration.toNat +
        ((operation.effect a cat).2.items.length - cat.items.length) := by
  have member := List.mem_of_getElem? attached
  have tidy := dated.tidy a member
  obtain ⟨_, stepped, carrying⟩ := dated.toCarrying.operate attached operation
  obtain ⟨numbered, next⟩ := tidy.effect_draws dated.carries.ordered dated.sound dated.numbered
    operation last
  have older {writers : WriterFlows}
      (opens : writers.Opens fun _ _ ref => ref.generation < cat.nextGeneration) :
      writers.Opens fun _ _ ref => ref.generation < (operation.effect a cat).2.nextGeneration :=
    opens.mono fun _ _ ref earlier => by
      rw [UInt64.lt_iff_toNat_lt] at earlier ⊢
      omega
  refine ⟨⟨carrying, numbered, fun other present => ?_⟩, next⟩
  rw [stepped] at present
  rcases List.mem_or_eq_of_mem_set present with known | rfl
  · exact older (dated.older other known)
  · have own := older (dated.older a member)
    cases operation with
    | put segment now =>
      obtain rfl := tidy.layout
      have desk : Writing.Desk.Dated a.layout
          (Operation.effect a cat (.put segment now)).2.items.length ⟨a.writers, cat⟩ :=
        dated.desk member (by omega)
      exact (desk.put (Nat.le_refl _)).older
    | removeFlow flow => exact own.erase flow
    | sweep now => exact own.keepFresh now _
    | erase | nextMarker | firstFrom | next | occupancy => exact own

theorem Dated.attach (dated : Dated l c cat) (handle : RegionHandle) (config : StoreConfig) :
    Dated l (c.step (.attach handle config)) cat := by
  refine ⟨(dated.toCarrying.attach handle config).2, dated.numbered, fun a present => ?_⟩
  rcases (@Attachment.attach_ok _ _ handle _ _ config) dated.carries with
    ⟨fault, failed⟩ | ⟨config', found, _, _⟩
  · simp only [Commons.step, failed] at present
    exact dated.older a present
  · simp only [Commons.step, found] at present
    rcases List.mem_append.mp present with old | new
    · exact dated.older a old
    · obtain rfl := List.mem_singleton.mp new
      exact .empty

theorem Dated.step (dated : Dated l c cat) (move : Move)
    (last : cat.nextGeneration.toNat + c.added move < UInt64.size) :
    ∃ cat', Dated l (c.step move) cat' ∧
      cat'.nextGeneration.toNat ≤ cat.nextGeneration.toNat + c.added move := by
  cases move with
  | attach handle config => exact ⟨cat, dated.attach handle config, Nat.le_add_right _ _⟩
  | operate index operation =>
    cases attached : c.handles[index]? with
    | none =>
      have idle : c.step (.operate index operation) = c := by simp only [Commons.step, attached]
      rw [idle]
      exact ⟨cat, dated, Nat.le_add_right _ _⟩
    | some a =>
      obtain ⟨_, _, carrying'⟩ := dated.toCarrying.operate attached operation
      rw [added, ← carrying'.count, ← dated.count] at last ⊢
      obtain ⟨dated', next⟩ := dated.operate attached operation last
      exact ⟨_, dated', next.le⟩

theorem Dated.run (dated : Dated l c cat) (moves : List Move)
    (last : cat.nextGeneration.toNat + c.addedBy moves < UInt64.size) :
    ∃ cat', Dated l (c.run moves) cat' ∧
      cat'.nextGeneration.toNat ≤ cat.nextGeneration.toNat + c.addedBy moves := by
  induction moves generalizing c cat with
  | nil => exact ⟨cat, dated, Nat.le_refl _⟩
  | cons move rest ih =>
    rw [addedBy] at last ⊢
    obtain ⟨cat₁, dated₁, next⟩ := dated.step move (by omega)
    obtain ⟨cat₂, dated₂, later⟩ := ih dated₁ (by omega)
    exact ⟨cat₂, dated₂, by omega⟩

theorem entryCount_run_le (c : Commons) (moves : List Move) :
    (Catalog.countersIn (c.run moves).bytes).entryCount.toNat ≤
      (Catalog.countersIn c.bytes).entryCount.toNat + c.addedBy moves := by
  induction moves generalizing c with
  | nil => exact Nat.le_add_right _ _
  | cons move rest ih =>
    have later := ih (c.step move)
    have begun : c.run (move :: rest) = (c.step move).run rest := rfl
    rw [begun, addedBy, added]
    omega

theorem addedBy_append (c : Commons) (moves more : List Move) :
    c.addedBy (moves ++ more) = c.addedBy moves + (c.run moves).addedBy more := by
  induction moves generalizing c with
  | nil => exact (Nat.zero_add _).symm
  | cons move rest ih =>
    rw [List.cons_append, addedBy, addedBy, ih, ← Nat.add_assoc]
    rfl

theorem Fresh.dated (fresh : c.Fresh) : ∃ l, Dated l c .empty := by
  obtain ⟨there, made⟩ := fresh
  have carrying := carrying_of_format there made
  obtain ⟨_, _, same, _, _⟩ := Attachment.format_ok there made
  refine ⟨_, carrying, .empty, fun a attached => ?_⟩
  obtain rfl := List.mem_singleton.mp attached
  rw [same]
  exact .empty

end Commons

end Reassembly
