import Mathlib.Data.List.Forall2
import Reassembly.Proofs.Dates
import Reassembly.Proofs.Renumbering

/-!
Placing a segment in two stores that look alike on its side. All that a write asks of a store lies on the
lane of the side: the blocks found by references and by numbers, and whether there is room. So if two
stores have the same blocks there, but for their slots and for the numbers of their insertions, it does the
same in both, and they stay alike.
-/

namespace Reassembly

open Store

section Lists

variable {α β γ : Type} {R : α → β → Prop} {xs : List α} {ys : List β}

theorem forall₂_find? {p : α → Bool} {q : β → Bool} (twins : List.Forall₂ R xs ys)
    (same : ∀ x y, R x y → p x = q y) : Option.Rel R (xs.find? p) (ys.find? q) := by
  induction twins with
  | nil => exact .none
  | @cons x y xs ys twin _ ih =>
    rw [List.find?_cons, List.find?_cons, ← same x y twin]
    cases p x with
    | true => exact .some twin
    | false => exact ih

theorem forall₂_findSome? {f : α → Option γ} {g : β → Option γ} (twins : List.Forall₂ R xs ys)
    (same : ∀ x y, R x y → f x = g y) : xs.findSome? f = ys.findSome? g := by
  induction twins with
  | nil => rfl
  | @cons x y xs ys twin _ ih =>
    rw [List.findSome?_cons, List.findSome?_cons, ← same x y twin, ih]

theorem forall₂_filter {p : α → Bool} {q : β → Bool} (twins : List.Forall₂ R xs ys)
    (same : ∀ x y, R x y → p x = q y) : List.Forall₂ R (xs.filter p) (ys.filter q) :=
  List.rel_filter (fun x y twin => iff_of_eq (congrArg (· = true) (same x y twin))) twins

theorem forall₂_of_mem {S : α → β → Prop} (twins : List.Forall₂ R xs ys)
    (more : ∀ x ∈ xs, ∀ y ∈ ys, R x y → S x y) : List.Forall₂ S xs ys := by
  obtain ⟨length, related⟩ := List.forall₂_iff_zip.mp twins
  refine List.forall₂_iff_zip.mpr ⟨length, fun {x y} both => ?_⟩
  obtain ⟨left, right⟩ := List.of_mem_zip both
  exact more x left y right (related both)

theorem rel_cases {o : Option α} {o' : Option β} (rel : Option.Rel R o o') :
    (o = none ∧ o' = none) ∨ ∃ x y, o = some x ∧ o' = some y ∧ R x y := by
  cases rel with
  | some twin => exact .inr ⟨_, _, rfl, rfl, twin⟩
  | none => exact .inl ⟨rfl, rfl⟩

end Lists

namespace Store

namespace Catalog

variable {l : Layout} {rename : Ref → Ref} {x y : Item} {cat cat' : Catalog} {lane limit up down : Nat}

theorem find?_inLane {ref : Ref} (inLane : ref.key.lane = lane) :
    (cat.inLane lane).find? (fun item => item.ref = ref) = cat.find? ref := by
  rw [Catalog.inLane, List.find?_filter, Catalog.find?]
  congr 1
  funext item
  rw [decide_eq_decide, decide_eq_true_eq, decide_eq_true_eq]
  exact and_iff_right_of_imp fun same => (congrArg (fun ref : Ref => ref.key.lane) same).trans inLane

theorem inLane_map {change : Item → Item} (entry : ∀ item, (change item).entry = item.entry) (lane : Nat) :
    (cat.items.map change).filter (fun item => item.lane = lane) = (cat.inLane lane).map change := by
  rw [List.filter_map, Catalog.inLane]
  congr 2
  funext item
  exact congrArg (fun entry : Entry => decide (entry.ref.key.lane = lane)) (entry item)

theorem entry_recast (slot : UInt32) (header : Block.Header) (body : ByteArray) (item : Item) :
    (if item.slot = slot then (⟨item.entry, header, body⟩ : Item) else item).entry = item.entry := by
  split
  · rfl
  · rfl

theorem Ordered.inLane_recast (ordered : cat.Ordered l) (separate : cat.Distinct) {item : Item}
    (member : item ∈ cat.items) (header : Block.Header) (body : ByteArray) (lane : Nat) :
    (cat.recast item.slot header body).inLane lane = (cat.inLane lane).map fun other =>
      if other.ref = item.ref then ⟨other.entry, header, body⟩ else other := by
  refine (inLane_map (entry_recast item.slot header body) lane).trans ?_
  refine List.map_congr_left fun other listed => ?_
  have known := (List.mem_filter.mp listed).1
  by_cases same : other.slot = item.slot
  · obtain rfl := ordered.eq_of_slot known member same
    rw [if_pos rfl, if_pos rfl]
  · rw [if_neg same, if_neg fun ref => same (separate.eq_of_ref known member ref ▸ rfl)]

theorem Ordered.inLane_shelve (ordered : cat.Ordered l) (numbered : cat.Numbered) {item : Item}
    (number : item.ref.generation = cat.nextGeneration) :
    (cat.shelve item).inLane item.lane =
      ((cat.inLane item.lane).filter fun other => other.start.word.toNat ≤ item.start.word.toNat) ++
        item :: (cat.inLane item.lane).filter fun other => item.start.word.toNat < other.start.word.toNat := by
  have through : ∀ other ∈ cat.items, other.lane = item.lane →
      (other.ref.upTo item.ref = true ↔ other.start.word.toNat ≤ item.start.word.toNat) := by
    intro other member inLane
    have earlier : other.ref.generation < item.ref.generation :=
      number ▸ numbered.below other.entry (List.mem_map_of_mem member)
    rw [UInt64.lt_iff_toNat_lt] at earlier
    have bound := item.ref.generation.toNat_lt
    rw [Ref.upTo_iff, other.rank_eq, item.rank_eq, inLane]
    omega
  rw [Catalog.shelve, Catalog.inLane, Catalog.inLane]
  dsimp only
  rw [ordered.sorted.file_eq, List.filter_append, List.filter_cons, if_pos (decide_eq_true (by rfl)),
    List.filter_filter, List.filter_filter, List.filter_filter, List.filter_filter]
  congr 1
  · refine List.filter_congr fun other member => ?_
    rw [Bool.eq_iff_iff]
    have same := through other member
    simp only [Bool.and_eq_true, decide_eq_true_eq]
    tauto
  · congr 1
    refine List.filter_congr fun other member => ?_
    rw [Bool.eq_iff_iff]
    have same := through other member
    simp only [Bool.and_eq_true, Bool.not_eq_true', decide_eq_true_eq, ← Nat.not_le, ← Bool.not_eq_true]
    tauto

/-- Two catalogs that are alike on a lane while the first has no more blocks than `limit`. Blocks have been
and will be stored in step, under numbers that correspond. -/
structure Twins (rename : Ref → Ref) (lane limit up down : Nat) (cat cat' : Catalog) : Prop where
  blocks : List.Forall₂ (Item.Twin rename) (cat.inLane lane) (cat'.inLane lane)
  length : cat'.items.length + down = cat.items.length + up
  fresh : ∀ key step, cat.items.length + step < limit →
    rename ⟨key, cat.nextGeneration + .ofNat step⟩ = ⟨key, cat'.nextGeneration + .ofNat step⟩

theorem Ordered.exists_nextSlot (ordered : cat.Ordered l) (less : cat.items.length < l.maxBlocks.toNat) :
    ∃ slot, cat.nextSlot? l = some slot :=
  Option.ne_none_iff_exists'.mp fun none => Nat.ne_of_lt less (ordered.nextSlot?_eq_none_iff.mp none)

theorem Twins.fresh_next (twins : Twins rename lane limit up down cat cat') (key : FlowKey)
    (vacant : cat.items.length < limit) :
    rename ⟨key, cat.nextGeneration⟩ = ⟨key, cat'.nextGeneration⟩ := by
  have fresh := twins.fresh key 0 vacant
  have zero : UInt64.ofNat 0 = 0 := rfl
  rw [zero, UInt64.add_zero, UInt64.add_zero] at fresh
  exact fresh

namespace Twins

variable (twins : Twins rename lane limit up down cat cat') (renames : Renames rename)
include twins renames

theorem find? {ref : Ref} (inLane : ref.key.lane = lane) :
    Option.Rel (Item.Twin rename) (cat.find? ref) (cat'.find? (rename ref)) := by
  rw [← find?_inLane inLane, ← find?_inLane ((congrArg FlowKey.lane (renames.key ref)).trans inLane)]
  refine forall₂_find? twins.blocks fun x y twin => ?_
  rw [decide_eq_decide, twin.ref]
  exact renames.injective.eq_iff.symm

theorem ahead {key : FlowKey} (inLane : key.lane = lane) :
    List.Forall₂ (Item.Twin rename) (cat.ahead key) (cat'.ahead key) := by
  subst inLane
  exact forall₂_filter twins.blocks fun x y twin => by rw [twin.start renames]

theorem upTo {key : FlowKey} (inLane : key.lane = lane) :
    List.Forall₂ (Item.Twin rename) (cat.upTo key) (cat'.upTo key) := by
  subst inLane
  exact forall₂_filter twins.blocks fun x y twin => by rw [twin.start renames]

theorem successor? {key : FlowKey} (inLane : key.lane = lane) :
    cat'.successor? key = cat.successor? key := by
  have around := List.rel_append (twins.ahead renames inLane) (twins.upTo renames inLane)
  exact (forall₂_findSome? around fun x y twin => by rw [twin.start renames, twin.isPayload]).symm

theorem predecessor? {key : FlowKey} (inLane : key.lane = lane) :
    Option.Rel (Item.Twin rename) (cat.predecessor? key) (cat'.predecessor? key) :=
  forall₂_find? (List.rel_append (List.rel_reverse (twins.upTo renames inLane))
    (List.rel_reverse (twins.ahead renames inLane))) fun _ _ twin => twin.isPayload.symm

section Changing

variable (ordered : cat.Ordered l) (separate : cat.Distinct) (ordered' : cat'.Ordered l)
  (separate' : cat'.Distinct) (member : x ∈ cat.items) (member' : y ∈ cat'.items) (twin : x.Twin rename y)
include ordered separate ordered' separate' member member' twin

theorem recast (header : Block.Header) (body : ByteArray) :
    Twins rename lane limit up down (cat.recast x.slot header body) (cat'.recast y.slot header body) := by
  refine ⟨?_, ?_, ?_⟩
  · rw [ordered.inLane_recast separate member, ordered'.inLane_recast separate' member']
    refine List.forall₂_map_left_iff.mpr (List.forall₂_map_right_iff.mpr (twins.blocks.imp ?_))
    intro other other' alike
    have same : other'.ref = y.ref ↔ other.ref = x.ref := by
      rw [alike.ref, twin.ref]
      exact renames.injective.eq_iff
    by_cases here : other.ref = x.ref
    · rw [if_pos here, if_pos (same.mpr here)]
      exact ⟨alike.ref, rfl, rfl⟩
    · rw [if_neg here, if_neg (mt same.mp here)]
      exact alike
  · rw [length_recast, length_recast]
    exact twins.length
  · rw [length_recast]
    exact twins.fresh

theorem complete : Twins rename lane limit up down (cat.complete x) (cat'.complete y) := by
  rw [Catalog.complete, Catalog.complete, twin.header, twin.body]
  exact twins.recast renames ordered separate ordered' separate' member member' twin _ _

theorem append (start : Seq) (chunk : ByteArray) (now : Micros) :
    Twins rename lane limit up down (cat.append x start chunk now) (cat'.append y start chunk now) := by
  have more := twin.grown start chunk now
  rw [Catalog.append, Catalog.append, more.header, more.body]
  exact twins.recast renames ordered separate ordered' separate' member member' twin _ _

end Changing

theorem shelve (ordered : cat.Ordered l) (numbered : cat.Numbered) (ordered' : cat'.Ordered l)
    (numbered' : cat'.Numbered) (twin : x.Twin rename y) (number : x.ref.generation = cat.nextGeneration)
    (number' : y.ref.generation = cat'.nextGeneration) (inLane : x.lane = lane) :
    Twins rename lane limit up down (cat.shelve x) (cat'.shelve y) := by
  subst inLane
  have start := twin.start renames
  refine ⟨?_, ?_, fun key step small => ?_⟩
  · have second := ordered'.inLane_shelve numbered' number'
    rw [twin.lane renames] at second
    rw [ordered.inLane_shelve numbered number, second]
    refine List.rel_append (forall₂_filter twins.blocks fun a b alike => ?_)
      (.cons twin (forall₂_filter twins.blocks fun a b alike => ?_))
    · rw [alike.start renames, start]
    · rw [alike.start renames, start]
  · have length := twins.length
    rw [Catalog.shelve, Catalog.shelve, length_file, length_file]
    omega
  · have later (next : UInt64) : next + 1 + .ofNat step = next + .ofNat (step + 1) := by
      rw [UInt64.ofNat_add, UInt64.add_assoc, UInt64.add_comm (.ofNat step)]
      rfl
    rw [Catalog.shelve, length_file] at small
    exact (later cat.nextGeneration).symm ▸ (later cat'.nextGeneration).symm ▸
      twins.fresh key (step + 1) (by omega)

end Twins

end Catalog

end Store

namespace Writing

namespace Bench

variable {l : Layout} {idle : Micros} {b b' : Bench} {piece : Piece} {chunk : ByteArray}
  {rename : Ref → Ref} {lane limit limit' up down : Nat}

/-- Two benches that are alike on their lane. -/
structure Twins (rename : Ref → Ref) (lane limit up down : Nat) (b b' : Bench) : Prop where
  current : b'.openBlock = b.openBlock.map rename
  cats : Catalog.Twins rename lane limit up down b.cat b'.cat

def PlacedAlike {α : Type} (rename : Ref → Ref) (lane limit up down : Nat) (p q : α × Bench) : Prop :=
  p.2.cat.items.length ≤ limit → q.1 = p.1 ∧ Twins rename lane limit up down p.2 q.2

namespace Twins

variable (twins : Twins rename lane limit up down b b') (renames : Renames rename)
include twins renames

theorem pieceLength (rest : Nat) (inLane : piece.lane = lane) :
    b'.pieceLength l piece rest = b.pieceLength l piece rest := by
  rw [Bench.pieceLength, Bench.pieceLength,
    twins.cats.successor? renames (piece.lane_key.trans inLane)]

section Aimed

variable (aimed : ∀ ref, b.openBlock = some ref → ref.key.lane = lane)
include aimed

theorem located : Option.Rel (Item.Twin rename) b.located b'.located := by
  rw [Bench.located, Bench.located, twins.current]
  cases current : b.openBlock with
  | none => exact .none
  | some ref => exact twins.cats.find? renames (aimed ref current)

theorem writable? (now : Micros) :
    Option.Rel (Item.Twin rename) (b.writable? idle now) (b'.writable? idle now) := by
  rw [Bench.writable?, Bench.writable?]
  rcases rel_cases (twins.located renames aimed) with ⟨gone, gone'⟩ | ⟨x, y, found, found', twin⟩
  · rw [gone, gone']
    exact .none
  · rw [found, found', Option.filter_some, Option.filter_some, twin.header]
    split
    · exact .some twin
    · exact .none

theorem overtakes (seq : Seq) : b'.overtakes seq = b.overtakes seq := by
  rw [Bench.overtakes, Bench.overtakes]
  rcases rel_cases (twins.located renames aimed) with ⟨gone, gone'⟩ | ⟨x, y, found, found', twin⟩
  · rw [gone, gone']
  · rw [found, found']
    dsimp only
    rw [twin.header]

end Aimed

theorem reopen (fit : b.Fit l lane) (fit' : b'.Fit l lane) (separate : b.cat.Distinct)
    (separate' : b'.cat.Distinct) (now : Micros) :
    Twins rename lane limit up down (b.reopen idle now) (b'.reopen idle now) := by
  rw [Bench.reopen, Bench.reopen]
  rcases rel_cases (twins.located renames fit.aimed) with ⟨gone, gone'⟩ | ⟨x, y, found, found', twin⟩
  · rw [gone, gone']
    exact ⟨rfl, twins.cats⟩
  · rw [found, found']
    dsimp only
    rw [twin.header]
    split
    · exact ⟨rfl, twins.cats⟩
    · split
      · exact ⟨rfl, twins.cats.complete renames fit.ordered separate fit'.ordered separate'
          (mem_of_located found) (mem_of_located found') twin⟩
      · exact twins

end Twins

theorem opened_twin {cat cat' : Catalog}
    (fresh : rename ⟨piece.key, cat.nextGeneration⟩ = ⟨piece.key, cat'.nextGeneration⟩)
    (slot slot' : UInt32) (chunk : ByteArray) :
    (opened cat slot piece chunk).Twin rename (opened cat' slot' piece chunk) := ⟨fresh.symm, rfl, rfl⟩

section Room

variable (renames : Renames rename) (room : limit < l.maxBlocks.toNat)
  (room' : limit + up < l.maxBlocks.toNat + down)
include renames room room'

theorem Twins.storeNew (twins : Twins rename piece.lane limit up down b b') (ordered : b.cat.Ordered l)
    (ordered' : b'.cat.Ordered l) (numbered : b.cat.Numbered) (numbered' : b'.cat.Numbered)
    (aimed : ∀ ref, b.openBlock = some ref → ref.key.lane = piece.lane) :
    PlacedAlike rename piece.lane limit up down (b.storeNew l piece chunk) (b'.storeNew l piece chunk) := by
  intro few
  have length := twins.cats.length
  have vacant : b.cat.items.length < limit := by
    rw [Bench.storeNew] at few
    cases next : b.cat.nextSlot? l with
    | none =>
      rw [next] at few
      dsimp only at few
      have full := ordered.nextSlot?_eq_none_iff.mp next
      omega
    | some slot =>
      simp only [next] at few
      have filed (item : Item) : (b.cat.shelve item).items.length = b.cat.items.length + 1 :=
        Catalog.length_file ..
      split at few
      · rw [filed] at few
        omega
      · rw [filed] at few
        omega
  obtain ⟨slot, next⟩ := ordered.exists_nextSlot (by omega)
  obtain ⟨slot', next'⟩ := ordered'.exists_nextSlot (by omega)
  have fresh := twins.cats.fresh_next piece.key vacant
  have twin := @opened_twin piece rename _ _ fresh slot slot' chunk
  rw [Bench.storeNew, Bench.storeNew, next, next']
  dsimp only
  have filed : Twins rename piece.lane limit up down
      ⟨b.openBlock, b.cat.shelve (opened b.cat slot piece chunk)⟩
      ⟨b'.openBlock, b'.cat.shelve (opened b'.cat slot' piece chunk)⟩ :=
    ⟨twins.current, twins.cats.shelve renames ordered numbered ordered' numbered' twin rfl rfl
      (lane_opened _ _ _ _)⟩
  refine ⟨rfl, ?_⟩
  rw [filed.overtakes renames aimed]
  split
  · exact ⟨congrArg some twin.ref, filed.cats⟩
  · exact filed

section Placing

variable (twins : Twins rename piece.lane limit up down b b') (dated : b.Dated l piece.lane limit)
  (dated' : b'.Dated l piece.lane limit')
include twins dated dated'

omit room room' in
theorem Twins.append {x y : Item} (twin : x.Twin rename y) (member : x ∈ b.cat.items)
    (member' : y ∈ b'.cat.items) : Twins rename piece.lane limit up down
      ⟨b.openBlock, b.cat.append x piece.seq chunk piece.now⟩
      ⟨b'.openBlock, b'.cat.append y piece.seq chunk piece.now⟩ :=
  ⟨twins.current, twins.cats.append renames dated.ordered dated.numbered.refs dated'.ordered
    dated'.numbered.refs member member' twin _ _ _⟩

theorem Twins.continueOpen? : Option.Rel (PlacedAlike rename piece.lane limit up down)
    (b.continueOpen? l piece chunk (b.writable? idle piece.now))
    (b'.continueOpen? l piece chunk (b'.writable? idle piece.now)) := by
  rcases rel_cases (@Twins.writable? idle _ _ _ _ _ _ _ twins renames dated.aimed piece.now) with
    ⟨gone, gone'⟩ | ⟨x, y, found, found', twin⟩
  · rw [gone, gone']
    exact .none
  · have member := mem_of_writable? found
    have member' := mem_of_writable? found'
    rw [found, found', Bench.continueOpen?, Bench.continueOpen?, twin.header]
    split
    · exact .none
    · split
      · exact .some fun _ => ⟨rfl, twins.append renames dated dated' twin member member'⟩
      · have closed : Twins rename piece.lane limit up down
            ⟨none, b.cat.complete x⟩ ⟨none, b'.cat.complete y⟩ :=
          ⟨rfl, twins.cats.complete renames dated.ordered dated.numbered.refs dated'.ordered
            dated'.numbered.refs member member' twin⟩
        have fit := dated.toFit.complete member (writable?_spec found).2.1
        have fit' := dated'.toFit.complete member' (writable?_spec found').2.1
        refine .some (closed.storeNew renames room room' fit.ordered fit'.ordered
          (dated.numbered.recast _ _ _) (dated'.numbered.recast _ _ _) ?_)
        intro ref current
        cases current

omit room room' in
theorem Twins.meetPredecessor? : Option.Rel (PlacedAlike rename piece.lane limit up down)
    (b.meetPredecessor? l idle piece chunk) (b'.meetPredecessor? l idle piece chunk) := by
  rw [Bench.meetPredecessor?, Bench.meetPredecessor?]
  rcases rel_cases (twins.cats.predecessor? renames piece.lane_key) with
    ⟨gone, gone'⟩ | ⟨x, y, found, found', twin⟩
  · rw [gone, gone']
    exact .none
  · have open_iff : b'.openBlock = some y.ref ↔ b.openBlock = some x.ref := by
      rw [twins.current, twin.ref, ← Option.map_some]
      exact (Option.map_injective renames.injective).eq_iff
    have member := (dated.ordered.sorted.predecessor?_spec found).1
    have member' := (dated'.ordered.sorted.predecessor?_spec found').1
    have takes : Bench.takes l idle piece chunk y = Bench.takes l idle piece chunk x := by
      rw [Bench.takes, Bench.takes, twin.header]
    rw [found, found']
    dsimp only
    rw [twin.header, takes]
    split
    · exact .some fun _ => ⟨rfl, twins⟩
    · split
      · refine .some fun _ => ⟨?_, twins.append renames dated dated' twin member member'⟩
        dsimp only
        rw [if_congr open_iff rfl rfl]
      · exact .none

end Placing

theorem Twins.place (twins : Twins rename piece.lane limit up down b b')
    (dated : b.Dated l piece.lane limit) (dated' : b'.Dated l piece.lane limit') (data : ByteArray)
    (offset : Nat) : PlacedAlike rename piece.lane limit up down (b.place l idle piece data offset)
      (b'.place l idle piece data offset) := by
  have looked := @Twins.reopen l idle b b' _ _ _ _ _ twins renames dated.toFit dated'.toFit
    dated.numbered.refs dated'.numbered.refs piece.now
  rw [Bench.place, Bench.place, ← writable?_reopen, ← @writable?_reopen idle b']
  replace dated := @Dated.reopen l idle b _ _ dated piece.now
  replace dated' := @Dated.reopen l idle b' _ _ dated' piece.now
  generalize b.reopen idle piece.now = b at looked dated
  generalize b'.reopen idle piece.now = b' at looked dated'
  have same : b'.part l piece data offset = b.part l piece data offset := by
    rw [Bench.part, Bench.part, looked.pieceLength renames _ rfl]
  rw [same]
  generalize b.part l piece data offset = chunk
  rcases rel_cases (looked.continueOpen? renames room room' dated dated') with
    ⟨apart, apart'⟩ | ⟨p, q, went, went', alike⟩
  · rw [apart, apart', Option.none_or, Option.none_or]
    rcases rel_cases (looked.meetPredecessor? renames dated dated') with
      ⟨alone, alone'⟩ | ⟨p, q, met, met', alike⟩
    · rw [alone, alone', Option.getD_none, Option.getD_none]
      exact looked.storeNew renames room room' dated.ordered dated'.ordered dated.numbered dated'.numbered
        dated.aimed
    · rw [met, met', Option.getD_some, Option.getD_some]
      exact alike
  · rw [went, went', Option.some_or, Option.some_or, Option.getD_some, Option.getD_some]
    exact alike

theorem Twins.placed (twins : Twins rename piece.lane limit up down b b')
    (dated : b.Dated l piece.lane limit) (dated' : b'.Dated l piece.lane limit')
    (matching : limit' + down = limit + up) {data : ByteArray} {offset : Nat} (rest : offset < data.size)
    {placement : Placement} {after : Bench} (taken : b.place l idle piece data offset = (placement, after))
    (few : after.cat.items.length ≤ limit) :
    ∃ after', b'.place l idle piece data offset = (placement, after') ∧
      Twins rename piece.lane limit up down after after' ∧ after.Dated l piece.lane limit ∧
      after'.Dated l piece.lane limit' := by
  have alike : PlacedAlike rename piece.lane limit up down (b.place l idle piece data offset)
      (b'.place l idle piece data offset) := twins.place renames room room' dated dated' data offset
  have later := @Dated.place l idle b piece limit dated _ _ rest
  have later' := @Dated.place l idle b' piece limit' dated' _ _ rest
  rw [taken] at alike later
  obtain ⟨same, going⟩ := alike few
  have length := going.cats.length
  dsimp only at length few
  have taken' : b'.place l idle piece data offset = (placement, (b'.place l idle piece data offset).2) :=
    Prod.ext same rfl
  exact ⟨_, taken', going, later few, later' (by omega)⟩

theorem Twins.placeAll (twins : Twins rename piece.lane limit up down b b')
    (dated : b.Dated l piece.lane limit) (dated' : b'.Dated l piece.lane limit')
    (matching : limit' + down = limit + up) (data : ByteArray) (offset : Nat) (stored : Option Outcome)
    (duplicate : Bool) : PlacedAlike rename piece.lane limit up down
      (b.placeAll l idle piece data offset stored duplicate)
      (b'.placeAll l idle piece data offset stored duplicate) := by
  fun_induction Bench.placeAll l idle b piece data offset stored duplicate generalizing b' with
  | case1 b piece offset stored duplicate rest placed after taken dropped =>
    intro few
    obtain ⟨after', taken', finished, _, _⟩ :=
      twins.placed renames room room' dated dated' matching rest taken few
    rw [Bench.placeAll, dif_pos rest, taken']
    dsimp only
    rw [if_pos dropped]
    exact ⟨rfl, finished⟩
  | case2 b piece offset stored duplicate rest placed after taken kept duplicate' stored' progress =>
    rename_i ih
    intro few
    -- the pieces that follow take no block away, so there are few enough after this one
    have fit := @Fit.place l idle b piece dated.toFit _ _ rest
    rw [taken] at fit
    have fewer := (@Fit.length_le_placeAll l idle _ (piece.advance placed.consumed) fit data
      (offset + placed.consumed) stored' duplicate').trans few
    obtain ⟨after', taken', going, later, later'⟩ :=
      twins.placed renames room room' dated dated' matching rest taken fewer
    rw [Bench.placeAll, dif_pos rest, taken']
    simp only [if_neg kept, dif_pos progress]
    exact ih going later later' few
  | case3 b piece offset stored duplicate rest placed after taken kept duplicate' stored' =>
    rename_i stuck
    intro few
    obtain ⟨after', taken', finished, _, _⟩ :=
      twins.placed renames room room' dated dated' matching rest taken few
    rw [Bench.placeAll, dif_pos rest, taken']
    simp only [if_neg kept, dif_neg stuck]
    exact ⟨rfl, finished⟩
  | case4 b piece offset stored duplicate done =>
    intro few
    rw [Bench.placeAll, dif_neg done]
    exact ⟨rfl, twins⟩

end Room

end Bench

end Writing

end Reassembly
