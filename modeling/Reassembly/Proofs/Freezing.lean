import Mathlib.Data.List.Find
import Reassembly.Proofs.Commons
import Reassembly.Proofs.Numbering

/-!
What stays of a block while handles share its store. A complete block stays as it is; an open one keeps
its record, its kind and its bytes and gets more behind them, and the position of its first byte is
settled by the first frame. So what a reader has copied of a complete block is what it erases later,
whatever was done in between.
-/

namespace Reassembly

namespace Store

namespace Item

/-- What may become of a block while it stays: nothing if it is complete, else it may grow. -/
structure Keeps (old new : Item) : Prop where
  entry : new.entry = old.entry
  kind : new.header.kind = old.header.kind
  frozen : old.header.isComplete = true → new = old
  grown : ∃ more, new.body = old.body ++ more
  settled : old.header.hasData = true →
    new.header.hasData = true ∧ new.header.base = old.header.base

namespace Keeps

variable {a b c : Item}

theorem refl (item : Item) : item.Keeps item :=
  ⟨rfl, rfl, fun _ => rfl, ⟨.empty, ByteArray.append_empty.symm⟩, fun data => ⟨data, rfl⟩⟩

theorem trans (first : a.Keeps b) (second : b.Keeps c) : a.Keeps c where
  entry := second.entry.trans first.entry
  kind := second.kind.trans first.kind
  frozen complete := by
    have same := first.frozen complete
    rw [second.frozen (same ▸ complete), same]
  grown := by
    obtain ⟨early, middle⟩ := first.grown
    obtain ⟨late, last⟩ := second.grown
    exact ⟨early ++ late, by rw [last, middle, ByteArray.append_assoc]⟩
  settled data := by
    have middle := first.settled data
    have last := second.settled middle.1
    exact ⟨last.1, last.2.trans middle.2⟩

theorem ref_eq (keeps : a.Keeps b) : b.ref = a.ref := congrArg Entry.ref keeps.entry

end Keeps

variable {item : Item}

theorem keeps_close (writable : item.header.isComplete = false) (now : Micros) :
    item.Keeps ⟨item.entry, { item.header.close with lastUpdate := now }, item.body⟩ := by
  refine ⟨rfl, rfl, fun complete => ?_, ⟨.empty, ByteArray.append_empty.symm⟩, fun data => ⟨data, rfl⟩⟩
  rw [writable] at complete
  cases complete

theorem keeps_grown (writable : item.header.isComplete = false) (start : Seq) (chunk : ByteArray)
    (now : Micros) : item.Keeps (item.grown start chunk now) := by
  refine ⟨rfl, rfl, fun complete => ?_, ⟨_, rfl⟩, fun data => ⟨rfl, if_pos data⟩⟩
  rw [writable] at complete
  cases complete

theorem keeps_swept (item : Item) (idle now : Micros) : item.Keeps (item.swept idle now) := by
  rw [swept]
  split
  · next old =>
    rw [isIdle, Bool.and_eq_true, Bool.not_eq_true'] at old
    exact keeps_close old.1 now
  · exact .refl item

end Item

namespace Catalog

/-- What writers make of a catalog: blocks change as they may, and a number of blocks is added, each
under the next number. -/
inductive Written (first : Catalog) : Nat → Catalog → Prop
  | nothing : Written first 0 first
  | change {count : Nat} {cat : Catalog} {change : Item → Item} (written : Written first count cat)
      (keeps : ∀ item ∈ cat.items, item.Keeps (change item)) :
      Written first count { cat with items := cat.items.map change }
  | shelve {count : Nat} {cat : Catalog} {item : Item} (written : Written first count cat)
      (number : item.ref.generation = cat.nextGeneration) :
      Written first (count + 1) (cat.shelve item)

theorem Sorted.file_eq {items : List Item} (sorted : Sorted items) (item : Item) :
    Catalog.file items item = items.filter (fun other => other.ref.upTo item.ref) ++
      item :: items.filter fun other => !other.ref.upTo item.ref := by
  have falling := sorted.falling_upTo item.ref
  have inserted (xs : List Item) : ∀ place ≤ xs.length,
      xs.insertIdx place item = xs.take place ++ item :: xs.drop place := by
    induction xs with
    | nil =>
      intro place inside
      rw [Nat.le_zero.mp inside]
      rfl
    | cons first rest ih =>
      intro place inside
      cases place with
      | zero => rfl
      | succ place =>
        rw [List.insertIdx_succ_cons, ih place (Nat.le_of_succ_le_succ inside)]
        rfl
  rw [Catalog.file, inserted _ _ List.countP_le_length, falling.take_countP, falling.drop_countP]

theorem Sorted.find?_file {items : List Item} (sorted : Sorted items) (item : Item) {target : Ref}
    {known : Item} (found : items.find? (fun other => other.ref = target) = some known) :
    (Catalog.file items item).find? (fun other => other.ref = target) = some known := by
  have falling := sorted.falling_upTo item.ref
  have parts : items.find? (fun other => other.ref = target) =
      ((items.filter fun other => other.ref.upTo item.ref).find? fun other => other.ref = target).or
        ((items.filter fun other => !other.ref.upTo item.ref).find? fun other => other.ref = target) := by
    rw [← List.find?_append, ← falling.take_countP, ← falling.drop_countP, List.take_append_drop]
  rw [found] at parts
  rw [sorted.file_eq item, List.find?_append, List.find?_cons]
  by_cases same : item.ref = target
  · -- the known block is not behind the new one, since it has the same reference
    have member : known ∈ items.filter fun other => other.ref.upTo item.ref := by
      refine List.mem_filter.mpr ⟨List.mem_of_find?_eq_some found, ?_⟩
      have known_ref : known.ref = target := by simpa using List.find?_some found
      rw [Ref.upTo_iff, known_ref, same]
    have early : (items.filter fun other => other.ref.upTo item.ref).find?
        (fun other => other.ref = target) ≠ none := by
      intro missed
      have known_ref : known.ref = target := by simpa using List.find?_some found
      exact List.find?_eq_none.mp missed known member (decide_eq_true known_ref)
    obtain ⟨first, there⟩ := Option.ne_none_iff_exists'.mp early
    rw [there, Option.some_or] at parts ⊢
    exact parts.symm
  · rw [decide_eq_false same]
    exact parts.symm

namespace Written

variable {a b c : Catalog} {count more : Nat}

theorem trans (first : Written a count b) (second : Written b more c) :
    Written a (count + more) c := by
  induction second with
  | nothing => exact first
  | change _ keeps ih => exact ih.change keeps
  | shelve _ number ih => exact ih.shelve number

theorem recast {l : Layout} (written : Written a count b) (ordered : b.Ordered l) {item : Item}
    (member : item ∈ b.items) {header : Block.Header} {body : ByteArray}
    (keeps : item.Keeps ⟨item.entry, header, body⟩) :
    Written a count (b.recast item.slot header body) := by
  refine written.change fun other present => ?_
  split
  · next same =>
    obtain rfl := ordered.eq_of_slot present member same
    exact keeps
  · exact .refl other

theorem keeps (written : Written a count b) {old : Item} (there : old ∈ a.items) :
    ∃ new ∈ b.items, old.Keeps new := by
  induction written with
  | nothing => exact ⟨old, there, .refl old⟩
  | change _ keeps ih =>
    obtain ⟨mid, present, early⟩ := ih
    exact ⟨_, List.mem_map_of_mem present, early.trans (keeps mid present)⟩
  | shelve _ _ ih =>
    obtain ⟨mid, present, early⟩ := ih
    exact ⟨mid, mem_file.mpr (.inr present), early⟩

theorem sorted (written : Written a count b) (before : Sorted a.items) : Sorted b.items := by
  induction written with
  | nothing => exact before
  | change _ keeps ih =>
    refine List.pairwise_map.mpr (ih.imp_of_mem fun {x y} first second le => ?_)
    rw [(keeps x first).ref_eq, (keeps y second).ref_eq]
    exact le
  | @shelve _ _ item _ _ ih => exact ih.file item

theorem find?_keeps (written : Written a count b) (before : Sorted a.items) {target : Ref} {old : Item}
    (found : a.find? target = some old) : ∃ new, b.find? target = some new ∧ old.Keeps new := by
  induction written with
  | nothing => exact ⟨old, found, .refl old⟩
  | @change _ cat change _ keeps ih =>
    obtain ⟨mid, there, early⟩ := ih
    refine ⟨change mid, ?_, early.trans (keeps mid (mem_of_find? there))⟩
    have same : cat.items.find? ((fun other => decide (other.ref = target)) ∘ change) =
        cat.find? target :=
      List.find?_congr fun other present => by rw [Function.comp_apply, (keeps other present).ref_eq]
    rw [find?, List.find?_map, same, there]
    rfl
  | @shelve _ _ item written _ ih =>
    obtain ⟨mid, there, early⟩ := ih
    exact ⟨mid, (written.sorted before).find?_file item there, early⟩

theorem swept (cat : Catalog) (idle now : Micros) : Written cat 0 (cat.swept idle now) :=
  Written.nothing.change fun item _ => item.keeps_swept idle now

end Written

variable {l : Layout} {cat : Catalog}

theorem Ordered.erase_split (ordered : cat.Ordered l) {target : Ref} {item : Item}
    (found : cat.find? target = some item) :
    ∃ front back, cat.items = front ++ item :: back ∧ (cat.erase target).items = front ++ back ∧
      ∀ other ∈ front ++ back, other.slot ≠ item.slot := by
  have there := ordered.getElem?_below found
  obtain ⟨live, here⟩ := List.getElem?_eq_some_iff.mp there
  have left : (cat.erase target).items = cat.items.eraseIdx (cat.below target) := by
    rw [Catalog.erase, found]
    rfl
  refine ⟨cat.items.take (cat.below target), cat.items.drop (cat.below target + 1), ?_, ?_, ?_⟩
  · conv => rhs; rw [← here]
    rw [List.getElem_cons_drop live, List.take_append_drop]
  · rw [left, List.eraseIdx_eq_take_drop_succ]
  · rw [← List.eraseIdx_eq_take_drop_succ]
    exact fun other kept => ordered.slot_ne_of_mem_eraseIdx there kept

theorem Ordered.find?_erase (ordered : cat.Ordered l) {target erased : Ref} (apart : erased ≠ target) :
    (cat.erase erased).find? target = cat.find? target := by
  cases found : cat.find? erased with
  | none => rw [Catalog.erase, found]
  | some item =>
    obtain ⟨front, back, parts, left, _⟩ := ordered.erase_split found
    have other : ¬ item.ref = target := fun same => apart ((ref_of_find? found).symm.trans same)
    rw [find?, find?, left, parts, List.find?_append, List.find?_append, List.find?_cons,
      decide_eq_false other]

theorem Ordered.mem_erase_or (ordered : cat.Ordered l) {item : Item} (member : item ∈ cat.items)
    (target : Ref) : item ∈ (cat.erase target).items ∨
      item.ref = target ∧ ∀ other ∈ (cat.erase target).items, other.entry ≠ item.entry := by
  cases found : cat.find? target with
  | none =>
    rw [Catalog.erase, found]
    exact .inl member
  | some erased =>
    obtain ⟨front, back, parts, left, apart⟩ := ordered.erase_split found
    rw [left]
    rw [parts, List.mem_append, List.mem_cons] at member
    rcases member with early | rfl | late
    · exact .inl (List.mem_append_left _ early)
    · exact .inr ⟨ref_of_find? found, fun other kept same => apart other kept (congrArg Entry.slot same)⟩
    · exact .inl (List.mem_append_right _ late)

theorem find?_of_cut (test : Ref → Bool) (falling : Falling (fun item : Item => test item.ref) cat.items)
    {item : Item} (there : cat.items[(cat.items.countP fun item => test item.ref) %
      cat.items.length]? = some item) : cat.find? item.ref = some item := by
  obtain ⟨live, here⟩ := List.getElem?_eq_some_iff.mp there
  refine List.find?_eq_some_iff_getElem.mpr ⟨decide_eq_true rfl, _, live, here, fun place before => ?_⟩
  have within : (cat.items.countP fun item => test item.ref) ≤ cat.items.length :=
    List.countP_le_length
  have inside : place < cat.items.length := before.trans live
  -- the cut is at the count itself, since there is a place before it
  have cut : (cat.items.countP fun item => test item.ref) % cat.items.length =
      cat.items.countP fun item => test item.ref := by
    rcases Nat.lt_or_eq_of_le within with less | same
    · exact Nat.mod_eq_of_lt less
    · rw [same, Nat.mod_self] at before
      exact absurd before (Nat.not_lt_zero _)
  rw [cut] at before
  simp only [cut] at here live
  have early := (falling.lt_countP_iff inside).mp before
  have late := mt (falling.lt_countP_iff live).mpr (Nat.lt_irrefl _)
  rw [here] at late
  have apart : cat.items[place].ref ≠ item.ref := fun same => late (same ▸ early)
  simpa using apart

theorem Ordered.find?_of_firstFrom? (ordered : cat.Ordered l) {key : FlowKey} {item : Item}
    (found : cat.firstFrom? key = some item) : cat.find? item.ref = some item :=
  find?_of_cut (·.before ⟨key, 0⟩) (ordered.sorted.falling_before _) found

theorem Ordered.find?_of_next? (ordered : cat.Ordered l) {ref : Ref} {item : Item}
    (found : cat.next? ref = some item) : cat.find? item.ref = some item :=
  find?_of_cut (·.upTo ref) (ordered.sorted.falling_upTo _)
    (Option.filter_eq_some_iff.mp found).1

end Catalog

end Store

namespace Writing

open Store Catalog

variable {l : Layout} {idle : Micros}

namespace Bench

variable {b b' : Bench} {piece : Piece} {chunk : ByteArray}

theorem storeNew_written (b : Bench) (piece : Piece) (chunk : ByteArray) :
    ∃ count, Written b.cat count (b.storeNew l piece chunk).2.cat := by
  rw [storeNew]
  split
  · exact ⟨0, .nothing⟩
  · next slot _ =>
    have filed : Written b.cat 1 (b.cat.shelve (opened b.cat slot piece chunk)) :=
      Written.nothing.shelve rfl
    dsimp only
    split
    · exact ⟨1, filed⟩
    · exact ⟨1, filed⟩

theorem Fit.reopen_written {lane : Nat} (fit : b.Fit l lane) (now : Micros) :
    Written b.cat 0 (b.reopen idle now).cat := by
  rw [Bench.reopen]
  split
  · exact .nothing
  · next item found =>
    split
    · exact .nothing
    · next writable =>
      split
      · exact Written.nothing.recast fit.ordered (mem_of_located found)
          (Item.keeps_close (Bool.eq_false_iff.mpr writable) item.header.lastUpdate)
      · exact .nothing

theorem Placed.written {placement : Placement} (placed : Placed l idle b piece chunk placement b')
    (fit : b.Fit l piece.lane) : ∃ count, Written b.cat count b'.cat := by
  cases placed with
  | covered _ _ => exact ⟨0, .nothing⟩
  | continued current _ _ =>
    exact ⟨0, Written.nothing.recast fit.ordered (mem_of_writable? current)
      (Item.keeps_grown (writable?_spec current).2.1 _ _ _)⟩
  | resumed found writable _ _ =>
    exact ⟨0, Written.nothing.recast fit.ordered (fit.ordered.sorted.predecessor?_spec found).1
      (Item.keeps_grown writable _ _ _)⟩
  | @replaced item current _ =>
    have closed : Written b.cat 0 (b.cat.complete item) :=
      Written.nothing.recast fit.ordered (mem_of_writable? current)
        (Item.keeps_close (writable?_spec current).2.1 item.header.lastUpdate)
    obtain ⟨count, filed⟩ := storeNew_written (l := l) ⟨none, b.cat.complete item⟩ piece chunk
    exact ⟨0 + count, closed.trans filed⟩
  | apart _ => exact storeNew_written _ _ _

theorem Fit.place_written {data : ByteArray} {offset : Nat} (fit : b.Fit l piece.lane) :
    ∃ count, Written b.cat count (b.place l idle piece data offset).2.cat := by
  have looked : Written b.cat 0 (b.reopen idle piece.now).cat := fit.reopen_written piece.now
  obtain ⟨count, written⟩ := (place_placed fit data offset).written (fit.reopen piece.now)
  exact ⟨0 + count, looked.trans written⟩

theorem Fit.placeAll_written {base : Seq} {data : ByteArray} {offset : Nat} (fit : b.Fit l piece.lane)
    (here : piece.seq = base.advance offset) (stored : Option Outcome) (duplicate : Bool) :
    ∃ count, Written b.cat count (b.placeAll l idle piece data offset stored duplicate).2.cat := by
  fun_induction Bench.placeAll l idle b piece data offset stored duplicate with
  | case1 b piece offset stored duplicate rest placed b' taken dropped =>
    have step : ∃ count, Written b.cat count (b.place l idle piece data offset).2.cat :=
      fit.place_written
    rw [taken] at step
    exact step
  | case2 b piece offset stored duplicate rest placed b' taken kept duplicate' stored' progress ih =>
    have step : ∃ count, Written b.cat count (b.place l idle piece data offset).2.cat :=
      fit.place_written
    have spec := (@Writing.Bench.Fit.place_spec _ idle) fit rest here
    rw [taken] at step spec
    obtain ⟨count, first⟩ := step
    obtain ⟨more, others⟩ := ih spec.1 (Piece.seq_advance here _)
    exact ⟨count + more, first.trans others⟩
  | case3 b piece offset stored duplicate rest placed b' taken kept duplicate' stored' stuck =>
    have step : ∃ count, Written b.cat count (b.place l idle piece data offset).2.cat :=
      fit.place_written
    rw [taken] at step
    exact step
  | case4 b piece offset stored duplicate done => exact ⟨0, .nothing⟩

end Bench

theorem Desk.Fit.put_written {d : Desk} (fit : d.Fit l) (config : StoreConfig) (segment : Segment)
    (now : Micros) : ∃ count, Written d.cat count (d.put l config segment now).2.cat := by
  cases found : d.announce? l config segment now with
  | none =>
    rw [Desk.put_of_unannounced found]
    exact ⟨0, .nothing⟩
  | some pair =>
    obtain ⟨writer, cat⟩ := pair
    have announced : ∃ count, Written d.cat count cat := by
      cases Desk.announces_of found with
      | known _ => exact ⟨0, .nothing⟩
      | anew _ _ => exact ⟨1, Written.nothing.shelve rfl⟩
    rw [Desk.put, found]
    dsimp only
    split
    · exact announced
    · obtain ⟨first, marked⟩ := announced
      obtain ⟨more, placed⟩ := (fit.bench found).placeAll_written (Seq.advance_zero _).symm none false
      exact ⟨first + more, marked.trans placed⟩

end Writing

namespace Commons

open Store Catalog Reading

variable {l : Layout} {c : Commons} {cat : Catalog}

theorem Carrying.step_written (carrying : Carrying l c cat) (move : Move) :
    ∃ cat', Carrying l (c.step move) cat' ∧
      ((∃ count, Written cat count cat') ∨
        ∃ index ref now, move = .operate index (.erase ref now) ∧ cat' = cat.erase ref) := by
  cases move with
  | attach handle config => exact ⟨cat, (carrying.attach handle config).2, .inl ⟨0, .nothing⟩⟩
  | operate index operation =>
    cases attached : c.handles[index]? with
    | none =>
      have idle : c.step (.operate index operation) = c := by simp only [Commons.step, attached]
      rw [idle]
      exact ⟨cat, carrying, .inl ⟨0, .nothing⟩⟩
    | some a =>
      obtain ⟨_, _, carrying'⟩ := carrying.operate attached operation
      refine ⟨_, carrying', ?_⟩
      cases operation with
      | put segment now =>
        obtain ⟨rfl, _, aimed⟩ := carrying.tidy a (List.mem_of_getElem? attached)
        have fit : Writing.Desk.Fit a.layout ⟨a.writers, cat⟩ :=
          ⟨carrying.carries.ordered, carrying.sound, aimed⟩
        exact .inl (fit.put_written a.config segment now)
      | sweep now => exact .inl ⟨0, .swept cat _ now⟩
      | erase ref now => exact .inr ⟨index, ref, now, rfl, rfl⟩
      | removeFlow | nextMarker | firstFrom | next | occupancy => exact .inl ⟨0, .nothing⟩

/-- Some of the moves erases the block; up to there it was kept. -/
def ErasedBy (l : Layout) (c : Commons) (item : Item) (moves : List Move) : Prop :=
  ∃ front index now back, moves = front ++ .operate index (.erase item.ref now) :: back ∧
    (∃ last ∈ itemsIn l (c.run front).bytes, item.Keeps last) ∧
    ∀ other ∈ itemsIn l (c.run (front ++ [.operate index (.erase item.ref now)])).bytes,
      other.entry ≠ item.entry

theorem ErasedBy.cons {item next : Item} {move : Move} {rest : List Move} (keeps : item.Keeps next)
    (erased : (c.step move).ErasedBy l next rest) : c.ErasedBy l item (move :: rest) := by
  obtain ⟨front, index, now, back, parts, ⟨last, there, later⟩, gone⟩ := erased
  rw [keeps.ref_eq] at parts gone
  refine ⟨move :: front, index, now, back, by rw [parts]; rfl, ⟨last, there, keeps.trans later⟩, ?_⟩
  rw [← keeps.entry]
  exact gone

theorem Carrying.keeps_or_erased (carrying : Carrying l c cat) (moves : List Move) {item : Item}
    (member : item ∈ cat.items) :
    (∃ later ∈ itemsIn l (c.run moves).bytes, item.Keeps later) ∨ c.ErasedBy l item moves := by
  induction moves generalizing c cat item with
  | nil => exact .inl ⟨item, carrying.carries.itemsIn_eq ▸ member, .refl item⟩
  | cons move rest ih =>
    have goOn {cat' : Catalog} {next : Item} (carrying' : Carrying l (c.step move) cat')
        (there : next ∈ cat'.items) (keeps : item.Keeps next) :
        (∃ later ∈ itemsIn l (c.run (move :: rest)).bytes, item.Keeps later) ∨
          c.ErasedBy l item (move :: rest) := by
      rcases ih carrying' there with ⟨later, present, kept⟩ | erased
      · exact .inl ⟨later, present, keeps.trans kept⟩
      · exact .inr (erased.cons keeps)
    obtain ⟨cat', carrying', ⟨_, written⟩ | ⟨index, ref, now, rfl, rfl⟩⟩ := carrying.step_written move
    · obtain ⟨next, there, keeps⟩ := written.keeps member
      exact goOn carrying' there keeps
    · rcases carrying.carries.ordered.mem_erase_or member ref with kept | ⟨rfl, gone⟩
      · exact goOn carrying' kept (.refl item)
      · refine .inr ⟨[], index, now, rest, rfl, ⟨item, ?_, .refl item⟩, ?_⟩
        · exact carrying.carries.itemsIn_eq ▸ member
        · exact carrying'.carries.itemsIn_eq ▸ gone

theorem Carrying.find?_keeps (carrying : Carrying l c cat) (moves : List Move) {ref : Ref} {item : Item}
    (found : cat.find? ref = some item)
    (spared : ∀ index now, .operate index (.erase ref now) ∉ moves) :
    ∃ cat' later, Carrying l (c.run moves) cat' ∧ cat'.find? ref = some later ∧ item.Keeps later := by
  induction moves generalizing c cat item with
  | nil => exact ⟨cat, item, carrying, found, .refl item⟩
  | cons move rest ih =>
    have others : ∀ index now, .operate index (.erase ref now) ∉ rest :=
      fun index now later => spared index now (List.mem_cons_of_mem _ later)
    obtain ⟨cat', carrying', ⟨_, written⟩ | ⟨index, erased, now, rfl, rfl⟩⟩ := carrying.step_written move
    · obtain ⟨next, there, keeps⟩ := written.find?_keeps carrying.carries.ordered.sorted found
      obtain ⟨last, later, carrying'', here, kept⟩ := ih carrying' there others
      exact ⟨last, later, carrying'', here, keeps.trans kept⟩
    · have apart : erased ≠ ref := by
        rintro rfl
        exact spared index now List.mem_cons_self
      exact ih carrying' ((carrying.carries.ordered.find?_erase apart).trans found) others

/-- A copy of a block that a look-up through a handle gives at some time. -/
def Copied (c : Commons) (a : Attachment) (block : Stored) : Prop :=
  ∃ now r', (∃ key, firstFrom (a.view now) key ⟨a.handle, c.bytes⟩ = .ok (some block) r') ∨
    ∃ ref, next (a.view now) ref ⟨a.handle, c.bytes⟩ = .ok (some block) r'

theorem Carrying.find?_copied (carrying : Carrying l c cat) {a : Attachment} (attached : a ∈ c.handles)
    {block : Stored} (copied : c.Copied a block) :
    ∃ item now, cat.find? block.ref = some item ∧ block = item.stored (a.view now) := by
  have seen := carrying.seen attached
  obtain ⟨now, r', ⟨key, read⟩ | ⟨ref, read⟩⟩ := copied
  · rw [firstFrom_run (v := a.view now) seen key] at read
    obtain ⟨item, found, rfl⟩ := Option.map_eq_some_iff.mp (EStateM.Result.ok.inj read).1
    exact ⟨item, now, seen.ordered.find?_of_firstFrom? found, rfl⟩
  · rw [next_run (v := a.view now) seen ref] at read
    obtain ⟨item, found, rfl⟩ := Option.map_eq_some_iff.mp (EStateM.Result.ok.inj read).1
    exact ⟨item, now, seen.ordered.find?_of_next? found, rfl⟩

/-- Erasing a copied block through a handle takes out the block just as it was copied, and no other. -/
def TakesOut (c : Commons) (a : Attachment) (block : Stored) : Prop :=
  ∀ now, ∃ r' front item back,
    erase (a.view now) block.ref ⟨a.handle, c.bytes⟩ = .ok true r' ∧
    itemsIn a.layout c.bytes = front ++ item :: back ∧ itemsIn a.layout r'.bytes = front ++ back ∧
    item.ref = block.ref ∧ item.header = block.header ∧ item.body = block.payload

theorem Carrying.takesOut (carrying : Carrying l c cat) {a : Attachment} (attached : a ∈ c.handles)
    {item : Item} {v : View} (found : cat.find? item.ref = some item) :
    c.TakesOut a (item.stored v) := by
  intro now
  have seen := carrying.seen attached
  obtain ⟨r', erased, carries'⟩ := erase_run (v := a.view now) seen item.ref
  obtain ⟨front, back, parts, left, _⟩ := seen.ordered.erase_split found
  have after : itemsIn a.layout r'.bytes = (cat.erase item.ref).items := carries'.itemsIn_eq
  rw [found] at erased
  refine ⟨r', front, item, back, erased, ?_, ?_, rfl, rfl, rfl⟩
  · exact seen.itemsIn_eq.trans parts
  · exact after.trans left

/-- Complete blocks are frozen and open blocks only grow, whatever the handles of a region do, until a
block is erased. So a ready block that a handle has copied is just what it takes out of the store when it
is the first to erase it, whatever was written in between. -/
theorem Reachable.keeps_until_erased (reached : c.Reachable) {a : Attachment} (attached : a ∈ c.handles)
    (moves : List Move) :
    (∀ item ∈ itemsIn a.layout c.bytes,
      (∃ later ∈ itemsIn a.layout (c.run moves).bytes, item.Keeps later) ∨
        c.ErasedBy a.layout item moves) ∧
    ∀ block, c.Copied a block → block.ready = true →
      (∀ index now, .operate index (.erase block.ref now) ∉ moves) →
      ∀ eraser ∈ (c.run moves).handles, (c.run moves).TakesOut eraser block := by
  obtain ⟨l, cat, carrying⟩ := reached.carrying
  obtain ⟨rfl, -, -⟩ := carrying.tidy a attached
  refine ⟨fun item member => ?_, fun block copied ready spared eraser there => ?_⟩
  · rw [carrying.carries.itemsIn_eq] at member
    exact carrying.keeps_or_erased moves member
  · obtain ⟨item, now, found, rfl⟩ := carrying.find?_copied attached copied
    obtain ⟨cat', later, carrying', here, keeps⟩ := carrying.find?_keeps moves found spared
    have complete : item.header.isComplete = true := (Bool.and_eq_true_iff.mp ready).1
    obtain rfl := keeps.frozen complete
    exact carrying'.takesOut there here

theorem Carrying.copied_next (carrying : Carrying l c cat) {a : Attachment} (attached : a ∈ c.handles)
    {now : Micros} {ref : Ref} {item : Item} (found : cat.next? ref = some item) :
    c.Copied a (item.stored (a.view now)) := by
  have read := next_run (v := a.view now) (carrying.seen attached) ref
  rw [found] at read
  exact ⟨now, _, .inr ⟨ref, read⟩⟩

/-- A ready block of one flow is copied; then an open block of another flow grows, and the first flow
goes on elsewhere. -/
theorem keeps_until_erased_between_writes :
    ∃ (c : Commons) (a : Attachment) (moves : List Move) (item : Item) (block : Stored),
      c.Reachable ∧ a ∈ c.handles ∧
      item ∈ itemsIn a.layout c.bytes ∧ item.header.isComplete = false ∧
      (∃ later ∈ itemsIn a.layout (c.run moves).bytes, item.Keeps later) ∧
      c.Copied a block ∧ block.ready = true ∧ block.payload.size = 11 ∧
      (c.run moves).handles ≠ [] ∧
      ∀ eraser ∈ (c.run moves).handles, (c.run moves).TakesOut eraser block := by
  have divided : Attachment.layoutFor { blockCapacity := 64, maxBlocks := 8 } =
      .ok ⟨64, 8, by decide, by decide, by decide⟩ := rfl
  obtain ⟨start, fresh, handles, carrying⟩ := Fresh.of_config rfl divided
  let before : List Operation := [.put ⟨⟨7⟩, .source, ⟨100⟩, ⟨#[3, 4, 5]⟩⟩ 1000000, .sweep 2000000,
    .put ⟨⟨8⟩, .destination, ⟨5⟩, ⟨#[6]⟩⟩ 3000000]
  let between : List Operation := [.put ⟨⟨8⟩, .destination, ⟨6⟩, ⟨#[8, 9]⟩⟩ 3000000,
    .put ⟨⟨7⟩, .source, ⟨103⟩, ⟨#[7]⟩⟩ 3000001]
  let l : Layout := ⟨64, 8, by decide, by decide, by decide⟩
  let shared := Operation.effects
    (.fresh ⟨l.required, .memory 0⟩ l { blockCapacity := 64, maxBlocks := 8 }) .empty before
  obtain ⟨attached, carrying'⟩ := carrying.alone handles before
  have reached : (start.run (before.map (.operate 0))).Reachable := ⟨start, fresh, _, rfl⟩
  have member : shared.1 ∈ (start.run (before.map (.operate 0))).handles :=
    attached.symm ▸ List.mem_singleton_self _
  generalize start.run (before.map (.operate 0)) = c at attached carrying' reached member
  have after := (carrying'.alone attached between).1
  obtain ⟨kept, taken⟩ := reached.keeps_until_erased member (between.map (.operate 0))
  have spared : ∀ ref index now,
      Move.operate index (.erase ref now) ∉ between.map (.operate 0) := by
    intro ref index now listed
    simp [between] at listed
  -- the open block stands last, the ready one behind the marker of its flow
  have opens : ∃ item ∈ shared.2.items, item.header.isComplete = false := by decide +kernel
  obtain ⟨item, there, writable⟩ := opens
  have listed : item ∈ itemsIn shared.1.layout c.bytes :=
    (carrying'.seen member).itemsIn_eq.symm ▸ there
  have due : (shared.2.next? ⟨.pack ⟨7⟩ .source ⟨100⟩, 0⟩).any (fun known =>
      known.header.isReady 3000000 100000 && known.body.size = 11) = true := by
    decide +kernel
  obtain ⟨known, found, ready⟩ := (Option.any_eq_true _ _).mp due
  rw [Bool.and_eq_true, decide_eq_true_eq] at ready
  have copied : c.Copied shared.1 (known.stored (shared.1.view 3000000)) :=
    carrying'.copied_next member found
  refine ⟨c, shared.1, between.map (.operate 0), item, _, reached, member, listed, writable, ?_, copied, ready.1, ready.2,
    ?_, taken _ copied ready.1 (spared _)⟩
  · refine (kept item listed).resolve_right ?_
    rintro ⟨front, index, now, back, parts, _⟩
    exact spared item.ref index now (parts ▸ List.mem_append_right _ List.mem_cons_self)
  · rw [after]
    exact List.cons_ne_nil _ _

end Commons

end Reassembly
