import Reassembly.Proofs.Contents
import Reassembly.Proofs.Freezing
import Reassembly.Proofs.Representation

/-!
The bytes of a region behave as an ordered map. Under the lock a handle inserts, removes and changes
blocks; each of these strokes is an insertion or a deletion in the map that the bytes are read as, and
every search answers as the same search in the map. References are numbered, so none is used twice and
one that is gone stays gone, for as long as the numbers last.
-/

namespace Reassembly.Store

/-- What a block holds after bytes were written into its payload area. -/
def Content.overwritten (content : Content) (offset : Nat) (data : ByteArray) : Content where
  header := content.header
  body := Bytes.slice content.body 0 offset ++ Bytes.slice data 0 (content.body.size - offset) ++
    Bytes.slice content.body (offset + data.size) content.body.size

theorem Content.size_overwritten (content : Content) (offset : Nat) (data : ByteArray) :
    (content.overwritten offset data).body.size = content.body.size := by
  rw [overwritten, ByteArray.size_append, ByteArray.size_append, Bytes.size_slice, Bytes.size_slice,
    Bytes.size_slice]
  omega

theorem Content.byteAt_overwritten (content : Content) (offset : Nat) (data : ByteArray) {place : Nat}
    (used : place < content.body.size) :
    Bytes.byteAt (content.overwritten offset data).body place =
      if offset ≤ place ∧ place < offset + data.size then Bytes.byteAt data (place - offset)
      else Bytes.byteAt content.body place := by
  rw [overwritten, Bytes.byteAt_append, Bytes.byteAt_append, ByteArray.size_append, Bytes.size_slice,
    Bytes.size_slice, Bytes.byteAt_slice, Bytes.byteAt_slice, Bytes.byteAt_slice]
  by_cases before : place < offset
  · rw [if_pos (by omega), if_pos (by omega), if_pos before, Nat.zero_add, if_neg (by omega)]
  · by_cases within : place < offset + data.size
    · rw [if_pos (by omega), if_neg (by omega), if_pos (by omega), if_pos (by omega)]
      congr 1
      omega
    · rw [if_neg (by omega), if_pos (by omega), if_neg (by omega)]
      congr 1
      omega

namespace Holds
open Catalog
variable {l : Layout} {held : Held} {cat : Catalog} (holds : Holds l held cat)
include holds

theorem bodyIn_overwritten {item : Item} (member : item ∈ cat.items) (offset : Nat) (data : ByteArray) :
    bodyIn l (held.region.written (l.payloadOffset item.slot + offset) data).bytes item.slot item.header.used =
      (item.content.overwritten offset data).body := by
  have size : item.content.body.size = item.header.used := holds.size_body member
  refine Bytes.ext_byteAt ?_ fun place => ?_
  · rw [bodyIn, SparseBytes.size_read, Content.size_overwritten, size]
  · rw [bodyIn, SparseBytes.byteAt_read]
    split
    · next used =>
      have before : Bytes.byteAt item.content.body place =
          held.region.bytes.byteAt (l.payloadOffset item.slot + place) := by
        rw [show item.content.body = item.body from rfl, ← holds.body_eq member, bodyIn,
          SparseBytes.byteAt_read, if_pos used]
      rw [Content.byteAt_overwritten _ _ _ (size ▸ used), before, Region.bytes_written,
        SparseBytes.byteAt_write]
      by_cases within : offset ≤ place ∧ place < offset + data.size
      · rw [if_pos (by omega), if_pos within]
        congr 1
        omega
      · rw [if_neg (by omega), if_neg within]
    · next behind =>
      exact (Bytes.byteAt_of_size_le _ (by rw [Content.size_overwritten, size]; omega)).symm

theorem overwrite_run {item : Item} (member : item ∈ cat.items) {offset : Nat} {data : ByteArray}
    (fits : offset + data.size ≤ l.capacity) :
    ∃ held', Hold.writePayload l item.slot offset data held = .ok () held' ∧
      Holds l held' (cat.recast item.slot item.header (item.content.overwritten offset data).body) := by
  refine ⟨_, Hold.onRegion_ok (Slots.writePayload_run holds.reach (holds.slot_lt member) fits), ?_⟩
  have area := l.payloadOffset_eq (holds.slot_lt member)
  refine holds.rewritten member (by omega) (by omega)
    (holds.ordered.fits item member) ?_
  have header : headerIn l (held.region.written (l.payloadOffset item.slot + offset) data).bytes
      item.slot = item.header := by
    rw [← holds.header_eq member]
    exact headerIn_congr (Region.agree_written _ _ _ (.inl (by omega)))
  rw [itemOf, show item.entry.slot = item.slot from rfl, header, holds.bodyIn_overwritten member offset data]

end Holds

theorem Hold.writePayload_refused {l : Layout} {slot : UInt32} {offset : Nat} {data : ByteArray}
    (long : l.capacity < offset + data.size) (word : offset + data.size < UInt64.size) (held : Held) :
    Hold.writePayload l slot offset data held = .error (.outOfBounds offset data.size l.capacity) held := by
  apply Hold.onRegion_error
  rw [Slots.writePayload, wordSum_eq word, if_pos long]
  rfl

/-- What a handle does to a store under the lock. -/
inductive Stroke where
  | insert (draft : Draft)
  | removeAt (pos : Nat)
  | erase (ref : Ref)
  | setHeader (slot : UInt32) (header : Block.Header)
  | write (slot : UInt32) (offset : Nat) (data : ByteArray)

namespace Stroke

variable (l : Layout)

def work : Stroke → Hold Unit
  | insert draft => discard <| draft.insert l
  | removeAt pos => discard <| Hold.removeAt l pos
  | erase ref => discard <| Hold.erase l ref
  | setHeader slot header => Hold.setHeader l slot header
  | write slot offset data => Hold.writePayload l slot offset data

def next (held : Held) (stroke : Stroke) : Held :=
  match stroke.work l held with
  | .ok _ held => held
  | .error _ held => held

/-- A slot is that of a block. -/
def Live (held : Held) (slot : UInt32) : Prop :=
  ∃ pos < held.counters.entryCount.toNat, (Catalog.entryIn held.region.bytes pos).slot = slot

/-- What callers keep to: blocks are those that there are, no block is longer than its area, and where bytes
are to end is a word. -/
def Proper (held : Held) : Stroke → Prop
  | insert draft => draft.start.size ≤ l.capacity
  | removeAt pos => pos < held.counters.entryCount.toNat
  | erase _ => True
  | setHeader slot header => Live held slot ∧ header.used ≤ l.capacity
  | write slot offset data => Live held slot ∧ offset + data.size < UInt64.size

def AllProper (held : Held) : List Stroke → Prop
  | [] => True
  | stroke :: rest => stroke.Proper l held ∧ AllProper (stroke.next l held) rest

def run (held : Held) (strokes : List Stroke) : Held := strokes.foldl (next l) held

def added (held : Held) (stroke : Stroke) : Nat :=
  (stroke.next l held).counters.entryCount.toNat - held.counters.entryCount.toNat

def addedBy (held : Held) : List Stroke → Nat
  | [] => 0
  | stroke :: rest => stroke.added l held + addedBy (stroke.next l held) rest

def trail (held : Held) : List Stroke → List SparseBytes
  | [] => []
  | stroke :: rest => (stroke.next l held).region.bytes :: trail (stroke.next l held) rest

end Stroke

namespace Catalog

/-- A catalog later in time: numbers are not taken back, and what is new has a new number. -/
structure Precedes (a b : Catalog) : Prop where
  next : a.nextGeneration ≤ b.nextGeneration
  fresh : ∀ item ∈ b.items, (∃ old ∈ a.items, old.ref = item.ref) ∨
    a.nextGeneration ≤ item.ref.generation

namespace Precedes

variable {a b c : Catalog}

theorem refl (cat : Catalog) : cat.Precedes cat :=
  ⟨UInt64.le_refl _, fun item member => .inl ⟨item, member, rfl⟩⟩

theorem trans (first : a.Precedes b) (second : b.Precedes c) : a.Precedes c := by
  refine ⟨UInt64.le_trans first.next second.next, fun item member => ?_⟩
  rcases second.fresh item member with ⟨mid, there, same⟩ | late
  · rw [← same]
    exact first.fresh mid there
  · exact .inr (UInt64.le_trans first.next late)

theorem of_refs (next : b.nextGeneration = a.nextGeneration)
    (refs : ∀ item ∈ b.items, ∃ old ∈ a.items, old.ref = item.ref) : a.Precedes b :=
  ⟨next ▸ UInt64.le_refl _, fun item member => .inl (refs item member)⟩

theorem erase (cat : Catalog) (ref : Ref) : cat.Precedes (cat.erase ref) := by
  refine of_refs (cat.nextGeneration_erase ref) fun item member => ⟨item, ?_, rfl⟩
  rw [Catalog.erase] at member
  split at member
  · exact member
  · exact List.mem_of_mem_eraseIdx member

theorem recast (cat : Catalog) (slot : UInt32) (header : Block.Header) (body : ByteArray) :
    cat.Precedes (cat.recast slot header body) := by
  refine of_refs rfl fun item member => ?_
  rcases mem_recast.mp member with ⟨old, known, _, rfl⟩ | ⟨known, _⟩
  · exact ⟨old, known, rfl⟩
  · exact ⟨item, known, rfl⟩

theorem shelve {item : Item} (number : item.ref.generation = a.nextGeneration)
    (last : a.nextGeneration.toNat + 1 < UInt64.size) : a.Precedes (a.shelve item) := by
  constructor
  · rw [Catalog.shelve, UInt64.le_iff_toNat_le, UInt64.toNat_add, UInt64.toNat_one]
    rw [UInt64.size] at last
    omega
  · intro other member
    rcases mem_file.mp member with rfl | old
    · exact .inr (number ▸ UInt64.le_refl _)
    · exact .inl ⟨other, old, rfl⟩

end Precedes

namespace Written

variable {a b : Catalog} {count : Nat}

theorem length (written : Written a count b) : b.items.length = a.items.length + count := by
  induction written with
  | nothing => rfl
  | change _ _ ih => rw [List.length_map, ih]
  | shelve _ _ ih =>
    rw [Catalog.shelve, Catalog.length_file, ih]
    omega

theorem nextGeneration (written : Written a count b) :
    b.nextGeneration = a.nextGeneration + UInt64.ofNat count := by
  induction written with
  | nothing => exact (UInt64.add_zero _).symm
  | change _ _ ih => exact ih
  | shelve _ _ ih =>
    rw [Catalog.shelve, ih, UInt64.ofNat_add, UInt64.add_assoc]
    rfl

theorem numbered (written : Written a count b) (before : a.Numbered)
    (last : a.nextGeneration.toNat + count < UInt64.size) : b.Numbered ∧ a.Precedes b := by
  induction written with
  | nothing => exact ⟨before, .refl a⟩
  | @change _ cat change _ keeps ih =>
    obtain ⟨apart, precedes⟩ := ih last
    have entries : (cat.items.map change).map Item.entry = cat.items.map Item.entry := by
      rw [List.map_map]
      exact List.map_congr_left fun item member => (keeps item member).entry
    refine ⟨⟨?_, ?_⟩, precedes.trans (.of_refs rfl fun item member => ?_)⟩
    · rw [entries]
      exact apart.below
    · rw [entries]
      exact apart.distinct
    · obtain ⟨old, known, rfl⟩ := List.mem_map.mp member
      exact ⟨old, known, (keeps old known).ref_eq.symm⟩
  | @shelve count cat item written number ih =>
    obtain ⟨apart, precedes⟩ := ih (by omega)
    have room : cat.nextGeneration.toNat + 1 < UInt64.size := by
      rw [written.nextGeneration, toNat_add_ofNat (by omega)]
      omega
    exact ⟨apart.shelve number room, precedes.trans (.shelve number room)⟩

end Written

variable {l : Layout} {cat : Catalog}

theorem Distinct.discard_eq (separate : cat.Distinct) (ordered : cat.Ordered l) {pos : Nat} {item : Item}
    (there : cat.items[pos]? = some item) : cat.discard pos item.slot = cat.erase item.ref := by
  have found := separate.find?_ref (List.mem_of_getElem? there)
  obtain ⟨live, here⟩ := List.getElem?_eq_some_iff.mp there
  obtain ⟨first, same⟩ := List.getElem?_eq_some_iff.mp (ordered.getElem?_below found)
  have nodup : cat.items.Nodup := separate.imp fun apart same => apart (congrArg Item.ref same)
  have place : pos = cat.below item.ref := (nodup.getElem_inj_iff).mp (here.trans same.symm)
  rw [Catalog.erase, found, place]

/-- States through which a store has come to a catalog, the last of them that of the catalog. -/
structure Trail (l : Layout) (states : List SparseBytes) (cat : Catalog) : Prop where
  each : ∀ s ∈ states, ∃ past : Catalog, itemsIn l s = past.items ∧ past.Numbered ∧ past.Precedes cat
  order : states.Pairwise fun s t => ∃ past later : Catalog, itemsIn l s = past.items ∧
    itemsIn l t = later.items ∧ past.Numbered ∧ past.Precedes later ∧ later.Precedes cat

namespace Trail

variable {states : List SparseBytes}

theorem single {s : SparseBytes} (items : itemsIn l s = cat.items) (numbered : cat.Numbered) :
    Trail l [s] cat := by
  refine ⟨fun t listed => ?_, List.pairwise_singleton _ _⟩
  rw [List.mem_singleton.mp listed]
  exact ⟨cat, items, numbered, .refl cat⟩

theorem extend (trail : Trail l states cat) {cat' : Catalog} {s : SparseBytes}
    (items : itemsIn l s = cat'.items) (numbered : cat'.Numbered) (precedes : cat.Precedes cat') :
    Trail l (states ++ [s]) cat' := by
  constructor
  · intro t listed
    rcases List.mem_append.mp listed with old | new
    · obtain ⟨past, same, apart, before⟩ := trail.each t old
      exact ⟨past, same, apart, before.trans precedes⟩
    · rw [List.mem_singleton.mp new]
      exact ⟨cat', items, numbered, .refl cat'⟩
  · refine List.pairwise_append.mpr ⟨trail.order.imp ?_, List.pairwise_singleton _ _, ?_⟩
    · rintro t u ⟨past, later, same, also, apart, before, last⟩
      exact ⟨past, later, same, also, apart, before, last.trans precedes⟩
    · intro t old u new
      obtain ⟨past, same, apart, before⟩ := trail.each t old
      rw [List.mem_singleton.mp new]
      exact ⟨past, cat', same, items, apart, before.trans precedes, .refl cat'⟩

theorem unused (trail : Trail l states cat) {ref : Ref} (number : ref.generation = cat.nextGeneration) :
    ∀ s ∈ states, ref ∉ contentsIn l s := by
  intro s listed used
  obtain ⟨past, items, apart, before⟩ := trail.each s listed
  obtain ⟨item, there, rfl⟩ := mem_contentsIn.mp used
  have lower := apart.below item.entry (List.mem_map_of_mem (items ▸ there))
  have again := UInt64.lt_of_lt_of_le lower before.next
  rw [number] at again
  exact UInt64.lt_irrefl _ again

theorem gone (trail : Trail l states cat) {ref : Ref} {early mid : SparseBytes}
    (order : [early, mid].Sublist states) (used : ref ∈ contentsIn l early)
    (erased : ref ∉ contentsIn l mid) : cat.find? ref = none := by
  have pair := trail.order.sublist order
  obtain ⟨past, later, before, after, apart, precedes, last⟩ :=
    List.rel_of_pairwise_cons pair (List.mem_singleton_self mid)
  obtain ⟨item, there, rfl⟩ := mem_contentsIn.mp used
  have lower := apart.below item.entry (List.mem_map_of_mem (before ▸ there))
  refine List.find?_eq_none.mpr fun other member same => ?_
  have again : other.ref = item.ref := of_decide_eq_true same
  rcases last.fresh other member with ⟨old, known, named⟩ | fresh
  · exact erased (mem_contentsIn.mpr ⟨old, after ▸ known, named.trans again⟩)
  · have reached := UInt64.le_trans precedes.next fresh
    rw [again] at reached
    exact UInt64.lt_irrefl _ (UInt64.lt_of_lt_of_le lower reached)

end Trail

end Catalog

namespace Stroke

variable {l : Layout} {held held' : Held} {stroke : Stroke}

theorem addedBy_le (held : Held) (strokes : List Stroke) :
    addedBy l held strokes ≤ strokes.length * UInt32.size := by
  induction strokes generalizing held with
  | nil => exact Nat.zero_le _
  | cons stroke rest ih =>
    have bound := (stroke.next l held).counters.entryCount.toNat_lt
    have later := ih (stroke.next l held)
    rw [addedBy, added, List.length_cons, Nat.succ_mul]
    rw [UInt32.size] at later ⊢
    omega

theorem next_of_ok (ran : stroke.work l held = .ok () held') : stroke.next l held = held' := by
  rw [next, ran]

theorem next_of_error {fault : Fault} (ran : stroke.work l held = .error fault held') :
    stroke.next l held = held' := by
  rw [next, ran]

end Stroke

namespace Holds
open Catalog
variable {l : Layout} {held : Held} {cat : Catalog} (holds : Holds l held cat)
include holds

theorem exists_of_live {slot : UInt32} (live : Stroke.Live held slot) :
    ∃ item ∈ cat.items, item.slot = slot := by
  obtain ⟨pos, inside, rfl⟩ := live
  rw [← holds.count] at inside
  have there := List.getElem?_eq_getElem inside
  exact ⟨cat.items[pos], List.getElem_mem inside, congrArg Entry.slot (holds.records there).symm⟩

theorem stroke_spec (numbered : cat.Numbered) {stroke : Stroke} (proper : stroke.Proper l held)
    (last : cat.nextGeneration.toNat + stroke.added l held < UInt64.size) :
    ∃ cat', Holds l (stroke.next l held) cat' ∧ cat'.Numbered ∧ cat.Precedes cat' ∧
      cat'.nextGeneration.toNat ≤ cat.nextGeneration.toNat + stroke.added l held := by
  cases stroke with
  | insert draft =>
    cases next : cat.nextSlot? l with
    | none =>
      have failed := holds.insertBlock_full next draft.kind draft.key draft.start draft.complete draft.now
      rw [Stroke.next_of_error (Work.map_error failed)]
      exact ⟨cat, holds, numbered, .refl cat, Nat.le_add_right _ _⟩
    | some slot =>
      obtain ⟨held', inserted, holds'⟩ := holds.insertBlock_run next draft.kind draft.key draft.start
        draft.complete draft.now proper
      have ran : (Stroke.insert draft).next l held = held' := Stroke.next_of_ok (Work.map_ok inserted)
      have one : (Stroke.insert draft).added l held = 1 := by
        rw [Stroke.added, ran, ← holds'.count, ← holds.count, shelve, length_file]
        omega
      rw [one] at last ⊢
      rw [ran]
      refine ⟨_, holds', numbered.shelve rfl last, .shelve rfl last, ?_⟩
      rw [shelve, UInt64.toNat_add, UInt64.toNat_one]
      exact Nat.mod_le _ _
  | removeAt pos =>
    have live : pos < cat.items.length := holds.count ▸ proper
    have there := List.getElem?_eq_getElem live
    obtain ⟨held', removed, holds'⟩ := holds.removeAt_run there
    rw [Stroke.next_of_ok (Work.map_ok removed)]
    rw [numbered.refs.discard_eq holds.ordered there] at holds'
    exact ⟨_, holds', numbered.erase _, .erase cat _, by rw [nextGeneration_erase]; omega⟩
  | erase ref =>
    obtain ⟨held', erased, holds'⟩ := holds.erase_run ref
    rw [Stroke.next_of_ok (Work.map_ok erased)]
    exact ⟨_, holds', numbered.erase _, .erase cat _, by rw [nextGeneration_erase]; omega⟩
  | setHeader slot header =>
    obtain ⟨item, member, rfl⟩ := holds.exists_of_live proper.1
    obtain ⟨held', headed, holds'⟩ := holds.setHeader_run member header proper.2
    have ran : (Stroke.setHeader item.slot header).next l held = held' := Stroke.next_of_ok headed
    rw [ran]
    exact ⟨_, holds', numbered.recast _ _ _, .recast cat _ _ _, Nat.le_add_right _ _⟩
  | write slot offset data =>
    obtain ⟨item, member, rfl⟩ := holds.exists_of_live proper.1
    by_cases fits : offset + data.size ≤ l.capacity
    · obtain ⟨held', wrote, holds'⟩ := holds.overwrite_run member fits
      have ran : (Stroke.write item.slot offset data).next l held = held' := Stroke.next_of_ok wrote
      rw [ran]
      exact ⟨_, holds', numbered.recast _ _ _, .recast cat _ _ _, Nat.le_add_right _ _⟩
    · have ran : (Stroke.write item.slot offset data).next l held = held :=
        Stroke.next_of_error (Hold.writePayload_refused (Nat.not_le.mp fits) proper.2 held)
      rw [ran]
      exact ⟨cat, holds, numbered, .refl cat, Nat.le_add_right _ _⟩

theorem itemsIn_eq : itemsIn l held.region.bytes = cat.items := holds.carries.itemsIn_eq

theorem strokes_spec (numbered : cat.Numbered) {states : List SparseBytes} (trail : Trail l states cat)
    (strokes : List Stroke) (proper : Stroke.AllProper l held strokes)
    (last : cat.nextGeneration.toNat + Stroke.addedBy l held strokes < UInt64.size) :
    ∃ cat', Holds l (Stroke.run l held strokes) cat' ∧ cat'.Numbered ∧
      Trail l (states ++ Stroke.trail l held strokes) cat' := by
  induction strokes generalizing held cat states with
  | nil =>
    rw [Stroke.trail, List.append_nil]
    exact ⟨cat, holds, numbered, trail⟩
  | cons stroke rest ih =>
    rw [Stroke.addedBy] at last
    obtain ⟨cat', holds', numbered', precedes, next⟩ := holds.stroke_spec numbered proper.1 (by omega)
    have trail' := trail.extend holds'.itemsIn_eq numbered' precedes
    obtain ⟨final, holds'', numbered'', trail''⟩ := ih holds' numbered' trail' proper.2 (by omega)
    rw [List.append_assoc] at trail''
    exact ⟨final, holds'', numbered'', trail''⟩

end Holds

def Draft.content (draft : Draft) : Content where
  header :=
    { Block.Header.fresh draft.kind draft.key.seq (UInt64.ofNat draft.start.size) draft.now with
      isComplete := draft.complete }
  body := draft.start

def Held.contents (l : Layout) (held : Held) : Contents := Catalog.contentsIn l held.region.bytes

open Catalog in
/-- A held store, with the states through which it has come, behaves as the ordered map that its bytes
are read as: each change under the lock changes the map at one reference, and each search is answered as
in the map. -/
structure Refines (l : Layout) (held : Held) (states : List SparseBytes) : Prop where
  lock : Hold.lock l held.region = .ok held.counters held.region
  /-- Every record is a binding of its own, in the order of the map. -/
  lists : (held.contents l).toList = (itemsIn l held.region.bytes).map Item.binding
  /-- A new block is one more binding, under a reference never used; a full store refuses it. -/
  insert : ∀ draft : Draft, draft.start.size ≤ l.capacity →
    ((held.contents l).size = l.maxBlocks.toNat ∧
      draft.insert l held = .error (.storeFull l.maxBlocks) held) ∨
    ∃ entry held', draft.insert l held = .ok entry held' ∧ entry.ref.key = draft.key ∧
      (∀ s ∈ states, entry.ref ∉ contentsIn l s) ∧
      held'.contents l = (held.contents l).insert entry.ref draft.content
  removeAt : ∀ pos b, (held.contents l).toList[pos]? = some b →
    ∃ entry held', Hold.removeAt l pos held = .ok entry held' ∧ entry.ref = b.1 ∧
      held'.contents l = (held.contents l).erase b.1
  erase : ∀ ref, ∃ held', Hold.erase l ref held = .ok ((held.contents l).contains ref) held' ∧
    held'.contents l = (held.contents l).erase ref
  /-- A header written into the slot of a block changes its binding. -/
  setHeader : ∀ pos b, (held.contents l).toList[pos]? = some b →
    ∀ header : Block.Header, header.used ≤ l.capacity →
      ∃ held', Hold.setHeader l (entryIn held.region.bytes pos).slot header held = .ok () held' ∧
        held'.contents l = (held.contents l).insert b.1
          ⟨header, bodyIn l held.region.bytes (entryIn held.region.bytes pos).slot header.used⟩
  /-- Bytes written into the payload area of a block change its binding; the area is not left. -/
  write : ∀ pos b, (held.contents l).toList[pos]? = some b → ∀ offset data,
    offset + data.size < UInt64.size → if offset + data.size ≤ l.capacity then
      ∃ held', Hold.writePayload l (entryIn held.region.bytes pos).slot offset data held =
          .ok () held' ∧
        held'.contents l = (held.contents l).insert b.1 (b.2.overwritten offset data)
    else Hold.writePayload l (entryIn held.region.bytes pos).slot offset data held =
      .error (.outOfBounds offset data.size l.capacity) held
  /-- A reference is resolved to the place of its binding and to its slot, or to nothing. -/
  resolve : ∀ ref,
    (ref ∉ held.contents l ∧ Hold.resolve ref held = .ok none held) ∨
    ∃ content pos entry, (held.contents l)[ref]? = some content ∧
      (held.contents l).toList[pos]? = some (ref, content) ∧
      (itemOf l held.region.bytes entry).binding = (ref, content) ∧
      Hold.resolve ref held = .ok (some (pos, entry)) held
  firstFrom : ∀ (v : Reading.View) key, v.layout = l → Reading.firstFrom v key held.region =
    .ok (((held.contents l).ceiling ⟨key, 0⟩).map (Binding.stored v)) held.region
  next : ∀ (v : Reading.View) ref, v.layout = l → Reading.next v ref held.region =
    .ok (((held.contents l).successor ref).map (Binding.stored v)) held.region
  nextMarker : ∀ (a : Attachment) now, a.layout = l → Attachment.nextMarker now (a, held.region) =
    .ok (((held.contents l).scan (a.view now) a.rotation).1.map (Binding.stored (a.view now)))
      ({ a with rotation := ((held.contents l).scan (a.view now) a.rotation).2 }, held.region)
  eraseUnlocked : ∀ (v : Reading.View) ref, v.layout = l →
    ∃ r', Reading.erase v ref held.region = .ok ((held.contents l).contains ref) r' ∧
      contentsIn l r'.bytes = (held.contents l).erase ref
  /-- A reference that was in use and was gone is never resolved again. -/
  gone : ∀ ref early mid, [early, mid].Sublist states → ref ∈ contentsIn l early →
    ref ∉ contentsIn l mid → Hold.resolve ref held = .ok none held

namespace Holds
open Catalog
variable {l : Layout} {held : Held} {cat : Catalog} (holds : Holds l held cat)
include holds

theorem contents_eq : held.contents l = cat.contents := by
  rw [Held.contents, contentsIn, holds.itemsIn_eq]
  rfl

variable (numbered : cat.Numbered)
include numbered

theorem toList_contents : (held.contents l).toList = cat.items.map Item.binding := by
  rw [holds.contents_eq]
  exact numbered.refs.toList_contents holds.ordered

theorem exists_of_binding {pos : Nat} {b : Binding} (there : (held.contents l).toList[pos]? = some b) :
    ∃ item, cat.items[pos]? = some item ∧ item.binding = b ∧
      (entryIn held.region.bytes pos).slot = item.slot := by
  rw [holds.toList_contents numbered, List.getElem?_map, Option.map_eq_some_iff] at there
  obtain ⟨item, here, same⟩ := there
  exact ⟨item, here, same, congrArg Entry.slot (holds.records here)⟩

theorem contains_eq (ref : Ref) : (cat.find? ref).isSome = (held.contents l).contains ref := by
  rw [Std.ExtTreeMap.contains_eq_isSome_getElem?, holds.contents_eq, numbered.refs.getElem?_contents,
    Option.isSome_map]

theorem insert_refines {states : List SparseBytes} (trail : Trail l states cat) (draft : Draft)
    (fits : draft.start.size ≤ l.capacity) :
    ((held.contents l).size = l.maxBlocks.toNat ∧
      draft.insert l held = .error (.storeFull l.maxBlocks) held) ∨
    ∃ entry held', draft.insert l held = .ok entry held' ∧ entry.ref.key = draft.key ∧
      (∀ s ∈ states, entry.ref ∉ contentsIn l s) ∧
      held'.contents l = (held.contents l).insert entry.ref draft.content := by
  cases next : cat.nextSlot? l with
  | none =>
    refine .inl ⟨?_, holds.insertBlock_full next ..⟩
    rw [← Std.ExtTreeMap.length_toList, holds.toList_contents numbered, List.length_map]
    exact holds.ordered.nextSlot?_eq_none_iff.mp next
  | some slot =>
    obtain ⟨held', inserted, holds'⟩ := holds.insertBlock_run next draft.kind draft.key draft.start
      draft.complete draft.now fits
    refine .inr ⟨_, held', inserted, rfl, trail.unused rfl, ?_⟩
    rw [holds'.contents_eq, holds.contents_eq]
    refine numbered.refs.contents_shelve fun other member same => ?_
    have lower := numbered.below other.entry (List.mem_map_of_mem member)
    rw [show other.entry.ref.generation = cat.nextGeneration from congrArg Ref.generation same] at lower
    exact UInt64.lt_irrefl _ lower

theorem resolve_refines (ref : Ref) :
    (ref ∉ held.contents l ∧ Hold.resolve ref held = .ok none held) ∨
    ∃ content pos entry, (held.contents l)[ref]? = some content ∧
      (held.contents l).toList[pos]? = some (ref, content) ∧
      (itemOf l held.region.bytes entry).binding = (ref, content) ∧
      Hold.resolve ref held = .ok (some (pos, entry)) held := by
  have resolved := holds.resolve_run ref
  have looked := numbered.refs.getElem?_contents ref
  rw [← holds.contents_eq] at looked
  cases found : cat.find? ref with
  | none =>
    rw [found] at resolved looked
    refine .inl ⟨?_, resolved⟩
    rw [Std.ExtTreeMap.mem_iff_isSome_getElem?, looked]
    exact Bool.false_ne_true
  | some item =>
    rw [found] at resolved looked
    obtain ⟨member, rfl⟩ := numbered.refs.find?_eq_some_iff.mp found
    refine .inr ⟨item.content, _, _, looked, ?_, ?_, resolved⟩
    · rw [holds.toList_contents numbered, List.getElem?_map, holds.ordered.getElem?_below found]
      rfl
    · rw [← holds.blocks item member]
      rfl

theorem removeAt_refines {pos : Nat} {b : Binding} (there : (held.contents l).toList[pos]? = some b) :
    ∃ entry held', Hold.removeAt l pos held = .ok entry held' ∧ entry.ref = b.1 ∧
      held'.contents l = (held.contents l).erase b.1 := by
  obtain ⟨item, here, rfl, _⟩ := holds.exists_of_binding numbered there
  obtain ⟨held', removed, holds'⟩ := holds.removeAt_run here
  refine ⟨_, held', removed, rfl, ?_⟩
  rw [numbered.refs.discard_eq holds.ordered here] at holds'
  rw [holds'.contents_eq, holds.contents_eq]
  exact numbered.refs.contents_erase holds.ordered item.ref

theorem erase_refines (ref : Ref) :
    ∃ held', Hold.erase l ref held = .ok ((held.contents l).contains ref) held' ∧
      held'.contents l = (held.contents l).erase ref := by
  obtain ⟨held', erased, holds'⟩ := holds.erase_run ref
  rw [holds.contains_eq numbered] at erased
  refine ⟨held', erased, ?_⟩
  rw [holds'.contents_eq, holds.contents_eq]
  exact numbered.refs.contents_erase holds.ordered ref

theorem setHeader_refines {pos : Nat} {b : Binding} (there : (held.contents l).toList[pos]? = some b)
    (header : Block.Header) (fits : header.used ≤ l.capacity) :
    ∃ held', Hold.setHeader l (entryIn held.region.bytes pos).slot header held = .ok () held' ∧
      held'.contents l = (held.contents l).insert b.1
        ⟨header, bodyIn l held.region.bytes (entryIn held.region.bytes pos).slot header.used⟩ := by
  obtain ⟨item, here, rfl, slot⟩ := holds.exists_of_binding numbered there
  have member := List.mem_of_getElem? here
  obtain ⟨held', headed, holds'⟩ := holds.setHeader_run member header fits
  rw [slot]
  refine ⟨held', headed, ?_⟩
  rw [holds'.contents_eq, holds.contents_eq]
  exact numbered.refs.contents_recast holds.ordered member _ _

theorem write_refines {pos : Nat} {b : Binding} (there : (held.contents l).toList[pos]? = some b)
    (offset : Nat) (data : ByteArray) (word : offset + data.size < UInt64.size) :
    if offset + data.size ≤ l.capacity then
      ∃ held', Hold.writePayload l (entryIn held.region.bytes pos).slot offset data held =
          .ok () held' ∧
        held'.contents l = (held.contents l).insert b.1 (b.2.overwritten offset data)
    else Hold.writePayload l (entryIn held.region.bytes pos).slot offset data held =
      .error (.outOfBounds offset data.size l.capacity) held := by
  obtain ⟨item, here, rfl, slot⟩ := holds.exists_of_binding numbered there
  have member := List.mem_of_getElem? here
  rw [slot]
  split
  · next fits =>
    obtain ⟨held', wrote, holds'⟩ := holds.overwrite_run member fits
    refine ⟨held', wrote, ?_⟩
    rw [holds'.contents_eq, holds.contents_eq]
    exact numbered.refs.contents_recast holds.ordered member _ _
  · next long => exact Hold.writePayload_refused (Nat.not_le.mp long) word held

theorem firstFrom_refines {v : Reading.View} (same : v.layout = l) (key : FlowKey) :
    Reading.firstFrom v key held.region =
      .ok (((held.contents l).ceiling ⟨key, 0⟩).map (Binding.stored v)) held.region := by
  subst same
  rw [Reading.firstFrom_run holds.carries key, holds.contents_eq,
    numbered.refs.ceiling_contents holds.ordered, Option.map_map]
  rfl

theorem next_refines {v : Reading.View} (same : v.layout = l) (ref : Ref) :
    Reading.next v ref held.region =
      .ok (((held.contents l).successor ref).map (Binding.stored v)) held.region := by
  subst same
  rw [Reading.next_run holds.carries ref, holds.contents_eq,
    numbered.refs.successor_contents holds.ordered, Option.map_map]
  rfl

theorem nextMarker_refines {a : Attachment} (same : a.layout = l) (now : Micros) :
    Attachment.nextMarker now (a, held.region) =
      .ok (((held.contents l).scan (a.view now) a.rotation).1.map (Binding.stored (a.view now)))
        ({ a with rotation := ((held.contents l).scan (a.view now) a.rotation).2 }, held.region) := by
  subst same
  rw [Attachment.nextMarker_run holds.carries now, holds.contents_eq,
    numbered.refs.scan_contents holds.ordered, Option.map_map]
  rfl

theorem eraseUnlocked_refines {v : Reading.View} (same : v.layout = l) (ref : Ref) :
    ∃ r', Reading.erase v ref held.region = .ok ((held.contents l).contains ref) r' ∧
      contentsIn l r'.bytes = (held.contents l).erase ref := by
  subst same
  obtain ⟨r', erased, carries'⟩ := Reading.erase_run holds.carries ref
  rw [holds.contains_eq numbered] at erased
  have holds' : Holds v.layout ⟨r', countersIn r'.bytes⟩ (cat.erase ref) := carries'
  refine ⟨r', erased, holds'.contents_eq.trans ?_⟩
  rw [holds.contents_eq]
  exact numbered.refs.contents_erase holds.ordered ref

theorem refines {states : List SparseBytes} (trail : Trail l states cat) : Refines l held states where
  lock := by
    have locked := holds.carries.lock_run
    rw [holds.front.counters] at locked
    exact locked
  lists := by rw [holds.toList_contents numbered, holds.itemsIn_eq]
  insert := holds.insert_refines numbered trail
  removeAt _ _ there := holds.removeAt_refines numbered there
  erase := holds.erase_refines numbered
  setHeader _ _ there := holds.setHeader_refines numbered there
  write _ _ there := holds.write_refines numbered there
  resolve := holds.resolve_refines numbered
  firstFrom _ key same := holds.firstFrom_refines numbered same key
  next _ ref same := holds.next_refines numbered same ref
  nextMarker _ now same := holds.nextMarker_refines numbered same now
  eraseUnlocked _ ref same := holds.eraseUnlocked_refines numbered same ref
  gone ref early mid order used erased := by
    have resolved := holds.resolve_run ref
    rw [trail.gone order used erased] at resolved
    exact resolved

end Holds

end Reassembly.Store

namespace Reassembly.Commons

open Store Catalog

def trail (c : Commons) : List Move → List SparseBytes
  | [] => []
  | move :: rest => (c.step move).bytes :: (c.step move).trail rest

variable {l : Layout} {c : Commons} {cat : Catalog}

theorem Carrying.step_precedes (carrying : Carrying l c cat) (numbered : cat.Numbered) (move : Move)
    (last : cat.nextGeneration.toNat + c.added move < UInt64.size) :
    ∃ cat', Carrying l (c.step move) cat' ∧ cat'.Numbered ∧ cat.Precedes cat' ∧
      cat'.nextGeneration.toNat ≤ cat.nextGeneration.toNat + c.added move := by
  obtain ⟨cat', carrying', ⟨count, written⟩ | ⟨index, ref, now, rfl, rfl⟩⟩ := carrying.step_written move
  · have drawn : c.added move = count := by
      rw [added, ← carrying'.count, ← carrying.count, written.length]
      omega
    rw [drawn] at last ⊢
    obtain ⟨numbered', precedes⟩ := written.numbered numbered last
    refine ⟨cat', carrying', numbered', precedes, ?_⟩
    rw [written.nextGeneration, toNat_add_ofNat last]
  · refine ⟨_, carrying', numbered.erase ref, .erase cat ref, ?_⟩
    rw [nextGeneration_erase]
    exact Nat.le_add_right _ _

theorem Carrying.run_trail (carrying : Carrying l c cat) (numbered : cat.Numbered)
    {states : List SparseBytes} (trail : Trail l states cat) (moves : List Move)
    (last : cat.nextGeneration.toNat + c.addedBy moves < UInt64.size) :
    ∃ cat', Carrying l (c.run moves) cat' ∧ cat'.Numbered ∧ Trail l (states ++ c.trail moves) cat' ∧
      cat'.nextGeneration.toNat ≤ cat.nextGeneration.toNat + c.addedBy moves := by
  induction moves generalizing c cat states with
  | nil =>
    rw [Commons.trail, List.append_nil]
    exact ⟨cat, carrying, numbered, trail, Nat.le_refl _⟩
  | cons move rest ih =>
    rw [addedBy] at last ⊢
    obtain ⟨cat', carrying', numbered', precedes, next⟩ :=
      carrying.step_precedes numbered move (by omega)
    have trail' := trail.extend carrying'.carries.itemsIn_eq numbered' precedes
    obtain ⟨final, carrying'', numbered'', trail'', bound⟩ := ih carrying' numbered' trail' (by omega)
    rw [List.append_assoc] at trail''
    exact ⟨final, carrying'', numbered'', trail'', by omega⟩

def locked (c : Commons) (a : Attachment) : Held :=
  ⟨⟨a.handle, c.bytes⟩, countersIn c.bytes⟩

/-- Whatever handles have done to a region since it was formatted, and whatever one of them has done
under the lock since it took it, the region behaves as the ordered map that its bytes are read as, as
long as fewer than `2 ^ 64` blocks were added. -/
theorem Fresh.refines_ordered_map (fresh : c.Fresh) (moves : List Move) {a : Attachment}
    (attached : a ∈ (c.run moves).handles) (strokes : List Stroke)
    (proper : Stroke.AllProper a.layout ((c.run moves).locked a) strokes)
    (few : c.addedBy moves + Stroke.addedBy a.layout ((c.run moves).locked a) strokes < UInt64.size) :
    Refines a.layout (Stroke.run a.layout ((c.run moves).locked a) strokes)
      (c.bytes :: c.trail moves ++ Stroke.trail a.layout ((c.run moves).locked a) strokes) := by
  obtain ⟨l, carrying⟩ := fresh.carrying
  have start : Catalog.empty.nextGeneration.toNat = 0 := rfl
  obtain ⟨cat, carrying', numbered, trail, next⟩ := carrying.run_trail .empty
    (Trail.single carrying.carries.itemsIn_eq .empty) moves (by omega)
  obtain ⟨rfl, -, -⟩ := carrying'.tidy a attached
  have holds : Holds a.layout ((c.run moves).locked a) cat := carrying'.seen attached
  obtain ⟨final, holds', numbered', trail'⟩ := holds.strokes_spec numbered trail strokes proper (by omega)
  exact holds'.refines numbered' trail'

/-- A block is erased, and another takes its slot under the same key; then, under the lock, that one is
erased and a third is stored. -/
theorem refines_ordered_map_reused :
    ∃ (c : Commons) (moves : List Move) (a : Attachment) (strokes : List Stroke),
      c.Fresh ∧ a ∈ (c.run moves).handles ∧
      Stroke.AllProper a.layout ((c.run moves).locked a) strokes ∧
      c.addedBy moves + Stroke.addedBy a.layout ((c.run moves).locked a) strokes < UInt64.size ∧
      (itemsIn a.layout (c.run moves).bytes).map Item.ref =
        [⟨.pack ⟨7⟩ .source ⟨100⟩, 0⟩, ⟨.pack ⟨7⟩ .source ⟨100⟩, 2⟩] ∧
      Refines a.layout (Stroke.run a.layout ((c.run moves).locked a) strokes)
        (c.bytes :: c.trail moves ++ Stroke.trail a.layout ((c.run moves).locked a) strokes) := by
  have divided : Attachment.layoutFor { blockCapacity := 64, maxBlocks := 2 } =
      .ok ⟨64, 2, by decide, by decide, by decide⟩ := rfl
  obtain ⟨start, fresh, handles, carrying⟩ := Fresh.of_config rfl divided
  let operations : List Operation := [.put ⟨⟨7⟩, .source, ⟨100⟩, ⟨#[3, 4, 5]⟩⟩ 1000000,
    .sweep 2000000, .erase ⟨.pack ⟨7⟩ .source ⟨100⟩, 1⟩ 2000000,
    .put ⟨⟨7⟩, .source, ⟨100⟩, ⟨#[6]⟩⟩ 2000001]
  let strokes : List Stroke := [.erase ⟨.pack ⟨7⟩ .source ⟨100⟩, 2⟩,
    .insert ⟨.l4Payload, .pack ⟨7⟩ .source ⟨100⟩, .empty, false, 2000002⟩]
  let l : Layout := ⟨64, 2, by decide, by decide, by decide⟩
  let shared := Operation.effects
    (.fresh ⟨l.required, .memory 0⟩ l { blockCapacity := 64, maxBlocks := 2 }) .empty operations
  obtain ⟨attached, carrying'⟩ := carrying.alone handles operations
  have member : shared.1 ∈ (start.run (operations.map (.operate 0))).handles :=
    attached.symm ▸ List.mem_singleton_self _
  have proper (held : Held) : Stroke.AllProper shared.1.layout held strokes :=
    ⟨trivial, Nat.zero_le _, trivial⟩
  have few (held : Held) : start.addedBy (operations.map (.operate 0)) +
      Stroke.addedBy shared.1.layout held strokes < UInt64.size := by
    have moved := carrying.addedBy_le (operations.map (.operate 0))
    have stroked := Stroke.addedBy_le (l := shared.1.layout) held strokes
    have blocks : 4 * UInt32.toNat 2 + 2 * UInt32.size < UInt64.size := by decide
    exact Nat.lt_of_le_of_lt (Nat.add_le_add moved stroked) blocks
  have refs : shared.2.items.map Item.ref =
      [⟨.pack ⟨7⟩ .source ⟨100⟩, 0⟩, ⟨.pack ⟨7⟩ .source ⟨100⟩, 2⟩] := by decide +kernel
  refine ⟨start, operations.map (.operate 0), shared.1, strokes, fresh, member, proper _, few _, ?_,
    fresh.refines_ordered_map _ member strokes (proper _) (few _)⟩
  rw [(carrying'.seen member).itemsIn_eq]
  exact refs

end Reassembly.Commons
