import Mathlib.Data.List.Sort
import Reassembly.Proofs.Consulting
import Reassembly.Proofs.Numbering

/-!
A store as an ordered map. What the bytes of a region hold is read as a finite map from references to
headers and used payload bytes, in the order of the references. While no two blocks share a reference,
the map lists the blocks of the catalog; changes of the catalog are insertions and deletions, and the
places that searches lead to are what the same searches in the map find.
-/

namespace Reassembly

namespace Ref

instance : Ord Ref := ⟨compareOn Ref.rank⟩

instance : Std.TransOrd Ref := inferInstanceAs (Std.TransCmp (compareOn Ref.rank))

theorem compare_eq (a b : Ref) : compare a b = compare a.rank b.rank := by
  -- stated for any measure, so that no rank is unfolded
  have measured (measure : Ref → Nat) : compareOn measure a b = compare (measure a) (measure b) := rfl
  exact measured rank

instance : Std.LawfulEqOrd Ref where
  eq_of_compare {a b} same := by
    rw [compare_eq] at same
    exact rank_injective (Std.LawfulEqOrd.eq_of_compare same)

theorem compare_eq_lt_iff (a b : Ref) : compare a b = .lt ↔ a.rank < b.rank := by
  rw [compare_eq, Nat.compare_eq_lt]

end Ref

namespace Store

structure Content where
  header : Block.Header
  body : ByteArray
  deriving DecidableEq

abbrev Binding := Ref × Content

namespace Binding

def stored (v : Reading.View) (b : Binding) : Stored :=
  ⟨b.1, b.2.header, b.2.body, b.2.header.isReady v.now v.idle⟩

def isReadyMarker (v : Reading.View) (b : Binding) : Bool :=
  b.2.header.kind = .startFlow && b.2.header.isReady v.now v.idle

end Binding

/-- What blocks hold, by their references and in the order of these. -/
abbrev Contents := Std.ExtTreeMap Ref Content

namespace Contents

/-- The first binding that is not before a reference, else the first of all. -/
def ceiling (m : Contents) (target : Ref) : Option Binding :=
  (m.toList.find? fun b => !b.1.before target).or m.toList.head?

/-- The first binding behind a reference, else the first of all; none if that is the reference's own. -/
def successor (m : Contents) (ref : Ref) : Option Binding :=
  ((m.toList.find? fun b => ref.before b.1).or m.toList.head?).filter fun b => b.1 ≠ ref

def round (m : Contents) : Option Ref → List Binding
  | none => m.toList
  | some ref => (m.toList.filter fun b => ref.before b.1) ++ m.toList.filter fun b => !ref.before b.1

/-- The first ready marker of a round, and the reference where looking stopped. -/
def scan (m : Contents) (v : Reading.View) (from? : Option Ref) : Option Binding × Option Ref :=
  match (m.round from?).find? (Binding.isReadyMarker v) with
  | some marker => (some marker, some marker.1)
  | none => (none, ((m.round from?).getLast?.map Prod.fst).or from?)

end Contents

namespace Item

def content (item : Item) : Content := ⟨item.header, item.body⟩

def binding (item : Item) : Binding := (item.ref, item.content)

end Item

namespace Catalog

def contents (cat : Catalog) : Contents := .ofList (cat.items.map Item.binding)

/-- What a region holds, read through a layout. -/
def contentsIn (l : Layout) (s : SparseBytes) : Contents := .ofList ((itemsIn l s).map Item.binding)

variable {l : Layout} {cat : Catalog}

theorem mem_contentsIn {s : SparseBytes} {ref : Ref} :
    ref ∈ contentsIn l s ↔ ∃ item ∈ itemsIn l s, item.ref = ref := by
  rw [contentsIn, Std.ExtTreeMap.mem_ofList, List.contains_eq_mem, decide_eq_true_eq, List.map_map,
    List.mem_map]
  rfl

theorem Distinct.find?_eq_some_iff (separate : cat.Distinct) {ref : Ref} {item : Item} :
    cat.find? ref = some item ↔ item ∈ cat.items ∧ item.ref = ref := by
  constructor
  · exact fun found => ⟨mem_of_find? found, ref_of_find? found⟩
  · rintro ⟨member, rfl⟩
    exact separate.find?_ref member

theorem Distinct.getElem?_contents (separate : cat.Distinct) (ref : Ref) :
    cat.contents[ref]? = (cat.find? ref).map Item.content := by
  cases found : cat.find? ref with
  | none =>
    refine Std.ExtTreeMap.getElem?_ofList_of_contains_eq_false ?_
    rw [List.contains_eq_mem, decide_eq_false_iff_not, List.map_map, List.mem_map]
    rintro ⟨item, member, same⟩
    exact of_decide_eq_false (Bool.eq_false_iff.mpr (List.find?_eq_none.mp found item member)) same
  | some item =>
    obtain ⟨member, rfl⟩ := separate.find?_eq_some_iff.mp found
    refine Std.ExtTreeMap.getElem?_ofList_of_mem Std.ReflCmp.compare_self ?_ (List.mem_map_of_mem member)
    refine List.pairwise_map.mpr (separate.imp fun {a b} apart same => apart ?_)
    exact Std.LawfulEqOrd.eq_of_compare same

theorem Distinct.toList_contents (separate : cat.Distinct) (ordered : cat.Ordered l) :
    cat.contents.toList = cat.items.map Item.binding := by
  have irreflexive : Std.Irrefl fun a b : Binding => a.1.rank < b.1.rank := ⟨fun _ => Nat.lt_irrefl _⟩
  have antisymmetric : Std.Antisymm fun a b : Binding => a.1.rank < b.1.rank :=
    ⟨fun _ _ less more => absurd less (Nat.lt_asymm more)⟩
  refine List.Pairwise.eq_of_mem_iff (r := fun a b : Binding => a.1.rank < b.1.rank) ?_ ?_ ?_
  · exact Std.ExtTreeMap.ordered_keys_toList.imp fun less => (Ref.compare_eq_lt_iff _ _).mp less
  · exact List.pairwise_map.mpr (separate.strict ordered)
  · rintro ⟨ref, content⟩
    rw [Std.ExtTreeMap.mem_toList_iff_getElem?_eq_some, separate.getElem?_contents,
      Option.map_eq_some_iff, List.mem_map]
    constructor
    · rintro ⟨item, found, rfl⟩
      obtain ⟨member, rfl⟩ := separate.find?_eq_some_iff.mp found
      exact ⟨item, member, rfl⟩
    · rintro ⟨item, member, same⟩
      obtain ⟨rfl, rfl⟩ := Prod.mk.inj same
      exact ⟨item, separate.find?_ref member, rfl⟩

theorem Distinct.contents_eq (separate : cat.Distinct) {m : Contents}
    (same : ∀ ref, (cat.find? ref).map Item.content = m[ref]?) : cat.contents = m :=
  Std.ExtTreeMap.ext_getElem? fun ref => (separate.getElem?_contents ref).trans (same ref)

theorem Distinct.shelve (separate : cat.Distinct) {item : Item}
    (unused : ∀ other ∈ cat.items, other.ref ≠ item.ref) : (cat.shelve item).Distinct := by
  refine ((perm_file cat.items item).pairwise_iff fun apart => apart.symm).mpr ?_
  exact List.pairwise_cons.mpr ⟨fun other member => (unused other member).symm, separate⟩

theorem Distinct.contents_shelve (separate : cat.Distinct) {item : Item}
    (unused : ∀ other ∈ cat.items, other.ref ≠ item.ref) :
    (cat.shelve item).contents = cat.contents.insert item.ref item.content := by
  have separate' := separate.shelve unused
  refine separate'.contents_eq fun ref => ?_
  rw [Std.ExtTreeMap.getElem?_insert, separate.getElem?_contents]
  simp only [Std.LawfulEqCmp.compare_eq_iff_eq]
  split
  · next same =>
    subst same
    rw [separate'.find?_ref (mem_file.mpr (.inl rfl))]
    rfl
  · next apart =>
    congr 1
    refine Option.ext fun other => ?_
    rw [separate'.find?_eq_some_iff, separate.find?_eq_some_iff, Catalog.shelve, mem_file]
    constructor
    · rintro ⟨rfl | old, named⟩
      · exact absurd named apart
      · exact ⟨old, named⟩
    · rintro ⟨old, named⟩
      exact ⟨.inr old, named⟩

theorem Distinct.recast (separate : cat.Distinct) (slot : UInt32) (header : Block.Header)
    (body : ByteArray) : (cat.recast slot header body).Distinct := by
  have entries {items : List Item} : (items.Pairwise fun a b => a.ref ≠ b.ref) ↔
      (items.map Item.entry).Pairwise fun a b => a.ref ≠ b.ref := by rw [List.pairwise_map]
  rw [Distinct, entries, map_entry_recast, ← entries]
  exact separate

theorem Distinct.contents_recast (separate : cat.Distinct) (ordered : cat.Ordered l) {item : Item}
    (member : item ∈ cat.items) (header : Block.Header) (body : ByteArray) :
    (cat.recast item.slot header body).contents = cat.contents.insert item.ref ⟨header, body⟩ := by
  have separate' := separate.recast item.slot header body
  refine separate'.contents_eq fun ref => ?_
  rw [Std.ExtTreeMap.getElem?_insert, separate.getElem?_contents]
  simp only [Std.LawfulEqCmp.compare_eq_iff_eq]
  split
  · next same =>
    subst same
    have there : (⟨item.entry, header, body⟩ : Item) ∈ (cat.recast item.slot header body).items :=
      mem_recast.mpr (.inl ⟨item, member, rfl, rfl⟩)
    exact congrArg (Option.map Item.content) (separate'.find?_ref there)
  · next apart =>
    congr 1
    refine Option.ext fun other => ?_
    rw [separate'.find?_eq_some_iff, separate.find?_eq_some_iff, mem_recast]
    constructor
    · rintro ⟨⟨old, known, here, rfl⟩ | ⟨known, _⟩, named⟩
      · obtain rfl := ordered.eq_of_slot known member here
        exact absurd named apart
      · exact ⟨known, named⟩
    · rintro ⟨known, named⟩
      refine ⟨.inr ⟨known, fun here => apart ?_⟩, named⟩
      rw [← named, ordered.eq_of_slot known member here]

theorem Distinct.contents_erase (separate : cat.Distinct) (ordered : cat.Ordered l) (target : Ref) :
    (cat.erase target).contents = cat.contents.erase target := by
  have separate' := separate.erase target
  refine separate'.contents_eq fun ref => ?_
  rw [Std.ExtTreeMap.getElem?_erase, separate.getElem?_contents]
  simp only [Std.LawfulEqCmp.compare_eq_iff_eq]
  have kept (item : Item) : item ∈ (cat.erase target).items ↔ item ∈ cat.items ∧ item.ref ≠ target := by
    rw [separate.items_erase ordered, List.mem_filter, decide_eq_true_eq]
  split
  · next same =>
    subst same
    refine Option.map_eq_none_iff.mpr (List.find?_eq_none.mpr fun item member => ?_)
    simpa using ((kept item).mp member).2
  · next apart =>
    congr 1
    refine Option.ext fun item => ?_
    rw [separate'.find?_eq_some_iff, separate.find?_eq_some_iff, kept]
    constructor
    · exact fun ⟨⟨old, _⟩, named⟩ => ⟨old, named⟩
    · exact fun ⟨old, named⟩ => ⟨⟨old, fun same => apart (same.symm.trans named)⟩, named⟩

end Catalog

theorem Falling.getElem?_countP {α : Type} {test : α → Bool} {xs : List α} (falling : Falling test xs) :
    xs[xs.countP test % xs.length]? = (xs.find? fun a => !test a).or xs.head? := by
  have found : (xs.find? fun a => !test a) = xs[xs.countP test]? := by
    rw [← List.head?_filter, ← falling.drop_countP, List.head?_drop]
  have within : xs.countP test ≤ xs.length := List.countP_le_length
  rcases Nat.lt_or_eq_of_le within with inside | none_left
  · rw [Nat.mod_eq_of_lt inside, found, List.getElem?_eq_getElem inside, Option.some_or]
  · rw [none_left, Nat.mod_self, found, none_left, List.getElem?_eq_none (Nat.le_refl _), Option.none_or,
      List.head?_eq_getElem?]

namespace Catalog

variable {l : Layout} {cat : Catalog} (separate : cat.Distinct) (ordered : cat.Ordered l)
include separate ordered

theorem Distinct.ceiling_contents (key : FlowKey) :
    cat.contents.ceiling ⟨key, 0⟩ = (cat.firstFrom? key).map Item.binding := by
  have cut := (ordered.sorted.falling_before ⟨key, 0⟩).getElem?_countP
  rw [firstFrom?, below, cut, Contents.ceiling, separate.toList_contents ordered, List.find?_map,
    List.head?_map, Option.map_or]
  rfl

theorem Distinct.successor_contents (ref : Ref) :
    cat.contents.successor ref = (cat.next? ref).map Item.binding := by
  have cut := (ordered.sorted.falling_upTo ref).getElem?_countP
  have tests : (fun item : Item => !item.ref.upTo ref) = fun item => ref.before item.ref := by
    funext item
    rw [Ref.upTo, Bool.not_not]
  rw [tests] at cut
  rw [next?, through, cut, Contents.successor, separate.toList_contents ordered, List.find?_map,
    List.head?_map, ← Option.map_or, Option.filter_map]
  rfl

theorem Distinct.round_contents (from? : Option Ref) :
    cat.contents.round from? = (cat.rotated from?).map Item.binding := by
  cases from? with
  | none =>
    show cat.contents.toList = (cat.items.drop 0 ++ cat.items.take 0).map Item.binding
    rw [separate.toList_contents ordered, List.drop_zero, List.take_zero, List.append_nil]
  | some ref =>
    have falling := ordered.sorted.falling_upTo ref
    have parts : cat.rotated (some ref) = (cat.items.filter fun item => ref.before item.ref) ++
        cat.items.filter fun item => !ref.before item.ref := by
      have behind := falling.drop_countP
      have upTo := falling.take_countP
      rw [← through] at behind upTo
      simp only [Ref.upTo, Bool.not_not] at behind upTo
      have turned : cat.rotated (some ref) = cat.items.drop (cat.through ref % cat.items.length) ++
          cat.items.take (cat.through ref % cat.items.length) := rfl
      rw [turned, ← behind, ← upTo]
      rcases Nat.lt_or_eq_of_le (cat.through_le ref) with inside | none_left
      · rw [Nat.mod_eq_of_lt inside]
      · rw [none_left, Nat.mod_self, List.drop_length, List.take_length, List.drop_zero, List.take_zero,
          List.append_nil, List.nil_append]
    rw [parts, Contents.round, separate.toList_contents ordered, List.filter_map, List.filter_map,
      List.map_append]
    rfl

theorem Distinct.scan_contents (v : Reading.View) (from? : Option Ref) :
    cat.contents.scan v from? =
      ((Item.turn v (cat.rotated from?) from?).1.map Item.binding,
        (Item.turn v (cat.rotated from?) from?).2) := by
  have test : Binding.isReadyMarker v ∘ Item.binding = Item.isReadyMarker v := rfl
  rw [Contents.scan, separate.round_contents ordered, List.find?_map, test, Item.turn_eq]
  cases (cat.rotated from?).find? (Item.isReadyMarker v) with
  | some item => rfl
  | none =>
    rw [List.getLast?_map, Option.map_none, Option.map_map]
    rfl

end Catalog

end Store

end Reassembly
