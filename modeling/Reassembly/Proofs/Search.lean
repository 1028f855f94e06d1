import Reassembly.Proofs.Catalog

/-!
Searches in a store that carries a catalog. Halving the records finds the first that fails a test which
the records pass up to some place; so the positions that the searches give are counts of the records
that pass, and the records before and behind them are the catalog filtered.
-/

namespace Reassembly

namespace Ref

theorem rank_injective {a b : Ref} (same : a.rank = b.rank) : a = b := by
  have ha := a.generation.toNat_lt
  have hb := b.generation.toNat_lt
  simp only [rank] at same
  have keys : a.key.raw.toNat = b.key.raw.toNat := by omega
  have generations : a.generation.toNat = b.generation.toNat := by omega
  have key : a.key = b.key := congrArg FlowKey.mk (UInt64.toNat_inj.mp keys)
  cases a
  cases b
  exact congr (congrArg Ref.mk key) (UInt64.toNat_inj.mp generations)

theorem upTo_iff (a b : Ref) : upTo a b = true ↔ a.rank ≤ b.rank := by
  rw [upTo, Bool.not_eq_true', ← Bool.not_eq_true, before_iff, Nat.not_lt]

end Ref

namespace Store

def Falling {α : Type} (test : α → Bool) (xs : List α) : Prop :=
  xs.Pairwise fun a b => test b = true → test a = true

namespace Falling
variable {α : Type} {test : α → Bool} {xs : List α}

theorem countP_eq_zero {a : α} (falling : Falling test (a :: xs)) (fails : ¬ test a = true) :
    xs.countP test = 0 :=
  List.countP_eq_zero.mpr fun b member passes =>
    fails ((List.pairwise_cons.mp falling).1 b member passes)

theorem lt_countP_iff (falling : Falling test xs) {place : Nat} (inside : place < xs.length) :
    place < xs.countP test ↔ test xs[place] = true := by
  induction xs generalizing place with
  | nil => exact absurd inside (Nat.not_lt_zero _)
  | cons a xs ih =>
    have rest : Falling test xs := (List.pairwise_cons.mp falling).2
    by_cases passes : test a = true
    · rw [List.countP_cons_of_pos passes]
      cases place with
      | zero => simpa using passes
      | succ place =>
        rw [List.getElem_cons_succ, ← ih rest (by simpa using inside)]
        omega
    · have empty := falling.countP_eq_zero passes
      rw [List.countP_cons_of_neg passes, empty]
      cases place with
      | zero => simpa using passes
      | succ place =>
        rw [List.getElem_cons_succ, ← ih rest (by simpa using inside), empty]
        omega

theorem take_countP (falling : Falling test xs) : xs.take (xs.countP test) = xs.filter test := by
  induction xs with
  | nil => rfl
  | cons a xs ih =>
    have rest : Falling test xs := (List.pairwise_cons.mp falling).2
    by_cases passes : test a = true
    · rw [List.countP_cons_of_pos passes, List.take_succ_cons, ih rest,
        List.filter_cons_of_pos passes]
    · have empty := falling.countP_eq_zero passes
      rw [List.countP_cons_of_neg passes, List.filter_cons_of_neg passes, empty, List.take_zero]
      exact (List.filter_eq_nil_iff.mpr (List.countP_eq_zero.mp empty)).symm

theorem drop_countP (falling : Falling test xs) :
    xs.drop (xs.countP test) = xs.filter fun a => !test a := by
  induction xs with
  | nil => rfl
  | cons a xs ih =>
    have rest : Falling test xs := (List.pairwise_cons.mp falling).2
    by_cases passes : test a = true
    · rw [List.countP_cons_of_pos passes, List.drop_succ_cons, ih rest,
        List.filter_cons_of_neg (by simpa using passes)]
    · have empty := List.countP_eq_zero.mp (falling.countP_eq_zero passes)
      rw [List.countP_cons_of_neg passes, falling.countP_eq_zero passes, List.drop_zero,
        List.filter_cons_of_pos (by simpa using passes)]
      exact congrArg _ (List.filter_eq_self.mpr fun b member => by simpa using empty b member).symm

end Falling

namespace Catalog
variable (cat : Catalog) (target : Ref)

def below : Nat := cat.items.countP fun item => item.ref.before target

def through : Nat := cat.items.countP fun item => item.ref.upTo target

def find? : Option Item := cat.items.find? fun item => item.ref = target

theorem below_le : cat.below target ≤ cat.items.length := List.countP_le_length

theorem through_le : cat.through target ≤ cat.items.length := List.countP_le_length

variable {cat target}

theorem mem_of_find? {item : Item} (found : cat.find? target = some item) : item ∈ cat.items :=
  List.mem_of_find?_eq_some found

theorem ref_of_find? {item : Item} (found : cat.find? target = some item) : item.ref = target := by
  simpa using List.find?_some found

namespace Sorted
variable {items : List Item} (sorted : Sorted items)
include sorted

theorem falling_before (target : Ref) : Falling (fun item : Item => item.ref.before target) items :=
  sorted.imp fun {a b} le passes => by
    rw [Ref.before_iff] at passes ⊢
    exact le.trans_lt passes

theorem falling_upTo (target : Ref) : Falling (fun item : Item => item.ref.upTo target) items :=
  sorted.imp fun {a b} le passes => by
    rw [Ref.upTo_iff] at passes ⊢
    exact le.trans passes

end Sorted

variable {l : Layout} (ordered : cat.Ordered l)
include ordered

theorem Ordered.find?_eq (target : Ref) :
    cat.find? target = cat.items[cat.below target]?.filter fun item => item.ref = target := by
  have falling := ordered.sorted.falling_before target
  have parts : cat.items = cat.items.take (cat.below target) ++ cat.items.drop (cat.below target) :=
    (List.take_append_drop ..).symm
  have before : (cat.items.take (cat.below target)).find? (fun item => item.ref = target) = none := by
    rw [Catalog.below, falling.take_countP, List.find?_eq_none]
    intro item member same
    have lower := (List.mem_filter.mp member).2
    rw [Ref.before_iff, of_decide_eq_true same] at lower
    exact Nat.lt_irrefl _ lower
  have head : cat.items[cat.below target]? = (cat.items.drop (cat.below target)).head? := by
    rw [List.head?_drop]
  rw [find?, parts, List.find?_append, before, Option.none_or, ← parts, head]
  cases rest : cat.items.drop (cat.below target) with
  | nil => rfl
  | cons item others =>
    by_cases same : item.ref = target
    · simp [same, Option.filter_some]
    · have sorted := ordered.sorted.sublist (List.drop_sublist (cat.below target) cat.items)
      rw [rest] at sorted
      have member : item ∈ cat.items.filter fun item => !item.ref.before target := by
        rw [← falling.drop_countP]
        exact rest ▸ List.mem_cons_self
      have reached : target.rank ≤ item.ref.rank := by
        have := (List.mem_filter.mp member).2
        rw [Bool.not_eq_true', ← Bool.not_eq_true, Ref.before_iff] at this
        exact Nat.not_lt.mp this
      have beyond : others.find? (fun other => other.ref = target) = none := by
        rw [List.find?_eq_none]
        intro other later hit
        have le := (List.pairwise_cons.mp sorted).1 other later
        rw [of_decide_eq_true hit] at le
        exact same (Ref.rank_injective (Nat.le_antisymm le reached))
      simp [same, beyond, Option.filter_some]

theorem Ordered.getElem?_below {target : Ref} {item : Item} (found : cat.find? target = some item) :
    cat.items[cat.below target]? = some item := by
  rw [ordered.find?_eq, Option.filter_eq_some_iff] at found
  exact found.1

end Catalog

namespace Filed
variable {l : Layout} {r : Region} {items : List Item} (filed : Filed l r items)
include filed

theorem partitionPoint_run {test : Ref → Bool}
    (falling : Falling (fun item : Item => test item.ref) items) {lo hi : Nat}
    (low : lo ≤ items.countP fun item => test item.ref)
    (high : items.countP (fun item => test item.ref) ≤ hi) (inside : hi ≤ items.length) :
    Directory.partitionPoint test lo hi r = .ok (items.countP fun item => test item.ref) r := by
  generalize size_eq : hi - lo = size
  induction size using Nat.strongRecOn generalizing lo hi with
  | ind size ih =>
    rw [Directory.partitionPoint]
    split
    · next nonempty =>
      have live : lo + (hi - lo) / 2 < items.length := by omega
      have place := falling.lt_countP_iff live
      simp only [Work.bind_ok (filed.refAt_run live)]
      split
      · next passes => exact ih _ (by omega) (place.mpr passes) high inside rfl
      · next fails => exact ih _ (by omega) low (Nat.not_lt.mp (mt place.mp fails)) (by omega) rfl
    · next empty =>
      have same : lo = items.countP fun item => test item.ref := by omega
      rw [← same]
      rfl

theorem lowerBound_run (target : Ref) :
    Directory.lowerBound items.length target r =
      .ok (items.countP fun item => item.ref.before target) r :=
  filed.partitionPoint_run (filed.sorted.falling_before target)
    (Nat.zero_le _) List.countP_le_length (Nat.le_refl _)

theorem upperBound_run (target : Ref) :
    Directory.upperBound items.length target r =
      .ok (items.countP fun item => item.ref.upTo target) r :=
  filed.partitionPoint_run (filed.sorted.falling_upTo target)
    (Nat.zero_le _) List.countP_le_length (Nat.le_refl _)

end Filed

namespace Indexes
open Catalog
variable {l : Layout} {held : Held} {cat : Catalog} (indexes : Indexes l held cat.items)
include indexes

theorem count_run : Hold.count held = .ok cat.items.length held := by
  rw [indexes.count]
  rfl

theorem lowerBound_run (target : Ref) : Hold.lowerBound target held = .ok (cat.below target) held := by
  rw [Hold.lowerBound, Work.bind_ok indexes.count_run]
  exact Hold.onRegion_ok (indexes.filed.lowerBound_run target)

theorem upperBound_run (target : Ref) :
    Hold.upperBound target held = .ok (cat.through target) held := by
  rw [Hold.upperBound, Work.bind_ok indexes.count_run]
  exact Hold.onRegion_ok (indexes.filed.upperBound_run target)

end Indexes

namespace Holds
open Catalog
variable {l : Layout} {held : Held} {cat : Catalog} (holds : Holds l held cat)
include holds

theorem count_run : Hold.count held = .ok cat.items.length held := holds.indexes.count_run

theorem lowerBound_run (target : Ref) : Hold.lowerBound target held = .ok (cat.below target) held :=
  holds.indexes.lowerBound_run target

theorem upperBound_run (target : Ref) :
    Hold.upperBound target held = .ok (cat.through target) held :=
  holds.indexes.upperBound_run target

theorem resolve_run (target : Ref) :
    Hold.resolve target held =
      .ok ((cat.find? target).map fun item => (cat.below target, item.entry)) held := by
  rw [Hold.resolve, Work.bind_ok holds.count_run]
  apply Hold.onRegion_ok
  rw [Directory.find?, Work.bind_ok (holds.filed.lowerBound_run target), ← Catalog.below,
    holds.ordered.find?_eq]
  have within := cat.below_le target
  split
  · next last =>
    rw [List.getElem?_eq_none (by omega)]
    rfl
  · next inner =>
    have live : cat.below target < cat.items.length := by omega
    rw [Work.bind_ok (holds.filed.entryAt_run live), List.getElem?_eq_getElem live]
    by_cases same : cat.items[cat.below target].entry.ref = target
    · simp [Item.ref, same, Work.pure_run, Option.filter_some]
    · simp [Item.ref, same, Work.pure_run, Option.filter_some]

end Holds

theorem Hold.firstAt_run {α : Type} {probe : Nat → Hold (Option α)} {answer : Nat → Option α}
    {held : Held} (places : List Nat)
    (probes : ∀ pos ∈ places, probe pos held = .ok (answer pos) held) :
    Hold.firstAt probe places held = .ok (places.findSome? answer) held := by
  induction places with
  | nil => rfl
  | cons pos rest ih =>
    rw [Hold.firstAt, Work.bind_ok (probes pos List.mem_cons_self), List.findSome?_cons]
    cases answer pos with
    | none => exact ih fun pos member => probes pos (List.mem_cons_of_mem _ member)
    | some found => rfl

end Store

end Reassembly
