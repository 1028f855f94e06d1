import Reassembly.Proofs.Lanes
import Reassembly.Writing.Neighbours

/-!
The neighbours of a sequence number. A lane is a line of blocks cut at the number: those behind it come
first when one looks ahead, those up to it first when one looks back. The first payload block met either
way is the nearest on the circle.
-/

namespace Reassembly

namespace Store

theorem Falling.window {α : Type} {early late : α → Bool} {xs : List α} (first : Falling early xs)
    (second : Falling late xs) (implies : ∀ a, early a = true → late a = true) :
    (xs.drop (xs.countP early)).take (xs.countP late - xs.countP early) =
      xs.filter fun a => late a && !early a := by
  have inner : Falling early (xs.filter late) := first.sublist List.filter_sublist
  have count : (xs.filter late).countP early = xs.countP early := by
    rw [List.countP_filter]
    refine List.countP_congr fun a _ => ?_
    rw [Bool.and_eq_true]
    exact ⟨And.left, fun passes => ⟨passes, implies a passes⟩⟩
  rw [← List.drop_take, second.take_countP, ← count, inner.drop_countP, List.filter_filter]
  simp only [Bool.and_comm]

namespace Catalog
variable (cat : Catalog) (key : FlowKey)

def ahead : List Item :=
  (cat.inLane key.lane).filter fun item => key.seq.word.toNat < item.start.word.toNat

def upTo : List Item :=
  (cat.inLane key.lane).filter fun item => item.start.word.toNat ≤ key.seq.word.toNat

/-- Where the next payload block ahead of a key starts, elsewhere than at the key. -/
def successor? : Option Seq :=
  (cat.ahead key ++ cat.upTo key).findSome? fun item =>
    if item.start ≠ key.seq ∧ item.isPayload = true then some item.start else none

def predecessor? : Option Item :=
  ((cat.upTo key).reverse ++ (cat.ahead key).reverse).find? Item.isPayload

variable {cat key}

theorem mem_ahead {item : Item} : item ∈ cat.ahead key ↔
    item ∈ cat.inLane key.lane ∧ key.seq.word.toNat < item.start.word.toNat := by
  rw [ahead, List.mem_filter, decide_eq_true_eq]

theorem mem_upTo {item : Item} : item ∈ cat.upTo key ↔
    item ∈ cat.inLane key.lane ∧ item.start.word.toNat ≤ key.seq.word.toNat := by
  rw [upTo, List.mem_filter, decide_eq_true_eq]

theorem mem_forward {item : Item} :
    item ∈ cat.ahead key ++ cat.upTo key ↔ item ∈ cat.inLane key.lane := by
  rw [List.mem_append, mem_ahead, mem_upTo, ← and_or_left]
  exact and_iff_left (Nat.lt_or_ge _ _)

theorem mem_backward {item : Item} :
    item ∈ (cat.upTo key).reverse ++ (cat.ahead key).reverse ↔ item ∈ cat.inLane key.lane := by
  rw [← mem_forward, List.mem_append, List.mem_append, List.mem_reverse, List.mem_reverse, or_comm]

section Targets
variable (flow : FlowId) (side : Side) (seq : Seq) (item : Item)

theorem before_rangeStart : item.ref.before ⟨.rangeStart flow side, 0⟩ =
    decide (item.lane < FlowKey.laneOf flow side) := by
  have low := item.start.word.toNat_lt
  have generation := item.ref.generation.toNat_lt
  rw [Bool.eq_iff_iff, Ref.before_iff, decide_eq_true_eq, item.rank_eq, Ref.rank_eq,
    FlowKey.rangeStart, FlowKey.lane_pack, FlowKey.seq_pack, Seq.circle, UInt64.toNat_zero, UInt32.toNat_zero]
  omega

theorem upTo_rangeEnd : item.ref.upTo ⟨.rangeEnd flow side, Writing.lastGeneration⟩ =
    decide (item.lane ≤ FlowKey.laneOf flow side) := by
  have low := item.start.word.toNat_lt
  have generation := item.ref.generation.toNat_lt
  have last : Writing.lastGeneration.toNat = 0xFFFFFFFFFFFFFFFF := rfl
  have top : (0xFFFFFFFF : UInt32).toNat = 0xFFFFFFFF := rfl
  rw [Bool.eq_iff_iff, Ref.upTo_iff, decide_eq_true_eq, item.rank_eq, Ref.rank_eq,
    FlowKey.rangeEnd, FlowKey.lane_pack, FlowKey.seq_pack, Seq.circle, last, top]
  omega

theorem upTo_pack : item.ref.upTo ⟨.pack flow side seq, Writing.lastGeneration⟩ =
    decide (item.lane < FlowKey.laneOf flow side ∨
      item.lane = FlowKey.laneOf flow side ∧ item.start.word.toNat ≤ seq.word.toNat) := by
  have low := item.start.word.toNat_lt
  have bound := seq.word.toNat_lt
  have generation := item.ref.generation.toNat_lt
  have last : Writing.lastGeneration.toNat = 0xFFFFFFFFFFFFFFFF := rfl
  rw [Bool.eq_iff_iff, Ref.upTo_iff, decide_eq_true_eq, item.rank_eq, Ref.rank_eq,
    FlowKey.lane_pack, FlowKey.seq_pack, Seq.circle, last]
  omega

end Targets

variable (sorted : Sorted cat.items)
include sorted

theorem Sorted.window_ahead (flow : FlowId) (side : Side) (seq : Seq) :
    (cat.items.drop (cat.through ⟨.pack flow side seq, Writing.lastGeneration⟩)).take
        (cat.through ⟨.rangeEnd flow side, Writing.lastGeneration⟩ -
          cat.through ⟨.pack flow side seq, Writing.lastGeneration⟩) =
      cat.ahead (.pack flow side seq) := by
  refine ((sorted.falling_upTo _).window (sorted.falling_upTo _)
    fun item => ?_).trans ?_
  · rw [upTo_pack, upTo_rangeEnd, decide_eq_true_eq, decide_eq_true_eq]
    omega
  · rw [ahead, inLane, List.filter_filter]
    refine List.filter_congr fun item _ => ?_
    rw [upTo_pack, upTo_rangeEnd, FlowKey.lane_pack, FlowKey.seq_pack, Bool.eq_iff_iff]
    simp only [Bool.and_eq_true, Bool.not_eq_true', decide_eq_true_eq, decide_eq_false_iff_not]
    omega

theorem Sorted.window_upTo (flow : FlowId) (side : Side) (seq : Seq) :
    (cat.items.drop (cat.below ⟨.rangeStart flow side, 0⟩)).take
        (cat.through ⟨.pack flow side seq, Writing.lastGeneration⟩ -
          cat.below ⟨.rangeStart flow side, 0⟩) =
      cat.upTo (.pack flow side seq) := by
  refine ((sorted.falling_before _).window (sorted.falling_upTo _)
    fun item => ?_).trans ?_
  · rw [upTo_pack, before_rangeStart, decide_eq_true_eq, decide_eq_true_eq]
    exact .inl
  · rw [upTo, inLane, List.filter_filter]
    refine List.filter_congr fun item _ => ?_
    rw [upTo_pack, before_rangeStart, FlowKey.lane_pack, FlowKey.seq_pack, Bool.eq_iff_iff]
    simp only [Bool.and_eq_true, Bool.not_eq_true', decide_eq_true_eq, decide_eq_false_iff_not]
    omega

theorem Sorted.pairwise_forward (key : FlowKey) : (cat.ahead key ++ cat.upTo key).Pairwise fun a b =>
    Seq.distance (key.seq.advance 1) a.start ≤ Seq.distance (key.seq.advance 1) b.start := by
  have sorted := sorted.pairwise_inLane key.lane
  have bound := key.seq.word.toNat_lt
  rw [List.pairwise_append]
  refine ⟨(sorted.filter _).imp_of_mem fun {a b} first second le => ?_,
    (sorted.filter _).imp_of_mem fun {a b} first second le => ?_, fun a first b second => ?_⟩
  · have := (mem_ahead.mp first).2
    have := (mem_ahead.mp second).2
    have := a.start.word.toNat_lt
    have := b.start.word.toNat_lt
    rw [Seq.distance_eq, Seq.distance_eq, Seq.toNat_advance, Seq.circle]
    omega
  · have := (mem_upTo.mp first).2
    have := (mem_upTo.mp second).2
    rw [Seq.distance_eq, Seq.distance_eq, Seq.toNat_advance, Seq.circle]
    omega
  · have := (mem_ahead.mp first).2
    have := (mem_upTo.mp second).2
    have := a.start.word.toNat_lt
    rw [Seq.distance_eq, Seq.distance_eq, Seq.toNat_advance, Seq.circle]
    omega

theorem Sorted.pairwise_backward (key : FlowKey) :
    ((cat.upTo key).reverse ++ (cat.ahead key).reverse).Pairwise fun a b =>
      Seq.distance a.start key.seq ≤ Seq.distance b.start key.seq := by
  have sorted := sorted.pairwise_inLane key.lane
  have bound := key.seq.word.toNat_lt
  rw [List.pairwise_append]
  refine ⟨List.pairwise_reverse.mpr ((sorted.filter _).imp_of_mem fun {a b} first second le => ?_),
    List.pairwise_reverse.mpr ((sorted.filter _).imp_of_mem fun {a b} first second le => ?_),
    fun a first b second => ?_⟩
  · have := (mem_upTo.mp first).2
    have := (mem_upTo.mp second).2
    rw [Seq.distance_eq, Seq.distance_eq]
    omega
  · have := (mem_ahead.mp first).2
    have := (mem_ahead.mp second).2
    have := a.start.word.toNat_lt
    have := b.start.word.toNat_lt
    rw [Seq.distance_eq, Seq.distance_eq]
    omega
  · have := (mem_upTo.mp (List.mem_reverse.mp first)).2
    have := (mem_ahead.mp (List.mem_reverse.mp second)).2
    have := b.start.word.toNat_lt
    rw [Seq.distance_eq, Seq.distance_eq]
    omega

theorem Sorted.successor?_spec {key : FlowKey} {next : Seq} (found : cat.successor? key = some next) :
    next ≠ key.seq ∧
    (∃ item ∈ cat.items, item.lane = key.lane ∧ item.isPayload = true ∧ item.start = next) ∧
    ∀ item ∈ cat.items, item.lane = key.lane → item.isPayload = true → item.start ≠ key.seq →
      Seq.distance key.seq next ≤ Seq.distance key.seq item.start := by
  obtain ⟨early, hit, late, parts, here, misses⟩ := List.findSome?_eq_some_iff.mp found
  obtain ⟨⟨apart, payload⟩, rfl⟩ : (hit.start ≠ key.seq ∧ hit.isPayload = true) ∧
      hit.start = next := by
    simpa using here
  have listed := mem_inLane.mp (mem_forward.mp (parts ▸ List.mem_append_right _ List.mem_cons_self))
  refine ⟨apart, ⟨hit, listed.1, listed.2, payload, rfl⟩, fun item member lane stream other => ?_⟩
  have sorted := sorted.pairwise_forward key
  have placed := mem_forward.mpr (mem_inLane.mpr ⟨member, lane⟩)
  have later : Seq.distance (key.seq.advance 1) hit.start ≤
      Seq.distance (key.seq.advance 1) item.start := by
    rw [parts] at sorted placed
    rcases List.mem_append.mp placed with first | rest
    · have := misses item first
      simp [other, stream] at this
    · rcases List.mem_cons.mp rest with rfl | behind
      · exact Nat.le_refl _
      · exact (List.pairwise_cons.mp (List.pairwise_append.mp sorted).2.1).1 item behind
  have first := Seq.distance_pos apart.symm
  have second := Seq.distance_pos other.symm
  have bound := key.seq.word.toNat_lt
  have := hit.start.word.toNat_lt
  have := item.start.word.toNat_lt
  rw [Seq.distance_eq, Seq.distance_eq, Seq.toNat_advance, Seq.circle] at later
  rw [Seq.distance_eq] at first second ⊢
  rw [Seq.distance_eq]
  omega

omit sorted in
theorem successor?_eq_none {key : FlowKey} (none_found : cat.successor? key = none) {item : Item}
    (member : item ∈ cat.items) (lane : item.lane = key.lane) (stream : item.isPayload = true) :
    item.start = key.seq := by
  have missed := List.findSome?_eq_none_iff.mp none_found item
    (mem_forward.mpr (mem_inLane.mpr ⟨member, lane⟩))
  by_contra other
  simp [other, stream] at missed

theorem Sorted.pairwise_latest (key : FlowKey) :
    ((cat.upTo key).reverse ++ (cat.ahead key).reverse).Pairwise fun a b =>
      b.start = a.start → b.ref.generation.toNat ≤ a.ref.generation.toNat := by
  have latest : ∀ {a b : Item}, a ∈ cat.inLane key.lane → b ∈ cat.inLane key.lane →
      a.ref.rank ≤ b.ref.rank → a.start = b.start → a.ref.generation.toNat ≤ b.ref.generation.toNat := by
    intro a b first second le same
    rw [a.rank_eq, b.rank_eq, (mem_inLane.mp first).2, (mem_inLane.mp second).2, same] at le
    exact Nat.le_of_add_le_add_left le
  have lane : (cat.inLane key.lane).Pairwise fun a b => a.ref.rank ≤ b.ref.rank := sorted.filter _
  rw [List.pairwise_append]
  refine ⟨List.pairwise_reverse.mpr ((lane.filter _).imp_of_mem fun first second =>
      latest (List.mem_of_mem_filter first) (List.mem_of_mem_filter second)),
    List.pairwise_reverse.mpr ((lane.filter _).imp_of_mem fun first second =>
      latest (List.mem_of_mem_filter first) (List.mem_of_mem_filter second)),
    fun a first b second same => ?_⟩
  have := (mem_upTo.mp (List.mem_reverse.mp first)).2
  have := (mem_ahead.mp (List.mem_reverse.mp second)).2
  rw [same] at this
  omega

omit sorted in
theorem first_of_pairwise {α : Type} {before : α → α → Prop} {xs : List α} (ordered : xs.Pairwise before)
    (refl : ∀ a, before a a) {test : α → Bool} {a b : α} (found : xs.find? test = some a) (listed : b ∈ xs)
    (passes : test b = true) : before a b := by
  obtain ⟨_, early, late, rfl, misses⟩ := List.find?_eq_some_iff_append.mp found
  rcases List.mem_append.mp listed with first | rest
  · have := misses b first
    simp [passes] at this
  · rcases List.mem_cons.mp rest with rfl | behind
    · exact refl b
    · exact (List.pairwise_cons.mp (List.pairwise_append.mp ordered).2.1).1 b behind

theorem Sorted.predecessor?_spec {key : FlowKey} {item : Item}
    (found : cat.predecessor? key = some item) :
    item ∈ cat.items ∧ item.lane = key.lane ∧ item.isPayload = true ∧
    ∀ other ∈ cat.items, other.lane = key.lane → other.isPayload = true →
      Seq.distance item.start key.seq ≤ Seq.distance other.start key.seq := by
  have listed := mem_inLane.mp (mem_backward.mp (List.mem_of_find?_eq_some found))
  refine ⟨listed.1, listed.2, List.find?_some found, fun other member lane stream => ?_⟩
  exact first_of_pairwise (sorted.pairwise_backward key) (fun _ => Nat.le_refl _) found
    (mem_backward.mpr (mem_inLane.mpr ⟨member, lane⟩)) stream

theorem Sorted.predecessor?_latest {key : FlowKey} {item : Item} (found : cat.predecessor? key = some item)
    {other : Item} (member : other ∈ cat.items) (lane : other.lane = key.lane)
    (stream : other.isPayload = true) (same : other.start = item.start) :
    other.ref.generation.toNat ≤ item.ref.generation.toNat :=
  first_of_pairwise (sorted.pairwise_latest key) (fun _ _ => Nat.le_refl _) found
    (mem_backward.mpr (mem_inLane.mpr ⟨member, lane⟩)) stream same

omit sorted in
theorem predecessor?_eq_none {key : FlowKey} (none_found : cat.predecessor? key = none) {item : Item}
    (member : item ∈ cat.items) (lane : item.lane = key.lane) : item.isPayload = false := by
  have missed := List.find?_eq_none.mp none_found item
    (mem_backward.mpr (mem_inLane.mpr ⟨member, lane⟩))
  simpa using missed

end Catalog

theorem filterMap_positions {α : Type} (xs : List α) (start stop : Nat) :
    (Writing.positions start stop).filterMap (xs[·]?) = (xs.drop start).take (stop - start) := by
  rw [Writing.positions]
  generalize stop - start = count
  induction count generalizing start with
  | zero => rfl
  | succ count ih =>
    rw [List.range'_succ]
    cases here : xs[start]? with
    | none =>
      have short := List.getElem?_eq_none_iff.mp here
      rw [List.filterMap_cons_none here, ih, List.drop_eq_nil_of_le short,
        List.drop_eq_nil_of_le (by omega), List.take_nil, List.take_nil]
    | some a =>
      obtain ⟨inside, rfl⟩ := List.getElem?_eq_some_iff.mp here
      rw [List.filterMap_cons_some here, List.drop_eq_getElem_cons inside, List.take_succ_cons, ih]

theorem findSome?_places {α β : Type} (xs : List α) (g : α → Option β) (places : List Nat) :
    places.findSome? (fun pos => xs[pos]?.bind g) = (places.filterMap (xs[·]?)).findSome? g := by
  induction places with
  | nil => rfl
  | cons pos rest ih =>
    rw [List.findSome?_cons, ih]
    cases here : xs[pos]? with
    | none => rw [List.filterMap_cons_none here, Option.bind_none]
    | some a => rw [List.filterMap_cons_some here, Option.bind_some, List.findSome?_cons]

theorem lt_of_mem_positions {start stop pos : Nat} (listed : pos ∈ Writing.positions start stop) :
    pos < stop := by
  have := List.mem_range'_1.mp listed
  omega

namespace Indexes
open Catalog Writing
variable {l : Layout} {held : Held} {cat : Catalog} (indexes : Indexes l held cat.items)
include indexes

theorem successorStart_run (flow : FlowId) (side : Side) (seq : Seq) :
    successorStart l flow side seq held = .ok (cat.successor? (.pack flow side seq)) held := by
  have ahead := indexes.filed.sorted.window_ahead flow side seq
  have upTo := indexes.filed.sorted.window_upTo flow side seq
  rw [successorStart, Work.bind_ok (indexes.lowerBound_run _), Work.bind_ok (indexes.upperBound_run _),
    Work.bind_ok (indexes.upperBound_run _)]
  refine ((@Store.Hold.firstAt_run _ _ (fun pos => cat.items[pos]?.bind fun item =>
    if item.start ≠ (FlowKey.pack flow side seq).seq ∧ item.isPayload = true
    then some item.start else none)) _ fun pos listed => ?_).trans ?_
  · have live : pos < cat.items.length := by
      have := cat.through_le ⟨.pack flow side seq, lastGeneration⟩
      have := cat.through_le ⟨.rangeEnd flow side, lastGeneration⟩
      rcases List.mem_append.mp listed with behind | before
      · have := lt_of_mem_positions behind
        omega
      · have := lt_of_mem_positions before
        omega
    have member : cat.items[pos] ∈ cat.items := List.getElem_mem live
    rw [Work.bind_ok (indexes.entryAt_run live), List.getElem?_eq_getElem live, Option.bind_some,
      FlowKey.seq_pack]
    by_cases same : cat.items[pos].entry.ref.key.seq = seq
    · have unwanted : ¬ (cat.items[pos].start ≠ seq ∧ cat.items[pos].isPayload = true) :=
        fun both => both.1 same
      rw [if_neg unwanted, if_pos same]
      rfl
    · rw [if_neg same, Work.bind_ok (indexes.header_run member), Work.pure_run]
      by_cases payload : cat.items[pos].header.kind.isPayload = true
      · have wanted : cat.items[pos].start ≠ seq ∧ cat.items[pos].isPayload = true :=
          ⟨same, payload⟩
        rw [if_pos wanted, if_pos payload]
        rfl
      · have unwanted : ¬ (cat.items[pos].start ≠ seq ∧ cat.items[pos].isPayload = true) :=
          fun both => payload both.2
        rw [if_neg unwanted, if_neg payload]
  · rw [findSome?_places, List.filterMap_append, filterMap_positions, filterMap_positions, ahead,
      upTo]
    rfl

theorem predecessor_run (flow : FlowId) (side : Side) (seq : Seq) :
    predecessor l flow side seq held =
      .ok ((cat.predecessor? (.pack flow side seq)).map fun item => ⟨item.entry, item.header⟩)
        held := by
  have ahead := indexes.filed.sorted.window_ahead flow side seq
  have upTo := indexes.filed.sorted.window_upTo flow side seq
  rw [predecessor, Work.bind_ok (indexes.lowerBound_run _), Work.bind_ok (indexes.upperBound_run _),
    Work.bind_ok (indexes.upperBound_run _)]
  refine ((@Store.Hold.firstAt_run _ _ (fun pos => cat.items[pos]?.bind fun item =>
    if item.isPayload = true then some (⟨item.entry, item.header⟩ : Located) else none)) _
    fun pos listed => ?_).trans ?_
  · have live : pos < cat.items.length := by
      have := cat.through_le ⟨.pack flow side seq, lastGeneration⟩
      have := cat.through_le ⟨.rangeEnd flow side, lastGeneration⟩
      rw [List.mem_append, List.mem_reverse, List.mem_reverse] at listed
      rcases listed with before | behind
      · have := lt_of_mem_positions before
        omega
      · have := lt_of_mem_positions behind
        omega
    have member : cat.items[pos] ∈ cat.items := List.getElem_mem live
    rw [Work.bind_ok (indexes.entryAt_run live), Work.bind_ok (indexes.header_run member),
      List.getElem?_eq_getElem live, Option.bind_some]
    rfl
  · rw [findSome?_places, List.filterMap_append, List.filterMap_reverse, List.filterMap_reverse,
      filterMap_positions, filterMap_positions, ahead, upTo, predecessor?]
    generalize (cat.upTo (.pack flow side seq)).reverse ++
      (cat.ahead (.pack flow side seq)).reverse = places
    induction places with
    | nil => rfl
    | cons item rest ih =>
      by_cases payload : item.isPayload = true
      · simp [payload]
      · simpa [payload] using ih

end Indexes

namespace Holds
variable {l : Layout} {held : Held} {cat : Catalog} (holds : Holds l held cat)
include holds

theorem successorStart_run (flow : FlowId) (side : Side) (seq : Seq) :
    Writing.successorStart l flow side seq held = .ok (cat.successor? (.pack flow side seq)) held :=
  holds.indexes.successorStart_run flow side seq

theorem predecessor_run (flow : FlowId) (side : Side) (seq : Seq) :
    Writing.predecessor l flow side seq held =
      .ok ((cat.predecessor? (.pack flow side seq)).map fun item => ⟨item.entry, item.header⟩) held :=
  holds.indexes.predecessor_run flow side seq

end Holds

end Store
end Reassembly
