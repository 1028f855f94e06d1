import Reassembly.Proofs.Consulting
import Reassembly.Proofs.Numbering

/-!
Walks through a store. From one block a reader goes on to the next until it comes round, so a walk
visits the blocks from its first on in their order. The walk over a side of a flow ends where its lane
ends, and has visited the lane.
-/

namespace Reassembly

open Store Reading

theorem Store.Falling.takeWhile_eq {α : Type} {test : α → Bool} {xs : List α}
    (falling : Falling test xs) : xs.takeWhile test = xs.filter test := by
  induction xs with
  | nil => rfl
  | cons a rest ih =>
    obtain ⟨head, tail⟩ := List.pairwise_cons.mp falling
    by_cases passes : test a = true
    · rw [List.takeWhile_cons_of_pos passes, List.filter_cons_of_pos passes, ih tail]
    · rw [List.takeWhile_cons_of_neg passes, List.filter_cons_of_neg passes]
      refine (List.filter_eq_nil_iff.mpr fun b later hit => ?_).symm
      exact passes (head b later hit)

namespace Store.Catalog

variable {l : Layout} {cat : Catalog} (ordered : cat.Ordered l) (separate : cat.Distinct)
include ordered separate

theorem Distinct.through_ref {front back : List Item} {item : Item}
    (parts : cat.items = front ++ item :: back) : cat.through item.ref = front.length + 1 := by
  have strict := separate.strict ordered
  rw [parts, List.pairwise_append, List.pairwise_cons] at strict
  obtain ⟨_, ⟨behind, _⟩, before⟩ := strict
  rw [through, parts, List.countP_append, List.countP_cons_of_pos]
  · rw [List.countP_eq_length.mpr fun other early => ?_, List.countP_eq_zero.mpr fun other late => ?_]
    · rw [Ref.upTo_iff]
      exact Nat.not_le.mpr (behind other late)
    · rw [Ref.upTo_iff]
      exact Nat.le_of_lt (before other early item List.mem_cons_self)
  · rw [Ref.upTo_iff]

theorem Distinct.next?_cons {front back : List Item} {item following : Item}
    (parts : cat.items = front ++ item :: following :: back) :
    cat.next? item.ref = some following := by
  have strict := separate.strict ordered
  rw [parts, List.pairwise_append, List.pairwise_cons] at strict
  have apart : following.ref ≠ item.ref := by
    intro same
    have less := strict.2.1.1 following List.mem_cons_self
    rw [same] at less
    exact Nat.lt_irrefl _ less
  have length : cat.items.length = front.length + 1 + 1 + back.length := by
    rw [parts, List.length_append, List.length_cons, List.length_cons]
    omega
  have there : cat.items[front.length + 1]? = some following := by
    rw [parts, List.getElem?_append_right (by omega)]
    simp only [Nat.add_sub_cancel_left, List.getElem?_cons_succ, List.getElem?_cons_zero]
  rw [next?, separate.through_ref ordered parts, Nat.mod_eq_of_lt (by omega), there,
    Option.filter_some, if_pos (by simpa using apart)]

theorem Distinct.next?_last {front : List Item} {item : Item} (parts : cat.items = front ++ [item])
    {following : Item} (found : cat.next? item.ref = some following) :
    Ref.before item.ref following.ref = false := by
  have strict := separate.strict ordered
  rw [next?, Option.filter_eq_some_iff] at found
  have member := List.mem_of_getElem? found.1
  rw [parts] at strict member
  rcases List.mem_append.mp member with early | last
  · have less := (List.pairwise_append.mp strict).2.2 following early item (List.mem_singleton_self _)
    rw [← Bool.not_eq_true, Ref.before_iff]
    omega
  · rw [List.mem_singleton.mp last] at found
    simp at found

end Store.Catalog

namespace Reading

variable {v : View} {r : Region} {cat : Catalog}

theorem walkFrom_run (carries : Carries v.layout r cat) (separate : cat.Distinct)
    (wanted : FlowKey → Bool) {front back : List Item} {item : Item}
    (parts : cat.items = front ++ item :: back) :
    walkFrom v wanted (item.stored v) r =
      .ok (((item :: back).takeWhile fun item => wanted item.key).map (Item.stored v)) r := by
  induction back generalizing front item with
  | nil =>
    rw [walkFrom]
    have key : (item.stored v).key = item.key := rfl
    rw [key]
    by_cases here : wanted item.key = true
    · rw [if_pos here, List.takeWhile_cons_of_pos (p := fun item : Item => wanted item.key) here,
        Work.bind_ok (next_run carries _)]
      have ref : (item.stored v).ref = item.ref := rfl
      cases found : cat.next? (item.stored v).ref with
      | none => rfl
      | some following =>
        have back := separate.next?_last carries.ordered parts (ref ▸ found)
        dsimp only [Option.map_some]
        rw [dif_neg (by rw [ref]; simpa [Item.stored] using back)]
        rfl
    · rw [if_neg here, List.takeWhile_cons_of_neg (p := fun item : Item => wanted item.key) here]
      rfl
  | cons following rest ih =>
    have next := separate.next?_cons carries.ordered parts
    have strict := separate.strict carries.ordered
    rw [parts, List.pairwise_append, List.pairwise_cons] at strict
    have further : Ref.before (item.stored v).ref (following.stored v).ref = true :=
      (Ref.before_iff _ _).mpr (strict.2.1.1 following List.mem_cons_self)
    have key : (item.stored v).key = item.key := rfl
    have found : Reading.next v (item.stored v).ref r = .ok (some (following.stored v)) r := by
      refine (next_run carries item.ref).trans ?_
      rw [next, Option.map_some]
    rw [walkFrom, key]
    by_cases here : wanted item.key = true
    · have rest_run := @ih (front ++ [item]) following
        (by rw [parts, List.append_assoc, List.singleton_append])
      rw [if_pos here, List.takeWhile_cons_of_pos (p := fun item : Item => wanted item.key) here,
        Work.bind_ok found]
      dsimp only
      rw [dif_pos further, Work.bind_ok rest_run]
      rfl
    · rw [if_neg here, List.takeWhile_cons_of_neg (p := fun item : Item => wanted item.key) here]
      rfl

theorem range_run (carries : Carries v.layout r cat) (separate : cat.Distinct) {flow : FlowId}
    (checked : flow.raw.toNat < 0x80000000) (side : Side) :
    range v flow side r =
      .ok ((cat.inLane (FlowKey.laneOf flow side)).map (Item.stored v)) r := by
  have ordered := carries.ordered
  have wanted : (fun item : Item => item.key.belongsTo flow side) =
      fun item => decide (item.lane = FlowKey.laneOf flow side) := by
    funext item
    rw [Bool.eq_iff_iff, FlowKey.belongsTo_iff side checked, decide_eq_true_eq]
    rfl
  have reached : cat.items.drop (cat.below ⟨.rangeStart flow side, 0⟩) =
      cat.items.filter fun item => decide (FlowKey.laneOf flow side ≤ item.lane) := by
    rw [Catalog.below, (ordered.sorted.falling_before _).drop_countP]
    refine List.filter_congr fun item _ => ?_
    rw [Catalog.before_rangeStart, Bool.eq_iff_iff]
    simp
  have lane : (cat.items.drop (cat.below ⟨.rangeStart flow side, 0⟩)).takeWhile
      (fun item => item.key.belongsTo flow side) = cat.inLane (FlowKey.laneOf flow side) := by
    have falling : Falling (fun item : Item => decide (item.lane = FlowKey.laneOf flow side))
        (cat.items.filter fun item => decide (FlowKey.laneOf flow side ≤ item.lane)) := by
      refine (ordered.sorted.filter _).imp_of_mem fun {a b} first _ le hit => ?_
      have low := of_decide_eq_true (List.mem_filter.mp first).2
      have here := of_decide_eq_true hit
      rw [Item.rank_eq, Item.rank_eq] at le
      have := a.start.word.toNat_lt
      have := b.start.word.toNat_lt
      have := a.ref.generation.toNat_lt
      have := b.ref.generation.toNat_lt
      rw [Seq.circle] at le
      exact decide_eq_true (by omega)
    rw [reached, wanted, falling.takeWhile_eq, List.filter_filter, Catalog.inLane]
    refine List.filter_congr fun item _ => ?_
    rw [Bool.eq_iff_iff]
    simp only [Bool.and_eq_true, decide_eq_true_eq]
    omega
  rw [range, walk, Work.bind_ok (firstFrom_run carries _), Catalog.firstFrom?]
  by_cases inside : cat.below ⟨.rangeStart flow side, 0⟩ < cat.items.length
  · have parts := (List.take_append_drop (cat.below ⟨.rangeStart flow side, 0⟩) cat.items).symm
    rw [List.drop_eq_getElem_cons inside] at parts lane
    rw [Nat.mod_eq_of_lt inside, List.getElem?_eq_getElem inside, ← lane]
    exact walkFrom_run carries separate _ parts
  · have all : cat.below ⟨.rangeStart flow side, 0⟩ = cat.items.length :=
      Nat.le_antisymm (cat.below_le _) (Nat.not_lt.mp inside)
    rw [all, List.drop_length, List.takeWhile_nil] at lane
    rw [all, Nat.mod_self, ← lane]
    cases first : cat.items[0]? with
    | none => rfl
    | some item =>
      obtain ⟨live, here⟩ := List.getElem?_eq_some_iff.mp first
      have member := List.mem_of_getElem? first
      have parts : cat.items = [] ++ item :: cat.items.drop 1 := by
        rw [List.nil_append, ← here, ← List.drop_eq_getElem_cons live, List.drop_zero]
      have elsewhere : ¬ item.key.belongsTo flow side = true := by
        intro belongs
        have listed : item ∈ cat.inLane (FlowKey.laneOf flow side) :=
          Catalog.mem_inLane.mpr ⟨member, (FlowKey.belongsTo_iff side checked _).mp belongs⟩
        rw [← lane] at listed
        exact absurd listed List.not_mem_nil
      refine (walkFrom_run carries separate _ parts).trans ?_
      rw [List.takeWhile_cons_of_neg (p := fun item : Item => item.key.belongsTo flow side) elsewhere]

end Reading

end Reassembly
