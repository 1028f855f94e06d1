import Reassembly.Proofs.Consulting

/-!
The order in which a rotation comes to the ready markers of a store that stays as it is. From where it
stands it goes up to the last reference and on from the first; a block that it stops at goes to the end
of that order. References need not tell the blocks apart: of several blocks of one reference only the
first is ever met.
-/

namespace Reassembly

open Store Reading

namespace Ref

def ahead (rotation : Option Ref) (ref : Ref) : Nat :=
  match rotation with
  | none => ref.rank
  | some stand => if stand.rank < ref.rank then ref.rank - stand.rank else ref.rank + count - stand.rank

theorem ahead_le_of_ahead {start stand near far : Ref} (passed : stand = start ∨
      ahead (some start) stand < ahead (some start) far)
    (nearest : ahead (some stand) near ≤ ahead (some stand) far) :
    ahead (some start) near ≤ ahead (some start) far := by
  have := start.rank_lt
  have := stand.rank_lt
  have := near.rank_lt
  have := far.rank_lt
  rcases passed with rfl | passed
  · exact nearest
  · simp only [ahead] at passed nearest ⊢
    split at passed <;> split at passed <;> split at nearest <;> split at nearest <;> split <;> omega

theorem ahead_injective {start a b : Ref} (same : ahead (some start) a = ahead (some start) b) : a = b := by
  have := start.rank_lt
  have := a.rank_lt
  have := b.rank_lt
  apply rank_injective
  simp only [ahead] at same
  split at same <;> split at same <;> omega

theorem ahead_lt_self {start other : Ref} (apart : other ≠ start) :
    ahead (some start) other < ahead (some start) start := by
  have := other.rank_lt
  have := start.rank_lt
  have differ : other.rank ≠ start.rank := fun same => apart (rank_injective same)
  simp only [ahead, Nat.lt_irrefl, if_false]
  split <;> omega

end Ref

namespace Store

variable {items : List Item} {item : Item} {more : List Item} {v : View} {l : Layout} {cat : Catalog}

namespace Item

/-- Blocks in the cyclic order from where a rotation stands. -/
def inTurn (items : List Item) : Option Ref → List Item
  | none => items
  | some ref => items.filter (fun item => ref.before item.ref) ++ items.filter fun item => item.ref.upTo ref

theorem mem_inTurn {rotation : Option Ref} {item : Item} : item ∈ inTurn items rotation ↔ item ∈ items := by
  cases rotation with
  | none => rfl
  | some ref =>
    rw [inTurn, List.mem_append, List.mem_filter, List.mem_filter, ← and_or_left, Ref.upTo,
      and_iff_left_iff_imp]
    intro _
    cases ref.before item.ref <;> simp

theorem perm_inTurn (items : List Item) (rotation : Option Ref) : (inTurn items rotation).Perm items := by
  cases rotation with
  | none => exact .refl _
  | some ref => exact List.filter_append_perm (fun item : Item => ref.before item.ref) items

theorem inTurn_filter (test : Item → Bool) (items : List Item) (rotation : Option Ref) :
    inTurn (items.filter test) rotation = (inTurn items rotation).filter test := by
  cases rotation with
  | none => rfl
  | some ref =>
    rw [inTurn, inTurn, List.filter_append, List.filter_comm,
      List.filter_comm (fun item : Item => item.ref.upTo ref) test]

theorem pairwise_inTurn (sorted : Catalog.Sorted items) (rotation : Option Ref) :
    (inTurn items rotation).Pairwise fun a b => Ref.ahead rotation a.ref ≤ Ref.ahead rotation b.ref := by
  cases rotation with
  | none => exact sorted
  | some ref =>
    have beyond {a : Item} (listed : a ∈ items.filter fun item => ref.before item.ref) :
        ref.rank < a.ref.rank := (Ref.before_iff _ _).mp (List.mem_filter.mp listed).2
    have up {a : Item} (listed : a ∈ items.filter fun item => item.ref.upTo ref) :
        a.ref.rank ≤ ref.rank := (Ref.upTo_iff _ _).mp (List.mem_filter.mp listed).2
    refine List.pairwise_append.mpr ⟨(sorted.filter _).imp_of_mem fun {a b} one two le => ?_,
      (sorted.filter _).imp_of_mem fun {a b} one two le => ?_, fun a one b two => ?_⟩
    · have := beyond one
      have := beyond two
      rw [Ref.ahead, Ref.ahead, if_pos (by omega), if_pos (by omega)]
      omega
    · have := up one
      have := up two
      rw [Ref.ahead, Ref.ahead, if_neg (by omega), if_neg (by omega)]
      omega
    · have := beyond one
      have := up two
      have := a.ref.rank_lt
      have := ref.rank_lt
      rw [Ref.ahead, Ref.ahead, if_pos (by omega), if_neg (by omega)]
      omega

/-- Behind the first block in turn the order goes on with the others; that block is now the last, with
those of its reference behind it. -/
theorem inTurn_step (sorted : Catalog.Sorted items) {rotation : Option Ref}
    (order : inTurn items rotation = item :: more) :
    inTurn items (some item.ref) =
      more.filter (fun other => other.ref ≠ item.ref) ++ item :: more.filter fun other => other.ref = item.ref := by
  -- in what order the blocks lie in the store, apart from where the rotation stood
  have step : ∀ low high : List Item, items = low ++ item :: high → (∀ other ∈ low, other.ref.rank < item.ref.rank) →
      inTurn items (some item.ref) = high.filter (fun other => other.ref ≠ item.ref) ++
        (low ++ item :: high.filter fun other => other.ref = item.ref) := by
    intro low high parts below
    have above : ∀ other ∈ high, item.ref.rank ≤ other.ref.rank :=
      (List.pairwise_cons.mp (List.pairwise_append.mp (parts ▸ sorted)).2.1).1
    have front : low.filter (fun other => item.ref.before other.ref) = [] :=
      List.filter_eq_nil_iff.mpr fun other listed passes =>
        Nat.lt_asymm (below other listed) ((Ref.before_iff _ _).mp passes)
    have kept : low.filter (fun other => other.ref.upTo item.ref) = low :=
      List.filter_eq_self.mpr fun other listed => (Ref.upTo_iff _ _).mpr (Nat.le_of_lt (below other listed))
    have late : (item :: high).filter (fun other => item.ref.before other.ref) =
        high.filter fun other => other.ref ≠ item.ref := by
      rw [List.filter_cons_of_neg (p := fun other : Item => item.ref.before other.ref)
        fun passes => Nat.lt_irrefl _ ((Ref.before_iff _ _).mp passes)]
      refine List.filter_congr fun other listed => ?_
      rw [Bool.eq_iff_iff, Ref.before_iff, decide_eq_true_iff]
      have := above other listed
      exact ⟨fun less same => by rw [same] at less; exact Nat.lt_irrefl _ less,
        fun apart => Nat.lt_of_le_of_ne this fun same => apart (Ref.rank_injective same.symm)⟩
    have twins : (item :: high).filter (fun other => other.ref.upTo item.ref) =
        item :: high.filter fun other => other.ref = item.ref := by
      rw [List.filter_cons_of_pos (p := fun other : Item => other.ref.upTo item.ref)
        ((Ref.upTo_iff _ _).mpr (Nat.le_refl _))]
      refine congrArg _ <| List.filter_congr fun other listed => ?_
      rw [Bool.eq_iff_iff, Ref.upTo_iff, decide_eq_true_iff]
      have := above other listed
      exact ⟨fun le => Ref.rank_injective (Nat.le_antisymm le this), fun same => Nat.le_of_eq (congrArg _ same)⟩
    rw [inTurn, parts, List.filter_append, List.filter_append, front, kept, late, twins, List.nil_append]
  cases rotation with
  | none =>
    rw [step [] more order fun _ listed => absurd listed List.not_mem_nil]
    rfl
  | some ref =>
    have falling := sorted.falling_upTo ref
    have whole : items = items.filter (fun item => item.ref.upTo ref) ++
        items.filter fun item => ref.before item.ref := by
      have cut := (List.take_append_drop (items.countP fun item => item.ref.upTo ref) items).symm
      rw [falling.take_countP, falling.drop_countP] at cut
      simpa only [Ref.upTo, Bool.not_not] using cut
    have up : ∀ other ∈ items.filter (fun item => item.ref.upTo ref), other.ref.rank ≤ ref.rank :=
      fun other listed => (Ref.upTo_iff _ _).mp (List.mem_filter.mp listed).2
    rw [inTurn] at order
    generalize items.filter (fun item => item.ref.upTo ref) = low at order whole up
    cases beyond : items.filter (fun item => ref.before item.ref) with
    | nil =>
      rw [beyond] at order whole
      rw [List.append_nil] at whole
      rw [step [] more (whole.trans order) fun _ listed => absurd listed List.not_mem_nil]
      rfl
    | cons first high =>
      rw [beyond] at order whole
      obtain ⟨rfl, rfl⟩ := List.cons.inj order
      have passed : ref.rank < first.ref.rank := by
        have listed : first ∈ items.filter fun item => ref.before item.ref := beyond ▸ List.mem_cons_self
        exact (Ref.before_iff _ _).mp (List.mem_filter.mp listed).2
      have below : ∀ other ∈ low, other.ref.rank < first.ref.rank := fun other listed =>
        (up other listed).trans_lt passed
      have apart : ∀ other ∈ low, other.ref ≠ first.ref := fun other listed same => by
        have less := below other listed
        rw [same] at less
        exact Nat.lt_irrefl _ less
      rw [step low high whole below, List.append_eq, List.filter_append, List.filter_append,
        List.filter_eq_self.mpr fun other listed => decide_eq_true (apart other listed),
        List.filter_eq_nil_iff.mpr fun other listed same => apart other listed (of_decide_eq_true same),
        List.append_nil, List.append_assoc]

def firsts (items : List Item) : List Item := items.eraseDupsBy fun later first => later.ref = first.ref

theorem firsts_cons (item : Item) (rest : List Item) :
    firsts (item :: rest) = item :: firsts (rest.filter fun other => other.ref ≠ item.ref) := by
  rw [firsts, List.eraseDupsBy_cons, firsts]
  congr 2
  exact List.filter_congr fun other _ => by simp

theorem firsts_induction {motive : List Item → Prop} (nil : motive [])
    (cons : ∀ item rest, motive (rest.filter fun other => other.ref ≠ item.ref) → motive (item :: rest)) :
    ∀ items, motive items
  | [] => nil
  | item :: rest => cons item rest (firsts_induction nil cons _)
termination_by items => items.length
decreasing_by exact Nat.lt_succ_of_le (List.length_filter_le ..)

theorem firsts_append {twins : List Item} (apart : ∀ other ∈ items, other.ref ≠ item.ref)
    (same : ∀ other ∈ twins, other.ref = item.ref) : firsts (items ++ item :: twins) = firsts items ++ [item] := by
  induction items using firsts_induction with
  | nil =>
    rw [List.nil_append, firsts_cons, List.filter_eq_nil_iff.mpr fun other listed => by simp [same other listed]]
    rfl
  | cons first rest ih =>
    have ahead := apart first List.mem_cons_self
    have kept : (item :: twins).filter (fun other => other.ref ≠ first.ref) = item :: twins := by
      refine List.filter_eq_self.mpr fun other listed => decide_eq_true fun met => ahead ?_
      rcases List.mem_cons.mp listed with rfl | twin
      · exact met.symm
      · exact met.symm.trans (same other twin)
    rw [List.cons_append, firsts_cons, firsts_cons, List.filter_append, kept, List.cons_append,
      ih fun other listed => apart other (List.mem_cons_of_mem _ (List.mem_of_mem_filter listed))]

theorem firsts_sublist (items : List Item) : (firsts items).Sublist items := by
  induction items using firsts_induction with
  | nil => exact .slnil
  | cons first rest ih =>
    rw [firsts_cons]
    exact (ih.trans List.filter_sublist).cons_cons _

theorem exists_firsts {item : Item} (listed : item ∈ items) : ∃ first ∈ firsts items, first.ref = item.ref := by
  induction items using firsts_induction with
  | nil => exact absurd listed List.not_mem_nil
  | cons head rest ih =>
    rw [firsts_cons]
    by_cases same : item.ref = head.ref
    · exact ⟨head, List.mem_cons_self, same.symm⟩
    · have later : item ∈ rest.filter fun other => other.ref ≠ head.ref :=
        List.mem_filter.mpr ⟨List.mem_of_ne_of_mem (fun here => same (congrArg _ here)) listed, decide_eq_true same⟩
      obtain ⟨first, there, here⟩ := ih later
      exact ⟨first, List.mem_cons_of_mem _ there, here⟩

theorem pairwise_firsts (items : List Item) : (firsts items).Pairwise fun a b => a.ref ≠ b.ref := by
  induction items using firsts_induction with
  | nil => exact .nil
  | cons head rest ih =>
    rw [firsts_cons]
    refine List.pairwise_cons.mpr ⟨fun other listed same => ?_, ih⟩
    have kept := (List.mem_filter.mp ((firsts_sublist _).subset listed)).2
    exact of_decide_eq_true kept same.symm

theorem firsts_eq_self (apart : items.Pairwise fun a b => a.ref ≠ b.ref) : firsts items = items := by
  induction items with
  | nil => rfl
  | cons head rest ih =>
    obtain ⟨others, distinct⟩ := List.pairwise_cons.mp apart
    rw [firsts_cons, List.filter_eq_self.mpr fun other listed => decide_eq_true (others other listed).symm, ih distinct]

def round (items : List Item) (rotation : Option Ref) : List Item := firsts (inTurn items rotation)

/-- One turn over some blocks: in their cyclic order, one block for each reference. -/
structure IsRound (items : List Item) (rotation : Option Ref) (round : List Item) : Prop where
  inOrder : round.Sublist (inTurn items rotation)
  once : round.Pairwise fun a b => a.ref ≠ b.ref
  covers : ∀ item ∈ items, ∃ first ∈ round, first.ref = item.ref
  whole : (items.Pairwise fun a b => a.ref ≠ b.ref) → round = inTurn items rotation

theorem isRound_round (items : List Item) (rotation : Option Ref) :
    IsRound items rotation (round items rotation) where
  inOrder := firsts_sublist _
  once := pairwise_firsts _
  covers _ listed := exists_firsts (mem_inTurn.mpr listed)
  whole apart := firsts_eq_self
    (((perm_inTurn items rotation).pairwise_iff fun apart => apart.symm).mpr apart)

theorem round_step (sorted : Catalog.Sorted items) {rotation : Option Ref}
    (order : round items rotation = item :: more) : round items (some item.ref) = more ++ [item] := by
  rw [round] at order
  cases turn : inTurn items rotation with
  | nil =>
    rw [turn] at order
    cases order
  | cons first rest =>
    rw [turn, firsts_cons] at order
    obtain ⟨rfl, rfl⟩ := List.cons.inj order
    rw [round, inTurn_step sorted turn]
    exact firsts_append (fun other listed => of_decide_eq_true (List.mem_filter.mp listed).2)
      fun other listed => of_decide_eq_true (List.mem_filter.mp listed).2

theorem head?_round (items : List Item) (rotation : Option Ref) :
    (round items rotation).head? = (inTurn items rotation).head? := by
  rw [round]
  cases inTurn items rotation with
  | nil => rfl
  | cons first rest => rw [firsts_cons, List.head?_cons, List.head?_cons]

theorem turn_fst (items : List Item) (rotation : Option Ref) :
    (turn v items rotation).1 = items.find? (isReadyMarker v) := by
  rw [turn_eq]
  cases items.find? (isReadyMarker v) with
  | none => rfl
  | some item => rfl

theorem turn_snd {rotation : Option Ref} (found : (turn v items rotation).1 = some item) :
    (turn v items rotation).2 = some item.ref := by
  rw [turn_fst] at found
  rw [turn_eq, found]

end Item

theorem Catalog.Ordered.rotated_eq (ordered : cat.Ordered l) (rotation : Option Ref) :
    cat.rotated rotation = Item.inTurn cat.items rotation := by
  cases rotation with
  | none => exact List.append_nil _
  | some ref =>
    have falling := ordered.sorted.falling_upTo ref
    have behind : cat.items.drop (cat.through ref) = cat.items.filter fun item => ref.before item.ref := by
      rw [through, falling.drop_countP]
      exact List.filter_congr fun item _ => Bool.not_not _
    have upTo : cat.items.take (cat.through ref) = cat.items.filter fun item => item.ref.upTo ref :=
      falling.take_countP
    rw [Item.inTurn, ← behind, ← upTo, rotated, Option.map_some, Option.getD_some]
    rcases Nat.lt_or_eq_of_le (cat.through_le ref) with inside | all
    · rw [Nat.mod_eq_of_lt inside]
    · rw [all, Nat.mod_self, List.drop_zero, List.take_zero, List.drop_length, List.take_length, List.append_nil,
        List.nil_append]

def Catalog.ready (cat : Catalog) (v : View) : List Item := cat.items.filter (Item.isReadyMarker v)

theorem Catalog.Ordered.sorted_ready (ordered : cat.Ordered l) (v : View) : Sorted (cat.ready v) :=
  ordered.sorted.filter _

theorem Catalog.Ordered.turn_eq (ordered : cat.Ordered l) (v : View) (rotation : Option Ref) :
    (Item.turn v (cat.rotated rotation) rotation).1 = (Item.round (cat.ready v) rotation).head? := by
  rw [Item.turn_fst, ordered.rotated_eq, Item.head?_round, ready, Item.inTurn_filter, List.head?_filter]

theorem Catalog.Ordered.turn_nearest (ordered : cat.Ordered l) {rotation : Option Ref} {item : Item}
    (found : (Item.turn v (cat.rotated rotation) rotation).1 = some item) {other : Item}
    (listed : other ∈ cat.ready v) : Ref.ahead rotation item.ref ≤ Ref.ahead rotation other.ref := by
  rw [ordered.turn_eq, Item.head?_round, List.head?_eq_some_iff] at found
  obtain ⟨rest, order⟩ := found
  have present : other ∈ item :: rest := order ▸ Item.mem_inTurn.mpr listed
  rcases List.mem_cons.mp present with rfl | later
  · exact Nat.le_refl _
  · have pairwise := Item.pairwise_inTurn (ordered.sorted_ready v) rotation
    rw [order] at pairwise
    exact (List.pairwise_cons.mp pairwise).1 other later

theorem Catalog.Ordered.mem_ready_of_turn (ordered : cat.Ordered l) {rotation : Option Ref} {item : Item}
    (found : (Item.turn v (cat.rotated rotation) rotation).1 = some item) : item ∈ cat.ready v := by
  rw [ordered.turn_eq, Item.head?_round] at found
  exact Item.mem_inTurn.mp (List.mem_of_mem_head? found)

theorem Catalog.Ordered.turn_eq_none_iff (ordered : cat.Ordered l) (v : View) (rotation : Option Ref) :
    (Item.turn v (cat.rotated rotation) rotation).1 = none ↔ cat.ready v = [] := by
  rw [ordered.turn_eq, Item.head?_round, List.head?_eq_none_iff, List.eq_nil_iff_forall_not_mem,
    List.eq_nil_iff_forall_not_mem]
  exact forall_congr' fun item => not_congr Item.mem_inTurn

end Store

end Reassembly
