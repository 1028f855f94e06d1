import Reassembly.Proofs.Freezing
import Reassembly.Proofs.Ranges
import Reassembly.Proofs.Representation

/-!
Walks through a store that others change meanwhile. A walk looks into the store again for every block, and
before each look anything may happen to it. What it has in hand is a reference, which orders the walk also
when its block is gone; so no look passes over a block that is there, and a walk over a side of a flow finds
every block of it that stays from the first look to the last.
-/

namespace Reassembly

open Store Reading

/-! ### No look-up passes over a block -/

namespace Store.Catalog

variable {cat : Catalog} {l : Layout} (ordered : cat.Ordered l)
include ordered

theorem Ordered.getElem?_countP {test : Item → Bool} (falling : Falling test cat.items) {other : Item}
    (member : other ∈ cat.items) (fails : ¬ test other = true) :
    ∃ item, cat.items[cat.items.countP test % cat.items.length]? = some item ∧ ¬ test item = true ∧
      item.ref.rank ≤ other.ref.rank := by
  obtain ⟨pos, live, rfl⟩ := List.getElem_of_mem member
  have reached : cat.items.countP test ≤ pos := Nat.not_lt.mp (mt (falling.lt_countP_iff live).mp fails)
  have inside : cat.items.countP test < cat.items.length := Nat.lt_of_le_of_lt reached live
  refine ⟨cat.items[cat.items.countP test], ?_, ?_, ?_⟩
  · rw [Nat.mod_eq_of_lt inside, List.getElem?_eq_getElem inside]
  · exact mt (falling.lt_countP_iff inside).mpr (Nat.lt_irrefl _)
  · rcases Nat.eq_or_lt_of_le reached with same | before
    · simp only [same, Nat.le_refl]
    · exact List.pairwise_iff_getElem.mp ordered.sorted _ _ inside live before

theorem Ordered.next?_le {ref : Ref} {other : Item} (member : other ∈ cat.items)
    (behind : ref.rank < other.ref.rank) :
    ∃ item, cat.next? ref = some item ∧ ref.rank < item.ref.rank ∧ item.ref.rank ≤ other.ref.rank := by
  have fails : ¬ other.ref.upTo ref = true := by
    rw [Ref.upTo_iff]
    omega
  obtain ⟨item, there, beyond, le⟩ := ordered.getElem?_countP (ordered.sorted.falling_upTo ref) member fails
  rw [Ref.upTo_iff, Nat.not_le] at beyond
  have apart : item.ref ≠ ref := by
    rintro rfl
    exact Nat.lt_irrefl _ beyond
  refine ⟨item, ?_, beyond, le⟩
  rw [next?, through, there, Option.filter_some, if_pos (by simpa using apart)]

theorem Ordered.firstFrom?_le {key : FlowKey} {other : Item} (member : other ∈ cat.items)
    (reached : (⟨key, 0⟩ : Ref).rank ≤ other.ref.rank) :
    ∃ item, cat.firstFrom? key = some item ∧ (⟨key, 0⟩ : Ref).rank ≤ item.ref.rank ∧
      item.ref.rank ≤ other.ref.rank := by
  have fails : ¬ other.ref.before ⟨key, 0⟩ = true := by
    rw [Ref.before_iff]
    omega
  obtain ⟨item, there, beyond, le⟩ := ordered.getElem?_countP (ordered.sorted.falling_before _) member fails
  rw [Ref.before_iff, Nat.not_lt] at beyond
  exact ⟨item, there, beyond, le⟩

end Store.Catalog

/-! ### The keys of a side -/

theorem FlowKey.lt_of_belongsTo {key : FlowKey} {flow : FlowId} {side : Side}
    (belongs : key.belongsTo flow side = true) : flow.raw.toNat < 0x80000000 := by
  rw [belongsTo, Bool.and_eq_true, beq_iff_eq] at belongs
  rw [← belongs.1, flow_eq, UInt32.toNat_ofNat']
  omega

namespace Ref

theorem lane_between {low mid high : Ref} (same : low.key.lane = high.key.lane) (le : low.rank ≤ mid.rank)
    (ge : mid.rank ≤ high.rank) : mid.key.lane = high.key.lane := by
  have := low.key.seq.word.toNat_lt
  have := mid.key.seq.word.toNat_lt
  have := high.key.seq.word.toNat_lt
  have := low.generation.toNat_lt
  have := mid.generation.toNat_lt
  have := high.generation.toNat_lt
  rw [rank_eq, rank_eq, Seq.circle] at le ge
  omega

theorem rangeStart_le {ref : Ref} {flow : FlowId} {side : Side} (lane : ref.key.lane = FlowKey.laneOf flow side) :
    (⟨.rangeStart flow side, 0⟩ : Ref).rank ≤ ref.rank := by
  rw [rank_eq, rank_eq, FlowKey.rangeStart, FlowKey.lane_pack, FlowKey.seq_pack, lane, UInt64.toNat_zero,
    UInt32.toNat_zero]
  omega

end Ref

/-! ### Walks by any ways to look up blocks -/

namespace Reading

section
variable {m : Type → Type} [Monad m] (first : FlowKey → m (Option Stored)) (next : Ref → m (Option Stored))

def walkFromBy (wanted : FlowKey → Bool) (block : Stored) : m (List Stored) := do
  if wanted block.key then
    match ← next block.ref with
    | none => return [block]
    | some following =>
      if _further : Ref.before block.ref following.ref = true then
        return block :: (← walkFromBy wanted following)
      else return [block]
  else return []
  termination_by Ref.count - block.ref.rank
  decreasing_by
    have := (Ref.before_iff _ _).mp _further
    have := following.ref.rank_lt
    simp only [Ref.count] at *
    omega

def rangeBy (flow : FlowId) (side : Side) : m (List Stored) := do
  match ← first (.rangeStart flow side) with
  | none => return []
  | some block => walkFromBy next (·.belongsTo flow side) block

end

theorem walkFrom_eq (v : View) (wanted : FlowKey → Bool) (block : Stored) :
    walkFrom v wanted block = walkFromBy (next v) wanted block := by
  fun_induction walkFromBy (next v) wanted block with
  | case1 block here ih =>
    rw [walkFrom, if_pos here]
    congr 1
    funext found
    cases found with
    | none => rfl
    | some following =>
      dsimp only
      by_cases further : Ref.before block.ref following.ref = true
      · rw [dif_pos further, dif_pos further, ih following further]
      · rw [dif_neg further, dif_neg further]
  | case2 block elsewhere => rw [walkFrom, if_neg elsewhere]

theorem range_eq (v : View) (flow : FlowId) (side : Side) :
    range v flow side = rangeBy (firstFrom v) (next v) flow side := by
  unfold range walk rangeBy
  congr 1
  funext found
  cases found with
  | none => rfl
  | some block => exact walkFrom_eq v _ block

end Reading

/-! ### Walks with pauses -/

namespace Commons

/-- What happens at a region before a reader looks into the store, and the time at which it looks. -/
structure Pause where
  moves : List Move
  now : Micros

def after (c : Commons) (pauses : Nat → Pause) : Nat → Commons
  | 0 => c
  | made + 1 => (c.after pauses made).run (pauses made).moves

/-- A region, and how many pauses were made at it. -/
structure Visit where
  commons : Commons
  made : Nat

def Visit.look {α : Type} (a : Attachment) (pauses : Nat → Pause) (call : View → Access α) : Work Visit α :=
  fun visit =>
    let pause := pauses visit.made
    let c := visit.commons.run pause.moves
    match call (a.view pause.now) ⟨a.handle, c.bytes⟩ with
    | .ok answer region => .ok answer ⟨⟨region.bytes, c.handles⟩, visit.made + 1⟩
    | .error fault region => .error fault ⟨⟨region.bytes, c.handles⟩, visit.made + 1⟩

def Visit.walkFrom (a : Attachment) (pauses : Nat → Pause) : (FlowKey → Bool) → Stored → Work Visit (List Stored) :=
  walkFromBy fun ref => look a pauses (Reading.next · ref)

/-- The walk over a side of a flow, with a pause before each look. -/
def Visit.range (a : Attachment) (pauses : Nat → Pause) : FlowId → Side → Work Visit (List Stored) :=
  rangeBy (fun key => look a pauses (Reading.firstFrom · key)) fun ref => look a pauses (Reading.next · ref)

/-- The store has a block under a reference. -/
def Lists (c : Commons) (l : Layout) (ref : Ref) : Prop := ∃ item ∈ Catalog.itemsIn l c.bytes, item.ref = ref

/-- A block was copied from the store at some time. -/
def Shows (c : Commons) (v : View) (block : Stored) : Prop :=
  ∃ item ∈ Catalog.itemsIn v.layout c.bytes, block = item.stored v

structure Finds (c : Commons) (a : Attachment) (pauses : Nat → Pause) (wanted : FlowKey → Bool) (block : Stored)
    (first stop : Nat) (blocks : List Stored) : Prop where
  passing : ∀ other ∈ blocks, wanted other.key = true
  behind : ∀ other ∈ blocks, block.ref.rank ≤ other.ref.rank
  increasing : blocks.Pairwise fun earlier later => earlier.ref.before later.ref = true
  /-- Every other block was copied at one of the looks. -/
  copied : ∀ other ∈ blocks, other = block ∨ ∃ look, first ≤ look ∧ look < stop ∧
    (c.after pauses (look + 1)).Shows (a.view (pauses look).now) other
  /-- What the store has under a reference at every look is found, if all up to it is wanted. -/
  complete : ∀ ref : Ref, block.ref.rank ≤ ref.rank →
    (∀ mid : Ref, block.ref.rank ≤ mid.rank → mid.rank ≤ ref.rank → wanted mid.key = true) →
    (∀ look, first ≤ look → look < stop → (c.after pauses (look + 1)).Lists a.layout ref) →
    ref ∈ blocks.map Stored.ref

namespace Finds

variable {c : Commons} {a : Attachment} {pauses : Nat → Pause} {wanted : FlowKey → Bool} {block following : Stored}
  {first stop : Nat} {blocks : List Stored}

theorem nothing (elsewhere : ¬ wanted block.key = true) : Finds c a pauses wanted block first first [] where
  passing := fun _ listed => absurd listed List.not_mem_nil
  behind := fun _ listed => absurd listed List.not_mem_nil
  increasing := .nil
  copied := fun _ listed => absurd listed List.not_mem_nil
  complete := fun _ le all _ => absurd (all block.ref (Nat.le_refl _) le) elsewhere

theorem last (here : wanted block.key = true)
    (alone : ∀ ref, (c.after pauses (first + 1)).Lists a.layout ref → ref.rank ≤ block.ref.rank) :
    Finds c a pauses wanted block first (first + 1) [block] where
  passing := by
    intro other listed
    rw [List.mem_singleton.mp listed]
    exact here
  behind := by
    intro other listed
    rw [List.mem_singleton.mp listed]
  increasing := List.pairwise_singleton _ _
  copied := fun other listed => .inl (List.mem_singleton.mp listed)
  complete := by
    intro ref le _ there
    have same : ref = block.ref :=
      Ref.rank_injective (Nat.le_antisymm (alone ref (there first (Nat.le_refl _) (Nat.lt_succ_self _))) le)
    rw [same]
    exact List.mem_singleton_self _

theorem cons (finds : Finds c a pauses wanted following (first + 1) stop blocks) (more : first + 1 ≤ stop)
    (here : wanted block.key = true) (further : block.ref.rank < following.ref.rank)
    (copy : (c.after pauses (first + 1)).Shows (a.view (pauses first).now) following)
    (nearest : ∀ ref, (c.after pauses (first + 1)).Lists a.layout ref → block.ref.rank < ref.rank →
      following.ref.rank ≤ ref.rank) :
    Finds c a pauses wanted block first stop (block :: blocks) where
  passing := by
    intro other listed
    rcases List.mem_cons.mp listed with rfl | later
    · exact here
    · exact finds.passing other later
  behind := by
    intro other listed
    rcases List.mem_cons.mp listed with rfl | later
    · exact Nat.le_refl _
    · exact further.le.trans (finds.behind other later)
  increasing := by
    refine List.pairwise_cons.mpr ⟨?_, finds.increasing⟩
    intro other later
    rw [Ref.before_iff]
    exact further.trans_le (finds.behind other later)
  copied := by
    intro other listed
    rcases List.mem_cons.mp listed with rfl | later
    · exact .inl rfl
    · rcases finds.copied other later with rfl | ⟨look, low, high, shown⟩
      · exact .inr ⟨first, Nat.le_refl _, more, copy⟩
      · exact .inr ⟨look, (Nat.le_succ _).trans low, high, shown⟩
  complete := by
    intro ref le all there
    rcases Nat.eq_or_lt_of_le le with same | behind
    · rw [← Ref.rank_injective same]
      exact List.mem_cons_self
    · refine List.mem_cons_of_mem _ (finds.complete ref ?_ ?_ ?_)
      · exact nearest ref (there first (Nat.le_refl _) more) behind
      · exact fun mid low high => all mid (further.le.trans low) high
      · exact fun look low high => there look ((Nat.le_succ _).trans low) high

end Finds

section

variable {c : Commons} {a : Attachment} {cat : Catalog} (carrying : Carrying a.layout c cat)
  (long : a.layout.required ≤ a.handle.length) (pauses : Nat → Pause)
include carrying

theorem Carrying.lists_iff (ref : Ref) : c.Lists a.layout ref ↔ ∃ item ∈ cat.items, item.ref = ref := by
  have same : Catalog.itemsIn a.layout c.bytes = cat.items := carrying.carries.itemsIn_eq
  rw [Lists, same]

theorem Carrying.shows {item : Item} (member : item ∈ cat.items) (now : Micros) :
    c.Shows (a.view now) (item.stored (a.view now)) := by
  have same : Catalog.itemsIn a.layout c.bytes = cat.items := carrying.carries.itemsIn_eq
  exact ⟨item, same ▸ member, rfl⟩

theorem Carrying.after (count : Nat) : ∃ cat', Carrying a.layout (c.after pauses count) cat' := by
  induction count with
  | zero => exact ⟨cat, carrying⟩
  | succ count ih =>
    obtain ⟨_, before⟩ := ih
    exact before.run (pauses count).moves

theorem Carrying.lists_after {ref : Ref} {item : Item} (found : cat.find? ref = some item)
    (spared : ∀ made index now, .operate index (.erase ref now) ∉ (pauses made).moves) (count : Nat) :
    (c.after pauses count).Lists a.layout ref := by
  have named : ∃ cat' later, Carrying a.layout (c.after pauses count) cat' ∧ cat'.find? ref = some later := by
    induction count with
    | zero => exact ⟨cat, item, carrying, found⟩
    | succ count ih =>
      obtain ⟨_, _, before, there⟩ := ih
      obtain ⟨cat', later, carrying', kept, _⟩ := before.find?_keeps (pauses count).moves there (spared count)
      exact ⟨cat', later, carrying', kept⟩
  obtain ⟨cat', later, carrying', there⟩ := named
  exact (carrying'.lists_iff ref).mpr ⟨later, Catalog.mem_of_find? there, Catalog.ref_of_find? there⟩

include long

theorem Carrying.look_run {α : Type} {call : View → Access α} (answer : View → Catalog → α)
    (calls : ∀ {v : View} {r : Region} {cat : Catalog}, Carries v.layout r cat → call v r = .ok (answer v cat) r)
    (made : Nat) :
    ∃ cat', Carrying a.layout (c.after pauses (made + 1)) cat' ∧
      Visit.look a pauses call ⟨c.after pauses made, made⟩ =
        .ok (answer (a.view (pauses made).now) cat') ⟨c.after pauses (made + 1), made + 1⟩ := by
  obtain ⟨cat', there⟩ := carrying.after pauses (made + 1)
  have seen : Carries a.layout ⟨a.handle, (c.after pauses (made + 1)).bytes⟩ cat' := there.carries.through long
  have ran := calls (v := a.view (pauses made).now) seen
  refine ⟨cat', there, ?_⟩
  rw [Commons.after] at ran ⊢
  simp only [Visit.look, ran]

theorem Carrying.walkFrom_run (wanted : FlowKey → Bool) (block : Stored) (first : Nat) :
    ∃ blocks stop, first ≤ stop ∧
      Visit.walkFrom a pauses wanted block ⟨c.after pauses first, first⟩ =
        .ok blocks ⟨c.after pauses stop, stop⟩ ∧
      Finds c a pauses wanted block first stop blocks := by
  unfold Visit.walkFrom
  rw [walkFromBy]
  by_cases here : wanted block.key = true
  · obtain ⟨cat', there, looked⟩ := carrying.look_run long pauses
      (fun v cat => (cat.next? block.ref).map (Item.stored v)) (fun carries => next_run carries block.ref) first
    have ordered := there.carries.ordered
    rw [if_pos here, Work.bind_ok looked]
    -- whatever is there behind the block, the look gives the first of it
    have nearest : ∀ ref, (c.after pauses (first + 1)).Lists a.layout ref → block.ref.rank < ref.rank →
        ∃ item, cat'.next? block.ref = some item ∧ block.ref.rank < item.ref.rank ∧ item.ref.rank ≤ ref.rank := by
      intro ref listed behind
      obtain ⟨other, member, rfl⟩ := (there.lists_iff ref).mp listed
      exact ordered.next?_le member behind
    cases found : cat'.next? block.ref with
    | none =>
      refine ⟨[block], first + 1, Nat.le_succ _, Work.pure_run _ _, .last here ?_⟩
      intro ref listed
      apply Nat.not_lt.mp
      intro behind
      obtain ⟨item, other, _⟩ := nearest ref listed behind
      rw [found] at other
      cases other
    | some item =>
      have ref : (item.stored (a.view (pauses first).now)).ref = item.ref := rfl
      dsimp only [Option.map_some]
      by_cases further : Ref.before block.ref item.ref = true
      · have less := (Ref.before_iff _ _).mp further
        obtain ⟨blocks, stop, more, walked, finds⟩ :=
          walkFrom_run wanted (item.stored (a.view (pauses first).now)) (first + 1)
        unfold Visit.walkFrom at walked
        rw [ref, dif_pos further, Work.bind_ok walked]
        refine ⟨block :: blocks, stop, (Nat.le_succ _).trans more, Work.pure_run _ _,
          finds.cons more here less (there.shows (Catalog.mem_of_next? found) _) ?_⟩
        intro other listed behind
        obtain ⟨_, same, _, le⟩ := nearest other listed behind
        rw [found] at same
        cases same
        exact le
      · rw [ref, dif_neg further]
        refine ⟨[block], first + 1, Nat.le_succ _, Work.pure_run _ _, .last here ?_⟩
        intro other listed
        apply Nat.not_lt.mp
        intro behind
        obtain ⟨_, same, less, _⟩ := nearest other listed behind
        rw [found] at same
        cases same
        exact further ((Ref.before_iff _ _).mpr less)
  · rw [if_neg here]
    exact ⟨[], first, Nat.le_refl _, Work.pure_run _ _, .nothing here⟩
  termination_by Ref.count - block.ref.rank
  decreasing_by
    have bound := item.ref.rank_lt
    rw [ref]
    omega

/-- A walk over a side gives blocks of the side in order, each as it was at a look, and misses none that is
there at every look. -/
theorem Carrying.range_paced (flow : FlowId) (side : Side) : ∃ blocks count,
    Visit.range a pauses flow side ⟨c, 0⟩ = .ok blocks ⟨c.after pauses count, count⟩ ∧
      (∀ block ∈ blocks, block.key.belongsTo flow side = true ∧
        ∃ look < count, (c.after pauses (look + 1)).Shows (a.view (pauses look).now) block) ∧
      blocks.Pairwise (fun earlier later => earlier.ref.before later.ref = true) ∧
      ∀ ref : Ref, ref.key.belongsTo flow side = true →
        (∀ look < count, (c.after pauses (look + 1)).Lists a.layout ref) → ref ∈ blocks.map Stored.ref := by
  obtain ⟨cat', there, looked⟩ := carrying.look_run long pauses
    (fun v cat => (cat.firstFrom? (.rangeStart flow side)).map (Item.stored v))
    (fun carries => firstFrom_run carries _) 0
  -- a block of the side is not before the first key, so the first look gives one no later
  have nearest : ∀ ref : Ref, ref.key.belongsTo flow side = true → (c.after pauses 1).Lists a.layout ref →
      ∃ item, cat'.firstFrom? (.rangeStart flow side) = some item ∧
        (⟨.rangeStart flow side, 0⟩ : Ref).rank ≤ item.ref.rank ∧ item.ref.rank ≤ ref.rank := by
    intro ref belongs listed
    obtain ⟨other, member, rfl⟩ := (there.lists_iff ref).mp listed
    have checked := FlowKey.lt_of_belongsTo belongs
    exact there.carries.ordered.firstFrom?_le member
      (Ref.rangeStart_le ((FlowKey.belongsTo_iff side checked _).mp belongs))
  unfold Visit.range rangeBy
  rw [Commons.after] at looked
  rw [Work.bind_ok looked]
  cases found : cat'.firstFrom? (.rangeStart flow side) with
  | none =>
    refine ⟨[], 1, Work.pure_run _ _, fun _ listed => absurd listed List.not_mem_nil, .nil, ?_⟩
    intro ref belongs stays
    obtain ⟨_, same, _⟩ := nearest ref belongs (stays 0 Nat.zero_lt_one)
    rw [found] at same
    cases same
  | some item =>
    obtain ⟨blocks, stop, more, walked, finds⟩ := carrying.walkFrom_run long pauses
      (·.belongsTo flow side) (item.stored (a.view (pauses 0).now)) 1
    refine ⟨blocks, stop, walked, ?_, finds.increasing, ?_⟩
    · intro block listed
      refine ⟨finds.passing block listed, ?_⟩
      rcases finds.copied block listed with rfl | ⟨look, _, high, shown⟩
      · exact ⟨0, more, there.shows (Catalog.mem_of_firstFrom? found) _⟩
      · exact ⟨look, high, shown⟩
    · intro ref belongs stays
      obtain ⟨_, same, low, high⟩ := nearest ref belongs (stays 0 more)
      rw [found] at same
      cases same
      have checked := FlowKey.lt_of_belongsTo belongs
      have lane := (FlowKey.belongsTo_iff side checked _).mp belongs
      refine finds.complete ref high ?_ fun look _ inside => stays look inside
      intro mid above below
      have first : (⟨.rangeStart flow side, 0⟩ : Ref).key.lane = ref.key.lane := by
        rw [FlowKey.rangeStart, FlowKey.lane_pack, lane]
      exact (FlowKey.belongsTo_iff side checked _).mpr
        ((Ref.lane_between first (low.trans above) below).trans lane)

end

end Commons

theorem Reading.range_eq_filter {v : View} {r : Region} {cat : Catalog} (carries : Carries v.layout r cat)
    (separate : cat.Distinct) (flow : FlowId) (side : Side) :
    range v flow side r =
      .ok ((cat.items.filter fun item => item.key.belongsTo flow side).map (Item.stored v)) r := by
  by_cases checked : flow.raw.toNat < 0x80000000
  · have lane : cat.inLane (FlowKey.laneOf flow side) =
        cat.items.filter fun item => item.key.belongsTo flow side := by
      refine List.filter_congr fun item _ => ?_
      rw [Bool.eq_iff_iff, decide_eq_true_eq, FlowKey.belongsTo_iff side checked]
      exact Iff.rfl
    rw [range_run carries separate checked, lane]
  · have elsewhere (key : FlowKey) : ¬ key.belongsTo flow side = true := mt FlowKey.lt_of_belongsTo checked
    rw [List.filter_eq_nil_iff.mpr fun item _ => elsewhere item.key, range, walk,
      Work.bind_ok (firstFrom_run carries _)]
    cases cat.firstFrom? (.rangeStart flow side) with
    | none => rfl
    | some item =>
      dsimp only [Option.map_some]
      rw [Reading.walkFrom, if_neg (elsewhere _)]
      rfl

namespace Commons

/-- A walk over a side of a flow misses nothing. Whatever handles did to a store since it was formatted, and
whatever they do in the pauses before the looks of a walk through one of them, the walk comes to an end. It
gives blocks of the side only, each as it was at a look and no reference twice, in the order of the store; and
it gives every block of the side that is there at each of the looks. A reader's walk is this one without
pauses, and finds just what the store has of the side, in its order. -/
theorem Fresh.walks_completely {start : Commons} (fresh : start.Fresh) (moves : List Move) {a : Attachment}
    (attached : a ∈ (start.run moves).handles) (flow : FlowId) (side : Side) :
    let c := start.run moves
    (∀ pauses, ∃ blocks count,
      Visit.range a pauses flow side ⟨c, 0⟩ = .ok blocks ⟨c.after pauses count, count⟩ ∧
        (∀ block ∈ blocks, block.key.belongsTo flow side = true ∧
          ∃ look < count, (c.after pauses (look + 1)).Shows (a.view (pauses look).now) block) ∧
        blocks.Pairwise (fun earlier later => earlier.ref.before later.ref = true) ∧
        ∀ ref : Ref, ref.key.belongsTo flow side = true →
          (∀ look < count, (c.after pauses (look + 1)).Lists a.layout ref) → ref ∈ blocks.map Stored.ref) ∧
    ∀ now,
      range (a.view now) flow side = rangeBy (firstFrom (a.view now)) (next (a.view now)) flow side ∧
        (start.addedBy moves < UInt64.size → range (a.view now) flow side ⟨a.handle, c.bytes⟩ =
          .ok (((Catalog.itemsIn a.layout c.bytes).filter fun item => item.key.belongsTo flow side).map
            (Item.stored (a.view now))) ⟨a.handle, c.bytes⟩) := by
  intro c
  obtain ⟨l, first⟩ := fresh.carrying
  obtain ⟨cat, carrying⟩ := first.run moves
  obtain ⟨rfl, long, _⟩ := carrying.tidy a attached
  refine ⟨fun pauses => carrying.range_paced long pauses flow side, fun now => ⟨range_eq _ flow side, fun few => ?_⟩⟩
  obtain ⟨cat', carrying', numbered⟩ := first.run_numbered .empty moves (by
    rw [Catalog.empty, UInt64.toNat_zero, Nat.zero_add]
    exact few)
  have seen := carrying'.seen attached
  have same : Catalog.itemsIn a.layout c.bytes = cat'.items := seen.itemsIn_eq
  rw [same]
  exact range_eq_filter (v := a.view now) seen numbered.refs flow side

/-- Before the second look and the third, the block is erased that the look before gave. -/
def erasingVisited : Nat → Pause
  | 1 => ⟨[.operate 0 (.erase ⟨.pack ⟨7⟩ .source ⟨100⟩, 0⟩ 3000000)], 3000000⟩
  | 2 => ⟨[.operate 0 (.erase ⟨.pack ⟨7⟩ .source ⟨100⟩, 1⟩ 3000001)], 3000001⟩
  | _ => ⟨[], 3000002⟩

/-- A walk over three blocks reaches the last, though each of the others is erased once it was visited. -/
theorem walks_completely_erasing : ∃ start : Commons, start.Fresh ∧ ∃ moves a,
    a ∈ (start.run moves).handles ∧
      ¬ ((start.run moves).after erasingVisited 3).Lists a.layout ⟨.pack ⟨7⟩ .source ⟨100⟩, 1⟩ ∧
      ∃ blocks visit, Visit.range a erasingVisited ⟨7⟩ .source ⟨start.run moves, 0⟩ = .ok blocks visit ∧
        ⟨.pack ⟨7⟩ .source ⟨300⟩, 2⟩ ∈ blocks.map Stored.ref := by
  obtain ⟨start, fresh, handles, carrying⟩ :=
    (@Commons.Fresh.of_config ({ blockCapacity := 64, maxBlocks := 8 })) rfl rfl
  let puts : List Operation := [.put ⟨⟨7⟩, .source, ⟨100⟩, ⟨#[3, 4, 5]⟩⟩ 1000000,
    .put ⟨⟨7⟩, .source, ⟨300⟩, ⟨#[6, 7]⟩⟩ 1000001]
  let erasures : List Operation := [.erase ⟨.pack ⟨7⟩ .source ⟨100⟩, 0⟩ 3000000,
    .erase ⟨.pack ⟨7⟩ .source ⟨100⟩, 1⟩ 3000001]
  obtain ⟨attached, carrying'⟩ := carrying.alone handles puts
  generalize made : Operation.effects _ _ puts = shared at attached carrying'
  obtain ⟨_, emptied⟩ := carrying'.alone attached erasures
  have member : shared.1 ∈ (start.run (puts.map (.operate 0))).handles := attached ▸ List.mem_singleton_self _
  have layout := (carrying'.tidy shared.1 member).layout
  rw [← layout] at carrying' emptied
  have gone : ¬ ((start.run (puts.map (.operate 0))).after erasingVisited 3).Lists shared.1.layout
      ⟨.pack ⟨7⟩ .source ⟨100⟩, 1⟩ := by
    refine mt (emptied.lists_iff _).mp ?_
    subst made
    decide +kernel
  have found : ∃ item, shared.2.find? ⟨.pack ⟨7⟩ .source ⟨300⟩, 2⟩ = some item := by
    subst made
    exact Option.isSome_iff_exists.mp (by decide +kernel)
  obtain ⟨item, found⟩ := found
  have spared : ∀ made index now,
      .operate index (.erase ⟨.pack ⟨7⟩ .source ⟨300⟩, 2⟩ now) ∉ (erasingVisited made).moves := by
    intro made index now
    unfold erasingVisited
    split <;> simp [FlowKey.pack]
  obtain ⟨walks, _⟩ := fresh.walks_completely (puts.map (.operate 0)) member ⟨7⟩ .source
  obtain ⟨blocks, count, ran, _, _, complete⟩ := walks erasingVisited
  exact ⟨start, fresh, puts.map (.operate 0), shared.1, member, gone, blocks, _, ran,
    complete _ (by decide) fun look _ => carrying'.lists_after erasingVisited found spared (look + 1)⟩

end Commons

end Reassembly
