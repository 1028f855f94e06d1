import Reassembly.Proofs.Circle
import Reassembly.Proofs.Search
import Reassembly.Segment

/-!
The two halves of a key. The upper half, its lane, stands for a side and a flow, the lower one for a
sequence number; so the blocks of one lane are neighbours in the order of a store, and stand there in
the order of the numbers.
-/

namespace Reassembly

namespace FlowKey

/-- The upper half of a key: its side and flow. -/
def lane (key : FlowKey) : Nat := key.raw.toNat / Seq.circle

def laneOf (flow : FlowId) (side : Side) : Nat := (flow.raw ||| (side.index <<< 31)).toNat

theorem raw_eq (key : FlowKey) :
    key.raw.toNat = key.lane * Seq.circle + key.seq.word.toNat := by
  rw [lane, seq, UInt32.toNat_ofNat', Seq.circle]
  omega

theorem lane_lt (key : FlowKey) : key.lane < Seq.circle := by
  have := key.raw.toNat_lt
  rw [lane, Seq.circle]
  omega

theorem laneOf_lt (flow : FlowId) (side : Side) : laneOf flow side < Seq.circle :=
  UInt32.toNat_lt _

theorem toNat_raw_pack (flow : FlowId) (side : Side) (seq : Seq) :
    (pack flow side seq).raw.toNat = laneOf flow side * Seq.circle + seq.word.toNat := by
  have upper := laneOf_lt flow side
  have lower := seq.word.toNat_lt
  rw [pack, UInt64.toNat_ofNat', laneOf, Seq.circle]
  rw [laneOf, Seq.circle] at upper
  exact Nat.mod_eq_of_lt (by omega)

@[simp] theorem lane_pack (flow : FlowId) (side : Side) (seq : Seq) :
    (pack flow side seq).lane = laneOf flow side := by
  have lower := seq.word.toNat_lt
  rw [lane, toNat_raw_pack, Seq.circle]
  omega

@[simp] theorem seq_pack (flow : FlowId) (side : Side) (seq : Seq) :
    (pack flow side seq).seq = seq := by
  have lower := seq.word.toNat_lt
  refine Seq.ext_word ?_
  rw [FlowKey.seq, UInt32.toNat_ofNat', toNat_raw_pack, Seq.circle]
  omega

theorem eq_pack_iff (key : FlowKey) (flow : FlowId) (side : Side) :
    key = pack flow side key.seq ↔ key.lane = laneOf flow side := by
  constructor
  · intro same
    rw [same, lane_pack]
  · intro same
    have raws : key.raw.toNat = (pack flow side key.seq).raw.toNat := by
      rw [toNat_raw_pack, raw_eq, same]
    exact congrArg FlowKey.mk (UInt64.toNat_inj.mp raws)

theorem flow_eq (key : FlowKey) : key.flow = ⟨UInt32.ofNat (key.lane % 0x80000000)⟩ := rfl

theorem side_eq (key : FlowKey) :
    key.side = if key.lane < 0x80000000 then .source else .destination := by
  rw [side, lane, Seq.circle]
  congr 1
  rw [eq_iff_iff]
  omega

theorem lane_eq_iff (a b : FlowKey) : a.lane = b.lane ↔ a.flow = b.flow ∧ a.side = b.side := by
  constructor
  · intro same
    rw [flow_eq, flow_eq, side_eq, side_eq, same]
    exact ⟨rfl, rfl⟩
  · rintro ⟨flows, sides⟩
    have first := a.lane_lt
    have second := b.lane_lt
    rw [flow_eq, flow_eq, FlowId.mk.injEq, ← UInt32.toNat_inj, UInt32.toNat_ofNat',
      UInt32.toNat_ofNat'] at flows
    rw [side_eq, side_eq] at sides
    rw [Seq.circle] at first second
    split at sides <;> split at sides <;> simp only [reduceCtorEq] at sides <;> omega

theorem laneOf_eq {flow : FlowId} (side : Side) (checked : flow.raw.toNat < 0x80000000) :
    laneOf flow side = side.index.toNat * 0x80000000 + flow.raw.toNat := by
  have whole := toNat_pack flow side ⟨0⟩ checked
  have halves := toNat_raw_pack flow side ⟨0⟩
  simp only [Seq.circle, UInt32.toNat_zero] at whole halves
  omega

theorem flow_pack {flow : FlowId} (side : Side) (seq : Seq)
    (checked : flow.raw.toNat < 0x80000000) : (pack flow side seq).flow = flow := by
  have word : UInt32.ofNat ((side.index.toNat * 0x80000000 + flow.raw.toNat) % 0x80000000) =
      flow.raw := by
    rw [← UInt32.toNat_inj, UInt32.toNat_ofNat']
    omega
  rw [flow_eq, lane_pack, laneOf_eq side checked, word]

theorem side_pack {flow : FlowId} (side : Side) (seq : Seq)
    (checked : flow.raw.toNat < 0x80000000) : (pack flow side seq).side = side := by
  rw [side_eq, lane_pack, laneOf_eq side checked]
  cases side with
  | source => exact if_pos (by simpa [Side.index] using checked)
  | destination => exact if_neg (by simp [Side.index])

theorem laneOf_inj {flow other : FlowId} {side part : Side}
    (checked : flow.raw.toNat < 0x80000000) (known : other.raw.toNat < 0x80000000)
    (same : laneOf flow side = laneOf other part) : flow = other ∧ side = part := by
  have lanes := (lane_eq_iff (pack flow side ⟨0⟩) (pack other part ⟨0⟩)).mp (by rw [lane_pack, lane_pack, same])
  rw [flow_pack side _ checked, flow_pack part _ known, side_pack side _ checked,
    side_pack part _ known] at lanes
  exact lanes

theorem belongsTo_iff {flow : FlowId} (side : Side) (checked : flow.raw.toNat < 0x80000000)
    (key : FlowKey) : key.belongsTo flow side = true ↔ key.lane = laneOf flow side := by
  have same := lane_eq_iff key (pack flow side ⟨0⟩)
  rw [lane_pack, flow_pack side _ checked, side_pack side _ checked] at same
  rw [belongsTo, Bool.and_eq_true, beq_iff_eq, beq_iff_eq, same]

end FlowKey

def FlowId.keyed (flow : FlowId) : FlowId := ⟨UInt32.ofNat (flow.raw.toNat % 0x80000000)⟩

theorem FlowKey.flow_pack_keyed (flow : FlowId) (side : Side) (seq : Seq) :
    (pack flow side seq).flow = flow.keyed := by
  have bits : flow.raw.toNat ||| (side.index <<< 31).toNat =
      flow.raw.toNat ||| 2 ^ 31 * side.index.toNat := by
    cases side with
    | source => rfl
    | destination => rfl
  have low := Nat.or_mod_two_pow (a := flow.raw.toNat) (b := 2 ^ 31 * side.index.toNat) (n := 31)
  rw [Nat.mul_mod_right, Nat.or_zero] at low
  rw [flow_eq, lane_pack, laneOf, UInt32.toNat_or, bits]
  exact congrArg (fun word => FlowId.mk (UInt32.ofNat word)) low

theorem Segment.flow_key (segment : Segment) : segment.key.flow = segment.flow.keyed :=
  FlowKey.flow_pack_keyed _ _ _

namespace Ref

theorem rank_eq (r : Ref) :
    r.rank = (r.key.lane * Seq.circle + r.key.seq.word.toNat) * 0x10000000000000000 +
      r.generation.toNat := by
  rw [rank, FlowKey.raw_eq]

theorem word_le_of_rank_le {a b : Ref} (lane : a.key.lane = b.key.lane) (le : a.rank ≤ b.rank) :
    a.key.seq.word.toNat ≤ b.key.seq.word.toNat := by
  have first := a.generation.toNat_lt
  have second := b.generation.toNat_lt
  rw [rank_eq, rank_eq, lane, Seq.circle] at le
  omega

end Ref

namespace Store

def Item.lane (item : Item) : Nat := item.key.lane

theorem Item.rank_eq (item : Item) : item.ref.rank =
    (item.lane * Seq.circle + item.start.word.toNat) * 0x10000000000000000 +
      item.ref.generation.toNat :=
  item.ref.rank_eq

namespace Catalog

def inLane (cat : Catalog) (lane : Nat) : List Item := cat.items.filter fun item => item.lane = lane

variable {cat : Catalog} {lane : Nat}

theorem mem_inLane {item : Item} :
    item ∈ cat.inLane lane ↔ item ∈ cat.items ∧ item.lane = lane := by
  rw [inLane, List.mem_filter, decide_eq_true_eq]

theorem Sorted.pairwise_inLane (sorted : Sorted cat.items) (lane : Nat) :
    (cat.inLane lane).Pairwise fun a b => a.start.word.toNat ≤ b.start.word.toNat := by
  refine (sorted.filter _).imp_of_mem fun {a b} first second le => ?_
  have lanes : a.lane = b.lane := (mem_inLane.mp first).2.trans (mem_inLane.mp second).2.symm
  exact Ref.word_le_of_rank_le lanes le

end Catalog

end Store

end Reassembly
