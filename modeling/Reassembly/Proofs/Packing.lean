import Mathlib.Tactic.TFAE
import Reassembly.Proofs.Lanes
import Reassembly.Proofs.Documents

/-!
Which flows have keys of their own. A key has 31 bits for a flow, and the keys of flow numbers of at most
31 bits are told apart by all three of their parts. The checked constructor makes no others, but a document
may carry any word, and one with the top bit set shares its keys with another flow: each of the things that
a key is for fails as soon as there is one such number.
-/

namespace Reassembly

open FlowKey (pack rangeStart rangeEnd)

/-- The flow numbers that can be had: a checked word, or what a document says. -/
inductive FlowId.Obtainable (flow : FlowId) : Prop
  | made {raw : UInt32} (accepted : FlowId.ofWord raw = .ok flow)
  | read {text : String} (accepted : (Json.Value.ofText text).bind FlowId.ofValue? = some flow)

/-- What a key says its parts are, they are. -/
def Decodes (flows : FlowId → Prop) : Prop :=
  ∀ flow, flows flow → ∀ side seq,
    (pack flow side seq).flow = flow ∧ (pack flow side seq).side = side ∧ (pack flow side seq).seq = seq

/-- Keys are sorted by side, then by flow, then by sequence number. -/
def Sorts (flows : FlowId → Prop) : Prop :=
  ∀ flow, flows flow → ∀ other, flows other → ∀ (side part : Side) (seq start : Seq),
    (pack flow side seq).raw < (pack other part start).raw ↔
      side.index < part.index ∨
        side = part ∧ (flow.raw < other.raw ∨ flow = other ∧ seq.word < start.word)

/-- No two blocks of different places share a key. -/
def Separates (flows : FlowId → Prop) : Prop :=
  ∀ flow, flows flow → ∀ other, flows other → ∀ (side part : Side) (seq start : Seq),
    pack flow side seq = pack other part start → flow = other ∧ side = part ∧ seq = start

/-- The keys of a flow and side are those of its interval. -/
def Delimits (flows : FlowId → Prop) : Prop :=
  ∀ flow, flows flow → ∀ side (key : FlowKey),
    key.belongsTo flow side = true ↔
      (rangeStart flow side).raw ≤ key.raw ∧ key.raw ≤ (rangeEnd flow side).raw

namespace FlowKey

variable {flow other : FlowId}

theorem pack_lt_pack_iff (checked : flow.raw.toNat < 0x80000000) (known : other.raw.toNat < 0x80000000)
    (side part : Side) (seq start : Seq) :
    (pack flow side seq).raw < (pack other part start).raw ↔
      side.index < part.index ∨
        side = part ∧ (flow.raw < other.raw ∨ flow = other ∧ seq.word < start.word) := by
  have first := seq.word.toNat_lt
  have second := start.word.toNat_lt
  have flows : flow = other ↔ flow.raw.toNat = other.raw.toNat := by
    rw [UInt32.toNat_inj]
    exact ⟨congrArg FlowId.raw, fun same => by cases flow; cases other; exact congrArg FlowId.mk same⟩
  rw [flows, UInt64.lt_iff_toNat_lt, toNat_pack flow side seq checked, toNat_pack other part start known,
    UInt32.lt_iff_toNat_lt, UInt32.lt_iff_toNat_lt, UInt32.lt_iff_toNat_lt]
  cases side <;> cases part <;> simp [Side.index] <;> omega

theorem pack_inj (checked : flow.raw.toNat < 0x80000000) (known : other.raw.toNat < 0x80000000)
    {side part : Side} {seq start : Seq} (same : pack flow side seq = pack other part start) :
    flow = other ∧ side = part ∧ seq = start := by
  have lanes := congrArg lane same
  have starts := congrArg FlowKey.seq same
  rw [lane_pack, lane_pack] at lanes
  rw [seq_pack, seq_pack] at starts
  obtain ⟨flows, sides⟩ := laneOf_inj checked known lanes
  exact ⟨flows, sides, starts⟩

theorem lane_eq_laneOf_iff (flow : FlowId) (side : Side) (key : FlowKey) :
    key.lane = laneOf flow side ↔
      (rangeStart flow side).raw ≤ key.raw ∧ key.raw ≤ (rangeEnd flow side).raw := by
  have low := key.seq.word.toNat_lt
  rw [UInt64.le_iff_toNat_le, UInt64.le_iff_toNat_le, rangeStart, rangeEnd, toNat_raw_pack, toNat_raw_pack,
    raw_eq key, Seq.circle, UInt32.toNat_zero, show (0xFFFFFFFF : UInt32).toNat = 0xFFFFFFFF from rfl]
  omega

theorem pack_source_eq_pack_destination (wide : ¬flow.raw.toNat < 0x80000000) (seq : Seq) :
    pack flow .source seq = pack flow .destination seq := by
  have bit : flow.raw ||| (Side.source.index <<< 31) = flow.raw ||| (Side.destination.index <<< 31) := by
    have top := Nat.two_pow_add_eq_or_of_lt (i := 31) (b := flow.raw.toNat - 0x80000000)
      (by have := flow.raw.toNat_lt; omega) 1
    rw [← UInt32.toNat_inj, UInt32.toNat_or, UInt32.toNat_or,
      show (Side.source.index <<< 31).toNat = 0 from rfl,
      show (Side.destination.index <<< 31).toNat = 2 ^ 31 * 1 from rfl,
      show flow.raw.toNat = 2 ^ 31 * 1 ||| (flow.raw.toNat - 0x80000000) by omega, Nat.or_zero,
      Nat.or_assoc, Nat.or_comm _ (2 ^ 31 * 1), ← Nat.or_assoc, Nat.or_self]
  rw [pack, pack, bit]

theorem flow_pack_ne (wide : ¬flow.raw.toNat < 0x80000000) (side : Side) (seq : Seq) :
    (pack flow side seq).flow ≠ flow := by
  rw [flow_pack_keyed, FlowId.keyed]
  intro same
  have word := congrArg (fun flow => flow.raw.toNat) same
  simp only [UInt32.toNat_ofNat'] at word
  omega

end FlowKey

open FlowKey

theorem keys_tfae (flows : FlowId → Prop) :
    [∀ flow, flows flow → flow.raw.toNat < 0x80000000,
      Decodes flows, Sorts flows, Separates flows, Delimits flows].TFAE := by
  tfae_have 1 → 2 := fun checked flow here side seq =>
    ⟨flow_pack side seq (checked flow here), side_pack side seq (checked flow here), seq_pack flow side seq⟩
  tfae_have 1 → 3 := fun checked flow here other there =>
    pack_lt_pack_iff (checked flow here) (checked other there)
  tfae_have 1 → 4 := fun checked flow here other there _ _ _ _ =>
    pack_inj (checked flow here) (checked other there)
  tfae_have 1 → 5 := fun checked flow here side key =>
    (belongsTo_iff side (checked flow here) key).trans (lane_eq_laneOf_iff flow side key)
  tfae_have 2 → 1 := by
    intro decodes flow here
    by_contra wide
    exact flow_pack_ne wide .source ⟨0⟩ (decodes flow here .source ⟨0⟩).1
  tfae_have 3 → 1 := by
    intro sorts flow here
    by_contra wide
    have less := (sorts flow here flow here .source .destination ⟨0⟩ ⟨0⟩).mpr (.inl (by decide))
    rw [pack_source_eq_pack_destination wide] at less
    exact UInt64.lt_irrefl _ less
  tfae_have 4 → 1 := by
    intro separates flow here
    by_contra wide
    have sides := separates flow here flow here .source .destination ⟨0⟩ ⟨0⟩
      (pack_source_eq_pack_destination wide _)
    exact absurd sides.2.1 (by decide)
  tfae_have 5 → 1 := by
    intro delimits flow here
    by_contra wide
    have mine := (delimits flow here .source (rangeStart flow .source)).mpr
      ((lane_eq_laneOf_iff flow .source _).mp (lane_pack flow .source _))
    rw [belongsTo, Bool.and_eq_true, beq_iff_eq] at mine
    exact flow_pack_ne wide .source ⟨0⟩ mine.1
  tfae_finish

namespace FlowId

theorem ofWord_eq_ok_iff {raw : UInt32} {flow : FlowId} :
    ofWord raw = .ok flow ↔ flow.raw = raw ∧ flow.raw.toNat < 0x80000000 := by
  rw [ofWord]
  split
  case isTrue small =>
    rw [UInt32.le_iff_toNat_le, show (0x7FFFFFFF : UInt32).toNat = 0x7FFFFFFF from rfl] at small
    constructor
    · rintro ⟨⟩
      exact ⟨rfl, Nat.lt_succ_of_le small⟩
    · rintro ⟨rfl, -⟩
      rfl
  case isFalse large =>
    rw [UInt32.le_iff_toNat_le, show (0x7FFFFFFF : UInt32).toNat = 0x7FFFFFFF from rfl] at large
    refine ⟨nofun, ?_⟩
    rintro ⟨rfl, checked⟩
    omega

/-- Every word is a flow number that can be had, though construction only makes the checked ones; and
numbers of some set are told by their keys, in whichever respect, if and only if all are checked. -/
theorem faithful_keys_iff_checked (flows : FlowId → Prop) :
    (∀ flow : FlowId, Obtainable flow) ∧
      (∀ flow : FlowId, (∃ raw, ofWord raw = .ok flow) ↔ flow.raw.toNat < 0x80000000) ∧
      [∀ flow, flows flow → flow.raw.toNat < 0x80000000,
        Decodes flows, Sorts flows, Separates flows, Delimits flows].TFAE := by
  refine ⟨fun flow => .read (ofText_toValue flow), fun flow => ?_, keys_tfae flows⟩
  constructor
  · rintro ⟨raw, accepted⟩
    exact (ofWord_eq_ok_iff.mp accepted).2
  · intro checked
    exact ⟨flow.raw, ofWord_eq_ok_iff.mpr ⟨rfl, checked⟩⟩

/-- A document may carry the number 2147483648, and the keys of its source are those of the destination of
flow 0. -/
theorem mistaken_for_another_flow :
    ∃ flow : FlowId, (Json.Value.ofText "2147483648").bind ofValue? = some flow ∧ Obtainable flow ∧
      (pack flow .source ⟨1⟩).flow ≠ flow ∧ (pack flow .source ⟨1⟩).side ≠ .source ∧
      pack flow .source ⟨1⟩ = pack ⟨0⟩ .destination ⟨1⟩ ∧
      (pack flow .source ⟨1⟩).belongsTo flow .source = false ∧
      (rangeStart flow .source).raw ≤ (pack flow .source ⟨1⟩).raw ∧
      (pack flow .source ⟨1⟩).raw ≤ (rangeEnd flow .source).raw := by
  have read : (Json.Value.ofText "2147483648").bind ofValue? = some ⟨2147483648⟩ := by decide +kernel
  exact ⟨⟨2147483648⟩, read, .read read, by decide, by decide, by decide, by decide, by decide, by decide⟩

end FlowId

end Reassembly
