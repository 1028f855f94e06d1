import Reassembly.Flow
import Reassembly.Seq

/-!
Keys and references of stored blocks. A key is one 64-bit word: the side in its top bit, the flow in
the next 31 bits, the sequence number in the low 32. A reference adds the generation of the
insertion, which no two blocks of a store share, and orders first by key.
-/

namespace Reassembly

structure FlowKey where
  raw : UInt64
  deriving DecidableEq, Inhabited

namespace FlowKey

def pack (flow : FlowId) (side : Side) (seq : Seq) : FlowKey :=
  let upper := flow.raw ||| (side.index <<< 31)
  ⟨UInt64.ofNat (upper.toNat * 0x100000000 + seq.word.toNat)⟩

/-- The flow in a key, always a word of 31 bits. -/
def flow (key : FlowKey) : FlowId := ⟨UInt32.ofNat (key.raw.toNat / 0x100000000 % 0x80000000)⟩

def side (key : FlowKey) : Side :=
  if key.raw.toNat < 0x8000000000000000 then .source else .destination

def seq (key : FlowKey) : Seq := ⟨UInt32.ofNat key.raw.toNat⟩

def rangeStart (flow : FlowId) (side : Side) : FlowKey := pack flow side ⟨0⟩

def rangeEnd (flow : FlowId) (side : Side) : FlowKey := pack flow side ⟨0xFFFFFFFF⟩

def belongsTo (key : FlowKey) (flow : FlowId) (side : Side) : Bool :=
  key.flow == flow && key.side == side

def describe (key : FlowKey) : String :=
  "FlowKey(" ++ key.flow.describe ++ "/" ++ key.side.name ++ "/"
    ++ toString key.seq.word.toNat ++ ")"

/-- Below 2^31 the side bit is added to the flow, so nothing overlaps. -/
theorem toNat_pack (flow : FlowId) (side : Side) (seq : Seq)
    (checked : flow.raw.toNat < 0x80000000) :
    (pack flow side seq).raw.toNat =
      side.index.toNat * 0x8000000000000000 + flow.raw.toNat * 0x100000000 + seq.word.toNat := by
  have bound := seq.word.toNat_lt
  have upper : (flow.raw ||| (side.index <<< 31)).toNat =
      side.index.toNat * 0x80000000 + flow.raw.toNat := by
    cases side with
    | source => simp [Side.index]
    | destination =>
      have := Nat.two_pow_add_eq_or_of_lt (i := 31) checked 1
      simpa [Side.index, Nat.or_comm] using this.symm
  have sideBound : side.index.toNat ≤ 1 := by cases side <;> decide
  simp only [pack, upper, UInt64.toNat_ofNat']
  rw [Nat.mod_eq_of_lt (by omega)]
  omega

end FlowKey

/-- Names one stored block for good: an erased block's reference is never used again. -/
structure Ref where
  key : FlowKey
  generation : UInt64
  deriving DecidableEq, Inhabited

namespace Ref

def before (a b : Ref) : Bool :=
  a.key.raw < b.key.raw || (a.key.raw == b.key.raw && a.generation < b.generation)

def upTo (a b : Ref) : Bool := !before b a

def count : Nat := 0x100000000000000000000000000000000

def rank (r : Ref) : Nat := r.key.raw.toNat * 0x10000000000000000 + r.generation.toNat

theorem rank_lt (r : Ref) : r.rank < count := by
  have hk := r.key.raw.toNat_lt
  have hg := r.generation.toNat_lt
  simp only [rank, count]
  omega

theorem before_iff (a b : Ref) : before a b = true ↔ a.rank < b.rank := by
  have ha := a.generation.toNat_lt
  have hb := b.generation.toNat_lt
  simp only [before, rank, Bool.or_eq_true, Bool.and_eq_true, decide_eq_true_eq, beq_iff_eq,
    UInt64.lt_iff_toNat_lt, ← UInt64.toNat_inj]
  omega

end Ref

end Reassembly
