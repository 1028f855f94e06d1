/-!
Flows, their two sides, and the 64-bit keys that order stored blocks. A key packs the side into its
top bit, the flow into the next 31 and the sequence number into the low 32, so that the keys of one
flow and side form one interval.
-/

namespace Reassembly

inductive Side where
  | source
  | destination
  deriving DecidableEq, Inhabited

def Side.all : List Side := [.source, .destination]

def Side.index : Side → UInt32
  | .source => 0
  | .destination => 1

def Side.name : Side → String
  | .source => "Source"
  | .destination => "Destination"

structure PerSide (α : Type) where
  source : α
  destination : α
  deriving DecidableEq

namespace PerSide
variable {α : Type}

def both (value : α) : PerSide α := ⟨value, value⟩

def get (p : PerSide α) : Side → α
  | .source => p.source
  | .destination => p.destination

def set (p : PerSide α) (value : α) : Side → PerSide α
  | .source => { p with source := value }
  | .destination => { p with destination := value }

@[simp] theorem get_both (value : α) (side : Side) : (both value).get side = value := by
  cases side <;> rfl

@[simp] theorem get_set_self (p : PerSide α) (value : α) (side : Side) :
    (p.set value side).get side = value := by cases side <;> rfl

theorem get_set_of_ne (p : PerSide α) (value : α) {side other : Side} (apart : other ≠ side) :
    (p.set value side).get other = p.get other := by
  cases side <;> cases other <;> first | rfl | exact absurd rfl apart

end PerSide

/-- The number of a flow. Checked construction keeps it below 2^31; a configuration document may
carry any word. -/
structure FlowId where
  raw : UInt32
  deriving DecidableEq, Inhabited

structure InvalidFlowId where
  raw : UInt32

namespace FlowId

def ofWord (raw : UInt32) : Except InvalidFlowId FlowId :=
  if raw ≤ 0x7FFFFFFF then .ok ⟨raw⟩ else .error ⟨raw⟩

def describe (flow : FlowId) : String := toString flow.raw.toNat

instance : Ord FlowId := ⟨compareOn FlowId.raw⟩

instance : Std.TransOrd FlowId := inferInstanceAs (Std.TransCmp (compareOn FlowId.raw))

instance : Std.LawfulEqOrd FlowId where
  eq_of_compare {a b} same := by
    cases a; cases b
    exact congrArg FlowId.mk (Std.LawfulEqOrd.eq_of_compare (α := UInt32) same)

end FlowId

def InvalidFlowId.message (fault : InvalidFlowId) : String :=
  "flow id 0x" ++ String.ofList (Nat.toDigits 16 fault.raw.toNat) ++ " exceeds 31 bits"

end Reassembly
