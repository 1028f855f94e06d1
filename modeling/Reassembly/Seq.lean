/-!
Sequence numbers of a byte stream. They live on a circle of 2^32 positions, so order is relative:
`distance` walks forward from one number to another, and `before` holds when the other lies less
than half the circle ahead.
-/

namespace Reassembly

structure Seq where
  word : UInt32
  deriving DecidableEq, Inhabited

namespace Seq

def advance (s : Seq) (count : Nat) : Seq := ⟨s.word + UInt32.ofNat count⟩

def pred (s : Seq) : Seq := ⟨s.word - 1⟩

def distance (a b : Seq) : Nat := (b.word - a.word).toNat

def halfTurn : Nat := 0x80000000

/-- `a` precedes `b` in serial order: going back from `b`, `a` is met first. -/
def before (a b : Seq) : Bool := halfTurn ≤ distance b a

def beforeEq (a b : Seq) : Bool := a == b || before a b

/-- Whether `s` lies in the half-open arc from `start` to `stop`. -/
def inRange (s start stop : Seq) : Bool := distance start s < distance start stop

@[simp] theorem distance_self (a : Seq) : distance a a = 0 := by simp [distance]

theorem distance_lt (a b : Seq) : distance a b < 0x100000000 := UInt32.toNat_lt _

theorem distance_eq (a b : Seq) :
    distance a b = (0x100000000 - a.word.toNat + b.word.toNat) % 0x100000000 := by
  simp [distance, UInt32.toNat_sub]

theorem advance_distance (a b : Seq) : a.advance (distance a b) = b := by
  unfold advance distance
  rw [UInt32.ofNat_toNat, UInt32.add_comm, UInt32.sub_add_cancel]

theorem before_iff (a b : Seq) : before a b = true ↔ halfTurn ≤ distance b a := by
  rw [before, decide_eq_true_eq]

end Seq

end Reassembly
