import Mathlib.Data.List.Basic
import Mathlib.Algebra.Order.Group.Nat
import Mathlib.Tactic.Common
import Reassembly.Seq

/-!
Arithmetic on the circle of sequence numbers. Walking adds up modulo 2^32, and a distance is what is
left of a walk; an arc from a number holds those that a shorter walk reaches.
-/

namespace Reassembly.Seq

def circle : Nat := 0x100000000

theorem ext_word {a b : Seq} (same : a.word.toNat = b.word.toNat) : a = b := by
  cases a
  cases b
  exact congrArg Seq.mk (UInt32.toNat_inj.mp same)

theorem toNat_advance (s : Seq) (count : Nat) :
    (s.advance count).word.toNat = (s.word.toNat + count) % circle := by
  rw [advance, UInt32.toNat_add, UInt32.toNat_ofNat', circle]
  omega

@[simp] theorem advance_zero (s : Seq) : s.advance 0 = s := by
  have bound := s.word.toNat_lt
  refine ext_word ?_
  rw [toNat_advance, circle]
  omega

theorem advance_advance (s : Seq) (first second : Nat) :
    (s.advance first).advance second = s.advance (first + second) := by
  refine ext_word ?_
  rw [toNat_advance, toNat_advance, toNat_advance, circle]
  omega

theorem advance_mod (s : Seq) (count : Nat) : s.advance (count % circle) = s.advance count := by
  refine ext_word ?_
  rw [toNat_advance, toNat_advance, circle]
  omega

theorem exists_advance (s : Seq) (count : Nat) : ∃ origin : Seq, s = origin.advance count := by
  refine ⟨s.advance (circle - count % circle), ?_⟩
  have small := Nat.mod_lt count (show 0 < circle by decide)
  have whole : (circle - count % circle + count) % circle = 0 := by
    rw [circle] at *
    omega
  rw [advance_advance, ← advance_mod, whole, advance_zero]

theorem advance_pred_advance (s : Seq) (count : Nat) :
    (s.advance count).pred.advance 1 = s.advance count := by
  have bound := (s.advance count).word.toNat_lt
  refine ext_word ?_
  rw [toNat_advance, circle, pred, UInt32.toNat_sub, UInt32.toNat_one]
  omega

theorem distance_advance (s : Seq) (count : Nat) : distance s (s.advance count) = count % circle := by
  have bound := s.word.toNat_lt
  rw [distance_eq, toNat_advance, circle]
  omega

theorem distance_advance_of_lt (s : Seq) {count : Nat} (small : count < circle) :
    distance s (s.advance count) = count := by
  rw [distance_advance, Nat.mod_eq_of_lt small]

theorem distance_advance_right (a b : Seq) (count : Nat) :
    distance a (b.advance count) = (distance a b + count) % circle := by
  have first := a.word.toNat_lt
  have second := b.word.toNat_lt
  rw [distance_eq, distance_eq, toNat_advance, circle]
  omega

theorem distance_eq_zero_iff (a b : Seq) : distance a b = 0 ↔ a = b := by
  have first := a.word.toNat_lt
  have second := b.word.toNat_lt
  constructor
  · intro none
    refine ext_word ?_
    rw [distance_eq] at none
    omega
  · rintro rfl
    exact distance_self a

theorem distance_pos {a b : Seq} (apart : a ≠ b) : 0 < distance a b :=
  Nat.pos_of_ne_zero (mt (distance_eq_zero_iff a b).mp apart)

theorem distance_trans (a b c : Seq) : distance a c = (distance a b + distance b c) % circle := by
  rw [← distance_advance_right, advance_distance]

theorem inRange_iff (s start stop : Seq) :
    inRange s start stop = true ↔ distance start s < distance start stop := by
  rw [inRange, decide_eq_true_eq]

theorem inRange_advance (s start : Seq) {len : Nat} (small : len < circle) :
    inRange s start (start.advance len) = true ↔ ∃ step, step < len ∧ start.advance step = s := by
  rw [inRange_iff, distance_advance_of_lt start small]
  constructor
  · exact fun inside => ⟨distance start s, inside, advance_distance start s⟩
  · rintro ⟨step, inside, rfl⟩
    rw [distance_advance_of_lt start (inside.trans small)]
    exact inside

theorem not_before_self (a : Seq) : before a a = false := by
  rw [before, distance_self]
  rfl

end Reassembly.Seq
