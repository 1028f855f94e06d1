/-!
Time in microseconds. `elapsed` never goes below zero, so a clock that was set back makes nothing
look old.
-/

namespace Reassembly

abbrev Micros := UInt64

/-- The time from `since` to `now`, none if `now` is earlier. -/
def elapsed (now since : Micros) : Micros := if since ≤ now then now - since else 0

theorem toNat_elapsed (now since : Micros) :
    (elapsed now since).toNat = now.toNat - since.toNat := by
  unfold elapsed
  split
  next later => exact UInt64.toNat_sub_of_le now since later
  next earlier =>
    have := mt UInt64.le_iff_toNat_le.mpr earlier
    simp
    omega

structure Clock where
  now : Micros
  deriving DecidableEq

namespace Clock

/-- A clock starts at one second, so that no timestamp is the zero that means "never". -/
def initial : Clock := ⟨1000000⟩

def advance (c : Clock) (span : Nat) : Clock := ⟨c.now + UInt64.ofNat span⟩

def advanceNanos (c : Clock) (nanos : Nat) : Clock := c.advance (nanos / 1000)

end Clock

theorem elapsed_self (now : Micros) : elapsed now now = 0 := by
  rw [← UInt64.toNat_inj, toNat_elapsed, Nat.sub_self]
  rfl

theorem elapsed_mono {first last since : Micros} (le : first ≤ last) :
    elapsed first since ≤ elapsed last since := by
  rw [UInt64.le_iff_toNat_le] at le ⊢
  rw [toNat_elapsed, toNat_elapsed]
  omega

theorem elapsed_anti {now early late : Micros} (le : early ≤ late) :
    elapsed now late ≤ elapsed now early := by
  rw [UInt64.le_iff_toNat_le] at le ⊢
  rw [toNat_elapsed, toNat_elapsed]
  omega

end Reassembly
