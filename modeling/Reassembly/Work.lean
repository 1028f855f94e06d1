import Reassembly.Fault

/-!
Work on a state that can fail. A fault undoes nothing: what was changed before it stays changed. Work on
a part is work on the whole, and faults that do not matter can be passed over.
-/

namespace Reassembly

abbrev Work (σ : Type) := EStateM Fault σ

namespace Work
variable {σ τ ρ α : Type}

instance : MonadLift (Except Fault) (Work σ) where
  monadLift
    | .ok a => pure a
    | .error fault => throw fault

/-- Work on one part of a state. The part is put back behind it, with all changes, also after a
fault. -/
@[inline] def onPart (split : σ → τ × ρ) (join : τ → ρ → σ) (work : Work τ α) : Work σ α := fun s =>
  let (part, rest) := split s
  match work part with
  | .ok a part => .ok a (join part rest)
  | .error fault part => .error fault (join part rest)

/-- The result of the work, or nothing after a fault that passes `harmless`. -/
def passOver (harmless : Fault → Bool) (work : Work σ α) : Work σ (Option α) := fun s =>
  match work s with
  | .ok a s => .ok (some a) s
  | .error fault s => if harmless fault then .ok none s else .error fault s

end Work

end Reassembly
