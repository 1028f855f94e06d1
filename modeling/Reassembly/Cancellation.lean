import Reassembly.Fault

/-!
Cancellation tokens for working loops. A loop asks its token once a round; several names may stand for
one token, and then share its state.
-/

namespace Reassembly

structure Cancellation where
  requested : Bool := false
  checkpoints : Nat := 0
  deriving DecidableEq

namespace Cancellation

def cancel (token : Cancellation) : Cancellation := { token with requested := true }

/-- Counts the question, then fails if the work should stop. -/
def checkpoint (token : Cancellation) : Except Fault Unit × Cancellation :=
  (if token.requested then .error .cancelled else .ok (),
    { token with checkpoints := (token.checkpoints + 1) % UInt64.size })

end Cancellation

structure TokenNames where
  tokens : Array Cancellation
  names : Array Nat

namespace TokenNames

def single : TokenNames := ⟨#[{}], #[0]⟩

def find? (t : TokenNames) (name : Nat) : Option Cancellation := do
  let index ← t.names[name]?
  t.tokens[index]?

def addFresh (t : TokenNames) : TokenNames := ⟨t.tokens.push {}, t.names.push t.tokens.size⟩

def addAlias (t : TokenNames) (name : Nat) : TokenNames :=
  match t.names[name]? with
  | some index => { t with names := t.names.push index }
  | none => t

def update (t : TokenNames) (name : Nat) (token : Cancellation) : TokenNames :=
  match t.names[name]? with
  | some index => { t with tokens := t.tokens.setIfInBounds index token }
  | none => t

end TokenNames

end Reassembly
