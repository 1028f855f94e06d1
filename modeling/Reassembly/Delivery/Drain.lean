import Reassembly.Delivery.Position

/-!
Draining one flow. Its ready markers are taken first, oldest first. Then each side's payload blocks are
put into serial order around the read position, and those before the first that is not ready are
delivered and erased.
-/

namespace Reassembly.Delivery

open Reading

structure Outlet where
  region : Region
  events : Array Event

/-- Draining work. Erased blocks stay erased and told events stay told when it fails. -/
abbrev Draining := Work Outlet

namespace Draining

def onStore {α : Type} (work : Access α) : Draining α :=
  Work.onPart (fun ⟨region, events⟩ => (region, events)) Outlet.mk work

def tell (news : List Event) : Draining Unit := fun ⟨region, events⟩ =>
  .ok () ⟨region, events ++ news.toArray⟩

end Draining

def serialMin : List Seq → Option Seq
  | [] => none
  | first :: rest => some (rest.foldl (fun least s => if Seq.before s least then s else least) first)

def anchor? (expected : Option Seq) (blocks : List Stored) : Option Seq :=
  expected <|> serialMin (blocks.map (·.header.base))

/-- The order around an anchor. Blocks behind it come first, so that their bytes are cut off before
newer bytes move the position; then the nearer; then the older. -/
def anchorLe (anchor : Seq) (a b : Stored) : Bool :=
  let behind (block : Stored) : Bool := Seq.before block.header.base anchor
  let ahead (block : Stored) : Nat := Seq.distance anchor block.header.base
  if behind a != behind b then behind a
  else if ahead a != ahead b then ahead a < ahead b
  else a.ref.generation ≤ b.ref.generation

def drainOrder (anchor : Seq) (blocks : List Stored) : List Stored :=
  blocks.mergeSort (anchorLe anchor)

def readyMarkers (blocks : List Stored) : List Stored :=
  (blocks.filter (·.isReadyMarker)).mergeSort fun a b => a.ref.generation ≤ b.ref.generation

/-- Takes markers one by one: each moves the position and is erased. -/
def takeMarkers (v : View) (position : Position) : List Stored → Draining Position
  | [] => return position
  | marker :: rest => do
    discard <| Draining.onStore (erase v marker.ref)
    takeMarkers v (position.adopt marker v.now) rest

def announce (flow : FlowId) (position : Position) : Draining Position := do
  if position.announced then return position
  Draining.tell [.started flow position.initialSeq]
  return { position with announced := true }

def deliverBlocks (v : View) (flow : FlowId) (side : Side) (expected : Option Seq) :
    List Stored → Draining (Option Seq)
  | [] => return expected
  | block :: rest => do
    let (news, expected) := deliverFrames flow side expected block.frames
    Draining.tell news
    discard <| Draining.onStore (erase v block.ref)
    deliverBlocks v flow side expected rest

/-- What draining left: the position, the blocks consumed and the payload blocks that stay. -/
structure Drained where
  position : Position
  consumed : Nat
  pending : Nat

def drainSide (v : View) (flow : FlowId) (side : Side) (blocks : List Stored) (state : Drained) :
    Draining Drained := do
  let payload := blocks.filter (·.header.kind.isPayload)
  let expected := state.position.expected.get side
  match anchor? expected payload with
  | none => return state
  | some anchor =>
    let ordered := drainOrder anchor payload
    let ready := ordered.takeWhile (·.ready)
    let expected ← deliverBlocks v flow side expected ready
    let position :=
      { state.position with
        expected := state.position.expected.set expected side
        lastUpdate := if ready.isEmpty then state.position.lastUpdate else v.now }
    return ⟨position, state.consumed + ready.length,
      state.pending + (ordered.length - ready.length)⟩

def drainFlow (v : View) (flow : FlowId) (position : Position) : Draining Drained := do
  let source ← Draining.onStore (range v flow .source)
  let destination ← Draining.onStore (range v flow .destination)
  let position ← takeMarkers v position (readyMarkers (source ++ destination))
  let position ← announce flow position
  let state ← drainSide v flow .source source ⟨position, 0, 0⟩
  drainSide v flow .destination destination state

end Reassembly.Delivery
