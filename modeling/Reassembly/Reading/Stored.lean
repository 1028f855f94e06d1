import Reassembly.Block.Frames
import Reassembly.Store.Held

/-!
Copies of stored blocks, and the two look-ups by which readers go through a store: the first block
from a key on, and the block behind a reference, which need not exist any more. Both go round: behind
the last block comes the first.
-/

namespace Reassembly

open Store

structure Stored where
  ref : Ref
  header : Block.Header
  payload : ByteArray
  ready : Bool

namespace Stored

def key (b : Stored) : FlowKey := b.ref.key

def flow (b : Stored) : FlowId := b.ref.key.flow

def side (b : Stored) : Side := b.ref.key.side

def initialSeq? (b : Stored) : Option Seq := Block.initialSeq? b.payload

def announcedSeq (b : Stored) : Seq := b.initialSeq?.getD b.key.seq

def frames (b : Stored) : List Block.Frame := Block.frames b.payload b.header.base

def dataLength (b : Stored) : Nat := Block.dataLength b.frames

def isReadyMarker (b : Stored) : Bool := b.header.kind == .startFlow && b.ready

end Stored

namespace Reading

/-- A reader's view of a store: its layout and idle time, and the clock. -/
structure View where
  layout : Layout
  idle : Micros
  now : Micros

def snapshot (v : View) (entry : Entry) (header : Block.Header) : Hold Stored := do
  let payload ← Hold.payload v.layout entry.slot header.used
  return ⟨entry.ref, header, payload, header.isReady v.now v.idle⟩

def blockAt (v : View) (pos : Nat) : Hold Stored := do
  let entry ← Hold.entryAt pos
  let header ← Hold.header v.layout entry.slot
  snapshot v entry header

/-- The first block whose key is `key` or a later one, else the first of all. -/
def firstFrom (v : View) (key : FlowKey) : Access (Option Stored) :=
  Hold.run v.layout do
    let count ← Hold.count
    if count = 0 then return none
    let pos ← Hold.lowerBound ⟨key, 0⟩
    some <$> blockAt v (pos % count)

/-- The block behind a reference, else the first of all; nothing if that would be the block of the
reference itself. -/
def next (v : View) (ref : Ref) : Access (Option Stored) :=
  Hold.run v.layout do
    let count ← Hold.count
    if count = 0 then return none
    let pos ← Hold.upperBound ref
    let entry ← Hold.entryAt (pos % count)
    if entry.ref = ref then return none
    let header ← Hold.header v.layout entry.slot
    some <$> snapshot v entry header

def erase (v : View) (ref : Ref) : Access Bool := Hold.run v.layout (Hold.erase v.layout ref)

/-- The blocks from `block` on whose keys pass `wanted`, up to the first that does not or to the end
of the store. -/
def walkFrom (v : View) (wanted : FlowKey → Bool) (block : Stored) : Access (List Stored) := do
  if wanted block.key then
    match ← next v block.ref with
    | none => return [block]
    | some following =>
      if _further : Ref.before block.ref following.ref = true then
        return block :: (← walkFrom v wanted following)
      else return [block]
  else return []
  termination_by Ref.count - block.ref.rank
  decreasing_by
    have := (Ref.before_iff _ _).mp _further
    have := following.ref.rank_lt
    simp only [Ref.count] at *
    omega

def walk (v : View) (start : FlowKey) (wanted : FlowKey → Bool) : Access (List Stored) := do
  match ← firstFrom v start with
  | none => return []
  | some block => walkFrom v wanted block

def range (v : View) (flow : FlowId) (side : Side) : Access (List Stored) :=
  walk v (.rangeStart flow side) (·.belongsTo flow side)

def all (v : View) : Access (List Stored) := walk v ⟨0⟩ fun _ => true

end Reading

end Reassembly
