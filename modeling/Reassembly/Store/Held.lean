import Reassembly.Store.Directory
import Reassembly.Store.Slots

/-!
A store while one handle holds its lock. The counters are read once when the lock is taken; insertion
and removal change directory, slots and counters together and write the counters back last.
-/

namespace Reassembly.Store

structure Held where
  region : Region
  counters : Counters

abbrev Hold := Work Held

namespace Hold

def onRegion {α : Type} (work : Access α) : Hold α :=
  Work.onPart (fun ⟨region, counters⟩ => (region, counters)) Held.mk work

instance : MonadLift Access Hold := ⟨onRegion⟩

/-- Takes the lock: reads the counters. A store that claims more records than blocks is refused. -/
def lock (l : Layout) : Access Counters := do
  let counters ← Counters.load
  if l.maxBlocks < counters.entryCount then
    throw (.layoutMismatch (.entryCount counters.entryCount l.maxBlocks))
  return counters

def run {α : Type} (l : Layout) (work : Hold α) : Access α := do
  let counters ← lock l
  Work.onPart (fun region => (⟨region, counters⟩, ())) (fun held () => held.region) work

def unlessFull {α : Type} (work : Hold α) : Hold (Option α) := work.passOver Fault.isTransient

def count : Hold Nat := fun held => .ok held.counters.entryCount.toNat held

def entryAt (pos : Nat) : Hold Entry := onRegion (Directory.entryAt pos)

def lowerBound (target : Ref) : Hold Nat := do
  onRegion (Directory.lowerBound (← count) target)

def upperBound (target : Ref) : Hold Nat := do
  onRegion (Directory.upperBound (← count) target)

def resolve (target : Ref) : Hold (Option (Nat × Entry)) := do
  onRegion (Directory.find? (← count) target)

variable (l : Layout)

def header (slot : UInt32) : Hold Block.Header := onRegion (Slots.header l slot)

def setHeader (slot : UInt32) (h : Block.Header) : Hold Unit := onRegion (Slots.setHeader l slot h)

def payload (slot : UInt32) (len : Nat) : Hold ByteArray := onRegion (Slots.payload l slot len)

def writePayload (slot : UInt32) (offset : Nat) (data : ByteArray) : Hold Unit :=
  onRegion (Slots.writePayload l slot offset data)

def persist (counters : Counters) : Hold Unit := do
  onRegion counters.save
  modify fun held => { held with counters := counters }

/-- Stores a new block whose payload area begins with `start`. -/
def insertBlock (kind : Block.Kind) (key : FlowKey) (start : ByteArray) (complete : Bool)
    (now : Micros) : Hold Entry := do
  let counters := (← get).counters
  let (slot, counters) ← onRegion (Slots.alloc l counters)
  let header := Block.Header.fresh kind key.seq (UInt64.ofNat start.size) now
  setHeader l slot { header with isComplete := complete }
  writePayload l slot 0 start
  let entry : Entry := ⟨⟨key, counters.nextGeneration⟩, slot⟩
  discard <| onRegion (Directory.insert (← count) entry)
  persist { counters with
    nextGeneration := counters.nextGeneration + 1
    entryCount := counters.entryCount + 1 }
  return entry

def removeAt (pos : Nat) : Hold Entry := do
  let entry ← entryAt pos
  let counters := (← get).counters
  onRegion (Directory.remove (← count) pos)
  let counters ← onRegion (Slots.free l counters entry.slot)
  persist { counters with entryCount := counters.entryCount - 1 }
  return entry

def erase (target : Ref) : Hold Bool := do
  match ← resolve target with
  | none => return false
  | some (pos, _) =>
    discard <| removeAt l pos
    return true

def firstAt {α : Type} (probe : Nat → Hold (Option α)) : List Nat → Hold (Option α)
  | [] => return none
  | pos :: rest => do
    match ← probe pos with
    | some found => return some found
    | none => firstAt probe rest

end Hold

abbrev HoldWith (σ : Type) := Work (σ × Held)

namespace HoldWith
variable {σ α : Type}

def onStore (work : Hold α) : HoldWith σ α :=
  Work.onPart (fun (own, held) => (held, own)) (fun held own => (own, held)) work

def own : HoldWith σ σ := fun (own, held) => .ok own (own, held)

def setOwn (own : σ) : HoldWith σ Unit := fun (_, held) => .ok () (own, held)

def run (l : Layout) (work : HoldWith σ α) : Work (σ × Region) α := do
  let counters ←
    Work.onPart (fun (own, region) => (region, own)) (fun region own => (own, region)) (Hold.lock l)
  Work.onPart (fun (own, region) => ((own, ⟨region, counters⟩), ()))
    (fun (own, held) () => (own, held.region)) work

end HoldWith

end Reassembly.Store
