import Std.Data.ExtTreeMap
import Reassembly.Config
import Reassembly.Store.Held

/-!
A handle attached to a store. What handles share is the region; what each has for itself is what it
knows of the flows that it writes, and where its rotation over the markers stands.
-/

namespace Reassembly

/-- One side of a flow that a handle writes: its first sequence number, and the block that the next
bytes are expected to go to. -/
structure SideCursor where
  initialSeq : Option Seq := none
  openBlock : Option Ref := none
  deriving DecidableEq

structure WriterFlow where
  lastWrite : Micros
  sides : PerSide SideCursor
  deriving DecidableEq

namespace WriterFlow

def fresh (now : Micros) : WriterFlow := ⟨now, .both {}⟩

def isStale (flow : WriterFlow) (now timeout : Micros) : Bool :=
  timeout < elapsed now flow.lastWrite

end WriterFlow

abbrev WriterFlows := Std.ExtTreeMap FlowId WriterFlow

structure Attachment where
  handle : RegionHandle
  layout : Store.Layout
  config : StoreConfig
  writers : WriterFlows
  rotation : Option Ref

namespace Attachment

def fresh (handle : RegionHandle) (layout : Store.Layout) (config : StoreConfig) : Attachment :=
  ⟨handle, layout, config, ∅, none⟩

def layoutFor (config : StoreConfig) : Except Fault Store.Layout :=
  (Store.Layout.ofGeometry config.blockCapacity config.maxBlocks).mapError Fault.ofGeometry

def format (config : StoreConfig) : Access Attachment := do
  config.validate
  let layout ← layoutFor config
  layout.format
  return fresh (← get).handle layout config

/-- Attaches to a store that is there. Its header decides on the geometry, the configuration on the
timing. -/
def attach (config : StoreConfig) : Access Attachment := do
  let layout ← Store.Layout.attach
  let config :=
    { config with blockCapacity := layout.blockCapacity, maxBlocks := layout.maxBlocks }
  config.validate
  return fresh (← get).handle layout config

def requiredLength (config : StoreConfig) : Except Fault Nat :=
  (layoutFor config).map Store.Layout.required

def removeFlow (a : Attachment) (flow : FlowId) : Bool × Attachment :=
  (a.writers.contains flow, { a with writers := a.writers.erase flow })

def describe (a : Attachment) : String :=
  "Accumulator \x7b region_len: " ++ toString a.handle.length ++ ", layout: " ++ a.layout.describe
    ++ ", config: " ++ a.config.describe ++ ", .. \x7d"

end Attachment

abbrev Attached := Work (Attachment × Region)

def Attachment.onRegion {α : Type} (work : Access α) : Attached α :=
  Work.onPart (fun (a, region) => (region, a)) (fun region a => (a, region)) work

structure Occupancy where
  entries : UInt32
  freeSlots : UInt32
  maxBlocks : UInt32
  blockCapacity : UInt32
  writerFlows : Nat
  deriving DecidableEq

def Attachment.occupancy (a : Attachment) : Access Occupancy :=
  Store.Hold.run a.layout fun held =>
    let entries := held.counters.entryCount
    .ok ⟨entries, a.layout.maxBlocks - entries, a.layout.maxBlocks, a.layout.blockCapacity,
      a.writers.size⟩ held

end Reassembly
