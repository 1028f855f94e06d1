import Reassembly.Config
import Reassembly.Flow
import Reassembly.Json.Printer
import Reassembly.Json.Reader

/-!
Configuration, flow numbers and sides as JSON documents. Every field of a configuration has a default,
so an empty object is a document. What cannot be read is one fault, whatever the reason; what can be
read is validated.
-/

namespace Reassembly

open Json (Value)

def word32Field (default : UInt32) : Option Value → Option UInt32
  | none => some default
  | some v => (v.natural? UInt32.size).map UInt32.ofNat

def word64Field (default : UInt64) : Option Value → Option UInt64
  | none => some default
  | some v => (v.natural? UInt64.size).map UInt64.ofNat

namespace StoreConfig

def ofValue? (v : Value) : Option StoreConfig := do
  let fields ← v.fields?
    ["block_capacity", "max_blocks", "block_idle_timeout_us", "writer_flow_timeout_us"]
  match fields with
  | [capacity, blocks, idle, writer] =>
    let standard : StoreConfig := {}
    return {
      blockCapacity := ← word32Field standard.blockCapacity capacity
      maxBlocks := ← word32Field standard.maxBlocks blocks
      blockIdleTimeout := ← word64Field standard.blockIdleTimeout idle
      writerFlowTimeout := ← word64Field standard.writerFlowTimeout writer }
  | _ => none

def toValue (c : StoreConfig) : Value :=
  .record
    [("block_capacity", .natural c.blockCapacity.toNat),
     ("max_blocks", .natural c.maxBlocks.toNat),
     ("block_idle_timeout_us", .natural c.blockIdleTimeout.toNat),
     ("writer_flow_timeout_us", .natural c.writerFlowTimeout.toNat)]

end StoreConfig

namespace ShardConfig

def ofValue? (v : Value) : Option ShardConfig := do
  let fields ← v.fields?
    ["handler_count", "flow_timeout_us", "assignment_sweep_interval_us", "idle_check_interval_us"]
  match fields with
  | [handlers, flow, release, idle] =>
    let standard : ShardConfig := {}
    return {
      handlerCount := ← word64Field standard.handlerCount handlers
      flowTimeout := ← word64Field standard.flowTimeout flow
      assignmentSweepInterval := ← word64Field standard.assignmentSweepInterval release
      idleCheckInterval := ← word64Field standard.idleCheckInterval idle }
  | _ => none

def toValue (c : ShardConfig) : Value :=
  .record
    [("handler_count", .natural c.handlerCount.toNat),
     ("flow_timeout_us", .natural c.flowTimeout.toNat),
     ("assignment_sweep_interval_us", .natural c.assignmentSweepInterval.toNat),
     ("idle_check_interval_us", .natural c.idleCheckInterval.toNat)]

end ShardConfig

namespace Config

/-- The path field: absent and null both mean none. -/
def pathField : Option Value → Option (Option String)
  | none => some none
  | some .null => some none
  | some (.text (some path)) => some (some path)
  | some _ => none

def recordField {α : Type} (default : α) (read : Value → Option α) : Option Value → Option α
  | none => some default
  | some v => read v

def ofValue? (v : Value) : Option Config := do
  match ← v.fields? ["region_path", "store", "shards"] with
  | [path, store, shards] =>
    return {
      regionPath := ← pathField path
      store := ← recordField {} StoreConfig.ofValue? store
      shards := ← recordField {} ShardConfig.ofValue? shards }
  | _ => none

def toValue (c : Config) : Value :=
  .record
    [("region_path", (c.regionPath.map Value.string).getD .null),
     ("store", c.store.toValue),
     ("shards", c.shards.toValue)]

def toText (c : Config) : String := c.toValue.pretty

def ofText (text : String) : Except Fault Config :=
  match (Value.ofText text).bind ofValue? with
  | none => .error .unreadableConfig
  | some config => do
    config.validate
    return config

end Config

namespace FlowId

/-- A flow number is a bare word in a document, not limited to 31 bits. -/
def ofValue? (v : Value) : Option FlowId := (v.natural? UInt32.size).map fun n => ⟨UInt32.ofNat n⟩

def toValue (flow : FlowId) : Value := .natural flow.raw.toNat

end FlowId

namespace Side

def ofName? : String → Option Side
  | "Source" => some .source
  | "Destination" => some .destination
  | _ => none

/-- A side is its name, or an object that has the name as its only member, with null. -/
def ofValue? : Value → Option Side
  | .text (some name) => ofName? name
  | .object [(some name, .null)] => ofName? name
  | _ => none

def toValue (side : Side) : Value := .string side.name

end Side

end Reassembly
