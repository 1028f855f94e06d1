import Reassembly.Fault
import Reassembly.Time

/-!
Configuration of a store, of the shards that drain it, and of both together. Validation names the
first setting, in the order of declaration, that cannot work; the timeouts of writers and readers are
compared last.
-/

namespace Reassembly

/-- Geometry and timing of a store. Geometry counts only when a region is formatted. -/
structure StoreConfig where
  blockCapacity : UInt32 := 8192
  maxBlocks : UInt32 := 1024
  blockIdleTimeout : Micros := 100000
  writerFlowTimeout : Micros := 5000000
  deriving DecidableEq, Inhabited

namespace StoreConfig

def validate (c : StoreConfig) : Except Fault Unit :=
  if c.blockCapacity < minBlockCapacity then
    .error (.invalidConfig (.blockCapacity c.blockCapacity))
  else if c.maxBlocks = 0 then .error (.invalidConfig .noBlocks)
  else if c.blockIdleTimeout = 0 then .error (.invalidConfig .noIdleTimeout)
  else if c.writerFlowTimeout = 0 then .error (.invalidConfig .noWriterTimeout)
  else .ok ()

def describe (c : StoreConfig) : String :=
  "StoreConfig \x7b block_capacity: " ++ toString c.blockCapacity.toNat
    ++ ", max_blocks: " ++ toString c.maxBlocks.toNat
    ++ ", block_idle_timeout_us: " ++ toString c.blockIdleTimeout.toNat
    ++ ", writer_flow_timeout_us: " ++ toString c.writerFlowTimeout.toNat ++ " \x7d"

end StoreConfig

structure ShardConfig where
  handlerCount : UInt64 := 4
  flowTimeout : Micros := 10000000
  assignmentSweepInterval : Micros := 5000000
  idleCheckInterval : Micros := 1000000
  deriving DecidableEq, Inhabited

namespace ShardConfig

def validate (c : ShardConfig) : Except Fault Unit :=
  if c.handlerCount = 0 then .error (.invalidConfig .noHandlers)
  else if c.flowTimeout = 0 then .error (.invalidConfig .noFlowTimeout)
  else .ok ()

/-- A writer must forget a flow before its reader does. Otherwise the flow goes on without a marker
after the reader has dropped it, and no shard claims it again. -/
def checkWriterTimeout (c : ShardConfig) (store : StoreConfig) : Except Fault Unit :=
  if c.flowTimeout ≤ store.writerFlowTimeout then
    .error (.invalidConfig (.writerOutlivesReader store.writerFlowTimeout c.flowTimeout))
  else .ok ()

end ShardConfig

/-- Everything needed to open a store and to drain it. Without a path the store is in memory. -/
structure Config where
  regionPath : Option String := none
  store : StoreConfig := {}
  shards : ShardConfig := {}
  deriving DecidableEq, Inhabited

def Config.validate (c : Config) : Except Fault Unit := do
  c.store.validate
  c.shards.validate
  c.shards.checkWriterTimeout c.store

end Reassembly
