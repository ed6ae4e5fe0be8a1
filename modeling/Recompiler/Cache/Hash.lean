import Recompiler.Cache.Basic

/-! Blocks of a page. A monitor finds the blocks that start at an offset through a hash of that offset, and counts
for every byte the blocks that depend on it. -/

namespace Recompiler.Cache

/-- Bucket of the blocks that start at a page offset. -/
def bucketOf (c : Cache) (offset : Nat) : Nat :=
  1 + (offset >>> c.settings.hashShift)

/-- Makes a monitor the owner of a block. -/
def enlist (c : Cache) (m : MonitorId) (id : BlockId) (bucket : Nat) : Cache :=
  let c := c.modifyMonitor m fun mon =>
    { mon with activeBlocks := mon.activeBlocks + 1, buckets := mon.buckets.modify bucket (id :: ·) }
  c.modifyBlock id fun b => { b with owner := some m, bucket := bucket }

/-- Registers a block by its start. -/
def addBlock (c : Cache) (m : MonitorId) (id : BlockId) : Cache :=
  c.enlist m id (c.bucketOf (c.block id).start)

/-- Registers the companion of a block, which covers its page from the start. -/
def addCompanion (c : Cache) (m : MonitorId) (id : BlockId) : Cache :=
  (c.modifyBlock id fun b => { b with start := 0 }).enlist m id 0

/-- Makes a companion the other part of a block. -/
def pair (c : Cache) (id companion : BlockId) : Cache :=
  let c := c.modifyBlock companion fun b => { b with companion := some id }
  c.modifyBlock id fun b => { b with companion := some companion }

/-- Counts a byte as needed by a block. -/
def coverByte (c : Cache) (m : MonitorId) (offset : Nat) : Cache :=
  c.modifyMonitor m fun mon => { mon with cover := mon.cover.modify offset (· + 1) }

/-- Extends the guest bytes of a block up to an offset. -/
def extendTo (c : Cache) (id : BlockId) (offset : Nat) : Cache :=
  c.modifyBlock id fun b => { b with last := max b.last offset }

/-- Gives the bytes of a block back; its masked bytes were never counted. -/
def uncover (b : Block) (cover : Array UInt16) : Array UInt16 :=
  (List.range' b.start (b.last + 1 - b.start)).foldl
    (fun cover offset => if b.masked offset then cover else cover.modify offset fun n => if n = 0 then 0 else n - 1)
    cover

/-- Takes a block out of its monitor. -/
def delist (c : Cache) (m : MonitorId) (id : BlockId) : Cache :=
  let c := c.modifyBlock id fun b => { b with owner := none }
  let b := c.block id
  let found := ((c.monitor m).bucket b.bucket).contains id
  let delay := c.settings.releaseDelay
  let c := c.modifyMonitor m fun mon =>
    { mon with
      activeBlocks := mon.activeBlocks - 1
      patience := delay
      buckets := mon.buckets.modify b.bucket fun ids => ids.erase id
      cover := uncover b mon.cover }
  if found then c else c.anomaly

/-- The block that starts at a page offset. -/
def find (c : Cache) (m : MonitorId) (start : Nat) : Option BlockId :=
  ((c.monitor m).bucket (c.bucketOf start)).find? fun id => (c.block id).start = start

/-- Whether a byte changes so often that code there is better interpreted. -/
def countsAsData (c : Cache) (m : MonitorId) (offset : Nat) : Bool :=
  c.settings.overwriteThreshold ≤ ((c.monitor m).overwrites.getD offset 0).toNat

end Recompiler.Cache
