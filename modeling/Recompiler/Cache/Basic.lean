import Recompiler.Code.Emitter
import Recompiler.Code.Execution
import Recompiler.Guest.Memory
import Std.Data.HashMap

/-! The code cache: a fixed pool of block descriptors, the spans of host code they describe, the links between
blocks, and a fixed pool of monitors, one for each guest page that holds compiled code. Descriptors and monitors
go by number, and free ones, spans and link sources are chained through the descriptors. -/

namespace Recompiler

/-- Number of a code page monitor. -/
abbrev MonitorId := Nat

/-- Guest bytes that a block reads when it runs, so that a store to them leaves it valid. -/
structure WriteMask where
  /-- Page offset of the first byte the mask covers. -/
  start : Nat
  bits : Array Bool
  deriving DecidableEq, Repr, Inhabited

namespace WriteMask

def contains (m : WriteMask) (offset : Nat) : Bool :=
  m.start ≤ offset && m.bits.getD (offset - m.start) false

/-- Marks a page offset, growing the mask by a factor if it ends before. -/
def mark (m : WriteMask) (offset growth : Nat) : WriteMask :=
  let i := offset - m.start
  let len := if m.bits.size ≤ i then max (m.bits.size * growth) (i + 1) else m.bits.size
  { m with bits := (m.bits ++ Array.replicate (len - m.bits.size) false).setIfInBounds i true }

end WriteMask

/-- One of the two ways out of a block that can lead straight to another one. -/
structure LinkSlot where
  /-- The block it leads to; with none it leads to the slot's stub. -/
  target : Option BlockId := none
  /-- Next block that leads to the same target through this slot. -/
  next : Option BlockId := none
  /-- First block that leads here through this slot. -/
  source : Option BlockId := none
  deriving DecidableEq, Repr, Inhabited

/-- A block descriptor. Every descriptor is a span of the arena, the companion of a block that runs on into a
second page, or free. -/
structure Block where
  /-- Offset of the first guest byte in the owning page. -/
  start : Nat := 0
  /-- Offset of the last guest byte. -/
  last : Nat := 0
  /-- The monitor of the page the block stands on; none for a block that holds no code. -/
  owner : Option MonitorId := none
  /-- Arena offset of the span. -/
  codeStart : Nat := 0
  codeSize : Nat := 0
  /-- Next span in arena order. -/
  arenaNext : Option BlockId := none
  /-- Next free descriptor. -/
  freeNext : Option BlockId := none
  mask : Option WriteMask := none
  links : PerSlot LinkSlot := ⟨{}, {}⟩
  /-- Bucket of the owner's block hash; companions and free descriptors have bucket zero. -/
  bucket : Nat := 0
  /-- The other part of a block that stands on two pages. -/
  companion : Option BlockId := none
  deriving DecidableEq, Repr, Inhabited

namespace Block

def live (b : Block) : Bool :=
  b.owner.isSome

def isCompanion (b : Block) : Bool :=
  b.bucket = 0

def masked (b : Block) (offset : Nat) : Bool :=
  match b.mask with
  | some m => m.contains offset
  | none => false

def maskLength (b : Block) : Nat :=
  match b.mask with
  | some m => m.bits.size
  | none => 0

/-- Whether a range of page offsets, ends included, meets the guest bytes of the block. -/
def overlaps (b : Block) (first last : Nat) : Bool :=
  b.start ≤ last && first ≤ b.last

end Block

/-- Write map of a page without code. -/
def noCover : Array UInt16 := Array.replicate pageSize 0

/-- Overwrite counts of a page that was never overwritten. -/
def noOverwrites : Array UInt8 := Array.replicate pageSize 0

/-- Watch over a guest page that holds compiled code. -/
structure Monitor where
  /-- Physical page number. -/
  page : UInt32 := 0
  /-- Attributes the page had when the monitor was installed. -/
  flags : UInt8 := 0
  /-- Code size its blocks were compiled for. -/
  code32 : Bool := false
  /-- For every byte, the number of blocks that would be wrong if it changed. -/
  cover : Array UInt16 := noCover
  /-- For every byte, how often it changed while covered. -/
  overwrites : Array UInt8 := noOverwrites
  /-- Blocks by their start; the first bucket holds companions. -/
  buckets : Array (List BlockId)
  activeBlocks : Nat := 0
  /-- Stores outside code left before a page without blocks is released. -/
  patience : Nat := 0
  installed : Bool := false
  /-- Neighbours among the installed monitors: the next newer one. -/
  prev : Option MonitorId := none
  /-- The next older one. -/
  next : Option MonitorId := none
  deriving DecidableEq, Repr, Inhabited

namespace Monitor

/-- Whether a byte among `len` from an offset on is covered. -/
def hasCode (m : Monitor) (offset len : Nat) : Bool :=
  (List.range len).any fun i => m.cover.getD (offset + i) 0 != 0

def bucket (m : Monitor) (i : Nat) : List BlockId :=
  m.buckets.getD i []

end Monitor

/-- Counts of what happened in the cache. -/
structure CacheStats where
  opened : Nat := 0
  cleared : Nat := 0
  links : Nat := 0
  /-- Times the allocation cursor went back to the first span. -/
  wraps : Nat := 0
  installed : Nat := 0
  released : Nat := 0
  /-- Inconsistencies that were passed over. -/
  anomalies : Nat := 0
  deriving DecidableEq, Repr, Inhabited

structure Cache where
  settings : Settings
  blocks : Array Block
  /-- First free descriptor. -/
  freeHead : Option BlockId
  /-- The span that the next block starts from. -/
  active : BlockId := 0
  /-- The block being compiled. -/
  building : Option BlockId := none
  /-- Arena offset of the first span. -/
  blocksStart : Nat
  /-- Host address of the arena. -/
  arenaBase : Nat
  /-- Host addresses that unlinked slots lead to. -/
  stubs : PerSlot Nat
  /-- Host addresses that the slots of the blocks lead to, two for each block. -/
  linkTable : Array Nat
  monitors : Array Monitor
  /-- Monitors that watch no page, the next one to use first. -/
  freeMonitors : List MonitorId
  /-- The monitor installed last. -/
  newest : Option MonitorId := none
  /-- The monitor installed first. -/
  oldest : Option MonitorId := none
  /-- Monitors by physical page. -/
  byPage : Std.HashMap UInt32 MonitorId := {}
  stats : CacheStats := {}

namespace Cache

/-- The first span in arena order always has the first descriptor. -/
def firstSpan : BlockId := 0

/-- An empty cache: one span for the whole block area, all other descriptors free. -/
def create (s : Settings) (arenaBase blocksStart : Nat) (stubs : PerSlot Nat) : Cache where
  settings := s
  blocks := Array.ofFn fun (i : Fin s.blockCount) =>
    if i.val = 0 then { codeStart := blocksStart, codeSize := s.cacheSize, bucket := 1 }
    else { freeNext := if i.val + 1 < s.blockCount then some (i.val + 1) else none }
  freeHead := if 1 < s.blockCount then some 1 else none
  blocksStart := blocksStart
  arenaBase := arenaBase
  stubs := stubs
  linkTable := Array.ofFn fun (i : Fin (2 * s.blockCount)) => if i.val % 2 = 0 then stubs.first else stubs.second
  monitors := Array.replicate s.codePages { buckets := Array.replicate s.hashBuckets [] }
  freeMonitors := List.range s.codePages

def block (c : Cache) (id : BlockId) : Block :=
  c.blocks.getD id {}

def modifyBlock (c : Cache) (id : BlockId) (f : Block → Block) : Cache :=
  { c with blocks := c.blocks.modify id f }

def monitor (c : Cache) (id : MonitorId) : Monitor :=
  c.monitors.getD id { buckets := #[] }

def modifyMonitor (c : Cache) (id : MonitorId) (f : Monitor → Monitor) : Cache :=
  { c with monitors := c.monitors.modify id f }

def modifyStats (c : Cache) (f : CacheStats → CacheStats) : Cache :=
  { c with stats := f c.stats }

def anomaly (c : Cache) : Cache :=
  c.modifyStats fun s => { s with anomalies := s.anomalies + 1 }

/-- The monitor of a physical page. -/
def monitorOf (c : Cache) (page : UInt32) : Option MonitorId :=
  c.byPage[page]?

/-- Host address of a block's code. -/
def codeAddr (c : Cache) (id : BlockId) : Nat :=
  c.arenaBase + (c.block id).codeStart

/-- Where a link slot of a block leads to. -/
def linkEntry (c : Cache) (id : BlockId) (slot : Slot) : Nat :=
  c.linkTable.getD (2 * id + slot.index) 0

def setLinkEntry (c : Cache) (id : BlockId) (slot : Slot) (addr : Nat) : Cache :=
  { c with linkTable := c.linkTable.setIfInBounds (2 * id + slot.index) addr }

/-- Follows `next` from a start, at most `n` steps. -/
def chain (next : Nat → Option Nat) : (n : Nat) → Option Nat → List Nat
  | 0, _ => []
  | _ + 1, none => []
  | n + 1, some i => i :: chain next n (next i)

/-- The spans in arena order. -/
def spans (c : Cache) : List BlockId :=
  chain (fun b => (c.block b).arenaNext) (c.blocks.size + 1) (some firstSpan)

/-- The installed monitors, the newest first. -/
def installed (c : Cache) : List MonitorId :=
  chain (fun m => (c.monitor m).next) (c.monitors.size + 1) c.newest

/-- Marks a guest byte of a block as read when the block runs. -/
def maskByte (c : Cache) (id : BlockId) (offset : Nat) : Cache :=
  c.modifyBlock id fun b =>
    let mask := b.mask.getD { start := b.start, bits := Array.replicate c.settings.maskInitialLen false }
    { b with mask := some (mask.mark offset c.settings.maskGrowth) }

end Cache

end Recompiler
