import Recompiler.Cache.Hash
import Recompiler.Cache.Links

/-! What can be seen of the code cache from outside. -/

namespace Recompiler

/-- A span of the arena. -/
structure SpanView where
  id : BlockId
  start : Nat
  size : Nat
  live : Bool
  deriving DecidableEq, Repr

/-- A block descriptor. -/
structure BlockView where
  id : BlockId
  live : Bool
  isCompanion : Bool
  first : Nat
  last : Nat
  owner : Option MonitorId
  companion : Option BlockId
  start : Nat
  size : Nat
  next : Option BlockId
  targets : List (Option BlockId)
  /-- Link table entries. -/
  entries : List Nat
  maskLength : Nat
  /-- Masked offsets among the block's bytes. -/
  masked : List Nat
  deriving DecidableEq, Repr

/-- A maximal run of equal values. -/
structure Run where
  start : Nat
  length : Nat
  value : Nat
  deriving DecidableEq, Repr

/-- The maximal runs of equal values other than zero; `i` is the index of the first value. -/
def nonzeroRuns (i : Nat) : List Nat → List Run
  | [] => []
  | 0 :: rest => nonzeroRuns (i + 1) rest
  | value :: rest =>
    match nonzeroRuns (i + 1) rest with
    | r :: rs => if r.start = i + 1 ∧ r.value = value then ⟨i, r.length + 1, value⟩ :: rs else ⟨i, 1, value⟩ :: r :: rs
    | [] => [⟨i, 1, value⟩]

/-- A code page monitor. -/
structure MonitorView where
  id : MonitorId
  page : UInt32
  flags : UInt8
  code32 : Bool
  installed : Bool
  activeBlocks : Nat
  patience : Nat
  cover : List Run
  overwrites : List Run
  deriving DecidableEq, Repr

namespace Cache

/-- The spans in arena order. -/
def spanViews (c : Cache) : List SpanView :=
  c.spans.map fun id =>
    let b := c.block id
    { id, start := b.codeStart, size := b.codeSize, live := b.live }

/-- A block, with link table entries relative to a host address. -/
def blockView (c : Cache) (base : Nat) (id : BlockId) : BlockView :=
  let b := c.block id
  { id, live := b.live, isCompanion := b.isCompanion, first := b.start, last := b.last, owner := b.owner
    companion := b.companion, start := b.codeStart, size := b.codeSize, next := b.arenaNext
    targets := b.links.toList.map (·.target)
    entries := [c.linkEntry id .first - base, c.linkEntry id .second - base]
    maskLength := b.maskLength
    masked := (List.range' b.start (b.last + 1 - b.start)).filter b.masked }

def monitorView (c : Cache) (id : MonitorId) : MonitorView :=
  let m := c.monitor id
  { id, page := m.page, flags := m.flags, code32 := m.code32, installed := m.installed
    activeBlocks := m.activeBlocks, patience := m.patience
    cover := nonzeroRuns 0 (m.cover.toList.map (·.toNat))
    overwrites := nonzeroRuns 0 (m.overwrites.toList.map (·.toNat)) }

/-- Physical pages of the installed monitors, the newest first. -/
def watchedPages (c : Cache) : List UInt32 :=
  c.installed.map fun m => (c.monitor m).page

/-- Whether a number is that of a block. -/
def hasBlock (c : Cache) (id : BlockId) : Bool :=
  id < c.blocks.size

/-- Whether a number is that of a monitor. -/
def hasMonitor (c : Cache) (id : MonitorId) : Bool :=
  id < c.monitors.size

/-- Whether there is a bucket for blocks that start at an offset. -/
def hasBucket (c : Cache) (m : MonitorId) (start : Nat) : Bool :=
  c.bucketOf start < (c.monitor m).buckets.size

/-- A block that can be entered: live and no companion. -/
def enterable (c : Cache) (id : BlockId) : Bool :=
  c.hasBlock id && (c.block id).live && !(c.block id).isCompanion

end Cache

end Recompiler
