import Recompiler.Abort
import Recompiler.Cache.Clear

/-! Code page monitors. A page gets a monitor when code on it is compiled. It loses it when the page has had no
blocks through a number of stores, when the monitor is needed for another page, or when the page is run with the
other code size. -/

namespace Recompiler.Cache

/-- Clears the blocks of a list that meet a range, and notes whether the running block is among them or is the
other part of one of them. -/
def invalidateBlocks (first last : Nat) (running : Option BlockId) (ids : List BlockId) (acc : Bool × Cache) :
    Bool × Cache :=
  ids.foldl
    (fun (hit, c) id =>
      let b := c.block id
      if b.overlaps first last then
        (hit || (running.isSome && (some id == running || b.companion == running)), c.clearBlock id)
      else (hit, c))
    acc

/-- Clears the blocks in the lowest `n` buckets of a monitor that meet a range, from the highest bucket down to the
first, until no byte of the range is covered any more. -/
def invalidateBuckets (m : MonitorId) (first last : Nat) (running : Option BlockId) :
    (n : Nat) → Bool × Cache → Bool × Cache
  | 0, acc => acc
  | n + 1, (hit, c) =>
    let mon := c.monitor m
    if mon.hasCode first (last + 1 - first) then
      let ids := mon.bucket n
      invalidateBuckets m first last running n (invalidateBlocks first last running ids (hit, c))
    else (hit, c)

/-- Clears the blocks of a page that meet a range of offsets, ends included. Says whether the running block was
among them. -/
def invalidate (c : Cache) (m : MonitorId) (first last : Nat) (running : Option BlockId) : Bool × Cache :=
  invalidateBuckets m first last running (c.bucketOf last + 1) (false, c)

/-- Makes `older` the monitor that follows another one, or the newest one if there is no other. -/
def setOlder (c : Cache) (other older : Option MonitorId) : Cache :=
  match other with
  | some p => c.modifyMonitor p fun mon => { mon with next := older }
  | none => { c with newest := older }

/-- Makes `newer` the monitor that precedes another one, or the oldest one if there is no other. -/
def setNewer (c : Cache) (other newer : Option MonitorId) : Cache :=
  match other with
  | some n => c.modifyMonitor n fun mon => { mon with prev := newer }
  | none => { c with oldest := newer }

/-- Stops watching a page. -/
def release (c : Cache) (m : MonitorId) : Cache :=
  let mon := c.monitor m
  let page := mon.page
  let prev := mon.prev
  let next := mon.next
  let c := c.modifyMonitor m fun mon =>
    { mon with installed := false, overwrites := noOverwrites, prev := none, next := none }
  let c := (c.setOlder prev next).setNewer next prev
  let c := { c with byPage := c.byPage.erase page, freeMonitors := m :: c.freeMonitors }
  c.modifyStats fun s => { s with released := s.released + 1 }

/-- Notes a store that changes `len` bytes of a page. Says whether the running block was hit. -/
def noteStore (c : Cache) (m : MonitorId) (offset len : Nat) (running : Option BlockId) : Bool × Cache :=
  if (c.monitor m).hasCode offset len then
    let c := c.modifyMonitor m fun mon =>
      { mon with
        overwrites := (List.range len).foldl
          (fun counts i => counts.modify (offset + i) fun n => if n = 255 then 255 else n + 1) mon.overwrites }
    c.invalidate m offset (offset + len - 1) running
  else if (c.monitor m).activeBlocks = 0 then
    let c := c.modifyMonitor m fun mon => { mon with patience := mon.patience - 1 }
    if (c.monitor m).patience = 0 then (false, c.release m) else (false, c)
  else (false, c)

/-- Clears the blocks of a bucket. Their bytes need no giving back, as the whole page goes. -/
def clearBucket (m : MonitorId) (c : Cache) (i : Nat) : Cache :=
  let ids := (c.monitor m).bucket i
  let c := c.modifyMonitor m fun mon => { mon with buckets := mon.buckets.setIfInBounds i [] }
  ids.foldl (fun c id => (c.modifyBlock id fun b => { b with owner := none }).clearBlock id) c

/-- Clears all blocks of a page and stops watching it. -/
def clearRelease (c : Cache) (m : MonitorId) : Cache :=
  let c := (List.range (c.monitor m).buckets.size).foldl (clearBucket m) c
  let c := c.modifyMonitor m fun mon => { mon with activeBlocks := 0, cover := noCover }
  c.release m

/-- Clears all blocks and stops watching all pages; `n` bounds the number of monitors. -/
def clearMonitors : (n : Nat) → Cache → Cache
  | 0, c => c
  | n + 1, c =>
    match c.newest with
    | none => c
    | some m => clearMonitors n (c.clearRelease m)

/-- Clears all blocks and stops watching all pages. -/
def clearAll (c : Cache) : Cache :=
  clearMonitors (c.monitors.size + 1) c

/-- The monitor to recycle: the oldest one, or the next newer one if that is under protection. -/
def victim (c : Cache) (keep : Option MonitorId) : Option MonitorId :=
  match c.oldest with
  | none => none
  | some m => if keep = some m then (c.monitor m).prev else some m

/-- Takes a free monitor, recycling one if there is none. Gives the page that lost its monitor. -/
def takeMonitor (c : Cache) (keep : Option MonitorId) :
    Except Abort (MonitorId × Option UInt32 × Cache) :=
  match c.freeMonitors with
  | m :: rest => .ok (m, none, { c with freeMonitors := rest })
  | [] =>
    match c.victim keep with
    | none => .error .noMonitor
    | some v =>
      let page := (c.monitor v).page
      let c := c.clearRelease v
      match c.freeMonitors with
      | m :: rest => .ok (m, some page, { c with freeMonitors := rest })
      | [] => .error .noMonitor

/-- Puts a free monitor on a page. -/
def watch (c : Cache) (m : MonitorId) (page : UInt32) (flags : UInt8) (code32 : Bool) : Cache :=
  let head := c.newest
  let s := c.settings
  let c := c.modifyMonitor m fun mon =>
    { page := page, flags := flags, code32 := code32, installed := true, patience := s.releaseDelay
      buckets := Array.replicate mon.buckets.size [], prev := none, next := head }
  let c := c.setNewer head (some m)
  let c := { c with newest := some m, byPage := c.byPage.insert page m }
  c.modifyStats fun s => { s with installed := s.installed + 1 }

/-- The monitor of the page that holds a linear address, installed if there is none; no monitor for pages that must
not hold code. A page installed for the other code size is cleared and installed anew. -/
def codePage (c : Cache) (mem : Memory) (linear : UInt32) (code32 : Bool) (keep : Option MonitorId) :
    Except Abort (Except PageFault (Option MonitorId) × Memory × Cache) :=
  match mem.resolve linear false with
  | .error fault => .ok (.error fault, mem, c)
  | .ok paddr =>
    let page := pageOf paddr
    match c.monitorOf page with
    | some m =>
      if (c.monitor m).code32 = code32 then .ok (.ok (some m), mem, c)
      else install page (mem.release page) (c.clearRelease m)
    | none => install page mem c
where
  /-- Installs a monitor if the page may hold code. -/
  install (page : UInt32) (mem : Memory) (c : Cache) :
      Except Abort (Except PageFault (Option MonitorId) × Memory × Cache) :=
    let flags := mem.pageFlags page
    if !PageFlag.has flags PageFlag.readable || PageFlag.has flags PageFlag.noCode then
      .ok (.ok none, mem, c)
    else
      match c.takeMonitor keep with
      | .error abort => .error abort
      | .ok (m, recycled, c) =>
        let mem :=
          match recycled with
          | some old => mem.release old
          | none => mem
        .ok (.ok (some m), mem, c.watch m page flags code32)

end Recompiler.Cache
