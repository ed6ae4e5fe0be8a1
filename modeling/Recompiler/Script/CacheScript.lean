import Recompiler.Cache.Spans
import Recompiler.Cache.Store
import Recompiler.Script.Reply

/-! Driving a code cache by hand, on a memory of its own. A command that names a block, a monitor or a range that
does not exist is aborted, and ends the script. -/

namespace Recompiler

inductive CacheCommand where
  | openBlock
  | closeBlock (written : Nat)
  | capacity (id : BlockId)
  | link (id : BlockId) (slot : Nat) (target : BlockId)
  | sources (id : BlockId) (slot : Nat)
  | clearBlock (id : BlockId)
  | clearAll
  | block (id : BlockId)
  /-- Host addresses of a block's code and of the stubs. -/
  | addresses (id : BlockId)
  | spans
  | codePage (linear : UInt32) (code32 : Bool) (keep : Option MonitorId)
  | clearRelease (m : MonitorId)
  | monitor (m : MonitorId)
  | monitorOf (page : UInt32)
  | installed
  | find (m : MonitorId) (start : Nat)
  | countsAsData (m : MonitorId) (offset : Nat)
  | invalidate (m : MonitorId) (first last : Nat) (running : Option BlockId)
  | write (paddr : UInt32) (w : Width) (value : UInt32)
  | writeChecked (paddr : UInt32) (w : Width) (value : UInt32) (running : Option BlockId)
  | bytes (paddr len : Nat)
  | setFlags (page : Nat) (flags : UInt8)
  | setPresent (page : UInt32) (present : Bool)
  deriving DecidableEq, Repr

structure CacheScript where
  cache : Cache
  mem : Memory

namespace CacheScript

/-- A cache for the given settings; none without a descriptor for the first span. -/
def create (s : Settings) (arenaBase blocksStart : Nat) (stubs : PerSlot Nat) (ram : Nat) : Option CacheScript :=
  if s.blockCount = 0 then none
  else some { cache := Cache.create s arenaBase blocksStart stubs, mem := Memory.zeroed ram }

/-- Whether a store on a watched page would change bytes beyond its end. -/
def straddles (s : CacheScript) (paddr : UInt32) (w : Width) (value : UInt32) : Bool :=
  match s.cache.monitorOf (pageOf paddr) with
  | none => false
  | some m =>
    !fitsInPage paddr w && !PageFlag.has (s.cache.monitor m).flags PageFlag.rom &&
      s.mem.read paddr w != value &&& w.mask

/-- An optional number. -/
def optional : Option Nat → Reply
  | some n => .number n
  | none => .nothing

/-- Carries out a command on a block that must exist. -/
def onBlock (s : CacheScript) (id : BlockId) (r : Reply) : Reply × CacheScript :=
  if s.cache.hasBlock id then (r, s) else (.abort, s)

/-- Carries out a command on a monitor that must exist. -/
def onMonitor (s : CacheScript) (m : MonitorId) (r : Reply) : Reply × CacheScript :=
  if s.cache.hasMonitor m then (r, s) else (.abort, s)

def run (s : CacheScript) : CacheCommand → Reply × CacheScript
  | .openBlock =>
    match s with
    | ⟨cache, mem⟩ =>
      let (id, cache) := cache.openBlock
      (.number id, ⟨cache, mem⟩)
  | .closeBlock written =>
    match s.cache.closeBlock written with
    | .error _ => (.abort, s)
    | .ok (.error e, cache) => (.error e, { s with cache })
    | .ok (.ok id, cache) => (.number id, { s with cache })
  | .capacity id => s.onBlock id (.number (s.cache.capacity id))
  | .link id slot target =>
    match Slot.ofIndex? slot with
    | some slot =>
      if s.cache.hasBlock id && s.cache.hasBlock target then
        (.nothing, { s with cache := s.cache.link id slot target })
      else (.abort, s)
    | none => (.abort, s)
  | .sources id slot =>
    match Slot.ofIndex? slot with
    | some slot => s.onBlock id (.numbers (s.cache.sources id slot))
    | none => (.abort, s)
  | .clearBlock id =>
    if s.cache.hasBlock id then (.nothing, { s with cache := s.cache.clearBlock id })
    else
      (.abort, { s with cache := s.cache.modifyStats fun st => { st with cleared := st.cleared + 1 } })
  | .clearAll => (.nothing, { s with cache := s.cache.clearAll })
  | .block id => s.onBlock id (.block (s.cache.blockView 0 id))
  | .addresses id => s.onBlock id (.numbers (s.cache.codeAddr id :: s.cache.stubs.toList))
  | .spans => (.spans s.cache.spanViews, s)
  | .codePage linear code32 keep =>
    match s.cache.codePage s.mem linear code32 keep with
    | .error _ => (.abort, s)
    | .ok (.error f, mem, cache) => (.fault f, ⟨cache, mem⟩)
    | .ok (.ok m, mem, cache) => (optional m, ⟨cache, mem⟩)
  | .clearRelease m =>
    if s.cache.hasMonitor m then (.nothing, { s with cache := s.cache.clearRelease m }) else (.abort, s)
  | .monitor m => s.onMonitor m (.monitor (s.cache.monitorView m))
  | .monitorOf page => (optional (s.cache.monitorOf page), s)
  | .installed => (.numbers s.cache.installed, s)
  | .find m start =>
    if s.cache.hasMonitor m && s.cache.hasBucket m start then (optional (s.cache.find m start), s) else (.abort, s)
  | .countsAsData m offset => s.onMonitor m (.flag (s.cache.countsAsData m offset))
  | .invalidate m first last running =>
    if s.cache.hasMonitor m && first ≤ last && last < pageSize then
      let (hit, cache) := s.cache.invalidate m first last running
      (.flag hit, { s with cache })
    else (.abort, s)
  | .write paddr w value =>
    if s.straddles paddr w value then (.abort, { s with mem := s.mem.write paddr w value })
    else
      let (mem, cache) := s.cache.write s.mem paddr w value
      (.nothing, ⟨cache, mem⟩)
  | .writeChecked paddr w value running =>
    if s.straddles paddr w value then (.abort, s)
    else
      let (hit, mem, cache) := s.cache.writeChecked s.mem paddr w value running
      (.flag hit, ⟨cache, mem⟩)
  | .bytes paddr len =>
    match s.mem.bytes? paddr len with
    | some bs => (.bytes bs, s)
    | none => (.abort, s)
  | .setFlags page flags =>
    match s.mem.setFlags? page flags with
    | some mem => (.nothing, { s with mem })
    | none => (.abort, s)
  | .setPresent page present => (.nothing, { s with mem := s.mem.setPresent page present })

/-- The reply to a command, with the cursor and the counts after it. -/
structure Line where
  reply : Reply
  active : BlockId
  stats : CacheStats

/-- Carries out commands up to the first one that is aborted. -/
def play (s : CacheScript) : List CacheCommand → List Line × CacheScript
  | [] => ([], s)
  | c :: rest =>
    match s.run c with
    | (.abort, s) => ([⟨.abort, s.cache.active, s.cache.stats⟩], s)
    | (r, s) =>
      let line := ⟨r, s.cache.active, s.cache.stats⟩
      let (lines, s) := s.play rest
      (line :: lines, s)

end CacheScript

end Recompiler
