import Mathlib
import Recompiler.Cache.Spans
import Recompiler.Cache.Store

/-! Reading a cache after a change. Every operation on the cache is a sequence of changes to single descriptors,
monitors and table entries; the lemmas here say what the accessors see after each. Parts that an operation cannot
touch are compared through copies in which the other parts are blanked out. -/

namespace Recompiler

/-- A descriptor without its links. -/
def Block.unlinked (b : Block) : Block :=
  { b with links := ⟨{}, {}⟩ }

/-- A descriptor without its links and its place among the free ones. -/
def Block.core (b : Block) : Block :=
  { b with links := ⟨{}, {}⟩, freeNext := none }

/-- What a descriptor says of guest code: without its links and its places in the lists and the arena. -/
def Block.tenant (b : Block) : Block :=
  { b with links := ⟨{}, {}⟩, freeNext := none, codeStart := 0, codeSize := 0, arenaNext := none }

/-- What a descriptor says of the guest bytes of its own page. -/
def Block.claim (b : Block) : Block :=
  { b.tenant with companion := none }

/-- The span of a descriptor, and the span after it. -/
def Block.place (b : Block) : Nat × Nat × Option BlockId :=
  (b.codeStart, b.codeSize, b.arenaNext)

/-- A monitor without what its blocks account for. -/
def Monitor.core (m : Monitor) : Monitor :=
  { m with cover := #[], buckets := #[], activeBlocks := 0, patience := 0 }

namespace Block

variable (b : Block)

@[simp] theorem unlinked_start : b.unlinked.start = b.start := rfl
@[simp] theorem unlinked_last : b.unlinked.last = b.last := rfl
@[simp] theorem unlinked_owner : b.unlinked.owner = b.owner := rfl
@[simp] theorem unlinked_codeStart : b.unlinked.codeStart = b.codeStart := rfl
@[simp] theorem unlinked_codeSize : b.unlinked.codeSize = b.codeSize := rfl
@[simp] theorem unlinked_arenaNext : b.unlinked.arenaNext = b.arenaNext := rfl
@[simp] theorem unlinked_freeNext : b.unlinked.freeNext = b.freeNext := rfl
@[simp] theorem unlinked_mask : b.unlinked.mask = b.mask := rfl
@[simp] theorem unlinked_bucket : b.unlinked.bucket = b.bucket := rfl
@[simp] theorem unlinked_companion : b.unlinked.companion = b.companion := rfl
@[simp] theorem unlinked_isCompanion : b.unlinked.isCompanion = b.isCompanion := rfl

end Block

/-- What a monitor watches, and how. -/
def Monitor.station (m : Monitor) : UInt32 × UInt8 × Bool :=
  (m.page, m.flags, m.code32)

@[simp] theorem Block.core_unlinked (b : Block) : b.unlinked.core = b.core := rfl

theorem Block.core_eq_of_unlinked_eq {b b' : Block} (h : b.unlinked = b'.unlinked) : b.core = b'.core := by
  rw [← b.core_unlinked, h, b'.core_unlinked]

namespace Block

section

variable {b b' : Block} (h : b.claim = b'.claim)
include h

theorem start_eq_of_claim : b.start = b'.start := by
  have hfield := congrArg Block.start h
  exact hfield

theorem last_eq_of_claim : b.last = b'.last := by
  have hfield := congrArg Block.last h
  exact hfield

theorem owner_eq_of_claim : b.owner = b'.owner := by
  have hfield := congrArg Block.owner h
  exact hfield

theorem mask_eq_of_claim : b.mask = b'.mask := by
  have hfield := congrArg Block.mask h
  exact hfield

theorem bucket_eq_of_claim : b.bucket = b'.bucket := by
  have hfield := congrArg Block.bucket h
  exact hfield

theorem live_eq_of_claim : b.live = b'.live := by
  rw [live, live, owner_eq_of_claim h]

theorem isCompanion_eq_of_claim : b.isCompanion = b'.isCompanion := by
  rw [isCompanion, isCompanion, bucket_eq_of_claim h]

theorem masked_eq_of_claim (i : Nat) : b.masked i = b'.masked i := by
  rw [masked, masked, mask_eq_of_claim h]

end

section

variable {b b' : Block} (h : b.tenant = b'.tenant)
include h

theorem claim_eq_of_tenant : b.claim = b'.claim := by
  have hclaim := congrArg Block.claim h
  exact hclaim

theorem companion_eq_of_tenant : b.companion = b'.companion := by
  have hfield := congrArg Block.companion h
  exact hfield

end

section

variable {b b' : Block} (h : b.core = b'.core)
include h

theorem tenant_eq_of_core : b.tenant = b'.tenant := by
  have htenant := congrArg Block.tenant h
  exact htenant

theorem claim_eq_of_core : b.claim = b'.claim :=
  claim_eq_of_tenant (tenant_eq_of_core h)

theorem place_eq_of_core : b.place = b'.place := by
  have hplace := congrArg Block.place h
  exact hplace

theorem codeStart_eq_of_core : b.codeStart = b'.codeStart := by
  have hfield := congrArg Block.codeStart h
  exact hfield

theorem codeSize_eq_of_core : b.codeSize = b'.codeSize := by
  have hfield := congrArg Block.codeSize h
  exact hfield

theorem arenaNext_eq_of_core : b.arenaNext = b'.arenaNext := by
  have hfield := congrArg Block.arenaNext h
  exact hfield

theorem start_eq_of_core : b.start = b'.start :=
  start_eq_of_claim (claim_eq_of_core h)

theorem last_eq_of_core : b.last = b'.last :=
  last_eq_of_claim (claim_eq_of_core h)

theorem owner_eq_of_core : b.owner = b'.owner :=
  owner_eq_of_claim (claim_eq_of_core h)

theorem mask_eq_of_core : b.mask = b'.mask :=
  mask_eq_of_claim (claim_eq_of_core h)

theorem bucket_eq_of_core : b.bucket = b'.bucket :=
  bucket_eq_of_claim (claim_eq_of_core h)

theorem companion_eq_of_core : b.companion = b'.companion :=
  companion_eq_of_tenant (tenant_eq_of_core h)

theorem live_eq_of_core : b.live = b'.live :=
  live_eq_of_claim (claim_eq_of_core h)

theorem isCompanion_eq_of_core : b.isCompanion = b'.isCompanion :=
  isCompanion_eq_of_claim (claim_eq_of_core h)

theorem masked_eq_of_core (i : Nat) : b.masked i = b'.masked i :=
  masked_eq_of_claim (claim_eq_of_core h) i

theorem overlaps_eq_of_core (first last : Nat) : b.overlaps first last = b'.overlaps first last := by
  rw [overlaps, overlaps, start_eq_of_core h, last_eq_of_core h]

end

end Block

namespace Monitor

variable {m m' : Monitor} (h : m.core = m'.core)
include h

theorem page_eq_of_core : m.page = m'.page := by
  have hfield := congrArg Monitor.page h
  exact hfield

theorem flags_eq_of_core : m.flags = m'.flags := by
  have hfield := congrArg Monitor.flags h
  exact hfield

theorem code32_eq_of_core : m.code32 = m'.code32 := by
  have hfield := congrArg Monitor.code32 h
  exact hfield

theorem overwrites_eq_of_core : m.overwrites = m'.overwrites := by
  have hfield := congrArg Monitor.overwrites h
  exact hfield

theorem installed_eq_of_core : m.installed = m'.installed := by
  have hfield := congrArg Monitor.installed h
  exact hfield

theorem prev_eq_of_core : m.prev = m'.prev := by
  have hfield := congrArg Monitor.prev h
  exact hfield

theorem next_eq_of_core : m.next = m'.next := by
  have hfield := congrArg Monitor.next h
  exact hfield

theorem station_eq_of_core : m.station = m'.station := by
  rw [station, station, page_eq_of_core h, flags_eq_of_core h, code32_eq_of_core h]

end Monitor

namespace Cache

/-- A cache without descriptors, monitors, links, free list and counts: what clearing blocks cannot change. -/
def shell (c : Cache) : Cache :=
  { c with blocks := #[], monitors := #[], linkTable := #[], freeHead := none, stats := {} }

/-- A cache without its monitors and the counts: what no operation on the list of monitors changes. -/
def offPages (c : Cache) : Cache :=
  { c with monitors := #[], newest := none, oldest := none, byPage := {}, freeMonitors := [], stats := {} }

/-- A cache without its monitors, the counts and the open block: what its spans and links depend on. -/
def body (c : Cache) : Cache :=
  { c.offPages with building := none }

variable (c : Cache) (id x : BlockId) (m n : MonitorId)

theorem block_of_size_le {c : Cache} {id : BlockId} (h : c.blocks.size ≤ id) : c.block id = {} := by
  simp [block, Array.getElem?_eq_none h]

theorem lt_size_of_live {c : Cache} {id : BlockId} (h : (c.block id).live = true) : id < c.blocks.size := by
  by_contra hlt
  rw [block_of_size_le (Nat.le_of_not_lt hlt)] at h
  exact absurd h (by decide)

theorem monitor_of_size_le {c : Cache} {m : MonitorId} (h : c.monitors.size ≤ m) :
    c.monitor m = { buckets := #[] } := by
  simp [monitor, Array.getElem?_eq_none h]

theorem lt_size_of_installed {c : Cache} {m : MonitorId} (h : (c.monitor m).installed = true) :
    m < c.monitors.size := by
  by_contra hlt
  rw [monitor_of_size_le (Nat.le_of_not_lt hlt)] at h
  exact absurd h (by decide)

/-! ### Descriptors -/

@[simp] theorem size_modifyBlock (f : Block → Block) : (c.modifyBlock id f).blocks.size = c.blocks.size := by
  simp [modifyBlock]

theorem block_modifyBlock (f : Block → Block) :
    (c.modifyBlock id f).block x = if x = id ∧ x < c.blocks.size then f (c.block x) else c.block x := by
  by_cases hx : x < c.blocks.size
  · by_cases h : id = x
    · subst h
      simp [block, modifyBlock, Array.getElem_modify, hx]
    · simp [block, modifyBlock, Array.getElem?_modify, h, Ne.symm h]
  · have hle := Nat.le_of_not_lt hx
    rw [if_neg (fun h => hx h.2), block_of_size_le hle, block_of_size_le (by simpa using hle)]

theorem block_modifyBlock_self {c : Cache} {id : BlockId} (h : id < c.blocks.size) (f : Block → Block) :
    (c.modifyBlock id f).block id = f (c.block id) := by
  rw [block_modifyBlock, if_pos ⟨rfl, h⟩]

theorem block_modifyBlock_ne {id x : BlockId} (h : x ≠ id) (f : Block → Block) :
    (c.modifyBlock id f).block x = c.block x := by
  rw [block_modifyBlock, if_neg fun hx => h hx.1]

/-- What a change to a descriptor keeps of it, it keeps of all descriptors. -/
theorem map_block_modifyBlock {α : Type} {f : Block → Block} {g : Block → α} (h : ∀ b, g (f b) = g b) :
    g ((c.modifyBlock id f).block x) = g (c.block x) := by
  rw [block_modifyBlock]
  split
  · rw [h]
  · rfl

@[simp] theorem monitors_modifyBlock (f : Block → Block) : (c.modifyBlock id f).monitors = c.monitors := rfl

@[simp] theorem monitor_modifyBlock (f : Block → Block) : (c.modifyBlock id f).monitor m = c.monitor m := rfl

@[simp] theorem shell_modifyBlock (f : Block → Block) : (c.modifyBlock id f).shell = c.shell := rfl

@[simp] theorem freeHead_modifyBlock (f : Block → Block) : (c.modifyBlock id f).freeHead = c.freeHead := rfl

@[simp] theorem linkTable_modifyBlock (f : Block → Block) : (c.modifyBlock id f).linkTable = c.linkTable := rfl

@[simp] theorem stats_modifyBlock (f : Block → Block) : (c.modifyBlock id f).stats = c.stats := rfl

@[simp] theorem settings_modifyBlock (f : Block → Block) : (c.modifyBlock id f).settings = c.settings := rfl

/-- A change that does nothing to the descriptor it is applied to. -/
theorem modifyBlock_of_fixed {c : Cache} {id : BlockId} {f : Block → Block} (h : f (c.block id) = c.block id) :
    c.modifyBlock id f = c := by
  have hblocks : c.blocks.modify id f = c.blocks := by
    refine Array.ext (by simp) fun i hi hi' => ?_
    rw [Array.getElem_modify]
    split
    · rename_i hid
      subst hid
      rwa [block, Array.getD_eq_getD_getElem?, Array.getElem?_eq_getElem hi', Option.getD_some] at h
    · rfl
  rw [modifyBlock, hblocks]

theorem modifyBlock_modifyBlock (f g : Block → Block) : (c.modifyBlock id f).modifyBlock id g = c.modifyBlock id (g ∘ f) := by
  have hblocks : (c.blocks.modify id f).modify id g = c.blocks.modify id (g ∘ f) := by
    refine Array.ext (by simp) fun i hi hi' => ?_
    rw [Array.getElem_modify, Array.getElem_modify, Array.getElem_modify]
    split <;> rfl
  simp only [modifyBlock, hblocks]

/-! ### Monitors -/

@[simp] theorem size_modifyMonitor (f : Monitor → Monitor) :
    (c.modifyMonitor m f).monitors.size = c.monitors.size := by
  simp [modifyMonitor]

theorem monitor_modifyMonitor (f : Monitor → Monitor) :
    (c.modifyMonitor m f).monitor n = if n = m ∧ n < c.monitors.size then f (c.monitor n) else c.monitor n := by
  by_cases hn : n < c.monitors.size
  · by_cases h : m = n
    · subst h
      simp [monitor, modifyMonitor, Array.getElem_modify, hn]
    · simp [monitor, modifyMonitor, Array.getElem?_modify, h, Ne.symm h]
  · have hle := Nat.le_of_not_lt hn
    rw [if_neg (fun h => hn h.2), monitor_of_size_le hle, monitor_of_size_le (by simpa using hle)]

theorem monitor_modifyMonitor_self {c : Cache} {m : MonitorId} (h : m < c.monitors.size) (f : Monitor → Monitor) :
    (c.modifyMonitor m f).monitor m = f (c.monitor m) := by
  rw [monitor_modifyMonitor, if_pos ⟨rfl, h⟩]

theorem monitor_modifyMonitor_ne {m n : MonitorId} (h : n ≠ m) (f : Monitor → Monitor) :
    (c.modifyMonitor m f).monitor n = c.monitor n := by
  rw [monitor_modifyMonitor, if_neg fun hn => h hn.1]

/-- What a change to a monitor keeps of it, it keeps of all monitors. -/
theorem map_monitor_modifyMonitor {α : Type} {f : Monitor → Monitor} {g : Monitor → α} (h : ∀ b, g (f b) = g b) :
    g ((c.modifyMonitor m f).monitor n) = g (c.monitor n) := by
  rw [monitor_modifyMonitor]
  split
  · rw [h]
  · rfl

@[simp] theorem blocks_modifyMonitor (f : Monitor → Monitor) : (c.modifyMonitor m f).blocks = c.blocks := rfl

@[simp] theorem block_modifyMonitor (f : Monitor → Monitor) : (c.modifyMonitor m f).block x = c.block x := rfl

@[simp] theorem shell_modifyMonitor (f : Monitor → Monitor) : (c.modifyMonitor m f).shell = c.shell := rfl

@[simp] theorem freeHead_modifyMonitor (f : Monitor → Monitor) : (c.modifyMonitor m f).freeHead = c.freeHead := rfl

@[simp] theorem linkTable_modifyMonitor (f : Monitor → Monitor) : (c.modifyMonitor m f).linkTable = c.linkTable := rfl

@[simp] theorem stats_modifyMonitor (f : Monitor → Monitor) : (c.modifyMonitor m f).stats = c.stats := rfl

@[simp] theorem settings_modifyMonitor (f : Monitor → Monitor) : (c.modifyMonitor m f).settings = c.settings := rfl

/-! ### Counts -/

@[simp] theorem block_modifyStats (f : CacheStats → CacheStats) : (c.modifyStats f).block x = c.block x := rfl

@[simp] theorem blocks_modifyStats (f : CacheStats → CacheStats) : (c.modifyStats f).blocks = c.blocks := rfl

@[simp] theorem monitor_modifyStats (f : CacheStats → CacheStats) : (c.modifyStats f).monitor m = c.monitor m := rfl

@[simp] theorem monitors_modifyStats (f : CacheStats → CacheStats) : (c.modifyStats f).monitors = c.monitors := rfl

@[simp] theorem shell_modifyStats (f : CacheStats → CacheStats) : (c.modifyStats f).shell = c.shell := rfl

@[simp] theorem freeHead_modifyStats (f : CacheStats → CacheStats) : (c.modifyStats f).freeHead = c.freeHead := rfl

@[simp] theorem linkTable_modifyStats (f : CacheStats → CacheStats) : (c.modifyStats f).linkTable = c.linkTable := rfl

@[simp] theorem settings_modifyStats (f : CacheStats → CacheStats) : (c.modifyStats f).settings = c.settings := rfl

end Cache

end Recompiler
