import Recompiler.Proofs.Cache.Clear
import Recompiler.Proofs.Cache.LinkTable
import Recompiler.Proofs.Tiling

/-! What holds of the cache between operations. Monitors and descriptors refer to each other consistently, the two
parts of a block on two pages know each other, every descriptor is a span, a companion or free, the spans fill the
arena, links run between blocks with code of their own, and the installed monitors are found by their page. Where
memory is not remapped, the write maps also count the blocks that depend on each byte. -/

namespace Recompiler

/-- The page after a page; the last one is followed by the first. -/
def nextPage (page : UInt32) : UInt32 :=
  pageOf (pageBase (page + 1))

/-- A monitor without the counts that no decision about blocks depends on. -/
def Monitor.steady (mon : Monitor) : Monitor :=
  { mon with overwrites := #[], patience := 0 }

theorem Monitor.map_eq_of_steady {α : Type} {mon mon' : Monitor} (h : mon.steady = mon'.steady) (g : Monitor → α)
    (hg : ∀ mon, g mon.steady = g mon) : g mon = g mon' := by
  rw [← hg, h, hg]

namespace Cache

variable (c : Cache)

/-- The blocks of a monitor, companions included. -/
def owned (m : MonitorId) : Finset BlockId :=
  {id ∈ Finset.range c.blocks.size | (c.block id).owner = some m}

/-- The blocks of a monitor that would be wrong if the byte at an offset changed. -/
def dependents (m : MonitorId) (i : Nat) : Finset BlockId :=
  {id ∈ Finset.range c.blocks.size | (c.block id).owner = some m ∧ (c.block id).start ≤ i ∧ i ≤ (c.block id).last ∧
    (c.block id).masked i = false}

/-- Blocks are in the buckets of their owners, by their start. -/
structure Registry : Prop where
  bucketCount : ∀ m < c.monitors.size, (c.monitor m).buckets.size = c.settings.hashBuckets
  mem_bucket : ∀ m i id, id ∈ (c.monitor m).bucket i ↔ (c.block id).owner = some m ∧ (c.block id).bucket = i
  nodup : ∀ m i, ((c.monitor m).bucket i).Nodup
  installed : ∀ id m, (c.block id).owner = some m → (c.monitor m).installed = true
  start_le : ∀ id, (c.block id).live = true → (c.block id).start ≤ (c.block id).last
  last_lt : ∀ id, (c.block id).live = true → (c.block id).last < pageSize
  ordinary : ∀ id, (c.block id).live = true → (c.block id).isCompanion = false →
    (c.block id).bucket = c.bucketOf (c.block id).start
  companion : ∀ id, (c.block id).live = true → (c.block id).isCompanion = true → (c.block id).start = 0
  start_inj : ∀ a b m, (c.block a).owner = some m → (c.block b).owner = some m → (c.block a).isCompanion = false →
    (c.block b).isCompanion = false → (c.block a).start = (c.block b).start → a = b
  active : ∀ m, (c.monitor m).activeBlocks = (c.owned m).card

/-- The part of a block on its second page is a companion. -/
structure Paired : Prop where
  symm : ∀ a b, (c.block a).companion = some b → (c.block b).companion = some a
  live : ∀ a b, (c.block a).companion = some b → (c.block a).live = true
  kind : ∀ a b, (c.block a).companion = some b → (c.block b).isCompanion = !(c.block a).isCompanion
  partner : ∀ b, (c.block b).live = true → (c.block b).isCompanion = true → (c.block b).companion.isSome = true

/-- The second page of a block is the one that follows its first page. -/
def Adjacent : Prop :=
  ∀ a b m n, (c.block a).companion = some b → (c.block a).isCompanion = false → (c.block a).owner = some m →
    (c.block b).owner = some n → (c.monitor n).page = nextPage (c.monitor m).page

/-- A block with code of its own. -/
def Runnable (x : BlockId) : Prop :=
  (c.block x).live = true ∧ (c.block x).isCompanion = false

/-- Spans, along `next`, and free descriptors are two lists without a common member. All blocks with code of their
own are spans, the spans fill the block area, and the cursor leaves room for a block. Descriptors that are neither
spans nor free are companions, apart from a loose one. -/
structure Pool (next : BlockId → Option BlockId) (size : BlockId → Nat) (spans free : List BlockId)
    (loose : Option BlockId) : Prop where
  spanPath : Path next (some firstSpan) spans none
  freePath : Path (fun b => (c.block b).freeNext) c.freeHead free none
  apart : ∀ x ∈ spans, x ∉ free
  spans_lt : ∀ x ∈ spans, x < c.blocks.size
  free_lt : ∀ x ∈ free, x < c.blocks.size
  free_dead : ∀ x ∈ free, (c.block x).live = false
  ordinary : ∀ x ∈ spans, (c.block x).isCompanion = false
  span_of_live : ∀ x, c.Runnable x → x ∈ spans
  placed : ∀ x < c.blocks.size, loose ≠ some x →
    x ∈ spans ∨ x ∈ free ∨ (c.block x).live = true ∧ (c.block x).isCompanion = true
  active : c.active ∈ spans
  tiled : Tiles (fun b => (c.block b).codeStart) size c.blocksStart spans (c.blocksStart + c.settings.cacheSize)
  cursor : (c.block c.active).codeStart + c.settings.maxBlockSize ≤ c.blocksStart + c.settings.cacheSize

/-- Spans, free descriptors and links: what does not depend on the monitors. -/
structure Layout (loose : Option BlockId) : Prop where
  pool : ∃ spans free, c.Pool (fun b => (c.block b).arenaNext) (fun b => (c.block b).codeSize) spans free loose
  linked : c.Linked c.Runnable

/-- The installed monitors are found by their page and form a doubly linked list. -/
structure Watches : Prop where
  byPage : ∀ p m, c.monitorOf p = some m ↔ (c.monitor m).installed = true ∧ (c.monitor m).page = p
  page_lt : ∀ m, (c.monitor m).installed = true → (c.monitor m).page.toNat < 2 ^ 20
  free_nodup : c.freeMonitors.Nodup
  free_lt : ∀ m ∈ c.freeMonitors, m < c.monitors.size
  free_idle : ∀ m ∈ c.freeMonitors, (c.monitor m).installed = false
  prev_iff : ∀ a b, (c.monitor a).prev = some b ↔ (c.monitor b).next = some a
  prev_newer : ∀ a b, (c.monitor a).prev = some b → (c.monitor a).installed = true ∧ (c.monitor b).installed = true
  aged : ∃ age : MonitorId → Nat, ∀ a b, (c.monitor a).prev = some b → age a < age b
  newest : ∀ m, c.newest = some m → (c.monitor m).installed = true ∧ (c.monitor m).prev = none
  oldest : ∀ m, c.oldest = some m → (c.monitor m).installed = true ∧ (c.monitor m).next = none

/-- The write maps count the blocks that depend on each byte, apart from blocks whose bytes were not counted yet. -/
structure Census (uncounted : Finset BlockId) : Prop where
  size : ∀ m, (c.monitor m).installed = true → (c.monitor m).cover.size = pageSize
  count : ∀ m, (c.monitor m).installed = true → ∀ i < pageSize,
    ((c.monitor m).cover.getD i 0).toNat = (c.dependents m i \ uncounted).card

/-- Blocks are where they are looked for, and know their other parts. -/
structure Arranged : Prop where
  registry : c.Registry
  paired : c.Paired

/-- Blocks, their parts and the monitors fit together. -/
structure Orderly : Prop extends Arranged c where
  valid : c.settings.Valid
  watches : c.Watches

/-- The structure of the cache, without the write maps. -/
structure Sound : Prop extends Orderly c where
  layout : c.Layout none
  calm : c.stats.anomalies = 0

/-- The write maps are right, apart from uncounted blocks, and second pages follow first ones. -/
structure Exact (uncounted : Finset BlockId) : Prop where
  adjacent : c.Adjacent
  census : c.Census uncounted

/-- A sound cache whose write maps are right, apart from uncounted blocks. -/
structure Consistent (uncounted : Finset BlockId) : Prop extends Sound c, Exact c uncounted

variable {c}

@[simp] theorem mem_owned {m : MonitorId} {id : BlockId} : id ∈ c.owned m ↔ (c.block id).owner = some m := by
  simp only [owned, Finset.mem_filter, Finset.mem_range, and_iff_right_iff_imp]
  exact fun h => lt_size_of_live (by rw [Block.live, h]; rfl)

@[simp] theorem mem_dependents {m : MonitorId} {i : Nat} {id : BlockId} :
    id ∈ c.dependents m i ↔ (c.block id).owner = some m ∧ (c.block id).start ≤ i ∧ i ≤ (c.block id).last ∧
      (c.block id).masked i = false := by
  simp only [dependents, Finset.mem_filter, Finset.mem_range, and_iff_right_iff_imp]
  exact fun h => lt_size_of_live (by rw [Block.live, h.1]; rfl)

theorem live_iff {id : BlockId} : (c.block id).live = true ↔ ∃ m, (c.block id).owner = some m := by
  rw [Block.live, Option.isSome_iff_exists]

namespace Registry

theorem ownerInPool (h : Registry c) (id : BlockId) : c.OwnerInPool id :=
  fun n hn => lt_size_of_installed (h.installed id n hn)

end Registry

section Congr

variable {c' : Cache}

theorem owned_congr (hclaim : ∀ x, (c'.block x).claim = (c.block x).claim) (m : MonitorId) : c'.owned m = c.owned m := by
  ext x
  rw [mem_owned, mem_owned, Block.owner_eq_of_claim (hclaim x)]

theorem dependents_congr (hclaim : ∀ x, (c'.block x).claim = (c.block x).claim) (m : MonitorId) (i : Nat) :
    c'.dependents m i = c.dependents m i := by
  ext x
  rw [mem_dependents, mem_dependents, Block.owner_eq_of_claim (hclaim x), Block.start_eq_of_claim (hclaim x),
    Block.last_eq_of_claim (hclaim x), Block.masked_eq_of_claim (hclaim x)]

/-- Links, free descriptors and most of what a monitor holds play no part in who owns which block. -/
theorem Registry.congr (h : Registry c) (hsettings : c'.settings = c.settings)
    (hclaim : ∀ x, (c'.block x).claim = (c.block x).claim) (hsize : c'.monitors.size = c.monitors.size)
    (hbuckets : ∀ m, (c'.monitor m).buckets = (c.monitor m).buckets)
    (hinstalled : ∀ id m, (c.block id).owner = some m → (c'.monitor m).installed = true)
    (hactive : ∀ m, (c'.monitor m).activeBlocks = (c.owned m).card) :
    Registry c' := by
  have howner := fun x => Block.owner_eq_of_claim (hclaim x)
  have hbucket := fun x => Block.bucket_eq_of_claim (hclaim x)
  have hstart := fun x => Block.start_eq_of_claim (hclaim x)
  have hlast := fun x => Block.last_eq_of_claim (hclaim x)
  have hlive := fun x => Block.live_eq_of_claim (hclaim x)
  have hcomp := fun x => Block.isCompanion_eq_of_claim (hclaim x)
  refine ⟨fun m hm => ?_, fun m i id => ?_, fun m i => ?_, fun id m => ?_, fun id => ?_, fun id => ?_, fun id => ?_,
    fun id => ?_, fun a b m => ?_, fun m => ?_⟩
  · rw [hbuckets, hsettings]
    exact h.bucketCount m (hsize ▸ hm)
  · rw [Monitor.bucket, hbuckets, howner, hbucket]
    exact h.mem_bucket m i id
  · rw [Monitor.bucket, hbuckets]
    exact h.nodup m i
  · rw [howner]
    exact hinstalled id m
  · rw [hlive, hstart, hlast]
    exact h.start_le id
  · rw [hlive, hlast]
    exact h.last_lt id
  · rw [hlive, hcomp, hbucket, hstart, bucketOf, hsettings]
    exact h.ordinary id
  · rw [hlive, hcomp, hstart]
    exact h.companion id
  · rw [howner, howner, hcomp, hcomp, hstart, hstart]
    exact h.start_inj a b m
  · rw [owned_congr hclaim]
    exact hactive m

theorem Paired.congr (h : Paired c) (htenant : ∀ x, (c'.block x).tenant = (c.block x).tenant) : Paired c' := by
  have hclaim := fun x => Block.claim_eq_of_tenant (htenant x)
  have hcompanion := fun x => Block.companion_eq_of_tenant (htenant x)
  have hlive := fun x => Block.live_eq_of_claim (hclaim x)
  have hcomp := fun x => Block.isCompanion_eq_of_claim (hclaim x)
  refine ⟨fun a b => ?_, fun a b => ?_, fun a b => ?_, fun b => ?_⟩
  · rw [hcompanion, hcompanion]
    exact h.symm a b
  · rw [hcompanion, hlive]
    exact h.live a b
  · rw [hcompanion, hcomp, hcomp]
    exact h.kind a b
  · rw [hlive, hcomp, hcompanion]
    exact h.partner b

theorem Adjacent.congr (h : Adjacent c) (htenant : ∀ x, (c'.block x).tenant = (c.block x).tenant)
    (hpage : ∀ id m, (c.block id).owner = some m → (c'.monitor m).page = (c.monitor m).page) : Adjacent c' := by
  have hclaim := fun x => Block.claim_eq_of_tenant (htenant x)
  have howner := fun x => Block.owner_eq_of_claim (hclaim x)
  intro a b m n hab ha hm hn
  rw [howner] at hm hn
  rw [hpage a m hm, hpage b n hn]
  exact h a b m n (Block.companion_eq_of_tenant (htenant a) ▸ hab) (Block.isCompanion_eq_of_claim (hclaim a) ▸ ha) hm hn

theorem Pool.congr {next : BlockId → Option BlockId} {size : BlockId → Nat} {spans free : List BlockId}
    {loose : Option BlockId} (h : Pool c next size spans free loose) (hlive : ∀ x, (c'.block x).live = (c.block x).live)
    (hcomp : ∀ x, (c'.block x).isCompanion = (c.block x).isCompanion)
    (hfree : ∀ x, (c'.block x).freeNext = (c.block x).freeNext)
    (hstart : ∀ x, (c'.block x).codeStart = (c.block x).codeStart) (hhead : c'.freeHead = c.freeHead)
    (hsize : c'.blocks.size = c.blocks.size) (hactive : c'.active = c.active) (hsettings : c'.settings = c.settings)
    (hblocks : c'.blocksStart = c.blocksStart) : Pool c' next size spans free loose := by
  refine ⟨h.spanPath, ?_, h.apart, ?_, ?_, fun x hx => ?_, fun x hx => ?_, fun x hx => ?_, fun x hx hloose => ?_, ?_, ?_, ?_⟩
  · rw [hhead]
    exact h.freePath.congr fun x _ => hfree x
  · rw [hsize]
    exact h.spans_lt
  · rw [hsize]
    exact h.free_lt
  · rw [hlive]
    exact h.free_dead x hx
  · rw [hcomp]
    exact h.ordinary x hx
  · exact h.span_of_live x ⟨hlive x ▸ hx.1, hcomp x ▸ hx.2⟩
  · rw [hlive, hcomp]
    exact h.placed x (hsize ▸ hx) hloose
  · rw [hactive]
    exact h.active
  · rw [hblocks, hsettings]
    exact h.tiled.congr (fun x _ => hstart x) fun _ _ => rfl
  · rw [hactive, hstart, hsettings, hblocks]
    exact h.cursor

/-- Spans, free descriptors and links are the same in two caches that differ in monitors, counts and the open block
at most. -/
theorem Layout.of_body {loose : Option BlockId} (h : Layout c loose) (hbody : c'.body = c.body) : Layout c' loose := by
  have hhere : Layout c.body loose := by
    obtain ⟨spans, free, hp⟩ := h.pool
    obtain ⟨htable, hslots, hends, hentry⟩ := h.linked
    refine ⟨⟨spans, free, hp.congr (fun _ => rfl) (fun _ => rfl) (fun _ => rfl) (fun _ => rfl) rfl rfl rfl rfl rfl⟩,
      htable, fun k => ?_, hends, hentry⟩
    obtain ⟨sources, hs⟩ := hslots k
    exact ⟨sources, hs.congr fun _ => rfl⟩
  rw [← hbody] at hhere
  obtain ⟨⟨spans, free, hp⟩, htable, hslots, hends, hentry⟩ := hhere
  refine ⟨⟨spans, free, hp.congr (fun _ => rfl) (fun _ => rfl) (fun _ => rfl) (fun _ => rfl) rfl rfl rfl rfl rfl⟩,
    htable, fun k => ?_, hends, hentry⟩
  obtain ⟨sources, hs⟩ := hslots k
  exact ⟨sources, hs.congr fun _ => rfl⟩

theorem Census.congr {E : Finset BlockId} (h : Census c E) (hclaim : ∀ x, (c'.block x).claim = (c.block x).claim)
    (hcover : ∀ m, (c'.monitor m).installed = true →
      (c.monitor m).installed = true ∧ (c'.monitor m).cover = (c.monitor m).cover) : Census c' E := by
  refine ⟨fun m hm => ?_, fun m hm i hi => ?_⟩
  · rw [(hcover m hm).2]
    exact h.size m (hcover m hm).1
  · rw [(hcover m hm).2, dependents_congr hclaim]
    exact h.count m (hcover m hm).1 i hi

end Congr

/-- The list of installed monitors depends only on what they watch and on their neighbours. -/
theorem Watches.of_fields (h : Watches c) {c' : Cache} (hpageOf : ∀ page, c'.monitorOf page = c.monitorOf page)
    (hfree : c'.freeMonitors = c.freeMonitors) (hnewest : c'.newest = c.newest) (holdest : c'.oldest = c.oldest)
    (hsize : c'.monitors.size = c.monitors.size) (hinstalled : ∀ m, (c'.monitor m).installed = (c.monitor m).installed)
    (hpage : ∀ m, (c'.monitor m).page = (c.monitor m).page) (hprev : ∀ m, (c'.monitor m).prev = (c.monitor m).prev)
    (hnext : ∀ m, (c'.monitor m).next = (c.monitor m).next) : Watches c' := by
  refine ⟨fun p m => ?_, fun m => ?_, ?_, ?_, ?_, fun a b => ?_, fun a b => ?_, ?_, fun m => ?_,
    fun m => ?_⟩
  · rw [hpageOf, hinstalled, hpage]
    exact h.byPage p m
  · rw [hinstalled, hpage]
    exact h.page_lt m
  · rw [hfree]
    exact h.free_nodup
  · rw [hfree, hsize]
    exact h.free_lt
  · rw [hfree]
    exact fun m hm => (hinstalled m).trans (h.free_idle m hm)
  · rw [hprev, hnext]
    exact h.prev_iff a b
  · rw [hprev, hinstalled, hinstalled]
    exact h.prev_newer a b
  · obtain ⟨age, hage⟩ := h.aged
    exact ⟨age, fun a b hab => hage a b (hprev a ▸ hab)⟩
  · rw [hnewest, hinstalled, hprev]
    exact h.newest m
  · rw [holdest, hinstalled, hnext]
    exact h.oldest m

/-- The list of installed monitors does not depend on what their blocks account for. -/
theorem Watches.congr (h : Watches c) {c' : Cache} (hbyPage : c'.byPage = c.byPage)
    (hfree : c'.freeMonitors = c.freeMonitors) (hnewest : c'.newest = c.newest) (holdest : c'.oldest = c.oldest)
    (hsize : c'.monitors.size = c.monitors.size) (hcore : ∀ m, (c'.monitor m).core = (c.monitor m).core) : Watches c' :=
  h.of_fields (fun page => by rw [monitorOf, hbyPage]; rfl) hfree hnewest holdest hsize
    (fun m => Monitor.installed_eq_of_core (hcore m)) (fun m => Monitor.page_eq_of_core (hcore m))
    (fun m => Monitor.prev_eq_of_core (hcore m)) fun m => Monitor.next_eq_of_core (hcore m)

/-- Every live block can be cleared. -/
theorem Arranged.clearable (h : Arranged c) {id : BlockId} (hlive : (c.block id).live = true) : Clearable c id where
  lt := lt_size_of_live hlive
  owner := h.registry.ownerInPool id
  partner_lt o ho := lt_size_of_live (h.paired.live o id (h.paired.symm id o ho))
  partner_ne o ho := by
    rintro rfl
    have hkind := h.paired.kind o o ho
    cases hc : (c.block o).isCompanion <;> simp [hc] at hkind
  partner_owner o _ := h.registry.ownerInPool o
  partner_kind o ho := h.paired.kind id o ho

section Cosmetic

variable {c' : Cache} {E : Finset BlockId}

/-- Two caches that differ at most in the open block and in counts that no decision about blocks depends on. -/
structure Cosmetic (c c' : Cache) : Prop where
  body : c'.body = c.body
  anomalies : c'.stats.anomalies = c.stats.anomalies
  byPage : c'.byPage = c.byPage
  freeMonitors : c'.freeMonitors = c.freeMonitors
  newest : c'.newest = c.newest
  oldest : c'.oldest = c.oldest
  monitorsSize : c'.monitors.size = c.monitors.size
  steady : ∀ m, (c'.monitor m).steady = (c.monitor m).steady

namespace Cosmetic

theorem station (h : Cosmetic c c') (m : MonitorId) :
    (c'.monitor m).installed = (c.monitor m).installed ∧ (c'.monitor m).station = (c.monitor m).station :=
  ⟨Monitor.map_eq_of_steady (h.steady m) Monitor.installed fun _ => rfl,
    Monitor.map_eq_of_steady (h.steady m) Monitor.station fun _ => rfl⟩

theorem settings (h : Cosmetic c c') : c'.settings = c.settings := by
  have hfield := congrArg Cache.settings h.body
  exact hfield

theorem block (h : Cosmetic c c') (x : BlockId) : c'.block x = c.block x := by
  have hfield := congrArg Cache.blocks h.body
  exact congrArg (fun blocks : Array Block => blocks.getD x {}) hfield

/-- A change to a monitor that keeps all but its counts. -/
theorem modifyMonitor (c : Cache) (m : MonitorId) {f : Monitor → Monitor} (hf : ∀ mon, (f mon).steady = mon.steady) :
    Cosmetic c (c.modifyMonitor m f) :=
  ⟨rfl, rfl, rfl, rfl, rfl, rfl, size_modifyMonitor c m f, fun n => map_monitor_modifyMonitor c m n hf⟩

/-- Nothing depends on which block is open. -/
theorem building (c : Cache) (building : Option BlockId) : Cosmetic c { c with building } :=
  ⟨rfl, rfl, rfl, rfl, rfl, rfl, rfl, fun _ => rfl⟩

end Cosmetic

theorem Arranged.congr (h : Arranged c) (hc : Cosmetic c c') : Arranged c' := by
  have htenant : ∀ x, (c'.block x).tenant = (c.block x).tenant := fun x => by rw [hc.block]
  have hfield : ∀ {α : Type} (g : Monitor → α) (_ : ∀ mon, g mon.steady = g mon) (m : MonitorId),
      g (c'.monitor m) = g (c.monitor m) := fun g hg m => Monitor.map_eq_of_steady (hc.steady m) g hg
  refine ⟨h.registry.congr hc.settings (fun x => Block.claim_eq_of_tenant (htenant x)) hc.monitorsSize
    (hfield Monitor.buckets fun _ => rfl) (fun id m hid => ?_) fun m => ?_, h.paired.congr htenant⟩
  · rw [(hc.station m).1]
    exact h.registry.installed id m hid
  · rw [hfield Monitor.activeBlocks fun _ => rfl]
    exact h.registry.active m

theorem Sound.congr (h : Sound c) (hc : Cosmetic c c') : Sound c' := by
  have hfield : ∀ {α : Type} (g : Monitor → α) (_ : ∀ mon, g mon.steady = g mon) (m : MonitorId),
      g (c'.monitor m) = g (c.monitor m) := fun g hg m => Monitor.map_eq_of_steady (hc.steady m) g hg
  have hinst := hfield Monitor.installed fun _ => rfl
  refine ⟨⟨h.toArranged.congr hc, hc.settings ▸ h.valid, ?_⟩, h.layout.of_body hc.body, hc.anomalies.trans h.calm⟩
  refine ⟨fun p m => ?_, fun m => ?_, hc.freeMonitors ▸ h.watches.free_nodup, fun m hm => ?_, fun m hm => ?_,
    fun a b => ?_, fun a b => ?_, ?_, fun m => ?_, fun m => ?_⟩
  all_goals simp only [hc.freeMonitors, hc.newest, hc.oldest, hinst, hfield Monitor.page fun _ => rfl,
    hfield Monitor.prev fun _ => rfl, hfield Monitor.next fun _ => rfl] at *
  · rw [monitorOf, hc.byPage]
    exact h.watches.byPage p m
  · exact h.watches.page_lt m
  · rw [hc.monitorsSize]
    exact h.watches.free_lt m hm
  · exact h.watches.free_idle m hm
  · exact h.watches.prev_iff a b
  · exact h.watches.prev_newer a b
  · exact h.watches.aged
  · exact h.watches.newest m
  · exact h.watches.oldest m

theorem Exact.congr (h : Exact c E) (hc : Cosmetic c c') : Exact c' E := by
  have htenant : ∀ x, (c'.block x).tenant = (c.block x).tenant := fun x => by rw [hc.block]
  have hfield : ∀ {α : Type} (g : Monitor → α) (_ : ∀ mon, g mon.steady = g mon) (m : MonitorId),
      g (c'.monitor m) = g (c.monitor m) := fun g hg m => Monitor.map_eq_of_steady (hc.steady m) g hg
  refine ⟨h.adjacent.congr htenant fun _ m _ => hfield Monitor.page (fun _ => rfl) m, ?_⟩
  refine h.census.congr (fun x => Block.claim_eq_of_tenant (htenant x)) fun m hm => ⟨?_, hfield Monitor.cover (fun _ => rfl) m⟩
  rwa [hfield Monitor.installed fun _ => rfl] at hm

end Cosmetic

/-! ### Linking two blocks -/

section Link

variable {id target : BlockId} {k : Slot}

theorem Runnable.lt (h : c.Runnable id) : id < c.blocks.size :=
  lt_size_of_live h.1

/-- A free slot of a block may be made to lead to another one. -/
theorem Sound.link (h : Sound c) (hid : c.Runnable id) (htarget : c.Runnable target)
    (hfree : (c.linkSlot id k).target = none) : Sound (c.link id k target) := by
  have hapart := LinksApart.link c id k target
  have hunlinked : ∀ {α : Type} (g : Block → α) (_ : ∀ b, g b.unlinked = g b) (x : BlockId),
      g ((c.link id k target).block x) = g (c.block x) := fun g hg x => by rw [← hg, hapart.unlinked, hg]
  have hlive := hunlinked Block.live fun _ => rfl
  have hcomp := hunlinked Block.isCompanion fun _ => rfl
  have hmonitor := hapart.monitor
  refine ⟨⟨⟨?_, h.paired.congr (hunlinked Block.tenant fun _ => rfl)⟩, h.valid, ?_⟩, ⟨?_, ?_⟩, h.calm⟩
  · refine h.registry.congr rfl (hunlinked Block.claim fun _ => rfl) (congrArg Array.size hapart.monitors)
      (fun m => congrArg Monitor.buckets (hmonitor m)) (fun x m hx => ?_) fun m => ?_
    · rw [hmonitor]
      exact h.registry.installed x m hx
    · rw [hmonitor]
      exact h.registry.active m
  · exact h.watches.congr rfl rfl rfl rfl (congrArg Array.size hapart.monitors) fun m => congrArg Monitor.core (hmonitor m)
  · obtain ⟨spans, free, hp⟩ := h.layout.pool
    refine ⟨spans, free, ?_⟩
    simp only [hunlinked Block.arenaNext fun _ => rfl, hunlinked Block.codeSize fun _ => rfl]
    exact hp.congr hlive hcomp (hunlinked Block.freeNext fun _ => rfl) (hunlinked Block.codeStart fun _ => rfl)
      hapart.freeHead hapart.size rfl rfl rfl
  · refine (h.layout.linked.link hid.lt htarget.lt hid htarget hfree).mono fun x hx => ?_
    rw [Runnable, hlive, hcomp]
    exact hx

/-- Links play no part in the write maps. -/
theorem Exact.link {E : Finset BlockId} (h : Exact c E) (id : BlockId) (k : Slot) (target : BlockId) :
    Exact (c.link id k target) E := by
  have hapart := LinksApart.link c id k target
  have htenant : ∀ x, ((c.link id k target).block x).tenant = (c.block x).tenant := fun x => by
    have hblank := congrArg Block.tenant (hapart.unlinked x)
    exact hblank
  refine ⟨h.adjacent.congr htenant fun _ m _ => congrArg Monitor.page (hapart.monitor m), ?_⟩
  refine h.census.congr (fun x => Block.claim_eq_of_tenant (htenant x)) fun m hm => ?_
  rw [hapart.monitor] at hm ⊢
  exact ⟨hm, rfl⟩

end Link

end Cache

end Recompiler
