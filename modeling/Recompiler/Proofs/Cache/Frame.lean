import Recompiler.Compile.Block
import Recompiler.Proofs.Cache.Count
import Recompiler.Proofs.Cache.Store

/-! What operations on the cache leave alone, in whatever state it is. Blocks come and go without a change to the
monitors' places, to the lists of monitors or to the numbers of pages watched and given up so far, and only linking two
blocks makes a link. Spans are cut at multiples of the alignment. Clearing, on top of that, leaves every descriptor of the kind it is. -/

namespace Recompiler

/-- What a monitor watches, and its neighbours. -/
def Monitor.post (mon : Monitor) : Bool × (UInt32 × UInt8 × Bool) × Option MonitorId × Option MonitorId :=
  (mon.installed, mon.station, mon.prev, mon.next)

namespace Cache

/-- A cache without its descriptors, its monitors and the counts, apart from the numbers of pages watched and given up so
far. -/
def roster (c : Cache) : Cache :=
  { c with
    blocks := #[], monitors := #[], linkTable := #[], freeHead := none, active := 0, building := none
    stats := { installed := c.stats.installed, released := c.stats.released } }

/-- Monitors stay where they are. -/
structure Stationed (c c' : Cache) : Prop where
  roster : c'.roster = c.roster
  size : c'.monitors.size = c.monitors.size
  post : ∀ m, (c'.monitor m).post = (c.monitor m).post

/-- The sizes of spans are multiples of the alignment. -/
structure Grained (c : Cache) : Prop where
  align : ∃ n, c.settings.align = 2 ^ n
  span : ∀ x, c.settings.align ∣ (c.block x).codeSize

/-- Monitors stay where they are, no link is made, and spans are cut at the alignment. -/
structure Quiet (c c' : Cache) : Prop extends Stationed c c' where
  target : ∀ x k y, (c'.linkSlot x k).target = some y → (c.linkSlot x k).target = some y
  grained : c.Grained → c'.Grained

/-- Monitors stay where they are, no link is made, and companions stay companions. -/
structure Clears (c c' : Cache) : Prop extends Quiet c c' where
  bucket : ∀ x, (c'.block x).bucket = (c.block x).bucket

variable {c c' c'' : Cache}

namespace Stationed

variable (h : Stationed c c')
include h

theorem settings : c'.settings = c.settings := by
  have hfield := congrArg Cache.settings h.roster
  exact hfield

theorem newest : c'.newest = c.newest := by
  have hfield := congrArg Cache.newest h.roster
  exact hfield

theorem oldest : c'.oldest = c.oldest := by
  have hfield := congrArg Cache.oldest h.roster
  exact hfield

theorem freeMonitors : c'.freeMonitors = c.freeMonitors := by
  have hfield := congrArg Cache.freeMonitors h.roster
  exact hfield

theorem installs : c'.stats.installed = c.stats.installed := by
  have hfield := congrArg (fun s : Cache => s.stats.installed) h.roster
  exact hfield

theorem releases : c'.stats.released = c.stats.released := by
  have hfield := congrArg (fun s : Cache => s.stats.released) h.roster
  exact hfield

theorem monitorOf (page : UInt32) : c'.monitorOf page = c.monitorOf page := by
  have hfield := congrArg (fun s : Cache => s.monitorOf page) h.roster
  exact hfield

theorem installed (m : MonitorId) : (c'.monitor m).installed = (c.monitor m).installed :=
  congrArg Prod.fst (h.post m)

theorem station (m : MonitorId) : (c'.monitor m).station = (c.monitor m).station :=
  congrArg (fun p => p.2.1) (h.post m)

theorem prev (m : MonitorId) : (c'.monitor m).prev = (c.monitor m).prev :=
  congrArg (fun p => p.2.2.1) (h.post m)

theorem next (m : MonitorId) : (c'.monitor m).next = (c.monitor m).next :=
  congrArg (fun p => p.2.2.2) (h.post m)

end Stationed

namespace Grained

theorem of_codeSize (h : Grained c) (hsettings : c'.settings = c.settings)
    (hsize : ∀ x, (c'.block x).codeSize = (c.block x).codeSize) : Grained c' := by
  refine ⟨hsettings ▸ h.align, fun x => ?_⟩
  rw [hsettings, hsize]
  exact h.span x

theorem modifyBlock (h : Grained c) (id : BlockId) {f : Block → Block}
    (hf : c.settings.align ∣ (f (c.block id)).codeSize) : Grained (c.modifyBlock id f) := by
  refine ⟨h.align, fun x => ?_⟩
  rw [block_modifyBlock]
  split
  · rename_i hx
    exact hx.1 ▸ hf
  · exact h.span x

/-- Sizes are rounded up to multiples of the alignment. -/
theorem dvd_splitSize (h : Grained c) (written : Nat) : c.settings.align ∣ splitSize written c.settings.align := by
  obtain ⟨n, hn⟩ := h.align
  rw [hn, splitSize]
  generalize max written 1 - 1 = v
  have hpos := Nat.two_pow_pos n
  have hor : v ||| (2 ^ n - 1) = 2 ^ n * (v / 2 ^ n) + (2 ^ n - 1) := by
    rw [Nat.two_pow_add_eq_or_of_lt (by omega)]
    refine Nat.eq_of_testBit_eq fun j => ?_
    rw [Nat.testBit_or, Nat.testBit_or, Nat.testBit_two_pow_mul, Nat.testBit_two_pow_sub_one, Nat.testBit_div_two_pow]
    by_cases hj : j < n
    · simp [hj]
    · simp [hj, Nat.le_of_not_lt hj]
  rw [hor, Nat.add_assoc, Nat.sub_add_cancel hpos]
  exact Dvd.dvd.add (Nat.dvd_mul_right _ _) dvd_rfl

end Grained

/-- Linking two blocks. -/
theorem Stationed.link (c : Cache) (id : BlockId) (slot : Slot) (target : BlockId) : Stationed c (c.link id slot target) :=
  ⟨rfl, rfl, fun _ => rfl⟩

namespace Quiet

theorem refl (c : Cache) : Quiet c c :=
  ⟨⟨rfl, rfl, fun _ => rfl⟩, fun _ _ _ h => h, id⟩

theorem trans (h : Quiet c c') (h' : Quiet c' c'') : Quiet c c'' where
  roster := h'.roster.trans h.roster
  size := h'.size.trans h.size
  post m := (h'.post m).trans (h.post m)
  target x k y hxy := h.target x k y (h'.target x k y hxy)
  grained hc := h'.grained (h.grained hc)

/-- A descriptor changes, and its slots lead at most where they led before. -/
theorem modifyBlock (h : Quiet c c') (id : BlockId) {f : Block → Block}
    (hf : ∀ b k y, ((f b).links.get k).target = some y → (b.links.get k).target = some y)
    (hsize : c.Grained → c'.settings.align ∣ (f (c'.block id)).codeSize) : Quiet c (c'.modifyBlock id f) := by
  refine ⟨⟨h.roster, h.size, h.post⟩, fun x k y hxy => h.target x k y ?_, fun hc => (h.grained hc).modifyBlock id (hsize hc)⟩
  rw [linkSlot, block_modifyBlock] at hxy
  split at hxy
  · exact hf _ k y hxy
  · exact hxy

theorem modifyMonitor (c : Cache) (m : MonitorId) {f : Monitor → Monitor}
    (hf : ∀ mon, (f mon).post = mon.post) : Quiet c (c.modifyMonitor m f) :=
  ⟨⟨rfl, size_modifyMonitor c m f, fun n => map_monitor_modifyMonitor c m n hf⟩, fun _ _ _ h => h,
    fun hc => ⟨hc.align, hc.span⟩⟩

/-- A descriptor changes, but for its links and the size of its span. -/
theorem rewrite (c : Cache) (id : BlockId) {f : Block → Block} (hf : ∀ b, (f b).links = b.links)
    (hsize : ∀ b, (f b).codeSize = b.codeSize) : Quiet c (c.modifyBlock id f) := by
  refine (refl c).modifyBlock id (fun b _ _ h => hf b ▸ h) fun hc => ?_
  rw [hsize]
  exact hc.span id

end Quiet

namespace Clears

theorem refl (c : Cache) : Clears c c :=
  ⟨.refl c, fun _ => rfl⟩

theorem trans (h : Clears c c') (h' : Clears c' c'') : Clears c c'' :=
  ⟨h.toQuiet.trans h'.toQuiet, fun x => (h'.bucket x).trans (h.bucket x)⟩

theorem isCompanion (h : Clears c c') (x : BlockId) : (c'.block x).isCompanion = (c.block x).isCompanion := by
  rw [Block.isCompanion, Block.isCompanion, h.bucket]

theorem modifyBlock (c : Cache) (id : BlockId) {f : Block → Block}
    (hlinks : ∀ b, (f b).links = b.links)
    (hbucket : ∀ b, (f b).bucket = b.bucket) (hsize : ∀ b, (f b).codeSize = b.codeSize) : Clears c (c.modifyBlock id f) :=
  ⟨.rewrite c id hlinks hsize, fun x => map_block_modifyBlock c id x hbucket⟩

theorem modifyMonitor (c : Cache) (m : MonitorId) {f : Monitor → Monitor}
    (hf : ∀ mon, (f mon).post = mon.post) : Clears c (c.modifyMonitor m f) :=
  ⟨.modifyMonitor c m hf, fun _ => rfl⟩

theorem modifyStats (c : Cache) {f : CacheStats → CacheStats}
    (hf : ∀ s, (f s).installed = s.installed ∧ (f s).released = s.released) : Clears c (c.modifyStats f) := by
  refine ⟨⟨⟨?_, rfl, fun _ => rfl⟩, fun _ _ _ h => h, fun hc => ⟨hc.align, hc.span⟩⟩, fun _ => rfl⟩
  rw [roster, roster, Cache.modifyStats, (hf _).1, (hf _).2]

theorem anomaly (c : Cache) : Clears c c.anomaly :=
  modifyStats c fun _ => ⟨rfl, rfl⟩

theorem setLinkEntry (c : Cache) (id : BlockId) (k : Slot) (addr : Nat) : Clears c (c.setLinkEntry id k addr) :=
  ⟨⟨⟨rfl, rfl, fun _ => rfl⟩, fun _ _ _ h => h, fun hc => ⟨hc.align, hc.span⟩⟩, fun _ => rfl⟩

/-! ### Links -/

/-- A slot changes and leads nowhere, or where it led before. -/
theorem modifyLink (c : Cache) (id : BlockId) (k : Slot) {f : LinkSlot → LinkSlot}
    (hf : ∀ l y, (f l).target = some y → l.target = some y) : Clears c (c.modifyLink id k f) := by
  refine ⟨⟨⟨rfl, rfl, fun _ => rfl⟩, fun x k' y hxy => ?_, fun hc => hc.modifyBlock id (hc.span id)⟩,
    fun x => map_block_modifyBlock c id x fun _ => rfl⟩
  rw [linkSlot_modifyLink] at hxy
  split at hxy
  · exact hf _ y hxy
  · exact hxy

theorem resetLink (c : Cache) (id : BlockId) (k : Slot) : Clears c (c.resetLink id k) :=
  (modifyLink c id k fun _ _ h => absurd h (by simp)).trans (setLinkEntry _ id k _)

theorem resetSources (k : Slot) (n : Nat) (start : Option BlockId) (c : Cache) :
    Clears c (Cache.resetSources k n start c) := by
  induction n generalizing start c with
  | zero => exact refl c
  | succ n ih =>
      cases start with
      | none => exact refl c
      | some id => exact (resetLink c id k).trans (ih _ _)

theorem unlink (c : Cache) (target : BlockId) (k : Slot) (id : BlockId) : Clears c (c.unlink target k id) := by
  unfold Cache.unlink
  dsimp only
  split
  · exact anomaly c
  · split
    · exact modifyLink c target k fun _ _ h => h
    · split
      · exact anomaly c
      · exact modifyLink c _ k fun _ _ h => h

theorem dropSources (id : BlockId) (c : Cache) (k : Slot) : Clears c (Cache.dropSources id c k) := by
  refine .trans (.modifyLink c id k ?_) (.resetSources k _ _ _)
  exact fun _ _ h => h

theorem dropTarget (id : BlockId) (c : Cache) (k : Slot) : Clears c (Cache.dropTarget id c k) := by
  unfold Cache.dropTarget
  split
  · exact unlink c _ k id
  · exact refl c

theorem severSlot (id : BlockId) (c : Cache) (k : Slot) : Clears c (Cache.severSlot id c k) :=
  ((dropSources id c k).trans (dropTarget id _ k)).trans (resetLink _ id k)

theorem sever (c : Cache) (id : BlockId) : Clears c (c.sever id) :=
  (severSlot id c .first).trans (severSlot id _ .second)

/-! ### Blocks -/

theorem pushFree (c : Cache) (id : BlockId) : Clears c (c.pushFree id) := by
  have hpushed : Clears c (c.modifyBlock id fun b => { b with freeNext := c.freeHead }) :=
    modifyBlock c id (fun _ => rfl) (fun _ => rfl) fun _ => rfl
  exact ⟨⟨⟨hpushed.roster, hpushed.size, hpushed.post⟩, hpushed.target, fun hc => ⟨hc.align, (hpushed.grained hc).span⟩⟩,
    hpushed.bucket⟩

theorem disconnect (c : Cache) (id : BlockId) : Clears c (c.disconnect id) := by
  unfold Cache.disconnect
  dsimp only
  have hcount := modifyStats c (f := fun s => { s with cleared := s.cleared + 1 }) fun _ => ⟨rfl, rfl⟩
  split
  · exact hcount.trans (pushFree _ id)
  · exact hcount.trans (sever _ id)

theorem delist (c : Cache) (m : MonitorId) (id : BlockId) : Clears c (c.delist m id) := by
  unfold Cache.delist
  dsimp only
  split
  · refine .trans (.modifyBlock c id ?_ ?_ ?_) (.modifyMonitor _ m ?_) <;> exact fun _ => rfl
  · refine .trans (.trans (.modifyBlock c id ?_ ?_ ?_) (.modifyMonitor _ m ?_)) (.anomaly _) <;> exact fun _ => rfl

theorem retire (c : Cache) (id : BlockId) : Clears c (c.retire id) := by
  unfold Cache.retire
  dsimp only
  split
  · exact (delist c _ id).trans (modifyBlock _ id (fun _ => rfl) (fun _ => rfl) fun _ => rfl)
  · exact modifyBlock c id (fun _ => rfl) (fun _ => rfl) fun _ => rfl

theorem clearBlock (c : Cache) (id : BlockId) : Clears c (c.clearBlock id) := by
  unfold Cache.clearBlock
  dsimp only
  split
  · exact (disconnect c id).trans (retire _ id)
  · refine .trans (.trans (.trans (.trans (.trans (.disconnect c id) (.modifyBlock _ id ?_ ?_ ?_)) (.modifyBlock _ _ ?_ ?_ ?_))
      (.disconnect _ _)) (.retire _ _)) (.retire _ id) <;> exact fun _ => rfl

theorem clearIfLive (c : Cache) (id : BlockId) : Clears c (c.clearIfLive id) := by
  unfold Cache.clearIfLive
  split
  · exact clearBlock c id
  · exact refl c

theorem clearDisowned (c : Cache) (ids : List BlockId) : Clears c (c.clearDisowned ids) := by
  induction ids generalizing c with
  | nil => exact refl c
  | cons id ids ih =>
      have hgone : Clears c (c.disown id) := modifyBlock c id (fun _ => rfl) (fun _ => rfl) fun _ => rfl
      exact (hgone.trans (clearBlock _ id)).trans (ih _)

theorem clearBucket (m : MonitorId) (c : Cache) (i : Nat) : Clears c (Cache.clearBucket m c i) := by
  rw [clearBucket_eq]
  refine .trans (.modifyMonitor c m ?_) (.clearDisowned _ _)
  exact fun _ => rfl

theorem clearBuckets (m : MonitorId) (c : Cache) (buckets : List Nat) : Clears c (buckets.foldl (Cache.clearBucket m) c) := by
  induction buckets generalizing c with
  | nil => exact refl c
  | cons i buckets ih => exact (clearBucket m c i).trans (ih _)

theorem invalidateBlocks (first last : Nat) (running : Option BlockId) (ids : List BlockId) (acc : Bool × Cache) :
    Clears acc.2 (Cache.invalidateBlocks first last running ids acc).2 := by
  induction ids generalizing acc with
  | nil => exact refl acc.2
  | cons id ids ih =>
      obtain ⟨hit, c⟩ := acc
      unfold Cache.invalidateBlocks
      rw [List.foldl_cons]
      dsimp only
      split
      · exact (clearBlock c id).trans (ih (_, c.clearBlock id))
      · exact ih (hit, c)

theorem invalidateBuckets (m : MonitorId) (first last : Nat) (running : Option BlockId) (n : Nat) (acc : Bool × Cache) :
    Clears acc.2 (Cache.invalidateBuckets m first last running n acc).2 := by
  induction n generalizing acc with
  | zero => exact refl acc.2
  | succ n ih =>
      obtain ⟨hit, c⟩ := acc
      unfold Cache.invalidateBuckets
      dsimp only
      split
      · exact (invalidateBlocks first last running _ (hit, c)).trans (ih _)
      · exact refl c

theorem invalidate (c : Cache) (m : MonitorId) (first last : Nat) (running : Option BlockId) :
    Clears c (c.invalidate m first last running).2 :=
  invalidateBuckets m first last running _ (false, c)

/-! ### Spans -/

theorem absorb (fuel size : Nat) (next : Option BlockId) (c : Cache) : Clears c (Cache.absorb fuel size next c).2.2 := by
  induction fuel generalizing size next c with
  | zero => exact refl c
  | succ fuel ih =>
      unfold Cache.absorb
      split
      · exact refl c
      · cases next with
        | none => exact refl c
        | some n => exact ((clearIfLive c n).trans (pushFree _ n)).trans (ih _ _ _)

theorem dvd_absorb (fuel size : Nat) (next : Option BlockId) {c : Cache} (hc : c.Grained) (hsize : c.settings.align ∣ size) :
    c.settings.align ∣ (Cache.absorb fuel size next c).1 := by
  induction fuel generalizing size next c with
  | zero => exact hsize
  | succ fuel ih =>
      unfold Cache.absorb
      split
      · exact hsize
      · cases next with
        | none => exact hsize
        | some n =>
            have hstep := (clearIfLive c n).trans (pushFree _ n)
            have hrest := ih (size + (c.block n).codeSize) (c.block n).arenaNext (hstep.grained hc)
            rw [hstep.settings] at hrest
            exact hrest (hsize.add (hc.span n))

theorem openBlock (c : Cache) : Clears c c.openBlock.2 := by
  unfold Cache.openBlock
  dsimp only
  have hcleared := clearIfLive c c.active
  generalize c.clearIfLive c.active = c₁ at hcleared ⊢
  have hgrown := hcleared.trans (absorb (c₁.blocks.size + c₁.settings.maxBlockSize) (c₁.block c.active).codeSize
    (c₁.block c.active).arenaNext c₁)
  have hdvd := fun hc => dvd_absorb (c₁.blocks.size + c₁.settings.maxBlockSize) (c₁.block c.active).codeSize
    (c₁.block c.active).arenaNext hc (hc.span c.active)
  generalize Cache.absorb _ _ _ c₁ = grown at hgrown hdvd ⊢
  obtain ⟨size, next, d⟩ := grown
  have htaken := hgrown.toQuiet.modifyBlock c.active
    (f := fun b => { b with codeSize := size, arenaNext := next, mask := none, companion := none }) (fun _ _ _ h => h) fun hc => by
      have hsame : d.settings = c₁.settings := hgrown.settings.trans hcleared.settings.symm
      change d.settings.align ∣ size
      rw [hsame]
      exact hdvd (hcleared.grained hc)
  refine ⟨⟨⟨htaken.roster, htaken.size, htaken.post⟩, htaken.target, fun hc => ?_⟩, fun x => ?_⟩
  · exact ⟨(htaken.grained hc).align, (htaken.grained hc).span⟩
  · refine Eq.trans ?_ (hgrown.bucket x)
    exact map_block_modifyBlock d c.active x
      (f := fun b => { b with codeSize := size, arenaNext := next, mask := none, companion := none }) fun _ => rfl

end Clears

/-! ### Compiling a block -/

namespace Quiet

theorem enlist (c : Cache) (m : MonitorId) (id : BlockId) (bucket : Nat) : Quiet c (c.enlist m id bucket) := by
  unfold Cache.enlist
  refine .trans (.modifyMonitor c m ?_) (.rewrite _ id ?_ ?_) <;> exact fun _ => rfl

theorem addCompanion (c : Cache) (m : MonitorId) (id : BlockId) : Quiet c (c.addCompanion m id) := by
  refine .trans (.rewrite c id ?_ ?_) (.enlist _ m id 0) <;> exact fun _ => rfl

theorem pair (c : Cache) (id companion : BlockId) : Quiet c (c.pair id companion) := by
  refine .trans (.rewrite c companion ?_ ?_) (.rewrite _ id ?_ ?_) <;> exact fun _ => rfl

theorem coverByte (c : Cache) (m : MonitorId) (offset : Nat) : Quiet c (c.coverByte m offset) :=
  modifyMonitor c m fun _ => rfl

theorem extendTo (c : Cache) (id : BlockId) (offset : Nat) : Quiet c (c.extendTo id offset) :=
  rewrite c id (fun _ => rfl) fun _ => rfl

theorem takeByte (c : Cache) (m : MonitorId) (id : BlockId) (hot : Bool) (j : Nat) : Quiet c (c.takeByte m id hot j) := by
  unfold Cache.takeByte
  split
  · refine .trans (.rewrite c id ?_ ?_) (.extendTo _ id j) <;> exact fun _ => rfl
  · exact (coverByte c m j).trans (extendTo _ id j)

theorem allocate {id : BlockId} (h : c.allocate = .ok (id, c')) : Quiet c c' := by
  unfold Cache.allocate at h
  split at h
  · cases h
  · rename_i first _
    cases h
    have hblank : Quiet c (c.modifyBlock id fun _ => {}) :=
      (refl c).modifyBlock id (fun _ k _ h => absurd h (by cases k <;> simp [PerSlot.get])) fun _ => dvd_zero _
    exact ⟨⟨hblank.roster, hblank.size, hblank.post⟩, hblank.target, fun hc => ⟨hc.align, (hblank.grained hc).span⟩⟩

theorem trim {id : BlockId} {written : Nat} (h : c.trim id written = .ok c') : Quiet c c' := by
  unfold Cache.trim at h
  dsimp only at h
  split at h
  · split at h
    · cases h
    · rename_i rest d halloc
      cases h
      have hfront : c.Grained → d.settings.align ∣ splitSize written d.settings.align := fun hc =>
        ((allocate halloc).grained hc).dvd_splitSize written
      have hback : c.Grained → d.settings.align ∣ (c.block id).codeSize - splitSize written d.settings.align := by
        intro hc
        refine Nat.dvd_sub ?_ (hfront hc)
        rw [(allocate halloc).settings]
        exact hc.span id
      refine .modifyBlock (.modifyBlock (.allocate halloc) rest ?_ hback) id ?_ hfront <;> exact fun _ _ _ h => h
  · cases h
    exact refl c

theorem advance (c : Cache) (id : BlockId) : Quiet c (c.advance id) := by
  unfold Cache.advance
  dsimp only
  split
  · exact ⟨⟨rfl, rfl, fun _ => rfl⟩, fun _ _ _ h => h, fun hc => ⟨hc.align, hc.span⟩⟩
  · exact ⟨⟨rfl, rfl, fun _ => rfl⟩, fun _ _ _ h => h, fun hc => ⟨hc.align, hc.span⟩⟩

theorem setBuilding (c : Cache) (building : Option BlockId) : Quiet c { c with building } :=
  ⟨⟨rfl, rfl, fun _ => rfl⟩, fun _ _ _ h => h, fun hc => ⟨hc.align, hc.span⟩⟩

theorem finish (c : Cache) (id : BlockId) (written : Nat) : Quiet c (c.finish id written).2 := by
  have hclosed := setBuilding c none
  unfold Cache.finish
  dsimp only
  split
  · exact hclosed
  · split
    · exact hclosed
    · rename_i htrim
      exact (hclosed.trans (trim htrim)).trans (advance _ id)

theorem closeBlock {written : Nat} {r : Except CoreError BlockId} (h : c.closeBlock written = .ok (r, c')) : Quiet c c' := by
  unfold Cache.closeBlock at h
  split at h
  · cases h
  · rename_i id _
    cases h
    exact finish c id written

theorem abandon (c : Cache) : Quiet c c.abandon := by
  unfold Cache.abandon
  split
  · exact refl c
  · rename_i id _
    exact (setBuilding c none).trans (Clears.clearIfLive _ id).toQuiet

theorem openSite (cpu : Cpu) (m : MonitorId) (c : Cache) : Quiet c (Compile.openSite cpu m c).2 := by
  have hopen := (Clears.openBlock c).toQuiet
  unfold Compile.openSite
  generalize c.openBlock = opened at hopen
  obtain ⟨id, d⟩ := opened
  dsimp only at hopen ⊢
  refine .trans (.trans hopen (.rewrite d id ?_ ?_)) (.enlist _ m id _) <;> exact fun _ => rfl

theorem emit {id : BlockId} {labels : Nat} {ops : List MicroOp} {code code' : HostCode} {r : Except CoreError BlockId}
    (h : Compile.emit id labels ops c code = .ok (r, c', code')) : Quiet c c' := by
  unfold Compile.emit at h
  split at h
  · cases h
  · cases h
    exact abandon c
  · split at h
    · cases h
    · rename_i hclose
      cases h
      exact (closeBlock hclose).trans (Clears.clearBlock _ id).toQuiet
    · rename_i hclose
      cases h
      exact closeBlock hclose

end Quiet

/-! ### Pages and stores -/

/-- No link is made, companions stay companions, and spans are cut at the alignment. -/
structure Fades (c c' : Cache) : Prop where
  bucket : ∀ x, (c'.block x).bucket = (c.block x).bucket
  target : ∀ x k y, (c'.linkSlot x k).target = some y → (c.linkSlot x k).target = some y
  grained : c.Grained → c'.Grained

theorem Clears.fades (h : Clears c c') : Fades c c' :=
  ⟨h.bucket, h.target, h.grained⟩

theorem PagesApart.fades (h : PagesApart c c') : Fades c c' :=
  ⟨fun x => by rw [h.block], fun x k y hxy => by rwa [linkSlot, h.block] at hxy,
    fun hc => hc.of_codeSize h.settings fun x => by rw [h.block]⟩

/-- Clearing a page is done when the blocks are gone, apart from the release. -/
theorem exists_clearRelease_eq (c : Cache) (m : MonitorId) : ∃ d, Clears c d ∧ c.clearRelease m = d.release m := by
  refine ⟨_, .trans (.clearBuckets m c _) (.modifyMonitor _ m ?_), rfl⟩
  exact fun _ => rfl

namespace Fades

theorem refl (c : Cache) : Fades c c :=
  (Clears.refl c).fades

theorem trans (h : Fades c c') (h' : Fades c' c'') : Fades c c'' :=
  ⟨fun x => (h'.bucket x).trans (h.bucket x), fun x k y hxy => h.target x k y (h'.target x k y hxy),
    fun hc => h'.grained (h.grained hc)⟩

theorem isCompanion (h : Fades c c') (x : BlockId) : (c'.block x).isCompanion = (c.block x).isCompanion := by
  rw [Block.isCompanion, Block.isCompanion, h.bucket]

theorem clearRelease (c : Cache) (m : MonitorId) : Fades c (c.clearRelease m) := by
  obtain ⟨d, hclears, heq⟩ := exists_clearRelease_eq c m
  rw [heq]
  exact hclears.fades.trans (PagesApart.release d m).fades

theorem takeMonitor {keep : Option MonitorId} {m : MonitorId} {recycled : Option UInt32}
    (h : c.takeMonitor keep = .ok (m, recycled, c')) : Fades c c' := by
  unfold Cache.takeMonitor at h
  split at h
  · cases h
    exact ⟨fun _ => rfl, fun _ _ _ hxy => hxy, fun hc => ⟨hc.align, hc.span⟩⟩
  · split at h
    · cases h
    · rename_i v _
      have hcleared := clearRelease c v
      dsimp only at h
      generalize c.clearRelease v = d at h hcleared
      split at h
      · cases h
        exact ⟨hcleared.bucket, hcleared.target, fun hc => ⟨(hcleared.grained hc).align, (hcleared.grained hc).span⟩⟩
      · cases h

theorem codePage {mem mem' : Memory} {linear : UInt32} {code32 : Bool} {keep : Option MonitorId}
    {r : Except PageFault (Option MonitorId)} (h : c.codePage mem linear code32 keep = .ok (r, mem', c')) : Fades c c' := by
  have hinstall : ∀ {d : Cache} {page : UInt32} {mem : Memory}, codePage.install code32 keep page mem d = .ok (r, mem', c') →
      Fades d c' := by
    intro d page mem h
    unfold Cache.codePage.install at h
    dsimp only at h
    split at h
    · cases h
      exact refl _
    · split at h
      · cases h
      · rename_i htake
        cases h
        exact (takeMonitor htake).trans (PagesApart.watch _ _ _ _ _).fades
  unfold Cache.codePage at h
  split at h
  · cases h
    exact refl c
  · dsimp only at h
    split at h
    · rename_i m _
      split at h
      · cases h
        exact refl c
      · exact (clearRelease c m).trans (hinstall h)
    · exact hinstall h

end Fades

end Cache

end Recompiler
