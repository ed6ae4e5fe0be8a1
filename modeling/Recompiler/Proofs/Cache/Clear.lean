import Recompiler.Proofs.Cache.LinkTable

/-! What clearing a block does. Its descriptor and that of its other part are wiped, their monitors give up what the
two account for, the part that is a companion goes to the free descriptors, and the other one loses its links.
Nothing else changes. -/

namespace Recompiler

/-- A descriptor after its block was cleared; companions go to the front of the free ones. -/
def Block.wiped (b : Block) (head : Option BlockId) : Block :=
  { b with owner := none, mask := none, companion := none, freeNext := if b.isCompanion then head else b.freeNext }

/-- A monitor after a block was taken out of it. -/
def Monitor.without (mon : Monitor) (id : BlockId) (b : Block) (delay : Nat) : Monitor :=
  { mon with
    activeBlocks := mon.activeBlocks - 1
    patience := delay
    buckets := mon.buckets.modify b.bucket fun ids => ids.erase id
    cover := Cache.uncover b mon.cover }

namespace Cache

variable (c : Cache) (id x : BlockId) (n : MonitorId)

theorem uncover_congr {b b' : Block} (hstart : b.start = b'.start) (hlast : b.last = b'.last) (hmask : b.mask = b'.mask)
    (cover : Array UInt16) : uncover b cover = uncover b' cover := by
  unfold uncover Block.masked
  rw [hstart, hlast, hmask]

theorem without_congr {b b' : Block} (hstart : b.start = b'.start) (hlast : b.last = b'.last) (hmask : b.mask = b'.mask)
    (hbucket : b.bucket = b'.bucket) (mon : Monitor) (delay : Nat) :
    mon.without id b delay = mon.without id b' delay := by
  unfold Monitor.without
  rw [uncover_congr hstart hlast hmask, hbucket]

theorem bucket_without (mon : Monitor) (id : BlockId) (b : Block) (delay i : Nat) :
    (mon.without id b delay).bucket i = if i = b.bucket then (mon.bucket i).erase id else mon.bucket i := by
  unfold Monitor.without Monitor.bucket
  simp only [Array.getD_eq_getD_getElem?, Array.getElem?_modify]
  by_cases hi : b.bucket = i
  · subst hi
    cases mon.buckets[b.bucket]? <;> simp
  · rw [if_neg hi, if_neg (Ne.symm hi)]

/-- What a monitor becomes when a block is cleared that it may or may not own. -/
def struck (mon : Monitor) : Monitor :=
  if (c.block id).owner = some n then mon.without id (c.block id) c.settings.releaseDelay else mon

variable {c id n} in
theorem struck_congr {c' : Cache} (hsettings : c'.settings = c.settings)
    (hblock : { (c'.block id).unlinked with companion := none, freeNext := none } =
      { (c.block id).unlinked with companion := none, freeNext := none }) (mon : Monitor) :
    c'.struck id n mon = c.struck id n mon := by
  have howner : (c'.block id).owner = (c.block id).owner := by simpa using congrArg Block.owner hblock
  have hstart : (c'.block id).start = (c.block id).start := by simpa using congrArg Block.start hblock
  have hlast : (c'.block id).last = (c.block id).last := by simpa using congrArg Block.last hblock
  have hmask : (c'.block id).mask = (c.block id).mask := by simpa using congrArg Block.mask hblock
  have hbucket : (c'.block id).bucket = (c.block id).bucket := by simpa using congrArg Block.bucket hblock
  rw [struck, struck, howner, hsettings, without_congr id hstart hlast hmask hbucket]

/-- Two caches that differ at most in descriptors, links, monitors, the free list and the counts. -/
structure ShellSame (c c' : Cache) : Prop where
  shell : c'.shell = c.shell
  size : c'.blocks.size = c.blocks.size
  monitorsSize : c'.monitors.size = c.monitors.size
  tableSize : c'.linkTable.size = c.linkTable.size

namespace ShellSame

variable {c c' c'' : Cache}

theorem refl (c : Cache) : ShellSame c c :=
  ⟨rfl, rfl, rfl, rfl⟩

theorem trans (h : ShellSame c c') (h' : ShellSame c' c'') : ShellSame c c'' :=
  ⟨h'.shell.trans h.shell, h'.size.trans h.size, h'.monitorsSize.trans h.monitorsSize,
    h'.tableSize.trans h.tableSize⟩

theorem of_linksApart (h : LinksApart c c') : ShellSame c c' :=
  ⟨h.shell, h.size, by rw [h.monitors], h.tableSize⟩

theorem modifyBlock (c : Cache) (id : BlockId) (f : Block → Block) : ShellSame c (c.modifyBlock id f) :=
  ⟨rfl, by simp, rfl, rfl⟩

theorem modifyMonitor (c : Cache) (m : MonitorId) (f : Monitor → Monitor) : ShellSame c (c.modifyMonitor m f) :=
  ⟨rfl, rfl, by simp, rfl⟩

theorem modifyStats (c : Cache) (f : CacheStats → CacheStats) : ShellSame c (c.modifyStats f) :=
  ⟨rfl, rfl, rfl, rfl⟩

theorem pushFree (c : Cache) (id : BlockId) : ShellSame c (c.pushFree id) :=
  ⟨rfl, by simp [Cache.pushFree], rfl, rfl⟩

theorem disconnect (c : Cache) (id : BlockId) : ShellSame c (c.disconnect id) := by
  unfold Cache.disconnect
  dsimp only
  split
  · exact (modifyStats c _).trans (pushFree _ id)
  · exact (modifyStats c _).trans (of_linksApart (LinksApart.sever _ id))

theorem delist (c : Cache) (m : MonitorId) (id : BlockId) : ShellSame c (c.delist m id) := by
  unfold Cache.delist
  dsimp only
  split
  · exact (modifyBlock c id _).trans (modifyMonitor _ m _)
  · exact ((modifyBlock c id _).trans (modifyMonitor _ m _)).trans (modifyStats _ _)

theorem retire (c : Cache) (id : BlockId) : ShellSame c (c.retire id) := by
  unfold Cache.retire
  dsimp only
  split
  · exact (delist c _ id).trans (modifyBlock _ id _)
  · exact modifyBlock c id _

theorem clearBlock (c : Cache) (id : BlockId) : ShellSame c (c.clearBlock id) := by
  unfold Cache.clearBlock
  dsimp only
  split
  · exact (disconnect c id).trans (retire _ id)
  · exact (((((disconnect c id).trans (modifyBlock _ id _)).trans (modifyBlock _ _ _)).trans (disconnect _ _)).trans
      (retire _ _)).trans (retire _ id)

theorem settings (h : ShellSame c c') : c'.settings = c.settings := by
  have hshell := congrArg Cache.settings h.shell
  exact hshell

theorem active (h : ShellSame c c') : c'.active = c.active := by
  have hshell := congrArg Cache.active h.shell
  exact hshell

theorem byPage (h : ShellSame c c') : c'.byPage = c.byPage := by
  have hshell := congrArg Cache.byPage h.shell
  exact hshell

theorem freeMonitors (h : ShellSame c c') : c'.freeMonitors = c.freeMonitors := by
  have hshell := congrArg Cache.freeMonitors h.shell
  exact hshell

theorem newest (h : ShellSame c c') : c'.newest = c.newest := by
  have hshell := congrArg Cache.newest h.shell
  exact hshell

theorem oldest (h : ShellSame c c') : c'.oldest = c.oldest := by
  have hshell := congrArg Cache.oldest h.shell
  exact hshell

theorem blocksStart (h : ShellSame c c') : c'.blocksStart = c.blocksStart := by
  have hshell := congrArg Cache.blocksStart h.shell
  exact hshell

theorem building (h : ShellSame c c') : c'.building = c.building := by
  have hshell := congrArg Cache.building h.shell
  exact hshell

end ShellSame

/-! ### The steps of clearing -/

theorem block_delist (m : MonitorId) :
    (c.delist m id).block x = if x = id ∧ x < c.blocks.size then { c.block x with owner := none } else c.block x := by
  unfold delist
  dsimp only
  split
  · rw [block_modifyMonitor, block_modifyBlock]
  · rw [anomaly, block_modifyStats, block_modifyMonitor, block_modifyBlock]

theorem block_retire (hid : id < c.blocks.size) :
    (c.retire id).block x = if x = id then { c.block x with owner := none, mask := none } else c.block x := by
  by_cases hx : x = id
  · subst hx
    unfold retire
    dsimp only
    split
    · rw [block_modifyBlock_self (by rwa [(ShellSame.delist c _ x).size]), block_delist, if_pos ⟨rfl, hid⟩, if_pos rfl]
    · rename_i hnone
      rw [block_modifyBlock_self hid, if_pos rfl, hnone]
  · unfold retire
    dsimp only
    rw [block_modifyBlock_ne _ hx, if_neg hx]
    split
    · rw [block_delist, if_neg fun h => hx h.1]
    · rfl

theorem freeHead_retire : (c.retire id).freeHead = c.freeHead := by
  unfold retire delist
  dsimp only
  split
  · split <;> rfl
  · rfl

theorem monitor_delist (m : MonitorId) (hid : id < c.blocks.size) :
    (c.delist m id).monitor n =
      if n = m ∧ n < c.monitors.size then (c.monitor n).without id (c.block id) c.settings.releaseDelay
      else c.monitor n := by
  have hblock : (c.modifyBlock id fun b => { b with owner := none }).block id = { c.block id with owner := none } :=
    block_modifyBlock_self hid _
  unfold delist
  dsimp only
  split
  · rw [monitor_modifyMonitor, hblock]
    rfl
  · rw [anomaly, monitor_modifyStats, monitor_modifyMonitor, hblock]
    rfl

/-- The owner of a block, if it has one, is a monitor of the pool. -/
def OwnerInPool : Prop :=
  ∀ n, (c.block id).owner = some n → n < c.monitors.size

variable {c id} in
theorem monitor_retire (hid : id < c.blocks.size) (hown : c.OwnerInPool id) :
    (c.retire id).monitor n = c.struck id n (c.monitor n) := by
  unfold retire struck
  dsimp only
  rw [monitor_modifyBlock]
  split
  · rename_i m hm
    rw [monitor_delist c id n m hid, hm]
    by_cases hn : n = m
    · subst hn
      rw [if_pos ⟨rfl, hown n hm⟩, if_pos rfl]
    · rw [if_neg fun h => hn h.1, if_neg fun h => hn (Option.some.inj h).symm]
  · rename_i hnone
    rw [hnone, if_neg (by simp)]

theorem unlinked_disconnect (hid : id < c.blocks.size) :
    ((c.disconnect id).block x).unlinked =
      if x = id ∧ (c.block id).isCompanion then { (c.block x).unlinked with freeNext := c.freeHead }
      else (c.block x).unlinked := by
  unfold disconnect
  dsimp only
  split
  · rename_i hcomp
    rw [block_modifyStats] at hcomp
    change ((c.modifyBlock id fun b => { b with freeNext := c.freeHead }).block x).unlinked = _
    by_cases hx : x = id
    · subst hx
      rw [block_modifyBlock_self hid, if_pos ⟨rfl, hcomp⟩]
      rfl
    · rw [block_modifyBlock_ne _ hx, if_neg fun h => hx h.1]
  · rename_i hcomp
    rw [(LinksApart.sever _ id).unlinked, block_modifyStats, if_neg fun h => hcomp h.2]

theorem freeHead_disconnect :
    (c.disconnect id).freeHead = if (c.block id).isCompanion then some id else c.freeHead := by
  unfold disconnect
  dsimp only
  rw [block_modifyStats]
  split
  · rfl
  · rw [(LinksApart.sever _ id).freeHead]
    rfl

theorem monitor_disconnect : (c.disconnect id).monitor n = c.monitor n := by
  unfold disconnect
  dsimp only
  split
  · rfl
  · rw [(LinksApart.sever _ id).monitor]
    rfl

/-! ### Clearing as a whole -/

/-- What a block must be like for clearing it to be accounted for: it and its other part have descriptors and owners
of their own, and one of the two is a companion. -/
structure Clearable : Prop where
  lt : id < c.blocks.size
  owner : c.OwnerInPool id
  partner_lt : ∀ o, (c.block id).companion = some o → o < c.blocks.size
  partner_ne : ∀ o, (c.block id).companion = some o → o ≠ id
  partner_owner : ∀ o, (c.block id).companion = some o → c.OwnerInPool o
  partner_kind : ∀ o, (c.block id).companion = some o → (c.block o).isCompanion = !(c.block id).isCompanion

/-- The two parts of a block, or the one it has. -/
def Part : Prop :=
  x = id ∨ (c.block id).companion = some x

instance : Decidable (c.Part id x) :=
  inferInstanceAs (Decidable (_ ∨ _))

theorem part_self : c.Part id id :=
  Or.inl rfl

/-- Makes two blocks parts of one no longer. -/
def unpair (o : BlockId) : Cache :=
  (c.modifyBlock id fun b => { b with companion := none }).modifyBlock o fun b => { b with companion := none }

theorem block_unpair {o : BlockId} (hid : id < c.blocks.size) (ho : o < c.blocks.size) :
    (c.unpair id o).block x = if x = id ∨ x = o then { c.block x with companion := none } else c.block x := by
  unfold unpair
  by_cases hxo : x = o
  · subst hxo
    rw [block_modifyBlock_self (by simpa using ho), if_pos (Or.inr rfl), block_modifyBlock]
    split <;> rfl
  · rw [block_modifyBlock_ne _ hxo]
    by_cases hx : x = id
    · subst hx
      rw [block_modifyBlock_self hid, if_pos (Or.inl rfl)]
    · rw [block_modifyBlock_ne _ hx, if_neg (by simp [hx, hxo])]

@[simp] theorem monitor_unpair (o : BlockId) : (c.unpair id o).monitor n = c.monitor n := rfl

@[simp] theorem stats_unpair (o : BlockId) : (c.unpair id o).stats = c.stats := rfl

@[simp] theorem freeHead_unpair (o : BlockId) : (c.unpair id o).freeHead = c.freeHead := rfl

@[simp] theorem bucket_unpair (o : BlockId) : ((c.unpair id o).block x).bucket = (c.block x).bucket := by
  have hfield : ∀ (c : Cache) (y : BlockId),
      ((c.modifyBlock y fun b => { b with companion := none }).block x).bucket = (c.block x).bucket :=
    fun c y => map_block_modifyBlock (g := Block.bucket) c y x fun _ => rfl
  rw [unpair, hfield, hfield]

/-- The two parts of a block after both were disconnected and before their monitors give them up. -/
def detachPair (o : BlockId) : Cache :=
  ((c.disconnect id).unpair id o).disconnect o

theorem clearBlock_eq : c.clearBlock id =
    match (c.block id).companion with
    | none => (c.disconnect id).retire id
    | some o => ((c.detachPair id o).retire o).retire id := by
  have hcomp : ((c.disconnect id).block id).companion = (c.block id).companion := by
    unfold disconnect
    dsimp only
    split
    · unfold pushFree
      exact map_block_modifyBlock (c.modifyStats _) id id (g := Block.companion) fun _ => rfl
    · simpa using congrArg Block.companion ((LinksApart.sever (c.modifyStats _) id).unlinked id)
  unfold clearBlock
  dsimp only
  rw [hcomp]
  cases (c.block id).companion <;> rfl

namespace Clearable

variable {c id} {o : BlockId}

theorem shellSame_unpair (c : Cache) (id o : BlockId) : ShellSame c (c.unpair id o) :=
  (ShellSame.modifyBlock c id _).trans (.modifyBlock _ o _)

theorem shellSame_detachPair (c : Cache) (id o : BlockId) : ShellSame c (c.detachPair id o) :=
  ((ShellSame.disconnect c id).trans (shellSame_unpair _ id o)).trans (.disconnect _ o)

theorem monitor_detachPair (c : Cache) (id o : BlockId) (n : MonitorId) :
    (c.detachPair id o).monitor n = c.monitor n := by
  rw [detachPair, monitor_disconnect, monitor_unpair, monitor_disconnect]

theorem unlinked_unpair (h : Clearable c id) (ho : (c.block id).companion = some o) (x : BlockId) :
    (((c.disconnect id).unpair id o).block x).unlinked =
      if x = id ∨ x = o then { ((c.disconnect id).block x).unlinked with companion := none }
      else ((c.disconnect id).block x).unlinked := by
  have hsize := (ShellSame.disconnect c id).size
  rw [block_unpair _ id x (by rw [hsize]; exact h.lt) (by rw [hsize]; exact h.partner_lt o ho)]
  split <;> rfl

/-- Disconnecting the first part does not change of what kind the second is. -/
theorem isCompanion_unpair (h : Clearable c id) (ho : (c.block id).companion = some o) :
    (((c.disconnect id).unpair id o).block o).isCompanion = (c.block o).isCompanion := by
  have hdis := congrArg Block.bucket (unlinked_disconnect c id o h.lt)
  rw [if_neg fun h' => h.partner_ne o ho h'.1] at hdis
  simp only [Block.unlinked_bucket] at hdis
  rw [Block.isCompanion, bucket_unpair, hdis, Block.isCompanion]

theorem unlinked_detachPair (h : Clearable c id) (ho : (c.block id).companion = some o) (x : BlockId) :
    ((c.detachPair id o).block x).unlinked =
      if x = id ∨ x = o then
        { (c.block x).unlinked with
          companion := none, freeNext := if (c.block x).isCompanion then c.freeHead else (c.block x).freeNext }
      else (c.block x).unlinked := by
  have hne := h.partner_ne o ho
  have hkind := h.partner_kind o ho
  have hsize := (ShellSame.disconnect c id).trans (shellSame_unpair _ id o)
  rw [detachPair, unlinked_disconnect _ o x (by rw [hsize.size]; exact h.partner_lt o ho), h.unlinked_unpair ho,
    h.isCompanion_unpair ho, freeHead_unpair, freeHead_disconnect, unlinked_disconnect c id x h.lt]
  -- Of the two parts exactly one is a companion, so only one of the two pushes takes place.
  by_cases hx : x = id
  · subst hx
    cases (c.block x).isCompanion <;> simp [Ne.symm hne, Block.unlinked]
  · by_cases hxo : x = o
    · subst hxo
      cases hc : (c.block x).isCompanion
      · simp [hx, Block.unlinked]
      · have hid : (c.block id).isCompanion = false := by simpa [hc] using hkind
        simp [hx, Block.unlinked, hid]
    · simp [hx, hxo]

/-- The descriptors after a block was cleared. -/
theorem unlinked_clearBlock (h : Clearable c id) (x : BlockId) :
    ((c.clearBlock id).block x).unlinked =
      if c.Part id x then (c.block x).unlinked.wiped c.freeHead else (c.block x).unlinked := by
  rw [clearBlock_eq]
  cases ho : (c.block id).companion with
  | none =>
      dsimp only
      rw [block_retire _ id x (by rw [(ShellSame.disconnect c id).size]; exact h.lt)]
      have hdis := unlinked_disconnect c id x h.lt
      by_cases hx : x = id
      · subst hx
        rw [if_pos rfl, if_pos (c.part_self x)]
        change { ((c.disconnect x).block x).unlinked with owner := none, mask := none } = _
        rw [hdis]
        cases hc : (c.block x).isCompanion
        · simp [Block.wiped, hc, ho]
        · simp [Block.wiped, hc, ho]
      · rw [if_neg hx, hdis, if_neg fun h' => hx h'.1, if_neg (by simp [Part, hx, ho])]
  | some o =>
      dsimp only
      have hne := h.partner_ne o ho
      have hsize := (shellSame_detachPair c id o).size
      rw [block_retire _ id x (by rw [(ShellSame.retire _ o).size, hsize]; exact h.lt),
        block_retire _ o x (by rw [hsize]; exact h.partner_lt o ho)]
      have hdet := h.unlinked_detachPair ho x
      by_cases hx : x = id
      · subst hx
        rw [if_pos rfl, if_neg (Ne.symm hne), if_pos (c.part_self x)]
        change { ((c.detachPair x o).block x).unlinked with owner := none, mask := none } = _
        rw [hdet, if_pos (Or.inl rfl)]
        rfl
      · rw [if_neg hx]
        by_cases hxo : x = o
        · subst hxo
          rw [if_pos rfl, if_pos (show c.Part id x from Or.inr ho)]
          change { ((c.detachPair id x).block x).unlinked with owner := none, mask := none } = _
          rw [hdet, if_pos (Or.inr rfl)]
          rfl
        · rw [if_neg hxo, hdet, if_neg (by simp [hx, hxo]), if_neg (by simp [Part, hx, ho, Ne.symm hxo])]

theorem freeHead_clearBlock (h : Clearable c id) :
    (c.clearBlock id).freeHead =
      if (c.block id).isCompanion then some id else (c.block id).companion.or c.freeHead := by
  rw [clearBlock_eq]
  cases ho : (c.block id).companion with
  | none =>
      dsimp only
      rw [freeHead_retire, freeHead_disconnect]
      rfl
  | some o =>
      dsimp only
      rw [freeHead_retire, freeHead_retire]
      have hkind := h.partner_kind o ho
      rw [detachPair, freeHead_disconnect, h.isCompanion_unpair ho, hkind, freeHead_unpair, freeHead_disconnect]
      cases (c.block id).isCompanion <;> rfl

/-- The monitors after a block was cleared: those of its parts give them up. -/
theorem monitor_clearBlock (h : Clearable c id) (n : MonitorId) :
    (c.clearBlock id).monitor n =
      c.struck id n
        (match (c.block id).companion with
        | some o => c.struck o n (c.monitor n)
        | none => c.monitor n) := by
  rw [clearBlock_eq]
  cases ho : (c.block id).companion with
  | none =>
      have hsame := ShellSame.disconnect c id
      have hblock := unlinked_disconnect c id id h.lt
      dsimp only
      rw [monitor_retire n (by rw [hsame.size]; exact h.lt) fun m hm => ?_, monitor_disconnect]
      · refine struck_congr hsame.settings ?_ (c.monitor n)
        rw [hblock]
        split <;> rfl
      · rw [hsame.monitorsSize]
        refine h.owner m ?_
        rw [← hm, ← Block.unlinked_owner ((c.disconnect id).block id), hblock]
        split <;> rfl
  | some o =>
      have hsame := shellSame_detachPair c id o
      have hid := h.unlinked_detachPair ho id
      have hother := h.unlinked_detachPair ho o
      have hne := h.partner_ne o ho
      rw [if_pos (Or.inl rfl)] at hid
      rw [if_pos (Or.inr rfl)] at hother
      have howner : ((c.detachPair id o).block id).owner = (c.block id).owner := by
        simpa using congrArg Block.owner hid
      have howner' : ((c.detachPair id o).block o).owner = (c.block o).owner := by
        simpa using congrArg Block.owner hother
      have hretire : ((c.detachPair id o).retire o).block id = (c.detachPair id o).block id := by
        rw [block_retire _ o id (by rw [hsame.size]; exact h.partner_lt o ho), if_neg (Ne.symm hne)]
      dsimp only
      rw [monitor_retire n (by rw [(ShellSame.retire _ o).size, hsame.size]; exact h.lt) fun m hm => ?_,
        monitor_retire n (by rw [hsame.size]; exact h.partner_lt o ho) fun m hm => ?_, monitor_detachPair]
      · have hstruck : ((c.detachPair id o).retire o).struck id n = c.struck id n := by
          funext mon
          have hsettings := (hsame.trans (ShellSame.retire (c.detachPair id o) o)).settings
          rw [struck_congr hsettings (by rw [hretire, hid])]
        have hstruck' : (c.detachPair id o).struck o n = c.struck o n := by
          funext mon
          rw [struck_congr hsame.settings (by rw [hother])]
        rw [hstruck, hstruck']
      · rw [hsame.monitorsSize]
        exact h.partner_owner o ho m (howner' ▸ hm)
      · rw [(ShellSame.retire _ o).monitorsSize, hsame.monitorsSize]
        exact h.owner m (howner ▸ hretire ▸ hm)

/-! ### Links -/

section Links

variable {P : BlockId → Prop}

theorem linkSlot_modifyBlock (c : Cache) (id x : BlockId) {f : Block → Block} (hf : ∀ b, (f b).links = b.links) (k : Slot) :
    (c.modifyBlock id f).linkSlot x k = c.linkSlot x k := by
  rw [linkSlot, linkSlot, map_block_modifyBlock (g := Block.links) c id x hf]

theorem linked_modifyBlock (h : Linked c P) (id : BlockId) {f : Block → Block} (hf : ∀ b, (f b).links = b.links)
    (hstart : ∀ b, (f b).codeStart = b.codeStart) : Linked (c.modifyBlock id f) P :=
  h.congr (size_modifyBlock c id f) rfl rfl rfl (fun x k => linkSlot_modifyBlock c id x hf k)
    (fun x _ => map_block_modifyBlock (g := Block.codeStart) c id x hstart) fun _ hx => hx

theorem linked_modifyMonitor (h : Linked c P) (m : MonitorId) (f : Monitor → Monitor) : Linked (c.modifyMonitor m f) P :=
  h.congr rfl rfl rfl rfl (fun _ _ => rfl) (fun _ _ => rfl) fun _ hx => hx

theorem linked_modifyStats (h : Linked c P) (f : CacheStats → CacheStats) : Linked (c.modifyStats f) P :=
  h.congr rfl rfl rfl rfl (fun _ _ => rfl) (fun _ _ => rfl) fun _ hx => hx

theorem linked_retire (h : Linked c P) (id : BlockId) : Linked (c.retire id) P := by
  unfold retire
  refine linked_modifyBlock ?_ id (fun _ => rfl) fun _ => rfl
  split
  · have hdelisted := linked_modifyMonitor (linked_modifyBlock h id (f := fun b => { b with owner := none })
      (fun _ => rfl) fun _ => rfl)
    unfold delist
    dsimp only
    split
    · exact hdelisted _ _
    · exact linked_modifyStats (hdelisted _ _) _
  · exact h

theorem linked_disconnect (h : Linked c P) (hid : id < c.blocks.size) (hP : ∀ x, P x → (c.block x).isCompanion = false) :
    Linked (c.disconnect id) fun x => P x ∧ x ≠ id := by
  unfold disconnect
  dsimp only
  split
  · rename_i hcomp
    rw [block_modifyStats] at hcomp
    have hpush : Linked (c.modifyBlock id fun b => { b with freeNext := c.freeHead }) P :=
      linked_modifyBlock h id (fun _ => rfl) fun _ => rfl
    refine hpush.congr rfl rfl rfl rfl (fun _ _ => rfl) (fun _ _ => rfl) fun x hx => ⟨hx, ?_⟩
    rintro rfl
    rw [hP x hx] at hcomp
    exact absurd hcomp (by simp)
  · exact (linked_modifyStats h _).sever hid

theorem linked_unpair (h : Linked c P) (id o : BlockId) : Linked (c.unpair id o) P := by
  unfold unpair
  refine linked_modifyBlock ?_ o (fun _ => rfl) fun _ => rfl
  exact linked_modifyBlock h id (fun _ => rfl) fun _ => rfl

/-- No link runs from or to the part of a cleared block that had code of its own. -/
theorem linked_clearBlock (h : Clearable c id) (hlinked : Linked c P) (hP : ∀ x, P x → (c.block x).isCompanion = false) :
    Linked (c.clearBlock id) fun x => P x ∧ ¬c.Part id x := by
  have hfirst := linked_disconnect hlinked h.lt hP
  rw [clearBlock_eq]
  cases ho : (c.block id).companion with
  | none =>
      refine (linked_retire hfirst id).mono fun x hx => ⟨hx.1, ?_⟩
      rintro (rfl | hpart)
      · exact hx.2 rfl
      · rw [ho] at hpart
        exact absurd hpart (by simp)
  | some o =>
      have hsize := ((ShellSame.disconnect c id).trans (shellSame_unpair _ id o)).size
      have hkind : ∀ x, P x ∧ x ≠ id → (((c.disconnect id).unpair id o).block x).isCompanion = false := by
        rintro x ⟨hx, hxid⟩
        have hbucket := congrArg Block.bucket (unlinked_disconnect c id x h.lt)
        rw [if_neg fun h' => hxid h'.1] at hbucket
        simp only [Block.unlinked_bucket] at hbucket
        rw [Block.isCompanion, bucket_unpair, hbucket]
        exact hP x hx
      have hsecond := linked_disconnect (linked_unpair hfirst id o) (hsize ▸ h.partner_lt o ho) hkind
      refine (linked_retire (linked_retire hsecond o) id).mono fun x hx => ⟨hx.1.1, ?_⟩
      rintro (rfl | hpart)
      · exact hx.1.2 rfl
      · exact hx.2 (Option.some.inj (ho.symm.trans hpart)).symm

end Links

/-! ### Nothing amiss -/

section Calm

variable {P : BlockId → Prop}

/-- A block stands in the bucket of its owner where clearing looks for it. -/
def Listed (c : Cache) (x : BlockId) : Prop :=
  ∀ n, (c.block x).owner = some n → x ∈ (c.monitor n).bucket (c.block x).bucket

theorem anomalies_retire (hid : id < c.blocks.size) (hlisted : Listed c id) :
    (c.retire id).stats.anomalies = c.stats.anomalies := by
  unfold retire
  rw [stats_modifyBlock]
  split
  · rename_i m hm
    have hself : (c.modifyBlock id fun b => { b with owner := none }).block id = { c.block id with owner := none } :=
      block_modifyBlock_self hid _
    have hfound : (((c.modifyBlock id fun b => { b with owner := none }).monitor m).bucket
        ((c.modifyBlock id fun b => { b with owner := none }).block id).bucket).contains id = true := by
      rw [hself, List.contains_iff_mem]
      exact hlisted m hm
    unfold delist
    dsimp only
    rw [if_pos hfound]
    rfl
  · rfl

theorem anomalies_disconnect (h : Linked c P) (hid : id < c.blocks.size) :
    (c.disconnect id).stats.anomalies = c.stats.anomalies := by
  unfold disconnect
  dsimp only
  split
  · rfl
  · rw [(linked_modifyStats h _).stats_sever hid]
    rfl

/-- Clearing a block that stands where it is looked for finds nothing amiss. -/
theorem anomalies_clearBlock (h : Clearable c id) (hlinked : Linked c P) (hP : ∀ x, P x → (c.block x).isCompanion = false)
    (hlisted : ∀ x, c.Part id x → Listed c x) : (c.clearBlock id).stats.anomalies = c.stats.anomalies := by
  have hfirst := linked_disconnect hlinked h.lt hP
  rw [clearBlock_eq]
  cases ho : (c.block id).companion with
  | none =>
      have hsame := ShellSame.disconnect c id
      have hblock := unlinked_disconnect c id id h.lt
      dsimp only
      rw [anomalies_retire (by rw [hsame.size]; exact h.lt) fun n hn => ?_, anomalies_disconnect hlinked h.lt]
      have howner : ((c.disconnect id).block id).owner = (c.block id).owner := by
        rw [← Block.unlinked_owner ((c.disconnect id).block id), hblock]
        split <;> rfl
      have hbucket : ((c.disconnect id).block id).bucket = (c.block id).bucket := by
        rw [← Block.unlinked_bucket ((c.disconnect id).block id), hblock]
        split <;> rfl
      rw [monitor_disconnect, hbucket]
      exact hlisted id (c.part_self id) n (howner ▸ hn)
  | some o =>
      have hsame := shellSame_detachPair c id o
      have hne := h.partner_ne o ho
      have hlt : o < (c.detachPair id o).blocks.size := by
        rw [hsame.size]
        exact h.partner_lt o ho
      have hplace : ∀ x, ((c.detachPair id o).block x).owner = (c.block x).owner ∧
          ((c.detachPair id o).block x).bucket = (c.block x).bucket := by
        intro x
        rw [← Block.unlinked_owner ((c.detachPair id o).block x), ← Block.unlinked_bucket ((c.detachPair id o).block x),
          h.unlinked_detachPair ho x]
        split <;> exact ⟨rfl, rfl⟩
      have hlisted' : ∀ x, c.Part id x → Listed (c.detachPair id o) x := by
        intro x hx n hn
        rw [monitor_detachPair, (hplace x).2]
        exact hlisted x hx n ((hplace x).1 ▸ hn)
      have hdetach : (c.detachPair id o).stats.anomalies = c.stats.anomalies := by
        have hsize := ((ShellSame.disconnect c id).trans (shellSame_unpair _ id o)).size
        have hpartner : o < ((c.disconnect id).unpair id o).blocks.size := by
          rw [hsize]
          exact h.partner_lt o ho
        rw [detachPair, anomalies_disconnect (linked_unpair hfirst id o) hpartner, stats_unpair,
          anomalies_disconnect hlinked h.lt]
      have hblock : ((c.detachPair id o).retire o).block id = (c.detachPair id o).block id := by
        rw [block_retire _ o id hlt, if_neg hne.symm]
      dsimp only
      rw [anomalies_retire (by rw [(ShellSame.retire _ o).size, hsame.size]; exact h.lt) fun n hn => ?_,
        anomalies_retire hlt (hlisted' o (.inr ho)), hdetach]
      -- The other part is taken out first, which leaves this one where it stands.
      rw [hblock] at hn ⊢
      have hmem := hlisted' id (c.part_self id) n hn
      rw [monitor_retire n hlt fun n hn => by rw [hsame.monitorsSize]; exact h.partner_owner o ho n ((hplace o).1 ▸ hn), struck]
      split
      · rw [bucket_without]
        split
        · exact (List.mem_erase_of_ne hne.symm).mpr hmem
        · exact hmem
      · exact hmem

end Calm

end Clearable

end Cache

end Recompiler
