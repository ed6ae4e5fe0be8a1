import Recompiler.Proofs.Cache.Capped
import Recompiler.Proofs.Cache.Release

/-! Clearing all blocks of a page and releasing it. The blocks lose their owner before they are cleared, so that their
monitor keeps its accounts until the end, when they are blanked. The argument runs along a second cache in which the
same blocks are cleared one after the other: the two differ in the accounts of that monitor only. -/

namespace Recompiler.Cache

variable {c c' : Cache} {m n : MonitorId} {id x : BlockId} {E : Finset BlockId}

/-- Two caches that differ at most in links, the counts, and what one monitor accounts for: in the second one the
buckets below `k` of that monitor were emptied. -/
structure AccountsApart (m : MonitorId) (k : Nat) (c c' : Cache) : Prop where
  same : ShellSame c c'
  freeHead : c'.freeHead = c.freeHead
  unlinked : ∀ x, (c'.block x).unlinked = (c.block x).unlinked
  other : ∀ n, n ≠ m → c'.monitor n = c.monitor n
  core : (c'.monitor m).core = (c.monitor m).core
  bucketCount : (c'.monitor m).buckets.size = (c.monitor m).buckets.size
  done : ∀ j < k, (c'.monitor m).bucket j = []
  later : ∀ j, k ≤ j → (c'.monitor m).bucket j = (c.monitor m).bucket j
  linked : Linked c' c.Runnable
  calm : c'.stats.anomalies = 0

/-- Takes the owner of a block away. -/
def disown (c : Cache) (id : BlockId) : Cache :=
  c.modifyBlock id fun b => { b with owner := none }

/-- Clears blocks whose monitor does not give them up. -/
def clearDisowned (c : Cache) (ids : List BlockId) : Cache :=
  ids.foldl (fun c id => (c.disown id).clearBlock id) c

theorem clearBucket_eq (m : MonitorId) (c : Cache) (i : Nat) :
    clearBucket m c i =
      (c.modifyMonitor m fun mon => { mon with buckets := mon.buckets.setIfInBounds i [] }).clearDisowned
        ((c.monitor m).bucket i) :=
  rfl

namespace AccountsApart

variable {k : Nat}

theorem refl (m : MonitorId) (h : Sound c) : AccountsApart m 0 c c :=
  ⟨.refl c, rfl, fun _ => rfl, fun _ _ => rfl, rfl, rfl, by simp, fun _ _ => rfl, h.layout.linked, h.calm⟩

theorem block_disown (h : AccountsApart m k c c') (hid : id < c.blocks.size) (x : BlockId) :
    ((c'.disown id).block x).unlinked =
      if x = id then { (c.block x).unlinked with owner := none } else (c.block x).unlinked := by
  rw [disown, block_modifyBlock]
  by_cases hx : x = id
  · rw [if_pos ⟨hx, by rw [h.same.size, hx]; exact hid⟩, if_pos hx, ← h.unlinked x]
    rfl
  · rw [if_neg fun h' => hx h'.1, if_neg hx, h.unlinked]

section Step

variable (h : AccountsApart m k c c') (hs : Arranged c) (hid : (c.block id).owner = some m)
include h hs hid

omit hs in
theorem companion_disown : ((c'.disown id).block id).companion = (c.block id).companion := by
  have hb := congrArg Block.companion (h.block_disown (lt_size_of_live (live_iff.mpr ⟨m, hid⟩)) id)
  rw [if_pos rfl] at hb
  simpa using hb

omit hs in
theorem part_disown (x : BlockId) : (c'.disown id).Part id x ↔ c.Part id x := by
  rw [Part, Part, h.companion_disown hid]

omit hs in
theorem bucket_disown (x : BlockId) : ((c'.disown id).block x).bucket = (c.block x).bucket := by
  have hb := congrArg Block.bucket (h.block_disown (lt_size_of_live (live_iff.mpr ⟨m, hid⟩)) x)
  simp only [Block.unlinked_bucket] at hb
  rw [hb]
  split <;> rfl

omit hs in
theorem owner_disown : ((c'.disown id).block id).owner = none := by
  have hb := congrArg Block.owner (h.block_disown (lt_size_of_live (live_iff.mpr ⟨m, hid⟩)) id)
  rw [if_pos rfl] at hb
  simpa using hb

omit hs in
theorem owner_disown_ne (hx : x ≠ id) : ((c'.disown id).block x).owner = (c.block x).owner := by
  have hb := congrArg Block.owner (h.block_disown (lt_size_of_live (live_iff.mpr ⟨m, hid⟩)) x)
  rw [if_neg hx] at hb
  simpa using hb

theorem clearable_disown : Clearable (c'.disown id) id := by
  have hc := hs.clearable (live_iff.mpr ⟨m, hid⟩)
  have hcomp := h.companion_disown hid
  have hsame := h.same.trans (ShellSame.modifyBlock c' id fun b => { b with owner := none })
  refine ⟨?_, fun n hn => ?_, fun o ho => ?_, fun o ho => ?_, fun o ho n hn => ?_, fun o ho => ?_⟩
  · exact hsame.size ▸ hc.lt
  · rw [h.owner_disown hid] at hn
    exact absurd hn (by simp)
  · exact hsame.size ▸ hc.partner_lt o (hcomp ▸ ho)
  · exact hc.partner_ne o (hcomp ▸ ho)
  · rw [h.owner_disown_ne hid (hc.partner_ne o (hcomp ▸ ho))] at hn
    exact hsame.monitorsSize ▸ hc.partner_owner o (hcomp ▸ ho) n hn
  · rw [Block.isCompanion, Block.isCompanion, h.bucket_disown hid, h.bucket_disown hid]
    exact hc.partner_kind o (hcomp ▸ ho)

theorem monitor_clearDisowned (n : MonitorId) :
    ((c'.disown id).clearBlock id).monitor n =
      match (c.block id).companion with
      | some o => c.struck o n (c'.monitor n)
      | none => c'.monitor n := by
  have hc := hs.clearable (live_iff.mpr ⟨m, hid⟩)
  have hmon : (c'.disown id).monitor n = c'.monitor n := rfl
  rw [(h.clearable_disown hs hid).monitor_clearBlock, struck, h.owner_disown hid, if_neg (by simp), h.companion_disown hid, hmon]
  cases ho : (c.block id).companion with
  | none => rfl
  | some o =>
      have hother := h.block_disown hc.lt o
      rw [if_neg (hc.partner_ne o ho)] at hother
      have hsettings : (c'.disown id).settings = c.settings := h.same.settings
      exact struck_congr hsettings (by rw [hother]) _

omit hs hid in
theorem linked_disown (id : BlockId) : Linked (c'.disown id) c.Runnable :=
  Clearable.linked_modifyBlock h.linked id (fun _ => rfl) fun _ => rfl

end Step

theorem bucket_struck (c : Cache) (x : BlockId) (n : MonitorId) (mon : Monitor) (i : Nat) :
    (c.struck x n mon).bucket i =
      if (c.block x).owner = some n ∧ i = (c.block x).bucket then (mon.bucket i).erase x else mon.bucket i := by
  unfold struck
  by_cases howner : (c.block x).owner = some n
  · rw [if_pos howner, bucket_without]
    simp [howner]
  · rw [if_neg howner, if_neg fun h' => howner h'.1]

/-- Clearing a block of the bucket that is being emptied, in both caches. If its other part is a block of the same
monitor it stands in a later bucket, for those before have no blocks left. -/
theorem clearBlock (h : AccountsApart m (k + 1) c c') (hs : Sound c) (hid : (c.block id).owner = some m)
    (hbucket : (c.block id).bucket = k) (hfloor : ∀ x, (c.block x).owner = some m → k ≤ (c.block x).bucket) :
    AccountsApart m (k + 1) (c.clearBlock id) ((c'.disown id).clearBlock id) := by
  have hlive : (c.block id).live = true := live_iff.mpr ⟨m, hid⟩
  have hc := hs.clearable hlive
  have hc' := h.clearable_disown hs.toArranged hid
  have hmon := h.monitor_clearDisowned hs.toArranged hid
  have hsame := (h.same.trans (ShellSame.modifyBlock c' id fun b => { b with owner := none })).trans
    (ShellSame.clearBlock _ id)
  have hback := ShellSame.clearBlock c id
  have hP : ∀ x, c.Runnable x → ((c'.disown id).block x).isCompanion = false := by
    intro x hx
    rw [Block.isCompanion, h.bucket_disown hid]
    exact hx.2
  have hlisted : ∀ x, (c'.disown id).Part id x → Clearable.Listed (c'.disown id) x := by
    intro x hx n hn
    rw [h.part_disown hid] at hx
    have hxid : x ≠ id := by
      rintro rfl
      rw [h.owner_disown hid] at hn
      exact absurd hn (by simp)
    rw [h.owner_disown_ne hid hxid] at hn
    rw [h.bucket_disown hid]
    have hmem : x ∈ (c.monitor n).bucket (c.block x).bucket := (hs.registry.mem_bucket n _ x).mpr ⟨hn, rfl⟩
    change x ∈ (c'.monitor n).bucket _
    by_cases hnm : n = m
    · subst hnm
      have hkind := hc.partner_kind x (hx.resolve_left hxid)
      have hne : (c.block x).bucket ≠ k := by
        intro h'
        rw [Block.isCompanion, h', ← hbucket, ← Block.isCompanion] at hkind
        cases hcomp : (c.block id).isCompanion <;> simp [hcomp] at hkind
      rw [h.later _ (Nat.lt_of_le_of_ne (hfloor x hn) hne.symm)]
      exact hmem
    · rw [h.other n hnm]
      exact hmem
  refine ⟨?_, ?_, fun x => ?_, fun n hn => ?_, ?_, ?_, fun j hj => ?_, fun j hj => ?_, ?_, ?_⟩
  · exact ⟨hsame.shell.trans hback.shell.symm, hsame.size.trans hback.size.symm,
      hsame.monitorsSize.trans hback.monitorsSize.symm, hsame.tableSize.trans hback.tableSize.symm⟩
  · have hkind : ((c'.disown id).block id).isCompanion = (c.block id).isCompanion := by
      rw [Block.isCompanion, h.bucket_disown hid, Block.isCompanion]
    have hhead : (c'.disown id).freeHead = c.freeHead := h.freeHead
    rw [hc'.freeHead_clearBlock, hc.freeHead_clearBlock, hkind, hhead, h.companion_disown hid]
  · have hhead : (c'.disown id).freeHead = c.freeHead := h.freeHead
    rw [hc'.unlinked_clearBlock, hc.unlinked_clearBlock, h.block_disown hc.lt, hhead]
    simp only [h.part_disown hid]
    by_cases hx : c.Part id x
    · rw [if_pos hx, if_pos hx]
      split <;> rfl
    · rw [if_neg hx, if_neg hx, if_neg fun h' => hx (Or.inl h')]
  · rw [hmon, hc.monitor_clearBlock, struck, if_neg fun h' => hn (Option.some.inj (h'.symm.trans hid))]
    cases (c.block id).companion with
    | none => exact h.other n hn
    | some o => exact congrArg (c.struck o n) (h.other n hn)
  · rw [hmon, core_monitor_clearBlock hs.toArranged hlive, ← h.core]
    cases (c.block id).companion with
    | none => rfl
    | some o => exact core_struck
  · rw [hmon, hc.monitor_clearBlock, size_buckets_struck]
    cases (c.block id).companion with
    | none => exact h.bucketCount
    | some o =>
        dsimp only
        rw [size_buckets_struck, size_buckets_struck, h.bucketCount]
  · rw [hmon]
    cases (c.block id).companion with
    | none => exact h.done j hj
    | some o =>
        dsimp only
        rw [bucket_struck, h.done j hj]
        split <;> rfl
  · rw [hmon, hc.monitor_clearBlock, bucket_struck, if_neg fun h' => by omega]
    cases (c.block id).companion with
    | none => exact h.later j hj
    | some o =>
        dsimp only
        rw [bucket_struck, bucket_struck, h.later j hj]
  · refine (hc'.linked_clearBlock (h.linked_disown id) hP).mono fun x hx => ?_
    exact (runnable_clearBlock hs.toArranged hlive).mpr ⟨fun h' => hx.2 ((h.part_disown hid x).mpr h'), hx.1⟩
  · rw [hc'.anomalies_clearBlock (h.linked_disown id) hP hlisted]
    exact h.calm

/-- Other accounts for the monitor keep the two caches apart in those only. -/
theorem modifyMonitor {k' : Nat} (h : AccountsApart m k c c') (hm : m < c.monitors.size) {f : Monitor → Monitor}
    (hcore : ∀ mon, (f mon).core = mon.core) (hcount : ∀ mon, (f mon).buckets.size = mon.buckets.size)
    (hdone : ∀ j < k', (f (c'.monitor m)).bucket j = [])
    (hlater : ∀ j, k' ≤ j → (f (c'.monitor m)).bucket j = (c.monitor m).bucket j) :
    AccountsApart m k' c (c'.modifyMonitor m f) := by
  have hself : (c'.modifyMonitor m f).monitor m = f (c'.monitor m) :=
    monitor_modifyMonitor_self (by rw [h.same.monitorsSize]; exact hm) f
  refine ⟨h.same.trans (.modifyMonitor c' m f), h.freeHead, h.unlinked, fun n hn => ?_, ?_, ?_, ?_, ?_,
    Clearable.linked_modifyMonitor h.linked m f, h.calm⟩
  · rw [monitor_modifyMonitor_ne _ hn, h.other n hn]
  · rw [hself, hcore, h.core]
  · rw [hself, hcount, h.bucketCount]
  · rw [hself]
    exact hdone
  · rw [hself]
    exact hlater

end AccountsApart

/-- The blocks of a bucket are cleared; the accounts of their monitor are kept back. -/
theorem clearDisowned_spec {k : Nat} (h : AccountsApart m (k + 1) c c') (hs : Sound c)
    (hfloor : ∀ x, (c.block x).owner = some m → k ≤ (c.block x).bucket) {ids : List BlockId} (hnodup : ids.Nodup)
    (hids : ∀ id ∈ ids, (c.block id).owner = some m ∧ (c.block id).bucket = k) :
    ∃ c₁, AccountsApart m (k + 1) c₁ (c'.clearDisowned ids) ∧ Emptying m c c₁ ∧ ∀ id ∈ ids, (c₁.block id).live = false := by
  induction ids generalizing c c' with
  | nil => exact ⟨c, h, .refl c, by simp⟩
  | cons id ids ih =>
      obtain ⟨hnot, hnodup⟩ := List.nodup_cons.mp hnodup
      obtain ⟨hid, hbucket⟩ := hids id List.mem_cons_self
      have hlive : (c.block id).live = true := live_iff.mpr ⟨m, hid⟩
      have hc := hs.clearable hlive
      have hrest : ∀ x ∈ ids, ((c.clearBlock id).block x).owner = some m ∧ ((c.clearBlock id).block x).bucket = k := by
        intro x hx
        obtain ⟨hxowner, hxbucket⟩ := hids x (List.mem_cons_of_mem id hx)
        rw [hs.owner_clearBlock_of_bucket hlive (hxbucket.trans hbucket.symm) fun h' => hnot (h' ▸ hx), hc.bucket_clearBlock]
        exact ⟨hxowner, hxbucket⟩
      have hfloor' : ∀ x, ((c.clearBlock id).block x).owner = some m → k ≤ ((c.clearBlock id).block x).bucket := by
        intro x hx
        rw [hc.bucket_clearBlock]
        exact hfloor x (owner_of_clearBlock hs.toArranged hlive hx)
      obtain ⟨c₁, hapart, hempty, hgone⟩ :=
        ih (h.clearBlock hs hid hbucket hfloor) (hs.clearBlock hlive) hfloor' hnodup hrest
      refine ⟨c₁, hapart, .clear hid hempty, fun x hx => ?_⟩
      rcases List.mem_cons.mp hx with rfl | hx
      · rw [Bool.eq_false_iff]
        intro hxlive
        have hstill := (hempty.shrinks (hs.toArranged.clearBlock hlive)).live hxlive
        exact ((hc.live_clearBlock x).mp hstill).1 (c.part_self x)
      · exact hgone x hx

theorem clearBuckets_spec (hs : Sound c) (hm : m < c.monitors.size) {k : Nat} (hk : k ≤ (c.monitor m).buckets.size) :
    ∃ c₁, AccountsApart m k c₁ ((List.range k).foldl (clearBucket m) c) ∧ Emptying m c c₁ ∧
      ∀ x, (c₁.block x).owner = some m → k ≤ (c₁.block x).bucket := by
  induction k with
  | zero => exact ⟨c, .refl m hs, .refl c, by simp⟩
  | succ k ih =>
      obtain ⟨c₁, hapart, hempty, hfloor⟩ := ih (Nat.le_of_succ_le hk)
      rw [List.range_succ, List.foldl_append, List.foldl_cons, List.foldl_nil, clearBucket_eq]
      generalize (List.range k).foldl (clearBucket m) c = c' at hapart
      have hs₁ := hempty.sound hs
      have hshrinks := hempty.shrinks hs.toArranged
      have hm₁ : m < c₁.monitors.size := by
        rw [hshrinks.same.monitorsSize]
        exact hm
      have hcount : k < (c'.monitor m).buckets.size := by
        rw [hapart.bucketCount, hs₁.registry.bucketCount m hm₁, hshrinks.same.settings, ← hs.registry.bucketCount m hm]
        exact hk
      have hset : ∀ j, ({ c'.monitor m with buckets := (c'.monitor m).buckets.setIfInBounds k [] } : Monitor).bucket j =
          if j = k then [] else (c'.monitor m).bucket j := by
        intro j
        unfold Monitor.bucket
        rw [Array.getD_eq_getD_getElem?, Array.getD_eq_getD_getElem?, Array.getElem?_setIfInBounds]
        by_cases hj : k = j
        · subst hj
          simp [hcount]
        · rw [if_neg hj, if_neg (Ne.symm hj)]
      have hapart' : AccountsApart m (k + 1) c₁
          (c'.modifyMonitor m fun mon => { mon with buckets := mon.buckets.setIfInBounds k [] }) := by
        refine hapart.modifyMonitor hm₁ (fun _ => rfl) (fun mon => Array.size_setIfInBounds) (fun j hj => ?_) fun j hj => ?_
        · rw [hset]
          split
          · rfl
          · exact hapart.done j (by omega)
        · rw [hset, if_neg (by omega)]
          exact hapart.later j (Nat.le_of_succ_le hj)
      rw [hapart.later k le_rfl]
      obtain ⟨c₂, hapart₂, hempty₂, hgone⟩ := clearDisowned_spec hapart' hs₁ hfloor (hs₁.registry.nodup m k) fun x hx =>
        (hs₁.registry.mem_bucket m k x).mp hx
      refine ⟨c₂, hapart₂, hempty.trans hempty₂, fun x hx => ?_⟩
      have hlive : (c₂.block x).live = true := live_iff.mpr ⟨m, hx⟩
      have hcore := (hempty₂.shrinks hs₁.toArranged).core x hlive
      have howner : (c₁.block x).owner = some m := (Block.owner_eq_of_core hcore).symm.trans hx
      rw [Block.bucket_eq_of_core hcore]
      refine Nat.lt_of_le_of_ne (hfloor x howner) fun hkx => ?_
      have hdead := hgone x ((hs₁.registry.mem_bucket m k x).mpr ⟨howner, hkx.symm⟩)
      rw [hdead] at hlive
      exact absurd hlive (by simp)

section Blank

variable {k : Nat} (hapart : AccountsApart m k c c')
include hapart

theorem AccountsApart.tenant (x : BlockId) : (c'.block x).tenant = (c.block x).tenant :=
  Block.tenant_eq_of_core (Block.core_eq_of_unlinked_eq (hapart.unlinked x))

theorem AccountsApart.core_monitor (n : MonitorId) : (c'.monitor n).core = (c.monitor n).core := by
  by_cases hn : n = m
  · rw [hn, hapart.core]
  · rw [hapart.other n hn]

theorem AccountsApart.layout (h : Sound c) : Layout c' none := by
  obtain ⟨spans, free, hp⟩ := h.layout.pool
  have hcore := fun x => Block.core_eq_of_unlinked_eq (hapart.unlinked x)
  have hnext : (fun b => (c'.block b).arenaNext) = fun b => (c.block b).arenaNext :=
    funext fun b => Block.arenaNext_eq_of_core (hcore b)
  have hcode : (fun b => (c'.block b).codeSize) = fun b => (c.block b).codeSize :=
    funext fun b => Block.codeSize_eq_of_core (hcore b)
  refine ⟨⟨spans, free, ?_⟩, hapart.linked.mono fun x hx => ?_⟩
  · rw [hnext, hcode]
    refine hp.congr (fun x => Block.live_eq_of_core (hcore x)) (fun x => Block.isCompanion_eq_of_core (hcore x)) (fun x => ?_)
      (fun x => Block.codeStart_eq_of_core (hcore x)) hapart.freeHead hapart.same.size hapart.same.active hapart.same.settings
      hapart.same.blocksStart
    simpa using congrArg Block.freeNext (hapart.unlinked x)
  · rw [Runnable, Block.live_eq_of_core (hcore x), Block.isCompanion_eq_of_core (hcore x)]
    exact hx

variable (hnone : ∀ x, (c.block x).owner ≠ some m)
include hnone

/-- Blank accounts are the right ones for a monitor without blocks. -/
theorem Sound.blankAccounts (h : Sound c) (hbuckets : ∀ j, (c'.monitor m).bucket j = [])
    (hactive : (c'.monitor m).activeBlocks = 0) : Sound c' := by
  have hmcore := hapart.core_monitor
  have hinst : ∀ n, (c'.monitor n).installed = (c.monitor n).installed := fun n =>
    Monitor.installed_eq_of_core (hmcore n)
  have hold : ∀ j, (c.monitor m).bucket j = [] := fun j => List.eq_nil_iff_forall_not_mem.mpr fun x hx =>
    hnone x ((h.registry.mem_bucket m j x).mp hx).1
  have hbucketsEq : (c'.monitor m).buckets = (c.monitor m).buckets := by
    refine Array.ext hapart.bucketCount fun j hj hj' => ?_
    have hnew := hbuckets j
    have hpast := hold j
    rw [Monitor.bucket, Array.getD_eq_getD_getElem?, Array.getElem?_eq_getElem (by assumption), Option.getD_some] at hnew hpast
    rw [hnew, hpast]
  have hactiveEq : (c'.monitor m).activeBlocks = (c.monitor m).activeBlocks := by
    have howned : c.owned m = ∅ := Finset.eq_empty_iff_forall_notMem.mpr fun x hx => hnone x (mem_owned.mp hx)
    rw [hactive, h.registry.active m, howned, Finset.card_empty]
  have hsettings := hapart.same.settings
  refine ⟨⟨⟨?_, h.paired.congr hapart.tenant⟩, hsettings ▸ h.valid, ?_⟩, hapart.layout h, hapart.calm⟩
  · refine h.registry.congr hsettings (fun x => Block.claim_eq_of_tenant (hapart.tenant x)) hapart.same.monitorsSize
      (fun n => ?_) (fun id n hid => by rw [hinst]; exact h.registry.installed id n hid) fun n => ?_
    · by_cases hn : n = m
      · rw [hn, hbucketsEq]
      · rw [hapart.other n hn]
    · rw [← h.registry.active n]
      by_cases hnm : n = m
      · rw [hnm, hactiveEq]
      · rw [hapart.other n hnm]
  · exact h.watches.congr hapart.same.byPage hapart.same.freeMonitors hapart.same.newest hapart.same.oldest
      hapart.same.monitorsSize hmcore

theorem Exact.blankAccounts (h : Exact c E) (hm : (c.monitor m).installed = true) (hcover : (c'.monitor m).cover = noCover) :
    Exact c' E := by
  have hmcore := hapart.core_monitor
  have hcoverEq : (c'.monitor m).cover = (c.monitor m).cover := by
    have hempty : ∀ i, c.dependents m i = ∅ := fun i =>
      Finset.eq_empty_iff_forall_notMem.mpr fun x hx => hnone x (mem_dependents.mp hx).1
    have hsize := h.census.size m hm
    rw [hcover]
    refine Array.ext (by rw [hsize]; exact Array.size_replicate) fun i hi hi' => ?_
    have hcount := h.census.count m hm i (hsize ▸ hi')
    rw [hempty, Finset.empty_sdiff, Finset.card_empty, Array.getD_eq_getD_getElem?, Array.getElem?_eq_getElem hi',
      Option.getD_some] at hcount
    rw [UInt16.toNat_inj.mp (hcount.trans UInt16.toNat_zero.symm)]
    exact Array.getElem_replicate ..
  refine ⟨h.adjacent.congr hapart.tenant fun id n _ => Monitor.page_eq_of_core (hmcore n), ?_⟩
  refine h.census.congr (fun x => Block.claim_eq_of_tenant (hapart.tenant x)) fun n hn => ⟨?_, ?_⟩
  · rwa [Monitor.installed_eq_of_core (hmcore n)] at hn
  · by_cases hnm : n = m
    · rw [hnm, hcoverEq]
    · rw [hapart.other n hnm]

end Blank

/-! ### The page as a whole -/

/-- The second cache came from the first by clearing blocks, releasing pages without blocks and watching new ones: a
block that is left is the same block on the same page. -/
structure Narrows (c c' : Cache) : Prop where
  fixed : c'.shell.offPages = c.shell.offPages
  size : c'.blocks.size = c.blocks.size
  tableSize : c'.linkTable.size = c.linkTable.size
  monitorsSize : c'.monitors.size = c.monitors.size
  core : ∀ x, (c'.block x).live = true → (c'.block x).core = (c.block x).core
  station : ∀ x n, (c'.block x).owner = some n → (c'.monitor n).station = (c.monitor n).station

namespace Narrows

variable {c'' : Cache}

theorem refl (c : Cache) : Narrows c c :=
  ⟨rfl, rfl, rfl, rfl, fun _ _ => rfl, fun _ _ _ => rfl⟩

theorem live (h : Narrows c c') (hx : (c'.block x).live = true) : (c.block x).live = true := by
  rwa [Block.live_eq_of_core (h.core x hx)] at hx

theorem owner (h : Narrows c c') (hx : (c'.block x).owner = some n) : (c.block x).owner = some n := by
  rwa [Block.owner_eq_of_core (h.core x (live_iff.mpr ⟨n, hx⟩))] at hx

theorem trans (h : Narrows c c') (h' : Narrows c' c'') : Narrows c c'' where
  fixed := h'.fixed.trans h.fixed
  size := h'.size.trans h.size
  tableSize := h'.tableSize.trans h.tableSize
  monitorsSize := h'.monitorsSize.trans h.monitorsSize
  core x hx := (h'.core x hx).trans (h.core x (h'.live hx))
  station x n hx := (h'.station x n hx).trans (h.station x n (h'.owner hx))

theorem of_shrinks (h : Shrinks c c') : Narrows c c' where
  fixed := congrArg offPages h.same.shell
  size := h.same.size
  tableSize := h.same.tableSize
  monitorsSize := h.same.monitorsSize
  core := h.core
  station _ n _ := Monitor.station_eq_of_core (h.monitor n)

theorem of_pagesApart (h : PagesApart c c')
    (hstation : ∀ x n, (c.block x).owner = some n → (c'.monitor n).station = (c.monitor n).station) : Narrows c c' where
  fixed := congrArg shell h.offPages
  size := by rw [h.blocks]
  tableSize := by
    have hfield := congrArg Cache.linkTable h.offPages
    exact congrArg Array.size hfield
  monitorsSize := h.size
  core x _ := by rw [h.block]
  station x n hx := hstation x n (h.block x ▸ hx)

theorem settings (h : Narrows c c') : c'.settings = c.settings := by
  have hfield := congrArg Cache.settings h.fixed
  exact hfield

theorem stubs (h : Narrows c c') : c'.stubs = c.stubs := by
  have hfield := congrArg Cache.stubs h.fixed
  exact hfield

/-- The code of a block that is left stays where it is. -/
theorem codeAddr (h : Narrows c c') (hx : (c'.block x).live = true) : c'.codeAddr x = c.codeAddr x := by
  have hbase : c'.arenaBase = c.arenaBase := by
    have hfield := congrArg Cache.arenaBase h.fixed
    exact hfield
  rw [Cache.codeAddr, Cache.codeAddr, hbase, Block.codeStart_eq_of_core (h.core x hx)]

theorem runnable (h : Narrows c c') (hlive : (c'.block x).live = true) (hord : (c'.block x).isCompanion = false) :
    (c.block x).live = true ∧ (c.block x).isCompanion = false := by
  have hcore := h.core x hlive
  exact ⟨Block.live_eq_of_core hcore ▸ hlive, Block.isCompanion_eq_of_core hcore ▸ hord⟩

/-- Linking two blocks changes links only. -/
theorem link (c : Cache) (id : BlockId) (k : Slot) (target : BlockId) : Narrows c (c.link id k target) := by
  have hapart := LinksApart.link c id k target
  exact ⟨congrArg offPages hapart.shell, hapart.size, hapart.tableSize, congrArg Array.size hapart.monitors,
    fun x _ => hapart.core x, fun _ n _ => congrArg Monitor.station (hapart.monitor n)⟩

end Narrows

/-- What clearing and releasing a page achieves. -/
structure PageCleared (m : MonitorId) (c c' : Cache) : Prop where
  sound : Sound c'
  exact : ∀ E, Counted c m E → Exact c E → Exact c' E
  narrows : Narrows c c'
  gone : ∀ x, (c'.block x).owner ≠ some m
  alone : ∀ x, (c.block x).live = true → (c.block x).owner ≠ some m → (c.block x).companion = none →
    (c'.block x).live = true
  installed : ∀ n, (c'.monitor n).installed = true ↔ n ≠ m ∧ (c.monitor n).installed = true
  station : ∀ n, (c'.monitor n).station = (c.monitor n).station
  free : c'.freeMonitors = m :: c.freeMonitors
  capped : ∀ U, CappedAt c U → CappedAt c' U
  tallied : ∀ n, n ≠ m → Tallied c n → Tallied c' n
  spared : ∀ x, (c.block x).live = true → (∀ y, (c.block y).owner = some m → ¬c.Part y x) → (c'.block x).live = true
  place : ∀ x, (c'.block x).place = (c.block x).place

theorem bucket_lt_of_owner (h : Registry c) (hx : (c.block x).owner = some m) :
    (c.block x).bucket < (c.monitor m).buckets.size := by
  have hmem := (h.mem_bucket m _ x).mpr ⟨hx, rfl⟩
  by_contra hlt
  rw [Monitor.bucket, Array.getD_eq_getD_getElem?, Array.getElem?_eq_none (Nat.le_of_not_lt hlt)] at hmem
  exact absurd hmem (by simp)

theorem station_release (h : Watches c) (hm : (c.monitor m).installed = true) (n : MonitorId) :
    ((c.release m).monitor n).station = (c.monitor n).station := by
  rw [monitor_release h hm]
  split
  · rename_i hn
    rw [hn]
    rfl
  · rfl

theorem installed_release (h : Watches c) (hm : (c.monitor m).installed = true) (n : MonitorId) :
    ((c.release m).monitor n).installed = true ↔ n ≠ m ∧ (c.monitor n).installed = true := by
  rw [monitor_release h hm]
  split
  · rename_i hn
    simp [hn, Monitor.idle]
  · rename_i hn
    simp [hn, Monitor.skip]

theorem cover_release (h : Watches c) (hm : (c.monitor m).installed = true) (n : MonitorId) :
    ((c.release m).monitor n).cover = (c.monitor n).cover := by
  rw [monitor_release h hm]
  split
  · rename_i hn
    rw [hn]
    rfl
  · rfl

theorem CappedAt.release {U : Nat → Finset BlockId} (hcap : CappedAt c U) (h : Watches c)
    (hm : (c.monitor m).installed = true) : CappedAt (c.release m) U :=
  hcap.congr (fun x => by rw [(PagesApart.release c m).block]) (cover_release h hm)

theorem clearRelease_spec (hs : Sound c) (hm : (c.monitor m).installed = true) : PageCleared m c (c.clearRelease m) := by
  obtain ⟨c₁, hapart, hempty, hfloor⟩ := clearBuckets_spec hs (lt_size_of_installed hm) (k := (c.monitor m).buckets.size) le_rfl
  have hs₁ := hempty.sound hs
  have hshrinks := hempty.shrinks hs.toArranged
  have hinst₁ : ∀ n, (c₁.monitor n).installed = (c.monitor n).installed := fun n =>
    Monitor.installed_eq_of_core (hshrinks.monitor n)
  have hm₁ : (c₁.monitor m).installed = true := hinst₁ m ▸ hm
  have hcount₁ : (c₁.monitor m).buckets.size = (c.monitor m).buckets.size := by
    rw [hs₁.registry.bucketCount m (lt_size_of_installed hm₁), hshrinks.same.settings,
      hs.registry.bucketCount m (lt_size_of_installed hm)]
  have hnone : ∀ x, (c₁.block x).owner ≠ some m := by
    intro x hx
    have hlt := bucket_lt_of_owner hs₁.registry hx
    rw [hcount₁] at hlt
    exact absurd (hfloor x hx) (Nat.not_le.mpr hlt)
  unfold clearRelease
  dsimp only
  generalize (List.range (c.monitor m).buckets.size).foldl (clearBucket m) c = c₂ at hapart
  have hempty₂ : ∀ j, (c₂.monitor m).bucket j = [] := by
    intro j
    by_cases hj : j < (c.monitor m).buckets.size
    · exact hapart.done j hj
    · rw [Monitor.bucket, Array.getD_eq_getD_getElem?,
        Array.getElem?_eq_none (by rw [hapart.bucketCount, hcount₁]; exact Nat.le_of_not_lt hj), Option.getD_none]
  have hblank : AccountsApart m (c.monitor m).buckets.size c₁
      (c₂.modifyMonitor m fun mon => { mon with activeBlocks := 0, cover := noCover }) :=
    hapart.modifyMonitor (lt_size_of_installed hm₁) (fun _ => rfl) (fun _ => rfl) hapart.done hapart.later
  have hlt : m < c₂.monitors.size := by
    rw [hapart.same.monitorsSize]
    exact lt_size_of_installed hm₁
  have hself := monitor_modifyMonitor_self hlt fun mon : Monitor => { mon with activeBlocks := 0, cover := noCover }
  have hsound : Sound (c₂.modifyMonitor m fun mon => { mon with activeBlocks := 0, cover := noCover }) :=
    hs₁.blankAccounts hblank hnone (fun j => by rw [hself]; exact hempty₂ j) (by rw [hself])
  have hexact : ∀ E, Counted c m E → Exact c E →
      Exact (c₂.modifyMonitor m fun mon => { mon with activeBlocks := 0, cover := noCover }) E := fun E hE he =>
    (hempty.exact hs.toArranged hE he).blankAccounts hblank hnone hm₁ (by rw [hself])
  have hcover : ((c₂.modifyMonitor m fun mon => { mon with activeBlocks := 0, cover := noCover }).monitor m).cover = noCover := by
    rw [hself]
  generalize c₂.modifyMonitor m _ = c₃ at hblank hsound hexact hcover
  have hcore := hblank.core_monitor
  have hinst₃ : ∀ n, (c₃.monitor n).installed = (c.monitor n).installed := fun n =>
    (Monitor.installed_eq_of_core (hcore n)).trans (hinst₁ n)
  have hm₃ : (c₃.monitor m).installed = true := hinst₃ m ▸ hm
  have hblock₃ : ∀ x, (c₃.block x).core = (c₁.block x).core := fun x =>
    Block.core_eq_of_unlinked_eq (hblank.unlinked x)
  have hnone₃ : ∀ x, (c₃.block x).owner ≠ some m := fun x => by
    rw [Block.owner_eq_of_core (hblock₃ x)]
    exact hnone x
  have hapart₃ := PagesApart.release c₃ m
  have hstation := station_release hsound.watches hm₃
  have hclaim₃ : ∀ x, (c₃.block x).claim = (c₁.block x).claim := fun x => Block.claim_eq_of_core (hblock₃ x)
  have hkeep : ∀ n, n ≠ m → (c₃.monitor n).cover = (c₁.monitor n).cover := fun n hn => by rw [hblank.other n hn]
  refine ⟨hsound.release hm₃ hnone₃, fun E hE he => (hexact E hE he).release hm₃ hnone₃ hsound.watches, ?_, fun x => ?_,
    fun x hx howner hcomp => ?_, fun n => ?_, fun n => ?_, ?_, fun U hcap => ?_, fun n hn ht => ?_, fun x hx hother => ?_,
    fun x => ?_⟩
  · refine (Narrows.of_shrinks (hshrinks.trans ⟨hblank.same, fun x _ => hblock₃ x, hcore⟩)).trans ?_
    exact .of_pagesApart hapart₃ fun x n _ => hstation n
  · rw [hapart₃.block]
    exact hnone₃ x
  · rw [hapart₃.block, Block.live_eq_of_core (hblock₃ x)]
    exact hempty.alone hs.toArranged hx howner hcomp
  · rw [installed_release hsound.watches hm₃, hinst₃]
  · rw [hstation, Monitor.station_eq_of_core (hcore n), Monitor.station_eq_of_core (hshrinks.monitor n)]
  · rw [freeMonitors_release, hblank.same.freeMonitors, hshrinks.same.freeMonitors]
  · have hcap₁ := hempty.capped hs.toArranged hcap
    exact (hcap₁.blank (dependents_congr hclaim₃) hcover hkeep).release hsound.watches hm₃
  · refine ((hempty.tallied hs.toArranged ht).congr hclaim₃ (hkeep n hn)).congr (fun x => ?_) (cover_release hsound.watches hm₃ n)
    rw [hapart₃.block]
  · rw [hapart₃.block, Block.live_eq_of_core (hblock₃ x)]
    exact hempty.spared hs.toArranged hx hother
  · rw [hapart₃.block, Block.place_eq_of_core (hblock₃ x)]
    exact hempty.place hs.toArranged x

end Recompiler.Cache
